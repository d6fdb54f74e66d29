import SsAndroid.Libev.Aead

/-!
# What a context has read

`Tracks c ctx input delivered` relates a context that decrypts to the bytes it was given and to the
plaintext it gave out: after the salt, these are the chunks that `drain` takes from all bytes at
once.  **`aeadDecrypt_receives`** is the inversion of `aead_decrypt`: whatever the next bytes are, it
keeps `Tracks`, or it fails because the salt was seen or because a chunk is not authentic.

`sealed` are the chunks of a context that encrypts, each part with the nonce it is sealed under;
**`drain_authentic`** is for a reader that knows only that nothing was forged.
-/

namespace SsAndroid

namespace Aead

open Crypto (Decrypted)
open Ppbloom (Filter Sizes ppbloomCheck ppbloomAdd)
open Frames (Taken Decoder Drained drain)

/-- The chunks that are read from the bytes after the salt. -/
def chunksOf (c : Cipher) (input : List UInt8) : Drained (List UInt8) UInt8 UInt8 :=
  drain (chunkDecoder c (c.subkey (input.take c.keyLen))) (nonceAt c 0) (input.drop c.keyLen)

inductive Tracks (c : Cipher) (ctx : CipherCtx) (input delivered : List UInt8) : Prop where
  | waiting (init : ctx.init = 0) (chunk : ctx.chunk = input) (short : input.length ≤ c.keyLen)
      (none : delivered = [])
  | reading (init : ctx.init = 1 ∧ delivered = [] ∨ ctx.init = 2) (long : c.keyLen < input.length)
      (salt : ctx.salt = input.take c.keyLen) (skey : ctx.skey = c.subkey ctx.salt)
      (chunks : chunksOf c input = ⟨ctx.nonce, delivered, ctx.chunk, false⟩)

/-- What `aead_decrypt` does with the next bytes. -/
inductive Receives (c : Cipher) (sz : Sizes) (pp : Filter) (ctx : CipherCtx)
    (input delivered bytes : List UInt8) : Decrypted → Filter → CipherCtx → Prop where
  | needMore {ctx' : CipherCtx} (init : ctx'.init = 2 ↔ ctx.init = 2)
      (tracks : Tracks c ctx' (input ++ bytes) delivered) :
      Receives c sz pp ctx input delivered bytes .needMore pp ctx'
  | accepted {ctx' : CipherCtx} {p : List UInt8} (before : ctx.init ≠ 2) (init : ctx'.init = 2)
      (fresh : ppbloomCheck pp ctx'.salt = false)
      (tracks : Tracks c ctx' (input ++ bytes) (delivered ++ p)) :
      Receives c sz pp ctx input delivered bytes (.ok p) (ppbloomAdd sz pp ctx'.salt) ctx'
  | more {ctx' : CipherCtx} {p : List UInt8} (before : ctx.init = 2) (init : ctx'.init = 2)
      (salt : ctx'.salt = ctx.salt) (tracks : Tracks c ctx' (input ++ bytes) (delivered ++ p)) :
      Receives c sz pp ctx input delivered bytes (.ok p) pp ctx'
  | replayed {ctx' : CipherCtx} (before : ctx.init ≠ 2) (long : c.keyLen < (input ++ bytes).length)
      (found : ppbloomCheck pp ((input ++ bytes).take c.keyLen) = true) :
      Receives c sz pp ctx input delivered bytes .error pp ctx'
  | refused {ctx' : CipherCtx} (long : c.keyLen < (input ++ bytes).length)
      (refused : (chunksOf c (input ++ bytes)).refused = true) :
      Receives c sz pp ctx input delivered bytes .error pp ctx'

/-! ### The loop over the chunks -/

/-- The loop, from a context whose buffer already holds the next bytes, is the drain of all of them. -/
theorem aeadDecryptChunks_receives {c : Cipher} {sz : Sizes} {pp : Filter} {ctx ctx₀ : CipherCtx}
    {input delivered bytes : List UInt8} (hlong : c.keyLen < (input ++ bytes).length)
    (hinit : ctx.init = 1 ∧ delivered = [] ∧ ctx₀.init ≠ 2 ∨
      ctx.init = 2 ∧ ctx₀.init = 2 ∧ ctx.salt = ctx₀.salt)
    (hsalt : ctx.salt = (input ++ bytes).take c.keyLen) (hskey : ctx.skey = c.subkey ctx.salt)
    (hchunks : (chunksOf c (input ++ bytes)).Same
      ((drain (chunkDecoder c ctx.skey) ctx.nonce ctx.chunk).after delivered)) :
    let r := aeadDecryptChunks c sz pp ctx
    Receives c sz pp ctx₀ input delivered bytes r.1 r.2.1 r.2.2 := by
  obtain ⟨hstate, hout, hrefused, hrest⟩ := hchunks
  have htracks : ∀ k, (drain (chunkDecoder c ctx.skey) ctx.nonce ctx.chunk).refused = false →
      k = 1 ∧ delivered ++ (drain (chunkDecoder c ctx.skey) ctx.nonce ctx.chunk).out = [] ∨ k = 2 →
      Tracks c
        { ctx with
          init := k
          nonce := (drain (chunkDecoder c ctx.skey) ctx.nonce ctx.chunk).state
          chunk := (drain (chunkDecoder c ctx.skey) ctx.nonce ctx.chunk).rest }
        (input ++ bytes) (delivered ++ (drain (chunkDecoder c ctx.skey) ctx.nonce ctx.chunk).out) := by
    intro k hr hk
    refine .reading hk hlong hsalt hskey ?_
    have hr' : (chunksOf c (input ++ bytes)).refused = false := hrefused.trans hr
    have hrest := hrest hr'
    rw [← Drained.out_after, ← Drained.state_after delivered, ← Drained.rest_after delivered,
      ← hstate, ← hout, ← hrest, ← hr']
  dsimp only
  rw [aeadDecryptChunks]
  generalize drain (chunkDecoder c ctx.skey) ctx.nonce ctx.chunk = r at *
  dsimp only
  split
  · rename_i hr
    exact .refused hlong (hrefused.trans hr)
  rename_i hr
  have hr : r.refused = false := by simpa using hr
  split
  · rename_i hnone
    have hout : delivered ++ r.out = delivered := by rw [hnone.1, List.append_nil]
    rw [hout] at htracks
    obtain ⟨h1, hd, h2⟩ | ⟨h2, h20, -⟩ := hinit
    · have hctx := htracks 1 hr (.inl ⟨rfl, hd⟩)
      rw [← h1] at hctx
      exact .needMore (by simp [h1, h2]) hctx
    · have hctx := htracks 2 hr (.inr rfl)
      rw [← h2] at hctx
      exact .needMore (by simp [h2, h20]) hctx
  split
  · rename_i h1
    have h20 : ctx₀.init ≠ 2 := by
      obtain ⟨-, -, h⟩ | ⟨h, -, -⟩ := hinit
      · exact h
      · omega
    split
    · rename_i hfound
      exact .replayed h20 hlong (hsalt ▸ hfound)
    · rename_i hfresh
      exact .accepted h20 rfl (by simpa using hfresh) (htracks 2 hr (.inr rfl))
  · rename_i h1
    obtain ⟨h, -, -⟩ | ⟨h2, h20, hs⟩ := hinit
    · exact absurd h h1
    · have hctx := htracks 2 hr (.inr rfl)
      rw [← h2] at hctx
      exact .more h20 h2 hs hctx

/-! ### aead_decrypt -/

theorem tracks_init (c : Cipher) (salt : List UInt8) : Tracks c (aeadCtxInit salt) [] [] :=
  .waiting rfl rfl (Nat.zero_le _) rfl

/-- More bytes for a stream whose salt is complete. -/
theorem chunksOf_append {c : Cipher} {input : List UInt8} (hlong : c.keyLen < input.length)
    (bytes : List UInt8) :
    (Frames.feed (chunkDecoder c (c.subkey (input.take c.keyLen))) (chunksOf c input) bytes).Same
      (chunksOf c (input ++ bytes)) := by
  have h := Frames.feed_drain (chunkDecoder_steady c (c.subkey (input.take c.keyLen))) (nonceAt c 0)
    (input.drop c.keyLen) bytes
  rwa [chunksOf, chunksOf, List.take_append_of_le_length (by omega),
    List.drop_append_of_le_length (by omega)]

/-- **Whatever the next bytes are, the context keeps up with the stream or fails.** -/
theorem aeadDecrypt_receives {c : Cipher} (sz : Sizes) (pp : Filter) {ctx : CipherCtx}
    {input delivered : List UInt8} (h : Tracks c ctx input delivered) (bytes : List UInt8) :
    let r := aeadDecrypt c sz pp ctx bytes
    Receives c sz pp ctx input delivered bytes r.1 r.2.1 r.2.2 := by
  dsimp only
  rw [aeadDecrypt]
  dsimp only
  cases h with
  | waiting hinit hchunk hshort hnone =>
    subst hnone
    rw [if_pos hinit, hchunk]
    split
    · rename_i hlen
      exact .needMore Iff.rfl (.waiting hinit rfl hlen rfl)
    rename_i hlen
    have hlong : c.keyLen < (input ++ bytes).length := Nat.lt_of_not_le hlen
    split
    · rename_i hfound
      exact .replayed (by omega) hlong hfound
    · refine aeadDecryptChunks_receives hlong (.inl ⟨rfl, rfl, by omega⟩) rfl rfl ?_
      exact .refl _
  | reading hinit hlong hsalt hskey hchunks =>
    have h0 : ¬ctx.init = 0 := by
      obtain ⟨h1, -⟩ | h2 := hinit <;> omega
    rw [if_neg h0]
    have hlong' : c.keyLen < (input ++ bytes).length := by
      rw [List.length_append]
      omega
    have hsalt' : ctx.salt = (input ++ bytes).take c.keyLen := by
      rw [hsalt, List.take_append_of_le_length (by omega)]
    have happend := chunksOf_append hlong bytes
    rw [← hsalt, ← hskey, hchunks, Frames.feed] at happend
    refine aeadDecryptChunks_receives hlong' ?_ hsalt' hskey
      ⟨happend.1.symm, happend.2.1.symm, happend.2.2.1.symm, fun hr =>
        (happend.2.2.2 (happend.2.2.1.trans hr)).symm⟩
    exact hinit.imp (fun h => ⟨h.1, h.2, by omega⟩) (fun h => ⟨h, h, rfl⟩)

/-! ### Nothing forged -/

/-- The parts of the chunks of a stream, with the number of the nonce each one is sealed under. -/
def sealedParts (ps : List (List UInt8)) : List (Nat × List UInt8) :=
  ps.zipIdx.flatMap fun p => [(2 * p.2, lenBuf p.1.length), (2 * p.2 + 1, p.1)]

theorem mem_sealedParts {ps : List (List UInt8)} {n : Nat} {x : List UInt8} :
    (n, x) ∈ sealedParts ps ↔ ∃ i p, ps[i]? = some p ∧
      (n = 2 * i ∧ x = lenBuf p.length ∨ n = 2 * i + 1 ∧ x = p) := by
  rw [sealedParts, List.mem_flatMap]
  constructor
  · rintro ⟨⟨p, i⟩, hp, hx⟩
    refine ⟨i, p, List.mem_zipIdx_iff_getElem?.mp hp, ?_⟩
    simpa using hx
  · rintro ⟨i, p, hp, hx⟩
    refine ⟨(p, i), List.mem_zipIdx_iff_getElem?.mpr hp, ?_⟩
    simpa using hx

/-- What can be decrypted in `input` under the key of its salt is a part of the chunks of `ps`, or
is a datagram, under the first nonce. -/
def Authentic (c : Cipher) (input : List UInt8) (ps : List (List UInt8)) : Prop :=
  ∀ n x m, n.length = c.nonceLen → x <:+: input →
    c.cipherDecrypt (c.subkey (input.take c.keyLen)) n x = some m →
      ∃ k, n = nonceAt c k ∧ k < 256 ^ c.nonceLen ∧ ((k, m) ∈ sealedParts ps ∨ k = 0)

/-- **If nothing was forged, what is read is the beginning of what was sent.** -/
theorem chunksOf_authentic {c : Cipher} {input : List UInt8} {ps : List (List UInt8)}
    (h : Authentic c input ps) (hps : 2 * ps.length + 2 ≤ 256 ^ c.nonceLen) :
    ∃ n, n ≤ ps.length ∧ (chunksOf c input).out = (ps.take n).flatten := by
  have hinput : input.drop c.keyLen <:+ input := List.drop_suffix _ _
  refine Frames.drain_genuine (d := chunkDecoder c (c.subkey (input.take c.keyLen)))
    (fun i => nonceAt c (2 * i)) ?_ ?_
  · intro i n' buf p rest hi hbuf ht
    obtain ⟨len, hlen, -, -, hp, hn', -⟩ := aeadChunkDecrypt_item ht
    have hpart : ∀ k l, (buf.drop k).take l <:+: input := fun k l =>
      ((List.take_prefix _ _).isInfix.trans (List.drop_suffix _ _).isInfix).trans
        (hbuf.trans hinput).isInfix
    rw [← nonceAt_succ] at hp hn'
    rw [← nonceAt_succ] at hn'
    obtain ⟨k, hk, hklt, hmem⟩ := h _ _ _ (length_nonceAt c _) (hpart _ _) hp
    have hik : 2 * i + 1 = k := nonceAt_injective (by omega) hklt hk
    have hmem : (k, p) ∈ sealedParts ps := hmem.resolve_right (by omega)
    obtain ⟨j, q, hq, ⟨hodd, -⟩ | ⟨hodd, hpq⟩⟩ := mem_sealedParts.mp hmem
    · omega
    · obtain rfl : i = j := by omega
      exact ⟨hpq ▸ hq, hn'⟩
  · intro n n' buf p rest ht
    obtain ⟨-, -, -, -, -, -, rfl⟩ := aeadChunkDecrypt_item ht
    exact List.drop_suffix _ _

end Aead

end SsAndroid
