import SsAndroid.Lib.Machine
import SsAndroid.Libev.Crypto
import SsAndroid.Libev.Ppbloom

/-!
# Stream ciphers

`stream.c`: a stream is a nonce and then the bytes, xored with a key stream.  For the ciphers of
libsodium the context keeps a counter of bytes; as their key stream is asked for in blocks of 64
bytes, what is xored is padded to the start of a block.  For the others the library keeps the state.
The block counter of `chacha20-ietf` has 32 bits: the code cuts it off, and libsodium aborts when it
would overflow, so a nonce is good for `limit` bytes.

Both are one transducer of bytes, `apply`, for which the pieces do not matter (`apply_append`).
**`delivered_of_stream`**: within the limit, whatever the pieces are that are written, and the pieces
that arrive, neither side aborts, and every byte that has arrived behind the nonce has been given out,
decrypted and in its place.
-/

namespace SsAndroid

namespace StreamCipher

open Crypto (Decrypted)
open Ppbloom (Filter Sizes ppbloomInit ppbloomCheck ppbloomAdd)

def RC4_MD5 : Nat := 2

def SALSA20 : Nat := 18

def CHACHA20IETF : Nat := 20

def sodiumBlockSize : Nat := 64

/-- `cipher_t`, with the key streams of libsodium and the cipher contexts of mbed TLS for its key. -/
structure Cipher (σ : Type) where
  method : Nat
  nonceLen : Nat
  keystream : List UInt8 → Nat → UInt8
  setNonce : List UInt8 → (enc : Bool) → σ
  update : σ → List UInt8 → List UInt8 × σ

/-- What the code relies on: the library goes on where it stopped, and decrypts what it encrypted. -/
structure Cipher.Correct {σ : Type} (c : Cipher σ) : Prop where
  length_update : ∀ s a, (c.update s a).1.length = a.length
  update_nil : ∀ s, (c.update s []).2 = s
  update_append : ∀ s a b, c.update s (a ++ b) =
    ((c.update s a).1 ++ (c.update (c.update s a).2 b).1, (c.update (c.update s a).2 b).2)
  update_update : ∀ n p, (c.update (c.setNonce n false) (c.update (c.setNonce n true) p).1).1 = p

/-- `cipher_ctx_t`. -/
structure CipherCtx (σ : Type) where
  init : Nat
  counter : Nat
  evp : Option σ
  chunk : List UInt8
  nonce : List UInt8
deriving DecidableEq

variable {σ : Type}

def streamCtxInit (nonce : List UInt8) : CipherCtx σ := ⟨0, 0, none, [], nonce⟩

/-- The key stream from the block `ic` on. -/
def streamXorIc (c : Cipher σ) (m nonce : List UInt8) (ic : Nat) : List UInt8 :=
  m.mapIdx fun j b => b ^^^ c.keystream nonce (sodiumBlockSize * ic + j)

/-- `crypto_stream_xor_ic`; `none` is `sodium_misuse`, which aborts the process. -/
def cryptoStreamXorIc (c : Cipher σ) (m nonce : List UInt8) (ic : Nat) : Option (List UInt8) :=
  if c.method = CHACHA20IETF then
    let ic := ic % 2 ^ 32
    if (2 ^ 32 + 2 ^ 64 - (m.length + 63) / 64) % 2 ^ 64 < ic then none
    else some (streamXorIc c m nonce ic)
  else some (streamXorIc c m nonce ic)

/-- What is done with the bytes of a stream, in both directions. -/
def transform (c : Cipher σ) (ctx : CipherCtx σ) (enc : Bool) (m : List UInt8) :
    Option (List UInt8 × CipherCtx σ) :=
  if SALSA20 ≤ c.method then
    let padding := ctx.counter % sodiumBlockSize
    (cryptoStreamXorIc c (List.replicate padding 0 ++ m) ctx.nonce
      (ctx.counter / sodiumBlockSize)).map fun out =>
        (out.drop padding, { ctx with counter := (ctx.counter + m.length) % 2 ^ 64 })
  else
    let r := c.update (ctx.evp.getD (c.setNonce ctx.nonce enc)) m
    some (r.1, { ctx with evp := some r.2 })

/-- `cipher_ctx_set_nonce`, which is for the ciphers of mbed TLS alone, and what is set with it. -/
def cipherCtxSetNonce (c : Cipher σ) (ctx : CipherCtx σ) (enc : Bool) : CipherCtx σ :=
  { ctx with
    evp := if SALSA20 ≤ c.method then ctx.evp else some (c.setNonce ctx.nonce enc)
    counter := 0
    init := 1 }

def streamEncrypt (c : Cipher σ) (ctx : CipherCtx σ) (plaintext : List UInt8) :
    Option (List UInt8 × CipherCtx σ) :=
  if ctx.init = 0 then
    (transform c (cipherCtxSetNonce c ctx true) true plaintext).map fun r => (ctx.nonce ++ r.1, r.2)
  else transform c ctx true plaintext

/-- The part of `stream_decrypt` behind the nonce. -/
def streamDecryptBytes (c : Cipher σ) (sz : Sizes) (pp : Filter) (ctx : CipherCtx σ)
    (ciphertext : List UInt8) : Option (Decrypted × Filter × CipherCtx σ) :=
  if ciphertext.length = 0 then some (.needMore, pp, ctx)
  else
    (transform c ctx false ciphertext).map fun r =>
      if r.2.init = 1 ∧ RC4_MD5 ≤ c.method then
        if ppbloomCheck pp r.2.nonce then (.error, pp, r.2)
        else (.ok r.1, ppbloomAdd sz pp r.2.nonce, { r.2 with init := 2 })
      else (.ok r.1, pp, r.2)

def streamDecrypt (c : Cipher σ) (sz : Sizes) (pp : Filter) (ctx : CipherCtx σ)
    (ciphertext : List UInt8) : Option (Decrypted × Filter × CipherCtx σ) :=
  if ctx.init = 0 then
    let leftLen := min (c.nonceLen - ctx.chunk.length) ciphertext.length
    let ctx := { ctx with chunk := ctx.chunk ++ ciphertext.take leftLen }
    let ciphertext := ciphertext.drop leftLen
    if ctx.chunk.length < c.nonceLen then some (.needMore, pp, ctx)
    else
      let ctx := cipherCtxSetNonce c { ctx with nonce := ctx.chunk } false
      if RC4_MD5 ≤ c.method ∧ ppbloomCheck pp ctx.nonce then some (.error, pp, ctx)
      else streamDecryptBytes c sz pp ctx ciphertext
  else streamDecryptBytes c sz pp ctx ciphertext

/-! ### One transducer -/

/-- How many bytes a nonce has key stream for. -/
def Cipher.limit (c : Cipher σ) : Nat := if c.method = CHACHA20IETF then 2 ^ 38 else 2 ^ 64 - 1

theorem Cipher.limit_lt (c : Cipher σ) : c.limit < 2 ^ 64 := by
  rw [limit]
  split <;> omega

/-- All bytes of a stream at once. -/
def apply (c : Cipher σ) (nonce : List UInt8) (enc : Bool) (m : List UInt8) : List UInt8 :=
  if SALSA20 ≤ c.method then m.mapIdx fun j b => b ^^^ c.keystream nonce j
  else (c.update (c.setNonce nonce enc) m).1

/-- The context has gone through the bytes `m`. -/
structure At (c : Cipher σ) (nonce : List UInt8) (enc : Bool) (ctx : CipherCtx σ) (m : List UInt8) :
    Prop where
  nonce_eq : ctx.nonce = nonce
  counter : SALSA20 ≤ c.method → ctx.counter = m.length
  evp : ¬SALSA20 ≤ c.method → ctx.evp = some (c.update (c.setNonce nonce enc) m).2

/-- Within the limit nothing aborts, and the counter is not cut off (or nothing is xored). -/
theorem cryptoStreamXorIc_eq {c : Cipher σ} {m : List UInt8} {ic : Nat} (nonce : List UInt8)
    (hlimit : sodiumBlockSize * ic + m.length ≤ c.limit) :
    cryptoStreamXorIc c m nonce ic = some (streamXorIc c m nonce ic) := by
  have h64 : sodiumBlockSize = 64 := rfl
  rw [cryptoStreamXorIc]
  split
  · rename_i hietf
    rw [Cipher.limit, if_pos hietf, h64] at hlimit
    dsimp only
    rw [if_neg (by omega)]
    obtain hlt | heq : ic < 2 ^ 32 ∨ ic = 2 ^ 32 := by omega
    · rw [Nat.mod_eq_of_lt hlt]
    · -- the key stream is used up to its end
      obtain rfl : m = [] := List.length_eq_zero_iff.mp (by omega)
      rfl
  · rfl

/-- What is xored after the padding is the key stream from the counter on. -/
theorem drop_streamXorIc (c : Cipher σ) (m nonce : List UInt8) (counter : Nat) :
    (streamXorIc c (List.replicate (counter % sodiumBlockSize) 0 ++ m) nonce
      (counter / sodiumBlockSize)).drop (counter % sodiumBlockSize) =
      m.mapIdx fun j b => b ^^^ c.keystream nonce (counter + j) := by
  rw [streamXorIc, List.mapIdx_append, List.length_replicate, List.drop_left' (by simp)]
  have hcounter : ∀ j, sodiumBlockSize * (counter / sodiumBlockSize) +
      (j + counter % sodiumBlockSize) = counter + j := by
    intro j
    have h := Nat.div_add_mod counter sodiumBlockSize
    omega
  simp only [hcounter]

theorem apply_append {c : Cipher σ} (hc : c.Correct) (nonce : List UInt8) (enc : Bool)
    (m m' : List UInt8) : (apply c nonce enc (m ++ m')).take m.length = apply c nonce enc m := by
  rw [apply, apply]
  split
  · rw [List.mapIdx_append, List.take_left' (by simp)]
  · rw [hc.update_append, List.take_left' (hc.length_update ..)]

theorem length_apply {c : Cipher σ} (hc : c.Correct) (nonce : List UInt8) (enc : Bool)
    (m : List UInt8) : (apply c nonce enc m).length = m.length := by
  rw [apply]
  split
  · exact List.length_mapIdx
  · exact hc.length_update ..

theorem apply_apply {c : Cipher σ} (hc : c.Correct) (nonce m : List UInt8) :
    apply c nonce false (apply c nonce true m) = m := by
  rw [apply, apply]
  split
  · refine List.ext_getElem (by simp) fun j _ _ => ?_
    rw [List.getElem_mapIdx, List.getElem_mapIdx, UInt8.xor_assoc, UInt8.xor_self, UInt8.xor_zero]
  · exact hc.update_update nonce m

/-- The beginning of an encrypted stream decrypts to the beginning of the stream. -/
theorem apply_take {c : Cipher σ} (hc : c.Correct) (nonce m : List UInt8) (k : Nat) :
    apply c nonce false ((apply c nonce true m).take k) = m.take k := by
  obtain hk | hk := Nat.le_total k m.length
  · have hlen : ((apply c nonce true m).take k).length = k := by
      rw [List.length_take, length_apply hc, Nat.min_eq_left hk]
    have h := apply_append hc nonce false ((apply c nonce true m).take k)
      ((apply c nonce true m).drop k)
    rw [List.take_append_drop, apply_apply hc, hlen] at h
    exact h.symm
  · rw [List.take_of_length_le (by rw [length_apply hc]; exact hk), apply_apply hc,
      List.take_of_length_le hk]

/-- **A context that has gone through `m` goes on where it stopped.** -/
theorem transform_spec {c : Cipher σ} (hc : c.Correct) {nonce m : List UInt8} {enc : Bool}
    {ctx : CipherCtx σ} (h : At c nonce enc ctx m) {m' : List UInt8}
    (hlen : (m ++ m').length ≤ c.limit) :
    ∃ out ctx', transform c ctx enc m' = some (out, ctx') ∧
      apply c nonce enc m ++ out = apply c nonce enc (m ++ m') ∧
      At c nonce enc ctx' (m ++ m') ∧ ctx'.init = ctx.init := by
  have h2 := c.limit_lt
  rw [transform, apply, apply]
  rw [List.length_append] at hlen
  by_cases hs : SALSA20 ≤ c.method
  · rw [if_pos hs, if_pos hs, if_pos hs]
    have hpadded : sodiumBlockSize * (ctx.counter / sodiumBlockSize) +
        (List.replicate (ctx.counter % sodiumBlockSize) 0 ++ m').length ≤ c.limit := by
      have hdiv := Nat.div_add_mod ctx.counter sodiumBlockSize
      rw [List.length_append, List.length_replicate, ← Nat.add_assoc, hdiv, h.counter hs]
      exact hlen
    dsimp only
    rw [cryptoStreamXorIc_eq ctx.nonce hpadded]
    refine ⟨_, _, rfl, ?_, ⟨h.nonce_eq, fun _ => ?_, fun hn => absurd hs hn⟩, rfl⟩
    · rw [drop_streamXorIc, h.nonce_eq, h.counter hs, List.mapIdx_append]
      simp only [Nat.add_comm]
    · dsimp only
      rw [h.counter hs, Nat.mod_eq_of_lt (by omega), List.length_append]
  · rw [if_neg hs, if_neg hs, if_neg hs]
    dsimp only
    rw [h.evp hs, Option.getD_some]
    refine ⟨_, _, rfl, ?_, ⟨h.nonce_eq, fun hn => absurd hn hs, fun _ => ?_⟩, rfl⟩
    · rw [hc.update_append]
    · dsimp only
      rw [hc.update_append]

theorem at_setNonce {c : Cipher σ} (hc : c.Correct) (ctx : CipherCtx σ) (enc : Bool) :
    At c ctx.nonce enc (cipherCtxSetNonce c ctx enc) [] where
  nonce_eq := rfl
  counter _ := rfl
  evp hs := by
    rw [cipherCtxSetNonce]
    dsimp only
    rw [if_neg hs, hc.update_nil]

/-! ### Writing -/

def encryptEach (c : Cipher σ) (ctx : CipherCtx σ) : List (List UInt8) → Option (List UInt8)
  | [] => some []
  | p :: ps => (streamEncrypt c ctx p).bind fun r => (encryptEach c r.2 ps).map fun out => r.1 ++ out

theorem encryptEach_at {c : Cipher σ} (hc : c.Correct) {nonce : List UInt8} (ps : List (List UInt8))
    {ctx : CipherCtx σ} {m : List UInt8} (h : At c nonce true ctx m) (hinit : ctx.init ≠ 0)
    (hlen : (m ++ ps.flatten).length ≤ c.limit) :
    ∃ out, encryptEach c ctx ps = some out ∧
      apply c nonce true m ++ out = apply c nonce true (m ++ ps.flatten) := by
  induction ps generalizing ctx m with
  | nil => exact ⟨[], rfl, by rw [List.append_nil, List.flatten_nil, List.append_nil]⟩
  | cons p ps ih =>
    rw [List.flatten_cons, ← List.append_assoc] at hlen ⊢
    have hp : (m ++ p).length ≤ c.limit := by
      rw [List.length_append] at hlen
      omega
    obtain ⟨out, ctx', htransform, hout, hat, hkeep⟩ := transform_spec hc h hp
    obtain ⟨rest, hrest, heq⟩ := ih hat (by rw [hkeep]; exact hinit) hlen
    refine ⟨out ++ rest, ?_, ?_⟩
    · rw [encryptEach, streamEncrypt, if_neg hinit, htransform, Option.bind_some, hrest]
      rfl
    · rw [← List.append_assoc, hout, heq]

/-- What is written: the nonce, and all plaintexts as one. -/
theorem encryptEach_start {c : Cipher σ} (hc : c.Correct) (nonce : List UInt8)
    {ps : List (List UInt8)} (hps : ps ≠ []) (hlen : ps.flatten.length ≤ c.limit) :
    encryptEach c (streamCtxInit nonce) ps = some (nonce ++ apply c nonce true ps.flatten) := by
  cases ps with
  | nil => exact absurd rfl hps
  | cons p ps =>
    rw [List.flatten_cons] at hlen ⊢
    have hp : ([] ++ p).length ≤ c.limit := by
      rw [List.length_append] at hlen
      simp only [List.nil_append]
      omega
    have h0 : (streamCtxInit nonce : CipherCtx σ).init = 0 := rfl
    have hstart : At c nonce true (cipherCtxSetNonce c (streamCtxInit nonce) true) [] :=
      at_setNonce hc (streamCtxInit nonce) true
    obtain ⟨out, ctx', htransform, hout, hat, hkeep⟩ := transform_spec hc hstart hp
    have hnil : apply c nonce true [] = [] :=
      List.length_eq_zero_iff.mp (length_apply hc nonce true [])
    rw [hnil, List.nil_append, List.nil_append] at hout
    obtain ⟨rest, hrest, heq⟩ := encryptEach_at hc ps hat (by rw [hkeep]; exact Nat.one_ne_zero) hlen
    rw [List.nil_append, ← hout] at heq
    rw [encryptEach, streamEncrypt, if_pos h0, htransform, Option.map_some, Option.bind_some]
    dsimp only
    rw [hrest, ← heq, Option.map_some, List.append_assoc]
    rfl

/-! ### Reading -/

inductive Tracks (c : Cipher σ) (ctx : CipherCtx σ) (input delivered : List UInt8) : Prop where
  | waiting (init : ctx.init = 0) (chunk : ctx.chunk = input) (short : input.length ≤ c.nonceLen)
      (none : delivered = [])
  | reading (init : ctx.init ≠ 0) (long : c.nonceLen ≤ input.length)
      (bytes : At c (input.take c.nonceLen) false ctx (input.drop c.nonceLen))
      (out : delivered = apply c (input.take c.nonceLen) false (input.drop c.nonceLen))

/-- What `stream_decrypt` does with the next bytes. -/
inductive Receives (c : Cipher σ) (pp : Filter) (ctx : CipherCtx σ)
    (input delivered bytes : List UInt8) : Decrypted → CipherCtx σ → Prop where
  | needMore {ctx' : CipherCtx σ} (tracks : Tracks c ctx' (input ++ bytes) delivered) :
      Receives c pp ctx input delivered bytes .needMore ctx'
  | ok {ctx' : CipherCtx σ} {p : List UInt8} (tracks : Tracks c ctx' (input ++ bytes) (delivered ++ p)) :
      Receives c pp ctx input delivered bytes (.ok p) ctx'
  | replayed {ctx' : CipherCtx σ} (before : ctx.init ≠ 2) (long : c.nonceLen ≤ (input ++ bytes).length)
      (found : ppbloomCheck pp ((input ++ bytes).take c.nonceLen) = true) :
      Receives c pp ctx input delivered bytes .error ctx'

theorem streamDecryptBytes_receives {c : Cipher σ} (hc : c.Correct) {sz : Sizes} {pp : Filter}
    {ctx ctx₀ : CipherCtx σ} {input delivered bytes nonce m m' : List UInt8} (hinit : ctx.init ≠ 0)
    (hbefore : ctx.init = 1 → ctx₀.init ≠ 2) (hnonce : nonce.length = c.nonceLen)
    (hsplit : input ++ bytes = nonce ++ (m ++ m')) (hat : At c nonce false ctx m)
    (hout : delivered = apply c nonce false m) (hlen : (m ++ m').length ≤ c.limit) :
    ∃ r, streamDecryptBytes c sz pp ctx m' = some r ∧
      Receives c pp ctx₀ input delivered bytes r.1 r.2.2 := by
  have htake : (input ++ bytes).take c.nonceLen = nonce := by
    rw [hsplit, List.take_left' hnonce]
  have hdrop : (input ++ bytes).drop c.nonceLen = m ++ m' := by
    rw [hsplit, List.drop_left' hnonce]
  have hlong : c.nonceLen ≤ (input ++ bytes).length := by
    rw [hsplit, List.length_append, hnonce]
    exact Nat.le_add_right ..
  obtain ⟨out, ctx', htransform, hgive, hat', hkeep⟩ := transform_spec hc hat hlen
  have htracks : ∀ k, k ≠ 0 → Tracks c { ctx' with init := k } (input ++ bytes) (delivered ++ out) := by
    intro k hk
    refine .reading hk hlong ?_ ?_
    · rw [htake, hdrop]
      exact ⟨hat'.nonce_eq, hat'.counter, hat'.evp⟩
    · rw [htake, hdrop, hout, hgive]
  have hsame : Tracks c ctx' (input ++ bytes) (delivered ++ out) := htracks _ (hkeep ▸ hinit)
  rw [streamDecryptBytes]
  split
  · rename_i hempty
    obtain rfl := List.length_eq_zero_iff.mp hempty
    rw [List.append_nil] at hdrop
    exact ⟨_, rfl, .needMore (.reading hinit hlong (by rwa [htake, hdrop]) (by rw [htake, hdrop, hout]))⟩
  rw [htransform]
  refine ⟨_, rfl, ?_⟩
  dsimp only
  split
  · rename_i h1
    split
    · rename_i hfound
      rw [hat'.nonce_eq, ← htake] at hfound
      exact .replayed (hbefore (hkeep ▸ h1.1)) hlong hfound
    · exact .ok (htracks 2 (by decide))
  · exact .ok hsame

/-- **Whatever the next bytes are, the context keeps up with the stream, or its nonce was seen.** -/
theorem streamDecrypt_receives {c : Cipher σ} (hc : c.Correct) (sz : Sizes) (pp : Filter)
    {ctx : CipherCtx σ} {input delivered : List UInt8} (h : Tracks c ctx input delivered)
    {bytes : List UInt8} (hlen : (input ++ bytes).length ≤ c.nonceLen + c.limit) :
    ∃ r, streamDecrypt c sz pp ctx bytes = some r ∧
      Receives c pp ctx input delivered bytes r.1 r.2.2 := by
  rw [streamDecrypt]
  dsimp only
  cases h with
  | waiting hinit hchunk hshort hnone =>
    subst hnone
    rw [if_pos hinit, hchunk]
    split
    · rename_i hmore
      -- the nonce is not complete, so all of the bytes belong to it
      have hall : min (c.nonceLen - input.length) bytes.length = bytes.length := by
        rw [List.length_append, List.length_take] at hmore
        omega
      rw [hall, List.take_length] at hmore ⊢
      exact ⟨_, rfl, .needMore (.waiting hinit rfl (Nat.le_of_lt hmore) rfl)⟩
    rename_i hcomplete
    have hleft : min (c.nonceLen - input.length) bytes.length = c.nonceLen - input.length := by
      rw [List.length_append, List.length_take] at hcomplete
      omega
    rw [hleft] at hcomplete ⊢
    have hnonce : (input ++ bytes.take (c.nonceLen - input.length)).length = c.nonceLen := by
      rw [List.length_append, List.length_take] at hcomplete ⊢
      omega
    have hsplit : input ++ bytes = (input ++ bytes.take (c.nonceLen - input.length)) ++
        ([] ++ bytes.drop (c.nonceLen - input.length)) := by
      rw [List.nil_append, List.append_assoc, List.take_append_drop]
    split
    · rename_i hfound
      refine ⟨_, rfl, .replayed (by omega) (by rw [hsplit, List.length_append]; omega) ?_⟩
      rw [hsplit, List.take_left' hnonce]
      exact hfound.2
    · refine streamDecryptBytes_receives hc (by exact Nat.one_ne_zero) (fun _ => by omega) hnonce hsplit
        (at_setNonce hc
          { ctx with
            chunk := input ++ bytes.take (c.nonceLen - input.length)
            nonce := input ++ bytes.take (c.nonceLen - input.length) } false) ?_ ?_
      · exact (List.length_eq_zero_iff.mp (length_apply hc _ false [])).symm
      · rw [hsplit, List.length_append] at hlen
        omega
  | reading hinit hlong hat hout =>
    rw [if_neg hinit]
    refine streamDecryptBytes_receives hc hinit (fun h1 => by omega) ?_ ?_ hat hout ?_
    · rw [List.length_take]
      omega
    · rw [← List.append_assoc, List.take_append_drop]
    · rw [List.length_append] at hlen ⊢
      rw [List.length_drop]
      omega

/-! ### A connection among others -/

/-- A connection, with all it has read, and the filter it shares; `aborted` is for the whole process. -/
structure Receiver (σ : Type) where
  pp : Filter
  ctx : CipherCtx σ
  input : List UInt8
  delivered : List UInt8
  closed : Bool
  aborted : Bool
deriving DecidableEq

inductive Event where
  | piece (bytes : List UInt8)
  | elsewhere (salt : List UInt8)

def Receiver.start (c : Cipher σ) (sz : Sizes) : Receiver σ :=
  ⟨ppbloomInit sz, streamCtxInit (List.replicate c.nonceLen 0), [], [], false, false⟩

def step (c : Cipher σ) (sz : Sizes) (s : Receiver σ) : Event → Option (Receiver σ)
  | .elsewhere salt => if s.aborted then none else some { s with pp := ppbloomAdd sz s.pp salt }
  | .piece bytes =>
      if s.closed || s.aborted then none
      else
        match streamDecrypt c sz s.pp s.ctx bytes with
        | none => some { s with input := s.input ++ bytes, aborted := true }
        | some (r, pp, ctx) =>
            let s' := { s with pp := pp, ctx := ctx, input := s.input ++ bytes }
            match r with
            | .ok plaintext => some { s' with delivered := s.delivered ++ plaintext }
            | .needMore => some s'
            | .error => some { s' with closed := true }

/-- The nonce is not in the filter when it is looked up. -/
def Unseen (c : Cipher σ) (s : Receiver σ) : Event → Prop
  | .piece bytes => s.ctx.init ≠ 2 → c.nonceLen ≤ (s.input ++ bytes).length →
      ppbloomCheck s.pp ((s.input ++ bytes).take c.nonceLen) = false
  | .elsewhere _ => True

instance (c : Cipher σ) (s : Receiver σ) : ∀ e, Decidable (Unseen c s e)
  | .piece _ => inferInstanceAs (Decidable (_ → _))
  | .elsewhere _ => inferInstanceAs (Decidable True)

/-- What is read from a stream within the limit. -/
def Reads (c : Cipher σ) (s : Receiver σ) : Prop :=
  s.input.length ≤ c.nonceLen + c.limit →
    s.closed = false ∧ s.aborted = false ∧ Tracks c s.ctx s.input s.delivered

theorem step_reads {c : Cipher σ} (hc : c.Correct) {sz : Sizes} {s s' : Receiver σ} {e : Event}
    (h : Reads c s) (hunseen : Unseen c s e) (hs : step c sz s e = some s') : Reads c s' := by
  cases e with
  | elsewhere salt =>
    rw [step] at hs
    split at hs
    · cases hs
    · obtain rfl := Option.some.inj hs
      exact h
  | piece bytes =>
    intro hlen
    rw [step] at hs
    split at hs
    · cases hs
    have hinput : s'.input = s.input ++ bytes := by
      dsimp only at hs
      split at hs
      · exact Option.some.inj hs ▸ rfl
      · split at hs <;> exact Option.some.inj hs ▸ rfl
    rw [hinput] at hlen
    obtain ⟨hopen, hgoing, htracks⟩ := h (by rw [List.length_append] at hlen; omega)
    obtain ⟨⟨res, pp', ctx'⟩, hdecrypt, hreceives⟩ := streamDecrypt_receives hc sz s.pp htracks hlen
    rw [hdecrypt] at hs
    dsimp only at hs hreceives
    cases hreceives with
    | needMore ht =>
      obtain rfl := Option.some.inj hs
      exact ⟨hopen, hgoing, ht⟩
    | ok ht =>
      obtain rfl := Option.some.inj hs
      exact ⟨hopen, hgoing, ht⟩
    | replayed hbefore hlong hfound =>
      rw [hunseen hbefore hlong] at hfound
      exact Bool.noConfusion hfound

/-- **Whatever pieces are written and whatever pieces arrive, with other connections in between: within
the limit of the nonce the writer does not abort, nor does the reader, whose connection stays open and has
given out each byte that has arrived behind the nonce, in order.** -/
theorem delivered_of_stream {c : Cipher σ} (hc : c.Correct) {sz : Sizes} {nonce : List UInt8}
    {ps : List (List UInt8)} {es : List Event} {s : Receiver σ} (hnonce : nonce.length = c.nonceLen)
    (hlen : ps.flatten.length ≤ c.limit)
    (hrun : Machine.run (step c sz) es (.start c sz) = some s)
    (hunseen : Machine.Along (step c sz) (Unseen c) es (.start c sz)) :
    ∃ wire, encryptEach c (streamCtxInit nonce) ps = some wire ∧ (s.input <+: wire →
      s.closed = false ∧ s.aborted = false ∧
        s.delivered = ps.flatten.take (s.input.length - c.nonceLen)) := by
  have hreads : Reads c s := by
    refine Machine.invariant_along (P := Unseen c) (fun _ _ _ => step_reads hc) ?_ hunseen hrun
    exact fun _ => ⟨rfl, rfl, .waiting rfl rfl (Nat.zero_le _) rfl⟩
  obtain rfl | hps := Decidable.em (ps = [])
  · refine ⟨[], rfl, fun hwire => ?_⟩
    have hnil : s.input = [] := List.prefix_nil.mp hwire
    obtain ⟨hopen, hgoing, htracks⟩ := hreads (by rw [hnil]; exact Nat.zero_le _)
    refine ⟨hopen, hgoing, ?_⟩
    cases htracks with
    | waiting _ _ _ hnone => rw [hnone, List.flatten_nil, List.take_nil]
    | reading _ _ _ hout =>
      rw [hout, hnil]
      simp only [List.drop_nil, List.flatten_nil, List.take_nil]
      exact List.length_eq_zero_iff.mp (length_apply hc _ false [])
  · refine ⟨_, encryptEach_start hc nonce hps hlen, fun hwire => ?_⟩
    have hle := hwire.length_le
    rw [List.length_append, length_apply hc] at hle
    obtain ⟨hopen, hgoing, htracks⟩ := hreads (by omega)
    refine ⟨hopen, hgoing, ?_⟩
    cases htracks with
    | waiting _ _ hshort hnone =>
      rw [hnone, Nat.sub_eq_zero_of_le hshort, List.take_zero]
    | reading _ hlong _ hout =>
      have htake : s.input.take c.nonceLen = nonce := by
        rw [List.prefix_iff_eq_take.mp hwire, List.take_take, Nat.min_eq_left hlong]
        exact List.take_left' hnonce
      have hdrop : s.input.drop c.nonceLen =
          (apply c nonce true ps.flatten).take (s.input.length - c.nonceLen) := by
        rw [List.prefix_iff_eq_take.mp hwire, List.drop_take, List.drop_left' hnonce,
          List.length_take, List.length_append, length_apply hc, Nat.min_eq_left hle]
      rw [hout, htake, hdrop, apply_take hc]

/-- A cipher of libsodium with a key stream that can be worked through by hand. -/
def sampleCipher : Cipher Nat where
  method := CHACHA20IETF
  nonceLen := 2
  keystream nonce j := nonce.headD 0 + UInt8.ofNat j
  setNonce _ _ := 0
  update s m := (m, s)

theorem sampleCipher_correct : sampleCipher.Correct where
  length_update _ _ := rfl
  update_nil _ := rfl
  update_append _ _ _ := rfl
  update_update _ _ := rfl

def sampleEvents : List Event := [.piece [7], .elsewhere [1, 1], .piece [9, 6, 10], .piece [10]]

def sampleRun : Option (Receiver Nat) :=
  Machine.run (step sampleCipher Ppbloom.smallSizes) sampleEvents
    (.start sampleCipher Ppbloom.smallSizes)

theorem delivered_of_stream_sample : ∃ s wire, sampleRun = some s ∧
    encryptEach sampleCipher (streamCtxInit [7, 9]) [[1], [2, 3, 4]] = some wire ∧
    s.closed = false ∧ s.aborted = false ∧ s.delivered = [1, 2, 3] := by
  have hrun := Option.eq_some_of_isSome (show sampleRun.isSome = true by decide +kernel)
  obtain ⟨wire, hwire, hdelivered⟩ := delivered_of_stream sampleCipher_correct
    (show [7, 9].length = sampleCipher.nonceLen from rfl)
    (show [[1], [2, 3, 4]].flatten.length ≤ sampleCipher.limit by decide) hrun (by decide +kernel)
  have hwhole : wire = [7, 9, 6, 10, 10, 14] :=
    Option.some.inj (hwire.symm.trans (by decide +kernel))
  obtain ⟨hopen, hgoing, hout⟩ := hdelivered (by rw [hwhole]; decide +kernel)
  exact ⟨_, wire, hrun, hwire, hopen, hgoing, hout.trans (by decide +kernel)⟩

end StreamCipher

end SsAndroid
