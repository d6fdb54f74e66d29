import SsAndroid.Lib.Frames
import SsAndroid.Libev.Crypto
import SsAndroid.Libev.Ppbloom

/-!
# AEAD streams

`aead.c`: a stream is a salt and then chunks; a chunk is a sealed length and the sealed bytes, under
two nonces that are counted up.  The primitives of the crypto libraries are the fields of `Cipher`, and
`Cipher.Correct` says what the code relies on; the key of a stream is derived from the key of the cipher
and the salt (`Cipher.subkey`), and the key of the cipher from a password, where there is one
(`aeadKeyInit`).

The chunks of a stream are the frames of `chunkDecoder`, which is steady, and `chunkDecoder_encodes`
says that it takes what `aeadChunkEncrypt` writes.
-/

namespace SsAndroid

namespace Aead

open Crypto (Decrypted cryptoDeriveKey cryptoHkdf)
open Ppbloom (Filter Sizes ppbloomCheck ppbloomAdd)
open Frames (Taken Decoder drain)

/-- `cipher_t`, with `aead_cipher_encrypt` and `aead_cipher_decrypt` for its method, and the digest of
mbed TLS. -/
structure Cipher where
  keyLen : Nat
  nonceLen : Nat
  tagLen : Nat
  key : List UInt8
  hmacSha1 : List UInt8 → List UInt8 → List UInt8
  cipherEncrypt : List UInt8 → List UInt8 → List UInt8 → List UInt8
  cipherDecrypt : List UInt8 → List UInt8 → List UInt8 → Option (List UInt8)

/-- `aead_key_init`, for a password. -/
def aeadKeyInit (md5 : List UInt8 → List UInt8) (pass : List UInt8) (c : Cipher) : Cipher :=
  { c with key := cryptoDeriveKey md5 pass c.keyLen }

theorem length_aeadKeyInit {md5 : List UInt8 → List UInt8} (h : ∀ x, 0 < (md5 x).length)
    (pass : List UInt8) (c : Cipher) : (aeadKeyInit md5 pass c).key.length = c.keyLen :=
  (Crypto.cryptoDeriveKey_take h pass (Nat.le_refl c.keyLen)).2

/-- The size of a SHA-1 digest. -/
def sha1Len : Nat := 20

/-- `SUBKEY_INFO`, the bytes of `ss-subkey`. -/
def subkeyInfo : List UInt8 := [115, 115, 45, 115, 117, 98, 107, 101, 121]

/-- `crypto_hkdf` in `aead_cipher_ctx_set_key`; it fails for no key of a supported size
(`subkey_eq`). -/
def Cipher.subkey (c : Cipher) (salt : List UInt8) : List UInt8 :=
  (cryptoHkdf c.hmacSha1 sha1Len salt c.key subkeyInfo c.keyLen).getD []

theorem subkey_eq {c : Cipher} (h : ∀ k x, (c.hmacSha1 k x).length = sha1Len)
    (hlen : c.keyLen ≤ 255 * sha1Len) (salt : List UInt8) :
    cryptoHkdf c.hmacSha1 sha1Len salt c.key subkeyInfo c.keyLen = some (c.subkey salt) ∧
      (c.subkey salt).length = c.keyLen := by
  obtain ⟨okm, hokm, hlength⟩ := Crypto.cryptoHkdf_ok (by decide) h salt c.key subkeyInfo hlen
  rw [Cipher.subkey, hokm]
  exact ⟨rfl, hlength⟩

structure Cipher.Correct (c : Cipher) : Prop where
  length_encrypt : ∀ k n p, (c.cipherEncrypt k n p).length = p.length + c.tagLen
  decrypt_encrypt : ∀ k n p, c.cipherDecrypt k n (c.cipherEncrypt k n p) = some p

/-- `cipher_ctx_t`. -/
structure CipherCtx where
  init : Nat
  chunk : List UInt8
  salt : List UInt8
  skey : List UInt8
  nonce : List UInt8
deriving DecidableEq

def chunkSizeLen : Nat := 2

def chunkSizeMask : Nat := 0x3FFF

/-- `aead_ctx_init`; `salt` is what `rand_bytes` gives, or zeros for a context that decrypts. -/
def aeadCtxInit (salt : List UInt8) : CipherCtx := ⟨0, [], salt, [], []⟩

def aeadCipherCtxSetKey (c : Cipher) (ctx : CipherCtx) : CipherCtx :=
  { ctx with skey := c.subkey ctx.salt, nonce := List.replicate c.nonceLen 0 }

/-! ### sodium_increment -/

def incrementLoop : Nat → List UInt8 → List UInt8
  | _, [] => []
  | carry, b :: n =>
      let carry := carry + b.toNat
      UInt8.ofNat carry :: incrementLoop (carry >>> 8) n

def sodiumIncrement (n : List UInt8) : List UInt8 := incrementLoop 1 n

/-! ### Chunks -/

/-- `htons(plen & CHUNK_SIZE_MASK)` in memory. -/
def lenBuf (plen : Nat) : List UInt8 :=
  let t := plen &&& chunkSizeMask
  [UInt8.ofNat (t / 256), UInt8.ofNat t]

/-- `ntohs(*(uint16_t *)len_buf)`. -/
def ntohs (buf : List UInt8) : Nat := (buf.getD 0 0).toNat * 256 + (buf.getD 1 0).toNat

/-- What a chunk is in a state with this key and nonce. -/
def chunkBytes (c : Cipher) (skey n p : List UInt8) : List UInt8 :=
  c.cipherEncrypt skey n (lenBuf p.length) ++ c.cipherEncrypt skey (sodiumIncrement n) p

/-- `none` is the assertion on the length of the plaintext.  The source keeps this length in a
`uint16_t`; plaintexts come out of buffers of `SOCKET_BUF_SIZE` bytes, where that changes nothing. -/
def aeadChunkEncrypt (c : Cipher) (ctx : CipherCtx) (p : List UInt8) :
    Option (List UInt8 × CipherCtx) :=
  if chunkSizeMask < p.length then none
  else some (chunkBytes c ctx.skey ctx.nonce p,
    { ctx with nonce := sodiumIncrement (sodiumIncrement ctx.nonce) })

def aeadEncrypt (c : Cipher) (sz : Sizes) (pp : Filter) (ctx : CipherCtx) (plaintext : List UInt8) :
    Option (List UInt8 × Filter × CipherCtx) :=
  if plaintext.length = 0 then some ([], pp, ctx)
  else if ctx.init = 0 then
    (aeadChunkEncrypt c { aeadCipherCtxSetKey c ctx with init := 1 } plaintext).map fun r =>
      (ctx.salt ++ r.1, ppbloomAdd sz pp ctx.salt, r.2)
  else (aeadChunkEncrypt c ctx plaintext).map fun r => (r.1, pp, r.2)

/-- `aead_chunk_decrypt` on the nonce `n` and the buffered bytes. -/
def aeadChunkDecrypt (c : Cipher) (skey n buf : List UInt8) : Taken (List UInt8) UInt8 UInt8 :=
  if buf.length ≤ 2 * c.tagLen + chunkSizeLen then .more
  else match c.cipherDecrypt skey n (buf.take (chunkSizeLen + c.tagLen)) with
    | none => .refused n
    | some len =>
        let mlen := ntohs len &&& chunkSizeMask
        if mlen = 0 then .refused n
        else
          let chunkLen := 2 * c.tagLen + chunkSizeLen + mlen
          if buf.length < chunkLen then .more
          else
            let n := sodiumIncrement n
            match c.cipherDecrypt skey n
                ((buf.drop (chunkSizeLen + c.tagLen)).take (mlen + c.tagLen)) with
            | none => .refused n
            | some p => .item (sodiumIncrement n) p (buf.drop chunkLen)

/-- What `aead_chunk_decrypt` has to have found when it takes a chunk. -/
theorem aeadChunkDecrypt_item {c : Cipher} {skey n n' buf p rest : List UInt8}
    (h : aeadChunkDecrypt c skey n buf = .item n' p rest) :
    ∃ len, c.cipherDecrypt skey n (buf.take (chunkSizeLen + c.tagLen)) = some len ∧
      let mlen := ntohs len &&& chunkSizeMask
      0 < mlen ∧ 2 * c.tagLen + chunkSizeLen + mlen ≤ buf.length ∧
        c.cipherDecrypt skey (sodiumIncrement n)
          ((buf.drop (chunkSizeLen + c.tagLen)).take (mlen + c.tagLen)) = some p ∧
        n' = sodiumIncrement (sodiumIncrement n) ∧
        rest = buf.drop (2 * c.tagLen + chunkSizeLen + mlen) := by
  rw [aeadChunkDecrypt] at h
  split at h
  · cases h
  split at h
  · cases h
  rename_i len hlen
  dsimp only at h
  split at h
  · cases h
  rename_i hpos
  split at h
  · cases h
  rename_i henough
  split at h
  · cases h
  rename_i p' hp
  obtain ⟨rfl, rfl, rfl⟩ := Taken.item.inj h
  exact ⟨len, hlen, Nat.pos_of_ne_zero hpos, Nat.le_of_not_lt henough, hp, rfl, rfl⟩

theorem aeadChunkDecrypt_shorter {c : Cipher} {skey n n' buf rest p : List UInt8}
    (h : aeadChunkDecrypt c skey n buf = .item n' p rest) : rest.length < buf.length := by
  obtain ⟨len, -, hpos, henough, -, -, rfl⟩ := aeadChunkDecrypt_item h
  rw [List.length_drop]
  omega

def chunkDecoder (c : Cipher) (skey : List UInt8) : Decoder (List UInt8) UInt8 UInt8 where
  take := aeadChunkDecrypt c skey
  shorter := aeadChunkDecrypt_shorter

/-! ### aead_decrypt -/

/-- The loop over the chunks, and the salt that is added when the first ones are authentic. -/
def aeadDecryptChunks (c : Cipher) (sz : Sizes) (pp : Filter) (ctx : CipherCtx) :
    Decrypted × Filter × CipherCtx :=
  let r := drain (chunkDecoder c ctx.skey) ctx.nonce ctx.chunk
  let ctx := { ctx with nonce := r.state, chunk := r.rest }
  if r.refused then (.error, pp, ctx)
  -- `CRYPTO_NEED_MORE` with `plen == 0`
  else if r.out = [] ∧ r.rest ≠ [] then (.needMore, pp, ctx)
  else if ctx.init = 1 then
    if ppbloomCheck pp ctx.salt then (.error, pp, ctx)
    else (.ok r.out, ppbloomAdd sz pp ctx.salt, { ctx with init := 2 })
  else (.ok r.out, pp, ctx)

def aeadDecrypt (c : Cipher) (sz : Sizes) (pp : Filter) (ctx : CipherCtx) (ciphertext : List UInt8) :
    Decrypted × Filter × CipherCtx :=
  let ctx := { ctx with chunk := ctx.chunk ++ ciphertext }
  if ctx.init = 0 then
    if ctx.chunk.length ≤ c.keyLen then (.needMore, pp, ctx)
    else
      let ctx := aeadCipherCtxSetKey c { ctx with salt := ctx.chunk.take c.keyLen }
      if ppbloomCheck pp ctx.salt then (.error, pp, ctx)
      else aeadDecryptChunks c sz pp { ctx with chunk := ctx.chunk.drop c.keyLen, init := 1 }
  else aeadDecryptChunks c sz pp ctx

/-! ### Datagrams -/

/-- `aead_encrypt_all`, with the salt that `aead_ctx_init` draws. -/
def aeadEncryptAll (c : Cipher) (sz : Sizes) (pp : Filter) (salt plaintext : List UInt8) :
    List UInt8 × Filter :=
  let ctx := aeadCipherCtxSetKey c (aeadCtxInit salt)
  (salt ++ c.cipherEncrypt ctx.skey ctx.nonce plaintext, ppbloomAdd sz pp salt)

/-- `aead_decrypt_all`; `none` is `CRYPTO_ERROR`. -/
def aeadDecryptAll (c : Cipher) (sz : Sizes) (pp : Filter) (ciphertext : List UInt8) :
    Option (List UInt8) × Filter :=
  if ciphertext.length ≤ c.keyLen + c.tagLen then (none, pp)
  else
    let ctx := aeadCtxInit (ciphertext.take c.keyLen)
    if ppbloomCheck pp ctx.salt then (none, pp)
    else
      let ctx := aeadCipherCtxSetKey c ctx
      match c.cipherDecrypt ctx.skey ctx.nonce (ciphertext.drop c.keyLen) with
      | none => (none, pp)
      | some plaintext => (some plaintext, ppbloomAdd sz pp ctx.salt)

/-! ### Nonces -/

/-- The number in a nonce, the least significant byte first. -/
def number (n : List UInt8) : Nat := Nat.ofDigits 256 (n.map UInt8.toNat)

@[simp] theorem length_incrementLoop (carry : Nat) (n : List UInt8) :
    (incrementLoop carry n).length = n.length := by
  induction n generalizing carry with
  | nil => rfl
  | cons b n ih => rw [incrementLoop, List.length_cons, ih, List.length_cons]

@[simp] theorem length_sodiumIncrement (n : List UInt8) :
    (sodiumIncrement n).length = n.length := length_incrementLoop 1 n

theorem number_incrementLoop (carry : Nat) (n : List UInt8) :
    number (incrementLoop carry n) = (number n + carry) % 256 ^ n.length := by
  induction n generalizing carry with
  | nil => simp [incrementLoop, number, Nat.mod_one]
  | cons b n ih =>
    have hhead : (UInt8.ofNat (carry + b.toNat)).toNat = (carry + b.toNat) % 256 := UInt8.toNat_ofNat'
    have hnum : ∀ x l, number (x :: l) = x.toNat + 256 * number l := by
      intro x l
      rw [number, List.map_cons, Nat.ofDigits_cons, number]
    rw [incrementLoop, hnum, hnum, ih, hhead, Nat.shiftRight_eq_div_pow, List.length_cons,
      pow_succ' 256, Nat.mod_mul]
    have hmod : (b.toNat + 256 * number n + carry) % 256 = (carry + b.toNat) % 256 := by omega
    have hdiv : (b.toNat + 256 * number n + carry) / 256 = number n + (carry + b.toNat) / 2 ^ 8 := by
      omega
    rw [hmod, hdiv]

/-- The nonce that is used `i`-th. -/
def nonceAt (c : Cipher) (i : Nat) : List UInt8 := sodiumIncrement^[i] (List.replicate c.nonceLen 0)

theorem nonceAt_succ (c : Cipher) (i : Nat) : nonceAt c (i + 1) = sodiumIncrement (nonceAt c i) :=
  Function.iterate_succ_apply' ..

theorem length_nonceAt (c : Cipher) (i : Nat) : (nonceAt c i).length = c.nonceLen := by
  induction i with
  | zero => exact List.length_replicate
  | succ i ih => rw [nonceAt_succ, length_sodiumIncrement, ih]

theorem number_nonceAt (c : Cipher) (i : Nat) : number (nonceAt c i) = i % 256 ^ c.nonceLen := by
  induction i with
  | zero =>
    rw [Nat.zero_mod, number, nonceAt, Function.iterate_zero_apply, List.map_replicate]
    exact Nat.ofDigits_replicate_zero ..
  | succ i ih =>
    rw [nonceAt_succ, sodiumIncrement, number_incrementLoop, ih, length_nonceAt, Nat.mod_add_mod]

/-- No nonce comes twice before the counter wraps. -/
theorem nonceAt_injective {c : Cipher} {i j : Nat} (hi : i < 256 ^ c.nonceLen)
    (hj : j < 256 ^ c.nonceLen) (h : nonceAt c i = nonceAt c j) : i = j := by
  have hnum := congrArg number h
  rwa [number_nonceAt, number_nonceAt, Nat.mod_eq_of_lt hi, Nat.mod_eq_of_lt hj] at hnum

/-! ### The chunks as frames -/

theorem and_chunkSizeMask {n : Nat} (h : n ≤ chunkSizeMask) : n &&& chunkSizeMask = n := by
  rw [show chunkSizeMask = 2 ^ 14 - 1 from rfl, Nat.and_two_pow_sub_one_eq_mod]
  exact Nat.mod_eq_of_lt (Nat.lt_succ_of_le h)

theorem ntohs_lenBuf {n : Nat} (h : n ≤ chunkSizeMask) : ntohs (lenBuf n) = n := by
  have hle : n ≤ 16383 := h
  have hhigh : (UInt8.ofNat (n / 256)).toNat = n / 256 % 256 := UInt8.toNat_ofNat'
  have hlow : (UInt8.ofNat n).toNat = n % 256 := UInt8.toNat_ofNat'
  rw [ntohs, lenBuf, and_chunkSizeMask h]
  simp only [List.getD_cons_zero, List.getD_cons_succ, hhigh, hlow]
  omega

theorem length_chunkBytes {c : Cipher} (hc : c.Correct) (skey n p : List UInt8) :
    (chunkBytes c skey n p).length = 2 * c.tagLen + chunkSizeLen + p.length := by
  rw [chunkBytes, List.length_append, hc.length_encrypt, hc.length_encrypt]
  simp only [lenBuf, List.length_cons, List.length_nil, chunkSizeLen]
  omega

/-- A chunk that a context has written is taken, whatever comes after it. -/
theorem aeadChunkDecrypt_append {c : Cipher} (hc : c.Correct) (skey n t : List UInt8) {p : List UInt8}
    (hp : p ≠ []) (hlen : p.length ≤ chunkSizeMask) :
    aeadChunkDecrypt c skey n (chunkBytes c skey n p ++ t) =
      .item (sodiumIncrement (sodiumIncrement n)) p t := by
  have hpos : 0 < p.length := List.length_pos_of_ne_nil hp
  have hchunk := length_chunkBytes hc skey n p
  have hhead : (c.cipherEncrypt skey n (lenBuf p.length)).length = chunkSizeLen + c.tagLen :=
    hc.length_encrypt ..
  have hbody : (c.cipherEncrypt skey (sodiumIncrement n) p).length = p.length + c.tagLen :=
    hc.length_encrypt ..
  have htake : (chunkBytes c skey n p ++ t).take (chunkSizeLen + c.tagLen) =
      c.cipherEncrypt skey n (lenBuf p.length) := by
    rw [chunkBytes, List.append_assoc]
    exact List.take_left' hhead
  have hdrop : ((chunkBytes c skey n p ++ t).drop (chunkSizeLen + c.tagLen)).take
      (p.length + c.tagLen) = c.cipherEncrypt skey (sodiumIncrement n) p := by
    rw [chunkBytes, List.append_assoc, List.drop_left' hhead]
    exact List.take_left' hbody
  rw [aeadChunkDecrypt, if_neg (by rw [List.length_append]; omega), htake, hc.decrypt_encrypt]
  dsimp only
  rw [ntohs_lenBuf hlen, and_chunkSizeMask hlen, if_neg (by omega),
    if_neg (by rw [List.length_append]; omega), hdrop, hc.decrypt_encrypt]
  dsimp only
  rw [List.drop_left' hchunk]

/-- Of a chunk that is not all there, nothing is taken. -/
theorem aeadChunkDecrypt_prefix {c : Cipher} (hc : c.Correct) {skey n p q : List UInt8} (hp : p ≠ [])
    (hlen : p.length ≤ chunkSizeMask) (hq : q <+: chunkBytes c skey n p)
    (hne : q ≠ chunkBytes c skey n p) : aeadChunkDecrypt c skey n q = .more := by
  have hchunk := length_chunkBytes hc skey n p
  have hhead : (c.cipherEncrypt skey n (lenBuf p.length)).length = chunkSizeLen + c.tagLen :=
    hc.length_encrypt ..
  have hshort : q.length < (chunkBytes c skey n p).length :=
    lt_of_le_of_ne hq.length_le fun h => hne (hq.eq_of_length h)
  rw [aeadChunkDecrypt]
  split
  · rfl
  · rename_i hlong
    have htake : q.take (chunkSizeLen + c.tagLen) = c.cipherEncrypt skey n (lenBuf p.length) := by
      obtain ⟨t, ht⟩ := hq
      have happend : (q ++ t).take (chunkSizeLen + c.tagLen) = q.take (chunkSizeLen + c.tagLen) :=
        List.take_append_of_le_length (by omega)
      rw [← happend, ht, chunkBytes]
      exact List.take_left' hhead
    have hpos : 0 < p.length := List.length_pos_of_ne_nil hp
    rw [htake, hc.decrypt_encrypt]
    dsimp only
    rw [ntohs_lenBuf hlen, and_chunkSizeMask hlen, if_neg (by omega), if_pos (by omega)]

/-- A plaintext that `aead_encrypt` writes as one chunk. -/
def Chunk (p : List UInt8) : Prop := p ≠ [] ∧ p.length ≤ chunkSizeMask

instance (p : List UInt8) : Decidable (Chunk p) := instDecidableAnd

def nextNonce (n : List UInt8) : List UInt8 := sodiumIncrement (sodiumIncrement n)

/-- **The chunks that are written are the frames that are read.** -/
theorem chunkDecoder_encodes {c : Cipher} (hc : c.Correct) (skey : List UInt8) :
    Frames.Encodes (chunkDecoder c skey) nextNonce (chunkBytes c skey) Chunk where
  item n _ t h := aeadChunkDecrypt_append hc skey n t h.1 h.2
  more _ _ _ h hq hne := aeadChunkDecrypt_prefix hc h.1 h.2 hq hne

/-- **What is done with the front of the buffer does not depend on what is behind it.** -/
theorem chunkDecoder_steady (c : Cipher) (skey : List UInt8) :
    Frames.Steady (chunkDecoder c skey) where
  item {n n' buf rest p} t h := by
    obtain ⟨len, hlen, hpos, henough, hp, rfl, rfl⟩ := aeadChunkDecrypt_item h
    show aeadChunkDecrypt c skey n (buf ++ t) = _
    rw [aeadChunkDecrypt, if_neg (by rw [List.length_append]; omega),
      List.take_append_of_le_length (by omega), hlen]
    dsimp only
    rw [if_neg (by omega), if_neg (by rw [List.length_append]; omega),
      List.drop_append_of_le_length (by omega),
      List.take_append_of_le_length (by rw [List.length_drop]; omega), hp]
    dsimp only
    rw [List.drop_append_of_le_length henough]
  refused {n n' buf} t _ h := by
    have h : aeadChunkDecrypt c skey n buf = .refused n' := h
    show aeadChunkDecrypt c skey n (buf ++ t) = _
    rw [aeadChunkDecrypt] at h ⊢
    split at h
    · cases h
    rename_i hlong
    rw [if_neg (by rw [List.length_append]; omega), List.take_append_of_le_length (by omega)]
    split at h
    · exact h
    dsimp only at h ⊢
    split at h
    · rename_i hzero
      rw [if_pos hzero]
      exact h
    rename_i hpos
    rw [if_neg hpos]
    split at h
    · cases h
    rename_i henough
    rw [if_neg (by rw [List.length_append]; omega), List.drop_append_of_le_length (by omega),
      List.take_append_of_le_length (by rw [List.length_drop]; omega)]
    split at h
    · exact h
    · cases h

end Aead

end SsAndroid
