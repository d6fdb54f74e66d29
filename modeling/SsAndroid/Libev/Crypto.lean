import Mathlib

/-!
# The crypto interface

`crypto.h` and `crypto.c`: what an operation returns, the operations on streams that the rest of the
program uses (`crypto_t`), and the two ways a key is derived.  The digests of mbed TLS are parameters.

**`cryptoHkdfExpand_take`** and **`cryptoDeriveKey_take`**: a shorter key is the beginning of a longer
one, and each has the length that was asked for; up to 255 digests are given (`cryptoHkdf_ok`).
-/

namespace SsAndroid

namespace Crypto

/-- `CRYPTO_OK` with the plaintext, `CRYPTO_NEED_MORE` or `CRYPTO_ERROR`. -/
inductive Decrypted where
  | ok (plaintext : List UInt8)
  | needMore
  | error
deriving DecidableEq

/-- The members `encrypt` and `decrypt` of `crypto_t`, over what all streams share, and the contexts of
one stream. -/
structure Streams (G E D : Type) where
  encrypt : G → E → List UInt8 → Option (List UInt8 × G × E)
  decrypt : G → D → List UInt8 → Decrypted × G × D

/-! ### Keys -/

/-- The blocks of `crypto_hkdf_expand`: `T(i) = HMAC(prk, T(i-1) || info || i)`. -/
def hkdfBlocks (hmac : List UInt8 → List UInt8) (info : List UInt8) : Nat → Nat → List UInt8 → List UInt8
  | 0, _, _ => []
  | n + 1, i, t =>
      let t := hmac (t ++ info ++ [UInt8.ofNat i])
      t ++ hkdfBlocks hmac info n (i + 1) t

/-- `none` is `CRYPTO_ERROR`: more than 255 blocks. -/
def cryptoHkdfExpand (hmac : List UInt8 → List UInt8) (hashLen : Nat) (info : List UInt8)
    (okmLen : Nat) : Option (List UInt8) :=
  let n := okmLen / hashLen + if okmLen % hashLen ≠ 0 then 1 else 0
  if 255 < n then none else some ((hkdfBlocks hmac info n 1 []).take okmLen)

/-- `crypto_hkdf`, with `hmac key message`. -/
def cryptoHkdf (hmac : List UInt8 → List UInt8 → List UInt8) (hashLen : Nat)
    (salt ikm info : List UInt8) (okmLen : Nat) : Option (List UInt8) :=
  cryptoHkdfExpand (hmac (hmac salt ikm)) hashLen info okmLen

/-- The loop of `crypto_derive_key`, which stops when there are `keyLen` bytes. -/
def deriveLoop (md5 : List UInt8 → List UInt8) (pass : List UInt8) :
    Nat → List UInt8 → List UInt8 → Nat → List UInt8
  | 0, key, _, _ => key
  | fuel + 1, key, mdBuf, keyLen =>
      if key.length < keyLen then
        let mdBuf := md5 (mdBuf ++ pass)
        deriveLoop md5 pass fuel (key ++ mdBuf.take (keyLen - key.length)) mdBuf keyLen
      else key

/-- `crypto_derive_key`: each round adds a byte at least, so `keyLen` rounds are enough. -/
def cryptoDeriveKey (md5 : List UInt8 → List UInt8) (pass : List UInt8) (keyLen : Nat) : List UInt8 :=
  deriveLoop md5 pass keyLen [] [] keyLen

theorem length_hkdfBlocks {hmac : List UInt8 → List UInt8} {hashLen : Nat}
    (h : ∀ x, (hmac x).length = hashLen) (info : List UInt8) (n i : Nat) (t : List UInt8) :
    (hkdfBlocks hmac info n i t).length = n * hashLen := by
  induction n generalizing i t with
  | zero => rw [Nat.zero_mul]; rfl
  | succ n ih => rw [hkdfBlocks, List.length_append, h, ih, Nat.succ_mul, Nat.add_comm]

theorem hkdfBlocks_mono (hmac : List UInt8 → List UInt8) (info : List UInt8) {n n' : Nat}
    (h : n ≤ n') (i : Nat) (t : List UInt8) :
    hkdfBlocks hmac info n i t <+: hkdfBlocks hmac info n' i t := by
  induction n generalizing n' i t with
  | zero => exact List.nil_prefix
  | succ n ih =>
    obtain ⟨n', rfl⟩ := Nat.exists_eq_add_of_lt h
    rw [show n + n' + 1 = (n + n') + 1 from rfl, hkdfBlocks, hkdfBlocks]
    exact (List.prefix_append_right_inj _).mpr (ih (Nat.le_add_right ..) _ _)

/-- The blocks that `crypto_derive_key` takes the key from. -/
def deriveBlocks (md5 : List UInt8 → List UInt8) (pass : List UInt8) : Nat → List UInt8 → List UInt8
  | 0, _ => []
  | n + 1, mdBuf =>
      let mdBuf := md5 (mdBuf ++ pass)
      mdBuf ++ deriveBlocks md5 pass n mdBuf

theorem deriveLoop_eq {md5 : List UInt8 → List UInt8} (h : ∀ x, 0 < (md5 x).length)
    (pass : List UInt8) (keyLen : Nat) (fuel : Nat) (key mdBuf : List UInt8)
    (hkey : key.length ≤ keyLen) (hfuel : keyLen ≤ key.length + fuel) :
    deriveLoop md5 pass fuel key mdBuf keyLen =
      key ++ (deriveBlocks md5 pass fuel mdBuf).take (keyLen - key.length) := by
  induction fuel generalizing key mdBuf with
  | zero => rw [deriveLoop, show keyLen - key.length = 0 by omega, List.take_zero, List.append_nil]
  | succ fuel ih =>
    rw [deriveLoop]
    split
    · have hpos := h (mdBuf ++ pass)
      dsimp only
      rw [ih _ _ (by rw [List.length_append, List.length_take]; omega)
          (by rw [List.length_append, List.length_take]; omega),
        deriveBlocks, List.append_assoc]
      rw [List.take_append, List.length_append, List.length_take]
      congr 3
      omega
    · rw [show keyLen - key.length = 0 by omega, List.take_zero, List.append_nil]

theorem length_deriveBlocks {md5 : List UInt8 → List UInt8} (h : ∀ x, 0 < (md5 x).length)
    (pass : List UInt8) (n : Nat) (mdBuf : List UInt8) :
    n ≤ (deriveBlocks md5 pass n mdBuf).length := by
  induction n generalizing mdBuf with
  | zero => exact Nat.zero_le _
  | succ n ih =>
    have hpos := h (mdBuf ++ pass)
    have hrest := ih (md5 (mdBuf ++ pass))
    rw [deriveBlocks, List.length_append]
    omega

theorem deriveBlocks_mono (md5 : List UInt8 → List UInt8) (pass : List UInt8) {n n' : Nat}
    (h : n ≤ n') (mdBuf : List UInt8) :
    deriveBlocks md5 pass n mdBuf <+: deriveBlocks md5 pass n' mdBuf := by
  induction n generalizing n' mdBuf with
  | zero => exact List.nil_prefix
  | succ n ih =>
    obtain ⟨n', rfl⟩ := Nat.exists_eq_add_of_lt h
    rw [show n + n' + 1 = (n + n') + 1 from rfl, deriveBlocks, deriveBlocks]
    exact (List.prefix_append_right_inj _).mpr (ih (Nat.le_add_right ..) _)

/-- The beginning of a list and of a longer one that begins with it. -/
theorem take_eq_of_le {l l' : List UInt8} (h : l <+: l') {k : Nat} (hk : k ≤ l.length) :
    l.take k = l'.take k := by
  obtain ⟨t, rfl⟩ := h
  exact (List.take_append_of_le_length hk).symm

theorem cryptoDeriveKey_eq {md5 : List UInt8 → List UInt8} (h : ∀ x, 0 < (md5 x).length)
    (pass : List UInt8) {k n : Nat} (hk : k ≤ n) :
    cryptoDeriveKey md5 pass k = (deriveBlocks md5 pass n []).take k := by
  rw [cryptoDeriveKey, deriveLoop_eq h pass k k [] [] (Nat.zero_le _) (by simp), List.nil_append,
    List.length_nil, Nat.sub_zero]
  exact take_eq_of_le (deriveBlocks_mono md5 pass hk []) (length_deriveBlocks h pass k [])

theorem cryptoDeriveKey_take {md5 : List UInt8 → List UInt8} (h : ∀ x, 0 < (md5 x).length)
    (pass : List UInt8) {k k' : Nat} (hk : k ≤ k') :
    cryptoDeriveKey md5 pass k = (cryptoDeriveKey md5 pass k').take k ∧
      (cryptoDeriveKey md5 pass k).length = k := by
  rw [cryptoDeriveKey_eq h pass hk, cryptoDeriveKey_eq h pass (Nat.le_refl k'), List.take_take,
    Nat.min_eq_left hk, List.length_take]
  have hlen := length_deriveBlocks h pass k' []
  exact ⟨rfl, by omega⟩

/-- The number of blocks is rounded up. -/
theorem blocks_eq (okmLen : Nat) {hashLen : Nat} (h : 0 < hashLen) :
    okmLen / hashLen + (if okmLen % hashLen ≠ 0 then 1 else 0) = (okmLen + (hashLen - 1)) / hashLen := by
  have hdiv := Nat.div_add_mod' okmLen hashLen
  have hmod := Nat.mod_lt okmLen h
  symm
  split
  · apply Nat.div_eq_of_lt_le
    · rw [Nat.succ_mul]
      omega
    · rw [Nat.succ_mul, Nat.succ_mul]
      omega
  · apply Nat.div_eq_of_lt_le
    · rw [Nat.add_zero]
      omega
    · rw [Nat.add_zero, Nat.succ_mul]
      omega

theorem le_blocks (okmLen : Nat) {hashLen : Nat} (h : 0 < hashLen) :
    okmLen ≤ (okmLen + (hashLen - 1)) / hashLen * hashLen := by
  have hdiv := Nat.div_add_mod' (okmLen + (hashLen - 1)) hashLen
  have hmod := Nat.mod_lt (okmLen + (hashLen - 1)) h
  omega

theorem cryptoHkdfExpand_take {hmac : List UInt8 → List UInt8} {hashLen : Nat} (hpos : 0 < hashLen)
    (h : ∀ x, (hmac x).length = hashLen) (info : List UInt8) {k k' : Nat} (hk : k ≤ k')
    {okm' : List UInt8} (hokm : cryptoHkdfExpand hmac hashLen info k' = some okm') :
    cryptoHkdfExpand hmac hashLen info k = some (okm'.take k) ∧ okm'.length = k' := by
  have hblocks : (k + (hashLen - 1)) / hashLen ≤ (k' + (hashLen - 1)) / hashLen :=
    Nat.div_le_div_right (by omega)
  rw [cryptoHkdfExpand, blocks_eq k' hpos] at hokm
  rw [cryptoHkdfExpand, blocks_eq k hpos]
  split at hokm
  · cases hokm
  rename_i hn
  rw [if_neg (by omega)]
  obtain rfl := Option.some.inj hokm
  rw [List.take_take, Nat.min_eq_left hk, List.length_take, length_hkdfBlocks h]
  have hle := le_blocks k' hpos
  refine ⟨congrArg some (take_eq_of_le (hkdfBlocks_mono hmac info hblocks 1 []) ?_), by omega⟩
  rw [length_hkdfBlocks h]
  exact le_blocks k hpos

/-- A key of at most 255 digests is given. -/
theorem cryptoHkdf_ok {hmac : List UInt8 → List UInt8 → List UInt8} {hashLen : Nat} (hpos : 0 < hashLen)
    (h : ∀ k x, (hmac k x).length = hashLen) (salt ikm info : List UInt8) {okmLen : Nat}
    (hlen : okmLen ≤ 255 * hashLen) :
    ∃ okm, cryptoHkdf hmac hashLen salt ikm info okmLen = some okm ∧ okm.length = okmLen := by
  have hblocks : (okmLen + (hashLen - 1)) / hashLen ≤ 255 := by
    rw [Nat.div_le_iff_le_mul_add_pred hpos, Nat.mul_comm hashLen]
    omega
  obtain ⟨okm, hokm⟩ : ∃ okm, cryptoHkdf hmac hashLen salt ikm info okmLen = some okm := by
    rw [cryptoHkdf, cryptoHkdfExpand, blocks_eq okmLen hpos, if_neg (by omega)]
    exact ⟨_, rfl⟩
  exact ⟨okm, hokm, (cryptoHkdfExpand_take hpos (h _) info (Nat.le_refl okmLen) hokm).2⟩

end Crypto

end SsAndroid
