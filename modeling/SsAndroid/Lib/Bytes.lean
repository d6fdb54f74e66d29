import Mathlib

/-!
# Bytes as bits and as numbers

`bits` are the bits of a list of bytes, the most significant bit of a byte first, and `value` is the
number they are the digits of.

* A byte that is extended with its sign and put under a mask for its low bits is the byte without
  a sign under the mask (`signExtend_and`); so a mask that keeps the first `r` bits compares just
  these (`and_mask_eq_iff`);
* **`compare_value`**: lists of one length are ordered byte by byte as their numbers are.
-/

namespace SsAndroid

namespace Bytes

/-! ### Bits -/

def byteBits (x : UInt8) : List Bool := (List.range 8).map fun k => x.toNat.testBit (7 - k)

def bits (a : List UInt8) : List Bool := a.flatMap byteBits

@[simp] theorem length_byteBits (x : UInt8) : (byteBits x).length = 8 := by simp [byteBits]

@[simp] theorem bits_nil : bits [] = [] := rfl

theorem bits_cons (x : UInt8) (a : List UInt8) : bits (x :: a) = byteBits x ++ bits a := rfl

/-- The first bits of two bytes agree. -/
theorem take_byteBits_eq_iff {x y : UInt8} {r : Nat} (hr : r ≤ 8) :
    (byteBits x).take r = (byteBits y).take r ↔
      ∀ k, 8 - r ≤ k → k < 8 → x.toNat.testBit k = y.toNat.testBit k := by
  rw [byteBits, byteBits, ← List.map_take, ← List.map_take, List.take_range, List.map_inj_left]
  constructor
  · intro h k hlo hhi
    have hk := h (7 - k) (List.mem_range.mpr (by omega))
    rwa [show 7 - (7 - k) = k by omega] at hk
  · intro h k hk
    rw [List.mem_range] at hk
    exact h (7 - k) (by omega) (by omega)

theorem byteBits_injective : Function.Injective byteBits := by
  intro x y h
  have hall := (take_byteBits_eq_iff (x := x) (y := y) (Nat.le_refl 8)).mp (by rw [h])
  apply UInt8.toNat_inj.mp
  apply Nat.eq_of_testBit_eq
  intro k
  by_cases hk : k < 8
  · exact hall k (by omega) hk
  · have hpow : 2 ^ 8 ≤ 2 ^ k := Nat.pow_le_pow_right (by decide) (by omega)
    have hx : x.toNat < 2 ^ 8 := x.toNat_lt
    have hy : y.toNat < 2 ^ 8 := y.toNat_lt
    rw [Nat.testBit_lt_two_pow (by omega), Nat.testBit_lt_two_pow (by omega)]

theorem take_bits_cons (x : UInt8) (a : List UInt8) (n : Nat) :
    (bits (x :: a)).take (8 + n) = byteBits x ++ (bits a).take n := by
  rw [bits_cons, List.take_append, length_byteBits, List.take_of_length_le (by simp),
    Nat.add_sub_cancel_left]

theorem take_bits_cons_of_le (x : UInt8) (a : List UInt8) {r : Nat} (hr : r ≤ 8) :
    (bits (x :: a)).take r = (byteBits x).take r := by
  rw [bits_cons, List.take_append_of_le_length (by simpa using hr)]

/-- The first bits of two lists agree when the first bytes are equal and the rest agrees. -/
theorem take_bits_cons_eq_iff (x y : UInt8) (a b : List UInt8) (n : Nat) :
    (bits (x :: a)).take (8 + n) = (bits (y :: b)).take (8 + n) ↔
      x = y ∧ (bits a).take n = (bits b).take n := by
  rw [take_bits_cons, take_bits_cons]
  constructor
  · intro h
    obtain ⟨hbyte, hrest⟩ := List.append_inj h (by simp)
    exact ⟨byteBits_injective hbyte, hrest⟩
  · rintro ⟨rfl, h⟩
    rw [h]

/-! ### Masks -/

/-- `toInt() and m`: below eight bits a signed byte is what it is without a sign. -/
theorem signExtend_and (x : UInt8) {m : Nat} (hm : m < 256) :
    (x.toBitVec.signExtend 32 &&& BitVec.ofNat 32 m).toNat = x.toNat &&& m := by
  apply Nat.eq_of_testBit_eq
  intro k
  rw [BitVec.toNat_and, Nat.testBit_and, Nat.testBit_and, BitVec.toNat_ofNat,
    Nat.mod_eq_of_lt (by omega)]
  by_cases hk : k < 8
  · have hbit : (x.toBitVec.signExtend 32).toNat.testBit k = x.toNat.testBit k := by
      show (x.toBitVec.signExtend 32).getLsbD k = x.toBitVec.getLsbD k
      rw [BitVec.getLsbD_signExtend, if_pos hk, decide_eq_true (by omega), Bool.true_and]
    rw [hbit]
  · have hpow : 2 ^ 8 ≤ 2 ^ k := Nat.pow_le_pow_right (by decide) (by omega)
    rw [Nat.testBit_lt_two_pow (x := m) (by omega), Bool.and_false, Bool.and_false]

theorem testBit_mask {r : Nat} (hr : r < 8) (k : Nat) :
    (256 - 1 <<< (8 - r)).testBit k = decide (8 - r ≤ k ∧ k < 8) := by
  by_cases hk : k < 8
  · interval_cases r <;> interval_cases k <;> rfl
  · have hpow : 2 ^ 8 ≤ 2 ^ k := Nat.pow_le_pow_right (by decide) (by omega)
    have hpos : 0 < 1 <<< (8 - r) := by
      rw [Nat.one_shiftLeft]
      exact Nat.pow_pos (by decide)
    rw [Nat.testBit_lt_two_pow (by omega), decide_eq_false fun h => hk h.2]

/-- Under the mask that keeps the first `r` bits, bytes are equal when these bits agree. -/
theorem and_mask_eq_iff {r : Nat} (hr : r < 8) (x y : UInt8) :
    x.toNat &&& (256 - 1 <<< (8 - r)) = y.toNat &&& (256 - 1 <<< (8 - r)) ↔
      (byteBits x).take r = (byteBits y).take r := by
  rw [take_byteBits_eq_iff (Nat.le_of_lt hr)]
  constructor
  · intro h k hlo hhi
    have hk := congrArg (Nat.testBit · k) h
    simpa only [Nat.testBit_and, testBit_mask hr, decide_eq_true (⟨hlo, hhi⟩ : 8 - r ≤ k ∧ k < 8),
      Bool.and_true] using hk
  · intro h
    apply Nat.eq_of_testBit_eq
    intro k
    rw [Nat.testBit_and, Nat.testBit_and, testBit_mask hr]
    by_cases hk : 8 - r ≤ k ∧ k < 8
    · rw [h k hk.1 hk.2]
    · rw [decide_eq_false hk, Bool.and_false, Bool.and_false]

/-! ### Numbers -/

/-- The number a list of bytes without signs is, the most significant byte first. -/
def value : List UInt8 → Nat
  | [] => 0
  | x :: a => x.toNat * 256 ^ a.length + value a

theorem value_lt (a : List UInt8) : value a < 256 ^ a.length := by
  induction a with
  | nil => decide
  | cons x a ih =>
    have hx : x.toNat + 1 ≤ 256 := x.toNat_lt
    calc value (x :: a) < x.toNat * 256 ^ a.length + 256 ^ a.length := Nat.add_lt_add_left ih _
      _ = (x.toNat + 1) * 256 ^ a.length := (Nat.succ_mul _ _).symm
      _ ≤ 256 * 256 ^ a.length := Nat.mul_le_mul_right _ hx
      _ = 256 ^ (x :: a).length := by rw [List.length_cons, Nat.pow_succ, Nat.mul_comm]

/-- A digit decides before all that is behind it. -/
theorem add_lt_of_digit_lt {x y n u v : Nat} (h : x < y) (hu : u < n) : x * n + u < y * n + v :=
  calc x * n + u < x * n + n := Nat.add_lt_add_left hu _
    _ = (x + 1) * n := (Nat.succ_mul x n).symm
    _ ≤ y * n := Nat.mul_le_mul_right n h
    _ ≤ y * n + v := Nat.le_add_right _ _

/-- The digits decide, and then what is behind them. -/
theorem compare_digits {x y n u v : Nat} (hu : u < n) (hv : v < n) :
    compare (x * n + u) (y * n + v) = (compare x y).then (compare u v) := by
  rcases Nat.lt_trichotomy x y with hlt | rfl | hgt
  · rw [Nat.compare_eq_lt.mpr hlt, Nat.compare_eq_lt.mpr (add_lt_of_digit_lt hlt hu)]
    rfl
  · rw [Nat.compare_eq_eq.mpr rfl]
    show _ = compare u v
    rcases Nat.lt_trichotomy u v with hlt | rfl | hgt
    · rw [Nat.compare_eq_lt.mpr hlt, Nat.compare_eq_lt.mpr (Nat.add_lt_add_left hlt _)]
    · rw [Nat.compare_eq_eq.mpr rfl, Nat.compare_eq_eq.mpr rfl]
    · rw [Nat.compare_eq_gt.mpr hgt, Nat.compare_eq_gt.mpr (Nat.add_lt_add_left hgt _)]
  · rw [Nat.compare_eq_gt.mpr hgt, Nat.compare_eq_gt.mpr (add_lt_of_digit_lt hgt hv)]
    rfl

/-- **Lists of one length are ordered byte by byte as their numbers are.** -/
theorem compare_value {a : List UInt8} : ∀ {b : List UInt8}, a.length = b.length →
    compare (a.map UInt8.toNat) (b.map UInt8.toNat) = compare (value a) (value b) := by
  induction a with
  | nil =>
    intro b h
    cases b with
    | nil => rfl
    | cons y b => simp at h
  | cons x a ih =>
    intro b h
    cases b with
    | nil => simp at h
    | cons y b =>
      have hlen : a.length = b.length := by simpa using h
      have hb : value b < 256 ^ a.length := hlen ▸ value_lt b
      rw [List.map_cons, List.map_cons, List.compare_cons_cons, ih hlen, value, value, ← hlen,
        compare_digits (value_lt a) hb]

end Bytes

end SsAndroid
