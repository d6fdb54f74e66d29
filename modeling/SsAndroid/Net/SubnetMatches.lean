import SsAndroid.Lib.ByteBuffer
import SsAndroid.Lib.Bytes
import SsAndroid.Net.LocalDnsServer

/-!
# Which addresses a subnet matches

`matches` compares the whole bytes of the prefix in a loop and the rest of it under a mask, with
signed bytes and with an index that is multiplied by eight.  Here it is written down for addresses of
any number of bytes, with 32-bit integers and with the exception of an index that is out of range.
The class of an address tells its number of bytes; `Inet4Address` and `Inet6Address` are two classes.

**`matches_prefix`** says that no index is out of range and that the test is about the first bits.  The
test of the DNS server is this one, so that `accepts_iff` says which local results are trusted.
-/

namespace SsAndroid

open Bytes ByteBuffer

section Classes

variable {κ : Type} [DecidableEq κ] {size : κ → Nat}

/-- `InetAddress`, with classes for any number of bytes. -/
structure ClassAddress (size : κ → Nat) where
  javaClass : κ
  address : List UInt8
  length_eq : address.length = size javaClass

/-- `Subnet`, with the requirement of its initialiser; `addressLength` is a 32-bit integer. -/
structure AddressBlock (size : κ → Nat) where
  address : ClassAddress size
  prefixSize : Int
  fits : 0 ≤ prefixSize ∧ prefixSize ≤ toInt32 (address.address.length * 8)

namespace AddressBlock

/-- The byte under the mask: `a[i].toInt() and mask`. -/
def masked (x : UInt8) (mask : BitVec 32) : BitVec 32 := x.toBitVec.signExtend 32 &&& mask

/-- `256 - (1 shl (i * 8 + 8 - prefixSize))`; a distance has five bits. -/
def mask (prefixSize : Int) (i : Nat) : BitVec 32 :=
  256#32 - 1#32 <<< (toInt32 (i * 8 + 8 - prefixSize) % 32).toNat

/-- The loop of `matches` from `i` on, and what is behind it. -/
def matchesFrom (a b : List UInt8) (prefixSize : Int) (i : Nat) : Except Exn Bool :=
  if toInt32 (i * 8) < prefixSize ∧ toInt32 (i * 8 + 8) ≤ prefixSize then
    match ha : a[i]?, b[i]? with
    | some x, some y => if x ≠ y then .ok false else matchesFrom a b prefixSize (i + 1)
    | _, _ => .error .indexOutOfBounds
  else if toInt32 (i * 8) = prefixSize then .ok true
  else
    match a[i]?, b[i]? with
    | some x, some y => .ok (masked x (mask prefixSize i) = masked y (mask prefixSize i))
    | _, _ => .error .indexOutOfBounds
termination_by a.length - i
decreasing_by
  have hi := (List.getElem?_eq_some_iff.mp ha).1
  omega

/-- `matches(other)`. -/
def «matches» (s : AddressBlock size) (other : ClassAddress size) : Except Exn Bool :=
  if s.address.javaClass ≠ other.javaClass then .ok false
  else matchesFrom s.address.address other.address s.prefixSize 0

/-! ### The loop -/

section Loop

variable {a b : List UInt8} {x y : UInt8} {p i : Nat}

theorem drop_eq_cons (h : a[i]? = some x) : a.drop i = x :: a.drop (i + 1) := by
  obtain ⟨hi, rfl⟩ := List.getElem?_eq_some_iff.mp h
  exact List.drop_eq_getElem_cons hi

theorem mask_eq {r : Nat} (hr : 0 < r) (hr8 : r < 8) (hp : p = 8 * i + r) :
    mask p i = BitVec.ofNat 32 (256 - 1 <<< (8 - r)) := by
  have hdistance : (toInt32 ((i : Int) * 8 + 8 - (p : Int)) % 32).toNat = 8 - r := by
    rw [toInt32_of_lt (by omega) (by omega)]
    omega
  rw [mask, hdistance]
  interval_cases r <;> rfl

/-- The rest of the prefix: the mask compares its bits. -/
theorem masked_eq_iff {r : Nat} (hr : 0 < r) (hr8 : r < 8) (hp : p = 8 * i + r) :
    masked x (mask p i) = masked y (mask p i) ↔ (byteBits x).take r = (byteBits y).take r := by
  have hmask : 256 - 1 <<< (8 - r) < 256 := by
    have hpos : 0 < 1 <<< (8 - r) := by
      rw [Nat.one_shiftLeft]
      exact Nat.pow_pos (by decide)
    omega
  rw [← BitVec.toNat_inj, masked, masked, mask_eq hr hr8 hp, signExtend_and x hmask,
    signExtend_and y hmask, and_mask_eq_iff hr8]

/-- **The loop with what is behind it**, over `n` whole bytes: it compares the bits of the prefix that
are left. -/
theorem matchesFrom_eq (hlen : a.length = b.length) (hfits : p ≤ 8 * a.length)
    (hint : p + 8 ≤ 2 ^ 31) (n : Nat) : ∀ i, 8 * i + 8 * n ≤ p → p < 8 * i + 8 * n + 8 →
    matchesFrom a b p i =
      .ok (decide ((bits (a.drop i)).take (p - 8 * i) = (bits (b.drop i)).take (p - 8 * i))) := by
  have hget : ∀ {i : Nat}, 8 * i < p → ∃ x y, a[i]? = some x ∧ b[i]? = some y := by
    intro i hi
    exact ⟨_, _, List.getElem?_eq_getElem (by omega), List.getElem?_eq_getElem (by omega)⟩
  induction n with
  | zero =>
    intro i hle hlt
    rw [matchesFrom, toInt32_of_lt (n := (i : Int) * 8) (by omega) (by omega)]
    by_cases hdone : 8 * i = p
    · rw [if_neg (by omega), if_pos (by omega), hdone, Nat.sub_self, List.take_zero,
        List.take_zero, decide_eq_true rfl]
    · obtain ⟨x, y, ha, hb⟩ := hget (i := i) (by omega)
      rw [toInt32_of_lt (by omega) (by omega), if_neg (by omega), if_neg (by omega), ha, hb,
        drop_eq_cons ha, drop_eq_cons hb, take_bits_cons_of_le x _ (by omega),
        take_bits_cons_of_le y _ (by omega)]
      simp only [masked_eq_iff (x := x) (y := y) (r := p - 8 * i) (p := p) (i := i) (by omega)
        (by omega) (by omega)]
  | succ n ih =>
    intro i hle hlt
    obtain ⟨x, y, ha, hb⟩ := hget (i := i) (by omega)
    have hrest : p - 8 * i = 8 + (p - 8 * (i + 1)) := by omega
    rw [matchesFrom, toInt32_of_lt (n := (i : Int) * 8) (by omega) (by omega),
      toInt32_of_lt (by omega) (by omega), if_pos (by omega), drop_eq_cons ha, drop_eq_cons hb,
      hrest]
    simp only [take_bits_cons_eq_iff]
    split
    · rename_i x' y' hx' hy'
      obtain rfl : x = x' := Option.some.inj (ha.symm.trans hx')
      obtain rfl : y = y' := Option.some.inj (hb.symm.trans hy')
      split
      · rename_i hne
        rw [decide_eq_false fun h => hne h.1]
      · rename_i heq
        rw [ih (i + 1) (by omega) (by omega)]
        simp [not_not.mp heq]
    · rename_i hnone
      exact absurd hb (hnone x y ha)

end Loop

omit [DecidableEq κ] in
/-- What the initialiser demands keeps the loop inside the address and its integers below `2 ^ 31`. -/
theorem fits_toNat (s : AddressBlock size) : (s.prefixSize.toNat : Int) = s.prefixSize ∧
    s.prefixSize.toNat ≤ 8 * s.address.address.length ∧ s.prefixSize.toNat + 8 ≤ 2 ^ 31 := by
  have h := s.fits
  rw [toInt32] at h
  omega

/-- **The addresses a subnet matches**, and no index out of range. -/
theorem matches_eq (s : AddressBlock size) (other : ClassAddress size) : s.matches other =
    .ok (decide (s.address.javaClass = other.javaClass ∧
      (bits s.address.address).take s.prefixSize.toNat =
        (bits other.address).take s.prefixSize.toNat)) := by
  rw [«matches»]
  by_cases hclass : s.address.javaClass = other.javaClass
  · have hlen : s.address.address.length = other.address.length := by
      rw [s.address.length_eq, other.length_eq, hclass]
    obtain ⟨hcast, hfits, hint⟩ := s.fits_toNat
    have hloop := matchesFrom_eq hlen hfits hint (s.prefixSize.toNat / 8) 0 (by omega) (by omega)
    rw [hcast] at hloop
    rw [if_neg (not_not.mpr hclass), hloop]
    simp [hclass]
  · rw [if_pos hclass, decide_eq_false fun h => hclass h.1]

end AddressBlock

end Classes

/-! ### IPv4 and IPv6 -/

/-- `Inet4Address` and `Inet6Address`. -/
inductive InetClass
  | inet4
  | inet6
  deriving DecidableEq

def InetClass.size : InetClass → Nat
  | .inet4 => 4
  | .inet6 => 16

namespace InetAddress

def javaClass (a : InetAddress) : InetClass := if a.address.length = 4 then .inet4 else .inet6

theorem length_eq_size (a : InetAddress) : a.address.length = a.javaClass.size := by
  rw [javaClass]
  split
  · rename_i h
    exact h
  · rename_i h
    exact a.size.resolve_left h

theorem javaClass_eq_iff {a b : InetAddress} :
    a.javaClass = b.javaClass ↔ a.address.length = b.address.length := by
  constructor
  · intro h
    rw [a.length_eq_size, b.length_eq_size, h]
  · intro h
    rw [javaClass, javaClass, h]

def toClassAddress (a : InetAddress) : ClassAddress InetClass.size :=
  ⟨a.javaClass, a.address, a.length_eq_size⟩

end InetAddress

namespace Subnet

def toBlock (s : Subnet) : AddressBlock InetClass.size where
  address := s.address.toClassAddress
  prefixSize := s.prefixSize
  fits := by
    have hfits := s.fits
    have hsize := s.address.size
    show 0 ≤ (s.prefixSize : Int) ∧ (s.prefixSize : Int) ≤ toInt32 (s.address.address.length * 8)
    rw [toInt32_of_lt (by omega) (by omega)]
    omega

theorem agree_iff {a : List UInt8} : ∀ {b : List UInt8} {n : Nat}, a.length = b.length →
    n ≤ 8 * a.length → (agree n a b = true ↔ (bits a).take n = (bits b).take n) := by
  induction a with
  | nil =>
    intro b n hlen hn
    obtain rfl : n = 0 := by simpa using hn
    simp [agree]
  | cons x a ih =>
    intro b n hlen hn
    cases b with
    | nil => simp at hlen
    | cons y b =>
      have hlen' : a.length = b.length := by simpa using hlen
      rw [List.length_cons] at hn
      rw [agree]
      split
      · rename_i hwhole
        obtain ⟨m, rfl⟩ : ∃ m, n = 8 + m := ⟨n - 8, by omega⟩
        rw [take_bits_cons_eq_iff, Nat.add_sub_cancel_left, Bool.and_eq_true, decide_eq_true_iff,
          ih hlen' (by omega)]
      · rename_i hpart
        rw [take_bits_cons_of_le x a (by omega), take_bits_cons_of_le y b (by omega),
          Bool.or_eq_true, decide_eq_true_iff, decide_eq_true_iff, and_mask_eq_iff (by omega)]
        constructor
        · rintro (rfl | h)
          · rfl
          · exact h
        · exact Or.inr

theorem matches_iff (s : Subnet) (other : InetAddress) : s.matches other = true ↔
    s.address.javaClass = other.javaClass ∧
      (bits s.address.address).take s.prefixSize = (bits other.address).take s.prefixSize := by
  have hfits := s.fits
  rw [«matches», Bool.and_eq_true, decide_eq_true_iff, InetAddress.javaClass_eq_iff]
  constructor
  · rintro ⟨hlen, h⟩
    exact ⟨hlen, (agree_iff hlen (by omega)).mp h⟩
  · rintro ⟨hlen, h⟩
    exact ⟨hlen, (agree_iff hlen (by omega)).mpr h⟩

/-- **The first bits.**  Over classes of addresses with any numbers of bytes, `matches` returns, and it
returns whether the two addresses are of one class and their first `prefixSize` bits agree.  The test
on `Subnet` is this one. -/
theorem matches_prefix :
    (∀ {κ : Type} [DecidableEq κ] {size : κ → Nat} (s : AddressBlock size)
      (other : ClassAddress size), s.matches other =
        .ok (decide (s.address.javaClass = other.javaClass ∧
          (bits s.address.address).take s.prefixSize.toNat =
            (bits other.address).take s.prefixSize.toNat))) ∧
    ∀ (s : Subnet) (other : InetAddress),
      s.toBlock.matches other.toClassAddress = .ok (s.matches other) ∧
      (s.matches other = true ↔ s.address.javaClass = other.javaClass ∧
        (bits s.address.address).take s.prefixSize = (bits other.address).take s.prefixSize) := by
  refine ⟨AddressBlock.matches_eq, ?_⟩
  intro s other
  refine ⟨?_, s.matches_iff other⟩
  rw [AddressBlock.matches_eq]
  congr 1
  rw [Bool.eq_iff_iff, decide_eq_true_iff, s.matches_iff other]
  rfl

end Subnet

/-- Local results are trusted when one of them begins as one of the subnets does. -/
theorem LocalDnsServer.accepts_iff (s : LocalDnsServer) (results : List InetAddress) :
    s.accepts results = true ↔ s.localIpMatcher = [] ∨
      ∃ subnet ∈ s.localIpMatcher, ∃ a ∈ results, subnet.address.javaClass = a.javaClass ∧
        (bits subnet.address.address).take subnet.prefixSize =
          (bits a.address).take subnet.prefixSize := by
  simp only [LocalDnsServer.accepts, Bool.or_eq_true, List.isEmpty_iff, List.any_eq_true,
    Subnet.matches_iff]

end SsAndroid
