import SsAndroid.Acl.Acl
import SsAndroid.Lib.SortedLookup
import SsAndroid.Net.SubnetMatches

/-!
# The order of subnets

`compareToInt` is `compareTo` as it runs, with signed bytes, integers for results and a loop that
returns at the first pair of bytes that differ.  Its result is the sign of `Subnet.compareTo`
(`compareToInt_eq`), from where the laws of an order come.  `equals` is written for an address that
may be null, and the sorter of the lists for items that may be.

**`compareTo_total_order`** has the laws, that the order is the one of families, numbers and prefix
sizes, and what follows for the lists of subnets.
-/

namespace SsAndroid

open Bytes

/-! ### Results of comparisons -/

/-- `Int.compareTo`. -/
def intCompareTo (m n : Int) : Int := if m < n then -1 else if m = n then 0 else 1

/-- The integer for the result of a comparison. -/
def resultOf : Ordering → Int
  | .lt => -1
  | .eq => 0
  | .gt => 1

theorem intCompareTo_natCast (m n : Nat) : intCompareTo m n = resultOf (compare m n) := by
  rw [intCompareTo]
  rcases Nat.lt_trichotomy m n with hlt | heq | hgt
  · rw [if_pos (by omega), Nat.compare_eq_lt.mpr hlt]
    rfl
  · rw [if_neg (by omega), if_pos (by omega), Nat.compare_eq_eq.mpr heq]
    rfl
  · rw [if_neg (by omega), if_neg (by omega), Nat.compare_eq_gt.mpr hgt]
    rfl

section Results

variable (o : Ordering)

theorem resultOf_then (p : Ordering) :
    resultOf (o.then p) = if resultOf o ≠ 0 then resultOf o else resultOf p := by
  cases o <;> rfl

theorem resultOf_swap : resultOf o.swap = -resultOf o := by
  cases o <;> rfl

theorem resultOf_eq_zero_iff : resultOf o = 0 ↔ o = .eq := by
  cases o <;> decide

theorem resultOf_neg_iff : resultOf o < 0 ↔ o = .lt := by
  cases o <;> decide

theorem resultOf_nonpos_iff : resultOf o ≤ 0 ↔ o.isLE = true := by
  cases o <;> decide

end Results

/-! ### Comparing subnets -/

/-- `InetAddress.equals`: a null is no address. -/
def InetAddress.equals (a : InetAddress) : Option InetAddress → Bool
  | none => false
  | some b => a.javaClass = b.javaClass && a.address = b.address

namespace Subnet

/-- `Byte.unsigned()`: `toInt() and 0xFF`. -/
def unsigned (x : UInt8) : Int := (x.toBitVec.signExtend 32 &&& 0xFF#32).toInt

/-- The loop over `addrThis zip addrThat`, and what is returned behind it. -/
def compareBytes (behind : Int) : List (UInt8 × UInt8) → Int
  | [] => behind
  | (x, y) :: pairs =>
      if intCompareTo (unsigned x) (unsigned y) ≠ 0 then intCompareTo (unsigned x) (unsigned y)
      else compareBytes behind pairs

/-- `compareTo(other)`. -/
def compareToInt (s other : Subnet) : Int :=
  let addrThis := s.address.address
  let addrThat := other.address.address
  if intCompareTo addrThis.length addrThat.length ≠ 0 then
    intCompareTo addrThis.length addrThat.length
  else compareBytes (intCompareTo s.prefixSize other.prefixSize) (addrThis.zip addrThat)

/-- `equals(other)`; what is no subnet is null after the cast. -/
def equals (s : Subnet) (that : Option Subnet) : Bool :=
  s.address.equals (that.map Subnet.address) && some s.prefixSize = that.map Subnet.prefixSize

theorem unsigned_eq (x : UInt8) : unsigned x = x.toNat := by
  have hx : x.toNat < 2 ^ 8 := x.toNat_lt
  have hmask : x.toNat &&& 255 = x.toNat := by
    rw [show 255 = 2 ^ 8 - 1 from rfl, Nat.and_two_pow_sub_one_eq_mod, Nat.mod_eq_of_lt hx]
  have hnat : (x.toBitVec.signExtend 32 &&& 0xFF#32).toNat = x.toNat :=
    (signExtend_and x (by decide)).trans hmask
  rw [unsigned, BitVec.toInt_eq_toNat_of_lt (by omega), hnat]

/-- The loop compares the bytes as the order of lists does. -/
theorem compareBytes_eq (o : Ordering) {a : List UInt8} : ∀ {b : List UInt8},
    a.length = b.length → compareBytes (resultOf o) (a.zip b) =
      resultOf ((compare (a.map UInt8.toNat) (b.map UInt8.toNat)).then o) := by
  induction a with
  | nil =>
    intro b h
    cases b with
    | nil => rfl
    | cons y b => simp at h
  | cons x a ih =>
    intro b h
    cases b with
    | nil => simp at h
    | cons y b =>
      have hlen : a.length = b.length := by simpa using h
      rw [List.zip_cons_cons, compareBytes, unsigned_eq, unsigned_eq, intCompareTo_natCast,
        ih hlen, List.map_cons, List.map_cons, List.compare_cons_cons, Ordering.then_assoc,
        resultOf_then (compare x.toNat y.toNat)]

/-- **What `compareTo` returns.** -/
theorem compareToInt_eq (s t : Subnet) : s.compareToInt t = resultOf (compareTo s t) := by
  rw [compareToInt, compareTo, intCompareTo_natCast, intCompareTo_natCast, Ordering.then_assoc,
    resultOf_then]
  by_cases hlen : s.address.address.length = t.address.address.length
  · rw [compareBytes_eq _ hlen]
  · have hne : resultOf (compare s.address.address.length t.address.address.length) ≠ 0 := by
      rw [ne_eq, resultOf_eq_zero_iff, Nat.compare_eq_eq]
      exact hlen
    rw [if_pos hne, if_pos hne]

theorem equals_iff {s t : Subnet} : s.equals (some t) = true ↔ s = t := by
  constructor
  · intro h
    rw [equals, Bool.and_eq_true, Option.map_some, Option.map_some, decide_eq_true_iff,
      InetAddress.equals, Bool.and_eq_true, decide_eq_true_iff, decide_eq_true_iff] at h
    obtain ⟨⟨-, haddress⟩, hprefix⟩ := h
    obtain ⟨⟨sa, _⟩, sp, _⟩ := s
    obtain ⟨⟨ta, _⟩, tp, _⟩ := t
    cases haddress
    cases hprefix
    rfl
  · rintro rfl
    simp [equals, InetAddress.equals]

/-! ### The laws -/

section Laws

variable (s t u : Subnet)

theorem compareToInt_swap : s.compareToInt t = -t.compareToInt s := by
  have hswap : compareTo s t = (compareTo t s).swap := Std.OrientedCmp.eq_swap
  rw [compareToInt_eq, compareToInt_eq, hswap, resultOf_swap]

variable {s t u}

theorem compareToInt_trans (hst : s.compareToInt t ≤ 0) (htu : t.compareToInt u ≤ 0) :
    s.compareToInt u ≤ 0 := by
  rw [compareToInt_eq, resultOf_nonpos_iff] at *
  exact Std.TransCmp.isLE_trans hst htu

theorem compareToInt_lt_trans (hst : s.compareToInt t < 0) (htu : t.compareToInt u < 0) :
    s.compareToInt u < 0 := by
  rw [compareToInt_eq, resultOf_neg_iff] at *
  exact Std.TransCmp.lt_trans hst htu

theorem compareToInt_eq_zero_iff : s.compareToInt t = 0 ↔ s.equals (some t) = true := by
  rw [compareToInt_eq, resultOf_eq_zero_iff, equals_iff]
  constructor
  · exact eq_of_compareTo
  · rintro rfl
    exact Std.ReflCmp.compare_self

/-- IPv4 comes first. -/
theorem compareToInt_of_families (hs : s.address.javaClass = .inet4)
    (ht : t.address.javaClass = .inet6) : s.compareToInt t < 0 := by
  have hlen : s.address.address.length < t.address.address.length := by
    rw [s.address.length_eq_size, t.address.length_eq_size, hs, ht]
    decide
  rw [compareToInt_eq, resultOf_neg_iff, compareTo, Nat.compare_eq_lt.mpr hlen]
  rfl

/-- In a family the numbers decide, and then the prefix sizes. -/
theorem compareToInt_of_family (h : s.address.javaClass = t.address.javaClass) :
    s.compareToInt t < 0 ↔ value s.address.address < value t.address.address ∨
      value s.address.address = value t.address.address ∧ s.prefixSize < t.prefixSize := by
  have hlen := InetAddress.javaClass_eq_iff.mp h
  rw [compareToInt_eq, resultOf_neg_iff, compareTo, compare_value hlen,
    Nat.compare_eq_eq.mpr hlen, Ordering.eq_then, Ordering.then_eq_lt, Nat.compare_eq_lt,
    Nat.compare_eq_eq, Nat.compare_eq_lt]

end Laws

end Subnet

/-! ### The lists -/

/-- `BaseSorter.compare`: a null comes last. -/
def BaseSorter.compare {α : Type} (compareNonNull : α → α → Int) : Option α → Option α → Int
  | none, none => 0
  | none, some _ => 1
  | some _, none => -1
  | some o1, some o2 => compareNonNull o1 o2

/-- `BaseSorter.areItemsTheSame`: `==`, where only a null is a null. -/
def BaseSorter.areItemsTheSame {α : Type} (equals : α → Option α → Bool) :
    Option α → Option α → Bool
  | none, item2 => item2.isNone
  | some item1, item2 => equals item1 item2

namespace SubnetSorter

def compare : Option Subnet → Option Subnet → Int := BaseSorter.compare Subnet.compareToInt

def areItemsTheSame : Option Subnet → Option Subnet → Bool :=
  BaseSorter.areItemsTheSame Subnet.equals

/-- `subnetSorter` is the sorter on the items of a list, none of which is null. -/
theorem eq_subnetSorter (s t : Subnet) : compare (some s) (some t) =
    resultOf (subnetSorter.compare s t) ∧
    areItemsTheSame (some s) (some t) = subnetSorter.areItemsTheSame s t := by
  refine ⟨s.compareToInt_eq t, ?_⟩
  show s.equals (some t) = decide (s = t)
  rw [Bool.eq_iff_iff, Subnet.equals_iff, decide_eq_true_iff]

end SubnetSorter

namespace Subnet

theorem pairwise_data (l : SortedList subnetSorter) :
    l.data.Pairwise fun s t => s.compareToInt t < 0 ∧ s.equals (some t) = false := by
  have hlt := (subnetSorter_strict.noTies l.distinct).lt l.sorted
  refine hlt.imp ?_
  intro s t hst
  have hneg : s.compareToInt t < 0 := by
    rw [compareToInt_eq, resultOf_neg_iff]
    exact hst
  refine ⟨hneg, ?_⟩
  rw [← Bool.not_eq_true, ← compareToInt_eq_zero_iff]
  omega

/-- **The order of subnets.**  `compareTo` is a total order that agrees with `equals`; it puts IPv4
first and orders a family by the numbers of the addresses and then by prefix size.  Whatever is done to a
list of subnets, it is in this order without two equal subnets, it holds what was added and not taken
away, and what it holds is found where it is. -/
theorem compareTo_total_order :
    (∀ s t : Subnet, s.compareToInt t = -t.compareToInt s) ∧
    (∀ s t u : Subnet, (s.compareToInt t ≤ 0 → t.compareToInt u ≤ 0 → s.compareToInt u ≤ 0) ∧
      (s.compareToInt t < 0 → t.compareToInt u < 0 → s.compareToInt u < 0)) ∧
    (∀ s t : Subnet, s.compareToInt t ≤ 0 ∨ t.compareToInt s ≤ 0) ∧
    (∀ s t : Subnet, s.compareToInt t = 0 ↔ s.equals (some t) = true) ∧
    (∀ s t : Subnet, s.address.javaClass = .inet4 → t.address.javaClass = .inet6 →
      s.compareToInt t < 0) ∧
    (∀ s t : Subnet, s.address.javaClass = t.address.javaClass →
      (s.compareToInt t < 0 ↔ value s.address.address < value t.address.address ∨
        value s.address.address = value t.address.address ∧ s.prefixSize < t.prefixSize)) ∧
    (∀ s t : Subnet, SubnetSorter.compare (some s) (some t) =
        resultOf (subnetSorter.compare s t) ∧
      SubnetSorter.areItemsTheSame (some s) (some t) = subnetSorter.areItemsTheSame s t) ∧
    ∀ (l : SortedList subnetSorter) (ops : List (SortedList.Op Subnet)),
      ((l.run ops).data.Pairwise fun s t => s.compareToInt t < 0 ∧ s.equals (some t) = false) ∧
      (l.run ops).items = SortedList.Op.applyAll subnetSorter l.items ops ∧
      ∀ s, (s ∈ (l.run ops).items ↔ ∃ i, (l.run ops).indexOf s = some i) ∧
        ∀ i, (l.run ops).indexOf s = some i ↔ (l.run ops).data[i]? = some s := by
  refine ⟨compareToInt_swap, fun s t u => ⟨compareToInt_trans, compareToInt_lt_trans⟩, ?_,
    fun s t => compareToInt_eq_zero_iff, fun s t => compareToInt_of_families,
    fun s t => compareToInt_of_family, SubnetSorter.eq_subnetSorter, ?_⟩
  · intro s t
    have hswap := compareToInt_swap s t
    omega
  · intro l ops
    refine ⟨pairwise_data _, SortedList.items_run subnetSorter_strict ops l, ?_⟩
    intro s
    refine ⟨?_, fun i => SortedList.indexOf_eq_some_iff subnetSorter_strict⟩
    simp only [SortedList.indexOf_eq_some_iff subnetSorter_strict]
    exact List.mem_iff_getElem?

/-- `10.0.0.0/8` comes before `::/0`, and a list that both were added to finds it. -/
theorem ten_before_all : ∃ ten all : Subnet, ten.prefixSize = 8 ∧ all.prefixSize = 0 ∧
    ten.compareToInt all < 0 ∧
    ∃ i, ((SortedList.empty : SortedList subnetSorter).run [.add all, .add ten]).indexOf ten =
      some i := by
  refine ⟨⟨⟨[10, 0, 0, 0], .inl rfl⟩, 8, by decide⟩,
    ⟨⟨List.replicate 16 0, .inr rfl⟩, 0, by decide⟩, rfl, rfl, ?_, ?_⟩
  · exact compareTo_total_order.2.2.2.2.1 _ _ rfl rfl
  · obtain ⟨-, hitems, hfound⟩ := compareTo_total_order.2.2.2.2.2.2.2 SortedList.empty _
    refine (hfound _).1.mp ?_
    rw [hitems]
    exact Or.inl rfl

end Subnet

end SsAndroid
