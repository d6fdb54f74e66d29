import SsAndroid.Lib.Number
import SsAndroid.Lib.SortedList

/-!
# Subnets

`Subnet`: an address with a prefix size that fits it, its text form and its order.  The platform's
numeric address parser is a parameter (`AddressFormat`); what is relied on of it is that it takes
hexadecimal digits, dots and colons only, and that it reads its own text form back.

**`fromString_toString`**: a subnet over a parsed address is read back from its text.
-/

namespace SsAndroid

open Text

/-- An IPv4 or IPv6 address: `InetAddress.address`. -/
structure InetAddress where
  address : List UInt8
  size : address.length = 4 ∨ address.length = 16
  deriving DecidableEq

/-- The characters of numeric addresses. -/
def isAddressChar (c : Char) : Bool :=
  Number.isDigit c || (0x61 ≤ c.toNat && c.toNat ≤ 0x66) || (0x41 ≤ c.toNat && c.toNat ≤ 0x46) ||
    c = '.' || c = ':'

/-- `parseNumericAddress` and `InetAddress.hostAddress`. -/
structure AddressFormat where
  parseNumericAddress : Text → Option InetAddress
  hostAddress : InetAddress → Text
  parse_chars : ∀ {s a}, parseNumericAddress s = some a → ∀ c ∈ s, isAddressChar c = true
  parse_empty : parseNumericAddress [] = none
  parse_hostAddress : ∀ {s a}, parseNumericAddress s = some a →
    parseNumericAddress (hostAddress a) = some a

/-- A format that knows one address. -/
def AddressFormat.only (text : Text) (a : InetAddress) (hne : text ≠ [])
    (hchars : ∀ c ∈ text, isAddressChar c = true) : AddressFormat where
  parseNumericAddress := fun s => if s = text then some a else none
  hostAddress := fun _ => text
  parse_chars := by
    intro s b h
    split at h
    · rename_i hs
      rw [hs]
      exact hchars
    · simp at h
  parse_empty := if_neg (fun h => hne h.symm)
  parse_hostAddress := by
    intro s b h
    split at h
    · rw [if_pos rfl]
      exact h
    · simp at h

/-- `Subnet`, with the requirement of its initialiser. -/
structure Subnet where
  address : InetAddress
  prefixSize : Nat
  fits : prefixSize ≤ address.address.length * 8
  deriving DecidableEq

namespace Subnet

variable (F : AddressFormat)

/-- `Subnet.fromString`. -/
def fromString (value : Text) : Option Subnet :=
  match F.parseNumericAddress (splitAtFirst '/' value).1 with
  | none => none
  | some addr =>
      match (splitAtFirst '/' value).2 with
      | none => some ⟨addr, addr.address.length * 8, Nat.le_refl _⟩
      | some size =>
          match Number.parseInt size with
          | none => none
          | some prefixSize =>
              if h : prefixSize < 0 ∨ prefixSize > (addr.address.length * 8 : Nat) then none
              else some ⟨addr, prefixSize.toNat, by omega⟩

def toString (s : Subnet) : Text :=
  if s.prefixSize = s.address.address.length * 8 then F.hostAddress s.address
  else F.hostAddress s.address ++ '/' :: Number.decimal s.prefixSize

/-- The loop of `matches` over the whole bytes of the prefix, and the rest of it under a mask. -/
def agree : Nat → List UInt8 → List UInt8 → Bool
  | bits, x :: a, y :: b =>
      if 8 ≤ bits then x = y && agree (bits - 8) a b
      else bits = 0 || x.toNat &&& (256 - 1 <<< (8 - bits)) = y.toNat &&& (256 - 1 <<< (8 - bits))
  | bits, _, _ => bits = 0

/-- `matches(other)`; the classes of two addresses are the same if their sizes are. -/
def «matches» (s : Subnet) (other : InetAddress) : Bool :=
  s.address.address.length = other.address.length &&
    agree s.prefixSize s.address.address other.address

/-- The bytes of two addresses of one size, without their signs, first to last. -/
def compareTo (s t : Subnet) : Ordering :=
  ((compare s.address.address.length t.address.address.length).then
    (compare (s.address.address.map UInt8.toNat) (t.address.address.map UInt8.toNat))).then
    (compare s.prefixSize t.prefixSize)

instance : Std.TransCmp compareTo :=
  inferInstanceAs (Std.TransCmp (compareLex
    (compareLex (compareOn fun s : Subnet => s.address.address.length)
      (compareOn fun s : Subnet => s.address.address.map UInt8.toNat))
    (compareOn fun s : Subnet => s.prefixSize)))

theorem eq_of_compareTo {s t : Subnet} (h : compareTo s t = .eq) : s = t := by
  rw [compareTo, Ordering.then_eq_eq, Ordering.then_eq_eq] at h
  obtain ⟨⟨-, hbytes⟩, hsize⟩ := h
  have hb : s.address.address = t.address.address :=
    List.map_injective_iff.mpr (fun a b hab => UInt8.toNat_inj.mp hab)
      (Std.LawfulEqOrd.eq_of_compare hbytes)
  have hp : s.prefixSize = t.prefixSize := Std.LawfulEqOrd.eq_of_compare hsize
  obtain ⟨⟨sa, _⟩, sp, _⟩ := s
  obtain ⟨⟨ta, _⟩, tp, _⟩ := t
  cases hb
  cases hp
  rfl

/-! ### Reading a subnet back -/

variable {F}

theorem fromString_eq_some {value : Text} {s : Subnet} (h : fromString F value = some s) :
    ∃ text, F.parseNumericAddress text = some s.address := by
  unfold fromString at h
  split at h
  · simp at h
  · rename_i addr haddr
    refine ⟨_, haddr.trans ?_⟩
    split at h
    · cases h
      rfl
    · split at h
      · simp at h
      · split at h
        · simp at h
        · cases h
          rfl

/-- A text whose first character is in no numeric address is no subnet. -/
theorem fromString_eq_none {c : Char} {cs : Text} (hc : isAddressChar c = false) (hs : c ≠ '/') :
    fromString F (c :: cs) = none := by
  have hfst : (splitAtFirst '/' (c :: cs)).1 = c :: (splitAtFirst '/' cs).1 := by
    rw [splitAtFirst, if_neg hs]
  rw [fromString, hfst]
  cases hp : F.parseNumericAddress (c :: (splitAtFirst '/' cs).1) with
  | none => rfl
  | some a =>
    rw [F.parse_chars hp c List.mem_cons_self] at hc
    exact absurd hc (by decide)

theorem slash_not_mem_hostAddress {text : Text} {a : InetAddress}
    (h : F.parseNumericAddress text = some a) : '/' ∉ F.hostAddress a := by
  intro hmem
  exact absurd (F.parse_chars (F.parse_hostAddress h) '/' hmem) (by decide)

/-- **A subnet over a parsed address is read back from its text.** -/
theorem fromString_toString {text : Text} {s : Subnet}
    (h : F.parseNumericAddress text = some s.address) : fromString F (s.toString F) = some s := by
  have hparse := F.parse_hostAddress h
  have hslash := slash_not_mem_hostAddress h
  obtain ⟨a, n, hn⟩ := s
  have hlen : a.address.length * 8 ≤ 128 := by
    have := a.size
    omega
  rw [toString]
  split
  · rename_i hfull
    have hfull' : n = a.address.length * 8 := hfull
    subst hfull'
    rw [fromString, splitAtFirst_of_not_mem hslash]
    show (match F.parseNumericAddress (F.hostAddress a) with | none => none | some addr => _) = _
    rw [hparse]
  · rw [fromString, splitAtFirst_append hslash]
    show (match F.parseNumericAddress (F.hostAddress a) with | none => none | some addr => _) = _
    rw [hparse]
    have hint : Number.parseInt (Number.decimal n) = some (n : Int) :=
      Number.parseInteger_decimal (by omega)
    show (match Number.parseInt (Number.decimal n) with | none => none | some _ => _) = _
    rw [hint]
    have hfits : ¬((n : Int) < 0 ∨ (n : Int) > (a.address.length * 8 : Nat)) := by omega
    exact dif_neg hfits

/-- The characters of a subnet's text. -/
theorem mem_toString {text : Text} {s : Subnet} (h : F.parseNumericAddress text = some s.address)
    {c : Char} (hc : c ∈ s.toString F) : isAddressChar c = true ∨ c = '/' := by
  have haddr : ∀ c ∈ F.hostAddress s.address, isAddressChar c = true :=
    F.parse_chars (F.parse_hostAddress h)
  rw [toString] at hc
  split at hc
  · exact Or.inl (haddr c hc)
  · cases List.mem_append.mp hc with
    | inl hc => exact Or.inl (haddr c hc)
    | inr hc =>
      cases List.mem_cons.mp hc with
      | inl hc => exact Or.inr hc
      | inr hc =>
        refine Or.inl ?_
        rw [isAddressChar, Number.mem_decimal hc]
        rfl

theorem not_whitespace_of_addressChar {c : Char} (h : isAddressChar c = true ∨ c = '/') :
    isWhitespace c = false := by
  have hrange : 0x2E ≤ c.toNat ∧ c.toNat ≤ 0x66 := by
    rcases h with h | rfl
    · simp only [isAddressChar, Number.isDigit, Bool.or_eq_true, Bool.and_eq_true,
        decide_eq_true_eq] at h
      rcases h with (((h | h) | h) | rfl) | rfl
      · omega
      · omega
      · omega
      · decide
      · decide
    · decide
  simp only [isWhitespace, Bool.or_eq_false_iff, Bool.and_eq_false_iff, decide_eq_false_iff_not,
    List.contains_eq_mem, List.mem_cons, List.not_mem_nil, or_false, not_or, not_le]
  omega

theorem toString_ne_nil {text : Text} {s : Subnet}
    (h : F.parseNumericAddress text = some s.address) : s.toString F ≠ [] := by
  have hne : F.hostAddress s.address ≠ [] := by
    intro he
    have hp := F.parse_hostAddress h
    rw [he, F.parse_empty] at hp
    exact absurd hp (by simp)
  rw [toString]
  split
  · exact hne
  · simp

end Subnet

end SsAndroid
