import SsAndroid.Lib.Text

/-!
# Numbers

What a computation with `Long`s gives (`toLong`), and decimal numbers: `Integer.parseInt` on one
side, the decimal text of a number on the other.

The parser takes an optional sign and the decimal digits of any script in the basic plane (as
`Character.digit` does), and fails on a value that does not fit.  **`parseInteger_decimal`** and
**`parseInteger_ofInt`**: the decimal text of a number that fits is read back as that number.
-/

namespace SsAndroid

/-- The range of a `Long`. -/
def IsLong (n : Int) : Prop := -2 ^ 63 ≤ n ∧ n < 2 ^ 63

instance (n : Int) : Decidable (IsLong n) := inferInstanceAs (Decidable (_ ∧ _))

/-- The value of a `Long` computation: it wraps. -/
def toLong (n : Int) : Int := n.bmod (2 ^ 64)

theorem toLong_of_range {n : Int} (h0 : -2 ^ 63 ≤ n) (h : n < 2 ^ 63) : toLong n = n :=
  Int.bmod_eq_of_le (by omega) (by omega)

theorem toLong_add (a b : Int) : toLong (toLong a + b) = toLong (a + b) := Int.bmod_add_bmod

/-- Nothing is added, or a multiple of `2 ^ 64`. -/
theorem toLong_add_eq_iff (a b : Int) : toLong (a + b) = toLong a ↔ toLong b = 0 := by
  have h := Int.bmod_add_cancel_left (x := b) (y := 0) (n := 2 ^ 64) a
  rw [add_zero, Int.zero_bmod] at h
  exact h

namespace Number

open Text

/-- The zeros of the decimal digits (general category `Nd`) of the basic plane. -/
def decimalZeros : List Nat :=
  [0x30, 0x660, 0x6F0, 0x7C0, 0x966, 0x9E6, 0xA66, 0xAE6, 0xB66, 0xBE6, 0xC66, 0xCE6, 0xD66, 0xDE6,
    0xE50, 0xED0, 0xF20, 0x1040, 0x1090, 0x17E0, 0x1810, 0x1946, 0x19D0, 0x1A80, 0x1A90, 0x1B50,
    0x1BB0, 0x1C40, 0x1C50, 0xA620, 0xA8D0, 0xA900, 0xA9D0, 0xA9F0, 0xAA50, 0xABF0, 0xFF10]

/-- `Character.digit(c, 10)`. -/
def digit? (c : Char) : Option Nat :=
  decimalZeros.findSome? fun z =>
    if z ≤ c.toNat ∧ c.toNat < z + 10 then some (c.toNat - z) else none

/-- The value of the digits behind those read so far. -/
def parseDigits : Text → Nat → Option Nat
  | [], acc => some acc
  | c :: cs, acc =>
      match digit? c with
      | some d => parseDigits cs (acc * 10 + d)
      | none => none

/-- A text of digits, at least one, whose value is at most `limit`. -/
def parseMagnitude (limit : Nat) (s : Text) : Option Nat :=
  if s = [] then none
  else
    match parseDigits s 0 with
    | some n => if n ≤ limit then some n else none
    | none => none

/-- The parser for numbers of `width` bits. -/
def parseInteger (width : Nat) (s : Text) : Option Int :=
  match s with
  | '-' :: cs => (parseMagnitude (2 ^ (width - 1)) cs).map fun n => -(n : Int)
  | '+' :: cs => (parseMagnitude (2 ^ (width - 1) - 1) cs).map Int.ofNat
  | cs => (parseMagnitude (2 ^ (width - 1) - 1) cs).map Int.ofNat

def parseInt (s : Text) : Option Int := parseInteger 32 s

/-! ### The decimal text -/

def digitChar (d : Nat) : Char := Char.ofNat (0x30 + d)

def decimal (n : Nat) : Text :=
  if n = 0 then ['0'] else (Nat.digits 10 n).reverse.map digitChar

def ofInt (n : Int) : Text :=
  match n with
  | .ofNat n => decimal n
  | .negSucc n => '-' :: decimal (n + 1)

def isDigit (c : Char) : Bool := 0x30 ≤ c.toNat && c.toNat ≤ 0x39

theorem digitChar_toNat {d : Nat} (h : d < 10) : (digitChar d).toNat = 0x30 + d := by
  interval_cases d <;> rfl

theorem isDigit_digitChar {d : Nat} (h : d < 10) : isDigit (digitChar d) = true := by
  rw [isDigit, digitChar_toNat h]
  simp
  omega

theorem digit?_digitChar {d : Nat} (h : d < 10) : digit? (digitChar d) = some d := by
  interval_cases d <;> decide

theorem parseDigits_append (s t : Text) : ∀ acc, parseDigits (s ++ t) acc =
    (parseDigits s acc).bind (parseDigits t) := by
  induction s with
  | nil => intro acc; rfl
  | cons c cs ih =>
    intro acc
    rw [List.cons_append, parseDigits, parseDigits]
    cases digit? c with
    | none => rfl
    | some d => exact ih _

/-- The digits, most significant first, are read as the number they are the digits of. -/
theorem parseDigits_digits {ds : List Nat} (h : ∀ d ∈ ds, d < 10) :
    parseDigits (ds.reverse.map digitChar) 0 = some (Nat.ofDigits 10 ds) := by
  induction ds with
  | nil => rfl
  | cons d ds ih =>
    rw [List.reverse_cons, List.map_append, parseDigits_append,
      ih (fun e he => h e (List.mem_cons_of_mem _ he))]
    show parseDigits [digitChar d] (Nat.ofDigits 10 ds) = _
    rw [parseDigits, digit?_digitChar (h d List.mem_cons_self), Nat.ofDigits_cons]
    show some (Nat.ofDigits 10 ds * 10 + d) = _
    rw [Nat.mul_comm, Nat.add_comm]

theorem mem_decimal {n : Nat} {c : Char} (h : c ∈ decimal n) : isDigit c = true := by
  rw [decimal] at h
  split at h
  · rw [List.mem_singleton.mp h]
    decide
  · obtain ⟨d, hd, rfl⟩ := List.mem_map.mp h
    exact isDigit_digitChar (Nat.digits_lt_base (by decide) (List.mem_reverse.mp hd))

theorem decimal_ne_nil (n : Nat) : decimal n ≠ [] := by
  rw [decimal]
  split
  · simp
  · rename_i hn
    simp [Nat.digits_ne_nil_iff_ne_zero, hn]

theorem parseDigits_decimal (n : Nat) : parseDigits (decimal n) 0 = some n := by
  rw [decimal]
  split
  · rename_i hn
    rw [hn]
    decide
  · rw [parseDigits_digits (fun d hd => Nat.digits_lt_base (by decide) hd), Nat.ofDigits_digits]

theorem parseMagnitude_decimal {limit n : Nat} (h : n ≤ limit) :
    parseMagnitude limit (decimal n) = some n := by
  rw [parseMagnitude, if_neg (decimal_ne_nil n), parseDigits_decimal]
  exact if_pos h

/-- **The decimal text of a natural number that fits is read back.** -/
theorem parseInteger_decimal {width n : Nat} (h : n ≤ 2 ^ (width - 1) - 1) :
    parseInteger width (decimal n) = some (n : Int) := by
  have hhead : ∀ c cs, decimal n = c :: cs → isDigit c = true := by
    intro c cs hc
    exact mem_decimal (n := n) (by rw [hc]; exact List.mem_cons_self)
  unfold parseInteger
  split
  · rename_i cs hc
    exact absurd (hhead _ _ hc) (by decide)
  · rename_i cs hc
    exact absurd (hhead _ _ hc) (by decide)
  · rw [parseMagnitude_decimal h]
    rfl

/-- **So is that of an integer.** -/
theorem parseInteger_ofInt {width : Nat} {n : Int} (hlo : -(2 ^ (width - 1) : Int) ≤ n)
    (hhi : n < 2 ^ (width - 1)) : parseInteger width (ofInt n) = some n := by
  cases n with
  | ofNat n =>
    refine parseInteger_decimal ?_
    have h : (n : Int) < ((2 ^ (width - 1) : Nat) : Int) := by push_cast; exact hhi
    omega
  | negSucc n =>
    have h : n + 1 ≤ 2 ^ (width - 1) := by
      have : ((n + 1 : Nat) : Int) ≤ ((2 ^ (width - 1) : Nat) : Int) := by
        push_cast
        rw [Int.negSucc_eq] at hlo
        omega
      omega
    show (parseMagnitude (2 ^ (width - 1)) (decimal (n + 1))).map (fun n => -(n : Int)) = _
    rw [parseMagnitude_decimal h]
    rfl

end Number

end SsAndroid
