import SsAndroid.Lib.Encoding
import SsAndroid.Lib.Number

/-!
# Bytes as C programs read them

A file is a list of bytes.  `fgets` takes a line off its front, or as much of the line as fits the
buffer; `ofBytes` is what the string functions see of a buffer, which ends at the first zero byte.
`strtol` and `atoi` read the number at the front of a string and take no notice of the rest.

The file also has the facts about UTF-8 that such programs rely on without saying so: a byte below
`0x80` stands for itself and is part of no other character, so that cutting a text at one is cutting
its bytes (`mem_utf8`, `utf8_cons_ascii`).
-/

namespace SsAndroid

namespace CString

/-! ### Strings in buffers -/

/-- The string in a buffer. -/
def ofBytes (bs : List UInt8) : List UInt8 := bs.takeWhile (· ≠ 0)

/-- `isspace`, in the C locale. -/
def isspace (b : UInt8) : Bool := b.toNat = 0x20 || (9 ≤ b.toNat && b.toNat ≤ 13)

/-- Without the spaces at both ends. -/
def trim (s : List UInt8) : List UInt8 :=
  ((s.dropWhile isspace).reverse.dropWhile isspace).reverse

theorem ofBytes_eq_self {bs : List UInt8} (h : 0 ∉ bs) : ofBytes bs = bs := by
  rw [ofBytes, List.takeWhile_eq_self_iff]
  intro b hb
  exact decide_eq_true fun h0 => h (h0 ▸ hb)

theorem trim_eq_self {s : List UInt8} (hhead : ∀ b ∈ s.head?, isspace b = false)
    (hlast : ∀ b ∈ s.getLast?, isspace b = false) : trim s = s :=
  Text.dropWhile_ends_eq_self hhead hlast

/-! ### Lines of a file -/

/-- `fgets` into a buffer for `n` bytes and the zero: what was read, and the rest of the file. -/
def fgets : Nat → List UInt8 → List UInt8 × List UInt8
  | 0, f => ([], f)
  | _ + 1, [] => ([], [])
  | n + 1, b :: f => if b = 10 then ([b], f) else (b :: (fgets n f).1, (fgets n f).2)

/-- A line that fits is read with its end. -/
theorem fgets_line {l : List UInt8} (hl : 10 ∉ l) (rest : List UInt8) : ∀ {n : Nat}, l.length < n →
    fgets n (l ++ 10 :: rest) = (l ++ [10], rest) := by
  induction l with
  | nil =>
    intro n hn
    cases n with
    | zero => exact absurd hn (by simp)
    | succ n => rfl
  | cons b l ih =>
    intro n hn
    rw [List.mem_cons, not_or] at hl
    cases n with
    | zero => exact absurd hn (by simp)
    | succ n =>
      rw [List.length_cons, Nat.succ_lt_succ_iff] at hn
      rw [List.cons_append, fgets, if_neg (fun h => hl.1 h.symm), ih hl.2 hn]
      rfl

/-- Of a line that does not fit, as much is read as does. -/
theorem fgets_long {l : List UInt8} (hl : 10 ∉ l) (rest : List UInt8) : ∀ {n : Nat}, n ≤ l.length →
    fgets n (l ++ rest) = (l.take n, l.drop n ++ rest) := by
  induction l with
  | nil =>
    intro n hn
    rw [Nat.le_zero.mp hn]
    rfl
  | cons b l ih =>
    intro n hn
    rw [List.mem_cons, not_or] at hl
    cases n with
    | zero => rfl
    | succ n =>
      rw [List.length_cons, Nat.succ_le_succ_iff] at hn
      rw [List.cons_append, fgets, if_neg (fun h => hl.1 h.symm), ih hl.2 hn]
      rfl

theorem fgets_length_le : ∀ (n : Nat) (f : List UInt8), (fgets n f).2.length ≤ f.length
  | 0, _ => le_refl _
  | _ + 1, [] => le_refl _
  | n + 1, b :: f => by
    rw [fgets]
    split
    · exact Nat.le_succ _
    · exact (fgets_length_le n f).trans (Nat.le_succ _)

/-- Something is read of a file that is not at its end. -/
theorem fgets_length_lt (n : Nat) {f : List UInt8} (hf : f ≠ []) :
    (fgets (n + 1) f).2.length < f.length := by
  cases f with
  | nil => exact absurd rfl hf
  | cons b f =>
    rw [fgets]
    split
    · exact Nat.lt_succ_self _
    · exact Nat.lt_succ_of_le (fgets_length_le n f)

/-! ### Numbers -/

/-- The value of the digits in front, behind those read so far. -/
def digits : List UInt8 → Nat → Nat
  | [], acc => acc
  | b :: bs, acc =>
      if 0x30 ≤ b.toNat ∧ b.toNat ≤ 0x39 then digits bs (acc * 10 + (b.toNat - 0x30)) else acc

/-- `strtol(s, NULL, 10)` for a `long` of `width` bits, which stops at its bounds. -/
def strtol (width : Nat) (s : List UInt8) : Int :=
  match s.dropWhile isspace with
  | 0x2D :: s => max (-(2 ^ (width - 1) : Int)) (-(digits s 0 : Int))
  | 0x2B :: s => min (2 ^ (width - 1) - 1 : Int) (digits s 0)
  | s => min (2 ^ (width - 1) - 1 : Int) (digits s 0)

/-- `atoi`: the value of `strtol` as an `int`. -/
def atoi (width : Nat) (s : List UInt8) : Int := (strtol width s).bmod (2 ^ 32)

/-! ### ASCII in UTF-8 -/

theorem utf8EncodeChar_ascii {c : Char} (h : c.toNat < 0x80) :
    String.utf8EncodeChar c = [UInt8.ofNat c.toNat] := by
  unfold String.utf8EncodeChar
  have hval : c.val.toNat = c.toNat := rfl
  dsimp only
  rw [hval, if_pos (by omega)]

theorem le_of_mem_utf8EncodeChar {c : Char} (h : 0x80 ≤ c.toNat) :
    ∀ b ∈ String.utf8EncodeChar c, 0x80 ≤ b.toNat := by
  have hval : c.val.toNat = c.toNat := rfl
  have hmax := Text.toNat_range c
  unfold String.utf8EncodeChar
  dsimp only
  rw [hval]
  split_ifs
  · omega
  all_goals
    simp only [List.forall_mem_cons, List.not_mem_nil, false_imp_iff, implies_true, and_true,
      UInt8.toNat_ofNat']
    omega

/-- An ASCII character is found by its byte. -/
theorem mem_utf8 {c : Char} (hc : c.toNat < 0x80) (s : Text) :
    UInt8.ofNat c.toNat ∈ Text.utf8 s ↔ c ∈ s := by
  have hbyte : (UInt8.ofNat c.toNat).toNat = c.toNat := by
    rw [UInt8.toNat_ofNat']
    omega
  rw [Text.utf8, List.mem_flatMap]
  constructor
  · rintro ⟨d, hd, hmem⟩
    by_cases hascii : d.toNat < 0x80
    · rw [utf8EncodeChar_ascii hascii, List.mem_singleton] at hmem
      have hval := congrArg UInt8.toNat hmem
      rw [hbyte, UInt8.toNat_ofNat'] at hval
      rwa [Text.toNat_inj (show c.toNat = d.toNat by omega)]
    · have := le_of_mem_utf8EncodeChar (by omega) _ hmem
      omega
  · intro h
    exact ⟨c, h, by rw [utf8EncodeChar_ascii hc]; exact List.mem_singleton_self _⟩

/-- A text is cut where its bytes are cut at an ASCII character. -/
theorem utf8_cons_ascii {c : Char} (hc : c.toNat < 0x80) (s t : Text) :
    Text.utf8 (s ++ c :: t) = Text.utf8 s ++ UInt8.ofNat c.toNat :: Text.utf8 t := by
  rw [Text.utf8, List.flatMap_append, List.flatMap_cons, utf8EncodeChar_ascii hc]
  rfl

theorem utf8_injective {s t : Text} (h : Text.utf8 s = Text.utf8 t) : s = t := by
  rw [← Utf8.decode_utf8 s, h, Utf8.decode_utf8]

/-- A text starts with a character that its first byte belongs to. -/
theorem head?_utf8 {s : Text} {b : UInt8} (h : (Text.utf8 s).head? = some b)
    (hb : b.toNat < 0x80) : ∃ c, s.head? = some c ∧ c.toNat = b.toNat := by
  cases s with
  | nil => simp [Text.utf8] at h
  | cons c s =>
    refine ⟨c, rfl, ?_⟩
    obtain ⟨first, tail, hchar, -⟩ := Utf8.utf8EncodeChar_tail c
    have hfirst : first = b := by
      rw [Text.utf8, List.flatMap_cons, hchar] at h
      exact Option.some.inj h
    by_cases hascii : c.toNat < 0x80
    · rw [utf8EncodeChar_ascii hascii] at hchar
      rw [← hfirst, ← (List.cons.inj hchar).1, UInt8.toNat_ofNat']
      omega
    · have hmem : first ∈ String.utf8EncodeChar c := by
        rw [hchar]
        exact List.mem_cons_self
      have := le_of_mem_utf8EncodeChar (by omega) first hmem
      rw [hfirst] at this
      omega

/-- A text ends with a character that its last byte belongs to. -/
theorem getLast?_utf8 {s : Text} {b : UInt8} (h : (Text.utf8 s).getLast? = some b)
    (hb : b.toNat < 0x80) : ∃ c, s.getLast? = some c ∧ c.toNat = b.toNat := by
  rcases List.eq_nil_or_concat s with rfl | ⟨s, c, rfl⟩
  · simp [Text.utf8] at h
  · refine ⟨c, by simp, ?_⟩
    have hne : String.utf8EncodeChar c ≠ [] := by
      obtain ⟨first, tail, hchar, -⟩ := Utf8.utf8EncodeChar_tail c
      rw [hchar]
      simp
    have hlast : (String.utf8EncodeChar c).getLast? = some b := by
      rw [List.concat_eq_append, Text.utf8, List.flatMap_append] at h
      simp only [List.flatMap_cons, List.flatMap_nil, List.append_nil] at h
      rw [List.getLast?_append, List.getLast?_eq_some_getLast hne, Option.some_or] at h
      rw [List.getLast?_eq_some_getLast hne]
      exact h
    by_cases hascii : c.toNat < 0x80
    · rw [utf8EncodeChar_ascii hascii] at hlast
      have hbyte : UInt8.ofNat c.toNat = b := Option.some.inj hlast
      rw [← hbyte, UInt8.toNat_ofNat']
      omega
    · have := le_of_mem_utf8EncodeChar (by omega) b (List.mem_of_getLast? hlast)
      omega

theorem utf8_length_ascii {s : Text} (h : ∀ c ∈ s, c.toNat < 0x80) :
    (Text.utf8 s).length = s.length := by
  induction s with
  | nil => rfl
  | cons c s ih =>
    rw [List.forall_mem_cons] at h
    rw [Text.utf8, List.flatMap_cons, utf8EncodeChar_ascii h.1]
    exact congrArg (· + 1) (ih h.2)

/-! ### Decimal numbers -/

theorem toNat_lt_of_isDigit {c : Char} (h : Number.isDigit c = true) : c.toNat < 0x80 := by
  simp only [Number.isDigit, Bool.and_eq_true, decide_eq_true_eq] at h
  omega

theorem digits_utf8 {s : Text} (h : ∀ c ∈ s, Number.isDigit c = true) : ∀ {acc n : Nat},
    Number.parseDigits s acc = some n → digits (Text.utf8 s) acc = n := by
  induction s with
  | nil =>
    intro acc n hn
    exact Option.some.inj hn
  | cons c s ih =>
    intro acc n hn
    rw [List.forall_mem_cons] at h
    have hrange := h.1
    simp only [Number.isDigit, Bool.and_eq_true, decide_eq_true_eq] at hrange
    have hdigit : Number.digit? c = some (c.toNat - 0x30) := by
      rw [Number.digit?, Number.decimalZeros, List.findSome?_cons, if_pos (by omega)]
    rw [Number.parseDigits, hdigit] at hn
    rw [Text.utf8, List.flatMap_cons, utf8EncodeChar_ascii (toNat_lt_of_isDigit h.1)]
    show digits (UInt8.ofNat c.toNat :: Text.utf8 s) acc = n
    have hbyte : (UInt8.ofNat c.toNat).toNat = c.toNat := by
      rw [UInt8.toNat_ofNat']
      omega
    rw [digits, hbyte, if_pos hrange]
    exact ih h.2 hn

/-- **`atoi` reads decimal texts of small numbers.** -/
theorem atoi_decimal {width n : Nat} (hn : n < 2 ^ 31) (hwidth : 32 ≤ width) :
    atoi width (Text.utf8 (Number.decimal n)) = n := by
  have hdigits : digits (Text.utf8 (Number.decimal n)) 0 = n :=
    digits_utf8 (fun c hc => Number.mem_decimal hc) (Number.parseDigits_decimal n)
  have hpow : (2 : Int) ^ 31 ≤ 2 ^ (width - 1) := by
    exact_mod_cast Nat.pow_le_pow_right (by decide) (by omega : 31 ≤ width - 1)
  -- a digit is in front, and no space or sign
  have hstrtol : strtol width (Text.utf8 (Number.decimal n)) = n := by
    obtain ⟨c, s, hs⟩ := List.exists_cons_of_ne_nil (Number.decimal_ne_nil n)
    have hc : Number.isDigit c = true := Number.mem_decimal (by rw [hs]; exact List.mem_cons_self)
    have hbytes : Text.utf8 (Number.decimal n) = UInt8.ofNat c.toNat :: Text.utf8 s := by
      rw [hs, Text.utf8, List.flatMap_cons, utf8EncodeChar_ascii (toNat_lt_of_isDigit hc)]
      rfl
    simp only [Number.isDigit, Bool.and_eq_true, decide_eq_true_eq] at hc
    have hbyte : (UInt8.ofNat c.toNat).toNat = c.toNat := by
      rw [UInt8.toNat_ofNat']
      omega
    have hspace : isspace (UInt8.ofNat c.toNat) = false := by
      rw [isspace, hbyte]
      simp
      omega
    have hfront : (Text.utf8 (Number.decimal n)).dropWhile isspace
        = Text.utf8 (Number.decimal n) := by
      rw [hbytes, List.dropWhile_cons, if_neg (by rw [hspace]; simp)]
    rw [strtol, hfront]
    split
    · rename_i heq
      rw [hbytes] at heq
      have := congrArg UInt8.toNat (List.cons.inj heq).1
      rw [hbyte] at this
      have : c.toNat = 0x2D := this
      omega
    · rename_i heq
      rw [hbytes] at heq
      have := congrArg UInt8.toNat (List.cons.inj heq).1
      rw [hbyte] at this
      have : c.toNat = 0x2B := this
      omega
    · rw [hdigits]
      omega
  rw [atoi, hstrtol, Int.bmod]
  omega

end CString

end SsAndroid
