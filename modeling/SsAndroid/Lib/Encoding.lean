import SsAndroid.Lib.Text

/-!
# Bytes in texts

Three codes that carry arbitrary texts through a place where only some characters are allowed.

* **UTF-8.** `Utf8.decode` reads bytes as a text and puts U+FFFD in place of every malformed
  sequence, so it never fails.
* **Base64.** `Base64.sextets` cuts bytes into groups of six bits, which are the digits written by
  `encode`.  `decode` is the decoder of `android.util.Base64`: characters outside the alphabet are
  skipped, padding may be left out, and where it stands it has to be complete.
* **Percent escapes.** `Percent.encode` keeps letters, digits and `_-!.~'()*` and writes every byte
  of other characters as `%XY`; `decode` reads the bytes of neighbouring escapes together.

Each comes with its round trip: `Utf8.decode_utf8`, `Base64.decode_encode`, `Percent.decode_encode`.
-/

namespace SsAndroid

/-! ### UTF-8 -/

namespace Utf8

def replacement : Char := Char.ofNat 0xFFFD

def isTail (low high : Nat) (b : UInt8) : Bool := low ≤ b.toNat && b.toNat ≤ high

/-- The range of the second byte behind the first one, and the number of bytes in all. -/
def lead (b : UInt8) : Nat × Nat × Nat :=
  if 0xC2 ≤ b.toNat && b.toNat ≤ 0xDF then (0x80, 0xBF, 2)
  else if b.toNat = 0xE0 then (0xA0, 0xBF, 3)
  else if b.toNat = 0xED then (0x80, 0x9F, 3)
  else if 0xE1 ≤ b.toNat && b.toNat ≤ 0xEF then (0x80, 0xBF, 3)
  else if b.toNat = 0xF0 then (0x90, 0xBF, 4)
  else if 0xF1 ≤ b.toNat && b.toNat ≤ 0xF3 then (0x80, 0xBF, 4)
  else if b.toNat = 0xF4 then (0x80, 0x8F, 4)
  else (0, 0, 1)

/-- How many bytes behind the first belong to a malformed sequence: those that could still have been
completed. -/
def malformedTail (b : UInt8) (bs : List UInt8) : Nat :=
  match lead b, bs with
  | (low, high, n), c :: d :: _ =>
      if n ≤ 2 || !isTail low high c then 0
      else if n = 4 && isTail 0x80 0xBF d then 2
      else 1
  | (low, high, n), [c] => if n ≤ 2 || !isTail low high c then 0 else 1
  | _, [] => 0

/-- The text of the bytes behind the next `skip`. -/
def decodeFrom : Nat → List UInt8 → Text
  | _, [] => []
  | skip + 1, _ :: bs => decodeFrom skip bs
  | 0, b :: bs =>
      match (b :: bs).toByteArray.utf8DecodeChar? 0 with
      | some c => c :: decodeFrom (c.utf8Size - 1) bs
      | none => replacement :: decodeFrom (malformedTail b bs) bs

/-- `String(bytes)`. -/
def decode (bs : List UInt8) : Text := decodeFrom 0 bs

theorem decodeFrom_skip : ∀ xs bs : List UInt8, decodeFrom xs.length (xs ++ bs) = decode bs
  | [], _ => rfl
  | _ :: xs, bs => decodeFrom_skip xs bs

/-- The bytes of a character are read as that character. -/
theorem decode_utf8EncodeChar (c : Char) (bs : List UInt8) :
    decode (String.utf8EncodeChar c ++ bs) = c :: decode bs := by
  have hdec : (String.utf8EncodeChar c ++ bs).toByteArray.utf8DecodeChar? 0 = some c := by
    rw [List.toByteArray_append]
    exact ByteArray.utf8DecodeChar?_utf8EncodeChar_append
  have hlen : (String.utf8EncodeChar c).length = c.utf8Size := String.length_utf8EncodeChar c
  cases henc : String.utf8EncodeChar c with
  | nil =>
    rw [henc] at hlen
    exact absurd c.utf8Size_pos (by simp [← hlen])
  | cons b xs =>
    rw [henc, List.cons_append] at hdec
    rw [henc, List.length_cons] at hlen
    have hxs : c.utf8Size - 1 = xs.length := by omega
    rw [List.cons_append, decode, decodeFrom, hdec]
    show c :: decodeFrom (c.utf8Size - 1) (xs ++ bs) = _
    rw [hxs, decodeFrom_skip]

/-- **Reading the bytes of a text gives the text.** -/
theorem decode_utf8 (s : Text) : decode (Text.utf8 s) = s := by
  induction s with
  | nil => rfl
  | cons c s ih =>
    show decode (String.utf8EncodeChar c ++ Text.utf8 s) = c :: s
    rw [decode_utf8EncodeChar, ih]

/-- A byte that continues a character. -/
def isContinuation (b : UInt8) : Prop := 0x80 ≤ b.toNat ∧ b.toNat < 0xC0

/-- Behind the first byte of a character there are only continuations. -/
theorem utf8EncodeChar_tail (c : Char) :
    ∃ b bs, String.utf8EncodeChar c = b :: bs ∧ ∀ x ∈ bs, isContinuation x := by
  have hcont : ∀ n, isContinuation (UInt8.ofNat (n % 0x40 + 0x80)) := by
    intro n
    rw [isContinuation, UInt8.toNat_ofNat']
    omega
  unfold String.utf8EncodeChar
  dsimp only
  split_ifs
  · exact ⟨_, _, rfl, List.forall_mem_nil _⟩
  · exact ⟨_, _, rfl, List.forall_mem_singleton.mpr (hcont _)⟩
  · exact ⟨_, _, rfl, List.forall_mem_cons.mpr ⟨hcont _, List.forall_mem_singleton.mpr (hcont _)⟩⟩
  · exact ⟨_, _, rfl, List.forall_mem_cons.mpr ⟨hcont _, List.forall_mem_cons.mpr
      ⟨hcont _, List.forall_mem_singleton.mpr (hcont _)⟩⟩⟩

/-- **The bytes of a text, cut anywhere**: between two characters, or in front of a continuation. -/
theorem utf8_cut : ∀ (v : Text) (k : Nat), k ≤ (Text.utf8 v).length →
    (∃ w x, v = w ++ x ∧ (Text.utf8 w).length = k) ∨
    ∃ b bs, (Text.utf8 v).drop k = b :: bs ∧ isContinuation b
  | v, 0, _ => Or.inl ⟨[], v, rfl, rfl⟩
  | [], k + 1, h => absurd h (by simp [Text.utf8])
  | c :: v, k + 1, h => by
    obtain ⟨first, tail, hchar, htail⟩ := utf8EncodeChar_tail c
    have hbytes : Text.utf8 (c :: v) = first :: (tail ++ Text.utf8 v) := by
      show String.utf8EncodeChar c ++ Text.utf8 v = _
      rw [hchar, List.cons_append]
    rw [hbytes, List.length_cons, List.length_append] at h
    rw [hbytes, List.drop_succ_cons]
    by_cases hk : k < tail.length
    · -- inside the character
      refine Or.inr ⟨tail.get ⟨k, hk⟩, tail.drop (k + 1) ++ Text.utf8 v, ?_, htail _ (tail.get_mem _)⟩
      rw [List.drop_append_of_le_length hk.le, List.drop_eq_getElem_cons hk]
      rfl
    · have hdrop : (tail ++ Text.utf8 v).drop k = (Text.utf8 v).drop (k - tail.length) := by
        rw [List.drop_append, List.drop_eq_nil_of_le (by omega), List.nil_append]
      rw [hdrop]
      rcases utf8_cut v (k - tail.length) (by omega) with ⟨w, x, rfl, hw⟩ | hcont
      · refine Or.inl ⟨c :: w, x, rfl, ?_⟩
        show (String.utf8EncodeChar c ++ Text.utf8 w).length = k + 1
        rw [hchar, List.length_append, List.length_cons, hw]
        omega
      · exact Or.inr hcont

def isAscii (v : Text) : Prop := ∀ c ∈ v, c.toNat < 0x80

/-- A character has at least as many bytes as UTF-16 units, and as many only in ASCII. -/
theorem utf16Units_length (c : Char) :
    (Text.utf16Units c).length ≤ (String.utf8EncodeChar c).length ∧
      ((Text.utf16Units c).length = (String.utf8EncodeChar c).length ↔ c.toNat < 0x80) := by
  have hval : c.val.toNat = c.toNat := rfl
  unfold Text.utf16Units String.utf8EncodeChar
  rw [hval]
  dsimp only
  split_ifs <;> simp <;> omega

theorem utf16_length (v : Text) :
    (Text.utf16 v).length ≤ (Text.utf8 v).length ∧
      ((Text.utf16 v).length = (Text.utf8 v).length ↔ isAscii v) := by
  induction v with
  | nil => exact ⟨le_refl _, iff_of_true rfl (by simp [isAscii])⟩
  | cons c v ih =>
    obtain ⟨hle, hiff⟩ := ih
    obtain ⟨hcle, hciff⟩ := utf16Units_length c
    have h16 : (Text.utf16 (c :: v)).length = (Text.utf16Units c).length + (Text.utf16 v).length :=
      List.length_append
    have h8 : (Text.utf8 (c :: v)).length =
        (String.utf8EncodeChar c).length + (Text.utf8 v).length := List.length_append
    have hcons : isAscii (c :: v) ↔ c.toNat < 0x80 ∧ isAscii v := by
      simp only [isAscii, List.forall_mem_cons]
    rw [h16, h8, hcons, ← hciff, ← hiff]
    exact ⟨by omega, by omega⟩

theorem utf16_append (v w : Text) : Text.utf16 (v ++ w) = Text.utf16 v ++ Text.utf16 w :=
  List.flatMap_append

end Utf8

/-! ### Base64 -/

namespace Base64

/-- The alphabet; `urlSafe` (`URL_SAFE`) changes the last two digits. -/
def alphabet (urlSafe : Bool) : List Char :=
  "ABCDEFGHIJKLMNOPQRSTUVWXYZabcdefghijklmnopqrstuvwxyz0123456789".toList ++
    if urlSafe then ['-', '_'] else ['+', '/']

def digit (urlSafe : Bool) (d : Nat) : Char := (alphabet urlSafe).getD d '='

/-- The groups of six bits, the last of them filled with zeros. -/
def sextets : List UInt8 → List Nat
  | [] => []
  | [a] => [a.toNat / 4, a.toNat % 4 * 16]
  | [a, b] => [a.toNat / 4, a.toNat % 4 * 16 + b.toNat / 16, b.toNat % 16 * 4]
  | a :: b :: c :: bs =>
      a.toNat / 4 :: (a.toNat % 4 * 16 + b.toNat / 16) :: (b.toNat % 16 * 4 + c.toNat / 64) ::
        c.toNat % 64 :: sextets bs

/-- `encodeToString` with `NO_PADDING or NO_WRAP`. -/
def encode (urlSafe : Bool) (bs : List UInt8) : Text := (sextets bs).map (digit urlSafe)

/-- What the decoder sees in a character: a digit, padding, or something to skip. -/
inductive Symbol
  | digit (d : Nat)
  | pad
  | skip
  deriving DecidableEq

def symbol (urlSafe : Bool) (c : Char) : Symbol :=
  match (alphabet urlSafe).idxOf? c with
  | some d => .digit d
  | none => if c = '=' then .pad else .skip

/-- The decoder's state: the digits of the current group with their value, or the padding. -/
inductive State
  | zero
  | one (value : Nat)
  | two (value : Nat)
  | three (value : Nat)
  | padding
  | closed

/-- The bytes that follow from a state, `none` for an `IllegalArgumentException`. -/
def decodeFrom : State → List Symbol → Option (List UInt8)
  | q, .skip :: s => decodeFrom q s
  | .zero, .digit d :: s => decodeFrom (.one d) s
  | .one v, .digit d :: s => decodeFrom (.two (v * 64 + d)) s
  | .two v, .digit d :: s => decodeFrom (.three (v * 64 + d)) s
  | .two v, .pad :: s => (decodeFrom .padding s).map fun bs => UInt8.ofNat (v / 16) :: bs
  | .three v, .digit d :: s =>
      (decodeFrom .zero s).map fun bs =>
        UInt8.ofNat ((v * 64 + d) / 65536) :: UInt8.ofNat ((v * 64 + d) / 256) ::
          UInt8.ofNat (v * 64 + d) :: bs
  | .three v, .pad :: s =>
      (decodeFrom .closed s).map fun bs => UInt8.ofNat (v / 1024) :: UInt8.ofNat (v / 4) :: bs
  | .padding, .pad :: s => decodeFrom .closed s
  | .zero, [] => some []
  | .two v, [] => some [UInt8.ofNat (v / 16)]
  | .three v, [] => some [UInt8.ofNat (v / 1024), UInt8.ofNat (v / 4)]
  | .closed, [] => some []
  | _, _ => none

/-- `decode`; of the flags only `URL_SAFE` matters to the decoder. -/
def decode (urlSafe : Bool) (s : Text) : Option (List UInt8) :=
  decodeFrom .zero (s.map (symbol urlSafe))

theorem symbol_digit (urlSafe : Bool) : ∀ d < 64, symbol urlSafe (digit urlSafe d) = .digit d := by
  cases urlSafe <;> decide +kernel

theorem sextets_lt : ∀ bs : List UInt8, ∀ d ∈ sextets bs, d < 64
  | [], d, h => by simp [sextets] at h
  | [a], d, h => by
    have ha : a.toNat < 256 := a.toNat_lt
    simp only [sextets, List.mem_cons, List.not_mem_nil, or_false] at h
    omega
  | [a, b], d, h => by
    have ha : a.toNat < 256 := a.toNat_lt
    have hb : b.toNat < 256 := b.toNat_lt
    simp only [sextets, List.mem_cons, List.not_mem_nil, or_false] at h
    omega
  | a :: b :: c :: bs, d, h => by
    have ha : a.toNat < 256 := a.toNat_lt
    have hb : b.toNat < 256 := b.toNat_lt
    have hc : c.toNat < 256 := c.toNat_lt
    simp only [sextets, List.mem_cons] at h
    rcases h with h | h | h | h | h
    · omega
    · omega
    · omega
    · omega
    · exact sextets_lt bs d h

theorem decodeFrom_sextets : ∀ bs : List UInt8,
    decodeFrom .zero ((sextets bs).map Symbol.digit) = some bs
  | [] => rfl
  | [a] => by
    have ha : (a.toNat / 4 * 64 + a.toNat % 4 * 16) / 16 = a.toNat := by omega
    simp [sextets, decodeFrom, ha]
  | [a, b] => by
    have hb : b.toNat < 256 := b.toNat_lt
    have h1 : ((a.toNat / 4 * 64 + (a.toNat % 4 * 16 + b.toNat / 16)) * 64 + b.toNat % 16 * 4) / 1024
        = a.toNat := by omega
    have h2 : UInt8.ofNat
        (((a.toNat / 4 * 64 + (a.toNat % 4 * 16 + b.toNat / 16)) * 64 + b.toNat % 16 * 4) / 4)
        = b := by
      apply UInt8.toNat_inj.mp
      rw [UInt8.toNat_ofNat']
      omega
    simp [sextets, decodeFrom, h1, h2]
  | a :: b :: c :: bs => by
    have hb : b.toNat < 256 := b.toNat_lt
    have hc : c.toNat < 256 := c.toNat_lt
    have hv : ((a.toNat / 4 * 64 + (a.toNat % 4 * 16 + b.toNat / 16)) * 64 +
        (b.toNat % 16 * 4 + c.toNat / 64)) * 64 + c.toNat % 64
        = a.toNat * 65536 + b.toNat * 256 + c.toNat := by omega
    have h1 : (a.toNat * 65536 + b.toNat * 256 + c.toNat) / 65536 = a.toNat := by omega
    have h2 : UInt8.ofNat ((a.toNat * 65536 + b.toNat * 256 + c.toNat) / 256) = b := by
      apply UInt8.toNat_inj.mp
      rw [UInt8.toNat_ofNat']
      omega
    have h3 : UInt8.ofNat (a.toNat * 65536 + b.toNat * 256 + c.toNat) = c := by
      apply UInt8.toNat_inj.mp
      rw [UInt8.toNat_ofNat']
      omega
    simp only [sextets, List.map_cons, decodeFrom, hv, decodeFrom_sextets bs, h1, h2, h3,
      Option.map_some, UInt8.ofNat_toNat]

/-- **Decoding gives back the bytes that were encoded.** -/
theorem decode_encode (urlSafe : Bool) (bs : List UInt8) :
    decode urlSafe (encode urlSafe bs) = some bs := by
  have hsym : ((sextets bs).map (digit urlSafe)).map (symbol urlSafe)
      = (sextets bs).map Symbol.digit := by
    rw [List.map_map]
    apply List.map_congr_left
    intro d hd
    exact symbol_digit urlSafe d (sextets_lt bs d hd)
  rw [decode, encode, hsym, decodeFrom_sextets]

end Base64

/-! ### Percent escapes -/

namespace Percent

def isAlphanumeric (c : Char) : Bool := c.isAlpha || c.isDigit

/-- The characters `Uri.encode` leaves alone. -/
def isUnreserved (c : Char) : Bool := isAlphanumeric c || "_-!.~'()*".toList.contains c

def hexDigit (n : Nat) : Char := "0123456789ABCDEF".toList.getD n '0'

def hexValue (c : Char) : Option Nat :=
  if c.isDigit then some (c.toNat - 0x30)
  else if 0x41 ≤ c.toNat && c.toNat ≤ 0x46 then some (c.toNat - 0x41 + 10)
  else if 0x61 ≤ c.toNat && c.toNat ≤ 0x66 then some (c.toNat - 0x61 + 10)
  else none

def escapeByte (b : UInt8) : Text := ['%', hexDigit (b.toNat / 16), hexDigit (b.toNat % 16)]

def encodeChar (c : Char) : Text :=
  if isUnreserved c then [c] else (String.utf8EncodeChar c).flatMap escapeByte

/-- `Uri.encode`. -/
def encode (s : Text) : Text := s.flatMap encodeChar

/-- The text behind the bytes of the escapes read last.  An escape that is not one becomes U+FFFD. -/
def decodeFrom (plusToSpace : Bool) : List UInt8 → Text → Text
  | pending, [] => Utf8.decode pending
  | pending, c :: s =>
      if c = '%' then
        match s with
        | a :: b :: s =>
            match hexValue a, hexValue b with
            | some x, some y => decodeFrom plusToSpace (pending ++ [UInt8.ofNat (x * 16 + y)]) s
            | _, _ => Utf8.decode pending ++ Utf8.replacement :: decodeFrom plusToSpace [] s
        | _ => Utf8.decode pending ++ [Utf8.replacement]
      else
        Utf8.decode pending ++
          (if plusToSpace && c = '+' then ' ' else c) :: decodeFrom plusToSpace [] s

/-- `Uri.decode`; a query parameter has its plus signs read as spaces. -/
def decode (plusToSpace : Bool) (s : Text) : Text := decodeFrom plusToSpace [] s

theorem hexValue_hexDigit : ∀ n < 16, hexValue (hexDigit n) = some n := by decide

theorem isAlphanumeric_hexDigit : ∀ n < 16, isAlphanumeric (hexDigit n) = true := by decide

theorem decodeFrom_escapeByte (plusToSpace : Bool) (pending : List UInt8) (b : UInt8) (s : Text) :
    decodeFrom plusToSpace pending (escapeByte b ++ s)
      = decodeFrom plusToSpace (pending ++ [b]) s := by
  have hb : b.toNat < 256 := b.toNat_lt
  have hbyte : b.toNat / 16 * 16 + b.toNat % 16 = b.toNat := by omega
  show decodeFrom plusToSpace pending
    ('%' :: hexDigit (b.toNat / 16) :: hexDigit (b.toNat % 16) :: s) = _
  rw [decodeFrom, if_pos rfl, hexValue_hexDigit _ (by omega), hexValue_hexDigit _ (by omega)]
  show decodeFrom plusToSpace (pending ++ [UInt8.ofNat (b.toNat / 16 * 16 + b.toNat % 16)]) s = _
  rw [hbyte, UInt8.ofNat_toNat]

theorem decodeFrom_escapeBytes (plusToSpace : Bool) (s : Text) : ∀ bs pending : List UInt8,
    decodeFrom plusToSpace pending (bs.flatMap escapeByte ++ s)
      = decodeFrom plusToSpace (pending ++ bs) s
  | [], pending => by simp
  | b :: bs, pending => by
    rw [List.flatMap_cons, List.append_assoc, decodeFrom_escapeByte,
      decodeFrom_escapeBytes plusToSpace s bs, List.append_assoc, List.singleton_append]

theorem decodeFrom_plain (plusToSpace : Bool) {c : Char} (hc : c ≠ '%') (hplus : c ≠ '+')
    (pending : List UInt8) (s : Text) :
    decodeFrom plusToSpace pending (c :: s)
      = Utf8.decode pending ++ c :: decodeFrom plusToSpace [] s := by
  conv_lhs => unfold decodeFrom
  rw [if_neg hc, if_neg (by simp [hplus])]

theorem utf8_append (s t : Text) : Text.utf8 (s ++ t) = Text.utf8 s ++ Text.utf8 t :=
  List.flatMap_append

/-- The bytes pending are those of the characters just read. -/
theorem decodeFrom_encode (plusToSpace : Bool) : ∀ s u : Text,
    decodeFrom plusToSpace (Text.utf8 u) (encode s) = u ++ s
  | [], u => by
    show Utf8.decode (Text.utf8 u) = _
    rw [Utf8.decode_utf8, List.append_nil]
  | c :: s, u => by
    rw [encode, List.flatMap_cons, encodeChar]
    split
    · rename_i hc
      have hpercent : c ≠ '%' := by rintro rfl; exact absurd hc (by decide)
      have hplus : c ≠ '+' := by rintro rfl; exact absurd hc (by decide)
      rw [List.singleton_append, decodeFrom_plain plusToSpace hpercent hplus, Utf8.decode_utf8]
      exact congrArg _ (congrArg _ (decodeFrom_encode plusToSpace s []))
    · have hu : Text.utf8 u ++ String.utf8EncodeChar c = Text.utf8 (u ++ [c]) := by
        rw [utf8_append]
        simp [Text.utf8]
      rw [decodeFrom_escapeBytes, hu]
      have ih := decodeFrom_encode plusToSpace s (u ++ [c])
      rw [encode] at ih
      rw [ih, List.append_assoc, List.singleton_append]

/-- **Decoding gives back the text that was encoded.** -/
theorem decode_encode (plusToSpace : Bool) (s : Text) : decode plusToSpace (encode s) = s :=
  decodeFrom_encode plusToSpace s []

theorem encode_append (s t : Text) : encode (s ++ t) = encode s ++ encode t := List.flatMap_append

theorem mem_escapeBytes {bs : List UInt8} {d : Char} (h : d ∈ bs.flatMap escapeByte) :
    d = '%' ∨ isAlphanumeric d = true := by
  obtain ⟨b, -, hd⟩ := List.mem_flatMap.mp h
  have hb : b.toNat < 256 := b.toNat_lt
  simp only [escapeByte, List.mem_cons, List.not_mem_nil, or_false] at hd
  rcases hd with rfl | rfl | rfl
  · exact Or.inl rfl
  · exact Or.inr (isAlphanumeric_hexDigit _ (by omega))
  · exact Or.inr (isAlphanumeric_hexDigit _ (by omega))

/-- What stands in an encoded text. -/
theorem mem_encode {s : Text} {d : Char} (h : d ∈ encode s) :
    d = '%' ∨ isAlphanumeric d = true ∨ (isUnreserved d = true ∧ d ∈ s) := by
  obtain ⟨c, hc, hd⟩ := List.mem_flatMap.mp h
  rw [encodeChar] at hd
  split at hd
  · rename_i hu
    obtain rfl : d = c := List.mem_singleton.mp hd
    exact Or.inr (Or.inr ⟨hu, hc⟩)
  · rcases mem_escapeBytes hd with h | h
    · exact Or.inl h
    · exact Or.inr (Or.inl h)

theorem not_mem_encode {d : Char} (hd : isUnreserved d = false) (hpercent : d ≠ '%') (s : Text) :
    d ∉ encode s := by
  intro h
  rcases mem_encode h with h | h | ⟨h, -⟩
  · exact hpercent h
  · simp [isUnreserved, h] at hd
  · rw [h] at hd
    exact Bool.noConfusion hd

end Percent

end SsAndroid
