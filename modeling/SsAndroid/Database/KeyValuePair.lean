import SsAndroid.Lib.ByteBuffer
import SsAndroid.Lib.Encoding

/-!
# Sets of strings in the key-value store

`KeyValuePair` stores a set of strings as one array: for every string a length of four bytes and the
UTF-8 bytes of the string.  The length that is written is the number of UTF-16 units; the reader takes
it for the number of bytes.

**`stringSet_put_iff`**: a set comes back, in whatever order its elements are written, exactly if all
its strings are ASCII.  Otherwise the shortest string that is not, written first, leaves bytes behind
that are read as the next length.
-/

namespace SsAndroid

namespace ByteBuffer

/-- The four bytes of a number, as `putInt` writes them. -/
def intBytes (n : Nat) : List UInt8 :=
  [UInt8.ofNat (n / 2 ^ 24), UInt8.ofNat (n / 2 ^ 16), UInt8.ofNat (n / 2 ^ 8), UInt8.ofNat n]

/-- `int`: four bytes, the high one first, as a signed number. -/
def intOf (a b c d : UInt8) : Int :=
  toInt32 (a.toNat * 2 ^ 24 + b.toNat * 2 ^ 16 + c.toNat * 2 ^ 8 + d.toNat)

theorem intOf_intBytes {n : Nat} (h : n < 2 ^ 31) :
    intOf (UInt8.ofNat (n / 2 ^ 24)) (UInt8.ofNat (n / 2 ^ 16)) (UInt8.ofNat (n / 2 ^ 8))
      (UInt8.ofNat n) = n := by
  rw [intOf, UInt8.toNat_ofNat', UInt8.toNat_ofNat', UInt8.toNat_ofNat', UInt8.toNat_ofNat']
  have hsum : n / 2 ^ 24 % 2 ^ 8 * 2 ^ 24 + n / 2 ^ 16 % 2 ^ 8 * 2 ^ 16 + n / 2 ^ 8 % 2 ^ 8 * 2 ^ 8 +
      n % 2 ^ 8 = n := by omega
  have hcast : ((n / 2 ^ 24 % 2 ^ 8 : ℕ) : ℤ) * 2 ^ 24 + ((n / 2 ^ 16 % 2 ^ 8 : ℕ) : ℤ) * 2 ^ 16 +
      ((n / 2 ^ 8 % 2 ^ 8 : ℕ) : ℤ) * 2 ^ 8 + ((n % 2 ^ 8 : ℕ) : ℤ) = n := by exact_mod_cast hsum
  rw [hcast]
  exact toInt32_of_lt (by omega) (by omega)

theorem intOf_neg {a : UInt8} (h : 0x80 ≤ a.toNat) (b c d : UInt8) : intOf a b c d < 0 := by
  have ha : a.toNat < 256 := a.toNat_lt
  have hb : b.toNat < 256 := b.toNat_lt
  have hc : c.toNat < 256 := c.toNat_lt
  have hd : d.toNat < 256 := d.toNat_lt
  exact toInt32_neg (by omega) (by omega)

end ByteBuffer

open ByteBuffer

/-- `KeyValuePair`; the column `key` is what the store looks it up by. -/
structure KeyValuePair where
  key : Text := []
  valueType : Int := 0
  value : List UInt8 := []

namespace KeyValuePair

def TYPE_STRING_SET : Int := 6

/-- One string of a set: its length and its bytes. -/
def chunk (v : Text) : List UInt8 := intBytes (Text.utf16 v).length ++ Text.utf8 v

/-- `put(value: Set<String>)`; the strings are written in the order in which the set is walked. -/
def putStringSet (p : KeyValuePair) (order : List Text) : KeyValuePair :=
  { p with valueType := TYPE_STRING_SET, value := order.flatMap chunk }

/-- The size of the next array and what is behind it: `ByteArray(buffer.int)`. -/
def readLength : List UInt8 → Except Exn (Nat × List UInt8)
  | a :: b :: c :: d :: rest =>
      if intOf a b c d < 0 then .error .negativeArraySize else .ok ((intOf a b c d).toNat, rest)
  | _ => .error .bufferUnderflow

theorem readLength_lt {bytes rest : List UInt8} {n : Nat} (h : readLength bytes = .ok (n, rest)) :
    rest.length < bytes.length := by
  unfold readLength at h
  split at h
  · split_ifs at h
    obtain ⟨-, rfl⟩ := Prod.mk.inj (Except.ok.inj h)
    simp only [List.length_cons]
    omega
  · cases h

/-- The loop of `stringSet`, over the bytes that remain in the buffer. -/
def readStrings (bytes : List UInt8) : Except Exn (List Text) :=
  if bytes = [] then .ok []
  else match hlength : readLength bytes with
  | .error e => .error e
  | .ok (n, rest) =>
      if rest.length < n then .error .bufferUnderflow
      else (readStrings (rest.drop n)).map fun vs => Utf8.decode (rest.take n) :: vs
termination_by bytes.length
decreasing_by
  rw [List.length_drop]
  exact Nat.lt_of_le_of_lt (Nat.sub_le _ _) (readLength_lt hlength)

/-- `stringSet`; `none` is null. -/
def stringSet (p : KeyValuePair) : Except Exn (Option (Finset Text)) :=
  if p.valueType = TYPE_STRING_SET then
    (readStrings p.value).map fun vs => some vs.toFinset
  else .ok none

/-! ### Reading what was written -/

theorem readStrings_nil : readStrings [] = .ok [] := by
  rw [readStrings, if_pos rfl]

theorem readStrings_of_ok {bytes rest : List UInt8} {n : Nat} (h : readLength bytes = .ok (n, rest))
    (hn : n ≤ rest.length) : readStrings bytes =
      (readStrings (rest.drop n)).map fun vs => Utf8.decode (rest.take n) :: vs := by
  have hne : bytes ≠ [] := by
    intro hnil
    have hlt := readLength_lt h
    rw [hnil] at hlt
    exact absurd hlt (Nat.not_lt_zero _)
  rw [readStrings, if_neg hne]
  split
  case h_1 e he =>
    rw [h] at he
    cases he
  case h_2 m rest' he =>
    rw [h] at he
    obtain ⟨rfl, rfl⟩ := Prod.mk.inj (Except.ok.inj he)
    rw [if_neg (by omega)]

theorem readStrings_of_error {bytes : List UInt8} {e : Exn} (hne : bytes ≠ [])
    (h : readLength bytes = .error e) : readStrings bytes = .error e := by
  rw [readStrings, if_neg hne]
  split
  case h_1 e' he =>
    rw [h] at he
    rw [Except.error.inj he]
  case h_2 m rest he =>
    rw [h] at he
    cases he

/-- A length that was written is read. -/
theorem readLength_intBytes {n : Nat} (hn : n < 2 ^ 31) (bs : List UInt8) :
    readLength (intBytes n ++ bs) = .ok (n, bs) := by
  simp only [intBytes, List.cons_append, List.nil_append, readLength, intOf_intBytes hn]
  rw [if_neg (by omega), Int.toNat_natCast]

/-- A chunk that has as many bytes as it says. -/
theorem readStrings_chunk {n : Nat} {bs : List UInt8} (hn : n < 2 ^ 31) (hlen : n ≤ bs.length) :
    readStrings (intBytes n ++ bs) =
      (readStrings (bs.drop n)).map fun vs => Utf8.decode (bs.take n) :: vs :=
  readStrings_of_ok (readLength_intBytes hn bs) hlen

/-- A continuation where a length should be. -/
theorem readLength_continuation {b : UInt8} (h : Utf8.isContinuation b) :
    ∀ bs, ∃ e, readLength (b :: bs) = .error e
  | [] => ⟨_, rfl⟩
  | [_] => ⟨_, rfl⟩
  | [_, _] => ⟨_, rfl⟩
  | c :: d :: e :: bs => ⟨.negativeArraySize, by
      simp only [readLength]
      rw [if_pos (intOf_neg h.1 c d e)]⟩

/-- **Strings whose lengths in units and in bytes agree are read back.** -/
theorem readStrings_ascii {order : List Text} (hlen : ∀ v ∈ order, (Text.utf16 v).length < 2 ^ 31)
    (hascii : ∀ v ∈ order, Utf8.isAscii v) : readStrings (order.flatMap chunk) = .ok order := by
  induction order with
  | nil => exact readStrings_nil
  | cons v vs ih =>
    have heq : (Text.utf16 v).length = (Text.utf8 v).length :=
      (Utf8.utf16_length v).2.mpr (hascii v List.mem_cons_self)
    have hrest := ih (fun w hw => hlen w (List.mem_cons_of_mem v hw))
      (fun w hw => hascii w (List.mem_cons_of_mem v hw))
    rw [List.flatMap_cons, chunk, List.append_assoc,
      readStrings_chunk (hlen v List.mem_cons_self) (by rw [List.length_append]; omega), heq,
      List.drop_left, List.take_left, hrest, Utf8.decode_utf8]
    rfl

/-- **A string with a character beyond ASCII is not read back**: the loop throws, or it reads a
shorter string with such a character. -/
theorem readStrings_not_ascii {v : Text} {rest : List UInt8} {vs : List Text}
    (hlen : (Text.utf16 v).length < 2 ^ 31) (hv : ¬ Utf8.isAscii v)
    (h : readStrings (chunk v ++ rest) = .ok vs) :
    ∃ w ∈ vs, ¬ Utf8.isAscii w ∧ (Text.utf8 w).length < (Text.utf8 v).length := by
  obtain ⟨hle, hiff⟩ := Utf8.utf16_length v
  have hlt : (Text.utf16 v).length < (Text.utf8 v).length :=
    lt_of_le_of_ne hle fun heq => hv (hiff.mp heq)
  rw [chunk, List.append_assoc,
    readStrings_chunk hlen (by rw [List.length_append]; omega),
    List.take_append_of_le_length hle, List.drop_append_of_le_length hle] at h
  rcases Utf8.utf8_cut v _ hle with ⟨w, x, rfl, hw⟩ | ⟨b, bs, hdrop, hcont⟩
  · -- the cut is between two characters: the part in front of it is a string of its own
    have hbytes : (Text.utf8 (w ++ x)).take (Text.utf16 (w ++ x)).length = Text.utf8 w := by
      rw [← hw, Percent.utf8_append, List.take_left]
    rw [hbytes, Utf8.decode_utf8] at h
    obtain ⟨us, -, rfl⟩ : ∃ us, readStrings _ = .ok us ∧ w :: us = vs := by
      cases hread : readStrings ((Text.utf8 (w ++ x)).drop (Text.utf16 (w ++ x)).length ++ rest) with
      | error e =>
        rw [hread] at h
        cases h
      | ok us =>
        rw [hread] at h
        exact ⟨us, hread, Except.ok.inj h⟩
    refine ⟨w, List.mem_cons_self, ?_, by omega⟩
    intro hascii
    -- an ASCII prefix would have all units of the string
    have hunits := (Utf8.utf16_length w).2.mpr hascii
    have hx : x = [] := by
      have hsum : (Text.utf16 (w ++ x)).length = (Text.utf16 w).length + (Text.utf16 x).length := by
        rw [Utf8.utf16_append, List.length_append]
      have hnil : Text.utf16 x = [] := List.eq_nil_of_length_eq_zero (by omega)
      exact Text.utf16_inj hnil
    rw [hx, List.append_nil] at hv
    exact hv hascii
  · -- inside a character: what follows is read as a negative length
    obtain ⟨e, he⟩ := readLength_continuation hcont (bs ++ rest)
    rw [hdrop, List.cons_append, readStrings_of_error (List.cons_ne_nil _ _) he] at h
    cases h

/-- **A set of strings comes back, in whatever order it is written, exactly if every one of them is
ASCII.**  (A string has fewer than `2 ^ 31` UTF-16 units.) -/
theorem stringSet_put_iff (s : Finset Text) (hlen : ∀ v ∈ s, (Text.utf16 v).length < 2 ^ 31) :
    (∀ order : List Text, order.Nodup → order.toFinset = s →
      (({} : KeyValuePair).putStringSet order).stringSet = .ok (some s)) ↔
    ∀ v ∈ s, ∀ c ∈ v, c.toNat < 0x80 := by
  constructor
  · intro hback
    by_contra hnot
    -- of the strings that are not ASCII, take one with the fewest bytes, and write it first
    let bad := s.filter fun v => ¬ ∀ c ∈ v, c.toNat < 0x80
    have hbad : bad.Nonempty := by
      obtain ⟨v, hv⟩ := not_forall.mp hnot
      obtain ⟨hmem, hv⟩ := Classical.not_imp.mp hv
      exact ⟨v, Finset.mem_filter.mpr ⟨hmem, hv⟩⟩
    obtain ⟨v, hv, hmin⟩ := bad.exists_min_image (fun v => (Text.utf8 v).length) hbad
    obtain ⟨hmem, hascii⟩ := Finset.mem_filter.mp hv
    have horder : (v :: (s.erase v).toList).toFinset = s := by
      rw [List.toFinset_cons, Finset.toList_toFinset, Finset.insert_erase hmem]
    have hnodup : (v :: (s.erase v).toList).Nodup :=
      List.nodup_cons.mpr ⟨by simp, (s.erase v).nodup_toList⟩
    have hread := hback _ hnodup horder
    rw [stringSet, putStringSet, if_pos rfl, List.flatMap_cons] at hread
    cases hvs : readStrings (chunk v ++ (s.erase v).toList.flatMap chunk) with
    | error e =>
      rw [hvs] at hread
      cases hread
    | ok vs =>
      rw [hvs] at hread
      have hvs' : vs.toFinset = s := Option.some.inj (Except.ok.inj hread)
      obtain ⟨w, hw, hwAscii, hshorter⟩ := readStrings_not_ascii (hlen v hmem) hascii hvs
      have hwMem : w ∈ bad :=
        Finset.mem_filter.mpr ⟨hvs' ▸ List.mem_toFinset.mpr hw, hwAscii⟩
      exact absurd (hmin w hwMem) (by omega)
  · intro hascii order _ horder
    have hin : ∀ v ∈ order, v ∈ s := fun v hv => horder ▸ List.mem_toFinset.mpr hv
    have hread := readStrings_ascii (fun v hv => hlen v (hin v hv)) fun v hv => hascii v (hin v hv)
    rw [stringSet, putStringSet, if_pos rfl, hread]
    show Except.ok (some order.toFinset) = _
    rw [horder]

/-- The empty string, one letter and three digits. -/
def asciiStrings : Finset Text := {[], ['a'], ['0', '1', '2']}

theorem stringSet_put_ascii :
    (({} : KeyValuePair).putStringSet [['0', '1', '2'], [], ['a']]).stringSet =
      .ok (some asciiStrings) := by
  have hshort : ∀ v ∈ asciiStrings, (Text.utf16 v).length ≤ 3 := by decide
  have hlen : ∀ v ∈ asciiStrings, (Text.utf16 v).length < 2 ^ 31 :=
    fun v hv => lt_of_le_of_lt (hshort v hv) (by norm_num)
  exact (stringSet_put_iff asciiStrings hlen).mpr (by simp [asciiStrings]) _ (by decide) (by decide)

/-- The letter `é` has one unit and two bytes: the second byte is read as the start of a length. -/
theorem stringSet_throws :
    (({} : KeyValuePair).putStringSet [['é']]).stringSet = .error .bufferUnderflow := by
  have hbytes : [['é']].flatMap chunk = intBytes 1 ++ [0xC3, 0xA9] := by decide
  rw [stringSet, putStringSet, if_pos rfl, hbytes, readStrings_chunk (by omega) (by decide)]
  have hend : readStrings (List.drop 1 [0xC3, 0xA9]) = .error .bufferUnderflow :=
    readStrings_of_error (by decide) rfl
  rw [hend]
  rfl

end KeyValuePair

end SsAndroid
