import SsAndroid.Lib.Encoding

/-!
# The server's answers

`net/HttpPost.kt`, as far as it computes something of its own.  The configuration that the server
sends is Base64 in a disguise: every lower-case letter is written as a full stop and the letter
before it in the alphabet.  `encode` and `decode` put the disguise on and take it off, each by 26
replacements over the whole text, one letter after the other.

Whether a replacement finds what an earlier one has written depends on the order of the letters.
Putting it on, the letter written for `i` comes before `i` and its turn is over, so that `encode`
rewrites every character once (`encode_eq`).  Taking it off, what is still to come is told by the
stop before it: the text after the turn of the `n`-th letter is `pending n` of every character
(`decodeLetters_step`), provided the text had no stop of its own.

The requests themselves and the answer's JSON are left out: they are made by libraries.
-/

namespace SsAndroid

namespace HttpPost

/-- The letters of `'a'..'z'`, by their number. -/
def letter (n : Nat) : Char := Char.ofNat (0x61 + n)

/-- `'a'..'z'`. -/
def letters : List Char := (List.range 26).map letter

/-- `i - 1`. -/
def pred (i : Char) : Char := Char.ofNat (i.toNat - 1)

/-- `encode`. -/
def encode (str : Text) : Text :=
  letters.foldl (fun ret i => Text.replace [i] ['.', pred i] ret) str

/-- The loop of `decode`. -/
def decodeLetters (str : Text) : Text :=
  letters.foldl (fun ret i => Text.replace ['.', pred i] [i] ret) str

/-- `decode`. -/
def decode (str : Text) : Except Exn Text :=
  match Base64.decode false (decodeLetters str) with
  | some retByte => .ok (Utf8.decode retByte)
  | none => .error (.illegalArgument "bad base-64")

/-! ### Letters and their predecessors -/

def isLower (c : Char) : Prop := 0x61 ≤ c.toNat ∧ c.toNat ≤ 0x7A

instance (c : Char) : Decidable (isLower c) := inferInstanceAs (Decidable (_ ∧ _))

theorem toNat_ofNat {n : Nat} (h : n < 0x80) : (Char.ofNat n).toNat = n := by
  rw [Char.toNat_ofNat, if_pos (Or.inl (by omega))]

theorem toNat_letter {n : Nat} (h : n < 26) : (letter n).toNat = 0x61 + n :=
  toNat_ofNat (by omega)

theorem toNat_pred {c : Char} (h : isLower c) : (pred c).toNat = c.toNat - 1 := by
  rw [isLower] at h
  exact toNat_ofNat (by omega)

theorem eq_letter_iff {n : Nat} (h : n < 26) {c : Char} : c = letter n ↔ c.toNat = 0x61 + n := by
  constructor
  · rintro rfl
    exact toNat_letter h
  · intro hc
    exact Text.toNat_inj (hc.trans (toNat_letter h).symm)

theorem pred_inj {c d : Char} (hc : isLower c) (hd : isLower d) (h : pred c = pred d) : c = d := by
  have hnat : c.toNat - 1 = d.toNat - 1 := by rw [← toNat_pred hc, ← toNat_pred hd, h]
  rw [isLower] at hc hd
  exact Text.toNat_inj (by omega)

theorem pred_ne_stop {c : Char} (h : isLower c) : pred c ≠ '.' := by
  intro hc
  have hnat := toNat_pred h
  rw [hc, show '.'.toNat = 0x2E from rfl] at hnat
  rw [isLower] at h
  omega

theorem isLower_letter {n : Nat} (h : n < 26) : isLower (letter n) := by
  rw [isLower, toNat_letter h]
  omega

/-! ### Putting the disguise on -/

/-- A character once the first `n` letters had their turn. -/
def rewritten (n : Nat) (c : Char) : Text :=
  if 0x61 ≤ c.toNat ∧ c.toNat < 0x61 + n then ['.', pred c] else [c]

/-- What the `n`-th turn makes of a character that went through the turns before it. -/
theorem rewritten_step {n : Nat} (h : n < 26) (c : Char) :
    (rewritten n c).flatMap (fun d => if d = letter n then ['.', pred (letter n)] else [d]) =
      rewritten (n + 1) c := by
  have hstop : '.' ≠ letter n := by
    rw [ne_eq, eq_letter_iff h, show '.'.toNat = 0x2E from rfl]
    omega
  by_cases hpast : 0x61 ≤ c.toNat ∧ c.toNat < 0x61 + n
  · -- its predecessor comes before the letter whose turn it is
    have hc : isLower c := ⟨hpast.1, by omega⟩
    have hpred : pred c ≠ letter n := by
      rw [ne_eq, eq_letter_iff h, toNat_pred hc]
      omega
    rw [rewritten, if_pos hpast, rewritten, if_pos ⟨hpast.1, by omega⟩]
    simp [hstop, hpred]
  · rw [rewritten, if_neg hpast, rewritten]
    by_cases hc : c = letter n
    · have hnat := (eq_letter_iff h).mp hc
      rw [if_pos ⟨by omega, by omega⟩]
      simp [hc]
    · have hnat : c.toNat ≠ 0x61 + n := fun h' => hc ((eq_letter_iff h).mpr h')
      rw [if_neg (by omega)]
      simp [hc]

theorem encode_prefix (str : Text) {n : Nat} (h : n ≤ 26) :
    ((List.range n).map letter).foldl (fun ret i => Text.replace [i] ['.', pred i] ret) str =
      str.flatMap (rewritten n) := by
  induction n with
  | zero =>
    have hnone : ∀ c : Char, rewritten 0 c = [c] :=
      fun c => if_neg fun h => absurd h.2 (Nat.not_lt.mpr h.1)
    simp [funext hnone]
  | succ n ih =>
    rw [List.range_succ, List.map_append, List.foldl_append, ih (by omega)]
    simp only [List.map_cons, List.map_nil, List.foldl_cons, List.foldl_nil]
    rw [Text.replace_singleton, List.flatMap_assoc]
    exact List.flatMap_congr fun c _ => rewritten_step (by omega) c

theorem encode_eq (str : Text) :
    encode str = str.flatMap fun c => if isLower c then ['.', pred c] else [c] := by
  rw [encode, letters, encode_prefix str (Nat.le_refl 26)]
  apply List.flatMap_congr
  intro c _
  by_cases hc : isLower c
  · rw [if_pos hc, rewritten, if_pos ⟨hc.1, Nat.lt_succ_of_le hc.2⟩]
  · rw [if_neg hc, rewritten, if_neg fun h => hc ⟨h.1, Nat.le_of_lt_succ h.2⟩]

/-! ### Taking it off -/

/-- A character of the text before the `n`-th letter has its turn. -/
def pending (n : Nat) (c : Char) : Text :=
  if isLower c ∧ 0x61 + n ≤ c.toNat then ['.', pred c] else [c]

/-- **One turn of the loop.**  Every stop in the text is the first half of a letter still to come,
and the letters that are back have none before them. -/
theorem decodeLetters_step {n : Nat} (h : n < 26) : ∀ {s : Text}, '.' ∉ s →
    Text.replace ['.', pred (letter n)] [letter n] (s.flatMap (pending n)) =
      s.flatMap (pending (n + 1)) := by
  intro s hs
  induction s with
  | nil => rfl
  | cons c s ih =>
    rw [List.mem_cons, not_or] at hs
    rw [List.flatMap_cons, List.flatMap_cons, ← ih hs.2]
    by_cases hc : c = letter n
    · have hnat := (eq_letter_iff h).mp hc
      have hl : isLower c := hc ▸ isLower_letter h
      rw [pending, if_pos ⟨hl, by omega⟩, pending, if_neg (by omega), hc]
      exact Text.replace_append (by simp) _ _
    · have hnat : c.toNat ≠ 0x61 + n := fun h' => hc ((eq_letter_iff h).mpr h')
      by_cases hlater : isLower c ∧ 0x61 + n ≤ c.toNat
      · have hother : ¬ ['.', pred (letter n)] <+: '.' :: pred c :: s.flatMap (pending n) := by
          intro hp
          have hp := (List.cons_prefix_cons.mp (List.cons_prefix_cons.mp hp).2).1
          exact hc (pred_inj hlater.1 (isLower_letter h) hp.symm)
        rw [pending, if_pos hlater, pending, if_pos ⟨hlater.1, by omega⟩]
        simp only [List.cons_append, List.nil_append]
        rw [Text.replace_cons hother, Text.replace_cons_of_ne rfl (pred_ne_stop hlater.1)]
      · rw [pending, if_neg hlater, pending, if_neg fun h' => hlater ⟨h'.1, by omega⟩]
        exact Text.replace_cons_of_ne rfl (fun h' => hs.1 h'.symm) _ _

theorem decodeLetters_prefix {s : Text} (hs : '.' ∉ s) {n : Nat} (h : n ≤ 26) :
    ((List.range n).map letter).foldl (fun ret i => Text.replace ['.', pred i] [i] ret)
      (s.flatMap (pending 0)) = s.flatMap (pending n) := by
  induction n with
  | zero => rfl
  | succ n ih =>
    rw [List.range_succ, List.map_append, List.foldl_append, ih (by omega)]
    simp only [List.map_cons, List.map_nil, List.foldl_cons, List.foldl_nil]
    exact decodeLetters_step (by omega) hs

theorem pending_zero (c : Char) : pending 0 c = if isLower c then ['.', pred c] else [c] := by
  rw [pending]
  exact if_congr ⟨fun h => h.1, fun h => ⟨h, h.1⟩⟩ rfl rfl

theorem pending_all (c : Char) : pending 26 c = [c] :=
  if_neg fun h => absurd h.1.2 (by omega)

theorem decodeLetters_encoded {s : Text} (hs : '.' ∉ s) : decodeLetters (encode s) = s := by
  have henc : encode s = s.flatMap (pending 0) := by
    rw [encode_eq]
    exact List.flatMap_congr fun c _ => (pending_zero c).symm
  rw [henc, decodeLetters, letters, decodeLetters_prefix hs (Nat.le_refl 26), funext pending_all]
  exact List.flatMap_singleton' s

/-- **The disguise comes off.** -/
theorem encode_decodeLetters (s : Text) :
    (encode s = s.flatMap fun c =>
      if 'a' ≤ c ∧ c ≤ 'z' then ['.', Char.ofNat (c.toNat - 1)] else [c]) ∧
    ('.' ∉ s → decodeLetters (encode s) = s) :=
  ⟨encode_eq s, decodeLetters_encoded⟩

theorem encode_decodeLetters_abc : decodeLetters (encode "abc +Zz=".toList) = "abc +Zz=".toList :=
  (encode_decodeLetters _).2 (by decide)

/-- With the Base64 below it, the disguise of a text is read as the text. -/
theorem decode_encode_base64 (s : Text) :
    decode (encode (Base64.encode false (Text.utf8 s))) = .ok s := by
  have hstop : '.' ∉ Base64.encode false (Text.utf8 s) := by
    intro h
    obtain ⟨d, hd, hdigit⟩ := List.mem_map.mp h
    have hlt := Base64.sextets_lt _ d hd
    have hsym := Base64.symbol_digit false d hlt
    rw [hdigit, show Base64.symbol false '.' = .skip by decide] at hsym
    cases hsym
  rw [decode, decodeLetters_encoded hstop, Base64.decode_encode]
  simp [Utf8.decode_utf8]

end HttpPost

end SsAndroid
