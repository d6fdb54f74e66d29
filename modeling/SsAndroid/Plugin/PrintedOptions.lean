import SsAndroid.Database.JsonFields

/-!
# What a part of a printed line is read as

Printing options keeps every character of the id, the keys and the values, and reading a line never
invents one: escaping only adds delimiters, and a key that comes twice only drops a value.  So the
number of times a character other than a delimiter occurs can be compared.

**`not_equals_of_count_lt`**: a line in which some character occurs less often than in the printed
options is not read as these options.
-/

namespace SsAndroid

namespace PluginOptions

variable (c : Char)

def entryCount (e : Text × Option Text) : Nat := e.1.count c + (e.2.getD []).count c

/-- How often a character occurs in the id, the keys and the values. -/
def charCount (o : PluginOptions) : Nat :=
  o.id.count c + (o.map.entries.map (entryCount c)).sum

variable {c}

theorem beq_eq_false_of_isDelimiter {d : Char} (hd : isDelimiter d = true)
    (hc : isDelimiter c = false) : (d == c) = false := by
  rw [beq_eq_false_iff_ne]
  rintro rfl
  rw [hd] at hc
  exact Bool.noConfusion hc

/-! ### Printing -/

theorem count_escape (hc : isDelimiter c = false) (s : Text) : (escape s).count c = s.count c := by
  have hslash : ('\\' == c) = false := beq_eq_false_of_isDelimiter rfl hc
  induction s with
  | nil => rfl
  | cons d s ih =>
    rw [escape, List.flatMap_cons, List.count_append]
    rw [escape] at ih
    rw [ih, List.count_cons]
    split
    · simp [List.count_cons, hslash]
      omega
    · simp [List.count_cons]
      omega

theorem count_entryText (hc : isDelimiter c = false) (e : Text × Option Text) :
    (entryText e).count c = entryCount c e := by
  have heq : ('=' == c) = false := beq_eq_false_of_isDelimiter rfl hc
  obtain ⟨key, value⟩ := e
  rw [entryText, List.count_append, count_escape hc, entryCount]
  cases value with
  | none => rfl
  | some v => simp [List.count_cons, heq, count_escape hc]

theorem count_foldl_appendEntry (hc : isDelimiter c = false) (es : List (Text × Option Text)) :
    ∀ result : Text, (es.foldl appendEntry result).count c
      = result.count c + (es.map (entryCount c)).sum := by
  have hsemi : (';' == c) = false := beq_eq_false_of_isDelimiter rfl hc
  induction es with
  | nil => intro result; rfl
  | cons e es ih =>
    intro result
    have happ : (appendEntry result e).count c = result.count c + entryCount c e := by
      rw [appendEntry, List.count_append, count_entryText hc]
      split
      · rfl
      · simp [List.count_cons, hsemi]
    rw [List.foldl_cons, ih, happ, List.map_cons, List.sum_cons]
    omega

theorem count_print (hc : isDelimiter c = false) (σ : IterationOrder Text (Option Text))
    {o : PluginOptions} (hid : o.id ≠ []) : (print σ false o).count c = charCount c o := by
  have hperm : ((σ.order o.map.entries).map (entryCount c)).sum
      = (o.map.entries.map (entryCount c)).sum := ((σ.perm _).map _).sum_eq
  simp only [print, hid, and_false, if_false, Bool.false_eq_true]
  rw [count_foldl_appendEntry hc, count_escape hc, hperm, charCount]

/-! ### Reading -/

theorem sum_putEntries_le (k : Text) (v : Option Text) : ∀ es : List (Text × Option Text),
    ((LinkedMap.putEntries k v es).map (entryCount c)).sum
      ≤ (es.map (entryCount c)).sum + entryCount c (k, v)
  | [] => by simp [LinkedMap.putEntries]
  | (key, value) :: es => by
    have ih := sum_putEntries_le k v es
    rw [LinkedMap.putEntries]
    split
    · simp only [List.map_cons, List.sum_cons]
      omega
    · simp only [List.map_cons, List.sum_cons]
      omega

theorem charCount_put_le (o : PluginOptions) (k : Text) (v : Option Text) :
    charCount c { o with map := o.map.put k v } ≤ charCount c o + entryCount c (k, v) := by
  have hsum := sum_putEntries_le (c := c) k v o.map.entries
  show o.id.count c + ((LinkedMap.putEntries k v o.map.entries).map (entryCount c)).sum ≤ _
  rw [charCount]
  omega

/-- The occurrences in everything the reader holds. -/
def Reading.charCount (c : Char) (r : Reading) : Nat :=
  PluginOptions.charCount c r.options + r.current.count c + (r.key.getD []).count c

theorem Reading.charCount_text (r : Reading) (s : Text) :
    (r.text s).charCount c = r.charCount c + s.count c := by
  simp only [Reading.charCount, Reading.text, List.count_append]
  omega

theorem Reading.charCount_endEntry_le (r : Reading) :
    r.endEntry.charCount c ≤ r.charCount c := by
  rw [Reading.endEntry]
  split
  · rename_i key hkey
    have hput := charCount_put_le (c := c) r.options key (some r.current)
    simp only [Reading.charCount, hkey, entryCount, Option.getD_some, Option.getD_none,
      List.count_nil] at hput ⊢
    omega
  · rename_i hkey
    split
    · simp only [Reading.charCount, hkey, Option.getD_none, List.count_nil]
      omega
    · split
      · -- the id may only be replaced
        simp only [Reading.charCount, PluginOptions.charCount, hkey, Option.getD_none, List.count_nil]
        omega
      · have hput := charCount_put_le (c := c) r.options r.current none
        simp only [Reading.charCount, hkey, entryCount, Option.getD_none, List.count_nil] at hput ⊢
        omega

theorem Reading.charCount_equalsSign_le (r : Reading) (hc : isDelimiter c = false) :
    r.equalsSign.charCount c ≤ r.charCount c := by
  have heq : ('=' == c) = false := beq_eq_false_of_isDelimiter rfl hc
  rw [Reading.equalsSign]
  split
  · rename_i hkey
    simp only [Reading.charCount, hkey, Option.getD_none, Option.getD_some, List.count_nil]
    omega
  · rename_i key hkey
    simp only [Reading.charCount, List.count_append, List.count_cons, List.count_nil, heq]
    simp

/-- One character adds at most itself. -/
theorem charCount_readChar_le (hc : isDelimiter c = false) (s : Bool × Reading) (d : Char) :
    (readChar s d).2.charCount c ≤ s.2.charCount c + [d].count c := by
  obtain ⟨escaped, r⟩ := s
  cases escaped with
  | true => exact le_of_eq (Reading.charCount_text r [d])
  | false =>
    simp only [readChar, readToken]
    split
    · exact Nat.le_add_right _ _
    · split
      · exact (r.charCount_equalsSign_le hc).trans (Nat.le_add_right _ _)
      · split
        · exact r.charCount_endEntry_le.trans (Nat.le_add_right _ _)
        · exact le_of_eq (Reading.charCount_text r [d])

theorem charCount_foldl_le (hc : isDelimiter c = false) : ∀ (s : Text) (st : Bool × Reading),
    (s.foldl readChar st).2.charCount c ≤ st.2.charCount c + s.count c
  | [], st => Nat.le_refl _
  | d :: s, st => by
    have hstep := charCount_readChar_le hc st d
    have hrest := charCount_foldl_le hc s (readChar st d)
    have hcount : (d :: s).count c = [d].count c + s.count c := by
      rw [← List.count_append]
      rfl
    rw [List.foldl_cons, hcount]
    omega

/-- **Reading a text invents no character.** -/
theorem charCount_parse_le (hc : isDelimiter c = false) {s : Text} {parseId : Bool}
    {o : PluginOptions} (h : parse (some s) parseId = .ok o) : charCount c o ≤ s.count c := by
  have hsemi : (';' == c) = false := beq_eq_false_of_isDelimiter rfl hc
  by_cases hs : s = []
  · subst hs
    obtain rfl : empty = o := Except.ok.inj h
    exact Nat.le_refl _
  · rw [parse_eq s parseId hs (controlFree_of_parse h)] at h
    have hfold := charCount_foldl_le hc (s ++ [';'])
      (false, { parseId := parseId, current := [], key := none, options := empty })
    generalize (s ++ [';']).foldl readChar
      (false, { parseId := parseId, current := [], key := none, options := empty }) = st at h hfold
    obtain ⟨escaped, r⟩ := st
    cases escaped with
    | true => simp [finish, Except.map] at h
    | false =>
      obtain rfl : r.options = o := Except.ok.inj h
      have hzero : Reading.charCount c
          { parseId := parseId, current := [], key := none, options := empty } = 0 := rfl
      have hle : charCount c r.options ≤ r.charCount c := by
        rw [Reading.charCount]
        omega
      rw [hzero, List.count_append, List.count_cons, hsemi] at hfold
      simp only [List.count_nil, Bool.false_eq_true, if_false, Nat.add_zero, Nat.zero_add] at hfold
      exact hle.trans hfold

/-! ### Comparing options -/

theorem entries_perm_of_equals {o o' : PluginOptions} (h : Equals o o') :
    o.map.entries.Perm o'.map.entries := by
  apply (List.perm_ext_iff_of_nodup (List.Nodup.of_map _ o.map.nodup)
    (List.Nodup.of_map _ o'.map.nodup)).mpr
  rintro ⟨k, v⟩
  rw [← LinkedMap.get?_eq_some_iff, ← LinkedMap.get?_eq_some_iff, h.2 k]

theorem charCount_eq_of_equals {o o' : PluginOptions} (h : Equals o o') :
    charCount c o = charCount c o' := by
  rw [charCount, charCount, h.1, ((entries_perm_of_equals h).map (entryCount c)).sum_eq]

end PluginOptions

namespace PluginConfiguration

open PluginOptions (isDelimiter Equals)

/-- **A line that lost a character is not read as the options that were printed.**  `line` is the
start of their text. -/
theorem not_equals_of_count_lt {c : Char} (hc : isDelimiter c = false)
    (σ : IterationOrder Text (Option Text)) {o o' : PluginOptions} {line : Text} (hid : o.id ≠ [])
    (hpre : line <+: o.print σ false) (hcount : line.count c < (o.print σ false).count c)
    (h : parseLine line = .ok o') : ¬ Equals o o' := by
  intro heq
  rw [parseLine] at h
  split at h
  · -- a line of the old format starts like the printed text, and its id is `kcptun`
    rename_i hk
    obtain rfl : kcptunOptions line = o' := Except.ok.inj h
    have hname : o.id = "kcptun".toList := heq.1.trans (kcptunOptions_id line)
    have hno := print_no_kcptunPrefix hid (by rw [hname]; decide) σ
    have hstart := (List.isPrefixOf_iff_prefix.mp hk).trans hpre
    rw [List.isPrefixOf_iff_prefix.mpr hstart] at hno
    exact Bool.noConfusion hno
  · have hle : PluginOptions.charCount c o' ≤ line.count c := PluginOptions.charCount_parse_le hc h
    rw [PluginOptions.count_print hc σ hid, PluginOptions.charCount_eq_of_equals heq] at hcount
    omega

/-- The options of one line are printed on one line. -/
theorem newline_not_mem_print (σ : IterationOrder Text (Option Text)) {line : Text}
    {o : PluginOptions} (hline : '\n' ∉ line) (h : parseLine line = .ok o) :
    '\n' ∉ o.print σ false := by
  rw [parseLine] at h
  split at h
  · obtain rfl : kcptunOptions line = o := Except.ok.inj h
    have hzero : PluginOptions.charCount '\n' (kcptunOptions line) = 0 := by
      rw [kcptunOptions]
      split
      · rename_i args hargs
        refine kcptunLoop_preserves (P := fun o => PluginOptions.charCount '\n' o = 0)
          (Q := fun arg => '\n' ∉ arg) ?_ ?_ (args.drop 1) _ ?_ rfl
        · intro o ho
          have hput := PluginOptions.charCount_put_le (c := '\n') o "nocomp".toList none
          have hnone : PluginOptions.entryCount '\n' ("nocomp".toList, none) = 0 := by decide
          show PluginOptions.charCount '\n' { o with map := _ } = 0
          omega
        · intro o option value ho hoption hvalue
          have hput := PluginOptions.charCount_put_le (c := '\n') o (option.drop 2) (some value)
          have hsome : PluginOptions.entryCount '\n' (option.drop 2, some value) = 0 := by
            rw [PluginOptions.entryCount, List.count_eq_zero_of_not_mem
              (fun hm => hoption (List.drop_subset 2 option hm))]
            exact (Nat.zero_add _).trans (List.count_eq_zero_of_not_mem hvalue)
          show PluginOptions.charCount '\n' { o with map := _ } = 0
          omega
        · intro arg harg hm
          exact hline
            (Commandline.translateCommandline_subset hargs arg (List.mem_of_mem_drop harg) hm)
      · rfl
    have hid : (kcptunOptions line).id ≠ [] := by
      rw [kcptunOptions_id]
      decide
    rw [← PluginOptions.count_print (by decide) σ hid] at hzero
    exact List.count_eq_zero.mp hzero
  · obtain ⟨o', ho', -, hc⟩ :=
      PluginOptions.parse_ok (some line) true (PluginOptions.controlFree_of_parse h)
    obtain rfl : o' = o := Except.ok.inj (ho'.symm.trans h)
    exact newline_not_mem (PluginOptions.print_controlFree σ false hc)

/-- A string of one line that selects a plugin is read as the options of that plugin. -/
theorem parseLine_of_selectedOptions {line : Text} (hline : '\n' ∉ line) {q : Profile}
    (hq : q.plugin.getD [] = line) {defaultConfig : Text → Option Text} {o : PluginOptions}
    (h : q.selectedOptions defaultConfig = .ok o) (hid : o.id ≠ []) : parseLine line = .ok o := by
  have hconf : q.configuration = (parseLines [line]).map ofList := by
    rw [Profile.configuration, hq, ofText, Text.split_of_not_mem hline]
  cases hparse : parseLine line with
  | error e =>
    rw [Profile.selectedOptions, hconf, parseLines, hparse] at h
    simp [Except.map] at h
  | ok o' =>
    by_cases hid' : o'.id = []
    · -- nothing would be selected
      rw [Profile.selectedOptions, hconf, parseLines_cons hparse rfl] at h
      have hsel : (ofList [o']).selectedOptions defaultConfig = .ok PluginOptions.empty := by
        rw [selectedOptions, getOptions, if_pos (show (ofList [o']).selected = [] from hid')]
      obtain rfl : PluginOptions.empty = o := Except.ok.inj (hsel.symm.trans h)
      exact absurd rfl hid
    · obtain ⟨c, hc, hsel⟩ := selectedOptions_line hline hparse hid' defaultConfig
      rw [Profile.selectedOptions, Profile.configuration, hq, hc] at h
      exact hsel.symm.trans h

/-- Options whose printed line is read without loss hold no control character. -/
theorem controlFree_of_agree (σ : IterationOrder Text (Option Text))
    {defaultConfig : Text → Option Text} {o : PluginOptions} (ho : Named o) (hid : o.id ≠ [])
    (hline : '\n' ∉ o.print σ false) {q : Profile} (hq : q.plugin = some (o.print σ false))
    (h : Agree (.ok o) (q.selectedOptions defaultConfig)) : PluginOptions.ControlFree o := by
  obtain ⟨o₁, o₂, ho₁, hsel, heq⟩ := h
  obtain rfl : o = o₁ := Except.ok.inj ho₁
  have hparse := parseLine_of_selectedOptions hline (by rw [hq]; rfl) hsel (by rw [← heq.1]; exact hid)
  rw [parseLine] at hparse
  split at hparse
  · rename_i hk
    obtain rfl : kcptunOptions (o.print σ false) = o₂ := Except.ok.inj hparse
    have hname : o.id = "kcptun".toList := heq.1.trans (kcptunOptions_id _)
    have hno := print_no_kcptunPrefix hid (by rw [hname]; decide) σ
    rw [hk] at hno
    exact Bool.noConfusion hno
  · obtain ⟨o', ho', -, hc⟩ :=
      PluginOptions.parse_ok (some (o.print σ false)) true (PluginOptions.controlFree_of_parse hparse)
    obtain rfl : o' = o₂ := Except.ok.inj (ho'.symm.trans hparse)
    refine ⟨ho.2, fun e he => hc.2 e ?_⟩
    exact (PluginOptions.entries_perm_of_equals heq).mem_iff.mp he

end PluginConfiguration

end SsAndroid
