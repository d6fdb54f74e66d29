import SsAndroid.Plugin.PluginConfiguration

/-!
# The profile screen keeps every plugin's options

Selection is encoded by line order only, a missing plugin is printed with its default options, and
old kcptun lines are read by another parser and rewritten.  None of this is visible to the user:
along a sequence of steps the stored string answers every query as the user's history says, exactly
when every plugin that is selected for the first time has a default configuration without control
characters (`screen_keeps_options`).  Nobody checks the default configuration, which comes from the
plugin's manifest, before the listener of the selection reads it.

The invariant is `Answers c h`: the configuration `c` has the selection of the history `h` and
answers `getOptions` as `h` expects, and every plugin in it can be printed on a line of its own
(`Storable`).  `print_ofText` is the step that carries the proof: a storable configuration whose
selected options can be read is printed, and what is read back is storable again and answers every
query in the same way.
-/

namespace SsAndroid

open PluginOptions (Equals Printable)

namespace PluginConfiguration

/-- The two calls return, with equal options. -/
def Agree (a b : Except Exn PluginOptions) : Prop :=
  ∃ o o', a = .ok o ∧ b = .ok o' ∧ Equals o o'

theorem Agree.trans {a b c : Except Exn PluginOptions} (h : Agree a b) (h' : Agree b c) :
    Agree a c := by
  obtain ⟨o₁, o₂, ha, hb, h₁⟩ := h
  obtain ⟨o₃, o₄, hb', hc, h₂⟩ := h'
  rw [hb] at hb'
  obtain rfl := Except.ok.inj hb'
  exact ⟨o₁, o₄, ha, hc, h₁.trans h₂⟩

/-- The two calls agree, or throw the same. -/
def Same (a b : Except Exn PluginOptions) : Prop :=
  Agree a b ∨ ∃ e, a = .error e ∧ b = .error e

theorem Same.refl (a : Except Exn PluginOptions) : Same a a := by
  cases a with
  | error e => exact .inr ⟨e, rfl, rfl⟩
  | ok o => exact .inl ⟨o, o, rfl, rfl, Equals.refl o⟩

theorem Same.trans {a b c : Except Exn PluginOptions} (h : Same a b) (h' : Same b c) : Same a c := by
  obtain h | ⟨e, ha, hb⟩ := h <;> obtain h' | ⟨e', hb', hc⟩ := h'
  · exact .inl (h.trans h')
  · obtain ⟨o, o', -, hb, -⟩ := h
    rw [hb] at hb'
    exact absurd hb' (by simp)
  · obtain ⟨o, o', hb', -, -⟩ := h'
    rw [hb] at hb'
    exact absurd hb' (by simp)
  · rw [hb] at hb'
    obtain rfl := Except.error.inj hb'
    exact .inr ⟨e, ha, hc⟩

theorem Same.agree {a b : Except Exn PluginOptions} (h : Same a b) {o : PluginOptions}
    (hb : b = .ok o) : Agree a b := by
  obtain h | ⟨e, -, he⟩ := h
  · exact h
  · rw [hb] at he
    exact absurd he (by simp)

/-- An id the screen can work with. -/
def ValidId (id : Text) : Prop :=
  id ≠ [] ∧ Text.ControlFree id ∧ kcptunPrefix.isPrefixOf id = false

instance (id : Text) : Decidable (ValidId id) :=
  inferInstanceAs (Decidable (_ ∧ _ ∧ _))

/-- Options that stand under their own, valid id and print without loss. -/
def Plain (o : PluginOptions) : Prop := ValidId o.id ∧ Printable o ∧ PluginOptions.ControlFree o

/-- Every plugin of the configuration can be printed on a line of its own. -/
structure Storable (c : PluginConfiguration) : Prop where
  plain : ∀ e ∈ c.pluginsOptions.entries, e.2.id = e.1 ∧ Plain e.2
  selected : c.selected = [] ∨ ValidId c.selected

/-! ### The order in which the options are printed -/

theorem inOrder_eq (selected : Text) (es : List (Text × PluginOptions)) :
    inOrder selected es = ((es.filter (fun e => e.1 = selected)).map Prod.snd).reverse
      ++ (es.filter (fun e => e.1 ≠ selected)).map Prod.snd := by
  have hgen : ∀ acc : List PluginOptions,
      es.foldl (fun result e => if e.1 = selected then e.2 :: result else result ++ [e.2]) acc
        = ((es.filter (fun e => e.1 = selected)).map Prod.snd).reverse ++ acc
          ++ (es.filter (fun e => e.1 ≠ selected)).map Prod.snd := by
    induction es with
    | nil => intro acc; simp
    | cons e es ih =>
      intro acc
      rw [List.foldl_cons, ih]
      by_cases h : e.1 = selected <;> simp [h]
  have h := hgen []
  rwa [List.append_nil] at h

/-- The options of the other plugins, in map order. -/
def others (c : PluginConfiguration) : List PluginOptions :=
  (c.pluginsOptions.entries.filter (fun e => e.1 ≠ c.selected)).map Prod.snd

theorem filter_eq_of_get? {es : List (Text × PluginOptions)} (h : (es.map Prod.fst).Nodup)
    {k : Text} {o : PluginOptions} (hm : (k, o) ∈ es) :
    es.filter (fun e => e.1 = k) = [(k, o)] := by
  induction es with
  | nil => simp at hm
  | cons e es ih =>
    rw [List.map_cons, List.nodup_cons] at h
    rcases List.mem_cons.mp hm with rfl | hm
    · have hnone : es.filter (fun e => e.1 = k) = [] := by
        rw [List.filter_eq_nil_iff]
        intro f hf hfk
        exact h.1 (List.mem_map.mpr ⟨f, hf, by simpa using hfk⟩)
      simp [hnone]
    · have hne : e.1 ≠ k := by
        rintro rfl
        exact h.1 (List.mem_map.mpr ⟨_, hm, rfl⟩)
      rw [List.filter_cons_of_neg (by simpa using hne), ih h.2 hm]

/-- **The printed lines**: the selected plugin's options, then the others. -/
theorem print_eq (σ : IterationOrder Text (Option Text)) (defaultConfig : Text → Option Text)
    (c : PluginConfiguration) (hc : Storable c) {o : PluginOptions}
    (ho : c.selectedOptions defaultConfig = .ok o) :
    c.print σ defaultConfig
      = .ok (Text.join ['\n'] ((o :: c.others).map (PluginOptions.print σ false))) := by
  rw [print, inOrder_eq]
  cases hg : c.pluginsOptions.get? c.selected with
  | none =>
    have hnil : c.pluginsOptions.entries.filter (fun e => e.1 = c.selected) = [] := by
      rw [List.filter_eq_nil_iff]
      intro e he hes
      apply (c.pluginsOptions.get?_eq_none_iff c.selected).mp hg
      exact List.mem_map.mpr ⟨e, he, by simpa using hes⟩
    simp only [hnil, ho]
    rfl
  | some o' =>
    have hmem := (c.pluginsOptions.get?_eq_some_iff c.selected o').mp hg
    have hne : c.selected ≠ [] := by
      have hid := hc.plain _ hmem
      exact fun h => hid.2.1.1 (hid.1.trans h)
    have hoo : o' = o := by
      rw [selectedOptions, getOptions, if_neg hne, hg] at ho
      exact Except.ok.inj ho
    rw [filter_eq_of_get? c.pluginsOptions.nodup hmem, hoo]
    rfl

/-! ### Reading the lines back -/

/-- A prefix without special characters has to stand unescaped at the start of an escaped text. -/
theorem isPrefixOf_escape (p : Text) : ∀ (s rest : Text),
    (∀ c ∈ p, PluginOptions.isDelimiter c = false) → p.isPrefixOf s = false →
    p.isPrefixOf (PluginOptions.escape s ++ ';' :: rest) = false := by
  induction p with
  | nil => intro s rest _ h; simp at h
  | cons c p ih =>
    intro s rest hp h
    have hc : PluginOptions.isDelimiter c = false := hp c List.mem_cons_self
    have hne : ∀ d, PluginOptions.isDelimiter d = true → (c == d) = false := by
      intro d hd
      rw [beq_eq_false_iff_ne]
      rintro rfl
      simp [hd] at hc
    cases s with
    | nil =>
      simp [PluginOptions.escape, List.isPrefixOf, hne ';' rfl]
    | cons d s =>
      cases hd : PluginOptions.isDelimiter d with
      | true =>
        simp [PluginOptions.escape, hd, List.isPrefixOf, hne '\\' rfl]
      | false =>
        have hcons : PluginOptions.escape (d :: s) = d :: PluginOptions.escape s := by
          simp [PluginOptions.escape, hd]
        rw [hcons, List.cons_append, List.isPrefixOf_cons_cons]
        rw [List.isPrefixOf_cons_cons] at h
        cases hcd : c == d with
        | false => rfl
        | true =>
          rw [hcd, Bool.true_and] at h
          rw [Bool.true_and]
          exact ih s rest (fun x hx => hp x (List.mem_cons_of_mem _ hx)) h

/-- A line of the new format is never taken for one of the old. -/
theorem print_no_kcptunPrefix {o : PluginOptions} (hid : o.id ≠ [])
    (hk : kcptunPrefix.isPrefixOf o.id = false) (σ : IterationOrder Text (Option Text)) :
    kcptunPrefix.isPrefixOf (PluginOptions.print σ false o) = false := by
  have hplain : ∀ c ∈ kcptunPrefix, PluginOptions.isDelimiter c = false := by
    have hall : kcptunPrefix.all (fun c => !PluginOptions.isDelimiter c) = true := by decide
    intro c hc
    simpa using List.all_eq_true.mp hall c hc
  have hsemi : kcptunPrefix.isPrefixOf (PluginOptions.print σ false o ++ [';']) = false := by
    rw [PluginOptions.print_false_semicolon σ o hid, List.append_assoc, List.singleton_append]
    exact isPrefixOf_escape kcptunPrefix o.id _ hplain hk
  rw [Bool.eq_false_iff]
  intro hp
  have hpre := (List.isPrefixOf_iff_prefix.mp hp).trans (List.prefix_append _ [';'])
  rw [List.isPrefixOf_iff_prefix.mpr hpre] at hsemi
  exact Bool.noConfusion hsemi

theorem parseLine_print {o : PluginOptions} (h : Plain o) (σ : IterationOrder Text (Option Text)) :
    ∃ o', parseLine (PluginOptions.print σ false o) = .ok o' ∧ Equals o' o ∧ Plain o' := by
  obtain ⟨o', ho', heq⟩ := PluginOptions.ofText_print σ o h.1.1 h.2.1 h.2.2
  have hline := print_no_kcptunPrefix h.1.1 h.1.2.2 σ
  obtain ⟨o'', ho'', hp, hcf⟩ := PluginOptions.parse_ok (some (PluginOptions.print σ false o)) true
    (PluginOptions.print_controlFree σ false h.2.2)
  have hoo : o'' = o' := Except.ok.inj (ho''.symm.trans ho')
  subst hoo
  refine ⟨o'', ?_, heq, ?_, hp, hcf⟩
  · rw [parseLine, hline]
    exact ho'
  · rw [heq.1]
    exact h.1

/-- The line of an unselected screen: nothing. -/
theorem parseLine_nil : parseLine [] = .ok PluginOptions.empty := rfl

theorem parseLines_cons {line : Text} {lines : List Text} {o : PluginOptions}
    {os : List PluginOptions} (h : parseLine line = .ok o) (hs : parseLines lines = .ok os) :
    parseLines (line :: lines) = .ok (o :: os) := by
  rw [parseLines, h, hs]
  rfl

theorem parseLines_print (σ : IterationOrder Text (Option Text)) (os : List PluginOptions)
    (h : ∀ o ∈ os, Plain o) :
    ∃ os', parseLines (os.map (PluginOptions.print σ false)) = .ok os' ∧
      List.Forall₂ (fun o' o => Equals o' o ∧ Plain o') os' os := by
  induction os with
  | nil => exact ⟨[], rfl, List.Forall₂.nil⟩
  | cons o os ih =>
    obtain ⟨o', ho', heq, hpl⟩ := parseLine_print (h o List.mem_cons_self) σ
    obtain ⟨os', hos', hall⟩ := ih (fun x hx => h x (List.mem_cons_of_mem _ hx))
    exact ⟨o' :: os', parseLines_cons ho' hos', List.Forall₂.cons ⟨heq, hpl⟩ hall⟩

/-! ### Looking up a plugin in the lines read -/

theorem get?_ofList_of_mem {os : List PluginOptions} (hnd : (os.map PluginOptions.id).Nodup)
    {o : PluginOptions} (ho : o ∈ os) (hid : o.id ≠ []) :
    (ofList os).pluginsOptions.get? o.id = some o := by
  have hkeys : ((os.filter (fun o => o.id ≠ [])).map (fun o => (o.id, o))).map Prod.fst
      = (os.filter (fun o => o.id ≠ [])).map PluginOptions.id := by
    rw [List.map_map]
    rfl
  apply LinkedMap.get?_putAll_of_mem
  · rw [hkeys]
    exact hnd.sublist (List.filter_sublist.map PluginOptions.id)
  · exact List.mem_map.mpr ⟨o, List.mem_filter.mpr ⟨ho, by simpa using hid⟩, rfl⟩

theorem get?_ofList_of_not_mem {os : List PluginOptions} {id : Text}
    (h : id ∉ os.map PluginOptions.id) : (ofList os).pluginsOptions.get? id = none := by
  apply LinkedMap.get?_putAll_of_not_mem
  rw [List.map_map]
  intro hm
  obtain ⟨o, ho, rfl⟩ := List.mem_map.mp hm
  exact h (List.mem_map.mpr ⟨o, List.mem_of_mem_filter ho, rfl⟩)

theorem mem_ofList {os : List PluginOptions} {e : Text × PluginOptions}
    (h : e ∈ (ofList os).pluginsOptions.entries) : e.2 ∈ os ∧ e.2.id = e.1 ∧ e.1 ≠ [] := by
  obtain ⟨o, ho, rfl⟩ := List.mem_map.mp (LinkedMap.mem_ofEntries h)
  obtain ⟨hmem, hid⟩ := List.mem_filter.mp ho
  exact ⟨hmem, rfl, by simpa using hid⟩

theorem others_plain {c : PluginConfiguration} (hc : Storable c) : ∀ o ∈ c.others, Plain o := by
  intro o ho
  obtain ⟨e, he, rfl⟩ := List.mem_map.mp ho
  exact (hc.plain e (List.mem_of_mem_filter he)).2

theorem others_ids {c : PluginConfiguration} (hc : Storable c) :
    c.others.map PluginOptions.id
      = (c.pluginsOptions.entries.filter (fun e => e.1 ≠ c.selected)).map Prod.fst := by
  rw [others, List.map_map]
  apply List.map_congr_left
  intro e he
  exact (hc.plain e (List.mem_of_mem_filter he)).1

theorem forall₂_ids {os' os : List PluginOptions}
    (h : List.Forall₂ (fun o' o => Equals o' o ∧ Plain o') os' os) :
    os'.map PluginOptions.id = os.map PluginOptions.id := by
  induction h with
  | nil => rfl
  | cons h _ ih => rw [List.map_cons, List.map_cons, h.1.1, ih]

theorem forall₂_mem {os' os : List PluginOptions}
    (h : List.Forall₂ (fun o' o => Equals o' o ∧ Plain o') os' os) {o : PluginOptions} (ho : o ∈ os) :
    ∃ o' ∈ os', Equals o' o := by
  induction h with
  | nil => simp at ho
  | cons h _ ih =>
    rcases List.mem_cons.mp ho with rfl | ho
    · exact ⟨_, List.mem_cons_self, h.1⟩
    · obtain ⟨o', ho', heq⟩ := ih ho
      exact ⟨o', List.mem_cons_of_mem _ ho', heq⟩

theorem forall₂_plain {os' os : List PluginOptions}
    (h : List.Forall₂ (fun o' o => Equals o' o ∧ Plain o') os' os) : ∀ o' ∈ os', Plain o' := by
  induction h with
  | nil => simp
  | cons h _ ih =>
    intro o' ho'
    rcases List.mem_cons.mp ho' with rfl | ho'
    · exact h.2
    · exact ih o' ho'

/-! ### A printed configuration is read back -/

section Defaults

variable (σ : IterationOrder Text (Option Text)) (defaultConfig : Text → Option Text)

/-- The options of `id` can be read: they are in the configuration, or the default configuration has no
control characters. -/
def Readable (c : PluginConfiguration) (id : Text) : Prop :=
  id = [] ∨ c.pluginsOptions.get? id ≠ none ∨ Text.ControlFree ((defaultConfig id).getD [])

/-- `getOptions` returns exactly then. -/
theorem getOptions_ok_iff (c : PluginConfiguration) (id : Text) :
    (∃ o, c.getOptions defaultConfig id = .ok o) ↔ c.Readable defaultConfig id := by
  rw [getOptions, Readable]
  by_cases hid : id = []
  · rw [if_pos hid]
    exact iff_of_true ⟨_, rfl⟩ (.inl hid)
  rw [if_neg hid]
  cases hg : c.pluginsOptions.get? id with
  | some o => exact iff_of_true ⟨_, rfl⟩ (.inr (.inl (by simp)))
  | none =>
    constructor
    · rintro ⟨o, ho⟩
      refine .inr (.inr ?_)
      cases hcfg : defaultConfig id with
      | none => exact PluginOptions.controlFree_nil
      | some cfg =>
        simp only [PluginOptions.ofIdText, hcfg] at ho
        split at ho
        · rename_i o' hparse
          exact PluginOptions.controlFree_of_parse hparse
        · exact absurd ho (by simp)
    · rintro (h | h | h)
      · exact absurd h hid
      · exact absurd rfl h
      · obtain ⟨o, ho, -, -⟩ := PluginOptions.parse_ok (defaultConfig id) false h
        exact ⟨{ o with id := id }, by rw [PluginOptions.ofIdText]; simp only [ho]⟩

/-- The first line of a printed configuration, and what is read from it. -/
theorem selected_line {c : PluginConfiguration} (hc : Storable c)
    (hread : c.Readable defaultConfig c.selected) :
    ∃ o o', c.selectedOptions defaultConfig = .ok o ∧ o.id = c.selected ∧
      PluginOptions.ControlFree o ∧ parseLine (PluginOptions.print σ false o) = .ok o' ∧
      Equals o' o ∧ (c.selected ≠ [] → Plain o') := by
  by_cases hsel : c.selected = []
  · refine ⟨PluginOptions.empty, PluginOptions.empty, ?_, hsel.symm, by decide, parseLine_nil,
      Equals.refl _, fun h => absurd hsel h⟩
    rw [selectedOptions, getOptions, if_pos hsel]
  · have hvalid : ValidId c.selected := hc.selected.resolve_left hsel
    have hplain : ∃ o, c.selectedOptions defaultConfig = .ok o ∧ o.id = c.selected ∧ Plain o := by
      rw [selectedOptions, getOptions, if_neg hsel]
      cases hg : c.pluginsOptions.get? c.selected with
      | some o =>
        have h := hc.plain _ ((c.pluginsOptions.get?_eq_some_iff _ _).mp hg)
        exact ⟨o, rfl, h.1, h.2⟩
      | none =>
        have hdefault := (hread.resolve_left hsel).resolve_left (not_not_intro hg)
        obtain ⟨o, ho, hid, hp, hcf⟩ := PluginOptions.ofIdText_ok c.selected
          (defaultConfig c.selected) hvalid.2.1 hdefault
        exact ⟨o, ho, hid, by rw [hid]; exact hvalid, hp, hcf⟩
    obtain ⟨o, ho, hid, hpl⟩ := hplain
    obtain ⟨o', ho', heq, hpl'⟩ := parseLine_print hpl σ
    exact ⟨o, o', ho, hid, hpl.2.2, ho', heq, fun _ => hpl'⟩

/-- **A storable configuration survives being printed and read back**: the selection and the answer
to every query. -/
theorem print_ofText {c : PluginConfiguration} (hc : Storable c)
    (hread : c.Readable defaultConfig c.selected) :
    ∃ text c', c.print σ defaultConfig = .ok text ∧ ofText text = .ok c' ∧ Storable c' ∧
      c'.selected = c.selected ∧
      ∀ id, Same (c'.getOptions defaultConfig id) (c.getOptions defaultConfig id) := by
  obtain ⟨o, o', ho, hid, hcf, ho', heq, hpl⟩ := selected_line σ defaultConfig hc hread
  obtain ⟨os', hos', hall⟩ := parseLines_print σ c.others (others_plain hc)
  have hlines : Text.split '\n' (Text.join ['\n'] ((o :: c.others).map (PluginOptions.print σ false)))
      = (o :: c.others).map (PluginOptions.print σ false) := by
    apply Text.split_join (by simp)
    intro line hline hn
    obtain ⟨x, hx, rfl⟩ := List.mem_map.mp hline
    have hxcf : PluginOptions.ControlFree x := by
      rcases List.mem_cons.mp hx with rfl | hx
      · exact hcf
      · exact (others_plain hc x hx).2.2
    exact absurd (PluginOptions.print_controlFree σ false hxcf _ hn) (by decide)
  have hread : ofText (Text.join ['\n'] ((o :: c.others).map (PluginOptions.print σ false)))
      = .ok (ofList (o' :: os')) := by
    rw [ofText, hlines, List.map_cons, parseLines_cons ho' hos']
    rfl
  -- the ids of the lines are distinct, the selected one first
  have hids : (o' :: os').map PluginOptions.id = c.selected
      :: (c.pluginsOptions.entries.filter (fun e => e.1 ≠ c.selected)).map Prod.fst := by
    rw [List.map_cons, heq.1, hid, forall₂_ids hall, others_ids hc]
  have hnd : ((o' :: os').map PluginOptions.id).Nodup := by
    rw [hids, List.nodup_cons]
    refine ⟨?_, c.pluginsOptions.nodup.sublist (List.filter_sublist.map Prod.fst)⟩
    intro hm
    obtain ⟨e, he, hes⟩ := List.mem_map.mp hm
    exact absurd hes (by simpa using (List.mem_filter.mp he).2)
  refine ⟨_, ofList (o' :: os'), print_eq σ defaultConfig c hc ho, hread, ⟨?_, ?_⟩, ?_, ?_⟩
  · intro e he
    obtain ⟨hmem, hide, hne⟩ := mem_ofList he
    refine ⟨hide, ?_⟩
    rcases List.mem_cons.mp hmem with h | h
    · rw [h]
      exact hpl (by rw [← hid, ← heq.1, ← h, hide]; exact hne)
    · exact forall₂_plain hall e.2 h
  · show o'.id = [] ∨ ValidId o'.id
    rw [heq.1, hid]
    exact hc.selected
  · exact heq.1.trans hid
  · intro id
    by_cases hidnil : id = []
    · rw [getOptions, getOptions, if_pos hidnil, if_pos hidnil]
      exact Same.refl _
    by_cases hsel : id = c.selected
    · have hget := get?_ofList_of_mem hnd List.mem_cons_self
        (show o'.id ≠ [] by rw [heq.1, hid, ← hsel]; exact hidnil)
      rw [heq.1, hid, ← hsel] at hget
      refine .inl ⟨o', o, ?_, by rw [hsel]; exact ho, heq⟩
      rw [getOptions, if_neg hidnil, hget]
    · cases hg : c.pluginsOptions.get? id with
      | some p =>
        have hmem := (c.pluginsOptions.get?_eq_some_iff id p).mp hg
        have hp : p ∈ c.others :=
          List.mem_map.mpr ⟨(id, p), List.mem_filter.mpr ⟨hmem, by simpa using hsel⟩, rfl⟩
        obtain ⟨p', hp', hpeq⟩ := forall₂_mem hall hp
        have hpid : p'.id = id := hpeq.1.trans (hc.plain _ hmem).1
        have hget := get?_ofList_of_mem hnd (List.mem_cons_of_mem _ hp')
          (show p'.id ≠ [] by rw [hpid]; exact hidnil)
        rw [hpid] at hget
        exact .inl ⟨p', p, by rw [getOptions, if_neg hidnil, hget],
          by rw [getOptions, if_neg hidnil, hg], hpeq⟩
      | none =>
        have hget : (ofList (o' :: os')).pluginsOptions.get? id = none := by
          apply get?_ofList_of_not_mem
          rw [hids, List.mem_cons, not_or]
          refine ⟨hsel, fun hm => ?_⟩
          obtain ⟨e, he, hes⟩ := List.mem_map.mp hm
          exact (c.pluginsOptions.get?_eq_none_iff id).mp hg
            (List.mem_map.mpr ⟨e, List.mem_of_mem_filter he, hes⟩)
        rw [getOptions, getOptions, hget, hg]
        exact Same.refl _

/-- A configuration whose selected options cannot be read is not printed. -/
theorem readable_of_print {c : PluginConfiguration} {text : Text}
    (h : c.print σ defaultConfig = .ok text) : c.Readable defaultConfig c.selected := by
  rw [print] at h
  cases hg : c.pluginsOptions.get? c.selected with
  | some o => exact .inr (.inl (by simp [hg]))
  | none =>
    rw [hg] at h
    refine (getOptions_ok_iff defaultConfig c c.selected).mp ?_
    cases ho : c.getOptions defaultConfig c.selected with
    | ok o => exact ⟨o, rfl⟩
    | error e =>
      rw [selectedOptions, ho] at h
      exact absurd h (by simp [Except.map])

end Defaults

/-! ### The configuration the screen starts from -/

/-- Options that print without loss, whatever their id. -/
def Clean (o : PluginOptions) : Prop := Printable o ∧ PluginOptions.ControlFree o

theorem Clean.put {o : PluginOptions} (h : Clean o) {key : Text} {value : Option Text}
    (hkv : (key, value) ≠ ([], none)) (hk : Text.ControlFree key)
    (hv : Text.ControlFree (value.getD [])) : Clean (PluginConfiguration.put o key value) :=
  ⟨PluginOptions.printable_put h.1 hkv, PluginOptions.controlFree_put h.2 hk hv⟩

/-- The loop keeps what every `put` of it keeps. -/
theorem kcptunLoop_preserves {P : PluginOptions → Prop} {Q : Text → Prop}
    (hnocomp : ∀ o, P o → P (put o "nocomp".toList none))
    (hput : ∀ o option value, P o → Q option → Q value → P (put o (option.drop 2) (some value)))
    (args : List Text) : ∀ opt : PluginOptions,
    (∀ arg ∈ args, Q arg) → P opt → P (kcptunLoop args opt) := by
  intro opt
  induction args, opt using kcptunLoop.induct with
  | case1 opt => intro _ h; exact h
  | case2 rest opt ih =>
    intro hargs h
    rw [kcptunLoop.eq_def]
    simp only [if_true]
    exact ih (fun a ha => hargs a (List.mem_cons_of_mem _ ha)) (hnocomp opt h)
  | case3 option opt h1 h2 =>
    intro _ h
    rw [kcptunLoop, if_neg h1, if_pos h2]
    exact h
  | case4 option opt h1 h2 value rest ih =>
    intro hargs h
    rw [kcptunLoop, if_neg h1, if_pos h2]
    exact ih (fun a ha => hargs a (List.mem_cons_of_mem _ (List.mem_cons_of_mem _ ha)))
      (hput opt option value h (hargs option List.mem_cons_self) (hargs value (by simp)))
  | case5 option rest opt h1 h2 =>
    intro _ h
    rw [kcptunLoop.eq_def]
    simp only [if_neg h1, if_neg h2]
    exact h

theorem kcptunLoop_clean (args : List Text) (opt : PluginOptions)
    (hargs : ∀ arg ∈ args, Text.ControlFree arg) (h : Clean opt) : Clean (kcptunLoop args opt) := by
  refine kcptunLoop_preserves ?_ ?_ args opt hargs h
  · intro o ho
    exact ho.put (by decide) (by decide) PluginOptions.controlFree_nil
  · intro o option value ho hoption hvalue
    exact ho.put (by simp) (hoption.subset (List.drop_subset 2 option)) hvalue

theorem kcptunOptions_clean {line : Text} (hline : Text.ControlFree line) :
    Clean (kcptunOptions line) := by
  have hstart : Clean { PluginOptions.empty with id := "kcptun".toList } :=
    ⟨by simp [Printable, PluginOptions.empty], by decide⟩
  rw [kcptunOptions]
  split
  · rename_i args hargs
    apply kcptunLoop_clean _ _ _ hstart
    intro arg harg
    exact hline.subset (Commandline.translateCommandline_subset hargs arg (List.mem_of_mem_drop harg))
  · exact hstart

theorem parseLine_ok {line : Text} (hline : Text.ControlFree line) :
    ∃ o, parseLine line = .ok o ∧ Clean o := by
  rw [parseLine]
  split
  · exact ⟨_, rfl, kcptunOptions_clean hline⟩
  · obtain ⟨o, ho, hp, hcf⟩ := PluginOptions.parse_ok (some line) true hline
    exact ⟨o, ho, hp, hcf⟩

theorem parseLines_ok {lines : List Text} (h : ∀ line ∈ lines, Text.ControlFree line) :
    ∃ os, parseLines lines = .ok os ∧ ∀ o ∈ os, Clean o := by
  induction lines with
  | nil => exact ⟨[], rfl, by simp⟩
  | cons line lines ih =>
    obtain ⟨o, ho, hc⟩ := parseLine_ok (h line List.mem_cons_self)
    obtain ⟨os, hos, hcs⟩ := ih (fun l hl => h l (List.mem_cons_of_mem _ hl))
    refine ⟨o :: os, parseLines_cons ho hos, ?_⟩
    intro x hx
    rcases List.mem_cons.mp hx with rfl | hx
    · exact hc
    · exact hcs x hx

theorem selected_mem_ofList {os : List PluginOptions} (h : (ofList os).selected ≠ []) :
    (ofList os).selected ∈ (ofList os).pluginsOptions.entries.map Prod.fst := by
  cases os with
  | nil => exact absurd rfl h
  | cons o rest =>
    have hid : o.id ≠ [] := h
    apply (LinkedMap.mem_keys_putAll _ _ _).mpr
    refine Or.inr (List.mem_map.mpr ⟨(o.id, o), ?_, rfl⟩)
    exact List.mem_map.mpr ⟨o, List.mem_filter.mpr ⟨List.mem_cons_self, by simpa using hid⟩, rfl⟩

/-- The selection that is read is none, or has options. -/
theorem selected_listed {plugin : Text} {c : PluginConfiguration} (h : ofText plugin = .ok c)
    (hsel : c.selected ≠ []) : c.pluginsOptions.get? c.selected ≠ none := by
  rw [ofText] at h
  cases hos : parseLines (Text.split '\n' plugin) with
  | error e =>
    rw [hos] at h
    exact absurd h (by simp [Except.map])
  | ok os =>
    rw [hos] at h
    obtain rfl : ofList os = c := Except.ok.inj h
    intro hnone
    exact ((ofList os).pluginsOptions.get?_eq_none_iff _).mp hnone (selected_mem_ofList hsel)

/-- A string without control characters other than newline is always read. -/
theorem ofText_storable {plugin : Text} (h : ∀ c ∈ plugin, c = '\n' ∨ Text.isISOControl c = false) :
    ∃ c, ofText plugin = .ok c ∧
      ((∀ e ∈ c.pluginsOptions.entries, kcptunPrefix.isPrefixOf e.1 = false) → Storable c) := by
  have hlines : ∀ line ∈ Text.split '\n' plugin, Text.ControlFree line := by
    intro line hline c hc
    have hne : c ≠ '\n' := by
      rintro rfl
      exact Text.sep_not_mem_of_mem_split hline hc
    exact (h c (Text.mem_of_mem_split hline hc)).resolve_left hne
  obtain ⟨os, hos, hclean⟩ := parseLines_ok hlines
  refine ⟨ofList os, by rw [ofText, hos]; rfl, fun hk => ⟨?_, ?_⟩⟩
  · intro e he
    obtain ⟨hmem, hid, hne⟩ := mem_ofList he
    have hcl := hclean e.2 hmem
    have hvalid : ValidId e.2.id := by
      refine ⟨by rw [hid]; exact hne, hcl.2.1, ?_⟩
      rw [hid]
      exact hk e he
    exact ⟨hid, hvalid, hcl⟩
  · by_cases hsel : (ofList os).selected = []
    · exact Or.inl hsel
    · obtain ⟨e, he, heid⟩ := List.mem_map.mp (selected_mem_ofList hsel)
      obtain ⟨hmem, hid, -⟩ := mem_ofList he
      refine Or.inr ⟨hsel, ?_, by rw [← heid]; exact hk e he⟩
      rw [← heid, ← hid]
      exact (hclean e.2 hmem).2.1

end PluginConfiguration

/-! ### The invariant and its steps -/

namespace Screen

open PluginConfiguration

/-- The steps of the contract: valid ids or none, options without control characters. -/
def Step.Valid : Step → Prop
  | .select id => id = [] ∨ ValidId id
  | .edit options => Text.ControlFree options
  | .reload => True

section Invariant

variable (σ : IterationOrder Text (Option Text)) (defaultConfig : Text → Option Text)
  (c₀ : PluginConfiguration)

/-- The options of a plugin that is selected can be read. -/
def Step.Reads : Step → Prop
  | .select id => c₀.Readable defaultConfig id
  | .edit _ => True
  | .reload => True

/-- What has been selected and entered can be read. -/
structure Sensible (h : History) : Prop where
  selected : c₀.Readable defaultConfig h.selected
  entered : ∀ id text, h.entered id = some text →
    Text.ControlFree text ∧ c₀.Readable defaultConfig id

/-- The configuration answers every query as the history says. -/
structure Answers (c : PluginConfiguration) (h : History) : Prop where
  storable : Storable c
  selected : c.selected = h.selected
  options : ∀ id, Same (c.getOptions defaultConfig id) (h.expectedOptions defaultConfig c₀ id)

/-- The configuration on the screen and the one in the stored string both do. -/
structure Inv (s : Screen) (h : History) : Prop where
  sensible : Sensible defaultConfig c₀ h
  configuration : Answers defaultConfig c₀ s.configuration h
  stored : ∃ c, ofText s.stored = .ok c ∧ Answers defaultConfig c₀ c h

variable {σ defaultConfig c₀}

/-- What was entered takes no plugin's options away. -/
theorem expectedOptions_ok_iff {h : History} (hh : Sensible defaultConfig c₀ h) (id : Text) :
    (∃ o, h.expectedOptions defaultConfig c₀ id = .ok o) ↔ c₀.Readable defaultConfig id := by
  rw [History.expectedOptions]
  by_cases hid : id = []
  · rw [if_pos hid]
    exact iff_of_true ⟨_, rfl⟩ (.inl hid)
  rw [if_neg hid]
  cases hentered : h.entered id with
  | none => exact getOptions_ok_iff defaultConfig c₀ id
  | some text =>
    obtain ⟨htext, hread⟩ := hh.entered id text hentered
    obtain ⟨o, ho, -, -⟩ := PluginOptions.parse_ok (some text) false htext
    refine iff_of_true ⟨{ o with id := id }, ?_⟩ hread
    simp only [PluginOptions.ofIdText, ho]

theorem Answers.readable_iff {c : PluginConfiguration} {h : History}
    (hc : Answers defaultConfig c₀ c h) (hh : Sensible defaultConfig c₀ h) (id : Text) :
    c.Readable defaultConfig id ↔ c₀.Readable defaultConfig id := by
  rw [← getOptions_ok_iff defaultConfig c, ← expectedOptions_ok_iff hh]
  obtain ⟨o, o', ho, ho', -⟩ | ⟨e, he, he'⟩ := hc.options id
  · exact iff_of_true ⟨o, ho⟩ ⟨o', ho'⟩
  · rw [he, he']

theorem answers_select {c : PluginConfiguration} {h : History} (hc : Answers defaultConfig c₀ c h)
    {id : Text} (hid : id = [] ∨ ValidId id) :
    Answers defaultConfig c₀ ⟨c.pluginsOptions, id⟩ (h.step (.select id)) :=
  ⟨⟨hc.storable.plain, hid⟩, rfl, hc.options⟩

theorem answers_edit {c : PluginConfiguration} {h : History} (hc : Answers defaultConfig c₀ c h)
    {text : Text} {o : PluginOptions} (hsel : c.selected ≠ [])
    (ho : PluginOptions.ofIdText c.selected (some text) = .ok o) (hid : o.id = c.selected)
    (hclean : Clean o) :
    Answers defaultConfig c₀ ⟨c.pluginsOptions.put c.selected o, c.selected⟩
      (h.step (.edit text)) := by
  have hvalid : ValidId c.selected := hc.storable.selected.resolve_left hsel
  have hstep : h.step (.edit text)
      = { h with entered := Function.update h.entered h.selected (some text) } := by
    rw [History.step, if_neg (by rw [← hc.selected]; exact hsel)]
  refine ⟨⟨?_, Or.inr hvalid⟩, ?_, ?_⟩
  · intro e he
    rcases LinkedMap.mem_putEntries he with rfl | he
    · exact ⟨hid, by rw [hid]; exact hvalid, hclean⟩
    · exact hc.storable.plain e he
  · rw [hstep]
    exact hc.selected
  · intro id
    rw [hstep, ← hc.selected]
    by_cases hids : id = c.selected
    · subst hids
      refine .inl ⟨o, o, ?_, ?_, Equals.refl o⟩
      · rw [getOptions, if_neg hsel, LinkedMap.get?_put, if_pos rfl]
      · simpa [History.expectedOptions, hsel] using ho
    · have hleft : getOptions defaultConfig ⟨c.pluginsOptions.put c.selected o, c.selected⟩ id
          = c.getOptions defaultConfig id := by
        rw [getOptions, getOptions, LinkedMap.get?_put, if_neg hids]
      have hright : History.expectedOptions defaultConfig c₀
          ⟨c.selected, Function.update h.entered c.selected (some text)⟩ id
          = h.expectedOptions defaultConfig c₀ id := by
        simp only [History.expectedOptions, Function.update_of_ne hids]
      rw [hleft, hright]
      exact hc.options id

/-- What is printed from an answering configuration is read back as one. -/
theorem answers_print {c : PluginConfiguration} {h : History} (hc : Answers defaultConfig c₀ c h)
    (hread : c.Readable defaultConfig c.selected) :
    ∃ text, c.print σ defaultConfig = .ok text ∧
      ∃ c', ofText text = .ok c' ∧ Answers defaultConfig c₀ c' h := by
  obtain ⟨text, c', hp, hr, hst, hsel, hopt⟩ := print_ofText σ defaultConfig hc.storable hread
  exact ⟨text, hp, c', hr, hst, hsel.trans hc.selected, fun id => (hopt id).trans (hc.options id)⟩

/-- **One step keeps the invariant.** -/
theorem step_inv {s : Screen} {h : History} (hs : Inv defaultConfig c₀ s h) {a : Step}
    (ha : a.Valid) (hreads : a.Reads defaultConfig c₀) :
    ∃ s', s.step σ defaultConfig a = .ok s' ∧ Inv defaultConfig c₀ s' (h.step a) := by
  obtain ⟨hsensible, hconf, c, hc, hstored⟩ := hs
  cases a with
  | select id =>
    have hnew := answers_select hconf ha
    have hh : Sensible defaultConfig c₀ (h.step (.select id)) := ⟨hreads, hsensible.entered⟩
    obtain ⟨text, hp, hread⟩ := answers_print (σ := σ) hnew ((hnew.readable_iff hh id).mpr hreads)
    exact ⟨⟨text, _⟩, by rw [step, select, hp]; rfl, hh, hnew, hread⟩
  | edit text =>
    by_cases hsel : s.configuration.selected = []
    · have hstay : h.step (.edit text) = h := by
        rw [History.step, if_pos (by rw [← hconf.selected]; exact hsel)]
      refine ⟨s, ?_, by rw [hstay]; exact ⟨hsensible, hconf, c, hc, hstored⟩⟩
      rw [step, onPreferenceChange, if_pos hsel]
    · have hvalid := hconf.storable.selected.resolve_left hsel
      obtain ⟨o, ho, hid, hp, hcf⟩ := PluginOptions.ofIdText_ok s.configuration.selected (some text)
        hvalid.2.1 ha
      have hnew := answers_edit hconf hsel ho hid ⟨hp, hcf⟩
      have hh : Sensible defaultConfig c₀ (h.step (.edit text)) := by
        rw [History.step, if_neg (by rw [← hconf.selected]; exact hsel)]
        refine ⟨hsensible.selected, fun id text' hentered => ?_⟩
        dsimp only at hentered
        by_cases hids : id = h.selected
        · subst hids
          rw [Function.update_self] at hentered
          rw [← Option.some.inj hentered]
          exact ⟨ha, hsensible.selected⟩
        · rw [Function.update_of_ne hids] at hentered
          exact hsensible.entered id text' hentered
      -- the options just entered are in the configuration
      have hput : PluginConfiguration.Readable defaultConfig
          ⟨s.configuration.pluginsOptions.put s.configuration.selected o, s.configuration.selected⟩
          s.configuration.selected := by
        refine .inr (.inl ?_)
        rw [LinkedMap.get?_put, if_pos rfl]
        exact Option.some_ne_none o
      obtain ⟨stored, hprint, hread⟩ := answers_print (σ := σ) hnew hput
      refine ⟨⟨stored, _⟩, ?_, hh, hnew, hread⟩
      simp only [step, onPreferenceChange, if_neg hsel, ho, hprint]
  | reload =>
    exact ⟨⟨s.stored, c⟩, by rw [step, initPlugins, hc]; rfl, hsensible, hstored, c, hc, hstored⟩

/-- A step that returns has read what it selects. -/
theorem step_reads {s s' : Screen} {h : History} (hs : Inv defaultConfig c₀ s h) {a : Step}
    (hstep : s.step σ defaultConfig a = .ok s') : a.Reads defaultConfig c₀ := by
  cases a with
  | edit text => trivial
  | reload => trivial
  | select id =>
    rw [step, select] at hstep
    cases hp : PluginConfiguration.print σ defaultConfig ⟨s.configuration.pluginsOptions, id⟩ with
    | error e =>
      simp only [hp] at hstep
      exact absurd hstep (by simp [Except.map])
    | ok text =>
      have hread : s.configuration.Readable defaultConfig id := readable_of_print σ defaultConfig hp
      exact (hs.configuration.readable_iff hs.sensible id).mp hread

/-- **Every sequence of steps keeps it.** -/
theorem run_inv (as : List Step) : ∀ {s : Screen} {h : History}, Inv defaultConfig c₀ s h →
    (∀ a ∈ as, a.Valid) → (∀ a ∈ as, a.Reads defaultConfig c₀) →
    ∃ s', s.run σ defaultConfig as = .ok s' ∧ Inv defaultConfig c₀ s' (h.run as) := by
  induction as with
  | nil => intro s h hs _ _; exact ⟨s, rfl, hs⟩
  | cons a as ih =>
    intro s h hs hv hr
    obtain ⟨s₁, h₁, hinv⟩ :=
      step_inv (σ := σ) hs (hv a List.mem_cons_self) (hr a List.mem_cons_self)
    obtain ⟨s₂, h₂, hinv₂⟩ := ih hinv (fun b hb => hv b (List.mem_cons_of_mem _ hb))
      (fun b hb => hr b (List.mem_cons_of_mem _ hb))
    exact ⟨s₂, by rw [run, h₁]; exact h₂, hinv₂⟩

theorem run_reads (as : List Step) : ∀ {s s' : Screen} {h : History}, Inv defaultConfig c₀ s h →
    (∀ a ∈ as, a.Valid) → s.run σ defaultConfig as = .ok s' → ∀ a ∈ as, a.Reads defaultConfig c₀ := by
  induction as with
  | nil => intro s s' h _ _ _ a ha; exact absurd ha List.not_mem_nil
  | cons a as ih =>
    intro s s' h hs hv hrun
    rw [run] at hrun
    split at hrun
    · rename_i s₁ hstep
      have ha := step_reads hs hstep
      obtain ⟨s₁', hstep', hinv⟩ := step_inv (σ := σ) hs (hv a List.mem_cons_self) ha
      obtain rfl := Except.ok.inj (hstep.symm.trans hstep')
      intro b hb
      rcases List.mem_cons.mp hb with rfl | hb
      · exact ha
      · exact ih hinv (fun b hb => hv b (List.mem_cons_of_mem _ hb)) hrun b hb
    · exact absurd hrun (by simp)

end Invariant

/-- Along the steps nothing is thrown; the string stored at the end has the selection the history says;
and every plugin that was in the initial configuration or was selected has the options last entered,
else those of the initial string, else its default. -/
def KeepsOptions (σ : IterationOrder Text (Option Text)) (defaultConfig : Text → Option Text)
    (plugin : Text) (steps : List Step) : Prop :=
  ∃ c₀ s₀ s c, ofText plugin = .ok c₀ ∧ initPlugins plugin = .ok s₀ ∧
    s₀.run σ defaultConfig steps = .ok s ∧ ofText s.stored = .ok c ∧
    c.selected = ((History.initial c₀).run steps).selected ∧
    ∀ id, c₀.pluginsOptions.get? id ≠ none ∨ .select id ∈ steps →
      Agree (c.getOptions defaultConfig id)
        (((History.initial c₀).run steps).expectedOptions defaultConfig c₀ id)

/-- **The profile screen keeps every plugin's options**, from any stored string without control
characters other than newline and along any sequence of steps, exactly when every plugin that is
selected, and has no options in the initial string, has a default configuration without control
characters. -/
theorem screen_keeps_options (σ : IterationOrder Text (Option Text))
    (defaultConfig : Text → Option Text)
    (plugin : Text) (hplugin : ∀ c ∈ plugin, c = '\n' ∨ Text.isISOControl c = false)
    (hids : ∀ c, ofText plugin = .ok c →
      ∀ e ∈ c.pluginsOptions.entries, kcptunPrefix.isPrefixOf e.1 = false)
    (steps : List Step) (hsteps : ∀ a ∈ steps, a.Valid) :
    KeepsOptions σ defaultConfig plugin steps ↔
      ∀ c₀, ofText plugin = .ok c₀ → ∀ id, .select id ∈ steps → id ≠ [] →
        c₀.pluginsOptions.get? id = none → Text.ControlFree ((defaultConfig id).getD []) := by
  obtain ⟨c₀, hc₀, hst⟩ := ofText_storable hplugin
  have hstorable := hst (hids c₀ hc₀)
  -- the selection at the start is none, or on the first line
  have hselected : c₀.Readable defaultConfig c₀.selected := by
    by_cases hsel : c₀.selected = []
    · exact .inl hsel
    · exact .inr (.inl (selected_listed hc₀ hsel))
  have hinv : Inv defaultConfig c₀ ⟨plugin, c₀⟩ (History.initial c₀) := by
    have hanswers : Answers defaultConfig c₀ c₀ (History.initial c₀) := by
      refine ⟨hstorable, rfl, fun id => ?_⟩
      have hexp : (History.initial c₀).expectedOptions defaultConfig c₀ id
          = c₀.getOptions defaultConfig id := by
        by_cases hid : id = []
        · rw [History.expectedOptions, getOptions, if_pos hid, if_pos hid]
        · rw [History.expectedOptions, if_neg hid]
          rfl
      rw [hexp]
      exact Same.refl _
    refine ⟨⟨hselected, fun id text h => ?_⟩, hanswers, c₀, hc₀, hanswers⟩
    exact absurd h (by simp [History.initial])
  have hinit : initPlugins plugin = .ok ⟨plugin, c₀⟩ := by
    rw [initPlugins, hc₀]
    rfl
  constructor
  · rintro ⟨c₁, s₀, s, -, -, hs₀, hrun, -⟩ c₂ hc₂ id hid hne hnone
    obtain rfl := Except.ok.inj (hinit.symm.trans hs₀)
    obtain rfl := Except.ok.inj (hc₀.symm.trans hc₂)
    have hread : c₀.Readable defaultConfig id := run_reads steps hinv hsteps hrun _ hid
    exact (hread.resolve_left hne).resolve_left (not_not_intro hnone)
  · intro hdefaults
    have hreads : ∀ a ∈ steps, a.Reads defaultConfig c₀ := by
      intro a ha
      cases a with
      | edit text => trivial
      | reload => trivial
      | select id =>
        by_cases hne : id = []
        · exact .inl hne
        by_cases hnone : c₀.pluginsOptions.get? id = none
        · exact .inr (.inr (hdefaults c₀ hc₀ id ha hne hnone))
        · exact .inr (.inl hnone)
    obtain ⟨s, hs, hsensible, -, c, hc, hfinal⟩ := run_inv (σ := σ) steps hinv hsteps hreads
    refine ⟨c₀, ⟨plugin, c₀⟩, s, c, hc₀, hinit, hs, hc, hfinal.selected, fun id hid => ?_⟩
    have hread : c₀.Readable defaultConfig id := by
      obtain hid | hid := hid
      · exact .inr (.inl hid)
      · exact hreads _ hid
    obtain ⟨o, ho⟩ := (expectedOptions_ok_iff hsensible id).mpr hread
    exact (hfinal.options id).agree ho

/-- An old kcptun line and a plugin in the new format. -/
def sampleStored : Text := "kcptun --nocomp --key 'a b'\nobfs;obfs=http".toList

/-- A default configuration, and one of two lines. -/
def sampleDefaults (id : Text) : Option Text :=
  if id = "v2ray".toList then some "tls;host=c.d".toList
  else if id = "two".toList then some "a\nb".toList
  else none

/-- A third plugin is selected and left as it is, a fourth is edited, none is selected, the
configuration is reloaded. -/
def sampleSteps : List Step :=
  [.select "v2ray".toList, .select "gq".toList, .edit "key=a\\;b".toList, .select [], .reload,
    .select "obfs".toList]

theorem sampleStored_ids (c : PluginConfiguration) (h : ofText sampleStored = .ok c) :
    ∀ e ∈ c.pluginsOptions.entries, kcptunPrefix.isPrefixOf e.1 = false := by
  have hkeys : (ofText sampleStored).map (fun c => c.pluginsOptions.entries.map Prod.fst)
      = .ok ["kcptun".toList, "obfs".toList] := by decide +kernel
  rw [h] at hkeys
  intro e he
  have hmem : e.1 ∈ ["kcptun".toList, "obfs".toList] := by
    rw [← Except.ok.inj hkeys]
    exact List.mem_map.mpr ⟨e, he, rfl⟩
  rcases List.mem_cons.mp hmem with h | h
  · rw [h]
    rfl
  · rw [List.mem_singleton.mp h]
    rfl

theorem sampleSteps_valid : ∀ a ∈ sampleSteps, a.Valid := by
  intro a ha
  simp only [sampleSteps, List.mem_cons, List.not_mem_nil, or_false] at ha
  rcases ha with rfl | rfl | rfl | rfl | rfl | rfl
  · exact Or.inr (by decide)
  · exact Or.inr (by decide)
  · show Text.ControlFree _
    decide
  · exact Or.inl rfl
  · trivial
  · exact Or.inr (by decide)

theorem screen_keeps_options_sample :
    KeepsOptions (IterationOrder.stored _ _) sampleDefaults sampleStored sampleSteps := by
  have hplugin : ∀ c ∈ sampleStored, c = '\n' ∨ Text.isISOControl c = false := by
    have hall : sampleStored.all (fun c => c == '\n' || !Text.isISOControl c) = true := by decide
    intro c hc
    simpa using List.all_eq_true.mp hall c hc
  refine (screen_keeps_options (IterationOrder.stored _ _) sampleDefaults sampleStored hplugin
    sampleStored_ids sampleSteps sampleSteps_valid).mpr ?_
  intro c₀ _ id hid _ _
  simp only [sampleSteps, List.mem_cons, List.not_mem_nil, or_false, reduceCtorEq, false_or,
    Step.select.injEq] at hid
  rcases hid with rfl | rfl | rfl | rfl <;> decide

/-- Nothing is stored, and the plugin with a default configuration of two lines is selected: the
listener throws. -/
theorem screen_throws_on_default :
    ValidId "two".toList ∧
      ¬ KeepsOptions (IterationOrder.stored _ _) sampleDefaults [] [.select "two".toList] := by
  refine ⟨by decide, ?_⟩
  rintro ⟨c₀, s₀, s, c, -, hs₀, hrun, -⟩
  have hthrows : ((initPlugins []).bind fun s => s.run (IterationOrder.stored _ _) sampleDefaults
      [.select "two".toList]).isOk = false := by decide +kernel
  rw [hs₀] at hthrows
  simp only [Except.bind, hrun] at hthrows
  exact absurd hthrows (by simp [Except.isOk, Except.toBool])

end Screen

end SsAndroid
