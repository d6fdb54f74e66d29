import SsAndroid.Database.ImportLinks

/-!
# The UDP fallbacks of imported profiles

An object may name a server of its own for UDP, as a nested object.  Its profile is then to be linked
to a stored profile with that address and without a plugin: one that is in the table, or one that is
created from the nested object.  `AllLinked` says that this is so for every profile of a document.

The parser remembers fallbacks by the content of their profiles, so that of two equal profiles with
fallbacks only the first is linked; and a fallback is created with the plugin its object names.
`parseJson_allLinked_iff` shows that nothing else goes wrong.
-/

namespace SsAndroid

namespace ProfileManager

open JsonParser

/-! ### What an import should do -/

/-- The row of a profile has the link its object asks for. -/
def IsLinked (gson : Gson) (rows : List Profile) (object : List (String × Json)) (row : Profile) :
    Prop :=
  match udpFallbackAddress gson object with
  | none => row.udpFallback = none
  | some address => ∃ q ∈ rows, row.udpFallback = some q.id ∧ q.key = address ∧
      Profile.isNullOrEmpty q.plugin = true

/-- The profiles of the objects, which have the ids after `sequence`, are linked as their objects ask
for, and the fallbacks that were created after them are not linked. -/
def AllLinked (gson : Gson) (objects : List (List (String × Json))) (sequence : Int)
    (rows : List Profile) : Prop :=
  (∀ (i : Nat) object, objects[i]? = some object → ∀ row ∈ rows, row.id = sequence + 1 + i →
    IsLinked gson rows object row) ∧
  ∀ row ∈ rows, sequence + objects.length < row.id → row.udpFallback = none

/-- No two profiles with a fallback are equal. -/
def FallbacksApart (rs : List (Profile × Option Profile)) : Prop :=
  ∀ (i j : Nat) (p f g : Profile), rs[i]? = some (p, some f) → rs[j]? = some (p, some g) → i = j

/-- A fallback with a plugin is found in the table or among the profiles. -/
def FallbacksPlain (rows : List Profile) (rs : List (Profile × Option Profile)) : Prop :=
  ∀ p f : Profile, (p, some f) ∈ rs → Profile.isNullOrEmpty f.plugin = true ∨
    ∃ q ∈ rows ++ rs.map Prod.fst, isMatch f q = true

/-! ### The loop over the fallbacks -/

variable {replaced : Option (LinkedMap Text Profile)}

/-- The row a profile with the fallback `f` is linked to. -/
def IsLinkOf (listed : List Profile) (f q : Profile) : Prop :=
  q.key = f.key ∧
    if listed.any (isMatch f) then Profile.isNullOrEmpty q.plugin = true else q.plugin = f.plugin

theorem IsLinkOf.congr {listed : List Profile} {f q q' : Profile} (h : IsLinkOf listed f q)
    (hsame : q'.unlinked = q.unlinked) : IsLinkOf listed f q' := by
  rw [IsLinkOf, key_of_unlinked hsame, plugin_of_unlinked hsame]
  exact h

/-- What holds after the entries `done`; `created` are the rows of the parser's profiles, which have
ids above `sequence`. -/
structure Looped (replaced : Option (LinkedMap Text Profile)) (listed created : List Profile)
    (sequence : Int) (done : List (Nat × Profile)) (s : Importing) : Prop where
  ready : s.Ready replaced
  listed_mem : ∀ q ∈ listed, ∃ row ∈ s.store.rows, row.unlinked = q.unlinked
  created_mem : ∀ p ∈ created, ∃ row ∈ s.store.rows, row.unlinked = p.unlinked
  linked : ∀ i f p, (i, f) ∈ done → created[i]? = some p → ∀ row ∈ s.store.rows, row.id = p.id →
    ∃ q ∈ s.store.rows, row.udpFallback = some q.id ∧ IsLinkOf listed f q
  unlinked : ∀ row ∈ s.store.rows, sequence < row.id →
    (∀ i f p, (i, f) ∈ done → created[i]? = some p → p.id ≠ row.id) → row.udpFallback = none

/-- The row the turn links to is there after the turn. -/
theorem linkTarget_mem {listed : List Profile} {s : Importing} {done : List (Nat × Profile)}
    {created : List Profile} {sequence : Int} (h : Looped replaced listed created sequence done s)
    (f : Profile) : ∃ q ∈ s.store.rows ++ fallbackRows replaced listed s.store f,
      linkTarget listed s.store f = q.id ∧ IsLinkOf listed f q := by
  rw [linkTarget, fallbackRows]
  cases hfind : listed.find? (isMatch f) with
  | some p =>
    have hmatch := List.find?_some hfind
    have hmem := List.mem_of_find?_eq_some hfind
    obtain ⟨hkey, hplugin⟩ := (isMatch_iff f p).mp hmatch
    obtain ⟨row, hrow, hsame⟩ := h.listed_mem p hmem
    refine ⟨row, List.mem_append_left _ hrow, (id_of_unlinked hsame).symm, ?_⟩
    rw [IsLinkOf, if_pos (List.any_eq_true.mpr ⟨p, hmem, hmatch⟩), key_of_unlinked hsame,
      plugin_of_unlinked hsame]
    exact ⟨hkey.symm, hplugin⟩
  | none =>
    have hany : ¬listed.any (isMatch f) = true := by
      rw [List.any_eq_true]
      rintro ⟨p, hp, hmatch⟩
      exact List.find?_eq_none.mp hfind p hp hmatch
    obtain ⟨hkey, hplugin, -⟩ := newRow_same replaced s.store f
    refine ⟨newRow replaced s.store f, List.mem_append_right _ List.mem_cons_self, rfl, hkey, ?_⟩
    rw [if_neg hany]
    exact hplugin

/-- The row of a fallback comes last and is not linked. -/
theorem mem_fallbackRows {listed : List Profile} {store : ProfileStore} {f r : Profile}
    (hf : f.udpFallback = none) (h : r ∈ fallbackRows replaced listed store f) :
    r.id = store.sequence + 1 ∧ r.udpFallback = none := by
  rw [fallbackRows] at h
  split at h
  · simp at h
  · rw [List.mem_singleton.mp h]
    exact ⟨rfl, (newRow_same replaced store f).2.2.trans hf⟩

/-- **One turn of the loop.** -/
theorem Looped.turn {listed created : List Profile} {sequence : Int} {done : List (Nat × Profile)}
    {s : Importing} (h : Looped replaced listed created sequence done s)
    (hids : (created.map Profile.id).Nodup) (hle : ∀ p ∈ created, p.id ≤ s.store.sequence)
    {i : Nat} {f profile : Profile} (hf : f.udpFallback = none) (hget : created[i]? = some profile)
    (hnew : i ∉ done.map Prod.fst) :
    ∃ s', linkFallback replaced listed s profile f = (s', none) ∧
      s.store.sequence ≤ s'.store.sequence ∧
      Looped replaced listed created sequence (done ++ [(i, f)]) s' := by
  obtain ⟨row, hrow, hsame⟩ := h.created_mem profile (List.mem_of_getElem? hget)
  obtain ⟨s', hs', hready, hsequence, hrows⟩ := linkFallback_relink listed f h.ready hrow hsame
  have hkept : ∀ r ∈ s.store.rows ++ fallbackRows replaced listed s.store f,
      ∃ r' ∈ s'.store.rows, r'.unlinked = r.unlinked := by
    intro r hr
    rw [hrows]
    exact relink_mem _ _ hr
  have hrise : s.store.sequence ≤ s'.store.sequence := by omega
  refine ⟨s', hs', hrise, hready, ?_, ?_, ?_, ?_⟩
  · intro q hq
    rw [hrows]
    exact relink_keeps _ _ _ (h.listed_mem q hq)
  · intro p hp
    rw [hrows]
    exact relink_keeps _ _ _ (h.created_mem p hp)
  · intro j g p hmem hp row' hrow' hid
    rw [hrows] at hrow'
    obtain ⟨r, hr, hrr, hlink⟩ := mem_relink hrow'
    have hrid : r.id = p.id := (id_of_unlinked hrr).symm.trans hid
    have hp_mem := List.mem_of_getElem? hp
    rcases List.mem_append.mp hmem with hmem | hmem
    · -- a row that was linked before is not the one of this turn
      have hne : r.id ≠ profile.id := by
        intro heq
        have hij : i = j := by
          have hlt : i < (created.map Profile.id).length := by
            rw [List.length_map]
            exact (List.getElem?_eq_some_iff.mp hget).1
          refine (List.getElem?_inj hlt hids).mp ?_
          rw [List.getElem?_map, List.getElem?_map, hget, hp, Option.map_some, Option.map_some,
            ← heq, hrid]
        rw [hij] at hnew
        exact hnew (List.mem_map_of_mem hmem)
      rw [if_neg hne] at hlink
      have hr_old : r ∈ s.store.rows := by
        rcases List.mem_append.mp hr with hr | hr
        · exact hr
        · have := (mem_fallbackRows hf hr).1
          have := hle p hp_mem
          omega
      obtain ⟨q, hq, hqlink, hlinkOf⟩ := h.linked j g p hmem hp r hr_old hrid
      obtain ⟨q', hq', hqq⟩ := hkept q (List.mem_append_left _ hq)
      refine ⟨q', hq', ?_, hlinkOf.congr hqq⟩
      rw [hlink, hqlink, id_of_unlinked hqq]
    · obtain ⟨rfl, rfl⟩ := Prod.mk.inj (List.mem_singleton.mp hmem)
      obtain rfl : p = profile := Option.some.inj (hp.symm.trans hget)
      rw [if_pos hrid] at hlink
      obtain ⟨q, hq, htarget, hlinkOf⟩ := linkTarget_mem h g
      obtain ⟨q', hq', hqq⟩ := hkept q hq
      refine ⟨q', hq', ?_, hlinkOf.congr hqq⟩
      rw [hlink, htarget, id_of_unlinked hqq]
  · intro row' hrow' hlt hnone
    rw [hrows] at hrow'
    obtain ⟨r, hr, hrr, hlink⟩ := mem_relink hrow'
    have hrid : r.id = row'.id := (id_of_unlinked hrr).symm
    have hne : r.id ≠ profile.id := by
      rw [hrid]
      exact (hnone i f profile (List.mem_append_right _ List.mem_cons_self) hget).symm
    rw [hlink, if_neg hne]
    rcases List.mem_append.mp hr with hr | hr
    · refine h.unlinked r hr (by rw [hrid]; exact hlt) ?_
      intro j g p hmem hp
      rw [hrid]
      exact hnone j g p (List.mem_append_left _ hmem) hp
    · exact (mem_fallbackRows hf hr).2

/-- **The loop**, over fallbacks that stand under the places of created profiles. -/
theorem Looped.loop {listed created : List Profile} {sequence : Int}
    (hids : (created.map Profile.id).Nodup) (es : List (Nat × Profile)) :
    ∀ (done : List (Nat × Profile)) (s : Importing),
    Looped replaced listed created sequence done s → (∀ p ∈ created, p.id ≤ s.store.sequence) →
    ((done ++ es).map Prod.fst).Nodup → (∀ e ∈ es, e.1 < created.length) →
    (∀ e ∈ es, e.2.udpFallback = none) →
    ∃ s', linkFallbacks replaced listed created s es = (s', none) ∧
      Looped replaced listed created sequence (done ++ es) s' := by
  induction es with
  | nil =>
    intro done s h _ _ _ _
    exact ⟨s, rfl, by rw [List.append_nil]; exact h⟩
  | cons e es ih =>
    intro done s h hle hnodup hlt hnull
    obtain ⟨i, f⟩ := e
    have hget : created[i]? = some (created.get ⟨i, hlt (i, f) List.mem_cons_self⟩) :=
      List.getElem?_eq_getElem _
    have hassoc : done ++ (i, f) :: es = (done ++ [(i, f)]) ++ es := by simp
    have hnew : i ∉ done.map Prod.fst := by
      rw [List.map_append, List.nodup_append] at hnodup
      intro hmem
      exact hnodup.2.2 i hmem i List.mem_cons_self rfl
    obtain ⟨s₁, hs₁, hrise, h₁⟩ := h.turn hids hle (hnull (i, f) List.mem_cons_self) hget hnew
    obtain ⟨s', hs', h'⟩ := ih (done ++ [(i, f)]) s₁ h₁ (fun p hp => (hle p hp).trans hrise)
      (by rw [← hassoc]; exact hnodup) (fun e he => hlt e (List.mem_cons_of_mem _ he))
      (fun e he => hnull e (List.mem_cons_of_mem _ he))
    refine ⟨s', ?_, by rw [hassoc]; exact h'⟩
    rw [linkFallbacks, hget]
    simp only [hs₁]
    exact hs'

/-! ### A document -/

theorem base_sequence (s : Importing) : (s.base replaced).sequence = s.store.sequence := by
  cases replaced with
  | none => rfl
  | some profiles =>
    show s.target.sequence = _
    rw [Importing.target]
    split <;> rfl

section Document

variable (gson : Gson) (σ : IterationOrder Text (Option Text)) (feature : Option Profile)

/-- What an import of a document that was read as `rs` leaves behind. -/
structure Outcome (replaced : Option (LinkedMap Text Profile)) (s : Importing)
    (rs : List (Profile × Option Profile)) (parser : JsonParser) (listed created : List Profile) (s' : Importing) : Prop where
  read : Read parser rs
  /-- The fallbacks are looked up among what was kept and the profiles. -/
  listed_any : ∀ f, listed.any (isMatch f) = true ↔
    ∃ q ∈ (s.base replaced).rows ++ rs.map Prod.fst, isMatch f q = true
  stored : Stored s.store.sequence (rs.map Prod.fst) created
  looped : Looped replaced listed created s.store.sequence parser.fallbackMap.entries s'

/-- A fallback is matched by a row that was kept or by a profile. -/
theorem any_isMatch_iff {kept created ps listed : List Profile} {sequence : Int}
    (hstored : Stored sequence ps created) (hlisted : listed.Perm (kept ++ created)) (f : Profile) :
    listed.any (isMatch f) = true ↔ ∃ q ∈ kept ++ ps, isMatch f q = true := by
  rw [hlisted.any_eq, List.any_eq_true]
  constructor
  · rintro ⟨q, hq, hmatch⟩
    rcases List.mem_append.mp hq with hq | hq
    · exact ⟨q, List.mem_append_left _ hq, hmatch⟩
    · obtain ⟨p, hp, -, -, hkey, hplugin, -⟩ := hstored.of_row hq
      exact ⟨p, List.mem_append_right _ hp, by rw [← isMatch_congr f hkey hplugin]; exact hmatch⟩
  · rintro ⟨q, hq, hmatch⟩
    rcases List.mem_append.mp hq with hq | hq
    · exact ⟨q, List.mem_append_left _ hq, hmatch⟩
    · obtain ⟨r, hr, hkey, hplugin⟩ := hstored.of_profile hq
      exact ⟨r, List.mem_append_right _ hr, by rw [isMatch_congr f hkey hplugin]; exact hmatch⟩

/-- **Importing a document that can be read.** -/
theorem parseJson_outcome (replaced : Option (LinkedMap Text Profile)) (s : Importing) (json : Json)
    {rs : List (Profile × Option Profile)}
    (hread : ReadAs gson σ feature (profileObjects gson json) rs) (hne : rs ≠ []) :
    ∃ parser listed created s', parseJson gson σ feature replaced s json = (s', none) ∧
      Outcome replaced s rs parser listed created s' := by
  obtain ⟨parser, hok, hparser⟩ := addObjects_read gson σ feature hread empty [] read_empty
  rw [List.nil_append] at hparser
  have hprofiles : parser.profiles ≠ [] := by
    rw [hparser.profiles]
    simpa using hne
  obtain ⟨hrows, -, hstored, hready⟩ := createAll_stored replaced parser.profiles s
  rcases hcreate : createAll replaced s parser.profiles with ⟨s₁, created⟩
  rw [hcreate] at hrows hstored hready
  have hready := hready hprofiles
  rw [hready.base_eq] at hrows
  rw [base_sequence] at hstored
  have hlisted : s₁.store.list.Perm ((s.base replaced).rows ++ created) := by
    rw [← hrows]
    exact List.mergeSort_perm _ _
  have hmem : ∀ p ∈ created, p ∈ s₁.store.rows := by
    intro p hp
    rw [hrows]
    exact List.mem_append_right _ hp
  have hids : (created.map Profile.id).Nodup := by
    have hall := s₁.store.nodup
    rw [hrows, List.map_append] at hall
    exact (List.nodup_append.mp hall).2.1
  have hstart : Looped replaced s₁.store.list created s.store.sequence [] s₁ := by
    refine ⟨hready, ?_, fun p hp => ⟨p, hmem p hp, rfl⟩, ?_, ?_⟩
    · intro q hq
      exact ⟨q, (List.mergeSort_perm _ _).mem_iff.mp hq, rfl⟩
    · intro i f p hdone
      simp at hdone
    · intro row hrow hlt _
      rw [hrows] at hrow
      rcases List.mem_append.mp hrow with hrow | hrow
      · have hle := (s.base replaced).le_sequence row hrow
        rw [base_sequence] at hle
        omega
      · obtain ⟨p, hp, -, -, -, -, hnull⟩ := hstored.of_row hrow
        rw [hparser.profiles] at hp
        obtain ⟨⟨p, f⟩, he, rfl⟩ := List.mem_map.mp hp
        exact hnull.trans (hread.unlinked gson σ feature he).1
  have hnull : ∀ e ∈ parser.fallbackMap.entries, e.2.udpFallback = none := by
    intro e he
    obtain ⟨p, hp⟩ := hparser.value e he
    exact (hread.unlinked gson σ feature hp).2 e.2 rfl
  have hplaces : ∀ e ∈ parser.fallbackMap.entries, e.1 < created.length := by
    intro e he
    rw [hstored.length_eq]
    exact hparser.place_lt (List.mem_map_of_mem he)
  obtain ⟨s', hs', hlooped⟩ := Looped.loop hids parser.fallbackMap.entries [] s₁ hstart
    (fun p hp => s₁.store.le_sequence p (hmem p hp)) parser.fallbackMap.nodup hplaces hnull
  refine ⟨parser, s₁.store.list, created, s', ?_, hparser, ?_, ?_, hlooped⟩
  · rw [parseJson, process_eq, hok]
    simp only [hcreate]
    exact hs'
  · rw [← hparser.profiles]
    exact any_isMatch_iff hstored hlisted
  · rw [← hparser.profiles]
    exact hstored

/-- The row of the profile at a place. -/
theorem Outcome.row {s s' : Importing} {rs : List (Profile × Option Profile)} {parser : JsonParser}
    {listed created : List Profile} (h : Outcome replaced s rs parser listed created s') {i : Nat}
    {p : Profile} {f : Option Profile} (hr : rs[i]? = some (p, f)) :
    ∃ c, created[i]? = some c ∧ c.id = s.store.sequence + 1 + i ∧ c.key = p.key := by
  obtain ⟨c, hget, hid, hkey, -⟩ := h.stored.row i p (by rw [List.getElem?_map, hr]; rfl)
  exact ⟨c, hget, hid, hkey⟩

/-- A row that no place of the map belongs to is not linked. -/
theorem Outcome.unlinked_row {s s' : Importing} {rs : List (Profile × Option Profile)}
    {parser : JsonParser} {listed created : List Profile}
    (h : Outcome replaced s rs parser listed created s') {row : Profile}
    (hrow : row ∈ s'.store.rows) {n : Nat} (hid : row.id = s.store.sequence + 1 + n)
    (hn : n ∉ parser.fallbackMap.entries.map Prod.fst) : row.udpFallback = none := by
  refine h.looped.unlinked row hrow (by omega) ?_
  intro k f c hmem hget heq
  have hk := List.mem_map_of_mem (f := Prod.fst) hmem
  obtain ⟨p, g, hr, -⟩ := h.read.place k hk
  obtain ⟨c', hget', hid', -⟩ := h.row hr
  rw [hget] at hget'
  obtain rfl := Option.some.inj hget'
  have hkn : k = n := by omega
  rw [← hkn] at hn
  exact hn hk

/-- The row of a profile that has its own place. -/
theorem Outcome.linked_row {s s' : Importing} {rs : List (Profile × Option Profile)}
    {parser : JsonParser} {listed created : List Profile}
    (h : Outcome replaced s rs parser listed created s') {row p f : Profile}
    (hrow : row ∈ s'.store.rows) {i : Nat} (hid : row.id = s.store.sequence + 1 + i)
    (hr : rs[i]? = some (p, some f)) (hf : (i, f) ∈ parser.fallbackMap.entries) :
    ∃ q ∈ s'.store.rows, row.udpFallback = some q.id ∧ IsLinkOf listed f q := by
  obtain ⟨c, hget, hcid, -⟩ := h.row hr
  exact h.looped.linked i f c hf hget row hrow (by omega)

/-- What the object of a place was read as. -/
theorem readAs_object {objects : List (List (String × Json))}
    {rs : List (Profile × Option Profile)} (hread : ReadAs gson σ feature objects rs) (i : Nat) :
    (∀ o, objects[i]? = some o → ∃ r, rs[i]? = some r ∧
        tryParse gson σ feature o = .ok (some r)) ∧
      ∀ r, rs[i]? = some r → ∃ o, objects[i]? = some o ∧
        tryParse gson σ feature o = .ok (some r) := by
  induction hread generalizing i with
  | nil => simp
  | @cons o r os rs hr _ ih =>
    cases i with
    | zero =>
      constructor
      · rintro o' ho'
        obtain rfl := Option.some.inj ho'
        exact ⟨r, rfl, hr⟩
      · rintro r' hr'
        obtain rfl := Option.some.inj hr'
        exact ⟨o, rfl, hr⟩
    | succ i => exact ih i

/-- What the link of an object's row should be, from what the object was read as. -/
theorem isLinked_iff {json : Json} {o : List (String × Json)} {p : Profile} {f : Option Profile}
    (ho : o ∈ profileObjects gson json) (hparse : tryParse gson σ feature o = .ok (some (p, f)))
    (rows : List Profile) (row : Profile) :
    address gson o = some p.key ∧ (IsLinked gson rows o row ↔
      match f with
      | none => row.udpFallback = none
      | some f => ∃ q ∈ rows, row.udpFallback = some q.id ∧ q.key = f.key ∧
          Profile.isNullOrEmpty q.plugin = true) := by
  obtain ⟨p', f', heq, haddress, -, hkey, -⟩ := tryParse_some gson σ feature hparse
    (address_of_mem_profileObjects gson json o ho)
  obtain ⟨rfl, rfl⟩ := Prod.mk.inj (Option.some.inj heq)
  refine ⟨haddress, ?_⟩
  rw [IsLinked, ← hkey]
  cases f <;> rfl

/-- **When the profiles of a document are linked as it asks for.** -/
theorem Outcome.allLinked_iff {json : Json} {s s' : Importing}
    {rs : List (Profile × Option Profile)} {parser : JsonParser} {listed created : List Profile}
    (h : Outcome replaced s rs parser listed created s')
    (hread : ReadAs gson σ feature (profileObjects gson json) rs) :
    AllLinked gson (profileObjects gson json) s.store.sequence s'.store.rows ↔
      FallbacksApart rs ∧ FallbacksPlain (s.base replaced).rows rs := by
  -- every place has an object and a row
  have hplace : ∀ {i : Nat} {p : Profile} {f : Option Profile}, rs[i]? = some (p, f) →
      ∃ o, (profileObjects gson json)[i]? = some o ∧
        tryParse gson σ feature o = .ok (some (p, f)) ∧
        ∃ row ∈ s'.store.rows, row.id = s.store.sequence + 1 + i := by
    intro i p f hr
    obtain ⟨o, ho, hparse⟩ := (readAs_object gson σ feature hread i).2 _ hr
    obtain ⟨c, hget, hid, -⟩ := h.row hr
    obtain ⟨row, hrow, hsame⟩ := h.looped.created_mem c (List.mem_of_getElem? hget)
    exact ⟨o, ho, hparse, row, hrow, (id_of_unlinked hsame).trans hid⟩
  constructor
  · intro hall
    have hlink : ∀ {i : Nat} {p f : Profile}, rs[i]? = some (p, some f) →
        ∃ row ∈ s'.store.rows, row.id = s.store.sequence + 1 + i ∧
          ∃ q ∈ s'.store.rows, row.udpFallback = some q.id ∧ q.key = f.key ∧
            Profile.isNullOrEmpty q.plugin = true := by
      intro i p f hr
      obtain ⟨o, ho, hparse, row, hrow, hid⟩ := hplace hr
      exact ⟨row, hrow, hid, (isLinked_iff gson σ feature (List.mem_of_getElem? ho) hparse _ row).2.mp
        (hall.1 i o ho row hrow hid)⟩
    -- of two equal profiles the second has no place
    have hfirst : ∀ (i j : Nat) (p f g : Profile), rs[i]? = some (p, some f) →
        rs[j]? = some (p, some g) → ¬i < j := by
      intro i j p f g hi hj hlt
      obtain ⟨row, hrow, hid, q, -, hq, -⟩ := hlink hj
      have hno : j ∉ parser.fallbackMap.entries.map Prod.fst := by
        intro hmem
        obtain ⟨p', f', hr, hothers⟩ := h.read.place j hmem
        rw [hj] at hr
        obtain ⟨rfl, -⟩ := Prod.mk.inj (Option.some.inj hr)
        exact hothers i hlt f hi
      rw [h.unlinked_row hrow hid hno] at hq
      cases hq
    have hapart : FallbacksApart rs := by
      intro i j p f g hi hj
      have := hfirst i j p f g hi hj
      have := hfirst j i p g f hj hi
      omega
    refine ⟨hapart, ?_⟩
    intro p f hmem
    obtain ⟨i, hi⟩ := List.mem_iff_getElem?.mp hmem
    obtain ⟨row, hrow, hid, q, hq, hlinked, -, hplugin⟩ := hlink hi
    have hentry := h.read.alone i p f hi fun j g hj => hapart j i p g f hj hi
    obtain ⟨q', hq', hlinked', -, hplugin'⟩ := h.linked_row hrow hid hi hentry
    have hqq : q = q' := by
      refine List.inj_on_of_nodup_map s'.store.nodup hq hq' ?_
      rw [hlinked] at hlinked'
      exact Option.some.inj hlinked'
    split at hplugin'
    · rename_i hany
      exact Or.inr ((h.listed_any f).mp hany)
    · rw [← hplugin', ← hqq]
      exact Or.inl hplugin
  · rintro ⟨hapart, hplain⟩
    constructor
    · intro i o ho row hrow hid
      obtain ⟨⟨p, f⟩, hr, hparse⟩ := (readAs_object gson σ feature hread i).1 o ho
      refine (isLinked_iff gson σ feature (List.mem_of_getElem? ho) hparse _ row).2.mpr ?_
      cases f with
      | none =>
        refine h.unlinked_row hrow hid ?_
        intro hmem
        obtain ⟨p', f', hr', -⟩ := h.read.place i hmem
        rw [hr] at hr'
        simp at hr'
      | some f =>
        have hentry := h.read.alone i p f hr fun j g hj => hapart j i p g f hj hr
        obtain ⟨q, hq, hlinked, hkey, hplugin⟩ := h.linked_row hrow hid hr hentry
        refine ⟨q, hq, hlinked, hkey, ?_⟩
        split at hplugin
        · exact hplugin
        · rename_i hany
          rw [hplugin]
          rcases hplain p f (List.mem_of_getElem? hr) with hnull | hmatch
          · exact hnull
          · exact absurd ((h.listed_any f).mpr hmatch) hany
    · intro row hrow hlt
      have hlength := List.Forall₂.length_eq hread
      obtain ⟨n, hn⟩ : ∃ n : Nat, row.id = s.store.sequence + 1 + n :=
        ⟨(row.id - s.store.sequence - 1).toNat, by omega⟩
      refine h.unlinked_row hrow hn ?_
      intro hmem
      have hplaced := h.read.place_lt hmem
      rw [h.read.profiles, List.length_map] at hplaced
      omega

/-- No row has an id that was not handed out. -/
theorem allLinked_of_nothing_created (objects : List (List (String × Json)))
    (store : ProfileStore) : AllLinked gson objects store.sequence store.rows := by
  constructor
  · intro i o _ row hrow hid
    have := store.le_sequence row hrow
    omega
  · intro row hrow hlt
    have := store.le_sequence row hrow
    omega

/-- **The fallbacks of an imported document.**  A document that can be read is stored, profile by
profile.  Its profiles are linked as their objects ask for exactly when no two equal ones have a
fallback, and no fallback that has to be created has a plugin. -/
theorem parseJson_allLinked_iff (replaced : Option (LinkedMap Text Profile)) (s : Importing)
    (json : Json) :
    let objects := profileObjects gson json
    let result := parseJson gson σ feature replaced s json
    (∀ rs, ReadAs gson σ feature objects rs → result.2 = none ∧
      ∀ (i : Nat) o, objects[i]? = some o → ∃ row ∈ result.1.store.rows,
        row.id = s.store.sequence + 1 + i ∧ address gson o = some row.key) ∧
    (AllLinked gson objects s.store.sequence result.1.store.rows ↔
      ∀ rs, ReadAs gson σ feature objects rs →
        FallbacksApart rs ∧ FallbacksPlain (s.base replaced).rows rs) := by
  intro objects result
  have hstored : ∀ rs, ReadAs gson σ feature objects rs → result.2 = none ∧
      (∀ (i : Nat) o, objects[i]? = some o → ∃ row ∈ result.1.store.rows,
        row.id = s.store.sequence + 1 + i ∧ address gson o = some row.key) ∧
      (AllLinked gson objects s.store.sequence result.1.store.rows ↔
        FallbacksApart rs ∧ FallbacksPlain (s.base replaced).rows rs) := by
    intro rs hread
    by_cases hne : rs = []
    · rw [hne] at hread
      have hobjects : objects = [] := List.forall₂_nil_right_iff.mp hread
      have hs : result = (s, none) := by
        show parseJson gson σ feature replaced s json = _
        rw [parseJson, process_eq, show profileObjects gson json = [] from hobjects]
        rfl
      rw [hs, hobjects, hne]
      refine ⟨rfl, by simp, iff_of_true (allLinked_of_nothing_created gson [] s.store) ?_⟩
      exact ⟨by simp [FallbacksApart], by simp [FallbacksPlain]⟩
    · obtain ⟨parser, listed, created, s', hresult, h⟩ :=
        parseJson_outcome gson σ feature replaced s json hread hne
      have hs' : result = (s', none) := hresult
      rw [hs']
      refine ⟨rfl, ?_, h.allLinked_iff gson σ feature hread⟩
      intro i o ho
      obtain ⟨⟨p, f⟩, hr, hparse⟩ := (readAs_object gson σ feature hread i).1 o ho
      obtain ⟨c, hget, hid, hkey⟩ := h.row hr
      obtain ⟨row, hrow, hsame⟩ := h.looped.created_mem c (List.mem_of_getElem? hget)
      refine ⟨row, hrow, (id_of_unlinked hsame).trans hid, ?_⟩
      rw [key_of_unlinked hsame, hkey]
      exact (isLinked_iff gson σ feature (List.mem_of_getElem? ho) hparse [] row).1
  refine ⟨fun rs hread => ⟨(hstored rs hread).1, (hstored rs hread).2.1⟩, ?_⟩
  rcases process_cases gson σ feature json with ⟨e, herror, hunread⟩ | ⟨parser, rs, -, hread, -⟩
  · have hs : result = (s, some e) := by
      show parseJson gson σ feature replaced s json = _
      rw [parseJson, herror]
    rw [hs]
    exact iff_of_true (allLinked_of_nothing_created gson objects s.store)
      fun rs hread => absurd hread (hunread rs)
  · exact ⟨fun hall rs' hread' => (hstored rs' hread').2.2.mp hall,
      fun hcond => (hstored rs hread).2.2.mpr (hcond rs hread)⟩

end Document

/-- Two equal objects with the same fallback. -/
def equalObjects : Json :=
  let address (host : Text) : List (String × Json) :=
    [("server", .str host), ("server_port", .num ['8', '0']), ("password", .str ['p']),
      ("method", .str ['m'])]
  let object : Json := .obj (address ['a'] ++ [("udp_fallback", .obj (address ['b']))])
  .arr [object, object]

/-- The second of two equal profiles is left without its fallback. -/
theorem equal_profile_unlinked :
    ¬AllLinked Gson.plain (profileObjects Gson.plain equalObjects) 0
      (parseJson Gson.plain (IterationOrder.stored _ _) none none
        ⟨⟨[], 0, List.nodup_nil, by simp⟩, false⟩ equalObjects).1.store.rows := by
  intro hall
  let profile (host : Text) : Profile :=
    { host := host, remotePort := 80, password := ['p'], method := ['m'], name := none }
  have hread : ReadAs Gson.plain (IterationOrder.stored _ _) none
      (profileObjects Gson.plain equalObjects)
      [(profile ['a'], some (profile ['b'])), (profile ['a'], some (profile ['b']))] :=
    List.Forall₂.cons rfl (List.Forall₂.cons rfl List.Forall₂.nil)
  obtain ⟨parser, listed, created, s', hresult, h⟩ := parseJson_outcome Gson.plain
    (IterationOrder.stored _ _) none none ⟨⟨[], 0, List.nodup_nil, by simp⟩, false⟩ equalObjects
    hread (by simp)
  rw [hresult] at hall
  have hapart := ((h.allLinked_iff Gson.plain _ none hread).mp hall).1
  exact absurd (hapart 0 1 _ _ _ rfl rfl) (by decide)

end ProfileManager

end SsAndroid
