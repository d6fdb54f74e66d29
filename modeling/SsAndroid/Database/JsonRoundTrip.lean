import SsAndroid.Database.ImportRun

/-!
# Exporting profiles and importing them again

`Restored` is what an export is good for: importing it, on a device with any profiles, leaves one
copy per exported profile, in order, with the same settings and with links between the copies where
there were links between the originals.

**`restored_iff`** says exactly when it is so.  Four things get lost on the way (`Survives`): the app
list of a profile (it is looked for outside of `proxy_apps`) unless the feature profile happens to
have the same one; a link to a profile whose plugin string holds plugins but selects none; options
with control characters, which an old-format line may hold; and a plugin whose id starts like a line
of the old format.  Besides, importing an empty list does not clear the store.
-/

namespace SsAndroid

open PluginConfiguration ProfileManager

/-! ### The contract -/

/-- The plugin string has an empty first line, or is empty. -/
def Profile.NoPluginSelected (p : Profile) : Prop :=
  ∃ c, p.configuration = .ok c ∧ c.selected = []

/-- The copy `q` has the settings of `p`. -/
structure Profile.SameSettings (defaultConfig : Text → Option Text) (p q : Profile) : Prop where
  host : q.host = p.host
  remotePort : q.remotePort = p.remotePort
  password : q.password = p.password
  method : q.method = p.method
  name : q.name = p.name
  route : q.route = p.route
  remoteDns : q.remoteDns = p.remoteDns
  ipv6 : q.ipv6 = p.ipv6
  metered : q.metered = p.metered
  proxyApps : q.proxyApps = p.proxyApps
  udpdns : q.udpdns = p.udpdns
  plugin : Agree (p.selectedOptions defaultConfig) (q.selectedOptions defaultConfig)
  bypass : p.proxyApps = true → q.bypass = p.bypass
  individual : p.proxyApps = true → q.individual = p.individual

/-- One copy per exported profile, in order, with its settings; a link to a listed profile without a
selected plugin is a link to the copy of that profile. -/
structure Restored (defaultConfig : Text → Option Text) (exported listed : List Profile) : Prop where
  length : listed.length = exported.length
  settings : ∀ (i : Nat) (p q : Profile), exported[i]? = some p → listed[i]? = some q →
    p.SameSettings defaultConfig q
  fallback : ∀ (i j : Nat) (p q t u : Profile), exported[i]? = some p → listed[i]? = some q →
    exported[j]? = some t → listed[j]? = some u →
    p.udpFallback = some t.id → t.NoPluginSelected → q.udpFallback = some u.id

/-- What a profile among the exported ones must be like to be restored. -/
structure Survives (defaultConfig : Text → Option Text) (feature : Option Profile)
    (exported : List Profile) (p : Profile) : Prop where
  individual : p.proxyApps = true → p.individual = (feature.map Profile.individual).getD []
  fallback : ∀ t ∈ exported, p.udpFallback = some t.id → t.NoPluginSelected →
    Profile.isNullOrEmpty t.plugin = true
  controlFree : ∀ o, p.selectedOptions defaultConfig = .ok o → PluginOptions.ControlFree o
  id : ∀ o, p.selectedOptions defaultConfig = .ok o → kcptunPrefix.isPrefixOf o.id = false

/-! ### The exported list -/

/-- The options of the selected plugin, once they are known to be readable. -/
def Profile.options (defaultConfig : Text → Option Text) (p : Profile) : PluginOptions :=
  match p.selectedOptions defaultConfig with
  | .ok o => o
  | .error _ => PluginOptions.empty

section Export

variable {σ : IterationOrder Text (Option Text)} {defaultConfig : Text → Option Text}

theorem Profile.options_eq {p : Profile} {o : PluginOptions}
    (h : p.selectedOptions defaultConfig = .ok o) : p.options defaultConfig = o := by
  rw [Profile.options, h]

/-- What is known of the options of a profile that can be exported. -/
theorem Profile.selectedOptions_spec {p : Profile} {o : PluginOptions}
    (h : p.selectedOptions defaultConfig = .ok o) :
    Named o ∧ (o.id = [] → o = PluginOptions.empty) := by
  rw [Profile.selectedOptions] at h
  split at h
  · rename_i c hc
    obtain ⟨o', ho', -, hnamed, hempty⟩ := selectedOptions_ofText hc defaultConfig
    obtain rfl : o' = o := Except.ok.inj (ho'.symm.trans h)
    exact ⟨hnamed, hempty⟩
  · simp at h

theorem Profile.selectedOptions_null {p : Profile} (h : Profile.isNullOrEmpty p.plugin = true) :
    p.selectedOptions defaultConfig = .ok PluginOptions.empty := by
  have hconf : p.configuration = ofText [] := by
    rw [Profile.configuration]
    rcases Bool.or_eq_true _ _ ▸ h with h | h <;> rw [of_decide_eq_true h] <;> rfl
  rw [Profile.selectedOptions, hconf]
  rfl

/-- What is written for a profile. -/
def exportedEntries (σ : IterationOrder Text (Option Text)) (defaultConfig : Text → Option Text)
    (profiles : Int → Option Profile) (p : Profile) : List (String × Json) :=
  (p.settingsJson σ profiles (p.options defaultConfig)).entries

theorem toJsons_eq {profiles : Int → Option Profile} {ps : List Profile} :
    ∀ {jsons : List Json}, toJsons σ defaultConfig profiles ps = .ok jsons →
      (∀ p ∈ ps, ∃ o, p.selectedOptions defaultConfig = .ok o) ∧
      jsons = ps.map fun p => .obj (exportedEntries σ defaultConfig profiles p) := by
  induction ps with
  | nil =>
    intro jsons h
    obtain rfl : [] = jsons := Except.ok.inj h
    simp
  | cons p ps ih =>
    intro jsons h
    rw [toJsons, Profile.toJson] at h
    cases ho : p.selectedOptions defaultConfig with
    | error e => rw [ho] at h; simp [Except.map] at h
    | ok o =>
      cases hrest : toJsons σ defaultConfig profiles ps with
      | error e => rw [ho, hrest] at h; simp [Except.map] at h
      | ok rest =>
        rw [ho, hrest] at h
        obtain ⟨hok, hmap⟩ := ih hrest
        refine ⟨?_, ?_⟩
        · intro q hq
          rcases List.mem_cons.mp hq with rfl | hq
          · exact ⟨o, ho⟩
          · exact hok q hq
        · rw [← Except.ok.inj h, hmap, List.map_cons, exportedEntries, Profile.options_eq ho]
          rfl

theorem serializeToJson_eq {exported : List Profile} {json : Json}
    (h : serializeToJson σ defaultConfig exported = .ok json) :
    (∀ p ∈ exported, ∃ o, p.selectedOptions defaultConfig = .ok o) ∧
      json = .arr (exported.map fun p =>
        .obj (exportedEntries σ defaultConfig (lookup exported).get? p)) := by
  rw [serializeToJson] at h
  cases hj : toJsons σ defaultConfig (lookup exported).get? exported with
  | error e => rw [hj] at h; simp [Except.map] at h
  | ok jsons =>
    rw [hj] at h
    obtain ⟨hok, hmap⟩ := toJsons_eq hj
    exact ⟨hok, by rw [← hmap]; exact (Except.ok.inj h).symm⟩

end Export

/-! ### Links -/

section Links

variable {exported : List Profile}

theorem lookup_get? (hids : (exported.map Profile.id).Nodup) {t : Profile} (ht : t ∈ exported) :
    (lookup exported).get? t.id = some t := by
  refine LinkedMap.get?_putAll_of_mem _ _ _ ?_ _ (List.mem_map.mpr ⟨t, ht, rfl⟩)
  rw [List.map_map]
  exact hids

theorem exportedFallback_of_id (hids : (exported.map Profile.id).Nodup) {p t : Profile}
    (ht : t ∈ exported) (hp : p.udpFallback = some t.id) :
    p.exportedFallback (lookup exported).get?
      = if Profile.isNullOrEmpty t.plugin then some t else none := by
  rw [Profile.exportedFallback, hp]
  simp only [lookup_get? hids ht]

theorem exportedFallback_mem {p t : Profile}
    (h : p.exportedFallback (lookup exported).get? = some t) :
    t ∈ exported ∧ Profile.isNullOrEmpty t.plugin = true := by
  rw [Profile.exportedFallback] at h
  split at h
  · simp at h
  · split at h
    · rename_i f hf
      split at h
      · rename_i hnull
        obtain rfl := Option.some.inj h
        have hmem := LinkedMap.mem_ofEntries ((LinkedMap.get?_eq_some_iff _ _ _).mp hf)
        obtain ⟨q, hq, heq⟩ := List.mem_map.mp hmem
        rw [← (Prod.mk.inj heq).2]
        exact ⟨hq, by rw [(Prod.mk.inj heq).2]; exact hnull⟩
      · simp at h
    · simp at h

end Links

/-! ### The import -/

section Import

variable (σ : IterationOrder Text (Option Text)) (defaultConfig : Text → Option Text)
  (feature : Option Profile) (replaced : LinkedMap Text Profile) (sequence : Int)
  (exported : List Profile)

/-- The imported profile, before it is stored. -/
def copyOf (p : Profile) : Profile :=
  imported feature p
    (match importedPlugin σ (p.options defaultConfig) with
    | .ok plugin => plugin
    | .error _ => none)

def fallbackOf (p : Profile) : Option Profile :=
  (p.exportedFallback (lookup exported).get?).map (importedFallback feature)

/-- The row of a copy before the fallbacks are linked. -/
def rowOf (e : Profile × Nat) : Profile :=
  stored replaced sequence (copyOf σ defaultConfig feature e.1, e.2)

def copiedRows : List Profile :=
  exported.zipIdx.map (rowOf σ defaultConfig feature replaced sequence)

/-- The rows after the import. -/
def restoredRows : List Profile :=
  exported.zipIdx.map fun e =>
    linked (copiedRows σ defaultConfig feature replaced sequence exported)
      (rowOf σ defaultConfig feature replaced sequence e) (fallbackOf feature exported e.1)

theorem rowOf_eq (e : Profile × Nat) : ∃ tx rx, rowOf σ defaultConfig feature replaced sequence e =
    { copyOf σ defaultConfig feature e.1 with
      tx := tx, rx := rx, userOrder := e.2, id := sequence + 1 + e.2 } := by
  obtain ⟨tx, rx, h⟩ := withStats_eq replaced (copyOf σ defaultConfig feature e.1)
  exact ⟨tx, rx, by rw [rowOf, stored, h]⟩

theorem rowsOf_copies : rowsOf replaced sequence (exported.map (copyOf σ defaultConfig feature))
    = copiedRows σ defaultConfig feature replaced sequence exported := by
  rw [rowsOf, List.zipIdx_map, List.map_map]
  rfl

theorem list_of_rows {store : ProfileStore} {row : Profile × Nat → Profile} {ps : List Profile}
    (hrow : ∀ e, (row e).userOrder = e.2) (h : store.rows = ps.zipIdx.map row) :
    store.list = store.rows :=
  list_of_orders (by rw [h, orders_of_zipIdx hrow])

variable {σ defaultConfig feature replaced sequence exported}

theorem copyOf_plugin {p : Profile} {plugin : Option Text}
    (h : importedPlugin σ (p.options defaultConfig) = .ok plugin) :
    copyOf σ defaultConfig feature p = imported feature p plugin := by
  rw [copyOf, h]

theorem rowOf_mem {i : Nat} {p : Profile} (h : exported[i]? = some p) :
    rowOf σ defaultConfig feature replaced sequence (p, i)
      ∈ copiedRows σ defaultConfig feature replaced sequence exported :=
  List.mem_map_of_mem (List.mk_mem_zipIdx_iff_getElem?.mpr h)

theorem index_eq_of_key (hkeys : (exported.map Profile.key).Nodup) {i j : Nat} {p q : Profile}
    (hp : exported[i]? = some p) (hq : exported[j]? = some q) (h : p.key = q.key) : i = j := by
  have hi : i < (exported.map Profile.key).length := by
    rw [List.length_map]
    exact (List.getElem?_eq_some_iff.mp hp).1
  refine (List.getElem?_inj hi hkeys).mp ?_
  rw [List.getElem?_map, List.getElem?_map, hp, hq, Option.map_some, Option.map_some, h]

/-- **A fallback is found where its copy is.** -/
theorem find?_isMatch (hkeys : (exported.map Profile.key).Nodup) {j : Nat} {t : Profile}
    (ht : exported[j]? = some t) (hnull : Profile.isNullOrEmpty t.plugin = true) :
    (copiedRows σ defaultConfig feature replaced sequence exported).find?
        (isMatch (importedFallback feature t))
      = some (rowOf σ defaultConfig feature replaced sequence (t, j)) := by
  have hkey : (importedFallback feature t).key = t.key := by
    cases feature <;> rfl
  have hkeyRow : ∀ e, (rowOf σ defaultConfig feature replaced sequence e).key = e.1.key := by
    intro e
    obtain ⟨tx, rx, h⟩ := rowOf_eq σ defaultConfig feature replaced sequence e
    rw [h]
    rfl
  have hmatch : ∀ q : Profile, isMatch (importedFallback feature t) q = true ↔
      t.key = q.key ∧ Profile.isNullOrEmpty q.plugin = true := by
    intro q
    rw [← hkey]
    simp only [isMatch, Profile.key, Bool.and_eq_true, decide_eq_true_eq, Prod.mk.injEq, and_assoc]
  have hplugin : (rowOf σ defaultConfig feature replaced sequence (t, j)).plugin = none := by
    have himp : importedPlugin σ (t.options defaultConfig) = .ok none := by
      rw [Profile.options_eq (Profile.selectedOptions_null hnull)]
      exact importedPlugin_nil σ rfl
    obtain ⟨tx, rx, h⟩ := rowOf_eq σ defaultConfig feature replaced sequence (t, j)
    rw [h, copyOf_plugin himp]
    rfl
  have hself : isMatch (importedFallback feature t)
      (rowOf σ defaultConfig feature replaced sequence (t, j)) = true := by
    rw [hmatch, hkeyRow, hplugin]
    exact ⟨rfl, rfl⟩
  cases hfind : (copiedRows σ defaultConfig feature replaced sequence exported).find?
      (isMatch (importedFallback feature t)) with
  | none => exact absurd hself (List.find?_eq_none.mp hfind _ (rowOf_mem ht))
  | some r =>
    obtain ⟨⟨p, i⟩, hp, rfl⟩ := List.mem_map.mp (List.mem_of_find?_eq_some hfind)
    have hp' : exported[i]? = some p := List.mk_mem_zipIdx_iff_getElem?.mp hp
    have hrow := ((hmatch _).mp (List.find?_some hfind)).1
    rw [hkeyRow] at hrow
    obtain rfl := index_eq_of_key hkeys ht hp' hrow
    obtain rfl : t = p := Option.some.inj (ht.symm.trans hp')
    rfl

theorem restoredRows_getElem? (i : Nat) :
    (restoredRows σ defaultConfig feature replaced sequence exported)[i]?
      = exported[i]?.map fun p =>
          linked (copiedRows σ defaultConfig feature replaced sequence exported)
            (rowOf σ defaultConfig feature replaced sequence (p, i)) (fallbackOf feature exported p) := by
  rw [restoredRows, List.getElem?_map, List.getElem?_zipIdx, Option.map_map, Nat.zero_add]
  rfl

/-- What the parser makes of an exported profile of the list. -/
theorem tryParse_exported (gson : Gson) (hvalid : ∀ p ∈ exported, p.Exportable) {p : Profile}
    (hp : p ∈ exported) :
    JsonParser.tryParse gson σ feature
        (exportedEntries σ defaultConfig (lookup exported).get? p)
      = (importedPlugin σ (p.options defaultConfig)).map fun plugin =>
          some (imported feature p plugin, fallbackOf feature exported p) :=
  JsonParser.tryParse_settingsJson gson σ feature _ p _ (hvalid p hp)
    (fun t ht => hvalid t (exportedFallback_mem ht).1)

variable (feature) in
theorem process_exported (gson : Gson) (hvalid : ∀ p ∈ exported, p.Exportable)
    (hkeys : (exported.map Profile.key).Nodup)
    (hall : ∀ p ∈ exported, ∃ plugin, importedPlugin σ (p.options defaultConfig) = .ok plugin) :
    ∃ s, JsonParser.process gson σ feature JsonParser.empty
        (.arr (exported.map fun p =>
          .obj (exportedEntries σ defaultConfig (lookup exported).get? p))) = .ok s ∧
      JsonParser.Holds (copyOf σ defaultConfig feature) (fallbackOf feature exported) s exported := by
  rw [JsonParser.process]
  have hparse : ∀ p ∈ exported, JsonParser.tryParse gson σ feature
      (exportedEntries σ defaultConfig (lookup exported).get? p)
        = .ok (some (copyOf σ defaultConfig feature p, fallbackOf feature exported p)) := by
    intro p hp
    obtain ⟨plugin, hplugin⟩ := hall p hp
    rw [tryParse_exported gson hvalid hp, hplugin, copyOf_plugin hplugin]
    rfl
  have hcopy : ∀ p, (copyOf σ defaultConfig feature p).key = p.key := fun _ => rfl
  exact JsonParser.processElements_holds gson σ feature hcopy _ exported hparse
    JsonParser.empty [] JsonParser.holds_empty hkeys

variable (feature replaced) in
/-- **An import of exported profiles whose plugins can be read**, as the list it leaves behind. -/
theorem parseJson_exported (gson : Gson) (hvalid : ∀ p ∈ exported, p.Exportable)
    (hkeys : (exported.map Profile.key).Nodup) (hne : exported ≠ [])
    (hall : ∀ p ∈ exported, ∃ plugin, importedPlugin σ (p.options defaultConfig) = .ok plugin)
    (prior : ProfileStore) :
    ∃ s, parseJson gson σ feature (some replaced) ⟨prior, false⟩
        (.arr (exported.map fun p =>
          .obj (exportedEntries σ defaultConfig (lookup exported).get? p))) = (s, none) ∧
      s.store.list = restoredRows σ defaultConfig feature replaced prior.sequence exported := by
  obtain ⟨parser, hparser, hholds⟩ := process_exported feature gson hvalid hkeys hall
  have hstart : Filled replaced prior.sequence ⟨prior, false⟩ [] :=
    ⟨rfl, by show prior.sequence = prior.sequence + ((0 : Nat) : Int); omega⟩
  obtain ⟨hcreated, hcleared, hfilled⟩ := createAll_rows parser.profiles _ _ hstart
  have hne' : parser.profiles ≠ [] := by
    rw [hholds.profiles]
    simpa using hne
  have hrows : (createAll (some replaced) ⟨prior, false⟩ parser.profiles).1.store.rows
      = copiedRows σ defaultConfig feature replaced prior.sequence exported := by
    have h := hfilled.rows
    rw [Importing.target, hcleared hne', if_pos rfl] at h
    rw [h, List.nil_append, hholds.profiles, rowsOf_copies]
  have hcreated' : (createAll (some replaced) ⟨prior, false⟩ parser.profiles).2
      = copiedRows σ defaultConfig feature replaced prior.sequence exported := by
    rw [hcreated, hholds.profiles, ← rowsOf_copies]
    rfl
  have horder : ∀ e, (rowOf σ defaultConfig feature replaced prior.sequence e).userOrder = e.2 :=
    fun _ => rfl
  have hlist := (list_of_rows horder hrows).trans hrows
  have hfind : ∀ p ∈ exported, ∀ f, fallbackOf feature exported p = some f →
      ((copiedRows σ defaultConfig feature replaced prior.sequence exported).find?
        (isMatch f)).isSome = true := by
    intro p _ f hf
    obtain ⟨t, ht, rfl⟩ := Option.map_eq_some_iff.mp hf
    obtain ⟨hmem, hnull⟩ := exportedFallback_mem ht
    obtain ⟨j, hj⟩ := List.mem_iff_getElem?.mp hmem
    rw [find?_isMatch hkeys hj hnull]
    rfl
  have hget : ∀ i p, exported[i]? = some p →
      (copiedRows σ defaultConfig feature replaced prior.sequence exported)[0 + i]?
        = some (rowOf σ defaultConfig feature replaced prior.sequence (p, 0 + i)) := by
    intro i p hp
    rw [Nat.zero_add, copiedRows, List.getElem?_map, List.getElem?_zipIdx, hp, Nat.zero_add]
    rfl
  obtain ⟨s, hs, hfinal⟩ := linkFallbacks_rows (some replaced)
    (rowOf σ defaultConfig feature replaced prior.sequence) (fallbackOf feature exported)
    (copiedRows σ defaultConfig feature replaced prior.sequence exported) exported
    (createAll (some replaced) ⟨prior, false⟩ parser.profiles).1 0 [] hfind hget hrows
  refine ⟨s, ?_, ?_⟩
  · rw [parseJson, hparser]
    simp only [hlist, hcreated', hholds.fallbackMap]
    exact hs
  · have hplaces : ∀ e : Profile × Nat, (linked
        (copiedRows σ defaultConfig feature replaced prior.sequence exported)
        (rowOf σ defaultConfig feature replaced prior.sequence e)
        (fallbackOf feature exported e.1)).userOrder = e.2 := by
      intro e
      cases fallbackOf feature exported e.1 <;> rfl
    exact (list_of_rows hplaces hfinal).trans hfinal

/-- A document with an unreadable plugin is refused as a whole. -/
theorem parseJson_refused (gson : Gson) (hvalid : ∀ p ∈ exported, p.Exportable)
    {p : Profile} (hp : p ∈ exported) {e : Exn}
    (he : importedPlugin σ (p.options defaultConfig) = .error e) (s : Importing)
    (replaced : Option (LinkedMap Text Profile)) :
    ∃ e', parseJson gson σ feature replaced s
        (.arr (exported.map fun p =>
          .obj (exportedEntries σ defaultConfig (lookup exported).get? p))) = (s, some e') := by
  have hobj : ∀ q ∈ exported,
      (∃ e, JsonParser.tryParse gson σ feature
        (exportedEntries σ defaultConfig (lookup exported).get? q) = .error e) ∨
      ∃ r, JsonParser.tryParse gson σ feature
        (exportedEntries σ defaultConfig (lookup exported).get? q) = .ok (some r) := by
    intro q hq
    rw [tryParse_exported gson hvalid hq]
    cases importedPlugin σ (q.options defaultConfig) with
    | error e => exact Or.inl ⟨e, rfl⟩
    | ok plugin => exact Or.inr ⟨_, rfl⟩
  have hbad : ∃ q ∈ exported, ∃ e, JsonParser.tryParse gson σ feature
      (exportedEntries σ defaultConfig (lookup exported).get? q) = .error e :=
    ⟨p, hp, e, by rw [tryParse_exported gson hvalid hp, he]; rfl⟩
  obtain ⟨e', he'⟩ := JsonParser.processElements_error gson σ feature _ exported hobj
    JsonParser.empty hbad
  refine ⟨e', ?_⟩
  rw [parseJson, JsonParser.process, he']

/-! ### What is restored -/

theorem linked_eq (listed : List Profile) (row : Profile) (f : Option Profile) :
    ∃ u, linked listed row f = { row with udpFallback := u } := by
  cases f with
  | none => exact ⟨row.udpFallback, rfl⟩
  | some f => exact ⟨_, rfl⟩

/-- The settings of a copy. -/
theorem sameSettings_iff {p : Profile} {o : PluginOptions}
    (ho : p.selectedOptions defaultConfig = .ok o) {plugin : Option Text}
    (hplugin : importedPlugin σ o = .ok plugin) (listed : List Profile) (i : Nat)
    (f : Option Profile) :
    p.SameSettings defaultConfig
        (linked listed (rowOf σ defaultConfig feature replaced sequence (p, i)) f) ↔
      (p.proxyApps = true → p.individual = (feature.map Profile.individual).getD []) ∧
        kcptunPrefix.isPrefixOf o.id = false := by
  obtain ⟨tx, rx, hrow⟩ := rowOf_eq σ defaultConfig feature replaced sequence (p, i)
  obtain ⟨u, hlinked⟩ := linked_eq listed (rowOf σ defaultConfig feature replaced sequence (p, i)) f
  have hoptions : importedPlugin σ (p.options defaultConfig) = .ok plugin := by
    rw [Profile.options_eq ho]
    exact hplugin
  rw [hlinked, hrow, copyOf_plugin hoptions]
  obtain ⟨hnamed, hempty⟩ := Profile.selectedOptions_spec ho
  have hagree := fun q hq => importedPlugin_agree σ defaultConfig hnamed hempty hplugin (q := q) hq
  constructor
  · intro h
    refine ⟨fun hp => (h.individual hp).symm, ?_⟩
    have hsel := h.plugin
    rw [ho] at hsel
    exact (hagree _ rfl).mp hsel
  · rintro ⟨hind, hid⟩
    exact
      { host := rfl
        remotePort := rfl
        password := rfl
        method := rfl
        name := rfl
        route := rfl
        remoteDns := rfl
        ipv6 := rfl
        metered := rfl
        proxyApps := rfl
        udpdns := rfl
        plugin := by rw [ho]; exact (hagree _ rfl).mpr hid
        bypass := fun hp => if_pos hp
        individual := fun hp => (hind hp).symm }

/-- The link of a copy whose original points to the listed profile `t`. -/
theorem link_iff (hids : (exported.map Profile.id).Nodup) (hkeys : (exported.map Profile.key).Nodup)
    {i j : Nat} {p t : Profile} (ht : exported[j]? = some t) (hp : p.udpFallback = some t.id) :
    (linked (copiedRows σ defaultConfig feature replaced sequence exported)
        (rowOf σ defaultConfig feature replaced sequence (p, i))
        (fallbackOf feature exported p)).udpFallback
      = some (linked (copiedRows σ defaultConfig feature replaced sequence exported)
        (rowOf σ defaultConfig feature replaced sequence (t, j))
        (fallbackOf feature exported t)).id ↔
      Profile.isNullOrEmpty t.plugin = true := by
  have hid : (linked (copiedRows σ defaultConfig feature replaced sequence exported)
      (rowOf σ defaultConfig feature replaced sequence (t, j)) (fallbackOf feature exported t)).id
        = (rowOf σ defaultConfig feature replaced sequence (t, j)).id := by
    obtain ⟨u, hu⟩ := linked_eq (copiedRows σ defaultConfig feature replaced sequence exported)
      (rowOf σ defaultConfig feature replaced sequence (t, j)) (fallbackOf feature exported t)
    rw [hu]
  have hfall := exportedFallback_of_id hids (List.mem_of_getElem? ht) hp
  rw [hid, fallbackOf, hfall]
  cases hnull : Profile.isNullOrEmpty t.plugin with
  | true =>
    simp only [if_true, Option.map_some, linked, find?_isMatch hkeys ht hnull]
  | false =>
    obtain ⟨tx, rx, hrow⟩ := rowOf_eq σ defaultConfig feature replaced sequence (p, i)
    simp only [Bool.false_eq_true, if_false, Option.map_none, linked, hrow, iff_false]
    exact Option.some_ne_none _ ∘ Eq.symm

/-- The rows after the import are what the contract asks for, if each profile survives. -/
theorem restoredRows_iff (hids : (exported.map Profile.id).Nodup)
    (hkeys : (exported.map Profile.key).Nodup)
    (hok : ∀ p ∈ exported, ∃ o, p.selectedOptions defaultConfig = .ok o)
    (hall : ∀ p ∈ exported, ∃ plugin, importedPlugin σ (p.options defaultConfig) = .ok plugin) :
    Restored defaultConfig exported
        (restoredRows σ defaultConfig feature replaced sequence exported) ↔
      ∀ p ∈ exported, Survives defaultConfig feature exported p := by
  have hget : ∀ {i : Nat} {p q : Profile}, exported[i]? = some p →
      (restoredRows σ defaultConfig feature replaced sequence exported)[i]? = some q →
      linked (copiedRows σ defaultConfig feature replaced sequence exported)
        (rowOf σ defaultConfig feature replaced sequence (p, i)) (fallbackOf feature exported p)
          = q := by
    intro i p q hp hq
    rw [restoredRows_getElem?, hp] at hq
    exact Option.some.inj hq
  have hrow : ∀ {i : Nat} {p : Profile}, exported[i]? = some p →
      (restoredRows σ defaultConfig feature replaced sequence exported)[i]?
        = some (linked (copiedRows σ defaultConfig feature replaced sequence exported)
            (rowOf σ defaultConfig feature replaced sequence (p, i))
            (fallbackOf feature exported p)) := by
    intro i p hp
    rw [restoredRows_getElem?, hp]
    rfl
  have hplugin : ∀ {p : Profile} {o : PluginOptions}, p ∈ exported →
      p.selectedOptions defaultConfig = .ok o → ∃ plugin, importedPlugin σ o = .ok plugin := by
    intro p o hp ho
    obtain ⟨plugin, h⟩ := hall p hp
    exact ⟨plugin, by rw [← Profile.options_eq ho]; exact h⟩
  constructor
  · intro h p hp
    obtain ⟨i, hi⟩ := List.mem_iff_getElem?.mp hp
    have hsame := fun o (ho : p.selectedOptions defaultConfig = .ok o) =>
      (sameSettings_iff ho (hplugin hp ho).choose_spec _ i _).mp (h.settings i p _ hi (hrow hi))
    obtain ⟨o, ho⟩ := hok p hp
    refine ⟨(hsame o ho).1, ?_, ?_, fun o ho => (hsame o ho).2⟩
    · intro t ht hpt hno
      obtain ⟨j, hj⟩ := List.mem_iff_getElem?.mp ht
      exact (link_iff hids hkeys hj hpt).mp
        (h.fallback i j p _ t _ hi (hrow hi) hj (hrow hj) hpt hno)
    · intro o ho
      obtain ⟨hnamed, hempty⟩ := Profile.selectedOptions_spec ho
      by_cases hid : o.id = []
      · rw [hempty hid]
        decide
      · exact importedPlugin_controlFree σ hnamed hid (hplugin hp ho).choose_spec
  · intro h
    refine ⟨?_, ?_, ?_⟩
    · rw [restoredRows, List.length_map, List.length_zipIdx]
    · intro i p q hi hq
      have hp := List.mem_of_getElem? hi
      obtain ⟨o, ho⟩ := hok p hp
      obtain ⟨plugin, himp⟩ := hplugin hp ho
      rw [← hget hi hq]
      exact (sameSettings_iff ho himp _ i _).mpr ⟨(h p hp).individual, (h p hp).id o ho⟩
    · intro i j p q t u hi hq hj hu hpt hno
      have hnull := (h p (List.mem_of_getElem? hi)).fallback t (List.mem_of_getElem? hj) hpt hno
      rw [← hget hi hq, ← hget hj hu]
      exact (link_iff hids hkeys hj hpt).mpr hnull

end Import

/-! ### The round trip -/

section RoundTrip

variable (gson : Gson) (σ : IterationOrder Text (Option Text)) (defaultConfig : Text → Option Text)
  (profileId : Int) (currentProfile : Option Profile) (prior : ProfileStore)

/-- Importing the export returns and restores the exported profiles. -/
def ImportRestores (exported : List Profile) (json : Json) : Prop :=
  (createProfilesFromJson gson σ profileId currentProfile true prior [json]).2 = none ∧
    Restored defaultConfig exported
      (createProfilesFromJson gson σ profileId currentProfile true prior [json]).1.list

theorem createProfilesFromJson_single (json : Json) :
    createProfilesFromJson gson σ profileId currentProfile true prior [json] =
      ((parseJson gson σ (featureOf profileId prior) (some (byAddress prior.list))
          ⟨prior, false⟩ json).1.store,
        (parseJson gson σ (featureOf profileId prior) (some (byAddress prior.list))
          ⟨prior, false⟩ json).2) := by
  show (_, Option.or _ none) = _
  rw [Option.or_none]
  rfl

variable {gson σ defaultConfig profileId currentProfile prior}

/-- **Exactly when an export is restored.** -/
theorem restored_iff {exported : List Profile} {json : Json}
    (hids : (exported.map Profile.id).Nodup) (hkeys : (exported.map Profile.key).Nodup)
    (hvalid : ∀ p ∈ exported, p.Exportable)
    (hjson : serializeToJson σ defaultConfig exported = .ok json) :
    ImportRestores gson σ defaultConfig profileId currentProfile prior exported json ↔
      (exported = [] → prior.rows = []) ∧
        ∀ p ∈ exported, Survives defaultConfig (featureOf profileId prior) exported p := by
  obtain ⟨hok, rfl⟩ := serializeToJson_eq hjson
  rw [ImportRestores, createProfilesFromJson_single]
  by_cases hne : exported = []
  · subst hne
    have hparse : parseJson gson σ (featureOf profileId prior) (some (byAddress prior.list))
        ⟨prior, false⟩ (.arr []) = (⟨prior, false⟩, none) := by
      rw [parseJson, JsonParser.process]
      rfl
    rw [List.map_nil, hparse]
    constructor
    · rintro ⟨-, h⟩
      refine ⟨fun _ => ?_, by simp⟩
      have hlen := h.length
      rw [ProfileStore.list, List.length_mergeSort] at hlen
      exact List.length_eq_zero_iff.mp hlen
    · rintro ⟨h, -⟩
      refine ⟨rfl, ?_, by simp, by simp⟩
      rw [ProfileStore.list, List.length_mergeSort, h rfl]
  · by_cases hall : ∀ p ∈ exported, ∃ plugin, importedPlugin σ (p.options defaultConfig) = .ok plugin
    · obtain ⟨s, hs, hlist⟩ := parseJson_exported (featureOf profileId prior)
        (byAddress prior.list) gson hvalid hkeys hne hall prior
      rw [hs, hlist]
      simp only [true_and, hne, false_implies]
      exact restoredRows_iff hids hkeys hok hall
    · simp only [not_forall, not_exists] at hall
      obtain ⟨p, hp, hbad⟩ := hall
      obtain ⟨o, ho⟩ := hok p hp
      rw [Profile.options_eq ho] at hbad
      constructor
      · rintro ⟨h, -⟩
        cases himp : importedPlugin σ o with
        | ok plugin => exact absurd himp (hbad plugin)
        | error e =>
          obtain ⟨e', he'⟩ := parseJson_refused gson hvalid hp
            (by rw [Profile.options_eq ho]; exact himp) ⟨prior, false⟩ (some (byAddress prior.list))
          rw [he'] at h
          simp at h
      · rintro ⟨-, h⟩
        have hnamed := (Profile.selectedOptions_spec ho).1
        by_cases hid : o.id = []
        · exact absurd (importedPlugin_nil σ hid) (hbad none)
        · obtain ⟨o', ho', -⟩ := importedPlugin_ok σ hnamed ((h p hp).controlFree o ho) hid
          exact absurd ho' (hbad _)

/-- **Export and import.**  Importing what was exported from profiles with distinct addresses, into a
store with any profiles, restores them if and only if every one of them survives, and an empty list
meets an empty store. -/
theorem createProfilesFromJson_serializeToJson (gson : Gson)
    (σ : IterationOrder Text (Option Text)) (defaultConfig : Text → Option Text)
    (profileId : Int) (currentProfile : Option Profile) (prior : ProfileStore)
    (exported : List Profile) (json : Json)
    (hids : (exported.map Profile.id).Nodup) (hkeys : (exported.map Profile.key).Nodup)
    (hvalid : ∀ p ∈ exported, p.Exportable)
    (hjson : serializeToJson σ defaultConfig exported = .ok json) :
    ((createProfilesFromJson gson σ profileId currentProfile true prior [json]).2 = none ∧
      Restored defaultConfig exported
        (createProfilesFromJson gson σ profileId currentProfile true prior [json]).1.list) ↔
      (exported = [] → prior.rows = []) ∧
        ∀ p ∈ exported, Survives defaultConfig (featureOf profileId prior) exported p :=
  restored_iff hids hkeys hvalid hjson

/-- A profile with an app list and a plugin, linked to the next one. -/
def sampleProfiles : List Profile :=
  [{ id := 7, name := some "one".toList, proxyApps := true, bypass := true,
     individual := "org.a\norg.b".toList, plugin := some "obfs;obfs=http".toList,
     udpFallback := some 8 },
   { id := 8, name := none, host := "::1".toList, route := "bypass-lan".toList }]

def sampleStore (individual : Text) : ProfileStore where
  rows := [{ id := 3, individual := individual }]
  sequence := 5
  nodup := by simp
  le_sequence := by simp

theorem featureOf_sampleStore (individual : Text) :
    featureOf 3 (sampleStore individual) = some { id := 3, individual := individual } := by
  have hlist : (sampleStore individual).list = [{ id := 3, individual := individual }] :=
    List.mergeSort_singleton _
  rw [featureOf, hlist]
  rfl

theorem sampleProfiles_valid : ∀ p ∈ sampleProfiles, p.Exportable := by
  intro p hp
  rcases List.mem_cons.mp hp with rfl | hp
  · exact ⟨by decide, by decide, by decide, by decide⟩
  · rw [List.mem_singleton.mp hp]
    exact ⟨by decide, by decide, by decide, by decide⟩

theorem serializeToJson_sample : ∃ json,
    serializeToJson (IterationOrder.stored _ _) (fun _ => none) sampleProfiles = .ok json :=
  ⟨_, rfl⟩

/-- Only the app list of the feature profile decides about the sample. -/
theorem sampleProfiles_survive {feature : Option Profile}
    (h : (feature.map Profile.individual).getD [] = "org.a\norg.b".toList) :
    ∀ p ∈ sampleProfiles, Survives (fun _ => none) feature sampleProfiles p := by
  have hnull : ∀ t ∈ sampleProfiles, t.id = 8 → Profile.isNullOrEmpty t.plugin = true := by decide
  intro p hp
  rcases List.mem_cons.mp hp with rfl | hp
  · refine ⟨fun _ => h.symm, ?_, ?_, ?_⟩
    · intro t ht hid _
      exact hnull t ht (Option.some.inj hid).symm
    · intro o ho
      rw [← Except.ok.inj ho]
      decide +kernel
    · intro o ho
      rw [← Except.ok.inj ho]
      decide +kernel
  · rw [List.mem_singleton.mp hp]
    refine ⟨fun hp => absurd hp (by decide), fun t _ ht => absurd ht (by simp), ?_, ?_⟩
    · intro o ho
      rw [← Except.ok.inj ho]
      decide +kernel
    · intro o ho
      rw [← Except.ok.inj ho]
      decide +kernel

theorem createProfilesFromJson_serializeToJson_sample : ∃ json,
    serializeToJson (IterationOrder.stored _ _) (fun _ => none) sampleProfiles = .ok json ∧
    (createProfilesFromJson Gson.plain (IterationOrder.stored _ _) 3 none true
      (sampleStore "org.a\norg.b".toList) [json]).2 = none ∧
    Restored (fun _ => none) sampleProfiles
      (createProfilesFromJson Gson.plain (IterationOrder.stored _ _) 3 none true
        (sampleStore "org.a\norg.b".toList) [json]).1.list := by
  obtain ⟨json, hjson⟩ := serializeToJson_sample
  refine ⟨json, hjson, ?_⟩
  refine (createProfilesFromJson_serializeToJson Gson.plain _ _ 3 none _ _ json (by decide)
    (by decide) sampleProfiles_valid hjson).mpr ⟨fun h => absurd h (by decide), ?_⟩
  apply sampleProfiles_survive
  rw [featureOf_sampleStore]
  rfl

/-- The app list is not restored when the feature profile has another one. -/
theorem createProfilesFromJson_loses_individual : ∃ json,
    serializeToJson (IterationOrder.stored _ _) (fun _ => none) sampleProfiles = .ok json ∧
    (sampleProfiles.map Profile.key).Nodup ∧ (∀ p ∈ sampleProfiles, p.Exportable) ∧
    ¬((createProfilesFromJson Gson.plain (IterationOrder.stored _ _) 3 none true
        (sampleStore []) [json]).2 = none ∧
      Restored (fun _ => none) sampleProfiles
        (createProfilesFromJson Gson.plain (IterationOrder.stored _ _) 3 none true
          (sampleStore []) [json]).1.list) := by
  obtain ⟨json, hjson⟩ := serializeToJson_sample
  refine ⟨json, hjson, by decide, sampleProfiles_valid, fun h => ?_⟩
  have hsurvive := (restored_iff (by decide) (by decide) sampleProfiles_valid hjson).mp h
  have hind := (hsurvive.2 _ List.mem_cons_self).individual rfl
  rw [featureOf_sampleStore] at hind
  exact absurd hind (by decide)

end RoundTrip

end SsAndroid
