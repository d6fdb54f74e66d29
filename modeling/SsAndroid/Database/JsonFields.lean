import SsAndroid.Database.ProfileManager

/-!
# Reading an exported profile

What the parser makes of the object `toJson` writes: `tryParse_toJson`.  Every setting comes back
except the app list, which is written into `proxy_apps` and looked for outside of it, so that the
list of the feature profile stays (`imported`).

The plugin string of the result is the selected plugin's options alone.
**`importedPlugin_agree`**: it selects the same plugin with the same options if and only if they
hold no control character and the id does not start like a line of the old format.
-/

namespace SsAndroid

open PluginConfiguration

/-! ### The selected plugin -/

namespace PluginConfiguration

/-- What holds of every line read, also of one in the old format with control characters. -/
def Named (o : PluginOptions) : Prop := PluginOptions.Printable o ∧ Text.ControlFree o.id

theorem kcptunOptions_named (line : Text) : Named (kcptunOptions line) := by
  have hstart : Named { PluginOptions.empty with id := "kcptun".toList } :=
    ⟨by simp [PluginOptions.Printable, PluginOptions.empty], by decide⟩
  rw [kcptunOptions]
  split
  · rename_i args _
    refine kcptunLoop_preserves (Q := fun _ => True) ?_ ?_ (args.drop 1) _ (fun _ _ => trivial) hstart
    · intro o ho
      exact ⟨PluginOptions.printable_put ho.1 (by decide), ho.2⟩
    · intro o option value ho _ _
      exact ⟨PluginOptions.printable_put ho.1 (by simp), ho.2⟩
  · exact hstart

theorem kcptunOptions_id (line : Text) : (kcptunOptions line).id = "kcptun".toList := by
  rw [kcptunOptions]
  split
  · rename_i args _
    exact kcptunLoop_preserves (P := fun o => o.id = "kcptun".toList) (Q := fun _ => True)
      (fun _ h => h) (fun _ _ _ h _ _ => h) (args.drop 1) _ (fun _ _ => trivial) rfl
  · rfl

theorem parseLine_named {line : Text} {o : PluginOptions} (h : parseLine line = .ok o) :
    Named o := by
  rw [parseLine] at h
  split at h
  · rw [← Except.ok.inj h]
    exact kcptunOptions_named line
  · obtain ⟨o', ho', hp, hc⟩ :=
      PluginOptions.parse_ok (some line) true (PluginOptions.controlFree_of_parse h)
    obtain rfl : o' = o := Except.ok.inj (ho'.symm.trans h)
    exact ⟨hp, hc.1⟩

theorem parseLines_named {lines : List Text} : ∀ {os : List PluginOptions},
    parseLines lines = .ok os → ∀ o ∈ os, Named o := by
  induction lines with
  | nil =>
    intro os h
    obtain rfl : [] = os := Except.ok.inj h
    simp
  | cons line lines ih =>
    intro os h
    rw [parseLines] at h
    split at h
    · simp at h
    · rename_i o ho
      cases hrest : parseLines lines with
      | error e => rw [hrest] at h; simp [Except.map] at h
      | ok rest =>
        rw [hrest] at h
        obtain rfl : o :: rest = os := Except.ok.inj h
        intro x hx
        rcases List.mem_cons.mp hx with rfl | hx
        · exact parseLine_named ho
        · exact ih hrest x hx

/-- The options of the selected plugin of a configuration that was read; the default configuration
of the plugin plays no part. -/
theorem selectedOptions_ofText {plugin : Text} {c : PluginConfiguration}
    (h : ofText plugin = .ok c) (defaultConfig : Text → Option Text) :
    ∃ o, c.selectedOptions defaultConfig = .ok o ∧ o.id = c.selected ∧ Named o ∧
      (o.id = [] → o = PluginOptions.empty) := by
  rw [ofText] at h
  cases hos : parseLines (Text.split '\n' plugin) with
  | error e => rw [hos] at h; simp [Except.map] at h
  | ok os =>
    rw [hos] at h
    obtain rfl : ofList os = c := Except.ok.inj h
    rw [selectedOptions, getOptions]
    split
    · rename_i hsel
      refine ⟨PluginOptions.empty, rfl, hsel.symm, ⟨?_, PluginOptions.controlFree_nil⟩, fun _ => rfl⟩
      simp [PluginOptions.Printable, PluginOptions.empty]
    · rename_i hsel
      have hmem : (ofList os).selected ∈ (ofList os).pluginsOptions.entries.map Prod.fst := by
        cases os with
        | nil => exact absurd rfl hsel
        | cons o os =>
          apply (LinkedMap.mem_keys_putAll _ _ _).mpr
          refine Or.inr (List.mem_map.mpr ⟨(o.id, o), ?_, rfl⟩)
          have hid : o.id ≠ [] := hsel
          exact List.mem_map.mpr ⟨o, List.mem_filter.mpr ⟨List.mem_cons_self, by simpa using hid⟩, rfl⟩
      cases hget : (ofList os).pluginsOptions.get? (ofList os).selected with
      | none => exact absurd hmem ((LinkedMap.get?_eq_none_iff _ _).mp hget)
      | some o =>
        obtain ⟨ho, hid, -⟩ := mem_ofList ((LinkedMap.get?_eq_some_iff _ _ _).mp hget)
        refine ⟨o, rfl, hid, parseLines_named hos o ho, fun hnil => ?_⟩
        exact absurd (hid.symm.trans hnil) hsel

/-- A string of one line selects the plugin of that line. -/
theorem selectedOptions_line {line : Text} {o : PluginOptions} (hline : '\n' ∉ line)
    (h : parseLine line = .ok o) (hid : o.id ≠ []) (defaultConfig : Text → Option Text) :
    ∃ c, ofText line = .ok c ∧ c.selectedOptions defaultConfig = .ok o := by
  have hos : parseLines [line] = .ok [o] := parseLines_cons h rfl
  refine ⟨ofList [o], by rw [ofText, Text.split_of_not_mem hline, hos]; rfl, ?_⟩
  have hget : (ofList [o]).pluginsOptions.get? (ofList [o]).selected = some o :=
    get?_ofList_of_mem (by simp) List.mem_cons_self hid
  rw [selectedOptions, getOptions, if_neg (show (ofList [o]).selected ≠ [] from hid), hget]

end PluginConfiguration

/-! ### The options in an exported profile -/

namespace PluginOptions

theorem subset_escape (s : Text) : s ⊆ escape s := by
  intro c hc
  refine List.mem_flatMap.mpr ⟨c, hc, ?_⟩
  split <;> simp

theorem escape_append (s t : Text) : escape (s ++ t) = escape s ++ escape t := List.flatMap_append

theorem prefix_foldl_appendEntry (es : List (Text × Option Text)) : ∀ result : Text,
    result <+: es.foldl appendEntry result := by
  induction es with
  | nil => intro result; exact List.prefix_rfl
  | cons e es ih =>
    intro result
    refine List.IsPrefix.trans ?_ (ih (appendEntry result e))
    rw [appendEntry]
    split
    · exact List.prefix_append _ _
    · rw [List.append_assoc]
      exact List.prefix_append _ _

theorem entryText_subset_foldl (es : List (Text × Option Text)) : ∀ result : Text,
    ∀ e ∈ es, entryText e ⊆ es.foldl appendEntry result := by
  induction es with
  | nil => intro result e he; simp at he
  | cons f es ih =>
    intro result e he
    rcases List.mem_cons.mp he with rfl | he
    · have happ : entryText e ⊆ appendEntry result e := List.subset_append_right _ _
      exact List.Subset.trans happ (prefix_foldl_appendEntry es _).subset
    · exact ih (appendEntry result f) e he

/-- Options whose text has no control character have none. -/
theorem controlFree_of_print (σ : IterationOrder Text (Option Text)) {o : PluginOptions}
    (hid : Text.ControlFree o.id) (h : Text.ControlFree (print σ true o)) : ControlFree o := by
  refine ⟨hid, fun e he => ?_⟩
  have htext : entryText e ⊆ print σ true o := by
    simp only [print, Bool.true_eq_false, false_and, if_false, if_true]
    exact entryText_subset_foldl _ [] e ((σ.perm _).mem_iff.mpr he)
  have hentry : Text.ControlFree (entryText e) := h.subset htext
  constructor
  · exact hentry.subset (List.Subset.trans (subset_escape e.1) (List.subset_append_left _ _))
  · obtain ⟨key, value⟩ := e
    cases value with
    | none => exact controlFree_nil
    | some v =>
      refine hentry.subset (List.Subset.trans (subset_escape v) ?_)
      exact List.Subset.trans (List.subset_cons_self _ _) (List.subset_append_right _ _)

/-- A text without special characters that starts the id starts the printed line. -/
theorem prefix_print {p : Text} (hp : escape p = p) (σ : IterationOrder Text (Option Text))
    {o : PluginOptions} (hid : o.id ≠ []) (h : p <+: o.id) : p <+: print σ false o := by
  obtain ⟨rest, hrest⟩ := h
  have hesc : p <+: escape o.id := by
    rw [← hrest, escape_append, hp]
    exact List.prefix_append _ _
  simp only [print, hid, and_false, if_false, Bool.false_eq_true]
  exact hesc.trans (prefix_foldl_appendEntry _ _)

end PluginOptions

/-- The plugin string the parser makes of exported options. -/
def importedPlugin (σ : IterationOrder Text (Option Text)) (o : PluginOptions) :
    Except Exn (Option Text) :=
  if o.id = [] then .ok none
  else
    (PluginOptions.ofIdText o.id (some (o.print σ true))).map fun o' => some (o'.print σ false)

section Plugin

variable (σ : IterationOrder Text (Option Text)) (defaultConfig : Text → Option Text)

theorem importedPlugin_nil {o : PluginOptions} (hid : o.id = []) : importedPlugin σ o = .ok none :=
  if_pos hid

/-- Options with a control character cannot be imported. -/
theorem importedPlugin_controlFree {o : PluginOptions} (ho : Named o) (hid : o.id ≠ [])
    {plugin : Option Text} (h : importedPlugin σ o = .ok plugin) : PluginOptions.ControlFree o := by
  rw [importedPlugin, if_neg hid, PluginOptions.ofIdText] at h
  cases hparse : PluginOptions.parse (some (o.print σ true)) false with
  | error e => rw [hparse] at h; simp [Except.map] at h
  | ok o' => exact PluginOptions.controlFree_of_print σ ho.2 (PluginOptions.controlFree_of_parse hparse)

theorem importedPlugin_ok {o : PluginOptions} (ho : Named o) (hc : PluginOptions.ControlFree o)
    (hid : o.id ≠ []) : ∃ o', importedPlugin σ o = .ok (some (o'.print σ false)) ∧
      PluginOptions.Equals o' o ∧ Named o' ∧ PluginOptions.ControlFree o' := by
  obtain ⟨o', ho', heq⟩ := PluginOptions.ofIdText_print σ o ho.1 hc
  obtain ⟨o'', ho'', -, hp, hcf⟩ := PluginOptions.ofIdText_ok o.id (some (o.print σ true)) ho.2
    (PluginOptions.print_controlFree σ true hc)
  obtain rfl : o'' = o' := Except.ok.inj (ho''.symm.trans ho')
  refine ⟨o'', ?_, heq, ⟨hp, hcf.1⟩, hcf⟩
  rw [importedPlugin, if_neg hid, ho']
  rfl

theorem newline_not_mem {s : Text} (h : Text.ControlFree s) : '\n' ∉ s :=
  fun hm => absurd (h '\n' hm) (by decide)

/-- A plugin string that is one printed line selects the plugin of that line, unless it looks like a
line of the old format. -/
theorem selectedOptions_print {o : PluginOptions} (ho : Named o) (hc : PluginOptions.ControlFree o)
    (hid : o.id ≠ []) {q : Profile} (hq : q.plugin = some (o.print σ false)) :
    (∃ o', q.selectedOptions defaultConfig = .ok o' ∧ PluginOptions.Equals o' o) ↔
      kcptunPrefix.isPrefixOf o.id = false := by
  have hline : '\n' ∉ o.print σ false := newline_not_mem (PluginOptions.print_controlFree σ false hc)
  have hconf : q.configuration = ofText (o.print σ false) := by
    rw [Profile.configuration, hq]
    rfl
  constructor
  · rintro ⟨o', ho', heq⟩
    rw [Bool.eq_false_iff]
    intro hpre
    have hstart : kcptunPrefix.isPrefixOf (o.print σ false) = true :=
      List.isPrefixOf_iff_prefix.mpr
        (PluginOptions.prefix_print (by decide) σ hid (List.isPrefixOf_iff_prefix.mp hpre))
    have hparse : parseLine (o.print σ false) = .ok (kcptunOptions (o.print σ false)) := by
      rw [parseLine, if_pos hstart]
    have hkid : (kcptunOptions (o.print σ false)).id ≠ [] := by
      rw [kcptunOptions_id]
      decide
    obtain ⟨c, hc', hsel⟩ := selectedOptions_line hline hparse hkid defaultConfig
    rw [Profile.selectedOptions, hconf, hc'] at ho'
    have hoo : kcptunOptions (o.print σ false) = o' := Except.ok.inj (hsel.symm.trans ho')
    -- the id would have to be `kcptun`, without the space
    rw [← heq.1, ← hoo, kcptunOptions_id] at hpre
    exact absurd hpre (by decide)
  · intro hk
    obtain ⟨o', hparse, heq, hplain⟩ := parseLine_print (o := o) ⟨⟨hid, ho.2, hk⟩, ho.1, hc⟩ σ
    obtain ⟨c, hc', hsel⟩ := selectedOptions_line hline hparse hplain.1.1 defaultConfig
    refine ⟨o', ?_, heq⟩
    rw [Profile.selectedOptions, hconf, hc']
    exact hsel

/-- **The imported plugin string selects the exported plugin**, provided its id is not taken for the
old format. -/
theorem importedPlugin_agree {o : PluginOptions} (ho : Named o)
    (hempty : o.id = [] → o = PluginOptions.empty) {plugin : Option Text}
    (h : importedPlugin σ o = .ok plugin) {q : Profile} (hq : q.plugin = plugin) :
    Agree (.ok o) (q.selectedOptions defaultConfig) ↔ kcptunPrefix.isPrefixOf o.id = false := by
  by_cases hid : o.id = []
  · obtain rfl : none = plugin := Except.ok.inj ((importedPlugin_nil σ hid).symm.trans h)
    have hsel : q.selectedOptions defaultConfig = .ok PluginOptions.empty := by
      rw [Profile.selectedOptions, Profile.configuration, hq]
      rfl
    constructor
    · intro _
      rw [hid]
      decide
    · intro _
      exact ⟨o, PluginOptions.empty, rfl, hsel, by rw [hempty hid]; exact PluginOptions.Equals.refl _⟩
  · obtain ⟨o', ho', heq, hn, hcf⟩ :=
      importedPlugin_ok σ ho (importedPlugin_controlFree σ ho hid h) hid
    have hid' : o'.id ≠ [] := by rw [heq.1]; exact hid
    have hprint := selectedOptions_print σ defaultConfig hn hcf hid'
      (hq.trans (Except.ok.inj (h.symm.trans ho')))
    rw [← heq.1, ← hprint]
    constructor
    · rintro ⟨o₁, o₂, ho₁, ho₂, he⟩
      obtain rfl : o = o₁ := Except.ok.inj ho₁
      exact ⟨o₂, ho₂, he.symm.trans heq.symm⟩
    · rintro ⟨o₂, ho₂, he⟩
      exact ⟨o, o₂, rfl, ho₂, (he.trans heq).symm⟩

end Plugin

/-! ### The fields of an exported profile -/

/-- What a profile needs to be recognised in a document. -/
structure Profile.Exportable (p : Profile) : Prop where
  host : p.host ≠ []
  remotePort : 1 ≤ p.remotePort ∧ p.remotePort ≤ 65535
  password : p.password ≠ []
  method : p.method ≠ []

namespace Profile

theorem get?_putOpt (key : String) (value : Option Json) (json : LinkedMap String Json)
    (x : String) :
    (putOpt key value json).get? x = if x = key then value.or (json.get? x) else json.get? x := by
  cases value with
  | none => simp [putOpt]
  | some v => simp [putOpt]

theorem get?_putPlugin (σ : IterationOrder Text (Option Text)) (o : PluginOptions)
    (json : LinkedMap String Json) (x : String) :
    (putPlugin σ o json).get? x =
      if o.id = [] then json.get? x
      else if x = "plugin_opts" then some (.str (o.print σ true))
      else if x = "plugin" then some (.str o.id)
      else json.get? x := by
  rw [putPlugin]
  split
  · rfl
  · rw [LinkedMap.get?_put, LinkedMap.get?_put]

end Profile

namespace JsonParser

variable (gson : Gson) (σ : IterationOrder Text (Option Text)) (feature : Option Profile)

@[simp] theorem optString_str (s : Text) : optString gson (some (.str s)) = some s := by
  simp [optString, Json.isPrimitive, gson.asString_str]

@[simp] theorem optString_none : optString gson none = none := rfl

@[simp] theorem optBoolean_bool (b : Bool) : optBoolean (some (.bool b)) = some b := rfl

@[simp] theorem optBoolean_none : optBoolean none = none := rfl

theorem optString_map_str (s : Option Text) : optString gson (s.map Json.str) = s := by
  cases s with
  | none => rfl
  | some s => exact optString_str gson s

theorem optInt_port {n : Int} (h : 1 ≤ n ∧ n ≤ 65535) : optInt gson (some (.ofInt n)) = some n :=
  gson.asInt_ofInt n (by omega) (by omega)

/-- The four fields of an address are read back from any object that has them. -/
theorem address_of_get? {m : LinkedMap String Json} {p : Profile} (hp : p.Exportable)
    (hhost : m.get? "server" = some (.str p.host))
    (hport : m.get? "server_port" = some (.ofInt p.remotePort))
    (hpassword : m.get? "password" = some (.str p.password))
    (hmethod : m.get? "method" = some (.str p.method)) :
    address gson m.entries = some (p.host, p.remotePort, p.password, p.method) := by
  rw [LinkedMap.get?] at hhost hport hpassword hmethod
  have hpos : 0 < p.remotePort := by have := hp.remotePort; omega
  simp [address, hhost, hport, hpassword, hmethod, optInt_port gson hp.remotePort, Option.filter_some,
    hp.host, hp.password, hp.method, hpos]

end JsonParser

/-- The settings an imported profile starts with. -/
def imported (feature : Option Profile) (p : Profile) (plugin : Option Text) : Profile :=
  { host := p.host
    remotePort := p.remotePort
    password := p.password
    method := p.method
    plugin := plugin
    name := p.name
    route := p.route
    remoteDns := p.remoteDns
    ipv6 := p.ipv6
    metered := p.metered
    proxyApps := p.proxyApps
    bypass := if p.proxyApps then p.bypass else (feature.map Profile.bypass).getD false
    individual := (feature.map Profile.individual).getD []
    udpdns := p.udpdns }

/-- The profile an exported fallback is read as. -/
def importedFallback (feature : Option Profile) (p : Profile) : Profile :=
  let profile : Profile :=
    { host := p.host, remotePort := p.remotePort, password := p.password, method := p.method,
      name := none }
  match feature with
  | some f => f.copyFeatureSettingsTo profile
  | none => profile

namespace JsonParser

variable (gson : Gson) (σ : IterationOrder Text (Option Text)) (feature : Option Profile)

theorem tryParseFallback_addressJson {p : Profile} (hp : p.Exportable) :
    tryParseFallback gson σ feature p.addressJson.entries
      = .ok (some (importedFallback feature p)) := by
  have hget : ∀ x, p.addressJson.entries.lookup x = p.addressJson.get? x := fun _ => rfl
  have haddr : address gson p.addressJson.entries = _ :=
    address_of_get? gson hp (by simp [Profile.addressJson]) (by simp [Profile.addressJson])
      (by simp [Profile.addressJson]) (by simp [Profile.addressJson])
  have hplugin : pluginText gson σ p.addressJson.entries = .ok none := by
    simp only [pluginText, hget]
    simp [Profile.addressJson]
  rw [tryParseFallback, haddr]
  simp only [hplugin, hget]
  cases feature <;>
    simp [Except.map, importedFallback, Profile.addressJson, Profile.copyFeatureSettingsTo]

section Settings

variable (profiles : Int → Option Profile) (p : Profile) (o : PluginOptions)

theorem settingsJson_lookup (x : String) :
    (p.settingsJson σ profiles o).entries.lookup x = (p.settingsJson σ profiles o).get? x := rfl

theorem pluginText_settingsJson :
    pluginText gson σ (p.settingsJson σ profiles o).entries = importedPlugin σ o := by
  rw [pluginText, settingsJson_lookup, settingsJson_lookup, importedPlugin]
  by_cases hid : o.id = []
  · simp [Profile.settingsJson, Profile.get?_putOpt, Profile.get?_putPlugin, Profile.addressJson, hid]
  · simp [Profile.settingsJson, Profile.get?_putOpt, Profile.get?_putPlugin, hid, Option.filter_some]

theorem address_settingsJson (hp : p.Exportable) :
    address gson (p.settingsJson σ profiles o).entries
      = some (p.host, p.remotePort, p.password, p.method) := by
  apply address_of_get? gson hp <;>
    simp [Profile.settingsJson, Profile.get?_putOpt, Profile.get?_putPlugin, Profile.addressJson]

theorem remarks_settingsJson :
    (p.settingsJson σ profiles o).get? "remarks" = p.name.map Json.str := by
  simp [Profile.settingsJson, Profile.get?_putOpt, Profile.get?_putPlugin, Profile.addressJson]

/-- The remaining settings are read back, whatever the profile had for them, but for the app list. -/
theorem parseSettings_settingsJson (q : Profile) :
    parseSettings gson (p.settingsJson σ profiles o).entries q =
      { q with
        remoteDns := p.remoteDns
        ipv6 := p.ipv6
        metered := p.metered
        proxyApps := p.proxyApps
        bypass := if p.proxyApps then p.bypass else q.bypass
        udpdns := p.udpdns } := by
  have hbypass : (optBoolean (p.proxyAppsJson.get? "bypass")).getD q.bypass
      = if p.proxyApps then p.bypass else q.bypass := by
    rw [Profile.proxyAppsJson]
    split <;> simp
  have henabled : (optBoolean (p.proxyAppsJson.get? "enabled")).getD q.proxyApps = p.proxyApps := by
    rw [Profile.proxyAppsJson]
    split <;> simp
  have happs : (p.settingsJson σ profiles o).get? "proxy_apps"
      = some (.obj p.proxyAppsJson.entries) := by
    simp [Profile.settingsJson, Profile.get?_putOpt, Json.ofMap]
  have hlist : (p.settingsJson σ profiles o).get? "android_list" = none := by
    simp [Profile.settingsJson, Profile.get?_putOpt, Profile.get?_putPlugin, Profile.addressJson]
  have hinner : ∀ x, p.proxyAppsJson.entries.lookup x = p.proxyAppsJson.get? x := fun _ => rfl
  simp only [parseSettings, settingsJson_lookup, happs, hlist, hinner, hbypass, henabled]
  simp [Profile.settingsJson, Profile.get?_putOpt]

theorem fallback_settingsJson : (p.settingsJson σ profiles o).get? "udp_fallback"
    = (p.exportedFallback profiles).map fun t => .obj t.addressJson.entries := by
  simp only [Profile.settingsJson, Profile.get?_putOpt]
  cases p.exportedFallback profiles <;>
    simp [Json.ofMap, Profile.get?_putOpt, Profile.get?_putPlugin, Profile.addressJson]

theorem tryParseFallback_settingsJson (hp : p.Exportable) :
    tryParseFallback gson σ feature (p.settingsJson σ profiles o).entries
      = (importedPlugin σ o).map fun plugin =>
          some { importedFallback feature p with plugin := plugin, name := p.name, route := p.route } := by
  have hroute : (p.settingsJson σ profiles o).get? "route" = some (.str p.route) := by
    simp [Profile.settingsJson, Profile.get?_putOpt]
  rw [tryParseFallback, address_settingsJson gson σ profiles p o hp]
  simp only [pluginText_settingsJson, settingsJson_lookup, remarks_settingsJson, hroute,
    optString_map_str, optString_str, Option.getD_some]
  cases feature <;> rfl

/-- **What the parser makes of an exported profile.** -/
theorem tryParse_settingsJson (hp : p.Exportable)
    (hfallback : ∀ t, p.exportedFallback profiles = some t → t.Exportable) :
    tryParse gson σ feature (p.settingsJson σ profiles o).entries
      = (importedPlugin σ o).map fun plugin =>
          some (imported feature p plugin,
            (p.exportedFallback profiles).map (importedFallback feature)) := by
  rw [tryParse, tryParseFallback_settingsJson gson σ feature profiles p o hp]
  cases importedPlugin σ o with
  | error e => rfl
  | ok plugin =>
    have himported : parseSettings gson (p.settingsJson σ profiles o).entries
        { importedFallback feature p with plugin := plugin, name := p.name, route := p.route }
          = imported feature p plugin := by
      rw [parseSettings_settingsJson]
      cases feature <;> rfl
    simp only [Except.map, settingsJson_lookup, himported, fallback_settingsJson]
    cases ht : p.exportedFallback profiles with
    | none => rfl
    | some t =>
      simp only [Option.map_some, tryParseFallback_addressJson gson σ feature (hfallback t ht)]

end Settings

end JsonParser

end SsAndroid
