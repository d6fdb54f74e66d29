import SsAndroid.Database.LinkFields
import SsAndroid.Database.UriMatch
import SsAndroid.Plugin.PrintedOptions

/-!
# Importing exported URIs

What `findAllUrls` makes of the text on the clipboard.  Every line is read by itself
(`findAllUrls_join`), and what is read from the line of a profile is known:

* nothing, or a profile without a name, if the line breaks off in the user info
  (`findAllUrls_broken`);
* otherwise the profile with what is left of its plugin and its name (`findAllUrls_link`).

**`importExport_iff`**: importing gives back all profiles, one for each and in their order, if and
only if every one of them is recognisable.
-/

namespace SsAndroid

namespace Profile

open Regex

/-! ### Reading a URI -/

/-- The method ends at the first colon. -/
theorem matchEntire_credentials {p : Profile} (hp : p.Shareable) :
    matchEntire userInfoPattern p.credentials = some [p.method, [':'], p.password] := by
  obtain ⟨hne, hcolon, hline⟩ := hp.method
  exact matchEntire_userInfo hne hcolon hline hp.password

theorem encode_of_isUnreserved : ∀ {s : Text}, (∀ c ∈ s, Percent.isUnreserved c = true) →
    Percent.encode s = s
  | [], _ => rfl
  | c :: s, h => by
    rw [Percent.encode, List.flatMap_cons, Percent.encodeChar, if_pos (h c List.mem_cons_self)]
    exact congrArg _ (encode_of_isUnreserved fun d hd => h d (List.mem_cons_of_mem _ hd))

theorem decode_of_isUnreserved {s : Text} (h : ∀ c ∈ s, Percent.isUnreserved c = true) :
    Percent.decode false s = s := by
  conv_lhs => rw [← encode_of_isUnreserved h]
  exact Percent.decode_encode false s

theorem unwrapped_wrappedHost {host : Text} (h : IsHost host) :
    unwrapped (wrappedHost host) = host := by
  rw [wrappedHost]
  split
  · have hlast : ('[' :: host ++ [']']).getLast? = some ']' := by
      rw [List.getLast?_append]
      rfl
    rw [unwrapped, if_pos ⟨rfl, hlast⟩]
    exact List.dropLast_concat
  · have hhead : host.head? ≠ some '[' := by
      intro hh
      have hmem : '[' ∈ host := List.mem_of_head? hh
      exact absurd (h.isHostChar _ hmem) (by decide)
    rw [unwrapped, if_neg (fun hb => hhead hb.1)]

/-- What stands in a query parameter. -/
theorem not_mem_parameter {c : Char} (hc : Percent.isUnreserved c = false) (hpercent : c ≠ '%')
    (heq : c ≠ '=') (key value : Text) : c ∉ Uri.parameter key value := by
  have h := Percent.not_mem_encode hc hpercent
  simp [Uri.parameter, h, heq]

section Read

variable (uri : URI) (toLowerCase : Text → Text) (feature : Option Profile)

/-- The profile read from a URI of `p`, with what the URI says about the plugin and the name. -/
def recognised (p : Profile) (plugin name : Option Text) : Profile :=
  { fresh feature with
    method := p.method
    password := p.password
    host := p.host
    remotePort := p.remotePort
    plugin := plugin
    name := some (name.getD []) }

variable {p : Profile}

/-- **Reading a URI.** -/
theorem ofUrl_link (hp : p.Shareable) (plugin name : Option Text) :
    ofUrl uri toLowerCase feature (p.link plugin name)
      = .ok (some (recognised feature p plugin name)) := by
  have hinfo := isUnreserved_of_mem_auth p
  have hquery : ∀ q ∈ plugin.map (Uri.parameter "plugin".toList), '#' ∉ q := by
    intro q hq
    obtain ⟨v, -, rfl⟩ := Option.map_eq_some_iff.mp hq
    exact not_mem_parameter (by decide) (by decide) (by decide) _ v
  obtain ⟨hauthority, hq, hf⟩ := Uri.text_parts
    (plugin.map (Uri.parameter "plugin".toList)) (name.map Percent.encode)
    (show ':' ∉ "ss".toList by decide)
    (fun c hc => not_endsAuthority hp.host hp.remotePort.1 hinfo hc) hquery
  have huser : Uri.userInfo (p.link plugin name) = some p.auth := by
    rw [Uri.userInfo, link, hauthority]
    show Option.map _ (Uri.splitAtLast '@' (authority p.auth p.host p.remotePort)).1 = _
    rw [authority, Uri.splitAtLast_append (at_not_mem hp.host hp.remotePort.1)]
    exact congrArg some (decode_of_isUnreserved hinfo)
  have hcred : (Base64.decode true p.auth).bind (fun bytes =>
      matchEntire userInfoPattern (Utf8.decode bytes)) = some [p.method, [':'], p.password] := by
    rw [auth, Base64.decode_encode]
    show matchEntire userInfoPattern (Utf8.decode (Text.utf8 p.credentials)) = _
    rw [Utf8.decode_utf8, matchEntire_credentials hp]
  have hserver : uri.parse (p.link plugin name)
      = some (some (wrappedHost p.host), p.remotePort) := by
    have hparse := uri.parse_text (plugin.map fun v => ("plugin".toList, v)) name hinfo hp.host
      hp.remotePort.1 hp.remotePort.2
    rw [Option.map_map] at hparse
    exact hparse
  have hplugin : Uri.getQueryParameter "plugin".toList (p.link plugin name) = plugin := by
    cases plugin with
    | none =>
      rw [Uri.getQueryParameter, link, hq]
      rfl
    | some v =>
      exact Uri.getQueryParameter_of_encodedQuery hq (by decide)
        (not_mem_parameter (by decide) (by decide) (by decide) _ v)
  have hname : Uri.fragment (p.link plugin name) = name := by
    rw [Uri.fragment, link, hf, Option.map_map]
    cases name with
    | none => rfl
    | some n => exact congrArg some (Percent.decode_encode false n)
  rw [ofUrl, huser]
  show Except.ok (ofUserInfo uri feature (p.link plugin name) p.auth) = _
  rw [ofUserInfo, hcred]
  simp only [hserver, hplugin, hname, Option.map_some, Option.getD_some,
    unwrapped_wrappedHost hp.host]
  rfl

/-- A URI that ends in the user info is read in the old format.  The profile has no name. -/
theorem ofUrl_broken {host : Text} (h : ∀ c ∈ host, Percent.isUnreserved c = true) :
    ∃ r : Option Profile, ofUrl uri toLowerCase feature (ss ++ host) = .ok r ∧
      ∀ q ∈ r, q.name = none := by
  have hends : ∀ c ∈ host, Uri.endsAuthority c = false := by
    intro c hc
    rw [Bool.eq_false_iff]
    intro hend
    have hcases : c = '/' ∨ c = '\\' ∨ c = '?' ∨ c = '#' := by simpa [Uri.endsAuthority] using hend
    have hu := h c hc
    rcases hcases with rfl | rfl | rfl | rfl <;> exact absurd hu (by decide)
  obtain ⟨hauthority, -, hf⟩ := Uri.text_parts none none (show ':' ∉ "ss".toList by decide) hends
    (by simp)
  have htext : Uri.text "ss".toList host none none = ss ++ host := by
    show ss ++ (host ++ []) = _
    rw [List.append_nil]
  rw [htext] at hauthority hf
  have hat : '@' ∉ host := fun hm => absurd (h _ hm) (by decide)
  have huser : Uri.userInfo (ss ++ host) = none := by
    rw [Uri.userInfo, hauthority]
    show Option.map _ (Uri.splitAtLast '@' host).1 = _
    rw [Uri.splitAtLast_of_not_mem hat]
    rfl
  have hname : Uri.fragment (ss ++ host) = none := by
    rw [Uri.fragment, hf]
    rfl
  rw [ofUrl, huser]
  show ∃ r, ofLegacyUrl toLowerCase feature (ss ++ host) = .ok r ∧ _
  unfold ofLegacyUrl
  have hhost : ∃ encoded, Uri.host (ss ++ host) = some encoded := by
    rw [Uri.host, hauthority]
    exact ⟨_, rfl⟩
  obtain ⟨encoded, hencoded⟩ := hhost
  rw [hencoded]
  dsimp only
  split
  · rename_i port _
    cases Number.parseInt port with
    | none => exact ⟨none, rfl, by simp⟩
    | some n => exact ⟨_, rfl, by simp [hname]⟩
  · exact ⟨none, rfl, by simp⟩

/-! ### Line by line -/

/-- The pattern does not match a line end. -/
theorem pattern_newline : ∀ i ∈ pattern, i.chars '\n' = false := by
  intro i hi
  rw [pattern_eq, List.mem_append] at hi
  rcases hi with hi | hi
  · simp only [literalIgnoreCase, ss, List.map_cons, List.map_nil, List.mem_cons, List.not_mem_nil,
      or_false] at hi
    rcases hi with rfl | rfl | rfl | rfl | rfl <;> decide
  · simp only [List.mem_cons, List.not_mem_nil, or_false] at hi
    rcases hi with rfl | rfl <;> decide

theorem mapM_append_ok {α β : Type*} {f : α → Except Exn β} : ∀ {xs ys : List α} {us vs : List β},
    xs.mapM f = .ok us → ys.mapM f = .ok vs → (xs ++ ys).mapM f = .ok (us ++ vs) := by
  intro xs ys us vs hx hy
  rw [List.mapM_append, hx, hy]
  rfl

/-- **Every line is read by itself.** -/
theorem findAllUrls_join {lines : List Text} {read : Text → List Profile}
    (h : ∀ l ∈ lines, findAllUrls uri toLowerCase feature (some l) = .ok (read l)) :
    findAllUrls uri toLowerCase feature (some (Text.join ['\n'] lines))
      = .ok (lines.flatMap read) := by
  have hline : ∀ l ∈ lines, ∃ rs : List (Option Profile),
      (findAll pattern l).mapM (ofUrl uri toLowerCase feature) = .ok rs ∧ rs.reduceOption = read l := by
    intro l hl
    have hread := h l hl
    rw [findAllUrls, Option.getD_some] at hread
    cases hrs : (findAll pattern l).mapM (ofUrl uri toLowerCase feature) with
    | error e => rw [hrs] at hread; simp [Except.map] at hread
    | ok rs =>
      rw [hrs] at hread
      exact ⟨rs, rfl, Except.ok.inj hread⟩
  have hall : ∃ rs : List (Option Profile),
      (lines.flatMap (findAll pattern)).mapM (ofUrl uri toLowerCase feature) = .ok rs ∧
        rs.reduceOption = lines.flatMap read := by
    clear h
    induction lines with
    | nil => exact ⟨[], rfl, rfl⟩
    | cons l lines ih =>
      obtain ⟨rs, hrs, hread⟩ := hline l List.mem_cons_self
      obtain ⟨ts, hts, hreads⟩ := ih fun m hm => hline m (List.mem_cons_of_mem _ hm)
      refine ⟨rs ++ ts, mapM_append_ok hrs hts, ?_⟩
      rw [List.reduceOption_append, hread, hreads]
      rfl
  obtain ⟨rs, hrs, hread⟩ := hall
  rw [findAllUrls, Option.getD_some, findAll_join pattern_newline rfl, hrs]
  exact congrArg Except.ok hread

/-- The line of a profile whose user info holds an underscore: at most a profile without a name. -/
theorem findAllUrls_broken (hp : p.Shareable)
    (h : 63 ∈ Base64.sextets (Text.utf8 p.credentials)) (plugin name : Option Text) :
    ∃ r : Option Profile, findAllUrls uri toLowerCase feature (some (p.link plugin name))
      = .ok r.toList ∧ ∀ q ∈ r, q.name = none := by
  rw [findAllUrls, Option.getD_some]
  rcases findAll_broken hp h plugin name with hnil | ⟨host, hhost, hone⟩
  · rw [hnil]
    exact ⟨none, rfl, by simp⟩
  · obtain ⟨r, hr, hname⟩ := ofUrl_broken uri toLowerCase feature hhost
    refine ⟨r, ?_, hname⟩
    rw [hone, List.mapM_cons, hr]
    cases r <;> rfl

/-- The line of any other profile. -/
theorem findAllUrls_link (hp : p.Shareable)
    (h : 63 ∉ Base64.sextets (Text.utf8 p.credentials)) (plugin name : Option Text) :
    findAllUrls uri toLowerCase feature (some (p.link plugin name))
      = .ok [recognised feature p (matchedParts plugin name).1 (matchedParts plugin name).2] := by
  rw [findAllUrls, Option.getD_some, findAll_link hp h, List.mapM_cons,
    ofUrl_link uri toLowerCase feature hp]
  rfl

end Read

/-! ### The plugin of a profile that was read -/

section Plugin

open PluginConfiguration

variable (σ : IterationOrder Text (Option Text)) (defaultConfig : Text → Option Text)

/-- The text of the selected plugin's options selects it again if it can be read. -/
theorem agree_print_iff {o : PluginOptions} (ho : Named o) (hid : o.id ≠ [])
    (hline : '\n' ∉ o.print σ false) {q : Profile} (hq : q.plugin = some (o.print σ false)) :
    Agree (.ok o) (q.selectedOptions defaultConfig) ↔
      PluginOptions.ControlFree o ∧ kcptunPrefix.isPrefixOf o.id = false := by
  constructor
  · intro h
    have hc := controlFree_of_agree σ ho hid hline hq h
    refine ⟨hc, (selectedOptions_print σ defaultConfig ho hc hid hq).mp ?_⟩
    obtain ⟨o₁, o₂, ho₁, hsel, heq⟩ := h
    obtain rfl : o = o₁ := Except.ok.inj ho₁
    exact ⟨o₂, hsel, heq.symm⟩
  · rintro ⟨hc, hk⟩
    obtain ⟨o', hsel, heq⟩ := (selectedOptions_print σ defaultConfig ho hc hid hq).mpr hk
    exact ⟨o, o', rfl, hsel, heq.symm⟩

/-- A text that was broken off selects something else. -/
theorem agree_cut_iff {o : PluginOptions} (ho : Named o) (hid : o.id ≠ [])
    (hline : '\n' ∉ o.print σ false) {q : Profile} (hq : q.plugin = some (cut (o.print σ false))) :
    Agree (.ok o) (q.selectedOptions defaultConfig) ↔ Unbroken (o.print σ false) ∧
      PluginOptions.ControlFree o ∧ kcptunPrefix.isPrefixOf o.id = false := by
  by_cases hv : Unbroken (o.print σ false)
  · rw [cut_eq_self hv] at hq
    rw [agree_print_iff σ defaultConfig ho hid hline hq]
    simp [hv]
  · obtain ⟨hpre, c, hc, hcount⟩ := count_cut_lt hv
    have hdelim : PluginOptions.isDelimiter c = false := by
      rcases hc with rfl | rfl <;> decide
    simp only [hv, false_and, iff_false]
    rintro ⟨o₁, o₂, ho₁, hsel, heq⟩
    obtain rfl : o = o₁ := Except.ok.inj ho₁
    have hparse := parseLine_of_selectedOptions (fun hm => hline (hpre.subset hm)) (by rw [hq]; rfl)
      hsel (by rw [← heq.1]; exact hid)
    exact not_equals_of_count_lt hdelim σ hid hpre hcount hparse heq

end Plugin

/-! ### Exporting -/

section Export

open PluginConfiguration

variable (σ : IterationOrder Text (Option Text)) (defaultConfig : Text → Option Text)

/-- What is written about the selected plugin. -/
def writtenPlugin (o : PluginOptions) : Option Text :=
  if o.id = [] then none else some (o.print σ false)

/-- What is written about the name. -/
def writtenName (name : Text) : Option Text := if name = [] then none else some name

variable {p : Profile}

theorem selectedOptions_of_shareable (hp : p.Shareable) : ∃ o,
    p.selectedOptions defaultConfig = .ok o ∧ Named o ∧ (o.id = [] → o = PluginOptions.empty) ∧
      '\n' ∉ o.print σ false := by
  obtain ⟨hline, c, hc⟩ := hp.plugin
  obtain ⟨o, ho, -, hn, hempty⟩ := selectedOptions_ofText hc defaultConfig
  have hsel : p.selectedOptions defaultConfig = .ok o := by
    rw [Profile.selectedOptions, hc]
    exact ho
  refine ⟨o, hsel, hn, hempty, ?_⟩
  by_cases hid : o.id = []
  · rw [hempty hid]
    exact List.not_mem_nil
  · exact newline_not_mem_print σ hline (parseLine_of_selectedOptions hline rfl hsel hid)

theorem encode_cons_ne_nil (d : Char) (s : Text) : Percent.encode (d :: s) ≠ [] := by
  obtain ⟨x, hx, -⟩ := getLast?_encodeChar d
  rw [Percent.encode, List.flatMap_cons]
  intro h
  rw [(List.append_eq_nil_iff.mp h).1] at hx
  simp at hx

theorem toText_eq {c : PluginConfiguration} {o : PluginOptions} {name : Text}
    (hc : p.configuration = .ok c) (hsel : p.selectedOptions defaultConfig = .ok o)
    (hname : p.name = some name) :
    p.toText σ defaultConfig = .ok (p.link (writtenPlugin σ o) (writtenName name)) := by
  have hco : c.selectedOptions defaultConfig = .ok o := by
    rw [Profile.selectedOptions, hc] at hsel
    exact hsel
  have hid : o.id = c.selected := by
    obtain ⟨o', ho', hid', -⟩ := selectedOptions_ofText hc defaultConfig
    obtain rfl : o' = o := Except.ok.inj (ho'.symm.trans hco)
    exact hid'
  have hnamed : ∀ b : Uri.Builder, b.fragment = none →
      (if isNullOrEmpty p.name then b else b.setFragment (p.name.getD [])).toText
        = Uri.text b.scheme b.encodedAuthority (b.query.filter (· ≠ []))
            ((writtenName name).map Percent.encode) := by
    intro b hb
    rw [hname]
    cases name with
    | nil => simp [isNullOrEmpty, writtenName, hb, Uri.Builder.toText]
    | cons d name =>
      simp [isNullOrEmpty, writtenName, Uri.Builder.setFragment, Uri.Builder.toText,
        Option.filter_some, encode_cons_ne_nil d name]
  rw [toText, toUri, hc]
  by_cases hsel' : c.selected = []
  · simp only [hsel', ne_eq, not_true_eq_false, if_false, Except.map]
    rw [hnamed _ rfl, writtenPlugin, if_pos (hid.trans hsel')]
    rfl
  · simp only [hsel', ne_eq, not_false_eq_true, if_true, hco, Except.map]
    rw [hnamed _ rfl, writtenPlugin, if_neg (by rw [hid]; exact hsel')]
    have hquery : ∀ key value : Text, Uri.parameter key value ≠ [] := by simp [Uri.parameter]
    simp [Uri.Builder.appendQueryParameter, link, Option.filter_some, hquery]

variable (uri : URI) (toLowerCase : Text → Text) (feature : Option Profile)

theorem sameServer_recognised_iff {o : PluginOptions} {name : Text}
    (hsel : p.selectedOptions defaultConfig = .ok o) (hname : p.name = some name)
    (plugin name' : Option Text) :
    SameServer defaultConfig p (recognised feature p plugin name') ↔ name'.getD [] = name ∧
      Agree (.ok o) ((recognised feature p plugin name').selectedOptions defaultConfig) := by
  rw [← hsel]
  constructor
  · intro h
    refine ⟨?_, h.plugin⟩
    have hn := h.name
    rw [hname] at hn
    exact Option.some.inj hn
  · rintro ⟨hn, hplugin⟩
    refine ⟨rfl, rfl, rfl, rfl, ?_, hplugin⟩
    rw [hname]
    exact congrArg some hn

/-- **What is left of a profile leads to the same server** exactly if nothing was lost. -/
theorem sameServer_matched_iff {o : PluginOptions} {name : Text}
    (hsel : p.selectedOptions defaultConfig = .ok o) (ho : Named o)
    (hempty : o.id = [] → o = PluginOptions.empty) (hline : '\n' ∉ o.print σ false)
    (hname : p.name = some name) (h : 63 ∉ Base64.sextets (Text.utf8 p.credentials)) :
    SameServer defaultConfig p
        (recognised feature p (matchedParts (writtenPlugin σ o) (writtenName name)).1
          (matchedParts (writtenPlugin σ o) (writtenName name)).2) ↔
      p.Recognisable σ defaultConfig := by
  have hcut : cut name = name ↔ Unbroken name :=
    ⟨fun hc => by rw [← hc]; exact unbroken_cut name, cut_eq_self⟩
  have hnil : Unbroken [] := ⟨List.not_mem_nil, by simp⟩
  have hrec : p.Recognisable σ defaultConfig ↔ Unbroken name ∧ (o.id ≠ [] →
      '_' ∉ o.print σ false ∧ (name = [] → (o.print σ false).getLast? ≠ some '!') ∧
        PluginOptions.ControlFree o ∧ kcptunPrefix.isPrefixOf o.id = false) := by
    constructor
    · rintro ⟨-, hn, hp⟩
      rw [hname] at hn hp
      refine ⟨hn, fun hid => ?_⟩
      simpa using hp o hsel hid
    · rintro ⟨hn, hp⟩
      refine ⟨h, by rw [hname]; exact hn, fun o' ho' hid => ?_⟩
      obtain rfl : o = o' := Except.ok.inj (hsel.symm.trans ho')
      rw [hname]
      simpa using hp hid
  rw [sameServer_recognised_iff defaultConfig feature hsel hname, hrec]
  by_cases hid : o.id = []
  · have hagree : ∀ name' : Option Text,
        Agree (.ok o) ((recognised feature p none name').selectedOptions defaultConfig) :=
      fun name' => ⟨o, PluginOptions.empty, rfl, rfl, by rw [hempty hid]; exact PluginOptions.Equals.refl _⟩
    by_cases hn : name = []
    · simp [writtenPlugin, writtenName, matchedParts, hid, hn, hagree, hnil]
    · simp [writtenPlugin, writtenName, matchedParts, hid, hn, hagree, hcut]
  · by_cases hn : name = []
    · have hagree := agree_cut_iff σ defaultConfig ho hid hline
        (q := recognised feature p (some (cut (o.print σ false))) none) rfl
      simp only [writtenPlugin, writtenName, matchedParts, hid, hn, if_true, if_false, hagree]
      constructor
      · rintro ⟨-, ⟨hunder, hmark⟩, hc, hk⟩
        exact ⟨hnil, fun _ => ⟨hunder, fun _ => hmark, hc, hk⟩⟩
      · rintro ⟨-, hp⟩
        obtain ⟨hunder, hmark, hc, hk⟩ := hp hid
        exact ⟨rfl, ⟨hunder, hmark trivial⟩, hc, hk⟩
    · by_cases hv : '_' ∈ o.print σ false
      · have hne : ([] : Text) ≠ name := fun h => hn h.symm
        simp [writtenPlugin, writtenName, matchedParts, hid, hn, hv, hne]
      · have hagree := agree_print_iff σ defaultConfig ho hid hline
          (q := recognised feature p (some (o.print σ false)) (some (cut name))) rfl
        simp [writtenPlugin, writtenName, matchedParts, hid, hn, hv, hagree, hcut]

/-- The line of a profile, and what is read from it. -/
theorem read_line (hp : p.Shareable) : ∃ (line : Text) (r : Option Profile),
    p.toText σ defaultConfig = .ok line ∧
      findAllUrls uri toLowerCase feature (some line) = .ok r.toList ∧
      ((∃ q, r = some q ∧ SameServer defaultConfig p q) ↔ p.Recognisable σ defaultConfig) := by
  obtain ⟨o, hsel, ho, hempty, hline⟩ := selectedOptions_of_shareable σ defaultConfig hp
  obtain ⟨name, hname, -⟩ := hp.name
  obtain ⟨-, c, hc⟩ := hp.plugin
  have htext := toText_eq σ defaultConfig hc hsel hname
  by_cases h : 63 ∈ Base64.sextets (Text.utf8 p.credentials)
  · obtain ⟨r, hr, hnone⟩ := findAllUrls_broken uri toLowerCase feature hp h
      (writtenPlugin σ o) (writtenName name)
    refine ⟨_, r, htext, hr, ?_, fun hrec => absurd h hrec.credentials⟩
    rintro ⟨q, rfl, hq⟩
    have hn := hq.name
    rw [hnone q rfl, hname] at hn
    simp at hn
  · refine ⟨_, some _, htext, findAllUrls_link uri toLowerCase feature hp h _ _, ?_⟩
    rw [← sameServer_matched_iff σ defaultConfig feature hsel ho hempty hline hname h]
    simp

/-- One result for each, in order, exactly if each gives a result. -/
theorem forall₂_filterMap_iff {α β : Type*} {R : α → β → Prop} {g : α → Option β} :
    ∀ {xs : List α}, List.Forall₂ R xs (xs.filterMap g) ↔ ∀ x ∈ xs, ∃ y, g x = some y ∧ R x y
  | [] => by simp
  | x :: xs => by
    have ih : List.Forall₂ R xs (xs.filterMap g) ↔ ∀ x ∈ xs, ∃ y, g x = some y ∧ R x y :=
      forall₂_filterMap_iff
    cases hx : g x with
    | none =>
      rw [List.filterMap_cons_none hx]
      constructor
      · intro h
        have hlen := h.length_eq
        have hle := List.length_filterMap_le g xs
        rw [List.length_cons] at hlen
        omega
      · intro h
        obtain ⟨y, hy, -⟩ := h x List.mem_cons_self
        rw [hx] at hy
        simp at hy
    | some y =>
      rw [List.filterMap_cons_some hx, List.forall₂_cons, ih]
      simp [hx]

/-- **Exporting and importing.**  The profiles read from the exported text are the exported ones, one
for each and in their order, if and only if each of them is recognisable. -/
theorem importExport_iff (uri : URI) (toLowerCase : Text → Text) (feature : Option Profile)
    (σ : IterationOrder Text (Option Text)) (defaultConfig : Text → Option Text)
    {profiles : List Profile} (h : ∀ p ∈ profiles, p.Shareable) :
    (∃ text read, exportText σ defaultConfig profiles = .ok text ∧
        findAllUrls uri toLowerCase feature (some text) = .ok read ∧
        List.Forall₂ (SameServer defaultConfig) profiles read) ↔
      ∀ p ∈ profiles, p.Recognisable σ defaultConfig := by
  have hlines : ∀ p, ∃ (line : Text) (r : Option Profile), p ∈ profiles →
      p.toText σ defaultConfig = .ok line ∧
        findAllUrls uri toLowerCase feature (some line) = .ok r.toList ∧
        ((∃ q, r = some q ∧ SameServer defaultConfig p q) ↔ p.Recognisable σ defaultConfig) := by
    intro p
    by_cases hp : p ∈ profiles
    · obtain ⟨line, r, hr⟩ := read_line σ defaultConfig uri toLowerCase feature (h p hp)
      exact ⟨line, r, fun _ => hr⟩
    · exact ⟨[], none, fun hp' => absurd hp' hp⟩
  choose line r hline using hlines
  have htext : exportText σ defaultConfig profiles = .ok (Text.join ['\n'] (profiles.map line)) := by
    have hall : List.Forall₂ (fun p t => p.toText σ defaultConfig = .ok t) profiles
        (profiles.map line) :=
      List.forall₂_map_right_iff.mpr (List.forall₂_same.mpr fun p hp => (hline p hp).1)
    rw [exportText, mapM_eq_ok_iff.mpr hall]
    rfl
  have hread : findAllUrls uri toLowerCase feature (some (Text.join ['\n'] (profiles.map line)))
      = .ok (profiles.filterMap r) := by
    let read : Text → List Profile := fun l =>
      match findAllUrls uri toLowerCase feature (some l) with
      | .ok qs => qs
      | .error _ => []
    have hlineRead : ∀ p ∈ profiles, read (line p) = (r p).toList := by
      intro p hp
      show (match findAllUrls uri toLowerCase feature (some (line p)) with
        | .ok qs => qs
        | .error _ => []) = _
      rw [(hline p hp).2.1]
    have hall : ∀ l ∈ profiles.map line,
        findAllUrls uri toLowerCase feature (some l) = .ok (read l) := by
      intro l hl
      obtain ⟨p, hp, rfl⟩ := List.mem_map.mp hl
      rw [hlineRead p hp, (hline p hp).2.1]
    rw [findAllUrls_join uri toLowerCase feature hall, List.flatMap_map,
      List.filterMap_eq_flatMap_toList]
    exact congrArg Except.ok (List.flatMap_congr fun p hp => hlineRead p hp)
  have hiff : List.Forall₂ (SameServer defaultConfig) profiles (profiles.filterMap r) ↔
      ∀ p ∈ profiles, p.Recognisable σ defaultConfig := by
    rw [forall₂_filterMap_iff]
    exact forall₂_congr fun p hp => (hline p hp).2.2
  rw [← hiff]
  constructor
  · rintro ⟨text, read, htext', hread', hall⟩
    obtain rfl := Except.ok.inj (htext.symm.trans htext')
    obtain rfl := Except.ok.inj (hread.symm.trans hread')
    exact hall
  · intro hall
    exact ⟨_, _, htext, hread, hall⟩

end Export

/-- With a plugin and a name. -/
def shared : Profile :=
  { name := some "home (a)".toList, host := "2001:db8::1".toList
    plugin := some "obfs-local;obfs=http".toList }

theorem shared_shareable : shared.Shareable where
  method := by decide
  password := by decide
  host :=
    @IsHost.ipv6Compressed ["2001".toList, "db8".toList] ["1".toList] 1 (by decide) (by decide)
      (by decide)
  remotePort := by decide
  name := ⟨_, rfl, by decide⟩
  plugin := ⟨by decide, _, rfl⟩

theorem shared_recognisable :
    shared.Recognisable (IterationOrder.stored _ _) (fun _ => none) where
  credentials := by decide
  name := ⟨by decide, by decide⟩
  plugin := by
    intro o ho _
    have hsel : shared.selectedOptions (fun _ => none) = .ok
        { PluginOptions.empty with
          id := "obfs-local".toList
          map := LinkedMap.empty.put "obfs".toList (some "http".toList) } := rfl
    obtain rfl := Except.ok.inj (hsel.symm.trans ho)
    exact ⟨by decide, by decide, by decide, by decide⟩

theorem shared_returns : shared.Shareable ∧
    ∃ text read, exportText (IterationOrder.stored _ _) (fun _ => none) [shared] = .ok text ∧
      findAllUrls URI.splitting (List.map Char.toLower) none (some text) = .ok read ∧
      List.Forall₂ (SameServer fun _ => none) [shared] read :=
  ⟨shared_shareable,
    (importExport_iff URI.splitting (List.map Char.toLower) none (IterationOrder.stored _ _)
      (fun _ => none) (by simpa using shared_shareable)).mpr (by simpa using shared_recognisable)⟩

/-- The last group of six bits of its password is the digit `_`. -/
def underscored : Profile := { password := "ab?".toList }

theorem shareable_of_default {p : Profile} (hmethod : p.method = "aes-256-cfb".toList)
    (hpassword : Text.SingleLine p.password) (hhost : p.host = "198.199.101.152".toList)
    (hport : p.remotePort = 8388) (hname : p.name = some []) (hplugin : p.plugin = none) :
    p.Shareable where
  method := by rw [hmethod]; decide
  password := hpassword
  host := by rw [hhost]; exact IsHost.ipv4 (by decide)
  remotePort := by rw [hport]; decide
  name := ⟨[], hname, by decide⟩
  plugin := by
    rw [Profile.configuration, hplugin]
    exact ⟨by simp, _, rfl⟩

/-- Nothing is read from its line. -/
theorem underscored_lost : underscored.Shareable ∧
    ¬ ∃ text read, exportText (IterationOrder.stored _ _) (fun _ => none) [underscored] = .ok text ∧
      findAllUrls URI.splitting (List.map Char.toLower) none (some text) = .ok read ∧
      List.Forall₂ (SameServer fun _ => none) [underscored] read := by
  refine ⟨shareable_of_default rfl (by decide) rfl rfl rfl rfl, ?_⟩
  have htext : exportText (IterationOrder.stored _ _) (fun _ => none) [underscored]
      = .ok "ss://YWVzLTI1Ni1jZmI6YWI_@198.199.101.152:8388".toList := by
    decide +kernel
  have hread : findAllUrls URI.splitting (List.map Char.toLower) none
      (some "ss://YWVzLTI1Ni1jZmI6YWI_@198.199.101.152:8388".toList) = .ok [] := by
    decide +kernel
  rintro ⟨text, read, htext', hread', hall⟩
  obtain rfl := Except.ok.inj (htext.symm.trans htext')
  obtain rfl := Except.ok.inj (hread.symm.trans hread')
  exact absurd hall.length_eq (by decide)

end Profile

end SsAndroid
