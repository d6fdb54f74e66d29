import SsAndroid.Database.UdpFallbacks
import SsAndroid.Database.LinkFields
import SsAndroid.Database.PrivateStore

/-!
# The ports of imported profiles

The profile screen takes ports from 1 to 65535 only, with `parsePort`.  Links and documents have
parsers of their own.  The old links end with digits, which are converted and not looked at; the
port of the others is what `java.net.URI` finds, which is -1 when there is none; and a document's
port is checked from below only.

`linkPort` is the port a link has, and `passed` are the profiles `parseJson` passes to `create`.
**`ports_iff`** says which texts and documents give only profiles with ports the screen would take.
-/

namespace SsAndroid

/-- A port the profile screen takes. -/
def IsPort (n : Int) : Prop := 1 ≤ n ∧ n ≤ 65535

instance (n : Int) : Decidable (IsPort n) := inferInstanceAs (Decidable (_ ∧ _))

/-- `parsePort` keeps exactly the ports. -/
theorem parsePort_eq_self_iff {n default : Int} (hdefault : IsPort default) :
    parsePort (some (Number.ofInt n)) default 1 = n ↔ IsPort n := by
  constructor
  · intro h
    rw [parsePort] at h
    split at h
    · rw [← h]
      exact hdefault
    · rw [← h]
      constructor <;> omega
  · intro h
    have hlo : 1 ≤ n := h.1
    exact parsePort_ofInt hlo (by omega) h.2

/-! ### Links -/

namespace Profile

open Regex

section Links

variable (uri : URI) (toLowerCase : Text → Text) (feature : Option Profile)

/-- The profiles the sequence of `findAllUrls` yields: an exception ends it. -/
def yielded : List Text → List Profile
  | [] => []
  | value :: rest =>
      match ofUrl uri toLowerCase feature value with
      | .error _ => []
      | .ok q => q.toList ++ yielded rest

/-- The port of a link that is read as a profile, as it is found in the link. -/
def linkPort (value : Text) : Option Int :=
  match Uri.userInfo value with
  | none =>
      match (Uri.host value).bind fun encoded => (Base64.decode false encoded).bind fun bytes =>
          Regex.matchEntire legacyPattern (Utf8.decode bytes) with
      | some [_, _, _, _, _, _, port] => Number.parseInt port
      | _ => none
  | some userInfo =>
      match (Base64.decode true userInfo).bind fun bytes =>
          Regex.matchEntire userInfoPattern (Utf8.decode bytes) with
      | some [_, _, _] => (uri.parse value).map Prod.snd
      | _ => none

/-- A link in which there is something to decode. -/
def hasServer (value : Text) : Bool := (Uri.userInfo value).isSome || (Uri.host value).isSome

/-- **One link.**  Its profile has the port that is found in it. -/
theorem ofUrl_cases (value : Text) :
    (hasServer value = false ∧ ofUrl uri toLowerCase feature value = .error .nullPointer) ∨
    (hasServer value = true ∧ ∃ r, ofUrl uri toLowerCase feature value = .ok r ∧
      r.map Profile.remotePort = linkPort uri value) := by
  rw [hasServer, ofUrl, linkPort]
  cases huser : Uri.userInfo value with
  | some userInfo =>
    refine Or.inr ⟨rfl, _, rfl, ?_⟩
    simp only
    rw [ofUserInfo]
    split
    · rename_i hmatch
      simp only [hmatch, Option.map_map]
      rfl
    · simp
  | none =>
    simp only
    rw [ofLegacyUrl]
    cases hhost : Uri.host value with
    | none => exact Or.inl ⟨rfl, rfl⟩
    | some encoded =>
      refine Or.inr ⟨rfl, ?_⟩
      simp only [Option.bind_some]
      split
      · rename_i hmatch
        refine ⟨_, rfl, ?_⟩
        simp only [hmatch, Option.map_map]
        exact Option.map_id'
      · refine ⟨none, rfl, ?_⟩
        simp

/-- What the sequence yields comes from the links before the first that throws. -/
theorem mem_yielded (q : Profile) : ∀ values : List Text,
    q ∈ yielded uri toLowerCase feature values ↔
      ∃ value ∈ values.takeWhile hasServer, ofUrl uri toLowerCase feature value = .ok (some q)
  | [] => by simp [yielded]
  | value :: rest => by
    rw [yielded, List.takeWhile_cons]
    rcases ofUrl_cases uri toLowerCase feature value with ⟨hserver, hthrow⟩ | ⟨hserver, r, hr, -⟩
    · simp [hthrow, hserver]
    · rw [if_pos hserver, List.exists_mem_cons_iff, ← mem_yielded q rest]
      simp [hr]

theorem reduceOption_eq_yielded {values : List Text} {rs : List (Option Profile)}
    (h : List.Forall₂ (fun value r => ofUrl uri toLowerCase feature value = .ok r) values rs) :
    rs.reduceOption = yielded uri toLowerCase feature values := by
  induction h with
  | nil => rfl
  | @cons value r values rs hr _ ih =>
    rw [yielded, hr, ← ih]
    cases r <;> rfl

/-- A call that returns returns everything the sequence yields. -/
theorem findAllUrls_eq_yielded {data : Option Text} {ps : List Profile}
    (h : findAllUrls uri toLowerCase feature data = .ok ps) :
    ps = yielded uri toLowerCase feature (findAll pattern (data.getD [])) := by
  obtain ⟨rs, hrs, rfl⟩ := findAllUrls_eq_ok uri toLowerCase feature h
  exact reduceOption_eq_yielded uri toLowerCase feature (mapM_eq_ok_iff.mp hrs)

/-- What is asked of the links of a text. -/
structure LinksChecked (data : Option Text) : Prop where
  returned : ∀ ps, findAllUrls uri toLowerCase feature data = .ok ps →
    ∀ q ∈ ps, IsPort q.remotePort
  yielded : ∀ q ∈ yielded uri toLowerCase feature (findAll pattern (data.getD [])),
    IsPort q.remotePort
  refused : ∀ value ∈ (findAll pattern (data.getD [])).takeWhile hasServer,
    (∀ n, linkPort uri value = some n → ¬IsPort n) →
      ofUrl uri toLowerCase feature value = .ok none

theorem linksChecked_iff (data : Option Text) : LinksChecked uri toLowerCase feature data ↔
    ∀ value ∈ (findAll pattern (data.getD [])).takeWhile hasServer,
      ∀ n, linkPort uri value = some n → IsPort n := by
  constructor
  · intro h value hvalue n hn
    rcases ofUrl_cases uri toLowerCase feature value with ⟨hserver, -⟩ | ⟨-, r, hr, hport⟩
    · rw [List.mem_takeWhile_imp hvalue] at hserver
      cases hserver
    · rw [hn] at hport
      obtain ⟨q, rfl, hq⟩ := Option.map_eq_some_iff.mp hport
      rw [← hq]
      exact h.yielded q ((mem_yielded uri toLowerCase feature q _).mpr ⟨value, hvalue, hr⟩)
  · intro h
    have hyielded : ∀ q ∈ Profile.yielded uri toLowerCase feature (findAll pattern (data.getD [])),
        IsPort q.remotePort := by
      intro q hq
      obtain ⟨value, hvalue, hq⟩ := (mem_yielded uri toLowerCase feature q _).mp hq
      rcases ofUrl_cases uri toLowerCase feature value with ⟨-, hthrow⟩ | ⟨-, r, hr, hport⟩
      · rw [hthrow] at hq
        cases hq
      · obtain rfl : r = some q := Except.ok.inj (hr.symm.trans hq)
        exact h value hvalue _ hport.symm
    refine ⟨?_, hyielded, ?_⟩
    · intro ps hps
      rw [findAllUrls_eq_yielded uri toLowerCase feature hps]
      exact hyielded
    · intro value hvalue hbad
      rcases ofUrl_cases uri toLowerCase feature value with ⟨hserver, -⟩ | ⟨-, r, hr, hport⟩
      · rw [List.mem_takeWhile_imp hvalue] at hserver
        cases hserver
      · cases r with
        | none => exact hr
        | some q => exact absurd (h value hvalue _ hport.symm) (hbad _ hport.symm)

end Links

end Profile

/-! ### Objects -/

namespace JsonParser

variable (gson : Gson) (σ : IterationOrder Text (Option Text)) (feature : Option Profile)

/-- The port of an object, as it is found in the object. -/
def serverPort (object : List (String × Json)) : Option Int :=
  optInt gson (object.lookup "server_port")

theorem address_port {object : List (String × Json)} {a : Text × Int × Text × Text}
    (h : address gson object = some a) : serverPort gson object = some a.2.1 ∧ 0 < a.2.1 := by
  simp only [address, Option.bind_eq_bind, Option.bind_eq_some_iff, Option.filter_eq_some_iff,
    decide_eq_true_eq, Option.pure_def, Option.some.injEq] at h
  obtain ⟨host, -, port, ⟨hport, hpos⟩, password, -, method, -, rfl⟩ := h
  exact ⟨hport, hpos⟩

/-- Nothing is thrown for the plugins an object and its fallback name. -/
def PluginsReadable (object : List (String × Json)) : Prop :=
  (∃ plugin, pluginText gson σ object = .ok plugin) ∧
    ∀ fallback, object.lookup "udp_fallback" = some (.obj fallback) →
      (address gson fallback).isSome = true → ∃ plugin, pluginText gson σ fallback = .ok plugin

/-- What the parser does not check: the port is not too large. -/
def PortBounded (object : List (String × Json)) : Prop :=
  (address gson object).isSome = true → ∀ n, serverPort gson object = some n → n ≤ 65535

theorem portBounded_iff {object : List (String × Json)} {a : Text × Int × Text × Text}
    (h : address gson object = some a) : PortBounded gson object ↔ IsPort a.2.1 := by
  obtain ⟨hport, hpos⟩ := address_port gson h
  constructor
  · intro hbounded
    exact ⟨hpos, hbounded (by rw [h]; rfl) _ hport⟩
  · intro hisPort _ n hn
    rw [hport] at hn
    rw [← Option.some.inj hn]
    exact hisPort.2

theorem tryParseFallback_isOk (object : List (String × Json)) :
    (∃ r, tryParseFallback gson σ feature object = .ok r) ↔
      ((address gson object).isSome = true → ∃ plugin, pluginText gson σ object = .ok plugin) := by
  rw [tryParseFallback]
  cases address gson object with
  | none => simp
  | some a =>
    cases pluginText gson σ object with
    | error e => simp [Except.map]
    | ok plugin => simp [Except.map]

/-- An object with an address is read unless a plugin makes it throw. -/
theorem tryParse_isOk {object : List (String × Json)} (h : (address gson object).isSome = true) :
    (∃ r, tryParse gson σ feature object = .ok r) ↔ PluginsReadable gson σ object := by
  have hmain := tryParseFallback_isOk gson σ feature object
  rw [PluginsReadable, tryParse]
  cases hp : tryParseFallback gson σ feature object with
  | error e =>
    have hplugin : ¬ ∃ plugin, pluginText gson σ object = .ok plugin := by
      intro hplugin
      obtain ⟨r, hr⟩ := hmain.mpr fun _ => hplugin
      rw [hp] at hr
      cases hr
    simp [hplugin]
  | ok r =>
    have hplugin := hmain.mp ⟨r, hp⟩ h
    have hkey := (tryParseFallback_ok gson σ feature hp).1
    cases r with
    | none =>
      rw [← hkey] at h
      cases h
    | some p =>
      simp only [hplugin, true_and]
      split
      · rename_i fallback hf
        simp only [hf, Option.some.injEq, Json.obj.injEq, forall_eq',
          ← tryParseFallback_isOk gson σ feature]
        cases tryParseFallback gson σ feature fallback <;> simp [Except.map]
      · rename_i hf
        exact ⟨fun _ fallback hfallback => absurd hfallback (hf fallback), fun _ => ⟨_, rfl⟩⟩

end JsonParser

/-! ### Documents -/

namespace ProfileManager

open JsonParser

/-- The fallbacks the loop of `finalize` passes to `create`. -/
def passedFallbacks (replaced : Option (LinkedMap Text Profile)) (profiles created : List Profile)
    (s : Importing) : List (Nat × Profile) → List Profile
  | [] => []
  | (i, fallback) :: rest =>
      match created[i]? with
      | none => passedFallbacks replaced profiles created s rest
      | some profile =>
          let passed := if (profiles.find? (isMatch fallback)).isSome then [] else [fallback]
          match linkFallback replaced profiles s profile fallback with
          | (_, some _) => passed
          | (s, none) => passed ++ passedFallbacks replaced profiles created s rest

/-- A fallback that is passed to `create` is one of the parser's. -/
theorem mem_passedFallbacks {replaced : Option (LinkedMap Text Profile)}
    {profiles created : List Profile} {f : Profile} (es : List (Nat × Profile)) :
    ∀ s : Importing, f ∈ passedFallbacks replaced profiles created s es → ∃ e ∈ es, e.2 = f := by
  induction es with
  | nil =>
    intro s h
    cases h
  | cons e es ih =>
    obtain ⟨i, fallback⟩ := e
    intro s h
    have hlater : ∀ s, f ∈ passedFallbacks replaced profiles created s es →
        ∃ e ∈ (i, fallback) :: es, e.2 = f := by
      intro s hf
      obtain ⟨e, he, hef⟩ := ih s hf
      exact ⟨e, List.mem_cons_of_mem _ he, hef⟩
    have hnow : f ∈ (if (profiles.find? (isMatch fallback)).isSome then [] else [fallback]) →
        ∃ e ∈ (i, fallback) :: es, e.2 = f := by
      intro hf
      split at hf
      · cases hf
      · exact ⟨_, List.mem_cons_self, (List.mem_singleton.mp hf).symm⟩
    rw [passedFallbacks] at h
    split at h
    · exact hlater s h
    · simp only at h
      split at h
      · exact hnow h
      · rcases List.mem_append.mp h with h | h
        · exact hnow h
        · exact hlater _ h

theorem Stored.keys {sequence : Int} {ps rows : List Profile} (h : Stored sequence ps rows) :
    rows.map Profile.key = ps.map Profile.key := by
  apply List.ext_getElem?
  intro i
  rw [List.getElem?_map, List.getElem?_map]
  cases hp : ps[i]? with
  | none =>
    rw [List.getElem?_eq_none_iff, ← h.length_eq] at hp
    rw [List.getElem?_eq_none hp]
  | some p =>
    obtain ⟨r, hr, -, hkey, -⟩ := h.row i p hp
    rw [hr]
    exact congrArg some hkey

/-- The keys of the rows do not change when a link is set. -/
theorem relink_keys (id target : Int) (rows : List Profile) :
    (relink id target rows).map Profile.key = rows.map Profile.key := by
  have h := congrArg (List.map Profile.key) (relink_unlinked id target rows)
  rw [List.map_map, List.map_map] at h
  exact h

/-- **What the loop passes to `create` is what it stores.** -/
theorem linkFallbacks_keys {replaced : Option (LinkedMap Text Profile)}
    {profiles created : List Profile} (es : List (Nat × Profile)) :
    ∀ s : Importing, s.Ready replaced →
    (∀ p ∈ created, ∃ row ∈ s.store.rows, row.unlinked = p.unlinked) →
    (linkFallbacks replaced profiles created s es).1.Ready replaced ∧
      (linkFallbacks replaced profiles created s es).1.store.rows.map Profile.key
        = s.store.rows.map Profile.key ++
          (passedFallbacks replaced profiles created s es).map Profile.key := by
  induction es with
  | nil =>
    intro s hready _
    exact ⟨hready, (List.append_nil _).symm⟩
  | cons e es ih =>
    obtain ⟨i, fallback⟩ := e
    intro s hready hcreated
    rw [linkFallbacks, passedFallbacks]
    cases hget : created[i]? with
    | none => exact ih s hready hcreated
    | some profile =>
      obtain ⟨row, hrow, hsame⟩ := hcreated profile (List.mem_of_getElem? hget)
      obtain ⟨s', hs', hready', -, hrows⟩ := linkFallback_relink profiles fallback hready hrow hsame
      have hadded : (fallbackRows replaced profiles s.store fallback).map Profile.key =
          (if (profiles.find? (isMatch fallback)).isSome then [] else [fallback]).map
            Profile.key := by
        rw [fallbackRows]
        cases profiles.find? (isMatch fallback) with
        | some q => rfl
        | none => exact congrArg (fun key => [key]) (newRow_same replaced s.store fallback).1
      have hcreated' : ∀ p ∈ created, ∃ row ∈ s'.store.rows, row.unlinked = p.unlinked := by
        intro p hp
        rw [hrows]
        exact relink_keeps _ _ _ (hcreated p hp)
      obtain ⟨hdone, hkeys⟩ := ih s' hready' hcreated'
      simp only [hs']
      refine ⟨hdone, ?_⟩
      rw [hkeys, hrows, relink_keys, List.map_append, hadded, List.map_append, List.append_assoc]

section Documents

variable (gson : Gson) (σ : IterationOrder Text (Option Text)) (feature : Option Profile)

/-- The profiles `parseJson` passes to `create`. -/
def passed (replaced : Option (LinkedMap Text Profile)) (s : Importing) (json : Json) :
    List Profile :=
  match process gson σ feature empty json with
  | .error _ => []
  | .ok parser =>
      let (s, created) := createAll replaced s parser.profiles
      parser.profiles ++
        passedFallbacks replaced s.store.list created s parser.fallbackMap.entries

/-- **What `parseJson` passes to `create` is what it stores.** -/
theorem parseJson_keys (replaced : Option (LinkedMap Text Profile)) (s : Importing) (json : Json) :
    ((parseJson gson σ feature replaced s json).1.base replaced).rows.map Profile.key
      = (s.base replaced).rows.map Profile.key ++
        (passed gson σ feature replaced s json).map Profile.key := by
  rw [parseJson, passed]
  rcases process_cases gson σ feature json with ⟨e, herror, -⟩ | ⟨parser, rs, hok, -, hread⟩
  · rw [herror]
    exact (List.append_nil _).symm
  · rw [hok]
    obtain ⟨hrows, -, hstored, hready⟩ := createAll_stored replaced parser.profiles s
    by_cases hempty : parser.profiles = []
    · -- no profile, and so no fallback
      simp only [hempty, hread.fallbackMap_of_no_profiles hempty]
      exact (List.append_nil _).symm
    · have hready := hready hempty
      rw [hready.base_eq] at hrows
      obtain ⟨hdone, hloop⟩ := linkFallbacks_keys parser.fallbackMap.entries _
        hready fun p hp => ⟨p, by rw [hrows]; exact List.mem_append_right _ hp, rfl⟩
      simp only
      rw [hdone.base_eq, hloop, hrows, List.map_append, hstored.keys, List.map_append,
        List.append_assoc]

/-- What is asked of the objects of a document. -/
structure DocumentChecked (replaced : Option (LinkedMap Text Profile)) (s : Importing)
    (json : Json) : Prop where
  passed : ∀ q ∈ passed gson σ feature replaced s json, IsPort q.remotePort
  refused : ∀ parser, process gson σ feature empty json = .ok parser →
    ∀ o ∈ profileObjects gson json,
      ((∀ n, serverPort gson o = some n → ¬IsPort n) → tryParse gson σ feature o = .ok none) ∧
      ∀ fallback, o.lookup "udp_fallback" = some (.obj fallback) →
        (∀ n, serverPort gson fallback = some n → ¬IsPort n) →
          tryParseFallback gson σ feature fallback = .ok none

/-- The documents that are read. -/
theorem process_isOk (json : Json) : (∃ parser, process gson σ feature empty json = .ok parser) ↔
    ∀ o ∈ profileObjects gson json, PluginsReadable gson σ o := by
  have haddress := address_of_mem_profileObjects gson json
  constructor
  · rintro ⟨parser, hparser⟩ o ho
    rw [← tryParse_isOk gson σ feature (haddress o ho)]
    rcases process_cases gson σ feature json with ⟨e, herror, -⟩ | ⟨s, rs, -, hread, -⟩
    · rw [herror] at hparser
      cases hparser
    · obtain ⟨i, hi⟩ := List.mem_iff_getElem?.mp ho
      obtain ⟨r, -, hr⟩ := (readAs_object gson σ feature hread i).1 o hi
      exact ⟨some r, hr⟩
  · intro h
    rcases process_cases gson σ feature json with ⟨e, -, hnone⟩ | ⟨s, rs, hok, -, -⟩
    · have hread : ∀ o ∈ profileObjects gson json,
          ∃ r, tryParse gson σ feature o = .ok (some r) := by
        intro o ho
        obtain ⟨r, hr⟩ := (tryParse_isOk gson σ feature (haddress o ho)).mpr (h o ho)
        obtain ⟨p, f, rfl, -⟩ := tryParse_some gson σ feature hr (haddress o ho)
        exact ⟨_, hr⟩
      have hnonempty : Nonempty (Profile × Option Profile) := ⟨({}, none)⟩
      choose! read hread using hread
      refine absurd ?_ (hnone ((profileObjects gson json).map read))
      exact List.forall₂_map_right_iff.mpr (List.forall₂_same.mpr hread)
    · exact ⟨s, hok⟩

/-- An object and its fallback have ports that are not too large. -/
def PortsBounded (object : List (String × Json)) : Prop :=
  PortBounded gson object ∧
    ∀ fallback, object.lookup "udp_fallback" = some (.obj fallback) → PortBounded gson fallback

/-- What an object with such ports is read as. -/
theorem PortsBounded.isPort {object : List (String × Json)} (h : PortsBounded gson object)
    (haddress : (address gson object).isSome = true) {p : Profile} {f : Option Profile}
    (hr : tryParse gson σ feature object = .ok (some (p, f))) :
    IsPort p.remotePort ∧ ∀ q, f = some q → IsPort q.remotePort := by
  obtain ⟨p', f', heq, hkey, -, hfallback, -⟩ := tryParse_some gson σ feature hr haddress
  obtain ⟨rfl, rfl⟩ := Prod.mk.inj (Option.some.inj heq)
  refine ⟨(portBounded_iff gson hkey).mp h.1, ?_⟩
  rintro q rfl
  rw [udpFallbackAddress] at hfallback
  split at hfallback
  · rename_i fallback hf
    exact (portBounded_iff gson hfallback.symm).mp (h.2 fallback hf)
  · cases hfallback

theorem documentChecked_iff (replaced : Option (LinkedMap Text Profile)) (s : Importing)
    (json : Json) : DocumentChecked gson σ feature replaced s json ↔
      ((∀ o ∈ profileObjects gson json, PluginsReadable gson σ o) →
        ∀ o ∈ profileObjects gson json, PortsBounded gson o) := by
  have haddress := address_of_mem_profileObjects gson json
  constructor
  · intro h hreadable o ho
    obtain ⟨parser, hparser⟩ := (process_isOk gson σ feature json).mpr hreadable
    obtain ⟨hobject, hfallback⟩ := h.refused parser hparser o ho
    constructor
    · intro hsome n hn
      by_contra hlt
      have hrefused := hobject fun m hm hisPort => by
        rw [hn] at hm
        rw [Option.some.inj hm] at hlt
        exact hlt hisPort.2
      obtain ⟨p, f, hr, -⟩ := tryParse_some gson σ feature hrefused hsome
      cases hr
    · intro fallback hf hsome n hn
      by_contra hlt
      have hrefused := hfallback fallback hf fun m hm hisPort => by
        rw [hn] at hm
        rw [Option.some.inj hm] at hlt
        exact hlt hisPort.2
      have hkey := (tryParseFallback_ok gson σ feature hrefused).1
      rw [← hkey] at hsome
      cases hsome
  · intro h
    constructor
    · intro q hq
      rw [passed] at hq
      rcases process_cases gson σ feature json with
        ⟨e, herror, -⟩ | ⟨parser, rs, hok, hread, hparser⟩
      · rw [herror] at hq
        cases hq
      · rw [hok] at hq
        have hbounded := h ((process_isOk gson σ feature json).mp ⟨parser, hok⟩)
        have hports : ∀ p f, (p, f) ∈ rs →
            IsPort p.remotePort ∧ ∀ q, f = some q → IsPort q.remotePort := by
          intro p f hr
          obtain ⟨i, hi⟩ := List.mem_iff_getElem?.mp hr
          obtain ⟨o, hget, hparse⟩ := (readAs_object gson σ feature hread i).2 _ hi
          have ho := List.mem_of_getElem? hget
          exact (hbounded o ho).isPort gson σ feature (haddress o ho) hparse
        rcases List.mem_append.mp hq with hq | hq
        · rw [hparser.profiles] at hq
          obtain ⟨⟨p, f⟩, hr, rfl⟩ := List.mem_map.mp hq
          exact (hports p f hr).1
        · obtain ⟨e, he, rfl⟩ := mem_passedFallbacks _ _ hq
          obtain ⟨p, hr⟩ := hparser.value e he
          exact (hports p _ hr).2 _ rfl
    · intro parser hparser o ho
      have hbounded := h ((process_isOk gson σ feature json).mp ⟨parser, hparser⟩) o ho
      constructor
      · intro hbad
        obtain ⟨a, ha⟩ := Option.isSome_iff_exists.mp (haddress o ho)
        exact absurd ((portBounded_iff gson ha).mp hbounded.1) (hbad _ (address_port gson ha).1)
      · intro fallback hf hbad
        cases ha : address gson fallback with
        | none => rw [tryParseFallback, ha]
        | some a =>
          exact absurd ((portBounded_iff gson ha).mp (hbounded.2 fallback hf))
            (hbad _ (address_port gson ha).1)

end Documents

end ProfileManager

/-! ### Both -/

section Imports

open Profile ProfileManager JsonParser

/-- **The ports of imported profiles.**  The links of a text give only profiles with ports the
profile screen takes exactly if the ports found in them are such ports; and a document does exactly
if the ports of its objects and of their fallbacks are not too large, provided that it can be
read. -/
theorem ports_iff (uri : URI) (toLowerCase : Text → Text) (gson : Gson)
    (σ : IterationOrder Text (Option Text)) (feature : Option Profile) (data : Option Text)
    (replaced : Option (LinkedMap Text Profile)) (s : Importing) (json : Json) :
    (LinksChecked uri toLowerCase feature data ↔
      ∀ value ∈ (Regex.findAll pattern (data.getD [])).takeWhile hasServer,
        ∀ n, linkPort uri value = some n → IsPort n) ∧
    (DocumentChecked gson σ feature replaced s json ↔
      ((∀ o ∈ profileObjects gson json, PluginsReadable gson σ o) →
        ∀ o ∈ profileObjects gson json, PortsBounded gson o)) :=
  ⟨linksChecked_iff uri toLowerCase feature data,
    documentChecked_iff gson σ feature replaced s json⟩

/-- An object with a port that is too large. -/
def largePort : Json :=
  .obj [("server", .str ['h']), ("server_port", .ofInt 70000), ("password", .str ['p']),
    ("method", .str ['m'])]

/-- Links of both formats that give profiles with the ports 0 and -1 (`m:p@h:0`, and `m:p` as user
info of a link without a port), and a document that gives one with the port 70000. -/
theorem bad_ports_imported :
    ¬LinksChecked URI.splitting id none (some "ss://bTpwQGg6MA".toList) ∧
    ¬LinksChecked URI.splitting id none (some "ss://bTpw@h".toList) ∧
    ¬DocumentChecked Gson.plain (IterationOrder.stored _ _) none none
      ⟨⟨[], 0, List.nodup_nil, by simp⟩, false⟩ largePort := by
  let profile (remotePort : Int) (name : Option Text) : Profile :=
    { method := ['m'], password := ['p'], host := ['h'], remotePort := remotePort, name := name }
  refine ⟨?_, ?_, ?_⟩
  · intro h
    have hport := h.returned [profile 0 none] (by decide +kernel) _ List.mem_cons_self
    exact absurd hport (by decide)
  · intro h
    have hport := h.returned [profile (-1) (some [])] (by decide +kernel) _ List.mem_cons_self
    exact absurd hport (by decide)
  · intro h
    have hport := h.passed (profile 70000 none) (by decide +kernel)
    exact absurd hport (by decide)

end Imports

end SsAndroid
