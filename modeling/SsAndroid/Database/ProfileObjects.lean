import SsAndroid.Database.ImportRun

/-!
# What the parser makes of a document

`profileObjects` are the objects of a document that are taken for profiles, in the order of the
document: an object that has an address is one, and is not searched for others.  `process` is one
loop over them (`process_eq`), so that the rest of the development needs no recursion over JSON
values.

`Read` says what the parser holds afterwards.  Its profiles are those of the objects.  Its fallbacks
stand under the places of profiles, one place for all profiles that are equal: the first of those
that came with a fallback.
-/

namespace SsAndroid

open ProfileManager

namespace JsonParser

variable (gson : Gson)

mutual

/-- The objects of a document that are taken for profiles. -/
def profileObjects : Json → List (List (String × Json))
  | .obj json => if (address gson json).isSome then [json] else profileObjectsOfEntries json
  | .arr json => profileObjectsOfElements json
  | _ => []

def profileObjectsOfElements : List Json → List (List (String × Json))
  | [] => []
  | json :: rest => profileObjects json ++ profileObjectsOfElements rest

def profileObjectsOfEntries : List (String × Json) → List (List (String × Json))
  | [] => []
  | (_, json) :: rest => profileObjects json ++ profileObjectsOfEntries rest

end

variable (σ : IterationOrder Text (Option Text)) (feature : Option Profile)

/-- One object that is taken for a profile. -/
def addObject (s : JsonParser) (object : List (String × Json)) : Except Exn JsonParser :=
  match tryParse gson σ feature object with
  | .error e => .error e
  | .ok none => .ok s
  | .ok (some (profile, fallback)) => .ok (s.add profile fallback)

/-- `process` for a list of objects that are taken for profiles. -/
def addObjects (s : JsonParser) : List (List (String × Json)) → Except Exn JsonParser
  | [] => .ok s
  | object :: rest =>
      match addObject gson σ feature s object with
      | .error e => .error e
      | .ok s => addObjects s rest

theorem addObjects_append (os ps : List (List (String × Json))) : ∀ s : JsonParser,
    addObjects gson σ feature s (os ++ ps)
      = match addObjects gson σ feature s os with
        | .error e => .error e
        | .ok s => addObjects gson σ feature s ps := by
  induction os with
  | nil => intro s; rfl
  | cons o os ih =>
    intro s
    rw [List.cons_append, addObjects, addObjects]
    cases addObject gson σ feature s o with
    | error e => rfl
    | ok s' => exact ih s'

/-- An object is no profile when it has no address. -/
theorem tryParse_none {object : List (String × Json)} (h : address gson object = none) :
    tryParse gson σ feature object = .ok none := by
  rw [tryParse, tryParseFallback, h]

/-- What a profile object is read as, apart from the exception. -/
theorem tryParseFallback_ok {object : List (String × Json)} {r : Option Profile}
    (h : tryParseFallback gson σ feature object = .ok r) :
    (r.map Profile.key) = address gson object ∧ ∀ p, r = some p → p.udpFallback = none := by
  rw [tryParseFallback] at h
  cases ha : address gson object with
  | none =>
    rw [ha] at h
    cases h
    exact ⟨rfl, by simp⟩
  | some a =>
    obtain ⟨host, remotePort, password, method⟩ := a
    rw [ha] at h
    cases hp : pluginText gson σ object with
    | error e =>
      rw [hp] at h
      simp [Except.map] at h
    | ok plugin =>
      rw [hp] at h
      cases h
      cases feature <;> exact ⟨rfl, by simp [Profile.copyFeatureSettingsTo]⟩

theorem parseSettings_key (object : List (String × Json)) (p : Profile) :
    (parseSettings gson object p).key = p.key ∧
      (parseSettings gson object p).udpFallback = p.udpFallback := by
  unfold parseSettings
  simp only
  split <;> exact ⟨rfl, rfl⟩

/-- The address of the fallback an object carries, when the fallback is a valid profile. -/
def udpFallbackAddress (object : List (String × Json)) : Option (Text × Int × Text × Text) :=
  match object.lookup "udp_fallback" with
  | some (.obj fallback) => address gson fallback
  | _ => none

/-- What an object with an address is read as. -/
theorem tryParse_some {object : List (String × Json)} {r : Option (Profile × Option Profile)}
    (h : tryParse gson σ feature object = .ok r) (ha : (address gson object).isSome = true) :
    ∃ p f, r = some (p, f) ∧ address gson object = some p.key ∧ p.udpFallback = none ∧
      f.map Profile.key = udpFallbackAddress gson object ∧
      ∀ q, f = some q → q.udpFallback = none := by
  rw [tryParse] at h
  cases hp : tryParseFallback gson σ feature object with
  | error e =>
    rw [hp] at h
    cases h
  | ok r' =>
    rw [hp] at h
    obtain ⟨hkey, hnull⟩ := tryParseFallback_ok gson σ feature hp
    cases r' with
    | none =>
      rw [← hkey] at ha
      simp at ha
    | some p =>
      obtain ⟨hkey', hnull'⟩ := parseSettings_key gson object p
      have haddress : address gson object = some (parseSettings gson object p).key := by
        rw [hkey', ← hkey]
        rfl
      have hnull₀ : (parseSettings gson object p).udpFallback = none :=
        hnull'.trans (hnull p rfl)
      simp only at h
      split at h
      · rename_i fallback hf
        cases hq : tryParseFallback gson σ feature fallback with
        | error e =>
          rw [hq] at h
          simp [Except.map] at h
        | ok q =>
          rw [hq] at h
          cases h
          obtain ⟨hqkey, hqnull⟩ := tryParseFallback_ok gson σ feature hq
          exact ⟨_, q, rfl, haddress, hnull₀, by rw [hqkey, udpFallbackAddress, hf], hqnull⟩
      · rename_i hf
        cases h
        refine ⟨_, none, rfl, haddress, hnull₀, ?_, by simp⟩
        rw [udpFallbackAddress]
        split
        · rename_i fallback hf'
          exact absurd hf' (hf fallback)
        · rfl

mutual

/-- **`process` is a loop over the profile objects of the document.** -/
theorem process_eq (s : JsonParser) : ∀ json : Json, process gson σ feature s json
    = addObjects gson σ feature s (profileObjects gson json)
  | .null => rfl
  | .bool _ => rfl
  | .num _ => rfl
  | .str _ => rfl
  | .arr json => by
    rw [process, profileObjects]
    exact processElements_eq s json
  | .obj json => by
    rw [process, profileObjects]
    cases ha : address gson json with
    | none =>
      rw [tryParse_none gson σ feature ha]
      exact processEntries_eq s json
    | some a =>
      show _ = addObjects gson σ feature s [json]
      rw [addObjects, addObject]
      cases hp : tryParse gson σ feature json with
      | error e => rfl
      | ok r =>
        obtain ⟨p, f, rfl, -⟩ := tryParse_some gson σ feature hp (by rw [ha]; rfl)
        rfl

theorem processElements_eq (s : JsonParser) : ∀ json : List Json,
    processElements gson σ feature s json
      = addObjects gson σ feature s (profileObjectsOfElements gson json)
  | [] => rfl
  | json :: rest => by
    rw [processElements, profileObjectsOfElements, addObjects_append, process_eq s json]
    cases addObjects gson σ feature s (profileObjects gson json) with
    | error e => rfl
    | ok s' => exact processElements_eq s' rest

theorem processEntries_eq (s : JsonParser) : ∀ json : List (String × Json),
    processEntries gson σ feature s json
      = addObjects gson σ feature s (profileObjectsOfEntries gson json)
  | [] => rfl
  | (_, json) :: rest => by
    rw [processEntries, profileObjectsOfEntries, addObjects_append, process_eq s json]
    cases addObjects gson σ feature s (profileObjects gson json) with
    | error e => rfl
    | ok s' => exact processEntries_eq s' rest

end

mutual

theorem address_of_mem_profileObjects : ∀ (json : Json) (o : List (String × Json)),
    o ∈ profileObjects gson json → (address gson o).isSome = true
  | .null, o, h => by simp [profileObjects] at h
  | .bool _, o, h => by simp [profileObjects] at h
  | .num _, o, h => by simp [profileObjects] at h
  | .str _, o, h => by simp [profileObjects] at h
  | .arr json, o, h => by
    rw [profileObjects] at h
    exact address_of_mem_elements json o h
  | .obj json, o, h => by
    rw [profileObjects] at h
    split at h
    · rename_i ha
      rw [List.mem_singleton.mp h]
      exact ha
    · exact address_of_mem_entries json o h

theorem address_of_mem_elements : ∀ (json : List Json) (o : List (String × Json)),
    o ∈ profileObjectsOfElements gson json → (address gson o).isSome = true
  | [], o, h => by simp [profileObjectsOfElements] at h
  | json :: rest, o, h => by
    rw [profileObjectsOfElements] at h
    rcases List.mem_append.mp h with h | h
    · exact address_of_mem_profileObjects json o h
    · exact address_of_mem_elements rest o h

theorem address_of_mem_entries : ∀ (json : List (String × Json)) (o : List (String × Json)),
    o ∈ profileObjectsOfEntries gson json → (address gson o).isSome = true
  | [], o, h => by simp [profileObjectsOfEntries] at h
  | (_, json) :: rest, o, h => by
    rw [profileObjectsOfEntries] at h
    rcases List.mem_append.mp h with h | h
    · exact address_of_mem_profileObjects json o h
    · exact address_of_mem_entries rest o h

end

/-! ### The places fallbacks stand under -/

/-- The parser after objects that were read as `rs`, each a profile and the fallback it came with. -/
structure Read (s : JsonParser) (rs : List (Profile × Option Profile)) : Prop where
  profiles : s.profiles = rs.map Prod.fst
  /-- A place belongs to the first of the equal profiles with a fallback. -/
  place : ∀ k ∈ s.fallbackMap.entries.map Prod.fst, ∃ p f : Profile, rs[k]? = some (p, some f) ∧
    ∀ j < k, ∀ f' : Profile, rs[j]? ≠ some (p, some f')
  /-- Every profile with a fallback has a place, its own or that of an equal one. -/
  placed : ∀ (i : Nat) (p f : Profile), rs[i]? = some (p, some f) →
    ∃ k ∈ s.fallbackMap.entries.map Prod.fst, s.profiles[k]? = some p
  /-- A profile that no other one with a fallback is equal to has its own fallback. -/
  alone : ∀ (i : Nat) (p f : Profile), rs[i]? = some (p, some f) →
    (∀ (j : Nat) (f' : Profile), rs[j]? = some (p, some f') → j = i) → (i, f) ∈ s.fallbackMap.entries
  /-- A fallback came with a profile. -/
  value : ∀ e ∈ s.fallbackMap.entries, ∃ p, (p, some e.2) ∈ rs

theorem read_empty : Read empty [] := by
  refine ⟨rfl, ?_, ?_, ?_, ?_⟩
  · intro k hk
    simp [empty, LinkedMap.empty] at hk
  · intro i p f h
    simp at h
  · intro i p f h
    simp at h
  · intro e he
    simp [empty, LinkedMap.empty] at he

/-- A place is the place of a profile. -/
theorem Read.place_lt {s : JsonParser} {rs : List (Profile × Option Profile)} (h : Read s rs)
    {k : Nat} (hk : k ∈ s.fallbackMap.entries.map Prod.fst) : k < s.profiles.length := by
  obtain ⟨p, f, hget, -⟩ := h.place k hk
  rw [h.profiles, List.length_map]
  exact (List.getElem?_eq_some_iff.mp hget).1

/-- No profile, no fallback. -/
theorem Read.fallbackMap_of_no_profiles {s : JsonParser} {rs : List (Profile × Option Profile)}
    (h : Read s rs) (hempty : s.profiles = []) : s.fallbackMap.entries = [] := by
  rw [List.eq_nil_iff_forall_not_mem]
  intro e he
  have hlt := h.place_lt (List.mem_map_of_mem he)
  rw [hempty] at hlt
  simp at hlt

/-- Profiles are looked up at the same places after one more. -/
theorem getElem?_snoc_of_some {α : Type*} {xs : List α} {x y : α} {i : Nat}
    (h : xs[i]? = some y) : (xs ++ [x])[i]? = some y := by
  rw [List.getElem?_append_left (List.getElem?_eq_some_iff.mp h).1]
  exact h

theorem getElem?_snoc_cases {α : Type*} {xs : List α} {x y : α} {i : Nat}
    (h : (xs ++ [x])[i]? = some y) : xs[i]? = some y ∨ (i = xs.length ∧ y = x) := by
  rcases Nat.lt_trichotomy i xs.length with hi | hi | hi
  · rw [List.getElem?_append_left hi] at h
    exact Or.inl h
  · subst hi
    rw [List.getElem?_concat_length] at h
    exact Or.inr ⟨rfl, (Option.some.inj h).symm⟩
  · rw [List.getElem?_eq_none (by simp; omega)] at h
    cases h

/-- A profile without a fallback takes no place. -/
theorem Read.add_none {s : JsonParser} {rs : List (Profile × Option Profile)} (h : Read s rs)
    (p : Profile) : Read (s.add p none) (rs ++ [(p, none)]) := by
  have hback : ∀ {i : Nat} {q f : Profile}, (rs ++ [(p, none)])[i]? = some (q, some f) →
      rs[i]? = some (q, some f) := by
    intro i q f hget
    rcases getElem?_snoc_cases hget with hget | ⟨-, heq⟩
    · exact hget
    · simp at heq
  refine ⟨?_, ?_, ?_, ?_, ?_⟩
  · show s.profiles ++ [p] = _
    rw [h.profiles, List.map_append]
    rfl
  · intro k hk
    obtain ⟨q, f, hget, hfirst⟩ := h.place k hk
    exact ⟨q, f, getElem?_snoc_of_some hget, fun j hj f' hj' => hfirst j hj f' (hback hj')⟩
  · intro i q f hget
    obtain ⟨k, hk, hkq⟩ := h.placed i q f (hback hget)
    exact ⟨k, hk, getElem?_snoc_of_some hkq⟩
  · intro i q f hget halone
    exact h.alone i q f (hback hget) fun j f' hj => halone j f' (getElem?_snoc_of_some hj)
  · intro e he
    obtain ⟨q, hq⟩ := h.value e he
    exact ⟨q, List.mem_append_left _ hq⟩

/-- What `keyIndex` finds. -/
theorem Read.keyIndex_cases {s : JsonParser} {rs : List (Profile × Option Profile)} (h : Read s rs)
    (p : Profile) :
    (s.keyIndex p ∈ s.fallbackMap.entries.map Prod.fst ∧ s.profiles[s.keyIndex p]? = some p) ∨
      (s.keyIndex p = rs.length ∧ ∀ (i : Nat) (f : Profile), rs[i]? ≠ some (p, some f)) := by
  rw [keyIndex]
  split
  · rename_i e he
    have hplace := List.find?_some he
    exact Or.inl ⟨List.mem_map_of_mem (List.mem_of_find?_eq_some he), of_decide_eq_true hplace⟩
  · rename_i hnone
    refine Or.inr ⟨by rw [h.profiles, List.length_map], ?_⟩
    intro i f hget
    obtain ⟨k, hk, hkp⟩ := h.placed i p f hget
    obtain ⟨e, he, rfl⟩ := List.mem_map.mp hk
    exact List.find?_eq_none.mp hnone e he (decide_eq_true hkp)

/-- A fallback goes to the place of an equal profile, or to a new one. -/
theorem Read.add_some {s : JsonParser} {rs : List (Profile × Option Profile)} (h : Read s rs)
    (p f : Profile) : Read (s.add p (some f)) (rs ++ [(p, some f)]) := by
  have hprofiles : (s.add p (some f)).profiles = s.profiles ++ [p] := rfl
  have hentries : (s.add p (some f)).fallbackMap = s.fallbackMap.put (s.keyIndex p) f := rfl
  have hkeys : ∀ k, k ∈ (s.add p (some f)).fallbackMap.entries.map Prod.fst ↔
      k = s.keyIndex p ∨ k ∈ s.fallbackMap.entries.map Prod.fst :=
    LinkedMap.mem_keys_putEntries (s.keyIndex p) f s.fallbackMap.entries
  have hlength : s.profiles.length = rs.length := by rw [h.profiles, List.length_map]
  refine ⟨?_, ?_, ?_, ?_, ?_⟩
  · rw [hprofiles, h.profiles, List.map_append]
    rfl
  · -- an old place stays; a new one is new because no equal profile has a place
    have hold : ∀ k ∈ s.fallbackMap.entries.map Prod.fst, ∃ q g : Profile,
        (rs ++ [(p, some f)])[k]? = some (q, some g) ∧
          ∀ j < k, ∀ g' : Profile, (rs ++ [(p, some f)])[j]? ≠ some (q, some g') := by
      intro k hk
      obtain ⟨q, g, hget, hfirst⟩ := h.place k hk
      refine ⟨q, g, getElem?_snoc_of_some hget, ?_⟩
      intro j hj g' hj'
      have hlt := h.place_lt hk
      rcases getElem?_snoc_cases hj' with hj' | ⟨heq, -⟩
      · exact hfirst j hj g' hj'
      · omega
    intro k hk
    rcases (hkeys k).mp hk with rfl | hk
    · rcases h.keyIndex_cases p with ⟨hmem, -⟩ | ⟨hnew, hno⟩
      · exact hold _ hmem
      · refine ⟨p, f, ?_, ?_⟩
        · rw [hnew, List.getElem?_concat_length]
        · intro j hj g' hj'
          rcases getElem?_snoc_cases hj' with hj' | ⟨heq, -⟩
          · exact hno j g' hj'
          · omega
    · exact hold k hk
  · intro i q g hget
    rcases getElem?_snoc_cases hget with hget | ⟨rfl, heq⟩
    · obtain ⟨k, hk, hkq⟩ := h.placed i q g hget
      exact ⟨k, (hkeys k).mpr (Or.inr hk), getElem?_snoc_of_some hkq⟩
    · obtain ⟨rfl, hg⟩ := Prod.mk.inj heq
      refine ⟨s.keyIndex q, (hkeys _).mpr (Or.inl rfl), ?_⟩
      rcases h.keyIndex_cases q with ⟨-, hget⟩ | ⟨hnew, -⟩
      · exact getElem?_snoc_of_some hget
      · rw [hprofiles, hnew, ← hlength, List.getElem?_concat_length]
  · intro i q g hget halone
    have halone' : ∀ (j : Nat) (g' : Profile), rs[j]? = some (q, some g') → j = i :=
      fun j g' hj => halone j g' (getElem?_snoc_of_some hj)
    rw [hentries, ← LinkedMap.get?_eq_some_iff, LinkedMap.get?_put]
    rcases getElem?_snoc_cases hget with hold | ⟨rfl, heq⟩
    · have hlt := (List.getElem?_eq_some_iff.mp hold).1
      have hne : i ≠ s.keyIndex p := by
        intro hi
        have hqp : q ≠ p := by
          rintro rfl
          have := halone rs.length f List.getElem?_concat_length
          omega
        rcases h.keyIndex_cases p with ⟨-, hp⟩ | ⟨hnew, -⟩
        · rw [← hi, h.profiles, List.getElem?_map, hold] at hp
          exact hqp (Option.some.inj hp)
        · omega
      rw [if_neg hne, LinkedMap.get?_eq_some_iff]
      exact h.alone i q g hold halone'
    · obtain ⟨rfl, hg⟩ := Prod.mk.inj heq
      have hnew : s.keyIndex q = rs.length := by
        rcases h.keyIndex_cases q with ⟨hmem, hq⟩ | ⟨hnew, -⟩
        · obtain ⟨q', g', hget', -⟩ := h.place _ hmem
          rw [h.profiles, List.getElem?_map, hget'] at hq
          obtain rfl : q' = q := Option.some.inj hq
          exact halone' _ g' hget'
        · exact hnew
      rw [if_pos hnew.symm, ← Option.some.inj hg]
  · intro e he
    rcases LinkedMap.mem_putEntries he with rfl | he
    · exact ⟨p, List.mem_append_right _ List.mem_cons_self⟩
    · obtain ⟨q, hq⟩ := h.value e he
      exact ⟨q, List.mem_append_left _ hq⟩

/-! ### The loop over the objects -/

/-- The objects are profile objects that can be read, and what they are read as. -/
def ReadAs (os : List (List (String × Json))) (rs : List (Profile × Option Profile)) : Prop :=
  List.Forall₂ (fun o r => tryParse gson σ feature o = .ok (some r)) os rs

/-- **The loop over objects that can be read.** -/
theorem addObjects_read {os : List (List (String × Json))}
    {rs : List (Profile × Option Profile)} (hread : ReadAs gson σ feature os rs) :
    ∀ (s : JsonParser) (done : List (Profile × Option Profile)), Read s done →
      ∃ s', addObjects gson σ feature s os = .ok s' ∧ Read s' (done ++ rs) := by
  induction hread with
  | nil =>
    intro s done h
    exact ⟨s, rfl, by rw [List.append_nil]; exact h⟩
  | @cons o r os rs hr _ ih =>
    intro s done h
    obtain ⟨p, f⟩ := r
    have hadd : Read (s.add p f) (done ++ [(p, f)]) := by
      cases f with
      | none => exact h.add_none p
      | some f => exact h.add_some p f
    obtain ⟨s', hs', hr'⟩ := ih _ _ hadd
    rw [List.append_assoc] at hr'
    refine ⟨s', ?_, hr'⟩
    rw [addObjects, addObject, hr]
    exact hs'

/-- A document that is processed could be read. -/
theorem readAs_of_addObjects {os : List (List (String × Json))}
    (haddress : ∀ o ∈ os, (address gson o).isSome = true) :
    ∀ s s' : JsonParser, addObjects gson σ feature s os = .ok s' →
      ∃ rs, ReadAs gson σ feature os rs := by
  induction os with
  | nil =>
    intro s s' _
    exact ⟨[], List.Forall₂.nil⟩
  | cons o os ih =>
    intro s s' h
    rw [addObjects, addObject] at h
    cases hp : tryParse gson σ feature o with
    | error e =>
      rw [hp] at h
      cases h
    | ok r =>
      obtain ⟨p, f, rfl, -⟩ := tryParse_some gson σ feature hp (haddress o List.mem_cons_self)
      rw [hp] at h
      obtain ⟨rs, hrs⟩ := ih (fun x hx => haddress x (List.mem_cons_of_mem _ hx)) _ _ h
      exact ⟨(p, f) :: rs, List.Forall₂.cons hp hrs⟩

/-- **What `process` makes of a document.**  It either cannot read it, or holds what its profile
objects are read as. -/
theorem process_cases (json : Json) :
    (∃ e, process gson σ feature empty json = .error e ∧
      ∀ rs, ¬ ReadAs gson σ feature (profileObjects gson json) rs) ∨
    ∃ s rs, process gson σ feature empty json = .ok s ∧
      ReadAs gson σ feature (profileObjects gson json) rs ∧ Read s rs := by
  rw [process_eq]
  cases hs : addObjects gson σ feature empty (profileObjects gson json) with
  | error e =>
    refine Or.inl ⟨e, rfl, ?_⟩
    intro rs hrs
    obtain ⟨s', hs', -⟩ := addObjects_read gson σ feature hrs empty [] read_empty
    rw [hs] at hs'
    cases hs'
  | ok s =>
    obtain ⟨rs, hrs⟩ := readAs_of_addObjects gson σ feature
      (address_of_mem_profileObjects gson json) empty s hs
    obtain ⟨s', hs', hread⟩ := addObjects_read gson σ feature hrs empty [] read_empty
    rw [hs] at hs'
    cases hs'
    exact Or.inr ⟨s, rs, rfl, hrs, hread⟩

/-- What the objects of a document are read as has no links yet. -/
theorem ReadAs.unlinked {json : Json} {rs : List (Profile × Option Profile)}
    (h : ReadAs gson σ feature (profileObjects gson json) rs) {p : Profile} {f : Option Profile}
    (hr : (p, f) ∈ rs) : p.udpFallback = none ∧ ∀ q, f = some q → q.udpFallback = none := by
  obtain ⟨i, hi, hget⟩ := List.mem_iff_getElem.mp hr
  have hlength := List.Forall₂.length_eq h
  have hparse := List.Forall₂.get h (by omega : i < (profileObjects gson json).length) hi
  obtain ⟨p', f', hr', -, hp, -, hf⟩ := tryParse_some gson σ feature hparse
    (address_of_mem_profileObjects gson json _ (List.get_mem _ _))
  rw [List.get_eq_getElem, hget] at hr'
  cases hr'
  exact ⟨hp, hf⟩

end JsonParser

end SsAndroid
