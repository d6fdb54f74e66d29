import SsAndroid.Database.Profile

/-!
# The profile store: export and import

`ProfileStore` is the table of profiles.  Its rows have distinct ids, none above the last id handed
out (`AUTOINCREMENT` never reuses one, not even after the table was emptied), and it is listed by
`userOrder`.

`serializeToJson` exports a list of profiles.  `createProfilesFromJson` imports documents; with
`replace` the store is emptied right before the first profile is created, so that a document without
profiles changes nothing.  An exception inside a document ends that document only and is thrown
after the last one, with what was stored until then.
-/

namespace SsAndroid

/-- The table `Profile` and the last id handed out for it. -/
structure ProfileStore where
  rows : List Profile
  sequence : Int
  nodup : (rows.map Profile.id).Nodup
  le_sequence : ∀ p ∈ rows, p.id ≤ sequence

namespace ProfileStore

/-- `SELECT * FROM Profile ORDER BY userOrder`. -/
def list (s : ProfileStore) : List Profile :=
  s.rows.mergeSort (fun p q => p.userOrder ≤ q.userOrder)

/-- `SELECT MAX(userOrder) + 1 FROM Profile`. -/
def nextOrder (s : ProfileStore) : Option Int :=
  (s.rows.map Profile.userOrder).max?.map (· + 1)

/-- `DELETE FROM Profile`. -/
def deleteAll (s : ProfileStore) : ProfileStore :=
  { rows := []
    sequence := s.sequence
    nodup := List.nodup_nil
    le_sequence := by simp }

theorem id_ne_of_mem (s : ProfileStore) {p : Profile} (hp : p ∈ s.rows) : p.id ≠ s.sequence + 1 := by
  have := s.le_sequence p hp
  omega

/-- `INSERT` of a profile without an id. -/
def insert (s : ProfileStore) (p : Profile) : ProfileStore :=
  { rows := s.rows ++ [{ p with id := s.sequence + 1 }]
    sequence := s.sequence + 1
    nodup := by
      rw [List.map_append, List.nodup_append]
      refine ⟨s.nodup, by simp, ?_⟩
      intro x hx y hy
      obtain ⟨q, hq, rfl⟩ := List.mem_map.mp hx
      obtain rfl : y = s.sequence + 1 := by simpa using hy
      exact s.id_ne_of_mem hq
    le_sequence := by
      intro q hq
      rcases List.mem_append.mp hq with hq | hq
      · have := s.le_sequence q hq
        omega
      · rw [List.mem_singleton.mp hq] }

/-- The rows after an update: the one with the profile's id is replaced. -/
def updateRows (rows : List Profile) (p : Profile) : List Profile :=
  rows.map (fun q => if q.id = p.id then p else q)

theorem updateRows_ids (rows : List Profile) (p : Profile) :
    (updateRows rows p).map Profile.id = rows.map Profile.id := by
  rw [updateRows, List.map_map]
  apply List.map_congr_left
  intro q _
  show (if q.id = p.id then p else q).id = q.id
  split
  · rename_i h
    exact h.symm
  · rfl

/-- `UPDATE` of the row with the profile's id. -/
def update (s : ProfileStore) (p : Profile) : ProfileStore :=
  { rows := updateRows s.rows p
    sequence := s.sequence
    nodup := by
      rw [updateRows_ids]
      exact s.nodup
    le_sequence := by
      intro q hq
      have hid : q.id ∈ s.rows.map Profile.id := by
        rw [← updateRows_ids s.rows p]
        exact List.mem_map_of_mem hq
      obtain ⟨r, hr, hrq⟩ := List.mem_map.mp hid
      rw [← hrq]
      exact s.le_sequence r hr }

/-- `createProfile`: the store, and the profile with the id and the place it got. -/
def createProfile (s : ProfileStore) (p : Profile) : ProfileStore × Profile :=
  let p := { p with userOrder := s.nextOrder.getD 0 }
  (s.insert p, { p with id := s.sequence + 1 })

/-- `updateProfile`, with its `check` that there is such a row. -/
def updateProfile (s : ProfileStore) (p : Profile) : ProfileStore × Option Exn :=
  if p.id ∈ s.rows.map Profile.id then (s.update p, none)
  else (s, some (.illegalState "Check failed."))

end ProfileStore

namespace ProfileManager

/-! ### Export -/

/-- The profiles by id (`LongSparseArray`). -/
def lookup (profiles : List Profile) : LinkedMap Int Profile :=
  LinkedMap.ofEntries (profiles.map fun p => (p.id, p))

/-- `profiles.map { it.toJson(lookup) }`, or the first exception. -/
def toJsons (σ : IterationOrder Text (Option Text)) (defaultConfig : Text → Option Text)
    (lookup : Int → Option Profile) : List Profile → Except Exn (List Json)
  | [] => .ok []
  | p :: ps =>
      match p.toJson σ defaultConfig lookup with
      | .error e => .error e
      | .ok json => (toJsons σ defaultConfig lookup ps).map (fun jsons => json :: jsons)

/-- `serializeToJson(profiles)`. -/
def serializeToJson (σ : IterationOrder Text (Option Text)) (defaultConfig : Text → Option Text)
    (profiles : List Profile) : Except Exn Json :=
  (toJsons σ defaultConfig (lookup profiles).get? profiles).map Json.arr

/-! ### Import -/

/-- The store during an import, and whether `lazyClear` has run. -/
structure Importing where
  store : ProfileStore
  cleared : Bool

/-- The lambda that creates an imported profile; `replaced` are the profiles listed before, by
address, when they are to be replaced. -/
def create (replaced : Option (LinkedMap Text Profile)) (s : Importing) (p : Profile) :
    Importing × Profile :=
  match replaced with
  | none =>
      let (store, p) := s.store.createProfile p
      ({ s with store := store }, p)
  | some profiles =>
      let store := if s.cleared then s.store else s.store.deleteAll
      let p :=
        match profiles.get? p.formattedAddress with
        | some old => { p with tx := old.tx, rx := old.rx }
        | none => p
      let (store, p) := store.createProfile p
      ({ store := store, cleared := true }, p)

/-- `for (profile in this) create(profile)`. -/
def createAll (replaced : Option (LinkedMap Text Profile)) (s : Importing) :
    List Profile → Importing × List Profile
  | [] => (s, [])
  | p :: ps =>
      let (s, p) := create replaced s p
      let (s, ps) := createAll replaced s ps
      (s, p :: ps)

/-- A stored profile a fallback can be linked to. -/
def isMatch (fallback p : Profile) : Bool :=
  fallback.host = p.host && fallback.remotePort = p.remotePort && fallback.password = p.password &&
    fallback.method = p.method && Profile.isNullOrEmpty p.plugin

/-- One entry of `fallbackMap` in `finalize`; `profiles` is the list taken before the loop. -/
def linkFallback (replaced : Option (LinkedMap Text Profile)) (profiles : List Profile)
    (s : Importing) (profile fallback : Profile) : Importing × Option Exn :=
  let (s, id) :=
    match profiles.find? (isMatch fallback) with
    | some p => (s, p.id)
    | none =>
        let (s, fallback) := create replaced s fallback
        (s, fallback.id)
  let (store, exn) := s.store.updateProfile { profile with udpFallback := some id }
  ({ s with store := store }, exn)

/-- The loop of `finalize`; `created` are the parser's profiles with their ids. -/
def linkFallbacks (replaced : Option (LinkedMap Text Profile)) (profiles created : List Profile)
    (s : Importing) : List (Nat × Profile) → Importing × Option Exn
  | [] => (s, none)
  | (i, fallback) :: rest =>
      match created[i]? with
      | none => linkFallbacks replaced profiles created s rest
      | some profile =>
          match linkFallback replaced profiles s profile fallback with
          | (s, some e) => (s, some e)
          | (s, none) => linkFallbacks replaced profiles created s rest

section Import

variable (gson : Gson) (σ : IterationOrder Text (Option Text))

/-- `Profile.parseJson`. -/
def parseJson (feature : Option Profile) (replaced : Option (LinkedMap Text Profile))
    (s : Importing) (json : Json) : Importing × Option Exn :=
  match JsonParser.process gson σ feature JsonParser.empty json with
  | .error e => (s, some e)
  | .ok parser =>
      let (s, created) := createAll replaced s parser.profiles
      linkFallbacks replaced s.store.list created s parser.fallbackMap.entries

/-- `forEachTry`: every document is processed, and the first exception is thrown at the end. -/
def forEachTry {τ α : Type} (action : τ → α → τ × Option Exn) (s : τ) : List α → τ × Option Exn
  | [] => (s, none)
  | a :: as =>
      let (s, e) := action s a
      let (s, e') := forEachTry action s as
      (s, e.or e')

/-- `associateBy { it.formattedAddress }`. -/
def byAddress (profiles : List Profile) : LinkedMap Text Profile :=
  LinkedMap.ofEntries (profiles.map fun p => (p.formattedAddress, p))

/-- `singleOrNull { it.id == id }`. -/
def singleOrNull (id : Int) (profiles : List Profile) : Option Profile :=
  match profiles.filter (fun p => p.id = id) with
  | [p] => some p
  | _ => none

/-- The feature profile of an import that replaces the store. -/
def featureOf (profileId : Int) (store : ProfileStore) : Option Profile :=
  singleOrNull profileId ((byAddress store.list).entries.map Prod.snd)

/-- `createProfilesFromJson(jsons, replace)`.  `profileId` is `DataStore.profileId` and
`currentProfile` is `Core.currentProfile?.first`. -/
def createProfilesFromJson (profileId : Int) (currentProfile : Option Profile) (replace : Bool)
    (store : ProfileStore) (jsons : List Json) : ProfileStore × Option Exn :=
  let replaced := if replace then some (byAddress store.list) else none
  let feature := if replace then featureOf profileId store else currentProfile
  let (s, e) := forEachTry (parseJson gson σ feature replaced) ⟨store, false⟩ jsons
  (s.store, e)

end Import

end ProfileManager

end SsAndroid
