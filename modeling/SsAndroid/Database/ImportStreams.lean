import SsAndroid.Database.ImportLinks
import SsAndroid.Utils.DirectBoot

/-!
# Replacing all profiles by those of some streams

`createProfilesFromJson` over streams and both places profiles are kept in.  A stream is what
`JsonStreamParser` makes of it: top-level values, one after the other, until the end or until the text
is malformed.  A stream with no value or several is refused like a malformed one.

The old profiles are dropped, with the copy in device-protected storage, when the first profile is
created and not before (`createProfilesFromJson_replaces`): an import from which nothing can be read
costs nothing.
-/

namespace SsAndroid

/-- A stream as `JsonStreamParser` reads it. -/
inductive JsonStream
  /-- `hasNext` is false. -/
  | done
  /-- `hasNext` throws. -/
  | broken (e : Exn)
  /-- `hasNext` is true, and `next` throws or returns a value. -/
  | next (value : Except Exn Json) (rest : JsonStream)

/-- `asSequence().single()`. -/
def JsonStream.single : JsonStream → Except Exn Json
  | .done => .error .noSuchElement
  | .broken e => .error e
  | .next (.error e) _ => .error e
  | .next (.ok json) .done => .ok json
  | .next (.ok _) (.broken e) => .error e
  | .next (.ok _) (.next _ _) => .error (.illegalArgument "Sequence has more than one element.")

namespace ProfileManager

section Streams

variable (gson : Gson) (σ : IterationOrder Text (Option Text)) (feature : Option Profile)

/-- The body of `forEachTry`. -/
def importStream (replaced : Option (LinkedMap Text Profile)) (s : Importing) (json : JsonStream) :
    Importing × Option Exn :=
  match json.single with
  | .error e => (s, some e)
  | .ok json => parseJson gson σ feature replaced s json

/-! ### What the table should hold -/

/-- What the parser makes of a stream. -/
def parsed (json : JsonStream) : Except Exn JsonParser :=
  match json.single with
  | .error e => .error e
  | .ok json => JsonParser.process gson σ feature JsonParser.empty json

/-- What a stream adds to a table that was filled with `done`: its profiles, then those fallbacks that
are neither there nor among them. -/
def contribution (done : List Profile) (json : JsonStream) : List Profile :=
  match parsed gson σ feature json with
  | .error _ => []
  | .ok parser =>
      parser.profiles ++ (parser.fallbackMap.entries.map Prod.snd).filter fun fallback =>
        !(done ++ parser.profiles).any (isMatch fallback)

/-- The profiles of a list of streams, stream by stream. -/
def importedProfiles (done : List Profile) : List JsonStream → List Profile
  | [] => done
  | json :: rest => importedProfiles (done ++ contribution gson σ feature done json) rest

end Streams

/-! ### The table while it is filled -/

/-- The table holds `cs`, apart from the links. -/
structure Refilled (replaced : LinkedMap Text Profile) (sequence : Int) (s : Importing)
    (cs : List Profile) : Prop where
  rows : s.target.rows.map Profile.unlinked
    = (rowsOf replaced sequence cs).map Profile.unlinked
  sequence_eq : s.target.sequence = sequence + cs.length

section Refilled

variable {replaced : LinkedMap Text Profile} {sequence : Int}

theorem unlinked_orders (rows : List Profile) :
    (rows.map Profile.unlinked).map Profile.userOrder = rows.map Profile.userOrder := by
  rw [List.map_map]
  rfl

/-- The next row is the one of the next place. -/
theorem Refilled.newRow_eq {s : Importing} {cs : List Profile} (h : Refilled replaced sequence s cs)
    (c : Profile) : newRow (some replaced) s.target c = stored replaced sequence (c, cs.length) := by
  have horders : s.target.rows.map Profile.userOrder
      = (rowsOf replaced sequence cs).map Profile.userOrder := by
    rw [← unlinked_orders, h.rows, unlinked_orders]
  rw [newRow, nextOrder_rowsOf replaced sequence horders, h.sequence_eq, stored, Int.add_right_comm]
  rfl

theorem rowsOf_snoc (cs : List Profile) (c : Profile) : rowsOf replaced sequence (cs ++ [c])
    = rowsOf replaced sequence cs ++ [stored replaced sequence (c, cs.length)] :=
  rowsOf_append replaced sequence cs [c]

theorem create_refilled {s : Importing} {cs : List Profile} (h : Refilled replaced sequence s cs)
    (c : Profile) : (create (some replaced) s c).1.cleared = true ∧
      Refilled replaced sequence (create (some replaced) s c).1 (cs ++ [c]) := by
  have hc := create_created (some replaced) s c
  have hrow : (create (some replaced) s c).2 = stored replaced sequence (c, cs.length) :=
    hc.row_eq.trans (h.newRow_eq c)
  have htarget : (create (some replaced) s c).1.target = (create (some replaced) s c).1.store :=
    hc.ready.base_eq
  refine ⟨rfl, ?_, ?_⟩
  · rw [htarget, hc.rows, hrow, rowsOf_snoc, List.map_append, List.map_append]
    exact congrArg (· ++ _) h.rows
  · rw [htarget, hc.sequence]
    show s.target.sequence + 1 = _
    rw [h.sequence_eq, List.length_append, List.length_singleton]
    push_cast
    omega

theorem createAll_refilled (ds : List Profile) : ∀ (s : Importing) (cs : List Profile),
    Refilled replaced sequence s cs →
      Refilled replaced sequence (createAll (some replaced) s ds).1 (cs ++ ds) := by
  induction ds with
  | nil =>
    intro s cs h
    rw [List.append_nil]
    exact h
  | cons d ds ih =>
    intro s cs h
    have hrest := ih _ _ (create_refilled h d).2
    rw [List.append_assoc] at hrest
    exact hrest

/-- A fallback is matched by a row when it is matched by one of the profiles. -/
theorem Refilled.any_isMatch {s : Importing} {cs : List Profile}
    (h : Refilled replaced sequence s cs) (hcleared : s.cleared = true) (f : Profile) :
    s.store.list.any (isMatch f) = cs.any (isMatch f) := by
  have hstore : s.target = s.store := if_pos hcleared
  have hunlinked : ∀ rows : List Profile,
      (rows.map Profile.unlinked).any (isMatch f) = rows.any (isMatch f) := by
    intro rows
    rw [List.any_map]
    rfl
  have hstored : ∀ e : Profile × Nat,
      isMatch f (stored replaced sequence e) = isMatch f e.1 := by
    intro e
    obtain ⟨tx, rx, hstats⟩ := withStats_eq replaced e.1
    rw [stored, hstats]
    rfl
  calc s.store.list.any (isMatch f) = s.store.rows.any (isMatch f) :=
        (List.mergeSort_perm _ _).any_eq
    _ = (s.target.rows.map Profile.unlinked).any (isMatch f) := by rw [hstore, hunlinked]
    _ = (rowsOf replaced sequence cs).any (isMatch f) := by rw [h.rows, hunlinked]
    _ = cs.zipIdx.any (fun e => isMatch f e.1) := by
        rw [rowsOf, List.any_map]
        congr 1
        funext e
        exact hstored e
    _ = (cs.zipIdx.map Prod.fst).any (isMatch f) := by
        rw [List.any_map]
        rfl
    _ = cs.any (isMatch f) := by rw [List.zipIdx_map_fst]

/-- **The loop over the fallbacks** stores those that nothing listed matches, and throws nothing. -/
theorem linkFallbacks_refilled (listed created : List Profile) (es : List (Nat × Profile)) :
    ∀ (s : Importing) (cs : List Profile), Refilled replaced sequence s cs → s.cleared = true →
    (∀ p ∈ created, ∃ row ∈ s.store.rows, row.unlinked = p.unlinked) →
    ∃ s', linkFallbacks (some replaced) listed created s es = (s', none) ∧ s'.cleared = true ∧
      ((∀ e ∈ es, e.1 < created.length) → Refilled replaced sequence s'
        (cs ++ (es.map Prod.snd).filter fun f => !listed.any (isMatch f))) := by
  induction es with
  | nil =>
    intro s cs h hcleared _
    exact ⟨s, rfl, hcleared, fun _ => by simpa using h⟩
  | cons e es ih =>
    intro s cs h hcleared hcreated
    obtain ⟨i, f⟩ := e
    cases hget : created[i]? with
    | none =>
      obtain ⟨s', hs', hcleared', -⟩ := ih s cs h hcleared hcreated
      refine ⟨s', ?_, hcleared', ?_⟩
      · rw [linkFallbacks, hget]
        exact hs'
      · intro hlt
        have := hlt (i, f) List.mem_cons_self
        rw [List.getElem?_eq_none_iff] at hget
        omega
    | some profile =>
      have htarget : s.target = s.store := if_pos hcleared
      obtain ⟨row, hrow, hsame⟩ := hcreated profile (List.mem_of_getElem? hget)
      have hready₀ : s.Ready (some replaced) := fun _ => hcleared
      obtain ⟨s₁, hs₁, hready, hsequence, hrows⟩ := linkFallback_relink listed f hready₀ hrow hsame
      have hcleared₁ : s₁.cleared = true := hready rfl
      have htarget₁ : s₁.target = s₁.store := if_pos hcleared₁
      -- the row of the fallback, when there is one, is the next row
      have hadded : fallbackRows (some replaced) listed s.store f
          = (([f].filter fun f => !listed.any (isMatch f)).zipIdx cs.length).map
              (stored replaced sequence) := by
        rw [fallbackRows]
        cases hfind : listed.find? (isMatch f) with
        | some q =>
          have hany : listed.any (isMatch f) = true :=
            List.any_eq_true.mpr ⟨q, List.mem_of_find?_eq_some hfind, List.find?_some hfind⟩
          simp [hany]
        | none =>
          have hany : listed.any (isMatch f) = false := by
            rw [List.any_eq_false]
            exact List.find?_eq_none.mp hfind
          rw [← htarget, h.newRow_eq]
          simp [hany]
      have hrefilled : Refilled replaced sequence s₁
          (cs ++ [f].filter fun f => !listed.any (isMatch f)) := by
        constructor
        · rw [htarget₁, hrows, hadded, relink_unlinked, List.map_append, ← htarget, h.rows,
            rowsOf_append, List.map_append]
        · rw [htarget₁, hsequence, hadded, ← htarget, h.sequence_eq, List.length_map,
            List.length_zipIdx, List.length_append]
          push_cast
          omega
      have hcreated₁ : ∀ p ∈ created, ∃ row ∈ s₁.store.rows, row.unlinked = p.unlinked := by
        intro p hp
        rw [hrows]
        exact relink_keeps _ _ _ (hcreated p hp)
      obtain ⟨s', hs', hcleared', hrest⟩ := ih s₁ _ hrefilled hcleared₁ hcreated₁
      refine ⟨s', ?_, hcleared', ?_⟩
      · rw [linkFallbacks, hget]
        simp only [hs₁]
        exact hs'
      · intro hlt
        have hall := hrest fun e he => hlt e (List.mem_cons_of_mem _ he)
        rw [List.append_assoc, ← List.filter_append] at hall
        exact hall

/-! ### Stream by stream -/

variable (gson : Gson) (σ : IterationOrder Text (Option Text)) (feature : Option Profile)

/-- What holds between two streams of an import into `store`. -/
structure Between (replaced : LinkedMap Text Profile) (store : ProfileStore) (s : Importing)
    (cs : List Profile) : Prop where
  refilled : Refilled replaced store.sequence s cs
  untouched : cs = [] → s = ⟨store, false⟩
  cleared : cs ≠ [] → s.cleared = true

theorem between_start (replaced : LinkedMap Text Profile) (store : ProfileStore) :
    Between replaced store ⟨store, false⟩ [] :=
  ⟨⟨rfl, (Int.add_zero _).symm⟩, fun _ => rfl, fun h => absurd rfl h⟩

/-- **One stream.**  It adds what it holds, and throws what its parser throws. -/
theorem importStream_between {store : ProfileStore} {s : Importing} {cs : List Profile}
    (h : Between replaced store s cs) (json : JsonStream) :
    Between replaced store (importStream gson σ feature (some replaced) s json).1
        (cs ++ contribution gson σ feature cs json) ∧
      (importStream gson σ feature (some replaced) s json).2
        = match parsed gson σ feature json with
          | .error e => some e
          | .ok _ => none := by
  rw [importStream, contribution, parsed]
  cases hsingle : json.single with
  | error e => exact ⟨by rw [List.append_nil]; exact h, rfl⟩
  | ok json =>
    simp only [parseJson]
    rcases JsonParser.process_cases gson σ feature json with
      ⟨e, herror, -⟩ | ⟨parser, rs, hok, -, hread⟩
    · rw [herror]
      exact ⟨by rw [List.append_nil]; exact h, rfl⟩
    · rw [hok]
      have hplaces : ∀ e ∈ parser.fallbackMap.entries, e.1 < parser.profiles.length :=
        fun e he => hread.place_lt (List.mem_map_of_mem he)
      by_cases hempty : parser.profiles = []
      · -- no profile, and so no fallback
        simp only [hempty, hread.fallbackMap_of_no_profiles hempty]
        exact ⟨by simpa [createAll, linkFallbacks] using h, rfl⟩
      · obtain ⟨hrows, -, hstored, hready⟩ := createAll_stored (some replaced) parser.profiles s
        have hcleared : (createAll (some replaced) s parser.profiles).1.cleared = true :=
          hready hempty rfl
        have hrefilled := createAll_refilled parser.profiles s cs h.refilled
        have hstore : (createAll (some replaced) s parser.profiles).1.target
            = (createAll (some replaced) s parser.profiles).1.store := if_pos hcleared
        obtain ⟨s', hs', hcleared', hrest⟩ := linkFallbacks_refilled
          (createAll (some replaced) s parser.profiles).1.store.list
          (createAll (some replaced) s parser.profiles).2
          parser.fallbackMap.entries _ _ hrefilled hcleared (by
            intro p hp
            refine ⟨p, ?_, rfl⟩
            rw [← hstore]
            show p ∈ ((createAll (some replaced) s parser.profiles).1.base (some replaced)).rows
            rw [hrows]
            exact List.mem_append_right _ hp)
        have hall := hrest (by rw [hstored.length_eq]; exact hplaces)
        simp only [hrefilled.any_isMatch hcleared] at hall
        rw [List.append_assoc] at hall
        simp only [hs']
        refine ⟨⟨hall, ?_, fun _ => hcleared'⟩, trivial⟩
        intro hnil
        simp [hempty] at hnil

/-- The streams of an import, one after the other. -/
theorem forEachTry_between {store : ProfileStore} (jsons : List JsonStream) :
    ∀ (s : Importing) (cs : List Profile), Between replaced store s cs →
    Between replaced store (forEachTry (importStream gson σ feature (some replaced)) s jsons).1
        (importedProfiles gson σ feature cs jsons) ∧
      (forEachTry (importStream gson σ feature (some replaced)) s jsons).2
        = jsons.findSome? fun json =>
            match parsed gson σ feature json with
            | .error e => some e
            | .ok _ => none := by
  induction jsons with
  | nil =>
    intro s cs h
    exact ⟨h, rfl⟩
  | cons json jsons ih =>
    intro s cs h
    obtain ⟨hone, hexn⟩ := importStream_between gson σ feature h json
    obtain ⟨hall, hexns⟩ := ih _ _ hone
    refine ⟨hall, ?_⟩
    show (importStream gson σ feature (some replaced) s json).2.or
      (forEachTry _ (importStream gson σ feature (some replaced) s json).1 jsons).2 = _
    rw [hexn, hexns, List.findSome?_cons]
    cases parsed gson σ feature json <;> rfl

end Refilled

/-- An element the action does nothing for may as well not be there. -/
theorem forEachTry_skip {τ α : Type} {action : τ → α → τ × Option Exn} {a : α}
    (h : ∀ s, (action s a).1 = s) (pre post : List α) : ∀ s : τ,
    (forEachTry action s (pre ++ a :: post)).1 = (forEachTry action s (pre ++ post)).1 := by
  induction pre with
  | nil =>
    intro s
    show (forEachTry action (action s a).1 post).1 = _
    rw [h]
    rfl
  | cons b pre ih =>
    intro s
    exact ih (action s b).1

/-- A stream without a profile adds nothing. -/
theorem contribution_eq_nil_iff (gson : Gson) (σ : IterationOrder Text (Option Text))
    (feature : Option Profile) (done : List Profile) (json : JsonStream) :
    contribution gson σ feature done json = [] ↔
      ∀ parser, parsed gson σ feature json = .ok parser → parser.profiles = [] := by
  rw [contribution, parsed]
  cases json.single with
  | error e => simp
  | ok json =>
    rcases JsonParser.process_cases gson σ feature json with
      ⟨e, herror, -⟩ | ⟨parser, rs, hok, -, hread⟩
    · simp [herror]
    · simp only [hok, List.append_eq_nil_iff, Except.ok.injEq]
      constructor
      · rintro ⟨hempty, -⟩ _ rfl
        exact hempty
      · intro h
        have hempty := h parser rfl
        rw [hread.fallbackMap_of_no_profiles hempty]
        exact ⟨hempty, rfl⟩

/-- Nothing is imported when no stream has a profile. -/
theorem importedProfiles_eq_nil_iff (gson : Gson) (σ : IterationOrder Text (Option Text))
    (feature : Option Profile) (jsons : List JsonStream) : ∀ done : List Profile,
    importedProfiles gson σ feature done jsons = [] ↔ done = [] ∧
      ∀ json ∈ jsons, ∀ parser, parsed gson σ feature json = .ok parser →
        parser.profiles = [] := by
  induction jsons with
  | nil =>
    intro done
    simp [importedProfiles]
  | cons json jsons ih =>
    intro done
    rw [importedProfiles, ih, List.append_eq_nil_iff, contribution_eq_nil_iff, List.forall_mem_cons,
      and_assoc]

/-- The rows are in the order of their places. -/
theorem Refilled.list_eq {replaced : LinkedMap Text Profile} {sequence : Int} {s : Importing}
    {cs : List Profile} (h : Refilled replaced sequence s cs) : s.target.list = s.target.rows := by
  have horders : s.target.rows.map Profile.userOrder = (List.range cs.length).map Int.ofNat := by
    rw [← unlinked_orders, h.rows, unlinked_orders, rowsOf, orders_of_zipIdx fun _ => rfl]
  exact list_of_orders horders

/-- No row is an old one: ids are not handed out again. -/
theorem Refilled.id_gt {replaced : LinkedMap Text Profile} {sequence : Int} {s : Importing}
    {cs : List Profile} (h : Refilled replaced sequence s cs) {p : Profile}
    (hp : p ∈ s.target.rows) : sequence < p.id := by
  have hmem : p.unlinked ∈ (rowsOf replaced sequence cs).map Profile.unlinked := by
    rw [← h.rows]
    exact List.mem_map_of_mem hp
  obtain ⟨row, hrow, hsame⟩ := List.mem_map.mp hmem
  obtain ⟨e, -, rfl⟩ := List.mem_map.mp hrow
  rw [← id_of_unlinked hsame, stored]
  show sequence < sequence + 1 + e.2
  omega

end ProfileManager

namespace Storage

open ProfileManager

/-- `ProfileManager.clear`. -/
def clear (s : Storage) : Storage := { s with database := s.database.deleteAll }.clean

/-- `ProfileManager.getAllProfiles`. -/
def getAllProfiles (s : Storage) : Except Exn (List Profile) :=
  if s.readable then .ok s.database.list else .error (.io "unable to open database file")

section Import

variable (gson : Gson) (σ : IterationOrder Text (Option Text))

/-- The loop over the streams.  When `lazyClear` ran `clear` the rows were dropped in the table that
was then filled; nothing in between looks at the copy that was dropped with them. -/
def importStreams (feature : Option Profile) (replaced : Option (LinkedMap Text Profile))
    (s : Storage) (jsons : List JsonStream) : Storage × Option Exn :=
  let (i, e) := forEachTry (importStream gson σ feature replaced) ⟨s.database, false⟩ jsons
  ({ (if i.cleared then s.clear else s) with database := i.store }, e)

/-- `createProfilesFromJson(jsons, replace)`. -/
def createProfilesFromJson (replace : Bool) (s : Storage) (jsons : List JsonStream) :
    Storage × Option Exn :=
  if replace then
    match s.getAllProfiles with
    | .error e => (s, some e)
    | .ok profiles =>
        s.importStreams gson σ
          (singleOrNull s.profileId ((byAddress profiles).entries.map Prod.snd))
          (some (byAddress profiles)) jsons
  else
    match s.currentProfile with
    | .error e => (s, some e)
    | .ok current => s.importStreams gson σ (current.map fun pair => pair.1.profile) none jsons

/-- **An import that replaces the profiles.**  When no stream has a profile, the table and the copy in
device-protected storage stay as they are.  Otherwise the copy is gone and the table holds, apart from
the links, what the streams hold, in their order, and no old row; a stream that fails leaves nothing
behind and stops no other one.  The exception of the first one that fails is thrown at the end. -/
theorem createProfilesFromJson_replaces (s : Storage) (hread : s.readable = true)
    (jsons : List JsonStream) :
    let feature := featureOf s.profileId s.database
    let result := s.createProfilesFromJson gson σ true jsons
    ((∀ json ∈ jsons, ∀ parser, parsed gson σ feature json = .ok parser → parser.profiles = []) →
      result.1 = s) ∧
    ((∃ json ∈ jsons, ∃ parser, parsed gson σ feature json = .ok parser ∧ parser.profiles ≠ []) →
      result.1.device = none ∧
      result.1.database.list.map Profile.unlinked
        = (rowsOf (byAddress s.database.list) s.database.sequence
            (importedProfiles gson σ feature [] jsons)).map Profile.unlinked ∧
      ∀ p ∈ result.1.database.rows, ∀ q ∈ s.database.rows, p.id ≠ q.id) ∧
    (∀ pre failing post e, jsons = pre ++ failing :: post →
      parsed gson σ feature failing = .error e →
      result.1 = (s.createProfilesFromJson gson σ true (pre ++ post)).1) ∧
    result.2 = jsons.findSome? fun json =>
      match parsed gson σ feature json with
      | .error e => some e
      | .ok _ => none := by
  intro feature result
  have hall : s.getAllProfiles = .ok s.database.list := if_pos hread
  have himport : ∀ js, s.createProfilesFromJson gson σ true js
      = s.importStreams gson σ feature (some (byAddress s.database.list)) js := by
    intro js
    rw [createProfilesFromJson, if_pos rfl, hall]
    rfl
  obtain ⟨hbetween, hexn⟩ := forEachTry_between gson σ feature jsons _ _
    (between_start (byAddress s.database.list) s.database)
  have hresult : result = s.importStreams gson σ feature (some (byAddress s.database.list)) jsons :=
    himport jsons
  refine ⟨?_, ?_, ?_, ?_⟩
  · intro hnone
    have hnil := (importedProfiles_eq_nil_iff gson σ feature jsons []).mpr ⟨rfl, hnone⟩
    rw [hresult]
    simp only [importStreams, hbetween.untouched hnil]
    rfl
  · rintro ⟨json, hjson, parser, hparser, hprofiles⟩
    have hne : importedProfiles gson σ feature [] jsons ≠ [] := by
      intro hnil
      exact hprofiles (((importedProfiles_eq_nil_iff gson σ feature jsons []).mp hnil).2 json hjson parser
        hparser)
    have hcleared := hbetween.cleared hne
    have hdatabase : result.1.database = (forEachTry
        (importStream gson σ feature (some (byAddress s.database.list))) ⟨s.database, false⟩
        jsons).1.target := by
      rw [hresult, Importing.target, if_pos hcleared]
      rfl
    refine ⟨?_, ?_, ?_⟩
    · rw [hresult, importStreams]
      simp only [hcleared]
      rfl
    · rw [hdatabase, hbetween.refilled.list_eq]
      exact hbetween.refilled.rows
    · intro p hp q hq
      rw [hdatabase] at hp
      have hgt := hbetween.refilled.id_gt hp
      have hle := s.database.le_sequence q hq
      omega
  · intro pre failing post e hjsons hfails
    have hskip : ∀ i, (importStream gson σ feature (some (byAddress s.database.list)) i failing).1
        = i := by
      intro i
      rw [parsed] at hfails
      rw [importStream]
      cases hsingle : failing.single with
      | error e => rfl
      | ok json =>
        rw [hsingle] at hfails
        simp only [parseJson, hfails]
    have hsame := forEachTry_skip hskip pre post ⟨s.database, false⟩
    rw [hresult, himport, importStreams, importStreams, hjsons]
    simp only [hsame]
  · rw [hresult]
    exact hexn

end Import

/-- A selected profile, with its copy. -/
def oldStorage : Storage :=
  { database :=
      { rows := [{ id := 1 }]
        sequence := 1
        nodup := by decide
        le_sequence := by decide }
    readable := true
    device := some ({ profile := { id := 1 } }, none)
    profileId := 1
    directBootAware := true }

def addressObject (host : String) : List (String × Json) :=
  [("server", .str host.toList), ("server_port", .num ['8', '0']), ("password", .str ['p']),
    ("method", .str ['m'])]

/-- A malformed stream, one with two values, and one with a profile and its fallback. -/
def newStreams : List JsonStream :=
  [.broken (.io "Use JsonReader.setLenient(true) to accept malformed JSON"),
    .next (.ok (.obj (addressObject "x"))) (.next (.ok .null) .done),
    .next (.ok (.obj (addressObject "a" ++ [("udp_fallback", .obj (addressObject "b"))]))) .done]

theorem createProfilesFromJson_newStreams :
    let result := oldStorage.createProfilesFromJson Gson.plain (IterationOrder.stored _ _) true
      newStreams
    result.1.device = none ∧
      (result.1.database.list.map Profile.unlinked).map (fun p => (p.id, p.userOrder, p.host))
        = [(2, 0, ['a']), (3, 1, ['b'])] ∧
      result.2 = some (.io "Use JsonReader.setLenient(true) to accept malformed JSON") := by
  obtain ⟨-, hreplaced, -, hexn⟩ := createProfilesFromJson_replaces Gson.plain
    (IterationOrder.stored _ _) oldStorage rfl newStreams
  obtain ⟨hdevice, hlist, -⟩ := hreplaced ⟨_, List.mem_of_getElem? (i := 2) rfl, _, rfl, by decide⟩
  have hold : oldStorage.database.list = [{ id := 1 }] := List.mergeSort_of_pairwise (by decide)
  refine ⟨hdevice, ?_, hexn⟩
  rw [hlist, featureOf, hold]
  rfl

end Storage

end SsAndroid
