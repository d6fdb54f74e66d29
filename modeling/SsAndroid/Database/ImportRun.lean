import SsAndroid.Database.JsonFields

/-!
# An import, loop by loop

The three loops of an import that replaces the store, each with the rows it leaves behind.

* `process` over an exported list collects the imported profiles in order, and a fallback for each
  profile that was exported with one (`processElements_exported`);
* `createAll` stores profiles under consecutive ids and places, in an emptied table
  (`createAll_rows`);
* `linkFallbacks` replaces the row of each profile with a fallback by the linked one and leaves the
  other rows alone (`linkFallbacks_rows`).
-/

namespace SsAndroid

open PluginConfiguration ProfileManager

/-! ### Collecting the profiles -/

theorem LinkedMap.putEntries_of_not_mem {κ ν : Type*} [DecidableEq κ] {k : κ} (v : ν)
    {es : List (κ × ν)} (h : k ∉ es.map Prod.fst) : putEntries k v es = es ++ [(k, v)] := by
  induction es with
  | nil => rfl
  | cons e es ih =>
    obtain ⟨k', v'⟩ := e
    rw [List.map_cons, List.mem_cons, not_or] at h
    rw [putEntries, if_neg (fun hk => h.1 hk.symm), ih h.2, List.cons_append]

/-- What the four fields of an address identify a profile by. -/
def Profile.key (p : Profile) : Text × Int × Text × Text :=
  (p.host, p.remotePort, p.password, p.method)

/-- The fallbacks of a list of profiles, under the places of the profiles. -/
def fallbackEntries (fallback : Profile → Option Profile) (ps : List Profile) (start : Nat) :
    List (Nat × Profile) :=
  (ps.zipIdx start).filterMap fun e => (fallback e.1).map fun f => (e.2, f)

theorem fallbackEntries_cons (fallback : Profile → Option Profile) (p : Profile)
    (ps : List Profile) (start : Nat) :
    fallbackEntries fallback (p :: ps) start
      = ((fallback p).map fun f => (start, f)).toList ++ fallbackEntries fallback ps (start + 1) := by
  rw [fallbackEntries, List.zipIdx_cons, List.filterMap_cons]
  cases fallback p <;> rfl

theorem fallbackEntries_append (fallback : Profile → Option Profile) (ps : List Profile)
    (p : Profile) : fallbackEntries fallback (ps ++ [p]) 0
      = fallbackEntries fallback ps 0 ++ ((fallback p).map fun f => (ps.length, f)).toList := by
  rw [fallbackEntries, List.zipIdx_append, List.filterMap_append, ← fallbackEntries,
    ← fallbackEntries, fallbackEntries_cons, Nat.zero_add]
  exact congrArg _ (List.append_nil _)

theorem lt_of_mem_fallbackEntries {fallback : Profile → Option Profile} {ps : List Profile}
    {i : Nat} (h : i ∈ (fallbackEntries fallback ps 0).map Prod.fst) : i < ps.length := by
  obtain ⟨e, he, rfl⟩ := List.mem_map.mp h
  obtain ⟨x, hx, hxe⟩ := List.mem_filterMap.mp he
  obtain ⟨f, -, rfl⟩ := Option.map_eq_some_iff.mp hxe
  exact List.snd_lt_of_mem_zipIdx hx

namespace JsonParser

/-- The parser after the profiles `ps`, each read as its copy. -/
structure Holds (copy : Profile → Profile) (fallback : Profile → Option Profile)
    (s : JsonParser) (ps : List Profile) : Prop where
  profiles : s.profiles = ps.map copy
  fallbackMap : s.fallbackMap.entries = fallbackEntries fallback ps 0

variable {copy : Profile → Profile} {fallback : Profile → Option Profile}

theorem holds_empty : Holds copy fallback empty [] := ⟨rfl, rfl⟩

/-- A profile with a new address is a new key. -/
theorem Holds.add {s : JsonParser} {ps : List Profile} (h : Holds copy fallback s ps)
    (hcopy : ∀ p, (copy p).key = p.key) {p : Profile} (hp : p.key ∉ ps.map Profile.key) :
    Holds copy fallback (s.add (copy p) (fallback p)) (ps ++ [p]) := by
  have hnew : s.keyIndex (copy p) = ps.length := by
    have hnone : s.fallbackMap.entries.find? (fun e => s.profiles[e.1]? = some (copy p)) = none := by
      rw [List.find?_eq_none]
      intro e _ he
      have hmem : copy p ∈ ps.map copy := by
        rw [← h.profiles]
        exact List.mem_of_getElem? (of_decide_eq_true he)
      obtain ⟨q, hq, hqp⟩ := List.mem_map.mp hmem
      refine hp (List.mem_map.mpr ⟨q, hq, ?_⟩)
      rw [← hcopy q, hqp, hcopy p]
    rw [keyIndex, hnone, h.profiles]
    exact List.length_map _
  constructor
  · show s.profiles ++ [copy p] = _
    rw [h.profiles, List.map_append]
    rfl
  · rw [fallbackEntries_append, ← h.fallbackMap]
    cases fallback p with
    | none => exact (List.append_nil _).symm
    | some f =>
      show (s.fallbackMap.put (s.keyIndex (copy p)) f).entries = _
      rw [hnew]
      refine LinkedMap.putEntries_of_not_mem f ?_
      rw [h.fallbackMap]
      intro hm
      exact absurd (lt_of_mem_fallbackEntries hm) (lt_irrefl _)

section Process

variable (gson : Gson) (σ : IterationOrder Text (Option Text)) (feature : Option Profile)

/-- **The parser over a list of objects** that are read as profiles with new addresses. -/
theorem processElements_holds (hcopy : ∀ p, (copy p).key = p.key)
    (entries : Profile → List (String × Json)) (ps : List Profile)
    (hparse : ∀ p ∈ ps, tryParse gson σ feature (entries p) = .ok (some (copy p, fallback p))) :
    ∀ (s : JsonParser) (done : List Profile), Holds copy fallback s done →
      ((done ++ ps).map Profile.key).Nodup →
      ∃ s', processElements gson σ feature s (ps.map fun p => .obj (entries p)) = .ok s' ∧
        Holds copy fallback s' (done ++ ps) := by
  induction ps with
  | nil =>
    intro s done h _
    exact ⟨s, rfl, by rw [List.append_nil]; exact h⟩
  | cons p ps ih =>
    intro s done h hnodup
    have hp : p.key ∉ done.map Profile.key := by
      rw [List.map_append, List.nodup_append] at hnodup
      intro hm
      exact hnodup.2.2 p.key hm p.key List.mem_cons_self rfl
    have hassoc : done ++ p :: ps = (done ++ [p]) ++ ps := by simp
    have hrest := ih (fun q hq => hparse q (List.mem_cons_of_mem _ hq)) (s.add (copy p) (fallback p))
      (done ++ [p]) (h.add hcopy hp) (by rw [← hassoc]; exact hnodup)
    rw [hassoc, List.map_cons, processElements, process, hparse p List.mem_cons_self]
    exact hrest

/-- One object that fails to parse ends the list. -/
theorem processElements_error (entries : Profile → List (String × Json)) (ps : List Profile)
    (hobj : ∀ p ∈ ps, (∃ e, tryParse gson σ feature (entries p) = .error e) ∨
      ∃ r, tryParse gson σ feature (entries p) = .ok (some r)) :
    ∀ s : JsonParser, (∃ p ∈ ps, ∃ e, tryParse gson σ feature (entries p) = .error e) →
      ∃ e, processElements gson σ feature s (ps.map fun p => .obj (entries p)) = .error e := by
  induction ps with
  | nil =>
    rintro s ⟨p, hp, -⟩
    simp at hp
  | cons q ps ih =>
    rintro s ⟨p, hp, e, he⟩
    rw [List.map_cons, processElements, process]
    rcases hobj q List.mem_cons_self with ⟨e', he'⟩ | ⟨r, hr⟩
    · rw [he']
      exact ⟨e', rfl⟩
    · rw [hr]
      refine ih (fun x hx => hobj x (List.mem_cons_of_mem _ hx)) _ ?_
      rcases List.mem_cons.mp hp with rfl | hp
      · exact absurd (hr.symm.trans he) (by simp)
      · exact ⟨p, hp, e, he⟩

end Process

end JsonParser

/-! ### Storing the profiles -/

namespace ProfileManager

/-- The store the next profile is created in. -/
def Importing.target (s : Importing) : ProfileStore :=
  if s.cleared then s.store else s.store.deleteAll

/-- The statistics of the replaced profile with the same address. -/
def withStats (replaced : LinkedMap Text Profile) (p : Profile) : Profile :=
  match replaced.get? p.formattedAddress with
  | some old => { p with tx := old.tx, rx := old.rx }
  | none => p

/-- The row of the profile at a place, when ids are handed out from `sequence` on. -/
def stored (replaced : LinkedMap Text Profile) (sequence : Int) (e : Profile × Nat) : Profile :=
  { withStats replaced e.1 with userOrder := e.2, id := sequence + 1 + e.2 }

section Stored

variable (replaced : LinkedMap Text Profile) (sequence : Int)

theorem withStats_eq (p : Profile) :
    ∃ tx rx, withStats replaced p = { p with tx := tx, rx := rx } := by
  rw [withStats]
  split
  · rename_i old _
    exact ⟨old.tx, old.rx, rfl⟩
  · exact ⟨p.tx, p.rx, rfl⟩

/-- The table after the profiles `cs`. -/
def rowsOf (cs : List Profile) : List Profile := cs.zipIdx.map (stored replaced sequence)

theorem rowsOf_append (cs ds : List Profile) : rowsOf replaced sequence (cs ++ ds)
    = rowsOf replaced sequence cs ++ (ds.zipIdx cs.length).map (stored replaced sequence) := by
  rw [rowsOf, List.zipIdx_append, List.map_append, Nat.zero_add]
  rfl

/-- Rows that are numbered by their places. -/
theorem orders_of_zipIdx {row : Profile × Nat → Profile} (hrow : ∀ e, (row e).userOrder = e.2)
    (cs : List Profile) :
    (cs.zipIdx.map row).map Profile.userOrder = (List.range cs.length).map Int.ofNat := by
  rw [List.map_map, List.range_eq_range', ← List.zipIdx_map_snd 0 cs, List.map_map]
  apply List.map_congr_left
  intro e _
  exact hrow e

/-- Rows that are numbered in order are listed in order. -/
theorem list_of_orders {store : ProfileStore} {n : Nat}
    (h : store.rows.map Profile.userOrder = (List.range n).map Int.ofNat) :
    store.list = store.rows := by
  have hsorted : (store.rows.map Profile.userOrder).Pairwise (· ≤ ·) := by
    rw [h, List.pairwise_map]
    exact List.pairwise_lt_range.imp fun hlt => Int.ofNat_le.mpr (le_of_lt hlt)
  refine List.mergeSort_of_pairwise ?_
  rw [List.pairwise_map] at hsorted
  exact hsorted.imp fun hle => decide_eq_true hle

/-- Places are counted from zero. -/
theorem nextOrder_rowsOf {store : ProfileStore} {cs : List Profile}
    (h : store.rows.map Profile.userOrder
      = (rowsOf replaced sequence cs).map Profile.userOrder) :
    store.nextOrder.getD 0 = cs.length := by
  have horders : store.rows.map Profile.userOrder = (List.range cs.length).map Int.ofNat := by
    rw [h, rowsOf, orders_of_zipIdx fun _ => rfl]
  rw [ProfileStore.nextOrder, horders]
  cases hn : cs.length with
  | zero => rfl
  | succ n =>
    have hmax : ((List.range (n + 1)).map Int.ofNat).max? = some (n : Int) := by
      rw [List.max?_eq_some_iff]
      refine ⟨List.mem_map.mpr ⟨n, List.mem_range.mpr (Nat.lt_succ_self n), rfl⟩, ?_⟩
      intro x hx
      obtain ⟨i, hi, rfl⟩ := List.mem_map.mp hx
      exact Int.ofNat_le.mpr (Nat.lt_succ_iff.mp (List.mem_range.mp hi))
    rw [hmax]
    rfl

/-- What holds before the profile after `cs` is created. -/
structure Filled (s : Importing) (cs : List Profile) : Prop where
  rows : s.target.rows = rowsOf replaced sequence cs
  sequence_eq : s.target.sequence = sequence + cs.length

variable {replaced sequence}

theorem create_spec {s : Importing} {cs : List Profile} (h : Filled replaced sequence s cs)
    (c : Profile) :
    (create (some replaced) s c).2 = stored replaced sequence (c, cs.length) ∧
      (create (some replaced) s c).1.cleared = true ∧
      Filled replaced sequence (create (some replaced) s c).1 (cs ++ [c]) := by
  have hrow : (create (some replaced) s c).2 = stored replaced sequence (c, cs.length) := by
    show ({ withStats replaced c with
      userOrder := s.target.nextOrder.getD 0, id := s.target.sequence + 1 } : Profile) = _
    rw [nextOrder_rowsOf replaced sequence (congrArg _ h.rows), h.sequence_eq, stored,
      Int.add_right_comm]
  refine ⟨hrow, rfl, ?_, ?_⟩
  · show s.target.rows ++ [(create (some replaced) s c).2] = _
    rw [hrow, h.rows, rowsOf_append]
    rfl
  · show s.target.sequence + 1 = _
    rw [h.sequence_eq, List.length_append, List.length_singleton]
    push_cast
    omega

/-- **The rows a list of profiles is stored in.** -/
theorem createAll_rows (ds : List Profile) : ∀ (s : Importing) (cs : List Profile),
    Filled replaced sequence s cs →
    (createAll (some replaced) s ds).2 = (ds.zipIdx cs.length).map (stored replaced sequence) ∧
      (ds ≠ [] → (createAll (some replaced) s ds).1.cleared = true) ∧
      Filled replaced sequence (createAll (some replaced) s ds).1 (cs ++ ds) := by
  induction ds with
  | nil =>
    intro s cs h
    exact ⟨rfl, fun hne => absurd rfl hne, by rw [List.append_nil]; exact h⟩
  | cons d ds ih =>
    intro s cs h
    obtain ⟨hrow, hcleared, hfilled⟩ := create_spec h d
    obtain ⟨hrows, hcleared', hfilled'⟩ := ih _ _ hfilled
    refine ⟨?_, fun _ => ?_, ?_⟩
    · show (create (some replaced) s d).2 ::
        (createAll (some replaced) (create (some replaced) s d).1 ds).2 = _
      rw [hrow, hrows, List.length_append, List.length_singleton]
      rfl
    · cases ds with
      | nil => exact hcleared
      | cons d' ds => exact hcleared' (by simp)
    · rw [List.append_assoc] at hfilled'
      exact hfilled'

end Stored

/-! ### Linking the fallbacks -/

theorem updateRows_middle {xs ys : List Profile} {q p : Profile}
    (h : ((xs ++ q :: ys).map Profile.id).Nodup) (hp : p.id = q.id) :
    ProfileStore.updateRows (xs ++ q :: ys) p = xs ++ p :: ys := by
  rw [List.map_append, List.map_cons, List.nodup_append, List.nodup_cons] at h
  obtain ⟨-, ⟨hys, -⟩, hxs⟩ := h
  have hleft : xs.map (fun r => if r.id = p.id then p else r) = xs := by
    refine (List.map_congr_left fun r hr => if_neg ?_).trans (List.map_id xs)
    rw [hp]
    exact hxs r.id (List.mem_map_of_mem hr) q.id List.mem_cons_self
  have hright : ys.map (fun r => if r.id = p.id then p else r) = ys := by
    refine (List.map_congr_left fun r hr => if_neg ?_).trans (List.map_id ys)
    rw [hp]
    intro hrq
    exact hys (by rw [← hrq]; exact List.mem_map_of_mem hr)
  rw [ProfileStore.updateRows, List.map_append, List.map_cons, hleft, hright, if_pos hp.symm]

/-- The row of a profile once its fallback is linked. -/
def linked (listed : List Profile) (row : Profile) (fallback : Option Profile) : Profile :=
  match fallback with
  | none => row
  | some f => { row with udpFallback := (listed.find? (isMatch f)).map Profile.id }

/-- One link: the row of the profile is replaced. -/
theorem linkFallback_rows (replaced : Option (LinkedMap Text Profile)) {listed : List Profile}
    {s : Importing} {xs ys : List Profile} {row f r : Profile} (hs : s.store.rows = xs ++ row :: ys)
    (hr : listed.find? (isMatch f) = some r) :
    (linkFallback replaced listed s row f).2 = none ∧
      (linkFallback replaced listed s row f).1.store.rows
        = xs ++ linked listed row (some f) :: ys := by
  have hmem : row.id ∈ s.store.rows.map Profile.id := by
    rw [hs]
    exact List.mem_map_of_mem (List.mem_append_right _ List.mem_cons_self)
  have hnodup : ((xs ++ row :: ys).map Profile.id).Nodup := by
    rw [← hs]
    exact s.store.nodup
  have hupdate := updateRows_middle (p := linked listed row (some f)) hnodup rfl
  rw [linkFallback, hr]
  simp only [ProfileStore.updateProfile, if_pos hmem]
  refine ⟨trivial, ?_⟩
  rw [← hupdate, ← hs, linked, hr]
  rfl

/-- **The loop over the fallbacks**: the rows behind the place it has reached are as they were
created, those before it are linked. -/
theorem linkFallbacks_rows (replaced : Option (LinkedMap Text Profile)) {listed : List Profile}
    (row : Profile × Nat → Profile) (fallback : Profile → Option Profile)
    (created : List Profile) (ps : List Profile) :
    ∀ (s : Importing) (n : Nat) (xs : List Profile),
    (∀ p ∈ ps, ∀ f, fallback p = some f → (listed.find? (isMatch f)).isSome = true) →
    (∀ i p, ps[i]? = some p → created[n + i]? = some (row (p, n + i))) →
    s.store.rows = xs ++ (ps.zipIdx n).map row →
    ∃ s', linkFallbacks replaced listed created s (fallbackEntries fallback ps n) = (s', none) ∧
      s'.store.rows = xs ++ (ps.zipIdx n).map fun e => linked listed (row e) (fallback e.1) := by
  induction ps with
  | nil =>
    intro s n xs _ _ hs
    exact ⟨s, rfl, hs⟩
  | cons p ps ih =>
    intro s n xs hfind hcreated hs
    have hrest : ∀ i q, ps[i]? = some q → created[n + 1 + i]? = some (row (q, n + 1 + i)) := by
      intro i q hq
      have := hcreated (i + 1) q (by rw [List.getElem?_cons_succ]; exact hq)
      rwa [show n + (i + 1) = n + 1 + i by omega] at this
    have hfind' := fun q hq => hfind q (List.mem_cons_of_mem p hq)
    rw [List.zipIdx_cons, List.map_cons] at hs
    rw [fallbackEntries_cons, List.zipIdx_cons, List.map_cons]
    cases hf : fallback p with
    | none =>
      obtain ⟨s', hs', hrows⟩ := ih s (n + 1) (xs ++ [row (p, n)]) hfind' hrest (by simpa using hs)
      exact ⟨s', hs', by simpa [linked, hf] using hrows⟩
    | some f =>
      obtain ⟨r, hr⟩ := Option.isSome_iff_exists.mp (hfind p List.mem_cons_self f hf)
      obtain ⟨hok, hrow⟩ := linkFallback_rows replaced hs hr
      obtain ⟨s', hs', hrows⟩ := ih (linkFallback replaced listed s (row (p, n)) f).1 (n + 1)
        (xs ++ [linked listed (row (p, n)) (some f)]) hfind' hrest (by simpa using hrow)
      refine ⟨s', ?_, by simpa [hf] using hrows⟩
      rw [← hs']
      have hget : created[n]? = some (row (p, n)) := hcreated 0 p rfl
      simp only [Option.map_some, Option.toList_some, List.singleton_append, linkFallbacks, hget]
      split
      · rename_i heq
        rw [heq] at hok
        simp at hok
      · rename_i heq
        rw [heq]

end ProfileManager

end SsAndroid
