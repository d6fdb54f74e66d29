import SsAndroid.Database.ProfileObjects

/-!
# Creating profiles and linking fallbacks, in any table

`ImportRun` follows an import whose fallbacks are all among the imported profiles, row by row.  Here
nothing is known about the document or the table, and an import may replace the table or add to it.

* `createAll` appends one row for each profile, under consecutive ids (`createAll_stored`);
* one turn of the loop in `finalize` appends the row of the fallback, if no row matched, and sets the
  link of one row, which is there (`linkFallback_relink`); no turn throws.
-/

namespace SsAndroid

/-- A profile apart from its link. -/
def Profile.unlinked (p : Profile) : Profile := { p with udpFallback := none }

namespace ProfileManager

variable (replaced : Option (LinkedMap Text Profile))

/-- The table the next profile is created in. -/
def Importing.base (s : Importing) : ProfileStore :=
  match replaced with
  | none => s.store
  | some _ => s.target

/-- The profile that is handed to `createProfile`. -/
def prepared (p : Profile) : Profile :=
  match replaced with
  | none => p
  | some profiles => withStats profiles p

/-- The row `createProfile` adds to a table. -/
def newRow (store : ProfileStore) (p : Profile) : Profile :=
  { prepared replaced p with userOrder := store.nextOrder.getD 0, id := store.sequence + 1 }

theorem prepared_eq (p : Profile) :
    ∃ tx rx, prepared replaced p = { p with tx := tx, rx := rx } := by
  cases replaced with
  | none => exact ⟨p.tx, p.rx, rfl⟩
  | some profiles => exact withStats_eq profiles p

/-- A row keeps what its profile is recognised by, and its link. -/
theorem newRow_same (store : ProfileStore) (p : Profile) :
    (newRow replaced store p).key = p.key ∧ (newRow replaced store p).plugin = p.plugin ∧
      (newRow replaced store p).udpFallback = p.udpFallback := by
  obtain ⟨tx, rx, h⟩ := prepared_eq replaced p
  rw [newRow, h]
  exact ⟨rfl, rfl, rfl⟩

/-- A profile matches a fallback by its address, and has no plugin. -/
theorem isMatch_iff (f p : Profile) :
    isMatch f p = true ↔ f.key = p.key ∧ Profile.isNullOrEmpty p.plugin = true := by
  simp only [isMatch, Profile.key, Bool.and_eq_true, decide_eq_true_eq, Prod.mk.injEq]
  tauto

theorem isMatch_congr {p q : Profile} (f : Profile) (hkey : p.key = q.key)
    (hplugin : p.plugin = q.plugin) : isMatch f p = isMatch f q := by
  rw [Bool.eq_iff_iff, isMatch_iff, isMatch_iff, hkey, hplugin]

/-- Nothing is left to be cleared. -/
def Importing.Ready (s : Importing) : Prop := replaced.isSome = true → s.cleared = true

theorem Importing.Ready.base_eq {s : Importing} (h : s.Ready replaced) :
    s.base replaced = s.store := by
  cases replaced with
  | none => rfl
  | some profiles => rw [Importing.base, Importing.target, if_pos (h rfl)]

/-- What one creation does. -/
structure Created (s : Importing) (p : Profile) (s' : Importing) (row : Profile) : Prop where
  row_eq : row = newRow replaced (s.base replaced) p
  rows : s'.store.rows = (s.base replaced).rows ++ [row]
  sequence : s'.store.sequence = (s.base replaced).sequence + 1
  ready : s'.Ready replaced

theorem create_created (s : Importing) (p : Profile) :
    Created replaced s p (create replaced s p).1 (create replaced s p).2 := by
  cases replaced with
  | none => exact ⟨rfl, rfl, rfl, fun h => absurd h (by simp)⟩
  | some profiles => exact ⟨rfl, rfl, rfl, fun _ => rfl⟩

/-! ### The loop over the profiles -/

/-- The rows of a list of profiles that were created under the ids after `sequence`. -/
structure Stored (sequence : Int) (ps rows : List Profile) : Prop where
  length_eq : rows.length = ps.length
  row : ∀ (i : Nat) (p : Profile), ps[i]? = some p → ∃ r, rows[i]? = some r ∧
    r.id = sequence + 1 + i ∧ r.key = p.key ∧ r.plugin = p.plugin ∧ r.udpFallback = p.udpFallback

theorem Stored.cons {sequence : Int} {p row : Profile} {ps rows : List Profile}
    (h : Stored (sequence + 1) ps rows) (hid : row.id = sequence + 1)
    (hsame : row.key = p.key ∧ row.plugin = p.plugin ∧ row.udpFallback = p.udpFallback) :
    Stored sequence (p :: ps) (row :: rows) := by
  refine ⟨by rw [List.length_cons, List.length_cons, h.length_eq], ?_⟩
  intro i q hq
  cases i with
  | zero =>
    obtain rfl : p = q := Option.some.inj hq
    exact ⟨row, rfl, by simpa using hid, hsame⟩
  | succ i =>
    obtain ⟨r, hr, hrid, hrsame⟩ := h.row i q hq
    refine ⟨r, hr, ?_, hrsame⟩
    rw [hrid]
    push_cast
    omega

/-- Every row is the row of a profile. -/
theorem Stored.of_row {sequence : Int} {ps rows : List Profile} (h : Stored sequence ps rows)
    {r : Profile} (hr : r ∈ rows) : ∃ p ∈ ps, sequence < r.id ∧ r.id ≤ sequence + ps.length ∧
      r.key = p.key ∧ r.plugin = p.plugin ∧ r.udpFallback = p.udpFallback := by
  obtain ⟨i, hi, rfl⟩ := List.mem_iff_getElem.mp hr
  have hi' : i < ps.length := by rw [← h.length_eq]; exact hi
  obtain ⟨r, hget, hid, hsame⟩ := h.row i _ (List.getElem?_eq_getElem hi')
  rw [List.getElem?_eq_getElem hi] at hget
  rw [← Option.some.inj hget] at hid hsame
  exact ⟨ps[i], List.getElem_mem hi', by omega, by omega, hsame⟩

/-- Every profile has a row. -/
theorem Stored.of_profile {sequence : Int} {ps rows : List Profile} (h : Stored sequence ps rows)
    {p : Profile} (hp : p ∈ ps) : ∃ r ∈ rows, r.key = p.key ∧ r.plugin = p.plugin := by
  obtain ⟨i, hi⟩ := List.mem_iff_getElem?.mp hp
  obtain ⟨r, hget, -, hkey, hplugin, -⟩ := h.row i p hi
  exact ⟨r, List.mem_of_getElem? hget, hkey, hplugin⟩

/-- **`createAll` appends one row for each profile.** -/
theorem createAll_stored (ps : List Profile) : ∀ s : Importing,
    ((createAll replaced s ps).1.base replaced).rows
        = (s.base replaced).rows ++ (createAll replaced s ps).2 ∧
      ((createAll replaced s ps).1.base replaced).sequence
        = (s.base replaced).sequence + ps.length ∧
      Stored (s.base replaced).sequence ps (createAll replaced s ps).2 ∧
      (ps ≠ [] → (createAll replaced s ps).1.Ready replaced) := by
  induction ps with
  | nil =>
    intro s
    refine ⟨(List.append_nil _).symm, by simp [createAll], ⟨rfl, ?_⟩, fun h => absurd rfl h⟩
    intro i p hp
    simp at hp
  | cons p ps ih =>
    intro s
    have hc := create_created replaced s p
    obtain ⟨hrows, hsequence, hstored, hready⟩ := ih (create replaced s p).1
    rw [hc.ready.base_eq] at hrows hsequence hstored
    have hid : (create replaced s p).2.id = (s.base replaced).sequence + 1 := by
      rw [hc.row_eq, newRow]
    have hsame := newRow_same replaced (s.base replaced) p
    rw [← hc.row_eq] at hsame
    have hstep : createAll replaced s (p :: ps)
        = ((createAll replaced (create replaced s p).1 ps).1,
          (create replaced s p).2 :: (createAll replaced (create replaced s p).1 ps).2) := rfl
    rw [hstep]
    refine ⟨?_, ?_, ?_, ?_⟩
    · show ((createAll replaced (create replaced s p).1 ps).1.base replaced).rows = _
      rw [hrows, hc.rows, List.append_assoc]
      rfl
    · show ((createAll replaced (create replaced s p).1 ps).1.base replaced).sequence = _
      rw [hsequence, hc.sequence, List.length_cons]
      push_cast
      omega
    · rw [hc.sequence] at hstored
      exact hstored.cons hid hsame
    · intro _
      cases ps with
      | nil => exact hc.ready
      | cons q ps => exact hready (by simp)

/-! ### One turn of the loop over the fallbacks -/

/-- The rows after the link of one of them is set. -/
def relink (id target : Int) (rows : List Profile) : List Profile :=
  rows.map fun r => if r.id = id then { r with udpFallback := some target } else r

/-- A row before and after a link is set. -/
theorem mem_relink {id target : Int} {rows : List Profile} {r' : Profile}
    (h : r' ∈ relink id target rows) : ∃ r ∈ rows, r'.unlinked = r.unlinked ∧
      r'.udpFallback = if r.id = id then some target else r.udpFallback := by
  obtain ⟨r, hr, rfl⟩ := List.mem_map.mp h
  refine ⟨r, hr, ?_⟩
  split <;> exact ⟨rfl, rfl⟩

theorem relink_mem (id target : Int) {rows : List Profile} {r : Profile} (h : r ∈ rows) :
    ∃ r' ∈ relink id target rows, r'.unlinked = r.unlinked := by
  refine ⟨_, List.mem_map_of_mem h, ?_⟩
  split <;> rfl

/-- A profile whose row is there has it after a turn, apart from the link. -/
theorem relink_keeps (id target : Int) {rows : List Profile} (added : List Profile) {p : Profile}
    (h : ∃ row ∈ rows, row.unlinked = p.unlinked) :
    ∃ row ∈ relink id target (rows ++ added), row.unlinked = p.unlinked := by
  obtain ⟨r, hr, hrp⟩ := h
  obtain ⟨r', hr', hrr⟩ := relink_mem id target (List.mem_append_left added hr)
  exact ⟨r', hr', hrr.trans hrp⟩

theorem relink_unlinked (id target : Int) (rows : List Profile) :
    (relink id target rows).map Profile.unlinked = rows.map Profile.unlinked := by
  rw [relink, List.map_map]
  apply List.map_congr_left
  intro r _
  show (if r.id = id then { r with udpFallback := some target } else r).unlinked = r.unlinked
  split <;> rfl

theorem id_of_unlinked {p q : Profile} (h : p.unlinked = q.unlinked) : p.id = q.id := by
  show p.unlinked.id = q.unlinked.id
  rw [h]

theorem key_of_unlinked {p q : Profile} (h : p.unlinked = q.unlinked) : p.key = q.key := by
  show p.unlinked.key = q.unlinked.key
  rw [h]

theorem plugin_of_unlinked {p q : Profile} (h : p.unlinked = q.unlinked) : p.plugin = q.plugin := by
  show p.unlinked.plugin = q.unlinked.plugin
  rw [h]

/-- Writing a profile with a new link over its row sets the link of the row. -/
theorem updateRows_relink {rows : List Profile} {profile row : Profile} (target : Int)
    (hnodup : (rows.map Profile.id).Nodup) (hrow : row ∈ rows)
    (hsame : row.unlinked = profile.unlinked) :
    ProfileStore.updateRows rows { profile with udpFallback := some target }
      = relink profile.id target rows := by
  apply List.map_congr_left
  intro r hr
  show (if r.id = profile.id then _ else _) = if r.id = profile.id then _ else _
  split
  · rename_i hid
    have hrowid := id_of_unlinked hsame
    obtain rfl : r = row := List.inj_on_of_nodup_map hnodup hr hrow (hid.trans hrowid.symm)
    show ({ profile.unlinked with udpFallback := some target } : Profile) = _
    rw [← hsame]
    rfl
  · rfl

/-- The id a fallback is linked by. -/
def linkTarget (listed : List Profile) (store : ProfileStore) (f : Profile) : Int :=
  match listed.find? (isMatch f) with
  | some q => q.id
  | none => store.sequence + 1

/-- The row of a fallback that nothing listed matches. -/
def fallbackRows (listed : List Profile) (store : ProfileStore) (f : Profile) : List Profile :=
  match listed.find? (isMatch f) with
  | some _ => []
  | none => [newRow replaced store f]

variable {replaced}

/-- The second half of a turn: the link is written, and its row is there. -/
theorem updateProfile_relink {store : ProfileStore} {profile row : Profile} (target : Int)
    (hrow : row ∈ store.rows) (hsame : row.unlinked = profile.unlinked) :
    ∃ store', store.updateProfile { profile with udpFallback := some target } = (store', none) ∧
      store'.sequence = store.sequence ∧
      store'.rows = relink profile.id target store.rows := by
  have hid := id_of_unlinked hsame
  have hmem : profile.id ∈ store.rows.map Profile.id := by
    rw [← hid]
    exact List.mem_map_of_mem hrow
  refine ⟨store.update { profile with udpFallback := some target }, ?_, rfl, ?_⟩
  · rw [ProfileStore.updateProfile, if_pos hmem]
  · exact updateRows_relink target store.nodup hrow hsame

/-- **One turn**: the fallback's row is appended, if it is needed, and the link of one row is set. -/
theorem linkFallback_relink (listed : List Profile) {s : Importing} {profile row : Profile}
    (f : Profile) (hready : s.Ready replaced) (hrow : row ∈ s.store.rows)
    (hsame : row.unlinked = profile.unlinked) :
    ∃ s', linkFallback replaced listed s profile f = (s', none) ∧ s'.Ready replaced ∧
      s'.store.sequence = s.store.sequence + (fallbackRows replaced listed s.store f).length ∧
      s'.store.rows = relink profile.id (linkTarget listed s.store f)
        (s.store.rows ++ fallbackRows replaced listed s.store f) := by
  rw [linkFallback, linkTarget, fallbackRows]
  cases hfind : listed.find? (isMatch f) with
  | some q =>
    obtain ⟨store', hupdate, hsequence, hrows⟩ := updateProfile_relink q.id hrow hsame
    refine ⟨{ s with store := store' }, ?_, hready, ?_, ?_⟩
    · simp only [hupdate]
    · show store'.sequence = _
      rw [hsequence, List.length_nil, Nat.cast_zero, Int.add_zero]
    · show store'.rows = _
      rw [hrows, List.append_nil]
  | none =>
    have hc := create_created replaced s f
    have hrow_eq := hc.row_eq
    have hrows := hc.rows
    have hsequence := hc.sequence
    rw [hready.base_eq] at hrow_eq hrows hsequence
    have hmem : row ∈ (create replaced s f).1.store.rows := by
      rw [hrows]
      exact List.mem_append_left _ hrow
    have hid : (create replaced s f).2.id = s.store.sequence + 1 := by rw [hrow_eq, newRow]
    obtain ⟨store', hupdate, hsequence', hrows'⟩ :=
      updateProfile_relink (s.store.sequence + 1) hmem hsame
    refine ⟨{ (create replaced s f).1 with store := store' }, ?_, hc.ready, ?_, ?_⟩
    · simp only [hid, hupdate]
    · show store'.sequence = _
      rw [hsequence', hsequence, List.length_singleton, Nat.cast_one]
    · show store'.rows = _
      rw [hrows', hrows, hrow_eq]

end ProfileManager

end SsAndroid
