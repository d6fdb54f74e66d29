import SsAndroid.Lib.Machine
import SsAndroid.Utils.DirectBoot

/-!
# Deleting profiles

A profile is deleted from its own screen, or it is swiped away in the list and deleted later, when
the snackbar that offers to undo the removal is dismissed.  `delProfile` deletes the row, tells the
list, and cleans up the device-protected copy; it is the list that resets `DataStore.profileId`, and
only if it still has the profile.

`ProfilesApp` is the storage with the list (`none` while it is closed), the removals that may still
be undone, and those of lists that were closed before their snackbar was gone: dismissing a snackbar
takes a while, and its removals are committed afterwards.  The database can be opened.  An exception
ends the app; what is stored stays.

**`deleted_not_selected`**: no deleted profile is selected, in the device copy or the current one, in
every run in which the selected profile is deleted only while it is in the list.
-/

namespace SsAndroid

/-- `DELETE FROM Profile WHERE id = :id`. -/
def ProfileStore.delete (s : ProfileStore) (id : Int) : ProfileStore where
  rows := s.rows.filter (fun p => p.id ≠ id)
  sequence := s.sequence
  nodup := s.nodup.sublist (List.filter_sublist.map Profile.id)
  le_sequence := fun p hp => s.le_sequence p (List.mem_of_mem_filter hp)

structure ProfilesApp where
  storage : Storage
  /-- `ProfilesAdapter.profiles` of the listener. -/
  list : Option (List Profile)
  recycleBin : List (Nat × Profile)
  /-- The recycle bins of closed lists. -/
  closed : List (List (Nat × Profile))
  /-- The ids deleted so far. -/
  deleted : List Int

inductive ProfileAction
  | create (profile : Profile)
  /-- `Core.switchProfile(id)`. -/
  | select (id : Int)
  | swipe (pos : Nat)
  | undo
  /-- The snackbar is dismissed by a swipe, by the app or by a timeout. -/
  | dismiss
  /-- The snackbar of a closed list is gone. -/
  | dismissClosed (list : Nat)
  /-- The profile is deleted from its screen. -/
  | delete (id : Int)
  | openList
  | closeList

namespace ProfilesApp

/-- A new installation. -/
def new (directBootAware : Bool) : ProfilesApp where
  storage :=
    { database := ⟨[], 0, by simp, by simp⟩
      readable := true
      device := none
      profileId := 0
      directBootAware := directBootAware }
  list := none
  recycleBin := []
  closed := []
  deleted := []

def ids (s : ProfilesApp) : List Int := s.storage.database.rows.map Profile.id

def listIds (s : ProfilesApp) : List Int := (s.list.getD []).map Profile.id

def setProfileId (s : ProfilesApp) (id : Int) : ProfilesApp :=
  { s with storage := (s.storage.setProfileId id).1 }

/-- `createProfile(profile)`, with `onAdd` of the list. -/
def createProfile (s : ProfilesApp) (p : Profile) : ProfilesApp × Profile :=
  let (database, p) := s.storage.database.createProfile p
  ({ s with
      storage := { s.storage with database := database }
      list := s.list.map (· ++ [p]) }, p)

/-- `Core.switchProfile(id)`. -/
def switchProfile (s : ProfilesApp) (id : Int) : ProfilesApp :=
  match s.storage.row id with
  | some p => s.setProfileId p.id
  | none =>
      let (s, p) := s.createProfile {}
      s.setProfileId p.id

/-- `onRemove(profileId)`. -/
def onRemove (s : ProfilesApp) (id : Int) : ProfilesApp :=
  match s.list with
  | none => s
  | some profiles =>
      if id ∈ profiles.map Profile.id then
        let s := { s with list := some (profiles.eraseP (fun p => p.id = id)) }
        if id = s.storage.profileId then s.setProfileId 0 else s
      else s

/-- The last statement of `delProfile`. -/
def cleanDevice (s : ProfilesApp) (id : Int) : ProfilesApp :=
  if id ∈ s.storage.activeProfileIds ∧ s.storage.directBootAware then
    { s with storage := s.storage.clean }
  else s

/-- `delProfile(id)`; `none` after its `check` has failed. -/
def delProfile (s : ProfilesApp) (id : Int) : Option ProfilesApp :=
  if id ∈ s.ids then
    let s := { s with
      storage := { s.storage with database := s.storage.database.delete id }
      deleted := s.deleted ++ [id] }
    some ((s.onRemove id).cleanDevice id)
  else none

/-- The app has ended; only what is stored is left. -/
def crash (s : ProfilesApp) : ProfilesApp := { s with list := none, recycleBin := [], closed := [] }

/-- `commit(actions)`, up to an exception (`false`). -/
def commit : List (Nat × Profile) → ProfilesApp → ProfilesApp × Bool
  | [], s => (s, true)
  | (_, item) :: actions, s =>
      match s.delProfile item.id with
      | some s => commit actions s
      | none => (s, false)

/-- `undo(actions)` on the list; `none` after an `IndexOutOfBoundsException`. -/
def undo : List (Nat × Profile) → List Profile → Option (List Profile)
  | [], profiles => some profiles
  | (index, item) :: actions, profiles =>
      if index ≤ profiles.length then undo actions (profiles.insertIdx index item) else none

/-- `ensureNotEmpty()`. -/
def ensureNotEmpty (s : ProfilesApp) : ProfilesApp :=
  if s.storage.database.rows = [] then
    let (s, p) := s.createProfile {}
    s.setProfileId p.id
  else s

/-- A commit, and the bin it leaves. -/
def committed (r : ProfilesApp × Bool) (clear : ProfilesApp → ProfilesApp) : ProfilesApp :=
  if r.2 then clear r.1 else r.1.crash

def step (s : ProfilesApp) : ProfileAction → Option ProfilesApp
  | .create p => some (s.createProfile p).1
  | .select id => some (s.switchProfile id)
  | .swipe pos =>
      match s.list with
      | none => none
      | some profiles =>
          match profiles[pos]? with
          | none => none
          | some p =>
              some { s with
                list := some (profiles.eraseIdx pos), recycleBin := s.recycleBin ++ [(pos, p)] }
  | .undo =>
      match s.list with
      | none => none
      | some profiles =>
          match undo s.recycleBin.reverse profiles with
          | some profiles => some { s with list := some profiles, recycleBin := [] }
          | none => some s.crash
  | .dismiss => some (committed (commit s.recycleBin s) fun s => { s with recycleBin := [] })
  | .dismissClosed k =>
      match s.closed[k]? with
      | none => none
      | some bin => some (committed (commit bin s) fun s => { s with closed := s.closed.eraseIdx k })
  | .delete id => some ((s.delProfile id).getD s.crash)
  | .openList =>
      match s.list with
      | some _ => none
      | none =>
          let s := s.ensureNotEmpty
          some { s with list := some s.storage.database.list, recycleBin := [] }
  | .closeList =>
      some { s with list := none, recycleBin := [], closed := s.closed ++ [s.recycleBin] }

/-! ### When the selected profile may be deleted -/

/-- The ids an action is about to delete. -/
def deletes (s : ProfilesApp) : ProfileAction → List Int
  | .dismiss => s.recycleBin.map fun a => a.2.id
  | .dismissClosed k => ((s.closed[k]?).getD []).map fun a => a.2.id
  | .delete id => [id]
  | _ => []

/-- If the selected profile is stored and about to be deleted, the list has it. -/
def listed (s : ProfilesApp) (a : ProfileAction) : Bool :=
  decide (s.storage.profileId ∈ s.ids → s.storage.profileId ∈ s.deletes a →
    s.storage.profileId ∈ s.listIds)

/-- Every action of a run meets the condition in the state it is taken in. -/
def listedRun : List ProfileAction → ProfilesApp → Bool
  | [], _ => true
  | a :: as, s => s.listed a && (s.step a).all (listedRun as)

/-! ### What is stored and what is selected -/

/-- The deleted ids are old ones without a row. -/
structure Stored (s : ProfilesApp) : Prop where
  readable : s.storage.readable = true
  sequence : 0 ≤ s.storage.database.sequence
  positive : ∀ id ∈ s.ids, 0 < id
  gone : ∀ id ∈ s.deleted, 0 < id ∧ id ≤ s.storage.database.sequence ∧ id ∉ s.ids

/-- Neither the selected id nor the device copy is of a deleted profile. -/
structure Selected (s : ProfilesApp) : Prop where
  selected : s.storage.profileId ∉ s.deleted
  device : s.storage.directBootAware = true → ∀ c f, s.storage.device = some (c, f) →
    s.storage.row s.storage.profileId = some c.profile ∧
      ∀ d, f = some d → c.profile.udpFallback = some d.profile.id ∧ d.profile.id ∈ s.ids

theorem row_mem_ids {s : ProfilesApp} {id : Int} {p : Profile} (h : s.storage.row id = some p) :
    id ∈ s.ids := by
  rw [← Storage.row_id h]
  exact List.mem_map_of_mem (Storage.row_mem h)

theorem Stored.zero_not_deleted {s : ProfilesApp} (h : s.Stored) : (0 : Int) ∉ s.deleted :=
  fun h0 => absurd (h.gone 0 h0).1 (lt_irrefl 0)

theorem Stored.not_deleted {s : ProfilesApp} (h : s.Stored) {id : Int} (hid : id ∈ s.ids) :
    id ∉ s.deleted :=
  fun hdel => (h.gone id hdel).2.2 hid

/-- What `DataStore.profileId = id` does to the storage. -/
theorem setProfileId_eq {s : ProfilesApp} (h : s.storage.readable = true) (id : Int) :
    s.setProfileId id = { s with storage := { s.storage with
      profileId := id
      device := if s.storage.directBootAware then
          (s.storage.row id).map fun p =>
            ({ profile := p }, (p.udpFallback.bind s.storage.row).map fun f => { profile := f })
        else s.storage.device } } := by
  rw [setProfileId, Storage.setProfileId_readable h]

theorem setProfileId_stored {s : ProfilesApp} (hs : s.Stored) (id : Int) :
    (s.setProfileId id).Stored := by
  rw [setProfileId_eq hs.readable]
  exact ⟨hs.readable, hs.sequence, hs.positive, hs.gone⟩

theorem setProfileId_selected {s : ProfilesApp} (hs : s.Stored) {id : Int} (hid : id ∉ s.deleted) :
    (s.setProfileId id).Selected := by
  rw [setProfileId_eq hs.readable]
  refine ⟨hid, ?_⟩
  intro hboot c f hdevice
  simp only [show s.storage.directBootAware = true from hboot, if_true] at hdevice
  obtain ⟨p, hp, heq⟩ := Option.map_eq_some_iff.mp hdevice
  obtain ⟨rfl, rfl⟩ := Prod.mk.inj heq
  refine ⟨hp, ?_⟩
  intro d hd
  obtain ⟨q, hq, rfl⟩ := Option.map_eq_some_iff.mp hd
  obtain ⟨fallback, hfallback, hrow⟩ := Option.bind_eq_some_iff.mp hq
  have hqid : q.id = fallback := Storage.row_id hrow
  refine ⟨?_, ?_⟩
  · show p.udpFallback = some q.id
    rw [hqid]
    exact hfallback
  · show q.id ∈ s.ids
    rw [hqid]
    exact row_mem_ids hrow

/-! ### Creating -/

theorem createProfile_ids (s : ProfilesApp) (p : Profile) :
    (s.createProfile p).1.ids = s.ids ++ [s.storage.database.sequence + 1] := by
  simp [createProfile, ids, ProfileStore.createProfile, ProfileStore.insert]

theorem createProfile_stored {s : ProfilesApp} (hs : s.Stored) (p : Profile) :
    (s.createProfile p).1.Stored := by
  have hseq : (s.createProfile p).1.storage.database.sequence =
      s.storage.database.sequence + 1 := rfl
  refine ⟨hs.readable, ?_, ?_, ?_⟩
  · rw [hseq]
    have := hs.sequence
    omega
  · rw [createProfile_ids]
    intro id hid
    rcases List.mem_append.mp hid with hid | hid
    · exact hs.positive id hid
    · rw [List.mem_singleton.mp hid]
      have := hs.sequence
      omega
  · intro id hid
    obtain ⟨hpos, hle, hnot⟩ := hs.gone id hid
    refine ⟨hpos, ?_, ?_⟩
    · rw [hseq]
      omega
    · rw [createProfile_ids]
      intro hmem
      rcases List.mem_append.mp hmem with hmem | hmem
      · exact hnot hmem
      · rw [List.mem_singleton.mp hmem] at hle
        omega

theorem createProfile_row {s : ProfilesApp} {id : Int} {q : Profile}
    (h : s.storage.row id = some q) (p : Profile) :
    (s.createProfile p).1.storage.row id = some q := by
  have h' : s.storage.database.rows.find? (fun p => p.id = id) = some q := h
  show (s.storage.database.rows ++ [_]).find? (fun p => p.id = id) = some q
  rw [List.find?_append, h']
  rfl

theorem createProfile_selected {s : ProfilesApp} (hs : s.Selected) (p : Profile) :
    (s.createProfile p).1.Selected := by
  refine ⟨hs.selected, ?_⟩
  intro hboot c f hdevice
  obtain ⟨hrow, hfallback⟩ := hs.device hboot c f hdevice
  refine ⟨createProfile_row hrow p, ?_⟩
  intro d hd
  obtain ⟨hudp, hmem⟩ := hfallback d hd
  rw [createProfile_ids]
  exact ⟨hudp, List.mem_append_left _ hmem⟩

/-- A new profile is created and selected. -/
theorem createSelected {s : ProfilesApp} (hs : s.Stored) (p : Profile) :
    ((s.createProfile p).1.setProfileId (s.createProfile p).2.id).Stored ∧
      ((s.createProfile p).1.setProfileId (s.createProfile p).2.id).Selected := by
  have hstored := createProfile_stored hs p
  refine ⟨setProfileId_stored hstored _, setProfileId_selected hstored ?_⟩
  apply hstored.not_deleted
  rw [createProfile_ids]
  exact List.mem_append_right _ (List.mem_singleton_self _)

/-! ### Deleting -/

/-- The row is gone, before anything else has happened. -/
def deleteRow (s : ProfilesApp) (id : Int) : ProfilesApp :=
  { s with
    storage := { s.storage with database := s.storage.database.delete id }
    deleted := s.deleted ++ [id] }

theorem mem_deleteRow_ids (s : ProfilesApp) (id x : Int) :
    x ∈ (s.deleteRow id).ids ↔ x ∈ s.ids ∧ x ≠ id := by
  constructor
  · intro h
    obtain ⟨p, hp, rfl⟩ := List.mem_map.mp h
    obtain ⟨hp, hne⟩ := List.mem_filter.mp hp
    exact ⟨List.mem_map_of_mem hp, by simpa using hne⟩
  · rintro ⟨h, hne⟩
    obtain ⟨p, hp, rfl⟩ := List.mem_map.mp h
    exact List.mem_map_of_mem (List.mem_filter.mpr ⟨hp, by simpa using hne⟩)

theorem deleteRow_row (s : ProfilesApp) {id x : Int} (h : x ≠ id) :
    (s.deleteRow id).storage.row x = s.storage.row x := by
  show (s.storage.database.rows.filter _).find? (fun p => p.id = x) =
    s.storage.database.rows.find? (fun p => p.id = x)
  rw [List.find?_filter]
  congr 1
  funext p
  by_cases hp : p.id = x
  · simp [hp, h]
  · simp [hp]

theorem deleteRow_stored {s : ProfilesApp} (hs : s.Stored) {id : Int} (hid : id ∈ s.ids) :
    (s.deleteRow id).Stored := by
  refine ⟨hs.readable, hs.sequence, ?_, ?_⟩
  · intro x hx
    exact hs.positive x ((mem_deleteRow_ids s id x).mp hx).1
  · intro x hx
    rw [mem_deleteRow_ids]
    rcases List.mem_append.mp hx with hx | hx
    · obtain ⟨hpos, hle, hnot⟩ := hs.gone x hx
      exact ⟨hpos, hle, fun h => hnot h.1⟩
    · rw [List.mem_singleton.mp hx]
      obtain ⟨p, hp, rfl⟩ := List.mem_map.mp hid
      exact ⟨hs.positive _ hid, s.storage.database.le_sequence p hp, fun h => h.2 rfl⟩

theorem delProfile_eq {s : ProfilesApp} {id : Int} (hid : id ∈ s.ids) :
    s.delProfile id = some (((s.deleteRow id).onRemove id).cleanDevice id) := by
  rw [delProfile, if_pos hid]
  rfl

theorem Stored.congr {s t : ProfilesApp} (hs : s.Stored) (hstorage : t.storage = s.storage)
    (hdeleted : t.deleted = s.deleted) : t.Stored := by
  have hids : t.ids = s.ids := by rw [ids, hstorage, ids]
  exact ⟨hstorage ▸ hs.readable, hstorage ▸ hs.sequence, hids ▸ hs.positive,
    by rw [hids, hdeleted, hstorage]; exact hs.gone⟩

theorem Selected.congr {s t : ProfilesApp} (hs : s.Selected) (hstorage : t.storage = s.storage)
    (hdeleted : t.deleted = s.deleted) : t.Selected := by
  have hids : t.ids = s.ids := by rw [ids, hstorage, ids]
  exact ⟨by rw [hstorage, hdeleted]; exact hs.selected,
    by rw [hstorage, hids]; exact hs.device⟩

/-- The list resets the selection if it has the profile. -/
theorem onRemove_selected {s : ProfilesApp} {id : Int} (h : id = s.storage.profileId)
    (hlist : id ∈ s.listIds) :
    ∃ profiles, s.onRemove id = { s with list := profiles }.setProfileId 0 := by
  rw [onRemove]
  cases hl : s.list with
  | none => exact absurd hlist (by simp [listIds, hl])
  | some profiles =>
    have hmem : id ∈ profiles.map Profile.id := by simpa [listIds, hl] using hlist
    simp only [if_pos hmem]
    rw [if_pos h]
    exact ⟨_, rfl⟩

/-- Any other removal only changes the list. -/
theorem onRemove_other {s : ProfilesApp} {id : Int} (h : id ≠ s.storage.profileId) :
    (s.onRemove id).storage = s.storage ∧ (s.onRemove id).deleted = s.deleted ∧
      ∀ x ∈ s.listIds, x ≠ id → x ∈ (s.onRemove id).listIds := by
  rw [onRemove]
  cases hl : s.list with
  | none => exact ⟨rfl, rfl, fun x hx _ => hx⟩
  | some profiles =>
    simp only
    split
    · refine ⟨rfl, rfl, ?_⟩
      intro x hx hne
      have hx : x ∈ profiles.map Profile.id := by simpa [listIds, hl] using hx
      obtain ⟨p, hp, rfl⟩ := List.mem_map.mp hx
      exact List.mem_map_of_mem ((List.mem_eraseP_of_neg (by simpa using hne)).mpr hp)
    · exact ⟨rfl, rfl, fun x hx _ => hx⟩

theorem cleanDevice_stored {s : ProfilesApp} (hs : s.Stored) (id : Int) :
    (s.cleanDevice id).Stored := by
  rw [cleanDevice]
  split
  · exact ⟨hs.readable, hs.sequence, hs.positive, hs.gone⟩
  · exact hs

theorem cleaned_selected {s : ProfilesApp} (h : s.storage.profileId ∉ s.deleted) :
    { s with storage := s.storage.clean }.Selected :=
  ⟨h, fun _ c f hdevice => absurd hdevice (by simp [Storage.clean])⟩

theorem cleanDevice_selected {s : ProfilesApp} (hs : s.Selected) (id : Int) :
    (s.cleanDevice id).Selected := by
  rw [cleanDevice]
  split
  · exact cleaned_selected hs.selected
  · exact hs

/-- Another profile than the selected one is deleted; it may be the fallback in the device copy. -/
theorem deleteRow_selected {s t : ProfilesApp} {id : Int} (hs : s.Selected)
    (hid : id ≠ s.storage.profileId) (hstorage : t.storage = (s.deleteRow id).storage)
    (hdeleted : t.deleted = (s.deleteRow id).deleted) : (t.cleanDevice id).Selected := by
  have hselected : t.storage.profileId ∉ t.deleted := by
    rw [hstorage, hdeleted]
    intro h
    rcases List.mem_append.mp h with h | h
    · exact hs.selected h
    · exact hid (List.mem_singleton.mp h).symm
  have hprofileId : t.storage.profileId = s.storage.profileId := by rw [hstorage]; rfl
  have hrow : t.storage.row t.storage.profileId = s.storage.row s.storage.profileId := by
    rw [hprofileId, hstorage]
    exact deleteRow_row s hid.symm
  rw [cleanDevice]
  split
  · exact cleaned_selected hselected
  · rename_i hkeep
    refine ⟨hselected, ?_⟩
    intro hboot c f hdevice
    have hboot' : s.storage.directBootAware = true := by rw [hstorage] at hboot; exact hboot
    have hdevice' : s.storage.device = some (c, f) := by rw [hstorage] at hdevice; exact hdevice
    obtain ⟨hc, hf⟩ := hs.device hboot' c f hdevice'
    refine ⟨hrow.trans hc, ?_⟩
    intro d hd
    obtain ⟨hudp, hmem⟩ := hf d hd
    have hne : d.profile.id ≠ id := by
      intro heq
      apply hkeep
      refine ⟨?_, hboot⟩
      rw [Storage.activeProfileIds, hrow, hc]
      simp [hudp, heq]
    refine ⟨hudp, ?_⟩
    have hids : t.ids = (s.deleteRow id).ids := by rw [ids, hstorage, ids]
    rw [hids, mem_deleteRow_ids]
    exact ⟨hmem, hne⟩

theorem delProfile_sound {s : ProfilesApp} (hstored : s.Stored) (hselected : s.Selected) {id : Int}
    (hid : id ∈ s.ids) (hlist : id = s.storage.profileId → id ∈ s.listIds) :
    (((s.deleteRow id).onRemove id).cleanDevice id).Stored ∧
      (((s.deleteRow id).onRemove id).cleanDevice id).Selected := by
  have hrow := deleteRow_stored hstored hid
  by_cases h : id = s.storage.profileId
  · obtain ⟨profiles, heq⟩ := onRemove_selected (s := s.deleteRow id) h (hlist h)
    have hlisted : { s.deleteRow id with list := profiles }.Stored := hrow.congr rfl rfl
    rw [heq]
    exact ⟨cleanDevice_stored (setProfileId_stored hlisted 0) id,
      cleanDevice_selected (setProfileId_selected hlisted hlisted.zero_not_deleted) id⟩
  · obtain ⟨hstorage, hdeleted, _⟩ := onRemove_other (s := s.deleteRow id) h
    exact ⟨cleanDevice_stored (hrow.congr hstorage hdeleted) id,
      deleteRow_selected hselected h hstorage hdeleted⟩

theorem cleanDevice_frame (s : ProfilesApp) (id : Int) :
    (s.cleanDevice id).storage.profileId = s.storage.profileId ∧
      (s.cleanDevice id).ids = s.ids ∧ (s.cleanDevice id).listIds = s.listIds := by
  rw [cleanDevice]
  split <;> exact ⟨rfl, rfl, rfl⟩

/-- A deletion resets the selection, or it leaves it and what else is stored and listed alone. -/
theorem delProfile_frame {s : ProfilesApp} (hstored : s.Stored) {id : Int}
    (hlist : id = s.storage.profileId → id ∈ s.listIds) :
    let t := ((s.deleteRow id).onRemove id).cleanDevice id
    t.storage.profileId = 0 ∨
      t.storage.profileId = s.storage.profileId ∧ (∀ x ∈ t.ids, x ∈ s.ids ∧ x ≠ id) ∧
        ∀ x ∈ s.listIds, x ≠ id → x ∈ t.listIds := by
  intro t
  obtain ⟨hprofileId, hids, hlistIds⟩ := cleanDevice_frame ((s.deleteRow id).onRemove id) id
  by_cases h : id = s.storage.profileId
  · left
    obtain ⟨profiles, heq⟩ := onRemove_selected (s := s.deleteRow id) h (hlist h)
    rw [hprofileId, heq, setProfileId_eq (by exact hstored.readable)]
  · right
    obtain ⟨hstorage, _, hkeep⟩ := onRemove_other (s := s.deleteRow id) h
    refine ⟨?_, ?_, ?_⟩
    · rw [hprofileId, hstorage]
      rfl
    · intro x hx
      rw [hids, ids, hstorage] at hx
      exact (mem_deleteRow_ids s id x).mp hx
    · intro x hx hne
      rw [hlistIds]
      exact hkeep x hx hne

/-- The loop over the removals that are committed. -/
theorem commit_sound : ∀ (actions : List (Nat × Profile)) {s : ProfilesApp}, s.Stored →
    s.Selected →
    (s.storage.profileId ∈ s.ids → s.storage.profileId ∈ actions.map (fun a => a.2.id) →
      s.storage.profileId ∈ s.listIds) →
    (commit actions s).1.Stored ∧ (commit actions s).1.Selected := by
  intro actions
  induction actions with
  | nil => exact fun hstored hselected _ => ⟨hstored, hselected⟩
  | cons a actions ih =>
    obtain ⟨pos, item⟩ := a
    intro s hstored hselected hlisted
    by_cases hid : item.id ∈ s.ids
    · have hlist : item.id = s.storage.profileId → item.id ∈ s.listIds := by
        intro heq
        rw [heq] at hid ⊢
        exact hlisted hid (by rw [← heq]; simp)
      obtain ⟨hstored', hselected'⟩ := delProfile_sound hstored hselected hid hlist
      rw [commit, delProfile_eq hid]
      refine ih hstored' hselected' ?_
      intro hmem hrest
      rcases delProfile_frame hstored hlist with hzero | ⟨hsame, hids, hkeep⟩
      · rw [hzero] at hmem
        exact absurd (hstored'.positive 0 hmem) (lt_irrefl 0)
      · obtain ⟨hold, hne⟩ := hids _ hmem
        rw [hsame] at hold hne hrest ⊢
        exact hkeep _ (hlisted hold (List.mem_cons_of_mem _ hrest)) hne
    · rw [commit, delProfile, if_neg hid]
      exact ⟨hstored, hselected⟩

theorem crash_sound {s : ProfilesApp} (h : s.Stored ∧ s.Selected) :
    s.crash.Stored ∧ s.crash.Selected :=
  ⟨h.1.congr rfl rfl, h.2.congr rfl rfl⟩

theorem committed_sound {r : ProfilesApp × Bool} {clear : ProfilesApp → ProfilesApp}
    (h : r.1.Stored ∧ r.1.Selected)
    (hclear : ∀ s, (clear s).storage = s.storage ∧ (clear s).deleted = s.deleted) :
    (committed r clear).Stored ∧ (committed r clear).Selected := by
  rw [committed]
  split
  · obtain ⟨hstorage, hdeleted⟩ := hclear r.1
    exact ⟨h.1.congr hstorage hdeleted, h.2.congr hstorage hdeleted⟩
  · exact crash_sound h

theorem ensureNotEmpty_sound {s : ProfilesApp} (h : s.Stored ∧ s.Selected) :
    s.ensureNotEmpty.Stored ∧ s.ensureNotEmpty.Selected := by
  rw [ensureNotEmpty]
  split
  · exact createSelected h.1 {}
  · exact h

theorem switchProfile_sound {s : ProfilesApp} (h : s.Stored ∧ s.Selected) (id : Int) :
    (s.switchProfile id).Stored ∧ (s.switchProfile id).Selected := by
  rw [switchProfile]
  split
  · rename_i p hp
    rw [Storage.row_id hp]
    exact ⟨setProfileId_stored h.1 id,
      setProfileId_selected h.1 (h.1.not_deleted (row_mem_ids hp))⟩
  · exact createSelected h.1 {}

theorem step_sound {s t : ProfilesApp} {a : ProfileAction} (hs : s.Stored ∧ s.Selected)
    (ha : s.listed a = true) (h : s.step a = some t) : t.Stored ∧ t.Selected := by
  have hlisted := of_decide_eq_true ha
  cases a with
  | create p =>
    rw [← Option.some.inj h]
    exact ⟨createProfile_stored hs.1 p, createProfile_selected hs.2 p⟩
  | select id =>
    rw [← Option.some.inj h]
    exact switchProfile_sound hs id
  | swipe pos =>
    simp only [step] at h
    split at h
    · exact absurd h (by simp)
    · split at h
      · exact absurd h (by simp)
      · rw [← Option.some.inj h]
        exact ⟨hs.1.congr rfl rfl, hs.2.congr rfl rfl⟩
  | undo =>
    simp only [step] at h
    split at h
    · exact absurd h (by simp)
    · split at h
      · rw [← Option.some.inj h]
        exact ⟨hs.1.congr rfl rfl, hs.2.congr rfl rfl⟩
      · rw [← Option.some.inj h]
        exact crash_sound hs
  | dismiss =>
    rw [← Option.some.inj h]
    exact committed_sound (commit_sound s.recycleBin hs.1 hs.2 hlisted) fun _ => ⟨rfl, rfl⟩
  | dismissClosed k =>
    simp only [step] at h
    split at h
    · exact absurd h (by simp)
    · rename_i bin hbin
      rw [← Option.some.inj h]
      rw [deletes, hbin] at hlisted
      exact committed_sound (commit_sound bin hs.1 hs.2 hlisted) fun _ => ⟨rfl, rfl⟩
  | delete id =>
    rw [← Option.some.inj h]
    by_cases hid : id ∈ s.ids
    · rw [delProfile_eq hid]
      apply delProfile_sound hs.1 hs.2 hid
      intro heq
      rw [heq] at hid ⊢
      exact hlisted hid (by simp [deletes, heq])
    · rw [delProfile, if_neg hid]
      exact crash_sound hs
  | openList =>
    simp only [step] at h
    split at h
    · exact absurd h (by simp)
    · rw [← Option.some.inj h]
      obtain ⟨hstored, hselected⟩ := ensureNotEmpty_sound hs
      exact ⟨hstored.congr rfl rfl, hselected.congr rfl rfl⟩
  | closeList =>
    rw [← Option.some.inj h]
    exact ⟨hs.1.congr rfl rfl, hs.2.congr rfl rfl⟩

theorem run_sound {as : List ProfileAction} : ∀ {s t : ProfilesApp}, s.Stored ∧ s.Selected →
    listedRun as s = true → Machine.run step as s = some t → t.Stored ∧ t.Selected := by
  induction as with
  | nil =>
    intro s t hs _ h
    rw [← Option.some.inj h]
    exact hs
  | cons a as ih =>
    intro s t hs hlisted h
    obtain ⟨u, hu, h⟩ := Option.bind_eq_some_iff.mp h
    rw [listedRun, hu, Bool.and_eq_true] at hlisted
    exact ih (step_sound hs hlisted.1 hu) hlisted.2 h

/-! ### The current profile -/

/-- The selected profile as the database has it. -/
theorem expand_stored {s : ProfilesApp} (hread : s.storage.readable = true) {p : Profile}
    (hp : s.storage.row s.storage.profileId = some p) {c : DeviceCopy} {f : Option DeviceCopy}
    (h : s.storage.expand { profile := p } = .ok (c, f)) :
    c.profile.id ∈ s.ids ∧ ∀ d, f = some d → d.profile.id ∈ s.ids := by
  have hmain : p.id ∈ s.ids := List.mem_map_of_mem (Storage.row_mem hp)
  rw [Storage.expand] at h
  split at h
  · obtain ⟨rfl, rfl⟩ := Prod.mk.inj (Except.ok.inj h)
    exact ⟨hmain, by simp⟩
  · rename_i id _
    rw [Storage.getProfile, if_pos hread] at h
    obtain ⟨rfl, rfl⟩ := Prod.mk.inj (Except.ok.inj h)
    refine ⟨hmain, ?_⟩
    intro d hd
    obtain ⟨q, hq, rfl⟩ := Option.map_eq_some_iff.mp hd
    exact List.mem_map_of_mem (Storage.row_mem hq)

theorem currentProfile_stored {s : ProfilesApp} (hstored : s.Stored) (hselected : s.Selected)
    {c : DeviceCopy} {f : Option DeviceCopy} (h : s.storage.currentProfile = .ok (some (c, f))) :
    c.profile.id ∈ s.ids ∧ ∀ d, f = some d → d.profile.id ∈ s.ids := by
  have hdatabase : ∀ p, s.storage.getProfile s.storage.profileId = .ok (some p) →
      (s.storage.expand { profile := p }).map some = .ok (some (c, f)) →
      c.profile.id ∈ s.ids ∧ ∀ d, f = some d → d.profile.id ∈ s.ids := by
    intro p hp h
    rw [Storage.getProfile, if_pos hstored.readable] at hp
    cases hexpand : s.storage.expand { profile := p } with
    | error e => exact absurd h (by simp [hexpand, Except.map])
    | ok pair =>
      simp only [hexpand, Except.map, Except.ok.injEq, Option.some.injEq] at h
      exact expand_stored hstored.readable (Except.ok.inj hp) (hexpand.trans (congrArg Except.ok h))
  simp only [Storage.currentProfile] at h
  split at h
  · rename_i hboot
    split at h
    · rename_i pair hdevice
      obtain rfl : pair = (c, f) := by simpa using h
      obtain ⟨hrow, hfallback⟩ := hselected.device hboot c f hdevice
      exact ⟨List.mem_map_of_mem (Storage.row_mem hrow), fun d hd => (hfallback d hd).2⟩
    · split at h
      · cases h
      · cases h
      · rename_i p hp
        exact hdatabase p hp h
  · split at h
    · cases h
    · cases h
    · rename_i p hp
      exact hdatabase p hp h

theorem new_sound (directBootAware : Bool) :
    (new directBootAware).Stored ∧ (new directBootAware).Selected :=
  ⟨⟨rfl, by simp [new], by simp [new, ids], by simp [new]⟩, ⟨by simp [new], by simp [new]⟩⟩

/-- **No deleted profile is selected, kept as the main profile of the device copy or returned as the
current one, after any run in which the selected profile is deleted only while the list has it.** -/
theorem deleted_not_selected (directBootAware : Bool) (as : List ProfileAction) (s : ProfilesApp)
    (h : Machine.run step as (new directBootAware) = some s)
    (hlisted : listedRun as (new directBootAware) = true) :
    ∀ id ∈ s.deleted, s.storage.profileId ≠ id ∧
      (s.storage.directBootAware = true →
        ∀ c f, s.storage.device = some (c, f) → c.profile.id ≠ id) ∧
      ∀ c f, s.storage.currentProfile = .ok (some (c, f)) →
        c.profile.id ≠ id ∧ ∀ d, f = some d → d.profile.id ≠ id := by
  obtain ⟨hstored, hselected⟩ := run_sound (new_sound directBootAware) hlisted h
  intro id hid
  have hgone : ∀ x ∈ s.ids, x ≠ id := by
    rintro x hx rfl
    exact hstored.not_deleted hx hid
  refine ⟨?_, ?_, ?_⟩
  · rintro rfl
    exact hselected.selected hid
  · intro hboot c f hdevice
    exact hgone _ (List.mem_map_of_mem (Storage.row_mem (hselected.device hboot c f hdevice).1))
  · intro c f hcurrent
    obtain ⟨hc, hf⟩ := currentProfile_stored hstored hselected hcurrent
    exact ⟨hgone _ hc, fun d hd => hgone _ (hf d hd)⟩

/-- A list with one profile is opened. -/
theorem step_openList {s : ProfilesApp} {p : Profile} (hlist : s.list = none)
    (hrows : s.ensureNotEmpty.storage.database.rows = [p]) :
    s.step .openList = some { s.ensureNotEmpty with list := some [p], recycleBin := [] } := by
  simp only [step, hlist, ProfileStore.list, hrows, List.mergeSort_singleton]

/-- Three profiles are created and two of them deleted from their screens, one of them while it is
selected and listed. -/
def deleteListed : List ProfileAction :=
  [.create {}, .select 2, .delete 2, .select 1, .create {}, .delete 3]

theorem deleted_not_selected_deleteListed :
    ∃ s, Machine.run step (.openList :: deleteListed) (new true) = some s ∧ s.deleted = [2, 3] ∧
      s.storage.profileId ≠ 3 := by
  have hopen := step_openList (s := new true) rfl rfl
  have hlisted : listedRun (.openList :: deleteListed) (new true) = true := by
    rw [listedRun, hopen]
    decide +kernel
  have hrun : ∃ s, Machine.run step (.openList :: deleteListed) (new true) = some s ∧
      s.deleted = [2, 3] := by
    rw [Machine.run, hopen]
    exact ⟨_, rfl, rfl⟩
  obtain ⟨s, hs, hdeleted⟩ := hrun
  exact ⟨s, hs, hdeleted, (deleted_not_selected true _ s hs hlisted 3 (by simp [hdeleted])).1⟩

/-- The only profile, which is selected, is swiped away and the snackbar times out: it is deleted,
still selected, and still the current profile. -/
theorem swiped_profile_stays_selected :
    ∃ s, Machine.run step [.openList, .swipe 0, .dismiss] (new true) = some s ∧ s.deleted = [1] ∧
      s.ids = [] ∧ s.storage.profileId = 1 ∧
      ∃ c, s.storage.currentProfile = .ok (some (c, none)) ∧ c.profile.id = 1 := by
  rw [Machine.run, step_openList rfl rfl]
  exact ⟨_, rfl, rfl, rfl, rfl, _, rfl, rfl⟩

end ProfilesApp

end SsAndroid
