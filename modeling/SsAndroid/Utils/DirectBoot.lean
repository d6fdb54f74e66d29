import SsAndroid.Database.ProfileManager

/-!
# The two places profiles are kept in

The database is in credential-protected storage and cannot be opened before the user has unlocked
the device.  With direct boot enabled the selected profile and its UDP fallback are also kept in a
file in device-protected storage, which is always there.  `Storage` is both of them, with the
selected id of `DataStore`.

A copy in the file is *dirty* when it has traffic that the database does not have yet
(`DeviceCopy.dirty`); `flushTrafficStats` writes such a copy over its row as soon as the database can
be opened, and rewrites the file from the database.

Writing the file truncates it first, so that an exception in between leaves no readable pair.
-/

namespace SsAndroid

/-- A profile in device-protected storage, with the flag that the database does not have. -/
structure DeviceCopy where
  profile : Profile
  dirty : Bool := false
  deriving DecidableEq

/-- The database, the device-protected file and the part of `DataStore` that they go with. -/
structure Storage where
  database : ProfileStore
  /-- The database can be opened. -/
  readable : Bool
  /-- What `getDeviceProfile` reads; `none` when the file is missing or broken. -/
  device : Option (DeviceCopy × Option DeviceCopy)
  profileId : Int
  directBootAware : Bool

namespace Storage

/-- The row with an id. -/
def row (s : Storage) (id : Int) : Option Profile := s.database.rows.find? (fun p => p.id = id)

/-- `ProfileManager.getProfile`. -/
def getProfile (s : Storage) (id : Int) : Except Exn (Option Profile) :=
  if s.readable then .ok (s.row id) else .error (.io "unable to open database file")

/-- `ProfileManager.updateProfile`. -/
def updateProfile (s : Storage) (p : Profile) : Storage × Option Exn :=
  let (database, exn) := s.database.updateProfile p
  ({ s with database := database }, exn)

/-- `ProfileManager.expand`. -/
def expand (s : Storage) (p : DeviceCopy) : Except Exn (DeviceCopy × Option DeviceCopy) :=
  match p.profile.udpFallback with
  | none => .ok (p, none)
  | some id => (s.getProfile id).map fun fallback => (p, fallback.map fun f => { profile := f })

/-! ### `DirectBoot` -/

def clean (s : Storage) : Storage := { s with device := none }

/-- `update(profile)`: the file is truncated before the pair is put together. -/
def updateDevice (s : Storage) (profile : Option DeviceCopy) : Storage × Option Exn :=
  match profile with
  | none => (s.clean, none)
  | some p =>
      match s.expand p with
      | .ok pair => ({ s with device := some pair }, none)
      | .error e => (s.clean, some e)

/-- `update()`: the selected profile. -/
def updateSelected (s : Storage) : Storage × Option Exn :=
  match s.getProfile s.profileId with
  | .ok p => s.updateDevice (p.map fun p => { profile := p })
  | .error e => (s, some e)

/-- `if (copy.dirty) ProfileManager.updateProfile(copy)`. -/
def flushCopy (s : Storage) (c : DeviceCopy) : Storage × Option Exn :=
  if c.dirty then s.updateProfile c.profile else (s, none)

/-- `flushTrafficStats`. -/
def flushTrafficStats (s : Storage) : Storage × Option Exn :=
  match s.device with
  | none => s.updateSelected
  | some (profile, fallback) =>
      match s.flushCopy profile with
      | (s, some e) => (s, some e)
      | (s, none) =>
          match fallback with
          | none => s.updateSelected
          | some f =>
              match s.flushCopy f with
              | (s, some e) => (s, some e)
              | (s, none) => s.updateSelected

/-! ### `Core` -/

/-- `DataStore.profileId = id`, with the listener that keeps the device copy. -/
def setProfileId (s : Storage) (id : Int) : Storage × Option Exn :=
  let s := { s with profileId := id }
  if s.directBootAware then s.updateSelected else (s, none)

/-- `Core.activeProfileIds`, for a database that can be opened. -/
def activeProfileIds (s : Storage) : List Int :=
  match s.row s.profileId with
  | none => []
  | some p => p.id :: p.udpFallback.toList

/-- `Core.currentProfile`. -/
def currentProfile (s : Storage) : Except Exn (Option (DeviceCopy × Option DeviceCopy)) :=
  let stored : Except Exn (Option (DeviceCopy × Option DeviceCopy)) :=
    match s.getProfile s.profileId with
    | .error e => .error e
    | .ok none => .ok none
    | .ok (some p) => (s.expand { profile := p }).map some
  if s.directBootAware then
    match s.device with
    | some pair => .ok (some pair)
    | none => stored
  else stored

/-! ### A database that can be opened -/

theorem row_id {s : Storage} {id : Int} {p : Profile} (h : s.row id = some p) : p.id = id := by
  have := List.find?_some h
  simpa using this

theorem row_mem {s : Storage} {id : Int} {p : Profile} (h : s.row id = some p) :
    p ∈ s.database.rows :=
  List.mem_of_find?_eq_some h

/-- `update()` while the database can be opened. -/
theorem updateSelected_readable {s : Storage} {p : Profile} (hread : s.readable = true)
    (h : s.row s.profileId = some p) :
    s.updateSelected = ({ s with device := some ({ profile := p },
      (p.udpFallback.bind s.row).map fun f => { profile := f }) }, none) := by
  rw [updateSelected, getProfile, if_pos hread, h]
  show s.updateDevice (some { profile := p }) = _
  rw [updateDevice, expand]
  cases hf : p.udpFallback with
  | none => rfl
  | some id =>
    have hget : s.getProfile id = .ok (s.row id) := by rw [getProfile, if_pos hread]
    simp only [hget]
    rfl

/-- A new selection while the database can be opened. -/
theorem setProfileId_readable {s : Storage} (hread : s.readable = true) (id : Int) :
    s.setProfileId id = ({ s with
      profileId := id
      device := if s.directBootAware then
          (s.row id).map fun p =>
            ({ profile := p }, (p.udpFallback.bind s.row).map fun f => { profile := f })
        else s.device }, none) := by
  rw [setProfileId]
  split
  · cases hrow : s.row id with
    | none =>
      have hget : ({ s with profileId := id } : Storage).getProfile id = .ok none := by
        rw [getProfile, if_pos (show ({ s with profileId := id } : Storage).readable = true from hread)]
        exact congrArg Except.ok hrow
      rw [updateSelected, hget]
      rfl
    | some p => exact updateSelected_readable (s := { s with profileId := id }) hread hrow
  · rfl

end Storage

end SsAndroid
