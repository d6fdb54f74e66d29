import SsAndroid.Bg.Sessions

/-!
# Sessions before the device is unlocked

With direct boot enabled a session can end while the database cannot be opened.  Its totals then go
to the device-protected copy of its profile, and `flushTrafficStats` writes that copy over the row
after the unlock.

That loses traffic in two ways.  The copy is written as a whole, so what the row gained since the
copy was made is gone; and the pair in the file is put together again from the one profile, which
needs the database when the profile has a fallback, and drops the other profile in any case.
`Covered` is the state in which neither happens, and **`flush_counts`** says that runs whose locked
sessions all end in such a state count every session once.
-/

namespace SsAndroid

open TrafficMonitor

inductive BootStep
  /-- A session of a profile ends with these totals. -/
  | session (id tx rx : Int)
  /-- The device reboots and waits to be unlocked. -/
  | reboot
  /-- The user unlocks the device, or a process starts, and `flushTrafficStats` runs. -/
  | flush

namespace Storage

/-- `persistStats` of a session with these totals. -/
def endSession (s : Storage) (id tx rx : Int) : Storage :=
  (({ current := { txTotal := tx, rxTotal := rx } } : TrafficMonitor).persistStats s id).2.1

def bootStep (s : Storage) : BootStep → Storage
  | .session id tx rx => s.endSession id tx rx
  | .reboot => { s with readable := false }
  | .flush => (flushTrafficStats { s with readable := true }).1

def boots (s : Storage) (as : List BootStep) : Storage := as.foldl bootStep s

/-- Direct boot is enabled, the selected profile exists and the file is what `update()` writes; the
stored counters are `Long`s. -/
structure Enabled (s : Storage) : Prop where
  readable : s.readable = true
  longs : ∀ id p, s.row id = some p → IsLong p.tx ∧ IsLong p.rx
  directBootAware : s.directBootAware = true
  selected : ∃ p, s.row s.profileId = some p
  device : s.updateSelected = (s, none)

/-- The file has one copy of the profile, without a fallback and with the traffic of the row unless
it has more already. -/
def Covered (s : Storage) (id : Int) : Prop :=
  ∃ profile fallback c, s.device = some (profile, fallback) ∧
    (profile :: fallback.toList).filter (fun c => c.profile.id = id) = [c] ∧
    c.profile.udpFallback = none ∧
    (c.dirty = false → (s.row id).map (fun p => (p.tx, p.rx)) = some (c.profile.tx, c.profile.rx))

/-- Every session of the run that ends while the database cannot be opened ends in a covered
state. -/
def AllCovered : Storage → List BootStep → Prop
  | _, [] => True
  | s, .session id tx rx :: as =>
      (s.readable = false → s.Covered id) ∧ AllCovered (s.endSession id tx rx) as
  | s, a :: as => AllCovered (s.bootStep a) as

/-- The totals of the sessions of a profile. -/
def sessionTotals (id : Int) : List BootStep → Int × Int
  | [] => (0, 0)
  | .session id' tx rx :: as =>
      if id' = id then ((sessionTotals id as).1 + tx, (sessionTotals id as).2 + rx)
      else sessionTotals id as
  | _ :: as => sessionTotals id as

/-! ### The invariant -/

/-- The profiles `p` and `q` differ at most in their traffic. -/
def SameButTraffic (p q : Profile) : Prop := ∃ tx rx, q = { p with tx := tx, rx := rx }

theorem SameButTraffic.refl (p : Profile) : SameButTraffic p p := ⟨p.tx, p.rx, rfl⟩

theorem SameButTraffic.trans {p q r : Profile} (h : SameButTraffic p q) (h' : SameButTraffic q r) :
    SameButTraffic p r := by
  obtain ⟨tx, rx, rfl⟩ := h
  obtain ⟨tx', rx', rfl⟩ := h'
  exact ⟨tx', rx', rfl⟩

/-- The copy in the file that has more traffic than its row. -/
def unsaved (s : Storage) : Option DeviceCopy :=
  match s.device with
  | some (c, none) => if c.dirty then some c else none
  | _ => none

/-- What a profile has been counted for: its unsaved copy, else its row. -/
def counted (s : Storage) (id : Int) : Option Profile :=
  match s.unsaved with
  | some c => if c.profile.id = id then some c.profile else s.row id
  | none => s.row id

/-- The invariant, with the traffic `total` each profile of the first storage `s₀` should have. -/
structure Counts (s₀ : Storage) (total : Int → Int × Int) (s : Storage) : Prop where
  profileId : s.profileId = s₀.profileId
  directBootAware : s.directBootAware = true
  counted : ∀ id p₀, s₀.row id = some p₀ →
    s.counted id = some (withTraffic p₀ (total id))
  row : ∀ id p₀, s₀.row id = some p₀ → ∃ p, s.row id = some p ∧ SameButTraffic p₀ p
  missing : ∀ id, s₀.row id = none → s.row id = none
  /-- The copies in the file are copies of profiles. -/
  copy : ∀ c f, s.device = some (c, f) → ∀ d ∈ c :: f.toList,
    ∃ p₀, s₀.row d.profile.id = some p₀ ∧ SameButTraffic p₀ d.profile
  /-- A pair with a fallback, and every pair while the database can be opened, has nothing unsaved. -/
  clean : ∀ c f, s.device = some (c, f) → (f ≠ none ∨ s.readable = true) →
    ∀ d ∈ c :: f.toList, d.dirty = false

/-! ### What the operations do -/

/-- The storage with its unsaved copy written back. -/
def saved (s : Storage) : Storage :=
  match s.unsaved with
  | some c => { s with database := s.database.update c.profile }
  | none => s

variable {s₀ s : Storage} {total : Int → Int × Int}

theorem Counts.unsaved_id (h : Counts s₀ total s) {c : DeviceCopy} (hc : s.unsaved = some c) :
    ∃ p₀, s₀.row c.profile.id = some p₀ ∧ SameButTraffic p₀ c.profile := by
  rw [unsaved] at hc
  split at hc
  · rename_i d hd
    split at hc
    · obtain rfl := Option.some.inj hc
      exact h.copy d none hd d List.mem_cons_self
    · simp at hc
  · simp at hc

theorem unsaved_eq_none (h : Counts s₀ total s) (hread : s.readable = true) : s.unsaved = none := by
  rw [unsaved]
  split
  · rename_i c hc
    rw [if_neg]
    rw [h.clean c none hc (Or.inr hread) c List.mem_cons_self]
    decide
  · rfl

theorem counted_of_unsaved {c : DeviceCopy} (hc : s.unsaved = some c) (id : Int) :
    s.counted id = if c.profile.id = id then some c.profile else s.row id := by
  rw [counted, hc]

theorem counted_of_none (hc : s.unsaved = none) (id : Int) : s.counted id = s.row id := by
  rw [counted, hc]

theorem row_update_ne (s : Storage) {q : Profile} {id : Int} (hq : q.id ≠ id) :
    ({ s with database := s.database.update q } : Storage).row id = s.row id :=
  ProfileStore.find?_updateRows_ne _ hq

theorem row_update_eq {p q : Profile} (hp : s.row q.id = some p) :
    ({ s with database := s.database.update q } : Storage).row q.id = some q :=
  ProfileStore.find?_updateRows hp rfl

/-- After writing back, the rows have what was counted. -/
theorem saved_row (hrow : ∀ c, s.unsaved = some c → ∃ p, s.row c.profile.id = some p) (id : Int) :
    s.saved.row id = s.counted id := by
  cases hc : s.unsaved with
  | none =>
    rw [saved, hc, counted_of_none hc]
  | some c =>
    obtain ⟨p, hp⟩ := hrow c hc
    rw [saved, hc, counted_of_unsaved hc]
    by_cases hid : c.profile.id = id
    · rw [if_pos hid, ← hid]
      exact row_update_eq hp
    · rw [if_neg hid]
      exact row_update_ne s hid

theorem saved_profileId (s : Storage) : s.saved.profileId = s.profileId := by
  rw [saved]
  split <;> rfl

theorem saved_readable (s : Storage) : s.saved.readable = s.readable := by
  rw [saved]
  split <;> rfl

theorem saved_directBootAware (s : Storage) : s.saved.directBootAware = s.directBootAware := by
  rw [saved]
  split <;> rfl

theorem flushCopy_clean (s : Storage) {c : DeviceCopy} (hc : c.dirty = false) :
    s.flushCopy c = (s, none) := by
  rw [flushCopy, hc]
  rfl

theorem saved_of_none (hc : s.unsaved = none) : s.saved = s := by
  rw [saved, hc]

/-- **`flushTrafficStats` writes the unsaved copy back and takes the file from the rows.** -/
theorem flushTrafficStats_eq
    (hclean : ∀ c d, s.device = some (c, some d) → c.dirty = false ∧ d.dirty = false)
    (hrow : ∀ c, s.unsaved = some c → ∃ p, s.row c.profile.id = some p) :
    s.flushTrafficStats = s.saved.updateSelected := by
  rw [flushTrafficStats]
  cases hd : s.device with
  | none =>
    have hnone : s.unsaved = none := by rw [unsaved, hd]
    rw [saved_of_none hnone]
  | some pair =>
    obtain ⟨c, f⟩ := pair
    cases f with
    | some d =>
      obtain ⟨hc, hdd⟩ := hclean c d hd
      have hnone : s.unsaved = none := by rw [unsaved, hd]
      rw [saved_of_none hnone]
      simp only [flushCopy_clean _ hc, flushCopy_clean _ hdd]
    | none =>
      cases hdirty : c.dirty with
      | false =>
        have hnone : s.unsaved = none := by
          rw [unsaved, hd]
          simp only [hdirty, Bool.false_eq_true, if_false]
        rw [saved_of_none hnone]
        simp only [flushCopy_clean _ hdirty]
      | true =>
        have hsome : s.unsaved = some c := by
          rw [unsaved, hd]
          simp only [hdirty, if_true]
        obtain ⟨p, hp⟩ := hrow c hsome
        obtain ⟨hok, -, hstore⟩ := updateProfile_row (q := c.profile) hp rfl
        have hflush : s.flushCopy c = ({ s with database := s.database.update c.profile }, none) := by
          rw [flushCopy, if_pos hdirty]
          exact Prod.ext hstore hok
        rw [saved, hsome]
        simp only [hflush]

/-- The file has the rows as they are. -/
def Fresh (s : Storage) : Prop :=
  ∀ c f, s.device = some (c, f) → ∀ d ∈ c :: f.toList,
    d.dirty = false ∧ s.row d.profile.id = some d.profile

theorem fresh_of_selected {q : Profile} {id : Int} (hq : s.row id = some q)
    (hdevice : s.device = some ({ profile := q },
      (q.udpFallback.bind s.row).map fun f => { profile := f })) : s.Fresh := by
  intro c f hcf d hd
  rw [hdevice] at hcf
  obtain ⟨rfl, rfl⟩ := Prod.mk.inj (Option.some.inj hcf)
  rcases List.mem_cons.mp hd with rfl | hd
  · exact ⟨rfl, by rw [row_id hq]; exact hq⟩
  · obtain ⟨r, hr, rfl⟩ := Option.map_eq_some_iff.mp (Option.mem_toList.mp hd)
    obtain ⟨id, -, hr⟩ := Option.bind_eq_some_iff.mp hr
    exact ⟨rfl, by rw [row_id hr]; exact hr⟩

theorem Fresh.unsaved (h : s.Fresh) : s.unsaved = none := by
  rw [Storage.unsaved]
  split
  · rename_i c hc
    rw [if_neg]
    rw [(h c none hc c List.mem_cons_self).1]
    decide
  · rfl

/-! ### The steps -/

/-- One more session of a profile. -/
def bump (total : Int → Int × Int) (id tx rx : Int) : Int → Int × Int :=
  Function.update total id ((total id).1 + tx, (total id).2 + rx)

/-- The row a session of `id` leaves behind, for the profile `id'`. -/
theorem bump_traffic (p₀ : Profile) (id id' tx rx : Int) :
    withTraffic p₀ (bump total id tx rx id') =
      if id' = id then addTotals (withTraffic p₀ (total id')) { txTotal := tx, rxTotal := rx }
      else withTraffic p₀ (total id') := by
  rw [bump]
  split
  · rename_i h
    subst h
    rw [Function.update_self, addTotals_eq, withTraffic_add]
  · rename_i h
    rw [Function.update_of_ne h]

theorem endSession_readable {p : Profile} {id : Int} (hread : s.readable = true)
    (h : s.row id = some p) (tx rx : Int) :
    s.endSession id tx rx = { s with
      database := s.database.update (addTotals p { txTotal := tx, rxTotal := rx }) } := by
  rw [endSession, persistStats_readable _ hread h]

theorem endSession_missing {id : Int} (hread : s.readable = true) (h : s.row id = none)
    (tx rx : Int) : s.endSession id tx rx = s := by
  have hget : s.getProfile id = .ok none := by rw [getProfile, if_pos hread, h]
  rw [endSession, persistStats, if_pos (persisted_check _), hget]

/-- A session that ends while the database can be opened. -/
theorem Counts.session_readable (h : Counts s₀ total s) (hread : s.readable = true)
    (id tx rx : Int) : Counts s₀ (bump total id tx rx) (s.endSession id tx rx) := by
  have hnone := unsaved_eq_none h hread
  cases hrow : s.row id with
  | none =>
    rw [endSession_missing hread hrow]
    refine { h with counted := ?_ }
    intro id' p₀ hp₀
    have hne : id' ≠ id := by
      rintro rfl
      obtain ⟨p, hp, -⟩ := h.row id' p₀ hp₀
      rw [hrow] at hp
      simp at hp
    rw [h.counted id' p₀ hp₀, bump_traffic, if_neg hne]
  | some p =>
    have hid : (addTotals p { txTotal := tx, rxTotal := rx }).id = id := row_id (p := p) hrow
    have hself : (s.endSession id tx rx).row id
        = some (addTotals p { txTotal := tx, rxTotal := rx }) := by
      rw [endSession_readable hread hrow]
      exact ProfileStore.find?_updateRows hrow hid
    have hother : ∀ id', id' ≠ id → (s.endSession id tx rx).row id' = s.row id' := by
      intro id' hne
      rw [endSession_readable hread hrow]
      exact row_update_ne s (fun heq => hne (heq.symm.trans hid))
    have hstorage := endSession_readable hread hrow tx rx
    have hnone' : (s.endSession id tx rx).unsaved = none := by
      rw [hstorage]
      exact hnone
    refine
      { profileId := by rw [hstorage]; exact h.profileId
        directBootAware := by rw [hstorage]; exact h.directBootAware
        counted := ?_
        row := ?_
        missing := ?_
        copy := by rw [hstorage]; exact h.copy
        clean := by rw [hstorage]; exact h.clean }
    · intro id' p₀ hp₀
      have hcount := h.counted id' p₀ hp₀
      rw [counted_of_none hnone] at hcount
      rw [counted_of_none hnone', bump_traffic]
      split
      · rename_i heq
        subst heq
        rw [hself, Option.some.inj (hrow.symm.trans hcount)]
      · rename_i hne
        rw [hother id' hne, hcount]
    · intro id' p₀ hp₀
      obtain ⟨q, hq, hsame⟩ := h.row id' p₀ hp₀
      by_cases heq : id' = id
      · subst heq
        obtain rfl : p = q := Option.some.inj (hrow.symm.trans hq)
        exact ⟨_, hself, hsame.trans ⟨_, _, rfl⟩⟩
      · exact ⟨q, (hother id' heq).trans hq, hsame⟩
    · intro id' hid'
      have hmiss := h.missing id' hid'
      have hne : id' ≠ id := by
        rintro rfl
        rw [hrow] at hmiss
        simp at hmiss
      rw [hother id' hne, hmiss]

/-- In a covered state the copy has what the profile was counted for, and nothing else is unsaved. -/
theorem Counts.covered (h : Counts s₀ total s) {id : Int} {profile c : DeviceCopy}
    {fallback : Option DeviceCopy} (hd : s.device = some (profile, fallback))
    (hfilter : (profile :: fallback.toList).filter (fun c => c.profile.id = id) = [c])
    (hrow : c.dirty = false →
      (s.row id).map (fun p => (p.tx, p.rx)) = some (c.profile.tx, c.profile.rx)) :
    c.profile.id = id ∧ s.counted id = some c.profile ∧
      ∀ id', id' ≠ id → s.counted id' = s.row id' := by
  have hmem : c ∈ (profile :: fallback.toList).filter (fun c => c.profile.id = id) := by
    rw [hfilter]
    exact List.mem_cons_self
  obtain ⟨hcpair, hid⟩ := List.mem_filter.mp hmem
  have hid : c.profile.id = id := of_decide_eq_true hid
  obtain ⟨p₀, hp₀, hsame⟩ := h.copy profile fallback hd c hcpair
  rw [hid] at hp₀
  cases hdirty : c.dirty with
  | true =>
    -- an unsaved copy is alone in the file
    have hf : fallback = none := by
      by_contra hne
      rw [h.clean profile fallback hd (Or.inl hne) c hcpair] at hdirty
      exact Bool.noConfusion hdirty
    subst hf
    obtain rfl : c = profile := by simpa using hcpair
    have hunsaved : s.unsaved = some c := by
      rw [unsaved, hd]
      simp only [hdirty, if_true]
    refine ⟨hid, ?_, fun id' hne => ?_⟩
    · rw [counted_of_unsaved hunsaved, if_pos hid]
    · rw [counted_of_unsaved hunsaved, if_neg (fun heq => hne (heq.symm.trans hid))]
  | false =>
    have hunsaved : s.unsaved = none := by
      rw [unsaved, hd]
      cases fallback with
      | some d => rfl
      | none =>
        obtain rfl : c = profile := by simpa using hcpair
        simp only [hdirty, Bool.false_eq_true, if_false]
    refine ⟨hid, ?_, fun id' _ => counted_of_none hunsaved id'⟩
    have hcount := h.counted id p₀ hp₀
    have htraffic := hrow hdirty
    rw [counted_of_none hunsaved] at hcount ⊢
    rw [hcount, Option.map_some, Option.some.injEq, Prod.mk.injEq] at htraffic
    obtain ⟨tx, rx, hc⟩ := hsame
    have hwith : withTraffic p₀ (total id) = { p₀ with tx := c.profile.tx, rx := c.profile.rx } := by
      rw [← htraffic.1, ← htraffic.2]
      rfl
    rw [hcount, hwith, hc]

theorem endSession_locked {id : Int} {profile c : DeviceCopy} {fallback : Option DeviceCopy}
    (hlocked : s.readable = false) (haware : s.directBootAware = true)
    (hd : s.device = some (profile, fallback))
    (hfilter : (profile :: fallback.toList).filter (fun c => c.profile.id = id) = [c])
    (hfallback : c.profile.udpFallback = none) (tx rx : Int) :
    s.endSession id tx rx = { s with
      device := some
        ({ profile := addTotals c.profile { txTotal := tx, rxTotal := rx }, dirty := true }, none) } := by
  have hget : s.getProfile id = .error (.io "unable to open database file") := by
    rw [getProfile, hlocked]
    rfl
  have hexpand : s.expand
      { profile := addTotals c.profile { txTotal := tx, rxTotal := rx }, dirty := true }
        = .ok ({ profile := addTotals c.profile { txTotal := tx, rxTotal := rx }, dirty := true },
          none) := by
    rw [expand]
    simp only [addTotals, hfallback]
  rw [endSession, persistStats, if_pos (persisted_check _), hget]
  simp only [haware, if_true, persistToDevice, hd, hfilter, updateDevice, hexpand]

/-- A session that ends in a covered state while the database cannot be opened. -/
theorem Counts.session_locked (h : Counts s₀ total s) (hlocked : s.readable = false) {id : Int}
    (hcovered : s.Covered id) (tx rx : Int) :
    Counts s₀ (bump total id tx rx) (s.endSession id tx rx) := by
  obtain ⟨profile, fallback, c, hd, hfilter, hfallback, hrow⟩ := hcovered
  obtain ⟨hid, hself, hother⟩ := h.covered hd hfilter hrow
  have hmem : c ∈ profile :: fallback.toList := by
    refine List.mem_of_mem_filter (p := fun c => c.profile.id = id) ?_
    rw [hfilter]
    exact List.mem_cons_self
  obtain ⟨p₀, hp₀, hsame⟩ := h.copy profile fallback hd c hmem
  rw [endSession_locked hlocked h.directBootAware hd hfilter hfallback]
  refine
    { profileId := h.profileId
      directBootAware := h.directBootAware
      counted := ?_
      row := h.row
      missing := h.missing
      copy := ?_
      clean := ?_ }
  · intro id' p hp
    have hcount := h.counted id' p hp
    rw [counted_of_unsaved rfl, bump_traffic]
    show (if c.profile.id = id' then
      some (addTotals c.profile { txTotal := tx, rxTotal := rx }) else s.row id') = _
    by_cases heq : id' = id
    · subst heq
      rw [if_pos rfl, if_pos hid, ← Option.some.inj (hself.symm.trans hcount)]
    · rw [if_neg heq, if_neg (fun h => heq (h.symm.trans hid)), ← hcount, hother id' heq]
  · intro d f hdf e he
    obtain ⟨rfl, rfl⟩ := Prod.mk.inj (Option.some.inj hdf)
    rw [List.mem_singleton.mp he]
    exact ⟨p₀, hp₀, hsame.trans ⟨_, _, rfl⟩⟩
  · intro d f hdf hor
    obtain ⟨rfl, rfl⟩ := Prod.mk.inj (Option.some.inj hdf)
    rcases hor with hf | hread
    · exact absurd rfl hf
    · exact absurd (hlocked.symm.trans hread) (by decide)

theorem Counts.reboot (h : Counts s₀ total s) : Counts s₀ total { s with readable := false } where
  profileId := h.profileId
  directBootAware := h.directBootAware
  counted := h.counted
  row := h.row
  missing := h.missing
  copy := h.copy
  clean := by
    intro c f hd hor
    refine h.clean c f hd (Or.inl ?_)
    rcases hor with hf | hread
    · exact hf
    · exact Bool.noConfusion (show false = true from hread)

/-- The storage after a flush, in terms of the rows it has written back. -/
theorem flush_eq (h : Counts s₀ total s) {p : Profile}
    (hp : s₀.row s₀.profileId = some p) :
    ∃ q, (s.bootStep .flush).row s.profileId = some q ∧
      (s.bootStep .flush).device = some ({ profile := q },
        (q.udpFallback.bind (s.bootStep .flush).row).map fun f => { profile := f }) ∧
      (s.bootStep .flush).profileId = s.profileId ∧
      (s.bootStep .flush).directBootAware = s.directBootAware ∧
      ∀ id, (s.bootStep .flush).row id = s.counted id := by
  have hrow : ∀ c, s.unsaved = some c → ∃ p, s.row c.profile.id = some p := by
    intro c hc
    obtain ⟨p₀, hp₀, -⟩ := h.unsaved_id hc
    obtain ⟨q, hq, -⟩ := h.row _ p₀ hp₀
    exact ⟨q, hq⟩
  have hflush : flushTrafficStats { s with readable := true }
      = ({ s with readable := true } : Storage).saved.updateSelected := by
    refine flushTrafficStats_eq ?_ hrow
    intro c d hd
    have hclean := h.clean c (some d) hd (Or.inl (by simp))
    exact ⟨hclean c List.mem_cons_self, hclean d (by simp)⟩
  have hsaved : ∀ id, ({ s with readable := true } : Storage).saved.row id = s.counted id :=
    saved_row (s := { s with readable := true }) hrow
  have hcount := h.counted _ p hp
  rw [← h.profileId] at hcount
  have hsel : ({ s with readable := true } : Storage).saved.row
      ({ s with readable := true } : Storage).saved.profileId
        = some (withTraffic p (total s.profileId)) := by
    rw [saved_profileId, hsaved]
    exact hcount
  have hupdate := updateSelected_readable (saved_readable _) hsel
  refine ⟨withTraffic p (total s.profileId), ?_, ?_, ?_, ?_, ?_⟩
  · show (flushTrafficStats { s with readable := true }).1.row s.profileId = _
    rw [hflush, hupdate]
    rw [saved_profileId] at hsel
    exact hsel
  · show (flushTrafficStats { s with readable := true }).1.device = _
    rw [bootStep, hflush, hupdate]
    rfl
  · rw [bootStep, hflush, hupdate]
    exact saved_profileId _
  · rw [bootStep, hflush, hupdate]
    exact saved_directBootAware _
  · intro id
    rw [bootStep, hflush, hupdate]
    exact hsaved id

theorem Counts.flush (h : Counts s₀ total s) {p : Profile}
    (hp : s₀.row s₀.profileId = some p) : Counts s₀ total (s.bootStep .flush) := by
  obtain ⟨q, hq, hdevice, hid, haware, hrow⟩ := flush_eq h hp
  have hsome : ∀ id p₀, s₀.row id = some p₀ → (s.bootStep .flush).row id
      = some (withTraffic p₀ (total id)) := by
    intro id p₀ hp₀
    rw [hrow, h.counted id p₀ hp₀]
  have hback : ∀ id r, (s.bootStep .flush).row id = some r →
      ∃ p₀, s₀.row id = some p₀ ∧ SameButTraffic p₀ r := by
    intro id r hr
    cases hp₀ : s₀.row id with
    | none =>
      have hmiss := h.missing id hp₀
      rw [hrow, Storage.counted] at hr
      split at hr
      · rename_i c hc
        split at hr
        · rename_i hcid
          obtain ⟨p₀, hp₀', -⟩ := h.unsaved_id hc
          rw [hcid, hp₀] at hp₀'
          simp at hp₀'
        · rw [hmiss] at hr
          simp at hr
      · rw [hmiss] at hr
        simp at hr
    | some p₀ =>
      obtain rfl := Option.some.inj ((hsome id p₀ hp₀).symm.trans hr)
      exact ⟨p₀, rfl, _, _, rfl⟩
  have hfresh := fresh_of_selected hq hdevice
  exact
    { profileId := hid.trans h.profileId
      directBootAware := haware.trans h.directBootAware
      counted := fun id p₀ hp₀ => (counted_of_none hfresh.unsaved id).trans (hsome id p₀ hp₀)
      row := fun id p₀ hp₀ => ⟨_, hsome id p₀ hp₀, _, _, rfl⟩
      missing := by
        intro id hid₀
        by_contra hne
        obtain ⟨r, hr⟩ := Option.ne_none_iff_exists'.mp hne
        obtain ⟨p₀, hp₀, -⟩ := hback id r hr
        rw [hid₀] at hp₀
        simp at hp₀
      copy := fun c f hcf d hd => hback _ _ (hfresh c f hcf d hd).2
      clean := fun c f hcf _ d hd => (hfresh c f hcf d hd).1 }

/-! ### Runs -/

/-- What is counted at first. -/
theorem counts_initial (h : s₀.Enabled) : Counts s₀ (fun _ => (0, 0)) s₀ := by
  obtain ⟨p, hp⟩ := h.selected
  have hdevice : s₀.device = some ({ profile := p },
      (p.udpFallback.bind s₀.row).map fun f => { profile := f }) := by
    have heq := h.device
    rw [updateSelected_readable h.readable hp] at heq
    have hpair := congrArg (fun x => x.1.device) heq
    exact hpair.symm
  have hfresh := fresh_of_selected hp hdevice
  exact
    { profileId := rfl
      directBootAware := h.directBootAware
      counted := by
        intro id p₀ hp₀
        obtain ⟨⟨htx0, htx⟩, hrx0, hrx⟩ := h.longs id p₀ hp₀
        rw [counted_of_none hfresh.unsaved, hp₀, withTraffic, add_zero, add_zero,
          toLong_of_range htx0 htx, toLong_of_range hrx0 hrx]
      row := fun id p₀ hp₀ => ⟨p₀, hp₀, SameButTraffic.refl p₀⟩
      missing := fun _ h => h
      copy := fun c f hcf d hd => ⟨_, (hfresh c f hcf d hd).2, SameButTraffic.refl _⟩
      clean := fun c f hcf _ d hd => (hfresh c f hcf d hd).1 }

/-- The traffic of a run on top of what was counted before. -/
def addRun (total : Int → Int × Int) (as : List BootStep) : Int → Int × Int :=
  fun id => ((total id).1 + (sessionTotals id as).1, (total id).2 + (sessionTotals id as).2)

theorem addRun_session (id tx rx : Int) (as : List BootStep) :
    addRun (bump total id tx rx) as = addRun total (.session id tx rx :: as) := by
  funext id'
  rw [addRun, addRun, sessionTotals, bump]
  by_cases h : id' = id
  · subst h
    rw [Function.update_self, if_pos rfl]
    refine Prod.ext ?_ ?_
    · show (total id').1 + tx + (sessionTotals id' as).1 = (total id').1 + ((sessionTotals id' as).1 + tx)
      omega
    · show (total id').2 + rx + (sessionTotals id' as).2 = (total id').2 + ((sessionTotals id' as).2 + rx)
      omega
  · rw [Function.update_of_ne h, if_neg (fun h' => h h'.symm)]

/-- **What a run keeps.** -/
theorem boots_counts {p : Profile} (hp : s₀.row s₀.profileId = some p) (as : List BootStep) :
    ∀ (s : Storage) (total : Int → Int × Int), Counts s₀ total s → AllCovered s as →
      Counts s₀ (addRun total as) (s.boots as) := by
  induction as with
  | nil =>
    intro s total h _
    rw [show addRun total [] = total from funext fun id => by simp [addRun, sessionTotals]]
    exact h
  | cons a as ih =>
    intro s total h hcovered
    cases a with
    | session id tx rx =>
      rw [← addRun_session]
      refine ih _ _ ?_ hcovered.2
      cases hread : s.readable with
      | true => exact h.session_readable hread id tx rx
      | false => exact h.session_locked hread (hcovered.1 hread) tx rx
    | reboot => exact ih _ total h.reboot hcovered
    | flush => exact ih _ total (h.flush hp) hcovered

/-- **Every session is counted once.**  From a storage with direct boot enabled, in every run whose
locked sessions end in covered states: after a flush each stored profile has its initial traffic and
that of its sessions, added up as `Long`s, and the file has the selected profile with its own
fallback. -/
theorem flush_counts (s₀ : Storage) (as : List BootStep) (h : s₀.Enabled)
    (hcovered : AllCovered s₀ as) :
    (∀ id p₀, s₀.row id = some p₀ → ∃ p, (s₀.boots (as ++ [.flush])).row id = some p ∧
      p.tx = toLong (p₀.tx + (sessionTotals id as).1) ∧
      p.rx = toLong (p₀.rx + (sessionTotals id as).2)) ∧
    ∃ q, (s₀.boots (as ++ [.flush])).row s₀.profileId = some q ∧
      (s₀.boots (as ++ [.flush])).device = some ({ profile := q },
        (q.udpFallback.bind (s₀.boots (as ++ [.flush])).row).map fun f => { profile := f }) := by
  obtain ⟨p, hp⟩ := h.selected
  have hcounts := boots_counts hp as s₀ (fun _ => (0, 0)) (counts_initial h) hcovered
  have hlast : s₀.boots (as ++ [.flush]) = (s₀.boots as).bootStep .flush := by
    rw [boots, List.foldl_append]
    rfl
  obtain ⟨q, hq, hdevice, -, -, hrow⟩ := flush_eq hcounts hp
  rw [hlast]
  refine ⟨?_, q, by rw [← hcounts.profileId]; exact hq, hdevice⟩
  intro id p₀ hp₀
  refine ⟨_, (hrow id).trans (hcounts.counted id p₀ hp₀), ?_, ?_⟩
  · simp [addRun, withTraffic]
  · simp [addRun, withTraffic]

/-- Direct boot is enabled on a device with one profile. -/
def sampleEnabled : Storage where
  database :=
    { rows := [{ id := 1, tx := 5, rx := 7 }]
      sequence := 1
      nodup := Session.sampleRow_nodup
      le_sequence := Session.sampleRow_le_sequence }
  readable := true
  device := some ({ profile := { id := 1, tx := 5, rx := 7 } }, none)
  profileId := 1
  directBootAware := true

theorem sampleEnabled_enabled : sampleEnabled.Enabled := by
  refine ⟨rfl, fun id p hp => ?_, rfl, ⟨_, rfl⟩, rfl⟩
  rw [List.mem_singleton.mp (row_mem hp)]
  exact ⟨by decide, by decide⟩

/-- The process is started anew between a session and the reboot, so the copy is up to date. -/
theorem flush_counts_sample :
    ∃ p, (sampleEnabled.boots ([.session 1 10 20, .flush, .reboot, .session 1 1 2, .session 1 3 4]
        ++ [.flush])).row 1 = some p ∧ p.tx = 5 + 14 ∧ p.rx = 7 + 26 := by
  have hcovered : AllCovered sampleEnabled
      [.session 1 10 20, .flush, .reboot, .session 1 1 2, .session 1 3 4] := by
    refine ⟨fun h => Bool.noConfusion h, ?_, ?_, trivial⟩
    · intro _
      exact ⟨_, _, _, rfl, rfl, rfl, fun _ => rfl⟩
    · intro _
      exact ⟨_, _, _, rfl, rfl, rfl, fun h => Bool.noConfusion h⟩
  obtain ⟨p, hp, htx, hrx⟩ := (flush_counts sampleEnabled _ sampleEnabled_enabled hcovered).1 1 _ rfl
  exact ⟨p, hp, htx.trans (by decide), hrx.trans (by decide)⟩

/-- Without that start the traffic of the session before the reboot is lost. -/
theorem flush_loses_session :
    sampleEnabled.Enabled ∧
      ((sampleEnabled.boots ([.session 1 10 20, .reboot, .session 1 1 2] ++ [.flush])).row 1).map
        (fun p => (p.tx, p.rx)) = some (5 + 1, 7 + 2) ∧
      ¬ ∃ p, (sampleEnabled.boots ([.session 1 10 20, .reboot, .session 1 1 2] ++ [.flush])).row 1
          = some p ∧
        p.tx = 5 + (sessionTotals 1 [.session 1 10 20, .reboot, .session 1 1 2]).1 := by
  have hrow : ((sampleEnabled.boots ([.session 1 10 20, .reboot, .session 1 1 2] ++ [.flush])).row
      1).map (fun p => (p.tx, p.rx)) = some (5 + 1, 7 + 2) := by decide +kernel
  refine ⟨sampleEnabled_enabled, hrow, ?_⟩
  rintro ⟨p, hp, htx⟩
  rw [hp, Option.map_some, Option.some.injEq, Prod.mk.injEq] at hrow
  rw [hrow.1] at htx
  exact absurd htx (by decide)

end Storage

end SsAndroid
