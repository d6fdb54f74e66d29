import SsAndroid.Bg.TrafficMonitor

/-!
# What the sessions of a profile add up to

A session is a list of traffic reports and of `persistStats` calls from `ACTION_SHUTDOWN`, followed
by the call `ProxyInstance.shutdown` makes.  The database can be opened all the time.

Every call adds the totals it finds (`runEvents_row`), since the record of an earlier call is the
live one and so tells nothing.  **`sessions_add_totals`**: the sessions of a profile add their final
totals, each once, if and only if what the calls before a shutdown find adds up to nothing
(`AddsNothing`), which below `2 ^ 64` bytes is to say that none of them finds any traffic (`Quiet`).
-/

namespace SsAndroid

open TrafficMonitor

inductive SessionEvent
  | report (tx rx : Int)
  | persist
  deriving DecidableEq

namespace Session

/-- One event of a session of the profile `id`. -/
def event (id : Int) (st : TrafficMonitor × Storage) : SessionEvent → TrafficMonitor × Storage
  | .report tx rx => (st.1.acceptInternal tx rx, st.2)
  | .persist =>
      let (m, s, _) := st.1.persistStats st.2 id
      (m, s)

def runEvents (id : Int) (st : TrafficMonitor × Storage) (evs : List SessionEvent) :
    TrafficMonitor × Storage :=
  evs.foldl (event id) st

/-- A whole session, with the `persistStats` of `shutdown` at its end. -/
def session (id : Int) (s : Storage) (evs : List SessionEvent) : Storage :=
  (runEvents id ({}, s) (evs ++ [.persist])).2

def runSessions (id : Int) (s : Storage) (sessions : List (List SessionEvent)) : Storage :=
  sessions.foldl (session id) s

/-! ### The events of a session -/

/-- The totals after one more event. -/
def nextTotals (t : Int × Int) : SessionEvent → Int × Int
  | .report tx rx => (tx, rx)
  | .persist => t

/-- The totals reported last. -/
def totals (evs : List SessionEvent) : Int × Int := evs.foldl nextTotals (0, 0)

/-- The reported totals do not decrease, from `t` on. -/
def Nondecreasing : Int × Int → List SessionEvent → Prop
  | _, [] => True
  | t, .report tx rx :: evs => t.1 ≤ tx ∧ t.2 ≤ rx ∧ Nondecreasing (tx, rx) evs
  | t, .persist :: evs => Nondecreasing t evs

/-- No call before the shutdown finds any traffic. -/
def Quiet (evs : List SessionEvent) : Prop :=
  ∀ pre post, evs = pre ++ .persist :: post → totals pre = (0, 0)

/-- What the calls of a list of events add, from the totals `t` on. -/
def added : Int × Int → List SessionEvent → Int × Int
  | _, [] => (0, 0)
  | _, .report tx rx :: evs => added (tx, rx) evs
  | t, .persist :: evs => (t.1 + (added t evs).1, t.2 + (added t evs).2)

/-- What the calls before the shutdown add is nothing, as a `Long`. -/
def AddsNothing (evs : List SessionEvent) : Prop :=
  toLong (added (0, 0) evs).1 = 0 ∧ toLong (added (0, 0) evs).2 = 0

end Session

/-! ### Rows -/

namespace ProfileStore

theorem find?_updateRows {rows : List Profile} {p q : Profile} {id : Int}
    (h : rows.find? (fun q => q.id = id) = some p) (hq : q.id = id) :
    (updateRows rows q).find? (fun q => q.id = id) = some q := by
  induction rows with
  | nil => simp at h
  | cons r rows ih =>
    rw [updateRows, List.map_cons]
    rw [List.find?_cons] at h ⊢
    by_cases hr : r.id = id
    · rw [if_pos (hr.trans hq.symm)]
      simp [hq]
    · rw [if_neg (fun h => hr (h.trans hq))]
      simp only [hr, decide_false] at h ⊢
      exact ih h

theorem find?_updateRows_ne (rows : List Profile) {q : Profile} {id : Int} (hq : q.id ≠ id) :
    (updateRows rows q).find? (fun q => q.id = id) = rows.find? (fun q => q.id = id) := by
  induction rows with
  | nil => rfl
  | cons r rows ih =>
    rw [updateRows, List.map_cons, List.find?_cons, List.find?_cons]
    by_cases hr : r.id = q.id
    · rw [if_pos hr]
      simp only [hq, hr, decide_false]
      exact ih
    · rw [if_neg hr]
      cases decide (r.id = id) with
      | true => rfl
      | false => exact ih

end ProfileStore

namespace Storage

/-- An update of a row that is there. -/
theorem updateProfile_row {s : Storage} {id : Int} {p q : Profile} (h : s.row id = some p)
    (hq : q.id = id) :
    (s.updateProfile q).2 = none ∧ (s.updateProfile q).1.row id = some q ∧
      (s.updateProfile q).1 = { s with database := s.database.update q } := by
  have hmem : q.id ∈ s.database.rows.map Profile.id := by
    rw [hq, ← row_id h]
    exact List.mem_map_of_mem (row_mem h)
  have hupdate : s.updateProfile q = ({ s with database := s.database.update q }, none) := by
    rw [updateProfile, ProfileStore.updateProfile, if_pos hmem]
  rw [hupdate]
  exact ⟨rfl, ProfileStore.find?_updateRows h hq, rfl⟩

end Storage

/-! ### What a session adds -/

namespace TrafficMonitor

theorem acceptInternal_totals (m : TrafficMonitor) (tx rx : Int) :
    (m.acceptInternal tx rx).current.txTotal = tx ∧
      (m.acceptInternal tx rx).current.rxTotal = rx := by
  rw [acceptInternal]
  split <;> split <;> simp_all

/-- A call never finds that data was lost. -/
theorem persisted_check (m : TrafficMonitor) :
    m.persistedStats = none ∨ m.persistedStats = some m.current := by
  rw [persistedStats]
  split
  · exact Or.inr rfl
  · exact Or.inl rfl

/-- A call while the database can be opened. -/
theorem persistStats_readable (m : TrafficMonitor) {s : Storage} {id : Int} {p : Profile}
    (hread : s.readable = true) (h : s.row id = some p) :
    m.persistStats s id = ({ m with persisted := true },
      { s with database := s.database.update (addTotals p m.current) }, none) := by
  have hget : s.getProfile id = .ok (some p) := by rw [Storage.getProfile, if_pos hread, h]
  have hid : (addTotals p m.current).id = id := Storage.row_id (p := p) h
  obtain ⟨hnone, -, hstore⟩ := Storage.updateProfile_row h hid
  rw [persistStats, if_pos m.persisted_check, hget]
  show (_, (s.updateProfile (addTotals p m.current)).1, (s.updateProfile (addTotals p m.current)).2) = _
  rw [hnone, hstore]

end TrafficMonitor

namespace Session

variable {id : Int}

theorem added_append_persist (evs : List SessionEvent) : ∀ t : Int × Int,
    added t (evs ++ [.persist])
      = ((added t evs).1 + (evs.foldl nextTotals t).1, (added t evs).2 + (evs.foldl nextTotals t).2) := by
  induction evs with
  | nil => intro t; simp [added]
  | cons e evs ih =>
    intro t
    cases e with
    | report tx rx => exact ih (tx, rx)
    | persist =>
      rw [List.cons_append, added, ih t, List.foldl_cons, added]
      refine Prod.ext ?_ ?_
      · exact (add_assoc _ _ _).symm
      · exact (add_assoc _ _ _).symm

/-- **The row of the profile after the events of a session and a call.** -/
theorem runEvents_row (evs : List SessionEvent) : ∀ (m : TrafficMonitor) (s : Storage) (p : Profile),
    s.readable = true → s.row id = some p →
    (runEvents id (m, s) (evs ++ [.persist])).2.readable = true ∧
      (runEvents id (m, s) (evs ++ [.persist])).2.row id =
        some (withTraffic p (added (m.current.txTotal, m.current.rxTotal) (evs ++ [.persist]))) := by
  have hcall : ∀ (m : TrafficMonitor) (s : Storage) (p : Profile), s.readable = true →
      s.row id = some p →
      event id (m, s) .persist = ({ m with persisted := true },
          { s with database := s.database.update (addTotals p m.current) }) ∧
        ({ s with database := s.database.update (addTotals p m.current) } : Storage).row id =
          some (withTraffic p (m.current.txTotal, m.current.rxTotal)) := by
    intro m s p hread h
    refine ⟨?_, ProfileStore.find?_updateRows h (Storage.row_id (p := p) h)⟩
    show ((m.persistStats s id).1, (m.persistStats s id).2.1) = _
    rw [persistStats_readable m hread h]
  induction evs with
  | nil =>
    intro m s p hread h
    obtain ⟨hstep, hrow⟩ := hcall m s p hread h
    rw [List.nil_append, runEvents, List.foldl_cons, List.foldl_nil, hstep]
    refine ⟨hread, hrow.trans ?_⟩
    simp [added]
  | cons e evs ih =>
    intro m s p hread h
    cases e with
    | report tx rx =>
      obtain ⟨htx, hrx⟩ := m.acceptInternal_totals tx rx
      have hrest := ih (m.acceptInternal tx rx) s p hread h
      rw [htx, hrx] at hrest
      exact hrest
    | persist =>
      obtain ⟨hstep, hrow⟩ := hcall m s p hread h
      have hrest := ih { m with persisted := true }
        { s with database := s.database.update (addTotals p m.current) } _ hread hrow
      rw [withTraffic_add] at hrest
      rw [List.cons_append, runEvents, List.foldl_cons, hstep]
      exact hrest

/-- The row after a session, in terms of its events. -/
theorem session_row {s : Storage} {p : Profile} (hread : s.readable = true)
    (h : s.row id = some p) (evs : List SessionEvent) :
    (session id s evs).readable = true ∧
      (session id s evs).row id = some (withTraffic p
        ((added (0, 0) evs).1 + (totals evs).1, (added (0, 0) evs).2 + (totals evs).2)) := by
  have hrun := runEvents_row evs {} s p hread h
  rw [show ((({} : TrafficMonitor).current.txTotal, ({} : TrafficMonitor).current.rxTotal) : Int × Int)
    = (0, 0) from rfl, added_append_persist] at hrun
  exact hrun

theorem runSessions_row {s : Storage} {p : Profile} (hread : s.readable = true)
    (h : s.row id = some p) (sessions : List (List SessionEvent)) :
    (runSessions id s sessions).readable = true ∧ ∃ q, (runSessions id s sessions).row id = some q := by
  induction sessions generalizing s p with
  | nil => exact ⟨hread, p, h⟩
  | cons evs sessions ih =>
    obtain ⟨hread', hrow⟩ := session_row hread h evs
    exact ih hread' hrow

/-! ### When nothing is added twice -/

/-- The calls of a session with totals that do not decrease add nothing exactly when none of them
finds any traffic. -/
theorem added_eq_zero_iff (evs : List SessionEvent) : ∀ t : Int × Int, 0 ≤ t.1 → 0 ≤ t.2 →
    Nondecreasing t evs →
    (0 ≤ (added t evs).1 ∧ 0 ≤ (added t evs).2) ∧
      (added t evs = (0, 0) ↔
        ∀ pre post, evs = pre ++ .persist :: post → pre.foldl nextTotals t = (0, 0)) := by
  induction evs with
  | nil =>
    intro t _ _ _
    refine ⟨⟨le_refl _, le_refl _⟩, fun _ pre post h => ?_, fun _ => rfl⟩
    simp at h
  | cons e evs ih =>
    intro t ht1 ht2 hmono
    cases e with
    | report tx rx =>
      obtain ⟨h1, h2, hmono⟩ := hmono
      obtain ⟨hnonneg, hiff⟩ := ih (tx, rx) (le_trans ht1 h1) (le_trans ht2 h2) hmono
      refine ⟨hnonneg, hiff.trans ⟨?_, ?_⟩⟩
      · intro h pre post heq
        -- the report itself is no call, so a call behind it has it in front
        cases pre with
        | nil => simp at heq
        | cons f pre =>
          rw [List.cons_append, List.cons.injEq] at heq
          rw [← heq.1]
          exact h pre post heq.2
      · intro h pre post heq
        exact h (.report tx rx :: pre) post (by rw [heq]; rfl)
    | persist =>
      obtain ⟨hnonneg, hiff⟩ := ih t ht1 ht2 hmono
      rw [added]
      refine ⟨⟨add_nonneg ht1 hnonneg.1, add_nonneg ht2 hnonneg.2⟩, ?_⟩
      rw [Prod.mk.injEq]
      constructor
      · rintro ⟨h1, h2⟩ pre post heq
        have hzero : added t evs = (0, 0) := by
          refine Prod.ext ?_ ?_
          · show (added t evs).1 = 0
            have := hnonneg.1
            omega
          · show (added t evs).2 = 0
            have := hnonneg.2
            omega
        cases pre with
        | nil =>
          refine Prod.ext ?_ ?_
          · show t.1 = 0
            rw [hzero] at h1
            simpa using h1
          · show t.2 = 0
            rw [hzero] at h2
            simpa using h2
        | cons f pre =>
          rw [List.cons_append, List.cons.injEq] at heq
          rw [← heq.1]
          exact hiff.mp hzero pre post heq.2
      · intro h
        have ht : t = (0, 0) := h [] evs rfl
        have hzero := hiff.mpr (fun pre post heq => h (.persist :: pre) post (by rw [heq]; rfl))
        rw [ht] at hzero ⊢
        rw [hzero]
        exact ⟨rfl, rfl⟩

/-- Below `2 ^ 64` bytes only calls that find no traffic add nothing. -/
theorem addsNothing_iff {evs : List SessionEvent} (hmono : Nondecreasing (0, 0) evs)
    (htx : (added (0, 0) evs).1 < 2 ^ 64) (hrx : (added (0, 0) evs).2 < 2 ^ 64) :
    AddsNothing evs ↔ Quiet evs := by
  obtain ⟨⟨htx0, hrx0⟩, hiff⟩ := added_eq_zero_iff evs (0, 0) (le_refl _) (le_refl _) hmono
  have hzero : ∀ {n : Int}, 0 ≤ n → n < 2 ^ 64 → (toLong n = 0 ↔ n = 0) := by
    intro n h0 hlt
    constructor
    · intro h
      exact Int.eq_zero_of_dvd_of_nonneg_of_lt h0 hlt (Int.dvd_of_bmod_eq_zero h)
    · rintro rfl
      exact Int.zero_bmod
  refine Iff.trans ?_ hiff
  rw [AddsNothing, hzero htx0 htx, hzero hrx0 hrx, Prod.ext_iff]

/-- The session adds its final totals to the stored profile. -/
def Grows (id : Int) (s : Storage) (evs : List SessionEvent) : Prop :=
  ∃ p q, s.row id = some p ∧ (session id s evs).row id = some q ∧
    q.tx = toLong (p.tx + (totals evs).1) ∧ q.rx = toLong (p.rx + (totals evs).2)

/-- Each of the sessions does. -/
def AllGrow (id : Int) (s : Storage) (sessions : List (List SessionEvent)) : Prop :=
  ∀ pre evs post, sessions = pre ++ evs :: post → Grows id (runSessions id s pre) evs

/-- **One session.** -/
theorem grows_iff {s : Storage} {p : Profile} (hread : s.readable = true) (h : s.row id = some p)
    (evs : List SessionEvent) : Grows id s evs ↔ AddsNothing evs := by
  obtain ⟨-, hrow⟩ := session_row hread h evs
  have hadds : ∀ stored add total : Int,
      toLong (stored + (add + total)) = toLong (stored + total) ↔ toLong add = 0 := by
    intro stored add total
    rw [add_comm add total, ← add_assoc, toLong_add_eq_iff]
  rw [AddsNothing, ← hadds p.tx _ (totals evs).1, ← hadds p.rx _ (totals evs).2]
  constructor
  · rintro ⟨p', q, hp', hq, hgrows⟩
    obtain rfl : p = p' := Option.some.inj (h.symm.trans hp')
    obtain rfl := Option.some.inj (hrow.symm.trans hq)
    exact hgrows
  · intro hzero
    exact ⟨p, _, h, hrow, hzero⟩

/-- **Every run of sessions.** -/
theorem allGrow_iff {s : Storage} {p : Profile} (hread : s.readable = true) (h : s.row id = some p)
    (sessions : List (List SessionEvent)) :
    AllGrow id s sessions ↔ ∀ evs ∈ sessions, AddsNothing evs := by
  constructor
  · intro hgrows evs hevs
    obtain ⟨pre, post, heq⟩ := List.append_of_mem hevs
    obtain ⟨hread', q, hq⟩ := runSessions_row hread h pre
    exact (grows_iff hread' hq evs).mp (hgrows pre evs post heq)
  · intro hnothing pre evs post heq
    have hevs : evs ∈ sessions := by
      rw [heq]
      exact List.mem_append_right _ List.mem_cons_self
    obtain ⟨hread', q, hq⟩ := runSessions_row hread h pre
    exact (grows_iff hread' hq evs).mpr (hnothing evs hevs)

/-- **Traffic of a profile's sessions.**  With a database that can be opened, the stored totals grow
by the final totals of each session if and only if in every session the calls before the shutdown
add nothing: they find no traffic, or `2 ^ 64` bytes and more of it in all. -/
theorem sessions_add_totals (id : Int) (s : Storage) (p : Profile)
    (sessions : List (List SessionEvent)) (hread : s.readable = true) (h : s.row id = some p)
    (hmono : ∀ evs ∈ sessions, Nondecreasing (0, 0) evs) :
    (AllGrow id s sessions ↔ ∀ evs ∈ sessions, AddsNothing evs) ∧
      ((∀ evs ∈ sessions, (added (0, 0) evs).1 < 2 ^ 64 ∧ (added (0, 0) evs).2 < 2 ^ 64) →
        (AllGrow id s sessions ↔ ∀ evs ∈ sessions, Quiet evs)) := by
  have hgrow := allGrow_iff hread h sessions
  refine ⟨hgrow, fun hfits => hgrow.trans (forall₂_congr fun evs hevs => ?_)⟩
  exact addsNothing_iff (hmono evs hevs) (hfits evs hevs).1 (hfits evs hevs).2

theorem sampleRow_nodup :
    (([{ id := 1, tx := 5, rx := 7 }] : List Profile).map Profile.id).Nodup := by simp

theorem sampleRow_le_sequence :
    ∀ p ∈ ([{ id := 1, tx := 5, rx := 7 }] : List Profile), p.id ≤ 1 := by simp

/-- A device with one profile. -/
def sampleStorage : Storage where
  database :=
    { rows := [{ id := 1, tx := 5, rx := 7 }]
      sequence := 1
      nodup := sampleRow_nodup
      le_sequence := sampleRow_le_sequence }
  readable := true
  device := none
  profileId := 1
  directBootAware := false

/-- Two sessions, the first of which sees a shutdown broadcast before any traffic. -/
theorem sessions_add_totals_quiet :
    Grows 1 (runSessions 1 sampleStorage [[SessionEvent.persist, .report 10 20]])
      [.report 1 1, .report 2 3] := by
  refine ((sessions_add_totals 1 sampleStorage { id := 1, tx := 5, rx := 7 }
    [[SessionEvent.persist, .report 10 20], [.report 1 1, .report 2 3]] rfl rfl ?_).2 ?_).mpr ?_
    [[SessionEvent.persist, .report 10 20]] _ [] rfl
  · intro evs hevs
    rcases List.mem_cons.mp hevs with rfl | hevs
    · simp [Nondecreasing]
    · rw [List.mem_singleton.mp hevs]
      simp [Nondecreasing]
  · decide
  · intro evs hevs pre post heq
    rcases List.mem_cons.mp hevs with rfl | hevs
    · rcases pre with _ | ⟨e, _ | ⟨e', pre⟩⟩
      · rfl
      · simp at heq
      · simp at heq
    · rw [List.mem_singleton.mp hevs] at heq
      rcases pre with _ | ⟨e, _ | ⟨e', pre⟩⟩
      · simp at heq
      · simp at heq
      · simp at heq

/-- A shutdown broadcast after 10 and 20 bytes, and the end of the session at the same totals: the
bytes are counted twice. -/
theorem session_counts_twice :
    Nondecreasing (0, 0) [.report 10 20, .persist] ∧
      ((session 1 sampleStorage [.report 10 20, .persist]).row 1).map (fun q => (q.tx, q.rx))
        = some (25, 47) ∧
      ¬ Grows 1 sampleStorage [.report 10 20, .persist] := by
  have hrow : ((session 1 sampleStorage [.report 10 20, .persist]).row 1).map
      (fun q => (q.tx, q.rx)) = some (25, 47) := by decide +kernel
  refine ⟨by simp [Nondecreasing], hrow, ?_⟩
  rintro ⟨p, q, hp, hq, htx, -⟩
  obtain rfl : { id := 1, tx := 5, rx := 7 } = p := Option.some.inj hp
  rw [hq, Option.map_some, Option.some.injEq, Prod.mk.injEq] at hrow
  rw [hrow.1] at htx
  exact absurd htx (by decide)

end Session

end SsAndroid
