import SsAndroid.Bg.BaseService

/-!
# The life cycle is kept

What the service can look like between two steps on the main thread is said once (`Phase`): by its
state, with at most one connecting job that is not over and at most one coroutine of `stopRunner`.
Every step keeps it.

**`lifecycle`**: in every run the states follow the allowed moves, at most one connecting job is
active, and in `Stopped` nothing is held.
-/

namespace SsAndroid

namespace BaseService

namespace Service

/-- The moves from one state to the next. -/
inductive Allowed : State → State → Prop
  | connect : Allowed .stopped .connecting
  | connected : Allowed .connecting .connected
  | stop {s : State} (h : s = .stopped ∨ s = .connecting ∨ s = .connected) : Allowed s .stopping
  | stopped : Allowed .stopping .stopped

/-- The states that were announced, ending with `s`: each move is allowed, and the first is made
from `Stopped`. -/
inductive Trace : List State → State → Prop
  | start : Trace [] .stopped
  | move {l : List State} {s t : State} : Trace l s → Allowed s t → Trace (l ++ [t]) t

def states (c : Service) : List State := c.broadcasts.map Prod.fst

/-- Nothing is held. -/
structure Clean (d : Data) : Prop where
  processes : d.processes = none
  proxy : d.proxy = none
  udpFallback : d.udpFallback = none
  notification : d.notification = none
  closeReceiver : d.closeReceiverRegistered = false

/-- All connecting jobs but (possibly) `job` are over. -/
def OnlyJob (c : Service) (job : Nat) : Prop :=
  ∀ i j, c.jobs[i]? = some j → i ≠ job → j.status = .completed

def NoJob (c : Service) : Prop := ∀ (i : Nat) (j : Job), c.jobs[i]? = some j → j.status = .completed

/-- The shapes of the service between two steps. -/
inductive Phase (c : Service) : Prop
  | stopped (hs : c.data.state = .stopped) (hstops : c.stops = []) (hjobs : NoJob c)
      (hclean : Clean c.data)
  | connecting (job : Nat) (j : Job) (hs : c.data.state = .connecting) (hstops : c.stops = [])
      (hjob : c.data.connectingJob = some job) (hj : c.jobs[job]? = some j)
      (hcancel : j.cancelled = false) (hjobs : OnlyJob c job)
  | stalled (hs : c.data.state = .connecting) (hstops : c.stops = []) (hjobs : NoJob c)
  | connected (hs : c.data.state = .connected) (hstops : c.stops = []) (hjobs : NoJob c)
  | joining (job : Nat) (restart : Bool) (msg : Option Text) (hs : c.data.state = .stopping)
      (hstops : c.stops = [⟨.joining job, restart, msg⟩]) (hjobs : OnlyJob c job)
      (hj : ∀ j, c.jobs[job]? = some j → j.status ≠ .completed → j.cancelled = true)
  | cleaning (restart : Bool) (msg : Option Text) (hs : c.data.state = .stopping)
      (hstops : c.stops = [⟨.cleaning, restart, msg⟩]) (hjobs : NoJob c) (hclean : Clean c.data)

/-- The invariant of the service. -/
structure Inv (c : Service) : Prop where
  trace : Trace c.states c.data.state
  phase : Phase c

/-! ### Moves -/

/-- A move to another state is announced. -/
theorem trace_changeState {c : Service} {s : State} (msg : Option Text)
    (h : Trace c.states c.data.state) (hmove : Allowed c.data.state s) (hne : c.data.state ≠ s) :
    Trace (changeState s msg c).states (changeState s msg c).data.state := by
  rw [changeState, if_neg (fun hc => hne hc.1)]
  show Trace ((c.broadcasts ++ [(s, msg)]).map Prod.fst) s
  rw [List.map_append]
  exact Trace.move h hmove

theorem changeState_state (s : State) (msg : Option Text) (c : Service) :
    (changeState s msg c).data.state = s := by
  unfold changeState
  split
  · rename_i h
    exact h.1
  · rfl

@[simp] theorem changeState_jobs (s : State) (msg : Option Text) (c : Service) :
    (changeState s msg c).jobs = c.jobs := by
  unfold changeState
  split <;> rfl

@[simp] theorem changeState_stops (s : State) (msg : Option Text) (c : Service) :
    (changeState s msg c).stops = c.stops := by
  unfold changeState
  split <;> rfl

@[simp] theorem changeState_connectingJob (s : State) (msg : Option Text) (c : Service) :
    (changeState s msg c).data.connectingJob = c.data.connectingJob := by
  unfold changeState
  split <;> rfl

theorem clean_changeState {s : State} {msg : Option Text} {c : Service} (h : Clean c.data) :
    Clean (changeState s msg c).data := by
  unfold changeState
  split
  · exact h
  · exact { h with }

theorem clean_cleanUp (c : Service) : Clean c.cleanUp.data := ⟨rfl, rfl, rfl, rfl, rfl⟩

theorem NoJob.onlyJob {c : Service} (h : NoJob c) (job : Nat) : OnlyJob c job :=
  fun i j hi _ => h i j hi

/-! ### Stopping -/

/-- Behind the join the service is cleaned up, and stopped unless something has to be waited for. -/
theorem inv_afterJoin {c : Service} (pending restart : Bool) (msg : Option Text)
    (ht : Trace c.states c.data.state) (hs : c.data.state = .stopping) (hstops : c.stops = [])
    (hjobs : NoJob c) : Inv (afterJoin pending restart msg c) := by
  unfold afterJoin
  split
  · refine ⟨ht, Phase.cleaning restart msg hs ?_ hjobs (clean_cleanUp c)⟩
    show c.stops ++ _ = _
    rw [hstops, List.nil_append]
  · have hs' : c.cleanUp.data.state = .stopping := hs
    refine ⟨trace_changeState msg ht (by rw [hs']; exact .stopped) (by rw [hs']; decide), ?_⟩
    refine Phase.stopped (changeState_state _ _ _) ?_ ?_ (clean_changeState (clean_cleanUp c))
    · rw [changeState_stops]
      exact hstops
    · intro i j hi
      rw [changeState_jobs] at hi
      exact hjobs i j hi

/-- A cancelled job is the same one, marked; the others are as before. -/
theorem getElem?_cancelJob (c : Service) (job i : Nat) : (c.cancelJob job).jobs[i]? =
    (c.jobs[i]?).map fun j =>
      if job = i ∧ j.status ≠ .completed then { j with cancelled := true } else j := by
  rw [cancelJob, List.getElem?_modify]
  cases c.jobs[i]? with
  | none => rfl
  | some j =>
    by_cases hi : job = i
    · by_cases hj : j.status = .completed
      · simp [hi, hj]
      · simp [hi, hj]
    · simp [hi]

theorem onlyJob_cancelJob {c : Service} {job : Nat} (h : OnlyJob c job) :
    OnlyJob (c.cancelJob job) job := by
  intro i j hi hne
  rw [getElem?_cancelJob] at hi
  obtain ⟨j', hj', rfl⟩ := Option.map_eq_some_iff.mp hi
  rw [if_neg (fun hc => hne hc.1.symm)]
  exact h i j' hj' hne

theorem noJob_of_isCompleted {c : Service} {job : Nat} (h : OnlyJob c job)
    (hdone : c.isCompleted job = true) : NoJob c := by
  intro i j hi
  by_cases hij : i = job
  · subst hij
    rw [isCompleted, hi] at hdone
    exact of_decide_eq_true hdone
  · exact h i j hi hij

/-- The coroutine of `stopRunner` either waits for the only job, now cancelled, or goes on. -/
theorem inv_runStop {c : Service} (pending restart : Bool) (msg : Option Text)
    (ht : Trace c.states c.data.state) (hs : c.data.state = .stopping) (hstops : c.stops = [])
    (hjobs : NoJob c ∨ ∃ job, c.data.connectingJob = some job ∧ OnlyJob c job) :
    Inv (runStop pending restart msg c) := by
  unfold runStop
  split
  · rename_i hnone
    obtain hno | ⟨job, hjob, -⟩ := hjobs
    · exact inv_afterJoin pending restart msg ht hs hstops hno
    · rw [hjob] at hnone
      exact absurd hnone (by simp)
  · rename_i job hjob
    have honly : OnlyJob c job := by
      obtain hno | ⟨job', hjob', h⟩ := hjobs
      · exact hno.onlyJob job
      · rw [hjob] at hjob'
        cases hjob'
        exact h
    split
    · rename_i hdone
      exact inv_afterJoin pending restart msg ht hs hstops
        (noJob_of_isCompleted (onlyJob_cancelJob honly) hdone)
    · refine ⟨ht, Phase.joining job restart msg hs ?_ (onlyJob_cancelJob honly) ?_⟩
      · show c.stops ++ _ = _
        rw [hstops, List.nil_append]
      · intro j hj hnd
        have hj' : (c.cancelJob job).jobs[job]? = some j := hj
        rw [getElem?_cancelJob] at hj'
        obtain ⟨j', hj', rfl⟩ := Option.map_eq_some_iff.mp hj'
        split at hnd
        · rename_i hc
          rw [if_pos hc]
        · rename_i hc
          exact absurd ⟨rfl, hnd⟩ hc

theorem inv_stopRunner {c : Service} (h : Inv c) (pending restart : Bool) (msg : Option Text) :
    Inv (stopRunner pending restart msg c) := by
  unfold stopRunner
  split
  · exact h
  · rename_i hns
    have hmove : Allowed c.data.state .stopping ∧ c.stops = [] ∧
        (NoJob c ∨ ∃ job, c.data.connectingJob = some job ∧ OnlyJob c job) := by
      cases h.phase with
      | stopped hs hstops hjobs _ => exact ⟨.stop (Or.inl hs), hstops, Or.inl hjobs⟩
      | connecting job j hs hstops hjob _ _ hjobs =>
        exact ⟨.stop (Or.inr (Or.inl hs)), hstops, Or.inr ⟨job, hjob, hjobs⟩⟩
      | stalled hs hstops hjobs => exact ⟨.stop (Or.inr (Or.inl hs)), hstops, Or.inl hjobs⟩
      | connected hs hstops hjobs => exact ⟨.stop (Or.inr (Or.inr hs)), hstops, Or.inl hjobs⟩
      | joining job restart msg hs => exact absurd hs hns
      | cleaning restart msg hs => exact absurd hs hns
    obtain ⟨hallowed, hstops, hjobs⟩ := hmove
    refine inv_runStop pending restart msg (trace_changeState none h.trace hallowed hns)
      (changeState_state _ _ _) (by rw [changeState_stops, hstops]) ?_
    simpa only [NoJob, OnlyJob, changeState_jobs, changeState_connectingJob] using hjobs

theorem inv_resumeStop {c c' : Service} (h : Inv c) {k : Nat} {pending : Bool}
    (hstep : c.resumeStop k pending = some c') : Inv c' := by
  unfold resumeStop at hstep
  -- there is at most one coroutine, so it is the first
  have hzero : ∀ {stop : Stop}, c.stops = [stop] → ∀ stop', c.stops[k]? = some stop' →
      k = 0 ∧ stop' = stop := by
    intro stop hstops stop' hk
    rw [hstops] at hk
    cases k with
    | zero => exact ⟨rfl, (Option.some.inj hk).symm⟩
    | succ k => simp at hk
  split at hstep
  · simp at hstep
  · rename_i stop hk
    have hnil : c.stops ≠ [] := by
      intro hnil
      rw [hnil] at hk
      simp at hk
    cases h.phase with
    | stopped hs hstops => exact absurd hstops hnil
    | connecting job j hs hstops => exact absurd hstops hnil
    | stalled hs hstops => exact absurd hstops hnil
    | connected hs hstops => exact absurd hstops hnil
    | joining job restart msg hs hstops hjobs hj =>
      obtain ⟨rfl, rfl⟩ := hzero hstops stop hk
      simp only at hstep
      split at hstep
      · rename_i hdone
        cases hstep
        exact inv_afterJoin pending restart msg h.trace hs (by rw [hstops]; rfl)
          (noJob_of_isCompleted hjobs hdone)
      · simp at hstep
    | cleaning restart msg hs hstops hjobs hclean =>
      obtain ⟨rfl, rfl⟩ := hzero hstops stop hk
      simp only at hstep
      cases hstep
      refine ⟨trace_changeState msg (c := { c with stops := c.stops.eraseIdx 0 }) h.trace
        (by rw [hs]; exact .stopped) (by rw [hs]; decide), ?_⟩
      refine Phase.stopped (changeState_state _ _ _) ?_ ?_ (clean_changeState hclean)
      · rw [changeState_stops, hstops]
        rfl
      · intro i j hi
        rw [changeState_jobs] at hi
        exact hjobs i j hi

/-! ### Starting -/

/-- The job that is launched is the only one that is not over. -/
theorem inv_launchJob {c : Service} (ht : Trace c.states c.data.state)
    (hs : c.data.state = .connecting) (hstops : c.stops = []) (hjobs : NoJob c) :
    Inv c.launchJob := by
  have hlast : (c.jobs ++ [⟨.scheduled, false⟩])[c.jobs.length]? = some ⟨.scheduled, false⟩ := by
    simp
  refine ⟨ht, Phase.connecting c.jobs.length ⟨.scheduled, false⟩ hs hstops rfl hlast rfl ?_⟩
  intro i j hi hne
  have hi' : (c.jobs ++ [⟨.scheduled, false⟩])[i]? = some j := hi
  obtain hlt | hge := Nat.lt_or_ge i c.jobs.length
  · rw [List.getElem?_append_left hlt] at hi'
    exact hjobs i j hi'
  · rw [List.getElem?_eq_none (by simp; omega)] at hi'
    simp at hi'

theorem inv_onStartCommand {c : Service} (h : Inv c) (current : CurrentProfile) (pending : Bool) :
    Inv (c.onStartCommand current pending) := by
  unfold onStartCommand
  split
  · exact h
  · rename_i hstopped
    rw [not_not] at hstopped
    obtain ⟨hstops, hjobs⟩ : c.stops = [] ∧ NoJob c := by
      cases h.phase with
      | stopped hs hstops hjobs => exact ⟨hstops, hjobs⟩
      | connecting job j hs => rw [hs] at hstopped; cases hstopped
      | stalled hs => rw [hs] at hstopped; cases hstopped
      | connected hs => rw [hs] at hstopped; cases hstopped
      | joining job restart msg hs => rw [hs] at hstopped; cases hstopped
      | cleaning restart msg hs => rw [hs] at hstopped; cases hstopped
    cases current with
    | none =>
      -- the notification that is shown here goes with the stop that follows
      show Inv (stopRunner pending false (some profileEmpty)
        { c with data := { c.data with notification := some [] } })
      rw [stopRunner, if_neg (by show c.data.state ≠ _; rw [hstopped]; decide)]
      refine inv_runStop pending false _ (trace_changeState none h.trace
        (.stop (Or.inl hstopped)) (by show c.data.state ≠ _; rw [hstopped]; decide))
        (changeState_state _ _ _) (by rw [changeState_stops]; exact hstops) (Or.inl ?_)
      intro i j hi
      rw [changeState_jobs] at hi
      exact hjobs i j hi
    | some p =>
      obtain ⟨profile, fallback⟩ := p
      refine inv_launchJob (trace_changeState none h.trace ?_ ?_) (changeState_state _ _ _)
        (by rw [changeState_stops]; exact hstops) ?_
      · show Allowed c.data.state _
        rw [hstopped]
        exact .connect
      · show c.data.state ≠ _
        rw [hstopped]
        decide
      · intro i j hi
        rw [changeState_jobs] at hi
        exact hjobs i j hi

theorem inv_forceLoad {c : Service} (h : Inv c) (current : CurrentProfile) (pending : Bool) :
    Inv (c.forceLoad current pending) := by
  unfold forceLoad
  split
  · exact inv_stopRunner h _ _ _
  · split
    · exact inv_stopRunner h _ _ _
    · split
      · exact h
      · split
        · exact inv_stopRunner h _ _ _
        · exact h

/-! ### The connecting job -/

theorem getElem?_setStatus (c : Service) (job i : Nat) (status : JobStatus) :
    (setStatus job status c).jobs[i]? =
      (c.jobs[i]?).map fun j => if job = i then { j with status := status } else j := by
  rw [setStatus, List.getElem?_modify]
  cases c.jobs[i]? with
  | none => rfl
  | some j =>
    by_cases hi : job = i
    · simp [hi]
    · simp [hi]

/-- When the only job is over, all are. -/
theorem noJob_setStatus {c : Service} {job : Nat} (h : OnlyJob c job) :
    NoJob (setStatus job .completed c) := by
  intro i j hi
  rw [getElem?_setStatus] at hi
  obtain ⟨j', hj', rfl⟩ := Option.map_eq_some_iff.mp hi
  by_cases hij : job = i
  · rw [if_pos hij]
  · rw [if_neg hij]
    exact h i j' hj' (fun he => hij he.symm)

theorem onlyJob_setStatus {c : Service} {job : Nat} (h : OnlyJob c job) (status : JobStatus) :
    OnlyJob (setStatus job status c) job := by
  intro i j hi hne
  rw [getElem?_setStatus] at hi
  obtain ⟨j', hj', rfl⟩ := Option.map_eq_some_iff.mp hi
  rw [if_neg (fun he => hne he.symm)]
  exact h i j' hj' hne

/-- A job that is not over is the only one, and the service is connecting or waits for it. -/
theorem phase_of_job {c : Service} (h : Phase c) {job : Nat} {j : Job}
    (hj : c.jobs[job]? = some j) (hnd : j.status ≠ .completed) :
    c.data.state ≠ .stopped ∧ OnlyJob c job ∧
      ((j.cancelled = false ∧ c.data.state = .connecting ∧ c.stops = [] ∧
          c.data.connectingJob = some job) ∨
        (j.cancelled = true ∧ c.data.state = .stopping ∧
          ∃ restart msg, c.stops = [⟨.joining job, restart, msg⟩])) := by
  cases h with
  | stopped hs hstops hjobs => exact absurd (hjobs job j hj) hnd
  | stalled hs hstops hjobs => exact absurd (hjobs job j hj) hnd
  | connected hs hstops hjobs => exact absurd (hjobs job j hj) hnd
  | cleaning restart msg hs hstops hjobs => exact absurd (hjobs job j hj) hnd
  | connecting job' j' hs hstops hjob hj' hcancel hjobs =>
    have heq : job = job' := by
      by_contra hne
      exact hnd (hjobs job j hj hne)
    subst heq
    rw [hj] at hj'
    cases hj'
    exact ⟨by rw [hs]; decide, hjobs, Or.inl ⟨hcancel, hs, hstops, hjob⟩⟩
  | joining job' restart msg hs hstops hjobs hj' =>
    have heq : job = job' := by
      by_contra hne
      exact hnd (hjobs job j hj hne)
    subst heq
    exact ⟨by rw [hs]; decide, hjobs, Or.inr ⟨hj' j hj hnd, hs, restart, msg, hstops⟩⟩

/-- The end of the job that is being waited for. -/
theorem inv_finish_joining {c : Service} {job : Nat} (ht : Trace c.states c.data.state)
    (hs : c.data.state = .stopping) {restart : Bool} {msg : Option Text}
    (hstops : c.stops = [⟨.joining job, restart, msg⟩]) (hjobs : OnlyJob c job) :
    Inv (setStatus job .completed c) := by
  refine ⟨ht, Phase.joining job restart msg hs hstops (onlyJob_setStatus hjobs _) ?_⟩
  intro j hj hnd
  exact absurd (noJob_setStatus hjobs job j hj) hnd

/-- A failure in the job: whoever stops the service now waits for the job, which then ends. -/
theorem inv_finally_catch {c : Service} (h : Inv c) {job : Nat} {j : Job}
    (hj : c.jobs[job]? = some j) (hnd : j.status ≠ .completed) (pending : Bool)
    (failure : Failure) : Inv (finallyJob job (catchFailure pending failure c)) := by
  have hend : ∀ c : Service, Inv c → (∃ j, c.jobs[job]? = some j ∧ j.status ≠ .completed) →
      Inv (finallyJob job c) := by
    rintro c h ⟨j, hj, hnd⟩
    obtain ⟨-, honly, ⟨-, hs, hstops, -⟩ | ⟨-, hs, restart, msg, hstops⟩⟩ :=
      phase_of_job h.phase hj hnd
    · exact ⟨h.trace, Phase.stalled hs hstops (noJob_setStatus honly)⟩
    · exact inv_finish_joining (c := { c with data := { c.data with connectingJob := none } })
        h.trace hs hstops honly
  have hstop : ∀ msg, Inv (finallyJob job (stopRunner pending false msg c)) := by
    intro msg
    refine hend _ (inv_stopRunner h pending false msg) ?_
    obtain ⟨-, honly, ⟨-, hs, -, hjob⟩ | ⟨-, hs, -⟩⟩ := phase_of_job h.phase hj hnd
    · -- the job is cancelled by the stop it has asked for, and not over yet
      have hj1 : ((changeState .stopping none c).cancelJob job).jobs[job]? =
          some { j with cancelled := true } := by
        rw [getElem?_cancelJob, changeState_jobs, hj, Option.map_some, if_pos ⟨rfl, hnd⟩]
      have hnc : ((changeState .stopping none c).cancelJob job).isCompleted job = false := by
        rw [isCompleted, hj1]
        exact decide_eq_false hnd
      refine ⟨{ j with cancelled := true }, ?_, hnd⟩
      rw [stopRunner, if_neg (by rw [hs]; decide), runStop, changeState_connectingJob, hjob]
      simp only [hnc]
      exact hj1
    · rw [stopRunner, if_pos hs]
      exact ⟨j, hj, hnd⟩
  cases failure with
  | cancellation => exact hend c h ⟨j, hj, hnd⟩
  | unknownHost => exact hstop _
  | other message => exact hstop _

/-- Creating the pool is allowed as long as the service is connecting. -/
theorem inv_createPool {c : Service} (h : Inv c) (job : Nat) (created : Bool)
    (hs : c.data.state = .connecting) : Inv (createPool job created c) := by
  unfold createPool
  split
  · exact h
  · refine ⟨h.trace, ?_⟩
    cases h.phase with
    | stopped hs' => rw [hs] at hs'; cases hs'
    | connected hs' => rw [hs] at hs'; cases hs'
    | joining job restart msg hs' => rw [hs] at hs'; cases hs'
    | cleaning restart msg hs' => rw [hs] at hs'; cases hs'
    | stalled hs' hstops hjobs => exact Phase.stalled hs' hstops hjobs
    | connecting job' j hs' hstops hjob hj hcancel hjobs =>
      exact Phase.connecting job' j hs' hstops hjob hj hcancel hjobs

theorem createPool_jobs (job : Nat) (created : Bool) (c : Service) :
    (createPool job created c).jobs = c.jobs := by
  unfold createPool
  split <;> rfl

theorem createPool_state (job : Nat) (created : Bool) (c : Service) :
    (createPool job created c).data.state = c.data.state := by
  unfold createPool
  split <;> rfl

theorem createPool_stops (job : Nat) (created : Bool) (c : Service) :
    (createPool job created c).stops = c.stops := by
  unfold createPool
  split <;> rfl

/-- A job that is suspended again. -/
theorem inv_suspend {c : Service} (h : Inv c) {job : Nat} {j : Job} (hj : c.jobs[job]? = some j)
    (hnd : j.status ≠ .completed) (hcancel : j.cancelled = false) (stage : Stage) :
    Inv (setStatus job (.suspended stage) c) := by
  obtain ⟨-, honly, ⟨-, hs, hstops, hjob⟩ | ⟨hc, -⟩⟩ := phase_of_job h.phase hj hnd
  · refine ⟨h.trace, Phase.connecting job { j with status := .suspended stage } hs hstops hjob ?_
      hcancel (onlyJob_setStatus honly _)⟩
    rw [getElem?_setStatus, hj, Option.map_some, if_pos rfl]
  · rw [hcancel] at hc
    cases hc

/-- A stretch of a job that was not cancelled. -/
theorem inv_runBody {c c' : Service} (h : Inv c) {job : Nat} {j : Job}
    (hj : c.jobs[job]? = some j) (hnd : j.status ≠ .completed) (hcancel : j.cancelled = false)
    {created pending : Bool} {outcome : Outcome}
    (hstep : runBody job created outcome pending c = some c') : Inv c' := by
  obtain ⟨-, honly, ⟨-, hs, hstops, hjob⟩ | ⟨hc, -⟩⟩ := phase_of_job h.phase hj hnd
  swap
  · rw [hcancel] at hc
    cases hc
  have hpool : ∀ made, Inv (createPool job made c) := fun made => inv_createPool h job made hs
  have hjpool : ∀ made, (createPool job made c).jobs[job]? = some j := by
    intro made
    rw [createPool_jobs, hj]
  unfold runBody at hstep
  split at hstep
  · split at hstep
    · simp at hstep
    · cases hstep
      exact inv_suspend h hj hnd hcancel .init
  · cases hstep
    exact inv_suspend (hpool created) (hjpool created) hnd hcancel .starting
  · cases hstep
    -- the service is connected, and the job over
    have htrace : Trace (changeState .connected none (createPool job created c)).states
        (changeState .connected none (createPool job created c)).data.state := by
      refine trace_changeState none (hpool created).trace ?_ ?_
      · rw [createPool_state, hs]
        exact .connected
      · rw [createPool_state, hs]
        decide
    refine ⟨htrace, Phase.connected (changeState_state _ _ _) ?_ (noJob_setStatus ?_)⟩
    · show (changeState .connected none (createPool job created c)).stops = []
      rw [changeState_stops, createPool_stops, hstops]
    · intro i j' hi
      have hi' : (changeState .connected none (createPool job created c)).jobs[i]? = some j' := hi
      rw [changeState_jobs, createPool_jobs] at hi'
      exact honly i j' hi'
  · cases hstep
    exact inv_finally_catch (hpool _) (hjpool _) hnd pending _

theorem inv_resumeJob {c c' : Service} (h : Inv c) {job : Nat} {outcome : Outcome} {pending : Bool}
    (hstep : c.resumeJob job outcome pending = some c') : Inv c' := by
  unfold resumeJob at hstep
  split at hstep
  · simp at hstep
  · rename_i j hj
    split at hstep
    · simp at hstep
    · rename_i hstatus
      have hnd : j.status ≠ .completed := by rw [hstatus]; simp
      split at hstep
      · rename_i hcancel
        cases hstep
        obtain ⟨-, honly, ⟨hc, -⟩ | ⟨-, hs, restart, msg, hstops⟩⟩ :=
          phase_of_job h.phase hj hnd
        · rw [hcancel] at hc
          cases hc
        · exact inv_finish_joining h.trace hs hstops honly
      · rename_i hcancel
        exact inv_runBody h hj hnd (Bool.eq_false_iff.mpr hcancel) hstep
    · rename_i stage hstatus
      have hnd : j.status ≠ .completed := by rw [hstatus]; simp
      split at hstep
      · split at hstep
        · cases hstep
          exact inv_finally_catch h hj hnd pending _
        · simp at hstep
      · rename_i hcancel
        exact inv_runBody h hj hnd (Bool.eq_false_iff.mpr hcancel) hstep

/-! ### Every run -/

theorem inv_new : Inv new :=
  ⟨Trace.start, Phase.stopped rfl rfl (by intro i j hi; simp [new] at hi) ⟨rfl, rfl, rfl, rfl, rfl⟩⟩

theorem inv_step (c : Service) (a : Action) (c' : Service) (h : Inv c)
    (hstep : step c a = some c') : Inv c' := by
  cases a with
  | startCommand current pending =>
    cases hstep
    exact inv_onStartCommand h current pending
  | stopRunner restart msg pending =>
    cases hstep
    exact inv_stopRunner h pending restart msg
  | forceLoad current pending =>
    cases hstep
    exact inv_forceLoad h current pending
  | fatalExit message pending =>
    cases hstep
    exact inv_stopRunner h pending false _
  | resumeJob job outcome pending => exact inv_resumeJob h hstep
  | resumeStop k pending => exact inv_resumeStop h hstep

/-- A connecting job that is not over. -/
def Running (c : Service) (job : Nat) : Prop :=
  ∃ j, c.jobs[job]? = some j ∧ j.status ≠ .completed

/-- At any time at most one connecting job is not over, let alone active. -/
theorem running_unique {c : Service} (h : Phase c) {i k : Nat} (hi : Running c i)
    (hk : Running c k) : i = k := by
  obtain ⟨j, hj, hnd⟩ := hi
  obtain ⟨j', hj', hnd'⟩ := hk
  obtain ⟨-, honly, -⟩ := phase_of_job h hj hnd
  by_contra hne
  exact hnd' (honly k j' hj' (fun he => hne he.symm))

/-- **The life cycle of the service.**  After every sequence of steps on the main thread the states
it has announced follow the allowed moves, at most one connecting job is running, and in `Stopped`
nothing is held and no job is running. -/
theorem lifecycle (as : List Action) (c : Service) (h : Machine.run step as new = some c) :
    Trace c.states c.data.state ∧ (∀ i k, Running c i → Running c k → i = k) ∧
      (c.data.state = .stopped → Clean c.data ∧ ∀ i, ¬Running c i) := by
  have hinv : Inv c := Machine.invariant inv_step inv_new h
  refine ⟨hinv.trace, fun i k => running_unique hinv.phase, ?_⟩
  intro hs
  cases hinv.phase with
  | stopped _ _ hjobs hclean =>
    refine ⟨hclean, ?_⟩
    rintro i ⟨j, hj, hnd⟩
    exact hnd (hjobs i j hj)
  | connecting job j hs' => rw [hs] at hs'; cases hs'
  | stalled hs' => rw [hs] at hs'; cases hs'
  | connected hs' => rw [hs] at hs'; cases hs'
  | joining job restart msg hs' => rw [hs] at hs'; cases hs'
  | cleaning restart msg hs' => rw [hs] at hs'; cases hs'

def sampleProfile : ProfileRef := ⟨"p".toList, "h".toList, "k".toList⟩

/-- A start that is stopped before its job runs, a second one that connects after a suspension, and
a fatal exit. -/
def sampleRun : List Action :=
  [.startCommand (some (sampleProfile, none)) false, .stopRunner true none false,
    .resumeJob 0 .succeed false, .resumeStop 0 true, .resumeStop 0 false,
    .startCommand (some (sampleProfile, some sampleProfile)) false,
    .resumeJob 1 (.suspend .starting) false, .resumeJob 1 .succeed false,
    .fatalExit "ss-local exits too fast".toList false]

theorem lifecycle_sample : ∃ c, Machine.run step sampleRun new = some c ∧
    c.states = [.connecting, .stopping, .stopped, .connecting, .connected, .stopping, .stopped] ∧
    Clean c.data := by
  obtain ⟨c, hc, hstates, hs⟩ : ∃ c, Machine.run step sampleRun new = some c ∧
      c.states = [.connecting, .stopping, .stopped, .connecting, .connected, .stopping, .stopped] ∧
      c.data.state = .stopped := ⟨_, rfl, rfl, rfl⟩
  exact ⟨c, hc, hstates, ((lifecycle sampleRun c hc).2.2 hs).1⟩

end Service

end BaseService

end SsAndroid
