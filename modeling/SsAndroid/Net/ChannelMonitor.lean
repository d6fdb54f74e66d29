import SsAndroid.Lib.Machine

/-!
# Registrations of the channel monitor

`ChannelMonitor.register` puts its registration into a queue and then writes one byte into a pipe;
the monitor's thread reads the pipe and takes one registration from the queue for every byte.  Any
number of calls are under way at once, and each may be cancelled where it is suspended: up to API 23
on its way into `withContext` and out of it again, at the `yield` after a write of nothing, and while
it waits for its result.  The channel of the queue is unlimited, so sending to it never suspends.

A registration goes by its number in the queue.  Reading a byte and polling the queue for it is one
step: the monitor's thread is the only one that does either.  The monitor is running throughout.

**`registrations_in_step`**: no byte finds the queue empty and registrations are completed in order;
and if no call is cancelled between its two steps, a queue without calls in between and without bytes
in the pipe is empty.
-/

namespace SsAndroid

namespace ChannelMonitor

/-- Where a call of `register` is. -/
inductive Stage
  /-- At the head of the loop: the registration is in the queue. -/
  | writing
  /-- In `withContext`, before the write. -/
  | dispatched
  /-- In `withContext`, behind a write of one byte or of nothing. -/
  | returning (one : Bool)
  | yielding
  | awaiting
  | returned
  /-- Cancelled, before or behind the write of its byte. -/
  | cancelled (wrote : Bool)
  deriving DecidableEq, Repr

/-- The byte of the call is written. -/
def Stage.wrote : Stage → Bool
  | .returning one => one
  | .awaiting => true
  | .returned => true
  | .cancelled wrote => wrote
  | _ => false

/-- The call has enqueued its registration and is still to write its byte. -/
def Stage.between : Stage → Bool
  | .writing => true
  | .dispatched => true
  | .returning one => !one
  | .yielding => true
  | _ => false

/-- The suspension points; `withContext` looks for a cancellation at once. -/
def Stage.cancellable (sdk : Nat) : Stage → Bool
  | .writing => sdk ≤ 23
  | .dispatched => true
  | .returning _ => true
  | .yielding => true
  | .awaiting => true
  | _ => false

structure Monitor where
  calls : List Stage
  /-- `pendingRegistrations`. -/
  queue : List Nat
  /-- The bytes in the pipe. -/
  pipe : Nat
  /-- The registrations with a result, in the order in which they got it. -/
  completed : List Nat
  /-- `poll` returned null. -/
  failed : Bool
  deriving DecidableEq, Repr

inductive Action
  /-- A call of `register` enqueues its registration. -/
  | register
  | dispatch (call : Nat)
  | write (call : Nat) (one : Bool)
  | leave (call : Nat)
  | resume (call : Nat)
  | cancel (call : Nat)
  /-- The monitor reads a byte and polls the queue. -/
  | drain
  /-- A call gets its result. -/
  | result (call : Nat)
  deriving DecidableEq, Repr

namespace Monitor

def new : Monitor := ⟨[], [], 0, [], false⟩

/-- A call goes from one stage to another. -/
def move (s : Monitor) (call : Nat) (source target : Stage) : Option Monitor :=
  if s.calls[call]? = some source then some { s with calls := s.calls.set call target } else none

def step (sdk : Nat) (s : Monitor) : Action → Option Monitor
  | .register =>
      some { s with calls := s.calls ++ [.writing], queue := s.queue ++ [s.calls.length] }
  | .dispatch call => if sdk ≤ 23 then s.move call .writing .dispatched else none
  | .write call one =>
      (if sdk ≤ 23 then s.move call .dispatched (.returning one)
        else s.move call .writing (if one then .awaiting else .yielding)).map
        fun s => { s with pipe := s.pipe + one.toNat }
  | .leave call =>
      match s.calls[call]? with
      | some (.returning true) => s.move call (.returning true) .awaiting
      | some (.returning false) => s.move call (.returning false) .yielding
      | _ => none
  | .resume call => s.move call .yielding .writing
  | .cancel call =>
      match s.calls[call]? with
      | some stage =>
          if stage.cancellable sdk then s.move call stage (.cancelled stage.wrote) else none
      | none => none
  | .drain =>
      if s.pipe = 0 ∨ s.failed then none
      else match s.queue with
        | [] => some { s with pipe := s.pipe - 1, failed := true }
        | registration :: queue =>
            some { s with
              pipe := s.pipe - 1
              queue := queue
              completed := s.completed ++ [registration] }
  | .result call => if call ∈ s.completed then s.move call .awaiting .returned else none

/-- The step does not cancel a call between its two steps. -/
def careful (s : Monitor) : Action → Bool
  | .cancel call => (s.calls[call]?).all fun stage => !stage.between
  | _ => true

/-- Every step of a run is careful in the state it is taken in. -/
def carefulRun (sdk : Nat) : List Action → Monitor → Bool
  | [], _ => true
  | a :: as, s => s.careful a && (s.step sdk a).all (carefulRun sdk as)

/-! ### The queue against the pipe -/

/-- The registrations are numbered in the order of the queue, and a byte is written for every
completed one and for every one whose byte is in the pipe. -/
structure InStep (s : Monitor) : Prop where
  ordered : s.completed ++ s.queue = List.range s.calls.length
  bytes : s.completed.length + s.pipe = s.calls.countP Stage.wrote
  running : s.failed = false

/-- A registration waits in the queue for a byte in the pipe, or for one that is not written. -/
theorem InStep.queue_length {s : Monitor} (h : s.InStep) :
    s.queue.length = s.pipe + s.calls.countP (fun c => ¬ c.wrote) := by
  have hlength := congrArg List.length h.ordered
  rw [List.length_append, List.length_range, List.length_eq_countP_add_countP Stage.wrote] at hlength
  have hbytes := h.bytes
  omega

theorem move_eq_some {s t : Monitor} {call : Nat} {source target : Stage}
    (h : s.move call source target = some t) :
    s.calls[call]? = some source ∧ t = { s with calls := s.calls.set call target } := by
  rw [move] at h
  split at h
  · rename_i hsource
    exact ⟨hsource, (Option.some.inj h).symm⟩
  · exact absurd h (by simp)

theorem countP_set_add {α : Type} (p : α → Bool) (l : List α) (i : Nat) (x y : α)
    (h : l[i]? = some x) :
    (l.set i y).countP p + (p x).toNat = l.countP p + (p y).toNat := by
  obtain ⟨hi, hx⟩ := List.getElem?_eq_some_iff.mp h
  have hpos : p x = true → 0 < l.countP p := fun hp =>
    List.countP_pos_iff.mpr ⟨x, List.mem_of_getElem? h, hp⟩
  rw [List.countP_set hi, hx]
  cases hpx : p x <;> cases p y <;> simp
  all_goals
    have := hpos hpx
    omega

/-- A call that moves on, and writes as many bytes as its stage says. -/
theorem move_inStep {s t : Monitor} {call : Nat} {source target : Stage} (hs : s.InStep)
    (h : s.move call source target = some t) (k : Nat)
    (hk : target.wrote.toNat = source.wrote.toNat + k) : { t with pipe := t.pipe + k }.InStep := by
  obtain ⟨hsource, rfl⟩ := move_eq_some h
  have hcount := countP_set_add Stage.wrote s.calls call source target hsource
  have hbytes := hs.bytes
  constructor
  · simpa using hs.ordered
  · show s.completed.length + (s.pipe + k) = (s.calls.set call target).countP Stage.wrote
    omega
  · exact hs.running

theorem drain_inStep {s : Monitor} (hs : s.InStep) (hpipe : s.pipe ≠ 0) {registration : Nat}
    {queue : List Nat} (hqueue : s.queue = registration :: queue) :
    { s with
      pipe := s.pipe - 1, queue := queue, completed := s.completed ++ [registration] }.InStep := by
  constructor
  · show (s.completed ++ [registration]) ++ queue = List.range s.calls.length
    rw [← hs.ordered, hqueue, List.append_assoc, List.singleton_append]
  · have hbytes := hs.bytes
    show (s.completed ++ [registration]).length + (s.pipe - 1) = s.calls.countP Stage.wrote
    rw [List.length_append, List.length_singleton]
    omega
  · exact hs.running

/-- What a step does: a call begins, a call goes on to another stage and writes `k` bytes, or a byte is
read.  Only `cancel` leads to a call that is cancelled before its byte was written. -/
inductive Does (sdk : Nat) (s : Monitor) : Action → Monitor → Prop
  | register : Does sdk s .register
      { s with calls := s.calls ++ [.writing], queue := s.queue ++ [s.calls.length] }
  | move (a : Action) {t : Monitor} {call : Nat} {source target : Stage} (k : Nat)
      (h : s.move call source target = some t)
      (hk : target.wrote.toNat = source.wrote.toNat + k)
      (hcancel : target = .cancelled false → a = .cancel call ∧ source.cancellable sdk = true ∧
        source.wrote = false) : Does sdk s a { t with pipe := t.pipe + k }
  | poll (hpipe : s.pipe ≠ 0) (hqueue : s.queue = []) :
      Does sdk s .drain { s with pipe := s.pipe - 1, failed := true }
  | drain (hpipe : s.pipe ≠ 0) {registration : Nat} {queue : List Nat}
      (hqueue : s.queue = registration :: queue) : Does sdk s .drain { s with
        pipe := s.pipe - 1, queue := queue, completed := s.completed ++ [registration] }

theorem step_does {sdk : Nat} {s t : Monitor} {a : Action} (h : s.step sdk a = some t) :
    Does sdk s a t := by
  cases a with
  | register =>
    rw [← Option.some.inj h]
    exact .register
  | dispatch call =>
    simp only [step] at h
    split_ifs at h
    exact .move _ 0 h rfl (by simp)
  | write call one =>
    simp only [step] at h
    obtain ⟨u, hu, rfl⟩ := Option.map_eq_some_iff.mp h
    split at hu
    · exact .move _ one.toNat hu (by simp [Stage.wrote]) (by simp)
    · exact .move _ one.toNat hu (by cases one <;> simp [Stage.wrote]) (by cases one <;> simp)
  | leave call =>
    simp only [step] at h
    split at h
    · exact .move _ 0 h rfl (by simp)
    · exact .move _ 0 h rfl (by simp)
    · cases h
  | resume call => exact .move _ 0 h rfl (by simp)
  | cancel call =>
    simp only [step] at h
    split at h
    · split_ifs at h with hcancellable
      exact .move _ 0 h rfl fun htarget => ⟨rfl, hcancellable, Stage.cancelled.inj htarget⟩
    · cases h
  | drain =>
    simp only [step] at h
    split_ifs at h with hopen
    have hpipe : s.pipe ≠ 0 := fun h0 => hopen (Or.inl h0)
    split at h
    · rename_i hqueue
      rw [← Option.some.inj h]
      exact .poll hpipe hqueue
    · rename_i registration queue hqueue
      rw [← Option.some.inj h]
      exact .drain hpipe hqueue
  | result call =>
    simp only [step] at h
    split_ifs at h
    exact .move _ 0 h rfl (by simp)

theorem register_inStep {s : Monitor} (hs : s.InStep) :
    { s with calls := s.calls ++ [Stage.writing], queue := s.queue ++ [s.calls.length] }.InStep := by
  constructor
  · show s.completed ++ (s.queue ++ [s.calls.length]) = List.range (s.calls ++ [_]).length
    rw [← List.append_assoc, hs.ordered, List.length_append, List.length_singleton,
      List.range_succ]
  · show s.completed.length + s.pipe = (s.calls ++ [Stage.writing]).countP Stage.wrote
    rw [List.countP_append, hs.bytes]
    rfl
  · exact hs.running

theorem step_inStep {sdk : Nat} (s : Monitor) (a : Action) (t : Monitor) (hs : s.InStep)
    (h : s.step sdk a = some t) : t.InStep := by
  cases step_does h with
  | register => exact register_inStep hs
  | move _ k hmove hk _ => exact move_inStep hs hmove k hk
  | poll hpipe hqueue =>
    -- A byte in the pipe has a registration in the queue.
    have hlength := hs.queue_length
    rw [hqueue, List.length_nil] at hlength
    omega
  | drain hpipe hqueue => exact drain_inStep hs hpipe hqueue

/-! ### Cancelled calls -/

/-- No call was cancelled before its byte was written. -/
def Tidy (s : Monitor) : Prop := ∀ stage ∈ s.calls, stage ≠ .cancelled false

theorem move_tidy {s t : Monitor} {call : Nat} {source target : Stage} (hs : s.Tidy)
    (h : s.move call source target = some t) (htarget : target ≠ .cancelled false) : t.Tidy := by
  obtain ⟨_, rfl⟩ := move_eq_some h
  intro stage hstage
  rcases List.mem_or_eq_of_mem_set hstage with hstage | rfl
  · exact hs stage hstage
  · exact htarget

theorem Stage.wrote_of_cancellable {sdk : Nat} {stage : Stage} (h : stage.cancellable sdk = true)
    (hbetween : stage.between = false) : stage.wrote = true := by
  cases stage <;> simp_all [Stage.cancellable, Stage.between, Stage.wrote]

theorem step_tidy {sdk : Nat} (s : Monitor) (a : Action) (t : Monitor) (hs : s.Tidy)
    (ha : s.careful a = true) (h : s.step sdk a = some t) : t.Tidy := by
  cases step_does h with
  | register =>
    intro stage hstage
    rcases List.mem_append.mp hstage with hstage | hstage
    · exact hs stage hstage
    · rw [List.mem_singleton.mp hstage]
      simp
  | @move _ u _ _ _ k hmove _ hcancel =>
    show u.Tidy
    refine move_tidy hs hmove fun htarget => ?_
    obtain ⟨rfl, hcancellable, hunwritten⟩ := hcancel htarget
    have hbetween := ha
    rw [careful, (move_eq_some hmove).1, Option.all_some, Bool.not_eq_true'] at hbetween
    rw [Stage.wrote_of_cancellable hcancellable hbetween] at hunwritten
    cases hunwritten
  | poll _ _ => exact hs
  | drain _ _ => exact hs

theorem queue_eq_nil {s : Monitor} (hs : s.InStep) (htidy : s.Tidy) (hpipe : s.pipe = 0)
    (hbetween : ∀ stage ∈ s.calls, stage.between = false) : s.queue = [] := by
  have hall : s.calls.countP (fun c => ¬ c.wrote) = 0 := by
    rw [List.countP_eq_zero]
    intro stage hstage
    have hb := hbetween stage hstage
    have ht := htidy stage hstage
    cases stage <;> simp_all [Stage.between, Stage.wrote]
  have hlength := hs.queue_length
  exact List.length_eq_zero_iff.mp (by omega)

theorem run_tidy {sdk : Nat} {as : List Action} : ∀ {s t : Monitor}, s.Tidy →
    carefulRun sdk as s = true → Machine.run (step sdk) as s = some t → t.Tidy := by
  induction as with
  | nil =>
    intro s t hs _ h
    rw [← Option.some.inj h]
    exact hs
  | cons a as ih =>
    intro s t hs hcareful h
    obtain ⟨u, hu, h⟩ := Option.bind_eq_some_iff.mp h
    rw [carefulRun, hu, Bool.and_eq_true] at hcareful
    exact ih (step_tidy s a u hs hcareful.1 hu) hcareful.2 h

/-- **In every run each byte finds a registration and registrations are completed in the order of the
queue, none twice.  If no call is cancelled between enqueuing its registration and writing its byte,
then whenever the pipe is empty and no call is in between, no registration waits.** -/
theorem registrations_in_step (sdk : Nat) (as : List Action) (s : Monitor)
    (h : Machine.run (step sdk) as new = some s) :
    s.failed = false ∧ s.completed ++ s.queue = List.range s.calls.length ∧
    (carefulRun sdk as new = true → s.pipe = 0 → (∀ stage ∈ s.calls, stage.between = false) →
      s.queue = []) := by
  have hinStep : s.InStep :=
    Machine.invariant step_inStep (s := new) ⟨rfl, rfl, rfl⟩ h
  refine ⟨hinStep.running, hinStep.ordered, ?_⟩
  intro hcareful hpipe hbetween
  have htidy : s.Tidy := run_tidy (by simp [Tidy, new]) hcareful h
  exact queue_eq_nil hinStep htidy hpipe hbetween

/-- Two calls on API 24, the second of which is cancelled while it waits for its result. -/
def cancelledWait : List Action :=
  [.register, .register, .write 1 true, .cancel 1, .drain, .write 0 true, .drain]

theorem registrations_in_step_cancelledWait :
    ∃ s, Machine.run (step 24) cancelledWait new = some s ∧ s.completed = [0, 1] ∧
      s.failed = false ∧ s.queue = [] :=
  ⟨_, rfl, rfl, (registrations_in_step 24 cancelledWait _ rfl).1,
    (registrations_in_step 24 cancelledWait _ rfl).2.2 rfl rfl (by decide)⟩

/-- On API 23 a call is cancelled before its write; the byte of the next one completes the cancelled
registration. -/
def cancelledWrite : List Action :=
  [.register, .dispatch 0, .cancel 0, .register, .dispatch 1, .write 1 true, .leave 1, .drain]

theorem cancelled_write_shifts :
    ∃ s, Machine.run (step 23) cancelledWrite new = some s ∧ s.pipe = 0 ∧
      (∀ stage ∈ s.calls, stage.between = false) ∧ s.calls[1]? = some .awaiting ∧
      s.queue = [1] ∧ s.completed = [0] :=
  ⟨_, rfl, rfl, by decide, rfl, rfl, rfl⟩

end Monitor

end ChannelMonitor

end SsAndroid
