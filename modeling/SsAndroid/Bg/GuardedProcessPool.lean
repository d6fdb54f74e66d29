import SsAndroid.Lib.Machine

/-!
# Guarded processes

`Guard.looper` waits for the exit code of its process, starts the process again and calls back.  For
every process a thread of its own, started at the head of the loop, waits for the exit and sends the
code over a channel without buffer; the thread reads `process` while only its own code could let the
loop replace it, so it belongs to the process it was started for.

The loop ends by an exception, of which an `IOException` is caught, and then cleans up if `running`:
up to API 23 it signals the process and waits for half a second, from API 26 on it destroys it and
waits for a second, and in the end it waits without limit.  A wait that times out takes no exit code
with it, and a signal fails only if the process is gone.  A cancelled receive takes none either: it is
atomic in the coroutine library the project uses.

Processes exit whenever they like, with whatever code; the pool may be closed at any time.

**`looper_receives_all`**: when the loop is over, every process has exited and its code was received
once, and the loop never waits for a process whose code it has.  **`failed_callback_blocks`**: after a
callback that failed or was cancelled nobody sends the code the clean-up waits for.
-/

namespace SsAndroid

namespace GuardedProcessPool

/-- The thread that waits for a process. -/
inductive Waiter
  | unstarted
  | waiting
  | sending
  | sent
  deriving DecidableEq, Repr

structure Process where
  /-- The exit code. -/
  exit : Option Int
  waiter : Waiter
  /-- How often the loop received the exit code. -/
  received : Nat
  deriving DecidableEq, Repr

inductive Outcome
  | returned
  | thrown
  deriving DecidableEq, Repr

/-- Where `looper` is; the clean-up knows how the loop ended. -/
inductive Stage
  | head
  | receiving
  | restarting
  | callback
  /-- `withTimeoutOrNull(500) { exitChannel.receive() }`. -/
  | terminating (outcome : Outcome)
  /-- `withTimeoutOrNull(1000) { exitChannel.receive() }`. -/
  | destroying (outcome : Outcome)
  /-- The last `exitChannel.receive()`. -/
  | lastReceive (outcome : Outcome)
  | done (outcome : Outcome)
  deriving DecidableEq, Repr

/-- The stages in which `looper` waits for an exit code. -/
def Stage.waits : Stage → Bool
  | .receiving => true
  | .terminating _ => true
  | .destroying _ => true
  | .lastReceive _ => true
  | _ => false

structure Guard where
  /-- The processes in the order in which they were started; `process` is the last. -/
  processes : List Process
  stage : Stage
  running : Bool
  /-- The pool is closed. -/
  closed : Bool
  deriving DecidableEq, Repr

inductive Action
  /-- The threads are started. -/
  | begin
  | exit (process : Nat) (code : Int)
  /-- `waitFor` of a thread returns. -/
  | waitFor (process : Nat)
  /-- The loop receives the code of a process. -/
  | receive (process : Nat)
  | close
  /-- The loop notices that the pool is closed. -/
  | cancelled
  | tooFast
  | startFails (io : Bool)
  | restart
  | callbackReturns
  | callbackThrows (io : Bool)
  | timeout
  deriving DecidableEq, Repr

/-- The API level, and whether there is an `onRestartCallback`. -/
structure Config where
  sdk : Nat
  hasCallback : Bool

namespace Guard

def fresh : Process := ⟨none, .unstarted, 0⟩

/-- `Guard.start()` has succeeded and `looper` begins. -/
def new : Guard := ⟨[fresh], .head, true, false⟩

/-- After `process.destroy()`. -/
def destroyStage (c : Config) (outcome : Outcome) : Stage :=
  if 26 ≤ c.sdk then .destroying outcome else .lastReceive outcome

/-- The `finally` block. -/
def finish (c : Config) (s : Guard) (outcome : Outcome) : Guard :=
  { s with stage :=
      if s.running then
        if c.sdk < 24 then .terminating outcome else destroyStage c outcome
      else .done outcome }

/-- An `IOException` is caught. -/
def outcomeOf (io : Bool) : Outcome := if io then .returned else .thrown

def setProcess (s : Guard) (i : Nat) (q : Process) : Guard :=
  { s with processes := s.processes.set i q }

/-- The loop has the code of a process. -/
def received (s : Guard) : Option Guard :=
  match s.stage with
  | .receiving => some { s with running := false, stage := .restarting }
  | .terminating outcome => some { s with stage := .done outcome }
  | .destroying outcome => some { s with stage := .done outcome }
  | .lastReceive outcome => some { s with stage := .done outcome }
  | _ => none

def step (c : Config) (s : Guard) : Action → Option Guard
  | .begin =>
      if s.stage = .head then
        some { s with
          processes := s.processes.modify (s.processes.length - 1) ({ · with waiter := .waiting })
          stage := .receiving }
      else none
  | .exit i code =>
      match s.processes[i]? with
      | some q => if q.exit = none then some (s.setProcess i { q with exit := some code }) else none
      | none => none
  | .waitFor i =>
      match s.processes[i]? with
      | some q =>
          if q.waiter = .waiting ∧ q.exit ≠ none then
            some (s.setProcess i { q with waiter := .sending })
          else none
      | none => none
  | .receive i =>
      match s.processes[i]? with
      | some q =>
          if q.waiter = .sending then
            (s.setProcess i { q with waiter := .sent, received := q.received + 1 }).received
          else none
      | none => none
  | .close => some { s with closed := true }
  | .cancelled =>
      if s.closed ∧ (s.stage = .receiving ∨ s.stage = .callback) then some (s.finish c .thrown)
      else none
  | .tooFast => if s.stage = .restarting then some (s.finish c .returned) else none
  | .startFails io => if s.stage = .restarting then some (s.finish c (outcomeOf io)) else none
  | .restart =>
      if s.stage = .restarting then
        some { s with
          processes := s.processes ++ [fresh]
          running := true
          stage := if c.hasCallback then .callback else .head }
      else none
  | .callbackReturns => if s.stage = .callback then some { s with stage := .head } else none
  | .callbackThrows io => if s.stage = .callback then some (s.finish c (outcomeOf io)) else none
  | .timeout =>
      match s.stage with
      | .terminating outcome => some { s with stage := destroyStage c outcome }
      | .destroying outcome => some { s with stage := .lastReceive outcome }
      | _ => none

/-! ### The flag and the exit codes -/

/-- The process has exited and its code was received. -/
structure Over (q : Process) : Prop where
  sent : q.waiter = .sent
  once : q.received = 1
  exited : q.exit ≠ none

/-- The code of the process is still to come. -/
structure Awaited (q : Process) : Prop where
  unsent : q.waiter ≠ .sent
  never : q.received = 0
  exited : q.waiter = .sending → q.exit ≠ none

/-- What `running` says of the current process; its threads are started at the head of the loop. -/
def Current (q : Process) (running : Bool) : Stage → Prop
  | .restarting => running = false ∧ Over q
  | .done _ => Over q
  | .head => running = true ∧ Awaited q ∧ q.waiter = .unstarted
  | .callback => running = true ∧ Awaited q ∧ q.waiter = .unstarted
  | _ => running = true ∧ Awaited q

/-- All processes but the last are over, and `running` tells about the last. -/
def Tracked (s : Guard) : Prop :=
  ∃ earlier q, s.processes = earlier ++ [q] ∧ (∀ p ∈ earlier, Over p) ∧ Current q s.running s.stage

/-- Only the last process can be one that is not over. -/
theorem last_of_not_over {earlier : List Process} {q p : Process} {i : Nat}
    (hearlier : ∀ p ∈ earlier, Over p) (hp : (earlier ++ [q])[i]? = some p) (hnot : ¬ Over p) :
    i = earlier.length ∧ p = q := by
  by_cases hi : i < earlier.length
  · rw [List.getElem?_append_left hi] at hp
    exact absurd (hearlier p (List.mem_of_getElem? hp)) hnot
  · rw [List.getElem?_append_right (by omega)] at hp
    have hlt : i - earlier.length < [q].length := (List.getElem?_eq_some_iff.mp hp).1
    have hzero : i = earlier.length := by
      rw [List.length_singleton] at hlt
      omega
    rw [hzero, Nat.sub_self] at hp
    exact ⟨hzero, (Option.some.inj hp).symm⟩

theorem set_last (earlier : List Process) (q p : Process) :
    (earlier ++ [q]).set earlier.length p = earlier ++ [p] := by
  rw [List.set_append_right _ _ (Nat.le_refl _), Nat.sub_self]
  rfl

theorem modify_last (earlier : List Process) (q : Process) (f : Process → Process) :
    (earlier ++ [q]).modify ((earlier ++ [q]).length - 1) f = earlier ++ [f q] := by
  rw [List.length_append, List.length_singleton, Nat.add_sub_cancel]
  induction earlier with
  | nil => rfl
  | cons p earlier ih => simp [ih]

/-- The clean-up begins where it has to, and only there. -/
theorem finish_current (c : Config) {s : Guard} {q : Process} (outcome : Outcome)
    (h : s.running = true ∧ Awaited q ∨ s.running = false ∧ Over q) :
    Current q (s.finish c outcome).running (s.finish c outcome).stage := by
  rcases h with ⟨hrunning, hq⟩ | ⟨hrunning, hq⟩
  · simp only [finish, destroyStage, hrunning, if_true]
    split_ifs <;> exact ⟨rfl, hq⟩
  · simp only [finish, hrunning, Bool.false_eq_true, if_false]
    exact hq

/-- A process that is not over is awaited. -/
theorem awaited_of_not_over {q : Process} {running : Bool} {stage : Stage}
    (h : Current q running stage) (hnot : ¬ Over q) : running = true ∧ Awaited q := by
  cases stage with
  | restarting => exact absurd h.2 hnot
  | done outcome => exact absurd h hnot
  | head => exact ⟨h.1, h.2.1⟩
  | callback => exact ⟨h.1, h.2.1⟩
  | _ => exact h

theorem awaited_of_waits {q : Process} {running : Bool} {stage : Stage}
    (h : Current q running stage) (hwaits : stage.waits = true) : Awaited q := by
  cases stage with
  | receiving => exact h.2
  | terminating outcome => exact h.2
  | destroying outcome => exact h.2
  | lastReceive outcome => exact h.2
  | _ => exact absurd hwaits (by simp [Stage.waits])

theorem current_of_awaited {q p : Process} {running : Bool} {stage : Stage}
    (h : Current q running stage) (hq : ¬ Over q) (hp : Awaited p)
    (hwaiter : q.waiter = .unstarted → p.waiter = .unstarted) : Current p running stage := by
  have hrunning := (awaited_of_not_over h hq).1
  cases stage with
  | restarting => exact absurd h.2 hq
  | done outcome => exact absurd h hq
  | head => exact ⟨hrunning, hp, hwaiter h.2.2⟩
  | callback => exact ⟨hrunning, hp, hwaiter h.2.2⟩
  | _ => exact ⟨hrunning, hp⟩

/-- A step of the process or its thread: the last process changes and stays awaited. -/
theorem setProcess_tracked {s : Guard} {i : Nat} {p p' : Process} (hs : s.Tracked)
    (hi : s.processes[i]? = some p) (hnot : ¬ Over p) (h : Awaited p → Awaited p')
    (hwaiter : p.waiter = .unstarted → p'.waiter = .unstarted) :
    (s.setProcess i p').Tracked := by
  obtain ⟨earlier, q, hprocesses, hearlier, hcurrent⟩ := hs
  rw [hprocesses] at hi
  obtain ⟨rfl, rfl⟩ := last_of_not_over hearlier hi hnot
  refine ⟨earlier, p', ?_, hearlier,
    current_of_awaited hcurrent hnot (h (awaited_of_not_over hcurrent hnot).2) hwaiter⟩
  show s.processes.set earlier.length p' = earlier ++ [p']
  rw [hprocesses, set_last]

/-- The loop receives a code: the process it was waiting for is over. -/
theorem receive_tracked {s t : Guard} {i : Nat} {p : Process} (hs : s.Tracked)
    (hi : s.processes[i]? = some p) (hp : p.waiter = .sending)
    (h : (s.setProcess i { p with waiter := .sent, received := p.received + 1 }).received = some t) :
    t.Tracked := by
  obtain ⟨earlier, q, hprocesses, hearlier, hcurrent⟩ := hs
  rw [hprocesses] at hi
  have hnot : ¬ Over p := fun ho => absurd (ho.sent.symm.trans hp) (by simp)
  obtain ⟨rfl, rfl⟩ := last_of_not_over hearlier hi hnot
  have hawaited := (awaited_of_not_over hcurrent hnot).2
  have hover : Over { p with waiter := .sent, received := p.received + 1 } :=
    ⟨rfl, by simp [hawaited.never], hawaited.exited hp⟩
  have hset : s.processes.set earlier.length { p with waiter := .sent, received := p.received + 1 } =
      earlier ++ [{ p with waiter := .sent, received := p.received + 1 }] := by
    rw [hprocesses, set_last]
  rw [received] at h
  split at h
  · rw [← Option.some.inj h]
    exact ⟨earlier, _, hset, hearlier, rfl, hover⟩
  · rw [← Option.some.inj h]
    exact ⟨earlier, _, hset, hearlier, hover⟩
  · rw [← Option.some.inj h]
    exact ⟨earlier, _, hset, hearlier, hover⟩
  · rw [← Option.some.inj h]
    exact ⟨earlier, _, hset, hearlier, hover⟩
  · exact absurd h (by simp)

theorem finish_tracked (c : Config) {s : Guard} (outcome : Outcome) (hs : s.Tracked)
    (h : s.stage = .receiving ∨ s.stage = .callback ∨ s.stage = .restarting) :
    (s.finish c outcome).Tracked := by
  obtain ⟨earlier, q, hprocesses, hearlier, hcurrent⟩ := hs
  refine ⟨earlier, q, hprocesses, hearlier, finish_current c outcome ?_⟩
  rcases h with h | h | h
  · rw [h] at hcurrent
    exact Or.inl hcurrent
  · rw [h] at hcurrent
    exact Or.inl ⟨hcurrent.1, hcurrent.2.1⟩
  · rw [h] at hcurrent
    exact Or.inr hcurrent

theorem begin_tracked {s : Guard} (hs : s.Tracked) (hstage : s.stage = .head) :
    { s with
      processes := s.processes.modify (s.processes.length - 1) ({ · with waiter := .waiting })
      stage := .receiving }.Tracked := by
  obtain ⟨earlier, q, hprocesses, hearlier, hcurrent⟩ := hs
  rw [hstage] at hcurrent
  refine ⟨earlier, { q with waiter := .waiting }, ?_, hearlier, hcurrent.1, ?_⟩
  · show s.processes.modify (s.processes.length - 1) _ = _
    rw [hprocesses, modify_last]
  · exact ⟨by simp, hcurrent.2.1.never, by simp⟩

theorem restart_tracked (c : Config) {s : Guard} (hs : s.Tracked) (hstage : s.stage = .restarting) :
    { s with
      processes := s.processes ++ [fresh]
      running := true
      stage := if c.hasCallback then .callback else .head }.Tracked := by
  obtain ⟨earlier, q, hprocesses, hearlier, hcurrent⟩ := hs
  rw [hstage] at hcurrent
  refine ⟨earlier ++ [q], fresh, ?_, ?_, ?_⟩
  · show s.processes ++ [fresh] = _
    rw [hprocesses]
  · intro p hp
    rcases List.mem_append.mp hp with hp | hp
    · exact hearlier p hp
    · rw [List.mem_singleton.mp hp]
      exact hcurrent.2
  · have hfresh : Awaited fresh := ⟨by simp [fresh], rfl, by simp [fresh]⟩
    show Current fresh true (if c.hasCallback then .callback else .head)
    split_ifs <;> exact ⟨rfl, hfresh, rfl⟩

/-- What a step does, and when it can be taken. -/
inductive Does (c : Config) (s : Guard) : Action → Guard → Prop
  | begin (h : s.stage = .head) : Does c s .begin { s with
      processes := s.processes.modify (s.processes.length - 1) ({ · with waiter := .waiting })
      stage := .receiving }
  | exit {i : Nat} {q : Process} (code : Int) (hq : s.processes[i]? = some q) (h : q.exit = none) :
      Does c s (.exit i code) (s.setProcess i { q with exit := some code })
  | waitFor {i : Nat} {q : Process} (hq : s.processes[i]? = some q)
      (h : q.waiter = .waiting ∧ q.exit ≠ none) :
      Does c s (.waitFor i) (s.setProcess i { q with waiter := .sending })
  | receive {i : Nat} {q : Process} {t : Guard} (hq : s.processes[i]? = some q)
      (h : q.waiter = .sending)
      (ht : (s.setProcess i { q with waiter := .sent, received := q.received + 1 }).received = some t) :
      Does c s (.receive i) t
  | close : Does c s .close { s with closed := true }
  | finish (a : Action) (outcome : Outcome)
      (h : s.stage = .receiving ∨ s.stage = .callback ∨ s.stage = .restarting) :
      Does c s a (s.finish c outcome)
  | restart (h : s.stage = .restarting) : Does c s .restart { s with
      processes := s.processes ++ [fresh]
      running := true
      stage := if c.hasCallback then .callback else .head }
  | callbackReturns (h : s.stage = .callback) : Does c s .callbackReturns { s with stage := .head }
  | terminated {outcome : Outcome} (h : s.stage = .terminating outcome) :
      Does c s .timeout { s with stage := destroyStage c outcome }
  | destroyed {outcome : Outcome} (h : s.stage = .destroying outcome) :
      Does c s .timeout { s with stage := .lastReceive outcome }

theorem step_does {c : Config} {s t : Guard} {a : Action} (h : s.step c a = some t) :
    Does c s a t := by
  cases a with
  | begin =>
    simp only [step] at h
    split_ifs at h with hstage
    rw [← Option.some.inj h]
    exact .begin hstage
  | exit i code =>
    simp only [step] at h
    split at h
    · rename_i q hq
      split_ifs at h with hexit
      rw [← Option.some.inj h]
      exact .exit code hq hexit
    · cases h
  | waitFor i =>
    simp only [step] at h
    split at h
    · rename_i q hq
      split_ifs at h with hwaiting
      rw [← Option.some.inj h]
      exact .waitFor hq hwaiting
    · cases h
  | receive i =>
    simp only [step] at h
    split at h
    · rename_i q hq
      split_ifs at h with hsending
      exact .receive hq hsending h
    · cases h
  | close =>
    rw [← Option.some.inj h]
    exact .close
  | cancelled =>
    simp only [step] at h
    split_ifs at h with hclosed
    rw [← Option.some.inj h]
    exact .finish _ _ (by tauto)
  | tooFast | startFails io =>
    simp only [step] at h
    split_ifs at h with hstage
    rw [← Option.some.inj h]
    exact .finish _ _ (Or.inr (Or.inr hstage))
  | restart =>
    simp only [step] at h
    split at h
    · rename_i hstage
      rw [← Option.some.inj h]
      exact .restart hstage
    · cases h
  | callbackReturns =>
    simp only [step] at h
    split_ifs at h with hstage
    rw [← Option.some.inj h]
    exact .callbackReturns hstage
  | callbackThrows io =>
    simp only [step] at h
    split_ifs at h with hstage
    rw [← Option.some.inj h]
    exact .finish _ _ (Or.inr (Or.inl hstage))
  | timeout =>
    simp only [step] at h
    split at h
    · rename_i outcome hstage
      rw [← Option.some.inj h]
      exact .terminated hstage
    · rename_i outcome hstage
      rw [← Option.some.inj h]
      exact .destroyed hstage
    · cases h

theorem step_tracked (c : Config) (s : Guard) (a : Action) (t : Guard) (hs : s.Tracked)
    (h : s.step c a = some t) : t.Tracked := by
  cases step_does h with
  | begin hstage => exact begin_tracked hs hstage
  | exit code hq hexit =>
    exact setProcess_tracked hs hq (fun ho => ho.exited hexit)
      (fun ha => ⟨ha.unsent, ha.never, by simp⟩) id
  | waitFor hq hwaiting =>
    exact setProcess_tracked hs hq (fun ho => absurd (ho.sent.symm.trans hwaiting.1) (by simp))
      (fun ha => ⟨by simp, ha.never, fun _ => hwaiting.2⟩)
      (fun hw => absurd (hw.symm.trans hwaiting.1) (by simp))
  | receive hq hsending ht => exact receive_tracked hs hq hsending ht
  | close => exact hs
  | finish _ outcome hstage => exact finish_tracked c outcome hs hstage
  | restart hstage => exact restart_tracked c hs hstage
  | callbackReturns hstage =>
    obtain ⟨earlier, q, hprocesses, hearlier, hcurrent⟩ := hs
    rw [hstage] at hcurrent
    exact ⟨earlier, q, hprocesses, hearlier, hcurrent⟩
  | @terminated outcome hstage =>
    obtain ⟨earlier, q, hprocesses, hearlier, hcurrent⟩ := hs
    rw [hstage] at hcurrent
    refine ⟨earlier, q, hprocesses, hearlier, ?_⟩
    show Current q s.running (destroyStage c outcome)
    rw [destroyStage]
    split_ifs <;> exact hcurrent
  | destroyed hstage =>
    obtain ⟨earlier, q, hprocesses, hearlier, hcurrent⟩ := hs
    rw [hstage] at hcurrent
    exact ⟨earlier, q, hprocesses, hearlier, hcurrent⟩

theorem run_tracked (c : Config) {as : List Action} {s : Guard}
    (h : Machine.run (step c) as new = some s) : s.Tracked := by
  have hfresh : Current fresh true .head := ⟨rfl, ⟨by simp [fresh], rfl, by simp [fresh]⟩, rfl⟩
  exact Machine.invariant (step_tracked c) (s := new) ⟨[], fresh, rfl, by simp, hfresh⟩ h

/-- **When `looper` is over, every process has exited and its code was received once; and `looper`
never waits for a process whose code it has received.** -/
theorem looper_receives_all (c : Config) (as : List Action) (s : Guard)
    (h : Machine.run (step c) as new = some s) :
    (∀ outcome, s.stage = .done outcome → ∀ q ∈ s.processes, q.exit ≠ none ∧ q.received = 1) ∧
    (s.stage.waits = true → ∃ q, s.processes.getLast? = some q ∧ q.received = 0) := by
  obtain ⟨earlier, q, hprocesses, hearlier, hcurrent⟩ := run_tracked c h
  constructor
  · intro outcome hdone p hp
    rw [hdone] at hcurrent
    have hover : Over p := by
      rw [hprocesses] at hp
      rcases List.mem_append.mp hp with hp | hp
      · exact hearlier p hp
      · rw [List.mem_singleton.mp hp]
        exact hcurrent
    exact ⟨hover.exited, hover.once⟩
  · intro hwaits
    exact ⟨q, by rw [hprocesses, List.getLast?_concat], (awaited_of_waits hcurrent hwaits).never⟩

/-- A process is killed, restarted, and ended by closing the pool on API 28. -/
def restartThenClose : List Action :=
  [.begin, .exit 0 137, .waitFor 0, .receive 0, .restart, .callbackReturns, .begin, .close,
    .cancelled, .timeout, .exit 1 9, .waitFor 1, .receive 1]

theorem looper_receives_all_restartThenClose :
    ∃ s, Machine.run (step ⟨28, true⟩) restartThenClose new = some s ∧ s.stage = .done .thrown ∧
      s.processes.length = 2 ∧ ∀ q ∈ s.processes, q.exit ≠ none ∧ q.received = 1 :=
  ⟨_, rfl, rfl, rfl, (looper_receives_all ⟨28, true⟩ restartThenClose _ rfl).1 .thrown rfl⟩

/-! ### A callback that fails -/

/-- The clean-up waits, and no thread is left that could send a code. -/
structure Blocked (s : Guard) : Prop where
  waits : ∃ outcome, s.stage = .terminating outcome ∨ s.stage = .destroying outcome ∨
    s.stage = .lastReceive outcome
  silent : ∀ q ∈ s.processes, q.waiter = .unstarted ∨ q.waiter = .sent

theorem finish_blocked (c : Config) {s : Guard} (outcome : Outcome) (hs : s.Tracked)
    (hstage : s.stage = .callback) : (s.finish c outcome).Blocked := by
  obtain ⟨earlier, q, hprocesses, hearlier, hcurrent⟩ := hs
  rw [hstage] at hcurrent
  constructor
  · refine ⟨outcome, ?_⟩
    simp only [finish, destroyStage, hcurrent.1, if_true]
    split_ifs <;> simp
  · intro p hp
    have hp : p ∈ earlier ++ [q] := hprocesses ▸ hp
    rcases List.mem_append.mp hp with hp | hp
    · exact Or.inr (hearlier p hp).sent
    · rw [List.mem_singleton.mp hp]
      exact Or.inl hcurrent.2.2

theorem step_blocked (c : Config) (s : Guard) (a : Action) (t : Guard) (hs : s.Blocked)
    (h : s.step c a = some t) : t.Blocked := by
  obtain ⟨⟨outcome, hwaits⟩, hsilent⟩ := hs
  have hstage : s.stage ≠ .head ∧ s.stage ≠ .receiving ∧ s.stage ≠ .restarting ∧
      s.stage ≠ .callback := by
    rcases hwaits with h | h | h <;> simp [h]
  have hwaiter : ∀ {i : Nat} {q : Process}, s.processes[i]? = some q →
      q.waiter ≠ .waiting ∧ q.waiter ≠ .sending := by
    intro i q hq
    rcases hsilent q (List.mem_of_getElem? hq) with hw | hw <;> simp [hw]
  cases step_does h with
  | begin hhead => exact absurd hhead hstage.1
  | @exit i q code hq _ =>
    refine ⟨⟨outcome, hwaits⟩, ?_⟩
    intro p hp
    rcases List.mem_or_eq_of_mem_set hp with hp | rfl
    · exact hsilent p hp
    · exact hsilent q (List.mem_of_getElem? hq)
  | waitFor hq hwaiting => exact absurd hwaiting.1 (hwaiter hq).1
  | receive hq hsending _ => exact absurd hsending (hwaiter hq).2
  | close => exact ⟨⟨outcome, hwaits⟩, hsilent⟩
  | finish _ _ hends =>
    rcases hends with h | h | h
    · exact absurd h hstage.2.1
    · exact absurd h hstage.2.2.2
    · exact absurd h hstage.2.2.1
  | restart hrestarting => exact absurd hrestarting hstage.2.2.1
  | callbackReturns hcallback => exact absurd hcallback hstage.2.2.2
  | @terminated outcome' _ =>
    refine ⟨⟨outcome', ?_⟩, hsilent⟩
    simp only [destroyStage]
    split_ifs <;> simp
  | @destroyed outcome' _ => exact ⟨⟨outcome', Or.inr (Or.inr rfl)⟩, hsilent⟩

/-- **Once the callback has failed or was cancelled, `looper` is never over: the thread of the new
process was to be started at the head of the loop.** -/
theorem failed_callback_blocks (c : Config) (as bs : List Action) (s t u : Guard) (a : Action)
    (h : Machine.run (step c) as new = some s) (hstage : s.stage = .callback)
    (ha : a = .cancelled ∨ ∃ io, a = .callbackThrows io) (ht : s.step c a = some t)
    (hu : Machine.run (step c) bs t = some u) (outcome : Outcome) : u.stage ≠ .done outcome := by
  have hblocked : t.Blocked := by
    rcases ha with rfl | ⟨io, rfl⟩
    · cases step_does ht with
      | finish _ outcome _ => exact finish_blocked c outcome (run_tracked c h) hstage
    · cases step_does ht with
      | finish _ outcome _ => exact finish_blocked c outcome (run_tracked c h) hstage
  obtain ⟨outcome', hwaits⟩ := (Machine.invariant (step_blocked c) hblocked hu).waits
  rcases hwaits with h | h | h <;> simp [h]

end Guard

end GuardedProcessPool

end SsAndroid
