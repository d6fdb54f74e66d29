import SsAndroid.Bg.BaseService
import SsAndroid.Bg.GuardedTraffic
import SsAndroid.Lib.LinkedMap

/-!
# The binder of the service

`Binder` is what the clients of the service hold.  It outlives the sessions of the service: clients
register callbacks, listen for the bandwidth with a timeout of their own, stop or die, while a session
connects, reports traffic and stops.  One coroutine, `loop`, polls the traffic for all listeners; it
is started with the first of them and cancelled with the last.  Another, `updatePerSec`, counts
seconds from the first listener on and posts a keepalive every thirty seconds of them.

What the main thread does between two suspension points is one step, and the clients' calls are
handled there in any order.  A check that fails on the way stops the machine (`failure`).

**`bandwidth_listeners`**: in every run no check fails, the one polling loop there is runs exactly
while somebody listens, and the table has the clients whose last event was a start, each with the
timeout of that start.
-/

namespace SsAndroid

/-- `operator fun plus`. -/
def TrafficStats.plus (a b : TrafficStats) : TrafficStats where
  txRate := toLong (a.txRate + b.txRate)
  rxRate := toLong (a.rxRate + b.rxRate)
  txTotal := toLong (a.txTotal + b.txTotal)
  rxTotal := toLong (a.rxTotal + b.rxTotal)

/-- What the binder reads of a `ProxyInstance`. -/
structure ProxyTraffic where
  profileId : Int
  trafficMonitor : Option RateMonitor := none

/-- `acceptInternal` of the proxy's monitor. -/
def ProxyTraffic.accept (p : ProxyTraffic) (tx rx : Int) : ProxyTraffic :=
  { p with trafficMonitor := p.trafficMonitor.map fun m => m.accept tx rx }

/-- A coroutine that executes `loop`: it waits in `delay`, or is over. -/
inductive LoopStatus
  | delaying (timeout : Int)
  | returned
  | cancelled
  deriving DecidableEq

/-- `cancel()`, which does nothing to a coroutine that is over. -/
def LoopStatus.cancel : LoopStatus → LoopStatus
  | .delaying _ => .cancelled
  | status => status

/-- What can be seen of the binder: the service gets connected, one client is told the statistics,
the listeners are, and a keepalive is posted. -/
inductive BinderEvent (κ : Type)
  | connected
  | told (client : κ) (updates : List (Int × TrafficStats))
  | broadcast (receivers : List κ) (updates : List (Int × TrafficStats)) (sum : TrafficStats)
  | keepalive (rx tx : Int)

/-- `Binder` with the part of `Data` it reads; `log` has the newest event first. -/
structure Binder (κ : Type) where
  state : BaseService.State := .stopped
  proxy : Option ProxyTraffic := none
  udpFallback : Option ProxyTraffic := none
  callbacks : List κ := []
  bandwidthListeners : LinkedMap κ Int := LinkedMap.empty
  looper : Option Nat := none
  jobs : List LoopStatus := []
  /-- `updatePerSecEr` is not null. -/
  updatePerSecEr : Bool := false
  secondCount : Int := 0
  rx : Int := 0
  tx : Int := 0
  log : List (BinderEvent κ) := []
  failure : Option Exn := none

inductive BinderAction (κ : Type)
  | registerCallback (cb : κ)
  /-- The list of callbacks forgets one that is unregistered or dead. -/
  | forgetCallback (cb : κ)
  | startListeningForBandwidth (cb : κ) (timeout : Int)
  | stopListeningForBandwidth (cb : κ)
  | unregisterCallback (cb : κ)
  | onCallbackDied (cb : κ)
  | onStartCommand (profile : Int) (fallback : Option Int)
  | startProxy (fallback : Bool)
  | connected
  | stopRunner
  | stopped
  | report (fallback : Bool) (tx rx : Int)
  /-- A loop's `delay` is over; the calls of the clients in `failing` throw. -/
  | resumeLoop (job : Nat) (now nowFallback : Int) (failing : List κ)
  | second

namespace Binder

variable {κ : Type} [DecidableEq κ]

/-! ### Listening -/

/-- The head of the loop: `delay(bandwidthListeners.values.min() ?: return)`. -/
def loopHead (listeners : LinkedMap κ Int) : LoopStatus :=
  match (listeners.entries.map Prod.snd).min? with
  | some timeout => .delaying timeout
  | none => .returned

/-- `looper = launch { loop() }`; the loop runs at once, up to its first `delay`. -/
def launchLoop (b : Binder κ) : Binder κ :=
  { b with looper := some b.jobs.length, jobs := b.jobs ++ [loopHead b.bandwidthListeners] }

/-- The statistics a client gets that starts to listen. -/
def currentStats (b : Binder κ) : List (Int × TrafficStats) :=
  match b.proxy with
  | none => []
  | some proxy =>
      let out := fun p : ProxyTraffic => (p.trafficMonitor.map RateMonitor.out).getD {}
      let all := proxy :: b.udpFallback.toList
      all.map (fun p => (p.profileId, out p)) ++
        [(0, all.foldl (fun sum p => match p.trafficMonitor with
          | none => sum
          | some m => sum.plus m.out) {})]

/-- The coroutine of `startListeningForBandwidth`.  Both operands of `and` are evaluated: the table
is looked at before the client is put into it, and it is put there in any case. -/
def startListeningForBandwidth (b : Binder κ) (cb : κ) (timeout : Int) : Except Exn (Binder κ) :=
  let first := b.bandwidthListeners.entries.isEmpty && (b.bandwidthListeners.get? cb).isNone
  let b := { b with bandwidthListeners := b.bandwidthListeners.put cb timeout }
  if first && b.looper.isSome then .error (.illegalState "Check failed.")
  else
    let b := if first then b.launchLoop else b
    let b := { b with updatePerSecEr := true }
    if b.state = .connected then .ok { b with log := .told cb b.currentStats :: b.log }
    else .ok b

/-- The coroutine of `stopListeningForBandwidth`. -/
def stopListeningForBandwidth (b : Binder κ) (cb : κ) : Except Exn (Binder κ) :=
  let removed := (b.bandwidthListeners.get? cb).isSome
  let b := { b with bandwidthListeners := b.bandwidthListeners.remove cb }
  if removed && b.bandwidthListeners.entries.isEmpty then
    match b.looper with
    | none => .error .nullPointer
    | some job => .ok { b with looper := none, jobs := b.jobs.modify job LoopStatus.cancel }
  else .ok b

/-! ### Polling -/

/-- `it.trafficMonitor?.requestUpdate()`, with the proxy after it. -/
def requestUpdate (now : Int) (p : ProxyTraffic) :
    ProxyTraffic × Option (Int × TrafficStats × Bool) :=
  match p.trafficMonitor with
  | none => (p, none)
  | some m => ({ p with trafficMonitor := some (m.requestUpdate now).1 },
      some (p.profileId, (m.requestUpdate now).2))

/-- The clients that get a broadcast: registered, listening and able to receive. -/
def receivers (b : Binder κ) (failing : List κ) : List κ :=
  b.callbacks.filter fun cb => (b.bandwidthListeners.get? cb).isSome && cb ∉ failing

/-- The broadcast of `loop`.  `rx` and `tx` are set behind the last call to a client, in the work for
that client: if nobody receives, they stay. -/
def broadcastStats (b : Binder κ) (stats : List (Int × TrafficStats × Bool)) (failing : List κ) :
    Binder κ :=
  let sum := stats.foldl (fun a s => a.plus s.2.1) {}
  match b.receivers failing with
  | [] => b
  | cb :: cbs => { b with
      rx := sum.rxTotal
      tx := sum.txTotal
      log := .broadcast (cb :: cbs) (stats.map fun s => (s.1, s.2.1)) sum :: b.log }

/-- The body of the loop, behind `delay`. -/
def poll (b : Binder κ) (now nowFallback : Int) (failing : List κ) : Binder κ :=
  let main := b.proxy.map (requestUpdate now)
  let fallback := b.udpFallback.map (requestUpdate nowFallback)
  let b := { b with proxy := main.map Prod.fst, udpFallback := fallback.map Prod.fst }
  let stats := (main.toList ++ fallback.toList).filterMap Prod.snd
  if stats.any (fun s => s.2.2) ∧ b.state = .connected ∧ b.bandwidthListeners.entries ≠ [] then
    b.broadcastStats stats failing
  else b

/-- One round of a loop that is not over. -/
def resumeLoop (b : Binder κ) (job : Nat) (now nowFallback : Int) (failing : List κ) :
    Option (Binder κ) :=
  match b.jobs[job]? with
  | some (.delaying _) =>
      let b := b.poll now nowFallback failing
      some { b with jobs := b.jobs.set job (loopHead b.bandwidthListeners) }
  | _ => none

/-- One round of `updatePerSec`. -/
def updatePerSec (b : Binder κ) : Binder κ :=
  let b := { b with secondCount := b.secondCount + 1 }
  if b.state = .connected ∧ b.secondCount % 30 = 0 then
    { b with log := .keepalive b.rx b.tx :: b.log }
  else b

/-! ### Sessions -/

/-- The states of a session, as far as the binder sees them. -/
def sessionStep (b : Binder κ) : BinderAction κ → Option (Binder κ)
  | .onStartCommand profile fallback =>
      if b.state = .stopped then
        some { b with
          state := .connecting
          proxy := some { profileId := profile }
          udpFallback := fallback.map fun id => { profileId := id } }
      else none
  | .startProxy fallback =>
      if b.state = .connecting then
        let start := fun p : ProxyTraffic => { p with trafficMonitor := some {} }
        some (if fallback then { b with udpFallback := b.udpFallback.map start }
          else { b with proxy := b.proxy.map start })
      else none
  | .connected =>
      if b.state = .connecting then some { b with state := .connected, log := .connected :: b.log }
      else none
  | .stopRunner =>
      if b.state = .stopped ∨ b.state = .connecting ∨ b.state = .connected then
        some { b with state := .stopping }
      else none
  | .stopped =>
      if b.state = .stopping then
        some { b with state := .stopped, proxy := none, udpFallback := none }
      else none
  | .report fallback tx rx =>
      some (if fallback then { b with udpFallback := b.udpFallback.map fun p => p.accept tx rx }
        else { b with proxy := b.proxy.map fun p => p.accept tx rx })
  | _ => none

/-- A coroutine that throws ends the process. -/
def handle (b : Binder κ) (result : Except Exn (Binder κ)) : Binder κ :=
  match result with
  | .ok b' => b'
  | .error e => { b with failure := some e }

def act (b : Binder κ) : BinderAction κ → Option (Binder κ)
  | .registerCallback cb =>
      some { b with callbacks := if cb ∈ b.callbacks then b.callbacks else b.callbacks ++ [cb] }
  | .forgetCallback cb => some { b with callbacks := b.callbacks.erase cb }
  | .startListeningForBandwidth cb timeout =>
      some (b.handle (b.startListeningForBandwidth cb timeout))
  | .stopListeningForBandwidth cb => some (b.handle (b.stopListeningForBandwidth cb))
  | .unregisterCallback cb => some (b.handle (b.stopListeningForBandwidth cb))
  | .onCallbackDied cb => some (b.handle (b.stopListeningForBandwidth cb))
  | .resumeLoop job now nowFallback failing => b.resumeLoop job now nowFallback failing
  | .second => if b.updatePerSecEr then some b.updatePerSec else none
  | a => b.sessionStep a

def step (b : Binder κ) (a : BinderAction κ) : Option (Binder κ) :=
  if b.failure.isSome then none else b.act a

theorem act_of_step {b b' : Binder κ} {a : BinderAction κ} (h : b.step a = some b') :
    b.act a = some b' := by
  unfold step at h
  split_ifs at h
  exact h

/-! ### What the steps do to the listeners -/

/-- The table, the looper and its jobs are as they were, and nothing has failed. -/
structure SameLoop (b b' : Binder κ) : Prop where
  failure : b'.failure = b.failure
  listeners : b'.bandwidthListeners = b.bandwidthListeners
  looper : b'.looper = b.looper
  jobs : b'.jobs = b.jobs

omit [DecidableEq κ] in
theorem SameLoop.refl (b : Binder κ) : SameLoop b b := ⟨rfl, rfl, rfl, rfl⟩

theorem broadcastStats_same (b : Binder κ) (stats : List (Int × TrafficStats × Bool))
    (failing : List κ) : SameLoop b (b.broadcastStats stats failing) := by
  unfold broadcastStats
  split
  · exact SameLoop.refl b
  · exact ⟨rfl, rfl, rfl, rfl⟩

theorem poll_same (b : Binder κ) (now nowFallback : Int) (failing : List κ) :
    SameLoop b (b.poll now nowFallback failing) := by
  unfold poll
  dsimp only
  split_ifs
  · obtain ⟨hfailure, hlisteners, hlooper, hjobs⟩ := broadcastStats_same
      { b with
        proxy := (b.proxy.map (requestUpdate now)).map Prod.fst
        udpFallback := (b.udpFallback.map (requestUpdate nowFallback)).map Prod.fst }
      (((b.proxy.map (requestUpdate now)).toList ++
        (b.udpFallback.map (requestUpdate nowFallback)).toList).filterMap Prod.snd) failing
    exact ⟨hfailure, hlisteners, hlooper, hjobs⟩
  · exact ⟨rfl, rfl, rfl, rfl⟩

omit [DecidableEq κ] in
theorem updatePerSec_same (b : Binder κ) : SameLoop b b.updatePerSec := by
  unfold updatePerSec
  dsimp only
  split_ifs <;> exact ⟨rfl, rfl, rfl, rfl⟩

omit [DecidableEq κ] in
theorem sessionStep_same {b b' : Binder κ} {a : BinderAction κ} (h : b.sessionStep a = some b') :
    SameLoop b b' := by
  cases a <;> simp only [sessionStep, reduceCtorEq] at h <;> split_ifs at h <;>
    (obtain rfl := Option.some.inj h; exact ⟨rfl, rfl, rfl, rfl⟩)

/-- The loop of `job` has not ended. -/
def Running (b : Binder κ) (job : Nat) : Prop := ∃ timeout, b.jobs[job]? = some (.delaying timeout)

/-- What holds between two steps. -/
structure Sound (b : Binder κ) : Prop where
  failure : b.failure = none
  looper : ∀ job, b.Running job ↔ b.looper = some job
  listening : b.looper.isSome = true ↔ b.bandwidthListeners.entries ≠ []

omit [DecidableEq κ] in
theorem SameLoop.sound {b b' : Binder κ} (h : SameLoop b b') (hs : b.Sound) : b'.Sound := by
  refine ⟨h.failure.trans hs.failure, ?_, ?_⟩
  · intro job
    rw [Running, h.jobs, h.looper]
    exact hs.looper job
  · rw [h.looper, h.listeners]
    exact hs.listening

omit [DecidableEq κ] in
theorem loopHead_delaying {listeners : LinkedMap κ Int} (h : listeners.entries ≠ []) :
    ∃ timeout, loopHead listeners = .delaying timeout := by
  cases hmin : (listeners.entries.map Prod.snd).min? with
  | none =>
    rw [List.min?_eq_none_iff, List.map_eq_nil_iff] at hmin
    exact absurd hmin h
  | some timeout => exact ⟨timeout, by rw [loopHead, hmin]⟩

/-- **The loop that is resumed keeps running**: nobody has emptied the table without cancelling it. -/
theorem resumeLoop_sound {b b' : Binder κ} {job : Nat} {now nowFallback : Int} {failing : List κ}
    (hs : b.Sound) (h : b.resumeLoop job now nowFallback failing = some b') :
    b'.Sound ∧ b'.bandwidthListeners = b.bandwidthListeners := by
  unfold resumeLoop at h
  split at h
  case h_2 => exact absurd h (by simp)
  case h_1 timeout hjob =>
    have hpoll := poll_same b now nowFallback failing
    have hlooper : b.looper = some job := (hs.looper job).mp ⟨timeout, hjob⟩
    have hentries : (b.poll now nowFallback failing).bandwidthListeners.entries ≠ [] := by
      rw [hpoll.listeners]
      exact hs.listening.mp (by rw [hlooper]; rfl)
    obtain ⟨next, hnext⟩ := loopHead_delaying hentries
    have hlength : job < b.jobs.length := (List.getElem?_eq_some_iff.mp hjob).1
    obtain rfl := Option.some.inj h
    refine ⟨⟨hpoll.failure.trans hs.failure, ?_, ?_⟩, hpoll.listeners⟩
    · intro other
      show (∃ t, ((b.poll now nowFallback failing).jobs.set job _)[other]? = some (.delaying t)) ↔ _
      rw [hnext, hpoll.jobs, List.getElem?_set]
      show _ ↔ (b.poll now nowFallback failing).looper = some other
      rw [hpoll.looper]
      by_cases hother : job = other
      · rw [if_pos hother, if_pos hlength]
        exact iff_of_true ⟨next, rfl⟩ (hother ▸ hlooper)
      · rw [if_neg hother]
        exact hs.looper other
    · show (b.poll now nowFallback failing).looper.isSome = true ↔ _
      rw [hpoll.looper, hpoll.listeners]
      exact hs.listening

/-- **The first listener starts the loop, every other only changes the table.** -/
theorem startListening_sound {b : Binder κ} (hs : b.Sound) (cb : κ) (timeout : Int) :
    ∃ b', b.startListeningForBandwidth cb timeout = .ok b' ∧ b'.Sound ∧
      b'.bandwidthListeners = b.bandwidthListeners.put cb timeout := by
  have hput := b.bandwidthListeners.entries_put_ne_nil cb timeout
  unfold startListeningForBandwidth
  by_cases hempty : b.bandwidthListeners.entries = []
  · -- nobody listens, so there is no loop, and the one that is launched finds the new client
    have hget : b.bandwidthListeners.get? cb = none := by
      rw [LinkedMap.get?_eq_none_iff, hempty]
      exact List.not_mem_nil
    have hlooper : b.looper = none := by
      by_contra hne
      exact hs.listening.mp (Option.isSome_iff_ne_none.mpr hne) hempty
    obtain ⟨delay, hdelay⟩ := loopHead_delaying hput
    have hrunning : ∀ job, (∃ t, (b.jobs ++ [LoopStatus.delaying delay])[job]? =
        some (.delaying t)) ↔ some b.jobs.length = some job := by
      intro job
      rw [List.getElem?_append]
      split_ifs with hlt
      · have hnot : ¬ b.Running job := by
          rw [hs.looper job, hlooper]
          exact Option.some_ne_none job |>.symm
        exact iff_of_false hnot (by rintro h; exact absurd (Option.some.inj h) (by omega))
      · rcases Nat.eq_or_lt_of_not_lt hlt with heq | hgt
        · subst heq
          simp
        · rw [List.getElem?_eq_none (by simp; omega)]
          simp only [reduceCtorEq, exists_false, Option.some.injEq, false_iff]
          omega
    have hsound : ∀ log, Sound { b with
        bandwidthListeners := b.bandwidthListeners.put cb timeout
        looper := some b.jobs.length
        jobs := b.jobs ++ [.delaying delay]
        updatePerSecEr := true
        log := log } :=
      fun log => ⟨hs.failure, hrunning, iff_of_true rfl hput⟩
    simp only [hempty, hget, hlooper, List.isEmpty_nil, Option.isNone_none, Bool.and_self,
      Option.isSome_none, Bool.and_false, Bool.false_eq_true, if_false, if_true, launchLoop, hdelay]
    split_ifs
    · exact ⟨_, rfl, hsound _, rfl⟩
    · exact ⟨_, rfl, hsound _, rfl⟩
  · have hsound : ∀ log, Sound { b with
        bandwidthListeners := b.bandwidthListeners.put cb timeout
        updatePerSecEr := true
        log := log } :=
      fun log => ⟨hs.failure, hs.looper, iff_of_true (hs.listening.mpr hempty) hput⟩
    have hnotEmpty : b.bandwidthListeners.entries.isEmpty = false :=
      Bool.eq_false_iff.mpr fun h => hempty (List.isEmpty_iff.mp h)
    simp only [hnotEmpty, Bool.false_and, Bool.false_eq_true, if_false]
    split_ifs
    · exact ⟨_, rfl, hsound _, rfl⟩
    · exact ⟨_, rfl, hsound _, rfl⟩

/-- **The last listener that leaves stops the loop, every other only changes the table.** -/
theorem stopListening_sound {b : Binder κ} (hs : b.Sound) (cb : κ) :
    ∃ b', b.stopListeningForBandwidth cb = .ok b' ∧ b'.Sound ∧
      b'.bandwidthListeners = b.bandwidthListeners.remove cb := by
  unfold stopListeningForBandwidth
  by_cases hlast : (b.bandwidthListeners.get? cb).isSome = true ∧
      (b.bandwidthListeners.remove cb).entries = []
  · obtain ⟨hget, hempty⟩ := hlast
    have hentries : b.bandwidthListeners.entries ≠ [] := by
      intro hnil
      rw [LinkedMap.get?, hnil] at hget
      exact absurd hget (by simp)
    obtain ⟨job, hjob⟩ := Option.isSome_iff_exists.mp (hs.listening.mpr hentries)
    simp only [hget, hempty, hjob, List.isEmpty_nil, Bool.and_self, if_true]
    refine ⟨_, rfl, ⟨hs.failure, ?_, iff_of_false (by simp) (fun h => h hempty)⟩, rfl⟩
    intro other
    refine iff_of_false ?_ (by simp)
    rintro ⟨timeout, hother⟩
    rw [List.getElem?_modify] at hother
    split_ifs at hother with hsame
    · -- the loop that was running is cancelled
      obtain ⟨status, -, hstatus⟩ := Option.map_eq_some_iff.mp hother
      cases status <;> simp [LoopStatus.cancel] at hstatus
    · rw [id_map'] at hother
      have hrunning := (hs.looper other).mp ⟨timeout, hother⟩
      rw [hjob] at hrunning
      exact hsame (Option.some.inj hrunning)
  · have hcond : ((b.bandwidthListeners.get? cb).isSome &&
        (b.bandwidthListeners.remove cb).entries.isEmpty) = false := by
      rw [Bool.eq_false_iff]
      intro h
      rw [Bool.and_eq_true, List.isEmpty_iff] at h
      exact hlast h
    simp only [hcond, Bool.false_eq_true, if_false]
    refine ⟨_, rfl, ⟨hs.failure, hs.looper, hs.listening.trans ?_⟩, rfl⟩
    show b.bandwidthListeners.entries ≠ [] ↔ (b.bandwidthListeners.remove cb).entries ≠ []
    by_cases hget : b.bandwidthListeners.get? cb = none
    · rw [LinkedMap.remove_of_get?_eq_none _ _ hget]
    · have hsome := Option.isSome_iff_ne_none.mpr hget
      refine iff_of_true ?_ fun h => hlast ⟨hsome, h⟩
      intro hnil
      exact hget (by rw [LinkedMap.get?, hnil]; rfl)

/-! ### Every run -/

/-- What an action means for the entry of a client: a start sets it, a stop, an unregistration or a
death of the client takes it away. -/
def entryAfter (cb : κ) (before : Option Int) : BinderAction κ → Option Int
  | .startListeningForBandwidth cb' timeout => if cb = cb' then some timeout else before
  | .stopListeningForBandwidth cb' => if cb = cb' then none else before
  | .unregisterCallback cb' => if cb = cb' then none else before
  | .onCallbackDied cb' => if cb = cb' then none else before
  | _ => before

/-- The timeout of the last event of a client, if that was a start. -/
def lastStart (cb : κ) (as : List (BinderAction κ)) : Option Int := as.foldl (entryAfter cb) none

theorem handle_stopListening_sound {b : Binder κ} (hs : b.Sound) (cb : κ) :
    (b.handle (b.stopListeningForBandwidth cb)).Sound ∧
      ∀ c, (b.handle (b.stopListeningForBandwidth cb)).bandwidthListeners.get? c =
        if c = cb then none else b.bandwidthListeners.get? c := by
  obtain ⟨b', hb', hsound, hlisteners⟩ := stopListening_sound hs cb
  rw [hb']
  refine ⟨hsound, ?_⟩
  intro c
  show b'.bandwidthListeners.get? c = _
  rw [hlisteners, LinkedMap.get?_remove]

/-- **One step.** -/
theorem step_sound {b b' : Binder κ} {a : BinderAction κ} (hs : b.Sound) (h : b.step a = some b') :
    b'.Sound ∧ ∀ cb, b'.bandwidthListeners.get? cb =
      entryAfter cb (b.bandwidthListeners.get? cb) a := by
  have hsame : SameLoop b b' → b'.Sound ∧ ∀ cb,
      b'.bandwidthListeners.get? cb = b.bandwidthListeners.get? cb :=
    fun hsame => ⟨hsame.sound hs, fun cb => by rw [hsame.listeners]⟩
  replace h := act_of_step h
  cases a with
  | registerCallback cb =>
    obtain rfl := Option.some.inj h
    exact hsame ⟨rfl, rfl, rfl, rfl⟩
  | forgetCallback cb =>
    obtain rfl := Option.some.inj h
    exact hsame ⟨rfl, rfl, rfl, rfl⟩
  | startListeningForBandwidth cb timeout =>
    obtain ⟨b₁, hb₁, hsound, hlisteners⟩ := startListening_sound hs cb timeout
    obtain rfl := Option.some.inj h
    rw [hb₁]
    refine ⟨hsound, ?_⟩
    intro c
    show b₁.bandwidthListeners.get? c = _
    rw [hlisteners, LinkedMap.get?_put, entryAfter]
  | stopListeningForBandwidth cb =>
    obtain rfl := Option.some.inj h
    exact handle_stopListening_sound hs cb
  | unregisterCallback cb =>
    obtain rfl := Option.some.inj h
    exact handle_stopListening_sound hs cb
  | onCallbackDied cb =>
    obtain rfl := Option.some.inj h
    exact handle_stopListening_sound hs cb
  | resumeLoop job now nowFallback failing =>
    obtain ⟨hsound, hlisteners⟩ := resumeLoop_sound hs h
    exact ⟨hsound, fun cb => by rw [hlisteners]; rfl⟩
  | second =>
    simp only [act] at h
    split_ifs at h
    obtain rfl := Option.some.inj h
    exact hsame (updatePerSec_same b)
  | onStartCommand profile fallback => exact hsame (sessionStep_same (a := (.onStartCommand profile fallback)) h)
  | startProxy fallback => exact hsame (sessionStep_same (a := (.startProxy fallback)) h)
  | connected => exact hsame (sessionStep_same (a := .connected) h)
  | stopRunner => exact hsame (sessionStep_same (a := .stopRunner) h)
  | stopped => exact hsame (sessionStep_same (a := .stopped) h)
  | report fallback tx rx => exact hsame (sessionStep_same (a := (.report fallback tx rx)) h)

omit [DecidableEq κ] in
theorem new_sound : ({} : Binder κ).Sound := by
  refine ⟨rfl, ?_, iff_of_false (by simp) (fun h => h rfl)⟩
  intro job
  exact iff_of_false (by rintro ⟨timeout, h⟩; simp at h) (by simp)

theorem run_sound {as : List (BinderAction κ)} {b : Binder κ} (h : Machine.run step as {} = some b) :
    b.Sound ∧ ∀ cb, b.bandwidthListeners.get? cb = lastStart cb as := by
  refine Machine.history (I := fun as b => b.Sound ∧
    ∀ cb, b.bandwidthListeners.get? cb = lastStart cb as) ⟨new_sound, fun cb => rfl⟩ ?_ h
  intro as s a s' _ hI hstep
  obtain ⟨hsound, hentry⟩ := step_sound hI.1 hstep
  refine ⟨hsound, ?_⟩
  intro cb
  rw [hentry cb, hI.2 cb, lastStart, lastStart, List.foldl_append]
  rfl

/-- A call or the death of a client. -/
def ClientEvent : BinderAction κ → Prop
  | .startListeningForBandwidth _ _ => True
  | .stopListeningForBandwidth _ => True
  | .unregisterCallback _ => True
  | .onCallbackDied _ => True
  | _ => False

/-- **The bandwidth listeners.**  After every run of the binder: no check has failed and every event
of a client can be handled; there is a looper exactly while somebody listens, and the loops that have
not ended are that one; and a client is in the table exactly if its last event was a start, with the
timeout of that start. -/
theorem bandwidth_listeners (as : List (BinderAction κ)) (b : Binder κ)
    (h : Machine.run step as {} = some b) :
    b.failure = none ∧ (∀ a, ClientEvent a → ∃ b', b.step a = some b' ∧ b'.failure = none) ∧
    ((∃ job, b.Running job) ↔ b.bandwidthListeners.entries ≠ []) ∧
    (∀ job, b.Running job ↔ b.looper = some job) ∧
    (∀ i j, b.Running i → b.Running j → i = j) ∧
    ∀ cb, b.bandwidthListeners.get? cb = lastStart cb as := by
  obtain ⟨hs, hentry⟩ := run_sound h
  refine ⟨hs.failure, ?_, ?_, hs.looper, ?_, hentry⟩
  · intro a ha
    have hsome : ∃ b', b.step a = some b' := by
      unfold step
      rw [if_neg (by rw [hs.failure]; exact Bool.false_ne_true)]
      cases a <;> first | exact absurd ha id | exact ⟨_, rfl⟩
    obtain ⟨b', hb'⟩ := hsome
    exact ⟨b', hb', (step_sound hs hb').1.failure⟩
  · rw [← hs.listening, Option.isSome_iff_exists]
    exact exists_congr hs.looper
  · intro i j hi hj
    exact Option.some.inj (((hs.looper i).mp hi).symm.trans ((hs.looper j).mp hj))

/-- Two clients listen, one changes its timeout, and both leave, one of them twice. -/
def twoListeners : List (BinderAction Nat) :=
  [.startListeningForBandwidth 1 500, .startListeningForBandwidth 2 300, .resumeLoop 0 300 300 [],
    .startListeningForBandwidth 1 200, .stopListeningForBandwidth 2, .onCallbackDied 2]

theorem bandwidth_listeners_twoListeners :
    ∃ b, Machine.run step twoListeners {} = some b ∧ b.looper = some 0 ∧
      b.bandwidthListeners.get? 1 = some 200 ∧ b.bandwidthListeners.get? 2 = none := by
  have h := bandwidth_listeners twoListeners _ rfl
  exact ⟨_, rfl, rfl, h.2.2.2.2.2 1, h.2.2.2.2.2 2⟩

end Binder

end SsAndroid
