import SsAndroid.Lib.Text
import SsAndroid.Lib.Machine

/-!
# The service life cycle

`BaseService.Interface` on the main thread: `onStartCommand` launches the connecting job,
`stopRunner` cancels it and cleans up in a coroutine of its own, both share one record of data.
What the main thread does between two suspension points is one step.

* The connecting job is launched with `Dispatchers.Main`, so its body starts in a step of its own;
  cancelled before that, it completes without having run.
* The coroutine of `stopRunner` is launched with `Dispatchers.Main.immediate`: it runs at once, up to
  the join of the connecting job or, if that is over, to the end of the clean-up scope.  Whether the
  scope has to wait for anything is the environment's choice (`pending`).
* A cancelled job does not return normally from a suspension point; it may still fail with any
  exception.
-/

namespace SsAndroid

namespace BaseService

inductive State
  | idle
  | connecting
  | connected
  | stopping
  | stopped
  deriving DecidableEq, Repr

def State.canStop : State → Bool
  | .connecting => true
  | .connected => true
  | _ => false

/-- What the service reads of a profile. -/
structure ProfileRef where
  formattedName : Text
  host : Text
  password : Text
  deriving DecidableEq, Repr

/-- `Core.currentProfile`: the profile and its UDP fallback. -/
abbrev CurrentProfile := Option (ProfileRef × Option ProfileRef)

/-- The suspension points of the connecting job: up to the creation of the process pool, or in
`startProcesses`. -/
inductive Stage
  | init
  | starting
  deriving DecidableEq, Repr

inductive JobStatus
  | scheduled
  | suspended (stage : Stage)
  | completed
  deriving DecidableEq, Repr

structure Job where
  status : JobStatus
  cancelled : Bool
  deriving DecidableEq, Repr

/-- Where a coroutine of `stopRunner` waits: for the connecting job, or for the clean-up. -/
inductive StopStage
  | joining (job : Nat)
  | cleaning
  deriving DecidableEq, Repr

structure Stop where
  stage : StopStage
  restart : Bool
  msg : Option Text
  deriving DecidableEq, Repr

/-- `Data`; a process pool goes by the job that created it, a notification by its title. -/
structure Data where
  state : State
  processes : Option Nat
  proxy : Option ProfileRef
  udpFallback : Option ProfileRef
  notification : Option Text
  closeReceiverRegistered : Bool
  connectingJob : Option Nat
  deriving DecidableEq, Repr

/-- The service: its data, all connecting jobs ever launched, the coroutines of `stopRunner` that
are not over, and what `stateChanged` has told the clients. -/
structure Service where
  data : Data
  jobs : List Job
  stops : List Stop
  broadcasts : List (State × Option Text)
  deriving DecidableEq, Repr

namespace Service

def new : Service where
  data := ⟨.stopped, none, none, none, none, false, none⟩
  jobs := []
  stops := []
  broadcasts := []

def changeState (s : State) (msg : Option Text) (c : Service) : Service :=
  if c.data.state = s ∧ msg = none then c
  else { c with
    data := { c.data with state := s }
    broadcasts := c.broadcasts ++ [(s, msg)] }

/-! ### Stopping -/

/-- The body of the clean-up scope. -/
def cleanUp (c : Service) : Service :=
  { c with
    data := { c.data with
      processes := none
      closeReceiverRegistered := false
      notification := none
      proxy := none
      udpFallback := none } }

def isCompleted (c : Service) (job : Nat) : Bool :=
  match c.jobs[job]? with
  | some j => decide (j.status = .completed)
  | none => true

/-- `cancel()`, which does nothing to a job that is over. -/
def cancelJob (c : Service) (job : Nat) : Service :=
  { c with jobs := c.jobs.modify job fun j =>
      if j.status = .completed then j else { j with cancelled := true } }

/-- The coroutine of `stopRunner` behind the join. -/
def afterJoin (pending restart : Bool) (msg : Option Text) (c : Service) : Service :=
  if pending then { c.cleanUp with stops := c.cleanUp.stops ++ [⟨.cleaning, restart, msg⟩] }
  else changeState .stopped msg c.cleanUp

/-- The coroutine of `stopRunner`, up to where it first waits. -/
def runStop (pending restart : Bool) (msg : Option Text) (c : Service) : Service :=
  match c.data.connectingJob with
  | none => afterJoin pending restart msg c
  | some job =>
      if (c.cancelJob job).isCompleted job then afterJoin pending restart msg (c.cancelJob job)
      else { c.cancelJob job with
        stops := (c.cancelJob job).stops ++ [⟨.joining job, restart, msg⟩] }

def stopRunner (pending restart : Bool) (msg : Option Text) (c : Service) : Service :=
  if c.data.state = .stopping then c
  else runStop pending restart msg (changeState .stopping none c)

/-- A coroutine of `stopRunner` goes on: behind the join if the job is over, or to its end. -/
def resumeStop (k : Nat) (pending : Bool) (c : Service) : Option Service :=
  match c.stops[k]? with
  | none => none
  | some stop =>
      match stop.stage with
      | .joining job =>
          if c.isCompleted job then
            some (afterJoin pending stop.restart stop.msg { c with stops := c.stops.eraseIdx k })
          else none
      | .cleaning => some (changeState .stopped stop.msg { c with stops := c.stops.eraseIdx k })

/-! ### Starting -/

def profileEmpty : Text := "Please select a profile".toList
def proxyEmpty : Text := "Proxy/Password should not be empty".toList
def invalidServer : Text := "Invalid server name".toList
def serviceFailed : Text := "Failed to connect the remote server".toList

/-- `data.connectingJob = GlobalScope.launch(Dispatchers.Main) { .. }`. -/
def launchJob (c : Service) : Service :=
  { c with
    data := { c.data with connectingJob := some c.jobs.length }
    jobs := c.jobs ++ [⟨.scheduled, false⟩] }

def onStartCommand (current : CurrentProfile) (pending : Bool) (c : Service) : Service :=
  if c.data.state ≠ .stopped then c
  else
    match current with
    | none =>
        stopRunner pending false (some profileEmpty)
          { c with data := { c.data with notification := some [] } }
    | some (profile, fallback) =>
        launchJob (changeState .connecting none { c with
          data := { c.data with
            proxy := some profile
            udpFallback := fallback
            closeReceiverRegistered := true
            notification := some profile.formattedName } })

def forceLoad (current : CurrentProfile) (pending : Bool) (c : Service) : Service :=
  match current with
  | none => stopRunner pending false (some profileEmpty) c
  | some (profile, fallback) =>
      if profile.host = [] ∨ profile.password = [] ∨
          (∃ f ∈ fallback, f.host = [] ∨ f.password = []) then
        stopRunner pending false (some proxyEmpty) c
      -- `startRunner` only asks the system for another `onStartCommand`
      else if c.data.state = .stopped then c
      else if c.data.state.canStop then stopRunner pending true none c
      else c

/-! ### The connecting job -/

/-- The exceptions that the connecting job tells apart. -/
inductive Failure
  | cancellation
  | unknownHost
  | other (message : Text)
  deriving DecidableEq, Repr

/-- What a stretch of the connecting job comes to; a failure may happen before or after the process
pool is there. -/
inductive Outcome
  | suspend (stage : Stage)
  | succeed
  | fail (poolCreated : Bool) (failure : Failure)
  deriving DecidableEq, Repr

def setStatus (job : Nat) (status : JobStatus) (c : Service) : Service :=
  { c with jobs := c.jobs.modify job fun j => { j with status := status } }

/-- `data.processes = GuardedProcessPool { .. }`, if that is still to come. -/
def createPool (job : Nat) (created : Bool) (c : Service) : Service :=
  if created then c else { c with data := { c.data with processes := some job } }

def catchFailure (pending : Bool) (failure : Failure) (c : Service) : Service :=
  match failure with
  | .cancellation => c
  | .unknownHost => stopRunner pending false (some invalidServer) c
  | .other message => stopRunner pending false (some (serviceFailed ++ ": ".toList ++ message)) c

/-- `finally { data.connectingJob = null }`, and the job is over. -/
def finallyJob (job : Nat) (c : Service) : Service :=
  setStatus job .completed { c with data := { c.data with connectingJob := none } }

/-- A stretch of the body of a job that was not cancelled; `created` tells whether it has created the
pool in an earlier one. -/
def runBody (job : Nat) (created : Bool) (outcome : Outcome) (pending : Bool) (c : Service) :
    Option Service :=
  match outcome with
  | .suspend .init => if created then none else some (setStatus job (.suspended .init) c)
  | .suspend .starting => some (setStatus job (.suspended .starting) (createPool job created c))
  | .succeed => some (finallyJob job (changeState .connected none (createPool job created c)))
  | .fail poolCreated failure =>
      some (finallyJob job
        (catchFailure pending failure (createPool job (created || !poolCreated) c)))

def resumeJob (job : Nat) (outcome : Outcome) (pending : Bool) (c : Service) : Option Service :=
  match c.jobs[job]? with
  | none => none
  | some j =>
      match j.status with
      | .completed => none
      | .scheduled =>
          -- cancelled before it started, the body does not run, nor does its `finally`
          if j.cancelled then some (setStatus job .completed c)
          else runBody job false outcome pending c
      | .suspended stage =>
          if j.cancelled then
            match outcome with
            | .fail _ failure => some (finallyJob job (catchFailure pending failure c))
            | _ => none
          else runBody job (decide (stage = .starting)) outcome pending c

/-! ### Steps -/

/-- What can happen on the main thread. -/
inductive Action
  | startCommand (current : CurrentProfile) (pending : Bool)
  | stopRunner (restart : Bool) (msg : Option Text) (pending : Bool)
  | forceLoad (current : CurrentProfile) (pending : Bool)
  | fatalExit (message : Text) (pending : Bool)
  | resumeJob (job : Nat) (outcome : Outcome) (pending : Bool)
  | resumeStop (k : Nat) (pending : Bool)
  deriving DecidableEq, Repr

def step (c : Service) : Action → Option Service
  | .startCommand current pending => some (c.onStartCommand current pending)
  | .stopRunner restart msg pending => some (c.stopRunner pending restart msg)
  | .forceLoad current pending => some (c.forceLoad current pending)
  | .fatalExit message pending => some (c.stopRunner pending false (some message))
  | .resumeJob job outcome pending => c.resumeJob job outcome pending
  | .resumeStop k pending => c.resumeStop k pending

end Service

end BaseService

end SsAndroid
