import SsAndroid.Lib.LinkedMap
import SsAndroid.Lib.Machine

/-!
# The default network and its listeners

`DefaultNetworkListener` is an actor: it takes messages from a channel, one after another, and keeps
a table of listeners, the current network and the requests that wait for one.  `receive` is the body
of its loop; what the actor calls on the way (a listener, the response of a request, `register`,
`unregister`) is written down in `calls`.

The lambda of a `start` and the response of a `get` are made for that call, so a listener and a
request go by the number of the message that brought them.  Keys and networks are arbitrary.

An exception ends the actor (`none`): a `Get` without listeners, or a call of the platform that
fails with something `register` does not catch.
-/

namespace SsAndroid

namespace DefaultNetworkListener

inductive NetworkMessage (κ ν : Type)
  | start (key : κ)
  | get
  | stop (key : κ)
  | put (network : ν)
  | update (network : ν)
  | lost (network : ν)
  deriving DecidableEq, Repr

inductive Call (ν : Type)
  | notify (listener : Nat) (network : Option ν)
  | complete (request : Nat) (network : ν)
  | register
  | unregister
  deriving DecidableEq, Repr

/-- How a call of `ConnectivityManager` ends. -/
inductive Answer
  | done
  | securityException
  | otherException
  deriving DecidableEq, Repr

structure Actor (κ ν : Type) where
  listeners : LinkedMap κ Nat
  network : Option ν
  pendingRequests : List Nat
  fallback : Bool
  /-- The platform has `Callback`. -/
  callback : Bool
  /-- The number of messages taken from the channel. -/
  received : Nat
  calls : List (Call ν)

namespace Actor

variable {κ ν : Type}

def new : Actor κ ν where
  listeners := LinkedMap.empty
  network := none
  pendingRequests := []
  fallback := false
  callback := false
  received := 0
  calls := []

def call (a : Actor κ ν) (c : List (Call ν)) : Actor κ ν := { a with calls := a.calls ++ c }

/-- `register()`.  On 24 to 27 nothing is caught. -/
def register (sdk : Nat) (a : Actor κ ν) (answer : Answer) : Option (Actor κ ν) :=
  if 24 ≤ sdk ∧ sdk ≤ 27 then
    match answer with
    | .done => some { a.call [.register] with callback := true }
    | .securityException => none
    | .otherException => none
  else
    match answer with
    | .done => some { a.call [.register] with fallback := false, callback := true }
    | .securityException => some { a.call [.register] with fallback := true }
    | .otherException => none

def unregister (a : Actor κ ν) (answer : Answer) : Option (Actor κ ν) :=
  match answer with
  | .done => some { a.call [.unregister] with callback := false }
  | .securityException => none
  | .otherException => none

/-- `listeners.values.forEach { it(network) }`. -/
def notifyAll (a : Actor κ ν) (network : Option ν) : Actor κ ν :=
  a.call (a.listeners.entries.map fun e => .notify e.2 network)

variable [DecidableEq κ] [DecidableEq ν]

/-- The listener under a new key, or a new listener under a known one. -/
def addListener (a : Actor κ ν) (key : κ) : Actor κ ν :=
  let a := { a with listeners := a.listeners.put key a.received }
  match a.network with
  | some n => a.call [.notify a.received (some n)]
  | none => a

/-- The body of the loop. -/
def handle (sdk : Nat) (a : Actor κ ν) (answer : Answer) : NetworkMessage κ ν → Option (Actor κ ν)
  | .start key =>
      if a.listeners.entries = [] then (a.register sdk answer).map fun a => a.addListener key
      else some (a.addListener key)
  | .get =>
      if a.listeners.entries = [] then none
      else match a.network with
        | none => some { a with pendingRequests := a.pendingRequests ++ [a.received] }
        | some n => some (a.call [.complete a.received n])
  | .stop key =>
      if a.listeners.entries = [] then some a
      else match a.listeners.get? key with
        | none => some a
        | some _ =>
            let a := { a with listeners := a.listeners.remove key }
            if a.listeners.entries = [] then { a with network := none }.unregister answer
            else some a
  | .put network =>
      let a := { a with network := some network }
      let a := a.call (a.pendingRequests.map fun r => .complete r network)
      some ({ a with pendingRequests := [] }.notifyAll a.network)
  | .update network => if a.network = some network then some (a.notifyAll a.network) else some a
  | .lost network =>
      if a.network = some network then some ({ a with network := none }.notifyAll none) else some a

/-- One message is taken from the channel and handled. -/
def receive (sdk : Nat) (a : Actor κ ν) (m : NetworkMessage κ ν × Answer) : Option (Actor κ ν) :=
  (a.handle sdk m.2 m.1).map fun a => { a with received := a.received + 1 }

/-! ### What one message changes -/

/-- The listeners, the network and the waiting requests after a message, and the calls it led to. -/
inductive Change (a : Actor κ ν) :
    LinkedMap κ Nat → Option ν → List Nat → List (Call ν) → Prop
  | started (key : κ) :
      Change a (a.listeners.put key a.received) a.network a.pendingRequests
        ((if a.listeners.entries = [] then [.register] else []) ++
          a.network.toList.map fun n => .notify a.received (some n))
  | asked : a.network = none →
      Change a a.listeners a.network (a.pendingRequests ++ [a.received]) []
  | answered (n : ν) : a.network = some n →
      Change a a.listeners a.network a.pendingRequests [.complete a.received n]
  | ignored : Change a a.listeners a.network a.pendingRequests []
  | stopped (key : κ) : a.listeners.entries ≠ [] → (a.listeners.remove key).entries ≠ [] →
      Change a (a.listeners.remove key) a.network a.pendingRequests []
  | stoppedLast (key : κ) : a.listeners.entries ≠ [] → (a.listeners.remove key).entries = [] →
      Change a (a.listeners.remove key) none a.pendingRequests [.unregister]
  | put (n : ν) :
      Change a a.listeners (some n) []
        (a.pendingRequests.map (fun r => .complete r n) ++
          a.listeners.entries.map fun e => .notify e.2 (some n))
  | updated :
      Change a a.listeners a.network a.pendingRequests
        (a.listeners.entries.map fun e => .notify e.2 a.network)
  | lost :
      Change a a.listeners none a.pendingRequests
        (a.listeners.entries.map fun e => .notify e.2 none)

omit [DecidableEq κ] [DecidableEq ν] in
theorem register_eq {sdk : Nat} {a b : Actor κ ν} {answer : Answer}
    (h : a.register sdk answer = some b) :
    b = { a with
      calls := a.calls ++ [.register], fallback := b.fallback, callback := b.callback } := by
  unfold register at h
  split at h
  · cases answer with
    | done => rw [← Option.some.inj h]; rfl
    | securityException => exact absurd h (by simp)
    | otherException => exact absurd h (by simp)
  · cases answer with
    | done => rw [← Option.some.inj h]; rfl
    | securityException => rw [← Option.some.inj h]; rfl
    | otherException => exact absurd h (by simp)

omit [DecidableEq ν] in
theorem addListener_eq (a : Actor κ ν) (key : κ) :
    a.addListener key = { a with
      listeners := a.listeners.put key a.received
      calls := a.calls ++ a.network.toList.map fun n => .notify a.received (some n) } := by
  rw [addListener]
  cases h : a.network with
  | none => simp
  | some n => simp [call]

/-- The listeners after a message. -/
def listenersAfter (a : Actor κ ν) : NetworkMessage κ ν → LinkedMap κ Nat
  | .start key => a.listeners.put key a.received
  | .stop key => a.listeners.remove key
  | _ => a.listeners

theorem receive_listeners {sdk : Nat} {a b : Actor κ ν} {m : NetworkMessage κ ν} {answer : Answer}
    (h : a.receive sdk (m, answer) = some b) : b.listeners = a.listenersAfter m := by
  obtain ⟨c, hc, rfl⟩ := Option.map_eq_some_iff.mp h
  simp only
  cases m with
  | start key =>
    simp only [handle] at hc
    split at hc
    · obtain ⟨d, hd, rfl⟩ := Option.map_eq_some_iff.mp hc
      rw [addListener_eq, register_eq hd]
      rfl
    · rw [← Option.some.inj hc, addListener_eq]
      rfl
  | get =>
    simp only [handle] at hc
    split at hc
    · exact absurd hc (by simp)
    · split at hc <;> (rw [← Option.some.inj hc]; rfl)
  | stop key =>
    simp only [handle] at hc
    have habsent : a.listeners.get? key = none → a.listeners = a.listeners.remove key := fun h =>
      (a.listeners.remove_of_get?_eq_none key h).symm
    split at hc
    · rename_i hempty
      rw [← Option.some.inj hc]
      exact habsent (by rw [LinkedMap.get?, hempty]; rfl)
    · split at hc
      · rename_i hnone
        rw [← Option.some.inj hc]
        exact habsent hnone
      · split at hc
        · cases answer with
          | done => rw [← Option.some.inj hc]; rfl
          | securityException => exact absurd hc (by simp [unregister])
          | otherException => exact absurd hc (by simp [unregister])
        · rw [← Option.some.inj hc]
          rfl
  | put network => rw [← Option.some.inj hc]; rfl
  | update network =>
    simp only [handle] at hc
    split at hc <;> (rw [← Option.some.inj hc]; rfl)
  | lost network =>
    simp only [handle] at hc
    split at hc <;> (rw [← Option.some.inj hc]; rfl)

end Actor

/-! ### Reading the calls -/

variable {κ ν : Type}

def isCompletion (r : Nat) : Call ν → Bool
  | .complete r' _ => r' = r
  | _ => false

/-- How often a request was completed. -/
def completions (r : Nat) (calls : List (Call ν)) : Nat := calls.countP (isCompletion r)

/-- The calls of `register` (`true`) and `unregister` (`false`). -/
def subscriptions (calls : List (Call ν)) : List Bool :=
  calls.filterMap fun c =>
    match c with
    | .register => some true
    | .unregister => some false
    | _ => none

theorem completions_append (r : Nat) (calls new : List (Call ν)) :
    completions r (calls ++ new) = completions r calls + completions r new :=
  List.countP_append

theorem completions_eq_zero {r : Nat} {calls : List (Call ν)}
    (h : ∀ n, Call.complete r n ∉ calls) : completions r calls = 0 := by
  rw [completions, List.countP_eq_zero]
  intro c hc hr
  cases c with
  | complete r' n =>
    rw [isCompletion, decide_eq_true_eq] at hr
    exact h n (hr ▸ hc)
  | _ => exact absurd hr (by simp [isCompletion])

theorem completions_map (r : Nat) (n : ν) (rs : List Nat) :
    completions r (rs.map fun r => Call.complete r n) = rs.count r := by
  rw [completions, List.countP_map, List.count]
  rfl

theorem subscriptions_append (calls new : List (Call ν)) :
    subscriptions (calls ++ new) = subscriptions calls ++ subscriptions new :=
  List.filterMap_append

theorem subscriptions_map_notify (es : List (κ × Nat)) (v : Option ν) :
    subscriptions (es.map fun e => Call.notify e.2 v) = [] := by
  simp [subscriptions]

theorem subscriptions_map_complete (rs : List Nat) (n : ν) :
    subscriptions (rs.map fun r => Call.complete r n) = [] := by
  simp [subscriptions]

/-! ### What holds after every message -/

variable [DecidableEq κ] [DecidableEq ν]

namespace Actor

omit [DecidableEq ν] in
theorem Change.told {a : Actor κ ν} {listeners : LinkedMap κ Nat} {network : Option ν}
    {pendingRequests : List Nat} {new : List (Call ν)}
    (h : Change a listeners network pendingRequests new) {l : Nat} {v : Option ν}
    (hm : Call.notify l v ∈ new) : l = a.received ∨ ∃ e ∈ a.listeners.entries, e.2 = l := by
  cases h with
  | started key =>
    left
    rcases List.mem_append.mp hm with hm | hm
    · split at hm <;> simp at hm
    · obtain ⟨n, _, heq⟩ := List.mem_map.mp hm
      exact (Call.notify.inj heq).1.symm
  | put n => simp at hm; grind
  | updated => simp at hm; grind
  | lost => simp at hm; grind
  | _ => simp at hm

omit [DecidableEq ν] in
theorem Change.completed {a : Actor κ ν} {listeners : LinkedMap κ Nat} {network : Option ν}
    {pendingRequests : List Nat} {new : List (Call ν)}
    (h : Change a listeners network pendingRequests new) {r : Nat} {n : ν}
    (hm : Call.complete r n ∈ new) :
    network = some n ∧ (r = a.received ∨ r ∈ a.pendingRequests) := by
  cases h with
  | started key =>
    rcases List.mem_append.mp hm with hm | hm
    · split at hm <;> simp at hm
    · simp at hm
  | answered n' hn => simp at hm; grind
  | put n' => simp at hm; grind
  | _ => simp at hm

omit [DecidableEq ν] in
/-- A request is completed or kept, once. -/
theorem Change.count {a : Actor κ ν} {listeners : LinkedMap κ Nat} {network : Option ν}
    {pendingRequests : List Nat} {new : List (Call ν)}
    (h : Change a listeners network pendingRequests new) (r : Nat) :
    completions r new + pendingRequests.count r ≤
      a.pendingRequests.count r + [a.received].count r := by
  have hround : ∀ v, completions r (a.listeners.entries.map fun e => Call.notify e.2 v) =
      (0 : Nat) := fun v : Option ν => completions_eq_zero (by simp)
  cases h with
  | started key =>
    rw [completions_eq_zero]
    · omega
    · intro n hn
      rcases List.mem_append.mp hn with hn | hn
      · split at hn <;> simp at hn
      · simp at hn
  | asked _ =>
    rw [completions_eq_zero (by simp), List.count_append]
    omega
  | answered n hn =>
    have := completions_map r n [a.received]
    rw [List.map_singleton] at this
    omega
  | put n =>
    rw [completions_append, completions_map, hround, List.count_nil]
    omega
  | updated =>
    rw [hround]
    omega
  | lost =>
    rw [hround]
    omega
  | _ =>
    rw [completions_eq_zero (by simp)]
    omega

omit [DecidableEq ν] in
/-- `register` is called when the first listener comes, `unregister` when the last one goes. -/
theorem Change.subscriptions {a : Actor κ ν} {listeners : LinkedMap κ Nat} {network : Option ν}
    {pendingRequests : List Nat} {new : List (Call ν)}
    (h : Change a listeners network pendingRequests new) :
    DefaultNetworkListener.subscriptions new =
      if a.listeners.entries = [] ∧ listeners.entries ≠ [] then [true]
      else if a.listeners.entries ≠ [] ∧ listeners.entries = [] then [false]
      else [] := by
  cases h with
  | started key =>
    have hput := a.listeners.entries_put_ne_nil key a.received
    by_cases hempty : a.listeners.entries = []
    · simp [hempty, hput]
      simp [DefaultNetworkListener.subscriptions]
    · simp [hempty, hput]
      simp [DefaultNetworkListener.subscriptions]
  | stopped key hne hrest => simp [hne, hrest, DefaultNetworkListener.subscriptions]
  | stoppedLast key hne hempty => simp [hne, hempty, DefaultNetworkListener.subscriptions]
  | put n =>
    rw [subscriptions_append, subscriptions_map_complete, subscriptions_map_notify]
    by_cases hempty : a.listeners.entries = [] <;> simp [hempty]
  | updated =>
    rw [subscriptions_map_notify]
    by_cases hempty : a.listeners.entries = [] <;> simp [hempty]
  | lost =>
    rw [subscriptions_map_notify]
    by_cases hempty : a.listeners.entries = [] <;> simp [hempty]
  | _ => 
    by_cases hempty : a.listeners.entries = [] <;>
      simp [hempty, DefaultNetworkListener.subscriptions]

end Actor

end DefaultNetworkListener

end SsAndroid
