import SsAndroid.Net.DefaultNetworkListener

/-!
# VPN services as users of the network listener

`preInit` of a VPN service sends a `Start` with the service as its key.  `killProcesses` sends the
`Stop` from a coroutine: `scope.launch { DefaultNetworkListener.stop(this) }`, and within the block
`this` is the launched coroutine, not the service.

`Services` is the actor with its channel.  The platform calls `Callback` only while it has it, and
`get` sends nothing in the fallback mode.  **`listeners_follow_services`**: when the channel is empty,
the table fits the services that are running exactly if no service was stopped after its last start.
-/

namespace SsAndroid

namespace VpnService

open DefaultNetworkListener

/-- The objects that serve as keys. -/
inductive Key
  | service (id : Nat)
  | coroutine (id : Nat)
  deriving DecidableEq, Repr

structure Services (ν : Type) where
  actor : Actor Key ν
  channel : List (NetworkMessage Key ν)
  /-- The number of coroutines launched. -/
  launched : Nat

inductive Action (ν : Type)
  | preInit (service : Nat)
  | killProcesses (service : Nat)
  /-- `resolver` or `openConnection` of some service. -/
  | get
  | onAvailable (network : ν)
  | onCapabilitiesChanged (network : ν)
  | onLost (network : ν)
  /-- The actor takes a message; how the platform would answer it. -/
  | receive (answer : Answer)
  deriving DecidableEq, Repr

namespace Services

variable {ν : Type}

def new : Services ν := ⟨Actor.new, [], 0⟩

def send (s : Services ν) (m : NetworkMessage Key ν) : Services ν :=
  { s with channel := s.channel ++ [m] }

variable [DecidableEq ν]

def step (sdk : Nat) (s : Services ν) : Action ν → Option (Services ν)
  | .preInit service => some (s.send (.start (.service service)))
  | .killProcesses _ =>
      some { s.send (.stop (.coroutine s.launched)) with launched := s.launched + 1 }
  | .get => if s.actor.fallback then none else some (s.send .get)
  | .onAvailable network => if s.actor.callback then some (s.send (.put network)) else none
  | .onCapabilitiesChanged network =>
      if s.actor.callback then some (s.send (.update network)) else none
  | .onLost network => if s.actor.callback then some (s.send (.lost network)) else none
  | .receive answer =>
      match s.channel with
      | [] => none
      | m :: rest =>
          (s.actor.receive sdk (m, answer)).map fun a => { s with actor := a, channel := rest }

end Services

variable {ν : Type}

/-- A service was started more recently than it was stopped. -/
def running (service : Nat) (as : List (Action ν)) : Bool :=
  as.foldl (fun b a =>
    match a with
    | .preInit i => if i = service then true else b
    | .killProcesses i => if i = service then false else b
    | _ => b) false

/-- The listeners are those of running services; without one, nothing is left of them. -/
def Follows (as : List (Action ν)) (s : Services ν) : Prop :=
  (∀ i, (s.actor.listeners.get? (.service i)).isSome → running i as) ∧
  ((∀ i, ¬ running i as) →
    s.actor.listeners.entries = [] ∧ s.actor.network = none ∧ s.actor.callback = false)

/-! ### What the actor knows of the services -/

/-- Nothing a service does takes a listener out of the table. -/
structure Kept (as : List (Action ν)) (s : Services ν) : Prop where
  stops : ∀ k, NetworkMessage.stop k ∈ s.channel → ∃ n, k = .coroutine n
  keys : ∀ e ∈ s.actor.listeners.entries, ∃ i, e.1 = .service i ∧ Action.preInit i ∈ as
  starts : ∀ k, NetworkMessage.start k ∈ s.channel → ∃ i, k = .service i ∧ Action.preInit i ∈ as
  started : ∀ i, Action.preInit i ∈ as →
    (s.actor.listeners.get? (.service i)).isSome ∨ NetworkMessage.start (.service i) ∈ s.channel

/-- Before the first start the actor has nothing to do. -/
def Quiet (as : List (Action ν)) (s : Services ν) : Prop :=
  (∀ i, Action.preInit i ∉ as) →
    s.actor.listeners.entries = [] ∧ s.actor.network = none ∧ s.actor.callback = false ∧
      ∀ m ∈ s.channel, m = .get ∨ ∃ k, m = .stop k

variable [DecidableEq ν]

omit [DecidableEq ν] in
theorem send_kept {as : List (Action ν)} {s : Services ν} {a : Action ν}
    {m : NetworkMessage Key ν} (hs : Kept as s)
    (hstop : ∀ k, m = .stop k → ∃ n, k = .coroutine n)
    (hstart : ∀ k, m = .start k → ∃ i, k = .service i ∧ a = .preInit i)
    (ha : ∀ i, a = .preInit i → m = .start (.service i)) : Kept (as ++ [a]) (s.send m) := by
  constructor
  · intro k hk
    rcases List.mem_append.mp hk with hk | hk
    · exact hs.stops k hk
    · exact hstop k (List.mem_singleton.mp hk).symm
  · intro e he
    obtain ⟨i, hi, hmem⟩ := hs.keys e he
    exact ⟨i, hi, List.mem_append_left _ hmem⟩
  · intro k hk
    rcases List.mem_append.mp hk with hk | hk
    · obtain ⟨i, hi, hmem⟩ := hs.starts k hk
      exact ⟨i, hi, List.mem_append_left _ hmem⟩
    · obtain ⟨i, hi, rfl⟩ := hstart k (List.mem_singleton.mp hk).symm
      exact ⟨i, hi, by simp⟩
  · intro i hi
    rcases List.mem_append.mp hi with hi | hi
    · exact (hs.started i hi).imp_right (List.mem_append_left _)
    · rw [ha i (List.mem_singleton.mp hi).symm]
      exact Or.inr (by simp [Services.send])

theorem receive_kept {sdk : Nat} {as : List (Action ν)} {s : Services ν} {answer : Answer}
    {m : NetworkMessage Key ν} {rest : List (NetworkMessage Key ν)} {b : Actor Key ν}
    (hs : Kept as s) (hchannel : s.channel = m :: rest)
    (hb : s.actor.receive sdk (m, answer) = some b) :
    Kept (as ++ [.receive answer]) { s with actor := b, channel := rest } := by
  have hlisteners := Actor.receive_listeners hb
  have hrest : ∀ m' ∈ rest, m' ∈ s.channel := by
    intro m' hm'
    rw [hchannel]
    exact List.mem_cons_of_mem _ hm'
  have hm : m ∈ s.channel := by
    rw [hchannel]
    exact List.mem_cons_self
  have hstill : ∀ {k : Key}, (∃ i, k = .service i ∧ Action.preInit i ∈ as) →
      ∃ i, k = .service i ∧ Action.preInit i ∈ as ++ [.receive answer] := by
    rintro k ⟨i, hi, hmem⟩
    exact ⟨i, hi, List.mem_append_left _ hmem⟩
  constructor
  · exact fun k hk => hs.stops k (hrest _ hk)
  · intro e he
    apply hstill
    simp only [hlisteners] at he
    cases m with
    | start key =>
      rcases LinkedMap.mem_putEntries he with rfl | he
      · exact hs.starts key hm
      · exact hs.keys e he
    | stop key => exact hs.keys e ((LinkedMap.mem_remove _ _ _).mp he).1
    | _ => exact hs.keys e he
  · exact fun k hk => hstill (hs.starts k (hrest _ hk))
  · intro i hi
    have hi : Action.preInit i ∈ as := by simpa using hi
    simp only [hlisteners]
    have hold := hs.started i hi
    rw [hchannel] at hold
    cases m with
    | start key =>
      by_cases hkey : Key.service i = key
      · left
        simp [Actor.listenersAfter, hkey]
      · have hne : NetworkMessage.start (Key.service i) ≠
            (NetworkMessage.start key : NetworkMessage Key ν) := by simpa using hkey
        simpa [Actor.listenersAfter, hkey, hne] using hold
    | stop key =>
      obtain ⟨n, rfl⟩ := hs.stops key hm
      have habsent : s.actor.listeners.get? (.coroutine n) = none := by
        rw [LinkedMap.get?_eq_none_iff]
        intro hmem
        obtain ⟨e, he, heq⟩ := List.mem_map.mp hmem
        obtain ⟨j, hj, _⟩ := hs.keys e he
        exact absurd (heq.symm.trans hj) (by simp)
      simpa [Actor.listenersAfter, LinkedMap.remove_of_get?_eq_none _ _ habsent] using hold
    | _ => simpa [Actor.listenersAfter] using hold

theorem step_kept {sdk : Nat} (as : List (Action ν)) (s : Services ν) (a : Action ν)
    (s' : Services ν) (hs : Kept as s) (h : s.step sdk a = some s') : Kept (as ++ [a]) s' := by
  cases a with
  | preInit service =>
    rw [← Option.some.inj h]
    exact send_kept hs (by simp) (by simp) (by simp)
  | killProcesses service =>
    rw [← Option.some.inj h]
    have := send_kept (a := .killProcesses service) (m := .stop (.coroutine s.launched)) hs
      (by simp) (by simp) (by simp)
    exact ⟨this.stops, this.keys, this.starts, this.started⟩
  | get =>
    obtain ⟨_, rfl⟩ : s.actor.fallback = false ∧ s.send .get = s' := by
      simpa [Services.step] using h
    exact send_kept hs (by simp) (by simp) (by simp)
  | onAvailable network =>
    obtain ⟨_, rfl⟩ : s.actor.callback = true ∧ s.send (.put network) = s' := by
      simpa [Services.step] using h
    exact send_kept hs (by simp) (by simp) (by simp)
  | onCapabilitiesChanged network =>
    obtain ⟨_, rfl⟩ : s.actor.callback = true ∧ s.send (.update network) = s' := by
      simpa [Services.step] using h
    exact send_kept hs (by simp) (by simp) (by simp)
  | onLost network =>
    obtain ⟨_, rfl⟩ : s.actor.callback = true ∧ s.send (.lost network) = s' := by
      simpa [Services.step] using h
    exact send_kept hs (by simp) (by simp) (by simp)
  | receive answer =>
    simp only [Services.step] at h
    split at h
    · exact absurd h (by simp)
    · rename_i m rest hchannel
      obtain ⟨b, hb, rfl⟩ := Option.map_eq_some_iff.mp h
      exact receive_kept hs hchannel hb

/-- Without listeners a `Get` ends the actor and a `Stop` does nothing. -/
theorem receive_quiet {sdk : Nat} {a b : Actor Key ν} {answer : Answer}
    {m : NetworkMessage Key ν} (hempty : a.listeners.entries = [])
    (hm : m = .get ∨ ∃ k, m = .stop k) (h : a.receive sdk (m, answer) = some b) :
    b = { a with received := a.received + 1 } := by
  rcases hm with rfl | ⟨k, rfl⟩
  · exact absurd h (by simp [Actor.receive, Actor.handle, hempty])
  · rw [Actor.receive, Actor.handle, if_pos hempty] at h
    exact (Option.some.inj h).symm

theorem step_quiet {sdk : Nat} (as : List (Action ν)) (s : Services ν) (a : Action ν)
    (s' : Services ν) (hs : Quiet as s) (h : s.step sdk a = some s') : Quiet (as ++ [a]) s' := by
  intro hnone
  obtain ⟨hempty, hnetwork, hcallback, hchannel⟩ := hs fun i hi =>
    hnone i (List.mem_append_left _ hi)
  have hsend : ∀ m : NetworkMessage Key ν, (m = .get ∨ ∃ k, m = .stop k) →
      ∀ m' ∈ s.channel ++ [m], m' = .get ∨ ∃ k, m' = .stop k := by
    intro m hm m' hm'
    rcases List.mem_append.mp hm' with hm' | hm'
    · exact hchannel m' hm'
    · rw [List.mem_singleton.mp hm']
      exact hm
  cases a with
  | preInit service => exact absurd (List.mem_append_right _ List.mem_cons_self) (hnone service)
  | killProcesses service =>
    rw [← Option.some.inj h]
    exact ⟨hempty, hnetwork, hcallback, hsend _ (Or.inr ⟨_, rfl⟩)⟩
  | get =>
    obtain ⟨_, rfl⟩ : s.actor.fallback = false ∧ s.send .get = s' := by
      simpa [Services.step] using h
    exact ⟨hempty, hnetwork, hcallback, hsend _ (Or.inl rfl)⟩
  | receive answer =>
    simp only [Services.step] at h
    split at h
    · exact absurd h (by simp)
    · rename_i m rest hrest
      obtain ⟨b, hb, rfl⟩ := Option.map_eq_some_iff.mp h
      rw [hrest] at hchannel
      rw [receive_quiet hempty (hchannel m List.mem_cons_self) hb]
      exact ⟨hempty, hnetwork, hcallback, fun m' hm' => hchannel m' (List.mem_cons_of_mem _ hm')⟩
  | _ => exact absurd h (by simp [Services.step, hcallback])

/-- **When all messages are handled, the listeners are those of the running services exactly if no
service was stopped after its last start.** -/
theorem listeners_follow_services (sdk : Nat) (as : List (Action ν)) (s : Services ν)
    (h : Machine.run (Services.step sdk) as Services.new = some s) (hchannel : s.channel = []) :
    Follows as s ↔ ∀ i, Action.preInit i ∈ as → running i as := by
  have hkept : Kept as s := Machine.history
    ⟨by simp [Services.new], by simp [Services.new, Actor.new, LinkedMap.empty],
      by simp [Services.new], by simp⟩ (fun as s a s' _ => step_kept as s a s') h
  have hquiet : Quiet as s := Machine.history
    (fun _ => ⟨rfl, rfl, rfl, by simp [Services.new]⟩) (fun as s a s' _ => step_quiet as s a s') h
  constructor
  · intro hfollows i hi
    rcases hkept.started i hi with hsome | hsent
    · exact hfollows.1 i hsome
    · rw [hchannel] at hsent
      exact absurd hsent (by simp)
  · intro hrunning
    constructor
    · intro i hi
      obtain ⟨l, hl⟩ := Option.isSome_iff_exists.mp hi
      obtain ⟨j, hj, hmem⟩ := hkept.keys _ ((LinkedMap.get?_eq_some_iff _ _ _).mp hl)
      rw [Key.service.inj hj]
      exact hrunning j hmem
    · intro hstopped
      obtain ⟨hempty, hnetwork, hcallback, _⟩ := hquiet fun i hi => hstopped i (hrunning i hi)
      exact ⟨hempty, hnetwork, hcallback⟩

/-- A service starts, a network comes, the service stops. -/
def startStop : List (Action Nat) :=
  [.preInit 0, .receive .done, .onAvailable 7, .receive .done, .killProcesses 0, .receive .done]

theorem listeners_follow_services_running :
    ∃ s : Services Nat, Machine.run (Services.step 28) (startStop.take 4) Services.new = some s ∧
      s.channel = [] ∧ (Follows (startStop.take 4) s ↔
        ∀ i, Action.preInit i ∈ startStop.take 4 → running i (startStop.take 4)) :=
  ⟨_, rfl, rfl, listeners_follow_services 28 (startStop.take 4) _ rfl rfl⟩

/-- The stopped service still has its listener, and the platform its callback. -/
theorem stopped_service_listens :
    ∃ s : Services Nat, Machine.run (Services.step 28) startStop Services.new = some s ∧
      s.channel = [] ∧ s.actor.listeners.get? (.service 0) = some 0 ∧ s.actor.callback = true ∧
      s.actor.network = some 7 ∧ running 0 startStop = false ∧ ¬ Follows startStop s := by
  refine ⟨_, rfl, rfl, rfl, rfl, rfl, rfl, ?_⟩
  intro hfollows
  exact absurd (hfollows.1 0 rfl) (by decide)

end VpnService

end SsAndroid
