import SsAndroid.Lib.Machine
import SsAndroid.Libev.LocalRequest

/-!
# The callbacks of a connection

`step_calls` is the inversion of `step`: libev calls back only what is watched, and a callback does one
of nine things (`Calls`).

The first use of it is the choice of the remote, which the system makes in one of the callbacks (the
access control list and `create_remote`, as one of its answers).  **`run_route`**: the choice that a
connection has is the answer of a callback of its run.
-/

namespace SsAndroid

namespace Local

open Crypto (Streams)

variable {G E D : Type} {C : Streams G E D} {cfg : Config}

/-- **What a callback does.** -/
inductive Calls (C : Streams G E D) (cfg : Config) (s : Conn G E D) : Event G → Conn G E D → Prop where
  | read (a : Answers) (bytes : List UInt8) (watched : s.recvOn = true) (nonempty : bytes ≠ [])
      (fits : bytes.length ≤ socketBufSize - s.recvBuf.length) :
      Calls C cfg s (.serverRecv (.bytes bytes) a) (recvLoop C cfg a 3 (s.received bytes))
  | readAgain (a : Answers) : Calls C cfg s (.serverRecv .again a) { s with delayedOn := false }
  | closes (e : Event G) : Calls C cfg s e s.close
  | delayed (a : Answers) (watched : s.delayedOn = true) :
      Calls C cfg s (.delayedConnect a) (recvLoop C cfg a 3 { s with delayedOn := false })
  | sends (sent : Sent) (watched : s.sendOn = true) : Calls C cfg s (.serverSend sent) (serverSend sent s)
  | remoteReads (r : Remote) (bytes : List UInt8) (sent : Sent) (remote : s.remote = some r)
      (watched : r.recvOn = true) :
      Calls C cfg s (.remoteRecv (.bytes bytes) sent) (remoteRecv C sent bytes s r)
  | remoteReadsAgain (sent : Sent) : Calls C cfg s (.remoteRecv .again sent) s
  | remoteSends (r : Remote) (peer : Bool) (sent : Sent) (remote : s.remote = some r)
      (watched : r.sendOn = true) : Calls C cfg s (.remoteSend peer sent) (remoteSend peer sent s r)
  | elsewhere (shared : G) : Calls C cfg s (.elsewhere shared) { s with shared := shared }

theorem step_calls {s s' : Conn G E D} {e : Event G} (hs : step C cfg s e = some s') :
    Calls C cfg s e s' := by
  cases e with
  | serverRecv recv a =>
    unfold step at hs
    dsimp only at hs
    split at hs
    · cases hs
    rename_i hon
    cases recv with
    | bytes bytes =>
      dsimp only at hs
      split at hs
      · cases hs
      rename_i hfits
      rw [← Option.some.inj hs]
      exact .read a bytes (by simpa using hon) (fun h => hfits (.inl h))
        (Nat.le_of_not_lt fun h => hfits (.inr h))
    | eof => exact Option.some.inj hs ▸ .closes _
    | again => exact Option.some.inj hs ▸ .readAgain a
    | failed => exact Option.some.inj hs ▸ .closes _
  | delayedConnect a =>
    unfold step at hs
    dsimp only at hs
    split at hs
    · cases hs
    rename_i hon
    exact Option.some.inj hs ▸ .delayed a (by simpa using hon)
  | serverSend sent =>
    unfold step at hs
    dsimp only at hs
    split at hs
    · cases hs
    rename_i hon
    exact Option.some.inj hs ▸ .sends sent (by simpa using hon)
  | remoteRecv recv sent =>
    unfold step at hs
    dsimp only at hs
    split at hs
    · cases hs
    rename_i r hr
    split at hs
    · cases hs
    rename_i hon
    cases recv with
    | bytes bytes =>
      dsimp only at hs
      split at hs
      · cases hs
      exact Option.some.inj hs ▸ .remoteReads r bytes sent hr (by simpa using hon)
    | eof => exact Option.some.inj hs ▸ .closes _
    | again => exact Option.some.inj hs ▸ .remoteReadsAgain sent
    | failed => exact Option.some.inj hs ▸ .closes _
  | remoteSend peer sent =>
    unfold step at hs
    dsimp only at hs
    split at hs
    · cases hs
    rename_i r hr
    split at hs
    · cases hs
    rename_i hon
    exact Option.some.inj hs ▸ .remoteSends r peer sent hr (by simpa using hon)
  | remoteTimeout =>
    unfold step at hs
    dsimp only at hs
    split at hs
    · cases hs
    split at hs
    · cases hs
    exact Option.some.inj hs ▸ .closes _
  | elsewhere shared => exact Option.some.inj hs ▸ .elsewhere shared

/-! ### The choice of the remote -/

/-- What the system answers in a callback in which the remote may be chosen. -/
def Event.answers : Event G → Option Answers
  | .serverRecv _ a | .delayedConnect a => some a
  | .serverSend _ | .remoteRecv _ _ | .remoteSend _ _ | .remoteTimeout | .elsewhere _ => none

theorem selectMethod_route (a : Answers) (s : Conn G E D) : (selectMethod a s).2.route = s.route := by
  obtain h | h | ⟨_, _, _, _, _, _, h⟩ | ⟨_, _, _, _, h⟩ := selectMethod_cases a s <;> rw [h] <;> rfl

theorem serverHandshakeReply_route (a : Answers) (udpAssc : Bool) (s : Conn G E D) :
    (serverHandshakeReply a udpAssc s).2.route = s.route := by
  rw [serverHandshakeReply]
  split
  · rfl
  split
  · rfl
  · dsimp only
    split <;> rfl

theorem connectRemote_route (a : Answers) (abuf : List UInt8) (sniffed : Sniffed) (s : Conn G E D) :
    (connectRemote C cfg a abuf sniffed s).2.route = s.route ∨
      (connectRemote C cfg a abuf sniffed s).2.route = a.route := by
  rw [connectRemote]
  split
  · exact .inl rfl
  · split
    · exact .inl rfl
    · refine .inr ?_
      rw [attachRemote]
      dsimp only
      split <;> rfl

theorem serverHandshake_route (a : Answers) (s : Conn G E D) :
    (serverHandshake C cfg a s).2.route = s.route ∨ (serverHandshake C cfg a s).2.route = a.route := by
  rw [serverHandshake]
  cases hrequest : parseRequest s.buf with
  | more => exact .inl rfl
  | udpAssociate => exact .inl (serverHandshakeReply_route a true s)
  | badCommand => exact .inl rfl
  | moreAddress atyp => exact .inl rfl
  | badAddress atyp => exact .inl rfl
  | connect abuf =>
    have hreply := serverHandshakeReply_route a false { s with abuf := some abuf }
    dsimp only
    split
    · exact .inl hreply
    split
    · exact .inl hreply
    · refine (connectRemote_route a abuf _ _).imp (fun h => h.trans ?_) id
      exact hreply

theorem serverStream_route (a : Answers) (s : Conn G E D) : (serverStream C a s).route = s.route := by
  have hconnect : ∀ (s : Conn G E D) (r : Remote), (connectStream a s r).route = s.route := by
    intro s r
    rw [connectStream]
    split
    · rfl
    split
    · split <;> rfl
    · split <;> rfl
  have hsend : ∀ (s : Conn G E D) (r : Remote), (sendStream a s r).route = s.route := by
    intro s r
    rw [sendStream]
    split
    · rfl
    · rfl
    · dsimp only
      split <;> rfl
  rw [serverStream]
  split
  · rfl
  rename_i r _
  split
  · rfl
  rename_i s' r' hencrypt
  have hkeep : s'.route = s.route := by
    rw [encryptStream] at hencrypt
    split at hencrypt
    · rw [(Prod.mk.inj (Option.some.inj hencrypt)).1]
    · obtain ⟨x, -, hx⟩ := Option.map_eq_some_iff.mp hencrypt
      rw [← (Prod.mk.inj hx).1]
  split
  · exact (hconnect s' r').trans hkeep
  · exact (hsend s' r').trans hkeep

theorem recvLoop_route (a : Answers) (n : Nat) : ∀ s : Conn G E D,
    (recvLoop C cfg a n s).route = s.route ∨ (recvLoop C cfg a n s).route = a.route := by
  induction n with
  | zero => exact fun s => .inl rfl
  | succ n ih =>
    intro s
    rw [recvLoop]
    have hround : ∀ x : Bool × Conn G E D, x.2.route = s.route ∨ x.2.route = a.route →
        (if x.1 then recvLoop C cfg a n x.2 else x.2).route = s.route ∨
          (if x.1 then recvLoop C cfg a n x.2 else x.2).route = a.route := by
      intro x hx
      split
      · obtain h | h := ih x.2
        · rwa [h]
        · exact .inr h
      · exact hx
    split
    · exact .inl (serverStream_route a s)
    · exact hround _ (.inl (selectMethod_route a s))
    · exact hround _ (serverHandshake_route a s)
    · exact hround _ (serverHandshake_route a s)

theorem serverSend_route (sent : Sent) (s : Conn G E D) : (serverSend sent s).route = s.route := by
  unfold serverSend
  split
  · rfl
  split
  · rfl
  · rfl
  · dsimp only
    split <;> rfl

theorem remoteRecv_route (sent : Sent) (bytes : List UInt8) (s : Conn G E D) (r : Remote) :
    (remoteRecv C sent bytes s r).route = s.route := by
  have htell : ∀ s : Conn G E D, (tellClient sent s r).route = s.route := by
    intro s
    unfold tellClient
    split
    · rfl
    · rfl
    · dsimp only
      split <;> rfl
  rw [remoteRecv]
  dsimp only
  split
  · exact htell _
  split
  · rfl
  · rfl
  · exact htell _

theorem remoteSend_route (peer : Bool) (sent : Sent) (s : Conn G E D) (r : Remote) :
    (remoteSend peer sent s r).route = s.route := by
  have hflush : ∀ (s : Conn G E D) (r : Remote), (remoteFlush sent s r).route = s.route := by
    intro s r
    unfold remoteFlush
    split
    · rfl
    split
    · rfl
    · rfl
    · dsimp only
      split <;> rfl
  rw [remoteSend]
  split
  · split
    · rfl
    · dsimp only
      split
      · rfl
      · exact hflush _ _
  · exact hflush s r

/-- **A callback leaves the choice as it is, or makes the one that the system answers in it.** -/
theorem step_route {s s' : Conn G E D} {e : Event G} (hs : step C cfg s e = some s') :
    s'.route = s.route ∨ ∃ a, e.answers = some a ∧ s'.route = a.route := by
  cases step_calls hs with
  | read a bytes =>
    refine (recvLoop_route a 3 (s.received bytes)).imp (fun h => h.trans ?_) fun h => ⟨a, rfl, h⟩
    rw [Conn.received]
    dsimp only
    split <;> rfl
  | delayed a =>
    exact (recvLoop_route a 3 { s with delayedOn := false }).imp id fun h => ⟨a, rfl, h⟩
  | sends sent => exact .inl (serverSend_route sent s)
  | remoteReads r bytes sent => exact .inl (remoteRecv_route sent bytes s r)
  | remoteSends r peer sent => exact .inl (remoteSend_route peer sent s r)
  | readAgain => exact .inl rfl
  | closes => exact .inl rfl
  | remoteReadsAgain => exact .inl rfl
  | elsewhere => exact .inl rfl

/-- In one of the callbacks the system answered with this choice. -/
def Chosen (es : List (Event G)) (direct : Bool) : Prop :=
  ∃ e ∈ es, ∃ a, e.answers = some a ∧ a.route = some direct

/-- **The choice that a connection has was made in its run.** -/
theorem run_route {es : List (Event G)} {s s₀ : Conn G E D} (h0 : s₀.route = none)
    (hrun : Machine.run (step C cfg) es s₀ = some s) :
    ∀ direct, s.route = some direct → Chosen es direct := by
  refine Machine.history (I := fun es s => ∀ direct, s.route = some direct → Chosen es direct) ?_ ?_ hrun
  · intro direct h
    rw [h0] at h
    cases h
  · intro es s e s' _ ih hs direct h
    obtain hsame | ⟨a, ha, hroute⟩ := step_route hs
    · obtain ⟨e', he', hchosen⟩ := ih direct (hsame.symm.trans h)
      exact ⟨e', List.mem_append_left _ he', hchosen⟩
    · exact ⟨e, List.mem_append_right _ (List.mem_singleton_self e), a, ha, hroute.symm.trans h⟩

/-- The remote is of the kind that was chosen, and the system chose it in one of the callbacks. -/
structure Routed (es : List (Event G)) (s : Conn G E D) : Prop where
  chosen : ∀ direct, s.route = some direct → Chosen es direct
  kept : ∀ r, s.remote = some r → s.route = some r.direct

end Local

end SsAndroid
