import SsAndroid.Bg.Binder

/-!
# Keepalives

Every thirty seconds of its clock the binder posts the totals it broadcast last.  The totals are kept
in the binder, the sessions come and go: until the first broadcast of a session they are those of a
session before it.

**`keepalives`**: the keepalives of a run have the totals last broadcast in their own session exactly
when each of them is due after the session has broadcast its traffic, or after an earlier session whose
last broadcast had no bytes in it.
-/

namespace SsAndroid

namespace Binder

variable {κ : Type}

/-- The totals, received and sent, of the last broadcast since the service got connected. -/
def lastBroadcast : List (BinderEvent κ) → Option (Int × Int)
  | [] => none
  | .connected :: _ => none
  | .broadcast _ _ sum :: _ => some (sum.rxTotal, sum.txTotal)
  | .told _ _ :: log => lastBroadcast log
  | .keepalive _ _ :: log => lastBroadcast log

/-- The totals of the last broadcast there was, in whichever session. -/
def lastTotals : List (BinderEvent κ) → Option (Int × Int)
  | [] => none
  | .connected :: log => lastTotals log
  | .broadcast _ _ sum :: _ => some (sum.rxTotal, sum.txTotal)
  | .told _ _ :: log => lastTotals log
  | .keepalive _ _ :: log => lastTotals log

theorem lastTotals_of_lastBroadcast {log : List (BinderEvent κ)} {totals : Int × Int}
    (h : lastBroadcast log = some totals) : lastTotals log = some totals := by
  induction log with
  | nil => exact absurd h (by simp [lastBroadcast])
  | cons e log ih =>
    cases e with
    | connected => exact absurd h (by simp [lastBroadcast])
    | broadcast receivers updates sum => exact h
    | told cb updates => exact ih h
    | keepalive rx tx => exact ih h

/-- Every keepalive has the totals last broadcast in its session, or zero. -/
def OwnTotals (log : List (BinderEvent κ)) : Prop :=
  ∀ newer rx tx older, log = newer ++ .keepalive rx tx :: older →
    (rx, tx) = (lastBroadcast older).getD (0, 0)

/-- When a keepalive is due, the session has broadcast already, or the last broadcast of the sessions
before it had no bytes in it, or there was none. -/
def Settled (b : Binder κ) : BinderAction κ → Prop
  | .second => b.state = .connected → (b.secondCount + 1) % 30 = 0 →
      (lastBroadcast b.log).isSome = true ∨ ∀ totals ∈ lastTotals b.log, totals = (0, 0)
  | _ => True

instance (b : Binder κ) : ∀ a, Decidable (b.Settled a)
  | .second => inferInstanceAs (Decidable (_ → _))
  | .registerCallback _ | .forgetCallback _ | .startListeningForBandwidth _ _
  | .stopListeningForBandwidth _ | .unregisterCallback _ | .onCallbackDied _
  | .onStartCommand _ _ | .startProxy _ | .connected | .stopRunner | .stopped | .report _ _ _
  | .resumeLoop _ _ _ _ => inferInstanceAs (Decidable True)

/-- **What one step writes**: the totals that are kept, and the log. -/
inductive Writes (b : Binder κ) (a : BinderAction κ) (b' : Binder κ) : Prop
  | nothing (hlog : b'.log = b.log) (hrx : b'.rx = b.rx) (htx : b'.tx = b.tx)
  | connected (hlog : b'.log = .connected :: b.log) (hrx : b'.rx = b.rx) (htx : b'.tx = b.tx)
  | told (cb : κ) (updates : List (Int × TrafficStats)) (hlog : b'.log = .told cb updates :: b.log)
      (hrx : b'.rx = b.rx) (htx : b'.tx = b.tx)
  | broadcast (receivers : List κ) (updates : List (Int × TrafficStats)) (sum : TrafficStats)
      (hlog : b'.log = .broadcast receivers updates sum :: b.log) (hrx : b'.rx = sum.rxTotal)
      (htx : b'.tx = sum.txTotal)
  | keepalive (ha : a = .second) (hstate : b.state = .connected)
      (hdue : (b.secondCount + 1) % 30 = 0) (hlog : b'.log = .keepalive b.rx b.tx :: b.log)
      (hrx : b'.rx = b.rx) (htx : b'.tx = b.tx)

variable {b b' : Binder κ} {a : BinderAction κ}

theorem sessionStep_writes (h : b.sessionStep a = some b') : Writes b a b' := by
  cases a with
  | connected =>
    simp only [sessionStep] at h
    split_ifs at h
    obtain rfl := Option.some.inj h
    exact .connected rfl rfl rfl
  | registerCallback | forgetCallback | startListeningForBandwidth | stopListeningForBandwidth
  | unregisterCallback | onCallbackDied | resumeLoop | second =>
    simp only [sessionStep, reduceCtorEq] at h
  | onStartCommand | startProxy | stopRunner | stopped | report =>
    simp only [sessionStep] at h
    split_ifs at h <;> (obtain rfl := Option.some.inj h; exact .nothing rfl rfl rfl)

theorem updatePerSec_writes (b : Binder κ) : Writes b .second b.updatePerSec := by
  unfold updatePerSec
  dsimp only
  split_ifs with hpost
  · exact .keepalive rfl hpost.1 hpost.2 rfl rfl rfl
  · exact .nothing rfl rfl rfl

variable [DecidableEq κ]

theorem broadcastStats_writes (b : Binder κ) (a : BinderAction κ)
    (stats : List (Int × TrafficStats × Bool)) (failing : List κ) :
    Writes b a (b.broadcastStats stats failing) := by
  unfold broadcastStats
  split
  · exact .nothing rfl rfl rfl
  · exact .broadcast _ _ _ rfl rfl rfl

theorem resumeLoop_writes {job : Nat} {now nowFallback : Int} {failing : List κ}
    (h : b.resumeLoop job now nowFallback failing = some b') : Writes b a b' := by
  unfold resumeLoop at h
  split at h
  case h_2 => exact absurd h (by simp)
  case h_1 =>
    obtain rfl := Option.some.inj h
    simp only [poll]
    split_ifs with hbroadcast
    · rcases broadcastStats_writes _ a _ failing with ⟨hlog, hrx, htx⟩ | ⟨hlog, hrx, htx⟩ |
        ⟨cb, updates, hlog, hrx, htx⟩ | ⟨receivers, updates, sum, hlog, hrx, htx⟩ |
        ⟨ha, hstate, hdue, hlog, hrx, htx⟩
      · exact .nothing hlog hrx htx
      · exact .connected hlog hrx htx
      · exact .told cb updates hlog hrx htx
      · exact .broadcast receivers updates sum hlog hrx htx
      · exact .keepalive ha hstate hdue hlog hrx htx
    · exact .nothing rfl rfl rfl

theorem handle_stopListening_writes (b : Binder κ) (a : BinderAction κ) (cb : κ) :
    Writes b a (b.handle (b.stopListeningForBandwidth cb)) := by
  unfold stopListeningForBandwidth
  dsimp only
  split_ifs
  · cases b.looper with
    | none => exact .nothing rfl rfl rfl
    | some job => exact .nothing rfl rfl rfl
  · exact .nothing rfl rfl rfl

theorem handle_startListening_writes (b : Binder κ) (a : BinderAction κ) (cb : κ) (timeout : Int) :
    Writes b a (b.handle (b.startListeningForBandwidth cb timeout)) := by
  unfold startListeningForBandwidth
  dsimp only
  split_ifs <;> first | exact .nothing rfl rfl rfl | exact .told _ _ rfl rfl rfl

theorem step_writes (h : b.step a = some b') : Writes b a b' := by
  replace h := act_of_step h
  cases a with
  | registerCallback cb =>
    obtain rfl := Option.some.inj h
    exact .nothing rfl rfl rfl
  | forgetCallback cb =>
    obtain rfl := Option.some.inj h
    exact .nothing rfl rfl rfl
  | startListeningForBandwidth cb timeout =>
    obtain rfl := Option.some.inj h
    exact handle_startListening_writes b _ cb timeout
  | stopListeningForBandwidth cb =>
    obtain rfl := Option.some.inj h
    exact handle_stopListening_writes b _ cb
  | unregisterCallback cb =>
    obtain rfl := Option.some.inj h
    exact handle_stopListening_writes b _ cb
  | onCallbackDied cb =>
    obtain rfl := Option.some.inj h
    exact handle_stopListening_writes b _ cb
  | resumeLoop job now nowFallback failing => exact resumeLoop_writes h
  | second =>
    simp only [act] at h
    split_ifs at h
    obtain rfl := Option.some.inj h
    exact updatePerSec_writes b
  | onStartCommand profile fallback => exact sessionStep_writes (a := (.onStartCommand profile fallback)) h
  | startProxy fallback => exact sessionStep_writes (a := (.startProxy fallback)) h
  | connected => exact sessionStep_writes (a := .connected) h
  | stopRunner => exact sessionStep_writes (a := .stopRunner) h
  | stopped => exact sessionStep_writes (a := .stopped) h
  | report fallback tx rx => exact sessionStep_writes (a := (.report fallback tx rx)) h

/-- The totals kept are those of the last broadcast there was. -/
def KeepsTotals (b : Binder κ) : Prop := (b.rx, b.tx) = (lastTotals b.log).getD (0, 0)

theorem step_keepsTotals (hkeeps : b.KeepsTotals) (h : b.step a = some b') : b'.KeepsTotals := by
  unfold KeepsTotals at hkeeps ⊢
  rcases step_writes h with ⟨hlog, hrx, htx⟩ | ⟨hlog, hrx, htx⟩ | ⟨cb, updates, hlog, hrx, htx⟩ |
    ⟨receivers, updates, sum, hlog, hrx, htx⟩ | ⟨-, -, -, hlog, hrx, htx⟩
  · rw [hlog, hrx, htx, hkeeps]
  · rw [hlog, hrx, htx, hkeeps, lastTotals]
  · rw [hlog, hrx, htx, hkeeps, lastTotals]
  · rw [hlog, hrx, htx]
    rfl
  · rw [hlog, hrx, htx, hkeeps, lastTotals]

omit [DecidableEq κ] in
/-- A keepalive that is due now has the session's own totals exactly if the session has broadcast, or the
sessions before it left none. -/
theorem keepalive_own_iff (hkeeps : b.KeepsTotals) :
    (b.rx, b.tx) = (lastBroadcast b.log).getD (0, 0) ↔
      (lastBroadcast b.log).isSome = true ∨ ∀ totals ∈ lastTotals b.log, totals = (0, 0) := by
  rw [hkeeps]
  cases hown : lastBroadcast b.log with
  | some totals =>
    rw [lastTotals_of_lastBroadcast hown]
    exact iff_of_true rfl (.inl rfl)
  | none =>
    cases lastTotals b.log with
    | none => exact iff_of_true rfl (.inr (by simp))
    | some totals => simp

omit [DecidableEq κ] in
theorem ownTotals_cons_iff {e : BinderEvent κ} {log : List (BinderEvent κ)} :
    OwnTotals (e :: log) ↔ OwnTotals log ∧
      ∀ rx tx, e = .keepalive rx tx → (rx, tx) = (lastBroadcast log).getD (0, 0) := by
  constructor
  · intro h
    refine ⟨?_, ?_⟩
    · intro newer rx tx older hsplit
      exact h (e :: newer) rx tx older (by rw [hsplit, List.cons_append])
    · rintro rx tx rfl
      exact h [] rx tx log rfl
  · rintro ⟨h, he⟩ newer rx tx older hsplit
    cases newer with
    | nil =>
      obtain ⟨hevent, rfl⟩ := List.cons.inj hsplit
      exact he rx tx hevent
    | cons e' newer => exact h newer rx tx older (List.cons.inj hsplit).2

/-- A keepalive once sent is never taken back. -/
theorem ownTotals_of_step (h : b.step a = some b') (hown : OwnTotals b'.log) : OwnTotals b.log := by
  rcases step_writes h with ⟨hlog, -, -⟩ | ⟨hlog, -, -⟩ | ⟨cb, updates, hlog, -, -⟩ |
    ⟨receivers, updates, sum, hlog, -, -⟩ | ⟨-, -, -, hlog, -, -⟩
  · rwa [hlog] at hown
  all_goals
    rw [hlog] at hown
    exact (ownTotals_cons_iff.mp hown).1

/-- **One step** keeps every keepalive right exactly if it meets the condition. -/
theorem step_ownTotals_iff (hkeeps : b.KeepsTotals) (hown : OwnTotals b.log)
    (h : b.step a = some b') : OwnTotals b'.log ↔ b.Settled a := by
  by_cases ha : a = .second
  · subst ha
    replace h := act_of_step h
    simp only [act] at h
    split_ifs at h
    obtain rfl := Option.some.inj h
    unfold updatePerSec
    dsimp only
    split_ifs with hpost
    · rw [ownTotals_cons_iff, and_iff_right hown, Settled, imp_iff_right hpost.1,
        imp_iff_right hpost.2, ← keepalive_own_iff hkeeps]
      constructor
      · exact fun hall => hall b.rx b.tx rfl
      · rintro heq rx tx hevent
        obtain ⟨rfl, rfl⟩ := BinderEvent.keepalive.inj hevent
        exact heq
    · exact iff_of_true hown fun hstate hdue => absurd ⟨hstate, hdue⟩ hpost
  · have hsettled : b.Settled a := by
      cases a with
      | second => exact absurd rfl ha
      | _ => trivial
    refine iff_of_true ?_ hsettled
    rcases step_writes h with ⟨hlog, -, -⟩ | ⟨hlog, -, -⟩ | ⟨cb, updates, hlog, -, -⟩ |
      ⟨receivers, updates, sum, hlog, -, -⟩ | ⟨hsecond, -, -, -, -, -⟩
    · rwa [hlog]
    · rw [hlog]
      exact ownTotals_cons_iff.mpr ⟨hown, by simp⟩
    · rw [hlog]
      exact ownTotals_cons_iff.mpr ⟨hown, by simp⟩
    · rw [hlog]
      exact ownTotals_cons_iff.mpr ⟨hown, by simp⟩
    · exact absurd hsecond ha

/-- **Every keepalive of a run reports its own session exactly if each is due after a broadcast of the
session, or after sessions whose last broadcast had no bytes in it.** -/
theorem keepalives (as : List (BinderAction κ)) (b : Binder κ)
    (h : Machine.run step as {} = some b) :
    (∀ newer rx tx older, b.log = newer ++ .keepalive rx tx :: older →
      (rx, tx) = (lastBroadcast older).getD (0, 0)) ↔ Machine.Along step Settled as {} := by
  have hstart : OwnTotals ({} : Binder κ).log := by
    intro newer rx tx older hsplit
    exact absurd hsplit (by simp)
  exact Machine.along_iff (I := KeepsTotals) (V := fun b => OwnTotals b.log)
    (fun _ _ _ => step_keepsTotals) (fun _ _ _ => ownTotals_of_step)
    (fun _ _ _ => step_ownTotals_iff) rfl hstart h

/-- One client listens while a session sends 10 bytes, receives 20 and broadcasts that. -/
def firstSession : List (BinderAction Nat) :=
  [.registerCallback 1, .startListeningForBandwidth 1 500, .onStartCommand 7 none,
    .startProxy false, .connected, .report false 10 20, .resumeLoop 0 500 500 []]

theorem keepalives_firstSession :
    ∃ b older, Machine.run step (firstSession ++ List.replicate 30 .second) {} = some b ∧
      b.log = .keepalive 20 10 :: older ∧ (20, 10) = (lastBroadcast older).getD (0, 0) :=
  ⟨_, _, rfl, rfl, (keepalives (firstSession ++ List.replicate 30 .second) _ rfl).mpr
    (by decide +kernel) [] 20 10 _ rfl⟩

/-- The session after it is connected and has broadcast nothing when the keepalive falls due: the
bytes of the first session are reported again. -/
theorem keepalive_repeats_session :
    ∃ b older, Machine.run step (firstSession ++ [.stopRunner, .stopped, .onStartCommand 7 none,
        .startProxy false, .connected] ++ List.replicate 30 .second) {} = some b ∧
      b.log = .keepalive 20 10 :: older ∧ (lastBroadcast older).getD (0, 0) = (0, 0) :=
  ⟨_, _, rfl, rfl, rfl⟩

end Binder

end SsAndroid
