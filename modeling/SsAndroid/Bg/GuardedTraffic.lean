import SsAndroid.Bg.TrafficMonitor
import SsAndroid.Lib.Machine

/-!
# Traffic of a guarded process

The guard of a process pool restarts `ss-local` when it exits, and every incarnation counts its own
bytes from zero.  The monitor of the session copies the counters it is sent, whichever incarnation
sends them, and `requestUpdate` computes rates from the totals it returned last.

`GuardedTraffic` is one session: reports, restarts and calls of `requestUpdate` in any order.
**`session_traffic`**: while an incarnation reports only if those before it have counted nothing, the
totals never decrease, are the sum over the incarnations, and no rate is negative.  A restart after
traffic is what breaks all three (`restart_loses_traffic`).
-/

namespace SsAndroid

/-- A monitor with what `requestUpdate` keeps from one call to the next. -/
structure RateMonitor extends TrafficMonitor where
  out : TrafficStats := {}
  timestampLast : Int := 0

namespace RateMonitor

/-- A report reaches `acceptInternal`. -/
def accept (m : RateMonitor) (tx rx : Int) : RateMonitor :=
  { m with toTrafficMonitor := m.toTrafficMonitor.acceptInternal tx rx }

/-- `(total - last) * 1000 / delta`. -/
def rate (total last delta : Int) : Int := (toLong (toLong (total - last) * 1000)).tdiv delta

/-- The totals with their rates, `delta` milliseconds after the call before. -/
def rated (m : RateMonitor) (delta : Int) : TrafficStats :=
  { m.current with
    txRate := rate m.current.txTotal m.out.txTotal delta
    rxRate := rate m.current.rxTotal m.out.rxTotal delta }

/-- Nothing was reported: the rates become zero, and the result says whether one was not. -/
def clearRates (out : TrafficStats) : TrafficStats × Bool :=
  let tx := if out.txRate ≠ 0 then ({ out with txRate := 0 }, true) else (out, false)
  if tx.1.rxRate ≠ 0 then ({ tx.1 with rxRate := 0 }, true) else tx

/-- `requestUpdate()`, at the time `now` of `SystemClock.elapsedRealtime()`. -/
def requestUpdate (m : RateMonitor) (now : Int) : RateMonitor × TrafficStats × Bool :=
  let delta := toLong (now - m.timestampLast)
  if delta ≠ 0 then
    if m.dirty then
      ({ m with timestampLast := now, out := m.rated delta, dirty := false }, m.rated delta, true)
    else ({ m with timestampLast := now, out := (clearRates m.out).1 }, clearRates m.out)
  else ({ m with timestampLast := now }, m.out, false)

theorem rate_nonneg {total last delta : Int} (hlast : last ≤ total)
    (hfits : (total - last) * 1000 < 2 ^ 63) (hdelta : 0 ≤ delta) : 0 ≤ rate total last delta := by
  have hgrowth : toLong (total - last) = total - last := toLong_of_range (by omega) (by omega)
  have hproduct : toLong ((total - last) * 1000) = (total - last) * 1000 :=
    toLong_of_range (by omega) hfits
  rw [rate, hgrowth, hproduct]
  exact Int.tdiv_nonneg (by omega) hdelta

/-- **A report replaces the totals and nothing else of the statistics.** -/
theorem accept_current (m : RateMonitor) (tx rx : Int) :
    (m.accept tx rx).current = { m.current with txTotal := tx, rxTotal := rx } := by
  unfold accept TrafficMonitor.acceptInternal
  by_cases htx : m.current.txTotal = tx <;> by_cases hrx : m.current.rxTotal = rx <;>
    ext <;> simp [htx, hrx]

theorem clearRates_fst (out : TrafficStats) :
    (clearRates out).1 = { out with txRate := 0, rxRate := 0 } := by
  unfold clearRates
  by_cases htx : out.txRate = 0 <;> by_cases hrx : out.rxRate = 0 <;> ext <;> simp [htx, hrx]

@[simp] theorem requestUpdate_current (m : RateMonitor) (now : Int) :
    (m.requestUpdate now).1.current = m.current := by
  simp only [requestUpdate]
  split_ifs <;> rfl

@[simp] theorem requestUpdate_timestampLast (m : RateMonitor) (now : Int) :
    (m.requestUpdate now).1.timestampLast = now := by
  simp only [requestUpdate]
  split_ifs <;> rfl

theorem requestUpdate_returns_out (m : RateMonitor) (now : Int) :
    (m.requestUpdate now).2.1 = (m.requestUpdate now).1.out := by
  simp only [requestUpdate]
  split_ifs <;> rfl

/-- **What a call leaves in `out`**: the current totals with their rates, the old totals with rates of
zero, or, in the millisecond of the call before, all that was there. -/
theorem requestUpdate_out (m : RateMonitor) {now : Int} (hlast : 0 ≤ m.timestampLast)
    (hle : m.timestampLast ≤ now) (hnow : now < 2 ^ 63) :
    (now ≠ m.timestampLast ∧ (m.requestUpdate now).1.out = m.rated (now - m.timestampLast)) ∨
    (m.requestUpdate now).1.out = { m.out with txRate := 0, rxRate := 0 } ∨
    (m.requestUpdate now).1.out = m.out := by
  have hdelta : toLong (now - m.timestampLast) = now - m.timestampLast :=
    toLong_of_range (by omega) (by omega)
  simp only [requestUpdate, hdelta]
  by_cases hmoved : now - m.timestampLast ≠ 0
  · rw [if_pos hmoved]
    by_cases hdirty : m.dirty = true
    · rw [if_pos hdirty]
      exact Or.inl ⟨by omega, rfl⟩
    · rw [if_neg hdirty]
      exact Or.inr (Or.inl (clearRates_fst m.out))
  · rw [if_neg hmoved]
    exact Or.inr (Or.inr rfl)

end RateMonitor

/-- A session: its monitor, the counters `ss-local` reported last, in the incarnation that runs and
in those before it, and the results of `requestUpdate`. -/
structure GuardedTraffic where
  monitor : RateMonitor := {}
  running : Int × Int := (0, 0)
  earlier : List (Int × Int) := []
  returned : List (TrafficStats × Bool) := []

inductive TrafficAction
  | restart
  | report (tx rx : Int)
  | requestUpdate (now : Int)

namespace GuardedTraffic

/-- Counters are `Long`s that never decrease in one incarnation; the clock does not go back. -/
def step (s : GuardedTraffic) : TrafficAction → Option GuardedTraffic
  | .restart => some { s with running := (0, 0), earlier := s.running :: s.earlier }
  | .report tx rx =>
      if s.running.1 ≤ tx ∧ s.running.2 ≤ rx ∧ tx < 2 ^ 63 ∧ rx < 2 ^ 63 then
        some { s with monitor := s.monitor.accept tx rx, running := (tx, rx) }
      else none
  | .requestUpdate now =>
      if s.monitor.timestampLast ≤ now ∧ now < 2 ^ 63 then
        let (monitor, result) := s.monitor.requestUpdate now
        some { s with monitor := monitor, returned := result :: s.returned }
      else none

/-- What all incarnations together have sent. -/
def txReported (s : GuardedTraffic) : Int := ((s.running :: s.earlier).map Prod.fst).sum

/-- What all incarnations together have received. -/
def rxReported (s : GuardedTraffic) : Int := ((s.running :: s.earlier).map Prod.snd).sum

/-- An incarnation reports only if those before it have counted nothing, and what came since the
last update fits, times 1000, in a `Long`. -/
def Steady (s : GuardedTraffic) : TrafficAction → Prop
  | .restart => True
  | .report _ _ => ∀ last ∈ s.earlier, last = (0, 0)
  | .requestUpdate now => now ≠ s.monitor.timestampLast →
      (s.monitor.current.txTotal - s.monitor.out.txTotal) * 1000 < 2 ^ 63 ∧
      (s.monitor.current.rxTotal - s.monitor.out.rxTotal) * 1000 < 2 ^ 63

instance (s : GuardedTraffic) : ∀ a, Decidable (s.Steady a)
  | .restart => inferInstanceAs (Decidable True)
  | .report _ _ => inferInstanceAs (Decidable (∀ last ∈ s.earlier, last = (0, 0)))
  | .requestUpdate _ => inferInstanceAs (Decidable (_ → _))

/-- What every step of a steady session keeps. -/
structure Counted (s : GuardedTraffic) : Prop where
  running : 0 ≤ s.running.1 ∧ 0 ≤ s.running.2
  tx : s.monitor.current.txTotal = s.txReported
  rx : s.monitor.current.rxTotal = s.rxReported
  txOut : s.monitor.out.txTotal ≤ s.monitor.current.txTotal
  rxOut : s.monitor.out.rxTotal ≤ s.monitor.current.rxTotal
  rates : 0 ≤ s.monitor.out.txRate ∧ 0 ≤ s.monitor.out.rxRate
  clock : 0 ≤ s.monitor.timestampLast
  returned : ∀ r ∈ s.returned, 0 ≤ r.1.txRate ∧ 0 ≤ r.1.rxRate

theorem sum_eq_zero_of_counted_nothing {earlier : List (Int × Int)}
    (h : ∀ last ∈ earlier, last = (0, 0)) :
    (earlier.map Prod.fst).sum = 0 ∧ (earlier.map Prod.snd).sum = 0 := by
  induction earlier with
  | nil => exact ⟨rfl, rfl⟩
  | cons last rest ih =>
    obtain ⟨htx, hrx⟩ := ih fun r hr => h r (List.mem_cons_of_mem last hr)
    have hlast : last = (0, 0) := h last List.mem_cons_self
    simp only [List.map_cons, List.sum_cons, htx, hrx, hlast, add_zero, and_self]

/-- The totals do not decrease. -/
def Below (s t : GuardedTraffic) : Prop :=
  s.monitor.current.txTotal ≤ t.monitor.current.txTotal ∧
    s.monitor.current.rxTotal ≤ t.monitor.current.rxTotal

theorem restart_counted {s : GuardedTraffic} (h : s.Counted) :
    Counted { s with running := (0, 0), earlier := s.running :: s.earlier } := by
  refine ⟨⟨le_refl 0, le_refl 0⟩, ?_, ?_, h.txOut, h.rxOut, h.rates, h.clock, h.returned⟩
  · show s.monitor.current.txTotal = 0 + s.txReported
    rw [zero_add]
    exact h.tx
  · show s.monitor.current.rxTotal = 0 + s.rxReported
    rw [zero_add]
    exact h.rx

/-- **A report of the only incarnation that has counted anything.** -/
theorem report_counted {s : GuardedTraffic} {tx rx : Int} (h : s.Counted)
    (htx : s.running.1 ≤ tx) (hrx : s.running.2 ≤ rx) (hnothing : ∀ last ∈ s.earlier, last = (0, 0)) :
    let t := { s with monitor := s.monitor.accept tx rx, running := (tx, rx) }
    t.Counted ∧ s.Below t := by
  intro t
  obtain ⟨hsumTx, hsumRx⟩ := sum_eq_zero_of_counted_nothing hnothing
  have hcurrent : t.monitor.current = { s.monitor.current with txTotal := tx, rxTotal := rx } :=
    s.monitor.accept_current tx rx
  have hbeforeTx : s.monitor.current.txTotal = s.running.1 := by
    rw [h.tx, txReported, List.map_cons, List.sum_cons, hsumTx, add_zero]
  have hbeforeRx : s.monitor.current.rxTotal = s.running.2 := by
    rw [h.rx, rxReported, List.map_cons, List.sum_cons, hsumRx, add_zero]
  have hbelow : s.Below t := by
    rw [Below, hcurrent, hbeforeTx, hbeforeRx]
    exact ⟨htx, hrx⟩
  refine ⟨⟨⟨h.running.1.trans htx, h.running.2.trans hrx⟩, ?_, ?_, h.txOut.trans hbelow.1,
    h.rxOut.trans hbelow.2, h.rates, h.clock, h.returned⟩, hbelow⟩
  · rw [hcurrent, txReported, List.map_cons, List.sum_cons, hsumTx, add_zero]
  · rw [hcurrent, rxReported, List.map_cons, List.sum_cons, hsumRx, add_zero]

/-- **The rates a call leaves are not negative**, and its totals are not above the current ones. -/
theorem requestUpdate_rates {s : GuardedTraffic} {now : Int} (h : s.Counted)
    (hle : s.monitor.timestampLast ≤ now) (hnow : now < 2 ^ 63)
    (hsteady : s.Steady (.requestUpdate now)) :
    let out := (s.monitor.requestUpdate now).1.out
    (0 ≤ out.txRate ∧ 0 ≤ out.rxRate) ∧ out.txTotal ≤ s.monitor.current.txTotal ∧
      out.rxTotal ≤ s.monitor.current.rxTotal := by
  intro out
  rcases s.monitor.requestUpdate_out h.clock hle hnow with ⟨hmoved, hout⟩ | hout | hout
  · obtain ⟨htx, hrx⟩ := hsteady hmoved
    have hdelta : 0 ≤ now - s.monitor.timestampLast := by omega
    rw [show out = _ from hout]
    exact ⟨⟨RateMonitor.rate_nonneg h.txOut htx hdelta, RateMonitor.rate_nonneg h.rxOut hrx hdelta⟩,
      le_refl _, le_refl _⟩
  · rw [show out = _ from hout]
    exact ⟨⟨le_refl 0, le_refl 0⟩, h.txOut, h.rxOut⟩
  · rw [show out = _ from hout]
    exact ⟨h.rates, h.txOut, h.rxOut⟩

/-- **One step of a steady session.** -/
theorem step_counted {s t : GuardedTraffic} {a : TrafficAction} (h : s.Counted) (hsteady : s.Steady a)
    (hstep : s.step a = some t) : t.Counted ∧ s.Below t := by
  cases a with
  | restart =>
    obtain rfl := Option.some.inj hstep
    exact ⟨restart_counted h, le_refl _, le_refl _⟩
  | report tx rx =>
    simp only [step] at hstep
    split_ifs at hstep with hguard
    obtain rfl := Option.some.inj hstep
    exact report_counted h hguard.1 hguard.2.1 hsteady
  | requestUpdate now =>
    simp only [step] at hstep
    split_ifs at hstep with hguard
    obtain rfl := Option.some.inj hstep
    obtain ⟨hrates, htx, hrx⟩ := requestUpdate_rates h hguard.1 hguard.2 hsteady
    have hsame := s.monitor.requestUpdate_current now
    have hbelow : s.monitor.current.txTotal ≤ (s.monitor.requestUpdate now).1.current.txTotal ∧
        s.monitor.current.rxTotal ≤ (s.monitor.requestUpdate now).1.current.rxTotal := by
      rw [hsame]
      exact ⟨le_refl _, le_refl _⟩
    refine ⟨⟨h.running, ?_, ?_, htx.trans hbelow.1, hrx.trans hbelow.2, hrates, ?_, ?_⟩, hbelow⟩
    · exact (congrArg TrafficStats.txTotal hsame).trans h.tx
    · exact (congrArg TrafficStats.rxTotal hsame).trans h.rx
    · show 0 ≤ (s.monitor.requestUpdate now).1.timestampLast
      rw [s.monitor.requestUpdate_timestampLast now]
      exact h.clock.trans hguard.1
    · intro r hr
      rcases List.mem_cons.mp hr with rfl | hr
      · rw [s.monitor.requestUpdate_returns_out now]
        exact hrates
      · exact h.returned r hr

theorem start_counted : Counted {} :=
  ⟨⟨le_refl 0, le_refl 0⟩, rfl, rfl, le_refl 0, le_refl 0, ⟨le_refl 0, le_refl 0⟩, le_refl 0, by simp⟩

/-- **The traffic of a session.**  In every session in which an incarnation of `ss-local` reports only
if those before it have counted nothing, and in which no rate overflows: from a state to a later one
the totals do not decrease, they are the sum over all incarnations of what each reported last, and no
rate that `requestUpdate` returned is negative. -/
theorem session_traffic (as bs : List TrafficAction) (s t : GuardedTraffic)
    (hs : Machine.run step as {} = some s) (ht : Machine.run step bs s = some t)
    (hsteady : Machine.Along step Steady (as ++ bs) {}) :
    s.monitor.current.txTotal ≤ t.monitor.current.txTotal ∧
    s.monitor.current.rxTotal ≤ t.monitor.current.rxTotal ∧
    t.monitor.current.txTotal = t.txReported ∧ t.monitor.current.rxTotal = t.rxReported ∧
    ∀ r ∈ t.returned, 0 ≤ r.1.txRate ∧ 0 ≤ r.1.rxRate := by
  obtain ⟨hbefore, hafter⟩ := Machine.along_append hsteady hs
  have hcounted : s.Counted :=
    Machine.invariant_along (fun _ _ _ h hP hstep => (step_counted h hP hstep).1)
      start_counted hbefore hs
  have hlater : t.Counted ∧ s.Below t := by
    refine Machine.invariant_along (I := fun u => u.Counted ∧ s.Below u) ?_
      ⟨hcounted, le_refl _, le_refl _⟩ hafter ht
    intro u a v hu hP hstep
    obtain ⟨hv, hbelow⟩ := step_counted hu.1 hP hstep
    exact ⟨hv, hu.2.1.trans hbelow.1, hu.2.2.trans hbelow.2⟩
  exact ⟨hlater.2.1, hlater.2.2, hlater.1.tx, hlater.1.rx, hlater.1.returned⟩

/-- A process that dies before it has counted anything, and the one that takes its place. -/
def earlyRestart : List TrafficAction :=
  [.report 0 0, .requestUpdate 500, .restart, .report 10 20]

theorem session_traffic_earlyRestart :
    ∃ s t, Machine.run step earlyRestart {} = some s ∧
      Machine.run step [.requestUpdate 1000, .report 30 20, .requestUpdate 2000] s = some t ∧
      t.returned.map (fun r => r.1.txRate) = [20, 20, 0] ∧
      s.monitor.current.txTotal ≤ t.monitor.current.txTotal ∧
      t.monitor.current.txTotal = t.txReported :=
  have h := session_traffic earlyRestart [.requestUpdate 1000, .report 30 20, .requestUpdate 2000]
    _ _ rfl rfl (by decide +kernel)
  ⟨_, _, rfl, rfl, by decide +kernel, h.1, h.2.2.1⟩

/-- The guard restarts a process that has counted 10 and 20 bytes.  With the first report of the next
one the totals fall to 1 and 2, the sum is 11 and 22, and the next update has negative rates. -/
theorem restart_loses_traffic :
    ∃ s t, Machine.run step [.report 10 20, .requestUpdate 1000] {} = some s ∧
      Machine.run step [.restart, .report 1 2, .requestUpdate 2000] s = some t ∧
      t.monitor.current.txTotal < s.monitor.current.txTotal ∧
      t.monitor.current.rxTotal < s.monitor.current.rxTotal ∧
      t.monitor.current.txTotal ≠ t.txReported ∧ t.monitor.current.rxTotal ≠ t.rxReported ∧
      ∃ r ∈ t.returned, r.1.txRate < 0 ∧ r.1.rxRate < 0 :=
  ⟨_, _, rfl, rfl, by decide +kernel, by decide +kernel, by decide +kernel, by decide +kernel,
    _, List.mem_cons_self, by decide +kernel, by decide +kernel⟩

end GuardedTraffic

end SsAndroid
