import SsAndroid.Bg.GuardedTraffic

/-!
# Polling the traffic monitor

Reports arrive when `ss-local` sends them, and `requestUpdate` is called when a client's timer is up,
several times in a millisecond if there are several clients.  Between the two stand three variables
of the monitor: `dirty`, `timestampLast` and `out`.

`PolledTraffic` is a monitor with what has happened to it: the totals reported last and the time of
the last call.  The invariant `Tracked` ties the three variables to that history: whatever `out` does
not yet have is flagged, and `timestampLast` is the time of the last call.  **`polled_traffic`** is
what it gives for every order of reports and calls: no report is lost, none is counted twice, and the
rates are those of the time between the calls.  Totals may also fall, as they do after a restart.

`tryUpdate` is `requestUpdate` with divisions that can fail; that they do not is part of the theorem.
-/

namespace SsAndroid

namespace RateMonitor

/-- `a / b`, `none` for an `ArithmeticException`. -/
def divide (a b : Int) : Option Int := if b = 0 then none else some (a.tdiv b)

/-- `requestUpdate()`, with `none` where a division throws. -/
def tryUpdate (m : RateMonitor) (now : Int) : Option (RateMonitor × TrafficStats × Bool) :=
  let delta := toLong (now - m.timestampLast)
  if delta ≠ 0 then
    if m.dirty then do
      let txRate ← divide (toLong (toLong (m.current.txTotal - m.out.txTotal) * 1000)) delta
      let rxRate ← divide (toLong (toLong (m.current.rxTotal - m.out.rxTotal) * 1000)) delta
      let out := { m.current with txRate := txRate, rxRate := rxRate }
      return ({ m with timestampLast := now, out := out, dirty := false }, out, true)
    else some ({ m with timestampLast := now, out := (clearRates m.out).1 }, clearRates m.out)
  else some ({ m with timestampLast := now }, m.out, false)

theorem tryUpdate_eq (m : RateMonitor) (now : Int) : m.tryUpdate now = some (m.requestUpdate now) := by
  simp only [tryUpdate, requestUpdate]
  by_cases hmoved : toLong (now - m.timestampLast) ≠ 0
  · rw [if_pos hmoved, if_pos hmoved]
    by_cases hdirty : m.dirty = true
    · rw [if_pos hdirty, if_pos hdirty, divide, if_neg hmoved, divide, if_neg hmoved]
      rfl
    · rw [if_neg hdirty, if_neg hdirty]
  · rw [if_neg hmoved, if_neg hmoved]

/-- A report that says nothing new leaves the flag alone, any other one sets it. -/
theorem accept_dirty (m : RateMonitor) (tx rx : Int) :
    (m.accept tx rx).dirty =
      (m.dirty || decide ((m.current.txTotal, m.current.rxTotal) ≠ (tx, rx))) := by
  unfold accept TrafficMonitor.acceptInternal
  by_cases htx : m.current.txTotal = tx <;> by_cases hrx : m.current.rxTotal = rx <;>
    simp [htx, hrx]

theorem clearRates_unchanged {out : TrafficStats} (h : (clearRates out).2 = false) :
    (clearRates out).1 = out := by
  unfold clearRates at h ⊢
  by_cases htx : out.txRate = 0 <;> by_cases hrx : out.rxRate = 0 <;> simp_all

/-! ### The three kinds of calls -/

section Calls

variable {m : RateMonitor} {now : Int}

theorem requestUpdate_again (h : m.timestampLast = now) :
    m.requestUpdate now = (m, m.out, false) := by
  subst h
  rw [requestUpdate, Int.sub_self]
  exact if_neg fun h => h rfl

theorem requestUpdate_dirty (h : toLong (now - m.timestampLast) ≠ 0) (hdirty : m.dirty = true) :
    m.requestUpdate now =
      ({ m with
          timestampLast := now
          out := m.rated (toLong (now - m.timestampLast))
          dirty := false }, m.rated (toLong (now - m.timestampLast)), true) := by
  simp only [requestUpdate]
  rw [if_pos h, if_pos hdirty]

theorem requestUpdate_clean (h : toLong (now - m.timestampLast) ≠ 0) (hdirty : m.dirty = false) :
    m.requestUpdate now =
      ({ m with timestampLast := now, out := (clearRates m.out).1 }, clearRates m.out) := by
  simp only [requestUpdate]
  rw [if_pos h, if_neg (by simp [hdirty])]

/-- **The flag is false only if `out` is what it was.** -/
theorem requestUpdate_unchanged (h : (m.requestUpdate now).2.2 = false) :
    (m.requestUpdate now).1.out = m.out := by
  by_cases hmoved : toLong (now - m.timestampLast) ≠ 0
  · by_cases hdirty : m.dirty = true
    · rw [requestUpdate_dirty hmoved hdirty] at h
      exact absurd h (by simp)
    · rw [Bool.not_eq_true] at hdirty
      rw [requestUpdate_clean hmoved hdirty] at h ⊢
      exact clearRates_unchanged h
  · simp only [requestUpdate]
    rw [if_neg hmoved]

end Calls

/-- Totals below `2 ^ 53` leave room for the factor of a thousand. -/
theorem rate_eq {total last delta : Int} (htotal : 0 ≤ total ∧ total < 2 ^ 53)
    (hlast : 0 ≤ last ∧ last < 2 ^ 53) :
    rate total last delta = ((total - last) * 1000).tdiv delta := by
  have hgrowth : toLong (total - last) = total - last := toLong_of_range (by omega) (by omega)
  have hproduct : toLong ((total - last) * 1000) = (total - last) * 1000 :=
    toLong_of_range (by omega) (by omega)
  rw [rate, hgrowth, hproduct]

end RateMonitor

/-- A monitor, the totals reported last and the time of the last call of `requestUpdate`. -/
structure PolledTraffic where
  monitor : RateMonitor := {}
  reported : Int × Int := (0, 0)
  called : Option Int := none

inductive PollAction
  | report (tx rx : Int)
  | requestUpdate (now : Int)

namespace PolledTraffic

/-- Any totals below `2 ^ 53` may be reported; the clock is above zero and does not go back.  A report
and a call are one step each, although `acceptInternal` runs on the thread of the listener and
`requestUpdate` on that of the service, and neither takes a lock. -/
def step (s : PolledTraffic) : PollAction → Option PolledTraffic
  | .report tx rx =>
      if (0 ≤ tx ∧ tx < 2 ^ 53) ∧ 0 ≤ rx ∧ rx < 2 ^ 53 then
        some { s with monitor := s.monitor.accept tx rx, reported := (tx, rx) }
      else none
  | .requestUpdate now =>
      if 0 < now ∧ s.called.getD 0 ≤ now ∧ now < 2 ^ 63 then
        some { s with monitor := (s.monitor.requestUpdate now).1, called := some now }
      else none

def totals (t : TrafficStats) : Int × Int := (t.txTotal, t.rxTotal)

def Counter (t : Int × Int) : Prop := (0 ≤ t.1 ∧ t.1 < 2 ^ 53) ∧ 0 ≤ t.2 ∧ t.2 < 2 ^ 53

instance (t : Int × Int) : Decidable (Counter t) := inferInstanceAs (Decidable (_ ∧ _))

/-- What the monitor's variables say about what has happened. -/
structure Tracked (s : PolledTraffic) : Prop where
  current : totals s.monitor.current = s.reported
  /-- Nothing that `out` lacks goes unflagged. -/
  flagged : s.monitor.dirty = false → totals s.monitor.out = s.reported
  clock : s.monitor.timestampLast = s.called.getD 0
  reported : Counter s.reported
  out : Counter (totals s.monitor.out)
  called : 0 ≤ s.called.getD 0 ∧ s.called.getD 0 < 2 ^ 63

theorem start_tracked : Tracked {} :=
  ⟨rfl, fun _ => rfl, rfl, by decide, by decide, by decide⟩

theorem report_tracked {s : PolledTraffic} {tx rx : Int} (h : s.Tracked) (hc : Counter (tx, rx)) :
    Tracked { s with monitor := s.monitor.accept tx rx, reported := (tx, rx) } := by
  refine ⟨?_, ?_, h.clock, hc, h.out, h.called⟩
  · show totals (s.monitor.accept tx rx).current = (tx, rx)
    rw [RateMonitor.accept_current]
    rfl
  · intro hdirty
    replace hdirty : (s.monitor.accept tx rx).dirty = false := hdirty
    rw [RateMonitor.accept_dirty, Bool.or_eq_false_iff, decide_eq_false_iff_not, not_not] at hdirty
    show totals s.monitor.out = (tx, rx)
    rw [h.flagged hdirty.1, ← h.current]
    exact hdirty.2

section Call

variable {s : PolledTraffic} {now : Int}

/-- The rate that a call at `now` is to give. -/
def growth (s : PolledTraffic) (now total last : Int) : Int :=
  if s.reported = totals s.monitor.out then 0
  else ((total - last) * 1000).tdiv (now - s.called.getD 0)

theorem growth_eq {total last : Int} (htotal : s.reported = totals s.monitor.out → total = last) :
    s.growth now total last = ((total - last) * 1000).tdiv (now - s.called.getD 0) := by
  rw [growth]
  split_ifs with h
  · rw [htotal h, Int.sub_self, Int.zero_mul, Int.zero_tdiv]
  · rfl

/-- **A call at a later time** brings `out` up to date, with the rates since the call before. -/
theorem requestUpdate_later (h : s.Tracked) (hlater : s.called.getD 0 < now) (hnow : now < 2 ^ 63) :
    (s.monitor.requestUpdate now).1.out =
      { txTotal := s.reported.1, rxTotal := s.reported.2
        txRate := s.growth now s.reported.1 s.monitor.out.txTotal
        rxRate := s.growth now s.reported.2 s.monitor.out.rxTotal } := by
  have htx : s.reported = totals s.monitor.out → s.reported.1 = s.monitor.out.txTotal :=
    congrArg Prod.fst
  have hrx : s.reported = totals s.monitor.out → s.reported.2 = s.monitor.out.rxTotal :=
    congrArg Prod.snd
  have hcalled := h.called
  have hdelta : toLong (now - s.monitor.timestampLast) = now - s.called.getD 0 := by
    rw [h.clock]
    exact toLong_of_range (by omega) (by omega)
  have hmoved : toLong (now - s.monitor.timestampLast) ≠ 0 := by omega
  by_cases hdirty : s.monitor.dirty = true
  · have hcur1 : s.monitor.current.txTotal = s.reported.1 := congrArg Prod.fst h.current
    have hcur2 : s.monitor.current.rxTotal = s.reported.2 := congrArg Prod.snd h.current
    rw [RateMonitor.requestUpdate_dirty hmoved hdirty, hdelta, growth_eq htx, growth_eq hrx]
    simp only [RateMonitor.rated, hcur1, hcur2]
    have hout1 : 0 ≤ s.monitor.out.txTotal ∧ s.monitor.out.txTotal < 2 ^ 53 := h.out.1
    have hout2 : 0 ≤ s.monitor.out.rxTotal ∧ s.monitor.out.rxTotal < 2 ^ 53 := h.out.2
    rw [RateMonitor.rate_eq h.reported.1 hout1, RateMonitor.rate_eq h.reported.2 hout2]
  · rw [Bool.not_eq_true] at hdirty
    have hsame := h.flagged hdirty
    rw [RateMonitor.requestUpdate_clean hmoved hdirty, RateMonitor.clearRates_fst, growth,
      if_pos hsame.symm, growth, if_pos hsame.symm, htx hsame.symm, hrx hsame.symm]

theorem requestUpdate_tracked (h : s.Tracked) (hpos : 0 < now) (hle : s.called.getD 0 ≤ now)
    (hnow : now < 2 ^ 63) :
    Tracked { s with monitor := (s.monitor.requestUpdate now).1, called := some now } := by
  by_cases hagain : s.called.getD 0 = now
  · rw [RateMonitor.requestUpdate_again (h.clock.trans hagain)]
    exact ⟨h.current, h.flagged, h.clock.trans hagain, h.reported, h.out, hpos.le, hnow⟩
  · have hout := requestUpdate_later h (by omega) hnow
    have htotals : totals (s.monitor.requestUpdate now).1.out = s.reported := by
      rw [hout]
      rfl
    refine ⟨?_, fun _ => htotals, ?_, h.reported, ?_, hpos.le, hnow⟩
    · exact (congrArg totals (s.monitor.requestUpdate_current now)).trans h.current
    · exact s.monitor.requestUpdate_timestampLast now
    · show Counter (totals (s.monitor.requestUpdate now).1.out)
      rw [htotals]
      exact h.reported

end Call

theorem step_tracked {s t : PolledTraffic} {a : PollAction} (h : s.Tracked)
    (hstep : s.step a = some t) : t.Tracked := by
  cases a with
  | report tx rx =>
    simp only [step] at hstep
    split_ifs at hstep with hguard
    obtain rfl := Option.some.inj hstep
    exact report_tracked h hguard
  | requestUpdate now =>
    simp only [step] at hstep
    split_ifs at hstep with hguard
    obtain rfl := Option.some.inj hstep
    exact requestUpdate_tracked h hguard.1 hguard.2.1 hguard.2.2

/-- **Polling loses nothing.**  After every sequence of reports and calls: a clean monitor's `out` has
the totals reported last.  A call at a time the clock may have divides by no zero; if it is later than
the call before, `out` gets the totals reported last with the rates since then; in the same
millisecond nothing changes; and if the flag is false, `out` is what it was. -/
theorem polled_traffic (as : List PollAction) (s : PolledTraffic)
    (hrun : Machine.run step as {} = some s) :
    (s.monitor.dirty = false → totals s.monitor.out = s.reported) ∧
    ∀ now t, s.step (.requestUpdate now) = some t →
      s.monitor.tryUpdate now = some (t.monitor, (s.monitor.requestUpdate now).2) ∧
      (s.called.getD 0 < now → t.monitor.out =
        { txTotal := s.reported.1, rxTotal := s.reported.2
          txRate := s.growth now s.reported.1 s.monitor.out.txTotal
          rxRate := s.growth now s.reported.2 s.monitor.out.rxTotal }) ∧
      (s.called = some now → t.monitor = s.monitor) ∧
      ((s.monitor.requestUpdate now).2.2 = false → t.monitor.out = s.monitor.out) ∧
      (s.monitor.requestUpdate now).2.1 = t.monitor.out := by
  have htracked : s.Tracked :=
    Machine.invariant (fun _ _ _ h hstep => step_tracked h hstep) start_tracked hrun
  refine ⟨htracked.flagged, ?_⟩
  intro now t ht
  simp only [step] at ht
  split_ifs at ht with hguard
  obtain rfl := Option.some.inj ht
  refine ⟨s.monitor.tryUpdate_eq now, ?_, ?_, RateMonitor.requestUpdate_unchanged,
    s.monitor.requestUpdate_returns_out now⟩
  · intro hlater
    exact requestUpdate_later htracked hlater hguard.2.2
  · intro hagain
    have hclock : s.monitor.timestampLast = now := by rw [htracked.clock, hagain, Option.getD_some]
    show (s.monitor.requestUpdate now).1 = s.monitor
    rw [RateMonitor.requestUpdate_again hclock]

/-- Two reports before the first call, a second client in the same millisecond, and a total that
falls. -/
theorem polled_traffic_twoClients :
    ∃ s t, Machine.run step [.report 10 20, .report 30 20, .requestUpdate 1000, .requestUpdate 1000,
        .report 5 20] {} = some s ∧
      s.step (.requestUpdate 1500) = some t ∧
      t.monitor.out = { txTotal := 5, rxTotal := 20, txRate := -50, rxRate := 0 } :=
  have h := polled_traffic [.report 10 20, .report 30 20, .requestUpdate 1000, .requestUpdate 1000,
    .report 5 20] _ rfl
  ⟨_, _, rfl, rfl, ((h.2 1500 _ rfl).2.1 (by decide +kernel)).trans (by decide +kernel)⟩

end PolledTraffic

end SsAndroid
