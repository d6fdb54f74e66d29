import Mathlib

/-!
# Machines

A machine takes actions one after another; an action that is not possible in a state gives no
successor.  `Reaches step s as s'` says that the actions `as` lead from `s` to `s'`, and
**`invariant`** is the rule that proves what holds in every state a machine reaches.  `Along step P
as s` says that each of the actions is taken in a state where `P` allows it, and **`invariant_along`**
is the rule for runs of that kind.  **`along_iff`** is the rule for conditions that are also necessary:
a step that does not meet them spoils the state for good.
-/

namespace SsAndroid

namespace Machine

variable {σ α : Type}

/-- The state after a list of actions. -/
def run (step : σ → α → Option σ) : List α → σ → Option σ
  | [], s => some s
  | a :: as, s => (step s a).bind (run step as)

/-- **What holds at first and is kept by every step holds after every run.** -/
theorem invariant {step : σ → α → Option σ} {I : σ → Prop}
    (hstep : ∀ s a s', I s → step s a = some s' → I s') :
    ∀ {as : List α} {s s' : σ}, I s → run step as s = some s' → I s' := by
  intro as
  induction as with
  | nil =>
    intro s s' hs h
    rw [← Option.some.inj h]
    exact hs
  | cons a as ih =>
    intro s s' hs h
    rw [run] at h
    obtain ⟨t, ht, h⟩ := Option.bind_eq_some_iff.mp h
    exact ih (hstep s a t hs ht) h

theorem run_append (step : σ → α → Option σ) (as bs : List α) :
    ∀ s, run step (as ++ bs) s = (run step as s).bind (run step bs) := by
  induction as with
  | nil => intro s; rfl
  | cons a as ih =>
    intro s
    rw [List.cons_append, run, run, Option.bind_assoc]
    exact congrArg (step s a).bind (funext ih)

/-- **The rule for what relates a state to the actions that led to it.** -/
theorem history {step : σ → α → Option σ} {I : List α → σ → Prop} {start : σ} (h0 : I [] start)
    (hstep : ∀ as s a s', run step as start = some s → I as s → step s a = some s' →
      I (as ++ [a]) s') :
    ∀ {as : List α} {s : σ}, run step as start = some s → I as s := by
  intro as
  induction as using List.reverseRecOn with
  | nil =>
    intro s h
    rw [← Option.some.inj h]
    exact h0
  | append_singleton as a ih =>
    intro s h
    rw [run_append] at h
    obtain ⟨t, ht, h⟩ := Option.bind_eq_some_iff.mp h
    rw [run, Option.bind_eq_some_iff] at h
    obtain ⟨u, hu, h⟩ := h
    rw [← Option.some.inj h]
    exact hstep as t a u ht (ih ht) hu

/-! ### Runs whose actions meet a condition -/

/-- Each action that is possible is taken in a state that meets the condition. -/
def Along (step : σ → α → Option σ) (P : σ → α → Prop) : List α → σ → Prop
  | [], _ => True
  | a :: as, s => P s a ∧ match step s a with
      | none => True
      | some t => Along step P as t

instance Along.decidable (step : σ → α → Option σ) (P : σ → α → Prop)
    [∀ s a, Decidable (P s a)] : ∀ as s, Decidable (Along step P as s)
  | [], _ => isTrue trivial
  | a :: as, s =>
      have : Decidable (match step s a with
          | none => True
          | some t => Along step P as t) :=
        match step s a with
        | none => isTrue trivial
        | some t => Along.decidable step P as t
      inferInstanceAs (Decidable (_ ∧ _))

variable {step : σ → α → Option σ} {P : σ → α → Prop}

theorem along_cons {a : α} {as : List α} {s t : σ} (h : Along step P (a :: as) s)
    (ht : step s a = some t) : P s a ∧ Along step P as t := by
  rw [Along, ht] at h
  exact h

theorem along_append {as bs : List α} : ∀ {s t : σ}, Along step P (as ++ bs) s →
    run step as s = some t → Along step P as s ∧ Along step P bs t := by
  induction as with
  | nil =>
    intro s t h ht
    rw [← Option.some.inj ht]
    exact ⟨trivial, h⟩
  | cons a as ih =>
    intro s t h ht
    rw [run] at ht
    obtain ⟨u, hu, ht⟩ := Option.bind_eq_some_iff.mp ht
    obtain ⟨hP, hrest⟩ := along_cons h hu
    obtain ⟨has, hbs⟩ := ih hrest ht
    refine ⟨⟨hP, ?_⟩, hbs⟩
    rw [hu]
    exact has

/-- **What holds at first and is kept by every step that meets the condition holds after every run of
such steps.** -/
theorem invariant_along {I : σ → Prop}
    (hstep : ∀ s a s', I s → P s a → step s a = some s' → I s') :
    ∀ {as : List α} {s s' : σ}, I s → Along step P as s → run step as s = some s' → I s' := by
  intro as
  induction as with
  | nil =>
    intro s s' hs _ h
    rw [← Option.some.inj h]
    exact hs
  | cons a as ih =>
    intro s s' hs hP h
    rw [run] at h
    obtain ⟨t, ht, h⟩ := Option.bind_eq_some_iff.mp h
    obtain ⟨hPa, hP⟩ := along_cons hP ht
    exact ih (hstep s a t hs hPa ht) hP h

/-- **What a step keeps exactly if it meets the condition, and what no later step restores, holds after
a run exactly if all of its steps meet the condition.** -/
theorem along_iff {I V : σ → Prop} (hI : ∀ s a t, I s → step s a = some t → I t)
    (hV : ∀ s a t, step s a = some t → V t → V s)
    (hiff : ∀ s a t, I s → V s → step s a = some t → (V t ↔ P s a)) :
    ∀ {as : List α} {s s' : σ}, I s → V s → run step as s = some s' →
      (V s' ↔ Along step P as s) := by
  have hback : ∀ {as : List α} {s s' : σ}, run step as s = some s' → V s' → V s := by
    intro as
    induction as with
    | nil =>
      intro s s' h hs'
      rw [Option.some.inj h]
      exact hs'
    | cons a as ih =>
      intro s s' h hs'
      obtain ⟨t, ht, h⟩ := Option.bind_eq_some_iff.mp h
      exact hV s a t ht (ih h hs')
  intro as
  induction as with
  | nil =>
    intro s s' _ hs h
    rw [← Option.some.inj h]
    exact iff_of_true hs trivial
  | cons a as ih =>
    intro s s' hs hVs h
    obtain ⟨t, ht, h⟩ := Option.bind_eq_some_iff.mp h
    have hPt := hiff s a t hs hVs ht
    rw [Along, ht]
    constructor
    · intro hVs'
      have hVt := hback h hVs'
      exact ⟨hPt.mp hVt, (ih (hI s a t hs ht) hVt h).mp hVs'⟩
    · rintro ⟨hP, halong⟩
      exact (ih (hI s a t hs ht) (hPt.mpr hP) h).mpr halong

end Machine

end SsAndroid
