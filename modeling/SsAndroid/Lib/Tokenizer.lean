import Mathlib

/-!
# Tokenizing a text at delimiters that are themselves returned

`tokenize delim` cuts a list into tokens the way `java.util.StringTokenizer` does when it is asked
to return its delimiters: every delimiter is a token of its own, and between two delimiters stands
one token, the maximal run of other symbols.

A program that consumes tokens is usually a fold over them.  The point of this file is
`foldl_tokenize`: when a token handler treats a run as it would treat the run's symbols one after
the other, the fold over the tokens is the fold over the symbols.  Reasoning about such a reader
then never has to know where the runs end.
-/

namespace SsAndroid.Tokenizer

variable {α σ : Type*}

/-- The tokens of a list: each delimiter alone, and the maximal runs of the symbols between them. -/
def tokenize (delim : α → Bool) : List α → List (List α)
  | [] => []
  | c :: cs =>
      if delim c then [c] :: tokenize delim cs
      else
        match tokenize delim cs with
        | (d :: w) :: ts => if delim d then [c] :: (d :: w) :: ts else (c :: d :: w) :: ts
        | ts => [c] :: ts

theorem tokenize_cons_delim {delim : α → Bool} {c : α} (hc : delim c = true) (cs : List α) :
    tokenize delim (c :: cs) = [c] :: tokenize delim cs := by
  rw [tokenize, if_pos hc]

/-- A symbol that is no delimiter either opens a token of its own or joins the run behind it. -/
theorem tokenize_cons_run {delim : α → Bool} {c : α} (hc : delim c = false) (cs : List α) :
    tokenize delim (c :: cs) = [c] :: tokenize delim cs ∨
      ∃ d w ts, tokenize delim cs = (d :: w) :: ts ∧ delim d = false ∧
        tokenize delim (c :: cs) = (c :: d :: w) :: ts := by
  rw [tokenize, if_neg (by simp [hc])]
  split
  · rename_i d w ts h
    cases hd : delim d with
    | true => exact Or.inl (by simp [h])
    | false => exact Or.inr ⟨d, w, ts, h, hd, by simp⟩
  · exact Or.inl rfl

/-- **A token is one delimiter or a run without delimiters.** -/
theorem token_cases (delim : α → Bool) (l : List α) :
    ∀ t ∈ tokenize delim l, (∃ c, delim c = true ∧ t = [c]) ∨
      (t ≠ [] ∧ ∀ c ∈ t, delim c = false) := by
  induction l with
  | nil => simp [tokenize]
  | cons c cs ih =>
    intro t ht
    cases hc : delim c with
    | true =>
      rw [tokenize_cons_delim hc] at ht
      rcases List.mem_cons.mp ht with rfl | ht
      · exact Or.inl ⟨c, hc, rfl⟩
      · exact ih t ht
    | false =>
      rcases tokenize_cons_run hc cs with h | ⟨d, w, ts, hts, hd, h⟩
      · rw [h] at ht
        rcases List.mem_cons.mp ht with rfl | ht
        · exact Or.inr ⟨by simp, by simp [hc]⟩
        · exact ih t ht
      · rw [h] at ht
        rcases List.mem_cons.mp ht with rfl | ht
        · -- the run grows by `c`; what it held before was a token already
          have hrun := ih (d :: w) (by rw [hts]; exact List.mem_cons_self)
          refine Or.inr ⟨by simp, ?_⟩
          rcases hrun with ⟨e, he, heq⟩ | ⟨_, hall⟩
          · obtain ⟨rfl, -⟩ := List.cons.inj heq
            simp [hd] at he
          · intro x hx
            rcases List.mem_cons.mp hx with rfl | hx
            · exact hc
            · exact hall x hx
        · exact ih t (by rw [hts]; exact List.mem_cons_of_mem _ ht)

/-- A token holds symbols of the text only. -/
theorem token_subset (delim : α → Bool) (l : List α) : ∀ t ∈ tokenize delim l, t ⊆ l := by
  induction l with
  | nil => simp [tokenize]
  | cons c cs ih =>
    have hone : [c] ⊆ c :: cs := by simp
    have hrest : ∀ t ∈ tokenize delim cs, t ⊆ c :: cs :=
      fun t ht => List.Subset.trans (ih t ht) (List.subset_cons_self _ _)
    intro t ht
    cases hc : delim c with
    | true =>
      rw [tokenize_cons_delim hc] at ht
      rcases List.mem_cons.mp ht with rfl | ht
      · exact hone
      · exact hrest t ht
    | false =>
      rcases tokenize_cons_run hc cs with h | ⟨d, w, ts, hts, _, h⟩
      · rw [h] at ht
        rcases List.mem_cons.mp ht with rfl | ht
        · exact hone
        · exact hrest t ht
      · rw [h] at ht
        rcases List.mem_cons.mp ht with rfl | ht
        · exact List.cons_subset_cons _ (ih _ (by rw [hts]; exact List.mem_cons_self))
        · exact hrest t (by rw [hts]; exact List.mem_cons_of_mem _ ht)

/-- **Folding over tokens is folding over symbols**, for a handler that takes a run apart. -/
theorem foldl_tokenize {delim : α → Bool} (f : σ → List α → σ)
    (hf : ∀ s c w, delim c = false → w ≠ [] → (∀ x ∈ w, delim x = false) →
      f s (c :: w) = f (f s [c]) w) (l : List α) :
    ∀ s, (tokenize delim l).foldl f s = l.foldl (fun s c => f s [c]) s := by
  induction l with
  | nil => intro s; rfl
  | cons c cs ih =>
    intro s
    cases hc : delim c with
    | true => rw [tokenize_cons_delim hc, List.foldl_cons, List.foldl_cons, ih]
    | false =>
      rcases tokenize_cons_run hc cs with h | ⟨d, w, ts, hts, hd, h⟩
      · rw [h, List.foldl_cons, List.foldl_cons, ih]
      · have hrun : ∀ x ∈ d :: w, delim x = false := by
          rcases token_cases delim cs (d :: w) (by rw [hts]; exact List.mem_cons_self) with
            ⟨e, he, heq⟩ | ⟨_, hall⟩
          · obtain ⟨rfl, -⟩ := List.cons.inj heq
            simp [hd] at he
          · exact hall
        rw [h, List.foldl_cons, List.foldl_cons, hf s c (d :: w) hc (by simp) hrun,
          ← ih (f s [c]), hts, List.foldl_cons]

end SsAndroid.Tokenizer
