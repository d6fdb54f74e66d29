import Mathlib

/-!
# A window of two generations

What is added goes to the newer generation; when that is full it becomes the older one, and the older
one is forgotten.

* **`mem_held_of_recent`**: what was added as one of the last `size` is held;
* **`held_suffix`** with `length_held_lt`: what is held was added as one of the last `2 * size - 1`.
-/

namespace SsAndroid

structure Window (α : Type) where
  older : List α
  newer : List α

namespace Window

variable {α : Type} {size : Nat}

def empty : Window α := ⟨[], []⟩

def add (size : Nat) (w : Window α) (x : α) : Window α :=
  if size ≤ w.newer.length + 1 then ⟨w.newer ++ [x], []⟩ else ⟨w.older, w.newer ++ [x]⟩

def addAll (size : Nat) (xs : List α) : Window α := xs.foldl (add size) empty

def held (w : Window α) : List α := w.older ++ w.newer

theorem addAll_concat (size : Nat) (xs : List α) (x : α) :
    addAll size (xs ++ [x]) = (addAll size xs).add size x := by
  rw [addAll, List.foldl_append]
  rfl

theorem mem_held {w : Window α} {x : α} : x ∈ w.held ↔ x ∈ w.older ∨ x ∈ w.newer :=
  List.mem_append

theorem held_newer (w : Window α) (x : α) : held ⟨w.older, w.newer ++ [x]⟩ = w.held ++ [x] :=
  (List.append_assoc ..).symm

theorem suffix_concat {l m : List α} (h : l <:+ m) (x : α) : l ++ [x] <:+ m ++ [x] := by
  obtain ⟨p, rfl⟩ := h
  exact ⟨p, (List.append_assoc ..).symm⟩

/-- The generations are the end of what was added; the newer one is never full, and the older one is
full or nothing was forgotten. -/
theorem addAll_spec (h : 0 < size) (xs : List α) :
    let w := addAll size xs
    w.held <:+ xs ∧ w.newer.length < size ∧ w.older.length ≤ size ∧
      (w.older.length = size ∨ w.held = xs) := by
  induction xs using List.reverseRecOn with
  | nil => exact ⟨List.suffix_refl _, h, Nat.zero_le _, .inr rfl⟩
  | append_singleton xs x ih =>
    obtain ⟨hsuffix, hnewer, holder, hall⟩ := ih
    rw [addAll_concat]
    dsimp only
    rw [add]
    split
    · rename_i hfull
      have hlen : (addAll size xs).newer.length + 1 = size := by omega
      refine ⟨?_, h, ?_, .inl ?_⟩
      · have hnewer : (addAll size xs).newer <:+ xs := (List.suffix_append _ _).trans hsuffix
        rw [held, List.append_nil]
        exact suffix_concat hnewer x
      · simp [hlen]
      · simp [hlen]
    · rename_i hfree
      refine ⟨?_, ?_, holder, hall.imp id ?_⟩
      · rw [held_newer]
        exact suffix_concat hsuffix x
      · simp only [List.length_append, List.length_singleton]
        omega
      · intro hheld
        rw [held_newer, hheld]

theorem held_suffix (h : 0 < size) (xs : List α) : (addAll size xs).held <:+ xs :=
  (addAll_spec h xs).1

theorem length_held_lt (h : 0 < size) (xs : List α) : (addAll size xs).held.length < 2 * size := by
  obtain ⟨_, hnewer, holder, _⟩ := addAll_spec h xs
  rw [held, List.length_append]
  omega

theorem recent_suffix_held (h : 0 < size) (xs : List α) :
    xs.drop (xs.length - size) <:+ (addAll size xs).held := by
  obtain ⟨hsuffix, _, _, hall⟩ := addAll_spec h xs
  refine List.suffix_of_suffix_length_le (List.drop_suffix _ _) hsuffix ?_
  rw [List.length_drop]
  obtain hfull | hheld := hall
  · rw [held, List.length_append, hfull]
    omega
  · rw [hheld]
    omega

/-- **What was added as one of the last `size` is held.** -/
theorem mem_held_of_recent (h : 0 < size) {xs : List α} {x : α}
    (hx : x ∈ xs.drop (xs.length - size)) : x ∈ (addAll size xs).held :=
  (recent_suffix_held h xs).subset hx

end Window

end SsAndroid
