import SsAndroid.Lib.SortedList

/-!
# Looking up and removing the items of sorted lists

`indexOf` is the binary search for an item that is to be found and not placed: it gives no index when
the item is not there.  `remove` takes away what it finds.

When tied items are equal, a list is a set with an order.  `Op.apply` is what an operation does to
the set; it knows an item by the number of smaller ones, not by an index.

* **`indexOf_eq_some_iff`**: `indexOf` gives the index where the item is, and only that;
* **`items_run`**: over a run of operations the list holds what the set does.
-/

namespace SsAndroid

namespace Bisect

variable {α : Type} (cb : Callback α) (l : List α) (x : α)

/-- The loop of `findIndexOf` for a lookup or a deletion. -/
def lookupLoop : Nat → Nat → Nat → Option Nat
  | 0, _, _ => none
  | fuel + 1, left, right =>
      if left < right then
        match l[(left + right) / 2]? with
        | none => none
        | some y =>
            match cb.compare y x with
            | .lt => lookupLoop fuel ((left + right) / 2 + 1) right
            | .gt => lookupLoop fuel left ((left + right) / 2)
            | .eq =>
                if cb.areItemsTheSame y x then some ((left + right) / 2)
                else linearEqualitySearch cb l x ((left + right) / 2) left right
      else none

def lookup : Option Nat := lookupLoop cb l x l.length 0 l.length

variable {cb l x}

/-- At an index that is found there is the item. -/
theorem lookupLoop_some : ∀ {fuel left right i : Nat}, lookupLoop cb l x fuel left right = some i →
    ∃ z, l[i]? = some z ∧ cb.Dup z x := by
  intro fuel
  induction fuel with
  | zero => intro left right i h; simp [lookupLoop] at h
  | succ fuel ih =>
    intro left right i h
    rw [lookupLoop] at h
    split at h
    · split at h
      · simp at h
      · rename_i y hy
        split at h
        · exact ih h
        · exact ih h
        · rename_i hcmp
          split at h
          · rename_i hsame
            cases h
            exact ⟨y, hy, hcmp, hsame⟩
          · exact linearEqualitySearch_some h
    · simp at h

/-- An item that is not found is not there. -/
theorem lookupLoop_none (hs : cb.Sorted l) : ∀ {fuel left right : Nat}, right - left ≤ fuel →
    Window cb l x left right → lookupLoop cb l x fuel left right = none →
    ∀ y ∈ l, ¬cb.Dup y x := by
  have hempty : ∀ {left right : Nat}, Window cb l x left right → right ≤ left →
      ∀ y ∈ l, ¬cb.Dup y x := by
    intro left right w hle y hy hd
    obtain ⟨j, hj⟩ := List.mem_iff_getElem?.mp hy
    have := w.mem_inside hj hd.1
    omega
  intro fuel
  induction fuel with
  | zero =>
    intro left right hf w _
    exact hempty w (by omega)
  | succ fuel ih =>
    intro left right hf w h
    have hright := w.right_le
    rw [lookupLoop] at h
    split at h
    · split at h
      · rename_i hnone
        rw [List.getElem?_eq_none_iff] at hnone
        omega
      · rename_i y hy
        split at h
        · rename_i hcmp
          exact ih (by omega) (w.right_half hs hy hcmp (by omega)) h
        · rename_i hcmp
          exact ih (by omega) (w.left_half hs hy hcmp (by omega) (by omega)) h
        · rename_i hcmp
          split at h
          · simp at h
          · rename_i hsame
            exact linearEqualitySearch_none hs w hy hcmp hsame h
    · exact hempty w (by omega)

end Bisect

/-! ### The operations -/

namespace SortedList

variable {α : Type} {cb : Callback α}

/-- `indexOf(item)`; `none` is `INVALID_POSITION`. -/
def indexOf (l : SortedList cb) (x : α) : Option Nat := Bisect.lookup cb l.data x

/-- `removeItemAt(index)`; an index out of range throws, and changes nothing. -/
def removeItemAt (l : SortedList cb) (i : Nat) : SortedList cb where
  data := l.data.eraseIdx i
  sorted := l.sorted.sublist (List.eraseIdx_sublist _ _)
  distinct := l.distinct.sublist (List.eraseIdx_sublist _ _)

/-- `remove(item)`. -/
def remove (l : SortedList cb) (x : α) : SortedList cb :=
  match l.indexOf x with
  | none => l
  | some i => l.removeItemAt i

theorem index_inj {l : SortedList cb} {x : α} {i j : Nat} (hi : l.data[i]? = some x)
    (hj : l.data[j]? = some x) : i = j := by
  obtain ⟨hi', hxi⟩ := List.getElem?_eq_some_iff.mp hi
  obtain ⟨hj', hxj⟩ := List.getElem?_eq_some_iff.mp hj
  exact (l.distinct.nodup.getElem_inj_iff).mp (hxi.trans hxj.symm)

/-- **Every item of the list is found where it is**, and nothing else is found. -/
theorem indexOf_eq_some_iff (hc : cb.Strict) {l : SortedList cb} {x : α} {i : Nat} :
    l.indexOf x = some i ↔ l.data[i]? = some x := by
  have hsound : ∀ {i : Nat}, l.indexOf x = some i → l.data[i]? = some x := by
    intro i h
    obtain ⟨z, hz, hd⟩ := Bisect.lookupLoop_some h
    rw [hz, hc.eq_of_tie hd.1]
  refine ⟨hsound, fun h => ?_⟩
  cases hfound : l.indexOf x with
  | none =>
    have hno := Bisect.lookupLoop_none l.sorted (by omega) (Bisect.Window.whole cb l.data x) hfound
    exact absurd (Callback.Dup.refl x) (hno x (List.mem_of_getElem? h))
  | some j => rw [index_inj (hsound hfound) h]

theorem indexOf_eq_none_iff (hc : cb.Strict) {l : SortedList cb} {x : α} :
    l.indexOf x = none ↔ x ∉ l := by
  rw [mem_def, List.mem_iff_getElem?, Option.eq_none_iff_forall_ne_some, not_exists]
  simp only [ne_eq, indexOf_eq_some_iff hc]

theorem mem_removeItemAt {l : SortedList cb} {i : Nat} {y : α} :
    y ∈ l.removeItemAt i ↔ y ∈ l ∧ l.data[i]? ≠ some y := by
  show y ∈ l.data.eraseIdx i ↔ y ∈ l.data ∧ _
  rw [List.mem_eraseIdx_iff_getElem?, List.mem_iff_getElem?]
  constructor
  · rintro ⟨j, hne, hj⟩
    exact ⟨⟨j, hj⟩, fun hi => hne (index_inj hj hi)⟩
  · rintro ⟨⟨j, hj⟩, hi⟩
    refine ⟨j, ?_, hj⟩
    rintro rfl
    exact hi hj

theorem mem_remove_of_strict (hc : cb.Strict) {l : SortedList cb} {x y : α} :
    y ∈ l.remove x ↔ y ∈ l ∧ y ≠ x := by
  rw [remove]
  split
  · rename_i hnone
    have hx := (indexOf_eq_none_iff hc).mp hnone
    exact ⟨fun hy => ⟨hy, fun heq => hx (heq ▸ hy)⟩, And.left⟩
  · rename_i i hi
    rw [mem_removeItemAt, (indexOf_eq_some_iff hc).mp hi, ne_eq, ne_eq, Option.some.injEq,
      eq_comm (a := x)]

/-- An item comes behind the smaller ones. -/
theorem ncard_smaller (hc : cb.Strict) {l : SortedList cb} {i : Nat} {y : α}
    (hy : l.data[i]? = some y) : {z | z ∈ l ∧ cb.compare z y = .lt}.ncard = i := by
  classical
  have hlt := (hc.noTies l.distinct).lt l.sorted
  obtain ⟨hi, hyi⟩ := List.getElem?_eq_some_iff.mp hy
  have htake : {z | z ∈ l ∧ cb.compare z y = .lt} = ((l.data.take i).toFinset : Set α) := by
    ext z
    rw [Set.mem_ofPred_eq, mem_def, List.coe_toFinset, Set.mem_ofPred_eq, List.mem_take_iff_getElem]
    constructor
    · rintro ⟨hz, hzy⟩
      obtain ⟨j, hj, rfl⟩ := List.mem_iff_getElem.mp hz
      refine ⟨j, ?_, rfl⟩
      by_contra hge
      have hyz := Bisect.le_of_index l.sorted (by omega) hy (List.getElem?_eq_getElem hj)
      rw [Std.OrientedCmp.gt_of_lt hzy] at hyz
      exact absurd hyz (by decide)
    · rintro ⟨j, hj, rfl⟩
      refine ⟨List.getElem_mem _, ?_⟩
      rw [← hyi]
      exact List.pairwise_iff_getElem.mp hlt j i (by omega) hi (by omega)
  rw [htake, Set.ncard_coe_finset,
    List.toFinset_card_of_nodup (l.distinct.nodup.sublist (List.take_sublist _ _)),
    List.length_take, Nat.min_eq_left (Nat.le_of_lt hi)]

/-! ### Runs -/

/-- The operations of a list. -/
inductive Op (α : Type)
  | add (item : α)
  | remove (item : α)
  | removeItemAt (index : Nat)
  | clear

def step (l : SortedList cb) : Op α → SortedList cb
  | .add x => l.add .bisect x
  | .remove x => l.remove x
  | .removeItemAt i => l.removeItemAt i
  | .clear => empty

def run (l : SortedList cb) (ops : List (Op α)) : SortedList cb := ops.foldl step l

/-- What an operation does to the set of items. -/
def Op.apply (cb : Callback α) (held : Set α) : Op α → Set α
  | .add x => insert x held
  | .remove x => held \ {x}
  | .removeItemAt i => {y ∈ held | {z | z ∈ held ∧ cb.compare z y = .lt}.ncard ≠ i}
  | .clear => ∅

def Op.applyAll (cb : Callback α) (held : Set α) (ops : List (Op α)) : Set α :=
  ops.foldl (Op.apply cb) held

def items (l : SortedList cb) : Set α := {x | x ∈ l}

theorem items_step (hc : cb.Strict) (l : SortedList cb) (op : Op α) :
    (l.step op).items = op.apply cb l.items := by
  ext y
  cases op with
  | add x => exact (mem_add_of_strict .bisect hc).trans or_comm
  | remove x => exact mem_remove_of_strict hc
  | removeItemAt i =>
    refine mem_removeItemAt.trans (and_congr_right fun hy => not_congr ?_)
    obtain ⟨j, hj⟩ := List.mem_iff_getElem?.mp hy
    have hrank : {z | z ∈ l ∧ cb.compare z y = .lt}.ncard = j := ncard_smaller hc hj
    show l.data[i]? = some y ↔ {z | z ∈ l ∧ cb.compare z y = .lt}.ncard = i
    rw [hrank]
    constructor
    · exact index_inj hj
    · rintro rfl
      exact hj
  | clear => exact iff_of_false (not_mem_empty y) id

/-- **A run of operations on a list does to its items what it does to a set.** -/
theorem items_run (hc : cb.Strict) (ops : List (Op α)) : ∀ l : SortedList cb,
    (l.run ops).items = Op.applyAll cb l.items ops := by
  induction ops with
  | nil => intro l; rfl
  | cons op ops ih =>
    intro l
    show ((l.step op).run ops).items = Op.applyAll cb (op.apply cb l.items) ops
    rw [ih, items_step hc]

end SortedList

end SsAndroid
