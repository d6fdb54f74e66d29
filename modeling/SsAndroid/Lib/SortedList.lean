import Mathlib

/-!
# Sorted lists

A list kept in the order of a callback, as the `SortedList` of androidx's recycler view keeps it:
`compare` orders the items, `areItemsTheSame` tells whether a new item takes the place of one that
is already there.  The two need not agree: items may *tie* (compare as equal) without being the
same.

* `Placement` is what is relied on of the search for an item's index: the place it gives keeps the
  order, and a tied item that is the same is found.  `add` replaces or inserts at that place;
* `SortedList cb` carries the order, and that no item is there twice;
* **`addAll_data`**: adding the items of a sorted list in their order gives the list back when no
  two of them tie, whatever the placement; in any case all of them stay (`addAll_of_le`);
* `Placement.bisect` is the binary search with its linear search among tied items;
  **`addAll_data_bisect_iff`**: with it the list comes back *only* when no two items tie.
-/

namespace SsAndroid

/-- The part of `SortedList.Callback` that decides where an item goes. -/
structure Callback (α : Type) where
  compare : α → α → Ordering
  areItemsTheSame : α → α → Bool
  trans : Std.TransCmp compare
  same_refl : ∀ x, areItemsTheSame x x = true
  same_symm : ∀ {x y}, compare x y = .eq → areItemsTheSame x y = true →
    areItemsTheSame y x = true
  same_trans : ∀ {x y z}, compare x y = .eq → compare y z = .eq → areItemsTheSame x y = true →
    areItemsTheSame y z = true → areItemsTheSame x z = true

namespace Callback

variable {α : Type} (cb : Callback α)

instance : Std.TransCmp cb.compare := cb.trans

/-- `x` and `y` are one item: they tie and are the same. -/
def Dup (x y : α) : Prop := cb.compare x y = .eq ∧ cb.areItemsTheSame x y = true

def Sorted (l : List α) : Prop := l.Pairwise fun x y => (cb.compare x y).isLE = true

def Distinct (l : List α) : Prop := l.Pairwise fun x y => ¬cb.Dup x y

/-- No two items compare as equal. -/
def NoTies (l : List α) : Prop := l.Pairwise fun x y => cb.compare x y ≠ .eq

/-- Tied items are equal, and only equal items are the same. -/
structure Strict : Prop where
  eq_of_tie : ∀ {x y}, cb.compare x y = .eq → x = y
  eq_of_same : ∀ {x y}, cb.areItemsTheSame x y = true → x = y

instance (x y : α) : Decidable (cb.Dup x y) := inferInstanceAs (Decidable (_ ∧ _))

variable {cb} {x y z : α}

theorem Dup.refl (x : α) : cb.Dup x x := ⟨Std.ReflCmp.compare_self, cb.same_refl x⟩

theorem Dup.symm (h : cb.Dup x y) : cb.Dup y x :=
  ⟨Std.OrientedCmp.eq_symm h.1, cb.same_symm h.1 h.2⟩

theorem Dup.trans (h : cb.Dup x y) (h' : cb.Dup y z) : cb.Dup x z :=
  ⟨Std.TransCmp.eq_trans h.1 h'.1, cb.same_trans h.1 h'.1 h.2 h'.2⟩

theorem isLE_of_eq (h : cb.compare x y = .eq) : (cb.compare x y).isLE = true := by
  rw [h]; rfl

theorem isLE_of_lt (h : cb.compare x y = .lt) : (cb.compare x y).isLE = true := by
  rw [h]; rfl

theorem isLE_of_gt (h : cb.compare y x = .gt) : (cb.compare x y).isLE = true :=
  isLE_of_lt (Std.OrientedCmp.lt_of_gt h)

theorem lt_of_isLE_of_ne (h : (cb.compare x y).isLE = true) (hne : cb.compare x y ≠ .eq) :
    cb.compare x y = .lt := by
  cases hc : cb.compare x y with
  | lt => rfl
  | eq => exact absurd hc hne
  | gt => rw [hc] at h; exact absurd h (by decide)

theorem Distinct.nodup {l : List α} (h : cb.Distinct l) : l.Nodup := by
  refine List.Pairwise.imp ?_ h
  rintro x y hxy rfl
  exact hxy (Dup.refl x)

theorem Strict.noTies (hs : cb.Strict) {l : List α} (h : cb.Distinct l) : cb.NoTies l := by
  refine List.Pairwise.imp ?_ h.nodup
  intro x y hxy he
  exact hxy (hs.eq_of_tie he)

theorem NoTies.lt {l : List α} (h : cb.NoTies l) (hs : cb.Sorted l) :
    l.Pairwise fun x y => cb.compare x y = .lt :=
  List.Pairwise.imp₂ (fun _ _ hle hne => lt_of_isLE_of_ne hle hne) hs h

end Callback

/-! ### Where an item goes -/

/-- The search for the place of an item, with what the list relies on of it. -/
structure Placement where
  findIndexOf : ∀ {α : Type}, Callback α → List α → α → Nat
  before : ∀ {α : Type} (cb : Callback α) (l : List α) (x : α), cb.Sorted l →
    ∀ y ∈ l.take (findIndexOf cb l x), (cb.compare y x).isLE = true
  after : ∀ {α : Type} (cb : Callback α) (l : List α) (x : α), cb.Sorted l →
    ∀ y ∈ l.drop (findIndexOf cb l x), (cb.compare x y).isLE = true
  finds : ∀ {α : Type} (cb : Callback α) (l : List α) (x : α), cb.Sorted l →
    ∀ y ∈ l, cb.Dup y x → ∃ z, l[findIndexOf cb l x]? = some z ∧ cb.Dup z x

namespace SortedList

variable {α : Type} (cb : Callback α)

/-- Put `x` at index `i`: in the place of the item there if that is the same, else in front of it. -/
def addAt (l : List α) (x : α) (i : Nat) : List α :=
  match l.drop i with
  | y :: rest => if cb.areItemsTheSame y x then l.take i ++ x :: rest else l.take i ++ x :: y :: rest
  | [] => l.take i ++ [x]

end SortedList

/-- The items of a list that is sorted by its callback and holds no item twice. -/
structure SortedList {α : Type} (cb : Callback α) where
  data : List α
  sorted : cb.Sorted data
  distinct : cb.Distinct data

namespace SortedList

variable {α : Type} {cb : Callback α}

@[ext] theorem ext {l l' : SortedList cb} (h : l.data = l'.data) : l = l' := by
  cases l; cases l'; cases h; rfl

instance [DecidableEq α] : DecidableEq (SortedList cb) := fun l l' =>
  decidable_of_iff (l.data = l'.data) ⟨ext, fun h => h ▸ rfl⟩

/-- A list that changed in one place, between items that are not larger and items that are not
smaller than the new one. -/
theorem sorted_between {p q : List α} {x : α} (h : cb.Sorted (p ++ q))
    (hp : ∀ y ∈ p, (cb.compare y x).isLE = true) (hq : ∀ y ∈ q, (cb.compare x y).isLE = true) :
    cb.Sorted (p ++ x :: q) := by
  obtain ⟨h1, h2, h3⟩ := List.pairwise_append.mp h
  refine List.pairwise_append.mpr ⟨h1, List.pairwise_cons.mpr ⟨hq, h2⟩, ?_⟩
  intro y hy z hz
  cases List.mem_cons.mp hz with
  | inl hz => exact hz ▸ hp y hy
  | inr hz => exact h3 y hy z hz

theorem distinct_between {p q : List α} {x : α} (h : cb.Distinct (p ++ q))
    (hx : ∀ y ∈ p ++ q, ¬cb.Dup y x) : cb.Distinct (p ++ x :: q) := by
  obtain ⟨h1, h2, h3⟩ := List.pairwise_append.mp h
  refine List.pairwise_append.mpr ⟨h1, List.pairwise_cons.mpr ⟨?_, h2⟩, ?_⟩
  · intro y hy hd
    exact hx y (List.mem_append_right _ hy) hd.symm
  · intro y hy z hz
    cases List.mem_cons.mp hz with
    | inl hz => exact hz ▸ hx y (List.mem_append_left _ hy)
    | inr hz => exact h3 y hy z hz

variable (S : Placement)

/-- What adding an item can do: it takes the place of one that is the same (which then ties with
it, or else nothing in the list does both), or it comes in between. -/
theorem addAt_cases {l : List α} (hs : cb.Sorted l) (x : α) :
    ∃ p q, (∀ y ∈ p, (cb.compare y x).isLE = true) ∧ (∀ y ∈ q, (cb.compare x y).isLE = true) ∧
      addAt cb l x (S.findIndexOf cb l x) = p ++ x :: q ∧
      ((∃ y, l = p ++ y :: q ∧ cb.areItemsTheSame y x = true ∧ (cb.compare x y).isLE = true ∧
          (cb.Dup y x ∨ ∀ z ∈ l, ¬cb.Dup z x)) ∨
        (l = p ++ q ∧ ∀ z ∈ l, ¬cb.Dup z x)) := by
  have hbefore := S.before cb l x hs
  have hafter := S.after cb l x hs
  have hfinds := S.finds cb l x hs
  generalize S.findIndexOf cb l x = i at hbefore hafter hfinds
  have hl : l = l.take i ++ l.drop i := (List.take_append_drop i l).symm
  have hget : l[i]? = (l.drop i).head? := by rw [List.head?_drop]
  unfold addAt
  cases hd : l.drop i with
  | nil =>
    rw [hd] at hl hget
    refine ⟨l.take i, [], hbefore, by simp, rfl, Or.inr ⟨hl, ?_⟩⟩
    intro z hz hdup
    obtain ⟨w, hw, -⟩ := hfinds z hz hdup
    rw [hget] at hw
    simp at hw
  | cons y rest =>
    rw [hd] at hl hget hafter
    have hrest : ∀ z ∈ rest, (cb.compare x z).isLE = true :=
      fun z hz => hafter z (List.mem_cons_of_mem _ hz)
    -- the item at the index is the only candidate for a duplicate
    have honly : cb.Dup y x ∨ ∀ z ∈ l, ¬cb.Dup z x := by
      by_contra hcon
      rw [not_or, not_forall] at hcon
      obtain ⟨hy, z, hz⟩ := hcon
      rw [Classical.not_imp, not_not] at hz
      obtain ⟨w, hw, hwd⟩ := hfinds z hz.1 hz.2
      rw [hget] at hw
      exact hy (Option.some.inj hw ▸ hwd)
    cases hsame : cb.areItemsTheSame y x with
    | true =>
      refine ⟨l.take i, rest, hbefore, hrest, by simp [hsame], Or.inl ⟨y, hl, hsame, ?_, honly⟩⟩
      exact hafter y List.mem_cons_self
    | false =>
      refine ⟨l.take i, y :: rest, hbefore, hafter, by simp [hsame], Or.inr ⟨hl, ?_⟩⟩
      cases honly with
      | inl h => rw [h.2] at hsame; exact absurd hsame (by decide)
      | inr h => exact h

theorem sorted_addAt {l : List α} (hs : cb.Sorted l) (x : α) :
    cb.Sorted (addAt cb l x (S.findIndexOf cb l x)) := by
  obtain ⟨p, q, hp, hq, heq, h⟩ := addAt_cases S hs x
  rw [heq]
  refine sorted_between ?_ hp hq
  obtain ⟨y, rfl, -⟩ | ⟨rfl, -⟩ := h
  · exact hs.sublist (List.Sublist.append_left (List.sublist_cons_self _ _) _)
  · exact hs

theorem distinct_addAt {l : List α} (hs : cb.Sorted l) (hd : cb.Distinct l) (x : α) :
    cb.Distinct (addAt cb l x (S.findIndexOf cb l x)) := by
  obtain ⟨p, q, hp, hq, heq, h⟩ := addAt_cases S hs x
  rw [heq]
  obtain ⟨y, rfl, -, -, hy | hno⟩ | ⟨rfl, hno⟩ := h
  · -- a second duplicate of the new item would be one of the item it replaces
    refine distinct_between (hd.sublist
      (List.Sublist.append_left (List.sublist_cons_self _ _) _)) ?_
    obtain ⟨-, h2, h3⟩ := List.pairwise_append.mp hd
    intro z hz hzx
    cases List.mem_append.mp hz with
    | inl hz => exact h3 z hz y List.mem_cons_self (hzx.trans hy.symm)
    | inr hz => exact (List.pairwise_cons.mp h2).1 z hz (hy.trans hzx.symm)
  · refine distinct_between (hd.sublist
      (List.Sublist.append_left (List.sublist_cons_self _ _) _)) ?_
    intro z hz
    refine hno z ?_
    cases List.mem_append.mp hz with
    | inl hz => exact List.mem_append_left _ hz
    | inr hz => exact List.mem_append_right _ (List.mem_cons_of_mem _ hz)
  · exact distinct_between hd hno

/-- `SortedList.add`. -/
def add (l : SortedList cb) (x : α) : SortedList cb where
  data := addAt cb l.data x (S.findIndexOf cb l.data x)
  sorted := sorted_addAt S l.sorted x
  distinct := distinct_addAt S l.sorted l.distinct x

/-- `SortedList.clear`, and a new list. -/
def empty : SortedList cb := ⟨[], List.Pairwise.nil, List.Pairwise.nil⟩

/-- `for (item in items) l.add(item)`. -/
def addAll (l : SortedList cb) (items : List α) : SortedList cb := items.foldl (add S) l

@[simp] theorem empty_data : (empty : SortedList cb).data = [] := rfl

@[simp] theorem addAll_nil (l : SortedList cb) : l.addAll S [] = l := rfl

@[simp] theorem addAll_cons (l : SortedList cb) (x : α) (xs : List α) :
    l.addAll S (x :: xs) = (l.add S x).addAll S xs := rfl

theorem addAll_append (l : SortedList cb) (xs ys : List α) :
    l.addAll S (xs ++ ys) = (l.addAll S xs).addAll S ys := List.foldl_append

/-! ### Which items there are -/

instance : Membership α (SortedList cb) := ⟨fun l x => x ∈ l.data⟩

theorem mem_def {l : SortedList cb} {x : α} : x ∈ l ↔ x ∈ l.data := Iff.rfl

@[simp] theorem not_mem_empty (x : α) : x ∉ (empty : SortedList cb) := List.not_mem_nil

theorem mem_add_of_strict (hc : cb.Strict) {l : SortedList cb} {x y : α} :
    y ∈ l.add S x ↔ y ∈ l ∨ y = x := by
  obtain ⟨p, q, -, -, heq, h⟩ := addAt_cases S l.sorted x
  have hdata : (l.add S x).data = p ++ x :: q := heq
  rw [mem_def, mem_def, hdata]
  obtain ⟨z, hl, hsame, -⟩ | ⟨hl, -⟩ := h
  · have hz : z = x := hc.eq_of_same hsame
    rw [hl, hz, List.mem_append, List.mem_cons]
    tauto
  · rw [hl, List.mem_append, List.mem_append, List.mem_cons]
    tauto

/-- An item that is in the list after an addition was there before, or is the new one. -/
theorem mem_of_mem_add {l : SortedList cb} {x y : α} (h : y ∈ l.add S x) : y ∈ l ∨ y = x := by
  obtain ⟨p, q, -, -, heq, hcases⟩ := addAt_cases S l.sorted x
  have hdata : (l.add S x).data = p ++ x :: q := heq
  rw [mem_def, hdata, List.mem_append, List.mem_cons] at h
  rw [mem_def]
  obtain ⟨z, hl, -⟩ | ⟨hl, -⟩ := hcases
  · rw [hl, List.mem_append, List.mem_cons]
    tauto
  · rw [hl, List.mem_append]
    tauto

/-- The new item is in the list. -/
theorem mem_add_self (l : SortedList cb) (x : α) : x ∈ l.add S x := by
  obtain ⟨p, q, -, -, heq, -⟩ := addAt_cases S l.sorted x
  have hdata : (l.add S x).data = p ++ x :: q := heq
  rw [mem_def, hdata]
  exact List.mem_append_right _ List.mem_cons_self

theorem mem_addAll_of_strict (hc : cb.Strict) {l : SortedList cb} {xs : List α} {y : α} :
    y ∈ l.addAll S xs ↔ y ∈ l ∨ y ∈ xs := by
  induction xs generalizing l with
  | nil => simp
  | cons x xs ih =>
    rw [addAll_cons, ih, mem_add_of_strict S hc, List.mem_cons]
    tauto

theorem mem_of_mem_addAll {l : SortedList cb} {xs : List α} {y : α} (h : y ∈ l.addAll S xs) :
    y ∈ l ∨ y ∈ xs := by
  induction xs generalizing l with
  | nil => exact Or.inl h
  | cons x xs ih =>
    rw [addAll_cons] at h
    rw [List.mem_cons]
    cases ih h with
    | inl h =>
      cases mem_of_mem_add S h with
      | inl h => exact Or.inl h
      | inr h => exact Or.inr (Or.inl h)
    | inr h => exact Or.inr (Or.inr h)

/-- If only tied items are the same, an addition leaves every item there, or one that is it. -/
theorem exists_dup_add {l : SortedList cb} {x y : α}
    (hc : ∀ z ∈ l, cb.areItemsTheSame z x = true → cb.compare z x = .eq)
    (h : ∃ z ∈ l, cb.Dup z y) : ∃ z ∈ l.add S x, cb.Dup z y := by
  obtain ⟨p, q, -, -, heq, hcases⟩ := addAt_cases S l.sorted x
  have hdata : (l.add S x).data = p ++ x :: q := heq
  obtain ⟨z, hz, hzy⟩ := h
  rw [mem_def] at hz
  obtain ⟨w, hl, hsame, -⟩ | ⟨hl, -⟩ := hcases
  · have hw : w ∈ l := by
      rw [mem_def, hl]
      exact List.mem_append_right _ List.mem_cons_self
    by_cases hzw : z = w
    · -- the item was replaced by the new one, which is it as well
      subst hzw
      have hzx : cb.Dup z x := ⟨hc z hw hsame, hsame⟩
      exact ⟨x, mem_add_self S l x, hzx.symm.trans hzy⟩
    · refine ⟨z, ?_, hzy⟩
      rw [hl, List.mem_append, List.mem_cons] at hz
      rw [mem_def, hdata, List.mem_append, List.mem_cons]
      tauto
  · refine ⟨z, ?_, hzy⟩
    rw [hl, List.mem_append] at hz
    rw [mem_def, hdata, List.mem_append, List.mem_cons]
    tauto

theorem exists_dup_addAll {xs : List α} : ∀ {l : SortedList cb} {y : α},
    (∀ x ∈ xs, ∀ z, (z ∈ l ∨ z ∈ xs) → cb.areItemsTheSame z x = true → cb.compare z x = .eq) →
    ((∃ z ∈ l, cb.Dup z y) ∨ y ∈ xs) → ∃ z ∈ l.addAll S xs, cb.Dup z y := by
  induction xs with
  | nil =>
    intro l y _ h
    simpa using h
  | cons x xs ih =>
    intro l y hc h
    rw [addAll_cons]
    refine ih ?_ ?_
    · intro x' hx' z hz
      refine hc x' (List.mem_cons_of_mem _ hx') z ?_
      cases hz with
      | inl hz =>
        cases mem_of_mem_add S hz with
        | inl hz => exact Or.inl hz
        | inr hz => exact Or.inr (hz ▸ List.mem_cons_self)
      | inr hz => exact Or.inr (List.mem_cons_of_mem _ hz)
    · cases h with
      | inl h =>
        exact Or.inl (exists_dup_add S (fun z hz => hc x List.mem_cons_self z (Or.inl hz)) h)
      | inr h =>
        cases List.mem_cons.mp h with
        | inl h =>
          subst h
          exact Or.inl ⟨y, mem_add_self S l y, Callback.Dup.refl y⟩
        | inr h => exact Or.inr h

/-! ### Adding items in their order -/

/-- An item that is not smaller than any in the list, and none of them, leaves them all there. -/
theorem add_of_le {l : SortedList cb} {x : α} (hle : ∀ y ∈ l, (cb.compare y x).isLE = true)
    (hno : ∀ y ∈ l, ¬cb.Dup y x) :
    ∃ p q, l.data = p ++ q ∧ (l.add S x).data = p ++ x :: q ∧
      ∀ y ∈ q, cb.compare x y = .eq := by
  obtain ⟨p, q, -, hq, heq, h⟩ := addAt_cases S l.sorted x
  obtain ⟨z, hl, hsame, hxz, -⟩ | ⟨hl, -⟩ := h
  · have hz : z ∈ l := by
      rw [mem_def, hl]
      exact List.mem_append_right _ List.mem_cons_self
    have htie : cb.compare z x = .eq := Std.OrientedCmp.isLE_antisymm (hle z hz) hxz
    exact absurd ⟨htie, hsame⟩ (hno z hz)
  · refine ⟨p, q, hl, heq, ?_⟩
    intro y hy
    have hyl : y ∈ l := by
      rw [mem_def, hl]
      exact List.mem_append_right _ hy
    exact Std.OrientedCmp.isLE_antisymm (hq y hy) (hle y hyl)

/-- An item larger than all in the list goes to its end. -/
theorem add_of_lt {l : SortedList cb} {x : α} (h : ∀ y ∈ l, cb.compare y x = .lt) :
    (l.add S x).data = l.data ++ [x] := by
  have hne : ∀ y ∈ l, cb.compare y x ≠ .eq := by
    intro y hy
    rw [h y hy]
    decide
  obtain ⟨p, q, hl, hadd, hq⟩ := add_of_le S (fun y hy => Callback.isLE_of_lt (h y hy))
    (fun y hy hd => hne y hy hd.1)
  cases q with
  | nil => rw [hadd, hl, List.append_nil]
  | cons z q =>
    have hz : z ∈ l := by
      rw [mem_def, hl]
      exact List.mem_append_right _ List.mem_cons_self
    exact absurd (Std.OrientedCmp.eq_symm (hq z List.mem_cons_self)) (hne z hz)

theorem addAll_of_lt (xs : List α) : ∀ l : SortedList cb,
    (l.data ++ xs).Pairwise (fun x y => cb.compare x y = .lt) →
    (l.addAll S xs).data = l.data ++ xs := by
  induction xs with
  | nil => intro l _; rw [addAll_nil, List.append_nil]
  | cons x xs ih =>
    intro l h
    have hx : (l.add S x).data = l.data ++ [x] := by
      refine add_of_lt S ?_
      intro y hy
      exact (List.pairwise_append.mp h).2.2 y hy x List.mem_cons_self
    rw [addAll_cons, ih, hx, List.append_assoc, List.singleton_append]
    rwa [hx, List.append_assoc, List.singleton_append]

/-- **Adding the items of a list in their order gives the list back**, if no two of them tie. -/
theorem addAll_data {l : SortedList cb} (h : cb.NoTies l.data) :
    (empty : SortedList cb).addAll S l.data = l :=
  ext (addAll_of_lt S l.data empty (h.lt l.sorted))

theorem addAll_data_of_strict (hc : cb.Strict) (l : SortedList cb) :
    (empty : SortedList cb).addAll S l.data = l :=
  addAll_data S (hc.noTies l.distinct)

/-- The items that are added in order, each larger than or tied with those before it, all stay,
and the order of the items that were there does not change. -/
theorem addAll_of_le (xs : List α) : ∀ (l : SortedList cb) (ys : List α), l.data.Perm ys →
    cb.Sorted (ys ++ xs) → cb.Distinct (ys ++ xs) →
    (l.addAll S xs).data.Perm (ys ++ xs) ∧ l.data.Sublist (l.addAll S xs).data := by
  induction xs with
  | nil => intro l ys hp _ _; rw [addAll_nil, List.append_nil]; exact ⟨hp, List.Sublist.refl _⟩
  | cons x xs ih =>
    intro l ys hp hs hd
    obtain ⟨p, q, hl, hadd, -⟩ : ∃ p q, l.data = p ++ q ∧ (l.add S x).data = p ++ x :: q ∧
        ∀ y ∈ q, cb.compare x y = .eq := by
      refine add_of_le S ?_ ?_
      · intro y hy
        exact (List.pairwise_append.mp hs).2.2 y (hp.mem_iff.mp hy) x List.mem_cons_self
      · intro y hy
        exact (List.pairwise_append.mp hd).2.2 y (hp.mem_iff.mp hy) x List.mem_cons_self
    have hperm : (l.add S x).data.Perm (ys ++ [x]) := by
      rw [hadd]
      refine List.perm_middle.trans ?_
      rw [← hl]
      exact (List.Perm.cons x hp).trans (List.perm_append_singleton x ys).symm
    have hsub : l.data.Sublist (l.add S x).data := by
      rw [hl, hadd]
      exact List.Sublist.append_left (List.sublist_cons_self _ _) _
    have happ : ys ++ x :: xs = (ys ++ [x]) ++ xs := by
      rw [List.append_assoc, List.singleton_append]
    rw [happ] at hs hd ⊢
    obtain ⟨h1, h2⟩ := ih (l.add S x) (ys ++ [x]) hperm hs hd
    exact ⟨h1, hsub.trans h2⟩

end SortedList

/-! ### The binary search -/

namespace Bisect

variable {α : Type} (cb : Callback α) (l : List α) (x : α)

/-- The left half of `linearEqualitySearch`: from index `n - 1` down to `left`, as long as the items
tie with `x`. -/
def goLeft (left : Nat) : Nat → Option Nat
  | 0 => none
  | n + 1 =>
      if n < left then none
      else
        match l[n]? with
        | none => none
        | some y =>
            if cb.compare y x = .eq then
              if cb.areItemsTheSame y x then some n else goLeft left n
            else none

/-- The right half: `count` items from index `next` on. -/
def goRight : Nat → Nat → Option Nat
  | 0, _ => none
  | count + 1, next =>
      match l[next]? with
      | none => none
      | some y =>
          if cb.compare y x = .eq then
            if cb.areItemsTheSame y x then some next else goRight count (next + 1)
          else none

def linearEqualitySearch (middle left right : Nat) : Option Nat :=
  (goLeft cb l x left middle).or (goRight cb l x (right - (middle + 1)) (middle + 1))

/-- The loop of `findIndexOf`; each round at least halves `right - left`. -/
def loop : Nat → Nat → Nat → Nat
  | 0, left, _ => left
  | fuel + 1, left, right =>
      if left < right then
        match l[(left + right) / 2]? with
        | none => left
        | some y =>
            match cb.compare y x with
            | .lt => loop fuel ((left + right) / 2 + 1) right
            | .gt => loop fuel left ((left + right) / 2)
            | .eq =>
                if cb.areItemsTheSame y x then (left + right) / 2
                else (linearEqualitySearch cb l x ((left + right) / 2) left right).getD
                  ((left + right) / 2)
      else left

def findIndexOf : Nat := loop cb l x l.length 0 l.length

variable {cb l x}

/-- What the search promises of the index it returns. -/
structure Good (cb : Callback α) (l : List α) (x : α) (i : Nat) : Prop where
  before : ∀ y ∈ l.take i, (cb.compare y x).isLE = true
  after : ∀ y ∈ l.drop i, (cb.compare x y).isLE = true
  finds : ∀ y ∈ l, cb.Dup y x → ∃ z, l[i]? = some z ∧ cb.Dup z x
  atTie : ∀ y ∈ l, cb.compare y x = .eq → ∃ z, l[i]? = some z ∧ cb.compare z x = .eq

theorem le_of_index (hs : cb.Sorted l) {i j : Nat} {y z : α} (hij : i ≤ j) (hi : l[i]? = some y)
    (hj : l[j]? = some z) : (cb.compare y z).isLE = true := by
  obtain ⟨hi', rfl⟩ := List.getElem?_eq_some_iff.mp hi
  obtain ⟨hj', rfl⟩ := List.getElem?_eq_some_iff.mp hj
  obtain h | h := Nat.lt_or_eq_of_le hij
  · exact List.pairwise_iff_getElem.mp hs i j hi' hj' h
  · subst h
    exact Std.ReflCmp.isLE_rfl

/-- The index of a tied item keeps the order. -/
theorem good_of_tie (hs : cb.Sorted l) {i : Nat} {z : α} (hi : l[i]? = some z)
    (hz : cb.compare z x = .eq) (hf : ∀ y ∈ l, cb.Dup y x → cb.Dup z x) :
    Good cb l x i where
  before := by
    intro y hy
    obtain ⟨j, hj⟩ := List.mem_iff_getElem?.mp hy
    rw [List.getElem?_take] at hj
    split at hj
    · rename_i hji
      exact Std.TransCmp.isLE_trans (le_of_index hs (by omega) hj hi) (Callback.isLE_of_eq hz)
    · simp at hj
  after := by
    intro y hy
    obtain ⟨j, hj⟩ := List.mem_iff_getElem?.mp hy
    rw [List.getElem?_drop] at hj
    have hx : (cb.compare x z).isLE = true := Callback.isLE_of_eq (Std.OrientedCmp.eq_symm hz)
    exact Std.TransCmp.isLE_trans hx (le_of_index hs (by omega) hi hj)
  finds := fun y hy hd => ⟨z, hi, hf y hy hd⟩
  atTie := fun _ _ _ => ⟨z, hi, hz⟩

theorem goLeft_some {left : Nat} : ∀ {n i : Nat}, goLeft cb l x left n = some i →
    ∃ z, l[i]? = some z ∧ cb.Dup z x := by
  intro n
  induction n with
  | zero => intro i h; simp [goLeft] at h
  | succ n ih =>
    intro i h
    rw [goLeft] at h
    split at h
    · simp at h
    · split at h
      · simp at h
      · rename_i y hy
        split at h
        · rename_i htie
          split at h
          · rename_i hsame
            cases h
            exact ⟨y, hy, htie, hsame⟩
          · exact ih h
        · simp at h

theorem goRight_some : ∀ {count next i : Nat}, goRight cb l x count next = some i →
    ∃ z, l[i]? = some z ∧ cb.Dup z x := by
  intro count
  induction count with
  | zero => intro next i h; simp [goRight] at h
  | succ count ih =>
    intro next i h
    rw [goRight] at h
    split at h
    · simp at h
    · rename_i y hy
      split at h
      · rename_i htie
        split at h
        · rename_i hsame
          cases h
          exact ⟨y, hy, htie, hsame⟩
        · exact ih h
      · simp at h

/-- Walking left from a tied item misses no duplicate: an item that does not tie is smaller, and so
is all that stands before it. -/
theorem goLeft_none (hs : cb.Sorted l) {left m : Nat} {w : α} (hm : l[m]? = some w)
    (hw : cb.compare w x = .eq) : ∀ {n : Nat}, n ≤ m → goLeft cb l x left n = none →
    ∀ j y, left ≤ j → j < n → l[j]? = some y → ¬cb.Dup y x := by
  intro n
  induction n with
  | zero => intro _ _ j y _ hj; omega
  | succ n ih =>
    intro hn h j y hlj hjn hy hd
    rw [goLeft, if_neg (by omega)] at h
    split at h
    · rename_i hnone
      have hlen := (List.getElem?_eq_some_iff.mp hm).1
      rw [List.getElem?_eq_none_iff] at hnone
      omega
    · rename_i z hz
      split at h
      · rename_i htie
        split at h
        · simp at h
        · rename_i hsame
          obtain hjn | rfl : j < n ∨ j = n := by omega
          · exact ih (by omega) h j y hlj hjn hy hd
          · rw [hz] at hy
            cases hy
            exact hsame hd.2
      · rename_i htie
        have hzw : (cb.compare z x).isLE = true :=
          Std.TransCmp.isLE_trans (le_of_index hs (by omega) hz hm) (Callback.isLE_of_eq hw)
        have hlt := Callback.lt_of_isLE_of_ne hzw htie
        have hyz : (cb.compare y z).isLE = true := le_of_index hs (by omega) hy hz
        have hyx : cb.compare y x = .lt := Std.TransCmp.lt_of_isLE_of_lt hyz hlt
        rw [hd.1] at hyx
        exact absurd hyx (by decide)

theorem goRight_none (hs : cb.Sorted l) {m : Nat} {w : α} (hm : l[m]? = some w)
    (hw : cb.compare w x = .eq) : ∀ {count next : Nat}, m ≤ next →
    goRight cb l x count next = none →
    ∀ j y, next ≤ j → j < next + count → l[j]? = some y → ¬cb.Dup y x := by
  intro count
  induction count with
  | zero => intro next _ _ j y _ hj; omega
  | succ count ih =>
    intro next hn h j y hlj hjn hy hd
    rw [goRight] at h
    split at h
    · rename_i hnone
      have hlen := (List.getElem?_eq_some_iff.mp hy).1
      rw [List.getElem?_eq_none_iff] at hnone
      omega
    · rename_i z hz
      split at h
      · rename_i htie
        split at h
        · simp at h
        · rename_i hsame
          obtain hjn' | rfl : next + 1 ≤ j ∨ j = next := by omega
          · exact ih (by omega) h j y hjn' (by omega) hy hd
          · rw [hz] at hy
            cases hy
            exact hsame hd.2
      · rename_i htie
        have hxz : (cb.compare x z).isLE = true :=
          Std.TransCmp.isLE_trans (Callback.isLE_of_eq (Std.OrientedCmp.eq_symm hw))
            (le_of_index hs hn hm hz)
        have hlt := Callback.lt_of_isLE_of_ne hxz (fun h => htie (Std.OrientedCmp.eq_symm h))
        have hzy : (cb.compare z y).isLE = true := le_of_index hs hlj hz hy
        have hxy : cb.compare x y = .lt := Std.TransCmp.lt_of_lt_of_isLE hlt hzy
        rw [Std.OrientedCmp.eq_symm hd.1] at hxy
        exact absurd hxy (by decide)

/-- What the loop knows: everything left of `left` is smaller, everything from `right` on larger. -/
structure Window (cb : Callback α) (l : List α) (x : α) (left right : Nat) : Prop where
  smaller : ∀ j y, j < left → l[j]? = some y → cb.compare y x = .lt
  larger : ∀ j y, right ≤ j → l[j]? = some y → cb.compare y x = .gt
  left_le : left ≤ right
  right_le : right ≤ l.length

theorem Window.mem_inside {left right : Nat} (w : Window cb l x left right) {j : Nat} {y : α}
    (hj : l[j]? = some y) (hy : cb.compare y x = .eq) : left ≤ j ∧ j < right := by
  constructor
  · by_contra hlt
    rw [w.smaller j y (by omega) hj] at hy
    exact absurd hy (by decide)
  · by_contra hge
    rw [w.larger j y (by omega) hj] at hy
    exact absurd hy (by decide)

theorem Window.good {i : Nat} (w : Window cb l x i i) : Good cb l x i where
  before := by
    intro y hy
    obtain ⟨j, hj⟩ := List.mem_iff_getElem?.mp hy
    rw [List.getElem?_take] at hj
    split at hj
    · rename_i hji
      exact Callback.isLE_of_lt (w.smaller j y hji hj)
    · simp at hj
  after := by
    intro y hy
    obtain ⟨j, hj⟩ := List.mem_iff_getElem?.mp hy
    rw [List.getElem?_drop] at hj
    exact Callback.isLE_of_gt (w.larger (i + j) y (by omega) hj)
  finds := by
    intro y hy hd
    obtain ⟨j, hj⟩ := List.mem_iff_getElem?.mp hy
    have := w.mem_inside hj hd.1
    omega
  atTie := by
    intro y hy htie
    obtain ⟨j, hj⟩ := List.mem_iff_getElem?.mp hy
    have := w.mem_inside hj htie
    omega

theorem linearEqualitySearch_some {left right m i : Nat}
    (h : linearEqualitySearch cb l x m left right = some i) : ∃ z, l[i]? = some z ∧ cb.Dup z x := by
  rw [linearEqualitySearch, Option.or_eq_some_iff] at h
  cases h with
  | inl h => exact goLeft_some h
  | inr h => exact goRight_some h.2

/-- From a tied item that is not the same, the linear search misses no duplicate. -/
theorem linearEqualitySearch_none (hs : cb.Sorted l) {left right m : Nat}
    (w : Window cb l x left right) {y : α} (hm : l[m]? = some y) (hy : cb.compare y x = .eq)
    (hsame : ¬cb.areItemsTheSame y x = true)
    (h : linearEqualitySearch cb l x m left right = none) : ∀ v ∈ l, ¬cb.Dup v x := by
  intro v hv hd
  rw [linearEqualitySearch, Option.or_eq_none_iff] at h
  obtain ⟨j, hj⟩ := List.mem_iff_getElem?.mp hv
  obtain ⟨h1, h2⟩ := w.mem_inside hj hd.1
  obtain hjm | rfl | hjm := Nat.lt_trichotomy j m
  · exact goLeft_none hs hm hy (Nat.le_refl m) h.1 j v h1 hjm hj hd
  · rw [hm] at hj
    cases hj
    exact hsame hd.2
  · exact goRight_none hs hm hy (Nat.le_succ m) h.2 j v hjm (by omega) hj hd

/-- The branch of the loop that meets a tied item in the middle. -/
theorem good_tie (hs : cb.Sorted l) {left right m : Nat} (w : Window cb l x left right) {y : α}
    (hm : l[m]? = some y) (hy : cb.compare y x = .eq) :
    Good cb l x (if cb.areItemsTheSame y x then m
      else (linearEqualitySearch cb l x m left right).getD m) := by
  split
  · rename_i hsame
    exact good_of_tie hs hm hy (fun _ _ _ => ⟨hy, hsame⟩)
  · rename_i hsame
    cases hlin : linearEqualitySearch cb l x m left right with
    | some i =>
      obtain ⟨z, hz, hd⟩ := linearEqualitySearch_some hlin
      exact good_of_tie hs hz hd.1 (fun _ _ _ => hd)
    | none =>
      have hno := linearEqualitySearch_none hs w hm hy hsame hlin
      exact good_of_tie hs hm hy (fun v hv hd => absurd hd (hno v hv))

theorem Window.whole (cb : Callback α) (l : List α) (x : α) : Window cb l x 0 l.length := by
  refine ⟨?_, ?_, Nat.zero_le _, Nat.le_refl _⟩
  · intro j y hj
    omega
  · intro j y hj hy
    have := (List.getElem?_eq_some_iff.mp hy).1
    omega

/-- A smaller item in the middle takes the left half away. -/
theorem Window.right_half (hs : cb.Sorted l) {left right m : Nat} (w : Window cb l x left right)
    {y : α} (hm : l[m]? = some y) (hy : cb.compare y x = .lt) (hmr : m < right) :
    Window cb l x (m + 1) right := by
  refine ⟨?_, w.larger, by omega, w.right_le⟩
  intro j z hj hz
  exact Std.TransCmp.lt_of_isLE_of_lt (le_of_index hs (by omega) hz hm) hy

/-- A larger item in the middle takes the right half away. -/
theorem Window.left_half (hs : cb.Sorted l) {left right m : Nat} (w : Window cb l x left right)
    {y : α} (hm : l[m]? = some y) (hy : cb.compare y x = .gt) (hlm : left ≤ m) (hmr : m < right) :
    Window cb l x left m := by
  have hright := w.right_le
  refine ⟨w.smaller, ?_, hlm, by omega⟩
  intro j z hj hz
  have hyz := le_of_index hs hj hm hz
  exact Std.OrientedCmp.gt_of_lt
    (Std.TransCmp.lt_of_lt_of_isLE (Std.OrientedCmp.lt_of_gt hy) hyz)

theorem good_loop (hs : cb.Sorted l) : ∀ (fuel left right : Nat), right - left ≤ fuel →
    Window cb l x left right → Good cb l x (loop cb l x fuel left right) := by
  intro fuel
  induction fuel with
  | zero =>
    intro left right hf w
    obtain rfl : left = right := by have := w.left_le; omega
    exact w.good
  | succ fuel ih =>
    intro left right hf w
    rw [loop]
    split
    · rename_i hlt
      have hmid : (left + right) / 2 < l.length := by have := w.right_le; omega
      split
      · rename_i hnone
        rw [List.getElem?_eq_none_iff] at hnone
        omega
      · rename_i y hy
        split
        · rename_i hcmp
          exact ih _ _ (by omega) (w.right_half hs hy hcmp (by omega))
        · rename_i hcmp
          exact ih _ _ (by omega) (w.left_half hs hy hcmp (by omega) (by omega))
        · rename_i hcmp
          exact good_tie hs w hy hcmp
    · rename_i hge
      obtain rfl : left = right := by have := w.left_le; omega
      exact w.good

theorem good_findIndexOf (hs : cb.Sorted l) : Good cb l x (findIndexOf cb l x) :=
  good_loop hs _ _ _ (by omega) (Window.whole cb l x)

end Bisect

/-- The place that `SortedList.findIndexOf` gives an item to be inserted. -/
def Placement.bisect : Placement where
  findIndexOf := Bisect.findIndexOf
  before := fun _ _ _ hs => (Bisect.good_findIndexOf hs).before
  after := fun _ _ _ hs => (Bisect.good_findIndexOf hs).after
  finds := fun _ _ _ hs => (Bisect.good_findIndexOf hs).finds

namespace SortedList

variable {α : Type} {cb : Callback α}

/-- An item that ties with the last one only, and is not that one, goes in front of it. -/
theorem add_bisect_of_tie {l : SortedList cb} {p : List α} {x y : α} (hl : l.data = p ++ [x])
    (hp : ∀ z ∈ p, cb.compare z y = .lt) (htie : cb.compare x y = .eq) (hno : ¬cb.Dup x y) :
    (l.add .bisect y).data = p ++ [y, x] := by
  have hgood := Bisect.good_findIndexOf (x := y) l.sorted
  have hx : x ∈ l.data := by rw [hl]; exact List.mem_append_right _ List.mem_cons_self
  obtain ⟨z, hz, hzy⟩ := hgood.atTie x hx htie
  have hidx : Bisect.findIndexOf cb l.data y = p.length := by
    rw [hl] at hz
    obtain hlt | heq | hgt := Nat.lt_trichotomy (Bisect.findIndexOf cb (p ++ [x]) y) p.length
    · rw [List.getElem?_append_left hlt] at hz
      rw [hp z (List.mem_of_getElem? hz)] at hzy
      exact absurd hzy (by decide)
    · rw [hl]
      exact heq
    · rw [List.getElem?_eq_none (by simp; omega)] at hz
      simp at hz
  have hsame : cb.areItemsTheSame x y = false := by
    cases h : cb.areItemsTheSame x y with
    | false => rfl
    | true => exact absurd ⟨htie, h⟩ hno
  show addAt cb l.data y (Bisect.findIndexOf cb l.data y) = _
  rw [hidx, hl, addAt, List.drop_left, List.take_left]
  simp [hsame]

/-- The first two neighbours that tie, if any items do. -/
theorem exists_first_tie {l : List α} (hs : cb.Sorted l) (h : ¬cb.NoTies l) :
    ∃ p x y r, l = p ++ x :: y :: r ∧ cb.NoTies (p ++ [x]) ∧ cb.compare x y = .eq := by
  induction l using List.reverseRecOn with
  | nil => exact absurd List.Pairwise.nil h
  | append_singleton l y ih =>
    by_cases hl : cb.NoTies l
    · cases l using List.reverseRecOn with
      | nil => exact absurd (List.pairwise_singleton _ _) h
      | append_singleton p x =>
        refine ⟨p, x, y, [], by simp, hl, ?_⟩
        -- whoever ties with the last item, its neighbour does
        by_contra hxy
        refine h (List.pairwise_append.mpr ⟨hl, List.pairwise_singleton _ _, ?_⟩)
        intro z hz w hw
        obtain rfl := List.mem_singleton.mp hw
        have hle := (List.pairwise_append.mp hs).2.2
        have hxy' := Callback.lt_of_isLE_of_ne
          (hle x (List.mem_append_right _ List.mem_cons_self) w List.mem_cons_self) hxy
        have hzx : (cb.compare z x).isLE = true := by
          cases List.mem_append.mp hz with
          | inl hz =>
            exact (List.pairwise_append.mp (List.pairwise_append.mp hs).1).2.2 z hz x
              List.mem_cons_self
          | inr hz =>
            rw [List.mem_singleton.mp hz]
            exact Std.ReflCmp.isLE_rfl
        rw [Std.TransCmp.lt_of_isLE_of_lt hzx hxy']
        decide
    · obtain ⟨p, x, z, r, rfl, hp, htie⟩ := ih (List.pairwise_append.mp hs).1 hl
      exact ⟨p, x, z, r ++ [y], by simp, hp, htie⟩

theorem not_both_orders {l : List α} (h : l.Nodup) {x y : α} (hxy : [x, y].Sublist l)
    (hyx : [y, x].Sublist l) : False := by
  classical
  have hidx : l.Pairwise fun a b => l.idxOf a < l.idxOf b := by
    rw [List.pairwise_iff_getElem]
    intro i j hi hj hij
    rw [h.idxOf_getElem i hi, h.idxOf_getElem j hj]
    exact hij
  have h1 := List.rel_of_pairwise_cons (hidx.sublist hxy) List.mem_cons_self
  have h2 := List.rel_of_pairwise_cons (hidx.sublist hyx) List.mem_cons_self
  omega

/-- **With the binary search, adding the items of a list in their order gives the list back
exactly when no two of them tie**: of two neighbours that do, the second overtakes the first. -/
theorem addAll_data_bisect_iff (l : SortedList cb) :
    (empty : SortedList cb).addAll .bisect l.data = l ↔ cb.NoTies l.data := by
  refine ⟨fun h => ?_, addAll_data .bisect⟩
  by_contra hties
  obtain ⟨p, x, y, r, hl, hnt, htie⟩ := exists_first_tie l.sorted hties
  have hpxy : l.data = (p ++ [x]) ++ y :: r := by rw [hl]; simp
  have hs := l.sorted
  have hd := l.distinct
  rw [hpxy] at hs hd
  -- up to the first of the two everything is in its place
  have hpx : ((empty : SortedList cb).addAll .bisect (p ++ [x])).data = p ++ [x] :=
    addAll_of_lt .bisect _ empty (hnt.lt (List.pairwise_append.mp hs).1)
  have hpy : ∀ z ∈ p, cb.compare z y = .lt := by
    intro z hz
    have hzx : cb.compare z x = .lt :=
      (List.pairwise_append.mp (hnt.lt (List.pairwise_append.mp hs).1)).2.2 z hz x
        List.mem_cons_self
    exact Std.TransCmp.lt_of_lt_of_eq hzx htie
  have hno : ¬cb.Dup x y :=
    (List.pairwise_append.mp hd).2.2 x (List.mem_append_right _ List.mem_cons_self) y
      List.mem_cons_self
  have hflip := add_bisect_of_tie hpx hpy htie hno
  -- the rest moves neither of them
  have happ : (p ++ [x]) ++ y :: r = (p ++ [x, y]) ++ r := by simp
  rw [hpxy, addAll_append, addAll_cons] at h
  rw [happ] at hs hd
  have hrest := (addAll_of_le .bisect r (SortedList.add .bisect
      ((empty : SortedList cb).addAll .bisect (p ++ [x])) y) (p ++ [x, y])
      (by rw [hflip]; exact List.Perm.append_left p (List.Perm.swap x y [])) hs hd).2
  rw [h, hflip] at hrest
  have hyx : [y, x].Sublist l.data := (List.sublist_append_right p [y, x]).trans hrest
  have hxy : [x, y].Sublist l.data := by
    rw [hl]
    refine List.Sublist.trans ?_ (List.sublist_append_right p (x :: y :: r))
    exact List.Sublist.cons_cons x (List.Sublist.cons_cons y (List.nil_sublist r))
  exact not_both_orders l.distinct.nodup hxy hyx

end SortedList

end SsAndroid
