import Mathlib

/-!
# Finite maps that remember the order of their entries

`LinkedMap κ ν` is a finite map kept as the list of its entries, each key once.  `put` overwrites
the value of a present key where it stands and appends a new key at the end, which is the iteration
order of `java.util.LinkedHashMap`.  A map whose iteration order is unspecified (`HashMap`) is read
through an `IterationOrder`: a choice, for every list of entries, of one of its permutations.

Two maps are the same map when they agree on every key (`get?`); the order of the entries is no part
of that.  The file proves the lookup laws of `put`, and that filling an empty map from any list of
entries with distinct keys gives back exactly those entries (`get?_ofEntries`).
-/

namespace SsAndroid

/-- A finite map as the list of its entries, each key once. -/
@[ext] structure LinkedMap (κ ν : Type*) where
  entries : List (κ × ν)
  nodup : (entries.map Prod.fst).Nodup

/-- One way of walking through the entries of a map whose order is unspecified. -/
structure IterationOrder (κ ν : Type*) where
  order : List (κ × ν) → List (κ × ν)
  perm : ∀ l, (order l).Perm l

/-- The order in which the entries are stored is one of the possible orders. -/
def IterationOrder.stored (κ ν : Type*) : IterationOrder κ ν := ⟨id, fun _ => List.Perm.refl _⟩

namespace LinkedMap

variable {κ ν : Type*}

def empty : LinkedMap κ ν := ⟨[], List.nodup_nil⟩

variable [DecidableEq κ]

def get? (m : LinkedMap κ ν) (k : κ) : Option ν := m.entries.lookup k

/-- The entries after a `put`: a present key keeps its place, a new one comes last. -/
def putEntries (k : κ) (v : ν) : List (κ × ν) → List (κ × ν)
  | [] => [(k, v)]
  | (k', v') :: es => if k' = k then (k, v) :: es else (k', v') :: putEntries k v es

theorem mem_keys_putEntries (k : κ) (v : ν) (es : List (κ × ν)) (x : κ) :
    x ∈ (putEntries k v es).map Prod.fst ↔ x = k ∨ x ∈ es.map Prod.fst := by
  induction es with
  | nil => simp [putEntries]
  | cons e es ih =>
    obtain ⟨k', v'⟩ := e
    by_cases h : k' = k
    · simp [putEntries, h]
    · simp only [putEntries, h, if_false, List.map_cons, List.mem_cons, ih]
      tauto

theorem nodup_putEntries (k : κ) (v : ν) (es : List (κ × ν)) (h : (es.map Prod.fst).Nodup) :
    ((putEntries k v es).map Prod.fst).Nodup := by
  induction es with
  | nil => simp [putEntries]
  | cons e es ih =>
    obtain ⟨k', v'⟩ := e
    rw [List.map_cons, List.nodup_cons] at h
    by_cases hk : k' = k
    · subst hk
      simpa [putEntries] using h
    · simp only [putEntries, hk, if_false, List.map_cons, List.nodup_cons, mem_keys_putEntries]
      exact ⟨by tauto, ih h.2⟩

def put (m : LinkedMap κ ν) (k : κ) (v : ν) : LinkedMap κ ν :=
  ⟨putEntries k v m.entries, nodup_putEntries k v m.entries m.nodup⟩

theorem mem_putEntries {k : κ} {v : ν} {es : List (κ × ν)} {e : κ × ν}
    (h : e ∈ putEntries k v es) : e = (k, v) ∨ e ∈ es := by
  induction es with
  | nil => exact Or.inl (List.mem_singleton.mp h)
  | cons e' es ih =>
    rw [putEntries] at h
    split at h
    · rcases List.mem_cons.mp h with h | h
      · exact Or.inl h
      · exact Or.inr (List.mem_cons_of_mem _ h)
    · rcases List.mem_cons.mp h with h | h
      · exact Or.inr (h ▸ List.mem_cons_self)
      · exact (ih h).imp_right (List.mem_cons_of_mem _)

theorem lookup_putEntries (k : κ) (v : ν) (es : List (κ × ν)) (x : κ) :
    (putEntries k v es).lookup x = if x = k then some v else es.lookup x := by
  induction es with
  | nil =>
    by_cases h : x = k
    · simp [putEntries, h]
    · simp [putEntries, List.lookup_cons, beq_eq_false_iff_ne.mpr h, h]
  | cons e es ih =>
    obtain ⟨k', v'⟩ := e
    by_cases hk : k' = k
    · subst hk
      by_cases hx : x = k'
      · simp [putEntries, hx]
      · simp [putEntries, List.lookup_cons, beq_eq_false_iff_ne.mpr hx, hx]
    · by_cases hx : x = k'
      · subst hx
        simp [putEntries, hk]
      · simp only [putEntries, hk, if_false, List.lookup_cons, beq_eq_false_iff_ne.mpr hx, ih]

@[simp] theorem get?_empty (k : κ) : (empty : LinkedMap κ ν).get? k = none := rfl

@[simp] theorem get?_put (m : LinkedMap κ ν) (k : κ) (v : ν) (x : κ) :
    (m.put k v).get? x = if x = k then some v else m.get? x :=
  lookup_putEntries k v m.entries x

theorem lookup_eq_some_iff {es : List (κ × ν)} (h : (es.map Prod.fst).Nodup) (k : κ) (v : ν) :
    es.lookup k = some v ↔ (k, v) ∈ es := by
  induction es with
  | nil => simp
  | cons e es ih =>
    obtain ⟨k', v'⟩ := e
    rw [List.map_cons, List.nodup_cons] at h
    by_cases hk : k = k'
    · subst hk
      have habs : (k, v) ∉ es := fun hm => h.1 (List.mem_map.mpr ⟨(k, v), hm, rfl⟩)
      simp only [List.lookup_cons, beq_self_eq_true, Option.some.injEq, List.mem_cons,
        Prod.mk.injEq, true_and, habs, or_false]
      exact eq_comm
    · simp only [List.lookup_cons, beq_eq_false_iff_ne.mpr hk, ih h.2, List.mem_cons,
        Prod.mk.injEq, hk, false_and, false_or]

theorem get?_eq_some_iff (m : LinkedMap κ ν) (k : κ) (v : ν) :
    m.get? k = some v ↔ (k, v) ∈ m.entries :=
  lookup_eq_some_iff m.nodup k v

theorem get?_eq_none_iff (m : LinkedMap κ ν) (k : κ) :
    m.get? k = none ↔ k ∉ m.entries.map Prod.fst := by
  constructor
  · intro h hk
    obtain ⟨⟨k', v⟩, hm, rfl⟩ := List.mem_map.mp hk
    rw [(m.get?_eq_some_iff k' v).mpr hm] at h
    exact Option.some_ne_none v h
  · intro h
    by_contra hne
    obtain ⟨v, hv⟩ := Option.ne_none_iff_exists'.mp hne
    exact h (List.mem_map_of_mem (f := Prod.fst) ((m.get?_eq_some_iff k v).mp hv))

theorem entries_put_ne_nil (m : LinkedMap κ ν) (k : κ) (v : ν) : (m.put k v).entries ≠ [] := by
  intro h
  have hmem : k ∈ (m.put k v).entries.map Prod.fst :=
    (mem_keys_putEntries k v m.entries k).mpr (Or.inl rfl)
  rw [h] at hmem
  exact absurd hmem (by simp)

/-- `remove(key)`. -/
def remove (m : LinkedMap κ ν) (k : κ) : LinkedMap κ ν :=
  ⟨m.entries.filter (fun e => e.1 ≠ k), (m.nodup.sublist (List.filter_sublist.map Prod.fst))⟩

theorem mem_remove (m : LinkedMap κ ν) (k : κ) (e : κ × ν) :
    e ∈ (m.remove k).entries ↔ e ∈ m.entries ∧ e.1 ≠ k := by
  simp [remove]

@[simp] theorem get?_remove (m : LinkedMap κ ν) (k x : κ) :
    (m.remove k).get? x = if x = k then none else m.get? x := by
  apply Option.ext
  intro v
  rw [get?_eq_some_iff, mem_remove]
  by_cases h : x = k
  · simp [h]
  · rw [if_neg h, get?_eq_some_iff]
    exact and_iff_left h

theorem remove_of_get?_eq_none (m : LinkedMap κ ν) (k : κ) (h : m.get? k = none) :
    m.remove k = m := by
  ext1
  apply List.filter_eq_self.mpr
  intro e he
  have hk := (m.get?_eq_none_iff k).mp h
  simp only [ne_eq, decide_eq_true_eq]
  rintro rfl
  exact hk (List.mem_map_of_mem he)

/-! ### Filling a map from a list of entries -/

/-- The map a loop of `put`s builds, starting from `m`. -/
def putAll (m : LinkedMap κ ν) (es : List (κ × ν)) : LinkedMap κ ν :=
  es.foldl (fun m e => m.put e.1 e.2) m

def ofEntries (es : List (κ × ν)) : LinkedMap κ ν := putAll empty es

theorem mem_putAll {es : List (κ × ν)} {e : κ × ν} :
    ∀ {m : LinkedMap κ ν}, e ∈ (m.putAll es).entries → e ∈ m.entries ∨ e ∈ es := by
  induction es with
  | nil => intro m h; exact Or.inl h
  | cons f es ih =>
    intro m h
    rw [putAll, List.foldl_cons] at h
    rcases ih h with h | h
    · rcases mem_putEntries h with rfl | h
      · exact Or.inr List.mem_cons_self
      · exact Or.inl h
    · exact Or.inr (List.mem_cons_of_mem _ h)

theorem mem_keys_putAll (es : List (κ × ν)) (x : κ) : ∀ m : LinkedMap κ ν,
    x ∈ (m.putAll es).entries.map Prod.fst ↔
      x ∈ m.entries.map Prod.fst ∨ x ∈ es.map Prod.fst := by
  induction es with
  | nil => intro m; simp [putAll]
  | cons e es ih =>
    intro m
    rw [putAll, List.foldl_cons]
    refine (ih (m.put e.1 e.2)).trans ?_
    rw [put, mem_keys_putEntries, List.map_cons, List.mem_cons]
    tauto

theorem mem_ofEntries {es : List (κ × ν)} {e : κ × ν} (h : e ∈ (ofEntries es).entries) :
    e ∈ es := by
  rcases mem_putAll h with h | h
  · exact absurd h (by simp [empty])
  · exact h

theorem get?_putAll_of_not_mem (es : List (κ × ν)) (k : κ) :
    ∀ m : LinkedMap κ ν, k ∉ es.map Prod.fst → (m.putAll es).get? k = m.get? k := by
  induction es with
  | nil => intro m _; rfl
  | cons e es ih =>
    intro m h
    rw [List.map_cons, List.mem_cons, not_or] at h
    rw [putAll, List.foldl_cons]
    exact (ih (m.put e.1 e.2) h.2).trans (by rw [get?_put, if_neg h.1])

theorem get?_putAll_of_mem (es : List (κ × ν)) (k : κ) (v : ν) (h : (es.map Prod.fst).Nodup) :
    ∀ m : LinkedMap κ ν, (k, v) ∈ es → (m.putAll es).get? k = some v := by
  induction es with
  | nil => intro m hm; simp at hm
  | cons e es ih =>
    intro m hm
    rw [List.map_cons, List.nodup_cons] at h
    rw [putAll, List.foldl_cons]
    rcases List.mem_cons.mp hm with rfl | hm
    · exact (get?_putAll_of_not_mem es k (m.put k v) h.1).trans (by rw [get?_put, if_pos rfl])
    · exact ih h.2 (m.put e.1 e.2) hm

/-- **Filling back the entries of a map, in whatever order, gives the same map.** -/
theorem get?_ofEntries (m : LinkedMap κ ν) (es : List (κ × ν)) (h : es.Perm m.entries) (k : κ) :
    (ofEntries es).get? k = m.get? k := by
  have hnd : (es.map Prod.fst).Nodup := (h.map Prod.fst).nodup_iff.mpr m.nodup
  cases hg : m.get? k with
  | none =>
    have hk : k ∉ es.map Prod.fst := by
      rw [(h.map Prod.fst).mem_iff]
      exact (m.get?_eq_none_iff k).mp hg
    exact get?_putAll_of_not_mem es k empty hk
  | some v =>
    exact get?_putAll_of_mem es k v hnd empty (h.mem_iff.mpr ((m.get?_eq_some_iff k v).mp hg))

end LinkedMap

end SsAndroid
