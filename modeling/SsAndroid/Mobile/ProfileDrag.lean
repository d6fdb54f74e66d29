import SsAndroid.Mobile.InterfaceWrites
import SsAndroid.Lib.Machine

/-!
# Dragging profiles

A drag moves a profile through the list of the adapter, one `move` after the other, and `commitMove`
stores the profiles whose place changed.  The places keep their `userOrder`: a move shifts the
profiles between its two places and hands each the order of the place it comes to.

Downwards the loop of `move` runs through all places in between.  Upwards its range is
`to + 1 downTo from`, which has one element if the places are next to each other and none otherwise:
then nothing is shifted, and the profile at `to` is lost.

**`drags`**: in every run of moves that go downwards or up by one place, each move takes the profile out
and puts it back at its target, the orders stay where they are, and after `commitMove` the stored list
is the list on the screen.
-/

namespace SsAndroid

/-- The list with the element at `i` taken out and put back at `j`. -/
def moved {α : Type*} (l : List α) (i j : Nat) : List α :=
  match l[i]? with
  | none => l
  | some x => (l.eraseIdx i).insertIdx j x

theorem insertIdx_length_append {α : Type*} (as bs : List α) (x : α) :
    (as ++ bs).insertIdx as.length x = as ++ x :: bs := by
  induction as with
  | nil => rfl
  | cons a as ih =>
    show a :: (as ++ bs).insertIdx as.length x = _
    rw [ih]
    rfl

theorem moved_down {α : Type*} (as : List α) (x : α) (bs cs : List α) :
    moved (as ++ x :: (bs ++ cs)) as.length (as.length + bs.length) = as ++ (bs ++ x :: cs) := by
  rw [moved, List.getElem?_append_right (le_refl _), Nat.sub_self, List.getElem?_cons_zero]
  show ((as ++ x :: (bs ++ cs)).eraseIdx as.length).insertIdx (as.length + bs.length) x = _
  rw [List.eraseIdx_append_of_length_le (le_refl _), Nat.sub_self, List.eraseIdx_cons_zero,
    ← List.append_assoc, ← List.length_append, insertIdx_length_append, List.append_assoc]

theorem moved_up {α : Type*} (as : List α) (b x : α) (cs : List α) :
    moved (as ++ b :: x :: cs) (as.length + 1) as.length = as ++ x :: b :: cs := by
  rw [moved, List.getElem?_append_right (Nat.le_add_right _ 1), Nat.add_sub_cancel_left]
  show ((as ++ b :: x :: cs).eraseIdx (as.length + 1)).insertIdx as.length x = _
  rw [List.eraseIdx_append_of_length_le (Nat.le_add_right _ 1), Nat.add_sub_cancel_left,
    List.eraseIdx_cons_succ, List.eraseIdx_cons_zero, insertIdx_length_append]

theorem moved_map {α β : Type*} (f : α → β) (l : List α) (i j : Nat) :
    (moved l i j).map f = moved (l.map f) i j := by
  rw [moved, moved, List.getElem?_map]
  cases l[i]? with
  | none => rfl
  | some x =>
    show ((l.eraseIdx i).insertIdx j x).map f = ((l.map f).eraseIdx i).insertIdx j (f x)
    rw [List.map_insertIdx, List.eraseIdx_map]

theorem moved_perm {α : Type*} {l : List α} {i j : Nat} (hi : i < l.length) (hj : j < l.length) :
    (moved l i j).Perm l := by
  have hlength : j ≤ (l.eraseIdx i).length := by
    rw [List.length_eraseIdx_of_lt hi]
    omega
  rw [moved, List.getElem?_eq_getElem hi]
  exact (List.perm_insertIdx _ _ hlength).trans (List.getElem_cons_eraseIdx_perm hi)

/-- A list around two places, the first in front of the second. -/
theorem exists_parts {α : Type*} {l : List α} {i j : Nat} (hij : i < j) (hj : j < l.length) :
    ∃ as x bs cs, l = as ++ x :: (bs ++ cs) ∧ as.length = i ∧ as.length + bs.length = j := by
  have hi : i < l.length := hij.trans hj
  refine ⟨l.take i, l.get ⟨i, hi⟩, (l.drop (i + 1)).take (j - i), (l.drop (i + 1)).drop (j - i),
    ?_, ?_, ?_⟩
  · rw [List.take_append_drop]
    exact (List.take_append_drop i l).symm.trans (by rw [List.drop_eq_getElem_cons hi]; rfl)
  · rw [List.length_take]
    omega
  · rw [List.length_take, List.length_take, List.length_drop]
    omega

namespace Adapter

/-! ### One move -/

/-- The list has objects, each once. -/
structure Valid (a : Adapter) : Prop where
  nodup : a.profiles.Nodup
  lt : ∀ ref ∈ a.profiles, ref < a.objects.length

/-- The orders of the profiles, place by place. -/
def orders (a : Adapter) : List Int := a.profiles.map a.orderOf

theorem orderOf_congr {a b : Adapter} {ref : Nat} (h : b.objects[ref]? = a.objects[ref]?) :
    b.orderOf ref = a.orderOf ref := by
  rw [orderOf, orderOf, h]

theorem setOrder_objects_ne (a : Adapter) {ref other : Nat} (order : Int) (h : other ≠ ref) :
    (a.setOrder ref order).objects[other]? = a.objects[other]? :=
  List.getElem?_modify_ne _ _ fun heq => h heq.symm

theorem orderOf_setOrder (a : Adapter) {ref : Nat} (order : Int) (h : ref < a.objects.length) :
    (a.setOrder ref order).orderOf ref = order := by
  show (((a.objects.modify ref _)[ref]?).map Profile.userOrder).getD 0 = order
  rw [List.getElem?_modify_eq, List.getElem?_eq_getElem h]
  rfl

/-- What a move has done: the profiles are in their new places, the orders stay, and every object that
was written is to be stored. -/
structure Moves (a : Adapter) (source target : Nat) (b : Adapter) : Prop where
  profiles : b.profiles = moved a.profiles source target
  orders : b.orders = a.orders
  length : b.objects.length = a.objects.length
  updated : a.updated ⊆ b.updated
  objects : ∀ ref, ref ∉ b.updated → b.objects[ref]? = a.objects[ref]?

/-- **The loop downwards.**  At the place of `x`, which has been taken already, the profiles `bs`
move up by one, and each gets the order of the one in front of it. -/
theorem moveLoop_down (cs : List Nat) : ∀ (bs as : List Nat) (x : Nat) (a : Adapter) (previous : Int),
    a.profiles = as ++ x :: (bs ++ cs) → bs.Nodup → (∀ b ∈ bs, b < a.objects.length) →
    ∃ a' order y, moveLoop 1 ((List.range' as.length bs.length).map Int.ofNat) a previous
        = (a', some order) ∧
      a'.profiles = as ++ (bs ++ y :: cs) ∧
      bs.map a'.orderOf ++ [order] = previous :: bs.map a.orderOf ∧
      (∀ ref, ref ∉ bs → a'.objects[ref]? = a.objects[ref]?) ∧
      a'.objects.length = a.objects.length ∧ a'.updated = a.updated ++ bs := by
  intro bs
  induction bs with
  | nil =>
    intro as x a previous hprofiles _ _
    exact ⟨a, previous, x, rfl, hprofiles, rfl, fun _ _ => rfl, rfl, (List.append_nil _).symm⟩
  | cons b bs ih =>
    intro as x a previous hprofiles hnodup hlt
    obtain ⟨hb, hnodup⟩ := List.nodup_cons.mp hnodup
    have hblt : b < a.objects.length := hlt b List.mem_cons_self
    have hnext : a.at? (Int.ofNat as.length + 1) = some b := by
      have hnonneg : 0 ≤ Int.ofNat as.length + 1 := by
        show (0 : Int) ≤ (as.length : Int) + 1
        omega
      rw [at?, if_pos hnonneg, show (Int.ofNat as.length + 1).toNat = as.length + 1 from rfl,
        hprofiles, List.getElem?_append_right (Nat.le_add_right _ 1), Nat.add_sub_cancel_left]
      rfl
    -- the adapter after this round
    let a₁ : Adapter := { a.setOrder b previous with
      profiles := (a.setOrder b previous).profiles.set as.length b
      updated := (a.setOrder b previous).updated ++ [b] }
    have hprofiles₁ : a₁.profiles = (as ++ [b]) ++ b :: (bs ++ cs) := by
      show a.profiles.set as.length b = _
      rw [hprofiles, List.set_append_right _ _ (le_refl _), Nat.sub_self, List.append_assoc]
      rfl
    have hlength₁ : a₁.objects.length = a.objects.length := List.length_modify ..
    have hother₁ : ∀ ref, ref ≠ b → a₁.objects[ref]? = a.objects[ref]? :=
      fun ref hne => setOrder_objects_ne a previous hne
    obtain ⟨a', order, y, hloop, hprofiles', horders, hobjects, hlength, hupdated⟩ :=
      ih (as ++ [b]) b a₁ (a.orderOf b) hprofiles₁ hnodup
        (fun r hr => hlength₁ ▸ hlt r (List.mem_cons_of_mem b hr))
    refine ⟨a', order, y, ?_, ?_, ?_, ?_, hlength.trans hlength₁, ?_⟩
    · rw [List.length_cons, List.range'_succ, List.map_cons, moveLoop, hnext]
      rw [List.length_append, List.length_singleton] at hloop
      exact hloop
    · rw [hprofiles', List.append_assoc]
      rfl
    · have hsame : bs.map a₁.orderOf = bs.map a.orderOf := by
        apply List.map_congr_left
        intro r hr
        exact orderOf_congr (hother₁ r fun heq => hb (heq ▸ hr))
      have hself : a'.orderOf b = previous := by
        rw [orderOf_congr (hobjects b hb)]
        exact orderOf_setOrder a previous hblt
      rw [List.map_cons, List.map_cons, List.cons_append, hself, horders, hsame]
    · intro ref href
      rw [List.mem_cons, not_or] at href
      rw [hobjects ref href.2, hother₁ ref href.1]
    · rw [hupdated]
      show a.updated ++ [b] ++ bs = _
      rw [List.append_assoc]
      rfl

theorem move_down {a : Adapter} (ha : a.Valid) {source target : Nat} (hlt : source < target)
    (ht : target < a.profiles.length) : Moves a source target (a.move source target) := by
  obtain ⟨as, first, bs, cs, hparts, rfl, rfl⟩ := exists_parts hlt ht
  have hnodup := ha.nodup
  rw [hparts, List.nodup_middle, List.nodup_cons] at hnodup
  obtain ⟨hfirst, hrest⟩ := hnodup
  have hbs : bs.Nodup := (List.nodup_append.mp (List.nodup_append.mp hrest).2.1).1
  have hfirstBs : first ∉ bs := fun h => hfirst (by simp [h])
  have hin : ∀ r ∈ first :: bs, r < a.objects.length := by
    intro r hr
    apply ha.lt
    rw [hparts]
    rcases List.mem_cons.mp hr with rfl | hr
    · simp
    · simp [hr]
  obtain ⟨a', order, y, hloop, hprofiles, horders, hobjects, hlength, hupdated⟩ :=
    moveLoop_down cs bs as first a (a.orderOf first) hparts hbs
      (fun r hr => hin r (List.mem_cons_of_mem _ hr))
  have hget : a.profiles[as.length]? = some first := by
    rw [hparts, List.getElem?_append_right (le_refl _), Nat.sub_self]
    rfl
  have hrange : moveRange as.length (as.length + bs.length) =
      (1, (List.range' as.length bs.length).map Int.ofNat) := by
    rw [moveRange, if_pos hlt, Nat.add_sub_cancel_left]
  have hmove : a.move as.length (as.length + bs.length) =
      { a'.setOrder first order with
        profiles := (a'.setOrder first order).profiles.set (as.length + bs.length) first
        updated := (a'.setOrder first order).updated ++ [first] } := by
    simp only [move, hget, hrange, hloop]
  have hprofilesNew : (a.move as.length (as.length + bs.length)).profiles = as ++ (bs ++ first :: cs) := by
    rw [hmove]
    show a'.profiles.set (as.length + bs.length) first = _
    rw [hprofiles, ← List.append_assoc, List.set_append_right _ _ (by simp), List.length_append,
      Nat.sub_self, List.append_assoc]
    rfl
  have hother : ∀ r, r ≠ first → r ∉ bs →
      (a.move as.length (as.length + bs.length)).objects[r]? = a.objects[r]? := by
    intro r hne hr
    rw [hmove, ← hobjects r hr]
    exact setOrder_objects_ne a' order hne
  refine ⟨?_, ?_, ?_, ?_, ?_⟩
  · rw [hprofilesNew, hparts, moved_down]
  · have houter : ∀ l : List Nat, (∀ r ∈ l, r ≠ first ∧ r ∉ bs) →
        l.map (a.move as.length (as.length + bs.length)).orderOf = l.map a.orderOf := by
      intro l hl
      apply List.map_congr_left
      intro r hr
      exact orderOf_congr (hother r (hl r hr).1 (hl r hr).2)
    have hbsOrders : bs.map (a.move as.length (as.length + bs.length)).orderOf = bs.map a'.orderOf := by
      apply List.map_congr_left
      intro r hr
      apply orderOf_congr
      rw [hmove]
      exact setOrder_objects_ne a' order fun heq => hfirstBs (heq ▸ hr)
    have hfirstOrder : (a.move as.length (as.length + bs.length)).orderOf first = order := by
      rw [hmove]
      exact orderOf_setOrder a' order (hlength ▸ hin first List.mem_cons_self)
    rw [orders, orders, hprofilesNew, hparts]
    rw [List.map_append, List.map_append, List.map_cons, hbsOrders, hfirstOrder,
      houter as ?_, houter cs ?_, List.map_append, List.map_cons, List.map_append]
    · rw [← List.cons_append, ← horders, List.append_assoc]
      rfl
    · intro r hr
      refine ⟨fun heq => hfirst (by simp [← heq, hr]), fun hb => ?_⟩
      have hdisjoint := (List.nodup_append.mp (List.nodup_append.mp hrest).2.1).2.2
      exact hdisjoint r hb r hr rfl
    · intro r hr
      refine ⟨fun heq => hfirst (by simp [← heq, hr]), fun hb => ?_⟩
      exact (List.nodup_append.mp hrest).2.2 r hr r (List.mem_append_left cs hb) rfl
  · rw [hmove]
    exact (List.length_modify ..).trans hlength
  · rw [hmove]
    intro r hr
    show r ∈ a'.updated ++ [first]
    rw [hupdated]
    simp [hr]
  · intro r hr
    have hr' : r ∉ a'.updated ++ [first] := by
      rw [hmove] at hr
      exact hr
    rw [hupdated] at hr'
    simp only [List.mem_append, List.mem_singleton, not_or] at hr'
    exact hother r hr'.2 hr'.1.2

/-- Upwards, from one place to the next. -/
theorem move_up {a : Adapter} (ha : a.Valid) {target : Nat} (ht : target + 1 < a.profiles.length) :
    Moves a (target + 1) target (a.move (target + 1) target) := by
  obtain ⟨as, b, bs, cs, hparts, rfl, hlength⟩ := exists_parts (Nat.lt_succ_self target) ht
  obtain ⟨first, rfl⟩ := List.length_eq_one_iff.mp (show bs.length = 1 by omega)
  have hnodup := ha.nodup
  have hparts' : a.profiles = as ++ b :: first :: cs := hparts
  rw [hparts'] at hnodup
  obtain ⟨hasNodup, hrest, hdisjoint⟩ := List.nodup_append.mp hnodup
  obtain ⟨hb, hrest⟩ := List.nodup_cons.mp hrest
  obtain ⟨hfirst, -⟩ := List.nodup_cons.mp hrest
  have hne : first ≠ b := fun heq => hb (heq ▸ List.mem_cons_self)
  have hblt : b < a.objects.length := ha.lt b (by rw [hparts']; simp)
  have hfirstlt : first < a.objects.length := ha.lt first (by rw [hparts']; simp)
  have hget : a.profiles[as.length + 1]? = some first := by
    rw [hparts', List.getElem?_append_right (Nat.le_add_right _ 1), Nat.add_sub_cancel_left]
    rfl
  have hnext : a.at? (((as.length : Int) + 1) + -1) = some b := by
    have hindex : (as.length : Int) + 1 + -1 = as.length := by omega
    rw [hindex, at?, if_pos (Int.natCast_nonneg _), Int.toNat_natCast, hparts',
      List.getElem?_append_right (le_refl _), Nat.sub_self]
    rfl
  have hrange : moveRange (as.length + 1) as.length = (-1, [(as.length : Int) + 1]) := by
    rw [moveRange, if_neg (by omega), downTo]
    have hcount : ((as.length : Int) + 1 - ((as.length + 1 : Nat) : Int) + 1).toNat = 1 := by omega
    rw [hcount]
    simp
  let a₁ : Adapter := { a.setOrder b (a.orderOf first) with
    profiles := a.profiles.set (as.length + 1) b
    updated := a.updated ++ [b] }
  have hmove : a.move (as.length + 1) as.length = { a₁.setOrder first (a.orderOf b) with
      profiles := a₁.profiles.set as.length first
      updated := a₁.updated ++ [first] } := by
    rw [move, hget, hrange]
    dsimp only
    rw [moveLoop, hnext]
    rfl
  have hprofilesNew : (a.move (as.length + 1) as.length).profiles = as ++ first :: b :: cs := by
    rw [hmove]
    show (a.profiles.set (as.length + 1) b).set as.length first = _
    rw [hparts', List.set_append_right _ _ (Nat.le_add_right _ 1), Nat.add_sub_cancel_left,
      List.set_append_right _ _ (le_refl _), Nat.sub_self]
    rfl
  have hother : ∀ r, r ≠ first → r ≠ b →
      (a.move (as.length + 1) as.length).objects[r]? = a.objects[r]? := by
    intro r hr hr'
    rw [hmove]
    exact (setOrder_objects_ne a₁ _ hr).trans (setOrder_objects_ne a _ hr')
  have hlength₁ : a₁.objects.length = a.objects.length := List.length_modify ..
  refine ⟨?_, ?_, ?_, ?_, ?_⟩
  · rw [hprofilesNew, hparts', moved_up]
  · have houter : ∀ l : List Nat, (∀ r ∈ l, r ≠ first ∧ r ≠ b) →
        l.map (a.move (as.length + 1) as.length).orderOf = l.map a.orderOf := by
      intro l hl
      apply List.map_congr_left
      intro r hr
      exact orderOf_congr (hother r (hl r hr).1 (hl r hr).2)
    have hfirstOrder : (a.move (as.length + 1) as.length).orderOf first = a.orderOf b := by
      rw [hmove]
      exact orderOf_setOrder a₁ _ (hlength₁ ▸ hfirstlt)
    have hbOrder : (a.move (as.length + 1) as.length).orderOf b = a.orderOf first := by
      rw [hmove]
      exact (orderOf_congr (setOrder_objects_ne a₁ _ hne.symm)).trans (orderOf_setOrder a _ hblt)
    have has := houter as fun r hr =>
      ⟨hdisjoint r hr first (by simp), hdisjoint r hr b (by simp)⟩
    have hcs := houter cs fun r hr =>
      ⟨fun heq => hfirst (heq ▸ hr), fun heq => hb (List.mem_cons_of_mem _ (heq ▸ hr))⟩
    rw [orders, orders, hprofilesNew, hparts', List.map_append, List.map_cons, List.map_cons,
      hfirstOrder, hbOrder, has, hcs, List.map_append, List.map_cons, List.map_cons]
  · rw [hmove]
    exact (List.length_modify ..).trans hlength₁
  · rw [hmove]
    intro r hr
    show r ∈ a.updated ++ [b] ++ [first]
    simp [hr]
  · intro r hr
    have hr' : r ∉ a.updated ++ [b] ++ [first] := by
      rw [hmove] at hr
      exact hr
    simp only [List.mem_append, List.mem_singleton, not_or] at hr'
    exact hother r hr'.2 hr'.1.2

theorem move_spec {a : Adapter} (ha : a.Valid) {source target : Nat}
    (hs : source < a.profiles.length) (ht : target < a.profiles.length)
    (hnear : source < target ∨ source = target + 1) :
    Moves a source target (a.move source target) := by
  rcases hnear with hlt | rfl
  · exact move_down ha hlt ht
  · exact move_up ha hs

/-! ### Storing -/

theorem ref_eq_of_id {objects : List Profile} (hids : (objects.map Profile.id).Nodup) {i j : Nat}
    {p q : Profile} (hp : objects[i]? = some p) (hq : objects[j]? = some q) (h : p.id = q.id) :
    i = j := by
  have hi : (objects.map Profile.id)[i]? = some p.id := by rw [List.getElem?_map, hp]; rfl
  have hj : (objects.map Profile.id)[j]? = some q.id := by rw [List.getElem?_map, hq]; rfl
  exact (List.getElem?_inj (List.getElem?_eq_some_iff.mp hi).1 hids).mp (by rw [hi, hj, h])

theorem storeAll_ids (a : Adapter) (refs : List Nat) : ∀ store : ProfileStore,
    (a.storeAll store refs).rows.map Profile.id = store.rows.map Profile.id := by
  induction refs with
  | nil => intro store; rfl
  | cons ref refs ih =>
    intro store
    rw [storeAll, List.foldl_cons]
    cases a.objects[ref]? with
    | none => exact ih store
    | some p =>
      refine (ih (store.updateProfile p).1).trans ?_
      rw [ProfileStore.updateProfile]
      split
      · exact ProfileStore.updateRows_ids store.rows p
      · rfl

/-- **An object is stored if it is to be written, or was stored before.** -/
theorem storeAll_get (a : Adapter) (hids : (a.objects.map Profile.id).Nodup) (refs : List Nat) :
    ∀ store : ProfileStore,
    (∀ (ref : Nat) (o : Profile), a.objects[ref]? = some o → ∃ p, store.get o.id = some p) →
    ∀ (ref : Nat) (o : Profile), a.objects[ref]? = some o → ref ∈ refs ∨ store.get o.id = some o →
      (a.storeAll store refs).get o.id = some o := by
  induction refs with
  | nil =>
    intro store _ ref o _ h
    exact h.resolve_left (by simp)
  | cons r refs ih =>
    intro store hstored ref o ho h
    rw [storeAll, List.foldl_cons]
    cases hr : a.objects[r]? with
    | none =>
      refine ih store hstored ref o ho (h.imp_left fun hmem => ?_)
      refine (List.mem_cons.mp hmem).resolve_left ?_
      rintro rfl
      rw [hr] at ho
      cases ho
    | some p =>
      -- the row of `p` is `p` now, and every other row is as it was
      have hrow : ∀ (ref' : Nat) (o' : Profile), a.objects[ref']? = some o' →
          (store.updateProfile p).1.get o'.id = if ref' = r then some o' else store.get o'.id := by
        intro ref' o' ho'
        by_cases heq : ref' = r
        · rw [if_pos heq]
          rw [heq, hr] at ho'
          obtain rfl := Option.some.inj ho'
          obtain ⟨q, hq⟩ := hstored r p hr
          exact ProfileStore.get_updateProfile_eq hq
        · rw [if_neg heq]
          exact ProfileStore.get_updateProfile_ne store
            fun hid => heq (ref_eq_of_id hids ho' hr hid.symm)
      refine ih (store.updateProfile p).1 ?_ ref o ho ?_
      · intro ref' o' ho'
        rw [hrow ref' o' ho']
        split_ifs
        · exact ⟨o', rfl⟩
        · exact hstored ref' o' ho'
      · rw [hrow ref o ho]
        by_cases heq : ref = r
        · exact Or.inr (if_pos heq)
        · rw [if_neg heq]
          exact h.imp_left fun hmem => (List.mem_cons.mp hmem).resolve_left heq

end Adapter

/-! ### A run of moves -/

/-- The open list with the database behind it. -/
structure ProfileDrag where
  store : ProfileStore
  adapter : Adapter

inductive DragStep
  | move (source target : Nat)
  | commitMove

namespace ProfileDrag

open Adapter

/-- The list is opened. -/
def opened (store : ProfileStore) : ProfileDrag := ⟨store, Adapter.load store.list⟩

/-- What the list shows. -/
def screen (s : ProfileDrag) : List Profile :=
  s.adapter.profiles.filterMap fun ref => s.adapter.objects[ref]?

/-- The positions of a move are two different ones of the list. -/
def step (s : ProfileDrag) : DragStep → Option ProfileDrag
  | .move source target =>
      if source < s.adapter.profiles.length ∧ target < s.adapter.profiles.length ∧ source ≠ target then
        some { s with adapter := s.adapter.move source target }
      else none
  | .commitMove =>
      some ⟨s.adapter.storeAll s.store s.adapter.updated, { s.adapter with updated := [] }⟩

/-- A move goes downwards, or up by one place. -/
def Near (_ : ProfileDrag) : DragStep → Prop
  | .move source target => source < target ∨ source = target + 1
  | .commitMove => True

instance (s : ProfileDrag) : ∀ a, Decidable (s.Near a)
  | .move _ _ => inferInstanceAs (Decidable (_ ∨ _))
  | .commitMove => inferInstanceAs (Decidable True)

/-- What holds while the list that showed `list` at first is dragged about. -/
structure Tracked (list : List Profile) (s : ProfileDrag) : Prop where
  all : s.adapter.profiles.Perm (List.range list.length)
  objects : SameObjects (Adapter.load list) s.adapter
  length : s.adapter.objects.length = list.length
  orders : s.adapter.orders = list.map Profile.userOrder
  rows : (s.store.rows.map Profile.id).Perm (list.map Profile.id)
  stored : ∀ (ref : Nat) (o : Profile), s.adapter.objects[ref]? = some o → ref ∉ s.adapter.updated →
    s.store.get o.id = some o

variable {list : List Profile} {s t : ProfileDrag}

theorem Tracked.lt (h : Tracked list s) : ∀ ref ∈ s.adapter.profiles, ref < s.adapter.objects.length := by
  intro ref href
  rw [h.length]
  exact List.mem_range.mp (h.all.mem_iff.mp href)

theorem Tracked.valid (h : Tracked list s) : s.adapter.Valid :=
  ⟨h.all.nodup_iff.mpr List.nodup_range, h.lt⟩

/-- The objects keep their ids. -/
theorem Tracked.ids (h : Tracked list s) :
    s.adapter.objects.map Profile.id = list.map Profile.id := by
  apply List.ext_getElem?
  intro i
  rw [List.getElem?_map, List.getElem?_map]
  cases ho : s.adapter.objects[i]? with
  | none =>
    have hlen : list.length ≤ i := by
      rw [← h.length]
      exact List.getElem?_eq_none_iff.mp ho
    rw [List.getElem?_eq_none hlen]
  | some o =>
    obtain ⟨p, hp, hsame⟩ := h.objects i o ho
    rw [show list[i]? = some p from hp, Option.map_some, Option.map_some, hsame.id]

/-- A field of the profiles on the screen, place by place. -/
theorem screen_map {β : Type} (f : Profile → β) (d : β)
    (h : ∀ ref ∈ s.adapter.profiles, ref < s.adapter.objects.length) :
    s.screen.map f = s.adapter.profiles.map fun ref => ((s.adapter.objects[ref]?).map f).getD d := by
  unfold screen
  revert h
  induction s.adapter.profiles with
  | nil => intro _; rfl
  | cons ref refs ih =>
    intro h
    have hrest := ih fun r hr => h r (List.mem_cons_of_mem ref hr)
    have hlt : ref < s.adapter.objects.length := h ref List.mem_cons_self
    rw [List.filterMap_cons_some (List.getElem?_eq_getElem hlt), List.map_cons, List.map_cons, hrest,
      List.getElem?_eq_getElem hlt]
    rfl

theorem Tracked.screen_orders (h : Tracked list s) :
    s.screen.map Profile.userOrder = list.map Profile.userOrder :=
  (screen_map Profile.userOrder 0 h.lt).trans h.orders

theorem Tracked.screen_ids (h : Tracked list s) :
    s.screen.map Profile.id = s.adapter.profiles.map fun ref => ((list[ref]?).map Profile.id).getD 0 := by
  rw [screen_map Profile.id 0 h.lt]
  apply List.map_congr_left
  intro ref _
  rw [← List.getElem?_map, h.ids, List.getElem?_map]

theorem Tracked.screen_perm (h : Tracked list s) :
    (s.screen.map Profile.id).Perm (list.map Profile.id) := by
  rw [h.screen_ids]
  refine (h.all.map _).trans (List.Perm.of_eq ?_)
  apply List.ext_getElem?
  intro i
  rw [List.getElem?_map, List.getElem?_map]
  by_cases hi : i < list.length
  · rw [List.getElem?_range hi, Option.map_some, List.getElem?_eq_getElem hi]
    rfl
  · rw [List.getElem?_eq_none (by rw [List.length_range]; omega),
      List.getElem?_eq_none (by omega)]
    rfl

theorem opened_tracked (store : ProfileStore) : Tracked store.list (opened store) := by
  have hperm : store.list.Perm store.rows := List.mergeSort_perm _ _
  refine ⟨List.Perm.refl _, SameObjects.refl _, rfl, ?_, (hperm.map Profile.id).symm, ?_⟩
  · show (List.range store.list.length).map (Adapter.load store.list).orderOf = _
    apply List.ext_getElem?
    intro i
    rw [List.getElem?_map, List.getElem?_map]
    by_cases hi : i < store.list.length
    · rw [List.getElem?_range hi, Option.map_some]
      show some ((store.list[i]?).map Profile.userOrder |>.getD 0) = _
      rw [List.getElem?_eq_getElem hi]
      rfl
    · rw [List.getElem?_eq_none (by rw [List.length_range]; omega),
        List.getElem?_eq_none (by omega)]
      rfl
  · intro ref o ho _
    exact ProfileStore.get_of_mem (hperm.mem_iff.mp (List.mem_of_getElem? ho))

/-- **A move that is near keeps track**, and moves the profile as it should. -/
theorem move_tracked (h : Tracked list s) {source target : Nat} (hnear : s.Near (.move source target))
    (hstep : s.step (.move source target) = some t) :
    Tracked list t ∧ t.screen.map Profile.id = moved (s.screen.map Profile.id) source target := by
  simp only [step] at hstep
  split_ifs at hstep with hguard
  obtain rfl := Option.some.inj hstep
  have hmoves : Moves s.adapter source target (s.adapter.move source target) :=
    move_spec h.valid hguard.1 hguard.2.1 hnear
  have hperm : (moved s.adapter.profiles source target).Perm s.adapter.profiles :=
    moved_perm hguard.1 hguard.2.1
  have htracked : Tracked list { s with adapter := s.adapter.move source target } := by
    refine ⟨?_, h.objects.trans (sameObjects_move s.adapter source target),
      hmoves.length.trans h.length, hmoves.orders.trans h.orders, h.rows, ?_⟩
    · rw [hmoves.profiles]
      exact hperm.trans h.all
    · intro ref o ho hupdated
      rw [hmoves.objects ref hupdated] at ho
      exact h.stored ref o ho fun hmem => hupdated (hmoves.updated hmem)
  refine ⟨htracked, ?_⟩
  rw [htracked.screen_ids, h.screen_ids, ← moved_map]
  exact congrArg _ hmoves.profiles

/-- **`commitMove` stores the list that is shown.** -/
theorem commitMove_tracked (hnodup : (list.map Profile.id).Nodup) (h : Tracked list s)
    (hstep : s.step .commitMove = some t) :
    Tracked list t ∧ t.screen = s.screen ∧ ∀ p ∈ t.screen, t.store.get p.id = some p := by
  obtain rfl := Option.some.inj hstep
  have hids : (s.adapter.objects.map Profile.id).Nodup := by
    rw [h.ids]
    exact hnodup
  have hstored : ∀ (ref : Nat) (o : Profile), s.adapter.objects[ref]? = some o →
      ∃ p, s.store.get o.id = some p := by
    intro ref o ho
    have hmem : o.id ∈ s.store.rows.map Profile.id := by
      rw [h.rows.mem_iff, ← h.ids]
      exact List.mem_map_of_mem (List.mem_of_getElem? ho)
    obtain ⟨p, hp, hid⟩ := List.mem_map.mp hmem
    exact ⟨p, hid ▸ ProfileStore.get_of_mem hp⟩
  have hall : ∀ (ref : Nat) (o : Profile), s.adapter.objects[ref]? = some o →
      (s.adapter.storeAll s.store s.adapter.updated).get o.id = some o := by
    intro ref o ho
    apply storeAll_get s.adapter hids s.adapter.updated s.store hstored ref o ho
    by_cases hmem : ref ∈ s.adapter.updated
    · exact Or.inl hmem
    · exact Or.inr (h.stored ref o ho hmem)
  refine ⟨⟨h.all, h.objects, h.length, h.orders, ?_, fun ref o ho _ => hall ref o ho⟩, rfl, ?_⟩
  · rw [storeAll_ids]
    exact h.rows
  · intro p hp
    obtain ⟨ref, -, href⟩ := List.mem_filterMap.mp hp
    exact hall ref p href

theorem list_pairwise (store : ProfileStore) :
    store.list.Pairwise (fun p q => p.userOrder ≤ q.userOrder) :=
  (List.pairwise_mergeSort
    (fun p q r hpq hqr => decide_eq_true ((of_decide_eq_true hpq).trans (of_decide_eq_true hqr)))
    (fun p q => by simpa using le_total p.userOrder q.userOrder) store.rows).imp
    fun hle => of_decide_eq_true hle

/-- **A stored list that is shown in its order is the list of the database.** -/
theorem Tracked.list_eq_screen (hnodup : (list.map Profile.id).Nodup)
    (hsorted : (list.map Profile.userOrder).Pairwise (· < ·)) (h : Tracked list s)
    (hstored : ∀ p ∈ s.screen, s.store.get p.id = some p) : s.store.list = s.screen := by
  have horders : (s.screen.map Profile.userOrder).Pairwise (· < ·) := by
    rw [h.screen_orders]
    exact hsorted
  have hscreen : s.screen.Pairwise (fun p q => p.userOrder < q.userOrder) :=
    List.pairwise_map.mp horders
  have hsubset : s.screen ⊆ s.store.rows := fun p hp => List.mem_of_find?_eq_some (hstored p hp)
  have hlength : s.store.rows.length ≤ s.screen.length := by
    have h1 := h.rows.length_eq
    have h2 := h.screen_perm.length_eq
    rw [List.length_map, List.length_map] at h1 h2
    omega
  have hperm : s.screen.Perm s.store.rows :=
    (List.subperm_of_subset (h.screen_perm.nodup_iff.mpr hnodup).of_map hsubset).perm_of_length_le
      hlength
  have hlistPerm : s.store.list.Perm s.screen := (List.mergeSort_perm _ _).trans hperm.symm
  refine @List.Perm.eq_of_pairwise Profile (fun p q => p.userOrder ≤ q.userOrder) _ _ ?_ ?_ ?_
    hlistPerm
  · -- two profiles with one order are one profile
    intro p q hp hq hle hge
    have hinj := List.inj_on_of_nodup_map (horders.imp fun hlt => ne_of_lt hlt)
    exact hinj (hlistPerm.mem_iff.mp hp) hq (le_antisymm hle hge)
  · exact list_pairwise s.store
  · exact hscreen.imp fun hlt => le_of_lt hlt

/-- **Dragging.**  In every run of moves that go downwards or up by one place, and of `commitMove`s,
from a list whose orders are different:  each move takes the profile out and puts it back at its
target, as far as the screen is concerned, and leaves the orders where they are; no profile is lost
or doubled, and nothing of one but its order changes; and after `commitMove` the list of the database
is the list on the screen. -/
theorem drags (store : ProfileStore) (hdistinct : (store.rows.map Profile.userOrder).Nodup)
    (as : List DragStep) (s : ProfileDrag) (h : Machine.run step as (opened store) = some s)
    (hnear : Machine.Along step Near as (opened store)) :
    (∀ pre source target post u t, as = pre ++ .move source target :: post →
      Machine.run step pre (opened store) = some u → u.step (.move source target) = some t →
      t.screen.map Profile.id = moved (u.screen.map Profile.id) source target ∧
      t.screen.map Profile.userOrder = u.screen.map Profile.userOrder) ∧
    (s.screen.map Profile.id).Perm (store.list.map Profile.id) ∧
    s.screen.map Profile.userOrder = store.list.map Profile.userOrder ∧
    (∀ p ∈ s.screen, ∃ q ∈ store.list, SameButOrder q p) ∧
    ∀ t, s.step .commitMove = some t → t.screen = s.screen ∧ t.store.list = t.screen := by
  have hlist : store.list.Perm store.rows := List.mergeSort_perm _ _
  have hids : (store.list.map Profile.id).Nodup := (hlist.map _).nodup_iff.mpr store.nodup
  have hsorted : (store.list.map Profile.userOrder).Pairwise (· < ·) := by
    have hle : (store.list.map Profile.userOrder).Pairwise (· ≤ ·) :=
      List.pairwise_map.mpr (list_pairwise store)
    have hne : (store.list.map Profile.userOrder).Nodup := (hlist.map _).nodup_iff.mpr hdistinct
    exact hle.imp₂ (fun p q hle hne => lt_of_le_of_ne hle hne) hne
  have htracked : ∀ {bs : List DragStep} {u : ProfileDrag}, Machine.Along step Near bs (opened store) →
      Machine.run step bs (opened store) = some u → Tracked store.list u := by
    intro bs u hbs hu
    refine Machine.invariant_along (I := Tracked store.list) ?_ (opened_tracked store) hbs hu
    intro v a w hv hP hstep
    cases a with
    | move source target => exact (move_tracked hv hP hstep).1
    | commitMove => exact (commitMove_tracked hids hv hstep).1
  have hs := htracked hnear h
  refine ⟨?_, hs.screen_perm, hs.screen_orders, ?_, ?_⟩
  · rintro pre source target post u t rfl hu hstep
    obtain ⟨hpre, hpost⟩ := Machine.along_append hnear hu
    have hu' := htracked hpre hu
    obtain ⟨ht, hmoved⟩ := move_tracked hu' hpost.1 hstep
    exact ⟨hmoved, ht.screen_orders.trans hu'.screen_orders.symm⟩
  · intro p hp
    obtain ⟨ref, -, href⟩ := List.mem_filterMap.mp hp
    obtain ⟨q, hq, hsame⟩ := hs.objects ref p href
    exact ⟨q, List.mem_of_getElem? hq, hsame⟩
  · intro t ht
    obtain ⟨htracked', hscreen, hstored⟩ := commitMove_tracked hids hs ht
    exact ⟨hscreen, htracked'.list_eq_screen hids hsorted hstored⟩

/-- Three profiles in their order. -/
def threeProfiles : ProfileStore where
  rows := [{ id := 1, userOrder := 0 }, { id := 2, userOrder := 1 }, { id := 3, userOrder := 2 }]
  sequence := 3
  nodup := by decide
  le_sequence := by decide

theorem opened_threeProfiles :
    opened threeProfiles = ⟨threeProfiles, Adapter.load threeProfiles.rows⟩ := by
  have hlist : threeProfiles.list = threeProfiles.rows :=
    List.mergeSort_of_pairwise (by decide)
  rw [opened, hlist]

/-- The first profile is dragged to the end and back up by one place. -/
theorem drags_threeProfiles :
    ∃ s t, Machine.run step [.move 0 2, .move 2 1] (opened threeProfiles) = some s ∧
      s.step .commitMove = some t ∧ t.store.list.map Profile.id = [2, 1, 3] := by
  have hrun : ∃ s, Machine.run step [.move 0 2, .move 2 1] (opened threeProfiles) = some s ∧
      s.screen.map Profile.id = [2, 1, 3] := by
    rw [opened_threeProfiles]
    exact ⟨_, rfl, by decide⟩
  obtain ⟨s, hs, hscreen⟩ := hrun
  have hnear : Machine.Along step Near [.move 0 2, .move 2 1] (opened threeProfiles) := by
    rw [opened_threeProfiles]
    decide
  have h := drags threeProfiles (by decide) [.move 0 2, .move 2 1] s hs hnear
  obtain ⟨hsame, hlist⟩ := h.2.2.2.2 _ rfl
  exact ⟨s, _, hs, rfl, by rw [hlist, hsame, hscreen]⟩

/-- The last profile is dragged to the top in one move: the first one is gone from the list, the last
one is there twice, and the database still has the old order. -/
theorem move_up_loses_profile :
    ∃ s, Machine.run step [.move 2 0, .commitMove] (opened threeProfiles) = some s ∧
      s.screen.map Profile.id = [3, 2, 3] ∧
      moved ((opened threeProfiles).screen.map Profile.id) 2 0 = [3, 1, 2] ∧
      s.store.rows.map Profile.id = [1, 2, 3] ∧ s.store.rows.map Profile.userOrder = [0, 1, 2] := by
  rw [opened_threeProfiles]
  exact ⟨_, rfl, by decide, by decide, by decide, by decide⟩

end ProfileDrag

end SsAndroid
