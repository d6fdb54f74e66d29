import SsAndroid.Lib.Machine

/-!
# Removals that can be undone

`UndoSnackbarManager` collects removed items in a recycle bin and shows a snackbar with an undo button
for every removal.  All snackbars share the bin and one callback: undo hands the whole bin to `undo`, a
snackbar that goes away by a swipe, by `flush` or by itself hands the whole bin to `commit`.  A
snackbar's dismissal takes a while; its callback comes at any time after the dismissal has begun, once,
and a new snackbar begins the dismissal of the one it replaces.

Items are numbered by the snackbar of their removal (and their place in it), so that two removals of
one item are two items here.  `overtaken` marks a snackbar on its way out to `commit` after whose
dismissal began something was removed that is still in the bin.

**`removals_handed_on`**: every removed item is handed on once and none is left when all snackbars are
gone; and if no snackbar that is overtaken gets its callback, an item is committed only by the dismissal
of a snackbar shown at its removal or later.
-/

namespace SsAndroid

inductive DismissEvent
  | swipe
  | action
  | timeout
  | manual
  | consecutive
  deriving DecidableEq

/-- The events on which `onDismissed` commits. -/
def DismissEvent.commits : DismissEvent → Bool
  | .swipe | .manual | .timeout => true
  | .action | .consecutive => false

/-- A snackbar that was shown; its dismissal has begun if there is an event. -/
structure Snackbar where
  /-- The number in the text of the snackbar. -/
  count : Nat
  event : Option DismissEvent := none
  delivered : Bool := false
  overtaken : Bool := false
  deriving DecidableEq

/-- An entry of the recycle bin, with the snackbar of its removal and its place in that removal. -/
structure Removal (T : Type) where
  index : Int
  item : T
  snackbar : Nat
  place : Nat
  deriving DecidableEq

/-- The manager, all snackbars it has shown, and what it has removed and handed on; a committed item
with the snackbar on whose dismissal that happened. -/
structure UndoSnackbarManager (T : Type) where
  recycleBin : List (Removal T) := []
  last : Option Nat := none
  snackbars : List Snackbar := []
  removed : List (Removal T) := []
  undone : List (Removal T) := []
  committed : List (Removal T × Nat) := []

inductive SnackbarAction (T : Type)
  | remove (items : List (Int × T))
  /-- The undo button of a snackbar. -/
  | undo (snackbar : Nat)
  | flush
  /-- A snackbar is swiped away. -/
  | swipe (snackbar : Nat)
  /-- The time of a snackbar is over. -/
  | timeout (snackbar : Nat)
  | onDismissed (snackbar : Nat)

namespace Snackbar

/-- The dismissal begins, unless it has begun before. -/
def dismiss (event : DismissEvent) (b : Snackbar) : Snackbar :=
  if b.event = none then { b with event := some event } else b

/-- The snackbar is on its way out, and its callback will commit. -/
def leaving (b : Snackbar) : Bool := !b.delivered && b.event.any DismissEvent.commits

/-- Another snackbar is shown, for a removal of something or of nothing. -/
def replaced (something : Bool) (b : Snackbar) : Snackbar :=
  { b.dismiss .consecutive with overtaken := b.overtaken || (something && b.leaving) }

/-- The bin is emptied. -/
def settle (b : Snackbar) : Snackbar := { b with overtaken := false }

end Snackbar

namespace UndoSnackbarManager

variable {T : Type}

/-- The entries of a removal. -/
def removals (snackbar : Nat) (items : List (Int × T)) : List (Removal T) :=
  items.zipIdx.map fun e => ⟨e.1.1, e.1.2, snackbar, e.2⟩

def remove (s : UndoSnackbarManager T) (items : List (Int × T)) : UndoSnackbarManager T :=
  let new := removals s.snackbars.length items
  { s with
    recycleBin := s.recycleBin ++ new
    snackbars := s.snackbars.map (Snackbar.replaced (!items.isEmpty)) ++
      [{ count := (s.recycleBin ++ new).length }]
    last := some s.snackbars.length
    removed := s.removed ++ new }

/-- The listener of the undo button, on which the snackbar goes away. -/
def undo (s : UndoSnackbarManager T) (j : Nat) : UndoSnackbarManager T :=
  { s with
    undone := s.undone ++ s.recycleBin.reverse
    recycleBin := []
    snackbars := (s.snackbars.modify j (Snackbar.dismiss .action)).map Snackbar.settle }

/-- The dismissal of a snackbar begins. -/
def dismiss (s : UndoSnackbarManager T) (j : Nat) (event : DismissEvent) : UndoSnackbarManager T :=
  { s with snackbars := s.snackbars.modify j (Snackbar.dismiss event) }

def flush (s : UndoSnackbarManager T) : UndoSnackbarManager T :=
  match s.last with
  | none => s
  | some j => { s.dismiss j .manual with last := none }

/-- `removedCallback.onDismissed(snackbar, event)`. -/
def onDismissed (s : UndoSnackbarManager T) (j : Nat) (event : DismissEvent) : UndoSnackbarManager T :=
  let s := { s with snackbars := s.snackbars.modify j fun b => { b with delivered := true } }
  let s :=
    if event.commits then
      { s with
        committed := s.committed ++ s.recycleBin.map fun r => (r, j)
        recycleBin := []
        snackbars := s.snackbars.map Snackbar.settle }
    else s
  { s with last := none }

def step (s : UndoSnackbarManager T) : SnackbarAction T → Option (UndoSnackbarManager T)
  | .remove items => some (s.remove items)
  | .undo j =>
      match s.snackbars[j]? with
      | some b => if b.delivered then none else some (s.undo j)
      | none => none
  | .flush => some s.flush
  | .swipe j =>
      match s.snackbars[j]? with
      | some b => if b.event = none then some (s.dismiss j .swipe) else none
      | none => none
  | .timeout j =>
      match s.snackbars[j]? with
      | some b => if b.event = none then some (s.dismiss j .timeout) else none
      | none => none
  | .onDismissed j =>
      match s.snackbars[j]? with
      | some ⟨_, some event, false, _⟩ => some (s.onDismissed j event)
      | _ => none

/-- No snackbar gets its callback while something that was removed since its dismissal began is in the
bin. -/
def Timely (s : UndoSnackbarManager T) : SnackbarAction T → Prop
  | .onDismissed j => ∀ b ∈ s.snackbars[j]?, b.overtaken = false
  | _ => True

/-! ### Every item once -/

/-- Where the removed items are. -/
structure Accounted (s : UndoSnackbarManager T) : Prop where
  perm : (s.undone ++ s.committed.map Prod.fst ++ s.recycleBin).Perm s.removed
  nodup : s.removed.Nodup
  shown : ∀ r ∈ s.removed, r.snackbar < s.snackbars.length

theorem mem_removals {n : Nat} {items : List (Int × T)} {r : Removal T} (h : r ∈ removals n items) :
    r.snackbar = n := by
  obtain ⟨e, -, rfl⟩ := List.mem_map.mp h
  rfl

theorem removals_nodup (n : Nat) (items : List (Int × T)) : (removals n items).Nodup := by
  have hplaces : ((removals n items).map Removal.place) = List.range items.length := by
    rw [removals, List.map_map]
    show items.zipIdx.map Prod.snd = _
    rw [List.zipIdx_map_snd, List.range_eq_range']
  exact (hplaces ▸ List.nodup_range).of_map

theorem remove_accounted {s : UndoSnackbarManager T} (h : s.Accounted) (items : List (Int × T)) :
    (s.remove items).Accounted := by
  refine ⟨?_, ?_, ?_⟩
  · show (s.undone ++ s.committed.map Prod.fst ++ (s.recycleBin ++ _)).Perm (s.removed ++ _)
    rw [← List.append_assoc]
    exact h.perm.append_right _
  · refine List.nodup_append.mpr ⟨h.nodup, removals_nodup _ _, ?_⟩
    intro r hr r' hr' heq
    have hlt := h.shown r hr
    rw [heq, mem_removals hr'] at hlt
    exact absurd hlt (lt_irrefl _)
  · intro r hr
    show r.snackbar < (s.snackbars.map _ ++ [_]).length
    rw [List.length_append, List.length_map, List.length_singleton]
    rcases List.mem_append.mp hr with hr | hr
    · exact Nat.lt_succ_of_lt (h.shown r hr)
    · rw [mem_removals hr]
      exact Nat.lt_succ_self _

theorem undo_accounted {s : UndoSnackbarManager T} (h : s.Accounted) (j : Nat) :
    (s.undo j).Accounted := by
  refine ⟨?_, h.nodup, ?_⟩
  · show (s.undone ++ s.recycleBin.reverse ++ s.committed.map Prod.fst ++ []).Perm s.removed
    refine List.Perm.trans ?_ h.perm
    rw [List.append_nil, List.append_assoc, List.append_assoc]
    exact (List.perm_append_comm.trans ((s.recycleBin.reverse_perm).append_left _)).append_left _
  · intro r hr
    show r.snackbar < ((s.snackbars.modify j _).map _).length
    rw [List.length_map, List.length_modify]
    exact h.shown r hr

theorem dismiss_accounted {s : UndoSnackbarManager T} (h : s.Accounted) (j : Nat)
    (event : DismissEvent) : (s.dismiss j event).Accounted := by
  refine ⟨h.perm, h.nodup, ?_⟩
  intro r hr
  show r.snackbar < (s.snackbars.modify j _).length
  rw [List.length_modify]
  exact h.shown r hr

theorem onDismissed_accounted {s : UndoSnackbarManager T} (h : s.Accounted) (j : Nat)
    (event : DismissEvent) : (s.onDismissed j event).Accounted := by
  unfold onDismissed
  by_cases hcommits : event.commits = true
  · simp only [hcommits, if_true]
    refine ⟨?_, h.nodup, ?_⟩
    · show (s.undone ++ (s.committed ++ _).map Prod.fst ++ []).Perm s.removed
      rw [List.append_nil, List.map_append, List.map_map, ← List.append_assoc]
      rw [show Prod.fst ∘ (fun r : Removal T => (r, j)) = id from rfl, List.map_id]
      exact h.perm
    · intro r hr
      show r.snackbar < ((s.snackbars.modify j _).map _).length
      rw [List.length_map, List.length_modify]
      exact h.shown r hr
  · simp only [hcommits]
    refine ⟨h.perm, h.nodup, ?_⟩
    intro r hr
    show r.snackbar < (s.snackbars.modify j _).length
    rw [List.length_modify]
    exact h.shown r hr

/-! ### What is offered -/

/-- Which snackbars can be waiting for what. -/
structure Offers (s : UndoSnackbarManager T) : Prop where
  /-- Only the newest snackbar is not on its way out. -/
  newest : ∀ (j : Nat) (b : Snackbar), s.snackbars[j]? = some b → b.event = none →
    j + 1 = s.snackbars.length
  /-- While something is in the bin, the newest snackbar has yet to deal with it. -/
  waiting : s.recycleBin ≠ [] → ∃ b, s.snackbars[s.snackbars.length - 1]? = some b ∧
    b.delivered = false ∧ ∀ e, b.event = some e → e.commits = true
  /-- What a snackbar will commit that was not overtaken was removed when it was shown or before. -/
  due : ∀ (j : Nat) (b : Snackbar), s.snackbars[j]? = some b → b.leaving = true →
    b.overtaken = false → ∀ r ∈ s.recycleBin, r.snackbar ≤ j

theorem dismiss_event (event : DismissEvent) (b : Snackbar) :
    (b.dismiss event).event = some (b.event.getD event) := by
  unfold Snackbar.dismiss
  cases h : b.event with
  | none => rfl
  | some e => simpa using h

theorem dismiss_delivered (event : DismissEvent) (b : Snackbar) :
    (b.dismiss event).delivered = b.delivered := by
  unfold Snackbar.dismiss
  split_ifs <;> rfl

theorem dismiss_of_event {event e : DismissEvent} {b : Snackbar} (h : b.event = some e) :
    b.dismiss event = b := by
  unfold Snackbar.dismiss
  rw [if_neg (by rw [h]; simp)]

/-- A snackbar of the list after another was shown: an old one, or the new one. -/
theorem remove_snackbar {s : UndoSnackbarManager T} {items : List (Int × T)} {j : Nat} {b : Snackbar}
    (h : (s.remove items).snackbars[j]? = some b) :
    (∃ b₀, s.snackbars[j]? = some b₀ ∧ b = b₀.replaced (!items.isEmpty)) ∨
      (j = s.snackbars.length ∧ b.event = none ∧ b.delivered = false) := by
  have h' : (s.snackbars.map (Snackbar.replaced (!items.isEmpty)) ++
      [{ count := (s.recycleBin ++ removals s.snackbars.length items).length }])[j]? = some b := h
  rw [List.getElem?_append] at h'
  split_ifs at h' with hlt
  · rw [List.getElem?_map] at h'
    obtain ⟨b₀, hb₀, rfl⟩ := Option.map_eq_some_iff.mp h'
    exact Or.inl ⟨b₀, hb₀, rfl⟩
  · rw [List.length_map] at hlt h'
    obtain ⟨hindex, hb⟩ := List.getElem?_eq_some_iff.mp h'
    have hzero : j - s.snackbars.length = 0 := by
      rw [List.length_singleton] at hindex
      omega
    rw [hzero] at h'
    obtain rfl := Option.some.inj h'
    exact Or.inr ⟨by omega, rfl, rfl⟩

theorem remove_offers {s : UndoSnackbarManager T} (h : s.Offers) (items : List (Int × T)) :
    (s.remove items).Offers := by
  have hlength : (s.remove items).snackbars.length = s.snackbars.length + 1 := by
    show (s.snackbars.map _ ++ [_]).length = _
    rw [List.length_append, List.length_map, List.length_singleton]
  refine ⟨?_, ?_, ?_⟩
  · intro j b hb hevent
    rcases remove_snackbar hb with ⟨b₀, -, rfl⟩ | ⟨rfl, -, -⟩
    · have hsome : (b₀.replaced (!items.isEmpty)).event = some _ := dismiss_event .consecutive b₀
      rw [hsome] at hevent
      cases hevent
    · exact hlength.symm
  · intro _
    have hlast : (s.remove items).snackbars[(s.remove items).snackbars.length - 1]? =
        some { count := (s.recycleBin ++ removals s.snackbars.length items).length } := by
      rw [hlength, Nat.add_sub_cancel]
      show (s.snackbars.map _ ++ [_])[s.snackbars.length]? = _
      rw [List.getElem?_append_right (by rw [List.length_map]), List.length_map, Nat.sub_self]
      rfl
    exact ⟨_, hlast, rfl, by simp⟩
  · intro j b hb hleaving hovertaken r hr
    rcases remove_snackbar hb with ⟨b₀, hb₀, rfl⟩ | ⟨-, hevent, -⟩
    · have hleaving₀ : b₀.leaving = true := by
        unfold Snackbar.leaving at hleaving ⊢
        rw [show (b₀.replaced _).event = some _ from dismiss_event .consecutive b₀,
          show (b₀.replaced _).delivered = _ from dismiss_delivered .consecutive b₀] at hleaving
        cases hevent : b₀.event with
        | none =>
          rw [hevent] at hleaving
          simp [DismissEvent.commits] at hleaving
        | some e =>
          rw [hevent] at hleaving
          exact hleaving
      have hflags : (b₀.overtaken || (!items.isEmpty && b₀.leaving)) = false := hovertaken
      rw [hleaving₀, Bool.and_true, Bool.or_eq_false_iff, Bool.not_eq_false'] at hflags
      -- nothing was removed, so the bin is as it was
      obtain rfl : items = [] := List.isEmpty_iff.mp hflags.2
      have hbin : r ∈ s.recycleBin := by
        rcases List.mem_append.mp hr with hr | hr
        · exact hr
        · exact absurd hr (by simp [removals])
      exact h.due j b₀ hb₀ hleaving₀ hflags.1 r hbin
    · rw [Snackbar.leaving, hevent] at hleaving
      simp at hleaving

/-- A snackbar of the list after one dismissal began. -/
theorem modify_snackbar {bs : List Snackbar} {f : Snackbar → Snackbar} {i j : Nat} {b : Snackbar}
    (h : (bs.modify i f)[j]? = some b) : ∃ b₀, bs[j]? = some b₀ ∧ b = if i = j then f b₀ else b₀ := by
  rw [List.getElem?_modify] at h
  obtain ⟨b₀, hb₀, rfl⟩ := Option.map_eq_some_iff.mp h
  exact ⟨b₀, hb₀, rfl⟩

theorem undo_offers {s : UndoSnackbarManager T} (h : s.Offers) (i : Nat) : (s.undo i).Offers := by
  have hlength : (s.undo i).snackbars.length = s.snackbars.length := by
    show ((s.snackbars.modify i _).map _).length = _
    rw [List.length_map, List.length_modify]
  refine ⟨?_, fun hbin => absurd rfl hbin, fun j b hb hleaving hovertaken r hr => ?_⟩
  · intro j b hb hevent
    have hb' : ((s.snackbars.modify i (Snackbar.dismiss .action)).map Snackbar.settle)[j]? = some b :=
      hb
    rw [List.getElem?_map] at hb'
    obtain ⟨b₁, hb₁, rfl⟩ := Option.map_eq_some_iff.mp hb'
    obtain ⟨b₀, hb₀, rfl⟩ := modify_snackbar hb₁
    rw [hlength]
    apply h.newest j b₀ hb₀
    split_ifs at hevent with hij
    · have hsome : (b₀.dismiss .action).event = none := hevent
      rw [dismiss_event] at hsome
      cases hsome
    · exact hevent
  · exact absurd hr (by simp [undo])

theorem dismiss_offers {s : UndoSnackbarManager T} (ha : s.Accounted) (h : s.Offers) (i : Nat)
    {event : DismissEvent} (hcommits : event.commits = true) : (s.dismiss i event).Offers := by
  have hlength : (s.dismiss i event).snackbars.length = s.snackbars.length := List.length_modify ..
  refine ⟨?_, ?_, ?_⟩
  · intro j b hb hevent
    obtain ⟨b₀, hb₀, rfl⟩ := modify_snackbar hb
    rw [hlength]
    apply h.newest j b₀ hb₀
    split_ifs at hevent with hij
    · rw [dismiss_event] at hevent
      cases hevent
    · exact hevent
  · intro hbin
    obtain ⟨b, hb, hdelivered, hevent⟩ := h.waiting hbin
    rw [hlength]
    refine ⟨if i = s.snackbars.length - 1 then b.dismiss event else b, ?_, ?_, ?_⟩
    · show (s.snackbars.modify i _)[_]? = _
      rw [List.getElem?_modify, hb]
      rfl
    · split_ifs
      · rw [dismiss_delivered]
        exact hdelivered
      · exact hdelivered
    · intro e he
      split_ifs at he
      · rw [dismiss_event] at he
        obtain rfl := Option.some.inj he
        cases hb' : b.event with
        | none => exact hcommits
        | some e => exact hevent e hb'
      · exact hevent e he
  · intro j b hb hleaving hovertaken r hr
    obtain ⟨b₀, hb₀, rfl⟩ := modify_snackbar hb
    have hr' : r ∈ s.recycleBin := hr
    split_ifs at hleaving hovertaken with hij
    · cases hevent : b₀.event with
      | none =>
        -- the newest snackbar: everything in the bin was removed by then
        have hnewest := h.newest j b₀ hb₀ hevent
        have hshown := ha.shown r (ha.perm.mem_iff.mp (List.mem_append_right _ hr'))
        omega
      | some e =>
        rw [dismiss_of_event hevent] at hleaving hovertaken
        exact h.due j b₀ hb₀ hleaving hovertaken r hr'
    · exact h.due j b₀ hb₀ hleaving hovertaken r hr'

theorem onDismissed_offers {s : UndoSnackbarManager T} (h : s.Offers) {i : Nat} {b : Snackbar}
    {event : DismissEvent} (hi : s.snackbars[i]? = some b) (hevent : b.event = some event) :
    (s.onDismissed i event).Offers := by
  unfold onDismissed
  by_cases hcommits : event.commits = true
  · simp only [hcommits, if_true]
    refine ⟨?_, fun hbin => absurd rfl hbin, fun j b hb hleaving hovertaken r hr => ?_⟩
    · intro j b' hb' hnone
      have hb₁ : ((s.snackbars.modify i fun b => { b with delivered := true }).map
          Snackbar.settle)[j]? = some b' := hb'
      rw [List.getElem?_map] at hb₁
      obtain ⟨b₂, hb₂, rfl⟩ := Option.map_eq_some_iff.mp hb₁
      obtain ⟨b₀, hb₀, rfl⟩ := modify_snackbar hb₂
      rw [List.length_map, List.length_modify]
      apply h.newest j b₀ hb₀
      split_ifs at hnone <;> exact hnone
    · exact absurd hr (by simp)
  · simp only [hcommits]
    refine ⟨?_, ?_, ?_⟩
    · intro j b' hb' hnone
      obtain ⟨b₀, hb₀, rfl⟩ := modify_snackbar hb'
      show j + 1 = (s.snackbars.modify i _).length
      rw [List.length_modify]
      apply h.newest j b₀ hb₀
      split_ifs at hnone <;> exact hnone
    · -- the newest snackbar is waiting to commit, so it is another one
      intro hbin
      obtain ⟨b₀, hb₀, hdelivered, hwaits⟩ := h.waiting hbin
      have hother : i ≠ s.snackbars.length - 1 := by
        rintro rfl
        rw [hi] at hb₀
        obtain rfl := Option.some.inj hb₀
        exact hcommits (hwaits event hevent)
      refine ⟨b₀, ?_, hdelivered, hwaits⟩
      show (s.snackbars.modify i _)[(s.snackbars.modify i _).length - 1]? = _
      rw [List.length_modify, List.getElem?_modify_ne _ _ hother]
      exact hb₀
    · intro j b' hb' hleaving hovertaken
      obtain ⟨b₀, hb₀, rfl⟩ := modify_snackbar hb'
      split_ifs at hleaving hovertaken with hij
      · simp [Snackbar.leaving] at hleaving
      · exact h.due j b₀ hb₀ hleaving hovertaken

/-! ### Every run -/

/-- What holds between two steps. -/
structure Sound (s : UndoSnackbarManager T) : Prop where
  accounted : s.Accounted
  offers : s.Offers

/-- What a step does, and when it can be taken. -/
inductive Does (s : UndoSnackbarManager T) : SnackbarAction T → UndoSnackbarManager T → Prop
  | remove (items : List (Int × T)) : Does s (.remove items) (s.remove items)
  | undo (j : Nat) : Does s (.undo j) (s.undo j)
  | flushNothing : Does s .flush s
  | flush (j : Nat) : Does s .flush { s.dismiss j .manual with last := none }
  | dismiss (a : SnackbarAction T) (j : Nat) {event : DismissEvent} (h : event.commits = true) :
      Does s a (s.dismiss j event)
  | onDismissed {j : Nat} {b : Snackbar} {event : DismissEvent} (hj : s.snackbars[j]? = some b)
      (hevent : b.event = some event) (hwaiting : b.delivered = false) :
      Does s (.onDismissed j) (s.onDismissed j event)

theorem step_does {s t : UndoSnackbarManager T} {a : SnackbarAction T} (hstep : s.step a = some t) :
    s.Does a t := by
  cases a with
  | remove items =>
    obtain rfl := Option.some.inj hstep
    exact .remove items
  | undo j =>
    simp only [step] at hstep
    split at hstep
    · split_ifs at hstep
      obtain rfl := Option.some.inj hstep
      exact .undo j
    · cases hstep
  | flush =>
    obtain rfl := Option.some.inj hstep
    unfold flush
    cases s.last with
    | none => exact .flushNothing
    | some j => exact .flush j
  | swipe j | timeout j =>
    simp only [step] at hstep
    split at hstep
    · split_ifs at hstep
      obtain rfl := Option.some.inj hstep
      exact .dismiss _ j rfl
    · cases hstep
  | onDismissed j =>
    simp only [step] at hstep
    split at hstep
    case h_1 hj =>
      obtain rfl := Option.some.inj hstep
      exact .onDismissed hj rfl rfl
    case h_2 => cases hstep

/-- **One step.** -/
theorem step_sound {s t : UndoSnackbarManager T} {a : SnackbarAction T} (h : s.Sound)
    (hstep : s.step a = some t) : t.Sound := by
  cases step_does hstep with
  | remove items => exact ⟨remove_accounted h.accounted items, remove_offers h.offers items⟩
  | undo j => exact ⟨undo_accounted h.accounted j, undo_offers h.offers j⟩
  | flushNothing => exact h
  | flush j =>
    have ha := dismiss_accounted h.accounted j .manual
    have ho := dismiss_offers h.accounted h.offers j (show DismissEvent.manual.commits = true from rfl)
    exact ⟨⟨ha.perm, ha.nodup, ha.shown⟩, ⟨ho.newest, ho.waiting, ho.due⟩⟩
  | dismiss _ j hcommits =>
    exact ⟨dismiss_accounted h.accounted j _, dismiss_offers h.accounted h.offers j hcommits⟩
  | onDismissed hj hevent _ =>
    exact ⟨onDismissed_accounted h.accounted _ _, onDismissed_offers h.offers hj hevent⟩

theorem start_sound : ({} : UndoSnackbarManager T).Sound := by
  refine ⟨⟨List.Perm.refl _, List.nodup_nil, by simp⟩, ⟨?_, fun hbin => absurd rfl hbin, ?_⟩⟩
  · intro j b hb
    simp at hb
  · intro j b hb
    simp at hb

/-- An item was committed by a snackbar that was shown at its removal or later and is gone. -/
def InTime (s : UndoSnackbarManager T) : Prop :=
  ∀ e ∈ s.committed, e.1.snackbar ≤ e.2 ∧ ∃ b, s.snackbars[e.2]? = some b ∧ b.delivered = true

theorem modify_delivered {bs : List Snackbar} {f : Snackbar → Snackbar} (i : Nat) {j : Nat}
    {b : Snackbar} (hf : ∀ b : Snackbar, b.delivered = true → (f b).delivered = true)
    (hb : bs[j]? = some b) (hdelivered : b.delivered = true) :
    ∃ b', (bs.modify i f)[j]? = some b' ∧ b'.delivered = true := by
  refine ⟨if i = j then f b else b, ?_, ?_⟩
  · rw [List.getElem?_modify, hb]
    rfl
  · split_ifs
    · exact hf b hdelivered
    · exact hdelivered

theorem map_settle_delivered {bs : List Snackbar} {j : Nat}
    (h : ∃ b, bs[j]? = some b ∧ b.delivered = true) :
    ∃ b', (bs.map Snackbar.settle)[j]? = some b' ∧ b'.delivered = true := by
  obtain ⟨b, hb, hdelivered⟩ := h
  exact ⟨b.settle, by rw [List.getElem?_map, hb]; rfl, hdelivered⟩

theorem dismiss_keeps_delivered (event : DismissEvent) (b : Snackbar) (h : b.delivered = true) :
    (b.dismiss event).delivered = true := by
  rw [dismiss_delivered, h]

theorem onDismissed_delivered {s : UndoSnackbarManager T} (i : Nat) (event : DismissEvent) {j : Nat}
    (h : ∃ b, (s.snackbars.modify i fun b => { b with delivered := true })[j]? = some b ∧
      b.delivered = true) :
    ∃ b', (s.onDismissed i event).snackbars[j]? = some b' ∧ b'.delivered = true := by
  unfold onDismissed
  by_cases hcommits : event.commits = true
  · simp only [hcommits, if_true]
    exact map_settle_delivered h
  · simp only [hcommits]
    exact h

/-- The callbacks that were delivered stay delivered. -/
theorem step_delivered {s t : UndoSnackbarManager T} {a : SnackbarAction T} (hstep : s.step a = some t)
    {j : Nat} {b : Snackbar} (hb : s.snackbars[j]? = some b) (hdelivered : b.delivered = true) :
    ∃ b', t.snackbars[j]? = some b' ∧ b'.delivered = true := by
  cases step_does hstep with
  | remove items =>
    refine ⟨b.replaced (!items.isEmpty), ?_, dismiss_keeps_delivered .consecutive b hdelivered⟩
    show (s.snackbars.map _ ++ [_])[j]? = _
    have hlt : j < s.snackbars.length := (List.getElem?_eq_some_iff.mp hb).1
    rw [List.getElem?_append_left (by rw [List.length_map]; exact hlt), List.getElem?_map, hb]
    rfl
  | undo i =>
    exact map_settle_delivered (modify_delivered i (dismiss_keeps_delivered .action) hb hdelivered)
  | flushNothing => exact ⟨b, hb, hdelivered⟩
  | flush i => exact modify_delivered i (dismiss_keeps_delivered .manual) hb hdelivered
  | dismiss _ i _ => exact modify_delivered i (dismiss_keeps_delivered _) hb hdelivered
  | @onDismissed i _ event _ _ _ =>
    exact onDismissed_delivered i event (modify_delivered i (fun _ _ => rfl) hb hdelivered)

/-- **What a step commits**: the bin, when a snackbar on its way out gets its callback. -/
theorem step_committed {s t : UndoSnackbarManager T} {a : SnackbarAction T} (hstep : s.step a = some t) :
    t.committed = s.committed ∨ ∃ j b, a = .onDismissed j ∧ s.snackbars[j]? = some b ∧
      b.leaving = true ∧ t.committed = s.committed ++ s.recycleBin.map (fun r => (r, j)) ∧
      ∃ b', t.snackbars[j]? = some b' ∧ b'.delivered = true := by
  cases step_does hstep with
  | @onDismissed i b event hi hevent hwaiting =>
    by_cases hcommits : event.commits = true
    · have hleaving : b.leaving = true := by simp [Snackbar.leaving, hevent, hwaiting, hcommits]
      refine Or.inr ⟨i, b, rfl, hi, hleaving, ?_, ?_⟩
      · unfold onDismissed
        simp only [hcommits, if_true]
      · refine onDismissed_delivered i event ⟨{ b with delivered := true }, ?_, rfl⟩
        rw [List.getElem?_modify_eq, hi]
        rfl
    · left
      unfold onDismissed
      simp only [hcommits]
      rfl
  | remove items => exact Or.inl rfl
  | undo j => exact Or.inl rfl
  | flushNothing => exact Or.inl rfl
  | flush j => exact Or.inl rfl
  | dismiss _ j _ => exact Or.inl rfl

theorem step_inTime {s t : UndoSnackbarManager T} {a : SnackbarAction T} (hs : s.Sound)
    (h : s.InTime) (htimely : s.Timely a) (hstep : s.step a = some t) : t.InTime := by
  have hold : ∀ e ∈ s.committed, e.1.snackbar ≤ e.2 ∧
      ∃ b, t.snackbars[e.2]? = some b ∧ b.delivered = true := by
    intro e he
    obtain ⟨hle, b, hb, hdelivered⟩ := h e he
    exact ⟨hle, step_delivered hstep hb hdelivered⟩
  intro e he
  rcases step_committed hstep with hsame | ⟨j, b, rfl, hb, hleaving, hcommitted, hgone⟩
  · rw [hsame] at he
    exact hold e he
  · rw [hcommitted] at he
    rcases List.mem_append.mp he with he | he
    · exact hold e he
    · obtain ⟨r, hr, rfl⟩ := List.mem_map.mp he
      exact ⟨hs.offers.due j b hb hleaving (htimely b hb) r hr, hgone⟩

/-- **Removals are handed on once, and in time.**  In every run: the removed items, each of them once,
are those handed to `undo`, those handed to `commit` and those in the bin, and the bin is empty when
every snackbar has had its callback.  If no snackbar gets its callback while something removed since its
dismissal began is in the bin: every item was committed when a snackbar shown at its removal or later
was dismissed. -/
theorem removals_handed_on (as : List (SnackbarAction T)) (s : UndoSnackbarManager T)
    (h : Machine.run step as {} = some s) :
    s.removed.Nodup ∧ (s.undone ++ s.committed.map Prod.fst ++ s.recycleBin).Perm s.removed ∧
    ((∀ b ∈ s.snackbars, b.delivered = true) → s.recycleBin = []) ∧
    (Machine.Along step Timely as {} →
      ∀ e ∈ s.committed, e.1.snackbar ≤ e.2 ∧
        ∃ b, s.snackbars[e.2]? = some b ∧ b.delivered = true) := by
  have hs : s.Sound := Machine.invariant (fun _ _ _ h hstep => step_sound h hstep) start_sound h
  refine ⟨hs.accounted.nodup, hs.accounted.perm, ?_, ?_⟩
  · intro hall
    by_contra hbin
    obtain ⟨b, hb, hdelivered, -⟩ := hs.offers.waiting hbin
    rw [hall b (List.mem_of_getElem? hb)] at hdelivered
    cases hdelivered
  · intro htimely
    have hboth : s.Sound ∧ s.InTime := by
      refine Machine.invariant_along (I := fun s => s.Sound ∧ s.InTime) ?_
        ⟨start_sound, by simp [InTime]⟩ htimely h
      intro u a v hu hP hstep
      exact ⟨step_sound hu.1 hstep, step_inTime hu.1 hu.2 hP hstep⟩
    exact hboth.2

instance (s : UndoSnackbarManager T) : ∀ a, Decidable (s.Timely a)
  | .onDismissed j => inferInstanceAs (Decidable (∀ b ∈ s.snackbars[j]?, b.overtaken = false))
  | .remove _ | .undo _ | .flush | .swipe _ | .timeout _ => inferInstanceAs (Decidable True)

/-- An item is removed, then another; the second snackbar replaces the first and times out. -/
def twoRemovals : List (SnackbarAction Nat) :=
  [.remove [(0, 10)], .remove [(1, 11)], .onDismissed 0, .timeout 1, .onDismissed 1]

theorem removals_handed_on_twoRemovals :
    ∃ s, Machine.run step twoRemovals {} = some s ∧
      s.committed.map (fun e => (e.1.item, e.1.snackbar, e.2)) = [(10, 0, 1), (11, 1, 1)] ∧
      s.recycleBin = [] ∧ ∀ e ∈ s.committed, e.1.snackbar ≤ e.2 := by
  have h := removals_handed_on twoRemovals _ rfl
  exact ⟨_, rfl, by decide, h.2.2.1 (by decide), fun e he => (h.2.2.2 (by decide) e he).1⟩

/-- A second item is removed after the first snackbar has begun to time out and before its callback:
it is committed with the first, while its own snackbar is still shown. -/
theorem removal_committed_while_offered :
    ∃ s, Machine.run step [.remove [(0, 10)], .timeout 0, .remove [(0, 11)], .onDismissed 0]
        ({} : UndoSnackbarManager Nat) = some s ∧
      s.committed.map (fun e => (e.1.item, e.1.snackbar, e.2)) = [(10, 0, 0), (11, 1, 0)] ∧
      s.snackbars[1]? = some { count := 2 } :=
  ⟨_, rfl, by decide, by decide⟩

end UndoSnackbarManager

end SsAndroid
