import SsAndroid.Bg.Sessions

/-!
# Who writes to a stored profile

Background sessions add their traffic to the row of their profile as it is.  The user interface has
objects of its own and writes whole rows from them: the main screen the profile it loaded when the
activity was created (`act`), for the route switch and for a new line configuration; the profile list
the objects in its adapter, for a new order.

`Interface` is the store with these objects.  The adapter's objects have an identity, since a
refreshed profile is a new object in the list while the old one may still be waiting to be written:
`objects` is the heap they live in and `profiles` and `updated` hold references.

`Freshness` follows which objects have been overtaken by another writer since they were loaded or
stored.  **`writes_keep_fields`**: in every run in which only objects that were not are written and the
counters stay below `2 ^ 63`, each write changes what it is about and nothing else, and the traffic
never decreases.
-/

namespace SsAndroid

/-- `SELECT * FROM Profile WHERE id = :id`. -/
def ProfileStore.get (s : ProfileStore) (id : Int) : Option Profile :=
  s.rows.find? (fun p => p.id = id)

/-- `ProfilesAdapter`; lists hold places in `objects`. -/
structure Adapter where
  objects : List Profile
  profiles : List Nat
  updated : List Nat

structure Interface where
  store : ProfileStore
  /-- `JNewActivity.profile`. -/
  act : Option Profile
  adapter : Option Adapter

namespace Adapter

/-- `ProfileManager.getAllProfiles()` in a new adapter. -/
def load (list : List Profile) : Adapter := ⟨list, List.range list.length, []⟩

def setOrder (a : Adapter) (ref : Nat) (order : Int) : Adapter :=
  { a with objects := a.objects.modify ref (fun p => { p with userOrder := order }) }

def orderOf (a : Adapter) (ref : Nat) : Int := ((a.objects[ref]?).map Profile.userOrder).getD 0

/-- `profiles[i]`; `none` is an exception. -/
def at? (a : Adapter) (i : Int) : Option Nat := if 0 ≤ i then a.profiles[i.toNat]? else none

/-- The loop of `move`: the adapter and the last order taken over, or `none` after an exception. -/
def moveLoop (step : Int) : List Int → Adapter → Int → Adapter × Option Int
  | [], a, previousOrder => (a, some previousOrder)
  | i :: is, a, previousOrder =>
      match a.at? (i + step) with
      | none => (a, none)
      | some next =>
          let order := a.orderOf next
          let a := a.setOrder next previousOrder
          moveLoop step is
            { a with profiles := a.profiles.set i.toNat next, updated := a.updated ++ [next] } order

/-- `from downTo to`. -/
def downTo (first last : Int) : List Int :=
  (List.range (first - last + 1).toNat).map fun (k : Nat) => first - k

/-- `(step, range)` of `move`.  Upwards the range is `to + 1 downTo from`, which is empty unless the
places are next to each other. -/
def moveRange (source target : Nat) : Int × List Int :=
  if source < target then (1, (List.range' source (target - source)).map Int.ofNat)
  else (-1, downTo (target + 1) source)

/-- `move(from, to)`. -/
def move (a : Adapter) (source target : Nat) : Adapter :=
  match a.profiles[source]? with
  | none => a
  | some first =>
      match moveLoop (moveRange source target).1 (moveRange source target).2 a (a.orderOf first) with
      | (a, none) => a
      | (a, some previousOrder) =>
          let a := a.setOrder first previousOrder
          { a with profiles := a.profiles.set target first, updated := a.updated ++ [first] }

/-- `deepRefreshId(id)`: the object in the list is replaced by a new one. -/
def deepRefreshId (a : Adapter) (store : ProfileStore) (id : Int) : Adapter :=
  match a.profiles.findIdx? (fun ref => (a.objects[ref]?).map Profile.id = some id) with
  | none => a
  | some index =>
      match store.get id with
      | none => a
      | some p =>
          { a with objects := a.objects ++ [p], profiles := a.profiles.set index a.objects.length }

/-- `updated.forEach { ProfileManager.updateProfile(it) }`. -/
def storeAll (a : Adapter) (store : ProfileStore) (refs : List Nat) : ProfileStore :=
  refs.foldl (fun store ref =>
    match a.objects[ref]? with
    | some p => (store.updateProfile p).1
    | none => store) store

end Adapter

inductive WriteStep
  /-- A background session ends with these totals. -/
  | persistStats (id : Int) (tx rx : Nat)
  /-- The activity is created and loads the first profile. -/
  | openActivity
  /-- A click on the route switch. -/
  | switchRoute
  /-- A line configuration arrives. -/
  | lineConfig (host : Text) (port : Int) (password method : Text)
  /-- The profile list is opened. -/
  | openList
  /-- The list is told that traffic of a profile was stored. -/
  | deepRefreshId (id : Int)
  | move (source target : Nat)
  | commitMove

namespace Interface

/-- The `route` values of the switch. -/
def allRoute : Text := "all".toList

def bypassLanChn : Text := "bypass-lan-china".toList

def setRoute (p : Profile) : Profile :=
  { p with route := if p.route = bypassLanChn then allRoute else bypassLanChn }

def setLine (host : Text) (port : Int) (password method : Text) (p : Profile) : Profile :=
  { p with host := host, remotePort := port, password := password, method := method }

/-- The screen changes its profile and stores it. -/
def storeAct (s : Interface) (change : Profile → Profile) : Interface :=
  match s.act with
  | none => s
  | some p => { s with act := some (change p), store := (s.store.updateProfile (change p)).1 }

/-- `JNewActivity.getProfile`. -/
def openActivity (s : Interface) : Interface :=
  match s.store.list with
  | p :: _ => { s with act := some p }
  | [] =>
      let (store, p) := s.store.createProfile {}
      { s with store := store, act := some p }

def addTraffic (p : Profile) (tx rx : Nat) : Profile :=
  { p with tx := toLong (p.tx + tx), rx := toLong (p.rx + rx) }

def step (s : Interface) : WriteStep → Interface
  | .persistStats id tx rx =>
      match s.store.get id with
      | none => s
      | some p => { s with store := (s.store.updateProfile (addTraffic p tx rx)).1 }
  | .openActivity => s.openActivity
  | .switchRoute => s.storeAct setRoute
  | .lineConfig host port password method => s.storeAct (setLine host port password method)
  | .openList => { s with adapter := some (Adapter.load s.store.list) }
  | .deepRefreshId id => { s with adapter := s.adapter.map fun a => a.deepRefreshId s.store id }
  | .move source target => { s with adapter := s.adapter.map fun a => a.move source target }
  | .commitMove =>
      match s.adapter with
      | none => s
      | some a =>
          { s with
            store := a.storeAll s.store a.updated
            adapter := some { a with updated := [] } }

def run (s : Interface) (as : List WriteStep) : Interface := as.foldl step s

end Interface

/-! ### Freshness -/

/-- Which objects no other writer has overtaken. -/
structure Freshness where
  act : Bool
  objects : Nat → Bool

namespace Freshness

/-- Another writer has written the row of a profile. -/
def overtake (f : Freshness) (s : Interface) (id : Int) : Freshness :=
  { act := f.act && decide (s.act.map Profile.id ≠ some id)
    objects := fun ref =>
      f.objects ref &&
        decide ((s.adapter.bind fun a => (a.objects[ref]?).map Profile.id) ≠ some id) }

/-- The freshness after a step from `s`. -/
def next (f : Freshness) (s : Interface) : WriteStep → Freshness
  | .persistStats id tx rx => if tx = 0 ∧ rx = 0 then f else f.overtake s id
  | .openActivity => { f with act := true }
  | .switchRoute | .lineConfig .. =>
      match s.act with
      | none => f
      | some p => { f.overtake s p.id with act := true }
  | .openList => { f with objects := fun _ => true }
  | .deepRefreshId _ =>
      match s.adapter with
      | none => f
      | some a => { f with objects := Function.update f.objects a.objects.length true }
  | .move .. => f
  | .commitMove =>
      match s.adapter with
      | none => f
      | some a =>
          { f with
            act := f.act && decide (∀ ref ∈ a.updated,
              (a.objects[ref]?).map Profile.id ≠ s.act.map Profile.id) }

/-- The objects a step writes have not been overtaken, and the sums of a session fit into a `Long`. -/
def Allows (f : Freshness) (s : Interface) : WriteStep → Prop
  | .persistStats id tx rx =>
      ∀ p, s.store.get id = some p → IsLong (p.tx + tx) ∧ IsLong (p.rx + rx)
  | .switchRoute | .lineConfig .. => f.act = true
  | .commitMove => ∀ a, s.adapter = some a → ∀ ref ∈ a.updated, f.objects ref = true
  | _ => True

/-- Every write of the run is one of a fresh object. -/
def AllowsRun : Freshness → Interface → List WriteStep → Prop
  | _, _, [] => True
  | f, s, a :: as => f.Allows s a ∧ AllowsRun (f.next s a) (s.step a) as

end Freshness

/-! ### What a step may change -/

namespace WriteStep

/-- The change a step may make to a row. -/
def Changes : WriteStep → Profile → Profile → Prop
  | .persistStats _ _ _, p, q => q = { p with tx := q.tx, rx := q.rx } ∧ p.tx ≤ q.tx ∧ p.rx ≤ q.rx
  | .switchRoute, p, q => q = { p with route := q.route }
  | .lineConfig .., p, q =>
      q = { p with
        host := q.host, remotePort := q.remotePort, password := q.password, method := q.method }
  | .commitMove, p, q => q = { p with userOrder := q.userOrder }
  | _, p, q => q = p

theorem Changes.refl (a : WriteStep) (p : Profile) : Changes a p p := by
  cases a
  case persistStats => exact ⟨rfl, le_refl _, le_refl _⟩
  all_goals exact rfl

/-- No step takes traffic away. -/
theorem Changes.traffic {a : WriteStep} {p q : Profile} (h : Changes a p q) :
    p.tx ≤ q.tx ∧ p.rx ≤ q.rx := by
  cases a
  case persistStats => exact h.2
  all_goals
    have h : q = _ := h
    rw [h]
    exact ⟨le_refl _, le_refl _⟩

end WriteStep

/-! ### Rows -/

namespace ProfileStore

theorem get_of_mem {s : ProfileStore} {p : Profile} (hp : p ∈ s.rows) : s.get p.id = some p := by
  have hinj : ∀ {rows : List Profile}, (rows.map Profile.id).Nodup → p ∈ rows →
      rows.find? (fun q => q.id = p.id) = some p := by
    intro rows
    induction rows with
    | nil => intro _ h; simp at h
    | cons r rows ih =>
      intro hnodup hmem
      rw [List.map_cons, List.nodup_cons] at hnodup
      rw [List.find?_cons]
      rcases List.mem_cons.mp hmem with rfl | hmem
      · simp
      · have hne : r.id ≠ p.id := fun heq => hnodup.1 (heq ▸ List.mem_map_of_mem hmem)
        simp only [hne, decide_false]
        exact ih hnodup.2 hmem
  exact hinj s.nodup hp

theorem get_id {s : ProfileStore} {id : Int} {p : Profile} (h : s.get id = some p) : p.id = id := by
  have := List.find?_some h
  simpa using this

theorem get_updateProfile_eq {s : ProfileStore} {p q : Profile} (h : s.get q.id = some p) :
    (s.updateProfile q).1.get q.id = some q := by
  have hmem : q.id ∈ s.rows.map Profile.id := by
    rw [← get_id h]
    exact List.mem_map_of_mem (List.mem_of_find?_eq_some h)
  rw [updateProfile, if_pos hmem]
  exact find?_updateRows h rfl

theorem get_updateProfile_ne (s : ProfileStore) {q : Profile} {id : Int} (h : q.id ≠ id) :
    (s.updateProfile q).1.get id = s.get id := by
  rw [updateProfile]
  split
  · exact find?_updateRows_ne _ h
  · rfl

theorem get_insert {s : ProfileStore} {id : Int} {p : Profile} (h : s.get id = some p)
    (q : Profile) : (s.insert q).get id = some p := by
  show (s.rows ++ [_]).find? _ = _
  rw [List.find?_append]
  have h' : s.rows.find? (fun p => p.id = id) = some p := h
  rw [h']
  rfl

theorem get_inserted (s : ProfileStore) (q : Profile) :
    (s.insert q).get (s.sequence + 1) = some { q with id := s.sequence + 1 } :=
  get_of_mem (s := s.insert q) (p := { q with id := s.sequence + 1 })
    (List.mem_append_right _ List.mem_cons_self)

end ProfileStore

/-! ### The adapter's objects -/

/-- The profiles differ at most in their place in the list. -/
def SameButOrder (p q : Profile) : Prop := q = { p with userOrder := q.userOrder }

theorem SameButOrder.refl (p : Profile) : SameButOrder p p := rfl

theorem SameButOrder.trans {p q r : Profile} (h : SameButOrder p q) (h' : SameButOrder q r) :
    SameButOrder p r := by
  rw [SameButOrder] at h h' ⊢
  rw [h', h]

theorem SameButOrder.symm {p q : Profile} (h : SameButOrder p q) : SameButOrder q p := by
  rw [SameButOrder] at h ⊢
  rw [h]

theorem SameButOrder.id {p q : Profile} (h : SameButOrder p q) : q.id = p.id := by
  rw [SameButOrder] at h
  rw [h]

namespace Adapter

/-- The objects of `b` are those of `a`, in another order at most. -/
def SameObjects (a b : Adapter) : Prop :=
  ∀ (ref : Nat) (q : Profile), b.objects[ref]? = some q →
    ∃ p, a.objects[ref]? = some p ∧ SameButOrder p q

theorem SameObjects.refl (a : Adapter) : SameObjects a a :=
  fun _ q hq => ⟨q, hq, SameButOrder.refl q⟩

theorem SameObjects.trans {a b c : Adapter} (h : SameObjects a b) (h' : SameObjects b c) :
    SameObjects a c := by
  intro ref r hr
  obtain ⟨q, hq, hqr⟩ := h' ref r hr
  obtain ⟨p, hp, hpq⟩ := h ref q hq
  exact ⟨p, hp, hpq.trans hqr⟩

theorem sameObjects_setOrder (a : Adapter) (ref : Nat) (order : Int) :
    SameObjects a (a.setOrder ref order) := by
  intro i q hq
  rw [setOrder] at hq
  simp only [List.getElem?_modify] at hq
  obtain ⟨p, hp, rfl⟩ := Option.map_eq_some_iff.mp hq
  refine ⟨p, hp, ?_⟩
  rw [SameButOrder]
  split <;> rfl

theorem sameObjects_moveLoop (step : Int) (is : List Int) : ∀ (a : Adapter) (previousOrder : Int),
    SameObjects a (moveLoop step is a previousOrder).1 := by
  induction is with
  | nil => intro a _; exact SameObjects.refl a
  | cons i is ih =>
    intro a previousOrder
    rw [moveLoop]
    cases a.at? (i + step) with
    | none => exact SameObjects.refl a
    | some next => exact (sameObjects_setOrder a next previousOrder).trans (ih _ _)

/-- `move` changes nothing but orders. -/
theorem sameObjects_move (a : Adapter) (source target : Nat) :
    SameObjects a (a.move source target) := by
  rw [move]
  cases a.profiles[source]? with
  | none => exact SameObjects.refl a
  | some first =>
    have hloop := sameObjects_moveLoop (moveRange source target).1 (moveRange source target).2 a
      (a.orderOf first)
    cases hresult : moveLoop (moveRange source target).1 (moveRange source target).2 a
        (a.orderOf first) with
    | mk b order =>
      rw [hresult] at hloop
      simp only [hresult]
      cases order with
      | none => exact hloop
      | some order => exact hloop.trans (sameObjects_setOrder b first order)

/-- An object in step with its row. -/
def Matches (store : ProfileStore) (o : Profile) : Prop :=
  ∃ p, store.get o.id = some p ∧ SameButOrder p o

/-- The rows of the stores differ at most in their order. -/
def SameRows (store store' : ProfileStore) : Prop :=
  ∀ id p, store.get id = some p → ∃ q, store'.get id = some q ∧ SameButOrder p q

theorem SameRows.refl (store : ProfileStore) : SameRows store store :=
  fun _ p hp => ⟨p, hp, SameButOrder.refl p⟩

theorem SameRows.trans {s t u : ProfileStore} (h : SameRows s t) (h' : SameRows t u) :
    SameRows s u := by
  intro id p hp
  obtain ⟨q, hq, hpq⟩ := h id p hp
  obtain ⟨r, hr, hqr⟩ := h' id q hq
  exact ⟨r, hr, hpq.trans hqr⟩

theorem Matches.sameRows {store store' : ProfileStore} {o : Profile} (h : Matches store o)
    (hrows : SameRows store store') : Matches store' o := by
  obtain ⟨p, hp, hpo⟩ := h
  obtain ⟨q, hq, hpq⟩ := hrows _ p hp
  exact ⟨q, hq, hpq.symm.trans hpo⟩

/-- Storing an object that is in step changes the order of its row. -/
theorem sameRows_updateProfile {store : ProfileStore} {o : Profile} (h : Matches store o) :
    SameRows store (store.updateProfile o).1 := by
  obtain ⟨p, hp, hpo⟩ := h
  intro id q hq
  by_cases hid : o.id = id
  · subst hid
    obtain rfl : p = q := Option.some.inj (hp.symm.trans hq)
    exact ⟨o, ProfileStore.get_updateProfile_eq hp, hpo⟩
  · exact ⟨q, (ProfileStore.get_updateProfile_ne store hid).trans hq, SameButOrder.refl q⟩

/-- **`commitMove` over objects that are in step with their rows.** -/
theorem storeAll_spec (a : Adapter) (refs : List Nat) : ∀ store : ProfileStore,
    (∀ ref ∈ refs, ∀ o, a.objects[ref]? = some o → Matches store o) →
    SameRows store (a.storeAll store refs) ∧
      ∀ id, (∀ ref ∈ refs, (a.objects[ref]?).map Profile.id ≠ some id) →
        (a.storeAll store refs).get id = store.get id := by
  induction refs with
  | nil => intro store _; exact ⟨SameRows.refl store, fun _ _ => rfl⟩
  | cons ref refs ih =>
    intro store hmatch
    rw [storeAll, List.foldl_cons]
    cases ho : a.objects[ref]? with
    | none =>
      obtain ⟨hrows, hother⟩ := ih store fun r hr => hmatch r (List.mem_cons_of_mem _ hr)
      exact ⟨hrows, fun id hid => hother id fun r hr => hid r (List.mem_cons_of_mem _ hr)⟩
    | some o =>
      have hself := sameRows_updateProfile (hmatch ref List.mem_cons_self o ho)
      obtain ⟨hrows, hother⟩ := ih (store.updateProfile o).1 fun r hr o' ho' =>
        (hmatch r (List.mem_cons_of_mem _ hr) o' ho').sameRows hself
      refine ⟨hself.trans hrows, fun id hid => ?_⟩
      have hne : o.id ≠ id := by
        intro heq
        refine hid ref List.mem_cons_self ?_
        rw [ho, Option.map_some, heq]
      exact (hother id fun r hr => hid r (List.mem_cons_of_mem _ hr)).trans
        (ProfileStore.get_updateProfile_ne store hne)

end Adapter

/-! ### The steps -/

namespace Interface

open Adapter

/-- Fresh objects are in step with their rows. -/
structure InStep (f : Freshness) (s : Interface) : Prop where
  act : ∀ p, s.act = some p → f.act = true → s.store.get p.id = some p
  objects : ∀ a (ref : Nat) (o : Profile), s.adapter = some a → a.objects[ref]? = some o →
    f.objects ref = true → Matches s.store o

/-- Every row is still there, changed as the step may. -/
def Keeps (s : Interface) (a : WriteStep) : Prop :=
  ∀ id p, s.store.get id = some p → ∃ q, (s.step a).store.get id = some q ∧ a.Changes p q

variable {f : Freshness} {s : Interface}

theorem keeps_of_store {a : WriteStep} (h : (s.step a).store = s.store) : s.Keeps a := by
  intro id p hp
  exact ⟨p, by rw [h]; exact hp, WriteStep.Changes.refl a p⟩

/-- The objects of other profiles do not notice a write. -/
theorem InStep.overtake (h : InStep f s) (q : Profile) (store : ProfileStore)
    (hstore : ∀ id, q.id ≠ id → store.get id = s.store.get id) :
    InStep (f.overtake s q.id) { s with store := store } := by
  refine ⟨?_, ?_⟩
  · intro p hp hf
    obtain ⟨hfresh, hne⟩ := Bool.and_eq_true_iff.mp hf
    have hne : q.id ≠ p.id := by
      intro heq
      refine of_decide_eq_true hne ?_
      rw [show s.act = some p from hp, Option.map_some, heq]
    exact (hstore p.id hne).trans (h.act p hp hfresh)
  · intro a ref o ha ho hf
    obtain ⟨hfresh, hne⟩ := Bool.and_eq_true_iff.mp hf
    have hne : q.id ≠ o.id := by
      intro heq
      refine of_decide_eq_true hne ?_
      rw [show s.adapter = some a from ha, Option.bind_some, ho, Option.map_some, heq]
    obtain ⟨p, hp, hpo⟩ := h.objects a ref o ha ho hfresh
    exact ⟨p, (hstore o.id hne).trans hp, hpo⟩

theorem addTraffic_of_long {p : Profile} {tx rx : Nat} (htx : IsLong (p.tx + tx))
    (hrx : IsLong (p.rx + rx)) : addTraffic p tx rx = { p with tx := p.tx + tx, rx := p.rx + rx } := by
  rw [addTraffic, toLong_of_range htx.1 htx.2, toLong_of_range hrx.1 hrx.2]

theorem persistStats_spec (h : InStep f s) (id : Int) (tx rx : Nat)
    (hallow : f.Allows s (.persistStats id tx rx)) :
    InStep (f.next s (.persistStats id tx rx)) (s.step (.persistStats id tx rx)) ∧
      s.Keeps (.persistStats id tx rx) := by
  cases hp : s.store.get id with
  | none =>
    have hstep : s.step (.persistStats id tx rx) = s := by simp only [step, hp]
    refine ⟨?_, keeps_of_store (by rw [hstep])⟩
    rw [hstep, Freshness.next]
    split
    · exact h
    · exact ⟨fun p hp hf => h.act p hp (Bool.and_eq_true_iff.mp hf).1,
        fun a ref o ha ho hf => h.objects a ref o ha ho (Bool.and_eq_true_iff.mp hf).1⟩
  | some p =>
    have hstep : s.step (.persistStats id tx rx)
        = { s with store := (s.store.updateProfile (addTraffic p tx rx)).1 } := by
      simp only [step, hp]
    have hid : (addTraffic p tx rx).id = id := ProfileStore.get_id (p := p) hp
    have hadd := addTraffic_of_long (hallow p hp).1 (hallow p hp).2
    have hself : (s.store.updateProfile (addTraffic p tx rx)).1.get id
        = some (addTraffic p tx rx) := by
      rw [← hid]
      exact ProfileStore.get_updateProfile_eq (by rw [hid]; exact hp)
    have hother : ∀ id', id ≠ id' →
        (s.store.updateProfile (addTraffic p tx rx)).1.get id' = s.store.get id' := by
      intro id' hne
      exact ProfileStore.get_updateProfile_ne _ (by rw [hid]; exact hne)
    constructor
    · rw [hstep, Freshness.next]
      split
      · rename_i hzero
        -- without traffic the row is written as it is
        have hsame : ∀ id', (s.store.updateProfile (addTraffic p tx rx)).1.get id'
            = s.store.get id' := by
          intro id'
          by_cases hid' : id = id'
          · rw [← hid', hself, hp, hadd, hzero.1, hzero.2]
            simp
          · exact hother id' hid'
        refine ⟨fun q hq hf => (hsame q.id).trans (h.act q hq hf), ?_⟩
        intro a ref o ha ho hf
        obtain ⟨q, hq, hqo⟩ := h.objects a ref o ha ho hf
        exact ⟨q, (hsame o.id).trans hq, hqo⟩
      · have hover := h.overtake (addTraffic p tx rx)
          (s.store.updateProfile (addTraffic p tx rx)).1 (by rw [hid]; exact hother)
        rw [hid] at hover
        exact hover
    · intro id' q hq
      rw [hstep]
      by_cases hid' : id = id'
      · subst hid'
        obtain rfl : p = q := Option.some.inj (hp.symm.trans hq)
        exact ⟨addTraffic p tx rx, hself, rfl, by simp [hadd], by simp [hadd]⟩
      · exact ⟨q, (hother id' hid').trans hq, WriteStep.Changes.refl _ q⟩

/-- The screen stores its fresh profile. -/
theorem storeAct_spec (h : InStep f s) (hf : f.act = true) (change : Profile → Profile)
    (hchange : ∀ p, (change p).id = p.id) {p : Profile} (hp : s.act = some p) :
    InStep { f.overtake s p.id with act := true } (s.storeAct change) ∧
      ∀ id q, s.store.get id = some q →
        (s.storeAct change).store.get id = some (if id = p.id then change p else q) ∧
          (id = p.id → q = p) := by
  have hget := h.act p hp hf
  have hstep : s.storeAct change = { s with
      act := some (change p), store := (s.store.updateProfile (change p)).1 } := by
    rw [storeAct, hp]
  have hself : (s.store.updateProfile (change p)).1.get p.id = some (change p) := by
    rw [← hchange p]
    exact ProfileStore.get_updateProfile_eq (by rw [hchange]; exact hget)
  have hother : ∀ id, p.id ≠ id → (s.store.updateProfile (change p)).1.get id = s.store.get id :=
    fun id hne => ProfileStore.get_updateProfile_ne _ (by rw [hchange]; exact hne)
  rw [hstep]
  refine ⟨⟨?_, (h.overtake p (s.store.updateProfile (change p)).1 hother).objects⟩, ?_⟩
  · intro q hq _
    obtain rfl : change p = q := Option.some.inj hq
    rw [hchange]
    exact hself
  · intro id q hq
    by_cases hid : id = p.id
    · rw [if_pos hid]
      subst hid
      exact ⟨hself, fun _ => Option.some.inj (hq.symm.trans hget)⟩
    · rw [if_neg hid]
      exact ⟨(hother id (fun h => hid h.symm)).trans hq, fun h => absurd h hid⟩

theorem storeAct_none {change : Profile → Profile} (hp : s.act = none) :
    s.storeAct change = s := by
  rw [storeAct, hp]

theorem switchRoute_spec (h : InStep f s) (hf : f.act = true) :
    InStep (f.next s .switchRoute) (s.step .switchRoute) ∧ s.Keeps .switchRoute := by
  cases hp : s.act with
  | none =>
    have hstep : s.step .switchRoute = s := storeAct_none hp
    refine ⟨?_, keeps_of_store (by rw [hstep])⟩
    rw [hstep]
    simp only [Freshness.next, hp]
    exact h
  | some p =>
    obtain ⟨hin, hrows⟩ := storeAct_spec h hf setRoute (fun _ => rfl) hp
    refine ⟨?_, ?_⟩
    · simp only [Freshness.next, hp]
      exact hin
    · intro id q hq
      obtain ⟨hget, heq⟩ := hrows id q hq
      refine ⟨_, hget, ?_⟩
      split
      · rename_i hid
        rw [heq hid]
        exact rfl
      · exact rfl

theorem lineConfig_spec (h : InStep f s) (hf : f.act = true) (host : Text) (port : Int)
    (password method : Text) :
    InStep (f.next s (.lineConfig host port password method))
        (s.step (.lineConfig host port password method)) ∧
      s.Keeps (.lineConfig host port password method) := by
  cases hp : s.act with
  | none =>
    have hstep : s.step (.lineConfig host port password method) = s := storeAct_none hp
    refine ⟨?_, keeps_of_store (by rw [hstep])⟩
    rw [hstep]
    simp only [Freshness.next, hp]
    exact h
  | some p =>
    obtain ⟨hin, hrows⟩ := storeAct_spec h hf (setLine host port password method) (fun _ => rfl) hp
    refine ⟨?_, ?_⟩
    · simp only [Freshness.next, hp]
      exact hin
    · intro id q hq
      obtain ⟨hget, heq⟩ := hrows id q hq
      refine ⟨_, hget, ?_⟩
      split
      · rename_i hid
        rw [heq hid]
        exact rfl
      · exact rfl

theorem openActivity_spec (h : InStep f s) :
    InStep (f.next s .openActivity) (s.step .openActivity) ∧ s.Keeps .openActivity := by
  cases hl : s.store.list with
  | cons p rest =>
    have hstep : s.step .openActivity = { s with act := some p } := by
      simp only [step, openActivity, hl]
    have hmem : p ∈ s.store.rows := by
      have hin : p ∈ s.store.list := by rw [hl]; exact List.mem_cons_self
      exact List.mem_mergeSort.mp hin
    refine ⟨?_, keeps_of_store (by rw [hstep])⟩
    rw [hstep]
    refine ⟨?_, h.objects⟩
    intro q hq _
    obtain rfl : p = q := Option.some.inj hq
    exact ProfileStore.get_of_mem hmem
  | nil =>
    have hstep : s.step .openActivity = { s with
        store := (s.store.createProfile {}).1, act := some (s.store.createProfile {}).2 } := by
      simp only [step, openActivity, hl]
    have hold : ∀ id p, s.store.get id = some p →
        (s.store.createProfile {}).1.get id = some p :=
      fun id p hp => ProfileStore.get_insert hp _
    constructor
    · rw [hstep]
      refine ⟨?_, ?_⟩
      · intro q hq _
        obtain rfl : (s.store.createProfile {}).2 = q := Option.some.inj hq
        exact ProfileStore.get_inserted s.store _
      · intro a ref o ha ho hf
        obtain ⟨p, hp, hpo⟩ := h.objects a ref o ha ho hf
        exact ⟨p, hold _ p hp, hpo⟩
    · intro id p hp
      rw [hstep]
      exact ⟨p, hold id p hp, rfl⟩

theorem openList_spec (h : InStep f s) :
    InStep (f.next s .openList) (s.step .openList) ∧ s.Keeps .openList := by
  refine ⟨⟨h.act, ?_⟩, keeps_of_store rfl⟩
  intro a ref o ha ho _
  obtain rfl : Adapter.load s.store.list = a := Option.some.inj ha
  have hmem : o ∈ s.store.rows := List.mem_mergeSort.mp (List.mem_of_getElem? ho)
  exact ⟨o, ProfileStore.get_of_mem hmem, SameButOrder.refl o⟩

theorem deepRefreshId_spec (h : InStep f s) (id : Int) :
    InStep (f.next s (.deepRefreshId id)) (s.step (.deepRefreshId id)) ∧
      s.Keeps (.deepRefreshId id) := by
  refine ⟨⟨?_, ?_⟩, keeps_of_store rfl⟩
  · intro p hp hf
    refine h.act p hp ?_
    rw [Freshness.next] at hf
    split at hf <;> exact hf
  · intro b ref o hb ho hf
    obtain ⟨a, ha, rfl⟩ := Option.map_eq_some_iff.mp hb
    simp only [Freshness.next, ha] at hf
    have hold : ∀ ref o, a.objects[ref]? = some o →
        Function.update f.objects a.objects.length true ref = true → Matches s.store o := by
      intro ref o ho hf
      have hlt : ref < a.objects.length := (List.getElem?_eq_some_iff.mp ho).1
      rw [Function.update_of_ne (Nat.ne_of_lt hlt)] at hf
      exact h.objects a ref o ha ho hf
    rw [deepRefreshId] at ho
    split at ho
    · exact hold ref o ho hf
    · split at ho
      · exact hold ref o ho hf
      · rename_i p hp
        rcases Nat.lt_or_ge ref a.objects.length with hlt | hge
        · exact hold ref o (by rwa [List.getElem?_append_left hlt] at ho) hf
        · rw [List.getElem?_append_right hge] at ho
          have hop : p = o := List.mem_singleton.mp (List.mem_of_getElem? ho) |>.symm
          subst hop
          rw [← ProfileStore.get_id hp] at hp
          exact ⟨p, hp, SameButOrder.refl p⟩

theorem move_spec (h : InStep f s) (source target : Nat) :
    InStep (f.next s (.move source target)) (s.step (.move source target)) ∧
      s.Keeps (.move source target) := by
  refine ⟨⟨h.act, ?_⟩, keeps_of_store rfl⟩
  intro b ref o hb ho hf
  obtain ⟨a, ha, rfl⟩ := Option.map_eq_some_iff.mp hb
  obtain ⟨p, hp, hpo⟩ := sameObjects_move a source target ref o ho
  obtain ⟨q, hq, hqp⟩ := h.objects a ref p ha hp hf
  exact ⟨q, by rw [hpo.id]; exact hq, hqp.trans hpo⟩

theorem commitMove_spec (h : InStep f s)
    (hallow : ∀ a, s.adapter = some a → ∀ ref ∈ a.updated, f.objects ref = true) :
    InStep (f.next s .commitMove) (s.step .commitMove) ∧ s.Keeps .commitMove := by
  cases ha : s.adapter with
  | none =>
    have hstep : s.step .commitMove = s := by simp only [step, ha]
    refine ⟨?_, keeps_of_store (by rw [hstep])⟩
    rw [hstep]
    simp only [Freshness.next, ha]
    exact h
  | some a =>
    have hstep : s.step .commitMove = { s with
        store := a.storeAll s.store a.updated, adapter := some { a with updated := [] } } := by
      simp only [step, ha]
    obtain ⟨hrows, hother⟩ := storeAll_spec a a.updated s.store fun ref href o ho =>
      h.objects a ref o ha ho (hallow a ha ref href)
    constructor
    · rw [hstep]
      simp only [Freshness.next, ha]
      refine ⟨?_, ?_⟩
      · intro p hp hf
        obtain ⟨hfresh, hne⟩ := Bool.and_eq_true_iff.mp hf
        have hne := of_decide_eq_true hne
        have hp : s.act = some p := hp
        rw [hp, Option.map_some] at hne
        exact (hother p.id hne).trans (h.act p hp hfresh)
      · intro b ref o hb ho hf
        obtain rfl := Option.some.inj hb
        exact (h.objects a ref o ha ho hf).sameRows hrows
    · intro id p hp
      rw [hstep]
      obtain ⟨q, hq, hpq⟩ := hrows id p hp
      exact ⟨q, hq, hpq⟩

/-- **One step.** -/
theorem step_spec (h : InStep f s) {a : WriteStep} (hallow : f.Allows s a) :
    InStep (f.next s a) (s.step a) ∧ s.Keeps a := by
  cases a with
  | persistStats id tx rx => exact persistStats_spec h id tx rx hallow
  | openActivity => exact openActivity_spec h
  | switchRoute => exact switchRoute_spec h hallow
  | lineConfig host port password method => exact lineConfig_spec h hallow host port password method
  | openList => exact openList_spec h
  | deepRefreshId id => exact deepRefreshId_spec h id
  | move source target => exact move_spec h source target
  | commitMove => exact commitMove_spec h hallow

/-! ### Runs -/

theorem run_inStep (pre : List WriteStep) : ∀ (f : Freshness) (s : Interface) (rest : List WriteStep),
    InStep f s → f.AllowsRun s (pre ++ rest) →
    ∃ f', InStep f' (s.run pre) ∧ f'.AllowsRun (s.run pre) rest := by
  induction pre with
  | nil =>
    intro f s rest h hallow
    exact ⟨f, h, hallow⟩
  | cons a pre ih =>
    intro f s rest h hallow
    exact ih _ _ rest (step_spec h hallow.1).1 hallow.2

theorem run_traffic (as : List WriteStep) : ∀ (f : Freshness) (s : Interface), InStep f s →
    ∀ rest, f.AllowsRun s (as ++ rest) → ∀ id p, s.store.get id = some p →
      ∃ q, (s.run as).store.get id = some q ∧ p.tx ≤ q.tx ∧ p.rx ≤ q.rx := by
  induction as with
  | nil =>
    intro f s _ _ _ id p hp
    exact ⟨p, hp, le_refl _, le_refl _⟩
  | cons a as ih =>
    intro f s h rest hallow id p hp
    obtain ⟨hin, hkeeps⟩ := step_spec h hallow.1
    obtain ⟨q, hq, hchange⟩ := hkeeps id p hp
    obtain ⟨r, hr, htx, hrx⟩ := ih _ _ hin rest hallow.2 id q hq
    obtain ⟨htx', hrx'⟩ := hchange.traffic
    exact ⟨r, hr, le_trans htx' htx, le_trans hrx' hrx⟩

/-- Neither the screen nor the list is open. -/
def start (store : ProfileStore) : Interface := ⟨store, none, none⟩

/-- **Writers that do not disturb each other.**  In every run in which the interface writes fresh
objects only and no counter overflows, a step changes rows in what it is about and in nothing else, and
from any state of the run to a later one the traffic of a profile does not decrease. -/
theorem writes_keep_fields (store : ProfileStore) (as : List WriteStep)
    (hallow : (Freshness.mk false fun _ => false).AllowsRun (start store) as) :
    (∀ pre a post, as = pre ++ a :: post → ((start store).run pre).Keeps a) ∧
      ∀ pre mid post, as = pre ++ (mid ++ post) →
        ∀ id p, ((start store).run pre).store.get id = some p →
          ∃ q, ((start store).run (pre ++ mid)).store.get id = some q ∧ p.tx ≤ q.tx ∧ p.rx ≤ q.rx := by
  have hstart : InStep (Freshness.mk false fun _ => false) (start store) :=
    ⟨fun p hp => by simp [start] at hp, fun a ref o ha => by simp [start] at ha⟩
  constructor
  · intro pre a post heq
    rw [heq] at hallow
    obtain ⟨f, hin, hrest⟩ := run_inStep pre _ _ _ hstart hallow
    exact (step_spec hin hrest.1).2
  · intro pre mid post heq id p hp
    rw [heq] at hallow
    obtain ⟨f, hin, hrest⟩ := run_inStep pre _ _ _ hstart hallow
    have hrun : (start store).run (pre ++ mid) = ((start store).run pre).run mid := List.foldl_append
    rw [hrun]
    exact run_traffic mid f _ hin post hrest id p hp

def sampleRows : ProfileStore where
  rows := [{ id := 1, tx := 5, rx := 7 }]
  sequence := 1
  nodup := Session.sampleRow_nodup
  le_sequence := Session.sampleRow_le_sequence

theorem openActivity_sampleRows : (start sampleRows).step .openActivity
    = { start sampleRows with act := some { id := 1, tx := 5, rx := 7 } } := by
  have hlist : sampleRows.list = [{ id := 1, tx := 5, rx := 7 }] := List.mergeSort_singleton _
  have hstore : (start sampleRows).store.list = [{ id := 1, tx := 5, rx := 7 }] := hlist
  simp only [step, openActivity, hstore]

/-- The activity is created anew between a session and the next switch. -/
theorem writes_keep_fields_sample :
    ((start sampleRows).run [.openActivity, .switchRoute, .persistStats 1 10 20, .openActivity]).Keeps
      .switchRoute := by
  refine (writes_keep_fields sampleRows [.openActivity, .switchRoute, .persistStats 1 10 20,
    .openActivity, .switchRoute] ?_).1 _ _ [] rfl
  refine ⟨trivial, rfl, fun p hp => ?_, trivial, rfl, trivial⟩
  rw [openActivity_sampleRows] at hp
  obtain rfl := Option.some.inj hp
  exact ⟨by decide, by decide⟩

/-- A switch after a session takes the traffic of the session away again. -/
theorem switchRoute_loses_traffic :
    (((start sampleRows).run [.openActivity, .persistStats 1 10 20]).store.get 1).map
        (fun p => (p.tx, p.rx)) = some (15, 27) ∧
      (((start sampleRows).run [.openActivity, .persistStats 1 10 20, .switchRoute]).store.get 1).map
        (fun p => (p.tx, p.rx)) = some (5, 7) ∧
      ¬ ((start sampleRows).run [.openActivity, .persistStats 1 10 20]).Keeps .switchRoute := by
  have hrun : ∀ as, (start sampleRows).run (.openActivity :: as)
      = run { start sampleRows with act := some { id := 1, tx := 5, rx := 7 } } as := by
    intro as
    rw [run, List.foldl_cons, openActivity_sampleRows, run]
  have hbefore : (((start sampleRows).run [.openActivity, .persistStats 1 10 20]).store.get 1).map
      (fun p => (p.tx, p.rx)) = some (15, 27) := by
    rw [hrun]
    decide +kernel
  have hafter : (((start sampleRows).run [.openActivity, .persistStats 1 10 20,
      .switchRoute]).store.get 1).map (fun p => (p.tx, p.rx)) = some (5, 7) := by
    rw [hrun]
    decide +kernel
  refine ⟨hbefore, hafter, fun hkeeps => ?_⟩
  obtain ⟨p, hp, htraffic⟩ := Option.map_eq_some_iff.mp hbefore
  obtain ⟨q, hq, hchange⟩ := hkeeps 1 p hp
  have hq' : ((start sampleRows).run [.openActivity, .persistStats 1 10 20,
      .switchRoute]).store.get 1 = some q := hq
  rw [hq', Option.map_some, Option.some.injEq, Prod.mk.injEq] at hafter
  rw [Prod.mk.injEq] at htraffic
  have htx := hchange.traffic.1
  rw [hafter.1, htraffic.1] at htx
  exact absurd htx (by decide)

end Interface

end SsAndroid
