import SsAndroid.Acl.RoundTrip

/-!
# Flattening imports

`flatten` replaces the import directives of a list by the rules of the documents behind them, down
to a depth.  A document is read with the mode of its importer as the default, so what it is depends
on the path it was reached by: `ImportPath` is the relation between a list and the documents on a
path of given length, whatever cycles or shared documents the import graph has.

**`flatten_imports`**: flattening returns exactly when every document it has to fetch can be read,
and then the host names are those of all documents within the depth, the subnets those of the
documents reached through documents of the list's own mode only.
-/

namespace SsAndroid

open Text

namespace Acl

variable {P : Platform} {connect : URL → Text}

/-- `c` is a document that `a` imports, read with the mode of `a` as its default. -/
def Imports (connect : URL → Text) (a c : Acl P) : Prop :=
  ∃ url ∈ a.urls, fromReader P (connect url) a.bypass = .ok c

/-- An import path of `n` steps; every document on it satisfies `ok`. -/
inductive ImportPath (connect : URL → Text) (ok : Acl P → Prop) : Nat → Acl P → Acl P → Prop
  | refl (a : Acl P) : ImportPath connect ok 0 a a
  | step {n : Nat} {a c e : Acl P} : Imports connect a c → ok c → ImportPath connect ok n c e →
      ImportPath connect ok (n + 1) a e

/-- `e` is reached from `a` in at most `depth` imports. -/
def Reached (connect : URL → Text) (ok : Acl P → Prop) (depth : Nat) (a e : Acl P) : Prop :=
  ∃ n ≤ depth, ImportPath connect ok n a e

/-- Every document that `a` imports can be read. -/
def Readable (connect : URL → Text) (a : Acl P) : Prop :=
  ∀ url ∈ a.urls, ∃ c, fromReader P (connect url) a.bypass = .ok c

/-- All that has to be fetched within the depth can be read. -/
def ReadableTo (connect : URL → Text) (depth : Nat) (a : Acl P) : Prop :=
  ∀ n < depth, ∀ c, ImportPath connect (fun _ => True) n a c → Readable connect c

theorem reached_zero {ok : Acl P → Prop} {a e : Acl P} :
    Reached connect ok 0 a e ↔ e = a := by
  constructor
  · rintro ⟨n, hn, hp⟩
    obtain rfl : n = 0 := by omega
    cases hp
    rfl
  · rintro rfl
    exact ⟨0, Nat.le_refl _, .refl _⟩

theorem reached_succ {ok : Acl P → Prop} {depth : Nat} {a e : Acl P} :
    Reached connect ok (depth + 1) a e ↔
      e = a ∨ ∃ c, Imports connect a c ∧ ok c ∧ Reached connect ok depth c e := by
  constructor
  · rintro ⟨n, hn, hp⟩
    cases hp with
    | refl => exact Or.inl rfl
    | step himp hok hp => exact Or.inr ⟨_, himp, hok, _, by omega, hp⟩
  · rintro (rfl | ⟨c, himp, hok, n, hn, hp⟩)
    · exact ⟨0, by omega, .refl _⟩
    · exact ⟨n + 1, by omega, .step himp hok hp⟩

theorem readableTo_zero (a : Acl P) : ReadableTo connect 0 a := by
  intro n hn
  omega

theorem readableTo_succ {depth : Nat} {a : Acl P} : ReadableTo connect (depth + 1) a ↔
    ∀ url ∈ a.urls, ∃ c, fromReader P (connect url) a.bypass = .ok c ∧
      ReadableTo connect depth c := by
  constructor
  · intro h url hurl
    obtain ⟨c, hc⟩ := h 0 (by omega) a (.refl a) url hurl
    refine ⟨c, hc, fun n hn e hp => ?_⟩
    exact h (n + 1) (by omega) e (.step ⟨url, hurl, hc⟩ trivial hp)
  · intro h n hn e hp
    cases hp with
    | refl =>
      intro url hurl
      obtain ⟨c, hc, -⟩ := h url hurl
      exact ⟨c, hc⟩
    | step himp _ hp =>
      obtain ⟨url, hurl, hc⟩ := himp
      obtain ⟨c', hc', hread⟩ := h url hurl
      rw [hc] at hc'
      cases hc'
      exact hread _ (by omega) e hp

/-! ### One level of imports -/

section AbsorbAll

variable {fetch : URL → Except Exn (Acl P)}

/-- The loop returns when every fetch does. -/
theorem absorbAll_ok_iff {us : List URL} : ∀ {a : Acl P},
    (∃ r, absorbAll fetch us a = .ok r) ↔ ∀ u ∈ us, ∃ child, fetch u = .ok child := by
  induction us with
  | nil => intro a; exact ⟨fun _ u hu => absurd hu List.not_mem_nil, fun _ => ⟨a, rfl⟩⟩
  | cons u us ih =>
    intro a
    rw [absorbAll, List.forall_mem_cons]
    cases hu : fetch u with
    | error e => simp
    | ok child =>
      rw [ih]
      exact ⟨fun h => ⟨⟨child, rfl⟩, h⟩, fun h => h.2⟩

/-- What the loop leaves in the list, item by item. -/
structure Absorbed (fetch : URL → Except Exn (Acl P)) (us : List URL) (a r : Acl P) : Prop where
  bypass : r.bypass = a.bypass
  bypassHostnames : ∀ h, h ∈ r.bypassHostnames ↔ h ∈ a.bypassHostnames ∨
    ∃ u ∈ us, ∃ child, fetch u = .ok child ∧ h ∈ child.bypassHostnames
  proxyHostnames : ∀ h, h ∈ r.proxyHostnames ↔ h ∈ a.proxyHostnames ∨
    ∃ u ∈ us, ∃ child, fetch u = .ok child ∧ h ∈ child.proxyHostnames
  subnets : ∀ s, s ∈ r.subnets ↔ s ∈ a.subnets ∨
    ∃ u ∈ us, ∃ child, fetch u = .ok child ∧ child.bypass = a.bypass ∧ s ∈ child.subnets

/-- Adding the items of the first child, then those of the rest. -/
theorem exists_cons_iff {α : Type} {p : Acl P → α → Prop} {u : URL} {us : List URL} {child : Acl P}
    (hu : fetch u = .ok child) {x : α} :
    (∃ v ∈ u :: us, ∃ c, fetch v = .ok c ∧ p c x) ↔
      p child x ∨ ∃ v ∈ us, ∃ c, fetch v = .ok c ∧ p c x := by
  rw [List.exists_mem_cons_iff]
  refine or_congr_left ⟨?_, fun h => ⟨child, hu, h⟩⟩
  rintro ⟨c, hc, h⟩
  rw [hu] at hc
  cases hc
  exact h

theorem absorbed_of_absorbAll {us : List URL} : ∀ {a r : Acl P}, absorbAll fetch us a = .ok r →
    Absorbed fetch us a r := by
  induction us with
  | nil =>
    intro a r h
    cases h
    constructor <;> simp
  | cons u us ih =>
    intro a r h
    rw [absorbAll] at h
    split at h
    · simp at h
    · rename_i child hu
      have hr := ih h
      refine ⟨hr.bypass, fun x => ?_, fun x => ?_, fun x => ?_⟩
      · rw [hr.bypassHostnames,
          exists_cons_iff (p := fun (c : Acl P) x => x ∈ c.bypassHostnames) hu]
        show x ∈ a.bypassHostnames.addAll P.placement child.bypassHostnames.data ∨ _ ↔ _
        rw [SortedList.mem_addAll_of_strict P.placement stringSorter_strict, or_assoc]
        rfl
      · rw [hr.proxyHostnames,
          exists_cons_iff (p := fun (c : Acl P) x => x ∈ c.proxyHostnames) hu]
        show x ∈ a.proxyHostnames.addAll P.placement child.proxyHostnames.data ∨ _ ↔ _
        rw [SortedList.mem_addAll_of_strict P.placement stringSorter_strict, or_assoc]
        rfl
      · rw [hr.subnets, exists_cons_iff
          (p := fun (c : Acl P) x => c.bypass = a.bypass ∧ x ∈ c.subnets) hu]
        show x ∈ a.subnets.addAll P.placement
          (if a.bypass ≠ child.bypass then [] else child.subnets.data) ∨ _ ↔ _
        have hfilter : (x ∈ if a.bypass ≠ child.bypass then [] else child.subnets.data) ↔
            child.bypass = a.bypass ∧ x ∈ child.subnets := by
          by_cases hb : a.bypass = child.bypass
          · rw [if_neg (not_not.mpr hb)]
            exact ⟨fun hx => ⟨hb.symm, hx⟩, fun hx => hx.2⟩
          · rw [if_pos hb]
            exact ⟨fun hx => absurd hx List.not_mem_nil, fun hx => absurd hx.1.symm hb⟩
        rw [SortedList.mem_addAll_of_strict P.placement subnetSorter_strict, hfilter, or_assoc]
        rfl

end AbsorbAll

/-! ### All levels -/

/-- Read a document and flatten it: what the loop of `flatten` does for a URL. -/
def fetchTo (connect : URL → Text) (depth : Nat) (bypass : Bool) (url : URL) :
    Except Exn (Acl P) :=
  match fromReader P (connect url) bypass with
  | .error e => .error e
  | .ok child => flattenTo connect depth child

theorem flattenTo_succ (depth : Nat) (a : Acl P) : flattenTo connect (depth + 1) a =
    match absorbAll (fetchTo connect depth a.bypass) a.urls.data a with
    | .error e => .error e
    | .ok a => .ok a.clearUrls := rfl

theorem fetchTo_ok {depth : Nat} {bypass : Bool} {url : URL} {r : Acl P} :
    fetchTo connect depth bypass url = .ok r ↔
      ∃ c, fromReader P (connect url) bypass = .ok c ∧ flattenTo connect depth c = .ok r := by
  unfold fetchTo
  cases fromReader P (connect url) bypass with
  | error e => simp
  | ok c => simp

/-- **Flattening returns exactly when all it fetches can be read.** -/
theorem flattenTo_ok_iff {depth : Nat} : ∀ {a : Acl P},
    (∃ r, flattenTo connect depth a = .ok r) ↔ ReadableTo connect depth a := by
  induction depth with
  | zero => intro a; exact ⟨fun _ => readableTo_zero a, fun _ => ⟨_, rfl⟩⟩
  | succ depth ih =>
    intro a
    have hloop : (∃ r, flattenTo connect (depth + 1) a = .ok r) ↔
        ∃ r, absorbAll (fetchTo connect depth a.bypass) a.urls.data a = .ok r := by
      rw [flattenTo_succ]
      cases absorbAll (fetchTo connect depth a.bypass) a.urls.data a with
      | error e => simp
      | ok r => exact ⟨fun _ => ⟨r, rfl⟩, fun _ => ⟨_, rfl⟩⟩
    rw [hloop, absorbAll_ok_iff, readableTo_succ]
    refine forall₂_congr fun url _ => ?_
    constructor
    · rintro ⟨r, hr⟩
      obtain ⟨c, hc, hflat⟩ := fetchTo_ok.mp hr
      exact ⟨c, hc, ih.mp ⟨r, hflat⟩⟩
    · rintro ⟨c, hc, hread⟩
      obtain ⟨r, hflat⟩ := ih.mpr hread
      exact ⟨r, fetchTo_ok.mpr ⟨c, hc, hflat⟩⟩

/-- The list with its imports replaced by the rules of the documents behind them. -/
structure Flattened (connect : URL → Text) (depth : Nat) (a r : Acl P) : Prop where
  bypass : r.bypass = a.bypass
  urls : r.urls = .empty
  bypassHostnames : ∀ h, h ∈ r.bypassHostnames ↔
    ∃ e, Reached connect (fun _ => True) depth a e ∧ h ∈ e.bypassHostnames
  proxyHostnames : ∀ h, h ∈ r.proxyHostnames ↔
    ∃ e, Reached connect (fun _ => True) depth a e ∧ h ∈ e.proxyHostnames
  subnets : ∀ s, s ∈ r.subnets ↔
    ∃ e, Reached connect (fun c => c.bypass = a.bypass) depth a e ∧ s ∈ e.subnets

/-- The items of the documents within `depth + 1`: the list's own, and those within `depth` of a
document it imports. -/
theorem exists_reached_succ {α : Type} {ok : Acl P → Prop} {p : Acl P → α → Prop} {depth : Nat}
    {a : Acl P} {x : α} : (∃ e, Reached connect ok (depth + 1) a e ∧ p e x) ↔
      p a x ∨ ∃ c, Imports connect a c ∧ ok c ∧ ∃ e, Reached connect ok depth c e ∧ p e x := by
  constructor
  · rintro ⟨e, he, hx⟩
    obtain rfl | ⟨c, himp, hok, hreach⟩ := reached_succ.mp he
    · exact Or.inl hx
    · exact Or.inr ⟨c, himp, hok, e, hreach, hx⟩
  · rintro (hx | ⟨c, himp, hok, e, hreach, hx⟩)
    · exact ⟨a, reached_succ.mpr (Or.inl rfl), hx⟩
    · exact ⟨e, reached_succ.mpr (Or.inr ⟨c, himp, hok, hreach⟩), hx⟩

/-- What the fetched children hold, said of the documents they were flattened from. -/
theorem exists_fetched_iff {α : Type} {depth : Nat} {a : Acl P} {p : Acl P → α → Prop}
    {q : Acl P → Prop} {x : α} (hread : ReadableTo connect (depth + 1) a)
    (hp : ∀ c r : Acl P, Imports connect a c → flattenTo connect depth c = .ok r →
      (p r x ↔ q c)) :
    (∃ u ∈ a.urls.data, ∃ child, fetchTo connect depth a.bypass u = .ok child ∧ p child x) ↔
      ∃ c, Imports connect a c ∧ q c := by
  constructor
  · rintro ⟨u, hu, child, hfetch, hx⟩
    obtain ⟨c, hc, hflat⟩ := fetchTo_ok.mp hfetch
    exact ⟨c, ⟨u, hu, hc⟩, (hp c child ⟨u, hu, hc⟩ hflat).mp hx⟩
  · rintro ⟨c, ⟨u, hu, hc⟩, hq⟩
    obtain ⟨c', hc', hread'⟩ := readableTo_succ.mp hread u hu
    rw [hc] at hc'
    cases hc'
    obtain ⟨child, hflat⟩ := flattenTo_ok_iff.mpr hread'
    exact ⟨u, hu, child, fetchTo_ok.mpr ⟨c, hc, hflat⟩, (hp c child ⟨u, hu, hc⟩ hflat).mpr hq⟩

theorem flattened_of_flattenTo {depth : Nat} : ∀ {a r : Acl P},
    flattenTo connect depth a = .ok r → Flattened connect depth a r := by
  induction depth with
  | zero =>
    intro a r h
    cases h
    constructor <;> simp [clearUrls, reached_zero]
  | succ depth ih =>
    intro a r h
    have hread : ReadableTo connect (depth + 1) a := flattenTo_ok_iff.mp ⟨r, h⟩
    rw [flattenTo_succ] at h
    split at h
    · simp at h
    · rename_i a' habs
      have hr := absorbed_of_absorbAll habs
      cases h
      refine ⟨hr.bypass, rfl, fun x => ?_, fun x => ?_, fun x => ?_⟩
      · rw [exists_reached_succ (p := fun (e : Acl P) x => x ∈ e.bypassHostnames)]
        refine (hr.bypassHostnames x).trans (or_congr_right ?_)
        rw [exists_fetched_iff hread fun c child _ hflat => (ih hflat).bypassHostnames x]
        simp
      · rw [exists_reached_succ (p := fun (e : Acl P) x => x ∈ e.proxyHostnames)]
        refine (hr.proxyHostnames x).trans (or_congr_right ?_)
        rw [exists_fetched_iff hread fun c child _ hflat => (ih hflat).proxyHostnames x]
        simp
      · -- the child's own mode is what the filter below it was about
        rw [exists_reached_succ (p := fun (e : Acl P) x => x ∈ e.subnets)]
        refine (hr.subnets x).trans (or_congr_right ?_)
        refine exists_fetched_iff
          (p := fun (child : Acl P) x => child.bypass = a.bypass ∧ x ∈ child.subnets)
          hread fun c child _ hflat => ?_
        have hc := ih hflat
        rw [hc.bypass, hc.subnets]
        refine and_congr_right fun hmode => ?_
        rw [hmode]

/-! ### What else can happen -/

/-- The only failure is an import directive whose URL is malformed. -/
def Malformed {α : Type} (x : Except Exn α) : Prop := ∀ e, x = .error e → e = .malformedURL

theorem Reader.malformed_line (r : Reader P) (l : Text) : Malformed (r.line l) := by
  intro e h
  unfold Reader.line at h
  split at h
  · rename_i e' hc
    cases h
    unfold Reader.comment at hc
    split at hc
    · simp at hc
    · split at hc
      · cases hc
        rfl
      · simp at hc
  · simp at h

theorem Reader.malformed_lines (ls : List Text) : ∀ r : Reader P, Malformed (Reader.lines ls r) := by
  induction ls with
  | nil => intro r e h; simp [Reader.lines] at h
  | cons l ls ih =>
    intro r e h
    rw [Reader.lines] at h
    split at h
    · rename_i e' hl
      cases h
      exact Reader.malformed_line r l e hl
    · exact ih _ e h

theorem malformed_fromReader (t : Text) (b : Bool) : Malformed (fromReader P t b) := by
  intro e h
  unfold fromReader at h
  split at h
  · rename_i e' hl
    cases h
    exact Reader.malformed_lines _ _ e hl
  · simp at h

theorem malformed_absorbAll {fetch : URL → Except Exn (Acl P)} (hf : ∀ u, Malformed (fetch u))
    (us : List URL) : ∀ a, Malformed (absorbAll fetch us a) := by
  induction us with
  | nil => intro a e h; simp [absorbAll] at h
  | cons u us ih =>
    intro a e h
    rw [absorbAll] at h
    split at h
    · rename_i e' hu
      cases h
      exact hf u e hu
    · exact ih _ e h

theorem malformed_flattenTo (depth : Nat) : ∀ a : Acl P, Malformed (flattenTo connect depth a) := by
  induction depth with
  | zero => intro a e h; simp [flattenTo] at h
  | succ depth ih =>
    intro a e h
    rw [flattenTo_succ] at h
    split at h
    · rename_i e' habs
      cases h
      refine malformed_absorbAll (fun u e' hu => ?_) _ _ e habs
      unfold fetchTo at hu
      split at hu
      · rename_i e'' hr
        cases hu
        exact malformed_fromReader _ _ e' hr
      · exact ih _ e' hu
    · simp at h

/-- **Flattening collects the rules within the depth**, the subnets along import paths that keep
the mode, if all it has to fetch can be read; else it fails with a malformed URL. -/
theorem flatten_imports (P : Platform) (a : Acl P) (depth : Int) (connect : URL → Text) :
    (ReadableTo connect depth.toNat a →
      ∃ r, a.flatten depth connect = .ok r ∧ Flattened connect depth.toNat a r) ∧
    (¬ReadableTo connect depth.toNat a → a.flatten depth connect = .error .malformedURL) := by
  constructor
  · intro hread
    obtain ⟨r, hr⟩ := flattenTo_ok_iff.mpr hread
    exact ⟨r, hr, flattened_of_flattenTo hr⟩
  · intro hread
    rw [flatten]
    cases h : flattenTo connect depth.toNat a with
    | ok r => exact absurd (flattenTo_ok_iff.mp ⟨r, h⟩) hread
    | error e => rw [malformed_flattenTo _ a e h]

/-- A list that imports a document. -/
def sampleImport : Acl sample :=
  { new sample with
    urls := SortedList.empty.add .bisect
      ⟨"http".toList, "a".toList, "a".toList, -1, "/y".toList, none⟩ }

/-- A document that imports itself, flattened to depth two. -/
theorem flatten_imports_cycle : ∃ r,
    sampleImport.flatten 2 (fun _ => "x.y\n#IMPORT_URL <http://a/y>".toList) = .ok r ∧
      Flattened (fun _ => "x.y\n#IMPORT_URL <http://a/y>".toList) 2 sampleImport r := by
  refine (flatten_imports sample sampleImport 2 _).1 (flattenTo_ok_iff.mp ?_)
  have hok : (flattenTo (fun _ => "x.y\n#IMPORT_URL <http://a/y>".toList) 2 sampleImport).isOk =
      true := by decide +kernel
  cases h : flattenTo (fun _ => "x.y\n#IMPORT_URL <http://a/y>".toList) 2 sampleImport with
  | ok r => exact ⟨r, h⟩
  | error e => rw [h] at hok; exact absurd hok Bool.false_ne_true

/-- A document with a malformed import makes flattening fail. -/
theorem flatten_malformed :
    ¬∃ r, sampleImport.flatten 1 (fun _ => "#IMPORT_URL <foo>".toList) = .ok r := by
  rintro ⟨r, hr⟩
  have herr : (sampleImport.flatten 1 (fun _ => "#IMPORT_URL <foo>".toList)).isOk = false := by
    decide +kernel
  rw [hr] at herr
  exact absurd herr Bool.true_eq_false.mp

end Acl

end SsAndroid
