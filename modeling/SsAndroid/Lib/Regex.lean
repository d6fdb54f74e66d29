import SsAndroid.Lib.Text

/-!
# Flat regular expressions

A *flat* pattern is a row of items, each of them a class of characters with a quantifier.  The
matcher is the backtracking one of `java.util.regex`: `*` takes as much as it can and gives back,
`+?` takes as little as it can and takes more.  It returns the text every item consumed, so that a
group around an item is one of these texts.

* `matchItems` matches at the start of a text; `accept` says what may be left behind the match, which
  is anything for `find` and nothing for `matchEntire`;
* `findAll` are the successive matches from left to right.

**`findAll_append_sep`**: a character that no item takes separates the matches.  What a greedy or a
lazy item takes is said by `star_append`, `star_stop` and `lazyPlus_first`.
-/

namespace SsAndroid.Regex

inductive Quantifier
  | once
  | star
  | lazyPlus
  deriving DecidableEq, Repr

/-- A character class with its quantifier. -/
structure Item where
  chars : Char → Bool
  quantifier : Quantifier

/-- One fixed character. -/
def char (c : Char) : Item := ⟨fun d => d = c, .once⟩

/-- The items of a fixed text under `(?i)`, which does not tell apart the cases of ASCII letters. -/
def literalIgnoreCase (s : Text) : List Item :=
  s.map fun c => ⟨fun d => d.toLower = c.toLower, .once⟩

section Quantifiers

variable {β : Type*} (p : Char → Bool) (k : Text → Option β)

/-- `[p]*`, with `k` for the rest of the pattern: one more character is tried first. -/
def star : Text → Option (Text × β)
  | [] => (k []).map fun r => ([], r)
  | c :: s =>
      if p c then
        match star s with
        | some (w, r) => some (c :: w, r)
        | none => (k (c :: s)).map fun r => ([], r)
      else (k (c :: s)).map fun r => ([], r)

/-- `[p]*?`: the rest of the pattern is tried first. -/
def lazyStar : Text → Option (Text × β)
  | [] => (k []).map fun r => ([], r)
  | c :: s =>
      match k (c :: s) with
      | some r => some ([], r)
      | none => if p c then (lazyStar s).map fun x => (c :: x.1, x.2) else none

/-- `[p]+?`. -/
def lazyPlus : Text → Option (Text × β)
  | [] => none
  | c :: s => if p c then (lazyStar p k s).map fun x => (c :: x.1, x.2) else none

/-- `[p]`. -/
def once : Text → Option (Text × β)
  | [] => none
  | c :: s => if p c then (k s).map fun r => ([c], r) else none

end Quantifiers

/-- One item, with `k` for the rest of the pattern. -/
def Item.run {β : Type*} (i : Item) (k : Text → Option β) (s : Text) : Option (Text × β) :=
  match i.quantifier with
  | .once => once i.chars k s
  | .star => star i.chars k s
  | .lazyPlus => lazyPlus i.chars k s

/-- The texts the items consume at the start of `s`. -/
def matchItems (accept : Text → Bool) : List Item → Text → Option (List Text)
  | [], s => if accept s then some [] else none
  | i :: is, s => (i.run (matchItems accept is) s).map fun x => x.1 :: x.2

/-- `matchEntire`, with the text of every item. -/
def matchEntire (is : List Item) (s : Text) : Option (List Text) := matchItems List.isEmpty is s

/-- The match at the start of a text. -/
def matchPrefix (is : List Item) (s : Text) : Option Text :=
  (matchItems (fun _ => true) is s).map List.flatten

/-- The matches behind the next `skip` characters, for a pattern without empty matches. -/
def findAllFrom (is : List Item) : Nat → Text → List Text
  | _, [] => []
  | skip + 1, _ :: s => findAllFrom is skip s
  | 0, c :: s =>
      match matchPrefix is (c :: s) with
      | some w => w :: findAllFrom is (w.length - 1) s
      | none => findAllFrom is 0 s

/-- `findAll`: the values of the matches. -/
def findAll (is : List Item) (s : Text) : List Text := findAllFrom is 0 s

/-! ### What an item takes -/

section Quantifiers

variable {β : Type*} {p : Char → Bool} {k : Text → Option β}

/-- A greedy item does not match where the rest of the pattern starts with no character of `w`. -/
theorem star_append_none {t : Text} (ht : star p k t = none) :
    ∀ {w : Text}, (∀ c ∈ w, ∀ s, k (c :: s) = none) → star p k (w ++ t) = none
  | [], _ => ht
  | c :: w, h => by
    have hw : star p k (w ++ t) = none :=
      star_append_none ht fun d hd => h d (List.mem_cons_of_mem _ hd)
    simp [star, hw, h c List.mem_cons_self]

/-- A greedy item gives back until the rest of the pattern can start. -/
theorem star_stop {c : Char} {s : Text} {r : β} (hs : star p k s = none)
    (hk : k (c :: s) = some r) : star p k (c :: s) = some ([], r) := by
  rw [star, hs, hk]
  simp

/-- A greedy item takes the whole text if the pattern may end there. -/
theorem star_all {r : β} (hk : k [] = some r) : ∀ {s : Text}, (∀ c ∈ s, p c = true) →
    star p k s = some (s, r)
  | [], _ => by simp [star, hk]
  | c :: s, h => by
    have hs : star p k s = some (s, r) := star_all hk fun d hd => h d (List.mem_cons_of_mem _ hd)
    simp [star, hs, h c List.mem_cons_self]

/-- A greedy item takes all of `w` if the pattern matches behind `w`. -/
theorem star_append {v s : Text} {r : β} (hs : star p k s = some (v, r)) :
    ∀ {w : Text}, (∀ c ∈ w, p c = true) → star p k (w ++ s) = some (w ++ v, r)
  | [], _ => hs
  | c :: w, h => by
    have hw : star p k (w ++ s) = some (w ++ v, r) :=
      star_append hs fun d hd => h d (List.mem_cons_of_mem _ hd)
    simp [star, hw, h c List.mem_cons_self]

/-- A lazy item takes `w` if the rest of the pattern matches behind `w` and nowhere inside it. -/
theorem lazyStar_first {s : Text} {r : β} (hk : k s = some r) :
    ∀ {w : Text}, (∀ c ∈ w, p c = true) → (∀ v, v <:+ w → v ≠ [] → k (v ++ s) = none) →
      lazyStar p k (w ++ s) = some (w, r)
  | [], _, _ => by
    cases s with
    | nil => simp [lazyStar, hk]
    | cons d s => simp [lazyStar, hk]
  | c :: w, h, hnone => by
    have hw : lazyStar p k (w ++ s) = some (w, r) :=
      lazyStar_first hk (fun d hd => h d (List.mem_cons_of_mem _ hd))
        fun v hv => hnone v (hv.trans (List.suffix_cons c w))
    have hc : k (c :: (w ++ s)) = none := hnone (c :: w) List.suffix_rfl (by simp)
    rw [List.cons_append, lazyStar, hc, hw]
    simp [h c List.mem_cons_self]

theorem lazyPlus_first {w s : Text} {r : β} (hk : k s = some r) (hw : w ≠ [])
    (h : ∀ c ∈ w, p c = true) (hnone : ∀ v, v <:+ w → v ≠ [] → k (v ++ s) = none) :
    lazyPlus p k (w ++ s) = some (w, r) := by
  cases w with
  | nil => exact absurd rfl hw
  | cons c w =>
    have hstar : lazyStar p k (w ++ s) = some (w, r) :=
      lazyStar_first hk (fun d hd => h d (List.mem_cons_of_mem _ hd))
        fun v hv => hnone v (hv.trans (List.suffix_cons c w))
    rw [List.cons_append, lazyPlus, if_pos (h c List.mem_cons_self), hstar]
    rfl

/-- The case in which the rest of the pattern starts with no character of `w`. -/
theorem lazyPlus_eq {w s : Text} {r : β} (hk : k s = some r) (hw : w ≠ [])
    (h : ∀ c ∈ w, p c = true) (hnone : ∀ c ∈ w, ∀ t, k (c :: t) = none) :
    lazyPlus p k (w ++ s) = some (w, r) := by
  apply lazyPlus_first hk hw h
  intro v hv hne
  obtain ⟨c, v, rfl⟩ := List.exists_cons_of_ne_nil hne
  exact hnone c (hv.subset List.mem_cons_self) (v ++ s)

theorem star_consumes : ∀ {s w : Text} {r : β}, star p k s = some (w, r) →
    ∃ t, s = w ++ t ∧ k t = some r
  | [], w, r, h => by
    simp only [star, Option.map_eq_some_iff, Prod.mk.injEq] at h
    obtain ⟨r', hr, rfl, rfl⟩ := h
    exact ⟨[], rfl, hr⟩
  | c :: s, w, r, h => by
    have hend : (k (c :: s)).map (fun r => (([] : Text), r)) = some (w, r) →
        ∃ t, c :: s = w ++ t ∧ k t = some r := by
      intro h
      simp only [Option.map_eq_some_iff, Prod.mk.injEq] at h
      obtain ⟨r', hr, rfl, rfl⟩ := h
      exact ⟨c :: s, rfl, hr⟩
    rw [star] at h
    split at h
    · split at h
      · rename_i v r' hs
        simp only [Option.some.injEq, Prod.mk.injEq] at h
        obtain ⟨rfl, rfl⟩ := h
        obtain ⟨t, rfl, ht⟩ := star_consumes hs
        exact ⟨t, rfl, ht⟩
      · exact hend h
    · exact hend h

theorem lazyStar_consumes : ∀ {s w : Text} {r : β}, lazyStar p k s = some (w, r) →
    ∃ t, s = w ++ t ∧ k t = some r
  | [], w, r, h => by
    simp only [lazyStar, Option.map_eq_some_iff, Prod.mk.injEq] at h
    obtain ⟨r', hr, rfl, rfl⟩ := h
    exact ⟨[], rfl, hr⟩
  | c :: s, w, r, h => by
    rw [lazyStar] at h
    split at h
    · rename_i r' hr
      simp only [Option.some.injEq, Prod.mk.injEq] at h
      obtain ⟨rfl, rfl⟩ := h
      exact ⟨c :: s, rfl, hr⟩
    · split at h
      · simp only [Option.map_eq_some_iff, Prod.mk.injEq, Prod.exists] at h
        obtain ⟨v, r', hs, rfl, rfl⟩ := h
        obtain ⟨t, rfl, ht⟩ := lazyStar_consumes hs
        exact ⟨t, rfl, ht⟩
      · simp at h

end Quantifiers

/-! ### Separators -/

section Separator

variable {sep : Char} (rest : Text)

/-- What is behind a character no item takes plays no part. -/
theorem Item.run_append_sep {β : Type*} {i : Item} (hi : i.chars sep = false)
    {k k' : Text → Option β} (hk : ∀ s, k (s ++ sep :: rest) = k' s) :
    ∀ s, i.run k (s ++ sep :: rest) = i.run k' s := by
  have hnil : k (sep :: rest) = k' [] := hk []
  have hcons : ∀ c s, k (c :: (s ++ sep :: rest)) = k' (c :: s) := fun c s => hk (c :: s)
  have hlazy : ∀ s, lazyStar i.chars k (s ++ sep :: rest) = lazyStar i.chars k' s := by
    intro s
    induction s with
    | nil =>
      rw [List.nil_append, lazyStar, lazyStar, hnil, if_neg (by simp [hi])]
      cases k' [] <;> rfl
    | cons c s ih => rw [List.cons_append, lazyStar, lazyStar, hcons, ih]
  have hstar : ∀ s, star i.chars k (s ++ sep :: rest) = star i.chars k' s := by
    intro s
    induction s with
    | nil => rw [List.nil_append, star, star, hnil, if_neg (by simp [hi])]
    | cons c s ih => rw [List.cons_append, star, star, hcons, ih]
  intro s
  rw [Item.run, Item.run]
  cases i.quantifier with
  | once =>
    cases s with
    | nil => simp [once, hi]
    | cons c s => simp [once, hk]
  | star => exact hstar s
  | lazyPlus =>
    cases s with
    | nil => simp [lazyPlus, hi]
    | cons c s => simp [lazyPlus, hlazy]

theorem matchItems_append_sep {is : List Item} (h : ∀ i ∈ is, i.chars sep = false) :
    ∀ s, matchItems (fun _ => true) is (s ++ sep :: rest) = matchItems (fun _ => true) is s := by
  induction is with
  | nil => intro s; rfl
  | cons i is ih =>
    intro s
    rw [matchItems, matchItems, Item.run_append_sep rest (h i List.mem_cons_self)
      (ih fun j hj => h j (List.mem_cons_of_mem _ hj))]

theorem matchPrefix_append_sep {is : List Item} (h : ∀ i ∈ is, i.chars sep = false) (s : Text) :
    matchPrefix is (s ++ sep :: rest) = matchPrefix is s := by
  rw [matchPrefix, matchPrefix, matchItems_append_sep rest h]

end Separator

/-! ### Fixed characters and the end of the text -/

section Items

variable (accept : Text → Bool) (is : List Item)

theorem matchItems_char (c : Char) (s : Text) :
    matchItems accept (char c :: is) (c :: s) = (matchItems accept is s).map ([c] :: ·) := by
  rw [matchItems, Item.run]
  show (once _ (matchItems accept is) (c :: s)).map _ = _
  rw [once, if_pos (by simp [char]), Option.map_map]
  rfl

theorem matchItems_char_of_ne {c d : Char} (h : d ≠ c) (s : Text) :
    matchItems accept (char c :: is) (d :: s) = none := by
  rw [matchItems, Item.run]
  show (once _ (matchItems accept is) (d :: s)).map _ = _
  rw [once, if_neg (by simpa [char] using h)]
  rfl

end Items

/-- A lazy item at the end of the pattern takes all there is. -/
theorem lazyStar_end (p : Char → Bool) : ∀ s : Text,
    lazyStar p (matchItems List.isEmpty []) s = if s.all p then some (s, []) else none
  | [] => rfl
  | c :: s => by
    have hcons : matchItems List.isEmpty [] (c :: s) = none := rfl
    rw [lazyStar, hcons, lazyStar_end p s]
    cases hc : p c <;> cases hs : s.all p <;> simp [hc, hs]

theorem matchItems_lazyPlus_end (p : Char → Bool) (s : Text) :
    matchItems List.isEmpty [⟨p, .lazyPlus⟩] s =
      if s ≠ [] ∧ s.all p = true then some [s] else none := by
  rw [matchItems, Item.run]
  show (lazyPlus p (matchItems List.isEmpty []) s).map _ = _
  cases s with
  | nil => rfl
  | cons c s =>
    rw [lazyPlus, lazyStar_end]
    cases hc : p c <;> cases hs : s.all p <;> simp [hc, hs]

/-! ### All matches -/

/-- An item consumes a text in front of one at which the rest of the pattern matches. -/
theorem Item.run_consumes {β : Type*} {i : Item} {k : Text → Option β} {s w : Text} {r : β}
    (h : i.run k s = some (w, r)) : ∃ t, s = w ++ t ∧ k t = some r := by
  rw [Item.run] at h
  split at h
  · cases s with
    | nil => simp [once] at h
    | cons c s =>
      rw [once] at h
      split at h
      · simp only [Option.map_eq_some_iff, Prod.mk.injEq] at h
        obtain ⟨r', hr, rfl, rfl⟩ := h
        exact ⟨s, rfl, hr⟩
      · simp at h
  · exact star_consumes h
  · cases s with
    | nil => simp [lazyPlus] at h
    | cons c s =>
      rw [lazyPlus] at h
      split at h
      · simp only [Option.map_eq_some_iff, Prod.mk.injEq, Prod.exists] at h
        obtain ⟨v, r', hs, rfl, rfl⟩ := h
        obtain ⟨t, rfl, ht⟩ := lazyStar_consumes hs
        exact ⟨t, rfl, ht⟩
      · simp at h

theorem matchItems_consumes {accept : Text → Bool} {is : List Item} :
    ∀ {s : Text} {ws : List Text}, matchItems accept is s = some ws → ws.flatten <+: s := by
  induction is with
  | nil =>
    intro s ws h
    rw [matchItems] at h
    split at h
    · obtain rfl : [] = ws := Option.some.inj h
      exact List.nil_prefix
    · simp at h
  | cons i is ih =>
    intro s ws h
    simp only [matchItems, Option.map_eq_some_iff, Prod.exists] at h
    obtain ⟨w, ws', hrun, rfl⟩ := h
    obtain ⟨t, rfl, ht⟩ := Item.run_consumes hrun
    rw [List.flatten_cons]
    exact (List.prefix_append_right_inj w).mpr (ih ht)

theorem matchPrefix_consumes {is : List Item} {s w : Text} (h : matchPrefix is s = some w) :
    w <+: s := by
  simp only [matchPrefix, Option.map_eq_some_iff] at h
  obtain ⟨ws, hws, rfl⟩ := h
  exact matchItems_consumes hws

theorem findAllFrom_append_sep {is : List Item} {sep : Char} (h : ∀ i ∈ is, i.chars sep = false)
    (hempty : matchPrefix is [] = none) (rest : Text) :
    ∀ (s : Text) (skip : Nat), skip ≤ s.length →
      findAllFrom is skip (s ++ sep :: rest) = findAllFrom is skip s ++ findAll is rest := by
  intro s
  induction s with
  | nil =>
    intro skip hskip
    obtain rfl : skip = 0 := by simpa using hskip
    have hnone : matchPrefix is (sep :: rest) = none := by
      have hsep := matchPrefix_append_sep rest h []
      rw [List.nil_append, hempty] at hsep
      exact hsep
    show findAllFrom is 0 (sep :: rest) = findAll is rest
    simp only [findAllFrom, hnone, findAll]
  | cons c s ih =>
    intro skip hskip
    cases skip with
    | succ skip =>
      rw [List.cons_append, findAllFrom, findAllFrom]
      exact ih skip (by simpa using hskip)
    | zero =>
      have hmatch : matchPrefix is (c :: (s ++ sep :: rest)) = matchPrefix is (c :: s) :=
        matchPrefix_append_sep rest h (c :: s)
      rw [List.cons_append, findAllFrom, findAllFrom, hmatch]
      cases hw : matchPrefix is (c :: s) with
      | none => exact ih 0 (Nat.zero_le _)
      | some w =>
        -- the match ends inside `s`
        have hle : w.length ≤ (c :: s).length := (matchPrefix_consumes hw).length_le
        have hrest := ih (w.length - 1) (by rw [List.length_cons] at hle; omega)
        simp only [hrest, List.cons_append]

/-- **A character that no item takes separates the matches.** -/
theorem findAll_append_sep {is : List Item} {sep : Char} (h : ∀ i ∈ is, i.chars sep = false)
    (hempty : matchPrefix is [] = none) (s rest : Text) :
    findAll is (s ++ sep :: rest) = findAll is s ++ findAll is rest :=
  findAllFrom_append_sep h hempty rest s 0 (Nat.zero_le _)

/-- The matches in texts joined by such a character are those in each of them. -/
theorem findAll_join {is : List Item} {sep : Char} (h : ∀ i ∈ is, i.chars sep = false)
    (hempty : matchPrefix is [] = none) (ss : List Text) :
    findAll is (Text.join [sep] ss) = ss.flatMap (findAll is) := by
  induction ss with
  | nil => rfl
  | cons s ss ih =>
    cases ss with
    | nil => simp [Text.join]
    | cons t ss =>
      rw [Text.join, List.append_assoc, List.singleton_append, findAll_append_sep h hempty, ih]
      rfl

/-- The search goes on behind a character where nothing matches. -/
theorem findAll_cons {is : List Item} {c : Char} {s : Text} (h : matchPrefix is (c :: s) = none) :
    findAll is (c :: s) = findAll is s := by
  rw [findAll, findAllFrom, h]
  rfl

/-- A text without a match at any place. -/
theorem findAll_eq_nil {is : List Item} : ∀ {s : Text},
    (∀ t, t <:+ s → matchPrefix is t = none) → findAll is s = []
  | [], _ => rfl
  | c :: s, h => by
    rw [findAll_cons (h (c :: s) List.suffix_rfl)]
    exact findAll_eq_nil fun t ht => h t (ht.trans (List.suffix_cons c s))

theorem findAllFrom_skip (is : List Item) : ∀ (w s : Text),
    findAllFrom is w.length (w ++ s) = findAll is s
  | [], _ => rfl
  | _ :: w, s => findAllFrom_skip is w s

/-- The first match stands at the start, and the search goes on behind it. -/
theorem findAll_of_matchPrefix {is : List Item} {c : Char} {w s : Text}
    (h : matchPrefix is (c :: w ++ s) = some (c :: w)) :
    findAll is (c :: w ++ s) = (c :: w) :: findAll is s := by
  rw [List.cons_append] at h ⊢
  rw [findAll, findAllFrom, h]
  exact congrArg _ (findAllFrom_skip is w s)

/-! ### Literals -/

/-- A pattern that starts with a fixed text. -/
theorem matchItems_literal (accept : Text → Bool) (is : List Item) : ∀ s t : Text,
    matchItems accept (literalIgnoreCase s ++ is) (s ++ t)
      = (matchItems accept is t).map fun ws => s.map (fun c => [c]) ++ ws
  | [], t => by simp [literalIgnoreCase]
  | c :: s, t => by
    have hs := matchItems_literal accept is s t
    rw [literalIgnoreCase] at hs
    simp [literalIgnoreCase, matchItems, Item.run, once, hs, Function.comp_def]

/-- Where the text of a literal does not start, nothing matches. -/
theorem matchItems_literal_none (accept : Text → Bool) (is : List Item) : ∀ {s t : Text},
    ¬ s.map Char.toLower <+: t.map Char.toLower →
      matchItems accept (literalIgnoreCase s ++ is) t = none
  | [], t, h => absurd List.nil_prefix h
  | c :: s, [], _ => by simp [literalIgnoreCase, matchItems, Item.run, once]
  | c :: s, d :: t, h => by
    by_cases hcd : d.toLower = c.toLower
    · have hs : ¬ s.map Char.toLower <+: t.map Char.toLower := by
        intro hp
        apply h
        rw [List.map_cons, List.map_cons, hcd]
        exact (List.prefix_cons_inj _).mpr hp
      have ih := matchItems_literal_none accept is hs
      rw [literalIgnoreCase] at ih
      simp [literalIgnoreCase, matchItems, Item.run, once, ih]
    · simp [literalIgnoreCase, matchItems, Item.run, once, hcd]

end SsAndroid.Regex
