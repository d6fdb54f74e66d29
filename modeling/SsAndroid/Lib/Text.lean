import Mathlib

/-!
# Texts

Texts are lists of Unicode characters.  This file has the pieces of the platform's string handling
that line-oriented formats are read and written with: cutting a text at a separator, the lines a
buffered reader sees, trimming, and the character classes the platform documents.

* `split sep` cuts at every occurrence of `sep` (Kotlin's `split(sep)`), `splitAtFirst sep` at the
  first one only (Java's `split(sep, 2)`);
* `readLines` are the lines of `BufferedReader.readLine`: a line ends at `\n`, `\r` or `\r\n`, and
  a terminator at the very end opens no further line;
* `replace old new` rewrites the occurrences of `old` from left to right, none of them overlapping
  another, and never looks at what it has written (Kotlin's `replace`, for a non-empty `old`);
* `compareTo` orders texts by their UTF-16 code units, as `String.compareTo` does;
* `unlines` writes every line followed by `\n`; **`readLines_unlines`** says that reading it back
  gives the lines, provided none of them holds a terminator.
-/

namespace SsAndroid

abbrev Text := List Char

/-- What a failing call throws, with the message where the program supplies one. -/
inductive Exn
  | illegalState (message : String)
  | illegalArgument (message : String)
  | noSuchElement
  | malformedURL
  | eof (message : String)
  | io (message : String)
  | bufferOverflow
  | bufferUnderflow
  | indexOutOfBounds
  | invalidMark
  | nullPointer
  | negativeArraySize
  deriving DecidableEq, Repr

namespace Text

/-! ### Character classes -/

/-- `Character.isISOControl`. -/
def isISOControl (c : Char) : Bool :=
  c.toNat ≤ 0x1F || (0x7F ≤ c.toNat && c.toNat ≤ 0x9F)

/-- Kotlin's `Char.isWhitespace` on the JVM: `Character.isWhitespace` or `Character.isSpaceChar`. -/
def isWhitespace (c : Char) : Bool :=
  (0x09 ≤ c.toNat && c.toNat ≤ 0x0D) || (0x1C ≤ c.toNat && c.toNat ≤ 0x20) ||
    (0x2000 ≤ c.toNat && c.toNat ≤ 0x200A) ||
    [0xA0, 0x1680, 0x2028, 0x2029, 0x202F, 0x205F, 0x3000].contains c.toNat

/-- The line terminators of `java.util.regex.Pattern`: what `.` does not match. -/
def isLineTerminator (c : Char) : Bool :=
  [0x0A, 0x0D, 0x85, 0x2028, 0x2029].contains c.toNat

def ControlFree (s : Text) : Prop := ∀ c ∈ s, isISOControl c = false

instance (s : Text) : Decidable (ControlFree s) :=
  List.decidableBAll (fun c => isISOControl c = false) s

/-- A text without any line terminator. -/
def SingleLine (s : Text) : Prop := ∀ c ∈ s, isLineTerminator c = false

instance (s : Text) : Decidable (SingleLine s) :=
  List.decidableBAll (fun c => isLineTerminator c = false) s

theorem ControlFree.append {s t : Text} (hs : ControlFree s) (ht : ControlFree t) :
    ControlFree (s ++ t) := by
  intro c hc
  rcases List.mem_append.mp hc with hc | hc
  · exact hs c hc
  · exact ht c hc

theorem ControlFree.subset {s t : Text} (ht : ControlFree t) (h : s ⊆ t) : ControlFree s :=
  fun c hc => ht c (h hc)

/-! ### Cutting at a separator -/

variable {α : Type*} [DecidableEq α]

/-- The pieces between the occurrences of `sep`; a text without `sep` is its only piece. -/
def split (sep : α) : List α → List (List α)
  | [] => [[]]
  | c :: cs =>
      if c = sep then [] :: split sep cs
      else
        match split sep cs with
        | p :: ps => (c :: p) :: ps
        | [] => [[c]]

/-- The text before the first `sep`, and the text behind it if there is one. -/
def splitAtFirst (sep : α) : List α → List α × Option (List α)
  | [] => ([], none)
  | c :: cs =>
      if c = sep then ([], some cs)
      else (c :: (splitAtFirst sep cs).1, (splitAtFirst sep cs).2)

/-- `joinToString(sep)`. -/
def join (sep : List α) : List (List α) → List α
  | [] => []
  | [p] => p
  | p :: q :: ps => p ++ sep ++ join sep (q :: ps)

theorem split_ne_nil (sep : α) (s : List α) : split sep s ≠ [] := by
  cases s with
  | nil => simp [split]
  | cons c cs =>
    rw [split]
    split
    · simp
    · split <;> simp

theorem split_of_not_mem {sep : α} {s : List α} (h : sep ∉ s) : split sep s = [s] := by
  induction s with
  | nil => rfl
  | cons c cs ih =>
    rw [List.mem_cons, not_or] at h
    rw [split, if_neg (fun hc => h.1 hc.symm), ih h.2]

theorem split_append_sep {sep : α} {s : List α} (h : sep ∉ s) (t : List α) :
    split sep (s ++ sep :: t) = s :: split sep t := by
  induction s with
  | nil => simp [split]
  | cons c cs ih =>
    rw [List.mem_cons, not_or] at h
    rw [List.cons_append, split, if_neg (fun hc => h.1 hc.symm), ih h.2]

/-- **Splitting undoes joining**, for pieces without the separator. -/
theorem split_join {sep : α} : ∀ {ps : List (List α)}, ps ≠ [] → (∀ p ∈ ps, sep ∉ p) →
    split sep (join [sep] ps) = ps := by
  intro ps
  induction ps with
  | nil => intro h _; exact absurd rfl h
  | cons p ps ih =>
    intro _ h
    cases ps with
    | nil => exact split_of_not_mem (h p List.mem_cons_self)
    | cons q ps =>
      have hp : sep ∉ p := h p List.mem_cons_self
      rw [join, List.append_assoc, List.singleton_append, split_append_sep hp,
        ih (by simp) (fun r hr => h r (List.mem_cons_of_mem _ hr))]

theorem mem_of_mem_split {sep : α} {s p : List α} (hp : p ∈ split sep s) : p ⊆ s := by
  induction s generalizing p with
  | nil => simp_all [split]
  | cons c cs ih =>
    rw [split] at hp
    split at hp
    · rcases List.mem_cons.mp hp with rfl | hp
      · exact List.nil_subset _
      · exact List.Subset.trans (ih hp) (List.subset_cons_self _ _)
    · split at hp
      · rename_i q qs heq
        rcases List.mem_cons.mp hp with rfl | hp
        · exact List.cons_subset_cons _ (ih (by rw [heq]; exact List.mem_cons_self))
        · exact List.Subset.trans (ih (by rw [heq]; exact List.mem_cons_of_mem _ hp))
            (List.subset_cons_self _ _)
      · rename_i heq
        exact absurd heq (split_ne_nil sep cs)

theorem sep_not_mem_of_mem_split {sep : α} {s p : List α} (hp : p ∈ split sep s) : sep ∉ p := by
  induction s generalizing p with
  | nil => simp_all [split]
  | cons c cs ih =>
    rw [split] at hp
    split at hp
    · rcases List.mem_cons.mp hp with rfl | hp
      · simp
      · exact ih hp
    · rename_i hc
      split at hp
      · rename_i q qs heq
        rcases List.mem_cons.mp hp with rfl | hp
        · rw [List.mem_cons, not_or]
          exact ⟨fun h => hc h.symm, ih (by rw [heq]; exact List.mem_cons_self)⟩
        · exact ih (by rw [heq]; exact List.mem_cons_of_mem _ hp)
      · rename_i heq
        exact absurd heq (split_ne_nil sep cs)

theorem splitAtFirst_of_not_mem {sep : α} {s : List α} (h : sep ∉ s) :
    splitAtFirst sep s = (s, none) := by
  induction s with
  | nil => rfl
  | cons c cs ih =>
    rw [List.mem_cons, not_or] at h
    rw [splitAtFirst, if_neg (fun hc => h.1 hc.symm), ih h.2]

theorem splitAtFirst_append {sep : α} {s : List α} (h : sep ∉ s) (t : List α) :
    splitAtFirst sep (s ++ sep :: t) = (s, some t) := by
  induction s with
  | nil => simp [splitAtFirst]
  | cons c cs ih =>
    rw [List.mem_cons, not_or] at h
    rw [List.cons_append, splitAtFirst, if_neg (fun hc => h.1 hc.symm), ih h.2]

theorem sep_not_mem_splitAtFirst (sep : α) (s : List α) : sep ∉ (splitAtFirst sep s).1 := by
  induction s with
  | nil => simp [splitAtFirst]
  | cons c cs ih =>
    rw [splitAtFirst]
    split
    · simp
    · rename_i hc
      rw [List.mem_cons, not_or]
      exact ⟨fun h => hc h.symm, ih⟩

theorem splitAtFirst_fst_subset (sep : α) (s : List α) : (splitAtFirst sep s).1 ⊆ s := by
  induction s with
  | nil => simp [splitAtFirst]
  | cons c cs ih =>
    rw [splitAtFirst]
    split
    · exact List.nil_subset _
    · exact List.cons_subset_cons _ ih

/-! ### Lines -/

/-- The lines a buffered reader still delivers: `current` is the line read so far, and `skipLF` is
set right behind a `\r`, whose `\n` belongs to the same terminator. -/
def linesFrom : Text → Text → Bool → List Text
  | [], current, _ => if current = [] then [] else [current]
  | c :: cs, current, skipLF =>
      if c = '\n' then
        if skipLF then linesFrom cs current false else current :: linesFrom cs [] false
      else if c = '\r' then current :: linesFrom cs [] true
      else linesFrom cs (current ++ [c]) false

def readLines (s : Text) : List Text := linesFrom s [] false

def unlines (ls : List Text) : Text := ls.flatMap (fun l => l ++ ['\n'])

/-- A text that stays on one line of a buffered reader. -/
def NoLineEnd (s : Text) : Prop := '\n' ∉ s ∧ '\r' ∉ s

theorem SingleLine.noLineEnd {s : Text} (h : SingleLine s) : NoLineEnd s :=
  ⟨fun hc => absurd (h _ hc) (by decide), fun hc => absurd (h _ hc) (by decide)⟩

theorem linesFrom_line {l : Text} (h : NoLineEnd l) (rest : Text) :
    ∀ current, linesFrom (l ++ '\n' :: rest) current false
      = (current ++ l) :: linesFrom rest [] false := by
  induction l with
  | nil => intro current; simp [linesFrom]
  | cons c cs ih =>
    intro current
    obtain ⟨hn, hr⟩ := h
    rw [List.mem_cons, not_or] at hn hr
    rw [List.cons_append, linesFrom, if_neg (fun hc => hn.1 hc.symm),
      if_neg (fun hc => hr.1 hc.symm), ih ⟨hn.2, hr.2⟩, List.append_assoc, List.singleton_append]

/-- **A reader gets back the lines that were written.** -/
theorem readLines_unlines {ls : List Text} (h : ∀ l ∈ ls, NoLineEnd l) :
    readLines (unlines ls) = ls := by
  induction ls with
  | nil => rfl
  | cons l ls ih =>
    have hl := linesFrom_line (h l List.mem_cons_self) (unlines ls) []
    rw [List.nil_append] at hl
    rw [readLines, unlines, List.flatMap_cons, List.append_assoc, List.singleton_append]
    exact hl.trans (congrArg _ (ih (fun r hr => h r (List.mem_cons_of_mem _ hr))))

theorem unlines_append (ls ms : List Text) : unlines (ls ++ ms) = unlines ls ++ unlines ms :=
  List.flatMap_append

/-- Joining lines and ending the last one writes them as lines. -/
theorem join_newline {ls : List Text} (h : ls ≠ []) : join ['\n'] ls ++ ['\n'] = unlines ls := by
  induction ls with
  | nil => exact absurd rfl h
  | cons l ls ih =>
    cases ls with
    | nil => simp [join, unlines]
    | cons m ls =>
      rw [join, List.append_assoc, ih (by simp)]
      rfl

theorem noLineEnd_of_mem_linesFrom (s : Text) : ∀ (current : Text) (skipLF : Bool),
    NoLineEnd current → ∀ l ∈ linesFrom s current skipLF, NoLineEnd l := by
  induction s with
  | nil =>
    intro current _ hcur l hl
    rw [linesFrom] at hl
    split at hl
    · simp at hl
    · rwa [List.mem_singleton.mp hl]
  | cons c cs ih =>
    intro current skipLF hcur l hl
    have hnil : NoLineEnd [] := ⟨by simp, by simp⟩
    rw [linesFrom] at hl
    split at hl
    · split at hl
      · exact ih current false hcur l hl
      · rcases List.mem_cons.mp hl with rfl | hl
        · exact hcur
        · exact ih [] false hnil l hl
    · rename_i hn
      split at hl
      · rcases List.mem_cons.mp hl with rfl | hl
        · exact hcur
        · exact ih [] true hnil l hl
      · rename_i hr
        refine ih (current ++ [c]) false ?_ l hl
        simp only [NoLineEnd, List.mem_append, List.mem_singleton, not_or]
        exact ⟨⟨hcur.1, fun h => hn h.symm⟩, ⟨hcur.2, fun h => hr h.symm⟩⟩

theorem noLineEnd_of_mem_readLines {s l : Text} (h : l ∈ readLines s) : NoLineEnd l :=
  noLineEnd_of_mem_linesFrom s [] false ⟨by simp, by simp⟩ l h

theorem NoLineEnd.subset {s t : Text} (ht : NoLineEnd t) (h : s ⊆ t) : NoLineEnd s :=
  ⟨fun hc => ht.1 (h hc), fun hc => ht.2 (h hc)⟩

/-! ### Trimming -/

/-- Kotlin's `String.trim`. -/
def trim (s : Text) : Text :=
  ((s.dropWhile isWhitespace).reverse.dropWhile isWhitespace).reverse

theorem trim_subset (s : Text) : trim s ⊆ s := by
  intro c hc
  rw [trim, List.mem_reverse] at hc
  have h1 := (List.dropWhile_sublist _).subset hc
  rw [List.mem_reverse] at h1
  exact (List.dropWhile_sublist _).subset h1

section Ends

variable {β : Type*}

theorem dropWhile_eq_self_of_head {p : β → Bool} {s : List β} (h : ∀ c ∈ s.head?, p c = false) :
    s.dropWhile p = s := by
  cases s with
  | nil => rfl
  | cons c cs => rw [List.dropWhile_cons, if_neg (by simp [h c (by simp)])]

theorem head_dropWhile_not {p : β → Bool} (s : List β) :
    ∀ c ∈ (s.dropWhile p).head?, p c = false := by
  intro c hc
  have h := List.head?_dropWhile_not p s
  rw [Option.mem_def.mp hc] at h
  simpa using h

/-- Nothing is dropped from a list that has nothing to drop at either end. -/
theorem dropWhile_ends_eq_self {p : β → Bool} {s : List β} (hh : ∀ c ∈ s.head?, p c = false)
    (hl : ∀ c ∈ s.getLast?, p c = false) : ((s.dropWhile p).reverse.dropWhile p).reverse = s := by
  rw [dropWhile_eq_self_of_head hh,
    dropWhile_eq_self_of_head (by simpa [List.head?_reverse] using hl), List.reverse_reverse]

theorem getLast_dropWhile_ends {p : β → Bool} (s : List β) :
    ∀ c ∈ ((s.dropWhile p).reverse.dropWhile p).reverse.getLast?, p c = false := by
  rw [List.getLast?_reverse]
  exact head_dropWhile_not _

theorem head_dropWhile_ends {p : β → Bool} (s : List β) :
    ∀ c ∈ ((s.dropWhile p).reverse.dropWhile p).reverse.head?, p c = false := by
  intro c hc
  rw [List.head?_reverse] at hc
  -- what is left behind the dropped end still starts where the dropped front ended
  have hsuf : (s.dropWhile p).reverse.dropWhile p <:+ (s.dropWhile p).reverse :=
    List.dropWhile_suffix _
  obtain ⟨pre, hpre⟩ := hsuf
  have hlast : (s.dropWhile p).reverse.getLast? = some c := by
    rw [← hpre, List.getLast?_append, Option.mem_def.mp hc, Option.some_or]
  rw [List.getLast?_reverse] at hlast
  exact head_dropWhile_not s c hlast

end Ends

/-- A text without whitespace at either end is left alone. -/
theorem trim_eq_self {s : Text} (hh : ∀ c ∈ s.head?, isWhitespace c = false)
    (hl : ∀ c ∈ s.getLast?, isWhitespace c = false) : trim s = s :=
  dropWhile_ends_eq_self hh hl

theorem trim_last_not_space (s : Text) : ∀ c ∈ (trim s).getLast?, isWhitespace c = false :=
  getLast_dropWhile_ends s

theorem trim_head_not_space (s : Text) : ∀ c ∈ (trim s).head?, isWhitespace c = false :=
  head_dropWhile_ends s

theorem trim_trim (s : Text) : trim (trim s) = trim s :=
  trim_eq_self (trim_head_not_space s) (trim_last_not_space s)

/-! ### Replacing -/

/-- What is left to rewrite behind an occurrence of which `n` characters are still to be passed. -/
def replaceFrom (old new : List α) : Nat → List α → List α
  | _, [] => []
  | n + 1, _ :: cs => replaceFrom old new n cs
  | 0, c :: cs =>
      if old.isPrefixOf (c :: cs) then new ++ replaceFrom old new (old.length - 1) cs
      else c :: replaceFrom old new 0 cs

def replace (old new s : List α) : List α := replaceFrom old new 0 s

theorem replaceFrom_append (old new : List α) : ∀ xs s : List α,
    replaceFrom old new xs.length (xs ++ s) = replace old new s
  | [], _ => rfl
  | _ :: xs, s => replaceFrom_append old new xs s

@[simp] theorem replace_nil (old new : List α) : replace old new [] = [] := rfl

/-- An occurrence at the front is rewritten, and rewriting goes on behind it. -/
theorem replace_append {old : List α} (hold : old ≠ []) (new s : List α) :
    replace old new (old ++ s) = new ++ replace old new s := by
  obtain ⟨c, cs, rfl⟩ := List.exists_cons_of_ne_nil hold
  have hfront : (c :: cs).isPrefixOf (c :: (cs ++ s)) = true :=
    List.isPrefixOf_iff_prefix.mpr (List.prefix_append (c :: cs) s)
  rw [List.cons_append, replace, replaceFrom, if_pos hfront, List.length_cons,
    Nat.add_sub_cancel, replaceFrom_append]

/-- A character that starts no occurrence stays. -/
theorem replace_cons {old : List α} {c : α} {s : List α} (h : ¬ old <+: c :: s) (new : List α) :
    replace old new (c :: s) = c :: replace old new s := by
  have hfront : ¬ old.isPrefixOf (c :: s) = true := fun hp => h (List.isPrefixOf_iff_prefix.mp hp)
  rw [replace, replaceFrom, if_neg hfront]
  rfl

theorem replace_cons_of_ne {old : List α} {c d : α} (hold : old.head? = some d) (hc : c ≠ d)
    (new s : List α) : replace old new (c :: s) = c :: replace old new s := by
  apply replace_cons
  intro hp
  rw [List.head?_eq_some_iff] at hold
  obtain ⟨ds, rfl⟩ := hold
  exact hc (List.cons_prefix_cons.mp hp).1.symm

/-- Replacing one character rewrites every character by itself. -/
theorem replace_singleton (d : α) (new : List α) : ∀ s : List α,
    replace [d] new s = s.flatMap fun c => if c = d then new else [c]
  | [] => rfl
  | c :: s => by
      rw [List.flatMap_cons, ← replace_singleton d new s]
      by_cases hc : c = d
      · subst hc
        rw [if_pos rfl]
        exact replace_append (by simp) new s
      · rw [if_neg hc]
        exact replace_cons_of_ne rfl hc new s

/-! ### Bytes -/

/-- `toByteArray()`: the UTF-8 bytes of a text. -/
def utf8 (s : Text) : List UInt8 := s.flatMap String.utf8EncodeChar

/-! ### Order -/

/-- The UTF-16 code units of a character. -/
def utf16Units (c : Char) : List Nat :=
  if c.toNat < 0x10000 then [c.toNat]
  else [0xD800 + (c.toNat - 0x10000) / 0x400, 0xDC00 + (c.toNat - 0x10000) % 0x400]

def utf16 (s : Text) : List Nat := s.flatMap utf16Units

/-- `String.compareTo`. -/
def compareTo (s t : Text) : Ordering := compare (utf16 s) (utf16 t)

instance : Std.TransCmp compareTo :=
  inferInstanceAs (Std.TransCmp (compareOn utf16))

/-- A character is not a surrogate, so that its first unit tells how many there are. -/
theorem toNat_range (c : Char) :
    c.toNat < 0xD800 ∨ (0xDFFF < c.toNat ∧ c.toNat < 0x110000) := by
  have h := c.valid
  rw [UInt32.isValidChar, Nat.isValidChar] at h
  rw [show c.toNat = c.val.toNat from rfl]
  omega

theorem toNat_inj {c d : Char} (h : c.toNat = d.toNat) : c = d :=
  Char.ext (UInt32.toNat_inj.mp h)

theorem utf16Units_append_inj {c d : Char} {x y : List Nat}
    (h : utf16Units c ++ x = utf16Units d ++ y) : c = d ∧ x = y := by
  have hc := toNat_range c
  have hd := toNat_range d
  rw [utf16Units, utf16Units] at h
  split at h
  · split at h
    · obtain ⟨h1, h2⟩ := List.cons.inj h
      exact ⟨toNat_inj h1, h2⟩
    · have h1 := (List.cons.inj h).1
      omega
  · split at h
    · have h1 := (List.cons.inj h).1
      omega
    · obtain ⟨h1, h2⟩ := List.cons.inj h
      obtain ⟨h2, h3⟩ := List.cons.inj h2
      exact ⟨toNat_inj (by omega), h3⟩

theorem utf16_inj {s t : Text} (h : utf16 s = utf16 t) : s = t := by
  have hne : ∀ c : Char, utf16Units c ≠ [] := by
    intro c
    rw [utf16Units]
    split <;> simp
  induction s generalizing t with
  | nil =>
    cases t with
    | nil => rfl
    | cons d t => simp [utf16, hne d] at h
  | cons c s ih =>
    cases t with
    | nil => simp [utf16, hne c] at h
    | cons d t =>
      have h' : utf16Units c ++ utf16 s = utf16Units d ++ utf16 t := h
      obtain ⟨rfl, hst⟩ := utf16Units_append_inj h'
      rw [ih hst]

theorem eq_of_compareTo {s t : Text} (h : compareTo s t = .eq) : s = t :=
  utf16_inj (Std.LawfulEqOrd.eq_of_compare h)

end Text

end SsAndroid
