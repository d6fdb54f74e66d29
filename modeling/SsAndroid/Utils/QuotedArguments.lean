import SsAndroid.Utils.Commandline

/-!
# Quoted arguments

An argument can be written on a command line in three ways: with a backslash before every character
that means something (what `Commandline.toString` does), between single quotes, or between double
quotes with backslashes and double quotes escaped.  `Quoted arg text` is one such writing of `arg`,
`Renders args line` a line of them with blanks between.

**`translateCommandline_renders`**: however they are written, cracking the line gives the arguments
back, and a quote that is not closed or a backslash with nothing behind it is an error wherever the
line breaks off.

The machine works on tokens, but it treats a run of plain characters as it treats the characters one
by one (`translateCommandline_eq`), so that everything here is about single characters.  Between two
arguments it is in the state `between`, behind one it `Holds` what it has read.
-/

namespace SsAndroid.Commandline

open Tokenizer

/-! ### Writing arguments -/

/-- The characters that `toString` escapes. -/
def isEscaped (c : Char) : Bool := c == ' ' || c == '\\' || c == '"' || c == '\''

def escapeChar (c : Char) : Text := if isEscaped c then ['\\', c] else [c]

/-- One round of the loop of `toString`. -/
def appendArg (result arg : Text) : Text :=
  (if result ≠ [] then result ++ [' '] else result) ++ arg.flatMap escapeChar

/-- `Commandline.toString(args)`; `none` is a null. -/
protected def toString : Option (List Text) → Text
  | none => []
  | some args => args.foldl appendArg []

/-- A backslash before the characters that end a double quote or escape. -/
def escapeDouble (c : Char) : Text := if c = '\\' ∨ c = '"' then ['\\', c] else [c]

/-- The writings of an argument. -/
inductive Quoted (arg : Text) : Text → Prop
  | escaped : arg ≠ [] → Quoted arg (arg.flatMap escapeChar)
  | single : '\'' ∉ arg → Quoted arg ('\'' :: (arg ++ ['\'']))
  | double : Quoted arg ('"' :: (arg.flatMap escapeDouble ++ ['"']))

def spaces (n : Nat) : Text := List.replicate n ' '

/-- A line of arguments with one or more blanks behind each but the last, which may have some. -/
inductive Renders : List Text → Text → Prop
  | nil : Renders [] []
  | last {arg text : Text} : Quoted arg text → Renders [arg] text
  | cons {arg text : Text} {args : List Text} {line : Text} (n : Nat) : Quoted arg text →
      Renders args line → Renders (arg :: args) (text ++ spaces (n + 1) ++ line)

/-- What stands behind a double quote that is not closed: a backslash takes the next character with
it. -/
inductive Unclosed : Text → Prop
  | nil : Unclosed []
  | plain {c : Char} {t : Text} : c ≠ '"' → c ≠ '\\' → Unclosed t → Unclosed (c :: t)
  | escape {c : Char} {t : Text} : Unclosed t → Unclosed ('\\' :: c :: t)
  | slash : Unclosed ['\\']

/-- An end that no line may have, with what is said about it. -/
inductive Dangling : Text → String → Prop
  | quote {t : Text} : '\'' ∉ t → Dangling ('\'' :: t) "unbalanced quotes in "
  | doubleQuote {t : Text} : Unclosed t → Dangling ('"' :: t) "unbalanced quotes in "
  | slash : Dangling ['\\'] "escape character following nothing in "

/-! ### One character at a time -/

def Scan.char (s : Scan) (c : Char) : Scan := s.token [c]

/-- The machine, fed with characters. -/
def Scan.chars (s : Scan) (t : Text) : Scan := t.foldl Scan.char s

@[simp] theorem Scan.chars_nil (s : Scan) : s.chars [] = s := rfl

@[simp] theorem Scan.chars_cons (s : Scan) (c : Char) (t : Text) :
    s.chars (c :: t) = (s.char c).chars t := rfl

theorem Scan.chars_append (s : Scan) (t u : Text) : s.chars (t ++ u) = (s.chars t).chars u :=
  List.foldl_append

/-- A run of plain characters is appended in any state. -/
theorem Scan.token_run (s : Scan) (c : Char) (w : Text) (hc : isDelimiter c = false) (hw : w ≠ [])
    (hrun : ∀ x ∈ w, isDelimiter x = false) : s.token (c :: w) = (s.token [c]).token w := by
  have hplain : ∀ t : Text, t ≠ [] → (∀ x ∈ t, isDelimiter x = false) →
      t ≠ ['\''] ∧ t ≠ ['"'] ∧ t ≠ ['\\'] ∧ t ≠ [' '] := by
    intro t _ ht
    refine ⟨?_, ?_, ?_, ?_⟩ <;>
    · rintro rfl
      exact absurd (ht _ List.mem_cons_self) (by decide)
  obtain ⟨h1, h2, h3, h4⟩ := hplain (c :: w) (by simp) (by simpa [hc] using hrun)
  obtain ⟨c1, c2, c3, c4⟩ := hplain [c] (by simp) (by simpa using hc)
  obtain ⟨w1, w2, w3, w4⟩ := hplain w hw hrun
  obtain ⟨state, result, current, quoted, slash⟩ := s
  cases state <;> cases slash <;>
    simp [Scan.token, Scan.append, h1, h2, h3, h4, c1, c2, c3, c4, w1, w2, w3, w4]

theorem translateCommandline_eq (line : Text) :
    translateCommandline line = (Scan.start.chars line).finish line := by
  rw [translateCommandline]
  split_ifs with hline
  · rw [hline]
    rfl
  · rw [foldl_tokenize Scan.token Scan.token_run]
    rfl

/-! ### The steps of the machine -/

/-- Nothing of the next argument is read yet. -/
def between (result : List Text) : Scan := ⟨.normal, result, [], false, false⟩

section Steps

variable (r : List Text) (cur : Text) (q : Bool)

theorem char_plain {c : Char} (hc : isEscaped c = false) :
    Scan.char ⟨.normal, r, cur, q, false⟩ c = ⟨.normal, r, cur ++ [c], false, false⟩ := by
  simp only [isEscaped, Bool.or_eq_false_iff, beq_eq_false_iff_ne] at hc
  obtain ⟨⟨⟨h1, h2⟩, h3⟩, h4⟩ := hc
  simp [Scan.char, Scan.token, Scan.append, h1, h2, h3, h4]

theorem char_slash :
    Scan.char ⟨.normal, r, cur, q, false⟩ '\\' = ⟨.normal, r, cur, false, true⟩ := rfl

theorem char_after_slash (c : Char) :
    Scan.char ⟨.normal, r, cur, q, true⟩ c = ⟨.normal, r, cur ++ [c], false, false⟩ := rfl

theorem char_openQuote :
    Scan.char ⟨.normal, r, cur, q, false⟩ '\'' = ⟨.inQuote, r, cur, false, false⟩ := rfl

theorem char_openDouble :
    Scan.char ⟨.normal, r, cur, q, false⟩ '"' = ⟨.inDoubleQuote, r, cur, false, false⟩ := rfl

theorem char_inQuote {c : Char} (hc : c ≠ '\'') :
    Scan.char ⟨.inQuote, r, cur, q, false⟩ c = ⟨.inQuote, r, cur ++ [c], q, false⟩ := by
  simp [Scan.char, Scan.token, Scan.append, hc]

theorem char_inDouble {c : Char} (h1 : c ≠ '"') (h2 : c ≠ '\\') :
    Scan.char ⟨.inDoubleQuote, r, cur, q, false⟩ c = ⟨.inDoubleQuote, r, cur ++ [c], q, false⟩ := by
  simp [Scan.char, Scan.token, Scan.append, h1, h2]

theorem char_inDouble_slash :
    Scan.char ⟨.inDoubleQuote, r, cur, q, false⟩ '\\' = ⟨.inDoubleQuote, r, cur, q, true⟩ := rfl

/-- Behind a backslash a double quote and a backslash stand for themselves; before anything else the
backslash stays. -/
theorem char_inDouble_after_slash (c : Char) :
    Scan.char ⟨.inDoubleQuote, r, cur, q, true⟩ c =
      ⟨.inDoubleQuote, r, cur ++ (if c = '\\' ∨ c = '"' then [c] else ['\\', c]), q, false⟩ := by
  by_cases h1 : c = '"'
  · subst h1
    rfl
  · by_cases h2 : c = '\\'
    · subst h2
      rfl
    · simp [Scan.char, Scan.token, Scan.append, h1, h2]

theorem chars_escaped : ∀ (arg : Text) (cur : Text) (q : Bool),
    ∃ q', Scan.chars ⟨.normal, r, cur, q, false⟩ (arg.flatMap escapeChar) =
      ⟨.normal, r, cur ++ arg, q', false⟩ := by
  intro arg
  induction arg with
  | nil =>
    intro cur q
    exact ⟨q, by simp⟩
  | cons c arg ih =>
    intro cur q
    obtain ⟨q', hq⟩ := ih (cur ++ [c]) false
    refine ⟨q', ?_⟩
    rw [List.flatMap_cons, Scan.chars_append, escapeChar]
    split_ifs with hc
    · rw [Scan.chars_cons, Scan.chars_cons, char_slash, char_after_slash, Scan.chars_nil, hq]
      simp
    · rw [Scan.chars_cons, char_plain r cur q (by simpa using hc), Scan.chars_nil, hq]
      simp

theorem chars_inQuote : ∀ {t : Text} (cur : Text), '\'' ∉ t →
    Scan.chars ⟨.inQuote, r, cur, q, false⟩ t = ⟨.inQuote, r, cur ++ t, q, false⟩ := by
  intro t
  induction t with
  | nil => simp
  | cons c t ih =>
    intro cur h
    rw [List.mem_cons, not_or] at h
    rw [Scan.chars_cons, char_inQuote r cur q (fun hc => h.1 hc.symm), ih _ h.2]
    simp

theorem chars_inDouble : ∀ (arg : Text) (cur : Text),
    Scan.chars ⟨.inDoubleQuote, r, cur, q, false⟩ (arg.flatMap escapeDouble) =
      ⟨.inDoubleQuote, r, cur ++ arg, q, false⟩ := by
  intro arg
  induction arg with
  | nil => simp
  | cons c arg ih =>
    intro cur
    rw [List.flatMap_cons, Scan.chars_append, escapeDouble]
    split_ifs with hc
    · rw [Scan.chars_cons, Scan.chars_cons, char_inDouble_slash, char_inDouble_after_slash,
        if_pos hc, Scan.chars_nil, ih]
      simp
    · rw [not_or] at hc
      rw [Scan.chars_cons, char_inDouble r cur q hc.2 hc.1, Scan.chars_nil, ih]
      simp

/-- The quote stays open, with whatever backslash is pending. -/
theorem chars_unclosed {t : Text} (h : Unclosed t) : ∀ cur : Text,
    (Scan.chars ⟨.inDoubleQuote, r, cur, q, false⟩ t).state = .inDoubleQuote := by
  induction h with
  | nil => intro cur; rfl
  | plain h1 h2 _ ih =>
    intro cur
    rw [Scan.chars_cons, char_inDouble r cur q h1 h2]
    exact ih _
  | escape _ ih =>
    intro cur
    rw [Scan.chars_cons, Scan.chars_cons, char_inDouble_slash, char_inDouble_after_slash]
    exact ih _
  | slash => intro cur; rfl

end Steps

/-! ### Arguments and lines -/

/-- The arguments read so far, the last of them perhaps not yet ended by a blank. -/
def Scan.Holds (s : Scan) (args : List Text) : Prop :=
  s.state = .normal ∧ s.lastTokenIsSlash = false ∧
    (if s.lastTokenHasBeenQuoted || s.current ≠ [] then s.result ++ [s.current] else s.result) = args

theorem between_holds (r : List Text) : (between r).Holds r := ⟨rfl, rfl, rfl⟩

theorem Scan.Holds.finish {s : Scan} {args : List Text} (h : s.Holds args) (line : Text) :
    s.finish line = .ok args := by
  obtain ⟨hstate, hslash, hargs⟩ := h
  rw [Scan.finish, if_neg (by simp [hstate]), if_neg (by simp [hslash])]
  exact congrArg Except.ok hargs

/-- **An argument is read**, whichever way it is written, the empty one included. -/
theorem chars_quoted {arg text : Text} (h : Quoted arg text) (r : List Text) :
    ((between r).chars text).Holds (r ++ [arg]) := by
  cases h with
  | escaped hne =>
    obtain ⟨q, hq⟩ := chars_escaped r arg [] false
    rw [between, hq]
    exact ⟨rfl, rfl, if_pos (by simp [hne])⟩
  | single hquote =>
    rw [between, Scan.chars_cons, char_openQuote, Scan.chars_append, chars_inQuote r false [] hquote]
    exact ⟨rfl, rfl, rfl⟩
  | double =>
    rw [between, Scan.chars_cons, char_openDouble, Scan.chars_append, chars_inDouble]
    exact ⟨rfl, rfl, rfl⟩

/-- The first blank ends the argument, if there is one. -/
theorem char_space {s : Scan} {args : List Text} (h : s.Holds args) :
    s.char ' ' = between args := by
  obtain ⟨state, result, current, quoted, slash⟩ := s
  obtain ⟨hstate, hslash, hargs⟩ := h
  simp only at hstate hslash hargs
  subst hstate hslash
  have hread : Scan.char ⟨.normal, result, current, quoted, false⟩ ' ' =
      { (if quoted || current ≠ [] then Scan.emit ⟨.normal, result, current, quoted, false⟩
          else ⟨.normal, result, current, quoted, false⟩) with lastTokenHasBeenQuoted := false } := rfl
  rw [hread, ← hargs]
  by_cases hend : (quoted || decide (current ≠ [])) = true
  · rw [if_pos hend, if_pos hend]
    rfl
  · rw [if_neg hend, if_neg hend]
    simp only [Bool.or_eq_true, decide_eq_true_eq, not_or, not_not] at hend
    rw [hend.2]
    rfl

theorem chars_spaces_succ {s : Scan} {args : List Text} (h : s.Holds args) (n : Nat) :
    s.chars (spaces (n + 1)) = between args := by
  have hstay : ∀ n, (between args).chars (spaces n) = between args := by
    intro n
    induction n with
    | zero => rfl
    | succ n ih => exact ih
  rw [spaces, List.replicate_succ, Scan.chars_cons, char_space h]
  exact hstay n

/-- Blanks change nothing in what has been read. -/
theorem Scan.Holds.spaces {s : Scan} {args : List Text} (h : s.Holds args) (n : Nat) :
    (s.chars (spaces n)).Holds args := by
  cases n with
  | zero => exact h
  | succ n =>
    rw [chars_spaces_succ h n]
    exact between_holds args

theorem chars_renders {args : List Text} {line : Text} (h : Renders args line) : ∀ r : List Text,
    ((between r).chars line).Holds (r ++ args) := by
  induction h with
  | nil =>
    intro r
    rw [List.append_nil]
    exact between_holds r
  | last hquoted => exact chars_quoted hquoted
  | @cons arg text args line n hquoted _ ih =>
    intro r
    rw [Scan.chars_append, Scan.chars_append, chars_spaces_succ (chars_quoted hquoted r) n]
    have hrest := ih (r ++ [arg])
    rw [List.append_assoc] at hrest
    exact hrest

/-- **A line that breaks off is refused**, whatever has been read before. -/
theorem Scan.Holds.dangling {s : Scan} {args : List Text} (h : s.Holds args) {tail : Text}
    {message : String} (hd : Dangling tail message) (line : Text) :
    (s.chars tail).finish line = .error (.illegalArgument (message ++ String.ofList line)) := by
  obtain ⟨state, result, current, quoted, slash⟩ := s
  obtain ⟨hstate, hslash, -⟩ := h
  simp only at hstate hslash
  subst hstate hslash
  cases hd with
  | quote hquote =>
    rw [Scan.chars_cons, char_openQuote, chars_inQuote result false current hquote]
    rfl
  | doubleQuote hunclosed =>
    rw [Scan.chars_cons, char_openDouble]
    have hopen := chars_unclosed result false hunclosed current
    rw [Scan.finish, if_pos (by simp [hopen])]
  | slash => rfl

/-! ### `toString` writes such lines -/

theorem escapeArg_ne_nil {arg : Text} (h : arg ≠ []) : arg.flatMap escapeChar ≠ [] := by
  obtain ⟨c, arg, rfl⟩ := List.exists_cons_of_ne_nil h
  rw [List.flatMap_cons, escapeChar]
  split_ifs <;> simp

theorem foldl_appendArg : ∀ {args : List Text} {result : Text}, result ≠ [] →
    args.foldl appendArg result =
      result ++ args.flatMap fun arg => ' ' :: arg.flatMap escapeChar := by
  intro args
  induction args with
  | nil => simp
  | cons arg args ih =>
    intro result hresult
    have hstep : appendArg result arg = result ++ ' ' :: arg.flatMap escapeChar := by
      rw [appendArg, if_pos hresult]
      simp
    rw [List.foldl_cons, hstep, ih (by simp), List.flatMap_cons, List.append_assoc]

theorem toString_renders {args : List Text} (h : ∀ arg ∈ args, arg ≠ []) :
    Renders args (Commandline.toString (some args)) := by
  cases args with
  | nil => exact .nil
  | cons arg args =>
    rw [List.forall_mem_cons] at h
    have hfirst : appendArg [] arg = arg.flatMap escapeChar := rfl
    show Renders (arg :: args) ((arg :: args).foldl appendArg [])
    rw [List.foldl_cons, hfirst, foldl_appendArg (escapeArg_ne_nil h.1)]
    obtain ⟨hne, hall⟩ := h
    -- each further argument is written behind one blank
    induction args generalizing arg with
    | nil => simpa using Renders.last (.escaped hne)
    | cons arg' args ih =>
      rw [List.forall_mem_cons] at hall
      have hrest := Renders.cons 0 (.escaped hne) (ih arg' rfl hall.1 hall.2)
      simpa [spaces] using hrest

/-- **Command lines are read as they are written.**  A line of arguments, each in one of the three
ways, gives back the arguments, and so does what `toString` makes of arguments that are not empty;
followed by an open quote or a backslash at its end, with blanks before it or not, the line is
refused. -/
theorem translateCommandline_renders :
    (∀ args line, Renders args line → translateCommandline line = .ok args) ∧
    (∀ args : List Text, (∀ arg ∈ args, arg ≠ []) →
      translateCommandline (Commandline.toString (some args)) = .ok args) ∧
    ∀ args line n tail message, Renders args line → Dangling tail message →
      translateCommandline (line ++ spaces n ++ tail) =
        .error (.illegalArgument (message ++ String.ofList (line ++ spaces n ++ tail))) := by
  have hread : ∀ args line, Renders args line → translateCommandline line = .ok args := by
    intro args line h
    rw [translateCommandline_eq]
    exact (chars_renders h []).finish line
  refine ⟨hread, ?_, ?_⟩
  · intro args h
    exact hread args _ (toString_renders h)
  · intro args line n tail message h hd
    rw [translateCommandline_eq, Scan.chars_append, Scan.chars_append]
    exact ((chars_renders h []).spaces n).dangling hd _

theorem translateCommandline_renders_mixed :
    translateCommandline "'it is'  \"\" x\\ y".toList =
      .ok ["it is".toList, [], "x y".toList] ∧
    translateCommandline ("'it is'  \"\" x\\ y".toList ++ spaces 0 ++ ['\\']) =
      .error (.illegalArgument ("escape character following nothing in " ++
        String.ofList ("'it is'  \"\" x\\ y".toList ++ spaces 0 ++ ['\\']))) := by
  have hline : Renders ["it is".toList, [], "x y".toList] "'it is'  \"\" x\\ y".toList :=
    .cons 1 (.single (by decide)) (.cons 0 .double (.last (.escaped (by decide))))
  exact ⟨translateCommandline_renders.1 _ _ hline,
    translateCommandline_renders.2.2 _ _ 0 _ _ hline .slash⟩

end SsAndroid.Commandline
