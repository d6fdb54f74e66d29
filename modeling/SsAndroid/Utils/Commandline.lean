import SsAndroid.Lib.Text
import SsAndroid.Lib.Tokenizer

/-!
# Command lines

`Commandline.translateCommandline` cracks a command line into its arguments: a finite state machine
over the tokens of a `StringTokenizer` with the delimiters `\`, `"`, `'` and blank.  Old plugin
configurations store kcptun's options in this form.

The one fact needed of it here is that it invents nothing: every argument consists of characters of
the line (`translateCommandline_subset`).
-/

namespace SsAndroid.Commandline

open Tokenizer

/-- The states of the machine; `normal`, `inQuote` and `inDoubleQuote` in the source. -/
inductive Quoting
  | normal
  | inQuote
  | inDoubleQuote
  deriving DecidableEq, Repr

/-- The local variables of `translateCommandline`. -/
structure Scan where
  state : Quoting
  result : List Text
  current : Text
  lastTokenHasBeenQuoted : Bool
  lastTokenIsSlash : Bool

def isDelimiter (c : Char) : Bool := c == '\\' || c == '"' || c == '\'' || c == ' '

def Scan.append (s : Scan) (token : Text) : Scan := { s with current := s.current ++ token }

/-- The argument read so far is complete. -/
def Scan.emit (s : Scan) : Scan := { s with result := s.result ++ [s.current], current := [] }

/-- One pass of the `while` loop. -/
def Scan.token (s : Scan) (nextTok : Text) : Scan :=
  match s.state with
  | .inQuote =>
      if nextTok = ['\''] then { s with lastTokenHasBeenQuoted := true, state := .normal }
      else s.append nextTok
  | .inDoubleQuote =>
      if nextTok = ['"'] then
        if s.lastTokenIsSlash then { s.append nextTok with lastTokenIsSlash := false }
        else { s with lastTokenHasBeenQuoted := true, state := .normal }
      else if nextTok = ['\\'] then
        if s.lastTokenIsSlash then { s.append nextTok with lastTokenIsSlash := false }
        else { s with lastTokenIsSlash := true }
      else if s.lastTokenIsSlash then
        { (s.append ['\\']).append nextTok with lastTokenIsSlash := false }  -- unescaped
      else s.append nextTok
  | .normal =>
      let s' :=
        if s.lastTokenIsSlash then { s.append nextTok with lastTokenIsSlash := false }
        else if nextTok = ['\\'] then { s with lastTokenIsSlash := true }
        else if nextTok = ['\''] then { s with state := .inQuote }
        else if nextTok = ['"'] then { s with state := .inDoubleQuote }
        else if nextTok = [' '] then
          if s.lastTokenHasBeenQuoted || s.current ≠ [] then s.emit else s
        else s.append nextTok
      { s' with lastTokenHasBeenQuoted := false }

def Scan.start : Scan :=
  { state := .normal, result := [], current := [], lastTokenHasBeenQuoted := false,
    lastTokenIsSlash := false }

/-- Behind the loop: the last argument, then the two `require`s. -/
def Scan.finish (s : Scan) (toProcess : Text) : Except Exn (List Text) :=
  let result :=
    if s.lastTokenHasBeenQuoted || s.current ≠ [] then s.result ++ [s.current] else s.result
  if s.state ≠ .normal then
    .error (.illegalArgument ("unbalanced quotes in " ++ String.ofList toProcess))
  else if s.lastTokenIsSlash then
    .error (.illegalArgument
      ("escape character following nothing in " ++ String.ofList toProcess))
  else .ok result

/-- `translateCommandline(toProcess)`. -/
def translateCommandline (toProcess : Text) : Except Exn (List Text) :=
  if toProcess = [] then .ok []
  else ((tokenize isDelimiter toProcess).foldl Scan.token Scan.start).finish toProcess

/-! ### Arguments consist of characters of the line -/

/-- Everything the machine holds was read from `line`. -/
def Scan.From (line : Text) (s : Scan) : Prop :=
  s.current ⊆ line ∧ (∀ arg ∈ s.result, arg ⊆ line) ∧ (s.lastTokenIsSlash = true → '\\' ∈ line)

theorem Scan.From.append {line : Text} {s : Scan} (h : s.From line) {t : Text} (ht : t ⊆ line) :
    (s.append t).From line :=
  ⟨List.append_subset.mpr ⟨h.1, ht⟩, h.2.1, h.2.2⟩

theorem Scan.From.emit {line : Text} {s : Scan} (h : s.From line) : s.emit.From line := by
  refine ⟨List.nil_subset _, ?_, h.2.2⟩
  intro arg harg
  rcases List.mem_append.mp harg with harg | harg
  · exact h.2.1 arg harg
  · rw [List.mem_singleton.mp harg]
    exact h.1

/-- One token keeps the machine inside the line. -/
theorem Scan.From.token {line : Text} {s : Scan} (h : s.From line) {t : Text} (ht : t ⊆ line) :
    (s.token t).From line := by
  have happ := h.append ht
  have hslash : t = ['\\'] → '\\' ∈ line := fun e => ht (by simp [e])
  have hun : s.lastTokenIsSlash = true → ((s.append ['\\']).append t).From line := by
    intro hs
    exact (h.append (by simpa using h.2.2 hs)).append ht
  have hemit := h.emit
  unfold Scan.token
  cases s.state with
  | inQuote =>
    simp only
    split
    · exact h
    · exact happ
  | inDoubleQuote =>
    simp only
    split
    · split
      · exact ⟨happ.1, happ.2.1, by simp⟩
      · exact h
    · split
      · rename_i hb
        split
        · exact ⟨happ.1, happ.2.1, by simp⟩
        · exact ⟨h.1, h.2.1, fun _ => hslash hb⟩
      · split
        · rename_i hs
          exact ⟨(hun hs).1, (hun hs).2.1, by simp⟩
        · exact happ
  | normal =>
    simp only
    split
    · exact ⟨happ.1, happ.2.1, by simp⟩
    · split
      · rename_i hb
        exact ⟨h.1, h.2.1, fun _ => hslash hb⟩
      · split
        · exact h
        · split
          · exact h
          · split
            · split
              · exact hemit
              · exact h
            · exact happ

theorem Scan.From.foldl {line : Text} (tokens : List Text) : ∀ s : Scan, s.From line →
    (∀ t ∈ tokens, t ⊆ line) → (tokens.foldl Scan.token s).From line := by
  induction tokens with
  | nil => intro s h _; exact h
  | cons t ts ih =>
    intro s h ht
    exact ih _ (h.token (ht t List.mem_cons_self)) (fun u hu => ht u (List.mem_cons_of_mem _ hu))

/-- **Every argument consists of characters of the line.** -/
theorem translateCommandline_subset {line : Text} {args : List Text}
    (h : translateCommandline line = .ok args) : ∀ arg ∈ args, arg ⊆ line := by
  rw [translateCommandline] at h
  split at h
  · obtain rfl := Except.ok.inj h
    simp
  · have hfrom := @Scan.From.foldl line (tokenize isDelimiter line) Scan.start
      ⟨by simp [Scan.start], by simp [Scan.start], by simp [Scan.start]⟩
      (token_subset isDelimiter line)
    generalize (tokenize isDelimiter line).foldl Scan.token Scan.start = s at *
    rw [Scan.finish] at h
    split at h
    · simp at h
    · split at h
      · simp at h
      · obtain rfl := Except.ok.inj h
        intro arg harg
        split at harg
        · exact hfrom.emit.2.1 arg harg
        · exact hfrom.2.1 arg harg

example : translateCommandline "kcptun --key 'it''s' \"a \\\"b\\\"\" x\\ y".toList
    = .ok ["kcptun".toList, "--key".toList, "its".toList, "a \"b\"".toList, "x y".toList] := by
  decide

end SsAndroid.Commandline
