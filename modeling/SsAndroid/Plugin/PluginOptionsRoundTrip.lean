import SsAndroid.Plugin.PluginOptions

/-!
# Reading back printed plugin options

The reader of `PluginOptions` undoes the writer, whatever the order in which the entries are written.
The proof goes in three steps.

1. `parseLoop_tokenize`: the loop over tokens is a loop over characters (`readChar`) that remembers
   whether a backslash is pending.  A backslash takes a whole token, but a run of ordinary
   characters read at once is the same run read one by one.
2. `read_escape`: reading an escaped text from anywhere inside an entry appends exactly that text.
   So one printed entry with its `;` is one `put` (`read_entry`).
3. `print_false_semicolon`, `print_true_semicolon`: a printed text with the final `;` of the reader
   is the escaped id (if it is printed) followed by the entries, each with its `;`.

The condition on the entries is `Printable`: no key is both empty and without value, because such an
entry leaves no trace in the text.  Every parsed `PluginOptions` meets it (`parse_printable`).
-/

namespace SsAndroid.PluginOptions

open Tokenizer

/-! ### The reader as an automaton over characters -/

/-- One token; the flag says that the token in front of it was a backslash. -/
def readToken : Bool × Reading → Text → Bool × Reading
  | (true, r), token => (false, r.text token)
  | (false, r), token =>
      if token = ['\\'] then (true, r)
      else if token = ['='] then (false, r.equalsSign)
      else if token = [';'] then (false, r.endEntry)
      else (false, r.text token)

def readChar (s : Bool × Reading) (c : Char) : Bool × Reading := readToken s [c]

/-- The end of the input: a pending backslash has no token to take. -/
def finish : Bool × Reading → Except Exn Reading
  | (true, _) => .error .noSuchElement
  | (false, r) => .ok r

theorem parseLoop_eq_foldl (tokens : List Text) :
    ∀ r, parseLoop tokens r = finish (tokens.foldl readToken (false, r)) := by
  intro r
  induction tokens, r using parseLoop.induct with
  | case1 r => rfl
  | case2 r => rfl
  | case3 next tokens r ih => rw [parseLoop, ih]; rfl
  | case4 tokens r ih => rw [parseLoop, ih]; rfl
  | case5 tokens r ih => rw [parseLoop, ih]; rfl
  | case6 token tokens r h1 h2 h3 h4 ih =>
    have hb : token ≠ ['\\'] := by
      intro hb
      cases tokens with
      | nil => exact h1 hb rfl
      | cons t ts => exact h2 t ts hb rfl
    have hstep : readToken (false, r) token = (false, r.text token) := by
      simp only [readToken, hb, if_false, show token ≠ ['='] from h3, show token ≠ [';'] from h4]
    rw [parseLoop, ih, List.foldl_cons, hstep]
    all_goals simp_all

theorem readToken_run (s : Bool × Reading) (c : Char) (w : Text) (hc : isDelimiter c = false)
    (_ : w ≠ []) (hall : ∀ x ∈ w, isDelimiter x = false) :
    readToken s (c :: w) = readToken (readToken s [c]) w := by
  -- no token of a run is one of the three special tokens
  have hspecial : ∀ (t : Text) (d : Char), (∀ x ∈ t, isDelimiter x = false) →
      isDelimiter d = true → t ≠ [d] := by
    intro t d ht hd h
    have := ht d (by simp [h])
    simp [hd] at this
  have hplain : ∀ (r : Reading) (t : Text), (∀ x ∈ t, isDelimiter x = false) →
      readToken (false, r) t = (false, r.text t) := by
    intro r t ht
    simp only [readToken, hspecial t '\\' ht rfl, hspecial t '=' ht rfl, hspecial t ';' ht rfl,
      if_false]
  have hone : ∀ x ∈ [c], isDelimiter x = false := by simpa using hc
  have hcw : ∀ x ∈ c :: w, isDelimiter x = false := by
    intro x hx
    rcases List.mem_cons.mp hx with rfl | hx
    · exact hc
    · exact hall x hx
  obtain ⟨escaped, r⟩ := s
  cases escaped with
  | true =>
    show (false, r.text (c :: w)) = readToken (false, r.text [c]) w
    rw [hplain _ w hall]
    simp [Reading.text]
  | false =>
    rw [hplain r _ hcw, hplain r _ hone, hplain _ w hall]
    simp [Reading.text]

/-- **The loop over tokens is a loop over characters.** -/
theorem parseLoop_tokenize (s : Text) (r : Reading) :
    parseLoop (tokenize isDelimiter s) r = finish (s.foldl readChar (false, r)) := by
  rw [parseLoop_eq_foldl, foldl_tokenize readToken readToken_run]
  rfl

/-! ### Reading one printed piece -/

theorem readChar_plain {c : Char} (hc : isDelimiter c = false) (r : Reading) :
    readChar (false, r) c = (false, r.text [c]) := by
  simp only [isDelimiter, Bool.or_eq_false_iff, beq_eq_false_iff_ne] at hc
  simp [readChar, readToken, hc]

theorem text_text (r : Reading) (s t : Text) : (r.text s).text t = r.text (s ++ t) := by
  simp [Reading.text]

/-- **An escaped text is read as itself**, in the middle of a key or of a value. -/
theorem read_escape (s : Text) : ∀ r : Reading,
    (escape s).foldl readChar (false, r) = (false, r.text s) := by
  induction s with
  | nil => intro r; simp [escape, Reading.text]
  | cons c cs ih =>
    intro r
    have hcons : escape (c :: cs) = (if isDelimiter c then ['\\', c] else [c]) ++ escape cs := rfl
    have hhead : (if isDelimiter c then ['\\', c] else [c]).foldl readChar (false, r)
        = (false, r.text [c]) := by
      cases hc : isDelimiter c with
      | true => rfl
      | false => simpa using readChar_plain hc r
    rw [hcons, List.foldl_append, hhead, ih, text_text]
    rfl

/-- The state between two entries, with the options read so far. -/
def between (o : PluginOptions) : Reading :=
  { parseId := false, current := [], key := none, options := o }

def putEntry (o : PluginOptions) (e : Text × Option Text) : PluginOptions :=
  { o with map := o.map.put e.1 e.2 }

/-- **A printed entry with its `;` is one `put`.** -/
theorem read_entry (o : PluginOptions) (e : Text × Option Text) (he : e ≠ ([], none)) :
    (entryText e ++ [';']).foldl readChar (false, between o) = (false, between (putEntry o e)) := by
  obtain ⟨key, value⟩ := e
  cases value with
  | none =>
    have hkey : key ≠ [] := fun h => he (by rw [h])
    simp only [entryText, List.append_nil, List.foldl_append, read_escape]
    simp [readChar, readToken, Reading.endEntry, Reading.text, between, putEntry, hkey]
  | some v =>
    simp only [entryText, List.foldl_append, List.foldl_cons, List.foldl_nil, read_escape]
    have heq : readChar (false, (between o).text key) '='
        = (false, { between o with key := some key }) := by
      simp [readChar, readToken, Reading.equalsSign, Reading.text, between]
    rw [heq, read_escape]
    simp [readChar, readToken, Reading.endEntry, Reading.text, between, putEntry]

theorem read_entries (es : List (Text × Option Text)) : ∀ o : PluginOptions,
    (∀ e ∈ es, e ≠ ([], none)) →
    (es.flatMap (fun e => entryText e ++ [';'])).foldl readChar (false, between o)
      = (false, between (es.foldl putEntry o)) := by
  induction es with
  | nil => intro o _; rfl
  | cons e es ih =>
    intro o h
    rw [List.flatMap_cons, List.foldl_append, read_entry o e (h e List.mem_cons_self),
      ih _ (fun f hf => h f (List.mem_cons_of_mem _ hf)), List.foldl_cons]

theorem foldl_putEntry (es : List (Text × Option Text)) : ∀ o : PluginOptions,
    es.foldl putEntry o = { o with map := o.map.putAll es } := by
  induction es with
  | nil => intro o; rfl
  | cons e es ih => intro o; rw [List.foldl_cons, ih]; rfl

/-! ### The printed text -/

/-- No entry is empty in print. -/
def Printable (o : PluginOptions) : Prop := o.map.get? [] ≠ some none

theorem Printable.ne {o : PluginOptions} (h : Printable o) {es : List (Text × Option Text)}
    (hp : es.Perm o.map.entries) : ∀ e ∈ es, e ≠ ([], none) := by
  rintro e he rfl
  exact h ((o.map.get?_eq_some_iff [] none).mpr (hp.mem_iff.mp he))

theorem escape_eq_nil {s : Text} (h : escape s = []) : s = [] := by
  cases s with
  | nil => rfl
  | cons c cs =>
    rw [escape, List.flatMap_cons] at h
    split at h <;> simp at h

theorem entryText_ne_nil {e : Text × Option Text} (he : e ≠ ([], none)) : entryText e ≠ [] := by
  obtain ⟨key, value⟩ := e
  intro h
  obtain ⟨hk, hv⟩ := List.append_eq_nil_iff.mp h
  cases value with
  | none => exact he (by rw [show key = [] from escape_eq_nil hk])
  | some v => simp at hv

theorem foldl_appendEntry_semicolon (es : List (Text × Option Text)) : ∀ result : Text,
    result ≠ [] → es.foldl appendEntry result ++ [';']
      = result ++ [';'] ++ es.flatMap (fun e => entryText e ++ [';']) := by
  induction es with
  | nil => intro result _; simp
  | cons e es ih =>
    intro result h
    rw [List.foldl_cons, ih _ (by simp [appendEntry, h]), List.flatMap_cons]
    simp [appendEntry, h]

theorem print_false_semicolon (σ : IterationOrder Text (Option Text)) (o : PluginOptions)
    (hid : o.id ≠ []) : print σ false o ++ [';']
      = escape o.id ++ [';'] ++ (σ.order o.map.entries).flatMap (fun e => entryText e ++ [';']) := by
  have hesc : escape o.id ≠ [] := fun h => hid (escape_eq_nil h)
  simp only [print, hid, and_false, if_false, Bool.false_eq_true]
  exact foldl_appendEntry_semicolon _ _ hesc

theorem print_true_semicolon (σ : IterationOrder Text (Option Text)) (o : PluginOptions)
    (h : Printable o) (hne : σ.order o.map.entries ≠ []) : print σ true o ++ [';']
      = (σ.order o.map.entries).flatMap (fun e => entryText e ++ [';']) := by
  have hes := h.ne (σ.perm o.map.entries)
  simp only [print, Bool.true_eq_false, false_and, if_false, if_true]
  cases hord : σ.order o.map.entries with
  | nil => exact absurd hord hne
  | cons e es =>
    rw [hord] at hes
    have hfirst : appendEntry [] e = entryText e := by simp [appendEntry]
    rw [List.foldl_cons, hfirst, foldl_appendEntry_semicolon es _
      (entryText_ne_nil (hes e List.mem_cons_self)), List.flatMap_cons]

/-! ### Control characters -/

theorem controlFree_nil : Text.ControlFree [] := fun c hc => absurd hc (by simp)

/-- Neither the id nor a key nor a value holds a control character. -/
def ControlFree (o : PluginOptions) : Prop :=
  Text.ControlFree o.id ∧ ∀ e ∈ o.map.entries,
    Text.ControlFree e.1 ∧ Text.ControlFree (e.2.getD [])

instance (o : PluginOptions) : Decidable (ControlFree o) :=
  @instDecidableAnd _ _ _ (List.decidableBAll
    (fun e => Text.ControlFree e.1 ∧ Text.ControlFree (e.2.getD [])) o.map.entries)

theorem escape_controlFree {s : Text} (h : Text.ControlFree s) : Text.ControlFree (escape s) := by
  intro c hc
  obtain ⟨d, hd, hcd⟩ := List.mem_flatMap.mp hc
  split at hcd
  · rcases List.mem_cons.mp hcd with rfl | hcd
    · decide
    · rw [List.mem_singleton.mp hcd]
      exact h d hd
  · rw [List.mem_singleton.mp hcd]
    exact h d hd

theorem entryText_controlFree {e : Text × Option Text} (hk : Text.ControlFree e.1)
    (hv : Text.ControlFree (e.2.getD [])) : Text.ControlFree (entryText e) := by
  obtain ⟨key, value⟩ := e
  apply Text.ControlFree.append (escape_controlFree hk)
  cases value with
  | none => exact controlFree_nil
  | some v =>
    have heq : Text.ControlFree ['='] := by decide
    exact heq.append (escape_controlFree hv)

theorem foldl_appendEntry_controlFree (es : List (Text × Option Text)) : ∀ result : Text,
    Text.ControlFree result →
    (∀ e ∈ es, Text.ControlFree e.1 ∧ Text.ControlFree (e.2.getD [])) →
    Text.ControlFree (es.foldl appendEntry result) := by
  induction es with
  | nil => intro result h _; exact h
  | cons e es ih =>
    intro result h hes
    have he := hes e List.mem_cons_self
    have hsep : Text.ControlFree [';'] := by decide
    rw [List.foldl_cons]
    apply ih _ _ (fun f hf => hes f (List.mem_cons_of_mem _ hf))
    apply Text.ControlFree.append _ (entryText_controlFree he.1 he.2)
    split
    · exact h
    · exact h.append hsep

theorem print_controlFree (σ : IterationOrder Text (Option Text)) (trimId : Bool)
    {o : PluginOptions} (h : ControlFree o) : Text.ControlFree (print σ trimId o) := by
  rw [print]
  split
  · exact controlFree_nil
  · apply foldl_appendEntry_controlFree
    · split
      · exact controlFree_nil
      · exact escape_controlFree h.1
    · exact fun e he => h.2 e ((σ.perm _).mem_iff.mp he)

/-! ### Reading the printed text -/

/-- The reader on a non-empty text, in terms of the automaton. -/
theorem parse_eq (s : Text) (parseId : Bool) (hne : s ≠ []) (hs : Text.ControlFree s) :
    parse (some s) parseId
      = (finish ((s ++ [';']).foldl readChar
          (false, { parseId := parseId, current := [], key := none, options := empty }))).map
          (fun r => r.options) := by
  have hall : s.all (fun c => !Text.isISOControl c) = true := by
    rw [List.all_eq_true]
    intro c hc
    simp [hs c hc]
  cases s with
  | nil => exact absurd rfl hne
  | cons c cs =>
    simp only [parse, hall, if_true, parseLoop_tokenize]
    split <;> rename_i heq <;> rw [heq] <;> rfl

/-- **Printing with the id and reading the whole text.** -/
theorem ofText_print (σ : IterationOrder Text (Option Text)) (o : PluginOptions) (hid : o.id ≠ [])
    (hp : Printable o) (hc : ControlFree o) :
    ∃ o', ofText (print σ false o) = .ok o' ∧ Equals o' o := by
  have hsemi := print_false_semicolon σ o hid
  have hne : print σ false o ≠ [] := by
    intro h
    have hlen := congrArg List.length hsemi
    have hesc : escape o.id ≠ [] := fun h => hid (escape_eq_nil h)
    have hpos := List.length_pos_iff.mpr hesc
    simp only [h, List.length_append, List.length_nil, List.length_cons] at hlen
    omega
  have hidstep : (escape o.id ++ [';']).foldl readChar
      (false, { parseId := true, current := [], key := none, options := empty })
      = (false, between { empty with id := o.id }) := by
    rw [List.foldl_append, read_escape]
    simp [readChar, readToken, Reading.endEntry, Reading.text, between, hid]
  refine ⟨{ id := o.id, map := LinkedMap.ofEntries (σ.order o.map.entries) }, ?_, ?_⟩
  · rw [ofText, parse_eq _ _ hne (print_controlFree σ false hc), hsemi, List.foldl_append, hidstep,
      read_entries _ _ (hp.ne (σ.perm _)), foldl_putEntry]
    rfl
  · exact ⟨rfl, fun k => LinkedMap.get?_ofEntries o.map _ (σ.perm _) k⟩

/-- **Printing without the id and reading the options for that id.** -/
theorem ofIdText_print (σ : IterationOrder Text (Option Text)) (o : PluginOptions)
    (hp : Printable o) (hc : ControlFree o) :
    ∃ o', ofIdText o.id (some (print σ true o)) = .ok o' ∧ Equals o' o := by
  refine ⟨{ id := o.id, map := LinkedMap.ofEntries (σ.order o.map.entries) }, ?_,
    ⟨rfl, fun k => LinkedMap.get?_ofEntries o.map _ (σ.perm _) k⟩⟩
  by_cases hord : σ.order o.map.entries = []
  · have hprint : print σ true o = [] := by simp [print, hord]
    simp [ofIdText, hprint, parse, hord, empty, LinkedMap.ofEntries, LinkedMap.putAll]
  · have hsemi := print_true_semicolon σ o hp hord
    have hne : print σ true o ≠ [] := by
      intro h
      obtain ⟨e, es, hes⟩ := List.exists_cons_of_ne_nil hord
      have hent := entryText_ne_nil (hp.ne (σ.perm _) e (by rw [hes]; exact List.mem_cons_self))
      have hpos := List.length_pos_iff.mpr hent
      have hlen := congrArg List.length hsemi
      simp only [h, hes, List.flatMap_cons, List.length_append, List.length_nil,
        List.length_cons] at hlen
      omega
    have hread := read_entries (σ.order o.map.entries) empty (hp.ne (σ.perm _))
    rw [ofIdText, parse_eq _ _ hne (print_controlFree σ true hc), hsemi]
    rw [show ({ parseId := false, current := [], key := none, options := empty } : Reading)
      = between empty from rfl, hread, foldl_putEntry]
    rfl

/-! ### What the reader produces -/

/-- What holds of the reader's variables while it reads a text without control characters. -/
structure Clean (r : Reading) : Prop where
  printable : Printable r.options
  controlFree : ControlFree r.options
  current : Text.ControlFree r.current
  key : Text.ControlFree (r.key.getD [])

theorem Clean.text {r : Reading} (h : Clean r) {s : Text} (hs : Text.ControlFree s) :
    Clean (r.text s) :=
  { h with current := h.current.append hs }

theorem Clean.equalsSign {r : Reading} (h : Clean r) : Clean r.equalsSign := by
  have heq : Text.ControlFree ['='] := by decide
  rw [Reading.equalsSign]
  split
  · exact { h with current := controlFree_nil, key := h.current }
  · exact h.text heq

theorem printable_put {o : PluginOptions} (h : Printable o) {k : Text} {v : Option Text}
    (hkv : (k, v) ≠ ([], none)) : Printable { o with map := o.map.put k v } := by
  intro hget
  rw [LinkedMap.get?_put] at hget
  split at hget
  · rename_i hk
    exact hkv (by rw [← hk, Option.some.inj hget])
  · exact h hget

theorem controlFree_put {o : PluginOptions} (h : ControlFree o) {k : Text} {v : Option Text}
    (hk : Text.ControlFree k) (hv : Text.ControlFree (v.getD [])) :
    ControlFree { o with map := o.map.put k v } := by
  refine ⟨h.1, fun e he => ?_⟩
  rcases LinkedMap.mem_putEntries he with rfl | he
  · exact ⟨hk, hv⟩
  · exact h.2 e he

theorem Clean.endEntry {r : Reading} (h : Clean r) : Clean r.endEntry := by
  rw [Reading.endEntry]
  split
  · rename_i key hkey
    have hk : Text.ControlFree key := by simpa [hkey] using h.key
    exact ⟨printable_put h.printable (by simp), controlFree_put h.controlFree hk h.current,
      controlFree_nil, controlFree_nil⟩
  · split
    · exact ⟨h.printable, h.controlFree, controlFree_nil, controlFree_nil⟩
    · rename_i hne
      split
      · exact ⟨h.printable, ⟨h.current, h.controlFree.2⟩, controlFree_nil, controlFree_nil⟩
      · exact ⟨printable_put h.printable (by simp [hne]),
          controlFree_put h.controlFree h.current controlFree_nil, controlFree_nil, controlFree_nil⟩

theorem Clean.readChar {s : Bool × Reading} (h : Clean s.2) {c : Char}
    (hc : Text.isISOControl c = false) : Clean (readChar s c).2 := by
  have hone : Text.ControlFree [c] := by simpa [Text.ControlFree] using hc
  obtain ⟨escaped, r⟩ := s
  cases escaped with
  | true => exact h.text hone
  | false =>
    simp only [PluginOptions.readChar, readToken]
    split
    · exact h
    · split
      · exact h.equalsSign
      · split
        · exact h.endEntry
        · exact h.text hone

theorem Clean.foldl {s : Text} (hs : Text.ControlFree s) : ∀ st : Bool × Reading, Clean st.2 →
    Clean (s.foldl PluginOptions.readChar st).2 := by
  induction s with
  | nil => intro st h; exact h
  | cons c cs ih =>
    intro st h
    exact ih (fun d hd => hs d (List.mem_cons_of_mem _ hd)) _ (h.readChar (hs c List.mem_cons_self))

/-- The `;` the reader appends leaves no backslash pending. -/
theorem readChar_semicolon (st : Bool × Reading) : (readChar st ';').1 = false := by
  obtain ⟨escaped, r⟩ := st
  cases escaped <;> rfl

theorem clean_start (parseId : Bool) :
    Clean { parseId := parseId, current := [], key := none, options := empty } :=
  ⟨by simp [Printable, empty], ⟨controlFree_nil, by simp [empty, LinkedMap.empty]⟩,
    controlFree_nil, controlFree_nil⟩

/-- **A text without control characters is always read**, and what is read prints without loss. -/
theorem parse_ok (s : Option Text) (parseId : Bool) (hs : Text.ControlFree (s.getD [])) :
    ∃ o, parse s parseId = .ok o ∧ Printable o ∧ ControlFree o := by
  have hempty := clean_start parseId
  match s with
  | none => exact ⟨empty, rfl, hempty.printable, hempty.controlFree⟩
  | some [] => exact ⟨empty, rfl, hempty.printable, hempty.controlFree⟩
  | some (c :: cs) =>
    have hsemi : Text.ControlFree (c :: cs ++ [';']) := Text.ControlFree.append hs (by decide)
    have hclean := Clean.foldl hsemi (false, _) hempty
    have hflag : ((c :: cs ++ [';']).foldl readChar
        (false, { parseId := parseId, current := [], key := none, options := empty })).1 = false := by
      rw [List.foldl_append]
      exact readChar_semicolon _
    rw [parse_eq (c :: cs) _ (by simp) hs]
    generalize (c :: cs ++ [';']).foldl readChar
      (false, { parseId := parseId, current := [], key := none, options := empty }) = st at *
    obtain ⟨escaped, r⟩ := st
    obtain rfl : escaped = false := hflag
    exact ⟨r.options, rfl, hclean.printable, hclean.controlFree⟩

/-- A text with a control character is refused. -/
theorem controlFree_of_parse {s : Text} {parseId : Bool} {o : PluginOptions}
    (h : parse (some s) parseId = .ok o) : Text.ControlFree s := by
  cases s with
  | nil => exact controlFree_nil
  | cons c cs =>
    simp only [parse] at h
    split at h
    · rename_i hall
      rw [List.all_eq_true] at hall
      intro d hd
      simpa using hall d hd
    · simp at h

theorem ofIdText_ok (id : Text) (s : Option Text) (hid : Text.ControlFree id)
    (hs : Text.ControlFree (s.getD [])) :
    ∃ o, ofIdText id s = .ok o ∧ o.id = id ∧ Printable o ∧ ControlFree o := by
  obtain ⟨o, ho, hp, hc⟩ := parse_ok s false hs
  exact ⟨{ o with id := id }, by rw [ofIdText, ho], rfl, hp, ⟨hid, hc.2⟩⟩

/-! ### The round trip -/

/-- **Printing and parsing plugin options.**  Options with an id, without control characters and
without an empty key of value `null` are read back from their text, for every iteration order; and
whatever was parsed from a text without control characters is such an option, up to the id. -/
theorem parse_print_parse (σ : IterationOrder Text (Option Text)) :
    (∀ o : PluginOptions, o.id ≠ [] → ControlFree o → o.map.get? [] ≠ some none →
      (∃ o', ofText (print σ false o) = .ok o' ∧ Equals o' o) ∧
      (∃ o', ofIdText o.id (some (print σ true o)) = .ok o' ∧ Equals o' o)) ∧
    (∀ (s : Text) (parseId : Bool), Text.ControlFree s →
      ∃ o, parse (some s) parseId = .ok o ∧ o.map.get? [] ≠ some none ∧
        (o.id ≠ [] → ∃ o', ofText (print σ false o) = .ok o' ∧ Equals o' o)) := by
  refine ⟨fun o hid hc hp => ⟨ofText_print σ o hid hp hc, ofIdText_print σ o hp hc⟩, ?_⟩
  intro s parseId hs
  obtain ⟨o, ho, hp, hc⟩ := parse_ok (some s) parseId hs
  exact ⟨o, ho, hp, fun hid => ofText_print σ o hid hp hc⟩

/-- Options whose id, keys and values hold every special character. -/
def specialOptions : PluginOptions :=
  { id := "a;b".toList
    map := LinkedMap.ofEntries
      [("k=\\".toList, some ";=".toList), ("f".toList, none), ([], some []), ("e".toList, some [])] }

theorem parse_print_parse_special :
    (∃ o', ofText (print (IterationOrder.stored _ _) false specialOptions) = .ok o' ∧
      Equals o' specialOptions) ∧
    (∃ o, parse (some "x\\".toList) true = .ok o ∧ o.map.get? [] ≠ some none) :=
  ⟨((parse_print_parse (IterationOrder.stored _ _)).1 specialOptions (by decide) (by decide)
      (by decide)).1,
    let ⟨o, ho, hp, _⟩ := (parse_print_parse (IterationOrder.stored _ _)).2 "x\\".toList true
      (by decide)
    ⟨o, ho, hp⟩⟩

example : print (IterationOrder.stored _ _) false specialOptions
    = "a\\;b;k\\=\\\\=\\;\\=;f;=;e=".toList := by decide

end SsAndroid.PluginOptions
