import SsAndroid.Acl.Acl

/-!
# Printing and reading an access control list

A list that was read has a shape (`Printable`): its host names are lines of their own that the
reader takes for rules, its subnets and URLs are read back from their texts.  A printable list is
written in a form that the reader takes apart again (`fromReader_toString`): everything comes back,
the URLs as adding them again in their order leaves them.

**`print_parse`**: a list that was read from a text comes back whole whatever the default mode, if
no two URLs imported by the text differ in their fragment only; where equal URLs are spelled
alike, that is also necessary, since the second of two such URLs overtakes the first each time.
-/

namespace SsAndroid

open Text

namespace Acl

variable {P : Platform}

/-! ### Lines that are rules -/

/-- The lines that switch the list or the mode. -/
def directives : List Text :=
  ["[outbound_block_list]".toList, "[black_list]".toList, "[bypass_list]".toList,
    "[white_list]".toList, "[proxy_list]".toList, "[reject_all]".toList, "[bypass_all]".toList,
    "[accept_all]".toList, "[proxy_all]".toList]

/-- A line that the reader takes for a rule, as it stands. -/
structure RuleLine (s : Text) : Prop where
  ne_nil : s ≠ []
  no_hash : '#' ∉ s
  trimmed : trim s = s
  no_directive : s ∉ directives
  noLineEnd : NoLineEnd s

/-- A rule that is a host name pattern. -/
structure Hostname (P : Platform) (s : Text) : Prop extends RuleLine s where
  no_subnet : Subnet.fromString P.addresses s = none

def ParsedSubnet (P : Platform) (s : Subnet) : Prop :=
  ∃ text, P.addresses.parseNumericAddress text = some s.address

def ParsedUrl (P : Platform) (u : URL) : Prop :=
  ∃ spec, SingleLine spec ∧ P.urls.parse spec = some u

structure Printable (a : Acl P) : Prop where
  bypassHostnames : ∀ h ∈ a.bypassHostnames, Hostname P h
  proxyHostnames : ∀ h ∈ a.proxyHostnames, Hostname P h
  subnets : ∀ s ∈ a.subnets, ParsedSubnet P s
  urls : ∀ u ∈ a.urls, ParsedUrl P u

namespace Reader

/-- What the part of a line in front of the comment can do. -/
theorem input_cases (r : Reader P) (s : Text) :
    (∃ sec, r.input s = { r with current := sec }) ∨ (∃ b, r.input s = { r with bypass := b }) ∨
      (r.input s = r ∧ s = []) ∨ (s ≠ [] ∧ s ∉ directives ∧ r.input s = r.rule s) := by
  unfold input
  split
  · exact Or.inl ⟨_, rfl⟩
  · rename_i h1
    split
    · exact Or.inl ⟨_, rfl⟩
    · rename_i h2
      split
      · exact Or.inl ⟨_, rfl⟩
      · rename_i h3
        split
        · exact Or.inr (Or.inl ⟨_, rfl⟩)
        · rename_i h4
          split
          · exact Or.inr (Or.inl ⟨_, rfl⟩)
          · rename_i h5
            split
            · rename_i h6
              exact Or.inr (Or.inr (Or.inl ⟨rfl, h6⟩))
            · rename_i h6
              refine Or.inr (Or.inr (Or.inr ⟨h6, ?_, rfl⟩))
              simp only [directives, List.mem_cons, List.not_mem_nil, or_false]
              rintro (h | h | h | h | h | h | h | h | h)
              · exact h1 h
              · exact h2 (Or.inl h)
              · exact h2 (Or.inr h)
              · exact h3 (Or.inl h)
              · exact h3 (Or.inr h)
              · exact h4 (Or.inl h)
              · exact h4 (Or.inr h)
              · exact h5 (Or.inl h)
              · exact h5 (Or.inr h)

theorem input_of_ruleLine {s : Text} (h : RuleLine s) (r : Reader P) : r.input s = r.rule s := by
  have hd := h.no_directive
  simp only [directives, List.mem_cons, List.not_mem_nil, or_false, not_or] at hd
  obtain ⟨h1, h2, h3, h4, h5, h6, h7, h8, h9⟩ := hd
  rw [input, if_neg h1, if_neg (not_or.mpr ⟨h2, h3⟩), if_neg (not_or.mpr ⟨h4, h5⟩),
    if_neg (not_or.mpr ⟨h6, h7⟩), if_neg (not_or.mpr ⟨h8, h9⟩), if_neg h.ne_nil]

/-- A line without a comment. -/
theorem line_of_no_hash {s : Text} (h : '#' ∉ s) (r : Reader P) :
    r.line s = .ok (r.input (trim s)) := by
  rw [line, splitAtFirst_of_not_mem h]
  rfl

theorem line_of_ruleLine {s : Text} (h : RuleLine s) (r : Reader P) : r.line s = .ok (r.rule s) := by
  rw [line_of_no_hash h.no_hash, h.trimmed, input_of_ruleLine h]

theorem lines_append (xs ys : List Text) : ∀ r : Reader P,
    lines (xs ++ ys) r = (lines xs r).bind (lines ys) := by
  induction xs with
  | nil => intro r; rfl
  | cons x xs ih =>
    intro r
    rw [List.cons_append, lines, lines]
    cases r.line x with
    | error e => rfl
    | ok r' => exact ih r'

/-! ### What was read is printable -/

/-- The lists of a reader hold what a printable list may. -/
structure Inv (r : Reader P) : Prop where
  bypassHostnames : ∀ h ∈ r.bypassHostnames, Hostname P h
  proxyHostnames : ∀ h ∈ r.proxyHostnames, Hostname P h
  bypassSubnets : ∀ s ∈ r.bypassSubnets, ParsedSubnet P s
  proxySubnets : ∀ s ∈ r.proxySubnets, ParsedSubnet P s
  urls : ∀ u ∈ r.urls, ParsedUrl P u

theorem inv_start (b : Bool) : (start b : Reader P).Inv := by
  constructor <;> intro x hx <;> exact absurd hx (SortedList.not_mem_empty x)

/-- A property of the items of a list is kept by an addition that has it. -/
theorem forall_mem_add {α : Type} {cb : Callback α} {p : α → Prop} {l : SortedList cb} {x : α}
    (hl : ∀ y ∈ l, p y) (hx : p x) : ∀ y ∈ l.add P.placement x, p y := by
  intro y hy
  cases SortedList.mem_of_mem_add P.placement hy with
  | inl h => exact hl y h
  | inr h => exact h ▸ hx

theorem inv_rule {r : Reader P} (h : r.Inv) {s : Text} (hs : RuleLine s) : (r.rule s).Inv := by
  unfold rule
  split
  · exact h
  · split
    · rename_i hsub
      exact { h with bypassHostnames := forall_mem_add h.bypassHostnames ⟨hs, hsub⟩ }
    · rename_i subnet hsub
      exact { h with
        bypassSubnets := forall_mem_add h.bypassSubnets (Subnet.fromString_eq_some hsub) }
  · split
    · rename_i hsub
      exact { h with proxyHostnames := forall_mem_add h.proxyHostnames ⟨hs, hsub⟩ }
    · rename_i subnet hsub
      exact { h with
        proxySubnets := forall_mem_add h.proxySubnets (Subnet.fromString_eq_some hsub) }

theorem inv_input {r : Reader P} (h : r.Inv) {s : Text} (hhash : '#' ∉ s) (htrim : trim s = s)
    (hline : NoLineEnd s) : (r.input s).Inv := by
  obtain ⟨sec, heq⟩ | ⟨b, heq⟩ | ⟨heq, -⟩ | ⟨hne, hdir, heq⟩ := input_cases r s
  · rw [heq]; exact { h with }
  · rw [heq]; exact { h with }
  · rw [heq]; exact h
  · rw [heq]; exact inv_rule h ⟨hne, hhash, htrim, hdir, hline⟩

theorem networkAclParser_eq_some {s spec : Text} (h : networkAclParser s = some spec) :
    SingleLine spec := by
  unfold networkAclParser at h
  split at h
  · simp at h
  · split at h
    · split at h
      · split at h
        · rename_i hok
          rw [← Option.some.inj h]
          intro c hc
          have hall := List.all_eq_true.mp hok.2 c (List.mem_reverse.mp hc)
          simpa using hall
        · simp at h
      · simp at h
    · simp at h

/-- What the comment of a line can do. -/
theorem comment_ok {r r' : Reader P} {s : Text} (h : r.comment s = .ok r') :
    (networkAclParser s = none ∧ r' = r) ∨
      ∃ spec url, networkAclParser s = some spec ∧ P.urls.parse spec = some url ∧
        r' = { r with urls := r.urls.add P.placement url } := by
  unfold comment at h
  split at h
  · rename_i hnone
    exact Or.inl ⟨hnone, (Except.ok.inj h).symm⟩
  · rename_i spec hspec
    split at h
    · simp at h
    · rename_i url hurl
      exact Or.inr ⟨spec, url, hspec, hurl, (Except.ok.inj h).symm⟩

theorem inv_comment {r r' : Reader P} (hr : r.Inv) {s : Text} (h : r.comment s = .ok r') :
    r'.Inv := by
  obtain ⟨-, rfl⟩ | ⟨spec, url, hspec, hurl, rfl⟩ := comment_ok h
  · exact hr
  · exact { hr with
      urls := forall_mem_add hr.urls ⟨spec, networkAclParser_eq_some hspec, hurl⟩ }

theorem line_ok {r r' : Reader P} {l : Text} (h : r.line l = .ok r') :
    ∃ r₁, r.comment ((splitAtFirst '#' l).2.getD []) = .ok r₁ ∧
      r' = r₁.input (trim (splitAtFirst '#' l).1) := by
  unfold line at h
  split at h
  · simp at h
  · rename_i r₁ hc
    exact ⟨r₁, hc, (Except.ok.inj h).symm⟩

theorem inv_line {r r' : Reader P} (hr : r.Inv) {l : Text} (hl : NoLineEnd l)
    (h : r.line l = .ok r') : r'.Inv := by
  obtain ⟨r₁, hc, rfl⟩ := line_ok h
  have hsub : trim (splitAtFirst '#' l).1 ⊆ (splitAtFirst '#' l).1 := trim_subset _
  refine inv_input (inv_comment hr hc) ?_ (trim_trim _) ?_
  · exact fun hmem => sep_not_mem_splitAtFirst '#' l (hsub hmem)
  · exact hl.subset (List.Subset.trans hsub (splitAtFirst_fst_subset '#' l))

theorem inv_lines {ls : List Text} : ∀ {r r' : Reader P}, r.Inv → (∀ l ∈ ls, NoLineEnd l) →
    lines ls r = .ok r' → r'.Inv := by
  induction ls with
  | nil =>
    intro r r' hr _ h
    rw [← Except.ok.inj h]
    exact hr
  | cons l ls ih =>
    intro r r' hr hls h
    rw [lines] at h
    split at h
    · simp at h
    · rename_i r₁ hline
      exact ih (inv_line hr (hls l List.mem_cons_self) hline)
        (fun m hm => hls m (List.mem_cons_of_mem _ hm)) h

theorem printable_finish {r : Reader P} (h : r.Inv) : r.finish.Printable := by
  refine ⟨h.bypassHostnames, h.proxyHostnames, ?_, h.urls⟩
  intro s hs
  cases SortedList.mem_of_mem_addAll P.placement hs with
  | inl hs => exact absurd hs (SortedList.not_mem_empty s)
  | inr hs =>
    split at hs
    · exact h.proxySubnets s hs
    · exact h.bypassSubnets s hs

end Reader

theorem fromReader_ok {t : Text} {b : Bool} {a : Acl P} (h : fromReader P t b = .ok a) :
    ∃ r, Reader.lines (readLines t) (Reader.start b) = .ok r ∧ a = r.finish := by
  unfold fromReader at h
  split at h
  · simp at h
  · rename_i r hr
    exact ⟨r, hr, (Except.ok.inj h).symm⟩

/-- **A list that was read is printable.** -/
theorem printable_of_fromReader {t : Text} {b : Bool} {a : Acl P} (h : fromReader P t b = .ok a) :
    a.Printable := by
  obtain ⟨r, hr, rfl⟩ := fromReader_ok h
  exact Reader.printable_finish
    (Reader.inv_lines (Reader.inv_start b) (fun _ hl => noLineEnd_of_mem_readLines hl) hr)

/-! ### The printed lines -/

def sectionLines (header : Text) (list : List Text) : List Text :=
  if list = [] then [] else header :: list

def importLine (P : Platform) (url : URL) : Text :=
  '#' :: ("IMPORT_URL <".toList ++ P.urls.toExternalForm url ++ ['>'])

def modeLine (bypass : Bool) : Text :=
  if bypass then "[bypass_all]".toList else "[proxy_all]".toList

def printedLines (a : Acl P) : List Text :=
  modeLine a.bypass :: (sectionLines "[bypass_list]".toList a.bypassList ++
    (sectionLines "[proxy_list]".toList a.proxyList ++ a.urls.data.map (importLine P)))

theorem listText_eq (header : Text) (list : List Text) :
    listText header list = unlines (sectionLines header list) := by
  rw [listText, sectionLines]
  split
  · rfl
  · rename_i hne
    rw [List.append_assoc (header ++ ['\n']), join_newline hne]
    rfl

theorem importText_eq (us : List URL) :
    us.flatMap (importText (P := P)) = unlines (us.map (importLine P)) := by
  rw [unlines, List.flatMap_map]
  congr 1
  funext u
  show "#IMPORT_URL <".toList ++ P.urls.toExternalForm u ++ ">\n".toList =
    '#' :: ("IMPORT_URL <".toList ++ P.urls.toExternalForm u ++ ['>']) ++ ['\n']
  rw [show "#IMPORT_URL <".toList = '#' :: "IMPORT_URL <".toList from by decide,
    show ">\n".toList = ['>'] ++ ['\n'] from by decide]
  simp only [List.cons_append, List.append_assoc]

theorem toString_eq_unlines (a : Acl P) : a.toString = unlines a.printedLines := by
  have hmode : (if a.bypass then "[bypass_all]\n" else "[proxy_all]\n").toList =
      modeLine a.bypass ++ ['\n'] := by
    cases a.bypass <;> decide
  rw [toString, hmode, listText_eq, listText_eq, importText_eq, printedLines]
  show _ = (modeLine a.bypass ++ ['\n']) ++ unlines _
  rw [unlines_append, unlines_append, List.append_assoc, List.append_assoc]

/-- The texts of subnets are rules. -/
theorem ruleLine_subnet {s : Subnet} (h : ParsedSubnet P s) :
    RuleLine (s.toString P.addresses) := by
  obtain ⟨text, h⟩ := h
  have hmem : ∀ c ∈ s.toString P.addresses, isAddressChar c = true ∨ c = '/' :=
    fun c hc => Subnet.mem_toString h hc
  have hspace : ∀ c ∈ s.toString P.addresses, isWhitespace c = false :=
    fun c hc => Subnet.not_whitespace_of_addressChar (hmem c hc)
  refine ⟨Subnet.toString_ne_nil h, ?_, ?_, ?_, ?_⟩
  · intro hc
    exact absurd (hmem _ hc) (by decide)
  · exact trim_eq_self (fun c hc => hspace c (List.mem_of_mem_head? hc))
      (fun c hc => hspace c (List.mem_of_getLast? hc))
  · intro hd
    have hbracket : ∀ d ∈ directives, '[' ∈ d := by decide
    exact absurd (hmem _ (hbracket _ hd)) (by decide)
  · exact ⟨fun hc => absurd (hmem _ hc) (by decide), fun hc => absurd (hmem _ hc) (by decide)⟩

/-! ### Reading the printed lines -/

namespace Reader

/-- Add host names and subnets to the lists of a section. -/
def put (r : Reader P) (hs : List Text) (ss : List Subnet) : Reader P :=
  match r.current with
  | .block => r
  | .bypass =>
      { r with
        bypassHostnames := r.bypassHostnames.addAll P.placement hs
        bypassSubnets := r.bypassSubnets.addAll P.placement ss }
  | .proxy =>
      { r with
        proxyHostnames := r.proxyHostnames.addAll P.placement hs
        proxySubnets := r.proxySubnets.addAll P.placement ss }

@[simp] theorem put_current (r : Reader P) (hs : List Text) (ss : List Subnet) :
    (r.put hs ss).current = r.current := by
  unfold put
  split <;> simp_all

theorem put_nil (r : Reader P) : r.put [] [] = r := by
  unfold put
  split <;> rfl

theorem put_put (r : Reader P) (hs hs' : List Text) (ss ss' : List Subnet) :
    (r.put hs ss).put hs' ss' = r.put (hs ++ hs') (ss ++ ss') := by
  have hc := put_current r hs ss
  cases hr : r.current <;> rw [hr] at hc <;>
    simp only [put, hr, SortedList.addAll_append]

theorem line_hostname {h : Text} (hh : Hostname P h) (r : Reader P) :
    r.line h = .ok (r.put [h] []) := by
  rw [line_of_ruleLine hh.toRuleLine, rule, hh.no_subnet, put]
  cases r.current <;> rfl

theorem line_subnet {s : Subnet} (hs : ParsedSubnet P s) (r : Reader P) :
    r.line (s.toString P.addresses) = .ok (r.put [] [s]) := by
  have hparse : Subnet.fromString P.addresses (s.toString P.addresses) = some s := by
    obtain ⟨text, h⟩ := hs
    exact Subnet.fromString_toString h
  rw [line_of_ruleLine (ruleLine_subnet hs), rule, hparse, put]
  cases r.current <;> rfl

theorem lines_hostnames {hs : List Text} (h : ∀ x ∈ hs, Hostname P x) : ∀ r : Reader P,
    lines hs r = .ok (r.put hs []) := by
  induction hs with
  | nil => intro r; rw [put_nil]; rfl
  | cons x hs ih =>
    intro r
    rw [lines, line_hostname (h x List.mem_cons_self)]
    show lines hs (r.put [x] []) = _
    rw [ih (fun y hy => h y (List.mem_cons_of_mem _ hy)), put_put]
    rfl

theorem lines_subnets {ss : List Subnet} (h : ∀ s ∈ ss, ParsedSubnet P s) : ∀ r : Reader P,
    lines (ss.map (Subnet.toString P.addresses)) r = .ok (r.put [] ss) := by
  induction ss with
  | nil => intro r; rw [put_nil]; rfl
  | cons s ss ih =>
    intro r
    rw [List.map_cons, lines, line_subnet (h s List.mem_cons_self)]
    show lines _ (r.put [] [s]) = _
    rw [ih (fun y hy => h y (List.mem_cons_of_mem _ hy)), put_put]
    rfl

theorem lines_rules {ss : List Subnet} {hs : List Text} (hss : ∀ s ∈ ss, ParsedSubnet P s)
    (hhs : ∀ x ∈ hs, Hostname P x) (r : Reader P) :
    lines (ss.map (Subnet.toString P.addresses) ++ hs) r = .ok (r.put hs ss) := by
  rw [lines_append, lines_subnets hss]
  show lines hs (r.put [] ss) = _
  rw [lines_hostnames hhs, put_put, List.nil_append, List.append_nil]

/-- A section that is written, or left out because it is empty, adds its rules to its lists. -/
theorem lines_section {header : Text} {sec : Section} {ss : List Subnet} {hs : List Text}
    (hheader : ∀ r : Reader P, r.line header = .ok { r with current := sec })
    (hss : ∀ s ∈ ss, ParsedSubnet P s) (hhs : ∀ x ∈ hs, Hostname P x) (r : Reader P) :
    ∃ sec', lines (sectionLines header (ss.map (Subnet.toString P.addresses) ++ hs)) r =
      .ok { Reader.put { r with current := sec } hs ss with current := sec' } := by
  rw [sectionLines]
  split
  · rename_i hnil
    obtain ⟨hs1, hs2⟩ := List.append_eq_nil_iff.mp hnil
    rw [List.map_eq_nil_iff] at hs1
    refine ⟨r.current, ?_⟩
    rw [hs1, hs2, put_nil]
    rfl
  · refine ⟨sec, ?_⟩
    rw [lines, hheader]
    show lines _ { r with current := sec } = _
    rw [lines_rules hss hhs]
    have hc := put_current { r with current := sec } hs ss
    generalize Reader.put { r with current := sec } hs ss = r' at hc
    cases r'
    cases hc
    rfl

theorem line_bypassList (r : Reader P) :
    r.line "[bypass_list]".toList = .ok { r with current := .bypass } := by
  rw [line_of_no_hash (by decide), show trim "[bypass_list]".toList = "[bypass_list]".toList by decide,
    input, if_neg (by decide), if_pos (by decide)]

theorem line_proxyList (r : Reader P) :
    r.line "[proxy_list]".toList = .ok { r with current := .proxy } := by
  rw [line_of_no_hash (by decide), show trim "[proxy_list]".toList = "[proxy_list]".toList by decide,
    input, if_neg (by decide), if_neg (by decide), if_pos (by decide)]

theorem line_mode (b : Bool) (r : Reader P) : r.line (modeLine b) = .ok { r with bypass := b } := by
  cases b with
  | true =>
    show r.line "[bypass_all]".toList = _
    rw [line_of_no_hash (by decide), show trim "[bypass_all]".toList = "[bypass_all]".toList by decide,
      input, if_neg (by decide), if_neg (by decide), if_neg (by decide), if_pos (by decide)]
  | false =>
    show r.line "[proxy_all]".toList = _
    rw [line_of_no_hash (by decide), show trim "[proxy_all]".toList = "[proxy_all]".toList by decide,
      input, if_neg (by decide), if_neg (by decide), if_neg (by decide), if_neg (by decide),
      if_pos (by decide)]

theorem dropLiteral_append (lit s : Text) : dropLiteral lit (lit ++ s) = some s := by
  induction lit with
  | nil => rfl
  | cons c lit ih => rw [List.cons_append, dropLiteral, if_pos rfl, ih]

theorem networkAclParser_import {s : Text} (hne : s ≠ []) (hs : SingleLine s) :
    networkAclParser ("IMPORT_URL <".toList ++ s ++ ['>']) = some s := by
  have hcut : "IMPORT_URL <".toList ++ s ++ ['>'] = "IMPORT_URL".toList ++ (' ' :: '<' :: s ++ ['>']) := by
    rw [show "IMPORT_URL <".toList = "IMPORT_URL".toList ++ [' ', '<'] from by decide]
    simp
  have hspace : (' ' :: '<' :: s ++ ['>']).dropWhile isRegexSpace = '<' :: (s ++ ['>']) := by
    show (' ' :: '<' :: (s ++ ['>'])).dropWhile isRegexSpace = _
    rw [List.dropWhile_cons, if_pos (by decide), List.dropWhile_cons, if_neg (by decide)]
  have hback : (s ++ ['>']).reverse.dropWhile isRegexSpace = '>' :: s.reverse := by
    rw [List.reverse_append]
    show ('>' :: s.reverse).dropWhile isRegexSpace = _
    rw [List.dropWhile_cons, if_neg (by decide)]
  have hall : s.reverse ≠ [] ∧ s.reverse.all (fun c => !isLineTerminator c) = true := by
    refine ⟨by simpa using hne, List.all_eq_true.mpr ?_⟩
    intro c hc
    rw [hs c (List.mem_reverse.mp hc)]
    rfl
  rw [networkAclParser, hcut, dropLiteral_append]
  simp only [hspace, hback, if_pos hall, List.reverse_reverse]

theorem line_import {u : URL} (hu : ParsedUrl P u) (r : Reader P) :
    r.line (importLine P u) = .ok { r with urls := r.urls.add P.placement u } := by
  obtain ⟨spec, hsl, hspec⟩ := hu
  have hparse := P.urls.parse_toExternalForm hspec
  have hne : P.urls.toExternalForm u ≠ [] := by
    intro he
    rw [he, P.urls.parse_empty] at hparse
    exact absurd hparse (by simp)
  have hmatch := networkAclParser_import hne (P.urls.toExternalForm_singleLine hspec hsl)
  have hsplit : splitAtFirst '#' (importLine P u) =
      ([], some ("IMPORT_URL <".toList ++ P.urls.toExternalForm u ++ ['>'])) := by
    rw [importLine, splitAtFirst, if_pos rfl]
  have hcomment : r.comment ("IMPORT_URL <".toList ++ P.urls.toExternalForm u ++ ['>']) =
      .ok { r with urls := r.urls.add P.placement u } := by
    rw [comment, hmatch]
    simp only [hparse]
  rw [line, hsplit, Option.getD_some, hcomment]
  show Except.ok (input _ (trim [])) = _
  rw [show trim [] = [] from rfl, input, if_neg (by decide), if_neg (by decide), if_neg (by decide),
    if_neg (by decide), if_neg (by decide), if_pos rfl]

theorem lines_imports {us : List URL} (h : ∀ u ∈ us, ParsedUrl P u) : ∀ r : Reader P,
    lines (us.map (importLine P)) r = .ok { r with urls := r.urls.addAll P.placement us } := by
  induction us with
  | nil => intro r; rfl
  | cons u us ih =>
    intro r
    rw [List.map_cons, lines, line_import (h u List.mem_cons_self)]
    exact ih (fun v hv => h v (List.mem_cons_of_mem _ hv)) _

end Reader

theorem bypassList_eq (a : Acl P) : a.bypassList =
    (if a.bypass then [] else a.subnets.data).map (Subnet.toString P.addresses) ++
      a.bypassHostnames.data := by
  rw [bypassList]
  cases a.bypass <;> rfl

theorem proxyList_eq (a : Acl P) : a.proxyList =
    (if a.bypass then a.subnets.data else []).map (Subnet.toString P.addresses) ++
      a.proxyHostnames.data := by
  rw [proxyList]
  cases a.bypass <;> rfl

theorem noLineEnd_printedLines {a : Acl P} (h : a.Printable) : ∀ l ∈ a.printedLines, NoLineEnd l := by
  have hmode : NoLineEnd (modeLine a.bypass) := by
    cases a.bypass <;> exact ⟨by decide, by decide⟩
  have hrules : ∀ (header : Text) (ss : List Subnet) (hs : List Text), NoLineEnd header →
      (∀ s ∈ ss, ParsedSubnet P s) → (∀ x ∈ hs, Hostname P x) →
      ∀ l ∈ sectionLines header (ss.map (Subnet.toString P.addresses) ++ hs), NoLineEnd l := by
    intro header ss hs hheader hss hhs l hl
    rw [sectionLines] at hl
    split at hl
    · simp at hl
    · rw [List.mem_cons, List.mem_append] at hl
      obtain rfl | hl | hl := hl
      · exact hheader
      · obtain ⟨s, hs, rfl⟩ := List.mem_map.mp hl
        exact (ruleLine_subnet (hss s hs)).noLineEnd
      · exact (hhs l hl).noLineEnd
  intro l hl
  rw [printedLines, bypassList_eq, proxyList_eq, List.mem_cons, List.mem_append,
    List.mem_append] at hl
  obtain rfl | hl | hl | hl := hl
  · exact hmode
  · refine hrules _ _ _ ⟨by decide, by decide⟩ ?_ h.bypassHostnames l hl
    cases a.bypass
    · exact h.subnets
    · simp
  · refine hrules _ _ _ ⟨by decide, by decide⟩ ?_ h.proxyHostnames l hl
    cases a.bypass
    · simp
    · exact h.subnets
  · obtain ⟨u, hu, rfl⟩ := List.mem_map.mp hl
    obtain ⟨spec, hsl, hspec⟩ := h.urls u hu
    have ht := (P.urls.toExternalForm_singleLine hspec hsl).noLineEnd
    constructor <;> simp [importLine, ht.1, ht.2]

/-- **A printable list is read back**; its URLs are added again in the order they stand in. -/
theorem fromReader_toString {a : Acl P} (h : a.Printable) (b : Bool) :
    fromReader P a.toString b =
      .ok { a with urls := SortedList.empty.addAll P.placement a.urls.data } := by
  have hbs : ∀ s ∈ (if a.bypass then [] else a.subnets.data), ParsedSubnet P s := by
    cases a.bypass
    · exact h.subnets
    · simp
  have hps : ∀ s ∈ (if a.bypass then a.subnets.data else []), ParsedSubnet P s := by
    cases a.bypass
    · simp
    · exact h.subnets
  rw [fromReader, toString_eq_unlines, readLines_unlines (noLineEnd_printedLines h), printedLines,
    bypassList_eq, proxyList_eq, Reader.lines, Reader.line_mode]
  obtain ⟨sec₁, h₁⟩ := Reader.lines_section Reader.line_bypassList hbs h.bypassHostnames
    { (Reader.start b : Reader P) with bypass := a.bypass }
  simp only [Reader.lines_append, h₁, Except.bind]
  obtain ⟨sec₂, h₂⟩ := Reader.lines_section Reader.line_proxyList hps h.proxyHostnames
    { Reader.put { (Reader.start b : Reader P) with bypass := a.bypass, current := .bypass }
        a.bypassHostnames.data (if a.bypass then [] else a.subnets.data) with current := sec₁ }
  simp only [h₂, Reader.lines_imports h.urls]
  -- what is left is to collect the lists
  simp only [Reader.finish, Reader.put, Reader.start]
  have hbh := SortedList.addAll_data_of_strict P.placement stringSorter_strict a.bypassHostnames
  have hph := SortedList.addAll_data_of_strict P.placement stringSorter_strict a.proxyHostnames
  have hsub := SortedList.addAll_data_of_strict P.placement subnetSorter_strict a.subnets
  rw [hbh, hph]
  cases hb : a.bypass <;> simp [hsub]

/-! ### The imports of a text -/

/-- The URL that a line imports. -/
def importOf (P : Platform) (l : Text) : Option URL :=
  (networkAclParser ((splitAtFirst '#' l).2.getD [])).bind P.urls.parse

def imports (P : Platform) (t : Text) : List URL := (readLines t).filterMap (importOf P)

/-- Two URLs that agree in host, port, file and protocol have the same fragment. -/
def FragmentsAgree (us : List URL) : Prop :=
  ∀ u ∈ us, ∀ v ∈ us, urlOrdering u v = .eq → u.ref = v.ref

/-- Equal URLs agree in host, port, file and protocol: no host is written in two ways, no port
once given and once left to the default. -/
def SpelledAlike (P : Platform) (us : List URL) : Prop :=
  ∀ u ∈ us, ∀ v ∈ us, u.equals P.urls v = true → urlOrdering u v = .eq

namespace Reader

theorem rule_urls (r : Reader P) (s : Text) : (r.rule s).urls = r.urls := by
  unfold rule
  split
  · rfl
  · split <;> rfl
  · split <;> rfl

theorem input_urls (r : Reader P) (s : Text) : (r.input s).urls = r.urls := by
  obtain ⟨sec, heq⟩ | ⟨b, heq⟩ | ⟨heq, -⟩ | ⟨-, -, heq⟩ := input_cases r s
  · rw [heq]
  · rw [heq]
  · rw [heq]
  · rw [heq, rule_urls]

theorem line_urls {r r' : Reader P} {l : Text} (h : r.line l = .ok r') :
    r'.urls = r.urls.addAll P.placement (importOf P l).toList := by
  obtain ⟨r₁, hc, rfl⟩ := line_ok h
  rw [input_urls, importOf]
  obtain ⟨hnone, rfl⟩ | ⟨spec, url, hspec, hurl, rfl⟩ := comment_ok hc
  · rw [hnone]
    rfl
  · rw [hspec, Option.bind_some, hurl]
    rfl

theorem lines_urls {ls : List Text} : ∀ {r r' : Reader P}, lines ls r = .ok r' →
    r'.urls = r.urls.addAll P.placement (ls.filterMap (importOf P)) := by
  induction ls with
  | nil =>
    intro r r' h
    rw [← Except.ok.inj h]
    rfl
  | cons l ls ih =>
    intro r r' h
    rw [lines] at h
    split at h
    · simp at h
    · rename_i r₁ hline
      rw [ih h, line_urls hline, ← SortedList.addAll_append, List.filterMap_cons]
      cases importOf P l <;> rfl

end Reader

theorem urls_fromReader {t : Text} {b : Bool} {a : Acl P} (h : fromReader P t b = .ok a) :
    a.urls = SortedList.empty.addAll P.placement (imports P t) := by
  obtain ⟨r, hr, rfl⟩ := fromReader_ok h
  exact Reader.lines_urls hr

/-- URLs whose fragments agree leave no ties. -/
theorem noTies_of_fragmentsAgree {l : SortedList (urlSorter P.urls)} {us : List URL}
    (h : FragmentsAgree (l.data ++ us)) :
    (urlSorter P.urls).NoTies (l.addAll P.placement us).data := by
  have hmem : ∀ u ∈ l.addAll P.placement us, u ∈ l.data ++ us :=
    fun u hu => List.mem_append.mpr (SortedList.mem_of_mem_addAll P.placement hu)
  refine List.Pairwise.imp_of_mem ?_ (SortedList.distinct _)
  intro u v hu hv hdup htie
  refine hdup ⟨htie, (equals_of_tie P.urls htie).mpr ?_⟩
  exact h u (hmem u hu) v (hmem v hv) htie

/-- Without ties the fragments agree: every URL is there, or an equal one in its place. -/
theorem fragmentsAgree_of_noTies {l : SortedList (urlSorter P.urls)} {us : List URL}
    (halike : SpelledAlike P (l.data ++ us))
    (h : (urlSorter P.urls).NoTies (l.addAll P.placement us).data) :
    FragmentsAgree (l.data ++ us) := by
  have hrep : ∀ u ∈ l.data ++ us, ∃ z ∈ l.addAll P.placement us, (urlSorter P.urls).Dup z u := by
    intro u hu
    refine SortedList.exists_dup_addAll P.placement ?_ ?_
    · intro x hx z hz
      exact halike z (List.mem_append.mpr hz) x (List.mem_append_right _ hx)
    · exact (List.mem_append.mp hu).imp_left fun hu => ⟨u, hu, Callback.Dup.refl u⟩
  intro u hu v hv htie
  obtain ⟨u', hu', hdu⟩ := hrep u hu
  obtain ⟨v', hv', hdv⟩ := hrep v hv
  have : Std.Symm fun x y : URL => urlOrdering x y ≠ .eq :=
    ⟨fun x y hne hyx => hne (Std.OrientedCmp.eq_symm hyx)⟩
  have htie' : urlOrdering u' v' = .eq :=
    Std.TransCmp.eq_trans (Std.TransCmp.eq_trans hdu.1 htie) (Std.OrientedCmp.eq_symm hdv.1)
  have heq : u' = v' := by
    by_contra hne
    exact List.Pairwise.forall (R := fun x y => urlOrdering x y ≠ .eq) h hu' hv' hne htie'
  have hru : u'.ref = u.ref := (equals_of_tie P.urls hdu.1).mp hdu.2
  have hrv : v'.ref = v.ref := (equals_of_tie P.urls hdv.1).mp hdv.2
  rw [← hru, ← hrv, heq]

/-- The list comes back from its text, whatever the default mode, and is then printed as before. -/
def RoundTrips (a : Acl P) : Prop :=
  ∀ b, fromReader P a.toString b = .ok a ∧ (fromReader P a.toString b).map toString = .ok a.toString

theorem roundTrips_iff {a : Acl P} (h : a.Printable) :
    a.RoundTrips ↔ SortedList.empty.addAll P.placement a.urls.data = a.urls := by
  constructor
  · intro hrt
    have h' := (hrt true).1
    rw [fromReader_toString h] at h'
    exact congrArg Acl.urls (Except.ok.inj h')
  · intro hurls b
    rw [fromReader_toString h, hurls]
    exact ⟨rfl, rfl⟩

/-- **Print and parse of a list that was read.**  It comes back whole if the fragments of the
imports agree; and, with the binary search placing the items, only then, where equal imports are
spelled alike. -/
theorem print_parse (P : Platform) (t : Text) (b : Bool) (a : Acl P)
    (h : fromReader P t b = .ok a) :
    (FragmentsAgree (imports P t) → a.RoundTrips) ∧
      (P.placement = .bisect → SpelledAlike P (imports P t) →
        (a.RoundTrips ↔ FragmentsAgree (imports P t))) := by
  have hprint := printable_of_fromReader h
  have hurls := urls_fromReader h
  have hsuff : FragmentsAgree (imports P t) → a.RoundTrips := by
    intro hagree
    refine (roundTrips_iff hprint).mpr (SortedList.addAll_data P.placement ?_)
    rw [hurls]
    exact noTies_of_fragmentsAgree (l := .empty) hagree
  refine ⟨hsuff, fun hbisect halike => ⟨fun hrt => ?_, hsuff⟩⟩
  have hback := (roundTrips_iff hprint).mp hrt
  rw [hbisect] at hback
  have hties := (SortedList.addAll_data_bisect_iff a.urls).mp hback
  rw [hurls] at hties
  exact fragmentsAgree_of_noTies (l := .empty) halike hties

theorem ten_size : ([10, 0, 0, 0] : List UInt8).length = 4 ∨
    ([10, 0, 0, 0] : List UInt8).length = 16 := Or.inl rfl

theorem ten_ne_nil : "10.0.0.0".toList ≠ [] := by decide

theorem ten_chars : ∀ c ∈ "10.0.0.0".toList, isAddressChar c = true :=
  List.all_eq_true.mp (by decide)

/-- A platform that knows `10.0.0.0` and three URLs, two of which differ in their fragment. -/
def sample : Platform where
  placement := .bisect
  addresses := .only "10.0.0.0".toList ⟨[10, 0, 0, 0], ten_size⟩ ten_ne_nil ten_chars
  urls := .ofTable
    [("http://a/x#1".toList, ⟨"http".toList, "a".toList, "a".toList, -1, "/x".toList, some ['1']⟩),
      ("http://a/x#2".toList, ⟨"http".toList, "a".toList, "a".toList, -1, "/x".toList, some ['2']⟩),
      ("http://a/y".toList, ⟨"http".toList, "a".toList, "a".toList, -1, "/y".toList, none⟩)]
    (by
      simp only [List.mem_cons, List.not_mem_nil, or_false, forall_eq_or_imp, forall_eq]
      exact ⟨⟨_, rfl, rfl⟩, ⟨_, rfl, rfl⟩, ⟨_, rfl, rfl⟩⟩)
    (by
      simp only [List.mem_cons, List.not_mem_nil, or_false, forall_eq_or_imp, forall_eq]
      decide)

def sampleText : Text :=
  ("a.b # c\n10.0.0.0/8\n[proxy_list]\nx.y\n#IMPORT_URL <http://a/y>\n" ++
    "#IMPORT_URL <http://a/x#1>").toList

/-- A list with a rule of each kind comes back. -/
theorem print_parse_sample :
    ∃ a, fromReader sample sampleText false = .ok a ∧ a.RoundTrips := by
  have hok : (fromReader sample sampleText false).isOk = true := by decide +kernel
  have hagree : ∀ u ∈ imports sample sampleText, ∀ v ∈ imports sample sampleText,
      urlOrdering u v = .eq → u.ref = v.ref := by decide +kernel
  cases h : fromReader sample sampleText false with
  | error e => rw [h] at hok; exact absurd hok Bool.false_ne_true
  | ok a => exact ⟨a, rfl, (print_parse sample sampleText false a h).1 hagree⟩

def sampleFragments : Text := "#IMPORT_URL <http://a/x#1>\n#IMPORT_URL <http://a/x#2>".toList

/-- Two imports that differ in their fragment change places. -/
theorem print_parse_fragments :
    ¬∀ a, fromReader sample sampleFragments false = .ok a → a.RoundTrips := by
  intro h
  have hflip : (fromReader sample sampleFragments false).bind
        (fun a => fromReader sample a.toString false) ≠
      fromReader sample sampleFragments false := by
    decide +kernel
  cases hr : fromReader sample sampleFragments false with
  | error e => rw [hr] at hflip; exact hflip rfl
  | ok a =>
    rw [hr] at hflip
    exact hflip (h a hr false).1

end Acl

end SsAndroid
