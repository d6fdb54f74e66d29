import SsAndroid.Acl.RoundTrip

/-!
# The mode of a list and what it selects

A line of a list is a header, a mode directive or a rule (`LineKind`).  `fromReader` collects the
subnets of both lists while it reads and selects one of them behind the last line, so that a directive
counts wherever it stands, and only the last one does.

`rules` are the rules of a text with the section each of them stands in; before the first header that
is the section of the default mode.  **`fromReader_modes`**: all directives but the last may be
deleted, and that one may stand anywhere; the subnets that are kept are those of the section that
belongs to the last mode, and the host names of both sections are kept, whatever the mode is.
-/

namespace SsAndroid

open Text

namespace Acl

variable {P : Platform}

inductive LineKind
  | header (sec : Section)
  | mode (bypass : Bool)
  | rule (input : Text)
  | blank

/-- What the text in front of the comment is. -/
def classify (input : Text) : LineKind :=
  if input = "[outbound_block_list]".toList then .header .block
  else if input = "[black_list]".toList ∨ input = "[bypass_list]".toList then .header .bypass
  else if input = "[white_list]".toList ∨ input = "[proxy_list]".toList then .header .proxy
  else if input = "[reject_all]".toList ∨ input = "[bypass_all]".toList then .mode true
  else if input = "[accept_all]".toList ∨ input = "[proxy_all]".toList then .mode false
  else if input = [] then .blank
  else .rule input

def lineKind (line : Text) : LineKind := classify (trim (splitAtFirst '#' line).1)

/-- The mode that a line sets. -/
def modeOf (line : Text) : Option Bool :=
  match lineKind line with
  | .mode bypass => some bypass
  | _ => none

def isMode (line : Text) : Bool := (modeOf line).isSome

/-- The comment of the line asks for an import. -/
def HasImport (line : Text) : Prop := networkAclParser ((splitAtFirst '#' line).2.getD []) ≠ none

instance (line : Text) : Decidable (HasImport line) := inferInstanceAs (Decidable (_ ≠ _))

/-- The mode behind the last line. -/
def lastMode (lines : List Text) (defaultBypass : Bool) : Bool :=
  (lines.filterMap modeOf).getLast?.getD defaultBypass

theorem lastMode_of_getLast {ls : List Text} {d : Text} {b : Bool}
    (h : (ls.filter isMode).getLast? = some d) : lastMode ls b = (modeOf d).getD b := by
  have hmodes : ls.filterMap modeOf = (ls.filter isMode).filterMap modeOf := by
    rw [List.filterMap_filter]
    apply List.filterMap_congr
    intro l _
    cases hl : modeOf l with
    | none => simp [isMode, hl]
    | some m => simp [isMode, hl]
  obtain ⟨ls', hls⟩ := List.getLast?_eq_some_iff.mp h
  obtain ⟨m, hm⟩ := Option.isSome_iff_exists.mp
    (List.mem_filter.mp (List.mem_of_getLast? h)).2
  rw [lastMode, hmodes, hls, List.filterMap_append, List.filterMap_cons_some hm, hm,
    List.filterMap_nil, List.getLast?_concat]

/-- The section that belongs to a mode: its subnets are kept, and rules before any header stand in the
one of the default mode. -/
def modeSection (bypass : Bool) : Section := if bypass then .proxy else .bypass

/-- The rules of a text, each with the section it stands in. -/
def rules : Section → List Text → List (Section × Text)
  | _, [] => []
  | current, l :: ls =>
      match lineKind l with
      | .header sec => rules sec ls
      | .rule input => (current, input) :: rules current ls
      | _ => rules current ls

namespace Reader

/-- What a reader does with a line of each kind. -/
def apply (r : Reader P) : LineKind → Reader P
  | .header sec => { r with current := sec }
  | .mode bypass => { r with bypass := bypass }
  | .rule input => r.rule input
  | .blank => r

theorem input_eq (r : Reader P) (s : Text) : r.input s = r.apply (classify s) := by
  rw [input, classify]
  split_ifs <;> rfl

theorem line_eq (r : Reader P) (l : Text) :
    r.line l = (r.comment ((splitAtFirst '#' l).2.getD [])).map fun r => r.apply (lineKind l) := by
  rw [line, lineKind]
  cases r.comment ((splitAtFirst '#' l).2.getD []) with
  | error e => rfl
  | ok r' => exact congrArg Except.ok (input_eq r' _)

/-! ### Deleting directives -/

def setBypass (b : Bool) (r : Reader P) : Reader P := { r with bypass := b }

theorem modeOf_eq_some {l : Text} {b : Bool} (h : modeOf l = some b) : lineKind l = .mode b := by
  rw [modeOf] at h
  split at h
  · rename_i hkind
    rw [hkind, Option.some.inj h]
  · exact absurd h (by simp)

/-- A directive without an import sets the mode and does nothing else. -/
theorem line_modeOf {l : Text} {b : Bool} (h : modeOf l = some b) (himport : ¬ HasImport l)
    (r : Reader P) : r.line l = .ok (r.setBypass b) := by
  rw [line_eq, comment, not_not.mp himport, modeOf_eq_some h]
  rfl

theorem comment_setBypass (b : Bool) (r : Reader P) (s : Text) :
    (r.setBypass b).comment s = (r.comment s).map (setBypass b) := by
  rw [comment, comment]
  cases networkAclParser s with
  | none => rfl
  | some spec =>
    cases hurl : P.urls.parse spec with
    | none => simp [hurl, Except.map]
    | some url => simp [hurl, Except.map, setBypass]

theorem rule_setBypass (b : Bool) (r : Reader P) (s : Text) :
    (r.setBypass b).rule s = (r.rule s).setBypass b := by
  obtain ⟨bypassHostnames, proxyHostnames, bypassSubnets, proxySubnets, urls, bypass, current⟩ := r
  cases current <;> cases h : Subnet.fromString P.addresses s <;> simp [rule, setBypass, h]

/-- Every other line does the same in both modes. -/
theorem line_setBypass {l : Text} (h : modeOf l = none) (b : Bool) (r : Reader P) :
    (r.setBypass b).line l = (r.line l).map (setBypass b) := by
  have happly : ∀ r : Reader P,
      (r.setBypass b).apply (lineKind l) = (r.apply (lineKind l)).setBypass b := by
    intro r
    cases hkind : lineKind l with
    | header sec => rfl
    | mode m => rw [modeOf, hkind] at h; exact absurd h (by simp)
    | rule input => exact rule_setBypass b r input
    | blank => rfl
  rw [line_eq, line_eq, comment_setBypass]
  cases r.comment ((splitAtFirst '#' l).2.getD []) with
  | error e => rfl
  | ok r' => exact congrArg Except.ok (happly r')

theorem rule_bypass (r : Reader P) (s : Text) : (r.rule s).bypass = r.bypass := by
  rw [rule]
  cases r.current <;> cases Subnet.fromString P.addresses s <;> rfl

theorem comment_bypass {r r' : Reader P} {s : Text} (h : r.comment s = .ok r') :
    r'.bypass = r.bypass := by
  obtain ⟨-, rfl⟩ | ⟨spec, url, -, -, rfl⟩ := comment_ok h
  · rfl
  · rfl

/-- The mode after a line. -/
theorem line_bypass {r r' : Reader P} {l : Text} (h : r.line l = .ok r') :
    r'.bypass = (modeOf l).getD r.bypass := by
  obtain ⟨r₁, hc, rfl⟩ := line_ok h
  rw [input_eq, ← comment_bypass hc, modeOf, ← lineKind]
  cases lineKind l with
  | rule input => exact rule_bypass r₁ input
  | _ => rfl

theorem lines_setBypass {ls : List Text} (h : ∀ l ∈ ls, modeOf l = none) (b : Bool) :
    ∀ r : Reader P, lines ls (r.setBypass b) = (lines ls r).map (setBypass b) := by
  induction ls with
  | nil => intro r; rfl
  | cons l ls ih =>
    intro r
    rw [List.forall_mem_cons] at h
    rw [lines, lines, line_setBypass h.1]
    cases r.line l with
    | error e => rfl
    | ok r' => exact ih h.2 r'

/-- **Only the last directive counts**, and it counts for all lines. -/
theorem lines_modes {ls : List Text} (h : ∀ l ∈ ls, isMode l = true → ¬ HasImport l) :
    ∀ r : Reader P, lines ls r =
      (lines (ls.filter fun l => !isMode l) r).map (setBypass (lastMode ls r.bypass)) := by
  induction ls with
  | nil => intro r; rfl
  | cons l ls ih =>
    intro r
    rw [List.forall_mem_cons] at h
    cases hmode : modeOf l with
    | some b =>
      have hl : isMode l = true := by rw [isMode, hmode]; rfl
      have hlast : lastMode (l :: ls) r.bypass = lastMode ls b := by
        rw [lastMode, lastMode, List.filterMap_cons_some hmode, List.getLast?_cons]
        rfl
      have hothers : ∀ m ∈ ls.filter (fun l => !isMode l), modeOf m = none := by
        intro m hm
        have := (List.mem_filter.mp hm).2
        simpa [isMode] using this
      rw [lines, line_modeOf hmode (h.1 hl), List.filter_cons_of_neg (by simp [hl]), hlast]
      simp only
      rw [ih h.2, lines_setBypass hothers]
      cases lines (ls.filter fun l => !isMode l) r <;> rfl
    | none =>
      have hl : isMode l = false := by rw [isMode, hmode]; rfl
      have hlast : lastMode (l :: ls) r.bypass = lastMode ls r.bypass := by
        rw [lastMode, lastMode, List.filterMap_cons_none hmode]
      rw [List.filter_cons_of_pos (by simp [hl]), lines, lines, hlast]
      cases hline : r.line l with
      | error e => rfl
      | ok r' =>
        have hsame : r'.bypass = r.bypass := by rw [line_bypass hline, hmode]; rfl
        simp only
        rw [ih h.2 r', hsame]

/-! ### What is collected -/

/-- From one reader to another, the rules `rs` were collected. -/
structure Collects (r r' : Reader P) (rs : List (Section × Text)) : Prop where
  bypassHostnames : ∀ x, x ∈ r'.bypassHostnames ↔
    x ∈ r.bypassHostnames ∨ (.bypass, x) ∈ rs ∧ Subnet.fromString P.addresses x = none
  proxyHostnames : ∀ x, x ∈ r'.proxyHostnames ↔
    x ∈ r.proxyHostnames ∨ (.proxy, x) ∈ rs ∧ Subnet.fromString P.addresses x = none
  bypassSubnets : ∀ s, s ∈ r'.bypassSubnets ↔
    s ∈ r.bypassSubnets ∨ ∃ x, (.bypass, x) ∈ rs ∧ Subnet.fromString P.addresses x = some s
  proxySubnets : ∀ s, s ∈ r'.proxySubnets ↔
    s ∈ r.proxySubnets ∨ ∃ x, (.proxy, x) ∈ rs ∧ Subnet.fromString P.addresses x = some s

theorem Collects.trans {r₁ r₂ r₃ : Reader P} {rs rs' : List (Section × Text)}
    (h : Collects r₁ r₂ rs) (h' : Collects r₂ r₃ rs') : Collects r₁ r₃ (rs ++ rs') := by
  constructor
  · intro x
    rw [h'.bypassHostnames, h.bypassHostnames, List.mem_append]
    tauto
  · intro x
    rw [h'.proxyHostnames, h.proxyHostnames, List.mem_append]
    tauto
  · intro s
    rw [h'.bypassSubnets, h.bypassSubnets, or_assoc, ← exists_or]
    simp only [List.mem_append, or_and_right]
  · intro s
    rw [h'.proxySubnets, h.proxySubnets, or_assoc, ← exists_or]
    simp only [List.mem_append, or_and_right]

/-- A change that leaves the lists alone. -/
theorem Collects.same {r r' : Reader P} (h1 : r'.bypassHostnames = r.bypassHostnames)
    (h2 : r'.proxyHostnames = r.proxyHostnames) (h3 : r'.bypassSubnets = r.bypassSubnets)
    (h4 : r'.proxySubnets = r.proxySubnets) : Collects r r' [] := by
  constructor <;> intro x
  · simp [h1]
  · simp [h2]
  · simp [h3]
  · simp [h4]

theorem mem_add_hostname {l : SortedList stringSorter} {x : Text}
    (hx : Subnet.fromString P.addresses x = none) (y : Text) :
    y ∈ l.add P.placement x ↔ y ∈ l ∨ y = x ∧ Subnet.fromString P.addresses y = none := by
  rw [SortedList.mem_add_of_strict P.placement stringSorter_strict]
  constructor
  · rintro (hy | rfl)
    · exact Or.inl hy
    · exact Or.inr ⟨rfl, hx⟩
  · rintro (hy | ⟨rfl, -⟩)
    · exact Or.inl hy
    · exact Or.inr rfl

theorem mem_add_subnet {l : SortedList subnetSorter} {x : Text} {subnet : Subnet}
    (hx : Subnet.fromString P.addresses x = some subnet) (s : Subnet) :
    s ∈ l.add P.placement subnet ↔ s ∈ l ∨ Subnet.fromString P.addresses x = some s := by
  rw [SortedList.mem_add_of_strict P.placement subnetSorter_strict, hx, Option.some_inj, eq_comm]

/-- **A rule goes to the list of its section and kind**, or nowhere in a block list. -/
theorem collects_rule (r : Reader P) (x : Text) : Collects r (r.rule x) [(r.current, x)] := by
  rw [rule]
  cases hcur : r.current with
  | block => constructor <;> simp
  | bypass =>
    cases hx : Subnet.fromString P.addresses x with
    | none => constructor <;> simp +contextual [mem_add_hostname hx, hx]
    | some subnet => constructor <;> simp +contextual [mem_add_subnet hx, hx]
  | proxy =>
    cases hx : Subnet.fromString P.addresses x with
    | none => constructor <;> simp +contextual [mem_add_hostname hx, hx]
    | some subnet => constructor <;> simp +contextual [mem_add_subnet hx, hx]

theorem collects_comment {r r' : Reader P} {s : Text} (h : r.comment s = .ok r') :
    Collects r r' [] ∧ r'.current = r.current := by
  obtain ⟨-, rfl⟩ | ⟨spec, url, -, -, rfl⟩ := comment_ok h
  · exact ⟨.same rfl rfl rfl rfl, rfl⟩
  · exact ⟨.same rfl rfl rfl rfl, rfl⟩

theorem rule_current (r : Reader P) (s : Text) : (r.rule s).current = r.current := by
  rw [rule]
  cases hcur : r.current <;> cases Subnet.fromString P.addresses s <;> simp [hcur]

/-- **What a text leaves in a reader.** -/
theorem lines_collects {ls : List Text} : ∀ {r r' : Reader P}, lines ls r = .ok r' →
    Collects r r' (rules r.current ls) ∧ r'.bypass = lastMode ls r.bypass := by
  induction ls with
  | nil =>
    intro r r' h
    rw [← Except.ok.inj h]
    exact ⟨.same rfl rfl rfl rfl, rfl⟩
  | cons l ls ih =>
    intro r r' h
    rw [lines] at h
    split at h
    · exact absurd h (by simp)
    rename_i r₂ hline
    have hmode := line_bypass hline
    obtain ⟨hrest, hlast⟩ := ih h
    refine ⟨?_, ?_⟩
    · obtain ⟨r₁, hc, rfl⟩ := line_ok hline
      obtain ⟨hcomment, hcur⟩ := collects_comment hc
      rw [input_eq, ← lineKind] at hrest
      rw [rules]
      cases hkind : lineKind l with
      | header sec =>
        rw [hkind] at hrest
        have hhere : Collects r₁ (r₁.apply (.header sec)) [] := .same rfl rfl rfl rfl
        exact (hcomment.trans hhere).trans hrest
      | mode b =>
        rw [hkind] at hrest
        rw [← hcur]
        have hhere : Collects r₁ (r₁.apply (.mode b)) [] := .same rfl rfl rfl rfl
        exact (hcomment.trans hhere).trans hrest
      | blank =>
        rw [hkind] at hrest
        rw [← hcur]
        exact hcomment.trans hrest
      | rule input =>
        rw [hkind] at hrest
        have hrule := (hcomment.trans (collects_rule r₁ input)).trans hrest
        rw [show r₁.apply (.rule input) = r₁.rule input from rfl, rule_current] at hrule
        rw [hcur] at hrule
        exact hrule
    · rw [hlast, hmode, lastMode, lastMode]
      cases hl : modeOf l with
      | none => rw [List.filterMap_cons_none hl]; rfl
      | some b => rw [List.filterMap_cons_some hl, List.getLast?_cons]; rfl

end Reader

/-- **The mode of a list.**  Let `d` be the last directive of a text whose directives have no import
in their comment: a text with the other lines in the same order and `d` anywhere among them is read as
the same list, or refused for the same reason.  What is read has the last mode, or else the default
one; the subnets of the section that belongs to it; and the host names of both sections. -/
theorem fromReader_modes (P : Platform) (t : Text) (defaultBypass : Bool) :
    (∀ (d : Text) (before after : List Text) (t' : Text),
      (∀ l ∈ readLines t, isMode l = true → ¬ HasImport l) →
      ((readLines t).filter isMode).getLast? = some d →
      (readLines t).filter (fun l => !isMode l) = before ++ after →
      readLines t' = before ++ d :: after →
      fromReader P t' defaultBypass = fromReader P t defaultBypass) ∧
    ∀ a, fromReader P t defaultBypass = .ok a →
      a.bypass = lastMode (readLines t) defaultBypass ∧
      (∀ s, s ∈ a.subnets ↔ ∃ x,
        (modeSection a.bypass, x) ∈ rules (modeSection defaultBypass) (readLines t) ∧
        Subnet.fromString P.addresses x = some s) ∧
      (∀ x, x ∈ a.bypassHostnames ↔
        (.bypass, x) ∈ rules (modeSection defaultBypass) (readLines t) ∧
        Subnet.fromString P.addresses x = none) ∧
      ∀ x, x ∈ a.proxyHostnames ↔
        (.proxy, x) ∈ rules (modeSection defaultBypass) (readLines t) ∧
        Subnet.fromString P.addresses x = none := by
  constructor
  · intro d before after t' himport hlast hothers ht'
    obtain ⟨hd, hdmode⟩ := List.mem_filter.mp (List.mem_of_getLast? hlast)
    have hmem : ∀ l ∈ before ++ after, l ∈ readLines t ∧ isMode l = false := by
      intro l hl
      rw [← hothers] at hl
      obtain ⟨hl, hmode⟩ := List.mem_filter.mp hl
      exact ⟨hl, by simpa using hmode⟩
    have himport' : ∀ l ∈ readLines t', isMode l = true → ¬ HasImport l := by
      intro l hl hmode
      rw [ht', List.mem_append, List.mem_cons] at hl
      rcases hl with hl | rfl | hl
      · exact himport l (hmem l (List.mem_append_left _ hl)).1 hmode
      · exact himport l hd hmode
      · exact himport l (hmem l (List.mem_append_right _ hl)).1 hmode
    have hkeep : ∀ ls : List Text, (∀ l ∈ ls, isMode l = false) →
        ls.filter (fun l => !isMode l) = ls ∧ ls.filter isMode = [] := by
      intro ls hls
      rw [List.filter_eq_self, List.filter_eq_nil_iff]
      exact ⟨fun l hl => by simp [hls l hl], fun l hl => by simp [hls l hl]⟩
    obtain ⟨hb1, hb2⟩ := hkeep before fun l hl => (hmem l (List.mem_append_left _ hl)).2
    obtain ⟨ha1, ha2⟩ := hkeep after fun l hl => (hmem l (List.mem_append_right _ hl)).2
    have hothers' : (readLines t').filter (fun l => !isMode l) = before ++ after := by
      rw [ht', List.filter_append, List.filter_cons_of_neg (by simp [hdmode]), hb1, ha1]
    have hlast' : ((readLines t').filter isMode).getLast? = some d := by
      rw [ht', List.filter_append, List.filter_cons_of_pos hdmode, hb2, ha2]
      rfl
    rw [fromReader, fromReader, Reader.lines_modes himport, Reader.lines_modes himport', hothers,
      hothers', lastMode_of_getLast hlast, lastMode_of_getLast hlast']
  · intro a ha
    obtain ⟨r, hr, rfl⟩ := fromReader_ok ha
    obtain ⟨hcollects, hmode⟩ := Reader.lines_collects hr
    refine ⟨hmode, ?_, ?_, ?_⟩
    · intro s
      have hselect : s ∈ r.finish.subnets ↔
          s ∈ if r.bypass then r.proxySubnets else r.bypassSubnets :=
        (SortedList.mem_addAll_of_strict P.placement subnetSorter_strict).trans
          (or_iff_right (SortedList.not_mem_empty s))
      rw [hselect, show r.finish.bypass = r.bypass from rfl]
      cases r.bypass with
      | true => exact (hcollects.proxySubnets s).trans (or_iff_right (SortedList.not_mem_empty s))
      | false => exact (hcollects.bypassSubnets s).trans (or_iff_right (SortedList.not_mem_empty s))
    · intro x
      exact (hcollects.bypassHostnames x).trans (or_iff_right (SortedList.not_mem_empty x))
    · intro x
      exact (hcollects.proxyHostnames x).trans (or_iff_right (SortedList.not_mem_empty x))

/-- Two directives, the last of them in front of the rules that its mode keeps. -/
def sampleModes : Text :=
  "[bypass_all]\n10.0.0.0/8\na.b\n[proxy_all] # last\n[proxy_list]\nx.y".toList

theorem fromReader_modes_sample :
    fromReader sample "10.0.0.0/8\na.b\n[proxy_list]\nx.y\n[proxy_all] # last".toList false =
      fromReader sample sampleModes false ∧
    ∃ a, fromReader sample sampleModes false = .ok a ∧ a.bypass = false ∧
      ∃ s ∈ a.subnets, Subnet.fromString sample.addresses "10.0.0.0/8".toList = some s := by
  have hmoved := (fromReader_modes sample sampleModes false).1 "[proxy_all] # last".toList
    ["10.0.0.0/8".toList, "a.b".toList, "[proxy_list]".toList, "x.y".toList] []
    "10.0.0.0/8\na.b\n[proxy_list]\nx.y\n[proxy_all] # last".toList
    (by decide +kernel) (by decide +kernel) (by decide +kernel) (by decide +kernel)
  refine ⟨hmoved, ?_⟩
  have hok : (fromReader sample sampleModes false).isOk = true := by decide +kernel
  cases h : fromReader sample sampleModes false with
  | error e => rw [h] at hok; exact absurd hok Bool.false_ne_true
  | ok a =>
    obtain ⟨hmode, hsubnets, -⟩ := (fromReader_modes sample sampleModes false).2 a h
    have hbypass : a.bypass = false := hmode.trans (by decide +kernel)
    have hsome : (Subnet.fromString sample.addresses "10.0.0.0/8".toList).isSome = true := by
      decide +kernel
    obtain ⟨s, hs⟩ := Option.isSome_iff_exists.mp hsome
    refine ⟨a, rfl, hbypass, s, (hsubnets s).mpr ⟨_, ?_, hs⟩, hs⟩
    rw [hbypass]
    decide +kernel

end Acl

end SsAndroid
