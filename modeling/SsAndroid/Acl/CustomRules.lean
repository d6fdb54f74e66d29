import SsAndroid.Acl.RoundTrip

/-!
# The custom rules screen

A rule is entered in a dialog under one of three templates, checked by `validate`, turned into an
item and added to the custom rules, which are then kept as text in the preferences.

**`customRules_kept`**: what is read back has the same subnets, host name patterns and URLs, these in
the same order, if every rule of the generic template is a subnet or survives as a line of its own and
no two URLs differ in their fragment only; and only then, where equal URLs are spelled alike.  The
dialog checks neither: any text that is a regular expression is taken, and any URL.
-/

namespace SsAndroid

open Text

inductive Template
  | generic
  | domain
  | url
  deriving DecidableEq, Repr

/-- The platform checks behind the dialog: whether `toPattern` throws, and `IDN.toASCII` (with the
STD3 rules, so that its labels are letters, digits and hyphens). -/
structure RuleChecks where
  toPattern : Text → Bool
  toASCII : Text → Option Text
  toASCII_chars : ∀ {s t}, toASCII s = some t → ∀ c ∈ t,
    (0x2D ≤ c.toNat ∧ c.toNat ≤ 0x39 ∧ c.toNat ≠ 0x2F) ∨ (0x41 ≤ c.toNat ∧ c.toNat ≤ 0x5A) ∨
      (0x61 ≤ c.toNat ∧ c.toNat ≤ 0x7A)

/-- What is in the dialog when it is confirmed. -/
structure RuleInput where
  template : Template
  text : Text
  deriving DecidableEq, Repr

/-- `AclItem`. -/
structure AclItem where
  item : Text
  isUrl : Bool

/-- What `AclItem.toAny` gives. -/
inductive AclRule
  | subnet (subnet : Subnet)
  | hostname (hostname : Text)
  | url (url : URL)

namespace AclRule

variable (P : Platform) (C : RuleChecks)

/-- Whether the dialog's positive button is enabled. -/
def validate (r : RuleInput) : Bool :=
  match r.template with
  | .generic =>
      match Subnet.fromString P.addresses r.text with
      | none => C.toPattern r.text
      | some _ => true
  | .domain => (C.toASCII r.text).isSome
  | .url => (P.urls.parse r.text).isSome

/-- `.replace(".", "\\.").let { "(^|\\.)$it\$" }`. -/
def domainRule (ascii : Text) : Text :=
  "(^|\\.)".toList ++ ascii.flatMap (fun c => if c = '.' then ['\\', '.'] else [c]) ++ ['$']

/-- The item of the dialog's result. -/
def ret (r : RuleInput) : Option AclItem :=
  match r.template with
  | .generic => some ⟨r.text, false⟩
  | .domain => (C.toASCII r.text).map fun ascii => ⟨domainRule ascii, false⟩
  | .url => some ⟨r.text, true⟩

def toAny (item : AclItem) : Option AclRule :=
  if item.isUrl then (P.urls.parse item.item).map .url
  else
    match Subnet.fromString P.addresses item.item with
    | some s => some (.subnet s)
    | none => some (.hostname item.item)

/-- `AclRulesAdapter.add`. -/
def addTo {P : Platform} (acl : Acl P) : AclRule → Acl P
  | .subnet s => { acl with subnets := acl.subnets.add P.placement s }
  | .hostname h => { acl with proxyHostnames := acl.proxyHostnames.add P.placement h }
  | .url u => { acl with urls := acl.urls.add P.placement u }

/-- Confirm the dialog with `r`, if its button is enabled. -/
def enter (acl : Acl P) (r : RuleInput) : Acl P :=
  if validate P C r then
    match (ret C r).bind (toAny P) with
    | some rule => addTo acl rule
    | none => acl
  else acl

def enterAll (acl : Acl P) (rules : List RuleInput) : Acl P := rules.foldl (enter P C) acl

end AclRule

namespace Acl

variable {P : Platform} {C : RuleChecks}

/-! ### What is kept -/

/-- The list read back holds the same rules. -/
def SameRules (a a' : Acl P) : Prop :=
  a'.bypass = true ∧ a'.subnets = a.subnets ∧ a'.proxyHostnames = a.proxyHostnames ∧
    a'.urls = a.urls

/-- Setting the custom rules to `a` and reading them again gives the rules of `a`. -/
def Kept (a : Acl P) : Prop := ∃ a', getCustomRules P (setCustomRules a) = .ok a' ∧ SameRules a a'

theorem printable_new : (new P).Printable := by
  constructor <;> intro x hx <;> exact absurd hx (SortedList.not_mem_empty x)

/-- Whatever the preferences hold, the custom rules that are read are printable. -/
theorem printable_getCustomRules {stored : Option Text} {a : Acl P}
    (h : getCustomRules P stored = .ok a) : a.Printable ∧ a.bypass = true := by
  unfold getCustomRules at h
  split at h
  · simp at h
  · rename_i acl hacl
    have hprint : acl.Printable := by
      unfold readStored at hacl
      split at hacl
      · rw [← Except.ok.inj hacl]
        exact printable_new
      · exact printable_of_fromReader hacl
    rw [← Except.ok.inj h]
    split
    · rename_i hb
      exact ⟨hprint, hb⟩
    · exact ⟨{ hprint with subnets := fun s hs => absurd hs (SortedList.not_mem_empty s) }, rfl⟩

theorem eq_empty_of_length {α : Type} {cb : Callback α} {l : SortedList cb}
    (h : l.data.length = 0) : l = .empty :=
  SortedList.ext (List.length_eq_zero_iff.mp h)

/-- A printable list in bypass mode is kept exactly if adding its URLs again, in the order they stand
in, gives them back. -/
theorem kept_iff {a : Acl P} (h : a.Printable) (hb : a.bypass = true) :
    a.Kept ↔ SortedList.empty.addAll P.placement a.urls.data = a.urls := by
  rw [Kept, setCustomRules]
  split
  · rename_i hempty
    obtain ⟨hs, -, hp, hu⟩ := hempty
    have hs' : a.subnets.data.length = 0 := by
      cases hs with
      | inl hs => rw [hb] at hs; exact absurd hs (by decide)
      | inr hs => exact hs
    have hurls := eq_empty_of_length hu
    refine iff_of_true ⟨{ new P with bypass := true, subnets := .empty }, rfl, rfl, ?_, ?_, ?_⟩ ?_
    · exact (eq_empty_of_length hs').symm
    · exact (eq_empty_of_length hp).symm
    · exact hurls.symm
    · rw [hurls]
      rfl
  · have hget : getCustomRules P (some a.toString) =
        .ok { a with urls := SortedList.empty.addAll P.placement a.urls.data } := by
      rw [getCustomRules, readStored, fromReader_toString h]
      simp only [hb, if_true]
    rw [hget]
    constructor
    · rintro ⟨a', hok, -, -, -, hurls⟩
      rw [← Except.ok.inj hok] at hurls
      exact hurls
    · exact fun hurls => ⟨_, rfl, hb, rfl, rfl, hurls⟩

/-- What is kept are rules that stand on a line of their own. -/
theorem ruleLine_of_kept {a : Acl P} (h : a.Kept) : ∀ x ∈ a.proxyHostnames, RuleLine x := by
  obtain ⟨a', hget, -, -, hhosts, -⟩ := h
  intro x hx
  rw [← hhosts] at hx
  exact ((printable_getCustomRules hget).1.proxyHostnames x hx).toRuleLine

end Acl

namespace AclRule

open Acl

variable {P : Platform} {C : RuleChecks}

/-- A text of the generic template that is left alone when it is saved. -/
def Survives (text : Text) : Prop :=
  text ≠ [] ∧ '#' ∉ text ∧ trim text = text ∧ text ∉ directives

theorem ruleLine_iff_survives {text : Text} (h : SingleLine text) :
    RuleLine text ↔ Survives text :=
  ⟨fun hr => ⟨hr.ne_nil, hr.no_hash, hr.trimmed, hr.no_directive⟩,
    fun hs => ⟨hs.1, hs.2.1, hs.2.2.1, hs.2.2.2, h.noLineEnd⟩⟩

/-- The rule of a domain is a line of its own: it holds no space and starts with a bracket that is
in no directive and no address. -/
theorem hostname_domainRule {s ascii : Text} (h : C.toASCII s = some ascii) :
    Hostname P (domainRule ascii) := by
  have hchars : ∀ c ∈ domainRule ascii, 0x24 ≤ c.toNat ∧ c.toNat ≤ 0x7C := by
    intro c hc
    unfold domainRule at hc
    rw [List.mem_append, List.mem_append, List.mem_flatMap] at hc
    obtain (hc | ⟨d, hd, hc⟩) | hc := hc
    · have hlit : "(^|\\.)".toList.all (fun c => 0x24 ≤ c.toNat ∧ c.toNat ≤ 0x7C) = true := by decide
      simpa using List.all_eq_true.mp hlit c hc
    · split at hc
      · have hlit : ['\\', '.'].all (fun c => 0x24 ≤ c.toNat ∧ c.toNat ≤ 0x7C) = true := by decide
        simpa using List.all_eq_true.mp hlit c hc
      · have hd' := C.toASCII_chars h d hd
        rw [List.mem_singleton.mp hc]
        omega
    · rw [List.mem_singleton.mp hc]
      decide
  have hspace : ∀ c ∈ domainRule ascii, isWhitespace c = false := by
    intro c hc
    have := hchars c hc
    simp only [isWhitespace, Bool.or_eq_false_iff, Bool.and_eq_false_iff, decide_eq_false_iff_not,
      List.contains_eq_mem, List.mem_cons, List.not_mem_nil, or_false, not_or, not_le]
    omega
  have hcons : ∃ rest, domainRule ascii = '(' :: rest := ⟨_, rfl⟩
  have hfree : ∀ c : Char, c.toNat < 0x24 → c ∉ domainRule ascii := by
    intro c hc hmem
    have := (hchars c hmem).1
    omega
  obtain ⟨rest, hrest⟩ := hcons
  refine ⟨⟨by rw [hrest]; simp, hfree '#' (by decide), ?_, ?_, ?_⟩, ?_⟩
  · exact trim_eq_self (fun c hc => hspace c (List.mem_of_mem_head? hc))
      (fun c hc => hspace c (List.mem_of_getLast? hc))
  · have hhead : ∀ d ∈ directives, d.head? = some '[' := by decide
    intro hd
    have := hhead _ hd
    rw [hrest] at this
    exact absurd this (by simp)
  · exact ⟨hfree '\n' (by decide), hfree '\r' (by decide)⟩
  · rw [hrest]
    exact Subnet.fromString_eq_none (by decide) (by decide)

/-! ### Entering rules -/

/-- A rule that may be entered without harm. -/
def Sound (P : Platform) (r : RuleInput) : Prop :=
  r.template = .generic → Subnet.fromString P.addresses r.text ≠ none ∨ Survives r.text

/-- The URLs among the rules. -/
def urlsOf (P : Platform) (rules : List RuleInput) : List URL :=
  rules.filterMap fun r => if r.template = .url then P.urls.parse r.text else none

theorem enter_urls (acl : Acl P) (r : RuleInput) :
    (enter P C acl r).urls = acl.urls.addAll P.placement (urlsOf P [r]) := by
  obtain ⟨template, text⟩ := r
  cases template with
  | generic =>
    rw [enter, ret, Option.bind_some, toAny, if_neg Bool.false_ne_true]
    split
    · cases Subnet.fromString P.addresses text <;> rfl
    · rfl
  | domain =>
    rw [enter, ret]
    dsimp only
    cases C.toASCII text with
    | none => split <;> rfl
    | some ascii =>
      rw [Option.map_some, Option.bind_some, toAny, if_neg Bool.false_ne_true]
      split
      · cases Subnet.fromString P.addresses (domainRule ascii) <;> rfl
      · rfl
  | url =>
    rw [enter, ret, Option.bind_some, toAny, if_pos rfl, validate]
    simp only [urlsOf, List.filterMap_cons, List.filterMap_nil, if_true]
    cases P.urls.parse text <;> rfl

theorem enterAll_urls (rules : List RuleInput) : ∀ acl : Acl P,
    (enterAll P C acl rules).urls = acl.urls.addAll P.placement (urlsOf P rules) := by
  induction rules with
  | nil => intro acl; rfl
  | cons r rules ih =>
    intro acl
    show (enterAll P C (enter P C acl r) rules).urls = _
    rw [ih, enter_urls, ← SortedList.addAll_append, urlsOf, urlsOf, ← List.filterMap_append]
    rfl

theorem enter_bypass (acl : Acl P) (r : RuleInput) : (enter P C acl r).bypass = acl.bypass := by
  unfold enter
  split
  · split
    · rename_i rule _
      cases rule <;> rfl
    · rfl
  · rfl

theorem enterAll_bypass (rules : List RuleInput) : ∀ acl : Acl P,
    (enterAll P C acl rules).bypass = acl.bypass := by
  induction rules with
  | nil => intro acl; rfl
  | cons r rules ih =>
    intro acl
    show (enterAll P C (enter P C acl r) rules).bypass = _
    rw [ih, enter_bypass]

/-- The rule that a valid input of each template becomes. -/
theorem toAny_cases {r : RuleInput} (hline : SingleLine r.text) {rule : AclRule}
    (h : (ret C r).bind (toAny P) = some rule) :
    (∃ s, rule = .subnet s ∧ ParsedSubnet P s) ∨ (∃ u, rule = .url u ∧ ParsedUrl P u) ∨
      (∃ x, rule = .hostname x ∧ Hostname P x) ∨
      (r.template = .generic ∧ Subnet.fromString P.addresses r.text = none ∧
        rule = .hostname r.text) := by
  obtain ⟨template, text⟩ := r
  cases template with
  | generic =>
    rw [ret, Option.bind_some, toAny, if_neg (by simp)] at h
    split at h
    · rename_i s hs
      exact Or.inl ⟨s, (Option.some.inj h).symm, Subnet.fromString_eq_some hs⟩
    · rename_i hs
      exact Or.inr (Or.inr (Or.inr ⟨rfl, hs, (Option.some.inj h).symm⟩))
  | domain =>
    rw [ret] at h
    cases hascii : C.toASCII text with
    | none => rw [show (RuleInput.mk .domain text).text = text from rfl, hascii] at h; simp at h
    | some ascii =>
      have hhost : Hostname P (domainRule ascii) := hostname_domainRule hascii
      rw [show (RuleInput.mk .domain text).text = text from rfl, hascii, Option.map_some,
        Option.bind_some, toAny, if_neg (by simp)] at h
      simp only [hhost.no_subnet] at h
      exact Or.inr (Or.inr (Or.inl ⟨_, (Option.some.inj h).symm, hhost⟩))
  | url =>
    rw [ret, Option.bind_some, toAny, if_pos rfl] at h
    obtain ⟨u, hu, rfl⟩ := Option.map_eq_some_iff.mp h
    exact Or.inr (Or.inl ⟨u, rfl, text, hline, hu⟩)

theorem printable_addTo {acl : Acl P} (h : acl.Printable) {rule : AclRule}
    (hrule : (∃ s, rule = .subnet s ∧ ParsedSubnet P s) ∨ (∃ u, rule = .url u ∧ ParsedUrl P u) ∨
      (∃ x, rule = .hostname x ∧ Hostname P x)) : (addTo acl rule).Printable := by
  obtain ⟨s, rfl, hs⟩ | ⟨u, rfl, hu⟩ | ⟨x, rfl, hx⟩ := hrule
  · exact { h with subnets := Reader.forall_mem_add h.subnets hs }
  · exact { h with urls := Reader.forall_mem_add h.urls hu }
  · exact { h with proxyHostnames := Reader.forall_mem_add h.proxyHostnames hx }

theorem printable_enter {acl : Acl P} (h : acl.Printable) {r : RuleInput}
    (hline : SingleLine r.text) (hr : Sound P r) : (enter P C acl r).Printable := by
  unfold enter
  split
  · split
    · rename_i rule hrule
      refine printable_addTo h ?_
      obtain hs | hu | hx | ⟨ht, hno, rfl⟩ := toAny_cases hline hrule
      · exact Or.inl hs
      · exact Or.inr (Or.inl hu)
      · exact Or.inr (Or.inr hx)
      · refine Or.inr (Or.inr ⟨r.text, rfl, ?_, hno⟩)
        cases hr ht with
        | inl hsub => exact absurd hno hsub
        | inr hsurv => exact (ruleLine_iff_survives hline).mpr hsurv
    · exact h
  · exact h

theorem printable_enterAll {rules : List RuleInput} : ∀ {acl : Acl P}, acl.Printable →
    (∀ r ∈ rules, SingleLine r.text) → (∀ r ∈ rules, Sound P r) →
    (enterAll P C acl rules).Printable := by
  induction rules with
  | nil => intro acl h _ _; exact h
  | cons r rules ih =>
    intro acl h hline hs
    exact ih (printable_enter h (hline r List.mem_cons_self) (hs r List.mem_cons_self))
      (fun q hq => hline q (List.mem_cons_of_mem _ hq)) (fun q hq => hs q (List.mem_cons_of_mem _ hq))

/-- Entering a rule removes no host name. -/
theorem mem_enter {acl : Acl P} {r : RuleInput} {x : Text} (h : x ∈ acl.proxyHostnames) :
    x ∈ (enter P C acl r).proxyHostnames := by
  unfold enter
  split
  · split
    · rename_i rule _
      cases rule with
      | subnet s => exact h
      | url u => exact h
      | hostname y =>
        exact (SortedList.mem_add_of_strict P.placement stringSorter_strict).mpr (Or.inl h)
    · exact h
  · exact h

theorem mem_enterAll {rules : List RuleInput} {x : Text} : ∀ {acl : Acl P},
    x ∈ acl.proxyHostnames → x ∈ (enterAll P C acl rules).proxyHostnames := by
  induction rules with
  | nil => intro acl h; exact h
  | cons r rules ih => intro acl h; exact ih (mem_enter h)

/-- A generic rule that is no subnet ends up among the host names as it was typed. -/
theorem generic_mem_enterAll {rules : List RuleInput} {text : Text}
    (hno : Subnet.fromString P.addresses text = none)
    (hvalid : validate P C ⟨.generic, text⟩ = true) : ∀ {acl : Acl P},
    RuleInput.mk .generic text ∈ rules → text ∈ (enterAll P C acl rules).proxyHostnames := by
  induction rules with
  | nil => intro acl h; exact absurd h List.not_mem_nil
  | cons r rules ih =>
    intro acl h
    cases List.mem_cons.mp h with
    | inr h => exact ih h
    | inl h =>
      show text ∈ (enterAll P C (enter P C acl r) rules).proxyHostnames
      refine mem_enterAll ?_
      rw [← h, enter, if_pos hvalid, ret, Option.bind_some, toAny, if_neg (by simp)]
      simp only [hno, addTo]
      exact SortedList.mem_add_self P.placement _ _

/-- **Custom rules are kept if every generic rule is a subnet or survives as a line, and no two URLs
differ in their fragment only**, starting from the custom rules behind any stored text.  The former is
always necessary; so is the latter, with the binary search placing the URLs, where equal URLs are
spelled alike.  The dialog takes a generic rule exactly when it is a subnet or a regular expression. -/
theorem customRules_kept (P : Platform) (C : RuleChecks) (stored : Option Text) (acl : Acl P)
    (hacl : getCustomRules P stored = .ok acl) (rules : List RuleInput)
    (hline : ∀ r ∈ rules, SingleLine r.text) (hvalid : ∀ r ∈ rules, validate P C r = true) :
    ((∀ r ∈ rules, Sound P r) ∧ FragmentsAgree (acl.urls.data ++ urlsOf P rules) →
        (enterAll P C acl rules).Kept) ∧
      ((enterAll P C acl rules).Kept → ∀ r ∈ rules, Sound P r) ∧
      (P.placement = .bisect → SpelledAlike P (acl.urls.data ++ urlsOf P rules) →
        ((enterAll P C acl rules).Kept ↔
          (∀ r ∈ rules, Sound P r) ∧ FragmentsAgree (acl.urls.data ++ urlsOf P rules))) ∧
      ∀ text, validate P C ⟨.generic, text⟩ = true ↔
        Subnet.fromString P.addresses text ≠ none ∨ C.toPattern text = true := by
  obtain ⟨hprint, hb⟩ := printable_getCustomRules hacl
  have hbypass : (enterAll P C acl rules).bypass = true := (enterAll_bypass rules acl).trans hb
  have hurls : (enterAll P C acl rules).urls = acl.urls.addAll P.placement (urlsOf P rules) :=
    enterAll_urls rules acl
  have hiff : (∀ r ∈ rules, Sound P r) → ((enterAll P C acl rules).Kept ↔
      SortedList.empty.addAll P.placement (enterAll P C acl rules).urls.data =
        (enterAll P C acl rules).urls) :=
    fun hsound => kept_iff (printable_enterAll hprint hline hsound) hbypass
  have hsuff : (∀ r ∈ rules, Sound P r) ∧ FragmentsAgree (acl.urls.data ++ urlsOf P rules) →
      (enterAll P C acl rules).Kept := by
    rintro ⟨hsound, hagree⟩
    refine (hiff hsound).mpr (SortedList.addAll_data P.placement ?_)
    rw [hurls]
    exact noTies_of_fragmentsAgree hagree
  have hnec : (enterAll P C acl rules).Kept → ∀ r ∈ rules, Sound P r := by
    intro hkept r hr hgen
    by_cases hno : Subnet.fromString P.addresses r.text = none
    · right
      obtain ⟨template, text⟩ := r
      cases hgen
      exact (ruleLine_iff_survives (hline _ hr)).mp
        (ruleLine_of_kept hkept text (generic_mem_enterAll hno (hvalid _ hr) hr))
    · exact Or.inl hno
  refine ⟨hsuff, hnec, fun hbisect halike => ⟨fun hkept => ?_, hsuff⟩, fun text => ?_⟩
  · have hback := (hiff (hnec hkept)).mp hkept
    rw [hbisect] at hback
    have hties := (SortedList.addAll_data_bisect_iff _).mp hback
    rw [hurls] at hties
    exact ⟨hnec hkept, fragmentsAgree_of_noTies halike hties⟩
  · rw [validate]
    cases Subnet.fromString P.addresses text <;> simp

/-- Checks that know the regular expressions without operators, and plain domain names. -/
def sampleChecks : RuleChecks where
  toPattern := fun s => s.all fun c => c.isAlphanum || c = '#' || c = '.'
  toASCII := fun s =>
    if s.all (fun c => decide ((0x61 ≤ c.toNat ∧ c.toNat ≤ 0x7A) ∨ c.toNat = 0x2E)) then some s
    else none
  toASCII_chars := by
    intro s t h c hc
    split at h
    · rename_i hall
      cases h
      have hc' := of_decide_eq_true (List.all_eq_true.mp hall c hc)
      omega
    · simp at h

def sampleRules : List RuleInput :=
  [⟨.generic, "a.b".toList⟩, ⟨.generic, "10.0.0.0/8".toList⟩, ⟨.domain, "c.d".toList⟩,
    ⟨.url, "http://a/y".toList⟩, ⟨.url, "http://a/x#1".toList⟩]

/-- Rules of each kind, entered into an empty list. -/
theorem customRules_kept_sample :
    (enterAll sample sampleChecks { new sample with bypass := true } sampleRules).Kept := by
  have hagree : ∀ u ∈ urlsOf sample sampleRules, ∀ v ∈ urlsOf sample sampleRules,
      urlOrdering u v = .eq → u.ref = v.ref := by decide +kernel
  refine (customRules_kept sample sampleChecks none _ rfl sampleRules ?_ ?_).1 ⟨?_, hagree⟩
  · decide +kernel
  · decide +kernel
  · intro r hr hgen
    have hall : ∀ r ∈ sampleRules, r.template = .generic →
        Subnet.fromString sample.addresses r.text ≠ none ∨
          (r.text ≠ [] ∧ '#' ∉ r.text ∧ trim r.text = r.text ∧ r.text ∉ directives) := by
      decide +kernel
    exact hall r hr hgen

/-- The regular expression `a#b` is accepted, and gone when the rules are read again. -/
theorem customRules_hash_lost :
    validate sample sampleChecks ⟨.generic, "a#b".toList⟩ = true ∧
      ¬(enterAll sample sampleChecks { new sample with bypass := true }
        [⟨.generic, "a#b".toList⟩]).Kept := by
  refine ⟨by decide +kernel, fun h => ?_⟩
  have hmem : "a#b".toList ∈ (enterAll sample sampleChecks { new sample with bypass := true }
      [⟨.generic, "a#b".toList⟩]).proxyHostnames := by
    show _ ∈ SortedList.data _
    decide +kernel
  exact (ruleLine_of_kept h _ hmem).no_hash (by decide)

end AclRule

end SsAndroid
