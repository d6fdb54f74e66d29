import SsAndroid.Net.Subnet
import SsAndroid.Net.Url

/-!
# Access control lists

`Acl`: two lists of host name patterns, a list of subnets, a list of URLs to import and the mode.
`fromReader` reads the line format, `toString` writes it, `customRules` keeps one list in the
preferences, `flatten` fetches the imports.
-/

namespace SsAndroid

open Text

/-- What the lists use of the platform. -/
structure Platform where
  placement : Placement
  addresses : AddressFormat
  urls : UrlFormat

/-! ### The sorters -/

/-- A `DefaultSorter`: the natural order, and `==`. -/
def defaultSorter {α : Type} [DecidableEq α] (compareTo : α → α → Ordering)
    (trans : Std.TransCmp compareTo) : Callback α where
  compare := compareTo
  areItemsTheSame := fun x y => decide (x = y)
  trans := trans
  same_refl := fun _ => decide_eq_true rfl
  same_symm := fun _ h => decide_eq_true (of_decide_eq_true h).symm
  same_trans := fun _ _ h h' => decide_eq_true ((of_decide_eq_true h).trans (of_decide_eq_true h'))

theorem defaultSorter_strict {α : Type} [DecidableEq α] {compareTo : α → α → Ordering}
    {trans : Std.TransCmp compareTo} (h : ∀ {x y}, compareTo x y = .eq → x = y) :
    (defaultSorter compareTo trans).Strict :=
  ⟨h, of_decide_eq_true⟩

def stringSorter : Callback Text := defaultSorter Text.compareTo Text.instTransCmpCompareTo

def subnetSorter : Callback Subnet := defaultSorter Subnet.compareTo Subnet.instTransCmpCompareTo

theorem stringSorter_strict : stringSorter.Strict := defaultSorter_strict eq_of_compareTo

theorem subnetSorter_strict : subnetSorter.Strict := defaultSorter_strict Subnet.eq_of_compareTo

/-- `compareBy({ it.host }, { it.port }, { it.file }, { it.protocol })`. -/
def urlOrdering (u v : URL) : Ordering :=
  (((compareTo u.host v.host).then (compare u.port v.port)).then (compareTo u.file v.file)).then
    (compareTo u.protocol v.protocol)

instance : Std.TransCmp urlOrdering :=
  inferInstanceAs (Std.TransCmp (compareLex
    (compareLex
      (compareLex (compareOn fun u : URL => utf16 u.host) (compareOn fun u : URL => u.port))
      (compareOn fun u : URL => utf16 u.file))
    (compareOn fun u : URL => utf16 u.protocol)))

theorem urlOrdering_eq_iff {u v : URL} : urlOrdering u v = .eq ↔
    u.host = v.host ∧ u.port = v.port ∧ u.file = v.file ∧ u.protocol = v.protocol := by
  rw [urlOrdering, Ordering.then_eq_eq, Ordering.then_eq_eq, Ordering.then_eq_eq]
  constructor
  · rintro ⟨⟨⟨hh, hport⟩, hf⟩, hp⟩
    exact ⟨eq_of_compareTo hh, Std.LawfulEqOrd.eq_of_compare hport, eq_of_compareTo hf,
      eq_of_compareTo hp⟩
  · rintro ⟨hh, hport, hf, hp⟩
    rw [hh, hport, hf, hp]
    exact ⟨⟨⟨Std.ReflCmp.compare_self, Std.ReflCmp.compare_self⟩, Std.ReflCmp.compare_self⟩,
      Std.ReflCmp.compare_self⟩

/-- URLs that tie are equal exactly when their fragments are. -/
theorem equals_of_tie (U : UrlFormat) {u v : URL} (h : urlOrdering u v = .eq) :
    u.equals U v = true ↔ u.ref = v.ref := by
  obtain ⟨hh, hport, hf, hp⟩ := urlOrdering_eq_iff.mp h
  rw [URL.equals, URL.sameFile_of_parts U hp hh hport hf, Bool.and_true, decide_eq_true_iff]

/-- `URLSorter`: its order leaves the fragment out, its `areItemsTheSame` does not. -/
def urlSorter (U : UrlFormat) : Callback URL where
  compare := urlOrdering
  areItemsTheSame := URL.equals U
  trans := inferInstance
  same_refl := fun _ => (equals_of_tie U Std.ReflCmp.compare_self).mpr rfl
  same_symm := fun htie h =>
    (equals_of_tie U (Std.OrientedCmp.eq_symm htie)).mpr ((equals_of_tie U htie).mp h).symm
  same_trans := fun htie htie' h h' =>
    (equals_of_tie U (Std.TransCmp.eq_trans htie htie')).mpr
      (((equals_of_tie U htie).mp h).trans ((equals_of_tie U htie').mp h'))

/-! ### The lists -/

structure Acl (P : Platform) where
  bypassHostnames : SortedList stringSorter
  proxyHostnames : SortedList stringSorter
  subnets : SortedList subnetSorter
  urls : SortedList (urlSorter P.urls)
  bypass : Bool

namespace Acl

variable (P : Platform)

/-- `Acl()`. -/
def new : Acl P := ⟨.empty, .empty, .empty, .empty, false⟩

instance : DecidableEq (Acl P) := fun a b =>
  decidable_of_iff (a.bypassHostnames = b.bypassHostnames ∧ a.proxyHostnames = b.proxyHostnames ∧
      a.subnets = b.subnets ∧ a.urls = b.urls ∧ a.bypass = b.bypass) (by
    cases a; cases b; simp)

/-- `[ \t\n\x0B\f\r]`, the `\s` of regular expressions. -/
def isRegexSpace (c : Char) : Bool := [0x20, 0x09, 0x0A, 0x0B, 0x0C, 0x0D].contains c.toNat

/-- Take the literal `lit` off the front. -/
def dropLiteral : Text → Text → Option Text
  | [], s => some s
  | c :: lit, d :: s => if c = d then dropLiteral lit s else none
  | _ :: _, [] => none

/-- The first group of `networkAclParser`, `^IMPORT_URL\s*<(.+)>\s*$`, when it matches the whole
text: the bracket that closes the group is the last character that is not space. -/
def networkAclParser (s : Text) : Option Text :=
  match dropLiteral "IMPORT_URL".toList s with
  | none => none
  | some s =>
      match s.dropWhile isRegexSpace with
      | '<' :: s =>
          match s.reverse.dropWhile isRegexSpace with
          | '>' :: s =>
              if s ≠ [] ∧ s.all (fun c => !isLineTerminator c) = true then some s.reverse else none
          | _ => none
      | _ => none

/-- The list that rules go to; the rules of a block list are dropped. -/
inductive Section
  | block
  | bypass
  | proxy
  deriving DecidableEq, Repr

/-- The local variables of `fromReader`. -/
structure Reader where
  bypassHostnames : SortedList stringSorter
  proxyHostnames : SortedList stringSorter
  bypassSubnets : SortedList subnetSorter
  proxySubnets : SortedList subnetSorter
  urls : SortedList (urlSorter P.urls)
  bypass : Bool
  current : Section

namespace Reader

variable {P}

def start (defaultBypass : Bool) : Reader P where
  bypassHostnames := .empty
  proxyHostnames := .empty
  bypassSubnets := .empty
  proxySubnets := .empty
  urls := .empty
  bypass := defaultBypass
  current := if defaultBypass then .proxy else .bypass

/-- A line that is a rule: a subnet, or else a host name pattern. -/
def rule (r : Reader P) (input : Text) : Reader P :=
  match r.current with
  | .block => r
  | .bypass =>
      match Subnet.fromString P.addresses input with
      | none => { r with bypassHostnames := r.bypassHostnames.add P.placement input }
      | some subnet => { r with bypassSubnets := r.bypassSubnets.add P.placement subnet }
  | .proxy =>
      match Subnet.fromString P.addresses input with
      | none => { r with proxyHostnames := r.proxyHostnames.add P.placement input }
      | some subnet => { r with proxySubnets := r.proxySubnets.add P.placement subnet }

/-- The part of a line in front of its comment. -/
def input (r : Reader P) (input : Text) : Reader P :=
  if input = "[outbound_block_list]".toList then { r with current := .block }
  else if input = "[black_list]".toList ∨ input = "[bypass_list]".toList then
    { r with current := .bypass }
  else if input = "[white_list]".toList ∨ input = "[proxy_list]".toList then
    { r with current := .proxy }
  else if input = "[reject_all]".toList ∨ input = "[bypass_all]".toList then
    { r with bypass := true }
  else if input = "[accept_all]".toList ∨ input = "[proxy_all]".toList then
    { r with bypass := false }
  else if input = [] then r
  else r.rule input

/-- The comment of a line, which may be an import. -/
def comment (r : Reader P) (comment : Text) : Except Exn (Reader P) :=
  match networkAclParser comment with
  | none => .ok r
  | some spec =>
      match P.urls.parse spec with
      | none => .error .malformedURL
      | some url => .ok { r with urls := r.urls.add P.placement url }

def line (r : Reader P) (line : Text) : Except Exn (Reader P) :=
  match r.comment ((splitAtFirst '#' line).2.getD []) with
  | .error e => .error e
  | .ok r => .ok (r.input (trim (splitAtFirst '#' line).1))

def lines : List Text → Reader P → Except Exn (Reader P)
  | [], r => .ok r
  | l :: ls, r =>
      match r.line l with
      | .error e => .error e
      | .ok r => lines ls r

/-- What `fromReader` leaves behind: the subnets of the list that the mode does not imply. -/
def finish (r : Reader P) : Acl P where
  bypassHostnames := r.bypassHostnames
  proxyHostnames := r.proxyHostnames
  subnets := SortedList.empty.addAll P.placement
    (if r.bypass then r.proxySubnets else r.bypassSubnets).data
  urls := r.urls
  bypass := r.bypass

end Reader

/-- `Acl().fromReader(reader, defaultBypass)`. -/
def fromReader (reader : Text) (defaultBypass : Bool) : Except Exn (Acl P) :=
  match Reader.lines (readLines reader) (Reader.start defaultBypass) with
  | .error e => .error e
  | .ok r => .ok r.finish

variable {P}

/-! ### Printing -/

def subnetTexts (a : Acl P) : List Text := a.subnets.data.map (Subnet.toString P.addresses)

def bypassList (a : Acl P) : List Text :=
  if a.bypass then a.bypassHostnames.data else a.subnetTexts ++ a.bypassHostnames.data

def proxyList (a : Acl P) : List Text :=
  if a.bypass then a.subnetTexts ++ a.proxyHostnames.data else a.proxyHostnames.data

/-- A list under its header; an empty one is left out. -/
def listText (header : Text) (list : List Text) : Text :=
  if list = [] then [] else header ++ ['\n'] ++ join ['\n'] list ++ ['\n']

def importText (url : URL) : Text :=
  "#IMPORT_URL <".toList ++ P.urls.toExternalForm url ++ ">\n".toList

def toString (a : Acl P) : Text :=
  (if a.bypass then "[bypass_all]\n" else "[proxy_all]\n").toList ++
    listText "[bypass_list]".toList a.bypassList ++ listText "[proxy_list]".toList a.proxyList ++
    a.urls.data.flatMap (importText (P := P))

/-! ### The custom rules -/

def readStored (P : Platform) : Option Text → Except Exn (Acl P)
  | none => .ok (new P)
  | some str => fromReader P str true

/-- `Acl.customRules` read from the string in the preferences. -/
def getCustomRules (P : Platform) (stored : Option Text) : Except Exn (Acl P) :=
  match readStored P stored with
  | .error e => .error e
  | .ok acl => .ok (if acl.bypass then acl else { acl with bypass := true, subnets := .empty })

/-- The string that setting `Acl.customRules` puts into the preferences. -/
def setCustomRules (value : Acl P) : Option Text :=
  if (value.bypass = false ∨ value.subnets.data.length = 0) ∧
      value.bypassHostnames.data.length = 0 ∧ value.proxyHostnames.data.length = 0 ∧
      value.urls.data.length = 0 then none
  else some value.toString

/-! ### Imports -/

/-- Take over the rules of an imported list; its subnets only if the modes agree. -/
def absorb (a child : Acl P) : Acl P :=
  { a with
    bypassHostnames := a.bypassHostnames.addAll P.placement child.bypassHostnames.data
    proxyHostnames := a.proxyHostnames.addAll P.placement child.proxyHostnames.data
    subnets := a.subnets.addAll P.placement
      (if a.bypass ≠ child.bypass then [] else child.subnets.data) }

def clearUrls (a : Acl P) : Acl P := { a with urls := .empty }

/-- The loop of `flatten` over the URLs; `fetch` gives the flattened child of a URL. -/
def absorbAll (fetch : URL → Except Exn (Acl P)) : List URL → Acl P → Except Exn (Acl P)
  | [], a => .ok a
  | url :: urls, a =>
      match fetch url with
      | .error e => .error e
      | .ok child => absorbAll fetch urls (a.absorb child)

/-- `flatten` at a depth that is not negative. -/
def flattenTo (connect : URL → Text) : Nat → Acl P → Except Exn (Acl P)
  | 0, a => .ok a.clearUrls
  | depth + 1, a =>
      match absorbAll (fun url =>
          match fromReader P (connect url) a.bypass with
          | .error e => .error e
          | .ok child => flattenTo connect depth child) a.urls.data a with
      | .error e => .error e
      | .ok a => .ok a.clearUrls

/-- `flatten(depth, connect)`; `connect` is the document behind a URL. -/
def flatten (depth : Int) (connect : URL → Text) (a : Acl P) : Except Exn (Acl P) :=
  flattenTo connect depth.toNat a

end Acl

end SsAndroid
