import SsAndroid.Lib.Encoding
import SsAndroid.Lib.Number

/-!
# URIs

`android.net.Uri` splits a text without checking it: the authority is what stands between `//` and
the next `/`, `\`, `?` or `#`, the query what stands between the first `?` and `#`, and the fragment
what is behind the first `#`.  `Uri.Builder` joins the parts.  **`text_parts`** says that splitting
undoes joining.

`java.net.URI` checks the syntax and knows about hosts.  Only the host and the port are asked of it,
so it is a parameter (`URI`), with what is relied upon: it finds them in a text that was joined from
a user info, a host, a port, and an escaped query and fragment.  `IsHost` says what a host is.
-/

namespace SsAndroid

namespace Uri

open Text

/-- The text before the last `sep`, if there is one, and the text behind it. -/
def splitAtLast (sep : Char) (s : Text) : Option Text × Text :=
  match splitAtFirst sep s.reverse with
  | (after, some before) => (some before.reverse, after.reverse)
  | (_, none) => (none, s)

/-- What is behind the scheme. -/
def afterScheme (s : Text) : Text := ((splitAtFirst ':' s).2).getD s

def endsAuthority (c : Char) : Bool := "/\\?#".toList.contains c

def encodedAuthority (s : Text) : Option Text :=
  match afterScheme s with
  | '/' :: '/' :: t => some (t.takeWhile fun c => !endsAuthority c)
  | _ => none

def encodedQuery (s : Text) : Option Text :=
  (splitAtFirst '?' (splitAtFirst '#' (afterScheme s)).1).2

def encodedFragment (s : Text) : Option Text := (splitAtFirst '#' (afterScheme s)).2

/-- `userInfo`. -/
def userInfo (s : Text) : Option Text :=
  ((encodedAuthority s).bind fun a => (splitAtLast '@' a).1).map (Percent.decode false)

/-- The port is cut off if it is one: digits behind a colon, down to the end. -/
def withoutPort (s : Text) : Text :=
  match s.reverse.dropWhile Number.isDigit with
  | ':' :: h => h.reverse
  | _ => s

/-- `host`. -/
def host (s : Text) : Option Text :=
  (encodedAuthority s).map fun a => Percent.decode false (withoutPort (splitAtLast '@' a).2)

/-- `fragment`. -/
def fragment (s : Text) : Option Text := (encodedFragment s).map (Percent.decode false)

/-- `getQueryParameter(key)`: the value of the first parameter of that name. -/
def getQueryParameter (key : Text) (s : Text) : Option Text :=
  (encodedQuery s).bind fun query =>
    ((split '&' query).find? fun parameter => (splitAtFirst '=' parameter).1 = Percent.encode key).map
      fun parameter => Percent.decode true ((splitAtFirst '=' parameter).2.getD [])

/-! ### The builder -/

/-- `Uri.Builder`, with the parts in their encoded form. -/
structure Builder where
  scheme : Text
  encodedAuthority : Text
  query : Option Text := none
  fragment : Option Text := none

/-- One query parameter in its encoded form. -/
def parameter (key value : Text) : Text := Percent.encode key ++ '=' :: Percent.encode value

def Builder.appendQueryParameter (b : Builder) (key value : Text) : Builder :=
  { b with
    query :=
      match b.query with
      | some (c :: query) => some (c :: query ++ '&' :: parameter key value)
      | _ => some (parameter key value) }

/-- `fragment(name)`. -/
def Builder.setFragment (b : Builder) (name : Text) : Builder :=
  { b with fragment := some (Percent.encode name) }

/-- A part with the character in front of it. -/
def part (c : Char) (s : Option Text) : Text :=
  match s with
  | some s => c :: s
  | none => []

/-- The text of a hierarchical URI without a path. -/
def text (scheme authority : Text) (query fragment : Option Text) : Text :=
  scheme ++ ':' :: '/' :: '/' :: (authority ++ (part '?' query ++ part '#' fragment))

/-- `build().toString()`; an empty query or fragment is left out. -/
def Builder.toText (b : Builder) : Text :=
  text b.scheme b.encodedAuthority (b.query.filter (· ≠ [])) (b.fragment.filter (· ≠ []))

/-! ### Splitting what was joined -/

section Parts

variable {scheme authority : Text} (query fragment : Option Text)

theorem afterScheme_text (hs : ':' ∉ scheme) :
    afterScheme (text scheme authority query fragment)
      = '/' :: '/' :: (authority ++ (part '?' query ++ part '#' fragment)) := by
  rw [afterScheme, text, splitAtFirst_append hs]
  rfl

theorem encodedAuthority_text (hs : ':' ∉ scheme) (ha : ∀ c ∈ authority, endsAuthority c = false) :
    encodedAuthority (text scheme authority query fragment) = some authority := by
  have hparts : (part '?' query ++ part '#' fragment).takeWhile (fun c => !endsAuthority c) = [] := by
    cases query with
    | some q => exact List.takeWhile_cons_of_neg (by decide)
    | none =>
      cases fragment with
      | some f => exact List.takeWhile_cons_of_neg (by decide)
      | none => rfl
  rw [encodedAuthority, afterScheme_text query fragment hs]
  show some ((authority ++ (part '?' query ++ part '#' fragment)).takeWhile _) = _
  rw [List.takeWhile_append_of_pos (fun c hc => by simp [ha c hc]), hparts, List.append_nil]

theorem splitAtFirst_fragment (hs : ':' ∉ scheme) (ha : '#' ∉ authority)
    (hq : ∀ q ∈ query, '#' ∉ q) :
    splitAtFirst '#' (afterScheme (text scheme authority query fragment))
      = ('/' :: '/' :: (authority ++ part '?' query), fragment) := by
  have hfront : '#' ∉ '/' :: '/' :: (authority ++ part '?' query) := by
    have hpart : '#' ∉ part '?' query := by
      cases query with
      | some q => simpa [part] using hq q rfl
      | none => simp [part]
    simp [ha, hpart]
  rw [afterScheme_text query fragment hs, ← List.append_assoc, ← List.cons_append,
    ← List.cons_append]
  cases fragment with
  | some f => exact splitAtFirst_append hfront f
  | none =>
    show splitAtFirst '#' (_ ++ []) = _
    rw [List.append_nil, splitAtFirst_of_not_mem hfront]

/-- **The parts of a text that was joined.** -/
theorem text_parts (hs : ':' ∉ scheme) (ha : ∀ c ∈ authority, endsAuthority c = false)
    (hq : ∀ q ∈ query, '#' ∉ q) :
    encodedAuthority (text scheme authority query fragment) = some authority ∧
      encodedQuery (text scheme authority query fragment) = query ∧
      encodedFragment (text scheme authority query fragment) = fragment := by
  have hhash : '#' ∉ authority := fun h => absurd (ha _ h) (by decide)
  have hmark : '?' ∉ '/' :: '/' :: authority := by
    have h : '?' ∉ authority := fun h => absurd (ha _ h) (by decide)
    simp [h]
  have hsplit := splitAtFirst_fragment query fragment hs hhash hq
  refine ⟨encodedAuthority_text query fragment hs ha, ?_, ?_⟩
  · rw [encodedQuery, hsplit]
    show (splitAtFirst '?' ('/' :: '/' :: authority ++ part '?' query)).2 = query
    cases query with
    | some q =>
      show (splitAtFirst '?' ('/' :: '/' :: authority ++ '?' :: q)).2 = _
      rw [splitAtFirst_append hmark]
    | none =>
      show (splitAtFirst '?' ('/' :: '/' :: authority ++ [])).2 = _
      rw [List.append_nil, splitAtFirst_of_not_mem hmark]
  · rw [encodedFragment, hsplit]

end Parts

theorem splitAtLast_append {sep : Char} {t : Text} (h : sep ∉ t) (s : Text) :
    splitAtLast sep (s ++ sep :: t) = (some s, t) := by
  have hrev : (s ++ sep :: t).reverse = t.reverse ++ sep :: s.reverse := by simp
  rw [splitAtLast, hrev, splitAtFirst_append (by simpa using h)]
  simp

theorem splitAtLast_of_not_mem {sep : Char} {s : Text} (h : sep ∉ s) :
    splitAtLast sep s = (none, s) := by
  rw [splitAtLast, splitAtFirst_of_not_mem (by simpa using h)]

/-- A query of one parameter. -/
theorem getQueryParameter_of_encodedQuery {key value s : Text}
    (h : encodedQuery s = some (parameter key value)) (hkey : '=' ∉ Percent.encode key)
    (hamp : '&' ∉ parameter key value) : getQueryParameter key s = some value := by
  have hsplit : splitAtFirst '=' (parameter key value)
      = (Percent.encode key, some (Percent.encode value)) := splitAtFirst_append hkey _
  rw [getQueryParameter, h]
  show ((split '&' (parameter key value)).find? _).map _ = _
  rw [split_of_not_mem hamp, List.find?_cons_of_pos (by simp [hsplit])]
  simp [hsplit, Percent.decode_encode]

end Uri

/-! ### Hosts -/

namespace Host

open Text

/-- A number of at most three digits that fits into a byte. -/
def isByte (s : Text) : Bool :=
  s.all Number.isDigit && decide (s.length ≤ 3) && (Number.parseMagnitude 255 s).isSome

def isIPv4Literal (s : Text) : Bool := (split '.' s).length = 4 && (split '.' s).all isByte

/-- Up to four hexadecimal digits. -/
def isHexGroup (s : Text) : Bool :=
  s ≠ [] && decide (s.length ≤ 4) && s.all fun c => (Percent.hexValue c).isSome

/-- How many groups of 16 bits stand for; the last may be an IPv4 literal, which stands for two. -/
def units : List Text → Option Nat
  | [] => some 0
  | [g] => if isHexGroup g then some 1 else if isIPv4Literal g then some 2 else none
  | g :: gs => if isHexGroup g then (units gs).map (· + 1) else none

/-- Letters, digits and hyphens, with no hyphen at either end. -/
def isLabel (s : Text) : Bool :=
  s ≠ [] && (s.all fun c => Percent.isAlphanumeric c || c = '-') && s.head? ≠ some '-' &&
    s.getLast? ≠ some '-'

/-- The labels of a name, which may end with the dot of the root. -/
def labels (s : Text) : List Text :=
  if (split '.' s).getLast? = some [] then (split '.' s).dropLast else split '.' s

/-- A DNS name.  The top-level label of a name with several labels starts with a letter. -/
def isDnsName (s : Text) : Bool :=
  (labels s).all isLabel && labels s ≠ [] &&
    (decide ((labels s).length = 1) ||
      ((labels s).getLast?.bind List.head?).any Char.isAlpha)

end Host

open Host in
/-- The hosts of servers. -/
inductive IsHost : Text → Prop
  | ipv4 {s : Text} (h : isIPv4Literal s = true) : IsHost s
  | ipv6 {groups : List Text} (h : units groups = some 8) : IsHost (Text.join [':'] groups)
  | ipv6Compressed {left right : List Text} {n : Nat} (hl : left.all isHexGroup = true)
      (hr : units right = some n) (hn : left.length + n ≤ 7) :
      IsHost (Text.join [':'] left ++ ':' :: ':' :: Text.join [':'] right)
  | dnsName {s : Text} (h : isDnsName s = true) : IsHost s

/-- A host in an authority: one with colons stands in brackets. -/
def wrappedHost (host : Text) : Text :=
  if host.contains ':' then '[' :: host ++ [']'] else host

/-- `"$userInfo@$wrappedHost:$port"`. -/
def authority (userInfo host : Text) (port : Int) : Text :=
  userInfo ++ '@' :: (wrappedHost host ++ ':' :: Number.ofInt port)

/-- `java.net.URI`: the host and the port of a text, `none` for a `URISyntaxException`.  It finds
those the text was joined from. -/
structure URI where
  parse : Text → Option (Option Text × Int)
  parse_text : ∀ {userInfo host : Text} {port : Int} (parameter : Option (Text × Text))
    (fragment : Option Text), (∀ c ∈ userInfo, Percent.isUnreserved c = true) → IsHost host →
    1 ≤ port → port ≤ 65535 →
    parse (Uri.text "ss".toList (authority userInfo host port)
        (parameter.map fun x => Uri.parameter x.1 x.2) (fragment.map Percent.encode))
      = some (some (wrappedHost host), port)

namespace Host

open Text

/-- What may stand in a host. -/
def isHostChar (c : Char) : Bool := Percent.isAlphanumeric c || [':', '.', '-'].contains c

theorem isAlphanumeric_of_isDigit {c : Char} (h : Number.isDigit c = true) :
    Percent.isAlphanumeric c = true := by
  have hd : c.isDigit = true := by
    simp only [Number.isDigit, Bool.and_eq_true, decide_eq_true_eq] at h
    simp only [Char.isDigit, Bool.and_eq_true, decide_eq_true_eq, ge_iff_le, UInt32.le_iff_toNat_le]
    exact h
  simp [Percent.isAlphanumeric, hd]

theorem isHostChar_of_isDigit {c : Char} (h : Number.isDigit c = true) : isHostChar c = true := by
  simp [isHostChar, isAlphanumeric_of_isDigit h]

theorem isHostChar_of_hexValue {c : Char} (h : (Percent.hexValue c).isSome = true) :
    isHostChar c = true := by
  have hletter : 0x41 ≤ c.toNat ∧ c.toNat ≤ 0x46 ∨ 0x61 ≤ c.toNat ∧ c.toNat ≤ 0x66 →
      c.isAlpha = true := by
    intro h
    simp only [Char.isAlpha, Char.isUpper, Char.isLower, Bool.or_eq_true, Bool.and_eq_true,
      decide_eq_true_eq, ge_iff_le, UInt32.le_iff_toNat_le]
    have hval : c.val.toNat = c.toNat := rfl
    rcases h with h | h
    · refine Or.inl ⟨h.1, ?_⟩
      rw [hval]
      exact h.2.trans (by decide)
    · refine Or.inr ⟨h.1, ?_⟩
      rw [hval]
      exact h.2.trans (by decide)
  rw [Percent.hexValue] at h
  split at h
  · rename_i hd
    simp [isHostChar, Percent.isAlphanumeric, hd]
  · split at h
    · rename_i hu
      simp only [Bool.and_eq_true, decide_eq_true_eq] at hu
      simp [isHostChar, Percent.isAlphanumeric, hletter (Or.inl hu)]
    · split at h
      · rename_i hl
        simp only [Bool.and_eq_true, decide_eq_true_eq] at hl
        simp [isHostChar, Percent.isAlphanumeric, hletter (Or.inr hl)]
      · simp at h

theorem mem_join {sep : Text} {c : Char} : ∀ {ss : List Text}, c ∈ join sep ss →
    c ∈ sep ∨ ∃ s ∈ ss, c ∈ s
  | [], h => by simp [join] at h
  | [s], h => Or.inr ⟨s, by simp, h⟩
  | s :: t :: ss, h => by
    rw [join, List.mem_append, List.mem_append] at h
    rcases h with (h | h) | h
    · exact Or.inr ⟨s, by simp, h⟩
    · exact Or.inl h
    · rcases mem_join h with h | ⟨u, hu, hc⟩
      · exact Or.inl h
      · exact Or.inr ⟨u, List.mem_cons_of_mem _ hu, hc⟩

/-- A character of a text is the separator or stands in a piece. -/
theorem mem_split (sep : Char) {c : Char} : ∀ {s : Text}, c ∈ s → c = sep ∨ ∃ p ∈ split sep s, c ∈ p
  | [], h => by simp at h
  | d :: s, h => by
    rw [split]
    split
    · rename_i hd
      rcases List.mem_cons.mp h with rfl | h
      · exact Or.inl hd
      · rcases mem_split sep h with h | ⟨p, hp, hc⟩
        · exact Or.inl h
        · exact Or.inr ⟨p, List.mem_cons_of_mem _ hp, hc⟩
    · split
      · rename_i p ps heq
        rcases List.mem_cons.mp h with rfl | h
        · exact Or.inr ⟨c :: p, List.mem_cons_self, List.mem_cons_self⟩
        · rcases mem_split sep h with h | ⟨q, hq, hc⟩
          · exact Or.inl h
          · rw [heq] at hq
            rcases List.mem_cons.mp hq with rfl | hq
            · exact Or.inr ⟨d :: q, List.mem_cons_self, List.mem_cons_of_mem _ hc⟩
            · exact Or.inr ⟨q, List.mem_cons_of_mem _ hq, hc⟩
      · rename_i heq
        exact absurd heq (split_ne_nil sep s)

theorem isHostChar_of_isIPv4Literal {s : Text} (h : isIPv4Literal s = true) :
    ∀ c ∈ s, isHostChar c = true := by
  simp only [isIPv4Literal, Bool.and_eq_true, List.all_eq_true] at h
  intro c hc
  rcases mem_split '.' hc with rfl | ⟨p, hp, hc⟩
  · decide
  · have hbyte := h.2 p hp
    simp only [isByte, Bool.and_eq_true, List.all_eq_true] at hbyte
    exact isHostChar_of_isDigit (hbyte.1.1 c hc)

theorem isHostChar_of_isHexGroup {s : Text} (h : isHexGroup s = true) :
    ∀ c ∈ s, isHostChar c = true := by
  simp only [isHexGroup, Bool.and_eq_true, List.all_eq_true] at h
  exact fun c hc => isHostChar_of_hexValue (h.2 c hc)

theorem isHostChar_of_units : ∀ {groups : List Text} {n : Nat}, units groups = some n →
    ∀ g ∈ groups, ∀ c ∈ g, isHostChar c = true
  | [], _, _, g, hg => by simp at hg
  | [g], _, h, g', hg' => by
    obtain rfl : g' = g := List.mem_singleton.mp hg'
    rw [units] at h
    split at h
    · rename_i hhex
      exact isHostChar_of_isHexGroup hhex
    · split at h
      · rename_i hv4
        exact isHostChar_of_isIPv4Literal hv4
      · simp at h
  | g :: g₂ :: gs, _, h, g', hg' => by
    rw [units] at h
    · split at h
      · rename_i hhex
        obtain ⟨m, hm, -⟩ := Option.map_eq_some_iff.mp h
        rcases List.mem_cons.mp hg' with rfl | hg'
        · exact isHostChar_of_isHexGroup hhex
        · exact isHostChar_of_units hm g' hg'
      · simp at h
    · simp

theorem isHostChar_of_isDnsName {s : Text} (h : isDnsName s = true) :
    ∀ c ∈ s, isHostChar c = true := by
  simp only [isDnsName, Bool.and_eq_true, List.all_eq_true] at h
  intro c hc
  rcases mem_split '.' hc with rfl | ⟨p, hp, hc⟩
  · decide
  · -- the empty piece behind a final dot has no character
    have hlabel : p ∈ labels s := by
      rw [labels]
      split
      · rename_i hlast
        rw [← List.dropLast_append_getLast? _ hlast] at hp
        rcases List.mem_append.mp hp with hp | hp
        · exact hp
        · rw [List.mem_singleton.mp hp] at hc
          simp at hc
      · exact hp
    have hl := h.1.1 p hlabel
    simp only [isLabel, Bool.and_eq_true, List.all_eq_true, Bool.or_eq_true, decide_eq_true_eq] at hl
    rcases hl.1.1.2 c hc with h | rfl
    · simp [isHostChar, h]
    · decide

end Host

open Host in
/-- What stands in a host. -/
theorem IsHost.isHostChar {s : Text} (h : IsHost s) : ∀ c ∈ s, isHostChar c = true := by
  intro c hc
  cases h with
  | ipv4 h => exact isHostChar_of_isIPv4Literal h c hc
  | ipv6 h =>
    rcases mem_join hc with hc | ⟨g, hg, hc⟩
    · rw [List.mem_singleton.mp hc]
      decide
    · exact isHostChar_of_units h g hg c hc
  | ipv6Compressed hl hr hn =>
    simp only [List.mem_append, List.mem_cons] at hc
    rcases hc with hc | rfl | rfl | hc
    · rcases mem_join hc with hc | ⟨g, hg, hc⟩
      · rw [List.mem_singleton.mp hc]
        decide
      · exact isHostChar_of_isHexGroup (List.all_eq_true.mp hl g hg) c hc
    · decide
    · decide
    · rcases mem_join hc with hc | ⟨g, hg, hc⟩
      · rw [List.mem_singleton.mp hc]
        decide
      · exact isHostChar_of_units hr g hg c hc
  | dnsName h => exact isHostChar_of_isDnsName h c hc

/-! ### Authorities -/

section Authority

open Host

variable {userInfo host : Text} {port : Int}

theorem mem_ofInt {c : Char} (hport : 1 ≤ port) (hc : c ∈ Number.ofInt port) :
    Number.isDigit c = true := by
  cases port with
  | ofNat n => exact Number.mem_decimal hc
  | negSucc n => exact absurd hport (by omega)

theorem ofInt_ne_nil (hport : 1 ≤ port) : Number.ofInt port ≠ [] := by
  cases port with
  | ofNat n => exact Number.decimal_ne_nil n
  | negSucc n => exact absurd hport (by omega)

theorem mem_wrappedHost {c : Char} (hhost : IsHost host) (hc : c ∈ wrappedHost host) :
    isHostChar c = true ∨ c = '[' ∨ c = ']' := by
  rw [wrappedHost] at hc
  split at hc
  · simp only [List.cons_append, List.mem_cons, List.mem_append, List.not_mem_nil, or_false] at hc
    rcases hc with hc | hc | hc
    · exact Or.inr (Or.inl hc)
    · exact Or.inl (hhost.isHostChar c hc)
    · exact Or.inr (Or.inr hc)
  · exact Or.inl (hhost.isHostChar c hc)

theorem mem_authority {c : Char} (hhost : IsHost host) (hport : 1 ≤ port)
    (hc : c ∈ authority userInfo host port) :
    c ∈ userInfo ∨ isHostChar c = true ∨ c = '[' ∨ c = ']' ∨ c = '@' := by
  simp only [authority, List.mem_append, List.mem_cons] at hc
  rcases hc with hc | hc | hc | hc | hc
  · exact Or.inl hc
  · exact Or.inr (Or.inr (Or.inr (Or.inr hc)))
  · rcases mem_wrappedHost hhost hc with h | h | h
    · exact Or.inr (Or.inl h)
    · exact Or.inr (Or.inr (Or.inl h))
    · exact Or.inr (Or.inr (Or.inr (Or.inl h)))
  · rw [hc]
    exact Or.inr (Or.inl (by decide))
  · exact Or.inr (Or.inl (isHostChar_of_isDigit (mem_ofInt hport hc)))

theorem not_endsAuthority {c : Char} (hhost : IsHost host) (hport : 1 ≤ port)
    (hinfo : ∀ c ∈ userInfo, Percent.isUnreserved c = true) (hc : c ∈ authority userInfo host port) :
    Uri.endsAuthority c = false := by
  rw [Bool.eq_false_iff]
  intro hend
  have hcases : c = '/' ∨ c = '\\' ∨ c = '?' ∨ c = '#' := by simpa [Uri.endsAuthority] using hend
  rcases mem_authority hhost hport hc with h | h | h
  · have hu := hinfo c h
    rcases hcases with rfl | rfl | rfl | rfl <;> exact absurd hu (by decide)
  · rcases hcases with rfl | rfl | rfl | rfl <;> exact absurd h (by decide)
  · rcases hcases with rfl | rfl | rfl | rfl <;> exact absurd h (by decide)

theorem at_not_mem (hhost : IsHost host) (hport : 1 ≤ port) :
    '@' ∉ wrappedHost host ++ ':' :: Number.ofInt port := by
  intro h
  simp only [List.mem_append, List.mem_cons] at h
  rcases h with h | h | h
  · exact absurd (mem_wrappedHost hhost h) (by decide)
  · exact absurd h (by decide)
  · exact absurd (mem_ofInt hport h) (by decide)

theorem withoutPort_append (h : Text) (hport : 1 ≤ port) :
    Uri.withoutPort (h ++ ':' :: Number.ofInt port) = h := by
  have hdigits : ∀ c ∈ (Number.ofInt port).reverse, Number.isDigit c = true :=
    fun c hc => mem_ofInt hport (List.mem_reverse.mp hc)
  have hrev : (h ++ ':' :: Number.ofInt port).reverse
      = (Number.ofInt port).reverse ++ ':' :: h.reverse := by simp
  rw [Uri.withoutPort, hrev, List.dropWhile_append_of_pos hdigits,
    List.dropWhile_cons_of_neg (by decide)]
  exact List.reverse_reverse h

end Authority

/-- A parser that takes authorities apart and does not look at the rest. -/
def URI.splitting : URI where
  parse := fun s =>
    match Uri.encodedAuthority s with
    | none => some (none, -1)
    | some a =>
        let hostPort := (Uri.splitAtLast '@' a).2
        let host := Uri.withoutPort hostPort
        some (some host, (Number.parseInt (hostPort.drop (host.length + 1))).getD (-1))
  parse_text := by
    intro userInfo host port parameter fragment hinfo hhost hlo hhi
    have hport : Number.parseInt (Number.ofInt port) = some port :=
      Number.parseInteger_ofInt (by omega) (by omega)
    have hdrop : (wrappedHost host ++ ':' :: Number.ofInt port).drop ((wrappedHost host).length + 1)
        = Number.ofInt port := by
      rw [← List.drop_drop, List.drop_left]
      rfl
    rw [Uri.encodedAuthority_text _ _ (by decide)
      fun c hc => not_endsAuthority hhost hlo hinfo hc]
    simp only [authority, Uri.splitAtLast_append (at_not_mem hhost hlo), withoutPort_append _ hlo,
      hdrop, hport, Option.getD_some]

end SsAndroid
