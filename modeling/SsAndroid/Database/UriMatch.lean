import SsAndroid.Database.ProfileUri

/-!
# What the pattern matches of an exported URI

The characters of an exported URI all belong to the class `isUrlChar`, except for the underscore,
which URL-safe Base64 writes for its last digit and which percent escapes leave alone.  An
exclamation mark may stand inside a match and not at its end.  So a match is broken off in front of
the first underscore, and the exclamation marks in front of that are dropped (`cut`).

* **`findAll_broken`**: a URI that breaks off in the user info;
* **`findAll_link`**: any other is matched down to the plugin or the name (`matchedParts`).
-/

namespace SsAndroid

namespace Profile

open Regex

/-! ### Where a text is broken off -/

/-- What is left of an escaped text when its URI is matched. -/
def cut (s : Text) : Text := ((s.takeWhile (· ≠ '_')).reverse.dropWhile (· = '!')).reverse

/-- A text is what is left of it, then exclamation marks, then nothing or an underscore. -/
theorem cut_spec (s : Text) : ∃ n rest, s = cut s ++ (List.replicate n '!' ++ rest) ∧
    '_' ∉ cut s ∧ (cut s).getLast? ≠ some '!' ∧ (rest = [] ∨ ∃ t, rest = '_' :: t) := by
  let front := s.takeWhile (· ≠ '_')
  let rest := s.dropWhile (· ≠ '_')
  let marks := front.reverse.takeWhile (· = '!')
  have hsplit : s = front ++ rest := List.takeWhile_append_dropWhile.symm
  have hfront : front = cut s ++ marks.reverse := by
    have h : marks ++ front.reverse.dropWhile (· = '!') = front.reverse :=
      List.takeWhile_append_dropWhile
    rw [← List.reverse_reverse front, ← h, List.reverse_append]
    rfl
  have hmarks : marks.reverse = List.replicate marks.length '!' := by
    rw [List.eq_replicate_iff]
    refine ⟨List.length_reverse, fun c hc => ?_⟩
    simpa using List.mem_takeWhile_imp (List.mem_reverse.mp hc)
  refine ⟨marks.length, rest, ?_, ?_, ?_, ?_⟩
  · rw [← List.append_assoc, ← hmarks, ← hfront]
    exact hsplit
  · intro h
    have hmem : '_' ∈ front := by
      rw [hfront]
      exact List.mem_append_left _ h
    simpa using List.mem_takeWhile_imp hmem
  · rw [cut, List.getLast?_reverse]
    intro h
    simpa using Text.head_dropWhile_not _ _ h
  · cases hrest : rest with
    | nil => exact Or.inl rfl
    | cons c t =>
      have hc := Text.head_dropWhile_not (p := (· ≠ '_')) s c (by
        show rest.head? = some c
        rw [hrest]
        rfl)
      exact Or.inr ⟨t, by simpa using hc⟩

theorem cut_eq_self {s : Text} (h : Unbroken s) : cut s = s := by
  obtain ⟨n, rest, hs, -, hlast, hrest⟩ := cut_spec s
  obtain rfl : rest = [] := by
    rcases hrest with h' | ⟨t, rfl⟩
    · exact h'
    · exact absurd (by rw [hs]; simp) h.1
  rw [List.append_nil] at hs
  cases n with
  | zero => simpa using hs.symm
  | succ n =>
    have hend : s.getLast? = some '!' := by
      rw [hs, List.replicate_succ']
      simp
    exact absurd hend h.2

theorem unbroken_cut (s : Text) : Unbroken (cut s) := by
  obtain ⟨n, rest, -, hmem, hlast, -⟩ := cut_spec s
  exact ⟨hmem, hlast⟩

/-- A text that is broken off loses an underscore or an exclamation mark. -/
theorem count_cut_lt {s : Text} (h : ¬ Unbroken s) :
    cut s <+: s ∧ ∃ c, (c = '_' ∨ c = '!') ∧ (cut s).count c < s.count c := by
  obtain ⟨n, rest, hs, hmem, hlast, hrest⟩ := cut_spec s
  refine ⟨⟨_, hs.symm⟩, ?_⟩
  have hcount : ∀ c, s.count c = (cut s).count c + ((List.replicate n '!').count c + rest.count c) := by
    intro c
    conv_lhs => rw [hs]
    rw [List.count_append, List.count_append]
  rcases hrest with rfl | ⟨t, rfl⟩
  · cases n with
    | zero =>
      -- nothing was lost
      rw [List.replicate_zero, List.nil_append, List.append_nil] at hs
      exact absurd (by rw [hs]; exact ⟨hmem, hlast⟩) h
    | succ n =>
      refine ⟨'!', Or.inr rfl, ?_⟩
      have h' := hcount '!'
      simp at h'
      omega
  · refine ⟨'_', Or.inl rfl, ?_⟩
    have h' := hcount '_'
    simp [List.count_replicate] at h'
    omega

/-! ### The pattern -/

/-- The start of every URI. -/
def ss : Text := ['s', 's', ':', '/', '/']

theorem pattern_eq : pattern
    = literalIgnoreCase ss ++ [⟨isUrlChar, .star⟩, ⟨isLastUrlChar, .once⟩] := rfl

theorem isUrlChar_of_isLastUrlChar {c : Char} (h : isLastUrlChar c = true) : isUrlChar c = true := by
  simp only [isLastUrlChar, Bool.or_eq_true, List.contains_iff_mem] at h
  simp only [isUrlChar, Bool.or_eq_true, List.contains_iff_mem]
  rcases h with h | h
  · exact Or.inl h
  · refine Or.inr (List.Subset.trans ?_ (List.Subset.refl _) h)
    decide

/-- The last item of the pattern. -/
def lastItem : Text → Option (List Text) :=
  matchItems (fun _ => true) [⟨isLastUrlChar, .once⟩]

theorem lastItem_cons (c : Char) (s : Text) :
    lastItem (c :: s) = if isLastUrlChar c then some [[c]] else none := by
  rw [lastItem, matchItems, Item.run]
  show (once isLastUrlChar _ (c :: s)).map _ = _
  rw [once]
  split <;> rfl

/-- A match ends with the last character that may end one, in the longest run of URL characters. -/
theorem matchPrefix_pattern {u t : Text} {last : Char} (hu : ∀ c ∈ u, isUrlChar c = true)
    (hlast : isLastUrlChar last = true) (ht : star isUrlChar lastItem t = none) :
    matchPrefix pattern (ss ++ (u ++ last :: t)) = some (ss ++ (u ++ [last])) := by
  have hstop : star isUrlChar lastItem (last :: t) = some ([], [[last]]) :=
    star_stop ht (by rw [lastItem_cons, if_pos hlast])
  have hstar := star_append hstop hu
  have hmatch : matchItems (fun _ => true) [⟨isUrlChar, .star⟩, ⟨isLastUrlChar, .once⟩]
      (u ++ last :: t) = some [u, [last]] := by
    rw [matchItems, Item.run]
    show (star isUrlChar lastItem (u ++ last :: t)).map _ = _
    rw [hstar]
    simp
  rw [matchPrefix, pattern_eq, matchItems_literal, hmatch]
  simp [ss]

/-- Nothing more is matched in exclamation marks and the like, or behind an underscore. -/
theorem star_rest_none (marks rest : Text) (hmarks : ∀ c ∈ marks, isLastUrlChar c = false)
    (hrest : ∀ c ∈ rest.head?, isUrlChar c = false) :
    star isUrlChar lastItem (marks ++ rest) = none := by
  have hnone : star isUrlChar lastItem rest = none := by
    cases rest with
    | nil => rfl
    | cons c t =>
      have hc : isUrlChar c = false := hrest c rfl
      have hlast : isLastUrlChar c = false := by
        rw [Bool.eq_false_iff]
        intro h
        rw [isUrlChar_of_isLastUrlChar h] at hc
        exact Bool.noConfusion hc
      simp [Regex.star, hc, lastItem_cons, hlast]
  refine star_append_none hnone fun c hc s => ?_
  rw [lastItem_cons, if_neg (by simp [hmarks c hc])]

theorem eq_slash_of_toLower {c : Char} (h : c.toLower = '/') : c = '/' := by
  rw [Char.toLower] at h
  split at h
  · rename_i hc
    have hval := congrArg (fun d : Char => d.val.toNat) h
    have hlo : 65 ≤ c.val.toNat := hc.1
    have hhi : c.val.toNat ≤ 90 := hc.2
    have hsum : (c.val + ('a'.val - 'A'.val)).toNat = c.val.toNat + 32 := by
      rw [UInt32.toNat_add]
      show (c.val.toNat + 32) % 2 ^ 32 = _
      omega
    have hslash : (c.val + ('a'.val - 'A'.val)).toNat = 47 := hval
    omega
  · exact h

/-- A URI starts with slashes, so a text without any has none. -/
theorem matchPrefix_none_of_no_slash {s : Text} (h : '/' ∉ s) : matchPrefix pattern s = none := by
  have hnot : ¬ ss.map Char.toLower <+: s.map Char.toLower := by
    intro hp
    have hmem : '/' ∈ s.map Char.toLower := hp.subset (by decide)
    obtain ⟨c, hc, hlower⟩ := List.mem_map.mp hmem
    rw [eq_slash_of_toLower hlower] at hc
    exact h hc
  rw [matchPrefix, pattern_eq, matchItems_literal_none _ _ hnot]
  rfl

theorem findAll_of_no_slash {s : Text} (h : '/' ∉ s) : findAll pattern s = [] :=
  findAll_eq_nil fun _ ht => matchPrefix_none_of_no_slash fun hm => h (ht.subset hm)

/-- The only match in a URI. -/
theorem findAll_ss {u t : Text} {last : Char} (hu : ∀ c ∈ u, isUrlChar c = true)
    (hlast : isLastUrlChar last = true) (ht : star isUrlChar lastItem t = none) (hslash : '/' ∉ t) :
    findAll pattern (ss ++ (u ++ last :: t)) = [ss ++ (u ++ [last])] := by
  have hmatch := matchPrefix_pattern hu hlast ht
  have hassoc : ss ++ (u ++ last :: t) = ss ++ (u ++ [last]) ++ t := by simp
  rw [hassoc] at hmatch ⊢
  have hfirst : findAll pattern (ss ++ (u ++ [last]) ++ t)
      = (ss ++ (u ++ [last])) :: findAll pattern t := findAll_of_matchPrefix hmatch
  rw [hfirst, findAll_of_no_slash hslash]

/-- No match at all. -/
theorem findAll_ss_nil {c : Char} {t : Text} (hc : isUrlChar c = false) (hslash : '/' ∉ c :: t) :
    findAll pattern (ss ++ c :: t) = [] := by
  have hfirst : matchPrefix pattern (ss ++ c :: t) = none := by
    have hstar : star isUrlChar lastItem (c :: t) = none :=
      star_rest_none [] _ (by simp) (by simpa using hc)
    have hmatch : matchItems (fun _ => true) [⟨isUrlChar, .star⟩, ⟨isLastUrlChar, .once⟩]
        (c :: t) = none := by
      rw [matchItems, Item.run]
      show (star isUrlChar lastItem (c :: t)).map _ = _
      rw [hstar]
      rfl
    rw [matchPrefix, pattern_eq, matchItems_literal, hmatch]
    rfl
  have hnot : ∀ s : Text, ¬ ss.map Char.toLower <+: s.map Char.toLower →
      matchPrefix pattern s = none := by
    intro s hs
    rw [matchPrefix, pattern_eq, matchItems_literal_none _ _ hs]
    rfl
  -- the slashes of the URI itself do not start another one
  have h1 := hnot ('s' :: ':' :: '/' :: '/' :: c :: t) (by simp [ss])
  have h2 := hnot (':' :: '/' :: '/' :: c :: t) (by simp [ss])
  have h3 := hnot ('/' :: '/' :: c :: t) (by simp [ss])
  have h4 := hnot ('/' :: c :: t) (by simp [ss])
  have h0 : matchPrefix pattern ('s' :: 's' :: ':' :: '/' :: '/' :: c :: t) = none := hfirst
  show findAll pattern ('s' :: 's' :: ':' :: '/' :: '/' :: c :: t) = []
  rw [findAll_cons h0, findAll_cons h1, findAll_cons h2, findAll_cons h3, findAll_cons h4,
    findAll_of_no_slash hslash]

/-! ### Escaped texts -/

theorem isUrlChar_of_isAlphanumeric {c : Char} (h : Percent.isAlphanumeric c = true) :
    isUrlChar c = true := by
  simp [isUrlChar, h]

theorem isLastUrlChar_of_isUnreserved {c : Char} (h : Percent.isUnreserved c = true)
    (hunder : c ≠ '_') (hmark : c ≠ '!') : isLastUrlChar c = true := by
  simp only [Percent.isUnreserved, Bool.or_eq_true, List.contains_iff_mem] at h
  rcases h with h | h
  · simp [isLastUrlChar, h]
  · have hcases : c = '_' ∨ c = '-' ∨ c = '!' ∨ c = '.' ∨ c = '~' ∨ c = '\'' ∨ c = '(' ∨ c = ')' ∨
        c = '*' := by simpa using h
    rcases hcases with rfl | rfl | rfl | rfl | rfl | rfl | rfl | rfl | rfl
    · exact absurd rfl hunder
    · decide
    · exact absurd rfl hmark
    all_goals decide

theorem isUrlChar_of_isUnreserved {c : Char} (h : Percent.isUnreserved c = true) (hunder : c ≠ '_') :
    isUrlChar c = true := by
  by_cases hmark : c = '!'
  · subst hmark
    decide
  · exact isUrlChar_of_isLastUrlChar (isLastUrlChar_of_isUnreserved h hunder hmark)

theorem isUrlChar_of_mem_encode {s : Text} (h : '_' ∉ s) :
    ∀ c ∈ Percent.encode s, isUrlChar c = true := by
  intro c hc
  rcases Percent.mem_encode hc with rfl | hc | ⟨hu, hc⟩
  · decide
  · exact isUrlChar_of_isAlphanumeric hc
  · exact isUrlChar_of_isUnreserved hu (by rintro rfl; exact h hc)

theorem slash_not_mem_encode (s : Text) : '/' ∉ Percent.encode s :=
  Percent.not_mem_encode (by decide) (by decide) s

/-- The last character written for a character. -/
theorem getLast?_encodeChar (c : Char) : ∃ d, (Percent.encodeChar c).getLast? = some d ∧
    (d = c ∧ Percent.isUnreserved c = true ∨ Percent.isAlphanumeric d = true) := by
  rw [Percent.encodeChar]
  split
  · rename_i hc
    exact ⟨c, rfl, Or.inl ⟨rfl, hc⟩⟩
  · have hne : String.utf8EncodeChar c ≠ [] := by
      intro h
      have hlen := String.length_utf8EncodeChar c
      rw [h] at hlen
      exact absurd c.utf8Size_pos (by simp [← hlen])
    obtain ⟨bs, b, hbs⟩ : ∃ bs b, String.utf8EncodeChar c = bs ++ [b] :=
      ⟨_, _, (List.dropLast_append_getLast hne).symm⟩
    have hb : b.toNat < 256 := b.toNat_lt
    rw [hbs]
    refine ⟨Percent.hexDigit (b.toNat % 16), ?_, Or.inr (Percent.isAlphanumeric_hexDigit _ (by omega))⟩
    simp [Percent.escapeByte]

/-- A text that is not broken off may end a match. -/
theorem getLast?_encode {s : Text} (hs : s ≠ []) (h : Unbroken s) :
    ∃ d, (Percent.encode s).getLast? = some d ∧ isLastUrlChar d = true := by
  obtain ⟨t, c, rfl⟩ : ∃ t c, s = t ++ [c] := ⟨_, _, (List.dropLast_append_getLast hs).symm⟩
  obtain ⟨d, hd, hcases⟩ := getLast?_encodeChar c
  refine ⟨d, ?_, ?_⟩
  · rw [Percent.encode_append, List.getLast?_append]
    have hone : Percent.encode [c] = Percent.encodeChar c := by simp [Percent.encode]
    rw [hone, hd]
    rfl
  · rcases hcases with ⟨rfl, hu⟩ | halnum
    · refine isLastUrlChar_of_isUnreserved hu ?_ ?_
      · rintro rfl
        exact h.1 (by simp)
      · rintro rfl
        exact h.2 (by simp)
    · simp [isLastUrlChar, halnum]

/-! ### Where a URI is broken off -/

/-- A run of URL characters that may end a match. -/
def Complete (u : Text) : Prop :=
  (∀ c ∈ u, isUrlChar c = true) ∧ ∃ last, u.getLast? = some last ∧ isLastUrlChar last = true

theorem Complete.append {u v : Text} (hu : ∀ c ∈ u, isUrlChar c = true) (hv : Complete v) :
    Complete (u ++ v) := by
  obtain ⟨last, hlast, hl⟩ := hv.2
  refine ⟨fun c hc => ?_, last, by rw [List.getLast?_append, hlast]; rfl, hl⟩
  rcases List.mem_append.mp hc with hc | hc
  · exact hu c hc
  · exact hv.1 c hc

/-- A complete run is matched if no match is possible behind it. -/
theorem Complete.findAll {u t : Text} (hu : Complete u) (ht : star isUrlChar lastItem t = none)
    (hslash : '/' ∉ t) : findAll pattern (ss ++ (u ++ t)) = [ss ++ u] := by
  obtain ⟨last, hlast, hl⟩ := hu.2
  have hsplit : u = u.dropLast ++ [last] := (List.dropLast_append_getLast? last hlast).symm
  have hfront : ∀ c ∈ u.dropLast, isUrlChar c = true := fun c hc => hu.1 c (List.dropLast_subset _ hc)
  have hfind := findAll_ss hfront hl ht hslash
  rw [← hsplit] at hfind
  rw [← hfind]
  congr 2
  rw [← List.singleton_append (l := t), ← List.append_assoc, ← hsplit]

theorem complete_encode {u s : Text} (hu : Complete u) (hs : Unbroken s) :
    Complete (u ++ Percent.encode s) := by
  by_cases hnil : s = []
  · rw [hnil]
    show Complete (u ++ [])
    rw [List.append_nil]
    exact hu
  · obtain ⟨d, hd, hl⟩ := getLast?_encode hnil hs
    exact Complete.append hu.1 ⟨isUrlChar_of_mem_encode hs.1, d, hd, hl⟩

theorem encode_replicate (n : Nat) :
    Percent.encode (List.replicate n '!') = List.replicate n '!' := by
  induction n with
  | zero => rfl
  | succ n ih =>
    rw [List.replicate_succ, Percent.encode, List.flatMap_cons]
    rw [Percent.encode] at ih
    rw [ih]
    rfl

/-- **An escaped text is matched as far as `cut` says**, at the end of the URI or in front of
anything if it holds an underscore. -/
theorem findAll_escaped {u s rest : Text} (hu : Complete u) (hrest : rest = [] ∨ '_' ∈ s)
    (hslash : '/' ∉ rest) :
    findAll pattern (ss ++ (u ++ (Percent.encode s ++ rest))) = [ss ++ (u ++ Percent.encode (cut s))] := by
  obtain ⟨n, tail, hs, hunder, -, htail⟩ := cut_spec s
  have hmarks : '_' ∉ List.replicate n '!' := by simp [List.mem_replicate]
  have henc : Percent.encode s = Percent.encode (cut s) ++
      (List.replicate n '!' ++ Percent.encode tail) := by
    conv_lhs => rw [hs]
    rw [Percent.encode_append, Percent.encode_append, encode_replicate]
  have hhead : ∀ c ∈ (Percent.encode tail ++ rest).head?, isUrlChar c = false := by
    intro c hc
    rcases htail with rfl | ⟨t, rfl⟩
    · have hnil : rest = [] := by
        rcases hrest with h | h
        · exact h
        · rw [hs, List.append_nil, List.mem_append] at h
          exact absurd h (by simp [hunder, hmarks])
      rw [hnil] at hc
      simp [Percent.encode] at hc
    · have hc' : c = '_' := by
        simp [Percent.encode, Percent.encodeChar, show Percent.isUnreserved '_' = true from rfl] at hc
        exact hc.symm
      rw [hc']
      decide
  have hnone : star isUrlChar lastItem (List.replicate n '!' ++ (Percent.encode tail ++ rest)) = none :=
    star_rest_none _ _ (fun c hc => by rw [List.eq_of_mem_replicate hc]; decide) hhead
  have hno : '/' ∉ List.replicate n '!' ++ (Percent.encode tail ++ rest) := by
    simp [List.mem_replicate, slash_not_mem_encode, hslash]
  have hfind := (complete_encode hu (unbroken_cut s)).findAll hnone hno
  rw [← hfind, henc]
  congr 1
  simp only [List.append_assoc]

/-! ### The parts of a URI -/

theorem digit_cases : ∀ d < 64, Percent.isAlphanumeric (Base64.digit true d) = true ∨
    Base64.digit true d = '-' ∨ d = 63 ∧ Base64.digit true d = '_' := by
  decide +kernel

theorem isUnreserved_of_mem_auth (p : Profile) : ∀ c ∈ p.auth, Percent.isUnreserved c = true := by
  intro c hc
  obtain ⟨d, hd, rfl⟩ := List.mem_map.mp hc
  rcases digit_cases d (Base64.sextets_lt _ d hd) with h | h | ⟨-, h⟩
  · simp [Percent.isUnreserved, h]
  · rw [h]
    decide
  · rw [h]
    decide

/-- Digits other than the last may end a match. -/
theorem isLastUrlChar_digit {ds : List Nat} (hds : ∀ d ∈ ds, d < 64) (h : 63 ∉ ds) :
    ∀ c ∈ ds.map (Base64.digit true), isLastUrlChar c = true := by
  intro c hc
  obtain ⟨d, hd, rfl⟩ := List.mem_map.mp hc
  rcases digit_cases d (hds d hd) with h' | h' | ⟨rfl, -⟩
  · simp [isLastUrlChar, h']
  · rw [h']
    decide
  · exact absurd hd h

theorem isUrlChar_of_isHostChar {c : Char} (h : Host.isHostChar c = true) : isUrlChar c = true := by
  simp only [Host.isHostChar, Bool.or_eq_true, List.contains_iff_mem] at h
  rcases h with h | h
  · exact isUrlChar_of_isAlphanumeric h
  · have hcases : c = ':' ∨ c = '.' ∨ c = '-' := by simpa using h
    rcases hcases with rfl | rfl | rfl <;> decide

section Link

variable (p : Profile)

/-- A URI of a profile, with what it says about the plugin and the name. -/
def link (plugin name : Option Text) : Text :=
  Uri.text "ss".toList (authority p.auth p.host p.remotePort)
    (plugin.map (Uri.parameter "plugin".toList)) (name.map Percent.encode)

theorem link_eq (plugin name : Option Text) : p.link plugin name
    = ss ++ (authority p.auth p.host p.remotePort ++
        (Uri.part '?' (plugin.map (Uri.parameter "plugin".toList)) ++
          Uri.part '#' (name.map Percent.encode))) := rfl

variable {p}

theorem slash_not_mem_parts (plugin name : Option Text) :
    '/' ∉ Uri.part '?' (plugin.map (Uri.parameter "plugin".toList)) ++
      Uri.part '#' (name.map Percent.encode) := by
  intro h
  rcases List.mem_append.mp h with h | h
  · cases plugin with
    | none => simp [Uri.part] at h
    | some v => simp [Uri.part, Uri.parameter, slash_not_mem_encode] at h
  · cases name with
    | none => simp [Uri.part] at h
    | some n => simp [Uri.part, slash_not_mem_encode] at h

theorem slash_not_mem_authority (hp : p.Shareable) :
    '/' ∉ authority p.auth p.host p.remotePort := fun h =>
  absurd (not_endsAuthority hp.host hp.remotePort.1 (isUnreserved_of_mem_auth p) h) (by decide)

/-- **A URI whose user info holds an underscore** is matched up to it, as a URI without user info. -/
theorem findAll_broken (hp : p.Shareable)
    (h : 63 ∈ Base64.sextets (Text.utf8 p.credentials)) (plugin name : Option Text) :
    findAll pattern (p.link plugin name) = [] ∨
      ∃ host : Text, (∀ c ∈ host, Percent.isUnreserved c = true) ∧
        findAll pattern (p.link plugin name) = [ss ++ host] := by
  obtain ⟨ds, es, hds, hnot⟩ := List.eq_append_cons_of_mem h
  have hauth : p.auth = ds.map (Base64.digit true) ++ '_' :: es.map (Base64.digit true) := by
    rw [auth, Base64.encode, hds, List.map_append, List.map_cons]
    rfl
  have hlast : ∀ c ∈ ds.map (Base64.digit true), isLastUrlChar c = true :=
    isLastUrlChar_digit (fun d hd => Base64.sextets_lt _ d (by rw [hds]; simp [hd])) hnot
  have hlink : ∃ rest, p.link plugin name = ss ++ (ds.map (Base64.digit true) ++ '_' :: rest) ∧
      '/' ∉ '_' :: rest := by
    refine ⟨es.map (Base64.digit true) ++ ('@' :: (wrappedHost p.host ++ ':' :: Number.ofInt p.remotePort) ++
      (Uri.part '?' (plugin.map (Uri.parameter "plugin".toList)) ++
          Uri.part '#' (name.map Percent.encode))), ?_, ?_⟩
    · rw [link_eq, authority, hauth]
      simp only [List.append_assoc, List.cons_append]
    · have h1 := slash_not_mem_authority hp
      have h2 := slash_not_mem_parts plugin name
      rw [authority, hauth] at h1
      intro hm
      simp only [List.mem_append, List.mem_cons, not_or] at h1 h2 hm
      tauto
  obtain ⟨rest, hrest, hslash⟩ := hlink
  have hnone : star isUrlChar lastItem ('_' :: rest) = none :=
    star_rest_none [] _ (by simp) (by simp; decide)
  rw [hrest]
  cases hds' : ds.map (Base64.digit true) with
  | nil => exact Or.inl (findAll_ss_nil (by decide) hslash)
  | cons c w =>
    rw [← hds']
    refine Or.inr ⟨ds.map (Base64.digit true), fun c hc => ?_, ?_⟩
    · exact isUnreserved_of_mem_auth p c (by rw [hauth]; exact List.mem_append_left _ hc)
    · refine Complete.findAll ⟨fun c hc => isUrlChar_of_isLastUrlChar (hlast c hc), ?_⟩ hnone hslash
      have hne : ds.map (Base64.digit true) ≠ [] := by rw [hds']; simp
      exact ⟨_, List.getLast?_eq_some_getLast hne, hlast _ (List.getLast_mem hne)⟩

/-- The authority of a URI is matched as a whole. -/
theorem complete_authority (hp : p.Shareable)
    (h : 63 ∉ Base64.sextets (Text.utf8 p.credentials)) :
    Complete (authority p.auth p.host p.remotePort) := by
  have hauth : ∀ c ∈ p.auth, isLastUrlChar c = true :=
    isLastUrlChar_digit (Base64.sextets_lt _) h
  have hport := ofInt_ne_nil hp.remotePort.1
  refine ⟨fun c hc => ?_, ?_⟩
  · rcases mem_authority hp.host hp.remotePort.1 hc with h | h | h
    · exact isUrlChar_of_isLastUrlChar (hauth c h)
    · exact isUrlChar_of_isHostChar h
    · rcases h with rfl | rfl | rfl <;> decide
  · have hdigit := mem_ofInt hp.remotePort.1 (List.getLast_mem hport)
    refine ⟨(Number.ofInt p.remotePort).getLast hport, ?_, ?_⟩
    · have hsplit : authority p.auth p.host p.remotePort
          = (p.auth ++ '@' :: (wrappedHost p.host ++ [':'])) ++ Number.ofInt p.remotePort := by
        simp [authority]
      rw [hsplit, List.getLast?_append_of_ne_nil _ hport, List.getLast?_eq_some_getLast hport]
    · simp [isLastUrlChar, Host.isAlphanumeric_of_isDigit hdigit]

/-- What is left of the plugin and of the name when a URI is matched. -/
def matchedParts (plugin name : Option Text) : Option Text × Option Text :=
  match plugin, name with
  | some v, some n => if '_' ∈ v then (some (cut v), none) else (some v, some (cut n))
  | some v, none => (some (cut v), none)
  | none, some n => (none, some (cut n))
  | none, none => (none, none)

/-- The text in front of the plugin. -/
def pluginStart (p : Profile) : Text :=
  authority p.auth p.host p.remotePort ++ '?' :: (Percent.encode "plugin".toList ++ ['='])

theorem complete_pluginStart (h : Complete (authority p.auth p.host p.remotePort)) :
    Complete p.pluginStart := by
  refine Complete.append h.1 ⟨?_, '=', by simp [List.getLast?_cons, List.getLast?_append], by decide⟩
  intro c hc
  simp only [List.mem_cons, List.mem_append, List.not_mem_nil, or_false] at hc
  rcases hc with rfl | hc | rfl
  · decide
  · exact isUrlChar_of_mem_encode (by decide) c hc
  · decide

theorem complete_fragmentStart {u : Text} (h : ∀ c ∈ u, isUrlChar c = true) :
    Complete (u ++ ['#']) :=
  Complete.append h
    ⟨fun c hc => by rw [List.mem_singleton.mp hc]; decide, '#', rfl, by decide⟩

theorem link_plugin (v : Text) (name : Option Text) : p.link (some v) name
    = ss ++ (p.pluginStart ++ (Percent.encode v ++ Uri.part '#' (name.map Percent.encode))) := by
  rw [link_eq, pluginStart]
  simp [Uri.part, Uri.parameter]

/-- **A URI whose user info holds no underscore** is matched down to its plugin or its name. -/
theorem findAll_link (hp : p.Shareable) (h : 63 ∉ Base64.sextets (Text.utf8 p.credentials))
    (plugin name : Option Text) :
    findAll pattern (p.link plugin name)
      = [p.link (matchedParts plugin name).1 (matchedParts plugin name).2] := by
  have hauth := complete_authority hp h
  have hstart := complete_pluginStart hauth
  have hslash : ∀ name : Option Text, '/' ∉ Uri.part '#' (name.map Percent.encode) :=
    fun name => slash_not_mem_parts none name
  have hend : ∀ {u : Text}, Complete u → ∀ t : Text,
      findAll pattern (ss ++ (u ++ Percent.encode t)) = [ss ++ (u ++ Percent.encode (cut t))] := by
    intro u hu t
    have hfind := findAll_escaped hu (s := t) (Or.inl rfl) List.not_mem_nil
    rwa [List.append_nil] at hfind
  cases plugin with
  | some v =>
    cases name with
    | none =>
      simp only [matchedParts, link_plugin, Option.map_none, Uri.part, List.append_nil]
      exact hend hstart v
    | some n =>
      by_cases hv : '_' ∈ v
      · simp only [matchedParts, hv, if_true]
        rw [link_plugin, link_plugin, findAll_escaped hstart (Or.inr hv) (hslash _)]
        simp [Uri.part]
      · have hfront : Complete (p.pluginStart ++ Percent.encode v ++ ['#']) := by
          apply complete_fragmentStart
          intro c hc
          rcases List.mem_append.mp hc with hc | hc
          · exact hstart.1 c hc
          · exact isUrlChar_of_mem_encode hv c hc
        have hlink : ∀ n : Text, p.link (some v) (some n)
            = ss ++ (p.pluginStart ++ Percent.encode v ++ ['#'] ++ Percent.encode n) := by
          intro n
          rw [link_plugin]
          simp [Uri.part]
        simp only [matchedParts, hv, if_false, hlink]
        exact hend hfront n
  | none =>
    cases name with
    | none =>
      have hnone : star isUrlChar lastItem [] = none := rfl
      have hlink : p.link none none = ss ++ (authority p.auth p.host p.remotePort ++ []) := rfl
      simp only [matchedParts]
      conv_lhs => rw [hlink]
      rw [hauth.findAll hnone List.not_mem_nil, hlink, List.append_nil]
    | some n =>
      have hlink : ∀ n : Text, p.link none (some n)
          = ss ++ (authority p.auth p.host p.remotePort ++ ['#'] ++ Percent.encode n) := by
        intro n
        rw [link_eq]
        simp [Uri.part]
      simp only [matchedParts, hlink]
      exact hend (complete_fragmentStart hauth.1) n

end Link

end Profile

end SsAndroid
