import SsAndroid.Acl.CustomRules
import SsAndroid.Acl.Flatten
import SsAndroid.Lib.CString

/-!
# The reader of `ss-local`

`Acl.save` writes a list to a file that `ss-local` reads with `init_acl`, a reader of its own: lines
go through a buffer of 256 bytes, a rule is an address when the part in front of its last slash is
one, and the prefix size is whatever `atoi` makes of the rest.

A line that does not fit the buffer is discarded.  A host name that is an address with a slash and a
text behind it (`slashed`) is a network for this reader.  Of the lists the service saves, all other rules
and all subnets are read as they are, and nothing else is but the networks of such host names
(`initAcl_save`).  This is for host names without a zero, which ends a line for this reader: what is in
front of it can be any directive.
-/

namespace SsAndroid

open CString

/-- What `ss-local` runs on: the width of `long`, and `cork_ip_init` (`none`: an error). -/
structure Native (P : Platform) where
  longWidth : Nat
  longWidth_ge : 32 ≤ longWidth
  corkIpInit : List UInt8 → Option InetAddress
  /-- It accepts what `parseNumericAddress` accepts. -/
  corkIpInit_utf8 : ∀ s, corkIpInit (Text.utf8 s) = P.addresses.parseNumericAddress s
  /-- `INET6_ADDRSTRLEN` is 46, with the zero. -/
  hostAddress_length : ∀ a, (P.addresses.hostAddress a).length ≤ 45

namespace InitAcl

/-! ### The lists -/

/-- `acl_mode`. -/
inductive Mode
  | blackList
  | whiteList
  deriving DecidableEq, Repr

/-- The networks that were added to the two sets of a list, and the patterns of its rules. -/
structure RuleList where
  ipv4 : List (InetAddress × Nat)
  ipv6 : List (InetAddress × Nat)
  rules : List (List UInt8)
  deriving DecidableEq

/-- The list that `list_ipv4`, `list_ipv6` and `rules` point to. -/
inductive Current
  | black
  | white
  | outboundBlock
  deriving DecidableEq, Repr

structure Tables where
  blackList : RuleList
  whiteList : RuleList
  outboundBlockList : RuleList
  mode : Mode
  current : Current
  deriving DecidableEq

/-- The variables after the initialisation in `init_acl`. -/
def start : Tables := ⟨⟨[], [], []⟩, ⟨[], [], []⟩, ⟨[], [], []⟩, .blackList, .black⟩

/-- Something is done to the current list. -/
def Tables.modify (s : Tables) (f : RuleList → RuleList) : Tables :=
  match s.current with
  | .black => { s with blackList := f s.blackList }
  | .white => { s with whiteList := f s.whiteList }
  | .outboundBlock => { s with outboundBlockList := f s.outboundBlockList }

/-- The number of bits of an address. -/
def bits (addr : InetAddress) : Nat := addr.address.length * 8

/-- `ipset_ipv4_add_network` and `ipset_ipv6_add_network`, which refuse a prefix that is out of
range. -/
def RuleList.addNetwork (l : RuleList) (addr : InetAddress) (cidr : Nat) : RuleList :=
  if bits addr < cidr then l
  else if addr.address.length = 4 then { l with ipv4 := l.ipv4 ++ [(addr, cidr)] }
  else { l with ipv6 := l.ipv6 ++ [(addr, cidr)] }

/-- `add_rule`. -/
def RuleList.addRule (l : RuleList) (pattern : List UInt8) : RuleList :=
  { l with rules := l.rules ++ [pattern] }

section Reader

variable {P : Platform} (N : Native P)

/-- `parse_addr_cidr`. -/
def parseAddrCidr (str : List UInt8) : List UInt8 × Int :=
  match Text.splitAtFirst 0x2F str.reverse with
  | (_, none) => (str, -1)
  | (cidr, some host) => (host.reverse, atoi N.longWidth cidr.reverse)

/-- A line that is no directive. -/
def Tables.rule (s : Tables) (line : List UInt8) : Tables :=
  match N.corkIpInit (parseAddrCidr N line).1 with
  | some addr =>
      s.modify fun l =>
        if 0 ≤ (parseAddrCidr N line).2 then l.addNetwork addr (parseAddrCidr N line).2.toNat
        else l.addNetwork addr (bits addr)
  | none => s.modify fun l => l.addRule line

/-- `strcmp(line, "..") == 0`. -/
def isText (line : List UInt8) (text : String) : Bool := line = Text.utf8 text.toList

/-- A line without its comment and its spaces. -/
def Tables.input (s : Tables) (line : List UInt8) : Tables :=
  if line = [] then s
  else if isText line "[outbound_block_list]" then { s with current := .outboundBlock }
  else if isText line "[black_list]" || isText line "[bypass_list]" then
    { s with current := .black }
  else if isText line "[white_list]" || isText line "[proxy_list]" then
    { s with current := .white }
  else if isText line "[reject_all]" || isText line "[bypass_all]" then
    { s with mode := .whiteList }
  else if isText line "[accept_all]" || isText line "[proxy_all]" then
    { s with mode := .blackList }
  else s.rule N line

/-- Trim the newline. -/
def chomp (s : List UInt8) : List UInt8 := if s.getLast? = some 10 then s.dropLast else s

/-- What is done with a buffer that holds a whole line. -/
def Tables.line (s : Tables) (buf : List UInt8) : Tables :=
  s.input N (trim ((chomp (ofBytes buf)).takeWhile (· ≠ 0x23)))

/-- `(strlen(buf) == 255) && (buf[254] != '\n')`. -/
def isLong (buf : List UInt8) : Bool :=
  (ofBytes buf).length = 255 && (ofBytes buf)[254]? ≠ some 10

/-- The loop that discards the rest of a long line; what is left of the file. -/
def discard (buf f : List UInt8) : List UInt8 :=
  if isLong buf = true then
    if h : f = [] then []
    else
      have := fgets_length_lt 254 h
      discard (fgets 255 f).1 (fgets 255 f).2
  else f
termination_by f.length

theorem discard_length_le (buf f : List UInt8) : (discard buf f).length ≤ f.length := by
  induction buf, f using discard.induct with
  | case1 buf hlong =>
    rw [discard, if_pos hlong, dif_pos rfl]
  | case2 buf f hlong hf hlt ih =>
    rw [discard, if_pos hlong, dif_neg hf]
    exact ih.trans (le_of_lt hlt)
  | case3 buf f hlong =>
    rw [discard, if_neg hlong]

/-- The loop over the file. -/
def readFile (s : Tables) (f : List UInt8) : Tables :=
  if h : f = [] then s
  else
    have := fgets_length_lt 254 h
    if isLong (fgets 255 f).1 = true then
      have := lt_of_le_of_lt (discard_length_le (fgets 255 f).1 (fgets 255 f).2) this
      readFile s (discard (fgets 255 f).1 (fgets 255 f).2)
    else readFile (s.line N (fgets 255 f).1) (fgets 255 f).2
termination_by f.length

/-- `init_acl`, for a file that can be opened. -/
def initAcl (f : List UInt8) : Tables := readFile N start f

/-! ### Line by line -/

/-- A buffer with the end of a line is not the beginning of a long one. -/
theorem isLong_line {l : List UInt8} (h0 : 0 ∉ l) : isLong (l ++ [10]) = false := by
  have hbytes : ofBytes (l ++ [10]) = l ++ [10] := by
    refine ofBytes_eq_self ?_
    rw [List.mem_append, not_or]
    exact ⟨h0, by decide⟩
  rw [isLong, hbytes]
  by_cases hlength : l.length = 254
  · rw [← hlength, List.getElem?_concat_length]
    simp
  · simp [hlength]

/-- A full buffer without the end of a line is. -/
theorem isLong_full {l : List UInt8} (h0 : 0 ∉ l) (h10 : 10 ∉ l) (hl : 255 ≤ l.length) :
    isLong (l.take 255) = true := by
  have hbytes : ofBytes (l.take 255) = l.take 255 :=
    ofBytes_eq_self fun h => h0 (List.mem_of_mem_take h)
  rw [isLong, hbytes, Bool.and_eq_true, decide_eq_true_eq, decide_eq_true_eq, List.length_take]
  refine ⟨by omega, ?_⟩
  intro h
  exact h10 (List.mem_of_mem_take (List.mem_of_getElem? h))

theorem discard_of_isLong {buf f : List UInt8} (hlong : isLong buf = true) (hf : f ≠ []) :
    discard buf f = discard (fgets 255 f).1 (fgets 255 f).2 := by
  rw [discard, if_pos hlong, dif_neg hf]

theorem discard_of_not_isLong {buf : List UInt8} (f : List UInt8) (h : isLong buf = false) :
    discard buf f = f := by
  rw [discard, if_neg (by rw [h]; simp)]

theorem discard_line (rest : List UInt8) : ∀ (n : Nat) (l : List UInt8), l.length ≤ n → 0 ∉ l →
    10 ∉ l → ∀ buf, isLong buf = true → discard buf (l ++ 10 :: rest) = rest := by
  intro n
  induction n with
  | zero =>
    intro l hl _ _ buf hlong
    obtain rfl := List.length_eq_zero_iff.mp (Nat.le_zero.mp hl)
    rw [discard_of_isLong hlong (by simp), fgets_line (by simp) rest (by simp)]
    exact discard_of_not_isLong rest (isLong_line (by simp))
  | succ n ih =>
    intro l hl h0 h10 buf hlong
    rw [discard_of_isLong hlong (by simp)]
    by_cases hshort : l.length < 255
    · rw [fgets_line h10 rest hshort]
      exact discard_of_not_isLong rest (isLong_line h0)
    · rw [fgets_long h10 (10 :: rest) (Nat.not_lt.mp hshort)]
      refine ih (l.drop 255) ?_ (fun h => h0 (List.mem_of_mem_drop h))
        (fun h => h10 (List.mem_of_mem_drop h)) _ (isLong_full h0 h10 (Nat.not_lt.mp hshort))
      rw [List.length_drop]
      omega

/-- **One line of the file**: what does not fit the buffer is discarded. -/
theorem readFile_line {l : List UInt8} (h0 : 0 ∉ l) (h10 : 10 ∉ l) (s : Tables)
    (rest : List UInt8) : readFile N s (l ++ 10 :: rest)
      = readFile N (if l.length ≤ 254 then s.line N (l ++ [10]) else s) rest := by
  have hstep : readFile N s (l ++ 10 :: rest)
      = if isLong (fgets 255 (l ++ 10 :: rest)).1 = true then
          readFile N s
            (discard (fgets 255 (l ++ 10 :: rest)).1 (fgets 255 (l ++ 10 :: rest)).2)
        else readFile N (s.line N (fgets 255 (l ++ 10 :: rest)).1)
          (fgets 255 (l ++ 10 :: rest)).2 := by
    rw [readFile, dif_neg (by simp)]
  rw [hstep]
  by_cases hshort : l.length < 255
  · rw [if_pos (Nat.le_of_lt_succ hshort), fgets_line h10 rest hshort,
      if_neg (by rw [isLong_line h0]; simp)]
  · have hlong := isLong_full h0 h10 (Nat.not_lt.mp hshort)
    have hlength : ¬l.length ≤ 254 := by omega
    rw [if_neg hlength, fgets_long h10 (10 :: rest) (Nat.not_lt.mp hshort), if_pos hlong,
      discard_line rest (l.drop 255).length (l.drop 255) (le_refl _)
        (fun h => h0 (List.mem_of_mem_drop h)) (fun h => h10 (List.mem_of_mem_drop h)) _ hlong]

/-- A line of a text. -/
def Tables.text (s : Tables) (l : Text) : Tables :=
  if (Text.utf8 l).length ≤ 254 then s.line N (Text.utf8 l ++ [10]) else s

/-- A line that the bytes of a file can be cut at. -/
def Clean (l : Text) : Prop := '\x00' ∉ l ∧ '\n' ∉ l

/-- **A file of clean lines.** -/
theorem readFile_unlines (ls : List Text) (h : ∀ l ∈ ls, Clean l) : ∀ s : Tables,
    readFile N s (Text.utf8 (Text.unlines ls)) = ls.foldl (Tables.text N) s := by
  induction ls with
  | nil =>
    intro s
    show readFile N s [] = s
    rw [readFile, dif_pos rfl]
  | cons l ls ih =>
    intro s
    obtain ⟨h0, h10⟩ := h l List.mem_cons_self
    have hbytes : Text.utf8 (Text.unlines (l :: ls))
        = Text.utf8 l ++ 10 :: Text.utf8 (Text.unlines ls) := by
      have hlines : Text.unlines (l :: ls) = l ++ '\n' :: Text.unlines ls := by
        rw [Text.unlines, List.flatMap_cons, List.append_assoc]
        rfl
      rw [hlines, utf8_cons_ascii (by decide)]
      rfl
    rw [hbytes, readFile_line N (fun hm => h0 ((mem_utf8 (by decide) l).mp hm))
      (fun hm => h10 ((mem_utf8 (by decide) l).mp hm)),
      ih fun x hx => h x (List.mem_cons_of_mem _ hx)]
    rfl

/-! ### Rules -/

/-- The address of a host name that is one with a slash and a text behind it: for `init_acl` this is a
network, whose prefix size is what `atoi` makes of the text. -/
def slashed (P : Platform) (r : Text) : Option InetAddress :=
  match Text.splitAtFirst '/' r.reverse with
  | (_, none) => none
  | (_, some host) => P.addresses.parseNumericAddress host.reverse

theorem slashed_of_not_mem {r : Text} (h : '/' ∉ r) : slashed P r = none := by
  rw [slashed, Text.splitAtFirst_of_not_mem (fun hm => h (List.mem_reverse.mp hm))]

theorem slashed_append (host : Text) {cidr : Text} (h : '/' ∉ cidr) :
    slashed P (host ++ '/' :: cidr) = P.addresses.parseNumericAddress host := by
  have hreverse : (host ++ '/' :: cidr).reverse = cidr.reverse ++ '/' :: host.reverse := by simp
  rw [slashed, hreverse, Text.splitAtFirst_append (fun hm => h (List.mem_reverse.mp hm))]
  simp only [List.reverse_reverse]

theorem toNat_lt_of_isspace {b : UInt8} (h : isspace b = true) : b.toNat < 0x80 := by
  simp only [isspace, Bool.or_eq_true, Bool.and_eq_true, decide_eq_true_eq] at h
  omega

/-- The spaces of C are spaces for Kotlin. -/
theorem isWhitespace_of_isspace {c : Char} {b : UInt8} (hcb : c.toNat = b.toNat)
    (h : isspace b = true) : Text.isWhitespace c = true := by
  simp only [isspace, Bool.or_eq_true, Bool.and_eq_true, decide_eq_true_eq] at h
  have hrange : (0x09 ≤ c.toNat ∧ c.toNat ≤ 0x0D) ∨ (0x1C ≤ c.toNat ∧ c.toNat ≤ 0x20) := by omega
  simp only [Text.isWhitespace, Bool.or_eq_true, Bool.and_eq_true, decide_eq_true_eq]
  tauto

theorem trim_utf8 {r : Text} (h : Text.trim r = r) : trim (Text.utf8 r) = Text.utf8 r := by
  have hhead := Text.trim_head_not_space r
  have hlast := Text.trim_last_not_space r
  rw [h] at hhead hlast
  refine trim_eq_self ?_ ?_
  · intro b hb
    by_contra hnot
    rw [Bool.not_eq_false] at hnot
    obtain ⟨c, hc, hcb⟩ := head?_utf8 hb (toNat_lt_of_isspace hnot)
    have hspace := hhead c hc
    rw [isWhitespace_of_isspace hcb hnot] at hspace
    cases hspace
  · intro b hb
    by_contra hnot
    rw [Bool.not_eq_false] at hnot
    obtain ⟨c, hc, hcb⟩ := getLast?_utf8 hb (toNat_lt_of_isspace hnot)
    have hspace := hlast c hc
    rw [isWhitespace_of_isspace hcb hnot] at hspace
    cases hspace

theorem input_of_ruleLine {r : Text} (h : Acl.RuleLine r) (s : Tables) :
    s.input N (Text.utf8 r) = s.rule N (Text.utf8 r) := by
  have hne : Text.utf8 r ≠ [] := by
    intro hnil
    exact h.ne_nil (utf8_injective hnil)
  have hdirective : ∀ d : String, d.toList ∈ Acl.directives → isText (Text.utf8 r) d = false := by
    intro d hd
    refine decide_eq_false fun heq => ?_
    rw [utf8_injective heq] at h
    exact h.no_directive hd
  rw [Tables.input, if_neg hne, hdirective "[outbound_block_list]" (by decide),
    hdirective "[black_list]" (by decide), hdirective "[bypass_list]" (by decide),
    hdirective "[white_list]" (by decide), hdirective "[proxy_list]" (by decide),
    hdirective "[reject_all]" (by decide), hdirective "[bypass_all]" (by decide),
    hdirective "[accept_all]" (by decide), hdirective "[proxy_all]" (by decide)]
  rfl

/-- What is left of a line without a comment. -/
theorem line_utf8 {r : Text} (hhash : '#' ∉ r) (htrim : Text.trim r = r) (h0 : '\x00' ∉ r)
    (s : Tables) : s.line N (Text.utf8 r ++ [10]) = s.input N (Text.utf8 r) := by
  have hbytes : ofBytes (Text.utf8 r ++ [10]) = Text.utf8 r ++ [10] := by
    refine ofBytes_eq_self ?_
    rw [List.mem_append, not_or]
    exact ⟨fun hm => h0 ((mem_utf8 (by decide) r).mp hm), by decide⟩
  have hchomp : chomp (Text.utf8 r ++ [10]) = Text.utf8 r := by
    rw [chomp, List.getLast?_concat, if_pos rfl, List.dropLast_concat]
  have hcomment : (Text.utf8 r).takeWhile (· ≠ 0x23) = Text.utf8 r := by
    rw [List.takeWhile_eq_self_iff]
    intro b hb
    refine decide_eq_true ?_
    rintro rfl
    exact hhash ((mem_utf8 (by decide) r).mp hb)
  rw [Tables.line, hbytes, hchomp, hcomment, trim_utf8 htrim]

/-- The part in front of the last slash of a text. -/
theorem parseAddrCidr_slash (host : Text) {cidr : Text} (h : '/' ∉ cidr) :
    parseAddrCidr N (Text.utf8 (host ++ '/' :: cidr))
      = (Text.utf8 host, atoi N.longWidth (Text.utf8 cidr)) := by
  have hbytes : (Text.utf8 (host ++ '/' :: cidr)).reverse
      = (Text.utf8 cidr).reverse ++ 0x2F :: (Text.utf8 host).reverse := by
    rw [utf8_cons_ascii (by decide), List.reverse_append, List.reverse_cons, List.append_assoc]
    rfl
  have hno : (0x2F : UInt8) ∉ (Text.utf8 cidr).reverse := by
    rw [List.mem_reverse]
    exact fun hm => h ((mem_utf8 (by decide) cidr).mp hm)
  rw [parseAddrCidr, hbytes, Text.splitAtFirst_append hno]
  simp only [List.reverse_reverse]

theorem parseAddrCidr_no_slash {r : Text} (h : '/' ∉ r) :
    parseAddrCidr N (Text.utf8 r) = (Text.utf8 r, -1) := by
  have hno : (0x2F : UInt8) ∉ (Text.utf8 r).reverse := by
    rw [List.mem_reverse]
    exact fun hm => h ((mem_utf8 (by decide) r).mp hm)
  rw [parseAddrCidr, Text.splitAtFirst_of_not_mem hno]

/-- A text has a last slash, or none. -/
theorem last_slash (r : Text) : '/' ∉ r ∨ ∃ host cidr, r = host ++ '/' :: cidr ∧ '/' ∉ cidr := by
  induction r with
  | nil => exact Or.inl (by simp)
  | cons c r ih =>
    rcases ih with hno | ⟨host, cidr, rfl, hcidr⟩
    · by_cases hc : c = '/'
      · exact Or.inr ⟨[], r, by rw [hc]; rfl, hno⟩
      · refine Or.inl ?_
        rw [List.mem_cons, not_or]
        exact ⟨fun h => hc h.symm, hno⟩
    · exact Or.inr ⟨c :: host, cidr, rfl, hcidr⟩

/-- Of a host name `init_acl` takes for an address what is in front of its last slash. -/
theorem corkIpInit_hostname {r : Text} (h : Acl.Hostname P r) :
    N.corkIpInit (parseAddrCidr N (Text.utf8 r)).1 = slashed P r := by
  rcases last_slash r with hno | ⟨host, cidr, rfl, hcidr⟩
  · rw [parseAddrCidr_no_slash N hno, N.corkIpInit_utf8, slashed_of_not_mem hno]
    have hsubnet := h.no_subnet
    rw [Subnet.fromString, Text.splitAtFirst_of_not_mem hno] at hsubnet
    cases hp : P.addresses.parseNumericAddress r with
    | none => rfl
    | some a => simp [hp] at hsubnet
  · rw [parseAddrCidr_slash N host hcidr, N.corkIpInit_utf8, slashed_append host hcidr]

/-- **A host name is a rule, unless it is an address with a slash.** -/
theorem rule_hostname {r : Text} (h : Acl.Hostname P r) (hr : slashed P r = none) (s : Tables) :
    s.rule N (Text.utf8 r) = s.modify fun l => l.addRule (Text.utf8 r) := by
  rw [Tables.rule, corkIpInit_hostname N h, hr]

/-- The set a subnet is put into. -/
def RuleList.addSubnet (l : RuleList) (subnet : Subnet) : RuleList :=
  l.addNetwork subnet.address subnet.prefixSize

/-- **The text of a subnet is read as the subnet.** -/
theorem rule_subnet {subnet : Subnet} (h : Acl.ParsedSubnet P subnet) (s : Tables) :
    s.rule N (Text.utf8 (subnet.toString P.addresses)) = s.modify fun l => l.addSubnet subnet := by
  obtain ⟨text, htext⟩ := h
  have hparse := P.addresses.parse_hostAddress htext
  have hslash := Subnet.slash_not_mem_hostAddress htext
  have hfits := subnet.fits
  have hsize := subnet.address.size
  rw [Subnet.toString]
  split
  · rename_i hfull
    rw [Tables.rule, parseAddrCidr_no_slash N hslash]
    simp only [N.corkIpInit_utf8, hparse, RuleList.addSubnet, hfull]
    rfl
  · have hcidr : '/' ∉ Number.decimal subnet.prefixSize := by
      intro hm
      exact absurd (Number.mem_decimal hm) (by decide)
    have hatoi : atoi N.longWidth (Text.utf8 (Number.decimal subnet.prefixSize))
        = subnet.prefixSize := atoi_decimal (by omega) N.longWidth_ge
    rw [Tables.rule, parseAddrCidr_slash N _ hcidr]
    simp only [N.corkIpInit_utf8, hparse, hatoi, Int.toNat_natCast, if_pos (Int.natCast_nonneg _),
      RuleList.addSubnet]

/-! ### Lists of rules -/

/-- The networks of one family. -/
def networks (size : Nat) (subnets : List Subnet) : List (InetAddress × Nat) :=
  (subnets.filter fun s => s.address.address.length = size).map fun s => (s.address, s.prefixSize)

/-- A list with more subnets and rules. -/
def RuleList.put (l : RuleList) (subnets : List Subnet) (rs : List Text) : RuleList :=
  { ipv4 := l.ipv4 ++ networks 4 subnets
    ipv6 := l.ipv6 ++ networks 16 subnets
    rules := l.rules ++ rs.map Text.utf8 }

theorem put_put (l : RuleList) (ss ss' : List Subnet) (rs rs' : List Text) :
    (l.put ss rs).put ss' rs' = l.put (ss ++ ss') (rs ++ rs') := by
  simp [RuleList.put, networks]

theorem put_nil (l : RuleList) : l.put [] [] = l := by
  simp [RuleList.put, networks]

theorem addRule_eq_put (l : RuleList) (r : Text) : l.addRule (Text.utf8 r) = l.put [] [r] := by
  simp [RuleList.addRule, RuleList.put, networks]

theorem addSubnet_eq_put (l : RuleList) (subnet : Subnet) :
    l.addSubnet subnet = l.put [subnet] [] := by
  have hfits : ¬bits subnet.address < subnet.prefixSize := by
    rw [bits]
    exact Nat.not_lt.mpr subnet.fits
  rw [RuleList.addSubnet, RuleList.addNetwork, if_neg hfits]
  rcases subnet.address.size with hsize | hsize <;> simp [RuleList.put, networks, hsize]

theorem modify_modify (s : Tables) (f g : RuleList → RuleList) :
    (s.modify f).modify g = s.modify fun l => g (f l) := by
  obtain ⟨black, white, outbound, mode, current⟩ := s
  cases current <;> rfl

/-- A network is a subnet, or it is refused. -/
theorem addNetwork_eq_put (addr : InetAddress) (cidr : Nat) : ∃ ss : List Subnet,
    (∀ x ∈ ss, x.address = addr) ∧ ∀ l : RuleList, l.addNetwork addr cidr = l.put ss [] := by
  by_cases hfits : bits addr < cidr
  · refine ⟨[], by simp, fun l => ?_⟩
    rw [RuleList.addNetwork, if_pos hfits, put_nil]
  · refine ⟨[⟨addr, cidr, Nat.not_lt.mp hfits⟩], by simp, fun l => ?_⟩
    exact addSubnet_eq_put l ⟨addr, cidr, Nat.not_lt.mp hfits⟩

theorem rule_slashed {r : Text} {addr : InetAddress} (h : Acl.Hostname P r)
    (hr : slashed P r = some addr) : ∃ ss : List Subnet, (∀ x ∈ ss, x.address = addr) ∧
      ∀ s : Tables, s.rule N (Text.utf8 r) = s.modify fun l => l.put ss [] := by
  obtain ⟨ss, hss, hput⟩ := addNetwork_eq_put addr
    (if 0 ≤ (parseAddrCidr N (Text.utf8 r)).2 then (parseAddrCidr N (Text.utf8 r)).2.toNat
      else bits addr)
  refine ⟨ss, hss, fun s => ?_⟩
  rw [Tables.rule, corkIpInit_hostname N h, hr]
  dsimp only
  split at hput
  · rename_i hcidr
    simp only [if_pos hcidr, hput]
  · rename_i hcidr
    simp only [if_neg hcidr, hput]

/-- The line of a rule fits the buffer. -/
def fitsBuffer (r : Text) : Bool := (Text.utf8 r).length ≤ 254

/-- A host name that is read as it is. -/
def isRead (P : Platform) (r : Text) : Bool := fitsBuffer r && (slashed P r).isNone

/-- Networks that come from host names. -/
def FromSlashed (P : Platform) (rs : List Text) (ss : List Subnet) : Prop :=
  ∀ x ∈ ss, ∃ r ∈ rs, slashed P r = some x.address

theorem fromSlashed_append {rs rs' : List Text} {ss ss' : List Subnet} (h : FromSlashed P rs ss)
    (h' : FromSlashed P rs' ss') : FromSlashed P (rs ++ rs') (ss ++ ss') := by
  intro x hx
  rcases List.mem_append.mp hx with hx | hx
  · obtain ⟨r, hr, heq⟩ := h x hx
    exact ⟨r, List.mem_append_left _ hr, heq⟩
  · obtain ⟨r, hr, heq⟩ := h' x hx
    exact ⟨r, List.mem_append_right _ hr, heq⟩

/-- Where no host name is an address with a slash there are none. -/
theorem FromSlashed.eq_nil {rs : List Text} {ss : List Subnet} (h : FromSlashed P rs ss)
    (hrs : ∀ r ∈ rs, slashed P r = none) : ss = [] := by
  refine List.eq_nil_iff_forall_not_mem.mpr fun x hx => ?_
  obtain ⟨r, hr, heq⟩ := h x hx
  rw [hrs r hr] at heq
  cases heq

theorem modify_put_nil (s : Tables) : (s.modify fun l => l.put [] []) = s := by
  simp only [put_nil]
  obtain ⟨black, white, outbound, mode, current⟩ := s
  cases current <;> rfl

/-- **The line of a host name.** -/
theorem text_hostname {r : Text} (h : Acl.Hostname P r) (h0 : '\x00' ∉ r) : ∃ ss : List Subnet,
    FromSlashed P [r] ss ∧
      ∀ s : Tables, s.text N r = s.modify fun l => l.put ss ([r].filter (isRead P)) := by
  have hline : (Text.utf8 r).length ≤ 254 → ∀ s : Tables, s.text N r = s.rule N (Text.utf8 r) := by
    intro hfits s
    rw [Tables.text, if_pos hfits, line_utf8 N h.no_hash h.trimmed h0, input_of_ruleLine N h.toRuleLine]
  by_cases hfits : (Text.utf8 r).length ≤ 254
  · cases hr : slashed P r with
    | none =>
      refine ⟨[], by simp [FromSlashed], fun s => ?_⟩
      have hfilter : [r].filter (isRead P) = [r] := by simp [isRead, fitsBuffer, hfits, hr]
      rw [hfilter, hline hfits, rule_hostname N h hr]
      simp only [addRule_eq_put]
    | some addr =>
      obtain ⟨ss, hss, hrule⟩ := rule_slashed N h hr
      refine ⟨ss, fun x hx => ⟨r, List.mem_singleton_self r, by rw [hr, hss x hx]⟩, fun s => ?_⟩
      have hfilter : [r].filter (isRead P) = [] := by simp [isRead, hr]
      rw [hfilter, hline hfits, hrule]
  · refine ⟨[], by simp [FromSlashed], fun s => ?_⟩
    have hfilter : [r].filter (isRead P) = [] := by simp [isRead, fitsBuffer, hfits]
    rw [hfilter, Tables.text, if_neg hfits, modify_put_nil]

theorem texts_hostnames {rs : List Text} (h : ∀ r ∈ rs, Acl.Hostname P r)
    (h0 : ∀ r ∈ rs, '\x00' ∉ r) : ∃ ss : List Subnet, FromSlashed P rs ss ∧ ∀ s : Tables,
      rs.foldl (Tables.text N) s = s.modify fun l => l.put ss (rs.filter (isRead P)) := by
  induction rs with
  | nil => exact ⟨[], by simp [FromSlashed], fun s => (modify_put_nil s).symm⟩
  | cons r rs ih =>
    rw [List.forall_mem_cons] at h h0
    obtain ⟨ss, hss, hfirst⟩ := text_hostname N h.1 h0.1
    obtain ⟨ss', hss', hrest⟩ := ih h.2 h0.2
    refine ⟨ss ++ ss', fromSlashed_append hss hss', fun s => ?_⟩
    rw [List.foldl_cons, hfirst, hrest, modify_modify]
    simp only [put_put, ← List.filter_append]
    rfl

theorem decimal_length_le {n : Nat} (h : n < 1000) : (Number.decimal n).length ≤ 3 := by
  rw [Number.decimal]
  split
  · simp
  · rw [List.length_map, List.length_reverse]
    exact (Nat.digits_length_le_iff (by decide) n).mpr h

include N in
/-- The line of a subnet fits the buffer. -/
theorem subnet_fits {subnet : Subnet} (h : Acl.ParsedSubnet P subnet) :
    (Text.utf8 (subnet.toString P.addresses)).length ≤ 254 := by
  obtain ⟨text, htext⟩ := h
  have hascii : ∀ c ∈ subnet.toString P.addresses, c.toNat < 0x80 := by
    intro c hc
    rcases Subnet.mem_toString htext hc with haddr | rfl
    · simp only [isAddressChar, Number.isDigit, Bool.or_eq_true, Bool.and_eq_true,
        decide_eq_true_eq] at haddr
      rcases haddr with (((h | h) | h) | rfl) | rfl
      · omega
      · omega
      · omega
      · decide
      · decide
    · decide
  have hhost := N.hostAddress_length subnet.address
  have hfits := subnet.fits
  have hsize := subnet.address.size
  rw [utf8_length_ascii hascii, Subnet.toString]
  split
  · omega
  · have hdecimal := decimal_length_le (n := subnet.prefixSize) (by omega)
    rw [List.length_append, List.length_cons]
    omega

theorem text_subnet {subnet : Subnet} (h : Acl.ParsedSubnet P subnet) (s : Tables) :
    s.text N (subnet.toString P.addresses) = s.modify fun l => l.put [subnet] [] := by
  have hline := Acl.ruleLine_subnet h
  have hzero : '\x00' ∉ subnet.toString P.addresses := by
    obtain ⟨text, htext⟩ := h
    intro hm
    exact absurd (Subnet.mem_toString htext hm) (by decide)
  rw [Tables.text, if_pos (subnet_fits N h), line_utf8 N hline.no_hash hline.trimmed hzero,
    input_of_ruleLine N hline, rule_subnet N h]
  simp only [addSubnet_eq_put]

theorem texts_subnets {ss : List Subnet} (h : ∀ s ∈ ss, Acl.ParsedSubnet P s) : ∀ s : Tables,
    (ss.map (Subnet.toString P.addresses)).foldl (Tables.text N) s
      = s.modify fun l => l.put ss [] := by
  induction ss with
  | nil => exact fun s => (modify_put_nil s).symm
  | cons subnet ss ih =>
    intro s
    rw [List.forall_mem_cons] at h
    rw [List.map_cons, List.foldl_cons, text_subnet N h.1, ih h.2, modify_modify]
    simp only [put_put]
    rfl

/-! ### The saved file -/

/-- The list under a header. -/
def Tables.listOf (s : Tables) : Current → RuleList
  | .black => s.blackList
  | .white => s.whiteList
  | .outboundBlock => s.outboundBlockList

/-- One list has got more, and nothing else has changed but the current list. -/
structure Filled (sec : Current) (s s' : Tables) (subnets : List Subnet) (rs : List Text) :
    Prop where
  mode : s'.mode = s.mode
  list : s'.listOf sec = (s.listOf sec).put subnets rs
  others : ∀ c, c ≠ sec → s'.listOf c = s.listOf c

theorem filled_modify (sec : Current) (s : Tables) (subnets : List Subnet) (rs : List Text) :
    Filled sec s (({ s with current := sec } : Tables).modify fun l => l.put subnets rs) subnets
      rs := by
  cases sec <;> refine ⟨rfl, rfl, fun c hc => ?_⟩ <;> cases c <;>
    first | rfl | exact absurd rfl hc

/-- **A list under its header.** -/
theorem texts_section {header : Text} {sec : Current} {ss : List Subnet} {rs : List Text}
    (hheader : ∀ s : Tables, s.text N header = { s with current := sec })
    (hss : ∀ x ∈ ss, Acl.ParsedSubnet P x) (h : ∀ r ∈ rs, Acl.Hostname P r)
    (h0 : ∀ r ∈ rs, '\x00' ∉ r) : ∃ ss' : List Subnet, FromSlashed P rs ss' ∧ ∀ s : Tables,
      Filled sec s ((Acl.sectionLines header
          (ss.map (Subnet.toString P.addresses) ++ rs)).foldl (Tables.text N) s)
        (ss ++ ss') (rs.filter (isRead P)) := by
  rw [Acl.sectionLines]
  split
  · rename_i hnil
    obtain ⟨hss0, rfl⟩ := List.append_eq_nil_iff.mp hnil
    obtain rfl := List.map_eq_nil_iff.mp hss0
    refine ⟨[], by simp [FromSlashed], fun s => ⟨rfl, ?_, fun c _ => rfl⟩⟩
    rw [List.filter_nil, List.append_nil, put_nil]
    rfl
  · obtain ⟨ss', hss', hrules⟩ := texts_hostnames N h h0
    refine ⟨ss', hss', fun s => ?_⟩
    rw [List.foldl_cons, List.foldl_append, hheader, texts_subnets N hss, hrules, modify_modify]
    simp only [put_put, List.nil_append]
    exact filled_modify sec s (ss ++ ss') (rs.filter (isRead P))

theorem text_directive {d : String} (hhash : '#' ∉ d.toList) (htrim : Text.trim d.toList = d.toList)
    (hzero : '\x00' ∉ d.toList) (hfits : (Text.utf8 d.toList).length ≤ 254) (s : Tables) :
    s.text N d.toList = s.input N (Text.utf8 d.toList) := by
  rw [Tables.text, if_pos hfits, line_utf8 N hhash htrim hzero]

theorem text_bypassList (s : Tables) :
    s.text N "[bypass_list]".toList = { s with current := .black } := by
  rw [text_directive N (by decide) (by decide) (by decide) (by decide)]
  rfl

theorem text_proxyList (s : Tables) :
    s.text N "[proxy_list]".toList = { s with current := .white } := by
  rw [text_directive N (by decide) (by decide) (by decide) (by decide)]
  rfl

theorem text_mode (b : Bool) (s : Tables) : s.text N (Acl.modeLine b)
    = { s with mode := if b then .whiteList else .blackList } := by
  cases b with
  | true =>
    show s.text N "[bypass_all]".toList = _
    rw [text_directive N (by decide) (by decide) (by decide) (by decide)]
    rfl
  | false =>
    show s.text N "[proxy_all]".toList = _
    rw [text_directive N (by decide) (by decide) (by decide) (by decide)]
    rfl

theorem no_zero_section {header : Text} {ss : List Subnet} {rs : List Text}
    (hheader : '\x00' ∉ header) (hss : ∀ x ∈ ss, Acl.ParsedSubnet P x)
    (h0 : ∀ r ∈ rs, '\x00' ∉ r) {l : Text}
    (hl : l ∈ Acl.sectionLines header (ss.map (Subnet.toString P.addresses) ++ rs)) :
    '\x00' ∉ l := by
  rw [Acl.sectionLines] at hl
  split at hl
  · simp at hl
  · rw [List.mem_cons, List.mem_append] at hl
    obtain rfl | hl | hl := hl
    · exact hheader
    · obtain ⟨subnet, hsubnet, rfl⟩ := List.mem_map.mp hl
      obtain ⟨text, htext⟩ := hss subnet hsubnet
      intro hm
      exact absurd (Subnet.mem_toString htext hm) (by decide)
    · exact h0 l hl

/-- What is read has the mode, the rules and the subnets of a list, and in each of its two parts some
more networks. -/
structure Holds (s : Tables) (bypass : Bool) (bypassRules proxyRules : List Text)
    (subnets bypassMore proxyMore : List Subnet) : Prop where
  mode : s.mode = .whiteList ↔ bypass = true
  blackList : s.blackList
    = (⟨[], [], []⟩ : RuleList).put ((if bypass then [] else subnets) ++ bypassMore) bypassRules
  whiteList : s.whiteList
    = (⟨[], [], []⟩ : RuleList).put ((if bypass then subnets else []) ++ proxyMore) proxyRules
  outboundBlockList : s.outboundBlockList = ⟨[], [], []⟩

/-- **A printable list without imports**, saved and read. -/
theorem holds_of_printable {a : Acl P} (h : a.Printable) (hurls : a.urls = .empty)
    (hbypass : ∀ r ∈ a.bypassHostnames, '\x00' ∉ r) (hproxy : ∀ r ∈ a.proxyHostnames, '\x00' ∉ r) :
    ∃ bypassMore proxyMore : List Subnet, FromSlashed P a.bypassHostnames.data bypassMore ∧
      FromSlashed P a.proxyHostnames.data proxyMore ∧
      Holds (initAcl N (Text.utf8 a.toString)) a.bypass (a.bypassHostnames.data.filter (isRead P))
        (a.proxyHostnames.data.filter (isRead P)) a.subnets.data bypassMore proxyMore := by
  have hlines : a.printedLines = Acl.modeLine a.bypass ::
      (Acl.sectionLines "[bypass_list]".toList a.bypassList ++
        Acl.sectionLines "[proxy_list]".toList a.proxyList) := by
    rw [Acl.printedLines, hurls]
    simp
  have hclean : ∀ l ∈ a.printedLines, Clean l := by
    intro l hl
    refine ⟨?_, (Acl.noLineEnd_printedLines h l hl).1⟩
    rw [hlines, Acl.bypassList_eq, Acl.proxyList_eq, List.mem_cons, List.mem_append] at hl
    obtain rfl | hl | hl := hl
    · cases a.bypass <;> decide
    · refine no_zero_section (by decide) ?_ hbypass hl
      cases a.bypass
      · exact h.subnets
      · simp
    · refine no_zero_section (by decide) ?_ hproxy hl
      cases a.bypass
      · simp
      · exact h.subnets
  have hbypassSubnets : ∀ x ∈ (if a.bypass then [] else a.subnets.data),
      Acl.ParsedSubnet P x := by
    cases a.bypass
    · exact h.subnets
    · simp
  have hproxySubnets : ∀ x ∈ (if a.bypass then a.subnets.data else []),
      Acl.ParsedSubnet P x := by
    cases a.bypass
    · simp
    · exact h.subnets
  obtain ⟨bypassMore, hbypassMore, hfirst⟩ :=
    texts_section N (text_bypassList N) hbypassSubnets h.bypassHostnames hbypass
  obtain ⟨proxyMore, hproxyMore, hsecond⟩ :=
    texts_section N (text_proxyList N) hproxySubnets h.proxyHostnames hproxy
  refine ⟨bypassMore, proxyMore, hbypassMore, hproxyMore, ?_⟩
  rw [initAcl, Acl.toString_eq_unlines, readFile_unlines N _ hclean, hlines, List.foldl_cons,
    List.foldl_append, text_mode, Acl.bypassList_eq, Acl.proxyList_eq]
  have hfirst := hfirst { start with mode := if a.bypass then .whiteList else .blackList }
  have hsecond := hsecond (((Acl.sectionLines "[bypass_list]".toList
        ((if a.bypass then [] else a.subnets.data).map (Subnet.toString P.addresses) ++
          a.bypassHostnames.data)).foldl (Tables.text N)
      { start with mode := if a.bypass then .whiteList else .blackList }))
  refine ⟨?_, ?_, ?_, ?_⟩
  · rw [hsecond.mode, hfirst.mode]
    cases a.bypass <;> simp
  · exact (hsecond.others .black (by decide)).trans hfirst.list
  · refine hsecond.list.trans ?_
    rw [hfirst.others .white (by decide)]
    rfl
  · exact (hsecond.others .outboundBlock (by decide)).trans
      (hfirst.others .outboundBlock (by decide))

end Reader

end InitAcl

namespace Acl

open InitAcl

variable {P : Platform}

/-- `Acl.save`: the bytes of the file. -/
def save (a : Acl P) : List UInt8 := Text.utf8 a.toString

/-- A document on an import path was read, if it is not the first. -/
theorem printable_of_importPath {connect : URL → Text} {ok : Acl P → Prop} {n : Nat} {a e : Acl P}
    (h : ImportPath connect ok n a e) (ha : a.Printable) : e.Printable := by
  induction h with
  | refl a => exact ha
  | step himport _ _ ih =>
    obtain ⟨url, -, hread⟩ := himport
    exact ih (printable_of_fromReader hread)

/-- The custom rules, flattened, can be printed and have no imports. -/
theorem printable_flatten {a r : Acl P} {depth : Int} {connect : URL → Text} (ha : a.Printable)
    (h : a.flatten depth connect = .ok r) : r.Printable ∧ r.urls = .empty := by
  have hflat := flattened_of_flattenTo h
  refine ⟨⟨?_, ?_, ?_, ?_⟩, hflat.urls⟩
  · intro x hx
    obtain ⟨e, ⟨n, -, hpath⟩, hxe⟩ := (hflat.bypassHostnames x).mp hx
    exact (printable_of_importPath hpath ha).bypassHostnames x hxe
  · intro x hx
    obtain ⟨e, ⟨n, -, hpath⟩, hxe⟩ := (hflat.proxyHostnames x).mp hx
    exact (printable_of_importPath hpath ha).proxyHostnames x hxe
  · intro x hx
    obtain ⟨e, ⟨n, -, hpath⟩, hxe⟩ := (hflat.subnets x).mp hx
    exact (printable_of_importPath hpath ha).subnets x hxe
  · rw [hflat.urls]
    intro u hu
    exact absurd hu (SortedList.not_mem_empty u)

/-- **The saved custom rules.**  `ss-local` reads the mode and the subnets of the list, and those of
its host names whose lines fit the buffer and that are no addresses with a slash, in their order; and
nothing else, but for networks of host names that are. -/
theorem initAcl_save (P : Platform) (N : Native P) (stored : Option Text) (connect : URL → Text)
    (acl a : Acl P) (hcustom : getCustomRules P stored = .ok acl)
    (hflatten : acl.flatten 10 connect = .ok a)
    (hzero : ∀ r, r ∈ a.bypassHostnames ∨ r ∈ a.proxyHostnames → '\x00' ∉ r) :
    ∃ bypassMore proxyMore : List Subnet, FromSlashed P a.bypassHostnames.data bypassMore ∧
      FromSlashed P a.proxyHostnames.data proxyMore ∧
      Holds (initAcl N a.save) a.bypass (a.bypassHostnames.data.filter (isRead P))
        (a.proxyHostnames.data.filter (isRead P)) a.subnets.data bypassMore proxyMore := by
  obtain ⟨hprintable, hurls⟩ := printable_flatten (printable_getCustomRules hcustom).1 hflatten
  exact holds_of_printable N hprintable hurls (fun r hr => hzero r (Or.inl hr))
    (fun r hr => hzero r (Or.inr hr))

/-- `ss-local` next to the sample platform. -/
def sampleNative : Native sample where
  longWidth := 64
  longWidth_ge := by decide
  corkIpInit bytes := sample.addresses.parseNumericAddress (Utf8.decode bytes)
  corkIpInit_utf8 s := by rw [Utf8.decode_utf8]
  hostAddress_length _ := by
    show "10.0.0.0".toList.length ≤ 45
    decide

/-- The custom rules without imports, flattened. -/
def savedRules (stored : Text) : Except Exn (Acl sample) :=
  (getCustomRules sample (some stored)).bind fun acl => acl.flatten 10 fun _ => []

theorem savedRules_ok {stored : Text} {bypassRules proxyRules : List Text} {subnets : List Subnet}
    (h : (savedRules stored).map (fun a => (a.bypass, a.bypassHostnames.data,
      a.proxyHostnames.data, a.subnets.data)) = .ok (true, bypassRules, proxyRules, subnets)) :
    ∃ acl a, getCustomRules sample (some stored) = .ok acl ∧
      acl.flatten 10 (fun _ => []) = .ok a ∧ a.bypass = true ∧
      a.bypassHostnames.data = bypassRules ∧ a.proxyHostnames.data = proxyRules ∧
      a.subnets.data = subnets := by
  rw [savedRules] at h
  cases hacl : getCustomRules sample (some stored) with
  | error e =>
    rw [hacl] at h
    cases h
  | ok acl =>
    rw [hacl] at h
    cases ha : acl.flatten 10 (fun _ => []) with
    | error e =>
      simp [Except.bind, Except.map, ha] at h
    | ok a =>
      simp only [Except.bind, Except.map, ha, Except.ok.injEq, Prod.mk.injEq] at h
      exact ⟨acl, a, rfl, ha, h⟩

/-- A subnet, a host name, and an address with a slash and a text behind it. -/
theorem initAcl_save_sample : ∃ acl a : Acl sample,
    getCustomRules sample (some "10.0.0.0/8\nx.y\n10.0.0.0/x".toList) = .ok acl ∧
      acl.flatten 10 (fun _ => []) = .ok a ∧ ∃ more : List Subnet,
        FromSlashed sample ["10.0.0.0/x".toList, "x.y".toList] more ∧
        Holds (initAcl sampleNative a.save) true [] ["x.y".toList]
          [⟨⟨[10, 0, 0, 0], by decide⟩, 8, by decide⟩] [] more := by
  obtain ⟨acl, a, hacl, ha, hbypass, hrules, hproxy, hsubnets⟩ := savedRules_ok
    (show (savedRules "10.0.0.0/8\nx.y\n10.0.0.0/x".toList).map (fun a => (a.bypass,
        a.bypassHostnames.data, a.proxyHostnames.data, a.subnets.data))
      = .ok (true, [], ["10.0.0.0/x".toList, "x.y".toList],
        [⟨⟨[10, 0, 0, 0], by decide⟩, 8, by decide⟩]) by
      decide +kernel)
  obtain ⟨bypassMore, more, hnone, hmore, hread⟩ := initAcl_save sample sampleNative _ _ acl a hacl ha (by
    intro r hr
    rw [SortedList.mem_def, SortedList.mem_def, hrules, hproxy] at hr
    rcases hr with hr | hr
    · simp at hr
    · rw [List.mem_cons, List.mem_singleton] at hr
      rcases hr with rfl | rfl <;> decide)
  rw [hrules] at hnone
  obtain rfl := hnone.eq_nil (by simp)
  have hnames : ["10.0.0.0/x".toList, "x.y".toList].filter (isRead sample) = ["x.y".toList] := by
    decide +kernel
  rw [hbypass, hrules, hproxy, hsubnets, List.filter_nil, hnames] at hread
  rw [hproxy] at hmore
  exact ⟨acl, a, hacl, ha, more, hmore, hread⟩

/-- A host name pattern of 255 characters. -/
def longRule : Text := List.replicate 255 'a'

/-- A long host name is not read. -/
theorem initAcl_save_longRule : ∃ acl a : Acl sample,
    getCustomRules sample (some longRule) = .ok acl ∧ acl.flatten 10 (fun _ => []) = .ok a ∧
      ¬Holds (initAcl sampleNative a.save) a.bypass a.bypassHostnames.data a.proxyHostnames.data
        a.subnets.data [] [] := by
  obtain ⟨acl, a, hacl, ha, hbypass, hrules, hproxy, hsubnets⟩ := savedRules_ok
    (show (savedRules longRule).map (fun a => (a.bypass, a.bypassHostnames.data,
        a.proxyHostnames.data, a.subnets.data)) = .ok (true, [], [longRule], []) by
      decide +kernel)
  refine ⟨acl, a, hacl, ha, ?_⟩
  obtain ⟨hprintable, hurls⟩ := printable_flatten (printable_getCustomRules hacl).1 ha
  obtain ⟨bypassMore, proxyMore, -, -, hread⟩ := holds_of_printable sampleNative hprintable hurls
    (by
      intro r hr
      rw [SortedList.mem_def, hrules] at hr
      simp at hr)
    (by
      intro r hr
      rw [SortedList.mem_def, hproxy] at hr
      rw [List.mem_singleton.mp hr]
      decide)
  intro hexact
  have hlists := hread.whiteList.symm.trans hexact.whiteList
  rw [hproxy] at hlists
  have hlength := congrArg (fun l => l.rules.length) hlists
  have hlong : isRead sample longRule = false := by decide +kernel
  simp [RuleList.put, hlong] at hlength

end Acl

end SsAndroid
