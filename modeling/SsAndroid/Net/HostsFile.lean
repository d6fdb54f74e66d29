import SsAndroid.Net.LocalDnsServer

/-!
# The hosts file and the records of an answer

`HostsFile` reads a text line by line: an address, and the names it is for.  A name may stand in many
lines, with addresses of both kinds, and `resolve` returns all of them (`mem_resolve_iff`).

The server looks at the type of a question once, and only answers those for an IPv4 address.  Which
record it writes is decided by the class of each address.  **`answersA_iff`**: the answer section is
the one a question of type A asks for exactly if the addresses that the answer is built from, those of
the hosts file or else those of the local resolver, are all IPv4 addresses.
-/

namespace SsAndroid

namespace HostsFile

/-- `lineSequence()`. -/
def lineSequence : Text → List Text
  | [] => [[]]
  | '\r' :: '\n' :: cs => [] :: lineSequence cs
  | c :: cs =>
      if c = '\n' ∨ c = '\r' then [] :: lineSequence cs
      else
        match lineSequence cs with
        | l :: ls => (c :: l) :: ls
        | [] => [[c]]

/-- `substringBefore('#').splitToSequence(' ', '\t').filter { it.isNotEmpty() }`. -/
def entriesOf (line : Text) : List Text :=
  (List.splitOnP (fun c => c = ' ' || c = '\t') (Text.splitAtFirst '#' line).1).filter (· ≠ [])

/-- `map.computeIfAbsentCompat(hostname) { LinkedHashSet(1) }.add(address)`. -/
def add (address : InetAddress) (map : LinkedMap Text (List InetAddress)) (hostname : Text) :
    LinkedMap Text (List InetAddress) :=
  let addresses := (map.get? hostname).getD []
  map.put hostname (if address ∈ addresses then addresses else addresses ++ [address])

/-- One line of the file. -/
def addLine (F : AddressFormat) (map : LinkedMap Text (List InetAddress)) (line : Text) :
    LinkedMap Text (List InetAddress) :=
  match entriesOf line with
  | [] => map
  | first :: hostnames =>
      match F.parseNumericAddress first with
      | none => map
      | some address => hostnames.foldl (add address) map

/-- `HostsFile(input)`. -/
def ofInput (F : AddressFormat) (input : Text) (shuffled : List InetAddress → List InetAddress)
    (perm : ∀ l, (shuffled l).Perm l) : HostsFile where
  map := (lineSequence input).foldl (addLine F) LinkedMap.empty
  shuffled := shuffled
  perm := perm

/-- The addresses a map has for a name. -/
def lookup (map : LinkedMap Text (List InetAddress)) (hostname : Text) : List InetAddress :=
  (map.get? hostname).getD []

theorem mem_lookup_add (address a : InetAddress) (map : LinkedMap Text (List InetAddress))
    (hostname host : Text) :
    a ∈ lookup (add address map hostname) host ↔
      a ∈ lookup map host ∨ a = address ∧ host = hostname := by
  rw [lookup, add, LinkedMap.get?_put]
  by_cases hhost : host = hostname
  · subst hhost
    rw [if_pos rfl, Option.getD_some, ← lookup]
    split_ifs with hmem
    · constructor
      · exact Or.inl
      · rintro (ha | ⟨rfl, -⟩)
        · exact ha
        · exact hmem
    · rw [List.mem_append, List.mem_singleton, and_iff_left rfl]
  · rw [if_neg (fun h => hhost h), ← lookup]
    simp [hhost]

theorem mem_lookup_addAll (address a : InetAddress) (host : Text) :
    ∀ (hostnames : List Text) (map : LinkedMap Text (List InetAddress)),
      a ∈ lookup (hostnames.foldl (add address) map) host ↔
        a ∈ lookup map host ∨ a = address ∧ host ∈ hostnames := by
  intro hostnames
  induction hostnames with
  | nil => simp
  | cons hostname hostnames ih =>
    intro map
    rw [List.foldl_cons, ih, mem_lookup_add, List.mem_cons]
    tauto

/-- The line gives a name the address. -/
def Gives (F : AddressFormat) (line host : Text) (a : InetAddress) : Prop :=
  ∃ first hostnames, entriesOf line = first :: hostnames ∧
    F.parseNumericAddress first = some a ∧ host ∈ hostnames

theorem mem_lookup_addLine (F : AddressFormat) (map : LinkedMap Text (List InetAddress))
    (line host : Text) (a : InetAddress) :
    a ∈ lookup (addLine F map line) host ↔ a ∈ lookup map host ∨ Gives F line host a := by
  rw [addLine, Gives]
  cases hentries : entriesOf line with
  | nil => simp
  | cons first hostnames =>
    cases hparse : F.parseNumericAddress first with
    | none => simp [hparse]
    | some address =>
      simp only [hparse, mem_lookup_addAll]
      constructor
      · rintro (hmem | ⟨rfl, hhost⟩)
        · exact Or.inl hmem
        · exact Or.inr ⟨first, hostnames, rfl, hparse, hhost⟩
      · rintro (hmem | ⟨f, names, heq, hp, hhost⟩)
        · exact Or.inl hmem
        · obtain ⟨rfl, rfl⟩ := List.cons.inj heq
          exact Or.inr ⟨(Option.some.inj (hp.symm.trans hparse)), hhost⟩

theorem mem_lookup_addLines (F : AddressFormat) (host : Text) (a : InetAddress) :
    ∀ (lines : List Text) (map : LinkedMap Text (List InetAddress)),
      a ∈ lookup (lines.foldl (addLine F) map) host ↔
        a ∈ lookup map host ∨ ∃ line ∈ lines, Gives F line host a := by
  intro lines
  induction lines with
  | nil => simp
  | cons line lines ih =>
    intro map
    rw [List.foldl_cons, ih, mem_lookup_addLine, List.exists_mem_cons_iff]
    tauto

theorem mem_resolve (h : HostsFile) (host : Text) (a : InetAddress) :
    a ∈ h.resolve host ↔ a ∈ lookup h.map host := by
  rw [resolve, lookup]
  cases h.map.get? host with
  | none => rfl
  | some addresses => exact (h.perm addresses).mem_iff

/-- **A name resolves to the addresses of the lines it stands in.** -/
theorem mem_resolve_iff (F : AddressFormat) (input host : Text) (a : InetAddress)
    (shuffled : List InetAddress → List InetAddress) (perm : ∀ l, (shuffled l).Perm l) :
    a ∈ (ofInput F input shuffled perm).resolve host ↔
      ∃ line ∈ lineSequence input, Gives F line host a := by
  rw [mem_resolve, ofInput, mem_lookup_addLines]
  simp [lookup]

end HostsFile

namespace LocalDnsServer

open Dns

/-- `is Inet4Address`. -/
def isInet4 (a : InetAddress) : Bool := a.address.length = 4

/-- The addresses from which the server answers a query for `host`, where it does so itself. -/
inductive AnswersFrom (s : LocalDnsServer) (env : Environment) (host : Text) : List InetAddress → Prop
  | hosts : s.hosts.resolve host ≠ [] → AnswersFrom s env host (s.hosts.resolve host)
  | localResolver {results : List InetAddress} : s.hosts.resolve host = [] →
      s.forwardOnly = false → s.matchesRemoteDomain host = false →
      env.localResolver host = .returns results → results ≠ [] → s.accepts results = true →
      AnswersFrom s env host results

/-- The answer section that a question of type A asks for. -/
def AnswersA (question : Question) (results : List InetAddress) (m : Message) : Prop :=
  (∀ r ∈ m.answers, r.name = question.name ∧ r.type = question.type) ∧
    (m.answers.map Resource.address).Perm (results.filter isInet4)

variable {L : Library} {s : LocalDnsServer} {env : Environment} {request m : Message}
  {question : Question} {results : List InetAddress}

theorem answer_local (hopcode : request.header.opcode = opcodeQuery)
    (hquestion : request.question = some question) (htype : question.type = typeA)
    (hfrom : AnswersFrom s env (L.nameText question.name) results) :
    (answer L s env request).1 = (cookDnsResponse request results).map L.toWire := by
  rw [answer, if_neg (not_not.mpr hopcode), hquestion]
  simp only
  rw [if_neg (not_not.mpr htype)]
  cases hfrom with
  | hosts hne =>
    rw [if_pos hne]
    rfl
  | localResolver hnone hforward hdomain hresolver hne haccepts =>
    rw [if_neg (not_not.mpr hnone), if_neg (by simp [hforward]), if_neg (by simp [hdomain]),
      hresolver]
    simp only [withTimeout, afterLocal]
    rw [if_neg hne, if_pos haccepts]
    rfl

theorem answersA_map_iff (htype : question.type = typeA)
    (hanswers : m.answers = results.map (addressRecord question)) :
    AnswersA question results m ↔ ∀ a ∈ results, isInet4 a = true := by
  have haddresses : m.answers.map Resource.address = results := by
    rw [hanswers, List.map_map]
    exact List.map_id results
  constructor
  · intro h
    have hlength := h.2.length_eq
    rw [haddresses] at hlength
    exact List.length_filter_eq_length_iff.mp hlength.symm
  · intro h
    refine ⟨?_, ?_⟩
    · intro r hr
      rw [hanswers] at hr
      obtain ⟨a, ha, rfl⟩ := List.mem_map.mp hr
      have h4 : a.address.length = 4 := of_decide_eq_true (h a ha)
      refine ⟨rfl, ?_⟩
      rw [htype]
      exact if_pos h4
    · rw [haddresses, List.filter_eq_self.mpr h]

/-- **When an answer to a question of type A is one**: the server replies with the message built from
the addresses it found, and the answer section has the right records exactly if all of them are IPv4
addresses. -/
theorem answersA_iff (packet : List UInt8) (hparse : L.parse packet = .ok request)
    (hopcode : request.header.opcode = opcodeQuery) (hquestion : request.question = some question)
    (htype : question.type = typeA)
    (hfrom : AnswersFrom s env (L.nameText question.name) results)
    (hcook : cookDnsResponse request results = .ok m) :
    (resolve L s env packet).1 = .returns (L.toWire m) ∧
      (AnswersA question results m ↔ ∀ a ∈ results, isInet4 a = true) := by
  constructor
  · rw [resolve_fst L s env hparse, answer_local hopcode hquestion htype hfrom, hcook]
    rfl
  · obtain ⟨q, hq, rfl⟩ := cookDnsResponse_eq_ok hcook
    obtain rfl : q = question := Option.some.inj (hq.symm.trans hquestion)
    exact answersA_map_iff htype rfl

def ipv4 : InetAddress := ⟨[10, 0, 0, 1], by decide⟩

def ipv6 : InetAddress := ⟨[0, 0, 0, 0, 0, 0, 0, 0, 0, 0, 0, 0, 0, 0, 0, 1], by decide⟩

theorem perm_id (l : List InetAddress) : (id l).Perm l := List.Perm.refl l

/-- The server of a device whose hosts file has one line for `w`. -/
def serverWithHost (text : Text) (a : InetAddress) (hne : text ≠ [])
    (hchars : ∀ c ∈ text, isAddressChar c = true) : LocalDnsServer :=
  { sampleServer with
    hosts := .ofInput (.only text a hne hchars) (text ++ " w # comment".toList) id perm_id }

def ipv4Server : LocalDnsServer := serverWithHost "10.0.0.1".toList ipv4 (by decide)
  (List.all_eq_true.mp (by decide))

def ipv6Server : LocalDnsServer := serverWithHost "::1".toList ipv6 (by decide)
  (List.all_eq_true.mp (by decide))

theorem answersA_iff_ipv4 :
    ∃ m, (resolve sampleLibrary ipv4Server failingLookups samplePacket).1 =
        .returns (sampleLibrary.toWire m) ∧
      AnswersA ⟨[[119]], typeA, classIN⟩ [ipv4] m :=
  have hhosts : ipv4Server.hosts.resolve ['w'] = [ipv4] := by decide +kernel
  have hfrom : AnswersFrom ipv4Server failingLookups
      (sampleLibrary.nameText [[119]]) [ipv4] := hhosts ▸ .hosts (by decide +kernel)
  have hparse : sampleLibrary.parse samplePacket = .ok sampleRequest := by decide +kernel
  have h := answersA_iff samplePacket hparse rfl rfl rfl hfrom rfl
  ⟨_, h.1, h.2.mpr (by decide +kernel)⟩

/-- A hosts file with `::1 w`, and a question for the IPv4 address of `w`: the answer is a record of
type AAAA. -/
theorem ipv6Host_answered :
    AnswersFrom ipv6Server failingLookups (sampleLibrary.nameText [[119]]) [ipv6] ∧
    ∃ m, cookDnsResponse sampleRequest [ipv6] = .ok m ∧
      (resolve sampleLibrary ipv6Server failingLookups samplePacket).1 =
        .returns (sampleLibrary.toWire m) ∧
      m.answers.map Resource.type = [typeAAAA] ∧
      ¬ AnswersA ⟨[[119]], typeA, classIN⟩ [ipv6] m := by
  have hhosts : ipv6Server.hosts.resolve ['w'] = [ipv6] := by decide +kernel
  refine ⟨hhosts ▸ .hosts (by decide +kernel), _, rfl, by decide +kernel, rfl, ?_⟩
  intro h
  have hall := (answersA_map_iff rfl rfl).mp h
  exact absurd (hall ipv6 List.mem_cons_self) (by decide)

end LocalDnsServer

end SsAndroid
