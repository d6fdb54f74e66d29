import SsAndroid.Lib.LinkedMap
import SsAndroid.Net.Subnet

/-!
# The local DNS server

`resolve` answers a DNS request from the hosts file, from the local resolver or from the remote
server, which it asks in any case and at once.  What the two others do is the environment: an
`Attempt` returns, throws, or is not over when its time is.

The messages are those of the DNS library, of which `parse`, the text of a name and the wire format
are parameters.  The steps that matter to others are written down as `Effect`s: the local resolver is
called, the remote answer is awaited, the remote request is cancelled.
-/

namespace SsAndroid

/-- What the handlers distinguish; `timeoutCancellation` is a cancellation, `unknownHost` an
`IOException`. -/
inductive Thrown
  | timeoutCancellation
  | cancellation
  | unknownHost
  | io
  | other
  deriving DecidableEq, Repr

inductive Attempt (α : Type)
  | returns (value : α)
  | throws (e : Thrown)
  | pending
  deriving DecidableEq, Repr

/-- `withTimeout(TIMEOUT) { .. }`. -/
def withTimeout {α : Type} : Attempt α → Except Thrown α
  | .returns value => .ok value
  | .throws e => .error e
  | .pending => .error .timeoutCancellation

/-- `HostsFile`; `resolve` gives the addresses in some order. -/
structure HostsFile where
  map : LinkedMap Text (List InetAddress)
  shuffled : List InetAddress → List InetAddress
  perm : ∀ l, (shuffled l).Perm l

def HostsFile.resolve (h : HostsFile) (hostname : Text) : List InetAddress :=
  match h.map.get? hostname with
  | some addresses => h.shuffled addresses
  | none => []

namespace Dns

structure Header where
  id : UInt16
  opcode : Nat := 0
  rcode : Nat := 0
  qr : Bool := false
  aa : Bool := false
  tc : Bool := false
  rd : Bool := false
  ra : Bool := false
  ad : Bool := false
  cd : Bool := false
  deriving DecidableEq

/-- A record of the question section; a name is the list of its labels. -/
structure Question where
  name : List (List UInt8)
  type : Nat
  dclass : Nat
  deriving DecidableEq

structure Resource where
  name : List (List UInt8)
  type : Nat
  dclass : Nat
  ttl : Nat
  address : InetAddress
  deriving DecidableEq

/-- The parts of a message that the server reads or writes. -/
structure Message where
  header : Header
  questions : List Question := []
  answers : List Resource := []
  deriving DecidableEq

def opcodeQuery : Nat := 0

def rcodeServfail : Nat := 2

def typeA : Nat := 1

def typeAAAA : Nat := 28

def classIN : Nat := 1

/-- `getQuestion()`. -/
def Message.question (m : Message) : Option Question := m.questions.head?

/-- The DNS library: how it reads a message, prints a name without its last dot, and writes a
message. -/
structure Library where
  parse : List UInt8 → Except Thrown Message
  nameText : List (List UInt8) → Text
  toWire : Message → List UInt8

end Dns

open Dns

structure LocalDnsServer where
  hosts : HostsFile
  forwardOnly : Bool
  remoteDomainMatcher : Option (Text → Bool)
  localIpMatcher : List Subnet

/-- What happens to the requests of one packet. -/
structure Environment where
  localResolver : Text → Attempt (List InetAddress)
  forward : Attempt (List UInt8)

inductive Effect
  | localResolver (host : Text)
  | await
  | cancel
  deriving DecidableEq, Repr

namespace LocalDnsServer

def TTL : Nat := 120

def prepareDnsResponse (request : Message) : Message where
  header := { id := request.header.id, qr := true, rd := request.header.rd }
  questions := request.question.toList

/-- `ARecord` or `AAAARecord`, by the class of the address. -/
def addressRecord (question : Question) (address : InetAddress) : Resource where
  name := question.name
  type := if address.address.length = 4 then typeA else typeAAAA
  dclass := classIN
  ttl := TTL
  address := address

/-- The message of `cookDnsResponse`; a section has a 16-bit count, and adding one more record
throws. -/
def cookDnsResponse (request : Message) (results : List InetAddress) : Except Thrown Message :=
  match request.question with
  | none => .error .other
  | some question =>
      if results.length ≤ 0xFFFF then
        let m := prepareDnsResponse request
        .ok { m with
          header := { m.header with ra := true }
          answers := results.map (addressRecord question) }
      else .error .other

def servfail (request : Message) : Message :=
  let m := prepareDnsResponse request
  { m with header := { m.header with rcode := rcodeServfail } }

/-- Some address lies in some subnet, or there are no subnets. -/
def accepts (s : LocalDnsServer) (results : List InetAddress) : Bool :=
  s.localIpMatcher.isEmpty || s.localIpMatcher.any fun subnet => results.any subnet.matches

def matchesRemoteDomain (s : LocalDnsServer) (host : Text) : Bool :=
  match s.remoteDomainMatcher with
  | some m => m host
  | none => false

variable (L : Library) (s : LocalDnsServer) (env : Environment)

/-- `remote.cancel()` and a message with the addresses. -/
def replyLocally (request : Message) (results : List InetAddress) :
    Except Thrown (List UInt8) × List Effect :=
  ((cookDnsResponse request results).map L.toWire, [.cancel])

/-- `remote.await()`. -/
def replyRemotely : Except Thrown (List UInt8) × List Effect := (withTimeout env.forward, [.await])

/-- The part behind the call of the local resolver. -/
def afterLocal (request : Message) : Except Thrown (List InetAddress) →
    Except Thrown (List UInt8) × List Effect
  | .error .timeoutCancellation => replyRemotely env
  | .error .unknownHost => replyRemotely env
  | .error e => (.error e, [])
  | .ok localResults =>
      if localResults = [] then replyRemotely env
      else if s.accepts localResults then replyLocally L request localResults
      else replyRemotely env

/-- The body of the outer `try`. -/
def answer (request : Message) : Except Thrown (List UInt8) × List Effect :=
  if request.header.opcode ≠ opcodeQuery then replyRemotely env
  else match request.question with
    | none => replyRemotely env
    | some question =>
        if question.type ≠ typeA then replyRemotely env
        else
          let host := L.nameText question.name
          if s.hosts.resolve host ≠ [] then replyLocally L request (s.hosts.resolve host)
          else if s.forwardOnly then replyRemotely env
          else if s.matchesRemoteDomain host then replyRemotely env
          else
            let (reply, effects) :=
              afterLocal L s env request (withTimeout (env.localResolver host))
            (reply, .localResolver host :: effects)

/-- `resolve(packet)`, with the steps it takes. -/
def resolve (packet : List UInt8) : Attempt (List UInt8) × List Effect :=
  match L.parse packet with
  | .error .io => (env.forward, [])
  | .error .unknownHost => (env.forward, [])
  | .error e => (.throws e, [])
  | .ok request =>
      match answer L s env request with
      | (.ok reply, effects) => (.returns reply, effects)
      | (.error _, effects) => (.returns (L.toWire (servfail request)), effects ++ [.cancel])

theorem resolve_fst {packet : List UInt8} {request : Message} (h : L.parse packet = .ok request) :
    (resolve L s env packet).1 =
      match (answer L s env request).1 with
      | .ok reply => .returns reply
      | .error _ => .returns (L.toWire (servfail request)) := by
  rw [resolve, h]
  simp only
  obtain ⟨result, effects⟩ := answer L s env request
  cases result <;> rfl

/-! ### What a reply may be -/

/-- The addresses a reply is built from: those of the hosts file, or acceptable ones of the local
resolver. -/
def Chosen (host : Text) (addresses : List InetAddress) : Prop :=
  addresses ≠ [] ∧
    (addresses = s.hosts.resolve host ∨
      s.hosts.resolve host = [] ∧ env.localResolver host = .returns addresses ∧
        s.accepts addresses)

/-- A message of the server for a request. -/
structure LocalReply (request m : Message) : Prop where
  id : m.header.id = request.header.id
  qr : m.header.qr = true
  rd : m.header.rd = request.header.rd
  questions : m.questions = request.question.toList
  content :
    (m.header.rcode = 0 ∧ ∃ question addresses, request.question = some question ∧
      Chosen s env (L.nameText question.name) addresses ∧
      m.answers = addresses.map (addressRecord question)) ∨
    (m.header.rcode = rcodeServfail ∧ m.answers = [])

/-- When the local resolver may be asked. -/
structure MayAsk (request : Message) (host : Text) : Prop where
  query : request.header.opcode = opcodeQuery
  question : ∃ q, request.question = some q ∧ q.type = typeA ∧ host = L.nameText q.name
  noHosts : s.hosts.resolve host = []
  notRemote : s.matchesRemoteDomain host = false
  notForward : s.forwardOnly = false

/-- A reply of the body of the `try` is one of the two kinds, and the remote request is over. -/
structure Answered (request : Message) (r : Except Thrown (List UInt8) × List Effect) : Prop where
  reply : ∀ reply, r.1 = .ok reply →
    (env.forward = .returns reply ∨ ∃ m, reply = L.toWire m ∧ LocalReply L s env request m) ∧
      (.await ∈ r.2 ∨ .cancel ∈ r.2)
  asked : ∀ host, .localResolver host ∈ r.2 → MayAsk L s request host

theorem withTimeout_eq_ok {α : Type} {a : Attempt α} {value : α} (h : withTimeout a = .ok value) :
    a = .returns value := by
  cases a with
  | returns v => rw [Except.ok.inj h]
  | throws e => exact absurd h (by simp [withTimeout])
  | pending => exact absurd h (by simp [withTimeout])

theorem replyRemotely_answered (request : Message) :
    Answered L s env request (replyRemotely env) where
  reply := fun _ h => ⟨Or.inl (withTimeout_eq_ok h), Or.inl (by simp [replyRemotely])⟩
  asked := by simp [replyRemotely]

theorem cookDnsResponse_eq_ok {request m : Message} {results : List InetAddress}
    (h : cookDnsResponse request results = .ok m) :
    ∃ question, request.question = some question ∧
      m = { prepareDnsResponse request with
        header := { (prepareDnsResponse request).header with ra := true }
        answers := results.map (addressRecord question) } := by
  rw [cookDnsResponse] at h
  split at h
  · exact absurd h (by simp)
  · rename_i question hquestion
    split at h
    · exact ⟨question, hquestion, (Except.ok.inj h).symm⟩
    · exact absurd h (by simp)

variable {L s env} in
theorem replyLocally_answered {request : Message} {question : Question}
    {results : List InetAddress} (hquestion : request.question = some question)
    (hchosen : Chosen s env (L.nameText question.name) results) :
    Answered L s env request (replyLocally L request results) where
  reply := by
    intro reply h
    refine ⟨Or.inr ?_, Or.inr (by simp [replyLocally])⟩
    rw [replyLocally] at h
    cases hcook : cookDnsResponse request results with
    | error e => exact absurd h (by simp [hcook, Except.map])
    | ok m =>
      rw [hcook] at h
      obtain ⟨q, hq, rfl⟩ := cookDnsResponse_eq_ok hcook
      obtain rfl : q = question := Option.some.inj (hq.symm.trans hquestion)
      exact ⟨_, (Except.ok.inj h).symm, rfl, rfl, rfl, rfl,
        Or.inl ⟨rfl, q, results, hquestion, hchosen, rfl⟩⟩
  asked := by simp [replyLocally]

theorem afterLocal_answered {request : Message} {question : Question}
    (hquestion : request.question = some question)
    (hhosts : s.hosts.resolve (L.nameText question.name) = []) :
    Answered L s env request
      (afterLocal L s env request (withTimeout (env.localResolver (L.nameText question.name)))) := by
  have herror : ∀ e, Answered L s env request (Except.error e, []) := fun e =>
    ⟨fun reply h => absurd h (by simp), by simp⟩
  cases hlocal : withTimeout (env.localResolver (L.nameText question.name)) with
  | error e =>
    cases e with
    | timeoutCancellation => exact replyRemotely_answered L s env request
    | unknownHost => exact replyRemotely_answered L s env request
    | _ => exact herror _
  | ok localResults =>
    rw [afterLocal]
    split_ifs with hempty haccepts
    · exact replyRemotely_answered L s env request
    · exact replyLocally_answered hquestion
        ⟨hempty, Or.inr ⟨hhosts, withTimeout_eq_ok hlocal, haccepts⟩⟩
    · exact replyRemotely_answered L s env request

theorem answer_answered (request : Message) : Answered L s env request (answer L s env request) := by
  have hremote := replyRemotely_answered L s env request
  by_cases hopcode : request.header.opcode = opcodeQuery
  swap
  · rw [answer, if_pos hopcode]
    exact hremote
  rw [answer, if_neg (not_not.mpr hopcode)]
  split
  · exact hremote
  · rename_i question hquestion
    by_cases htype : question.type = typeA
    swap
    · rw [if_pos htype]
      exact hremote
    rw [if_neg (not_not.mpr htype)]
    simp only
    split_ifs with hhosts hforward hmatches
    · exact replyLocally_answered hquestion ⟨hhosts, Or.inl rfl⟩
    · exact hremote
    · exact hremote
    · have hafter := afterLocal_answered L s env hquestion (not_not.mp hhosts)
      constructor
      · intro reply h
        obtain ⟨hreply, hover⟩ := hafter.reply reply h
        exact ⟨hreply, hover.imp (List.mem_cons_of_mem _) (List.mem_cons_of_mem _)⟩
      · intro host hhost
        rcases List.mem_cons.mp hhost with heq | hhost
        · rw [Effect.localResolver.inj heq]
          exact ⟨hopcode, ⟨question, hquestion, htype, rfl⟩, not_not.mp hhosts,
            by simpa using hmatches, by simpa using hforward⟩
        · exact hafter.asked host hhost

theorem servfail_reply (request : Message) : LocalReply L s env request (servfail request) :=
  ⟨rfl, rfl, rfl, rfl, Or.inr ⟨rfl, rfl⟩⟩

theorem mayAsk_of_localResolver {packet : List UInt8} {host : Text}
    (h : .localResolver host ∈ (resolve L s env packet).2) :
    ∃ request, L.parse packet = .ok request ∧ MayAsk L s request host := by
  rw [resolve] at h
  split at h
  · exact absurd h (by simp)
  · exact absurd h (by simp)
  · exact absurd h (by simp)
  · rename_i request hrequest
    have hanswered := answer_answered L s env request
    generalize answer L s env request = r at hanswered h
    obtain ⟨result, effects⟩ := r
    refine ⟨request, hrequest, hanswered.asked host ?_⟩
    cases result with
    | ok reply => exact h
    | error e => simpa using h

/-- **Every request that can be read gets one reply, the remote server's or one of its own making,
and the remote request is awaited or cancelled; the local resolver is asked only where it may be.** -/
theorem resolve_replies (packet : List UInt8) (request : Message)
    (h : L.parse packet = .ok request) :
    ∃ reply effects, resolve L s env packet = (.returns reply, effects) ∧
      (env.forward = .returns reply ∨
        ∃ m, reply = L.toWire m ∧ LocalReply L s env request m) ∧
      (.await ∈ effects ∨ .cancel ∈ effects) ∧
      ∀ host, .localResolver host ∈ effects → MayAsk L s request host := by
  have hanswered := answer_answered L s env request
  rw [resolve, h]
  simp only
  generalize answer L s env request = r at hanswered
  obtain ⟨result, effects⟩ := r
  cases result with
  | ok reply =>
    obtain ⟨hreply, hover⟩ := hanswered.reply reply rfl
    exact ⟨reply, effects, rfl, hreply, hover, hanswered.asked⟩
  | error e =>
    refine ⟨_, _, rfl, Or.inr ⟨_, rfl, servfail_reply L s env request⟩, Or.inr (by simp), ?_⟩
    intro host hhost
    exact hanswered.asked host (by simpa using hhost)

def u16 (n : Nat) : List UInt8 := [(n / 256).toUInt8, n.toUInt8]

def wireFlags (h : Header) : Nat :=
  h.qr.toNat <<< 15 ||| h.opcode <<< 11 ||| h.aa.toNat <<< 10 ||| h.tc.toNat <<< 9 |||
    h.rd.toNat <<< 8 ||| h.ra.toNat <<< 7 ||| h.ad.toNat <<< 5 ||| h.cd.toNat <<< 4 ||| h.rcode

/-- The wire format of a message whose answers are for the name of its question, at offset 12. -/
def wire (m : Message) : List UInt8 :=
  u16 m.header.id.toNat ++ u16 (wireFlags m.header) ++ u16 m.questions.length ++
    u16 m.answers.length ++ [0, 0, 0, 0] ++
    m.questions.flatMap (fun q => q.name.flatMap (fun l => l.length.toUInt8 :: l) ++ [0] ++
      u16 q.type ++ u16 q.dclass) ++
    m.answers.flatMap (fun r => [0xC0, 12] ++ u16 r.type ++ u16 r.dclass ++ [0, 0] ++ u16 r.ttl ++
      u16 r.address.address.length ++ r.address.address)

/-- A query for the address of `w`, which the hosts file does not have. -/
def sampleRequest : Message where
  header := { id := 7, rd := true }
  questions := [⟨[[119]], typeA, classIN⟩]

def samplePacket : List UInt8 := [0, 7, 1, 0, 0, 1, 0, 0, 0, 0, 0, 0, 1, 119, 0, 0, 1, 0, 1]

def sampleLibrary : Library where
  parse := fun packet => if packet = samplePacket then .ok sampleRequest else .error .io
  nameText := fun labels => Text.join ['.'] (labels.map fun l => l.map fun b => Char.ofNat b.toNat)
  toWire := wire

def sampleServer : LocalDnsServer where
  hosts := ⟨LinkedMap.empty, id, fun _ => List.Perm.refl _⟩
  forwardOnly := false
  remoteDomainMatcher := none
  localIpMatcher := []

/-- Both lookups fail. -/
def failingLookups : Environment := ⟨fun _ => .throws .unknownHost, .pending⟩

theorem resolve_replies_failing :
    resolve sampleLibrary sampleServer failingLookups samplePacket =
      (.returns [0, 7, 0x81, 2, 0, 1, 0, 0, 0, 0, 0, 0, 1, 119, 0, 0, 1, 0, 1],
        [.localResolver ['w'], .await, .cancel]) ∧
    ∃ reply effects, resolve sampleLibrary sampleServer failingLookups samplePacket =
        (.returns reply, effects) ∧
      (failingLookups.forward = .returns reply ∨ ∃ m, reply = sampleLibrary.toWire m ∧
        LocalReply sampleLibrary sampleServer failingLookups sampleRequest m) ∧
      (.await ∈ effects ∨ .cancel ∈ effects) ∧
      ∀ host, .localResolver host ∈ effects →
        MayAsk sampleLibrary sampleServer sampleRequest host :=
  ⟨by decide +kernel,
    resolve_replies sampleLibrary sampleServer failingLookups samplePacket sampleRequest
      (by decide +kernel)⟩

end LocalDnsServer

end SsAndroid
