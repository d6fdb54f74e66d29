import SsAndroid.Net.LocalDnsServer

/-!
# The local resolver of a service

A service hands `LocalDnsServer` its own `resolver`: a VPN service waits for the network of the
`DefaultNetworkListener` and looks the name up there, any other service uses the active network.  A
lookup goes to one of two back ends, by the API level, and these report the same failure of the
platform in different ways: `DnsResolverCompat21` throws the `UnknownHostException` of
`getAllByName`, `DnsResolverCompat29` an `IOException` around the error of its callback.

The domain matcher and the subnets of the server follow the route of the profile.
-/

namespace SsAndroid

open Dns

/-- What the platform makes of a lookup. -/
inductive Lookup
  | answer (addresses : List InetAddress)
  | failure
  | pending
  deriving DecidableEq

namespace DnsResolverCompat

/-- `DnsResolverCompat21.resolve`: `getAllByName` in a thread of its own. -/
def resolve21 : Lookup → Attempt (List InetAddress)
  | .answer addresses => .returns addresses
  | .failure => .throws .unknownHost
  | .pending => .pending

/-- `DnsResolverCompat29.resolve`: `onAnswer` resumes, `onError` resumes with an `IOException`. -/
def resolve29 : Lookup → Attempt (List InetAddress)
  | .answer addresses => .returns addresses
  | .failure => .throws .io
  | .pending => .pending

/-- `instance`. -/
def resolve (sdk : Nat) (lookup : Lookup) : Attempt (List InetAddress) :=
  if 29 ≤ sdk then resolve29 lookup else resolve21 lookup

end DnsResolverCompat

/-- The platform as a resolver sees it: its networks `ν`, the active one, and its lookups, on a
network or (`none`) on whatever is active. -/
structure LookupPlatform (ν : Type) where
  sdk : Nat
  activeNetwork : Option ν
  lookup : Option ν → Text → Lookup

namespace LookupPlatform

variable {ν : Type}

/-- `resolveOnActiveNetwork(host)`. -/
def resolveOnActiveNetwork (p : LookupPlatform ν) (host : Text) : Attempt (List InetAddress) :=
  if 29 ≤ p.sdk then
    match p.activeNetwork with
    | none => .returns []
    | some network => DnsResolverCompat.resolve29 (p.lookup (some network) host)
  else DnsResolverCompat.resolve21 (p.lookup none host)

end LookupPlatform

/-- The service that resolves; a VPN service with what `DefaultNetworkListener.get()` does: return a
network, wait for one, or throw an `UnknownHostException` in the fallback mode. -/
inductive Resolver (ν : Type)
  | base
  | vpn (network : ν)
  | vpnWaiting
  | vpnUnknownHost

namespace Resolver

variable {ν : Type}

/-- `resolver(host)`. -/
def resolver (p : LookupPlatform ν) (host : Text) : Resolver ν → Attempt (List InetAddress)
  | .base => p.resolveOnActiveNetwork host
  | .vpn network => DnsResolverCompat.resolve p.sdk (p.lookup (some network) host)
  | .vpnWaiting => .pending
  | .vpnUnknownHost => .throws .unknownHost

/-- The network a lookup of the newer back end goes to. -/
def queried (p : LookupPlatform ν) : Resolver ν → Option ν
  | .base => p.activeNetwork
  | .vpn network => some network
  | .vpnWaiting => none
  | .vpnUnknownHost => none

/-- The query of the newer back end ends with an error. -/
def QueryError (p : LookupPlatform ν) (host : Text) (r : Resolver ν) : Prop :=
  29 ≤ p.sdk ∧ ∃ network, r.queried p = some network ∧ p.lookup (some network) host = .failure

theorem resolve29_eq_io (lookup : Lookup) :
    DnsResolverCompat.resolve29 lookup = .throws .io ↔ lookup = .failure := by
  cases lookup <;> simp [DnsResolverCompat.resolve29]

theorem resolve21_ne_io (lookup : Lookup) : DnsResolverCompat.resolve21 lookup ≠ .throws .io := by
  cases lookup <;> simp [DnsResolverCompat.resolve21]

theorem resolver_eq_io (p : LookupPlatform ν) (host : Text) (r : Resolver ν) :
    r.resolver p host = .throws .io ↔ r.QueryError p host := by
  by_cases hsdk : 29 ≤ p.sdk
  · cases r with
    | base =>
      simp only [resolver, LookupPlatform.resolveOnActiveNetwork, QueryError, queried, hsdk, true_and]
      cases p.activeNetwork with
      | none => simp
      | some network => simpa using resolve29_eq_io _
    | vpn network =>
      simp only [resolver, DnsResolverCompat.resolve, QueryError, queried, hsdk, true_and]
      simpa using resolve29_eq_io _
    | vpnWaiting => simp [resolver, QueryError, queried]
    | vpnUnknownHost => simp [resolver, QueryError, queried]
  · cases r with
    | base =>
      simp [resolver, LookupPlatform.resolveOnActiveNetwork, hsdk, QueryError, resolve21_ne_io]
    | vpn network =>
      simp [resolver, DnsResolverCompat.resolve, hsdk, QueryError, resolve21_ne_io]
    | vpnWaiting => simp [resolver, QueryError, queried]
    | vpnUnknownHost => simp [resolver, QueryError, queried]

end Resolver

namespace LocalDnsService

def BYPASS_CHN : Text := "bypass-china".toList
def BYPASS_LAN_CHN : Text := "bypass-lan-china".toList
def GFWLIST : Text := "gfwlist".toList
def CHINALIST : Text := "china-list".toList
def CUSTOM_RULES : Text := "custom-rules".toList

/-- The server of `startProcesses`. -/
def server (googleApisTester : Text → Bool) (chinaIpList : List Subnet) (hosts : HostsFile)
    (route : Text) : LocalDnsServer :=
  if route = BYPASS_CHN ∨ route = BYPASS_LAN_CHN ∨ route = GFWLIST ∨ route = CUSTOM_RULES then
    ⟨hosts, false, some googleApisTester, chinaIpList⟩
  else if route = CHINALIST then ⟨hosts, false, none, []⟩
  else ⟨hosts, true, none, []⟩

/-! ### Falling back to the remote server -/

/-- The local resolver gives no acceptable answer: no address, none the server accepts, nothing in
time, or an `IOException`. -/
def Unacceptable (s : LocalDnsServer) : Attempt (List InetAddress) → Prop
  | .returns addresses => addresses = [] ∨ s.accepts addresses = false
  | .throws e => e = .unknownHost ∨ e = .io
  | .pending => True

variable {ν : Type} (L : Library) (s : LocalDnsServer) (p : LookupPlatform ν) (r : Resolver ν)

/-- The environment of a server whose remote forward succeeds. -/
def remoteAnswers (bytes : List UInt8) : Environment := ⟨fun host => r.resolver p host, .returns bytes⟩

/-- The server asks its local resolver about a name without hosts entry. -/
def Consulted (request : Message) (host : Text) : Prop :=
  request.header.opcode = opcodeQuery ∧ s.forwardOnly = false ∧ s.matchesRemoteDomain host = false

/-- What the body of the `try` makes of an unacceptable answer. -/
theorem afterLocal_unacceptable (request : Message) (bytes : List UInt8)
    (a : Attempt (List InetAddress)) (h : Unacceptable s a) :
    (LocalDnsServer.afterLocal L s (remoteAnswers p r bytes) request (withTimeout a)).1 =
      if a = .throws .io then .error .io else .ok bytes := by
  cases a with
  | returns addresses =>
    rw [if_neg (by simp)]
    rw [withTimeout, LocalDnsServer.afterLocal]
    rcases h with h | h
    · rw [if_pos h]
      rfl
    · split_ifs with hempty haccepts
      · rfl
      · rw [h] at haccepts
        exact absurd haccepts (by simp)
      · rfl
  | throws e =>
    rcases h with rfl | rfl
    · rw [if_neg (by simp)]
      rfl
    · rw [if_pos rfl]
      rfl
  | pending =>
    rw [if_neg (by simp)]
    rfl

variable {request : Message} {question : Question}

theorem answer_consulted (bytes : List UInt8) (hquestion : request.question = some question)
    (htype : question.type = typeA) (hhosts : s.hosts.resolve (L.nameText question.name) = [])
    (h : Consulted s request (L.nameText question.name)) :
    (LocalDnsServer.answer L s (remoteAnswers p r bytes) request).1 =
      (LocalDnsServer.afterLocal L s (remoteAnswers p r bytes) request
        (withTimeout (r.resolver p (L.nameText question.name)))).1 := by
  obtain ⟨hopcode, hforward, hmatches⟩ := h
  simp [LocalDnsServer.answer, hopcode, hquestion, htype, hhosts, hforward, hmatches, remoteAnswers]

theorem answer_not_consulted (bytes : List UInt8) (hquestion : request.question = some question)
    (htype : question.type = typeA) (hhosts : s.hosts.resolve (L.nameText question.name) = [])
    (h : ¬ Consulted s request (L.nameText question.name)) :
    (LocalDnsServer.answer L s (remoteAnswers p r bytes) request).1 = .ok bytes := by
  have hremote : (LocalDnsServer.replyRemotely (remoteAnswers p r bytes)).1 = .ok bytes := rfl
  by_cases hopcode : request.header.opcode = opcodeQuery
  swap
  · rw [LocalDnsServer.answer, if_pos hopcode]
    exact hremote
  rw [LocalDnsServer.answer, if_neg (not_not.mpr hopcode), hquestion]
  simp only [htype, hhosts, ne_eq, not_true, if_false]
  split_ifs with hforward hmatches
  · exact hremote
  · exact hremote
  · exact absurd ⟨hopcode, by simpa using hforward, by simpa using hmatches⟩ h

/-- **When the remote forward succeeds and the local resolver has no acceptable answer, the remote
bytes are the reply exactly if no consulted query of the newer back end ended with an error** (or the
remote answer is that very `SERVFAIL`). -/
theorem resolve_falls_back (packet bytes : List UInt8) (request : Message) (question : Question)
    (hparse : L.parse packet = .ok request) (hquestion : request.question = some question)
    (htype : question.type = typeA) (hhosts : s.hosts.resolve (L.nameText question.name) = [])
    (hlocal : Unacceptable s (r.resolver p (L.nameText question.name))) :
    (LocalDnsServer.resolve L s (remoteAnswers p r bytes) packet).1 = .returns bytes ↔
      ¬ (Consulted s request (L.nameText question.name) ∧
          r.QueryError p (L.nameText question.name)) ∨
        bytes = L.toWire (LocalDnsServer.servfail request) := by
  rw [LocalDnsServer.resolve_fst L s _ hparse]
  by_cases hconsulted : Consulted s request (L.nameText question.name)
  · rw [answer_consulted L s p r bytes hquestion htype hhosts hconsulted,
      afterLocal_unacceptable L s p r request bytes _ hlocal]
    have hio := r.resolver_eq_io p (L.nameText question.name)
    by_cases herror : r.QueryError p (L.nameText question.name)
    · simp only [if_pos (hio.mpr herror), Attempt.returns.injEq, hconsulted, herror, and_self, not_true,
        false_or]
      exact eq_comm
    · simp [herror, hio]
  · rw [answer_not_consulted L s p r bytes hquestion htype hhosts hconsulted]
    simp [hconsulted]

def sampleAddress : InetAddress := ⟨[1, 2, 3, 4], Or.inl rfl⟩

/-- The remote server's answer to the sample request. -/
def sampleAnswer : List UInt8 :=
  LocalDnsServer.wire
    ⟨{ id := 7, qr := true, rd := true, ra := true }, [⟨[[119]], typeA, classIN⟩],
      [⟨[[119]], typeA, classIN, 300, sampleAddress⟩]⟩

/-- A platform on which every lookup fails. -/
def failingPlatform (sdk : Nat) : LookupPlatform Nat := ⟨sdk, some 1, fun _ _ => .failure⟩

theorem resolve_falls_back_28 :
    Unacceptable LocalDnsServer.sampleServer
        ((Resolver.vpn 1).resolver (failingPlatform 28) ['w']) ∧
      ((LocalDnsServer.resolve LocalDnsServer.sampleLibrary LocalDnsServer.sampleServer
          (remoteAnswers (failingPlatform 28) (.vpn 1) sampleAnswer)
          LocalDnsServer.samplePacket).1 = .returns sampleAnswer ↔
        ¬ (Consulted LocalDnsServer.sampleServer LocalDnsServer.sampleRequest ['w'] ∧
            (Resolver.vpn 1).QueryError (failingPlatform 28) ['w']) ∨
          sampleAnswer = LocalDnsServer.sampleLibrary.toWire
            (LocalDnsServer.servfail LocalDnsServer.sampleRequest)) :=
  ⟨Or.inl rfl,
    resolve_falls_back LocalDnsServer.sampleLibrary LocalDnsServer.sampleServer (failingPlatform 28)
      (.vpn 1) LocalDnsServer.samplePacket sampleAnswer LocalDnsServer.sampleRequest
      ⟨[[119]], typeA, classIN⟩ (by decide +kernel) rfl rfl rfl (Or.inl rfl)⟩

/-- On API 29 the query ends with an error, the remote server answers, and the reply is
`SERVFAIL`. -/
theorem failed_query_gives_servfail :
    (LocalDnsServer.resolve LocalDnsServer.sampleLibrary LocalDnsServer.sampleServer
      (remoteAnswers (failingPlatform 29) (.vpn 1) sampleAnswer) LocalDnsServer.samplePacket).1 =
        .returns (LocalDnsServer.wire (LocalDnsServer.servfail LocalDnsServer.sampleRequest)) ∧
    LocalDnsServer.wire (LocalDnsServer.servfail LocalDnsServer.sampleRequest) ≠ sampleAnswer ∧
    (Resolver.vpn 1).resolver (failingPlatform 29) ['w'] = .throws .io ∧
    LocalDnsServer.sampleServer.hosts.resolve ['w'] = [] := by
  decide +kernel

/-! ### Routes that only forward -/

/-- **Unless the route is one of these five, no name is looked up locally.** -/
theorem server_forwards (googleApisTester : Text → Bool) (chinaIpList : List Subnet)
    (hosts : HostsFile) (route : Text) (env : Environment) (packet : List UInt8)
    (hroute : route ∉ [BYPASS_CHN, BYPASS_LAN_CHN, GFWLIST, CUSTOM_RULES, CHINALIST]) (host : Text) :
    .localResolver host ∉
      (LocalDnsServer.resolve L (server googleApisTester chinaIpList hosts route) env packet).2 := by
  intro h
  obtain ⟨request, _, hask⟩ := LocalDnsServer.mayAsk_of_localResolver L _ env h
  simp only [List.mem_cons, List.not_mem_nil, or_false, not_or] at hroute
  have hforward : (server googleApisTester chinaIpList hosts route).forwardOnly = true := by
    simp [server, hroute]
  exact absurd hask.notForward (by simp [hforward])

end LocalDnsService

end SsAndroid
