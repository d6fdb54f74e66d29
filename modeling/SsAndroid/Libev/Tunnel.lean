import SsAndroid.Libev.AeadRelay
import SsAndroid.Net.Socks5Domain

/-!
# A DNS query through ss-local

`LocalDnsServer.forward` over TCP: the query that `tcpWrap` makes goes into a connection of ss-local,
and `tcpUnwrap` reads what comes back.  **`query_run`**: in every run the remote is asked for the
address of the endpoint and gets the query and nothing else, and the resolver gets the answer that the
remote was given, or an exception; without a remote it gets an exception.
-/

namespace SsAndroid

namespace Socks5Endpoint

def requestConnect : UInt8 := 1

def tcpWrap (e : Socks5Endpoint) (message : List UInt8) : Except Exn ByteBuffer :=
  if message.length < 65536 then do
    let b ← ByteBuffer.allocate (ByteBuffer.toInt32 (8 + e.dest.length + message.length))
    let b ← b.put [socksVersion]
    let b ← b.put [1]
    let b ← b.put [0]
    let b ← b.put [socksVersion]
    let b ← b.put [requestConnect]
    let b ← b.put [0]
    let b ← b.put e.dest
    let b ← b.put (ByteBuffer.shortBytes message.length)
    let b ← b.put message
    pure b.flip
  else .error (.illegalState "TCP message too large")

/-- A message with its length. -/
def framed (message : List UInt8) : List UInt8 := ByteBuffer.shortBytes message.length ++ message

/-- Greeting, request and message. -/
def wrapped (e : Socks5Endpoint) (message : List UInt8) : List UInt8 :=
  [socksVersion, 1, 0] ++ (socksVersion :: requestConnect :: 0 :: (e.dest ++ framed message))

theorem tcpWrap_ok {e : Socks5Endpoint} {message : List UInt8} (hm : message.length < 65536)
    (hdest : e.dest.length < 2 ^ 16) :
    ∃ b, e.tcpWrap message = .ok b ∧ Holds (wrapped e message) b := by
  obtain ⟨b0, h0, hcap0, hpos0, hlim0, -⟩ :=
    ByteBuffer.allocate_ok (n := 8 + e.dest.length + message.length)
  have h0' : ByteBuffer.allocate (ByteBuffer.toInt32 (8 + e.dest.length + message.length)) = .ok b0 := by
    rw [ByteBuffer.toInt32_of_lt (by omega) (by omega)]
    exact_mod_cast h0
  have hf0 : Filled (8 + e.dest.length + message.length) [] b0 := by
    refine ⟨hcap0, hlim0, hpos0, ?_⟩
    rw [hpos0]
    rfl
  have hput : ∀ {written : List UInt8} {b : ByteBuffer} (byte : UInt8),
      Filled (8 + e.dest.length + message.length) written b → written.length < 6 →
      ∃ b', b.put [byte] = .ok b' ∧
        Filled (8 + e.dest.length + message.length) (written ++ [byte]) b' := by
    intro written b byte h hlt
    refine put_filled h [byte] ?_
    rw [List.length_singleton]
    omega
  obtain ⟨b1, h1, hf1⟩ := hput socksVersion hf0 (by decide)
  obtain ⟨b2, h2, hf2⟩ := hput 1 hf1 (by decide)
  obtain ⟨b3, h3, hf3⟩ := hput 0 hf2 (by decide)
  obtain ⟨b4, h4, hf4⟩ := hput socksVersion hf3 (by decide)
  obtain ⟨b5, h5, hf5⟩ := hput requestConnect hf4 (by decide)
  obtain ⟨b6, h6, hf6⟩ := hput 0 hf5 (by decide)
  obtain ⟨b7, h7, hf7⟩ := put_filled hf6 e.dest (by
    show 6 + e.dest.length ≤ _
    omega)
  obtain ⟨b8, h8, hf8⟩ := put_filled hf7 (ByteBuffer.shortBytes message.length) (by
    rw [List.length_append]
    show 6 + e.dest.length + 2 ≤ _
    omega)
  obtain ⟨b9, h9, hf9⟩ := put_filled hf8 message (by
    rw [List.length_append, List.length_append]
    show 6 + e.dest.length + 2 + message.length ≤ _
    omega)
  have hw : ([] ++ [socksVersion] ++ [1] ++ [0] ++ [socksVersion] ++ [requestConnect] ++ [0] ++ e.dest ++
      ByteBuffer.shortBytes message.length ++ message) = wrapped e message := by
    rw [wrapped, framed]
    simp
  rw [hw] at hf9
  have hlen : (wrapped e message).length = 8 + e.dest.length + message.length := by
    rw [← hw]
    simp only [List.length_append, List.length_nil, ByteBuffer.shortBytes, List.length_cons]
    omega
  refine ⟨b9.flip, ?_, ?_, rfl, hf9.position⟩
  · rw [tcpWrap, if_pos hm, ok_bind h0', ok_bind h1, ok_bind h2, ok_bind h3, ok_bind h4, ok_bind h5,
      ok_bind h6, ok_bind h7, ok_bind h8, ok_bind h9]
    rfl
  · have hall := hf9.data
    have hcap9 := hf9.capacity
    have hpos9 := hf9.position
    rw [List.take_of_length_le (by omega)] at hall
    exact hall

end Socks5Endpoint

namespace Tunnel

open Aead Local AeadRelay Socks5Endpoint
open Ppbloom (Filter Sizes)

variable {c : Cipher} {sz : Sizes}

/-! ### The request is read as it was meant -/

theorem address_dest {F : AddressFormat} {host : Text} {port : Int} {e : Socks5Endpoint}
    (he : Socks5Endpoint.new F host port = .ok e) : Address e.dest := by
  obtain ⟨-, type, address, haddr, hdest⟩ | ⟨-, hlen, hdest⟩ := dest_cases he
  · rw [hdest]
    obtain ⟨rfl, h4⟩ | ⟨rfl, h16⟩ := haddr
    · exact .ipv4 _ (by rw [List.length_append, h4, length_portBytes])
    · exact .ipv6 _ (by rw [List.length_append, h16, length_portBytes])
  · rw [hdest]
    refine .domain _ _ ?_
    rw [List.length_append, length_portBytes, UInt8.toNat_ofNat_of_lt' hlen]

/-- The greeting of `tcpWrap` is not the beginning of another one. -/
theorem greeting_unique {greeting rest rest' : List UInt8} (h : Greeting greeting)
    (hle : greeting ++ rest <+: [socksVersion, 1, 0] ++ rest') : rest <+: rest' := by
  cases h with
  | intro nmethods methods hlen hnoauth =>
    rw [List.cons_append, List.cons_append, List.cons_append, List.cons_append, List.cons_prefix_cons,
      List.cons_prefix_cons] at hle
    obtain ⟨-, rfl, hle⟩ := hle
    obtain ⟨m, rfl⟩ := List.length_eq_one_iff.mp hlen
    rw [List.singleton_append, List.cons_append, List.cons_prefix_cons] at hle
    exact hle.2

/-- No address is the beginning of another one. -/
theorem address_unique {a a' p p' : List UInt8} (h : Address a) (h' : Address a')
    (hle : a ++ p <+: a' ++ p') : a = a' ∧ p <+: p' := by
  obtain ⟨t, ht⟩ := hle
  have hread : parseRequest ((0 :: cmdConnect :: 0 :: (a ++ p)) ++ t) = .connect a :=
    parseRequest_connect_append (parseRequest_connect_iff.mpr ⟨h, 0, 0, p, rfl⟩) t
  have hread' : parseRequest (0 :: cmdConnect :: 0 :: (a' ++ p')) = .connect a' :=
    parseRequest_connect_iff.mpr ⟨h', 0, 0, p', rfl⟩
  rw [List.cons_append, List.cons_append, List.cons_append, ht, hread'] at hread
  obtain rfl := Request.connect.inj hread
  exact ⟨rfl, (List.prefix_append_right_inj _).mp ⟨t, ht⟩⟩

theorem asked_wrapped {e : Socks5Endpoint} {message fromClient abuf payload : List UInt8}
    (hdest : Address e.dest) (h : Asked fromClient abuf payload)
    (hle : fromClient <+: wrapped e message) : abuf = e.dest ∧ payload <+: framed message := by
  obtain ⟨haddr, greeting, v, r, hgreeting, rfl⟩ := h
  have hrequest := greeting_unique hgreeting hle
  rw [List.cons_prefix_cons, List.cons_prefix_cons, List.cons_prefix_cons] at hrequest
  exact address_unique haddr hdest hrequest.2.2.2

/-- What the resolver may have been told while there is no remote: its request can only be accepted. -/
theorem told_wrapped {e : Socks5Endpoint} {message fromClient toClient : List UInt8}
    (hdest : Address e.dest) (h : Told fromClient toClient) (hle : fromClient <+: wrapped e message) :
    ∃ told, told <+: methodReply methodNoauth ∧ toClient <+: told ++ accepted := by
  cases h with
  | nothing got =>
    rw [got]
    exact ⟨[], List.nil_prefix, List.nil_prefix⟩
  | unacceptable nmethods methods rest sent length noauth taken =>
    rw [sent, wrapped, List.cons_append, List.cons_append, List.cons_append, List.cons_prefix_cons,
      List.cons_prefix_cons] at hle
    obtain ⟨-, rfl, hle⟩ := hle
    obtain ⟨m, rfl⟩ := List.length_eq_one_iff.mp length
    rw [List.singleton_append, List.cons_prefix_cons] at hle
    exact absurd (List.mem_singleton.mpr hle.1.symm) noauth
  | greeted greeting rest told out greets sent taken answer got =>
    rw [sent] at hle
    obtain ⟨t, ht⟩ := greeting_unique greets hle
    have hrequest : parseRequest (rest ++ t) = .connect e.dest :=
      parseRequest_connect_iff.mpr ⟨hdest, socksVersion, 0, framed message, ht⟩
    have hanswer := answer.append t
    rw [hrequest] at hanswer
    refine ⟨told, taken, ?_⟩
    rw [got]
    refine (List.prefix_append_right_inj told).mpr ?_
    cases hanswer with
    | nothing => exact List.nil_prefix
    | connect _ taken => exact taken

/-! ### The answer -/

/-- What `tcpUnwrap` does with the bytes that the resolver has received when the stream ends, in whatever
pieces they came, where the buffer has room for a message of this length. -/
def Unwraps (e : Socks5Endpoint) (length : Nat) (received : List UInt8)
    (result : Option (Except Exn (Unit × Stream)) → Prop) : Prop :=
  ∀ (n : Nat) b chunks fuel, e.headerReserved + 4 + n < 2 ^ 31 → e.tcpReceiveBuffer n = .ok b →
    length ≤ min n 65535 → chunks.flatten = received → Stream.rounds ⟨b, chunks⟩ < fuel →
    result (tcpUnwrap fuel ⟨b, chunks⟩)

/-- The resolver gets the answer, or an `EOFException`; and where the reply to its greeting was cut short
and the rest follows all the same, some exception. -/
def Answered (e : Socks5Endpoint) (told answer received : List UInt8) : Prop :=
  Unwraps e answer.length received fun result =>
    (told = methodReply methodNoauth ∧
        ∃ s', result = some (.ok ((), s')) ∧ s'.buffer.content = answer) ∨
      ∃ exn, result = some (.error exn) ∧ (told = methodReply methodNoauth → ∃ eof, exn = .eof eof)

/-- The resolver gets an exception. -/
def Refused (e : Socks5Endpoint) (received : List UInt8) : Prop :=
  Unwraps e 0 received fun result => ∃ exn, result = some (.error exn)

theorem acceptance_framed (answer : List UInt8) : acceptance ++ framed answer =
    replyWith (Socks5Endpoint.reply 0 SsAndroid.atypIpv4 [0, 0, 0, 0] [0, 0]) answer := rfl

theorem receiveBuffer_fresh {e : Socks5Endpoint} {n : Nat} {b : ByteBuffer}
    (hn : e.headerReserved + 4 + n < 2 ^ 31) (hb : e.tcpReceiveBuffer n = .ok b) :
    Fresh b ∧ b.data.length = e.headerReserved + 4 + n := by
  obtain ⟨b', hb', hlen, hpos, hlim, -⟩ := ByteBuffer.allocate_ok (n := e.headerReserved + 4 + n)
  have hbuf : e.tcpReceiveBuffer n = .ok b' := by
    rw [tcpReceiveBuffer, ByteBuffer.toInt32_of_lt (by omega) (by omega)]
    exact_mod_cast hb'
  rw [hb] at hbuf
  obtain rfl := Except.ok.inj hbuf
  exact ⟨⟨hpos, by omega⟩, hlen⟩

section

variable {e : Socks5Endpoint} {n : Nat} {b : ByteBuffer} {chunks : List (List UInt8)} {fuel : Nat}
  {answer : List UInt8}

theorem room (hn : e.headerReserved + 4 + n < 2 ^ 31) (hb : e.tcpReceiveBuffer n = .ok b)
    (hlen : answer.length ≤ min n 65535) :
    (Socks5Endpoint.reply 0 SsAndroid.atypIpv4 [0, 0, 0, 0] [0, 0]).length + 2 + answer.length ≤
      b.data.length := by
  have h22 : 22 ≤ e.headerReserved := Nat.le_max_left _ _
  rw [length_reply, (receiveBuffer_fresh hn hb).2]
  simp only [List.length_cons, List.length_nil]
  omega

theorem unwrap_ok (hn : e.headerReserved + 4 + n < 2 ^ 31) (hb : e.tcpReceiveBuffer n = .ok b)
    (hlen : answer.length ≤ min n 65535) (hf : Stream.rounds ⟨b, chunks⟩ < fuel)
    (h : chunks.flatten = acceptance ++ framed answer) :
    ∃ s', tcpUnwrap fuel ⟨b, chunks⟩ = some (.ok ((), s')) ∧ s'.buffer.content = answer := by
  rw [acceptance_framed, ← List.append_nil (replyWith _ _)] at h
  exact tcpUnwrap_ok (.inl ⟨rfl, rfl⟩) rfl (by omega) (receiveBuffer_fresh hn hb).1 h (room hn hb hlen) hf

theorem unwrap_eof (hn : e.headerReserved + 4 + n < 2 ^ 31) (hb : e.tcpReceiveBuffer n = .ok b)
    (hlen : answer.length ≤ min n 65535) (hf : Stream.rounds ⟨b, chunks⟩ < fuel)
    (h : chunks.flatten <+: acceptance ++ framed answer)
    (hne : chunks.flatten ≠ acceptance ++ framed answer) :
    ∃ eof, tcpUnwrap fuel ⟨b, chunks⟩ = some (.error (.eof eof)) := by
  rw [acceptance_framed] at h hne
  exact tcpUnwrap_eof (.inl ⟨rfl, rfl⟩) rfl (by omega) (receiveBuffer_fresh hn hb).1 h hne
    (room hn hb hlen) hf

/-- Behind a reply to the greeting that was cut short the reply to the request is taken for it. -/
theorem unwrap_cut {told out : List UInt8} (hn : e.headerReserved + 4 + n < 2 ^ 31)
    (hb : e.tcpReceiveBuffer n = .ok b) (hf : Stream.rounds ⟨b, chunks⟩ < fuel)
    (htaken : told <+: methodReply methodNoauth) (hcut : told ≠ methodReply methodNoauth)
    (h : chunks.flatten <+: told ++ accepted ++ out) :
    ∃ exn, tcpUnwrap fuel ⟨b, chunks⟩ = some (.error exn) := by
  obtain ⟨hfresh, hcap⟩ := receiveBuffer_fresh hn hb
  have hlim : b.limit = b.data.length := hfresh.limit
  refine tcpUnwrap_refused (hfresh.received chunks) ?_ (by show 4 ≤ b.limit; omega) hf
  rintro ⟨-, h1, h2, -⟩
  obtain ⟨t, ht⟩ := h
  have hget : ∀ {i : Nat} {v : UInt8}, chunks.flatten[i]? = some v →
      (told ++ accepted ++ out)[i]? = some v := by
    intro i v hv
    rw [← ht, List.getElem?_append_left (List.getElem?_eq_some_iff.mp hv).1, hv]
  obtain rfl | rfl : told = [] ∨ told = [sversion] := by
    obtain ⟨u, hu⟩ := htaken
    match told, hu with
    | [], _ => exact .inl rfl
    | [_], hu => exact .inr (by rw [(List.cons.inj hu).1])
    | [_, _], hu =>
      obtain ⟨hx, hy⟩ := List.cons.inj hu
      exact absurd (by rw [hx, (List.cons.inj hy).1]; rfl) hcut
    | _ :: _ :: _ :: _, hu => exact absurd (congrArg List.length hu) (by simp [methodReply])
  · exact absurd (hget h2) (by simp [accepted, Local.reply, socksVersion])
  · exact absurd (hget h1) (by simp [accepted, Local.reply, sversion])

end

theorem answered_of_prefix_le {e : Socks5Endpoint} {told answer received : List UInt8}
    (htaken : told <+: methodReply methodNoauth)
    (h : received <+: told ++ accepted ++ framed answer) : Answered e told answer received := by
  intro n b chunks fuel hn hb hlen hchunks hf
  rw [← hchunks] at h
  by_cases hcut : told = methodReply methodNoauth
  · rw [hcut] at h
    by_cases heq : chunks.flatten = acceptance ++ framed answer
    · exact .inl ⟨hcut, unwrap_ok hn hb hlen hf heq⟩
    · obtain ⟨eof, heof⟩ := unwrap_eof hn hb hlen hf h heq
      exact .inr ⟨_, heof, fun _ => ⟨eof, rfl⟩⟩
  · obtain ⟨exn, hexn⟩ := unwrap_cut hn hb hf htaken hcut h
    exact .inr ⟨exn, hexn, fun hwhole => absurd hwhole hcut⟩

theorem refused_of_prefix_le {e : Socks5Endpoint} {told received : List UInt8}
    (htaken : told <+: methodReply methodNoauth) (h : received <+: told ++ accepted) :
    Refused e received := by
  intro n b chunks fuel hn hb hlen hchunks hf
  rw [← hchunks] at h
  by_cases hcut : told = methodReply methodNoauth
  · rw [hcut] at h
    have hshort : chunks.flatten ≠ acceptance ++ framed [] := by
      intro heq
      have hle := h.length_le
      rw [heq] at hle
      exact absurd hle (by decide)
    have hempty : ([] : List UInt8).length ≤ min n 65535 := hlen
    obtain ⟨eof, heof⟩ := unwrap_eof hn hb hempty hf (h.trans (List.prefix_append _ _)) hshort
    exact ⟨_, heof⟩
  · have hall : chunks.flatten <+: told ++ accepted ++ [] := by rwa [List.append_nil]
    exact unwrap_cut hn hb hf htaken hcut hall

/-! ### The whole way -/

/-- What a query and its answer have become, as the server and the resolver see them. -/
inductive Tunnels (c : Cipher) (cfg : Config) (e : Socks5Endpoint) (message : List UInt8)
    (s : Conn Filter CipherCtx CipherCtx) : Prop where
  | unrouted (route : s.route = none) (silent : Silent s) (refused : Refused e s.toClient)
  | direct (route : s.route = some true) (told : List UInt8) (up : s.toRemote <+: framed message)
      (taken : told <+: methodReply methodNoauth)
      (down : ∀ answer, s.fromRemote <+: framed answer → Answered e told answer s.toClient)
  | proxied (route : s.route = some false) (header told : List UInt8)
      (isHeader : Header cfg e.dest (framed message) header)
      (up : ∀ got, got <+: s.toRemote → c.keyLen < got.length →
        (chunksOf c got).refused = false ∧ (chunksOf c got).out <+: header ++ framed message)
      (taken : told <+: methodReply methodNoauth)
      (down : ∀ answer salt ctx sent wire, salt.length = c.keyLen → Wrote c salt ctx sent wire →
        sent.flatten = framed answer → s.fromRemote <+: wire → Answered e told answer s.toClient)

theorem tcpWrap_content {F : AddressFormat} {host : Text} {port : Int} {e : Socks5Endpoint}
    {message : List UInt8} {b : ByteBuffer} (he : Socks5Endpoint.new F host port = .ok e)
    (hb : e.tcpWrap message = .ok b) : b.content = wrapped e message := by
  have hdest := (address_dest he).length_le
  by_cases hm : message.length < 65536
  · obtain ⟨b', hb', hholds⟩ := tcpWrap_ok hm (e := e) (by omega)
    rw [hb] at hb'
    obtain rfl := Except.ok.inj hb'
    rw [ByteBuffer.content, hholds.data, hholds.position, hholds.limit, List.take_length, List.drop_zero]
  · rw [tcpWrap, if_neg hm] at hb
    cases hb

/-- **A query through ss-local**: whatever part of it has gone through. -/
theorem query_run (hc : c.Correct) {F : AddressFormat} {host : Text} {port : Int} {e : Socks5Endpoint}
    (he : Socks5Endpoint.new F host port = .ok e) {message : List UInt8} {b : ByteBuffer}
    (hb : e.tcpWrap message = .ok b) {cfg : Config} {es : List (Event Filter)} {pp : Filter}
    {x y : List UInt8} {s : Conn Filter CipherCtx CipherCtx} (hx : x.length = c.keyLen)
    (hrun : Machine.run (step (aeadStreams c sz) cfg) es (newServer pp (aeadCtxInit x) (aeadCtxInit y)) =
      some s) (hclient : s.fromClient <+: b.content) :
    Tunnels c cfg e message s ∧ Routed es s := by
  rw [tcpWrap_content he hb] at hclient
  have hdest := address_dest he
  have hinv : Inv (aeadStreams c sz) cfg (aeadCtxInit x) (aeadCtxInit y) s := run_inv hrun
  refine ⟨?_, routed_run hrun⟩
  cases relays_of_sound hc hx hinv.sound with
  | unrouted route silent told =>
    obtain ⟨told, htaken, hdown⟩ := told_wrapped hdest told hclient
    exact .unrouted route silent (refused_of_prefix_le htaken hdown)
  | direct route abuf payload told asked up taken down =>
    obtain ⟨-, hpayload⟩ := asked_wrapped hdest asked hclient
    refine .direct route told (up.trans hpayload) taken fun answer hanswer => ?_
    refine answered_of_prefix_le taken (down.trans ?_)
    exact (List.prefix_append_right_inj (told ++ accepted)).mpr hanswer
  | proxied route abuf payload header told asked isHeader up taken down =>
    obtain ⟨rfl, hpayload⟩ := asked_wrapped hdest asked hclient
    refine .proxied route header told (isHeader.mono hpayload) ?_ taken ?_
    · intro got hgot hlong
      obtain ⟨hrefused, hout⟩ := up got hgot hlong
      exact ⟨hrefused, hout.trans ((List.prefix_append_right_inj header).mpr hpayload)⟩
    · intro answer salt ctx sent wire hsalt hwrote hsent hwire
      refine answered_of_prefix_le taken ?_
      rw [← hsent]
      exact down salt ctx sent wire hsalt hwrote hwire

/-- What a server writes that answers with one byte. -/
def answerWire : List UInt8 :=
  match aeadEncrypt sampleCipher Ppbloom.smallSizes (Ppbloom.ppbloomInit Ppbloom.smallSizes)
      (aeadCtxInit [3, 4]) (framed [9]) with
  | some r => r.1
  | none => []

/-- The query arrives in two pieces, and the answer in two more. -/
def queryEvents : List (Event Filter) :=
  [.serverRecv (.bytes [5, 1, 0, 5, 1, 0, 1, 10]) proxyAnswers,
    .serverRecv (.bytes [0, 0, 0, 0, 53, 0, 2, 7, 7]) proxyAnswers, .remoteSend true (.bytes 40),
    .remoteRecv (.bytes (answerWire.take 5)) .again,
    .remoteRecv (.bytes (answerWire.drop 5)) (.bytes 3)]

def queryRun : Option (Conn Filter CipherCtx CipherCtx) :=
  Machine.run (step (aeadStreams sampleCipher Ppbloom.smallSizes) plainConfig) queryEvents
    (newServer (Ppbloom.ppbloomInit Ppbloom.smallSizes) (aeadCtxInit [1, 9]) (aeadCtxInit [2, 9]))

theorem query_run_answer : ∃ e s, Socks5Endpoint.new sampleFormat "10.0.0.0".toList 53 = .ok e ∧
    queryRun = some s ∧ Tunnels sampleCipher plainConfig e [7, 7] s ∧ s.route = some false ∧
    (chunksOf sampleCipher s.toRemote).out = e.dest ++ framed [7, 7] ∧
    s.toClient = acceptance ++ framed [9] := by
  have hrun := Option.eq_some_of_isSome (show queryRun.isSome = true by decide +kernel)
  have he : Socks5Endpoint.new sampleFormat "10.0.0.0".toList 53 = .ok ⟨[1, 10, 0, 0, 0, 0, 53]⟩ := by
    decide +kernel
  have hwrap : ∃ b, tcpWrap ⟨[1, 10, 0, 0, 0, 0, 53]⟩ [7, 7] = .ok b ∧ Holds _ b :=
    tcpWrap_ok (by decide) (by decide)
  obtain ⟨b, hb, -⟩ := hwrap
  refine ⟨_, _, he, hrun, (query_run sampleCipher_correct he hb rfl hrun ?_).1, ?_, ?_, ?_⟩
  · rw [tcpWrap_content he hb]
    decide +kernel
  · decide +kernel
  · decide +kernel
  · decide +kernel

end Tunnel

end SsAndroid
