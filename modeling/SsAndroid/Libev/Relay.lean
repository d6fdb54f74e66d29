import SsAndroid.Libev.Callbacks

/-!
# What goes through a connection of ss-local

`Phase` is what holds between two callbacks while a connection is open: in `STAGE_STREAM`, either the
client is read and nothing waits for the remote, or the remote is written and the client is not read;
and the same the other way.  A callback keeps it or closes the connection (`phase_step`).

* **`relay_run`**: what was written to a remote server is the beginning of the encryption of the address
  and of what the client sent behind its request, in order and without a gap; what was written to the
  client is the beginning of the replies and of the decryption of what came from this server; and before
  a remote is chosen the client gets the replies that its own bytes call for and nothing else;
* **`watched_run`**: bytes are read from one side only while none wait for the other.
-/

namespace SsAndroid

namespace Local

open Crypto (Decrypted Streams)

variable {G E D : Type}

/-! ### Streams so far -/

/-- Plaintexts that were encrypted one after the other, and what they gave; none is too long for a
chunk. -/
inductive Encrypted (C : Streams G E D) (e₀ : E) : List (List UInt8) → List UInt8 → E → Prop where
  | nil : Encrypted C e₀ [] [] e₀
  | snoc {ps : List (List UInt8)} {wire p c : List UInt8} {e e' : E} {g g' : G}
      (before : Encrypted C e₀ ps wire e) (short : p.length ≤ socketBufSize)
      (encrypt : C.encrypt g e p = some (c, g', e')) : Encrypted C e₀ (ps ++ [p]) (wire ++ c) e'

/-- Bytes that were decrypted piece by piece, and what they gave. -/
inductive Deciphered (C : Streams G E D) (d₀ : D) : List UInt8 → List UInt8 → D → Prop where
  | nil : Deciphered C d₀ [] [] d₀
  | ok {input out bytes p : List UInt8} {d d' : D} {g g' : G} (before : Deciphered C d₀ input out d)
      (decrypt : C.decrypt g d bytes = (.ok p, g', d')) :
      Deciphered C d₀ (input ++ bytes) (out ++ p) d'
  | needMore {input out bytes : List UInt8} {d d' : D} {g g' : G} (before : Deciphered C d₀ input out d)
      (decrypt : C.decrypt g d bytes = (.needMore, g', d')) : Deciphered C d₀ (input ++ bytes) out d'

/-- The client asked for `abuf`, and `payload` is what it sent behind the request. -/
def Asked (fromClient abuf payload : List UInt8) : Prop :=
  Address abuf ∧ ∃ greeting v r, Greeting greeting ∧
    fromClient = greeting ++ v :: cmdConnect :: r :: (abuf ++ payload)

/-- The address that is sent to the remote: the one asked for, or one with a host name that the
beginning of the payload gave away. -/
def Header (cfg : Config) (abuf payload header : List UInt8) : Prop :=
  header = abuf ∨ ∃ name p, p <+: payload ∧ sniff cfg abuf p = .host name ∧
    header = hostAddress name abuf

/-- The reply to a `CONNECT`. -/
def accepted : List UInt8 := reply repSucceeded ++ List.replicate 6 0

/-- The two replies of a connection that gets a stream. -/
def acceptance : List UInt8 := methodReply methodNoauth ++ accepted

/-- The replies to a `UDP ASSOCIATE`, which is answered again whenever something arrives behind it. -/
def associated (sockAddrs : List (List UInt8)) : List UInt8 :=
  (sockAddrs.map (reply repSucceeded ++ ·)).flatten

theorem associated_snoc (sockAddrs : List (List UInt8)) (sockAddr : List UInt8) :
    associated (sockAddrs ++ [sockAddr]) = associated sockAddrs ++ (reply repSucceeded ++ sockAddr) := by
  rw [associated, List.map_append, List.flatten_append, List.map_singleton, List.flatten_singleton]
  rfl

/-- What a client may have been told about its request while there is no remote. -/
inductive Answer : Request → List UInt8 → Prop where
  | nothing (request : Request) : Answer request []
  | badCommand {out : List UInt8} (taken : out <+: reply repCmdNotSupported) : Answer .badCommand out
  | badAddress (atyp : UInt8) {out : List UInt8} (taken : out <+: reply repAddrtypeNotSupported) :
      Answer (.badAddress atyp) out
  | udpAssociate (sockAddrs : List (List UInt8)) {out : List UInt8}
      (taken : out <+: reply repConnRefused ∨ ∃ sockAddr, out <+: reply repSucceeded ++ sockAddr) :
      Answer .udpAssociate (associated sockAddrs ++ out)
  | connect (abuf : List UInt8) {out : List UInt8} (taken : out <+: accepted) :
      Answer (.connect abuf) out

/-- What a client has been told that has sent `fromClient`, while there is no remote. -/
inductive Told (fromClient toClient : List UInt8) : Prop where
  | nothing (got : toClient = [])
  | unacceptable (nmethods : UInt8) (methods rest : List UInt8)
      (sent : fromClient = sversion :: nmethods :: (methods ++ rest))
      (length : methods.length = nmethods.toNat) (noauth : methodNoauth ∉ methods)
      (taken : toClient <+: methodReply methodUnacceptable)
  | greeted (greeting rest told out : List UInt8) (greets : Greeting greeting)
      (sent : fromClient = greeting ++ rest) (taken : told <+: methodReply methodNoauth)
      (answer : Answer (parseRequest rest) out) (got : toClient = told ++ out)

theorem Asked.append {fromClient abuf payload : List UInt8} (h : Asked fromClient abuf payload)
    (bytes : List UInt8) : Asked (fromClient ++ bytes) abuf (payload ++ bytes) := by
  obtain ⟨haddr, greeting, v, r, hgreeting, rfl⟩ := h
  exact ⟨haddr, greeting, v, r, hgreeting, by simp⟩

theorem Answer.append {buf out : List UInt8} (h : Answer (parseRequest buf) out) (bytes : List UInt8) :
    Answer (parseRequest (buf ++ bytes)) out := by
  by_cases hnil : out = []
  · rw [hnil]
    exact .nothing _
  · have hdecided : parseRequest (buf ++ bytes) = parseRequest buf := by
      refine parseRequest_append (fun hmore => ?_) (fun atyp hmore => ?_) bytes <;>
      · rw [hmore] at h
        cases h
        exact hnil rfl
    rwa [hdecided]

theorem Told.append {fromClient toClient : List UInt8} (h : Told fromClient toClient)
    (bytes : List UInt8) : Told (fromClient ++ bytes) toClient := by
  cases h with
  | nothing got => exact .nothing got
  | unacceptable nmethods methods rest sent length noauth taken =>
    refine .unacceptable nmethods methods (rest ++ bytes) ?_ length noauth taken
    rw [sent, List.cons_append, List.cons_append, List.append_assoc]
  | greeted greeting rest told out greets sent taken answer got =>
    refine .greeted greeting (rest ++ bytes) told out greets ?_ taken (answer.append bytes) got
    rw [sent, List.append_assoc]

theorem Header.mono {cfg : Config} {abuf payload payload' header : List UInt8}
    (h : Header cfg abuf payload header) (hle : payload <+: payload') :
    Header cfg abuf payload' header := by
  obtain h | ⟨name, p, hp, hname, h⟩ := h
  · exact .inl h
  · exact .inr ⟨name, p, hp.trans hle, hname, h⟩

theorem header_remoteAddress (cfg : Config) (direct : Bool) (abuf payload : List UInt8) :
    Header cfg abuf payload (remoteAddress cfg direct abuf (sniff cfg abuf payload)) := by
  cases hsniff : sniff cfg abuf payload with
  | incomplete => exact .inl rfl
  | nothing => exact .inl rfl
  | host name =>
    rw [remoteAddress]
    split
    · exact .inr ⟨name, payload, List.prefix_refl _, hsniff, rfl⟩
    · exact .inl rfl

theorem Header.length_le {cfg : Config} {abuf payload header : List UInt8}
    (h : Header cfg abuf payload header) (haddr : Address abuf) : header.length ≤ socketBufSize := by
  have h260 : (260 : Nat) ≤ socketBufSize := by decide
  obtain rfl | ⟨name, p, -, -, rfl⟩ := h
  · exact le_trans haddr.length_le (by omega)
  · exact le_trans (hostAddress_length_le name haddr) h260

theorem Header.ne_nil {cfg : Config} {abuf payload header : List UInt8}
    (h : Header cfg abuf payload header) (haddr : Address abuf) : header ≠ [] := by
  obtain rfl | ⟨name, p, -, -, rfl⟩ := h
  · cases haddr <;> exact List.cons_ne_nil _ _
  · exact List.cons_ne_nil _ _

/-! ### Between two callbacks -/

section

variable (C : Streams G E D) (cfg : Config) (e₀ : E) (d₀ : D)

/-- Before there is a remote. -/
structure Idle (s : Conn G E D) : Prop where
  remote : s.remote = none
  recvOn : s.recvOn = true
  sendOn : s.sendOn = false
  opened : s.closed = false
  route : s.route = none
  eCtx : s.eCtx = e₀
  dCtx : s.dCtx = d₀
  toRemote : s.toRemote = []
  fromRemote : s.fromRemote = []
  tx : s.tx = 0
  rx : s.rx = 0
  short : s.buf.length ≤ socketBufSize

/-- What waits in `remote->buf` is still to be encrypted. -/
inductive Ready (s : Conn G E D) (r : Remote) (abuf payload : List UInt8) : Prop where
  | direct (direct : r.direct = true) (bytes : s.toRemote ++ r.buf = payload)
  | proxied (direct : r.direct = false) (header : List UInt8) (ps : List (List UInt8))
      (isHeader : Header cfg abuf payload header)
      (encrypted : Encrypted C e₀ (header :: ps) (s.toRemote ++ s.abuf.getD []) s.eCtx)
      (plain : ps.flatten ++ r.buf = payload) (tx : s.tx = ps.flatten.length)

/-- What waits in `remote->buf` is still to be sent. -/
inductive Flushing (s : Conn G E D) (r : Remote) (abuf payload : List UInt8) : Prop where
  | direct (direct : r.direct = true) (bytes : s.toRemote ++ r.buf = payload)
  | proxied (direct : r.direct = false) (header : List UInt8) (ps : List (List UInt8))
      (isHeader : Header cfg abuf payload header) (noAbuf : s.abuf = none)
      (encrypted : Encrypted C e₀ (header :: ps) (s.toRemote ++ r.buf) s.eCtx)
      (plain : ps.flatten = payload) (tx : s.tx = ps.flatten.length)

/-- The client is read, or the remote is written. -/
def Upward (s : Conn G E D) (r : Remote) (abuf payload : List UInt8) : Prop :=
  s.recvOn = true ∧ r.sendOn = false ∧ r.buf = [] ∧ Ready C cfg e₀ s r abuf payload ∨
    s.recvOn = false ∧ s.delayedOn = false ∧ r.sendOn = true ∧ Flushing C cfg e₀ s r abuf payload

/-- What was written to the client and what still waits for it, given what came from the remote. -/
def Downward (direct : Bool) (toClient pending fromRemote : List UInt8) (d : D) (rx : Nat) : Prop :=
  ∃ told out, told <+: methodReply methodNoauth ∧ toClient ++ pending = told ++ accepted ++ out ∧
    (direct = true → out = fromRemote) ∧
    (direct = false → Deciphered C d₀ fromRemote out d ∧ rx = fromRemote.length)

def pending (sendOn : Bool) (buf : List UInt8) : List UInt8 := if sendOn then buf else []

/-- Once connected, the remote is read or the client is written. -/
def Watched (connected recvOn sendOn : Bool) (fromRemote : List UInt8) : Prop :=
  if connected then recvOn = !sendOn else recvOn = false ∧ sendOn = false ∧ fromRemote = []

structure Streaming (s : Conn G E D) (r : Remote) (abuf payload : List UInt8) : Prop where
  stage : s.stage = .stream
  opened : s.closed = false
  remote : s.remote = some r
  route : s.route = some r.direct
  asked : Asked s.fromClient abuf payload
  watched : Watched r.connected r.recvOn s.sendOn s.fromRemote
  downward : Downward C d₀ r.direct s.toClient (pending s.sendOn s.buf) s.fromRemote s.dCtx s.rx

/-- What a client has been told while its request is read. -/
inductive Handshaking (s : Conn G E D) (told : List UInt8) : Prop where
  | handshake (stage : s.stage = .handshake) (sockAddrs : List (List UInt8))
      (toClient : s.toClient = told ++ associated sockAddrs)
      (request : sockAddrs ≠ [] → parseRequest s.buf = .udpAssociate)
  | sni (stage : s.stage = .sni) (abuf : List UInt8) (request : parseRequest s.buf = .connect abuf)
      (toClient : s.toClient = told ++ accepted)

/-- **What holds between two callbacks of an open connection.** -/
inductive Phase (s : Conn G E D) : Prop where
  | init (stage : s.stage = .init) (idle : Idle e₀ d₀ s) (fromClient : s.fromClient = s.buf)
      (toClient : s.toClient = [])
  | request (idle : Idle e₀ d₀ s) (greeting told : List UInt8) (greets : Greeting greeting)
      (fromClient : s.fromClient = greeting ++ s.buf) (taken : told <+: methodReply methodNoauth)
      (handshaking : Handshaking s told)
  | stream (r : Remote) (abuf payload : List UInt8) (streaming : Streaming C d₀ s r abuf payload)
      (upward : Upward C cfg e₀ s r abuf payload)

/-- Nothing has gone to the remote or come from it. -/
def Silent (s : Conn G E D) : Prop := s.toRemote = [] ∧ s.fromRemote = []

/-- **What has gone through**, by the remote that was chosen and whether the connection is still open or
not. -/
inductive Sound (s : Conn G E D) : Prop where
  | unrouted (route : s.route = none) (silent : Silent s) (told : Told s.fromClient s.toClient)
  | direct (route : s.route = some true) (abuf payload told : List UInt8)
      (asked : Asked s.fromClient abuf payload) (up : s.toRemote <+: payload)
      (taken : told <+: methodReply methodNoauth) (down : s.toClient <+: told ++ accepted ++ s.fromRemote)
  | proxied (route : s.route = some false) (abuf payload header : List UInt8) (ps : List (List UInt8))
      (wire input told out : List UInt8) (e : E) (d : D) (asked : Asked s.fromClient abuf payload)
      (isHeader : Header cfg abuf payload header) (encrypted : Encrypted C e₀ (header :: ps) wire e)
      (plain : ps.flatten <+: payload) (up : s.toRemote <+: wire) (read : input <+: s.fromRemote)
      (deciphered : Deciphered C d₀ input out d) (taken : told <+: methodReply methodNoauth)
      (down : s.toClient <+: told ++ accepted ++ out)

/-- Nothing is watched any more. -/
structure Closed (s : Conn G E D) : Prop where
  closed : s.closed = true
  recvOn : s.recvOn = false
  sendOn : s.sendOn = false
  delayedOn : s.delayedOn = false
  remote : s.remote = none

/-- The connection is closed, and what has gone through is as it should be if it was so before. -/
structure Ends (s s' : Conn G E D) : Prop where
  closed : Closed s'
  sound : Sound C cfg e₀ d₀ s → Sound C cfg e₀ d₀ s'

/-- A callback keeps what holds, or closes the connection. -/
def Moves (s s' : Conn G E D) : Prop := Phase C cfg e₀ d₀ s' ∨ Ends C cfg e₀ d₀ s s'

end

variable {C : Streams G E D} {cfg : Config} {e₀ : E} {d₀ : D}

theorem Sound.upTo {s t : Conn G E D} (h : Sound C cfg e₀ d₀ s) (hroute : t.route = s.route)
    (htoRemote : t.toRemote = s.toRemote) (hfrom : t.fromRemote = s.fromRemote)
    (hto : t.toClient = s.toClient) (bytes : List UInt8)
    (hclient : t.fromClient = s.fromClient ++ bytes) : Sound C cfg e₀ d₀ t := by
  cases h with
  | unrouted route silent told =>
    refine .unrouted (hroute.trans route) ⟨htoRemote.trans silent.1, hfrom.trans silent.2⟩ ?_
    rw [hclient, hto]
    exact told.append bytes
  | direct route abuf payload told asked up taken down =>
    refine .direct (hroute.trans route) abuf (payload ++ bytes) told ?_ ?_ taken ?_
    · rw [hclient]
      exact asked.append bytes
    · rw [htoRemote]
      exact up.trans (List.prefix_append _ _)
    · rw [hto, hfrom]
      exact down
  | proxied route abuf payload header ps wire input told out e d asked isHeader encrypted plain up read
      deciphered taken down =>
    refine .proxied (hroute.trans route) abuf (payload ++ bytes) header ps wire input told out e d ?_
      (isHeader.mono (List.prefix_append _ _)) encrypted (plain.trans (List.prefix_append _ _)) ?_ ?_
      deciphered taken ?_
    · rw [hclient]
      exact asked.append bytes
    · rw [htoRemote]
      exact up
    · rw [hfrom]
      exact read
    · rw [hto]
      exact down

theorem Sound.same {s t : Conn G E D} (h : Sound C cfg e₀ d₀ s) (hroute : t.route = s.route)
    (htoRemote : t.toRemote = s.toRemote) (hfrom : t.fromRemote = s.fromRemote)
    (hto : t.toClient = s.toClient) (hclient : t.fromClient = s.fromClient) : Sound C cfg e₀ d₀ t :=
  h.upTo hroute htoRemote hfrom hto [] (hclient.trans (List.append_nil _).symm)

theorem closed_close (s : Conn G E D) : Closed s.close := ⟨rfl, rfl, rfl, rfl, rfl⟩

theorem ends_close (s : Conn G E D) : Ends C cfg e₀ d₀ s s.close :=
  ⟨closed_close s, fun h => h.same rfl rfl rfl rfl rfl⟩

/-- What a callback did before may be put in front. -/
theorem Moves.from {s t s' : Conn G E D} (h : Moves C cfg e₀ d₀ t s')
    (hsound : Sound C cfg e₀ d₀ s → Sound C cfg e₀ d₀ t) : Moves C cfg e₀ d₀ s s' :=
  h.imp id fun h => ⟨h.closed, fun hs => h.sound (hsound hs)⟩

/-- A callback that tells the client something before there is a remote, and closes the connection. -/
theorem Idle.ends {s : Conn G E D} (idle : Idle e₀ d₀ s) {abuf : Option (List UInt8)}
    {bytes : List UInt8} (told : Told s.fromClient (s.toClient ++ bytes)) :
    Ends C cfg e₀ d₀ s ({ s with abuf := abuf }.tell bytes).close :=
  ⟨closed_close _, fun _ => .unrouted idle.route ⟨idle.toRemote, idle.fromRemote⟩ told⟩

theorem Idle.update {s : Conn G E D} (h : Idle e₀ d₀ s) {buf : List UInt8}
    (hbuf : buf.length ≤ socketBufSize) {shared : G} {stage : Stage} {abuf : Option (List UInt8)}
    {delayedOn : Bool} {fromClient toClient : List UInt8} :
    Idle e₀ d₀
      { s with
        shared := shared
        stage := stage
        buf := buf
        abuf := abuf
        delayedOn := delayedOn
        fromClient := fromClient
        toClient := toClient } :=
  ⟨h.remote, h.recvOn, h.sendOn, h.opened, h.route, h.eCtx, h.dCtx, h.toRemote, h.fromRemote, h.tx, h.rx,
    hbuf⟩

/-! ### server_stream -/

theorem Flushing.sent {s : Conn G E D} {r : Remote} {abuf payload : List UInt8}
    (h : Flushing C cfg e₀ s r abuf payload) (n : Nat) (r' : Remote) (hdirect : r'.direct = r.direct)
    (hbuf : r'.buf = r.buf.drop n) {recvOn : Bool} {remote : Option Remote} :
    Flushing C cfg e₀ { s with toRemote := s.toRemote ++ r.buf.take n, recvOn := recvOn, remote := remote }
      r' abuf payload := by
  cases h with
  | direct hd hb =>
    refine .direct (hdirect.trans hd) ?_
    rw [hbuf, List.append_assoc, List.take_append_drop, hb]
  | proxied hd header ps hheader hno henc hplain htx =>
    refine .proxied (hdirect.trans hd) header ps hheader hno ?_ hplain htx
    rw [hbuf, List.append_assoc, List.take_append_drop]
    exact henc

theorem Flushing.congr {s s' : Conn G E D} {r r' : Remote} {abuf payload : List UInt8}
    (h : Flushing C cfg e₀ s r abuf payload) (htoRemote : s'.toRemote = s.toRemote)
    (habuf : s'.abuf = s.abuf) (heCtx : s'.eCtx = s.eCtx) (htx : s'.tx = s.tx)
    (hdirect : r'.direct = r.direct) (hbuf : r'.buf = r.buf) :
    Flushing C cfg e₀ s' r' abuf payload := by
  cases h with
  | direct hd hb =>
    refine .direct (hdirect.trans hd) ?_
    rw [htoRemote, hbuf]
    exact hb
  | proxied hd header ps hheader hno henc hplain htx' =>
    refine .proxied (hdirect.trans hd) header ps hheader (habuf.trans hno) ?_ hplain (htx.trans htx')
    rw [htoRemote, hbuf, heCtx]
    exact henc

theorem Ready.congr {s s' : Conn G E D} {r r' : Remote} {abuf payload : List UInt8}
    (h : Ready C cfg e₀ s r abuf payload) (htoRemote : s'.toRemote = s.toRemote)
    (habuf : s'.abuf = s.abuf) (heCtx : s'.eCtx = s.eCtx) (htx : s'.tx = s.tx)
    (hdirect : r'.direct = r.direct) (hbuf : r'.buf = r.buf) : Ready C cfg e₀ s' r' abuf payload := by
  cases h with
  | direct hd hb =>
    refine .direct (hdirect.trans hd) ?_
    rw [htoRemote, hbuf]
    exact hb
  | proxied hd header ps hheader henc hplain htx' =>
    refine .proxied (hdirect.trans hd) header ps hheader ?_ ?_ (htx.trans htx')
    · rw [htoRemote, habuf, heCtx]
      exact henc
    · rw [hbuf]
      exact hplain

/-- What stays as it is when only the way from the remote changes. -/
theorem Upward.congr {s s' : Conn G E D} {r r' : Remote} {abuf payload : List UInt8}
    (h : Upward C cfg e₀ s r abuf payload) (hrecvOn : s'.recvOn = s.recvOn)
    (hdelayed : s'.delayedOn = s.delayedOn ∨ s'.delayedOn = false) (htoRemote : s'.toRemote = s.toRemote)
    (habuf : s'.abuf = s.abuf) (heCtx : s'.eCtx = s.eCtx) (htx : s'.tx = s.tx)
    (hsendOn : r'.sendOn = r.sendOn) (hdirect : r'.direct = r.direct) (hbuf : r'.buf = r.buf) :
    Upward C cfg e₀ s' r' abuf payload := by
  obtain ⟨hrecv, hsend, hnil, hready⟩ | ⟨hrecv, hoff, hsend, hflush⟩ := h
  · exact .inl ⟨hrecvOn.trans hrecv, hsendOn.trans hsend, hbuf.trans hnil,
      hready.congr htoRemote habuf heCtx htx hdirect hbuf⟩
  · exact .inr ⟨hrecvOn.trans hrecv, hdelayed.elim (·.trans hoff) id, hsendOn.trans hsend,
      hflush.congr htoRemote habuf heCtx htx hdirect hbuf⟩

/-- With nothing left to send the client can be read again. -/
theorem Flushing.ready {s : Conn G E D} {r : Remote} {abuf payload : List UInt8}
    (h : Flushing C cfg e₀ s r abuf payload) (hbuf : r.buf = []) : Ready C cfg e₀ s r abuf payload := by
  cases h with
  | direct hd hb => exact .direct hd hb
  | proxied hd header ps hheader hno henc hplain htx =>
    refine .proxied hd header ps hheader ?_ (by rw [hbuf, List.append_nil]; exact hplain) htx
    rw [hno, Option.getD_none]
    rwa [hbuf] at henc

/-- What stays as it is when only the way to the remote changes. -/
theorem Streaming.upTo {s s' : Conn G E D} {r r' : Remote} {abuf payload : List UInt8}
    (h : Streaming C d₀ s r abuf payload) (hstage : s'.stage = s.stage) (hclosed : s'.closed = s.closed)
    (hremote : s'.remote = some r') (hroute : s'.route = s.route) (hclient : s'.fromClient = s.fromClient)
    (hsendOn : s'.sendOn = s.sendOn) (hfrom : s'.fromRemote = s.fromRemote) (hto : s'.toClient = s.toClient)
    (hbuf : s'.buf = s.buf) (hd : s'.dCtx = s.dCtx) (hrx : s'.rx = s.rx) (hdirect : r'.direct = r.direct)
    (hconnected : r'.connected = r.connected) (hrecvOn : r'.recvOn = r.recvOn) :
    Streaming C d₀ s' r' abuf payload where
  stage := hstage.trans h.stage
  opened := hclosed.trans h.opened
  remote := hremote
  route := by rw [hroute, hdirect]; exact h.route
  asked := by rw [hclient]; exact h.asked
  watched := by rw [hconnected, hrecvOn, hsendOn, hfrom]; exact h.watched
  downward := by rw [hdirect, hto, hsendOn, hbuf, hfrom, hd, hrx]; exact h.downward

/-- The first attempt to send what is encrypted. -/
theorem flush_moves {s : Conn G E D} {r₀ r : Remote} {abuf payload : List UInt8}
    (hs : Streaming C d₀ s r₀ abuf payload) (hrecvOn : s.recvOn = true) (hdelayed : s.delayedOn = false)
    (hsendOn : r.sendOn = false) (hdirect : r.direct = r₀.direct)
    (hconnected : r.connected = r₀.connected) (hremote : r.recvOn = r₀.recvOn)
    (hflush : Flushing C cfg e₀ s r abuf payload) (a : Answers) :
    Moves C cfg e₀ d₀ s (if !r.connected then connectStream a s r else sendStream a s r) := by
  have hawait : ∀ r' : Remote, r'.direct = r.direct → r'.connected = r.connected →
      r'.recvOn = r.recvOn → r'.buf = r.buf → Phase C cfg e₀ d₀ (s.awaitRemote r') := by
    intro r' hd hc hr hb
    refine .stream { r' with sendOn := true } abuf payload ?_ (.inr ⟨rfl, hdelayed, rfl, ?_⟩)
    · exact hs.upTo rfl rfl rfl rfl rfl rfl rfl rfl rfl rfl rfl (hd.trans hdirect) (hc.trans hconnected)
        (hr.trans hremote)
    · exact hflush.congr rfl rfl rfl rfl hd hb
  have hsent : ∀ (n : Nat) (r' : Remote), r'.direct = r.direct → r'.connected = r.connected →
      r'.recvOn = r.recvOn → r'.buf = r.buf.drop n →
      Phase C cfg e₀ d₀ ({ s with toRemote := s.toRemote ++ r.buf.take n }.awaitRemote r') := by
    intro n r' hd hc hr hb
    refine .stream { r' with sendOn := true } abuf payload ?_ (.inr ⟨rfl, hdelayed, rfl, ?_⟩)
    · exact hs.upTo rfl rfl rfl rfl rfl rfl rfl rfl rfl rfl rfl (hd.trans hdirect) (hc.trans hconnected)
        (hr.trans hremote)
    · exact hflush.sent n { r' with sendOn := true } hd hb
  split
  · rw [connectStream]
    split
    · exact .inr (ends_close s)
    split
    · split
      · exact .inr (ends_close s)
      · exact .inl (hawait _ rfl rfl rfl rfl)
    · split
      · exact .inl (hawait _ rfl rfl rfl rfl)
      · exact .inr (ends_close s)
      · exact .inl (hsent _ _ rfl rfl rfl rfl)
  · rw [sendStream]
    split
    · exact .inl (hawait _ rfl rfl rfl rfl)
    · exact .inr (ends_close s)
    · rename_i n hn
      dsimp only
      split
      · exact .inl (hsent _ _ rfl rfl rfl rfl)
      · rename_i hall
        have hflush' : Flushing C cfg e₀
            { s with
              toRemote := s.toRemote ++ r.buf.take n
              recvOn := true
              remote := some { r with buf := [] } } { r with buf := [] } abuf payload :=
          hflush.sent n { r with buf := [] } rfl
            (List.drop_of_length_le (Nat.le_of_not_lt hall)).symm
        rw [← hrecvOn] at hflush'
        refine .inl (.stream { r with buf := [] } abuf payload ?_
          (.inl ⟨hrecvOn, hsendOn, rfl, hflush'.ready rfl⟩))
        exact hs.upTo rfl rfl rfl rfl rfl rfl rfl rfl rfl rfl rfl hdirect hconnected hremote

/-- There are bytes to be encrypted, or the connection to be made. -/
structure Starts (C : Streams G E D) (cfg : Config) (e₀ : E) (d₀ : D) (s : Conn G E D) (r : Remote)
    (abuf payload : List UInt8) : Prop where
  streaming : Streaming C d₀ s r abuf payload
  recvOn : s.recvOn = true
  delayedOn : s.delayedOn = false
  sendOn : r.sendOn = false
  ready : Ready C cfg e₀ s r abuf payload
  short : r.buf.length ≤ socketBufSize

theorem serverStream_moves {s : Conn G E D} {r : Remote} {abuf payload : List UInt8}
    (h : Starts C cfg e₀ d₀ s r abuf payload) (a : Answers) :
    Moves C cfg e₀ d₀ s (serverStream C a s) := by
  obtain ⟨hs, hrecvOn, hdelayed, hsendOn, hready, hshort⟩ := h
  rw [serverStream, hs.remote]
  dsimp only
  cases hready with
  | direct hd hb =>
    rw [encryptStream, if_pos hd]
    exact flush_moves hs hrecvOn hdelayed hsendOn rfl rfl rfl (.direct hd hb) a
  | proxied hd header ps hheader henc hplain htx =>
    rw [encryptStream, if_neg (by rw [hd]; decide)]
    cases hc : C.encrypt s.shared s.eCtx r.buf with
    | none => exact .inr (ends_close s)
    | some x =>
      obtain ⟨c, shared, eCtx⟩ := x
      dsimp only [Option.map_some]
      have hs' : Streaming C d₀
          { s with shared := shared, eCtx := eCtx, abuf := none, tx := s.tx + r.buf.length } r abuf
          payload :=
        hs.upTo rfl rfl hs.remote rfl rfl rfl rfl rfl rfl rfl rfl rfl rfl rfl
      have hflush : Flushing C cfg e₀
          { s with shared := shared, eCtx := eCtx, abuf := none, tx := s.tx + r.buf.length }
          { r with buf := s.abuf.getD [] ++ c } abuf payload := by
        refine .proxied hd header (ps ++ [r.buf]) hheader rfl ?_ ?_ ?_
        · have h := Encrypted.snoc henc hshort hc
          rw [List.append_assoc] at h
          exact h
        · rw [List.flatten_append, List.flatten_singleton, hplain]
        · rw [List.flatten_append, List.length_append, List.flatten_singleton, ← htx]
      have hmove := flush_moves (r := { r with buf := s.abuf.getD [] ++ c }) hs' hrecvOn hdelayed
        hsendOn rfl rfl rfl hflush a
      exact hmove.from fun h => h.same rfl rfl rfl rfl rfl

/-! ### What has gone through -/

theorem Downward.down {direct : Bool} {toClient pending fromRemote : List UInt8} {d : D} {rx : Nat}
    (h : Downward C d₀ direct toClient pending fromRemote d rx) : ∃ told out,
      told <+: methodReply methodNoauth ∧ toClient <+: told ++ accepted ++ out ∧
      (direct = true → out = fromRemote) ∧ (direct = false → Deciphered C d₀ fromRemote out d) := by
  obtain ⟨told, out, htaken, hout, hdirect, hproxied⟩ := h
  exact ⟨told, out, htaken, ⟨_, hout⟩, hdirect, fun hd => (hproxied hd).1⟩

theorem Ready.sound {s : Conn G E D} {r : Remote} {abuf payload : List UInt8}
    (h : Ready C cfg e₀ s r abuf payload) (hs : Streaming C d₀ s r abuf payload) :
    Sound C cfg e₀ d₀ s := by
  obtain ⟨told, out, htaken, hdown, hdirect, hproxied⟩ := hs.downward.down
  cases h with
  | direct hd hb =>
    rw [hdirect hd] at hdown
    exact .direct (hd ▸ hs.route) abuf payload told hs.asked ⟨r.buf, hb⟩ htaken hdown
  | proxied hd header ps hheader henc hplain htx =>
    exact .proxied (hd ▸ hs.route) abuf payload header ps _ _ told out _ _ hs.asked hheader henc
      ⟨r.buf, hplain⟩ (List.prefix_append _ _) (List.prefix_refl _) (hproxied hd) htaken hdown

theorem Flushing.sound {s : Conn G E D} {r : Remote} {abuf payload : List UInt8}
    (h : Flushing C cfg e₀ s r abuf payload) (hs : Streaming C d₀ s r abuf payload) :
    Sound C cfg e₀ d₀ s := by
  obtain ⟨told, out, htaken, hdown, hdirect, hproxied⟩ := hs.downward.down
  cases h with
  | direct hd hb =>
    rw [hdirect hd] at hdown
    exact .direct (hd ▸ hs.route) abuf payload told hs.asked ⟨r.buf, hb⟩ htaken hdown
  | proxied hd header ps hheader hno henc hplain htx =>
    exact .proxied (hd ▸ hs.route) abuf payload header ps _ _ told out _ _ hs.asked hheader henc
      (hplain ▸ List.prefix_refl _) (List.prefix_append _ _) (List.prefix_refl _) (hproxied hd) htaken
      hdown

/-- More from the remote leaves it so, even where it is not read yet. -/
theorem Sound.read {s : Conn G E D} (h : Sound C cfg e₀ d₀ s) {r : Remote} {abuf payload : List UInt8}
    (hs : Streaming C d₀ s r abuf payload) (bytes : List UInt8) :
    Sound C cfg e₀ d₀ { s with fromRemote := s.fromRemote ++ bytes } := by
  cases h with
  | unrouted route => exact absurd (route.symm.trans hs.route) nofun
  | direct route abuf payload told asked up taken down =>
    refine .direct route abuf payload told asked up taken ?_
    show s.toClient <+: told ++ accepted ++ (s.fromRemote ++ bytes)
    rw [← List.append_assoc]
    exact down.trans (List.prefix_append _ _)
  | proxied route abuf payload header ps wire input told out e d asked isHeader encrypted plain up read
      deciphered taken down =>
    exact .proxied route abuf payload header ps wire input told out e d asked isHeader encrypted plain up
      (read.trans (List.prefix_append _ _)) deciphered taken down

theorem Streaming.sound {s : Conn G E D} {r : Remote} {abuf payload : List UInt8}
    (hs : Streaming C d₀ s r abuf payload) (hup : Upward C cfg e₀ s r abuf payload) :
    Sound C cfg e₀ d₀ s := by
  obtain ⟨-, -, -, hready⟩ | ⟨-, -, -, hflush⟩ := hup
  · exact hready.sound hs
  · exact hflush.sound hs

/-- A request of another kind has not been answered. -/
theorem untold {told toClient : List UInt8} {sockAddrs : List (List UInt8)} {request : Request}
    (hto : toClient = told ++ associated sockAddrs)
    (hudp : sockAddrs ≠ [] → request = .udpAssociate) (hrequest : request ≠ .udpAssociate) :
    toClient = told := by
  have hnil : sockAddrs = [] := by_contra fun h => hrequest (hudp h)
  rw [hto, hnil]
  exact List.append_nil told

theorem Handshaking.untold {s : Conn G E D} {told : List UInt8} (h : Handshaking s told)
    (hudp : parseRequest s.buf ≠ .udpAssociate) (hconnect : ∀ abuf, parseRequest s.buf ≠ .connect abuf) :
    s.toClient = told := by
  cases h with
  | handshake stage sockAddrs toClient request => exact Local.untold toClient request hudp
  | sni stage abuf request => exact absurd request (hconnect abuf)

theorem Handshaking.congr {s s' : Conn G E D} {told : List UInt8} (h : Handshaking s told)
    (hstage : s'.stage = s.stage) (hbuf : s'.buf = s.buf) (hto : s'.toClient = s.toClient) :
    Handshaking s' told := by
  cases h with
  | handshake stage sockAddrs toClient request =>
    exact .handshake (hstage.trans stage) sockAddrs (hto.trans toClient) (by rwa [hbuf])
  | sni stage abuf request toClient =>
    exact .sni (hstage.trans stage) abuf (by rwa [hbuf]) (hto.trans toClient)

theorem Handshaking.append {s : Conn G E D} {told : List UInt8} (h : Handshaking s told)
    (bytes : List UInt8) {delayedOn : Bool} {fromClient : List UInt8} :
    Handshaking { s with buf := s.buf ++ bytes, delayedOn := delayedOn, fromClient := fromClient }
      told := by
  cases h with
  | handshake stage sockAddrs toClient request =>
    refine .handshake stage sockAddrs toClient fun hnil => ?_
    have hudp := request hnil
    show parseRequest (s.buf ++ bytes) = .udpAssociate
    rw [parseRequest_append (by simp [hudp]) (by simp [hudp]), hudp]
  | sni stage abuf request toClient =>
    exact .sni stage abuf (parseRequest_connect_append request bytes) toClient

theorem Handshaking.answer {s : Conn G E D} {told : List UInt8} (h : Handshaking s told) :
    ∃ out, Answer (parseRequest s.buf) out ∧ s.toClient = told ++ out := by
  cases h with
  | handshake stage sockAddrs toClient request =>
    by_cases hnil : sockAddrs = []
    · subst hnil
      exact ⟨[], .nothing _, toClient⟩
    · refine ⟨associated sockAddrs ++ [], ?_, by rw [List.append_nil]; exact toClient⟩
      rw [request hnil]
      exact .udpAssociate sockAddrs (.inl List.nil_prefix)
  | sni stage abuf request toClient =>
    rw [request]
    exact ⟨accepted, .connect abuf (List.prefix_refl _), toClient⟩

theorem Phase.sound {s : Conn G E D} (h : Phase C cfg e₀ d₀ s) : Sound C cfg e₀ d₀ s := by
  cases h with
  | init _ idle _ toClient =>
    exact .unrouted idle.route ⟨idle.toRemote, idle.fromRemote⟩ (.nothing toClient)
  | request idle greeting told greets fromClient taken handshaking =>
    obtain ⟨out, hanswer, hout⟩ := handshaking.answer
    exact .unrouted idle.route ⟨idle.toRemote, idle.fromRemote⟩
      (.greeted greeting s.buf told out greets fromClient taken hanswer hout)
  | stream r abuf payload hs hup => exact hs.sound hup

/-! ### server_handshake -/

/-- One round of the loop is followed by `server_stream`, or ends the callback. -/
inductive Rounds (C : Streams G E D) (cfg : Config) (e₀ : E) (d₀ : D) (s : Conn G E D) :
    Bool × Conn G E D → Prop where
  | on {s' : Conn G E D} {r : Remote} {abuf payload : List UInt8}
      (starts : Starts C cfg e₀ d₀ s' r abuf payload) : Rounds C cfg e₀ d₀ s (true, s')
  | done {s' : Conn G E D} (moves : Moves C cfg e₀ d₀ s s') : Rounds C cfg e₀ d₀ s (false, s')

theorem Rounds.from {s t : Conn G E D} {x : Bool × Conn G E D} (h : Rounds C cfg e₀ d₀ t x)
    (hsound : Sound C cfg e₀ d₀ s → Sound C cfg e₀ d₀ t) : Rounds C cfg e₀ d₀ s x := by
  cases h with
  | on hstarts => exact .on hstarts
  | done hmoves => exact .done (hmoves.from hsound)

theorem attachRemote_rounds {s : Conn G E D} {abuf told : List UInt8} (hstage : s.stage = .stream)
    (idle : Idle e₀ d₀ s) (hdelayed : s.delayedOn = false) (hasked : Asked s.fromClient abuf s.buf)
    (htaken : told <+: methodReply methodNoauth) (hto : s.toClient = told ++ accepted)
    (direct sniffedHost : Bool) (c : List UInt8) (shared : G) (eCtx : E)
    (hready : ∀ delayed, Ready C cfg e₀
      { s with
        route := some direct
        shared := shared
        eCtx := eCtx
        abuf := some c
        remote := some ⟨direct, s.buf, false, false, false, false⟩
        delayedOn := delayed } ⟨direct, s.buf, false, false, false, false⟩ abuf s.buf) :
    Rounds C cfg e₀ d₀ s
      (attachRemote direct sniffedHost c shared eCtx { s with route := some direct }) := by
  have hs : ∀ delayed, Streaming C d₀
      { s with
        route := some direct
        shared := shared
        eCtx := eCtx
        abuf := some c
        remote := some ⟨direct, s.buf, false, false, false, false⟩
        delayedOn := delayed } ⟨direct, s.buf, false, false, false, false⟩ abuf s.buf := by
    intro delayed
    refine ⟨hstage, idle.opened, rfl, rfl, hasked, ⟨rfl, idle.sendOn, idle.fromRemote⟩, told, [], htaken,
      ?_, ?_, ?_⟩
    · show s.toClient ++ pending s.sendOn s.buf = told ++ accepted ++ []
      rw [hto, idle.sendOn]
      rfl
    · exact fun _ => idle.fromRemote.symm
    · refine fun _ => ⟨?_, ?_⟩
      · show Deciphered C d₀ s.fromRemote [] s.dCtx
        rw [idle.fromRemote, idle.dCtx]
        exact .nil
      · show s.rx = s.fromRemote.length
        rw [idle.rx, idle.fromRemote]
        rfl
  rw [attachRemote]
  split
  · exact .on ⟨hs s.delayedOn, idle.recvOn, hdelayed, rfl, hready s.delayedOn, idle.short⟩
  · rename_i hempty
    have hbuf : s.buf = [] := by
      by_contra h
      exact hempty (.inl h)
    exact .done (.inl (.stream _ abuf s.buf (hs true) (.inl ⟨idle.recvOn, rfl, hbuf, hready true⟩)))

theorem connectRemote_rounds {s : Conn G E D} {abuf told : List UInt8} (hstage : s.stage = .stream)
    (idle : Idle e₀ d₀ s) (hdelayed : s.delayedOn = false) (hasked : Asked s.fromClient abuf s.buf)
    (htaken : told <+: methodReply methodNoauth) (hto : s.toClient = told ++ accepted) (a : Answers) :
    Rounds C cfg e₀ d₀ s (connectRemote C cfg a abuf (sniff cfg abuf s.buf) s) := by
  rw [connectRemote]
  cases a.route with
  | none => exact .done (.inr (ends_close s))
  | some direct =>
    have hheader := header_remoteAddress cfg direct abuf s.buf
    dsimp only
    cases hc : encryptAddress C direct (remoteAddress cfg direct abuf (sniff cfg abuf s.buf)) s with
    | none => exact .done (.inr (ends_close s))
    | some x =>
      obtain ⟨c, shared, eCtx⟩ := x
      refine attachRemote_rounds hstage idle hdelayed hasked htaken hto direct _ c shared eCtx
        fun delayed => ?_
      cases direct with
      | true =>
        refine .direct rfl ?_
        show s.toRemote ++ s.buf = s.buf
        rw [idle.toRemote, List.nil_append]
      | false =>
        refine .proxied rfl _ [] hheader ?_ rfl idle.tx
        show Encrypted C e₀ [_] (s.toRemote ++ c) eCtx
        rw [idle.toRemote, ← idle.eCtx]
        exact .snoc .nil (hheader.length_le hasked.1) hc

/-- The reply to a `CONNECT`: it goes out whole or was sent before, or the connection is closed. -/
theorem serverHandshakeReply_connect {s : Conn G E D} {told abuf : List UInt8}
    (h : Handshaking s told) (hrequest : parseRequest s.buf = .connect abuf) (a : Answers) :
    (∃ out, out <+: accepted ∧ s.toClient = told ∧
        serverHandshakeReply a false s = (false, (s.tell out).close)) ∨
      serverHandshakeReply a false s = (true, { s with toClient := told ++ accepted }) := by
  rw [serverHandshakeReply]
  cases h with
  | handshake stage sockAddrs toClient request =>
    have hto : s.toClient = told := untold toClient request (by simp [hrequest])
    rw [if_neg (fun h => h stage), if_neg Bool.false_ne_true]
    dsimp only
    split
    · exact .inl ⟨_, List.take_prefix _ _, hto, rfl⟩
    · rename_i hall
      refine .inr ?_
      rw [Conn.tell, List.take_of_length_le (Nat.le_of_not_lt hall), hto]
      rfl
  | sni stage abuf request toClient =>
    rw [if_pos (by rw [stage]; decide), ← toClient]
    exact .inr rfl

/-- What comes after the reply to a `CONNECT`. -/
theorem afterReply_rounds {s : Conn G E D} {greeting told abuf : List UInt8} (idle : Idle e₀ d₀ s)
    (hdelayed : s.delayedOn = false) (hgreeting : Greeting greeting)
    (hclient : s.fromClient = greeting ++ s.buf) (hrequest : parseRequest s.buf = .connect abuf)
    (htaken : told <+: methodReply methodNoauth) (hto : s.toClient = told ++ accepted) (sni : Prop)
    [Decidable sni] (a : Answers) :
    Rounds C cfg e₀ d₀ s
      (if sniff cfg abuf (s.buf.drop (3 + abuf.length)) = .incomplete ∧ sni then
        (false, { s with stage := .sni, delayedOn := true })
      else connectRemote C cfg a abuf (sniff cfg abuf (s.buf.drop (3 + abuf.length)))
        { s with stage := .stream, buf := s.buf.drop (3 + abuf.length) }) := by
  split
  · exact .done (.inl (.request (idle.update idle.short) greeting told hgreeting hclient htaken
      (.sni rfl abuf hrequest hto)))
  · have hasked : Asked s.fromClient abuf (s.buf.drop (3 + abuf.length)) := by
      obtain ⟨haddr, v, r, payload, hbuf⟩ := parseRequest_connect_iff.mp hrequest
      refine ⟨haddr, greeting, v, r, hgreeting, ?_⟩
      rw [hclient, hbuf, drop_request]
    have hshort : (s.buf.drop (3 + abuf.length)).length ≤ socketBufSize := by
      rw [List.length_drop]
      exact le_trans (Nat.sub_le _ _) idle.short
    have idle' : Idle e₀ d₀ { s with stage := .stream, buf := s.buf.drop (3 + abuf.length) } :=
      idle.update hshort
    exact (connectRemote_rounds rfl idle' hdelayed hasked htaken hto a).from
      fun h => h.same rfl rfl rfl rfl rfl

/-- The reply to a `UDP ASSOCIATE`. -/
theorem serverHandshakeReply_udp {s : Conn G E D} {told : List UInt8} (h : Handshaking s told)
    (hrequest : parseRequest s.buf = .udpAssociate) (a : Answers) :
    ∃ sockAddrs, s.stage = .handshake ∧ s.toClient = told ++ associated sockAddrs ∧
      ((∃ out, (out <+: reply repConnRefused ∨ ∃ sockAddr, out <+: reply repSucceeded ++ sockAddr) ∧
          serverHandshakeReply a true s = (false, (s.tell out).close)) ∨
        ∃ sockAddr, serverHandshakeReply a true s = (false, s.tell (reply repSucceeded ++ sockAddr))) := by
  cases h with
  | sni stage abuf request => exact absurd (hrequest.symm.trans request) nofun
  | handshake stage sockAddrs toClient request =>
    refine ⟨sockAddrs, stage, toClient, ?_⟩
    rw [serverHandshakeReply, if_neg (fun h => h stage), if_pos rfl]
    cases a.sockName with
    | none => exact .inl ⟨_, .inl (List.take_prefix _ _), rfl⟩
    | some sockAddr =>
      dsimp only
      split
      · exact .inl ⟨_, .inr ⟨sockAddr, List.take_prefix _ _⟩, rfl⟩
      · rename_i hall
        refine .inr ⟨sockAddr, ?_⟩
        rw [List.take_of_length_le (Nat.le_of_not_lt hall)]
        rfl

/-- **What `server_handshake` does.** -/
theorem serverHandshake_rounds {s : Conn G E D} {greeting told : List UInt8} (idle : Idle e₀ d₀ s)
    (hdelayed : s.delayedOn = false) (hgreeting : Greeting greeting)
    (hclient : s.fromClient = greeting ++ s.buf) (htaken : told <+: methodReply methodNoauth)
    (h : Handshaking s told) (a : Answers) :
    Rounds C cfg e₀ d₀ s (serverHandshake C cfg a s) := by
  have htold : ∀ {out bytes : List UInt8}, Answer (parseRequest s.buf) (out ++ bytes) →
      s.toClient = told ++ out → Told s.fromClient (s.toClient ++ bytes) := by
    intro out bytes hanswer hto
    refine .greeted greeting s.buf told (out ++ bytes) hgreeting hclient htaken hanswer ?_
    rw [hto, List.append_assoc]
  have hfirst : ∀ {bytes : List UInt8}, s.toClient = told → Answer (parseRequest s.buf) bytes →
      Told s.fromClient (s.toClient ++ bytes) := by
    intro bytes hto hanswer
    rw [hto]
    exact .greeted greeting s.buf told bytes hgreeting hclient htaken hanswer rfl
  have hstay : ∀ abuf, Phase C cfg e₀ d₀ { s with abuf := abuf } := fun abuf =>
    .request (idle.update idle.short) greeting told hgreeting hclient htaken (h.congr rfl rfl rfl)
  rw [serverHandshake]
  cases hrequest : parseRequest s.buf with
  | more => exact .done (.inl (hstay s.abuf))
  | moreAddress atyp => exact .done (.inl (hstay (some [atyp])))
  | badCommand =>
    have hto : s.toClient = told :=
      h.untold (by simp [hrequest]) (by simp [hrequest])
    refine .done (.inr (idle.ends (hfirst hto ?_)))
    rw [hrequest]
    exact .badCommand (List.take_prefix _ _)
  | badAddress atyp =>
    have hto : s.toClient = told :=
      h.untold (by simp [hrequest]) (by simp [hrequest])
    refine .done (.inr (idle.ends (hfirst hto ?_)))
    rw [hrequest]
    exact .badAddress atyp (List.take_prefix _ _)
  | udpAssociate =>
    obtain ⟨sockAddrs, hstage, hto, ⟨out, hout, hreply⟩ | ⟨sockAddr, hreply⟩⟩ :=
      serverHandshakeReply_udp h hrequest a
    · dsimp only
      rw [hreply]
      refine .done (.inr (idle.ends (htold ?_ hto)))
      rw [hrequest]
      exact .udpAssociate sockAddrs hout
    · dsimp only
      rw [hreply]
      refine .done (.inl (.request (idle.update idle.short) greeting told hgreeting hclient htaken
        (.handshake hstage (sockAddrs ++ [sockAddr]) ?_ fun _ => hrequest)))
      show s.toClient ++ (reply repSucceeded ++ sockAddr) = told ++ associated (sockAddrs ++ [sockAddr])
      rw [hto, associated_snoc, List.append_assoc]
  | connect abuf =>
    have h' : Handshaking { s with abuf := some abuf } told := h.congr rfl rfl rfl
    dsimp only
    obtain ⟨out, hout, hto, hreply⟩ | htrue := serverHandshakeReply_connect h' hrequest a
    · rw [hreply]
      refine .done (.inr (idle.ends (hfirst hto ?_)))
      rw [hrequest]
      exact .connect abuf hout
    · rw [htrue]
      have idle' : Idle e₀ d₀ { s with abuf := some abuf, toClient := told ++ accepted } :=
        idle.update idle.short
      refine (afterReply_rounds idle' hdelayed hgreeting hclient hrequest htaken rfl _ a).from fun _ => ?_
      refine .unrouted idle.route ⟨idle.toRemote, idle.fromRemote⟩ ?_
      refine .greeted greeting s.buf told accepted hgreeting hclient htaken ?_ rfl
      rw [hrequest]
      exact .connect abuf (List.prefix_refl _)

/-! ### server_recv_cb -/

theorem recvLoop_starts {s : Conn G E D} {r : Remote} {abuf payload : List UInt8}
    (h : Starts C cfg e₀ d₀ s r abuf payload) (a : Answers) (n : Nat) :
    Moves C cfg e₀ d₀ s (recvLoop C cfg a (n + 1) s) := by
  rw [recvLoop, h.streaming.stage]
  exact serverStream_moves h a

theorem rounds_moves {s : Conn G E D} {x : Bool × Conn G E D} (h : Rounds C cfg e₀ d₀ s x)
    (a : Answers) (n : Nat) :
    Moves C cfg e₀ d₀ s (if x.1 then recvLoop C cfg a (n + 1) x.2 else x.2) := by
  cases h with
  | on hstarts =>
    exact (recvLoop_starts hstarts a n).from fun _ => hstarts.ready.sound hstarts.streaming
  | done hmoves => exact hmoves

theorem recvLoop_request {s : Conn G E D} {greeting told : List UInt8} (idle : Idle e₀ d₀ s)
    (hdelayed : s.delayedOn = false) (hgreeting : Greeting greeting)
    (hclient : s.fromClient = greeting ++ s.buf) (htaken : told <+: methodReply methodNoauth)
    (h : Handshaking s told) (a : Answers) (n : Nat) :
    Moves C cfg e₀ d₀ s (recvLoop C cfg a (n + 2) s) := by
  have hrounds : Rounds C cfg e₀ d₀ s (serverHandshake C cfg a s) :=
    serverHandshake_rounds idle hdelayed hgreeting hclient htaken h a
  have hmoves := rounds_moves hrounds a n
  cases h with
  | handshake stage =>
    rw [recvLoop, stage]
    exact hmoves
  | sni stage =>
    rw [recvLoop, stage]
    exact hmoves

theorem recvLoop_init {s : Conn G E D} (hstage : s.stage = .init) (idle : Idle e₀ d₀ s)
    (hdelayed : s.delayedOn = false) (hclient : s.fromClient = s.buf) (hto : s.toClient = [])
    (a : Answers) (n : Nat) : Moves C cfg e₀ d₀ s (recvLoop C cfg a (n + 3) s) := by
  rw [recvLoop, hstage]
  dsimp only
  obtain h | h | ⟨nmethods, methods, rest, hbuf, hlen, hno, h⟩ | ⟨greeting, rest, hgreeting, hbuf, h⟩ :=
    selectMethod_cases a s
  · rw [h]
    exact .inl (.init hstage idle hclient hto)
  · rw [h]
    exact .inr (ends_close s)
  · rw [h]
    refine .inr (idle.ends (.unacceptable nmethods methods rest (hclient.trans hbuf) hlen hno ?_))
    rw [hto, List.nil_append]
    exact List.take_prefix _ _
  · rw [h]
    have hshort : rest.length ≤ socketBufSize := by
      have h := idle.short
      rw [hbuf, List.length_append] at h
      omega
    have idle' : Idle e₀ d₀
        { s.tell ((methodReply methodNoauth).take a.greeted) with stage := .handshake, buf := rest } :=
      idle.update hshort
    have htaken : (methodReply methodNoauth).take a.greeted <+: methodReply methodNoauth :=
      List.take_prefix _ _
    have hto' : s.toClient ++ (methodReply methodNoauth).take a.greeted =
        (methodReply methodNoauth).take a.greeted ++ [] := by
      rw [hto, List.nil_append, List.append_nil]
    have hclient' : s.fromClient = greeting ++ rest := hclient.trans hbuf
    dsimp only
    split
    · refine (recvLoop_request idle' hdelayed hgreeting hclient' htaken
        (.handshake rfl [] hto' fun h => absurd rfl h) a n).from fun _ => ?_
      exact .unrouted idle.route ⟨idle.toRemote, idle.fromRemote⟩
        (.greeted greeting rest _ [] hgreeting hclient' htaken (.nothing _) hto')
    · exact .inl (.request idle' greeting _ hgreeting hclient' htaken
        (.handshake rfl [] hto' fun h => absurd rfl h))

theorem received_none {s : Conn G E D} (h : s.remote = none) (bytes : List UInt8) :
    s.received bytes =
      { s with
        buf := s.buf ++ bytes
        delayedOn := false
        fromClient := s.fromClient ++ bytes } := by
  cases s
  dsimp only at h
  subst h
  rfl

theorem received_some {s : Conn G E D} {r : Remote} (h : s.remote = some r) (bytes : List UInt8) :
    s.received bytes =
      { s with
        remote := some { r with buf := r.buf ++ bytes }
        delayedOn := false
        fromClient := s.fromClient ++ bytes } := by
  cases s
  dsimp only at h
  subst h
  rfl

/-- **What `server_recv_cb` does with bytes, or the delayed start with none.** -/
theorem received_moves {s : Conn G E D} (h : Phase C cfg e₀ d₀ s) (hrecvOn : s.recvOn = true)
    (bytes : List UInt8) (hlen : s.recvBuf.length + bytes.length ≤ socketBufSize) (a : Answers) :
    Moves C cfg e₀ d₀ (s.received bytes) (recvLoop C cfg a 3 (s.received bytes)) := by
  cases h with
  | init hstage idle hclient hto =>
    rw [Conn.recvBuf, idle.remote] at hlen
    dsimp only at hlen
    rw [← List.length_append] at hlen
    rw [received_none idle.remote]
    have hclient' : s.fromClient ++ bytes = s.buf ++ bytes := congrArg (· ++ bytes) hclient
    exact recvLoop_init (s := { s with
      buf := s.buf ++ bytes
      delayedOn := false
      fromClient := s.fromClient ++ bytes }) hstage (idle.update hlen) rfl hclient' hto a 0
  | request idle greeting told hgreeting hclient htaken h =>
    rw [Conn.recvBuf, idle.remote] at hlen
    dsimp only at hlen
    rw [← List.length_append] at hlen
    rw [received_none idle.remote]
    refine recvLoop_request (idle.update hlen) rfl hgreeting ?_ htaken (h.append bytes) a 1
    show s.fromClient ++ bytes = greeting ++ (s.buf ++ bytes)
    rw [hclient, List.append_assoc]
  | stream r abuf payload hs hup =>
    obtain ⟨-, hsendOn, hnil, hready⟩ | ⟨hoff, -⟩ := hup
    · rw [Conn.recvBuf, hs.remote] at hlen
      dsimp only at hlen
      rw [hnil, List.length_nil, Nat.zero_add] at hlen
      rw [received_some hs.remote]
      have hstart : Starts C cfg e₀ d₀
          { s with
            remote := some { r with buf := r.buf ++ bytes }
            delayedOn := false
            fromClient := s.fromClient ++ bytes } { r with buf := r.buf ++ bytes } abuf
          (payload ++ bytes) := by
        refine ⟨?_, hrecvOn, rfl, hsendOn, ?_, ?_⟩
        · exact ⟨hs.stage, hs.opened, rfl, hs.route, hs.asked.append bytes, hs.watched, hs.downward⟩
        · cases hready with
          | direct hd hb =>
            refine .direct hd ?_
            show s.toRemote ++ (r.buf ++ bytes) = payload ++ bytes
            rw [← hb, List.append_assoc]
          | proxied hd header ps hheader henc hplain htx =>
            refine .proxied hd header ps (hheader.mono (List.prefix_append _ _)) henc ?_ htx
            show ps.flatten ++ (r.buf ++ bytes) = payload ++ bytes
            rw [← hplain, List.append_assoc]
        · show (r.buf ++ bytes).length ≤ socketBufSize
          rw [hnil, List.nil_append]
          exact hlen
      exact recvLoop_starts hstart a 2
    · rw [hrecvOn] at hoff
      cases hoff

theorem received_nil (s : Conn G E D) : s.received [] = { s with delayedOn := false } := by
  cases hremote : s.remote with
  | none => rw [received_none hremote, List.append_nil, List.append_nil, hremote]
  | some r => rw [received_some hremote, List.append_nil, List.append_nil, ← hremote]

/-! ### The way from the remote -/

theorem tellClient_moves {s : Conn G E D} {r : Remote} {abuf payload : List UInt8}
    (hstage : s.stage = .stream) (hclosed : s.closed = false) (hremote : s.remote = some r)
    (hroute : s.route = some r.direct) (hasked : Asked s.fromClient abuf payload)
    (hconnected : r.connected = true) (hrecvOn : r.recvOn = true) (hsendOn : s.sendOn = false)
    (hdown : Downward C d₀ r.direct s.toClient s.buf s.fromRemote s.dCtx s.rx)
    (hup : Upward C cfg e₀ s r abuf payload) (sent : Sent) :
    Moves C cfg e₀ d₀ s (tellClient sent s r) := by
  have hwait : ∀ recvOn sendOn, recvOn = !sendOn →
      Watched r.connected recvOn sendOn s.fromRemote := by
    intro recvOn sendOn h
    rw [Watched, if_pos hconnected]
    exact h
  cases sent with
  | again =>
    refine .inl (.stream { r with recvOn := false } abuf payload
      ⟨hstage, hclosed, rfl, hroute, hasked, hwait _ _ rfl, hdown⟩ ?_)
    exact hup.congr rfl (.inl rfl) rfl rfl rfl rfl rfl rfl rfl
  | failed => exact .inr (ends_close s)
  | bytes n =>
    obtain ⟨told, out, htaken, hout, hrest⟩ := hdown
    rw [tellClient]
    split
    · refine .inl (.stream { r with recvOn := false } abuf payload
        ⟨hstage, hclosed, rfl, hroute, hasked, hwait _ _ rfl, told, out, htaken, ?_, hrest⟩ ?_)
      · show s.toClient ++ s.buf.take n ++ s.buf.drop n = told ++ accepted ++ out
        rw [List.append_assoc, List.take_append_drop, hout]
      · exact hup.congr rfl (.inl rfl) rfl rfl rfl rfl rfl rfl rfl
    · rename_i hall
      have hwatched : r.recvOn = !s.sendOn := by
        rw [hrecvOn, hsendOn]
        rfl
      refine .inl (.stream r abuf payload
        ⟨hstage, hclosed, hremote, hroute, hasked, hwait _ _ hwatched, told, out, htaken, ?_, hrest⟩ ?_)
      · show s.toClient ++ s.buf.take n ++ pending s.sendOn s.buf = told ++ accepted ++ out
        rw [hsendOn, pending, if_neg Bool.false_ne_true, List.append_nil,
          List.take_of_length_le (Nat.le_of_not_lt hall), hout]
      · exact hup.congr rfl (.inl rfl) rfl rfl rfl rfl rfl rfl rfl

/-- **What `remote_recv_cb` does with bytes.** -/
theorem remoteRecv_moves {s : Conn G E D} {r : Remote} {abuf payload : List UInt8}
    (hs : Streaming C d₀ s r abuf payload) (hup : Upward C cfg e₀ s r abuf payload)
    (hrecvOn : r.recvOn = true) (bytes : List UInt8) (sent : Sent) :
    Moves C cfg e₀ d₀ { s with fromRemote := s.fromRemote ++ bytes } (remoteRecv C sent bytes s r) := by
  have hwatched := hs.watched
  rw [Watched] at hwatched
  split at hwatched
  · rename_i hconnected
    have hsendOn : s.sendOn = false := by
      rw [hrecvOn] at hwatched
      cases h : s.sendOn with
      | false => rfl
      | true =>
        rw [h] at hwatched
        cases hwatched
    obtain ⟨told, out, htaken, hout, hdirect, hproxied⟩ := hs.downward
    rw [hsendOn, pending, if_neg Bool.false_ne_true, List.append_nil] at hout
    rw [remoteRecv]
    dsimp only
    cases hd : r.direct with
    | true =>
      rw [if_pos rfl]
      have hdown : Downward C d₀ r.direct s.toClient bytes (s.fromRemote ++ bytes) s.dCtx s.rx := by
        refine ⟨told, out ++ bytes, htaken, ?_, fun _ => ?_, fun h => ?_⟩
        · rw [← List.append_assoc, hout]
        · rw [hdirect hd]
        · rw [hd] at h
          cases h
      have hmoves := tellClient_moves (s := { s with
        fromRemote := s.fromRemote ++ bytes
        buf := bytes }) hs.stage hs.opened hs.remote hs.route hs.asked hconnected hrecvOn hsendOn hdown
        (hup.congr rfl (.inl rfl) rfl rfl rfl rfl rfl rfl rfl) sent
      exact hmoves.from fun h => h.same rfl rfl rfl rfl rfl
    | false =>
      obtain ⟨hdeciphered, hrx⟩ := hproxied hd
      have hrx' : s.rx + bytes.length = (s.fromRemote ++ bytes).length := by
        rw [List.length_append, hrx]
      rw [if_neg Bool.false_ne_true]
      cases hc : C.decrypt s.shared s.dCtx bytes with
      | mk result rest =>
        cases result with
        | error => exact .inr ⟨closed_close _, fun h => h.same rfl rfl rfl rfl rfl⟩
        | needMore =>
          refine .inl (.stream r abuf payload ⟨hs.stage, hs.opened, hs.remote, hs.route, hs.asked, ?_, ?_⟩ ?_)
          · show Watched r.connected r.recvOn s.sendOn (s.fromRemote ++ bytes)
            rw [Watched, if_pos hconnected]
            exact hwatched
          · refine ⟨told, out, htaken, ?_, fun h => ?_, fun _ => ⟨.needMore hdeciphered hc, hrx'⟩⟩
            · show s.toClient ++ pending s.sendOn bytes = told ++ accepted ++ out
              rw [hsendOn, pending, if_neg Bool.false_ne_true, List.append_nil, hout]
            · rw [hd] at h
              cases h
          · exact hup.congr rfl (.inl rfl) rfl rfl rfl rfl rfl rfl rfl
        | ok plaintext =>
          have hdown : Downward C d₀ r.direct s.toClient plaintext (s.fromRemote ++ bytes) rest.2
              (s.rx + bytes.length) := by
            refine ⟨told, out ++ plaintext, htaken, ?_, fun h => ?_, fun _ => ⟨.ok hdeciphered hc, hrx'⟩⟩
            · rw [← List.append_assoc, hout]
            · rw [hd] at h
              cases h
          have hmoves := tellClient_moves (s := { s with
            fromRemote := s.fromRemote ++ bytes
            shared := rest.1
            dCtx := rest.2
            rx := s.rx + bytes.length
            buf := plaintext }) hs.stage hs.opened hs.remote hs.route hs.asked hconnected hrecvOn hsendOn
            hdown (hup.congr rfl (.inl rfl) rfl rfl rfl rfl rfl rfl rfl) sent
          exact hmoves.from fun h => h.same rfl rfl rfl rfl rfl
  · rw [hrecvOn] at hwatched
    cases hwatched.1

/-- **What `server_send_cb` does.** -/
theorem serverSend_moves {s : Conn G E D} (h : Phase C cfg e₀ d₀ s) (hsendOn : s.sendOn = true)
    (sent : Sent) : Moves C cfg e₀ d₀ s (serverSend sent s) := by
  have hbusy : ∀ {P : Prop}, Idle e₀ d₀ s → P := fun idle =>
    absurd (hsendOn.symm.trans idle.sendOn) Bool.true_eq_false.mp
  cases h with
  | init _ idle => exact hbusy idle
  | request idle => exact hbusy idle
  | stream r abuf payload hs hup =>
    have hwatched := hs.watched
    rw [Watched] at hwatched
    split at hwatched
    · rename_i hconnected
      obtain ⟨told, out, htaken, hout, hrest⟩ := hs.downward
      rw [hsendOn, pending, if_pos rfl] at hout
      unfold serverSend
      split
      · exact .inr (ends_close s)
      split
      · exact .inl (.stream r abuf payload hs hup)
      · exact .inr (ends_close s)
      · rename_i n
        dsimp only
        split
        · refine .inl (.stream r abuf payload
            ⟨hs.stage, hs.opened, hs.remote, hs.route, hs.asked, hs.watched, told, out, htaken, ?_, hrest⟩ ?_)
          · show s.toClient ++ s.buf.take n ++ pending s.sendOn (s.buf.drop n) = told ++ accepted ++ out
            rw [hsendOn, pending, if_pos rfl, List.append_assoc, List.take_append_drop, hout]
          · exact hup.congr rfl (.inl rfl) rfl rfl rfl rfl rfl rfl rfl
        · rename_i hall
          refine .inl (.stream { r with recvOn := true } abuf payload
            ⟨hs.stage, hs.opened, ?_, hs.route, hs.asked, ?_, told, out, htaken, ?_, hrest⟩ ?_)
          · show s.remote.map (fun r => { r with recvOn := true }) = some { r with recvOn := true }
            rw [hs.remote]
            rfl
          · show Watched r.connected true false s.fromRemote
            rw [Watched, if_pos hconnected]
            rfl
          · show s.toClient ++ s.buf.take n ++ pending false [] = told ++ accepted ++ out
            rw [pending, if_neg Bool.false_ne_true, List.append_nil,
              List.take_of_length_le (Nat.le_of_not_lt hall), hout]
          · exact hup.congr rfl (.inl rfl) rfl rfl rfl rfl rfl rfl rfl
    · rw [hsendOn] at hwatched
      cases hwatched.2.1

/-! ### remote_send_cb -/

theorem remoteFlush_moves {s : Conn G E D} {r : Remote} {abuf payload : List UInt8}
    (hs : Streaming C d₀ s r abuf payload) (hrecvOn : s.recvOn = false) (hdelayed : s.delayedOn = false)
    (hsendOn : r.sendOn = true) (hflush : Flushing C cfg e₀ s r abuf payload) (sent : Sent) :
    Moves C cfg e₀ d₀ s (remoteFlush sent s r) := by
  unfold remoteFlush
  split
  · exact .inr (ends_close s)
  split
  · exact .inl (.stream r abuf payload hs (.inr ⟨hrecvOn, hdelayed, hsendOn, hflush⟩))
  · exact .inr (ends_close s)
  · rename_i n
    dsimp only
    split
    · refine .inl (.stream { r with buf := r.buf.drop n } abuf payload ?_
        (.inr ⟨hrecvOn, hdelayed, hsendOn, hflush.sent n { r with buf := r.buf.drop n } rfl rfl⟩))
      exact hs.upTo rfl rfl rfl rfl rfl rfl rfl rfl rfl rfl rfl rfl rfl rfl
    · rename_i hall
      have hnil : [] = r.buf.drop n := (List.drop_of_length_le (Nat.le_of_not_lt hall)).symm
      have hflush' : Flushing C cfg e₀
          { s with
            toRemote := s.toRemote ++ r.buf.take n
            recvOn := true
            remote := some { r with buf := [], sendOn := false } } { r with buf := [], sendOn := false }
          abuf payload :=
        hflush.sent n { r with buf := [], sendOn := false } rfl hnil
      refine .inl (.stream { r with buf := [], sendOn := false } abuf payload ?_
        (.inl ⟨rfl, rfl, rfl, hflush'.ready rfl⟩))
      exact hs.upTo rfl rfl rfl rfl rfl rfl rfl rfl rfl rfl rfl rfl rfl rfl

/-- **What `remote_send_cb` does.** -/
theorem remoteSend_moves {s : Conn G E D} {r : Remote} {abuf payload : List UInt8}
    (hs : Streaming C d₀ s r abuf payload) (hup : Upward C cfg e₀ s r abuf payload)
    (hsendOn : r.sendOn = true) (peer : Bool) (sent : Sent) :
    Moves C cfg e₀ d₀ s (remoteSend peer sent s r) := by
  obtain ⟨-, hoff, -⟩ | ⟨hrecvOn, hdelayed, -, hflush⟩ := hup
  · rw [hsendOn] at hoff
    cases hoff
  rw [remoteSend]
  split
  · rename_i hnot
    split
    · exact .inr (ends_close s)
    have hwatched := hs.watched
    rw [Watched, if_neg (by simpa using hnot)] at hwatched
    have hs' : ∀ recvOn sendOn, Streaming C d₀
        { s with
          recvOn := recvOn
          remote := some { r with connected := true, timerOn := false, recvOn := true, sendOn := sendOn } }
        { r with connected := true, timerOn := false, recvOn := true, sendOn := sendOn } abuf payload := by
      intro recvOn sendOn
      refine ⟨hs.stage, hs.opened, rfl, hs.route, hs.asked, ?_, hs.downward⟩
      show Watched true true s.sendOn s.fromRemote
      rw [hwatched.2.1]
      rfl
    show Moves C cfg e₀ d₀ s (ite (r.buf = []) _ _)
    split
    · rename_i hnil
      refine .inl (.stream { r with connected := true, timerOn := false, recvOn := true, sendOn := false }
        abuf payload (hs' true false) (.inl ⟨rfl, rfl, hnil, ?_⟩))
      exact (hflush.ready hnil).congr rfl rfl rfl rfl rfl rfl
    · have hs'' := hs' s.recvOn r.sendOn
      have h := remoteFlush_moves hs'' hrecvOn hdelayed hsendOn
        (hflush.congr rfl rfl rfl rfl rfl rfl) sent
      exact h.from fun h => h.same rfl rfl rfl rfl rfl
  · exact remoteFlush_moves hs hrecvOn hdelayed hsendOn hflush sent

theorem Sound.received {s : Conn G E D} (h : Sound C cfg e₀ d₀ s) (bytes : List UInt8) :
    Sound C cfg e₀ d₀ (s.received bytes) := by
  cases hremote : s.remote with
  | none =>
    rw [received_none hremote]
    exact h.upTo rfl rfl rfl rfl bytes rfl
  | some r =>
    rw [received_some hremote]
    exact h.upTo rfl rfl rfl rfl bytes rfl

/-! ### Callbacks -/

def Inv (C : Streams G E D) (cfg : Config) (e₀ : E) (d₀ : D) (s : Conn G E D) : Prop :=
  Phase C cfg e₀ d₀ s ∨ Closed s ∧ Sound C cfg e₀ d₀ s

theorem Moves.inv {s s' : Conn G E D} (h : Moves C cfg e₀ d₀ s s') (hs : Sound C cfg e₀ d₀ s) :
    Inv C cfg e₀ d₀ s' :=
  h.imp id fun h => ⟨h.closed, h.sound hs⟩

theorem Phase.update {s : Conn G E D} (h : Phase C cfg e₀ d₀ s) (shared : G) {delayedOn : Bool}
    (hdelayed : delayedOn = s.delayedOn ∨ delayedOn = false) :
    Phase C cfg e₀ d₀ { s with shared := shared, delayedOn := delayedOn } := by
  cases h with
  | init hstage idle hclient hto => exact .init hstage (idle.update idle.short) hclient hto
  | request idle greeting told hgreeting hclient htaken h =>
    exact .request (idle.update idle.short) greeting told hgreeting hclient htaken (h.congr rfl rfl rfl)
  | stream r abuf payload hs hup =>
    refine .stream r abuf payload ?_ (hup.congr rfl hdelayed rfl rfl rfl rfl rfl rfl rfl)
    exact hs.upTo rfl rfl hs.remote rfl rfl rfl rfl rfl rfl rfl rfl rfl rfl rfl

/-- The delayed start is waited for only while the client is read. -/
theorem Phase.delayed {s : Conn G E D} (h : Phase C cfg e₀ d₀ s) (hdelayed : s.delayedOn = true) :
    s.recvOn = true ∧ s.recvBuf.length ≤ socketBufSize := by
  have hidle : Idle e₀ d₀ s → s.recvOn = true ∧ s.recvBuf.length ≤ socketBufSize := by
    intro idle
    rw [Conn.recvBuf, idle.remote]
    exact ⟨idle.recvOn, idle.short⟩
  cases h with
  | init _ idle => exact hidle idle
  | request idle => exact hidle idle
  | stream r abuf payload hs hup =>
    obtain ⟨hrecvOn, -, hnil, -⟩ | ⟨-, hoff, -⟩ := hup
    · refine ⟨hrecvOn, ?_⟩
      rw [Conn.recvBuf, hs.remote]
      show r.buf.length ≤ socketBufSize
      rw [hnil]
      exact Nat.zero_le _
    · rw [hdelayed] at hoff
      cases hoff

theorem Phase.remote {s : Conn G E D} (h : Phase C cfg e₀ d₀ s) {r : Remote} (hr : s.remote = some r) :
    ∃ abuf payload, Streaming C d₀ s r abuf payload ∧ Upward C cfg e₀ s r abuf payload := by
  have hidle : ∀ {P : Prop}, Idle e₀ d₀ s → P := by
    intro P idle
    have h := idle.remote
    rw [hr] at h
    cases h
  cases h with
  | init _ idle => exact hidle idle
  | request idle => exact hidle idle
  | stream r' abuf payload hs hup =>
    obtain rfl := Option.some.inj (hr.symm.trans hs.remote)
    exact ⟨abuf, payload, hs, hup⟩

theorem phase_step {s s' : Conn G E D} {e : Event G} (h : Phase C cfg e₀ d₀ s)
    (hs : step C cfg s e = some s') : Inv C cfg e₀ d₀ s' := by
  cases step_calls hs with
  | read a bytes watched nonempty fits =>
    have hlen : s.recvBuf.length + bytes.length ≤ socketBufSize := by
      have hpos : 0 < bytes.length := List.length_pos_of_ne_nil nonempty
      omega
    exact (received_moves h watched bytes hlen a).inv (h.sound.received bytes)
  | readAgain => exact .inl (h.update s.shared (.inr rfl))
  | closes => exact Moves.inv (.inr (ends_close s)) h.sound
  | delayed a watched =>
    obtain ⟨hrecvOn, hlen⟩ := h.delayed watched
    rw [← received_nil]
    exact (received_moves h hrecvOn [] hlen a).inv (h.sound.received [])
  | sends sent watched => exact (serverSend_moves h watched sent).inv h.sound
  | remoteReads r bytes sent remote watched =>
    obtain ⟨abuf, payload, hstream, hup⟩ := h.remote remote
    exact (remoteRecv_moves hstream hup watched bytes sent).inv
      ((hstream.sound hup).read hstream bytes)
  | remoteReadsAgain => exact .inl h
  | remoteSends r peer sent remote watched =>
    obtain ⟨abuf, payload, hstream, hup⟩ := h.remote remote
    exact (remoteSend_moves hstream hup watched peer sent).inv h.sound
  | elsewhere shared => exact .inl (h.update shared (.inl rfl))

/-- A closed connection is not called back. -/
theorem closed_step {s s' : Conn G E D} {e : Event G} (h : Closed s) (hs : step C cfg s e = some s') :
    ∃ shared, s' = { s with shared := shared } := by
  cases e with
  | serverRecv recv a => simp [step, h.recvOn] at hs
  | delayedConnect a => simp [step, h.delayedOn] at hs
  | serverSend sent => simp [step, h.sendOn] at hs
  | remoteRecv recv sent => simp [step, h.remote] at hs
  | remoteSend peer sent => simp [step, h.remote] at hs
  | remoteTimeout => simp [step, h.remote] at hs
  | elsewhere shared => exact ⟨shared, (Option.some.inj hs).symm⟩

theorem step_inv {s s' : Conn G E D} {e : Event G} (h : Inv C cfg e₀ d₀ s)
    (hs : step C cfg s e = some s') : Inv C cfg e₀ d₀ s' := by
  obtain h | ⟨hclosed, hsound⟩ := h
  · exact phase_step h hs
  · obtain ⟨shared, rfl⟩ := closed_step hclosed hs
    exact .inr ⟨⟨hclosed.closed, hclosed.recvOn, hclosed.sendOn, hclosed.delayedOn, hclosed.remote⟩,
      hsound.same rfl rfl rfl rfl rfl⟩

/-! ### Runs -/

theorem run_inv {es : List (Event G)} {shared : G} {s : Conn G E D}
    (hrun : Machine.run (step C cfg) es (newServer shared e₀ d₀) = some s) : Inv C cfg e₀ d₀ s := by
  refine Machine.invariant (fun _ _ _ => step_inv) (.inl (.init rfl ?_ rfl rfl)) hrun
  exact ⟨rfl, rfl, rfl, rfl, rfl, rfl, rfl, rfl, rfl, rfl, rfl, Nat.zero_le _⟩

theorem Inv.sound {s : Conn G E D} (h : Inv C cfg e₀ d₀ s) : Sound C cfg e₀ d₀ s :=
  h.elim Phase.sound And.right

/-- The remote is the one that was chosen. -/
theorem Inv.route {s : Conn G E D} (h : Inv C cfg e₀ d₀ s) {r : Remote} (hr : s.remote = some r) :
    s.route = some r.direct := by
  obtain hphase | ⟨hclosed, -⟩ := h
  · obtain ⟨abuf, payload, hs, -⟩ := hphase.remote hr
    exact hs.route
  · exact absurd (hr.symm.trans hclosed.remote) nofun

theorem routed_run {es : List (Event G)} {shared : G} {s : Conn G E D}
    (hrun : Machine.run (step C cfg) es (newServer shared e₀ d₀) = some s) : Routed es s :=
  ⟨run_route rfl hrun, fun _ => (run_inv hrun).route⟩

/-- **Nothing is lost, repeated or put in another order**: what a remote server gets is the beginning of
the encrypted address and payload, and what the client gets is the beginning of the replies and of what
the server sent, decrypted; and the remote is of the kind that the system chose. -/
theorem relay_run {es : List (Event G)} {shared : G} {s : Conn G E D}
    (hrun : Machine.run (step C cfg) es (newServer shared e₀ d₀) = some s) :
    Sound C cfg e₀ d₀ s ∧ Routed es s :=
  ⟨(run_inv hrun).sound, routed_run hrun⟩

/-- Each piece is shifted by one more. -/
def shiftStreams : Streams Unit UInt8 UInt8 where
  encrypt _ e p := some (p.map (· + e), (), e + 1)
  decrypt _ d bytes := (.ok (bytes.map (· - d)), (), d + 1)

def plainConfig : Config where
  parsePacket _ _ := .nothing
  rewriteSni := false

def proxyAnswers : Answers where
  route := some false
  sockName := none
  greeted := 2
  replied := 10
  isProtected := true
  connecting := true
  fastOpen := false
  sent := .again

/-- A greeting, a request for port 80 with two bytes behind it, and an answer. -/
def requestEvents : List (Event Unit) :=
  [.serverRecv (.bytes [5, 1, 0]) proxyAnswers,
    .serverRecv (.bytes [5, 1, 0, 1, 10, 20, 30, 40, 0, 80, 65, 66]) proxyAnswers,
    .remoteSend true (.bytes 4), .remoteSend true (.bytes 5), .remoteRecv (.bytes [70, 71]) (.bytes 1)]

def requestRun : Option (Conn Unit UInt8 UInt8) :=
  Machine.run (step shiftStreams plainConfig) requestEvents (newServer () 1 0)

theorem relay_run_request : ∃ s, requestRun = some s ∧ Sound shiftStreams plainConfig 1 0 s ∧
    s.route = some false ∧ s.toRemote = [2, 11, 21, 31, 41, 1, 81, 67, 68] ∧
    s.toClient = acceptance ++ [70] := by
  have hrun := Option.eq_some_of_isSome (show requestRun.isSome = true by decide +kernel)
  exact ⟨_, hrun, (relay_run hrun).1, by decide +kernel, by decide +kernel, by decide +kernel⟩

/-- **Bytes are read from one side only while none wait for the other side**, and an open connection
always waits for something. -/
theorem watched_run {es : List (Event G)} {shared : G} {s : Conn G E D}
    (hrun : Machine.run (step C cfg) es (newServer shared e₀ d₀) = some s) (hopen : s.closed = false) :
    (s.remote = none ∧ s.recvOn = true ∧ s.sendOn = false) ∨
      ∃ r, s.remote = some r ∧ s.recvOn = !r.sendOn ∧ (s.recvOn = true → r.buf = []) ∧
        if r.connected then r.recvOn = !s.sendOn else r.recvOn = false ∧ s.sendOn = false := by
  obtain h | ⟨hclosed, -⟩ := run_inv hrun
  · cases h with
    | init _ idle => exact .inl ⟨idle.remote, idle.recvOn, idle.sendOn⟩
    | request idle => exact .inl ⟨idle.remote, idle.recvOn, idle.sendOn⟩
    | stream r abuf payload hs hup =>
      refine .inr ⟨r, hs.remote, ?_, ?_, ?_⟩
      · obtain ⟨hrecv, hsend, -⟩ | ⟨hrecv, -, hsend, -⟩ := hup <;> rw [hrecv, hsend] <;> rfl
      · intro hrecvOn
        obtain ⟨-, -, hnil, -⟩ | ⟨hoff, -⟩ := hup
        · exact hnil
        · rw [hrecvOn] at hoff
          cases hoff
      · have hwatched := hs.watched
        rw [Watched] at hwatched
        split
        · rename_i hconnected
          rwa [if_pos hconnected] at hwatched
        · rename_i hconnected
          rw [if_neg hconnected] at hwatched
          exact ⟨hwatched.1, hwatched.2.1⟩
  · rw [hclosed.closed] at hopen
    cases hopen

theorem watched_run_request : ∃ s, requestRun = some s ∧
    ((s.remote = none ∧ s.recvOn = true ∧ s.sendOn = false) ∨
      ∃ r, s.remote = some r ∧ s.recvOn = !r.sendOn ∧ (s.recvOn = true → r.buf = []) ∧
        if r.connected then r.recvOn = !s.sendOn else r.recvOn = false ∧ s.sendOn = false) := by
  have hrun := Option.eq_some_of_isSome (show requestRun.isSome = true by decide +kernel)
  exact ⟨_, hrun, watched_run hrun (by decide +kernel)⟩

end Local

end SsAndroid
