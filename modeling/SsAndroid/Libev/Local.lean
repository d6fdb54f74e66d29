import SsAndroid.Libev.Crypto

/-!
# A connection of ss-local

`local.c`: the client greets and asks for an address as SOCKS5 has it; then bytes go both ways between
the client and the remote server.  The connection has two sockets, and a watcher for reading and one
for writing on each; libev calls back only what is watched.

`Conn` is a connection with what has gone through its sockets so far, an `Event` is a callback with
what the system calls in it return (`Answers`), and `step` is `none` for a callback that is not being
waited for.
-/

namespace SsAndroid

namespace Local

open Crypto (Decrypted Streams)

inductive Stage where
  | init
  | handshake
  | sni
  | stream
deriving DecidableEq, Repr

def socketBufSize : Nat := 16 * 1024 - 1

def maxHostnameLen : Nat := 256

def sversion : UInt8 := 5
def methodNoauth : UInt8 := 0
def methodUnacceptable : UInt8 := 0xff
def cmdConnect : UInt8 := 1
def cmdUdpAssociate : UInt8 := 3
def atypIpv4 : UInt8 := 1
def atypDomain : UInt8 := 3
def atypIpv6 : UInt8 := 4
def repSucceeded : UInt8 := 0
def repConnRefused : UInt8 := 5
def repCmdNotSupported : UInt8 := 7
def repAddrtypeNotSupported : UInt8 := 8

/-- What `parse_packet` finds in the first bytes of a payload: `-1`, a host name, or neither. -/
inductive Sniffed where
  | incomplete
  | nothing
  | host (name : List UInt8)
deriving DecidableEq

def Sniffed.isHost : Sniffed → Bool
  | .host _ => true
  | .incomplete | .nothing => false

structure Config where
  /-- `parse_packet` of the protocol whose `default_port` this is. -/
  parsePacket : Nat → List UInt8 → Sniffed
  /-- There is an access control list, and host names are resolved remotely. -/
  rewriteSni : Bool

/-- What `send` returns: `EAGAIN`, another error, or the number of bytes. -/
inductive Sent where
  | again
  | failed
  | bytes (n : Nat)
deriving DecidableEq

/-- What the system answers in one callback. -/
structure Answers where
  /-- The access control list and `create_remote`: no socket, or whether the remote is the
  destination itself. -/
  route : Option Bool
  /-- `getsockname`: address and port. -/
  sockName : Option (List UInt8)
  /-- How many bytes `send` takes of the reply to the greeting, none where it fails. -/
  greeted : Nat
  /-- How many bytes `send` takes of the reply to the request, none where it fails. -/
  replied : Nat
  /-- `protect_socket`, where it is needed. -/
  isProtected : Bool
  /-- `connect` succeeds or is in progress. -/
  connecting : Bool
  fastOpen : Bool
  sent : Sent

structure Remote where
  direct : Bool
  buf : List UInt8
  connected : Bool
  recvOn : Bool
  sendOn : Bool
  timerOn : Bool
deriving DecidableEq

/-- `server_t` with its `remote_t`.  The last fields are not in the source: `direct` of the remote that
was chosen, also when it is closed again, and what was read from and written to the two sockets. -/
structure Conn (G E D : Type) where
  shared : G
  stage : Stage
  buf : List UInt8
  abuf : Option (List UInt8)
  eCtx : E
  dCtx : D
  remote : Option Remote
  recvOn : Bool
  sendOn : Bool
  delayedOn : Bool
  closed : Bool
  tx : Nat
  rx : Nat
  route : Option Bool
  fromClient : List UInt8
  toClient : List UInt8
  fromRemote : List UInt8
  toRemote : List UInt8
deriving DecidableEq

variable {G E D : Type}

/-- `new_server`, after `accept_cb` has started to read. -/
def newServer (shared : G) (eCtx : E) (dCtx : D) : Conn G E D where
  shared := shared
  stage := .init
  buf := []
  abuf := some []
  eCtx := eCtx
  dCtx := dCtx
  remote := none
  recvOn := true
  sendOn := false
  delayedOn := false
  closed := false
  tx := 0
  rx := 0
  route := none
  fromClient := []
  toClient := []
  fromRemote := []
  toRemote := []

namespace Conn

/-- `close_and_free_remote` and `close_and_free_server`. -/
def close (s : Conn G E D) : Conn G E D :=
  { s with closed := true, remote := none, recvOn := false, sendOn := false, delayedOn := false }

def tell (s : Conn G E D) (bytes : List UInt8) : Conn G E D := { s with toClient := s.toClient ++ bytes }

/-- Wait until the remote can be written to, and read no more from the client. -/
def awaitRemote (s : Conn G E D) (r : Remote) : Conn G E D :=
  { s with recvOn := false, remote := some { r with sendOn := true } }

end Conn

/-! ### The request -/

inductive Request where
  | more
  | udpAssociate
  | badCommand
  | moreAddress (atyp : UInt8)
  | badAddress (atyp : UInt8)
  | connect (abuf : List UInt8)
deriving DecidableEq

/-- The first part of `server_handshake`: the request at the front of the buffer, and for `CONNECT` its
address as it is put into `server->abuf`. -/
def parseRequest (buf : List UInt8) : Request :=
  if buf.length < 4 then .more
  else
    let cmd := buf.getD 1 0
    let atyp := buf.getD 3 0
    if cmd = cmdUdpAssociate then .udpAssociate
    else if cmd ≠ cmdConnect then .badCommand
    else if atyp = atypIpv4 then
      if buf.length < 4 + 4 + 2 then .moreAddress atyp
      else .connect (atyp :: (buf.drop 4).take (4 + 2))
    else if atyp = atypDomain then
      let nameLen := buf.getD 4 0
      if buf.length < 4 + 1 + nameLen.toNat + 2 then .moreAddress atyp
      else .connect (atyp :: nameLen :: (buf.drop (4 + 1)).take (nameLen.toNat + 2))
    else if atyp = atypIpv6 then
      if buf.length < 4 + 16 + 2 then .moreAddress atyp
      else .connect (atyp :: (buf.drop 4).take (16 + 2))
    else .badAddress atyp

/-- `dst_port`, the last two bytes of the address. -/
def dstPort (abuf : List UInt8) : Nat :=
  (abuf.getD (abuf.length - 2) 0).toNat * 256 + (abuf.getD (abuf.length - 1) 0).toNat

/-- What the payload says about the host, where the address does not. -/
def sniff (cfg : Config) (abuf payload : List UInt8) : Sniffed :=
  if abuf.headD 0 = atypDomain then .nothing else cfg.parsePacket (dstPort abuf) payload

/-- The address buffer that is put together from a host name that was found. -/
def hostAddress (name abuf : List UInt8) : List UInt8 :=
  let hostnameLen := min name.length maxHostnameLen
  [atypDomain, UInt8.ofNat hostnameLen] ++ name.take hostnameLen ++ abuf.drop (abuf.length - 2)

/-- The address that goes to the remote: a host name that was found takes the place of the address,
unless the remote is the destination itself. -/
def remoteAddress (cfg : Config) (direct : Bool) (abuf : List UInt8) : Sniffed → List UInt8
  | .host name => if cfg.rewriteSni && !direct then hostAddress name abuf else abuf
  | .incomplete | .nothing => abuf

/-- `struct method_select_response`. -/
def methodReply (method : UInt8) : List UInt8 := [sversion, method]

/-- `struct socks5_response`. -/
def reply (rep : UInt8) : List UInt8 := [sversion, rep, 0, atypIpv4]

/-- `server_handshake_reply`; `true` is `0`. -/
def serverHandshakeReply (a : Answers) (udpAssc : Bool) (s : Conn G E D) : Bool × Conn G E D :=
  if s.stage ≠ .handshake then (true, s)
  else match if udpAssc then a.sockName else some (List.replicate 6 0) with
    | none => (false, (s.tell ((reply repConnRefused).take a.replied)).close)
    | some sockAddr =>
        let response := reply repSucceeded ++ sockAddr
        let s := s.tell (response.take a.replied)
        if a.replied < response.length then (false, s.close) else (!udpAssc, s)

/-- `crypto->encrypt` on `server->abuf`, where the remote is a server. -/
def encryptAddress (C : Streams G E D) (direct : Bool) (header : List UInt8) (s : Conn G E D) :
    Option (List UInt8 × G × E) :=
  if direct then some (header, s.shared, s.eCtx) else C.encrypt s.shared s.eCtx header

/-- The end of `server_handshake`: the payload moves to `remote->buf`, and without one the connection is
made a little later. -/
def attachRemote (direct sniffedHost : Bool) (abuf : List UInt8) (shared : G) (eCtx : E)
    (s : Conn G E D) : Bool × Conn G E D :=
  let s := { s with
    shared := shared
    eCtx := eCtx
    abuf := some abuf
    remote := some
      { direct := direct
        buf := s.buf
        connected := false
        recvOn := false
        sendOn := false
        timerOn := false } }
  if s.buf ≠ [] ∨ sniffedHost then (true, s) else (false, { s with delayedOn := true })

/-- The last part of `server_handshake`, from the choice of a remote on. -/
def connectRemote (C : Streams G E D) (cfg : Config) (a : Answers) (abuf : List UInt8)
    (sniffed : Sniffed) (s : Conn G E D) : Bool × Conn G E D :=
  match a.route with
  | none => (false, s.close)
  | some direct =>
      match encryptAddress C direct (remoteAddress cfg direct abuf sniffed) s with
      | none => (false, s.close)
      | some (c, shared, eCtx) =>
          attachRemote direct sniffed.isHost c shared eCtx { s with route := a.route }

def serverHandshake (C : Streams G E D) (cfg : Config) (a : Answers) (s : Conn G E D) :
    Bool × Conn G E D :=
  match parseRequest s.buf with
  | .more => (false, s)
  | .udpAssociate => serverHandshakeReply a true s
  | .badCommand => (false, (s.tell ((reply repCmdNotSupported).take a.replied)).close)
  -- the type of the address is in `server->abuf` before the rest of it is looked at
  | .moreAddress atyp => (false, { s with abuf := some [atyp] })
  | .badAddress atyp =>
      (false, ({ s with abuf := some [atyp] }.tell ((reply repAddrtypeNotSupported).take a.replied)).close)
  | .connect abuf =>
      let payload := s.buf.drop (3 + abuf.length)
      let sniffed := sniff cfg abuf payload
      let r := serverHandshakeReply a false { s with abuf := some abuf }
      if !r.1 then (false, r.2)
      else if sniffed = .incomplete ∧ s.buf.length < socketBufSize ∧ s.stage ≠ .sni then
        (false, { r.2 with stage := .sni, delayedOn := true })
      else connectRemote C cfg a abuf sniffed { r.2 with stage := .stream, buf := payload }

/-! ### The stream -/

/-- `crypto->encrypt` on what is to go to the remote, with the address in front of it the first time. -/
def encryptStream (C : Streams G E D) (s : Conn G E D) (r : Remote) : Option (Conn G E D × Remote) :=
  if r.direct then some (s, r)
  else (C.encrypt s.shared s.eCtx r.buf).map fun (c, shared, eCtx) =>
    ({ s with shared := shared, eCtx := eCtx, abuf := none, tx := s.tx + r.buf.length },
      { r with buf := s.abuf.getD [] ++ c })

/-- `connect`, or the first `send` of a fast open. -/
def connectStream (a : Answers) (s : Conn G E D) (r : Remote) : Conn G E D :=
  if !a.isProtected then s.close
  else if !a.fastOpen || r.direct then
    if !a.connecting then s.close else s.awaitRemote { r with timerOn := true }
  else match a.sent with
    | .again => s.awaitRemote r
    | .failed => s.close
    | .bytes n =>
        { s with toRemote := s.toRemote ++ r.buf.take n }.awaitRemote
          { r with buf := r.buf.drop n, timerOn := true }

def sendStream (a : Answers) (s : Conn G E D) (r : Remote) : Conn G E D :=
  match a.sent with
  | .again => s.awaitRemote r
  | .failed => s.close
  | .bytes n =>
      let s := { s with toRemote := s.toRemote ++ r.buf.take n }
      if n < r.buf.length then s.awaitRemote { r with buf := r.buf.drop n }
      else { s with remote := some { r with buf := [] } }

def serverStream (C : Streams G E D) (a : Answers) (s : Conn G E D) : Conn G E D :=
  match s.remote with
  | none => s.close
  | some r =>
      match encryptStream C s r with
      | none => s.close
      | some (s, r) => if !r.connected then connectStream a s r else sendStream a s r

/-! ### server_recv_cb -/

/-- The stage `STAGE_INIT` of the loop; `true` is `continue`.  How much of its reply `send` takes is
not looked at. -/
def selectMethod (a : Answers) (s : Conn G E D) : Bool × Conn G E D :=
  if s.buf.length < 1 then (false, s)
  else if s.buf.getD 0 0 ≠ sversion then (false, s.close)
  else if s.buf.length < 2 then (false, s)
  else
    let nmethods := (s.buf.getD 1 0).toNat
    let methodLen := nmethods + 2
    if s.buf.length < methodLen then (false, s)
    else if methodNoauth ∉ (s.buf.drop 2).take nmethods then
      (false, (s.tell ((methodReply methodUnacceptable).take a.greeted)).close)
    else
      (decide (methodLen < s.buf.length),
        { s.tell ((methodReply methodNoauth).take a.greeted) with
          stage := .handshake
          buf := s.buf.drop methodLen })

/-- `while (1)`: a round that goes on has gone to a later stage, so there are three at most. -/
def recvLoop (C : Streams G E D) (cfg : Config) (a : Answers) : Nat → Conn G E D → Conn G E D
  | 0, s => s
  | n + 1, s =>
      match s.stage with
      | .stream => serverStream C a s
      | .init =>
          let r := selectMethod a s
          if r.1 then recvLoop C cfg a n r.2 else r.2
      | .handshake | .sni =>
          let r := serverHandshake C cfg a s
          if r.1 then recvLoop C cfg a n r.2 else r.2

/-- The buffer that is read into: `server->buf`, or `remote->buf` once there is a remote. -/
def Conn.recvBuf (s : Conn G E D) : List UInt8 :=
  match s.remote with
  | none => s.buf
  | some r => r.buf

def Conn.received (s : Conn G E D) (bytes : List UInt8) : Conn G E D :=
  let s := { s with delayedOn := false, fromClient := s.fromClient ++ bytes }
  match s.remote with
  | none => { s with buf := s.buf ++ bytes }
  | some r => { s with remote := some { r with buf := r.buf ++ bytes } }

/-! ### The other callbacks -/

/-- `server_send_cb`. -/
def serverSend (sent : Sent) (s : Conn G E D) : Conn G E D :=
  if s.buf = [] then s.close
  else match sent with
    | .again => s
    | .failed => s.close
    | .bytes n =>
        let s' := s.tell (s.buf.take n)
        if n < s.buf.length then { s' with buf := s.buf.drop n }
        else
          { s' with
            buf := []
            sendOn := false
            remote := s.remote.map fun r => { r with recvOn := true } }

/-- `remote_recv_cb`, behind the decryption. -/
def tellClient (sent : Sent) (s : Conn G E D) (r : Remote) : Conn G E D :=
  match sent with
  | .again => { s with sendOn := true, remote := some { r with recvOn := false } }
  | .failed => s.close
  | .bytes n =>
      let s' := s.tell (s.buf.take n)
      if n < s.buf.length then
        { s' with buf := s.buf.drop n, sendOn := true, remote := some { r with recvOn := false } }
      else s'

/-- `remote_recv_cb` with some bytes. -/
def remoteRecv (C : Streams G E D) (sent : Sent) (bytes : List UInt8) (s : Conn G E D) (r : Remote) :
    Conn G E D :=
  let s := { s with fromRemote := s.fromRemote ++ bytes, buf := bytes }
  if r.direct then tellClient sent s r
  else
    let d := C.decrypt s.shared s.dCtx bytes
    let s := { s with shared := d.2.1, dCtx := d.2.2, rx := s.rx + bytes.length }
    match d.1 with
    | .error => s.close
    | .needMore => s
    | .ok plaintext => tellClient sent { s with buf := plaintext } r

/-- `remote_send_cb`, once the remote is connected. -/
def remoteFlush (sent : Sent) (s : Conn G E D) (r : Remote) : Conn G E D :=
  if r.buf = [] then s.close
  else match sent with
    | .again => s
    | .failed => s.close
    | .bytes n =>
        let s' := { s with toRemote := s.toRemote ++ r.buf.take n }
        if n < r.buf.length then { s' with remote := some { r with buf := r.buf.drop n } }
        else { s' with recvOn := true, remote := some { r with buf := [], sendOn := false } }

/-- `remote_send_cb`; `peer` says that `getpeername` succeeds. -/
def remoteSend (peer : Bool) (sent : Sent) (s : Conn G E D) (r : Remote) : Conn G E D :=
  if !r.connected then
    if !peer then s.close
    else
      let r := { r with connected := true, timerOn := false, recvOn := true }
      if r.buf = [] then { s with recvOn := true, remote := some { r with sendOn := false } }
      else remoteFlush sent { s with remote := some r } r
  else remoteFlush sent s r

/-! ### Callbacks -/

/-- What `recv` returns: bytes, the end, `EAGAIN` or another error. -/
inductive Recv where
  | bytes (bytes : List UInt8)
  | eof
  | again
  | failed
deriving DecidableEq

inductive Event (G : Type) where
  | serverRecv (recv : Recv) (a : Answers)
  | delayedConnect (a : Answers)
  | serverSend (sent : Sent)
  | remoteRecv (recv : Recv) (sent : Sent)
  | remoteSend (peer : Bool) (sent : Sent)
  | remoteTimeout
  /-- Something happens on another connection. -/
  | elsewhere (shared : G)

def step (C : Streams G E D) (cfg : Config) (s : Conn G E D) : Event G → Option (Conn G E D)
  | .serverRecv recv a =>
      if !s.recvOn then none
      else match recv with
        | .bytes bytes =>
            if bytes = [] ∨ socketBufSize - s.recvBuf.length < bytes.length then none
            else some (recvLoop C cfg a 3 (s.received bytes))
        | .again => some { s with delayedOn := false }
        | .eof | .failed => some s.close
  | .delayedConnect a =>
      if !s.delayedOn then none else some (recvLoop C cfg a 3 { s with delayedOn := false })
  | .serverSend sent => if !s.sendOn then none else some (serverSend sent s)
  | .remoteRecv recv sent =>
      match s.remote with
      | none => none
      | some r =>
          if !r.recvOn then none
          else match recv with
            | .bytes bytes =>
                if bytes = [] ∨ socketBufSize < bytes.length then none
                else some (remoteRecv C sent bytes s r)
            | .again => some s
            | .eof | .failed => some s.close
  | .remoteSend peer sent =>
      match s.remote with
      | none => none
      | some r => if !r.sendOn then none else some (remoteSend peer sent s r)
  | .remoteTimeout =>
      match s.remote with
      | none => none
      | some r => if !r.timerOn then none else some s.close
  | .elsewhere shared => some { s with shared := shared }

end Local

end SsAndroid
