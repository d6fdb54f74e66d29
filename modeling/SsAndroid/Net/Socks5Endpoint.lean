import SsAndroid.Lib.ByteBuffer
import SsAndroid.Net.Subnet

/-!
# SOCKS5 endpoints

`Socks5Endpoint` wraps DNS messages for a SOCKS5 proxy and takes the replies apart: `tcpUnwrap`
reads method selection, reply header, length and message from a stream that arrives in any pieces,
`udpWrap` and `udpUnwrap` add and skip the header of a datagram.
-/

namespace SsAndroid

open Text

/-- The address types, version and so on of the protocol. -/
def socksVersion : UInt8 := 5
def atypIpv4 : UInt8 := 1
def atypDomainname : UInt8 := 3
def atypIpv6 : UInt8 := 4

/-- `dest`: address type, address and port. -/
structure Socks5Endpoint where
  dest : List UInt8
  deriving DecidableEq, Repr

namespace Socks5Endpoint

/-- `putShort(port.toShort())`. -/
def portBytes (port : Int) : List UInt8 := ByteBuffer.shortBytes (port % 65536).toNat

/-- The constructor `Socks5Endpoint(host, port)`. -/
def new (F : AddressFormat) (host : Text) (port : Int) : Except Exn Socks5Endpoint :=
  match F.parseNumericAddress host with
  | some numeric =>
      .ok ⟨(if numeric.address.length = 4 then atypIpv4 else atypIpv6) ::
        (numeric.address ++ portBytes port)⟩
  | none =>
      if (utf8 host).length < 256 then
        .ok ⟨atypDomainname :: UInt8.ofNat (utf8 host).length :: (utf8 host ++ portBytes port)⟩
      else .error (.illegalState "Hostname too long")

def headerReserved (e : Socks5Endpoint) : Nat := max (3 + 3 + 16) (3 + e.dest.length)

def tcpReceiveBuffer (e : Socks5Endpoint) (size : Int) : Except Exn ByteBuffer :=
  ByteBuffer.allocate (ByteBuffer.toInt32 (e.headerReserved + 4 + size))

/-! ### TCP -/

/-- A computation that reads the stream; it may throw, or (with too little fuel) not return. -/
abbrev Run := StateT Stream (ExceptT Exn Option)

/-- Do something to the buffer. -/
def onBuffer {α : Type} (f : ByteBuffer → Except Exn (α × ByteBuffer)) : Run α := fun s =>
  match f s.buffer with
  | .error e => some (.error e)
  | .ok (a, b) => some (.ok (a, { s with buffer := b }))

def modifyBuffer (f : ByteBuffer → Except Exn ByteBuffer) : Run Unit :=
  onBuffer fun b => (f b).map fun b => ((), b)

def throwIO (message : String) : Run Unit := fun _ => some (.error (.io message))

def readBytes (fuel : Nat) (till : Int) : Run Unit := fun s =>
  if (s.buffer.position : Int) ≥ till then some (.ok ((), s))
  else
    match s.readLoop till fuel with
    | none => none
    | some s' =>
        if (s'.buffer.position : Int) < till then
          some (.error (.eof (toString s'.buffer.position ++ " < " ++ toString till)))
        else some (.ok ((), s'))

def read (fuel : Nat) (index : Nat) : Run UInt8 := do
  readBytes fuel (index + 1)
  onBuffer fun b => (b.getAt index).map fun c => (c, b)

/-- `if (read(index) != value) throw IOException("message ${buffer[index]}")`. -/
def expect (fuel : Nat) (index : Nat) (value : UInt8) (message : String) : Run Unit := do
  let byte ← read fuel index
  if byte ≠ value then throwIO (message ++ toString (ByteBuffer.signed byte))

/-- The offset of the message length; the length byte of a domain name is a signed `Byte`. -/
def dataOffset (fuel : Nat) : Run Int := do
  let type ← read fuel 5
  if type = atypIpv4 then pure (4 + 8)
  else if type = atypDomainname then do
    let length ← read fuel 6
    pure (1 + ByteBuffer.signed length + 8)
  else if type = atypIpv6 then pure (16 + 8)
  else do
    throwIO ("Unsupported address type " ++ toString (ByteBuffer.signed type))
    pure 0

/-- The second half of `tcpUnwrap`, behind the header. -/
def receive (fuel : Nat) (offset : Int) : Run Unit := do
  readBytes fuel (offset + 2)
  modifyBuffer fun b => b.setLimit b.position
  modifyBuffer fun b => b.setPosition offset
  let dataLength ← onBuffer ByteBuffer.getUShort
  let b ← onBuffer fun b => .ok (b, b)
  if b.position + dataLength > b.capacity then
    throwIO ("Buffer too small to contain the message: " ++ toString dataLength ++ " > " ++
      toString (b.capacity - b.position))
  modifyBuffer fun b => .ok b.setMark
  modifyBuffer fun b => b.setPosition b.limit
  modifyBuffer fun c => c.setLimit (b.position + dataLength : Nat)
  readBytes fuel (b.position + dataLength : Nat)
  modifyBuffer ByteBuffer.reset

def tcpUnwrap (fuel : Nat) : Run Unit := do
  expect fuel 0 socksVersion "Unsupported SOCKS version "
  expect fuel 1 0 "Unsupported authentication "
  expect fuel 2 socksVersion "Unsupported SOCKS version "
  expect fuel 3 0 "SOCKS5 server returned error "
  let offset ← dataOffset fuel
  receive fuel offset

/-! ### UDP -/

def udpWrap (e : Socks5Endpoint) (packet : List UInt8) : Except Exn ByteBuffer := do
  let b ← ByteBuffer.allocate (ByteBuffer.toInt32 (3 + e.dest.length + packet.length))
  let b ← b.put (ByteBuffer.shortBytes 0)
  let b ← b.put [0]
  let b ← b.put e.dest
  let b ← b.put packet
  pure b.flip

def tryPosition (b : ByteBuffer) (newPosition : Int) : Except Exn ByteBuffer :=
  if (b.limit : Int) < newPosition then
    .error (.eof (toString b.limit ++ " < " ++ toString newPosition))
  else b.setPosition newPosition

/-- The bytes of the address behind its type. -/
def addressSize (type : UInt8) (b : ByteBuffer) : Except Exn (Int × ByteBuffer) :=
  if type = atypIpv4 then .ok (4, b)
  else if type = atypDomainname then (b.get).map fun (c, b) => (1 + ByteBuffer.signed c, b)
  else if type = atypIpv6 then .ok (16, b)
  else .error (.io ("Unsupported address type " ++ toString (ByteBuffer.signed type)))

def udpUnwrap (packet : ByteBuffer) : Except Exn ByteBuffer := do
  let b ← tryPosition packet 3
  let (type, b) ← b.get
  let (size, b) ← addressSize type b
  let b ← tryPosition b (6 + size)
  pure b.setMark

end Socks5Endpoint

end SsAndroid
