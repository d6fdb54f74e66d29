import SsAndroid.Net.Socks5Tcp

/-!
# Domain names in SOCKS5 headers

The length of a domain name is written as one byte, up to 255, but both readers add it to an offset
as a signed `Byte`.

**`domain_length`**: a datagram comes back from `udpUnwrap` exactly when the endpoint is numeric or
its name has at most 127 bytes (and the datagram fits a buffer), and the message behind a bound
domain name is delivered exactly when that name has at most 127 bytes.
-/

namespace SsAndroid

open Text

namespace Socks5Endpoint

theorem signed_ofNat {n : Nat} (h : n < 256) :
    ByteBuffer.signed (UInt8.ofNat n) = if n < 128 then (n : Int) else (n : Int) - 256 := by
  have hn : (UInt8.ofNat n).toNat = n := by
    rw [UInt8.toNat_ofNat']
    omega
  rw [ByteBuffer.signed, hn]

/-! ### TCP -/

section Tcp

variable {fuel : Nat} {s s' : Stream} {S : List UInt8}

theorem read_mark (s : Stream) : s.read.2.buffer.mark = s.buffer.mark := by
  unfold Stream.read
  split
  · rfl
  · split
    · rfl
    · split <;> rfl

theorem readLoop_mark {till : Int} : ∀ {fuel : Nat} {s s' : Stream},
    s.readLoop till fuel = some s' → s'.buffer.mark = s.buffer.mark := by
  intro fuel
  induction fuel with
  | zero => intro s s' h; simp [Stream.readLoop] at h
  | succ fuel ih =>
    intro s s' h
    rw [Stream.readLoop] at h
    split at h
    · exact (ih h).trans (read_mark s)
    · rw [← Option.some.inj h, read_mark]

theorem readBytes_mark {till : Int} (h : readBytes fuel till s = some (.ok ((), s'))) :
    s'.buffer.mark = s.buffer.mark := by
  unfold readBytes at h
  split at h
  · cases h
    rfl
  · split at h
    · simp at h
    · rename_i s1 hloop
      split at h
      · cases h
      · cases h
        exact readLoop_mark hloop

theorem buffer_of_modifyBuffer {f : ByteBuffer → Except Exn ByteBuffer}
    (h : modifyBuffer f s = some (.ok ((), s'))) : f s.buffer = .ok s'.buffer := by
  unfold modifyBuffer onBuffer at h
  cases hb : f s.buffer with
  | error e => simp only [hb, Except.map] at h; cases h
  | ok b => simp only [hb, Except.map] at h; cases h; rfl

theorem position_of_setPosition {b b' : ByteBuffer} {n : Nat} (h : b.setPosition n = .ok b') :
    b'.position = n := by
  unfold ByteBuffer.setPosition at h
  split at h
  · cases h
  · cases h
    exact Int.toNat_natCast n

/-- Where `reset` puts the position, if it is reached. -/
theorem position_of_reset {till : Int} {m : Nat} (hmark : s.buffer.mark = some m)
    (h : (readBytes fuel till >>= fun _ => modifyBuffer ByteBuffer.reset) s =
      some (.ok ((), s'))) : s'.buffer.position = m := by
  cases hread : readBytes fuel till s with
  | none =>
    have hbind : (readBytes fuel till >>= fun _ => modifyBuffer ByteBuffer.reset) s = none := by
      show (readBytes fuel till s).bind _ = none
      rw [hread]
      rfl
    rw [hbind] at h
    exact absurd h (by simp)
  | some r =>
    cases r with
    | error e => rw [bind_of_error hread] at h; cases h
    | ok p =>
      obtain ⟨⟨⟩, s1⟩ := p
      have hm1 : s1.buffer.mark = some m := (readBytes_mark hread).trans hmark
      rw [bind_of_ok hread] at h
      have hreset := buffer_of_modifyBuffer h
      rw [ByteBuffer.reset, hm1] at hreset
      exact position_of_setPosition hreset

/-- Behind a negative offset nothing is read: the position cannot be set. -/
theorem receive_of_neg {offset : Int} (hneg : offset < 0) (hpos : 1 ≤ s.buffer.position) :
    receive fuel offset s = some (.error (.illegalArgument "")) := by
  have h1 : readBytes fuel (offset + 2) s = some (.ok ((), s)) := by
    rw [readBytes, if_pos (by omega)]
  obtain ⟨b2, h2, -⟩ := ByteBuffer.setLimit_ok
    (Nat.le_trans s.buffer.position_le s.buffer.limit_le)
  rw [receive, bind_of_ok h1, bind_of_ok (modifyBuffer_of_ok h2)]
  refine bind_of_error ?_
  simp only [modifyBuffer, onBuffer, ByteBuffer.setPosition_of_neg hneg, Except.map]

/-- A reply whose bound address is a domain name. -/
def domainReply (reserved : UInt8) (name port : List UInt8) : List UInt8 :=
  reply reserved atypDomainname (UInt8.ofNat name.length :: name) port

theorem length_domainReply (reserved : UInt8) (name : List UInt8) {port : List UInt8} (hport : port.length = 2) :
    (domainReply reserved name port).length = 9 + name.length := by
  rw [domainReply, length_reply, List.length_cons]
  omega

/-- The reader takes the length of the message from behind the bound port and delivers the
message. -/
def DeliversTcp (b : ByteBuffer) (chunks : List (List UInt8)) (nameLength : Nat)
    (message : List UInt8) : Prop :=
  ∀ fuel, Stream.rounds ⟨b, chunks⟩ < fuel →
    ∃ s', tcpUnwrap fuel ⟨b, chunks⟩ = some (.ok ((), s')) ∧
      s'.buffer.position = (9 + nameLength) + 2 ∧
      s'.buffer.limit = (9 + nameLength) + 2 + message.length ∧ s'.buffer.content = message

/-- Up to the offset the reader computes, the length byte makes no difference. -/
theorem tcpUnwrap_domain {reserved : UInt8} {name port message trailing : List UInt8}
    {b : ByteBuffer} {chunks : List (List UInt8)} (hname : name.length ≤ 255)
    (hport : port.length = 2) (hb : Fresh b)
    (hchunks : chunks.flatten = replyWith (domainReply reserved name port) message ++ trailing)
    (hcap : (9 + name.length) + 2 + message.length ≤ b.data.length)
    (hf : Stream.rounds ⟨b, chunks⟩ < fuel) :
    ∃ s, tcpUnwrap fuel ⟨b, chunks⟩ =
        receive fuel (1 + ByteBuffer.signed (UInt8.ofNat name.length) + 8) s ∧
      s.Received (replyWith (domainReply reserved name port) message ++ trailing) ∧
      s.buffer.limit = s.buffer.data.length ∧ s.buffer.data.length = b.data.length ∧
      s.rounds < fuel ∧ 1 ≤ s.buffer.position := by
  have hlen := length_whole (domainReply reserved name port) message trailing
  have hreply := length_domainReply reserved name hport
  obtain ⟨s1, h1, hr1, hl1, hc1, hf1⟩ := tcpUnwrap_whole hb hchunks (by omega) hf
  replace hr1 : s1.Received (replyWith (domainReply reserved name port) message ++ trailing) := hr1
  obtain ⟨s2, h2, hr2, ha2, hp2⟩ := dataOffset_domain hr1 (by omega) (by omega) hf1 rfl
  have hl2 := ha2.limit
  have hc2 := ha2.capacity
  refine ⟨s2, by rw [h1, bind_of_ok h2]; rfl, hr2, by omega, by omega,
    Nat.lt_of_le_of_lt ha2.rounds hf1, by omega⟩

/-- **The message behind a bound domain name is delivered exactly when the name has at most 127
bytes.**  A longer one gives an offset that is negative, or one within the header. -/
theorem deliversTcp_iff {reserved : UInt8} {name port message trailing : List UInt8}
    {b : ByteBuffer} {chunks : List (List UInt8)} (hname : name.length ≤ 255)
    (hport : port.length = 2) (hm : message.length < 65536) (hb : Fresh b)
    (hchunks : chunks.flatten = replyWith (domainReply reserved name port) message ++ trailing)
    (hcap : (9 + name.length) + 2 + message.length ≤ b.data.length) :
    DeliversTcp b chunks name.length message ↔ name.length ≤ 127 := by
  have hreply := length_domainReply reserved name hport
  have hpre := List.prefix_refl (replyWith (domainReply reserved name port) message ++ trailing)
  have hlen := length_whole (domainReply reserved name port) message trailing
  constructor
  · intro hdel
    by_contra hlong
    obtain ⟨s', hok, hpos, -, -⟩ := hdel _ (Nat.lt_succ_self _)
    obtain ⟨s, heq, hr, hlim, hcap', hf, hs⟩ :=
      tcpUnwrap_domain hname hport hb hchunks hcap (Nat.lt_succ_self _)
    rw [heq, signed_ofNat (by omega), if_neg (by omega)] at hok
    by_cases hneg : name.length < 247
    · rw [receive_of_neg (by omega) hs] at hok
      cases hok
    · -- the offset points into the header, and so does the position that is left
      obtain ⟨o, ho⟩ : ∃ o : Nat, (1 : Int) + ((name.length : Int) - 256) + 8 = o :=
        ⟨name.length - 247, by omega⟩
      rw [ho] at hok
      obtain ⟨s1, -, -, -, ⟨-, io, hio⟩ | ⟨s2, hat, hrec⟩⟩ :=
        receive_eq hr o (by omega) (by omega) hf
      · rw [hio] at hok
        cases hok
      · rw [hrec] at hok
        have := position_of_reset hat.mark hok
        omega
  · intro hshort fuel hf
    obtain ⟨s, heq, hr, hlim, hcap', hf', -⟩ :=
      tcpUnwrap_domain hname hport hb hchunks hcap hf
    have hoff : (1 : Int) + (name.length : Int) + 8 = ((domainReply reserved name port).length : Nat) := by
      omega
    rw [heq, signed_ofNat (by omega), if_pos (by omega), hoff]
    have hlenAt := lengthAt_replyWith hm hpre (by omega)
    obtain ⟨s', hok, hp, hl, hcontent⟩ := receive_ok hr (by rw [hlenAt]; omega) hlim
      (by rw [hlenAt]; omega) hf'
    refine ⟨s', hok, by omega, by rw [hl, hlenAt]; omega, ?_⟩
    rw [hcontent, hlenAt, drop_take_replyWith]

end Tcp

/-! ### UDP -/

section Udp

theorem ok_bind {α β : Type} {x : Except Exn α} {f : α → Except Exn β} {a : α} (h : x = .ok a) :
    (x >>= f) = f a := by
  rw [h]
  rfl

/-- A buffer of `size` bytes in which `written` has been put. -/
structure Filled (size : Nat) (written : List UInt8) (b : ByteBuffer) : Prop where
  capacity : b.data.length = size
  limit : b.limit = size
  position : b.position = written.length
  data : b.data.take b.position = written

theorem put_filled {size : Nat} {written : List UInt8} {b : ByteBuffer}
    (h : Filled size written b) (bs : List UInt8) (hfit : written.length + bs.length ≤ size) :
    ∃ b', b.put bs = .ok b' ∧ Filled size (written ++ bs) b' := by
  have hpos := h.position
  have hlim := h.limit
  have hrem : bs.length ≤ b.remaining := by rw [ByteBuffer.remaining]; omega
  refine ⟨b.store bs hrem, ByteBuffer.put_ok hrem, ?_, hlim, ?_, ?_⟩
  · rw [ByteBuffer.store_length, h.capacity]
  · show b.position + bs.length = _
    rw [List.length_append]
    omega
  · rw [ByteBuffer.store_take, h.data]

/-- The datagram that `udpWrap` builds. -/
def datagram (e : Socks5Endpoint) (packet : List UInt8) : List UInt8 := [0, 0, 0] ++ e.dest ++ packet

theorem length_datagram (e : Socks5Endpoint) (packet : List UInt8) :
    (datagram e packet).length = 3 + e.dest.length + packet.length := by
  simp only [datagram, List.length_append, List.length_cons, List.length_nil]

/-- A buffer that is ready to be read and holds `bytes`. -/
structure Holds (bytes : List UInt8) (b : ByteBuffer) : Prop where
  data : b.data = bytes
  position : b.position = 0
  limit : b.limit = bytes.length

theorem udpWrap_ok {e : Socks5Endpoint} {packet : List UInt8}
    (hfit : 3 + e.dest.length + packet.length < 2 ^ 31) :
    ∃ b, e.udpWrap packet = .ok b ∧ Holds (datagram e packet) b := by
  obtain ⟨b0, h0, hcap0, hpos0, hlim0, -⟩ :=
    ByteBuffer.allocate_ok (n := 3 + e.dest.length + packet.length)
  have h0' : ByteBuffer.allocate (ByteBuffer.toInt32 (3 + e.dest.length + packet.length)) = .ok b0 := by
    rw [ByteBuffer.toInt32_of_lt (by omega) (by omega)]
    exact_mod_cast h0
  have hf0 : Filled (3 + e.dest.length + packet.length) [] b0 := by
    refine ⟨hcap0, hlim0, hpos0, ?_⟩
    rw [hpos0]
    rfl
  obtain ⟨b1, h1, hf1⟩ := put_filled hf0 (ByteBuffer.shortBytes 0) (by
    show 0 + 2 ≤ _
    omega)
  obtain ⟨b2, h2, hf2⟩ := put_filled hf1 [0] (by
    show 2 + 1 ≤ _
    omega)
  obtain ⟨b3, h3, hf3⟩ := put_filled hf2 e.dest (by
    show 3 + e.dest.length ≤ _
    omega)
  obtain ⟨b4, h4, hf4⟩ := put_filled hf3 packet (by
    rw [List.length_append]
    show 3 + e.dest.length + packet.length ≤ _
    omega)
  have hw : ([] ++ ByteBuffer.shortBytes 0 ++ [0] ++ e.dest ++ packet) = datagram e packet := rfl
  rw [hw] at hf4
  have hlen := length_datagram e packet
  have hpos4 := hf4.position
  refine ⟨b4.flip, ?_, ?_, rfl, hpos4⟩
  · rw [udpWrap, ok_bind h0', ok_bind h1, ok_bind h2, ok_bind h3, ok_bind h4]
    rfl
  · have hall := hf4.data
    have hcap4 := hf4.capacity
    rw [List.take_of_length_le (by omega)] at hall
    exact hall

/-- A datagram that is too large for a buffer is not wrapped. -/
theorem udpWrap_overflow {e : Socks5Endpoint} {packet : List UInt8}
    (hfit : 2 ^ 31 ≤ 3 + e.dest.length + packet.length)
    (hint : 3 + e.dest.length + packet.length < 2 ^ 32) :
    e.udpWrap packet = .error (.illegalArgument "") := by
  have hneg : ByteBuffer.toInt32 (3 + e.dest.length + packet.length) < 0 :=
    ByteBuffer.toInt32_neg (by omega) (by omega)
  rw [udpWrap, ByteBuffer.allocate, if_pos hneg]
  rfl

theorem tryPosition_ok {b : ByteBuffer} {n : Nat} (h : n ≤ b.limit) :
    ∃ b', tryPosition b n = .ok b' ∧ b'.data = b.data ∧ b'.position = n ∧ b'.limit = b.limit := by
  obtain ⟨b', hb', hd, hp, hl, -⟩ := ByteBuffer.setPosition_ok h
  exact ⟨b', by rw [tryPosition, if_neg (by omega), hb'], hd, hp, hl⟩

theorem get_ok {b : ByteBuffer} (h : b.position < b.limit) :
    ∃ b', b.get = .ok (b.data.getD b.position 0, b') ∧ b'.data = b.data ∧
      b'.position = b.position + 1 ∧ b'.limit = b.limit :=
  ⟨_, dif_pos (by rw [ByteBuffer.remaining]; omega), rfl, rfl, rfl⟩

/-- The type of the address and what `udpUnwrap` makes of a datagram with it. -/
theorem udpUnwrap_eq {bytes : List UInt8} {b : ByteBuffer} (h : Holds bytes b)
    (hlen : 4 < bytes.length) :
    ∃ b1, b1.data = bytes ∧ b1.position = 4 ∧ b1.limit = bytes.length ∧
      udpUnwrap b = (addressSize (bytes.getD 3 0) b1 >>= fun p =>
        tryPosition p.2 (6 + p.1) >>= fun b => pure b.setMark) := by
  have hlim := h.limit
  obtain ⟨b0, h0, hd0, hp0, hl0⟩ := tryPosition_ok (b := b) (n := 3) (by omega)
  obtain ⟨b1, h1, hd1, hp1, hl1⟩ := get_ok (b := b0) (by omega)
  refine ⟨b1, by rw [hd1, hd0, h.data], by omega, by omega, ?_⟩
  have h0' : tryPosition b 3 = .ok b0 := h0
  have hbyte : b0.data.getD b0.position 0 = bytes.getD 3 0 := by rw [hp0, hd0, h.data]
  rw [udpUnwrap, ok_bind h0', ok_bind h1, hbyte]

/-- An offset at which the rest of the datagram starts. -/
theorem unwrap_at {bytes : List UInt8} {b : ByteBuffer} (hd : b.data = bytes)
    (hl : b.limit = bytes.length) {offset : Int} {n : Nat} (hoff : offset = n)
    (hn : n ≤ bytes.length) :
    ∃ b', (tryPosition b offset >>= fun b => pure b.setMark) = Except.ok b' ∧ b'.position = n ∧
      b'.content = bytes.drop n := by
  obtain ⟨b', hb', hd', hp', hl'⟩ := tryPosition_ok (b := b) (n := n) (by omega)
  refine ⟨b'.setMark, ?_, hp', ?_⟩
  · rw [hoff, hb']
    rfl
  · show (b'.data.take b'.limit).drop b'.position = _
    rw [hd', hd, hl', hl, hp', List.take_length]

/-- The payload of a datagram is what stands behind the header. -/
theorem drop_datagram (e : Socks5Endpoint) (packet : List UInt8) :
    (datagram e packet).drop (3 + e.dest.length) = packet := by
  have hhead : ([0, 0, 0] ++ e.dest : List UInt8).length = 3 + e.dest.length := by
    rw [List.length_append]
    rfl
  rw [datagram, ← hhead, List.drop_left]

/-- What is wrapped is unwrapped. -/
def DeliversUdp (e : Socks5Endpoint) (packet : List UInt8) : Prop :=
  ∃ b b', e.udpWrap packet = .ok b ∧ udpUnwrap b = .ok b' ∧ b'.content = packet

/-- The two forms of `dest`. -/
theorem dest_cases {F : AddressFormat} {host : Text} {port : Int} {e : Socks5Endpoint}
    (he : new F host port = .ok e) :
    (F.parseNumericAddress host ≠ none ∧ ∃ type address, NumericAddress type address ∧
        e.dest = type :: (address ++ portBytes port)) ∨
      (F.parseNumericAddress host = none ∧ (utf8 host).length < 256 ∧
        e.dest = atypDomainname :: UInt8.ofNat (utf8 host).length ::
          (utf8 host ++ portBytes port)) := by
  unfold new at he
  split at he
  · rename_i numeric hnum
    cases he
    refine Or.inl ⟨by rw [hnum]; simp, _, _, ?_, rfl⟩
    obtain h4 | h16 := numeric.size
    · rw [if_pos h4]
      exact Or.inl ⟨rfl, h4⟩
    · rw [if_neg (by omega)]
      exact Or.inr ⟨rfl, h16⟩
  · rename_i hnum
    split at he
    · rename_i hlen
      cases he
      exact Or.inr ⟨hnum, hlen, rfl⟩
    · cases he

theorem length_portBytes (port : Int) : (portBytes port).length = 2 := rfl

/-- A datagram to a numeric address comes back. -/
theorem deliversUdp_numeric {e : Socks5Endpoint} {packet : List UInt8} {type : UInt8}
    {address : List UInt8} {port : Int} (haddr : NumericAddress type address)
    (hdest : e.dest = type :: (address ++ portBytes port))
    (hfit : 3 + e.dest.length + packet.length < 2 ^ 31) : DeliversUdp e packet := by
  obtain ⟨b, hwrap, hb⟩ := udpWrap_ok hfit
  have hdl : e.dest.length = 3 + address.length := by
    rw [hdest, List.length_cons, List.length_append, length_portBytes]
    omega
  have hlen := length_datagram e packet
  obtain ⟨b1, hd1, -, hl1, hun⟩ := udpUnwrap_eq hb (by omega)
  have htype : (datagram e packet).getD 3 0 = type := by rw [datagram, hdest]; rfl
  have hsize : addressSize type b1 = .ok ((address.length : Int), b1) := by
    obtain ⟨rfl, h4⟩ | ⟨rfl, h16⟩ := haddr
    · rw [h4]
      rfl
    · rw [h16]
      rfl
  obtain ⟨b2, h2, -, hcontent⟩ := unwrap_at hd1 hl1
    (show (6 : Int) + address.length = (3 + e.dest.length : Nat) by omega) (by omega)
  refine ⟨b, b2, hwrap, ?_, hcontent.trans (drop_datagram e packet)⟩
  rw [hun, htype, ok_bind hsize]
  exact h2

/-- A datagram to a domain name comes back exactly when the name has at most 127 bytes. -/
theorem deliversUdp_domain {e : Socks5Endpoint} {packet name : List UInt8} {port : Int}
    (hname : name.length < 256)
    (hdest : e.dest = atypDomainname :: UInt8.ofNat name.length :: (name ++ portBytes port))
    (hfit : 3 + e.dest.length + packet.length < 2 ^ 31) :
    DeliversUdp e packet ↔ name.length ≤ 127 := by
  obtain ⟨b, hwrap, hb⟩ := udpWrap_ok hfit
  have hdl : e.dest.length = 4 + name.length := by
    rw [hdest, List.length_cons, List.length_cons, List.length_append, length_portBytes]
    omega
  have hlen := length_datagram e packet
  obtain ⟨b1, hd1, hp1, hl1, hun⟩ := udpUnwrap_eq hb (by omega)
  have htype : (datagram e packet).getD 3 0 = atypDomainname := by rw [datagram, hdest]; rfl
  obtain ⟨b2, h2, hd2, -, hl2⟩ := get_ok (b := b1) (by omega)
  have hbyte : b1.data.getD b1.position 0 = UInt8.ofNat name.length := by
    rw [hp1, hd1, datagram, hdest]
    rfl
  have hsize : addressSize atypDomainname b1 =
      .ok (1 + ByteBuffer.signed (UInt8.ofNat name.length), b2) := by
    rw [addressSize, if_neg (by decide), if_pos rfl, h2, hbyte]
    rfl
  rw [htype, ok_bind hsize, signed_ofNat hname] at hun
  constructor
  · rintro ⟨b', c, hwrap', hok, hcontent⟩
    rw [hwrap] at hwrap'
    cases hwrap'
    by_contra hlong
    rw [if_neg (by omega)] at hun
    by_cases hneg : name.length < 249
    · have herr : tryPosition b2 (6 + (1 + ((name.length : Int) - 256))) =
          .error (.illegalArgument "") := by
        rw [tryPosition, if_neg (by omega), ByteBuffer.setPosition_of_neg (by omega)]
      simp only [hun, herr] at hok
      cases hok
    · -- the payload would have to start within the header
      obtain ⟨d, hd, -, hdc⟩ := unwrap_at (hd2.trans hd1) (hl2.trans hl1)
        (show (6 : Int) + (1 + ((name.length : Int) - 256)) = (name.length - 249 : Nat) by omega)
        (by omega)
      rw [hun] at hok
      have hdc' : d = c := Except.ok.inj (hd.symm.trans hok)
      rw [hdc', hcontent] at hdc
      have hlen' := congrArg List.length hdc
      rw [List.length_drop] at hlen'
      omega
  · intro hshort
    rw [if_pos (by omega)] at hun
    obtain ⟨d, hd, -, hdc⟩ := unwrap_at (hd2.trans hd1) (hl2.trans hl1)
      (show (6 : Int) + (1 + (name.length : Int)) = (3 + e.dest.length : Nat) by omega) (by omega)
    exact ⟨b, d, hwrap, hun.trans hd, hdc.trans (drop_datagram e packet)⟩

/-- **A datagram comes back exactly when it fits a buffer and the endpoint is numeric or named in at
most 127 bytes.** -/
theorem deliversUdp_iff {F : AddressFormat} {host : Text} {port : Int} {e : Socks5Endpoint}
    (he : new F host port = .ok e) {packet : List UInt8} (hpacket : packet.length < 2 ^ 31) :
    DeliversUdp e packet ↔ (F.parseNumericAddress host ≠ none ∨ (utf8 host).length ≤ 127) ∧
      3 + e.dest.length + packet.length < 2 ^ 31 := by
  have hdest : e.dest.length < 300 := by
    obtain ⟨-, type, address, haddr, hd⟩ | ⟨-, hlen, hd⟩ := dest_cases he
    · have : address.length ≤ 16 := by
        obtain ⟨-, h⟩ | ⟨-, h⟩ := haddr <;> omega
      rw [hd, List.length_cons, List.length_append, length_portBytes]
      omega
    · rw [hd, List.length_cons, List.length_cons, List.length_append, length_portBytes]
      omega
  by_cases hfit : 3 + e.dest.length + packet.length < 2 ^ 31
  · obtain ⟨hnum, type, address, haddr, hd⟩ | ⟨hnum, hlen, hd⟩ := dest_cases he
    · exact ⟨fun _ => ⟨Or.inl hnum, hfit⟩, fun _ => deliversUdp_numeric haddr hd hfit⟩
    · rw [deliversUdp_domain hlen hd hfit]
      constructor
      · exact fun h => ⟨Or.inr h, hfit⟩
      · rintro ⟨h | h, -⟩
        · exact absurd hnum h
        · exact h
  · constructor
    · rintro ⟨b, b', hwrap, -⟩
      rw [udpWrap_overflow (by omega) (by omega)] at hwrap
      cases hwrap
    · exact fun h => absurd h.2 hfit

end Udp

/-- **Domain names in both readers.**  A datagram of an endpoint comes back exactly when it fits a
buffer and the endpoint is numeric or named in at most 127 bytes; the message behind a bound name
is delivered exactly when that name has at most 127 bytes. -/
theorem domain_length (F : AddressFormat) (host : Text) (port : Int) (e : Socks5Endpoint)
    (he : new F host port = .ok e) (packet : List UInt8) (hpacket : packet.length < 2 ^ 31)
    (reserved : UInt8) (name boundPort message trailing : List UInt8) (hname : name.length ≤ 255)
    (hport : boundPort.length = 2) (hm : message.length < 65536) (b : ByteBuffer) (hb : Fresh b)
    (chunks : List (List UInt8))
    (hchunks : chunks.flatten = replyWith (domainReply reserved name boundPort) message ++ trailing)
    (hcap : (9 + name.length) + 2 + message.length ≤ b.data.length) :
    (DeliversUdp e packet ↔ (F.parseNumericAddress host ≠ none ∨ (utf8 host).length ≤ 127) ∧
      3 + e.dest.length + packet.length < 2 ^ 31) ∧
    (DeliversTcp b chunks name.length message ↔ name.length ≤ 127) :=
  ⟨deliversUdp_iff he hpacket, deliversTcp_iff hname hport hm hb hchunks hcap⟩

def sampleFormat : AddressFormat :=
  .only "10.0.0.0".toList ⟨[10, 0, 0, 0], by decide⟩ (by decide)
    (List.all_eq_true.mp (by decide : "10.0.0.0".toList.all isAddressChar = true))

/-- A name of one byte, for both readers. -/
theorem domain_length_short : ∃ e b, new sampleFormat ['a'] 53 = .ok e ∧
    ByteBuffer.allocate 13 = .ok b ∧ DeliversUdp e [7] ∧
    DeliversTcp b [[5, 0, 5, 0, 0, 3, 1, 97], [0, 53, 0, 1, 7]] 1 [7] := by
  obtain ⟨b, hb, hlen, hpos, hlim, -⟩ := ByteBuffer.allocate_ok (n := 13)
  have he : new sampleFormat ['a'] 53 = .ok ⟨[3, 1, 97, 0, 53]⟩ := by decide +kernel
  have h := domain_length sampleFormat ['a'] 53 ⟨[3, 1, 97, 0, 53]⟩ he [7] (by decide) 0 [97] [0, 53]
    [7] [] (by decide) rfl (by decide) b ⟨hpos, by omega⟩
    [[5, 0, 5, 0, 0, 3, 1, 97], [0, 53, 0, 1, 7]] (by decide +kernel) (by rw [hlen]; decide)
  have hname : (utf8 ['a']).length ≤ 127 := by decide +kernel
  exact ⟨_, b, he, hb, h.1.mpr ⟨Or.inr hname, by decide⟩, h.2.mpr (by decide)⟩

/-- A name of 128 bytes is accepted by the constructor, and its datagrams do not come back. -/
theorem domain_length_long : ∃ e, new sampleFormat (List.replicate 128 'a') 53 = .ok e ∧
    ¬DeliversUdp e [7] := by
  have hlen : (utf8 (List.replicate 128 'a')).length = 128 := by decide +kernel
  have hnum : sampleFormat.parseNumericAddress (List.replicate 128 'a') = none := by decide +kernel
  have he : new sampleFormat (List.replicate 128 'a') 53 =
      .ok ⟨atypDomainname :: UInt8.ofNat (utf8 (List.replicate 128 'a')).length ::
        (utf8 (List.replicate 128 'a') ++ portBytes 53)⟩ := by
    rw [new, hnum]
    exact if_pos (by omega)
  refine ⟨_, he, fun h => ?_⟩
  obtain ⟨h | h, -⟩ := (deliversUdp_iff he (by decide)).mp h
  · exact h hnum
  · omega

end Socks5Endpoint

end SsAndroid
