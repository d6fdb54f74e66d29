import SsAndroid.Net.Socks5Endpoint

/-!
# Unwrapping TCP replies

`tcpUnwrap` moves position, limit and mark of one buffer back and forth while the bytes arrive in
pieces that need not respect any field.  The argument keeps apart what the stream holds
(`Received S`) and where the buffer stands (`Ahead`, `AtMessage`): every step either reads on in
`S` or finds its end.

**`tcpUnwrap_message`**: a reply with an IPv4 or IPv6 address is unwrapped whatever the pieces, as
long as the receive buffer can be allocated; a stream that ends early is reported as such.
-/

namespace SsAndroid

namespace Socks5Endpoint

/-! ### Steps of the TCP reader -/

section Steps

variable {S : List UInt8} {s : Stream} {fuel : Nat}

theorem bind_of_ok {α β : Type} {m : Run α} {f : α → Run β} {s s' : Stream} {a : α}
    (h : m s = some (.ok (a, s'))) : (m >>= f) s = f a s' := by
  show (m s).bind _ = _
  rw [h]
  rfl

theorem bind_of_error {α β : Type} {m : Run α} {f : α → Run β} {s : Stream} {e : Exn}
    (h : m s = some (.error e)) : (m >>= f) s = some (.error e) := by
  show (m s).bind _ = _
  rw [h]
  rfl

theorem modifyBuffer_of_ok {f : ByteBuffer → Except Exn ByteBuffer} {s : Stream} {b : ByteBuffer}
    (h : f s.buffer = .ok b) : modifyBuffer f s = some (.ok ((), { s with buffer := b })) := by
  simp only [modifyBuffer, onBuffer, h, Except.map]

theorem readBytes_ok (hr : s.Received S) {till : Nat} (hS : till ≤ S.length)
    (hlim : till ≤ s.buffer.limit) (hf : s.rounds < fuel) :
    ∃ s', readBytes fuel till s = some (.ok ((), s')) ∧ s'.Received S ∧ s.Ahead s' ∧
      till ≤ s'.buffer.position := by
  unfold readBytes
  by_cases hpos : (s.buffer.position : Int) ≥ till
  · rw [if_pos hpos]
    exact ⟨s, rfl, hr, Stream.Ahead.refl s, by omega⟩
  · rw [if_neg hpos]
    obtain ⟨s', hs', hr', hahead, hge⟩ :=
      Stream.readLoop_returns hS fuel s hr (by omega) hlim hf
    rw [hs']
    refine ⟨s', ?_, hr', hahead, hge⟩
    exact if_neg (by omega)

theorem readBytes_eof (hr : s.Received S) {till : Nat} (hS : S.length < till)
    (hlim : till ≤ s.buffer.limit) (hf : s.rounds < fuel) :
    ∃ message, readBytes fuel till s = some (.error (.eof message)) := by
  have hle := hr.position_le
  unfold readBytes
  rw [if_neg (by omega)]
  obtain ⟨s', hs', hlt⟩ := Stream.readLoop_ends hS fuel s hr hlim hf
  rw [hs']
  exact ⟨_, if_pos (by omega)⟩

/-- The bytes in front of the position are those of the stream. -/
theorem getD_of_received (hr : s.Received S) {i : Nat} (hi : i < s.buffer.position) :
    s.buffer.data.getD i 0 = S.getD i 0 := by
  have h1 := Nat.le_trans s.buffer.position_le s.buffer.limit_le
  rw [← hr, List.getD_eq_getElem?_getD, List.getD_eq_getElem?_getD,
    List.getElem?_append_left (by rw [List.length_take]; omega), List.getElem?_take, if_pos hi]

theorem read_ok (hr : s.Received S) {i : Nat} (hS : i < S.length) (hlim : i < s.buffer.limit)
    (hf : s.rounds < fuel) :
    ∃ s', read fuel i s = some (.ok (S.getD i 0, s')) ∧ s'.Received S ∧ s.Ahead s' ∧
      i < s'.buffer.position := by
  obtain ⟨s', hs', hr', hahead, hge⟩ :=
    readBytes_ok hr (show i + 1 ≤ S.length from hS) hlim hf
  refine ⟨s', ?_, hr', hahead, hge⟩
  have hs'' : readBytes fuel ((i : Int) + 1) s = some (.ok ((), s')) := by
    exact_mod_cast hs'
  rw [read, bind_of_ok hs'', onBuffer, ByteBuffer.getAt]
  have hl := s'.buffer.position_le
  rw [if_neg (by omega), Int.toNat_natCast, getD_of_received hr' (by omega)]
  rfl

theorem read_eof (hr : s.Received S) {i : Nat} (hS : S.length ≤ i) (hlim : i < s.buffer.limit)
    (hf : s.rounds < fuel) : ∃ message, read fuel i s = some (.error (.eof message)) := by
  obtain ⟨message, h⟩ :=
    readBytes_eof hr (show S.length < i + 1 by omega) hlim hf
  have h' : readBytes fuel ((i : Int) + 1) s = some (.error (.eof message)) := by
    exact_mod_cast h
  exact ⟨message, by rw [read, bind_of_error h']⟩

/-- A byte that is checked: it is the expected one, or the stream ends in front of it. -/
theorem expect_cases (hr : s.Received S) (i : Nat) {value : UInt8} (message : String)
    (hS : ∀ x, S[i]? = some x → x = value) (hlim : i < s.buffer.limit) (hf : s.rounds < fuel) :
    (S.length ≤ i ∧ ∃ eof, expect fuel i value message s = some (.error (.eof eof))) ∨
      ∃ s', expect fuel i value message s = some (.ok ((), s')) ∧ s'.Received S ∧ s.Ahead s' := by
  by_cases hi : S.length ≤ i
  · obtain ⟨eof, h⟩ := read_eof hr hi hlim hf
    exact Or.inl ⟨hi, eof, by rw [expect, bind_of_error h]⟩
  · obtain ⟨s', hs', hr', hahead, -⟩ := read_ok hr (Nat.lt_of_not_le hi) hlim hf
    refine Or.inr ⟨s', ?_, hr', hahead⟩
    have hval : S.getD i 0 = value := by
      rw [List.getD_eq_getElem _ _ (Nat.lt_of_not_le hi)]
      exact hS _ (List.getElem?_eq_getElem _)
    rw [expect, bind_of_ok hs', hval, if_neg (by simp)]
    rfl

/-- A byte that is checked, whatever the stream holds: only the expected one is passed. -/
theorem expect_passes (hr : s.Received S) (i : Nat) (value : UInt8) (message : String)
    (hlim : i < s.buffer.limit) (hf : s.rounds < fuel) :
    (∃ exn, expect fuel i value message s = some (.error exn)) ∨
      (S[i]? = some value ∧
        ∃ s', expect fuel i value message s = some (.ok ((), s')) ∧ s'.Received S ∧ s.Ahead s') := by
  by_cases hi : S.length ≤ i
  · obtain ⟨eof, h⟩ := read_eof hr hi hlim hf
    exact Or.inl ⟨_, by rw [expect, bind_of_error h]⟩
  · have hlt := Nat.lt_of_not_le hi
    obtain ⟨s', hs', hr', hahead, -⟩ := read_ok hr hlt hlim hf
    rw [expect, bind_of_ok hs', List.getD_eq_getElem _ _ hlt, List.getElem?_eq_getElem hlt]
    by_cases hval : S[i] = value
    · refine Or.inr ⟨congrArg some hval, s', ?_, hr', hahead⟩
      rw [if_neg (by simpa using hval)]
      rfl
    · rw [if_pos hval]
      exact Or.inl ⟨_, rfl⟩

/-- **No stream is unwrapped that does not begin with the two replies of a server that accepts.** -/
theorem tcpUnwrap_refused (hr : s.Received S)
    (hS : ¬(S[0]? = some socksVersion ∧ S[1]? = some 0 ∧ S[2]? = some socksVersion ∧ S[3]? = some 0))
    (hlim : 4 ≤ s.buffer.limit) (hf : s.rounds < fuel) :
    ∃ exn, tcpUnwrap fuel s = some (.error exn) := by
  unfold tcpUnwrap
  obtain ⟨exn, h0⟩ | ⟨hv0, s1, h0, hr1, ha1⟩ := expect_passes hr 0 socksVersion
    "Unsupported SOCKS version " (by omega) hf
  · exact ⟨exn, by rw [bind_of_error h0]⟩
  have hl1 := ha1.limit
  have hf1 := Nat.lt_of_le_of_lt ha1.rounds hf
  obtain ⟨exn, h1⟩ | ⟨hv1, s2, h1, hr2, ha2⟩ := expect_passes hr1 1 0
    "Unsupported authentication " (by omega) hf1
  · exact ⟨exn, by rw [bind_of_ok h0, bind_of_error h1]⟩
  have hl2 := ha2.limit
  have hf2 := Nat.lt_of_le_of_lt ha2.rounds hf1
  obtain ⟨exn, h2⟩ | ⟨hv2, s3, h2, hr3, ha3⟩ := expect_passes hr2 2 socksVersion
    "Unsupported SOCKS version " (by omega) hf2
  · exact ⟨exn, by rw [bind_of_ok h0, bind_of_ok h1, bind_of_error h2]⟩
  have hl3 := ha3.limit
  have hf3 := Nat.lt_of_le_of_lt ha3.rounds hf2
  obtain ⟨exn, h3⟩ | ⟨hv3, -⟩ := expect_passes hr3 3 0
    "SOCKS5 server returned error " (by omega) hf3
  · exact ⟨exn, by rw [bind_of_ok h0, bind_of_ok h1, bind_of_ok h2, bind_of_error h3]⟩
  · exact absurd ⟨hv0, hv1, hv2, hv3⟩ hS

/-- The four bytes in front of the reserved one, in a stream that has them as they should be. -/
structure Accepted (S : List UInt8) : Prop where
  version : ∀ x, S[0]? = some x → x = socksVersion
  method : ∀ x, S[1]? = some x → x = 0
  replyVersion : ∀ x, S[2]? = some x → x = socksVersion
  status : ∀ x, S[3]? = some x → x = 0

/-- The checks pass, or the stream ends within them. -/
theorem tcpUnwrap_header (hr : s.Received S) (hS : Accepted S) (hlim : 4 ≤ s.buffer.limit)
    (hf : s.rounds < fuel) :
    (S.length < 4 ∧ ∃ eof, tcpUnwrap fuel s = some (.error (.eof eof))) ∨
      ∃ s', tcpUnwrap fuel s = (dataOffset fuel >>= receive fuel) s' ∧ s'.Received S ∧
        s.Ahead s' := by
  unfold tcpUnwrap
  obtain ⟨hlen, eof, h0⟩ | ⟨s1, h0, hr1, ha1⟩ := expect_cases hr 0
    "Unsupported SOCKS version " hS.version (by omega) hf
  · exact Or.inl ⟨by omega, eof, by rw [bind_of_error h0]⟩
  have hl1 := ha1.limit
  have hf1 := Nat.lt_of_le_of_lt ha1.rounds hf
  obtain ⟨hlen, eof, h1⟩ | ⟨s2, h1, hr2, ha2⟩ := expect_cases hr1 1
    "Unsupported authentication " hS.method (by omega) hf1
  · exact Or.inl ⟨by omega, eof, by rw [bind_of_ok h0, bind_of_error h1]⟩
  have hl2 := ha2.limit
  have hf2 := Nat.lt_of_le_of_lt ha2.rounds hf1
  obtain ⟨hlen, eof, h2⟩ | ⟨s3, h2, hr3, ha3⟩ := expect_cases hr2 2
    "Unsupported SOCKS version " hS.replyVersion (by omega) hf2
  · exact Or.inl ⟨by omega, eof, by rw [bind_of_ok h0, bind_of_ok h1, bind_of_error h2]⟩
  have hl3 := ha3.limit
  have hf3 := Nat.lt_of_le_of_lt ha3.rounds hf2
  obtain ⟨hlen, eof, h3⟩ | ⟨s4, h3, hr4, ha4⟩ := expect_cases hr3 3
    "SOCKS5 server returned error " hS.status (by omega) hf3
  · exact Or.inl ⟨by omega, eof,
      by rw [bind_of_ok h0, bind_of_ok h1, bind_of_ok h2, bind_of_error h3]⟩
  · exact Or.inr ⟨s4, by rw [bind_of_ok h0, bind_of_ok h1, bind_of_ok h2, bind_of_ok h3], hr4,
      ((ha1.trans ha2).trans ha3).trans ha4⟩

/-- The offset behind an IPv4 or IPv6 address. -/
theorem dataOffset_numeric (hr : s.Received S) (hS : 5 < S.length) (hlim : 5 < s.buffer.limit)
    (hf : s.rounds < fuel) {offset : Nat} (htype : (S.getD 5 0 = atypIpv4 ∧ offset = 12) ∨
      (S.getD 5 0 = atypIpv6 ∧ offset = 24)) :
    ∃ s', dataOffset fuel s = some (.ok ((offset : Int), s')) ∧ s'.Received S ∧ s.Ahead s' := by
  obtain ⟨s', hs', hr', hahead, -⟩ := read_ok hr hS hlim hf
  refine ⟨s', ?_, hr', hahead⟩
  rw [dataOffset, bind_of_ok hs']
  obtain ⟨ht, rfl⟩ | ⟨ht, rfl⟩ := htype
  · rw [ht, if_pos rfl]
    rfl
  · rw [ht, if_neg (by decide), if_neg (by decide), if_pos rfl]
    rfl

/-- The offset behind a domain name, as the reader computes it. -/
theorem dataOffset_domain (hr : s.Received S) (hS : 6 < S.length) (hlim : 6 < s.buffer.limit)
    (hf : s.rounds < fuel) (htype : S.getD 5 0 = atypDomainname) :
    ∃ s', dataOffset fuel s = some (.ok (1 + ByteBuffer.signed (S.getD 6 0) + 8, s')) ∧
      s'.Received S ∧ s.Ahead s' ∧ 6 < s'.buffer.position := by
  obtain ⟨s1, hs1, hr1, ha1, -⟩ := read_ok hr (i := 5) (by omega) (by omega) hf
  have hl1 := ha1.limit
  obtain ⟨s2, hs2, hr2, ha2, hp2⟩ := read_ok hr1 hS (by omega) (Nat.lt_of_le_of_lt ha1.rounds hf)
  refine ⟨s2, ?_, hr2, ha1.trans ha2, hp2⟩
  rw [dataOffset, bind_of_ok hs1, htype, if_neg (by decide), if_pos rfl, bind_of_ok hs2]
  rfl

/-- The length that stands at an offset of the stream. -/
def lengthAt (S : List UInt8) (offset : Nat) : Nat :=
  (S.getD offset 0).toNat * 256 + (S.getD (offset + 1) 0).toNat

/-- The buffer when the length has been read: the bytes that came with it stay in front of the
position, the limit is the end of the message, the mark its start. -/
structure AtMessage (offset length : Nat) (s1 s2 : Stream) : Prop where
  data : s2.buffer.data = s1.buffer.data
  chunks : s2.chunks = s1.chunks
  limit : s2.buffer.limit = offset + 2 + length
  position : s2.buffer.position = min s1.buffer.position (offset + 2 + length)
  mark : s2.buffer.mark = some (offset + 2)

/-- Up to the length, `receive` moves the bounds of the buffer back and forth. -/
theorem receive_eq (hr : s.Received S) (offset : Nat) (hS : offset + 2 ≤ S.length)
    (hlim : offset + 2 ≤ s.buffer.limit) (hf : s.rounds < fuel) :
    ∃ s1, s1.Received S ∧ s.Ahead s1 ∧ offset + 2 ≤ s1.buffer.position ∧
      ((s.buffer.data.length < offset + 2 + lengthAt S offset ∧
          ∃ message, receive fuel offset s = some (.error (.io message))) ∨
        ∃ s2, AtMessage offset (lengthAt S offset) s1 s2 ∧
          receive fuel offset s = (readBytes fuel (offset + 2 + lengthAt S offset : Nat) >>=
            fun _ => modifyBuffer ByteBuffer.reset) s2) := by
  obtain ⟨s1, h1, hr1, ha1, hge⟩ := readBytes_ok hr hS hlim hf
  refine ⟨s1, hr1, ha1, hge, ?_⟩
  have h1' : readBytes fuel ((offset : Int) + 2) s = some (.ok ((), s1)) := by exact_mod_cast h1
  have hcap := Nat.le_trans s1.buffer.position_le s1.buffer.limit_le
  -- the limit stores the position
  obtain ⟨b2, h2, hd2, hp2, hl2, -⟩ := ByteBuffer.setLimit_ok hcap
  obtain ⟨b3, h3, hd3, hp3, hl3, -⟩ :=
    ByteBuffer.setPosition_ok (b := b2) (n := offset) (by omega)
  have hrem : 2 ≤ b3.remaining := by rw [ByteBuffer.remaining]; omega
  have hlen : b3.getUShort = .ok (lengthAt S offset, b3.advance 2 hrem) := by
    rw [ByteBuffer.getUShort, dif_pos hrem, hd3, hd2, hp3, getD_of_received hr1 (by omega),
      getD_of_received hr1 (by omega)]
    rfl
  have hstep : receive fuel offset s = (do
      if offset + 2 + lengthAt S offset > b3.data.length then
        throwIO ("Buffer too small to contain the message: " ++ toString (lengthAt S offset) ++
          " > " ++ toString (b3.data.length - (offset + 2)))
      modifyBuffer fun b => .ok b.setMark
      modifyBuffer fun b => b.setPosition b.limit
      modifyBuffer fun c => c.setLimit (offset + 2 + lengthAt S offset : Nat)
      readBytes fuel (offset + 2 + lengthAt S offset : Nat)
      modifyBuffer ByteBuffer.reset) ⟨b3.advance 2 hrem, s1.chunks⟩ := by
    rw [receive, bind_of_ok h1', bind_of_ok (modifyBuffer_of_ok h2),
      bind_of_ok (modifyBuffer_of_ok h3)]
    have hget : onBuffer ByteBuffer.getUShort ⟨b3, s1.chunks⟩ =
        some (.ok (lengthAt S offset, ⟨b3.advance 2 hrem, s1.chunks⟩)) := by
      simp only [onBuffer, hlen]
    rw [bind_of_ok hget, bind_of_ok (m := onBuffer fun b => .ok (b, b)) rfl]
    simp only [ByteBuffer.advance, ByteBuffer.capacity, hp3]
  rw [hstep]
  have hcap3 : b3.data.length = s.buffer.data.length := by rw [hd3, hd2, ha1.capacity]
  by_cases hfit : offset + 2 + lengthAt S offset > b3.data.length
  · refine Or.inl ⟨by omega, ?_⟩
    rw [if_pos hfit]
    exact ⟨_, bind_of_error rfl⟩
  · right
    rw [if_neg hfit]
    obtain ⟨b5, h5, hd5, hp5, hl5, hm5⟩ :=
      ByteBuffer.setPosition_ok (b := (b3.advance 2 hrem).setMark) (n := b3.limit) (Nat.le_refl _)
    have hd5' : b5.data = b3.data := hd5
    obtain ⟨b6, h6, hd6, hp6, hl6, hm6⟩ :=
      ByteBuffer.setLimit_ok (b := b5) (n := offset + 2 + lengthAt S offset) (by rw [hd5']; omega)
    refine ⟨⟨b6, s1.chunks⟩, ⟨?_, rfl, hl6, ?_, ?_⟩, ?_⟩
    · show b6.data = s1.buffer.data
      rw [hd6, hd5', hd3, hd2]
    · show b6.position = _
      rw [hp6, hp5, hl3, hl2]
    · show b6.mark = _
      have hm : ((b3.advance 2 hrem).setMark).mark = some (offset + 2) := by
        show some (b3.position + 2) = _
        rw [hp3]
      rw [hm6, hm5, hm]
      have hle : offset + 2 ≤ b3.limit := by rw [hl3, hl2]; exact hge
      simp [hle]
    · show (modifyBuffer (fun b => .ok b.setMark) >>= _) _ = _
      rw [bind_of_ok (modifyBuffer_of_ok (f := fun b => .ok b.setMark) rfl),
        bind_of_ok (modifyBuffer_of_ok h5), bind_of_ok (modifyBuffer_of_ok h6)]

theorem received_take (hr : s.Received S) {n : Nat} (hn : n ≤ s.buffer.position) :
    s.buffer.data.take n = S.take n := by
  have hle := Nat.le_trans s.buffer.position_le s.buffer.limit_le
  have hlen : n ≤ (s.buffer.data.take s.buffer.position).length := by
    rw [List.length_take]
    omega
  rw [← hr, List.take_append_of_le_length hlen, List.take_take, Nat.min_eq_left hn]

/-- The message is there: what `reset` leaves is the message. -/
theorem reset_ok {s : Stream} {m : Nat} (hmark : s.buffer.mark = some m) (hm : m ≤ s.buffer.limit) :
    ∃ s', modifyBuffer ByteBuffer.reset s = some (.ok ((), s')) ∧ s'.buffer.data = s.buffer.data ∧
      s'.buffer.position = m ∧ s'.buffer.limit = s.buffer.limit := by
  obtain ⟨b, hb, hd, hp, hl, -⟩ := ByteBuffer.setPosition_ok hm
  have hreset : s.buffer.reset = .ok b := by rw [ByteBuffer.reset, hmark]; exact hb
  exact ⟨_, modifyBuffer_of_ok hreset, hd, hp, hl⟩

/-- What `AtMessage` leaves of the stream, if the message has not been read past. -/
theorem AtMessage.received {offset length : Nat} {s1 s2 : Stream}
    (h : AtMessage offset length s1 s2) (hr : s1.Received S)
    (hlt : s1.buffer.position < offset + 2 + length) : s2.Received S := by
  have hp := h.position
  rw [Stream.Received, h.data, h.chunks, hp, Nat.min_eq_left (by omega)]
  exact hr

theorem AtMessage.rounds {offset length : Nat} {s1 s2 : Stream}
    (h : AtMessage offset length s1 s2) : s2.rounds = s1.rounds := by
  rw [Stream.rounds, h.chunks, Stream.rounds]

/-- **The message behind its length is delivered**, if all of it is in the stream and the buffer has
room for it. -/
theorem receive_ok (hr : s.Received S) {offset : Nat} (hS : offset + 2 + lengthAt S offset ≤ S.length)
    (hlim : s.buffer.limit = s.buffer.data.length)
    (hcap : offset + 2 + lengthAt S offset ≤ s.buffer.data.length) (hf : s.rounds < fuel) :
    ∃ s', receive fuel offset s = some (.ok ((), s')) ∧ s'.buffer.position = offset + 2 ∧
      s'.buffer.limit = offset + 2 + lengthAt S offset ∧
      s'.buffer.content = (S.take (offset + 2 + lengthAt S offset)).drop (offset + 2) := by
  obtain ⟨s1, hr1, ha1, hge, ⟨hsmall, -⟩ | ⟨s2, hat, heq⟩⟩ :=
    receive_eq hr offset (by omega) (by omega) hf
  · omega
  -- all of the message is in the buffer, be it that it came with the header or is read now
  obtain ⟨s3, h3, hdata, hlim3, hmark⟩ : ∃ s3,
      readBytes fuel (offset + 2 + lengthAt S offset : Nat) s2 = some (.ok ((), s3)) ∧
      s3.buffer.data.take (offset + 2 + lengthAt S offset) =
        S.take (offset + 2 + lengthAt S offset) ∧
      s3.buffer.limit = offset + 2 + lengthAt S offset ∧ s3.buffer.mark = some (offset + 2) := by
    by_cases hover : offset + 2 + lengthAt S offset ≤ s1.buffer.position
    · refine ⟨s2, ?_, ?_, hat.limit, hat.mark⟩
      · have hp := hat.position
        rw [readBytes, if_pos (by omega)]
      · rw [hat.data]
        exact received_take hr1 hover
    · have hr2 := hat.received hr1 (by omega)
      have hrounds := hat.rounds
      have hrounds1 := ha1.rounds
      obtain ⟨s3, h3, hr3, ha3, hge3⟩ :=
        readBytes_ok hr2 hS (by rw [hat.limit]) (by omega : s2.rounds < fuel)
      exact ⟨s3, h3, received_take hr3 hge3, ha3.limit.trans hat.limit, ha3.mark.trans hat.mark⟩
  obtain ⟨s4, h4, hd4, hp4, hl4⟩ := reset_ok hmark (by omega)
  refine ⟨s4, by rw [heq, bind_of_ok h3, h4], hp4, hl4.trans hlim3, ?_⟩
  rw [ByteBuffer.content, hl4, hlim3, hp4, hd4, hdata]

/-- A stream that ends within the length or the message is reported. -/
theorem receive_eof (hr : s.Received S) (offset : Nat)
    (hlim : s.buffer.limit = s.buffer.data.length) (hf : s.rounds < fuel)
    (hcap : offset + 2 ≤ s.buffer.data.length)
    (hS : S.length < offset + 2 ∨ (S.length < offset + 2 + lengthAt S offset ∧
      offset + 2 + lengthAt S offset ≤ s.buffer.data.length)) :
    ∃ eof, receive fuel offset s = some (.error (.eof eof)) := by
  by_cases hshort : S.length < offset + 2
  · obtain ⟨eof, h⟩ := readBytes_eof hr hshort (by omega) hf
    have h' : readBytes fuel ((offset : Int) + 2) s = some (.error (.eof eof)) := by
      exact_mod_cast h
    exact ⟨eof, by rw [receive, bind_of_error h']⟩
  · obtain hS | ⟨hS, hfit⟩ := hS
    · exact absurd hS hshort
    obtain ⟨s1, hr1, ha1, hge, ⟨hsmall, -⟩ | ⟨s2, hat, heq⟩⟩ :=
      receive_eq hr offset (by omega) (by omega) hf
    · omega
    have hle := hr1.position_le
    have hr2 := hat.received hr1 (by omega)
    have hrounds := hat.rounds
    have hrounds1 := ha1.rounds
    obtain ⟨eof, h⟩ := readBytes_eof hr2 hS (by rw [hat.limit]) (by omega : s2.rounds < fuel)
    exact ⟨eof, by rw [heq, bind_of_error h]⟩

end Steps

/-! ### TCP replies -/

/-- A reply up to the bound port: method selection, then version, status, a reserved byte, the
address type, the address and the port. -/
def reply (reserved type : UInt8) (address port : List UInt8) : List UInt8 :=
  [socksVersion, 0, socksVersion, 0, reserved, type] ++ (address ++ port)

/-- A reply followed by a message with its length. -/
def replyWith (header message : List UInt8) : List UInt8 :=
  header ++ (ByteBuffer.shortBytes message.length ++ message)

theorem accepted_of_prefix {S : List UInt8} {reserved type : UInt8} {address port rest : List UInt8}
    (h : S <+: reply reserved type address port ++ rest) : Accepted S := by
  have hget : ∀ (i : Nat) (v x : UInt8), (reply reserved type address port ++ rest)[i]? = some v →
      S[i]? = some x → x = v := by
    intro i v x hv hx
    obtain ⟨t, ht⟩ := h
    have hi := (List.getElem?_eq_some_iff.mp hx).1
    rw [← ht, List.getElem?_append_left hi, hx] at hv
    exact Option.some.inj hv
  exact ⟨fun x => hget 0 _ x rfl, fun x => hget 1 _ x rfl, fun x => hget 2 _ x rfl,
    fun x => hget 3 _ x rfl⟩

theorem shortBytes_value {n : Nat} (h : n < 65536) :
    (UInt8.ofNat (n / 256)).toNat * 256 + (UInt8.ofNat n).toNat = n := by
  rw [UInt8.toNat_ofNat', UInt8.toNat_ofNat']
  omega

/-- The length in front of a message is its length. -/
theorem lengthAt_replyWith {header message rest S : List UInt8} (hm : message.length < 65536)
    (hS : S <+: replyWith header message ++ rest) (hlen : header.length + 2 ≤ S.length) :
    lengthAt S header.length = message.length := by
  obtain ⟨t, ht⟩ := hS
  have hget : ∀ i, i < S.length → S.getD i 0 = (replyWith header message ++ rest).getD i 0 := by
    intro i hi
    rw [← ht, List.getD_append _ _ _ _ hi]
  rw [lengthAt, hget _ (by omega), hget _ (by omega), replyWith, ByteBuffer.shortBytes,
    List.append_assoc, List.getD_append_right _ _ _ _ (Nat.le_refl _),
    List.getD_append_right _ _ _ _ (Nat.le_add_right _ _), Nat.sub_self,
    Nat.add_sub_cancel_left]
  exact shortBytes_value hm


/-- Where the message stands. -/
theorem drop_take_replyWith (header message trailing : List UInt8) :
    ((replyWith header message ++ trailing).take (header.length + 2 + message.length)).drop
      (header.length + 2) = message := by
  have hsplit : replyWith header message ++ trailing =
      (header ++ ByteBuffer.shortBytes message.length) ++ (message ++ trailing) := by
    simp only [replyWith, List.append_assoc]
  have htwo : (header ++ ByteBuffer.shortBytes message.length).length = header.length + 2 := by
    rw [List.length_append]
    rfl
  rw [hsplit, ← htwo, List.drop_take, List.drop_left, Nat.add_sub_cancel_left, List.take_left]

/-- A buffer as it is allocated. -/
structure Fresh (b : ByteBuffer) : Prop where
  position : b.position = 0
  limit : b.limit = b.data.length

theorem Fresh.received {b : ByteBuffer} (h : Fresh b) (chunks : List (List UInt8)) :
    Stream.Received chunks.flatten ⟨b, chunks⟩ := by
  rw [Stream.Received, h.position]
  rfl

/-- An IPv4 or IPv6 address with its type. -/
def NumericAddress (type : UInt8) (address : List UInt8) : Prop :=
  (type = atypIpv4 ∧ address.length = 4) ∨ (type = atypIpv6 ∧ address.length = 16)

section Numeric

variable {reserved type : UInt8} {address port message : List UInt8} {b : ByteBuffer}
  {chunks : List (List UInt8)} {fuel : Nat}

theorem length_reply (reserved type : UInt8) (address port : List UInt8) :
    (reply reserved type address port).length = 6 + address.length + port.length := by
  simp only [reply, List.length_append, List.length_cons, List.length_nil]
  omega

theorem length_replyWith (header message : List UInt8) :
    (replyWith header message).length = header.length + 2 + message.length := by
  simp only [replyWith, ByteBuffer.shortBytes, List.length_append, List.length_cons,
    List.length_nil]
  omega

theorem length_whole (header message trailing : List UInt8) :
    (replyWith header message ++ trailing).length =
      header.length + 2 + message.length + trailing.length := by
  rw [List.length_append, length_replyWith]

/-- The offset of the length is that behind the bound port. -/
theorem offset_numeric (haddr : NumericAddress type address) (hport : port.length = 2)
    {S rest : List UInt8} (hS : S <+: replyWith (reply reserved type address port) message ++ rest)
    (hlen : 5 < S.length) :
    (S.getD 5 0 = atypIpv4 ∧ (reply reserved type address port).length = 12) ∨
      (S.getD 5 0 = atypIpv6 ∧ (reply reserved type address port).length = 24) := by
  obtain ⟨t, ht⟩ := hS
  have hget : S.getD 5 0 = type := by
    have h5 : (S ++ t).getD 5 0 = type := by rw [ht]; rfl
    rwa [List.getD_append _ _ _ _ hlen] at h5
  rw [length_reply, hget, hport]
  obtain ⟨ht, hl⟩ | ⟨ht, hl⟩ := haddr
  · exact Or.inl ⟨ht, by omega⟩
  · exact Or.inr ⟨ht, by omega⟩

/-- Behind the first bytes of a whole reply, in a buffer that takes them. -/
theorem tcpUnwrap_whole (hb : Fresh b) {trailing : List UInt8}
    (hchunks : chunks.flatten = replyWith (reply reserved type address port) message ++ trailing)
    (hcap : 4 ≤ b.data.length) (hf : Stream.rounds ⟨b, chunks⟩ < fuel) :
    ∃ s, tcpUnwrap fuel ⟨b, chunks⟩ = (dataOffset fuel >>= receive fuel) s ∧
      s.Received (replyWith (reply reserved type address port) message ++ trailing) ∧
      s.buffer.limit = b.data.length ∧ s.buffer.data.length = b.data.length ∧ s.rounds < fuel := by
  have hr := hb.received chunks
  rw [hchunks] at hr
  have hlen := length_whole (reply reserved type address port) message trailing
  have hreply := length_reply reserved type address port
  have hbl := hb.limit
  have hacc : Accepted (replyWith (reply reserved type address port) message ++ trailing) := by
    rw [replyWith, List.append_assoc]
    exact accepted_of_prefix (List.prefix_refl _)
  obtain ⟨hlt, -⟩ | ⟨s, h, hr, ha⟩ := tcpUnwrap_header hr hacc (by show 4 ≤ b.limit; omega) hf
  · omega
  exact ⟨s, h, hr, ha.limit.trans hbl, ha.capacity, Nat.lt_of_le_of_lt ha.rounds hf⟩

/-- A whole reply with a numeric address is unwrapped. -/
theorem tcpUnwrap_ok (haddr : NumericAddress type address) (hport : port.length = 2)
    (hm : message.length < 65536) (hb : Fresh b) {trailing : List UInt8}
    (hchunks : chunks.flatten = replyWith (reply reserved type address port) message ++ trailing)
    (hcap : (reply reserved type address port).length + 2 + message.length ≤ b.data.length)
    (hf : Stream.rounds ⟨b, chunks⟩ < fuel) :
    ∃ s', tcpUnwrap fuel ⟨b, chunks⟩ = some (.ok ((), s')) ∧ s'.buffer.content = message := by
  have hpre := List.prefix_refl (replyWith (reply reserved type address port) message ++ trailing)
  have hlen := length_whole (reply reserved type address port) message trailing
  have hreply := length_reply reserved type address port
  obtain ⟨s1, h1, hr1, hl1, hc1, hf1⟩ := tcpUnwrap_whole hb hchunks (by omega) hf
  obtain ⟨s2, h2, hr2, ha2⟩ := dataOffset_numeric hr1 (by omega) (by omega) hf1
    (offset_numeric haddr hport hpre (by omega))
  have hl2 := ha2.limit
  have hc2 := ha2.capacity
  have hlenAt := lengthAt_replyWith hm hpre (by omega)
  obtain ⟨s3, h3, -, -, hcontent⟩ := receive_ok hr2 (by rw [hlenAt]; omega) (by omega)
    (by rw [hlenAt]; omega) (Nat.lt_of_le_of_lt ha2.rounds hf1)
  refine ⟨s3, by rw [h1, bind_of_ok h2, h3], ?_⟩
  rw [hcontent, hlenAt, drop_take_replyWith]

/-- A reply that ends too early is reported. -/
theorem tcpUnwrap_eof (haddr : NumericAddress type address) (hport : port.length = 2)
    (hm : message.length < 65536) (hb : Fresh b)
    (hchunks : chunks.flatten <+: replyWith (reply reserved type address port) message)
    (hne : chunks.flatten ≠ replyWith (reply reserved type address port) message)
    (hcap : (reply reserved type address port).length + 2 + message.length ≤ b.data.length)
    (hf : Stream.rounds ⟨b, chunks⟩ < fuel) :
    ∃ eof, tcpUnwrap fuel ⟨b, chunks⟩ = some (.error (.eof eof)) := by
  have hr := hb.received chunks
  have hlen := length_replyWith (reply reserved type address port) message
  have hreply := length_reply reserved type address port
  have hshort : chunks.flatten.length < (replyWith (reply reserved type address port) message).length := by
    refine Nat.lt_of_le_of_ne hchunks.length_le fun heq => hne (hchunks.eq_of_length heq)
  generalize chunks.flatten = S at hr hchunks hshort
  have hbl := hb.limit
  have hpre : S <+: replyWith (reply reserved type address port) message ++ [] := by
    rwa [List.append_nil]
  have hacc : Accepted S := accepted_of_prefix hchunks
  obtain ⟨-, eof, h⟩ | ⟨s1, h1, hr1, ha1⟩ := tcpUnwrap_header hr hacc (by show 4 ≤ b.limit; omega) hf
  · exact ⟨eof, h⟩
  have hl1 : s1.buffer.limit = b.limit := ha1.limit
  have hc1 : s1.buffer.data.length = b.data.length := ha1.capacity
  have hf1 := Nat.lt_of_le_of_lt ha1.rounds hf
  by_cases hfive : S.length ≤ 5
  · obtain ⟨eof, h⟩ := read_eof hr1 hfive (by omega) hf1
    refine ⟨eof, ?_⟩
    rw [h1, dataOffset, bind_of_error (bind_of_error h)]
  obtain ⟨s2, h2, hr2, ha2⟩ := dataOffset_numeric hr1 (by omega) (by omega) hf1
    (offset_numeric haddr hport hpre (by omega))
  have hl2 := ha2.limit
  have hc2 := ha2.capacity
  obtain ⟨eof, h3⟩ := receive_eof hr2 (reply reserved type address port).length (by omega)
    (Nat.lt_of_le_of_lt ha2.rounds hf1) (by omega) (by
    by_cases hl : S.length < (reply reserved type address port).length + 2
    · exact Or.inl hl
    · rw [lengthAt_replyWith hm hpre (by omega)]
      exact Or.inr ⟨by omega, by omega⟩)
  exact ⟨eof, by rw [h1, bind_of_ok h2, h3]⟩

end Numeric

/-- **A reply with a numeric address is unwrapped however it arrives, and a reply that ends early is
reported**, in a receive buffer for `n` bytes of message that can be allocated at all. -/
theorem tcpUnwrap_message (e : Socks5Endpoint) (n : Nat) (hn : e.headerReserved + 4 + n < 2 ^ 31)
    (message : List UInt8) (hm : message.length ≤ min n 65535) (reserved type : UInt8)
    (address port : List UInt8) (haddr : NumericAddress type address) (hport : port.length = 2) :
    ∃ b, e.tcpReceiveBuffer n = .ok b ∧
      (∀ chunks trailing fuel,
        chunks.flatten = replyWith (reply reserved type address port) message ++ trailing →
        Stream.rounds ⟨b, chunks⟩ < fuel →
        ∃ s', tcpUnwrap fuel ⟨b, chunks⟩ = some (.ok ((), s')) ∧ s'.buffer.content = message) ∧
      (∀ chunks fuel, chunks.flatten <+: replyWith (reply reserved type address port) message →
        chunks.flatten ≠ replyWith (reply reserved type address port) message →
        Stream.rounds ⟨b, chunks⟩ < fuel →
        ∃ eof, tcpUnwrap fuel ⟨b, chunks⟩ = some (.error (.eof eof))) := by
  obtain ⟨b, hb, hlen, hpos, hlim, -⟩ := ByteBuffer.allocate_ok (n := e.headerReserved + 4 + n)
  have hbuf : e.tcpReceiveBuffer n = .ok b := by
    rw [tcpReceiveBuffer, ByteBuffer.toInt32_of_lt (by omega) (by omega)]
    exact_mod_cast hb
  have hfresh : Fresh b := ⟨hpos, by omega⟩
  have hcap : (reply reserved type address port).length + 2 + message.length ≤ b.data.length := by
    have h22 : 22 ≤ e.headerReserved := Nat.le_max_left _ _
    have haddr' : address.length ≤ 16 := by
      obtain ⟨-, h⟩ | ⟨-, h⟩ := haddr <;> omega
    rw [length_reply]
    omega
  refine ⟨b, hbuf, ?_, ?_⟩
  · intro chunks trailing fuel hchunks hf
    exact tcpUnwrap_ok haddr hport (by omega) hfresh hchunks hcap hf
  · intro chunks fuel hchunks hne hf
    exact tcpUnwrap_eof haddr hport (by omega) hfresh hchunks hne hcap hf

/-- A reply in five pieces, one of them empty and one reaching beyond the message. -/
theorem tcpUnwrap_message_pieces :
    ∃ b, tcpReceiveBuffer ⟨[1, 8, 8, 8, 8, 0, 53]⟩ 4 = .ok b ∧
      ∃ s', tcpUnwrap 100 ⟨b, [[5], [0, 5, 0, 0, 1], [], [10, 0, 0, 1, 0, 53, 0], [1, 7, 9]]⟩ =
        some (.ok ((), s')) ∧ s'.buffer.content = [7] := by
  obtain ⟨b, hb, hok, -⟩ := tcpUnwrap_message ⟨[1, 8, 8, 8, 8, 0, 53]⟩ 4 (by decide) [7] (by decide)
    0 1 [10, 0, 0, 1] [0, 53] (Or.inl ⟨rfl, rfl⟩) rfl
  exact ⟨b, hb, hok _ [9] 100 (by decide) (show (16 + 5 : Nat) < 100 by decide)⟩

/-- For the largest size the capacity overflows and no buffer is allocated. -/
theorem tcpReceiveBuffer_overflow :
    ¬∃ b, tcpReceiveBuffer ⟨[1, 8, 8, 8, 8, 0, 53]⟩ 2147483647 = .ok b := by
  rintro ⟨b, h⟩
  have hneg : ByteBuffer.toInt32 ((headerReserved ⟨[1, 8, 8, 8, 8, 0, 53]⟩ : Nat) + 4 + 2147483647) <
      0 := by decide
  rw [tcpReceiveBuffer, ByteBuffer.allocate, if_pos hneg] at h
  exact absurd h (by simp)

end Socks5Endpoint

end SsAndroid
