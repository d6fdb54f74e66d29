import SsAndroid.Lib.Text

/-!
# Byte buffers

`java.nio.ByteBuffer`: bytes with a position, a limit and a mark that are moved by hand, big-endian
numbers, and a channel that is read into a buffer in pieces of any size.

* every operation keeps `position ≤ limit ≤ capacity`, or throws what the platform throws;
* a `Stream` is a buffer with the pieces that are still to come; `Received S` says that what is in
  front of the position, followed by those pieces, is `S`;
* **`readLoop_returns`** and **`readLoop_ends`**: reading until a position is reached gets there if
  `S` is long enough, however it is cut, and otherwise stops at the end of `S`.
-/

namespace SsAndroid

structure ByteBuffer where
  data : List UInt8
  position : Nat
  limit : Nat
  mark : Option Nat
  position_le : position ≤ limit
  limit_le : limit ≤ data.length

namespace ByteBuffer

def capacity (b : ByteBuffer) : Nat := b.data.length

def remaining (b : ByteBuffer) : Nat := b.limit - b.position

/-- The bytes between position and limit. -/
def content (b : ByteBuffer) : List UInt8 := (b.data.take b.limit).drop b.position

/-- `allocate(capacity)`. -/
def allocate (capacity : Int) : Except Exn ByteBuffer :=
  if capacity < 0 then .error (.illegalArgument "")
  else .ok
    { data := List.replicate capacity.toNat 0
      position := 0
      limit := capacity.toNat
      mark := none
      position_le := Nat.zero_le _
      limit_le := by simp }

/-- `position(n)`; a mark behind the new position is dropped. -/
def setPosition (b : ByteBuffer) (n : Int) : Except Exn ByteBuffer :=
  if h : n < 0 ∨ n > b.limit then .error (.illegalArgument "")
  else .ok
    { b with
      position := n.toNat
      mark := b.mark.filter (fun m => m ≤ n.toNat)
      position_le := by omega }

/-- `limit(n)`; the position and the mark are pulled back behind it. -/
def setLimit (b : ByteBuffer) (n : Int) : Except Exn ByteBuffer :=
  if h : n < 0 ∨ n > b.data.length then .error (.illegalArgument "")
  else .ok
    { b with
      position := min b.position n.toNat
      limit := n.toNat
      mark := b.mark.filter (fun m => m ≤ n.toNat)
      position_le := Nat.min_le_right _ _
      limit_le := by omega }

/-- `mark()`. -/
def setMark (b : ByteBuffer) : ByteBuffer := { b with mark := some b.position }

def reset (b : ByteBuffer) : Except Exn ByteBuffer :=
  match b.mark with
  | none => .error .invalidMark
  | some m => b.setPosition m

def flip (b : ByteBuffer) : ByteBuffer where
  data := b.data
  position := 0
  limit := b.position
  mark := none
  position_le := Nat.zero_le _
  limit_le := Nat.le_trans b.position_le b.limit_le

/-- The byte at an index: `b[index]`. -/
def getAt (b : ByteBuffer) (index : Int) : Except Exn UInt8 :=
  if index < 0 ∨ index ≥ b.limit then .error .indexOutOfBounds
  else .ok (b.data.getD index.toNat 0)

/-- Move the position ahead. -/
def advance (b : ByteBuffer) (n : Nat) (h : n ≤ b.remaining) : ByteBuffer :=
  { b with position := b.position + n, position_le := by have := b.position_le; have : n ≤ b.limit - b.position := h; omega }

def get (b : ByteBuffer) : Except Exn (UInt8 × ByteBuffer) :=
  if h : 1 ≤ b.remaining then .ok (b.data.getD b.position 0, b.advance 1 h)
  else .error .bufferUnderflow

/-- `short.toUShort().toInt()`: two bytes, the high one first. -/
def getUShort (b : ByteBuffer) : Except Exn (Nat × ByteBuffer) :=
  if h : 2 ≤ b.remaining then
    .ok ((b.data.getD b.position 0).toNat * 256 + (b.data.getD (b.position + 1) 0).toNat,
      b.advance 2 h)
  else .error .bufferUnderflow

/-- Write bytes that fit at the position. -/
def store (b : ByteBuffer) (bs : List UInt8) (h : bs.length ≤ b.remaining) : ByteBuffer where
  data := b.data.take b.position ++ bs ++ b.data.drop (b.position + bs.length)
  position := b.position + bs.length
  limit := b.limit
  mark := b.mark
  position_le := by
    have := b.position_le
    have : bs.length ≤ b.limit - b.position := h
    omega
  limit_le := by
    have h1 := b.position_le
    have h2 := b.limit_le
    have h3 : bs.length ≤ b.limit - b.position := h
    simp only [List.length_append, List.length_take, List.length_drop]
    omega

def put (b : ByteBuffer) (bs : List UInt8) : Except Exn ByteBuffer :=
  if h : bs.length ≤ b.remaining then .ok (b.store bs h) else .error .bufferOverflow

/-- The two bytes of a number, as `putShort` writes them. -/
def shortBytes (n : Nat) : List UInt8 := [UInt8.ofNat (n / 256), UInt8.ofNat n]

/-- The value of a byte as `Byte` has it. -/
def signed (b : UInt8) : Int := if b.toNat < 128 then b.toNat else (b.toNat : Int) - 256

/-- The value of a 32-bit integer sum. -/
def toInt32 (n : Int) : Int := (n + 2 ^ 31) % 2 ^ 32 - 2 ^ 31

/-! ### What the operations leave -/

theorem toInt32_of_lt {n : Int} (h0 : 0 ≤ n) (h : n < 2 ^ 31) : toInt32 n = n := by
  unfold toInt32
  omega

theorem toInt32_neg {n : Int} (h : 2 ^ 31 ≤ n) (h' : n < 2 ^ 32) : toInt32 n < 0 := by
  unfold toInt32
  omega

theorem allocate_ok {n : Nat} : ∃ b, allocate n = .ok b ∧ b.data.length = n ∧ b.position = 0 ∧
    b.limit = n ∧ b.mark = none := by
  refine ⟨_, if_neg (by omega), by simp, rfl, by simp, rfl⟩

theorem setPosition_ok {b : ByteBuffer} {n : Nat} (h : n ≤ b.limit) :
    ∃ b', b.setPosition n = .ok b' ∧ b'.data = b.data ∧ b'.position = n ∧ b'.limit = b.limit ∧
      b'.mark = b.mark.filter (fun m => m ≤ n) := by
  refine ⟨_, dif_neg (by omega), rfl, by simp, rfl, by simp⟩

theorem setPosition_of_neg {b : ByteBuffer} {n : Int} (h : n < 0) :
    b.setPosition n = .error (.illegalArgument "") :=
  dif_pos (Or.inl h)

theorem setLimit_ok {b : ByteBuffer} {n : Nat} (h : n ≤ b.data.length) :
    ∃ b', b.setLimit n = .ok b' ∧ b'.data = b.data ∧ b'.position = min b.position n ∧
      b'.limit = n ∧ b'.mark = b.mark.filter (fun m => m ≤ n) := by
  refine ⟨_, dif_neg (by omega), rfl, by simp, by simp, by simp⟩

theorem put_ok {b : ByteBuffer} {bs : List UInt8} (h : bs.length ≤ b.remaining) :
    b.put bs = .ok (b.store bs h) := dif_pos h

theorem store_length (b : ByteBuffer) (bs : List UInt8) (h : bs.length ≤ b.remaining) :
    (b.store bs h).data.length = b.data.length := by
  have h1 := b.position_le
  have h2 := b.limit_le
  have h3 : bs.length ≤ b.limit - b.position := h
  simp only [store, List.length_append, List.length_take, List.length_drop]
  omega

/-- What was written stands in front of the new position. -/
theorem store_take (b : ByteBuffer) (bs : List UInt8) (h : bs.length ≤ b.remaining) :
    (b.store bs h).data.take (b.store bs h).position = b.data.take b.position ++ bs := by
  have h1 := Nat.le_trans b.position_le b.limit_le
  refine List.take_left' ?_
  simp only [List.length_append, List.length_take, store]
  omega

end ByteBuffer

/-! ### Reading a channel in pieces -/

/-- A buffer, and the pieces in which the rest of the bytes will arrive. -/
structure Stream where
  buffer : ByteBuffer
  chunks : List (List UInt8)

namespace Stream

/-- `channel.read(buffer)`: the number of bytes read, `-1` at the end.  Of a piece that does not fit
the rest stays for the next read. -/
def read (s : Stream) : Int × Stream :=
  if s.buffer.remaining = 0 then (0, s)
  else
    match s.chunks with
    | [] => (-1, s)
    | c :: rest =>
        if h : c.length ≤ s.buffer.remaining then (c.length, ⟨s.buffer.store c h, rest⟩)
        else
          (s.buffer.remaining,
            ⟨s.buffer.store (c.take s.buffer.remaining) (by simp), c.drop s.buffer.remaining :: rest⟩)

/-- `while (read() >= 0 && position() < till) wait()`, for as many rounds as there is fuel. -/
def readLoop (till : Int) : Nat → Stream → Option Stream
  | 0, _ => none
  | fuel + 1, s =>
      if s.read.1 ≥ 0 ∧ (s.read.2.buffer.position : Int) < till then readLoop till fuel s.read.2
      else some s.read.2

/-- The rounds that reading the pieces can take. -/
def rounds (s : Stream) : Nat := s.chunks.flatten.length + s.chunks.length

/-- What was read, followed by what is to come, is `S`. -/
def Received (S : List UInt8) (s : Stream) : Prop :=
  s.buffer.data.take s.buffer.position ++ s.chunks.flatten = S

/-- The bounds of the buffer are as they were, and nothing was unread. -/
structure Ahead (s s' : Stream) : Prop where
  limit : s'.buffer.limit = s.buffer.limit
  capacity : s'.buffer.data.length = s.buffer.data.length
  mark : s'.buffer.mark = s.buffer.mark
  position : s.buffer.position ≤ s'.buffer.position
  rounds : s'.rounds ≤ s.rounds

theorem Ahead.refl (s : Stream) : Ahead s s := ⟨rfl, rfl, rfl, Nat.le_refl _, Nat.le_refl _⟩

theorem Ahead.trans {s s' s'' : Stream} (h : Ahead s s') (h' : Ahead s' s'') : Ahead s s'' :=
  ⟨h'.limit.trans h.limit, h'.capacity.trans h.capacity, h'.mark.trans h.mark,
    Nat.le_trans h.position h'.position, Nat.le_trans h'.rounds h.rounds⟩

theorem Received.position_le {S : List UInt8} {s : Stream} (h : Received S s) :
    s.buffer.position ≤ S.length := by
  have h1 := Nat.le_trans s.buffer.position_le s.buffer.limit_le
  rw [← h, List.length_append, List.length_take]
  omega

/-- What one read does: it takes a piece, or finds the end. -/
theorem read_cases {S : List UInt8} {s : Stream} (h : Received S s)
    (hrem : s.buffer.remaining ≠ 0) :
    (s.read = (-1, s) ∧ s.buffer.position = S.length) ∨
      (0 ≤ s.read.1 ∧ Received S s.read.2 ∧ Ahead s s.read.2 ∧ s.read.2.rounds < s.rounds) := by
  obtain ⟨b, chunks⟩ := s
  cases chunks with
  | nil =>
    left
    refine ⟨by rw [read, if_neg hrem], ?_⟩
    have hb := Nat.le_trans b.position_le b.limit_le
    rw [← h]
    simp only [List.flatten_nil, List.append_nil, List.length_take]
    omega
  | cons c rest =>
    right
    have hS : b.data.take b.position ++ (c ++ rest.flatten) = S := h
    by_cases hc : c.length ≤ b.remaining
    · have hread : read ⟨b, c :: rest⟩ = ((c.length : Int), ⟨b.store c hc, rest⟩) := by
        rw [read, if_neg hrem]
        exact dif_pos hc
      rw [hread]
      refine ⟨by simp, ?_, ⟨rfl, b.store_length c hc, rfl, Nat.le_add_right _ _, ?_⟩, ?_⟩
      · rw [Received, ByteBuffer.store_take, List.append_assoc, hS]
      · simp only [rounds, List.flatten_cons, List.length_append, List.length_cons]
        omega
      · simp only [rounds, List.flatten_cons, List.length_append, List.length_cons]
        omega
    · have htake : (c.take b.remaining).length ≤ b.remaining := by simp
      have hread : read ⟨b, c :: rest⟩ = ((b.remaining : Int),
          ⟨b.store (c.take b.remaining) htake, c.drop b.remaining :: rest⟩) := by
        rw [read, if_neg hrem]
        exact dif_neg hc
      have hpos : 0 < b.remaining := Nat.pos_of_ne_zero hrem
      rw [hread]
      refine ⟨by simp, ?_, ⟨rfl, b.store_length _ htake, rfl, Nat.le_add_right _ _, ?_⟩, ?_⟩
      · rw [Received, ByteBuffer.store_take, List.append_assoc, List.flatten_cons,
          ← List.append_assoc (c.take b.remaining), List.take_append_drop, hS]
      · simp only [rounds, List.flatten_cons, List.length_append, List.length_cons, List.length_drop]
        omega
      · simp only [rounds, List.flatten_cons, List.length_append, List.length_cons, List.length_drop]
        omega

/-- **Reading until a position that the bytes reach gets there.** -/
theorem readLoop_returns {S : List UInt8} {till : Nat} (hS : till ≤ S.length) :
    ∀ (fuel : Nat) (s : Stream), Received S s → s.buffer.position < till →
    till ≤ s.buffer.limit → s.rounds < fuel →
    ∃ s', readLoop till fuel s = some s' ∧ Received S s' ∧ Ahead s s' ∧
      till ≤ s'.buffer.position := by
  intro fuel
  induction fuel with
  | zero => intro s _ _ _ hf; omega
  | succ fuel ih =>
    intro s hr hlt hlim hf
    have hrem : s.buffer.remaining ≠ 0 := by rw [ByteBuffer.remaining]; omega
    obtain ⟨-, hend⟩ | ⟨hnn, hr', hahead, hdec⟩ := read_cases hr hrem
    · omega
    · rw [readLoop]
      by_cases hpos : s.read.2.buffer.position < till
      · rw [if_pos ⟨hnn, by omega⟩]
        have hlim' := hahead.limit
        obtain ⟨s', hs', hr'', hahead', hge⟩ := ih s.read.2 hr' hpos (by omega) (by omega)
        exact ⟨s', hs', hr'', hahead.trans hahead', hge⟩
      · rw [if_neg (by omega)]
        exact ⟨_, rfl, hr', hahead, by omega⟩

/-- **Reading until a position that the bytes do not reach stops at their end.** -/
theorem readLoop_ends {S : List UInt8} {till : Nat} (hS : S.length < till) :
    ∀ (fuel : Nat) (s : Stream), Received S s → till ≤ s.buffer.limit → s.rounds < fuel →
    ∃ s', readLoop till fuel s = some s' ∧ s'.buffer.position < till := by
  intro fuel
  induction fuel with
  | zero => intro s _ _ hf; omega
  | succ fuel ih =>
    intro s hr hlim hf
    have hle := hr.position_le
    have hrem : s.buffer.remaining ≠ 0 := by rw [ByteBuffer.remaining]; omega
    obtain ⟨hread, -⟩ | ⟨hnn, hr', hahead, hdec⟩ := read_cases hr hrem
    · refine ⟨s, ?_, by omega⟩
      rw [readLoop, hread]
      exact if_neg (by omega)
    · have hlim' := hahead.limit
      have hle' := hr'.position_le
      rw [readLoop, if_pos ⟨hnn, by omega⟩]
      exact ih s.read.2 hr' (by omega) (by omega)

end Stream

end SsAndroid
