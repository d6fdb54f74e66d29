import SsAndroid.Lib.Window

/-!
# The filter of seen salts

`ppbloom.c` over `bloom.c` and `murmurhash2`: two Bloom filters that take turns.  Salts are added to
the current one; after `entries` of them the other one is emptied and becomes the current one.

The filters refine a `Window` of the salts that were added (`refines_run`), and **`ppbloomCheck_run`**
says what a check can answer after any run: a salt that was one of the last `entries` is always
found, and what is found is explained by the last `2 * entries - 1`.
-/

namespace SsAndroid

namespace Ppbloom

/-! ### murmurhash2 -/

/-- `*(unsigned int *)data`, on a little-endian machine. -/
def word (b0 b1 b2 b3 : UInt8) : UInt32 :=
  b0.toUInt32 ||| b1.toUInt32 <<< 8 ||| b2.toUInt32 <<< 16 ||| b3.toUInt32 <<< 24

def m : UInt32 := 0x5bd1e995

def mix (h k : UInt32) : UInt32 :=
  let k := k * m
  let k := k ^^^ (k >>> 24)
  let k := k * m
  (h * m) ^^^ k

def mixAll : UInt32 → List UInt8 → UInt32
  | h, b0 :: b1 :: b2 :: b3 :: data => mixAll (mix h (word b0 b1 b2 b3)) data
  | h, [b0, b1, b2] => (h ^^^ b2.toUInt32 <<< 16 ^^^ b1.toUInt32 <<< 8 ^^^ b0.toUInt32) * m
  | h, [b0, b1] => (h ^^^ b1.toUInt32 <<< 8 ^^^ b0.toUInt32) * m
  | h, [b0] => (h ^^^ b0.toUInt32) * m
  | h, [] => h

def murmurhash2 (key : List UInt8) (seed : UInt32) : UInt32 :=
  let h := mixAll (seed ^^^ UInt32.ofNat key.length) key
  let h := h ^^^ (h >>> 13)
  let h := h * m
  h ^^^ (h >>> 15)

/-! ### bloom.c -/

/-- The sizes of a filter, as `bloom_init` computes them from `entries` and `error`. -/
structure Sizes where
  entries : Nat
  bits : Nat
  hashes : Nat
  entries_pos : 0 < entries
  bits_pos : 0 < bits

def Sizes.bytes (sz : Sizes) : Nat := if sz.bits % 8 ≠ 0 then sz.bits / 8 + 1 else sz.bits / 8

structure Bloom where
  bits : Nat
  hashes : Nat
  bf : List UInt8
deriving DecidableEq

def bloomInit (sz : Sizes) : Bloom := ⟨sz.bits, sz.hashes, List.replicate sz.bytes 0⟩

def mask (x : Nat) : UInt8 := UInt8.ofNat (1 <<< (x % 8))

def testBitSetBit (buf : List UInt8) (x : Nat) (setBit : Bool) : Bool × List UInt8 :=
  let byte := x >>> 3
  let c := buf.getD byte 0
  if c &&& mask x ≠ 0 then (true, buf)
  else (false, if setBit then buf.set byte (c ||| mask x) else buf)

/-- The bits that stand for a buffer: `(a + i*b) % bloom->bits`, in `unsigned int`. -/
def positions (bits hashes : Nat) (buffer : List UInt8) : List Nat :=
  let a := murmurhash2 buffer 0x9747b28c
  let b := murmurhash2 buffer a
  (List.range hashes).map fun i => (a + UInt32.ofNat i * b).toNat % bits

def checkAddLoop (add : Bool) : List Nat → Nat × List UInt8 → Nat × List UInt8
  | [], r => r
  | x :: xs, (hits, bf) =>
      let t := testBitSetBit bf x add
      checkAddLoop add xs (if t.1 then hits + 1 else hits, t.2)

def bloomCheckAdd (bloom : Bloom) (buffer : List UInt8) (add : Bool) : Bool × Bloom :=
  let r := checkAddLoop add (positions bloom.bits bloom.hashes buffer) (0, bloom.bf)
  (r.1 == bloom.hashes, { bloom with bf := r.2 })

def bloomCheck (bloom : Bloom) (buffer : List UInt8) : Bool := (bloomCheckAdd bloom buffer false).1

def bloomAdd (bloom : Bloom) (buffer : List UInt8) : Bloom := (bloomCheckAdd bloom buffer true).2

/-! ### ppbloom.c -/

inductive Slot where
  | ping
  | pong
deriving DecidableEq

def Slot.other : Slot → Slot
  | .ping => .pong
  | .pong => .ping

@[simp] theorem Slot.other_other (s : Slot) : s.other.other = s := by cases s <;> rfl

structure Filter where
  ping : Bloom
  pong : Bloom
  pingCount : Nat
  pongCount : Nat
  current : Slot
deriving DecidableEq

def Filter.bloom (p : Filter) : Slot → Bloom
  | .ping => p.ping
  | .pong => p.pong

def Filter.bloomCount (p : Filter) : Slot → Nat
  | .ping => p.pingCount
  | .pong => p.pongCount

def Filter.setBloom (p : Filter) (b : Bloom) : Slot → Filter
  | .ping => { p with ping := b }
  | .pong => { p with pong := b }

def Filter.setCount (p : Filter) (n : Nat) : Slot → Filter
  | .ping => { p with pingCount := n }
  | .pong => { p with pongCount := n }

def ppbloomInit (sz : Sizes) : Filter := ⟨bloomInit sz, bloomInit sz, 0, 0, .ping⟩

def ppbloomCheck (p : Filter) (buffer : List UInt8) : Bool :=
  if bloomCheck p.ping buffer then true else bloomCheck p.pong buffer

def ppbloomAdd (sz : Sizes) (p : Filter) (buffer : List UInt8) : Filter :=
  let p := p.setBloom (bloomAdd (p.bloom p.current) buffer) p.current
  let p := p.setCount (p.bloomCount p.current + 1) p.current
  if sz.entries ≤ p.bloomCount p.current then
    let p := p.setCount 0 p.current
    let p := { p with current := p.current.other }
    p.setBloom (bloomInit sz) p.current
  else p

/-! ### One bit -/

def isSet (bf : List UInt8) (x : Nat) : Bool := bf.getD (x >>> 3) 0 &&& mask x ≠ 0

theorem toNat_mask (x : Nat) : (mask x).toNat = 2 ^ (x % 8) := by
  have hx : x % 8 < 8 := Nat.mod_lt _ (by decide)
  have hpow : 2 ^ (x % 8) < 2 ^ 8 := Nat.pow_lt_pow_right (by decide) hx
  rw [mask, Nat.one_shiftLeft, UInt8.toNat_ofNat', Nat.mod_eq_of_lt hpow]

theorem and_mask_ne_zero_iff (c : UInt8) (x : Nat) :
    c &&& mask x ≠ 0 ↔ c.toNat.testBit (x % 8) = true := by
  rw [Ne, ← UInt8.toNat_inj, UInt8.toNat_and, toNat_mask, Nat.and_two_pow]
  have hpos : 0 < 2 ^ (x % 8) := Nat.pow_pos (by decide)
  cases c.toNat.testBit (x % 8)
  · simp
  · simp

theorem isSet_iff (bf : List UInt8) (x : Nat) :
    isSet bf x = true ↔ (bf.getD (x >>> 3) 0).toNat.testBit (x % 8) = true := by
  rw [isSet, decide_eq_true_iff, and_mask_ne_zero_iff]

theorem isSet_replicate (n x : Nat) : isSet (List.replicate n 0) x = false := by
  have h : (List.replicate n (0 : UInt8)).getD (x >>> 3) 0 = 0 := by
    rw [List.getD_eq_getElem?_getD, List.getElem?_replicate]
    split <;> rfl
  rw [isSet, h]
  simp

theorem testBitSetBit_fst (bf : List UInt8) (x : Nat) (add : Bool) :
    (testBitSetBit bf x add).1 = isSet bf x := by
  rw [testBitSetBit, isSet]
  split <;> simp_all

theorem testBitSetBit_check (bf : List UInt8) (x : Nat) : (testBitSetBit bf x false).2 = bf := by
  rw [testBitSetBit]
  split <;> rfl

theorem length_testBitSetBit (bf : List UInt8) (x : Nat) (add : Bool) :
    (testBitSetBit bf x add).2.length = bf.length := by
  rw [testBitSetBit]
  split
  · rfl
  · split
    · exact List.length_set ..
    · rfl

theorem shift_three (x : Nat) : x >>> 3 = x / 8 := Nat.shiftRight_eq_div_pow x 3

theorem isSet_set {bf : List UInt8} {x : Nat} (hx : x / 8 < bf.length) (y : Nat) :
    isSet (bf.set (x >>> 3) (bf.getD (x >>> 3) 0 ||| mask x)) y = true ↔
      isSet bf y = true ∨ y = x := by
  rw [isSet_iff, isSet_iff]
  simp only [shift_three, List.getD_eq_getElem?_getD, List.getElem?_set]
  by_cases hbyte : x / 8 = y / 8
  · rw [if_pos hbyte, if_pos hx, hbyte, Option.getD_some, UInt8.toNat_or, Nat.testBit_or,
      toNat_mask, Nat.testBit_two_pow, Bool.or_eq_true, decide_eq_true_iff]
    exact or_congr_right (by omega)
  · rw [if_neg hbyte]
    exact ⟨.inl, fun h => h.resolve_right (by rintro rfl; exact hbyte rfl)⟩

/-- Setting a bit sets this one and no other. -/
theorem isSet_testBitSetBit {bf : List UInt8} {x : Nat} (hx : x / 8 < bf.length) (y : Nat) :
    isSet (testBitSetBit bf x true).2 y = true ↔ isSet bf y = true ∨ y = x := by
  rw [testBitSetBit]
  split
  · rename_i hset
    have hx : isSet bf x = true := by simpa [isSet] using hset
    exact ⟨.inl, fun h => h.elim id (by rintro rfl; exact hx)⟩
  · exact isSet_set hx y

/-! ### One filter -/

theorem checkAddLoop_check (xs : List Nat) (hits : Nat) (bf : List UInt8) :
    checkAddLoop false xs (hits, bf) = (hits + xs.countP (isSet bf), bf) := by
  induction xs generalizing hits with
  | nil => rfl
  | cons x xs ih =>
    rw [checkAddLoop]
    rw [testBitSetBit_fst, testBitSetBit_check, ih, List.countP_cons]
    split <;> simp <;> omega

theorem length_checkAddLoop (add : Bool) (xs : List Nat) (hits : Nat) (bf : List UInt8) :
    (checkAddLoop add xs (hits, bf)).2.length = bf.length := by
  induction xs generalizing hits bf with
  | nil => rfl
  | cons x xs ih =>
    rw [checkAddLoop]
    rw [ih, length_testBitSetBit]

theorem isSet_checkAddLoop (xs : List Nat) (hits : Nat) (bf : List UInt8)
    (hxs : ∀ x ∈ xs, x / 8 < bf.length) (y : Nat) :
    isSet (checkAddLoop true xs (hits, bf)).2 y = true ↔ isSet bf y = true ∨ y ∈ xs := by
  induction xs generalizing hits bf with
  | nil => simp [checkAddLoop]
  | cons x xs ih =>
    rw [checkAddLoop]
    rw [ih _ _ (fun z hz => by
        rw [length_testBitSetBit]
        exact hxs z (List.mem_cons_of_mem _ hz)),
      isSet_testBitSetBit (hxs x List.mem_cons_self), List.mem_cons, or_assoc]

variable {sz : Sizes}

def Sizes.positions (sz : Sizes) (x : List UInt8) : List Nat := Ppbloom.positions sz.bits sz.hashes x

theorem position_lt {x : List UInt8} {i : Nat} (hi : i ∈ sz.positions x) : i < sz.bits := by
  obtain ⟨k, -, rfl⟩ := List.mem_map.mp hi
  exact Nat.mod_lt _ sz.bits_pos

theorem Sizes.bits_le (sz : Sizes) : sz.bits ≤ 8 * sz.bytes := by
  rw [Sizes.bytes]
  split <;> omega

/-- The bits that are set are those of the salts in `l`. -/
structure Holds (sz : Sizes) (bloom : Bloom) (l : List (List UInt8)) : Prop where
  bits : bloom.bits = sz.bits
  hashes : bloom.hashes = sz.hashes
  bytes : bloom.bf.length = sz.bytes
  isSet : ∀ i, isSet bloom.bf i = true ↔ ∃ x ∈ l, i ∈ sz.positions x

/-- Every bit of `x` is the bit of a salt in `l`. -/
def Covered (sz : Sizes) (l : List (List UInt8)) (x : List UInt8) : Prop :=
  ∀ i ∈ sz.positions x, ∃ y ∈ l, i ∈ sz.positions y

theorem Covered.of_mem {l : List (List UInt8)} {x : List UInt8} (h : x ∈ l) : Covered sz l x :=
  fun _ hi => ⟨x, h, hi⟩

theorem Covered.mono {l l' : List (List UInt8)} {x : List UInt8} (h : Covered sz l x) (hl : l ⊆ l') :
    Covered sz l' x := by
  intro i hi
  obtain ⟨y, hy, hiy⟩ := h i hi
  exact ⟨y, hl hy, hiy⟩

theorem holds_init (sz : Sizes) : Holds sz (bloomInit sz) [] where
  bits := rfl
  hashes := rfl
  bytes := List.length_replicate
  isSet i := by
    rw [bloomInit, isSet_replicate]
    simp

theorem holds_add {bloom : Bloom} {l : List (List UInt8)} (h : Holds sz bloom l) (x : List UInt8) :
    Holds sz (bloomAdd bloom x) (l ++ [x]) where
  bits := h.bits
  hashes := h.hashes
  bytes := (length_checkAddLoop ..).trans h.bytes
  isSet i := by
    have hpos : positions bloom.bits bloom.hashes x = sz.positions x := by
      rw [h.bits, h.hashes, Sizes.positions]
    have hin : ∀ j ∈ sz.positions x, j / 8 < bloom.bf.length := by
      intro j hj
      have hlt := position_lt hj
      have hle := sz.bits_le
      rw [h.bytes]
      omega
    rw [bloomAdd, bloomCheckAdd]
    dsimp only
    rw [hpos, isSet_checkAddLoop _ _ _ hin, h.isSet]
    simp [or_and_right, exists_or]

theorem check_iff_covered {bloom : Bloom} {l : List (List UInt8)} (h : Holds sz bloom l)
    (x : List UInt8) : bloomCheck bloom x = true ↔ Covered sz l x := by
  have hpos : positions bloom.bits bloom.hashes x = sz.positions x := by
    rw [h.bits, h.hashes, Sizes.positions]
  have hlen : (sz.positions x).length = sz.hashes := by
    simp [Sizes.positions, positions]
  rw [bloomCheck, bloomCheckAdd]
  dsimp only
  rw [checkAddLoop_check, hpos, h.hashes, beq_iff_eq, Nat.zero_add, ← hlen,
    List.countP_eq_length]
  exact forall₂_congr fun i _ => h.isSet i

/-! ### The two filters -/

/-- The current filter holds the newer generation and counts it, the other one holds the older. -/
structure Refines (sz : Sizes) (p : Filter) (w : Window (List UInt8)) : Prop where
  newer : Holds sz (p.bloom p.current) w.newer
  older : Holds sz (p.bloom p.current.other) w.older
  count : p.bloomCount p.current = w.newer.length
  otherCount : p.bloomCount p.current.other = 0

theorem refines_init (sz : Sizes) : Refines sz (ppbloomInit sz) Window.empty :=
  ⟨holds_init sz, holds_init sz, rfl, rfl⟩

theorem ppbloomAdd_ping (sz : Sizes) (ping pong : Bloom) (n k : Nat) (x : List UInt8) :
    ppbloomAdd sz ⟨ping, pong, n, k, .ping⟩ x =
      if sz.entries ≤ n + 1 then ⟨bloomAdd ping x, bloomInit sz, 0, k, .pong⟩
      else ⟨bloomAdd ping x, pong, n + 1, k, .ping⟩ := rfl

theorem ppbloomAdd_pong (sz : Sizes) (ping pong : Bloom) (n k : Nat) (x : List UInt8) :
    ppbloomAdd sz ⟨ping, pong, n, k, .pong⟩ x =
      if sz.entries ≤ k + 1 then ⟨bloomInit sz, bloomAdd pong x, n, 0, .ping⟩
      else ⟨ping, bloomAdd pong x, n, k + 1, .pong⟩ := rfl

theorem refines_add {p : Filter} {w : Window (List UInt8)} (h : Refines sz p w) (x : List UInt8) :
    Refines sz (ppbloomAdd sz p x) (w.add sz.entries x) := by
  obtain ⟨ping, pong, n, k, current⟩ := p
  obtain ⟨hnewer, holder, hcount, hother⟩ := h
  have hadd := holds_add hnewer x
  have hlen : (w.newer ++ [x]).length = w.newer.length + 1 := List.length_append
  cases current with
  | ping =>
    rw [ppbloomAdd_ping, Window.add, show n = w.newer.length from hcount]
    split
    · exact ⟨holds_init sz, hadd, hother, rfl⟩
    · exact ⟨hadd, holder, hlen.symm, hother⟩
  | pong =>
    rw [ppbloomAdd_pong, Window.add, show k = w.newer.length from hcount]
    split
    · exact ⟨holds_init sz, hadd, hother, rfl⟩
    · exact ⟨hadd, holder, hlen.symm, hother⟩

def addAll (sz : Sizes) (adds : List (List UInt8)) : Filter :=
  adds.foldl (ppbloomAdd sz) (ppbloomInit sz)

theorem addAll_concat (sz : Sizes) (adds : List (List UInt8)) (x : List UInt8) :
    addAll sz (adds ++ [x]) = ppbloomAdd sz (addAll sz adds) x := by
  rw [addAll, List.foldl_append]
  rfl

theorem refines_run (sz : Sizes) (adds : List (List UInt8)) :
    Refines sz (addAll sz adds) (Window.addAll sz.entries adds) := by
  induction adds using List.reverseRecOn with
  | nil => exact refines_init sz
  | append_singleton adds x ih =>
    rw [addAll_concat, Window.addAll_concat]
    exact refines_add ih x

theorem ppbloomCheck_iff {p : Filter} {w : Window (List UInt8)} (h : Refines sz p w)
    (x : List UInt8) : ppbloomCheck p x = true ↔ Covered sz w.older x ∨ Covered sz w.newer x := by
  have hor : ppbloomCheck p x = true ↔ bloomCheck p.ping x = true ∨ bloomCheck p.pong x = true := by
    rw [ppbloomCheck]
    split <;> simp_all
  have hnewer := check_iff_covered h.newer x
  have holder := check_iff_covered h.older x
  rw [hor, ← hnewer, ← holder]
  cases p.current with
  | ping => exact or_comm
  | pong => exact Iff.rfl

/-- A salt that was one of the last `entries` to be added is found. -/
theorem found_of_recent (sz : Sizes) (adds : List (List UInt8)) {x : List UInt8}
    (hx : x ∈ adds.drop (adds.length - sz.entries)) : ppbloomCheck (addAll sz adds) x = true := by
  rw [ppbloomCheck_iff (refines_run sz adds)]
  exact (Window.mem_held.mp (Window.mem_held_of_recent sz.entries_pos hx)).imp .of_mem .of_mem

/-- **What the filter answers after any salts were added: each of the last `entries` is found, and
what is found has all its bits from salts among the last `2 * entries - 1`.** -/
theorem ppbloomCheck_run (sz : Sizes) (adds : List (List UInt8)) (x : List UInt8) :
    (x ∈ adds.drop (adds.length - sz.entries) → ppbloomCheck (addAll sz adds) x = true) ∧
      (ppbloomCheck (addAll sz adds) x = true →
        Covered sz (adds.drop (adds.length - (2 * sz.entries - 1))) x) := by
  refine ⟨found_of_recent sz _, fun h => ?_⟩
  rw [ppbloomCheck_iff (refines_run sz adds)] at h
  have hheld : Covered sz (Window.addAll sz.entries adds).held x :=
    h.elim (fun h => h.mono (List.subset_append_left ..))
      (fun h => h.mono (List.subset_append_right ..))
  refine hheld.mono (List.IsSuffix.subset ?_)
  have hlen := Window.length_held_lt sz.entries_pos adds
  have hsuffix := Window.held_suffix sz.entries_pos adds
  refine List.suffix_of_suffix_length_le hsuffix (List.drop_suffix _ _) ?_
  have hle := hsuffix.length_le
  rw [List.length_drop]
  omega

/-- A filter that can be worked through by hand. -/
def smallSizes : Sizes := ⟨2, 64, 3, Nat.two_pos, Nat.succ_pos 63⟩

end Ppbloom

end SsAndroid
