import Mathlib

/-!
# Framed streams

A `Decoder` takes one frame from the front of a buffer, asks for more, or refuses what is there.
`drain` takes frames as long as there are any, and `feed` does so with the next piece of a stream,
keeping what is left of it for the one after.

* **`feed_drain`**: if what is taken does not depend on what comes after it (`Steady`), it does not
  matter where a stream is cut;
* **`drain_encoded`**: a stream of encoded frames, of which any number of bytes has arrived, gives
  the frames that are complete, in their order, and nothing else;
* **`drain_genuine`**: if the `i`-th frame taken can only be the `i`-th that was sent, what is given
  out is the beginning of what was sent, whatever the buffer holds.
-/

namespace SsAndroid

namespace Frames

variable {σ α β : Type}

inductive Taken (σ α β : Type) where
  | more
  | refused (next : σ)
  | item (next : σ) (out : List β) (rest : List α)
deriving DecidableEq

structure Decoder (σ α β : Type) where
  take : σ → List α → Taken σ α β
  shorter : ∀ {s s' : σ} {buf rest : List α} {out : List β},
    take s buf = .item s' out rest → rest.length < buf.length

/-- What there is after some input: the frames so far, one after the other, and the bytes that are
kept. -/
structure Drained (σ α β : Type) where
  state : σ
  out : List β
  rest : List α
  refused : Bool
deriving DecidableEq

def Drained.start (s : σ) : Drained σ α β := ⟨s, [], [], false⟩

/-- `r` after frames `out` that came before it. -/
def Drained.after (out : List β) (r : Drained σ α β) : Drained σ α β := { r with out := out ++ r.out }

@[simp] theorem Drained.after_nil (r : Drained σ α β) : r.after [] = r := rfl

@[simp] theorem Drained.after_after (out out' : List β) (r : Drained σ α β) :
    (r.after out').after out = r.after (out ++ out') := by
  simp [Drained.after]

@[simp] theorem Drained.out_after (out : List β) (r : Drained σ α β) :
    (r.after out).out = out ++ r.out := rfl

@[simp] theorem Drained.state_after (out : List β) (r : Drained σ α β) :
    (r.after out).state = r.state := rfl

@[simp] theorem Drained.rest_after (out : List β) (r : Drained σ α β) :
    (r.after out).rest = r.rest := rfl

@[simp] theorem Drained.refused_after (out : List β) (r : Drained σ α β) :
    (r.after out).refused = r.refused := rfl

variable (d : Decoder σ α β)

def drainWithin : Nat → σ → List α → Drained σ α β
  | 0, s, buf => ⟨s, [], buf, false⟩
  | n + 1, s, buf =>
      if buf.isEmpty then ⟨s, [], buf, false⟩
      else match d.take s buf with
        | .more => ⟨s, [], buf, false⟩
        | .refused s' => ⟨s', [], buf, true⟩
        | .item s' out rest => (drainWithin n s' rest).after out

/-- Frames are taken until the buffer is empty, more is needed, or it is refused. -/
def drain (s : σ) (buf : List α) : Drained σ α β := drainWithin d buf.length s buf

/-- The next piece of a stream; after a refusal nothing is read any more. -/
def feed (r : Drained σ α β) (piece : List α) : Drained σ α β :=
  if r.refused then r else (drain d r.state (r.rest ++ piece)).after r.out

/-! ### One frame after the other -/

variable {d}

theorem drainWithin_of_le {n : Nat} : ∀ {s : σ} {buf : List α}, buf.length ≤ n →
    drainWithin d n s buf = drain d s buf := by
  induction n using Nat.strong_induction_on with
  | _ n ih =>
    intro s buf hn
    match n, buf with
    | 0, [] => rfl
    | n + 1, [] => rfl
    | n + 1, a :: l =>
      rw [drain, List.length_cons, drainWithin, drainWithin]
      cases ht : d.take s (a :: l) with
      | more => rfl
      | refused s' => rfl
      | item s' out rest =>
        have hshort : rest.length < l.length + 1 := d.shorter ht
        have hl : l.length + 1 ≤ n + 1 := hn
        dsimp only
        rw [ih n (by omega) (by omega)]
        by_cases hlt : l.length = n
        · rw [hlt, ih n (by omega) (by omega)]
        · rw [ih l.length (by omega) (by omega)]

theorem drain_nil (s : σ) : drain d s [] = .start s := rfl

theorem drain_more {s : σ} {buf : List α} (h : d.take s buf = .more) :
    drain d s buf = ⟨s, [], buf, false⟩ := by
  cases buf with
  | nil => rfl
  | cons a l =>
    rw [drain, List.length_cons, drainWithin, h]
    rfl

theorem drain_refused {s s' : σ} {buf : List α} (h : d.take s buf = .refused s') (hbuf : buf ≠ []) :
    drain d s buf = ⟨s', [], buf, true⟩ := by
  cases buf with
  | nil => exact absurd rfl hbuf
  | cons a l =>
    rw [drain, List.length_cons, drainWithin, h]
    rfl

theorem drain_item {s s' : σ} {buf rest : List α} {out : List β}
    (h : d.take s buf = .item s' out rest) : drain d s buf = (drain d s' rest).after out := by
  have hshort := d.shorter h
  cases buf with
  | nil => exact absurd hshort (Nat.not_lt_zero _)
  | cons a l =>
    rw [List.length_cons] at hshort
    rw [drain, List.length_cons, drainWithin, h]
    dsimp only [List.isEmpty_cons, Bool.false_eq_true, if_false]
    rw [drainWithin_of_le (by omega)]
    rfl

/-- The three ways to drain a buffer that is not empty. -/
theorem drain_induction {P : σ → List α → Drained σ α β → Prop}
    (nil : ∀ s, P s [] (.start s))
    (more : ∀ s buf, buf ≠ [] → d.take s buf = .more → P s buf ⟨s, [], buf, false⟩)
    (refused : ∀ s s' buf, buf ≠ [] → d.take s buf = .refused s' → P s buf ⟨s', [], buf, true⟩)
    (item : ∀ s s' buf out rest, d.take s buf = .item s' out rest → P s' rest (drain d s' rest) →
      P s buf ((drain d s' rest).after out)) :
    ∀ s buf, P s buf (drain d s buf) := by
  intro s buf
  induction hn : buf.length using Nat.strong_induction_on generalizing s buf with
  | _ n ih =>
    by_cases hbuf : buf = []
    · subst hbuf
      exact nil s
    · cases ht : d.take s buf with
      | more =>
        rw [drain_more ht]
        exact more s buf hbuf ht
      | refused s' =>
        rw [drain_refused ht hbuf]
        exact refused s s' buf hbuf ht
      | item s' out rest =>
        rw [drain_item ht]
        exact item s s' buf out rest ht (ih rest.length (hn ▸ d.shorter ht) s' rest rfl)

/-! ### Streams in pieces -/

/-- What is taken or refused does not depend on what comes after it. -/
structure Steady (d : Decoder σ α β) : Prop where
  item : ∀ {s s' : σ} {buf rest : List α} {out : List β} (t : List α),
    d.take s buf = .item s' out rest → d.take s (buf ++ t) = .item s' out (rest ++ t)
  refused : ∀ {s s' : σ} {buf : List α} (t : List α), buf ≠ [] →
    d.take s buf = .refused s' → d.take s (buf ++ t) = .refused s'

/-- Two results that differ at most in what is kept after a refusal. -/
def Drained.Same (r r' : Drained σ α β) : Prop :=
  r.state = r'.state ∧ r.out = r'.out ∧ r.refused = r'.refused ∧ (r.refused = false → r.rest = r'.rest)

theorem Drained.Same.refl (r : Drained σ α β) : r.Same r := ⟨rfl, rfl, rfl, fun _ => rfl⟩

theorem Drained.Same.after {r r' : Drained σ α β} (h : r.Same r') (out : List β) :
    (r.after out).Same (r'.after out) :=
  ⟨h.1, congrArg (out ++ ·) h.2.1, h.2.2.1, h.2.2.2⟩

/-- **Draining a buffer and then what comes after it is draining both together.** -/
theorem feed_drain (hd : Steady d) (s : σ) (buf t : List α) :
    (feed d (drain d s buf) t).Same (drain d s (buf ++ t)) := by
  refine drain_induction (d := d)
    (P := fun s buf r => (feed d r t).Same (drain d s (buf ++ t))) ?_ ?_ ?_ ?_ s buf
  · intro s
    exact .refl _
  · intro s buf _ _
    exact .refl _
  · intro s s' buf hbuf h
    rw [drain_refused (hd.refused t hbuf h) (by simp [hbuf])]
    exact ⟨rfl, rfl, rfl, fun hr => Bool.noConfusion hr⟩
  · intro s s' buf out rest h ih
    rw [drain_item (hd.item t h)]
    have hafter : feed d ((drain d s' rest).after out) t = (feed d (drain d s' rest) t).after out := by
      unfold feed
      rw [Drained.refused_after]
      split
      · rfl
      · simp
    rw [hafter]
    exact ih.after out

/-! ### Encoded frames -/

/-- An encoder for the frames a decoder takes: `enc s w` is `w` as it is written in state `s`, and
`next s` the state after it. -/
structure Encodes (d : Decoder σ α β) (next : σ → σ) (enc : σ → List β → List α)
    (Good : List β → Prop) : Prop where
  item : ∀ s w t, Good w → d.take s (enc s w ++ t) = .item (next s) w t
  more : ∀ s w p, Good w → p <+: enc s w → p ≠ enc s w → d.take s p = .more

def encodes (next : σ → σ) (enc : σ → List β → List α) : σ → List (List β) → List α
  | _, [] => []
  | s, w :: ws => enc s w ++ encodes next enc (next s) ws

theorem encodes_append (next : σ → σ) (enc : σ → List β → List α) (s : σ) (ws vs : List (List β)) :
    encodes next enc s (ws ++ vs) =
      encodes next enc s ws ++ encodes next enc (next^[ws.length] s) vs := by
  induction ws generalizing s with
  | nil => rfl
  | cons w ws ih =>
    rw [List.cons_append, encodes, encodes, ih, List.append_assoc, List.length_cons,
      Function.iterate_succ_apply]

/-- How many of the frames lie within the first `k` bytes. -/
def complete (next : σ → σ) (enc : σ → List β → List α) : σ → List (List β) → Nat → Nat
  | _, [], _ => 0
  | s, w :: ws, k =>
      if k < (enc s w).length then 0
      else complete next enc (next s) ws (k - (enc s w).length) + 1

variable {next : σ → σ} {enc : σ → List β → List α} {Good : List β → Prop}

/-- All bytes are there, so all frames are. -/
theorem complete_all (s : σ) (ws : List (List β)) {k : Nat}
    (hk : (encodes next enc s ws).length ≤ k) : complete next enc s ws k = ws.length := by
  induction ws generalizing s k with
  | nil => rfl
  | cons w ws ih =>
    rw [encodes, List.length_append] at hk
    rw [complete, if_neg (by omega), ih (next s) (by omega), List.length_cons]

/-- **What has arrived of a stream of encoded frames gives the frames that are complete.** -/
theorem drain_encoded (he : Encodes d next enc Good) (s : σ) (ws : List (List β))
    (hws : ∀ w ∈ ws, Good w) (k : Nat) :
    let n := complete next enc s ws k
    drain d s ((encodes next enc s ws).take k) =
      ⟨next^[n] s, (ws.take n).flatten,
        ((encodes next enc s ws).take k).drop (encodes next enc s (ws.take n)).length, false⟩ := by
  induction ws generalizing s k with
  | nil => simp [encodes, complete, drain_nil, Drained.start]
  | cons w ws ih =>
    have hw : Good w := hws w List.mem_cons_self
    rw [complete, encodes]
    split
    · rename_i hk
      rw [List.take_append_of_le_length (by omega)]
      rw [drain_more (he.more s w _ hw (List.take_prefix _ _) (fun h => by
        have := congrArg List.length h
        rw [List.length_take] at this
        omega))]
      simp [encodes]
    · rename_i hk
      have hk : (enc s w).length ≤ k := Nat.le_of_not_lt hk
      rw [List.take_append, List.take_of_length_le hk, drain_item (he.item s w _ hw),
        ih (next s) (fun v hv => hws v (List.mem_cons_of_mem _ hv))]
      simp only [Drained.after, Function.iterate_succ_apply, List.take_succ_cons,
        List.flatten_cons, encodes, List.length_append, List.drop_append]
      simp

/-- The whole stream gives all frames and keeps nothing. -/
theorem drain_encodes (he : Encodes d next enc Good) (s : σ) (ws : List (List β))
    (hws : ∀ w ∈ ws, Good w) :
    drain d s (encodes next enc s ws) = ⟨next^[ws.length] s, ws.flatten, [], false⟩ := by
  have h := drain_encoded he s ws hws (encodes next enc s ws).length
  rw [complete_all s ws (Nat.le_refl _)] at h
  simpa using h

/-! ### Streams that were tampered with -/

/-- **If the frame taken in the state after `i` frames can only be the `i`-th that was sent, the
frames taken are the first ones that were sent.** -/
theorem drain_genuine {ws : List (List β)} (at' : Nat → σ) {whole : List α}
    (h : ∀ i s' buf out rest, i ≤ ws.length → buf <:+ whole →
      d.take (at' i) buf = .item s' out rest → ws[i]? = some out ∧ s' = at' (i + 1))
    (hsuffix : ∀ s s' buf out rest, d.take s buf = .item s' out rest → rest <:+ buf) :
    ∃ n, n ≤ ws.length ∧ (drain d (at' 0) whole).out = (ws.take n).flatten := by
  have key : ∀ s buf i, s = at' i → buf <:+ whole → i ≤ ws.length →
      ∃ n, n ≤ ws.length ∧ i ≤ n ∧ (drain d s buf).out = ((ws.drop i).take (n - i)).flatten := by
    refine drain_induction (d := d) (P := fun s buf r => ∀ i, s = at' i → buf <:+ whole →
      i ≤ ws.length → ∃ n, n ≤ ws.length ∧ i ≤ n ∧ r.out = ((ws.drop i).take (n - i)).flatten)
      ?_ ?_ ?_ ?_
    · intro s i _ _ hi
      exact ⟨i, hi, Nat.le_refl _, by simp [Drained.start]⟩
    · intro s buf _ _ i _ _ hi
      exact ⟨i, hi, Nat.le_refl _, by simp⟩
    · intro s s' buf _ _ i _ _ hi
      exact ⟨i, hi, Nat.le_refl _, by simp⟩
    · intro s s' buf out rest ht ih i hs hbuf hi
      subst hs
      obtain ⟨hout, hs'⟩ := h i s' buf out rest hi hbuf ht
      obtain ⟨hlt, hget⟩ := List.getElem?_eq_some_iff.mp hout
      obtain ⟨n, hn, hin, ho⟩ := ih (i + 1) hs' ((hsuffix _ _ _ _ _ ht).trans hbuf) hlt
      refine ⟨n, hn, by omega, ?_⟩
      rw [Drained.out_after, ho, List.drop_eq_getElem_cons hlt, hget,
        show n - i = (n - (i + 1)) + 1 by omega, List.take_succ_cons, List.flatten_cons]
  obtain ⟨n, hn, -, ho⟩ := key _ whole 0 rfl (List.suffix_refl _) (Nat.zero_le _)
  exact ⟨n, hn, by simpa using ho⟩

end Frames

end SsAndroid
