import SsAndroid.Lib.Machine
import SsAndroid.Libev.AeadStream

/-!
# The contexts of a process

A process of shadowsocks-libev holds two contexts for each connection, one that encrypts and one that
decrypts, and seals and opens datagrams; all of them share the filter of seen salts.  Connections and
datagrams take turns in any order, and a stream arrives in pieces of any size.

* **`accepted_fresh`**: no salt is accepted that was among the last `entries` salts of the process,
  and no connection gives out data before its salt was accepted;
* **`delivered_of_wire`**: what has arrived of the bytes of a connection of another process gives
  the chunks that are complete;
* **`delivered_of_authentic`**: whatever arrives, if nothing was forged, what is given out is the
  beginning of what the connection with this salt was given to encrypt.
-/

namespace SsAndroid

namespace Aead

open Crypto (Decrypted)
open Ppbloom (Filter Sizes ppbloomInit ppbloomCheck ppbloomAdd)

/-- A connection, with all it has read and written. -/
structure Conn where
  eCtx : CipherCtx
  dCtx : CipherCtx
  sent : List (List UInt8)
  wire : List UInt8
  input : List UInt8
  delivered : List UInt8
  closed : Bool
deriving DecidableEq

/-- The salts that were added to the filter, in their order. -/
inductive Entry where
  | own (salt : List UInt8)
  | stream (i : Nat) (salt : List UInt8)
  | datagram (salt : List UInt8)
deriving DecidableEq

def Entry.salt : Entry → List UInt8
  | .own salt | .stream _ salt | .datagram salt => salt

/-- The salt came from outside. -/
def Entry.Accepted : Entry → Prop
  | .own _ => False
  | .stream _ _ | .datagram _ => True

structure Process where
  pp : Filter
  log : List Entry
  conns : Nat → Conn
  datagrams : List (List UInt8 × List UInt8)

inductive Event where
  | encrypt (i : Nat) (plaintext : List UInt8)
  | decrypt (i : Nat) (bytes : List UInt8)
  | encryptAll (salt plaintext : List UInt8)
  | decryptAll (ciphertext : List UInt8)

/-- Connection `i` draws the salt `salts i`. -/
def Conn.start (salt zeros : List UInt8) : Conn :=
  ⟨aeadCtxInit salt, aeadCtxInit zeros, [], [], [], [], false⟩

def start (c : Cipher) (sz : Sizes) (salts : Nat → List UInt8) : Process :=
  ⟨ppbloomInit sz, [], fun i => .start (salts i) (List.replicate c.keyLen 0), []⟩

def encryptOn (c : Cipher) (sz : Sizes) (s : Process) (i : Nat) (plaintext : List UInt8) :
    Option Process :=
  let conn := s.conns i
  if conn.closed then none
  else (aeadEncrypt c sz s.pp conn.eCtx plaintext).map fun r =>
    { s with
      pp := r.2.1
      log := if plaintext.length ≠ 0 ∧ conn.eCtx.init = 0 then s.log ++ [.own conn.eCtx.salt] else s.log
      conns := Function.update s.conns i
        { conn with
          eCtx := r.2.2
          sent := if plaintext.length ≠ 0 then conn.sent ++ [plaintext] else conn.sent
          wire := conn.wire ++ r.1 } }

/-- After an error the connection is closed; it has given out what it gave out before. -/
def decryptOn (c : Cipher) (sz : Sizes) (s : Process) (i : Nat) (bytes : List UInt8) :
    Option Process :=
  let conn := s.conns i
  if conn.closed then none
  else
    let r := aeadDecrypt c sz s.pp conn.dCtx bytes
    let conn' := { conn with dCtx := r.2.2, input := conn.input ++ bytes }
    match r.1 with
    | .ok plaintext => some
        { s with
          pp := r.2.1
          log := if conn.dCtx.init ≠ 2 then s.log ++ [.stream i r.2.2.salt] else s.log
          conns := Function.update s.conns i { conn' with delivered := conn.delivered ++ plaintext } }
    | .needMore => some { s with pp := r.2.1, conns := Function.update s.conns i conn' }
    | .error => some
        { s with pp := r.2.1, conns := Function.update s.conns i { conn' with closed := true } }

def step (c : Cipher) (sz : Sizes) (s : Process) : Event → Option Process
  | .encrypt i plaintext => encryptOn c sz s i plaintext
  | .decrypt i bytes => decryptOn c sz s i bytes
  | .encryptAll salt plaintext => some
      { s with
        pp := (aeadEncryptAll c sz s.pp salt plaintext).2
        log := s.log ++ [.own salt]
        datagrams := s.datagrams ++ [(salt, plaintext)] }
  | .decryptAll ciphertext =>
      let r := aeadDecryptAll c sz s.pp ciphertext
      some { s with
        pp := r.2
        log := if r.1.isSome then s.log ++ [.datagram (ciphertext.take c.keyLen)] else s.log }

/-! ### What a step does -/

/-- What a step does to the filter and the log. -/
inductive Adds (sz : Sizes) (s s' : Process) : Prop where
  | nothing (pp : s'.pp = s.pp) (log : s'.log = s.log)
  | own (salt : List UInt8) (pp : s'.pp = ppbloomAdd sz s.pp salt) (log : s'.log = s.log ++ [.own salt])
  | accepted (e : Entry) (fresh : ppbloomCheck s.pp e.salt = false)
      (pp : s'.pp = ppbloomAdd sz s.pp e.salt) (log : s'.log = s.log ++ [e])

/-- What a connection has written. -/
inductive Wrote (c : Cipher) (x : List UInt8) (ctx : CipherCtx) (sent : List (List UInt8))
    (wire : List UInt8) : Prop where
  | nothing (ctx_eq : ctx = aeadCtxInit x) (sent : sent = []) (wire : wire = [])
  | chunks (init : ctx.init = 1) (salt : ctx.salt = x) (skey : ctx.skey = c.subkey x)
      (nonce : ctx.nonce = nonceAt c (2 * sent.length)) (good : ∀ p ∈ sent, Chunk p)
      (wire : wire = x ++ Frames.encodes nextNonce (chunkBytes c (c.subkey x)) (nonceAt c 0) sent)

theorem nextNonce_nonceAt (c : Cipher) (i : Nat) : nextNonce (nonceAt c i) = nonceAt c (i + 2) := by
  rw [nextNonce, ← nonceAt_succ, ← nonceAt_succ]

theorem iterate_nextNonce (c : Cipher) (k : Nat) : nextNonce^[k] (nonceAt c 0) = nonceAt c (2 * k) := by
  induction k with
  | zero => rfl
  | succ k ih => rw [Function.iterate_succ_apply', ih, nextNonce_nonceAt, Nat.mul_succ]

theorem wrote_salt {c : Cipher} {x : List UInt8} {ctx : CipherCtx} {sent : List (List UInt8)}
    {wire : List UInt8} (h : Wrote c x ctx sent wire) : ctx.salt = x := by
  cases h with
  | nothing hctx => rw [hctx, aeadCtxInit]
  | chunks _ hsalt => exact hsalt

/-- What `aead_encrypt` does with a plaintext that is not empty: one more chunk, after the salt if it
is the first one. -/
theorem aeadEncrypt_wrote {c : Cipher} {sz : Sizes} {pp : Filter} {x : List UInt8} {ctx : CipherCtx}
    {sent : List (List UInt8)} {wire p : List UInt8} {r : List UInt8 × Filter × CipherCtx}
    (h : Wrote c x ctx sent wire) (hp : p.length ≠ 0) (hr : aeadEncrypt c sz pp ctx p = some r) :
    Wrote c x r.2.2 (sent ++ [p]) (wire ++ r.1) ∧
      (ctx.init = 0 → r.2.1 = ppbloomAdd sz pp x) ∧ (ctx.init ≠ 0 → r.2.1 = pp) := by
  rw [aeadEncrypt, if_neg hp] at hr
  cases h with
  | nothing hctx hsent hwire =>
    subst hctx hsent hwire
    have h0 : (aeadCtxInit x).init = 0 := rfl
    rw [if_pos h0, aeadChunkEncrypt] at hr
    split at hr
    · cases hr
    rename_i hlen
    obtain rfl := Option.some.inj hr
    refine ⟨.chunks rfl rfl rfl ?_ ?_ ?_, fun _ => rfl, fun h0 => absurd rfl h0⟩
    · exact nextNonce_nonceAt c 0
    · intro q hq
      rw [List.nil_append, List.mem_singleton] at hq
      subst hq
      exact ⟨List.length_pos_iff.mp (Nat.pos_of_ne_zero hp), Nat.le_of_not_lt hlen⟩
    · rw [List.nil_append, List.nil_append, Frames.encodes, Frames.encodes, List.append_nil]
      rfl
  | chunks hinit hsalt hskey hnonce hgood hwire =>
    have h0 : ctx.init ≠ 0 := by omega
    rw [if_neg h0, aeadChunkEncrypt] at hr
    split at hr
    · cases hr
    rename_i hlen
    obtain rfl := Option.some.inj hr
    refine ⟨.chunks hinit hsalt hskey ?_ ?_ ?_, fun h => absurd h h0, fun _ => rfl⟩
    · show nextNonce ctx.nonce = _
      rw [hnonce, nextNonce_nonceAt, List.length_append, List.length_singleton, Nat.mul_succ]
    · intro q hq
      obtain hq | hq := List.mem_append.mp hq
      · exact hgood q hq
      · obtain rfl := List.mem_singleton.mp hq
        exact ⟨List.length_pos_iff.mp (Nat.pos_of_ne_zero hp), Nat.le_of_not_lt hlen⟩
    · rw [Frames.encodes_append, iterate_nextNonce, hwire, ← hnonce, hskey, List.append_assoc,
        Frames.encodes, Frames.encodes, List.append_nil]

/-- A connection that is open has kept up with its input; one that is closed had with a part of it. -/
def Conn.Read (c : Cipher) (conn : Conn) : Prop :=
  (conn.closed = false → Tracks c conn.dCtx conn.input conn.delivered) ∧
    ∃ ctx input, input <+: conn.input ∧ Tracks c ctx input conn.delivered

/-- Once its salt is accepted, and before it gives out data, a connection is in the log. -/
def Conn.Logged (c : Cipher) (log : List Entry) (i : Nat) (conn : Conn) : Prop :=
  (conn.closed = false → conn.dCtx.init = 2 → .stream i (conn.input.take c.keyLen) ∈ log) ∧
    (conn.delivered ≠ [] → c.keyLen < conn.input.length ∧
      .stream i (conn.input.take c.keyLen) ∈ log)

structure Inv (c : Cipher) (sz : Sizes) (salts : Nat → List UInt8) (s : Process) : Prop where
  pp : s.pp = Ppbloom.addAll sz (s.log.map Entry.salt)
  fresh : ∀ k e, s.log[k]? = some e → e.Accepted →
    e.salt ∉ ((s.log.take k).map Entry.salt).drop (k - sz.entries)
  wrote : ∀ i, Wrote c (salts i) (s.conns i).eCtx (s.conns i).sent (s.conns i).wire
  read : ∀ i, (s.conns i).Read c
  logged : ∀ i, (s.conns i).Logged c s.log i

variable {c : Cipher} {sz : Sizes} {salts : Nat → List UInt8}

theorem inv_start (c : Cipher) (sz : Sizes) (salts : Nat → List UInt8) :
    Inv c sz salts (start c sz salts) where
  pp := rfl
  fresh k e h := by simp [start] at h
  wrote i := .nothing rfl rfl rfl
  read i := ⟨fun _ => tracks_init c _, _, [], List.prefix_refl _, tracks_init c (salts i)⟩
  logged i := ⟨fun _ (h : 0 = 2) => absurd h (by decide), fun h => absurd rfl h⟩

/-! ### The filter and the log -/

/-- A step that adds salts as it logs them, and accepts only what the filter does not know, keeps
the log free of salts that came before. -/
theorem log_step {s s' : Process} (h : Inv c sz salts s) (hadds : Adds sz s s') :
    s'.pp = Ppbloom.addAll sz (s'.log.map Entry.salt) ∧
      ∀ k e, s'.log[k]? = some e → e.Accepted →
        e.salt ∉ ((s'.log.take k).map Entry.salt).drop (k - sz.entries) := by
  have hadd : ∀ e : Entry, ppbloomAdd sz s.pp e.salt =
      Ppbloom.addAll sz ((s.log ++ [e]).map Entry.salt) := by
    intro e
    rw [List.map_append, List.map_singleton, Ppbloom.addAll_concat, h.pp]
  have hold : ∀ (e' : Entry) (k : Nat), k < s.log.length → (s.log ++ [e']).take k = s.log.take k :=
    fun e' k hk => List.take_append_of_le_length (Nat.le_of_lt hk)
  have hnew : ∀ e' : Entry, (e'.Accepted → ppbloomCheck s.pp e'.salt = false) → ∀ k e,
      (s.log ++ [e'])[k]? = some e → e.Accepted →
        e.salt ∉ (((s.log ++ [e']).take k).map Entry.salt).drop (k - sz.entries) := by
    intro e' hfresh k e hk he
    obtain hlt | heq := Nat.lt_or_eq_of_le (Nat.le_of_lt_succ
      (by simpa using (List.getElem?_eq_some_iff.mp hk).1))
    · rw [hold e' k hlt]
      rw [List.getElem?_append_left hlt] at hk
      exact h.fresh k e hk he
    · subst heq
      rw [List.getElem?_concat_length] at hk
      obtain rfl := Option.some.inj hk
      rw [List.take_left' rfl]
      intro hmem
      have hfound := Ppbloom.found_of_recent sz (s.log.map Entry.salt) (by rwa [List.length_map])
      rw [← h.pp, hfresh he] at hfound
      exact Bool.noConfusion hfound
  cases hadds with
  | nothing hpp hlog =>
    rw [hpp, hlog]
    exact ⟨h.pp, h.fresh⟩
  | own salt hpp hlog =>
    rw [hpp, hlog]
    exact ⟨hadd (.own salt), hnew (.own salt) (fun h => h.elim)⟩
  | accepted e hfresh hpp hlog =>
    rw [hpp, hlog]
    exact ⟨hadd e, hnew e fun _ => hfresh⟩

/-! ### Steps -/

theorem Conn.Logged.mono {log log' : List Entry} {i : Nat} {conn : Conn}
    (h : conn.Logged c log i) (hlog : log ⊆ log') : conn.Logged c log' i :=
  ⟨fun ho hi => hlog (h.1 ho hi), fun hd => ⟨(h.2 hd).1, hlog (h.2 hd).2⟩⟩

/-- An invariant of every connection holds again when one connection has changed and keeps it. -/
theorem update_conns {P : Nat → Conn → Prop} {conns : Nat → Conn} (h : ∀ j, P j (conns j)) {i : Nat}
    {conn : Conn} (hconn : P i conn) : ∀ j, P j (Function.update conns i conn j) := by
  intro j
  by_cases hj : j = i
  · subst hj
    rwa [Function.update_self]
  · rw [Function.update_of_ne hj]
    exact h j

theorem encryptOn_inv {s s' : Process} {i : Nat} {p : List UInt8} (h : Inv c sz salts s)
    (hs : encryptOn c sz s i p = some s') : Inv c sz salts s' := by
  rw [encryptOn] at hs
  split at hs
  · cases hs
  obtain ⟨r, hr, rfl⟩ := Option.map_eq_some_iff.mp hs
  have hsalt := wrote_salt (h.wrote i)
  by_cases hp : p.length = 0
  · -- an empty plaintext is left as it is
    rw [aeadEncrypt, if_pos hp] at hr
    obtain rfl := Option.some.inj hr
    have hlog : ¬(p.length ≠ 0 ∧ (s.conns i).eCtx.init = 0) := fun h => h.1 hp
    have hp' : ¬p.length ≠ 0 := fun h => h hp
    rw [if_neg hlog, if_neg hp', List.append_nil]
    have hsame : Function.update s.conns i (s.conns i) = s.conns := Function.update_eq_self ..
    exact ⟨h.pp, h.fresh, hsame.symm ▸ h.wrote, hsame.symm ▸ h.read, hsame.symm ▸ h.logged⟩
  · obtain ⟨hwrote, hfirst, hlater⟩ := aeadEncrypt_wrote (h.wrote i) hp hr
    rw [if_pos hp]
    have hadds : Adds sz s
        { s with
          pp := r.2.1
          log := if p.length ≠ 0 ∧ (s.conns i).eCtx.init = 0
            then s.log ++ [.own (s.conns i).eCtx.salt] else s.log } := by
      by_cases h0 : (s.conns i).eCtx.init = 0
      · exact .own (salts i) (hfirst h0) (by dsimp only; rw [if_pos ⟨hp, h0⟩, hsalt])
      · exact .nothing (hlater h0) (if_neg fun h => h0 h.2)
    have hsub : s.log ⊆ if p.length ≠ 0 ∧ (s.conns i).eCtx.init = 0
        then s.log ++ [.own (s.conns i).eCtx.salt] else s.log := by
      split
      · exact List.subset_append_left ..
      · exact List.Subset.refl _
    obtain ⟨hpp, hfresh⟩ := log_step h hadds
    refine ⟨hpp, hfresh, ?_, ?_, ?_⟩
    · exact update_conns (P := fun j conn => Wrote c (salts j) conn.eCtx conn.sent conn.wire)
        h.wrote hwrote
    · exact update_conns (P := fun _ conn => conn.Read c) h.read (h.read i)
    · exact update_conns (P := fun j conn => conn.Logged c _ j) (fun j => (h.logged j).mono hsub)
        ((h.logged i).mono hsub)

theorem tracks_take {ctx : CipherCtx} {input delivered : List UInt8}
    (h : Tracks c ctx input delivered) (hi : ctx.init = 2) :
    c.keyLen < input.length ∧ ctx.salt = input.take c.keyLen := by
  cases h with
  | waiting h0 => omega
  | reading _ hlong hsalt => exact ⟨hlong, hsalt⟩

/-- What was in the log for the input so far is so for a longer one. -/
theorem Conn.Logged.longer {log : List Entry} {i : Nat} {conn : Conn} (h : conn.Logged c log i)
    (bytes : List UInt8) (hd : conn.delivered ≠ []) :
    c.keyLen < (conn.input ++ bytes).length ∧
      .stream i ((conn.input ++ bytes).take c.keyLen) ∈ log := by
  obtain ⟨hlong, hmem⟩ := h.2 hd
  refine ⟨by rw [List.length_append]; omega, ?_⟩
  rwa [List.take_append_of_le_length (by omega)]

theorem decryptOn_inv {s s' : Process} {i : Nat} {bytes : List UInt8} (h : Inv c sz salts s)
    (hs : decryptOn c sz s i bytes = some s') : Inv c sz salts s' := by
  rw [decryptOn] at hs
  dsimp only at hs
  split at hs
  · cases hs
  rename_i hopen
  have hopen : (s.conns i).closed = false := by simpa using hopen
  have htracks := (h.read i).1 hopen
  have hreceives := aeadDecrypt_receives sz s.pp htracks bytes
  generalize aeadDecrypt c sz s.pp (s.conns i).dCtx bytes = r at hs hreceives
  obtain ⟨res, pp', ctx'⟩ := r
  dsimp only at hs hreceives
  have hlogged := h.logged i
  have hread : ∀ (ctx' : CipherCtx) (closed : Bool),
      closed = true → Conn.Read c { s.conns i with
        dCtx := ctx', input := (s.conns i).input ++ bytes, closed := closed } := by
    intro ctx' closed hclosed
    refine ⟨fun hf => ?_, _, _, List.prefix_append _ _, htracks⟩
    dsimp only at hf
    rw [hclosed] at hf
    exact Bool.noConfusion hf
  cases hreceives with
  | needMore hinit ht =>
    obtain rfl := Option.some.inj hs
    refine ⟨h.pp, h.fresh, ?_, ?_, ?_⟩
    · exact update_conns (P := fun j conn => Wrote c (salts j) conn.eCtx conn.sent conn.wire)
        h.wrote (h.wrote i)
    · exact update_conns (P := fun _ conn => conn.Read c) h.read
        ⟨fun _ => ht, _, _, List.prefix_refl _, ht⟩
    · refine update_conns (P := fun j conn => conn.Logged c _ j) h.logged ⟨fun _ hi => ?_, ?_⟩
      · have hmem := hlogged.1 hopen (hinit.mp hi)
        have hlong := (tracks_take htracks (hinit.mp hi)).1
        rwa [List.take_append_of_le_length (by omega)]
      · exact hlogged.longer bytes
  | accepted hbefore hinit hfresh ht =>
    obtain rfl := Option.some.inj hs
    obtain ⟨hlong, hsalt⟩ := tracks_take ht hinit
    have hmem : Entry.stream i (((s.conns i).input ++ bytes).take c.keyLen) ∈
        s.log ++ [.stream i ctx'.salt] := by
      rw [← hsalt]
      exact List.mem_append_right _ (List.mem_singleton_self _)
    rw [if_pos hbefore]
    have hadds : Adds sz s
        { s with pp := ppbloomAdd sz s.pp ctx'.salt, log := s.log ++ [.stream i ctx'.salt] } :=
      .accepted (.stream i ctx'.salt) hfresh rfl rfl
    obtain ⟨hpp, hfresh⟩ := log_step h hadds
    refine ⟨hpp, hfresh, ?_, ?_, ?_⟩
    · exact update_conns (P := fun j conn => Wrote c (salts j) conn.eCtx conn.sent conn.wire)
        h.wrote (h.wrote i)
    · exact update_conns (P := fun _ conn => conn.Read c) h.read
        ⟨fun _ => ht, _, _, List.prefix_refl _, ht⟩
    · exact update_conns (P := fun j conn => conn.Logged c _ j)
        (fun j => (h.logged j).mono (List.subset_append_left ..))
        ⟨fun _ _ => hmem, fun _ => ⟨hlong, hmem⟩⟩
  | more hbefore hinit hsalt ht =>
    obtain rfl := Option.some.inj hs
    have hmem : Entry.stream i (((s.conns i).input ++ bytes).take c.keyLen) ∈ s.log := by
      have hmem := hlogged.1 hopen hbefore
      have hlong := (tracks_take htracks hbefore).1
      rwa [List.take_append_of_le_length (by omega)]
    rw [if_neg (fun h => h hbefore)]
    refine ⟨h.pp, h.fresh, ?_, ?_, ?_⟩
    · exact update_conns (P := fun j conn => Wrote c (salts j) conn.eCtx conn.sent conn.wire)
        h.wrote (h.wrote i)
    · exact update_conns (P := fun _ conn => conn.Read c) h.read
        ⟨fun _ => ht, _, _, List.prefix_refl _, ht⟩
    · exact update_conns (P := fun j conn => conn.Logged c _ j) h.logged
        ⟨fun _ _ => hmem, fun _ => ⟨(tracks_take ht hinit).1, hmem⟩⟩
  | replayed | refused =>
    obtain rfl := Option.some.inj hs
    refine ⟨h.pp, h.fresh, ?_, ?_, ?_⟩
    · exact update_conns (P := fun j conn => Wrote c (salts j) conn.eCtx conn.sent conn.wire)
        h.wrote (h.wrote i)
    · exact update_conns (P := fun _ conn => conn.Read c) h.read (hread _ true rfl)
    · exact update_conns (P := fun j conn => conn.Logged c _ j) h.logged
        ⟨fun hf => Bool.noConfusion hf, hlogged.longer bytes⟩

theorem aeadDecryptAll_cases (c : Cipher) (sz : Sizes) (pp : Filter) (ciphertext : List UInt8) :
    aeadDecryptAll c sz pp ciphertext = (none, pp) ∨
      ppbloomCheck pp (ciphertext.take c.keyLen) = false ∧ ∃ p,
        aeadDecryptAll c sz pp ciphertext = (some p, ppbloomAdd sz pp (ciphertext.take c.keyLen)) := by
  rw [aeadDecryptAll]
  split
  · exact .inl rfl
  dsimp only
  split
  · exact .inl rfl
  rename_i hfresh
  split
  · exact .inl rfl
  · exact .inr ⟨by simpa [aeadCtxInit] using hfresh, _, rfl⟩

theorem aeadDecryptAll_adds (c : Cipher) (sz : Sizes) (s : Process) (ciphertext : List UInt8) :
    let r := aeadDecryptAll c sz s.pp ciphertext
    Adds sz s { s with
      pp := r.2
      log := if r.1.isSome then s.log ++ [.datagram (ciphertext.take c.keyLen)] else s.log } := by
  obtain h | ⟨hfresh, p, h⟩ := aeadDecryptAll_cases c sz s.pp ciphertext
  · rw [h]
    exact .nothing rfl rfl
  · rw [h]
    exact .accepted (.datagram (ciphertext.take c.keyLen)) hfresh rfl rfl

theorem step_inv {s s' : Process} {e : Event} (h : Inv c sz salts s) (hs : step c sz s e = some s') :
    Inv c sz salts s' := by
  cases e with
  | encrypt i p => exact encryptOn_inv h hs
  | decrypt i bytes => exact decryptOn_inv h hs
  | encryptAll salt p =>
    obtain rfl := Option.some.inj hs
    have hadds : Adds sz s { s with pp := ppbloomAdd sz s.pp salt, log := s.log ++ [.own salt] } :=
      .own salt rfl rfl
    obtain ⟨hpp, hfresh⟩ := log_step h hadds
    exact ⟨hpp, hfresh, h.wrote, h.read, fun i => (h.logged i).mono (List.subset_append_left ..)⟩
  | decryptAll ciphertext =>
    obtain rfl := Option.some.inj hs
    obtain ⟨hpp, hfresh⟩ := log_step h (aeadDecryptAll_adds c sz s ciphertext)
    refine ⟨hpp, hfresh, h.wrote, h.read, fun i => (h.logged i).mono ?_⟩
    dsimp only
    split
    · exact List.subset_append_left ..
    · exact List.Subset.refl _

theorem inv_run {es : List Event} {s : Process}
    (h : Machine.run (step c sz) es (start c sz salts) = some s) : Inv c sz salts s :=
  Machine.invariant (fun _ _ _ => step_inv) (inv_start c sz salts) h

/-! ### What is given out -/

/-- A cipher that can be worked through by hand: the subkey is the salt read backwards, the tag is the
length and the nonce. -/
def sampleCipher : Cipher :=
  aeadKeyInit id [4, 2]
    { keyLen := 2
      nonceLen := 1
      tagLen := 2
      key := []
      hmacSha1 := fun k x => if x = [4, 2] then k.reverse else k
      cipherEncrypt := fun k n p =>
        p.map (· ^^^ k.headD 0) ++ [UInt8.ofNat (160 + p.length), n.headD 0]
      cipherDecrypt := fun k n x =>
        let p := x.take (x.length - 2)
        if x.drop (x.length - 2) = [UInt8.ofNat (160 + p.length), n.headD 0] then
          some (p.map (· ^^^ k.headD 0))
        else none }

/-- Two plaintexts on connection 0. -/
def sampleSends : List Event := [.encrypt 0 [5, 6], .encrypt 0 [7]]

/-- The bytes of the two plaintexts in three pieces; in between connection 1 gets the first of them,
again, and a datagram is sent. -/
def sampleReceives : List Event :=
  [.decrypt 0 [1, 9, 9, 11, 162, 0, 12, 15, 162, 1, 9], .encryptAll [3, 3] [1],
    .decrypt 1 [1, 9, 9, 11, 162, 0, 12, 15, 162, 1], .decrypt 0 [8, 162, 2],
    .decrypt 0 [14, 161, 3]]

def sampleRun (es : List Event) : Option Process :=
  Machine.run (step sampleCipher Ppbloom.smallSizes) es (start sampleCipher Ppbloom.smallSizes fun _ => [1, 9])

/-- **No salt is accepted that was among the last `entries` salts of the process, whoever used it;
and a connection that has given out data had its salt accepted.** -/
theorem accepted_fresh {es : List Event} {s : Process}
    (h : Machine.run (step c sz) es (start c sz salts) = some s) :
    (∀ j k e e', s.log[j]? = some e → s.log[k]? = some e' → e'.Accepted → e.salt = e'.salt → j < k →
      j + sz.entries < k) ∧
    (∀ i, (s.conns i).delivered ≠ [] → .stream i ((s.conns i).input.take c.keyLen) ∈ s.log) := by
  have hinv := inv_run h
  refine ⟨fun j k e e' hj hk he' heq hjk => ?_, fun i hd => ((hinv.logged i).2 hd).2⟩
  by_contra hnear
  refine hinv.fresh k e' hk he' ?_
  obtain ⟨hlt, hget⟩ := List.getElem?_eq_some_iff.mp hj
  rw [List.mem_iff_getElem?]
  refine ⟨j - (k - sz.entries), ?_⟩
  rw [List.getElem?_drop, List.getElem?_map, List.getElem?_take_of_lt (by omega),
    show k - sz.entries + (j - (k - sz.entries)) = j by omega, hj, Option.map_some, heq]

theorem accepted_fresh_sample : ∃ s, sampleRun sampleReceives = some s ∧
    s.log.length = 2 ∧ (s.conns 0).delivered = [5, 6, 7] ∧
      .stream 0 ((s.conns 0).input.take 2) ∈ s.log := by
  have hrun := Option.eq_some_of_isSome
    (show (sampleRun sampleReceives).isSome = true by decide +kernel)
  refine ⟨_, hrun, by decide +kernel, by decide +kernel, (accepted_fresh hrun).2 0 ?_⟩
  decide +kernel

/-- A step reads on connection `j`, or leaves what the connection has read as it is. -/
theorem step_reading {s s' : Process} {e : Event} (hs : step c sz s e = some s') (j : Nat) :
    (∃ bytes, e = .decrypt j bytes) ∨
      (s'.conns j).input = (s.conns j).input ∧ (s'.conns j).closed = (s.conns j).closed := by
  have hother : ∀ {i : Nat} {conn : Conn}, conn.input = (s.conns i).input →
      conn.closed = (s.conns i).closed → (Function.update s.conns i conn j).input = (s.conns j).input ∧
        (Function.update s.conns i conn j).closed = (s.conns j).closed := by
    intro i conn hi hc
    exact update_conns (P := fun j conn => conn.input = (s.conns j).input ∧
      conn.closed = (s.conns j).closed) (fun _ => ⟨rfl, rfl⟩) ⟨hi, hc⟩ j
  cases e with
  | encrypt i p =>
    rw [step, encryptOn] at hs
    split at hs
    · cases hs
    obtain ⟨r, -, rfl⟩ := Option.map_eq_some_iff.mp hs
    exact .inr (hother rfl rfl)
  | decrypt i bytes =>
    by_cases hij : i = j
    · exact .inl ⟨bytes, by rw [hij]⟩
    · refine .inr ?_
      rw [step, decryptOn] at hs
      dsimp only at hs
      split at hs
      · cases hs
      split at hs <;> obtain rfl := Option.some.inj hs <;>
        exact ⟨congrArg Conn.input (Function.update_of_ne (Ne.symm hij) ..),
          congrArg Conn.closed (Function.update_of_ne (Ne.symm hij) ..)⟩
  | encryptAll salt p =>
    obtain rfl := Option.some.inj hs
    exact .inr ⟨rfl, rfl⟩
  | decryptAll ciphertext =>
    obtain rfl := Option.some.inj hs
    exact .inr ⟨rfl, rfl⟩

/-- Why a connection is closed. -/
theorem decryptOn_closed {s s' : Process} {i : Nat} {bytes : List UInt8} (h : Inv c sz salts s)
    (hs : decryptOn c sz s i bytes = some s') :
    (s'.conns i).input = (s.conns i).input ++ bytes ∧ ((s'.conns i).closed = true →
      c.keyLen < (s'.conns i).input.length ∧ ((chunksOf c (s'.conns i).input).refused = true ∨
        (s.conns i).dCtx.init ≠ 2 ∧
          ppbloomCheck s.pp ((s'.conns i).input.take c.keyLen) = true)) := by
  rw [decryptOn] at hs
  dsimp only at hs
  split at hs
  · cases hs
  rename_i hopen
  have hopen : (s.conns i).closed = false := by simpa using hopen
  have hreceives := aeadDecrypt_receives sz s.pp ((h.read i).1 hopen) bytes
  generalize aeadDecrypt c sz s.pp (s.conns i).dCtx bytes = r at hs hreceives
  obtain ⟨res, pp', ctx'⟩ := r
  dsimp only at hs hreceives
  cases hreceives with
  | needMore | accepted | more =>
    obtain rfl := Option.some.inj hs
    dsimp only
    rw [Function.update_self]
    exact ⟨rfl, fun hc => absurd (hopen.symm.trans hc) Bool.false_ne_true⟩
  | replayed hbefore hlong hfound =>
    obtain rfl := Option.some.inj hs
    dsimp only
    rw [Function.update_self]
    exact ⟨rfl, fun _ => ⟨hlong, .inr ⟨hbefore, hfound⟩⟩⟩
  | refused hlong hrefused =>
    obtain rfl := Option.some.inj hs
    dsimp only
    rw [Function.update_self]
    exact ⟨rfl, fun _ => ⟨hlong, .inl hrefused⟩⟩

/-- The salt of connection `j` is not in the filter when it is looked up. -/
def Unseen (c : Cipher) (j : Nat) (s : Process) : Event → Prop
  | .decrypt i bytes => i = j → (s.conns j).dCtx.init ≠ 2 →
      c.keyLen < ((s.conns j).input ++ bytes).length →
        ppbloomCheck s.pp (((s.conns j).input ++ bytes).take c.keyLen) = false
  | .encrypt _ _ | .encryptAll _ _ | .decryptAll _ => True

instance (c : Cipher) (j : Nat) (s : Process) : ∀ e, Decidable (Unseen c j s e)
  | .decrypt _ _ => inferInstanceAs (Decidable (_ → _))
  | .encrypt _ _ | .encryptAll _ _ | .decryptAll _ => inferInstanceAs (Decidable True)

/-- How many chunks of `sent` are complete in the first `k` bytes after the salt `x`. -/
def completeChunks (c : Cipher) (x : List UInt8) (sent : List (List UInt8)) (k : Nat) : Nat :=
  Frames.complete nextNonce (chunkBytes c (c.subkey x)) (nonceAt c 0) sent k

theorem completeChunks_zero (hc : c.Correct) (x : List UInt8) (sent : List (List UInt8)) :
    completeChunks c x sent 0 = 0 := by
  cases sent with
  | nil => rfl
  | cons p sent =>
    rw [completeChunks, Frames.complete, length_chunkBytes hc, if_pos (by simp [chunkSizeLen])]

/-- What is read from the beginning of a stream that was written. -/
theorem chunksOf_wire (hc : c.Correct) {x input : List UInt8} {sent : List (List UInt8)}
    (hx : x.length = c.keyLen) (hgood : ∀ p ∈ sent, Chunk p) (hlong : c.keyLen < input.length)
    (hinput : input <+:
      x ++ Frames.encodes nextNonce (chunkBytes c (c.subkey x)) (nonceAt c 0) sent) :
    (chunksOf c input).refused = false ∧ (chunksOf c input).out =
      (sent.take (completeChunks c x sent (input.length - c.keyLen))).flatten := by
  have htake : input.take c.keyLen = x := by
    rw [List.prefix_iff_eq_take.mp hinput, List.take_take, Nat.min_eq_left (by omega)]
    exact List.take_left' hx
  have hdrop : input.drop c.keyLen =
      (Frames.encodes nextNonce (chunkBytes c (c.subkey x)) (nonceAt c 0) sent).take
        (input.length - c.keyLen) := by
    rw [List.prefix_iff_eq_take.mp hinput, List.drop_take, List.drop_left' hx, List.length_take]
    have hle := hinput.length_le
    rw [Nat.min_eq_left hle]
  rw [chunksOf, htake, hdrop, Frames.drain_encoded (chunkDecoder_encodes hc _) _ _ hgood]
  exact ⟨rfl, rfl⟩

/-- **What has arrived of the bytes that a connection of another process wrote gives the chunks that
are complete, however the bytes were cut and whatever else the two processes did: the connection
stays open, nothing is lost, repeated or out of order, and when all bytes have arrived everything
that was sent has been given out.** -/
theorem delivered_of_wire (hc : c.Correct) {szP szQ : Sizes} {saltsP saltsQ : Nat → List UInt8}
    {es fs : List Event} {P Q : Process} {i j : Nat} (hlen : (saltsP i).length = c.keyLen)
    (hP : Machine.run (step c szP) es (start c szP saltsP) = some P)
    (hQ : Machine.run (step c szQ) fs (start c szQ saltsQ) = some Q)
    (hunseen : Machine.Along (step c szQ) (Unseen c j) fs (start c szQ saltsQ))
    (hwire : (Q.conns j).input <+: (P.conns i).wire) :
    (Q.conns j).closed = false ∧
      (Q.conns j).delivered = ((P.conns i).sent.take (completeChunks c (saltsP i) (P.conns i).sent
        ((Q.conns j).input.length - c.keyLen))).flatten ∧
      ((Q.conns j).input = (P.conns i).wire → (Q.conns j).delivered = (P.conns i).sent.flatten) := by
  have hwrote := (inv_run hP).wrote i
  generalize (P.conns i).sent = sent at *
  generalize (P.conns i).wire = wire at *
  generalize (P.conns i).eCtx = eCtx at *
  generalize saltsP i = x at *
  -- a prefix of the stream is never refused, and gives its complete chunks
  have hchunks : ∀ input, input <+: wire → c.keyLen < input.length →
      (chunksOf c input).refused = false ∧ (chunksOf c input).out =
        (sent.take (completeChunks c x sent (input.length - c.keyLen))).flatten := by
    intro input hinput hlong
    cases hwrote with
    | nothing _ _ hwire =>
      subst hwire
      rw [List.prefix_nil.mp hinput] at hlong
      exact absurd hlong (Nat.not_lt_zero _)
    | chunks _ _ _ _ hgood hwire =>
      subst hwire
      exact chunksOf_wire hc hlen hgood hlong hinput
  have hopen : Inv c szQ saltsQ Q ∧ ((Q.conns j).input <+: wire → (Q.conns j).closed = false) := by
    refine Machine.invariant_along (P := Unseen c j)
      (I := fun s => Inv c szQ saltsQ s ∧ ((s.conns j).input <+: wire → (s.conns j).closed = false))
      ?_ ⟨inv_start c szQ saltsQ, fun _ => rfl⟩ hunseen hQ
    intro s e s' ⟨hinv, hopen⟩ hP hs
    refine ⟨step_inv hinv hs, fun hinput => ?_⟩
    obtain ⟨bytes, rfl⟩ | ⟨hsame, hclosed⟩ := step_reading hs j
    · obtain ⟨heq, hwhy⟩ := decryptOn_closed hinv hs
      by_contra hcl
      obtain ⟨hlong, hrefused | ⟨hbefore, hfound⟩⟩ := hwhy (by simpa using hcl)
      · rw [(hchunks _ hinput hlong).1] at hrefused
        exact Bool.noConfusion hrefused
      · rw [heq] at hlong hfound
        have hunseen := hP rfl hbefore hlong
        rw [hfound] at hunseen
        exact Bool.noConfusion hunseen
    · rw [hclosed]
      exact hopen (hsame ▸ hinput)
  obtain ⟨hinv, hopen⟩ := hopen
  have hclosed := hopen hwire
  have hdelivered : (Q.conns j).delivered =
      (sent.take (completeChunks c x sent ((Q.conns j).input.length - c.keyLen))).flatten := by
    cases (hinv.read j).1 hclosed with
    | waiting _ _ hshort hnone =>
      rw [hnone, Nat.sub_eq_zero_of_le hshort, completeChunks_zero hc]
      rfl
    | reading _ hlong _ _ hout =>
      rw [← (hchunks _ hwire hlong).2, hout]
  refine ⟨hclosed, hdelivered, fun hall => ?_⟩
  rw [hdelivered, hall]
  cases hwrote with
  | nothing _ hsent => rw [hsent, List.take_nil]
  | chunks _ _ _ _ _ hw =>
    rw [completeChunks, Frames.complete_all, List.take_length]
    rw [hw, List.length_append, hlen]
    omega

theorem sampleCipher_correct : sampleCipher.Correct where
  length_encrypt k n p := by simp [sampleCipher, aeadKeyInit]
  decrypt_encrypt k n p := by
    simp [sampleCipher, aeadKeyInit, Function.comp_def]

theorem delivered_of_wire_sample : ∃ P Q, sampleRun sampleSends = some P ∧
    sampleRun sampleReceives = some Q ∧ (Q.conns 0).closed = false ∧
      (Q.conns 0).delivered = (P.conns 0).sent.flatten ∧ (Q.conns 0).delivered = [5, 6, 7] := by
  have hP := Option.eq_some_of_isSome (show (sampleRun sampleSends).isSome = true by decide +kernel)
  have hQ := Option.eq_some_of_isSome
    (show (sampleRun sampleReceives).isSome = true by decide +kernel)
  obtain ⟨hopen, -, hall⟩ := delivered_of_wire (i := 0) (j := 0) sampleCipher_correct rfl hP hQ
    (by decide +kernel) (by decide +kernel)
  exact ⟨_, _, hP, hQ, hopen, hall (by decide +kernel), by decide +kernel⟩

/-! ### Whatever arrives -/

/-- What `P` has sealed under the key of `salt`, with the numbers of the nonces. -/
def Process.Sealed (P : Process) (salt : List UInt8) (k : Nat) (m : List UInt8) : Prop :=
  (∃ i, (P.conns i).eCtx.salt = salt ∧ (k, m) ∈ sealedParts (P.conns i).sent) ∨
    k = 0 ∧ (salt, m) ∈ P.datagrams

/-- **Nothing was forged**: what can be decrypted in `input`, under the key of its salt, was sealed by
`P` under this key and this nonce. -/
def Unforged (c : Cipher) (P : Process) (input : List UInt8) : Prop :=
  ∀ n x m, n.length = c.nonceLen → x <:+: input →
    c.cipherDecrypt (c.subkey (input.take c.keyLen)) n x = some m →
      ∃ k, n = nonceAt c k ∧ k < 256 ^ c.nonceLen ∧ P.Sealed (input.take c.keyLen) k m

theorem authentic_mono {input input' : List UInt8} {ps : List (List UInt8)}
    (h : Authentic c input ps) (hle : input' <+: input) (hlong : c.keyLen < input'.length) :
    Authentic c input' ps := by
  intro n x m hn hx hm
  have htake : input'.take c.keyLen = input.take c.keyLen := by
    rw [List.prefix_iff_eq_take.mp hle, List.take_take, Nat.min_eq_left (by omega)]
  exact h n x m hn (hx.trans hle.isInfix) (htake ▸ hm)

/-- What a connection has given out, if its input is authentic. -/
theorem read_authentic {conn : Conn} {ps : List (List UInt8)} (h : conn.Read c)
    (hauth : Authentic c conn.input ps) (hps : 2 * ps.length + 2 ≤ 256 ^ c.nonceLen) :
    ∃ n, n ≤ ps.length ∧ conn.delivered = (ps.take n).flatten := by
  obtain ⟨-, ctx, input, hle, ht⟩ := h
  cases ht with
  | waiting _ _ _ hnone => exact ⟨0, Nat.zero_le _, hnone⟩
  | reading _ hlong _ _ hout =>
    obtain ⟨n, hn, hread⟩ := chunksOf_authentic (authentic_mono hauth hle hlong) hps
    rw [hout] at hread
    exact ⟨n, hn, hread⟩

/-- **Whatever bytes arrive on a connection, and however the process is used otherwise: if nothing was
forged, the connection gives out nothing, or whole plaintexts from the beginning of what the
connection with the same salt was given to encrypt.** -/
theorem delivered_of_unforged {szP szQ : Sizes} {saltsP saltsQ : Nat → List UInt8}
    {es fs : List Event} {P Q : Process} {j : Nat}
    (hP : Machine.run (step c szP) es (start c szP saltsP) = some P)
    (hQ : Machine.run (step c szQ) fs (start c szQ saltsQ) = some Q)
    (hsalts : ∀ i i', (P.conns i).sent ≠ [] → (P.conns i').sent ≠ [] → saltsP i = saltsP i' → i = i')
    (hsent : ∀ i, 2 * (P.conns i).sent.length + 2 ≤ 256 ^ c.nonceLen)
    (hunforged : Unforged c P (Q.conns j).input) :
    (Q.conns j).delivered = [] ∨ ∃ i n, saltsP i = (Q.conns j).input.take c.keyLen ∧
      (Q.conns j).delivered = ((P.conns i).sent.take n).flatten := by
  have hread := (inv_run hQ).read j
  have hsalt : ∀ i, (P.conns i).eCtx.salt = saltsP i := fun i => wrote_salt ((inv_run hP).wrote i)
  have hne : ∀ i k m, (k, m) ∈ sealedParts (P.conns i).sent → (P.conns i).sent ≠ [] := by
    intro i k m hmem hnil
    rw [hnil] at hmem
    exact absurd hmem (List.not_mem_nil)
  by_cases hpeer : ∃ i, saltsP i = (Q.conns j).input.take c.keyLen ∧ (P.conns i).sent ≠ []
  · obtain ⟨i, hi, hi0⟩ := hpeer
    have hauth : Authentic c (Q.conns j).input (P.conns i).sent := by
      intro n x m hlen hx hm
      obtain ⟨k, hk, hlt, ⟨i', hi', hmem⟩ | ⟨h0, -⟩⟩ := hunforged n x m hlen hx hm
      · obtain rfl : i' = i := hsalts i' i (hne i' k m hmem) hi0 (by rw [← hsalt i', hi', hi])
        exact ⟨k, hk, hlt, .inl hmem⟩
      · exact ⟨k, hk, hlt, .inr h0⟩
    obtain ⟨n, -, hn⟩ := read_authentic hread hauth (hsent i)
    exact .inr ⟨i, n, hi, hn⟩
  · have hauth : Authentic c (Q.conns j).input [] := by
      intro n x m hlen hx hm
      obtain ⟨k, hk, hlt, ⟨i', hi', hmem⟩ | ⟨h0, -⟩⟩ := hunforged n x m hlen hx hm
      · exact absurd ⟨i', (hsalt i').symm.trans hi', hne i' k m hmem⟩ hpeer
      · exact ⟨k, hk, hlt, .inr h0⟩
    obtain ⟨n, -, hn⟩ := read_authentic hread hauth (le_trans (by simp) (hsent 0))
    exact .inl (by rw [hn, List.take_nil, List.flatten_nil])

/-- The same bytes, but for the tag of the last chunk. -/
def tamperedBytes : List UInt8 :=
  [1, 9, 9, 11, 162, 0, 12, 15, 162, 1, 9, 8, 162, 2, 14, 1, 3]

def tamperedReceives : List Event :=
  [.decrypt 0 (tamperedBytes.take 7), .decrypt 0 ((tamperedBytes.drop 7).take 6),
    .decrypt 0 (tamperedBytes.drop 13)]

/-- Each part of the bytes that has a tag was sealed. -/
theorem tamperedBytes_parts : ∀ t ∈ tamperedBytes.tails, ∀ x ∈ t.inits,
    ∀ m ∈ sampleCipher.cipherDecrypt [9, 1] [x.getLastD 0] x, (x.getLastD 0).toNat < 4 ∧
      ((x.getLastD 0).toNat, m) ∈ sealedParts [[5, 6], [7]] := by
  decide +kernel

theorem tamperedBytes_unforged {P : Process} (hsalt : (P.conns 0).eCtx.salt = [1, 9])
    (hsent : (P.conns 0).sent = [[5, 6], [7]]) : Unforged sampleCipher P tamperedBytes := by
  intro n x m hn hx hm
  obtain ⟨b, rfl⟩ := List.length_eq_one_iff.mp hn
  obtain ⟨t, hxt, ht⟩ := List.infix_iff_prefix_suffix.mp hx
  have hlast : x.getLastD 0 = b := by
    simp only [sampleCipher, aeadKeyInit] at hm
    split at hm
    · rename_i htag
      have happend := List.take_append_drop (x.length - 2) x
      rw [htag] at happend
      rw [← happend]
      simp
    · cases hm
  obtain ⟨hlt, hmem⟩ := tamperedBytes_parts t ((List.mem_tails _ _).mpr ht) x
    ((List.mem_inits _ _).mpr hxt) m (hlast ▸ hm)
  rw [hlast] at hlt hmem
  have hnonce : ∀ k < 4, [UInt8.ofNat k] = nonceAt sampleCipher k := by decide
  refine ⟨b.toNat, ?_, lt_of_lt_of_le hlt (by decide), .inl ⟨0, hsalt, hsent.symm ▸ hmem⟩⟩
  rw [← hnonce _ hlt, UInt8.ofNat_toNat]

theorem encryptOn_other {s s' : Process} {i j : Nat} {p : List UInt8}
    (hs : encryptOn c sz s i p = some s') (hj : j ≠ i) : s'.conns j = s.conns j := by
  rw [encryptOn] at hs
  split at hs
  · cases hs
  obtain ⟨r, -, rfl⟩ := Option.map_eq_some_iff.mp hs
  exact Function.update_of_ne hj ..

theorem sampleSends_other {P : Process} (h : sampleRun sampleSends = some P) {i : Nat} (hi : i ≠ 0) :
    (P.conns i).sent = [] := by
  rw [sampleRun, sampleSends, Machine.run] at h
  obtain ⟨s, hs, h⟩ := Option.bind_eq_some_iff.mp h
  rw [Machine.run] at h
  obtain ⟨s', hs', h⟩ := Option.bind_eq_some_iff.mp h
  rw [step] at hs hs'
  rw [← Option.some.inj h, encryptOn_other hs' hi, encryptOn_other hs hi]
  rfl

theorem delivered_of_unforged_tampered : ∃ P Q, sampleRun sampleSends = some P ∧
    sampleRun tamperedReceives = some Q ∧ (Q.conns 0).delivered = [5, 6] ∧
      ((Q.conns 0).delivered = [] ∨ ∃ i n, [1, 9] = (Q.conns 0).input.take 2 ∧
        (Q.conns 0).delivered = ((P.conns i).sent.take n).flatten) := by
  have hP := Option.eq_some_of_isSome (show (sampleRun sampleSends).isSome = true by decide +kernel)
  have hQ := Option.eq_some_of_isSome
    (show (sampleRun tamperedReceives).isSome = true by decide +kernel)
  refine ⟨_, _, hP, hQ, by decide +kernel, delivered_of_unforged (j := 0) hP hQ ?_ ?_ ?_⟩
  · intro i i' hi hi' _
    rw [not_imp_comm.mp (sampleSends_other hP) hi, not_imp_comm.mp (sampleSends_other hP) hi']
  · intro i
    by_cases hi : i = 0
    · subst hi
      decide +kernel
    · rw [sampleSends_other hP hi]
      decide
  · rw [show (((sampleRun tamperedReceives).get _).conns 0).input = tamperedBytes by decide +kernel]
    exact tamperedBytes_unforged (by decide +kernel) (by decide +kernel)

end Aead

end SsAndroid
