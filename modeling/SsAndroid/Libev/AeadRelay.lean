import SsAndroid.Libev.Contexts
import SsAndroid.Libev.Relay

/-!
# ss-local with an AEAD cipher

`aead.c` under `local.c`.  **`aeadRelay_run`**: where a server was chosen, it reads from any beginning of
what ss-local has sent a beginning of the address and of what the client sent, and refuses nothing; and
as long as what ss-local has read is a beginning of what this server wrote, the client gets a beginning
of what it was given to encrypt.  **`aeadRelay_idle`**: whenever ss-local reads from the client, the server
can have all that was read before.
-/

namespace SsAndroid

namespace AeadRelay

open Aead Local
open Ppbloom (Filter Sizes)
open Crypto (Streams)

def aeadStreams (c : Cipher) (sz : Sizes) : Streams Filter CipherCtx CipherCtx where
  encrypt := aeadEncrypt c sz
  decrypt := aeadDecrypt c sz

variable {c : Cipher} {sz : Sizes}

/-- An empty plaintext leaves no chunk. -/
theorem encrypted_wrote {x wire : List UInt8} {ps : List (List UInt8)} {e : CipherCtx}
    (h : Encrypted (aeadStreams c sz) (aeadCtxInit x) ps wire e) :
    Wrote c x e (ps.filter fun p => p ≠ []) wire := by
  induction h with
  | nil => exact .nothing rfl rfl rfl
  | @snoc ps wire p out e e' g g' before short encrypt ih =>
    have hr : aeadEncrypt c sz g e p = some (out, g', e') := encrypt
    rw [List.filter_append]
    by_cases hp : p = []
    · subst hp
      rw [aeadEncrypt, if_pos List.length_nil] at hr
      obtain ⟨rfl, rfl, rfl⟩ := Prod.mk.inj (Option.some.inj hr) |>.imp id Prod.mk.inj
      simpa using ih
    · have hlen : p.length ≠ 0 := fun h => hp (List.eq_nil_of_length_eq_zero h)
      have hfilter : [p].filter (fun p => p ≠ []) = [p] := by simp [hp]
      rw [hfilter]
      exact (aeadEncrypt_wrote ih hlen hr).1

theorem deciphered_tracks {y input out : List UInt8} {d : CipherCtx}
    (h : Deciphered (aeadStreams c sz) (aeadCtxInit y) input out d) : Tracks c d input out := by
  induction h with
  | nil => exact .waiting rfl rfl (Nat.zero_le _) rfl
  | @ok input out bytes p d d' g g' before decrypt ih =>
    have hr : aeadDecrypt c sz g d bytes = (.ok p, g', d') := decrypt
    have hreceives := aeadDecrypt_receives sz g ih bytes
    rw [hr] at hreceives
    dsimp only at hreceives
    cases hreceives with
    | accepted _ _ _ htracks => exact htracks
    | more _ _ _ htracks => exact htracks
  | @needMore input out bytes d d' g g' before decrypt ih =>
    have hr : aeadDecrypt c sz g d bytes = (.needMore, g', d') := decrypt
    have hreceives := aeadDecrypt_receives sz g ih bytes
    rw [hr] at hreceives
    dsimp only at hreceives
    cases hreceives with
    | needMore _ htracks => exact htracks

/-- What is read from the beginning of what was written. -/
theorem read_wrote (hc : c.Correct) {x input wire : List UInt8} {ctx : CipherCtx}
    {sent : List (List UInt8)} (hx : x.length = c.keyLen) (hwrote : Wrote c x ctx sent wire)
    (hinput : input <+: wire) (hlong : c.keyLen < input.length) :
    (chunksOf c input).refused = false ∧ (chunksOf c input).out <+: sent.flatten := by
  cases hwrote with
  | nothing _ _ hwire =>
    subst hwire
    rw [List.prefix_nil.mp hinput] at hlong
    exact absurd hlong (Nat.not_lt_zero _)
  | chunks _ _ _ _ hgood hwire =>
    subst hwire
    obtain ⟨hrefused, hout⟩ := chunksOf_wire hc hx hgood hlong hinput
    rw [hout]
    exact ⟨hrefused, (List.take_prefix _ _).flatten⟩

/-- All that was written is read. -/
theorem read_wrote_all (hc : c.Correct) {x wire : List UInt8} {ctx : CipherCtx}
    {sent : List (List UInt8)} (hx : x.length = c.keyLen) (hwrote : Wrote c x ctx sent wire)
    (hsent : sent ≠ []) : (chunksOf c wire).out = sent.flatten := by
  cases hwrote with
  | nothing _ h => exact absurd h hsent
  | chunks _ _ _ _ hgood hwire =>
    rw [chunksOf, hwire, List.take_left' hx, List.drop_left' hx,
      Frames.drain_encodes (chunkDecoder_encodes hc _) _ _ hgood]

/-- What goes through a connection, as its two ends see it. -/
inductive Relays (c : Cipher) (cfg : Config) (s : Conn Filter CipherCtx CipherCtx) : Prop where
  | unrouted (route : s.route = none) (silent : Silent s) (told : Told s.fromClient s.toClient)
  | direct (route : s.route = some true) (abuf payload told : List UInt8)
      (asked : Asked s.fromClient abuf payload) (up : s.toRemote <+: payload)
      (taken : told <+: methodReply methodNoauth) (down : s.toClient <+: told ++ accepted ++ s.fromRemote)
  | proxied (route : s.route = some false) (abuf payload header told : List UInt8)
      (asked : Asked s.fromClient abuf payload) (isHeader : Header cfg abuf payload header)
      (up : ∀ got, got <+: s.toRemote → c.keyLen < got.length →
        (chunksOf c got).refused = false ∧ (chunksOf c got).out <+: header ++ payload)
      (taken : told <+: methodReply methodNoauth)
      (down : ∀ salt ctx sent wire, salt.length = c.keyLen → Wrote c salt ctx sent wire →
        s.fromRemote <+: wire → s.toClient <+: told ++ accepted ++ sent.flatten)

theorem relays_of_sound (hc : c.Correct) {cfg : Config} {x y : List UInt8}
    {s : Conn Filter CipherCtx CipherCtx} (hx : x.length = c.keyLen)
    (h : Sound (aeadStreams c sz) cfg (aeadCtxInit x) (aeadCtxInit y) s) : Relays c cfg s := by
  cases h with
  | unrouted route silent told => exact .unrouted route silent told
  | direct route abuf payload told asked up taken down =>
    exact .direct route abuf payload told asked up taken down
  | proxied route abuf payload header ps wire input told out e d asked isHeader encrypted plain up read
      deciphered taken down =>
    refine .proxied route abuf payload header told asked isHeader ?_ taken ?_
    · intro got hgot hlong
      obtain ⟨hrefused, hout⟩ := read_wrote hc hx (encrypted_wrote encrypted) (hgot.trans up) hlong
      rw [List.flatten_filter_ne_nil, List.flatten_cons] at hout
      exact ⟨hrefused, hout.trans ((List.prefix_append_right_inj header).mpr plain)⟩
    · intro salt ctx sent wire hsalt hwrote hwire
      refine down.trans ((List.prefix_append_right_inj (told ++ accepted)).mpr ?_)
      cases deciphered_tracks deciphered with
      | waiting _ _ _ hnone =>
        rw [hnone]
        exact List.nil_prefix
      | reading _ hlong _ _ hchunks =>
        have hout := (read_wrote hc hsalt hwrote (read.trans hwire) hlong).2
        rw [hchunks] at hout
        exact hout

/-- **Between the client and an honest server nothing changes.** -/
theorem aeadRelay_run (hc : c.Correct) {cfg : Config} {es : List (Event Filter)} {pp : Filter}
    {x y : List UInt8} {s : Conn Filter CipherCtx CipherCtx} (hx : x.length = c.keyLen)
    (hrun : Machine.run (step (aeadStreams c sz) cfg) es (newServer pp (aeadCtxInit x) (aeadCtxInit y)) =
      some s) : Relays c cfg s ∧ Routed es s := by
  have hinv : Inv (aeadStreams c sz) cfg (aeadCtxInit x) (aeadCtxInit y) s := run_inv hrun
  exact ⟨relays_of_sound hc hx hinv.sound, routed_run hrun⟩

/-- The request of `Local.requestEvents`, sent in two pieces. -/
def requestEvents : List (Event Filter) :=
  [.serverRecv (.bytes [5, 1, 0]) proxyAnswers,
    .serverRecv (.bytes [5, 1, 0, 1, 10, 20, 30, 40, 0, 80, 65, 66]) proxyAnswers,
    .remoteSend true (.bytes 4), .remoteSend true (.bytes 40)]

def requestRun : Option (Conn Filter CipherCtx CipherCtx) :=
  Machine.run (step (aeadStreams sampleCipher Ppbloom.smallSizes) plainConfig) requestEvents
    (newServer (Ppbloom.ppbloomInit Ppbloom.smallSizes) (aeadCtxInit [1, 9]) (aeadCtxInit [2, 9]))

theorem aeadRelay_run_request : ∃ s, requestRun = some s ∧ Relays sampleCipher plainConfig s ∧
    s.route = some false ∧
    (chunksOf sampleCipher s.toRemote).out = [1, 10, 20, 30, 40, 0, 80, 65, 66] := by
  have hrun := Option.eq_some_of_isSome (show requestRun.isSome = true by decide +kernel)
  exact ⟨_, hrun, (aeadRelay_run sampleCipher_correct rfl hrun).1, by decide +kernel, by decide +kernel⟩

/-- **While ss-local reads from the client, nothing of what it has read before is missing at the
server.** -/
theorem aeadRelay_idle (hc : c.Correct) {cfg : Config} {es : List (Event Filter)} {pp : Filter}
    {x y : List UInt8} {s : Conn Filter CipherCtx CipherCtx} {r : Remote} (hx : x.length = c.keyLen)
    (hrun : Machine.run (step (aeadStreams c sz) cfg) es (newServer pp (aeadCtxInit x) (aeadCtxInit y)) =
      some s) (hremote : s.remote = some r) (hproxied : r.direct = false) (hrecvOn : s.recvOn = true)
    (habuf : s.abuf = none) :
    ∃ abuf payload header, Asked s.fromClient abuf payload ∧ Header cfg abuf payload header ∧
      (chunksOf c s.toRemote).out = header ++ payload := by
  have hphase : Phase (aeadStreams c sz) cfg (aeadCtxInit x) (aeadCtxInit y) s := by
    refine (run_inv hrun).resolve_right fun h => ?_
    have hnone := h.1.remote
    rw [hremote] at hnone
    cases hnone
  obtain ⟨abuf, payload, hs, hup⟩ := hphase.remote hremote
  obtain ⟨-, -, hnil, hready⟩ | ⟨hoff, -⟩ := hup
  · cases hready with
    | direct hd =>
      rw [hproxied] at hd
      cases hd
    | proxied hd header ps hheader henc hplain htx =>
      rw [habuf, Option.getD_none, List.append_nil] at henc
      rw [hnil, List.append_nil] at hplain
      have hsent : (header :: ps).filter (fun p => p ≠ []) ≠ [] := by
        rw [List.filter_cons_of_pos (by simpa using hheader.ne_nil hs.asked.1)]
        exact List.cons_ne_nil _ _
      have hout := read_wrote_all hc hx (encrypted_wrote henc) hsent
      rw [List.flatten_filter_ne_nil, List.flatten_cons, hplain] at hout
      exact ⟨abuf, payload, header, hs.asked, hheader, hout⟩
  · rw [hrecvOn] at hoff
    cases hoff

theorem aeadRelay_idle_request : ∃ s, requestRun = some s ∧
    ∃ abuf payload header, Asked s.fromClient abuf payload ∧
      Header plainConfig abuf payload header ∧
      (chunksOf sampleCipher s.toRemote).out = header ++ payload := by
  have hrun := Option.eq_some_of_isSome (show requestRun.isSome = true by decide +kernel)
  refine ⟨_, hrun, aeadRelay_idle (r := ⟨false, [], true, true, false, false⟩) sampleCipher_correct rfl
    hrun ?_ rfl ?_ ?_⟩ <;> decide +kernel

end AeadRelay

end SsAndroid
