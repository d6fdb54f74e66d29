import SsAndroid.Lib.Machine
import SsAndroid.Libev.Aead

/-!
# Datagrams through ss-local

`udprelay.c` and `cache.c`: a datagram of a client goes out of a socket of its own, which is kept in a
cache with the client's address as the key; the cache drops the socket that was not used for the
longest time.  What comes back through a socket goes to the client the socket was opened for.

**`relayed_run`**: no datagram goes to a client, or out of a socket, that it does not belong to.
-/

namespace SsAndroid

/-! ### cache.c -/

namespace Cache

variable {κ ν : Type}

/-- The entries as uthash goes through them: the one that was added last is at the end. -/
abbrev Entries (κ ν : Type) := List (κ × ν)

/-- `cache_insert`, with room for `maxEntries`. -/
def cacheInsert (maxEntries : Nat) (key : κ) (data : ν) (es : Entries κ ν) : Entries κ ν :=
  let es := es ++ [(key, data)]
  if maxEntries ≤ es.length then es.tail else es

theorem mem_of_mem_cacheInsert {maxEntries : Nat} {key : κ} {data : ν} {es : Entries κ ν} {e : κ × ν}
    (h : e ∈ cacheInsert maxEntries key data es) : e ∈ es ∨ e = (key, data) := by
  rw [cacheInsert] at h
  have h : e ∈ es ++ [(key, data)] := by
    split at h
    · exact List.mem_of_mem_tail h
    · exact h
  simpa using h

theorem nodup_cacheInsert {maxEntries : Nat} {key : κ} {data : ν} {es : Entries κ ν}
    (h : (es.map Prod.fst).Nodup) (hkey : key ∉ es.map Prod.fst) :
    ((cacheInsert maxEntries key data es).map Prod.fst).Nodup := by
  have happend : ((es ++ [(key, data)]).map Prod.fst).Nodup := by
    rw [List.map_append, List.map_singleton, List.nodup_append]
    refine ⟨h, List.nodup_singleton _, ?_⟩
    intro a ha b hb hab
    rw [List.mem_singleton] at hb
    rw [hab, hb] at ha
    exact hkey ha
  rw [cacheInsert]
  split
  · exact happend.sublist ((List.tail_sublist _).map _)
  · exact happend

theorem length_cacheInsert {maxEntries : Nat} {key : κ} {data : ν} {es : Entries κ ν}
    (h : es.length < maxEntries) : (cacheInsert maxEntries key data es).length < maxEntries := by
  rw [cacheInsert]
  split
  · rw [List.length_tail, List.length_append, List.length_singleton, Nat.add_sub_cancel]
    exact h
  · rename_i hroom
    exact Nat.lt_of_not_le hroom

variable [DecidableEq κ]

/-- `cache_lookup`: an entry that is found is added anew. -/
def cacheLookup (key : κ) (es : Entries κ ν) : Option ν × Entries κ ν :=
  match es.find? fun e => e.1 = key with
  | none => (none, es)
  | some e => (some e.2, (es.filter fun e => e.1 ≠ key) ++ [e])

def cacheRemove (key : κ) (es : Entries κ ν) : Entries κ ν := es.filter fun e => e.1 ≠ key

theorem mem_cacheLookup (key : κ) (es : Entries κ ν) (h : (es.map Prod.fst).Nodup) (e : κ × ν) :
    e ∈ (cacheLookup key es).2 ↔ e ∈ es := by
  rw [cacheLookup]
  cases hfind : es.find? fun e => e.1 = key with
  | none => exact Iff.rfl
  | some e' =>
    have hmem := List.mem_of_find?_eq_some hfind
    have hkey : e'.1 = key := by simpa using List.find?_some hfind
    rw [List.mem_append, List.mem_filter, List.mem_singleton]
    constructor
    · rintro (⟨he, -⟩ | rfl)
      · exact he
      · exact hmem
    · intro he
      by_cases hne : e.1 = key
      · exact .inr (List.inj_on_of_nodup_map h he hmem (hne.trans hkey.symm))
      · exact .inl ⟨he, by simpa using hne⟩

theorem nodup_cacheLookup (key : κ) {es : Entries κ ν} (h : (es.map Prod.fst).Nodup) :
    ((cacheLookup key es).2.map Prod.fst).Nodup := by
  rw [cacheLookup]
  cases hfind : es.find? fun e => e.1 = key with
  | none => exact h
  | some e' =>
    have hkey : e'.1 = key := by simpa using List.find?_some hfind
    rw [List.map_append, List.map_singleton, List.nodup_append]
    refine ⟨(h.sublist (List.filter_sublist.map _)), List.nodup_singleton _, ?_⟩
    intro a ha b hb
    obtain ⟨e, he, rfl⟩ := List.mem_map.mp ha
    rw [List.mem_singleton] at hb
    have hne : e.1 ≠ key := by simpa using (List.mem_filter.mp he).2
    rw [hb, hkey]
    exact hne

theorem perm_cacheLookup (key : κ) {es : Entries κ ν} (h : (es.map Prod.fst).Nodup) :
    (cacheLookup key es).2.Perm es :=
  (List.perm_ext_iff_of_nodup (nodup_cacheLookup key h).of_map h.of_map).mpr (mem_cacheLookup key es h)

theorem cacheLookup_some {key : κ} {es : Entries κ ν} {data : ν}
    (h : (cacheLookup key es).1 = some data) : (key, data) ∈ es := by
  rw [cacheLookup] at h
  cases hfind : es.find? fun e => e.1 = key with
  | none =>
    rw [hfind] at h
    cases h
  | some e =>
    rw [hfind] at h
    have hkey : e.1 = key := by simpa using List.find?_some hfind
    have hdata : e.2 = data := Option.some.inj h
    rw [← hkey, ← hdata]
    exact List.mem_of_find?_eq_some hfind

theorem cacheLookup_none {key : κ} {es : Entries κ ν} (h : (cacheLookup key es).1 = none) :
    key ∉ es.map Prod.fst := by
  rw [cacheLookup] at h
  cases hfind : es.find? fun e => e.1 = key with
  | none =>
    intro hmem
    obtain ⟨e, he, hkey⟩ := List.mem_map.mp hmem
    have hno := List.find?_eq_none.mp hfind e he
    exact hno (by simpa using hkey)
  | some e =>
    rw [hfind] at h
    cases h

theorem mem_cacheRemove {key : κ} {es : Entries κ ν} {e : κ × ν} :
    e ∈ cacheRemove key es ↔ e ∈ es ∧ e.1 ≠ key := by
  rw [cacheRemove, List.mem_filter]
  simp

end Cache

/-! ### udprelay.c -/

namespace UdpRelay

open Cache

/-- `encrypt_all` and `decrypt_all` of `crypto_t`. -/
structure Datagrams (G : Type) where
  encryptAll : G → List UInt8 → List UInt8 → Option (List UInt8) × G
  decryptAll : G → List UInt8 → Option (List UInt8) × G

def maxUdpConnNum : Nat := 256

def addrtypeMask : UInt8 := 0xf

/-- `parse_udprelay_header`: the length of the address in front, or 0. -/
def parseUdprelayHeader (buf : List UInt8) : Nat :=
  let atyp := buf.getD 0 0 &&& addrtypeMask
  if atyp = 1 then if 4 + 3 ≤ buf.length then 1 + 4 + 2 else 0
  else if atyp = 3 then
    let nameLen := (buf.getD 1 0).toNat
    if nameLen + 4 ≤ buf.length then 1 + (1 + nameLen) + 2 else 0
  else if atyp = 4 then if 16 + 3 ≤ buf.length then 1 + 16 + 2 else 0
  else 0

/-- `remote_ctx_t`. -/
structure RemoteCtx (α : Type) where
  fd : Nat
  srcAddr : α
deriving DecidableEq

/-- The relay, with the addresses that sockets were opened for, and the datagrams that have come and
gone: those of clients with their address, those of sockets with their descriptor. -/
structure Relay (α G : Type) where
  shared : G
  connCache : Entries α (RemoteCtx α)
  opened : List α
  fromClient : List (α × List UInt8)
  toRemote : List (Nat × List UInt8)
  fromRemote : List (Nat × List UInt8)
  toClient : List (α × List UInt8)

/-- What the system answers: a new socket, the random salt, and whether `sendto` succeeds. -/
structure Answers where
  socket : Bool
  salt : List UInt8
  sendto : Bool

inductive Event (α G : Type) where
  | serverRecv (src : α) (bytes : List UInt8) (a : Answers)
  | remoteRecv (fd : Nat) (bytes : List UInt8) (sendto : Bool)
  | timeout (fd : Nat)
  /-- The crypto state is used elsewhere. -/
  | elsewhere (shared : G)

variable {α G : Type}

/-- The end of `server_recv_cb`. -/
def sendRemote (C : Datagrams G) (a : Answers) (ctx : RemoteCtx α) (buf : List UInt8)
    (s : Relay α G) : Relay α G :=
  let r := C.encryptAll s.shared a.salt buf
  let s := { s with shared := r.2 }
  match r.1 with
  | none => s
  | some c => if a.sendto then { s with toRemote := s.toRemote ++ [(ctx.fd, c)] } else s

/-- `server_recv_cb`.  The three bytes in front of the address are there: with fewer the length that is
left wraps around, and `step` leaves such a datagram out. -/
def serverRecv [DecidableEq α] (C : Datagrams G) (src : α) (bytes : List UInt8) (a : Answers) (s : Relay α G) :
    Relay α G :=
  let s := { s with fromClient := s.fromClient ++ [(src, bytes)] }
  let frag := bytes.getD 2 0
  let buf := bytes.drop 3
  if parseUdprelayHeader buf = 0 then s
  else
    let found := cacheLookup src s.connCache
    let s := { s with connCache := found.2 }
    if frag ≠ 0 then s
    else match found.1.filter fun ctx => ctx.srcAddr = src with
      | some ctx => sendRemote C a ctx buf s
      | none =>
          if !a.socket then s
          else
            let ctx : RemoteCtx α := ⟨s.opened.length, src⟩
            sendRemote C a ctx buf
              { s with
                connCache := cacheInsert maxUdpConnNum src ctx s.connCache
                opened := s.opened ++ [src] }

/-- `remote_recv_cb`. -/
def remoteRecv (C : Datagrams G) (bytes : List UInt8) (sendto : Bool) (ctx : RemoteCtx α)
    (s : Relay α G) : Relay α G :=
  let r := C.decryptAll s.shared bytes
  let s := { s with shared := r.2, fromRemote := s.fromRemote ++ [(ctx.fd, bytes)] }
  match r.1 with
  | none => s
  | some plaintext =>
      if parseUdprelayHeader plaintext = 0 then s
      else if sendto then { s with toClient := s.toClient ++ [(ctx.srcAddr, [0, 0, 0] ++ plaintext)] }
      else s

/-- The socket that is open under a descriptor. -/
def Relay.remote (s : Relay α G) (fd : Nat) : Option (RemoteCtx α) :=
  (s.connCache.map Prod.snd).find? fun ctx => ctx.fd = fd

def step [DecidableEq α] (C : Datagrams G) (s : Relay α G) : Event α G → Option (Relay α G)
  | .serverRecv src bytes a => if bytes.length < 3 then none else some (serverRecv C src bytes a s)
  | .remoteRecv fd bytes sendto => (s.remote fd).map fun ctx => remoteRecv C bytes sendto ctx s
  | .timeout fd =>
      (s.remote fd).map fun ctx => { s with connCache := cacheRemove ctx.srcAddr s.connCache }
  | .elsewhere shared => some { s with shared := shared }

def Relay.start (shared : G) : Relay α G := ⟨shared, [], [], [], [], [], []⟩

/-! ### Whose datagram it is -/

/-- A datagram that went out of a socket is the encryption of one that came from the client the socket
was opened for. -/
def Outbound (C : Datagrams G) (s : Relay α G) : Prop :=
  ∀ fd c, (fd, c) ∈ s.toRemote → ∃ src bytes g salt, s.opened[fd]? = some src ∧
    (src, bytes) ∈ s.fromClient ∧ bytes.getD 2 0 = 0 ∧ parseUdprelayHeader (bytes.drop 3) ≠ 0 ∧
    (C.encryptAll g salt (bytes.drop 3)).1 = some c

/-- A datagram that went to a client is the decryption of one that came to a socket that was opened for
this client. -/
def Inbound (C : Datagrams G) (s : Relay α G) : Prop :=
  ∀ src d, (src, d) ∈ s.toClient → ∃ fd bytes g plaintext, s.opened[fd]? = some src ∧
    (fd, bytes) ∈ s.fromRemote ∧ (C.decryptAll g bytes).1 = some plaintext ∧
    parseUdprelayHeader plaintext ≠ 0 ∧ d = [0, 0, 0] ++ plaintext

/-- The open sockets: one a client, under the client's address, and not too many. -/
structure Sockets (opened : List α) (es : Entries α (RemoteCtx α)) : Prop where
  nodup : (es.map Prod.fst).Nodup
  owned : ∀ key ctx, (key, ctx) ∈ es → ctx.srcAddr = key ∧ opened[ctx.fd]? = some key
  room : es.length < maxUdpConnNum

structure Inv (C : Datagrams G) (s : Relay α G) : Prop where
  sockets : Sockets s.opened s.connCache
  outbound : Outbound C s
  inbound : Inbound C s

variable {C : Datagrams G}

/-- Whom a socket was opened for does not change when more are opened. -/
theorem opened_mono {opened opened' : List α} {fd : Nat} {src : α} (hle : opened <+: opened')
    (h : opened[fd]? = some src) : opened'[fd]? = some src := by
  obtain ⟨hlt, rfl⟩ := List.getElem?_eq_some_iff.mp h
  exact List.prefix_iff_getElem?.mp hle fd hlt

/-- What was sent stays accounted for when more sockets are opened and more datagrams arrive. -/
theorem Outbound.grow {s s' : Relay α G} (h : Outbound C s) (hto : s'.toRemote = s.toRemote)
    (hopen : s.opened <+: s'.opened) (hfrom : s.fromClient ⊆ s'.fromClient) : Outbound C s' := by
  intro fd c hmem
  rw [hto] at hmem
  obtain ⟨src, bytes, g, salt, hsrc, hbytes, hrest⟩ := h fd c hmem
  exact ⟨src, bytes, g, salt, opened_mono hopen hsrc, hfrom hbytes, hrest⟩

theorem Inbound.grow {s s' : Relay α G} (h : Inbound C s) (hto : s'.toClient = s.toClient)
    (hopen : s.opened <+: s'.opened) (hfrom : s.fromRemote ⊆ s'.fromRemote) : Inbound C s' := by
  intro src d hmem
  rw [hto] at hmem
  obtain ⟨fd, bytes, g, plaintext, hsrc, hbytes, hrest⟩ := h src d hmem
  exact ⟨fd, bytes, g, plaintext, opened_mono hopen hsrc, hfrom hbytes, hrest⟩

/-- A change of the sockets and of what has arrived keeps the rest. -/
theorem Inv.grow {s s' : Relay α G} (h : Inv C s) (hsockets : Sockets s'.opened s'.connCache)
    (hto : s'.toRemote = s.toRemote) (hto' : s'.toClient = s.toClient)
    (hopen : s.opened <+: s'.opened) (hfrom : s.fromClient ⊆ s'.fromClient)
    (hfrom' : s.fromRemote ⊆ s'.fromRemote) : Inv C s' :=
  ⟨hsockets, h.outbound.grow hto hopen hfrom, h.inbound.grow hto' hopen hfrom'⟩

theorem sendRemote_inv {s : Relay α G} {ctx : RemoteCtx α} {src : α} {bytes : List UInt8}
    (h : Inv C s) (hopen : s.opened[ctx.fd]? = some src) (hfrom : (src, bytes) ∈ s.fromClient)
    (hfrag : bytes.getD 2 0 = 0) (hheader : parseUdprelayHeader (bytes.drop 3) ≠ 0) (a : Answers) :
    Inv C (sendRemote C a ctx (bytes.drop 3) s) := by
  have hsame : ∀ shared, Inv C { s with shared := shared } := fun shared =>
    h.grow h.sockets rfl rfl (List.prefix_refl _) (List.Subset.refl _) (List.Subset.refl _)
  rw [sendRemote]
  dsimp only
  cases hc : (C.encryptAll s.shared a.salt (bytes.drop 3)).1 with
  | none => exact hsame _
  | some c =>
    dsimp only
    split
    · refine ⟨h.sockets, ?_, h.inbound⟩
      intro fd c' hmem
      obtain hold | hnew := List.mem_append.mp hmem
      · exact h.outbound fd c' hold
      · obtain ⟨rfl, rfl⟩ := Prod.mk.inj (List.mem_singleton.mp hnew)
        exact ⟨src, bytes, s.shared, a.salt, hopen, hfrom, hfrag, hheader, hc⟩
    · exact hsame _

theorem remote_mem {s : Relay α G} {fd : Nat} {ctx : RemoteCtx α} (h : s.remote fd = some ctx) :
    ctx.fd = fd ∧ ∃ key, (key, ctx) ∈ s.connCache := by
  have hfd : ctx.fd = fd := by simpa using List.find?_some h
  obtain ⟨e, he, rfl⟩ := List.mem_map.mp (List.mem_of_find?_eq_some h)
  exact ⟨hfd, e.1, he⟩

theorem remoteRecv_inv {s : Relay α G} (h : Inv C s) {key : α} {ctx : RemoteCtx α}
    (hctx : (key, ctx) ∈ s.connCache) (bytes : List UInt8) (sendto : Bool) :
    Inv C (remoteRecv C bytes sendto ctx s) := by
  obtain ⟨hsrc, hopen⟩ := h.sockets.owned key ctx hctx
  have hfrom : s.fromRemote ⊆ s.fromRemote ++ [(ctx.fd, bytes)] := List.subset_append_left _ _
  have hread : ∀ shared, Inv C { s with
      shared := shared
      fromRemote := s.fromRemote ++ [(ctx.fd, bytes)] } := fun shared =>
    h.grow h.sockets rfl rfl (List.prefix_refl _) (List.Subset.refl _) hfrom
  rw [remoteRecv]
  dsimp only
  cases hp : (C.decryptAll s.shared bytes).1 with
  | none => exact hread _
  | some plaintext =>
    dsimp only
    split
    · exact hread _
    rename_i hheader
    split
    · refine ⟨h.sockets, h.outbound, ?_⟩
      intro src d hmem
      obtain hold | hnew := List.mem_append.mp hmem
      · exact (hread s.shared).inbound src d hold
      · obtain ⟨rfl, rfl⟩ := Prod.mk.inj (List.mem_singleton.mp hnew)
        refine ⟨ctx.fd, bytes, s.shared, plaintext, hsrc ▸ hopen, ?_, hp, hheader, rfl⟩
        exact List.mem_append_right _ (List.mem_singleton_self _)
    · exact hread _

theorem Sockets.insert {opened : List α} {es : Entries α (RemoteCtx α)} (h : Sockets opened es)
    {src : α} (hkey : src ∉ es.map Prod.fst) :
    Sockets (opened ++ [src]) (cacheInsert maxUdpConnNum src ⟨opened.length, src⟩ es) where
  nodup := nodup_cacheInsert h.nodup hkey
  owned key ctx hmem := by
    obtain hold | hnew := mem_of_mem_cacheInsert hmem
    · obtain ⟨hsrc, hopen⟩ := h.owned key ctx hold
      exact ⟨hsrc, opened_mono (List.prefix_append _ _) hopen⟩
    · obtain ⟨rfl, rfl⟩ := Prod.mk.inj hnew
      exact ⟨rfl, List.getElem?_concat_length⟩
  room := length_cacheInsert h.room

section

variable [DecidableEq α]

theorem Sockets.lookup {opened : List α} {es : Entries α (RemoteCtx α)} (h : Sockets opened es)
    (src : α) : Sockets opened (cacheLookup src es).2 where
  nodup := nodup_cacheLookup src h.nodup
  owned key ctx hmem := h.owned key ctx ((mem_cacheLookup src es h.nodup _).mp hmem)
  room := by
    rw [(perm_cacheLookup src h.nodup).length_eq]
    exact h.room

theorem Sockets.remove {opened : List α} {es : Entries α (RemoteCtx α)} (h : Sockets opened es)
    (src : α) : Sockets opened (cacheRemove src es) where
  nodup := h.nodup.sublist (List.filter_sublist.map _)
  owned key ctx hmem := h.owned key ctx (mem_cacheRemove.mp hmem).1
  room := lt_of_le_of_lt (List.length_filter_le _ _) h.room

theorem serverRecv_inv {s : Relay α G} (h : Inv C s) (src : α) (bytes : List UInt8) (a : Answers) :
    Inv C (serverRecv C src bytes a s) := by
  have hfrom : s.fromClient ⊆ s.fromClient ++ [(src, bytes)] := List.subset_append_left _ _
  have hmem : (src, bytes) ∈ s.fromClient ++ [(src, bytes)] :=
    List.mem_append_right _ (List.mem_singleton_self _)
  have hlook := h.sockets.lookup src
  have hread : Inv C { s with
      fromClient := s.fromClient ++ [(src, bytes)]
      connCache := (cacheLookup src s.connCache).2 } :=
    h.grow hlook rfl rfl (List.prefix_refl _) hfrom (List.Subset.refl _)
  unfold serverRecv
  dsimp only
  split
  · exact h.grow h.sockets rfl rfl (List.prefix_refl _) hfrom (List.Subset.refl _)
  rename_i hheader
  split
  · exact hread
  rename_i hfrag
  have hfrag : bytes.getD 2 0 = 0 := by simpa using hfrag
  split
  · rename_i ctx hfound
    obtain ⟨hctx, -⟩ := Option.filter_eq_some_iff.mp hfound
    obtain ⟨-, hopen⟩ := h.sockets.owned src ctx (cacheLookup_some hctx)
    exact sendRemote_inv hread hopen hmem hfrag hheader a
  · rename_i hnone
    -- the key is the source, so an entry that was found is of this source
    have hkey : src ∉ s.connCache.map Prod.fst := by
      cases hfound : (cacheLookup src s.connCache).1 with
      | none => exact cacheLookup_none hfound
      | some ctx =>
        obtain ⟨hsrc, -⟩ := h.sockets.owned src ctx (cacheLookup_some hfound)
        rw [hfound, Option.filter_some, if_pos (by simpa using hsrc)] at hnone
        cases hnone
    have hkey' : src ∉ (cacheLookup src s.connCache).2.map Prod.fst := by
      intro hin
      obtain ⟨e, he, heq⟩ := List.mem_map.mp hin
      exact hkey (List.mem_map.mpr ⟨e, (mem_cacheLookup src _ h.sockets.nodup e).mp he, heq⟩)
    split
    · exact hread
    · refine sendRemote_inv ?_ List.getElem?_concat_length hmem hfrag hheader a
      exact h.grow (hlook.insert hkey') rfl rfl (List.prefix_append _ _) hfrom (List.Subset.refl _)

theorem step_inv {s s' : Relay α G} {e : Event α G} (h : Inv C s) (hs : step C s e = some s') :
    Inv C s' := by
  cases e with
  | serverRecv src bytes a =>
    rw [step] at hs
    split at hs
    · cases hs
    · obtain rfl := Option.some.inj hs
      exact serverRecv_inv h src bytes a
  | remoteRecv fd bytes sendto =>
    obtain ⟨ctx, hctx, rfl⟩ := Option.map_eq_some_iff.mp hs
    obtain ⟨-, key, hmem⟩ := remote_mem hctx
    exact remoteRecv_inv h hmem bytes sendto
  | timeout fd =>
    obtain ⟨ctx, hctx, rfl⟩ := Option.map_eq_some_iff.mp hs
    exact h.grow (h.sockets.remove _) rfl rfl (List.prefix_refl _) (List.Subset.refl _)
      (List.Subset.refl _)
  | elsewhere shared =>
    obtain rfl := Option.some.inj hs
    exact h.grow h.sockets rfl rfl (List.prefix_refl _) (List.Subset.refl _) (List.Subset.refl _)

/-- **In every run, what goes out of a socket came from the client it was opened for, and what goes to a
client came to a socket that was opened for this client**; each client has one open socket at most. -/
theorem relayed_run {es : List (Event α G)} {shared : G} {s : Relay α G}
    (hrun : Machine.run (step C) es (.start shared) = some s) :
    Outbound C s ∧ Inbound C s ∧ Sockets s.opened s.connCache := by
  have hstart : Inv C (Relay.start shared : Relay α G) := by
    refine ⟨⟨List.nodup_nil, ?_, Nat.succ_pos 255⟩, ?_, ?_⟩
    · intro key ctx hmem
      cases hmem
    · intro fd c hmem
      cases hmem
    · intro src d hmem
      cases hmem
  have h : Inv C s := Machine.invariant (fun _ _ _ => step_inv) hstart hrun
  exact ⟨h.outbound, h.inbound, h.sockets⟩

end

/-- The salt stands in front. -/
def saltedDatagrams : Datagrams Unit where
  encryptAll _ salt p := (some (salt ++ p), ())
  decryptAll _ bytes := (some (bytes.drop 1), ())

/-- Two clients ask, and each gets its answer; a fragment is dropped. -/
def sampleEvents : List (Event Nat Unit) :=
  [.serverRecv 10 [0, 0, 0, 1, 8, 8, 8, 8, 0, 53, 7] ⟨true, [99], true⟩,
    .serverRecv 20 [0, 0, 0, 1, 8, 8, 4, 4, 0, 53, 6] ⟨true, [98], true⟩,
    .serverRecv 10 [0, 0, 1, 1, 8, 8, 8, 8, 0, 53, 5] ⟨true, [97], true⟩,
    .remoteRecv 1 [55, 1, 8, 8, 4, 4, 0, 53, 66] true, .remoteRecv 0 [54, 1, 8, 8, 8, 8, 0, 53, 77] true]

def sampleRun : Option (Relay Nat Unit) := Machine.run (step saltedDatagrams) sampleEvents (.start ())

theorem relayed_run_sample : ∃ s, sampleRun = some s ∧
    (Outbound saltedDatagrams s ∧ Inbound saltedDatagrams s ∧ Sockets s.opened s.connCache) ∧
    s.toRemote.length = 2 ∧ s.toClient =
      [(20, [0, 0, 0, 1, 8, 8, 4, 4, 0, 53, 66]), (10, [0, 0, 0, 1, 8, 8, 8, 8, 0, 53, 77])] := by
  have hrun := Option.eq_some_of_isSome (show sampleRun.isSome = true by decide +kernel)
  exact ⟨_, hrun, relayed_run hrun, by decide +kernel, by decide +kernel⟩

end UdpRelay

end SsAndroid
