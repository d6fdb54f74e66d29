import SsAndroid.Libev.Local

/-!
# What a client of ss-local asks for

`parseRequest_connect_iff`: a `CONNECT` is three bytes, an address in one of three forms, and the
payload behind it; so a request that has been decided does not change when more arrives
(`parseRequest_append`), and the address is short (`Address.length_le`).
-/

namespace SsAndroid

namespace Local

/-- An address with its type in front and its port behind, as it goes over the wire. -/
inductive Address : List UInt8 → Prop where
  | ipv4 (rest : List UInt8) (h : rest.length = 4 + 2) : Address (atypIpv4 :: rest)
  | domain (nameLen : UInt8) (rest : List UInt8) (h : rest.length = nameLen.toNat + 2) :
      Address (atypDomain :: nameLen :: rest)
  | ipv6 (rest : List UInt8) (h : rest.length = 16 + 2) : Address (atypIpv6 :: rest)

theorem Address.length_le {abuf : List UInt8} (h : Address abuf) : abuf.length ≤ 259 := by
  cases h with
  | ipv4 rest h => rw [List.length_cons, h]; decide
  | domain nameLen rest h =>
    have hlt := nameLen.toNat_lt
    rw [List.length_cons, List.length_cons, h]
    omega
  | ipv6 rest h => rw [List.length_cons, h]; decide

theorem hostAddress_length_le (name : List UInt8) {abuf : List UInt8} (h : Address abuf) :
    (hostAddress name abuf).length ≤ 260 := by
  have h2 : 2 ≤ abuf.length := by
    cases h <;> simp only [List.length_cons] <;> omega
  rw [hostAddress]
  simp only [List.length_append, List.length_cons, List.length_nil, List.length_take,
    List.length_drop, maxHostnameLen]
  omega

/-- Four bytes at least, and what is behind them. -/
theorem four_bytes {buf : List UInt8} (h : ¬buf.length < 4) :
    ∃ v c r t rest, buf = v :: c :: r :: t :: rest := by
  match buf, h with
  | v :: c :: r :: t :: rest, _ => exact ⟨v, c, r, t, rest, rfl⟩
  | [], h | [_], h | [_, _], h | [_, _, _], h => exact absurd (by simp) h

theorem parseRequest_cons (v c r t : UInt8) (rest : List UInt8) :
    parseRequest (v :: c :: r :: t :: rest) =
      if c = cmdUdpAssociate then .udpAssociate
      else if c ≠ cmdConnect then .badCommand
      else if t = atypIpv4 then
        if rest.length < 6 then .moreAddress t else .connect (t :: rest.take 6)
      else if t = atypDomain then
        if rest.length < 1 + (rest.getD 0 0).toNat + 2 then .moreAddress t
        else .connect (t :: rest.getD 0 0 :: (rest.drop 1).take ((rest.getD 0 0).toNat + 2))
      else if t = atypIpv6 then
        if rest.length < 18 then .moreAddress t else .connect (t :: rest.take 18)
      else .badAddress t := by
  have h4 : ¬(v :: c :: r :: t :: rest).length < 4 := by
    simp only [List.length_cons]
    omega
  have hlen : (v :: c :: r :: t :: rest).length = rest.length + 4 := rfl
  have hipv4 : rest.length + 4 < 10 ↔ rest.length < 6 := by omega
  have hipv6 : rest.length + 4 < 22 ↔ rest.length < 18 := by omega
  have hdomain : ∀ k, rest.length + 4 < 5 + k + 2 ↔ rest.length < 1 + k + 2 := by omega
  rw [parseRequest, if_neg h4]
  simp only [List.getD_cons_zero, List.getD_cons_succ, List.drop_succ_cons, List.drop_zero,
    Nat.reduceAdd, hlen, hipv4, hipv6, hdomain]

theorem take_of_append {l rest : List UInt8} {n : Nat} (h : l.length = n) : (l ++ rest).take n = l :=
  List.take_left' h

/-- **A `CONNECT` that is complete: three bytes, the address, and the payload.** -/
theorem parseRequest_connect_iff {buf abuf : List UInt8} :
    parseRequest buf = .connect abuf ↔
      Address abuf ∧ ∃ v r payload, buf = v :: cmdConnect :: r :: (abuf ++ payload) := by
  constructor
  · intro h
    by_cases h4 : buf.length < 4
    · rw [parseRequest, if_pos h4] at h
      cases h
    obtain ⟨v, c, r, t, rest, rfl⟩ := four_bytes h4
    rw [parseRequest_cons] at h
    split at h
    · cases h
    split at h
    · cases h
    rename_i hc
    have hc : c = cmdConnect := by simpa using hc
    subst hc
    split at h
    · rename_i ht
      subst ht
      split at h
      · cases h
      rename_i hlen
      obtain rfl := Request.connect.inj h
      refine ⟨.ipv4 _ (by rw [List.length_take]; omega), v, r, rest.drop 6, ?_⟩
      rw [List.cons_append, List.take_append_drop]
    split at h
    · rename_i ht
      subst ht
      split at h
      · cases h
      rename_i hlen
      obtain rfl := Request.connect.inj h
      cases rest with
      | nil => exact absurd (by simp only [List.length_nil]; omega) hlen
      | cons n rest =>
        rw [List.getD_cons_zero, List.length_cons] at hlen
        rw [List.getD_cons_zero, List.drop_succ_cons, List.drop_zero]
        refine ⟨.domain n _ (by rw [List.length_take]; omega), v, r, rest.drop (n.toNat + 2), ?_⟩
        rw [List.cons_append, List.cons_append, List.take_append_drop]
    split at h
    · rename_i ht
      subst ht
      split at h
      · cases h
      rename_i hlen
      obtain rfl := Request.connect.inj h
      refine ⟨.ipv6 _ (by rw [List.length_take]; omega), v, r, rest.drop 18, ?_⟩
      rw [List.cons_append, List.take_append_drop]
    · cases h
  · rintro ⟨haddr, v, r, payload, rfl⟩
    have hudp : cmdConnect ≠ cmdUdpAssociate := by decide
    cases haddr with
    | ipv4 rest h =>
      rw [List.cons_append, parseRequest_cons, if_neg hudp, if_neg (fun hc => hc rfl), if_pos rfl,
        if_neg (by rw [List.length_append]; omega), take_of_append h]
    | domain n rest h =>
      have h1 : atypDomain ≠ atypIpv4 := by decide
      rw [List.cons_append, List.cons_append, parseRequest_cons, if_neg hudp,
        if_neg (fun hc => hc rfl), if_neg h1, if_pos rfl, List.getD_cons_zero,
        if_neg (by rw [List.length_cons, List.length_append]; omega), List.drop_succ_cons,
        List.drop_zero, take_of_append h]
    | ipv6 rest h =>
      have h1 : atypIpv6 ≠ atypIpv4 := by decide
      have h2 : atypIpv6 ≠ atypDomain := by decide
      rw [List.cons_append, parseRequest_cons, if_neg hudp, if_neg (fun hc => hc rfl), if_neg h1,
        if_neg h2, if_pos rfl, if_neg (by rw [List.length_append]; omega), take_of_append h]

/-- More bytes do not change what a request is that has been decided. -/
theorem parseRequest_append {buf : List UInt8} (hmore : parseRequest buf ≠ .more)
    (haddr : ∀ atyp, parseRequest buf ≠ .moreAddress atyp) (bytes : List UInt8) :
    parseRequest (buf ++ bytes) = parseRequest buf := by
  cases hrequest : parseRequest buf with
  | more => exact absurd hrequest hmore
  | moreAddress atyp => exact absurd hrequest (haddr atyp)
  | connect abuf =>
    obtain ⟨haddress, v, r, payload, rfl⟩ := parseRequest_connect_iff.mp hrequest
    exact parseRequest_connect_iff.mpr ⟨haddress, v, r, payload ++ bytes, by simp⟩
  -- the others are decided by the command or by the type of the address
  | udpAssociate | badCommand | badAddress =>
    by_cases h4 : buf.length < 4
    · rw [parseRequest, if_pos h4] at hmore
      exact absurd rfl hmore
    obtain ⟨v, c, r, t, rest, rfl⟩ := four_bytes h4
    rw [parseRequest_cons] at hrequest
    rw [List.cons_append, List.cons_append, List.cons_append, List.cons_append, parseRequest_cons]
    split_ifs at hrequest ⊢
    exact hrequest

theorem parseRequest_connect_append {buf abuf : List UInt8} (h : parseRequest buf = .connect abuf)
    (bytes : List UInt8) : parseRequest (buf ++ bytes) = .connect abuf := by
  rw [parseRequest_append (by simp [h]) (by simp [h]), h]

/-- What is behind the address in the buffer. -/
theorem drop_request (v c r : UInt8) (abuf payload : List UInt8) :
    (v :: c :: r :: (abuf ++ payload)).drop (3 + abuf.length) = payload := by
  rw [Nat.add_comm, List.drop_succ_cons, List.drop_succ_cons, List.drop_succ_cons]
  exact List.drop_left' rfl

/-- The greeting of a client that can do without authentication. -/
inductive Greeting : List UInt8 → Prop where
  | intro (nmethods : UInt8) (methods : List UInt8) (h : methods.length = nmethods.toNat)
      (noauth : methodNoauth ∈ methods) : Greeting (sversion :: nmethods :: methods)

/-- What `STAGE_INIT` does with the buffer. -/
theorem selectMethod_cases {G E D : Type} (a : Answers) (s : Conn G E D) :
    selectMethod a s = (false, s) ∨ selectMethod a s = (false, s.close) ∨
      (∃ nmethods methods rest, s.buf = sversion :: nmethods :: (methods ++ rest) ∧
        methods.length = nmethods.toNat ∧ methodNoauth ∉ methods ∧
        selectMethod a s =
          (false, (s.tell ((methodReply methodUnacceptable).take a.greeted)).close)) ∨
      ∃ greeting rest, Greeting greeting ∧ s.buf = greeting ++ rest ∧
        selectMethod a s = (decide (rest ≠ []),
          { s.tell ((methodReply methodNoauth).take a.greeted) with stage := .handshake, buf := rest }) := by
  rw [selectMethod]
  split
  · exact .inl rfl
  split
  · exact .inr (.inl rfl)
  rename_i hver
  split
  · exact .inl rfl
  rename_i hlen
  dsimp only
  split
  · exact .inl rfl
  rename_i hmethods
  match hbuf : s.buf, hlen with
  | [], h | [_], h => exact absurd (by simp) h
  | v :: n :: rest, _ =>
    rw [hbuf, List.getD_cons_succ, List.getD_cons_zero, List.length_cons, List.length_cons] at hmethods
    rw [hbuf, List.getD_cons_zero] at hver
    have hv : v = sversion := by simpa using hver
    subst hv
    have htaken : (rest.take n.toNat).length = n.toNat := by
      rw [List.length_take]
      omega
    simp only [List.getD_cons_succ, List.getD_cons_zero, List.length_cons, List.drop_succ_cons,
      List.drop_zero]
    split
    · rename_i hno
      refine .inr (.inr (.inl ⟨n, rest.take n.toNat, rest.drop n.toNat, ?_, htaken, hno, rfl⟩))
      rw [List.take_append_drop]
    · rename_i hnoauth
      refine .inr (.inr (.inr ⟨sversion :: n :: rest.take n.toNat, rest.drop n.toNat,
        ⟨n, _, htaken, by simpa using hnoauth⟩, by simp, ?_⟩))
      congr 1
      rw [decide_eq_decide, ← List.length_pos_iff, List.length_drop]
      omega

end Local

end SsAndroid
