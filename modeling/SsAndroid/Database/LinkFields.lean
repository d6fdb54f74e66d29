import SsAndroid.Database.ProfileUri

/-!
# The fields of a link

A link has its fields in one text with separators between them: `method:password`, and in the old
format `method:password@host:port`.  The separators may stand in the fields too.  Which of them cuts
is decided by the quantifiers: the lazy method ends at the first colon, the greedy password at the
last `@`, and the host at the colon with nothing but digits behind it.

**`ofUrl_fields`** says that a text put together from fields is taken apart into the same ones, as long
as the method has no colon and the host no `@`.
-/

namespace SsAndroid

namespace Profile

open Regex

/-! ### User info -/

section Patterns

variable {method password host port : Text}

theorem isDot_of_singleLine {s : Text} (h : Text.SingleLine s) : ∀ c ∈ s, isDot c = true :=
  fun c hc => by simp [isDot, h c hc]

/-- The lazy group at the start of both patterns takes the method. -/
theorem matchItems_method {is : List Item} {s : Text} {ws : List Text} (hne : method ≠ [])
    (hcolon : ':' ∉ method) (hline : Text.SingleLine method)
    (h : matchItems List.isEmpty (Regex.char ':' :: is) s = some ws) :
    matchItems List.isEmpty (⟨isDot, .lazyPlus⟩ :: Regex.char ':' :: is) (method ++ s) =
      some (method :: ws) := by
  have hnone : ∀ c ∈ method, ∀ t,
      matchItems List.isEmpty (Regex.char ':' :: is) (c :: t) = none := by
    intro c hc t
    apply matchItems_char_of_ne
    rintro rfl
    exact hcolon hc
  rw [matchItems, Item.run]
  show (lazyPlus isDot _ (method ++ s)).map _ = _
  rw [lazyPlus_eq h hne (isDot_of_singleLine hline) hnone]
  rfl

theorem matchItems_rest (h : Text.SingleLine password) :
    matchItems List.isEmpty [⟨isDot, .star⟩] password = some [password] := by
  rw [matchItems, Item.run]
  show (star isDot (matchItems List.isEmpty []) password).map _ = _
  rw [star_all (show matchItems List.isEmpty [] [] = some [] from rfl) (isDot_of_singleLine h)]
  rfl

/-- **The user info of a link**: the method ends at the first colon. -/
theorem matchEntire_userInfo (hne : method ≠ []) (hcolon : ':' ∉ method)
    (hmethod : Text.SingleLine method) (hpassword : Text.SingleLine password) :
    matchEntire userInfoPattern (method ++ ':' :: password) = some [method, [':'], password] := by
  have hrest : matchItems List.isEmpty [Regex.char ':', ⟨isDot, .star⟩] (':' :: password) =
      some [[':'], password] := by
    rw [matchItems_char, matchItems_rest hpassword]
    rfl
  exact matchItems_method hne hcolon hmethod hrest

/-! ### The old format -/

/-- What stands behind the `@` of the old pattern. -/
def serverPattern : List Item :=
  [⟨isDot, .lazyPlus⟩, Regex.char ':', ⟨Number.isDigit, .lazyPlus⟩]

/-- The port is what follows the last colon: behind every earlier one stands a colon. -/
theorem matchItems_server (hne : host ≠ []) (hhost : Text.SingleLine host) (hport : port ≠ [])
    (hdigits : ∀ c ∈ port, Number.isDigit c = true) :
    matchItems List.isEmpty serverPattern (host ++ ':' :: port) = some [host, [':'], port] := by
  have hk : matchItems List.isEmpty [Regex.char ':', ⟨Number.isDigit, .lazyPlus⟩] (':' :: port) =
      some [[':'], port] := by
    rw [matchItems_char, matchItems_lazyPlus_end,
      if_pos ⟨hport, List.all_eq_true.mpr hdigits⟩]
    rfl
  have hnone : ∀ v, v <:+ host → v ≠ [] → matchItems List.isEmpty
      [Regex.char ':', ⟨Number.isDigit, .lazyPlus⟩] (v ++ ':' :: port) = none := by
    intro v _ hv
    obtain ⟨c, v, rfl⟩ := List.exists_cons_of_ne_nil hv
    by_cases hc : c = ':'
    · subst hc
      have hcolon : ¬ (v ++ ':' :: port).all Number.isDigit = true := by
        intro hall
        exact absurd (List.all_eq_true.mp hall ':' (by simp)) (by decide)
      rw [List.cons_append, matchItems_char, matchItems_lazyPlus_end,
        if_neg fun h => hcolon h.2]
      rfl
    · exact matchItems_char_of_ne _ _ hc _
  rw [serverPattern, matchItems, Item.run]
  show (lazyPlus isDot _ (host ++ ':' :: port)).map _ = _
  rw [lazyPlus_first hk hne (isDot_of_singleLine hhost) hnone]
  rfl

/-- **The text of an old link**: the password ends at the last `@`. -/
theorem matchEntire_legacy (hne : method ≠ []) (hcolon : ':' ∉ method)
    (hmethod : Text.SingleLine method) (hpassword : Text.SingleLine password) (hhostne : host ≠ [])
    (hat : '@' ∉ host) (hhost : Text.SingleLine host) (hport : port ≠ [])
    (hdigits : ∀ c ∈ port, Number.isDigit c = true) :
    matchEntire legacyPattern (method ++ ':' :: (password ++ '@' :: (host ++ ':' :: port))) =
      some [method, [':'], password, ['@'], host, [':'], port] := by
  have hatPort : '@' ∉ port := fun h => absurd (hdigits _ h) (by decide)
  -- the rest of the pattern behind the password, and where it does not match
  have hk : matchItems List.isEmpty (Regex.char '@' :: serverPattern)
      ('@' :: (host ++ ':' :: port)) = some [['@'], host, [':'], port] := by
    rw [matchItems_char, matchItems_server hhostne hhost hport hdigits]
    rfl
  have hbehind : star isDot (matchItems List.isEmpty (Regex.char '@' :: serverPattern))
      (host ++ ':' :: port) = none := by
    have hnil : star isDot (matchItems List.isEmpty (Regex.char '@' :: serverPattern)) [] = none :=
      rfl
    rw [← List.append_nil (host ++ ':' :: port)]
    apply star_append_none hnil
    intro c hc s
    apply matchItems_char_of_ne
    rintro rfl
    simp [hat, hatPort] at hc
  have hrest : matchItems List.isEmpty
      (Regex.char ':' :: ⟨isDot, .star⟩ :: Regex.char '@' :: serverPattern)
      (':' :: (password ++ '@' :: (host ++ ':' :: port))) =
      some [[':'], password, ['@'], host, [':'], port] := by
    rw [matchItems_char, matchItems, Item.run]
    show ((star isDot _ (password ++ '@' :: (host ++ ':' :: port))).map _).map _ = _
    rw [star_append (star_stop hbehind hk) (isDot_of_singleLine hpassword), List.append_nil]
    rfl
  exact matchItems_method hne hcolon hmethod hrest

end Patterns

/-! ### Links -/

section Links

variable (uri : URI) (toLowerCase : Text → Text) (feature : Option Profile)

/-- A loop with a call that may throw returns when no turn throws. -/
theorem mapM_eq_ok_iff {α β : Type*} {f : α → Except Exn β} : ∀ {xs : List α} {ys : List β},
    xs.mapM f = .ok ys ↔ List.Forall₂ (fun x y => f x = .ok y) xs ys := by
  intro xs
  induction xs with
  | nil =>
    intro ys
    rw [List.forall₂_nil_left_iff, eq_comm]
    show Except.ok ys = Except.ok [] ↔ _
    rw [Except.ok.injEq]
  | cons x xs ih =>
    intro ys
    rw [List.mapM_cons, List.forall₂_cons_left_iff]
    cases hx : f x with
    | error e => simp [bind, Except.bind]
    | ok z =>
      cases hxs : xs.mapM f with
      | error e =>
        have hnone : ∀ zs, ¬ List.Forall₂ (fun x y => f x = .ok y) xs zs := by
          intro zs hzs
          rw [ih.mpr hzs] at hxs
          cases hxs
        simp [bind, Except.bind, hnone]
      | ok zs =>
        constructor
        · intro h
          exact ⟨z, zs, rfl, ih.mp hxs, (Except.ok.inj h).symm⟩
        · rintro ⟨z', zs', hz, hzs, rfl⟩
          rw [← Except.ok.inj hz, ← Except.ok.inj (hxs.symm.trans (ih.mpr hzs))]
          rfl

/-- The results of a loop with a call that may throw, when it does not. -/
theorem mem_of_mapM_eq_ok {α β : Type*} {f : α → Except Exn β} {xs : List α} {ys : List β}
    (h : xs.mapM f = .ok ys) (y : β) : y ∈ ys ↔ ∃ x ∈ xs, f x = .ok y := by
  replace h := mapM_eq_ok_iff.mp h
  induction h with
  | nil => simp
  | @cons x z xs ys hz _ ih =>
    rw [List.mem_cons, List.exists_mem_cons_iff, hz, Except.ok.injEq, eq_comm]
    exact or_congr_right ih

theorem findAllUrls_eq_ok {data : Option Text} {ps : List Profile}
    (h : findAllUrls uri toLowerCase feature data = .ok ps) :
    ∃ rs, (findAll pattern (data.getD [])).mapM (ofUrl uri toLowerCase feature) = .ok rs ∧
      rs.reduceOption = ps := by
  rw [findAllUrls] at h
  cases hrs : (findAll pattern (data.getD [])).mapM (ofUrl uri toLowerCase feature) with
  | error e =>
    rw [hrs] at h
    exact absurd h (by simp [Except.map])
  | ok rs =>
    rw [hrs] at h
    exact ⟨rs, rfl, Except.ok.inj h⟩

/-- **The profiles found in a text** are those of the links in it that can be read. -/
theorem mem_findAllUrls {data : Option Text} {ps : List Profile}
    (h : findAllUrls uri toLowerCase feature data = .ok ps) (q : Profile) :
    q ∈ ps ↔
      ∃ value ∈ findAll pattern (data.getD []), ofUrl uri toLowerCase feature value = .ok (some q) := by
  obtain ⟨rs, hrs, rfl⟩ := findAllUrls_eq_ok uri toLowerCase feature h
  rw [List.reduceOption_mem_iff]
  exact mem_of_mapM_eq_ok hrs (some q)

/-- The fields of an old link. -/
structure LegacyFields (method password host port : Text) : Prop where
  method : method ≠ [] ∧ ':' ∉ method ∧ Text.SingleLine method
  password : Text.SingleLine password
  host : host ≠ [] ∧ '@' ∉ host ∧ Text.SingleLine host
  port : port ≠ [] ∧ ∀ c ∈ port, Number.isDigit c = true

/-- **Links are taken apart into the fields they were put together from.**  A link of the old format
whose text is `method:password@host:port` gives a profile with these fields, the method in lower case;
one of the new format whose user info is `method:password` gives, where `java.net.URI` can read it, a
profile with this method and password. -/
theorem ofUrl_fields (value method password : Text) (bytes : List UInt8) :
    (∀ host port remotePort encoded, LegacyFields method password host port →
      Number.parseInt port = some remotePort →
      Uri.userInfo value = none → Uri.host value = some encoded →
      Base64.decode false encoded = some bytes →
      Utf8.decode bytes = method ++ ':' :: (password ++ '@' :: (host ++ ':' :: port)) →
      ofUrl uri toLowerCase feature value = .ok (some
        { fresh feature with
          method := toLowerCase method, password := password, host := host, remotePort := remotePort
          plugin := Uri.getQueryParameter "plugin".toList value
          name := Uri.fragment value })) ∧
    ∀ userInfo, method ≠ [] → ':' ∉ method → Text.SingleLine method → Text.SingleLine password →
      Uri.userInfo value = some userInfo → Base64.decode true userInfo = some bytes →
      Utf8.decode bytes = method ++ ':' :: password →
      ofUrl uri toLowerCase feature value = .ok ((uri.parse value).map fun server =>
        { fresh feature with
          method := method, password := password
          host := unwrapped (server.1.getD []), remotePort := server.2
          plugin := Uri.getQueryParameter "plugin".toList value
          name := some ((Uri.fragment value).getD []) }) := by
  constructor
  · intro host port remotePort encoded hfields hport huser hhost hdecode htext
    have hmatch := matchEntire_legacy hfields.method.1 hfields.method.2.1 hfields.method.2.2
      hfields.password hfields.host.1 hfields.host.2.1 hfields.host.2.2 hfields.port.1 hfields.port.2
    rw [ofUrl, huser]
    simp only
    rw [ofLegacyUrl, hhost]
    simp only
    rw [hdecode, Option.bind_some, htext, hmatch]
    simp only
    rw [hport]
    rfl
  · intro userInfo hne hcolon hmethod hpassword huser hdecode htext
    rw [ofUrl, huser]
    simp only
    rw [ofUserInfo, hdecode, Option.bind_some, htext,
      matchEntire_userInfo hne hcolon hmethod hpassword]

/-- A password and an address that hold the separators, in both formats. -/
theorem ofUrl_fields_separators :
    (ofUrl .splitting (·.map Char.toLower) none "ss://UkM0LW1kNTpwQHE6MUA6OjE6ODM4OA".toList = .ok (some
      { ({} : Profile) with
        method := "rc4-md5".toList, password := "p@q:1".toList, host := "::1".toList
        remotePort := 8388, plugin := none, name := none })) ∧
    ofUrl .splitting (·.map Char.toLower) none "ss://cmM0LW1kNTphOmJAYw@h:80".toList = .ok (some
      { ({} : Profile) with
        method := "rc4-md5".toList, password := "a:b@c".toList, host := "h".toList
        remotePort := 80, plugin := none, name := some [] }) := by
  have hlegacy := (ofUrl_fields .splitting (·.map Char.toLower) none
    "ss://UkM0LW1kNTpwQHE6MUA6OjE6ODM4OA".toList "RC4-md5".toList "p@q:1".toList
    (Text.utf8 "RC4-md5:p@q:1@::1:8388".toList)).1 "::1".toList "8388".toList 8388
    "UkM0LW1kNTpwQHE6MUA6OjE6ODM4OA".toList
    ⟨⟨by decide, by decide, by decide⟩, by decide, ⟨by decide, by decide, by decide⟩, by decide,
      List.all_eq_true.mp (by decide)⟩
    (by decide +kernel) (by decide +kernel) (by decide +kernel) (by decide +kernel)
    (by decide +kernel)
  have huser := (ofUrl_fields .splitting (·.map Char.toLower) none
    "ss://cmM0LW1kNTphOmJAYw@h:80".toList "rc4-md5".toList "a:b@c".toList
    (Text.utf8 "rc4-md5:a:b@c".toList)).2 "cmM0LW1kNTphOmJAYw".toList (by decide) (by decide)
    (by decide) (by decide) (by decide +kernel) (by decide +kernel) (Utf8.decode_utf8 _)
  refine ⟨hlegacy.trans ?_, huser.trans ?_⟩
  · decide +kernel
  · decide +kernel

end Links

end Profile

end SsAndroid
