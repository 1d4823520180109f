import Anvil.Auth.Sent

/-!
# Profiles that may stand in one set

The refusals of `Composed.check` make the profiles of a set that applies pairwise `Compatible`, in their order.

* `Profile.headerNames`, `Profile.queryNames`, `Profile.setsBody` : what a profile writes;
  `applyStep_shape` : a step writes that;
* `Compatible q p` : `p` may follow `q`;
* `Composed.Holds c q` : `q` is entered in the record of the set; `check_ok` : what an accepted profile does to it.
-/

namespace Anvil.Auth
open Anvil.Lib Anvil.Engine

/-! ## What a profile writes -/

def digestName : BodyDigestHeader → Text
  | .contentDigest => "Content-Digest".toList
  | .legacyDigest => "Digest".toList

def Profile.headerNames : Profile → List Text
  | .apiKey name _ .header => [name]
  | .apiKey _ _ .query => []
  | .apiKey _ _ .cookie => ["Cookie".toList]
  | .basic _ _ => ["Authorization".toList]
  | .bearer _ _ => ["Authorization".toList]
  | .jwt p => [p.headerName]
  | .oAuth2 _ _ => ["Authorization".toList]
  | .hmac p => ["Authorization".toList, "Date".toList, digestName p.digestHeader]
  | .dpop _ _ _ _ => ["Authorization".toList, "DPoP".toList]
  | .wsse _ => []
  | .jwtSvid _ headerName _ => [headerName]

def Profile.queryNames : Profile → List Text
  | .apiKey name _ .query => [name]
  | _ => []

def Profile.setsBody : Profile → Bool
  | .wsse _ => true
  | _ => false

/-- The result of a step names what its profile writes. -/
structure Shape (p : Profile) (out : Applied) : Prop where
  headers : out.setHeaders.map Prod.fst = p.headerNames
  query : out.appendQuery.map Prod.fst = p.queryNames
  body : out.body.isSome = p.setsBody

theorem Shape.mem_headers {p : Profile} {out : Applied} (hs : Shape p out) {h : Header} (hh : h ∈ out.setHeaders) :
    h.1 ∈ p.headerNames := by
  rw [← hs.headers]
  exact List.mem_map_of_mem hh

theorem digestHeader_name (env : Env) (kind : BodyDigestHeader) (body : List UInt8) :
    (digestHeader env kind body).1 = digestName kind := by
  cases kind with
  | contentDigest => rfl
  | legacyDigest => rfl

/-- What `sign_with` signs and what it asks of the request. -/
theorem signWith_ok {env : Env} {p : HmacParams} {req : SignableRequest} {nonce : Text} {headers : List Header} :
    signWith env p req nonce = .ok headers → headers =
        [("Authorization".toList, hmacAuthorization env p nonce (hmacSigns env p req nonce)), ("Date".toList, env.date),
          digestHeader env p.digestHeader req.body] ∧
      hasHeader req "digest" = false ∧ hasHeader req "content-digest" = false := by
  intro h
  unfold signWith at h
  simp only [bind_eq_ok, refuseIf_ok, not_or, Bool.not_eq_true] at h
  obtain ⟨-, -, -, -, -, -, -, hdigest, h⟩ := h
  exact ⟨(Except.ok.inj h).symm, hdigest⟩

theorem applyStep_shape {env : Env} {draw : Nat} {req : SignableRequest} {p : Profile} {out : Applied}
    (h : applyStep env draw req p = .ok out) : Shape p out := by
  cases p with
  | apiKey name value location =>
    obtain ⟨-, -, h⟩ := bind_eq_ok.1 h
    cases location with
    | header =>
      obtain rfl := Except.ok.inj h
      exact ⟨rfl, rfl, rfl⟩
    | query =>
      obtain rfl := Except.ok.inj h
      exact ⟨rfl, rfl, rfl⟩
    | cookie =>
      obtain ⟨cookies, -, h⟩ := bind_eq_ok.1 h
      obtain rfl := Except.ok.inj h
      exact ⟨rfl, rfl, rfl⟩
  | bearer token tokenPrefix =>
    obtain rfl := Except.ok.inj h
    exact ⟨rfl, rfl, rfl⟩
  | oAuth2 accessToken tokenType =>
    obtain rfl := Except.ok.inj h
    exact ⟨rfl, rfl, rfl⟩
  | hmac p =>
    obtain ⟨headers, hs, h⟩ := bind_eq_ok.1 h
    obtain rfl := Except.ok.inj h
    obtain ⟨rfl, -⟩ := signWith_ok hs
    refine ⟨?_, rfl, rfl⟩
    simp only [List.map_cons, List.map_nil, digestHeader_name]
    rfl
  | dpop accessToken privateKeyPem dpopScheme nonce =>
    obtain ⟨u, -, h⟩ := bind_eq_ok.1 h
    obtain ⟨proof, -, h⟩ := bind_eq_ok.1 h
    obtain rfl := Except.ok.inj h
    exact ⟨rfl, rfl, rfl⟩
  | basic username password =>
    obtain ⟨-, -, h⟩ := bind_eq_ok.1 h
    obtain rfl := Except.ok.inj h
    exact ⟨rfl, rfl, rfl⟩
  | jwt p =>
    obtain ⟨token, -, h⟩ := bind_eq_ok.1 h
    obtain rfl := Except.ok.inj h
    exact ⟨rfl, rfl, rfl⟩
  | wsse p =>
    obtain ⟨inserted, -, h⟩ := bind_eq_ok.1 h
    obtain rfl := Except.ok.inj h
    exact ⟨rfl, rfl, rfl⟩
  | jwtSvid token headerName tokenPrefix =>
    obtain ⟨-, -, h⟩ := bind_eq_ok.1 h
    obtain rfl := Except.ok.inj h
    exact ⟨rfl, rfl, rfl⟩

/-! ## Compatible profiles -/

/-- `p` may follow `q` in a set. -/
structure Compatible (q p : Profile) : Prop where
  header : ∀ n ∈ q.headerNames, ∀ m ∈ p.headerNames, lower n = lower m → q.cookieKey.isSome = true ∧
    p.cookieKey.isSome = true
  cookie : ∀ n, q.cookieKey = some n → p.cookieKey ≠ some n
  query : ∀ k ∈ q.queryNames, k ∉ p.queryNames
  signed : ∀ sig, q.signature = some sig → (sig.query = true → p.queryNames = []) ∧
    (sig.body = true → p.setsBody = false) ∧ ∀ m ∈ p.headerNames, ∀ s ∈ sig.headers, eqIgnoreCase m s.toList = false

/-- A header name has an owner, and only a cookie key's may be shared. -/
def OwnedBy (owners : List HeaderOwner) (key : Bool) (name : Text) : Prop :=
  (∃ o ∈ owners, o.name = lower name) ∧ ∀ o ∈ owners, o.name = lower name → o.merge = true → key = true

/-- A list of names with their owners has the name. -/
def Named (owners : List (Text × Text)) (name : Text) : Prop := ∃ o ∈ owners, o.1 = name

/-- The profile is entered in the record of the set. -/
structure Composed.Holds (c : Composed) (q : Profile) : Prop where
  header : ∀ n ∈ q.headerNames, OwnedBy c.headers q.cookieKey.isSome n
  cookie : ∀ n, q.cookieKey = some n → Named c.cookies n
  query : ∀ k ∈ q.queryNames, Named c.query k
  signed : ∀ sig, q.signature = some sig → sig ∈ c.signatures

section Check
variable {p : Profile} {owners owners' : List HeaderOwner} {h : Header}

/-- Both outcomes of a header check that passes. -/
theorem checkHeader_ok (hc : checkHeader p owners h = .ok owners') :
    (∃ o ∈ owners, o.name = lower h.1 ∧ o.merge = true ∧ p.cookieKey.isSome = true ∧ owners' = owners) ∨
      (∀ o ∈ owners, o.name ≠ lower h.1) ∧ ∃ merge, (merge = true → p.cookieKey.isSome = true) ∧
        owners' = owners ++ [⟨lower h.1, p.label, merge⟩] := by
  unfold checkHeader at hc
  dsimp only at hc
  split at hc
  · next o ho =>
    split_ifs at hc with hm
    obtain ⟨hkey, hmerge⟩ := (Bool.and_eq_true_iff).1 hm
    have hname : o.name = lower h.1 := by simpa using List.find?_some ho
    exact .inl ⟨o, List.mem_of_find?_eq_some ho, hname, hmerge, (Bool.and_eq_true_iff.1 hkey).1,
      (Except.ok.inj hc).symm⟩
  · next hnone =>
    refine .inr ⟨fun o ho => ?_, _, fun hm => (Bool.and_eq_true_iff.1 hm).1, (Except.ok.inj hc).symm⟩
    simpa using List.find?_eq_none.1 hnone o ho

theorem checkHeader_keeps {key : Bool} {name : Text} (hc : checkHeader p owners h = .ok owners')
    (ho : OwnedBy owners key name) :
    OwnedBy owners' key name ∧ (lower name = lower h.1 → key = true ∧ p.cookieKey.isSome = true) := by
  obtain ⟨⟨o, hmem, hname⟩, hshared⟩ := ho
  rcases checkHeader_ok hc with ⟨o', hmem', hname', hmerge, hkey, rfl⟩ | ⟨hfresh, merge, hmerge, rfl⟩
  · exact ⟨⟨⟨o, hmem, hname⟩, hshared⟩, fun he => ⟨hshared o' hmem' (hname'.trans he.symm) hmerge, hkey⟩⟩
  · have hne : lower name ≠ lower h.1 := fun he => hfresh o hmem (hname.trans he)
    refine ⟨⟨⟨o, List.mem_append_left _ hmem, hname⟩, fun o' ho' hname' hm => ?_⟩, fun he => absurd he hne⟩
    rcases List.mem_append.1 ho' with ho' | ho'
    · exact hshared o' ho' hname' hm
    · rw [List.mem_singleton.1 ho'] at hname'
      exact absurd hname'.symm hne

theorem checkHeader_owned (hc : checkHeader p owners h = .ok owners') :
    OwnedBy owners' p.cookieKey.isSome h.1 := by
  rcases checkHeader_ok hc with ⟨o, hmem, hname, hmerge, hkey, rfl⟩ | ⟨hfresh, merge, hmerge, rfl⟩
  · exact ⟨⟨o, hmem, hname⟩, fun _ _ _ _ => hkey⟩
  · refine ⟨⟨_, List.mem_append_right _ (List.mem_singleton_self _), rfl⟩, fun o ho hname hm => ?_⟩
    rcases List.mem_append.1 ho with ho | ho
    · exact absurd hname (hfresh o ho)
    · rw [List.mem_singleton.1 ho] at hm
      exact hmerge hm

/-- A name that is entered under a check that refuses it when it is there. -/
theorem checkQuery_ok {query query' : List (Text × Text)} {kv : Text × Text}
    (hc : checkQuery p query kv = .ok query') : ¬Named query kv.1 ∧ query' = query ++ [(kv.1, p.label)] := by
  unfold checkQuery at hc
  split at hc
  · cases hc
  · next hnone =>
    refine ⟨fun ⟨q, hq, hk⟩ => ?_, (Except.ok.inj hc).symm⟩
    simpa [hk] using List.find?_eq_none.1 hnone q hq

theorem checkCookie_ok {cookies cookies' : List (Text × Text)} (hc : checkCookie p cookies = .ok cookies') :
    (p.cookieKey = none ∧ cookies' = cookies) ∨
      ∃ n, p.cookieKey = some n ∧ ¬Named cookies n ∧ cookies' = cookies ++ [(n, p.label)] := by
  unfold checkCookie at hc
  split at hc
  · next hkey => exact .inl ⟨hkey, (Except.ok.inj hc).symm⟩
  · next n hkey =>
    split at hc
    · cases hc
    · next hnone =>
      refine .inr ⟨n, hkey, fun ⟨c, hmem, hn⟩ => ?_, (Except.ok.inj hc).symm⟩
      simpa [hn] using List.find?_eq_none.1 hnone c hmem

theorem Named.append {l : List (Text × Text)} {n : Text} (hn : Named l n) (l' : List (Text × Text)) :
    Named (l ++ l') n := by
  obtain ⟨o, ho, hname⟩ := hn
  exact ⟨o, List.mem_append_left _ ho, hname⟩

theorem checkSignature_ok {label : Text} {out : Applied} {sig : Signature}
    (hc : checkSignature label out sig = .ok ()) (hs : Shape p out) :
    (sig.query = true → p.queryNames = []) ∧ (sig.body = true → p.setsBody = false) ∧
      ∀ m ∈ p.headerNames, ∀ s ∈ sig.headers, eqIgnoreCase m s.toList = false := by
  have hnone : sig.changed out = none := by
    unfold checkSignature at hc
    split at hc
    · cases hc
    · assumption
  unfold Signature.changed at hnone
  split_ifs at hnone with hq hb
  refine ⟨fun h => ?_, fun h => ?_, fun m hm s hsig => ?_⟩
  · rw [← hs.query]
    simpa [h] using hq
  · rw [← hs.body]
    simpa [h] using hb
  · rw [← hs.headers] at hm
    obtain ⟨h, hh, rfl⟩ := List.mem_map.1 hm
    have hcov : ¬sig.covers h = true := List.find?_eq_none.1 (Option.map_eq_none_iff.1 hnone) h hh
    unfold Signature.covers at hcov
    simp only [List.any_eq_true, not_exists, not_and, Bool.not_eq_true] at hcov
    exact hcov s hsig

end Check

theorem forM_ok {α : Type} {f : α → Except AuthError Unit} {l : List α} (h : l.forM f = .ok ()) :
    ∀ a ∈ l, f a = .ok () := by
  induction l with
  | nil => simp
  | cons a l ih =>
    obtain ⟨u, ha, h⟩ := bind_eq_ok.1 (show (f a >>= fun _ => l.forM f) = .ok () from h)
    exact List.forall_mem_cons.2 ⟨ha, ih h⟩

/-- **The check** enters the profile, keeps the entries there, and accepts only what may follow them. -/
theorem check_ok {c c' : Composed} {p : Profile} {out : Applied} (h : c.check p out = .ok c') (hs : Shape p out) :
    c'.Holds p ∧ ∀ q, c.Holds q → c'.Holds q ∧ Compatible q p := by
  unfold Composed.check at h
  simp only [bind_eq_ok] at h
  obtain ⟨u, hsigs, headers, hheaders, cookies, hcookies, query, hquery, h⟩ := h
  obtain rfl := Except.ok.inj h
  have hsigs := forM_ok hsigs
  have hmade : ∀ hd ∈ out.setHeaders, OwnedBy headers p.cookieKey.isSome hd.1 := by
    refine runOps_made (R := fun s hd => OwnedBy s p.cookieKey.isSome hd.1) (fun s hd s' hc => ?_)
      (fun s hd s' b hc ho => ?_) hheaders
    · exact checkHeader_owned hc
    · exact (checkHeader_keeps hc ho).1
  have hadded : ∀ kv ∈ out.appendQuery, Named query kv.1 := by
    refine runOps_made (R := fun s kv => Named s kv.1) (fun s kv s' hc => ?_) (fun s kv s' b hc hn => ?_) hquery
    · rw [(checkQuery_ok hc).2]
      exact ⟨_, List.mem_append_right _ (List.mem_singleton_self _), rfl⟩
    · rw [(checkQuery_ok hc).2]
      exact hn.append _
  refine ⟨⟨fun n hn => ?_, fun n hn => ?_, fun k hk => ?_, fun sig hsig => ?_⟩, fun q hq => ?_⟩
  · rw [← hs.headers] at hn
    obtain ⟨hd, hmem, rfl⟩ := List.mem_map.1 hn
    exact hmade hd hmem
  · rcases checkCookie_ok hcookies with ⟨hnone, -⟩ | ⟨m, hm, -, rfl⟩
    · rw [hnone] at hn
      cases hn
    · rw [hm, Option.some.injEq] at hn
      exact ⟨_, List.mem_append_right _ (List.mem_singleton_self _), hn⟩
  · rw [← hs.query] at hk
    obtain ⟨kv, hmem, rfl⟩ := List.mem_map.1 hk
    exact hadded kv hmem
  · exact List.mem_append_right _ (by rw [hsig]; exact List.mem_singleton_self _)
  · have hown : ∀ n ∈ q.headerNames, OwnedBy headers q.cookieKey.isSome n ∧ ∀ hd ∈ out.setHeaders,
        lower n = lower hd.1 → q.cookieKey.isSome = true ∧ p.cookieKey.isSome = true := by
      intro n hn
      exact runOps_forall (I := fun s => OwnedBy s q.cookieKey.isSome n) (fun s hd s' hc => checkHeader_keeps hc) hheaders
        (hq.header n hn)
    have hqry : ∀ k ∈ q.queryNames, Named query k ∧ ∀ kv ∈ out.appendQuery, kv.1 ≠ k := by
      intro k hk
      refine runOps_forall (I := fun s => Named s k) (fun s kv s' hc hn => ?_) hquery (hq.query k hk)
      obtain ⟨hfresh, rfl⟩ := checkQuery_ok hc
      exact ⟨hn.append _, fun he => hfresh (he ▸ hn)⟩
    refine ⟨⟨fun n hn => (hown n hn).1, fun n hn => ?_, fun k hk => (hqry k hk).1, fun sig hsig => ?_⟩,
      ⟨fun n hn m hm => ?_, fun n hn hp => ?_, fun k hk hp => ?_, fun sig hsig => ?_⟩⟩
    · rcases checkCookie_ok hcookies with ⟨-, rfl⟩ | ⟨m, -, -, rfl⟩
      · exact hq.cookie n hn
      · exact (hq.cookie n hn).append _
    · exact List.mem_append_left _ (hq.signed sig hsig)
    · rw [← hs.headers] at hm
      obtain ⟨hd, hmem, rfl⟩ := List.mem_map.1 hm
      exact (hown n hn).2 hd hmem
    · rcases checkCookie_ok hcookies with ⟨hnone, -⟩ | ⟨m, hm, hfresh, -⟩
      · rw [hnone] at hp
        cases hp
      · rw [hm, Option.some.injEq] at hp
        exact hfresh (hp ▸ hq.cookie n hn)
    · rw [← hs.query] at hp
      obtain ⟨kv, hmem, rfl⟩ := List.mem_map.1 hp
      exact (hqry kv.1 hk).2 kv hmem rfl
    · exact checkSignature_ok (hsigs sig (hq.signed sig hsig)) hs

end Anvil.Auth
