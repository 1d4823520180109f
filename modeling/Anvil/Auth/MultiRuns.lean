import Anvil.Auth.Compatible

/-!
# A multi-auth set signs what is sent

A profile brings its credential into the request, and a compatible later profile leaves it alone.

* `Carries env r p` : the request `r` holds the credential of `p`, and the signature of `p` is one over `r`;
* `Carries.absorb` : a compatible step keeps it; `carries_applied` : a step brings it about;
* `Tracks` : the invariant of the loop of `apply`;
* `auth_signs_what_is_sent` : the whole set; `header_key_drops_cookies` : the one way to lose a cookie.
-/

namespace Anvil.Auth
open Anvil.Lib Anvil.Engine

/-! ## The request after a step -/

section Absorb
variable (r : SignableRequest) (out : Applied)

theorem foldl_absorbHeader_keeps (hs : List Header) (r : SignableRequest) :
    hs.foldl absorbHeader r =
      { r with headers := hs.foldl setHeader r.headers, authority := (hs.foldl absorbHeader r).authority } := by
  induction hs generalizing r with
  | nil => rfl
  | cons h hs ih =>
    rw [List.foldl_cons, ih]
    rfl

@[simp] theorem absorb_headers : (absorb r out).headers = out.headersOn r.headers := by
  unfold absorb
  rw [foldl_absorbHeader_keeps]
  rfl

@[simp] theorem absorb_rawQuery : (absorb r out).rawQuery = out.queryOn r.rawQuery := by
  unfold absorb
  rw [foldl_absorbHeader_keeps]

@[simp] theorem absorb_body : (absorb r out).body = out.bodyOn r.body := by
  unfold absorb
  rw [foldl_absorbHeader_keeps]

@[simp] theorem absorb_method : (absorb r out).method = r.method := by
  unfold absorb
  rw [foldl_absorbHeader_keeps]

@[simp] theorem absorb_scheme : (absorb r out).scheme = r.scheme := by
  unfold absorb
  rw [foldl_absorbHeader_keeps]

@[simp] theorem absorb_rawPath : (absorb r out).rawPath = r.rawPath := by
  unfold absorb
  rw [foldl_absorbHeader_keeps]

variable {r out}

theorem absorb_authority (hn : ∀ h ∈ out.setHeaders, isNamed "host" h = false) : (absorb r out).authority = r.authority := by
  have hfold : ∀ (hs : List Header) (r : SignableRequest), (∀ h ∈ hs, isNamed "host" h = false) →
      (hs.foldl absorbHeader r).authority = r.authority := by
    intro hs
    induction hs with
    | nil => exact fun _ _ => rfl
    | cons h hs ih =>
      intro r hn
      rw [List.foldl_cons, ih _ fun g hg => hn g (List.mem_cons_of_mem h hg)]
      exact if_neg (by simp [hn h List.mem_cons_self])
  exact hfold _ r hn

end Absorb

/-! ## What a request carries -/

def isDigestHeader (h : Header) : Bool := isNamed "digest" h || isNamed "content-digest" h

theorem isDigestHeader_congr {g h : Header} (hg : eqIgnoreCase g.1 h.1 = true) : isDigestHeader g = isDigestHeader h := by
  unfold isDigestHeader isNamed
  rw [eqIgnoreCase_congr hg, eqIgnoreCase_congr hg]

/-- The request carries one `Authorization` whose signature is over the request itself, its one `Date` and the digest
of its body, in its one digest header. -/
structure SignedBy (env : Env) (p : HmacParams) (nonce : Text) (r : SignableRequest) : Prop where
  authorization : Sole r.headers "Authorization".toList (hmacAuthorization env p nonce
    (signingString p.profile p.boundNs p.username r.authority r.method r.rawPath r.rawQuery env.date
      (digestHeader env p.digestHeader r.body).2 (p.nonce nonce)))
  date : Sole r.headers "Date".toList env.date
  digest : r.headers.filter isDigestHeader = [digestHeader env p.digestHeader r.body]

/-- The request holds the profile's credential, and a proof of possession is one for its scheme, authority and path.
A body that a profile replaces is `insertTokens`. -/
def Carries (env : Env) (r : SignableRequest) : Profile → Prop
  | .apiKey name value .header => Sole r.headers name value
  | .apiKey name value .query => queryPair (name, value) ∈ queryPairs r.rawQuery
  | .apiKey name value .cookie =>
    (requestCookies r.headers).filter (fun c => cookieName c = name) = [cookiePair name value]
  | .basic username password =>
    Sole r.headers "Authorization".toList ("Basic ".toList ++ basicToken env username password)
  | .bearer token tokenPrefix => Sole r.headers "Authorization".toList (withPrefix tokenPrefix token)
  | .jwt p => ∃ draw token, env.jwtSign draw p = .ok token ∧
    Sole r.headers p.headerName (withPrefix p.tokenPrefix token)
  | .oAuth2 accessToken tokenType =>
    Sole r.headers "Authorization".toList (tokenScheme tokenType ++ ' ' :: accessToken)
  | .hmac p => ∃ nonce, SignedBy env p nonce r
  | .dpop accessToken privateKeyPem dpopScheme nonce => ∃ draw u proof, htu r.scheme r.authority r.rawPath = .ok u ∧
    env.dpopJwt draw privateKeyPem r.method u accessToken nonce = .ok proof ∧
    Sole r.headers "Authorization".toList (dpopAuthorization accessToken dpopScheme) ∧ Sole r.headers "DPoP".toList proof
  | .wsse _ => True
  | .jwtSvid token headerName tokenPrefix => Sole r.headers headerName (withPrefix tokenPrefix token)

def insertToken (env : Env) (draw : Nat) (p : Profile) (body : List UInt8) : Except AuthError (List UInt8) :=
  match p with
  | .wsse params => env.insertSecurityToken draw params body
  | _ => .ok body

/-- The body with the tokens of the `Wsse` profiles inserted in turn. -/
def insertTokens (env : Env) : Nat → List Profile → List UInt8 → Except AuthError (List UInt8)
  | _, [], body => .ok body
  | draw, p :: ps, body => do
    let inserted ← insertToken env draw p body
    insertTokens env (draw + 1) ps inserted

section Step
variable {env : Env} {draw : Nat} {r : SignableRequest} {q p : Profile} {out : Applied}

/-- A later profile keeps a header that is not a shared `Cookie`. -/
theorem Sole.absorb {name value : Text} (hs : Sole r.headers name value) (hc : Compatible q p) (hshape : Shape p out)
    (hname : name ∈ q.headerNames) (hkey : q.cookieKey = none) : Sole (absorb r out).headers name value := by
  rw [absorb_headers]
  refine hs.headersOn_other fun h hh => ?_
  rw [Bool.eq_false_iff, ne_eq, eqIgnoreCase_iff]
  intro he
  have hboth := hc.header name hname h.1 (hshape.mem_headers hh) he.symm
  rw [hkey] at hboth
  exact absurd hboth.1 (by simp)

/-- The cookies after any step of a profile other than a header named `Cookie`. -/
theorem requestCookies_applyStep (h : applyStep env draw r p = .ok out) :
    (p.cookieKey = none ∧ ((∀ n ∈ p.headerNames, eqIgnoreCase n "cookie".toList = false) →
        requestCookies (absorb r out).headers = requestCookies r.headers)) ∨
      ∃ name value, p = .apiKey name value .cookie ∧ requestCookies (absorb r out).headers =
          (requestCookies r.headers).filter (fun c => cookieName c ≠ name) ++ [cookiePair name value] ∧
        cookieName (cookiePair name value) = name := by
  have hshape := applyStep_shape h
  by_cases hkey : p.cookieKey = none
  · refine .inl ⟨hkey, fun hn => ?_⟩
    rw [absorb_headers, requestCookies_headersOn_other]
    exact fun g hg => hn g.1 (hshape.mem_headers hg)
  · unfold Profile.cookieKey at hkey
    split at hkey
    · next name value =>
      refine .inr ⟨name, value, rfl, ?_⟩
      obtain ⟨-, -, h⟩ := bind_eq_ok.1 h
      obtain ⟨cookies, hcookies, h⟩ := bind_eq_ok.1 h
      obtain rfl := Except.ok.inj h
      rw [absorb_headers]
      exact requestCookies_withCookie hcookies
    · exact absurd rfl hkey

theorem absorb_unsigned_query (hshape : Shape p out) (hq : p.queryNames = []) :
    (absorb r out).rawQuery = r.rawQuery := by
  have hnil : out.appendQuery = [] := List.map_eq_nil_iff.1 (hshape.query.trans hq)
  rw [absorb_rawQuery, Applied.queryOn, hnil, List.foldl_nil]

theorem absorb_unsigned_body (hshape : Shape p out) (hb : p.setsBody = false) : (absorb r out).body = r.body := by
  have hnone : out.body = none := Option.isSome_eq_false_iff.1 (hshape.body.trans hb) |> Option.isNone_iff_eq_none.1
  rw [absorb_body, Applied.bodyOn, hnone, Option.getD_none]

/-- A later profile leaves the parts alone that an HMAC signature is over. -/
theorem SignedBy.absorb {params : HmacParams} {nonce : Text} (hs : SignedBy env params nonce r)
    (hc : Compatible (.hmac params) p) (hshape : Shape p out) : SignedBy env params nonce (absorb r out) := by
  obtain ⟨hquery, hbody, hheaders⟩ := hc.signed _ rfl
  have hq : (Auth.absorb r out).rawQuery = r.rawQuery := absorb_unsigned_query hshape (hquery rfl)
  have hb : (Auth.absorb r out).body = r.body := absorb_unsigned_body hshape (hbody rfl)
  have ha : (Auth.absorb r out).authority = r.authority :=
    absorb_authority fun h hh => hheaders h.1 (hshape.mem_headers hh) "host" (by simp)
  refine ⟨?_, hs.date.absorb hc hshape (by simp [Profile.headerNames]) rfl, ?_⟩
  · rw [ha, hq, hb, absorb_method, absorb_rawPath]
    exact hs.authorization.absorb hc hshape (by simp [Profile.headerNames]) rfl
  · rw [hb, absorb_headers, filter_headersOn_of_not, hs.digest]
    intro h hh g hg
    have hd : isNamed "digest" h = false := hheaders h.1 (hshape.mem_headers hh) "digest" (by simp)
    have hcd : isNamed "content-digest" h = false := hheaders h.1 (hshape.mem_headers hh) "content-digest" (by simp)
    rw [isDigestHeader_congr hg, isDigestHeader, hd, hcd, Bool.or_false]

/-- **A step keeps** what an earlier compatible profile put into the request. -/
theorem Carries.absorb (hq : Carries env r q) (hc : Compatible q p) (h : applyStep env draw r p = .ok out) :
    Carries env (absorb r out) q := by
  have hshape := applyStep_shape h
  cases q with
  | apiKey name value location =>
    cases location with
    | header => exact Sole.absorb hq hc hshape (by simp [Profile.headerNames]) rfl
    | query =>
      unfold Carries at hq ⊢
      rw [absorb_rawQuery, queryPairs_queryOn]
      exact List.mem_append_left _ hq
    | cookie =>
      simp only [Carries] at hq ⊢
      rcases requestCookies_applyStep h with ⟨hkey, hsame⟩ | ⟨n, v, rfl, hcookies, hname⟩
      · rw [hsame, hq]
        intro m hm
        rw [Bool.eq_false_iff, ne_eq, eqIgnoreCase_iff]
        intro he
        have hboth := hc.header "Cookie".toList (by simp [Profile.headerNames]) m hm (he.trans (by decide)).symm
        rw [hkey] at hboth
        exact absurd hboth.2 (by simp)
      · have hne : n ≠ name := fun e => hc.cookie name rfl (by rw [← e]; rfl)
        have hfilter : ∀ c : Text, (decide (cookieName c = name) && decide (cookieName c ≠ n)) =
            decide (cookieName c = name) := by
          intro c
          by_cases he : cookieName c = name
          · simp [he, Ne.symm hne]
          · simp [he]
        rw [hcookies, List.filter_append, List.filter_filter, List.filter_singleton, hname]
        simp only [hfilter, hq, hne, decide_false, cond_false, List.append_nil]
  | basic username password => exact Sole.absorb hq hc hshape (by simp [Profile.headerNames]) rfl
  | bearer token tokenPrefix => exact Sole.absorb hq hc hshape (by simp [Profile.headerNames]) rfl
  | jwt params =>
    obtain ⟨d, token, htoken, hs⟩ := hq
    exact ⟨d, token, htoken, hs.absorb hc hshape (by simp [Profile.headerNames]) rfl⟩
  | oAuth2 accessToken tokenType => exact Sole.absorb hq hc hshape (by simp [Profile.headerNames]) rfl
  | hmac params =>
    obtain ⟨nonce, hs⟩ := hq
    exact ⟨nonce, hs.absorb hc hshape⟩
  | dpop accessToken privateKeyPem dpopScheme nonce =>
    obtain ⟨d, u, proof, hu, hproof, hauth, hdpop⟩ := hq
    have ha : (Auth.absorb r out).authority = r.authority :=
      absorb_authority fun g hg => (hc.signed _ rfl).2.2 g.1 (hshape.mem_headers hg) "host" (by simp)
    refine ⟨d, u, proof, ?_, ?_, hauth.absorb hc hshape (by simp [Profile.headerNames]) rfl,
      hdpop.absorb hc hshape (by simp [Profile.headerNames]) rfl⟩
    · rw [absorb_scheme, ha, absorb_rawPath, hu]
    · rw [absorb_method, hproof]
  | wsse params => trivial
  | jwtSvid token headerName tokenPrefix => exact Sole.absorb hq hc hshape (by simp [Profile.headerNames]) rfl

theorem setHeader_digests (headers : List Header) {h : Header} (hh : isDigestHeader h = false) :
    (setHeader headers h).filter isDigestHeader = headers.filter isDigestHeader :=
  filter_setHeader_of_not hh fun _ hg => (isDigestHeader_congr hg).trans hh

theorem isDigestHeader_digestHeader (env : Env) (kind : BodyDigestHeader) (body : List UInt8) :
    isDigestHeader (digestHeader env kind body) = true := by
  unfold isDigestHeader isNamed
  rw [digestHeader_name]
  cases kind with
  | contentDigest => decide
  | legacyDigest => decide

theorem digestName_ne (kind : BodyDigestHeader) : eqIgnoreCase (digestName kind) "Authorization".toList = false ∧
    eqIgnoreCase (digestName kind) "Date".toList = false ∧ eqIgnoreCase (digestName kind) "host".toList = false := by
  cases kind with
  | contentDigest => decide
  | legacyDigest => decide

/-- The headers of a signature on a request without a digest of its own. -/
theorem signature_headers {headers : List Header} (hnone : headers.filter isDigestHeader = []) (authorization date : Text)
    (kind : BodyDigestHeader) (body : List UInt8) :
    let signed := setHeader (setHeader (setHeader headers ("Authorization".toList, authorization)) ("Date".toList, date))
      (digestHeader env kind body)
    Sole signed "Authorization".toList authorization ∧ Sole signed "Date".toList date ∧
      signed.filter isDigestHeader = [digestHeader env kind body] := by
  obtain ⟨hauth, hdate, -⟩ := digestName_ne kind
  rw [← digestHeader_name env kind body] at hauth hdate
  have hda : eqIgnoreCase "Date".toList "Authorization".toList = false := by decide
  have hnd : (eqIgnoreCase "Date".toList "digest".toList || eqIgnoreCase "Date".toList "content-digest".toList) = false := by
    decide
  have hna : (eqIgnoreCase "Authorization".toList "digest".toList ||
      eqIgnoreCase "Authorization".toList "content-digest".toList) = false := by decide
  refine ⟨((sole_setHeader _ _).setHeader_other hda).setHeader_other hauth, (sole_setHeader _ _).setHeader_other hdate, ?_⟩
  have hrest := (setHeader_digests (setHeader headers ("Authorization".toList, authorization))
    (h := ("Date".toList, date)) hnd).trans
    ((setHeader_digests headers (h := ("Authorization".toList, authorization)) hna).trans hnone)
  rw [setHeader, List.filter_append, List.filter_comm, hrest, List.filter_nil, List.nil_append, List.filter_singleton,
    isDigestHeader_digestHeader, cond_true]

/-- The signing step leaves a request that it signed. -/
theorem signedBy_applied {params : HmacParams} (h : applyStep env draw r (.hmac params) = .ok out)
    (hm : upper r.method = r.method) : SignedBy env params (env.freshNonce draw) (absorb r out) := by
  have hshape := applyStep_shape h
  obtain ⟨headers, hsign, h⟩ := bind_eq_ok.1 h
  obtain rfl := Except.ok.inj h
  obtain ⟨rfl, hdigest, hcontent⟩ := signWith_ok hsign
  have hnone : r.headers.filter isDigestHeader = [] := by
    rw [List.filter_eq_nil_iff]
    intro g hg
    unfold hasHeader at hdigest hcontent
    rw [List.any_eq_false] at hdigest hcontent
    simp [isDigestHeader, hdigest g hg, hcontent g hg]
  have hnames : ∀ n ∈ (Profile.hmac params).headerNames, eqIgnoreCase n "host".toList = false := by
    simp only [Profile.headerNames, List.mem_cons, List.not_mem_nil, or_false, forall_eq_or_imp, forall_eq]
    exact ⟨by decide, by decide, (digestName_ne _).2.2⟩
  obtain ⟨hauth, hdate, hone⟩ := @signature_headers env r.headers hnone
    (hmacAuthorization env params (env.freshNonce draw) (hmacSigns env params r (env.freshNonce draw))) env.date
    params.digestHeader r.body
  have hq := absorb_unsigned_query (r := r) hshape rfl
  have hb := absorb_unsigned_body (r := r) hshape rfl
  have ha := absorb_authority (r := r) fun h hh => hnames h.1 (hshape.mem_headers hh)
  refine ⟨?_, ?_, ?_⟩
  · have hsigns : hmacSigns env params r (env.freshNonce draw) = signingString params.profile params.boundNs
        params.username r.authority r.method r.rawPath r.rawQuery env.date (digestHeader env params.digestHeader r.body).2
        (params.nonce (env.freshNonce draw)) := by rw [hmacSigns, hm]
    rw [ha, hq, hb, absorb_method, absorb_rawPath, absorb_headers, ← hsigns]
    exact hauth
  · rw [absorb_headers]
    exact hdate
  · rw [hb, absorb_headers]
    exact hone

/-- **A step brings about** what its profile stands for. -/
theorem carries_applied (h : applyStep env draw r p = .ok out) (hm : upper r.method = r.method) :
    Carries env (absorb r out) p := by
  cases p with
  | apiKey name value location =>
    obtain ⟨-, -, hkey⟩ := bind_eq_ok.1 h
    cases location with
    | header =>
      obtain rfl := Except.ok.inj hkey
      rw [Carries, absorb_headers]
      exact sole_setHeader _ _
    | query =>
      obtain rfl := Except.ok.inj hkey
      rw [Carries, absorb_rawQuery, queryPairs_queryOn]
      exact List.mem_append_right _ (List.mem_singleton_self _)
    | cookie =>
      obtain ⟨cookies, hcookies, hkey⟩ := bind_eq_ok.1 hkey
      obtain rfl := Except.ok.inj hkey
      obtain ⟨hafter, hname⟩ := requestCookies_withCookie hcookies
      rw [Carries, absorb_headers]
      refine (congrArg (List.filter _) hafter).trans ?_
      rw [List.filter_append, List.filter_filter, List.filter_singleton, hname]
      simp
  | basic username password =>
    obtain ⟨-, -, h⟩ := bind_eq_ok.1 h
    obtain rfl := Except.ok.inj h
    rw [Carries, absorb_headers]
    exact sole_setHeader _ _
  | bearer token tokenPrefix =>
    obtain rfl := Except.ok.inj h
    rw [Carries, absorb_headers]
    exact sole_setHeader _ _
  | jwt params =>
    obtain ⟨token, htoken, h⟩ := bind_eq_ok.1 h
    obtain rfl := Except.ok.inj h
    rw [Carries, absorb_headers]
    exact ⟨draw, token, htoken, sole_setHeader _ _⟩
  | oAuth2 accessToken tokenType =>
    obtain rfl := Except.ok.inj h
    rw [Carries, absorb_headers]
    exact sole_setHeader _ _
  | hmac params => exact ⟨_, signedBy_applied h hm⟩
  | dpop accessToken privateKeyPem dpopScheme nonce =>
    obtain ⟨u, hu, h⟩ := bind_eq_ok.1 h
    obtain ⟨proof, hproof, h⟩ := bind_eq_ok.1 h
    obtain rfl := Except.ok.inj h
    have hda : eqIgnoreCase "DPoP".toList "Authorization".toList = false := by decide
    have hhost : ∀ n ∈ ["Authorization".toList, "DPoP".toList], eqIgnoreCase n "host".toList = false := by decide
    refine ⟨draw, u, proof, ?_, ?_, ?_, ?_⟩
    · rw [absorb_scheme, absorb_rawPath, absorb_authority, hu]
      exact fun g hg => hhost g.1 (List.mem_map_of_mem hg)
    · rw [absorb_method, ← hm, hproof]
    · rw [absorb_headers]
      exact (sole_setHeader _ _).setHeader_other hda
    · rw [absorb_headers]
      exact sole_setHeader _ _
  | wsse params => trivial
  | jwtSvid token headerName tokenPrefix =>
    obtain ⟨-, -, h⟩ := bind_eq_ok.1 h
    obtain rfl := Except.ok.inj h
    rw [Carries, absorb_headers]
    exact sole_setHeader _ _

end Step

/-! ## The whole set -/

/-- A profile other than a cookie API key that sets the whole `Cookie` header. -/
def Profile.SetsCookieHeader (p : Profile) : Prop :=
  p.cookieKey = none ∧ ∃ n ∈ p.headerNames, eqIgnoreCase n "cookie".toList = true

/-- The loop so far: `effective` is the request with the result applied, and every profile done is carried by it. -/
structure Tracks (env : Env) (o : Outgoing) (ps : List Profile) (s : Progress) : Prop where
  effective : s.effective = o.sent s.applied
  carried : ∀ q ∈ ps, s.composed.Holds q ∧ Carries env s.effective q

theorem sent_addStep (o : Outgoing) (a out : Applied) : o.sent (addStep a out) = absorb (o.sent a) out := by
  unfold Outgoing.sent
  rw [absorb_signable, addStep_headersOn, addStep_queryOn, addStep_bodyOn]

theorem Tracks.applyNext {env : Env} {o : Outgoing} {ps : List Profile} {s s' : Progress} {draw : Nat} {p : Profile}
    (ht : Tracks env o ps s) (h : applyNext env draw s p = .ok s') : Tracks env o (ps ++ [p]) s' := by
  obtain ⟨out, hout, h⟩ := bind_eq_ok.1 h
  obtain ⟨composed, hcheck, h⟩ := bind_eq_ok.1 h
  obtain rfl := Except.ok.inj h
  obtain ⟨hself, hkept⟩ := check_ok hcheck (applyStep_shape hout)
  have hm : upper s.effective.method = s.effective.method := by
    rw [ht.effective]
    exact o.upper_method
  refine ⟨?_, fun q hq => ?_⟩
  · rw [sent_addStep, ht.effective]
  · rcases List.mem_append.1 hq with hq | hq
    · obtain ⟨hholds, hcarries⟩ := ht.carried q hq
      obtain ⟨hholds', hcompat⟩ := hkept q hholds
      exact ⟨hholds', hcarries.absorb hcompat hout⟩
    · rw [List.mem_singleton.1 hq]
      exact ⟨hself, carries_applied hout hm⟩

theorem Tracks.applyFrom {env : Env} {o : Outgoing} {done ps : List Profile} {s s' : Progress} {draw : Nat}
    (ht : Tracks env o done s) (h : applyFrom env draw s ps = .ok s') : Tracks env o (done ++ ps) s' := by
  induction ps generalizing done s draw with
  | nil =>
    obtain rfl := Except.ok.inj h
    rwa [List.append_nil]
  | cons p ps ih =>
    obtain ⟨s₁, h₁, h⟩ := bind_eq_ok.1 h
    have ht' := ih (ht.applyNext h₁) h
    rwa [List.append_assoc, List.singleton_append] at ht'

/-- What a turn of the loop makes of the request. -/
theorem applyNext_effective {env : Env} {draw : Nat} {s s' : Progress} {p : Profile} (h : applyNext env draw s p = .ok s') :
    ∃ out, applyStep env draw s.effective p = .ok out ∧ s'.effective = absorb s.effective out := by
  obtain ⟨out, hout, h⟩ := bind_eq_ok.1 h
  obtain ⟨composed, -, h⟩ := bind_eq_ok.1 h
  obtain rfl := Except.ok.inj h
  exact ⟨out, hout, rfl⟩

theorem insertToken_applyStep {env : Env} {draw : Nat} {r : SignableRequest} {p : Profile} {out : Applied}
    (h : applyStep env draw r p = .ok out) : insertToken env draw p r.body = .ok (absorb r out).body := by
  unfold insertToken
  split
  · obtain ⟨inserted, hinserted, h⟩ := bind_eq_ok.1 h
    obtain rfl := Except.ok.inj h
    rw [hinserted, absorb_body]
    rfl
  · next hother =>
    have hb : p.setsBody = false := by
      unfold Profile.setsBody
      split
      · next params => exact absurd rfl (hother params)
      · rfl
    rw [absorb_unsigned_body (applyStep_shape h) hb]

theorem applyFrom_body {env : Env} {ps : List Profile} {s s' : Progress} {draw : Nat}
    (h : applyFrom env draw s ps = .ok s') : insertTokens env draw ps s.effective.body = .ok s'.effective.body := by
  induction ps generalizing s draw with
  | nil =>
    obtain rfl := Except.ok.inj h
    rfl
  | cons p ps ih =>
    obtain ⟨s₁, h₁, h⟩ := bind_eq_ok.1 h
    obtain ⟨out, hout, heff⟩ := applyNext_effective h₁
    rw [insertTokens, insertToken_applyStep hout, ok_bind, ← heff]
    exact ih h

/-- A step keeps the cookies of the names that its profile does not send. -/
theorem cookies_applyStep {env : Env} {draw : Nat} {r : SignableRequest} {p : Profile} {out : Applied}
    (h : applyStep env draw r p = .ok out) (hp : ¬p.SetsCookieHeader) {f : Text → Bool}
    (hf : ∀ c, f c = true → p.cookieKey ≠ some (cookieName c)) :
    (requestCookies (absorb r out).headers).filter f = (requestCookies r.headers).filter f := by
  rcases requestCookies_applyStep h with ⟨hkey, hsame⟩ | ⟨name, value, rfl, hcookies, hname⟩
  · rw [hsame]
    intro n hn
    rw [Bool.eq_false_iff]
    exact fun he => hp ⟨hkey, n, hn, he⟩
  · have hpair : f (cookiePair name value) = false := by
      rw [Bool.eq_false_iff]
      exact fun hc => hf _ hc (by rw [hname]; rfl)
    rw [hcookies, List.filter_append, List.filter_filter, List.filter_singleton, hpair, cond_false, List.append_nil]
    apply List.filter_congr
    intro c _
    cases hc : f c with
    | false => rfl
    | true =>
      have hne : cookieName c ≠ name := fun e => hf c hc (by rw [e]; rfl)
      simp [hne]

theorem applyFrom_cookies {env : Env} {ps : List Profile} {s s' : Progress} {draw : Nat}
    (h : applyFrom env draw s ps = .ok s') (hps : ∀ p ∈ ps, ¬p.SetsCookieHeader) {f : Text → Bool}
    (hf : ∀ c, f c = true → cookieName c ∉ ps.filterMap Profile.cookieKey) :
    (requestCookies s'.effective.headers).filter f = (requestCookies s.effective.headers).filter f := by
  induction ps generalizing s draw with
  | nil =>
    obtain rfl := Except.ok.inj h
    rfl
  | cons p ps ih =>
    obtain ⟨s₁, h₁, h⟩ := bind_eq_ok.1 h
    obtain ⟨out, hout, heff⟩ := applyNext_effective h₁
    have hhead : ∀ c, f c = true → p.cookieKey ≠ some (cookieName c) :=
      fun c hc he => hf c hc (List.mem_filterMap.2 ⟨p, List.mem_cons_self, he⟩)
    have htail : ∀ c, f c = true → cookieName c ∉ ps.filterMap Profile.cookieKey := by
      intro c hc hmem
      obtain ⟨q, hq, he⟩ := List.mem_filterMap.1 hmem
      exact hf c hc (List.mem_filterMap.2 ⟨q, List.mem_cons_of_mem p hq, he⟩)
    rw [ih h (fun q hq => hps q (List.mem_cons_of_mem p hq)) htail, heff,
      cookies_applyStep hout (hps p List.mem_cons_self) hhead]

/-- A cookie whose name no cookie API key of the set sends. -/
def otherCookie (auth : ResolvedAuth) (cookie : Text) : Bool :=
  ((flatten auth).filterMap Profile.cookieKey).all fun name => cookieName cookie ≠ name

/-- **A set of profiles signs what is sent.** With its result applied, the request holds every profile's credential,
signed over the request itself; the body has the `Wsse` tokens in turn; and the request's other cookies are kept in
their order, where no profile sets the whole `Cookie` header. -/
theorem auth_signs_what_is_sent (env : Env) (auth : ResolvedAuth) (o : Outgoing) (applied : Applied)
    (h : apply env auth o.signable = .ok applied) :
    (∀ p ∈ flatten auth, Carries env (o.sent applied) p) ∧
      insertTokens env 0 (flatten auth) o.body = .ok (o.sent applied).body ∧
      ((∀ p ∈ flatten auth, ¬p.SetsCookieHeader) →
        (requestCookies (o.sent applied).headers).filter (otherCookie auth) =
          (requestCookies o.headers).filter (otherCookie auth)) := by
  obtain ⟨-, -, h⟩ := bind_eq_ok.1 h
  obtain ⟨-, -, h⟩ := bind_eq_ok.1 h
  obtain ⟨s, hs, h⟩ := bind_eq_ok.1 h
  obtain rfl := Except.ok.inj h
  have ht : Tracks env o ([] ++ flatten auth) s := by
    refine Tracks.applyFrom ⟨?_, by simp⟩ hs
    rfl
  rw [List.nil_append] at ht
  rw [← ht.effective]
  refine ⟨fun p hp => (ht.carried p hp).2, applyFrom_body hs, fun hps => ?_⟩
  refine applyFrom_cookies hs hps fun c hc => ?_
  intro hmem
  have hne := List.all_eq_true.1 hc _ hmem
  simp at hne

/-- A clock, a nonce and the primitives' values for `sampleOutgoing`. -/
def sampleEnv : Env where
  date := "Thu, 01 Jan 1970 00:00:00 GMT".toList
  freshNonce := fun _ => "00112233445566778899aabbccddeeff".toList
  mac := fun _ _ _ => [167, 130, 224, 241, 239, 9, 85, 144, 53, 202, 84, 160, 228, 217, 75, 70, 27, 158, 117, 104, 58, 48,
    23, 151, 162, 174, 150, 230, 116, 97, 172, 40]
  sha256 := fun _ => [227, 176, 196, 66, 152, 252, 28, 20, 154, 251, 244, 200, 153, 111, 185, 36, 39, 174, 65, 228, 100,
    155, 147, 76, 164, 149, 153, 27, 120, 82, 184, 85]
  base64 := fun bytes => if bytes.head? = some 167 then "p4Lg8e8JVZA1ylSg5NlLRhuedWg6MBeXoq6W5nRhrCg=".toList
    else "47DEQpj8HBSa+/TImW+5JCeuQeRkm5NMpJWZG3hSuFU=".toList
  jwtSign := fun _ _ => .error (.invalid "invalid JWT key".toList)
  dpopJwt := fun _ _ _ _ _ _ => .error (.invalid "DPoP key".toList)
  insertSecurityToken := fun _ _ _ => .error (.invalid "SOAP envelope is not UTF-8".toList)
  debugText := fun s => '"' :: s ++ ['"']

def sampleOutgoing : Outgoing where
  method := "GET".toList
  target := ⟨"https".toList, "api.example.test".toList, 443, "api.example.test".toList, "/orders".toList, "page=1".toList⟩
  headers := [("Cookie".toList, "theme=dark; sid=old".toList)]
  body := []
  upper_method := by decide

def sampleAuth : ResolvedAuth :=
  .multi [.profile (.apiKey "key".toList "k1".toList .query),
    .multi [.none, .profile (.apiKey "sid".toList "new".toList .cookie)],
    .profile (.hmac ⟨.ferrumV2, "alice".toList, "s3cret".toList, .hmacSha256, .contentDigest, [], false⟩)]

def sampleApplied : Applied where
  setHeaders := [("Cookie".toList, "theme=dark; sid=new".toList),
    ("Authorization".toList, ("hmac username=\"alice\", algorithm=\"hmac-sha256\", " ++
      "nonce=\"00112233445566778899aabbccddeeff\", " ++
      "signature=\"p4Lg8e8JVZA1ylSg5NlLRhuedWg6MBeXoq6W5nRhrCg=\"").toList),
    ("Date".toList, "Thu, 01 Jan 1970 00:00:00 GMT".toList),
    ("Content-Digest".toList, "sha-256=:47DEQpj8HBSa+/TImW+5JCeuQeRkm5NMpJWZG3hSuFU=:".toList)]
  appendQuery := [("key".toList, "k1".toList)]

theorem auth_signs_what_is_sent_sample : apply sampleEnv sampleAuth sampleOutgoing.signable = .ok sampleApplied ∧
    (∀ p ∈ flatten sampleAuth, Carries sampleEnv (sampleOutgoing.sent sampleApplied) p) ∧
    (sampleOutgoing.sent sampleApplied).rawQuery = "page=1&key=k1".toList ∧
    (requestCookies (sampleOutgoing.sent sampleApplied).headers).filter (otherCookie sampleAuth) =
      ["theme=dark".toList] := by
  have h : apply sampleEnv sampleAuth sampleOutgoing.signable = .ok sampleApplied := by
    -- literals are read in pieces: reading one takes the kernel time that grows with the square of its length
    unfold sampleApplied
    rw [String.toList_append, String.toList_append]
    decide +kernel
  obtain ⟨hcarries, -, hcookies⟩ := auth_signs_what_is_sent sampleEnv sampleAuth sampleOutgoing sampleApplied h
  have hnone : ∀ p ∈ flatten sampleAuth, (∀ n ∈ p.headerNames, eqIgnoreCase n "cookie".toList = false) ∨
      p.cookieKey.isSome = true := by decide
  refine ⟨h, hcarries, by decide, (hcookies fun p hp hset => ?_).trans (by decide)⟩
  obtain ⟨hkey, n, hn, hcookie⟩ := hset
  rcases hnone p hp with hno | hsome
  · rw [hno n hn] at hcookie
    cases hcookie
  · rw [hkey] at hsome
    cases hsome

/-- A header API key named `Cookie` replaces the request's cookies, also those of names that no profile sends. -/
theorem header_key_drops_cookies : ∃ (env : Env) (auth : ResolvedAuth) (o : Outgoing) (applied : Applied),
    apply env auth o.signable = .ok applied ∧ "theme=dark".toList ∈ requestCookies o.headers ∧
      flatten auth = [.apiKey "Cookie".toList "sid=new".toList .header] ∧
      cookieName "theme=dark".toList ≠ cookieName "sid=new".toList ∧
      requestCookies (o.sent applied).headers = ["sid=new".toList] :=
  ⟨sampleEnv, .profile (.apiKey "Cookie".toList "sid=new".toList .header), sampleOutgoing,
    { setHeaders := [("Cookie".toList, "sid=new".toList)] }, by decide, by decide, rfl, by decide,
    by decide⟩

end Anvil.Auth
