import Anvil.Auth.Multi

/-!
# Headers, cookies and query of a request under an auth result

How `setHeader`, `appendPair` and `withCookie` change the parts of a request that a server reads.

* `Sole headers name value` : one header of the name, in any case, with the value;
* `absorb_signable` : a step's result is absorbed as the loop of `execute_viewing` applies it;
* `addStep_headersOn` and the lemmas beside it : applying two results in turn is applying their sum;
* `requestCookies_withCookie` : the cookies after a cookie API key.
-/

namespace Anvil.Auth
open Anvil.Lib Anvil.Engine

/-! ## Headers -/

/-- Exactly one header has the name, in any case, and it carries the value. -/
def Sole (headers : List Header) (name value : Text) : Prop :=
  headers.filter (fun g => eqIgnoreCase g.1 name) = [(name, value)]

theorem filter_setHeader_of_not {f : Header → Bool} {headers : List Header} {h : Header} (hh : f h = false)
    (hf : ∀ g : Header, eqIgnoreCase g.1 h.1 = true → f g = false) :
    (setHeader headers h).filter f = headers.filter f := by
  unfold setHeader
  rw [List.filter_append, List.filter_filter, List.filter_singleton, hh, cond_false, List.append_nil]
  apply List.filter_congr
  intro g _
  cases hg : eqIgnoreCase g.1 h.1 with
  | false => simp
  | true => simp [hf g hg]

theorem eqIgnoreCase_congr {a b : Text} (h : eqIgnoreCase a b = true) (c : Text) :
    eqIgnoreCase a c = eqIgnoreCase b c := by
  unfold eqIgnoreCase
  rw [eqIgnoreCase_iff.1 h]

/-- Headers of another name stay. -/
theorem filter_setHeader_other {headers : List Header} {h : Header} {name : Text}
    (hn : eqIgnoreCase h.1 name = false) :
    (setHeader headers h).filter (fun g => eqIgnoreCase g.1 name) = headers.filter fun g => eqIgnoreCase g.1 name :=
  filter_setHeader_of_not hn fun _ hg => (eqIgnoreCase_congr hg name).trans hn

theorem sole_setHeader (headers : List Header) (h : Header) : Sole (setHeader headers h) h.1 h.2 := by
  unfold Sole setHeader
  rw [List.filter_append, List.filter_filter, List.filter_singleton, eqIgnoreCase_self, cond_true]
  simp

theorem Sole.setHeader_other {headers : List Header} {h : Header} {name value : Text} (hs : Sole headers name value)
    (hn : eqIgnoreCase h.1 name = false) : Sole (setHeader headers h) name value :=
  (filter_setHeader_other hn).trans hs

theorem filter_headersOn_of_not {f : Header → Bool} {out : Applied}
    (hf : ∀ h ∈ out.setHeaders, ∀ g : Header, eqIgnoreCase g.1 h.1 = true → f g = false) (headers : List Header) :
    (out.headersOn headers).filter f = headers.filter f := by
  obtain ⟨hs, q, b⟩ := out
  unfold Applied.headersOn
  induction hs generalizing headers with
  | nil => rfl
  | cons h hs ih =>
    rw [List.foldl_cons, ih (setHeader headers h) fun h' hh' => hf h' (List.mem_cons_of_mem h hh')]
    have hh := hf h List.mem_cons_self
    exact filter_setHeader_of_not (hh h (eqIgnoreCase_self _)) hh

theorem isNamed_filter_other {name : String} {headers : List Header} {h : Header} (hn : isNamed name h = false) :
    (setHeader headers h).filter (isNamed name) = headers.filter (isNamed name) :=
  filter_setHeader_other hn

theorem isNamed_filter_same {name : String} {headers : List Header} {h : Header} (hn : isNamed name h = true) :
    (setHeader headers h).filter (isNamed name) = [h] := by
  have hcongr : (fun g : Header => eqIgnoreCase g.1 h.1) = isNamed name := by
    funext g
    rw [isNamed, eqIgnoreCase_comm g.1, eqIgnoreCase_comm g.1, eqIgnoreCase_congr hn]
  have hs := sole_setHeader headers h
  rw [Sole, hcongr] at hs
  exact hs

/-- Headers that the result does not name stay. -/
theorem filter_headersOn_other {out : Applied} {name : Text}
    (hn : ∀ h ∈ out.setHeaders, eqIgnoreCase h.1 name = false) (headers : List Header) :
    (out.headersOn headers).filter (fun g => eqIgnoreCase g.1 name) = headers.filter fun g => eqIgnoreCase g.1 name :=
  filter_headersOn_of_not (fun h hh _ hg => (eqIgnoreCase_congr hg name).trans (hn h hh)) headers

theorem Sole.headersOn_other {headers : List Header} {out : Applied} {name value : Text}
    (hs : Sole headers name value) (hn : ∀ h ∈ out.setHeaders, eqIgnoreCase h.1 name = false) :
    Sole (out.headersOn headers) name value :=
  (filter_headersOn_other hn headers).trans hs

/-- What is left without a name depends on what was there without it. -/
theorem filter_foldl_setHeader_congr {name : Text} (l : List Header) {a b : List Header}
    (hab : a.filter (fun g => !eqIgnoreCase g.1 name) = b.filter fun g => !eqIgnoreCase g.1 name) :
    (l.foldl setHeader a).filter (fun g => !eqIgnoreCase g.1 name) =
      (l.foldl setHeader b).filter fun g => !eqIgnoreCase g.1 name := by
  induction l generalizing a b with
  | nil => exact hab
  | cons h l ih =>
    apply ih
    unfold setHeader
    rw [List.filter_append, List.filter_append, List.filter_comm, hab, List.filter_comm]

theorem filter_foldl_setHeader (name : Text) (l headers : List Header) :
    ((l.filter fun g => !eqIgnoreCase g.1 name).foldl setHeader headers).filter (fun g => !eqIgnoreCase g.1 name) =
      (l.foldl setHeader headers).filter fun g => !eqIgnoreCase g.1 name := by
  induction l generalizing headers with
  | nil => rfl
  | cons h l ih =>
    cases hh : eqIgnoreCase h.1 name with
    | false => simp only [List.foldl_cons, List.filter_cons, hh, Bool.not_false, if_true, ih]
    | true =>
      simp only [List.foldl_cons, List.filter_cons, hh, Bool.not_true, Bool.false_eq_true, if_false]
      rw [ih]
      apply filter_foldl_setHeader_congr
      refine (filter_setHeader_of_not (by simp [hh]) fun g hg => ?_).symm
      simp [(eqIgnoreCase_congr hg name).trans hh]

/-- A header that replaces one set before replaces it in the request too. -/
theorem foldl_setHeader_setHeader (l headers : List Header) (h : Header) :
    (setHeader l h).foldl setHeader headers = setHeader (l.foldl setHeader headers) h := by
  have hset : ∀ hs, setHeader hs h = hs.filter (fun g => !eqIgnoreCase g.1 h.1) ++ [h] := fun _ => rfl
  rw [hset l, List.foldl_append, List.foldl_cons, List.foldl_nil, hset, hset, filter_foldl_setHeader]

theorem foldl_setHeader_foldl (l l' headers : List Header) :
    (l'.foldl setHeader l).foldl setHeader headers = l'.foldl setHeader (l.foldl setHeader headers) := by
  induction l' generalizing l with
  | nil => rfl
  | cons h l' ih => rw [List.foldl_cons, List.foldl_cons, ih, foldl_setHeader_setHeader]

/-! ## Two results in turn -/

theorem addStep_headersOn (a out : Applied) (headers : List Header) :
    (addStep a out).headersOn headers = out.headersOn (a.headersOn headers) :=
  foldl_setHeader_foldl _ _ _

theorem addStep_queryOn (a out : Applied) (query : Text) : (addStep a out).queryOn query = out.queryOn (a.queryOn query) :=
  List.foldl_append

theorem addStep_bodyOn (a out : Applied) (body : List UInt8) : (addStep a out).bodyOn body = out.bodyOn (a.bodyOn body) := by
  unfold addStep Applied.bodyOn
  cases out.body with
  | none => rfl
  | some b => rfl

/-! ## Absorbing a step -/

/-- The `Host` header that is sent is the last one set. -/
theorem requestAuthority_setHeader (headers : List Header) (h : Header) (t : Target) :
    requestAuthority (setHeader headers h) t = if isNamed "host" h then h.2 else requestAuthority headers t := by
  unfold requestAuthority
  rw [← List.head?_filter, ← List.head?_filter]
  cases hh : isNamed "host" h with
  | false => rw [isNamed_filter_other hh, if_neg (by simp)]
  | true => rw [isNamed_filter_same hh, if_pos rfl, List.head?_cons, Option.map_some, Option.getD_some]

theorem foldl_absorbHeader (m : Text) (t : Target) (body : List UInt8) (hs headers : List Header) :
    hs.foldl absorbHeader (signableRequest m t headers body) = signableRequest m t (hs.foldl setHeader headers) body := by
  induction hs generalizing headers with
  | nil => rfl
  | cons h hs ih =>
    rw [List.foldl_cons, List.foldl_cons, ← ih]
    congr 1
    unfold absorbHeader signableRequest
    rw [requestAuthority_setHeader]

theorem absorb_signable (m : Text) (t : Target) (headers : List Header) (body : List UInt8) (out : Applied) :
    absorb (signableRequest m t headers body) out =
      signableRequest m { t with query := out.queryOn t.query } (out.headersOn headers) (out.bodyOn body) := by
  unfold absorb
  rw [foldl_absorbHeader]
  rfl

/-! ## Cookies -/

/-- A cookie as a `Cookie` header is read: trimmed, not empty, without a separator. -/
structure GoodCookie (p : Text) : Prop where
  whole : ';' ∉ p
  trimmed : trim p = p
  nonempty : p ≠ []

theorem GoodCookie.of_mem_cookiePairs {value p : Text} (hp : p ∈ cookiePairs value) : GoodCookie p := by
  obtain ⟨hp, hne⟩ := List.mem_filter.1 hp
  obtain ⟨q, hq, rfl⟩ := List.mem_map.1 hp
  exact ⟨fun hc => not_mem_of_mem_splitOn hq (mem_of_mem_trim hc), trim_trim q, by simpa using hne⟩

theorem GoodCookie.of_mem_requestCookies {headers : List Header} {p : Text} (hp : p ∈ requestCookies headers) :
    GoodCookie p := by
  obtain ⟨h, -, hp⟩ := List.mem_flatMap.1 hp
  exact .of_mem_cookiePairs hp

theorem cookiePairs_cons {p : Text} (hp : GoodCookie p) (rest : Text) :
    cookiePairs (p ++ ';' :: rest) = p :: cookiePairs rest := by
  unfold cookiePairs
  rw [List.splitOn_append_cons_self_of_not_mem hp.whole, List.map_cons, hp.trimmed, List.filter_cons_of_pos]
  simpa using hp.nonempty

theorem cookiePairs_single {p : Text} (hp : GoodCookie p) : cookiePairs p = [p] := by
  unfold cookiePairs
  rw [List.splitOn_eq_singleton hp.whole, List.map_cons, List.map_nil, hp.trimmed, List.filter_cons_of_pos]
  · rfl
  · simpa using hp.nonempty

theorem cookiePairs_space (rest : Text) : cookiePairs (' ' :: rest) = cookiePairs rest := by
  obtain ⟨q, qs, hq⟩ := List.exists_cons_of_ne_nil (List.splitOn_ne_nil ';' rest)
  unfold cookiePairs
  rw [List.splitOn_cons_eq_if_modifyHead, if_neg (by decide), hq, List.modifyHead_cons, List.map_cons, List.map_cons,
    trim_space]

theorem cookiePairs_intercalate {ps : List Text} (hps : ∀ p ∈ ps, GoodCookie p) :
    cookiePairs ("; ".toList.intercalate ps) = ps := by
  induction ps with
  | nil => rfl
  | cons p ps ih =>
    have hp := hps p List.mem_cons_self
    cases ps with
    | nil => rw [List.intercalate_singleton, cookiePairs_single hp]
    | cons q qs =>
      have ih := ih fun r hr => hps r (List.mem_cons_of_mem p hr)
      have hsep : "; ".toList ++ "; ".toList.intercalate (q :: qs) =
          ';' :: ' ' :: "; ".toList.intercalate (q :: qs) := rfl
      rw [List.intercalate_cons_cons, List.append_assoc, hsep, cookiePairs_cons hp, cookiePairs_space, ih]

/-- Without a `Cookie` header among those set, the cookies stay. -/
theorem requestCookies_headersOn_other {out : Applied} (hn : ∀ h ∈ out.setHeaders, isNamed "cookie" h = false)
    (headers : List Header) : requestCookies (out.headersOn headers) = requestCookies headers := by
  unfold requestCookies
  rw [show isNamed "cookie" = fun g : Header => eqIgnoreCase g.1 "cookie".toList from rfl, filter_headersOn_other hn]

theorem requestCookies_setCookie (headers : List Header) {ps : List Text} (hps : ∀ p ∈ ps, GoodCookie p) :
    requestCookies (setHeader headers ("Cookie".toList, "; ".toList.intercalate ps)) = ps := by
  have hname : isNamed "cookie" ("Cookie".toList, "; ".toList.intercalate ps) = true :=
    show eqIgnoreCase "Cookie".toList "cookie".toList = true by decide
  unfold requestCookies
  rw [isNamed_filter_same hname, List.flatMap_singleton, cookiePairs_intercalate hps]

/-! ## Characters of a cookie -/

/-- Bytes that are all ASCII are those of ASCII characters. -/
theorem ascii_of_all {p : UInt8 → Bool} (hp : ∀ b, p b = true → b.toNat < 128) {t : Text}
    (h : (encodeUtf8 t).all p = true) {c : Char} (hc : c ∈ t) :
    (UInt8.ofNat c.toNat).toNat = c.toNat ∧ p (UInt8.ofNat c.toNat) = true := by
  have hall : ∀ b ∈ String.utf8EncodeChar c, p b = true :=
    fun b hb => List.all_eq_true.1 h b (List.mem_flatMap.2 ⟨c, hc, hb⟩)
  have hbig : ∀ n, 128 ≤ n → n < 256 → ¬(UInt8.ofNat n).toNat < 128 := by
    intro n hn hn'
    rw [UInt8.toNat_ofNat_of_lt' hn']
    omega
  -- a longer character starts with a byte from 0xC0 on
  unfold String.utf8EncodeChar at hall
  dsimp only at hall
  split_ifs at hall with h1 h2 h3
  · exact ⟨UInt8.toNat_ofNat_of_lt' (Nat.lt_of_le_of_lt h1 (by decide)), hall _ List.mem_cons_self⟩
  · exact absurd (hp _ (hall _ List.mem_cons_self)) (hbig _ (by omega) (by omega))
  · exact absurd (hp _ (hall _ List.mem_cons_self)) (hbig _ (by omega) (by omega))
  · exact absurd (hp _ (hall _ List.mem_cons_self)) (hbig _ (by omega) (by omega))

theorem isTokenChar_plain {b : UInt8} (hb : isTokenChar b = true) :
    0x21 ≤ b.toNat ∧ b.toNat < 0x7F ∧ b ≠ 0x3B ∧ b ≠ 0x3D := by
  have hall : ∀ n : Fin 256, isTokenChar (UInt8.ofFin n) = true →
      0x21 ≤ n.val ∧ n.val < 0x7F ∧ UInt8.ofFin n ≠ 0x3B ∧ UInt8.ofFin n ≠ 0x3D := by decide +kernel
  exact hall b.toFin hb

theorem isCookieOctet_plain {b : UInt8} (hb : isCookieOctet b = true) :
    0x21 ≤ b.toNat ∧ b.toNat < 0x7F ∧ b ≠ 0x3B := by
  have hall : ∀ n : Fin 256, isCookieOctet (UInt8.ofFin n) = true →
      0x21 ≤ n.val ∧ n.val < 0x7F ∧ UInt8.ofFin n ≠ 0x3B := by decide +kernel
  exact hall b.toFin hb

/-- The characters that a cookie of an API key is made of. -/
def PlainChar (c : Char) : Prop := isWhitespace c = false ∧ c ≠ ';'

theorem tokenChars {name : Text} (h : (encodeUtf8 name).all isTokenChar = true) {c : Char} (hc : c ∈ name) :
    PlainChar c ∧ c ≠ '=' := by
  obtain ⟨hbyte, hb⟩ := ascii_of_all (fun b hb => by have := isTokenChar_plain hb; omega) h hc
  obtain ⟨hlo, hhi, hsemi, heq⟩ := isTokenChar_plain hb
  rw [hbyte] at hlo hhi
  exact ⟨⟨isWhitespace_eq_false hlo hhi, fun e => hsemi (by rw [e]; rfl)⟩, fun e => heq (by rw [e]; rfl)⟩

theorem cookieOctets {value : Text} (h : (encodeUtf8 value).all isCookieOctet = true) {c : Char} (hc : c ∈ value) :
    PlainChar c := by
  obtain ⟨hbyte, hb⟩ := ascii_of_all (fun b hb => by have := isCookieOctet_plain hb; omega) h hc
  obtain ⟨hlo, hhi, hsemi⟩ := isCookieOctet_plain hb
  rw [hbyte] at hlo hhi
  exact ⟨isWhitespace_eq_false hlo hhi, fun e => hsemi (by rw [e]; rfl)⟩

theorem mem_unquote {value : Text} {c : Char} (hc : c ∈ value) : c ∈ unquote value ∨ c = '"' := by
  unfold unquote
  split_ifs with hq
  · obtain ⟨hhead, hlast⟩ := hq
    cases value with
    | nil => simp at hhead
    | cons d t =>
      rcases List.mem_cons.1 hc with rfl | hc
      · exact .inr (by simpa using hhead)
      · have ht : t ≠ [] := List.ne_nil_of_mem hc
        rw [List.tail_cons, List.getLast?_eq_some_getLast ht, Option.some.injEq] at hlast
        rw [← List.dropLast_append_getLast ht, List.mem_append, List.mem_singleton, hlast] at hc
        exact hc
  · exact .inl hc

theorem cookieName_cookiePair {name value : Text} (h : (encodeUtf8 name).all isTokenChar = true) :
    cookieName (cookiePair name value) = name := by
  have hsplit : ∀ n : Text, '=' ∉ n → splitOnce '=' (n ++ '=' :: value) = some (n, value) := by
    intro n hn
    induction n with
    | nil => rfl
    | cons c n ih =>
      rw [List.mem_cons, not_or] at hn
      rw [List.cons_append, splitOnce, if_neg (Ne.symm hn.1), ih hn.2]
      rfl
  unfold cookieName cookiePair
  rw [hsplit name fun hc => (tokenChars h hc).2 rfl]
  exact trim_eq_self fun c hc => (tokenChars h hc).1.1

theorem goodCookie_cookiePair {name value : Text} (hn : (encodeUtf8 name).all isTokenChar = true)
    (hv : (encodeUtf8 (unquote value)).all isCookieOctet = true) : GoodCookie (cookiePair name value) := by
  have hplain : ∀ c ∈ cookiePair name value, PlainChar c := by
    intro c hc
    rcases List.mem_append.1 hc with hc | hc
    · exact (tokenChars hn hc).1
    · rcases List.mem_cons.1 hc with rfl | hc
      · exact ⟨by decide, by decide⟩
      · rcases mem_unquote hc with hc | rfl
        · exact cookieOctets hv hc
        · exact ⟨by decide, by decide⟩
  refine ⟨fun hc => (hplain _ hc).2 rfl, trim_eq_self fun c hc => (hplain c hc).1, ?_⟩
  unfold cookiePair
  simp

/-- **The cookies after a cookie API key**: those of other names in their order, then its own. -/
theorem requestCookies_withCookie {env : Env} {req : SignableRequest} {name value cookies : Text}
    (h : withCookie env req name value = .ok cookies) :
    requestCookies (setHeader req.headers ("Cookie".toList, cookies)) =
        (requestCookies req.headers).filter (fun p => cookieName p ≠ name) ++ [cookiePair name value] ∧
      cookieName (cookiePair name value) = name := by
  unfold withCookie at h
  simp only [bind_eq_ok, refuseIf_ok, not_not] at h
  obtain ⟨-, hn, -, hv, h⟩ := h
  obtain rfl := Except.ok.inj h
  refine ⟨requestCookies_setCookie _ fun p hp => ?_, cookieName_cookiePair hn⟩
  rcases List.mem_append.1 hp with hp | hp
  · exact .of_mem_requestCookies (List.mem_of_mem_filter hp)
  · rw [List.mem_singleton.1 hp]
    exact goodCookie_cookiePair hn hv

/-! ## Query -/

/-- The parts of a query between its `&`s; none where there is no query. -/
def queryPairs (query : Text) : List Text := if query.isEmpty then [] else query.splitOn '&'

def queryPair (kv : Text × Text) : Text := encodeQueryComponent kv.1 ++ '=' :: encodeQueryComponent kv.2

theorem amp_not_mem_encode (s : Text) : '&' ∉ encodeQueryComponent s := by
  have hbyte : ∀ n : Fin 256, '&' ∉ (if isUnreserved (UInt8.ofFin n) then [Char.ofNat (UInt8.ofFin n).toNat]
      else ['%', upperHexDigit ((UInt8.ofFin n).toNat / 16), upperHexDigit ((UInt8.ofFin n).toNat % 16)]) := by
    decide +kernel
  intro hc
  obtain ⟨b, -, hb⟩ := List.mem_flatMap.1 hc
  exact hbyte b.toFin hb

theorem queryPairs_appendPair (query : Text) (kv : Text × Text) :
    queryPairs (appendPair query kv) = queryPairs query ++ [queryPair kv] := by
  have hamp : '&' ∉ queryPair kv := by
    unfold queryPair
    simp [amp_not_mem_encode]
  have hne : (queryPair kv).isEmpty = false := by simp [queryPair]
  have happend : appendPair query kv = if query.isEmpty then queryPair kv else query ++ '&' :: queryPair kv := rfl
  rw [happend]
  unfold queryPairs
  cases hq : query.isEmpty with
  | true => simp [hne, List.splitOn_eq_singleton hamp]
  | false => simp [List.splitOn_append_cons_self, List.splitOn_eq_singleton hamp]

theorem queryPairs_queryOn (out : Applied) (query : Text) :
    queryPairs (out.queryOn query) = queryPairs query ++ out.appendQuery.map queryPair := by
  obtain ⟨hs, q, b⟩ := out
  unfold Applied.queryOn
  induction q generalizing query with
  | nil => simp
  | cons kv q ih => rw [List.foldl_cons, ih, queryPairs_appendPair, List.append_assoc, List.map_cons, List.singleton_append]

end Anvil.Auth
