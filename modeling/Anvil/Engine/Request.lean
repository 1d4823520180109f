import Anvil.Lib.Strings
import Anvil.Lib.Wire

/-!
# One send of a request (`anvil-engine/src/http_exec.rs`, `prepare.rs`, `redact.rs`)

What an attempt sends is made of the configured headers, of what the auth profiles give (`Applied`) and of the cookies
of the workspace's jar, in this order. Which header names and values are valid on the wire is a parameter (`Wire`).

* `carriesCredential`, `bodyCarriesSecret` : what must not follow a redirect to another origin;
* `Applied.headersOn`, `Applied.queryOn`, `Applied.bodyOn` : the loop's application of an auth result;
* `addJarCookies`, `cookieHeaderBudget` : the `Cookie` fields of the attempt;
* `mem_headersOn`, `mem_withCookies` : where a sent header comes from.
-/

namespace Anvil.Engine
open Anvil.Lib

abbrev Header := Text × Text

structure Target where
  scheme : Text
  host : Text
  port : Nat
  authority : Text
  path : Text
  query : Text
deriving DecidableEq

def Target.requestTarget (t : Target) : Text := if t.query.isEmpty then t.path else t.path ++ '?' :: t.query

def Target.url (t : Target) : Text := t.scheme ++ ("://".toList ++ (t.authority ++ t.requestTarget))

def Target.origin (t : Target) : Text × Text × Nat := (t.scheme, lower t.host, t.port)

def sameListener (a b : Target) : Bool := eqIgnoreCase a.host b.host && a.port = b.port

/-- A header of a name, in any case. -/
def isNamed (name : String) (h : Header) : Bool := eqIgnoreCase h.1 name.toList

/-! ## Credentials -/

def sensitiveHeaders : List String :=
  ["authorization", "proxy-authorization", "cookie", "set-cookie", "x-api-key", "api-key", "apikey", "x-auth-token",
    "x-access-token", "x-amz-security-token", "x-csrf-token", "dpop", "x-functions-key", "ocp-apim-subscription-key"]

def sensitiveNameParts : List String :=
  ["password", "passwd", "secret", "token", "apikey", "api_key", "api-key", "access_key", "private_key", "signature",
    "sig", "session", "credential", "auth"]

def isCredentialName (name : Text) (extra : List Text) : Bool :=
  let n := lower name
  sensitiveHeaders.any (fun s => n = s.toList) || extra.any (fun e => eqIgnoreCase e n) ||
    sensitiveNameParts.any (fun p => contains n p.toList) || "-key".toList.isSuffixOf n || "_key".toList.isSuffixOf n

def carriesCredential (h : Header) (marked extraNames secrets : List Text) : Bool :=
  isCredentialName h.1 extraNames || marked.any (fun m => eqIgnoreCase m h.1) ||
    secrets.any fun s => !s.isEmpty && (h.2 = s || (4 ≤ utf8Len s && contains h.2 s))

/-- `body_carries_secret`; a window of the body equal to the secret's bytes. -/
def bodyCarriesSecret (body : List UInt8) (secrets : List Text) : Bool :=
  (secrets.filter fun s => 4 ≤ utf8Len s).any fun s => encodeUtf8 s <:+: body

theorem carriesCredential_cookie {h : Header} (hc : isNamed "cookie" h = true) (marked names secrets : List Text) :
    carriesCredential h marked names secrets = true := by
  have hl : lower h.1 = "cookie".toList := eqIgnoreCase_iff.1 hc
  have hs : sensitiveHeaders.any (fun s => lower h.1 = s.toList) = true := by
    rw [hl]
    decide
  unfold carriesCredential isCredentialName
  simp only [hs, Bool.true_or]

/-! ## Auth -/

/-- `SignableRequest`: the request exactly as it will be written. -/
structure SignableRequest where
  method : Text
  scheme : Text
  authority : Text
  rawPath : Text
  rawQuery : Text
  headers : List Header
  body : List UInt8
deriving DecidableEq

/-- What applying auth to one send gives; the label, the redacted secrets and the facts are not sent. -/
structure Applied where
  setHeaders : List Header := []
  appendQuery : List (Text × Text) := []
  body : Option (List UInt8) := none
deriving DecidableEq

def requestAuthority (headers : List Header) (target : Target) : Text :=
  ((headers.find? (isNamed "host")).map Prod.snd).getD target.authority

def signableRequest (method : Text) (target : Target) (headers : List Header) (body : List UInt8) : SignableRequest where
  method := method
  scheme := target.scheme
  authority := requestAuthority headers target
  rawPath := target.path
  rawQuery := target.query
  headers := headers
  body := body

/-- A letter, a digit or one of `-._~`. -/
def isUnreserved (b : UInt8) : Bool :=
  (0x30 ≤ b && b ≤ 0x39) || (0x41 ≤ b && b ≤ 0x5A) || (0x61 ≤ b && b ≤ 0x7A) || b = 0x2D || b = 0x5F || b = 0x2E ||
    b = 0x7E

def upperHexDigit (n : Nat) : Char := if n < 10 then Char.ofNat (48 + n) else Char.ofNat (55 + n)

/-- `encode_query_component`: every byte but the unreserved ones as `%XX`. -/
def encodeQueryComponent (s : Text) : Text :=
  (encodeUtf8 s).flatMap fun b =>
    if isUnreserved b then [Char.ofNat b.toNat] else ['%', upperHexDigit (b.toNat / 16), upperHexDigit (b.toNat % 16)]

/-- `headers.retain(|(h, _)| !h.eq_ignore_ascii_case(&n)); headers.push((n, v))`. -/
def setHeader (headers : List Header) (h : Header) : List Header :=
  headers.filter (fun g => !eqIgnoreCase g.1 h.1) ++ [h]

def appendPair (query : Text) (kv : Text × Text) : Text :=
  let pair := encodeQueryComponent kv.1 ++ '=' :: encodeQueryComponent kv.2
  if query.isEmpty then pair else query ++ '&' :: pair

namespace Applied

def headersOn (a : Applied) (headers : List Header) : List Header := a.setHeaders.foldl setHeader headers

def queryOn (a : Applied) (query : Text) : Text := a.appendQuery.foldl appendPair query

def bodyOn (a : Applied) (body : List UInt8) : List UInt8 := a.body.getD body

end Applied

theorem mem_setHeader {headers : List Header} {g h : Header} (hg : g ∈ setHeader headers h) : g ∈ headers ∨ g = h := by
  rcases List.mem_append.1 hg with hg | hg
  · exact .inl (List.mem_of_mem_filter hg)
  · exact .inr (List.mem_singleton.1 hg)

/-- A header after auth was there before, or auth set it. -/
theorem mem_headersOn {a : Applied} {headers : List Header} {g : Header} (hg : g ∈ a.headersOn headers) :
    g ∈ headers ∨ g ∈ a.setHeaders := by
  obtain ⟨hs, q, b⟩ := a
  unfold Applied.headersOn at hg
  induction hs generalizing headers with
  | nil => exact .inl hg
  | cons h hs ih =>
    rcases ih hg with hg | hg
    · rcases mem_setHeader hg with hg | rfl
      · exact .inl hg
      · exact .inr List.mem_cons_self
    · exact .inr (List.mem_cons_of_mem _ hg)

/-! ## Validity on the wire -/

/-- The `http` crate's checks of a header, and the engine's of an explicit `Host`. -/
structure Wire where
  validName : Text → Bool
  validValue : Text → Bool
  hostProblem : Text → Bool

/-- `HeaderValue::from_str`, as it is documented: no control character but the tab. -/
def headerValueOk (v : Text) : Bool := v.all fun c => c = '\t' || (0x20 ≤ c.toNat && c.toNat ≠ 0x7F)

/-- `auth_header_problem(..).is_some()`. -/
def authHeaderProblem (w : Wire) (a : Applied) : Bool :=
  a.setHeaders.any fun h => !w.validName h.1 || !w.validValue h.2 || (isNamed "host" h && w.hostProblem h.2)

/-- `wire_headers(..).is_ok()`: every header is valid. -/
def wireHeadersOk (w : Wire) (headers : List Header) : Bool := headers.all fun h => w.validName h.1 && w.validValue h.2

/-! ## Cookies -/

def maxCookieHeaderBytes : Nat := 8192

/-- `cookie_name`. -/
def cookieName (pair : Text) : Text := trim (((splitOnce '=' pair).map Prod.fst).getD pair)

/-- The bytes a pair or a value takes after `bytes` of them. -/
def cookieSize (bytes : Nat) (value : Text) : Nat := utf8Len value + if bytes = 0 then 0 else 2

/-- The `retain` of `cookie_header_budget` on one header: the headers it kept, and the bytes of their `Cookie` values. -/
def budgetStep (s : List Header × Nat) (h : Header) : List Header × Nat :=
  if !isNamed "cookie" h then (s.1 ++ [h], s.2)
  else if maxCookieHeaderBytes < s.2 + cookieSize s.2 h.2 then s
  else (s.1 ++ [h], s.2 + cookieSize s.2 h.2)

def cookieHeaderBudget (headers : List Header) : List Header × Nat := headers.foldl budgetStep ([], 0)

/-- One stored pair, after those that were added. -/
def storedStep (w : Wire) (sent : List Text) (s : List Text × Nat) (pair : Text) : List Text × Nat :=
  if sent.contains (cookieName pair) then s
  else if !w.validValue pair then s
  else if maxCookieHeaderBytes < s.2 + cookieSize s.2 pair then s
  else (s.1 ++ [pair], s.2 + cookieSize s.2 pair)

/-- The pairs of a `Cookie` value that are not empty. -/
def cookiePairs (value : Text) : List Text := ((value.splitOn ';').map trim).filter fun p => !p.isEmpty

/-- Add to the first `Cookie` header, or as one. -/
def addCookies (added : Text) : List Header → List Header
  | [] => [("Cookie".toList, added)]
  | h :: hs =>
    if isNamed "cookie" h then
      (if (trim h.2).isEmpty then (h.1, added) else (h.1, h.2 ++ ("; ".toList ++ added))) :: hs
    else h :: addCookies added hs

/-- `add_jar_cookies`; `jar` is the jar's `Cookie` header for the target. -/
def addJarCookies (w : Wire) (jar : Option Text) (headers : List Header) : List Header :=
  let budget := cookieHeaderBudget headers
  match jar with
  | none => budget.1
  | some stored =>
    let sent := ((budget.1.filter (isNamed "cookie")).flatMap fun h => (h.2.splitOn ';').map cookieName).filter
      fun n => !n.isEmpty
    let added := ((cookiePairs stored).foldl (storedStep w sent) ([], budget.2)).1
    if added.isEmpty then budget.1 else addCookies ("; ".toList.intercalate added) budget.1

/-- The `Cookie` fields of an attempt, with the jar's cookies where the settings ask for these. -/
def withCookies (w : Wire) (cookies : Bool) (jar : Option Text) (headers : List Header) : List Header :=
  if cookies then addJarCookies w jar headers else (cookieHeaderBudget headers).1

/-- Both loops keep what they have and may append the element. -/
theorem budgetStep_fst (s : List Header × Nat) (h : Header) :
    (budgetStep s h).1 = s.1 ∨ (budgetStep s h).1 = s.1 ++ [h] := by
  unfold budgetStep
  split_ifs
  · exact .inr rfl
  · exact .inl rfl
  · exact .inr rfl

theorem storedStep_fst (w : Wire) (sent : List Text) (s : List Text × Nat) (pair : Text) :
    (storedStep w sent s pair).1 = s.1 ∨ (storedStep w sent s pair).1 = s.1 ++ [pair] := by
  unfold storedStep
  split_ifs
  · exact .inl rfl
  · exact .inl rfl
  · exact .inl rfl
  · exact .inr rfl

theorem foldl_sublist {α : Type} {step : List α × Nat → α → List α × Nat}
    (hstep : ∀ s a, (step s a).1 = s.1 ∨ (step s a).1 = s.1 ++ [a]) :
    ∀ (l : List α) (s : List α × Nat), ∃ l' : List α, l'.Sublist l ∧ (l.foldl step s).1 = s.1 ++ l'
  | [], s => ⟨[], List.nil_sublist _, (List.append_nil _).symm⟩
  | a :: l, s => by
    obtain ⟨l', hl, he⟩ := foldl_sublist hstep l (step s a)
    rw [List.foldl_cons, he]
    rcases hstep s a with ha | ha
    · exact ⟨l', hl.cons _, by rw [ha]⟩
    · exact ⟨a :: l', hl.cons_cons _, by rw [ha, List.append_assoc, List.singleton_append]⟩

theorem cookieHeaderBudget_sublist (headers : List Header) : (cookieHeaderBudget headers).1.Sublist headers := by
  obtain ⟨l, hl, he⟩ := foldl_sublist budgetStep_fst headers ([], 0)
  rw [cookieHeaderBudget, he, List.nil_append]
  exact hl

theorem mem_cookieHeaderBudget {headers : List Header} {h : Header} (hh : h ∈ (cookieHeaderBudget headers).1) :
    h ∈ headers :=
  (cookieHeaderBudget_sublist headers).subset hh

theorem mem_addCookies {added : Text} {headers : List Header} {h : Header} (hh : h ∈ addCookies added headers) :
    h ∈ headers ∨ isNamed "cookie" h = true := by
  induction headers with
  | nil =>
    obtain rfl := List.mem_singleton.1 hh
    have hname : eqIgnoreCase "Cookie".toList "cookie".toList = true := by decide
    exact .inr hname
  | cons g hs ih =>
    unfold addCookies at hh
    split_ifs at hh with hg he
    all_goals rcases List.mem_cons.1 hh with rfl | hh
    · exact .inr hg
    · exact .inl (List.mem_cons_of_mem _ hh)
    · exact .inr hg
    · exact .inl (List.mem_cons_of_mem _ hh)
    · exact .inl List.mem_cons_self
    · exact (ih hh).imp_left (List.mem_cons_of_mem _)

/-- Without a `Cookie` header, the added cookies are a header of their own. -/
theorem addCookies_of_none {added : Text} {headers : List Header} (hn : ∀ h ∈ headers, isNamed "cookie" h = false) :
    addCookies added headers = headers ++ [("Cookie".toList, added)] := by
  induction headers with
  | nil => rfl
  | cons g hs ih =>
    have hg : ¬isNamed "cookie" g = true := by simp [hn g List.mem_cons_self]
    rw [addCookies, if_neg hg, ih fun h hh => hn h (List.mem_cons_of_mem _ hh), List.cons_append]

theorem foldl_storedStep_sublist (w : Wire) (sent stored : List Text) (bytes : Nat) :
    (stored.foldl (storedStep w sent) ([], bytes)).1.Sublist stored := by
  obtain ⟨l, hl, he⟩ := foldl_sublist (storedStep_fst w sent) stored ([], bytes)
  rw [he, List.nil_append]
  exact hl

/-- A header after the cookies was there before, or is a `Cookie` header. -/
theorem mem_withCookies {w : Wire} {cookies : Bool} {jar : Option Text} {headers : List Header} {h : Header}
    (hh : h ∈ withCookies w cookies jar headers) : h ∈ headers ∨ isNamed "cookie" h = true := by
  unfold withCookies addJarCookies at hh
  simp only at hh
  split at hh
  · split at hh
    · exact .inl (mem_cookieHeaderBudget hh)
    · split at hh
      · exact .inl (mem_cookieHeaderBudget hh)
      · exact (mem_addCookies hh).imp_left mem_cookieHeaderBudget
  · exact .inl (mem_cookieHeaderBudget hh)

/-- Without a `Cookie` header of its own, what a request sends as one holds pairs of the jar only. -/
theorem mem_withCookies_of_none {w : Wire} {cookies : Bool} {jar : Option Text} {headers : List Header}
    (hn : ∀ h ∈ headers, isNamed "cookie" h = false) {h : Header} (hh : h ∈ withCookies w cookies jar headers) :
    h ∈ headers ∨ ∃ (stored : Text) (pairs : List Text), jar = some stored ∧ pairs.Sublist (cookiePairs stored) ∧
      h = ("Cookie".toList, "; ".toList.intercalate pairs) := by
  have hnb : ∀ g ∈ (cookieHeaderBudget headers).1, isNamed "cookie" g = false :=
    fun g hg => hn g (mem_cookieHeaderBudget hg)
  unfold withCookies addJarCookies at hh
  simp only at hh
  split at hh
  · split at hh
    · exact .inl (mem_cookieHeaderBudget hh)
    · next stored =>
      split at hh
      · exact .inl (mem_cookieHeaderBudget hh)
      · rw [addCookies_of_none hnb] at hh
        rcases List.mem_append.1 hh with hh | hh
        · exact .inl (mem_cookieHeaderBudget hh)
        · exact .inr ⟨stored, _, rfl, foldl_storedStep_sublist w _ _ _, List.mem_singleton.1 hh⟩
  · exact .inl (mem_cookieHeaderBudget hh)

end Anvil.Engine
