import Anvil.Engine.Request
import Anvil.Lib.Braces
import Anvil.Lib.Net
import Anvil.Lib.Run

/-!
# The parts of a request line (`anvil-engine/src/prepare.rs`)

The method, the target and an explicit `Host` value, as the engine accepts them. `url::Url::parse` is a parameter
(`UrlParser`); variables are resolved before, and what `parse_target` infers is returned with the target.

* `prepareMethod` : the method token;
* `encodeTargetPart`, `parseTarget`, `withParams` : the authority, the path and the query of a target;
* `hostProblem` : why an explicit `Host` value is refused;
* `OneLine` : none of them holds a line break.
-/

namespace Anvil.Engine
open Anvil.Lib

inductive PrepareKind
  | invalidUrl
  | unsupportedScheme
  | invalidHeader
deriving DecidableEq

/-- A `TransportFailure` of the prepare phase. -/
structure PrepareFailure where
  kind : PrepareKind
  message : Text
  field : Text
deriving DecidableEq

/-! ## The method -/

def isMethodChar (c : Char) : Bool := c.isAlpha || c = '-' || c = '_'

/-- The method of a request, from its resolved text. -/
def prepareMethod (resolved : Text) : Except PrepareFailure Text := do
  let method := upper resolved
  refuseIf (method.isEmpty ∨ ¬method.all isMethodChar)
    ⟨.invalidHeader, "'".toList ++ method ++ "' is not a valid HTTP method token".toList, "method".toList⟩
  pure method

/-! ## The target -/

/-- `%XX`. -/
def percentByte (n : Nat) : Text := ['%', upperHexDigit (n / 16), upperHexDigit (n % 16)]

def encodeTargetPart (s : Text) : Text :=
  s.flatMap fun c =>
    if c ∈ " \"<>\\^\x60\x7b|\x7d".toList then percentByte c.toNat
    else if c.toNat < 0x20 ∨ c.toNat = 0x7F then percentByte c.toNat
    else if 0x80 ≤ c.toNat then (String.utf8EncodeChar c).flatMap fun b => percentByte b.toNat
    else [c]

/-- What is read of a `url::Url`: the text of its host, and the port where it is not the default of its scheme. -/
structure ParsedUrl where
  host : Option Text
  port : Option Nat

/-- `url::Url::parse`, with the text of its error. -/
abbrev UrlParser := Text → Except Text ParsedUrl

def parseScheme (scheme : Text) : Text :=
  if scheme ∈ ["ws".toList, "grpc".toList, "tcp".toList, "udp".toList] then "http".toList
  else if scheme ∈ ["wss".toList, "grpcs".toList, "tls".toList, "dtls".toList] then "https".toList
  else scheme

def defaultPort (scheme : Text) : Option Nat :=
  if scheme ∈ ["http".toList, "ws".toList, "grpc".toList] then some 80
  else if scheme ∈ ["https".toList, "wss".toList, "grpcs".toList] then some 443
  else none

/-- The port that was written: for a scheme without a default one, a port that the parse scheme dropped as its own is read
again under the other scheme. -/
def explicitPort (url : UrlParser) (scheme authority : Text) (u : ParsedUrl) : Option Nat :=
  match u.port with
  | some p => some p
  | none =>
    if (defaultPort scheme).isNone then
      let alt := if parseScheme scheme = "https".toList then "http".toList else "https".toList
      (url (alt ++ "://".toList ++ authority ++ "/".toList)).toOption.bind ParsedUrl.port
    else none

def authorityOf (scheme host : Text) (port : Nat) : Text :=
  let host := if ':' ∈ host then '[' :: host ++ "]".toList else host
  if some port = defaultPort scheme then host else host ++ ':' :: Nat.toDigits 10 port

def badUrl (message : Text) : PrepareFailure := ⟨.invalidUrl, message, "url".toList⟩

/-- The authority part of the text, its host and its port. -/
def parseAuthority (url : UrlParser) (scheme authority : Text) : Except PrepareFailure (Text × Nat) := do
  refuseIf (authority.isEmpty) (badUrl "the URL has no host".toList)
  refuseIf ('@' ∈ authority) (badUrl
    ("credentials embedded in the URL are not sent; " ++
      "use an auth profile (Basic) so they are stored and redacted as secrets").toList)
  let u ← (url (parseScheme scheme ++ "://".toList ++ authority ++ "/".toList)).mapError fun e =>
    badUrl ("invalid host or port in '".toList ++ authority ++ "': ".toList ++ e)
  let host ← u.host.elim (.error (badUrl "the URL has no host".toList)) .ok
  let port ← ((explicitPort url scheme authority u).or (defaultPort scheme)).elim
    (.error (badUrl (scheme ++ ":// URLs need an explicit port".toList))) .ok
  pure (host, port)

/-- The path and the query after the authority, as they are sent. -/
def parseTail (tail : Text) : Text × Text :=
  let tail := tail.takeWhile (· ≠ '#')
  let parts := (splitOnce '?' tail).getD (tail, [])
  (if parts.1.isEmpty then "/".toList else encodeTargetPart parts.1, encodeTargetPart parts.2)

def isAuthorityChar (c : Char) : Bool := c ≠ '/' && c ≠ '?' && c ≠ '#'

/-- `parse_target`; the schemes that are allowed are `first` and `more`. The second result is what it infers. -/
def parseTarget (url : UrlParser) (raw first : Text) (more : List Text) : Except PrepareFailure (Target × List Text) := do
  let raw := trim raw
  refuseIf (raw.isEmpty) (badUrl "the URL is empty".toList)
  let inferred := if contains raw "://".toList then [] else ["no scheme given; using ".toList ++ first ++ "://".toList]
  let withScheme := if contains raw "://".toList then raw else first ++ "://".toList ++ raw
  let parts ← (findSplit "://".toList withScheme).elim (.error (badUrl "the URL has no scheme".toList)) .ok
  let scheme := lower parts.1
  refuseIf (scheme ∉ first :: more) ⟨.unsupportedScheme, "scheme '".toList ++ scheme ++
    "' is not supported for this protocol (expected ".toList ++ " or ".toList.intercalate (first :: more) ++ ")".toList,
    "url".toList⟩
  let hp ← parseAuthority url scheme (parts.2.takeWhile isAuthorityChar)
  let pq := parseTail (parts.2.dropWhile isAuthorityChar)
  pure (⟨scheme, hp.1, hp.2, authorityOf scheme hp.1 hp.2, pq.1, pq.2⟩, inferred)

/-- A target's query after the enabled parameters of the request. -/
def withParams (query : Text) (params : List (Text × Text)) : Text :=
  let joined := ['&'].intercalate (params.map fun kv => encodeQueryComponent kv.1 ++ '=' :: encodeQueryComponent kv.2)
  if params.isEmpty then query else if query.isEmpty then joined else query ++ '&' :: joined

/-! ## An explicit Host -/

/-- `is_reg_name`; a character beyond ASCII fails as its bytes do. -/
def isRegName : Text → Bool
  | [] => true
  | '%' :: x :: y :: t => isAsciiHexdigit x && isAsciiHexdigit y && isRegName t
  | c :: t => (c.isAlphanum || "-._~!$&'()*+,;=".toList.contains c) && isRegName t

/-- The host and the port of a value, where each is to be checked. -/
def hostAndPort (v : Text) : Except Text (Option Text × Option Text) :=
  match v with
  | '[' :: rest =>
    match splitOnce ']' rest with
    | none => .error "the IPv6 address has no closing ']'".toList
    | some (literal, rest) =>
      if !isIpv6Addr literal then .error "the address in brackets is not an IPv6 address".toList
      else match rest with
        | [] => .ok (none, none)
        | ':' :: port => .ok (none, some port)
        | _ => .error "only a port may follow the IPv6 address".toList
  | v =>
    if 1 < v.count ':' then
      .error (if isIpv6Addr v then "an IPv6 address must be in brackets ([...])".toList
        else "it has more than one ':' (a single ':' separates the host from the port)".toList)
    else match splitOnce ':' v with
      | some (host, port) => .ok (some host, some port)
      | none => .ok (some v, none)

def hostSigns : List (Char × String) := [('@', "userinfo"), ('/', "a path"), ('?', "a query"), ('#', "a fragment")]

/-- `host_problem`. -/
def hostProblem (v : Text) : Option Text :=
  if v.isEmpty then some "it is empty".toList
  else if v.any isWhitespace then some "it contains whitespace".toList
  else match hostSigns.find? fun s => v.contains s.1 with
    | some s => some ("it contains ".toList ++ s.2.toList ++ " ('".toList ++ s.1 :: "')".toList)
    | none =>
      match hostAndPort v with
      | .error why => some why
      | .ok (host, port) =>
        if host = some [] then some "it has no host".toList
        else if host.any fun h => !isRegName h then some "the host is not a host name or an IPv4 address".toList
        else if port.any fun p => !p.all Char.isDigit || !(digitsOf p).any (· < 65536) then
          some "the port is not a number from 0 to 65535".toList
        else none

/-! ## Line breaks -/

def OneLine (t : Text) : Prop := '\n' ∉ t

instance (t : Text) : Decidable (OneLine t) := inferInstanceAs (Decidable ('\n' ∉ t))

theorem oneLine_append {s t : Text} : OneLine (s ++ t) ↔ OneLine s ∧ OneLine t := by
  unfold OneLine
  rw [List.mem_append, not_or]

theorem oneLine_cons {c : Char} {t : Text} : OneLine (c :: t) ↔ c ≠ '\n' ∧ OneLine t := by
  unfold OneLine
  rw [List.mem_cons, not_or]
  exact and_congr_left' ne_comm

theorem oneLine_flatMap {α : Type} {l : List α} {f : α → Text} (h : ∀ a ∈ l, OneLine (f a)) : OneLine (l.flatMap f) := by
  intro hc
  obtain ⟨a, ha, hc⟩ := List.mem_flatMap.1 hc
  exact h a ha hc

theorem oneLine_intercalate {c : Char} (hc : c ≠ '\n') : ∀ {l : List Text}, (∀ t ∈ l, OneLine t) → OneLine ([c].intercalate l)
  | [], _ => by simp [OneLine]
  | [t], h => by simpa using h t (by simp)
  | t :: u :: l, h => by
    rw [List.intercalate_cons_cons]
    have hrest := oneLine_intercalate hc (l := u :: l) fun t ht => h t (List.mem_cons_of_mem _ ht)
    exact oneLine_append.2 ⟨oneLine_append.2 ⟨h t (by simp), by simpa [OneLine] using hc.symm⟩, hrest⟩

theorem oneLine_upperHexDigit : ∀ n < 16, upperHexDigit n ≠ '\n' := by decide

theorem oneLine_percentByte {n : Nat} (hn : n < 256) : OneLine (percentByte n) := by
  have hhi := oneLine_upperHexDigit (n / 16) (by omega)
  have hlo := oneLine_upperHexDigit (n % 16) (by omega)
  simp [percentByte, OneLine, hhi.symm, hlo.symm]

theorem oneLine_encodeTargetPart (s : Text) : OneLine (encodeTargetPart s) := by
  refine oneLine_flatMap fun c _ => ?_
  split_ifs with hmark hctl hwide
  · have hall : " \"<>\\^\x60\x7b|\x7d".toList.all (fun c => c.toNat < 256) = true := by decide
    exact oneLine_percentByte (of_decide_eq_true (List.all_eq_true.1 hall c hmark))
  · exact oneLine_percentByte (by omega)
  · exact oneLine_flatMap fun b _ => oneLine_percentByte b.toNat_lt
  · -- a line break is a control character, which is encoded
    rintro hc
    obtain rfl := List.mem_singleton.1 hc
    exact hctl (.inl (by decide))

theorem oneLine_encodeQueryComponent (s : Text) : OneLine (encodeQueryComponent s) := by
  refine oneLine_flatMap fun b _ => ?_
  split_ifs with hb
  · have hall : ∀ n : Fin 256, isUnreserved (UInt8.ofFin n) = true → Char.ofNat (UInt8.ofFin n).toNat ≠ '\n' := by
      decide +kernel
    intro hc
    exact hall b.toFin hb (List.mem_singleton.1 hc).symm
  · exact oneLine_percentByte b.toNat_lt

theorem oneLine_pair (kv : Text × Text) : OneLine (encodeQueryComponent kv.1 ++ '=' :: encodeQueryComponent kv.2) :=
  oneLine_append.2 ⟨oneLine_encodeQueryComponent _, oneLine_cons.2 ⟨by decide, oneLine_encodeQueryComponent _⟩⟩

theorem oneLine_withParams {query : Text} (h : OneLine query) (params : List (Text × Text)) :
    OneLine (withParams query params) := by
  have hjoined : OneLine (['&'].intercalate
      (params.map fun kv => encodeQueryComponent kv.1 ++ '=' :: encodeQueryComponent kv.2)) := by
    refine oneLine_intercalate (by decide) fun t ht => ?_
    obtain ⟨kv, -, rfl⟩ := List.mem_map.1 ht
    exact oneLine_pair kv
  unfold withParams
  simp only
  split_ifs
  · exact h
  · exact hjoined
  · exact oneLine_append.2 ⟨h, oneLine_cons.2 ⟨by decide, hjoined⟩⟩

theorem oneLine_appendPair {query : Text} (h : OneLine query) (kv : Text × Text) : OneLine (appendPair query kv) := by
  unfold appendPair
  simp only
  split_ifs
  · exact oneLine_pair kv
  · exact oneLine_append.2 ⟨h, oneLine_cons.2 ⟨by decide, oneLine_pair kv⟩⟩

theorem oneLine_queryOn {query : Text} (h : OneLine query) (a : Applied) : OneLine (a.queryOn query) :=
  List.foldlRecOn a.appendQuery appendPair h fun _ hq kv _ => oneLine_appendPair hq kv

theorem prepareMethod_ok {resolved method : Text} (h : prepareMethod resolved = .ok method) :
    upper method = method ∧ OneLine method := by
  obtain ⟨_, hcheck, hm⟩ := bind_eq_ok.1 h
  obtain rfl : upper resolved = method := Except.ok.inj hm
  rw [refuseIf_ok, not_or, not_not] at hcheck
  exact ⟨upper_upper resolved, fun hc => absurd (List.all_eq_true.1 hcheck.2 _ hc) (by decide)⟩

theorem oneLine_of_hostProblem {v : Text} (h : hostProblem v = none) : OneLine v := by
  intro hc
  have hblank : v.any isWhitespace = true := List.any_eq_true.2 ⟨_, hc, by decide⟩
  unfold hostProblem at h
  rw [if_pos hblank] at h
  split_ifs at h

theorem oneLine_authorityOf {host : Text} (h : OneLine host) (scheme : Text) (port : Nat) :
    OneLine (authorityOf scheme host port) := by
  have hhost : OneLine (if ':' ∈ host then '[' :: host ++ "]".toList else host) := by
    split_ifs
    · exact oneLine_append.2 ⟨oneLine_cons.2 ⟨by decide, h⟩, by decide⟩
    · exact h
  have hport : OneLine (Nat.toDigits 10 port) := fun hc =>
    absurd (Nat.isDigit_of_mem_toDigits (by decide) (by decide) hc) (by decide)
  unfold authorityOf
  simp only
  generalize (if ':' ∈ host then '[' :: host ++ "]".toList else host) = host at hhost
  split_ifs
  · exact hhost
  · exact oneLine_append.2 ⟨hhost, oneLine_cons.2 ⟨by decide, hport⟩⟩

theorem parseAuthority_ok {url : UrlParser} {scheme authority : Text} {hp : Text × Nat}
    (h : parseAuthority url scheme authority = .ok hp) :
    ∃ u, url (parseScheme scheme ++ "://".toList ++ authority ++ "/".toList) = .ok u ∧ u.host = some hp.1 := by
  unfold parseAuthority at h
  obtain ⟨_, -, h⟩ := bind_eq_ok.1 h
  obtain ⟨_, -, h⟩ := bind_eq_ok.1 h
  obtain ⟨u, hu, h⟩ := bind_eq_ok.1 h
  obtain ⟨host, hhost, h⟩ := bind_eq_ok.1 h
  obtain ⟨port, -, h⟩ := bind_eq_ok.1 h
  obtain rfl : (host, port) = hp := Except.ok.inj h
  refine ⟨u, ?_, ?_⟩
  · cases he : url (parseScheme scheme ++ "://".toList ++ authority ++ "/".toList) with
    | error e => rw [he] at hu; cases hu
    | ok v => rw [he] at hu; exact congrArg Except.ok (Except.ok.inj hu)
  · cases he : u.host with
    | none => rw [he] at hhost; cases hhost
    | some v => rw [he] at hhost; exact congrArg some (Except.ok.inj hhost)

theorem oneLine_parseTail (tail : Text) : OneLine (parseTail tail).1 ∧ OneLine (parseTail tail).2 := by
  unfold parseTail
  simp only
  refine ⟨?_, oneLine_encodeTargetPart _⟩
  split_ifs
  · decide
  · exact oneLine_encodeTargetPart _

/-- A target of `parse_target`, where no host that `url` reads holds a line break. -/
theorem oneLine_parseTarget {url : UrlParser} (hurl : ∀ t u host, url t = .ok u → u.host = some host → OneLine host)
    {raw first : Text} {more : List Text} {target : Target} {inferred : List Text}
    (h : parseTarget url raw first more = .ok (target, inferred)) :
    OneLine target.authority ∧ OneLine target.path ∧ OneLine target.query := by
  unfold parseTarget at h
  obtain ⟨_, -, h⟩ := bind_eq_ok.1 h
  obtain ⟨parts, -, h⟩ := bind_eq_ok.1 h
  obtain ⟨_, -, h⟩ := bind_eq_ok.1 h
  obtain ⟨hp, hauthority, h⟩ := bind_eq_ok.1 h
  obtain ⟨u, hu, hhost⟩ := parseAuthority_ok hauthority
  obtain ⟨rfl, -⟩ := Prod.mk.inj (Except.ok.inj h)
  exact ⟨oneLine_authorityOf (hurl _ u _ hu hhost) _ _, oneLine_parseTail _⟩

end Anvil.Engine
