import Anvil.Engine.Request
import Anvil.Lib.Run

/-!
# Credentials of one send (`anvil-auth/src/lib.rs`, `hmac_sig.rs`, `dpop.rs`, `digest.rs`)

`apply` runs the profiles of an auth setting in order, each on the request the earlier ones have made, and refuses a
set whose members would overwrite or invalidate one another. The cryptography, the clock and the random draws are a
parameter (`Env`); a draw is named by the position of the profile that makes it.

* `Profile`, `ResolvedAuth`, `flatten` : one profile, and nested sets of them;
* `applyStep` : what one profile does to the request it is given;
* `Composed.check` : the refusals of a set;
* `apply`, `Outgoing.sent` : the whole set, and the request that is sent with it.
-/

namespace Anvil.Auth
open Anvil.Lib Anvil.Engine

/-! ## Profiles -/

inductive AuthError
  | invalid (message : Text)
  | acquisition (message : Text)
  | unsupported (message : Text)
  | interactionRequired (message : Text)
  | canceled (message : Text)
deriving DecidableEq

inductive KeyLocation
  | header
  | query
  | cookie
deriving DecidableEq

inductive JwtAlgorithm
  | hs256
  | hs384
  | hs512
  | rs256
  | es256
deriving DecidableEq

inductive HmacProfile
  | ferrumV2
  | ferrumV1Legacy
deriving DecidableEq

inductive HmacAlgorithm
  | hmacSha256
  | hmacSha384
  | hmacSha512
deriving DecidableEq

inductive BodyDigestHeader
  | contentDigest
  | legacyDigest
deriving DecidableEq

inductive WssePasswordType
  | passwordText
  | passwordDigest
deriving DecidableEq

structure JwtClaims where
  iss : Option Text
  sub : Option Text
  aud : Option Text
  expiresInSecs : Option Int
  notBeforeOffsetSecs : Option Int
deriving DecidableEq

/-- The `Jwt` variant; the extra claims are a JSON value, as its text. -/
structure JwtParams where
  algorithm : JwtAlgorithm
  signingKey : Text
  claims : JwtClaims
  extraClaims : Text
  kid : Option Text
  headerName : Text
  tokenPrefix : Text
deriving DecidableEq

structure HmacParams where
  profile : HmacProfile
  username : Text
  secret : Text
  algorithm : HmacAlgorithm
  digestHeader : BodyDigestHeader
  ns : Text
  allowUnsafeLegacy : Bool
deriving DecidableEq

/-- The `Wsse` variant. -/
structure WsseParams where
  username : Text
  password : Text
  passwordType : WssePasswordType
  timestampTtlSecs : Option Nat
  samlAssertion : Option Text
deriving DecidableEq

/-- The variants of `ResolvedAuth` that `flatten` keeps. -/
inductive Profile
  | apiKey (name value : Text) (location : KeyLocation)
  | basic (username password : Text)
  | bearer (token tokenPrefix : Text)
  | jwt (p : JwtParams)
  | oAuth2 (accessToken tokenType : Text)
  | hmac (p : HmacParams)
  | dpop (accessToken privateKeyPem : Text) (dpopScheme : Bool) (nonce : Option Text)
  | wsse (p : WsseParams)
  | jwtSvid (token headerName tokenPrefix : Text)
deriving DecidableEq

inductive ResolvedAuth
  | none
  | profile (p : Profile)
  | multi (parts : List ResolvedAuth)

mutual

def flatten : ResolvedAuth → List Profile
  | .none => []
  | .profile p => [p]
  | .multi parts => flattenAll parts

def flattenAll : List ResolvedAuth → List Profile
  | [] => []
  | a :: as => flatten a ++ flattenAll as

end

def KeyLocation.debug : KeyLocation → Text
  | .header => "Header".toList
  | .query => "Query".toList
  | .cookie => "Cookie".toList

def JwtAlgorithm.debug : JwtAlgorithm → Text
  | .hs256 => "HS256".toList
  | .hs384 => "HS384".toList
  | .hs512 => "HS512".toList
  | .rs256 => "RS256".toList
  | .es256 => "ES256".toList

def HmacProfile.debug : HmacProfile → Text
  | .ferrumV2 => "FerrumV2".toList
  | .ferrumV1Legacy => "FerrumV1Legacy".toList

def WssePasswordType.debug : WssePasswordType → Text
  | .passwordText => "PasswordText".toList
  | .passwordDigest => "PasswordDigest".toList

/-- The name a refusal gives a profile. -/
def Profile.label : Profile → Text
  | .apiKey name _ location => "api_key(".toList ++ location.debug ++ ' ' :: name ++ ")".toList
  | .basic username _ => "basic(user ".toList ++ username ++ ")".toList
  | .bearer _ _ => "bearer".toList
  | .jwt p => "jwt(".toList ++ p.algorithm.debug ++ ")".toList
  | .oAuth2 _ _ => "oauth2(access token)".toList
  | .hmac p => "hmac(".toList ++ p.profile.debug ++ ", user ".toList ++ p.username ++ ")".toList
  | .dpop _ _ _ _ => "dpop(bound access token)".toList
  | .wsse p => "ws-security(".toList ++ p.passwordType.debug ++ ", user ".toList ++ p.username ++ ")".toList
  | .jwtSvid _ headerName _ => "jwt_svid(".toList ++ headerName ++ ")".toList

/-- What lies outside the composition: the clock, the draws, the primitives and the `Debug` text of a string. -/
structure Env where
  date : Text
  freshNonce : Nat → Text
  mac : HmacAlgorithm → List UInt8 → List UInt8 → List UInt8
  sha256 : List UInt8 → List UInt8
  base64 : List UInt8 → Text
  jwtSign : Nat → JwtParams → Except AuthError Text
  dpopJwt : Nat → Text → Text → Text → Text → Option Text → Except AuthError Text
  insertSecurityToken : Nat → WsseParams → List UInt8 → Except AuthError (List UInt8)
  debugText : Text → Text

/-! ## Cookie API keys -/

def isAsciiAlphanumeric (b : UInt8) : Bool :=
  (0x30 ≤ b && b ≤ 0x39) || (0x41 ≤ b && b ≤ 0x5A) || (0x61 ≤ b && b ≤ 0x7A)

def isTokenChar (b : UInt8) : Bool := isAsciiAlphanumeric b || (encodeUtf8 "!#$%&'*+-.^_`|~".toList).contains b

def isCookieOctet (b : UInt8) : Bool :=
  b = 0x21 || (0x23 ≤ b && b ≤ 0x2B) || (0x2D ≤ b && b ≤ 0x3A) || (0x3C ≤ b && b ≤ 0x5B) || (0x5D ≤ b && b ≤ 0x7E)

/-- `strip_prefix('"').and_then(|v| v.strip_suffix('"')).unwrap_or(value)`. -/
def unquote (value : Text) : Text :=
  if value.head? = some '"' ∧ value.tail.getLast? = some '"' then value.tail.dropLast else value

/-- The cookies of every `Cookie` header. -/
def requestCookies (headers : List Header) : List Text :=
  (headers.filter (isNamed "cookie")).flatMap fun h => cookiePairs h.2

def cookiePair (name value : Text) : Text := name ++ '=' :: value

def withCookie (env : Env) (req : SignableRequest) (name value : Text) : Except AuthError Text := do
  refuseIf (¬(encodeUtf8 name).all isTokenChar) (.invalid ("the cookie API key name ".toList ++ env.debugText name ++
    " is not a valid cookie name; use letters, digits and !#$%&'*+-.^_`|~ only".toList))
  refuseIf (¬(encodeUtf8 (unquote value)).all isCookieOctet) (.invalid ("the cookie API key '".toList ++ name ++
    "' has an invalid cookie value (no whitespace, control or non-ASCII characters, \", ; or \\)".toList))
  pure ("; ".toList.intercalate
    ((requestCookies req.headers).filter (fun p => cookieName p ≠ name) ++ [cookiePair name value]))

/-! ## Signatures -/

/-- `digest::header` with SHA-256. -/
def digestHeader (env : Env) (kind : BodyDigestHeader) (body : List UInt8) : Header :=
  match kind with
  | .contentDigest => ("Content-Digest".toList, "sha-256=:".toList ++ env.base64 (env.sha256 body) ++ ":".toList)
  | .legacyDigest => ("Digest".toList, "sha-256=".toList ++ env.base64 (env.sha256 body))

def profileName : HmacProfile → Text
  | .ferrumV2 => "ferrum-hmac-v2".toList
  | .ferrumV1Legacy => "ferrum-hmac-v1".toList

def algName : HmacAlgorithm → Text
  | .hmacSha256 => "hmac-sha256".toList
  | .hmacSha384 => "hmac-sha384".toList
  | .hmacSha512 => "hmac-sha512".toList

def quote (s : Text) : Text := s.flatMap fun c => if c = '\\' ∨ c = '"' then ['\\', c] else [c]

def signingString (profile : HmacProfile) (ns username authority method rawPath rawQuery date digest : Text)
    (nonce : Option Text) : Text :=
  ['\n'].intercalate
    ([profileName profile, ns, username, authority, method, rawPath, rawQuery, date, digest] ++ nonce.toList)

/-- The nonce a profile sends: the legacy one has none. -/
def HmacParams.nonce (p : HmacParams) (nonce : Text) : Option Text :=
  match p.profile with
  | .ferrumV2 => some nonce
  | .ferrumV1Legacy => none

def HmacParams.boundNs (p : HmacParams) : Text := if p.ns.isEmpty then "ferrum".toList else p.ns

/-- The string that `sign_with` signs for a request. -/
def hmacSigns (env : Env) (p : HmacParams) (req : SignableRequest) (nonce : Text) : Text :=
  signingString p.profile p.boundNs p.username req.authority (upper req.method) req.rawPath req.rawQuery env.date
    (digestHeader env p.digestHeader req.body).2 (p.nonce nonce)

/-- The `Authorization` value over a signing string. -/
def hmacAuthorization (env : Env) (p : HmacParams) (nonce signed : Text) : Text :=
  "hmac username=\"".toList ++ quote p.username ++ "\", algorithm=\"".toList ++ algName p.algorithm ++ "\"".toList ++
    ((p.nonce nonce).map fun n => ", nonce=\"".toList ++ n ++ "\"".toList).getD [] ++ ", signature=\"".toList ++
    env.base64 (env.mac p.algorithm (encodeUtf8 p.secret) (encodeUtf8 signed)) ++ "\"".toList

def hasHeader (req : SignableRequest) (name : String) : Bool := req.headers.any (isNamed name)

/-- `sign_with`: the headers of the signature. -/
def signWith (env : Env) (p : HmacParams) (req : SignableRequest) (nonce : Text) : Except AuthError (List Header) :=
  do
  refuseIf (p.profile = .ferrumV1Legacy ∧ p.allowUnsafeLegacy = false) (.invalid
    ("the legacy ferrum-hmac-v1 profile is replayable and is disabled; " ++
      "enable the unsafe legacy option explicitly or use ferrum-hmac-v2").toList)
  refuseIf ((trim p.username).isEmpty) (.invalid "HMAC username is empty".toList)
  refuseIf (p.secret.isEmpty) (.invalid "HMAC secret is empty".toList)
  refuseIf (hasHeader req "digest" ∨ hasHeader req "content-digest") (.invalid
    ("HMAC signing computes the body digest itself; remove the manual Digest/Content-Digest header " ++
      "(the gateway rejects requests carrying both or a mismatched digest)").toList)
  pure [("Authorization".toList, hmacAuthorization env p nonce (hmacSigns env p req nonce)), ("Date".toList, env.date),
    digestHeader env p.digestHeader req.body]

/-- The host of an `htu`: without the scheme's own port. -/
def htuHost (scheme authority : Text) : Text :=
  let host := lower (trim authority)
  if scheme = "http".toList ∧ ":80".toList.isSuffixOf host then host.take (host.length - 3)
  else if scheme = "https".toList ∧ ":443".toList.isSuffixOf host then host.take (host.length - 4)
  else host

def htuPath (rawPath : Text) : Text :=
  let path := rawPath.takeWhile fun c => c ≠ '?' ∧ c ≠ '#'
  if path.head? = some '/' then path else '/' :: path

def htu (scheme authority rawPath : Text) : Except AuthError Text := do
  refuseIf (lower scheme ≠ "http".toList ∧ lower scheme ≠ "https".toList)
    (.invalid ("DPoP htu requires http or https, got ".toList ++ lower scheme))
  pure (lower scheme ++ "://".toList ++ htuHost (lower scheme) authority ++ htuPath rawPath)

/-! ## One profile -/

def withPrefix (tokenPrefix token : Text) : Text := if tokenPrefix.isEmpty then token else tokenPrefix ++ ' ' :: token

def basicToken (env : Env) (username password : Text) : Text := env.base64 (encodeUtf8 (username ++ ':' :: password))

/-- The scheme of an OAuth 2 token type. -/
def tokenScheme (tokenType : Text) : Text :=
  if eqIgnoreCase tokenType "bearer".toList ∨ tokenType.isEmpty then "Bearer".toList else tokenType

def dpopAuthorization (accessToken : Text) (dpopScheme : Bool) : Text :=
  (if dpopScheme then "DPoP".toList else "Bearer".toList) ++ ' ' :: accessToken

def setOne (name value : Text) : Applied := { setHeaders := [(name, value)] }

def applyKey (env : Env) (req : SignableRequest) (name value : Text) : KeyLocation → Except AuthError Applied
  | .header => pure (setOne name value)
  | .query => pure { appendQuery := [(name, value)] }
  | .cookie => do
    let cookies ← withCookie env req name value
    pure (setOne "Cookie".toList cookies)

/-- `apply_step`, for the profile at position `draw` of the set. -/
def applyStep (env : Env) (draw : Nat) (req : SignableRequest) : Profile → Except AuthError Applied
  | .apiKey name value location => do
    refuseIf ((trim name).isEmpty) (.invalid "API key name is empty".toList)
    applyKey env req name value location
  | .basic username password => do
    refuseIf (':' ∈ username) (.invalid "Basic auth user names cannot contain ':'".toList)
    pure (setOne "Authorization".toList ("Basic ".toList ++ basicToken env username password))
  | .bearer token tokenPrefix => pure (setOne "Authorization".toList (withPrefix tokenPrefix token))
  | .jwt p => do
    let token ← env.jwtSign draw p
    pure (setOne p.headerName (withPrefix p.tokenPrefix token))
  | .oAuth2 accessToken tokenType =>
    pure (setOne "Authorization".toList (tokenScheme tokenType ++ ' ' :: accessToken))
  | .hmac p => do
    let headers ← signWith env p req (env.freshNonce draw)
    pure { setHeaders := headers }
  | .dpop accessToken privateKeyPem dpopScheme nonce => do
    let u ← htu req.scheme req.authority req.rawPath
    let proof ← env.dpopJwt draw privateKeyPem (upper req.method) u accessToken nonce
    pure { setHeaders := [("Authorization".toList, dpopAuthorization accessToken dpopScheme), ("DPoP".toList, proof)] }
  | .wsse p => do
    let inserted ← env.insertSecurityToken draw p req.body
    pure { body := some inserted }
  | .jwtSvid token headerName tokenPrefix => do
    refuseIf (token.isEmpty) (.invalid "no JWT-SVID is available for this request".toList)
    pure (setOne headerName (withPrefix tokenPrefix token))

/-! ## Refusals of a set -/

/-- What a request signature covers besides the method, the scheme and the path. -/
structure Signature where
  label : Text
  query : Bool
  body : Bool
  headers : List String
deriving DecidableEq

/-- A header that a profile set, by its lower-case name; `merge` for the `Cookie` of a cookie API key. -/
structure HeaderOwner where
  name : Text
  label : Text
  merge : Bool
deriving DecidableEq

structure Composed where
  headers : List HeaderOwner := []
  cookies : List (Text × Text) := []
  query : List (Text × Text) := []
  signatures : List Signature := []
deriving DecidableEq

def Profile.cookieKey : Profile → Option Text
  | .apiKey name _ .cookie => some name
  | _ => none

def Profile.signature (p : Profile) : Option Signature :=
  match p with
  | .hmac _ => some ⟨p.label, true, true, ["host", "date", "digest", "content-digest"]⟩
  | .dpop _ _ _ _ => some ⟨p.label, false, false, ["host"]⟩
  | _ => none

def Signature.covers (sig : Signature) (h : Header) : Bool := sig.headers.any fun s => isNamed s h

/-- What of the signed request the step's result would change. -/
def Signature.changed (sig : Signature) (out : Applied) : Option Text :=
  if sig.query ∧ ¬out.appendQuery.isEmpty then some "query".toList
  else if sig.body ∧ out.body.isSome then some "body".toList
  else (out.setHeaders.find? sig.covers).map fun h => h.1 ++ " header".toList

def checkSignature (label : Text) (out : Applied) (sig : Signature) : Except AuthError Unit :=
  match sig.changed out with
  | some what => .error (.invalid ("the auth profile ".toList ++ label ++ " would change the ".toList ++ what ++
      " after ".toList ++ sig.label ++
      " signed the request, so the signature would not match what is sent; put ".toList ++ label ++ " before ".toList ++
      sig.label ++ " in the multi-auth list".toList))
  | none => .ok ()

def checkHeader (p : Profile) (owners : List HeaderOwner) (h : Header) : Except AuthError (List HeaderOwner) :=
  let merge := p.cookieKey.isSome && lower h.1 = "cookie".toList
  match owners.find? fun o => o.name = lower h.1 with
  | some o =>
    if merge && o.merge then .ok owners
    else .error (.invalid ("several auth profiles would each set the ".toList ++ h.1 ++ " header (".toList ++ o.label ++
      " and ".toList ++ p.label ++ "); choose one profile for ".toList ++ h.1))
  | none => .ok (owners ++ [⟨lower h.1, p.label, merge⟩])

def checkCookie (p : Profile) (cookies : List (Text × Text)) : Except AuthError (List (Text × Text)) :=
  match p.cookieKey with
  | none => .ok cookies
  | some name =>
    match cookies.find? fun c => c.1 = name with
    | some c => .error (.invalid ("several auth profiles would each send the cookie '".toList ++ name ++
        "' (".toList ++ c.2 ++ " and ".toList ++ p.label ++ "); give each cookie credential its own name".toList))
    | none => .ok (cookies ++ [(name, p.label)])

def checkQuery (p : Profile) (query : List (Text × Text)) (kv : Text × Text) : Except AuthError (List (Text × Text)) :=
  match query.find? fun q => q.1 = kv.1 with
  | some q => .error (.invalid ("several auth profiles would each add the query parameter '".toList ++ kv.1 ++
      "' (".toList ++ q.2 ++ " and ".toList ++ p.label ++ "); give each query credential its own name".toList))
  | none => .ok (query ++ [(kv.1, p.label)])

def Composed.check (c : Composed) (p : Profile) (out : Applied) : Except AuthError Composed := do
  c.signatures.forM (checkSignature p.label out)
  let headers ← runOps (checkHeader p) c.headers out.setHeaders
  let cookies ← checkCookie p c.cookies
  let query ← runOps (checkQuery p) c.query out.appendQuery
  pure ⟨headers, cookies, query, c.signatures ++ p.signature.toList⟩

/-! ## The set -/

def absorbHeader (req : SignableRequest) (h : Header) : SignableRequest :=
  { req with
    headers := setHeader req.headers h
    authority := if isNamed "host" h then h.2 else req.authority }

def absorb (req : SignableRequest) (out : Applied) : SignableRequest :=
  let req := out.setHeaders.foldl absorbHeader req
  { req with rawQuery := out.queryOn req.rawQuery, body := out.bodyOn req.body }

/-- The result so far with one more step's; `set` replaces a header as `setHeader` does. -/
def addStep (applied out : Applied) : Applied where
  setHeaders := out.setHeaders.foldl setHeader applied.setHeaders
  appendQuery := applied.appendQuery ++ out.appendQuery
  body := out.body.or applied.body

structure Progress where
  applied : Applied := {}
  effective : SignableRequest
  composed : Composed := {}

/-- One turn of the loop; the last step's result is absorbed too, which nothing reads. -/
def applyNext (env : Env) (draw : Nat) (s : Progress) (p : Profile) : Except AuthError Progress := do
  let out ← applyStep env draw s.effective p
  let composed ← s.composed.check p out
  pure ⟨addStep s.applied out, absorb s.effective out, composed⟩

def applyFrom (env : Env) : Nat → Progress → List Profile → Except AuthError Progress
  | _, s, [] => .ok s
  | draw, s, p :: ps => do
    let s' ← applyNext env draw s p
    applyFrom env (draw + 1) s' ps

def Profile.isHmac : Profile → Bool
  | .hmac _ => true
  | _ => false

def Profile.isDpop : Profile → Bool
  | .dpop _ _ _ _ => true
  | _ => false

def tooMany (kind : String) : AuthError :=
  .invalid ("a multi-auth set can hold one ".toList ++ kind.toList ++ " profile".toList)

def apply (env : Env) (auth : ResolvedAuth) (req : SignableRequest) : Except AuthError Applied := do
  refuseIf (1 < (flatten auth).countP Profile.isHmac) (tooMany "HMAC")
  refuseIf (1 < (flatten auth).countP Profile.isDpop) (tooMany "DPoP")
  let s ← applyFrom env 0 { effective := req } (flatten auth)
  pure s.applied

/-- A request before auth, as the loop of `execute_viewing` holds it: preparing upper-cases the method. -/
structure Outgoing where
  method : Text
  target : Target
  headers : List Header
  body : List UInt8
  upper_method : upper method = method

def Outgoing.signable (o : Outgoing) : SignableRequest := signableRequest o.method o.target o.headers o.body

/-- The request with an auth result applied, in the terms that a signature covers. -/
def Outgoing.sent (o : Outgoing) (a : Applied) : SignableRequest :=
  signableRequest o.method { o.target with query := a.queryOn o.target.query } (a.headersOn o.headers) (a.bodyOn o.body)

end Anvil.Auth
