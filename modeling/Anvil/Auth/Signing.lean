import Anvil.Auth.Multi
import Anvil.Engine.Prepare
import Anvil.Lib.Base64
import Anvil.Lib.Delimited

/-!
# The signing string of an HMAC profile (`anvil-auth/src/hmac_sig.rs`, `anvil-engine/src/prepare.rs`)

`signing_string` joins its fields by line breaks and escapes none of them, and the namespace may be any text. Which of the
other fields can hold a line break is decided where the engine accepts them.

* `Env.Plain`, `Sendable` : what the engine signs, and how it wrote the parts;
* `signedFields` : the fields after the namespace, each on a line of its own;
* `signing_unambiguous` : the signing string tells every field.
-/

namespace Anvil.Auth
open Anvil.Lib Anvil.Engine

/-- An HTTP date, the Base64 alphabet and hexadecimal digits have no line break. -/
structure Env.Plain (env : Env) : Prop where
  date : OneLine env.date
  base64 : ∀ bytes, OneLine (env.base64 bytes)
  nonce : ∀ draw, OneLine (env.freshNonce draw)

/-- A target that `parse_target` gave. -/
def Parsed (url : UrlParser) (t : Target) : Prop :=
  ∃ raw first more inferred, parseTarget url raw first more = .ok (t, inferred)

/-- A request as the engine hands it to an HMAC profile, and a user name that it can send. -/
structure Sendable (w : Wire) (url : UrlParser) (env : Env) (p : HmacParams) (req : SignableRequest) (draw : Nat) :
    Prop where
  method : ∃ resolved, prepareMethod resolved = .ok req.method
  path : ∃ t, Parsed url t ∧ req.rawPath = t.path
  query : ∃ t params auth, Parsed url t ∧ req.rawQuery = Applied.queryOn auth (withParams t.query params)
  authority : (∃ t, Parsed url t ∧ req.authority = t.authority) ∨ hostProblem req.authority = none
  username : w.validValue
    (hmacAuthorization env p (env.freshNonce draw) (hmacSigns env p req (env.freshNonce draw))) = true

/-- The fields after the profile and the namespace. -/
def signedFields (env : Env) (p : HmacParams) (req : SignableRequest) (nonce : Text) : List Text :=
  [p.username, req.authority, upper req.method, req.rawPath, req.rawQuery, env.date,
    (digestHeader env p.digestHeader req.body).2] ++ (p.nonce nonce).toList

theorem hmacSigns_eq (env : Env) (p : HmacParams) (req : SignableRequest) (nonce : Text) :
    hmacSigns env p req nonce =
      profileName p.profile ++ '\n' :: (p.boundNs ++ (signedFields env p req nonce).flatMap fun part => '\n' :: part) := by
  unfold hmacSigns signingString
  exact intercalate_cons '\n' _ (p.boundNs :: signedFields env p req nonce)

theorem length_profileName (p : HmacProfile) : (profileName p).length = 14 := by
  cases p <;> rfl

theorem profileName_injective {p q : HmacProfile} (h : profileName p = profileName q) : p = q := by
  cases p <;> cases q <;> first | rfl | exact absurd h (by decide)

theorem length_signedFields {env env' : Env} {p p' : HmacParams} (h : p.profile = p'.profile)
    (req req' : SignableRequest) (nonce nonce' : Text) :
    (signedFields env p req nonce).length = (signedFields env' p' req' nonce').length := by
  unfold signedFields HmacParams.nonce
  rw [h]
  cases p'.profile <;> rfl

theorem oneLine_of_quote {t : Text} (h : OneLine (quote t)) : OneLine t := by
  intro hc
  refine h (List.mem_flatMap.2 ⟨_, hc, ?_⟩)
  split_ifs <;> simp

theorem oneLine_digestHeader {env : Env} (henv : env.Plain) (kind : BodyDigestHeader) (body : List UInt8) :
    OneLine (digestHeader env kind body).2 := by
  cases kind with
  | contentDigest => exact oneLine_append.2 ⟨oneLine_append.2 ⟨by decide, henv.base64 _⟩, by decide⟩
  | legacyDigest => exact oneLine_append.2 ⟨by decide, henv.base64 _⟩

/-- Only the namespace can hold a line break. -/
theorem Sendable.oneLine {w : Wire} {url : UrlParser} (hvalid : ∀ v, w.validValue v = true → OneLine v)
    (hurl : ∀ t u host, url t = .ok u → u.host = some host → OneLine host) {env : Env} (henv : env.Plain)
    {p : HmacParams} {req : SignableRequest} {draw : Nat} (h : Sendable w url env p req draw) :
    ∀ field ∈ signedFields env p req (env.freshNonce draw), OneLine field := by
  have hparsed : ∀ {t}, Parsed url t → OneLine t.authority ∧ OneLine t.path ∧ OneLine t.query := by
    rintro t ⟨raw, first, more, inferred, ht⟩
    exact oneLine_parseTarget hurl ht
  have hauthority : OneLine req.authority := by
    rcases h.authority with ⟨t, ht, he⟩ | hhost
    · exact he ▸ (hparsed ht).1
    · exact oneLine_of_hostProblem hhost
  have hmethod : OneLine (upper req.method) := by
    obtain ⟨resolved, hm⟩ := h.method
    rw [(prepareMethod_ok hm).1]
    exact (prepareMethod_ok hm).2
  have hpath : OneLine req.rawPath := by
    obtain ⟨t, ht, he⟩ := h.path
    exact he ▸ (hparsed ht).2.1
  have hquery : OneLine req.rawQuery := by
    obtain ⟨t, params, auth, ht, he⟩ := h.query
    exact he ▸ oneLine_queryOn (oneLine_withParams (hparsed ht).2.2 params) auth
  have husername : OneLine p.username := by
    have hline := hvalid _ h.username
    unfold hmacAuthorization at hline
    simp only [oneLine_append, and_assoc] at hline
    exact oneLine_of_quote hline.2.1
  have hnonce : ∀ n ∈ p.nonce (env.freshNonce draw), OneLine n := by
    unfold HmacParams.nonce
    cases p.profile with
    | ferrumV2 => exact fun n hn => Option.mem_some.1 hn ▸ henv.nonce draw
    | ferrumV1Legacy => exact fun n hn => absurd hn (by simp)
  intro field hfield
  simp only [signedFields, List.cons_append, List.nil_append, List.mem_cons, Option.mem_toList] at hfield
  rcases hfield with rfl | rfl | rfl | rfl | rfl | rfl | rfl | hfield
  · exact husername
  · exact hauthority
  · exact hmethod
  · exact hpath
  · exact hquery
  · exact henv.date
  · exact oneLine_digestHeader henv _ _
  · exact hnonce field hfield

/-- **The signing string tells what was signed**: equal strings have equal fields, whatever the namespaces hold. -/
theorem signing_unambiguous {w : Wire} {url : UrlParser} (hvalid : ∀ v, w.validValue v = true → OneLine v)
    (hurl : ∀ t u host, url t = .ok u → u.host = some host → OneLine host) {env env₂ : Env} (henv : env.Plain)
    (henv₂ : env₂.Plain) {p p₂ : HmacParams} {req req₂ : SignableRequest} {draw draw₂ : Nat}
    (h : Sendable w url env p req draw) (h₂ : Sendable w url env₂ p₂ req₂ draw₂)
    (he : hmacSigns env p req (env.freshNonce draw) = hmacSigns env₂ p₂ req₂ (env₂.freshNonce draw₂)) :
    p.profile = p₂.profile ∧ p.boundNs = p₂.boundNs ∧ p.username = p₂.username ∧ req.authority = req₂.authority ∧
      req.method = req₂.method ∧ req.rawPath = req₂.rawPath ∧ req.rawQuery = req₂.rawQuery ∧ env.date = env₂.date ∧
      (digestHeader env p.digestHeader req.body).2 = (digestHeader env₂ p₂.digestHeader req₂.body).2 ∧
      p.nonce (env.freshNonce draw) = p₂.nonce (env₂.freshNonce draw₂) := by
  rw [hmacSigns_eq, hmacSigns_eq] at he
  obtain ⟨hname, hrest⟩ := List.append_inj he (by rw [length_profileName, length_profileName])
  have hprofile := profileName_injective hname
  -- the profile says how many fields follow the namespace
  obtain ⟨hns, hfields⟩ := joined_injective (h.oneLine hvalid hurl henv) (h₂.oneLine hvalid hurl henv₂)
    (length_signedFields hprofile req req₂ _ _) (List.cons.inj hrest).2
  obtain ⟨resolved, hmethod⟩ := h.method
  obtain ⟨resolved₂, hmethod₂⟩ := h₂.method
  simp only [signedFields, List.cons_append, List.nil_append, List.cons.injEq, (prepareMethod_ok hmethod).1,
    (prepareMethod_ok hmethod₂).1] at hfields
  obtain ⟨husername, hauthority, hm, hpath, hquery, hdate, hdigest, hnonce⟩ := hfields
  have hhead := congrArg List.head? hnonce
  rw [Option.head?_toList, Option.head?_toList] at hhead
  exact ⟨hprofile, hns, husername, hauthority, hm, hpath, hquery, hdate, hdigest, hhead⟩

/-! ## One request, with the namespace left to its default and with it given -/

def signedEnv : Env where
  date := "Thu, 01 Jan 1970 00:00:00 GMT".toList
  freshNonce := fun _ => "000102030405060708090a0b0c0d0e0f".toList
  mac := fun _ _ _ => [0x9E, 0xD0, 0xD2, 0x02, 0x8F, 0x8C, 0x9D, 0x6B, 0xA2, 0x67, 0x0D, 0x47, 0xD4, 0xA8, 0xC4, 0x48,
    0x88, 0xEF, 0xA8, 0x04, 0x86, 0x01, 0xBF, 0x4D, 0xA0, 0xD2, 0x80, 0x90, 0x16, 0x05, 0xBF, 0x8E]
  sha256 := fun _ => [0xE3, 0xB0, 0xC4, 0x42, 0x98, 0xFC, 0x1C, 0x14, 0x9A, 0xFB, 0xF4, 0xC8, 0x99, 0x6F, 0xB9, 0x24,
    0x27, 0xAE, 0x41, 0xE4, 0x64, 0x9B, 0x93, 0x4C, 0xA4, 0x95, 0x99, 0x1B, 0x78, 0x52, 0xB8, 0x55]
  base64 := fun bytes => (Base64.encode bytes).map fun b => Char.ofNat b.toNat
  jwtSign := fun _ _ => .error (.unsupported [])
  dpopJwt := fun _ _ _ _ _ _ => .error (.unsupported [])
  insertSecurityToken := fun _ _ body => .ok body
  debugText := fun t => '"' :: t ++ "\"".toList

def signedWire : Wire := ⟨fun n => !n.isEmpty, headerValueOk, fun v => (hostProblem v).isSome⟩

def signedUrl : UrlParser := fun t =>
  if t = "http://api.test/".toList then .ok ⟨some "api.test".toList, none⟩ else .error "relative URL without a base".toList

def signedParams (ns : Text) : HmacParams where
  profile := .ferrumV2
  username := "alice".toList
  secret := "s3cret".toList
  algorithm := .hmacSha256
  digestHeader := .contentDigest
  ns := ns
  allowUnsafeLegacy := false

def signedRequest : SignableRequest where
  method := "GET".toList
  scheme := "http".toList
  authority := "api.test".toList
  rawPath := "/a%20b".toList
  rawQuery := "x=1".toList
  headers := []
  body := []

theorem signedEnv_plain : signedEnv.Plain where
  date := by decide
  base64 := by
    intro bytes hc
    obtain ⟨b, hb, he⟩ := List.mem_map.1 hc
    have hblank := Base64.standard_engine.blank_encode bytes b hb
    have hall : ∀ n : Fin 256, Base64.isBlank (UInt8.ofFin n) = false → Char.ofNat (UInt8.ofFin n).toNat ≠ '\n' := by
      decide +kernel
    exact hall b.toFin hblank he
  nonce := by
    have hhex : OneLine "000102030405060708090a0b0c0d0e0f".toList := by decide
    exact fun _ => hhex

/-- The sample's code is the same for every signing string. -/
theorem signedAuthorization_eq (ns nonce signed : Text) :
    hmacAuthorization signedEnv (signedParams ns) nonce signed = hmacAuthorization signedEnv (signedParams []) nonce [] := rfl

theorem signedAuthorization_ok : signedWire.validValue
    (hmacAuthorization signedEnv (signedParams []) (signedEnv.freshNonce 0) []) = true := by decide

theorem signedRequest_sendable (ns : Text) : Sendable signedWire signedUrl signedEnv (signedParams ns) signedRequest 0 where
  method := ⟨"get".toList, rfl⟩
  path := ⟨_, ⟨"http://api.test/a b?x=1".toList, "http".toList, ["https".toList], _, rfl⟩, rfl⟩
  query := ⟨_, [], {}, ⟨"http://api.test/a b?x=1".toList, "http".toList, ["https".toList], _, rfl⟩, rfl⟩
  authority := .inr (by decide)
  username := by
    rw [signedAuthorization_eq]
    exact signedAuthorization_ok

theorem headerValueOk_oneLine {v : Text} (h : headerValueOk v = true) : OneLine v :=
  fun hc => absurd (List.all_eq_true.1 h _ hc) (by decide)

theorem signedUrl_oneLine {t : Text} {u : ParsedUrl} {host : Text} (h : signedUrl t = .ok u) (hhost : u.host = some host) :
    OneLine host := by
  unfold signedUrl at h
  split_ifs at h
  obtain rfl := Except.ok.inj h
  obtain rfl := Option.some.inj hhost
  decide

theorem signing_unambiguous_default : (signedParams []).boundNs = (signedParams "ferrum".toList).boundNs :=
  (signing_unambiguous (w := signedWire) (fun _ => headerValueOk_oneLine) (fun _ _ _ => signedUrl_oneLine) signedEnv_plain
    signedEnv_plain (signedRequest_sendable []) (signedRequest_sendable "ferrum".toList) rfl).2.1

end Anvil.Auth
