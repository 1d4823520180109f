import Anvil.Engine.Request
import Anvil.Lib.Run
import Anvil.Load.Record

/-!
# The attempt loop of an execution (`anvil-engine/src/http_exec.rs`, `execute_viewing`; `h3_exec.rs`)

One turn of the loop applies auth to the current target, adds the jar's cookies, sends one attempt and decides, from
its outcome, what follows: a redirect, a DPoP challenge, the retry after `425`, the resend after a reused connection
was found closed, the TCP fallback of HTTP/3, an automatic retry, or the end. What the network, the clock, the jar and
the preparation of a hop do in a turn is its `Turn`.

How auth is applied and what a `Location` names are parameters (`AuthOps`, `Hops`). The notes of the record, the stored
cookies of the answers and the TLS and proxy settings of a hop are not part of the model, except that preparing these
may fail.

* `Loop.send` : what one attempt sends;
* `Loop.follow` : what follows an attempt, as the six continuations in their order;
* `follow_goes` : everything that can follow;
* `run` : the loop over any sequence of turns.
-/

namespace Anvil.Engine
open Anvil.Lib Anvil.Load

/-! ## Settings and outcomes -/

inductive HttpVersionPolicy where
  | auto | http1Only | http2Only | h2c | http3Only | http3WithFallback
deriving DecidableEq

inductive DispatchState where
  | notDispatched | sent | mayHaveBeenSent | unknown
deriving DecidableEq

/-- `RedirectPolicy`; `max` is a `u8`. -/
structure RedirectPolicy where
  follow : Bool
  max : Nat
  forwardCredentialsCrossOrigin : Bool
  max_lt : max < 256

/-- `RetryPolicy`; `maxRetries` is a `u8`, `backoffMs` a `u64`. -/
structure RetryPolicy where
  maxRetries : Nat
  backoffMs : Nat
  maxRetries_lt : maxRetries < 256
  backoffMs_lt : backoffMs < 2 ^ 64

structure EarlyDataPolicy where
  enabled : Bool
  extraMethods : List Text

def EarlyDataPolicy.allows (p : EarlyDataPolicy) (method : Text) : Bool :=
  let m := trim method
  p.enabled && (["GET", "HEAD", "OPTIONS"].any (fun d => eqIgnoreCase d.toList m) ||
    p.extraMethods.any fun x => eqIgnoreCase (trim x) m && ["PUT", "DELETE", "TRACE"].any fun a => eqIgnoreCase a.toList m)

structure Settings where
  redirects : RedirectPolicy
  retries : RetryPolicy
  httpVersion : HttpVersionPolicy
  earlyData : EarlyDataPolicy
  cookies : Bool

/-- What is prepared for the execution, as the loop reads it: the request, whether a PROXY header is configured, the
names the user redacts and the secrets that resolving the request used. -/
structure Prepared where
  method : Text
  target : Target
  headers : List Header
  sensitiveHeaders : List Text
  body : List UInt8
  bodyUsesSecret : Bool
  proxyHeader : Bool
  settings : Settings
  redactionNames : List Text
  usedSecrets : List Text

structure Response where
  status : Nat
  headers : List Header
deriving DecidableEq

def Response.headerValues (r : Response) (name : String) : List Text := (r.headers.filter (isNamed name)).map Prod.snd

/-- The last output of an engine attempt, and the failure of the reused connection that may be resent. -/
structure Outcome where
  response : Option Response
  failure : Option FailureKind
  dispatch : DispatchState
  resendOnNewConnection : Option FailureKind
deriving DecidableEq

/-- One turn of the loop, as the world answers it. -/
structure Turn where
  now : Nat
  jar : Option Text
  outcome : Outcome
  proxyPrepared : Bool
  tlsPrepared : Bool
  canceled : Bool
  backoffCanceled : Bool

/-- `anvil_auth::apply` with its clock and entropy, and the DPoP nonce of an auth. -/
structure AuthOps (A : Type) where
  apply : A → SignableRequest → Nat → Option Applied
  isDpop : A → Bool
  withNonce : A → Text → A

/-- `Url::join` and `parse_target`: the target that a `Location` names from a target. -/
abbrev Hops := Target → Text → Option Target

def isRedirect (status : Nat) : Bool := [301, 302, 303, 307, 308].contains status

/-- `anvil_diagnostics::facts::is_idempotent`. -/
def isIdempotent (method : Text) : Bool :=
  ["GET", "HEAD", "OPTIONS", "TRACE", "PUT", "DELETE"].any fun m => upper method = m.toList

inductive H3Fallback where
  | none | tcp | notResent
deriving DecidableEq

def tcpFallback (policy : HttpVersionPolicy) (failedWithoutResponse : Bool) (dispatch : DispatchState) (method : Text)
    (canceled : Bool) : H3Fallback :=
  if policy ≠ .http3WithFallback || !failedWithoutResponse || canceled then .none
  else if dispatch = .notDispatched || isIdempotent method then .tcp
  else .notResent

def isLocalPreparation : FailureKind → Bool
  | .invalidUrl | .unsupportedScheme | .unresolvedVariable | .variableCycle | .missingAttachment
  | .clientIdentityInvalid | .clientIdentityKeyMismatch | .tlsProfileInvalid | .proxyConfigInvalid | .invalidHeader
  | .bodySerialization | .lintBlocked | .requestTooLargeLocal | .authPreparationFailed | .oAuthInteractionRequired
  | .unsupportedCombination | .vaultLocked | .workloadApiUnavailable | .workloadApiDenied | .workloadApiFailed
  | .jwtSvidRejectedLocally => true
  | _ => false

inductive EarlyDataIntent where
  | off | holdAfterTooEarly | holdMethod | send
deriving DecidableEq

def earlyIntent (p : EarlyDataPolicy) (method : Text) (https : Bool) (reason : AttemptReason) : EarlyDataIntent :=
  if !p.enabled || !https then .off
  else if reason = .tooEarlyRetry then .holdAfterTooEarly
  else if !p.allows method then .holdMethod
  else .send

/-! ## The state of the loop -/

/-- `AttemptTarget`. -/
structure AttemptTarget where
  method : Text
  target : Target
  headers : List Header
  body : List UInt8
  withCredentials : Bool

/-- The variables of the loop; `redirects` and `retries` are `u8`s. -/
structure Loop (A : Type) where
  current : AttemptTarget
  auth : A
  redirects : Nat := 0
  retries : Nat := 0
  dpopChallengeUsed : Bool := false
  tooEarlyRetried : Bool := false
  resent : Option AttemptReason := none
  fallbackRepeats : Option AttemptReason := none
  reason : AttemptReason := .initial

def Loop.start {A : Type} (p : Prepared) (auth : A) : Loop A where
  current := ⟨p.method, p.target, p.headers, p.body, true⟩
  auth := auth

/-- What one engine attempt sends (`HttpPlan`), the configured headers it was made of, and what auth gave. -/
structure Sent where
  reason : AttemptReason
  method : Text
  target : Target
  configured : List Header
  applied : Option Applied
  headers : List Header
  body : List UInt8
  version : HttpVersionPolicy
  proxyHeader : Bool
  earlyData : EarlyDataIntent

def isFallback : AttemptReason → Bool
  | .protocolFallback _ => true
  | _ => false

@[simp] theorem isFallback_redirect (status : Nat) : isFallback (.redirect status) = false := rfl

@[simp] theorem isFallback_authChallenge (scheme : String) : isFallback (.authChallenge scheme) = false := rfl

@[simp] theorem isFallback_tooEarlyRetry : isFallback .tooEarlyRetry = false := rfl

@[simp] theorem isFallback_resend (after : FailureKind) : isFallback (.reusedConnectionClosed after) = false := rfl

@[simp] theorem isFallback_protocolFallback (source : String) : isFallback (.protocolFallback source) = true := rfl

@[simp] theorem isFallback_retry (after : FailureKind) : isFallback (.retry after) = false := rfl

/-- What follows a turn: another one, the end, or the trap of an overflowing counter. -/
inductive Next (A : Type) where
  | again (s : Loop A)
  | stop
  | overflow

/-- `x += 1` on a `u8`. -/
def checkedSucc (x : Nat) : Option Nat := if x + 1 < 256 then some (x + 1) else none

/-- `saturating_mul` on `u64`s. -/
def satMul (a b : Nat) : Nat := min (a * b) (2 ^ 64 - 1)

section Turns
variable {A : Type} (auth : AuthOps A) (wire : Wire) (hops : Hops) (p : Prepared)

namespace Loop

def version (s : Loop A) : HttpVersionPolicy := if isFallback s.reason then .auto else p.settings.httpVersion

/-- The reason that decides the early data: a resend and a fallback have that of the attempt they repeat. -/
def earlyReason (s : Loop A) : AttemptReason :=
  match s.reason, s.resent, s.fallbackRepeats with
  | .reusedConnectionClosed _, some r, _ => r
  | .protocolFallback _, _, some r => r
  | r, _, _ => r

/-- The auth of an attempt: `none` where it cannot be applied. -/
def applied (s : Loop A) (now : Nat) : Option (Option Applied) :=
  if s.current.withCredentials then
    match auth.apply s.auth (signableRequest s.current.method s.current.target s.current.headers s.current.body) now with
    | none => none
    | some a => if authHeaderProblem wire a then none else some (some a)
  else some none

/-- The attempt of a turn: `none` where its auth or its headers stop the loop. -/
def send (s : Loop A) (t : Turn) : Option Sent :=
  match s.applied auth wire t.now with
  | none => none
  | some applied =>
    let a := applied.getD {}
    let headers := withCookies wire p.settings.cookies t.jar (a.headersOn s.current.headers)
    if wireHeadersOk wire headers then
      some {
        reason := s.reason
        method := s.current.method
        target := { s.current.target with query := a.queryOn s.current.target.query }
        configured := s.current.headers
        applied := applied
        headers := headers
        body := a.bodyOn s.current.body
        version := s.version p
        proxyHeader := p.proxyHeader && sameListener s.current.target p.target
        earlyData := earlyIntent p.settings.earlyData s.current.method (s.current.target.scheme = "https".toList)
          s.earlyReason }
    else none

/-! ## What follows an attempt -/

/-- The method and body after a redirect with `status`. -/
def redirected (s : Loop A) (status : Nat) : Text × List UInt8 :=
  if status = 303 ∧ s.current.method ≠ "HEAD".toList then ("GET".toList, [])
  else if (status = 301 ∨ status = 302) ∧ s.current.method = "POST".toList then ("GET".toList, [])
  else (s.current.method, s.current.body)

/-- The headers kept on a redirect, before the credentials of another origin are taken out. -/
def keptHeaders (s : Loop A) (crossOrigin : Bool) (body : List UInt8) : List Header :=
  let headers := s.current.headers.filter fun h => !isNamed "host" h
  let headers := if crossOrigin then headers.filter fun h => !isNamed "mcp-session-id" h else headers
  if body.isEmpty then headers.filter fun h => !isNamed "content-type" h && !isNamed "content-length" h else headers

def withoutCredentials (headers : List Header) : List Header :=
  headers.filter fun h => !carriesCredential h p.sensitiveHeaders p.redactionNames p.usedSecrets

/-- Whether a hop to `t` goes without the credentials. -/
def strips (t : Target) : Bool := t.origin ≠ p.target.origin && !p.settings.redirects.forwardCredentialsCrossOrigin

/-- The loop at a followed redirect to `t`. -/
def hopped (s : Loop A) (status : Nat) (t : Target) (redirects : Nat) : Loop A :=
  let (method, body) := s.redirected status
  let headers := s.keptHeaders (t.origin ≠ p.target.origin) body
  { s with
    redirects := redirects
    reason := .redirect status
    current :=
      { method := method
        target := t
        headers := if strips p t then withoutCredentials p headers else headers
        body := body
        withCredentials := s.current.withCredentials && !strips p t } }

/-- The hop to `t`, once its number is taken: a body with a secret stays, and so does a hop whose proxy route or TLS
settings cannot be prepared. -/
def hop (s : Loop A) (status : Nat) (t : Target) (turn : Turn) : Next A :=
  match checkedSucc s.redirects with
  | none => .overflow
  | some redirects =>
    let body := (s.redirected status).2
    if strips p t && !body.isEmpty && (p.bodyUsesSecret || bodyCarriesSecret body p.usedSecrets) then .stop
    else if !turn.proxyPrepared then .stop
    else if t.scheme = "https".toList ∧ !turn.tlsPrepared then .stop
    else .again (s.hopped p status t redirects)

def redirect (s : Loop A) (turn : Turn) : Option (Next A) :=
  match turn.outcome.response with
  | none => none
  | some resp =>
    if isRedirect resp.status && p.settings.redirects.follow then
      match (resp.headerValues "location").head? with
      | none => none
      | some loc =>
        if p.settings.redirects.max ≤ s.redirects then some .stop
        else
          match hops s.current.target loc with
          | none => some .stop
          | some t => some (s.hop p resp.status t turn)
    else none

def challenge (s : Loop A) (turn : Turn) : Option (Next A) :=
  match turn.outcome.response with
  | none => none
  | some resp =>
    if !s.dpopChallengeUsed && auth.isDpop s.auth && (resp.status = 401 || resp.status = 400) then
      match (resp.headerValues "dpop-nonce").head? with
      | none => none
      | some nonce =>
        some (.again { s with
          dpopChallengeUsed := true, auth := auth.withNonce s.auth nonce, reason := .authChallenge "DPoP" })
    else none

def tooEarly (s : Loop A) (turn : Turn) : Option (Next A) :=
  match turn.outcome.response with
  | none => none
  | some resp =>
    if resp.status = 425 && !s.tooEarlyRetried && s.current.target.scheme = "https".toList &&
        p.settings.earlyData.enabled && p.settings.earlyData.allows s.current.method then
      some (.again { s with tooEarlyRetried := true, reason := .tooEarlyRetry })
    else none

/-- `closed_under`: not for the TCP fallback, whose next attempt would go out over HTTP/3 again. -/
def closedUnder (s : Loop A) (turn : Turn) : Option FailureKind :=
  match s.version p with
  | .http3Only | .http3WithFallback => turn.outcome.resendOnNewConnection
  | _ => turn.outcome.resendOnNewConnection.filter fun _ => !isFallback s.reason

def resend (s : Loop A) (turn : Turn) : Option (Next A) :=
  match s.closedUnder p turn with
  | none => none
  | some after =>
    if s.resent.isNone && turn.outcome.response.isNone then
      some (.again { s with resent := some s.reason, reason := .reusedConnectionClosed after })
    else none

def fallback (s : Loop A) (turn : Turn) : Option (Next A) :=
  let failedWithoutResponse := turn.outcome.response.isNone && turn.outcome.failure.isSome
  match tcpFallback (s.version p) failedWithoutResponse turn.outcome.dispatch s.current.method turn.canceled with
  | .tcp => some (.again { s with fallbackRepeats := some s.reason, reason := .protocolFallback "h3" })
  | .notResent | .none => none

/-- `1u64 << (retries - 1).min(6)`; the shift traps from 64 on. -/
def backoff (retries : Nat) : Option Nat :=
  match checkedSub retries 1 with
  | none => none
  | some n => if min n 6 < 64 then some (satMul p.settings.retries.backoffMs (2 ^ min n 6)) else none

def retry (s : Loop A) (turn : Turn) : Option (Next A) :=
  match turn.outcome.failure with
  | none => none
  | some kind =>
    if turn.outcome.response.isNone && s.retries < p.settings.retries.maxRetries && kind ≠ .canceled &&
        !isLocalPreparation kind && (turn.outcome.dispatch = .notDispatched || isIdempotent s.current.method) then
      match checkedSucc s.retries with
      | none => some .overflow
      | some retries =>
        match backoff p retries with
        | none => some .overflow
        | some _ => if turn.backoffCanceled then some .stop else
          some (.again { s with retries := retries, reason := .retry kind })
    else none

/-- What follows the attempt of a turn. -/
def follow (s : Loop A) (turn : Turn) : Next A :=
  ((s.redirect hops p turn).or ((s.challenge auth turn).or ((s.tooEarly p turn).or ((s.resend p turn).or
    ((s.fallback p turn).or (s.retry p turn)))))).getD .stop

end Loop

/-! ## Everything that can follow -/

/-- One constructor for each continuation, with its guards. -/
inductive Continues (s : Loop A) (turn : Turn) : Loop A → Prop
  | redirect {resp : Response} {t : Target} (hresp : turn.outcome.response = some resp)
    (hmax : s.redirects < p.settings.redirects.max)
    (hbody : Loop.strips p t = true → (s.redirected resp.status).2 ≠ [] →
      p.bodyUsesSecret = false ∧ bodyCarriesSecret (s.redirected resp.status).2 p.usedSecrets = false) :
    Continues s turn (s.hopped p resp.status t (s.redirects + 1))
  | challenge {resp : Response} {nonce : Text} (hresp : turn.outcome.response = some resp)
    (hused : s.dpopChallengeUsed = false) :
    Continues s turn { s with
      dpopChallengeUsed := true, auth := auth.withNonce s.auth nonce, reason := .authChallenge "DPoP" }
  | tooEarly {resp : Response} (hresp : turn.outcome.response = some resp) (hretried : s.tooEarlyRetried = false) :
    Continues s turn { s with tooEarlyRetried := true, reason := .tooEarlyRetry }
  | resend {after : FailureKind} (hclosed : turn.outcome.resendOnNewConnection = some after)
    (hresent : s.resent = none) (hresp : turn.outcome.response = none) :
    Continues s turn { s with resent := some s.reason, reason := .reusedConnectionClosed after }
  | fallback (hresp : turn.outcome.response = none) (hversion : s.version p = .http3WithFallback)
    (hreason : isFallback s.reason = false)
    (hsafe : turn.outcome.dispatch = .notDispatched ∨ isIdempotent s.current.method = true) :
    Continues s turn { s with fallbackRepeats := some s.reason, reason := .protocolFallback "h3" }
  | retry {kind : FailureKind} (hresp : turn.outcome.response = none) (hmax : s.retries < p.settings.retries.maxRetries)
    (hsafe : turn.outcome.dispatch = .notDispatched ∨ isIdempotent s.current.method = true) :
    Continues s turn { s with retries := s.retries + 1, reason := .retry kind }

variable {auth hops p} {s s' : Loop A} {turn : Turn}

theorem checkedSucc_of_lt {x m : Nat} (hx : x < m) (hm : m < 256) : checkedSucc x = some (x + 1) := by
  unfold checkedSucc
  rw [if_pos (by omega)]

theorem hop_cases (status : Nat) (t : Target) (turn : Turn) (hmax : s.redirects < p.settings.redirects.max) :
    s.hop p status t turn = .stop ∨ (s.hop p status t turn = .again (s.hopped p status t (s.redirects + 1)) ∧
      (Loop.strips p t = true → (s.redirected status).2 ≠ [] →
        p.bodyUsesSecret = false ∧ bodyCarriesSecret (s.redirected status).2 p.usedSecrets = false)) := by
  unfold Loop.hop
  rw [checkedSucc_of_lt hmax p.settings.redirects.max_lt]
  simp only
  split_ifs with hb hp ht
  · exact .inl rfl
  · exact .inl rfl
  · exact .inl rfl
  · refine .inr ⟨rfl, fun hs hne => ?_⟩
    simp only [hs, Bool.true_and, Bool.and_eq_true, Bool.not_eq_true', List.isEmpty_eq_false_iff, Bool.or_eq_true,
      not_and, not_or, Bool.not_eq_true] at hb
    exact hb hne

/-- A continuation ends the loop or goes on as one of the constructors. -/
def Goes (auth : AuthOps A) (p : Prepared) (s : Loop A) (turn : Turn) (n : Next A) : Prop :=
  n = .stop ∨ ∃ s', n = .again s' ∧ Continues auth p s turn s'

theorem redirect_goes {n : Next A} (h : s.redirect hops p turn = some n) : Goes auth p s turn n := by
  unfold Loop.redirect at h
  split at h
  · simp at h
  · next resp hresp =>
    split at h
    · split at h
      · simp at h
      · split at h
        · exact .inl (Option.some.inj h).symm
        · next hmax =>
          split at h
          · exact .inl (Option.some.inj h).symm
          · next t _ =>
            obtain rfl := Option.some.inj h
            rcases hop_cases resp.status t turn (Nat.lt_of_not_le hmax) with hs | ⟨hs, hb⟩
            · exact .inl hs
            · exact .inr ⟨_, hs, .redirect hresp (Nat.lt_of_not_le hmax) hb⟩
    · simp at h

theorem challenge_goes {n : Next A} (h : s.challenge auth turn = some n) : Goes auth p s turn n := by
  unfold Loop.challenge at h
  split at h
  · simp at h
  · next resp hresp =>
    split at h
    · next hc =>
      split at h
      · simp at h
      · obtain rfl := Option.some.inj h
        simp only [Bool.and_eq_true, Bool.not_eq_true'] at hc
        exact .inr ⟨_, rfl, .challenge hresp hc.1.1⟩
    · simp at h

theorem tooEarly_goes {n : Next A} (h : s.tooEarly p turn = some n) : Goes auth p s turn n := by
  unfold Loop.tooEarly at h
  split at h
  · simp at h
  · next resp hresp =>
    split at h
    · next hc =>
      obtain rfl := Option.some.inj h
      simp only [Bool.and_eq_true, Bool.not_eq_true'] at hc
      exact .inr ⟨_, rfl, .tooEarly hresp hc.1.1.1.2⟩
    · simp at h

/-- Only what the transport reported is resent. -/
theorem closedUnder_some {after : FailureKind} (h : s.closedUnder p turn = some after) :
    turn.outcome.resendOnNewConnection = some after := by
  unfold Loop.closedUnder at h
  split at h
  · exact h
  · exact h
  · exact (Option.filter_eq_some_iff.1 h).1

theorem resend_goes {n : Next A} (h : s.resend p turn = some n) : Goes auth p s turn n := by
  unfold Loop.resend at h
  split at h
  · simp at h
  · next after hafter =>
    split at h
    · next hc =>
      obtain rfl := Option.some.inj h
      simp only [Bool.and_eq_true, Option.isNone_iff_eq_none] at hc
      exact .inr ⟨_, rfl, .resend (closedUnder_some hafter) hc.1 hc.2⟩
    · simp at h

theorem tcpFallback_eq_tcp {policy : HttpVersionPolicy} {failed canceled : Bool} {dispatch : DispatchState} {method : Text}
    (h : tcpFallback policy failed dispatch method canceled = .tcp) :
    policy = .http3WithFallback ∧ failed = true ∧ (dispatch = .notDispatched ∨ isIdempotent method = true) := by
  unfold tcpFallback at h
  split_ifs at h with hnone hsafe
  simp only [Bool.or_eq_true, not_or, decide_eq_true_eq, not_not, Bool.not_eq_true', Bool.not_eq_false] at hnone
  exact ⟨hnone.1.1, hnone.1.2, by simpa using hsafe⟩

theorem fallback_goes {n : Next A} (h : s.fallback p turn = some n) : Goes auth p s turn n := by
  unfold Loop.fallback at h
  simp only at h
  split at h
  · next hf =>
    obtain rfl := Option.some.inj h
    obtain ⟨hpolicy, hfailed, hsafe⟩ := tcpFallback_eq_tcp hf
    have hreason : isFallback s.reason = false := by
      by_contra hr
      rw [Loop.version, if_pos (by simpa using hr)] at hpolicy
      exact absurd hpolicy (by decide)
    rw [Bool.and_eq_true, Option.isNone_iff_eq_none] at hfailed
    exact .inr ⟨_, rfl, .fallback hfailed.1 hpolicy hreason hsafe⟩
  · simp at h
  · simp at h

theorem backoff_isSome (n : Nat) : ∃ d, Loop.backoff p (n + 1) = some d := by
  unfold Loop.backoff
  rw [checkedSub_of_le (Nat.le_add_left 1 n)]
  simp only
  rw [if_pos (by omega)]
  exact ⟨_, rfl⟩

theorem retry_goes {n : Next A} (h : s.retry p turn = some n) : Goes auth p s turn n := by
  unfold Loop.retry at h
  split at h
  · simp at h
  · next kind _ =>
    split at h
    · next hc =>
      simp only [Bool.and_eq_true, Option.isNone_iff_eq_none, decide_eq_true_eq, Bool.or_eq_true] at hc
      obtain ⟨⟨⟨⟨hresp, hmax⟩, -⟩, -⟩, hsafe⟩ := hc
      obtain ⟨d, hd⟩ := backoff_isSome (p := p) s.retries
      rw [checkedSucc_of_lt hmax p.settings.retries.maxRetries_lt] at h
      simp only [hd] at h
      split at h
      · exact .inl (Option.some.inj h).symm
      · obtain rfl := Option.some.inj h
        exact .inr ⟨_, rfl, .retry hresp hmax hsafe⟩
    · simp at h

theorem follow_goes : Goes auth p s turn (s.follow auth hops p turn) := by
  unfold Loop.follow
  cases h : (s.redirect hops p turn).or ((s.challenge auth turn).or ((s.tooEarly p turn).or ((s.resend p turn).or
    ((s.fallback p turn).or (s.retry p turn))))) with
  | none => exact .inl rfl
  | some n =>
    simp only [Option.or_eq_some_iff] at h
    show Goes auth p s turn n
    rcases h with h | ⟨-, h | ⟨-, h | ⟨-, h | ⟨-, h | ⟨-, h⟩⟩⟩⟩⟩
    · exact redirect_goes h
    · exact challenge_goes h
    · exact tooEarly_goes h
    · exact resend_goes h
    · exact fallback_goes h
    · exact retry_goes h

end Turns

/-! ## Runs -/

section Runs
variable {A : Type} (auth : AuthOps A) (wire : Wire) (hops : Hops) (p : Prepared)

/-- How a run ends: out of turns, at the loop's end, or in a trap. -/
inductive Ending (A : Type) where
  | running (s : Loop A)
  | stopped
  | overflow

/-- The attempts of a run, each with its turn, and how it ends. -/
def run (s : Loop A) : List Turn → List (Sent × Turn) × Ending A
  | [] => ([], .running s)
  | t :: turns =>
    match s.send auth wire p t with
    | none => ([], .stopped)
    | some a =>
      match s.follow auth hops p t with
      | .stop => ([(a, t)], .stopped)
      | .overflow => ([(a, t)], .overflow)
      | .again s' => ((a, t) :: (run s' turns).1, (run s' turns).2)

/-- A turn ends the run, before or after its attempt, or the run goes on from a loop that continues this one. -/
theorem run_cons (s : Loop A) (t : Turn) (turns : List Turn) :
    run auth wire hops p s (t :: turns) = ([], .stopped) ∨
    (∃ a, s.send auth wire p t = some a ∧ run auth wire hops p s (t :: turns) = ([(a, t)], .stopped)) ∨
    ∃ a s', s.send auth wire p t = some a ∧ Continues auth p s t s' ∧
      run auth wire hops p s (t :: turns) =
        ((a, t) :: (run auth wire hops p s' turns).1, (run auth wire hops p s' turns).2) := by
  rw [run]
  cases ha : s.send auth wire p t with
  | none => exact .inl rfl
  | some a =>
    have hgo : Goes auth p s t (s.follow auth hops p t) := follow_goes
    simp only
    rcases hgo with hstop | ⟨s', hs', hc⟩
    · exact .inr (.inl ⟨a, rfl, by rw [hstop]⟩)
    · exact .inr (.inr ⟨a, s', rfl, hc, by rw [hs']⟩)

end Runs

end Anvil.Engine
