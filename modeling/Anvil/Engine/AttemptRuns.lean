import Anvil.Engine.Attempts

/-!
# Every run of the attempt loop

* `run_step` : two attempts in a row come from a loop and one that continues it;
* `countP_run_le` : a potential that every continuation pays for bounds the attempts of a kind;
* `attempts_end_safely` : every run ends, within its limit, without a trap and without an unsafe replay;
* `Confined` : what holds of the loop whatever was redirected where;
* `credentials_confined` : what an attempt at, or after, another origin does not carry.
-/

namespace Anvil.Engine
open Anvil.Lib Anvil.Load

section Runs
variable {A : Type} {auth : AuthOps A} {wire : Wire} {hops : Hops} {p : Prepared}

/-! ## Attempts in a row -/

/-- The `i`th attempt of a run is sent by a loop that is reached from the first one by as many continuations. -/
theorem run_reaches {turns : List Turn} {s : Loop A} {i : Nat} {a : Sent} {t : Turn}
    (hi : (run auth wire hops p s turns).1[i]? = some (a, t)) (Inv : Loop A → Prop) (hs : Inv s)
    (hstep : ∀ s t s', Continues auth p s t s' → Inv s → Inv s') :
    ∃ s', Inv s' ∧ s'.send auth wire p t = some a := by
  induction turns generalizing s i with
  | nil => simp [run] at hi
  | cons u turns ih =>
    rcases run_cons auth wire hops p s u turns with hr | ⟨b, hb, hr⟩ | ⟨b, s', hb, hc, hr⟩
    · rw [hr] at hi
      simp at hi
    · rw [hr] at hi
      cases i with
      | zero =>
        obtain ⟨rfl, rfl⟩ := Prod.mk.inj (Option.some.inj hi)
        exact ⟨s, hs, hb⟩
      | succ i => simp at hi
    · rw [hr] at hi
      cases i with
      | zero =>
        obtain ⟨rfl, rfl⟩ := Prod.mk.inj (Option.some.inj hi)
        exact ⟨s, hs, hb⟩
      | succ i => exact ih hi (hstep s u s' hc hs)

/-- The first attempt is the loop's own. -/
theorem run_head {turns : List Turn} {s : Loop A} {a : Sent} {t : Turn}
    (h : (run auth wire hops p s turns).1[0]? = some (a, t)) : s.send auth wire p t = some a := by
  cases turns with
  | nil => simp [run] at h
  | cons u turns =>
    rcases run_cons auth wire hops p s u turns with hr | ⟨b, hb, hr⟩ | ⟨b, s', hb, hc, hr⟩
    · rw [hr] at h
      simp at h
    · rw [hr] at h
      obtain ⟨rfl, rfl⟩ := Prod.mk.inj (Option.some.inj h)
      exact hb
    · rw [hr] at h
      obtain ⟨rfl, rfl⟩ := Prod.mk.inj (Option.some.inj h)
      exact hb

/-- Two attempts in a row come from a loop and one that continues it. -/
theorem run_step {turns : List Turn} {s : Loop A} {i : Nat} {a b : Sent} {t u : Turn}
    (hi : (run auth wire hops p s turns).1[i]? = some (a, t))
    (hj : (run auth wire hops p s turns).1[i + 1]? = some (b, u)) :
    ∃ s₁ s₂, s₁.send auth wire p t = some a ∧ Continues auth p s₁ t s₂ ∧ s₂.send auth wire p u = some b := by
  induction turns generalizing s i with
  | nil => simp [run] at hi
  | cons v turns ih =>
    rcases run_cons auth wire hops p s v turns with hr | ⟨c, hc, hr⟩ | ⟨c, s', hc, hs', hr⟩
    · rw [hr] at hi
      simp at hi
    · rw [hr] at hj
      simp at hj
    · rw [hr] at hi hj
      cases i with
      | zero =>
        obtain ⟨rfl, rfl⟩ := Prod.mk.inj (Option.some.inj hi)
        exact ⟨s, s', hc, hs', run_head hj⟩
      | succ i => exact ih hi hj

/-! ## What a loop sends -/

theorem send_eq_some {s : Loop A} {t : Turn} {a : Sent} (h : s.send auth wire p t = some a) :
    s.applied auth wire t.now = some a.applied ∧ a.reason = s.reason ∧ a.method = s.current.method ∧
    a.target = { s.current.target with query := (a.applied.getD {}).queryOn s.current.target.query } ∧
    a.configured = s.current.headers ∧
    a.headers = withCookies wire p.settings.cookies t.jar ((a.applied.getD {}).headersOn s.current.headers) ∧
    a.body = (a.applied.getD {}).bodyOn s.current.body ∧ a.version = s.version p ∧
    a.proxyHeader = (p.proxyHeader && sameListener s.current.target p.target) := by
  unfold Loop.send at h
  split at h
  · simp at h
  · next applied happ =>
    simp only at h
    split at h
    · obtain rfl := Option.some.inj h
      exact ⟨happ, rfl, rfl, rfl, rfl, rfl, rfl, rfl, rfl⟩
    · simp at h

/-- Auth is applied exactly where the loop has the credentials. -/
theorem applied_eq_none {s : Loop A} {now : Nat} {applied : Option Applied}
    (h : s.applied auth wire now = some applied) : applied = none ↔ s.current.withCredentials = false := by
  unfold Loop.applied at h
  split at h
  · next hc =>
    rw [hc]
    split at h
    · simp at h
    · split_ifs at h
      obtain rfl := Option.some.inj h
      simp
  · next hc =>
    obtain rfl := Option.some.inj h
    simpa using hc

/-! ## The end of the loop -/

/-- What is left of the continuations; a fallback is worth one attempt, any other two. -/
def Loop.budget (p : Prepared) (s : Loop A) : Nat :=
  2 * ((p.settings.redirects.max - s.redirects) + (p.settings.retries.maxRetries - s.retries) +
    (!s.dpopChallengeUsed).toNat + (!s.tooEarlyRetried).toNat + s.resent.isNone.toNat) +
    if isFallback s.reason then 1 else 2

theorem Continues.budget_lt {s s' : Loop A} {t : Turn} (h : Continues auth p s t s') : s'.budget p < s.budget p := by
  have hrank : 1 ≤ if isFallback s.reason then 1 else 2 := by split <;> omega
  unfold Loop.budget
  cases h with
  | redirect hresp hmax hbody =>
    simp only [Loop.hopped, isFallback_redirect, Bool.false_eq_true, if_false]
    omega
  | challenge hresp hused =>
    simp only [hused, isFallback_authChallenge, Bool.false_eq_true, if_false, Bool.not_false, Bool.not_true,
      Bool.toNat_true, Bool.toNat_false]
    omega
  | tooEarly hresp hretried =>
    simp only [hretried, isFallback_tooEarlyRetry, Bool.false_eq_true, if_false, Bool.not_false, Bool.not_true,
      Bool.toNat_true, Bool.toNat_false]
    omega
  | resend hclosed hresent hresp =>
    simp only [hresent, isFallback_resend, Option.isNone_some, Option.isNone_none, Bool.false_eq_true, if_false,
      Bool.toNat_true, Bool.toNat_false]
    omega
  | fallback hresp hversion hreason hsafe =>
    simp only [hreason, isFallback_protocolFallback, Bool.false_eq_true, if_true, if_false]
    omega
  | retry hresp hmax hsafe =>
    simp only [isFallback_retry, Bool.false_eq_true, if_false]
    omega

/-- A potential that every continuation to a kind of attempt pays one of bounds the attempts of the kind after the
first one. -/
theorem countP_run_le (kind : AttemptReason → Bool) (potential : Loop A → Nat)
    (hpay : ∀ s t s', Continues auth p s t s' → (if kind s'.reason then 1 else 0) + potential s' ≤ potential s) :
    ∀ (turns : List Turn) (s : Loop A),
      ((run auth wire hops p s turns).1.drop 1).countP (fun x => kind x.1.reason) ≤ potential s
  | [], s => by simp [run]
  | t :: turns, s => by
    rcases run_cons auth wire hops p s t turns with hr | ⟨b, hb, hr⟩ | ⟨b, s', hb, hc, hr⟩
    · simp [hr]
    · simp [hr]
    · have ih := countP_run_le kind potential hpay turns s'
      have hp := hpay s t s' hc
      rw [hr, List.drop_one, List.tail_cons]
      cases hl : (run auth wire hops p s' turns).1 with
      | nil => simp
      | cons x l =>
        have hx : x.1.reason = s'.reason := (send_eq_some (run_head (by rw [hl]; rfl))).2.1
        rw [hl, List.drop_one, List.tail_cons] at ih
        rw [List.countP_cons, hx]
        omega

/-- A run with more turns than the budget has ended, and never in a trap. -/
theorem run_ends : ∀ (turns : List Turn) (s : Loop A), (run auth wire hops p s turns).2 = .stopped ∨
    ∃ s', (run auth wire hops p s turns).2 = .running s' ∧ s'.budget p + turns.length ≤ s.budget p
  | [], s => .inr ⟨s, rfl, le_rfl⟩
  | t :: turns, s => by
    rcases run_cons auth wire hops p s t turns with hr | ⟨b, hb, hr⟩ | ⟨b, s', hb, hc, hr⟩
    · exact .inl (by rw [hr])
    · exact .inl (by rw [hr])
    · rw [hr]
      refine (run_ends turns s').imp id fun ⟨s'', hrun, hlen⟩ => ⟨s'', hrun, ?_⟩
      have hlt := hc.budget_lt
      rw [List.length_cons]
      omega

/-- The limit on the attempts of an execution. -/
def attemptLimit (p : Prepared) : Nat := 2 * (4 + p.settings.redirects.max + p.settings.retries.maxRetries)

theorem budget_start (a : A) : (Loop.start p a).budget p = attemptLimit p := by
  unfold Loop.budget attemptLimit Loop.start
  have hinitial : isFallback .initial = false := rfl
  simp only [hinitial, Option.isNone_none, Bool.not_false, Bool.toNat_true, Bool.false_eq_true, if_false]
  omega

def isRedirectReason : AttemptReason → Bool
  | .redirect _ => true
  | _ => false

def isRetryReason : AttemptReason → Bool
  | .retry _ => true
  | _ => false

def isChallengeReason : AttemptReason → Bool
  | .authChallenge _ => true
  | _ => false

def isResendReason : AttemptReason → Bool
  | .reusedConnectionClosed _ => true
  | _ => false

/-- The attempts of a kind, the first of the run not being one. -/
theorem countP_start_le (kind : AttemptReason → Bool) (hkind : kind .initial = false) (potential : Loop A → Nat)
    (hpay : ∀ s t s', Continues auth p s t s' → (if kind s'.reason then 1 else 0) + potential s' ≤ potential s)
    (turns : List Turn) (a : A) :
    (run auth wire hops p (Loop.start p a) turns).1.countP (fun x => kind x.1.reason) ≤ potential (Loop.start p a) := by
  have h : ((run auth wire hops p (Loop.start p a) turns).1.drop 1).countP (fun x => kind x.1.reason) ≤
      potential (Loop.start p a) := countP_run_le kind potential hpay turns _
  cases hl : (run auth wire hops p (Loop.start p a) turns).1 with
  | nil => simp
  | cons x l =>
    have hx : x.1.reason = .initial := (send_eq_some (run_head (by rw [hl]; rfl))).2.1
    rw [hl, List.drop_one, List.tail_cons] at h
    rw [List.countP_cons, hx, hkind]
    simpa using h

/-- Every run of the loop, from any request, auth and outcomes: it ends within its limit and without a trap; each
continuation has its own limit; a fallback follows an HTTP/3 attempt that is none itself; and after a request that may
have been processed nothing is sent again, unless the transport reported that it may be resent. -/
structure EndsSafely (p : Prepared) (turns : List Turn) (attempts : List (Sent × Turn)) (ending : Ending A) : Prop where
  limited : attempts.length ≤ attemptLimit p
  ended : attemptLimit p ≤ turns.length → ending = .stopped
  trapFree : ending ≠ .overflow
  redirects : attempts.countP (fun x => isRedirectReason x.1.reason) ≤ p.settings.redirects.max
  retries : attempts.countP (fun x => isRetryReason x.1.reason) ≤ p.settings.retries.maxRetries
  challenges : attempts.countP (fun x => isChallengeReason x.1.reason) ≤ 1
  tooEarly : attempts.countP (fun x => x.1.reason = .tooEarlyRetry) ≤ 1
  resends : attempts.countP (fun x => isResendReason x.1.reason) ≤ 1
  fallbacks : ∀ (i : Nat) (a b : Sent) (t u : Turn), attempts[i]? = some (a, t) → attempts[i + 1]? = some (b, u) →
    isFallback b.reason = true → a.version = .http3WithFallback ∧ isFallback a.reason = false
  noReplay : ∀ (i : Nat) (a b : Sent) (t u : Turn), attempts[i]? = some (a, t) → attempts[i + 1]? = some (b, u) →
    t.outcome.response = none → t.outcome.dispatch ≠ .notDispatched → isIdempotent a.method = false →
      t.outcome.resendOnNewConnection.isSome = true

/-- **The loop ends, within its limit, and never replays unsafely.** -/
theorem attempts_end_safely (auth : AuthOps A) (wire : Wire) (hops : Hops) (p : Prepared) (a : A) (turns : List Turn) :
    EndsSafely p turns (run auth wire hops p (Loop.start p a) turns).1
      (run auth wire hops p (Loop.start p a) turns).2 := by
  have hends : (run auth wire hops p (Loop.start p a) turns).2 = .stopped ∨
      ∃ s', (run auth wire hops p (Loop.start p a) turns).2 = .running s' ∧
        s'.budget p + turns.length ≤ (Loop.start p a).budget p := run_ends turns _
  have hpos : ∀ s : Loop A, 1 ≤ s.budget p := by
    intro s
    unfold Loop.budget
    split <;> omega
  rw [budget_start] at hends
  constructor
  case limited =>
    have h : ((run auth wire hops p (Loop.start p a) turns).1.drop 1).countP (fun _ => true) ≤
        (Loop.start p a).budget p - 1 := by
      refine countP_run_le (fun _ => true) (fun s => s.budget p - 1) (fun s t s' hc => ?_) turns _
      have hlt := hc.budget_lt
      have := hpos s'
      rw [if_pos rfl]
      omega
    have := hpos (Loop.start p a)
    rw [budget_start] at h this
    rw [List.countP_true, List.length_drop] at h
    omega
  case ended =>
    intro hlen
    rcases hends with h | ⟨s', -, h⟩
    · exact h
    · have := hpos s'
      omega
  case trapFree =>
    rcases hends with h | ⟨s', h, -⟩ <;> rw [h] <;> simp
  case redirects =>
    refine countP_start_le isRedirectReason rfl (fun s => p.settings.redirects.max - s.redirects) (fun s t s' hc => ?_)
      turns a
    cases hc <;> simp only [Loop.hopped, isRedirectReason, if_true, Bool.false_eq_true, if_false] <;> omega
  case retries =>
    refine countP_start_le isRetryReason rfl (fun s => p.settings.retries.maxRetries - s.retries) (fun s t s' hc => ?_)
      turns a
    cases hc <;> simp only [Loop.hopped, isRetryReason, if_true, Bool.false_eq_true, if_false] <;> omega
  case challenges =>
    refine countP_start_le isChallengeReason rfl (fun s => (!s.dpopChallengeUsed).toNat) (fun s t s' hc => ?_) turns a
    cases hc <;> simp_all [Loop.hopped, isChallengeReason]
  case tooEarly =>
    refine countP_start_le (fun r => r = .tooEarlyRetry) rfl (fun s => (!s.tooEarlyRetried).toNat) (fun s t s' hc => ?_)
      turns a
    cases hc <;> simp_all [Loop.hopped]
  case resends =>
    refine countP_start_le isResendReason rfl (fun s => s.resent.isNone.toNat) (fun s t s' hc => ?_) turns a
    cases hc <;> simp_all [Loop.hopped, isResendReason]
  case fallbacks =>
    intro i b c t u hb hc hf
    obtain ⟨s₁, s₂, h₁, hcont, h₂⟩ := run_step hb hc
    rw [(send_eq_some h₂).2.1] at hf
    rw [(send_eq_some h₁).2.1, (send_eq_some h₁).2.2.2.2.2.2.2.1]
    cases hcont with
    | fallback hresp hversion hreason hsafe => exact ⟨hversion, hreason⟩
    | redirect _ _ _ => simp [Loop.hopped] at hf
    | challenge _ _ => simp at hf
    | tooEarly _ _ => simp at hf
    | resend _ _ _ => simp at hf
    | retry _ _ _ => simp at hf
  case noReplay =>
    intro i b c t u hb hc hresp hdispatch hmethod
    obtain ⟨s₁, s₂, h₁, hcont, h₂⟩ := run_step hb hc
    rw [(send_eq_some h₁).2.2.1] at hmethod
    have hunsafe : ¬(t.outcome.dispatch = .notDispatched ∨ isIdempotent s₁.current.method = true) := by
      simp [hdispatch, hmethod]
    cases hcont with
    | redirect h _ _ => simp [hresp] at h
    | challenge h _ => simp [hresp] at h
    | tooEarly h _ => simp [hresp] at h
    | resend h _ _ => simp [h]
    | fallback _ _ _ hsafe => exact absurd hsafe hunsafe
    | retry _ _ hsafe => exact absurd hsafe hunsafe

/-! ## Credentials -/

/-- A configured header is a credential of the request's own origin. -/
def isCredential (p : Prepared) (h : Header) : Bool :=
  carriesCredential h p.sensitiveHeaders p.redactionNames p.usedSecrets

/-- What holds of the loop whatever was redirected where. Without credentials it has none of the configured ones and
no MCP session, and it always is without them at another origin. -/
structure Confined (p : Prepared) (s : Loop A) : Prop where
  configured : ∀ h ∈ s.current.headers, h ∈ p.headers
  stripped : s.current.withCredentials = false →
    ∀ h ∈ s.current.headers, isCredential p h = false ∧ isNamed "mcp-session-id" h = false
  away : s.current.target.origin ≠ p.target.origin → s.current.withCredentials = false ∧
    (s.current.body ≠ [] → p.bodyUsesSecret = false ∧ bodyCarriesSecret s.current.body p.usedSecrets = false)
  redirected : 0 < s.redirects → ∀ h ∈ s.current.headers, isNamed "host" h = false
  reason : isRedirectReason s.reason = true → 0 < s.redirects

theorem Confined.start (a : A) : Confined p (Loop.start p a) where
  configured _ hh := hh
  stripped h := absurd h (by simp [Loop.start])
  away h := absurd rfl h
  redirected h := absurd h (Nat.lt_irrefl 0)
  reason h := absurd h (by simp [Loop.start, isRedirectReason])

/-- A continuation that keeps the target, the headers and the body of the loop. -/
theorem Confined.same {s s' : Loop A} (h : Confined p s) (hcurrent : s'.current = s.current)
    (hredirects : s'.redirects = s.redirects) (hreason : isRedirectReason s'.reason = false) : Confined p s' where
  configured := by
    rw [hcurrent]
    exact h.configured
  stripped := by
    rw [hcurrent]
    exact h.stripped
  away := by
    rw [hcurrent]
    exact h.away
  redirected := by
    rw [hcurrent, hredirects]
    exact h.redirected
  reason hr := absurd hr (by simp [hreason])

theorem mem_keptHeaders {s : Loop A} {crossOrigin : Bool} {body : List UInt8} {h : Header}
    (hh : h ∈ s.keptHeaders crossOrigin body) :
    h ∈ s.current.headers ∧ isNamed "host" h = false ∧ (crossOrigin = true → isNamed "mcp-session-id" h = false) := by
  unfold Loop.keptHeaders at hh
  simp only at hh
  have hinner : h ∈ (if crossOrigin = true then
      (s.current.headers.filter fun h => !isNamed "host" h).filter fun h => !isNamed "mcp-session-id" h
      else s.current.headers.filter fun h => !isNamed "host" h) := by
    split at hh
    · exact List.mem_of_mem_filter hh
    · exact hh
  split at hinner
  · simp only [List.mem_filter, Bool.not_eq_true'] at hinner
    exact ⟨hinner.1.1, hinner.1.2, fun _ => hinner.2⟩
  · next hc =>
    simp only [List.mem_filter, Bool.not_eq_true'] at hinner
    exact ⟨hinner.1, hinner.2, fun h => absurd h hc⟩

theorem strips_eq (hforward : p.settings.redirects.forwardCredentialsCrossOrigin = false) (t : Target) :
    Loop.strips p t = decide (t.origin ≠ p.target.origin) := by
  rw [Loop.strips, hforward, Bool.not_false, Bool.and_true]

/-- The headers of a hop are headers of the loop it left, without `Host`. -/
theorem mem_hopped {s : Loop A} {status redirects : Nat} {t : Target} {h : Header}
    (hh : h ∈ (s.hopped p status t redirects).current.headers) :
    h ∈ s.current.headers ∧ isNamed "host" h = false ∧
      (Loop.strips p t = true → isCredential p h = false ∧ isNamed "mcp-session-id" h = false) := by
  unfold Loop.hopped at hh
  simp only at hh
  by_cases hstrip : Loop.strips p t = true
  · rw [if_pos hstrip, Loop.withoutCredentials, List.mem_filter, Bool.not_eq_true'] at hh
    obtain ⟨hkept, hcred⟩ := hh
    obtain ⟨hmem, hhost, hmcp⟩ := mem_keptHeaders hkept
    have hcross : decide (t.origin ≠ p.target.origin) = true := by
      rw [Loop.strips, Bool.and_eq_true] at hstrip
      exact hstrip.1
    exact ⟨hmem, hhost, fun _ => ⟨hcred, hmcp hcross⟩⟩
  · rw [if_neg hstrip] at hh
    obtain ⟨hmem, hhost, -⟩ := mem_keptHeaders hh
    exact ⟨hmem, hhost, fun h => absurd h hstrip⟩

theorem Confined.hopped {s : Loop A} (h : Confined p s)
    (hforward : p.settings.redirects.forwardCredentialsCrossOrigin = false) {status : Nat} {t : Target}
    (hbody : Loop.strips p t = true → (s.redirected status).2 ≠ [] →
      p.bodyUsesSecret = false ∧ bodyCarriesSecret (s.redirected status).2 p.usedSecrets = false) :
    Confined p (s.hopped p status t (s.redirects + 1)) where
  configured g hg := h.configured g (mem_hopped hg).1
  stripped hwith g hg := by
    obtain ⟨hmem, -, hstrip⟩ := mem_hopped hg
    by_cases hs : Loop.strips p t = true
    · exact hstrip hs
    · refine h.stripped ?_ g hmem
      have hw : (s.current.withCredentials && !Loop.strips p t) = false := hwith
      simpa [hs] using hw
  away haway := by
    have haway' : t.origin ≠ p.target.origin := haway
    have hs : Loop.strips p t = true := by simp [strips_eq hforward, haway']
    refine ⟨?_, fun hne => hbody hs hne⟩
    show (s.current.withCredentials && !Loop.strips p t) = false
    simp [hs]
  redirected _ g hg := (mem_hopped hg).2.1
  reason _ := Nat.succ_pos _

theorem Confined.continues {s s' : Loop A} {t : Turn} (h : Confined p s)
    (hforward : p.settings.redirects.forwardCredentialsCrossOrigin = false) (hc : Continues auth p s t s') :
    Confined p s' := by
  cases hc with
  | redirect _ _ hbody => exact h.hopped hforward hbody
  | challenge _ _ => exact h.same rfl rfl rfl
  | tooEarly _ _ => exact h.same rfl rfl rfl
  | resend _ _ _ => exact h.same rfl rfl rfl
  | fallback _ _ _ _ => exact h.same rfl rfl rfl
  | retry _ _ _ => exact h.same rfl rfl rfl

/-- The credentials that were taken out, and a redirect that was followed, stay so. -/
theorem Continues.sticky {s s' : Loop A} {t : Turn} (hc : Continues auth p s t s') :
    (s.current.withCredentials = false → s'.current.withCredentials = false) ∧ (0 < s.redirects → 0 < s'.redirects) := by
  cases hc with
  | redirect _ _ _ => exact ⟨fun h => by simp [Loop.hopped, h], fun _ => Nat.succ_pos _⟩
  | challenge _ _ => exact ⟨id, id⟩
  | tooEarly _ _ => exact ⟨id, id⟩
  | resend _ _ _ => exact ⟨id, id⟩
  | fallback _ _ _ _ => exact ⟨id, id⟩
  | retry _ _ _ => exact ⟨id, id⟩

/-- What a loop with a property of its own has at one attempt it has at every later one. -/
theorem run_sticky {turns : List Turn} {s : Loop A} {i j : Nat} {a b : Sent} {t u : Turn} (hij : j ≤ i)
    (hj : (run auth wire hops p s turns).1[j]? = some (b, u)) (hi : (run auth wire hops p s turns).1[i]? = some (a, t))
    (Inv Kept : Loop A → Prop) (hs : Inv s) (hinv : ∀ s t s', Continues auth p s t s' → Inv s → Inv s')
    (hkept : ∀ s t s', Continues auth p s t s' → Kept s → Kept s')
    (hsend : ∀ s, Inv s → s.send auth wire p u = some b → Kept s) :
    ∃ s', Inv s' ∧ Kept s' ∧ s'.send auth wire p t = some a := by
  induction turns generalizing s i j with
  | nil => simp [run] at hi
  | cons v turns ih =>
    rcases run_cons auth wire hops p s v turns with hr | ⟨c, hc, hr⟩ | ⟨c, s', hc, hs', hr⟩
    · rw [hr] at hi
      simp at hi
    · cases i with
      | zero =>
        obtain rfl := Nat.le_zero.1 hij
        rw [hj] at hi
        obtain ⟨rfl, rfl⟩ := Prod.mk.inj (Option.some.inj hi)
        exact ⟨s, hs, hsend s hs (run_head hj), run_head hj⟩
      | succ i =>
        rw [hr] at hi
        simp at hi
    · cases j with
      | succ j =>
        cases i with
        | zero => exact absurd hij (Nat.not_succ_le_zero j)
        | succ i =>
          rw [hr] at hi hj
          exact ih (Nat.le_of_succ_le_succ hij) hj hi (hinv s v s' hs' hs)
      | zero =>
        have hkeep : Kept s := hsend s hs (run_head hj)
        obtain ⟨s'', ⟨hinv'', hkept''⟩, hsent⟩ := run_reaches hi (fun s => Inv s ∧ Kept s) ⟨hs, hkeep⟩
          fun s t s' hc h => ⟨hinv s t s' hc h.1, hkept s t s' hc h.2⟩
        exact ⟨s'', hinv'', hkept'', hsent⟩

/-- An attempt up to the `i`th one went to another origin. -/
def Crossed (p : Prepared) (attempts : List (Sent × Turn)) (i : Nat) : Prop :=
  ∃ j ≤ i, ∃ b u, attempts[j]? = some (b, u) ∧ b.target.origin ≠ p.target.origin

/-- An attempt up to the `i`th one followed a redirect. -/
def Redirected (attempts : List (Sent × Turn)) (i : Nat) : Prop :=
  ∃ j ≤ i, ∃ b u, attempts[j]? = some (b, u) ∧ isRedirectReason b.reason = true

/-- What an attempt carries, from what went before it. -/
structure CarriesNoCredential (p : Prepared) (attempts : List (Sent × Turn)) (i : Nat) (a : Sent) (t : Turn) : Prop where
  configured : ∀ h ∈ a.configured, h ∈ p.headers
  /-- At or after another origin: no auth, no configured credential and no MCP session; all that is sent is configured
  or a `Cookie` header with cookies of the jar. -/
  crossed : Crossed p attempts i → a.applied = none ∧ (∀ h ∈ a.configured, isCredential p h = false) ∧
    (∀ h ∈ a.headers, isNamed "mcp-session-id" h = false) ∧
    ∀ h ∈ a.headers, h ∈ a.configured ∨ ∃ (stored : Text) (pairs : List Text), t.jar = some stored ∧
      pairs.Sublist (cookiePairs stored) ∧ h = ("Cookie".toList, "; ".toList.intercalate pairs)
  body : a.target.origin ≠ p.target.origin → a.body ≠ [] →
    p.bodyUsesSecret = false ∧ bodyCarriesSecret a.body p.usedSecrets = false
  /-- After a redirect a `Host` header is never the configured one. -/
  host : Redirected attempts i → (∀ h ∈ a.configured, isNamed "host" h = false) ∧
    ∀ h ∈ a.headers, isNamed "host" h = true → ∃ x, a.applied = some x ∧ h ∈ x.setHeaders
  proxyHeader : a.proxyHeader = true ↔ p.proxyHeader = true ∧ sameListener a.target p.target = true

/-- A sent header is configured, set by auth, or a `Cookie` header. -/
theorem mem_sent_headers {s : Loop A} {t : Turn} {a : Sent} (h : s.send auth wire p t = some a) {g : Header}
    (hg : g ∈ a.headers) :
    g ∈ a.configured ∨ (∃ x, a.applied = some x ∧ g ∈ x.setHeaders) ∨ isNamed "cookie" g = true := by
  obtain ⟨-, -, -, -, hconf, hheaders, -⟩ := send_eq_some h
  rw [hheaders] at hg
  rw [hconf]
  rcases mem_withCookies hg with hg | hg
  · rcases mem_headersOn hg with hg | hg
    · exact .inl hg
    · refine .inr (.inl ?_)
      cases ha : a.applied with
      | none => simp [ha] at hg
      | some x => exact ⟨x, rfl, by simpa [ha] using hg⟩
  · exact .inr (.inr hg)

theorem send_stripped {s : Loop A} {t : Turn} {a : Sent} (hs : Confined p s) (hwith : s.current.withCredentials = false)
    (h : s.send auth wire p t = some a) : a.applied = none ∧ (∀ h ∈ a.configured, isCredential p h = false) ∧
    (∀ h ∈ a.headers, isNamed "mcp-session-id" h = false) ∧
    ∀ h ∈ a.headers, h ∈ a.configured ∨ ∃ (stored : Text) (pairs : List Text), t.jar = some stored ∧
      pairs.Sublist (cookiePairs stored) ∧ h = ("Cookie".toList, "; ".toList.intercalate pairs) := by
  obtain ⟨happ, -, -, -, hconf, hheaders, -⟩ := send_eq_some h
  have hnone : a.applied = none := (applied_eq_none happ).2 hwith
  have hcred : ∀ g ∈ a.configured, isCredential p g = false ∧ isNamed "mcp-session-id" g = false := by
    rw [hconf]
    exact hs.stripped hwith
  have hcookie : ∀ g ∈ a.configured, isNamed "cookie" g = false := by
    intro g hg
    by_contra hc
    have hyes : isCredential p g = true := carriesCredential_cookie (by simpa using hc) _ _ _
    rw [(hcred g hg).1] at hyes
    exact absurd hyes (by simp)
  have hfrom : ∀ g ∈ a.headers, g ∈ a.configured ∨ ∃ (stored : Text) (pairs : List Text), t.jar = some stored ∧
      pairs.Sublist (cookiePairs stored) ∧ g = ("Cookie".toList, "; ".toList.intercalate pairs) := by
    intro g hg
    rw [hheaders, hnone, ← hconf] at hg
    exact mem_withCookies_of_none hcookie hg
  refine ⟨hnone, fun g hg => (hcred g hg).1, fun g hg => ?_, hfrom⟩
  rcases hfrom g hg with hg | ⟨stored, pairs, -, -, rfl⟩
  · exact (hcred g hg).2
  · have hname : eqIgnoreCase "Cookie".toList "mcp-session-id".toList = false := by decide
    exact hname

/-- **Credentials do not leave the request's own origin on a redirect**, whatever the attempts are answered with. -/
theorem credentials_confined (auth : AuthOps A) (wire : Wire) (hops : Hops) (p : Prepared) (a₀ : A)
    (hforward : p.settings.redirects.forwardCredentialsCrossOrigin = false) (turns : List Turn) :
    ∀ (i : Nat) (a : Sent) (t : Turn), (run auth wire hops p (Loop.start p a₀) turns).1[i]? = some (a, t) →
      CarriesNoCredential p (run auth wire hops p (Loop.start p a₀) turns).1 i a t := by
  intro i a t hi
  have hstep : ∀ s t s', Continues auth p s t s' → Confined p s → Confined p s' :=
    fun s t s' hc h => h.continues hforward hc
  obtain ⟨s, hs, hsend⟩ := run_reaches hi (Confined p) (.start a₀) hstep
  obtain ⟨happ, -, -, htarget, hconf, -, hbody, -, hproxy⟩ := send_eq_some hsend
  have horigin : a.target.origin = s.current.target.origin := by
    rw [htarget]
    rfl
  constructor
  case configured =>
    rw [hconf]
    exact hs.configured
  case crossed =>
    rintro ⟨j, hij, b, u, hj, haway⟩
    obtain ⟨s', hs', hwith, hsend'⟩ := run_sticky hij hj hi (Confined p) (fun s => s.current.withCredentials = false)
      (.start a₀) hstep (fun s t s' hc => hc.sticky.1) fun s hs hb => by
        refine (hs.away fun he => haway ?_).1
        rw [(send_eq_some hb).2.2.2.1]
        exact he
    exact send_stripped hs' hwith hsend'
  case body =>
    intro haway hne
    rw [horigin] at haway
    obtain ⟨hwith, hsecret⟩ := hs.away haway
    have hnone : a.applied = none := (applied_eq_none happ).2 hwith
    have hb : a.body = s.current.body := by
      rw [hbody, hnone]
      rfl
    rw [hb] at hne ⊢
    exact hsecret hne
  case host =>
    rintro ⟨j, hij, b, u, hj, hred⟩
    obtain ⟨s', hs', hpos, hsend'⟩ := run_sticky hij hj hi (Confined p) (fun s => 0 < s.redirects) (.start a₀) hstep
      (fun s t s' hc => hc.sticky.2) fun s hs hb => hs.reason (by rw [← (send_eq_some hb).2.1]; exact hred)
    have hhost : ∀ h ∈ a.configured, isNamed "host" h = false := by
      rw [(send_eq_some hsend').2.2.2.2.1]
      exact hs'.redirected hpos
    refine ⟨hhost, fun h hh hn => ?_⟩
    rcases mem_sent_headers hsend' hh with hc | hx | hk
    · rw [hhost h hc] at hn
      exact absurd hn (by simp)
    · exact hx
    · have hlow : lower h.1 = "cookie".toList := eqIgnoreCase_iff.1 hk
      have hlow' : lower h.1 = "host".toList := eqIgnoreCase_iff.1 hn
      exact absurd (hlow.symm.trans hlow') (by decide)
  case proxyHeader =>
    have hlisten : sameListener a.target p.target = sameListener s.current.target p.target := by
      rw [htarget]
      rfl
    rw [hproxy, hlisten, Bool.and_eq_true]

end Runs

/-! ## A redirect to another origin -/

def sampleTarget (host : String) : Target where
  scheme := "https".toList
  host := host.toList
  port := 443
  authority := host.toList
  path := "/".toList
  query := []

def samplePrepared : Prepared where
  method := "GET".toList
  target := sampleTarget "a.test"
  headers := [("Accept".toList, "*/*".toList), ("X-Key".toList, "k".toList), ("Host".toList, "v.test".toList)]
  sensitiveHeaders := []
  body := []
  bodyUsesSecret := false
  proxyHeader := true
  settings :=
    { redirects := ⟨true, 10, false, by decide⟩
      retries := ⟨0, 0, by decide, by decide⟩
      httpVersion := .auto
      earlyData := ⟨false, []⟩
      cookies := true }
  redactionNames := []
  usedSecrets := []

def sampleAuth : AuthOps Unit where
  apply _ _ _ := some { setHeaders := [("Authorization".toList, "Bearer t".toList)] }
  isDpop _ := false
  withNonce _ _ := ()

def sampleWire : Wire := ⟨fun _ => true, fun _ => true, fun _ => false⟩

def sampleTurn (response : Response) : Turn where
  now := 0
  jar := none
  outcome := ⟨some response, none, .sent, none⟩
  proxyPrepared := true
  tlsPrepared := true
  canceled := false
  backoffCanceled := false

def sampleTurns : List Turn :=
  [sampleTurn ⟨302, [("Location".toList, "https://b.test/".toList)]⟩, sampleTurn ⟨200, []⟩]

def sampleRun : List (Sent × Turn) × Ending Unit :=
  run sampleAuth sampleWire (fun _ _ => some (sampleTarget "b.test")) samplePrepared
    (Loop.start samplePrepared ()) sampleTurns

theorem credentials_confined_sample : ∃ a t, sampleRun.1[1]? = some (a, t) ∧ a.headers = [("Accept".toList, "*/*".toList)] ∧
    a.applied = none ∧ (∀ h ∈ a.configured, isCredential samplePrepared h = false) ∧ a.proxyHeader = false := by
  obtain ⟨⟨a, t⟩, hi⟩ : ∃ x, sampleRun.1[1]? = some x := Option.isSome_iff_exists.1 (by decide)
  have hheaders : sampleRun.1[1]?.map (fun x => x.1.headers) = some [("Accept".toList, "*/*".toList)] := by decide
  have haway : sampleRun.1[1]?.map (fun x => x.1.target.origin) = some ("https".toList, "b.test".toList, 443) := by decide
  have hlisten : sampleRun.1[1]?.map (fun x => sameListener x.1.target samplePrepared.target) = some false := by decide
  rw [hi] at hheaders haway hlisten
  have horigin : a.target.origin ≠ samplePrepared.target.origin := by
    have he : a.target.origin = ("https".toList, "b.test".toList, 443) := Option.some.inj haway
    rw [he]
    decide
  have h := credentials_confined sampleAuth sampleWire (fun _ _ => some (sampleTarget "b.test")) samplePrepared () rfl
    sampleTurns 1 a t hi
  obtain ⟨happ, hcred, -, -⟩ := h.crossed ⟨1, le_rfl, a, t, hi, horigin⟩
  refine ⟨a, t, hi, Option.some.inj hheaders, happ, hcred, ?_⟩
  by_contra hp
  have hno : sameListener a.target samplePrepared.target = false := Option.some.inj hlisten
  have hyes := (h.proxyHeader.1 (by simpa using hp)).2
  rw [hno] at hyes
  exact absurd hyes (by simp)

end Anvil.Engine
