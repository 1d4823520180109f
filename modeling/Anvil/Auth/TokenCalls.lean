import Anvil.Auth.TokenCache

/-!
# Calls on the token cache (`anvil-auth/src/oauth.rs`)

Any number of acquisitions, refresh tasks and sign-ins on one `TokenCache`. A step is one critical section of the state
lock or of the map of single-flight locks, taking or handing over a single-flight lock, or an answer of the issuer.

* `Phase` : where a call is between two of its critical sections; `TaskPhase` : the same for a refresh task;
* `Sys.advance` : a call goes on, and drops the guard that its next phase does not keep;
* `firstPhase`, `recheckPhase`, `conclusion` : what `acquire_in` and the refresh task decide in a critical section;
* `step`, `run` : one step of the system, and several; `bumps` counts the generations that a run starts.
-/

namespace Anvil.Auth
open Anvil.Lib

/-- The configuration, as far as the cache reads it. -/
structure OAuthResolved where
  grant : OAuthGrant
  refreshSkewSecs : Int
deriving DecidableEq

/-- Where a call is. -/
inductive Phase
  /-- A generation was taken for `get_or_acquire_since`. -/
  | taken
  | toLock
  | waiting (lock : Nat)
  | locked (lock : Nat)
  /-- The generation moved on: the call is about to be answered as superseded. -/
  | overtaken (lock : Option Nat)
  | registering (lock : Nat) (rt : Text)
  | awaiting (task : Nat)
  | requesting (lock : Nat)
  | storing (lock : Nat) (t : CachedToken)
  | answered (r : Except AuthError CachedToken)
  /-- A sign-in between `sign_in_generation` and `store_sign_in`. -/
  | redeeming
  | signedIn (stored : Bool)
  | dropped

structure Call where
  key : TokenKey
  cfg : OAuthResolved
  generation : Generation
  phase : Phase

/-- The single-flight lock whose guard a call holds. -/
def Phase.guard : Phase → Option Nat
  | .locked l => some l
  | .overtaken l => l
  | .registering l _ => some l
  | .requesting l => some l
  | .storing l _ => some l
  | _ => none

/-- A phase in which a call can begin. -/
def Phase.isFirst : Phase → Bool
  | .taken => true
  | .toLock => true
  | .answered _ => true
  | .redeeming => true
  | _ => false

/-- What a refresh task hands back; the guard of `fallback` is the task's. -/
inductive Refreshed
  | done (r : Except AuthError CachedToken)
  | fallback

inductive TaskPhase
  | asking
  | answered (a : Except TokenFailure CachedToken)
  /-- `refresh_finished` is through. -/
  | finished (a : Except TokenFailure CachedToken)
  | ended (r : Refreshed)
  | cancelled
  | panicked (message : Text)
  /-- The output was taken or dropped. -/
  | joined

/-- What the caller makes of the end of the task, a fallback apart. -/
def TaskPhase.result : TaskPhase → Option (Except AuthError CachedToken)
  | .ended (.done r) => some r
  | .cancelled => some (.error superseded)
  | .panicked message => some (.error (.acquisition ("the token refresh ended unexpectedly: ".toList ++ message)))
  | _ => none

structure Task where
  caller : Nat
  key : TokenKey
  cfg : OAuthResolved
  generation : Generation
  rt : Text
  lock : Nat
  id : Nat
  phase : TaskPhase

/-- Who holds a single-flight lock. -/
inductive Party
  | call (i : Nat)
  | task (t : Nat)
deriving DecidableEq

/-- A token written for a key, and the generation of the writer. -/
structure Stored where
  key : TokenKey
  generation : Generation
  token : CachedToken
  bySignIn : Bool
deriving DecidableEq

structure Sys where
  st : CacheState := {}
  locks : TokenKey → Option Nat := fun _ => none
  nextLock : Nat := 0
  held : Nat → Option Party := fun _ => none
  calls : Nat → Option Call := fun _ => none
  tasks : Nat → Option Task := fun _ => none
  aborted : List Nat := []
  /-- The partitions of the `clear_partition` calls between their two critical sections. -/
  clearing : List Text := []
  /-- History: every token written to the entries, in order. -/
  stored : List Stored := []

namespace Sys

def setCall (s : Sys) (i : Nat) (c : Call) : Sys := { s with calls := Function.update s.calls i (some c) }

def setTask (s : Sys) (t : Nat) (k : Task) : Sys := { s with tasks := Function.update s.tasks t (some k) }

def setHeld (s : Sys) (l : Nat) (x : Option Party) : Sys := { s with held := Function.update s.held l x }

def release (s : Sys) (guard : Option Nat) : Sys :=
  match guard with
  | some l => s.setHeld l none
  | none => s

/-- Call `i` goes on to `phase`; a guard that this phase does not keep is dropped. -/
def advance (s : Sys) (i : Nat) (c : Call) (phase : Phase) : Sys :=
  (if phase.guard = none then s.release c.phase.guard else s).setCall i { c with phase := phase }

def write (s : Sys) (st : CacheState) (w : Option Stored) : Sys := { s with st := st, stored := s.stored ++ w.toList }

end Sys

/-! ## The decisions of `acquire_in` -/

section Decisions
variable [Chrono]

/-- Before the single-flight lock. -/
def firstPhase (st : CacheState) (c : Call) (now : Int) : Phase :=
  match st.entries c.key with
  | some t => if t.usable now c.cfg.refreshSkewSecs then .answered (.ok t) else .toLock
  | none => .toLock

/-- `get_or_acquire_since`. -/
def sincePhase (st : CacheState) (c : Call) (now : Int) : Phase :=
  if st.generationOf c.key ≠ c.generation then .overtaken none else firstPhase st c now

/-- Without a refresh token: only client credentials can go on without the user. -/
def grantPhase (c : Call) (l : Nat) : Phase :=
  if c.cfg.grant ≠ .clientCredentials then
    .answered (.error (.interactionRequired (interactionMessage c.cfg.grant none)))
  else .requesting l

/-- With the single-flight lock. -/
def recheckPhase (st : CacheState) (c : Call) (l : Nat) (now : Int) : Phase :=
  if st.generationOf c.key ≠ c.generation then .overtaken (some l)
  else
    match st.entries c.key with
    | some t =>
      if t.usable now c.cfg.refreshSkewSecs then .answered (.ok t)
      else
        match t.refreshToken with
        | some rt => .registering l rt
        | none => grantPhase c l
    | none => grantPhase c l

/-- The refreshed token keeps the old refresh token where the issuer sent none. -/
def keepRefreshToken (t : CachedToken) (rt : Text) : CachedToken :=
  if t.refreshToken.isNone then { t with refreshToken := some rt } else t

/-- The token is stored and answered, unless the generation moved on. -/
def storeToken (st : CacheState) (key : TokenKey) (generation : Generation) (skew : Int) (t : CachedToken) (now : Int) :
    CacheState × Except AuthError CachedToken × Option Stored :=
  if (st.insertIfCurrent key generation t).2 then
    ((st.insertIfCurrent key generation t).1, .ok t, some ⟨key, generation, t, false⟩)
  else (st, st.supersededAnswer key generation skew now, none)

/-- The end of a refresh task. -/
def conclusion (st : CacheState) (k : Task) (now : Int) :
    Except TokenFailure CachedToken → CacheState × Refreshed × Option Stored
  | .ok t =>
    let (st', r, w) := storeToken st k.key k.generation k.cfg.refreshSkewSecs (keepRefreshToken t k.rt) now
    (st', .done r, w)
  | .error f =>
    if k.cfg.grant = .clientCredentials then (st, .fallback, none)
    else
      match f with
      | .rejected status error description =>
        if error = "invalid_grant".toList then
          (st.forgetRejectedRefresh k.key k.generation k.rt,
            .done (.error (.interactionRequired (interactionMessage k.cfg.grant (some error)))), none)
        else (st, .done (.error (TokenFailure.rejected status error description).toAuthError), none)
      | f => (st, .done (.error f.toAuthError), none)

end Decisions

/-! ## Steps -/

inductive Action
  /-- `get_or_acquire` with its snapshot. -/
  | start (i : Nat) (key : TokenKey) (cfg : OAuthResolved) (now : Int)
  | takeGeneration (i : Nat) (key : TokenKey) (cfg : OAuthResolved)
  /-- `get_or_acquire_since` with its snapshot. -/
  | startSince (i : Nat) (now : Int)
  | lockFor (i : Nat)
  | acquire (i : Nat)
  | recheck (i : Nat) (now : Int)
  | answerSuperseded (i : Nat) (now : Int)
  | register (i : Nat) (task : Nat) (now : Int)
  | respond (t : Nat) (a : Except TokenFailure CachedToken)
  | refreshFinished (t : Nat)
  | conclude (t : Nat) (now : Int)
  | cancel (t : Nat)
  | panic (t : Nat) (message : Text)
  | join (i : Nat)
  | clientCredentials (i : Nat) (a : Except TokenFailure CachedToken)
  | store (i : Nat) (now : Int)
  | signInGeneration (i : Nat) (key : TokenKey) (cfg : OAuthResolved)
  | storeSignIn (i : Nat) (t : CachedToken)
  /-- The caller stops waiting. -/
  | drop (i : Nat)
  | wipe (w : Wipe)
  /-- The second half of `clear_partition`. -/
  | dropLocks (partition : Text)

namespace Sys

/-- A new call, of the generation that is current. -/
def begin (s : Sys) (i : Nat) (key : TokenKey) (cfg : OAuthResolved) (phase : Call → Phase) : Option Sys :=
  match s.calls i with
  | some _ => none
  | none =>
    let c : Call := ⟨key, cfg, s.st.generationOf key, .taken⟩
    some (s.setCall i { c with phase := phase c })

/-- `lock_for`, and the call queues on the lock. -/
def lockFor (s : Sys) (i : Nat) (c : Call) : Sys :=
  match s.locks c.key with
  | some l => s.advance i c (.waiting l)
  | none =>
    { s.advance i c (.waiting s.nextLock) with
      locks := Function.update s.locks c.key (some s.nextLock)
      nextLock := s.nextLock + 1 }

variable [Chrono]

/-- The registration of a refresh: its task takes the guard over. -/
def register (s : Sys) (i : Nat) (c : Call) (l : Nat) (rt : Text) (t : Nat) (now : Int) : Sys :=
  if s.st.generationOf c.key ≠ c.generation then
    s.advance i c (.answered (s.st.supersededAnswer c.key c.generation c.cfg.refreshSkewSecs now))
  else
    let st := s.st.registerRefresh c.key t
    { ((s.setCall i { c with phase := .awaiting t }).setTask t
        ⟨i, c.key, c.cfg, c.generation, rt, l, st.nextRefresh, .asking⟩).setHeld l (some (.task t)) with st := st }

/-- Whether the output of task `t` is still waited for. -/
def awaits (s : Sys) (i t : Nat) : Bool :=
  match (s.calls i).map Call.phase with
  | some (.awaiting t') => t' = t
  | _ => false

/-- The phase in which a task ends; an output nobody waits for is dropped, and a guard with it. -/
def conclude (s : Sys) (t : Nat) (k : Task) (a : Except TokenFailure CachedToken) (now : Int) : Sys :=
  let (st, r, w) := conclusion s.st k now a
  match s.awaits k.caller t, r with
  | true, .fallback => (s.setTask t { k with phase := .ended .fallback }).write st w
  | true, .done r => ((s.setHeld k.lock none).setTask t { k with phase := .ended (.done r) }).write st w
  | false, _ => ((s.setHeld k.lock none).setTask t { k with phase := .joined }).write st w

def join (s : Sys) (i : Nat) (c : Call) (t : Nat) (k : Task) : Option Sys :=
  match k.phase with
  | .ended .fallback => some (((s.setTask t { k with phase := .joined }).setCall i
      { c with phase := .requesting k.lock }).setHeld k.lock (some (.call i)))
  | phase => phase.result.map fun r =>
      (s.setTask t { k with phase := .joined }).setCall i { c with phase := .answered r }

/-- The output of a task whose caller is gone: dropped once it is there. -/
def detach (s : Sys) (t : Nat) : Sys :=
  match s.tasks t with
  | some k =>
    match k.phase with
    | .ended .fallback => (s.setHeld k.lock none).setTask t { k with phase := .joined }
    | _ => s
  | none => s

def drop (s : Sys) (i : Nat) (c : Call) : Option Sys :=
  match c.phase with
  | .taken => some (s.advance i c .dropped)
  | .waiting _ => some (s.advance i c .dropped)
  | .requesting _ => some (s.advance i c .dropped)
  | .redeeming => some (s.advance i c .dropped)
  | .awaiting t => some ((s.detach t).setCall i { c with phase := .dropped })
  | _ => none

def storeCall (s : Sys) (i : Nat) (c : Call) (t : CachedToken) (now : Int) : Sys :=
  let (st, r, w) := storeToken s.st c.key c.generation c.cfg.refreshSkewSecs t now
  (s.advance i c (.answered r)).write st w

def storeSignIn (s : Sys) (i : Nat) (c : Call) (t : CachedToken) : Sys :=
  let (st, stored) := s.st.storeSignIn c.key c.generation t
  (s.setCall i { c with phase := .signedIn stored }).write st
    (if stored then some ⟨c.key, c.generation, t, true⟩ else none)

def wipe (s : Sys) (w : Wipe) : Sys :=
  { s with
    st := (s.st.wipe w).1
    aborted := s.aborted ++ (s.st.wipe w).2
    clearing := match w with
      | .clearPartition p => p :: s.clearing
      | _ => s.clearing }

def dropLocks (s : Sys) (p : Text) : Sys :=
  { s with
    locks := fun k => if k.partition = p then none else s.locks k
    clearing := s.clearing.erase p }

end Sys

section Step
variable [Chrono]

/-- A step of the call `i`. -/
def stepCall (s : Sys) (i : Nat) (c : Call) : Action → Option Sys
  | .startSince _ now =>
    match c.phase with
    | .taken => some (s.advance i c (sincePhase s.st c now))
    | _ => none
  | .lockFor _ =>
    match c.phase with
    | .toLock => some (s.lockFor i c)
    | _ => none
  | .acquire _ =>
    match c.phase with
    | .waiting l => if s.held l = none then some ((s.setHeld l (some (.call i))).setCall i { c with phase := .locked l }) else
      none
    | _ => none
  | .recheck _ now =>
    match c.phase with
    | .locked l => some (s.advance i c (recheckPhase s.st c l now))
    | _ => none
  | .answerSuperseded _ now =>
    match c.phase with
    | .overtaken _ =>
      some (s.advance i c (.answered (s.st.supersededAnswer c.key c.generation c.cfg.refreshSkewSecs now)))
    | _ => none
  | .register _ t now =>
    match c.phase, s.tasks t with
    | .registering l rt, none => some (s.register i c l rt t now)
    | _, _ => none
  | .join _ =>
    match c.phase with
    | .awaiting t => (s.tasks t).bind fun k => s.join i c t k
    | _ => none
  | .clientCredentials _ a =>
    match c.phase, a with
    | .requesting l, .ok t => some (s.advance i c (.storing l t))
    | .requesting _, .error f => some (s.advance i c (.answered (.error f.toAuthError)))
    | _, _ => none
  | .store _ now =>
    match c.phase with
    | .storing _ t => some (s.storeCall i c t now)
    | _ => none
  | .storeSignIn _ t =>
    match c.phase with
    | .redeeming => some (s.storeSignIn i c t)
    | _ => none
  | .drop _ => s.drop i c
  | _ => none

/-- A step of the refresh task `t`. -/
def stepTask (s : Sys) (t : Nat) (k : Task) : Action → Option Sys
  | .respond _ a =>
    match k.phase with
    | .asking => some (s.setTask t { k with phase := .answered a })
    | _ => none
  | .refreshFinished _ =>
    match k.phase with
    | .answered a => some { s.setTask t { k with phase := .finished a } with st := s.st.refreshFinished k.key k.id }
    | _ => none
  | .conclude _ now =>
    match k.phase with
    | .finished a => some (s.conclude t k a now)
    | _ => none
  | .cancel _ =>
    match k.phase with
    | .asking => if s.aborted.contains t then some ((s.setHeld k.lock none).setTask t { k with phase := .cancelled }) else
      none
    | _ => none
  | .panic _ message =>
    match k.phase with
    | .asking => some ((s.setHeld k.lock none).setTask t { k with phase := .panicked message })
    | _ => none
  | _ => none

/-- The call or task that takes the step. -/
def Action.party : Action → Option Party
  | .start i _ _ _ => some (.call i)
  | .takeGeneration i _ _ => some (.call i)
  | .startSince i _ => some (.call i)
  | .lockFor i => some (.call i)
  | .acquire i => some (.call i)
  | .recheck i _ => some (.call i)
  | .answerSuperseded i _ => some (.call i)
  | .register i _ _ => some (.call i)
  | .respond t _ => some (.task t)
  | .refreshFinished t => some (.task t)
  | .conclude t _ => some (.task t)
  | .cancel t => some (.task t)
  | .panic t _ => some (.task t)
  | .join i => some (.call i)
  | .clientCredentials i _ => some (.call i)
  | .store i _ => some (.call i)
  | .signInGeneration i _ _ => some (.call i)
  | .storeSignIn i _ => some (.call i)
  | .drop i => some (.call i)
  | .wipe _ => none
  | .dropLocks _ => none

/-- A step of the system; `none` where it cannot be taken. -/
def step (s : Sys) (a : Action) : Option Sys :=
  match a with
  | .start i key cfg now => s.begin i key cfg fun c => firstPhase s.st c now
  | .takeGeneration i key cfg => s.begin i key cfg fun _ => .taken
  | .signInGeneration i key cfg => s.begin i key cfg fun _ => .redeeming
  | .wipe w => some (s.wipe w)
  | .dropLocks p => if s.clearing.contains p then some (s.dropLocks p) else none
  | a =>
    match a.party with
    | some (.call i) => (s.calls i).bind fun c => stepCall s i c a
    | some (.task t) => (s.tasks t).bind fun k => stepTask s t k a
    | none => none

def run (s : Sys) (actions : List Action) : Option Sys := actions.foldlM step s

/-- Whether the step starts a new generation. -/
def bumpsIn (s : Sys) : Action → Bool
  | .wipe _ => true
  | .storeSignIn i _ => (s.calls i).any fun c => s.st.generationOf c.key = c.generation
  | _ => false

/-- The generations that a step starts. -/
def bumpsBy (s : Sys) (a : Action) : Nat := if bumpsIn s a then 1 else 0

/-- The number of generations that a run starts. -/
def bumps (s : Sys) : List Action → Nat
  | [] => 0
  | a :: as => bumpsBy s a + ((step s a).map fun s' => bumps s' as).getD 0

/-! ## What a step is -/

/-- The steps of a call that do nothing but go on. -/
inductive Moves (s : Sys) (i : Nat) (c : Call) : Action → Phase → Prop
  | since (now : Int) : c.phase = .taken → Moves s i c (.startSince i now) (sincePhase s.st c now)
  | lock (l : Nat) : c.phase = .toLock → s.locks c.key = some l → Moves s i c (.lockFor i) (.waiting l)
  | recheck (l : Nat) (now : Int) : c.phase = .locked l → Moves s i c (.recheck i now) (recheckPhase s.st c l now)
  | overtaken (l : Option Nat) (now : Int) : c.phase = .overtaken l → Moves s i c (.answerSuperseded i now)
      (.answered (s.st.supersededAnswer c.key c.generation c.cfg.refreshSkewSecs now))
  | unregistered (l : Nat) (rt : Text) (t : Nat) (now : Int) : c.phase = .registering l rt →
      s.st.generationOf c.key ≠ c.generation → Moves s i c (.register i t now)
      (.answered (s.st.supersededAnswer c.key c.generation c.cfg.refreshSkewSecs now))
  | granted (l : Nat) (t : CachedToken) : c.phase = .requesting l →
      Moves s i c (.clientCredentials i (.ok t)) (.storing l t)
  | refused (l : Nat) (f : TokenFailure) : c.phase = .requesting l →
      Moves s i c (.clientCredentials i (.error f)) (.answered (.error f.toAuthError))
  | drop : (∀ t, c.phase ≠ .awaiting t) → Moves s i c (.drop i) .dropped

inductive CallStep (s : Sys) (i : Nat) (c : Call) : Action → Sys → Prop
  | move {a : Action} {phase : Phase} : Moves s i c a phase → CallStep s i c a (s.advance i c phase)
  | newLock : c.phase = .toLock → s.locks c.key = none → CallStep s i c (.lockFor i)
      { s.advance i c (.waiting s.nextLock) with
        locks := Function.update s.locks c.key (some s.nextLock)
        nextLock := s.nextLock + 1 }
  | acquire (l : Nat) : c.phase = .waiting l → s.held l = none → CallStep s i c (.acquire i)
      ((s.setHeld l (some (.call i))).setCall i { c with phase := .locked l })
  | spawn (l : Nat) (rt : Text) (t : Nat) (now : Int) : c.phase = .registering l rt → s.tasks t = none →
      s.st.generationOf c.key = c.generation → CallStep s i c (.register i t now)
      { ((s.setCall i { c with phase := .awaiting t }).setTask t ⟨i, c.key, c.cfg, c.generation, rt, l,
          (s.st.registerRefresh c.key t).nextRefresh, .asking⟩).setHeld l (some (.task t)) with
        st := s.st.registerRefresh c.key t }
  | join (t : Nat) (k : Task) (r : Except AuthError CachedToken) : c.phase = .awaiting t → s.tasks t = some k →
      k.phase.result = some r → CallStep s i c (.join i)
      ((s.setTask t { k with phase := .joined }).setCall i { c with phase := .answered r })
  | fallback (t : Nat) (k : Task) : c.phase = .awaiting t → s.tasks t = some k → k.phase = .ended .fallback →
      CallStep s i c (.join i) (((s.setTask t { k with phase := .joined }).setCall i
        { c with phase := .requesting k.lock }).setHeld k.lock (some (.call i)))
  | store (l : Nat) (t : CachedToken) (now : Int) : c.phase = .storing l t →
      CallStep s i c (.store i now) (s.storeCall i c t now)
  | signIn (t : CachedToken) : c.phase = .redeeming → CallStep s i c (.storeSignIn i t) (s.storeSignIn i c t)
  | detach (t : Nat) : c.phase = .awaiting t →
      CallStep s i c (.drop i) ((s.detach t).setCall i { c with phase := .dropped })

inductive TaskStep (s : Sys) (t : Nat) (k : Task) : Action → Sys → Prop
  | respond (a : Except TokenFailure CachedToken) : k.phase = .asking →
      TaskStep s t k (.respond t a) (s.setTask t { k with phase := .answered a })
  | refreshFinished (a : Except TokenFailure CachedToken) : k.phase = .answered a → TaskStep s t k (.refreshFinished t)
      { s.setTask t { k with phase := .finished a } with st := s.st.refreshFinished k.key k.id }
  | conclude (a : Except TokenFailure CachedToken) (now : Int) : k.phase = .finished a →
      TaskStep s t k (.conclude t now) (s.conclude t k a now)
  | stop {a : Action} (phase : TaskPhase) : k.phase = .asking → (phase = .cancelled ∨ ∃ m, phase = .panicked m) →
      TaskStep s t k a ((s.setHeld k.lock none).setTask t { k with phase := phase })

inductive Step (s : Sys) : Action → Sys → Prop
  | begin {a : Action} (i : Nat) (key : TokenKey) (cfg : OAuthResolved) (phase : Phase) : s.calls i = none →
      phase.isFirst = true → a.party = some (.call i) → Step s a (s.setCall i ⟨key, cfg, s.st.generationOf key, phase⟩)
  | call {a : Action} {s' : Sys} (i : Nat) (c : Call) : s.calls i = some c → a.party = some (.call i) →
      CallStep s i c a s' → Step s a s'
  | task {a : Action} {s' : Sys} (t : Nat) (k : Task) : s.tasks t = some k → a.party = some (.task t) →
      TaskStep s t k a s' → Step s a s'
  | wipe (w : Wipe) : Step s (.wipe w) (s.wipe w)
  | dropLocks (p : Text) : p ∈ s.clearing → Step s (.dropLocks p) (s.dropLocks p)

section Sound
variable {s s' : Sys} {a : Action}

theorem stepCall_sound {i : Nat} {c : Call} (ha : a.party = some (.call i)) (h : stepCall s i c a = some s') :
    CallStep s i c a s' := by
  unfold stepCall at h
  split at h
  case h_1 =>
    cases ha
    split at h
    · cases h
      exact .move (.since _ (by assumption))
    · cases h
  case h_2 =>
    cases ha
    split at h
    · unfold Sys.lockFor at h
      cases hl : s.locks c.key with
      | some l =>
        simp only [hl, Option.some.injEq] at h
        subst h
        exact .move (.lock l (by assumption) hl)
      | none =>
        simp only [hl, Option.some.injEq] at h
        subst h
        exact .newLock (by assumption) hl
    · cases h
  case h_3 =>
    cases ha
    split at h
    · split_ifs at h with hl
      cases h
      exact .acquire _ (by assumption) hl
    · cases h
  case h_4 =>
    cases ha
    split at h
    · cases h
      exact .move (.recheck _ _ (by assumption))
    · cases h
  case h_5 =>
    cases ha
    split at h
    · cases h
      exact .move (.overtaken _ _ (by assumption))
    · cases h
  case h_6 =>
    cases ha
    split at h
    · cases h
      unfold Sys.register
      split_ifs with hg
      · exact .move (.unregistered _ _ _ _ (by assumption) hg)
      · exact .spawn _ _ _ _ (by assumption) (by assumption) (not_not.1 hg)
    · cases h
  case h_7 =>
    cases ha
    split at h
    · obtain ⟨k, hk, h⟩ := Option.bind_eq_some_iff.1 h
      unfold Sys.join at h
      split at h
      · cases h
        exact .fallback _ k (by assumption) hk (by assumption)
      · obtain ⟨r, hr, rfl⟩ := Option.map_eq_some_iff.1 h
        exact .join _ k r (by assumption) hk hr
    · cases h
  case h_8 =>
    cases ha
    split at h
    · cases h
      exact .move (.granted _ _ (by assumption))
    · cases h
      exact .move (.refused _ _ (by assumption))
    · cases h
  case h_9 =>
    cases ha
    split at h
    · cases h
      exact .store _ _ _ (by assumption)
    · cases h
  case h_10 =>
    cases ha
    split at h
    · cases h
      exact .signIn _ (by assumption)
    · cases h
  case h_11 =>
    cases ha
    unfold Sys.drop at h
    split at h
    case h_5 =>
      cases h
      exact .detach _ (by assumption)
    case h_6 => cases h
    all_goals
      cases h
      exact .move (.drop (by simp [*]))
  case h_12 => cases h

theorem stepTask_sound {t : Nat} {k : Task} (ha : a.party = some (.task t)) (h : stepTask s t k a = some s') :
    TaskStep s t k a s' := by
  unfold stepTask at h
  split at h
  case h_1 =>
    cases ha
    split at h
    · cases h
      exact .respond _ (by assumption)
    · cases h
  case h_2 =>
    cases ha
    split at h
    · cases h
      exact .refreshFinished _ (by assumption)
    · cases h
  case h_3 =>
    cases ha
    split at h
    · cases h
      exact .conclude _ _ (by assumption)
    · cases h
  case h_4 =>
    cases ha
    split at h
    · split_ifs at h
      cases h
      exact .stop _ (by assumption) (Or.inl rfl)
    · cases h
  case h_5 =>
    cases ha
    split at h
    · cases h
      exact .stop _ (by assumption) (Or.inr ⟨_, rfl⟩)
    · cases h
  case h_6 => cases h

theorem begin_sound {i : Nat} {key : TokenKey} {cfg : OAuthResolved} {phase : Call → Phase}
    (hp : ∀ c, (phase c).isFirst = true) (ha : a.party = some (.call i)) (h : s.begin i key cfg phase = some s') :
    Step s a s' := by
  unfold Sys.begin at h
  split at h
  · cases h
  · cases h
    exact .begin i key cfg _ (by assumption) (hp _) ha

theorem firstPhase_isFirst (st : CacheState) (c : Call) (now : Int) : (firstPhase st c now).isFirst = true := by
  unfold firstPhase
  split
  · split_ifs <;> rfl
  · rfl

/-- A step is one of those listed. -/
theorem step_sound (h : step s a = some s') : Step s a s' := by
  unfold step at h
  split at h
  case h_1 => exact begin_sound (fun c => firstPhase_isFirst s.st c _) rfl h
  case h_2 => exact begin_sound (fun _ => rfl) rfl h
  case h_3 => exact begin_sound (fun _ => rfl) rfl h
  case h_4 =>
    cases h
    exact .wipe _
  case h_5 =>
    split_ifs at h with hp
    cases h
    exact .dropLocks _ (by simpa using hp)
  case h_6 =>
    split at h
    case h_1 i hi =>
      obtain ⟨c, hc, h⟩ := Option.bind_eq_some_iff.1 h
      exact .call i c hc hi (stepCall_sound hi h)
    case h_2 t ht =>
      obtain ⟨k, hk, h⟩ := Option.bind_eq_some_iff.1 h
      exact .task t k hk ht (stepTask_sound ht h)
    case h_3 => cases h

end Sound

end Step

end Anvil.Auth
