import Anvil.Auth.TokenFence
import Anvil.Lib.Flight

/-!
# One token request at a time

The calls and refresh tasks of the token cache follow the single-flight protocol of `Anvil.Lib.Flight`, and the protocol lets
one request of a key and generation out at a time: except that the second critical section of a `clear_partition` can drop a
lock which a call has looked up since the first.

* `Sys.flight` : the system as parties with seats; a refresh task sits in the seat of its caller until it is over;
* `calm` : the step drops no such lock; `step_follows` : a calm step is a step of the protocol, or changes no seat;
* `calm_single_flight` : in calm runs at most one request of a key and generation is in flight, and a waiter that gets the
  lock after a successful one is served from the cache.
-/

namespace Anvil.Auth
open Anvil.Lib

/-! ## Seats -/

/-- The lock a call has looked up, and how far it has come with it. -/
def Phase.lockStage : Phase → Option (Nat × Stage)
  | .waiting l => some (l, .waiting)
  | .locked l => some (l, .holding)
  | .overtaken l => l.map fun l => (l, .holding)
  | .registering l _ => some (l, .admitted)
  | .requesting l => some (l, .admitted)
  | .storing l _ => some (l, .admitted)
  | _ => none

/-- The call asks the issuer next. -/
def Phase.sends : Phase → Bool
  | .registering _ _ => true
  | .requesting _ => true
  | _ => false

def Call.seat (c : Call) : Option (Seat TokenKey Generation) :=
  c.phase.lockStage.map fun p => ⟨c.key, c.generation, p.1, p.2⟩

/-- The task still has its caller's guard. -/
def TaskPhase.guards : TaskPhase → Bool
  | .asking => true
  | .answered _ => true
  | .finished _ => true
  | .ended .fallback => true
  | _ => false

def Task.seat (k : Task) : Option (Seat TokenKey Generation) :=
  if k.phase.guards then some ⟨k.key, k.generation, k.lock, .admitted⟩ else none

namespace Sys

def seat (s : Sys) : Party → Option (Seat TokenKey Generation)
  | .call i => (s.calls i).bind Call.seat
  | .task t => (s.tasks t).bind Task.seat

def flight (s : Sys) : Flight Party TokenKey Generation where
  seat := s.seat
  held := s.held
  locks := s.locks
  current := s.st.generationOf

variable (s : Sys)

theorem seat_call {i : Nat} {c : Call} (h : s.calls i = some c) : s.seat (.call i) = c.seat := by simp [seat, h]

theorem seat_task {t : Nat} {k : Task} (h : s.tasks t = some k) : s.seat (.task t) = k.seat := by simp [seat, h]

theorem seat_setCall (i : Nat) (c : Call) : (s.setCall i c).seat = Function.update s.seat (.call i) c.seat := by
  funext x
  cases x with
  | call j =>
    by_cases hj : j = i
    · subst hj
      simp [seat, setCall]
    · rw [Function.update_of_ne (by simp [hj])]
      simp [seat, setCall, hj]
  | task t =>
    rw [Function.update_of_ne (by simp)]
    rfl

theorem seat_setTask (t : Nat) (k : Task) : (s.setTask t k).seat = Function.update s.seat (.task t) k.seat := by
  funext x
  cases x with
  | call j =>
    rw [Function.update_of_ne (by simp)]
    rfl
  | task u =>
    by_cases hu : u = t
    · subst hu
      simp [seat, setTask]
    · rw [Function.update_of_ne (by simp [hu])]
      simp [seat, setTask, hu]

theorem seat_advance (i : Nat) (c : Call) (phase : Phase) :
    (s.advance i c phase).seat = Function.update s.seat (.call i) ({ c with phase := phase } : Call).seat := by
  rw [← seat_setCall, advance_eq]
  rfl

theorem held_advance (i : Nat) (c : Call) (phase : Phase) :
    (s.advance i c phase).held = if phase.guard = none then (s.release c.phase.guard).held else s.held := by
  unfold advance
  split_ifs <;> rfl

end Sys

theorem Phase.guard_of_waiting {phase : Phase} {l : Nat} (h : phase.lockStage = some (l, .waiting)) : phase.guard = none := by
  cases phase with
  | overtaken l' => simp [Phase.lockStage] at h
  | _ => first | rfl | simp [Phase.lockStage] at h

theorem Phase.guard_of_holds {phase : Phase} {l : Nat} {stage : Stage} (h : phase.lockStage = some (l, stage))
    (hs : stage ≠ .waiting) : phase.guard = some l := by
  cases phase with
  | overtaken l' =>
    obtain ⟨l'', rfl, heq⟩ := Option.map_eq_some_iff.1 h
    cases heq
    rfl
  | _ => simp_all [Phase.lockStage, Phase.guard]

theorem Phase.guard_of_none {phase : Phase} (h : phase.lockStage = none) : phase.guard = none := by
  cases phase with
  | overtaken l' => simpa [Phase.lockStage, Phase.guard] using h
  | _ => first | rfl | simp [Phase.lockStage] at h

/-! ## A step is one of the protocol's -/

section Simulation
variable {s s' : Sys} {a : Action} {n : Nat}

/-- The step changes no seat, or is one of the protocol; only a call that looks again with the lock in hand is admitted. -/
def Follows (s : Sys) (a : Action) (s' : Sys) : Prop :=
  s'.flight = s.flight ∨ ∃ v, Flight.Step TokenKey.partition s.flight v s'.flight ∧
    ∀ x, v = .enter x → ∃ i now, a = .recheck i now ∧ x = .call i

theorem flight_eq {f : Flight Party TokenKey Generation} (hseat : s'.seat = f.seat) (hheld : s'.held = f.held)
    (hlocks : s'.locks = f.locks) (hcurrent : s'.st.generationOf = f.current) : s'.flight = f := by
  unfold Sys.flight
  rw [hseat, hheld, hlocks, hcurrent]

theorem Follows.of_step {v : Flight.Event Party Text} {f : Flight Party TokenKey Generation}
    (h : Flight.Step TokenKey.partition s.flight v f) (heq : s'.flight = f) (hv : ∀ x, v ≠ .enter x) : Follows s a s' :=
  Or.inr ⟨v, heq ▸ h, fun x hx => absurd hx (hv x)⟩

theorem follows_same {i : Nat} {c : Call} (hc : s.calls i = some c) {phase : Phase}
    (h : phase.lockStage = c.phase.lockStage) (hg : phase.guard = c.phase.guard) : Follows s a (s.advance i c phase) := by
  left
  have hseat : (s.advance i c phase).seat = s.seat := by
    rw [Sys.seat_advance, Function.update_eq_self_iff, Sys.seat_call s hc]
    simp [Call.seat, h]
  have hheld : (s.advance i c phase).held = s.held := by
    rw [Sys.held_advance, hg]
    split_ifs with h
    · rw [h]
      rfl
    · rfl
  simp [Sys.flight, hseat, hheld]

/-- A call without a lock in its next phase leaves its seat, if it has one. -/
theorem follows_leave {i : Nat} {c : Call} (hc : s.calls i = some c) {phase : Phase} (h : phase.lockStage = none) :
    Follows s a (s.advance i c phase) := by
  have hguard := Phase.guard_of_none h
  have hseat : (s.advance i c phase).seat = Function.update s.seat (.call i) none := by
    rw [Sys.seat_advance]
    simp [Call.seat, h]
  have hheld : (s.advance i c phase).held = (s.release c.phase.guard).held := by rw [Sys.held_advance, if_pos hguard]
  have hcurrent : (s.advance i c phase).st.generationOf = s.st.generationOf := by rw [Sys.advance_st]
  cases hl : c.phase.lockStage with
  | none => exact follows_same hc (h.trans hl.symm) (hguard.trans (Phase.guard_of_none hl).symm)
  | some p =>
    obtain ⟨l, stage⟩ := p
    have hx : s.flight.seat (.call i) = some ⟨c.key, c.generation, l, stage⟩ := by
      change s.seat (.call i) = _
      rw [Sys.seat_call s hc]
      simp [Call.seat, hl]
    by_cases hw : stage = .waiting
    · subst hw
      rw [Phase.guard_of_waiting hl] at hheld
      exact .of_step (.quit (Party.call i) _ hx rfl)
        (flight_eq hseat hheld (Sys.advance_locks ..) hcurrent) (by simp)
    · rw [Phase.guard_of_holds hl hw] at hheld
      exact .of_step (.leave (Party.call i) _ hx hw)
        (flight_eq hseat hheld (Sys.advance_locks ..) hcurrent) (by simp)

theorem firstPhase_lockStage [Chrono] (st : CacheState) (c : Call) (now : Int) : (firstPhase st c now).lockStage = none := by
  unfold firstPhase
  split
  · split_ifs <;> rfl
  · rfl

/-- What a call does once it holds the lock. -/
theorem recheckPhase_cases [Chrono] (st : CacheState) (c : Call) (l : Nat) (now : Int) :
    recheckPhase st c l now = .overtaken (some l) ∨ (recheckPhase st c l now).lockStage = none ∨
      (recheckPhase st c l now).lockStage = some (l, .admitted) ∧ (recheckPhase st c l now).sends = true ∧
        st.generationOf c.key = c.generation := by
  have hgrant : (grantPhase c l).lockStage = none ∨
      (grantPhase c l).lockStage = some (l, .admitted) ∧ (grantPhase c l).sends = true := by
    unfold grantPhase
    split_ifs
    · exact Or.inl rfl
    · exact Or.inr ⟨rfl, rfl⟩
  by_cases hg : st.generationOf c.key = c.generation
  · right
    unfold recheckPhase
    rw [if_neg (not_not.2 hg)]
    split
    · split_ifs
      · exact Or.inl rfl
      · split
        · exact Or.inr ⟨rfl, rfl, hg⟩
        · exact hgrant.imp_right fun h => ⟨h.1, h.2, hg⟩
    · exact hgrant.imp_right fun h => ⟨h.1, h.2, hg⟩
  · exact Or.inl (recheckPhase_of_stale hg l now)

theorem follows_recheck [Chrono] {i : Nat} {c : Call} (hc : s.calls i = some c) {l : Nat} (hl : c.phase = .locked l)
    (now : Int) :
    Follows s (.recheck i now) (s.advance i c (recheckPhase s.st c l now)) := by
  rcases recheckPhase_cases s.st c l now with h | h | ⟨h, -, hg⟩
  · rw [h]
    exact follows_same hc (by rw [hl]; rfl) (by rw [hl]; rfl)
  · exact follows_leave hc h
  · have hguard := Phase.guard_of_holds h (by simp)
    have hx : s.flight.seat (.call i) = some ⟨c.key, c.generation, l, .holding⟩ := by
      change s.seat (.call i) = _
      rw [Sys.seat_call s hc]
      simp [Call.seat, hl, Phase.lockStage]
    have hstep : Flight.Step TokenKey.partition s.flight (.enter (.call i)) _ := .enter (Party.call i) _ hx rfl hg.symm
    refine Or.inr ⟨.enter (.call i), ?_, fun x hx => ⟨i, now, rfl, (Flight.Event.enter.inj hx).symm⟩⟩
    have hheld : (s.advance i c (recheckPhase s.st c l now)).held = s.held := by
      rw [Sys.held_advance, if_neg (by simp [hguard])]
    simpa [Sys.flight, Sys.seat_advance, hheld, Call.seat, h] using hstep

/-- No call or task of the current generation of a key waits for the key's lock, holds it or works under it while the second
half of a `clear_partition` drops the locks of its partition. -/
noncomputable def calm (s : Sys) : Action → Bool
  | .dropLocks p => @decide (∀ x e, s.seat x = some e → e.key.partition = p → e.generation ≠ s.st.generationOf e.key)
      (Classical.propDecidable _)
  | _ => true

theorem follows_lock {i : Nat} {c : Call} (hs : Sound s) (hc : s.calls i = some c) (hp : c.phase = .toLock)
    {l : Nat} (hl : s.locks c.key = none ∨ s.locks c.key = some l)
    (hseat : s'.seat = Function.update s.seat (.call i) (some ⟨c.key, c.generation, l, .waiting⟩)) (hheld : s'.held = s.held)
    (hlocks : s'.locks = Function.update s.locks c.key (some l)) (hst : s'.st = s.st) : Follows s a s' := by
  have hx : s.flight.seat (.call i) = none := by
    change s.seat (.call i) = _
    rw [Sys.seat_call s hc]
    simp [Call.seat, hp, Phase.lockStage]
  exact .of_step (.look (Party.call i) c.key c.generation l hx (hs.calls i c hc) hl)
    (flight_eq hseat hheld hlocks (by rw [hst]; rfl)) (by simp)

theorem held_waiting {i : Nat} {c : Call} (hp : c.phase = .toLock) {l : Nat} :
    (s.advance i c (.waiting l)).held = s.held := by
  rw [Sys.held_advance, hp]
  rfl

theorem follows_move [Chrono] {i : Nat} {c : Call} (hs : Sound s) (hc : s.calls i = some c) {phase : Phase}
    (h : Moves s i c a phase) : Follows s a (s.advance i c phase) := by
  cases h with
  | since now hp =>
    refine follows_leave hc ?_
    unfold sincePhase
    split_ifs
    · rfl
    · exact firstPhase_lockStage s.st c now
  | lock l hp hl =>
    have hlocks : Function.update s.locks c.key (some l) = s.locks := by rw [← hl, Function.update_eq_self]
    exact follows_lock hs hc hp (Or.inr hl) (Sys.seat_advance ..) (held_waiting hp) (by simp [hlocks]) (by simp)
  | recheck l now hp => exact follows_recheck hc hp now
  | overtaken l now hp => exact follows_leave hc rfl
  | unregistered l rt t now hp _ => exact follows_leave hc rfl
  | granted l t hp => exact follows_same hc (by rw [hp]; rfl) (by rw [hp]; rfl)
  | refused l f hp => exact follows_leave hc rfl
  | drop hp => exact follows_leave hc rfl

theorem Follows.congr {s₁ : Sys} (h : Follows s a s₁) (heq : s'.flight = s₁.flight) : Follows s a s' := by
  unfold Follows
  rw [heq]
  exact h

/-- A call that has no seat gets none. -/
theorem flight_setCall {i : Nat} {c d : Call} (hc : s.calls i = some c) (hseat : c.seat = none) (hd : d.seat = none) :
    (s.setCall i d).flight = s.flight := by
  have hs : (s.setCall i d).seat = s.seat := by
    rw [Sys.seat_setCall, Function.update_eq_self_iff, Sys.seat_call s hc, hseat, hd]
  simp only [Sys.flight, hs]
  rfl

/-- The seat of a task goes, or stays as it is. -/
theorem follows_task_leave {t : Nat} {k : Task} (hk : s.tasks t = some k) (hg : k.phase.guards = true) {phase : TaskPhase}
    (hp : phase.guards = false) {st : CacheState} (hgen : st.generationOf = s.st.generationOf) {w : Option Stored} :
    Follows s a (((s.setHeld k.lock none).setTask t { k with phase := phase }).write st w) := by
  have hx : s.flight.seat (.task t) = some ⟨k.key, k.generation, k.lock, .admitted⟩ := by
    change s.seat (.task t) = _
    rw [Sys.seat_task s hk]
    exact if_pos hg
  refine .of_step (.leave (Party.task t) _ hx (by simp)) (flight_eq ?_ rfl rfl hgen) (by simp)
  change ((s.setHeld k.lock none).setTask t { k with phase := phase }).seat = _
  rw [Sys.seat_setTask, Task.seat, hp]
  rfl

theorem seat_task_stays {t : Nat} {k : Task} (hk : s.tasks t = some k) {phase : TaskPhase}
    (hp : phase.guards = k.phase.guards) : (s.setTask t { k with phase := phase }).seat = s.seat := by
  rw [Sys.seat_setTask, Function.update_eq_self_iff, Sys.seat_task s hk]
  simp [Task.seat, hp]

theorem guards_of_result {phase : TaskPhase} {r : Except AuthError CachedToken} (h : phase.result = some r) :
    phase.guards = false := by
  unfold TaskPhase.result at h
  split at h
  all_goals first | rfl | cases h

theorem follows_detach {i : Nat} {c : Call} (hc : s.calls i = some c) {t : Nat} (hp : c.phase = .awaiting t) :
    Follows s a ((s.detach t).setCall i { c with phase := .dropped }) := by
  have hcalls : (s.detach t).calls i = some c := by
    rw [Sys.detach_eq]
    exact hc
  have hseat : c.seat = none := by simp [Call.seat, hp, Phase.lockStage]
  refine Follows.congr ?_ (flight_setCall hcalls hseat rfl)
  unfold Sys.detach
  cases hk : s.tasks t with
  | none => exact Or.inl rfl
  | some k =>
    dsimp only
    split
    · rename_i hf
      have hsame : s.st.generationOf = s.st.generationOf := rfl
      have hjoined : TaskPhase.joined.guards = false := rfl
      exact (follows_task_leave hk (by rw [hf]; rfl) hjoined hsame (w := none)).congr (flight_eq rfl rfl rfl rfl)
    · exact Or.inl rfl

theorem generationOf_storeToken [Chrono] (st : CacheState) (k : TokenKey) (g : Generation) (skew : Int) (t : CachedToken)
    (now : Int) : (storeToken st k g skew t now).1.generationOf = st.generationOf := by
  by_cases h : st.generationOf k = g
  · rw [storeToken_of_current h]
    rfl
  · rw [storeToken_of_stale h]

theorem follows_call [Chrono] {i : Nat} {c : Call} (hs : Sound s) (hc : s.calls i = some c) (h : CallStep s i c a s')
    (hle : ∀ k, s.st.generationOf k ≤ s'.st.generationOf k) : Follows s a s' := by
  have hx : s.flight.seat (.call i) = c.seat := Sys.seat_call s hc
  cases h with
  | move h => exact follows_move hs hc h
  | newLock hp hl =>
    exact follows_lock (l := s.nextLock) hs hc hp (Or.inl hl) (Sys.seat_advance s i c (.waiting s.nextLock))
      (held_waiting (i := i) hp) rfl (by simp)
  | acquire l hp hfree =>
    have he : c.seat = some ⟨c.key, c.generation, l, .waiting⟩ := by simp [Call.seat, hp, Phase.lockStage]
    exact .of_step (.take (Party.call i) _ (hx.trans he) rfl hfree)
      (flight_eq (Sys.seat_setCall (s.setHeld l (some (.call i))) i _) rfl rfl rfl) (by simp)
  | spawn l rt t now hp ht hg =>
    have he : c.seat = some ⟨c.key, c.generation, l, .admitted⟩ := by simp [Call.seat, hp, Phase.lockStage]
    have hy : s.flight.seat (.task t) = none := by simp [Sys.flight, Sys.seat, ht]
    refine .of_step (.hand (Party.call i) (Party.task t) _ (hx.trans he) (by simp) hy)
      (flight_eq ?_ rfl rfl rfl) (by simp)
    change ((s.setCall i { c with phase := .awaiting t }).setTask t _).seat = _
    rw [Sys.seat_setTask, Sys.seat_setCall]
    rfl
  | join t k r hp hk hr =>
    have hseat : c.seat = none := by simp [Call.seat, hp, Phase.lockStage]
    have hcall := flight_setCall (s := s.setTask t { k with phase := .joined })
        (d := { c with phase := .answered r }) hc hseat rfl
    exact Or.inl (hcall.trans (flight_eq (seat_task_stays hk (guards_of_result hr).symm) rfl rfl rfl))
  | fallback t k hp hk hf =>
    have he : c.seat = none := by simp [Call.seat, hp, Phase.lockStage]
    have hy : s.flight.seat (.task t) = some ⟨k.key, k.generation, k.lock, .admitted⟩ := by
      change s.seat (.task t) = _
      rw [Sys.seat_task s hk]
      exact if_pos (by rw [hf]; rfl)
    refine .of_step (.hand (Party.task t) (Party.call i) _ hy (by simp) (hx.trans he))
      (flight_eq ?_ rfl rfl rfl) (by simp)
    change ((s.setTask t { k with phase := .joined }).setCall i _).seat = _
    rw [Sys.seat_setCall, Sys.seat_setTask]
    -- The task is the one that this call awaits, so it has its key and its generation.
    obtain ⟨k', hk', hcaller⟩ := hs.awaited i c t hc hp
    rw [hk, Option.some.injEq] at hk'
    subst hk'
    obtain ⟨c', hc', hkey, hgen⟩ := hs.tasks t k hk
    rw [hcaller, hc, Option.some.injEq] at hc'
    subst hc'
    rw [← hkey, ← hgen]
    rfl
  | store l t now hp =>
    have hleave : Follows s (.store i now) (s.advance i c
        (.answered (storeToken s.st c.key c.generation c.cfg.refreshSkewSecs t now).2.1)) := follows_leave hc rfl
    refine hleave.congr (flight_eq rfl rfl rfl ?_)
    change (storeToken s.st c.key c.generation c.cfg.refreshSkewSecs t now).1.generationOf = _
    rw [generationOf_storeToken]
    exact (congrArg CacheState.generationOf (Sys.advance_st ..)).symm
  | signIn t hp =>
    have hseat : c.seat = none := by simp [Call.seat, hp, Phase.lockStage]
    have hcall := flight_setCall (d := { c with phase := .signedIn (s.st.storeSignIn c.key c.generation t).2 }) hc hseat rfl
    exact .of_step (.move (s.st.storeSignIn c.key c.generation t).1.generationOf hle)
      (flight_eq (congrArg Flight.seat hcall) rfl rfl rfl) (by simp)
  | detach t hp => exact follows_detach hc hp

theorem generationOf_conclusion [Chrono] (st : CacheState) (k : Task) (now : Int) (b : Except TokenFailure CachedToken) :
    (conclusion st k now b).1.generationOf = st.generationOf := by
  rcases conclusion_cases st k now b with ⟨h, -⟩ | ⟨-, t, h, -⟩
  · rw [h]
  · rw [h]
    rfl

theorem follows_conclude [Chrono] {t : Nat} {k : Task} (hk : s.tasks t = some k) {b : Except TokenFailure CachedToken}
    (hp : k.phase = .finished b) (now : Int) : Follows s a (s.conclude t k b now) := by
  have hguards : k.phase.guards = true := by rw [hp]; rfl
  have hgen := generationOf_conclusion s.st k now b
  unfold Sys.conclude
  dsimp only
  split
  · exact Or.inl (flight_eq (seat_task_stays hk hguards.symm) rfl rfl hgen)
  · exact follows_task_leave hk hguards rfl hgen
  · exact follows_task_leave hk hguards rfl hgen

theorem follows_task [Chrono] {t : Nat} {k : Task} (hk : s.tasks t = some k) (h : TaskStep s t k a s') : Follows s a s' := by
  cases h with
  | respond b hp => exact Or.inl (flight_eq (seat_task_stays hk (by rw [hp]; rfl)) rfl rfl rfl)
  | refreshFinished b hp => exact Or.inl (flight_eq (seat_task_stays hk (by rw [hp]; rfl)) rfl rfl rfl)
  | conclude b now hp => exact follows_conclude hk hp now
  | stop phase hp hstop =>
    have hphase : phase.guards = false := by
      rcases hstop with rfl | ⟨m, rfl⟩ <;> rfl
    have hsame : s.st.generationOf = s.st.generationOf := rfl
    exact (follows_task_leave hk (by rw [hp]; rfl) hphase hsame (w := none)).congr (flight_eq rfl rfl rfl rfl)

theorem first_seat {c : Call} (h : c.phase.isFirst = true) : c.seat = none := by
  have hstage : c.phase.lockStage = none := by
    cases hp : c.phase with
    | _ => simp_all [Phase.isFirst, Phase.lockStage]
  simp [Call.seat, hstage]

/-- **A calm step follows the single-flight protocol.** -/
theorem step_follows [Chrono] (h : Step s a s') (hb : s.st.Bounded n) (hn : n + bumpsBy s a < 2 ^ 64) (hs : Sound s)
    (hcalm : calm s a = true) : Follows s a s' := by
  have hle := step_le h hb hn
  cases h with
  | begin i key cfg phase hi hp _ =>
    refine Or.inl (flight_eq ?_ rfl rfl rfl)
    change (s.setCall i _).seat = s.seat
    rw [Sys.seat_setCall, Function.update_eq_self_iff, first_seat hp]
    simp [Sys.seat, hi]
  | call i c hc _ h => exact follows_call hs hc h hle
  | task t k hk _ h => exact follows_task hk h
  | wipe w => exact .of_step (.move _ hle) (flight_eq rfl rfl rfl rfl) (by simp)
  | dropLocks p _ =>
    refine .of_step (.drop p fun x e hx hp => ?_) (flight_eq rfl rfl rfl rfl) (by simp)
    exact @of_decide_eq_true _ (Classical.propDecidable _) hcalm x e hx hp

end Simulation

/-! ## Requests in flight -/

/-- The key and generation of the token-endpoint request a party has in flight. -/
def Call.request (c : Call) : Option (TokenKey × Generation) :=
  match c.phase with
  | .requesting _ => some (c.key, c.generation)
  | _ => none

def Task.request (k : Task) : Option (TokenKey × Generation) :=
  match k.phase with
  | .asking => some (k.key, k.generation)
  | _ => none

def Sys.request (s : Sys) : Party → Option (TokenKey × Generation)
  | .call i => (s.calls i).bind Call.request
  | .task t => (s.tasks t).bind Task.request

/-- A party with a request in flight is admitted. -/
theorem request_admitted {s : Sys} {x : Party} {k : TokenKey} {g : Generation} (h : s.request x = some (k, g)) :
    ∃ l, s.seat x = some ⟨k, g, l, .admitted⟩ := by
  cases x with
  | call i =>
    obtain ⟨c, hc, h⟩ := Option.bind_eq_some_iff.1 h
    unfold Call.request at h
    split at h
    · rename_i l hp
      cases h
      exact ⟨l, by rw [Sys.seat_call s hc]; simp [Call.seat, hp, Phase.lockStage]⟩
    · cases h
  | task t =>
    obtain ⟨κ, hκ, h⟩ := Option.bind_eq_some_iff.1 h
    unfold Task.request at h
    split at h
    · rename_i hp
      cases h
      exact ⟨κ.lock, by rw [Sys.seat_task s hκ]; simp [Task.seat, hp, TaskPhase.guards]⟩
    · cases h

theorem writing_admitted {s : Sys} {k : TokenKey} (h : Writing s k) :
    ∃ x l, s.seat x = some ⟨k, s.st.generationOf k, l, .admitted⟩ := by
  cases h with
  | call i c l t hc hp hkey hgen =>
    refine ⟨.call i, l, ?_⟩
    rw [Sys.seat_call s hc]
    simp [Call.seat, hp, Phase.lockStage, hkey, hgen]
  | task u κ b hκ hp hkey hgen =>
    refine ⟨.task u, κ.lock, ?_⟩
    rw [Sys.seat_task s hκ]
    simp [Task.seat, hp, TaskPhase.guards, hkey, hgen]

/-! ## Waiters -/

section Waiters
variable [Chrono] {s s' : Sys} {a : Action} {n : Nat} {k : TokenKey} {g : Generation} {t : CachedToken}

/-- The call asks the issuer once it holds the lock. -/
def Call.asks (s : Sys) (c : Call) (now : Int) : Bool :=
  match c.phase with
  | .locked l => (recheckPhase s.st c l now).sends
  | _ => false

/-- The step sends no token request of the key and generation. -/
def silent (k : TokenKey) (g : Generation) (s : Sys) : Action → Bool
  | .recheck i now => (s.calls i).all fun c => c.key ≠ k || c.generation ≠ g || !c.asks s now
  | _ => true

/-- The token is cached as long as its generation is current, and nobody is about to replace it. -/
structure Served (k : TokenKey) (g : Generation) (t : CachedToken) (s : Sys) : Prop where
  behind : g ≤ s.st.generationOf k
  entry : s.st.generationOf k = g → s.st.entries k = some t
  nobody : ∀ x l, s.seat x ≠ some ⟨k, g, l, .admitted⟩

/-- A call that is admitted as it holds the lock asks the issuer. -/
theorem recheck_asks {i : Nat} {now : Int} (h : Step s (.recheck i now) s') {l : Nat}
    (hx : s'.seat (.call i) = some ⟨k, g, l, .admitted⟩) :
    ∃ c, s.calls i = some c ∧ c.key = k ∧ c.generation = g ∧ c.asks s now = true := by
  cases h with
  | begin j key cfg phase hj hp hparty =>
    cases hparty
    rw [Sys.seat_setCall, Function.update_self, first_seat hp] at hx
    cases hx
  | call j c hc hparty hstep =>
    cases hstep with
    | move hmove =>
      cases hmove with
      | recheck l' _ hp =>
        rw [Sys.seat_advance, Function.update_self] at hx
        obtain ⟨⟨l'', stage⟩, hstage, heq⟩ := Option.map_eq_some_iff.1 hx
        cases heq
        refine ⟨c, hc, rfl, rfl, ?_⟩
        rw [Call.asks, hp]
        change (recheckPhase s.st c l' now).lockStage = _ at hstage
        change (recheckPhase s.st c l' now).sends = true
        rcases recheckPhase_cases s.st c l' now with h | h | ⟨-, hsends, -⟩
        · rw [h] at hstage
          cases hstage
        · rw [h] at hstage
          cases hstage
        · exact hsends
  | task u κ hκ hparty hstep => cases hparty

/-- The entry of a key changes within a generation only by a party of that generation that is admitted. -/
theorem step_entry (h : Step s a s') (hb : s.st.Bounded n) (hn : n + bumpsBy s a < 2 ^ 64)
    (hgen : s'.st.generationOf k = s.st.generationOf k) :
    s'.st.entries k = s.st.entries k ∨ ∃ x l, s.seat x = some ⟨k, s.st.generationOf k, l, .admitted⟩ := by
  cases step_effect h with
  | quiet _ he _ => exact Or.inl (by rw [he])
  | wrote i k' t' _ hw _ he _ =>
    by_cases hk : k = k'
    · subst hk
      exact Or.inr (writing_admitted hw)
    · exact Or.inl (by rw [he, Function.update_of_ne hk])
  | signedIn i c t' ha hc hcur hst _ =>
    subst ha
    rw [bumpsBy_signedIn hc hcur] at hn
    by_cases hk : k = c.key
    · subst hk
      rw [hst] at hgen
      exact absurd hgen (CacheState.lt_storeSignIn t' hb hn hcur).ne'
    · left
      rw [hst, CacheState.storeSignIn_of_current t' hcur]
      exact Function.update_of_ne hk ..
  | wiped w ha hst _ =>
    subst ha
    rw [hst] at hgen ⊢
    rw [CacheState.entries_wipe]
    cases hcov : w.covers k with
    | true =>
      have hlt := CacheState.base_lt_wipe hb hn hcov
      rw [hgen] at hlt
      exact absurd hlt (lt_irrefl _)
    | false => exact Or.inl rfl

theorem step_served (h : Step s a s') (hb : s.st.Bounded n) (hn : n + bumpsBy s a < 2 ^ 64) (hs : Sound s)
    (hcalm : calm s a = true) (hsilent : silent k g s a = true) (hserved : Served k g t s) : Served k g t s' where
  behind := hserved.behind.trans (step_le h hb hn k)
  entry hcur := by
    have hwas : s.st.generationOf k = g := le_antisymm (hcur ▸ step_le h hb hn k) hserved.behind
    rcases step_entry h hb hn (hcur.trans hwas.symm) with he | ⟨x, l, hx⟩
    · rw [he, hserved.entry hwas]
    · rw [hwas] at hx
      exact absurd hx (hserved.nobody x l)
  nobody x l hx := by
    rcases step_follows h hb hn hs hcalm with heq | ⟨v, hv, hadmit⟩
    · exact hserved.nobody x l ((congrFun (congrArg Flight.seat heq) x).symm.trans hx)
    · rcases hv.admitted_origin hx rfl with ⟨z, hz⟩ | hv'
      · exact hserved.nobody z l hz
      · -- Only a call that asks the issuer is admitted, and the step sends no such request.
        obtain ⟨i, now, rfl, rfl⟩ := hadmit x hv'
        obtain ⟨c, hc, hkey, hgen, hasks⟩ := recheck_asks h hx
        simp [silent, hc, hkey, hgen, hasks] at hsilent

/-- A task that stores its token is done. -/
theorem conclusion_stored {st : CacheState} {κ : Task} {now : Int} {b : Except TokenFailure CachedToken} {w : Stored}
    (h : (conclusion st κ now b).2.2 = some w) :
    ∃ r, (conclusion st κ now b).2.1 = .done r ∧ w = ⟨κ.key, κ.generation, w.token, false⟩ := by
  cases b with
  | ok t =>
    rcases conclusion_cases st κ now (.ok t) with ⟨-, hnone, -⟩ | ⟨-, tok, -, hw, -⟩
    · rw [hnone] at h
      cases h
    · rw [hw] at h
      obtain ⟨t', -, rfl⟩ := Option.map_eq_some_iff.1 h
      exact ⟨_, rfl, rfl⟩
  | error f =>
    have hnone : (conclusion st κ now (.error f)).2.2 = none := by
      unfold conclusion
      dsimp only
      split_ifs
      · rfl
      · split
        · split_ifs <;> rfl
        · rfl
    rw [hnone] at h
    cases h

theorem conclude_seat {u : Nat} {κ : Task} {b : Except TokenFailure CachedToken} {now : Int}
    {r : Except AuthError CachedToken}
    (hr : (conclusion s.st κ now b).2.1 = .done r) :
    (s.conclude u κ b now).seat = Function.update s.seat (.task u) none := by
  unfold Sys.conclude
  dsimp only
  rw [hr]
  split
  · simp_all
  · exact Sys.seat_setTask (s.setHeld κ.lock none) u _
  · exact Sys.seat_setTask (s.setHeld κ.lock none) u _

/-- A party that stores a token leaves its seat. -/
theorem store_leaves (h : Step s a s') (hstored : s'.stored = s.stored ++ [⟨k, g, t, false⟩]) :
    s'.st.generationOf k = g ∧ s'.st.entries k = some t ∧
      ∃ x l, s.seat x = some ⟨k, g, l, .admitted⟩ ∧ s'.seat = Function.update s.seat x none := by
  have hwrote : s'.st.generationOf k = g ∧ s'.st.entries k = some t := by
    cases step_effect h with
    | quiet _ _ hs => simp [hs] at hstored
    | wrote i k' t' _ _ hgen he hs =>
      rw [hs, List.append_cancel_left_eq] at hstored
      cases t' with
      | none => cases hstored
      | some t' =>
        cases hstored
        exact ⟨by rw [hgen], by rw [he, Function.update_self]⟩
    | signedIn i c t' _ _ _ _ hs =>
      rw [hs, List.append_cancel_left_eq] at hstored
      cases hstored
    | wiped w _ _ hs => simp [hs] at hstored
  refine ⟨hwrote.1, hwrote.2, ?_⟩
  cases h with
  | begin i key cfg phase _ _ _ => simp [Sys.setCall] at hstored
  | call i c hc _ hstep =>
    cases hstep with
    | store l t' now hp =>
      unfold Sys.storeCall at hstored ⊢
      by_cases hcur : s.st.generationOf c.key = c.generation
      · rw [storeToken_of_current hcur] at hstored ⊢
        simp only [Sys.write, Sys.advance_stored, List.append_cancel_left_eq] at hstored
        cases hstored
        refine ⟨.call i, l, ?_, Sys.seat_advance s i c (.answered (.ok t))⟩
        rw [Sys.seat_call s hc]
        simp [Call.seat, hp, Phase.lockStage]
      · rw [storeToken_of_stale hcur] at hstored
        simp [Sys.write] at hstored
    | signIn t' _ =>
      unfold Sys.storeSignIn at hstored
      by_cases hcur : s.st.generationOf c.key = c.generation
      · simp [CacheState.storeSignIn_of_current t' hcur, Sys.write, Sys.setCall] at hstored
      · simp [CacheState.storeSignIn_of_stale t' hcur, Sys.write, Sys.setCall] at hstored
    | detach u _ =>
      rw [Sys.detach_eq] at hstored
      simp [Sys.setCall] at hstored
    | _ => simp [Sys.setCall, Sys.setTask, Sys.setHeld] at hstored
  | task u κ hκ _ hstep =>
    cases hstep with
    | conclude b now hp =>
      obtain ⟨-, hst⟩ := conclude_st (s := s) u κ b now
      rw [hst, List.append_cancel_left_eq] at hstored
      obtain ⟨r, hr, hw⟩ := conclusion_stored (Option.toList_eq_singleton_iff.1 hstored)
      cases hw
      refine ⟨.task u, κ.lock, ?_, conclude_seat hr⟩
      rw [Sys.seat_task s hκ]
      simp [Task.seat, hp, TaskPhase.guards]
    | _ => simp [Sys.setTask, Sys.setHeld] at hstored
  | wipe w => simp [Sys.wipe] at hstored
  | dropLocks p _ => simp [Sys.dropLocks] at hstored

theorem served_of_store (h : Step s a s') (hs : Flight.Inv s.flight)
    (hstored : s'.stored = s.stored ++ [⟨k, g, t, false⟩]) : Served k g t s' := by
  obtain ⟨hgen, hentry, x, l, hx, hseat⟩ := store_leaves h hstored
  refine ⟨hgen.ge, fun _ => hentry, fun y l' hy => ?_⟩
  rw [hseat] at hy
  by_cases hyx : y = x
  · simp [hyx] at hy
  · rw [Function.update_of_ne hyx] at hy
    exact hyx (hs.alone y x _ _ hy hx rfl rfl rfl rfl)

/-- A waiter of the token's generation is answered with it while that generation is current. -/
def waiterPhase (s : Sys) (k : TokenKey) (g : Generation) (t : CachedToken) (l : Nat) : Phase :=
  if s.st.generationOf k = g then .answered (.ok t) else .overtaken (some l)

theorem served_recheck (hserved : Served k g t s) {c : Call} {l : Nat} {now : Int} (hkey : c.key = k)
    (hgen : c.generation = g) (husable : t.usable now c.cfg.refreshSkewSecs = true) :
    recheckPhase s.st c l now = waiterPhase s k g t l := by
  unfold waiterPhase
  subst hkey hgen
  by_cases hcur : s.st.generationOf c.key = c.generation
  · rw [if_pos hcur, recheckPhase, if_neg (not_not.2 hcur), hserved.entry hcur]
    exact if_pos husable
  · rw [if_neg hcur, recheckPhase_of_stale hcur]

end Waiters

/-! ## Runs -/

section Runs
variable [Chrono]

def Flying (s : Sys) : Prop := Sound s ∧ Flight.Inv s.flight

theorem step_flying {s s' : Sys} {a : Action} {n : Nat} (h : Step s a s') (hb : s.st.Bounded n)
    (hn : n + bumpsBy s a < 2 ^ 64) (hcalm : calm s a = true) (hs : Flying s) : Flying s' := by
  refine ⟨step_sound_kept h hb hn hs.1, ?_⟩
  rcases step_follows h hb hn hs.1 hcalm with heq | ⟨v, hv, -⟩
  · rw [heq]
    exact hs.2
  · exact hv.inv hs.2

omit [Chrono] in
theorem flying_init : Flying {} := ⟨sound_init, Flight.inv_of_empty fun x => by cases x <;> rfl⟩

/-- **One request at a time, in a calm run.** As long as no `clear_partition`, in its second critical section, drops a
lock that a call or task of the current generation has looked up, two token-endpoint requests in flight are of different
keys or generations; and after a request of a key and generation has succeeded, a waiter of that generation that gets the
lock before another one was sent is answered with the stored token while it is usable (or, overtaken in the meantime,
asks for nothing). -/
theorem calm_single_flight {acts : List Action} {s : Sys} (h : run {} acts = some s) (hbumps : bumps {} acts < 2 ^ 64)
    (hcalm : along calm {} acts = true) :
    (∀ x y k g, s.request x = some (k, g) → s.request y = some (k, g) → x = y) ∧
      ∀ before a after s₀ s₁ k g t, acts = before ++ a :: after → run {} before = some s₀ → step s₀ a = some s₁ →
        s₁.stored = s₀.stored ++ [⟨k, g, t, false⟩] → along (silent k g) s₁ after = true →
        ∀ i c l now, s.calls i = some c → c.phase = .locked l → c.key = k → c.generation = g →
          t.usable now c.cfg.refreshSkewSecs = true →
          ∃ s', step s (.recheck i now) = some s' ∧ s'.calls i = some { c with phase := waiterPhase s k g t l } := by
  have hfly {as : List Action} {s' : Sys} (h : run {} as =
      some s') (hb : bumps {} as < 2 ^ 64) (hc : along calm {} as = true) :
      s'.st.Bounded (0 + bumps {} as) ∧ Flying s' :=
    run_keeps_along (fun s a s' n h hb hn hp hs => step_flying h hb hn hp hs) h bounded_init (by omega) hc flying_init
  refine ⟨fun x y k g hx hy => ?_, fun before a after s₀ s₁ k g t hacts h₀ h₁ hstored hsilent i c l now hc hp hkey hgen
    husable => ?_⟩
  · obtain ⟨l, hl⟩ := request_admitted hx
    obtain ⟨l', hl'⟩ := request_admitted hy
    exact (hfly h hbumps hcalm).2.2.alone x y _ _ hl hl' rfl rfl rfl rfl
  · subst hacts
    rw [run_append h₀, run_cons, h₁] at h
    rw [along_append h₀, along_cons h₁] at hcalm
    rw [bumps_append h₀, bumps_cons h₁] at hbumps
    obtain ⟨hb₀, hs₀⟩ := hfly h₀ (by omega) hcalm.1
    have hn₁ : 0 + bumps {} before + bumpsBy s₀ a < 2 ^ 64 := by omega
    have hserved := run_keeps_along (p := fun s a => calm s a && silent k g s a) (I := fun s => Sound s ∧ Served k g t s)
      (fun s a s' n h hb hn hp hs => by
        rw [Bool.and_eq_true] at hp
        exact ⟨step_sound_kept h hb hn hs.1, step_served h hb hn hs.1 hp.1 hp.2 hs.2⟩) h
      (step_bounded (step_sound h₁) hb₀ hn₁) (by omega) (along_and hcalm.2.2 hsilent)
      ⟨step_sound_kept (step_sound h₁) hb₀ hn₁ hs₀.1, served_of_store (step_sound h₁) hs₀.2 hstored⟩
    refine ⟨s.advance i c (recheckPhase s.st c l now), ?_, ?_⟩
    · simp [step, Action.party, hc, stepCall, hp]
    · rw [served_recheck hserved.2.2 hkey hgen husable]
      simp [waiterPhase]

end Runs

/-! Two sends whose lookups fall on both sides of the second half of a workspace delete. -/

/-- A token of the workspace, already expired, with a refresh token. -/
def rotatingToken : CachedToken := ⟨"granted".toList, "Bearer".toList, some 10, some "rotating".toList⟩

/-- Calls 0 and 2 look their lock up before the delete drops it, call 1 after that. -/
def racingDelete : List Action :=
  [.wipe (.clearPartition "ws".toList), .start 0 sendKey sendCfg 0, .lockFor 0, .start 2 sendKey sendCfg 0, .lockFor 2,
    .dropLocks "ws".toList, .start 1 sendKey sendCfg 0, .lockFor 1, .acquire 0, .recheck 0 0,
    .clientCredentials 0 (.ok rotatingToken), .store 0 0, .acquire 2, .recheck 2 100, .register 2 20 100, .acquire 1,
    .recheck 1 100, .register 1 10 100]

/-- Both refresh tasks are of one key and generation, and present the same refresh token. -/
theorem racing_delete_refreshes_twice : ∃ s, @run unboundedChrono {} racingDelete = some s ∧
    s.request (.task 10) = some (sendKey, ⟨0, 1, 0, 0⟩) ∧ s.request (.task 20) = some (sendKey, ⟨0, 1, 0, 0⟩) ∧
    (s.tasks 10).map Task.rt = some "rotating".toList ∧ (s.tasks 20).map Task.rt = some "rotating".toList :=
  ⟨_, rfl, by decide, by decide, by decide, by decide⟩

/-! One send waits for the token of another. -/

def untilGranted : List Action :=
  [.start 0 sendKey sendCfg 0, .lockFor 0, .acquire 0, .recheck 0 0, .start 1 sendKey sendCfg 0, .lockFor 1,
    .clientCredentials 0 (.ok grantedToken)]

def reachedBy (acts : List Action) : Sys := (@run unboundedChrono {} acts).getD {}

theorem calm_single_flight_waiter :
    ∃ s', @step unboundedChrono (reachedBy (untilGranted ++ [.store 0 0, .acquire 1])) (.recheck 1 0) = some s' ∧
      s'.calls 1 = some ⟨sendKey, sendCfg, ⟨0, 0, 0, 0⟩, .answered (.ok grantedToken)⟩ :=
  (@calm_single_flight unboundedChrono (untilGranted ++ [.store 0 0, .acquire 1]) (reachedBy _) rfl (by decide)
    (by decide)).2 untilGranted (.store 0 0) [.acquire 1] (reachedBy untilGranted)
    (reachedBy (untilGranted ++ [.store 0 0])) sendKey ⟨0, 0, 0, 0⟩ grantedToken rfl rfl rfl rfl (by decide) 1
    ⟨sendKey, sendCfg, ⟨0, 0, 0, 0⟩, .locked 0⟩ 0 0 rfl rfl rfl rfl (by decide)

end Anvil.Auth
