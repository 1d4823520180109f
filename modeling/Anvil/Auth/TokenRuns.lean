import Anvil.Auth.TokenCalls

/-!
# Steps of the token cache and what they keep

* `Effect` : what a step does to the entries and to the generations; `step_effect` : every step does one of these;
* `CallsAfter`, `TasksAfter` : what it does to the calls and the tasks; a call keeps its key and its generation;
* `step_le` : generations only move up, as long as no counter wraps;
* `Sound` : every call belongs to a generation that is not above the current one, and a task to that of its caller;
* `run_keeps`, `run_keeps_along` : the rule for runs that start fewer than `2^64` generations.
-/

namespace Anvil.Auth
open Anvil.Lib

namespace Sys
variable (s : Sys) (i : Nat) (c : Call) (phase : Phase)

theorem advance_eq : s.advance i c phase =
    { s with
      calls := Function.update s.calls i (some { c with phase := phase })
      held := (s.advance i c phase).held } := by
  unfold advance release
  split_ifs
  · split <;> rfl
  · rfl

@[simp] theorem advance_st : (s.advance i c phase).st = s.st := by rw [advance_eq]

@[simp] theorem advance_stored : (s.advance i c phase).stored = s.stored := by rw [advance_eq]

@[simp] theorem advance_tasks : (s.advance i c phase).tasks = s.tasks := by rw [advance_eq]

@[simp] theorem advance_locks : (s.advance i c phase).locks = s.locks := by rw [advance_eq]

@[simp] theorem advance_clearing : (s.advance i c phase).clearing = s.clearing := by rw [advance_eq]

@[simp] theorem advance_calls :
    (s.advance i c phase).calls = Function.update s.calls i (some { c with phase := phase }) := by rw [advance_eq]

theorem detach_eq (t : Nat) : s.detach t = { s with tasks := (s.detach t).tasks, held := (s.detach t).held } := by
  unfold detach
  split
  · split <;> rfl
  · rfl

end Sys

/-! ## What a step does to the entries -/

section Effect
variable [Chrono]

/-- The acquisition a step belongs to, with its key and its generation. A refresh task acts for its caller. -/
def acting (s : Sys) (a : Action) : Option (Nat × TokenKey × Generation) :=
  match a.party with
  | some (.call i) => (s.calls i).map fun c => (i, c.key, c.generation)
  | some (.task t) => (s.tasks t).map fun k => (k.caller, k.key, k.generation)
  | none => none

/-- A call or a task of the current generation of the key is about to write. -/
inductive Writing (s : Sys) (k : TokenKey) : Prop
  | call (i : Nat) (c : Call) (l : Nat) (t : CachedToken) : s.calls i = some c → c.phase = .storing l t → c.key = k →
      c.generation = s.st.generationOf k → Writing s k
  | task (u : Nat) (κ : Task) (b : Except TokenFailure CachedToken) : s.tasks u = some κ → κ.phase = .finished b →
      κ.key = k → κ.generation = s.st.generationOf k → Writing s k

/-- What a step does to the state that the generations guard. -/
inductive Effect (s : Sys) (a : Action) (s' : Sys) : Prop
  | quiet : s'.st.generationOf = s.st.generationOf → s'.st.entries = s.st.entries → s'.stored = s.stored → Effect s a s'
  | wrote (i : Nat) (k : TokenKey) (t : Option CachedToken) : acting s a = some (i, k, s.st.generationOf k) → Writing s k →
      s'.st.generationOf = s.st.generationOf → s'.st.entries = Function.update s.st.entries k t →
      s'.stored = s.stored ++ (t.map fun t => ⟨k, s.st.generationOf k, t, false⟩).toList → Effect s a s'
  | signedIn (i : Nat) (c : Call) (t : CachedToken) : a = .storeSignIn i t → s.calls i = some c →
      s.st.generationOf c.key = c.generation → s'.st = (s.st.storeSignIn c.key c.generation t).1 →
      s'.stored = s.stored ++ [⟨c.key, c.generation, t, true⟩] → Effect s a s'
  | wiped (w : Wipe) : a = .wipe w → s'.st = (s.st.wipe w).1 → s'.stored = s.stored → Effect s a s'

variable {s s' : Sys} {a : Action}

theorem storeToken_of_current {st : CacheState} {k : TokenKey} {g : Generation} (h : st.generationOf k = g) (skew : Int)
    (t : CachedToken) (now : Int) :
    storeToken st k g skew t now = (st.setEntry k (some t), .ok t, some ⟨k, g, t, false⟩) := by
  unfold storeToken
  rw [CacheState.insertIfCurrent_of_current h]
  rfl

theorem storeToken_of_stale {st : CacheState} {k : TokenKey} {g : Generation} (h : st.generationOf k ≠ g) (skew : Int)
    (t : CachedToken) (now : Int) : storeToken st k g skew t now = (st, st.supersededAnswer k g skew now, none) := by
  unfold storeToken
  rw [CacheState.insertIfCurrent_of_stale h]
  rfl

/-- What the end of a task of generation `g` makes of the entries. -/
theorem conclusion_cases (st : CacheState) (k : Task) (now : Int) (a : Except TokenFailure CachedToken) :
    ((conclusion st k now a).1 = st ∧ (conclusion st k now a).2.2 = none ∧
      ∀ t, (conclusion st k now a).2.1 = .done (.ok t) →
        st.supersededAnswer k.key k.generation k.cfg.refreshSkewSecs now = .ok t) ∨
    st.generationOf k.key = k.generation ∧ ∃ t, (conclusion st k now a).1 = st.setEntry k.key t ∧
      ((conclusion st k now a).2.2 = t.map fun t => ⟨k.key, k.generation, t, false⟩) ∧
      ∀ t', (conclusion st k now a).2.1 = .done (.ok t') → t = some t' := by
  unfold conclusion
  split
  · by_cases hg : st.generationOf k.key = k.generation
    · rw [storeToken_of_current hg]
      exact Or.inr ⟨hg, some _, rfl, rfl, fun t' ht => by simpa using ht⟩
    · rw [storeToken_of_stale hg]
      refine Or.inl ⟨rfl, rfl, fun t ht => ?_⟩
      simpa using ht
  · split_ifs
    · exact Or.inl ⟨rfl, rfl, fun t ht => by simp at ht⟩
    · split
      · split_ifs
        · by_cases hg : st.generationOf k.key = k.generation
          · unfold CacheState.forgetRejectedRefresh
            rw [if_neg (not_not.2 hg)]
            split_ifs
            · exact Or.inr ⟨hg, none, rfl, rfl, fun t' ht => by simp at ht⟩
            · exact Or.inl ⟨rfl, rfl, fun t ht => by simp at ht⟩
          · rw [CacheState.forgetRejectedRefresh_of_stale hg]
            exact Or.inl ⟨rfl, rfl, fun t ht => by simp at ht⟩
        · exact Or.inl ⟨rfl, rfl, fun t ht => by simp at ht⟩
      · exact Or.inl ⟨rfl, rfl, fun t ht => by simp at ht⟩

theorem conclude_st (t : Nat) (k : Task) (a : Except TokenFailure CachedToken) (now : Int) :
    (s.conclude t k a now).st = (conclusion s.st k now a).1 ∧
      (s.conclude t k a now).stored = s.stored ++ (conclusion s.st k now a).2.2.toList := by
  unfold Sys.conclude
  dsimp only
  split <;> exact ⟨rfl, rfl⟩

theorem CallStep.effect {i : Nat} {c : Call} (hc : s.calls i = some c) (ha : a.party = some (.call i))
    (h : CallStep s i c a s') : Effect s a s' := by
  have hact : acting s a = some (i, c.key, c.generation) := by
    unfold acting
    rw [ha]
    simp [hc]
  cases h with
  | move _ => exact .quiet (by simp) (by simp) (by simp)
  | newLock _ _ => exact .quiet (by simp) (by simp) (by simp)
  | acquire l _ _ => exact .quiet rfl rfl rfl
  | spawn l rt t now _ _ _ => exact .quiet (by simp) (by simp) rfl
  | join t k r _ _ _ => exact .quiet rfl rfl rfl
  | fallback t k _ _ _ => exact .quiet rfl rfl rfl
  | store l t now hp =>
    unfold Sys.storeCall
    by_cases hg : s.st.generationOf c.key = c.generation
    · rw [storeToken_of_current hg]
      exact .wrote i c.key (some t) (by rw [hact, hg]) (.call i c l t hc hp rfl hg.symm) rfl rfl (by simp [Sys.write, hg])
    · rw [storeToken_of_stale hg]
      exact .quiet rfl rfl (by simp [Sys.write])
  | signIn t _ =>
    unfold Sys.storeSignIn
    by_cases hg : s.st.generationOf c.key = c.generation
    · refine .signedIn i c t rfl hc hg rfl ?_
      rw [CacheState.storeSignIn_of_current t hg]
      rfl
    · rw [CacheState.storeSignIn_of_stale t hg]
      exact .quiet rfl rfl (by simp [Sys.write, Sys.setCall])
  | detach t _ =>
    rw [Sys.detach_eq]
    exact .quiet rfl rfl rfl

theorem TaskStep.effect {t : Nat} {k : Task} (hk : s.tasks t = some k) (ha : a.party = some (.task t))
    (h : TaskStep s t k a s') : Effect s a s' := by
  have hact : acting s a = some (k.caller, k.key, k.generation) := by
    unfold acting
    rw [ha]
    simp [hk]
  cases h with
  | respond b _ => exact .quiet rfl rfl rfl
  | refreshFinished b _ => exact .quiet (by simp) (by simp) rfl
  | conclude b now hp =>
    obtain ⟨hst, hstored⟩ := conclude_st (s := s) t k b now
    rcases conclusion_cases s.st k now b with ⟨h1, h2, -⟩ | ⟨hg, tok, h1, h2, -⟩
    · exact .quiet (by rw [hst, h1]) (by rw [hst, h1]) (by rw [hstored, h2]; simp)
    · refine .wrote k.caller k.key tok (by rw [hact, hg]) (.task t k b hk hp rfl hg.symm) (by rw [hst, h1]; rfl)
        (by rw [hst, h1]; rfl) ?_
      rw [hstored, h2, hg]
  | stop phase _ _ => exact .quiet rfl rfl rfl

theorem step_effect (h : Step s a s') : Effect s a s' := by
  cases h with
  | begin i key cfg phase _ _ _ => exact .quiet rfl rfl rfl
  | call i c hc ha h => exact h.effect hc ha
  | task t k hk ha h => exact h.effect hk ha
  | wipe w => exact .wiped w rfl rfl rfl
  | dropLocks p _ => exact .quiet rfl rfl rfl

end Effect

/-! ## What a step does to the calls and the tasks -/

section Frame
variable [Chrono] {s s' : Sys} {a : Action}

theorem firstPhase_ne_awaiting (st : CacheState) (c : Call) (now : Int) (t : Nat) : firstPhase st c now ≠ .awaiting t := by
  unfold firstPhase
  split
  · split_ifs <;> simp
  · simp

omit [Chrono] in
theorem grantPhase_ne_awaiting (c : Call) (l t : Nat) : grantPhase c l ≠ .awaiting t := by
  unfold grantPhase
  split_ifs <;> simp

theorem recheckPhase_ne_awaiting (st : CacheState) (c : Call) (l : Nat) (now : Int) (t : Nat) :
    recheckPhase st c l now ≠ .awaiting t := by
  unfold recheckPhase
  split_ifs
  · simp
  · split
    · split_ifs
      · simp
      · split
        · simp
        · exact grantPhase_ne_awaiting c l t
    · exact grantPhase_ne_awaiting c l t

theorem Moves.ne_awaiting {i : Nat} {c : Call} {phase : Phase} (h : Moves s i c a phase) (t : Nat) :
    phase ≠ .awaiting t := by
  cases h with
  | since now _ =>
    unfold sincePhase
    split_ifs
    · simp
    · exact firstPhase_ne_awaiting _ _ _ t
  | recheck l now _ => exact recheckPhase_ne_awaiting _ _ _ _ t
  | _ => simp

/-- Where the token that a step answers `c` with comes from, the generation of `c` being superseded. -/
def Answers (s : Sys) (c : Call) (t : CachedToken) : Prop :=
  s.st.generationOf c.key = c.generation ∨
    (s.st.entries c.key = some t ∧ (s.st.generationOf c.key).base = c.generation.base) ∨
    ∃ u k, c.phase = .awaiting u ∧ s.tasks u = some k ∧ k.phase.result = some (.ok t)

/-- A step goes on with one call, or begins one. -/
inductive CallsAfter (s s' : Sys) : Prop
  | same : s'.calls = s.calls → CallsAfter s s'
  | moved (i : Nat) (c : Call) (phase : Phase) : s.calls i = some c →
      (∀ t, phase = .awaiting t → ∃ k, s'.tasks t = some k ∧ k.caller = i) →
      (∀ t, phase = .answered (.ok t) → Answers s c t) →
      s'.calls = Function.update s.calls i (some { c with phase := phase }) → CallsAfter s s'
  | begun (i : Nat) (key : TokenKey) (cfg : OAuthResolved) (phase : Phase) : s.calls i = none → phase.isFirst = true →
      s'.calls = Function.update s.calls i (some ⟨key, cfg, s.st.generationOf key, phase⟩) → CallsAfter s s'

/-- A step goes on with one task, or spawns one for a call. -/
inductive TasksAfter (s s' : Sys) : Prop
  | same : s'.tasks = s.tasks → TasksAfter s s'
  | moved (t : Nat) (k : Task) (phase : TaskPhase) : s.tasks t = some k →
      (∀ r, phase = .ended (.done r) → ∃ b now, (conclusion s.st k now b).2.1 = .done r ∧
        s'.stored = s.stored ++ (conclusion s.st k now b).2.2.toList) →
      s'.tasks = Function.update s.tasks t (some { k with phase := phase }) → TasksAfter s s'
  | spawned (t i : Nat) (c : Call) (k : Task) : s.tasks t = none → s.calls i = some c → k.caller = i → k.key = c.key →
      k.generation = c.generation → k.phase = .asking → s'.tasks = Function.update s.tasks t (some k) → TasksAfter s s'

theorem conclude_tasks (t : Nat) (k : Task) (a : Except TokenFailure CachedToken) (now : Int) :
    ∃ phase, (s.conclude t k a now).tasks = Function.update s.tasks t (some { k with phase := phase }) ∧
      (s.conclude t k a now).calls = s.calls ∧
      ∀ r, phase = .ended (.done r) → (conclusion s.st k now a).2.1 = .done r := by
  unfold Sys.conclude
  dsimp only
  split
  · exact ⟨_, rfl, rfl, fun r hr => by simp at hr⟩
  · rename_i heq
    exact ⟨_, rfl, rfl, fun r hr => by simpa [heq] using hr⟩
  · exact ⟨_, rfl, rfl, fun r hr => by simp at hr⟩

omit [Chrono] in
theorem detach_tasks (t : Nat) : (s.detach t).tasks = s.tasks ∨
    ∃ k, s.tasks t = some k ∧ (s.detach t).tasks = Function.update s.tasks t (some { k with phase := .joined }) := by
  unfold Sys.detach
  cases hk : s.tasks t with
  | none => exact Or.inl rfl
  | some k =>
    dsimp only
    split
    · exact Or.inr ⟨k, rfl, rfl⟩
    · exact Or.inl rfl

theorem recheckPhase_of_stale {st : CacheState} {c : Call} (h : st.generationOf c.key ≠ c.generation) (l : Nat) (now : Int) :
    recheckPhase st c l now = .overtaken (some l) := if_pos h

theorem answers_superseded {c : Call} {now : Int} {t : CachedToken}
    (h : Phase.answered (s.st.supersededAnswer c.key c.generation c.cfg.refreshSkewSecs now) = .answered (.ok t)) :
    Answers s c t := Or.inr (Or.inl (CacheState.supersededAnswer_ok (Phase.answered.inj h)))

theorem Moves.answers {i : Nat} {c : Call} {phase : Phase} (h : Moves s i c a phase) {t : CachedToken}
    (ht : phase = .answered (.ok t)) : Answers s c t := by
  by_cases hg : s.st.generationOf c.key = c.generation
  · exact Or.inl hg
  cases h with
  | since now _ =>
    rw [sincePhase, if_pos hg] at ht
    cases ht
  | recheck l now _ =>
    rw [recheckPhase_of_stale hg] at ht
    cases ht
  | overtaken l now _ => exact answers_superseded ht
  | unregistered l rt u now _ _ => exact answers_superseded ht
  | _ => simp at ht

theorem CallStep.callsAfter {i : Nat} {c : Call} (hc : s.calls i = some c) (h : CallStep s i c a s') : CallsAfter s s' := by
  cases h with
  | @move _ phase h =>
    exact .moved i c phase hc (fun t ht => absurd ht (h.ne_awaiting t)) (fun t ht => h.answers ht) (by simp)
  | newLock _ _ =>
    exact .moved i c (.waiting s.nextLock) hc (fun t ht => by simp at ht) (fun t ht => by simp at ht) (by simp)
  | acquire l _ _ => exact .moved i c (.locked l) hc (fun t ht => by simp at ht) (fun t ht => by simp at ht) rfl
  | spawn l rt t now _ _ _ =>
    refine .moved i c (.awaiting t) hc (fun t' ht => ?_) (fun t ht => by simp at ht) rfl
    cases ht
    exact ⟨_, Function.update_self .., rfl⟩
  | join t k r hp hk hr =>
    refine .moved i c (.answered r) hc (fun t ht => by simp at ht) (fun t' ht => ?_) rfl
    exact Or.inr (Or.inr ⟨t, k, hp, hk, by rw [hr, Phase.answered.inj ht]⟩)
  | fallback t k _ _ _ =>
    exact .moved i c (.requesting k.lock) hc (fun t ht => by simp at ht) (fun t ht => by simp at ht) rfl
  | store l t now _ =>
    refine .moved i c (.answered (storeToken s.st c.key c.generation c.cfg.refreshSkewSecs t now).2.1) hc
      (fun t ht => by simp at ht) (fun t' ht => ?_) (Sys.advance_calls ..)
    by_cases hg : s.st.generationOf c.key = c.generation
    · exact Or.inl hg
    · rw [storeToken_of_stale hg] at ht
      exact answers_superseded ht
  | signIn t _ =>
    exact .moved i c (.signedIn (s.st.storeSignIn c.key c.generation t).2) hc (fun t ht => by simp at ht)
      (fun t ht => by simp at ht) rfl
  | detach t _ =>
    refine .moved i c .dropped hc (fun t ht => by simp at ht) (fun t ht => by simp at ht) ?_
    rw [Sys.detach_eq]
    rfl

theorem CallStep.tasksAfter {i : Nat} {c : Call} (hc : s.calls i = some c) (h : CallStep s i c a s') : TasksAfter s s' := by
  cases h with
  | move h => exact .same (by simp)
  | newLock _ _ => exact .same (by simp)
  | acquire l _ _ => exact .same rfl
  | spawn l rt t now _ ht _ => exact .spawned t i c _ ht hc rfl rfl rfl rfl rfl
  | join t k r _ hk _ => exact .moved t k .joined hk (fun r hr => by simp at hr) rfl
  | fallback t k _ hk _ => exact .moved t k .joined hk (fun r hr => by simp at hr) rfl
  | store l t now _ =>
    refine .same ?_
    unfold Sys.storeCall
    simp [Sys.write]
  | signIn t _ => exact .same rfl
  | detach t _ =>
    rcases detach_tasks (s := s) t with heq | ⟨k, hk, heq⟩
    · exact .same heq
    · exact .moved t k .joined hk (fun r hr => by simp at hr) heq

theorem step_callsAfter (h : Step s a s') : CallsAfter s s' := by
  cases h with
  | begin i key cfg phase hi hp _ => exact .begun i key cfg phase hi hp rfl
  | call i c hc _ h => exact h.callsAfter hc
  | task t k hk _ h =>
    refine .same ?_
    cases h with
    | conclude b now _ => exact (conclude_tasks t k b now).choose_spec.2.1
    | _ => rfl
  | wipe w => exact .same rfl
  | dropLocks p _ => exact .same rfl

theorem step_tasksAfter (h : Step s a s') : TasksAfter s s' := by
  cases h with
  | begin i key cfg phase _ _ _ => exact .same rfl
  | call i c hc _ h => exact h.tasksAfter hc
  | task t k hk _ h =>
    cases h with
    | respond b _ => exact .moved t k (.answered b) hk (fun r hr => by simp at hr) rfl
    | refreshFinished b _ => exact .moved t k (.finished b) hk (fun r hr => by simp at hr) rfl
    | conclude b now _ =>
      obtain ⟨phase, htasks, -, hr⟩ := conclude_tasks (s := s) t k b now
      exact .moved t k phase hk (fun r h => ⟨b, now, hr r h, (conclude_st t k b now).2⟩) htasks
    | stop phase _ hp =>
      refine .moved t k phase hk (fun r hr => ?_) rfl
      rcases hp with rfl | ⟨m, rfl⟩ <;> simp at hr
  | wipe w => exact .same rfl
  | dropLocks p _ => exact .same rfl

/-- A call keeps its key and its generation. -/
theorem step_keeps_call (h : Step s a s') {i : Nat} {c : Call} (hc : s.calls i = some c) :
    ∃ c', s'.calls i = some c' ∧ c'.key = c.key ∧ c'.generation = c.generation := by
  cases step_callsAfter h with
  | same heq => exact ⟨c, by rw [heq, hc], rfl, rfl⟩
  | moved j d phase hd _ _ heq =>
    by_cases hij : i = j
    · subst hij
      obtain rfl : d = c := Option.some.inj (hd.symm.trans hc)
      exact ⟨{ d with phase := phase }, by rw [heq, Function.update_self], rfl, rfl⟩
    · exact ⟨c, by rw [heq, Function.update_of_ne hij, hc], rfl, rfl⟩
  | begun j key cfg phase hj _ heq =>
    have hij : i ≠ j := by
      rintro rfl
      simp [hj] at hc
    exact ⟨c, by rw [heq, Function.update_of_ne hij, hc], rfl, rfl⟩

/-- A call that is there after a step was there before it, or has just taken the current generation. -/
theorem step_call_origin (h : Step s a s') {i : Nat} {c' : Call} (hc' : s'.calls i = some c') :
    (∃ c, s.calls i = some c ∧ c'.key = c.key ∧ c'.generation = c.generation) ∨
      c'.generation = s.st.generationOf c'.key := by
  cases step_callsAfter h with
  | same heq => exact Or.inl ⟨c', by rw [← heq, hc'], rfl, rfl⟩
  | moved j d phase hd _ _ heq =>
    rw [heq, Function.update_apply] at hc'
    split_ifs at hc' with hij
    · subst hij
      cases hc'
      exact Or.inl ⟨d, hd, rfl, rfl⟩
    · exact Or.inl ⟨c', hc', rfl, rfl⟩
  | begun j key cfg phase hj _ heq =>
    rw [heq, Function.update_apply] at hc'
    split_ifs at hc' with hij
    · cases hc'
      exact Or.inr rfl
    · exact Or.inl ⟨c', hc', rfl, rfl⟩

end Frame

/-! ## The order of the generations along a run -/

section Order
variable [Chrono] {s s' : Sys} {a : Action} {n : Nat}

omit [Chrono] in
theorem bumpsBy_signedIn {i : Nat} {c : Call} {t : CachedToken} (hc : s.calls i = some c)
    (hg : s.st.generationOf c.key = c.generation) : bumpsBy s (.storeSignIn i t) = 1 := by
  simp [bumpsBy, bumpsIn, hc, hg]

theorem step_bounded (h : Step s a s') (hb : s.st.Bounded n) (hn : n + bumpsBy s a < 2 ^ 64) :
    s'.st.Bounded (n + bumpsBy s a) := by
  have hquiet (hg : s'.st.generationOf = s.st.generationOf) : s'.st.Bounded (n + bumpsBy s a) := by
    have hb' := hb.congr hg
    unfold bumpsBy
    split_ifs
    · exact hb'.succ
    · exact hb'
  cases step_effect h with
  | quiet hg _ _ => exact hquiet hg
  | wrote i k t _ _ hg _ _ => exact hquiet hg
  | signedIn i c t ha hc hg hst _ =>
    subst ha
    rw [bumpsBy_signedIn hc hg] at hn ⊢
    rw [hst]
    exact hb.storeSignIn t hn
  | wiped w ha hst _ =>
    subst ha
    rw [hst]
    exact hb.wipe hn w

theorem step_le (h : Step s a s') (hb : s.st.Bounded n) (hn : n + bumpsBy s a < 2 ^ 64) (k : TokenKey) :
    s.st.generationOf k ≤ s'.st.generationOf k := by
  cases step_effect h with
  | quiet hg _ _ => rw [hg]
  | wrote i k t _ _ hg _ _ => rw [hg]
  | signedIn i c t ha hc hg hst _ =>
    subst ha
    rw [bumpsBy_signedIn hc hg] at hn
    rw [hst]
    exact CacheState.generationOf_le_storeSignIn t hb hn k
  | wiped w ha hst _ =>
    subst ha
    rw [hst]
    exact CacheState.generationOf_le_wipe hb hn w k

/-- No call is of a generation above the current one, and a task is of its caller's. -/
structure Sound (s : Sys) : Prop where
  calls : ∀ i c, s.calls i = some c → c.generation ≤ s.st.generationOf c.key
  tasks : ∀ t k, s.tasks t = some k →
    ∃ c, s.calls k.caller = some c ∧ c.key = k.key ∧ c.generation = k.generation
  awaited : ∀ i c t, s.calls i = some c → c.phase = .awaiting t → ∃ k, s.tasks t = some k ∧ k.caller = i

omit [Chrono] in
theorem sound_init : Sound {} := ⟨fun _ _ h => by simp at h, fun _ _ h => by simp at h, fun _ _ _ h => by simp at h⟩

theorem step_keeps_task (h : Step s a s') {t : Nat} {k : Task} (hk : s.tasks t = some k) :
    ∃ k', s'.tasks t = some k' ∧ k'.caller = k.caller := by
  cases step_tasksAfter h with
  | same heq => exact ⟨k, by rw [heq, hk], rfl⟩
  | moved u k' phase hu _ heq =>
    by_cases htu : t = u
    · subst htu
      obtain rfl : k' = k := Option.some.inj (hu.symm.trans hk)
      exact ⟨{ k' with phase := phase }, by rw [heq, Function.update_self], rfl⟩
    · exact ⟨k, by rw [heq, Function.update_of_ne htu, hk], rfl⟩
  | spawned u i c k' hu _ _ _ _ _ heq =>
    have htu : t ≠ u := by
      rintro rfl
      simp [hu] at hk
    exact ⟨k, by rw [heq, Function.update_of_ne htu, hk], rfl⟩

/-- A task that is there after a step is one of before, or of a call of before. -/
theorem step_task_origin (h : Step s a s') {t : Nat} {k' : Task} (hk' : s'.tasks t = some k') :
    (∃ k, s.tasks t = some k ∧ k'.caller = k.caller ∧ k'.key = k.key ∧ k'.generation = k.generation) ∨
      ∃ c, s.calls k'.caller = some c ∧ k'.key = c.key ∧ k'.generation = c.generation := by
  cases step_tasksAfter h with
  | same heq => exact Or.inl ⟨k', by rw [← heq, hk'], rfl, rfl, rfl⟩
  | moved u k phase hu _ heq =>
    rw [heq, Function.update_apply] at hk'
    split_ifs at hk' with htu
    · subst htu
      cases hk'
      exact Or.inl ⟨k, hu, rfl, rfl, rfl⟩
    · exact Or.inl ⟨k', hk', rfl, rfl, rfl⟩
  | spawned u i c k _ hc hi hkey hgen _ heq =>
    rw [heq, Function.update_apply] at hk'
    split_ifs at hk' with htu
    · cases hk'
      exact Or.inr ⟨c, by rw [hi, hc], hkey, hgen⟩
    · exact Or.inl ⟨k', hk', rfl, rfl, rfl⟩

theorem step_sound_kept (h : Step s a s') (hb : s.st.Bounded n) (hn : n + bumpsBy s a < 2 ^ 64) (hs : Sound s) :
    Sound s' where
  calls i c' hc' := by
    rcases step_call_origin h hc' with ⟨c, hc, hkey, hgen⟩ | hgen
    · rw [hkey, hgen]
      exact (hs.calls i c hc).trans (step_le h hb hn _)
    · rw [hgen]
      exact step_le h hb hn _
  tasks t k' hk' := by
    have hcaller : ∃ c, s.calls k'.caller = some c ∧ c.key = k'.key ∧ c.generation = k'.generation := by
      rcases step_task_origin h hk' with ⟨k, hk, hi, hkey, hgen⟩ | ⟨c, hc, hkey, hgen⟩
      · rw [hi, hkey, hgen]
        exact hs.tasks t k hk
      · exact ⟨c, hc, hkey.symm, hgen.symm⟩
    obtain ⟨c, hc, hkey, hgen⟩ := hcaller
    obtain ⟨c', hc', hkey', hgen'⟩ := step_keeps_call h hc
    exact ⟨c', hc', hkey'.trans hkey, hgen'.trans hgen⟩
  awaited i c' t hc' hphase := by
    have hkept (c : Call) (hc : s.calls i = some c) (hp : c.phase = .awaiting t) :
        ∃ k, s'.tasks t = some k ∧ k.caller = i := by
      obtain ⟨k, hk, hi⟩ := hs.awaited i c t hc hp
      obtain ⟨k', hk', hi'⟩ := step_keeps_task h hk
      exact ⟨k', hk', hi'.trans hi⟩
    cases step_callsAfter h with
    | same heq => exact hkept c' (by rw [← heq, hc']) hphase
    | moved j d phase hd htask _ heq =>
      rw [heq, Function.update_apply] at hc'
      split_ifs at hc' with hij
      · subst hij
        cases hc'
        exact htask t hphase
      · exact hkept c' hc' hphase
    | begun j key cfg phase hj hp heq =>
      rw [heq, Function.update_apply] at hc'
      split_ifs at hc' with hij
      · cases hc'
        change phase = .awaiting t at hphase
        simp [hphase, Phase.isFirst] at hp
      · exact hkept c' hc' hphase

end Order

/-! ## Runs -/

section Runs
variable [Chrono] {s s' s₁ : Sys} {a : Action} {as bs : List Action} {n : Nat}

theorem run_cons : run s (a :: as) = (step s a).bind fun s₁ => run s₁ as := rfl

theorem run_append (h : run s as = some s₁) : run s (as ++ bs) = run s₁ bs := by
  unfold run at h ⊢
  rw [List.foldlM_append, h]
  rfl

theorem bumps_cons (h : step s a = some s₁) : bumps s (a :: as) = bumpsBy s a + bumps s₁ as := by simp [bumps, h]

theorem bumps_append (h : run s as = some s₁) : bumps s (as ++ bs) = bumps s as + bumps s₁ bs := by
  induction as generalizing s with
  | nil =>
    cases h
    simp [bumps]
  | cons a as ih =>
    rw [run_cons] at h
    obtain ⟨s₂, h₂, h⟩ := Option.bind_eq_some_iff.1 h
    rw [List.cons_append, bumps_cons h₂, bumps_cons h₂, ih h, Nat.add_assoc]

/-- Every step of the run meets `p`. -/
def along (p : Sys → Action → Bool) (s : Sys) : List Action → Bool
  | [] => true
  | a :: as => p s a && ((step s a).map fun s' => along p s' as).getD true

theorem along_cons {p : Sys → Action → Bool} (h : step s a = some s₁) :
    along p s (a :: as) = true ↔ p s a = true ∧ along p s₁ as = true := by simp [along, h]

theorem along_append {p : Sys → Action → Bool} (h : run s as = some s₁) :
    along p s (as ++ bs) = true ↔ along p s as = true ∧ along p s₁ bs = true := by
  induction as generalizing s with
  | nil =>
    cases h
    simp [along]
  | cons a as ih =>
    rw [run_cons] at h
    obtain ⟨s₂, h₂, h⟩ := Option.bind_eq_some_iff.1 h
    rw [List.cons_append, along_cons h₂, along_cons h₂, ih h, and_assoc]

theorem along_and {p q : Sys → Action → Bool} (hp : along p s as = true) (hq : along q s as = true) :
    along (fun s a => p s a && q s a) s as = true := by
  induction as generalizing s with
  | nil => rfl
  | cons a as ih =>
    unfold along at hp hq ⊢
    rw [Bool.and_eq_true] at hp hq ⊢
    refine ⟨by rw [hp.1, hq.1]; rfl, ?_⟩
    cases hstep : step s a with
    | none => rfl
    | some s₁ =>
      rw [hstep] at hp hq
      exact ih hp.2 hq.2

/-- What the steps of a run keep while no counter wraps holds at its end, if it starts fewer than `2^64` generations. -/
theorem run_keeps_along {p : Sys → Action → Bool} {I : Sys → Prop}
    (hstep : ∀ s a s' n, Step s a s' → s.st.Bounded n → n + bumpsBy s a < 2 ^ 64 → p s a = true → I s → I s')
    (h : run s as = some s') (hb : s.st.Bounded n) (hn : n + bumps s as < 2 ^ 64) (hp : along p s as = true) (hs : I s) :
    s'.st.Bounded (n + bumps s as) ∧ I s' := by
  induction as generalizing s n with
  | nil =>
    cases h
    exact ⟨hb, hs⟩
  | cons a as ih =>
    rw [run_cons] at h
    obtain ⟨s₁, h₁, h⟩ := Option.bind_eq_some_iff.1 h
    rw [bumps_cons h₁, ← Nat.add_assoc] at hn ⊢
    obtain ⟨hpa, hpas⟩ := (along_cons h₁).1 hp
    have hn₁ : n + bumpsBy s a < 2 ^ 64 := by omega
    exact ih h (step_bounded (step_sound h₁) hb hn₁) hn hpas (hstep s a s₁ n (step_sound h₁) hb hn₁ hpa hs)

theorem along_true : along (fun _ _ => true) s as = true := by
  induction as generalizing s with
  | nil => rfl
  | cons a as ih =>
    unfold along
    cases step s a with
    | none => rfl
    | some s₁ => simpa using ih

theorem run_keeps {I : Sys → Prop}
    (hstep : ∀ s a s' n, Step s a s' → s.st.Bounded n → n + bumpsBy s a < 2 ^ 64 → I s → I s')
    (h : run s as = some s') (hb : s.st.Bounded n) (hn : n + bumps s as < 2 ^ 64) (hs : I s) :
    s'.st.Bounded (n + bumps s as) ∧ I s' :=
  run_keeps_along (fun s a s' n h hb hn _ hs => hstep s a s' n h hb hn hs) h hb hn along_true hs

omit [Chrono] in
theorem bounded_init : ({} : Sys).st.Bounded 0 :=
  ⟨Nat.le_refl _, fun _ => Nat.le_refl _, fun _ => Nat.le_refl _, fun _ => Nat.le_refl _⟩

end Runs

end Anvil.Auth
