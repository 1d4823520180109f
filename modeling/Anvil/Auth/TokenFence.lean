import Anvil.Auth.TokenRuns

/-!
# The generation fence of the token cache

What a call of a superseded generation can still do, in any interleaving.

* `entry_origin`, `ended_origin` : where a cached token, and one that a refresh task ends with, comes from;
* `Recorded` : each was stored for its key;
* `Past` : what holds of a call and its task from the step on that superseded it;
* `superseded_call_fenced` : it stores nothing any more, and is answered only with what came after.
-/

namespace Anvil.Auth
open Anvil.Lib

/-! ## Where the tokens come from -/

section Origin
variable [Chrono] {s s' : Sys} {a : Action} {n : Nat}

/-- An entry was there before the step, or is what the step wrote. -/
theorem entry_origin (h : Step s a s') {k : TokenKey} {t : CachedToken} (ht : s'.st.entries k = some t) :
    (s.st.entries k = some t ∧ s.stored <+: s'.stored) ∨
      ∃ w, s'.stored = s.stored ++ [w] ∧ w.key = k ∧ w.token = t ∧
        (w.bySignIn = true ∨ w.generation = s.st.generationOf k) := by
  cases step_effect h with
  | quiet _ he hs => exact Or.inl ⟨he ▸ ht, by rw [hs]⟩
  | wrote i k' t' _ _ _ he hs =>
    rw [he, Function.update_apply] at ht
    split_ifs at ht with hk
    · subst hk ht
      exact Or.inr ⟨_, by simpa using hs, rfl, rfl, Or.inr rfl⟩
    · exact Or.inl ⟨ht, by rw [hs]; exact List.prefix_append ..⟩
  | signedIn i c t' _ _ hg hst hs =>
    rw [hst, CacheState.storeSignIn_of_current t' hg] at ht
    change Function.update s.st.entries c.key (some t') k = some t at ht
    rw [Function.update_apply] at ht
    split_ifs at ht with hk
    · cases ht
      exact Or.inr ⟨_, hs, hk.symm, rfl, Or.inl rfl⟩
    · exact Or.inl ⟨ht, by rw [hs]; exact List.prefix_append ..⟩
  | wiped w _ hst hs =>
    rw [hst, CacheState.entries_wipe] at ht
    split_ifs at ht
    exact Or.inl ⟨ht, by rw [hs]⟩

theorem step_stored (h : Step s a s') : s.stored <+: s'.stored := by
  cases step_effect h with
  | quiet _ _ hs => rw [hs]
  | wrote i k t _ _ _ _ hs =>
    rw [hs]
    exact List.prefix_append ..
  | signedIn i c t _ _ _ _ hs =>
    rw [hs]
    exact List.prefix_append ..
  | wiped w _ _ hs => rw [hs]

/-- A task that ended with a token ended so before the step, wrote it in the step, or answered the entry of its key. -/
theorem ended_origin (h : Step s a s') {u : Nat} {k' : Task} {t : CachedToken} (hk' : s'.tasks u = some k')
    (ht : k'.phase = .ended (.done (.ok t))) :
    s.tasks u = some k' ∨
      (∃ w, s'.stored = s.stored ++ [w] ∧ w.key = k'.key ∧ w.token = t ∧ s.st.generationOf k'.key = k'.generation) ∨
      (s.st.entries k'.key = some t ∧ (s.st.generationOf k'.key).base = k'.generation.base) := by
  cases step_tasksAfter h with
  | same heq => exact Or.inl (by rw [← heq, hk'])
  | moved v k phase hv hphase heq =>
    rw [heq, Function.update_apply] at hk'
    split_ifs at hk' with huv
    · cases hk'
      obtain ⟨b, now, hr, hstored⟩ := hphase _ ht
      rcases conclusion_cases s.st k now b with ⟨-, -, hsup⟩ | ⟨hg, tok, -, hw, htok⟩
      · exact Or.inr (Or.inr (CacheState.supersededAnswer_ok (hsup t hr)))
      · rw [hw, htok t hr] at hstored
        exact Or.inr (Or.inl ⟨_, hstored, rfl, rfl, hg⟩)
    · exact Or.inl hk'
  | spawned v i c k _ _ _ _ _ hp heq =>
    rw [heq, Function.update_apply] at hk'
    split_ifs at hk' with huv
    · cases hk'
      rw [hp] at ht
      cases ht
    · exact Or.inl hk'

/-- Every token that is cached, or that a task ended with, was stored for the key. -/
structure Recorded (s : Sys) : Prop where
  entries : ∀ k t, s.st.entries k = some t → ∃ w ∈ s.stored, w.key = k ∧ w.token = t
  ended : ∀ u k t, s.tasks u = some k → k.phase = .ended (.done (.ok t)) → ∃ w ∈ s.stored, w.key = k.key ∧ w.token = t

omit [Chrono] in
theorem recorded_init : Recorded {} := ⟨fun _ _ h => by simp at h, fun _ _ _ h => by simp at h⟩

theorem step_recorded (h : Step s a s') (hs : Recorded s) : Recorded s' := by
  have hkept {k : TokenKey} {t : CachedToken} (hw : ∃ w ∈ s.stored, w.key = k ∧ w.token = t) :
      ∃ w ∈ s'.stored, w.key = k ∧ w.token = t := by
    obtain ⟨w, hw, hkt⟩ := hw
    exact ⟨w, (step_stored h).subset hw, hkt⟩
  refine ⟨fun k t ht => ?_, fun u k t hk ht => ?_⟩
  · rcases entry_origin h ht with ⟨ht, -⟩ | ⟨w, hw, hkey, htok, -⟩
    · exact hkept (hs.entries k t ht)
    · exact ⟨w, by simp [hw], hkey, htok⟩
  · rcases ended_origin h hk ht with hk | ⟨w, hw, hkey, htok, -⟩ | ⟨he, -⟩
    · exact hkept (hs.ended u k t hk ht)
    · exact ⟨w, by simp [hw], hkey, htok⟩
    · exact hkept (hs.entries k.key t he)

end Origin

/-! ## After a call is superseded -/

section Past
variable [Chrono] {s₀ s s' : Sys} {a : Action} {n : Nat} {i : Nat} {k : TokenKey} {g : Generation} {signIn : Prop}

/-- `t` was stored for the key since `s₀`, by a sign-in or by an acquisition of a later generation than `g`. -/
def StoredSince (s₀ : Sys) (k : TokenKey) (g : Generation) (s : Sys) (t : CachedToken) : Prop :=
  ∃ w ∈ s.stored.drop s₀.stored.length, w.key = k ∧ w.token = t ∧ (w.bySignIn = true ∨ g < w.generation)

/-- The call `i` of `s₀` is superseded, by a sign-in of its key or by a wipe. -/
structure Past (s₀ : Sys) (i : Nat) (k : TokenKey) (g : Generation) (signIn : Prop) (s : Sys) : Prop where
  behind : g < s.st.generationOf k
  wiped : ¬ signIn → g.base < (s.st.generationOf k).base
  call : ∃ c, s.calls i = some c ∧ c.key = k ∧ c.generation = g
  stored : s₀.stored <+: s.stored
  entries : ∀ t, s.st.entries k = some t → StoredSince s₀ k g s t
  ended : ∀ u κ t, s.tasks u = some κ → κ.caller = i → κ.phase = .ended (.done (.ok t)) →
    s₀.tasks u = some κ ∨ signIn ∧ StoredSince s₀ k g s t

omit [Chrono] in
theorem StoredSince.mono {t : CachedToken} (h : StoredSince s₀ k g s t) (hs : s.stored <+: s'.stored) :
    StoredSince s₀ k g s' t := by
  obtain ⟨w, hw, hrest⟩ := h
  exact ⟨w, (hs.drop _).subset hw, hrest⟩

omit [Chrono] in
theorem storedSince_of_append {w : Stored} (hp : s₀.stored <+: s.stored) (hw : s'.stored = s.stored ++ [w]) (hk : w.key = k)
    (hg : w.bySignIn = true ∨ g < w.generation) : StoredSince s₀ k g s' w.token := by
  refine ⟨w, ?_, hk, rfl, hg⟩
  rw [hw, List.drop_append_of_le_length hp.length_le]
  simp

theorem step_past (h : Step s a s') (hb : s.st.Bounded n) (hn : n + bumpsBy s a < 2 ^ 64) (hs : Sound s)
    (hp : Past s₀ i k g signIn s) : Past s₀ i k g signIn s' where
  behind := hp.behind.trans_le (step_le h hb hn k)
  wiped hw := (hp.wiped hw).trans_le (Generation.base_mono (step_le h hb hn k))
  call := by
    obtain ⟨c, hc, hkey, hgen⟩ := hp.call
    obtain ⟨c', hc', hkey', hgen'⟩ := step_keeps_call h hc
    exact ⟨c', hc', hkey'.trans hkey, hgen'.trans hgen⟩
  stored := hp.stored.trans (step_stored h)
  entries t ht := by
    rcases entry_origin h ht with ⟨ht, hpre⟩ | ⟨w, hw, hkey, rfl, hgen⟩
    · exact (hp.entries t ht).mono hpre
    · refine storedSince_of_append hp.stored hw hkey (hgen.imp_right fun hgen => ?_)
      rw [hgen]
      exact hp.behind
  ended u κ t hκ hcaller ht := by
    -- The task is of the superseded generation: it can only have answered what the key holds now.
    rcases ended_origin h hκ ht with hκ | ⟨w, -, -, -, hcur⟩ | ⟨he, hbase⟩
    · exact (hp.ended u κ t hκ hcaller ht).imp_right fun hlater => ⟨hlater.1, hlater.2.mono (step_stored h)⟩
    all_goals
      obtain ⟨c, hc, hkey, hgen⟩ := hp.call
      have hown : κ.key = k ∧ κ.generation = g := by
        rcases step_task_origin h hκ with ⟨κ₀, hκ₀, hi, hk₀, hg₀⟩ | ⟨c', hc', hk₀, hg₀⟩
        · obtain ⟨c', hc', hk', hg'⟩ := hs.tasks u κ₀ hκ₀
          rw [← hi, hcaller, hc, Option.some.injEq] at hc'
          subst hc'
          exact ⟨hk₀.trans (hk'.symm.trans hkey), hg₀.trans (hg'.symm.trans hgen)⟩
        · rw [hcaller, hc, Option.some.injEq] at hc'
          subst hc'
          exact ⟨hk₀.trans hkey, hg₀.trans hgen⟩
    · rw [hown.1, hown.2] at hcur
      exact absurd hcur hp.behind.ne'
    · rw [hown.1] at he hbase
      rw [hown.2] at hbase
      have hsign : signIn := by
        by_contra hno
        exact (hp.wiped hno).ne hbase.symm
      exact Or.inr ⟨hsign, (hp.entries t he).mono (step_stored h)⟩

/-- A superseded call writes nothing, and neither does its task. -/
theorem past_writes_nothing (h : Step s a s') (hs : Sound s) (hp : Past s₀ i k g signIn s) {k' : TokenKey} {g' : Generation}
    (ha : acting s a = some (i, k', g')) : s'.st.entries = s.st.entries ∧ s'.stored = s.stored := by
  obtain ⟨c, hc, hkey, hgen⟩ := hp.call
  have hown : k' = k ∧ g' = g := by
    unfold acting at ha
    split at ha
    · obtain ⟨d, hd, heq⟩ := Option.map_eq_some_iff.1 ha
      cases heq
      rw [hc, Option.some.injEq] at hd
      subst hd
      exact ⟨hkey, hgen⟩
    · obtain ⟨κ, hκ, heq⟩ := Option.map_eq_some_iff.1 ha
      cases heq
      obtain ⟨d, hd, hk', hg'⟩ := hs.tasks _ κ hκ
      rw [hc, Option.some.injEq] at hd
      subst hd
      exact ⟨hk'.symm.trans hkey, hg'.symm.trans hgen⟩
    · cases ha
  cases step_effect h with
  | quiet _ he hstored => exact ⟨he, hstored⟩
  | wrote j k'' t hact _ _ _ _ =>
    rw [ha, Option.some.injEq] at hact
    cases hact
    exact absurd (hown.1 ▸ hown.2) hp.behind.ne'
  | signedIn j d t heq hd hcur _ _ =>
    subst heq
    simp only [acting, Action.party, hd, Option.map_some, Option.some.injEq] at ha
    cases ha
    rw [hown.1, hown.2] at hcur
    exact absurd hcur hp.behind.ne'
  | wiped w heq _ _ =>
    subst heq
    cases ha

/-- A superseded call answers with a token that was stored since, or that its task had ended with before. -/
theorem past_answers (h : Step s a s') (hs : Sound s) (hp : Past s₀ i k g signIn s) {c c' : Call} {t : CachedToken}
    (hc : s.calls i = some c) (hopen : ∀ r, c.phase ≠ .answered r) (hc' : s'.calls i = some c')
    (ht : c'.phase = .answered (.ok t)) :
    (signIn ∧ StoredSince s₀ k g s t) ∨ ∃ u κ, s₀.tasks u = some κ ∧ κ.caller = i ∧ κ.phase = .ended (.done (.ok t)) := by
  obtain ⟨d, hd, hkey, hgen⟩ := hp.call
  rw [hc, Option.some.injEq] at hd
  subst hd
  have hans : Answers s c t := by
    cases step_callsAfter h with
    | same heq =>
      rw [heq, hc, Option.some.injEq] at hc'
      exact absurd (hc' ▸ ht) (hopen _)
    | moved j d phase hd _ hans heq =>
      rw [heq, Function.update_apply] at hc'
      split_ifs at hc' with hij
      · subst hij
        rw [hc, Option.some.injEq] at hd
        subst hd
        cases hc'
        exact hans t ht
      · rw [hc, Option.some.injEq] at hc'
        exact absurd (hc' ▸ ht) (hopen _)
    | begun j key cfg phase hj _ heq =>
      rw [heq, Function.update_apply] at hc'
      split_ifs at hc' with hij
      · subst hij
        simp [hj] at hc
      · rw [hc, Option.some.injEq] at hc'
        exact absurd (hc' ▸ ht) (hopen _)
  rcases hans with hcur | ⟨he, hbase⟩ | ⟨u, κ, hphase, hκ, hr⟩
  · rw [hkey, hgen] at hcur
    exact absurd hcur hp.behind.ne'
  · rw [hkey] at he hbase
    rw [hgen] at hbase
    have hsign : signIn := by
      by_contra hno
      exact (hp.wiped hno).ne hbase.symm
    exact Or.inl ⟨hsign, hp.entries t he⟩
  · obtain ⟨κ', hκ', hcaller⟩ := hs.awaited i c u hc hphase
    rw [hκ, Option.some.injEq] at hκ'
    subst hκ'
    have hended : κ.phase = .ended (.done (.ok t)) := by
      unfold TaskPhase.result at hr
      split at hr
      · rename_i r hphase
        rw [hphase, Option.some.inj hr]
      all_goals simp at hr
    rcases hp.ended u κ t hκ hcaller hended with hold | hlater
    · exact Or.inr ⟨u, κ, hold, hcaller, hended⟩
    · exact Or.inl hlater

/-- A clear, a clear of the key's partition, a removal of the key, or a sign-in that is stored for the key. -/
def supersedes (s : Sys) (a : Action) (key : TokenKey) : Bool :=
  match a with
  | .wipe w => w.covers key
  | .storeSignIn j _ => (s.calls j).any fun c => c.key = key && s.st.generationOf key = c.generation
  | _ => false

def Action.isSignIn : Action → Bool
  | .storeSignIn _ _ => true
  | _ => false

theorem supersedes_cases (h : Step s a s') (hsup : supersedes s a k = true) :
    (∃ w, a = .wipe w ∧ w.covers k = true ∧ s' = s.wipe w) ∨
      ∃ j d t, a = .storeSignIn j t ∧ s.calls j = some d ∧ d.key = k ∧ s.st.generationOf k = d.generation ∧
        s' = s.storeSignIn j d t := by
  unfold supersedes at hsup
  split at hsup
  · cases h with
    | begin i key cfg phase _ _ hparty => cases hparty
    | call i c _ hparty _ => cases hparty
    | task t κ _ hparty _ => cases hparty
    | wipe _ => exact Or.inl ⟨_, rfl, hsup, rfl⟩
  · rename_i j t
    obtain ⟨d, hd, hk⟩ := (Option.any_eq_true _ _).1 hsup
    rw [Bool.and_eq_true, decide_eq_true_iff, decide_eq_true_iff] at hk
    cases h with
    | begin i key cfg phase hi _ hparty =>
      cases hparty
      simp [hd] at hi
    | call i d' hd' hparty hstep =>
      cases hstep with
      | move hmove => cases hmove
      | signIn _ _ =>
        rw [hd, Option.some.injEq] at hd'
        subst hd'
        exact Or.inr ⟨j, d, t, rfl, hd, hk.1, hk.2, rfl⟩
    | task t' κ _ hparty _ => cases hparty
  · cases hsup

theorem past_of_supersedes (h : Step s a s') (hb : s.st.Bounded n) (hn : n + bumpsBy s a < 2 ^ 64) (hs : Sound s) {c : Call}
    (hc : s.calls i = some c) (hsup : supersedes s a c.key = true) :
    Past s i c.key c.generation (a.isSignIn = true) s' := by
  have hle := hs.calls i c hc
  have hcall := step_keeps_call h hc
  have hstored := step_stored h
  rcases supersedes_cases h hsup with ⟨w, rfl, hcovers, rfl⟩ | ⟨j, d, t, rfl, hd, hkey, hcur, rfl⟩
  · have hbase := CacheState.base_lt_wipe hb hn hcovers
    refine ⟨?_, fun _ => ?_, hcall, hstored, fun t ht => ?_, fun u κ t hκ _ _ => Or.inl hκ⟩
    · exact hle.trans_lt (Generation.lt_iff.2 (Or.inl hbase))
    · exact (Generation.base_mono hle).trans_lt hbase
    · change (s.st.wipe w).1.entries c.key = some t at ht
      rw [CacheState.entries_wipe, if_pos hcovers] at ht
      cases ht
  · rw [← hkey] at hcur
    rw [bumpsBy_signedIn hd hcur] at hn
    have hlt : s.st.generationOf c.key < (s.storeSignIn j d t).st.generationOf c.key := by
      rw [← hkey]
      exact CacheState.lt_storeSignIn t hb hn hcur
    refine ⟨hle.trans_lt hlt, fun hno => absurd rfl hno, hcall, hstored, fun t' ht => ?_, fun u κ t hκ _ _ => Or.inl hκ⟩
    -- The entry is the token of the sign-in.
    change (s.st.storeSignIn d.key d.generation t).1.entries c.key = some t' at ht
    have hw : (s.storeSignIn j d t).stored = s.stored ++ [⟨d.key, d.generation, t, true⟩] := by
      unfold Sys.storeSignIn
      rw [CacheState.storeSignIn_of_current t hcur]
      rfl
    rw [CacheState.storeSignIn_of_current t hcur, ← hkey] at ht
    change Function.update s.st.entries d.key (some t) d.key = some t' at ht
    rw [Function.update_self, Option.some.injEq] at ht
    subst ht
    exact storedSince_of_append (List.prefix_refl _) hw hkey (Or.inl rfl)

end Past

/-! ## The fence -/

section Fence
variable [Chrono]

/-- **A superseded call is fenced off.** Let a call take its generation, and let a clear, a clear of its key's partition, a
removal of its key or a stored sign-in of its key (`a`) come after. In every later state no step of the call or of its
refresh task changes the entries. If the call is then answered with a token, the token was stored for its key: after `a`,
which then is a sign-in, by a sign-in or by an acquisition of a later generation; or the call's refresh had ended with it
before `a`, and the call only picks it up. -/
theorem superseded_call_fenced {before after : List Action} {a b : Action} {s₀ s₁ s₂ s₃ : Sys} {i : Nat} {c : Call}
    (h₀ : run {} before = some s₀) (h₁ : step s₀ a = some s₁) (h₂ : run s₁ after = some s₂) (h₃ : step s₂ b = some s₃)
    (hbumps : bumps {} (before ++ a :: (after ++ [b])) < 2 ^ 64) (hc : s₀.calls i = some c)
    (ha : supersedes s₀ a c.key = true) :
    (∀ k g, acting s₂ b = some (i, k, g) → s₃.st.entries = s₂.st.entries) ∧
      ∀ c₂ c₃ t, s₂.calls i = some c₂ → (∀ r, c₂.phase ≠ .answered r) → s₃.calls i = some c₃ →
        c₃.phase = .answered (.ok t) →
        (a.isSignIn = true ∧ StoredSince s₀ c.key c.generation s₂ t) ∨
          (∃ u κ, s₀.tasks u = some κ ∧ κ.caller = i ∧ κ.phase = .ended (.done (.ok t))) ∧
            ∃ w ∈ s₀.stored, w.key = c.key ∧ w.token = t := by
  rw [bumps_append h₀, bumps_cons h₁, bumps_append h₂, bumps_cons h₃] at hbumps
  obtain ⟨hb₀, hs₀, hr₀⟩ := run_keeps (I := fun s => Sound s ∧ Recorded s)
    (fun s a s' n h hb hn hs => ⟨step_sound_kept h hb hn hs.1, step_recorded h hs.2⟩) h₀ bounded_init (by omega)
    ⟨sound_init, recorded_init⟩
  have hn₁ : 0 + bumps {} before + bumpsBy s₀ a < 2 ^ 64 := by omega
  obtain ⟨hb₂, hs₂, hp₂⟩ := run_keeps
    (I := fun s => Sound s ∧ Past s₀ i c.key c.generation (a.isSignIn = true) s)
    (fun s a s' n h hb hn hs => ⟨step_sound_kept h hb hn hs.1, step_past h hb hn hs.1 hs.2⟩) h₂
    (step_bounded (step_sound h₁) hb₀ hn₁) (by omega)
    ⟨step_sound_kept (step_sound h₁) hb₀ hn₁ hs₀, past_of_supersedes (step_sound h₁) hb₀ hn₁ hs₀ hc ha⟩
  refine ⟨fun k g hact => (past_writes_nothing (step_sound h₃) hs₂ hp₂ hact).1, fun c₂ c₃ t hc₂ hopen hc₃ ht => ?_⟩
  rcases past_answers (step_sound h₃) hs₂ hp₂ hc₂ hopen hc₃ ht with hlater | ⟨u, κ, hκ, hcaller, hended⟩
  · exact Or.inl hlater
  · obtain ⟨w, hw, hkey, htok⟩ := hr₀.ended u κ t hκ hended
    obtain ⟨c', hc', hkey', -⟩ := hs₀.tasks u κ hκ
    rw [hcaller, hc, Option.some.injEq] at hc'
    exact Or.inr ⟨⟨u, κ, hκ, hcaller, hended⟩, w, hw, by rw [hkey, ← hkey', hc'], htok⟩

end Fence

/-! A send waits for its client-credentials token while the user signs in to the same profile. -/

/-- A calendar without bounds. -/
@[reducible] def unboundedChrono : Chrono := ⟨fun now secs => some (now + secs)⟩

def sendKey : TokenKey :=
  ⟨"ws".toList, "https://issuer.test/token".toList, [], "app".toList, false, .clientCredentials, [], [], none⟩

def sendCfg : OAuthResolved := ⟨.clientCredentials, 30⟩

def grantedToken : CachedToken := ⟨"granted".toList, "Bearer".toList, some 3600, none⟩

def signInToken : CachedToken := ⟨"signed-in".toList, "Bearer".toList, some 3600, none⟩

def beforeSignIn : List Action :=
  [.signInGeneration 1 sendKey sendCfg, .start 0 sendKey sendCfg 0, .lockFor 0, .acquire 0, .recheck 0 0]

def overtakenSend : List Action :=
  beforeSignIn ++ [.storeSignIn 1 signInToken, .clientCredentials 0 (.ok grantedToken), .store 0 0]

/-- The state after the first `n` steps of `overtakenSend`. -/
def overtakenAt (n : Nat) : Sys := (@run unboundedChrono {} (overtakenSend.take n)).getD {}

theorem superseded_call_fenced_by_sign_in : (overtakenAt 8).st.entries = (overtakenAt 7).st.entries ∧
    StoredSince (overtakenAt 5) sendKey ⟨0, 0, 0, 0⟩ (overtakenAt 7) signInToken := by
  have hfenced := @superseded_call_fenced unboundedChrono beforeSignIn [.clientCredentials 0 (.ok grantedToken)]
    (.storeSignIn 1 signInToken) (.store 0 0) (overtakenAt 5) (overtakenAt 6) (overtakenAt 7) (overtakenAt 8) 0
    ⟨sendKey, sendCfg, ⟨0, 0, 0, 0⟩, .requesting 0⟩ rfl rfl rfl rfl (by decide) rfl (by decide)
  refine ⟨hfenced.1 sendKey ⟨0, 0, 0, 0⟩ rfl, ?_⟩
  have hanswer := hfenced.2 ⟨sendKey, sendCfg, ⟨0, 0, 0, 0⟩, .storing 0 grantedToken⟩
    ⟨sendKey, sendCfg, ⟨0, 0, 0, 0⟩, .answered (.ok signInToken)⟩ signInToken rfl (fun r => by simp) rfl rfl
  rcases hanswer with hsince | ⟨⟨u, κ, hκ, -⟩, -⟩
  · exact hsince.2
  · cases hκ

end Anvil.Auth
