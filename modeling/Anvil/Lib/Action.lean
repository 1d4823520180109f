import Mathlib.Tactic

/-!
# Actions that keep what they did when they fail

`EStateM` programs: an action returns a value or fails, in both cases with the state it left.

* `refuse`, `check`, `attempt` : failing on a condition or with a check, and running an action without failing with it;
* `Ensures m s Q E` : from `s`, `m` ends with `Q` of its value and state, or fails with `E` of the state;
* `ensures_bind` and the lemmas beside it take a program apart step by step; `Ensures.imp` weakens both conditions;
* `action_bind_ok` : a program that returned, taken apart;
* `Along R m` : however `m` ends, it ends in a state that `R` relates to where it began.
-/

namespace Anvil.Lib

section
variable {ε σ α β : Type}

/-- Fail with `e` where `p` holds. -/
def refuse (p : Prop) [Decidable p] (e : ε) : EStateM ε σ Unit := if p then throw e else pure ()

/-- The error the action failed with, if it did. -/
def attempt (m : EStateM ε σ α) : EStateM ε σ (Option ε) := fun s =>
  match m s with
  | .ok _ s' => .ok none s'
  | .error e s' => .ok (some e) s'

/-- A check that leaves the state alone. -/
def check (x : Except ε α) : EStateM ε σ α :=
  match x with
  | .ok a => pure a
  | .error e => throw e

/-- From `s` the action returns with `Q`, or fails with `E`. -/
def Ensures (m : EStateM ε σ α) (s : σ) (Q : α → σ → Prop) (E : σ → Prop) : Prop :=
  match m s with
  | .ok a s' => Q a s'
  | .error _ s' => E s'

variable {m : EStateM ε σ α} {s : σ} {Q : α → σ → Prop} {E : σ → Prop}

theorem Ensures.imp {Q' : α → σ → Prop} {E' : σ → Prop} (h : Ensures m s Q E) (hQ : ∀ a s, Q a s → Q' a s)
    (hE : ∀ s, E s → E' s) : Ensures m s Q' E' := by
  unfold Ensures at h ⊢
  cases hm : m s with
  | ok a s' =>
    rw [hm] at h
    exact hQ a s' h
  | error e s' =>
    rw [hm] at h
    exact hE s' h

theorem ensures_bind {f : α → EStateM ε σ β} {R : β → σ → Prop} :
    Ensures (m >>= f) s R E ↔ Ensures m s (fun a s' => Ensures (f a) s' R E) E := by
  unfold Ensures
  rw [show (m >>= f) s = EStateM.bind m f s from rfl, EStateM.bind]
  cases m s with
  | ok a s' => rfl
  | error e s' => rfl

theorem action_bind_ok {f : α → EStateM ε σ β} {b : β} {s' : σ} :
    (m >>= f) s = .ok b s' ↔ ∃ a s₁, m s = .ok a s₁ ∧ f a s₁ = .ok b s' := by
  rw [show (m >>= f) s = EStateM.bind m f s from rfl, EStateM.bind]
  cases m s with
  | ok a s₁ => simp
  | error e s₁ => simp

theorem bind_of_ok {f : α → EStateM ε σ β} {a : α} {s' : σ} (h : m s = .ok a s') : (m >>= f) s = f a s' := by
  rw [show (m >>= f) s = EStateM.bind m f s from rfl, EStateM.bind, h]

theorem bind_of_error {f : α → EStateM ε σ β} {e : ε} {s' : σ} (h : m s = .error e s') : (m >>= f) s = .error e s' := by
  rw [show (m >>= f) s = EStateM.bind m f s from rfl, EStateM.bind, h]

theorem action_pure_ok {a b : α} {s' : σ} : (pure a : EStateM ε σ α) s = .ok b s' ↔ a = b ∧ s = s' := by
  rw [show (pure a : EStateM ε σ α) s = .ok a s from rfl, EStateM.Result.ok.injEq]

theorem ensures_pure {a : α} : Ensures (pure a : EStateM ε σ α) s Q E ↔ Q a s := Iff.rfl

theorem ensures_throw {e : ε} : Ensures (throw e : EStateM ε σ α) s Q E ↔ E s := Iff.rfl

theorem ensures_get {R : σ → σ → Prop} : Ensures (get : EStateM ε σ σ) s R E ↔ R s s := Iff.rfl

theorem ensures_set {t : σ} {R : PUnit → σ → Prop} : Ensures (set t : EStateM ε σ PUnit) s R E ↔ R ⟨⟩ t := Iff.rfl

theorem ensures_modify {f : σ → σ} {R : PUnit → σ → Prop} :
    Ensures (modify f : EStateM ε σ PUnit) s R E ↔ R ⟨⟩ (f s) := Iff.rfl

theorem ensures_refuse {p : Prop} [Decidable p] {e : ε} {R : Unit → σ → Prop} :
    Ensures (refuse p e : EStateM ε σ Unit) s R E ↔ (p → E s) ∧ (¬ p → R () s) := by
  unfold refuse
  split_ifs with h
  · rw [ensures_throw]
    simp [h]
  · rw [ensures_pure]
    simp [h]

theorem ensures_check {x : Except ε α} :
    Ensures (check x : EStateM ε σ α) s Q E ↔ (∀ a, x = .ok a → Q a s) ∧ ∀ e, x = .error e → E s := by
  cases x with
  | ok a =>
    have hok : Ensures (check (.ok a) : EStateM ε σ α) s Q E ↔ Q a s := Iff.rfl
    simp [hok]
  | error e =>
    have herror : Ensures (check (.error e) : EStateM ε σ α) s Q E ↔ E s := Iff.rfl
    simp [herror]

theorem ensures_attempt {R : Option ε → σ → Prop} (hok : Ensures m s (fun _ => R none) fun s' => ∀ e, R (some e) s') :
    Ensures (attempt m) s R E := by
  unfold Ensures at hok ⊢
  unfold attempt
  cases hm : m s with
  | ok a s' =>
    rw [hm] at hok
    exact hok
  | error e s' =>
    rw [hm] at hok
    exact hok e

/-! ## What every end of an action keeps -/

/-- However the action ends, `R` relates the states before and after it. -/
def Along (R : σ → σ → Prop) (m : EStateM ε σ α) : Prop := ∀ s, Ensures m s (fun _ => R s) (R s)

section Along
variable {R : σ → σ → Prop} {m : EStateM ε σ α}

theorem along_pure (hrefl : ∀ s, R s s) (a : α) : Along R (pure a : EStateM ε σ α) := fun s => hrefl s

theorem Along.bind (htrans : ∀ {a b c}, R a b → R b c → R a c) {f : α → EStateM ε σ β} (hm : Along R m)
    (hf : ∀ a, Along R (f a)) : Along R (m >>= f) := by
  intro s
  rw [ensures_bind]
  refine (hm s).imp ?_ fun _ => id
  intro a s' hs
  exact (hf a s').imp (fun _ _ => htrans hs) fun _ => htrans hs

theorem along_check (hrefl : ∀ s, R s s) (f : σ → Except ε α) : Along R fun s => check (f s) s := by
  intro s
  have hcheck : Ensures (check (f s) : EStateM ε σ α) s (fun _ => R s) (R s) :=
    ensures_check.2 ⟨fun _ _ => hrefl s, fun _ _ => hrefl s⟩
  exact hcheck

theorem along_modify {f : σ → σ} (hf : ∀ s, R s (f s)) : Along R (modify f : EStateM ε σ PUnit) := fun s => hf s

end Along

end

end Anvil.Lib
