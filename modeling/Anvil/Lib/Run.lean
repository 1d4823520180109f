import Mathlib.Data.List.Forall2
import Mathlib.Logic.Relation
import Mathlib.Tactic

/-!
# Runs of transition systems

Two shapes of run and the invariant rule of each.

* `runOps step s ops` : a deterministic operation per element of `ops`, each of which may trap;
  `runOps_inv` : a step that never traps and keeps `Inv` gives runs that never trap and keep `Inv`.
  `runOps_forall`, `runOps_made` : what the steps of a run that did not trap keep and leave behind.
* `bind_eq_ok`, `bind_eq_error`, `refuseIf_ok`, `mapError_eq_ok`, `mapM_ok` : taking a fallible computation apart;
* `Reaches Step s t` : any number of steps of a relation; `Reaches.inv` : what holds at first and is
  kept by a step holds wherever a run gets;
* `u64Max`, `usizeMax`, `satAdd`, `checkedSub` : machine arithmetic; a subtraction that would wrap traps (`none`).
-/

namespace Anvil.Lib

universe u v w

section Ops
variable {σ : Type u} {α : Type v} {ε : Type w}

@[simp] theorem ok_bind {β : Type u} {γ : Type u} (b : β) (f : β → Except ε γ) : (Except.ok b >>= f) = f b := rfl

theorem bind_eq_ok {β γ : Type u} {x : Except ε β} {f : β → Except ε γ} {c : γ} :
    (x >>= f) = .ok c ↔ ∃ b, x = .ok b ∧ f b = .ok c := by
  cases x with
  | ok b => simp
  | error e =>
    constructor
    · exact fun h => absurd h (by simp [bind, Except.bind])
    · rintro ⟨b, hb, -⟩
      cases hb

theorem bind_eq_error {β γ : Type u} {x : Except ε β} {f : β → Except ε γ} {e : ε} :
    (x >>= f) = .error e ↔ x = .error e ∨ ∃ b, x = .ok b ∧ f b = .error e := by
  cases x with
  | ok b => simp
  | error e' => simp [bind, Except.bind]

/-- Fail with `e` where `p` holds. -/
def refuseIf (p : Prop) [Decidable p] (e : ε) : Except ε Unit := if p then .error e else .ok ()

theorem refuseIf_ok {p : Prop} [Decidable p] {e : ε} {u : Unit} : refuseIf p e = .ok u ↔ ¬ p := by
  unfold refuseIf
  split_ifs with h
  · simp [h]
  · simp [h]

theorem mapError_eq_ok {α ε δ : Type} {x : Except ε α} {f : ε → δ} {a : α} : x.mapError f = .ok a ↔ x = .ok a := by
  cases x <;> simp [Except.mapError]

theorem elim_eq_ok {α ε : Type} {o : Option α} {e : ε} {a : α} : o.elim (.error e) .ok = Except.ok a ↔ o = some a := by
  cases o <;> simp

theorem mapM_ok {α β ε : Type} {f : α → Except ε β} {l : List α} : ∀ {r : List β},
    l.mapM f = .ok r ↔ List.Forall₂ (fun y x => f x = .ok y) r l := by
  induction l with
  | nil =>
    intro r
    rw [List.mapM_nil, List.forall₂_nil_right_iff]
    exact ⟨fun h => (Except.ok.inj h).symm, fun h => (by rw [h]; rfl)⟩
  | cons x l ih =>
    intro r
    rw [List.mapM_cons, List.forall₂_cons_right_iff]
    cases hx : f x with
    | error e =>
      refine ⟨fun h => (by cases h), ?_⟩
      rintro ⟨y, r', hy, -⟩
      cases hy
    | ok y =>
      cases hl : l.mapM f with
      | error e =>
        refine ⟨fun h => (by cases h), ?_⟩
        rintro ⟨y', r', -, hr', -⟩
        rw [ih.2 hr'] at hl
        cases hl
      | ok r' =>
        refine ⟨fun h => ⟨y, r', rfl, ih.1 hl, (Except.ok.inj h).symm⟩, ?_⟩
        rintro ⟨y', r'', hy, hr'', rfl⟩
        rw [ih.2 hr''] at hl
        obtain rfl := Except.ok.inj hl
        obtain rfl := Except.ok.inj hy
        rfl

/-- The operations `ops` one after another, stopping at the first that traps. -/
def runOps (step : σ → α → Except ε σ) (s : σ) (ops : List α) : Except ε σ :=
  ops.foldlM step s

@[simp] theorem runOps_nil (step : σ → α → Except ε σ) (s : σ) : runOps step s [] = .ok s := rfl

theorem runOps_cons_ok {step : σ → α → Except ε σ} {s s' : σ} {a : α} (h : step s a = .ok s')
    (ops : List α) : runOps step s (a :: ops) = runOps step s' ops := by
  simp only [runOps, List.foldlM_cons, h]
  rfl

theorem runOps_cons_eq_ok {step : σ → α → Except ε σ} {s s' : σ} {a : α} {ops : List α} :
    runOps step s (a :: ops) = .ok s' ↔ ∃ s₁, step s a = .ok s₁ ∧ runOps step s₁ ops = .ok s' := by
  simp only [runOps, List.foldlM_cons]
  exact bind_eq_ok

theorem runOps_append (step : σ → α → Except ε σ) (s : σ) (as bs : List α) :
    runOps step s (as ++ bs) = runOps step s as >>= fun s' => runOps step s' bs := List.foldlM_append

/-- What every step keeps is kept by a run that ends well, and each step had its condition. -/
theorem runOps_forall {step : σ → α → Except ε σ} {I : σ → Prop} {Q : α → Prop}
    (hstep : ∀ s a s', step s a = .ok s' → I s → I s' ∧ Q a) :
    ∀ {ops : List α} {s s' : σ}, runOps step s ops = .ok s' → I s → I s' ∧ ∀ a ∈ ops, Q a
  | [], s, s', h, hs => by
    rw [runOps_nil] at h
    exact ⟨Except.ok.inj h ▸ hs, by simp⟩
  | a :: ops, s, s', h, hs => by
    obtain ⟨s₁, h₁, h⟩ := runOps_cons_eq_ok.1 h
    obtain ⟨hs₁, ha⟩ := hstep s a s₁ h₁ hs
    obtain ⟨hs', hops⟩ := runOps_forall hstep h hs₁
    exact ⟨hs', List.forall_mem_cons.2 ⟨ha, hops⟩⟩

/-- What a step makes of its element, and every later step keeps, holds of every element at the end. -/
theorem runOps_made {step : σ → α → Except ε σ} {R : σ → α → Prop}
    (hmade : ∀ s a s', step s a = .ok s' → R s' a) (hkeep : ∀ s a s' b, step s a = .ok s' → R s b → R s' b) :
    ∀ {ops : List α} {s s' : σ}, runOps step s ops = .ok s' → ∀ a ∈ ops, R s' a
  | [], s, s', h => by simp
  | a :: ops, s, s', h => by
    obtain ⟨s₁, h₁, h⟩ := runOps_cons_eq_ok.1 h
    refine List.forall_mem_cons.2 ⟨?_, runOps_made hmade hkeep h⟩
    exact (runOps_forall (Q := fun _ => True) (fun s b s' hs hR => ⟨hkeep s b s' a hs hR, trivial⟩) h
      (hmade s a s₁ h₁)).1

/-- A step that never traps on `Inv` and keeps it: no run traps, and every run keeps it. -/
theorem runOps_inv {step : σ → α → Except ε σ} {Inv : σ → Prop}
    (hstep : ∀ s a, Inv s → ∃ s', step s a = .ok s' ∧ Inv s') :
    ∀ (ops : List α) (s : σ), Inv s → ∃ s', runOps step s ops = .ok s' ∧ Inv s'
  | [], s, hs => ⟨s, rfl, hs⟩
  | a :: ops, s, hs => by
    obtain ⟨s₁, h₁, hs₁⟩ := hstep s a hs
    rw [runOps_cons_ok h₁]
    exact runOps_inv hstep ops s₁ hs₁

end Ops

section Relation
variable {σ : Type u} {Step : σ → σ → Prop}

/-- `t` is reached from `s` by any number of steps. -/
abbrev Reaches (Step : σ → σ → Prop) (s t : σ) : Prop := Relation.ReflTransGen Step s t

theorem Reaches.inv (Inv : σ → Prop) (hstep : ∀ s t, Step s t → Inv s → Inv t) {s t : σ}
    (hr : Reaches Step s t) (hs : Inv s) : Inv t := by
  induction hr with
  | refl => exact hs
  | tail _ hst ih => exact hstep _ _ hst ih

end Relation

/-- `u64::MAX`. -/
def u64Max : Nat := 2 ^ 64 - 1

def usizeMax : Nat := 2 ^ 64 - 1

def isizeMax : Nat := 2 ^ 63 - 1

/-- `usize::saturating_add`. -/
def satAdd (a b : Nat) : Nat := min (a + b) usizeMax

theorem satAdd_le_max (a b : Nat) : satAdd a b ≤ usizeMax := Nat.min_le_right _ _

theorem satAdd_zero {a : Nat} (h : a ≤ usizeMax) : satAdd a 0 = a := Nat.min_eq_left h

theorem satAdd_mono (a : Nat) {b c : Nat} (h : b ≤ c) : satAdd a b ≤ satAdd a c := by
  unfold satAdd
  omega

/-- A saturating sum saturates once. -/
theorem satAdd_satAdd (a b c : Nat) : satAdd (satAdd a b) c = satAdd a (b + c) := by
  unfold satAdd
  omega

/-- `a - b`, or `none` where the unsigned subtraction would underflow. -/
def checkedSub (a b : Nat) : Option Nat := if b ≤ a then some (a - b) else none

theorem checkedSub_of_le {a b : Nat} (h : b ≤ a) : checkedSub a b = some (a - b) := if_pos h

theorem checkedSub_eq_some {a b c : Nat} : checkedSub a b = some c ↔ b ≤ a ∧ c = a - b := by
  unfold checkedSub
  split_ifs with h
  · rw [Option.some.injEq]
    exact ⟨fun e => ⟨h, e.symm⟩, fun e => e.2.symm⟩
  · exact ⟨fun e => absurd e (by simp), fun e => absurd e.1 h⟩

end Anvil.Lib
