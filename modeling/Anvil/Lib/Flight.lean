import Mathlib.Order.Basic
import Mathlib.Tactic

/-!
# Single flight over a map of locks

Parties that want the same thing look its lock up in a map, queue on it, and only the holder goes on. Each party wants its
thing in a generation, and is admitted only while that is the current one. Generations move up, and entries of the map can be
dropped, a group of keys at a time.

* `Seat` : what a party wants, the lock it found, and whether it waits, holds the lock or is admitted;
* `Flight.Step` : the protocol, with the events by which it goes on;
* `Flight.Inv`, `Step.inv` : what every step keeps; `Inv.alone` : of one key and generation, one party is admitted.

No party of the current generation may have a seat when its lock is dropped: it would sit on a lock that the next party no
longer finds.
-/

set_option linter.unusedSectionVars false

namespace Anvil.Lib

inductive Stage
  | waiting
  | holding
  | admitted
deriving DecidableEq

structure Seat (κ γ : Type) where
  key : κ
  generation : γ
  lock : Nat
  stage : Stage

structure Flight (π κ γ : Type) where
  seat : π → Option (Seat κ γ)
  held : Nat → Option π
  locks : κ → Option Nat
  current : κ → γ

namespace Flight

inductive Event (π ρ : Type)
  | look (x : π)
  | take (x : π)
  | enter (x : π)
  | leave (x : π)
  | hand (x y : π)
  | move
  | drop (p : ρ)

variable {π κ γ ρ : Type} [DecidableEq π] [DecidableEq κ] [DecidableEq ρ] [PartialOrder γ]

inductive Step (group : κ → ρ) (s : Flight π κ γ) : Event π ρ → Flight π κ γ → Prop
  | look (x : π) (k : κ) (g : γ) (l : Nat) : s.seat x = none → g ≤ s.current k → (s.locks k = none ∨ s.locks k = some l) →
      Step group s (.look x)
        { s with
          seat := Function.update s.seat x (some ⟨k, g, l, .waiting⟩)
          locks := Function.update s.locks k (some l) }
  | take (x : π) (e : Seat κ γ) : s.seat x = some e → e.stage = .waiting → s.held e.lock = none →
      Step group s (.take x)
        { s with
          seat := Function.update s.seat x (some { e with stage := .holding })
          held := Function.update s.held e.lock (some x) }
  | enter (x : π) (e : Seat κ γ) : s.seat x = some e → e.stage = .holding → e.generation = s.current e.key →
      Step group s (.enter x) { s with seat := Function.update s.seat x (some { e with stage := .admitted }) }
  | quit (x : π) (e : Seat κ γ) : s.seat x = some e → e.stage = .waiting →
      Step group s (.leave x) { s with seat := Function.update s.seat x none }
  | leave (x : π) (e : Seat κ γ) : s.seat x = some e → e.stage ≠ .waiting →
      Step group s (.leave x)
        { s with seat := Function.update s.seat x none, held := Function.update s.held e.lock none }
  | hand (x y : π) (e : Seat κ γ) : s.seat x = some e → e.stage ≠ .waiting → s.seat y = none →
      Step group s (.hand x y)
        { s with
          seat := Function.update (Function.update s.seat x none) y (some e)
          held := Function.update s.held e.lock (some y) }
  | move (current : κ → γ) : (∀ k, s.current k ≤ current k) → Step group s .move { s with current := current }
  | drop (p : ρ) : (∀ x e, s.seat x = some e → group e.key = p → e.generation ≠ s.current e.key) →
      Step group s (.drop p) { s with locks := fun k => if group k = p then none else s.locks k }

/-- What every step keeps. -/
structure Inv (s : Flight π κ γ) : Prop where
  behind : ∀ x e, s.seat x = some e → e.generation ≤ s.current e.key
  held : ∀ x e, s.seat x = some e → e.stage ≠ .waiting → s.held e.lock = some x
  locks : ∀ x e, s.seat x = some e → e.generation = s.current e.key → s.locks e.key = some e.lock
  alone : ∀ x y e f, s.seat x = some e → s.seat y = some f → e.stage = .admitted → f.stage = .admitted →
    e.key = f.key → e.generation = f.generation → x = y

variable {group : κ → ρ} {s s' : Flight π κ γ} {v : Event π ρ}

theorem inv_of_empty (h : ∀ x, s.seat x = none) : Inv s := by
  have habs {x : π} {e : Seat κ γ} {p : Prop} (hx : s.seat x = some e) : p := by simp [h x] at hx
  exact ⟨fun _ _ hx => habs hx, fun _ _ hx => habs hx, fun _ _ hx => habs hx, fun _ _ _ _ hx => habs hx⟩

/-- A seat after one of them changed. -/
theorem seat_update {x y : π} {v : Option (Seat κ γ)} {e : Seat κ γ} (h : Function.update s.seat x v y = some e) :
    (y = x ∧ v = some e) ∨ (y ≠ x ∧ s.seat y = some e) := by
  by_cases hyx : y = x
  · subst hyx
    exact Or.inl ⟨rfl, by simpa using h⟩
  · exact Or.inr ⟨hyx, by simpa [hyx] using h⟩

section Kept
variable (hs : Inv s)
include hs

/-- Two parties that hold a lock hold different ones. -/
theorem Inv.lock_ne {x y : π} {e f : Seat κ γ} (hx : s.seat x = some e) (he : e.stage ≠ .waiting) (hy : s.seat y = some f)
    (hf : f.stage ≠ .waiting) (hxy : y ≠ x) : f.lock ≠ e.lock := by
  intro hl
  have hheld := hs.held y f hy hf
  rw [hl, hs.held x e hx he, Option.some.injEq] at hheld
  exact hxy hheld.symm

/-- A generation that is current after a step was current before it. -/
theorem Inv.was_current {x : π} {e : Seat κ γ} {current : κ → γ} (hx : s.seat x = some e)
    (hle : s.current e.key ≤ current e.key) (h : e.generation = current e.key) : e.generation = s.current e.key :=
  le_antisymm (hs.behind x e hx) (h ▸ hle)

theorem Inv.look {x : π} {k : κ} {g : γ} {l : Nat} (hg : g ≤ s.current k) (hl : s.locks k = none ∨ s.locks k = some l) :
    Inv { s with
      seat := Function.update s.seat x (some ⟨k, g, l, .waiting⟩)
      locks := Function.update s.locks k (some l) } where
  behind y e hy := by
    rcases seat_update hy with ⟨-, he⟩ | ⟨-, hy⟩
    · cases he
      exact hg
    · exact hs.behind y e hy
  held y e hy hstage := by
    rcases seat_update hy with ⟨-, he⟩ | ⟨-, hy⟩
    · cases he
      exact absurd rfl hstage
    · exact hs.held y e hy hstage
  locks y e hy hcur := by
    change Function.update s.locks k (some l) e.key = some e.lock
    rcases seat_update hy with ⟨-, he⟩ | ⟨-, hy⟩
    · cases he
      exact Function.update_self ..
    · have hlock := hs.locks y e hy hcur
      by_cases hk : e.key = k
      · rw [hk] at hlock ⊢
        rw [Function.update_self]
        rcases hl with hl | hl
        · simp [hl] at hlock
        · rw [← hl, hlock]
      · rw [Function.update_of_ne hk, hlock]
  alone y z e f hy hz he hf hkey hgen := by
    rcases seat_update hy with ⟨-, hee⟩ | ⟨-, hy⟩
    · cases hee
      cases he
    rcases seat_update hz with ⟨-, hff⟩ | ⟨-, hz⟩
    · cases hff
      cases hf
    exact hs.alone y z e f hy hz he hf hkey hgen

theorem Inv.take {x : π} {e : Seat κ γ} (hx : s.seat x = some e) (hfree : s.held e.lock = none) :
    Inv { s with
      seat := Function.update s.seat x (some { e with stage := .holding })
      held := Function.update s.held e.lock (some x) } where
  behind y f hy := by
    rcases seat_update hy with ⟨-, hf⟩ | ⟨-, hy⟩
    · cases hf
      exact hs.behind x e hx
    · exact hs.behind y f hy
  held y f hy hstage := by
    change Function.update s.held e.lock (some x) f.lock = some y
    rcases seat_update hy with ⟨rfl, hf⟩ | ⟨-, hy⟩
    · cases hf
      exact Function.update_self ..
    · have hheld := hs.held y f hy hstage
      have hne : f.lock ≠ e.lock := by
        intro hl
        rw [hl, hfree] at hheld
        cases hheld
      rw [Function.update_of_ne hne, hheld]
  locks y f hy hcur := by
    rcases seat_update hy with ⟨-, hf⟩ | ⟨-, hy⟩
    · cases hf
      exact hs.locks x e hx hcur
    · exact hs.locks y f hy hcur
  alone y z f f' hy hz hf hf' hkey hgen := by
    rcases seat_update hy with ⟨-, hff⟩ | ⟨-, hy⟩
    · cases hff
      cases hf
    rcases seat_update hz with ⟨-, hff⟩ | ⟨-, hz⟩
    · cases hff
      cases hf'
    exact hs.alone y z f f' hy hz hf hf' hkey hgen

/-- The holder of the lock of a current generation is the only one admitted in it: the others found the same lock. -/
theorem Inv.enter {x : π} {e : Seat κ γ} (hx : s.seat x = some e) (hstage : e.stage = .holding)
    (hcur : e.generation = s.current e.key) :
    Inv { s with seat := Function.update s.seat x (some { e with stage := .admitted }) } := by
  have hhold : e.stage ≠ .waiting := by simp [hstage]
  have halone {y : π} {f : Seat κ γ} (hy : s.seat y = some f) (hf : f.stage = .admitted) (hkey : e.key = f.key)
      (hgen : e.generation = f.generation) : y = x := by
    by_contra hyx
    have hlf := hs.locks y f hy (by rw [← hgen, ← hkey, hcur])
    rw [← hkey, hs.locks x e hx hcur, Option.some.injEq] at hlf
    exact hs.lock_ne hx hhold hy (by simp [hf]) hyx hlf.symm
  refine ⟨fun y f hy => ?_, fun y f hy hw => ?_, fun y f hy hc => ?_, fun y z f f' hy hz hf hf' hk hg => ?_⟩
  · rcases seat_update hy with ⟨-, hf⟩ | ⟨-, hy⟩
    · cases hf
      exact hs.behind x e hx
    · exact hs.behind y f hy
  · rcases seat_update hy with ⟨rfl, hf⟩ | ⟨-, hy⟩
    · cases hf
      exact hs.held _ e hx hhold
    · exact hs.held y f hy hw
  · rcases seat_update hy with ⟨-, hf⟩ | ⟨-, hy⟩
    · cases hf
      exact hs.locks x e hx hc
    · exact hs.locks y f hy hc
  · rcases seat_update hy with ⟨hyx, hff⟩ | ⟨-, hy⟩
    · rcases seat_update hz with ⟨hzx, -⟩ | ⟨-, hz⟩
      · rw [hyx, hzx]
      · cases hff
        rw [hyx, halone hz hf' hk hg]
    · rcases seat_update hz with ⟨hzx, hff⟩ | ⟨-, hz⟩
      · cases hff
        rw [hzx, halone hy hf hk.symm hg.symm]
      · exact hs.alone y z f f' hy hz hf hf' hk hg

/-- Parties that leave take nothing with them that another one needs. -/
theorem Inv.of_fewer {seat : π → Option (Seat κ γ)} {held : Nat → Option π}
    (hseat : ∀ y f, seat y = some f → s.seat y = some f)
    (hheld : ∀ y f, seat y = some f → f.stage ≠ .waiting → held f.lock = some y) :
    Inv { s with seat := seat, held := held } where
  behind y f hy := hs.behind y f (hseat y f hy)
  held y f hy hw := hheld y f hy hw
  locks y f hy hc := hs.locks y f (hseat y f hy) hc
  alone y z f f' hy hz := hs.alone y z f f' (hseat y f hy) (hseat z f' hz)

theorem Inv.hand {x y : π} {e : Seat κ γ} (hx : s.seat x = some e) (hstage : e.stage ≠ .waiting) (hy : s.seat y = none) :
    Inv { s with
      seat := Function.update (Function.update s.seat x none) y (some e)
      held := Function.update s.held e.lock (some y) } := by
  have horigin {z : π} {f : Seat κ γ} (hz : Function.update (Function.update s.seat x none) y (some e) z = some f) :
      (z = y ∧ e = f) ∨ (z ≠ y ∧ z ≠ x ∧ s.seat z = some f) := by
    by_cases hzy : z = y
    · subst hzy
      exact Or.inl ⟨rfl, by simpa using hz⟩
    · rw [Function.update_of_ne hzy] at hz
      rcases seat_update hz with ⟨-, hf⟩ | ⟨hzx, hz⟩
      · cases hf
      · exact Or.inr ⟨hzy, hzx, hz⟩
  refine ⟨fun z f hz => ?_, fun z f hz hw => ?_, fun z f hz hc => ?_, fun z w f f' hz hw hf hf' hk hg => ?_⟩
  · rcases horigin hz with ⟨-, rfl⟩ | ⟨-, -, hz⟩
    · exact hs.behind x e hx
    · exact hs.behind z f hz
  · change Function.update s.held e.lock (some y) f.lock = some z
    rcases horigin hz with ⟨rfl, rfl⟩ | ⟨-, hzx, hz⟩
    · exact Function.update_self ..
    · rw [Function.update_of_ne (hs.lock_ne hx hstage hz hw hzx), hs.held z f hz hw]
  · rcases horigin hz with ⟨-, rfl⟩ | ⟨-, -, hz⟩
    · exact hs.locks x e hx hc
    · exact hs.locks z f hz hc
  · rcases horigin hz with ⟨rfl, rfl⟩ | ⟨-, hzx, hz⟩
    · rcases horigin hw with ⟨rfl, -⟩ | ⟨-, hwx, hw⟩
      · rfl
      · exact absurd (hs.alone x w e f' hx hw hf hf' hk hg).symm hwx
    · rcases horigin hw with ⟨-, rfl⟩ | ⟨-, -, hw⟩
      · exact absurd (hs.alone z x f e hz hx hf hf' hk hg) hzx
      · exact hs.alone z w f f' hz hw hf hf' hk hg

theorem Inv.move {current : κ → γ} (hle : ∀ k, s.current k ≤ current k) : Inv { s with current := current } where
  behind x e hx := (hs.behind x e hx).trans (hle e.key)
  held := hs.held
  locks x e hx hcur := hs.locks x e hx (hs.was_current hx (hle e.key) hcur)
  alone := hs.alone

theorem Inv.drop {p : ρ} (hnone : ∀ x e, s.seat x = some e → group e.key = p → e.generation ≠ s.current e.key) :
    Inv { s with locks := fun k => if group k = p then none else s.locks k } where
  behind := hs.behind
  held := hs.held
  locks x e hx hcur := by
    have hne : group e.key ≠ p := fun h => hnone x e hx h hcur
    exact (if_neg hne).trans (hs.locks x e hx hcur)
  alone := hs.alone

end Kept

theorem Step.inv (h : Step group s v s') (hs : Inv s) : Inv s' := by
  cases h with
  | look x k g l _ hg hl => exact hs.look hg hl
  | take x e hx _ hfree => exact hs.take hx hfree
  | enter x e hx hstage hcur => exact hs.enter hx hstage hcur
  | quit x e hx _ =>
    refine hs.of_fewer (fun y f hy => ?_) (fun y f hy hw => ?_)
    all_goals
      rcases seat_update hy with ⟨-, hf⟩ | ⟨-, hy⟩
      · cases hf
    · exact hy
    · exact hs.held y f hy hw
  | leave x e hx hstage =>
    refine hs.of_fewer (fun y f hy => ?_) (fun y f hy hw => ?_)
    all_goals
      rcases seat_update hy with ⟨-, hf⟩ | ⟨hyx, hy⟩
      · cases hf
    · exact hy
    · rw [Function.update_of_ne (hs.lock_ne hx hstage hy hw hyx), hs.held y f hy hw]
  | hand x y e hx hstage hy => exact hs.hand hx hstage hy
  | move current hle => exact hs.move hle
  | drop p hnone => exact hs.drop hnone

/-- A party is admitted by an event of its own, or takes over from one that was. -/
theorem Step.admitted_origin (h : Step group s v s') {y : π} {f : Seat κ γ} (hy : s'.seat y = some f)
    (hf : f.stage = .admitted) : (∃ z, s.seat z = some f) ∨ v = .enter y := by
  cases h with
  | look x k g l _ _ _ =>
    rcases seat_update hy with ⟨-, he⟩ | ⟨-, hy⟩
    · cases he
      cases hf
    · exact Or.inl ⟨y, hy⟩
  | take x e _ _ _ =>
    rcases seat_update hy with ⟨-, he⟩ | ⟨-, hy⟩
    · cases he
      cases hf
    · exact Or.inl ⟨y, hy⟩
  | enter x e _ _ _ =>
    rcases seat_update hy with ⟨rfl, -⟩ | ⟨-, hy⟩
    · exact Or.inr rfl
    · exact Or.inl ⟨y, hy⟩
  | quit x e _ _ =>
    rcases seat_update hy with ⟨-, he⟩ | ⟨-, hy⟩
    · cases he
    · exact Or.inl ⟨y, hy⟩
  | leave x e _ _ =>
    rcases seat_update hy with ⟨-, he⟩ | ⟨-, hy⟩
    · cases he
    · exact Or.inl ⟨y, hy⟩
  | hand x z e hx _ _ =>
    by_cases hyz : y = z
    · subst hyz
      have he : e = f := by simpa using hy
      exact Or.inl ⟨x, he ▸ hx⟩
    · have hy' : Function.update s.seat x none y = some f := by simpa [hyz] using hy
      rcases seat_update hy' with ⟨-, he⟩ | ⟨-, hy⟩
      · cases he
      · exact Or.inl ⟨y, hy⟩
  | move current _ => exact Or.inl ⟨y, hy⟩
  | drop p _ => exact Or.inl ⟨y, hy⟩

end Flight

end Anvil.Lib
