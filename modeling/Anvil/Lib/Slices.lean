import Mathlib.Tactic

/-!
# Parts of a list by their places

* `slice?` : `get(a..b)`;
* `rposition` : where a pattern stands last (`windows(n).rposition(..)`);
* `slice?_eq_some`, `rposition_le` : both are within the list.
-/

namespace Anvil.Lib

variable {α : Type}

def slice? (l : List α) (a b : Nat) : Option (List α) := if a ≤ b ∧ b ≤ l.length then some ((l.drop a).take (b - a)) else none

theorem slice?_eq_some {l s : List α} {a b : Nat} (h : slice? l a b = some s) : a ≤ b ∧ b ≤ l.length ∧ s.length = b - a := by
  unfold slice? at h
  split_ifs at h with hab
  obtain rfl := Option.some.inj h
  refine ⟨hab.1, hab.2, ?_⟩
  rw [List.length_take, List.length_drop]
  omega

def rposition [BEq α] (pat l : List α) : Option Nat :=
  (List.range (l.length + 1 - pat.length)).reverse.find? fun i => pat.isPrefixOf (l.drop i)

theorem rposition_le [BEq α] {pat l : List α} {i : Nat} (h : rposition pat l = some i) : i + pat.length ≤ l.length := by
  have hmem := List.mem_of_find?_eq_some h
  rw [List.mem_reverse, List.mem_range] at hmem
  omega

end Anvil.Lib
