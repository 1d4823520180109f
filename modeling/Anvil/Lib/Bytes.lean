import Mathlib.Tactic

/-!
# Prefixes and searches in lists

* `dropPrefix` : `strip_prefix`;
* `append_cons_inj` : what stands before and after the last separator;
* `skipPast` : what follows the first occurrence of a pattern (`windows(n).position(..)`);
* `skipPast_append` : a text without the pattern, and then the pattern.
-/

namespace Anvil.Lib

-- decided along the list, and not over all 256 bytes
instance (priority := high) decidableForallByte (l : List UInt8) (p : UInt8 → Prop) [DecidablePred p] :
    Decidable (∀ c ∈ l, p c) :=
  List.decidableBAll p l

variable {α : Type} [DecidableEq α]

def dropPrefix : List α → List α → Option (List α)
  | [], t => some t
  | _ :: _, [] => none
  | a :: p, b :: t => if a = b then dropPrefix p t else none

theorem dropPrefix_singleton_cons (a b : α) (t : List α) :
    dropPrefix [a] (b :: t) = if a = b then some t else none := rfl

theorem dropPrefix_eq_some {p l t : List α} : dropPrefix p l = some t ↔ l = p ++ t := by
  induction p generalizing l with
  | nil => exact ⟨Option.some.inj, congrArg some⟩
  | cons a p ih =>
    cases l with
    | nil => simp [dropPrefix]
    | cons b l =>
      unfold dropPrefix
      by_cases h : a = b
      · rw [if_pos h, ih, h, List.cons_append, List.cons.injEq, and_iff_right rfl]
      · rw [if_neg h]
        simp [Ne.symm h]

theorem dropPrefix_eq_none {p l : List α} : dropPrefix p l = none ↔ ¬p <+: l := by
  rw [← not_iff_not, not_not, ← ne_eq, Option.ne_none_iff_exists']
  simp only [dropPrefix_eq_some]
  exact ⟨fun ⟨t, h⟩ => ⟨t, h.symm⟩, fun ⟨t, h⟩ => ⟨t, h.symm⟩⟩

/-- The last separator splits a list in one way. -/
theorem append_cons_inj {c : α} {x y r s : List α} (hr : c ∉ r) (hs : c ∉ s) (h : x ++ c :: r = y ++ c :: s) :
    x = y ∧ r = s := by
  have hcut : ∀ u v : List α, c ∉ u → (u.reverse ++ c :: v).takeWhile (· ≠ c) = u.reverse := by
    intro u v hu
    rw [List.takeWhile_append_of_pos]
    · simp
    · intro b hb
      rw [List.mem_reverse] at hb
      have hne : b ≠ c := fun heq => hu (heq ▸ hb)
      exact decide_eq_true hne
  have hrev := congrArg List.reverse h
  simp only [List.reverse_append, List.reverse_cons, List.append_assoc, List.singleton_append] at hrev
  have hlow := hcut r x.reverse hr
  rw [hrev, hcut s y.reverse hs] at hlow
  rw [hlow] at hrev
  exact ⟨List.reverse_injective (List.cons.inj (List.append_cancel_left hrev)).2, List.reverse_injective hlow.symm⟩

def skipPast (pat : List α) : List α → Option (List α)
  | [] => none
  | b :: t => (dropPrefix pat (b :: t)).or (skipPast pat t)

theorem length_skipPast_lt {pat l t : List α} (hp : pat ≠ []) (h : skipPast pat l = some t) : t.length < l.length := by
  induction l with
  | nil => exact absurd h nofun
  | cons b l ih =>
    unfold skipPast at h
    cases hd : dropPrefix pat (b :: l) with
    | none =>
      rw [hd, Option.none_or] at h
      exact (ih h).trans (Nat.lt_succ_self _)
    | some u =>
      rw [hd, Option.some_or] at h
      cases h
      rw [dropPrefix_eq_some.1 hd, List.length_append]
      have := List.length_pos_of_ne_nil hp
      omega

/-- A pattern `pat ++ [c]` whose last element stands nowhere else in it is first found where it begins. -/
theorem skipPast_append {pat : List α} {c : α} (hc : c ∉ pat) {l : List α} (hl : ¬(pat ++ [c]) <:+: l) (t : List α) :
    skipPast (pat ++ [c]) (l ++ (pat ++ [c]) ++ t) = some t := by
  induction l with
  | nil =>
    rw [List.nil_append]
    cases hp : pat ++ [c] ++ t with
    | nil => simp at hp
    | cons b u =>
      unfold skipPast
      rw [dropPrefix_eq_some.2 hp.symm, Option.some_or]
  | cons b l ih =>
    have hnext := ih fun h => hl (h.trans (List.suffix_cons b l).isInfix)
    have hnone : dropPrefix (pat ++ [c]) (b :: (l ++ (pat ++ [c]) ++ t)) = none := by
      rw [dropPrefix_eq_none]
      intro hpre
      by_cases hle : (pat ++ [c]).length ≤ (b :: l).length
      · refine hl (List.IsPrefix.isInfix (List.prefix_of_prefix_length_le hpre ?_ hle))
        rw [List.append_assoc, ← List.cons_append]
        exact List.prefix_append _ _
      · -- the occurrence would end inside the pattern that follows, where `c` does not stand
        obtain ⟨u, hu⟩ := hpre
        rw [List.length_append, List.length_singleton] at hle
        have hlast : (pat ++ [c] ++ u)[pat.length]? = some c := by
          rw [List.append_assoc, List.getElem?_append_right le_rfl, Nat.sub_self]
          rfl
        rw [hu, List.append_assoc, ← List.cons_append, List.getElem?_append_right (by omega), List.append_assoc,
          List.getElem?_append_left (by rw [List.length_cons] at *; omega)] at hlast
        exact hc (List.mem_of_getElem? hlast)
    show (dropPrefix (pat ++ [c]) (b :: (l ++ (pat ++ [c]) ++ t))).or _ = _
    rw [hnone, Option.none_or]
    exact hnext

end Anvil.Lib
