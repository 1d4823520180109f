import Mathlib.Tactic

/-!
# Finding a pattern, and tokens between doubled delimiters

* `findSplit pat t` : `t` around the first place of `pat` (`str::find` and the two slices it gives), with `Meets` for what
  stands before it;
* `Opens o c t text expr rest` : `t` starts with `text`, then the first token `oo expr cc`, then `rest`;
* `Opens.unique`, `braces_induction` : a list has at most one first token, and the rule that follows the tokens;
* `Meets.append`, `opens_append`, `plain_append` : texts in which no doubled delimiter starts, joined.
-/

namespace Anvil.Lib

variable {α : Type}

/-! ## Finding -/

/-- The parts of a list before and after the first place of `pat`. -/
def findSplit [DecidableEq α] (pat : List α) : List α → Option (List α × List α)
  | [] => if pat.isEmpty then some ([], []) else none
  | a :: t =>
    if pat.isPrefixOf (a :: t) then some ([], (a :: t).drop pat.length)
    else (findSplit pat t).map fun p => (a :: p.1, p.2)

/-- Before `x ++ pat` ends, `pat` has no other place. -/
def Meets (pat x : List α) : Prop := ¬ pat <:+: x ++ pat.dropLast

theorem meets_cons {pat : List α} (hne : pat ≠ []) {a : α} {x : List α} (y : List α) :
    Meets pat (a :: x) ↔ ¬ pat <+: a :: (x ++ pat ++ y) ∧ Meets pat x := by
  obtain ⟨p, l, rfl⟩ : ∃ p l, pat = p ++ [l] := ⟨_, _, (List.dropLast_append_getLast hne).symm⟩
  unfold Meets
  rw [List.cons_append, List.infix_cons_iff, not_or, List.dropLast_concat]
  refine and_congr_left' (not_congr ?_)
  have hlen : (p ++ [l]).length ≤ (a :: (x ++ p)).length := by simp
  have hsplit : a :: (x ++ (p ++ [l]) ++ y) = a :: (x ++ p) ++ ([l] ++ y) := by simp
  rw [hsplit]
  exact ⟨fun h => h.trans (List.prefix_append _ _), fun h => List.prefix_of_prefix_length_le h (List.prefix_append _ _) hlen⟩

theorem meets_nil {pat : List α} (hne : pat ≠ []) : Meets pat [] := by
  intro h
  have := h.length_le
  rw [List.nil_append, List.length_dropLast] at this
  have := List.length_pos_iff.2 hne
  omega

theorem findSplit_eq_some [DecidableEq α] {pat : List α} (hne : pat ≠ []) {t x y : List α} :
    findSplit pat t = some (x, y) ↔ t = x ++ pat ++ y ∧ Meets pat x := by
  induction t generalizing x with
  | nil =>
    have hlen := List.length_pos_iff.2 hne
    constructor
    · intro h
      simp [findSplit, hne] at h
    · rintro ⟨h, -⟩
      have := congrArg List.length h
      simp only [List.length_nil, List.length_append] at this
      omega
  | cons a t ih =>
    unfold findSplit
    by_cases hp : pat <+: a :: t
    · rw [if_pos (List.isPrefixOf_iff_prefix.2 hp)]
      constructor
      · intro h
        obtain ⟨rfl, rfl⟩ := Prod.mk.inj (Option.some.inj h)
        obtain ⟨s, hs⟩ := hp
        refine ⟨?_, meets_nil hne⟩
        rw [← hs, List.drop_left, List.nil_append]
      · rintro ⟨h, hm⟩
        cases x with
        | nil =>
          rw [h, List.nil_append, List.drop_left]
        | cons b x =>
          rw [h] at hp
          exact absurd hp ((meets_cons hne y).1 hm).1
    · rw [if_neg fun h => hp (List.isPrefixOf_iff_prefix.1 h), Option.map_eq_some_iff]
      constructor
      · rintro ⟨⟨x', y'⟩, hf, he⟩
        obtain ⟨rfl, rfl⟩ := Prod.mk.inj he
        obtain ⟨rfl, hm⟩ := ih.1 hf
        exact ⟨by simp, (meets_cons hne _).2 ⟨hp, hm⟩⟩
      · rintro ⟨h, hm⟩
        cases x with
        | nil => exact absurd ⟨y, h.symm⟩ hp
        | cons b x =>
          obtain ⟨rfl, rfl⟩ := List.cons.inj h
          exact ⟨(x, y), ih.2 ⟨rfl, ((meets_cons hne y).1 hm).2⟩, rfl⟩

/-! ## Tokens -/

variable {o c : α}

/-- The first token of `t`: what stands before it, between its delimiters, and after it. -/
structure Opens (o c : α) (t text expr rest : List α) : Prop where
  split : t = text ++ [o, o] ++ (expr ++ [c, c] ++ rest)
  clear : Meets [o, o] text
  short : Meets [c, c] expr

theorem opens_iff [DecidableEq α] {t text expr rest : List α} : Opens o c t text expr rest ↔
    ∃ after, findSplit [o, o] t = some (text, after) ∧ findSplit [c, c] after = some (expr, rest) := by
  constructor
  · rintro ⟨hsplit, hclear, hshort⟩
    exact ⟨_, (findSplit_eq_some (by simp)).2 ⟨hsplit, hclear⟩, (findSplit_eq_some (by simp)).2 ⟨rfl, hshort⟩⟩
  · rintro ⟨after, ho, hc⟩
    obtain ⟨rfl, hclear⟩ := (findSplit_eq_some (by simp)).1 ho
    obtain ⟨rfl, hshort⟩ := (findSplit_eq_some (by simp)).1 hc
    exact ⟨rfl, hclear, hshort⟩

theorem Opens.unique [DecidableEq α] {t text expr rest text' expr' rest' : List α} (h : Opens o c t text expr rest)
    (h' : Opens o c t text' expr' rest') : text = text' ∧ expr = expr' ∧ rest = rest' := by
  obtain ⟨after, ho, hc⟩ := opens_iff.1 h
  obtain ⟨after', ho', hc'⟩ := opens_iff.1 h'
  obtain ⟨rfl, rfl⟩ := Prod.mk.inj (Option.some.inj (ho.symm.trans ho'))
  obtain ⟨rfl, rfl⟩ := Prod.mk.inj (Option.some.inj (hc.symm.trans hc'))
  exact ⟨rfl, rfl, rfl⟩

theorem Opens.length_lt {t text expr rest : List α} (h : Opens o c t text expr rest) : rest.length < t.length := by
  rw [h.split]
  simp only [List.length_append, List.length_cons]
  omega

/-- No token of `t` is complete. -/
def Plain (o c : α) (t : List α) : Prop := ∀ text expr rest, ¬ Opens o c t text expr rest

/-- Follows the tokens of a list. -/
theorem braces_induction {P : List α → Prop} (plain : ∀ t, Plain o c t → P t)
    (token : ∀ t text expr rest, Opens o c t text expr rest → P rest → P t) (t : List α) : P t := by
  induction hn : t.length using Nat.strong_induction_on generalizing t with
  | _ n ih =>
    by_cases h : Plain o c t
    · exact plain t h
    · unfold Plain at h
      push Not at h
      obtain ⟨text, expr, rest, h⟩ := h
      exact token t text expr rest h (ih rest.length (hn ▸ h.length_lt) rest rfl)

/-! ## Joining -/

theorem meets_of_not_mem {x : List α} (h : o ∉ x) : Meets [o, o] x := by
  induction x with
  | nil => exact meets_nil (by simp)
  | cons a x ih =>
    obtain ⟨hao, hx⟩ := not_or.1 fun hm => h (List.mem_cons.2 hm)
    exact (meets_cons (by simp) []).2 ⟨fun hp => hao (List.cons_prefix_cons.1 hp).1, ih hx⟩

theorem not_prefix_of_meets {a : α} {x : List α} (h : Meets [o, o] (a :: x)) (t : List α) : ¬ [o, o] <+: a :: (x ++ t) := by
  intro hp
  obtain ⟨rfl, ht⟩ := List.cons_prefix_cons.1 hp
  refine ((meets_cons (by simp) []).1 h).1 (List.cons_prefix_cons.2 ⟨rfl, ?_⟩)
  cases x with
  | nil => exact ⟨_, rfl⟩
  | cons b x =>
    obtain ⟨rfl, -⟩ := List.cons_prefix_cons.1 ht
    exact ⟨_, rfl⟩

/-- A doubled delimiter does not straddle two texts that neither holds nor starts one. -/
theorem Meets.append {x y : List α} (hx : Meets [o, o] x) (hy : Meets [o, o] y) : Meets [o, o] (x ++ y) := by
  induction x with
  | nil => exact hy
  | cons a x ih =>
    refine (meets_cons (by simp) []).2 ⟨?_, ih ((meets_cons (by simp) []).1 hx).2⟩
    rw [List.append_nil]
    exact (List.append_assoc x y [o, o]).symm ▸ not_prefix_of_meets hx _

theorem findSplit_append [DecidableEq α] {x : List α} (h : Meets [o, o] x) (t : List α) :
    findSplit [o, o] (x ++ t) = (findSplit [o, o] t).map fun p => (x ++ p.1, p.2) := by
  induction x with
  | nil => simp
  | cons a x ih =>
    rw [List.cons_append, findSplit, if_neg fun hp => not_prefix_of_meets h t (List.isPrefixOf_iff_prefix.1 hp),
      ih ((meets_cons (by simp) []).1 h).2, Option.map_map]
    rfl

/-- The tokens of `x ++ t` are those of `t`. -/
theorem opens_append [DecidableEq α] {x t text expr rest : List α} (h : Meets [o, o] x) :
    Opens o c (x ++ t) text expr rest ↔ ∃ text', text = x ++ text' ∧ Opens o c t text' expr rest := by
  simp only [opens_iff, findSplit_append h, Option.map_eq_some_iff, Prod.exists, Prod.mk.injEq]
  constructor
  · rintro ⟨_, ⟨text', after, hf, rfl, rfl⟩, hc⟩
    exact ⟨text', rfl, after, hf, hc⟩
  · rintro ⟨text', rfl, after, hf, hc⟩
    exact ⟨after, ⟨text', after, hf, rfl, rfl⟩, hc⟩

theorem plain_append [DecidableEq α] {x t : List α} (h : Meets [o, o] x) (ht : Plain o c t) : Plain o c (x ++ t) := by
  intro text expr rest hopens
  obtain ⟨text', -, hopens⟩ := (opens_append h).1 hopens
  exact ht _ _ _ hopens

end Anvil.Lib
