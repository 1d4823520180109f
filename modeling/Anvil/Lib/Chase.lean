import Mathlib.Tactic

/-!
# Following links

A link is lost, ends at something, or leads to the next link.

* `Leads next a b n` : from `a` one gets to `b` through `n` links; `Leads.unique` : to one end, through one number of links;
* `follow` : following at most so many links; `follow_eq_some` : what it finds;
* `Linked` : a list in which each link leads to the next one; `Linked.leads`, `Linked.lost` : its members end where its last
  one does; `Linked.cyclic` : a list that leads back into itself ends nowhere.
-/

namespace Anvil.Lib

inductive Link (α β : Type)
  | lost
  | ends (b : β)
  | more (a : α)

variable {α β : Type} {next : α → Link α β}

/-- From `a` to `b` through `n` links. -/
inductive Leads (next : α → Link α β) : α → β → Nat → Prop
  | last {a : α} {b : β} (h : next a = .ends b) : Leads next a b 1
  | more {a a' : α} {b : β} {n : Nat} (h : next a = .more a') (hr : Leads next a' b n) : Leads next a b (n + 1)

/-- Following at most `n` links. -/
def follow (next : α → Link α β) : Nat → α → Option β
  | 0, _ => none
  | n + 1, a =>
    match next a with
    | .lost => none
    | .ends b => some b
    | .more a' => follow next n a'

namespace Leads
variable {a a' : α} {b b' : β} {n n' : Nat}

theorem pos (h : Leads next a b n) : 0 < n := by
  cases h <;> exact Nat.succ_pos _

theorem lost_iff (h : next a = .lost) : ¬Leads next a b n := by
  intro hr
  cases hr with
  | last h' => simp [h] at h'
  | more h' _ => simp [h] at h'

theorem ends_iff (h : next a = .ends b) : Leads next a b' n ↔ b' = b ∧ n = 1 := by
  constructor
  · intro hr
    cases hr with
    | last h' => exact ⟨Link.ends.inj (h'.symm.trans h), rfl⟩
    | more h' _ => simp [h] at h'
  · rintro ⟨rfl, rfl⟩
    exact last h

theorem more_iff (h : next a = .more a') : Leads next a b (n + 1) ↔ Leads next a' b n := by
  constructor
  · intro hr
    cases hr with
    | last h' => simp [h] at h'
    | more h' hr => exact Link.more.inj (h'.symm.trans h) ▸ hr
  · exact more h

theorem unique (h : Leads next a b n) (h' : Leads next a b' n') : b = b' ∧ n = n' := by
  induction h generalizing n' with
  | last ha =>
    obtain ⟨rfl, rfl⟩ := (ends_iff ha).1 h'
    exact ⟨rfl, rfl⟩
  | more ha hr ih =>
    obtain ⟨n', rfl⟩ := Nat.exists_eq_succ_of_ne_zero h'.pos.ne'
    obtain ⟨hb, hn⟩ := ih ((more_iff ha).1 h')
    exact ⟨hb, congrArg (· + 1) hn⟩

end Leads

/-- **What following at most `n` links finds** is the end of a chain of no more. -/
theorem follow_eq_some {n : Nat} {a : α} {b : β} : follow next n a = some b ↔ ∃ k ≤ n, Leads next a b k := by
  induction n generalizing a with
  | zero => simpa [follow] using fun h => absurd h.pos (Nat.lt_irrefl 0)
  | succ n ih =>
    unfold follow
    cases h : next a with
    | lost => simpa using fun k _ hr => Leads.lost_iff h hr
    | ends b' =>
      simp only [Option.some.injEq, Leads.ends_iff h]
      constructor
      · rintro rfl
        exact ⟨1, Nat.succ_pos n, rfl, rfl⟩
      · rintro ⟨_, _, rfl, _⟩
        rfl
    | more a' =>
      simp only [ih]
      constructor
      · rintro ⟨k, hk, hr⟩
        exact ⟨k + 1, Nat.succ_le_succ hk, .more h hr⟩
      · rintro ⟨k, hk, hr⟩
        obtain ⟨k, rfl⟩ := Nat.exists_eq_succ_of_ne_zero hr.pos.ne'
        exact ⟨k, Nat.le_of_succ_le_succ hk, (Leads.more_iff h).1 hr⟩

/-! ## Lists of links -/

/-- Each of the list leads to the next. -/
def Linked (next : α → Link α β) (l : List α) : Prop := l.IsChain fun a a' => next a = .more a'

theorem linked_singleton (a : α) : Linked next [a] := List.isChain_singleton a

theorem Linked.concat {l : List α} {a a' : α} (h : Linked next (l ++ [a])) (ha : next a = .more a') :
    Linked next (l ++ [a] ++ [a']) := by
  refine List.isChain_append.2 ⟨h, List.isChain_singleton a', fun x hx y hy => ?_⟩
  obtain rfl : a = x := by simpa using hx
  obtain rfl : a' = y := by simpa using hy
  exact ha

theorem Linked.head {l : List α} {c a : α} (h : Linked next (c :: l ++ [a])) :
    ∃ d, (l ++ [a])[0]? = some d ∧ next c = .more d := by
  cases l with
  | nil => exact ⟨a, rfl, (List.isChain_cons_cons.1 h).1⟩
  | cons d l => exact ⟨d, rfl, (List.isChain_cons_cons.1 h).1⟩

/-- From a member one gets as far as from the last, through the links between them. -/
theorem Linked.leads {l : List α} {a : α} (h : Linked next (l ++ [a])) {b : β} {n : Nat} :
    ∀ {i : Nat} {c : α}, (l ++ [a])[i]? = some c → (Leads next c b (n + 1 + (l.length - i)) ↔ Leads next a b (n + 1)) := by
  induction l with
  | nil =>
    intro i c hi
    obtain ⟨hlt, rfl⟩ := List.getElem?_eq_some_iff.1 hi
    obtain rfl : i = 0 := by simpa using hlt
    rfl
  | cons d l ih =>
    have htail : Linked next (l ++ [a]) := List.IsChain.tail h
    intro i c hi
    cases i with
    | zero =>
      obtain rfl : d = c := Option.some.inj hi
      obtain ⟨e, he, hlink⟩ := h.head
      rw [← ih htail he, ← Leads.more_iff hlink]
      rfl
    | succ i =>
      rw [List.length_cons, Nat.succ_sub_succ]
      exact ih htail hi

/-- Members of a list that ends nowhere end nowhere. -/
theorem Linked.lost {l : List α} {a : α} (h : Linked next (l ++ [a])) (ha : ∀ b n, ¬Leads next a b n) :
    ∀ c ∈ l ++ [a], ∀ b n, ¬Leads next c b n := by
  induction l with
  | nil =>
    intro c hc
    obtain rfl := List.mem_singleton.1 hc
    exact ha
  | cons d l ih =>
    have htail : Linked next (l ++ [a]) := List.IsChain.tail h
    intro c hc b n hr
    rcases List.mem_cons.1 hc with rfl | hc
    · obtain ⟨n, rfl⟩ := Nat.exists_eq_succ_of_ne_zero hr.pos.ne'
      obtain ⟨e, he, hlink⟩ := h.head
      exact ih htail e (List.mem_of_getElem? he) b n ((Leads.more_iff hlink).1 hr)
    · exact ih htail c hc b n hr

/-- **A list that leads back into itself ends nowhere.** -/
theorem Linked.cyclic {l : List α} {a a' : α} (h : Linked next (l ++ [a])) (ha : next a = .more a') (hmem : a' ∈ l ++ [a])
    (b : β) (n : Nat) : ¬Leads next a b n := by
  intro hr
  obtain ⟨n, rfl⟩ := Nat.exists_eq_succ_of_ne_zero hr.pos.ne'
  obtain ⟨i, hi⟩ := List.mem_iff_getElem?.1 hmem
  have hback : Leads next a' b (n + 1 + (l.length - i)) := (h.leads hi).2 hr
  have := ((Leads.more_iff ha).1 hr).unique hback
  omega

end Anvil.Lib
