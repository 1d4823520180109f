import Mathlib.Data.List.Nodup
import Mathlib.Tactic

/-!
# Forests given by parent links

`Links` gives every node its parent: `none` for what is no node, `some none` for a root.

* `Chain f o l` : from `o` upwards the links name the nodes `l` and then a root; a chain never repeats a node
  (`Chain.nodup`) and is the only one from its start (`Chain.unique`);
* `Rooted f` : every node has a chain;
* `Rooted.link`, `rooted_link_iff` : linking a node under a parent keeps that exactly when the node is not on the chain
  of the parent;
* `Rooted.prune` : so does removing nodes together with everything below them.
-/

namespace Anvil.Lib

abbrev Links (ι : Type) := ι → Option (Option ι)

/-- The nodes `l` lead from `o` to a root. -/
inductive Chain {ι : Type} (f : Links ι) : Option ι → List ι → Prop
  | root : Chain f none []
  | link {a : ι} {p : Option ι} {l : List ι} : f a = some p → Chain f p l → Chain f (some a) (a :: l)

/-- From every node the parents lead to a root. -/
def Rooted {ι : Type} (f : Links ι) : Prop := ∀ a p, f a = some p → ∃ l, Chain f (some a) l

section
variable {ι : Type} {f g : Links ι}

theorem Chain.unique {o : Option ι} {l l' : List ι} (h : Chain f o l) (h' : Chain f o l') : l = l' := by
  induction h generalizing l' with
  | root =>
    cases h'
    rfl
  | link hp _ ih =>
    cases h' with
    | link hp' h' =>
      rw [hp] at hp'
      cases hp'
      rw [ih h']

/-- Every node of a chain is linked. -/
theorem Chain.linked {o : Option ι} {l : List ι} (h : Chain f o l) : ∀ a ∈ l, ∃ p, f a = some p := by
  induction h with
  | root => exact fun a ha => absurd ha (List.not_mem_nil)
  | link hp _ ih =>
    intro b hb
    obtain rfl | hb := List.mem_cons.1 hb
    · exact ⟨_, hp⟩
    · exact ih b hb

/-- What follows a node of a chain is that node's own chain. -/
theorem Chain.above {o : Option ι} {l : List ι} (h : Chain f o l) {a : ι} (ha : a ∈ l) :
    ∃ l', Chain f (some a) l' ∧ l'.length ≤ l.length := by
  induction h with
  | root => exact absurd ha (List.not_mem_nil)
  | link hp hrest ih =>
    obtain rfl | ha := List.mem_cons.1 ha
    · exact ⟨_, .link hp hrest, le_rfl⟩
    · obtain ⟨l', hl', hlen⟩ := ih ha
      exact ⟨l', hl', hlen.trans (Nat.le_succ _)⟩

theorem Chain.nodup {o : Option ι} {l : List ι} (h : Chain f o l) : l.Nodup := by
  induction h with
  | root => exact List.nodup_nil
  | link hp hrest ih =>
    refine List.nodup_cons.2 ⟨fun ha => ?_, ih⟩
    -- a second occurrence would have a chain of its own that is shorter than the one from the first
    obtain ⟨l', hl', hlen⟩ := hrest.above ha
    rw [Chain.unique hl' (.link hp hrest)] at hlen
    exact absurd hlen (Nat.not_succ_le_self _)

/-- A chain only depends on the links of its nodes. -/
theorem Chain.congr {o : Option ι} {l : List ι} (h : Chain f o l) (hfg : ∀ a ∈ l, f a = g a) : Chain g o l := by
  induction h with
  | root => exact .root
  | link hp _ ih =>
    apply Chain.link
    · rw [← hfg _ List.mem_cons_self, hp]
    · exact ih fun b hb => hfg b (List.mem_cons_of_mem _ hb)

section Link
variable [DecidableEq ι] {a : ι} {p : Option ι}

/-- The links with `a` under `p`. -/
def Links.link (f : Links ι) (a : ι) (p : Option ι) : Links ι := fun b => if b = a then some p else f b

theorem Chain.mem_of_link {q o : Option ι} {l l' : List ι} (h : Chain f o l) (ha : a ∈ l)
    (h' : Chain (f.link a q) o l') : a ∈ l' := by
  induction h generalizing l' with
  | root => exact absurd ha (List.not_mem_nil)
  | @link b r l hb _ ih =>
    cases h' with
    | link hb' h' =>
      by_cases hba : b = a
      · rw [hba]
        exact List.mem_cons_self
      · rw [Links.link, if_neg hba, hb] at hb'
        cases hb'
        exact List.mem_cons_of_mem _ (ih (List.mem_of_ne_of_mem (Ne.symm hba) ha) h')

theorem Rooted.link (hf : Rooted f) {l : List ι} (hp : Chain f p l) (ha : a ∉ l) : Rooted (f.link a p) := by
  have hself : Chain (f.link a p) (some a) (a :: l) := by
    refine .link (if_pos rfl) (hp.congr fun b hb => ?_)
    rw [Links.link, if_neg (ne_of_mem_of_not_mem hb ha)]
  have hchain : ∀ o l, Chain f o l → ∃ l', Chain (f.link a p) o l' := by
    intro o l h
    induction h with
    | root => exact ⟨[], .root⟩
    | @link b r l hb _ ih =>
      by_cases hba : b = a
      · rw [hba]
        exact ⟨_, hself⟩
      · obtain ⟨l', hl'⟩ := ih
        exact ⟨b :: l', .link (by rw [Links.link, if_neg hba, hb]) hl'⟩
  intro b q hb
  rw [Links.link] at hb
  split_ifs at hb with hba
  · rw [hba]
    exact ⟨_, hself⟩
  · obtain ⟨l, hl⟩ := hf b q hb
    exact hchain _ _ hl

/-- Where the chain of the new parent leads through the node itself, the links become cyclic. -/
theorem rooted_link_iff (hf : Rooted f) {l : List ι} (hp : Chain f p l) : Rooted (f.link a p) ↔ a ∉ l := by
  constructor
  · intro hrooted ha
    obtain ⟨l', hl'⟩ := hrooted a p (if_pos rfl)
    have hnodup := hl'.nodup
    cases hl' with
    | link hself hrest =>
      rw [Links.link, if_pos rfl] at hself
      cases hself
      exact (List.nodup_cons.1 hnodup).1 (hp.mem_of_link ha hrest)
  · exact hf.link hp

end Link

/-- Removing nodes together with their children. -/
theorem Rooted.prune (hf : Rooted f) (gone : ι → Prop) (hdown : ∀ a p, f a = some (some p) → gone p → gone a)
    (hg : ∀ a, ¬ gone a → g a = f a) (hgone : ∀ a, gone a → g a = none) : Rooted g := by
  have hchain : ∀ o l, Chain f o l → (∀ a, o = some a → ¬ gone a) → Chain g o l := by
    intro o l h
    induction h with
    | root => exact fun _ => .root
    | @link b r l hb _ ih =>
      intro hkept
      refine .link ((hg b (hkept b rfl)).trans hb) (ih ?_)
      rintro a rfl
      exact fun ha => hkept b rfl (hdown b a hb ha)
  intro a p ha
  have hkept : ¬ gone a := by
    intro h
    rw [hgone a h] at ha
    cases ha
  rw [hg a hkept] at ha
  obtain ⟨l, hl⟩ := hf a p ha
  refine ⟨l, hchain _ _ hl ?_⟩
  rintro b hb
  cases hb
  exact hkept

end

end Anvil.Lib
