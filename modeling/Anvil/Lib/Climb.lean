import Anvil.Lib.Forest
import Mathlib.Data.List.Basic
import Mathlib.Logic.Function.Basic
import Mathlib.Logic.Relation

/-!
# Looking for a cycle of parent links

Every node is walked from upwards, and what is known to reach a root is marked and never walked again.

* `Parents.of` : the parent of each node of a list, of which the last one of a name counts;
* `climb` : one walk; `climbAll` : a walk from each node, with shared marks;
* `Acyclic` : no node is above itself;
* `climbAll_eq_none` : no walk meets itself exactly when the links are acyclic.
-/

namespace Anvil.Lib

variable {ι : Type} [DecidableEq ι]

/-- A map from names to parents, filled from a list. -/
abbrev Parents (ι : Type) := List (ι × Option ι)

/-- The parent of a node; the last entry of a name is the one that stays in the map. -/
def Parents.of (l : Parents ι) (a : ι) : Option ι := (l.reverse.find? fun e => e.1 = a).bind Prod.snd

/-- `false`: on the walk in progress; `true`: known to reach a root. -/
abbrev Marks (ι : Type) := ι → Option Bool

theorem Parents.mem_of {l : Parents ι} {a p : ι} (h : l.of a = some p) : a ∈ l.map Prod.fst := by
  obtain ⟨e, he, -⟩ := Option.bind_eq_some_iff.1 h
  have hkey : e.1 = a := by simpa using List.find?_some he
  exact List.mem_map.2 ⟨e, List.mem_reverse.1 (List.mem_of_find?_eq_some he), hkey⟩

/-- How much there is left to walk. -/
def climbMeasure (l : Parents ι) (m : Marks ι) (cur : Option ι) : Nat :=
  2 * ((l.map Prod.fst).filter fun a => m a = none).length + cur.elim 0 fun _ => 1

theorem climbMeasure_lt (l : Parents ι) (m : Marks ι) {c : ι} (hc : m c = none) :
    climbMeasure l (Function.update m c (some false)) (l.of c) < climbMeasure l m (some c) := by
  have hle : ((l.map Prod.fst).filter fun a => Function.update m c (some false) a = none).Sublist
      ((l.map Prod.fst).filter fun a => m a = none) := by
    refine List.monotone_filter_right _ fun a ha => ?_
    by_cases hac : a = c
    · rw [hac, Function.update_self] at ha
      cases of_decide_eq_true ha
    · rwa [Function.update_of_ne hac] at ha
  unfold climbMeasure
  cases hp : l.of c with
  | none =>
    have hlen := hle.length_le
    simp only [Option.elim_none, Option.elim_some]
    omega
  | some p =>
    have hmem : c ∈ (l.map Prod.fst).filter fun a => m a = none := List.mem_filter.2 ⟨l.mem_of hp, decide_eq_true hc⟩
    have hlt : ((l.map Prod.fst).filter fun a => Function.update m c (some false) a = none).length <
        ((l.map Prod.fst).filter fun a => m a = none).length := by
      refine lt_of_le_of_ne hle.length_le fun he => ?_
      rw [← hle.eq_of_length he, List.mem_filter, Function.update_self] at hmem
      cases of_decide_eq_true hmem.2
    simp only [Option.elim_some]
    omega

/-- The marks and the nodes of a walk that ends, or nothing where it meets one of its own nodes. -/
def climb (l : Parents ι) (m : Marks ι) (path : List ι) : Option ι → Option (Marks ι × List ι)
  | none => some (m, path)
  | some c =>
    match _ : m c with
    | some true => some (m, path)
    | some false => none
    | none => climb l (Function.update m c (some false)) (path ++ [c]) (l.of c)
termination_by cur => climbMeasure l m cur
decreasing_by exact climbMeasure_lt l m ‹_›

/-- The nodes of a walk that ended reach a root. -/
def markAll (m : Marks ι) (path : List ι) : Marks ι := path.foldl (fun m c => Function.update m c (some true)) m

/-- The first node whose walk meets itself. -/
def climbAll {α : Type} (key : α → ι) (l : Parents ι) : Marks ι → List α → Option α
  | _, [] => none
  | m, a :: rest => (climb l m [] (some (key a))).elim (some a) fun r => climbAll key l (markAll r.1 r.2) rest

/-! ## Cycles -/

def Above (l : Parents ι) (a b : ι) : Prop := l.of a = some b

/-- No node is above itself. -/
def Acyclic (l : Parents ι) : Prop := ∀ a, ¬Relation.TransGen (Above l) a a

/-- From the node the parents lead to a root. -/
def ReachesRoot (l : Parents ι) (a : ι) : Prop := ∃ c, Chain (fun b => some (l.of b)) (some a) c

theorem mem_of_above {l : Parents ι} {a b : ι} (h : Relation.TransGen (Above l) a b) {c : List ι}
    (hc : Chain (fun d => some (l.of d)) (l.of a) c) : b ∈ c := by
  induction h using Relation.TransGen.head_induction_on generalizing c with
  | single hab =>
    rw [show l.of _ = _ from hab] at hc
    cases hc with
    | link _ _ => exact List.mem_cons_self
  | head hab _ ih =>
    rw [show l.of _ = _ from hab] at hc
    cases hc with
    | link hp hrest =>
      rw [← Option.some.inj hp] at hrest
      exact List.mem_cons_of_mem _ (ih hrest)

theorem not_above_self {l : Parents ι} {a : ι} (h : ReachesRoot l a) : ¬Relation.TransGen (Above l) a a := by
  intro hcycle
  obtain ⟨c, hc⟩ := h
  have hnodup := hc.nodup
  cases hc with
  | link hp hrest =>
    rw [← Option.some.inj hp] at hrest
    exact (List.nodup_cons.1 hnodup).1 (mem_of_above hcycle hrest)

/-- A node on a cycle has a parent. -/
theorem acyclic_of_reaches {l : Parents ι} (h : ∀ a ∈ l.map Prod.fst, ReachesRoot l a) : Acyclic l := by
  intro a hcycle
  obtain ⟨b, hb, -⟩ := Relation.TransGen.head'_iff.1 hcycle
  exact not_above_self (h a (l.mem_of hb)) hcycle

/-! ## One walk -/

/-- A walk in progress: what is marked reaches a root, its own nodes are below where it is, and all of them reach a root if
it does. -/
structure Climbing (l : Parents ι) (m : Marks ι) (path : List ι) (cur : Option ι) : Prop where
  marked : ∀ a, m a = some true → ReachesRoot l a
  own : ∀ a, m a = some false → a ∈ path
  below : ∀ a ∈ path, ∀ c, cur = some c → Relation.TransGen (Above l) a c
  reach : (∀ c, cur = some c → ReachesRoot l c) → ∀ a ∈ path, ReachesRoot l a

theorem reaches_of_parent {l : Parents ι} {c : ι} (h : ∀ p, l.of c = some p → ReachesRoot l p) : ReachesRoot l c := by
  cases hp : l.of c with
  | none => exact ⟨[c], .link (congrArg some hp) .root⟩
  | some p =>
    obtain ⟨t, ht⟩ := h p hp
    exact ⟨c :: t, .link (congrArg some hp) ht⟩

theorem Climbing.step {l : Parents ι} {m : Marks ι} {path : List ι} {c : ι} (h : Climbing l m path (some c)) :
    Climbing l (Function.update m c (some false)) (path ++ [c]) (l.of c) where
  marked a ha := by
    by_cases hac : a = c
    · rw [hac, Function.update_self] at ha
      cases ha
    · rw [Function.update_of_ne hac] at ha
      exact h.marked a ha
  own a ha := by
    by_cases hac : a = c
    · exact List.mem_append_right _ (List.mem_singleton.2 hac)
    · rw [Function.update_of_ne hac] at ha
      exact List.mem_append_left _ (h.own a ha)
  below a ha p hp := by
    rcases List.mem_append.1 ha with ha | ha
    · exact (h.below a ha c rfl).tail hp
    · rw [List.mem_singleton.1 ha]
      exact .single hp
  reach hcur a ha := by
    have hc : ReachesRoot l c := reaches_of_parent hcur
    rcases List.mem_append.1 ha with ha | ha
    · exact h.reach (fun d hd => Option.some.inj hd ▸ hc) a ha
    · rw [List.mem_singleton.1 ha]
      exact hc

/-- What a walk that ended leaves. -/
structure Climbed (l : Parents ι) (m m' : Marks ι) (path : List ι) : Prop where
  marked : ∀ a, m' a = some true → ReachesRoot l a
  own : ∀ a, m' a = some false → a ∈ path
  reach : ∀ a ∈ path, ReachesRoot l a
  grows : ∀ a, m a ≠ none → m' a ≠ none

theorem climb_spec {l : Parents ι} {m : Marks ι} {path : List ι} {cur : Option ι} (h : Climbing l m path cur) :
    (climb l m path cur = none → ∃ a, Relation.TransGen (Above l) a a) ∧
      ∀ m' path', climb l m path cur = some (m', path') → Climbed l m m' path' ∧ ∀ c, cur = some c → m' c ≠ none := by
  induction m, path, cur using climb.induct l with
  | case1 m path =>
    rw [climb]
    refine ⟨fun h => (by cases h), fun m' path' hr => ?_⟩
    obtain ⟨rfl, rfl⟩ := Prod.mk.inj (Option.some.inj hr)
    exact ⟨⟨h.marked, h.own, h.reach fun c hc => (by cases hc), fun a ha => ha⟩, fun c hc => (by cases hc)⟩
  | case2 m path c hc =>
    have hend : climb l m path (some c) = some (m, path) := by
      rw [climb]
      split <;> simp_all
    rw [hend]
    refine ⟨fun h => (by cases h), fun m' path' hr => ?_⟩
    obtain ⟨rfl, rfl⟩ := Prod.mk.inj (Option.some.inj hr)
    have hreach : ∀ d, some c = some d → ReachesRoot l d := fun d hd => Option.some.inj hd ▸ h.marked c hc
    refine ⟨⟨h.marked, h.own, h.reach hreach, fun a ha => ha⟩, fun d hd => ?_⟩
    rw [← Option.some.inj hd, hc]
    simp
  | case3 m path c hc =>
    have hend : climb l m path (some c) = none := by
      rw [climb]
      split <;> simp_all
    rw [hend]
    exact ⟨fun _ => ⟨c, h.below c (h.own c hc) c rfl⟩, fun m' path' hr => (by cases hr)⟩
  | case4 m path c hc ih =>
    have hnext : climb l m path (some c) = climb l (Function.update m c (some false)) (path ++ [c]) (l.of c) := by
      rw [climb]
      split <;> simp_all
    obtain ⟨hcycle, hdone⟩ := ih h.step
    rw [hnext]
    refine ⟨hcycle, fun m' path' hr => ?_⟩
    obtain ⟨hclimbed, -⟩ := hdone m' path' hr
    have hgrows : ∀ a, m a ≠ none → m' a ≠ none := by
      intro a ha
      refine hclimbed.grows a ?_
      by_cases hac : a = c
      · rw [hac, Function.update_self]
        simp
      · rwa [Function.update_of_ne hac]
    refine ⟨⟨hclimbed.marked, hclimbed.own, hclimbed.reach, hgrows⟩, fun d hd => ?_⟩
    rw [← Option.some.inj hd]
    refine hclimbed.grows c ?_
    rw [Function.update_self]
    simp

/-! ## All walks -/

/-- Between two walks nothing is in progress. -/
def Settled (l : Parents ι) (m : Marks ι) : Prop := (∀ a, m a = some true → ReachesRoot l a) ∧ ∀ a, m a ≠ some false

theorem markAll_eq (m : Marks ι) (path : List ι) (a : ι) : markAll m path a = if a ∈ path then some true else m a := by
  induction path generalizing m with
  | nil => exact (if_neg List.not_mem_nil).symm
  | cons c path ih =>
    have hcons : markAll m (c :: path) = markAll (Function.update m c (some true)) path := rfl
    rw [hcons, ih]
    by_cases hpath : a ∈ path
    · rw [if_pos hpath, if_pos (List.mem_cons_of_mem c hpath)]
    · rw [if_neg hpath]
      by_cases hac : a = c
      · rw [hac, Function.update_self, if_pos List.mem_cons_self]
      · rw [Function.update_of_ne hac, if_neg]
        rw [List.mem_cons, not_or]
        exact ⟨hac, hpath⟩

theorem Settled.start {l : Parents ι} {m : Marks ι} (h : Settled l m) (a : ι) : Climbing l m [] (some a) where
  marked := h.1
  own b hb := absurd hb (h.2 b)
  below _ hb := absurd hb List.not_mem_nil
  reach _ _ hb := absurd hb List.not_mem_nil

theorem Climbed.settled {l : Parents ι} {m m' : Marks ι} {path : List ι} (h : Climbed l m m' path) :
    Settled l (markAll m' path) := by
  refine ⟨fun a ha => ?_, fun a ha => ?_⟩
  · rw [markAll_eq] at ha
    split_ifs at ha with hpath
    · exact h.reach a hpath
    · exact h.marked a ha
  · rw [markAll_eq] at ha
    split_ifs at ha with hpath
    · cases ha
    · exact hpath (h.own a ha)

section All
variable {α : Type} {key : α → ι} {l : Parents ι}

/-- Where no walk meets itself, every node of the list reaches a root; otherwise there is a cycle. -/
theorem climbAll_spec {m : Marks ι} (h : Settled l m) (rest : List α) :
    (climbAll key l m rest = none → ∀ a ∈ rest, ReachesRoot l (key a)) ∧
      ∀ a, climbAll key l m rest = some a → ∃ b, Relation.TransGen (Above l) b b := by
  induction rest generalizing m with
  | nil => exact ⟨fun _ a ha => absurd ha List.not_mem_nil, fun a ha => (by cases ha)⟩
  | cons a rest ih =>
    obtain ⟨hcycle, hdone⟩ := climb_spec (h.start (key a))
    rw [climbAll]
    cases hclimb : climb l m [] (some (key a)) with
    | none => exact ⟨fun h => (by cases h), fun _ _ => hcycle hclimb⟩
    | some r =>
      obtain ⟨hclimbed, hself⟩ := hdone r.1 r.2 hclimb
      have hsettled := hclimbed.settled
      obtain ⟨hrest, hfound⟩ := ih hsettled
      rw [Option.elim_some]
      refine ⟨fun hnone => List.forall_mem_cons.2 ⟨?_, hrest hnone⟩, hfound⟩
      -- the node itself is marked by now
      refine hsettled.1 (key a) ?_
      have hmarked := hself (key a) rfl
      rw [markAll_eq]
      split_ifs with hpath
      · rfl
      · cases hmark : r.1 (key a) with
        | none => exact absurd hmark hmarked
        | some b =>
          cases b with
          | true => rfl
          | false => exact absurd (hclimbed.own (key a) hmark) hpath

/-- **The walks find a cycle exactly where there is one.** -/
theorem climbAll_eq_none {rest : List α} (hall : ∀ a ∈ l.map Prod.fst, ∃ b ∈ rest, key b = a) :
    climbAll key l (fun _ => none) rest = none ↔ Acyclic l := by
  have hsettled : Settled l fun _ => none := ⟨fun a ha => (by cases ha), fun a ha => (by cases ha)⟩
  obtain ⟨hnone, hfound⟩ := @climbAll_spec ι _ α key l _ hsettled rest
  constructor
  · intro h
    refine acyclic_of_reaches fun a ha => ?_
    obtain ⟨b, hb, rfl⟩ := hall a ha
    exact hnone h b hb
  · intro h
    cases hclimb : climbAll key l (fun _ => none) rest with
    | none => rfl
    | some a =>
      obtain ⟨b, hb⟩ := hfound a hclimb
      exact absurd hb (h b)

end All

end Anvil.Lib
