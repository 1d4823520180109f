import Mathlib.Algebra.Group.Basic
import Mathlib.Algebra.BigOperators.Group.List.Basic
import Mathlib.Data.List.Perm.Basic
import Mathlib.Tactic

/-!
# Accumulators and ordered maps of counters

* `Adds f` : the update `f` of a commutative monoid adds a fixed amount; `Adds.comp` : so do two in a row;
* `sum_eq_add_others`, `sum_set_eq_add_others` : one element of a sum taken out or replaced, without cancelling;
* `sumBy f m` : `f` summed over the values of an ordered map; `sumBy_alter` : how one changed entry moves it;
  `sumBy_filter_add`, `sumBy_eq_sum_range` : a map cut in two, and one read key by key;
* `CountMap κ` : a map of counters that are only ever added to (`*entry(k).or_default() += n`). Adding one map
  to another (`addAll`, a loop over the entries) makes it a commutative monoid, `bump_eq_add` makes an increment
  the sum with a singleton, and `total` is additive.
-/

set_option linter.unusedSectionVars false

namespace Anvil.Lib

universe u v

/-! ## Accumulators -/

section Accumulate
variable {M : Type u} [AddCommMonoid M] {α : Type v}

/-- An update that adds a fixed amount. -/
def Adds (f : M → M) : Prop := ∀ a, f a = a + f 0

theorem Adds.id : Adds (fun a : M => a) := fun a => (add_zero a).symm

theorem Adds.comp {f g : M → M} (hg : Adds g) (hf : Adds f) : Adds fun a => g (f a) := by
  intro a
  show g (f a) = a + g (f 0)
  rw [hg (f a), hg (f 0), hf a, add_assoc]

/-- `f` summed over every element but the one at `i`. -/
def sumOthers (f : α → M) (l : List α) (i : Nat) : M := ((l.take i).map f).sum + ((l.drop (i + 1)).map f).sum

theorem sum_eq_add_others (f : α → M) {l : List α} {i : Nat} {x : α} (h : l[i]? = some x) :
    (l.map f).sum = f x + sumOthers f l i := by
  obtain ⟨hi, rfl⟩ := List.getElem?_eq_some_iff.1 h
  conv_lhs => rw [← List.take_append_drop i l, List.drop_eq_getElem_cons hi]
  rw [List.map_append, List.sum_append, List.map_cons, List.sum_cons, sumOthers, add_left_comm]

/-- The sum after one element was replaced. -/
theorem sum_set_eq_add_others (f : α → M) {l : List α} {i : Nat} (hi : i < l.length) (y : α) :
    ((l.set i y).map f).sum = f y + sumOthers f l i := by
  have h : (l.set i y)[i]? = some y := by rw [List.getElem?_set_self hi]
  rw [sum_eq_add_others f h, sumOthers, sumOthers, List.take_set_of_le le_rfl, List.drop_set_of_lt (Nat.lt_succ_self i)]

end Accumulate

/-! ## Sums over the values -/

theorem foldl_add_eq {κ : Type u} {β : Type v} (f : β → Nat) (l : List (κ × β)) :
    ∀ n, l.foldl (fun acc e => acc + f e.2) n = n + (l.map fun e => f e.2).sum := by
  induction l with
  | nil => intro n; rfl
  | cons e l ih =>
    intro n
    rw [List.foldl_cons, ih, List.map_cons, List.sum_cons, Nat.add_assoc]

section Sum
variable {κ : Type u} {β : Type v} [Ord κ] [Std.TransOrd κ] [Std.LawfulEqOrd κ]

/-- `f` summed over the values of a map. -/
def sumBy (f : β → Nat) (m : Std.ExtTreeMap κ β) : Nat := m.foldl (fun acc _ b => acc + f b) 0

theorem sumBy_eq (f : β → Nat) (m : Std.ExtTreeMap κ β) : sumBy f m = (m.toList.map fun e => f e.2).sum := by
  rw [sumBy, Std.ExtTreeMap.foldl_eq_foldl_toList, foldl_add_eq, Nat.zero_add]

theorem toList_nodup (m : Std.ExtTreeMap κ β) : m.toList.Nodup := by
  refine m.distinct_keys_toList.imp fun {a b} h => ?_
  rintro rfl
  exact h Std.ReflOrd.compare_self

/-- A present key's entry comes first, up to order. -/
theorem toList_perm_cons {m : Std.ExtTreeMap κ β} {k : κ} {b : β} (h : m[k]? = some b) :
    m.toList.Perm ((k, b) :: (m.erase k).toList) := by
  have hnot : (k, b) ∉ (m.erase k).toList := by
    rw [Std.ExtTreeMap.mem_toList_iff_getElem?_eq_some, Std.ExtTreeMap.getElem?_erase_self]
    exact nofun
  refine (List.perm_ext_iff_of_nodup (toList_nodup m) (List.nodup_cons.2 ⟨hnot, toList_nodup _⟩)).2 ?_
  rintro ⟨j, c⟩
  rw [List.mem_cons, Std.ExtTreeMap.mem_toList_iff_getElem?_eq_some,
    Std.ExtTreeMap.mem_toList_iff_getElem?_eq_some, Std.ExtTreeMap.getElem?_erase]
  by_cases hj : k = j
  · subst hj
    rw [h]
    simp [eq_comm]
  · simp [hj, Ne.symm hj]

theorem sumBy_of_getElem? (f : β → Nat) {m : Std.ExtTreeMap κ β} {k : κ} {b : β} (h : m[k]? = some b) :
    sumBy f m = f b + sumBy f (m.erase k) := by
  rw [sumBy_eq, sumBy_eq, ((toList_perm_cons h).map _).sum_eq, List.map_cons, List.sum_cons]

theorem erase_of_getElem?_eq_none {m : Std.ExtTreeMap κ β} {k : κ} (h : m[k]? = none) : m.erase k = m := by
  refine Std.ExtTreeMap.ext_getElem? fun j => ?_
  rw [Std.ExtTreeMap.getElem?_erase]
  split_ifs with hj
  · rw [← Std.LawfulEqOrd.compare_eq_iff_eq.1 hj, h]
  · rfl

/-- The entry of `k`, if any, and the rest. -/
theorem sumBy_split (f : β → Nat) (m : Std.ExtTreeMap κ β) (k : κ) :
    sumBy f m = m[k]?.elim 0 f + sumBy f (m.erase k) := by
  cases h : m[k]? with
  | none => rw [erase_of_getElem?_eq_none h]; exact (Nat.zero_add _).symm
  | some b => exact sumBy_of_getElem? f h

theorem sumBy_alter (f : β → Nat) (m : Std.ExtTreeMap κ β) (k : κ) (g : Option β → Option β) :
    sumBy f (m.alter k g) + m[k]?.elim 0 f = sumBy f m + (g m[k]?).elim 0 f := by
  have he : (m.alter k g).erase k = m.erase k := by
    refine Std.ExtTreeMap.ext_getElem? fun j => ?_
    rw [Std.ExtTreeMap.getElem?_erase, Std.ExtTreeMap.getElem?_erase, Std.ExtTreeMap.getElem?_alter]
    split_ifs <;> rfl
  rw [sumBy_split f (m.alter k g) k, sumBy_split f m k, he, Std.ExtTreeMap.getElem?_alter_self]
  omega

@[simp] theorem sumBy_empty (f : β → Nat) : sumBy f (∅ : Std.ExtTreeMap κ β) = 0 := rfl

theorem sum_map_filter_add {α : Type v} (f : α → Nat) (p q : α → Bool) (l : List α) (hpq : ∀ a ∈ l, q a = !p a) :
    ((l.filter p).map f).sum + ((l.filter q).map f).sum = (l.map f).sum := by
  induction l with
  | nil => rfl
  | cons a l ih =>
    have hrest := ih fun b hb => hpq b (List.mem_cons_of_mem a hb)
    rw [List.filter_cons, List.filter_cons, hpq a List.mem_cons_self]
    cases p a <;> simp <;> omega

/-- A map cut in two by a test on its entries. -/
theorem sumBy_filter_add (f : β → Nat) (m : Std.ExtTreeMap κ β) (p q : κ → β → Bool) (hpq : ∀ k b, q k b = !p k b) :
    sumBy f (m.filter p) + sumBy f (m.filter q) = sumBy f m := by
  rw [sumBy_eq, sumBy_eq, sumBy_eq, Std.ExtTreeMap.toList_filter, Std.ExtTreeMap.toList_filter]
  exact sum_map_filter_add _ _ _ _ fun e _ => hpq e.1 e.2

/-- The values of a map whose keys are all below `n`, key by key. -/
theorem sumBy_eq_sum_range (f : β → Nat) (n : Nat) : ∀ m : Std.ExtTreeMap Nat β, (∀ k, m[k]?.isSome → k < n) →
    sumBy f m = ((List.range n).map fun k => m[k]?.elim 0 f).sum := by
  induction n with
  | zero =>
    intro m hm
    have hempty : m = ∅ := Std.ExtTreeMap.ext_getElem? fun k => by
      rw [Std.ExtTreeMap.getElem?_empty, ← Option.not_isSome_iff_eq_none]
      exact fun hk => absurd (hm k hk) (Nat.not_lt_zero k)
    rw [hempty]
    rfl
  | succ n ih =>
    intro m hm
    have herase : ∀ k : Nat, (m.erase n)[k]? = if n = k then none else m[k]? := by
      intro k
      rw [Std.ExtTreeMap.getElem?_erase]
      simp only [Std.LawfulEqOrd.compare_eq_iff_eq]
    have hbelow : ∀ k, (m.erase n)[k]?.isSome → k < n := by
      intro k hk
      rw [herase] at hk
      split_ifs at hk with hkn
      · cases hk
      · have := hm k hk
        omega
    have hsame : ∀ k ∈ List.range n, (m.erase n)[k]?.elim 0 f = m[k]?.elim 0 f := by
      intro k hk
      have := List.mem_range.1 hk
      rw [herase, if_neg (by omega)]
    rw [sumBy_split f m n, ih _ hbelow, List.map_congr_left hsame, List.range_succ, List.map_append, List.sum_append,
      List.map_singleton, List.sum_singleton, Nat.add_comm]

end Sum

/-! ## Counters -/

/-- A map of counters; an absent key counts zero. -/
structure CountMap (κ : Type u) [Ord κ] [Std.TransOrd κ] where
  entries : Std.ExtTreeMap κ Nat := ∅

namespace CountMap
variable {κ : Type u} [DecidableEq κ] [Ord κ] [Std.TransOrd κ] [Std.LawfulEqOrd κ]

/-- `*entry(k).or_default() += n`. -/
def bump (m : CountMap κ) (k : κ) (n : Nat) : CountMap κ := ⟨m.entries.alter k fun c => some (c.getD 0 + n)⟩

/-- `for (k, n) in o { *entry(k).or_default() += n }`. -/
def addAll (m o : CountMap κ) : CountMap κ := o.entries.foldl (fun acc k n => acc.bump k n) m

/-- `values().sum()`. -/
def total (m : CountMap κ) : Nat := sumBy id m.entries

theorem ext_getElem? {m o : CountMap κ} (h : ∀ k : κ, m.entries[k]? = o.entries[k]?) : m = o := by
  cases m; cases o
  exact congrArg mk (Std.ExtTreeMap.ext_getElem? h)

theorem getElem?_bump (m : CountMap κ) (k j : κ) (n : Nat) :
    (m.bump k n).entries[j]? = if k = j then some (m.entries[k]?.getD 0 + n) else m.entries[j]? := by
  rw [bump, Std.ExtTreeMap.getElem?_alter]
  simp only [Std.LawfulEqOrd.compare_eq_iff_eq]

theorem getElem?_foldl_bump (l : List (κ × Nat)) (hl : l.Pairwise fun a b => ¬compare a.1 b.1 = .eq) :
    ∀ (m : CountMap κ) (j : κ), (l.foldl (fun acc e => acc.bump e.1 e.2) m).entries[j]? =
      Option.merge (· + ·) m.entries[j]? ((l.find? fun e => e.1 = j).map Prod.snd) := by
  induction l with
  | nil => intro m j; simp
  | cons e l ih =>
    intro m j
    obtain ⟨hd, hl⟩ := List.pairwise_cons.1 hl
    rw [List.foldl_cons, ih hl, getElem?_bump, List.find?_cons]
    by_cases hj : e.1 = j
    · have hnone : (l.find? fun x => x.1 = j) = none := by
        rw [List.find?_eq_none]
        intro x hx hxj
        exact hd x hx (Std.LawfulEqOrd.compare_eq_iff_eq.2 (hj.trans (of_decide_eq_true hxj).symm))
      rw [hnone, if_pos hj, hj]
      cases m.entries[j]? <;> simp
    · rw [if_neg hj]
      simp [hj]

theorem getElem?_addAll (m o : CountMap κ) (j : κ) :
    (m.addAll o).entries[j]? = Option.merge (· + ·) m.entries[j]? o.entries[j]? := by
  rw [addAll, Std.ExtTreeMap.foldl_eq_foldl_toList, getElem?_foldl_bump _ o.entries.distinct_keys_toList]
  congr 1
  cases h : o.entries[j]? with
  | none =>
    rw [Option.map_eq_none_iff, List.find?_eq_none]
    rintro ⟨k, n⟩ hk hkj
    rw [Std.ExtTreeMap.mem_toList_iff_getElem?_eq_some, show k = j from of_decide_eq_true hkj, h] at hk
    exact absurd hk nofun
  | some n =>
    have hmem : (j, n) ∈ o.entries.toList := Std.ExtTreeMap.mem_toList_iff_getElem?_eq_some.2 h
    cases hf : o.entries.toList.find? fun e => e.1 = j with
    | none => exact absurd (decide_eq_true rfl) (List.find?_eq_none.1 hf _ hmem)
    | some e =>
      have he := List.mem_of_find?_eq_some hf
      have hej : e.1 = j := by simpa using List.find?_some hf
      rw [← Prod.mk.eta (p := e), Std.ExtTreeMap.mem_toList_iff_getElem?_eq_some, hej, h] at he
      rw [Option.map_some, Option.some.inj he]

instance : Zero (CountMap κ) := ⟨{}⟩
instance : Add (CountMap κ) := ⟨addAll⟩

instance : AddCommMonoid (CountMap κ) where
  add_assoc a b c := ext_getElem? fun k => by
    show (addAll (addAll a b) c).entries[k]? = (addAll a (addAll b c)).entries[k]?
    simp only [getElem?_addAll]
    exact (Option.associative_merge fun a b : Nat => a + b).assoc _ _ _
  zero_add a := ext_getElem? fun k => by
    show (addAll {} a).entries[k]? = a.entries[k]?
    rw [getElem?_addAll, Std.ExtTreeMap.getElem?_empty, Option.merge_none_left]
  add_zero a := ext_getElem? fun k => by
    show (addAll a {}).entries[k]? = a.entries[k]?
    rw [getElem?_addAll, Std.ExtTreeMap.getElem?_empty, Option.merge_none_right]
  add_comm a b := ext_getElem? fun k => by
    show (addAll a b).entries[k]? = (addAll b a).entries[k]?
    rw [getElem?_addAll, getElem?_addAll]
    exact (Option.commutative_merge fun a b : Nat => a + b).comm _ _
  nsmul := nsmulRec

theorem addAll_eq (m o : CountMap κ) : m.addAll o = m + o := rfl

theorem bump_eq_add (m : CountMap κ) (k : κ) (n : Nat) : m.bump k n = m + (0 : CountMap κ).bump k n := by
  refine ext_getElem? fun j => ?_
  rw [← addAll_eq, getElem?_addAll, getElem?_bump, getElem?_bump]
  split_ifs with hj
  · subst hj
    rw [show (0 : CountMap κ).entries[k]? = none from Std.ExtTreeMap.getElem?_empty]
    cases m.entries[k]? <;> simp
  · rw [show (0 : CountMap κ).entries[j]? = none from Std.ExtTreeMap.getElem?_empty, Option.merge_none_right]

@[simp] theorem total_zero : total (0 : CountMap κ) = 0 := by
  rfl

@[simp] theorem total_bump (m : CountMap κ) (k : κ) (n : Nat) : (m.bump k n).total = m.total + n := by
  have h := sumBy_alter id m.entries k fun c => some (c.getD 0 + n)
  show sumBy id (m.entries.alter k fun c => some (c.getD 0 + n)) = sumBy id m.entries + n
  cases hk : m.entries[k]? <;> simp [hk] at h <;> omega

theorem total_foldl_bump (l : List (κ × Nat)) :
    ∀ m : CountMap κ, (l.foldl (fun acc e => acc.bump e.1 e.2) m).total = m.total + (l.map Prod.snd).sum := by
  induction l with
  | nil => intro m; rfl
  | cons e l ih =>
    intro m
    rw [List.foldl_cons, ih, total_bump, List.map_cons, List.sum_cons, Nat.add_assoc]

@[simp] theorem total_add (m o : CountMap κ) : (m + o).total = m.total + o.total := by
  rw [← addAll_eq, addAll, Std.ExtTreeMap.foldl_eq_foldl_toList, total_foldl_bump]
  congr 1
  exact (sumBy_eq id o.entries).symm

end CountMap

end Anvil.Lib
