import Mathlib.Data.List.Nodup
import Mathlib.Tactic

/-!
# Rows under a key they carry

A table of rows in which every row carries its own key and no key is there twice.

* `get?`, `put`, `remove`, `keep` : look up, insert or replace, delete by key, delete by a test;
* `get?_put`, `get?_remove`, `get?_keep` : what the table holds for a key afterwards;
* `get?_eq_some` : a row is in the table iff it is what the table holds for its key;
* `Same` : two tables hold the same under every key; `same_iff_toFinset` : they have the same rows;
* `Change`, `patch`, `patchAll` : rows to write or delete; `get?_patchAll` : a table under its changes.
-/

namespace Anvil.Lib

structure Rows {α ι : Type} (key : α → ι) where
  list : List α
  distinct : (list.map key).Nodup

namespace Rows
variable {α ι : Type} [DecidableEq ι] {key : α → ι}

def empty : Rows key := ⟨[], List.nodup_nil⟩

def get? (m : Rows key) (k : ι) : Option α := m.list.find? fun a => key a = k

/-- The rows that pass `p`. -/
def keep (m : Rows key) (p : α → Bool) : Rows key where
  list := m.list.filter p
  distinct := m.distinct.sublist (List.filter_sublist.map key)

def remove (m : Rows key) (k : ι) : Rows key := m.keep fun a => key a ≠ k

def put (m : Rows key) (a : α) : Rows key where
  list := (m.remove (key a)).list ++ [a]
  distinct := by
    rw [List.map_append, List.nodup_append]
    refine ⟨(m.remove (key a)).distinct, List.nodup_singleton _, ?_⟩
    intro i hi j hj
    obtain ⟨b, hb, rfl⟩ := List.mem_map.1 hi
    obtain rfl := List.mem_singleton.1 hj
    exact of_decide_eq_true (List.mem_filter.1 hb).2

omit [DecidableEq ι] in
@[simp] theorem mem_keep {m : Rows key} {p : α → Bool} {a : α} : a ∈ (m.keep p).list ↔ a ∈ m.list ∧ p a :=
  List.mem_filter

@[simp] theorem mem_remove {m : Rows key} {k : ι} {a : α} : a ∈ (m.remove k).list ↔ a ∈ m.list ∧ key a ≠ k := by
  simp [remove]

@[simp] theorem mem_put {m : Rows key} {a b : α} : b ∈ (m.put a).list ↔ (b ∈ m.list ∧ key b ≠ key a) ∨ b = a := by
  simp [put]

omit [DecidableEq ι] in
theorem keep_keep (m : Rows key) (p q : α → Bool) : (m.keep p).keep q = m.keep fun a => p a && q a := by
  unfold keep
  simp only [List.filter_filter, Bool.and_comm]

/-- A row written twice is the second one. -/
theorem put_put {m : Rows key} {a b : α} (h : key a = key b) : (m.put a).put b = m.put b := by
  unfold put remove keep
  simp only [List.filter_append, List.filter_filter, h]
  simp [h]

theorem key_get? {m : Rows key} {k : ι} {a : α} (h : m.get? k = some a) : key a = k := by
  simpa using List.find?_some h

theorem mem_of_get? {m : Rows key} {k : ι} {a : α} (h : m.get? k = some a) : a ∈ m.list := List.mem_of_find?_eq_some h

omit [DecidableEq ι] in
theorem eq_of_key {m : Rows key} {a b : α} (ha : a ∈ m.list) (hb : b ∈ m.list) (h : key a = key b) : a = b :=
  List.inj_on_of_nodup_map m.distinct ha hb h

theorem get?_of_mem {m : Rows key} {a : α} (h : a ∈ m.list) : m.get? (key a) = some a := by
  cases hk : m.get? (key a) with
  | none =>
    have := List.find?_eq_none.1 hk a h
    simp at this
  | some b => rw [eq_of_key (mem_of_get? hk) h (key_get? hk)]

theorem get?_eq_some {m : Rows key} {k : ι} {a : α} : m.get? k = some a ↔ a ∈ m.list ∧ key a = k := by
  constructor
  · exact fun h => ⟨mem_of_get? h, key_get? h⟩
  · intro h
    rw [← h.2]
    exact get?_of_mem h.1

theorem get?_eq_none {m : Rows key} {k : ι} : m.get? k = none ↔ ∀ a ∈ m.list, key a ≠ k := by
  unfold get?
  simp

/-- The rows of two tables agree on a key when they have the same row under it. -/
theorem get?_congr {m m' : Rows key} {k : ι} (h : ∀ a, key a = k → (a ∈ m.list ↔ a ∈ m'.list)) :
    m.get? k = m'.get? k := by
  apply Option.ext
  intro a
  rw [get?_eq_some, get?_eq_some]
  constructor
  · exact fun ⟨ha, hk⟩ => ⟨(h a hk).1 ha, hk⟩
  · exact fun ⟨ha, hk⟩ => ⟨(h a hk).2 ha, hk⟩

theorem get?_put (m : Rows key) (a : α) (k : ι) : (m.put a).get? k = if k = key a then some a else m.get? k := by
  split_ifs with hk
  · rw [get?_eq_some, mem_put]
    exact ⟨.inr rfl, hk.symm⟩
  · apply get?_congr
    intro b hb
    rw [mem_put]
    subst hb
    constructor
    · rintro (h | rfl)
      · exact h.1
      · exact absurd rfl hk
    · exact fun h => .inl ⟨h, hk⟩

theorem get?_keep (m : Rows key) (p : α → Bool) (k : ι) : (m.keep p).get? k = (m.get? k).filter p := by
  apply Option.ext
  intro a
  rw [get?_eq_some, mem_keep, Option.filter_eq_some_iff, get?_eq_some]
  exact and_right_comm

theorem get?_remove (m : Rows key) (k k' : ι) : (m.remove k).get? k' = if k' = k then none else m.get? k' := by
  split_ifs with hk
  · rw [get?_eq_none]
    intro a ha
    rw [hk]
    exact (mem_remove.1 ha).2
  · apply get?_congr
    intro a ha
    rw [mem_remove, ha]
    exact and_iff_left hk

/-! ## Tables with the same rows -/

/-- The tables hold the same row under every key. -/
def Same (m m' : Rows key) : Prop := ∀ k, m.get? k = m'.get? k

theorem Same.refl (m : Rows key) : Same m m := fun _ => rfl

theorem Same.symm {m m' : Rows key} (h : Same m m') : Same m' m := fun k => (h k).symm

theorem Same.trans {m m' m'' : Rows key} (h : Same m m') (h' : Same m' m'') : Same m m'' :=
  fun k => (h k).trans (h' k)

theorem same_iff_mem {m m' : Rows key} : Same m m' ↔ ∀ a, a ∈ m.list ↔ a ∈ m'.list := by
  constructor
  · intro h a
    have hk := h (key a)
    constructor
    · exact fun ha => mem_of_get? (hk.symm.trans (get?_of_mem ha))
    · exact fun ha => mem_of_get? (hk.trans (get?_of_mem ha))
  · exact fun h k => get?_congr fun a _ => h a

theorem same_iff_toFinset [DecidableEq α] {m m' : Rows key} : Same m m' ↔ m.list.toFinset = m'.list.toFinset := by
  rw [same_iff_mem, Finset.ext_iff]
  simp

instance decidableSame [DecidableEq α] (m m' : Rows key) : Decidable (Same m m') :=
  decidable_of_iff _ same_iff_toFinset.symm

end Rows

/-- What a key is to hold: a row of that key, or none. -/
structure Change {α ι : Type} (key : α → ι) where
  name : ι
  value : Option α
  named : ∀ a, value = some a → key a = name

abbrev Changes {α ι : Type} (key : α → ι) := Rows (@Change.name α ι key)

namespace Rows
variable {α ι : Type} [DecidableEq ι] {key : α → ι}

def patch (m : Rows key) (c : Change key) : Rows key :=
  match c.value with
  | some a => m.put a
  | none => m.remove c.name

theorem get?_patch (m : Rows key) (c : Change key) (k : ι) :
    (m.patch c).get? k = if k = c.name then c.value else m.get? k := by
  unfold patch
  split
  · next a ha => rw [get?_put, c.named a ha, ha]
  · next ha => rw [get?_remove, ha]

def patchAll (m : Rows key) (cs : Changes key) : Rows key := cs.list.foldl patch m

theorem get?_foldl_patch (cs : List (Change key)) (hd : (cs.map Change.name).Nodup) (m : Rows key) (k : ι) :
    (cs.foldl patch m).get? k = ((cs.find? fun c => c.name = k).map Change.value).getD (m.get? k) := by
  induction cs generalizing m with
  | nil => rfl
  | cons c cs ih =>
    rw [List.map_cons, List.nodup_cons] at hd
    rw [List.foldl_cons, ih hd.2, get?_patch]
    by_cases hk : c.name = k
    · have hnone : (cs.find? fun c => c.name = k) = none := by
        rw [List.find?_eq_none]
        intro d hd' he
        exact hd.1 (hk.trans (of_decide_eq_true he).symm ▸ List.mem_map_of_mem hd')
      rw [hnone, List.find?_cons_of_pos (by simp [hk]), if_pos hk.symm]
      rfl
    · rw [List.find?_cons_of_neg (by simp [hk]), if_neg (Ne.symm hk)]

/-- A table under its changes. -/
theorem get?_patchAll (m : Rows key) (cs : Changes key) (k : ι) :
    (m.patchAll cs).get? k = ((cs.get? k).map Change.value).getD (m.get? k) :=
  get?_foldl_patch cs.list cs.distinct m k

theorem Same.foldl_patch : ∀ {m m' : Rows key} (_ : Same m m') (cs : List (Change key)),
    Same (cs.foldl patch m) (cs.foldl patch m')
  | _, _, h, [] => h
  | m, m', h, c :: cs => by
    have hc : Same (m.patch c) (m'.patch c) := by
      intro k
      rw [get?_patch, get?_patch, h k]
    exact hc.foldl_patch cs

theorem Same.patchAll {m m' : Rows key} (h : Same m m') (cs : Changes key) :
    Same (m.patchAll cs) (m'.patchAll cs) := h.foldl_patch cs.list

end Rows

end Anvil.Lib
