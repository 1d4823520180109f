import Anvil.Lib.Keyed

/-!
# Hash tables

A table is its entries in some order, under distinct keys. The order is that of an iteration and nothing else may rest on
it: `Table.Reordered` relates two orders of one table.

* `insert`, `erase`, `retain` : as the operations of a hash map, with what they hold for a key;
* `listAt`, `putList` : a table of lists in which a key without elements is absent;
* `total`, `total_putList` : a sum over the lists of a table, and how storing a list changes it.
-/

namespace Anvil.Lib

structure Table (κ α : Type) where
  entries : List (κ × α)
  nodup : (keysOf entries).Nodup

namespace Table

section Basic
variable {κ α : Type} [DecidableEq κ]

def empty : Table κ α := ⟨[], List.nodup_nil⟩

def get? (m : Table κ α) (k : κ) : Option α := m.entries.lookup k

/-- The same entries in another order. -/
def Reordered (m m' : Table κ α) : Prop := m.entries.Perm m'.entries

def erase (m : Table κ α) (k : κ) : Table κ α where
  entries := m.entries.filter fun e => e.1 ≠ k
  nodup := m.nodup.sublist (List.filter_sublist.map Prod.fst)

def insert (m : Table κ α) (k : κ) (v : α) : Table κ α where
  entries := (m.erase k).entries ++ [(k, v)]
  nodup := by
    rw [keysOf, List.map_append, List.nodup_append]
    refine ⟨(m.erase k).nodup, List.nodup_singleton _, ?_⟩
    intro i hi j hj
    obtain ⟨e, he, rfl⟩ := List.mem_map.1 hi
    obtain rfl := List.mem_singleton.1 hj
    exact of_decide_eq_true (List.mem_filter.1 he).2

/-- The entries with `f` of their value, without those where that is nothing. -/
def retain (m : Table κ α) (f : κ → α → Option α) : Table κ α where
  entries := m.entries.filterMap fun e => (f e.1 e.2).map (e.1, ·)
  nodup := by
    have hsub : ∀ l : List (κ × α), (keysOf (l.filterMap fun e => (f e.1 e.2).map (e.1, ·))).Sublist (keysOf l) := by
      intro l
      induction l with
      | nil => exact List.Sublist.refl _
      | cons e l ih =>
        rw [List.filterMap_cons]
        cases f e.1 e.2 with
        | none => exact ih.cons _
        | some v => exact ih.cons_cons _
    exact m.nodup.sublist (hsub m.entries)

theorem mem_entries_iff {m : Table κ α} {k : κ} {v : α} : (k, v) ∈ m.entries ↔ m.get? k = some v :=
  ⟨lookup_of_mem m.nodup, mem_of_lookup⟩

@[simp] theorem get?_empty (k : κ) : (empty : Table κ α).get? k = none := rfl

theorem get?_erase (m : Table κ α) (k k' : κ) : (m.erase k).get? k' = if k' = k then none else m.get? k' := by
  unfold get? erase
  rw [lookup_filter_key (fun j => decide (j ≠ k))]
  by_cases h : k' = k
  · simp [h]
  · simp [h]

theorem get?_insert (m : Table κ α) (k k' : κ) (v : α) :
    (m.insert k v).get? k' = if k' = k then some v else m.get? k' := by
  have herase := get?_erase m k k'
  unfold get? at herase ⊢
  unfold insert
  rw [List.lookup_append, herase]
  split_ifs with h
  · simp [h]
  · cases m.entries.lookup k' with
    | none => simp [List.lookup_cons, beq_false_of_ne h]
    | some w => rfl

theorem get?_retain (m : Table κ α) (f : κ → α → Option α) (k : κ) : (m.retain f).get? k = (m.get? k).bind (f k) :=
  lookup_filterMap_key f m.nodup k

theorem Reordered.get? {m m' : Table κ α} (h : Reordered m m') (k : κ) : m.get? k = m'.get? k :=
  lookup_congr m.nodup m'.nodup fun _ => h.mem_iff

end Basic

/-! ## Tables of lists -/

section Lists
variable {κ α : Type} [DecidableEq κ]

def listAt (m : Table κ (List α)) (k : κ) : List α := (m.get? k).getD []

/-- The list stored under its key, or nothing of the key where it is empty. -/
def putList (m : Table κ (List α)) (k : κ) (l : List α) : Table κ (List α) :=
  if l.isEmpty then m.erase k else m.insert k l

/-- The sum of `f` over the lists. -/
def total (f : List α → Nat) (m : Table κ (List α)) : Nat := (m.entries.map fun e => f e.2).sum

/-- No key has an empty list. -/
def NoEmpty (m : Table κ (List α)) : Prop := ∀ k l, m.get? k = some l → l ≠ []

theorem get?_putList (m : Table κ (List α)) (k k' : κ) (l : List α) :
    (m.putList k l).get? k' = if k' = k then (if l.isEmpty then none else some l) else m.get? k' := by
  unfold putList
  split_ifs with hl hk hk
  · rw [get?_erase, if_pos hk]
  · rw [get?_erase, if_neg hk]
  · rw [get?_insert, if_pos hk]
  · rw [get?_insert, if_neg hk]

theorem listAt_putList (m : Table κ (List α)) (k k' : κ) (l : List α) :
    (m.putList k l).listAt k' = if k' = k then l else m.listAt k' := by
  unfold listAt
  rw [get?_putList]
  split_ifs with hk hl
  · exact (List.isEmpty_iff.1 hl).symm
  · rfl
  · rfl

theorem NoEmpty.putList {m : Table κ (List α)} (h : m.NoEmpty) (k : κ) (l : List α) : (m.putList k l).NoEmpty := by
  intro k' l' hk'
  rw [get?_putList] at hk'
  split_ifs at hk' with hk hl
  · cases hk'
    exact fun h => hl (List.isEmpty_iff.2 h)
  · exact h k' l' hk'

theorem listAt_of_get? {m : Table κ (List α)} {k : κ} {l : List α} (h : m.get? k = some l) : m.listAt k = l := by
  unfold listAt
  rw [h]
  rfl

theorem total_erase (f : List α → Nat) (hf : f [] = 0) (m : Table κ (List α)) (k : κ) :
    (m.erase k).total f + f (m.listAt k) = m.total f := by
  have hsum : ∀ l : List (κ × List α), (keysOf l).Nodup →
      ((l.filter fun e => e.1 ≠ k).map fun e => f e.2).sum + f ((l.lookup k).getD []) = (l.map fun e => f e.2).sum := by
    intro l hl
    induction l with
    | nil => simpa using hf
    | cons e l ih =>
      obtain ⟨j, a⟩ := e
      obtain ⟨hnot, hrest⟩ := List.nodup_cons.1 hl
      have ih := ih hrest
      by_cases hk : j = k
      · have hnone : l.lookup k = none := lookup_eq_none.2 (hk ▸ hnot)
        rw [hnone] at ih
        have hlook : (List.lookup k ((j, a) :: l)).getD [] = a := by simp [hk]
        rw [hlook, List.filter_cons_of_neg (by simp [hk]), List.map_cons, List.sum_cons]
        simp only [Option.getD_none, hf] at ih ⊢
        omega
      · have hlook : List.lookup k ((j, a) :: l) = l.lookup k := by
          rw [List.lookup_cons, beq_false_of_ne (Ne.symm hk)]
        rw [hlook, List.filter_cons_of_pos (by simp [hk]), List.map_cons, List.map_cons, List.sum_cons, List.sum_cons]
        omega
  exact hsum m.entries m.nodup

/-- Storing a list changes a sum by the difference of what it and the one before it count. -/
theorem total_putList (f : List α → Nat) (hf : f [] = 0) (m : Table κ (List α)) (k : κ) (l : List α) :
    (m.putList k l).total f + f (m.listAt k) = m.total f + f l := by
  have herase := total_erase f hf m k
  unfold putList
  split_ifs with hl
  · rw [List.isEmpty_iff.1 hl, hf]
    exact herase
  · have hinsert : (m.insert k l).total f = (m.erase k).total f + f l := by
      unfold total insert
      rw [List.map_append, List.sum_append]
      simp
    omega

end Lists

end Table

end Anvil.Lib
