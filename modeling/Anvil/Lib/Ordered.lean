import Mathlib.Data.Char
import Mathlib.Data.List.Lex
import Mathlib.Tactic

/-!
# Maps in the order of their keys

A map is its bindings in increasing order of the keys, as a B-tree map iterates over them.

* `get?`, `insert`, `remove`, `keep`, `collect`, `mapValues` : with what the map holds for a key afterwards;
* `ext_get?` : a map is what it holds for each key;
* `Edits`, `override` : keys to write or remove; `get?_override`;
* `scan` : the bindings from a key on while the keys start with it; `scan_eq` : all whose keys do.
-/

namespace Anvil.Lib

structure Ordered (κ α : Type) [LinearOrder κ] where
  list : List (κ × α)
  sorted : list.Pairwise fun a b => a.1 < b.1

namespace Ordered

section Basic
variable {κ α : Type} [LinearOrder κ]

def empty : Ordered κ α := ⟨[], .nil⟩

def get? (m : Ordered κ α) (k : κ) : Option α := (m.list.find? fun b => b.1 = k).map Prod.snd

def keys (m : Ordered κ α) : List κ := m.list.map Prod.fst

/-- The bindings that pass `p`. -/
def keep (m : Ordered κ α) (p : κ × α → Bool) : Ordered κ α := ⟨m.list.filter p, m.sorted.filter p⟩

def remove (m : Ordered κ α) (k : κ) : Ordered κ α := m.keep fun b => b.1 ≠ k

def insert (m : Ordered κ α) (k : κ) (v : α) : Ordered κ α where
  list := m.list.filter (fun b => b.1 < k) ++ (k, v) :: m.list.filter fun b => k < b.1
  sorted := by
    rw [List.pairwise_append, List.pairwise_cons]
    refine ⟨m.sorted.filter _, ⟨?_, m.sorted.filter _⟩, ?_⟩
    · intro b hb
      exact of_decide_eq_true (List.mem_filter.1 hb).2
    · intro a ha b hb
      have hak : a.1 < k := of_decide_eq_true (List.mem_filter.1 ha).2
      rcases List.mem_cons.1 hb with rfl | hb
      · exact hak
      · exact hak.trans (of_decide_eq_true (List.mem_filter.1 hb).2)

/-- The bindings in turn, where a later one replaces an earlier one. -/
def collect (l : List (κ × α)) : Ordered κ α := l.foldl (fun m b => m.insert b.1 b.2) empty

/-- A key has one value. -/
theorem eq_of_key {m : Ordered κ α} {k : κ} {v w : α} (hv : (k, v) ∈ m.list) (hw : (k, w) ∈ m.list) : v = w := by
  have hpairs : m.list.Pairwise fun a b => a.1 ≠ b.1 := m.sorted.imp fun hlt => hlt.ne
  by_contra hne
  have hkeys : (m.list.map Prod.fst).Nodup := List.pairwise_map.2 hpairs
  exact hne (Prod.mk.inj (List.inj_on_of_nodup_map hkeys hv hw rfl)).2

theorem get?_eq_some {m : Ordered κ α} {k : κ} {v : α} : m.get? k = some v ↔ (k, v) ∈ m.list := by
  unfold get?
  rw [Option.map_eq_some_iff]
  constructor
  · rintro ⟨⟨k', v'⟩, hfind, rfl⟩
    have hk : k' = k := by simpa using List.find?_some hfind
    exact hk ▸ List.mem_of_find?_eq_some hfind
  · intro hm
    cases hf : m.list.find? fun b => b.1 = k with
    | none => exact absurd (List.find?_eq_none.1 hf _ hm) (by simp)
    | some b =>
      have hk : b.1 = k := by simpa using List.find?_some hf
      obtain ⟨k', w⟩ := b
      obtain rfl : k' = k := hk
      exact ⟨_, rfl, eq_of_key (List.mem_of_find?_eq_some hf) hm⟩

theorem mem_keys {m : Ordered κ α} {k : κ} : k ∈ m.keys ↔ (m.get? k).isSome := by
  unfold keys
  rw [Option.isSome_iff_exists, List.mem_map]
  simp only [get?_eq_some]
  constructor
  · rintro ⟨⟨k', v⟩, hm, rfl⟩
    exact ⟨v, hm⟩
  · rintro ⟨v, hm⟩
    exact ⟨_, hm, rfl⟩

theorem list_injective : Function.Injective (Ordered.list : Ordered κ α → List (κ × α)) := by
  rintro ⟨l, hl⟩ ⟨l', hl'⟩ rfl
  rfl

theorem nodup (m : Ordered κ α) : m.list.Nodup := m.sorted.imp fun h he => absurd (he ▸ h) (lt_irrefl _)

/-- Lists in the order of their keys with the same bindings are one list. -/
theorem eq_of_mem {l l' : List (κ × α)} (hl : l.Pairwise fun a b => a.1 < b.1) (hl' : l'.Pairwise fun a b => a.1 < b.1)
    (h : ∀ b, b ∈ l ↔ b ∈ l') : l = l' := by
  have hperm : l.Perm l' := (List.perm_ext_iff_of_nodup (nodup ⟨l, hl⟩) (nodup ⟨l', hl'⟩)).2 h
  exact hperm.eq_of_pairwise (fun a b _ _ hab hba => absurd (hab.trans hba) (lt_irrefl _)) hl hl'

theorem ext_mem {m m' : Ordered κ α} (h : ∀ b, b ∈ m.list ↔ b ∈ m'.list) : m = m' :=
  list_injective (eq_of_mem m.sorted m'.sorted h)

theorem ext_get? {m m' : Ordered κ α} (h : ∀ k, m.get? k = m'.get? k) : m = m' := by
  apply ext_mem
  rintro ⟨k, v⟩
  rw [← get?_eq_some, ← get?_eq_some, h]

@[simp] theorem get?_empty (k : κ) : (empty : Ordered κ α).get? k = none := rfl

@[simp] theorem mem_keep {m : Ordered κ α} {p : κ × α → Bool} {b : κ × α} : b ∈ (m.keep p).list ↔ b ∈ m.list ∧ p b :=
  List.mem_filter

theorem get?_keep (m : Ordered κ α) (p : κ × α → Bool) (k : κ) : (m.keep p).get? k = (m.get? k).filter fun v => p (k, v) := by
  apply Option.ext
  intro v
  rw [get?_eq_some, mem_keep, Option.filter_eq_some_iff, get?_eq_some]

/-- By a test of the key. -/
theorem get?_keep_key (m : Ordered κ α) (q : κ → Bool) (k : κ) :
    (m.keep fun b => q b.1).get? k = if q k then m.get? k else none := by
  rw [get?_keep]
  cases m.get? k with
  | none => simp
  | some v => rw [Option.filter_some]

theorem get?_remove (m : Ordered κ α) (k k' : κ) : (m.remove k).get? k' = if k' = k then none else m.get? k' := by
  unfold remove
  rw [get?_keep_key m fun k'' => k'' ≠ k]
  by_cases hk : k' = k
  · simp [hk]
  · simp [hk]

theorem mem_insert {m : Ordered κ α} {k : κ} {v : α} {b : κ × α} :
    b ∈ (m.insert k v).list ↔ b = (k, v) ∨ (b ∈ m.list ∧ b.1 ≠ k) := by
  unfold insert
  simp only [List.mem_append, List.mem_cons, List.mem_filter, decide_eq_true_eq]
  constructor
  · rintro (⟨hb, hlt⟩ | rfl | ⟨hb, hlt⟩)
    · exact .inr ⟨hb, hlt.ne⟩
    · exact .inl rfl
    · exact .inr ⟨hb, hlt.ne'⟩
  · rintro (rfl | ⟨hb, hne⟩)
    · exact .inr (.inl rfl)
    · rcases lt_or_gt_of_ne hne with hlt | hlt
      · exact .inl ⟨hb, hlt⟩
      · exact .inr (.inr ⟨hb, hlt⟩)

theorem get?_insert (m : Ordered κ α) (k : κ) (v : α) (k' : κ) :
    (m.insert k v).get? k' = if k' = k then some v else m.get? k' := by
  apply Option.ext
  intro w
  rw [get?_eq_some, mem_insert]
  split_ifs with hk
  · subst hk
    simp [eq_comm]
  · rw [get?_eq_some]
    simp [hk]

theorem get?_collect (l : List (κ × α)) (k : κ) :
    (collect l).get? k = (l.reverse.find? fun b => b.1 = k).map Prod.snd := by
  unfold collect
  induction l using List.reverseRecOn with
  | nil => rfl
  | append_singleton l b ih =>
    rw [List.foldl_append, List.foldl_cons, List.foldl_nil, get?_insert, ih, List.reverse_append, List.reverse_singleton,
      List.singleton_append, List.find?_cons]
    by_cases hk : k = b.1
    · simp [hk]
    · simp [hk, Ne.symm hk]

theorem get?_collect_eq_some {l : List (κ × α)} {k : κ} {v : α} :
    (collect l).get? k = some v ↔ l.reverse.find? (fun b => b.1 = k) = some (k, v) := by
  rw [get?_collect, Option.map_eq_some_iff]
  constructor
  · rintro ⟨b, hb, rfl⟩
    have hk : b.1 = k := by simpa using List.find?_some hb
    rw [hb, ← hk]
  · intro hb
    exact ⟨_, hb, rfl⟩

theorem collect_append (l : List (κ × α)) (b : κ × α) : collect (l ++ [b]) = (collect l).insert b.1 b.2 := by
  unfold collect
  rw [List.foldl_append]
  rfl

/-- Bindings in their order are collected as they stand. -/
theorem collect_list (m : Ordered κ α) : collect m.list = m := by
  obtain ⟨l, hl⟩ := m
  apply list_injective
  simp only
  induction l using List.reverseRecOn with
  | nil => rfl
  | append_singleton l b ih =>
    obtain ⟨hl, -, hlt⟩ := List.pairwise_append.1 hl
    have hlast : ∀ a ∈ l, a.1 < b.1 := fun a ha => hlt a ha b (List.mem_singleton.2 rfl)
    have hbelow : l.filter (fun a => a.1 < b.1) = l := List.filter_eq_self.2 fun a ha => decide_eq_true (hlast a ha)
    have habove : l.filter (fun a => b.1 < a.1) = [] :=
      List.filter_eq_nil_iff.2 fun a ha => by simpa using (hlast a ha).le
    rw [collect_append]
    unfold insert
    simp only
    rw [ih hl, hbelow, habove]

def mapValues {γ : Type} (m : Ordered κ α) (f : α → γ) : Ordered κ γ where
  list := m.list.map fun b => (b.1, f b.2)
  sorted := List.pairwise_map.2 m.sorted

theorem get?_mapValues {γ : Type} (m : Ordered κ α) (f : α → γ) (k : κ) : (m.mapValues f).get? k = (m.get? k).map f := by
  unfold get? mapValues
  rw [List.find?_map, Option.map_map, Option.map_map]
  rfl

theorem keys_mapValues {γ : Type} (m : Ordered κ α) (f : α → γ) : (m.mapValues f).keys = m.keys := by
  unfold keys mapValues
  rw [List.map_map]
  rfl

/-- A new key adds one binding. -/
theorem insert_perm {m : Ordered κ α} {k : κ} (hk : m.get? k = none) (v : α) :
    (m.insert k v).list.Perm ((k, v) :: m.list) := by
  have hne : ∀ b ∈ m.list, b.1 ≠ k := by
    rintro ⟨k', w⟩ hb rfl
    rw [get?_eq_some.2 hb] at hk
    cases hk
  have hrest : (m.list.filter fun b => k < b.1) = m.list.filter fun b => !decide (b.1 < k) := by
    refine List.filter_congr fun b hb => ?_
    have hbk := hne b hb
    by_cases hlt : b.1 < k
    · simp [hlt, hlt.le.not_gt]
    · simp [hlt, lt_of_le_of_ne (not_lt.1 hlt) hbk.symm]
  have hlist : (m.insert k v).list = m.list.filter (fun b => b.1 < k) ++ (k, v) :: m.list.filter fun b => k < b.1 := rfl
  rw [hlist, hrest]
  exact List.perm_middle.trans ((List.filter_append_perm (fun b => decide (b.1 < k)) m.list).cons _)

/-- Which keys a list of bindings gives does not depend on its values. -/
theorem keys_collect_congr {γ : Type} {l : List (κ × α)} {l' : List (κ × γ)} (h : l.map Prod.fst = l'.map Prod.fst) :
    (collect l).keys = (collect l').keys := by
  have hsame : (collect l).mapValues (fun _ => ()) = (collect l').mapValues fun _ => () := by
    refine ext_get? fun k => ?_
    have hfind : ∀ {δ : Type} (r : List (κ × δ)), ((r.reverse.find? fun b => b.1 = k).map Prod.snd).map (fun _ => ()) =
        ((r.map Prod.fst).reverse.find? (· = k)).map fun _ => () := by
      intro δ r
      rw [← List.map_reverse, List.find?_map, Option.map_map, Option.map_map]
      rfl
    rw [get?_mapValues, get?_mapValues, get?_collect, get?_collect, hfind, hfind, h]
  rw [← keys_mapValues (collect l) fun _ => (), hsame, keys_mapValues]

/-- What a map holds for its own keys. -/
theorem mapM_get? (m : Ordered κ α) {l : List (κ × α)} (hl : ∀ b ∈ l, b ∈ m.list) :
    (l.map Prod.fst).mapM m.get? = some (l.map Prod.snd) := by
  induction l with
  | nil => rfl
  | cons b l ih =>
    obtain ⟨hb, hl⟩ := List.forall_mem_cons.1 hl
    rw [List.map_cons, List.mapM_cons, get?_eq_some.2 hb, ih hl]
    rfl

/-! ## Edits -/

/-- Keys to write a value under, or to remove. -/
abbrev Edits (κ α : Type) [LinearOrder κ] := Ordered κ (Option α)

def patch (m : Ordered κ α) (e : κ × Option α) : Ordered κ α :=
  match e.2 with
  | some v => m.insert e.1 v
  | none => m.remove e.1

def override (m : Ordered κ α) (c : Edits κ α) : Ordered κ α := c.list.foldl patch m

theorem get?_patch (m : Ordered κ α) (e : κ × Option α) (k : κ) :
    (m.patch e).get? k = if k = e.1 then e.2 else m.get? k := by
  obtain ⟨k', v⟩ := e
  cases v with
  | some v => exact get?_insert m k' v k
  | none => exact get?_remove m k' k

theorem get?_foldl_patch (l : List (κ × Option α)) (hl : l.Pairwise fun a b => a.1 < b.1) (m : Ordered κ α) (k : κ) :
    (l.foldl patch m).get? k = ((l.find? fun e => e.1 = k).map Prod.snd).getD (m.get? k) := by
  induction l generalizing m with
  | nil => rfl
  | cons e l ih =>
    obtain ⟨hlt, hl⟩ := List.pairwise_cons.1 hl
    rw [List.foldl_cons, ih hl, get?_patch, List.find?_cons]
    by_cases hk : e.1 = k
    · subst hk
      have hnone : (l.find? fun a => a.1 = e.1) = none :=
        List.find?_eq_none.2 fun a ha => by simpa using (hlt a ha).ne'
      simp [hnone]
    · simp [hk, Ne.symm hk]

theorem get?_override (m : Ordered κ α) (c : Edits κ α) (k : κ) : (m.override c).get? k = (c.get? k).getD (m.get? k) :=
  get?_foldl_patch c.list c.sorted m k

end Basic

/-! ## Keys that start alike -/

section Scan
variable {β α : Type} [LinearOrder β]

theorem cons_le_cons_iff {b c : β} {l l' : List β} : b :: l ≤ c :: l' ↔ b < c ∨ b = c ∧ l ≤ l' := by
  rw [le_iff_lt_or_eq, le_iff_lt_or_eq, List.cons_lt_cons_iff, List.cons.injEq, and_or_left, or_assoc]

theorem le_of_isPrefix {p a : List β} (h : p <+: a) : p ≤ a := by
  obtain ⟨s, rfl⟩ := h
  induction p with
  | nil => exact not_lt.1 (List.not_lt_nil _)
  | cons b p ih => exact List.cons_le_cons b ih

/-- What lies between a front and a list that starts with it starts with it too. -/
theorem prefix_of_between {p a b : List β} (hpa : p ≤ a) (hab : a ≤ b) (hpb : p <+: b) : p <+: a := by
  induction p generalizing a b with
  | nil => exact List.nil_prefix
  | cons c p ih =>
    obtain ⟨s, rfl⟩ := hpb
    cases a with
    | nil => exact absurd (List.nil_lt_cons c p) (not_lt.2 hpa)
    | cons d a =>
      rw [List.cons_append] at hab
      rcases cons_le_cons_iff.1 hpa with hlt | ⟨rfl, htail⟩
      · rcases cons_le_cons_iff.1 hab with hlt' | ⟨rfl, -⟩
        · exact absurd (hlt.trans hlt') (lt_irrefl _)
        · exact absurd hlt (lt_irrefl _)
      · rcases cons_le_cons_iff.1 hab with hlt' | ⟨-, hab⟩
        · exact absurd hlt' (lt_irrefl _)
        · exact List.cons_prefix_cons.2 ⟨rfl, ih htail hab (List.prefix_append p s)⟩

/-- `range(p..).take_while(|(n, _)| n.starts_with(p))`. -/
def scan (m : Ordered (List β) α) (p : List β) : List (List β × α) :=
  (m.list.dropWhile fun b => b.1 < p).takeWhile fun b => p <+: b.1

theorem takeWhile_eq_filter {p : List β} {l : List (List β × α)} (hl : l.Pairwise fun a b => a.1 < b.1)
    (hle : ∀ b ∈ l, p ≤ b.1) : (l.takeWhile fun b => p <+: b.1) = l.filter fun b => p <+: b.1 := by
  induction l with
  | nil => rfl
  | cons b l ih =>
    obtain ⟨hlt, hl⟩ := List.pairwise_cons.1 hl
    obtain ⟨hb, hle⟩ := List.forall_mem_cons.1 hle
    by_cases hp : p <+: b.1
    · rw [List.takeWhile_cons, List.filter_cons, decide_eq_true hp, if_pos rfl, if_pos rfl, ih hl hle]
    · rw [List.takeWhile_cons, List.filter_cons, decide_eq_false hp, if_neg Bool.false_ne_true, if_neg Bool.false_ne_true,
        eq_comm, List.filter_eq_nil_iff]
      intro c hc hpc
      exact hp (prefix_of_between hb (hlt c hc).le (of_decide_eq_true hpc))

/-- The bindings whose keys start with `p` stand together. -/
theorem scan_eq (m : Ordered (List β) α) (p : List β) : m.scan p = m.list.filter fun b => p <+: b.1 := by
  obtain ⟨l, hsorted⟩ := m
  unfold scan
  simp only
  induction l with
  | nil => rfl
  | cons b l ih =>
    by_cases hb : b.1 < p
    · have hp : ¬p <+: b.1 := fun hp => absurd (le_of_isPrefix hp) (not_le.2 hb)
      rw [List.dropWhile_cons, decide_eq_true hb, if_pos rfl, List.filter_cons, decide_eq_false hp,
        if_neg Bool.false_ne_true]
      exact ih (List.pairwise_cons.1 hsorted).2
    · rw [List.dropWhile_cons, decide_eq_false hb, if_neg Bool.false_ne_true]
      refine takeWhile_eq_filter hsorted ?_
      intro c hc
      rcases List.mem_cons.1 hc with rfl | hc
      · exact not_lt.1 hb
      · exact (not_lt.1 hb).trans ((List.pairwise_cons.1 hsorted).1 c hc).le

end Scan

end Ordered

end Anvil.Lib
