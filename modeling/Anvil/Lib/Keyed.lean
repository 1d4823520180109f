import Mathlib.Data.List.Nodup
import Mathlib.Tactic
import Std.Data.ExtTreeMap

/-!
# Lists of keyed entries

What an association list holds for a key, and the merge of two of them by key: an entry of the first stays, is replaced
in place or goes, and the entries that only the second has come after it.

* `lookup_of_mem`, `lookup_map`, `getElem?_ofList` : lookups in a list whose keys are distinct, under a renaming of the
  keys, and in the tree built from it;
* `family` : the entries of the members of a list, under keys that name the member;
* `mergeKeyed`, `lookup_mergeKeyed`, `keys_mergeKeyed` : the merge and what it holds;
* `look_foldl_of_hit` : what a fold of updates leaves at one place;
* `numbered` : the `n`-th entry of a name is keyed by the name and `n`.
-/

namespace Anvil.Lib
open Std

section Lookup
variable {κ ι α β : Type} [BEq κ] [LawfulBEq κ] [BEq ι] [LawfulBEq ι]

abbrev keysOf (l : List (κ × α)) : List κ := l.map Prod.fst

theorem lookup_eq_none {l : List (κ × α)} {k : κ} : l.lookup k = none ↔ k ∉ keysOf l := by
  rw [List.lookup_eq_none_iff, List.mem_map]
  simp only [bne_iff_ne, not_exists, not_and]
  exact forall₂_congr fun p _ => ne_comm

theorem mem_keysOf_of_lookup {l : List (κ × α)} {k : κ} {v : α} (h : l.lookup k = some v) : k ∈ keysOf l := by
  by_contra hk
  rw [lookup_eq_none.2 hk] at h
  cases h

theorem mem_of_lookup {l : List (κ × α)} {k : κ} {v : α} (h : l.lookup k = some v) : (k, v) ∈ l := by
  obtain ⟨l₁, l₂, rfl, -⟩ := List.lookup_eq_some_iff.1 h
  simp

theorem lookup_of_mem {l : List (κ × α)} (hl : (keysOf l).Nodup) {k : κ} {v : α} (h : (k, v) ∈ l) :
    l.lookup k = some v := by
  cases hk : l.lookup k with
  | none => exact absurd (List.mem_map_of_mem (f := Prod.fst) h) (lookup_eq_none.1 hk)
  | some w =>
    have hsame := List.inj_on_of_nodup_map hl (mem_of_lookup hk) h rfl
    rw [(Prod.mk.inj hsame).2]

theorem lookup_congr {l : List (κ × α)} {l' : List (ι × α)} (hl : (keysOf l).Nodup) (hl' : (keysOf l').Nodup) {k : κ}
    {i : ι} (h : ∀ v, (k, v) ∈ l ↔ (i, v) ∈ l') : l.lookup k = l'.lookup i := by
  cases hi : l'.lookup i with
  | some v => exact lookup_of_mem hl ((h v).2 (mem_of_lookup hi))
  | none =>
    cases hk : l.lookup k with
    | none => rfl
    | some v => rw [← hi, lookup_of_mem hl' ((h v).1 (mem_of_lookup hk))]

/-- Renaming the keys. -/
theorem lookup_map {f : ι → κ} (hf : Function.Injective f) (g : α → β) (l : List (ι × α)) (i : ι) :
    (l.map fun e => (f e.1, g e.2)).lookup (f i) = (l.lookup i).map g := by
  induction l with
  | nil => rfl
  | cons e l ih =>
    obtain ⟨j, a⟩ := e
    rw [List.map_cons, List.lookup_cons, List.lookup_cons, ih]
    by_cases hij : i = j
    · subst hij
      simp
    · rw [beq_false_of_ne hij, beq_false_of_ne (hf.ne hij)]

theorem ext_of_lookup {l l' : List (κ × α)} (hl : (keysOf l).Nodup) (hkeys : keysOf l = keysOf l')
    (h : ∀ k, l.lookup k = l'.lookup k) : l = l' := by
  induction l generalizing l' with
  | nil => exact (List.map_eq_nil_iff.1 hkeys.symm).symm
  | cons e l ih =>
    obtain ⟨k, v⟩ := e
    cases l' with
    | nil => cases hkeys
    | cons e' l' =>
      obtain ⟨k', v'⟩ := e'
      obtain ⟨rfl, hrest⟩ : k = k' ∧ keysOf l = keysOf l' := List.cons.inj hkeys
      have hv : v = v' := by simpa using h k
      have hnot : k ∉ keysOf l := (List.nodup_cons.1 hl).1
      rw [hv, ih (List.nodup_cons.1 hl).2 hrest fun j => ?_]
      by_cases hjk : j = k
      · subst hjk
        rw [lookup_eq_none.2 hnot, lookup_eq_none.2 (hrest ▸ hnot)]
      · have := h j
        rwa [List.lookup_cons, List.lookup_cons, beq_false_of_ne hjk] at this

theorem getElem?_ofList [Ord κ] [TransOrd κ] [LawfulEqOrd κ] {l : List (κ × α)} (hl : (keysOf l).Nodup) (k : κ) :
    (ExtTreeMap.ofList l compare)[k]? = l.lookup k := by
  cases hk : l.lookup k with
  | none =>
    apply ExtTreeMap.getElem?_ofList_of_contains_eq_false
    simpa using lookup_eq_none.1 hk
  | some v =>
    apply ExtTreeMap.getElem?_ofList_of_mem (Std.compare_eq_iff_eq.2 rfl) _ (mem_of_lookup hk)
    rw [List.Nodup, List.pairwise_map] at hl
    exact hl.imp fun hne heq => hne (Std.compare_eq_iff_eq.1 heq)

theorem getElem?_ofList_eq_some [Ord κ] [TransOrd κ] [LawfulEqOrd κ] {l : List (κ × α)} (hl : (keysOf l).Nodup)
    {k : κ} {v : α} : (ExtTreeMap.ofList l compare)[k]? = some v ↔ (k, v) ∈ l := by
  rw [getElem?_ofList hl]
  exact ⟨mem_of_lookup, lookup_of_mem hl⟩

end Lookup

/-! ## Families of lists -/

section Family
variable {κ ι τ α ε : Type} (id : ε → ι) (entries : ε → List (τ × α)) {key : ι → τ → κ}

/-- The entries of every member, keyed by the member and the key inside it. -/
def family (key : ι → τ → κ) (l : List ε) : List (κ × α) :=
  l.flatMap fun e => (entries e).map fun x => (key (id e) x.1, x.2)

theorem mem_family (hkey : Function.Injective2 key) {l : List ε} {i : ι} {t : τ} {v : α} :
    (key i t, v) ∈ family id entries key l ↔ ∃ e ∈ l, id e = i ∧ (t, v) ∈ entries e := by
  unfold family
  simp only [List.mem_flatMap, List.mem_map, Prod.mk.injEq]
  constructor
  · rintro ⟨e, he, ⟨u, w⟩, hx, hk, rfl⟩
    obtain ⟨hid, rfl⟩ := hkey hk
    exact ⟨e, he, hid, hx⟩
  · rintro ⟨e, he, rfl, hx⟩
    exact ⟨e, he, (t, v), hx, rfl, rfl⟩

theorem nodup_family (hkey : Function.Injective2 key) {l : List ε} (hid : (l.map id).Nodup)
    (h : ∀ e ∈ l, (keysOf (entries e)).Nodup) : (keysOf (family id entries key l)).Nodup := by
  unfold family keysOf
  rw [List.map_flatMap, List.nodup_flatMap]
  constructor
  · intro e he
    rw [List.map_map]
    have := (h e he).map (f := key (id e)) fun a b hab => (hkey hab).2
    rwa [List.map_map] at this
  · rw [List.Nodup, List.pairwise_map] at hid
    refine hid.imp fun hne => ?_
    intro k hk hk'
    simp only [List.map_map, List.mem_map, Function.comp] at hk hk'
    obtain ⟨x, -, rfl⟩ := hk
    obtain ⟨y, -, hy⟩ := hk'
    exact hne (hkey hy).1.symm

end Family

/-! ## Merging -/

section Merge
variable {κ α : Type} [BEq κ] [LawfulBEq κ] (take : κ → Bool) (current fresh : List (κ × α))

/-- `current` with the taken entries of `fresh`: replaced in place, removed, or appended in the order of `fresh`. -/
def mergeKeyed : List (κ × α) :=
  current.filterMap (fun e => (if take e.1 then fresh.lookup e.1 else some e.2).map (e.1, ·)) ++
    fresh.filter fun e => take e.1 && !(keysOf current).contains e.1

/-- What the merge holds for a key. -/
def merged (k : κ) : Option α := if take k then fresh.lookup k else current.lookup k

theorem lookup_filterMap_key (h : κ → α → Option α) {l : List (κ × α)} (hl : (keysOf l).Nodup) (k : κ) :
    (l.filterMap fun e => (h e.1 e.2).map (e.1, ·)).lookup k = (l.lookup k).bind (h k) := by
  induction l with
  | nil => rfl
  | cons e l ih =>
    obtain ⟨j, a⟩ := e
    obtain ⟨hnot, hrest⟩ := List.nodup_cons.1 hl
    rw [List.filterMap_cons, List.lookup_cons]
    by_cases hkj : k = j
    · subst hkj
      have hnone : l.lookup k = none := lookup_eq_none.2 hnot
      cases hh : h k a with
      | none => simp [ih hrest, hnone, hh]
      | some b => simp [hh]
    · rw [beq_false_of_ne hkj]
      cases hh : h j a with
      | none => simp [ih hrest]
      | some b => simp [List.lookup_cons, beq_false_of_ne hkj, ih hrest]

theorem lookup_filter_key (p : κ → Bool) (l : List (κ × α)) (k : κ) :
    (l.filter fun e => p e.1).lookup k = if p k then l.lookup k else none := by
  induction l with
  | nil => simp
  | cons e l ih =>
    obtain ⟨j, a⟩ := e
    rw [List.filter_cons, List.lookup_cons]
    by_cases hkj : k = j
    · subst hkj
      cases hp : p k <;> simp [hp, ih]
    · rw [beq_false_of_ne hkj]
      cases p j <;> simp [List.lookup_cons, beq_false_of_ne hkj, ih]

theorem lookup_mergeKeyed (hc : (keysOf current).Nodup) (k : κ) :
    (mergeKeyed take current fresh).lookup k = merged take current fresh k := by
  unfold mergeKeyed merged
  rw [List.lookup_append, lookup_filterMap_key (fun k a => if take k then fresh.lookup k else some a) hc,
    lookup_filter_key (fun j => take j && !(keysOf current).contains j)]
  cases hk : current.lookup k with
  | none =>
    have hnot := lookup_eq_none.1 hk
    cases take k <;> simp [hnot]
  | some a =>
    have hmem := mem_keysOf_of_lookup hk
    cases take k <;> simp [hmem]

theorem keys_mergeKeyed :
    keysOf (mergeKeyed take current fresh) =
      (keysOf current).filter (fun k => (merged take current fresh k).isSome) ++
        (keysOf fresh).filter (fun k => take k && !(keysOf current).contains k) := by
  unfold mergeKeyed keysOf
  rw [List.map_append, List.filter_map, List.filter_map]
  congr 1
  rw [List.map_filterMap, ← List.filterMap_eq_filter, List.map_filterMap]
  apply List.filterMap_congr
  intro e he
  have hcur : (current.lookup e.1).isSome := by
    rw [Option.isSome_iff_ne_none, ne_eq, lookup_eq_none, not_not]
    exact List.mem_map_of_mem he
  unfold merged
  cases htake : take e.1 with
  | false => simp [htake, hcur, Option.guard]
  | true => cases hf : fresh.lookup e.1 <;> simp [htake, hf, Option.guard]

theorem nodup_keys_mergeKeyed (hc : (keysOf current).Nodup) (hf : (keysOf fresh).Nodup) :
    (keysOf (mergeKeyed take current fresh)).Nodup := by
  rw [keys_mergeKeyed, List.nodup_append]
  refine ⟨hc.filter _, hf.filter _, ?_⟩
  intro a ha b hb hab
  subst hab
  have h₁ := (List.mem_filter.1 ha).1
  have h₂ := (List.mem_filter.1 hb).2
  simp only [Bool.and_eq_true, Bool.not_eq_true', List.contains_eq_mem, decide_eq_false_iff_not] at h₂
  exact h₂.2 h₁

end Merge

/-! ## Numbering -/

section Numbered
variable {κ ν α : Type} [BEq ν] (name : α → ν) (key : ν → Nat → κ)

/-- Entries keyed by their name and how often it was seen before. -/
def numberedFrom : List ν → List α → List (κ × α)
  | _, [] => []
  | seen, a :: l => (key (name a) (seen.count (name a) + 1), a) :: numberedFrom (name a :: seen) l

def numbered (l : List α) : List (κ × α) := numberedFrom name key [] l

theorem keysOf_numberedFrom (seen : List ν) (l : List α) :
    keysOf (numberedFrom name key seen l) =
      (keysOf (numberedFrom name Prod.mk seen l)).map fun o => key o.1 o.2 := by
  induction l generalizing seen with
  | nil => rfl
  | cons a l ih =>
    simp only [numberedFrom, keysOf, List.map_cons] at ih ⊢
    rw [ih]

theorem numbered_key {ι : Type} (f : κ → ι) (l : List α) :
    numbered name (fun x n => f (key x n)) l = (numbered name key l).map fun e => (f e.1, e.2) := by
  unfold numbered
  have h : ∀ (seen : List ν), numberedFrom name (fun x n => f (key x n)) seen l =
      (numberedFrom name key seen l).map fun e => (f e.1, e.2) := by
    induction l with
    | nil => intro seen; rfl
    | cons a l ih => intro seen; rw [numberedFrom, numberedFrom, List.map_cons, ih]
  exact h []

theorem mem_numberedFrom [LawfulBEq ν] (seen : List ν) (l : List α) (x : ν) (n : Nat) :
    (x, n) ∈ keysOf (numberedFrom name Prod.mk seen l) ↔
      seen.count x < n ∧ n ≤ seen.count x + (l.map name).count x := by
  induction l generalizing seen with
  | nil =>
    simp only [numberedFrom, List.map_nil, List.not_mem_nil, List.count_nil, false_iff]
    omega
  | cons a l ih =>
    simp only [numberedFrom, List.map_cons, List.mem_cons, Prod.mk.injEq, List.count_cons] at ih ⊢
    rw [ih]
    by_cases hx : x = name a
    · subst hx
      simp only [List.count_cons_self, true_and, beq_self_eq_true, if_true]
      omega
    · rw [List.count_cons_of_ne (Ne.symm hx), beq_false_of_ne (Ne.symm hx)]
      simp [hx]

theorem nodup_occurrences [LawfulBEq ν] (seen : List ν) (l : List α) : (keysOf (numberedFrom name Prod.mk seen l)).Nodup := by
  induction l generalizing seen with
  | nil => exact List.nodup_nil
  | cons a l ih =>
    refine List.nodup_cons.2 ⟨?_, ih _⟩
    intro hmem
    have := (mem_numberedFrom name (name a :: seen) l (name a) (seen.count (name a) + 1)).1 hmem
    rw [List.count_cons_self] at this
    omega

/-- The keys are distinct exactly when `key` tells apart the occurrences that there are. -/
theorem nodup_numbered [LawfulBEq ν] (l : List α) :
    (keysOf (numbered name key l)).Nodup ↔
      ∀ x n y m, 1 ≤ n → n ≤ (l.map name).count x → 1 ≤ m → m ≤ (l.map name).count y → key x n = key y m →
        x = y ∧ n = m := by
  unfold numbered
  rw [keysOf_numberedFrom, List.nodup_map_iff_inj_on (nodup_occurrences name [] l)]
  constructor
  · intro h x n y m hn hn' hm hm' heq
    have hx := (mem_numberedFrom name [] l x n).2 (by simpa using ⟨hn, hn'⟩)
    have hy := (mem_numberedFrom name [] l y m).2 (by simpa using ⟨hm, hm'⟩)
    exact Prod.mk.inj (h _ hx _ hy heq)
  · rintro h ⟨x, n⟩ hx ⟨y, m⟩ hy heq
    obtain ⟨hn, hn'⟩ := (mem_numberedFrom name [] l x n).1 hx
    obtain ⟨hm, hm'⟩ := (mem_numberedFrom name [] l y m).1 hy
    simp only [List.count_nil, Nat.zero_add] at hn hn' hm hm'
    obtain ⟨rfl, rfl⟩ := h x n y m hn hn' hm hm' heq
    rfl

/-- Every entry is keyed by its name and the number of entries of this name up to it. -/
def InOrder (s : List (κ × α)) : Prop :=
  ∀ pre e post, s = pre ++ e :: post →
    e.1 = key (name e.2) ((pre.map fun o => name o.2).count (name e.2) + 1)

theorem numberedFrom_eq_iff (seen : List ν) (s : List (κ × α)) :
    numberedFrom name key seen (s.map Prod.snd) = s ↔
      ∀ pre e post, s = pre ++ e :: post →
        e.1 = key (name e.2) (seen.count (name e.2) + (pre.map fun o => name o.2).count (name e.2) + 1) := by
  induction s generalizing seen with
  | nil =>
    simp only [List.map_nil, numberedFrom, true_iff]
    intro pre e post h
    simp at h
  | cons e s ih =>
    simp only [List.map_cons, numberedFrom, List.cons.injEq, ih]
    constructor
    · rintro ⟨he, hs⟩ pre e' post heq
      cases pre with
      | nil =>
        obtain ⟨rfl, -⟩ := List.cons.inj heq
        simpa using (congrArg Prod.fst he).symm
      | cons p pre =>
        obtain ⟨rfl, hrest⟩ := List.cons.inj heq
        rw [hs pre e' post hrest, List.map_cons, List.count_cons, List.count_cons]
        congr 1
        omega
    · intro h
      constructor
      · have he := h [] e s rfl
        simp only [List.map_nil, List.count_nil, Nat.add_zero] at he
        rw [← he]
      · intro pre e' post heq
        rw [h (e :: pre) e' post (by rw [heq]; rfl), List.map_cons, List.count_cons, List.count_cons]
        congr 1
        omega

theorem numbered_eq_iff (s : List (κ × α)) : numbered name key (s.map Prod.snd) = s ↔ InOrder name key s := by
  unfold numbered InOrder
  simpa using numberedFrom_eq_iff name key [] s

end Numbered

/-! ## One update after another -/

section Fold
variable {μ γ α : Type} {f : μ → γ → μ} (look : μ → α) (hit : γ → Prop)

theorem look_foldl_of_not_hit (hf : ∀ m c, ¬ hit c → look (f m c) = look m) {cs : List γ} (m : μ)
    (h : ∀ c ∈ cs, ¬ hit c) : look (cs.foldl f m) = look m := by
  induction cs generalizing m with
  | nil => rfl
  | cons c cs ih =>
    rw [List.foldl_cons, ih (f m c) fun x hx => h x (List.mem_cons_of_mem c hx), hf m c (h c List.mem_cons_self)]

/-- After updates of which one hits, what is there is what one of those that hit wrote. -/
theorem exists_look_foldl (val : γ → α) (hf : ∀ m c, ¬ hit c → look (f m c) = look m)
    (hv : ∀ m c, hit c → look (f m c) = val c)
    {cs : List γ} (m : μ) (hex : ∃ c ∈ cs, hit c) : ∃ c ∈ cs, hit c ∧ look (cs.foldl f m) = val c := by
  induction cs generalizing m with
  | nil =>
    obtain ⟨c, hc, -⟩ := hex
    cases hc
  | cons c cs ih =>
    rw [List.foldl_cons]
    by_cases hlater : ∃ x ∈ cs, hit x
    · obtain ⟨x, hx, hhit, hlook⟩ := ih (f m c) hlater
      exact ⟨x, List.mem_cons_of_mem c hx, hhit, hlook⟩
    · have hc : hit c := by
        obtain ⟨x, hx, hhit⟩ := hex
        rcases List.mem_cons.1 hx with rfl | hx
        · exact hhit
        · exact absurd ⟨x, hx, hhit⟩ hlater
      refine ⟨c, List.mem_cons_self, hc, ?_⟩
      rw [look_foldl_of_not_hit look hit hf (f m c) fun x hx hhit => hlater ⟨x, hx, hhit⟩, hv m c hc]

/-- Updates that agree on what they write. -/
theorem look_foldl_of_hit (val : γ → α) (hf : ∀ m c, ¬ hit c → look (f m c) = look m)
    (hv : ∀ m c, hit c → look (f m c) = val c)
    {cs : List γ} (m : μ) {v : α} (hex : ∃ c ∈ cs, hit c) (h : ∀ c ∈ cs, hit c → val c = v) :
    look (cs.foldl f m) = v := by
  obtain ⟨c, hc, hhit, hlook⟩ := exists_look_foldl look hit val hf hv m hex
  exact hlook.trans (h c hc hhit)

end Fold

end Anvil.Lib
