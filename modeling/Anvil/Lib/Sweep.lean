import Anvil.Lib.Rows
import Anvil.Lib.Run

/-!
# Every row of a table, in batches

A loop reads the next rows by their number, at most `n` at a time, writes a new cell into each of them and goes on after
the last one. The table changes while it is read.

* `Sweep` : how a row's cell is computed, and where it is stored;
* `pending`, `page` : the rows after a number, in order, and the first of them;
* `Sweep.batch`, `Sweep.run`, `Sweep.all` : one batch, and all of them;
* `Swept` : what the rows up to a number have become, which every row's step keeps;
* `Sweep.all_ok`, `Sweep.all_error` : all rows get their new cells once, or the sweep fails as one of the rows does.
-/

namespace Anvil.Lib

variable {α π ε : Type} {key : α → Int}

/-- The cell of a row, and the row with another cell. -/
structure Sweep (key : α → Int) (π ε : Type) where
  step : α → Except ε π
  store : α → π → α
  key_store : ∀ a x, key (store a x) = key a

/-- `after` is before the number. -/
def isAfter (after : Option Int) (k : Int) : Bool := after.all (· < k)

/-- The rows after a number, in the order of their numbers. -/
def pending (m : Rows key) (after : Option Int) : List α :=
  (m.list.filter fun a => isAfter after (key a)).mergeSort fun a b => decide (key a ≤ key b)

/-- `WHERE rowid > after ORDER BY rowid LIMIT n`. -/
def page (n : Nat) (m : Rows key) (after : Option Int) : List α := (pending m after).take n

namespace Sweep
variable (s : Sweep key π ε)

/-- Write the cell of the row of a number. -/
def update (m : Rows key) (k : Int) (x : π) : Rows key where
  list := m.list.map fun a => if key a = k then s.store a x else a
  distinct := by
    have hkeys : (m.list.map fun a => if key a = k then s.store a x else a).map key = m.list.map key := by
      rw [List.map_map]
      refine List.map_congr_left fun a _ => ?_
      simp only [Function.comp_apply]
      split_ifs
      · exact s.key_store a x
      · rfl
    rw [hkeys]
    exact m.distinct

/-- The rows of a batch, one after another. -/
def batch : List α → Rows key → Option Int → Except ε (Rows key × Option Int)
  | [], m, after => .ok (m, after)
  | a :: rows, m, _ => do
    let x ← s.step a
    batch rows (s.update m (key a) x) (some (key a))

/-- Batches of `n` rows, until there is none; `fuel` batches at most. -/
def run (n : Nat) : Nat → Rows key → Option Int → Except ε (Rows key)
  | 0, m, _ => .ok m
  | fuel + 1, m, after =>
    if (page n m after).isEmpty then .ok m
    else do
      let r ← s.batch (page n m after) m after
      run n fuel r.1 r.2

/-! ## One row -/

theorem mem_pending {m : Rows key} {after : Option Int} {a : α} :
    a ∈ pending m after ↔ a ∈ m.list ∧ isAfter after (key a) = true := by
  unfold pending
  rw [List.mem_mergeSort, List.mem_filter]

/-- Rows in order, each number once. -/
theorem pending_sorted (m : Rows key) (after : Option Int) : (pending m after).Pairwise fun a b => key a < key b := by
  have hle : (pending m after).Pairwise fun a b => decide (key a ≤ key b) = true := by
    refine List.pairwise_mergeSort (fun a b c hab hbc => ?_) (fun a b => ?_) _
    · simp only [decide_eq_true_eq] at *
      omega
    · simp only [Bool.or_eq_true, decide_eq_true_eq]
      omega
  have hne : (pending m after).Pairwise fun a b => key a ≠ key b := by
    have hnodup : ((pending m after).map key).Nodup := by
      have hperm : (pending m after).Perm (m.list.filter fun a => isAfter after (key a)) := List.mergeSort_perm _ _
      rw [(hperm.map key).nodup_iff]
      exact (m.keep fun a => isAfter after (key a)).distinct
    exact List.pairwise_map.1 hnodup
  refine (hle.and hne).imp fun h => ?_
  have := of_decide_eq_true h.1
  omega

theorem mem_update {m : Rows key} {k : Int} {x : π} {b : α} :
    b ∈ (s.update m k x).list ↔ ∃ a ∈ m.list, (if key a = k then s.store a x else a) = b := List.mem_map

/-- After the first row, the others remain. -/
theorem pending_update {m : Rows key} {after : Option Int} {a : α} {rest : List α} (h : pending m after = a :: rest) (x : π) :
    pending (s.update m (key a) x) (some (key a)) = rest := by
  have hsorted := pending_sorted m after
  rw [h, List.pairwise_cons] at hsorted
  have hmem : ∀ b, b ∈ pending (s.update m (key a) x) (some (key a)) ↔ b ∈ rest := by
    intro b
    rw [mem_pending, mem_update]
    have ha := (mem_pending.1 (h ▸ List.mem_cons_self : a ∈ pending m after))
    constructor
    · rintro ⟨⟨c, hc, hb⟩, hafter⟩
      split_ifs at hb with hk
      · -- the row itself is not after its number
        subst hb
        simp [isAfter, s.key_store, hk] at hafter
      · subst hb
        have hlt : key a < key c := by simpa [isAfter] using hafter
        have hc' : c ∈ pending m after := by
          refine mem_pending.2 ⟨hc, ?_⟩
          cases after with
          | none => rfl
          | some k =>
            have hka : k < key a := by simpa [isAfter] using ha.2
            simpa [isAfter] using lt_trans hka hlt
        rw [h] at hc'
        rcases List.mem_cons.1 hc' with rfl | hc'
        · exact absurd rfl hk
        · exact hc'
    · intro hb
      have hlt := hsorted.1 b hb
      have hb' := (mem_pending.1 (h ▸ List.mem_cons_of_mem _ hb : b ∈ pending m after)).1
      exact ⟨⟨b, hb', if_neg (by omega)⟩, by simpa [isAfter] using hlt⟩
  have hnodup : ∀ {l : List α}, l.Pairwise (fun a b => key a < key b) → l.Nodup := fun hl =>
    hl.imp fun hlt he => absurd (he ▸ hlt) (lt_irrefl _)
  have hsorted' := pending_sorted (s.update m (key a) x) (some (key a))
  refine List.Perm.eq_of_pairwise (fun a b _ _ hab hba => absurd (lt_trans hab hba) (lt_irrefl _)) hsorted' hsorted.2 ?_
  exact (List.perm_ext_iff_of_nodup (hnodup hsorted') (hnodup hsorted.2)).2 hmem

/-- A row with its new cell; one whose step fails stays. -/
def rewritten (a : α) : α :=
  match s.step a with
  | .ok x => s.store a x
  | .error _ => a

theorem rewritten_of_ok {a : α} {x : π} (h : s.step a = .ok x) : s.rewritten a = s.store a x := by
  unfold rewritten
  rw [h]

theorem key_rewritten (a : α) : key (s.rewritten a) = key a := by
  unfold rewritten
  split
  · exact s.key_store a _
  · rfl

/-- What the rows up to a number have become, the others being as they were. -/
structure Swept (m₀ : Rows key) (after : Option Int) (m : Rows key) : Prop where
  list_eq : m.list = m₀.list.map fun a => if isAfter after (key a) then a else s.rewritten a
  stepped : ∀ a ∈ m₀.list, isAfter after (key a) = false → ∃ x, s.step a = .ok x

variable {s}

theorem Swept.start (m : Rows key) : s.Swept m none m where
  list_eq := (List.map_id' m.list).symm
  stepped := fun _ _ h => Bool.noConfusion h

theorem Swept.mem {m₀ m : Rows key} {after : Option Int} (h : s.Swept m₀ after m) {a : α} (ha : a ∈ m₀.list) :
    (if isAfter after (key a) then a else s.rewritten a) ∈ m.list :=
  h.list_eq ▸ List.mem_map_of_mem ha

theorem Swept.update {m₀ m : Rows key} {after : Option Int} (h : s.Swept m₀ after m) {a : α} {rest : List α}
    (hp : pending m after = a :: rest) {x : π} (hx : s.step a = .ok x) :
    s.Swept m₀ (some (key a)) (s.update m (key a) x) := by
  have ha := mem_pending.1 (hp ▸ List.mem_cons_self : a ∈ pending m after)
  have hfirst : ∀ b ∈ m.list, isAfter after (key b) = true → key a ≤ key b := by
    intro b hb hafter
    have hb' := mem_pending.2 ⟨hb, hafter⟩
    have hsorted := pending_sorted m after
    rw [hp, List.pairwise_cons] at hsorted
    rw [hp] at hb'
    rcases List.mem_cons.1 hb' with rfl | hb'
    · exact le_rfl
    · exact (hsorted.1 b hb').le
  have hlater : ∀ k, key a < k → isAfter after k = true := by
    intro k hk
    cases after with
    | none => rfl
    | some l =>
      have hla : l < key a := by simpa [isAfter] using ha.2
      simpa [isAfter] using hla.trans hk
  -- the row of this number is the one that was read
  have hself : ∀ b ∈ m₀.list, key b = key a → b = a := by
    intro b hb hk
    have hmem := h.mem hb
    rw [if_pos (hk ▸ ha.2)] at hmem
    exact Rows.eq_of_key hmem ha.1 hk
  have hearlier : ∀ b ∈ m₀.list, key b < key a → isAfter after (key b) = false := by
    intro b hb hk
    by_contra hafter
    have hmem := h.mem hb
    rw [if_pos (Bool.eq_true_of_not_eq_false hafter)] at hmem
    exact absurd (hfirst b hmem (Bool.eq_true_of_not_eq_false hafter)) (by omega)
  refine ⟨?_, ?_⟩
  · unfold Sweep.update
    simp only
    rw [h.list_eq, List.map_map]
    refine List.map_congr_left fun b hb => ?_
    simp only [Function.comp_apply]
    rcases lt_trichotomy (key b) (key a) with hk | hk | hk
    · have hdone : isAfter (some (key a)) (key b) = false := by simpa [isAfter] using hk.le
      have hkey : key (s.rewritten b) ≠ key a := by
        rw [s.key_rewritten]
        omega
      simp only [hearlier b hb hk, hdone, Bool.false_eq_true, if_false, if_neg hkey]
    · obtain rfl := hself b hb hk
      rw [ha.2, if_pos rfl, if_pos rfl, if_neg (by simp [isAfter]), s.rewritten_of_ok hx]
    · rw [hlater _ hk, if_pos rfl, if_neg (by omega), if_pos (by simpa [isAfter] using hk)]
  · intro b hb hdone
    rcases lt_trichotomy (key b) (key a) with hk | hk | hk
    · exact h.stepped b hb (hearlier b hb hk)
    · obtain rfl := hself b hb hk
      exact ⟨x, hx⟩
    · exact absurd hk (by simpa [isAfter] using hdone)

/-! ## A batch, and all of them -/

/-- A batch is the front of what is pending. -/
theorem Swept.batch {m₀ : Rows key} {rows rest : List α} {m : Rows key} {after : Option Int} (h : s.Swept m₀ after m)
    (hp : pending m after = rows ++ rest) {r : Rows key × Option Int} (hr : s.batch rows m after = .ok r) :
    s.Swept m₀ r.2 r.1 ∧ pending r.1 r.2 = rest := by
  induction rows generalizing m after with
  | nil =>
    obtain rfl := Except.ok.inj hr
    exact ⟨h, hp⟩
  | cons a rows ih =>
    obtain ⟨x, hx, hr⟩ := bind_eq_ok.1 hr
    exact ih (h.update hp hx) (s.pending_update hp x) hr

/-- What a run leaves: every row with its new cell. -/
theorem Swept.run {n : Nat} (hn : 0 < n) {m₀ : Rows key} (fuel : Nat) {m : Rows key} {after : Option Int}
    (h : s.Swept m₀ after m)
    (hfuel : (pending m after).length < fuel) {m' : Rows key} (hr : s.run n fuel m after = .ok m') :
    m'.list = m₀.list.map s.rewritten ∧ ∀ a ∈ m₀.list, ∃ x, s.step a = .ok x := by
  induction fuel generalizing m after with
  | zero => omega
  | succ fuel ih =>
    unfold Sweep.run at hr
    split_ifs at hr with hempty
    · obtain rfl := Except.ok.inj hr
      have hnone : pending m after = [] := by
        rw [page, List.isEmpty_iff, List.take_eq_nil_iff] at hempty
        exact hempty.resolve_left (by omega)
      have hdone : ∀ a ∈ m₀.list, isAfter after (key a) = false := by
        intro a ha
        by_contra hafter
        have hmem := h.mem ha
        rw [if_pos (Bool.eq_true_of_not_eq_false hafter)] at hmem
        have := mem_pending.2 ⟨hmem, Bool.eq_true_of_not_eq_false hafter⟩
        rw [hnone] at this
        cases this
      refine ⟨?_, fun a ha => h.stepped a ha (hdone a ha)⟩
      rw [h.list_eq]
      exact List.map_congr_left fun a ha => by rw [hdone a ha]; rfl
    · obtain ⟨r, hbatch, hr⟩ := bind_eq_ok.1 hr
      obtain ⟨hswept, hrest⟩ := h.batch (List.take_append_drop n _).symm hbatch
      refine ih hswept ?_ hr
      have hne : pending m after ≠ [] := fun hnil => hempty (by rw [page, hnil]; simp)
      have hpos := List.length_pos_iff.2 hne
      rw [hrest, List.length_drop]
      omega

theorem batch_error {rows : List α} {m : Rows key} {after : Option Int} {e : ε} (h : s.batch rows m after = .error e) :
    ∃ a ∈ rows, s.step a = .error e := by
  induction rows generalizing m after with
  | nil => cases h
  | cons a rows ih =>
    cases hx : s.step a with
    | error e' =>
      rw [batch, hx] at h
      obtain rfl : e' = e := Except.error.inj h
      exact ⟨a, List.mem_cons_self, hx⟩
    | ok x =>
      rw [batch, hx] at h
      obtain ⟨b, hb, he⟩ := ih h
      exact ⟨b, List.mem_cons_of_mem _ hb, he⟩

/-- A row that is still to come is as it was. -/
theorem Swept.mem_of_pending {m₀ m : Rows key} {after : Option Int} (h : s.Swept m₀ after m) {a : α}
    (ha : a ∈ pending m after) : a ∈ m₀.list := by
  obtain ⟨hmem, hafter⟩ := mem_pending.1 ha
  rw [h.list_eq] at hmem
  obtain ⟨b, hb, rfl⟩ := List.mem_map.1 hmem
  split_ifs at hafter ⊢ with hb'
  · exact hb
  · rw [s.key_rewritten] at hafter
    exact absurd hafter hb'

theorem Swept.run_error {n : Nat} {m₀ : Rows key} (fuel : Nat) {m : Rows key} {after : Option Int} (h : s.Swept m₀ after m)
    {e : ε} (hr : s.run n fuel m after = .error e) : ∃ a ∈ m₀.list, s.step a = .error e := by
  induction fuel generalizing m after with
  | zero => cases hr
  | succ fuel ih =>
    unfold Sweep.run at hr
    split_ifs at hr
    cases hbatch : s.batch (page n m after) m after with
    | error e' =>
      rw [hbatch] at hr
      obtain rfl : e' = e := Except.error.inj hr
      obtain ⟨a, ha, he⟩ := batch_error hbatch
      exact ⟨a, h.mem_of_pending (List.mem_of_mem_take ha), he⟩
    | ok r =>
      rw [hbatch] at hr
      exact ih (h.batch (List.take_append_drop n _).symm hbatch).1 hr

/-- All the rows, in batches of `n`; no more batches than rows are read, and one that is empty. -/
def all (s : Sweep key π ε) (n : Nat) (m : Rows key) : Except ε (Rows key) := s.run n (m.list.length + 1) m none

/-- Where the sweep ends well, every row has got its new cell, once. -/
theorem all_ok {n : Nat} (hn : 0 < n) {m m' : Rows key} (h : s.all n m = .ok m') :
    m'.list = m.list.map s.rewritten ∧ ∀ a ∈ m.list, ∃ x, s.step a = .ok x := by
  refine Swept.run hn _ (Swept.start m) ?_ h
  have hlen : (pending m none).length = (m.list.filter fun a => isAfter none (key a)).length := List.length_mergeSort _
  rw [hlen]
  exact Nat.lt_succ_of_le (List.length_filter_le _ _)

/-- Where it fails, it fails as a row does. -/
theorem all_error {n : Nat} {m : Rows key} {e : ε} (h : s.all n m = .error e) : ∃ a ∈ m.list, s.step a = .error e :=
  Swept.run_error _ (Swept.start m) h

end Sweep

end Anvil.Lib
