import Anvil.Contract.Spec

/-!
# Runs of resolutions (`anvil-contract/src/spec.rs`)

* `Call`, `Spec.step`, `Spec.run` : the resolutions asked of one description, one after another;
* `lead` : where a value leads by its references alone; `Call.AnsweredBy` : the answer that gives;
* `run_spec` : every answer of a run is that one, and the locations noted are those of what leads nowhere;
* `answers_naive`, `count_exact` : what callers see of the answers, and of the number of unresolved references.
-/

namespace Anvil.Contract
open Anvil.Lib

/-! ## Calls -/

inductive Call
  | reach (v : Json) (location : Text)
  | resolve (v : Json) (location : Text)
  | resolveWithin (v : Json) (location : Text) (meter : Meter)

inductive Answer
  | reached (r : Reach)
  | resolved (v : Option (Json × Text))
  | metered (v : Option (Json × Text)) (meter : Meter)

namespace Spec

def step (s : Spec) : Call → Answer × Spec
  | .reach v location => (.reached (s.reach v location).1, (s.reach v location).2)
  | .resolve v location => (.resolved (s.resolve v location).1, (s.resolve v location).2)
  | .resolveWithin v location meter =>
    (.metered (s.resolveWithin v location meter).1 (s.resolveWithin v location meter).2.2,
      (s.resolveWithin v location meter).2.1)

/-- The answers of a run, and the description after it. -/
def run (s : Spec) : List Call → List Answer × Spec
  | [] => ([], s)
  | c :: calls => ((s.step c).1 :: ((s.step c).2.run calls).1, ((s.step c).2.run calls).2)

end Spec

/-! ## Answers without a cache -/

/-- Where a value leads. -/
inductive Lead
  | inline (v : Json)
  | ends (pointer : Text)
  | nowhere

/-- Following the references of a value, fewer than `MAX_REF_DEPTH` of them. -/
def lead (root v : Json) : Lead :=
  match refOf v with
  | none => .inline v
  | some r =>
    match follow (Spec.next root) (maxRefDepth - 1) r with
    | some p => .ends p
    | none => .nowhere

def Reach.lead : Reach → Lead
  | .inline v => .inline v
  | .target _ p => .ends p
  | .unresolved => .nowhere

/-- The value that a value at a location leads to, and its pointer. -/
def Lead.value (root : Json) (location : Text) : Lead → Option (Json × Text)
  | .inline v => some (v, location)
  | .ends p => (root.pointer p).map fun v => (v, p)
  | .nowhere => none

/-- The first charge: the location and the reference. -/
def firstCharge (v : Json) (location : Text) (meter : Meter) : Bool × Meter :=
  meter.charge (utf8Len location + ((refOf v).map utf8Len).getD 0)

/-- The meter once the end of a chain is charged too. -/
def Lead.charged (l : Lead) (meter : Meter) : Bool × Meter :=
  match l with
  | .ends p => meter.charge (utf8Len p)
  | _ => (true, meter)

/-- The answer that the references alone give. -/
def Call.AnsweredBy (root : Json) : Call → Answer → Prop
  | .reach v _, .reached r => r.lead = lead root v
  | .resolve v location, .resolved found => found = (lead root v).value root location
  | .resolveWithin v location meter, .metered found meter' =>
    if (firstCharge v location meter).1 then
      meter' = ((lead root v).charged (firstCharge v location meter).2).2 ∧
      found = if ((lead root v).charged (firstCharge v location meter).2).1 then (lead root v).value root location else none
    else meter' = (firstCharge v location meter).2 ∧ found = none
  | _, _ => False

/-- The location of a value that leads nowhere. -/
def Lead.missed (location : Text) : Lead → Option Text
  | .nowhere => some location
  | _ => none

/-- The location at which a call meets an unresolvable reference. -/
def Call.missed (root : Json) : Call → Option Text
  | .reach v location => (lead root v).missed location
  | .resolve v location => (lead root v).missed location
  | .resolveWithin v location meter => if (firstCharge v location meter).1 then (lead root v).missed location else none

namespace Spec

/-! ## One call -/

/-- What a call keeps, and what it notes. -/
structure Steps (s s' : Spec) (missed : Option Text) : Prop where
  root : s'.root = s.root
  cached : Cached s'.root s'.refs
  grows : s.refs.ends <+: s'.refs.ends
  unresolved : s'.unresolved = missed.toList.foldl note s.unresolved

theorem lead_of_some {root v : Json} {r : Text} (hr : refOf v = some r) {p : Text} {n : Nat} (h : Leads (next root) r p n) :
    lead root v = if n < maxRefDepth then .ends p else .nowhere := by
  have hdepth : maxRefDepth = 32 := rfl
  unfold lead
  rw [hr]
  simp only
  split_ifs with hn
  · rw [follow_eq_some.2 ⟨n, by omega, h⟩]
  · have hnone : follow (next root) (maxRefDepth - 1) r = none := by
      by_contra hne
      obtain ⟨p', hp'⟩ := Option.ne_none_iff_exists'.1 hne
      obtain ⟨k, hk, hk'⟩ := follow_eq_some.1 hp'
      have := (h.unique hk').2
      omega
    rw [hnone]

theorem lead_of_none {root v : Json} {r : Text} (hr : refOf v = some r) (h : ∀ p n, ¬Leads (next root) r p n) :
    lead root v = .nowhere := by
  have hnone : follow (next root) (maxRefDepth - 1) r = none := by
    by_contra hne
    obtain ⟨p', hp'⟩ := Option.ne_none_iff_exists'.1 hne
    obtain ⟨k, -, hk⟩ := follow_eq_some.1 hp'
    exact h p' k hk
  unfold lead
  rw [hr]
  simp only [hnone]

variable {s : Spec}

/-- **Where a value leads** does not depend on the cache; a target is numbered in it. -/
theorem reach_spec (h : Cached s.root s.refs) (v : Json) (location : Text) :
    (s.reach v location).1.lead = lead s.root v ∧
    (∀ id p, (s.reach v location).1 = .target id p → (s.reach v location).2.refs.ends[id]? = some p) ∧
    Steps s (s.reach v location).2 ((lead s.root v).missed location) := by
  unfold reach
  cases hr : refOf v with
  | none =>
    have hlead : lead s.root v = .inline v := by
      unfold lead
      rw [hr]
    rw [hlead]
    exact ⟨rfl, fun _ _ ht => (by simp at ht), ⟨rfl, h, List.prefix_refl _, rfl⟩⟩
  | some r =>
    obtain ⟨hcached, hgrows, htells⟩ := cached_endOf h r
    cases hout : endOf s.root s.refs r with
    | mk found refs =>
      rw [hout] at hcached hgrows htells
      simp only [hout]
      cases found with
      | none =>
        rw [lead_of_none hr (htells.lost rfl)]
        exact ⟨rfl, fun _ _ ht => (by simp at ht), ⟨rfl, hcached, hgrows, rfl⟩⟩
      | some f =>
        obtain ⟨id, hops⟩ := f
        obtain ⟨p, hp, hleads⟩ := htells.ends id hops rfl
        have hget : refs.ends.getD id [] = p := by
          rw [List.getD_eq_getElem?_getD]
          exact congrArg (·.getD []) hp
        rw [lead_of_some hr hleads]
        simp only [hget]
        by_cases hhops : hops < maxRefDepth
        · simp only [if_pos hhops]
          refine ⟨rfl, fun id' p' ht => ?_, ⟨rfl, hcached, hgrows, rfl⟩⟩
          obtain ⟨rfl, rfl⟩ := Reach.target.inj ht
          exact hp
        · simp only [if_neg hhops]
          exact ⟨rfl, fun _ _ ht => (by simp at ht), ⟨rfl, hcached, hgrows, rfl⟩⟩

theorem resolve_spec (h : Cached s.root s.refs) (v : Json) (location : Text) :
    (s.resolve v location).1 = (lead s.root v).value s.root location ∧
    Steps s (s.resolve v location).2 ((lead s.root v).missed location) := by
  obtain ⟨hlead, -, hsteps⟩ := reach_spec h v location
  unfold resolve
  cases hout : s.reach v location with
  | mk r s' =>
    rw [hout] at hlead hsteps
    rw [← hlead] at hsteps ⊢
    cases r with
    | inline w => exact ⟨rfl, hsteps⟩
    | target id p =>
      have hroot : s'.root = s.root := hsteps.root
      refine ⟨?_, hsteps⟩
      simp only [targetValue, hroot]
      rfl
    | unresolved => exact ⟨rfl, hsteps⟩

theorem resolveWithin_spec (h : Cached s.root s.refs) (v : Json) (location : Text) (meter : Meter) :
    (Call.resolveWithin v location meter).AnsweredBy s.root
      (.metered (s.resolveWithin v location meter).1 (s.resolveWithin v location meter).2.2) ∧
    Steps s (s.resolveWithin v location meter).2.1 ((Call.resolveWithin v location meter).missed s.root) := by
  obtain ⟨hlead, -, hsteps⟩ := reach_spec h v location
  unfold resolveWithin
  rw [← firstCharge]
  simp only [Call.AnsweredBy, Call.missed]
  cases hcharge : firstCharge v location meter with
  | mk ok meter' =>
    cases ok with
    | false => exact ⟨(by simp), ⟨rfl, h, List.prefix_refl _, rfl⟩⟩
    | true =>
      cases hout : s.reach v location with
      | mk r s' =>
        rw [hout] at hlead hsteps
        have hroot : s'.root = s.root := hsteps.root
        rw [← hlead] at hsteps ⊢
        cases r with
        | inline w => exact ⟨(by simp [Reach.lead, Lead.charged, Lead.value]), hsteps⟩
        | target id p =>
          cases hcharge' : meter'.charge (utf8Len p) with
          | mk ok' meter'' =>
            cases ok' with
            | false => simpa [Reach.lead, Lead.charged, hcharge'] using hsteps
            | true => simpa [Reach.lead, Lead.charged, hcharge', targetValue, hroot, Lead.value] using hsteps
        | unresolved => exact ⟨(by simp [Reach.lead, Lead.charged, Lead.value]), hsteps⟩

/-- The number that an answer gives, with the pointer it is the number of. -/
def targetOf : Answer → Option (Nat × Text)
  | .reached (.target id p) => some (id, p)
  | _ => none

/-- **A call is answered as the references alone answer it.** -/
theorem step_spec (h : Cached s.root s.refs) (c : Call) : c.AnsweredBy s.root (s.step c).1 ∧
    (∀ t, targetOf (s.step c).1 = some t → (s.step c).2.refs.ends[t.1]? = some t.2) ∧
    Steps s (s.step c).2 (c.missed s.root) := by
  cases c with
  | reach v location =>
    obtain ⟨hlead, htarget, hsteps⟩ := reach_spec h v location
    refine ⟨hlead, fun t ht => ?_, hsteps⟩
    change targetOf (.reached (s.reach v location).1) = some t at ht
    cases hr : (s.reach v location).1 with
    | target id p =>
      rw [hr] at ht
      rw [← Option.some.inj ht]
      exact htarget id p hr
    | inline w => simp [hr, targetOf] at ht
    | unresolved => simp [hr, targetOf] at ht
  | resolve v location =>
    obtain ⟨hvalue, hsteps⟩ := resolve_spec h v location
    exact ⟨hvalue, fun t ht => (by simp [step, targetOf] at ht), hsteps⟩
  | resolveWithin v location meter =>
    obtain ⟨hvalue, hsteps⟩ := resolveWithin_spec h v location meter
    exact ⟨hvalue, fun t ht => (by simp [step, targetOf] at ht), hsteps⟩

/-! ## Runs -/

theorem run_spec (calls : List Call) : ∀ {s : Spec}, Cached s.root s.refs →
    List.Forall₂ (Call.AnsweredBy s.root) calls (s.run calls).1 ∧
    (∀ a ∈ (s.run calls).1, ∀ t, targetOf a = some t → (s.run calls).2.refs.ends[t.1]? = some t.2) ∧
    (s.run calls).2.root = s.root ∧ Cached s.root (s.run calls).2.refs ∧ s.refs.ends <+: (s.run calls).2.refs.ends ∧
    (s.run calls).2.unresolved = (calls.filterMap (Call.missed s.root)).foldl note s.unresolved := by
  induction calls with
  | nil => exact fun h => ⟨.nil, fun a ha => (by cases ha), rfl, h, List.prefix_refl _, rfl⟩
  | cons c calls ih =>
    intro s h
    obtain ⟨hanswer, htarget, hsteps⟩ := step_spec h c
    obtain ⟨hanswers, htargets, hroot, hcached, hgrows, hunresolved⟩ := ih hsteps.cached
    rw [hsteps.root] at hanswers hroot hcached hunresolved
    refine ⟨.cons hanswer hanswers, fun a ha t ht => ?_, hroot, hcached, hsteps.grows.trans hgrows, ?_⟩
    · rcases List.mem_cons.1 ha with rfl | ha
      · have hget := htarget t ht
        obtain ⟨more, hmore⟩ := hgrows
        change ((s.step c).2.run calls).2.refs.ends[t.1]? = some t.2
        rw [← hmore, List.getElem?_append_left (List.getElem?_eq_some_iff.1 hget).1, hget]
      · exact htargets a ha t ht
    · change ((s.step c).2.run calls).2.unresolved = _
      rw [hunresolved, hsteps.unresolved]
      cases hm : c.missed s.root with
      | none => rw [List.filterMap_cons_none hm]; rfl
      | some location => rw [List.filterMap_cons_some hm]; rfl

/-- **Every answer of a run is that of following the references from the value asked about, with nothing remembered**: the end
of its chain if there is one through fewer than `MAX_REF_DEPTH` references, and nothing otherwise; and two targets have one
number exactly when they are one pointer. -/
theorem answers_naive (root : Json) (calls : List Call) :
    List.Forall₂ (Call.AnsweredBy root) calls (({ root } : Spec).run calls).1 ∧
    (∀ v r p, refOf v = some r → (lead root v = .ends p ↔ ∃ n < maxRefDepth, Leads (next root) r p n)) ∧
    ∀ a ∈ (({ root } : Spec).run calls).1, ∀ b ∈ (({ root } : Spec).run calls).1, ∀ i j p q,
      targetOf a = some (i, p) → targetOf b = some (j, q) → (i = j ↔ p = q) := by
  have hrun := run_spec calls (s := { root }) (cached_empty root)
  refine ⟨hrun.1, fun v r p hr => ?_, fun a ha b hb i j p q hi hj => ?_⟩
  · unfold lead
    rw [hr]
    simp only
    constructor
    · intro h
      cases hf : follow (next root) (maxRefDepth - 1) r with
      | none => simp [hf] at h
      | some p' =>
        obtain rfl : p' = p := by simpa [hf] using h
        obtain ⟨n, hn, hleads⟩ := follow_eq_some.1 hf
        exact ⟨n, Nat.lt_of_le_pred (by decide) hn, hleads⟩
    · rintro ⟨n, hn, hleads⟩
      have hle : n ≤ maxRefDepth - 1 := Nat.le_pred_of_lt hn
      rw [follow_eq_some.2 ⟨n, hle, hleads⟩]
  · have hpi := hrun.2.1 a ha _ hi
    have hqj := hrun.2.1 b hb _ hj
    constructor
    · rintro rfl
      exact Option.some.inj (hpi.symm.trans hqj)
    · rintro rfl
      exact hrun.2.2.2.1.inj hpi hqj

/-! ## The locations noted -/

/-- What is kept of the locations met: at most so many of them, and the others' occurrences counted each time. -/
structure Noted (met : List Text) (u : List Text × Nat) : Prop where
  nodup : u.1.Nodup
  subset : ∀ a ∈ u.1, a ∈ met
  count : u.2 = u.1.length + (met.filter (· ∉ u.1)).length
  length_le : u.1.length ≤ maxUnresolved
  all_of_lt : u.1.length < maxUnresolved → ∀ a ∈ met, a ∈ u.1

theorem noted_note {met : List Text} {u : List Text × Nat} (h : Noted met u) (a : Text) : Noted (met ++ [a]) (note u a) := by
  unfold note
  split_ifs with hlt hmem hnot
  · refine ⟨h.nodup, fun b hb => List.mem_append_left _ (h.subset b hb), ?_, h.length_le, fun _ b hb => ?_⟩
    · rw [h.count, List.filter_append, List.length_append, List.filter_singleton]
      simp [hmem]
    · rcases List.mem_append.1 hb with hb | hb
      · exact h.all_of_lt hlt b hb
      · rwa [List.mem_singleton.1 hb]
  · -- a location is kept: every location met is
    have hall : ∀ b ∈ met ++ [a], b ∈ u.1.orderedInsert (fun a b => textLe a b) a := by
      intro b hb
      rw [List.mem_orderedInsert]
      rcases List.mem_append.1 hb with hb | hb
      · exact .inr (h.all_of_lt hlt b hb)
      · exact .inl (List.mem_singleton.1 hb)
    have hnone : met.filter (· ∉ u.1) = [] := List.filter_eq_nil_iff.2 fun b hb => by simpa using h.all_of_lt hlt b hb
    have hnone' : (met ++ [a]).filter (· ∉ u.1.orderedInsert (fun a b => textLe a b) a) = [] :=
      List.filter_eq_nil_iff.2 fun b hb => by
        simpa only [decide_not, Bool.not_eq_true', decide_eq_false_iff_not, not_not] using hall b hb
    refine ⟨?_, fun b hb => ?_, ?_, ?_, fun _ => hall⟩
    · exact (List.perm_orderedInsert _ a u.1).nodup_iff.2 (List.nodup_cons.2 ⟨hmem, h.nodup⟩)
    · rcases (List.mem_orderedInsert _).1 hb with rfl | hb
      · exact List.mem_append_right _ (List.mem_singleton_self b)
      · exact List.mem_append_left _ (h.subset b hb)
    · rw [h.count, hnone, hnone', List.orderedInsert_length]
      rfl
    · rw [List.orderedInsert_length]
      exact hlt
  · refine ⟨h.nodup, fun b hb => List.mem_append_left _ (h.subset b hb), ?_, h.length_le, fun hlt' => absurd hlt' hlt⟩
    rw [h.count, List.filter_append, List.length_append, List.filter_singleton]
    simp [hnot]
  · refine ⟨h.nodup, fun b hb => List.mem_append_left _ (h.subset b hb), ?_, h.length_le, fun hlt' => absurd hlt' hlt⟩
    rw [h.count, List.filter_append, List.length_append, List.filter_singleton]
    simp [hnot, Nat.add_assoc]

theorem noted_foldl (met : List Text) : Noted met (met.foldl note ([], 0)) := by
  induction met using List.reverseRecOn with
  | nil => exact ⟨List.nodup_nil, fun a ha => (by cases ha), rfl, Nat.zero_le _, fun _ a ha => (by cases ha)⟩
  | append_singleton met a ih =>
    rw [List.foldl_append]
    exact noted_note ih a

theorem mem_note {u : List Text × Nat} {a : Text} (ha : a ∈ u.1) (b : Text) : a ∈ (note u b).1 := by
  unfold note
  split_ifs
  · exact ha
  · exact (List.mem_orderedInsert _).2 (.inr ha)
  · exact ha
  · exact ha

theorem mem_foldl_note {a : Text} (met : List Text) : ∀ {u : List Text × Nat}, a ∈ u.1 → a ∈ (met.foldl note u).1 := by
  induction met with
  | nil => exact id
  | cons b met ih => exact fun ha => ih (mem_note ha b)

theorem note_full {u : List Text × Nat} (hu : ¬u.1.length < maxUnresolved) (a : Text) : (note u a).1 = u.1 := by
  unfold note
  rw [if_neg hu]
  split_ifs <;> rfl

theorem foldl_note_full (met : List Text) : ∀ {u : List Text × Nat}, ¬u.1.length < maxUnresolved →
    (met.foldl note u).1 = u.1 := by
  induction met with
  | nil => exact fun _ => rfl
  | cons b met ih =>
    intro u hu
    rw [List.foldl_cons, ih (by rwa [note_full hu]), note_full hu]

/-- A location is kept if it was first met before so many others. -/
theorem mem_kept_iff {before after : List Text} {a : Text} (ha : a ∉ before) :
    a ∈ ((before ++ a :: after).foldl note ([], 0)).1 ↔ before.toFinset.card < maxUnresolved := by
  have h := noted_foldl before
  rw [List.foldl_append]
  generalize hu : before.foldl note ([], 0) = u at h ⊢
  have hle : u.1.length ≤ before.toFinset.card := by
    rw [← List.toFinset_card_of_nodup h.nodup]
    exact Finset.card_le_card fun b hb => List.mem_toFinset.2 (h.subset b (List.mem_toFinset.1 hb))
  by_cases hlt : u.1.length < maxUnresolved
  · have hcard : before.toFinset.card ≤ u.1.length := by
      rw [← List.toFinset_card_of_nodup h.nodup]
      exact Finset.card_le_card fun b hb => List.mem_toFinset.2 (h.all_of_lt hlt b (List.mem_toFinset.1 hb))
    refine iff_of_true (mem_foldl_note after ?_) (by omega)
    unfold note
    rw [if_pos hlt]
    split_ifs with hmem
    · exact hmem
    · exact (List.mem_orderedInsert _).2 (.inl rfl)
  · refine iff_of_false ?_ (by omega)
    rw [foldl_note_full (a :: after) hlt]
    exact fun hmem => ha (h.subset a hmem)

/-- **The number of the locations met is what is counted** exactly when every location met again was first met while fewer
than `MAX_UNRESOLVED` others had been. -/
theorem count_eq_card_iff (met : List Text) : (met.foldl note ([], 0)).2 = met.toFinset.card ↔
    ∀ before a after, met = before ++ a :: after → a ∉ before → a ∈ after → before.toFinset.card < maxUnresolved := by
  have h := noted_foldl met
  generalize hu : met.foldl note ([], 0) = u at h ⊢
  have hcard : met.toFinset.card = u.1.length + (met.filter (· ∉ u.1)).toFinset.card := by
    rw [← List.toFinset_card_of_nodup h.nodup, ← Finset.card_union_of_disjoint]
    · congr 1
      ext a
      simp only [List.mem_toFinset, Finset.mem_union, List.mem_filter, decide_eq_true_eq]
      constructor
      · exact fun ha => (Classical.em (a ∈ u.1)).imp id fun hnot => ⟨ha, hnot⟩
      · rintro (ha | ha)
        · exact h.subset a ha
        · exact ha.1
    · refine Finset.disjoint_left.2 fun a ha hb => ?_
      rw [List.mem_toFinset] at ha hb
      exact absurd ha (of_decide_eq_true (List.mem_filter.1 hb).2)
  have hnodup : u.2 = met.toFinset.card ↔ (met.filter (· ∉ u.1)).Nodup := by
    rw [h.count, hcard, Nat.add_left_cancel_iff, eq_comm]
    exact Multiset.toFinset_card_eq_card_iff_nodup (m := ((met.filter (· ∉ u.1) : List Text) : Multiset Text))
  rw [hnodup, List.nodup_iff_count_le_one]
  constructor
  · intro hcount before a after hmet ha hagain
    by_contra hfull
    have hnot : a ∉ u.1 := by
      rw [← hu, hmet, mem_kept_iff ha]
      exact hfull
    have htwice := hcount a
    rw [List.count_filter (by simpa using hnot), hmet, List.count_append, List.count_cons_self] at htwice
    have := List.count_pos_iff.2 hagain
    omega
  · intro hcond a
    by_contra htwice
    have hmem : a ∈ met.filter (· ∉ u.1) := List.count_pos_iff.1 (by omega)
    obtain ⟨hmet, hnot⟩ := List.mem_filter.1 hmem
    rw [List.count_filter (by simpa using hnot)] at htwice
    obtain ⟨before, after, hsplit, ha⟩ := List.eq_append_cons_of_mem hmet
    rw [hsplit, List.count_append, List.count_eq_zero.2 ha, List.count_cons_self] at htwice
    have hagain : a ∈ after := List.count_pos_iff.1 (by omega)
    refine absurd (of_decide_eq_true hnot) (not_not.2 ?_)
    rw [← hu, hsplit, mem_kept_iff ha]
    exact hcond before a after hsplit ha hagain

/-- **The number of unresolved references** counts the distinct locations exactly in the runs in which no location first met
after `MAX_UNRESOLVED` others is met again. -/
theorem count_exact (root : Json) (calls : List Call) :
    (({ root } : Spec).run calls).2.unresolved.2 = (calls.filterMap (Call.missed root)).toFinset.card ↔
    ∀ before a after, calls.filterMap (Call.missed root) = before ++ a :: after → a ∉ before → a ∈ after →
      before.toFinset.card < maxUnresolved := by
  rw [(run_spec calls (s := { root }) (cached_empty root)).2.2.2.2.2]
  exact count_eq_card_iff _

/-- A value that leads out of the document. -/
def outside : Json := .object [("$ref".toList, .string "other.yaml".toList)]

/-- A description with one path, whose parameters are 1,001 references out of it. -/
def described : Json := .object [("openapi".toList, .string "3.1.0".toList),
  ("info".toList, .object [("title".toList, .string "t".toList), ("version".toList, .string "1".toList)]),
  ("paths".toList, .object [("/a".toList, .object [("parameters".toList, .array (List.replicate 1001 outside))])])]

def parameterAt (i : Nat) : Text := Json.render ["paths".toList, "/a".toList, "parameters".toList, Nat.toDigits 10 i]

/-- Reach the values at some places of a document. -/
def reachAll (root : Json) (places : List Text) : List Call :=
  places.filterMap fun p => (root.pointer p).map fun v => .reach v p

theorem parameterAt_injective : Function.Injective parameterAt := by
  intro i j hij
  have hpath := Json.render_injective hij
  simp only [List.cons.injEq, and_true, true_and] at hpath
  exact Json.toDigits_injective hpath

theorem pointer_parameterAt {i : Nat} (hi : i < 1001) : described.pointer (parameterAt i) = some outside := by
  have hitem : (Json.array (List.replicate 1001 outside)).child (Nat.toDigits 10 i) = some outside := by
    rw [Json.child, Json.parseIndex_toDigits, Option.bind_some, List.getElem?_replicate, if_pos hi]
  unfold Json.pointer parameterAt
  rw [Json.tokens_render, Option.bind_some]
  change ((Json.array (List.replicate 1001 outside)).child (Nat.toDigits 10 i)).bind _ = _
  rw [hitem]
  rfl

/-- Reaching some of the parameters meets their places. -/
theorem missed_parameters (places : List Nat) (h : ∀ i ∈ places, i < 1001) :
    (reachAll described (places.map parameterAt)).filterMap (Call.missed described) = places.map parameterAt := by
  induction places with
  | nil => rfl
  | cons i places ih =>
    obtain ⟨hi, hplaces⟩ := List.forall_mem_cons.1 h
    have hmissed : Call.missed described (.reach outside (parameterAt i)) = some (parameterAt i) := rfl
    have hcall : reachAll described ((i :: places).map parameterAt) =
        .reach outside (parameterAt i) :: reachAll described (places.map parameterAt) := by
      simp [reachAll, pointer_parameterAt hi]
    rw [hcall, List.filterMap_cons, hmissed, ih hplaces]
    rfl

/-- A location first met after a thousand others is counted each time. -/
theorem counted_again : ¬∀ (root : Json) (calls : List Call),
    (({ root } : Spec).run calls).2.unresolved.2 = (calls.filterMap (Call.missed root)).toFinset.card := by
  intro h
  have hmet : (reachAll described ((List.range 1001 ++ [1000]).map parameterAt)).filterMap (Call.missed described) =
      (List.range 1000).map parameterAt ++ parameterAt 1000 :: [parameterAt 1000] := by
    rw [missed_parameters, List.range_succ]
    · rw [List.append_assoc, List.map_append]
      rfl
    · intro i hi
      rcases List.mem_append.1 hi with hi | hi
      · exact List.mem_range.1 hi
      · rw [List.mem_singleton.1 hi]
        decide
  have hcount := h described (reachAll described ((List.range 1001 ++ [1000]).map parameterAt))
  rw [(run_spec _ (s := { root := described }) (cached_empty described)).2.2.2.2.2] at hcount
  refine absurd ((count_eq_card_iff _).1 hcount _ _ _ hmet ?_ (List.mem_singleton_self _)) ?_
  · intro hmem
    obtain ⟨i, hi, heq⟩ := List.mem_map.1 hmem
    rw [parameterAt_injective heq, List.mem_range] at hi
    exact absurd hi (Nat.lt_irrefl _)
  · rw [List.toFinset_card_of_nodup (List.nodup_range.map parameterAt_injective), List.length_map, List.length_range]
    exact Nat.lt_irrefl _

end Spec
end Anvil.Contract
