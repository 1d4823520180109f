import Mathlib.Data.List.Sort
import Mathlib.Tactic

/-!
# Merging overlapping ranges

Half-open ranges of positions. Two ranges overlap when they share a position, not when they only touch; merging some
ranges gives the hulls of the groups that hang together by overlapping.

* `Merged M R` : `R` is the merge of the ranges `M`, in order; `Merged.unique` : there is one;
* `Merged.of_dominated` : ranges inside another one of the same start may be left out;
* `pushRange`, `Merged.pushRange` : merging ranges that arrive in the order of their starts;
* `absorb`, `Merged.absorb` : merging ranges that arrive in the order of their ends.
-/

namespace Anvil.Lib

structure Range where
  start : Nat
  stop : Nat
deriving DecidableEq, Repr

/-- `x` is strictly inside the range: a cut at `x` would split it. -/
def Range.Crosses (r : Range) (x : Nat) : Prop := r.start < x ∧ x < r.stop

/-- The range hangs together by ranges of `M`, from the start of one to the end of one. -/
structure Joined (M : List Range) (r : Range) : Prop where
  nonempty : r.start < r.stop
  crossed : ∀ x, r.Crosses x → ∃ m ∈ M, m.Crosses x
  starts : ∃ m ∈ M, m.start = r.start
  stops : ∃ m ∈ M, m.stop = r.stop

/-- The ranges before one another. -/
def Apart (R : List Range) : Prop := R.Pairwise fun r s => r.stop ≤ s.start

/-- `R` is the merge of `M`. -/
structure Merged (M R : List Range) : Prop where
  proper : ∀ m ∈ M, m.start < m.stop
  apart : Apart R
  joined : ∀ r ∈ R, Joined M r
  covers : ∀ m ∈ M, ∃ r ∈ R, r.start ≤ m.start ∧ m.stop ≤ r.stop

theorem merged_nil : Merged [] [] := ⟨by simp, List.Pairwise.nil, by simp, by simp⟩

theorem Apart.eq_or {R : List Range} (h : Apart R) {r s : Range} (hr : r ∈ R) (hs : s ∈ R) :
    r = s ∨ r.stop ≤ s.start ∨ s.stop ≤ r.start := by
  induction R with
  | nil => cases hr
  | cons a R ih =>
    unfold Apart at h
    rw [List.pairwise_cons] at h
    rcases List.mem_cons.1 hr with hra | hr'
    · rcases List.mem_cons.1 hs with hsa | hs'
      · exact .inl (hra.trans hsa.symm)
      · rw [hra]
        exact .inr (.inl (h.1 s hs'))
    · rcases List.mem_cons.1 hs with hsa | hs'
      · rw [hsa]
        exact .inr (.inr (h.1 r hr'))
      · exact ih h.2 hr' hs'

/-- No range of `M` crosses an end of a merged range. -/
theorem Merged.not_crosses {M R : List Range} (h : Merged M R) {r m : Range} {x : Nat} (hr : r ∈ R) (hm : m ∈ M)
    (hx : m.Crosses x) : x ≠ r.start ∧ x ≠ r.stop := by
  obtain ⟨s, hs, hstart, hstop⟩ := h.covers m hm
  have hne := (h.joined r hr).nonempty
  unfold Range.Crosses at hx
  rcases h.apart.eq_or hr hs with rfl | hrs | hsr
  · omega
  · omega
  · omega

theorem Merged.mem_of_mem {M R R' : List Range} (h : Merged M R) (h' : Merged M R') {r : Range} (hr : r ∈ R) : r ∈ R' := by
  obtain ⟨m, hm, hstart⟩ := (h.joined r hr).starts
  obtain ⟨s, hs, hsm, hms⟩ := h'.covers m hm
  have hne := (h.joined r hr).nonempty
  have hm' := h.proper m hm
  -- neither range can have an end strictly inside the other
  have hstart' : ¬s.Crosses r.start := by
    intro hc
    obtain ⟨n, hn, hcn⟩ := (h'.joined s hs).crossed _ hc
    exact (h.not_crosses hr hn hcn).1 rfl
  have hstop' : ¬s.Crosses r.stop := by
    intro hc
    obtain ⟨n, hn, hcn⟩ := (h'.joined s hs).crossed _ hc
    exact (h.not_crosses hr hn hcn).2 rfl
  have hstop : ¬r.Crosses s.stop := by
    intro hc
    obtain ⟨n, hn, hcn⟩ := (h.joined r hr).crossed _ hc
    exact (h'.not_crosses hs hn hcn).2 rfl
  unfold Range.Crosses at hstart' hstop' hstop
  have heq : r = s := by
    obtain ⟨rs, re⟩ := r
    obtain ⟨ss, se⟩ := s
    simp only [Range.mk.injEq] at *
    omega
  rw [heq]
  exact hs

/-- The merge of some ranges is determined by them. -/
theorem Merged.unique {M R R' : List Range} (h : Merged M R) (h' : Merged M R') : R = R' := by
  have hsorted : ∀ {R : List Range}, Merged M R → R.Pairwise fun r s => r.start < s.start := by
    intro R h
    refine List.Pairwise.imp_of_mem ?_ h.apart
    intro r s hr _ hrs
    have := (h.joined r hr).nonempty
    omega
  have hnodup : ∀ {R : List Range}, Merged M R → R.Nodup := by
    intro R h
    exact (hsorted h).imp fun hlt he => by
      rw [he] at hlt
      exact lt_irrefl _ hlt
  have hperm : R.Perm R' := (List.perm_ext_iff_of_nodup (hnodup h) (hnodup h')).2 fun r => ⟨h.mem_of_mem h', h'.mem_of_mem h⟩
  refine hperm.eq_of_pairwise ?_ (hsorted h) (hsorted h')
  intro r s _ _ hrs hsr
  omega

theorem Joined.mono {M M' : List Range} {r : Range} (h : Joined M r) (hsub : ∀ m ∈ M, m ∈ M') : Joined M' r := by
  obtain ⟨hne, hcross, ⟨m, hm, hstart⟩, ⟨n, hn, hstop⟩⟩ := h
  refine ⟨hne, ?_, ⟨m, hsub m hm, hstart⟩, ⟨n, hsub n hn, hstop⟩⟩
  intro x hx
  obtain ⟨k, hk, hkx⟩ := hcross x hx
  exact ⟨k, hsub k hk, hkx⟩

/-- Only which ranges are merged matters. -/
theorem Merged.congr {M M' R : List Range} (h : Merged M R) (hM : ∀ m, m ∈ M ↔ m ∈ M') : Merged M' R := by
  refine ⟨fun m hm => h.proper m ((hM m).2 hm), h.apart, ?_, fun m hm => h.covers m ((hM m).2 hm)⟩
  exact fun r hr => (h.joined r hr).mono fun m hm => (hM m).1 hm

/-- Ranges that start with another one and end no later may be left out. -/
theorem Merged.of_dominated {M M' R : List Range} (h : Merged M' R) (hsub : ∀ m ∈ M', m ∈ M)
    (hdom : ∀ m ∈ M, m.start < m.stop ∧ ∃ n ∈ M', n.start = m.start ∧ m.stop ≤ n.stop) : Merged M R := by
  refine ⟨fun m hm => (hdom m hm).1, h.apart, fun r hr => (h.joined r hr).mono hsub, ?_⟩
  · intro m hm
    obtain ⟨-, n, hn, hstart, hstop⟩ := hdom m hm
    obtain ⟨r, hr, hrn, hnr⟩ := h.covers n hn
    exact ⟨r, hr, by omega, by omega⟩

theorem joined_self {M : List Range} {m : Range} (hm : m ∈ M) (hne : m.start < m.stop) : Joined M m :=
  ⟨hne, fun _ hx => ⟨m, hm, hx⟩, ⟨m, hm, rfl⟩, ⟨m, hm, rfl⟩⟩

/-- The hull of two overlapping ranges that hang together does so too. -/
theorem Joined.hull {M : List Range} {r s : Range} (hr : Joined M r) (hs : Joined M s) (hrs : r.start < s.stop)
    (hsr : s.start < r.stop) : Joined M ⟨min r.start s.start, max r.stop s.stop⟩ := by
  refine ⟨?_, ?_, ?_, ?_⟩
  · have := hr.nonempty
    simp only
    omega
  · intro x hx
    unfold Range.Crosses at hx
    simp only at hx
    by_cases hxr : r.Crosses x
    · exact hr.crossed x hxr
    · apply hs.crossed x
      unfold Range.Crosses at hxr ⊢
      omega
  · rcases min_choice r.start s.start with hmin | hmin
    · simp only [hmin]
      exact hr.starts
    · simp only [hmin]
      exact hs.starts
  · rcases max_choice r.stop s.stop with hmax | hmax
    · simp only [hmax]
      exact hr.stops
    · simp only [hmax]
      exact hs.stops

/-! ## In the order of the starts -/

/-- Add a range that starts no earlier than the ranges before. -/
def pushRange (R : List Range) (m : Range) : List Range :=
  match R.getLast? with
  | some r => if m.start < r.stop then R.dropLast ++ [⟨r.start, max r.stop m.stop⟩] else R ++ [m]
  | none => R ++ [m]

/-- A range behind all others. -/
theorem Merged.append {M R : List Range} (h : Merged M R) {m : Range} (hm : m.start < m.stop)
    (hbehind : ∀ r ∈ R, r.stop ≤ m.start) : Merged (m :: M) (R ++ [m]) := by
  refine ⟨?_, ?_, ?_, ?_⟩
  · exact List.forall_mem_cons.2 ⟨hm, h.proper⟩
  · unfold Apart
    rw [List.pairwise_append]
    refine ⟨h.apart, List.pairwise_singleton _ _, ?_⟩
    intro r hr s hs
    rw [List.mem_singleton.1 hs]
    exact hbehind r hr
  · intro r hr
    rcases List.mem_append.1 hr with hr | hr
    · exact (h.joined r hr).mono fun _ => List.mem_cons_of_mem m
    · rw [List.mem_singleton.1 hr]
      exact joined_self List.mem_cons_self hm
  · intro n hn
    rcases List.mem_cons.1 hn with rfl | hn
    · exact ⟨n, by simp, le_rfl, le_rfl⟩
    · obtain ⟨r, hr, hrn⟩ := h.covers n hn
      exact ⟨r, List.mem_append_left _ hr, hrn⟩

theorem Merged.pushRange {M R : List Range} (h : Merged M R) {m : Range} (hm : m.start < m.stop)
    (hlast : ∀ n ∈ M, n.start ≤ m.start) : Merged (m :: M) (pushRange R m) := by
  have hstarts : ∀ r ∈ R, r.start ≤ m.start := by
    intro r hr
    obtain ⟨n, hn, hstart⟩ := (h.joined r hr).starts
    rw [← hstart]
    exact hlast n hn
  cases hR : R.getLast? with
  | none =>
    have hnil : R = [] := List.getLast?_eq_none_iff.1 hR
    unfold Lib.pushRange
    rw [hR]
    exact h.append hm (by simp [hnil])
  | some r =>
    obtain ⟨A, rfl⟩ := List.getLast?_eq_some_iff.1 hR
    have hA : ∀ a ∈ A, a.stop ≤ r.start := fun a ha => (List.pairwise_append.1 h.apart).2.2 a ha r (by simp)
    have hr := h.joined r (by simp)
    have hrm := hstarts r (by simp)
    unfold Lib.pushRange
    rw [hR]
    simp only [List.dropLast_concat]
    split_ifs with hover
    · have hhull : Joined (m :: M) ⟨r.start, max r.stop m.stop⟩ := by
        have hj := (hr.mono fun _ => List.mem_cons_of_mem m).hull (joined_self List.mem_cons_self hm) (by omega) hover
        rwa [min_eq_left hrm] at hj
      refine ⟨List.forall_mem_cons.2 ⟨hm, h.proper⟩, ?_, ?_, ?_⟩
      · unfold Apart
        rw [List.pairwise_append]
        refine ⟨(List.pairwise_append.1 h.apart).1, List.pairwise_singleton _ _, ?_⟩
        intro a ha s hs
        rw [List.mem_singleton.1 hs]
        exact hA a ha
      · intro s hs
        rcases List.mem_append.1 hs with hs | hs
        · exact (h.joined s (List.mem_append_left _ hs)).mono fun _ => List.mem_cons_of_mem m
        · rw [List.mem_singleton.1 hs]
          exact hhull
      · intro n hn
        rcases List.mem_cons.1 hn with rfl | hn
        · exact ⟨_, List.mem_append_right _ (List.mem_singleton_self _), hrm, le_max_right _ _⟩
        · obtain ⟨s, hs, hsn, hns⟩ := h.covers n hn
          rcases List.mem_append.1 hs with hs | hs
          · exact ⟨s, List.mem_append_left _ hs, hsn, hns⟩
          · rw [List.mem_singleton.1 hs] at hsn hns
            exact ⟨_, List.mem_append_right _ (List.mem_singleton_self _), hsn, hns.trans (le_max_left _ _)⟩
    · refine h.append hm ?_
      intro s hs
      rcases List.mem_append.1 hs with hs | hs
      · exact (hA s hs).trans hrm
      · rw [List.mem_singleton.1 hs]
        omega

/-! ## In the order of the ends -/

/-- Take the ranges off the top of the stack that reach behind `start`, and the start of their hull. -/
def absorb (start : Nat) : List Range → Nat × List Range
  | [] => (start, [])
  | r :: stack => if start < r.stop then absorb (min start r.start) stack else (start, r :: stack)

/-- A stack of merged ranges and a range that may still overlap them. -/
structure Pending (M : List Range) (p : Range) (stack : List Range) : Prop where
  proper : ∀ m ∈ M, m.start < m.stop
  apart : Apart stack.reverse
  joined : ∀ r ∈ stack, Joined M r
  below : ∀ r ∈ stack, r.stop ≤ p.stop
  pending : Joined M p
  covers : ∀ m ∈ M, ∃ r ∈ p :: stack, r.start ≤ m.start ∧ m.stop ≤ r.stop

theorem Pending.pop {M : List Range} {p r : Range} {stack : List Range} (h : Pending M p (r :: stack))
    (hover : p.start < r.stop) :
    Pending M ⟨min p.start r.start, p.stop⟩ stack := by
  have hr := h.joined r List.mem_cons_self
  have hrp := h.below r List.mem_cons_self
  have hrne := hr.nonempty
  have happart := h.apart
  rw [List.reverse_cons] at happart
  refine ⟨h.proper, (List.pairwise_append.1 happart).1, fun s hs => h.joined s (List.mem_cons_of_mem r hs),
    fun s hs => h.below s (List.mem_cons_of_mem r hs), ?_, ?_⟩
  · have hj := h.pending.hull hr hover (by omega)
    rwa [max_eq_left hrp] at hj
  · intro m hm
    obtain ⟨s, hs, hsm, hms⟩ := h.covers m hm
    rcases List.mem_cons.1 hs with rfl | hs
    · exact ⟨_, List.mem_cons_self, (min_le_left _ _).trans hsm, hms⟩
    · rcases List.mem_cons.1 hs with rfl | hs
      · exact ⟨_, List.mem_cons_self, (min_le_right _ _).trans hsm, hms.trans hrp⟩
      · exact ⟨s, List.mem_cons_of_mem _ hs, hsm, hms⟩

/-- Once the top no longer overlaps, the range goes on the stack. -/
theorem Pending.push {M : List Range} {p : Range} {stack : List Range} (h : Pending M p stack)
    (htop : ∀ r ∈ stack, r.stop ≤ p.start) : Merged M (p :: stack).reverse := by
  rw [List.reverse_cons]
  refine ⟨h.proper, ?_, ?_, ?_⟩
  · unfold Apart
    rw [List.pairwise_append]
    refine ⟨h.apart, List.pairwise_singleton _ _, ?_⟩
    intro r hr s hs
    rw [List.mem_singleton.1 hs]
    exact htop r (List.mem_reverse.1 hr)
  · intro r hr
    rcases List.mem_append.1 hr with hr | hr
    · exact h.joined r (List.mem_reverse.1 hr)
    · rw [List.mem_singleton.1 hr]
      exact h.pending
  · intro m hm
    obtain ⟨r, hr, hrm⟩ := h.covers m hm
    rcases List.mem_cons.1 hr with rfl | hr
    · exact ⟨r, by simp, hrm⟩
    · exact ⟨r, List.mem_append_left _ (List.mem_reverse.2 hr), hrm⟩

theorem Pending.absorb {M : List Range} : ∀ {stack : List Range} {p : Range} (_ : Pending M p stack),
    Merged M (⟨(absorb p.start stack).1, p.stop⟩ :: (absorb p.start stack).2).reverse
  | [], p, h => h.push (by simp)
  | r :: stack, p, h => by
    unfold Lib.absorb
    split_ifs with hover
    · exact (h.pop hover).absorb
    · refine h.push ?_
      intro s hs
      rcases List.mem_cons.1 hs with rfl | hs
      · omega
      · have happart := h.apart
        rw [List.reverse_cons] at happart
        have hsr := (List.pairwise_append.1 happart).2.2 s (List.mem_reverse.2 hs) r (by simp)
        have := (h.joined r List.mem_cons_self).nonempty
        omega

/-- Add a range that ends no earlier than the ranges before; the last one is on top. -/
theorem Merged.absorb {M stack : List Range} (h : Merged M stack.reverse) {m : Range} (hm : m.start < m.stop)
    (hlast : ∀ n ∈ M, n.stop ≤ m.stop) :
    Merged (m :: M) (⟨(absorb m.start stack).1, m.stop⟩ :: (absorb m.start stack).2).reverse := by
  apply Pending.absorb (p := m)
  refine ⟨List.forall_mem_cons.2 ⟨hm, h.proper⟩, h.apart, ?_, ?_, joined_self List.mem_cons_self hm, ?_⟩
  · exact fun r hr => (h.joined r (List.mem_reverse.2 hr)).mono fun _ => List.mem_cons_of_mem m
  · intro r hr
    obtain ⟨n, hn, hstop⟩ := (h.joined r (List.mem_reverse.2 hr)).stops
    rw [← hstop]
    exact hlast n hn
  · intro n hn
    rcases List.mem_cons.1 hn with rfl | hn
    · exact ⟨n, List.mem_cons_self, le_rfl, le_rfl⟩
    · obtain ⟨r, hr, hrn⟩ := h.covers n hn
      exact ⟨r, List.mem_cons_of_mem m (List.mem_reverse.1 hr), hrn⟩

end Anvil.Lib
