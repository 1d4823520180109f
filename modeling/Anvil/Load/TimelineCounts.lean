import Anvil.Load.Timeline

/-!
# What the timeline counts (`anvil-load/src/executor.rs`, `Shared::with_bucket` and `Shared::flush`)

A flush takes the pending buckets of one shard after another, each under that shard's lock, and then writes the
timeline. Other tasks record in between, and a record may be for a bucket that is final.

* `Counter` : the four counts of a bucket; `BucketRecord` : what `with_bucket` is called with;
* `CountState`, `CountStep` : records, and flushes a shard at a time; `flush_reaches` : `flush` is such steps;
* `Balanced` : what was recorded is in the timeline, in the flush under way or pending in a shard;
* `timeline_counts` : after a flush past every recorded bucket the timeline has every record below the cap once.
-/

namespace Anvil.Load
open Anvil.Lib

/-! ## Counters and records -/

inductive Counter where
  | started
  | completed
  | failures
  | dropped
deriving DecidableEq

def Counter.pending : Counter → BucketAccum → Nat
  | .started, b => b.started
  | .completed, b => b.completed
  | .failures, b => b.failures
  | .dropped, b => b.dropped

def Counter.final : Counter → TimeBucket → Nat
  | .started, b => b.started
  | .completed, b => b.completed
  | .failures, b => b.failures
  | .dropped, b => b.dropped

/-- What `begin_send`, `end_send`, `arrival_dropped` and `record_lag` note in a bucket. -/
inductive BucketRecord where
  | started
  | finished (o : SendObservation)
  | dropped
  | lag (us : Nat)

def BucketRecord.apply [HdrLayout] : BucketRecord → BucketAccum → BucketAccum
  | .started, b => { b with started := b.started + 1 }
  | .finished o, b =>
    { b with
      completed := b.completed + (decide (o.terminal = .completed)).toNat
      failures := b.failures + o.isFailure.toNat
      success := if o.isSuccess then addHist b.success o.latencyUs else b.success }
  | .dropped, b => { b with dropped := b.dropped + 1 }
  | .lag us, b => { b with lag := addHist b.lag us }

/-- Whether a record is one of those a counter counts. -/
def BucketRecord.counted : BucketRecord → Counter → Bool
  | .started, c => c = .started
  | .finished o, c => (c = .completed && o.terminal = .completed) || (c = .failures && o.isFailure)
  | .dropped, c => c = .dropped
  | .lag _, _ => false

namespace Counter

@[simp] theorem pending_empty (c : Counter) : c.pending {} = 0 := by cases c <;> rfl

@[simp] theorem pending_merge (c : Counter) (b o : BucketAccum) : c.pending (b.merge o) = c.pending b + c.pending o := by
  cases c <;> rfl

theorem pending_apply [HdrLayout] (c : Counter) (r : BucketRecord) (b : BucketAccum) :
    c.pending (r.apply b) = c.pending b + (r.counted c).toNat := by
  cases r with
  | started => cases c <;> rfl
  | finished o => cases c <;> simp [pending, BucketRecord.apply, BucketRecord.counted]
  | dropped => cases c <;> rfl
  | lag us => cases c <;> rfl

end Counter

/-! ## A shard's part of a flush -/

/-- The pending buckets of one shard below `upto`, added to those of the shards before it. -/
def mergeTaken (upto : Nat) (merged : Std.ExtTreeMap Nat BucketAccum) (g : Shard) : Std.ExtTreeMap Nat BucketAccum :=
  (g.pending.filter fun k _ => k < upto).foldl
    (fun merged k v => merged.alter k fun acc => some ((acc.getD {}).merge v)) merged

/-- What a flush leaves in a shard. -/
def Shard.kept (upto : Nat) (g : Shard) : Shard := { g with pending := g.pending.filter fun k _ => k ≥ upto }

/-- The timeline after a flush that merged `merged`. -/
def writeTimeline [HdrLayout] (cfg : RunConfig) (merged : Std.ExtTreeMap Nat BucketAccum) (l : LedgerState)
    (tl : List TimeBucket) (upto : Nat) : List TimeBucket :=
  Shared.addLate merged tl ++ (List.range' tl.length (upto - tl.length)).map (Shared.finalBucket cfg merged l)

theorem sumBy_mergeAll (c : Counter) (l : List (Nat × BucketAccum)) : ∀ m : Std.ExtTreeMap Nat BucketAccum,
    sumBy c.pending (l.foldl (fun merged e => merged.alter e.1 fun acc => some ((acc.getD {}).merge e.2)) m) =
      sumBy c.pending m + (l.map fun e => c.pending e.2).sum := by
  induction l with
  | nil => intro m; rfl
  | cons e l ih =>
    intro m
    have halter := sumBy_alter c.pending m e.1 fun acc => some ((acc.getD {}).merge e.2)
    rw [List.foldl_cons, ih, List.map_cons, List.sum_cons]
    cases hm : m[e.1]? with
    | none =>
      rw [hm] at halter
      simp only [Option.elim_none, Option.elim_some, Option.getD_none, Counter.pending_merge, Counter.pending_empty] at halter
      omega
    | some acc =>
      rw [hm] at halter
      simp only [Option.elim_some, Option.getD_some, Counter.pending_merge] at halter
      omega

theorem sumBy_mergeTaken (c : Counter) (upto : Nat) (merged : Std.ExtTreeMap Nat BucketAccum) (g : Shard) :
    sumBy c.pending (mergeTaken upto merged g) + sumBy c.pending (g.kept upto).pending =
      sumBy c.pending merged + sumBy c.pending g.pending := by
  have hcut := sumBy_filter_add c.pending g.pending (fun k _ => decide (k < upto)) (fun k _ => decide (k ≥ upto))
    (fun k _ => by rw [← decide_not]; exact decide_eq_decide.2 not_lt.symm)
  rw [mergeTaken, Std.ExtTreeMap.foldl_eq_foldl_toList, sumBy_mergeAll, ← sumBy_eq]
  show _ + sumBy c.pending (g.pending.filter fun k _ => decide (k ≥ upto)) = _
  omega

theorem mem_mergeAll (l : List (Nat × BucketAccum)) : ∀ {m : Std.ExtTreeMap Nat BucketAccum} {k : Nat},
    (l.foldl (fun merged e => merged.alter e.1 fun acc => some ((acc.getD {}).merge e.2)) m)[k]?.isSome →
      m[k]?.isSome ∨ ∃ e ∈ l, e.1 = k := by
  induction l with
  | nil => intro m k h; exact .inl h
  | cons e l ih =>
    intro m k h
    rcases ih h with h | ⟨e', he', hk⟩
    · rw [Std.ExtTreeMap.getElem?_alter] at h
      simp only [Std.LawfulEqOrd.compare_eq_iff_eq] at h
      split_ifs at h with hek
      · exact .inr ⟨e, List.mem_cons_self, hek⟩
      · exact .inl h
    · exact .inr ⟨e', List.mem_cons_of_mem e he', hk⟩

/-- Nothing from `upto` on is taken. -/
theorem mem_mergeTaken {upto : Nat} {merged : Std.ExtTreeMap Nat BucketAccum} {g : Shard} {k : Nat}
    (h : (mergeTaken upto merged g)[k]?.isSome) : merged[k]?.isSome ∨ k < upto := by
  rw [mergeTaken, Std.ExtTreeMap.foldl_eq_foldl_toList] at h
  rcases mem_mergeAll _ h with h | ⟨e, he, rfl⟩
  · exact .inl h
  · rw [Std.ExtTreeMap.toList_filter] at he
    exact .inr (by simpa using (List.mem_filter.1 he).2)

theorem mem_kept {upto : Nat} {g : Shard} {k : Nat} : (g.kept upto).pending[k]?.isSome ↔ g.pending[k]?.isSome ∧ upto ≤ k := by
  show (g.pending.filter fun k _ => k ≥ upto)[k]?.isSome ↔ _
  rw [Std.ExtTreeMap.getElem?_filter']
  cases g.pending[k]? <;> simp

/-! ## Writing the timeline -/

/-- A final bucket with the late counts of `acc`. -/
def TimeBucket.late (b : TimeBucket) : Option BucketAccum → TimeBucket
  | some acc =>
    { b with
      started := b.started + acc.started
      completed := b.completed + acc.completed
      failures := b.failures + acc.failures
      dropped := b.dropped + acc.dropped }
  | none => b

theorem addLate_eq (merged : Std.ExtTreeMap Nat BucketAccum) (tl : List TimeBucket) :
    Shared.addLate merged tl = tl.mapIdx fun k b => b.late merged[k]? := by
  unfold Shared.addLate
  congr 1

theorem Counter.final_late (c : Counter) (b : TimeBucket) (acc : Option BucketAccum) :
    c.final (b.late acc) = c.final b + acc.elim 0 c.pending := by
  cases acc with
  | none => rfl
  | some acc => cases c <;> rfl

/-- Adding `d i` to element `i`. -/
theorem sum_mapIdx {α : Type} (c : α → Nat) (f : Nat → α → α) (d : Nat → Nat) (h : ∀ i a, c (f i a) = c a + d i)
    (l : List α) : ((l.mapIdx f).map c).sum = (l.map c).sum + ((List.range l.length).map d).sum := by
  induction l using List.reverseRecOn with
  | nil => rfl
  | append_singleton l a ih =>
    rw [List.mapIdx_concat, List.length_append, List.length_singleton, List.range_succ]
    simp only [List.map_append, List.sum_append, List.map_singleton, List.sum_singleton, ih, h]
    omega

section Write
variable [HdrLayout] (cfg : RunConfig) {merged : Std.ExtTreeMap Nat BucketAccum} (l : LedgerState) (tl : List TimeBucket)
  {upto : Nat}

theorem final_finalBucket (c : Counter) (k : Nat) :
    c.final (Shared.finalBucket cfg merged l k) = merged[k]?.elim 0 c.pending := by
  unfold Shared.finalBucket
  cases merged[k]? <;> cases c <;> rfl

/-- Every merged count is written once. -/
theorem sum_writeTimeline (c : Counter) (hm : ∀ k, merged[k]?.isSome → k < upto) :
    ((writeTimeline cfg merged l tl upto).map c.final).sum = (tl.map c.final).sum + sumBy c.pending merged := by
  have hbelow : ∀ k, merged[k]?.isSome → k < tl.length + (upto - tl.length) := by
    intro k hk
    have := hm k hk
    omega
  have hnew : ((List.range' tl.length (upto - tl.length)).map fun k => c.final (Shared.finalBucket cfg merged l k)) =
      (List.range' tl.length (upto - tl.length)).map fun k => merged[k]?.elim 0 c.pending :=
    List.map_congr_left fun k _ => final_finalBucket cfg l c k
  have hrange : List.range (tl.length + (upto - tl.length)) =
      List.range tl.length ++ List.range' tl.length (upto - tl.length) := by
    rw [List.range_eq_range', List.range_eq_range', ← List.range'_append_1, Nat.zero_add]
  rw [writeTimeline, List.map_append, List.sum_append, addLate_eq,
    sum_mapIdx c.final _ (fun k => merged[k]?.elim 0 c.pending) fun k b => c.final_late b merged[k]?,
    List.map_map, Function.comp_def, hnew,
    sumBy_eq_sum_range c.pending _ merged hbelow, hrange, List.map_append, List.sum_append, Nat.add_assoc]

/-- What a timeline becomes: entries stay, with their counts no smaller and the rest as it was. -/
def Grows (tl tl' : List TimeBucket) : Prop :=
  ∀ (i : Nat) (b : TimeBucket), tl[i]? = some b → ∃ b', tl'[i]? = some b' ∧ (∀ c : Counter, c.final b ≤ c.final b') ∧
    b' = { b with
      started := b'.started
      completed := b'.completed
      failures := b'.failures
      dropped := b'.dropped }

omit [HdrLayout] in
theorem Grows.refl (tl : List TimeBucket) : Grows tl tl := fun _ b hb => ⟨b, hb, fun _ => le_rfl, rfl⟩

omit [HdrLayout] in
theorem Grows.trans {tl₁ tl₂ tl₃ : List TimeBucket} (h : Grows tl₁ tl₂) (h' : Grows tl₂ tl₃) : Grows tl₁ tl₃ := by
  intro i b hb
  obtain ⟨b₂, hb₂, hle, heq⟩ := h i b hb
  obtain ⟨b₃, hb₃, hle', heq'⟩ := h' i b₂ hb₂
  refine ⟨b₃, hb₃, fun c => (hle c).trans (hle' c), ?_⟩
  rw [heq', heq]

theorem getElem?_writeTimeline (i : Nat) : (writeTimeline cfg merged l tl upto)[i]? =
    if i < tl.length then (Shared.addLate merged tl)[i]?
    else if i < upto then some (Shared.finalBucket cfg merged l i) else none := by
  have hlen : (Shared.addLate merged tl).length = tl.length := List.length_mapIdx
  rw [writeTimeline]
  split_ifs with h₁ h₂
  · rw [List.getElem?_append_left (hlen.symm ▸ h₁)]
  · rw [List.getElem?_append_right (hlen.symm ▸ not_lt.1 h₁), hlen, List.getElem?_map, List.getElem?_range' (by omega),
      Option.map_some, Nat.one_mul, Nat.add_sub_cancel' (not_lt.1 h₁)]
  · rw [List.getElem?_append_right (hlen.symm ▸ not_lt.1 h₁), hlen, List.getElem?_eq_none]
    rw [List.length_map, List.length_range']
    omega

theorem grows_writeTimeline : Grows tl (writeTimeline cfg merged l tl upto) := by
  intro i b hb
  have hi : i < tl.length := (List.getElem?_eq_some_iff.1 hb).1
  rw [getElem?_writeTimeline, if_pos hi, addLate_eq, List.getElem?_mapIdx, hb]
  refine ⟨b.late merged[i]?, rfl, fun c => ?_, ?_⟩
  · rw [c.final_late]
    exact Nat.le_add_right _ _
  · cases merged[i]? <;> rfl

/-- Entry `i` begins where bucket `i` does. -/
theorem second_writeTimeline (h : ∀ (i : Nat) (b : TimeBucket), tl[i]? = some b → b.second = i * cfg.bucketWidthSecs)
    (i : Nat) (b : TimeBucket) (hb : (writeTimeline cfg merged l tl upto)[i]? = some b) :
    b.second = i * cfg.bucketWidthSecs := by
  rcases lt_or_ge i tl.length with hi | hi
  · obtain ⟨b', hb', -, heq⟩ := grows_writeTimeline cfg l tl i _ (List.getElem?_eq_getElem hi)
    rw [hb] at hb'
    rw [Option.some.inj hb', heq]
    exact h i tl[i] (List.getElem?_eq_getElem hi)
  · rw [getElem?_writeTimeline, if_neg (not_lt.2 hi)] at hb
    split_ifs at hb
    rw [← Option.some.inj hb]
    rfl

end Write

/-! ## Records and flushes -/

/-- A flush under way: the first `taken` shards have given their buckets below `upto`. -/
structure Flushing where
  upto : Nat
  taken : Nat := 0
  merged : Std.ExtTreeMap Nat BucketAccum := ∅

/-- A run as the timeline's counts see it; `log` has every record with its bucket. -/
structure CountState where
  shared : Shared
  tl : List TimeBucket := []
  log : List (Nat × BucketRecord) := []
  flushing : Option Flushing := none

section Steps
variable [HdrLayout] (cfg : RunConfig)

/-- One step, with the record it makes, if any. Indexing no shard traps; the tasks change the ledger and the shards'
metrics as they like; the ticker flushes once at a time. -/
inductive CountStep (s : CountState) : Option (Nat × BucketRecord) → CountState → Prop
  | record (slot b : Nat) (r : BucketRecord) : s.shared.shards ≠ [] →
      CountStep s (some (b, r)) { s with shared := s.shared.withBucket slot b r.apply, log := s.log ++ [(b, r)] }
  | ledger (l : LedgerState) : CountStep s none { s with shared := { s.shared with ledger := l } }
  | measure (slot : Nat) (f : Metrics → Metrics) :
      CountStep s none { s with shared := { s.shared with
        shards := s.shared.shards.modify slot fun g => { g with metrics := f g.metrics } } }
  | beginFlush (upto : Nat) : s.flushing = none →
      CountStep s none { s with flushing := some { upto := Nat.min upto maxTimelineBuckets } }
  | takeShard {f : Flushing} {g : Shard} : s.flushing = some f → s.shared.shards[f.taken]? = some g →
      CountStep s none { s with
        shared := { s.shared with shards := s.shared.shards.set f.taken (g.kept f.upto) }
        flushing := some { f with taken := f.taken + 1, merged := mergeTaken f.upto f.merged g } }
  | endFlush {f : Flushing} : s.flushing = some f → f.taken = s.shared.shards.length →
      CountStep s none { s with
        shared := { s.shared with ledger := s.shared.ledger.keepPeaks f.upto }
        tl := writeTimeline cfg f.merged s.shared.ledger s.tl f.upto
        flushing := none }

/-- A run of the tasks and the ticker. -/
abbrev Counts : CountState → CountState → Prop := Reaches fun s t => ∃ e, CountStep cfg s e t

/-- A run that records nothing. -/
abbrev Quiet : CountState → CountState → Prop := Reaches fun s t => CountStep cfg s none t

theorem Quiet.counts {cfg : RunConfig} {s t : CountState} (h : Quiet cfg s t) : Counts cfg s t := by
  induction h with
  | refl => exact .refl
  | tail _ hst ih => exact ih.tail ⟨none, hst⟩

end Steps

/-- `n` shards, nothing recorded. -/
def CountState.init (n : Nat) : CountState := { shared := { shards := List.replicate n {} } }

/-- The records below the cap that a counter counts. -/
def CountState.recorded (s : CountState) (c : Counter) : Nat :=
  s.log.countP fun e => decide (e.1 < maxTimelineBuckets) && e.2.counted c

/-- The records that wait in the shards. -/
def CountState.waiting (s : CountState) (c : Counter) : Nat :=
  (s.shared.shards.map fun g => sumBy c.pending g.pending).sum

/-- The records that the flush under way has taken. -/
def CountState.taken (s : CountState) (c : Counter) : Nat := s.flushing.elim 0 fun f => sumBy c.pending f.merged

/-! ## What a step does to the shards -/

theorem map_modify_same {α β : Type} (h : α → β) {f : α → α} (hf : ∀ a, h (f a) = h a) (l : List α) (i : Nat) :
    (l.modify i f).map h = l.map h := by
  apply List.ext_getElem?
  intro j
  rw [List.getElem?_map, List.getElem?_map, List.getElem?_modify]
  cases l[j]? with
  | none => rfl
  | some a => by_cases hij : i = j <;> simp [hij, hf]

theorem sum_set_shard (c : Counter) {shards : List Shard} {i : Nat} {g : Shard} (h : shards[i]? = some g) (g' : Shard) :
    ((shards.set i g').map fun g => sumBy c.pending g.pending).sum + sumBy c.pending g.pending =
      (shards.map fun g => sumBy c.pending g.pending).sum + sumBy c.pending g'.pending := by
  rw [sum_eq_add_others _ h, sum_set_eq_add_others _ (List.getElem?_eq_some_iff.1 h).1]
  omega

theorem Shared.withBucket_of_le {sh : Shared} {slot b : Nat} {f : BucketAccum → BucketAccum} (h : maxTimelineBuckets ≤ b) :
    sh.withBucket slot b f = { sh with timelineTruncated := true } := if_pos h

/-- Below the cap one shard's bucket changes. -/
theorem Shared.withBucket_of_lt {sh : Shared} (slot : Nat) {b : Nat} (f : BucketAccum → BucketAccum)
    (hb : b < maxTimelineBuckets) (hne : sh.shards ≠ []) : ∃ i g, sh.shards[i]? = some g ∧ sh.withBucket slot b f =
      { sh with shards := sh.shards.set i { g with pending := g.pending.alter b fun acc => some (f (acc.getD {})) } } := by
  have hi : slot % sh.shards.length < sh.shards.length := Nat.mod_lt _ (List.length_pos_of_ne_nil hne)
  refine ⟨slot % sh.shards.length, sh.shards[slot % sh.shards.length], List.getElem?_eq_getElem hi, ?_⟩
  rw [Shared.withBucket, if_neg (not_le.2 hb), List.modify_eq_set_getElem?, List.getElem?_eq_getElem hi]
  rfl

theorem sumBy_record [HdrLayout] (c : Counter) (r : BucketRecord) (m : Std.ExtTreeMap Nat BucketAccum) (b : Nat) :
    sumBy c.pending (m.alter b fun acc => some (r.apply (acc.getD {}))) = sumBy c.pending m + (r.counted c).toNat := by
  have halter := sumBy_alter c.pending m b fun acc => some (r.apply (acc.getD {}))
  cases hm : m[b]? with
  | none =>
    rw [hm] at halter
    simp only [Option.elim_none, Option.elim_some, Option.getD_none, Counter.pending_apply, Counter.pending_empty] at halter
    omega
  | some acc =>
    rw [hm] at halter
    simp only [Option.elim_some, Option.getD_some, Counter.pending_apply] at halter
    omega

/-! ## The run's functions are such steps -/

section Refines
variable [HdrLayout] (cfg : RunConfig) {s : CountState}

/-- The first `n` shards of a flush. -/
theorem take_reaches (upto : Nat) : ∀ n ≤ s.shared.shards.length, Quiet cfg { s with flushing := some { upto } } { s with
    shared := { s.shared with
      shards := (s.shared.shards.take n).map (Shard.kept upto) ++ s.shared.shards.drop n }
    flushing := some { upto, taken := n, merged := (s.shared.shards.take n).foldl (mergeTaken upto) ∅ } } := by
  intro n
  induction n with
  | zero => exact fun _ => .refl
  | succ n ih =>
    intro hn
    have hlt : n < s.shared.shards.length := hn
    have hlen : ((s.shared.shards.take n).map (Shard.kept upto)).length = n := by
      rw [List.length_map, List.length_take, Nat.min_eq_left hlt.le]
    have hget : ((s.shared.shards.take n).map (Shard.kept upto) ++ s.shared.shards.drop n)[n]? =
        some s.shared.shards[n] := by
      rw [List.getElem?_append_right hlen.le, hlen, Nat.sub_self, List.getElem?_drop, Nat.add_zero,
        List.getElem?_eq_getElem hlt]
    have hset : ((s.shared.shards.take n).map (Shard.kept upto) ++ s.shared.shards.drop n).set n
        (s.shared.shards[n].kept upto) =
          (s.shared.shards.take (n + 1)).map (Shard.kept upto) ++ s.shared.shards.drop (n + 1) := by
      rw [List.set_append_right _ _ hlen.le, hlen, Nat.sub_self, List.drop_eq_getElem_cons hlt, List.set_cons_zero,
        List.take_succ_eq_append_getElem hlt, List.map_append, List.append_assoc]
      rfl
    have hmerged : mergeTaken upto ((s.shared.shards.take n).foldl (mergeTaken upto) ∅) s.shared.shards[n] =
        (s.shared.shards.take (n + 1)).foldl (mergeTaken upto) ∅ := by
      rw [List.take_succ_eq_append_getElem hlt, List.foldl_append]
      rfl
    rw [← hset, ← hmerged]
    exact (ih hlt.le).tail (.takeShard (f := ⟨upto, n, _⟩) (g := s.shared.shards[n]) rfl hget)

/-- **A flush that nothing is recorded during.** -/
theorem flush_reaches (upto : Nat) :
    Quiet cfg { s with flushing := some { upto := Nat.min upto maxTimelineBuckets } } { s with
    shared := (s.shared.flush cfg s.tl upto).1, tl := (s.shared.flush cfg s.tl upto).2, flushing := none } := by
  have htaken := take_reaches cfg (s := s) (Nat.min upto maxTimelineBuckets) s.shared.shards.length le_rfl
  rw [List.take_length, List.drop_length, List.append_nil] at htaken
  have hall : s.shared.shards.length = (s.shared.shards.map (Shard.kept (Nat.min upto maxTimelineBuckets))).length := by
    rw [List.length_map]
  have hended := htaken.tail (.endFlush rfl hall)
  exact hended

end Refines

/-! ## Every record is somewhere -/

/-- A bucket that waits in shard `i`. -/
def CountState.Waits (s : CountState) (i k : Nat) : Prop := ∃ g, s.shared.shards[i]? = some g ∧ g.pending[k]?.isSome

structure Balanced (cfg : RunConfig) (s : CountState) : Prop where
  counted : ∀ c : Counter, (s.tl.map c.final).sum + s.taken c + s.waiting c = s.recorded c
  waits : ∀ i k, s.Waits i k → k < maxTimelineBuckets ∧ ∃ e ∈ s.log, e.1 = k
  merging : ∀ f, s.flushing = some f → ∀ k, f.merged[k]?.isSome → k < f.upto
  seconds : ∀ (i : Nat) (b : TimeBucket), s.tl[i]? = some b → b.second = i * cfg.bucketWidthSecs

section Invariant
variable [HdrLayout] {cfg : RunConfig} {s t : CountState}

/-- A bucket that waits after a step waited before, or was just recorded. -/
theorem CountStep.waits {e : Option (Nat × BucketRecord)} (h : CountStep cfg s e t) {i k : Nat} (hw : t.Waits i k) :
    s.Waits i k ∨ k < maxTimelineBuckets ∧ ∃ r, e = some (k, r) := by
  obtain ⟨g, hg, hk⟩ := hw
  cases h with
  | record slot b r hne =>
    rcases lt_or_ge b maxTimelineBuckets with hb | hb
    · obtain ⟨j, g₀, hg₀, hwith⟩ := Shared.withBucket_of_lt slot r.apply hb hne
      simp only [hwith, List.getElem?_set] at hg
      split_ifs at hg with hji hlt
      · rw [← Option.some.inj hg, Std.ExtTreeMap.getElem?_alter] at hk
        simp only [Std.LawfulEqOrd.compare_eq_iff_eq] at hk
        split_ifs at hk with hbk
        · exact .inr ⟨hbk ▸ hb, r, by rw [hbk]⟩
        · exact .inl ⟨g₀, hji ▸ hg₀, hk⟩
      · exact .inl ⟨g, hg, hk⟩
    · rw [Shared.withBucket_of_le hb] at hg
      exact .inl ⟨g, hg, hk⟩
  | ledger l => exact .inl ⟨g, hg, hk⟩
  | measure slot f =>
    simp only [List.getElem?_modify, Option.map_eq_map, Option.map_eq_some_iff] at hg
    obtain ⟨g₀, hg₀, rfl⟩ := hg
    refine .inl ⟨g₀, hg₀, ?_⟩
    split_ifs at hk <;> exact hk
  | beginFlush upto _ => exact .inl ⟨g, hg, hk⟩
  | @takeShard f g₀ _ hg₀ =>
    simp only [List.getElem?_set] at hg
    split_ifs at hg with hji hlt
    · rw [← Option.some.inj hg] at hk
      exact .inl ⟨g₀, hji ▸ hg₀, (mem_kept.1 hk).1⟩
    · exact .inl ⟨g, hg, hk⟩
  | endFlush _ _ => exact .inl ⟨g, hg, hk⟩

omit [HdrLayout] in
theorem recorded_append (s : CountState) (c : Counter) (b : Nat) (r : BucketRecord) :
    CountState.recorded { s with log := s.log ++ [(b, r)] } c =
      s.recorded c + if b < maxTimelineBuckets then (r.counted c).toNat else 0 := by
  unfold CountState.recorded
  rw [List.countP_append, List.countP_singleton]
  by_cases hb : b < maxTimelineBuckets <;> cases r.counted c <;> simp [hb]

theorem Balanced.step {e : Option (Nat × BucketRecord)} (hs : Balanced cfg s) (h : CountStep cfg s e t) :
    Balanced cfg t := by
  have hwaits : ∀ i k, t.Waits i k → k < maxTimelineBuckets ∧ ∃ x ∈ t.log, x.1 = k := by
    intro i k hw
    have hlog : t.log = s.log ++ e.toList := by cases h <;> simp
    rw [hlog]
    rcases h.waits hw with hold | ⟨hk, r, rfl⟩
    · obtain ⟨hk, x, hx, hxk⟩ := hs.waits i k hold
      exact ⟨hk, x, List.mem_append_left _ hx, hxk⟩
    · exact ⟨hk, (k, r), by simp, rfl⟩
  cases h with
  | record slot b r hne =>
    refine ⟨fun c => ?_, hwaits, hs.merging, hs.seconds⟩
    have hc := hs.counted c
    have hrec := recorded_append { s with shared := s.shared.withBucket slot b r.apply } c b r
    simp only [CountState.taken, CountState.waiting] at hc ⊢
    simp only [CountState.recorded] at hc hrec ⊢
    rw [hrec]
    rcases lt_or_ge b maxTimelineBuckets with hb | hb
    · obtain ⟨i, g, hg, hwith⟩ := Shared.withBucket_of_lt slot r.apply hb hne
      have hset := sum_set_shard c hg { g with
        pending := g.pending.alter b fun acc => some (r.apply (acc.getD {})) }
      rw [sumBy_record] at hset
      rw [if_pos hb, hwith]
      simp only
      omega
    · rw [if_neg (not_lt.2 hb), Shared.withBucket_of_le hb]
      exact hc
  | ledger l => exact ⟨hs.counted, hwaits, hs.merging, hs.seconds⟩
  | measure slot f =>
    refine ⟨fun c => ?_, hwaits, hs.merging, hs.seconds⟩
    have hc := hs.counted c
    simp only [CountState.waiting] at hc ⊢
    have hsame := map_modify_same (fun g : Shard => sumBy c.pending g.pending)
      (f := fun g => { g with metrics := f g.metrics })
      (fun _ => rfl) s.shared.shards slot
    rw [hsame]
    exact hc
  | beginFlush upto hnone =>
    refine ⟨fun c => ?_, hwaits, fun f hf k hk => ?_, hs.seconds⟩
    · have hc := hs.counted c
      simp only [CountState.taken, hnone] at hc
      exact hc
    · rw [← Option.some.inj hf] at hk
      simp at hk
  | @takeShard f g hf hg =>
    refine ⟨fun c => ?_, hwaits, fun f' hf' k hk => ?_, hs.seconds⟩
    · have hc := hs.counted c
      have hset := sum_set_shard c hg (g.kept f.upto)
      have htake := sumBy_mergeTaken c f.upto f.merged g
      simp only [CountState.taken, CountState.waiting, hf, Option.elim_some] at hc ⊢
      simp only [CountState.recorded] at hc ⊢
      omega
    · rw [← Option.some.inj hf'] at hk ⊢
      rcases mem_mergeTaken hk with hk | hk
      · exact hs.merging f hf k hk
      · exact hk
  | @endFlush f hf hall =>
    refine ⟨fun c => ?_, hwaits, fun f' hf' => ?_, ?_⟩
    · have hc := hs.counted c
      have hsum := sum_writeTimeline cfg s.shared.ledger s.tl c (hs.merging f hf)
      simp only [CountState.taken, hf, Option.elim_some, Option.elim_none] at hc ⊢
      rw [hsum]
      exact hc
    · cases hf'
    · exact second_writeTimeline cfg s.shared.ledger s.tl hs.seconds

/-- The timeline only grows. -/
theorem grows_step {e : Option (Nat × BucketRecord)} (h : CountStep cfg s e t) : Grows s.tl t.tl := by
  cases h with
  | @endFlush f _ _ => exact grows_writeTimeline cfg s.shared.ledger s.tl
  | _ => exact .refl s.tl

theorem grows_reaches (h : Counts cfg s t) : Grows s.tl t.tl := by
  induction h with
  | refl => exact .refl s.tl
  | tail _ hst ih =>
    obtain ⟨e, hst⟩ := hst
    exact ih.trans (grows_step hst)

omit [HdrLayout] in
theorem init_balanced (n : Nat) : Balanced cfg (.init n) where
  counted c := by
    simp [CountState.init, CountState.taken, CountState.waiting, CountState.recorded]
  waits i k := by
    rintro ⟨g, hg, hk⟩
    rw [List.eq_of_mem_replicate (List.mem_of_getElem? hg)] at hk
    simp at hk
  merging f hf := by cases hf
  seconds i b hb := by simp [CountState.init] at hb

/-! ## The last flush -/

/-- Every bucket that waits is in a shard that the flush under way is still to take it from. -/
def CountState.Draining (s : CountState) : Prop :=
  ∀ i k, s.Waits i k → ∃ f, s.flushing = some f ∧ f.taken ≤ i ∧ k < f.upto

theorem draining_step (hs : s.Draining) (h : CountStep cfg s none t) : t.Draining := by
  intro i k hw
  have hold : s.Waits i k := (h.waits hw).resolve_right (by simp)
  obtain ⟨f, hf, hi, hk⟩ := hs i k hold
  generalize he : (none : Option (Nat × BucketRecord)) = e at h
  cases h with
  | record => cases he
  | ledger l => exact ⟨f, hf, hi, hk⟩
  | measure slot f' => exact ⟨f, hf, hi, hk⟩
  | beginFlush upto hnone =>
    rw [hnone] at hf
    cases hf
  | @takeShard f' g hf' hg =>
    obtain rfl : f' = f := Option.some.inj (hf'.symm.trans hf)
    refine ⟨_, rfl, ?_, hk⟩
    -- the shard just taken keeps nothing below the bound
    rcases Nat.lt_or_eq_of_le hi with hlt | rfl
    · exact hlt
    · obtain ⟨g', hg', hk'⟩ := hw
      simp only [List.getElem?_set_self (List.getElem?_eq_some_iff.1 hg).1, Option.some.injEq] at hg'
      rw [← hg'] at hk'
      exact absurd hk (not_lt.2 (mem_kept.1 hk').2)
  | @endFlush f' hf' hall =>
    obtain rfl : f' = f := Option.some.inj (hf'.symm.trans hf)
    obtain ⟨g, hg, -⟩ := hold
    have hlt : i < s.shared.shards.length := (List.getElem?_eq_some_iff.1 hg).1
    omega

omit [HdrLayout] in
theorem waiting_eq_zero (h : ∀ i k, ¬ s.Waits i k) (c : Counter) : s.waiting c = 0 := by
  refine List.sum_eq_zero fun x hx => ?_
  obtain ⟨g, hg, rfl⟩ := List.mem_map.1 hx
  obtain ⟨i, hi⟩ := List.mem_iff_getElem?.1 hg
  have hempty : g.pending = ∅ := Std.ExtTreeMap.ext_getElem? fun k => by
    rw [Std.ExtTreeMap.getElem?_empty, ← Option.not_isSome_iff_eq_none]
    exact fun hk => h i k ⟨g, hi, hk⟩
  rw [hempty]
  rfl

/-- **In any run of records into any number of shards and of flushes, entry `i` of the timeline begins at `i` bucket widths,
the timeline only grows, and once a flush past every recorded bucket has ended with nothing recorded since it began, each
count of the timeline sums to the number of its records below the cap.** -/
theorem timeline_counts {n : Nat} (hr : Counts cfg (.init n) s) :
    (∀ (i : Nat) (b : TimeBucket), s.tl[i]? = some b → b.second = i * cfg.bucketWidthSecs) ∧
    (∀ t, Counts cfg s t → Grows s.tl t.tl) ∧
    ∀ upto, (∀ e ∈ s.log, e.1 < upto) → s.flushing = none →
      ∀ t, Quiet cfg { s with flushing := some { upto := Nat.min upto maxTimelineBuckets } } t → t.flushing = none →
        ∀ c : Counter, (t.tl.map c.final).sum =
          s.log.countP fun e => decide (e.1 < maxTimelineBuckets) && e.2.counted c := by
  have hbal : ∀ {t}, Counts cfg (.init n) t → Balanced cfg t := fun hr =>
    Reaches.inv (Balanced cfg) (fun _ _ ⟨_, h⟩ hs => hs.step h) hr (init_balanced n)
  have hs := hbal hr
  refine ⟨hs.seconds, fun t => grows_reaches, fun upto hpast hidle t hquiet hdone c => ?_⟩
  have hdrain : CountState.Draining { s with flushing := some { upto := Nat.min upto maxTimelineBuckets } } := by
    intro i k hw
    obtain ⟨hk, e, he, rfl⟩ := hs.waits i k hw
    exact ⟨_, rfl, Nat.zero_le i, lt_min (hpast e he) hk⟩
  have hnone : ∀ i k, ¬ t.Waits i k := by
    intro i k hw
    obtain ⟨f, hf, -⟩ := Reaches.inv CountState.Draining (fun _ _ h hs => draining_step hs h) hquiet hdrain i k hw
    rw [hdone] at hf
    cases hf
  have hlog : t.log = s.log := by
    refine Reaches.inv (fun t => t.log = s.log) (fun a b h ha => ?_) hquiet rfl
    generalize he : (none : Option (Nat × BucketRecord)) = e at h
    cases h with
    | record => cases he
    | _ => exact ha
  have hcounts : Counts cfg s t :=
    .trans (.single ⟨none, .beginFlush upto hidle⟩) hquiet.counts
  have hbalanced := (hbal (hr.trans hcounts)).counted c
  rw [waiting_eq_zero hnone, CountState.taken, hdone] at hbalanced
  rw [← hlog]
  exact hbalanced

end Invariant

/-- A bucket that is final gets a late record from the other shard. -/
theorem timeline_counts_late : ∃ s, @Counts unitLayout plainConfig (.init 2) s ∧ s.tl.map TimeBucket.started = [1] ∧
    s.log = [(0, .started), (0, .dropped)] ∧ ∀ c : Counter,
      ((@Shared.flush unitLayout plainConfig s.shared s.tl 1).2.map c.final).sum =
        s.log.countP fun e => decide (e.1 < maxTimelineBuckets) && e.2.counted c := by
  have h₁ : @Counts unitLayout plainConfig (.init 2) _ :=
    .single ⟨_, @CountStep.record unitLayout plainConfig _ 0 0 .started (List.ne_nil_of_length_pos (by decide))⟩
  have h₂ : @Counts unitLayout plainConfig (.init 2) _ :=
    (h₁.tail ⟨_, @CountStep.beginFlush unitLayout plainConfig _ 1 rfl⟩).trans
      (@Quiet.counts unitLayout _ _ _ (@flush_reaches unitLayout plainConfig _ 1))
  have h₃ : @Counts unitLayout plainConfig (.init 2) _ :=
    h₂.tail ⟨_, @CountStep.record unitLayout plainConfig _ 1 0 .dropped (List.ne_nil_of_length_pos (by decide))⟩
  refine ⟨_, h₃, by decide +kernel, rfl, ?_⟩
  exact (@timeline_counts unitLayout plainConfig _ 2 h₃).2.2 1 (by simp [CountState.init]) rfl _
    (@flush_reaches unitLayout plainConfig _ 1) rfl

end Anvil.Load
