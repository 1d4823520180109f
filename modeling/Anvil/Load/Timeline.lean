import Anvil.Load.Ledger
import Anvil.Load.Metrics

/-!
# The timeline of a run (`anvil-load/src/executor.rs`, `Shared`)

`Shared` holds the shards and the ledger. Sends note their begin and end in the ledger's peaks (`notePeak`) and in
the pending buckets of their shard; `flush` turns the buckets below a bound into `TimeBucket`s.

* `flush_length`, `flush_inFlight` : what a flush finalizes;
* `TlState`, `tlStep` : sends and flushes on a clock of timeline buckets, with every change of the number of sends in
  flight in `history`; `trueMax` : the most sends in flight in a bucket, read from that history;
* `TlEvent.Noted` : the event is not in a bucket past the cap while a bucket below the cap still waits for the count
  it would carry;
* `timeline_exact` : in a run of such events every finalized bucket has its true maximum;
  `timeline_cap_drops_carry` : a run of other events where one does not.
-/

set_option linter.unusedSectionVars false

namespace Anvil.Load
open Anvil.Lib

/-! ## Buckets and shards -/

structure BucketAccum where
  started : Nat := 0
  completed : Nat := 0
  failures : Nat := 0
  dropped : Nat := 0
  success : Option (Histogram secondarySigfig) := none
  lag : Option (Histogram secondarySigfig) := none

def addHist [HdrLayout] (slot : Option (Histogram secondarySigfig)) (v : Nat) : Option (Histogram secondarySigfig) :=
  some ((slot.getD {}).saturatingRecord (Nat.max 1 (Nat.min v latencyMaxUs)))

def mergeHist : Option (Histogram secondarySigfig) → Option (Histogram secondarySigfig) →
    Option (Histogram secondarySigfig)
  | some a, some b => some (a.add b)
  | none, some b => some b
  | slot, none => slot

def BucketAccum.merge (b o : BucketAccum) : BucketAccum where
  started := b.started + o.started
  completed := b.completed + o.completed
  failures := b.failures + o.failures
  dropped := b.dropped + o.dropped
  success := mergeHist b.success o.success
  lag := mergeHist b.lag o.lag

structure Shard where
  metrics : Metrics := {}
  pending : Std.ExtTreeMap Nat BucketAccum := ∅

/-- The fields of `Shared` that the run changes. -/
structure Shared where
  shards : List Shard
  ledger : LedgerState := {}
  timelineTruncated : Bool := false

/-- The fields of `Shared` that are fixed. -/
structure RunConfig where
  bucketWidthSecs : Nat
  warmupSecs : Nat
  abort : Option AbortRule
deriving DecidableEq

structure TimeBucket where
  second : Nat
  started : Nat
  completed : Nat
  failures : Nat
  dropped : Nat
  p50Us : Nat
  p99Us : Nat
  inFlight : Nat
  warmup : Bool
  p99ScheduleLagUs : Nat
deriving DecidableEq

namespace Shared
variable [HdrLayout]

omit [HdrLayout] in
/-- Shard `slot % shards.len()` updated in bucket `b`. -/
def withBucket (sh : Shared) (slot b : Nat) (f : BucketAccum → BucketAccum) : Shared :=
  if b ≥ maxTimelineBuckets then { sh with timelineTruncated := true }
  else
    { sh with
      shards := sh.shards.modify (slot % sh.shards.length) fun g =>
        { g with pending := g.pending.alter b fun acc => some (f (acc.getD {})) } }

omit [HdrLayout] in
/-- `begin_send`: `now` is the bucket read before the ledger lock, `bucket` the one read under it. -/
def beginSend (sh : Shared) (slot : Nat) (measured : Bool) (now bucket : Nat) : Shared :=
  let sh := { sh with ledger := sh.ledger.beginSend measured bucket }
  sh.withBucket slot now fun b => { b with started := b.started + 1 }

/-- What `end_send` does to its shard after the ledger. -/
def finishSend (sh : Shared) (slot : Nat) (measured : Bool) (now : Nat) (o : SendObservation) : Shared :=
  let sh := if measured then
      { sh with shards := sh.shards.modify (slot % sh.shards.length) fun g => { g with metrics := g.metrics.record o } }
    else sh
  sh.withBucket slot now fun b =>
    { b with
      completed := b.completed + (decide (o.terminal = .completed)).toNat
      failures := b.failures + o.isFailure.toNat
      success := if o.isSuccess then addHist b.success o.latencyUs else b.success }

/-- `end_send`; `sec` is the second read before the locks. -/
def endSend (cfg : RunConfig) (sh : Shared) (slot : Nat) (measured : Bool) (now bucket sec : Nat)
    (o : SendObservation) : Option Shared := do
  let ledger ← sh.ledger.endSend cfg.abort measured bucket sec o
  some (finishSend { sh with ledger } slot measured now o)

/-! ## `flush` -/

omit [HdrLayout] in
/-- The pending buckets below `upto` of every shard, merged. -/
def takePending (shards : List Shard) (upto : Nat) : Std.ExtTreeMap Nat BucketAccum :=
  shards.foldl (fun merged g => (g.pending.filter fun k _ => k < upto).foldl
    (fun merged k v => merged.alter k fun acc => some ((acc.getD {}).merge v)) merged) ∅

omit [HdrLayout] in
/-- Late records for finalized buckets: counts only. -/
def addLate (merged : Std.ExtTreeMap Nat BucketAccum) (tl : List TimeBucket) : List TimeBucket :=
  tl.mapIdx fun k b => match merged[k]? with
    | some acc =>
      { b with
        started := b.started + acc.started
        completed := b.completed + acc.completed
        failures := b.failures + acc.failures
        dropped := b.dropped + acc.dropped }
    | none => b

omit [HdrLayout] in
/-- The peak of bucket `idx`, or the sends still in flight when the last event came before it. -/
def peakOf (l : LedgerState) (idx : Nat) : Nat :=
  l.peaks[idx]?.getD (if l.lastPeakBucket.any fun last => idx > last then l.sendInFlightTotal else 0)

def finalBucket (cfg : RunConfig) (merged : Std.ExtTreeMap Nat BucketAccum) (l : LedgerState) (idx : Nat) :
    TimeBucket :=
  let acc := merged[idx]?.getD {}
  let second := idx * cfg.bucketWidthSecs
  let q := fun (h : Option (Histogram secondarySigfig)) p => (h.map fun h => HdrLayout.valueAtQuantile h p).getD 0
  { second
    started := acc.started
    completed := acc.completed
    failures := acc.failures
    dropped := acc.dropped
    p50Us := q acc.success 500
    p99Us := q acc.success 990
    inFlight := peakOf l idx
    warmup := second < cfg.warmupSecs
    p99ScheduleLagUs := q acc.lag 990 }

/-- Finalize the timeline buckets with index below `upto`. -/
def flush (cfg : RunConfig) (sh : Shared) (tl : List TimeBucket) (upto : Nat) : Shared × List TimeBucket :=
  let upto := Nat.min upto maxTimelineBuckets
  let merged := takePending sh.shards upto
  let shards := sh.shards.map fun g => { g with pending := g.pending.filter fun k _ => k ≥ upto }
  let ledger := sh.ledger.keepPeaks upto
  ({ sh with shards, ledger },
    addLate merged tl ++
      (List.range' tl.length (upto - tl.length)).map (finalBucket cfg merged sh.ledger))

theorem flush_length (cfg : RunConfig) (sh : Shared) (tl : List TimeBucket) (upto : Nat) :
    (flush cfg sh tl upto).2.length = Nat.max tl.length (Nat.min upto maxTimelineBuckets) := by
  show (addLate _ tl ++ (List.range' tl.length (Nat.min upto maxTimelineBuckets - tl.length)).map _).length = _
  rw [List.length_append, List.length_map, List.length_range', addLate, List.length_mapIdx]
  show _ = max _ _
  omega

/-- A bucket that was final keeps its value; a new one gets its peak. -/
theorem flush_inFlight (cfg : RunConfig) (sh : Shared) (tl : List TimeBucket) (upto k : Nat) :
    (flush cfg sh tl upto).2[k]?.map TimeBucket.inFlight =
      if k < tl.length then tl[k]?.map TimeBucket.inFlight
      else if k < Nat.min upto maxTimelineBuckets then some (peakOf sh.ledger k) else none := by
  show (addLate _ tl ++ (List.range' tl.length (Nat.min upto maxTimelineBuckets - tl.length)).map _)[k]?.map _ = _
  have hlen : (addLate (takePending sh.shards (Nat.min upto maxTimelineBuckets)) tl).length = tl.length :=
    List.length_mapIdx
  split_ifs with h₁ h₂
  · rw [List.getElem?_append_left (hlen.symm ▸ h₁), addLate, List.getElem?_mapIdx]
    cases tl[k]? with
    | none => rfl
    | some b =>
      simp only [Option.map_some]
      split <;> rfl
  · rw [List.getElem?_append_right (hlen.symm ▸ not_lt.1 h₁), hlen, List.getElem?_map, List.getElem?_range' (by omega)]
    simp only [Option.map_some, finalBucket, Nat.one_mul]
    rw [Nat.add_sub_cancel' (not_lt.1 h₁)]
  · rw [List.getElem?_append_right (hlen.symm ▸ not_lt.1 h₁), hlen, List.getElem?_eq_none]
    · rfl
    · rw [List.length_map, List.length_range']
      omega

end Shared

/-! ## Sends and flushes on the clock -/

/-- A run as the timeline sees it: `clock` is the current bucket, `history` has for every begin or end of a send its
bucket and the sends in flight after it, and `finished` says that the final flush was made. -/
structure TlState where
  shared : Shared
  tl : List TimeBucket := []
  clock : Nat := 0
  history : List (Nat × Nat) := []
  finished : Bool := false

inductive TlEvent where
  | advance (clock : Nat)
  | beginSend (slot : Nat) (measured : Bool) (now : Nat)
  | endSend (slot : Nat) (measured : Bool) (now sec : Nat) (o : SendObservation)
  | flush (upto : Nat)
  | finish

section Steps
variable [HdrLayout] (cfg : RunConfig)

/-- One event; `none` when it cannot happen (the clock never goes back, the ticker flushes at most up to one below
the current bucket, nothing follows the final flush). -/
def tlStep (s : TlState) (e : TlEvent) : Option TlState :=
  if s.finished then none
  else match e with
    | .advance clock => if s.clock ≤ clock then some { s with clock } else none
    | .beginSend slot measured now =>
      let shared := s.shared.beginSend slot measured now s.clock
      some { s with shared, history := s.history ++ [(s.clock, shared.ledger.sendInFlightTotal)] }
    | .endSend slot measured now sec o => do
      let shared ← s.shared.endSend cfg slot measured now s.clock sec o
      some { s with shared, history := s.history ++ [(s.clock, shared.ledger.sendInFlightTotal)] }
    | .flush upto =>
      if upto ≤ s.clock - 1 then
        let (shared, tl) := s.shared.flush cfg s.tl upto
        some { s with shared, tl }
      else none
    | .finish =>
      let (shared, tl) := s.shared.flush cfg s.tl (s.clock + 1)
      some { s with shared, tl, finished := true }

end Steps

/-- The sends in flight when bucket `b` begins: what the last event before it left. -/
def heldOn (history : List (Nat × Nat)) (b : Nat) : Nat :=
  ((history.filter fun e => e.1 < b).getLast?.map Prod.snd).getD 0

/-- The most sends in flight at any moment of bucket `b`, the count held on entry included. -/
def trueMax (history : List (Nat × Nat)) (b : Nat) : Nat :=
  ((history.filter fun e => e.1 = b).map Prod.snd).foldl max (heldOn history b)

/-- Every finalized bucket has its true maximum. -/
def TlState.Exact (s : TlState) : Prop :=
  ∀ k b, s.tl[k]? = some b → k < maxTimelineBuckets → b.inFlight = trueMax s.history k

/-- The count an event carries on is not lost: the event is below the cap, or no bucket below the cap is left to
finalize, or none of them comes after an earlier event. -/
def TlEvent.Noted (s : TlState) : TlEvent → Prop
  | .beginSend .. | .endSend .. =>
    s.clock < maxTimelineBuckets ∨ maxTimelineBuckets ≤ s.tl.length ∨
      ∀ last, s.shared.ledger.lastPeakBucket = some last → maxTimelineBuckets ≤ last + 1
  | _ => True

/-! ## Peaks -/

namespace LedgerState

theorem getElem?_raisePeak (ps : Std.ExtTreeMap Nat Nat) (k v j : Nat) :
    (raisePeak ps k v)[j]? = if k = j then some (max (ps[k]?.getD 0) v) else ps[j]? := by
  rw [raisePeak, Std.ExtTreeMap.getElem?_alter]
  simp only [Std.LawfulEqOrd.compare_eq_iff_eq]

theorem getElem?_carry (held : Nat) (n : Nat) : ∀ (from' : Nat) (ps : Std.ExtTreeMap Nat Nat) (j : Nat),
    ((List.range' from' n).foldl (fun ps k => raisePeak ps k held) ps)[j]? =
      if from' ≤ j ∧ j < from' + n then some (max (ps[j]?.getD 0) held) else ps[j]? := by
  induction n with
  | zero =>
    intro a ps j
    rw [if_neg (by omega)]
    rfl
  | succ n ih =>
    intro a ps j
    rw [List.range'_succ, List.foldl_cons, ih, getElem?_raisePeak]
    by_cases haj : a = j
    · subst haj
      rw [if_neg (by omega), if_pos rfl, if_pos (by omega)]
    · rw [if_neg haj]
      by_cases hin : a + 1 ≤ j ∧ j < a + 1 + n
      · rw [if_pos hin, if_pos (by omega)]
      · rw [if_neg hin, if_neg (by omega)]

theorem notePeak_of_le {l : LedgerState} {bucket : Nat} (h : maxTimelineBuckets ≤ bucket) (held peak : Nat) :
    l.notePeak bucket held peak = l := if_pos h

theorem notePeak_lastPeakBucket {l : LedgerState} {bucket : Nat} (h : bucket < maxTimelineBuckets) (held peak : Nat) :
    (l.notePeak bucket held peak).lastPeakBucket = some (l.lastPeakBucket.elim bucket fun last => max last bucket) := by
  rw [notePeak, if_neg (not_le.2 h)]
  cases l.lastPeakBucket <;> rfl

theorem notePeak_peaks {l : LedgerState} {bucket : Nat} (h : bucket < maxTimelineBuckets) (held peak j : Nat) :
    (l.notePeak bucket held peak).peaks[j]? =
      if bucket = j then some (max (l.peaks[j]?.getD 0) peak)
      else if l.lastPeakBucket.any (fun last => last < j) && j < bucket then some (max (l.peaks[j]?.getD 0) held)
      else l.peaks[j]? := by
  rw [notePeak, if_neg (not_le.2 h)]
  cases hlast : l.lastPeakBucket with
  | none =>
    simp only [getElem?_raisePeak, Option.any_none, Bool.false_and, Bool.false_eq_true, if_false]
    split_ifs with hj
    · rw [hj]
    · rfl
  | some last =>
    simp only [getElem?_raisePeak, getElem?_carry, Option.any_some, Bool.and_eq_true, decide_eq_true_eq]
    by_cases hj : bucket = j
    · subst hj
      rw [if_pos rfl, if_pos rfl, if_neg (by omega)]
    · rw [if_neg hj, if_neg hj]
      by_cases hin : last < j ∧ j < bucket
      · rw [if_pos hin, if_pos (by omega)]
      · rw [if_neg hin, if_neg (by omega)]

@[simp] theorem sendInFlightTotal_notePeak (l : LedgerState) (bucket held peak : Nat) :
    (l.notePeak bucket held peak).sendInFlightTotal = l.sendInFlightTotal := by
  unfold notePeak
  split_ifs <;> rfl

theorem sendInFlightTotal_eq (l : LedgerState) :
    l.sendInFlightTotal = (l.side true).sendInFlight + (l.side false).sendInFlight := rfl

theorem sendInFlightTotal_beginSend (l : LedgerState) (m : Bool) (bucket : Nat) :
    (l.beginSend m bucket).sendInFlightTotal = l.sendInFlightTotal + 1 := by
  rw [sendInFlightTotal_eq, side_beginSend, side_beginSend, sendInFlightTotal_eq]
  cases m <;> simp only [Bool.false_eq_true, Bool.true_eq_false, if_true, if_false] <;> omega

theorem sendInFlightTotal_endSend {abort : Option AbortRule} {l l' : LedgerState} {m : Bool} {bucket sec : Nat}
    {o : SendObservation} (h : l.endSend abort m bucket sec o = some l') :
    l'.sendInFlightTotal + 1 = l.sendInFlightTotal := by
  obtain ⟨hpos, hs⟩ := endSend_eq_some h
  rw [sendInFlightTotal_eq, hs, hs, sendInFlightTotal_eq]
  cases m <;> simp only [Bool.false_eq_true, Bool.true_eq_false, if_true, if_false] <;> omega

theorem endSend_noted {abort : Option AbortRule} {l l' : LedgerState} {m : Bool} {bucket sec : Nat}
    {o : SendObservation} (h : l.endSend abort m bucket sec o = some l') :
    l'.peaks = (l.notePeak bucket l.sendInFlightTotal l.sendInFlightTotal).peaks ∧
      l'.lastPeakBucket = (l.notePeak bucket l.sendInFlightTotal l.sendInFlightTotal).lastPeakBucket := by
  have hset : ∀ (l : LedgerState) s, (l.setSide m s).peaks = l.peaks ∧ (l.setSide m s).lastPeakBucket = l.lastPeakBucket :=
    fun l s => by cases m <;> exact ⟨rfl, rfl⟩
  unfold endSend at h
  simp only [Option.bind_eq_bind, Option.bind_eq_some_iff] at h
  obtain ⟨n, -, h⟩ := h
  cases abort with
  | none =>
    rw [← Option.some.inj h]
    exact hset _ _
  | some rule =>
    simp only at h
    split_ifs at h <;> rw [← Option.some.inj h] <;> exact hset _ _

/-- One begin or end of a send in bucket `bucket`, with the count before it carried over the buckets since the last
event and the greater of the two counts noted in `bucket`; past the cap nothing is noted. -/
structure Transition (l l' : LedgerState) (bucket : Nat) : Prop where
  peaks : bucket < maxTimelineBuckets → ∀ j : Nat, l'.peaks[j]? =
    if bucket = j then some (max (l.peaks[j]?.getD 0) (max l.sendInFlightTotal l'.sendInFlightTotal))
    else if l.lastPeakBucket.any (fun last => last < j) && j < bucket then
      some (max (l.peaks[j]?.getD 0) l.sendInFlightTotal)
    else l.peaks[j]?
  last : bucket < maxTimelineBuckets →
    l'.lastPeakBucket = some (l.lastPeakBucket.elim bucket fun last => max last bucket)
  capped : maxTimelineBuckets ≤ bucket → l'.peaks = l.peaks ∧ l'.lastPeakBucket = l.lastPeakBucket

theorem transition_of_notePeak {l l₀ l' : LedgerState} {bucket peak : Nat} (hp : l₀.peaks = l.peaks)
    (hl : l₀.lastPeakBucket = l.lastPeakBucket) (hpeak : peak = max l.sendInFlightTotal l'.sendInFlightTotal)
    (hp' : l'.peaks = (l₀.notePeak bucket l.sendInFlightTotal peak).peaks)
    (hl' : l'.lastPeakBucket = (l₀.notePeak bucket l.sendInFlightTotal peak).lastPeakBucket) :
    Transition l l' bucket where
  peaks h j := by rw [hp', notePeak_peaks h, hp, hl, hpeak]
  last h := by rw [hl', notePeak_lastPeakBucket h, hl]
  capped h := by rw [hp', hl', notePeak_of_le h, hp, hl]; exact ⟨rfl, rfl⟩

theorem transition_beginSend (l : LedgerState) (m : Bool) (bucket : Nat) :
    Transition l (l.beginSend m bucket) bucket := by
  have ht := sendInFlightTotal_beginSend l m bucket
  have hset : ∀ s, (l.setSide m s).peaks = l.peaks ∧ (l.setSide m s).lastPeakBucket = l.lastPeakBucket :=
    fun s => by cases m <;> exact ⟨rfl, rfl⟩
  refine transition_of_notePeak (hset _).1 (hset _).2 ?_ rfl rfl
  rw [ht, ← ht, beginSend, sendInFlightTotal_notePeak]
  rw [beginSend, sendInFlightTotal_notePeak] at ht
  omega

theorem transition_endSend {abort : Option AbortRule} {l l' : LedgerState} {m : Bool} {bucket sec : Nat}
    {o : SendObservation} (h : l.endSend abort m bucket sec o = some l') : Transition l l' bucket := by
  have ht := sendInFlightTotal_endSend h
  obtain ⟨hp, hl⟩ := endSend_noted h
  exact transition_of_notePeak rfl rfl (by omega) hp hl

end LedgerState

/-! ## The true maxima -/

section History
variable {h : List (Nat × Nat)} {b t : Nat}

/-- The sends in flight now: what the last event left. -/
def countNow (h : List (Nat × Nat)) : Nat := (h.getLast?.map Prod.snd).getD 0

theorem heldOn_append (h : List (Nat × Nat)) (b t k : Nat) :
    heldOn (h ++ [(b, t)]) k = if b < k then t else heldOn h k := by
  unfold heldOn
  by_cases hb : b < k
  · rw [List.filter_append, List.filter_cons_of_pos (by simpa using hb), List.filter_nil, List.getLast?_append, if_pos hb]
    rfl
  · rw [List.filter_append, List.filter_cons_of_neg (by simpa using hb), List.filter_nil, List.append_nil, if_neg hb]

theorem trueMax_append (h : List (Nat × Nat)) (b t k : Nat) :
    trueMax (h ++ [(b, t)]) k = if b = k then max (trueMax h k) t
      else ((h.filter fun e => e.1 = k).map Prod.snd).foldl max (heldOn (h ++ [(b, t)]) k) := by
  unfold trueMax
  by_cases hb : b = k
  · rw [List.filter_append, List.filter_cons_of_pos (by simpa using hb), List.filter_nil, List.map_append,
      List.foldl_append, if_pos hb, heldOn_append, if_neg (by omega)]
    rfl
  · rw [List.filter_append, List.filter_cons_of_neg (by simpa using hb), List.filter_nil, List.append_nil, if_neg hb]

theorem filter_eq_nil_of_lt {k : Nat} (hle : ∀ e ∈ h, e.1 ≤ b) (hk : b < k) : (h.filter fun e => e.1 = k) = [] := by
  rw [List.filter_eq_nil_iff]
  intro e he hek
  have h₁ := hle e he
  have h₂ : e.1 = k := of_decide_eq_true hek
  omega

/-- An event changes the maximum of its own bucket and sets that of later ones. -/
theorem trueMax_event (hle : ∀ e ∈ h, e.1 ≤ b) (t k : Nat) :
    trueMax (h ++ [(b, t)]) k = if k < b then trueMax h k else if k = b then max (trueMax h k) t else t := by
  rw [trueMax_append]
  by_cases hk : b = k
  · rw [if_pos hk, if_neg (by omega), if_pos hk.symm]
  · rw [if_neg hk, heldOn_append]
    by_cases hlt : k < b
    · rw [if_neg (by omega), if_pos hlt]
      rfl
    · rw [if_pos (by omega), if_neg hlt, if_neg (Ne.symm hk), filter_eq_nil_of_lt hle (by omega)]
      rfl

theorem le_foldl_max (l : List Nat) : ∀ a x, x = a ∨ x ∈ l → x ≤ l.foldl max a := by
  induction l with
  | nil =>
    intro a x hx
    rcases hx with rfl | hx
    · exact le_rfl
    · exact absurd hx (List.not_mem_nil)
  | cons y l ih =>
    intro a x hx
    rw [List.foldl_cons]
    rcases hx with rfl | hx
    · exact (le_max_left x y).trans (ih _ _ (.inl rfl))
    · rcases List.mem_cons.1 hx with rfl | hx
      · exact (le_max_right a x).trans (ih _ _ (.inl rfl))
      · exact ih _ _ (.inr hx)

/-- The count now is one of the moments of the current bucket. -/
theorem countNow_le_trueMax (hle : ∀ e ∈ h, e.1 ≤ b) : countNow h ≤ trueMax h b := by
  rcases List.eq_nil_or_concat' h with rfl | ⟨h, ⟨a, t⟩, rfl⟩
  · exact Nat.zero_le _
  · have hab : a ≤ b := hle (a, t) (by simp)
    have hnow : countNow (h ++ [(a, t)]) = t := by simp [countNow]
    rw [hnow, trueMax_append, heldOn_append]
    by_cases hb : a = b
    · rw [if_pos hb]; exact le_max_right _ _
    · rw [if_neg hb, if_pos (by omega)]
      exact le_foldl_max _ _ _ (.inl rfl)

end History

/-! ## The invariant -/

/-- Finalized buckets are exact; an open bucket up to the last noted event has its maximum in the peaks, and a later
one still has the count of now. -/
structure TlState.Tracked (s : TlState) : Prop where
  past : ∀ e ∈ s.history, e.1 ≤ s.clock
  total : s.shared.ledger.sendInFlightTotal = countNow s.history
  length : s.finished = false → s.tl.length ≤ s.clock
  final : ∀ k < s.tl.length, s.tl[k]?.map TimeBucket.inFlight = some (trueMax s.history k)
  unnoted : s.shared.ledger.lastPeakBucket = none →
    (∀ e ∈ s.history, maxTimelineBuckets ≤ e.1) ∧ ∀ k : Nat, s.shared.ledger.peaks[k]? = none
  noted : ∀ last, s.shared.ledger.lastPeakBucket = some last → last < maxTimelineBuckets ∧ last ≤ s.clock ∧
    ∀ k, s.tl.length ≤ k → k < maxTimelineBuckets →
      (k ≤ last → s.shared.ledger.peaks[k]?.getD 0 = trueMax s.history k) ∧
      (last < k → s.shared.ledger.peaks[k]? = none ∧ trueMax s.history k = s.shared.ledger.sendInFlightTotal)

theorem TlState.Tracked.exact {s : TlState} (h : s.Tracked) : s.Exact := by
  intro k b hb _
  have hk : k < s.tl.length := (List.getElem?_eq_some_iff.1 hb).1
  have hf := h.final k hk
  rw [hb] at hf
  exact Option.some.inj hf

/-- No event before the cap: the maxima below it are zero. -/
theorem trueMax_unnoted {h : List (Nat × Nat)} (hall : ∀ e ∈ h, maxTimelineBuckets ≤ e.1) {k : Nat}
    (hk : k < maxTimelineBuckets) : trueMax h k = 0 := by
  have h₁ : (h.filter fun e => e.1 = k) = [] := by
    rw [List.filter_eq_nil_iff]
    intro e he hek
    have := hall e he
    have : e.1 = k := of_decide_eq_true hek
    omega
  have h₂ : (h.filter fun e => e.1 < k) = [] := by
    rw [List.filter_eq_nil_iff]
    intro e he hek
    have := hall e he
    have : e.1 < k := of_decide_eq_true hek
    omega
  rw [trueMax, h₁, heldOn, h₂]
  rfl

/-- What a flush reads for an open bucket is its maximum. -/
theorem TlState.Tracked.peakOf_eq {s : TlState} (h : s.Tracked) {k : Nat} (hk : s.tl.length ≤ k)
    (hmax : k < maxTimelineBuckets) : Shared.peakOf s.shared.ledger k = trueMax s.history k := by
  unfold Shared.peakOf
  cases hlast : s.shared.ledger.lastPeakBucket with
  | none =>
    obtain ⟨h₁, h₂⟩ := h.unnoted hlast
    rw [h₂ k, trueMax_unnoted h₁ hmax]
    rfl
  | some last =>
    obtain ⟨-, -, hnoted⟩ := h.noted last hlast
    obtain ⟨h₁, h₂⟩ := hnoted k hk hmax
    rcases le_or_gt k last with hle | hlt
    · rw [Option.any_some, if_neg (by simpa using hle)]
      exact h₁ hle
    · obtain ⟨h₃, h₄⟩ := h₂ hlt
      rw [h₃, h₄, Option.any_some, if_pos (by simpa using hlt)]
      rfl

/-- A flush up to the current bucket keeps the invariant, whatever `finished` becomes. -/
theorem TlState.Tracked.flush [HdrLayout] {s : TlState} (h : s.Tracked) (cfg : RunConfig) {upto : Nat} (finished : Bool)
    (hupto : finished = false → s.finished = false ∧ upto ≤ s.clock) :
    TlState.Tracked { s with
      shared := (s.shared.flush cfg s.tl upto).1, tl := (s.shared.flush cfg s.tl upto).2, finished := finished } := by
  have hpeaks : ∀ k : Nat, (s.shared.flush cfg s.tl upto).1.ledger.peaks[k]? =
      if Nat.min upto maxTimelineBuckets ≤ k then s.shared.ledger.peaks[k]? else none := by
    intro k
    show (s.shared.ledger.peaks.filter fun k _ => k ≥ Nat.min upto maxTimelineBuckets)[k]? = _
    rw [Std.ExtTreeMap.getElem?_filter']
    by_cases hk : Nat.min upto maxTimelineBuckets ≤ k <;> cases s.shared.ledger.peaks[k]? <;> simp [hk]
  have hlen := Shared.flush_length cfg s.shared s.tl upto
  refine ⟨h.past, h.total, fun hf => ?_, fun k hk => ?_, fun hlast => ?_, fun last hlast => ?_⟩
  · obtain ⟨h₁, h₂⟩ := hupto hf
    have h₃ := h.length h₁
    simp only at hlen ⊢
    rw [hlen]
    exact Nat.max_le.2 ⟨h₃, (Nat.min_le_left _ _).trans h₂⟩
  · simp only at hk ⊢
    rw [hlen] at hk
    rw [Shared.flush_inFlight]
    split_ifs with h₁ h₂
    · exact h.final k h₁
    · rw [h.peakOf_eq (not_lt.1 h₁) (lt_of_lt_of_le h₂ (Nat.min_le_right _ _))]
    · exact absurd (lt_max_iff.1 hk) (not_or.2 ⟨h₁, h₂⟩)
  · obtain ⟨h₁, h₂⟩ := h.unnoted hlast
    exact ⟨h₁, fun k => by simp only [hpeaks, h₂, ite_self]⟩
  · obtain ⟨h₁, h₂, h₃⟩ := h.noted last hlast
    refine ⟨h₁, h₂, fun k hk hmax => ?_⟩
    simp only [hlen] at hk
    have hk₁ : s.tl.length ≤ k := (Nat.le_max_left _ _).trans hk
    have hk₂ : Nat.min upto maxTimelineBuckets ≤ k := (Nat.le_max_right _ _).trans hk
    simp only [hpeaks, if_pos hk₂]
    exact h₃ k hk₁ hmax

/-- A begin or end of a send keeps the invariant, unless it is past the cap and a count is still to be carried. -/
theorem TlState.Tracked.event {s : TlState} (h : s.Tracked) (hf : s.finished = false) {shared : Shared}
    (htr : LedgerState.Transition s.shared.ledger shared.ledger s.clock)
    (hok : s.clock < maxTimelineBuckets ∨ maxTimelineBuckets ≤ s.tl.length ∨
      ∀ last, s.shared.ledger.lastPeakBucket = some last → maxTimelineBuckets ≤ last + 1) :
    TlState.Tracked { s with
      shared, history := s.history ++ [(s.clock, shared.ledger.sendInFlightTotal)] } := by
  have hlen := h.length hf
  have hmax := trueMax_event h.past shared.ledger.sendInFlightTotal
  have hpast : ∀ e ∈ s.history ++ [(s.clock, shared.ledger.sendInFlightTotal)], e.1 ≤ s.clock := by
    intro e he
    rcases List.mem_append.1 he with he | he
    · exact h.past e he
    · rw [List.mem_singleton.1 he]
  have hfinal : ∀ k < s.tl.length, s.tl[k]?.map TimeBucket.inFlight =
      some (trueMax (s.history ++ [(s.clock, shared.ledger.sendInFlightTotal)]) k) := by
    intro k hk
    rw [hmax, if_pos (by omega)]
    exact h.final k hk
  have htotal : shared.ledger.sendInFlightTotal =
      countNow (s.history ++ [(s.clock, shared.ledger.sendInFlightTotal)]) := by
    simp [countNow]
  rcases lt_or_ge s.clock maxTimelineBuckets with hclock | hclock
  · -- Below the cap: the event is noted, so no bucket up to the clock is open without its maximum.
    have hl := htr.last hclock
    refine ⟨hpast, htotal, fun _ => hlen, hfinal, fun hnone => ?_, fun last hlast => ?_⟩
    · simp only [hl] at hnone
      exact absurd hnone nofun
    · have hlc : last = s.clock := by
        simp only [hl, Option.some.injEq] at hlast
        cases hold : s.shared.ledger.lastPeakBucket with
        | none => rw [hold] at hlast; exact hlast.symm
        | some old =>
          rw [hold] at hlast
          have := (h.noted old hold).2.1
          simp only [Option.elim_some] at hlast
          omega
      subst hlc
      refine ⟨hclock, le_rfl, fun k hk hkmax => ⟨fun hle => ?_, fun hlt => ?_⟩⟩
      · simp only [htr.peaks hclock, hmax]
        have hnow := countNow_le_trueMax h.past
        rw [← h.total] at hnow
        cases hold : s.shared.ledger.lastPeakBucket with
        | none =>
          obtain ⟨h₁, h₂⟩ := h.unnoted hold
          have h₀ := trueMax_unnoted h₁ hkmax
          have h₀' := trueMax_unnoted h₁ hclock
          simp only [h₂, Option.any_none, Bool.false_and, Bool.false_eq_true, if_false, h₀]
          by_cases hkc : s.clock = k
          · subst hkc
            rw [if_pos rfl, if_neg (lt_irrefl _), if_pos rfl]
            show max 0 (max _ _) = _
            omega
          · rw [if_neg hkc, if_pos (by omega)]
            rfl
        | some old =>
          obtain ⟨-, hold₂, hold₃⟩ := h.noted old hold
          obtain ⟨h₁, h₂⟩ := hold₃ k hk hkmax
          simp only [Option.any_some, Bool.and_eq_true, decide_eq_true_eq]
          by_cases hkc : s.clock = k
          · subst hkc
            rw [if_pos rfl, if_neg (lt_irrefl _), if_pos rfl, Option.getD_some]
            rcases Nat.lt_or_ge old s.clock with hlt | hge
            · obtain ⟨h₃, h₄⟩ := h₂ hlt
              rw [h₃, h₄, Option.getD_none]
              omega
            · rw [h₁ hge]
              omega
          · rw [if_neg hkc, if_pos (show k < s.clock by omega)]
            by_cases hlt : old < k
            · obtain ⟨h₃, h₄⟩ := h₂ hlt
              rw [if_pos ⟨hlt, by omega⟩, h₃, h₄, Option.getD_none, Option.getD_some, Nat.zero_max]
            · rw [if_neg (fun hc => hlt hc.1)]
              exact h₁ (not_lt.1 hlt)
      · refine ⟨?_, ?_⟩
        · simp only [htr.peaks hclock]
          rw [if_neg (by omega), if_neg (by simp; omega)]
          cases hold : s.shared.ledger.lastPeakBucket with
          | none => exact (h.unnoted hold).2 k
          | some old =>
            have := (h.noted old hold).2.1
            exact (((h.noted old hold).2.2 k hk hkmax).2 (by omega)).1
        · simp only [hmax]
          rw [if_neg (by omega), if_neg (by omega)]
  · -- Past the cap: nothing is noted, so no open bucket may be waiting for the count.
    obtain ⟨hp, hl⟩ := htr.capped hclock
    have hsame : ∀ k < maxTimelineBuckets,
        trueMax (s.history ++ [(s.clock, shared.ledger.sendInFlightTotal)]) k = trueMax s.history k := by
      intro k hk
      rw [hmax, if_pos (by omega)]
    refine ⟨hpast, htotal, fun _ => hlen, hfinal, fun hnone => ?_, fun last hlast => ?_⟩
    · simp only [hl] at hnone
      obtain ⟨h₁, h₂⟩ := h.unnoted hnone
      refine ⟨fun e he => ?_, fun k => by simp only [hp, h₂]⟩
      rcases List.mem_append.1 he with he | he
      · exact h₁ e he
      · rw [List.mem_singleton.1 he]; exact hclock
    · simp only [hl] at hlast
      obtain ⟨h₁, h₂, h₃⟩ := h.noted last hlast
      refine ⟨h₁, h₂, fun k hk hkmax => ⟨fun hle => ?_, fun hlt => ?_⟩⟩
      · simp only [hp, hsame k hkmax]
        exact (h₃ k hk hkmax).1 hle
      · simp only at hk
        rcases hok with hok | hok | hok
        · omega
        · omega
        · have := hok last hlast
          omega

/-! ## Every run -/

/-- `n` shards, nothing sent. -/
def TlState.init (n : Nat) : TlState := { shared := { shards := List.replicate n {} } }

theorem TlState.init_tracked (n : Nat) : (TlState.init n).Tracked where
  past _ he := absurd he List.not_mem_nil
  total := rfl
  length _ := le_rfl
  final k hk := absurd hk (Nat.not_lt_zero k)
  unnoted _ := ⟨fun _ he => absurd he List.not_mem_nil, fun _ => Std.ExtTreeMap.getElem?_empty⟩
  noted _ hlast := absurd hlast nofun

section Runs
variable [HdrLayout] (cfg : RunConfig)

@[simp] theorem Shared.withBucket_ledger (sh : Shared) (slot b : Nat) (f : BucketAccum → BucketAccum) :
    (sh.withBucket slot b f).ledger = sh.ledger := by
  unfold Shared.withBucket
  split_ifs <;> rfl

theorem Shared.finishSend_ledger (sh : Shared) (slot : Nat) (measured : Bool) (now : Nat) (o : SendObservation) :
    (sh.finishSend slot measured now o).ledger = sh.ledger := by
  rw [Shared.finishSend, Shared.withBucket_ledger]
  split_ifs <;> rfl

theorem Shared.transition_endSend {sh sh' : Shared} {slot : Nat} {measured : Bool} {now bucket sec : Nat}
    {o : SendObservation} (h : sh.endSend cfg slot measured now bucket sec o = some sh') :
    LedgerState.Transition sh.ledger sh'.ledger bucket := by
  unfold Shared.endSend at h
  simp only [Option.bind_eq_bind, Option.bind_eq_some_iff, Option.some.injEq] at h
  obtain ⟨l, hl, rfl⟩ := h
  rw [Shared.finishSend_ledger]
  exact LedgerState.transition_endSend hl

theorem tlStep_tracked {s s' : TlState} {e : TlEvent} (h : s.Tracked) (hok : e.Noted s)
    (hstep : tlStep cfg s e = some s') : s'.Tracked := by
  unfold tlStep at hstep
  cases hf : s.finished with
  | true => rw [if_pos hf] at hstep; exact absurd hstep nofun
  | false =>
    rw [if_neg (ne_true_of_eq_false hf)] at hstep
    cases e with
    | advance clock =>
      simp only [Option.ite_none_right_eq_some, Option.some.injEq] at hstep
      obtain ⟨hle, rfl⟩ := hstep
      exact
        { h with
          past := fun e he => (h.past e he).trans hle
          length := fun hf' => (h.length hf').trans hle
          noted := fun last hlast => ⟨(h.noted last hlast).1, (h.noted last hlast).2.1.trans hle,
            (h.noted last hlast).2.2⟩ }
    | beginSend slot measured now =>
      obtain rfl := Option.some.inj hstep
      refine h.event hf ?_ hok
      rw [Shared.beginSend, Shared.withBucket_ledger]
      exact LedgerState.transition_beginSend _ measured s.clock
    | endSend slot measured now sec o =>
      simp only [Option.bind_eq_bind, Option.bind_eq_some_iff, Option.some.injEq] at hstep
      obtain ⟨shared, hsh, rfl⟩ := hstep
      exact h.event hf (Shared.transition_endSend cfg hsh) hok
    | flush upto =>
      simp only [Option.ite_none_right_eq_some, Option.some.injEq] at hstep
      obtain ⟨hle, rfl⟩ := hstep
      exact h.flush cfg s.finished fun _ => ⟨hf, hle.trans (Nat.sub_le _ _)⟩
    | finish =>
      obtain rfl := Option.some.inj hstep
      exact h.flush cfg true fun hc => absurd hc nofun

/-- **In a run whose begins and ends of sends are all noted, every finalized bucket below the cap has the most sends
that were in flight in it.** -/
theorem timeline_exact {n : Nat} {s : TlState}
    (hr : Reaches (fun s t => ∃ e : TlEvent, e.Noted s ∧ tlStep cfg s e = some t) (TlState.init n) s) : s.Exact := by
  refine TlState.Tracked.exact (Reaches.inv TlState.Tracked ?_ hr (TlState.init_tracked n))
  rintro s t ⟨e, hok, hstep⟩ h
  exact tlStep_tracked cfg h hok hstep

end Runs

/-- One shard, one-second buckets, no warmup and no abort rule. -/
def plainConfig : RunConfig := ⟨1, 0, none⟩

/-- A histogram with a bucket per value, and its quantiles by rank. -/
@[reducible] def unitLayout : HdrLayout where
  index _ v := v
  valueAtQuantile h permille :=
    let values := h.counts.entries.toList.flatMap fun e => List.replicate e.2 e.1
    values.getD ((permille * values.length + 999) / 1000 - 1) 0

/-- A send that is in flight over a bucket border, with the first bucket finalized. -/
theorem timeline_exact_first_bucket : ∃ s, Reaches (fun s t => ∃ e : TlEvent, e.Noted s ∧
    @tlStep unitLayout plainConfig s e = some t) (TlState.init 1) s ∧
    s.tl.map TimeBucket.inFlight = [1] ∧ trueMax s.history 0 = 1 ∧ s.Exact := by
  have hr : Reaches (fun s t => ∃ e : TlEvent, e.Noted s ∧ @tlStep unitLayout plainConfig s e = some t)
      (TlState.init 1) _ :=
    .tail (.tail (.tail .refl ⟨.beginSend 0 true 0, .inl (by decide), rfl⟩) ⟨.advance 2, trivial, rfl⟩)
      ⟨.flush 1, trivial, rfl⟩
  exact ⟨_, hr, by decide, by decide, @timeline_exact unitLayout plainConfig 1 _ hr⟩

/-- **A send that begins in bucket 3598 and ends in bucket 3600 is missing from bucket 3599.** -/
theorem timeline_cap_drops_carry : ∃ s, Reaches (fun s t => ∃ e : TlEvent,
    @tlStep unitLayout plainConfig s e = some t) (TlState.init 1) s ∧
    s.tl[3599]?.map TimeBucket.inFlight = some 0 ∧ trueMax s.history 3599 = 1 ∧ ¬s.Exact := by
  obtain ⟨sh, hsh, hpeak, htotal⟩ : ∃ sh, @Shared.endSend unitLayout plainConfig
      (Shared.beginSend { shards := [{}] } 0 true 3598 3598) 0 true 3600 3600 3600 {} = some sh ∧
      Shared.peakOf sh.ledger 3599 = 0 ∧ sh.ledger.sendInFlightTotal = 0 := ⟨_, rfl, by decide, rfl⟩
  have hbegun : Reaches (fun s t => ∃ e : TlEvent, @tlStep unitLayout plainConfig s e = some t) (TlState.init 1)
      { shared := Shared.beginSend { shards := [{}] } 0 true 3598 3598, clock := 3600, history := [(3598, 1)] } :=
    .tail (.tail (.tail .refl ⟨.advance 3598, rfl⟩) ⟨.beginSend 0 true 3598, rfl⟩) ⟨.advance 3600, rfl⟩
  have hended : @tlStep unitLayout plainConfig
      { shared := Shared.beginSend { shards := [{}] } 0 true 3598 3598, clock := 3600, history := [(3598, 1)] }
      (.endSend 0 true 3600 3600 {}) = some { shared := sh, clock := 3600, history := [(3598, 1), (3600, 0)] } := by
    simp only [tlStep, hsh, Option.bind_eq_bind, Option.bind_some, htotal]
    rfl
  have hinFlight : (@Shared.flush unitLayout plainConfig sh [] 3601).2[3599]?.map TimeBucket.inFlight = some 0 := by
    rw [@Shared.flush_inFlight unitLayout, if_neg (by decide), if_pos (by decide), hpeak]
  have hmax : trueMax [(3598, 1), (3600, 0)] 3599 = 1 := by decide
  refine ⟨_, .tail (.tail hbegun ⟨_, hended⟩) ⟨.finish, rfl⟩, hinFlight, hmax, fun hex => ?_⟩
  obtain ⟨b, hb, hb₀⟩ := Option.map_eq_some_iff.1 hinFlight
  have h := hex 3599 b hb (by decide)
  rw [hb₀] at h
  exact absurd (h.trans hmax) (by decide)

end Anvil.Load
