import Anvil.Load.Report
import Anvil.Load.Timeline

/-!
# Snapshots of a running load test (`anvil-load/src/executor.rs`, `end_send` and `snapshot`)

`World` is a run at the level of its locks: every shard has a holder, and a ledger operation is one step under the
ledger lock. A task in `end_send` takes its shard's lock, updates the ledger, records in the shard and lets go; a
viewer in `snapshot` takes every shard's lock in order, copies the ledger, merges the shards and lets go. `log` is the
history of what the measured ledger and the metrics were told; it is no part of the program.

* `World.toRun`, `WorldStep.refines` : a world is a `Run` of the ledger, and a step of it is one of the ledger or none;
* `World.Inv` : the invariant. What the shards recorded and what tasks in `end_send` still have to record is what the
  ledger counted, and a viewer that holds every lock sees no such task;
* `snapshot_consistent` : every snapshot is a cut in which metrics and ledger agree.
-/

set_option linter.unusedSectionVars false

namespace Anvil.Load
open Anvil.Lib

/-! ## The world -/

inductive Party where
  | task (i : Nat)
  | viewer (v : Nat)
deriving DecidableEq

structure LockedShard where
  shard : Shard := {}
  holder : Option Party := none

/-- A task outside `end_send`, or in it with its shard's lock: before the ledger, between ledger and metrics, after. -/
inductive Task where
  | outside (s : Slot)
  | locked (measured : Bool) (o : SendObservation)
  | counted (measured : Bool) (o : SendObservation)
  | recorded (measured : Bool)

/-- What a snapshot copies of the ledger, with the history at that moment. -/
structure Cut where
  measured : Ledger
  warmup : Ledger
  log : List Entry

/-- A viewer that holds the first `k` locks, or all of them with the first `k` shards merged. -/
inductive Viewer where
  | idle
  | locking (k : Nat)
  | merging (cut : Cut) (k : Nat) (m : Metrics)

structure World where
  ledger : LedgerState := {}
  shards : List LockedShard
  tasks : List Task
  viewers : List Viewer
  log : List Entry := []
  taken : List (Cut × Metrics) := []

def World.init (shards tasks viewers : Nat) : World where
  shards := List.replicate shards {}
  tasks := List.replicate tasks (.outside .idle)
  viewers := List.replicate viewers .idle

/-- The observation of an execution of a step of the plan. -/
def Observed (parseUrl : String → Option ParsedUrl) (plan : PlanUnits) (o : SendObservation) : Prop :=
  ∃ out wallUs, ∃ u ∈ plan.units, o = observe parseUrl out wallUs u

/-- `end_send`'s part of the shard. -/
def Shard.finishSend [HdrLayout] (g : Shard) (measured : Bool) (o : SendObservation)
    (pending : Std.ExtTreeMap Nat BucketAccum) : Shard where
  metrics := if measured then g.metrics.record o else g.metrics
  pending

/-- The shards without the locks of viewer `v`. -/
def dropGuards (shards : List LockedShard) (v : Nat) : List LockedShard :=
  shards.map fun s => if s.holder = some (.viewer v) then { s with holder := none } else s

section Steps
variable [HdrLayout] (parseUrl : String → Option ParsedUrl) (abort : Option AbortRule) (plan : PlanUnits)

/-- One step under one lock. What a holder does to the pending buckets is left open. -/
inductive WorldStep : World → World → Prop
  | beginIteration {w : World} {i : Nat} (m : Bool) (h : w.tasks[i]? = some (.outside .idle)) :
      WorldStep w { w with ledger := w.ledger.beginIteration m, tasks := w.tasks.set i (.outside (.running m)) }
  | arrivalDropped {w : World} (m : Bool) : WorldStep w { w with ledger := w.ledger.arrivalDropped m }
  | beginSend {w : World} {i : Nat} {m : Bool} (bucket : Nat) (h : w.tasks[i]? = some (.outside (.running m))) :
      WorldStep w { w with ledger := w.ledger.beginSend m bucket, tasks := w.tasks.set i (.outside (.sending m)) }
  | endIteration {w : World} {i : Nat} {m : Bool} {l : LedgerState} (terminal : Terminal) (app assertion : Bool)
      (h : w.tasks[i]? = some (.outside (.running m))) (hl : w.ledger.endIteration m terminal app assertion = some l) :
      WorldStep w { w with ledger := l, tasks := w.tasks.set i (.outside .idle) }
  | abandon {w : World} {i : Nat} {s : Slot} (h : w.tasks[i]? = some (.outside s)) :
      WorldStep w { w with tasks := w.tasks.set i (.outside .idle) }
  | recordLag {w : World} {i j : Nat} {m : Bool} {g : Shard} (us : Nat) (pending : Std.ExtTreeMap Nat BucketAccum)
      (h : w.tasks[i]? = some (.outside (.running m))) (hj : w.shards[j]? = some ⟨g, none⟩) :
      WorldStep w { w with
        shards := w.shards.set j ⟨⟨if m then g.metrics.recordLag us else g.metrics, pending⟩, none⟩
        log := if m then w.log ++ [.lag us] else w.log }
  | bucket {w : World} {j : Nat} {g : Shard} (pending : Std.ExtTreeMap Nat BucketAccum) (hj : w.shards[j]? = some ⟨g, none⟩) :
      WorldStep w { w with shards := w.shards.set j ⟨{ g with pending }, none⟩ }
  | flushPeaks {w : World} (upto : Nat) : WorldStep w { w with ledger := w.ledger.keepPeaks upto }
  | lock {w : World} {i : Nat} {m : Bool} {g : Shard} (out : ExecutionOutput) (wallUs : Nat) {u : StepUnit}
      (hu : u ∈ plan.units)
      (h : w.tasks[i]? = some (.outside (.sending m))) (hj : w.shards[i % w.shards.length]? = some ⟨g, none⟩) :
      WorldStep w { w with
        shards := w.shards.set (i % w.shards.length) ⟨g, some (.task i)⟩
        tasks := w.tasks.set i (.locked m (observe parseUrl out wallUs u)) }
  | count {w : World} {i : Nat} {m : Bool} {o : SendObservation} {l : LedgerState} (bucket sec : Nat)
      (h : w.tasks[i]? = some (.locked m o))
      (hl : w.ledger.endSend abort m bucket sec o = some l) :
      WorldStep w { w with
        ledger := l
        tasks := w.tasks.set i (.counted m o)
        log := if m then w.log ++ [.send o] else w.log }
  | record {w : World} {i : Nat} {m : Bool} {o : SendObservation} {s : LockedShard}
      (pending : Std.ExtTreeMap Nat BucketAccum) (h : w.tasks[i]? = some (.counted m o))
      (hj : w.shards[i % w.shards.length]? = some s) :
      WorldStep w { w with
        shards := w.shards.set (i % w.shards.length) { s with shard := s.shard.finishSend m o pending }
        tasks := w.tasks.set i (.recorded m) }
  | unlock {w : World} {i : Nat} {m : Bool} {s : LockedShard} (h : w.tasks[i]? = some (.recorded m))
      (hj : w.shards[i % w.shards.length]? = some s) :
      WorldStep w { w with
        shards := w.shards.set (i % w.shards.length) { s with holder := none }
        tasks := w.tasks.set i (.outside (.running m)) }
  | viewStart {w : World} {v : Nat} (h : w.viewers[v]? = some .idle) :
      WorldStep w { w with viewers := w.viewers.set v (.locking 0) }
  | viewLock {w : World} {v k : Nat} {g : Shard} (h : w.viewers[v]? = some (.locking k))
      (hj : w.shards[k]? = some ⟨g, none⟩) :
      WorldStep w { w with
        shards := w.shards.set k ⟨g, some (.viewer v)⟩
        viewers := w.viewers.set v (.locking (k + 1)) }
  | viewCopy {w : World} {v : Nat} (h : w.viewers[v]? = some (.locking w.shards.length)) :
      WorldStep w { w with
        viewers := w.viewers.set v (.merging ⟨w.ledger.measured, w.ledger.warmup, w.log⟩ 0 {}) }
  | viewMerge {w : World} {v k : Nat} {cut : Cut} {m : Metrics} {s : LockedShard}
      (h : w.viewers[v]? = some (.merging cut k m)) (hj : w.shards[k]? = some s) :
      WorldStep w { w with viewers := w.viewers.set v (.merging cut (k + 1) (m.merge s.shard.metrics)) }
  | viewDone {w : World} {v : Nat} {cut : Cut} {m : Metrics} (h : w.viewers[v]? = some (.merging cut w.shards.length m)) :
      WorldStep w { w with
        shards := dropGuards w.shards v
        viewers := w.viewers.set v .idle
        taken := w.taken ++ [(cut, m)] }

end Steps

/-! ## The ledger's view -/

/-- Where the ledger thinks a task is. -/
def Task.slot : Task → Slot
  | .outside s => s
  | .locked m _ => .sending m
  | .counted m _ => .running m
  | .recorded m => .running m

def World.toRun (w : World) : Run := ⟨w.ledger, w.tasks.map Task.slot⟩

/-- The ledger's own invariant, read on the world. -/
abbrev World.Accounted (w : World) : Prop := w.toRun.Accounted

theorem map_set_of_eq {α β : Type} (f : α → β) {l : List α} {i : Nat} {x y : α} (h : l[i]? = some x) (hf : f y = f x) :
    (l.set i y).map f = l.map f := by
  obtain ⟨hi, rfl⟩ := List.getElem?_eq_some_iff.1 h
  have hi' : i < (l.map f).length := by rwa [List.length_map]
  rw [List.map_set, hf, ← List.getElem_map f (h := hi'), List.set_getElem_self]

section Refines
variable [HdrLayout] {parseUrl : String → Option ParsedUrl} {abort : Option AbortRule} {plan : PlanUnits}

/-- **A step of the world is one ledger step of its run, or none.** -/
theorem WorldStep.refines {w w' : World} (h : WorldStep parseUrl abort plan w w') (hobs : ∀ (i : Nat) m o,
      w.tasks[i]? = some (.locked m o) → Observed parseUrl plan o) :
    w'.toRun = w.toRun ∨ Step parseUrl abort w.toRun w'.toRun := by
  have hslot : ∀ {i : Nat} {t : Task}, w.tasks[i]? = some t → (w.tasks.map Task.slot)[i]? = some t.slot := fun h => by
    rw [List.getElem?_map, h]; rfl
  cases h with
  | beginIteration m h =>
    right
    rw [World.toRun, World.toRun, List.map_set]
    exact .beginIteration m (hslot h)
  | arrivalDropped m => exact .inr (.arrivalDropped m)
  | beginSend bucket h =>
    right
    rw [World.toRun, World.toRun, List.map_set]
    exact .beginSend bucket (hslot h)
  | endIteration terminal app assertion h hl =>
    right
    rw [World.toRun, World.toRun, List.map_set]
    exact .endIteration terminal app assertion (hslot h) hl
  | abandon h =>
    right
    rw [World.toRun, World.toRun, List.map_set]
    exact .abandon _
  | recordLag | bucket => exact .inl rfl
  | flushPeaks upto => exact .inr (.flush upto)
  | lock out wallUs hu h hj =>
    exact .inl (congrArg (Run.mk w.ledger) (map_set_of_eq Task.slot h rfl))
  | count bucket sec h hl =>
    right
    obtain ⟨out, wallUs, u, hu, rfl⟩ := hobs _ _ _ h
    rw [World.toRun, World.toRun, List.map_set]
    exact .endSend bucket sec out wallUs u (hslot h) hl
  | record pending h hj =>
    exact .inl (congrArg (Run.mk w.ledger) (map_set_of_eq Task.slot h rfl))
  | unlock h hj =>
    exact .inl (congrArg (Run.mk w.ledger) (map_set_of_eq Task.slot h rfl))
  | viewStart | viewLock | viewCopy | viewMerge | viewDone => exact .inl rfl

end Refines

/-! ## The invariant -/

def LockedShard.totals (s : LockedShard) : Totals := s.shard.metrics.totals

/-- Who holds the lock of shard `j`. -/
def World.holderOf (w : World) (j : Nat) : Option Party := w.shards[j]?.bind LockedShard.holder

def Task.inEndSend : Task → Bool
  | .outside _ => false
  | _ => true

/-- How many locks a viewer holds, of `n`. -/
def Viewer.held (n : Nat) : Viewer → Nat
  | .idle => 0
  | .locking k => k
  | .merging .. => n

section Invariant
variable [HdrLayout] (parseUrl : String → Option ParsedUrl) (plan : PlanUnits)

/-- What a task in `end_send` counted in the measured ledger and did not record yet. -/
def Task.pending : Task → Totals
  | .counted true o => Metrics.obsTotals o
  | _ => 0

/-- A copy of the ledger that agrees with its history. -/
structure Cut.Ok (cut : Cut) : Prop where
  requests : { cut.measured.requests with started := 0 } = settledOf cut.log
  started : cut.measured.requests.started = cut.measured.requests.ended + cut.measured.sendInFlight
  observed : ∀ o, Entry.send o ∈ cut.log → Observed parseUrl plan o

structure World.Inv (w : World) : Prop where
  taskHolds : ∀ (i : Nat) t, w.tasks[i]? = some t → t.inEndSend = true →
    w.holderOf (i % w.shards.length) = some (.task i)
  viewHolds : ∀ (v : Nat) x, w.viewers[v]? = some x → ∀ j < x.held w.shards.length, w.holderOf j = some (.viewer v)
  sum : (w.shards.map LockedShard.totals).sum + (w.tasks.map Task.pending).sum = totalsOf w.log
  requests : { w.ledger.measured.requests with started := 0 } = settledOf w.log
  accounted : w.Accounted
  observed : ∀ o, Entry.send o ∈ w.log → Observed parseUrl plan o
  lockedObserved : ∀ (i : Nat) m o, w.tasks[i]? = some (.locked m o) → Observed parseUrl plan o
  views : ∀ (v : Nat) cut k m, w.viewers[v]? = some (.merging cut k m) → cut.Ok parseUrl plan ∧
    m.totals = ((w.shards.take k).map LockedShard.totals).sum ∧
    (w.shards.map LockedShard.totals).sum = totalsOf cut.log
  taken : ∀ s ∈ w.taken, s.1.Ok parseUrl plan ∧ s.2.totals = totalsOf s.1.log

variable {parseUrl plan}

theorem holderOf_set {w : World} {j : Nat} {s : LockedShard} (hj : w.shards[j]? = some s) (s' : LockedShard) (k : Nat) :
    World.holderOf { w with shards := w.shards.set j s' } k = if j = k then s'.holder else w.holderOf k := by
  obtain ⟨hlt, -⟩ := List.getElem?_eq_some_iff.1 hj
  unfold World.holderOf
  simp only
  by_cases h : j = k
  · subst h
    rw [List.getElem?_set_self hlt, if_pos rfl]
    rfl
  · rw [List.getElem?_set_ne h, if_neg h]

/-- A shard that changes while its lock is free is no shard of a merging viewer. -/
theorem World.Inv.no_view {w : World} (h : w.Inv parseUrl plan) {j : Nat} {s : LockedShard}
    (hj : w.shards[j]? = some s) (hs : ∀ v, s.holder ≠ some (.viewer v)) {v : Nat} {x : Viewer}
    (hx : w.viewers[v]? = some x) : ¬j < x.held w.shards.length := by
  intro hlt
  have := h.viewHolds v x hx j hlt
  rw [World.holderOf, hj] at this
  exact hs v this

theorem getElem?_set_cases {α : Type} {l : List α} {i k : Nat} {x y : α} (h : (l.set i y)[k]? = some x) :
    k = i ∧ x = y ∨ k ≠ i ∧ l[k]? = some x := by
  by_cases hk : k = i
  · subst hk
    have hlt : k < l.length := by
      have := (List.getElem?_eq_some_iff.1 h).1
      rwa [List.length_set] at this
    rw [List.getElem?_set_self hlt] at h
    exact .inl ⟨rfl, (Option.some.inj h).symm⟩
  · rw [List.getElem?_set_ne (Ne.symm hk)] at h
    exact .inr ⟨hk, h⟩

omit [HdrLayout] in
theorem endIteration_requests {l l' : LedgerState} {m : Bool} {terminal : Terminal} {app assertion : Bool}
    (h : l.endIteration m terminal app assertion = some l') : l'.measured.requests = l.measured.requests := by
  unfold LedgerState.endIteration at h
  simp only [Option.bind_eq_bind, Option.bind_eq_some_iff, Option.some.injEq] at h
  obtain ⟨n, -, rfl⟩ := h
  cases m <;> rfl

omit [HdrLayout] in
theorem settle_started (r : RequestCounts) (o : SendObservation) :
    { LedgerState.settle r o with started := 0 } = LedgerState.settle { r with started := 0 } o := by
  unfold LedgerState.settle
  cases o.terminal <;> rfl

section Preserved
variable {w : World} (h : w.Inv parseUrl plan)
include h

/-- A ledger operation of a task outside `end_send`; of the requests only `started` may change. -/
theorem World.Inv.outside {i : Nat} {s : Slot} (hi : w.tasks[i]? = some (.outside s)) (s' : Slot) (l : LedgerState)
    (hreq : { l.measured.requests with started := 0 } = { w.ledger.measured.requests with started := 0 })
    (hacc : World.Accounted { w with ledger := l, tasks := w.tasks.set i (.outside s') }) :
    World.Inv parseUrl plan { w with ledger := l, tasks := w.tasks.set i (.outside s') } where
  taskHolds k t hk ht := by
    rcases getElem?_set_cases hk with ⟨-, rfl⟩ | ⟨-, hk⟩
    · exact absurd ht nofun
    · exact h.taskHolds k t hk ht
  viewHolds := h.viewHolds
  sum := by
    rw [← h.sum]
    exact congrArg _ (congrArg List.sum (map_set_of_eq Task.pending hi rfl))
  requests := hreq.trans h.requests
  accounted := hacc
  observed := h.observed
  lockedObserved k m o hk := by
    rcases getElem?_set_cases hk with ⟨-, hc⟩ | ⟨-, hk⟩
    · exact absurd hc nofun
    · exact h.lockedObserved k m o hk
  views := h.views
  taken := h.taken

theorem World.Inv.ledgerOnly (l : LedgerState)
    (hreq : { l.measured.requests with started := 0 } = { w.ledger.measured.requests with started := 0 })
    (hacc : World.Accounted { w with ledger := l }) : World.Inv parseUrl plan { w with ledger := l } :=
  { h with requests := hreq.trans h.requests, accounted := hacc }

/-- A change of a shard whose lock no viewer has, which adds `t` to its metrics; `log` accounts for it. -/
theorem World.Inv.freeShard {j : Nat} {s : LockedShard} (hj : w.shards[j]? = some s) (s' : LockedShard)
    (hfree : ∀ v, s.holder ≠ some (.viewer v)) (hsame : s'.holder = s.holder) (t : Totals)
    (ht : s'.totals = s.totals + t) (log : List Entry) (hlog : totalsOf log = totalsOf w.log + t)
    (hset : settledOf log = settledOf w.log) (hsub : ∀ o, Entry.send o ∈ log → Entry.send o ∈ w.log) :
    World.Inv parseUrl plan { w with shards := w.shards.set j s', log := log } := by
  obtain ⟨hlt, -⟩ := List.getElem?_eq_some_iff.1 hj
  have hhold : ∀ k, World.holderOf { w with shards := w.shards.set j s', log := log } k = w.holderOf k := by
    intro k
    refine (holderOf_set hj s' k).trans ?_
    split_ifs with hk
    · rw [hsame, World.holderOf, ← hk, hj]
      rfl
    · rfl
  refine ⟨fun i t hi hin => ?_, fun v x hx k hk => ?_, ?_, h.requests.trans hset.symm, h.accounted,
    fun o ho => h.observed o (hsub o ho), h.lockedObserved, fun v cut k m hv => ?_, h.taken⟩
  · simp only [hhold, List.length_set]
    exact h.taskHolds i t hi hin
  · simp only [hhold]
    simp only [List.length_set] at hk
    exact h.viewHolds v x hx k hk
  · have hsum := h.sum
    simp only
    rw [hlog, ← hsum, sum_set_eq_add_others _ hlt, sum_eq_add_others _ hj, ht]
    abel
  · exact absurd hlt (h.no_view hj hfree hv)

/-- `end_send` takes a free lock. -/
theorem World.Inv.lockShard {i : Nat} {m : Bool} {g : Shard} {o : SendObservation}
    (hi : w.tasks[i]? = some (.outside (.sending m))) (hj : w.shards[i % w.shards.length]? = some ⟨g, none⟩)
    (ho : Observed parseUrl plan o)
    (hacc : World.Accounted { w with
      shards := w.shards.set (i % w.shards.length) ⟨g, some (.task i)⟩, tasks := w.tasks.set i (.locked m o) }) :
    World.Inv parseUrl plan { w with
      shards := w.shards.set (i % w.shards.length) ⟨g, some (.task i)⟩, tasks := w.tasks.set i (.locked m o) } := by
  have hhold := fun k => holderOf_set hj ⟨g, some (.task i)⟩ k
  have hfree : w.holderOf (i % w.shards.length) = none := by rw [World.holderOf, hj]; rfl
  have htotals : (w.shards.set (i % w.shards.length) ⟨g, some (.task i)⟩).map LockedShard.totals =
      w.shards.map LockedShard.totals := map_set_of_eq LockedShard.totals hj rfl
  have hpending : (w.tasks.set i (.locked m o)).map Task.pending = w.tasks.map Task.pending :=
    map_set_of_eq Task.pending hi rfl
  refine ⟨fun k t hk ht => ?_, fun v x hx k hk => ?_, ?_, h.requests, hacc, h.observed, fun k m' o' hk => ?_,
    fun v cut k m' hv => ?_, h.taken⟩
  · simp only [List.length_set]
    refine (hhold _).trans ?_
    rcases getElem?_set_cases hk with ⟨rfl, -⟩ | ⟨-, hk⟩
    · exact if_pos rfl
    · have hold := h.taskHolds k t hk ht
      rw [if_neg]
      · exact hold
      · intro he
        rw [← he, hfree] at hold
        exact absurd hold nofun
  · simp only [List.length_set] at hk
    have hold := h.viewHolds v x hx k hk
    refine (hhold k).trans ?_
    rw [if_neg]
    · exact hold
    · intro he
      rw [← he, hfree] at hold
      exact absurd hold nofun
  · simp only
    rw [htotals, hpending]
    exact h.sum
  · rcases getElem?_set_cases hk with ⟨-, hc⟩ | ⟨-, hk⟩
    · obtain ⟨-, rfl⟩ := Task.locked.inj hc
      exact ho
    · exact h.lockedObserved k m' o' hk
  · obtain ⟨h₁, h₂, h₃⟩ := h.views v cut k m' hv
    simp only [List.map_take, htotals] at h₂ ⊢
    exact ⟨h₁, h₂, h₃⟩

/-- `end_send` updates the ledger: what it counted is still to be recorded. -/
theorem World.Inv.countSend {abort : Option AbortRule} {i : Nat} {m : Bool} {o : SendObservation} {l : LedgerState}
    {bucket sec : Nat} (hi : w.tasks[i]? = some (.locked m o)) (hl : w.ledger.endSend abort m bucket sec o = some l)
    (hacc : World.Accounted { w with
      ledger := l, tasks := w.tasks.set i (.counted m o), log := if m then w.log ++ [.send o] else w.log }) :
    World.Inv parseUrl plan { w with
      ledger := l, tasks := w.tasks.set i (.counted m o), log := if m then w.log ++ [.send o] else w.log } := by
  obtain ⟨hlt, -⟩ := List.getElem?_eq_some_iff.1 hi
  have hside := (LedgerState.endSend_eq_some hl).2 true
  refine ⟨fun k t hk ht => ?_, h.viewHolds, ?_, ?_, hacc, fun o' ho' => ?_, fun k m' o' hk => ?_, h.views, h.taken⟩
  · rcases getElem?_set_cases hk with ⟨rfl, -⟩ | ⟨-, hk⟩
    · exact h.taskHolds k _ hi rfl
    · exact h.taskHolds k t hk ht
  · have hsum := h.sum
    rw [sum_eq_add_others Task.pending hi] at hsum
    simp only
    rw [sum_set_eq_add_others Task.pending hlt]
    cases m with
    | false => exact hsum
    | true =>
      rw [if_pos rfl, totalsOf, List.map_append, List.sum_append, List.map_singleton, List.sum_singleton, ← totalsOf,
        ← hsum]
      show _ + (Metrics.obsTotals o + _) = _ + (0 + _) + Metrics.obsTotals o
      abel
  · cases m with
    | false =>
      have hs : l.measured = w.ledger.measured := hside.trans (if_neg (by decide))
      simp only [hs]
      exact h.requests
    | true =>
      have hs : l.measured.requests = LedgerState.settle w.ledger.measured.requests o := by
        rw [show l.measured = _ from hside, if_pos rfl]
        rfl
      simp only [hs, if_true]
      rw [settledOf, List.foldl_append, ← settledOf, ← h.requests]
      exact settle_started _ o
  · cases m with
    | false => exact h.observed o' ho'
    | true =>
      rcases List.mem_append.1 ho' with ho' | ho'
      · exact h.observed o' ho'
      · obtain rfl := Entry.send.inj (List.mem_singleton.1 ho')
        exact h.lockedObserved i true _ hi
  · rcases getElem?_set_cases hk with ⟨-, hc⟩ | ⟨-, hk⟩
    · exact absurd hc (by simp)
    · exact h.lockedObserved k m' o' hk

/-- `end_send` records: nothing is left to record, and no viewer has the lock. -/
theorem World.Inv.recordSend {i : Nat} {m : Bool} {o : SendObservation} {s : LockedShard}
    (pending : Std.ExtTreeMap Nat BucketAccum) (hi : w.tasks[i]? = some (.counted m o))
    (hj : w.shards[i % w.shards.length]? = some s)
    (hacc : World.Accounted { w with
      shards := w.shards.set (i % w.shards.length) { s with shard := s.shard.finishSend m o pending }
      tasks := w.tasks.set i (.recorded m) }) :
    World.Inv parseUrl plan { w with
      shards := w.shards.set (i % w.shards.length) { s with shard := s.shard.finishSend m o pending }
      tasks := w.tasks.set i (.recorded m) } := by
  obtain ⟨hlt, -⟩ := List.getElem?_eq_some_iff.1 hi
  obtain ⟨hltj, -⟩ := List.getElem?_eq_some_iff.1 hj
  have hholder : s.holder = some (.task i) := by
    have := h.taskHolds i _ hi rfl
    rwa [World.holderOf, hj] at this
  have hhold : ∀ k, World.holderOf { w with
      shards := w.shards.set (i % w.shards.length) { s with shard := s.shard.finishSend m o pending } } k =
      w.holderOf k := by
    intro k
    rw [holderOf_set hj]
    split_ifs with hk
    · rw [World.holderOf, ← hk, hj]
      rfl
    · rfl
  refine ⟨fun k t hk ht => ?_, fun v x hx k hk => ?_, ?_, h.requests, hacc, h.observed, fun k m' o' hk => ?_,
    fun v cut k m' hv => ?_, h.taken⟩
  · simp only [List.length_set]
    refine (hhold _).trans ?_
    rcases getElem?_set_cases hk with ⟨rfl, -⟩ | ⟨-, hk⟩
    · exact h.taskHolds k _ hi rfl
    · exact h.taskHolds k t hk ht
  · simp only [List.length_set] at hk
    exact (hhold k).trans (h.viewHolds v x hx k hk)
  · have hsum := h.sum
    rw [sum_eq_add_others Task.pending hi, sum_eq_add_others LockedShard.totals hj] at hsum
    simp only
    rw [sum_set_eq_add_others Task.pending hlt, sum_set_eq_add_others LockedShard.totals hltj, ← hsum]
    cases m with
    | false => rfl
    | true =>
      show (s.shard.metrics.record o).totals + _ + (0 + _) = s.shard.metrics.totals + _ + (Metrics.obsTotals o + _)
      rw [Metrics.totals_record]
      abel
  · rcases getElem?_set_cases hk with ⟨-, hc⟩ | ⟨-, hk⟩
    · exact absurd hc nofun
    · exact h.lockedObserved k m' o' hk
  · refine absurd hltj (h.no_view hj (fun v' hv' => ?_) hv)
    rw [hholder] at hv'
    exact absurd hv' nofun

/-- `end_send` lets go. -/
theorem World.Inv.unlockShard {i : Nat} {m : Bool} {s : LockedShard} (hi : w.tasks[i]? = some (.recorded m))
    (hj : w.shards[i % w.shards.length]? = some s)
    (hacc : World.Accounted { w with
      shards := w.shards.set (i % w.shards.length) { s with holder := none }
      tasks := w.tasks.set i (.outside (.running m)) }) :
    World.Inv parseUrl plan { w with
      shards := w.shards.set (i % w.shards.length) { s with holder := none }
      tasks := w.tasks.set i (.outside (.running m)) } := by
  have hholder : w.holderOf (i % w.shards.length) = some (.task i) := h.taskHolds i _ hi rfl
  have hhold := fun k => holderOf_set hj { s with holder := none } k
  have htotals : (w.shards.set (i % w.shards.length) { s with holder := none }).map LockedShard.totals =
      w.shards.map LockedShard.totals := map_set_of_eq LockedShard.totals hj rfl
  have hpending : (w.tasks.set i (.outside (.running m))).map Task.pending = w.tasks.map Task.pending :=
    map_set_of_eq Task.pending hi rfl
  refine ⟨fun k t hk ht => ?_, fun v x hx k hk => ?_, ?_, h.requests, hacc, h.observed, fun k m' o' hk => ?_,
    fun v cut k m' hv => ?_, h.taken⟩
  · rcases getElem?_set_cases hk with ⟨-, rfl⟩ | ⟨hne, hk⟩
    · exact absurd ht nofun
    · have hold := h.taskHolds k t hk ht
      simp only [List.length_set]
      refine (hhold _).trans ?_
      rw [if_neg]
      · exact hold
      · intro he
        rw [← he, hholder] at hold
        exact hne (Party.task.inj (Option.some.inj hold)).symm
  · simp only [List.length_set] at hk
    have hold := h.viewHolds v x hx k hk
    refine (hhold k).trans ?_
    rw [if_neg]
    · exact hold
    · intro he
      rw [← he, hholder] at hold
      exact absurd (Option.some.inj hold) nofun
  · simp only
    rw [htotals, hpending]
    exact h.sum
  · rcases getElem?_set_cases hk with ⟨-, hc⟩ | ⟨-, hk⟩
    · exact absurd hc nofun
    · exact h.lockedObserved k m' o' hk
  · obtain ⟨h₁, h₂, h₃⟩ := h.views v cut k m' hv
    simp only [List.map_take, htotals] at h₂ ⊢
    exact ⟨h₁, h₂, h₃⟩

/-- `snapshot` takes the next lock. -/
theorem World.Inv.viewLockShard {v k : Nat} {g : Shard} (hv : w.viewers[v]? = some (.locking k))
    (hj : w.shards[k]? = some ⟨g, none⟩) :
    World.Inv parseUrl plan { w with
      shards := w.shards.set k ⟨g, some (.viewer v)⟩, viewers := w.viewers.set v (.locking (k + 1)) } := by
  have hhold := fun j => holderOf_set hj ⟨g, some (.viewer v)⟩ j
  have hfree : w.holderOf k = none := by rw [World.holderOf, hj]; rfl
  have htotals : (w.shards.set k ⟨g, some (.viewer v)⟩).map LockedShard.totals = w.shards.map LockedShard.totals :=
    map_set_of_eq LockedShard.totals hj rfl
  -- A lock somebody has is not the one that was free.
  have hkeep : ∀ {j : Nat} {p : Party}, w.holderOf j = some p →
      World.holderOf { w with shards := w.shards.set k ⟨g, some (.viewer v)⟩ } j = some p := by
    intro j p hp
    rw [hhold, if_neg]
    · exact hp
    · rintro rfl
      rw [hfree] at hp
      exact absurd hp nofun
  refine ⟨fun i t hi ht => ?_, fun v' x hx j hj' => ?_, ?_, h.requests, h.accounted, h.observed, h.lockedObserved,
    fun v' cut j m hx => ?_, h.taken⟩
  · simp only [List.length_set]
    exact hkeep (h.taskHolds i t hi ht)
  · simp only [List.length_set] at hj'
    rcases getElem?_set_cases hx with ⟨rfl, rfl⟩ | ⟨-, hx⟩
    · rcases Nat.lt_succ_iff_lt_or_eq.1 hj' with hlt | rfl
      · exact hkeep (h.viewHolds v' _ hv j hlt)
      · exact (hhold j).trans (if_pos rfl)
    · exact hkeep (h.viewHolds v' x hx j hj')
  · simp only
    rw [htotals]
    exact h.sum
  · rcases getElem?_set_cases hx with ⟨-, hc⟩ | ⟨-, hx⟩
    · exact absurd hc nofun
    · obtain ⟨h₁, h₂, h₃⟩ := h.views v' cut j m hx
      simp only [List.map_take, htotals] at h₂ ⊢
      exact ⟨h₁, h₂, h₃⟩

/-- With every lock at a viewer, no task has anything left to record. -/
theorem World.Inv.nothing_pending {v : Nat} (hv : w.viewers[v]? = some (.locking w.shards.length)) :
    (w.tasks.map Task.pending).sum = 0 := by
  refine List.sum_eq_zero fun t ht => ?_
  obtain ⟨task, htask, rfl⟩ := List.mem_map.1 ht
  obtain ⟨i, hi⟩ := List.mem_iff_getElem?.1 htask
  cases hin : task.inEndSend with
  | false =>
    cases task with
    | outside s => rfl
    | locked | counted | recorded => exact absurd hin nofun
  | true =>
    have hhold := h.taskHolds i task hi hin
    have hlt : i % w.shards.length < w.shards.length := by
      cases hs : w.shards[i % w.shards.length]? with
      | none => rw [World.holderOf, hs] at hhold; exact absurd hhold nofun
      | some s => exact (List.getElem?_eq_some_iff.1 hs).1
    rw [h.viewHolds v _ hv _ hlt] at hhold
    exact absurd (Option.some.inj hhold) nofun

/-- `snapshot` copies the ledger: the shards recorded exactly what it counted. -/
theorem World.Inv.viewCopyLedger {v : Nat} (hv : w.viewers[v]? = some (.locking w.shards.length)) :
    World.Inv parseUrl plan { w with
      viewers := w.viewers.set v (.merging ⟨w.ledger.measured, w.ledger.warmup, w.log⟩ 0 {}) } := by
  have hsum := h.sum
  rw [h.nothing_pending hv, add_zero] at hsum
  have hcut : (Cut.mk w.ledger.measured w.ledger.warmup w.log).Ok parseUrl plan :=
    ⟨h.requests, (h.accounted true).sends, h.observed⟩
  refine { h with viewHolds := fun v' x hx j hj => ?_, views := fun v' cut k m hx => ?_ }
  · rcases getElem?_set_cases hx with ⟨rfl, rfl⟩ | ⟨-, hx⟩
    · exact h.viewHolds v' _ hv j hj
    · exact h.viewHolds v' x hx j hj
  · rcases getElem?_set_cases hx with ⟨-, hc⟩ | ⟨-, hx⟩
    · obtain ⟨rfl, rfl, rfl⟩ := Viewer.merging.inj hc
      exact ⟨hcut, rfl, hsum⟩
    · exact h.views v' cut k m hx

/-- `snapshot` merges the next shard. -/
theorem World.Inv.viewMergeShard {v k : Nat} {cut : Cut} {m : Metrics} {s : LockedShard}
    (hv : w.viewers[v]? = some (.merging cut k m)) (hj : w.shards[k]? = some s) :
    World.Inv parseUrl plan { w with
      viewers := w.viewers.set v (.merging cut (k + 1) (m.merge s.shard.metrics)) } := by
  refine { h with viewHolds := fun v' x hx j hj => ?_, views := fun v' cut' k' m' hx => ?_ }
  · rcases getElem?_set_cases hx with ⟨rfl, rfl⟩ | ⟨-, hx⟩
    · exact h.viewHolds v' _ hv j hj
    · exact h.viewHolds v' x hx j hj
  · rcases getElem?_set_cases hx with ⟨-, hc⟩ | ⟨-, hx⟩
    · obtain ⟨rfl, rfl, rfl⟩ := Viewer.merging.inj hc
      obtain ⟨h₁, h₂, h₃⟩ := h.views v _ k m hv
      refine ⟨h₁, ?_, h₃⟩
      rw [List.take_add_one, hj, Metrics.totals_merge, h₂, List.map_append, List.sum_append]
      exact congrArg _ (List.sum_singleton).symm
    · exact h.views v' cut' k' m' hx

omit h in
theorem holderOf_dropGuards (w : World) (v j : Nat) :
    World.holderOf { w with shards := dropGuards w.shards v } j =
      if w.holderOf j = some (.viewer v) then none else w.holderOf j := by
  unfold World.holderOf dropGuards
  simp only [List.getElem?_map]
  cases w.shards[j]? with
  | none => rfl
  | some s =>
    simp only [Option.map_some, Option.bind_some]
    split_ifs <;> rfl

/-- `snapshot` lets go of every lock, with a cut in which ledger and metrics agree. -/
theorem World.Inv.viewRelease {v : Nat} {cut : Cut} {m : Metrics}
    (hv : w.viewers[v]? = some (.merging cut w.shards.length m)) :
    World.Inv parseUrl plan { w with
      shards := dropGuards w.shards v, viewers := w.viewers.set v .idle, taken := w.taken ++ [(cut, m)] } := by
  have hlen : (dropGuards w.shards v).length = w.shards.length := List.length_map ..
  have htotals : (dropGuards w.shards v).map LockedShard.totals = w.shards.map LockedShard.totals := by
    rw [dropGuards, List.map_map]
    refine List.map_congr_left fun s _ => ?_
    show LockedShard.totals (if _ then _ else _) = _
    split_ifs <;> rfl
  have hkeep : ∀ {j : Nat} {p : Party}, p ≠ .viewer v → w.holderOf j = some p →
      World.holderOf { w with shards := dropGuards w.shards v } j = some p := by
    intro j p hne hp
    rw [holderOf_dropGuards, hp, if_neg (fun hc => hne (Option.some.inj hc))]
  refine ⟨fun i t hi ht => ?_, fun v' x hx j hj => ?_, ?_, h.requests, h.accounted, h.observed, h.lockedObserved,
    fun v' cut' k m' hx => ?_, fun s hs => ?_⟩
  · simp only [hlen]
    exact hkeep nofun (h.taskHolds i t hi ht)
  · rcases getElem?_set_cases hx with ⟨-, rfl⟩ | ⟨hne, hx⟩
    · exact absurd hj (Nat.not_lt_zero j)
    · simp only [hlen] at hj
      exact hkeep (fun hc => hne (Party.viewer.inj hc)) (h.viewHolds v' x hx j hj)
  · simp only
    rw [htotals]
    exact h.sum
  · rcases getElem?_set_cases hx with ⟨-, hc⟩ | ⟨-, hx⟩
    · exact absurd hc nofun
    · obtain ⟨h₁, h₂, h₃⟩ := h.views v' cut' k m' hx
      simp only [List.map_take, htotals] at h₂ ⊢
      exact ⟨h₁, h₂, h₃⟩
  · rcases List.mem_append.1 hs with hs | hs
    · exact h.taken s hs
    · obtain rfl := List.mem_singleton.1 hs
      obtain ⟨h₁, h₂, h₃⟩ := h.views v cut _ m hv
      rw [List.take_length] at h₂
      exact ⟨h₁, h₂.trans h₃⟩

end Preserved

/-! ## Every step and every run -/

theorem WorldStep.inv {abort : Option AbortRule} {w w' : World} (hstep : WorldStep parseUrl abort plan w w')
    (h : w.Inv parseUrl plan) : w'.Inv parseUrl plan := by
  have hacc : w'.Accounted := by
    rcases hstep.refines h.lockedObserved with he | hs
    · rw [World.Accounted, he]
      exact h.accounted
    · exact hs.accounted h.accounted
  cases hstep with
  | beginIteration m hi =>
    refine h.outside hi _ _ ?_ hacc
    cases m <;> rfl
  | arrivalDropped m =>
    refine h.ledgerOnly _ ?_ hacc
    cases m <;> rfl
  | @beginSend i m bucket hi =>
    refine h.outside hi _ _ ?_ hacc
    have hside := w.ledger.side_beginSend m true bucket
    rw [show (w.ledger.beginSend m bucket).measured = _ from hside]
    cases m <;> rfl
  | @endIteration i m l terminal app assertion hi hl =>
    refine h.outside hi _ _ ?_ hacc
    rw [endIteration_requests hl]
  | abandon hi => exact h.outside hi _ _ rfl hacc
  | @recordLag i j m g us pending hi hj =>
    cases m with
    | false =>
      exact h.freeShard hj ⟨⟨g.metrics, pending⟩, none⟩ (by simp) rfl 0 (add_zero _).symm w.log (add_zero _).symm rfl
        fun _ ho => ho
    | true =>
      refine h.freeShard hj ⟨⟨g.metrics.recordLag us, pending⟩, none⟩ (by simp) rfl _
        (Metrics.totals_recordLag g.metrics us) _ ?_ ?_ fun o ho => ?_
      · rw [if_pos rfl, totalsOf, List.map_append, List.sum_append]
        exact congrArg _ List.sum_singleton
      · rw [if_pos rfl, settledOf, List.foldl_append]
        rfl
      · rcases List.mem_append.1 ho with ho | ho
        · exact ho
        · exact absurd (List.mem_singleton.1 ho) (by simp)
  | @bucket j g pending hj =>
    exact h.freeShard hj ⟨⟨g.metrics, pending⟩, none⟩ (by simp) rfl 0 (add_zero _).symm w.log
      (add_zero _).symm rfl fun _ ho => ho
  | flushPeaks upto => exact h.ledgerOnly _ rfl hacc
  | lock out wallUs hu hi hj => exact h.lockShard hi hj ⟨out, wallUs, _, hu, rfl⟩ hacc
  | count bucket sec hi hl => exact h.countSend hi hl hacc
  | record pending hi hj => exact h.recordSend pending hi hj hacc
  | unlock hi hj => exact h.unlockShard hi hj hacc
  | viewStart hv =>
    refine { h with viewHolds := fun v x hx j hj => ?_, views := fun v cut k m hx => ?_ }
    · rcases getElem?_set_cases hx with ⟨-, rfl⟩ | ⟨-, hx⟩
      · exact absurd hj (Nat.not_lt_zero j)
      · exact h.viewHolds v x hx j hj
    · rcases getElem?_set_cases hx with ⟨-, hc⟩ | ⟨-, hx⟩
      · exact absurd hc (by simp)
      · exact h.views v cut k m hx
  | viewLock hv hj => exact h.viewLockShard hv hj
  | viewCopy hv => exact h.viewCopyLedger hv
  | viewMerge hv hj => exact h.viewMergeShard hv hj
  | viewDone hv => exact h.viewRelease hv

theorem World.init_inv (shards tasks viewers : Nat) : (World.init shards tasks viewers).Inv parseUrl plan := by
  have htask : ∀ (i : Nat) t, (World.init shards tasks viewers).tasks[i]? = some t → t = .outside .idle :=
    fun i t hi => List.eq_of_mem_replicate (List.mem_of_getElem? hi)
  have hview : ∀ (v : Nat) x, (World.init shards tasks viewers).viewers[v]? = some x → x = .idle :=
    fun v x hv => List.eq_of_mem_replicate (List.mem_of_getElem? hv)
  refine ⟨fun i t hi ht => ?_, fun v x hx j hj => ?_, ?_, rfl, ?_, fun o ho => absurd ho List.not_mem_nil,
    fun i m o hi => absurd (htask i _ hi) nofun, fun v cut k m hv => absurd (hview v _ hv) nofun,
    fun s hs => absurd hs List.not_mem_nil⟩
  · rw [htask i t hi] at ht
    exact absurd ht nofun
  · rw [hview v x hx] at hj
    exact absurd hj (Nat.not_lt_zero j)
  · have h₁ : ((World.init shards tasks viewers).shards.map LockedShard.totals).sum = 0 :=
      List.sum_eq_zero fun t ht => by
        obtain ⟨s, hs, rfl⟩ := List.mem_map.1 ht
        rw [List.eq_of_mem_replicate hs]
        rfl
    have h₂ : ((World.init shards tasks viewers).tasks.map Task.pending).sum = 0 :=
      List.sum_eq_zero fun t ht => by
        obtain ⟨s, hs, rfl⟩ := List.mem_map.1 ht
        rw [List.eq_of_mem_replicate hs]
        rfl
    rw [h₁, h₂]
    rfl
  · have hrun : (World.init shards tasks viewers).toRun = Run.init tasks := by
      rw [World.toRun, World.init, Run.init, List.map_replicate]
      rfl
    rw [World.Accounted, hrun]
    exact Run.init_accounted tasks

end Invariant

/-! ## `MetricsSnapshot` -/

structure CensoredTimeouts where
  count : Nat
  deadlineMsMin : Option Nat
  deadlineMsMax : Option Nat
  elapsedAtTimeout : LatencySummary

structure FailureSample where
  category : String
  count : Nat
  examples : List String
deriving DecidableEq

/-- A snapshot without its rates, its encoded histograms and the health of the generator's process. -/
structure MetricsSnapshot where
  counts : LoadCounts
  requests : RequestCounts
  warmupIterationsExcluded : Nat
  warmupSendsExcluded : Nat
  latencySuccess : LatencySummary
  latencyFailure : LatencySummary
  latencySetup : LatencySummary
  timeoutsCensored : CensoredTimeouts
  statusDistribution : List (Nat × Nat)
  failureCategories : List FailureSample
  bytesSent : Nat
  bytesReceived : Nat
  protocols : List (String × Nat)
  destinations : List String
  protocol : ProtocolLoadMetrics
  maxScheduleLagUs : Nat
  p99ScheduleLagUs : Nat

/-- Most frequent first, then by name. -/
def FailureSample.before (a b : FailureSample) : Bool :=
  b.count < a.count || a.count = b.count && (compare a.category b.category).isLE

def Metrics.failureSamples (m : Metrics) : List FailureSample :=
  (m.categories.toList.map fun e => ⟨e.1, e.2.count, e.2.examples⟩).insertionSort fun a b => FailureSample.before a b

section Report
variable [HdrLayout]

/-- What `snapshot` returns from its copies of the ledger and its merged metrics. -/
def snapshotOf (plan : PlanUnits) (measured warmup : Ledger) (m : Metrics) : MetricsSnapshot :=
  let lag := m.lag.summary
  let censored := m.censored.summary
  { counts := measured.balanced.1
    requests := measured.balanced.2
    warmupIterationsExcluded := warmup.counts.started
    warmupSendsExcluded := warmup.requests.started
    latencySuccess := m.success.summary
    latencyFailure := m.failure.summary
    latencySetup := m.setup.summary
    timeoutsCensored := ⟨censored.count, m.deadlineMsMin, m.deadlineMsMax, censored⟩
    statusDistribution := m.status.entries.toList
    failureCategories := m.failureSamples
    bytesSent := m.bytesSent
    bytesReceived := m.bytesReceived
    protocols := m.protocols.entries.toList
    destinations := m.destinations.toList
    protocol := m.proto.summary plan.unit plan.units
    maxScheduleLagUs := lag.maxUs
    p99ScheduleLagUs := lag.p99Us }

/-- The clauses that hold of a snapshot of a plan with unit kind `kind`. -/
def ProtocolClauses (kind : LoadUnitKind) (s : MetricsSnapshot) : Prop :=
  match kind with
  | .websocketSession | .tcpExchange => checkProtocolBalance s.protocol s.requests = .ok ()
  | .udpExchange | .dtlsExchange => ∃ d, s.protocol.datagram = some d ∧ checkResponses s.requests d = .ok () ∧
      checkHandshakes s.requests.settledSends d = .ok () ∧
      ∀ t, d.tunnels = some t → checkTunnelEnds s.requests.settledSends t = .ok ()
  | _ => True

/-- A consistent cut: the request counts and the metrics are those of one history of entries. -/
structure Consistent (plan : PlanUnits) (log : List Entry) (s : MetricsSnapshot) : Prop where
  requests : { s.requests with started := 0, inFlightAtEnd := 0 } = settledOf log
  censored : s.timeoutsCensored.count = s.requests.timeouts
  classes : s.latencySuccess.count + s.latencyFailure.count + log.countP Entry.unanswered =
    s.requests.completed + s.requests.transportFailures
  protocol : ProtocolClauses plan.unit s

variable {parseUrl : String → Option ParsedUrl} {plan : PlanUnits}

theorem Cut.Ok.settledSends {cut : Cut} (h : cut.Ok parseUrl plan) :
    cut.measured.balanced.2.settledSends = cut.measured.requests.ended := by
  have := h.started
  show cut.measured.requests.started - min cut.measured.sendInFlight cut.measured.requests.started = _
  omega

theorem checkProtocolBalance_ws {a : ProtoAccum} {units : List StepUnit} {q : RequestCounts}
    (h : checkWebSocket q.settledSends (a.wsSummary units) = .ok ()) :
    checkProtocolBalance (a.summary .websocketSession units) q = .ok () := by
  simp only [checkProtocolBalance, ProtoAccum.summary, h]
  rfl

theorem checkProtocolBalance_tcp {a : ProtoAccum} {units : List StepUnit} {q : RequestCounts}
    (h : checkTcp q q.settledSends (a.tcpSummary units) = .ok ()) :
    checkProtocolBalance (a.summary .tcpExchange units) q = .ok () := by
  simp only [checkProtocolBalance, ProtoAccum.summary, h]
  rfl

/-- `in_flight_at_end` is filled in by `balanced` only. -/
theorem settledOf_inFlightAtEnd (log : List Entry) : (settledOf log).inFlightAtEnd = 0 := by
  refine law_all (fun _ => True) (fun _ _ r => r.inFlightAtEnd = 0) rfl ?_ log fun _ _ => trivial
  intro es e t r _ hr
  cases e with
  | lag us => exact hr
  | send o =>
    show (LedgerState.settle r o).inFlightAtEnd = 0
    unfold LedgerState.settle
    cases o.terminal <;> exact hr

section CutLaws
variable {cut : Cut} (h : cut.Ok parseUrl plan) {m : Metrics} (hm : m.totals = totalsOf cut.log)
include h hm

theorem Cut.Ok.wsLaw (hk : plan.unit = .websocketSession) : WsLaw plan.units m.proto cut.measured.balanced.2 := by
  have hall : WsLaw plan.units (totalsOf cut.log).proto (settledOf cut.log) := wsLaw_all cut.log fun o ho => by
    obtain ⟨out, wallUs, u, hu, rfl⟩ := h.observed o ho
    exact observe_ws parseUrl out wallUs hu ((plan.sameKind u hu).trans hk)
  rw [← h.requests, ← congrArg Totals.proto hm] at hall
  exact ⟨hall.settled, hall.clean, hall.closes, hall.rtt⟩

theorem Cut.Ok.tcpLaw (hk : plan.unit = .tcpExchange) : TcpLaw plan.units m.proto cut.measured.balanced.2 := by
  have hall : TcpLaw plan.units (totalsOf cut.log).proto (settledOf cut.log) := tcpLaw_all cut.log fun o ho => by
    obtain ⟨out, wallUs, u, hu, rfl⟩ := h.observed o ho
    exact observe_tcp parseUrl out wallUs hu ((plan.sameKind u hu).trans hk)
  rw [← h.requests, ← congrArg Totals.proto hm] at hall
  exact ⟨hall.connected, hall.judged, hall.expected, hall.short⟩

theorem Cut.Ok.dgramLaw (hk : plan.unit = .udpExchange ∨ plan.unit = .dtlsExchange) :
    DgramLaw m.proto cut.measured.balanced.2.completed cut.measured.requests.ended cut.measured.requests.ended := by
  have hall := dgramLaw_all cut.log fun o ho => by
    obtain ⟨out, wallUs, u, hu, rfl⟩ := h.observed o ho
    exact observe_dgram parseUrl out wallUs (by rw [plan.sameKind u hu]; exact hk)
  rw [← h.requests, ← congrArg Totals.proto hm] at hall
  exact hall

theorem Cut.Ok.protocolClauses : ProtocolClauses plan.unit (snapshotOf plan cut.measured cut.warmup m) := by
  have hsettled := h.settledSends
  have hsummary : (snapshotOf plan cut.measured cut.warmup m).protocol = m.proto.summary plan.unit plan.units := rfl
  have hrequests : (snapshotOf plan cut.measured cut.warmup m).requests = cut.measured.balanced.2 := rfl
  unfold ProtocolClauses
  rw [hsummary, hrequests]
  cases hk : plan.unit with
  | websocketSession =>
    refine checkProtocolBalance_ws ?_
    rw [hsettled]
    exact (h.wsLaw hm hk).check
  | tcpExchange =>
    refine checkProtocolBalance_tcp ?_
    rw [hsettled]
    exact (h.tcpLaw hm hk).check
  | udpExchange | dtlsExchange =>
    have hlaw := h.dgramLaw hm (by rw [hk]; simp)
    refine ⟨_, rfl, hlaw.checkResponses _, ?_, fun t ht => ?_⟩ <;> rw [hsettled]
    · exact hlaw.checkHandshakes _
    · exact hlaw.checkTunnelEnds _ ht
  | httpRequest | grpcCall | grpcStream | grpcClientStream | grpcBidiStream | sseStream => trivial

theorem Cut.Ok.consistent : Consistent plan cut.log (snapshotOf plan cut.measured cut.warmup m) where
  requests := by
    have hin : cut.measured.requests.inFlightAtEnd = 0 :=
      (congrArg RequestCounts.inFlightAtEnd h.requests).trans (settledOf_inFlightAtEnd cut.log)
    rw [← h.requests]
    show { cut.measured.requests with started := 0, inFlightAtEnd := 0 } = { cut.measured.requests with started := 0 }
    rw [← hin]
  censored := by
    have hlaw := (classLaw_all cut.log).censored
    rw [← hm, ← h.requests] at hlaw
    exact (LatencyStat.summary_count m.censored).trans hlaw
  classes := by
    have hlaw := (classLaw_all cut.log).classes
    rw [← hm, ← h.requests] at hlaw
    refine Eq.trans ?_ hlaw
    show m.success.summary.count + m.failure.summary.count + _ = m.success.count + m.failure.count + _
    rw [LatencyStat.summary_count, LatencyStat.summary_count]
  protocol := h.protocolClauses hm

end CutLaws

/-- **Every snapshot of every interleaving is a consistent cut.** -/
theorem snapshot_consistent {abort : Option AbortRule} {shards tasks viewers : Nat} {w : World}
    (hr : Reaches (WorldStep parseUrl abort plan) (World.init shards tasks viewers) w) {cut : Cut} {m : Metrics}
    (hs : (cut, m) ∈ w.taken) : Consistent plan cut.log (snapshotOf plan cut.measured cut.warmup m) := by
  have h : w.Inv parseUrl plan :=
    Reaches.inv (World.Inv parseUrl plan) (fun _ _ => WorldStep.inv) hr (World.init_inv shards tasks viewers)
  obtain ⟨hok, hm⟩ := h.taken _ hs
  exact hok.consistent hm

end Report

def sessionPlan : PlanUnits where
  unit := .websocketSession
  units := [⟨.websocketSession, none, 0, false, none⟩]
  sameKind u hu := by rw [List.mem_singleton.1 hu]
  sameTunnel u hu v hv := by rw [List.mem_singleton.1 hu, List.mem_singleton.1 hv]

/-- A session whose connection was refused. -/
def refusedSession : ExecutionOutput where
  record := ⟨"GET", "ws://host/", [], none, none, ⟨.failed, .notEvaluated, .notRun, .none, "refused"⟩, [], []⟩
  sessionFacts := none

/-- A viewer that takes its snapshot after one measured session. -/
theorem snapshot_consistent_session : ∃ w, Reaches (@WorldStep unitLayout (fun _ => none) none sessionPlan)
    (World.init 1 1 1) w ∧ ∃ s ∈ w.taken, s.1.log.length = 1 ∧ s.1.measured.requests.transportFailures = 1 ∧
    Consistent sessionPlan s.1.log (@snapshotOf unitLayout sessionPlan s.1.measured s.1.warmup s.2) := by
  let Steps := @WorldStep unitLayout (fun _ => none) none sessionPlan
  have h₁ : Reaches Steps (World.init 1 1 1) _ := .tail (.tail .refl
    (@WorldStep.beginIteration unitLayout _ _ _ _ 0 true rfl)) (@WorldStep.beginSend unitLayout _ _ _ _ 0 _ 0 rfl)
  have h₂ : Reaches Steps (World.init 1 1 1) _ := .tail (.tail h₁
    (@WorldStep.lock unitLayout _ _ _ _ 0 _ _ refusedSession 0 _ (List.mem_singleton.2 rfl) rfl rfl))
    (@WorldStep.count unitLayout _ _ _ _ 0 _ _ _ 0 0 rfl rfl)
  have h₃ : Reaches Steps (World.init 1 1 1) _ := .tail (.tail h₂
    (@WorldStep.record unitLayout _ _ _ _ 0 _ _ _ {} rfl rfl)) (@WorldStep.unlock unitLayout _ _ _ _ 0 _ _ rfl rfl)
  have h₄ : Reaches Steps (World.init 1 1 1) _ := .tail (.tail h₃ (@WorldStep.viewStart unitLayout _ _ _ _ 0 rfl))
    (@WorldStep.viewLock unitLayout _ _ _ _ 0 _ _ rfl rfl)
  have h₅ : Reaches Steps (World.init 1 1 1) _ := .tail (.tail (.tail h₄ (@WorldStep.viewCopy unitLayout _ _ _ _ 0 rfl))
    (@WorldStep.viewMerge unitLayout _ _ _ _ 0 _ _ _ _ rfl rfl)) (@WorldStep.viewDone unitLayout _ _ _ _ 0 _ _ rfl)
  exact ⟨_, h₅, _, List.mem_singleton.2 rfl, rfl, rfl, @snapshot_consistent unitLayout _ _ _ _ _ _ _ h₅ _ _
    (List.mem_singleton.2 rfl)⟩

end Anvil.Load
