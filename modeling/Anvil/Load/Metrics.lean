import Anvil.Lib.CountMap
import Anvil.Lib.Run
import Anvil.Load.Observe
import Mathlib.Algebra.BigOperators.Fin

/-!
# Mergeable load metrics (`anvil-load/src/metrics.rs`)

Each shard owns a `Metrics`; `record` counts one send in it and `merge` adds another shard's. A `LatencyStat` carries that an
empty distribution is the new one and that its minimum is a 64-bit value, and a `GrpcCode` that it is one of the bucketed
codes, so that merging with an empty accumulator changes nothing.

The bucket layout and the quantiles of the histogram package are the parameter `HdrLayout`; adding two histograms of one
layout adds their bucket counts.

* `LatencyStat`, `ProtoAccum`, `Totals` are commutative monoids under their `merge`;
* `Metrics.totals` : the part of a `Metrics` that does not depend on the order of recording; `totals_record`, `totals_merge` :
  recording adds the observation's own totals, merging adds the shard's;
* `Categories.Bounded` : the bounds of the failure categories;
* `shards_merge_whole` : every split over shards, merged in any order, gives what one shard gives.
-/

set_option linter.unusedSectionVars false

namespace Anvil.Load
open Anvil.Lib

def latencyMaxUs : Nat := 3600000000
def primarySigfig : Nat := 3
def secondarySigfig : Nat := 2
def maxCategories : Nat := 32
def maxExamples : Nat := 5
def maxDestinations : Nat := 16
def maxProtocols : Nat := 8
def otherCategory : String := "other (category limit reached)"

/-! ## Histograms and distributions -/

/-- A histogram with bounds `1` and `latencyMaxUs`. -/
structure Histogram (sigfig : Nat) where
  counts : CountMap Nat := {}

/-- `hdrhistogram`: the bucket a value is counted in, at a number of significant figures, and the value at a quantile
given in thousandths. -/
class HdrLayout where
  index : (sigfig value : Nat) → Nat
  valueAtQuantile : {sigfig : Nat} → Histogram sigfig → Nat → Nat

namespace Histogram
variable {sigfig : Nat}

def saturatingRecord [HdrLayout] (h : Histogram sigfig) (v : Nat) : Histogram sigfig :=
  ⟨h.counts.bump (HdrLayout.index sigfig v) 1⟩

def len (h : Histogram sigfig) : Nat := h.counts.total

/-- Pointwise sum of the bucket counts. -/
def add (h o : Histogram sigfig) : Histogram sigfig := ⟨h.counts + o.counts⟩

theorem empty_extremes (sigfig : Nat) : ({} : Histogram sigfig).len = 0 →
    ({} : Histogram sigfig).counts = 0 ∧ u64Max = u64Max ∧ 0 = 0 ∧ 0 = 0 :=
  fun _ => ⟨rfl, rfl, rfl, rfl⟩

end Histogram

/-- A latency distribution with exact extremes and sum. -/
structure LatencyStat (sigfig : Nat) where
  hist : Histogram sigfig := {}
  min : Nat := u64Max
  max : Nat := 0
  sum : Nat := 0
  min_le : min ≤ u64Max := by exact le_rfl
  of_empty : hist.len = 0 → hist.counts = 0 ∧ min = u64Max ∧ max = 0 ∧ sum = 0 := by
    exact Histogram.empty_extremes _

namespace LatencyStat
variable {sigfig : Nat}

def record [HdrLayout] (s : LatencyStat sigfig) (us : Nat) : LatencyStat sigfig where
  hist := s.hist.saturatingRecord (Nat.max 1 (Nat.min us latencyMaxUs))
  min := Nat.min s.min us
  max := Nat.max s.max us
  sum := s.sum + us
  min_le := (Nat.min_le_left _ _).trans s.min_le
  of_empty h := by
    rw [Histogram.saturatingRecord, Histogram.len, CountMap.total_bump] at h
    omega

def count (s : LatencyStat sigfig) : Nat := s.hist.len

def merge (s o : LatencyStat sigfig) : LatencyStat sigfig :=
  if h : o.count = 0 then s
  else
    { hist := s.hist.add o.hist
      min := Nat.min s.min o.min
      max := Nat.max s.max o.max
      sum := s.sum + o.sum
      min_le := (Nat.min_le_left _ _).trans s.min_le
      of_empty := fun he => by
        have ho : o.hist.counts.total ≠ 0 := h
        rw [Histogram.add, Histogram.len, CountMap.total_add] at he
        omega }

end LatencyStat

/-! ## Protocol accumulators -/

def grpcStatusMax : Int := 16
def grpcStatusInvalid : Int := -1

/-- Status-count key of a terminal `grpc-status`. -/
def grpcStatusBucket (code : Int) : Int := if 0 ≤ code ∧ code ≤ grpcStatusMax then code else grpcStatusInvalid

theorem grpcStatusBucket_idem (code : Int) : grpcStatusBucket (grpcStatusBucket code) = grpcStatusBucket code := by
  unfold grpcStatusBucket
  split_ifs <;> rfl

/-- A key of the gRPC status counts: a valid code or the invalid one. -/
structure GrpcCode where
  code : Int
  bucketed : grpcStatusBucket code = code
deriving DecidableEq

def GrpcCode.of (code : Int) : GrpcCode := ⟨grpcStatusBucket code, grpcStatusBucket_idem code⟩

theorem GrpcCode.of_code (c : GrpcCode) : GrpcCode.of c.code = c := by
  cases c with
  | mk code h => simp only [GrpcCode.of, h]

instance : Ord GrpcCode := ⟨fun a b => compare a.code b.code⟩

instance : Std.TransOrd GrpcCode where
  eq_swap := fun {a b} => Std.OrientedOrd.eq_swap (a := a.code) (b := b.code)
  isLE_trans := fun {a b c} => Std.TransOrd.isLE_trans (a := a.code) (b := b.code) (c := c.code)

instance : Std.LawfulEqOrd GrpcCode where
  compare_self := fun {a} => Std.ReflOrd.compare_self (a := a.code)
  eq_of_compare := fun {a b} h => by
    cases a; cases b
    simp only [GrpcCode.mk.injEq]
    exact Std.LawfulEqOrd.eq_of_compare h

def closedKey : ClosedBy → Nat
  | .peer => 0
  | .client => 1
  | .abnormal => 2
  | .timeout => 3
  | .notClosed => 4

/-- (closed-by key, close code). -/
abbrev EndKey : Type := Nat × Option Nat

instance : Ord EndKey := lexOrd

instance EndKey.transOrd : Std.TransOrd EndKey := Std.instTransOrdProd

@[ext] structure ProtoAccum where
  fallbackAttempts : Nat := 0
  unitsWithFallback : Nat := 0
  unitsOverH3 : Nat := 0
  grpcCodes : CountMap GrpcCode := {}
  grpcMissingStatus : Nat := 0
  streamsOpened : Nat := 0
  messagesReceived : Nat := 0
  withMessages : Nat := 0
  firstMessage : LatencyStat secondarySigfig := {}
  ends : CountMap EndKey := {}
  wsOpened : Nat := 0
  wsRejected : Nat := 0
  wsNotOpened : Nat := 0
  wsClean : Nat := 0
  wsSent : Nat := 0
  wsReceived : Nat := 0
  rtt : LatencyStat secondarySigfig := {}
  rttUnpaired : Nat := 0
  tcpConnected : Nat := 0
  framesSent : Nat := 0
  framesReceived : Nat := 0
  tcpBytesSent : Nat := 0
  tcpBytesReceived : Nat := 0
  partialFrames : Nat := 0
  peerCloses : Nat := 0
  expectationMet : Nat := 0
  expectationShort : Nat := 0
  dgSent : Nat := 0
  dgReceived : Nat := 0
  withResponse : Nat := 0
  silent : Nat := 0
  repeated : Nat := 0
  echoed : Nat := 0
  icmp : Nat := 0
  firstResponse : LatencyStat secondarySigfig := {}
  hsAttempted : Nat := 0
  hsCompleted : Nat := 0
  hsFailed : Nat := 0
  hsTimedOut : Nat := 0
  hsDuration : LatencyStat secondarySigfig := {}
  messagesSent : Nat := 0
  tnAttempted : Nat := 0
  tnEstablished : Nat := 0
  tnRefused : Nat := 0
  tnFailed : Nat := 0
  tnTimedOut : Nat := 0
  tnCanceled : Nat := 0
  tnSetup : LatencyStat secondarySigfig := {}

namespace ProtoAccum
variable [HdrLayout]

def recordAttempts (a : ProtoAccum) (p : ProtoObs) : ProtoAccum :=
  { a with
    fallbackAttempts := a.fallbackAttempts + p.fallbackAttempts
    unitsWithFallback := a.unitsWithFallback + (decide (p.fallbackAttempts > 0)).toNat
    unitsOverH3 := a.unitsOverH3 + p.finalH3.toNat }

def recordGrpcStatus (a : ProtoAccum) (p : ProtoObs) (completed : Bool) : ProtoAccum :=
  match p.grpcStatus with
  | some c => if completed then { a with grpcCodes := a.grpcCodes.bump (GrpcCode.of c) 1 } else a
  | none => a

def recordStream (a : ProtoAccum) (p : ProtoObs) : ProtoAccum :=
  let a := { a with
    grpcMissingStatus := a.grpcMissingStatus + p.grpcMissingStatus.toNat
    streamsOpened := a.streamsOpened + p.streamOpened.toNat
    messagesSent := a.messagesSent + p.messagesSent
    messagesReceived := a.messagesReceived + p.messagesReceived }
  let a := if p.streamOpened && p.messagesReceived > 0 then
      { a with
        withMessages := a.withMessages + 1
        firstMessage := match p.firstMessageUs with
          | some t => a.firstMessage.record t
          | none => a.firstMessage }
    else a
  match p.streamEnd with
  | some closer => { a with ends := a.ends.bump (closedKey closer, none) 1 }
  | none => a

def recordWs (a : ProtoAccum) (w : WsObs) (completed : Bool) : ProtoAccum :=
  let a := if w.opened then
      { a with
        wsOpened := a.wsOpened + 1
        wsClean := a.wsClean + completed.toNat
        ends := match w.close with
          | some (closer, code) => a.ends.bump (closedKey closer, code) 1
          | none => a.ends }
    else if w.rejected then { a with wsRejected := a.wsRejected + 1 }
    else { a with wsNotOpened := a.wsNotOpened + 1 }
  { a with
    wsSent := a.wsSent + w.sent
    wsReceived := a.wsReceived + w.received
    rtt := w.rtts.foldl (fun s r => s.record r) a.rtt
    rttUnpaired := a.rttUnpaired + w.unpaired.toNat }

def recordTcp (a : ProtoAccum) (t : TcpObs) : ProtoAccum :=
  let a := { a with
    tcpConnected := a.tcpConnected + t.connected.toNat
    framesSent := a.framesSent + t.framesSent
    framesReceived := a.framesReceived + t.framesReceived
    tcpBytesSent := a.tcpBytesSent + t.bytesSent
    tcpBytesReceived := a.tcpBytesReceived + t.bytesReceived
    partialFrames := a.partialFrames + t.partialFrame.toNat
    peerCloses := a.peerCloses + t.peerClose.toNat }
  match t.expectation with
  | some true => { a with expectationMet := a.expectationMet + 1 }
  | some false => { a with expectationShort := a.expectationShort + 1 }
  | none => a

/-- Datagrams and whether a completed exchange had a response. -/
def recordResponse (a : ProtoAccum) (d : DgramObs) (completed : Bool) : ProtoAccum :=
  let a := { a with dgSent := a.dgSent + d.sent, dgReceived := a.dgReceived + d.received }
  let a := if completed then
      if d.received > 0 then
        { a with
          withResponse := a.withResponse + 1
          firstResponse := match d.ttfrUs with
            | some t => a.firstResponse.record t
            | none => a.firstResponse }
      else { a with silent := a.silent + 1 }
    else a
  { a with
    repeated := a.repeated + d.repeated
    echoed := a.echoed + d.echoed
    icmp := a.icmp + d.icmp.toNat }

def recordHandshake (a : ProtoAccum) (status : PhaseStatus) (dur : Option Nat) : ProtoAccum :=
  let a := { a with hsAttempted := a.hsAttempted + 1 }
  match status with
  | .completed =>
    { a with
      hsCompleted := a.hsCompleted + 1
      hsDuration := match dur with
        | some us => a.hsDuration.record us
        | none => a.hsDuration }
  | .failed => { a with hsFailed := a.hsFailed + 1 }
  | .timedOut => { a with hsTimedOut := a.hsTimedOut + 1 }
  | _ => a

def recordTunnel (a : ProtoAccum) (t : TunnelEnd) : ProtoAccum :=
  let a := { a with tnAttempted := a.tnAttempted + 1 }
  match t with
  | .established setupUs => { a with tnEstablished := a.tnEstablished + 1, tnSetup := a.tnSetup.record setupUs }
  | .refused => { a with tnRefused := a.tnRefused + 1 }
  | .failed => { a with tnFailed := a.tnFailed + 1 }
  | .timedOut => { a with tnTimedOut := a.tnTimedOut + 1 }
  | .canceled => { a with tnCanceled := a.tnCanceled + 1 }

def recordDgram (a : ProtoAccum) (d : DgramObs) (completed : Bool) : ProtoAccum :=
  let a := a.recordResponse d completed
  let a := match d.handshake with
    | some (status, dur) => a.recordHandshake status dur
    | none => a
  match d.tunnel with
  | some t => a.recordTunnel t
  | none => a

def record (a : ProtoAccum) (o : SendObservation) : ProtoAccum :=
  let p := o.proto
  let completed : Bool := o.terminal = .completed
  let a := ((a.recordAttempts p).recordGrpcStatus p completed).recordStream p
  let a := match p.ws with
    | some w => a.recordWs w completed
    | none => a
  let a := match p.tcp with
    | some t => a.recordTcp t
    | none => a
  match p.dgram with
  | some d => a.recordDgram d completed
  | none => a

omit [HdrLayout] in
def merge (a o : ProtoAccum) : ProtoAccum where
  fallbackAttempts := a.fallbackAttempts + o.fallbackAttempts
  unitsWithFallback := a.unitsWithFallback + o.unitsWithFallback
  unitsOverH3 := a.unitsOverH3 + o.unitsOverH3
  grpcCodes := o.grpcCodes.entries.foldl (fun m c n => m.bump (GrpcCode.of c.code) n) a.grpcCodes
  grpcMissingStatus := a.grpcMissingStatus + o.grpcMissingStatus
  streamsOpened := a.streamsOpened + o.streamsOpened
  messagesReceived := a.messagesReceived + o.messagesReceived
  withMessages := a.withMessages + o.withMessages
  firstMessage := a.firstMessage.merge o.firstMessage
  ends := a.ends.addAll o.ends
  wsOpened := a.wsOpened + o.wsOpened
  wsRejected := a.wsRejected + o.wsRejected
  wsNotOpened := a.wsNotOpened + o.wsNotOpened
  wsClean := a.wsClean + o.wsClean
  wsSent := a.wsSent + o.wsSent
  wsReceived := a.wsReceived + o.wsReceived
  rtt := a.rtt.merge o.rtt
  rttUnpaired := a.rttUnpaired + o.rttUnpaired
  tcpConnected := a.tcpConnected + o.tcpConnected
  framesSent := a.framesSent + o.framesSent
  framesReceived := a.framesReceived + o.framesReceived
  tcpBytesSent := a.tcpBytesSent + o.tcpBytesSent
  tcpBytesReceived := a.tcpBytesReceived + o.tcpBytesReceived
  partialFrames := a.partialFrames + o.partialFrames
  peerCloses := a.peerCloses + o.peerCloses
  expectationMet := a.expectationMet + o.expectationMet
  expectationShort := a.expectationShort + o.expectationShort
  dgSent := a.dgSent + o.dgSent
  dgReceived := a.dgReceived + o.dgReceived
  withResponse := a.withResponse + o.withResponse
  silent := a.silent + o.silent
  repeated := a.repeated + o.repeated
  echoed := a.echoed + o.echoed
  icmp := a.icmp + o.icmp
  firstResponse := a.firstResponse.merge o.firstResponse
  hsAttempted := a.hsAttempted + o.hsAttempted
  hsCompleted := a.hsCompleted + o.hsCompleted
  hsFailed := a.hsFailed + o.hsFailed
  hsTimedOut := a.hsTimedOut + o.hsTimedOut
  hsDuration := a.hsDuration.merge o.hsDuration
  messagesSent := a.messagesSent + o.messagesSent
  tnAttempted := a.tnAttempted + o.tnAttempted
  tnEstablished := a.tnEstablished + o.tnEstablished
  tnRefused := a.tnRefused + o.tnRefused
  tnFailed := a.tnFailed + o.tnFailed
  tnTimedOut := a.tnTimedOut + o.tnTimedOut
  tnCanceled := a.tnCanceled + o.tnCanceled
  tnSetup := a.tnSetup.merge o.tnSetup

end ProtoAccum

/-! ## `Metrics` -/

structure Category where
  count : Nat := 0
  examples : List String := []
deriving DecidableEq

abbrev Categories : Type := Std.ExtTreeMap String Category

structure Metrics where
  success : LatencyStat primarySigfig := {}
  failure : LatencyStat primarySigfig := {}
  setup : LatencyStat secondarySigfig := {}
  censored : LatencyStat secondarySigfig := {}
  deadlineMsMin : Option Nat := none
  deadlineMsMax : Option Nat := none
  lag : LatencyStat secondarySigfig := {}
  status : CountMap Nat := {}
  categories : Categories := ∅
  bytesSent : Nat := 0
  bytesReceived : Nat := 0
  protocols : CountMap String := {}
  destinations : Std.ExtTreeSet String := ∅
  proto : ProtoAccum := {}

/-- The category a failure is counted under: its own while there is room. -/
def categoryKey (cs : Categories) (name : String) : String :=
  if cs.contains name || cs.size < maxCategories - 1 then name else otherCategory

def Category.add (c : Category) (count : Nat) (examples : List String) : Category :=
  { count := c.count + count, examples := c.examples ++ examples.take (maxExamples - c.examples.length) }

def addCategory (cs : Categories) (name : String) (count : Nat) (examples : List String) : Categories :=
  cs.alter (categoryKey cs name) fun c => some ((c.getD {}).add count examples)

/-- A deadline bound (`map_or`) after one more deadline. -/
def widen (f : Nat → Nat → Nat) (bound : Option Nat) (d : Nat) : Option Nat :=
  some (match bound with
    | some m => f m d
    | none => d)

def addProtocol (ps : CountMap String) (p : String) (n : Nat) : CountMap String :=
  if ps.entries.contains p || ps.entries.size < maxProtocols then ps.bump p n else ps

def addDestination (ds : Std.ExtTreeSet String) (d : String) : Std.ExtTreeSet String :=
  if ds.size < maxDestinations then ds.insert d else ds

namespace Metrics
variable [HdrLayout]

/-- The distribution an observation belongs to. -/
def recordClass (m : Metrics) (o : SendObservation) : Metrics :=
  match o.terminal with
  | .canceled => m
  | .timeout =>
    let m := { m with censored := m.censored.record o.latencyUs }
    match o.deadlineMs with
    | some d => { m with deadlineMsMin := widen Nat.min m.deadlineMsMin d, deadlineMsMax := widen Nat.max m.deadlineMsMax d }
    | none => m
  | _ =>
    if o.isSuccess then { m with success := m.success.record o.latencyUs }
    else if o.isFailure then { m with failure := m.failure.record o.latencyUs }
    else m

def record (m : Metrics) (o : SendObservation) : Metrics :=
  let m := m.recordClass o
  { m with
    proto := m.proto.record o
    setup := if o.terminal ≠ .canceled then m.setup.record o.setupUs else m.setup
    status := match o.status with
      | some s => m.status.bump s 1
      | none => m.status
    categories := match o.category with
      | some c => addCategory m.categories c 1 o.sample.toList
      | none => m.categories
    bytesSent := m.bytesSent + o.bytesSent
    bytesReceived := m.bytesReceived + o.bytesReceived
    protocols := match o.protocol with
      | some p => addProtocol m.protocols p 1
      | none => m.protocols
    destinations := match o.destination with
      | some d => addDestination m.destinations d
      | none => m.destinations }

/-- The metrics part of `record_lag`. -/
def recordLag (m : Metrics) (us : Nat) : Metrics := { m with lag := m.lag.record us }

omit [HdrLayout] in
def merge (m o : Metrics) : Metrics where
  proto := m.proto.merge o.proto
  success := m.success.merge o.success
  failure := m.failure.merge o.failure
  setup := m.setup.merge o.setup
  censored := m.censored.merge o.censored
  lag := m.lag.merge o.lag
  deadlineMsMin := match o.deadlineMsMin with
    | some b => widen Nat.min m.deadlineMsMin b
    | none => m.deadlineMsMin
  deadlineMsMax := match o.deadlineMsMax with
    | some b => widen Nat.max m.deadlineMsMax b
    | none => m.deadlineMsMax
  status := m.status.addAll o.status
  categories := o.categories.foldl (fun cs name c => addCategory cs name c.count c.examples) m.categories
  bytesSent := m.bytesSent + o.bytesSent
  bytesReceived := m.bytesReceived + o.bytesReceived
  protocols := o.protocols.entries.foldl (fun ps p n => addProtocol ps p n) m.protocols
  destinations := o.destinations.foldl (fun ds d => addDestination ds d) m.destinations

end Metrics

/-! ## Distributions form a commutative monoid -/

namespace LatencyStat
variable {sigfig : Nat}

theorem ext_data {s t : LatencyStat sigfig} (h₁ : s.hist.counts = t.hist.counts) (h₂ : s.min = t.min)
    (h₃ : s.max = t.max) (h₄ : s.sum = t.sum) : s = t := by
  obtain ⟨⟨_⟩, _, _, _, _, _⟩ := s
  obtain ⟨⟨_⟩, _, _, _, _, _⟩ := t
  simp only at h₁ h₂ h₃ h₄
  subst h₁ h₂ h₃ h₄
  rfl

instance : Zero (LatencyStat sigfig) := ⟨{}⟩
instance : Add (LatencyStat sigfig) := ⟨merge⟩

theorem merge_eq (s o : LatencyStat sigfig) : s.merge o = s + o := rfl

/-- Skipping an empty distribution is the same as adding it. -/
theorem add_data (s o : LatencyStat sigfig) :
    (s + o).hist.counts = s.hist.counts + o.hist.counts ∧ (s + o).min = Nat.min s.min o.min ∧
      (s + o).max = Nat.max s.max o.max ∧ (s + o).sum = s.sum + o.sum := by
  rw [← merge_eq, merge]
  split_ifs with h
  · obtain ⟨h₁, h₂, h₃, h₄⟩ := o.of_empty h
    rw [h₁, h₂, h₃, h₄]
    exact ⟨(add_zero _).symm, (Nat.min_eq_left s.min_le).symm, (Nat.max_zero _).symm, (Nat.add_zero _).symm⟩
  · exact ⟨rfl, rfl, rfl, rfl⟩

instance : AddCommMonoid (LatencyStat sigfig) where
  add_assoc a b c := by
    obtain ⟨h₁, h₂, h₃, h₄⟩ := add_data (a + b) c
    obtain ⟨h₅, h₆, h₇, h₈⟩ := add_data a (b + c)
    apply ext_data
    · rw [h₁, h₅, (add_data a b).1, (add_data b c).1, add_assoc]
    · rw [h₂, h₆, (add_data a b).2.1, (add_data b c).2.1]; exact Nat.min_assoc _ _ _
    · rw [h₃, h₇, (add_data a b).2.2.1, (add_data b c).2.2.1]; exact Nat.max_assoc _ _ _
    · rw [h₄, h₈, (add_data a b).2.2.2, (add_data b c).2.2.2, Nat.add_assoc]
  zero_add a := by
    obtain ⟨h₁, h₂, h₃, h₄⟩ := add_data 0 a
    apply ext_data
    · rw [h₁]; exact zero_add _
    · rw [h₂]; exact Nat.min_eq_right a.min_le
    · rw [h₃]; exact Nat.zero_max _
    · rw [h₄]; exact Nat.zero_add _
  add_zero a := rfl
  add_comm a b := by
    obtain ⟨h₁, h₂, h₃, h₄⟩ := add_data a b
    obtain ⟨h₅, h₆, h₇, h₈⟩ := add_data b a
    apply ext_data
    · rw [h₁, h₅, add_comm]
    · rw [h₂, h₆]; exact Nat.min_comm _ _
    · rw [h₃, h₇]; exact Nat.max_comm _ _
    · rw [h₄, h₈, Nat.add_comm]
  nsmul := nsmulRec

@[simp] theorem count_zero : (0 : LatencyStat sigfig).count = 0 := rfl

@[simp] theorem count_add (s o : LatencyStat sigfig) : (s + o).count = s.count + o.count := by
  show (s + o).hist.counts.total = s.hist.counts.total + o.hist.counts.total
  rw [(add_data s o).1, CountMap.total_add]

variable [HdrLayout]

@[simp] theorem count_record (s : LatencyStat sigfig) (us : Nat) : (s.record us).count = s.count + 1 :=
  CountMap.total_bump _ _ _

theorem record_eq_add (s : LatencyStat sigfig) (us : Nat) : s.record us = s + (0 : LatencyStat sigfig).record us := by
  obtain ⟨h₁, h₂, h₃, h₄⟩ := add_data s ((0 : LatencyStat sigfig).record us)
  apply ext_data
  · rw [h₁]; exact CountMap.bump_eq_add _ _ _
  · rw [h₂]
    show Nat.min s.min us = Nat.min s.min (Nat.min u64Max us)
    rw [show Nat.min s.min (Nat.min u64Max us) = Nat.min (Nat.min s.min u64Max) us from
      (Nat.min_assoc _ _ _).symm, show Nat.min s.min u64Max = s.min from Nat.min_eq_left s.min_le]
  · rw [h₃]
    show Nat.max s.max us = Nat.max s.max (Nat.max 0 us)
    rw [show Nat.max 0 us = us from Nat.zero_max us]
  · rw [h₄]
    show s.sum + us = s.sum + (0 + us)
    rw [Nat.zero_add]

/-- Recording a list of values adds what recording it from nothing gives. -/
theorem foldl_record_eq_add (vs : List Nat) :
    ∀ s : LatencyStat sigfig, vs.foldl (fun s v => s.record v) s =
      s + vs.foldl (fun s v => s.record v) (0 : LatencyStat sigfig) := by
  induction vs with
  | nil => intro s; exact (add_zero s).symm
  | cons v vs ih =>
    intro s
    rw [List.foldl_cons, List.foldl_cons, ih (s.record v), ih ((0 : LatencyStat sigfig).record v), record_eq_add s v,
      add_assoc]

theorem count_foldl_record (vs : List Nat) :
    ∀ s : LatencyStat sigfig, (vs.foldl (fun s v => s.record v) s).count = s.count + vs.length := by
  induction vs with
  | nil => intro s; rfl
  | cons v vs ih =>
    intro s
    rw [List.foldl_cons, ih, count_record, List.length_cons]
    omega

end LatencyStat

/-! ## Protocol accumulators form a commutative monoid -/

namespace ProtoAccum

instance : Zero ProtoAccum := ⟨{}⟩
instance : Add ProtoAccum := ⟨merge⟩

theorem zero_grpcCodes : (0 : ProtoAccum).grpcCodes = 0 := rfl

/-- A key of the status counts is bucketed already. -/
theorem add_grpcCodes (a o : ProtoAccum) : (a + o).grpcCodes = a.grpcCodes + o.grpcCodes := by
  show o.grpcCodes.entries.foldl (fun m c n => m.bump (GrpcCode.of c.code) n) a.grpcCodes = _
  simp only [GrpcCode.of_code]
  rfl

instance : AddCommMonoid ProtoAccum where
  add_assoc a b c := by
    apply ProtoAccum.ext
    case grpcCodes => simp only [add_grpcCodes, add_assoc]
    all_goals exact add_assoc _ _ _
  zero_add a := by
    apply ProtoAccum.ext
    case grpcCodes => rw [add_grpcCodes]; exact zero_add _
    all_goals exact zero_add _
  add_zero a := by
    apply ProtoAccum.ext
    case grpcCodes => rw [add_grpcCodes]; exact add_zero _
    all_goals exact add_zero _
  add_comm a b := by
    apply ProtoAccum.ext
    case grpcCodes => rw [add_grpcCodes, add_grpcCodes, add_comm]
    all_goals exact add_comm _ _
  nsmul := nsmulRec

theorem add_zero_add (x n : Nat) : x + n = x + (0 + n) := by rw [Nat.zero_add]

section Record
variable [HdrLayout]

theorem adds_recordTcp (t : TcpObs) : Adds fun a : ProtoAccum => a.recordTcp t := by
  intro a
  unfold recordTcp
  rcases t.expectation with _ | _ | _ <;> apply ProtoAccum.ext <;> first | rfl | exact add_zero_add _ _

theorem adds_recordWs (w : WsObs) (completed : Bool) : Adds fun a : ProtoAccum => a.recordWs w completed := by
  intro a
  unfold recordWs
  split_ifs
  · rcases w.close with _ | ⟨closer, code⟩ <;> apply ProtoAccum.ext <;>
      first
        | exact CountMap.bump_eq_add _ _ _ | exact LatencyStat.foldl_record_eq_add _ _ | rfl | exact add_zero_add _ _
  all_goals
    apply ProtoAccum.ext <;> first | rfl | exact add_zero_add _ _ | exact LatencyStat.foldl_record_eq_add _ _

theorem adds_recordTunnel (t : TunnelEnd) : Adds fun a : ProtoAccum => a.recordTunnel t := by
  intro a
  unfold recordTunnel
  cases t <;> apply ProtoAccum.ext <;> first | rfl | exact LatencyStat.record_eq_add _ _

theorem adds_recordHandshake (status : PhaseStatus) (dur : Option Nat) : Adds fun a :
    ProtoAccum => a.recordHandshake status dur := by
  intro a
  unfold recordHandshake
  cases status <;> cases dur <;> apply ProtoAccum.ext <;> first | rfl | exact LatencyStat.record_eq_add _ _

theorem adds_recordResponse (d : DgramObs) (completed : Bool) : Adds fun a : ProtoAccum => a.recordResponse d completed := by
  intro a
  unfold recordResponse
  split_ifs
  · cases d.ttfrUs <;> apply ProtoAccum.ext <;>
      first | rfl | exact add_zero_add _ _ | exact LatencyStat.record_eq_add _ _
  all_goals apply ProtoAccum.ext <;> first | rfl | exact add_zero_add _ _

theorem adds_recordAttempts (p : ProtoObs) : Adds fun a : ProtoAccum => a.recordAttempts p := by
  intro a
  unfold recordAttempts
  apply ProtoAccum.ext <;> first | rfl | exact add_zero_add _ _

theorem adds_recordGrpcStatus (p : ProtoObs) (completed : Bool) :
    Adds fun a : ProtoAccum => a.recordGrpcStatus p completed := by
  intro a
  unfold recordGrpcStatus
  cases p.grpcStatus with
  | none => exact Adds.id a
  | some c =>
    simp only
    split_ifs
    · apply ProtoAccum.ext
      case grpcCodes =>
        rw [add_grpcCodes, zero_grpcCodes]
        exact CountMap.bump_eq_add _ _ _
      all_goals rfl
    · exact Adds.id a

theorem adds_recordStream (p : ProtoObs) : Adds fun a : ProtoAccum => a.recordStream p := by
  have hcounts : Adds fun a : ProtoAccum => { a with
      grpcMissingStatus := a.grpcMissingStatus + p.grpcMissingStatus.toNat
      streamsOpened := a.streamsOpened + p.streamOpened.toNat
      messagesSent := a.messagesSent + p.messagesSent
      messagesReceived := a.messagesReceived + p.messagesReceived } := by
    intro a
    apply ProtoAccum.ext <;> first | rfl | exact add_zero_add _ _
  have hfirst : Adds fun a : ProtoAccum => if p.streamOpened && p.messagesReceived > 0 then
      { a with
        withMessages := a.withMessages + 1
        firstMessage := match p.firstMessageUs with
          | some t => a.firstMessage.record t
          | none => a.firstMessage }
    else a := by
    intro a
    split_ifs
    · apply ProtoAccum.ext
      case firstMessage =>
        cases p.firstMessageUs with
        | none => rfl
        | some t => exact LatencyStat.record_eq_add _ _
      all_goals rfl
    · exact Adds.id a
  have hends : Adds fun a : ProtoAccum => match p.streamEnd with
      | some closer => { a with ends := a.ends.bump (closedKey closer, none) 1 }
      | none => a := by
    cases p.streamEnd with
    | none => exact Adds.id
    | some closer =>
      intro a
      apply ProtoAccum.ext
      case ends => exact CountMap.bump_eq_add _ _ _
      all_goals rfl
  exact hends.comp (hfirst.comp hcounts)

theorem adds_recordDgram (d : DgramObs) (completed : Bool) :
    Adds fun a : ProtoAccum => a.recordDgram d completed := by
  have hr := adds_recordResponse d completed
  unfold recordDgram
  cases d.handshake with
  | none => cases d.tunnel with
    | none => exact hr
    | some t => exact (adds_recordTunnel t).comp hr
  | some h => cases d.tunnel with
    | none => exact (adds_recordHandshake h.1 h.2).comp hr
    | some t => exact (adds_recordTunnel t).comp ((adds_recordHandshake h.1 h.2).comp hr)

theorem adds_record (o : SendObservation) : Adds fun a : ProtoAccum => a.record o := by
  have hs := (adds_recordStream o.proto).comp
    ((adds_recordGrpcStatus o.proto (o.terminal = .completed)).comp (adds_recordAttempts o.proto))
  have hw : Adds fun a : ProtoAccum => match o.proto.ws with
      | some w => a.recordWs w (o.terminal = .completed)
      | none => a := by
    cases o.proto.ws with
    | none => exact Adds.id
    | some w => exact adds_recordWs w _
  have ht : Adds fun a : ProtoAccum => match o.proto.tcp with
      | some t => a.recordTcp t
      | none => a := by
    cases o.proto.tcp with
    | none => exact Adds.id
    | some t => exact adds_recordTcp t
  have hd : Adds fun a : ProtoAccum => match o.proto.dgram with
      | some d => a.recordDgram d (o.terminal = .completed)
      | none => a := by
    cases o.proto.dgram with
    | none => exact Adds.id
    | some d => exact adds_recordDgram d _
  exact hd.comp (ht.comp (hw.comp hs))

end Record

end ProtoAccum

/-! ## The order-independent part of a `Metrics` -/

/-- Everything of a `Metrics` but its bounded collections. -/
@[ext] structure Totals where
  success : LatencyStat primarySigfig := {}
  failure : LatencyStat primarySigfig := {}
  setup : LatencyStat secondarySigfig := {}
  censored : LatencyStat secondarySigfig := {}
  lag : LatencyStat secondarySigfig := {}
  deadlineMsMin : Option Nat := none
  deadlineMsMax : Option Nat := none
  status : CountMap Nat := {}
  bytesSent : Nat := 0
  bytesReceived : Nat := 0
  proto : ProtoAccum := {}

namespace Totals

instance : Zero Totals := ⟨{}⟩

instance : Add Totals where
  add a b :=
    { success := a.success + b.success
      failure := a.failure + b.failure
      setup := a.setup + b.setup
      censored := a.censored + b.censored
      lag := a.lag + b.lag
      deadlineMsMin := a.deadlineMsMin.merge Nat.min b.deadlineMsMin
      deadlineMsMax := a.deadlineMsMax.merge Nat.max b.deadlineMsMax
      status := a.status + b.status
      bytesSent := a.bytesSent + b.bytesSent
      bytesReceived := a.bytesReceived + b.bytesReceived
      proto := a.proto + b.proto }

instance : AddCommMonoid Totals where
  add_assoc a b c := by
    apply Totals.ext
    case deadlineMsMin => exact (Option.associative_merge fun a b : Nat => min a b).assoc _ _ _
    case deadlineMsMax => exact (Option.associative_merge fun a b : Nat => max a b).assoc _ _ _
    all_goals exact add_assoc _ _ _
  zero_add a := by
    apply Totals.ext
    case deadlineMsMin => exact Option.merge_none_left
    case deadlineMsMax => exact Option.merge_none_left
    all_goals exact zero_add _
  add_zero a := by
    apply Totals.ext
    case deadlineMsMin => exact Option.merge_none_right
    case deadlineMsMax => exact Option.merge_none_right
    all_goals exact add_zero _
  add_comm a b := by
    apply Totals.ext
    case deadlineMsMin => exact (Option.commutative_merge fun a b : Nat => min a b).comm _ _
    case deadlineMsMax => exact (Option.commutative_merge fun a b : Nat => max a b).comm _ _
    all_goals exact add_comm _ _
  nsmul := nsmulRec

end Totals

theorem widen_eq_merge (f : Nat → Nat → Nat) (bound : Option Nat) (d : Nat) :
    widen f bound d = bound.merge f (some d) := by
  cases bound <;> rfl

namespace Metrics

def totals (m : Metrics) : Totals where
  success := m.success
  failure := m.failure
  setup := m.setup
  censored := m.censored
  lag := m.lag
  deadlineMsMin := m.deadlineMsMin
  deadlineMsMax := m.deadlineMsMax
  status := m.status
  bytesSent := m.bytesSent
  bytesReceived := m.bytesReceived
  proto := m.proto

@[simp] theorem totals_new : ({} : Metrics).totals = 0 := rfl

theorem totals_merge (m o : Metrics) : (m.merge o).totals = m.totals + o.totals := by
  apply Totals.ext
  case deadlineMsMin =>
    show (match o.deadlineMsMin with
      | some b => widen Nat.min m.deadlineMsMin b
      | none => m.deadlineMsMin) = m.deadlineMsMin.merge Nat.min o.deadlineMsMin
    cases o.deadlineMsMin with
    | none => exact Option.merge_none_right.symm
    | some b => exact widen_eq_merge _ _ _
  case deadlineMsMax =>
    show (match o.deadlineMsMax with
      | some b => widen Nat.max m.deadlineMsMax b
      | none => m.deadlineMsMax) = m.deadlineMsMax.merge Nat.max o.deadlineMsMax
    cases o.deadlineMsMax with
    | none => exact Option.merge_none_right.symm
    | some b => exact widen_eq_merge _ _ _
  all_goals rfl

variable [HdrLayout]

/-- The class adds to one distribution, and to the deadline bounds for a timeout. -/
theorem totals_recordClass (m : Metrics) (o : SendObservation) :
    (m.recordClass o).totals = m.totals + (({} : Metrics).recordClass o).totals := by
  unfold recordClass
  cases o.terminal with
  | canceled => exact (add_zero m.totals).symm
  | timeout =>
    cases o.deadlineMs with
    | none =>
      apply Totals.ext
      case censored => exact LatencyStat.record_eq_add _ _
      case deadlineMsMin | deadlineMsMax => exact Option.merge_none_right.symm
      all_goals exact (add_zero _).symm
    | some d =>
      apply Totals.ext
      case censored => exact LatencyStat.record_eq_add _ _
      case deadlineMsMin | deadlineMsMax => exact widen_eq_merge _ _ _
      all_goals exact (add_zero _).symm
  | completed | transportFailure =>
    simp only
    split_ifs
    · apply Totals.ext
      case success => exact LatencyStat.record_eq_add _ _
      case deadlineMsMin | deadlineMsMax => exact Option.merge_none_right.symm
      all_goals exact (add_zero _).symm
    · apply Totals.ext
      case failure => exact LatencyStat.record_eq_add _ _
      case deadlineMsMin | deadlineMsMax => exact Option.merge_none_right.symm
      all_goals exact (add_zero _).symm
    · exact (add_zero m.totals).symm

/-- What recording adds besides the class. -/
def restTotals (o : SendObservation) : Totals where
  setup := if o.terminal ≠ .canceled then (0 : LatencyStat secondarySigfig).record o.setupUs else 0
  status := match o.status with
    | some s => (0 : CountMap Nat).bump s 1
    | none => 0
  bytesSent := o.bytesSent
  bytesReceived := o.bytesReceived
  proto := (0 : ProtoAccum).record o

theorem totals_record_eq (m : Metrics) (o : SendObservation) :
    (m.record o).totals = (m.recordClass o).totals + restTotals o := by
  apply Totals.ext
  case proto => exact ProtoAccum.adds_record o _
  case setup =>
    show (if o.terminal ≠ .canceled then (m.recordClass o).setup.record o.setupUs else (m.recordClass o).setup) =
      (m.recordClass o).setup + if o.terminal ≠ .canceled then (0 : LatencyStat secondarySigfig).record o.setupUs else 0
    split_ifs
    · exact LatencyStat.record_eq_add _ _
    · exact (add_zero _).symm
  case status =>
    show (match o.status with
      | some s => (m.recordClass o).status.bump s 1
      | none => (m.recordClass o).status) = (m.recordClass o).status + match o.status with
      | some s => (0 : CountMap Nat).bump s 1
      | none => 0
    cases o.status with
    | none => exact (add_zero _).symm
    | some s => exact CountMap.bump_eq_add _ _ _
  case deadlineMsMin | deadlineMsMax => exact Option.merge_none_right.symm
  case bytesSent | bytesReceived => rfl
  all_goals exact (add_zero _).symm

/-- What one observation adds. -/
def obsTotals (o : SendObservation) : Totals := (({} : Metrics).record o).totals

theorem totals_record (m : Metrics) (o : SendObservation) : (m.record o).totals = m.totals + obsTotals o := by
  rw [obsTotals, totals_record_eq, totals_record_eq, totals_recordClass m, add_assoc]

theorem totals_recordLag (m : Metrics) (us : Nat) :
    (m.recordLag us).totals = m.totals + (({} : Metrics).recordLag us).totals := by
  apply Totals.ext
  case lag => exact LatencyStat.record_eq_add _ _
  case deadlineMsMin | deadlineMsMax => exact Option.merge_none_right.symm
  all_goals exact (add_zero _).symm

end Metrics

/-! ## Failure categories -/

namespace Categories

/-- At most `maxCategories` categories, the last of which is the overflow one, of at most `maxExamples` examples. -/
structure Bounded (cs : Categories) : Prop where
  size : cs.size ≤ maxCategories - 1 ∨ cs.size ≤ maxCategories ∧ otherCategory ∈ cs
  examples : ∀ (k : String) (c : Category), cs[k]? = some c → c.examples.length ≤ maxExamples

/-- The failures counted in the categories. -/
def weight (cs : Categories) : Nat := sumBy Category.count cs

theorem Bounded.empty : Bounded (∅ : Categories) where
  size := .inl (by decide)
  examples k c h := absurd h (by rw [Std.ExtTreeMap.getElem?_empty]; exact nofun)

theorem Bounded.size_le {cs : Categories} (h : Bounded cs) : cs.size ≤ maxCategories := by
  rcases h.size with h | h
  · exact h.trans (Nat.sub_le _ _)
  · exact h.1

theorem length_add_examples (c : Category) (n : Nat) (es : List String) (h : c.examples.length ≤ maxExamples) :
    (c.add n es).examples.length ≤ maxExamples := by
  rw [Category.add, List.length_append, List.length_take]
  omega

theorem Bounded.addCategory {cs : Categories} (h : Bounded cs) (name : String) (n : Nat) (es : List String) :
    Bounded (addCategory cs name n es) := by
  have hmem : otherCategory ∈ cs → otherCategory ∈ Load.addCategory cs name n es := by
    intro ho
    rw [Load.addCategory, Std.ExtTreeMap.mem_alter]
    split_ifs
    · rfl
    · exact ho
  constructor
  · by_cases hk : categoryKey cs name ∈ cs
    · have hsize : (Load.addCategory cs name n es).size = cs.size :=
        Std.ExtTreeMap.size_alter_eq_self_of_mem hk rfl
      rw [hsize]
      exact h.size.imp_right fun ⟨h₁, h₂⟩ => ⟨h₁, hmem h₂⟩
    · -- A new key: the name itself while there is room, else the overflow category.
      have hsize : (Load.addCategory cs name n es).size = cs.size + 1 :=
        Std.ExtTreeMap.size_alter_eq_add_one hk rfl
      rw [hsize]
      by_cases hname : cs.contains name || cs.size < maxCategories - 1
      · have hkey : categoryKey cs name = name := if_pos hname
        rw [hkey] at hk
        have hlt : cs.size < maxCategories - 1 := by
          rcases Bool.or_eq_true _ _ ▸ hname with hc | hc
          · exact absurd (Std.ExtTreeMap.contains_iff_mem.1 hc) hk
          · exact of_decide_eq_true hc
        exact .inl hlt
      · have hkey : categoryKey cs name = otherCategory := if_neg hname
        have hnew : otherCategory ∈ Load.addCategory cs name n es := by
          rw [Load.addCategory, hkey, Std.ExtTreeMap.mem_alter, if_pos Std.ReflOrd.compare_self]
          rfl
        rw [hkey] at hk
        rcases h.size with hs | hs
        · exact .inr ⟨Nat.le_trans (Nat.succ_le_succ hs) (by decide), hnew⟩
        · exact absurd hs.2 hk
  · intro k c hc
    rw [Load.addCategory, Std.ExtTreeMap.getElem?_alter] at hc
    split_ifs at hc with hk
    · obtain rfl := Option.some.inj hc
      refine length_add_examples _ n es ?_
      cases hget : cs[categoryKey cs name]? with
      | none => exact Nat.zero_le _
      | some c => exact h.examples _ c hget
    · exact h.examples k c hc

theorem weight_addCategory (cs : Categories) (name : String) (n : Nat) (es : List String) :
    weight (addCategory cs name n es) = weight cs + n := by
  have h : weight (addCategory cs name n es) + cs[categoryKey cs name]?.elim 0 Category.count =
      weight cs + ((cs[categoryKey cs name]?.getD {}).add n es).count :=
    sumBy_alter Category.count cs (categoryKey cs name) fun c => some ((c.getD {}).add n es)
  have hadd : ∀ c : Category, (c.add n es).count = c.count + n := fun _ => rfl
  rw [hadd] at h
  cases hget : cs[categoryKey cs name]? with
  | none =>
    rw [hget] at h
    exact h.trans (congrArg (weight cs + ·) (Nat.zero_add n))
  | some c =>
    rw [hget] at h
    simp only [Option.elim_some, Option.getD_some] at h
    omega

theorem mergeAll (l : List (String × Category)) : ∀ cs : Categories, Bounded cs →
    Bounded (l.foldl (fun cs e => addCategory cs e.1 e.2.count e.2.examples) cs) ∧
    weight (l.foldl (fun cs e => addCategory cs e.1 e.2.count e.2.examples) cs) =
      weight cs + (l.map fun e => e.2.count).sum := by
  induction l with
  | nil => intro cs h; exact ⟨h, rfl⟩
  | cons e l ih =>
    intro cs h
    obtain ⟨h₁, h₂⟩ := ih _ (h.addCategory e.1 e.2.count e.2.examples)
    refine ⟨h₁, ?_⟩
    rw [List.foldl_cons, h₂, weight_addCategory, List.map_cons, List.sum_cons, Nat.add_assoc]

end Categories

namespace Metrics

/-- The categories after a merge: still bounded, with the failures of both. -/
theorem categories_merge {m : Metrics} (h : m.categories.Bounded) (o : Metrics) :
    (m.merge o).categories.Bounded ∧
      (m.merge o).categories.weight = m.categories.weight + o.categories.weight := by
  have hfold : (m.merge o).categories =
      o.categories.toList.foldl (fun cs e => addCategory cs e.1 e.2.count e.2.examples) m.categories :=
    Std.ExtTreeMap.foldl_eq_foldl_toList
  rw [hfold, show o.categories.weight = _ from sumBy_eq Category.count o.categories]
  exact Categories.mergeAll _ _ h

variable [HdrLayout]

@[simp] theorem recordClass_categories (m : Metrics) (o : SendObservation) :
    (m.recordClass o).categories = m.categories := by
  unfold recordClass
  cases o.terminal with
  | canceled => rfl
  | timeout => cases o.deadlineMs <;> rfl
  | completed | transportFailure =>
    simp only
    split_ifs <;> rfl

/-- Recording adds one to the categories exactly for an observation with a category. -/
theorem categories_record {m : Metrics} (h : m.categories.Bounded) (o : SendObservation) :
    (m.record o).categories.Bounded ∧
      (m.record o).categories.weight = m.categories.weight + o.category.isSome.toNat := by
  have hrec : (m.record o).categories = match o.category with
      | some c => addCategory m.categories c 1 o.sample.toList
      | none => m.categories := by
    rw [← recordClass_categories m o]
    rfl
  rw [hrec]
  cases o.category with
  | none => exact ⟨h, rfl⟩
  | some c => exact ⟨h.addCategory c 1 _, Categories.weight_addCategory _ c 1 _⟩

end Metrics

/-! ## Shards -/

/-- What a shard records: a finished send or a start lag. -/
inductive Entry where
  | send (o : SendObservation)
  | lag (us : Nat)

def Entry.hasCategory : Entry → Bool
  | .send o => o.category.isSome
  | .lag _ => false

namespace Metrics
variable [HdrLayout]

def recordEntry (m : Metrics) : Entry → Metrics
  | .send o => m.record o
  | .lag us => m.recordLag us

def recordAll (es : List Entry) : Metrics := es.foldl recordEntry {}

/-- What one entry adds. -/
def entryTotals (e : Entry) : Totals := (({} : Metrics).recordEntry e).totals

theorem totals_recordEntry (m : Metrics) (e : Entry) : (m.recordEntry e).totals = m.totals + entryTotals e := by
  cases e with
  | send o => exact totals_record m o
  | lag us => exact totals_recordLag m us

theorem categories_recordEntry {m : Metrics} (h : m.categories.Bounded) (e : Entry) :
    (m.recordEntry e).categories.Bounded ∧
      (m.recordEntry e).categories.weight = m.categories.weight + e.hasCategory.toNat := by
  cases e with
  | send o => exact categories_record h o
  | lag us => exact ⟨h, rfl⟩

/-- **Recording a list of entries adds up their totals and counts those with a category.** -/
theorem foldl_recordEntry (es : List Entry) : ∀ m : Metrics, m.categories.Bounded →
    (es.foldl recordEntry m).totals = m.totals + (es.map entryTotals).sum ∧
    (es.foldl recordEntry m).categories.Bounded ∧
    (es.foldl recordEntry m).categories.weight = m.categories.weight + (es.map fun e => e.hasCategory.toNat).sum := by
  induction es with
  | nil => intro m h; exact ⟨(add_zero _).symm, h, rfl⟩
  | cons e es ih =>
    intro m h
    obtain ⟨hb, hw⟩ := categories_recordEntry h e
    obtain ⟨h₁, h₂, h₃⟩ := ih _ hb
    refine ⟨?_, h₂, ?_⟩
    · rw [List.foldl_cons, h₁, totals_recordEntry, List.map_cons, List.sum_cons, add_assoc]
    · rw [List.foldl_cons, h₃, hw, List.map_cons, List.sum_cons, Nat.add_assoc]

theorem recordAll_spec (es : List Entry) :
    (recordAll es).totals = (es.map entryTotals).sum ∧ (recordAll es).categories.Bounded ∧
      (recordAll es).categories.weight = (es.map fun e => e.hasCategory.toNat).sum := by
  obtain ⟨h₁, h₂, h₃⟩ := foldl_recordEntry es {} Categories.Bounded.empty
  exact ⟨h₁.trans (zero_add _), h₂, h₃.trans (Nat.zero_add _)⟩

/-- Merging a list of shards adds up their totals and their categorised failures. -/
theorem foldl_merge (ms : List Metrics) : ∀ m : Metrics, m.categories.Bounded →
    (ms.foldl merge m).totals = m.totals + (ms.map totals).sum ∧
    (ms.foldl merge m).categories.Bounded ∧
    (ms.foldl merge m).categories.weight = m.categories.weight + (ms.map fun o => o.categories.weight).sum := by
  induction ms with
  | nil => intro m h; exact ⟨(add_zero _).symm, h, rfl⟩
  | cons o ms ih =>
    intro m h
    obtain ⟨hb, hw⟩ := categories_merge h o
    obtain ⟨h₁, h₂, h₃⟩ := ih _ hb
    refine ⟨?_, h₂, ?_⟩
    · rw [List.foldl_cons, h₁, totals_merge, List.map_cons, List.sum_cons, add_assoc]
    · rw [List.foldl_cons, h₃, hw, List.map_cons, List.sum_cons, Nat.add_assoc]

/-- The entries of shard `i`, in order. -/
def ofShard {n : Nat} (entries : List (Fin n × Entry)) (i : Fin n) : List Entry :=
  (entries.filter fun e => e.1 = i).map Prod.snd

/-- The shards merged into new metrics, in the order `order 0, order 1, …`. -/
def mergeShards {n : Nat} (entries : List (Fin n × Entry)) (order : Equiv.Perm (Fin n)) : Metrics :=
  ((List.finRange n).map fun i => recordAll (ofShard entries (order i))).foldl merge {}

omit [HdrLayout] in
/-- Summing shard by shard, in any order, sums everything. -/
theorem sum_shards {M : Type} [AddCommMonoid M] {n : Nat} (entries : List (Fin n × Entry)) (order : Equiv.Perm (Fin n))
    (f : Entry → M) :
    ((List.finRange n).map fun i => ((ofShard entries (order i)).map f).sum).sum =
      (entries.map fun e => f e.2).sum := by
  rw [← Fin.sum_univ_def fun i => ((ofShard entries (order i)).map f).sum,
    Equiv.sum_comp order fun i => ((ofShard entries i).map f).sum]
  induction entries with
  | nil => simp [ofShard]
  | cons e es ih =>
    have hcons : ∀ i, ((ofShard (e :: es) i).map f).sum = (if e.1 = i then f e.2 else 0) + ((ofShard es i).map f).sum := by
      intro i
      by_cases h : e.1 = i <;> simp [ofShard, h]
    rw [Finset.sum_congr rfl fun i _ => hcons i, Finset.sum_add_distrib, ih, Finset.sum_ite_eq]
    simp

/-- **Every split of the entries over shards, merged in any order, has the totals of one `Metrics` that recorded
them all; the categories stay bounded and count the observations that carry a category.** -/
theorem shards_merge_whole {n : Nat} (entries : List (Fin n × Entry)) (order : Equiv.Perm (Fin n)) :
    (mergeShards entries order).totals = (recordAll (entries.map Prod.snd)).totals ∧
    ∀ m : Metrics, m = mergeShards entries order ∨ m = recordAll (entries.map Prod.snd) →
      m.categories.size ≤ maxCategories ∧
      (∀ (k : String) (c : Category), m.categories[k]? = some c → c.examples.length ≤ maxExamples) ∧
      sumBy Category.count m.categories = entries.countP fun e => e.2.hasCategory := by
  have hcount : (entries.map fun e => e.2.hasCategory.toNat).sum = entries.countP fun e => e.2.hasCategory := by
    induction entries with
    | nil => rfl
    | cons e es ih =>
      rw [List.map_cons, List.sum_cons, ih, List.countP_cons]
      cases e.2.hasCategory <;> simp [Nat.add_comm]
  obtain ⟨w₁, w₂, w₃⟩ := recordAll_spec (entries.map Prod.snd)
  obtain ⟨s₁, s₂, s₃⟩ := foldl_merge ((List.finRange n).map fun i => recordAll (ofShard entries (order i))) {}
    Categories.Bounded.empty
  have ht := sum_shards entries order entryTotals
  have hw := sum_shards entries order fun e => e.hasCategory.toNat
  rw [List.map_map] at w₁ w₃ s₁ s₃
  constructor
  · rw [w₁, mergeShards, s₁, totals_new, zero_add]
    refine Eq.trans ?_ ht
    exact congrArg List.sum (List.map_congr_left fun i _ => (recordAll_spec _).1)
  · have hm : (mergeShards entries order).categories.weight = entries.countP fun e => e.2.hasCategory := by
      rw [mergeShards, s₃, ← hcount, ← hw]
      refine (Nat.zero_add _).trans ?_
      exact congrArg List.sum (List.map_congr_left fun i _ => (recordAll_spec _).2.2)
    rintro m (rfl | rfl)
    · exact ⟨s₂.size_le, s₂.examples, hm⟩
    · exact ⟨w₂.size_le, w₂.examples, w₃.trans hcount⟩

end Metrics

end Anvil.Load
