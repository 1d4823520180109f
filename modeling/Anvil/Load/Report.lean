import Anvil.Load.Ledger
import Anvil.Load.Metrics

/-!
# Protocol denominators of a report (`metrics.rs`, `report.rs`, `protocol.rs`)

`ProtoAccum.summary` is the report block of a plan's unit kind and `checkProtocolBalance` compares it with the
request ledger. A plan measures one unit kind: `classifyPlan` refuses any other, and `PlanUnits` carries it.

The laws behind the clauses relate what an accumulator counted to the settled sends of a ledger. Each is kept when one
more observation is recorded on the one side and settled on the other, so it holds of every list of observations:

* `ClassLaw` (success, failure and censored counts), `WsLaw`, `TcpLaw`, `DgramLaw`;
* `classLaw_all`, `wsLaw_all`, `tcpLaw_all`, `dgramLaw_all`.
-/

set_option linter.unusedSectionVars false

namespace Anvil.Load
open Anvil.Lib

/-! ## Summaries -/

structure LatencySummary where
  count : Nat := 0
  minUs : Nat := 0
  maxUs : Nat := 0
  meanUs : Nat := 0
  p50Us : Nat := 0
  p90Us : Nat := 0
  p95Us : Nat := 0
  p99Us : Nat := 0
deriving DecidableEq

def LatencyStat.summary [HdrLayout] {sigfig : Nat} (s : LatencyStat sigfig) : LatencySummary :=
  if s.count = 0 then {}
  else
    let q := fun p => Nat.max s.min (Nat.min (HdrLayout.valueAtQuantile s.hist p) s.max)
    { count := s.count
      minUs := s.min
      maxUs := s.max
      meanUs := s.sum / s.count
      p50Us := q 500
      p90Us := q 900
      p95Us := q 950
      p99Us := q 990 }

@[simp] theorem LatencyStat.summary_count [HdrLayout] {sigfig : Nat} (s : LatencyStat sigfig) :
    s.summary.count = s.count := by
  unfold LatencyStat.summary
  split_ifs with h
  · exact h.symm
  · rfl

structure ClosedCount where
  closedBy : ClosedBy
  code : Option Nat
  count : Nat
deriving DecidableEq

structure HttpLoadMetrics where
  protocolFallbackAttempts : Nat
  unitsWithFallback : Nat
  unitsOverH3 : Nat

structure GrpcLoadMetrics where
  statusCodes : List (Int × Nat)
  ok : Nat
  nonOk : Nat
  missingStatus : Nat
  protocolFallbackAttempts : Nat

structure StreamLoadMetrics where
  opened : Nat
  messagesSent : Option Nat
  messagesReceived : Nat
  withMessages : Nat
  timeToFirstMessage : LatencySummary
  endedBy : List ClosedCount

structure WebSocketLoadMetrics where
  opened : Nat
  handshakeRejected : Nat
  notOpened : Nat
  closedCleanly : Nat
  messagesSent : Nat
  messagesReceived : Nat
  rttDefined : Bool
  rttPairs : Nat
  rtt : LatencySummary
  rttUnpairedSessions : Nat
  closeCodes : List ClosedCount

structure TcpLoadMetrics where
  connected : Nat
  framesSent : Nat
  framesReceived : Nat
  payloadBytesSent : Nat
  payloadBytesReceived : Nat
  partialFrames : Nat
  peerCloses : Nat
  expectedFrames : Option Nat
  expectationMet : Nat
  expectationShort : Nat

structure HandshakeMetrics where
  attempted : Nat
  completed : Nat
  failed : Nat
  timedOut : Nat
  duration : LatencySummary

structure TunnelLoadMetrics where
  kind : TunnelKind
  attempted : Nat
  established : Nat
  refused : Nat
  failed : Nat
  timedOut : Nat
  canceled : Nat
  setup : LatencySummary

structure DatagramLoadMetrics where
  datagramsSent : Nat
  datagramsReceived : Nat
  exchangesWithResponse : Nat
  exchangesSilent : Nat
  repeatedPayloads : Nat
  echoedPayloads : Nat
  icmpUnreachableExchanges : Nat
  timeToFirstDatagram : LatencySummary
  dtlsHandshakes : Option HandshakeMetrics
  tunnels : Option TunnelLoadMetrics

/-- `ProtocolLoadMetrics` without its version and its table of texts. -/
structure ProtocolLoadMetrics where
  unit : LoadUnitKind
  http : Option HttpLoadMetrics := none
  grpc : Option GrpcLoadMetrics := none
  stream : Option StreamLoadMetrics := none
  websocket : Option WebSocketLoadMetrics := none
  tcp : Option TcpLoadMetrics := none
  datagram : Option DatagramLoadMetrics := none

def closedFrom : Nat → ClosedBy
  | 0 => .peer
  | 1 => .client
  | 2 => .abnormal
  | 3 => .timeout
  | _ => .notClosed

namespace ProtoAccum
variable [HdrLayout]

omit [HdrLayout] in
/-- The ends as a report lists them (`ends()`). -/
def endCounts (a : ProtoAccum) : List ClosedCount :=
  a.ends.entries.toList.map fun e => ⟨closedFrom e.1.1, e.1.2, e.2⟩

omit [HdrLayout] in
def grpcSummary (a : ProtoAccum) : GrpcLoadMetrics :=
  let ok := a.grpcCodes.entries[GrpcCode.of 0]?.getD 0
  { statusCodes := a.grpcCodes.entries.toList.map fun e => (e.1.code, e.2)
    ok
    nonOk := a.grpcCodes.total - ok
    missingStatus := a.grpcMissingStatus
    protocolFallbackAttempts := a.fallbackAttempts }

def streamSummary (a : ProtoAccum) (kind : LoadUnitKind) (endedBy : List ClosedCount) : StreamLoadMetrics where
  opened := a.streamsOpened
  messagesSent := if kind = .grpcClientStream ∨ kind = .grpcBidiStream then some a.messagesSent else none
  messagesReceived := a.messagesReceived
  withMessages := a.withMessages
  timeToFirstMessage := a.firstMessage.summary
  endedBy

def wsSummary (a : ProtoAccum) (steps : List StepUnit) : WebSocketLoadMetrics where
  opened := a.wsOpened
  handshakeRejected := a.wsRejected
  notOpened := a.wsNotOpened
  closedCleanly := a.wsClean
  messagesSent := a.wsSent
  messagesReceived := a.wsReceived
  rttDefined := steps.any fun s => s.wsExpectMessages > 0
  rttPairs := a.rtt.count
  rtt := a.rtt.summary
  rttUnpairedSessions := a.rttUnpaired
  closeCodes := a.endCounts

omit [HdrLayout] in
/-- One value when every step expects the same count. -/
def expectedFrames (steps : List StepUnit) : Option Nat :=
  let expected := steps.filterMap StepUnit.tcpExpectFrames
  expected.head?.filter fun f => expected.length = steps.length && expected.all fun e => e = f

omit [HdrLayout] in
def tcpSummary (a : ProtoAccum) (steps : List StepUnit) : TcpLoadMetrics where
  connected := a.tcpConnected
  framesSent := a.framesSent
  framesReceived := a.framesReceived
  payloadBytesSent := a.tcpBytesSent
  payloadBytesReceived := a.tcpBytesReceived
  partialFrames := a.partialFrames
  peerCloses := a.peerCloses
  expectedFrames := expectedFrames steps
  expectationMet := a.expectationMet
  expectationShort := a.expectationShort

def datagramSummary (a : ProtoAccum) (kind : LoadUnitKind) (steps : List StepUnit) : DatagramLoadMetrics where
  datagramsSent := a.dgSent
  datagramsReceived := a.dgReceived
  exchangesWithResponse := a.withResponse
  exchangesSilent := a.silent
  repeatedPayloads := a.repeated
  echoedPayloads := a.echoed
  icmpUnreachableExchanges := a.icmp
  timeToFirstDatagram := a.firstResponse.summary
  dtlsHandshakes := if kind = .dtlsExchange then
      some ⟨a.hsAttempted, a.hsCompleted, a.hsFailed, a.hsTimedOut, a.hsDuration.summary⟩
    else none
  tunnels := (steps.head?.bind StepUnit.tunnel).map fun kind =>
    ⟨kind, a.tnAttempted, a.tnEstablished, a.tnRefused, a.tnFailed, a.tnTimedOut, a.tnCanceled, a.tnSetup.summary⟩

/-- The report block of the plan's unit kind. -/
def summary (a : ProtoAccum) (kind : LoadUnitKind) (steps : List StepUnit) : ProtocolLoadMetrics :=
  match kind with
  | .httpRequest => { unit := kind, http := some ⟨a.fallbackAttempts, a.unitsWithFallback, a.unitsOverH3⟩ }
  | .grpcCall => { unit := kind, grpc := some a.grpcSummary }
  | .grpcStream | .grpcClientStream | .grpcBidiStream =>
    { unit := kind, grpc := some a.grpcSummary, stream := some (a.streamSummary kind []) }
  | .sseStream => { unit := kind, stream := some (a.streamSummary kind a.endCounts) }
  | .websocketSession => { unit := kind, websocket := some (a.wsSummary steps) }
  | .tcpExchange => { unit := kind, tcp := some (a.tcpSummary steps) }
  | .udpExchange | .dtlsExchange => { unit := kind, datagram := some (a.datagramSummary kind steps) }

end ProtoAccum

/-! ## `check_protocol_balance` -/

/-- The derived `Debug` text of a record: its name and its fields. -/
def debugText (name : String) (fields : List (String × String)) : String :=
  name ++ " \x7b " ++ String.intercalate ", " (fields.map fun f => f.1 ++ ": " ++ f.2) ++ " \x7d"

def LatencySummary.debug (s : LatencySummary) : String :=
  debugText "LatencySummary" [("count", toString s.count), ("min_us", toString s.minUs), ("max_us", toString s.maxUs),
    ("mean_us", toString s.meanUs), ("p50_us", toString s.p50Us), ("p90_us", toString s.p90Us),
    ("p95_us", toString s.p95Us), ("p99_us", toString s.p99Us)]

def HttpLoadMetrics.debug (h : HttpLoadMetrics) : String :=
  debugText "HttpLoadMetrics" [("protocol_fallback_attempts", toString h.protocolFallbackAttempts),
    ("units_with_fallback", toString h.unitsWithFallback), ("units_over_h3", toString h.unitsOverH3)]

def HandshakeMetrics.debug (h : HandshakeMetrics) : String :=
  debugText "HandshakeMetrics" [("attempted", toString h.attempted), ("completed", toString h.completed),
    ("failed", toString h.failed), ("timed_out", toString h.timedOut), ("duration", h.duration.debug)]

def TunnelKind.debug : TunnelKind → String
  | .hbone => "Hbone"
  | .connectUdp => "ConnectUdp"

def TunnelLoadMetrics.debug (t : TunnelLoadMetrics) : String :=
  debugText "TunnelLoadMetrics" [("kind", t.kind.debug), ("attempted", toString t.attempted),
    ("established", toString t.established), ("refused", toString t.refused), ("failed", toString t.failed),
    ("timed_out", toString t.timedOut), ("canceled", toString t.canceled), ("setup", t.setup.debug)]

def ensure (ok : Bool) (what : String) : Except String Unit := if ok then .ok () else .error what

section Checks
variable (q : RequestCounts) (settled : Nat)

def checkHttp (h : HttpLoadMetrics) : Except String Unit := do
  ensure (h.unitsWithFallback ≤ settled && h.protocolFallbackAttempts ≥ h.unitsWithFallback)
    ("HTTP fallback counts " ++ h.debug)
  ensure (h.unitsOverH3 ≤ settled)
    ("HTTP/3 requests " ++ toString h.unitsOverH3 ++ " > settled " ++ toString settled)

def checkGrpc (g : GrpcLoadMetrics) : Except String Unit := do
  let sum := (g.statusCodes.map Prod.snd).sum
  ensure (sum = q.completed) ("gRPC status codes sum " ++ toString sum ++ " ≠ completed " ++ toString q.completed)
  ensure (g.ok + g.nonOk = q.completed) ("gRPC ok " ++ toString g.ok ++ " + non-OK " ++ toString g.nonOk ++
    " ≠ completed " ++ toString q.completed)
  ensure (g.nonOk = q.applicationFailures) ("gRPC non-OK " ++ toString g.nonOk ++ " ≠ application failures " ++
    toString q.applicationFailures)
  ensure (g.missingStatus ≤ q.transportFailures + q.timeouts) ("gRPC missing status " ++ toString g.missingStatus ++
    " exceeds transport failures + timeouts")

def checkStream (unit : LoadUnitKind) (s : StreamLoadMetrics) : Except String Unit := do
  ensure (s.opened ≤ settled && s.withMessages ≤ s.opened)
    ("streams opened " ++ toString s.opened ++ " / with messages " ++ toString s.withMessages)
  ensure (s.timeToFirstMessage.count ≤ s.withMessages) "time-to-first-message samples exceed streams with messages"
  if unit = .sseStream then
    let ends := (s.endedBy.map ClosedCount.count).sum
    ensure (ends = s.opened) ("SSE stream ends " ++ toString ends ++ " ≠ opened " ++ toString s.opened)

def checkWebSocket (w : WebSocketLoadMetrics) : Except String Unit := do
  ensure (w.opened + w.handshakeRejected + w.notOpened = settled)
    ("WebSocket opened " ++ toString w.opened ++ " + rejected " ++ toString w.handshakeRejected ++ " + not opened " ++
      toString w.notOpened ++ " ≠ settled sessions " ++ toString settled)
  ensure (w.closedCleanly ≤ w.opened)
    ("sessions closed cleanly " ++ toString w.closedCleanly ++ " > opened " ++ toString w.opened)
  let closes := (w.closeCodes.map ClosedCount.count).sum
  ensure (closes = w.opened) ("close codes " ++ toString closes ++ " ≠ opened sessions " ++ toString w.opened)
  ensure (w.rttPairs = w.rtt.count && (w.rttDefined || w.rttPairs = 0)) "RTT pairs without a defined pairing"

def checkTcp (t : TcpLoadMetrics) : Except String Unit := do
  ensure (t.connected ≤ settled)
    ("TCP connections " ++ toString t.connected ++ " > settled " ++ toString settled)
  let judged := t.expectationMet + t.expectationShort
  ensure (judged ≤ q.completed)
    ("TCP expectation outcomes " ++ toString judged ++ " > completed " ++ toString q.completed)
  ensure (t.expectedFrames.isNone || judged = q.completed)
    ("TCP expectation outcomes " ++ toString judged ++ " ≠ completed " ++ toString q.completed)
  ensure (t.expectationShort ≤ q.applicationFailures) "TCP short exchanges are application failures"

def checkResponses (d : DatagramLoadMetrics) : Except String Unit := do
  ensure (d.exchangesWithResponse + d.exchangesSilent = q.completed)
    ("datagram exchanges with response " ++ toString d.exchangesWithResponse ++ " + silent " ++
      toString d.exchangesSilent ++ " ≠ completed " ++ toString q.completed)
  ensure (d.timeToFirstDatagram.count ≤ d.exchangesWithResponse)
    "time-to-first-response samples exceed responding exchanges"

def checkPayloads (d : DatagramLoadMetrics) : Except String Unit :=
  ensure (d.echoedPayloads ≤ d.datagramsReceived && d.repeatedPayloads ≤ d.datagramsReceived)
    "payload observations exceed datagrams received"

def checkHandshakes (d : DatagramLoadMetrics) : Except String Unit :=
  match d.dtlsHandshakes with
  | some h => ensure (h.completed + h.failed + h.timedOut ≤ h.attempted && h.attempted ≤ settled)
      ("DTLS handshakes " ++ h.debug ++ " vs settled " ++ toString settled)
  | none => .ok ()

/-- Every attempted tunnel ended exactly one way. -/
def checkTunnelEnds (t : TunnelLoadMetrics) : Except String Unit := do
  ensure (t.established + t.refused + t.failed + t.timedOut + t.canceled = t.attempted && t.attempted ≤ settled)
    ("tunnels " ++ t.debug ++ " vs settled " ++ toString settled)
  ensure (t.setup.count = t.established) "tunnel setup samples ≠ established tunnels"

/-- A completed exchange ran inside an open tunnel. -/
def checkTunnelOpen (t : TunnelLoadMetrics) : Except String Unit :=
  ensure (q.completed ≤ t.established)
    ("completed " ++ toString q.completed ++ " > established tunnels " ++ toString t.established)

def checkDatagram (d : DatagramLoadMetrics) : Except String Unit := do
  checkResponses q d
  checkPayloads d
  checkHandshakes settled d
  match d.tunnels with
  | some t =>
    checkTunnelEnds settled t
    checkTunnelOpen q t
  | none => pure ()

end Checks

/-- The sends that are not in flight any more. -/
def RequestCounts.settledSends (q : RequestCounts) : Nat := q.started - min q.inFlightAtEnd q.started

def checkProtocolBalance (p : ProtocolLoadMetrics) (q : RequestCounts) : Except String Unit := do
  let settled := q.settledSends
  if let some h := p.http then checkHttp settled h
  if let some g := p.grpc then checkGrpc q g
  if let some s := p.stream then checkStream settled p.unit s
  if let some w := p.websocket then checkWebSocket settled w
  if let some t := p.tcp then checkTcp q settled t
  if let some d := p.datagram then checkDatagram q settled d

/-! ## Plans -/

inductive RefusalCode where
  | mixedUnitKinds | mixedTunnels
deriving DecidableEq

structure Refusal where
  code : RefusalCode
  request : Option Nat
  message : String
deriving DecidableEq

def LoadUnitKind.label : LoadUnitKind → String
  | .httpRequest => "HTTP requests"
  | .grpcCall => "unary gRPC calls"
  | .grpcStream => "server-streaming gRPC streams"
  | .grpcClientStream => "client-streaming gRPC calls"
  | .grpcBidiStream => "bidirectional gRPC streams"
  | .sseStream => "SSE streams"
  | .websocketSession => "WebSocket sessions"
  | .tcpExchange => "TCP/TLS exchanges"
  | .udpExchange => "UDP exchanges"
  | .dtlsExchange => "DTLS exchanges"

def pathLabel : Option TunnelKind → String
  | none => "direct datagrams"
  | some .connectUdp => "a MASQUE (CONNECT-UDP) tunnel"
  | some .hbone => "an HBONE datagram tunnel"

/-- The classified steps of a plan: one unit kind and one path. -/
structure PlanUnits where
  unit : LoadUnitKind
  units : List StepUnit
  sameKind : ∀ u ∈ units, u.kind = unit
  sameTunnel : ∀ u ∈ units, ∀ v ∈ units, u.tunnel = v.tunnel

/-- `classify_plan` after each step was classified; a request is named by its position. -/
def classifyPlan (units : List StepUnit) : Except Refusal PlanUnits :=
  match units with
  | [] => .ok ⟨.httpRequest, [], fun _ h => absurd h List.not_mem_nil, fun _ h => absurd h List.not_mem_nil⟩
  | first :: rest =>
    match hk : (first :: rest).find? fun u => u.kind ≠ first.kind with
    | some other => .error ⟨.mixedUnitKinds, none,
        "a load plan measures one kind of unit, and this one mixes " ++ first.kind.label ++ " with " ++
        other.kind.label ++
        ": their counts and latencies have different denominators. Split the plan per protocol"⟩
    | none =>
      match ht : (first :: rest).find? fun u => u.tunnel ≠ first.tunnel with
      | some other => .error ⟨.mixedTunnels, (first :: rest).findIdx? fun u => u.tunnel ≠ first.tunnel,
          "a load plan's datagram exchanges must all take the same path, and this one mixes " ++
          pathLabel first.tunnel ++ " with " ++ pathLabel other.tunnel ++
          ": the tunnel counts would cover only part of the exchanges, and a tunnel's setup changes what an exchange " ++
          "costs. Split the plan per path"⟩
      | none => .ok
          { unit := first.kind
            units := first :: rest
            sameKind := fun u hu => by simpa using List.find?_eq_none.1 hk u hu
            sameTunnel := fun u hu v hv => by
              have h₁ : u.tunnel = first.tunnel := by simpa using List.find?_eq_none.1 ht u hu
              have h₂ : v.tunnel = first.tunnel := by simpa using List.find?_eq_none.1 ht v hv
              rw [h₁, h₂] }

/-! ## Recorded entries and settled sends -/

/-- An entry on the ledger's side: a send is settled, a lag changes nothing. -/
def settleEntry (r : RequestCounts) : Entry → RequestCounts
  | .send o => LedgerState.settle r o
  | .lag _ => r

def settledOf (es : List Entry) : RequestCounts := es.foldl settleEntry {}

/-- The sends with a terminal class. -/
def RequestCounts.ended (r : RequestCounts) : Nat := r.completed + r.transportFailures + r.timeouts + r.canceled

/-- A completed send without a response and without a failure flag: it has no latency. -/
def SendObservation.unanswered (o : SendObservation) : Bool :=
  o.terminal = .completed && o.noResponse && !o.applicationFailure && !o.assertionFailure

def Entry.unanswered : Entry → Bool
  | .send o => o.unanswered
  | .lag _ => false

section Laws
variable [HdrLayout]

def totalsOf (es : List Entry) : Totals := (es.map Metrics.entryTotals).sum

/-- A law that one more entry keeps holds of every list of entries. -/
theorem law_all (Good : Entry → Prop) (Law : List Entry → Totals → RequestCounts → Prop) (hnil : Law [] 0 {})
    (hstep : ∀ es e t r, Good e → Law es t r → Law (es ++ [e]) (t + Metrics.entryTotals e) (settleEntry r e)) :
    ∀ es, (∀ e ∈ es, Good e) → Law es (totalsOf es) (settledOf es) := by
  intro es
  induction es using List.reverseRecOn with
  | nil => intro _; exact hnil
  | append_singleton es e ih =>
    intro hgood
    have h := hstep es e _ _ (hgood e (by simp)) (ih fun e he => hgood e (by simp [he]))
    rwa [totalsOf, List.map_append, List.sum_append, List.map_singleton, List.sum_singleton, settledOf,
      List.foldl_append]

theorem settle_ended (r : RequestCounts) (o : SendObservation) : (LedgerState.settle r o).ended = r.ended + 1 := by
  unfold LedgerState.settle RequestCounts.ended
  cases o.terminal <;> simp only <;> omega

theorem settle_completed (r : RequestCounts) (o : SendObservation) :
    (LedgerState.settle r o).completed = r.completed + (decide (o.terminal = .completed)).toNat := by
  unfold LedgerState.settle
  cases o.terminal <;> rfl

theorem settle_transportFailures (r : RequestCounts) (o : SendObservation) :
    (LedgerState.settle r o).transportFailures = r.transportFailures + (decide (o.terminal = .transportFailure)).toNat := by
  unfold LedgerState.settle
  cases o.terminal <;> rfl

theorem settle_timeouts (r : RequestCounts) (o : SendObservation) :
    (LedgerState.settle r o).timeouts = r.timeouts + (decide (o.terminal = .timeout)).toNat := by
  unfold LedgerState.settle
  cases o.terminal <;> rfl

theorem settle_applicationFailures (r : RequestCounts) (o : SendObservation) :
    (LedgerState.settle r o).applicationFailures = r.applicationFailures + o.applicationFailure.toNat := by
  unfold LedgerState.settle
  cases o.terminal <;> rfl

/-! ## Latency classes -/

/-- Every timeout is censored; every other send that was not canceled is a success, a failure or unanswered. -/
structure ClassLaw (es : List Entry) (t : Totals) (r : RequestCounts) : Prop where
  censored : t.censored.count = r.timeouts
  classes : t.success.count + t.failure.count + es.countP Entry.unanswered = r.completed + r.transportFailures

theorem totals_recordClass_new (o : SendObservation) :
    let t := (({} : Metrics).recordClass o).totals
    t.censored.count = (decide (o.terminal = .timeout)).toNat ∧
    t.success.count + t.failure.count + o.unanswered.toNat =
      (decide (o.terminal = .completed)).toNat + (decide (o.terminal = .transportFailure)).toNat := by
  have h₀ : ({} : LatencyStat primarySigfig).count = 0 := rfl
  have h₀' : ({} : LatencyStat secondarySigfig).count = 0 := rfl
  have h₁ : ∀ us, (({} : LatencyStat primarySigfig).record us).count = 1 := fun us => LatencyStat.count_record _ us
  have h₂ : ∀ us, (({} : LatencyStat secondarySigfig).record us).count = 1 := fun us => LatencyStat.count_record _ us
  cases ht : o.terminal with
  | canceled => simp [Metrics.recordClass, SendObservation.unanswered, ht, Metrics.totals, h₀, h₀']
  | timeout =>
    cases hd : o.deadlineMs <;>
      simp [Metrics.recordClass, SendObservation.unanswered, ht, hd, Metrics.totals, h₀, h₂]
  | completed | transportFailure =>
    cases ha : o.applicationFailure <;> cases hb : o.assertionFailure <;> cases hn : o.noResponse <;>
      simp [Metrics.recordClass, SendObservation.isSuccess, SendObservation.isFailure, SendObservation.unanswered, ht,
        ha, hb, hn, Metrics.totals, h₀, h₀', h₁]

theorem classLaw_all (es : List Entry) : ClassLaw es (totalsOf es) (settledOf es) := by
  refine law_all (fun _ => True) ClassLaw ⟨rfl, rfl⟩ ?_ es fun _ _ => trivial
  intro es e t r _ h
  obtain ⟨h₁, h₂⟩ := h
  have hcount : (es ++ [e]).countP Entry.unanswered = es.countP Entry.unanswered + e.unanswered.toNat := by
    rw [List.countP_append, List.countP_singleton]
    cases e.unanswered <;> rfl
  cases e with
  | lag us =>
    refine ⟨?_, ?_⟩
    · show (t.censored + 0).count = r.timeouts
      rw [add_zero, h₁]
    · show (t.success + 0).count + (t.failure + 0).count + _ = _
      rw [add_zero, add_zero, hcount]
      exact h₂
  | send o =>
    obtain ⟨h₃, h₄⟩ := totals_recordClass_new o
    have hobs : Metrics.entryTotals (.send o) = (({} : Metrics).recordClass o).totals + Metrics.restTotals o :=
      Metrics.totals_record_eq {} o
    rw [hobs]
    refine ⟨?_, ?_⟩
    · show (t.censored + ((({} : Metrics).recordClass o).totals.censored + 0)).count = (LedgerState.settle r o).timeouts
      rw [add_zero, LatencyStat.count_add, h₁, h₃, settle_timeouts]
    · show (t.success + ((({} : Metrics).recordClass o).totals.success + 0)).count +
          (t.failure + ((({} : Metrics).recordClass o).totals.failure + 0)).count + _ =
        (LedgerState.settle r o).completed + (LedgerState.settle r o).transportFailures
      rw [add_zero, add_zero, LatencyStat.count_add, LatencyStat.count_add, settle_completed, settle_transportFailures,
        hcount, Entry.unanswered]
      omega

/-! ## Protocol counters -/

theorem recordClass_proto (m : Metrics) (o : SendObservation) : (m.recordClass o).proto = m.proto := by
  unfold Metrics.recordClass
  cases o.terminal with
  | canceled => rfl
  | timeout => cases o.deadlineMs <;> rfl
  | completed | transportFailure =>
    simp only
    split_ifs <;> rfl

/-- What an entry adds to the protocol counters. -/
def entryProto : Entry → ProtoAccum
  | .send o => (0 : ProtoAccum).record o
  | .lag _ => 0

theorem add_entryTotals_proto (t : Totals) (e : Entry) :
    (t + Metrics.entryTotals e).proto = t.proto + entryProto e := by
  cases e with
  | lag us => rfl
  | send o =>
    show t.proto + (({} : Metrics).recordClass o).proto.record o = t.proto + (0 : ProtoAccum).record o
    rw [recordClass_proto]
    rfl

/-- A law about the protocol counters, one case per entry. -/
theorem protoLaw_all (Good : SendObservation → Prop) (Law : ProtoAccum → RequestCounts → Prop) (hnil : Law 0 {})
    (hstep : ∀ a r o, Good o → Law a r → Law (a + (0 : ProtoAccum).record o) (LedgerState.settle r o)) (es : List Entry)
    (hes : ∀ o, Entry.send o ∈ es → Good o) : Law (totalsOf es).proto (settledOf es) := by
  refine law_all (fun e => ∀ o, e = .send o → Good o) (fun _ t r => Law t.proto r) hnil ?_ es
    fun e he o ho => hes o (ho ▸ he)
  intro es e t r hgood h
  rw [add_entryTotals_proto]
  cases e with
  | lag us => exact (add_zero t.proto).symm ▸ h
  | send o => exact hstep t.proto r o (hgood o rfl) h

/-! ### WebSocket sessions -/

/-- What a session's facts satisfy: an opened one has a close, and only a step with `expect_messages` pairs messages. -/
structure WsFacts (units : List StepUnit) (o : SendObservation) (w : WsObs) : Prop where
  proto : ∃ n h3, o.proto = { fallbackAttempts := n, finalH3 := h3, ws := some w }
  close : w.close.isSome = w.opened
  rtts : w.rtts ≠ [] → units.any fun s => s.wsExpectMessages > 0

structure WsLaw (units : List StepUnit) (a : ProtoAccum) (r : RequestCounts) : Prop where
  settled : a.wsOpened + a.wsRejected + a.wsNotOpened = r.ended
  clean : a.wsClean ≤ a.wsOpened
  closes : a.ends.total = a.wsOpened
  rtt : a.rtt.count = 0 ∨ units.any fun s => s.wsExpectMessages > 0

theorem ws_record {units : List StepUnit} {o : SendObservation} {w : WsObs} (hw : WsFacts units o w) :
    let p := (0 : ProtoAccum).record o
    p.wsOpened + p.wsRejected + p.wsNotOpened = 1 ∧ p.wsClean ≤ p.wsOpened ∧ p.ends.total = p.wsOpened ∧
      p.rtt.count = w.rtts.length := by
  obtain ⟨n, h3, hp⟩ := hw.proto
  have hclose := hw.close
  have hrtt : (w.rtts.foldl (fun s r => s.record r) (0 : LatencyStat secondarySigfig)).count = w.rtts.length := by
    rw [LatencyStat.count_foldl_record, LatencyStat.count_zero, Nat.zero_add]
  have hrec : (0 : ProtoAccum).record o = (((0 : ProtoAccum).recordAttempts o.proto).recordStream
      { fallbackAttempts := n, finalH3 := h3, ws := some w }).recordWs w (o.terminal = .completed) := by
    simp only [ProtoAccum.record, hp]
    rfl
  rw [hrec]
  cases ho : w.opened with
  | true =>
    rw [ho] at hclose
    obtain ⟨⟨closer, code⟩, hc⟩ := Option.isSome_iff_exists.1 hclose
    simp only [ProtoAccum.recordWs, ho, if_true, hc]
    refine ⟨rfl, ?_, CountMap.total_bump _ _ _, hrtt⟩
    show 0 + _ ≤ 0 + 1
    rw [Nat.zero_add]
    exact Bool.toNat_le _
  | false =>
    simp only [ProtoAccum.recordWs, ho, Bool.false_eq_true, if_false]
    split_ifs
    · exact ⟨rfl, le_rfl, rfl, hrtt⟩
    · exact ⟨rfl, le_rfl, rfl, hrtt⟩

theorem wsLaw_all {units : List StepUnit} (es : List Entry)
    (hes : ∀ o, Entry.send o ∈ es → ∃ w, WsFacts units o w) : WsLaw units (totalsOf es).proto (settledOf es) := by
  refine protoLaw_all (fun o => ∃ w, WsFacts units o w) (WsLaw units) ⟨rfl, le_rfl, rfl, .inl rfl⟩ ?_ es hes
  rintro a r o ⟨w, hw⟩ h
  obtain ⟨h₁, h₂, h₃, h₄⟩ := ws_record hw
  have h₅ := h.settled
  have h₆ := h.clean
  refine ⟨?_, ?_, ?_, ?_⟩
  · show (a.wsOpened + _) + (a.wsRejected + _) + (a.wsNotOpened + _) = _
    rw [settle_ended]
    omega
  · exact Nat.add_le_add h₆ h₂
  · show (a.ends + _).total = a.wsOpened + _
    rw [CountMap.total_add, h.closes, h₃]
  · show (a.rtt + _).count = 0 ∨ _
    rw [LatencyStat.count_add, h₄]
    by_cases hr : w.rtts = []
    · rw [hr]
      exact h.rtt
    · exact .inr (hw.rtts hr)

/-! ### TCP exchanges -/

/-- What an exchange's facts satisfy: exactly a completed exchange of a step with an expectation is judged, and a
short one is an application failure. -/
structure TcpFacts (units : List StepUnit) (o : SendObservation) (t : TcpObs) : Prop where
  proto : ∃ n h3, o.proto = { fallbackAttempts := n, finalH3 := h3, tcp := some t }
  judged : t.expectation.isSome = true → o.terminal = .completed
  expected : (ProtoAccum.expectedFrames units).isSome = true → o.terminal = .completed → t.expectation.isSome = true
  short : t.expectation = some false → o.applicationFailure = true

structure TcpLaw (units : List StepUnit) (a : ProtoAccum) (r : RequestCounts) : Prop where
  connected : a.tcpConnected ≤ r.ended
  judged : a.expectationMet + a.expectationShort ≤ r.completed
  expected : (ProtoAccum.expectedFrames units).isSome = true → a.expectationMet + a.expectationShort = r.completed
  short : a.expectationShort ≤ r.applicationFailures

theorem tcp_record {units : List StepUnit} {o : SendObservation} {t : TcpObs} (ht : TcpFacts units o t) :
    let p := (0 : ProtoAccum).record o
    p.tcpConnected ≤ 1 ∧ p.expectationMet + p.expectationShort = t.expectation.isSome.toNat ∧
      p.expectationShort = (decide (t.expectation = some false)).toNat := by
  obtain ⟨n, h3, hp⟩ := ht.proto
  have hrec : (0 : ProtoAccum).record o = (((0 : ProtoAccum).recordAttempts o.proto).recordStream
      { fallbackAttempts := n, finalH3 := h3, tcp := some t }).recordTcp t := by
    simp only [ProtoAccum.record, hp]
    rfl
  have hconn : 0 + t.connected.toNat ≤ 1 := by rw [Nat.zero_add]; exact Bool.toNat_le _
  rw [hrec]
  unfold ProtoAccum.recordTcp
  rcases t.expectation with _ | _ | _
  · exact ⟨hconn, rfl, rfl⟩
  · exact ⟨hconn, rfl, rfl⟩
  · exact ⟨hconn, rfl, rfl⟩

theorem tcpLaw_all {units : List StepUnit} (es : List Entry)
    (hes : ∀ o, Entry.send o ∈ es → ∃ t, TcpFacts units o t) : TcpLaw units (totalsOf es).proto (settledOf es) := by
  refine protoLaw_all (fun o => ∃ t, TcpFacts units o t) (TcpLaw units) ⟨le_rfl, le_rfl, fun _ => rfl, le_rfl⟩ ?_ es hes
  rintro a r o ⟨t, ht⟩ h
  obtain ⟨h₁, h₂, h₃⟩ := tcp_record ht
  have hle : t.expectation.isSome.toNat ≤ (decide (o.terminal = .completed)).toNat := by
    cases hs : t.expectation.isSome with
    | false => exact Nat.zero_le _
    | true => rw [ht.judged hs]; exact le_rfl
  refine ⟨?_, ?_, fun hexp => ?_, ?_⟩
  · rw [settle_ended]
    exact Nat.add_le_add h.connected h₁
  · show (a.expectationMet + _) + (a.expectationShort + _) ≤ _
    have := h.judged
    rw [settle_completed]
    omega
  · show (a.expectationMet + _) + (a.expectationShort + _) = _
    have := h.expected hexp
    have hge : (decide (o.terminal = .completed)).toNat ≤ t.expectation.isSome.toNat := by
      by_cases hc : o.terminal = .completed
      · rw [ht.expected hexp hc]; exact Bool.toNat_le _
      · rw [decide_eq_false hc]; exact Nat.zero_le _
    rw [settle_completed]
    omega
  · show a.expectationShort + _ ≤ _
    have := h.short
    have hshort : (decide (t.expectation = some false)).toNat ≤ o.applicationFailure.toNat := by
      by_cases hs : t.expectation = some false
      · rw [ht.short hs]; exact Bool.toNat_le _
      · rw [decide_eq_false hs]; exact Nat.zero_le _
    rw [settle_applicationFailures]
    omega

/-! ### Datagram exchanges -/

/-- The datagram counters after `completed` completed exchanges, with handshakes and tunnels of at most `hsMax` and
`tnMax` exchanges. -/
structure DgramLaw (a : ProtoAccum) (completed hsMax tnMax : Nat) : Prop where
  responses : a.withResponse + a.silent = completed
  first : a.firstResponse.count ≤ a.withResponse
  handshakes : a.hsCompleted + a.hsFailed + a.hsTimedOut ≤ a.hsAttempted
  attempted : a.hsAttempted ≤ hsMax
  tunnels : a.tnEstablished + a.tnRefused + a.tnFailed + a.tnTimedOut + a.tnCanceled = a.tnAttempted
  tunneled : a.tnAttempted ≤ tnMax
  setup : a.tnSetup.count = a.tnEstablished

/-- The facts of a datagram exchange, and nothing of another family. -/
def DgramFacts (o : SendObservation) (d : DgramObs) : Prop :=
  ∃ n h3, o.proto = { fallbackAttempts := n, finalH3 := h3, dgram := some d }

section Stages
variable {a : ProtoAccum} {c hs tn : Nat}

theorem DgramLaw.response (h : DgramLaw a c hs tn) (d : DgramObs) (completed : Bool) :
    DgramLaw (a.recordResponse d completed) (c + completed.toNat) hs tn := by
  have h₁ := h.responses
  have h₂ := h.first
  unfold ProtoAccum.recordResponse
  cases completed with
  | false => exact { h with }
  | true =>
    by_cases hr : d.received > 0
    · simp only [if_true, hr, Bool.toNat_true]
      refine { h with responses := ?_, first := ?_ }
      · simp only
        omega
      · cases d.ttfrUs with
        | none => simp only; omega
        | some t => simp only [LatencyStat.count_record]; omega
    · simp only [if_true, hr, if_false, Bool.toNat_true]
      refine { h with responses := ?_ }
      simp only
      omega

theorem DgramLaw.handshake (h : DgramLaw a c hs tn) (status : PhaseStatus) (dur : Option Nat) :
    DgramLaw (a.recordHandshake status dur) c (hs + 1) tn := by
  have h₁ := h.handshakes
  have h₂ := h.attempted
  cases status <;>
    exact
      { h with
        handshakes := by simp only [ProtoAccum.recordHandshake]; omega
        attempted := Nat.succ_le_succ h₂ }

theorem DgramLaw.tunnel (h : DgramLaw a c hs tn) (t : TunnelEnd) : DgramLaw (a.recordTunnel t) c hs (tn + 1) := by
  have h₁ := h.tunnels
  have h₂ := h.tunneled
  have h₃ := h.setup
  cases t with
  | established us =>
    refine { h with tunnels := ?_, tunneled := Nat.succ_le_succ h₂, setup := ?_ }
    · simp only [ProtoAccum.recordTunnel]
      omega
    · simp only [ProtoAccum.recordTunnel, LatencyStat.count_record, h₃]
  | refused | failed | timedOut | canceled =>
    exact
      { h with
        tunnels := by simp only [ProtoAccum.recordTunnel]; omega
        tunneled := Nat.succ_le_succ h₂ }

theorem DgramLaw.mono (h : DgramLaw a c hs tn) {hs' tn' : Nat} (h₁ : hs ≤ hs') (h₂ : tn ≤ tn') : DgramLaw a c hs' tn' :=
  { h with attempted := h.attempted.trans h₁, tunneled := h.tunneled.trans h₂ }

theorem DgramLaw.dgram (h : DgramLaw a c hs tn) (d : DgramObs) (completed : Bool) :
    DgramLaw (a.recordDgram d completed) (c + completed.toNat) (hs + 1) (tn + 1) := by
  have hr := h.response d completed
  unfold ProtoAccum.recordDgram
  rcases d.handshake with _ | ⟨status, dur⟩ <;> rcases d.tunnel with _ | t
  · exact hr.mono (Nat.le_succ _) (Nat.le_succ _)
  · exact (hr.tunnel t).mono (Nat.le_succ _) le_rfl
  · exact (hr.handshake status dur).mono le_rfl (Nat.le_succ _)
  · exact (hr.handshake status dur).tunnel t

end Stages

theorem dgramLaw_all (es : List Entry) (hes : ∀ o, Entry.send o ∈ es → ∃ d, DgramFacts o d) :
    DgramLaw (totalsOf es).proto (settledOf es).completed (settledOf es).ended (settledOf es).ended := by
  refine protoLaw_all (fun o => ∃ d, DgramFacts o d) (fun a r => DgramLaw a r.completed r.ended r.ended)
    ⟨rfl, le_rfl, le_rfl, le_rfl, rfl, le_rfl, rfl⟩ ?_ es hes
  rintro a r o ⟨d, n, h3, hp⟩ h
  have hrec : a.record o = ((a.recordAttempts o.proto).recordStream
      { fallbackAttempts := n, finalH3 := h3, dgram := some d }).recordDgram d (o.terminal = .completed) := by
    simp only [ProtoAccum.record, hp]
    rfl
  rw [show a + (0 : ProtoAccum).record o = a.record o from (ProtoAccum.adds_record o a).symm, hrec, settle_completed,
    settle_ended]
  refine DgramLaw.dgram ?_ d _
  exact { h with }

end Laws

/-! ## What `observe` gives -/

section Observed
variable (parseUrl : String → Option ParsedUrl) (out : ExecutionOutput) (wallUs : Nat) {u : StepUnit}
  {units : List StepUnit}

theorem wsObs_close (record : ExecutionRecord) (step : StepUnit) :
    (wsObs record step).close.isSome = (wsObs record step).opened ∧
      ((wsObs record step).rtts ≠ [] → step.wsExpectMessages > 0) := by
  unfold wsObs
  simp only
  cases record.stream with
  | none => exact ⟨rfl, fun h => absurd rfl h⟩
  | some t =>
    by_cases h₁ : step.wsExpectMessages > 0
    · by_cases h₂ : t.droppedMessages > 0
      · simp only [h₁, h₂, if_true]
        exact ⟨rfl, fun _ => trivial⟩
      · simp only [h₁, h₂, if_true, if_false]
        generalize pairRtts _ = paired
        cases paired <;> exact ⟨rfl, fun _ => trivial⟩
    · simp only [h₁, if_false]
      exact ⟨rfl, fun h => absurd rfl h⟩

theorem observe_ws (hu : u ∈ units) (hk : u.kind = .websocketSession) :
    ∃ w, WsFacts units (observe parseUrl out wallUs u) w := by
  obtain ⟨h₁, h₂⟩ := wsObs_close out.record u
  have hp : (observe parseUrl out wallUs u).proto =
      { fallbackAttempts := out.record.attempts.countP fun a => isFallback a.reason
        finalH3 := (lastConnection out.record).bind ConnectionObservation.protocol = some "h3"
        ws := some (wsObs out.record u) } := by
    rw [observe_proto, protocolObs, hk]
  exact ⟨wsObs out.record u, ⟨_, _, hp⟩, h₁, fun hr => List.any_eq_true.2 ⟨u, hu, decide_eq_true (h₂ hr)⟩⟩

/-- Only a datagram exchange is demoted. -/
theorem observe_terminal_of_tcp (hk : u.kind = .tcpExchange) :
    (observe parseUrl out wallUs u).terminal = terminalOf out.record := by
  rw [observe_terminal, classified, demoteUnopened]
  simp only [protocolObs, hk, Option.bind_none, Option.any_none, Bool.and_false, Bool.false_eq_true, if_false]
  rfl

theorem observe_short (hk : u.kind = .tcpExchange)
    (hs : (tcpObs out.record u (terminalOf out.record)).expectation = some false)
    (hc : terminalOf out.record = .completed) : (observe parseUrl out wallUs u).applicationFailure = true := by
  have hterm : (classified parseUrl out wallUs u).terminal = .completed := by
    rw [← observe_terminal, observe_terminal_of_tcp parseUrl out wallUs hk, hc]
  have hproto : (classified parseUrl out wallUs u).proto.tcp = some (tcpObs out.record u (terminalOf out.record)) := by
    rw [classified, demoteUnopened_proto]
    simp only [protocolObs, hk]
    rfl
  have hjudge : (judgeCompleted (classified parseUrl out wallUs u) out.record u).applicationFailure = true := by
    simp only [judgeCompleted, hk, hproto, Option.bind_some, hs, if_true]
  rw [observe_eq]
  simp only [hterm, if_true]
  split_ifs <;> exact hjudge

theorem expectedFrames_isSome (h : (ProtoAccum.expectedFrames units).isSome = true) (hu : u ∈ units) :
    u.tcpExpectFrames.isSome = true := by
  obtain ⟨f, hf⟩ := Option.isSome_iff_exists.1 h
  obtain ⟨-, hall⟩ := Option.filter_eq_some_iff.1 hf
  have hlen := of_decide_eq_true (Bool.and_eq_true_iff.1 hall).1
  exact List.filterMap_length_eq_length.1 hlen u hu

theorem observe_tcp (hu : u ∈ units) (hk : u.kind = .tcpExchange) :
    ∃ t, TcpFacts units (observe parseUrl out wallUs u) t := by
  have hterm := observe_terminal_of_tcp parseUrl out wallUs hk
  have hexp : (tcpObs out.record u (terminalOf out.record)).expectation.isSome =
      (u.tcpExpectFrames.isSome && decide (terminalOf out.record = .completed)) := by
    show ((u.tcpExpectFrames.filter fun _ => terminalOf out.record = .completed).map _).isSome = _
    rw [Option.isSome_map]
    cases u.tcpExpectFrames <;> by_cases hc : terminalOf out.record = .completed <;> simp [Option.filter, hc]
  have hdone : (tcpObs out.record u (terminalOf out.record)).expectation.isSome = true →
      terminalOf out.record = .completed := by
    intro h
    rw [hexp, Bool.and_eq_true] at h
    exact of_decide_eq_true h.2
  have hp : (observe parseUrl out wallUs u).proto =
      { fallbackAttempts := out.record.attempts.countP fun a => isFallback a.reason
        finalH3 := (lastConnection out.record).bind ConnectionObservation.protocol = some "h3"
        tcp := some (tcpObs out.record u (terminalOf out.record)) } := by
    rw [observe_proto, protocolObs, hk]
  refine ⟨tcpObs out.record u (terminalOf out.record), ⟨_, _, hp⟩, fun h => ?_, fun h hc => ?_, fun h => ?_⟩
  · rw [hterm]
    exact hdone h
  · rw [hterm] at hc
    rw [hexp, expectedFrames_isSome h hu, hc]
    rfl
  · exact observe_short parseUrl out wallUs hk h (hdone (by rw [h]; rfl))

theorem observe_dgram (hk : u.kind = .udpExchange ∨ u.kind = .dtlsExchange) :
    ∃ d, DgramFacts (observe parseUrl out wallUs u) d := by
  have hp : (observe parseUrl out wallUs u).proto =
      { fallbackAttempts := out.record.attempts.countP fun a => isFallback a.reason
        finalH3 := (lastConnection out.record).bind ConnectionObservation.protocol = some "h3"
        dgram := some (dgramObs out u (terminalOf out.record)) } := by
    rw [observe_proto, protocolObs]
    rcases hk with hk | hk <;> rw [hk]
  exact ⟨dgramObs out u (terminalOf out.record), _, _, hp⟩

end Observed

/-! ## The clauses -/

theorem ensure_ok {ok : Bool} (what : String) (h : ok = true) : ensure ok what = .ok () := if_pos h

section Ensured
variable {q : RequestCounts} {settled : Nat}

theorem checkWebSocket_of {w : WebSocketLoadMetrics} (h₁ : w.opened + w.handshakeRejected + w.notOpened = settled)
    (h₂ : w.closedCleanly ≤ w.opened) (h₃ : (w.closeCodes.map ClosedCount.count).sum = w.opened)
    (h₄ : w.rttPairs = w.rtt.count) (h₅ : w.rttDefined = true ∨ w.rttPairs = 0) :
    checkWebSocket settled w = .ok () := by
  unfold checkWebSocket
  rw [ensure_ok _ (decide_eq_true h₁), ok_bind, ensure_ok _ (decide_eq_true h₂), ok_bind]
  simp only
  rw [ensure_ok _ (decide_eq_true h₃), ok_bind]
  exact ensure_ok _ (Bool.and_eq_true_iff.2 ⟨decide_eq_true h₄, Bool.or_eq_true_iff.2 (h₅.imp_right decide_eq_true)⟩)

theorem checkTcp_of {t : TcpLoadMetrics} (h₁ : t.connected ≤ settled)
    (h₂ : t.expectationMet + t.expectationShort ≤ q.completed)
    (h₃ : t.expectedFrames.isNone = true ∨ t.expectationMet + t.expectationShort = q.completed)
    (h₄ : t.expectationShort ≤ q.applicationFailures) : checkTcp q settled t = .ok () := by
  unfold checkTcp
  rw [ensure_ok _ (decide_eq_true h₁), ok_bind]
  simp only
  rw [ensure_ok _ (decide_eq_true h₂), ok_bind, ensure_ok _ (Bool.or_eq_true_iff.2 (h₃.imp_right decide_eq_true)),
    ok_bind]
  exact ensure_ok _ (decide_eq_true h₄)

theorem checkResponses_of {d : DatagramLoadMetrics} (h₁ : d.exchangesWithResponse + d.exchangesSilent = q.completed)
    (h₂ : d.timeToFirstDatagram.count ≤ d.exchangesWithResponse) : checkResponses q d = .ok () := by
  unfold checkResponses
  rw [ensure_ok _ (decide_eq_true h₁), ok_bind]
  exact ensure_ok _ (decide_eq_true h₂)

theorem checkTunnelEnds_of {t : TunnelLoadMetrics}
    (h₁ : t.established + t.refused + t.failed + t.timedOut + t.canceled = t.attempted) (h₂ : t.attempted ≤ settled)
    (h₃ : t.setup.count = t.established) : checkTunnelEnds settled t = .ok () := by
  unfold checkTunnelEnds
  rw [ensure_ok _ (Bool.and_eq_true_iff.2 ⟨decide_eq_true h₁, decide_eq_true h₂⟩), ok_bind]
  exact ensure_ok _ (decide_eq_true h₃)

end Ensured

section Clauses
variable [HdrLayout] {units : List StepUnit} {a : ProtoAccum} {r : RequestCounts}

theorem sum_endCounts (a : ProtoAccum) : (a.endCounts.map ClosedCount.count).sum = a.ends.total := by
  rw [ProtoAccum.endCounts, List.map_map, CountMap.total, sumBy_eq]
  rfl

theorem WsLaw.check (h : WsLaw units a r) : checkWebSocket r.ended (a.wsSummary units) = .ok () :=
  checkWebSocket_of h.settled h.clean ((sum_endCounts a).trans h.closes) (LatencyStat.summary_count a.rtt).symm
    h.rtt.symm

theorem TcpLaw.check (h : TcpLaw units a r) : checkTcp r r.ended (a.tcpSummary units) = .ok () := by
  refine checkTcp_of h.connected h.judged ?_ h.short
  show (ProtoAccum.expectedFrames units).isNone = true ∨ _
  cases hs : ProtoAccum.expectedFrames units with
  | none => exact .inl rfl
  | some f => exact .inr (h.expected (by rw [hs]; rfl))

variable {settled : Nat}

theorem DgramLaw.checkResponses (h : DgramLaw a r.completed settled settled) (kind : LoadUnitKind) :
    checkResponses r (a.datagramSummary kind units) = .ok () :=
  checkResponses_of h.responses ((LatencyStat.summary_count a.firstResponse).trans_le h.first)

theorem DgramLaw.checkHandshakes (h : DgramLaw a r.completed settled settled) (kind : LoadUnitKind) :
    checkHandshakes settled (a.datagramSummary kind units) = .ok () := by
  unfold Load.checkHandshakes ProtoAccum.datagramSummary
  by_cases hk : kind = .dtlsExchange
  · simp only [if_pos hk]
    exact ensure_ok _ (Bool.and_eq_true_iff.2 ⟨decide_eq_true h.handshakes, decide_eq_true h.attempted⟩)
  · simp only [if_neg hk]

theorem DgramLaw.checkTunnelEnds (h : DgramLaw a r.completed settled settled) (kind : LoadUnitKind)
    {t : TunnelLoadMetrics} (ht : (a.datagramSummary kind units).tunnels = some t) :
    checkTunnelEnds settled t = .ok () := by
  obtain ⟨k, -, rfl⟩ := Option.map_eq_some_iff.1 ht
  exact checkTunnelEnds_of h.tunnels h.tunneled ((LatencyStat.summary_count a.tnSetup).trans h.setup)

end Clauses

end Anvil.Load
