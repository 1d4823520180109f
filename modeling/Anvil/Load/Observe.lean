import Anvil.Load.Record

/-!
# Classifying one send (`anvil-load/src/metrics.rs`, `observe`)

`observe` turns an execution into a `SendObservation`: `observeRecord` gives the terminal class, flags, latency,
bytes and connections, `protocolObs` the facts of the unit kind, and `observe` then reclassifies (an exchange
whose tunnel never opened is a transport failure) and sets the remaining flags. The URL parser of `origin` is a
parameter.

* `FlagsCompleted` : a failure flag is set on completed sends only, through every stage of `observe`.
-/

namespace Anvil.Load

/-- How a send ended. -/
inductive Terminal where
  | completed | transportFailure | timeout | canceled
deriving DecidableEq

structure WsObs where
  opened : Bool := false
  rejected : Bool := false
  close : Option (ClosedBy × Option Nat) := none
  sent : Nat := 0
  received : Nat := 0
  rtts : List Nat := []
  unpaired : Bool := false
deriving DecidableEq

structure TcpObs where
  connected : Bool := false
  framesSent : Nat := 0
  framesReceived : Nat := 0
  bytesSent : Nat := 0
  bytesReceived : Nat := 0
  partialFrame : Bool := false
  peerClose : Bool := false
  expectation : Option Bool := none
deriving DecidableEq

inductive TunnelEnd where
  | established (setupUs : Nat)
  | refused
  | failed
  | timedOut
  | canceled
deriving DecidableEq

structure DgramObs where
  sent : Nat := 0
  received : Nat := 0
  repeated : Nat := 0
  echoed : Nat := 0
  icmp : Bool := false
  ttfrUs : Option Nat := none
  handshake : Option (PhaseStatus × Option Nat) := none
  tunnel : Option TunnelEnd := none
deriving DecidableEq

/-- Protocol facts of one unit; only the family of its kind is filled. -/
structure ProtoObs where
  fallbackAttempts : Nat := 0
  finalH3 : Bool := false
  grpcStatus : Option Int := none
  grpcMissingStatus : Bool := false
  streamOpened : Bool := false
  messagesSent : Nat := 0
  messagesReceived : Nat := 0
  firstMessageUs : Option Nat := none
  streamEnd : Option ClosedBy := none
  ws : Option WsObs := none
  tcp : Option TcpObs := none
  dgram : Option DgramObs := none
deriving DecidableEq

structure SendObservation where
  terminal : Terminal := .completed
  applicationFailure : Bool := false
  assertionFailure : Bool := false
  noResponse : Bool := false
  latencyUs : Nat := 0
  setupUs : Nat := 0
  deadlineMs : Option Nat := none
  status : Option Nat := none
  bytesSent : Nat := 0
  bytesReceived : Nat := 0
  connectionsOpened : Nat := 0
  connectionsReused : Nat := 0
  protocol : Option String := none
  category : Option String := none
  sample : Option String := none
  destination : Option String := none
  proto : ProtoObs := {}
deriving DecidableEq

def SendObservation.isSuccess (o : SendObservation) : Bool :=
  o.terminal = .completed && !o.applicationFailure && !o.assertionFailure && !o.noResponse

/-- Counts toward the failure distribution and the failure ratio. -/
def SendObservation.isFailure (o : SendObservation) : Bool :=
  match o.terminal with
  | .completed => o.applicationFailure || o.assertionFailure
  | .transportFailure | .timeout => true
  | .canceled => false

def isTimeout : FailureKind → Bool
  | .totalTimeout | .responseHeadersTimeout | .requestWriteTimeout | .bodyIdleTimeout | .connectTimeout
  | .tlsHandshakeTimeout | .dnsTimeout | .quicHandshakeTimeout | .quicIdleTimeout | .dtlsHandshakeTimeout => true
  | _ => false

/-! ## The unit-independent part -/

/-- The failure of the last attempt. -/
def lastFailure (record : ExecutionRecord) : Option TransportFailure :=
  record.attempts.getLast?.bind AttemptObservation.failure

def terminalOf (record : ExecutionRecord) : Terminal :=
  match record.outcome.transport with
  | .completed => .completed
  | .canceled => .canceled
  | _ => match lastFailure record with
    | some f => if f.kind = .canceled then .canceled else if isTimeout f.kind then .timeout else .transportFailure
    | none => .transportFailure

/-- Origin (`scheme://host:port`) of a redacted URL. -/
def origin (parseUrl : String → Option ParsedUrl) (url : String) : Option String := do
  let u ← parseUrl url
  let host ← u.hostStr
  match u.portOrKnownDefault with
  | some p => some (u.scheme ++ "://" ++ host ++ ":" ++ toString p)
  | none => some (u.scheme ++ "://" ++ host)

/-- The last attempt's connection. -/
def lastConnection (record : ExecutionRecord) : Option ConnectionObservation :=
  record.attempts.getLast?.bind AttemptObservation.connection

def observeRecord (parseUrl : String → Option ParsedUrl) (record : ExecutionRecord) (wallUs : Nat) : SendObservation :=
  let terminal := terminalOf record
  let latencyUs := (exchangeDurationUs record.attempts).getD 0
  { terminal
    applicationFailure := terminal = .completed && record.outcome.application = .failure
    assertionFailure := terminal = .completed && record.outcome.assertions = .fail
    latencyUs
    setupUs := wallUs - latencyUs
    deadlineMs := if terminal = .timeout then (lastFailure record).bind TransportFailure.deadlineMs else none
    status := record.responseStatus
    bytesSent := (record.attempts.map fun a => a.bytes.requestHeadersLogical + a.bytes.requestBody).sum
    bytesReceived := (record.attempts.map fun a =>
      a.bytes.responseHeadersLogical.getD 0 + a.bytes.responseBodyWire.getD 0).sum
    connectionsOpened := record.attempts.countP fun a => a.connection.any fun c => !c.reused
    connectionsReused := record.attempts.countP fun a => a.connection.any fun c => c.reused
    protocol := (lastConnection record).bind ConnectionObservation.protocol
    destination := origin parseUrl record.url }

/-! ## Protocol facts -/

def firstOffset (record : ExecutionRecord) (dir : Direction) (kinds : List String) : Option Nat :=
  record.stream.bind fun t =>
    (t.messages.find? fun m => m.direction = dir && kinds.contains m.kind).map StreamMessage.offsetUs

/-- Round trips of paired offsets; `none` when a reply came before its message. -/
def pairRtts : List (Nat × Nat) → Option (List Nat)
  | [] => some []
  | (sent, recv) :: rest => if recv < sent then none else (pairRtts rest).map ((recv - sent) :: ·)

/-- How a tunneled exchange's tunnel setup ended; `none` when no tunnel was attempted. -/
def tunnelObs (record : ExecutionRecord) (terminal : Terminal) : Option TunnelEnd := do
  let a ← record.attempts.getLast?
  let attempted := a.phases.any fun ph => ph.phase ≠ .prepare ∧ ph.status ≠ .notApplicable
  if !attempted then none
  else
    let connectStatus := (a.connection.bind fun c => c.tunnelConnectStatus.join).or
      (match record.outcome.protocolStatus with
        | .udp _ _ masque => masque.join
        | _ => none)
    let refused := connectStatus.any fun c => !(200 ≤ c && c < 300)
    let notOpen := fun (timedOut : Bool) =>
      if refused then TunnelEnd.refused
      else if timedOut || terminal = .timeout then .timedOut
      else if terminal = .canceled then .canceled
      else .failed
    match a.phase .proxyTunnel, a.phase .session with
    | some t, _ => match t.status with
      | .completed => some (.established (t.endUs.getD 0))
      | .timedOut => some (notOpen true)
      | _ => some (notOpen false)
    | none, some session => some (.established (session.startUs.getD 0))
    | none, none => some (notOpen false)

def wsObs (record : ExecutionRecord) (step : StepUnit) : WsObs :=
  let (handshake, code, closer) := match record.outcome.protocolStatus with
    | .webSocket handshakeStatus closeCode closedBy => (handshakeStatus, closeCode, closedBy)
    | _ => (none, none, ClosedBy.notClosed)
  -- A transcript exists only once the session opened.
  let opened := record.stream.isSome
  let ws : WsObs :=
    { opened
      rejected := !opened && handshake.any fun s => s ≠ 101 && s ≠ 200
      close := if opened then some (closer, code) else none
      sent := (record.stream.map StreamTranscript.sentCount).getD 0
      received := (record.stream.map StreamTranscript.receivedCount).getD 0 }
  match record.stream with
  | some t =>
    if step.wsExpectMessages > 0 then
      if t.droppedMessages > 0 then { ws with unpaired := true }
      else
        let data := fun d => (t.messages.filter fun m =>
          m.direction = d && (m.kind = "text" || m.kind = "binary")).map StreamMessage.offsetUs
        match pairRtts (((data .sent).zip (data .received)).take step.wsExpectMessages) with
        | some rtts => { ws with rtts }
        | none => { ws with unpaired := true }
    else ws
  | none => ws

def tcpObs (record : ExecutionRecord) (step : StepUnit) (terminal : Terminal) : TcpObs :=
  let (bytesSent, bytesReceived, closer) := match record.outcome.protocolStatus with
    | .tcp bytesSent bytesReceived closedBy => (bytesSent, bytesReceived, closedBy)
    | _ => (0, 0, ClosedBy.notClosed)
  let framesReceived := (record.stream.map StreamTranscript.receivedCount).getD 0
  { connected := record.stream.isSome
    framesSent := (record.stream.map StreamTranscript.sentCount).getD 0
    framesReceived
    bytesSent
    bytesReceived
    partialFrame := record.stream.any fun t => t.messages.any fun m => m.kind = "partial_frame"
    peerClose := record.stream.isSome && closer = .peer
    expectation := (step.tcpExpectFrames.filter fun _ => terminal = .completed).map fun n => framesReceived ≥ n }

def dgramObs (out : ExecutionOutput) (step : StepUnit) (terminal : Terminal) : DgramObs :=
  let record := out.record
  let (sent, received) := match record.outcome.protocolStatus with
    | .udp datagramsSent datagramsReceived _ => (datagramsSent, datagramsReceived)
    | _ => (0, 0)
  { sent
    received
    repeated := (out.sessionFacts.map SessionFacts.repeatedDatagrams).getD 0
    echoed := (out.sessionFacts.map SessionFacts.echoedDatagrams).getD 0
    icmp := out.sessionFacts.any SessionFacts.icmpPortUnreachable
    ttfrUs := match firstOffset record .sent ["datagram"], firstOffset record .received ["datagram"] with
      | some s, some r => some (r - s)
      | _, _ => none
    handshake := if step.kind = .dtlsExchange then
        (record.attempts.getLast?.bind fun a => a.phase .dtlsHandshake).map fun ph => (ph.status, ph.durationUs)
      else none
    tunnel := step.tunnel.bind fun _ => tunnelObs record terminal }

def grpcObs (record : ExecutionRecord) (terminal : Terminal) (p : ProtoObs) : ProtoObs :=
  let p := match record.outcome.protocolStatus with
    | .grpc httpStatus grpcStatus source =>
      { p with
        grpcStatus
        grpcMissingStatus := source = GrpcStatusSource.missing && httpStatus.isSome && terminal ≠ Terminal.canceled
        streamOpened := httpStatus = some 200 }
    | _ => p
  let prior := (record.attempts.dropLast.map AttemptObservation.durationUs).sum
  { p with
    messagesReceived := (record.stream.map StreamTranscript.receivedCount).getD 0
    messagesSent := (record.stream.map StreamTranscript.sentCount).getD 0
    firstMessageUs := (firstOffset record .received ["grpc_message"]).map (· + prior) }

def sseObs (record : ExecutionRecord) (p : ProtoObs) : ProtoObs :=
  let opened := record.stream.isSome
  let p := { p with streamOpened := opened }
  let p := match record.outcome.protocolStatus with
    | .sse _ events closedBy =>
      { p with messagesReceived := events, streamEnd := if opened then some closedBy else none }
    | _ => p
  { p with firstMessageUs := firstOffset record .received ["event"] }

def isFallback : AttemptReason → Bool
  | .protocolFallback _ => true
  | _ => false

def protocolObs (out : ExecutionOutput) (step : StepUnit) (terminal : Terminal) : ProtoObs :=
  let record := out.record
  let p : ProtoObs :=
    { fallbackAttempts := record.attempts.countP fun a => isFallback a.reason
      finalH3 := (lastConnection record).bind ConnectionObservation.protocol = some "h3" }
  match step.kind with
  | .httpRequest => p
  | .grpcCall | .grpcStream | .grpcClientStream | .grpcBidiStream => grpcObs record terminal p
  | .sseStream => sseObs record p
  | .websocketSession => { p with ws := some (wsObs record step) }
  | .tcpExchange => { p with tcp := some (tcpObs record step terminal) }
  | .udpExchange | .dtlsExchange => { p with dgram := some (dgramObs out step terminal) }

/-! ## Failure samples -/

def maxExampleChars : Nat := 400

/-- The first `max` characters, with an ellipsis when there are more. -/
def truncateChars (s : String) (max : Nat) : String :=
  if max < s.toList.length then String.ofList (s.toList.take max) ++ "…" else s

/-- A SOAP or GraphQL request whose application outcome was not determined from the response body. -/
def notDeterminedFromBody (record : ExecutionRecord) (step : StepUnit) : Bool :=
  step.applicationFromBody && record.outcome.application = .notEvaluated

/-- The last finding of the highest severity from `warning` on, else the first finding. -/
def topFinding (findings : List DiagnosticFinding) : Option String :=
  let serious := findings.filter fun f => f.severity.rank ≥ Severity.warning.rank
  let top := serious.foldl (fun best f => match best with
    | none => some f
    | some b => if b.severity.rank ≤ f.severity.rank then some f else best) (none : Option DiagnosticFinding)
  (top.or findings.head?).map DiagnosticFinding.code

def failureClass (o : SendObservation) : String :=
  match o.terminal with
  | .timeout => "timeout"
  | .transportFailure => "transport_failure"
  | _ => if o.applicationFailure then "application_failure" else "assertion_failure"

/-- A completed exchange had fewer framed replies than its request expects. -/
def expectationShort (o : SendObservation) : Bool := (o.proto.tcp.bind TcpObs.expectation) = some false

def failureDetail (o : SendObservation) (record : ExecutionRecord) (step : StepUnit) : String :=
  let top := topFinding record.findings
  let kind := (lastFailure record).map fun f => f.kind.snake
  let general := ((top.or kind).or (o.status.map fun s => "http_" ++ toString s)).getD "unknown"
  let byAssertion :=
    if o.assertionFailure && !o.applicationFailure then
      (((record.assertionResults.find? fun r => !r.passed).map AssertionResult.label).filter fun l => l ≠ "").getD
        "assertion"
    else general
  match o.terminal with
  | .timeout => kind.getD "deadline"
  | .completed =>
    if expectationShort o then "tcp.expected_frames_not_received"
    else if notDeterminedFromBody record step then top.getD "application.not_determined_from_body"
    else byAssertion
  | _ => byAssertion

def failureExample (o : SendObservation) (record : ExecutionRecord) (step : StepUnit) : String :=
  let head := record.method ++ " " ++ record.url ++ " → " ++ record.outcome.summary
  let failed := match lastFailure record with
    | some f => if o.terminal ≠ .completed then " [" ++ f.kind.snake ++ ": " ++ f.message ++ "]" else ""
    | none => ""
  let short := match o.proto.tcp with
    | some t =>
      if expectationShort o then " [expected " ++ toString (step.tcpExpectFrames.getD 0) ++ " frame(s), received " ++
        toString t.framesReceived ++ "]"
      else ""
    | none => ""
  let failedAssertion := match record.assertionResults.find? fun r => !r.passed with
    | some r => if o.assertionFailure then " [assertion: " ++ r.message ++ "]" else ""
    | none => ""
  head ++ failed ++ short ++ failedAssertion

def describeFailure (o : SendObservation) (record : ExecutionRecord) (step : StepUnit) : SendObservation :=
  { o with
    category := some (truncateChars (failureClass o ++ ": " ++ failureDetail o record step) 120)
    sample := some (truncateChars (failureExample o record step) maxExampleChars) }

/-! ## `observe` -/

/-- A datagram exchange whose tunnel never opened is not completed. -/
def demoteUnopened (o : SendObservation) : SendObservation :=
  let unopened := (o.proto.dgram.bind DgramObs.tunnel).any fun t => match t with
    | .established _ => false
    | _ => true
  if o.terminal = .completed && unopened then
    { o with terminal := .transportFailure, applicationFailure := false, assertionFailure := false, status := none }
  else o

/-- No datagram received is no response; otherwise the latency is the time to the first response. -/
def judgeDgram (o : SendObservation) : SendObservation :=
  match o.proto.dgram with
  | some d =>
    if d.received = 0 then { o with noResponse := true }
    else match d.ttfrUs with
      | some t => { o with latencyUs := t }
      | none => o
  | none => o

/-- What the unit kind adds to a completed send. -/
def judgeCompleted (o : SendObservation) (record : ExecutionRecord) (step : StepUnit) : SendObservation :=
  match step.kind with
  | .tcpExchange =>
    if (o.proto.tcp.bind TcpObs.expectation) = some false then { o with applicationFailure := true } else o
  | .httpRequest => if notDeterminedFromBody record step then { o with applicationFailure := true } else o
  | .udpExchange | .dtlsExchange => judgeDgram o
  | _ => o

def observe (parseUrl : String → Option ParsedUrl) (out : ExecutionOutput) (wallUs : Nat) (step : StepUnit) :
    SendObservation :=
  let record := out.record
  let o := observeRecord parseUrl record wallUs
  let o := demoteUnopened { o with proto := protocolObs out step o.terminal }
  let o := if o.terminal = .completed then judgeCompleted o record step else o
  if o.isFailure && o.category.isNone then describeFailure o record step else o

/-! ## What every observation satisfies -/

/-- A failure flag is set on completed sends only. -/
def FlagsCompleted (o : SendObservation) : Prop :=
  (o.applicationFailure = true → o.terminal = .completed) ∧ (o.assertionFailure = true → o.terminal = .completed)

theorem observeRecord_flags (parseUrl : String → Option ParsedUrl) (record : ExecutionRecord) (wallUs : Nat) :
    FlagsCompleted (observeRecord parseUrl record wallUs) := by
  constructor <;> intro h <;> simp only [observeRecord, Bool.and_eq_true, decide_eq_true_eq] at h ⊢ <;> exact h.1

theorem demoteUnopened_flags {o : SendObservation} (h : FlagsCompleted o) : FlagsCompleted (demoteUnopened o) := by
  unfold demoteUnopened
  simp only
  split_ifs
  · exact ⟨fun ha => absurd ha Bool.false_ne_true, fun ha => absurd ha Bool.false_ne_true⟩
  · exact h

@[simp] theorem demoteUnopened_proto (o : SendObservation) : (demoteUnopened o).proto = o.proto := by
  unfold demoteUnopened
  simp only
  split_ifs <;> rfl

/-- Judging a datagram exchange leaves its class, flags and facts alone. -/
theorem judgeDgram_keeps (o : SendObservation) :
    (judgeDgram o).terminal = o.terminal ∧ (judgeDgram o).applicationFailure = o.applicationFailure ∧
      (judgeDgram o).assertionFailure = o.assertionFailure ∧ (judgeDgram o).proto = o.proto := by
  unfold judgeDgram
  split
  · split_ifs
    · exact ⟨rfl, rfl, rfl, rfl⟩
    · split <;> exact ⟨rfl, rfl, rfl, rfl⟩
  · exact ⟨rfl, rfl, rfl, rfl⟩

@[simp] theorem judgeCompleted_terminal (o : SendObservation) (record : ExecutionRecord) (step : StepUnit) :
    (judgeCompleted o record step).terminal = o.terminal := by
  unfold judgeCompleted
  split <;> (try split_ifs) <;> first | rfl | exact (judgeDgram_keeps o).1

@[simp] theorem judgeCompleted_proto (o : SendObservation) (record : ExecutionRecord) (step : StepUnit) :
    (judgeCompleted o record step).proto = o.proto := by
  unfold judgeCompleted
  split <;> (try split_ifs) <;> first | rfl | exact (judgeDgram_keeps o).2.2.2

@[simp] theorem describeFailure_terminal (o : SendObservation) (record : ExecutionRecord) (step : StepUnit) :
    (describeFailure o record step).terminal = o.terminal := rfl

@[simp] theorem describeFailure_proto (o : SendObservation) (record : ExecutionRecord) (step : StepUnit) :
    (describeFailure o record step).proto = o.proto := rfl

section Observe
variable (parseUrl : String → Option ParsedUrl) (out : ExecutionOutput) (wallUs : Nat) (step : StepUnit)

/-- The observation before the unit kind judges it. -/
def classified : SendObservation :=
  let o := observeRecord parseUrl out.record wallUs
  demoteUnopened { o with proto := protocolObs out step o.terminal }

theorem classified_flags : FlagsCompleted (classified parseUrl out wallUs step) :=
  demoteUnopened_flags (observeRecord_flags parseUrl out.record wallUs)

theorem observe_eq : observe parseUrl out wallUs step =
    let o := classified parseUrl out wallUs step
    let o := if o.terminal = .completed then judgeCompleted o out.record step else o
    if o.isFailure && o.category.isNone then describeFailure o out.record step else o := rfl

theorem observe_terminal :
    (observe parseUrl out wallUs step).terminal = (classified parseUrl out wallUs step).terminal := by
  rw [observe_eq]
  simp only
  split_ifs <;> simp

theorem observe_proto :
    (observe parseUrl out wallUs step).proto = protocolObs out step (terminalOf out.record) := by
  have h : (classified parseUrl out wallUs step).proto = protocolObs out step (terminalOf out.record) := by
    rw [classified, demoteUnopened_proto]; rfl
  rw [observe_eq]
  simp only
  split_ifs <;> simp [h]

/-- **A failure flag is set on completed sends only.** -/
theorem observe_flags : FlagsCompleted (observe parseUrl out wallUs step) := by
  have h := classified_flags parseUrl out wallUs step
  have hd : ∀ o, FlagsCompleted o → FlagsCompleted (describeFailure o out.record step) := fun o ho => ho
  rw [observe_eq]
  simp only
  by_cases hc : (classified parseUrl out wallUs step).terminal = .completed
  · rw [if_pos hc]
    have hj : FlagsCompleted (judgeCompleted (classified parseUrl out wallUs step) out.record step) :=
      ⟨fun _ => by rw [judgeCompleted_terminal, hc], fun _ => by rw [judgeCompleted_terminal, hc]⟩
    split_ifs
    · exact hd _ hj
    · exact hj
  · rw [if_neg hc]
    split_ifs
    · exact hd _ h
    · exact h

end Observe

end Anvil.Load
