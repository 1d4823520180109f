import Mathlib.Tactic

/-!
# What the load engine reads of an execution (`anvil-domain`, `anvil-engine`)

The fields of `ExecutionOutput`, `ExecutionRecord` and their parts that `metrics::observe` reads, with the
source's types; fields no load metric reads are left out. Counters and durations are natural numbers.
-/

namespace Anvil.Load

inductive Phase where
  | prepare | queue | dns | connect | proxyTunnel | proxyProtocolHeader | tlsHandshake | quicHandshake
  | dtlsHandshake | protocolHandshake | requestWrite | awaitResponseHeaders | responseBody | session
deriving DecidableEq

inductive PhaseStatus where
  | completed | failed | timedOut | canceled | reused | notApplicable | unknown
deriving DecidableEq

inductive FailureKind where
  | invalidUrl | unsupportedScheme | unresolvedVariable | variableCycle | missingAttachment
  | clientIdentityInvalid | clientIdentityKeyMismatch | tlsProfileInvalid | proxyConfigInvalid
  | invalidHeader | bodySerialization | lintBlocked | requestTooLargeLocal | authPreparationFailed
  | oAuthInteractionRequired | unsupportedCombination | vaultLocked | workloadApiUnavailable
  | workloadApiDenied | workloadApiFailed | jwtSvidRejectedLocally | dnsNoSuchHost | dnsNoRecords
  | dnsTimeout | dnsServerFailure | dnsOther | connectRefused | connectTimeout | connectReset
  | networkUnreachable | hostUnreachable | addressUnavailable | connectOther | proxyConnectFailed
  | proxyTunnelRejected | proxyAuthRequired | proxyProtocolError | hboneEndpointTlsFailed
  | hboneConnectRefused | hboneProtocolError | tlsUntrustedIssuer | tlsExpired | tlsNotYetValid
  | tlsNameMismatch | tlsRevoked | tlsBadCertificate | tlsAlertReceived | tlsHandshakeTimeout | tlsPeerClosed
  | tlsReset | tlsProtocolMismatch | tlsAlpnMismatch | tlsOther | tlsAlertAfterHandshake
  | tlsSpiffeIdMismatch | tlsUntrustedTrustDomain | tlsInvalidSvid | quicHandshakeTimeout | quicIdleTimeout
  | quicTransportError | quicApplicationClosed | quicOther | dtlsHandshakeTimeout | dtlsHandshakeFailed
  | requestWriteTimeout | requestWriteFailed | responseHeadersTimeout | closedBeforeResponse
  | resetBeforeResponse | httpProtocolError | h2StreamReset | h2RefusedStream | h2GoAway
  | responseHeadersTooLarge | bodyIdleTimeout | bodyIncomplete | bodyReset | responseTooLargeLocal
  | decompressionFailed | wsHandshakeRejected | wsProtocolError | wsMessageTooLarge | masqueUnsupported
  | masqueRefused | totalTimeout | canceled | internal
deriving DecidableEq

/-- The serialized name of a failure kind (`snake`). -/
def FailureKind.snake : FailureKind → String
  | .invalidUrl => "invalid_url"
  | .unsupportedScheme => "unsupported_scheme"
  | .unresolvedVariable => "unresolved_variable"
  | .variableCycle => "variable_cycle"
  | .missingAttachment => "missing_attachment"
  | .clientIdentityInvalid => "client_identity_invalid"
  | .clientIdentityKeyMismatch => "client_identity_key_mismatch"
  | .tlsProfileInvalid => "tls_profile_invalid"
  | .proxyConfigInvalid => "proxy_config_invalid"
  | .invalidHeader => "invalid_header"
  | .bodySerialization => "body_serialization"
  | .lintBlocked => "lint_blocked"
  | .requestTooLargeLocal => "request_too_large_local"
  | .authPreparationFailed => "auth_preparation_failed"
  | .oAuthInteractionRequired => "oauth_interaction_required"
  | .unsupportedCombination => "unsupported_combination"
  | .vaultLocked => "vault_locked"
  | .workloadApiUnavailable => "workload_api_unavailable"
  | .workloadApiDenied => "workload_api_denied"
  | .workloadApiFailed => "workload_api_failed"
  | .jwtSvidRejectedLocally => "jwt_svid_rejected_locally"
  | .dnsNoSuchHost => "dns_no_such_host"
  | .dnsNoRecords => "dns_no_records"
  | .dnsTimeout => "dns_timeout"
  | .dnsServerFailure => "dns_server_failure"
  | .dnsOther => "dns_other"
  | .connectRefused => "connect_refused"
  | .connectTimeout => "connect_timeout"
  | .connectReset => "connect_reset"
  | .networkUnreachable => "network_unreachable"
  | .hostUnreachable => "host_unreachable"
  | .addressUnavailable => "address_unavailable"
  | .connectOther => "connect_other"
  | .proxyConnectFailed => "proxy_connect_failed"
  | .proxyTunnelRejected => "proxy_tunnel_rejected"
  | .proxyAuthRequired => "proxy_auth_required"
  | .proxyProtocolError => "proxy_protocol_error"
  | .hboneEndpointTlsFailed => "hbone_endpoint_tls_failed"
  | .hboneConnectRefused => "hbone_connect_refused"
  | .hboneProtocolError => "hbone_protocol_error"
  | .tlsUntrustedIssuer => "tls_untrusted_issuer"
  | .tlsExpired => "tls_expired"
  | .tlsNotYetValid => "tls_not_yet_valid"
  | .tlsNameMismatch => "tls_name_mismatch"
  | .tlsRevoked => "tls_revoked"
  | .tlsBadCertificate => "tls_bad_certificate"
  | .tlsAlertReceived => "tls_alert_received"
  | .tlsHandshakeTimeout => "tls_handshake_timeout"
  | .tlsPeerClosed => "tls_peer_closed"
  | .tlsReset => "tls_reset"
  | .tlsProtocolMismatch => "tls_protocol_mismatch"
  | .tlsAlpnMismatch => "tls_alpn_mismatch"
  | .tlsOther => "tls_other"
  | .tlsAlertAfterHandshake => "tls_alert_after_handshake"
  | .tlsSpiffeIdMismatch => "tls_spiffe_id_mismatch"
  | .tlsUntrustedTrustDomain => "tls_untrusted_trust_domain"
  | .tlsInvalidSvid => "tls_invalid_svid"
  | .quicHandshakeTimeout => "quic_handshake_timeout"
  | .quicIdleTimeout => "quic_idle_timeout"
  | .quicTransportError => "quic_transport_error"
  | .quicApplicationClosed => "quic_application_closed"
  | .quicOther => "quic_other"
  | .dtlsHandshakeTimeout => "dtls_handshake_timeout"
  | .dtlsHandshakeFailed => "dtls_handshake_failed"
  | .requestWriteTimeout => "request_write_timeout"
  | .requestWriteFailed => "request_write_failed"
  | .responseHeadersTimeout => "response_headers_timeout"
  | .closedBeforeResponse => "closed_before_response"
  | .resetBeforeResponse => "reset_before_response"
  | .httpProtocolError => "http_protocol_error"
  | .h2StreamReset => "h2_stream_reset"
  | .h2RefusedStream => "h2_refused_stream"
  | .h2GoAway => "h2_go_away"
  | .responseHeadersTooLarge => "response_headers_too_large"
  | .bodyIdleTimeout => "body_idle_timeout"
  | .bodyIncomplete => "body_incomplete"
  | .bodyReset => "body_reset"
  | .responseTooLargeLocal => "response_too_large_local"
  | .decompressionFailed => "decompression_failed"
  | .wsHandshakeRejected => "ws_handshake_rejected"
  | .wsProtocolError => "ws_protocol_error"
  | .wsMessageTooLarge => "ws_message_too_large"
  | .masqueUnsupported => "masque_unsupported"
  | .masqueRefused => "masque_refused"
  | .totalTimeout => "total_timeout"
  | .canceled => "canceled"
  | .internal => "internal"

inductive TransportState where
  | completed | failed | canceled | incomplete | unknown
deriving DecidableEq

inductive ApplicationState where
  | success | failure | notEvaluated
deriving DecidableEq

inductive AssertionState where
  | pass | fail | notRun
deriving DecidableEq

inductive GrpcStatusSource where
  | trailers | trailersOnly | trailerFrame | missing
deriving DecidableEq

inductive ClosedBy where
  | peer | client | abnormal | timeout | notClosed
deriving DecidableEq

inductive Direction where
  | sent | received
deriving DecidableEq

inductive Severity where
  | info | warning | error
deriving DecidableEq

/-- The order of the declaration. -/
def Severity.rank : Severity → Nat
  | .info => 0
  | .warning => 1
  | .error => 2

inductive TunnelKind where
  | hbone | connectUdp
deriving DecidableEq

inductive LoadUnitKind where
  | httpRequest | grpcCall | grpcStream | grpcClientStream | grpcBidiStream | sseStream | websocketSession
  | tcpExchange | udpExchange | dtlsExchange
deriving DecidableEq

inductive AttemptReason where
  | initial
  | redirect (status : Nat)
  | retry (after : FailureKind)
  | protocolFallback (source : String)
  | authChallenge (scheme : String)
  | tooEarlyRetry
  | reusedConnectionClosed (after : FailureKind)
deriving DecidableEq

/-- `ProtocolStatus`; of a MASQUE tunnel only the answer to its CONNECT is read. -/
inductive ProtocolStatus where
  | none
  | http (status : Nat)
  | grpc (httpStatus : Option Nat) (grpcStatus : Option Int) (source : GrpcStatusSource)
  | webSocket (handshakeStatus closeCode : Option Nat) (closedBy : ClosedBy)
  | sse (httpStatus events : Nat) (closedBy : ClosedBy)
  | tcp (bytesSent bytesReceived : Nat) (closedBy : ClosedBy)
  | udp (datagramsSent datagramsReceived : Nat) (masqueConnectStatus : Option (Option Nat))
deriving DecidableEq

structure PhaseTiming where
  phase : Phase
  status : PhaseStatus
  startUs : Option Nat
  endUs : Option Nat
deriving DecidableEq

def PhaseTiming.durationUs (p : PhaseTiming) : Option Nat :=
  match p.startUs, p.endUs with
  | some s, some e => if e ≥ s then some (e - s) else none
  | _, _ => none

structure TransportFailure where
  kind : FailureKind
  message : String
  deadlineMs : Option Nat
deriving DecidableEq

structure ByteCounts where
  requestHeadersLogical : Nat
  requestBody : Nat
  responseHeadersLogical : Option Nat
  responseBodyWire : Option Nat
deriving DecidableEq

/-- `tunnelConnectStatus` is `None` without a tunnel, else the status its CONNECT was answered with. -/
structure ConnectionObservation where
  reused : Bool
  protocol : Option String
  tunnelConnectStatus : Option (Option Nat)
deriving DecidableEq

structure AttemptObservation where
  reason : AttemptReason
  connection : Option ConnectionObservation
  phases : List PhaseTiming
  bytes : ByteCounts
  failure : Option TransportFailure
  durationUs : Nat
deriving DecidableEq

/-- The last timing of a phase. -/
def AttemptObservation.phase (a : AttemptObservation) (p : Phase) : Option PhaseTiming :=
  a.phases.reverse.find? fun t => t.phase = p

def exchangeDurationUs (attempts : List AttemptObservation) : Option Nat :=
  if attempts.isEmpty then none else some (attempts.map AttemptObservation.durationUs).sum

structure StreamMessage where
  direction : Direction
  offsetUs : Nat
  kind : String
deriving DecidableEq

structure StreamTranscript where
  messages : List StreamMessage
  droppedMessages : Nat
  sentCount : Nat
  receivedCount : Nat
deriving DecidableEq

structure AssertionResult where
  label : String
  passed : Bool
  message : String
deriving DecidableEq

structure DiagnosticFinding where
  severity : Severity
  code : String
deriving DecidableEq

structure ExecutionOutcome where
  transport : TransportState
  application : ApplicationState
  assertions : AssertionState
  protocolStatus : ProtocolStatus
  summary : String
deriving DecidableEq

/-- `prepared.method` and `prepared.url` are the fields read of the prepared request, `responseStatus` that of the
response. -/
structure ExecutionRecord where
  method : String
  url : String
  attempts : List AttemptObservation
  responseStatus : Option Nat
  stream : Option StreamTranscript
  outcome : ExecutionOutcome
  assertionResults : List AssertionResult
  findings : List DiagnosticFinding
deriving DecidableEq

structure SessionFacts where
  repeatedDatagrams : Nat
  echoedDatagrams : Nat
  icmpPortUnreachable : Bool
deriving DecidableEq

structure ExecutionOutput where
  record : ExecutionRecord
  sessionFacts : Option SessionFacts
deriving DecidableEq

/-- What one plan step produces (`protocol::StepUnit`). -/
structure StepUnit where
  kind : LoadUnitKind
  tcpExpectFrames : Option Nat
  wsExpectMessages : Nat
  applicationFromBody : Bool
  tunnel : Option TunnelKind
deriving DecidableEq

/-- A parsed URL, as far as `origin` reads it. -/
structure ParsedUrl where
  scheme : String
  hostStr : Option String
  portOrKnownDefault : Option Nat
deriving DecidableEq

end Anvil.Load
