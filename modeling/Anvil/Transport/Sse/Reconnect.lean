import Anvil.Load.Record
import Anvil.Transport.Sse.Reference
import Mathlib.Data.List.DropRight

/-!
# Reconnecting an event stream (`anvil-transport/src/sse.rs`, `run`)

A session is the loop of `run`: each turn signs and opens an attempt with the parser's last event id, reads its body
into the parser and, after an abnormal end, resets the parser for the next attempt. What the network, the signer and
the user do in a turn is its `Attempt`. `sent` is the id of every attempt, and `connections` the streams that broke
off before it; neither is part of the program.

* `boundaryOf` : the id in effect at the last blank line of a connection;
* `lastEventId_eq_boundaryOf_iff` : exactly when a connection leaves the parser with it;
* `run_acknowledges` : every attempt of a run without the loss asks for what was not dispatched.
-/

namespace Anvil.Sse
open Anvil.Lib Anvil.Load

inductive HttpVersionPolicy where
  | auto | http1Only | http2Only | h2c | http3Only | http3WithFallback
deriving DecidableEq

/-- The plan as the loop reads it; `idempotent` is the method's, `proxied` says that there is a proxy. -/
structure SsePlan where
  https : Bool := true
  proxied : Bool := false
  idempotent : Bool := true
  version : HttpVersionPolicy := .auto
  maxResponseBytes : Nat
  maxEvents : Nat := 0
  lastEventId : Option Text := none
  reconnect : Bool := true
  maxReconnects : Nat

inductive DispatchState where
  | notDispatched | sent | mayHaveBeenSent | unknown
deriving DecidableEq

inductive BodyCompleteness where
  | complete | incomplete | canceled | stoppedAtLocalLimit | noBody
deriving DecidableEq

inductive End where
  | peer | client | idle
  | failed (kind : FailureKind)
  | canceled | deadline
deriving DecidableEq

inductive Backoff where
  | elapsed | closed | canceled | deadline
deriving DecidableEq

inductive AttemptReason where
  | initial | protocolFallback
  | retry (after : FailureKind)
deriving DecidableEq

/-- What opening an attempt gives. -/
inductive Opening where
  | failed (kind : FailureKind) (dispatch : DispatchState)
  | opened (status : Nat)
deriving DecidableEq

/-- One turn of the loop, as the world answers it: the chunks of the body, and what ends it if the parser does not. -/
structure Attempt where
  signed : Bool := true
  opening : Opening
  chunks : List Slice := []
  ending : End
  backoff : Backoff := .elapsed

/-- The bytes of the body. -/
def Attempt.stream (a : Attempt) : List UInt8 := (a.chunks.map Slice.bytes).flatten

def h3Unsupported (plan : SsePlan) : Bool := !plan.https || plan.proxied

def versionUnsupported (plan : SsePlan) : Bool := plan.version = .http3Only && h3Unsupported plan

/-- An attempt: why it was made, the id it was opened with, and the connections that broke off before it. -/
structure Sent where
  reason : AttemptReason
  lastId : Option Text
  connections : List (List UInt8)
deriving DecidableEq

structure Session where
  parser : SseParser
  totalEvents : Nat := 0
  useH3 : Bool
  reconnects : Nat := 0
  reason : AttemptReason := .initial
  done : Bool := false
  sent : List Sent := []
  connections : List (List UInt8) := []

def Session.init (plan : SsePlan) : Session where
  parser := { SseParser.new (min plan.maxResponseBytes (2 ^ 20)) with lastEventId := plan.lastEventId }
  useH3 := plan.version = .http3Only || plan.version = .http3WithFallback

/-! ## The body -/

/-- The loop that records a chunk's events: the total, and whether it is all that is wanted. -/
def drain (maxEvents : Nat) : Nat → List SseEvent → Nat × Bool
  | total, [] => (total, false)
  | total, _ :: more =>
    if 0 < maxEvents ∧ maxEvents ≤ total + 1 then (total + 1, true) else drain maxEvents (total + 1) more

def wanted (maxEvents total : Nat) : Nat := if 0 < maxEvents then maxEvents - total else usizeMax

/-- The loop over the body of an event stream. -/
def readStream (maxEvents : Nat) (ending : End) : SseParser → Nat → List Slice → End × SseParser × Nat
  | p, total, [] => (ending, p, total)
  | p, total, d :: more =>
    let fed := Feed.feedLimited (wanted maxEvents total) ⟨p, []⟩ d.bytes
    match fed with
    | .ok s =>
      let (total, stop) := drain maxEvents total s.out
      if stop then (.client, s.parser, total) else readStream maxEvents ending s.parser total more
    | .error e =>
      let (total, stop) := drain maxEvents total e.feed.out
      (if stop then .client else .failed .responseTooLargeLocal, e.feed.parser, total)

/-- How complete the body is, and the failure. -/
def End.outcome : End → BodyCompleteness × Option FailureKind
  | .peer => (.complete, none)
  | .client => (.canceled, none)
  | .idle => (.canceled, none)
  | .canceled => (.canceled, some .canceled)
  | .deadline => (.incomplete, some .totalTimeout)
  | .failed kind => (if kind = .responseTooLargeLocal then .stoppedAtLocalLimit else .incomplete, some kind)

/-- The part of `reconnectable` that the end decides. -/
def End.abnormal (e : End) : Bool :=
  e.outcome.1 = .incomplete && e.outcome.2.any fun kind => kind ≠ .totalTimeout && kind ≠ .canceled

def isStream (status : Nat) : Bool := 200 ≤ status && status < 300 && status ≠ 204

/-! ## The loop -/

namespace Session
variable (headerOk : Text → Bool) (plan : SsePlan)

def stop (s : Session) : Session := { s with done := true }

/-- The rest of a turn once the response head is there. The body of a response that is no stream is not parsed, and
its end is not reconnected. -/
def body (s : Session) (a : Attempt) (status : Nat) : Session :=
  if isStream status then
    let (e, p, total) := readStream plan.maxEvents a.ending s.parser s.totalEvents a.chunks
    let s := { s with parser := p, totalEvents := total }
    if !(plan.reconnect && e.abnormal) || plan.maxReconnects ≤ s.reconnects then s.stop
    else if p.lastEventId.any (!headerOk ·) then s.stop
    else if a.backoff ≠ .elapsed then s.stop
    else
      { s with
        reconnects := s.reconnects + 1
        reason := .retry (e.outcome.2.getD .bodyIncomplete)
        parser := p.resetStream
        connections := s.connections ++ [a.stream] }
  else s.stop

/-- An attempt is opened with the last event id. -/
def begin (s : Session) : Session := { s with sent := s.sent ++ [⟨s.reason, s.parser.lastEventId, s.connections⟩] }

/-- An attempt without a response: the automatic policy falls back from HTTP/3 to TCP. -/
def openFailed (s : Session) (kind : FailureKind) (dispatch : DispatchState) : Session :=
  if s.useH3 ∧ plan.version = .http3WithFallback ∧ kind ≠ .canceled ∧
      (dispatch = .notDispatched ∨ plan.idempotent) then
    { s with useH3 := false, reason := .protocolFallback }
  else s.stop

/-- One turn of the loop. -/
def turn (s : Session) (a : Attempt) : Session :=
  let beforeTraffic := s.useH3 && h3Unsupported plan
  let signed := beforeTraffic || a.signed
  let opening := if beforeTraffic then .failed .unsupportedCombination .notDispatched else a.opening
  -- a fallback, a reconnection or a first send that cannot be signed is not made
  if !signed || versionUnsupported plan then s.stop
  else
    match opening with
    | .failed kind dispatch => s.begin.openFailed plan kind dispatch
    | .opened status => s.begin.body headerOk plan a status

end Session

/-! ## The id at the last event boundary -/

/-- The id that a line sets. -/
def idOf (raw : List UInt8) : Option Text :=
  let line := fromUtf8Lossy raw
  if fieldName line = "id".toList ∧ '\x00' ∉ fieldValue line then some (fieldValue line) else none

/-- The lines up to the last blank one, and those after it. -/
def settledLines (stream : List UInt8) : List (List UInt8) :=
  (splitLines (stripBom stream)).ended.rdropWhile (· ≠ [])

def pendingLines (stream : List UInt8) : List (List UInt8) :=
  (splitLines (stripBom stream)).ended.rtakeWhile (· ≠ [])

def lastIdOf (lines : List (List UInt8)) : Option Text := (lines.filterMap idOf).getLast?

/-- The id in effect at the last blank line of a connection that began with `id`. -/
def boundaryOf (id : Option Text) (stream : List UInt8) : Option Text := (lastIdOf (settledLines stream)).or id

/-- What the next attempt has to ask for after connections that broke off. -/
def expectedId (plan : SsePlan) (connections : List (List UInt8)) : Option Text :=
  connections.foldl boundaryOf plan.lastEventId

/-- Every attempt of the session asks for what follows the last event boundary. -/
def Session.Acknowledges (plan : SsePlan) (s : Session) : Prop :=
  ∀ x ∈ s.sent, x.lastId = expectedId plan x.connections

/-- No id line stands after the last blank line of the connection, or the last one repeats the id in effect. -/
def Settled (id : Option Text) (stream : List UInt8) : Prop :=
  ∀ v, lastIdOf (pendingLines stream) = some v → boundaryOf id stream = some v

theorem Reading.line_lastEventId (r : Reading) (raw : List UInt8) :
    (r.line raw).lastEventId = (idOf raw).or r.lastEventId := by
  unfold Reading.line idOf
  simp only
  by_cases hnil : fromUtf8Lossy raw = []
  · rw [if_pos hnil, hnil, if_neg (by decide)]
    rfl
  rw [if_neg hnil]
  generalize fieldName (fromUtf8Lossy raw) = name
  generalize fieldValue (fromUtf8Lossy raw) = value
  unfold Reading.field
  by_cases hi : name = "id".toList
  · subst hi
    rw [if_neg (by decide), if_neg (by decide), if_pos rfl]
    by_cases hz : '\x00' ∈ value
    · rw [if_pos hz, if_neg fun h => h.2 hz]
      rfl
    · rw [if_neg hz, if_pos ⟨rfl, hz⟩]
      rfl
  · have hnone : ¬(name = "id".toList ∧ '\x00' ∉ value) := fun h => hi h.1
    simp only [if_neg hi, if_neg hnone]
    split_ifs <;> rfl

theorem Reading.lines_append (r : Reading) (a b : List (List UInt8)) : r.lines (a ++ b) = (r.lines a).lines b :=
  List.foldl_append

theorem Reading.lines_lastEventId (r : Reading) (ended : List (List UInt8)) :
    (r.lines ended).lastEventId = (lastIdOf ended).or r.lastEventId :=
  foldl_getLast? Reading.line Reading.lastEventId idOf Reading.line_lastEventId r ended

/-- **A connection leaves the id of its last event boundary exactly when it is settled.** -/
theorem lastEventId_eq_boundaryOf_iff (id : Option Text) (retry : Option Nat) (stream : List UInt8) :
    ((startReading id retry).lines (splitLines (stripBom stream)).ended).lastEventId = boundaryOf id stream ↔
      Settled id stream := by
  have hsplit : settledLines stream ++ pendingLines stream = (splitLines (stripBom stream)).ended :=
    List.rdropWhile_append_rtakeWhile
  have hid : ((startReading id retry).lines (splitLines (stripBom stream)).ended).lastEventId =
      (lastIdOf (pendingLines stream)).or (boundaryOf id stream) := by
    rw [← hsplit, Reading.lines_append, Reading.lines_lastEventId, Reading.lines_lastEventId]
    rfl
  rw [hid]
  unfold Settled
  cases h : lastIdOf (pendingLines stream) with
  | none => exact ⟨fun _ => nofun, fun _ => rfl⟩
  | some v =>
    rw [Option.some_or]
    exact ⟨fun hv w hw => by rw [← hv, hw], fun hv => (hv v rfl).symm⟩

/-! ## A connection that breaks off -/

theorem drain_of_not_stop {maxEvents total total' : Nat} {events : List SseEvent}
    (h : drain maxEvents total events = (total', false)) : total' = total + events.length ∧
    (0 < maxEvents → total < maxEvents → total' < maxEvents) := by
  induction events generalizing total with
  | nil =>
    cases h
    exact ⟨rfl, fun _ ht => ht⟩
  | cons e more ih =>
    unfold drain at h
    by_cases hstop : 0 < maxEvents ∧ maxEvents ≤ total + 1
    · rw [if_pos hstop] at h
      cases h
    · rw [if_neg hstop] at h
      obtain ⟨rfl, hlt⟩ := ih h
      rw [List.length_cons]
      exact ⟨by omega, fun hm _ => hlt hm (by omega)⟩

theorem End.abnormal_failed {e : End} (h : e.abnormal = true) :
    ∃ kind, e = .failed kind ∧ kind ≠ .responseTooLargeLocal := by
  cases e with
  | failed kind =>
    refine ⟨kind, rfl, ?_⟩
    rintro rfl
    exact absurd h (by decide)
  | peer | client | idle | canceled | deadline => exact absurd h (by decide)

/-- The events still wanted were not all there, so the chunk was parsed to its end. -/
theorem length_lt_wanted {maxEvents total : Nat} {p : SseParser} {d : Slice} {s : Feed}
    (hfed : Feed.feedLimited (wanted maxEvents total) ⟨p, []⟩ d.bytes = .ok s)
    (hroom : 0 < maxEvents → total + s.out.length < maxEvents) : s.out.length < wanted maxEvents total := by
  by_cases hm : 0 < maxEvents
  · have := hroom hm
    unfold wanted
    rw [if_pos hm]
    omega
  · have hlen : s.out.length ≤ 0 + (bom.length + d.bytes.length) := (Feed.feedLimited_length hfed).2
    have hd := d.length_le
    have hbom : bom.length = 3 := rfl
    unfold wanted
    rw [if_neg hm]
    unfold usizeMax
    unfold isizeMax at hd
    omega

/-- A stream that ended abnormally was parsed whole, as one chunk. -/
theorem readStream_feed {maxEvents : Nat} {ending e : End} {chunks : List Slice} {p p' : SseParser} {total total' : Nat}
    (h : readStream maxEvents ending p total chunks = (e, p', total')) (he : e.abnormal = true)
    (hroom : 0 < maxEvents → total < maxEvents) {s : Feed} {a : List UInt8} {before : List SseEvent}
    (hbase : ∀ bound, before.length < bound → s.feedLimited bound a = .ok ⟨p, before⟩) :
    e = ending ∧ (0 < maxEvents → total' < maxEvents) ∧ ∃ events : List SseEvent, ∀ bound, events.length < bound →
      s.feedLimited bound (a ++ (chunks.map Slice.bytes).flatten) = .ok ⟨p', events⟩ := by
  induction chunks generalizing p total a before with
  | nil =>
    cases h
    refine ⟨rfl, hroom, before, fun bound hb => ?_⟩
    rw [List.map_nil, List.flatten_nil, List.append_nil]
    exact hbase bound hb
  | cons d more ih =>
    unfold readStream at h
    cases hfed : Feed.feedLimited (wanted maxEvents total) ⟨p, []⟩ d.bytes with
    | error err =>
      simp only [hfed, Prod.mk.injEq] at h
      obtain ⟨kind, rfl, hkind⟩ := End.abnormal_failed he
      split_ifs at h
      · exact absurd h.1 nofun
      · exact absurd (End.failed.inj h.1).symm hkind
    | ok s₁ =>
      obtain ⟨n, stop, hdrain⟩ : ∃ n stop, drain maxEvents total s₁.out = (n, stop) := ⟨_, _, rfl⟩
      simp only [hfed, hdrain] at h
      cases stop with
      | true =>
        rw [if_pos rfl] at h
        cases h
        exact absurd he (by decide)
      | false =>
        rw [if_neg Bool.false_ne_true] at h
        obtain ⟨rfl, hlt⟩ := drain_of_not_stop hdrain
        have hout := length_lt_wanted hfed fun hm => hlt hm (hroom hm)
        have hnext : ∀ bound, (before ++ s₁.out).length < bound →
            s.feedLimited bound (a ++ d.bytes) = .ok ⟨s₁.parser, before ++ s₁.out⟩ := fun bound hb => by
          rw [List.length_append] at hb
          rw [Feed.feedLimited_append, hbase bound (by omega)]
          have hunder := Feed.feedLimited_under hfed hout hb
          rw [Feed.under, List.append_nil] at hunder
          exact hunder
        rw [List.map_cons, List.flatten_cons, ← List.append_assoc]
        exact ih h (fun hm => hlt hm (hroom hm)) hnext

/-- **A connection that broke off leaves the parser with its reading's id, ready for the next one.** -/
theorem readStream_id {maxEvents maxLine : Nat} {ending e : End} {chunks : List Slice} {id : Option Text}
    {retry : Option Nat} {p : SseParser} {total total' : Nat} (hmax : 1024 ≤ maxLine)
    (hretry : retry.filter (· ≤ u64Max) = retry) (hroom : 0 < maxEvents → total < maxEvents)
    (h : readStream maxEvents ending (startFeed maxLine id retry).parser total chunks = (e, p, total'))
    (he : e.abnormal = true) :
    e = ending ∧ (0 < maxEvents → total' < maxEvents) ∧
    p.lastEventId = ((startReading id retry).lines
      (splitLines (stripBom (chunks.map Slice.bytes).flatten)).ended).lastEventId ∧
    p.retryMs.filter (· ≤ u64Max) = p.retryMs ∧ p.maxLine = maxLine := by
  have hbase : ∀ bound, ([] : List SseEvent).length < bound → (startFeed maxLine id retry).feedLimited bound [] =
      .ok ⟨(startFeed maxLine id retry).parser, []⟩ := fun bound hb =>
    Feed.feedLimited_of_unchecked (Nat.not_le.2 hb) Bool.false_ne_true rfl
  obtain ⟨hend, htotal, events, hall⟩ := readStream_feed h he hroom hbase
  rw [List.nil_append] at hall
  generalize (chunks.map Slice.bytes).flatten = stream at hall ⊢
  have hfed := hall (events.length + stream.length + 1) (by omega)
  have hlimit : stream.length < events.length + stream.length + 1 := by omega
  by_cases hp : Permitted maxLine (startReading id retry) (splitLines (stripBom stream))
  · obtain ⟨s, hs, -, hid, hms, hml⟩ := feedLimited_start_ok maxLine id hretry hlimit hp
    obtain rfl : s = ⟨p, events⟩ := Except.ok.inj (hs.symm.trans hfed)
    refine ⟨hend, htotal, hid, ?_, hml⟩
    show Option.filter _ (Feed.parser ⟨p, events⟩).retryMs = (Feed.parser ⟨p, events⟩).retryMs
    rw [hms, Option.filter_filter]
    simp only [Bool.and_self]
  · obtain ⟨err, hs, -⟩ := feedLimited_start_refused maxLine id hretry hlimit hmax hp
    exact absurd (hs.symm.trans hfed) nofun

/-! ## Every run -/

/-- The response is an event stream that an error of the connection ends. -/
def Attempt.BreaksOff (a : Attempt) : Prop :=
  (∃ status, a.opening = .opened status ∧ isStream status = true) ∧ ∃ kind, a.ending = .failed kind

/-- A reconnection may follow: they are enabled, one is left and the delay elapses. -/
def Session.Retries (plan : SsePlan) (s : Session) (a : Attempt) : Prop :=
  plan.reconnect = true ∧ s.reconnects < plan.maxReconnects ∧ a.backoff = .elapsed

/-- A turn of a session in which no connection breaks off between an id line and its blank line, to be opened again. -/
def SettledTurn (headerOk : Text → Bool) (plan : SsePlan) (s s' : Session) : Prop :=
  s.done = false ∧ ∃ a : Attempt, (a.BreaksOff → s.Retries plan a → Settled s.parser.lastEventId a.stream) ∧
    s' = s.turn headerOk plan a

/-- The loop's head: a parser at the start of a connection, with the id that is to be asked for. -/
structure Session.Inv (plan : SsePlan) (s : Session) : Prop where
  acknowledges : s.Acknowledges plan
  ready : s.done = false → ∃ maxLine retry, s.parser = (startFeed maxLine (expectedId plan s.connections) retry).parser ∧
    1024 ≤ maxLine ∧ retry.filter (· ≤ u64Max) = retry ∧ (0 < plan.maxEvents → s.totalEvents < plan.maxEvents)

section Runs
variable {headerOk : Text → Bool} {plan : SsePlan}

theorem Session.Inv.stop {s : Session} (h : s.Acknowledges plan) : s.stop.Inv plan :=
  ⟨h, fun hd => absurd hd nofun⟩

theorem Session.Inv.begin {s : Session} (h : s.Inv plan) (hd : s.done = false) : s.begin.Inv plan := by
  refine ⟨fun x hx => ?_, h.ready⟩
  rcases List.mem_append.1 hx with hx | hx
  · exact h.acknowledges x hx
  · rw [List.mem_singleton.1 hx]
    obtain ⟨maxLine, retry, hp, -⟩ := h.ready hd
    show s.parser.lastEventId = _
    rw [hp]
    rfl

theorem Session.Inv.body {s : Session} (h : s.Inv plan) (hd : s.done = false) {a : Attempt} {status : Nat}
    (ha : a.opening = .opened status) (hset : a.BreaksOff → s.Retries plan a → Settled s.parser.lastEventId a.stream) :
    (s.body headerOk plan a status).Inv plan := by
  obtain ⟨maxLine, retry, hp, hmax, hretry, hroom⟩ := h.ready hd
  unfold Session.body
  by_cases hstream : isStream status = true
  · rw [if_pos hstream]
    obtain ⟨e, p, total, hread⟩ : ∃ e p total,
        readStream plan.maxEvents a.ending s.parser s.totalEvents a.chunks = (e, p, total) := ⟨_, _, _, rfl⟩
    simp only [hread]
    by_cases hrec : (!(plan.reconnect && e.abnormal) || decide (plan.maxReconnects ≤ s.reconnects)) = true
    · rw [if_pos hrec]
      exact .stop h.acknowledges
    rw [if_neg hrec]
    by_cases hid : p.lastEventId.any (!headerOk ·) = true
    · rw [if_pos hid]
      exact .stop h.acknowledges
    rw [if_neg hid]
    by_cases hb : a.backoff ≠ .elapsed
    · rw [if_pos hb]
      exact .stop h.acknowledges
    rw [if_neg hb]
    simp only [Bool.or_eq_true, Bool.not_eq_true', Bool.and_eq_false_iff, not_or, Bool.not_eq_false, decide_eq_true_iff,
      not_le] at hrec
    obtain ⟨⟨hreconnect, he⟩, hleft⟩ := hrec
    rw [hp] at hread
    obtain ⟨rfl, htotal, hlast, hms, hml⟩ := readStream_id hmax hretry hroom hread he
    obtain ⟨kind, hkind, -⟩ := End.abnormal_failed he
    have hset := hset ⟨⟨status, ha, hstream⟩, kind, hkind⟩ ⟨hreconnect, hleft, not_not.1 hb⟩
    rw [hp] at hset
    have hbound : p.lastEventId = boundaryOf (expectedId plan s.connections) a.stream :=
      hlast.trans ((lastEventId_eq_boundaryOf_iff _ retry a.stream).2 hset)
    refine ⟨h.acknowledges, fun _ => ⟨maxLine, p.retryMs, ?_, hmax, hms, htotal⟩⟩
    have hexp : expectedId plan (s.connections ++ [a.stream]) = p.lastEventId := by
      rw [hbound]
      exact List.foldl_append
    show p.resetStream = (startFeed maxLine (expectedId plan (s.connections ++ [a.stream])) p.retryMs).parser
    rw [hexp, ← hml]
    rfl
  · rw [if_neg hstream]
    exact .stop h.acknowledges

theorem Session.Inv.openFailed {s : Session} (h : s.Inv plan) (kind : FailureKind) (dispatch : DispatchState) :
    (s.openFailed plan kind dispatch).Inv plan := by
  unfold Session.openFailed
  split_ifs
  · exact ⟨h.acknowledges, h.ready⟩
  · exact .stop h.acknowledges

theorem SettledTurn.inv {s s' : Session} (ht : SettledTurn headerOk plan s s') (h : s.Inv plan) : s'.Inv plan := by
  obtain ⟨hd, a, hset, rfl⟩ := ht
  have hbegin := h.begin hd
  unfold Session.turn
  simp only
  split_ifs
  · exact .stop h.acknowledges
  · exact hbegin.openFailed _ _
  · cases ha : a.opening with
    | failed kind dispatch => exact hbegin.openFailed kind dispatch
    | opened status => exact hbegin.body hd ha hset

theorem Session.Inv.init (plan : SsePlan) : (Session.init plan).Inv plan :=
  ⟨fun _ hx => absurd hx List.not_mem_nil, fun _ => ⟨_, none, rfl, Nat.le_max_right _ _, rfl, fun hm => hm⟩⟩

/-- **In every run without such a break, each attempt asks for what follows the last event boundary.** -/
theorem run_acknowledges {s : Session} (hr : Reaches (SettledTurn headerOk plan) (Session.init plan) s) :
    s.Acknowledges plan :=
  (Reaches.inv (Session.Inv plan) (fun _ _ ht h => ht.inv h) hr (.init plan)).acknowledges

end Runs

/-! ## The loss -/

def reconnectingPlan : SsePlan where
  maxResponseBytes := 2 ^ 20
  maxReconnects := 3

/-- `id: 1`, `data: a` and a blank line, then `id: 2`, with a line end, and `data: b` without one. -/
def brokenStream : Slice where
  bytes := [0x69, 0x64, 0x3A, 0x31, 0x0A, 0x64, 0x61, 0x74, 0x61, 0x3A, 0x61, 0x0A, 0x0A] ++
    [0x69, 0x64, 0x3A, 0x32, 0x0A, 0x64, 0x61, 0x74, 0x61, 0x3A, 0x62]
  length_le := by decide

/-- The same stream, broken off right after the blank line. -/
def settledStream : Slice where
  bytes := [0x69, 0x64, 0x3A, 0x31, 0x0A, 0x64, 0x61, 0x74, 0x61, 0x3A, 0x61, 0x0A, 0x0A]
  length_le := by decide

def brokenAttempt (d : Slice) : Attempt where
  opening := .opened 200
  chunks := [d]
  ending := .failed .bodyReset

/-- A session with two attempts, the first of which receives `d`. -/
def twoAttempts (d : Slice) : Session :=
  ((Session.init reconnectingPlan).turn (fun _ => true) reconnectingPlan (brokenAttempt d)).turn (fun _ => true)
    reconnectingPlan (brokenAttempt ⟨[], by decide⟩)

/-- A reconnection after a whole event. -/
theorem run_acknowledges_settled : ∃ s, Reaches (SettledTurn (fun _ => true) reconnectingPlan)
    (Session.init reconnectingPlan) s ∧ s.sent.map Sent.lastId = [none, some ['1']] ∧
    s.Acknowledges reconnectingPlan := by
  have hpending : ∀ d ∈ [settledStream, ⟨[], by decide⟩], lastIdOf (pendingLines (brokenAttempt d).stream) = none := by
    decide
  have hsettled : ∀ d ∈ [settledStream, ⟨[], by decide⟩], ∀ id, Settled id (brokenAttempt d).stream :=
    fun d hd id v hv => absurd (hv.symm.trans (hpending d hd)) nofun
  have hr : Reaches (SettledTurn (fun _ => true) reconnectingPlan) (Session.init reconnectingPlan)
      (twoAttempts settledStream) :=
    .tail (.tail .refl ⟨rfl, _, fun _ _ => hsettled settledStream (by simp) _, rfl⟩)
      ⟨by decide, _, fun _ _ => hsettled _ (by simp) _, rfl⟩
  exact ⟨_, hr, by decide, run_acknowledges hr⟩

/-- **A connection that breaks off inside its second event acknowledges that event.** -/
theorem brokenStream_loses : ∃ s, Reaches (fun s s' => s.done = false ∧ ∃ a : Attempt,
      s' = s.turn (fun _ => true) reconnectingPlan a) (Session.init reconnectingPlan) s ∧
    s.sent.map Sent.lastId = [none, some ['2']] ∧
    s.sent.map (fun x => expectedId reconnectingPlan x.connections) = [none, some ['1']] ∧
    ¬s.Acknowledges reconnectingPlan := by
  have hids : (twoAttempts brokenStream).sent.map Sent.lastId = [none, some ['2']] := by decide
  have hexpected : (twoAttempts brokenStream).sent.map (fun x => expectedId reconnectingPlan x.connections) =
      [none, some ['1']] := by decide
  refine ⟨twoAttempts brokenStream, .tail (.tail .refl ⟨rfl, _, rfl⟩) ⟨by decide, _, rfl⟩, hids, hexpected,
    fun h => ?_⟩
  have hall := List.map_congr_left h
  rw [hids, hexpected] at hall
  exact absurd hall (by decide)

end Anvil.Sse
