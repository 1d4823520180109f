import Anvil.Domain.Secret

/-!
# Session transcripts (`anvil-transport/src/session.rs`, `Transcript`)

A transcript keeps the first and the most recent of its entries and counts the application messages of the session.

* `Transcript`, `Transcript.push` : the history, and an entry pushed into it;
* `Op`, `Transcript.apply` : what a session records, with the instant and the redactor it is recorded under;
* `Held` : what the two parts of the history hold of the entries emitted so far; `held_push` : a push keeps it;
* `finish_exact` : what a finished transcript holds after any run.
-/

namespace Anvil.Session
open Anvil.Lib Anvil.Domain

abbrev Bytes := List UInt8

/-! ## Entries -/

inductive Direction
  | sent
  | received
deriving DecidableEq

structure StreamMessage where
  direction : Direction
  offsetUs : Nat
  kind : Text
  size : Nat
  preview : Text
  previewIsHex : Bool
  previewTruncated : Bool
  eventId : Option Text := none
  eventType : Option Text := none
deriving DecidableEq

structure StreamTranscript where
  messages : List StreamMessage
  droppedMessages : Nat
  sentCount : Nat
  receivedCount : Nat
  sentBytes : Nat
  receivedBytes : Nat
deriving DecidableEq

structure TranscriptLimits where
  maxMessages : Nat
  previewBytes : Nat

/-- `METADATA_PREVIEW_BYTES`. -/
def metadataPreviewBytes : Nat := 256

/-- What recording reads besides the transcript: the time since its start, and the redactor with the secrets it knows by
then. -/
structure Now where
  offsetUs : Nat
  redact : Option (Text → Text)

/-- The history and the counters; `events` are the entries emitted live. -/
structure Transcript where
  limits : TranscriptLimits
  head : List StreamMessage := []
  tail : List StreamMessage := []
  dropped : Nat := 0
  sentCount : Nat := 0
  receivedCount : Nat := 0
  sentBytes : Nat := 0
  receivedBytes : Nat := 0
  events : List StreamMessage := []
  /-- The last shared event id, with the buffer it is of, and how entries show it. -/
  sharedId : Option (Nat × Text) := none

/-- `char::is_control`. -/
def isControl (c : Char) : Bool := c.toNat < 0x20 || (0x7F ≤ c.toNat && c.toNat < 0xA0)

def printable (s : Text) : Bool := s.all fun c => !isControl c || c = '\n' || c = '\r' || c = '\t'

/-- `hex::encode`. -/
def hexEncode (payload : Bytes) : Text :=
  payload.flatMap fun b => [Nat.digitChar (b.toNat / 16), Nat.digitChar (b.toNat % 16)]

def redactedPrefix (now : Now) (s : Text) (limit : Nat) : Text :=
  match now.redact with
  | some r => redactThenCut r (takeBytes (limit + redactLookaheadBytes) s) (floorCharBoundary s limit)
  | none => takeBytes limit s

/-- The preview of a payload, whether it is hex, and whether it is cut. -/
def preview (limits : TranscriptLimits) (now : Now) (payload : Bytes) (forceHex : Bool) : Text × Bool × Bool :=
  let s := fromUtf8Lossy payload
  if !forceHex && isUtf8 payload && printable s then
    (redactedPrefix now s limits.previewBytes, false, floorCharBoundary s limits.previewBytes < utf8Len s)
  else
    let n := min payload.length (limits.previewBytes / 2)
    let shown := match now.redact with
      | some _ => redactedPrefix now (hexEncode (payload.take (n + redactLookaheadBytes / 2))) (2 * n)
      | none => hexEncode (payload.take n)
    (shown, true, n < payload.length)

/-- An event id or type as an entry keeps it. -/
def metadata (now : Now) (value : Text) : Text :=
  redactedPrefix now value metadataPreviewBytes ++
    if floorCharBoundary value metadataPreviewBytes < utf8Len value then ['…'] else []

def entry (limits : TranscriptLimits) (now : Now) (direction : Direction) (kind : Text) (payload : Bytes) (forceHex : Bool)
    (eventId eventType : Option Text) : StreamMessage :=
  let shown := preview limits now payload forceHex
  { direction, offsetUs := now.offsetUs, kind, size := payload.length, preview := shown.1, previewIsHex := shown.2.1,
    previewTruncated := shown.2.2, eventId := eventId.map (metadata now), eventType := eventType.map (metadata now) }

namespace Transcript

def new (limits : TranscriptLimits) : Transcript where
  limits := { maxMessages := max limits.maxMessages 2, previewBytes := max limits.previewBytes 16 }

def headCap (t : Transcript) : Nat := t.limits.maxMessages / 2

def tailCap (t : Transcript) : Nat := t.limits.maxMessages - t.headCap

def push (t : Transcript) (m : StreamMessage) : Transcript :=
  let t := { t with events := t.events ++ [m] }
  if t.head.length < t.headCap then { t with head := t.head ++ [m] }
  else if t.tailCap ≤ t.tail.length then { t with tail := t.tail.drop 1 ++ [m], dropped := t.dropped + 1 }
  else { t with tail := t.tail ++ [m] }

def count (t : Transcript) (direction : Direction) (size : Nat) : Transcript :=
  match direction with
  | .sent => { t with sentCount := t.sentCount + 1, sentBytes := t.sentBytes + size }
  | .received => { t with receivedCount := t.receivedCount + 1, receivedBytes := t.receivedBytes + size }

/-- How a shared event id is shown, and the transcript that remembers it. -/
def sharedMetadata (t : Transcript) (now : Now) (id : Nat × Text) : Text × Transcript :=
  match t.sharedId with
  | some (buffer, shown) =>
    if buffer = id.1 then (shown, t) else (metadata now id.2, { t with sharedId := some (id.1, metadata now id.2) })
  | none => (metadata now id.2, { t with sharedId := some (id.1, metadata now id.2) })

def resetSharedMetadata (t : Transcript) : Transcript := { t with sharedId := none }

def data (t : Transcript) (now : Now) (direction : Direction) (kind : Text) (payload : Bytes) : Transcript :=
  (t.count direction payload.length).push (entry t.limits now direction kind payload (kind = "binary".toList) none none)

def dataText (t : Transcript) (now : Now) (direction : Direction) (kind : Text) (wireSize : Nat) (text : Text) : Transcript :=
  (t.count direction wireSize).push
    { entry t.limits now direction kind (encodeUtf8 text) false none none with size := wireSize }

def event (t : Transcript) (now : Now) (direction : Direction) (kind : Text) (payload : Bytes)
    (eventId eventType : Option Text) : Transcript :=
  (t.count direction payload.length).push (entry t.limits now direction kind payload false eventId eventType)

def eventSharedId (t : Transcript) (now : Now) (direction : Direction) (kind : Text) (payload : Bytes)
    (eventId : Option (Nat × Text)) (eventType : Text) : Transcript :=
  let t := t.count direction payload.length
  let m := entry t.limits now direction kind payload false none (some eventType)
  match eventId with
  | some id => (t.sharedMetadata now id).2.push { m with eventId := some (t.sharedMetadata now id).1 }
  | none => t.push m

def control (t : Transcript) (now : Now) (direction : Direction) (kind : Text) (payload : Bytes) : Transcript :=
  t.push (entry t.limits now direction kind payload (kind = "ping".toList ∨ kind = "pong".toList) none none)

def note (t : Transcript) (now : Now) (kind text : Text) : Transcript := t.control now .sent kind (encodeUtf8 text)

def finish (t : Transcript) : StreamTranscript where
  messages := t.head ++ t.tail
  droppedMessages := t.dropped
  sentCount := t.sentCount
  receivedCount := t.receivedCount
  sentBytes := t.sentBytes
  receivedBytes := t.receivedBytes

end Transcript

/-! ## Runs -/

/-- What a session records. -/
inductive Op
  | data (direction : Direction) (kind : Text) (payload : Bytes)
  | dataText (direction : Direction) (kind : Text) (wireSize : Nat) (text : Text)
  | event (direction : Direction) (kind : Text) (payload : Bytes) (eventId eventType : Option Text)
  | eventSharedId (direction : Direction) (kind : Text) (payload : Bytes) (eventId : Option (Nat × Text)) (eventType : Text)
  | control (direction : Direction) (kind : Text) (payload : Bytes)
  | resetSharedMetadata

def Transcript.apply (t : Transcript) (now : Now) : Op → Transcript
  | .data direction kind payload => t.data now direction kind payload
  | .dataText direction kind wireSize text => t.dataText now direction kind wireSize text
  | .event direction kind payload eventId eventType => t.event now direction kind payload eventId eventType
  | .eventSharedId direction kind payload eventId eventType => t.eventSharedId now direction kind payload eventId eventType
  | .control direction kind payload => t.control now direction kind payload
  | .resetSharedMetadata => t.resetSharedMetadata

/-- The transcript after a session's records. -/
def run (limits : TranscriptLimits) (ops : List (Now × Op)) : Transcript :=
  ops.foldl (fun t o => t.apply o.1 o.2) (.new limits)

/-- The direction, kind and size of the entry that an operation pushes. -/
def Op.entryOf : Op → Option (Direction × Text × Nat)
  | .data direction kind payload => some (direction, kind, payload.length)
  | .dataText direction kind wireSize _ => some (direction, kind, wireSize)
  | .event direction kind payload _ _ => some (direction, kind, payload.length)
  | .eventSharedId direction kind payload _ _ => some (direction, kind, payload.length)
  | .control direction kind payload => some (direction, kind, payload.length)
  | .resetSharedMetadata => none

/-- Whether an operation records an application message. -/
def Op.isApplication : Op → Bool
  | .control .. => false
  | .resetSharedMetadata => false
  | _ => true

/-- The sizes of the application messages of a direction. -/
def sizes (direction : Direction) (ops : List (Now × Op)) : List Nat :=
  ((ops.filter (·.2.isApplication)).filterMap (·.2.entryOf)).filterMap fun e => if e.1 = direction then some e.2.2 else none

def StreamMessage.described (m : StreamMessage) : Direction × Text × Nat := (m.direction, m.kind, m.size)

namespace Transcript
variable (t : Transcript) (now : Now)

/-! ## The history -/

/-- The head is full before the tail is used, and the tail before an entry falls out between them. -/
structure Held (gone : List StreamMessage) : Prop where
  events : t.events = t.head ++ gone ++ t.tail
  dropped : t.dropped = gone.length
  head_le : t.head.length ≤ t.headCap
  tail_le : t.tail.length ≤ t.tailCap
  head_full : t.tail ≠ [] → t.head.length = t.headCap
  tail_full : gone ≠ [] → t.tail.length = t.tailCap
  two_le : 2 ≤ t.limits.maxMessages

variable {t}

theorem held_new (limits : TranscriptLimits) : (new limits).Held [] where
  events := rfl
  dropped := rfl
  head_le := Nat.zero_le _
  tail_le := Nat.zero_le _
  head_full := fun h => absurd rfl h
  tail_full := fun h => absurd rfl h
  two_le := Nat.le_max_right _ _

theorem Held.tailCap_pos {gone : List StreamMessage} (h : t.Held gone) : 0 < t.tailCap := by
  have := h.two_le
  unfold tailCap headCap
  omega

theorem Held.tail_ne_nil {gone : List StreamMessage} (h : t.Held gone) (hgone : gone ≠ []) : t.tail ≠ [] :=
  List.ne_nil_of_length_pos (h.tail_full hgone ▸ h.tailCap_pos)

/-- Where a push puts an entry. -/
theorem push_cases (m : StreamMessage) :
    (t.head.length < t.headCap ∧ t.push m = { t with events := t.events ++ [m], head := t.head ++ [m] }) ∨
    (t.headCap ≤ t.head.length ∧ t.tailCap ≤ t.tail.length ∧
      t.push m = { t with events := t.events ++ [m], tail := t.tail.drop 1 ++ [m], dropped := t.dropped + 1 }) ∨
    (t.headCap ≤ t.head.length ∧ t.tail.length < t.tailCap ∧
      t.push m = { t with events := t.events ++ [m], tail := t.tail ++ [m] }) := by
  by_cases hhead : t.head.length < t.headCap
  · exact .inl ⟨hhead, if_pos hhead⟩
  · by_cases htail : t.tailCap ≤ t.tail.length
    · exact .inr (.inl ⟨not_lt.1 hhead, htail, (if_neg hhead).trans (if_pos htail)⟩)
    · exact .inr (.inr ⟨not_lt.1 hhead, not_le.1 htail, (if_neg hhead).trans (if_neg htail)⟩)

theorem held_push {gone : List StreamMessage} (h : t.Held gone) (m : StreamMessage) : ∃ gone', (t.push m).Held gone' := by
  obtain ⟨hhead, heq⟩ | ⟨hhead, htail, heq⟩ | ⟨hhead, htail, heq⟩ := push_cases (t := t) m
  · -- the head takes it: the tail is still empty, and nothing fell out
    have hempty : t.tail = [] := by
      by_contra hne
      exact absurd (h.head_full hne) hhead.ne
    have hgone : gone = [] := by
      by_contra hne
      exact h.tail_ne_nil hne hempty
    rw [heq]
    refine ⟨[], ⟨?_, ?_, ?_, h.tail_le, fun hne => absurd hempty hne, fun hne => absurd rfl hne, h.two_le⟩⟩
    · simp [h.events, hempty, hgone]
    · simpa [hgone] using h.dropped
    · simpa [headCap] using hhead
  · -- the tail is full: its first entry falls out
    have hlen := Nat.le_antisymm h.tail_le htail
    obtain ⟨a, tail, ha⟩ := List.exists_cons_of_length_pos (hlen ▸ h.tailCap_pos)
    have hfull : t.head.length = t.headCap := h.head_full (by simp [ha])
    have hkeep : (t.tail.drop 1 ++ [m]).length = t.tailCap := by
      rw [ha, List.length_cons] at hlen
      simpa [ha] using hlen
    rw [heq]
    refine ⟨gone ++ [a], ⟨?_, ?_, h.head_le, hkeep.le, fun _ => hfull, fun _ => hkeep, h.two_le⟩⟩
    · simp [h.events, ha]
    · simp [h.dropped]
  · have hgone : gone = [] := by
      by_contra hne
      exact absurd (h.tail_full hne) htail.ne
    have hfull : t.head.length = t.headCap := Nat.le_antisymm h.head_le hhead
    have hkeep : (t.tail ++ [m]).length ≤ t.tailCap := by
      simpa using htail
    rw [heq]
    refine ⟨[], ⟨?_, ?_, h.head_le, hkeep, fun _ => hfull, fun hne => absurd rfl hne, h.two_le⟩⟩
    · simp [h.events, hgone]
    · simpa [hgone] using h.dropped

theorem held_count {gone : List StreamMessage} (h : t.Held gone) (direction : Direction) (size : Nat) :
    (t.count direction size).Held gone := by
  cases direction <;> exact ⟨h.events, h.dropped, h.head_le, h.tail_le, h.head_full, h.tail_full, h.two_le⟩

theorem held_sharedMetadata {gone : List StreamMessage} (h : t.Held gone) (id : Nat × Text) :
    (t.sharedMetadata now id).2.Held gone := by
  unfold sharedMetadata
  split
  · split
    · exact h
    · exact ⟨h.events, h.dropped, h.head_le, h.tail_le, h.head_full, h.tail_full, h.two_le⟩
  · exact ⟨h.events, h.dropped, h.head_le, h.tail_le, h.head_full, h.tail_full, h.two_le⟩

theorem held_apply {gone : List StreamMessage} (h : t.Held gone) (op : Op) : ∃ gone', (t.apply now op).Held gone' := by
  cases op with
  | data direction kind payload => exact held_push (held_count h _ _) _
  | dataText direction kind wireSize text => exact held_push (held_count h _ _) _
  | event direction kind payload eventId eventType => exact held_push (held_count h _ _) _
  | eventSharedId direction kind payload eventId eventType =>
    cases eventId with
    | none => exact held_push (held_count h _ _) _
    | some id => exact held_push (held_sharedMetadata now (held_count h _ _) id) _
  | control direction kind payload => exact held_push h _
  | resetSharedMetadata =>
    exact ⟨gone, ⟨h.events, h.dropped, h.head_le, h.tail_le, h.head_full, h.tail_full, h.two_le⟩⟩

/-! ## Entries and counters -/

/-- The messages and bytes counted of a direction. -/
def counters (t : Transcript) : Direction → Nat × Nat
  | .sent => (t.sentCount, t.sentBytes)
  | .received => (t.receivedCount, t.receivedBytes)

theorem push_frame (m : StreamMessage) : (t.push m).events = t.events ++ [m] ∧ (t.push m).limits = t.limits ∧
    (t.push m).counters = t.counters := by
  obtain ⟨-, h⟩ | ⟨-, -, h⟩ | ⟨-, -, h⟩ := push_cases (t := t) m <;> rw [h] <;> exact ⟨rfl, rfl, rfl⟩

theorem count_frame (direction : Direction) (size : Nat) : (t.count direction size).events = t.events ∧
    (t.count direction size).limits = t.limits := by
  cases direction <;> exact ⟨rfl, rfl⟩

theorem counters_count (direction d : Direction) (size : Nat) : (t.count direction size).counters d =
    t.counters d + if direction = d then (1, size) else (0, 0) := by
  cases direction <;> cases d <;> rfl

theorem sharedMetadata_frame (id : Nat × Text) : (t.sharedMetadata now id).2.events = t.events ∧
    (t.sharedMetadata now id).2.limits = t.limits ∧ (t.sharedMetadata now id).2.counters = t.counters := by
  unfold sharedMetadata
  split
  · split <;> exact ⟨rfl, rfl, rfl⟩
  · exact ⟨rfl, rfl, rfl⟩

theorem apply_events (op : Op) : (t.apply now op).events.map StreamMessage.described =
    t.events.map StreamMessage.described ++ op.entryOf.toList := by
  have hpush : ∀ (u : Transcript) (m : StreamMessage), u.events = t.events → (u.push m).events.map StreamMessage.described =
      t.events.map StreamMessage.described ++ [m.described] := by
    intro u m hu
    rw [(push_frame _).1, hu, List.map_append, List.map_singleton]
  cases op with
  | data direction kind payload => exact hpush _ _ (count_frame _ _).1
  | dataText direction kind wireSize text => exact hpush _ _ (count_frame _ _).1
  | event direction kind payload eventId eventType => exact hpush _ _ (count_frame _ _).1
  | eventSharedId direction kind payload eventId eventType =>
    cases eventId with
    | none => exact hpush _ _ (count_frame _ _).1
    | some id => exact hpush _ _ ((sharedMetadata_frame now id).1.trans (count_frame _ _).1)
  | control direction kind payload => exact hpush _ _ rfl
  | resetSharedMetadata => exact (List.append_nil _).symm

theorem apply_limits (op : Op) : (t.apply now op).limits = t.limits := by
  cases op with
  | data direction kind payload => exact (push_frame _).2.1.trans (count_frame _ _).2
  | dataText direction kind wireSize text => exact (push_frame _).2.1.trans (count_frame _ _).2
  | event direction kind payload eventId eventType => exact (push_frame _).2.1.trans (count_frame _ _).2
  | eventSharedId direction kind payload eventId eventType =>
    cases eventId with
    | none => exact (push_frame _).2.1.trans (count_frame _ _).2
    | some id => exact (push_frame _).2.1.trans ((sharedMetadata_frame now id).2.1.trans (count_frame _ _).2)
  | control direction kind payload => exact (push_frame _).2.1
  | resetSharedMetadata => rfl

theorem apply_counters (op : Op) (d : Direction) : (t.apply now op).counters d =
    t.counters d + ((sizes d [(now, op)]).length, (sizes d [(now, op)]).sum) := by
  have hcount : ∀ direction size, (t.count direction size).counters d = t.counters d +
      ((if direction = d then [size] else []).length, (if direction = d then [size] else []).sum) := by
    intro direction size
    rw [counters_count]
    split <;> rfl
  have hsizes : ∀ op : Op, op.isApplication = true → ∀ direction kind size, op.entryOf = some (direction, kind, size) →
      sizes d [(now, op)] = if direction = d then [size] else [] := by
    intro op hop direction kind size hentry
    by_cases hd : direction = d <;> simp [sizes, hop, hentry, hd]
  cases op with
  | data direction kind payload =>
    rw [hsizes _ rfl _ _ _ rfl, ← hcount]
    exact congrFun (push_frame _).2.2 d
  | dataText direction kind wireSize text =>
    rw [hsizes _ rfl _ _ _ rfl, ← hcount]
    exact congrFun (push_frame _).2.2 d
  | event direction kind payload eventId eventType =>
    rw [hsizes _ rfl _ _ _ rfl, ← hcount]
    exact congrFun (push_frame _).2.2 d
  | eventSharedId direction kind payload eventId eventType =>
    rw [hsizes _ rfl _ _ _ rfl, ← hcount]
    cases eventId with
    | none => exact congrFun (push_frame _).2.2 d
    | some id => exact congrFun ((push_frame _).2.2.trans (sharedMetadata_frame now id).2.2) d
  | control direction kind payload => exact congrFun (push_frame _).2.2 d
  | resetSharedMetadata => rfl

end Transcript

theorem sizes_append (d : Direction) (ops more : List (Now × Op)) : sizes d (ops ++ more) = sizes d ops ++ sizes d more := by
  simp [sizes]

theorem run_append (limits : TranscriptLimits) (ops : List (Now × Op)) (o : Now × Op) :
    run limits (ops ++ [o]) = (run limits ops).apply o.1 o.2 := by
  simp [run]

/-- What every run of records keeps. -/
theorem run_spec (limits : TranscriptLimits) (ops : List (Now × Op)) : (∃ gone, (run limits ops).Held gone) ∧
    (run limits ops).limits.maxMessages = max limits.maxMessages 2 ∧
    (run limits ops).events.map StreamMessage.described = ops.filterMap (·.2.entryOf) ∧
    ∀ d, (run limits ops).counters d = ((sizes d ops).length, (sizes d ops).sum) := by
  induction ops using List.reverseRecOn with
  | nil =>
    refine ⟨⟨[], Transcript.held_new limits⟩, rfl, rfl, fun d => ?_⟩
    cases d <;> rfl
  | append_singleton ops o ih =>
    obtain ⟨⟨gone, hheld⟩, hlimits, hevents, hcounters⟩ := ih
    rw [run_append]
    refine ⟨Transcript.held_apply o.1 hheld o.2, ?_, ?_, fun d => ?_⟩
    · rw [Transcript.apply_limits, hlimits]
    · rw [Transcript.apply_events, hevents, List.filterMap_append]
      cases h : o.2.entryOf <;> simp [h]
    · rw [Transcript.apply_counters, hcounters, sizes_append, List.length_append, List.sum_append]
      rfl

/-- **A finished transcript** keeps the first half of its bound and the most recent half of every entry pushed, in order,
counts what lies between as dropped, and counts the application messages and bytes of each direction, kept or not. -/
theorem finish_exact (limits : TranscriptLimits) (ops : List (Now × Op)) :
    (run limits ops).events.map StreamMessage.described = ops.filterMap (·.2.entryOf) ∧
    (∃ first gone last, (run limits ops).events = first ++ gone ++ last ∧ (run limits ops).finish.messages = first ++ last ∧
      (run limits ops).finish.droppedMessages = gone.length ∧
      (first ++ last).length = min (run limits ops).events.length (max limits.maxMessages 2) ∧
      (gone ≠ [] → first.length = max limits.maxMessages 2 / 2)) ∧
    (run limits ops).finish.droppedMessages + (run limits ops).finish.messages.length = (run limits ops).events.length ∧
    (run limits ops).finish.sentCount = (sizes .sent ops).length ∧
    (run limits ops).finish.sentBytes = (sizes .sent ops).sum ∧
    (run limits ops).finish.receivedCount = (sizes .received ops).length ∧
    (run limits ops).finish.receivedBytes = (sizes .received ops).sum := by
  obtain ⟨⟨gone, h⟩, hlimits, hevents, hcounters⟩ := run_spec limits ops
  have hsent := hcounters .sent
  have hreceived := hcounters .received
  have hlen := congrArg List.length h.events
  have hcaps : (run limits ops).headCap + (run limits ops).tailCap = max limits.maxMessages 2 := by
    unfold Transcript.tailCap Transcript.headCap
    omega
  have hbound : ((run limits ops).head ++ (run limits ops).tail).length =
      min (run limits ops).events.length (max limits.maxMessages 2) := by
    have hhead := h.head_le
    have htail := h.tail_le
    rw [hlen]
    simp only [List.length_append]
    by_cases hgone : gone = []
    · simp only [hgone, List.length_nil]
      omega
    · have hfull := h.tail_full hgone
      have := h.head_full (h.tail_ne_nil hgone)
      omega
  refine ⟨hevents, ⟨_, gone, _, h.events, rfl, h.dropped, hbound, fun hgone => ?_⟩, ?_,
    congrArg Prod.fst hsent, congrArg Prod.snd hsent, congrArg Prod.fst hreceived, congrArg Prod.snd hreceived⟩
  · rw [h.head_full (h.tail_ne_nil hgone), Transcript.headCap, hlimits]
  · have hdropped : (run limits ops).finish.droppedMessages = gone.length := h.dropped
    have hmessages : (run limits ops).finish.messages = (run limits ops).head ++ (run limits ops).tail := rfl
    rw [hdropped, hmessages, hlen]
    simp only [List.length_append]
    omega

/-- A ping is an entry of the history and is not counted. -/
theorem control_not_counted : ¬∀ (limits : TranscriptLimits) (ops : List (Now × Op)),
    (run limits ops).finish.receivedCount = ((run limits ops).events.filter fun m => m.direction = .received).length := by
  intro h
  exact absurd (h ⟨2000, 2048⟩ [(⟨0, none⟩, .control .received "ping".toList [0x41])]) (by decide)

end Anvil.Session
