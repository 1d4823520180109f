import Anvil.Lib.Bytes
import Anvil.Lib.Run
import Anvil.Lib.Utf8

/-!
# The event-stream parser (`anvil-transport/src/sse.rs`, `SseParser`)

The parser reads bytes and carries five things from chunk to chunk: the matched part of a BOM, a CR whose LF may
follow, the line, the event's buffers, and the id and retry that outlive events. A refused stream keeps what it
dispatched before the refusal, so the error carries the state.

* `feedLimited_append` : two chunks are one chunk;
* `feedChunks_eq_feed` : so is any number of chunks, with the same refusal.
-/

namespace Anvil.Sse
open Anvil.Lib

def lf : UInt8 := 0x0A

def cr : UInt8 := 0x0D

/-- `MAX_EVENT_METADATA_BYTES`. -/
def maxEventMetadataBytes : Nat := 4 * 1024

/-- `BOM`. -/
def bom : List UInt8 := [0xEF, 0xBB, 0xBF]

/-- A byte slice; no allocation is larger. -/
structure Slice where
  bytes : List UInt8
  length_le : bytes.length ≤ isizeMax

structure SseEvent where
  id : Option Text
  eventType : Text
  data : Text
deriving DecidableEq

structure SseParser where
  line : List UInt8 := []
  data : Text := []
  hasData : Bool := false
  eventType : Text := []
  lastEventId : Option Text := none
  retryMs : Option Nat := none
  bomChecked : Bool := false
  bomMatched : Nat := 0
  pendingCr : Bool := false
  maxLine : Nat
deriving DecidableEq

/-- The parser, and the events it appended to `out`. -/
structure Feed where
  parser : SseParser
  out : List SseEvent := []
deriving DecidableEq

/-- An error, and what stands when it is returned. -/
structure Refused where
  message : String
  feed : Feed
deriving DecidableEq

def metadataError (field : String) : String :=
  "an event-stream " ++ field ++ " field exceeded " ++ toString maxEventMetadataBytes ++ " bytes"

def lineError (maxLine : Nat) : String := "an event-stream line exceeded " ++ toString maxLine ++ " bytes"

def dataError (max : Nat) : String := "an event-stream event's data exceeded " ++ toString max ++ " bytes"

/-- The value of a partial line's field, if the field is `name`. -/
def rawValue (name line : List UInt8) : Option (List UInt8) := do
  let rest ← dropPrefix name line
  let rest ← dropPrefix [0x3A] rest
  return (dropPrefix [0x20] rest).getD rest

def idName : List UInt8 := [0x69, 0x64]

def eventName : List UInt8 := [0x65, 0x76, 0x65, 0x6E, 0x74]

def oversizedMetadata (line : List UInt8) : Option String :=
  let oversized (name : List UInt8) : Bool := (rawValue name line).any fun v => maxEventMetadataBytes < v.length
  if oversized idName then some "id" else if oversized eventName then some "event" else none

namespace SseParser

def new (maxLine : Nat) : SseParser where
  maxLine := max maxLine 1024

def maxEventData (p : SseParser) : Nat := min (p.maxLine * 4) usizeMax

def resetStream (p : SseParser) : SseParser :=
  { p with line := [], data := [], hasData := false, eventType := [], bomChecked := false, bomMatched := 0,
           pendingCr := false }

/-- The event buffers emptied, as before every refusal but that of a long line. -/
def discard (p : SseParser) : SseParser := { p with data := [], hasData := false, eventType := [] }

/-- The event that a blank line dispatches. -/
def event (p : SseParser) : SseEvent where
  id := p.lastEventId
  eventType := if p.eventType = [] then "message".toList else p.eventType
  data := if p.data.getLast? = some '\n' then p.data.dropLast else p.data

end SseParser

/-- `split_once`. -/
def splitOnce (c : Char) : Text → Option (Text × Text)
  | [] => none
  | d :: t => if d = c then some ([], t) else (splitOnce c t).map fun p => (d :: p.1, p.2)

def fieldOf (line : Text) : Text × Text :=
  match splitOnce ':' line with
  | some (f, v) => (f, (dropPrefix [' '] v).getD v)
  | none => (line, [])

def decimal (digits : Text) : Nat := digits.foldl (fun n c => 10 * n + (c.toNat - 48)) 0

/-- `str::parse::<u64>` of digits. -/
def parseU64 (digits : Text) : Option Nat := if decimal digits ≤ u64Max then some (decimal digits) else none

namespace Feed

/-- A blank line. -/
def dispatch (s : Feed) : Feed where
  parser := s.parser.discard
  out := if s.parser.hasData then s.out ++ [s.parser.event] else s.out

/-- The field of a line that is neither blank nor a comment. -/
def field (s : Feed) (name value : Text) : Except Refused Feed :=
  let p := s.parser
  if (name = "event".toList ∨ name = "id".toList) ∧ maxEventMetadataBytes < utf8Len value then
    .error ⟨metadataError (String.ofList name), { s with parser := p.discard }⟩
  else if name = "event".toList then .ok { s with parser := { p with eventType := value } }
  else if name = "data".toList then
    if p.maxEventData < utf8Len p.data + utf8Len value then
      .error ⟨dataError p.maxEventData, { s with parser := p.discard }⟩
    else .ok { s with parser := { p with data := p.data ++ value ++ ['\n'], hasData := true } }
  else if name = "id".toList ∧ '\x00' ∉ value then .ok { s with parser := { p with lastEventId := some value } }
  else if name = "retry".toList ∧ value ≠ [] ∧ value.all Char.isDigit then
    .ok { s with parser := { p with retryMs := parseU64 value } }
  else .ok s

def endLine (s : Feed) : Except Refused Feed :=
  let line := fromUtf8Lossy s.parser.line
  let s := { s with parser := { s.parser with line := [] } }
  if line = [] then .ok s.dispatch
  else if line.head? = some ':' then .ok s
  else s.field (fieldOf line).1 (fieldOf line).2

def push (s : Feed) (b : UInt8) : Except Refused Feed :=
  let p := s.parser
  if p.maxLine ≤ p.line.length then .error ⟨lineError p.maxLine, s⟩
  else
    let p := { p with line := p.line ++ [b] }
    match (if maxEventMetadataBytes < p.line.length then oversizedMetadata p.line else none) with
    | some name => .error ⟨metadataError name, { s with parser := { p.discard with line := [] } }⟩
    | none => .ok { s with parser := p }

/-- The body of `feed_bytes`'s loop. -/
def byte (s : Feed) (b : UInt8) : Except Refused Feed :=
  if s.parser.pendingCr ∧ b = lf then .ok { s with parser := { s.parser with pendingCr := false } }
  else if b = lf then endLine { s with parser := { s.parser with pendingCr := false } }
  else if b = cr then endLine { s with parser := { s.parser with pendingCr := true } }
  else push { s with parser := { s.parser with pendingCr := false } } b

def feedBytes (limit : Nat) : Feed → List UInt8 → Except Refused Feed
  | s, [] => .ok s
  | s, b :: t => if limit ≤ s.out.length then .ok s else (s.byte b).bind (feedBytes limit · t)

/-- The loop that holds back a BOM's first bytes: how many match by now, and the rest of the chunk. -/
def matchBom : Nat → List UInt8 → Nat × List UInt8
  | m, [] => (m, [])
  | m, b :: t => if bom[m]? = some b then matchBom (m + 1) t else (m, b :: t)

/-- The parser past the start of its stream. -/
def decided (s : Feed) : Feed := { s with parser := { s.parser with bomChecked := true, bomMatched := 0 } }

def feedLimited (limit : Nat) (s : Feed) (chunk : List UInt8) : Except Refused Feed :=
  let p := s.parser
  if limit ≤ s.out.length then .ok s
  else if p.bomChecked then s.feedBytes limit chunk
  else
    let (m, rest) := matchBom p.bomMatched chunk
    if m = bom.length then s.decided.feedBytes limit rest
    else if rest = [] then .ok { s with parser := { p with bomMatched := m } }
    else (s.decided.feedBytes limit (bom.take m)).bind (feedBytes limit · rest)

def feed (s : Feed) (chunk : List UInt8) : Except Refused Feed := s.feedLimited usizeMax chunk

/-- The chunks in order, up to the first that is refused. -/
def feedChunks (s : Feed) (chunks : List (List UInt8)) : Except Refused Feed := chunks.foldlM feed s

end Feed

/-! ## What one byte leaves alone -/

namespace Feed

/-- The same parser, with more events in hand before those of `s`. -/
def under (before : List SseEvent) (s : Feed) : Feed := { s with out := before ++ s.out }

/-- What every step of the parser does: the BOM stays decided, at most one event is new, and the events in hand do not
matter to it. -/
structure Frame (step : Feed → Except Refused Feed) (s s' : Feed) : Prop where
  checked : s'.parser.bomChecked = s.parser.bomChecked
  grows : s.out.length ≤ s'.out.length
  atMost : s'.out.length ≤ s.out.length + 1
  under : ∀ before, step (s.under before) = .ok (s'.under before)

theorem field_frame {s s' : Feed} {name value : Text} (h : s.field name value = .ok s') :
    Frame (·.field name value) s s' := by
  have hout : s'.out = s.out ∧ s'.parser.bomChecked = s.parser.bomChecked := by
    unfold field at h
    simp only at h
    split_ifs at h <;> cases h <;> exact ⟨rfl, rfl⟩
  refine ⟨hout.2, by rw [hout.1], by rw [hout.1]; omega, fun before => ?_⟩
  unfold field at h ⊢
  unfold Feed.under
  simp only at h ⊢
  split_ifs at h ⊢ <;> cases h <;> rfl

theorem dispatch_frame (s : Feed) : Frame (fun s => .ok s.dispatch) s s.dispatch := by
  unfold dispatch
  by_cases hd : s.parser.hasData = true
  · refine ⟨rfl, ?_, ?_, fun before => ?_⟩
    · rw [if_pos hd, List.length_append]
      omega
    · rw [if_pos hd, List.length_append]
      exact le_rfl
    · unfold Feed.under
      simp only [hd, if_true, List.append_assoc]
  · refine ⟨rfl, ?_, ?_, fun before => ?_⟩
    · rw [if_neg hd]
    · rw [if_neg hd]
      exact Nat.le_succ s.out.length
    · unfold Feed.under
      simp only [hd, Bool.false_eq_true, if_false]

theorem endLine_frame {s s' : Feed} (h : s.endLine = .ok s') : Frame endLine s s' := by
  unfold endLine at h
  simp only at h
  by_cases hnil : fromUtf8Lossy s.parser.line = []
  · rw [if_pos hnil] at h
    cases h
    obtain ⟨hc, hg, ha, hu⟩ := dispatch_frame { s with parser := { s.parser with line := [] } }
    refine ⟨hc, hg, ha, fun before => ?_⟩
    unfold endLine
    exact (if_pos hnil).trans (hu before)
  rw [if_neg hnil] at h
  by_cases hcolon : (fromUtf8Lossy s.parser.line).head? = some ':'
  · rw [if_pos hcolon] at h
    cases h
    refine ⟨rfl, le_rfl, Nat.le_succ _, fun before => ?_⟩
    unfold endLine
    exact (if_neg hnil).trans (if_pos hcolon)
  · rw [if_neg hcolon] at h
    obtain ⟨hc, hg, ha, hu⟩ := field_frame h
    refine ⟨hc, hg, ha, fun before => ?_⟩
    unfold endLine
    exact (if_neg hnil).trans ((if_neg hcolon).trans (hu before))

theorem push_frame {s s' : Feed} {b : UInt8} (h : s.push b = .ok s') : Frame (·.push b) s s' := by
  have hout : s'.out = s.out ∧ s'.parser.bomChecked = s.parser.bomChecked := by
    unfold push at h
    simp only at h
    split_ifs at h
    · split at h <;> cases h
      exact ⟨rfl, rfl⟩
    · cases h
      exact ⟨rfl, rfl⟩
  refine ⟨hout.2, by rw [hout.1], by rw [hout.1]; omega, fun before => ?_⟩
  unfold push at h ⊢
  unfold Feed.under
  simp only at h ⊢
  split_ifs at h ⊢
  · split at h <;> cases h
    rfl
  · cases h
    rfl

theorem byte_frame {s s' : Feed} {b : UInt8} (h : s.byte b = .ok s') : Frame (·.byte b) s s' := by
  unfold byte at h
  by_cases hcr : s.parser.pendingCr = true ∧ b = lf
  · rw [if_pos hcr] at h
    cases h
    exact ⟨rfl, le_rfl, Nat.le_succ _, fun before => if_pos hcr⟩
  rw [if_neg hcr] at h
  by_cases hlf : b = lf
  · rw [if_pos hlf] at h
    obtain ⟨hc, hg, ha, hu⟩ := endLine_frame h
    exact ⟨hc, hg, ha, fun before => (if_neg hcr).trans ((if_pos hlf).trans (hu before))⟩
  rw [if_neg hlf] at h
  by_cases hb : b = cr
  · rw [if_pos hb] at h
    obtain ⟨hc, hg, ha, hu⟩ := endLine_frame h
    exact ⟨hc, hg, ha, fun before => (if_neg hcr).trans ((if_neg hlf).trans ((if_pos hb).trans (hu before)))⟩
  · rw [if_neg hb] at h
    obtain ⟨hc, hg, ha, hu⟩ := push_frame h
    exact ⟨hc, hg, ha, fun before => (if_neg hcr).trans ((if_neg hlf).trans ((if_neg hb).trans (hu before)))⟩

end Feed

/-! ## Chunks -/

namespace Feed

theorem feedBytes_append (limit : Nat) (s : Feed) (a b : List UInt8) :
    s.feedBytes limit (a ++ b) = (s.feedBytes limit a).bind (feedBytes limit · b) := by
  induction a generalizing s with
  | nil => rfl
  | cons x t ih =>
    simp only [List.cons_append, feedBytes]
    by_cases h : limit ≤ s.out.length
    · rw [if_pos h, if_pos h]
      cases b with
      | nil => rfl
      | cons y u => exact (if_pos h).symm
    · rw [if_neg h, if_neg h]
      cases s.byte x with
      | error e => rfl
      | ok s' => exact ih s'

/-- A chunk that leaves the BOM undecided hands over its count, and any other its decision. -/
theorem matchBom_append (m : Nat) (a b : List UInt8) : matchBom m (a ++ b) =
    if (matchBom m a).2 = [] then matchBom (matchBom m a).1 b else ((matchBom m a).1, (matchBom m a).2 ++ b) := by
  induction a generalizing m with
  | nil => rfl
  | cons x t ih =>
    by_cases h : bom[m]? = some x
    · have hstep : ∀ u, matchBom m (x :: u) = matchBom (m + 1) u := fun u => if_pos h
      rw [List.cons_append, hstep, hstep]
      exact ih (m + 1)
    · have hstop : ∀ u, matchBom m (x :: u) = (m, x :: u) := fun u => if_neg h
      rw [List.cons_append, hstop, hstop, if_neg (List.cons_ne_nil x t)]
      rfl

theorem matchBom_bom (b : List UInt8) : matchBom bom.length b = (bom.length, b) := by
  cases b with
  | nil => rfl
  | cons x t => exact if_neg (by rw [List.getElem?_eq_none le_rfl]; exact nofun)

theorem feedLimited_of_le {limit : Nat} {s : Feed} (h : limit ≤ s.out.length) (chunk : List UInt8) :
    s.feedLimited limit chunk = .ok s := if_pos h

theorem feedLimited_of_checked {limit : Nat} {s : Feed} (h : s.parser.bomChecked = true) (chunk : List UInt8) :
    s.feedLimited limit chunk = s.feedBytes limit chunk := by
  unfold feedLimited
  by_cases hl : limit ≤ s.out.length
  · rw [if_pos hl]
    cases chunk with
    | nil => rfl
    | cons x t => exact (if_pos hl).symm
  · rw [if_neg hl, if_pos h]

/-- A chunk at the start of the stream. -/
theorem feedLimited_of_unchecked {limit : Nat} {s : Feed} (hl : ¬limit ≤ s.out.length)
    (hc : s.parser.bomChecked ≠ true) {m : Nat} {chunk rest : List UInt8}
    (hm : matchBom s.parser.bomMatched chunk = (m, rest)) : s.feedLimited limit chunk =
      if m = bom.length then s.decided.feedBytes limit rest
      else if rest = [] then .ok { s with parser := { s.parser with bomMatched := m } }
      else (s.decided.feedBytes limit (bom.take m)).bind (feedBytes limit · rest) := by
  unfold feedLimited
  rw [if_neg hl, if_neg hc]
  simp only [hm]

theorem feedBytes_checked {limit : Nat} {s s' : Feed} {a : List UInt8} (h : s.feedBytes limit a = .ok s') :
    s'.parser.bomChecked = s.parser.bomChecked := by
  induction a generalizing s with
  | nil => cases h; rfl
  | cons x t ih =>
    unfold feedBytes at h
    split_ifs at h with hl
    · cases h
      rfl
    · cases hb : s.byte x with
      | error e => rw [hb] at h; cases h
      | ok s₁ =>
        rw [hb] at h
        exact (ih h).trans (byte_frame hb).checked

theorem feedBytes_length {limit : Nat} {s s' : Feed} {bytes : List UInt8} (h : s.feedBytes limit bytes = .ok s') :
    s.out.length ≤ s'.out.length ∧ s'.out.length ≤ s.out.length + bytes.length := by
  induction bytes generalizing s with
  | nil =>
    cases h
    exact ⟨le_rfl, le_rfl⟩
  | cons b t ih =>
    unfold feedBytes at h
    split_ifs at h with hl
    · cases h
      exact ⟨le_rfl, Nat.le_add_right _ _⟩
    · cases hb : s.byte b with
      | error e =>
        rw [hb] at h
        cases h
      | ok s₁ =>
        rw [hb] at h
        have := ih h
        have hg := (byte_frame hb).grows
        have ha := (byte_frame hb).atMost
        rw [List.length_cons]
        omega

/-- Bytes that the limit did not stop are parsed alike under any other limit they keep. -/
theorem feedBytes_under {limit : Nat} {s s' : Feed} {bytes : List UInt8} (h : s.feedBytes limit bytes = .ok s')
    (hlt : s'.out.length < limit) {before : List SseEvent} {bound : Nat}
    (hbound : before.length + s'.out.length < bound) :
    (s.under before).feedBytes bound bytes = .ok (s'.under before) := by
  induction bytes generalizing s with
  | nil =>
    cases h
    rfl
  | cons b t ih =>
    have hroom : ¬bound ≤ (s.under before).out.length := by
      have := (feedBytes_length h).1
      show ¬bound ≤ (before ++ s.out).length
      rw [List.length_append]
      omega
    unfold feedBytes at h
    split_ifs at h with hl
    · cases h
      omega
    · cases hb : s.byte b with
      | error e =>
        rw [hb] at h
        cases h
      | ok s₁ =>
        rw [hb] at h
        unfold feedBytes
        rw [if_neg hroom, (byte_frame hb).under before]
        exact ih h

/-- Once the BOM is decided, the rest of the chunk and the next chunk are one run of bytes. -/
theorem feedBytes_bind (limit : Nat) {s : Feed} (h : s.parser.bomChecked = true) (a b : List UInt8) :
    (s.feedBytes limit a).bind (feedLimited limit · b) = s.feedBytes limit (a ++ b) := by
  rw [feedBytes_append]
  cases ha : s.feedBytes limit a with
  | error e => rfl
  | ok s' => exact feedLimited_of_checked ((feedBytes_checked ha).trans h) b

theorem feedLimited_append (limit : Nat) (s : Feed) (a b : List UInt8) :
    s.feedLimited limit (a ++ b) = (s.feedLimited limit a).bind (feedLimited limit · b) := by
  by_cases hl : limit ≤ s.out.length
  · rw [feedLimited_of_le hl, feedLimited_of_le hl]
    exact (feedLimited_of_le hl b).symm
  by_cases hc : s.parser.bomChecked = true
  · rw [feedLimited_of_checked hc, feedLimited_of_checked hc, feedBytes_bind limit hc]
  obtain ⟨m, rest, ha⟩ : ∃ m rest, matchBom s.parser.bomMatched a = (m, rest) := ⟨_, _, rfl⟩
  have hab := matchBom_append s.parser.bomMatched a b
  rw [ha] at hab
  rw [feedLimited_of_unchecked hl hc ha]
  by_cases hm : m = bom.length
  · subst hm
    rw [if_pos rfl, feedBytes_bind limit rfl]
    by_cases hr : rest = []
    · subst hr
      rw [if_pos rfl, matchBom_bom] at hab
      rw [feedLimited_of_unchecked hl hc hab, if_pos rfl]
      rfl
    · rw [if_neg hr] at hab
      rw [feedLimited_of_unchecked hl hc hab, if_pos rfl]
  · by_cases hr : rest = []
    · subst hr
      rw [if_pos rfl] at hab
      rw [if_neg hm, if_pos rfl, feedLimited_of_unchecked hl hc hab]
      have hb := feedLimited_of_unchecked (s := { s with parser := { s.parser with bomMatched := m } }) hl hc
        (Prod.mk.eta (p := matchBom m b)).symm
      exact hb.symm
    · rw [if_neg hr] at hab
      rw [if_neg hm, if_neg hr, feedLimited_of_unchecked hl hc hab, if_neg hm, if_neg (by simp [hr]),
        ← feedBytes_append, ← feedBytes_append, feedBytes_bind limit rfl, List.append_assoc]

theorem length_matchBom_le (m : Nat) (chunk : List UInt8) : (matchBom m chunk).2.length ≤ chunk.length := by
  induction chunk generalizing m with
  | nil => exact le_rfl
  | cons b t ih =>
    unfold matchBom
    split_ifs
    · exact (ih (m + 1)).trans (Nat.le_succ _)
    · exact le_rfl

theorem feedLimited_length {limit : Nat} {s s' : Feed} {chunk : List UInt8} (h : s.feedLimited limit chunk = .ok s') :
    s.out.length ≤ s'.out.length ∧ s'.out.length ≤ s.out.length + (bom.length + chunk.length) := by
  by_cases hl : limit ≤ s.out.length
  · rw [feedLimited_of_le hl] at h
    cases h
    exact ⟨le_rfl, Nat.le_add_right _ _⟩
  by_cases hc : s.parser.bomChecked = true
  · rw [feedLimited_of_checked hc] at h
    have := feedBytes_length h
    omega
  have hlen := length_matchBom_le s.parser.bomMatched chunk
  have hd : s.decided.out = s.out := rfl
  rw [feedLimited_of_unchecked hl hc (Prod.mk.eta (p := matchBom s.parser.bomMatched chunk)).symm] at h
  split_ifs at h with hdone hr
  · have := feedBytes_length h
    rw [hd] at this
    omega
  · cases h
    exact ⟨le_rfl, Nat.le_add_right _ _⟩
  · rw [← feedBytes_append] at h
    have := feedBytes_length h
    rw [hd, List.length_append, List.length_take] at this
    omega

/-- A chunk that the limit did not stop is parsed alike under any other limit it keeps. -/
theorem feedLimited_under {limit : Nat} {s s' : Feed} {chunk : List UInt8} (h : s.feedLimited limit chunk = .ok s')
    (hlt : s'.out.length < limit) {before : List SseEvent} {bound : Nat}
    (hbound : before.length + s'.out.length < bound) :
    (s.under before).feedLimited bound chunk = .ok (s'.under before) := by
  have hg := (feedLimited_length h).1
  have hl : ¬limit ≤ s.out.length := by omega
  have hroom : ¬bound ≤ (s.under before).out.length := by
    show ¬bound ≤ (before ++ s.out).length
    rw [List.length_append]
    omega
  by_cases hc : s.parser.bomChecked = true
  · rw [feedLimited_of_checked hc] at h
    exact (feedLimited_of_checked (s := s.under before) hc chunk).trans (feedBytes_under h hlt hbound)
  have hm := (Prod.mk.eta (p := matchBom s.parser.bomMatched chunk)).symm
  rw [feedLimited_of_unchecked hl hc hm] at h
  rw [feedLimited_of_unchecked hroom hc hm]
  split_ifs at h ⊢ with hdone hr
  · exact feedBytes_under h hlt hbound
  · cases h
    rfl
  · rw [← feedBytes_append] at h ⊢
    exact feedBytes_under h hlt hbound

theorem feed_bind_feedChunks (s : Feed) (a : List UInt8) (chunks : List (List UInt8)) :
    (s.feed a).bind (feedChunks · chunks) = s.feed (a ++ chunks.flatten) := by
  induction chunks generalizing a with
  | nil =>
    rw [List.flatten_nil, List.append_nil]
    cases s.feed a <;> rfl
  | cons c cs ih =>
    rw [List.flatten_cons, ← List.append_assoc, ← ih]
    show _ = (s.feedLimited usizeMax (a ++ c)).bind _
    rw [feedLimited_append]
    show (s.feedLimited usizeMax a).bind _ = _
    cases s.feedLimited usizeMax a <;> rfl

/-- **Any split of a stream into chunks is fed as the whole stream is.** -/
theorem feedChunks_eq_feed {s : Feed} (h : s.parser.bomMatched < bom.length) (chunks : List (List UInt8)) :
    s.feedChunks chunks = s.feed chunks.flatten := by
  have hnil : s.feed [] = .ok s := by
    by_cases hl : usizeMax ≤ s.out.length
    · exact feedLimited_of_le hl []
    by_cases hc : s.parser.bomChecked = true
    · exact feedLimited_of_checked hc []
    unfold feed
    rw [feedLimited_of_unchecked hl hc (show matchBom s.parser.bomMatched [] = (_, []) from rfl),
      if_neg (by omega), if_pos rfl]
  have hall := feed_bind_feedChunks s [] chunks
  rw [hnil] at hall
  exact hall

end Feed

end Anvil.Sse
