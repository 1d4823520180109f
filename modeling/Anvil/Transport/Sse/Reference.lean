import Anvil.Transport.Sse.Parser

/-!
# The event-stream format, line by line

`Reading` reads a stream as the format is written down: the lines of the whole stream one after another, with no
state but the event being read. It knows no limits and no chunks, and a retry is any number.

* `Permitted` : the limits, as a condition on the lines of a stream;
* `feedBytes_ok`, `feedBytes_refused` : the parser accepts exactly the permitted streams, and then holds what the
  reading holds;
* `meetsFormat_iff` : the parser meets the format exactly when no retry that does not fit is the last one.
-/

namespace Anvil.Sse
open Anvil.Lib

/-! ## The format -/

/-- The lines that CRLF, LF or CR ends, and the line that nothing ended yet. -/
structure Lines where
  ended : List (List UInt8) := []
  rest : List UInt8 := []
deriving DecidableEq

namespace Lines

def blank (l : Lines) : Lines := { l with ended := [] :: l.ended }

/-- One more byte in front of the first line. -/
def cons (b : UInt8) (l : Lines) : Lines :=
  match l.ended with
  | [] => { l with rest := b :: l.rest }
  | first :: more => { l with ended := (b :: first) :: more }

end Lines

def splitLines : List UInt8 → Lines
  | [] => {}
  | [b] => if b = cr ∨ b = lf then (splitLines []).blank else (splitLines []).cons b
  | b :: c :: t =>
    if b = cr ∧ c = lf then (splitLines t).blank
    else if b = cr ∨ b = lf then (splitLines (c :: t)).blank
    else (splitLines (c :: t)).cons b

def stripBom (stream : List UInt8) : List UInt8 := (dropPrefix bom stream).getD stream

/-- What the lines so far mean: the event being read, with its data lines, and what outlives it. -/
structure Reading where
  data : List Text := []
  eventType : Text := []
  lastEventId : Option Text := none
  retry : Option Nat := none
  events : List SseEvent := []

def fieldName (line : Text) : Text := line.takeWhile (· ≠ ':')

/-- What follows the first colon, without one leading space. -/
def fieldValue (line : Text) : Text :=
  let value := (line.dropWhile (· ≠ ':')).drop 1
  if value.head? = some ' ' then value.tail else value

/-- The data lines of an event, joined with newlines. -/
def joined (data : List Text) : Text := ['\n'].intercalate data

/-- The number of a `retry` line whose value is digits only. -/
def retryOf (raw : List UInt8) : Option Nat :=
  let line := fromUtf8Lossy raw
  if fieldName line = "retry".toList ∧ fieldValue line ≠ [] ∧ (fieldValue line).all Char.isDigit then
    some (decimal (fieldValue line))
  else none

namespace Reading

/-- A blank line dispatches the event if it has a data line, and begins the next. -/
def dispatch (r : Reading) : Reading :=
  { r with
    data := []
    eventType := []
    events := if r.data = [] then r.events else r.events ++ [{
      id := r.lastEventId
      eventType := if r.eventType = [] then "message".toList else r.eventType
      data := joined r.data }] }

def field (r : Reading) (name value : Text) : Reading :=
  if name = "event".toList then { r with eventType := value }
  else if name = "data".toList then { r with data := r.data ++ [value] }
  else if name = "id".toList then if '\x00' ∈ value then r else { r with lastEventId := some value }
  else if name = "retry".toList then
    if value ≠ [] ∧ value.all Char.isDigit then { r with retry := some (decimal value) } else r
  else r

def line (r : Reading) (raw : List UInt8) : Reading :=
  let line := fromUtf8Lossy raw
  if line = [] then r.dispatch else r.field (fieldName line) (fieldValue line)

def lines (r : Reading) (ended : List (List UInt8)) : Reading := ended.foldl line r

end Reading

/-- The reading of a whole stream. -/
def reference (stream : List UInt8) : Reading := Reading.lines {} (splitLines (stripBom stream)).ended

/-! ## The limits -/

def maxEventDataOf (maxLine : Nat) : Nat := min (maxLine * 4) usizeMax

/-- The limits on a line, in the event it stands in. -/
structure Reading.Allows (maxLine : Nat) (r : Reading) (raw : List UInt8) : Prop where
  length : raw.length ≤ maxLine
  metadata : fieldName (fromUtf8Lossy raw) = "id".toList ∨ fieldName (fromUtf8Lossy raw) = "event".toList →
    utf8Len (fieldValue (fromUtf8Lossy raw)) ≤ maxEventMetadataBytes
  data : fieldName (fromUtf8Lossy raw) = "data".toList →
    utf8Len (joined (r.data ++ [fieldValue (fromUtf8Lossy raw)])) ≤ maxEventDataOf maxLine

def Reading.AllowsAll (maxLine : Nat) : Reading → List (List UInt8) → Prop
  | _, [] => True
  | r, raw :: more => r.Allows maxLine raw ∧ (r.line raw).AllowsAll maxLine more

/-- No line of the stream breaks a limit, and the unfinished line does not break one by now. -/
structure Permitted (maxLine : Nat) (r : Reading) (l : Lines) : Prop where
  ended : r.AllowsAll maxLine l.ended
  length : l.rest.length ≤ maxLine
  metadata : oversizedMetadata l.rest = none

/-! ## Lines, byte by byte -/

/-- The lines with one more byte at the end; `atCr` says that the last byte was a CR. -/
def Lines.snoc (l : Lines) (atCr : Bool) (b : UInt8) : Lines :=
  if atCr ∧ b = lf then l
  else if b = cr ∨ b = lf then ⟨l.ended ++ [l.rest], []⟩
  else ⟨l.ended, l.rest ++ [b]⟩

def endsCr (bytes : List UInt8) : Bool := bytes.getLast? = some cr

theorem Lines.snoc_blank (l : Lines) (atCr : Bool) (b : UInt8) : l.blank.snoc atCr b = (l.snoc atCr b).blank := by
  unfold Lines.snoc
  split_ifs <;> rfl

theorem Lines.snoc_cons (l : Lines) (atCr : Bool) (b c : UInt8) :
    (l.cons c).snoc atCr b = (l.snoc atCr b).cons c := by
  obtain ⟨ended, rest⟩ := l
  unfold Lines.snoc
  cases ended <;> split_ifs <;> rfl

theorem splitLines_singleton (b : UInt8) :
    splitLines [b] = if b = cr ∨ b = lf then ⟨[[]], []⟩ else ⟨[], [b]⟩ := by
  rw [splitLines, splitLines]
  rfl

theorem splitLines_cons_cons (b c : UInt8) (t : List UInt8) : splitLines (b :: c :: t) =
    if b = cr ∧ c = lf then (splitLines t).blank
    else if b = cr ∨ b = lf then (splitLines (c :: t)).blank
    else (splitLines (c :: t)).cons b := by
  rw [splitLines]

theorem endsCr_cons_cons (b c : UInt8) (t : List UInt8) : endsCr (b :: c :: t) = endsCr (c :: t) := by
  unfold endsCr
  rw [List.getLast?_cons_cons]

theorem endsCr_singleton (b : UInt8) : endsCr [b] = decide (b = cr) := by
  simp only [endsCr, List.getLast?_singleton, Option.some.injEq]

theorem endsCr_lf_cons (t : List UInt8) : endsCr (lf :: t) = endsCr t := by
  cases t with
  | nil => rfl
  | cons c t => exact endsCr_cons_cons lf c t

/-- The lines grow with the stream as the parser sees it grow. -/
theorem splitLines_snoc (bytes : List UInt8) (b : UInt8) :
    splitLines (bytes ++ [b]) = (splitLines bytes).snoc (endsCr bytes) b := by
  fun_induction splitLines bytes with
  | case1 => exact splitLines_singleton b
  | case2 c hc =>
    rw [List.singleton_append, splitLines_cons_cons, Lines.snoc_blank, endsCr_singleton, Lines.snoc]
    by_cases h : c = cr ∧ b = lf
    · rw [if_pos h, if_pos (by rwa [decide_eq_true_iff])]
    · rw [if_neg h, if_pos hc, if_neg (by rwa [decide_eq_true_iff]), splitLines_singleton]
      rfl
  | case3 c hc =>
    have hcr : c ≠ cr := fun h => hc (.inl h)
    rw [List.singleton_append, splitLines_cons_cons, if_neg (fun h => hcr h.1), if_neg hc, Lines.snoc_cons,
      endsCr_singleton, Lines.snoc, if_neg (fun h => hcr (of_decide_eq_true h.1)), splitLines_singleton]
    rfl
  | case4 c d t h ih =>
    rw [List.cons_append, List.cons_append, splitLines_cons_cons, if_pos h, ih, Lines.snoc_blank, endsCr_cons_cons,
      h.2, endsCr_lf_cons]
  | case5 c d t h h' ih =>
    rw [List.cons_append, List.cons_append, splitLines_cons_cons, if_neg h, if_pos h', ← List.cons_append, ih,
      Lines.snoc_blank, endsCr_cons_cons]
  | case6 c d t h h' ih =>
    rw [List.cons_append, List.cons_append, splitLines_cons_cons, if_neg h, if_neg h', ← List.cons_append, ih,
      Lines.snoc_cons, endsCr_cons_cons]

theorem splitOnce_eq (c : Char) (t : Text) : splitOnce c t =
    if c ∈ t then some (t.takeWhile (· ≠ c), (t.dropWhile (· ≠ c)).drop 1) else none := by
  induction t with
  | nil => rfl
  | cons d t ih =>
    unfold splitOnce
    rw [ih]
    by_cases hd : d = c
    · subst hd
      simp
    · by_cases ht : c ∈ t <;> simp [hd, Ne.symm hd, ht]

theorem dropPrefix_space (v : Text) : (dropPrefix [' '] v).getD v = if v.head? = some ' ' then v.tail else v := by
  cases v with
  | nil => rfl
  | cons c t =>
    rw [dropPrefix_singleton_cons]
    by_cases h : ' ' = c
    · subst h
      rfl
    · rw [if_neg h, if_neg (by simpa using Ne.symm h)]
      rfl

theorem fieldOf_eq (line : Text) : fieldOf line = (fieldName line, fieldValue line) := by
  unfold fieldOf fieldName fieldValue
  rw [splitOnce_eq]
  by_cases h : ':' ∈ line
  · rw [if_pos h]
    simp only [dropPrefix_space]
  · have hall : ∀ c ∈ line, decide (c ≠ ':') = true := fun c hc => by
      rw [decide_eq_true_iff]
      rintro rfl
      exact h hc
    have htake : line.takeWhile (· ≠ ':') = line := by
      rw [← List.append_nil line, List.takeWhile_append_of_pos hall, List.takeWhile_nil]
    have hdrop : line.dropWhile (· ≠ ':') = [] := by
      have := List.takeWhile_append_dropWhile (p := (· ≠ ':')) (l := line)
      rwa [htake, List.append_right_eq_self] at this
    rw [if_neg h, htake, hdrop]
    rfl

/-! ## The parser as a reading -/

/-- The parser's state after a reading, within a line. -/
def Reading.toFeed (r : Reading) (maxLine : Nat) (line : List UInt8) (pendingCr : Bool) : Feed where
  parser := {
    line
    data := r.data.flatMap (· ++ ['\n'])
    hasData := !r.data.isEmpty
    eventType := r.eventType
    lastEventId := r.lastEventId
    retryMs := r.retry.filter (· ≤ u64Max)
    bomChecked := true
    pendingCr
    maxLine }
  out := r.events

theorem joined_snoc (data : List Text) (value : Text) :
    joined (data ++ [value]) = data.flatMap (· ++ ['\n']) ++ value := by
  induction data with
  | nil => simp [joined]
  | cons d ds ih =>
    unfold joined at ih ⊢
    rw [List.cons_append, List.intercalate_cons_of_ne_nil (by simp), ih, List.flatMap_cons]
    simp

theorem flatMap_newline {data : List Text} (h : data ≠ []) :
    data.flatMap (· ++ ['\n']) = joined data ++ ['\n'] := by
  obtain ⟨ds, d, rfl⟩ := (List.eq_nil_or_concat data).resolve_left h
  rw [List.concat_eq_append, joined_snoc, List.flatMap_append, List.append_assoc]
  simp

theorem Reading.dispatch_toFeed (r : Reading) (maxLine : Nat) (pendingCr : Bool) :
    (r.toFeed maxLine [] pendingCr).dispatch = r.dispatch.toFeed maxLine [] pendingCr := by
  unfold Feed.dispatch Reading.dispatch Reading.toFeed SseParser.discard SseParser.event
  by_cases h : r.data = []
  · simp only [h, List.isEmpty_nil, Bool.not_true, Bool.false_eq_true, if_false, if_true]
    rfl
  · have hempty : r.data.isEmpty = false := Bool.eq_false_iff.2 fun he => h (List.isEmpty_iff.1 he)
    have hlast : (joined r.data ++ ['\n']).getLast? = some '\n' := List.getLast?_concat
    simp only [flatMap_newline h, hlast, hempty, List.dropLast_concat, Bool.not_false, if_true, if_neg h]
    rfl

/-- The buffer holds the newline that joins the next data line, so the bound is on the joined lines. -/
theorem Reading.data_over_iff (r : Reading) (maxLine : Nat) (line : List UInt8) (pendingCr : Bool) (value : Text) :
    (r.toFeed maxLine line pendingCr).parser.maxEventData <
      utf8Len (r.toFeed maxLine line pendingCr).parser.data + utf8Len value ↔
    ¬utf8Len (joined (r.data ++ [value])) ≤ maxEventDataOf maxLine := by
  rw [joined_snoc, utf8Len_append, Nat.not_le]
  rfl

section Fields
variable (r : Reading) (maxLine : Nat) (pendingCr : Bool) (name value : Text)

/-- What the limits leave of a field is what the format says. -/
theorem Reading.field_toFeed
    (hmeta : name = "id".toList ∨ name = "event".toList → utf8Len value ≤ maxEventMetadataBytes)
    (hdata : name = "data".toList → utf8Len (joined (r.data ++ [value])) ≤ maxEventDataOf maxLine) :
    (r.toFeed maxLine [] pendingCr).field name value = .ok ((r.field name value).toFeed maxLine [] pendingCr) := by
  have hfits : ¬((name = "event".toList ∨ name = "id".toList) ∧ maxEventMetadataBytes < utf8Len value) := by
    rintro ⟨h, hlt⟩
    have := hmeta h.symm
    omega
  unfold Feed.field Reading.field
  simp only
  rw [if_neg hfits]
  by_cases he : name = "event".toList
  · rw [if_pos he, if_pos he]
    rfl
  rw [if_neg he, if_neg he]
  by_cases hd : name = "data".toList
  · rw [if_pos hd, if_pos hd, if_neg (fun h => (r.data_over_iff maxLine [] pendingCr value).1 h (hdata hd))]
    simp [Reading.toFeed]
  rw [if_neg hd, if_neg hd]
  by_cases hi : name = "id".toList
  · have hr : ¬(name = "retry".toList ∧ value ≠ [] ∧ value.all Char.isDigit = true) := fun h =>
      absurd (hi.symm.trans h.1) (by decide)
    rw [if_pos hi]
    by_cases hz : '\x00' ∈ value
    · rw [if_neg (fun h => h.2 hz), if_neg hr, if_pos hz]
    · rw [if_pos ⟨hi, hz⟩, if_neg hz]
      rfl
  rw [if_neg hi, if_neg (fun h => hi h.1)]
  by_cases hr : name = "retry".toList
  · rw [if_pos hr]
    by_cases hv : value ≠ [] ∧ value.all Char.isDigit = true
    · rw [if_pos ⟨hr, hv⟩, if_pos hv]
      unfold parseU64 Reading.toFeed
      simp [Option.filter_some]
    · rw [if_neg (fun h => hv h.2), if_neg hv]
  · rw [if_neg hr, if_neg (fun h => hr h.1)]

theorem Reading.field_refused
    (h : ¬((name = "id".toList ∨ name = "event".toList → utf8Len value ≤ maxEventMetadataBytes) ∧
      (name = "data".toList → utf8Len (joined (r.data ++ [value])) ≤ maxEventDataOf maxLine))) :
    ∃ e, (r.toFeed maxLine [] pendingCr).field name value = .error e ∧ e.feed.out = r.events := by
  unfold Feed.field
  simp only
  by_cases hm : (name = "event".toList ∨ name = "id".toList) ∧ maxEventMetadataBytes < utf8Len value
  · rw [if_pos hm]
    exact ⟨_, rfl, rfl⟩
  · have hmeta : name = "id".toList ∨ name = "event".toList → utf8Len value ≤ maxEventMetadataBytes := fun hn =>
      Nat.not_lt.1 fun hlt => hm ⟨hn.symm, hlt⟩
    obtain ⟨hd, hlt⟩ := Classical.not_imp.1 fun hd => h ⟨hmeta, hd⟩
    rw [if_neg hm, if_neg (by rw [hd]; decide), if_pos hd, if_pos ((r.data_over_iff maxLine [] pendingCr value).2 hlt)]
    exact ⟨_, rfl, rfl⟩

end Fields

theorem fieldName_eq_nil {line : Text} (h : line.head? = some ':') : fieldName line = [] := by
  obtain ⟨t, rfl⟩ := List.head?_eq_some_iff.1 h
  rfl

theorem Reading.endLine_toFeed {r : Reading} {maxLine : Nat} {raw : List UInt8} (h : r.Allows maxLine raw)
    (pendingCr : Bool) :
    (r.toFeed maxLine raw pendingCr).endLine = .ok ((r.line raw).toFeed maxLine [] pendingCr) := by
  unfold Feed.endLine Reading.line
  simp only
  by_cases hnil : fromUtf8Lossy raw = []
  · rw [if_pos hnil]
    show (if fromUtf8Lossy raw = [] then _ else _) = _
    rw [if_pos hnil]
    exact congrArg Except.ok (r.dispatch_toFeed maxLine pendingCr)
  · rw [if_neg hnil]
    show (if fromUtf8Lossy raw = [] then _ else if (fromUtf8Lossy raw).head? = some ':' then _ else _) = _
    rw [if_neg hnil]
    by_cases hc : (fromUtf8Lossy raw).head? = some ':'
    · rw [if_pos hc, fieldName_eq_nil hc]
      rfl
    · rw [if_neg hc]
      show Feed.field (r.toFeed maxLine [] pendingCr) (fieldOf (fromUtf8Lossy raw)).1 (fieldOf (fromUtf8Lossy raw)).2 = _
      rw [fieldOf_eq]
      exact r.field_toFeed maxLine pendingCr _ _ h.metadata h.data

theorem Reading.endLine_refused {r : Reading} {maxLine : Nat} {raw : List UInt8} (hlen : raw.length ≤ maxLine)
    (h : ¬r.Allows maxLine raw) (pendingCr : Bool) :
    ∃ e, (r.toFeed maxLine raw pendingCr).endLine = .error e ∧ e.feed.out = r.events := by
  have hname : fieldName (fromUtf8Lossy raw) ≠ [] := fun hn =>
    h ⟨hlen, fun hf => absurd hf (by rw [hn]; decide), fun hf => absurd hf (by rw [hn]; decide)⟩
  have hnil : fromUtf8Lossy raw ≠ [] := fun hn => hname (by rw [hn]; rfl)
  have hc : (fromUtf8Lossy raw).head? ≠ some ':' := fun hc => hname (fieldName_eq_nil hc)
  unfold Feed.endLine
  show ∃ e, (if fromUtf8Lossy raw = [] then _ else if (fromUtf8Lossy raw).head? = some ':' then _ else
    Feed.field (r.toFeed maxLine [] pendingCr) (fieldOf (fromUtf8Lossy raw)).1 (fieldOf (fromUtf8Lossy raw)).2) = _ ∧ _
  rw [if_neg hnil, if_neg hc, fieldOf_eq]
  exact r.field_refused maxLine pendingCr _ _ fun hok => h ⟨hlen, hok.1, hok.2⟩

/-! ## The early refusal -/

theorem rawValue_eq_some {name line v : List UInt8} : rawValue name line = some v ↔
    ∃ rest, line = name ++ 0x3A :: rest ∧ (dropPrefix [0x20] rest).getD rest = v := by
  unfold rawValue
  simp only [Option.bind_eq_bind, Option.bind_eq_some_iff, dropPrefix_eq_some, Option.pure_def, Option.some.injEq]
  constructor
  · rintro ⟨a, rfl, rest, rfl, rfl⟩
    exact ⟨rest, rfl, rfl⟩
  · rintro ⟨rest, rfl, rfl⟩
    exact ⟨_, rfl, rest, rfl, rfl⟩

theorem length_dropSpace (rest : List UInt8) : ((dropPrefix [0x20] rest).getD rest).length ≤ rest.length := by
  cases h : dropPrefix [0x20] rest with
  | none => exact le_rfl
  | some t =>
    rw [dropPrefix_eq_some.1 h]
    simp

theorem dropSpace_snoc {rest : List UInt8} (h : (dropPrefix [0x20] rest).getD rest ≠ []) (b : UInt8) :
    (dropPrefix [0x20] (rest ++ [b])).getD (rest ++ [b]) = (dropPrefix [0x20] rest).getD rest ++ [b] := by
  cases rest with
  | nil => exact absurd rfl h
  | cons c t =>
    rw [List.cons_append, dropPrefix_singleton_cons, dropPrefix_singleton_cons]
    by_cases hc : 0x20 = c
    · rw [if_pos hc, if_pos hc]
      rfl
    · rw [if_neg hc, if_neg hc]
      rfl

/-- A value decodes to the value of the decoded line. -/
theorem fieldValue_dropSpace (rest : List UInt8) :
    (if (fromUtf8Lossy rest).head? = some ' ' then (fromUtf8Lossy rest).tail else fromUtf8Lossy rest) =
      fromUtf8Lossy ((dropPrefix [0x20] rest).getD rest) := by
  by_cases h : (fromUtf8Lossy rest).head? = some ' '
  · obtain ⟨b, t, rfl, hb, hsp⟩ := head_of_utf8Size_one h (by decide)
    have hb32 : b = 0x20 := by
      have := congrArg (fun c : Char => c.val.toNat) hsp
      have hv : b.toNat.isValidChar := .inl (by have := UInt8.lt_iff_toNat_lt.1 hb; simp at this; omega)
      simp only [toNat_ofNat hv] at this
      exact UInt8.toNat_inj.1 this.symm
    subst hb32
    rw [if_pos h, fromUtf8Lossy_ascii hb]
    rfl
  · rw [if_neg h]
    cases rest with
    | nil => rfl
    | cons b t =>
      have hb : b ≠ 0x20 := by
        rintro rfl
        exact h (by rw [fromUtf8Lossy_ascii (by decide)]; rfl)
      rw [dropPrefix_singleton_cons, if_neg (Ne.symm hb)]
      rfl

theorem rawValue_field {name line v : List UInt8} (hname : ∀ b ∈ name, b < 0x80)
    (hcolon : ∀ b ∈ name, Char.ofNat b.toNat ≠ ':') (h : rawValue name line = some v) :
    fieldName (fromUtf8Lossy line) = name.map (fun b => Char.ofNat b.toNat) ∧
      fieldValue (fromUtf8Lossy line) = fromUtf8Lossy v := by
  obtain ⟨rest, rfl, rfl⟩ := rawValue_eq_some.1 h
  have hdec : fromUtf8Lossy (name ++ 0x3A :: rest) = name.map (fun b => Char.ofNat b.toNat) ++ ':' :: fromUtf8Lossy rest := by
    rw [fromUtf8Lossy_ascii_append hname, fromUtf8Lossy_ascii (by decide)]
    rfl
  have hall : ∀ c ∈ name.map (fun b => Char.ofNat b.toNat), decide (c ≠ ':') = true := fun c hc => by
    obtain ⟨b, hb, rfl⟩ := List.mem_map.1 hc
    exact decide_eq_true (hcolon b hb)
  rw [hdec]
  constructor
  · unfold fieldName
    rw [List.takeWhile_append_of_pos hall]
    simp
  · unfold fieldValue
    rw [List.dropWhile_append_of_pos hall]
    exact fieldValue_dropSpace rest

/-- The fields that `oversized_metadata` looks for, and their names. -/
theorem oversizedMetadata_isSome {line : List UInt8} : (oversizedMetadata line).isSome ↔
    ∃ name ∈ [idName, eventName], ∃ v, rawValue name line = some v ∧ maxEventMetadataBytes < v.length := by
  have hany : ∀ name, ((rawValue name line).any fun v => maxEventMetadataBytes < v.length) = true ↔
      ∃ v, rawValue name line = some v ∧ maxEventMetadataBytes < v.length := fun name => by
    rw [Option.any_eq_true]
    simp
  unfold oversizedMetadata
  simp only [hany, List.mem_cons, List.not_mem_nil, or_false, exists_eq_or_imp, exists_eq_left]
  split_ifs with h₁ h₂
  · exact ⟨fun _ => .inl h₁, fun _ => rfl⟩
  · exact ⟨fun _ => .inr h₂, fun _ => rfl⟩
  · exact ⟨nofun, fun h => (h.elim h₁ h₂).elim⟩

/-- A value that is too long stays too long. -/
theorem oversizedMetadata_snoc {line : List UInt8} (h : (oversizedMetadata line).isSome) (b : UInt8) :
    (oversizedMetadata (line ++ [b])).isSome := by
  obtain ⟨name, hn, v, hv, hlt⟩ := oversizedMetadata_isSome.1 h
  obtain ⟨rest, rfl, rfl⟩ := rawValue_eq_some.1 hv
  have hne : (dropPrefix [0x20] rest).getD rest ≠ [] := by
    intro hnil
    rw [hnil] at hlt
    exact absurd hlt (Nat.not_lt_zero _)
  refine oversizedMetadata_isSome.2 ⟨name, hn, _, rawValue_eq_some.2 ⟨rest ++ [b], ?_, dropSpace_snoc hne b⟩, ?_⟩
  · rw [List.append_assoc, List.cons_append]
  · rw [List.length_append]
    omega

/-- The early refusal refuses only lines that the end of the line would. -/
theorem Reading.Allows.not_oversized {maxLine : Nat} {r : Reading} {raw : List UInt8} (h : r.Allows maxLine raw) :
    oversizedMetadata raw = none := by
  rw [← Option.not_isSome_iff_eq_none]
  intro hs
  obtain ⟨name, hn, v, hv, hlt⟩ := oversizedMetadata_isSome.1 hs
  have hname : (∀ b ∈ name, b < 0x80) ∧ (∀ b ∈ name, Char.ofNat b.toNat ≠ ':') ∧
      (name.map (fun b => Char.ofNat b.toNat) = "id".toList ∨
        name.map (fun b => Char.ofNat b.toNat) = "event".toList) := by
    simp only [List.mem_cons, List.not_mem_nil, or_false] at hn
    rcases hn with rfl | rfl <;> decide
  obtain ⟨hf, hval⟩ := rawValue_field hname.1 hname.2.1 hv
  have hle := h.metadata (by rw [hf]; exact hname.2.2)
  rw [hval] at hle
  have := length_le_utf8Len v
  omega

/-- The guard on the line's length skips no oversized value. -/
theorem length_of_oversized {line : List UInt8} (h : (oversizedMetadata line).isSome) :
    maxEventMetadataBytes < line.length := by
  obtain ⟨name, -, v, hv, hlt⟩ := oversizedMetadata_isSome.1 h
  obtain ⟨rest, rfl, rfl⟩ := rawValue_eq_some.1 hv
  have := length_dropSpace rest
  rw [List.length_append, List.length_cons]
  omega

/-! ## One byte, and every byte -/

theorem Reading.allowsAll_snoc {maxLine : Nat} {r : Reading} {ended : List (List UInt8)} {raw : List UInt8} :
    r.AllowsAll maxLine (ended ++ [raw]) ↔ r.AllowsAll maxLine ended ∧ (r.lines ended).Allows maxLine raw := by
  induction ended generalizing r with
  | nil => exact ⟨fun h => ⟨trivial, h.1⟩, fun h => ⟨h.2, trivial⟩⟩
  | cons x more ih =>
    show r.Allows maxLine x ∧ (r.line x).AllowsAll maxLine (more ++ [raw]) ↔ _
    rw [ih, ← and_assoc]
    rfl

theorem Reading.lines_snoc (r : Reading) (ended : List (List UInt8)) (raw : List UInt8) :
    r.lines (ended ++ [raw]) = (r.lines ended).line raw := List.foldl_append

theorem Permitted.of_snoc {maxLine : Nat} {r : Reading} {l : Lines} {atCr : Bool} {b : UInt8}
    (h : Permitted maxLine r (l.snoc atCr b)) : Permitted maxLine r l := by
  unfold Lines.snoc at h
  split_ifs at h with h₁ h₂
  · exact h
  · obtain ⟨hall, hlast⟩ := Reading.allowsAll_snoc.1 h.ended
    exact ⟨hall, hlast.length, hlast.not_oversized⟩
  · refine ⟨h.ended, ?_, ?_⟩
    · have := h.length
      simp only [List.length_append] at this
      omega
    · rw [← Option.not_isSome_iff_eq_none]
      intro hs
      have := oversizedMetadata_snoc hs b
      rw [h.metadata] at this
      exact absurd this nofun

theorem Reading.push_toFeed (r : Reading) {maxLine : Nat} {line : List UInt8} {b : UInt8} (pendingCr : Bool)
    (hlen : (line ++ [b]).length ≤ maxLine) (hmeta : oversizedMetadata (line ++ [b]) = none) :
    (r.toFeed maxLine line pendingCr).push b = .ok (r.toFeed maxLine (line ++ [b]) pendingCr) := by
  rw [List.length_append, List.length_singleton] at hlen
  have hroom : ¬(r.toFeed maxLine line pendingCr).parser.maxLine ≤ (r.toFeed maxLine line pendingCr).parser.line.length := by
    show ¬maxLine ≤ line.length
    omega
  have hnone : (if maxEventMetadataBytes < (line ++ [b]).length then oversizedMetadata (line ++ [b]) else none) = none := by
    rw [hmeta, ite_self]
  unfold Feed.push
  simp only
  rw [if_neg hroom]
  split
  · next name hsome => exact absurd (hsome.symm.trans hnone) (Option.some_ne_none name)
  · rfl

theorem Reading.push_refused (r : Reading) {maxLine : Nat} {line : List UInt8} {b : UInt8} (pendingCr : Bool)
    (h : ¬((line ++ [b]).length ≤ maxLine ∧ oversizedMetadata (line ++ [b]) = none)) :
    ∃ e, (r.toFeed maxLine line pendingCr).push b = .error e ∧ e.feed.out = r.events := by
  unfold Feed.push
  simp only
  by_cases hroom : (r.toFeed maxLine line pendingCr).parser.maxLine ≤ (r.toFeed maxLine line pendingCr).parser.line.length
  · rw [if_pos hroom]
    exact ⟨_, rfl, rfl⟩
  · rw [if_neg hroom]
    have hlen : (line ++ [b]).length ≤ maxLine := by
      have hroom' : ¬maxLine ≤ line.length := hroom
      rw [List.length_append, List.length_singleton]
      omega
    obtain ⟨name, hname⟩ := Option.ne_none_iff_exists'.1 fun hn => h ⟨hlen, hn⟩
    have hover : (if maxEventMetadataBytes < (line ++ [b]).length then oversizedMetadata (line ++ [b]) else none) =
        some name := by
      rw [if_pos (length_of_oversized (by rw [hname]; rfl)), hname]
    split
    · exact ⟨_, rfl, rfl⟩
    · next hnone => exact absurd (hover.symm.trans hnone) (by simp)

/-- The parser's state after lines that a reading read. -/
def Reading.at (r : Reading) (maxLine : Nat) (l : Lines) (atCr : Bool) : Feed := (r.lines l.ended).toFeed maxLine l.rest atCr

theorem Reading.byte_toFeed (r : Reading) (maxLine : Nat) (line : List UInt8) (atCr : Bool) (b : UInt8) :
    (r.toFeed maxLine line atCr).byte b =
      if atCr = true ∧ b = lf then .ok (r.toFeed maxLine line false)
      else if b = lf then (r.toFeed maxLine line false).endLine
      else if b = cr then (r.toFeed maxLine line true).endLine
      else (r.toFeed maxLine line false).push b := rfl

theorem Reading.byte_at {r : Reading} {maxLine : Nat} {l : Lines} {atCr : Bool} {b : UInt8}
    (h : Permitted maxLine r (l.snoc atCr b)) :
    (r.at maxLine l atCr).byte b = .ok (r.at maxLine (l.snoc atCr b) (b = cr)) := by
  unfold Reading.at
  rw [Reading.byte_toFeed]
  unfold Lines.snoc at h ⊢
  by_cases h₁ : atCr = true ∧ b = lf
  · rw [if_pos h₁] at h ⊢
    rw [if_pos h₁, h₁.2]
    rfl
  rw [if_neg h₁] at h ⊢
  rw [if_neg h₁]
  by_cases h₂ : b = cr ∨ b = lf
  · rw [if_pos h₂] at h ⊢
    have hlast := (Reading.allowsAll_snoc.1 h.ended).2
    rw [Reading.lines_snoc]
    rcases h₂ with rfl | rfl
    · rw [if_neg (by decide), if_pos rfl]
      exact Reading.endLine_toFeed hlast true
    · rw [if_pos rfl]
      exact Reading.endLine_toFeed hlast false
  · obtain ⟨hcr, hlf⟩ := not_or.1 h₂
    rw [if_neg h₂] at h ⊢
    rw [if_neg hlf, if_neg hcr, decide_eq_false hcr]
    exact Reading.push_toFeed (r.lines l.ended) false h.length h.metadata

theorem Reading.byte_refused {r : Reading} {maxLine : Nat} {l : Lines} {atCr : Bool} {b : UInt8}
    (hl : Permitted maxLine r l) (h : ¬Permitted maxLine r (l.snoc atCr b)) :
    ∃ e, (r.at maxLine l atCr).byte b = .error e ∧ e.feed.out = (r.lines l.ended).events := by
  unfold Reading.at
  rw [Reading.byte_toFeed]
  unfold Lines.snoc at h
  by_cases h₁ : atCr = true ∧ b = lf
  · rw [if_pos h₁] at h
    exact absurd hl h
  rw [if_neg h₁] at h ⊢
  by_cases h₂ : b = cr ∨ b = lf
  · rw [if_pos h₂] at h
    have hlast : ¬(r.lines l.ended).Allows maxLine l.rest := fun ha =>
      h ⟨Reading.allowsAll_snoc.2 ⟨hl.ended, ha⟩, Nat.zero_le _, rfl⟩
    rcases h₂ with rfl | rfl
    · rw [if_neg (by decide), if_pos rfl]
      exact Reading.endLine_refused hl.length hlast true
    · rw [if_pos rfl]
      exact Reading.endLine_refused hl.length hlast false
  · obtain ⟨hcr, hlf⟩ := not_or.1 h₂
    rw [if_neg h₂] at h
    rw [if_neg hlf, if_neg hcr]
    exact Reading.push_refused (r.lines l.ended) false fun hp => h ⟨hl.ended, hp.1, hp.2⟩

theorem Reading.line_events (r : Reading) (raw : List UInt8) :
    ∃ new, (r.line raw).events = r.events ++ new ∧ new.length ≤ 1 := by
  unfold Reading.line
  simp only
  split_ifs
  · by_cases hd : r.data = []
    · exact ⟨[], (if_pos hd).trans (List.append_nil _).symm, Nat.zero_le 1⟩
    · exact ⟨_, if_neg hd, le_rfl⟩
  · refine ⟨[], ?_, Nat.zero_le 1⟩
    unfold Reading.field
    split_ifs <;> exact (List.append_nil _).symm

theorem Reading.lines_events_length (r : Reading) (ended : List (List UInt8)) :
    (r.lines ended).events.length ≤ r.events.length + ended.length := by
  induction ended generalizing r with
  | nil => exact le_rfl
  | cons raw more ih =>
    obtain ⟨new, hnew, hlen⟩ := r.line_events raw
    have := ih (r.line raw)
    rw [hnew, List.length_append] at this
    rw [List.length_cons]
    show ((r.line raw).lines more).events.length ≤ _
    omega

theorem Lines.length_snoc_le (l : Lines) (atCr : Bool) (b : UInt8) :
    (l.snoc atCr b).ended.length ≤ l.ended.length + 1 := by
  unfold Lines.snoc
  split_ifs <;> simp

theorem length_splitLines_le (bytes : List UInt8) : (splitLines bytes).ended.length ≤ bytes.length := by
  induction bytes using List.reverseRecOn with
  | nil => exact le_rfl
  | append_singleton bytes b ih =>
    have := (splitLines bytes).length_snoc_le (endsCr bytes) b
    rw [splitLines_snoc, List.length_append, List.length_singleton]
    omega

theorem endsCr_snoc (bytes : List UInt8) (b : UInt8) : endsCr (bytes ++ [b]) = decide (b = cr) := by
  unfold endsCr
  simp

section Bytes
variable {r : Reading} {maxLine limit : Nat}

variable (r maxLine) in
theorem Reading.events_length_lt {bytes : List UInt8} {b : UInt8}
    (hlimit : r.events.length + (bytes ++ [b]).length ≤ limit) :
    ¬limit ≤ (r.at maxLine (splitLines bytes) (endsCr bytes)).out.length := by
  have h₁ := r.lines_events_length (splitLines bytes).ended
  have h₂ := length_splitLines_le bytes
  rw [List.length_append, List.length_singleton] at hlimit
  show ¬limit ≤ (r.lines (splitLines bytes).ended).events.length
  omega

/-- A permitted stream is parsed to its end. -/
theorem feedBytes_ok {bytes : List UInt8} (hlimit : r.events.length + bytes.length ≤ limit)
    (h : Permitted maxLine r (splitLines bytes)) :
    (r.toFeed maxLine [] false).feedBytes limit bytes = .ok (r.at maxLine (splitLines bytes) (endsCr bytes)) := by
  induction bytes using List.reverseRecOn with
  | nil => rfl
  | append_singleton bytes b ih =>
    have hnot := r.events_length_lt maxLine hlimit
    rw [splitLines_snoc] at h
    rw [List.length_append] at hlimit
    rw [Feed.feedBytes_append, ih (by omega) h.of_snoc, splitLines_snoc, endsCr_snoc]
    show Feed.feedBytes limit _ [b] = _
    unfold Feed.feedBytes
    rw [if_neg hnot, Reading.byte_at h]
    rfl

/-- Any other stream is refused, and what it dispatched by then are the first events of its reading. -/
theorem feedBytes_refused {bytes : List UInt8} (hlimit : r.events.length + bytes.length ≤ limit)
    (h : ¬Permitted maxLine r (splitLines bytes)) :
    ∃ e, (r.toFeed maxLine [] false).feedBytes limit bytes = .error e ∧
      e.feed.out <+: (r.lines (splitLines bytes).ended).events := by
  induction bytes using List.reverseRecOn with
  | nil => exact absurd ⟨trivial, Nat.zero_le _, by decide⟩ h
  | append_singleton bytes b ih =>
    have hnot := r.events_length_lt maxLine hlimit
    have hgrow : (r.lines (splitLines bytes).ended).events <+: (r.lines (splitLines (bytes ++ [b])).ended).events := by
      rw [splitLines_snoc]
      unfold Lines.snoc
      split_ifs
      · exact List.prefix_rfl
      · obtain ⟨new, hnew, -⟩ := (r.lines (splitLines bytes).ended).line_events (splitLines bytes).rest
        rw [Reading.lines_snoc, hnew]
        exact List.prefix_append _ _
      · exact List.prefix_rfl
    rw [List.length_append] at hlimit
    rw [Feed.feedBytes_append]
    by_cases hp : Permitted maxLine r (splitLines bytes)
    · rw [splitLines_snoc] at h
      obtain ⟨e, he, hout⟩ := Reading.byte_refused hp h
      rw [feedBytes_ok (by omega) hp]
      refine ⟨e, ?_, by rw [hout]; exact hgrow⟩
      show Feed.feedBytes limit _ [b] = _
      unfold Feed.feedBytes
      rw [if_neg hnot, he]
      rfl
    · obtain ⟨e, he, hout⟩ := ih (by omega) hp
      rw [he]
      exact ⟨e, rfl, hout.trans hgrow⟩

end Bytes

/-! ## The start of a stream -/

theorem matchBom_cases (stream : List UInt8) :
    (∃ t, stream = bom ++ t ∧ Feed.matchBom 0 stream = (bom.length, t)) ∨
    ∃ k < bom.length, ∃ rest, stream = bom.take k ++ rest ∧ Feed.matchBom 0 stream = (k, rest) ∧
      dropPrefix bom stream = none := by
  match stream with
  | [] => exact .inr ⟨0, by decide, [], rfl, rfl, rfl⟩
  | b :: t =>
    by_cases hb : b = 0xEF
    · subst hb
      match t with
      | [] => exact .inr ⟨1, by decide, [], rfl, rfl, rfl⟩
      | c :: t =>
        by_cases hc : c = 0xBB
        · subst hc
          match t with
          | [] => exact .inr ⟨2, by decide, [], rfl, rfl, rfl⟩
          | d :: t =>
            by_cases hd : d = 0xBF
            · subst hd
              exact .inl ⟨t, rfl, by cases t <;> rfl⟩
            · refine .inr ⟨2, by decide, d :: t, rfl, ?_, ?_⟩ <;> simp [Feed.matchBom, dropPrefix, bom, Ne.symm hd]
        · refine .inr ⟨1, by decide, c :: t, rfl, ?_, ?_⟩ <;> simp [Feed.matchBom, dropPrefix, bom, Ne.symm hc]
    · refine .inr ⟨0, by decide, b :: t, rfl, ?_, ?_⟩ <;> simp [Feed.matchBom, dropPrefix, bom, Ne.symm hb]

theorem splitLines_bom {k : Nat} (hk : k < bom.length) :
    stripBom (bom.take k) = bom.take k ∧ splitLines (bom.take k) = ⟨[], bom.take k⟩ := by
  have hk3 : k < 3 := hk
  interval_cases k <;> decide

theorem length_stripBom_le (stream : List UInt8) : (stripBom stream).length ≤ stream.length := by
  unfold stripBom
  cases h : dropPrefix bom stream with
  | none => exact le_rfl
  | some t =>
    rw [dropPrefix_eq_some.1 h, List.length_append]
    exact Nat.le_add_left _ _

/-- A parser at the start of a connection. -/
def startFeed (maxLine : Nat) (id : Option Text) (retry : Option Nat) : Feed where
  parser := { lastEventId := id, retryMs := retry, maxLine }

def startReading (id : Option Text) (retry : Option Nat) : Reading where
  lastEventId := id
  retry

section Start
variable (maxLine : Nat) (id : Option Text) {retry : Option Nat} (hretry : retry.filter (· ≤ u64Max) = retry)
include hretry

theorem startFeed_decided : (startFeed maxLine id retry).decided = (startReading id retry).toFeed maxLine [] false := by
  unfold startReading Reading.toFeed
  simp only
  rw [hretry]
  rfl

/-- With the BOM decided, a connection's bytes are those after it; a held back part of a BOM is no line's end. -/
theorem feedLimited_start {limit : Nat} (hlimit : 0 < limit) (stream : List UInt8) :
    (startFeed maxLine id retry).feedLimited limit stream =
      ((startReading id retry).toFeed maxLine [] false).feedBytes limit (stripBom stream) ∨
    ∃ k < bom.length, stream = bom.take k ∧ (startFeed maxLine id retry).feedLimited limit stream =
      .ok { parser := { (startFeed maxLine id retry).parser with bomMatched := k } } := by
  have hopen : ¬limit ≤ (startFeed maxLine id retry).out.length := Nat.not_le.2 hlimit
  unfold stripBom
  rcases matchBom_cases stream with ⟨t, rfl, hm⟩ | ⟨k, hk, rest, hs, hm, hd⟩
  · left
    rw [dropPrefix_eq_some.2 (show bom ++ t = bom ++ t from rfl), ← startFeed_decided maxLine id hretry,
      Feed.feedLimited_of_unchecked hopen nofun hm, if_pos rfl]
    rfl
  · have hk' : k ≠ bom.length := by omega
    rw [hd, Feed.feedLimited_of_unchecked hopen nofun hm, if_neg hk']
    by_cases hr : rest = []
    · right
      rw [if_pos hr]
      exact ⟨k, hk, by rw [hs, hr, List.append_nil], rfl⟩
    · left
      rw [if_neg hr, startFeed_decided maxLine id hretry, ← Feed.feedBytes_append, ← hs]
      rfl

/-! ## The whole stream -/

section Whole
variable {limit : Nat} {stream : List UInt8} (hlimit : stream.length < limit)
include hlimit

/-- A permitted connection leaves the parser with what its reading says. -/
theorem feedLimited_start_ok (h : Permitted maxLine (startReading id retry) (splitLines (stripBom stream))) :
    ∃ s, (startFeed maxLine id retry).feedLimited limit stream = .ok s ∧
      s.out = ((startReading id retry).lines (splitLines (stripBom stream)).ended).events ∧
      s.parser.lastEventId = ((startReading id retry).lines (splitLines (stripBom stream)).ended).lastEventId ∧
      s.parser.retryMs = (((startReading id retry).lines (splitLines (stripBom stream)).ended).retry).filter
        (· ≤ u64Max) ∧ s.parser.maxLine = maxLine := by
  rcases feedLimited_start maxLine id hretry (show 0 < limit by omega) stream with hfeed | ⟨k, hk, rfl, hfeed⟩
  · have hlen : (startReading id retry).events.length + (stripBom stream).length ≤ limit := by
      have := length_stripBom_le stream
      show 0 + (stripBom stream).length ≤ limit
      omega
    rw [hfeed, feedBytes_ok hlen h]
    exact ⟨_, rfl, rfl, rfl, rfl, rfl⟩
  · obtain ⟨hstrip, hsplit⟩ := splitLines_bom hk
    rw [hfeed, hstrip, hsplit]
    exact ⟨_, rfl, rfl, rfl, hretry.symm, rfl⟩

theorem feedLimited_start_refused (hmax : 1024 ≤ maxLine)
    (h : ¬Permitted maxLine (startReading id retry) (splitLines (stripBom stream))) :
    ∃ e, (startFeed maxLine id retry).feedLimited limit stream = .error e ∧
      e.feed.out <+: ((startReading id retry).lines (splitLines (stripBom stream)).ended).events := by
  rcases feedLimited_start maxLine id hretry (show 0 < limit by omega) stream with hfeed | ⟨k, hk, rfl, hfeed⟩
  · have hlen : (startReading id retry).events.length + (stripBom stream).length ≤ limit := by
      have := length_stripBom_le stream
      show 0 + (stripBom stream).length ≤ limit
      omega
    rw [hfeed]
    exact feedBytes_refused hlen h
  · obtain ⟨hstrip, hsplit⟩ := splitLines_bom hk
    rw [hstrip, hsplit] at h
    have hk3 : k < 3 := hk
    have hmeta : oversizedMetadata (bom.take k) = none := by interval_cases k <;> decide
    have hlen : (bom.take k).length ≤ maxLine := by
      rw [List.length_take]
      omega
    exact absurd ⟨trivial, hlen, hmeta⟩ h

end Whole

end Start

/-! ## The last retry -/

/-- A field that some elements of a list set holds what the last of them set. -/
theorem foldl_getLast? {σ α β : Type} (f : σ → α → σ) (g : σ → Option β) (h : α → Option β)
    (hf : ∀ s x, g (f s x) = (h x).or (g s)) (s : σ) (l : List α) :
    g (l.foldl f s) = ((l.filterMap h).getLast?).or (g s) := by
  induction l generalizing s with
  | nil => rfl
  | cons x more ih =>
    rw [List.foldl_cons, ih, hf]
    cases hx : h x with
    | none => rw [List.filterMap_cons_none hx, Option.none_or]
    | some n =>
      rw [List.filterMap_cons_some hx, List.getLast?_cons]
      cases (more.filterMap h).getLast? <;> rfl

theorem Reading.line_retry (r : Reading) (raw : List UInt8) : (r.line raw).retry = (retryOf raw).or r.retry := by
  unfold Reading.line retryOf
  simp only
  by_cases hnil : fromUtf8Lossy raw = []
  · rw [if_pos hnil, hnil, if_neg (by decide)]
    rfl
  rw [if_neg hnil]
  generalize fieldName (fromUtf8Lossy raw) = name
  generalize fieldValue (fromUtf8Lossy raw) = value
  unfold Reading.field
  by_cases hr : name = "retry".toList
  · subst hr
    rw [if_neg (by decide), if_neg (by decide), if_neg (by decide), if_pos rfl]
    by_cases hv : value ≠ [] ∧ value.all Char.isDigit = true
    · rw [if_pos hv, if_pos ⟨rfl, hv⟩]
      rfl
    · rw [if_neg hv, if_neg fun h => hv h.2]
      rfl
  · have hnone : ¬(name = "retry".toList ∧ value ≠ [] ∧ value.all Char.isDigit = true) := fun h => hr h.1
    simp only [if_neg hr, if_neg hnone]
    split_ifs <;> rfl

/-- The value of the last `retry` line with digits only. -/
def lastRetry (stream : List UInt8) : Option Nat := ((splitLines (stripBom stream)).ended.filterMap retryOf).getLast?

theorem Reading.lines_retry (r : Reading) (ended : List (List UInt8)) :
    (r.lines ended).retry = ((ended.filterMap retryOf).getLast?).or r.retry :=
  foldl_getLast? Reading.line Reading.retry retryOf Reading.line_retry r ended

/-! ## The parser meets the format -/

def dispatched : Except Refused Feed → List SseEvent
  | .ok s => s.out
  | .error e => e.feed.out

def newFeed (maxLine : Nat) : Feed := ⟨SseParser.new maxLine, []⟩

/-- What the parser owes the format on one stream: no chunking shows, a stream it accepts is read as the format says,
and no event of any stream lost a part. -/
structure MeetsFormat (maxLine : Nat) (stream : List UInt8) : Prop where
  chunks : ∀ chunks : List (List UInt8), chunks.flatten = stream →
    (newFeed maxLine).feedChunks chunks = (newFeed maxLine).feed stream
  accepted : ∀ s, (newFeed maxLine).feed stream = .ok s → s.out = (reference stream).events ∧
    s.parser.lastEventId = (reference stream).lastEventId ∧ s.parser.retryMs = (reference stream).retry
  whole : dispatched ((newFeed maxLine).feed stream) <+: (reference stream).events

/-- **The parser meets the format on a stream unless the limits permit the stream and its last numeric retry does not
fit 64 bits.** -/
theorem meetsFormat_iff (maxLine : Nat) (stream : Slice) : MeetsFormat maxLine stream.bytes ↔
    (Permitted (max maxLine 1024) {} (splitLines (stripBom stream.bytes)) →
      ∀ n, lastRetry stream.bytes = some n → n ≤ u64Max) := by
  have hlimit : stream.bytes.length < usizeMax := by
    have := stream.length_le
    unfold isizeMax at this
    unfold usizeMax
    omega
  have hretry : (reference stream.bytes).retry = lastRetry stream.bytes := by
    unfold reference lastRetry
    rw [Reading.lines_retry, Option.or_none]
  have hchunks : ∀ chunks : List (List UInt8), chunks.flatten = stream.bytes →
      (newFeed maxLine).feedChunks chunks = (newFeed maxLine).feed stream.bytes := fun chunks hc => by
    rw [Feed.feedChunks_eq_feed (show 0 < bom.length by decide), hc]
  by_cases hp : Permitted (max maxLine 1024) {} (splitLines (stripBom stream.bytes))
  · obtain ⟨s, hs, hout, hid, hms, -⟩ := feedLimited_start_ok (max maxLine 1024) none (Option.filter_none _) hlimit hp
    have hfits : s.parser.retryMs = (lastRetry stream.bytes).filter (· ≤ u64Max) := by
      rw [← hretry]
      exact hms
    have hfeed : (newFeed maxLine).feed stream.bytes = .ok s := hs
    constructor
    · intro h _ n hn
      have := (h.accepted s hfeed).2.2
      rw [hfits, hretry, hn, Option.filter_some] at this
      by_contra hlt
      rw [if_neg (by simpa using hlt)] at this
      exact absurd this nofun
    · intro h
      refine ⟨hchunks, fun s' hs' => ?_, ?_⟩
      · obtain rfl : s = s' := Except.ok.inj (hfeed.symm.trans hs')
        refine ⟨hout, hid, ?_⟩
        rw [hfits, hretry]
        cases hl : lastRetry stream.bytes with
        | none => rfl
        | some n => rw [Option.filter_some, if_pos (by simpa using h hp n hl)]
      · rw [hfeed]
        show s.out <+: _
        rw [hout]
        exact List.prefix_rfl
  · obtain ⟨e, he, hout⟩ :=
      feedLimited_start_refused (max maxLine 1024) none (Option.filter_none _) hlimit (Nat.le_max_right _ _) hp
    have hfeed : (newFeed maxLine).feed stream.bytes = .error e := he
    refine ⟨fun _ hp' => absurd hp' hp, fun _ => ⟨hchunks, fun s hs => ?_, ?_⟩⟩
    · rw [hfeed] at hs
      exact absurd hs nofun
    · rw [hfeed]
      exact hout

/-- `retry: 5` and then `retry: 18446744073709551616`. -/
def retryOverflow : List UInt8 :=
  [0x72, 0x65, 0x74, 0x72, 0x79, 0x3A, 0x20, 0x35, 0x0A, 0x72, 0x65, 0x74, 0x72, 0x79, 0x3A, 0x20] ++
  [0x31, 0x38, 0x34, 0x34, 0x36, 0x37, 0x34, 0x34, 0x30, 0x37, 0x33, 0x37, 0x30, 0x39, 0x35, 0x35, 0x31, 0x36, 0x31,
   0x36, 0x0A]

/-- **A retry that does not fit 64 bits takes the earlier retry away.** -/
theorem retryOverflow_erases : (∃ s, (newFeed 1024).feed retryOverflow = .ok s ∧ s.parser.retryMs = none) ∧
    (reference retryOverflow).retry = some (2 ^ 64) ∧ ¬MeetsFormat 1024 retryOverflow := by
  have hfeed : ((newFeed 1024).feed retryOverflow).toOption.map (·.parser.retryMs) = some none := by decide
  have href : (reference retryOverflow).retry = some (2 ^ 64) := by decide
  obtain ⟨s, hs, hnone⟩ := Option.map_eq_some_iff.1 hfeed
  have hok : (newFeed 1024).feed retryOverflow = .ok s := by
    cases h : (newFeed 1024).feed retryOverflow with
    | error e => rw [h] at hs; exact absurd hs nofun
    | ok s' =>
      rw [h] at hs
      exact congrArg _ (Option.some.inj hs)
  refine ⟨⟨s, hok, hnone⟩, href, fun h => ?_⟩
  have := (h.accepted s hok).2.2
  rw [hnone, href] at this
  exact absurd this nofun
end Anvil.Sse
