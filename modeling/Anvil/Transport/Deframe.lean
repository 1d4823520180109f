import Anvil.Lib.Splitter
import Anvil.Lib.Wire

/-!
# Frames of a raw TCP exchange (`anvil-transport/src/rawtcp.rs`)

Received bytes are split with the framing preset that payloads are sent with.

* `encodeFrame`, `Deframer.push` : a payload framed, and a chunk split; `receive` : chunk after chunk, until one fails;
* `lines`, `prefixed` : the presets as splitters, of which a push runs one;
* `receive_prefixed`, `receive_newline` : what any cut of a stream gives, against the stream read whole;
* `deframe_exact` : the presets together.
-/

namespace Anvil.RawTcp
open Anvil.Lib

abbrev Bytes := List UInt8

inductive TcpFraming
  | none
  | newlineDelimited
  | lengthPrefixedU16
  | lengthPrefixedU32
deriving DecidableEq

/-! ## Sending -/

def newline : UInt8 := 0x0A

/-- Apply a framing preset to one payload. -/
def encodeFrame (framing : TcpFraming) (payload : Bytes) : Except String Bytes :=
  match framing with
  | .none => .ok payload
  | .newlineDelimited => .ok (if payload.getLast? = some newline then payload else payload ++ [newline])
  | .lengthPrefixedU16 =>
    if payload.length < 2 ^ 16 then .ok (beBytes 2 payload.length ++ payload)
    else .error ("a " ++ toString payload.length ++ "-byte payload does not fit a u16 length prefix")
  | .lengthPrefixedU32 =>
    if payload.length < 2 ^ 32 then .ok (beBytes 4 payload.length ++ payload)
    else .error "payload does not fit a u32 length prefix"

/-! ## Receiving -/

def noNewline (maxFrame : Nat) : String := "no newline within " ++ toString maxFrame ++ " bytes"

def frameTooLong (len maxFrame : Nat) : String :=
  "a received frame declares " ++ toString len ++ " bytes, above the local limit of " ++ toString maxFrame

/-- A line without its CR. -/
def trimCr (line : Bytes) : Bytes := if line.getLast? = some 0x0D then line.dropLast else line

/-- The line up to the first newline, and what follows it. -/
def nextLine (buf : Bytes) : Option (Bytes × Bytes) :=
  (buf.findIdx? (· = newline)).map fun i => (trimCr (buf.take i), buf.drop (i + 1))

/-- The frame behind a length of `hl` bytes. -/
def nextPrefixed (hl maxFrame : Nat) (buf : Bytes) : Except String (Option (Bytes × Bytes)) :=
  if buf.length < hl then .ok none
  else if maxFrame < ofBeBytes (buf.take hl) then .error (frameTooLong (ofBeBytes (buf.take hl)) maxFrame)
  else if buf.length < hl + ofBeBytes (buf.take hl) then .ok none
  else .ok (some ((buf.drop hl).take (ofBeBytes (buf.take hl)), buf.drop (hl + ofBeBytes (buf.take hl))))

/-- One round of the loop of a push. -/
def nextFrame (framing : TcpFraming) (maxFrame : Nat) (buf : Bytes) : Except String (Option (Bytes × Bytes)) :=
  match framing with
  | .none => .ok none
  | .newlineDelimited =>
    match nextLine buf with
    | some p => .ok (some p)
    | none => if maxFrame < buf.length then .error (noNewline maxFrame) else .ok none
  | .lengthPrefixedU16 => nextPrefixed 2 maxFrame buf
  | .lengthPrefixedU32 => nextPrefixed 4 maxFrame buf

theorem nextLine_shorter {buf f rest : Bytes} (h : nextLine buf = some (f, rest)) : rest.length < buf.length := by
  obtain ⟨i, hi, hf⟩ := Option.map_eq_some_iff.1 h
  obtain ⟨-, rfl⟩ := Prod.mk.inj hf
  have hlt := (List.findIdx?_eq_some_iff_getElem.1 hi).1
  rw [List.length_drop]
  omega

theorem nextPrefixed_piece {hl maxFrame : Nat} {buf : Bytes} {p : Bytes × Bytes} :
    nextPrefixed hl maxFrame buf = .ok (some p) ↔ hl + ofBeBytes (buf.take hl) ≤ buf.length ∧
      ofBeBytes (buf.take hl) ≤ maxFrame ∧
      p = ((buf.drop hl).take (ofBeBytes (buf.take hl)), buf.drop (hl + ofBeBytes (buf.take hl))) := by
  unfold nextPrefixed
  split_ifs with hshort hlong hpart
  · simp only [Except.ok.injEq, reduceCtorEq, false_iff]
    omega
  · simp only [false_iff]
    omega
  · simp only [Except.ok.injEq, reduceCtorEq, false_iff]
    omega
  · rw [Except.ok.injEq, Option.some.injEq, eq_comm]
    exact ⟨fun h => ⟨by omega, by omega, h⟩, fun h => h.2.2⟩

theorem nextPrefixed_error {hl maxFrame : Nat} {buf : Bytes} {e : String} :
    nextPrefixed hl maxFrame buf = .error e ↔ hl ≤ buf.length ∧ maxFrame < ofBeBytes (buf.take hl) ∧
      e = frameTooLong (ofBeBytes (buf.take hl)) maxFrame := by
  unfold nextPrefixed
  split_ifs with hshort hlong hpart
  · simp only [false_iff]
    omega
  · rw [Except.error.injEq, eq_comm]
    exact ⟨fun h => ⟨by omega, hlong, h⟩, fun h => h.2.2⟩
  · simp only [false_iff]
    omega
  · simp only [false_iff]
    omega

theorem nextPrefixed_shorter {hl maxFrame : Nat} (hhl : 0 < hl) {buf f rest : Bytes}
    (h : nextPrefixed hl maxFrame buf = .ok (some (f, rest))) : rest.length < buf.length := by
  obtain ⟨hlen, -, hp⟩ := nextPrefixed_piece.1 h
  obtain ⟨-, rfl⟩ := Prod.mk.inj hp
  rw [List.length_drop]
  omega

theorem nextFrame_shorter {framing : TcpFraming} {maxFrame : Nat} {buf f rest : Bytes}
    (h : nextFrame framing maxFrame buf = .ok (some (f, rest))) : rest.length < buf.length := by
  cases framing with
  | none => cases h
  | newlineDelimited =>
    simp only [nextFrame] at h
    split at h
    · rename_i p hp
      rw [Option.some.inj (Except.ok.inj h)] at hp
      exact nextLine_shorter hp
    · split at h <;> cases h
  | lengthPrefixedU16 => exact nextPrefixed_shorter Nat.two_pos h
  | lengthPrefixedU32 => exact nextPrefixed_shorter (Nat.succ_pos 3) h

/-- The loop: the frames, the error that ended it, and the buffer it leaves. -/
def split (framing : TcpFraming) (maxFrame : Nat) (buf : Bytes) : Drained UInt8 Bytes String :=
  match _h : nextFrame framing maxFrame buf with
  | .error e => ⟨[], some e, buf⟩
  | .ok none => ⟨[], none, buf⟩
  | .ok (some (f, rest)) => Drained.followedBy ⟨[f], none, rest⟩ (split framing maxFrame rest)
termination_by buf.length
decreasing_by exact nextFrame_shorter _h

/-- The incremental splitter of a preset. -/
structure Deframer where
  framing : TcpFraming
  buf : Bytes := []
  maxFrame : Nat
deriving DecidableEq

namespace Deframer

def new (framing : TcpFraming) (maxFrame : Nat) : Deframer := { framing, maxFrame := max maxFrame 1 }

/-- A chunk: the frames it completes, or an error in their place. -/
def push (d : Deframer) (data : Bytes) : Except String (List Bytes) × Deframer :=
  if d.framing = .none then (.ok [data], d)
  else
    let r := split d.framing d.maxFrame (d.buf ++ data)
    (match r.error with
      | some e => .error e
      | none => .ok r.pieces, { d with buf := r.rest })

/-- Chunk after chunk until one fails: the frames delivered, the error, and the bytes left over. -/
def receive (d : Deframer) : List Bytes → Drained UInt8 Bytes String
  | [] => ⟨[], none, d.buf⟩
  | c :: chunks =>
    match d.push c with
    | (.ok fs, d) => Drained.followedBy ⟨fs, none, d.buf⟩ (d.receive chunks)
    | (.error e, d) => ⟨[], some e, d.buf⟩

end Deframer

/-! ## The presets as splitters -/

theorem nextLine_append {buf : Bytes} {p : Bytes × Bytes} (h : nextLine buf = some p) (more : Bytes) :
    nextLine (buf ++ more) = some (p.1, p.2 ++ more) := by
  obtain ⟨i, hi, rfl⟩ := Option.map_eq_some_iff.1 h
  have hlt := (List.findIdx?_eq_some_iff_getElem.1 hi).1
  unfold nextLine
  rw [List.findIdx?_append, hi, Option.some_or, Option.map_some, List.take_append_of_le_length hlt.le,
    List.drop_append_of_le_length hlt]

/-- Lines; a splitter of lines never fails. -/
def lines : Splitter UInt8 Bytes String where
  next buf := .ok (nextLine buf)
  next_nil := rfl
  shorter h := nextLine_shorter (Except.ok.inj h)
  piece_append h more := congrArg Except.ok (nextLine_append (Except.ok.inj h) more)
  error_append h := by cases h

/-- Frames behind lengths of `hl` bytes. -/
def prefixed (hl maxFrame : Nat) (hhl : 0 < hl) : Splitter UInt8 Bytes String where
  next := nextPrefixed hl maxFrame
  next_nil := if_pos hhl
  shorter h := nextPrefixed_shorter hhl h
  piece_append := by
    intro buf f rest h more
    obtain ⟨hlen, hmax, hp⟩ := nextPrefixed_piece.1 h
    obtain ⟨rfl, rfl⟩ := Prod.mk.inj hp
    have htake : (buf ++ more).take hl = buf.take hl := List.take_append_of_le_length (by omega)
    refine nextPrefixed_piece.2 ⟨?_, ?_, ?_⟩
    · rw [htake, List.length_append]
      omega
    · rwa [htake]
    · rw [htake, List.drop_append_of_le_length (by omega), List.drop_append_of_le_length hlen,
        List.take_append_of_le_length (by rw [List.length_drop]; omega)]
  error_append := by
    intro buf e h more
    obtain ⟨hlen, hlong, he⟩ := nextPrefixed_error.1 h
    have htake : (buf ++ more).take hl = buf.take hl := List.take_append_of_le_length hlen
    refine nextPrefixed_error.2 ⟨?_, ?_, ?_⟩
    · rw [List.length_append]
      omega
    · rwa [htake]
    · rwa [htake]

theorem split_error {framing : TcpFraming} {maxFrame : Nat} {buf : Bytes} {e : String}
    (h : nextFrame framing maxFrame buf = .error e) : split framing maxFrame buf = ⟨[], some e, buf⟩ := by
  rw [split]
  split <;> simp_all

theorem split_none {framing : TcpFraming} {maxFrame : Nat} {buf : Bytes}
    (h : nextFrame framing maxFrame buf = .ok none) : split framing maxFrame buf = ⟨[], none, buf⟩ := by
  rw [split]
  split <;> simp_all

theorem split_piece {framing : TcpFraming} {maxFrame : Nat} {buf f rest : Bytes}
    (h : nextFrame framing maxFrame buf = .ok (some (f, rest))) :
    split framing maxFrame buf = Drained.followedBy ⟨[f], none, rest⟩ (split framing maxFrame rest) := by
  rw [split]
  split <;> simp_all

/-- A push of length-prefixed bytes drains their splitter. -/
theorem split_prefixed {framing : TcpFraming} {hl maxFrame : Nat} (hhl : 0 < hl)
    (hf : nextFrame framing maxFrame = nextPrefixed hl maxFrame) (buf : Bytes) :
    split framing maxFrame buf = (prefixed hl maxFrame hhl).drain buf := by
  obtain ⟨e, h⟩ | h | ⟨f, rest, h⟩ := (prefixed hl maxFrame hhl).next_cases buf
  · rw [Splitter.drain_error h, split_error ((congrFun hf buf).trans h)]
  · rw [Splitter.drain_none h, split_none ((congrFun hf buf).trans h)]
  · have hless := (prefixed hl maxFrame hhl).shorter h
    rw [Splitter.drain_piece h, split_piece ((congrFun hf buf).trans h), split_prefixed hhl hf rest]
termination_by buf.length

/-- A push of lines drains theirs, and then looks at the line that is left. -/
theorem split_newline (maxFrame : Nat) (buf : Bytes) : split .newlineDelimited maxFrame buf =
    ⟨(lines.drain buf).pieces, if maxFrame < (lines.drain buf).rest.length then some (noNewline maxFrame) else none,
      (lines.drain buf).rest⟩ := by
  cases hline : nextLine buf with
  | none =>
    have hdrain : lines.drain buf = ⟨[], none, buf⟩ := Splitter.drain_none (congrArg Except.ok hline)
    rw [hdrain]
    simp only
    split_ifs with hlong
    · exact split_error (by simp only [nextFrame, hline, if_pos hlong])
    · exact split_none (by simp only [nextFrame, hline, if_neg hlong])
  | some p =>
    have hless : p.2.length < buf.length := nextLine_shorter hline
    have hdrain : lines.drain buf = Drained.followedBy ⟨[p.1], none, p.2⟩ (lines.drain p.2) :=
      Splitter.drain_piece (congrArg Except.ok hline)
    rw [@split_piece _ _ _ p.1 p.2 (by simp only [nextFrame, hline]), split_newline maxFrame p.2, hdrain]
    rfl
termination_by buf.length

/-! ## Any cut of a stream -/

namespace Deframer

theorem receive_error {d : Deframer} {c : Bytes} {chunks : List Bytes} (hf : d.framing ≠ .none) {e : String}
    (h : (split d.framing d.maxFrame (d.buf ++ c)).error = some e) :
    d.receive (c :: chunks) = ⟨[], some e, (split d.framing d.maxFrame (d.buf ++ c)).rest⟩ := by
  simp only [receive, push, if_neg hf, h]

theorem receive_ok {d : Deframer} {c : Bytes} {chunks : List Bytes} (hf : d.framing ≠ .none)
    (h : (split d.framing d.maxFrame (d.buf ++ c)).error = none) : d.receive (c :: chunks) =
      (split d.framing d.maxFrame (d.buf ++ c)).followedBy
        ({ d with buf := (split d.framing d.maxFrame (d.buf ++ c)).rest }.receive chunks) := by
  simp only [receive, push, if_neg hf, h, Drained.followedBy]

/-- What a cut of a stream shows of the stream read whole: the frames before an error, and every frame if there is none. -/
structure Shows (cut whole : Drained UInt8 Bytes String) : Prop where
  delivered : cut.pieces <+: whole.pieces
  all : cut.error = none → cut.pieces = whole.pieces ∧ cut.rest = whole.rest
  fails : whole.error.isSome → cut.error.isSome

/-- Frames delivered before what a cut shows are shown too. -/
theorem Shows.followedBy {cut whole : Drained UInt8 Bytes String} (h : Shows cut whole) (d : Drained UInt8 Bytes String)
    (hd : d.error = none) : Shows (d.followedBy cut) (d.followedBy whole) := by
  refine ⟨(List.prefix_append_right_inj _).2 h.delivered, fun hnone => ?_, ?_⟩
  · simp only [Drained.followedBy, hd] at hnone ⊢
    exact ⟨congrArg _ (h.all hnone).1, (h.all hnone).2⟩
  · simp only [Drained.followedBy, hd]
    exact h.fails

theorem receive_prefixed {hl : Nat} (hhl : 0 < hl) (chunks : List Bytes) : ∀ (d : Deframer), d.framing ≠ .none →
    nextFrame d.framing d.maxFrame = nextPrefixed hl d.maxFrame →
    (prefixed hl d.maxFrame hhl).drain d.buf = ⟨[], none, d.buf⟩ →
    Shows (d.receive chunks) ((prefixed hl d.maxFrame hhl).drain (d.buf ++ chunks.flatten)) ∧
      (d.receive chunks).error = ((prefixed hl d.maxFrame hhl).drain (d.buf ++ chunks.flatten)).error := by
  induction chunks with
  | nil =>
    intro d _ _ hquiet
    rw [List.flatten_nil, List.append_nil, hquiet]
    exact ⟨⟨List.prefix_refl _, fun _ => ⟨rfl, rfl⟩, fun h => (by cases h)⟩, rfl⟩
  | cons c chunks ih =>
    intro d hf hnext hquiet
    have hsplit := split_prefixed hhl hnext (d.buf ++ c)
    rw [List.flatten_cons, ← List.append_assoc, Splitter.drain_append, Splitter.feed]
    cases herror : ((prefixed hl d.maxFrame hhl).drain (d.buf ++ c)).error with
    | some e =>
      rw [receive_error hf (hsplit ▸ herror)]
      refine ⟨⟨List.nil_prefix, fun h => (by cases h), fun _ => rfl⟩, ?_⟩
      simp only [Drained.followedBy, herror]
      rfl
    | none =>
      rw [receive_ok hf (hsplit ▸ herror), hsplit]
      have hrest := ih { d with buf := ((prefixed hl d.maxFrame hhl).drain (d.buf ++ c)).rest } hf hnext
        ((prefixed hl d.maxFrame hhl).drain_rest herror)
      refine ⟨hrest.1.followedBy _ herror, ?_⟩
      simp only [Drained.followedBy, herror]
      exact hrest.2

/-- The line that is left has no newline. -/
theorem lines_rest (buf : Bytes) : (lines.drain buf).rest <:+ buf ∧ newline ∉ (lines.drain buf).rest := by
  cases hline : nextLine buf with
  | none =>
    have hdrain : lines.drain buf = ⟨[], none, buf⟩ := Splitter.drain_none (congrArg Except.ok hline)
    rw [hdrain]
    refine ⟨List.suffix_refl _, fun hmem => ?_⟩
    have hnone := List.findIdx?_eq_none_iff.1 (Option.map_eq_none_iff.1 hline) newline hmem
    simp at hnone
  | some p =>
    have hless : p.2.length < buf.length := nextLine_shorter hline
    have hdrain : lines.drain buf = Drained.followedBy ⟨[p.1], none, p.2⟩ (lines.drain p.2) :=
      Splitter.drain_piece (congrArg Except.ok hline)
    obtain ⟨i, -, rfl⟩ := Option.map_eq_some_iff.1 hline
    rw [hdrain]
    obtain ⟨hsuffix, hnot⟩ := lines_rest (buf.drop (i + 1))
    exact ⟨hsuffix.trans (List.drop_suffix _ _), hnot⟩
termination_by buf.length

theorem lines_error (buf : Bytes) : (lines.drain buf).error = none := by
  cases hline : nextLine buf with
  | none => rw [Splitter.drain_none (s := lines) (congrArg Except.ok hline)]
  | some p =>
    have hless : p.2.length < buf.length := nextLine_shorter hline
    have hdrain : lines.drain buf = Drained.followedBy ⟨[p.1], none, p.2⟩ (lines.drain p.2) :=
      Splitter.drain_piece (congrArg Except.ok hline)
    rw [hdrain]
    exact lines_error p.2
termination_by buf.length

/-- Lines of two chunks. -/
theorem split_newline_append (maxFrame : Nat) (buf more : Bytes) : split .newlineDelimited maxFrame (buf ++ more) =
    Drained.followedBy ⟨(lines.drain buf).pieces, none, (lines.drain buf).rest⟩
      (split .newlineDelimited maxFrame ((lines.drain buf).rest ++ more)) := by
  rw [split_newline, split_newline, Splitter.drain_append, Splitter.feed]
  rfl

theorem receive_newline (maxFrame : Nat) (chunks : List Bytes) : ∀ buf : Bytes, lines.drain buf = ⟨[], none, buf⟩ →
    buf.length ≤ maxFrame →
    Shows (Deframer.receive ⟨.newlineDelimited, buf, maxFrame⟩ chunks)
      (split .newlineDelimited maxFrame (buf ++ chunks.flatten)) ∧
    ((∀ run : Bytes, run <:+: buf ++ chunks.flatten → newline ∉ run → run.length ≤ maxFrame) →
      (Deframer.receive ⟨.newlineDelimited, buf, maxFrame⟩ chunks).error = none) := by
  induction chunks with
  | nil =>
    intro buf hquiet hlen
    rw [List.flatten_nil, List.append_nil, split_newline, hquiet]
    refine ⟨⟨List.prefix_refl _, fun _ => ⟨rfl, rfl⟩, fun h => ?_⟩, fun _ => rfl⟩
    rw [if_neg (not_lt.2 hlen)] at h
    cases h
  | cons c chunks ih =>
    intro buf hquiet hlen
    have hf : (Deframer.mk .newlineDelimited buf maxFrame).framing ≠ .none := fun h => (by cases h)
    have hsplit := split_newline maxFrame (buf ++ c)
    obtain ⟨hsuffix, hnot⟩ := lines_rest (buf ++ c)
    rw [List.flatten_cons, ← List.append_assoc]
    by_cases hlong : maxFrame < (lines.drain (buf ++ c)).rest.length
    · rw [if_pos hlong] at hsplit
      rw [receive_error hf (congrArg Drained.error hsplit)]
      refine ⟨⟨List.nil_prefix, fun h => (by cases h), fun _ => rfl⟩, fun hruns => ?_⟩
      have := hruns _ (hsuffix.isInfix.trans (List.prefix_append _ _).isInfix) hnot
      omega
    · rw [if_neg hlong] at hsplit
      have hrest := ih (lines.drain (buf ++ c)).rest (lines.drain_rest (lines_error _)) (not_lt.1 hlong)
      have hcons : Deframer.receive ⟨.newlineDelimited, buf, maxFrame⟩ (c :: chunks) =
          Drained.followedBy ⟨(lines.drain (buf ++ c)).pieces, none, (lines.drain (buf ++ c)).rest⟩
            (Deframer.receive ⟨.newlineDelimited, (lines.drain (buf ++ c)).rest, maxFrame⟩ chunks) := by
        rw [receive_ok hf (congrArg Drained.error hsplit)]
        simp only [hsplit]
      rw [hcons, split_newline_append maxFrame (buf ++ c)]
      refine ⟨hrest.1.followedBy _ rfl, fun hruns => hrest.2 fun run hrun => hruns run ?_⟩
      obtain ⟨before, hbefore⟩ := hsuffix
      rw [← hbefore, List.append_assoc]
      exact hrun.trans (List.suffix_append _ _).isInfix

theorem receive_none (buf : Bytes) (maxFrame : Nat) (chunks : List Bytes) :
    Deframer.receive ⟨.none, buf, maxFrame⟩ chunks = ⟨chunks, none, buf⟩ := by
  induction chunks with
  | nil => rfl
  | cons c chunks ih =>
    have hcons : Deframer.receive ⟨.none, buf, maxFrame⟩ (c :: chunks) =
        Drained.followedBy ⟨[c], none, buf⟩ (Deframer.receive ⟨.none, buf, maxFrame⟩ chunks) := rfl
    rw [hcons, ih]
    rfl

/-- A prefixed payload is read as it was written. -/
theorem nextPrefixed_encoded {hl maxFrame : Nat} {payload : Bytes} (hfits : payload.length < 256 ^ hl)
    (hmax : payload.length ≤ maxFrame) (rest : Bytes) :
    nextPrefixed hl maxFrame (beBytes hl payload.length ++ payload ++ rest) = .ok (some (payload, rest)) := by
  have htake : (beBytes hl payload.length ++ payload ++ rest).take hl = beBytes hl payload.length := by
    rw [List.append_assoc]
    exact List.take_left' (length_beBytes _ _)
  have hdrop : (beBytes hl payload.length ++ payload ++ rest).drop hl = payload ++ rest := by
    rw [List.append_assoc]
    exact List.drop_left' (length_beBytes _ _)
  refine nextPrefixed_piece.2 ?_
  rw [htake, ofBeBytes_beBytes hfits, ← List.drop_drop, hdrop, List.take_left, List.drop_left]
  refine ⟨?_, hmax, rfl⟩
  simp only [List.length_append, length_beBytes]
  omega

/-- The presets with a length prefix. -/
def prefixLen : TcpFraming → Option Nat
  | .lengthPrefixedU16 => some 2
  | .lengthPrefixedU32 => some 4
  | _ => none

theorem prefixLen_spec {framing : TcpFraming} {hl : Nat} (h : prefixLen framing = some hl) (maxFrame : Nat) :
    0 < hl ∧ framing ≠ .none ∧ nextFrame framing maxFrame = nextPrefixed hl maxFrame ∧
    ∀ payload w, encodeFrame framing payload = .ok w → payload.length < 256 ^ hl ∧ w = beBytes hl payload.length ++
      payload := by
  cases framing with
  | none => cases h
  | newlineDelimited => cases h
  | lengthPrefixedU16 =>
    obtain rfl := Option.some.inj h
    refine ⟨Nat.two_pos, fun h => (by cases h), rfl, fun payload w hw => ?_⟩
    simp only [encodeFrame] at hw
    split at hw
    · exact ⟨‹_›, (Except.ok.inj hw).symm⟩
    · cases hw
  | lengthPrefixedU32 =>
    obtain rfl := Option.some.inj h
    refine ⟨Nat.succ_pos 3, fun h => (by cases h), rfl, fun payload w hw => ?_⟩
    simp only [encodeFrame] at hw
    split at hw
    · exact ⟨‹_›, (Except.ok.inj hw).symm⟩
    · cases hw

/-- **Any cut of a stream, against the stream read whole.** Without a preset the chunks are delivered. With one, a cut without
an error delivers every frame and leaves the same bytes over, and one with an error delivers the first frames; a length prefix
is refused in every cut or in none, and lines are refused in no cut if there is a newline in every `max_frame` bytes. Framed
payloads are received as they are. -/
theorem deframe_exact (framing : TcpFraming) (maxFrame : Nat) (chunks : List Bytes) :
    (framing = .none → (new framing maxFrame).receive chunks = ⟨chunks, none, []⟩) ∧
    (framing ≠ .none → Shows ((new framing maxFrame).receive chunks) (split framing (max maxFrame 1) chunks.flatten)) ∧
    ((prefixLen framing).isSome →
      ((new framing maxFrame).receive chunks).error = (split framing (max maxFrame 1) chunks.flatten).error) ∧
    (framing = .newlineDelimited →
      (∀ run : Bytes, run <:+: chunks.flatten → newline ∉ run → run.length ≤ max maxFrame 1) →
      ((new framing maxFrame).receive chunks).error = none) ∧
    ((prefixLen framing).isSome → ∀ frames : List (Bytes × Bytes),
      (∀ f ∈ frames, encodeFrame framing f.1 = .ok f.2 ∧ f.1.length ≤ max maxFrame 1) →
      chunks.flatten = (frames.map Prod.snd).flatten →
      (new framing maxFrame).receive chunks = ⟨frames.map Prod.fst, none, []⟩) := by
  have hlined : framing = .newlineDelimited → _ :=
    fun _ => receive_newline (max maxFrame 1) chunks [] lines.drain_nil (Nat.zero_le _)
  have hprefixed : ∀ hl (h : prefixLen framing = some hl),
      split framing (max maxFrame 1) chunks.flatten =
        (prefixed hl (max maxFrame 1) (prefixLen_spec h (max maxFrame 1)).1).drain chunks.flatten ∧
      Shows ((new framing maxFrame).receive chunks)
        ((prefixed hl (max maxFrame 1) (prefixLen_spec h (max maxFrame 1)).1).drain chunks.flatten) ∧
      ((new framing maxFrame).receive chunks).error =
        ((prefixed hl (max maxFrame 1) (prefixLen_spec h (max maxFrame 1)).1).drain chunks.flatten).error := by
    intro hl h
    obtain ⟨hhl, hf, hnext, -⟩ := prefixLen_spec h (max maxFrame 1)
    exact ⟨split_prefixed hhl hnext _, receive_prefixed hhl chunks (new framing maxFrame) hf hnext
      (prefixed hl (max maxFrame 1) hhl).drain_nil⟩
  refine ⟨?_, fun hf => ?_, fun h => ?_, ?_, fun h frames hframes hflat => ?_⟩
  · rintro rfl
    exact receive_none [] _ chunks
  · cases framing with
    | none => exact absurd rfl hf
    | newlineDelimited => exact (hlined rfl).1
    | lengthPrefixedU16 =>
      obtain ⟨hsplit, hshows, -⟩ := hprefixed 2 rfl
      exact hsplit ▸ hshows
    | lengthPrefixedU32 =>
      obtain ⟨hsplit, hshows, -⟩ := hprefixed 4 rfl
      exact hsplit ▸ hshows
  · obtain ⟨hl, hhl⟩ := Option.isSome_iff_exists.1 h
    obtain ⟨hsplit, -, herror⟩ := hprefixed hl hhl
    rw [hsplit, herror]
  · rintro rfl
    exact (hlined rfl).2
  · obtain ⟨hl, hhl⟩ := Option.isSome_iff_exists.1 h
    obtain ⟨hpos, -, -, hencode⟩ := prefixLen_spec hhl (max maxFrame 1)
    obtain ⟨-, hshows, herror⟩ := hprefixed hl hhl
    have hwritten : chunks.flatten = ((frames.map Prod.fst).map fun p => beBytes hl p.length ++ p).flatten := by
      rw [hflat, List.map_map]
      exact congrArg List.flatten (List.map_congr_left fun f hf => (hencode f.1 f.2 (hframes f hf).1).2)
    have hwhole : (prefixed hl (max maxFrame 1) hpos).drain chunks.flatten = ⟨frames.map Prod.fst, none, []⟩ := by
      rw [hwritten]
      refine Splitter.drain_pieces _ (P := fun p => p.length < 256 ^ hl ∧ p.length ≤ max maxFrame 1)
        (fun p hp => nextPrefixed_encoded hp.1 hp.2) _ fun p hp => ?_
      obtain ⟨f, hf, rfl⟩ := List.mem_map.1 hp
      exact ⟨(hencode f.1 f.2 (hframes f hf).1).1, (hframes f hf).2⟩
    rw [hwhole] at hshows herror
    obtain ⟨hpieces, hrest⟩ := hshows.all herror
    generalize (new framing maxFrame).receive chunks = r at hpieces hrest herror
    obtain ⟨pieces, error, rest⟩ := r
    rw [Drained.mk.injEq]
    exact ⟨hpieces, herror, hrest⟩

/-- Without a preset, the frames are the chunks that arrived. -/
theorem unframed_chunks : ¬∀ (framing : TcpFraming) (maxFrame : Nat) (chunks chunks' : List Bytes),
    chunks.flatten = chunks'.flatten →
      ((new framing maxFrame).receive chunks).pieces = ((new framing maxFrame).receive chunks').pieces := by
  intro h
  have hpieces := h .none 1024 [[0x61, 0x62]] [[0x61], [0x62]] rfl
  rw [new, receive_none, receive_none] at hpieces
  cases hpieces

end Deframer
end Anvil.RawTcp
