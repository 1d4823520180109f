import Anvil.Transport.Masque

/-!
# A CONNECT-UDP stream as it arrives (`anvil-transport/src/masque.rs`)

* `MasqueChannel.onPiece`, `MasqueChannel.onStream` : a piece, and a chunk cut into pieces, as the session's channel reads
  them;
* `fed_spec` : pieces are read as the stream they make;
* `OnWire` : what may be sent for a capsule, its integers encoded in any width; `decodeFront_onWire` reads it;
* `stream_exact` : what any cut of a stream gives; `encodeCapsule_onWire` : what this client sends is such a capsule.
-/

namespace Anvil.Masque
open Anvil.Lib CapsuleDecoder

/-! ## The channel -/

inductive FailureKind
  | httpProtocolError
  | bodyIncomplete
deriving DecidableEq

/-- Decoded input waiting to be delivered, in arrival order. -/
inductive Queued
  | udp (payload : Bytes)
  | dropped (what : String)
  | ended (failure : Option (FailureKind × String)) (note : String)
deriving DecidableEq

def Capsule.queued : Capsule → Queued
  | .udp payload => .udp payload
  | .unregisteredContext context => .dropped ("a DATAGRAM capsule with unregistered context ID " ++ toString context)
  | .unknown type => .dropped ("a capsule of unknown type 0x" ++ String.ofList (Nat.toDigits 16 type))

/-- The CONNECT stream's side of a tunnel; `queue` is all that was put into it. -/
structure MasqueChannel where
  decoder : CapsuleDecoder := {}
  queue : List Queued := []
  streamOpen : Bool := true
deriving DecidableEq

/-- How a malformed stream ends. -/
def malformed (e : CapsuleError) : Queued :=
  .ended (some (.httpProtocolError, "the proxy's capsule stream is malformed: " ++ e.describe))
    "the proxy's capsule stream is malformed"

namespace MasqueChannel

/-- A piece: pushed, and the decoder drained. -/
def onPiece (ch : MasqueChannel) (piece : Bytes) : MasqueChannel :=
  if ch.streamOpen then
    let r := (ch.decoder.push piece).drain
    { decoder := r.decoder, queue := ch.queue ++ r.capsules.map Capsule.queued ++ (r.error.map malformed).toList,
      streamOpen := r.error.isNone }
  else ch

/-- The pieces of a chunk, each at most `feed_limit`. -/
def pieces (chunk : Bytes) : List Bytes :=
  if _h : chunk = [] then []
  else chunk.take feedLimit :: pieces (chunk.drop feedLimit)
termination_by chunk.length
decreasing_by
  have := List.length_pos_iff.2 _h
  rw [List.length_drop, show feedLimit = 65551 from rfl]
  omega

/-- A chunk of the stream, or its end. -/
def onStream (ch : MasqueChannel) : Option Bytes → MasqueChannel
  | some chunk => (pieces chunk).foldl onPiece ch
  | none =>
    match ch.decoder.finish with
    | .ok () => { ch with streamOpen := false,
                          queue := ch.queue ++ [.ended none "the proxy closed the tunnel (FIN on the CONNECT stream)"] }
    | .error e => { ch with streamOpen := false,
                            queue := ch.queue ++ [.ended
                              (some (.bodyIncomplete, "the proxy ended the CONNECT-UDP stream abnormally: " ++ e.describe))
                              "the proxy ended the CONNECT-UDP stream inside a capsule"] }

/-- The stream is read while it is open. -/
def receive (ch : MasqueChannel) (c : Option Bytes) : MasqueChannel := if ch.streamOpen then ch.onStream c else ch

theorem pieces_spec (chunk : Bytes) : (pieces chunk).flatten = chunk ∧ ∀ p ∈ pieces chunk, p.length ≤ feedLimit := by
  rw [pieces]
  split
  · rename_i h
    exact ⟨h.symm, fun p hp => (by cases hp)⟩
  · rename_i h
    have hpos := List.length_pos_iff.2 h
    obtain ⟨hflat, hlen⟩ := pieces_spec (chunk.drop feedLimit)
    refine ⟨?_, fun p hp => ?_⟩
    · rw [List.flatten_cons, hflat, List.take_append_drop]
    · rcases List.mem_cons.1 hp with rfl | hp
      · exact List.length_take_le _ _
      · exact hlen p hp
termination_by chunk.length
decreasing_by
  rw [List.length_drop, show feedLimit = 65551 from rfl]
  omega

theorem foldl_onPiece_closed (ps : List Bytes) :
    ∀ {ch : MasqueChannel}, ch.streamOpen = false → ps.foldl onPiece ch = ch := by
  induction ps with
  | nil => exact fun _ => rfl
  | cons p ps ih =>
    intro ch h
    have hsame : ch.onPiece p = ch := if_neg (by rw [h]; exact Bool.false_ne_true)
    rw [List.foldl_cons, hsame, ih h]

/-- Chunks are the pieces they are cut into. -/
theorem foldl_receive (chunks : List Bytes) : ∀ ch : MasqueChannel,
    (chunks.map some).foldl receive ch = (chunks.flatMap pieces).foldl onPiece ch := by
  induction chunks with
  | nil => exact fun _ => rfl
  | cons c chunks ih =>
    intro ch
    have hreceive : ch.receive (some c) = (pieces c).foldl onPiece ch := by
      unfold receive
      cases h : ch.streamOpen with
      | true => rfl
      | false => exact (foldl_onPiece_closed _ h).symm
    rw [List.map_cons, List.foldl_cons, hreceive, ih, List.flatMap_cons, List.foldl_append]

/-! ## Pieces of a stream -/

/-- The channel once the pieces were fed to it. -/
def fed (ps : List Bytes) : MasqueChannel := ps.foldl onPiece {}

/-- **Pieces are read as the stream they make.** -/
theorem fed_spec (ps : List Bytes) :
    (fed ps).queue = (drain ⟨ps.flatten, 0⟩).capsules.map Capsule.queued ++
      ((drain ⟨ps.flatten, 0⟩).error.map malformed).toList ∧
    (fed ps).streamOpen = (drain ⟨ps.flatten, 0⟩).error.isNone ∧
    ((fed ps).streamOpen = true → (fed ps).decoder = (drain ⟨ps.flatten, 0⟩).decoder) := by
  induction ps using List.reverseRecOn with
  | nil =>
    have hnil : drain ⟨[], 0⟩ = ⟨[], none, ⟨[], 0⟩⟩ := drain_none rfl
    rw [List.flatten_nil, hnil]
    exact ⟨rfl, rfl, fun _ => rfl⟩
  | append_singleton ps p ih =>
    obtain ⟨hqueue, hopen, hdecoder⟩ := ih
    have hfed : fed (ps ++ [p]) = (fed ps).onPiece p := by
      unfold fed
      rw [List.foldl_append]
      rfl
    have hflat : (⟨(ps ++ [p]).flatten, 0⟩ : CapsuleDecoder) = CapsuleDecoder.push ⟨ps.flatten, 0⟩ p := by
      rw [List.flatten_append, List.flatten_singleton]
      rfl
    obtain ⟨hok, hfail⟩ := drain_push ⟨ps.flatten, 0⟩ p
    rw [hfed, hflat]
    cases herror : (drain ⟨ps.flatten, 0⟩).error with
    | none =>
      rw [herror] at hqueue hopen
      replace hopen : (fed ps).streamOpen = true := hopen
      have hpiece : (fed ps).onPiece p = ⟨((drain ⟨ps.flatten, 0⟩).decoder.push p).drain.decoder,
          (fed ps).queue ++ ((drain ⟨ps.flatten, 0⟩).decoder.push p).drain.capsules.map Capsule.queued ++
            (((drain ⟨ps.flatten, 0⟩).decoder.push p).drain.error.map malformed).toList,
          ((drain ⟨ps.flatten, 0⟩).decoder.push p).drain.error.isNone⟩ := by
        unfold onPiece
        rw [if_pos hopen, hdecoder hopen]
      rw [hpiece, hok herror, hqueue]
      refine ⟨?_, rfl, fun _ => rfl⟩
      simp
    | some e =>
      rw [herror] at hqueue hopen
      replace hopen : (fed ps).streamOpen = false := hopen
      obtain ⟨hcapsules, herror'⟩ := hfail e herror
      have hpiece : (fed ps).onPiece p = fed ps := if_neg (by rw [hopen]; exact Bool.false_ne_true)
      rw [hpiece, hcapsules, herror', hqueue, hopen]
      exact ⟨rfl, rfl, fun h => (by cases h)⟩

end MasqueChannel

/-! ## What may be sent -/

open MasqueChannel

/-- A capsule as its sender means it. -/
inductive Sent
  | datagram (context : Nat) (payload : Bytes)
  | unknown (type : Nat) (value : Bytes)

def Sent.capsule : Sent → Capsule
  | .datagram context payload => if context ≠ 0 then .unregisteredContext context else .udp payload
  | .unknown type _ => .unknown type

/-- What a capsule delivers. -/
def Sent.payload? : Sent → Option Bytes
  | .datagram context payload => if context ≠ 0 then none else some payload
  | .unknown _ _ => none

def Queued.payload? : Queued → Option Bytes
  | .udp payload => some payload
  | .dropped _ => none
  | .ended _ _ => none

/-- The bytes `w` are a capsule of the sender; its type, its length and its Context ID have any encoding. -/
def Written : Sent → Bytes → Prop
  | .datagram context payload, w => ∃ tb lb cb, Varint capsuleDatagram tb ∧ Varint (cb.length + payload.length) lb ∧
      Varint context cb ∧ w = tb ++ (lb ++ (cb ++ payload))
  | .unknown type value, w => type ≠ capsuleDatagram ∧ ∃ tb lb, Varint type tb ∧ Varint value.length lb ∧
      w = tb ++ (lb ++ value)

/-- A written capsule; a payload is a UDP payload, or with its Context ID no longer than one may be. -/
def OnWire : Sent → Bytes → Prop
  | .datagram context payload, w => ∃ tb lb cb, Varint capsuleDatagram tb ∧ Varint (cb.length + payload.length) lb ∧
      Varint context cb ∧ (payload.length ≤ maxUdpPayload ∨ cb.length + payload.length ≤ maxValue) ∧
      w = tb ++ (lb ++ (cb ++ payload))
  | .unknown type value, w => Written (.unknown type value) w

/-- `encode_capsule`. -/
def encodeCapsule (payload : Bytes) : Bytes :=
  putVarint capsuleDatagram ++ (putVarint (1 + payload.length) ++ (putVarint 0 ++ payload))

theorem encodeCapsule_onWire {payload : Bytes} (h : payload.length ≤ maxUdpPayload) :
    OnWire (.datagram 0 payload) (encodeCapsule payload) := by
  have hlen : 1 + payload.length < 2 ^ 62 := lt_of_le_of_lt (Nat.add_le_add_left h 1) (by decide)
  exact ⟨_, putVarint (1 + payload.length), putVarint 0, varint_putVarint (by decide), varint_putVarint hlen,
    varint_putVarint (by decide), .inl h, rfl⟩

/-- The two integers in front of a capsule's value. -/
theorem readVarint_header {type len : Nat} {tb lb : Bytes} (ht : Varint type tb) (hl : Varint len lb) (rest : Bytes) :
    readVarint (tb ++ (lb ++ rest)) 0 = some (type, tb.length) ∧
    readVarint (tb ++ (lb ++ rest)) tb.length = some (len, tb.length + lb.length) ∧
    (tb ++ (lb ++ rest)).drop (tb.length + lb.length) = rest := by
  refine ⟨?_, readVarint_varint hl tb rest, ?_⟩
  · have := readVarint_varint ht [] (lb ++ rest)
    rwa [List.nil_append, List.length_nil, Nat.zero_add] at this
  · rw [← List.append_assoc]
    exact List.drop_left' List.length_append

/-- **A capsule is read as what its sender meant**, and what follows it is left. -/
theorem decodeFront_onWire {s : Sent} {w : Bytes} (h : OnWire s w) (more : Bytes) :
    decodeFront (w ++ more) = (.ok (some s.capsule), ⟨more, 0⟩) := by
  cases s with
  | unknown type value =>
    obtain ⟨htype, tb, lb, ht, hl, rfl⟩ := h
    obtain ⟨hread, hread', hdrop⟩ := readVarint_header ht hl (value ++ more)
    rw [List.append_assoc, List.append_assoc]
    simp only [decodeFront, hread, hread', if_pos htype, hdrop, advanceSkip_eq]
    rw [List.drop_left, List.length_append, Nat.sub_eq_zero_of_le (Nat.le_add_right _ _)]
    rfl
  | datagram context payload =>
    obtain ⟨tb, lb, cb, ht, hl, hc, hlen, rfl⟩ := h
    have hle : cb.length + payload.length ≤ maxValue := by
      rcases hlen with hlen | hlen
      · have := (length_varint hc).2
        exact Nat.add_comm _ _ ▸ Nat.add_le_add hlen this
      · exact hlen
    obtain ⟨hread, hread', hdrop⟩ := readVarint_header ht hl (cb ++ payload ++ more)
    have hvalue : datagram (cb ++ payload) = .ok (Sent.datagram context payload).capsule := by
      have := readVarint_varint hc [] payload
      rw [List.nil_append, List.length_nil, Nat.zero_add] at this
      unfold datagram
      rw [this]
      simp only [List.drop_left]
      rfl
    rw [List.append_assoc, List.append_assoc]
    simp only [decodeFront, hread, hread']
    rw [if_neg (fun hne => hne rfl), if_neg (by omega), if_neg (by simp only [List.length_append]; omega), hdrop,
      List.take_left' List.length_append, hvalue, ← List.drop_drop, hdrop, List.drop_left' List.length_append]
    rfl

/-- Only the value of a capsule of an unknown type is skipped. -/
theorem decodeFront_skip {buf : Bytes} {c : Capsule} {d : CapsuleDecoder} (h : decodeFront buf = (.ok (some c), d))
    (hskip : d.skip ≠ 0) : c.queued.payload? = none := by
  unfold decodeFront at h
  split at h
  · cases h
  · split at h
    · cases h
    · split_ifs at h
      · cases h
        rfl
      · cases h
      · cases h
      · obtain ⟨-, rfl⟩ := Prod.mk.inj h
        exact absurd rfl hskip

/-! ## Streams of capsules -/

/-- Capsules, and what follows them. -/
theorem drain_onWire {sent : List Sent} {ws : List Bytes} (h : List.Forall₂ OnWire sent ws) (part : Bytes) :
    drain ⟨ws.flatten ++ part, 0⟩ =
      { drain ⟨part, 0⟩ with capsules := sent.map Sent.capsule ++ (drain ⟨part, 0⟩).capsules } := by
  induction h with
  | nil => rfl
  | @cons s w sent ws hs _ ih =>
    have hnext : decodeNext ⟨(w :: ws).flatten ++ part, 0⟩ = (.ok (some s.capsule), ⟨ws.flatten ++ part, 0⟩) := by
      rw [decodeNext_zero, List.flatten_cons, List.append_assoc]
      exact decodeFront_onWire hs _
    rw [drain_some hnext, ih]
    rfl

/-- **A capsule cut short delivers nothing**, and the stream may end there only before its first byte. -/
theorem drain_part {s : Sent} {part rest : Bytes} (h : OnWire s (part ++ rest)) (hrest : rest ≠ []) :
    (drain ⟨part, 0⟩).error = none ∧ (drain ⟨part, 0⟩).capsules.filterMap (Queued.payload? ∘ Capsule.queued) = [] ∧
    ((drain ⟨part, 0⟩).decoder.finish = .ok () ↔ part = []) := by
  have hwhole : decodeFront (part ++ rest) = (.ok (some s.capsule), ⟨[], 0⟩) := by
    have := decodeFront_onWire h []
    rwa [List.append_nil] at this
  obtain ⟨hnone, -⟩ | ⟨e, d, -, hmore⟩ | ⟨c, d, hsome, -, hmore⟩ := decodeFront_cases part
  · rw [drain_none ((decodeNext_zero part).trans hnone)]
    refine ⟨rfl, rfl, ?_⟩
    unfold finish
    split_ifs with hempty
    · exact ⟨fun _ => hempty.1, fun _ => rfl⟩
    · exact ⟨fun h => (by cases h), fun h => absurd ⟨h, rfl⟩ hempty⟩
  · have := hmore rest
    rw [hwhole] at this
    cases this
  · -- the value is still to be skipped, all of what is missing
    have hend : (d.push rest).advanceSkip = ⟨[], 0⟩ := by
      have := hmore rest
      rw [hwhole] at this
      exact ((Prod.mk.inj this).2).symm
    have hskip : d.buf.length < d.skip := by
      rw [advanceSkip_eq] at hend
      have hdrop := List.drop_eq_nil_iff.1 (congrArg CapsuleDecoder.buf hend)
      have hpos := List.length_pos_iff.2 hrest
      simp only [push, List.length_append] at hdrop
      omega
    have hwaits : d.advanceSkip.skip ≠ 0 := by
      rw [advanceSkip_eq]
      exact Nat.sub_ne_zero_of_lt hskip
    have hdrain : d.drain = ⟨[], none, d.advanceSkip⟩ := drain_none (if_pos hwaits)
    have hpart : part ≠ [] := by
      rintro rfl
      cases hsome
    rw [drain_some ((decodeNext_zero part).trans hsome), hdrain]
    refine ⟨rfl, ?_, ⟨fun h => ?_, fun h => absurd h hpart⟩⟩
    · exact List.filterMap_cons_none (decodeFront_skip hsome (by omega))
    · unfold finish at h
      rw [if_neg fun hd => hwaits hd.2] at h
      cases h

theorem payload?_capsule (s : Sent) : s.capsule.queued.payload? = s.payload? := by
  cases s with
  | unknown type value => rfl
  | datagram context payload =>
    simp only [Sent.capsule, Sent.payload?]
    split_ifs <;> rfl

/-- Ends of a stream inside a capsule, or before its first byte. -/
def Partial (part : Bytes) : Prop := ∃ s rest, OnWire s (part ++ rest) ∧ rest ≠ []

/-- **What any cut of a stream gives**: varints round trip; the channel is a function of the bytes alone and waits with
    less than `feedLimit` of them; capsules deliver their payloads, and the stream may end between two of them only. -/
theorem stream_exact :
    (∀ v < 2 ^ 62, ∀ rest, readVarint (putVarint v ++ rest) 0 = some (v, (putVarint v).length)) ∧
    (∀ chunks : List Bytes, (chunks.map some).foldl receive {} = fed (chunks.flatMap pieces) ∧
      (chunks.flatMap pieces).flatten = chunks.flatten ∧ ∀ p ∈ chunks.flatMap pieces, p.length ≤ feedLimit) ∧
    (∀ ps ps' : List Bytes, ps.flatten = ps'.flatten → (fed ps).queue = (fed ps').queue ∧
      (fed ps).streamOpen = (fed ps').streamOpen ∧ ((fed ps).streamOpen = true →
        (fed ps).decoder.finish = (fed ps').decoder.finish ∧ (fed ps).decoder.buf.length < feedLimit)) ∧
    ∀ (sent : List Sent) (ws : List Bytes) (part : Bytes) (ps : List Bytes), List.Forall₂ OnWire sent ws → Partial part →
      ps.flatten = ws.flatten ++ part → (fed ps).streamOpen = true ∧
        (fed ps).queue.filterMap Queued.payload? = sent.filterMap Sent.payload? ∧
        ((fed ps).decoder.finish = .ok () ↔ part = []) := by
  refine ⟨fun v hv rest => ?_, fun chunks => ⟨foldl_receive chunks {}, ?_, fun p hp => ?_⟩, fun ps ps' hflat => ?_,
    fun sent ws part ps hsent hpart hflat => ?_⟩
  · have := readVarint_varint (varint_putVarint hv) [] rest
    rwa [List.nil_append, List.length_nil, Nat.zero_add] at this
  · induction chunks with
    | nil => rfl
    | cons c chunks ih => rw [List.flatMap_cons, List.flatten_append, (pieces_spec c).1, ih, List.flatten_cons]
  · obtain ⟨c, -, hp⟩ := List.mem_flatMap.1 hp
    exact (pieces_spec c).2 p hp
  · obtain ⟨hqueue, hopen, hdecoder⟩ := fed_spec ps
    obtain ⟨hqueue', hopen', hdecoder'⟩ := fed_spec ps'
    rw [← hflat] at hqueue' hopen' hdecoder'
    refine ⟨hqueue.trans hqueue'.symm, hopen.trans hopen'.symm, fun h => ?_⟩
    rw [hdecoder h, hdecoder' (hopen'.trans (hopen.symm.trans h))]
    exact ⟨rfl, length_drain _ (Option.isNone_iff_eq_none.1 (hopen.symm.trans h))⟩
  · obtain ⟨s, rest, hs, hrest⟩ := hpart
    obtain ⟨hqueue, hopen, hdecoder⟩ := fed_spec ps
    obtain ⟨herror, hnothing, hfinish⟩ := drain_part hs hrest
    rw [hflat, drain_onWire hsent] at hqueue hopen hdecoder
    have hopen' : (fed ps).streamOpen = true := hopen.trans (by rw [herror]; rfl)
    have hpayloads : (sent.map Sent.capsule).filterMap (Queued.payload? ∘ Capsule.queued) = sent.filterMap Sent.payload? := by
      rw [List.filterMap_map]
      exact List.filterMap_congr fun s _ => payload?_capsule s
    refine ⟨hopen', ?_, ?_⟩
    · rw [hqueue, herror]
      simp only [Option.map_none, Option.toList_none, List.append_nil]
      rw [List.filterMap_map, List.filterMap_append, hnothing, hpayloads, List.append_nil]
    · rw [hdecoder hopen']
      exact hfinish

theorem written_other : Written (.datagram 1 (List.replicate 65535 0))
    (putVarint 0 ++ (putVarint 65536 ++ (putVarint 1 ++ List.replicate 65535 0))) := by
  refine ⟨_, _, _, varint_putVarint (by decide), ?_, varint_putVarint (by decide), rfl⟩
  rw [List.length_replicate]
  exact varint_putVarint (by decide)

theorem length_other : (putVarint 0 ++ (putVarint 65536 ++ (putVarint 1 ++ List.replicate 65535 0))).length ≤ feedLimit := by
  simp only [List.length_append, List.length_replicate]
  decide

theorem decodeNext_other {w : Bytes} (hw : putVarint 0 ++ (putVarint 65536 ++ (putVarint 1 ++ List.replicate 65535 0)) = w) :
    decodeNext ⟨w, 0⟩ = (.error .tooLarge, ⟨w, 0⟩) := by
  obtain ⟨hread, hread', -⟩ := readVarint_header (varint_putVarint (v := 0) (by decide))
    (varint_putVarint (v := 65536) (by decide)) (putVarint 1 ++ List.replicate 65535 0)
  rw [hw] at hread hread'
  rw [decodeNext_zero]
  simp only [decodeFront, hread, hread']
  rw [if_neg (fun h => h rfl), if_pos (by decide)]

/-- A datagram of another context may be longer than any this client takes: its capsule ends the stream. -/
theorem other_context_refused : ∃ w, Written (.datagram 1 (List.replicate 65535 0)) w ∧ w.length ≤ feedLimit ∧
    (fed [w]).queue = [malformed .tooLarge] ∧ (fed [w]).streamOpen = false := by
  refine ⟨_, written_other, length_other, ?_⟩
  generalize hw : putVarint 0 ++ (putVarint 65536 ++ (putVarint 1 ++ List.replicate 65535 0)) = w
  obtain ⟨hqueue, hopen, -⟩ := fed_spec [w]
  rw [List.flatten_singleton, drain_error (decodeNext_other hw)] at hqueue hopen
  exact ⟨hqueue, hopen⟩

end Anvil.Masque
