import Anvil.Lib.Wire

/-!
# The wire totals of a WebSocket stream (`anvil-transport/src/ws_deflate.rs`, `DirMeter`)

A meter reads the frame headers of one direction and lets the payloads pass, whatever chunks the bytes come in.

* `DirMeter.feed` : a chunk; `DirMeter.pass` : one round of its loop;
* `pass_eq_foldl` : a round is its bytes one after another, so `feed_eq_foldl` : a chunk is too;
* `parseFrames`, `tally` : the stream read frame by frame, and the totals of what was read;
* `meter_exact` : the meter and the reading agree.
-/

namespace Anvil.WsDeflate
open Anvil.Lib

abbrev Bytes := List UInt8

/-! ## The meter -/

structure WsDirectionTotals where
  messages : Nat := 0
  compressedMessages : Nat := 0
  wireBytes : Nat := 0
deriving DecidableEq

/-- One direction's frame-header parser: `header` holds the bytes of the header that are there, `skip` how many payload bytes
are still to pass. -/
structure DirMeter where
  header : Bytes := []
  need : Nat := 0
  skip : Nat := 0
  data : Bool := false
  totals : WsDirectionTotals := {}
deriving DecidableEq

/-- The bytes of the extended length. -/
def extendedLen (b : UInt8) : Nat := if b &&& 0x7f = 126 then 2 else if b &&& 0x7f = 127 then 8 else 0

def maskLen (b : UInt8) : Nat := if b &&& 0x80 ≠ 0 then 4 else 0

/-- The payload length that the second byte and what follows it give. -/
def payloadLen (b : UInt8) (extended : Bytes) : Nat :=
  if b &&& 0x7f = 126 then ofBeBytes (extended.take 2)
  else if b &&& 0x7f = 127 then ofBeBytes (extended.take 8)
  else (b &&& 0x7f).toNat

/-- Text, binary or continuation. -/
def isData (first : UInt8) : Bool := first &&& 0x0f = 0 || first &&& 0x0f = 1 || first &&& 0x0f = 2

/-- The first frame of a message. -/
def startsMessage (first : UInt8) : Bool := first &&& 0x0f = 1 || first &&& 0x0f = 2

def isCompressed (first : UInt8) : Bool := first &&& 0x40 ≠ 0

namespace DirMeter

/-- The header is whole. -/
def opened (m : DirMeter) : DirMeter :=
  let first := m.header.getD 0 0
  { header := [], need := 2, skip := payloadLen (m.header.getD 1 0) (m.header.drop 2), data := isData first,
    totals :=
      if startsMessage first then
        { m.totals with messages := m.totals.messages + 1,
                        compressedMessages := m.totals.compressedMessages + (isCompressed first).toNat }
      else m.totals }

/-- Header bytes were copied. -/
def filled (m : DirMeter) : DirMeter :=
  if m.header.length < m.need then m
  else if m.header.length = 2 then
    let m := { m with need := 2 + extendedLen (m.header.getD 1 0) + maskLen (m.header.getD 1 0) }
    if m.header.length < m.need then m else m.opened
  else m.opened

/-- `need` once a header is begun. -/
def begun (m : DirMeter) : DirMeter := if m.need = 0 then { m with need := 2 } else m

/-- Header bytes copied. -/
def holding (m : DirMeter) (bs : Bytes) : DirMeter := { m.begun with header := m.header ++ bs }

/-- `n` payload bytes passed. -/
def passed (m : DirMeter) (n : Nat) : DirMeter :=
  { m with skip := m.skip - n,
           totals := if m.data then { m.totals with wireBytes := m.totals.wireBytes + n } else m.totals }

/-- One round of the loop: the meter, and what it leaves of the buffer. -/
def pass (m : DirMeter) (buf : Bytes) : DirMeter × Bytes :=
  if 0 < m.skip then
    let n := min m.skip buf.length
    (m.passed n, buf.drop n)
  else
    let n := min (m.begun.need - m.header.length) buf.length
    ((m.holding (buf.take n)).filled, buf.drop n)

/-- At most `fuel` rounds; every round takes a byte. -/
def feedLoop : Nat → DirMeter → Bytes → DirMeter
  | 0, m, _ => m
  | fuel + 1, m, buf => if buf = [] then m else feedLoop fuel (m.pass buf).1 (m.pass buf).2

def feed (m : DirMeter) (buf : Bytes) : DirMeter := feedLoop buf.length m buf

/-- One byte. -/
def byte (m : DirMeter) (b : UInt8) : DirMeter := (m.pass [b]).1

/-! ## A round is its bytes one after another -/

/-- There is room for a header byte whenever one is read. -/
def Reading (m : DirMeter) : Prop := m.header.length < m.begun.need

theorem begun_need (m : DirMeter) : m.begun.need = if m.need = 0 then 2 else m.need := by
  unfold begun
  split <;> rfl

theorem begun_need_pos (m : DirMeter) : 0 < m.begun.need := by
  unfold begun
  split
  · exact Nat.two_pos
  · exact Nat.pos_of_ne_zero ‹_›

theorem begun_of_need {m : DirMeter} (h : 0 < m.need) : m.begun = m := if_neg (Nat.pos_iff_ne_zero.1 h)

theorem begun_holding (m : DirMeter) (bs : Bytes) : (m.holding bs).begun = m.holding bs := begun_of_need m.begun_need_pos

theorem holding_skip (m : DirMeter) (bs : Bytes) : (m.holding bs).skip = m.skip := by
  unfold holding begun
  split <;> rfl

theorem holding_holding (m : DirMeter) (as bs : Bytes) : (m.holding as).holding bs = m.holding (as ++ bs) := by
  have hbegun : (m.holding as).begun = m.holding as := m.begun_holding as
  calc (m.holding as).holding bs = { (m.holding as).begun with header := (m.header ++ as) ++ bs } := rfl
    _ = { m.holding as with header := (m.header ++ as) ++ bs } := by rw [hbegun]
    _ = m.holding (as ++ bs) := by rw [List.append_assoc]; rfl

theorem reading_opened (m : DirMeter) : m.opened.Reading := Nat.two_pos

theorem reading_filled {m : DirMeter} (hm : 0 < m.need) : m.filled.Reading := by
  unfold filled
  split_ifs with h htwo
  · unfold Reading
    rw [begun, if_neg (Nat.pos_iff_ne_zero.1 hm)]
    exact h
  · simp only
    split_ifs with h
    · unfold Reading
      rw [begun, if_neg (by simp only; omega)]
      exact h
    · exact reading_opened _
  · exact reading_opened _

theorem reading_pass {m : DirMeter} (h : m.Reading) (buf : Bytes) : (m.pass buf).1.Reading := by
  unfold pass
  by_cases hskip : 0 < m.skip
  · simp only [if_pos hskip]
    unfold Reading at h ⊢
    rw [begun_need] at h ⊢
    exact h
  · simp only [if_neg hskip]
    exact reading_filled m.begun_need_pos

theorem reading_foldl (bs : Bytes) : ∀ {m : DirMeter}, m.Reading → (bs.foldl byte m).Reading := by
  induction bs with
  | nil => exact id
  | cons b bs ih => exact fun h => ih (reading_pass h [b])

theorem passed_zero (m : DirMeter) : m.passed 0 = m := by
  unfold passed
  split <;> rfl

theorem passed_passed (m : DirMeter) (n k : Nat) : (m.passed n).passed k = m.passed (n + k) := by
  unfold passed
  cases hd : m.data <;> simp only [Bool.false_eq_true, if_false, if_true, Nat.sub_sub, Nat.add_assoc]

theorem byte_skip {m : DirMeter} (h : 0 < m.skip) (b : UInt8) : m.byte b = m.passed 1 := by
  have hmin : min m.skip 1 = 1 := by omega
  unfold byte pass
  rw [if_pos h, List.length_singleton, hmin]

/-- Payload bytes pass. -/
theorem foldl_skip (bs : Bytes) : ∀ m : DirMeter, bs.length ≤ m.skip → bs.foldl byte m = m.passed bs.length := by
  induction bs with
  | nil => exact fun m _ => m.passed_zero.symm
  | cons b bs ih =>
    intro m hlen
    rw [List.length_cons] at hlen
    have hrest : bs.length ≤ (m.passed 1).skip := Nat.le_sub_of_add_le hlen
    rw [List.foldl_cons, byte_skip (by omega), ih _ hrest, passed_passed, List.length_cons, Nat.add_comm]

/-- A header byte. -/
theorem byte_header {m : DirMeter} (hskip : m.skip = 0) (hm : m.Reading) (b : UInt8) : m.byte b = (m.holding [b]).filled := by
  have hmin : min (m.begun.need - m.header.length) [b].length = 1 := by
    have : m.header.length < m.begun.need := hm
    rw [List.length_singleton]
    omega
  unfold byte pass
  rw [if_neg (by omega), hmin]
  rfl

theorem filled_holding {m : DirMeter} {bs : Bytes} (h : m.header.length + bs.length < m.begun.need) :
    (m.holding bs).filled = m.holding bs := by
  refine if_pos ?_
  rw [← List.length_append] at h
  exact h

/-- Header bytes that leave the header unfinished. -/
theorem foldl_fill (bs : Bytes) : ∀ m : DirMeter, m.skip = 0 → bs ≠ [] → m.header.length + bs.length < m.begun.need →
    bs.foldl byte m = m.holding bs := by
  induction bs with
  | nil => exact fun m _ hne => absurd rfl hne
  | cons b bs ih =>
    intro m hskip _ hlen
    rw [List.length_cons] at hlen
    have hm : m.Reading := by
      unfold Reading
      omega
    have hbyte : m.byte b = m.holding [b] := by
      rw [byte_header hskip hm, filled_holding]
      rw [List.length_singleton]
      omega
    by_cases hbs : bs = []
    · rw [List.foldl_cons, hbyte, hbs, List.foldl_nil]
    · have hroom : (m.holding [b]).header.length + bs.length < (m.holding [b]).begun.need := by
        have : (m.holding [b]).header.length = m.header.length + 1 := List.length_append
        have : (m.holding [b]).begun.need = m.begun.need := by rw [begun_holding]; rfl
        omega
      rw [List.foldl_cons, hbyte, ih _ ((holding_skip m _).trans hskip) hbs hroom, holding_holding]
      rfl

/-- Header bytes up to the one that is needed. -/
theorem foldl_fill_last {m : DirMeter} (hskip : m.skip = 0) {bs : Bytes} (hbs : bs ≠ [])
    (hlen : m.header.length + bs.length ≤ m.begun.need) : bs.foldl byte m = (m.holding bs).filled := by
  obtain ⟨init, b, rfl⟩ := List.eq_nil_or_concat bs |>.resolve_left hbs
  rw [List.concat_eq_append, List.length_append, List.length_singleton] at hlen
  rw [List.concat_eq_append, List.foldl_append, List.foldl_cons, List.foldl_nil]
  by_cases hinit : init = []
  · subst hinit
    exact byte_header hskip (by unfold Reading; omega) b
  · have hroom : (m.holding init).Reading := by
      have : (m.holding init).header.length = m.header.length + init.length := List.length_append
      have : (m.holding init).begun.need = m.begun.need := by rw [begun_holding]; rfl
      unfold Reading
      omega
    rw [foldl_fill init m hskip hinit (by omega), byte_header ((holding_skip m _).trans hskip) hroom, holding_holding]

/-- **A round takes a byte or more, and is what its bytes are one after another.** -/
theorem pass_eq_foldl {m : DirMeter} (hm : m.Reading) {buf : Bytes} (hbuf : buf ≠ []) :
    ∃ n, 0 < n ∧ n ≤ buf.length ∧ m.pass buf = ((buf.take n).foldl byte m, buf.drop n) := by
  have hpos := List.length_pos_iff.2 hbuf
  have hroom : m.header.length < m.begun.need := hm
  by_cases hskip : 0 < m.skip
  · refine ⟨min m.skip buf.length, by omega, Nat.min_le_right _ _, ?_⟩
    have hlen : (buf.take (min m.skip buf.length)).length = min m.skip buf.length := by
      rw [List.length_take]
      omega
    rw [foldl_skip _ _ (by omega), hlen]
    exact if_pos hskip
  · refine ⟨min (m.begun.need - m.header.length) buf.length, by omega, Nat.min_le_right _ _, ?_⟩
    have hlen : (buf.take (min (m.begun.need - m.header.length) buf.length)).length =
        min (m.begun.need - m.header.length) buf.length := by
      rw [List.length_take]
      omega
    rw [foldl_fill_last (by omega) (List.ne_nil_of_length_pos (by omega)) (by omega)]
    exact if_neg hskip

theorem feedLoop_eq_foldl : ∀ (fuel : Nat) (m : DirMeter) (buf : Bytes), m.Reading → buf.length ≤ fuel →
    feedLoop fuel m buf = buf.foldl byte m := by
  intro fuel
  induction fuel with
  | zero =>
    intro m buf _ hlen
    rw [List.length_eq_zero_iff.1 (Nat.le_zero.1 hlen)]
    rfl
  | succ fuel ih =>
    intro m buf hm hlen
    unfold feedLoop
    split_ifs with hbuf
    · rw [hbuf]
      rfl
    · obtain ⟨n, hn, hle, hpass⟩ := pass_eq_foldl hm hbuf
      rw [hpass, ih _ _ (reading_foldl _ hm) (by rw [List.length_drop]; omega), ← List.foldl_append, List.take_append_drop]

/-- **A chunk is its bytes one after another.** -/
theorem feed_eq_foldl {m : DirMeter} (hm : m.Reading) (buf : Bytes) : m.feed buf = buf.foldl byte m :=
  feedLoop_eq_foldl _ m buf hm le_rfl

theorem reading_default : ({} : DirMeter).Reading := Nat.two_pos

/-- Chunks are the stream they make. -/
theorem foldl_feed (chunks : List Bytes) :
    ∀ {m : DirMeter}, m.Reading → chunks.foldl feed m = chunks.flatten.foldl byte m := by
  induction chunks with
  | nil => exact fun _ => rfl
  | cons c chunks ih =>
    intro m hm
    rw [List.foldl_cons, feed_eq_foldl hm, ih (reading_foldl c hm), List.flatten_cons, List.foldl_append]

end DirMeter

/-! ## The stream frame by frame -/

/-- A whole header (its first byte and the payload length) and what follows it. -/
def readHeader : Bytes → Option ((UInt8 × Nat) × Bytes)
  | first :: second :: rest =>
    let more := extendedLen second + maskLen second
    if rest.length < more then none else some ((first, payloadLen second rest), rest.drop more)
  | _ => none

theorem length_of_readHeader {s rest : Bytes} {h : UInt8 × Nat} (hs : readHeader s = some (h, rest)) :
    rest.length < s.length := by
  match s with
  | [] => simp [readHeader] at hs
  | [_] => simp [readHeader] at hs
  | first :: second :: tail =>
    simp only [readHeader] at hs
    split at hs
    · simp at hs
    · obtain ⟨-, rfl⟩ := Prod.mk.inj (Option.some.inj hs)
      simp only [List.length_drop, List.length_cons]
      omega

/-- The first byte of every frame whose header is whole, with the payload bytes of it that are there. -/
def parseFrames (s : Bytes) : List (UInt8 × Nat) :=
  match _h : readHeader s with
  | none => []
  | some ((first, len), rest) => (first, min len rest.length) :: parseFrames (rest.drop len)
termination_by s.length
decreasing_by
  have := length_of_readHeader _h
  rw [List.length_drop]
  omega

theorem parseFrames_none {s : Bytes} (h : readHeader s = none) : parseFrames s = [] := by
  rw [parseFrames]
  split <;> simp_all

theorem parseFrames_some {s rest : Bytes} {first : UInt8} {len : Nat} (h : readHeader s = some ((first, len), rest)) :
    parseFrames s = (first, min len rest.length) :: parseFrames (rest.drop len) := by
  rw [parseFrames]
  split <;> simp_all

/-- The totals of frames read. -/
def tally (frames : List (UInt8 × Nat)) : WsDirectionTotals where
  messages := frames.countP fun f => startsMessage f.1
  compressedMessages := frames.countP fun f => startsMessage f.1 && isCompressed f.1
  wireBytes := (frames.map fun f => if isData f.1 then f.2 else 0).sum

def WsDirectionTotals.plus (a b : WsDirectionTotals) : WsDirectionTotals where
  messages := a.messages + b.messages
  compressedMessages := a.compressedMessages + b.compressedMessages
  wireBytes := a.wireBytes + b.wireBytes

theorem plus_tally_nil (t : WsDirectionTotals) : t.plus (tally []) = t := rfl

/-- The next frame's part of the totals. -/
theorem plus_tally_cons (t : WsDirectionTotals) (f : UInt8 × Nat) (frames : List (UInt8 × Nat)) :
    t.plus (tally (f :: frames)) = (t.plus (tally [f])).plus (tally frames) := by
  unfold tally WsDirectionTotals.plus
  simp only [List.countP_cons, List.countP_nil, List.map_cons, List.map_nil, List.sum_cons, List.sum_nil,
    WsDirectionTotals.mk.injEq]
  omega

namespace DirMeter

/-- Between two frames. -/
structure Between (m : DirMeter) : Prop where
  header : m.header = []
  skip : m.skip = 0
  need : m.begun.need = 2

variable {m : DirMeter}

theorem Between.reading (h : m.Between) : m.Reading := by
  unfold Reading
  rw [h.header, h.need]
  exact Nat.two_pos

theorem between_passed (m : DirMeter) : (m.opened.passed m.opened.skip).Between := ⟨rfl, Nat.sub_self _, rfl⟩

theorem Between.holding (h : m.Between) (bs : Bytes) : m.holding bs = { m with header := bs, need := 2 } := by
  have hneed := h.need
  rw [begun_need] at hneed
  unfold DirMeter.holding begun
  rw [h.header, List.nil_append]
  split
  · rfl
  · rw [if_neg ‹_›] at hneed
    simp only [hneed]

/-- The header's first two bytes. -/
theorem foldl_second (h : m.Between) (first second : UInt8) : [first, second].foldl byte m =
    filled { m with header := [first, second], need := 2 } := by
  rw [foldl_fill_last h.skip (List.cons_ne_nil _ _) (by rw [h.header, h.need]; rfl), h.holding]

/-- They are the header, or say how much more of it there is. -/
theorem filled_second (m : DirMeter) (first second : UInt8) : filled { m with header := [first, second], need := 2 } =
    if extendedLen second + maskLen second = 0 then opened { m with header := [first, second] }
    else { m with header := [first, second], need := 2 + (extendedLen second + maskLen second) } := by
  unfold filled
  simp only [List.length_cons, List.length_nil, List.getD_cons_succ, List.getD_cons_zero, Nat.add_assoc]
  rw [if_neg (Nat.lt_irrefl 2), if_pos trivial]
  by_cases hnone : extendedLen second + maskLen second = 0
  · rw [if_neg (by omega), if_pos hnone]
    rfl
  · rw [if_pos (by omega), if_neg hnone]

/-- **A whole header opens its frame**, and one that is not whole counts nothing. -/
theorem foldl_more (h : m.Between) (first second : UInt8) {more : Bytes}
    (hmore : more.length ≤ extendedLen second + maskLen second) : (first :: second :: more).foldl byte m =
      if more.length = extendedLen second + maskLen second then opened { m with header := first :: second :: more }
      else { m with header := first :: second :: more, need := 2 + (extendedLen second + maskLen second) } := by
  have hsplit : (first :: second :: more).foldl byte m = more.foldl byte ([first, second].foldl byte m) := rfl
  rw [hsplit, foldl_second h, filled_second]
  by_cases hnil : more = []
  · subst hnil
    simp only [List.length_nil, List.foldl_nil, eq_comm]
  · have hpos := List.length_pos_iff.2 hnil
    have hneed : 0 < 2 + (extendedLen second + maskLen second) := by omega
    rw [if_neg (by omega), foldl_fill_last
      (m := { m with header := [first, second], need := 2 + (extendedLen second + maskLen second) }) h.skip hnil]
    · unfold filled DirMeter.holding
      rw [begun_of_need hneed]
      simp only [List.cons_append, List.nil_append, List.length_cons]
      split_ifs with hlt htwo hsame hsame hnot <;> first | rfl | omega
    · rw [begun_of_need hneed]
      simp only [List.length_cons, List.length_nil]
      omega

/-- A header that is not whole counts nothing. -/
theorem totals_none (h : m.Between) {s : Bytes} (hs : readHeader s = none) : (s.foldl byte m).totals = m.totals := by
  match s with
  | [] => rfl
  | [first] =>
    rw [foldl_fill _ m h.skip (List.cons_ne_nil _ _) (by rw [h.header, h.need]; exact Nat.one_lt_two), h.holding]
  | first :: second :: more =>
    simp only [readHeader] at hs
    split at hs
    · rename_i hlt
      rw [foldl_more h first second hlt.le, if_neg hlt.ne]
    · simp at hs

/-- The length is in the header. -/
theorem payloadLen_take (second : UInt8) (rest : Bytes) (k : Nat) :
    payloadLen second (rest.take (extendedLen second + k)) = payloadLen second rest := by
  unfold payloadLen extendedLen
  by_cases h126 : second &&& 0x7f = 126
  · rw [if_pos h126, if_pos h126, if_pos h126, List.take_take, Nat.min_eq_left (Nat.le_add_right _ _)]
  · rw [if_neg h126, if_neg h126, if_neg h126]
    by_cases h127 : second &&& 0x7f = 127
    · rw [if_pos h127, if_pos h127, if_pos h127, List.take_take, Nat.min_eq_left (Nat.le_add_right _ _)]
    · rw [if_neg h127, if_neg h127]

/-- What a frame adds to the totals, once `n` of its payload bytes have passed. -/
theorem totals_opened (m : DirMeter) (first second : UInt8) (more : Bytes) (n : Nat) :
    ((opened { m with header := first :: second :: more }).passed n).totals = m.totals.plus (tally [(first, n)]) := by
  unfold opened passed tally WsDirectionTotals.plus
  simp only [List.getD_cons_zero, List.countP_singleton, List.map_singleton, List.sum_singleton]
  cases hdata : isData first <;> cases hstart : startsMessage first <;> cases hcompressed : isCompressed first <;> rfl

/-- A frame is opened, and what is there of its payload passes. -/
theorem foldl_frame (h : m.Between) {s rest : Bytes} {first : UInt8} {len : Nat}
    (hs : readHeader s = some ((first, len), rest)) : ∃ m' : DirMeter, s.foldl byte m = (rest.drop len).foldl byte m' ∧
      m'.totals = m.totals.plus (tally [(first, min len rest.length)]) ∧ (len ≤ rest.length → m'.Between) := by
  match s with
  | [] => simp [readHeader] at hs
  | [_] => simp [readHeader] at hs
  | first' :: second :: tail =>
    simp only [readHeader] at hs
    split at hs
    · simp at hs
    · rename_i hge
      obtain ⟨hhead, rfl⟩ := Prod.mk.inj (Option.some.inj hs)
      obtain ⟨rfl, rfl⟩ := Prod.mk.inj hhead
      have hmore : (tail.take (extendedLen second + maskLen second)).length = extendedLen second + maskLen second := by
        rw [List.length_take]
        omega
      have hopened := foldl_more h first' second hmore.le
      rw [if_pos hmore] at hopened
      have hlen : (opened { m with header := first' :: second :: tail.take (extendedLen second + maskLen second) }).skip =
          payloadLen second tail := payloadLen_take second tail (maskLen second)
      generalize hm₁ : opened { m with header := first' :: second :: tail.take (extendedLen second + maskLen second) } =
        m₁ at *
      generalize hrest : tail.drop (extendedLen second + maskLen second) = rest
      have htake : (rest.take (payloadLen second tail)).length = min (payloadLen second tail) rest.length := List.length_take
      refine ⟨m₁.passed (min (payloadLen second tail) rest.length), ?_, ?_, fun hle => ?_⟩
      · have hall : first' :: second :: tail = (first' :: second :: tail.take (extendedLen second + maskLen second)) ++
            (rest.take (payloadLen second tail) ++ rest.drop (payloadLen second tail)) := by
          rw [List.take_append_drop, ← hrest, List.cons_append, List.cons_append, List.take_append_drop]
        rw [hall, List.foldl_append, hopened, List.foldl_append,
          foldl_skip (rest.take (payloadLen second tail)) m₁ (by omega), htake]
      · rw [← hm₁]
        exact totals_opened m first' second _ _
      · rw [Nat.min_eq_left hle, ← hlen, ← hm₁]
        exact between_passed _

/-- From between two frames on, the meter counts the frames of the stream. -/
theorem foldl_frames (s : Bytes) : ∀ {m : DirMeter}, m.Between →
    (s.foldl byte m).totals = m.totals.plus (tally (parseFrames s)) := by
  intro m h
  cases hs : readHeader s with
  | none => rw [totals_none h hs, parseFrames_none hs, plus_tally_nil]
  | some f =>
    obtain ⟨⟨first, len⟩, rest⟩ := f
    obtain ⟨m', hfold, htotals, hbetween⟩ := foldl_frame h hs
    rw [hfold, parseFrames_some hs, plus_tally_cons, ← htotals]
    by_cases hle : len ≤ rest.length
    · have hless := length_of_readHeader hs
      exact foldl_frames (rest.drop len) (hbetween hle)
    · rw [List.drop_eq_nil_of_le (by omega), parseFrames_none (s := []) rfl, plus_tally_nil, List.foldl_nil]
termination_by s.length
decreasing_by
  rw [List.length_drop]
  omega

theorem between_default : ({} : DirMeter).Between := ⟨rfl, rfl, rfl⟩

end DirMeter

/-! ## Streams of frames -/

/-- The form a frame gives its length in. -/
inductive LenForm
  | inline
  | two
  | eight
deriving DecidableEq

/-- The lengths below which a form can give one. -/
def LenForm.bound : LenForm → Nat
  | .inline => 126
  | .two => 2 ^ 16
  | .eight => 2 ^ 64

/-- A WebSocket frame: FIN, RSV and opcode in its first byte, and the payload as it is on the wire. -/
structure WsFrame where
  first : UInt8
  form : LenForm
  mask : Option (UInt8 × UInt8 × UInt8 × UInt8)
  payload : Bytes
  fits : payload.length < form.bound

namespace WsFrame

def maskBit (f : WsFrame) : UInt8 := if f.mask.isSome then 0x80 else 0

def maskBytes (f : WsFrame) : Bytes :=
  match f.mask with
  | some (a, b, c, d) => [a, b, c, d]
  | none => []

/-- The length, or the mark of the form that follows. -/
def code (f : WsFrame) : Nat :=
  match f.form with
  | .inline => f.payload.length
  | .two => 126
  | .eight => 127

def second (f : WsFrame) : UInt8 := f.maskBit ||| UInt8.ofNat f.code

def extended (f : WsFrame) : Bytes :=
  match f.form with
  | .inline => []
  | .two => beBytes 2 f.payload.length
  | .eight => beBytes 8 f.payload.length

def encode (f : WsFrame) : Bytes := f.first :: f.second :: (f.extended ++ f.maskBytes) ++ f.payload

/-- The mask bit and the low bits do not meet. -/
theorem second_bits : ∀ bit ∈ [0, (0x80 : UInt8)], ∀ n < 128, (bit ||| UInt8.ofNat n) &&& 0x7f = UInt8.ofNat n ∧
    ((bit ||| UInt8.ofNat n) &&& 0x80 ≠ 0 ↔ bit = 0x80) := by
  decide +kernel

theorem code_lt (f : WsFrame) : f.code < 128 := by
  have hfits := f.fits
  unfold code
  cases hform : f.form with
  | inline =>
    rw [hform] at hfits
    have : f.payload.length < 126 := hfits
    simp only
    omega
  | two => exact (by decide : 126 < 128)
  | eight => exact (by decide : 127 < 128)

theorem second_low (f : WsFrame) : f.second &&& 0x7f = UInt8.ofNat f.code := by
  refine (second_bits f.maskBit ?_ f.code f.code_lt).1
  unfold maskBit
  split <;> decide

theorem maskLen_second (f : WsFrame) : maskLen f.second = f.maskBytes.length := by
  have hbit : f.second &&& 0x80 ≠ 0 ↔ f.maskBit = 0x80 := by
    refine (second_bits f.maskBit ?_ f.code f.code_lt).2
    unfold maskBit
    split <;> decide
  unfold maskLen
  simp only [hbit]
  unfold maskBit maskBytes
  cases f.mask <;> rfl

/-- A length in the second byte is not a mark. -/
theorem inline_ne {n : Nat} (hn : n < 126) : UInt8.ofNat n ≠ 126 ∧ UInt8.ofNat n ≠ 127 := by
  have htoNat : (UInt8.ofNat n).toNat = n := UInt8.toNat_ofNat_of_lt' (by change _ < 256; omega)
  constructor
  · intro h
    rw [h] at htoNat
    exact absurd htoNat.symm hn.ne
  · intro h
    rw [h] at htoNat
    exact absurd htoNat.symm (by change n ≠ 127; omega)

theorem extendedLen_second (f : WsFrame) : extendedLen f.second = f.extended.length := by
  have hfits := f.fits
  unfold extendedLen
  rw [second_low]
  unfold code extended
  cases hform : f.form with
  | inline =>
    rw [hform] at hfits
    have hlt : f.payload.length < 126 := hfits
    simp only
    rw [if_neg (inline_ne hlt).1, if_neg (inline_ne hlt).2, List.length_nil]
  | two => rw [length_beBytes]; rfl
  | eight => rw [length_beBytes]; rfl

/-- Every form gives the payload's length. -/
theorem payloadLen_second (f : WsFrame) (rest : Bytes) : payloadLen f.second (f.extended ++ rest) = f.payload.length := by
  have hfits := f.fits
  unfold payloadLen
  rw [second_low]
  unfold code extended
  cases hform : f.form with
  | inline =>
    rw [hform] at hfits
    have hlt : f.payload.length < 126 := hfits
    simp only
    rw [if_neg (inline_ne hlt).1, if_neg (inline_ne hlt).2, UInt8.toNat_ofNat_of_lt' (by change _ < 256; omega)]
  | two =>
    rw [hform] at hfits
    simp only
    rw [if_pos (by rfl), List.take_left' (length_beBytes 2 _)]
    exact ofBeBytes_beBytes hfits
  | eight =>
    rw [hform] at hfits
    simp only
    rw [if_neg (by decide), if_pos (by rfl), List.take_left' (length_beBytes 8 _)]
    exact ofBeBytes_beBytes hfits

/-- A frame is read as it was written. -/
theorem readHeader_encode (f : WsFrame) (rest : Bytes) :
    readHeader (f.encode ++ rest) = some ((f.first, f.payload.length), f.payload ++ rest) := by
  have hlen : (f.extended ++ f.maskBytes).length = extendedLen f.second + maskLen f.second := by
    rw [List.length_append, extendedLen_second, maskLen_second]
  have hencode : f.encode ++ rest = f.first :: f.second :: ((f.extended ++ f.maskBytes) ++ (f.payload ++ rest)) := by
    simp [encode]
  rw [hencode]
  simp only [readHeader]
  rw [if_neg (by rw [List.length_append]; omega), List.drop_left' hlen, List.append_assoc, payloadLen_second]

theorem parseFrames_encode (frames : List WsFrame) : parseFrames (frames.flatMap encode) =
    frames.map fun f => (f.first, f.payload.length) := by
  induction frames with
  | nil => exact parseFrames_none rfl
  | cons f frames ih =>
    rw [List.flatMap_cons, parseFrames_some (readHeader_encode f _), List.drop_left, ih, List.length_append,
      Nat.min_eq_left (Nat.le_add_right _ _), List.map_cons]

end WsFrame

/-- **The meter counts what a reading of the whole stream frame by frame counts**, however the stream is cut into chunks; of
a stream of frames that is every message, every compressed message and every data byte. -/
theorem meter_exact (chunks : List Bytes) : (chunks.foldl DirMeter.feed {}).totals = tally (parseFrames chunks.flatten) ∧
    ∀ frames : List WsFrame, chunks.flatten = frames.flatMap WsFrame.encode →
      (chunks.foldl DirMeter.feed {}).totals = tally (frames.map fun f => (f.first, f.payload.length)) := by
  have hstream : (chunks.foldl DirMeter.feed {}).totals = tally (parseFrames chunks.flatten) := by
    rw [DirMeter.foldl_feed chunks DirMeter.reading_default, DirMeter.foldl_frames _ DirMeter.between_default]
    unfold WsDirectionTotals.plus
    simp only [Nat.zero_add]
  refine ⟨hstream, fun frames hframes => ?_⟩
  rw [hstream, hframes, WsFrame.parseFrames_encode]

end Anvil.WsDeflate
