import Anvil.Lib.Wire

/-!
# Capsules of a CONNECT-UDP stream (`anvil-transport/src/masque.rs`)

The proxy's stream is a sequence of capsules. Its decoder counts the values of unknown capsules down without keeping them.

* `putVarint`, `readVarint` : QUIC variable-length integers; `Varint` : every encoding of a number, `readVarint_varint` reads
  it;
* `CapsuleDecoder`, `MasqueChannel.onStream` : the decoder, and the chunks of the stream fed to it in pieces;
* `parse` : what is at the front of a stream between two capsules; `decodeNext_cases` : the decoder reads that;
* `drain_push` : bytes that arrive later are read as if they had been there.
-/

namespace Anvil.Masque
open Anvil.Lib

abbrev Bytes := List UInt8

/-- `CAPSULE_DATAGRAM`. -/
def capsuleDatagram : Nat := 0

/-- `MAX_UDP_PAYLOAD`. -/
def maxUdpPayload : Nat := 65527

/-- `MAX_CAPSULE_HEADER`. -/
def maxCapsuleHeader : Nat := 16

/-- `CONTEXT_ID_SLACK`. -/
def contextIdSlack : Nat := 8

/-! ## Variable-length integers -/

def putVarint (v : Nat) : Bytes :=
  if v < 2 ^ 6 then beBytes 1 v
  else if v < 2 ^ 14 then beBytes 2 (0x4000 ||| v)
  else if v < 2 ^ 30 then beBytes 4 (0x80000000 ||| v)
  else beBytes 8 (0xC000000000000000 ||| v)

/-- The integer at `pos`, and the position after it. -/
def readVarint (buf : Bytes) (pos : Nat) : Option (Nat × Nat) :=
  match buf[pos]? with
  | none => none
  | some first =>
    let len := 2 ^ (first.toNat / 64)
    if buf.length - pos < len then none
    else some (((buf.drop (pos + 1)).take (len - 1)).foldl (fun v b => v * 256 + b.toNat) (first.toNat % 64), pos + len)

/-- The encodings of a number in one, two, four or eight bytes. -/
def Varint (v : Nat) (w : Bytes) : Prop :=
  ∃ k < 4, v < 2 ^ (8 * 2 ^ k - 2) ∧ w = beBytes (2 ^ k) (k * 2 ^ (8 * 2 ^ k - 2) + v)

/-- **An encoding is read back**, whatever comes before and after it. -/
theorem readVarint_varint {v : Nat} {w : Bytes} (h : Varint v w) (before rest : Bytes) :
    readVarint (before ++ (w ++ rest)) before.length = some (v, before.length + w.length) := by
  obtain ⟨k, hk, hv, rfl⟩ := h
  obtain ⟨j, hj⟩ : ∃ j, 2 ^ k = j + 1 := Nat.exists_eq_succ_of_ne_zero (pow_ne_zero _ (by decide))
  have hpow : 256 ^ j * 64 = 2 ^ (8 * 2 ^ k - 2) := by
    rw [hj, show 8 * (j + 1) - 2 = 8 * j + 6 by omega, pow_add, pow_mul]
    rfl
  generalize hm : k * 2 ^ (8 * 2 ^ k - 2) + v = m
  have hlt : m < 256 ^ (j + 1) := by
    rw [← hm, pow_succ, ← hpow]
    rw [← hpow] at hv
    have : k * (256 ^ j * 64) ≤ 3 * (256 ^ j * 64) := Nat.mul_le_mul_right _ (by omega)
    omega
  have hfirst : m / 256 ^ j = k * 64 + v / 256 ^ j := by
    rw [← hm, ← hpow, show k * (256 ^ j * 64) + v = v + 256 ^ j * (k * 64) by ring, Nat.add_mul_div_left _ _ (by positivity),
      Nat.add_comm]
  have hvj : v / 256 ^ j < 64 := by
    rw [Nat.div_lt_iff_lt_mul (by positivity), Nat.mul_comm, hpow]
    exact hv
  have htoNat : (UInt8.ofNat (m / 256 ^ j)).toNat = k * 64 + v / 256 ^ j := by
    rw [hfirst]
    exact UInt8.toNat_ofNat_of_lt' (by change _ < 256; omega)
  have hmod : m % 256 ^ j = v % 256 ^ j := by
    rw [← hm, ← hpow, show k * (256 ^ j * 64) + v = v + 256 ^ j * (k * 64) by ring, Nat.add_mul_mod_self_left]
  have hsplit : ∀ q < 64, (k * 64 + q) / 64 = k ∧ (k * 64 + q) % 64 = q := fun q hq => ⟨by omega, by omega⟩
  have hbytes : beBytes (2 ^ k) m = UInt8.ofNat (m / 256 ^ j) :: beBytes j (v % 256 ^ j) := by
    rw [hj, beBytes_succ j m hlt, hmod]
  have hget : (before ++ (beBytes (2 ^ k) m ++ rest))[before.length]? = some (UInt8.ofNat (m / 256 ^ j)) := by
    rw [hbytes, List.getElem?_append_right le_rfl, Nat.sub_self]
    rfl
  have hdrop : (before ++ (beBytes (2 ^ k) m ++ rest)).drop (before.length + 1) = beBytes j (v % 256 ^ j) ++ rest := by
    rw [hbytes, ← List.drop_drop, List.drop_left]
    rfl
  have hlen : 2 ^ ((UInt8.ofNat (m / 256 ^ j)).toNat / 64) = j + 1 := by
    rw [htoNat, (hsplit _ hvj).1, hj]
  unfold readVarint
  rw [hget]
  simp only [hlen, hdrop]
  rw [if_neg (by simp only [List.length_append, length_beBytes]; omega), Nat.add_sub_cancel,
    List.take_left' (length_beBytes j _), foldl_beBytes j _ _ (Nat.mod_lt _ (by positivity)), htoNat, length_beBytes, hj,
    (hsplit _ hvj).2, Nat.mul_comm, Nat.div_add_mod]

theorem varint_putVarint {v : Nat} (h : v < 2 ^ 62) : Varint v (putVarint v) := by
  unfold putVarint
  split_ifs with h1 h2 h3
  · exact ⟨0, by decide, h1, by rw [Nat.zero_mul, Nat.zero_add]; rfl⟩
  · exact ⟨1, by decide, h2, congrArg (beBytes 2) (Nat.two_pow_add_eq_or_of_lt h2 1).symm⟩
  · exact ⟨2, by decide, h3, congrArg (beBytes 4) (Nat.two_pow_add_eq_or_of_lt h3 2).symm⟩
  · exact ⟨3, by decide, h, congrArg (beBytes 8) (Nat.two_pow_add_eq_or_of_lt h 3).symm⟩

theorem length_varint {v : Nat} {w : Bytes} (h : Varint v w) : 0 < w.length ∧ w.length ≤ 8 := by
  obtain ⟨k, hk, -, rfl⟩ := h
  rw [length_beBytes]
  exact ⟨Nat.two_pow_pos k, (Nat.pow_le_pow_right Nat.two_pos (by omega : k ≤ 3)).trans (by decide)⟩

/-- A read integer is in the buffer, and bytes that come after do not change it. -/
theorem readVarint_some {buf : Bytes} {pos v p : Nat} (h : readVarint buf pos = some (v, p)) :
    pos < p ∧ p ≤ buf.length ∧ p ≤ pos + 8 ∧ ∀ more, readVarint (buf ++ more) pos = some (v, p) := by
  unfold readVarint at h ⊢
  cases hget : buf[pos]? with
  | none => simp [hget] at h
  | some first =>
    have hlt := (List.getElem?_eq_some_iff.1 hget).1
    have hlen : 0 < 2 ^ (first.toNat / 64) := Nat.two_pow_pos _
    have hle : 2 ^ (first.toNat / 64) ≤ 8 := by
      have := first.toNat_lt
      exact (Nat.pow_le_pow_right Nat.two_pos (by omega : first.toNat / 64 ≤ 3)).trans (by decide)
    simp only [hget] at h
    split at h
    · cases h
    · rename_i hge
      obtain ⟨rfl, rfl⟩ := Prod.mk.inj (Option.some.inj h)
      refine ⟨by omega, by omega, by omega, fun more => ?_⟩
      rw [List.getElem?_append_left hlt, hget]
      simp only
      rw [if_neg (by rw [List.length_append]; omega), List.drop_append_of_le_length (by omega),
        List.take_append_of_le_length (by rw [List.length_drop]; omega)]

theorem length_of_readVarint_none {buf : Bytes} {pos : Nat} (h : readVarint buf pos = none) : buf.length < pos + 8 := by
  unfold readVarint at h
  cases hget : buf[pos]? with
  | none =>
    have := List.getElem?_eq_none_iff.1 hget
    omega
  | some first =>
    simp only [hget] at h
    split at h
    · rename_i hlt
      have := first.toNat_lt
      have : 2 ^ (first.toNat / 64) ≤ 8 :=
        (Nat.pow_le_pow_right Nat.two_pos (by omega : first.toNat / 64 ≤ 3)).trans (by decide)
      omega
    · cases h

/-! ## The decoder -/

inductive Capsule
  | udp (payload : Bytes)
  | unregisteredContext (context : Nat)
  | unknown (type : Nat)
deriving DecidableEq

inductive CapsuleError
  | tooLarge
  | truncated
  | endedInsideCapsule
deriving DecidableEq

def CapsuleError.describe : CapsuleError → String
  | .tooLarge => "a DATAGRAM capsule declared a length larger than any UDP payload"
  | .truncated => "a DATAGRAM capsule was too short to hold a Context ID"
  | .endedInsideCapsule => "the stream ended inside a capsule, which RFC 9297 §3.3 defines as malformed"

/-- At most one partial capsule, and how much of an unknown one is still to be skipped. -/
structure CapsuleDecoder where
  buf : Bytes := []
  skip : Nat := 0
deriving DecidableEq

namespace CapsuleDecoder

def maxValue : Nat := maxUdpPayload + contextIdSlack

def feedLimit : Nat := maxValue + maxCapsuleHeader

def push (d : CapsuleDecoder) (chunk : Bytes) : CapsuleDecoder := { d with buf := d.buf ++ chunk }

def advanceSkip (d : CapsuleDecoder) : CapsuleDecoder where
  buf := d.buf.drop (min d.skip d.buf.length)
  skip := d.skip - min d.skip d.buf.length

/-- The value of a DATAGRAM capsule. -/
def datagram (value : Bytes) : Except CapsuleError Capsule :=
  match readVarint value 0 with
  | none => .error .truncated
  | some (context, pos) => .ok (if context ≠ 0 then .unregisteredContext context else .udp (value.drop pos))

/-- What is at the front of a buffer between two capsules. -/
def decodeFront (buf : Bytes) : Except CapsuleError (Option Capsule) × CapsuleDecoder :=
  match readVarint buf 0 with
  | none => (.ok none, ⟨buf, 0⟩)
  | some (type, pos) =>
    match readVarint buf pos with
    | none => (.ok none, ⟨buf, 0⟩)
    | some (len, pos) =>
      if type ≠ capsuleDatagram then (.ok (some (.unknown type)), advanceSkip ⟨buf.drop pos, len⟩)
      else if maxValue < len then (.error .tooLarge, ⟨buf, 0⟩)
      else if buf.length - pos < len then (.ok none, ⟨buf, 0⟩)
      else ((datagram ((buf.drop pos).take len)).map some, ⟨buf.drop (pos + len), 0⟩)

/-- The next complete capsule, or none when more bytes are needed. -/
def decodeNext (d : CapsuleDecoder) : Except CapsuleError (Option Capsule) × CapsuleDecoder :=
  if d.advanceSkip.skip ≠ 0 then (.ok none, d.advanceSkip) else decodeFront d.advanceSkip.buf

def finish (d : CapsuleDecoder) : Except CapsuleError Unit :=
  if d.buf = [] ∧ d.skip = 0 then .ok () else .error .endedInsideCapsule

/-! ## One capsule -/

theorem advanceSkip_eq (d : CapsuleDecoder) : d.advanceSkip = ⟨d.buf.drop d.skip, d.skip - d.buf.length⟩ := by
  unfold advanceSkip
  rcases Nat.le_total d.skip d.buf.length with h | h
  · rw [Nat.min_eq_left h, Nat.sub_self, Nat.sub_eq_zero_of_le h]
  · rw [Nat.min_eq_right h, List.drop_length, List.drop_eq_nil_of_le h]

theorem advanceSkip_zero (buf : Bytes) : advanceSkip ⟨buf, 0⟩ = ⟨buf, 0⟩ := by
  rw [advanceSkip_eq]
  exact congrArg _ (Nat.zero_sub _)

/-- Skipping more once more arrives is skipping at once. -/
theorem advanceSkip_push (d : CapsuleDecoder) (more : Bytes) :
    (d.advanceSkip.push more).advanceSkip = (d.push more).advanceSkip := by
  simp only [advanceSkip_eq, push, List.length_append, List.length_drop]
  rcases Nat.le_total d.skip d.buf.length with h | h
  · rw [Nat.sub_eq_zero_of_le h, List.drop_zero, List.drop_append_of_le_length h]
    congr 1
    omega
  · rw [List.drop_eq_nil_of_le h, List.nil_append, List.drop_append, List.drop_eq_nil_of_le h, List.nil_append]
    congr 1
    omega

theorem advanceSkip_advanceSkip (d : CapsuleDecoder) : d.advanceSkip.advanceSkip = d.advanceSkip := by
  have h := d.advanceSkip_push []
  simpa [push] using h

theorem decodeNext_advanceSkip (d : CapsuleDecoder) : d.advanceSkip.decodeNext = d.decodeNext := by
  unfold decodeNext
  rw [advanceSkip_advanceSkip]

theorem decodeNext_zero (buf : Bytes) : decodeNext ⟨buf, 0⟩ = decodeFront buf := by
  unfold decodeNext
  rw [advanceSkip_zero]
  exact if_neg fun h => h rfl

/-- The decoder is inside a value that it skips, or between two capsules. -/
theorem decodeNext_cases (d : CapsuleDecoder) :
    (d.advanceSkip.buf = [] ∧ 0 < d.advanceSkip.skip ∧ d.decodeNext = (.ok none, d.advanceSkip)) ∨
    (d.advanceSkip = ⟨d.buf.drop d.skip, 0⟩ ∧ d.decodeNext = decodeFront (d.buf.drop d.skip)) := by
  by_cases h : d.advanceSkip.skip = 0
  · have hd : d.advanceSkip = ⟨d.buf.drop d.skip, 0⟩ := by
      rw [advanceSkip_eq] at h ⊢
      exact congrArg _ h
    refine .inr ⟨hd, ?_⟩
    rw [← decodeNext_advanceSkip, hd, decodeNext_zero]
  · refine .inl ⟨?_, Nat.pos_of_ne_zero h, if_pos h⟩
    rw [advanceSkip_eq] at h ⊢
    exact List.drop_eq_nil_of_le (by simp only at h; omega)

/-- What the front of a buffer gives: nothing yet, or an answer that more bytes do not change. -/
theorem decodeFront_cases (buf : Bytes) :
    (decodeFront buf = (.ok none, ⟨buf, 0⟩) ∧ buf.length < feedLimit) ∨
    (∃ e d, decodeFront buf = (.error e, d) ∧ ∀ more, (decodeFront (buf ++ more)).1 = .error e) ∨
    ∃ c d, decodeFront buf = (.ok (some c), d) ∧ d.buf.length < buf.length ∧
      ∀ more, decodeFront (buf ++ more) = (.ok (some c), (d.push more).advanceSkip) := by
  cases htype : readVarint buf 0 with
  | none =>
    refine .inl ⟨by simp only [decodeFront, htype], ?_⟩
    have := length_of_readVarint_none htype
    exact lt_of_lt_of_le this (by decide)
  | some t =>
    obtain ⟨type, pos⟩ := t
    obtain ⟨hpos, hposle, hpos8, htype'⟩ := readVarint_some htype
    cases hlen : readVarint buf pos with
    | none =>
      refine .inl ⟨by simp only [decodeFront, htype, hlen], ?_⟩
      have := length_of_readVarint_none hlen
      exact lt_of_lt_of_le (show buf.length < 16 by omega) (by decide)
    | some l =>
      obtain ⟨len, pos'⟩ := l
      obtain ⟨hpos', hpos'le, hpos'8, hlen'⟩ := readVarint_some hlen
      have hdrop (more : Bytes) : (buf ++ more).drop pos' = buf.drop pos' ++ more := List.drop_append_of_le_length hpos'le
      by_cases hdatagram : type ≠ capsuleDatagram
      · refine .inr (.inr ⟨.unknown type, advanceSkip ⟨buf.drop pos', len⟩, ?_, ?_, fun more => ?_⟩)
        · simp only [decodeFront, htype, hlen, if_pos hdatagram]
        · simp only [advanceSkip_eq, List.length_drop]
          omega
        · simp only [decodeFront, htype', hlen', if_pos hdatagram, hdrop, advanceSkip_push]
          rfl
      · by_cases hlarge : maxValue < len
        · refine .inr (.inl ⟨.tooLarge, ⟨buf, 0⟩, ?_, fun more => ?_⟩)
          · simp only [decodeFront, htype, hlen, if_neg hdatagram, if_pos hlarge]
          · simp only [decodeFront, htype', hlen', if_neg hdatagram, if_pos hlarge]
        · by_cases hpart : buf.length - pos' < len
          · refine .inl ⟨by simp only [decodeFront, htype, hlen, if_neg hdatagram, if_neg hlarge, if_pos hpart], ?_⟩
            unfold feedLimit maxCapsuleHeader
            omega
          · have htake (more : Bytes) : ((buf.drop pos') ++ more).take len = (buf.drop pos').take len :=
              List.take_append_of_le_length (by rw [List.length_drop]; omega)
            have hfront : decodeFront buf = ((datagram ((buf.drop pos').take len)).map some, ⟨buf.drop (pos' + len), 0⟩) := by
              simp only [decodeFront, htype, hlen, if_neg hdatagram, if_neg hlarge, if_neg hpart]
            have hfront' (more : Bytes) : decodeFront (buf ++ more) =
                ((datagram ((buf.drop pos').take len)).map some, ⟨buf.drop (pos' + len) ++ more, 0⟩) := by
              have hpart' : ¬(buf ++ more).length - pos' < len := by
                rw [List.length_append]
                omega
              simp only [decodeFront, htype', hlen', if_neg hdatagram, if_neg hlarge, if_neg hpart', hdrop, htake]
              rw [List.drop_append_of_le_length (by omega)]
            cases hvalue : datagram ((buf.drop pos').take len) with
            | error e =>
              rw [hvalue] at hfront hfront'
              exact .inr (.inl ⟨e, _, hfront, fun more => (by rw [hfront']; rfl)⟩)
            | ok c =>
              rw [hvalue] at hfront hfront'
              refine .inr (.inr ⟨c, _, hfront, ?_, fun more => ?_⟩)
              · simp only [List.length_drop]
                omega
              · rw [hfront', push, advanceSkip_zero]
                rfl

/-! ## Draining -/

/-- The capsules decoded, the error that ended the stream, and the decoder. -/
structure Decoded where
  capsules : List Capsule
  error : Option CapsuleError
  decoder : CapsuleDecoder

theorem decodeNext_shorter {d d' : CapsuleDecoder} {c : Capsule} (h : d.decodeNext = (.ok (some c), d')) :
    d'.buf.length < d.buf.length := by
  obtain ⟨-, -, hnone⟩ | ⟨-, hfront⟩ := decodeNext_cases d
  · rw [hnone] at h
    cases h
  · rw [hfront] at h
    obtain ⟨hnone, -⟩ | ⟨e, d'', herror, -⟩ | ⟨c', d'', hsome, hless, -⟩ := decodeFront_cases (d.buf.drop d.skip)
    · rw [hnone] at h
      cases h
    · rw [herror] at h
      cases h
    · rw [hsome] at h
      obtain ⟨-, rfl⟩ := Prod.mk.inj h
      rw [List.length_drop] at hless
      omega

/-- Decode until more bytes are needed or the stream is malformed. -/
def drain (d : CapsuleDecoder) : Decoded :=
  match _h : d.decodeNext with
  | (.ok none, d') => ⟨[], none, d'⟩
  | (.error e, d') => ⟨[], some e, d'⟩
  | (.ok (some c), d') => { drain d' with capsules := c :: (drain d').capsules }
termination_by d.buf.length
decreasing_by exact decodeNext_shorter _h

theorem drain_none {d d' : CapsuleDecoder} (h : d.decodeNext = (.ok none, d')) : d.drain = ⟨[], none, d'⟩ := by
  rw [drain]
  split <;> simp_all

theorem drain_error {d d' : CapsuleDecoder} {e : CapsuleError} (h : d.decodeNext = (.error e, d')) :
    d.drain = ⟨[], some e, d'⟩ := by
  rw [drain]
  split <;> simp_all

theorem drain_some {d d' : CapsuleDecoder} {c : Capsule} (h : d.decodeNext = (.ok (some c), d')) :
    d.drain = { d'.drain with capsules := c :: d'.drain.capsules } := by
  rw [drain]
  split <;> simp_all

theorem drain_advanceSkip (d : CapsuleDecoder) : d.advanceSkip.drain = d.drain := by
  have hnext := decodeNext_advanceSkip d
  cases hd : d.decodeNext with
  | mk r d' =>
    rw [hd] at hnext
    cases r with
    | error e => rw [drain_error hnext, drain_error hd]
    | ok o =>
      cases o with
      | none => rw [drain_none hnext, drain_none hd]
      | some c => rw [drain_some hnext, drain_some hd]

/-- **Bytes that arrive once the decoder waits are read as if they had been there**, and an error stands. -/
theorem drain_push (d : CapsuleDecoder) (more : Bytes) :
    (d.drain.error = none → (d.push more).drain =
      { (d.drain.decoder.push more).drain with capsules := d.drain.capsules ++ (d.drain.decoder.push more).drain.capsules }) ∧
    ∀ e, d.drain.error = some e → (d.push more).drain.capsules = d.drain.capsules ∧ (d.push more).drain.error = some e := by
  obtain ⟨hbuf, hskip, hnone⟩ | ⟨hadvance, hnext⟩ := decodeNext_cases d
  · rw [drain_none hnone]
    refine ⟨fun _ => ?_, fun e he => (by cases he)⟩
    rw [← drain_advanceSkip (d.push more), ← advanceSkip_push, drain_advanceSkip]
    rfl
  · have hmore : (d.push more).decodeNext = decodeFront (d.buf.drop d.skip ++ more) := by
      rw [← decodeNext_advanceSkip, ← advanceSkip_push, hadvance, decodeNext_advanceSkip]
      exact decodeNext_zero _
    obtain ⟨hwait, -⟩ | ⟨e, d', herror, hstands⟩ | ⟨c, d', hsome, hless, hmore'⟩ := decodeFront_cases (d.buf.drop d.skip)
    · rw [drain_none (hnext.trans hwait)]
      refine ⟨fun _ => ?_, fun e he => (by cases he)⟩
      rw [← drain_advanceSkip (d.push more), ← advanceSkip_push, hadvance, drain_advanceSkip]
      rfl
    · rw [drain_error (hnext.trans herror)]
      refine ⟨fun h => (by cases h), fun e' he' => ?_⟩
      obtain rfl := Option.some.inj he'
      cases hd : decodeFront (d.buf.drop d.skip ++ more) with
      | mk r d'' =>
        have hr : r = .error e := by
          have := hstands more
          rwa [hd] at this
        rw [drain_error (hmore.trans (hd.trans (by rw [hr])))]
        exact ⟨rfl, rfl⟩
    · have hless' : d'.buf.length < d.buf.length := by
        rw [List.length_drop] at hless
        omega
      obtain ⟨hok, hfail⟩ := drain_push d' more
      rw [drain_some (hnext.trans hsome), drain_some (hmore.trans (hmore' more)), drain_advanceSkip]
      refine ⟨fun h => ?_, fun e he => ?_⟩
      · rw [hok h]
        rfl
      · obtain ⟨hcapsules, herror⟩ := hfail e he
        exact ⟨congrArg (c :: ·) hcapsules, herror⟩
termination_by d.buf.length

/-- What a decoder holds once it waits. -/
theorem length_drain (d : CapsuleDecoder) (h : d.drain.error = none) : d.drain.decoder.buf.length < feedLimit := by
  obtain ⟨hbuf, -, hnone⟩ | ⟨-, hnext⟩ := decodeNext_cases d
  · rw [drain_none hnone, hbuf]
    decide
  · obtain ⟨hwait, hlen⟩ | ⟨e, d', herror, -⟩ | ⟨c, d', hsome, hless, -⟩ := decodeFront_cases (d.buf.drop d.skip)
    · rw [drain_none (hnext.trans hwait)]
      exact hlen
    · rw [drain_error (hnext.trans herror)] at h
      cases h
    · have hless' : d'.buf.length < d.buf.length := by
        rw [List.length_drop] at hless
        omega
      rw [drain_some (hnext.trans hsome)] at h ⊢
      exact length_drain d' h
termination_by d.buf.length

end CapsuleDecoder
end Anvil.Masque
