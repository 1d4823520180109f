import Anvil.Lib.Action
import Anvil.Lib.Base64
import Anvil.Lib.Splitter

/-!
# Text bodies of gRPC-Web (`anvil-transport/src/grpc_web.rs`, `Base64Stream`)

A server may encode each flush on its own, so padding can stand in the middle of a text. The decoder cuts what it has into
segments at padded quanta, and holds the characters of a quantum that is not complete. The engine of the base64 crate is a
parameter.

* `push`, `finish` : the decoder; `pushAll` : the chunks of a text, until one fails;
* `quanta` : the quanta of a text as a splitter; `decodeFrom_spec` : the segments decode what the quanta do;
* `pushAll_spec` : so do all chunks together;
* `base64_chunks` : however a text is cut into chunks.
-/

namespace Anvil.GrpcWeb
open Anvil.Lib Anvil.Lib.Base64

/-! ## The decoder -/

/-- A `Base64Stream`, and the output it appends to. -/
structure Decoding where
  /-- Characters of an incomplete quantum. -/
  pending : List UInt8
  out : List UInt8
deriving DecidableEq

def Decoding.start : Decoding := ⟨[], []⟩

section Decoder
variable (e : Engine)

def decodeSegment (seg : List UInt8) : EStateM String Decoding Unit := fun s =>
  match e.decode seg with
  | .error why => .error ("not valid base64: " ++ why) s
  | .ok v => .ok () { s with out := s.out ++ v }

/-- What is left of the complete quanta. -/
def decodeOpen (seg : List UInt8) : EStateM String Decoding Unit := if seg = [] then pure () else decodeSegment e seg

def hold (chars : List UInt8) : EStateM String Decoding Unit := modify fun s => { s with pending := chars }

/-- The loop over the quanta: `seg` is what was read since the last padded one. -/
def decodeFrom (seg : List UInt8) : List UInt8 → EStateM String Decoding Unit
  | a :: b :: c :: d :: rest =>
    if c = pad ∨ d = pad then do
      decodeSegment e (seg ++ [a, b, c, d])
      decodeFrom [] rest
    else decodeFrom (seg ++ [a, b, c, d]) rest
  | rest => do
    decodeOpen e seg
    hold rest

def push (input : List UInt8) : EStateM String Decoding Unit := fun s =>
  decodeFrom e [] (s.pending ++ input.filter fun c => !isBlank c) { s with pending := [] }

/-- The chunks of a text, until a push fails. -/
def pushAll : List (List UInt8) → EStateM String Decoding Unit
  | [] => pure ()
  | chunk :: chunks => do
    push e chunk
    pushAll chunks

end Decoder

def finish (s : Decoding) : Except String Unit :=
  if s.pending.isEmpty then .ok ()
  else .error ("the body ended inside a base64 quantum (" ++ toString s.pending.length ++ " character(s) left over)")

/-- What an action leaves, also where it fails. -/
def ended {α : Type} : EStateM.Result String Decoding α → Decoding
  | .ok _ s => s
  | .error _ s => s

/-! ## Quanta -/

/-- The quanta of a text, each decoded by itself. -/
def nextQuantum (e : Engine) (buf : List UInt8) : Except Unit (Option (List UInt8 × List UInt8)) :=
  if buf.length < 4 then .ok none
  else (e.decode (buf.take 4)).toOption.elim (.error ()) fun v => .ok (some (v, buf.drop 4))

theorem nextQuantum_append {e : Engine} {buf : List UInt8} (hb : 4 ≤ buf.length) (more : List UInt8) :
    nextQuantum e (buf ++ more) =
      (e.decode (buf.take 4)).toOption.elim (.error ()) fun v => .ok (some (v, buf.drop 4 ++ more)) := by
  unfold nextQuantum
  rw [if_neg (by rw [List.length_append]; omega), List.take_append_of_le_length hb, List.drop_append_of_le_length hb]

def quanta (e : Engine) : Splitter UInt8 (List UInt8) Unit where
  next := nextQuantum e
  next_nil := rfl
  shorter := by
    intro buf f rest h
    unfold nextQuantum at h
    split_ifs at h with hb
    · cases h
    · cases hv : (e.decode (buf.take 4)).toOption with
      | none =>
        rw [hv] at h
        cases h
      | some v =>
        rw [hv] at h
        cases h
        rw [List.length_drop]
        omega
  piece_append := by
    intro buf f rest h more
    unfold nextQuantum at h
    split_ifs at h with hb
    · cases h
    · rw [nextQuantum_append (Nat.not_lt.1 hb)]
      cases hv : (e.decode (buf.take 4)).toOption with
      | none =>
        rw [hv] at h
        cases h
      | some v =>
        rw [hv] at h
        cases h
        rfl
  error_append := by
    intro buf err h more
    unfold nextQuantum at h
    split_ifs at h with hb
    rw [nextQuantum_append (Nat.not_lt.1 hb)]
    cases hv : (e.decode (buf.take 4)).toOption with
    | none => rfl
    | some v =>
      rw [hv] at h
      cases h

/-- The bytes of a text whose quanta all decode. -/
def whole (d : Drained UInt8 (List UInt8) Unit) : Option (List UInt8) :=
  if d.error = none then some d.pieces.flatten else none

theorem whole_followedBy (a b : Drained UInt8 (List UInt8) Unit) :
    whole (a.followedBy b) = (whole a).bind fun v => (whole b).map fun w => v ++ w := by
  unfold whole Drained.followedBy
  cases ha : a.error with
  | some u => rfl
  | none =>
    cases hb : b.error with
    | some u => rfl
    | none => simp

section Quanta
variable {e : Engine}

theorem drain_short {buf : List UInt8} (hb : buf.length < 4) : (quanta e).drain buf = ⟨[], none, buf⟩ :=
  Splitter.drain_none (if_pos hb)

/-- What is left when all complete quanta decoded is less than one. -/
theorem rest_short (buf : List UInt8) (hd : ((quanta e).drain buf).error = none) :
    ((quanta e).drain buf).rest.length < 4 := by
  obtain ⟨u, h⟩ | h | ⟨f, rest, h⟩ := (quanta e).next_cases buf
  · rw [Splitter.drain_error h] at hd
    cases hd
  · rw [Splitter.drain_none h]
    by_contra hlen
    change nextQuantum e buf = .ok none at h
    unfold nextQuantum at h
    rw [if_neg hlen] at h
    cases hv : (e.decode (buf.take 4)).toOption with
    | none =>
      rw [hv] at h
      cases h
    | some v =>
      rw [hv] at h
      cases h
  · have hless := (quanta e).shorter h
    rw [Splitter.drain_piece h] at hd ⊢
    exact rest_short rest hd
termination_by buf.length

theorem drain_quantum {q : List UInt8} (hq : q.length = 4) (rest : List UInt8) : (quanta e).drain (q ++ rest) =
    (e.decode q).toOption.elim ⟨[], some (), q ++ rest⟩ fun v => Drained.followedBy ⟨[v], none, rest⟩
    ((quanta e).drain rest) := by
  have hnext : (quanta e).next (q ++ rest) = (e.decode q).toOption.elim (.error ()) fun v => .ok (some (v, rest)) := by
    change nextQuantum e (q ++ rest) = _
    rw [nextQuantum_append hq.ge, List.take_of_length_le hq.le, List.drop_of_length_le hq.le]
    rfl
  cases hv : (e.decode q).toOption with
  | none =>
    rw [hv] at hnext
    exact Splitter.drain_error hnext
  | some v =>
    rw [hv] at hnext
    exact Splitter.drain_piece hnext

/-- A segment decodes to what its quanta decode to. -/
theorem decode_segment (he : e.Standard) : ∀ (qs : List (List UInt8)) {q : List UInt8}, (∀ p ∈ qs, Inner p) → q.length = 4 →
    (e.decode (qs.flatten ++ q)).toOption = whole ((quanta e).drain (qs.flatten ++ q))
  | [], q, _, hq => by
    have hd := drain_quantum (e := e) hq []
    rw [List.append_nil] at hd
    rw [List.flatten_nil, List.nil_append, hd, Splitter.drain_nil]
    cases (e.decode q).toOption with
    | none => rfl
    | some v => simp [whole, Drained.followedBy, Drained.start]
  | p :: qs, q, hqs, hq => by
    obtain ⟨hp, hqs⟩ := List.forall_mem_cons.1 hqs
    have hne : qs.flatten ++ q ≠ [] := by
      intro hnil
      rw [(List.append_eq_nil_iff.1 hnil).2] at hq
      cases hq
    have hfour : 4 ∣ (qs.flatten ++ q).length := by
      rw [List.length_append, List.length_flatten, hq]
      have hsum : 4 ∣ (qs.map List.length).sum := List.dvd_sum fun n hn => by
        obtain ⟨p, hp, rfl⟩ := List.mem_map.1 hn
        exact Dvd.intro 1 (hqs p hp).length.symm
      exact Nat.dvd_add hsum (Nat.dvd_refl 4)
    rw [List.flatten_cons, List.append_assoc, he.decode_inner p _ hp hne hfour, decode_segment he qs hqs hq,
      drain_quantum hp.length]
    cases (e.decode p).toOption with
    | none => rfl
    | some v =>
      change _ = whole (Drained.followedBy _ _)
      rw [whole_followedBy]
      simp [whole]

/-- The quanta of a segment leave nothing. -/
theorem segment_rest {seg : List UInt8} (hseg : 4 ∣ seg.length) (hd : ((quanta e).drain seg).error = none) :
    ((quanta e).drain seg).rest = [] := by
  obtain ⟨u, h⟩ | h | ⟨f, rest, h⟩ := (quanta e).next_cases seg
  · rw [Splitter.drain_error h] at hd
    cases hd
  · have hshort := rest_short seg hd
    rw [Splitter.drain_none h] at hshort ⊢
    rw [← List.length_eq_zero_iff]
    dsimp only at hshort ⊢
    omega
  · have hless := (quanta e).shorter h
    have hrest : 4 ∣ rest.length := by
      change nextQuantum e seg = _ at h
      unfold nextQuantum at h
      split_ifs at h with hb
      · cases h
      · cases hv : (e.decode (seg.take 4)).toOption with
        | none =>
          rw [hv] at h
          cases h
        | some v =>
          rw [hv] at h
          cases h
          rw [List.length_drop]
          omega
    rw [Splitter.drain_piece h] at hd ⊢
    exact segment_rest hrest hd
termination_by seg.length

/-- What the action did is what reading the quanta gives: their bytes and what is left, or a failure with nothing held. -/
def Reads (r : EStateM.Result String Decoding Unit) (out : List UInt8) (d : Drained UInt8 (List UInt8) Unit) : Prop :=
  (∃ v, whole d = some v ∧ r = .ok () ⟨d.rest, out ++ v⟩) ∨ whole d = none ∧ ∃ why s, r = .error why s ∧ s.pending = []

theorem Reads.after {r : EStateM.Result String Decoding Unit} {out v : List UInt8} {d d' : Drained UInt8 (List UInt8) Unit}
    (hd : whole d = some v) (hr : Reads r (out ++ v) d') : Reads r out (d.followedBy d') := by
  unfold Reads at hr ⊢
  rw [whole_followedBy, hd]
  obtain ⟨w, hw, hr⟩ | ⟨hnone, hr⟩ := hr
  · refine .inl ⟨v ++ w, by rw [hw]; rfl, ?_⟩
    rw [hr, List.append_assoc]
    rfl
  · exact .inr ⟨by rw [hnone]; rfl, hr⟩

theorem whole_eq_some {d : Drained UInt8 (List UInt8) Unit} {v : List UInt8} (hd : whole d = some v) :
    d.error = none ∧ d.pieces.flatten = v := by
  unfold whole at hd
  split_ifs at hd with herr
  exact ⟨herr, Option.some.inj hd⟩

/-- A segment of whole quanta, of which the last may be padded. -/
theorem decodeSegment_cases (he : e.Standard) {qs : List (List UInt8)} {q : List UInt8} (hqs : ∀ p ∈ qs, Inner p)
    (hq : q.length = 4) (s : Decoding) :
    (∃ v, whole ((quanta e).drain (qs.flatten ++ q)) = some v ∧ ((quanta e).drain (qs.flatten ++ q)).rest = [] ∧
      decodeSegment e (qs.flatten ++ q) s = .ok () { s with out := s.out ++ v }) ∨
    whole ((quanta e).drain (qs.flatten ++ q)) = none ∧ ∃ why, decodeSegment e (qs.flatten ++ q) s = .error why s := by
  have hwhole := decode_segment he qs hqs hq
  unfold decodeSegment
  cases hdec : e.decode (qs.flatten ++ q) with
  | error why =>
    rw [hdec] at hwhole
    exact .inr ⟨hwhole.symm, _, rfl⟩
  | ok v =>
    rw [hdec] at hwhole
    refine .inl ⟨v, hwhole.symm, segment_rest ?_ (whole_eq_some hwhole.symm).1, rfl⟩
    rw [List.length_append, List.length_flatten, hq]
    have hsum : 4 ∣ (qs.map List.length).sum := List.dvd_sum fun n hn => by
      obtain ⟨p, hp, rfl⟩ := List.mem_map.1 hn
      exact Dvd.intro 1 (hqs p hp).length.symm
    exact Nat.dvd_add hsum (Nat.dvd_refl 4)

/-- The segments of a text decode what its quanta do. -/
theorem decodeFrom_spec (he : e.Standard) (seg chars : List UInt8) : ∀ qs : List (List UInt8), seg = qs.flatten →
    (∀ p ∈ qs, Inner p) → ∀ s : Decoding, s.pending = [] →
      Reads (decodeFrom e seg chars s) s.out ((quanta e).drain (seg ++ chars)) := by
  induction seg, chars using decodeFrom.induct with
  | case1 seg a b c d rest hpad ih =>
    intro qs hseg hqs s hs
    subst hseg
    have hsplit : qs.flatten ++ a :: b :: c :: d :: rest = (qs.flatten ++ [a, b, c, d]) ++ rest := by simp
    rw [hsplit, Splitter.drain_append, Splitter.feed, decodeFrom, if_pos hpad]
    obtain ⟨v, hv, hrest, hok⟩ | ⟨hnone, why, herr⟩ := decodeSegment_cases he hqs (q := [a, b, c, d]) rfl s
    · rw [hrest, List.nil_append]
      rw [bind_of_ok hok]
      refine Reads.after hv ?_
      exact ih [] rfl (List.forall_mem_nil _) { s with out := s.out ++ v } hs
    · rw [bind_of_error herr]
      exact .inr ⟨by rw [whole_followedBy, hnone]; rfl, why, s, rfl, hs⟩
  | case2 seg a b c d rest hpad ih =>
    intro qs hseg hqs s hs
    rw [decodeFrom, if_neg hpad]
    have hinner : Inner [a, b, c, d] := by
      refine ⟨rfl, fun a' b' c' d' hq => ?_⟩
      obtain ⟨-, -, rfl, rfl, -⟩ : a = a' ∧ b = b' ∧ c = c' ∧ d = d' ∧ True := by simpa using hq
      exact not_or.1 hpad
    have hgo := ih (qs ++ [[a, b, c, d]]) (by rw [hseg]; simp) (fun p hp => ?_) s hs
    · rwa [List.append_assoc] at hgo
    · rcases List.mem_append.1 hp with hp | hp
      · exact hqs p hp
      · rw [List.mem_singleton.1 hp]
        exact hinner
  | case3 seg rest hshort =>
    intro qs hseg hqs s hs
    have hlen : rest.length < 4 := by
      rcases rest with _ | ⟨a, _ | ⟨b, _ | ⟨c, _ | ⟨d, rest⟩⟩⟩⟩
      · simp
      · simp
      · simp
      · simp
      · exact absurd rfl (hshort a b c d rest)
    rw [decodeFrom.eq_2 e seg rest hshort, Splitter.drain_append, Splitter.feed]
    induction qs using List.reverseRecOn with
    | nil =>
      subst hseg
      rw [List.flatten_nil, Splitter.drain_nil]
      refine .inl ⟨[], ?_, ?_⟩
      · rw [whole_followedBy, Drained.start, List.nil_append, drain_short hlen]
        rfl
      · rw [Drained.start, List.nil_append, drain_short hlen, List.append_nil]
        rfl
    | append_singleton qs q _ =>
      have hq : Inner q := hqs q (by simp)
      have hsegq : seg = qs.flatten ++ q := by rw [hseg]; simp
      have hne : seg ≠ [] := by
        intro hnil
        have hlenq := hq.length
        rw [hsegq] at hnil
        rw [(List.append_eq_nil_iff.1 hnil).2] at hlenq
        cases hlenq
      rw [decodeOpen, if_neg hne]
      obtain ⟨v, hv, hrest, hok⟩ | ⟨hnone, why, herr⟩ :=
        @decodeSegment_cases e he qs q (fun p hp => hqs p (by simp [hp])) hq.length s
      · rw [← hsegq] at hv hrest hok
        rw [bind_of_ok hok, hrest, List.nil_append, drain_short hlen]
        refine Reads.after hv (.inl ⟨[], rfl, ?_⟩)
        rw [List.append_nil]
        rfl
      · rw [← hsegq] at hnone herr
        rw [bind_of_error herr]
        exact .inr ⟨by rw [whole_followedBy, hnone]; rfl, why, s, rfl, hs⟩

theorem push_spec (he : e.Standard) (input : List UInt8) (s : Decoding) :
    Reads (push e input s) s.out ((quanta e).drain (s.pending ++ input.filter fun c => !isBlank c)) :=
  decodeFrom_spec he [] _ [] rfl (List.forall_mem_nil _) _ rfl

/-- All chunks together. -/
theorem pushAll_spec (he : e.Standard) : ∀ (chunks : List (List UInt8)) (s : Decoding), s.pending.length < 4 →
    Reads (pushAll e chunks s) s.out ((quanta e).drain (s.pending ++ chunks.flatten.filter fun c => !isBlank c))
  | [], s, hs => by
    rw [List.flatten_nil, List.filter_nil, List.append_nil, drain_short hs]
    refine .inl ⟨[], rfl, ?_⟩
    rw [List.append_nil]
    rfl
  | chunk :: chunks, s, hs => by
    rw [List.flatten_cons, List.filter_append, ← List.append_assoc, Splitter.drain_append, Splitter.feed, pushAll]
    obtain ⟨v, hv, hok⟩ | ⟨hnone, why, s', herr, hs'⟩ := push_spec he chunk s
    · rw [bind_of_ok hok]
      exact (pushAll_spec he chunks ⟨_, s.out ++ v⟩ (rest_short _ (whole_eq_some hv).1)).after hv
    · rw [bind_of_error herr]
      exact .inr ⟨by rw [whole_followedBy, hnone]; rfl, why, s', rfl, hs'⟩

end Quanta

/-! ## Texts -/

section Texts
variable {e : Engine}

/-- A text with white space inserted. -/
inductive Spaced : List UInt8 → List UInt8 → Prop
  | nil : Spaced [] []
  | char (c : UInt8) {t u : List UInt8} (h : Spaced t u) : Spaced (c :: t) (c :: u)
  | blank (c : UInt8) {t u : List UInt8} (hc : isBlank c = true) (h : Spaced t u) : Spaced t (c :: u)

theorem Spaced.filter {t u : List UInt8} (h : Spaced t u) :
    u.filter (fun c => !isBlank c) = t.filter fun c => !isBlank c := by
  induction h with
  | nil => rfl
  | char c _ ih => rw [List.filter_cons, List.filter_cons, ih]
  | blank c hc _ ih => rw [List.filter_cons, hc, ih]; rfl

/-- Characters by fours. -/
theorem flatten_quanta : ∀ (k : Nat) (l : List UInt8), l.length = 4 * k →
    ∃ qs : List (List UInt8), l = qs.flatten ∧ ∀ q ∈ qs, q.length = 4
  | 0, l, hl => ⟨[], by rw [List.flatten_nil]; exact List.length_eq_zero_iff.1 hl, by simp⟩
  | k + 1, l, hl => by
    obtain ⟨qs, hqs, hlen⟩ := flatten_quanta k (l.drop 4) (by rw [List.length_drop]; omega)
    refine ⟨l.take 4 :: qs, by rw [List.flatten_cons, ← hqs, List.take_append_drop], List.forall_mem_cons.2 ⟨?_, hlen⟩⟩
    rw [List.length_take]
    omega

/-- What was encoded on its own decodes quantum by quantum. -/
theorem whole_encode (he : e.Standard) (v : List UInt8) : whole ((quanta e).drain (e.encode v)) = some v := by
  have hlen := he.length_encode v
  have hdec := he.decode_encode v
  cases hk : (v.length + 2) / 3 with
  | zero =>
    have hv : v = [] := List.length_eq_zero_iff.1 (by omega)
    have hnil : e.encode v = [] := List.length_eq_zero_iff.1 (by omega)
    rw [hnil, Splitter.drain_nil, hv]
    rfl
  | succ k =>
    obtain ⟨qs, hqs, hfour⟩ := flatten_quanta k ((e.encode v).take (4 * k)) (by rw [List.length_take]; omega)
    have hsplit : e.encode v = qs.flatten ++ (e.encode v).drop (4 * k) := by rw [← hqs, List.take_append_drop]
    have hlast : ((e.encode v).drop (4 * k)).length = 4 := by rw [List.length_drop]; omega
    have hinner : ∀ q ∈ qs, Inner q := by
      intro q hq
      refine ⟨hfour q hq, ?_⟩
      rintro a b c d rfl
      obtain ⟨l, r, rfl⟩ := List.append_of_mem hq
      rw [List.flatten_append, List.flatten_cons] at hsplit
      constructor
      · rintro rfl
        have hpad := he.pad_encode v (l.flatten ++ [a, b]) (d :: (r.flatten ++ (e.encode v).drop (4 * k)))
          (hsplit.trans (by simp))
        rw [List.length_cons, List.length_append, hlast] at hpad
        omega
      · rintro rfl
        have hpad := he.pad_encode v (l.flatten ++ [a, b, c]) (r.flatten ++ (e.encode v).drop (4 * k))
          (hsplit.trans (by simp))
        rw [List.length_append, hlast] at hpad
        omega
    rw [hsplit, ← decode_segment he qs hinner hlast, ← hsplit, hdec]
    rfl

theorem whole_encoded (he : e.Standard) (parts : List (List UInt8)) :
    whole ((quanta e).drain (parts.map e.encode).flatten) = some parts.flatten ∧
      ((quanta e).drain (parts.map e.encode).flatten).rest = [] := by
  induction parts with
  | nil =>
    rw [List.map_nil, List.flatten_nil, Splitter.drain_nil]
    exact ⟨rfl, rfl⟩
  | cons v parts ih =>
    have hv := whole_encode he v
    have hrest := @segment_rest e (e.encode v) (by rw [he.length_encode]; exact Nat.dvd_mul_left 4 _)
      (whole_eq_some hv).1
    rw [List.map_cons, List.flatten_cons, Splitter.drain_append, Splitter.feed, hrest, List.nil_append,
      whole_followedBy, hv, ih.1]
    exact ⟨rfl, ih.2⟩

/-- **A text is decoded the same however it is cut into chunks**, with at most three characters held; and one whose parts were
each encoded on their own, with white space anywhere, decodes to the parts. -/
theorem base64_chunks (he : e.Standard) :
    (∀ parts chunks : List (List UInt8), Spaced (parts.map e.encode).flatten chunks.flatten →
      ∃ s, pushAll e chunks .start = .ok () s ∧ s.out = parts.flatten ∧ finish s = .ok ()) ∧
    ∀ chunks chunks' : List (List UInt8), chunks.flatten = chunks'.flatten →
      (∀ s, pushAll e chunks .start = .ok () s ↔ pushAll e chunks' .start = .ok () s) ∧
      finish (ended (pushAll e chunks .start)) = finish (ended (pushAll e chunks' .start)) ∧
      ∀ done, done <+: chunks → (ended (pushAll e done .start)).pending.length ≤ 3 := by
  have hspec := fun chunks => pushAll_spec he chunks .start (by decide)
  refine ⟨fun parts chunks hspaced => ?_, fun chunks chunks' heq => ⟨fun s => ?_, ?_, fun done _ => ?_⟩⟩
  · have hblank : (parts.map e.encode).flatten.filter (fun c => !isBlank c) = (parts.map e.encode).flatten := by
      rw [List.filter_eq_self]
      intro c hc
      obtain ⟨t, ht, hc⟩ := List.mem_flatten.1 hc
      obtain ⟨v, -, rfl⟩ := List.mem_map.1 ht
      rw [he.blank_encode v c hc]
      rfl
    obtain ⟨hwhole, hrest⟩ := whole_encoded he parts
    have hreads := hspec chunks
    rw [hspaced.filter, hblank] at hreads
    obtain ⟨v, hv, hok⟩ | ⟨hnone, -⟩ := hreads
    · refine ⟨_, hok, ?_, ?_⟩
      · rw [show (Decoding.start.pending ++ (parts.map e.encode).flatten) = (parts.map e.encode).flatten from rfl,
          hwhole] at hv
        rw [Option.some.inj hv]
        rfl
      · change finish ⟨((quanta e).drain (parts.map e.encode).flatten).rest, _⟩ = _
        rw [hrest]
        rfl
    · rw [show (Decoding.start.pending ++ (parts.map e.encode).flatten) = (parts.map e.encode).flatten from rfl,
        hwhole] at hnone
      cases hnone
  · have hreads := hspec chunks
    have hreads' := hspec chunks'
    rw [heq] at hreads
    obtain ⟨v, hv, hok⟩ | ⟨hnone, why, t, herr, -⟩ := hreads
    · obtain ⟨v', hv', hok'⟩ | ⟨hnone', -⟩ := hreads'
      · rw [hv] at hv'
        rw [hok, hok', Option.some.inj hv']
      · rw [hv] at hnone'
        cases hnone'
    · obtain ⟨v', hv', -⟩ | ⟨-, why', t', herr', -⟩ := hreads'
      · rw [hnone] at hv'
        cases hv'
      · rw [herr, herr']
        simp
  · have hreads := hspec chunks
    have hreads' := hspec chunks'
    rw [heq] at hreads
    obtain ⟨v, hv, hok⟩ | ⟨hnone, why, t, herr, ht⟩ := hreads
    · obtain ⟨v', hv', hok'⟩ | ⟨hnone', -⟩ := hreads'
      · rw [hok, hok']
        rfl
      · rw [hv] at hnone'
        cases hnone'
    · obtain ⟨v', hv', -⟩ | ⟨-, why', t', herr', ht'⟩ := hreads'
      · rw [hnone] at hv'
        cases hv'
      · rw [herr, herr']
        change finish t = finish t'
        rw [finish, finish, ht, ht']
  · obtain ⟨v, hv, hok⟩ | ⟨-, why, t, herr, ht⟩ := hspec done
    · have hshort := rest_short _ (whole_eq_some hv).1
      rw [hok]
      change _ ≤ 3
      exact Nat.le_of_lt_succ hshort
    · rw [herr]
      change t.pending.length ≤ 3
      rw [ht]
      simp

theorem base64_chunks_two_flushes :
    ∃ s, pushAll engine [[0x41], [0x51, 0x20, 0x3D, 0x3D], [0x41, 0x67, 0x3D, 0x3D]] .start = .ok () s ∧
    s.out = [1, 2] ∧ finish s = .ok () := by
  have hencoded : ([[1], [2]].map engine.encode).flatten = [0x41, 0x51, 0x3D, 0x3D, 0x41, 0x67, 0x3D, 0x3D] := by decide
  refine (base64_chunks standard_engine).1 [[1], [2]] _ ?_
  rw [hencoded]
  exact .char _ (.char _ (.blank _ rfl (.char _ (.char _ (.char _ (.char _ (.char _ (.char _ .nil))))))))

end Texts

end Anvil.GrpcWeb
