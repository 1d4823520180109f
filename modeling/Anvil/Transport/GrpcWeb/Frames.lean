import Anvil.Lib.Splitter
import Anvil.Lib.Wire

/-!
# Frames of gRPC bodies (`anvil-transport/src/grpc_web.rs`)

A body is read frame by frame from a buffer that its chunks are appended to.

* `nextFrame` : the next frame of a buffer; `nextFrame_header` : its flag and length are judged without its payload;
* `frames` : the frames as a splitter;
* `frames_chunks` : however a body is cut into chunks, the same frames, failure and rest.
-/

namespace Anvil.GrpcWeb
open Anvil.Lib

abbrev Bytes := List UInt8

/-! ## Frames -/

def trailerFlag : UInt8 := 0x80

/-- `MAX_TRAILER_BLOCK`. -/
def maxTrailerBlock : Nat := 1024 * 1024

inductive WireFrame
  | message (compressed : Bool) (data : Bytes)
  | trailer (data : Bytes)
deriving DecidableEq

inductive FrameError
  | tooLarge (why : String)
  | invalid (why : String)
deriving DecidableEq

/-- `{:02x}`. -/
def hexByte (b : UInt8) : String := String.ofList [Nat.digitChar (b.toNat / 16), Nat.digitChar (b.toNat % 16)]

/-- Whether a flag is that of a trailer frame. -/
def isTrailer (flag : UInt8) (web : Bool) : Except FrameError Bool :=
  if flag = 0x00 ∨ flag = 0x01 then .ok false
  else if flag = trailerFlag ∧ web then .ok true
  else if flag = 0x81 ∧ web then
    .error (.invalid "a trailer frame with the compressed bit set (0x81) is not defined by gRPC-Web")
  else .error (.invalid ("invalid " ++ (if web then "gRPC-Web" else "gRPC") ++ " frame flag 0x" ++ hexByte flag))

def frameLimit (max : Nat) (trailer : Bool) : Nat := if trailer then min max maxTrailerBlock else max

def tooLarge (trailer : Bool) (len limit : Nat) : FrameError :=
  .tooLarge ("a received " ++ (if trailer then "trailer frame" else "message") ++ " declares " ++ toString len ++
    " bytes, above the local limit of " ++ toString limit)

/-- A frame of a flag. -/
def frameOf (trailer : Bool) (flag : UInt8) (data : Bytes) : WireFrame :=
  if trailer then .trailer data else .message (flag = 0x01) data

/-- What follows the flag and the length: a frame, once it is there whole. -/
def takeFrame (trailer : Bool) (flag : UInt8) (len : Nat) (payload buf : Bytes) :
    Except FrameError (Option WireFrame) × Bytes :=
  if payload.length < len then (.ok none, buf) else (.ok (some (frameOf trailer flag (payload.take len))), payload.drop len)

/-- The next frame, and the buffer it leaves. -/
def nextFrame (buf : Bytes) (max : Nat) (web : Bool) : Except FrameError (Option WireFrame) × Bytes :=
  match buf with
  | flag :: a :: b :: c :: d :: payload =>
    match isTrailer flag web with
    | .error e => (.error e, buf)
    | .ok trailer =>
      if frameLimit max trailer < ofBeBytes [a, b, c, d] then
        (.error (tooLarge trailer (ofBeBytes [a, b, c, d]) (frameLimit max trailer)), buf)
      else takeFrame trailer flag (ofBeBytes [a, b, c, d]) payload buf
  | _ => (.ok none, buf)

/-- The flag and length of a header are judged before its payload has arrived. -/
theorem nextFrame_header (max : Nat) (web : Bool) (flag a b c d : UInt8) :
    (∃ e, ∀ p : Bytes, nextFrame (flag :: a :: b :: c :: d :: p) max web = (.error e, flag :: a :: b :: c :: d :: p)) ∨
      ∃ trailer, ∀ p : Bytes, nextFrame (flag :: a :: b :: c :: d :: p) max web =
        takeFrame trailer flag (ofBeBytes [a, b, c, d]) p (flag :: a :: b :: c :: d :: p) := by
  cases ht : isTrailer flag web with
  | error e => exact .inl ⟨e, fun p => by simp [nextFrame, ht]⟩
  | ok trailer =>
    by_cases hlen : frameLimit max trailer < ofBeBytes [a, b, c, d]
    · exact .inl ⟨_, fun p => by simp only [nextFrame, ht]; rw [if_pos hlen]⟩
    · exact .inr ⟨trailer, fun p => by simp only [nextFrame, ht]; rw [if_neg hlen]⟩

theorem nextFrame_short {buf : Bytes} (hb : buf.length < 5) (max : Nat) (web : Bool) :
    nextFrame buf max web = (.ok none, buf) := by
  unfold nextFrame
  split
  · simp only [List.length_cons] at hb
    omega
  · rfl

/-- A buffer has a whole header, or too little of one. -/
theorem header_cases (buf : Bytes) : buf.length < 5 ∨ ∃ flag a b c d p, buf = flag :: a :: b :: c :: d :: p := by
  rcases buf with _ | ⟨flag, _ | ⟨a, _ | ⟨b, _ | ⟨c, _ | ⟨d, p⟩⟩⟩⟩⟩
  · exact .inl (by simp)
  · exact .inl (by simp)
  · exact .inl (by simp)
  · exact .inl (by simp)
  · exact .inl (by simp)
  · exact .inr ⟨flag, a, b, c, d, p, rfl⟩

/-- A buffer that gives no frame is left alone. -/
theorem nextFrame_unchanged (buf : Bytes) (max : Nat) (web : Bool)
    (hnone : ∀ f, (nextFrame buf max web).1 ≠ .ok (some f)) : (nextFrame buf max web).2 = buf := by
  obtain hb | ⟨flag, a, b, c, d, p, rfl⟩ := header_cases buf
  · rw [nextFrame_short hb]
  · obtain ⟨e, he⟩ | ⟨trailer, hp⟩ := nextFrame_header max web flag a b c d
    · rw [he]
    · rw [hp] at hnone ⊢
      unfold takeFrame at hnone ⊢
      split_ifs at hnone ⊢ with hlen
      · rfl
      · exact absurd rfl (hnone _)

/-- What a reader of frames takes off a buffer. -/
def taken (r : Except FrameError (Option WireFrame) × Bytes) : Except FrameError (Option (WireFrame × Bytes)) :=
  r.1.map fun f => f.map fun f => (f, r.2)

theorem taken_takeFrame {trailer : Bool} {flag : UInt8} {len : Nat} {p buf rest : Bytes} {f : WireFrame}
    (h : taken (takeFrame trailer flag len p buf) = .ok (some (f, rest))) :
    len ≤ p.length ∧ f = frameOf trailer flag (p.take len) ∧ rest = p.drop len := by
  unfold takeFrame at h
  split_ifs at h with hlen
  · cases h
  · cases h
    exact ⟨by omega, rfl, rfl⟩

/-- Frames, as they are read off a body. -/
def frames (max : Nat) (web : Bool) : Splitter UInt8 WireFrame FrameError where
  next buf := taken (nextFrame buf max web)
  next_nil := rfl
  shorter := by
    intro buf f rest h
    obtain hb | ⟨flag, a, b, c, d, p, rfl⟩ := header_cases buf
    · rw [nextFrame_short hb] at h
      cases h
    · obtain ⟨e, he⟩ | ⟨trailer, hp⟩ := nextFrame_header max web flag a b c d
      · rw [he] at h
        cases h
      · rw [hp] at h
        obtain ⟨-, -, rfl⟩ := taken_takeFrame h
        simp only [List.length_drop, List.length_cons]
        omega
  piece_append := by
    intro buf f rest h more
    obtain hb | ⟨flag, a, b, c, d, p, rfl⟩ := header_cases buf
    · rw [nextFrame_short hb] at h
      cases h
    · obtain ⟨e, he⟩ | ⟨trailer, hp⟩ := nextFrame_header max web flag a b c d
      · rw [he] at h
        cases h
      · rw [hp] at h
        obtain ⟨hlen, rfl, rfl⟩ := taken_takeFrame h
        simp only [List.cons_append]
        rw [hp]
        unfold takeFrame
        rw [if_neg (by rw [List.length_append]; omega), List.take_append_of_le_length hlen,
          List.drop_append_of_le_length hlen]
        rfl
  error_append := by
    intro buf e h more
    obtain hb | ⟨flag, a, b, c, d, p, rfl⟩ := header_cases buf
    · rw [nextFrame_short hb] at h
      cases h
    · obtain ⟨e', he⟩ | ⟨trailer, hp⟩ := nextFrame_header max web flag a b c d
      · rw [he] at h
        cases h
        simp only [List.cons_append]
        rw [he]
        rfl
      · rw [hp] at h
        unfold takeFrame at h
        split_ifs at h <;> cases h

/-! ## Bodies of frames -/

def WireFrame.flag : WireFrame → UInt8
  | .message false _ => 0x00
  | .message true _ => 0x01
  | .trailer _ => trailerFlag

def WireFrame.data : WireFrame → Bytes
  | .message _ data => data
  | .trailer data => data

def WireFrame.isTrailer : WireFrame → Bool
  | .message _ _ => false
  | .trailer _ => true

/-- A frame on the wire. -/
def WireFrame.bytes (f : WireFrame) : Bytes := f.flag :: beBytes 4 f.data.length ++ f.data

/-- A frame within the limits, of a flag that is admitted, whose length fits its field. -/
structure Permitted (max : Nat) (web : Bool) (f : WireFrame) : Prop where
  admitted : f.isTrailer = true → web = true
  within : f.data.length ≤ frameLimit max f.isTrailer
  fits : f.data.length < 2 ^ 32

theorem isTrailer_flag {f : WireFrame} {web : Bool} (h : f.isTrailer = true → web = true) :
    GrpcWeb.isTrailer f.flag web = .ok f.isTrailer := by
  cases f with
  | message compressed data => cases compressed <;> rfl
  | trailer data =>
    rw [h rfl]
    rfl

theorem frameOf_self (f : WireFrame) : frameOf f.isTrailer f.flag f.data = f := by
  cases f with
  | message compressed data => cases compressed <;> rfl
  | trailer data => rfl

/-- A permitted frame is read as it was written, whatever follows. -/
theorem nextFrame_bytes {max : Nat} {web : Bool} {f : WireFrame} (hf : Permitted max web f) (rest : Bytes) :
    nextFrame (f.bytes ++ rest) max web = (.ok (some f), rest) := by
  have hlen := ofBeBytes_beBytes (k := 4) (n := f.data.length) hf.fits
  have hfour := length_beBytes 4 f.data.length
  unfold WireFrame.bytes
  generalize beBytes 4 f.data.length = l at hlen hfour
  obtain ⟨a, b, c, d, rfl⟩ := List.length_eq_four.1 hfour
  simp only [List.cons_append, List.nil_append, nextFrame, isTrailer_flag hf.admitted]
  rw [hlen, if_neg (Nat.not_lt.2 hf.within), takeFrame, if_neg (by rw [List.length_append]; omega), List.take_left,
    List.drop_left,
    frameOf_self]

/-- **A body is read the same however it is cut into chunks.** The reader goes on after each chunk until it waits or fails;
what a body of permitted frames gives is those frames; and a buffer that gives no frame is left alone. -/
theorem frames_chunks (max : Nat) (web : Bool) :
    (∀ chunks chunks' : List Bytes, chunks.flatten = chunks'.flatten →
      chunks.foldl (frames max web).feed Drained.start = chunks'.foldl (frames max web).feed Drained.start) ∧
    (∀ fs : List WireFrame, (∀ f ∈ fs, Permitted max web f) → ∀ chunks : List Bytes,
      chunks.flatten = (fs.map WireFrame.bytes).flatten → chunks.foldl (frames max web).feed Drained.start = ⟨fs, none, []⟩) ∧
    ∀ buf : Bytes, (∀ f, (nextFrame buf max web).1 ≠ .ok (some f)) → (nextFrame buf max web).2 = buf := by
  refine ⟨fun chunks chunks' he => ?_, fun fs hfs chunks he => ?_, fun buf => nextFrame_unchanged buf max web⟩
  · rw [Splitter.foldl_feed, Splitter.foldl_feed, he]
  · rw [Splitter.foldl_feed, he]
    refine Splitter.drain_pieces _ (fun f hf rest => ?_) fs hfs
    change taken (nextFrame (f.bytes ++ rest) max web) = _
    rw [nextFrame_bytes hf]
    rfl

/-- A message and the trailers after it, cut inside both headers. -/
theorem frames_chunks_trailed :
    [[0x00, 0x00, 0x00], [0x00, 0x02, 0x07, 0x08, 0x80, 0x00, 0x00], [0x00, 0x01, 0x09]].foldl (frames 1024 true).feed
        Drained.start = ⟨[.message false [0x07, 0x08], .trailer [0x09]], none, []⟩ := by
  refine (frames_chunks 1024 true).2.1 [.message false [0x07, 0x08], .trailer [0x09]] (fun f hf => ?_) _ (by decide)
  rcases List.mem_pair.1 hf with rfl | rfl
  · exact ⟨by decide, by decide, by decide⟩
  · exact ⟨by decide, by decide, by decide⟩

end Anvil.GrpcWeb
