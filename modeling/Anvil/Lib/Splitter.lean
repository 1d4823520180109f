import Mathlib.Tactic

/-!
# Reading pieces off a stream

A splitter takes the next piece off the front of a buffer, waits for more, or fails. What it answered stays its answer when
more arrives, so a stream may be read as it comes.

* `Splitter` : a reader of pieces, with what makes its answers last;
* `Splitter.drain` : reading until it waits or fails; `Splitter.feed` : reading on after a chunk;
* `Splitter.drain_append` : two chunks are one; `Splitter.foldl_feed` : so is any number of chunks;
* `Splitter.drain_pieces` : a stream made of pieces is read as those pieces.
-/

namespace Anvil.Lib

/-- Takes pieces off a buffer. -/
structure Splitter (σ φ ε : Type) where
  next : List σ → Except ε (Option (φ × List σ))
  next_nil : next [] = .ok none
  shorter : ∀ {buf f rest}, next buf = .ok (some (f, rest)) → rest.length < buf.length
  piece_append : ∀ {buf f rest}, next buf = .ok (some (f, rest)) → ∀ more, next (buf ++ more) = .ok (some (f, rest ++ more))
  error_append : ∀ {buf e}, next buf = .error e → ∀ more, next (buf ++ more) = .error e

/-- The pieces read, the failure that ended the reading, and what is left. -/
structure Drained (σ φ ε : Type) where
  pieces : List φ
  error : Option ε
  rest : List σ
deriving DecidableEq

namespace Drained
variable {σ φ ε : Type}

/-- Nothing was read yet. -/
def start : Drained σ φ ε := ⟨[], none, []⟩

/-- What a later reading adds; the first failure stands. -/
def followedBy (d d' : Drained σ φ ε) : Drained σ φ ε := ⟨d.pieces ++ d'.pieces, d.error <|> d'.error, d'.rest⟩

theorem followedBy_assoc (a b c : Drained σ φ ε) : (a.followedBy b).followedBy c = a.followedBy (b.followedBy c) := by
  unfold followedBy
  rw [List.append_assoc]
  cases a.error <;> rfl

end Drained

namespace Splitter
variable {σ φ ε : Type} (s : Splitter σ φ ε)

/-- Read until the splitter waits or fails. -/
def drain (buf : List σ) : Drained σ φ ε :=
  match _h : s.next buf with
  | .error e => ⟨[], some e, buf⟩
  | .ok none => ⟨[], none, buf⟩
  | .ok (some (f, rest)) => Drained.followedBy ⟨[f], none, rest⟩ (drain rest)
termination_by buf.length
decreasing_by exact s.shorter _h

/-- A chunk arrives, and what there is now is read. -/
def feed (d : Drained σ φ ε) (chunk : List σ) : Drained σ φ ε := d.followedBy (s.drain (d.rest ++ chunk))

variable {s} {buf : List σ}

theorem drain_error {e : ε} (h : s.next buf = .error e) : s.drain buf = ⟨[], some e, buf⟩ := by
  rw [drain]
  split <;> simp_all

theorem drain_none (h : s.next buf = .ok none) : s.drain buf = ⟨[], none, buf⟩ := by
  rw [drain]
  split <;> simp_all

theorem drain_piece {f : φ} {rest : List σ} (h : s.next buf = .ok (some (f, rest))) :
    s.drain buf = Drained.followedBy ⟨[f], none, rest⟩ (s.drain rest) := by
  rw [drain]
  split <;> simp_all

variable (s)

/-- The three answers of a splitter. -/
theorem next_cases (buf : List σ) : (∃ e, s.next buf = .error e) ∨ s.next buf = .ok none ∨
    ∃ f rest, s.next buf = .ok (some (f, rest)) := by
  cases h : s.next buf with
  | error e => exact .inl ⟨e, rfl⟩
  | ok o =>
    cases o with
    | none => exact .inr (.inl rfl)
    | some p => exact .inr (.inr ⟨p.1, p.2, rfl⟩)

@[simp] theorem drain_nil : s.drain [] = Drained.start := drain_none s.next_nil

/-- **Reading what there is and then the rest is reading all of it.** -/
theorem drain_append (buf more : List σ) : s.drain (buf ++ more) = s.feed (s.drain buf) more := by
  unfold feed
  obtain ⟨e, h⟩ | h | ⟨f, rest, h⟩ := s.next_cases buf
  · rw [drain_error h, drain_error (s.error_append h more)]
    rfl
  · rw [drain_none h]
    rfl
  · have hless := s.shorter h
    rw [drain_piece h, drain_piece (s.piece_append h more), drain_append rest more, feed, Drained.followedBy_assoc]
    rfl
termination_by buf.length

/-- **However a stream is cut into chunks, it is read the same.** -/
theorem foldl_feed : ∀ chunks : List (List σ), chunks.foldl s.feed Drained.start = s.drain chunks.flatten := by
  intro chunks
  induction chunks using List.reverseRecOn with
  | nil => simp
  | append_singleton chunks c ih =>
    rw [List.foldl_append, ih, List.foldl_cons, List.foldl_nil, ← drain_append, List.flatten_append, List.flatten_singleton]

/-- What a reading leaves has nothing more to read. -/
theorem drain_rest {buf : List σ} (h : (s.drain buf).error = none) :
    s.drain (s.drain buf).rest = ⟨[], none, (s.drain buf).rest⟩ := by
  have hself : s.drain buf = (s.drain buf).followedBy (s.drain ((s.drain buf).rest ++ [])) := by
    have happend := s.drain_append buf []
    rwa [List.append_nil] at happend
  rw [List.append_nil] at hself
  generalize hd : s.drain (s.drain buf).rest = d at hself
  have hpieces := congrArg Drained.pieces hself
  have herror := congrArg Drained.error hself
  have hrest := congrArg Drained.rest hself
  simp only [Drained.followedBy, List.self_eq_append_right] at hpieces herror hrest
  rw [h] at herror
  obtain ⟨pieces, error, rest⟩ := d
  exact Drained.mk.injEq .. ▸ ⟨hpieces, herror.symm, hrest.symm⟩

/-- A stream of pieces that are each read as written. -/
theorem drain_pieces {write : φ → List σ} {P : φ → Prop}
    (hwrite : ∀ f, P f → ∀ rest, s.next (write f ++ rest) = .ok (some (f, rest))) :
    ∀ fs : List φ, (∀ f ∈ fs, P f) → s.drain (fs.map write).flatten = ⟨fs, none, []⟩ := by
  intro fs hfs
  induction fs with
  | nil => exact s.drain_nil
  | cons f fs ih =>
    obtain ⟨hf, hfs⟩ := List.forall_mem_cons.1 hfs
    rw [List.map_cons, List.flatten_cons, drain_piece (hwrite f hf _), ih hfs]
    rfl

end Splitter

end Anvil.Lib
