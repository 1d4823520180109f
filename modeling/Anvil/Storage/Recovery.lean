import Anvil.Lib.Bits
import Anvil.Storage.VaultRuns

/-!
# Recovery keys read back (`anvil-storage/src/vault.rs`)

* `decodeRecovery` : the bytes that the letters of a key write, five bits each;
* `Written` : what the 32-bit buffer still means after some bytes;
* `normalize_format` : normalization takes the hyphens out again;
* `format_keeps` : a formatted key gives its bytes back, however it is typed.
-/

namespace Anvil.Storage
open Anvil.Lib

def recoveryAlphabet : Text := "ABCDEFGHJKLMNPQRSTUVWXYZ23456789".toList

/-- The five bits of a letter. -/
def letterBits (c : Char) : List Bool := lowBits 5 (recoveryAlphabet.idxOf c)

/-- The letters as groups of five bits; the bits beyond the last byte are zero. -/
def decodeRecovery (t : Text) : Option (List UInt8) :=
  let (bytes, padding) := octets (t.flatMap letterBits)
  if (∀ c ∈ t, c ∈ recoveryAlphabet) ∧ padding.length < 5 ∧ true ∉ padding then some bytes else none

/-! ## Letters -/

theorem recoveryChar_spec (v : Nat) :
    recoveryChar v ∈ recoveryAlphabet ∧ recoveryAlphabet.idxOf (recoveryChar v) = v % 32 ∧
      (recoveryChar v).isAlphanum = true ∧
      (recoveryChar v).toUpper = recoveryChar v := by
  have hall : ∀ n < 32, recoveryAlphabet.getD n 'A' ∈ recoveryAlphabet ∧
      recoveryAlphabet.idxOf (recoveryAlphabet.getD n 'A') = n ∧
      (recoveryAlphabet.getD n 'A').isAlphanum = true ∧
        (recoveryAlphabet.getD n 'A').toUpper = recoveryAlphabet.getD n 'A' := by
    decide
  exact hall (v % 32) (Nat.mod_lt v (by decide))

theorem letterBits_recoveryChar (v : Nat) : letterBits (recoveryChar v) = lowBits 5 v := by
  unfold letterBits
  rw [(recoveryChar_spec v).2.1]
  exact lowBits_mod (Nat.le_refl 5) v

/-- The letters of a buffer are its upper bits. -/
theorem letters_of_buffer {k n : Nat} (h : 5 * k ≤ n) (v : Nat) :
    ((List.range k).map fun i => recoveryChar (v >>> (n - 5 * (i + 1)))).flatMap letterBits ++ lowBits (n - 5 * k) v =
      lowBits n v := by
  induction k with
  | zero => rfl
  | succ k ih =>
    have hsplit : lowBits (n - 5 * k) v = lowBits 5 (v >>> (n - 5 * (k + 1))) ++ lowBits (n - 5 * (k + 1)) v := by
      rw [← lowBits_add]
      congr 1
      omega
    rw [← ih (by omega), hsplit, List.range_succ, List.map_append, List.flatMap_append, List.append_assoc, List.map_singleton,
      List.flatMap_singleton, letterBits_recoveryChar]

/-! ## The buffer -/

/-- The letters so far and the bits that the buffer still owes are the bits of the bytes so far; what stands above them is
stale. -/
structure Written (raw : List UInt8) (acc : Text × Nat × Nat) : Prop where
  letters : ∀ c ∈ acc.1, ∃ v, c = recoveryChar v
  pending : acc.2.2 < 5
  bits : acc.1.flatMap letterBits ++ lowBits acc.2.2 acc.2.1 = raw.flatMap fun b => lowBits 8 b.toNat

theorem written_step {raw : List UInt8} {acc : Text × Nat × Nat} (h : Written raw acc) (b : UInt8) :
    Written (raw ++ [b]) (recoveryStep acc b) where
  letters := by
    intro c hc
    rcases List.mem_append.1 hc with hc | hc
    · exact h.letters c hc
    · obtain ⟨i, -, rfl⟩ := List.mem_map.1 hc
      exact ⟨_, rfl⟩
  pending := Nat.mod_lt _ (by decide)
  bits := by
    have hpending := h.pending
    have hbuffer : lowBits (acc.2.2 + 8) ((acc.2.1 * 256 + b.toNat) % 2 ^ 32) = lowBits acc.2.2 acc.2.1 ++
        lowBits 8 b.toNat := by
      rw [lowBits_mod (by omega), lowBits_push]
    have hrest : (acc.2.2 + 8) % 5 = acc.2.2 + 8 - 5 * ((acc.2.2 + 8) / 5) := by omega
    unfold recoveryStep
    dsimp only
    rw [List.flatMap_append, List.append_assoc, hrest, letters_of_buffer (by omega), hbuffer, ← List.append_assoc, h.bits,
      List.flatMap_append, List.flatMap_singleton]

theorem written_run (raw : List UInt8) : Written raw (raw.foldl recoveryStep ([], 0, 0)) := by
  induction raw using List.reverseRecOn with
  | nil => exact ⟨by simp, by decide, rfl⟩
  | append_singleton raw b ih =>
    rw [List.foldl_concat]
    exact written_step ih b

/-- The letters of a key, before they are grouped. -/
def recoveryLetters (raw : List UInt8) : Text :=
  let (out, bits, nbits) := raw.foldl recoveryStep ([], 0, 0)
  if nbits > 0 then out ++ [recoveryChar (bits <<< (5 - nbits))] else out

/-- The letters are the bits of the bytes, filled up with fewer than five zeros. -/
theorem letters_spec (raw : List UInt8) : (∀ c ∈ recoveryLetters raw, ∃ v, c = recoveryChar v) ∧
    ∃ p < 5, (recoveryLetters raw).flatMap letterBits = (raw.flatMap fun b => lowBits 8 b.toNat) ++
      List.replicate p false := by
  have h := written_run raw
  unfold recoveryLetters
  generalize raw.foldl recoveryStep ([], 0, 0) = acc at h ⊢
  obtain ⟨out, bits, nbits⟩ := acc
  have hbits := h.bits
  dsimp only at hbits ⊢
  have hpending : nbits < 5 := h.pending
  split_ifs with hn
  · refine ⟨fun c hc => ?_, 5 - nbits, by omega, ?_⟩
    · rcases List.mem_append.1 hc with hc | hc
      · exact h.letters c hc
      · exact ⟨_, List.mem_singleton.1 hc⟩
    · have hlast : lowBits 5 (bits <<< (5 - nbits)) = lowBits nbits bits ++ List.replicate (5 - nbits) false := by
        have hfive : 5 = nbits + (5 - nbits) := by omega
        rw [← lowBits_shiftLeft, show lowBits 5 (bits <<< (5 - nbits)) =
          lowBits (nbits + (5 - nbits)) (bits <<< (5 - nbits)) by rw [← hfive],
          lowBits_add, Nat.shiftLeft_shiftRight]
      rw [List.flatMap_append, List.flatMap_singleton, letterBits_recoveryChar, hlast, ← List.append_assoc, hbits]
  · obtain rfl : nbits = 0 := by omega
    refine ⟨h.letters, 0, by decide, ?_⟩
    rw [lowBits, List.append_nil] at hbits
    rw [hbits, List.replicate_zero, List.append_nil]

theorem length_letters (t : Text) : (t.flatMap letterBits).length = 5 * t.length := by
  induction t with
  | nil => rfl
  | cons c t ih =>
    rw [List.flatMap_cons, List.length_append, ih, letterBits, length_lowBits, List.length_cons]
    omega

theorem length_bytes (raw : List UInt8) : (raw.flatMap fun b => lowBits 8 b.toNat).length = 8 * raw.length := by
  induction raw with
  | nil => rfl
  | cons b raw ih =>
    rw [List.flatMap_cons, List.length_append, ih, length_lowBits, List.length_cons]
    omega

/-! ## Groups of four -/

theorem flatten_chunks {α : Type} (n : Nat) (l : List α) : (l.toChunks n).flatten = l := by
  have hgo : ∀ (xs : List α) (acc₁ : Array α) (acc₂ : Array (List α)),
      (List.toChunks.go n xs acc₁ acc₂).flatten = acc₂.toList.flatten ++ acc₁.toList ++ xs := by
    intro xs
    induction xs with
    | nil =>
      intro acc₁ acc₂
      rw [List.toChunks.go, Array.toList_push, List.flatten_concat, List.append_nil]
    | cons x xs ih =>
      intro acc₁ acc₂
      rw [List.toChunks.go]
      split
      · rw [ih, Array.toList_push, List.flatten_concat]
        simp
      · rw [ih, Array.toList_push]
        simp
  unfold List.toChunks
  split
  · rfl
  · rw [List.flatten_singleton]
  · rw [hgo]
    simp

/-- The hyphens between the groups are not letters. -/
theorem filter_hyphens (groups : List Text) :
    (['-'].intercalate groups).filter Char.isAlphanum = groups.flatten.filter Char.isAlphanum := by
  induction groups with
  | nil => rfl
  | cons group groups ih =>
    by_cases hnil : groups = []
    · rw [hnil, List.intercalate_singleton, List.flatten_singleton]
    · rw [List.intercalate_cons_of_ne_nil hnil, List.flatten_cons, List.filter_append, List.filter_append, ih,
        List.filter_append,
        show ['-'].filter Char.isAlphanum = [] by decide, List.append_nil]

theorem normalize_format (raw : List UInt8) : normalizeRecovery (formatRecoveryKey raw) = recoveryLetters raw := by
  have hletters := (letters_spec raw).1
  have hformat : formatRecoveryKey raw = ['-'].intercalate ((recoveryLetters raw).toChunks 4) := rfl
  have halphanum : (recoveryLetters raw).filter Char.isAlphanum = recoveryLetters raw := by
    refine List.filter_eq_self.2 fun c hc => ?_
    obtain ⟨v, rfl⟩ := hletters c hc
    exact (recoveryChar_spec v).2.2.1
  have hupper : (recoveryLetters raw).map Char.toUpper = recoveryLetters raw := by
    refine (List.map_congr_left fun c hc => ?_).trans (List.map_id _)
    obtain ⟨v, rfl⟩ := hletters c hc
    exact (recoveryChar_spec v).2.2.2
  unfold normalizeRecovery
  rw [hformat, filter_hyphens, flatten_chunks, halphanum, hupper]

/-! ## A formatted key -/

theorem decode_format (raw : List UInt8) : decodeRecovery (normalizeRecovery (formatRecoveryKey raw)) = some raw := by
  obtain ⟨hletters, p, hp, hbits⟩ := letters_spec raw
  have hoctets : octets ((recoveryLetters raw).flatMap letterBits) = (raw, List.replicate p false) := by
    rw [hbits]
    exact octets_append raw (by rw [List.length_replicate]; omega)
  unfold decodeRecovery
  rw [normalize_format, hoctets]
  refine if_pos ⟨fun c hc => ?_, by rw [List.length_replicate]; exact hp, fun h => ?_⟩
  · obtain ⟨v, rfl⟩ := hletters c hc
    exact (recoveryChar_spec v).1
  · exact Bool.false_ne_true (List.eq_of_mem_replicate h).symm

theorem length_format (raw : List UInt8) : (normalizeRecovery (formatRecoveryKey raw)).length = (8 * raw.length + 4) / 5 := by
  obtain ⟨-, p, hp, hbits⟩ := letters_spec raw
  have hlength := congrArg List.length hbits
  rw [length_letters, List.length_append, length_bytes, List.length_replicate] at hlength
  rw [normalize_format]
  omega

/-- **A recovery key loses nothing.** The letters of a key are as many as its bits need, they write its bytes, a key that is
typed otherwise is the same key, and two keys are never typed alike. -/
theorem format_keeps :
    (∀ raw : List UInt8, (normalizeRecovery (formatRecoveryKey raw)).length = (8 * raw.length + 4) / 5 ∧
      (∀ c ∈ normalizeRecovery (formatRecoveryKey raw), c ∈ recoveryAlphabet) ∧
      decodeRecovery (normalizeRecovery (formatRecoveryKey raw)) = some raw) ∧
      (∀ typed recovery, Retyped typed recovery → normalizeRecovery typed = normalizeRecovery recovery) ∧
      Function.Injective fun raw => normalizeRecovery (formatRecoveryKey raw) := by
  refine ⟨fun raw => ⟨length_format raw, fun c hc => ?_, decode_format raw⟩, fun typed recovery => normalizeRecovery_retyped,
    fun raw raw' h => ?_⟩
  · rw [normalize_format] at hc
    obtain ⟨v, rfl⟩ := (letters_spec raw).1 c hc
    exact (recoveryChar_spec v).1
  · have hdecoded := congrArg decodeRecovery h
    dsimp only at hdecoded
    rw [decode_format, decode_format] at hdecoded
    exact Option.some.inj hdecoded

theorem format_keeps_typed : Retyped "abcd efgh-j".toList "ABCD-EFGH-J".toList ∧
    normalizeRecovery "abcd efgh-j".toList = normalizeRecovery "ABCD-EFGH-J".toList ∧
    decodeRecovery (normalizeRecovery (formatRecoveryKey [255, 0, 7])) = some [255, 0, 7] := by
  have htyped : Retyped "abcd efgh-j".toList "ABCD-EFGH-J".toList := by
    unfold Retyped
    decide
  exact ⟨htyped, format_keeps.2.1 _ _ htyped, (format_keeps.1 [255, 0, 7]).2.2⟩

end Anvil.Storage
