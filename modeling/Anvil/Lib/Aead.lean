import Mathlib.Data.Set.Basic
import Anvil.Lib.Bytes

/-!
# Authenticated encryption with associated data

* `Sealing` : one call of the writer, `Aead` : the writer and the reader;
* `Ideal` : what was sealed opens, and nothing else does;
* `Ideal.sealed_of_open` : associated data and an envelope that open together are those of one call.
-/

namespace Anvil.Lib

/-- One call of the writer; the nonce is what it draws. -/
structure Sealing (κ : Type) where
  key : κ
  aad : List UInt8
  nonce : List UInt8
  plaintext : List UInt8

structure Aead (κ : Type) where
  sealWith : Sealing κ → List UInt8
  openWith : κ → List UInt8 → List UInt8 → Option (List UInt8)

namespace Aead
variable {κ : Type} {a : Aead κ} {made : Set (Sealing κ)}

/-- Associated data, then the envelope sealed with it. -/
def file (a : Aead κ) (s : Sealing κ) : List UInt8 := s.aad ++ a.sealWith s

/-- Of the calls that were made: an envelope opens exactly under the key and with the associated data that it was made
with. -/
def Ideal (a : Aead κ) (made : Set (Sealing κ)) : Prop := ∀ key aad envelope plaintext,
  a.openWith key aad envelope = some plaintext ↔ ∃ nonce, ⟨key, aad, nonce, plaintext⟩ ∈ made ∧
    a.sealWith ⟨key, aad, nonce, plaintext⟩ = envelope

theorem Ideal.open_sealed (h : a.Ideal made) {s : Sealing κ} (hs : s ∈ made) :
    a.openWith s.key s.aad (a.sealWith s) = some s.plaintext := (h _ _ _ _).2 ⟨s.nonce, hs, rfl⟩

theorem Ideal.sealed_of_open (h : a.Ideal made) {key : κ} {aad envelope plaintext : List UInt8}
    (hopen : a.openWith key aad envelope = some plaintext) :
    ∃ s ∈ made, s.key = key ∧ s.aad = aad ∧ s.plaintext = plaintext ∧ a.file s = aad ++ envelope := by
  obtain ⟨nonce, hmade, hseal⟩ := (h key aad envelope plaintext).1 hopen
  exact ⟨_, hmade, rfl, rfl, rfl, congrArg (aad ++ ·) hseal⟩

end Aead

end Anvil.Lib
