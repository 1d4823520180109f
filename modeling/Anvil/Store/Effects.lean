import Anvil.Store.Handle

/-!
# What the operations of a transaction leave

Each operation of `Records` that returned, by what it did to the tables.

* `holdKey_ok`, `reading_ok` : reads leave the database alone;
* `put_ok`, `delete_ok`, `deleteRevisions_ok` : one row, and the rows of a list; `OnlyObjects` : no other table changed;
* `releaseBlob_ok`, `putNote_ok` : operations beside the objects.
-/

namespace Anvil.Store
open Anvil.Lib Anvil.Storage

variable {P B : Type} [DecidableEq P] {h : Hashes P B} {α : Type} {tx tx' : Tx h} {kind id : Text}

theorem holdKey_ok {u : Unit} (hk : (holdKey : TxM h Unit) tx = .ok u tx') : tx'.db = tx.db ∧ tx'.manifest = tx.manifest := by
  unfold holdKey at hk
  split at hk
  · cases hk
  · cases hk
    exact ⟨rfl, rfl⟩
  · cases hk
    exact ⟨rfl, rfl⟩

theorem read_ok {f : Tx h → Except StoreError α} {a : α} (hr : read f tx = .ok a tx') : f tx = .ok a ∧ tx' = tx := by
  unfold read check at hr
  cases hf : f tx with
  | ok b =>
    rw [hf] at hr
    obtain ⟨rfl, rfl⟩ := action_pure_ok.1 hr
    exact ⟨rfl, rfl⟩
  | error e =>
    rw [hf] at hr
    cases hr

/-- The read saw the tables as they are. -/
theorem reading_ok {f : Tx h → Except StoreError α} {a : α} (hr : reading f tx = .ok a tx') :
    f tx' = .ok a ∧ tx'.db = tx.db ∧ tx'.manifest = tx.manifest := by
  unfold reading at hr
  obtain ⟨u, tx₁, hk, hr⟩ := action_bind_ok.1 hr
  obtain ⟨hdb, hman⟩ := holdKey_ok hk
  obtain ⟨ha, rfl⟩ := read_ok hr
  exact ⟨ha, hdb, hman⟩

theorem modifyDb_ok {f : Db P → Db P} {u : Unit} (hm : (modifyDb f : TxM h Unit) tx = .ok u tx') : tx'.db = f tx.db := by
  cases hm
  rfl

theorem modifyManifest_ok {f : Manifest h → Manifest h} {u : Unit} (hm : (modifyManifest f : TxM h Unit) tx = .ok u tx') :
    tx'.db = tx.db := by
  cases hm
  rfl

theorem remember_ok {e : Entry P} {u : Unit} (hm : (remember e : TxM h Unit) tx = .ok u tx') : tx'.db = tx.db := by
  unfold remember at hm
  obtain ⟨o, tx₁, hr, hm₁⟩ := action_bind_ok.1 hm
  rw [modifyManifest_ok hm₁, (read_ok hr).2]

/-- A row of the kind and id is stored, with what was put sealed in it. -/
theorem put_ok {env : StoreEnv} {draw : Nat} {now : Int} {owner parent : Option Text} {sortKey : UInt64}
    {json : Bytes} {u : Unit}
    (hp : (put env draw now kind id owner parent sortKey json : TxM h Unit) tx = .ok u tx') :
    ∃ stored payload, tx'.db = { tx.db with objects := tx.db.objects.put ⟨kind, id, owner, parent, stored, now, payload⟩ } ∧
      ∃ tx₁ : Tx h, tx₁.db = tx.db ∧ tx₁.manifest = tx.manifest ∧
        sealedObject env draw kind id owner parent json tx₁ = .ok payload := by
  unfold put at hp
  obtain ⟨_, tx₁, hk, hp₁⟩ := action_bind_ok.1 hp
  obtain ⟨hdb, hman⟩ := holdKey_ok hk
  obtain ⟨payload, tx₂, hr₂, hp₂⟩ := action_bind_ok.1 hp₁
  obtain ⟨hpayload, htx₂⟩ := read_ok hr₂
  obtain ⟨stored, tx₃, hr₃, hp₃⟩ := action_bind_ok.1 hp₂
  obtain ⟨_, tx₄, hm, hp₄⟩ := action_bind_ok.1 hp₃
  refine ⟨stored, payload, ?_, tx₁, hdb, hman, hpayload⟩
  rw [remember_ok hp₄, modifyDb_ok hm, (read_ok hr₃).2, htx₂, hdb]

theorem delete_ok {b : Bool} (hd : (delete kind id : TxM h Bool) tx = .ok b tx') :
    tx'.db = { tx.db with objects := tx.db.objects.remove (kind, id) } := by
  unfold delete at hd
  obtain ⟨_, tx₁, hk, hd₁⟩ := action_bind_ok.1 hd
  obtain ⟨row, tx₂, hr, hd₂⟩ := action_bind_ok.1 hd₁
  obtain ⟨_, tx₃, hm, hd₃⟩ := action_bind_ok.1 hd₂
  obtain ⟨_, tx₄, hf, hd₄⟩ := action_bind_ok.1 hd₃
  rw [← (action_pure_ok.1 hd₄).2, modifyManifest_ok hf, modifyDb_ok hm, (read_ok hr).2, (holdKey_ok hk).1]

/-- Every table but that of the objects is as it was. -/
def OnlyObjects (db db' : Db P) : Prop := db' = { db with objects := db'.objects }

omit [DecidableEq P] in
theorem OnlyObjects.trans {db db₁ db₂ : Db P} (h₁ : OnlyObjects db db₁) (h₂ : OnlyObjects db₁ db₂) : OnlyObjects db db₂ := by
  unfold OnlyObjects at *
  rw [h₂, h₁]

theorem deleteRevisions_ok : ∀ {ids : List Text} {tx tx' : Tx h} {u : Unit},
    (deleteRevisions ids : TxM h Unit) tx = .ok u tx' → (∀ k, tx'.db.objects.get? k =
      if k.1 = revisionKind ∧ k.2 ∈ ids then none else tx.db.objects.get? k) ∧ OnlyObjects tx.db tx'.db
  | [], tx, tx', u, hd => by
    obtain ⟨-, rfl⟩ := action_pure_ok.1 hd
    exact ⟨by simp, rfl⟩
  | id :: ids, tx, tx', u, hd => by
    unfold deleteRevisions at hd
    obtain ⟨b, tx₁, h₁, hd⟩ := action_bind_ok.1 hd
    obtain ⟨hrest, honly⟩ := deleteRevisions_ok hd
    have hdb := delete_ok h₁
    refine ⟨fun k => ?_, ?_⟩
    · rw [hrest, hdb]
      dsimp only
      rw [Rows.get?_remove]
      by_cases hk : k = (revisionKind, id)
      · subst hk
        simp
      · have hne : ¬ (k.1 = revisionKind ∧ k.2 = id) := fun hc => hk (Prod.ext hc.1 hc.2)
        by_cases hin : k.1 = revisionKind ∧ k.2 ∈ ids
        · simp [hin]
        · rw [if_neg hin, if_neg hk, if_neg]
          rintro ⟨h₁, h₂⟩
          rcases List.mem_cons.1 h₂ with h₂ | h₂
          · exact hne ⟨h₁, h₂⟩
          · exact hin ⟨h₁, h₂⟩
    · refine OnlyObjects.trans ?_ honly
      unfold OnlyObjects
      rw [hdb]

theorem releaseBlob_ok {u : Unit} (hr : (releaseBlob id : TxM h Unit) tx = .ok u tx') : tx'.db = releaseRow id tx.db := by
  unfold releaseBlob at hr
  obtain ⟨_, tx₁, hk, hr⟩ := action_bind_ok.1 hr
  rw [modifyDb_ok hr, (holdKey_ok hk).1]

theorem putNote_ok {name value : Text} {u : Unit} (hn : (putNote name value : TxM h Unit) tx = .ok u tx') :
    tx'.db = { tx.db with metas := tx.db.metas.put ⟨noteKey name, .text value⟩ } := by
  unfold putNote at hn
  obtain ⟨_, tx₁, hk, hn⟩ := action_bind_ok.1 hn
  rw [modifyDb_ok hn, (holdKey_ok hk).1]

end Anvil.Store
