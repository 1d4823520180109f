import Anvil.Store.Agreement

/-!
# History retention (`anvil-storage/src/store.rs`)

Response bodies are stored as blobs, which records of the same content share, and attachments pin theirs.

* `pruneHistory`, `NewestFirst` : retention by age and by size; the order of its query is a parameter;
* `BodiesStored`, `Held` : every record's body is stored; a blob that is pinned and stored;
* `Guards` : what an operation keeps of both, but for the blobs it releases; `guarding_runOp`, `Call.run_guards` : every
  operation does, and every call of a handle;
* `inBudget` : the newest records that fit; `mem_pruneHistory` : retention keeps exactly those;
* `history_retained` : over every run of handles no body is lost, and what retention leaves.
-/

namespace Anvil.Store
open Anvil.Lib Anvil.Storage

variable {P B : Type}

/-! ## Retention -/

/-- `ORDER BY started_at DESC`, which leaves the order of records with one time open. -/
structure NewestFirst where
  rows : List HistoryRow → List HistoryRow
  perm : ∀ l, (rows l).Perm l
  sorted : ∀ l, (rows l).Pairwise fun r s => s.startedAt ≤ r.startedAt

/-- The time before which records are too old. -/
def cutoff (now : Int) (maxAgeDays : Nat) : Int := now - maxAgeDays * 86400000

/-- The database, the bytes of the records so far, and the records removed. `u64` totals are natural numbers: they count
stored bytes. -/
structure Pruning (P : Type) where
  db : Db P
  total : Nat
  removed : Nat

/-- One record of the loop over the newest first. -/
def pruneStep (maxTotalBytes : Nat) (s : Pruning P) (r : HistoryRow) : Pruning P :=
  let total := s.total + r.size
  if maxTotalBytes < total then ⟨{ s.db with history := s.db.history.remove r.id }, total, s.removed + 1⟩
  else ⟨s.db, total, s.removed⟩

/-- `DELETE FROM blobs WHERE NOT EXISTS ..`: of those that no record and no pin uses. -/
def collectBlobs (db : Db P) : Db P :=
  { db with blobs := db.blobs.keep fun b => usesBlob db b.id || (db.metas.get? (pinKey b.id)).isSome }

/-- `prune_history`, with the number of records it removed. -/
def pruneHistory (order : NewestFirst) (now : Int) (maxAgeDays maxTotalBytes : Nat) (db : Db P) : Db P × Nat :=
  let recent := db.history.keep fun r => cutoff now maxAgeDays ≤ r.startedAt
  let s := (order.rows recent.list).foldl (pruneStep maxTotalBytes)
    ⟨{ db with history := recent }, 0, db.history.list.length - recent.list.length⟩
  (collectBlobs s.db, s.removed)

/-! ## Bodies and pins -/

/-- The body of every record is stored. -/
def BodiesStored (db : Db P) : Prop := ∀ r ∈ db.history.list, ∀ b, r.bodyBlob = some b → (db.blobs.get? b).isSome

def Pinned (db : Db P) (id : Text) : Prop := (db.metas.get? (pinKey id)).isSome

/-- A pinned blob that is stored. -/
def Held (db : Db P) (id : Text) : Prop := Pinned db id ∧ (db.blobs.get? id).isSome

/-- What a change keeps, but for the pins of the blobs it frees. -/
structure Guards (freed : Text → Prop) (db db' : Db P) : Prop where
  bodies : BodiesStored db → BodiesStored db'
  held : ∀ id, ¬freed id → Held db id → Held db' id

variable {freed : Text → Prop} {db : Db P} {env : StoreEnv}

theorem Guards.refl (db : Db P) : Guards freed db db := ⟨id, fun _ _ => id⟩

theorem Guards.trans {a b c : Db P} (hab : Guards freed a b) (hbc : Guards freed b c) : Guards freed a c :=
  ⟨hbc.bodies ∘ hab.bodies, fun id hid => hbc.held id hid ∘ hab.held id hid⟩

theorem Guards.mono {freed' : Text → Prop} {db db' : Db P} (h : Guards freed db db') (hf : ∀ id, freed id → freed' id) :
    Guards freed' db db' := ⟨h.bodies, fun id hid => h.held id fun hi => hid (hf id hi)⟩

/-- A change of other tables, or of rows of `meta` that are no pins. -/
theorem guards_of_same {db db' : Db P} (hh : db'.history = db.history) (hb : db'.blobs = db.blobs)
    (hp : ∀ id, db'.metas.get? (pinKey id) = db.metas.get? (pinKey id)) : Guards freed db db' where
  bodies := by
    intro h r hr b hrb
    rw [hb]
    exact h r (hh ▸ hr) b hrb
  held := by
    intro id _ ⟨hpin, hstored⟩
    exact ⟨by rw [Pinned, hp]; exact hpin, by rw [hb]; exact hstored⟩

theorem pinKey_injective : Function.Injective pinKey := fun _ _ h => List.append_cancel_left h

theorem get?_pinRow (id : Text) (db : Db P) (k : Text) :
    ((db.metas.get? k).isSome → ((pinRow id db).metas.get? k).isSome) := by
  intro hk
  unfold pinRow
  split_ifs
  · exact hk
  · simp only
    rw [Rows.get?_put]
    split_ifs
    · rfl
    · exact hk

theorem putBlobRow_stored (draw : Nat) (now : Int) (bytes : Bytes) (db : Db P) :
    ((putBlobRow env draw now bytes db).blobs.get? (env.blobId bytes)).isSome := by
  unfold putBlobRow
  split_ifs with hb
  · exact hb
  · simp only
    rw [Rows.get?_put, if_pos rfl]
    rfl

theorem guards_putBlobRow (draw : Nat) (now : Int) (bytes : Bytes) (db : Db P) :
    Guards freed db (putBlobRow env draw now bytes db) := by
  have hmore : ∀ id, (db.blobs.get? id).isSome → ((putBlobRow env draw now bytes db).blobs.get? id).isSome := by
    intro id hid
    unfold putBlobRow
    split_ifs
    · exact hid
    · simp only
      rw [Rows.get?_put]
      split_ifs
      · rfl
      · exact hid
  have hsame : (putBlobRow env draw now bytes db).history = db.history ∧ (putBlobRow env draw now bytes db).metas =
      db.metas := by
    unfold putBlobRow
    split_ifs
    · exact ⟨rfl, rfl⟩
    · exact ⟨rfl, rfl⟩
  refine ⟨?_, ?_⟩
  · intro h r hr b hrb
    exact hmore b (h r (hsame.1 ▸ hr) b hrb)
  · intro id _ ⟨hpin, hstored⟩
    exact ⟨by rw [Pinned, hsame.2]; exact hpin, hmore id hstored⟩

theorem guards_pinRow (id : Text) (db : Db P) : Guards freed db (pinRow id db) := by
  have hsame : (pinRow id db).history = db.history ∧ (pinRow id db).blobs = db.blobs := by
    unfold pinRow
    split_ifs
    · exact ⟨rfl, rfl⟩
    · exact ⟨rfl, rfl⟩
  refine ⟨?_, ?_⟩
  · intro h r hr b hrb
    rw [hsame.2]
    exact h r (hsame.1 ▸ hr) b hrb
  · intro i _ ⟨hpin, hstored⟩
    exact ⟨get?_pinRow id db _ hpin, by rw [hsame.2]; exact hstored⟩

theorem usesBlob_iff {db : Db P} {id : Text} : usesBlob db id = true ↔ ∃ r ∈ db.history.list, r.bodyBlob = some id := by
  unfold usesBlob
  rw [List.any_eq_true]
  simp

/-- A blob is released only where no record uses it. -/
theorem guards_releaseRow (id : Text) (db : Db P) : Guards (· = id) db (releaseRow id db) := by
  refine ⟨?_, ?_⟩
  · intro h r hr b hrb
    have hstored := h r hr b hrb
    unfold releaseRow
    simp only
    split_ifs with hused
    · exact hstored
    · rw [Rows.get?_remove, if_neg]
      · exact hstored
      · rintro rfl
        exact hused (usesBlob_iff.2 ⟨r, hr, hrb⟩)
  · intro i hi ⟨hpin, hstored⟩
    refine ⟨?_, ?_⟩
    · unfold Pinned releaseRow
      simp only
      rw [Rows.get?_remove, if_neg fun hk => hi (pinKey_injective hk)]
      exact hpin
    · unfold releaseRow
      simp only
      split_ifs
      · exact hstored
      · rw [Rows.get?_remove, if_neg hi]
        exact hstored

theorem guards_dropReplaced (replaced : Option Text) (db : Db P) : Guards freed db (dropReplaced replaced db) := by
  unfold dropReplaced
  cases replaced with
  | none => exact Guards.refl db
  | some old =>
    rw [Option.elim_some]
    split_ifs with hused
    · exact Guards.refl db
    · rw [Bool.or_eq_true, not_or] at hused
      refine ⟨?_, ?_⟩
      · intro h r hr b hrb
        simp only
        rw [Rows.get?_remove, if_neg]
        · exact h r hr b hrb
        · rintro rfl
          exact hused.1 (usesBlob_iff.2 ⟨r, hr, hrb⟩)
      · intro i _ ⟨hpin, hstored⟩
        refine ⟨hpin, ?_⟩
        simp only
        rw [Rows.get?_remove, if_neg]
        · exact hstored
        · rintro rfl
          exact hused.2 hpin

/-- The body is stored before the record that names it is. -/
theorem guards_putHistory {db : Db P} {row : HistoryRow} (hbody : ∀ b, row.bodyBlob = some b → (db.blobs.get? b).isSome) :
    Guards freed db { db with history := db.history.put row } := by
  refine ⟨?_, fun _ _ h => h⟩
  intro h r hr b hrb
  rcases Rows.mem_put.1 hr with ⟨hr, -⟩ | rfl
  · exact h r hr b hrb
  · exact hbody b hrb

theorem guards_addHistoryRows (draw : Nat) (now : Int) (id : Text) (ws request : Option Text) (startedAt : Int) (json : Bytes)
    (body : Option Bytes) (replaced : Option Text) (db : Db P) :
    Guards freed db (addHistoryRows env draw now id ws request startedAt json body replaced db) := by
  have hbody : ∀ kept : Option Bytes, Guards freed db (kept.elim db fun b => putBlobRow env draw now b db) ∧
      ∀ b, kept.map env.blobId = some b → ((kept.elim db fun b => putBlobRow env draw now b db).blobs.get? b).isSome := by
    intro kept
    cases kept with
    | none => exact ⟨Guards.refl db, fun b hb => by cases hb⟩
    | some bytes =>
      refine ⟨guards_putBlobRow draw now bytes db, fun b hb => ?_⟩
      obtain rfl := Option.some.inj hb
      exact putBlobRow_stored draw now bytes db
  obtain ⟨hstored, hnamed⟩ := hbody (body.filter fun b => !b.isEmpty)
  exact (hstored.trans (guards_putHistory hnamed)).trans (guards_dropReplaced replaced _)

/-- Records may go at any time. -/
theorem guards_keepHistory (db : Db P) (keeps : HistoryRow → Bool) :
    Guards freed db { db with history := db.history.keep keeps } :=
  ⟨fun h r hr => h r (Rows.mem_keep.1 hr).1, fun _ _ h => h⟩

theorem guards_collectBlobs (db : Db P) : Guards freed db (collectBlobs db) := by
  refine ⟨?_, ?_⟩
  · intro h r hr b hrb
    unfold collectBlobs
    simp only
    rw [Rows.get?_keep]
    obtain ⟨row, hrow⟩ := Option.isSome_iff_exists.1 (h r hr b hrb)
    have hid : row.id = b := Rows.key_get? hrow
    rw [hrow, Option.filter_some, if_pos]
    · rfl
    · rw [Bool.or_eq_true, hid]
      exact .inl (usesBlob_iff.2 ⟨r, hr, hrb⟩)
  · intro i _ ⟨hpin, hstored⟩
    refine ⟨hpin, ?_⟩
    unfold collectBlobs
    simp only
    rw [Rows.get?_keep]
    obtain ⟨row, hrow⟩ := Option.isSome_iff_exists.1 hstored
    have hid : row.id = i := Rows.key_get? hrow
    rw [hrow, Option.filter_some, if_pos]
    · rfl
    · rw [Bool.or_eq_true, hid]
      exact .inr hpin

theorem guards_withoutWorkspace (ws : Text) (db : Db P) : Guards freed db (db.withoutWorkspace ws) :=
  (guards_keepHistory db fun r => r.workspaceId ≠ some ws).trans (guards_of_same rfl rfl fun _ => rfl)

/-! ## Operations -/

variable [DecidableEq P] {h : Hashes P B} {α β : Type}

/-- However the action ends, it guards the bodies, and the pins but for those it frees. -/
def Guarding (freed : Text → Prop) (m : TxM h α) : Prop := Along (fun tx tx' => Guards freed tx.db tx'.db) m

theorem guarding_pure (a : α) : Guarding freed (pure a : TxM h α) := along_pure (fun tx => Guards.refl tx.db) a

theorem Guarding.bind {m : TxM h α} {f : α → TxM h β} (hm : Guarding freed m) (hf : ∀ a, Guarding freed (f a)) :
    Guarding freed (m >>= f) :=
  Along.bind (R := fun tx tx' : Tx h => Guards freed tx.db tx'.db) (fun hab hbc => hab.trans hbc) hm hf

theorem Guarding.map {m : TxM h α} (hm : Guarding freed m) (f : α → β) : Guarding freed (f <$> m) :=
  hm.bind fun a => guarding_pure (f a)

theorem guarding_read (f : Tx h → Except StoreError α) :
    Guarding freed (read f) := along_check (fun tx => Guards.refl tx.db) f

theorem guarding_holdKey : Guarding freed (holdKey : TxM h Unit) := by
  intro tx
  unfold Ensures holdKey
  split
  · next heq =>
    split at heq
    · cases heq
    · cases heq
      exact Guards.refl tx.db
    · cases heq
      exact Guards.refl tx.db
  · next heq =>
    split at heq
    · cases heq
      exact Guards.refl tx.db
    · cases heq
    · cases heq

theorem guarding_reading (f : Tx h → Except StoreError α) : Guarding freed (reading f) :=
  guarding_holdKey.bind fun _ => guarding_read f

theorem guarding_modifyDb {f : Db P → Db P} (hf : ∀ db, Guards freed db (f db)) : Guarding freed (modifyDb f : TxM h Unit) :=
  along_modify fun tx => hf tx.db

theorem guarding_modifyManifest (f : Manifest h → Manifest h) : Guarding freed (modifyManifest f : TxM h Unit) :=
  along_modify fun tx => Guards.refl tx.db

theorem guarding_remember (e : Entry P) : Guarding freed (remember e : TxM h Unit) :=
  (guarding_read _).bind fun _ => guarding_modifyManifest _

/-- A write of objects or secrets. -/
theorem guarding_tables {f : Db P → Db P} (hh : ∀ db, (f db).history = db.history) (hb : ∀ db, (f db).blobs = db.blobs)
    (hm : ∀ db, (f db).metas = db.metas) : Guarding freed (modifyDb f : TxM h Unit) :=
  guarding_modifyDb fun db => guards_of_same (hh db) (hb db) fun _ => by rw [hm]

theorem guarding_put (draw : Nat) (now : Int) (kind id : Text) (owner parent : Option Text) (sortKey : UInt64)
    (json : Bytes) :
    Guarding freed (put env draw now kind id owner parent sortKey json : TxM h Unit) := by
  unfold put
  apply guarding_holdKey.bind
  intro _
  apply (guarding_read _).bind
  intro payload
  apply (guarding_read _).bind
  intro stored
  refine Guarding.bind (guarding_tables ?_ ?_ ?_) fun _ => ?_
  · exact fun _ => rfl
  · exact fun _ => rfl
  · exact fun _ => rfl
  exact guarding_remember _

theorem guarding_delete (kind id : Text) : Guarding freed (delete kind id : TxM h Bool) := by
  unfold delete
  apply guarding_holdKey.bind
  intro _
  apply (guarding_read _).bind
  intro row
  refine Guarding.bind (guarding_tables ?_ ?_ ?_) fun _ => ?_
  · exact fun _ => rfl
  · exact fun _ => rfl
  · exact fun _ => rfl
  exact (guarding_modifyManifest _).bind fun _ => guarding_pure _

theorem guarding_putSecret (draw : Nat) (now : Int) (id : Text) (owner : Option Text) (label value : Text) :
    Guarding freed (putSecret env draw now id owner label value : TxM h Unit) := by
  unfold putSecret
  apply guarding_holdKey.bind
  intro _
  refine Guarding.bind (guarding_tables ?_ ?_ ?_) fun _ => ?_
  · exact fun _ => rfl
  · exact fun _ => rfl
  · exact fun _ => rfl
  exact guarding_remember _

theorem guarding_deleteSecret (id : Text) : Guarding freed (deleteSecret id : TxM h Unit) := by
  unfold deleteSecret
  apply guarding_holdKey.bind
  intro _
  apply (guarding_read _).bind
  intro _
  refine Guarding.bind (guarding_tables ?_ ?_ ?_) fun _ => ?_
  · exact fun _ => rfl
  · exact fun _ => rfl
  · exact fun _ => rfl
  exact guarding_modifyManifest _

theorem guarding_revisionsOf (ws : Text) : ∀ rows : List RowMeta, Guarding freed (revisionsOf env ws rows : TxM h (List Text))
  | [] => guarding_pure _
  | row :: rows => by
    unfold revisionsOf
    split
    · exact guarding_revisionsOf ws rows
    · apply guarding_holdKey.bind
      intro _
      apply (guarding_read _).bind
      intro found
      exact (guarding_revisionsOf ws rows).bind fun _ => guarding_pure _

theorem guarding_deleteRevisions : ∀ ids : List Text, Guarding freed (deleteRevisions ids : TxM h Unit)
  | [] => guarding_pure _
  | id :: ids => (guarding_delete revisionKind id).bind fun _ => guarding_deleteRevisions ids

theorem guarding_checkEnrolled : Guarding freed (checkEnrolled : TxM h Unit) := by
  have hwhole : Guarding freed (checkWhole : TxM h Unit) := by
    unfold checkWhole
    apply guarding_holdKey.bind
    intro _
    apply (guarding_read _).bind
    intro _
    apply guarding_holdKey.bind
    intro _
    exact (guarding_read _).bind fun _ => guarding_pure _
  unfold checkEnrolled
  apply (guarding_read _).bind
  intro enrolled
  split_ifs
  · exact hwhole
  · exact guarding_pure ()

theorem guarding_deleteWorkspace (ws : Text) : Guarding freed (deleteWorkspace env ws : TxM h Unit) := by
  unfold deleteWorkspace
  apply guarding_holdKey.bind
  intro _
  apply guarding_holdKey.bind
  intro _
  apply (guarding_read _).bind
  intro rows
  apply (guarding_revisionsOf ws rows).bind
  intro ids
  apply (guarding_deleteRevisions ids).bind
  intro _
  apply guarding_checkEnrolled.bind
  intro _
  apply (guarding_modifyDb (guards_withoutWorkspace ws)).bind
  intro _
  exact guarding_modifyManifest _

theorem guarding_addHistory (draw : Nat) (now : Int) (id : Text) (ws request : Option Text) (startedAt : Int) (json : Bytes)
    (body : Option Bytes) : Guarding freed (addHistory env draw now id ws request startedAt json body : TxM h Unit) := by
  unfold addHistory
  apply guarding_holdKey.bind
  intro _
  apply (guarding_read _).bind
  intro _
  apply (guarding_read _).bind
  intro replaced
  exact guarding_modifyDb (guards_addHistoryRows draw now id ws request startedAt json body replaced)

theorem guarding_putNote (name value : Text) : Guarding freed (putNote name value : TxM h Unit) := by
  unfold putNote
  apply guarding_holdKey.bind
  intro _
  refine guarding_modifyDb fun db => guards_of_same rfl rfl fun id => ?_
  rw [Rows.get?_put, if_neg]
  intro hk
  exact absurd (congrArg List.head? hk) (by simp [pinKey, noteKey])

/-- The blob that an operation releases. -/
def Op.releases : Op → Text → Prop
  | .releaseBlob id => (· = id)
  | _ => fun _ => False

theorem guarding_runOp : ∀ op : Op, Guarding op.releases (runOp env op : TxM h Answer)
  | .put draw now kind id owner parent sortKey json => (guarding_put draw now kind id owner parent sortKey json).map _
  | .get _ _ => (guarding_reading _).map _
  | .list _ _ => (guarding_reading _).map _
  | .objectMeta _ => (guarding_reading _).map _
  | .delete kind id => (guarding_delete kind id).map _
  | .deleteWorkspace ws => (guarding_deleteWorkspace ws).map _
  | .putSecret draw now id owner label value => (guarding_putSecret draw now id owner label value).map _
  | .getSecret _ => (guarding_reading _).map _
  | .getWorkspaceSecret _ _ => (guarding_reading _).map _
  | .secretOwners => (guarding_reading _).map _
  | .deleteSecret id => (guarding_deleteSecret id).map _
  | .addHistory draw now id ws request startedAt json body =>
    (guarding_addHistory draw now id ws request startedAt json body).map _
  | .getHistory _ => (guarding_reading _).map _
  | .putBlob draw now bytes => by
    have hput : Guarding (Op.releases (.putBlob draw now bytes)) (putBlob env draw now bytes : TxM h Text) :=
      guarding_holdKey.bind fun _ => (guarding_modifyDb (guards_putBlobRow draw now bytes)).bind fun _ => guarding_pure _
    exact hput.map _
  | .pinBlob id => (guarding_holdKey.bind fun _ => guarding_modifyDb (guards_pinRow id)).map _
  | .releaseBlob id => (guarding_holdKey.bind fun _ => guarding_modifyDb (guards_releaseRow id)).map _
  | .getBlob _ => (guarding_reading _).map _
  | .putNote name value => (guarding_putNote name value).map _
  | .note _ => (guarding_reading _).map _

/-- A run of the closure releases the blob. -/
def Prog.Frees (env : StoreEnv) (id : Text) : Prog → Tx h → Prop
  | .done _, _ => False
  | .step op next, tx =>
    op.releases id ∨ Frees env id (next (attempted (runOp env op) tx).1) (attempted (runOp env op) tx).2

theorem attempted_along {R : Tx h → Tx h → Prop} {m : TxM h α} (hm : Along R m) (tx : Tx h) : R tx (attempted m tx).2 := by
  have he := hm tx
  unfold Ensures at he
  unfold attempted
  cases hr : m tx with
  | ok a tx' =>
    rw [hr] at he
    exact he
  | error e tx' =>
    rw [hr] at he
    exact he

theorem runProg_guards : ∀ (f : Prog) (tx : Tx h), Guards (fun id => f.Frees env id tx) tx.db (runProg env f tx).2.db
  | .done _, tx => Guards.refl tx.db
  | .step op next, tx => by
    have hop : Guards (fun id => (Prog.step op next).Frees env id tx) tx.db (attempted (runOp env op) tx).2.db :=
      (attempted_along (guarding_runOp op) tx).mono fun _ => .inl
    exact hop.trans ((runProg_guards (next _) _).mono fun _ => .inr)

/-! ## Calls -/

/-- A call of a handle releases the blob. -/
def Call.Frees (env : StoreEnv) (id : Text) (c : Call) (s : Session h) : Prop :=
  match c with
  | .transact fate f => ∃ m s', beginRecords env s = .ok m s' ∧ f.Frees env id ⟨s'.db, m, fate.locks⟩
  | _ => False

omit [DecidableEq P] in
theorem Autocommit.run_guards (w : Autocommit) (db : Db P) : Guards freed db (w.run env db) := by
  cases w with
  | putBlob draw now bytes => exact guards_putBlobRow draw now bytes db
  | pinBlob id => exact guards_pinRow id db
  | clearHistory ws => exact guards_keepHistory db _
  | deleteLoadReport id => exact guards_of_same rfl rfl fun _ => rfl
  | pruneHistory keeps => exact (guards_keepHistory db keeps).trans (guards_collectBlobs _)

/-- Publishing writes the catalogue and the authority's rows of `meta`. -/
theorem publish_guards {draw : Nat} {db db' : Db P} {state : KeyState} {m : Manifest h} {c : Catalogue h}
    (hp : publish env draw db state m = .ok (db', c)) : Guards freed db db' := by
  obtain ⟨rows, -, hp⟩ := bind_eq_ok.1 hp
  obtain ⟨db₁, hroot, hp⟩ := bind_eq_ok.1 hp
  obtain ⟨rfl, -⟩ := Prod.mk.inj (Except.ok.inj hp)
  unfold publishRoot at hroot
  obtain ⟨header, -, hroot⟩ := bind_eq_ok.1 hroot
  obtain rfl := Except.ok.inj hroot
  refine guards_of_same rfl rfl fun id => ?_
  have hcanary : pinKey id ≠ canaryKey := (reserved_canaryKey.2 id).symm
  have hstate : pinKey id ≠ stateKey := (reserved_stateKey.2 id).symm
  have hput : ∀ rows : Rows MetaRow.key, (rows.put ⟨stateKey, .state { state with header := header }⟩).get? (pinKey id) =
      rows.get? (pinKey id) := fun rows => by rw [Rows.get?_put, if_neg hstate]
  simp only
  unfold updateCanary
  split_ifs
  · rw [Rows.get?_put, if_neg hcanary, hput]
  · exact hput _

/-- What a call leaves of the database, where its steps keep `Guards`. -/
theorem leaves_guards {m : StoreM h α} {s : Session h}
    (hm : Ensures m s (fun _ s' => Guards freed s.db s'.db) fun s' => Guards freed s.db s'.db) :
    Guards freed s.db (leaves m s).db := by
  unfold Ensures at hm
  unfold leaves
  cases hr : m s with
  | ok a s' =>
    rw [hr] at hm
    exact hm
  | error e s' =>
    rw [hr] at hm
    exact hm

theorem ensures_commit_guards {fate : Fate} {s : Session h} {tx : Tx h} (hg : Guards freed s.db tx.db) :
    Ensures (commit env fate tx) s (fun _ s' => Guards freed s.db s'.db) fun s' => Guards freed s.db s'.db := by
  unfold Ensures commit
  cases tx.manifest.filter Manifest.dirty with
  | none =>
    have hdb : Ensures (commitDb fate tx.db) s (fun _ s' => Guards freed s.db s'.db) fun s' => Guards freed s.db s'.db :=
      ensures_commitDb hg (Guards.refl s.db)
    exact hdb
  | some m' =>
    simp only
    cases readChecked tx.db >>= orIntegrity with
    | error e => exact Guards.refl s.db
    | ok state =>
      simp only
      split_ifs
      · exact Guards.refl s.db
      · cases hp : publish env fate.draw tx.db state m' with
        | error e => exact Guards.refl s.db
        | ok r =>
          obtain ⟨db, catalogue⟩ := r
          unfold commitDb
          cases fate.commits with
          | false => exact Guards.refl s.db
          | true => exact hg.trans (publish_guards hp)

theorem ensures_inTransaction_guards {fate : Fate} {f : Prog} {s : Session h} (hs : s.Sound) :
    Ensures (inTransaction env fate f) s (fun _ s' => Guards (fun id => (Call.transact fate f).Frees env id s) s.db s'.db)
      fun s' => Guards (fun id => (Call.transact fate f).Frees env id s) s.db s'.db := by
  have hbegin : Ensures (beginRecords env) s (fun m s₁ => beginRecords env s = .ok m s₁ ∧ s₁.db = s.db) fun s' =>
      s'.db = s.db := by
    have hlooks : Ensures (beginRecords env) s _ _ := looks_beginRecords s hs
    unfold Ensures at hlooks ⊢
    cases hb : beginRecords env s with
    | ok m s₁ =>
      rw [hb] at hlooks
      exact ⟨rfl, hlooks.2.1⟩
    | error e s₁ =>
      rw [hb] at hlooks
      exact hlooks.2
  unfold inTransaction
  rw [ensures_bind]
  refine hbegin.imp ?_ ?_
  · rintro m s₁ ⟨hb, hdb⟩
    have hrun : Guards (fun id => (Call.transact fate f).Frees env id s) s₁.db (runProg env f ⟨s₁.db, m, fate.locks⟩).2.db :=
      (runProg_guards f ⟨s₁.db, m, fate.locks⟩).mono fun id hid => ⟨m, s₁, hb, hid⟩
    rw [ensures_bind]
    have hfinish : Ensures (finish env fate (runProg env f ⟨s₁.db, m, fate.locks⟩)) s₁
        (fun _ s' => Guards (fun id => (Call.transact fate f).Frees env id s) s₁.db s'.db)
        fun s' => Guards (fun id => (Call.transact fate f).Frees env id s) s₁.db s'.db := by
      unfold finish
      rw [ensures_bind]
      refine (ensures_inspect _).imp ?_ ?_
      · rintro a s₂ ⟨rfl, -⟩
        rw [ensures_bind]
        exact (ensures_commit_guards hrun).imp (fun _ _ => id) fun _ => id
      · rintro s₂ rfl
        exact Guards.refl _
    refine hfinish.imp ?_ ?_
    · exact fun _ _ hg => hdb ▸ hg
    · exact fun _ hg => hdb ▸ hg
  · intro s₁ hdb
    rw [hdb]
    exact Guards.refl s.db

theorem Looks.guards {m : StoreM h α} {Q : α → Session h → Prop} {s : Session h} (hm : Looks m Q) (hs : s.Sound) :
    Guards freed s.db (leaves m s).db := by
  apply leaves_guards
  refine (hm s hs).imp ?_ ?_
  · rintro a s' ⟨-, hdb, -⟩
    exact guards_of_same (by rw [hdb]) (by rw [hdb]) fun _ => by rw [hdb]
  · rintro s' ⟨-, hdb⟩
    exact guards_of_same (by rw [hdb]) (by rw [hdb]) fun _ => by rw [hdb]

theorem Call.run_guards (c : Call) {s : Session h} (hs : s.Sound) :
    Guards (fun id => c.Frees env id s) s.db (c.run env s).db := by
  cases c with
  | check => exact looks_writing.guards hs
  | transact fate f => exact leaves_guards (ensures_inTransaction_guards hs)
  | verify => exact looks_verifySnapshot.guards hs
  | autocommit fate w =>
    apply leaves_guards
    unfold Store.autocommit
    rw [ensures_bind]
    refine (looks_requireUnlocked s hs).imp ?_ ?_
    · rintro _ s₁ ⟨-, hdb, -⟩
      rw [ensures_bind]
      have hcommit : Ensures (commitDb fate (w.run env s₁.db) : StoreM h Unit) s₁
          (fun _ s' => Guards (fun id => (Call.autocommit fate w).Frees env id s) s.db s'.db)
          fun s' => Guards (fun id => (Call.autocommit fate w).Frees env id s) s.db s'.db := by
        apply ensures_commitDb
        · rw [hdb]
          exact w.run_guards s.db
        · rw [hdb]
          exact Guards.refl s.db
      exact hcommit
    · rintro s' ⟨-, hdb⟩
      rw [hdb]
      exact Guards.refl s.db
  | hold unlocked => exact Guards.refl s.db

/-- The step is a call that releases the blob. -/
def ReleaseStep (env : StoreEnv) (id : Text) (σ τ : System h) : Prop :=
  ∃ i hd c versions, σ.handles i = some hd ∧ Call.Frees env id c ⟨hd, σ.db⟩ ∧
    τ = ⟨(c.run env ⟨hd, σ.db⟩).db, Function.update (σ.seen versions) i (some (c.run env ⟨hd, σ.db⟩).handle)⟩

theorem StoreStep.guards {σ τ : System h} (hstep : StoreStep env σ τ) (hσ : σ.Sound) :
    Guards (fun id => ReleaseStep env id σ τ) σ.db τ.db := by
  cases hstep with
  | opened i hd hcold => exact Guards.refl σ.db
  | call i hd c versions hi hlater =>
    exact (c.run_guards (hσ i hd hi)).mono fun id hid => ⟨i, hd, c, versions, hi, hid, rfl⟩

/-! ## The records that fit -/

def totalSize (rows : List HistoryRow) : Nat := (rows.map HistoryRow.size).sum

/-- The first records that fit, after `total` bytes. -/
def inBudget (maxTotalBytes : Nat) : Nat → List HistoryRow → List HistoryRow
  | _, [] => []
  | total, r :: rows =>
    if maxTotalBytes < total + r.size then [] else r :: inBudget maxTotalBytes (total + r.size) rows

theorem inBudget_prefix_rows (limit : Nat) : ∀ (total : Nat) (rows : List HistoryRow), inBudget limit total rows <+: rows
  | _, [] => List.prefix_rfl
  | total, r :: rows => by
    unfold inBudget
    split_ifs
    · exact List.nil_prefix
    · exact List.cons_prefix_cons.2 ⟨rfl, inBudget_prefix_rows limit _ rows⟩

theorem totalSize_inBudget (limit : Nat) : ∀ (total : Nat) (rows : List HistoryRow), total ≤ limit →
    total + totalSize (inBudget limit total rows) ≤ limit
  | total, [], h => by simpa [inBudget, totalSize] using h
  | total, r :: rows, h => by
    unfold inBudget
    split_ifs with hr
    · simpa [totalSize] using h
    · have ih := totalSize_inBudget limit (total + r.size) rows (by omega)
      simp only [totalSize, List.map_cons, List.sum_cons] at ih ⊢
      omega

/-- No longer front fits. -/
theorem inBudget_longest (limit : Nat) : ∀ (total : Nat) (rows front : List HistoryRow), front <+: rows →
    total + totalSize front ≤ limit → front <+: inBudget limit total rows
  | total, rows, [], _, _ => List.nil_prefix
  | total, [], r :: front, hf, _ => absurd (List.prefix_nil.1 hf) (by simp)
  | total, r :: rows, s :: front, hf, hle => by
    obtain ⟨rfl, htail⟩ := List.cons_prefix_cons.1 hf
    simp only [totalSize, List.map_cons, List.sum_cons] at hle
    unfold inBudget
    rw [if_neg (by omega)]
    refine List.cons_prefix_cons.2 ⟨rfl, inBudget_longest limit _ rows front htail ?_⟩
    unfold totalSize
    omega

/-- The records that no longer fit. -/
def overBudget (maxTotalBytes total : Nat) (rows : List HistoryRow) : List HistoryRow :=
  rows.drop (inBudget maxTotalBytes total rows).length

theorem overBudget_of_lt {limit total : Nat} (h : limit < total) (rows : List HistoryRow) :
    overBudget limit total rows = rows := by
  cases rows with
  | nil => rfl
  | cons r rows =>
    unfold overBudget inBudget
    rw [if_pos (by omega)]
    rfl

omit [DecidableEq P] in
/-- The loop removes the records that no longer fit, and changes nothing else. -/
theorem foldl_pruneStep (limit : Nat) : ∀ (rows : List HistoryRow) (s : Pruning P),
    (rows.foldl (pruneStep limit) s).db =
        { s.db with history := s.db.history.keep fun r => (overBudget limit s.total rows).all fun q => q.id ≠ r.id } ∧
      (rows.foldl (pruneStep limit) s).removed = s.removed + (overBudget limit s.total rows).length
  | [], s => by simp [overBudget, Rows.keep]
  | q :: rows, s => by
    obtain ⟨hdb, hremoved⟩ := foldl_pruneStep limit rows (pruneStep limit s q)
    rw [List.foldl_cons, hdb, hremoved]
    by_cases hq : limit < s.total + q.size
    · have hstep : pruneStep limit s q = ⟨{ s.db with history := s.db.history.remove q.id }, s.total + q.size,
          s.removed + 1⟩ :=
        if_pos hq
      have hover : overBudget limit s.total (q :: rows) = q :: rows := by
        unfold overBudget inBudget
        rw [if_pos hq]
        rfl
      rw [hstep, hover]
      simp only
      rw [overBudget_of_lt hq]
      refine ⟨?_, ?_⟩
      · rw [Rows.remove, Rows.keep_keep]
        simp only [List.all_cons, ne_comm]
      · rw [List.length_cons]
        omega
    · have hstep : pruneStep limit s q = ⟨s.db, s.total + q.size, s.removed⟩ := if_neg hq
      have hover : overBudget limit s.total (q :: rows) = overBudget limit (s.total + q.size) rows := by
        unfold overBudget
        rw [inBudget, if_neg hq]
        rfl
      rw [hstep, hover]
      exact ⟨rfl, rfl⟩

theorem all_overBudget {rows : List HistoryRow} (hd : (rows.map HistoryRow.id).Nodup) (limit total : Nat) {r : HistoryRow}
    (hr : r ∈ rows) : (overBudget limit total rows).all (fun q => q.id ≠ r.id) = true ↔ r ∈ inBudget limit total rows := by
  have hsplit : inBudget limit total rows ++ overBudget limit total rows = rows := by
    have hfront := List.prefix_iff_eq_take.1 (inBudget_prefix_rows limit total rows)
    unfold overBudget
    conv_lhs => arg 1; rw [hfront]
    exact List.take_append_drop _ rows
  rw [← hsplit, List.map_append, List.nodup_append] at hd
  rw [List.all_eq_true]
  constructor
  · intro hall
    rw [← hsplit] at hr
    rcases List.mem_append.1 hr with hr | hr
    · exact hr
    · exact absurd rfl (of_decide_eq_true (hall r hr))
  · intro hin q hq
    exact decide_eq_true (hd.2.2 _ (List.mem_map_of_mem hin) _ (List.mem_map_of_mem hq)).symm

/-- The records that are not too old, newest first. -/
def recentRows (order : NewestFirst) (now : Int) (maxAgeDays : Nat) (db : Db P) : List HistoryRow :=
  order.rows (db.history.list.filter fun r => cutoff now maxAgeDays ≤ r.startedAt)

omit [DecidableEq P] in
theorem mem_recentRows {order : NewestFirst} {now : Int} {days : Nat} {r : HistoryRow} :
    r ∈ recentRows order now days db ↔ r ∈ db.history.list ∧ cutoff now days ≤ r.startedAt := by
  unfold recentRows
  rw [(order.perm _).mem_iff, List.mem_filter, decide_eq_true_iff]

omit [DecidableEq P] in
theorem recentRows_distinct (order : NewestFirst) (now : Int) (days : Nat) (db : Db P) :
    ((recentRows order now days db).map HistoryRow.id).Nodup :=
  ((order.perm _).map _).nodup_iff.2 (db.history.keep fun r => cutoff now days ≤ r.startedAt).distinct

/-- The records that retention keeps. -/
def retains (order : NewestFirst) (now : Int) (maxAgeDays maxTotalBytes : Nat) (db : Db P) (r : HistoryRow) : Bool :=
  cutoff now maxAgeDays ≤ r.startedAt &&
    (overBudget maxTotalBytes 0 (recentRows order now maxAgeDays db)).all fun q => q.id ≠ r.id

omit [DecidableEq P] in
/-- Retention is a prune of the records it does not keep. -/
theorem pruneHistory_eq (order : NewestFirst) (now : Int) (days limit : Nat) (db : Db P) :
    (pruneHistory order now days limit db).1 = prunedHistory (retains order now days limit db) db := by
  have hloop := (foldl_pruneStep limit (recentRows order now days db)
    ⟨{ db with history := db.history.keep fun r => cutoff now days ≤ r.startedAt }, 0,
      db.history.list.length - (db.history.keep fun r => cutoff now days ≤ r.startedAt).list.length⟩).1
  rw [Rows.keep_keep] at hloop
  exact congrArg collectBlobs hloop

omit [DecidableEq P] in
theorem mem_pruneHistory {order : NewestFirst} {now : Int} {days limit : Nat} {r : HistoryRow} :
    r ∈ (pruneHistory order now days limit db).1.history.list ↔ r ∈ inBudget limit 0 (recentRows order now days db) := by
  rw [pruneHistory_eq]
  unfold prunedHistory
  simp only [Rows.mem_keep]
  unfold retains
  rw [Bool.and_eq_true, decide_eq_true_iff, ← and_assoc, ← mem_recentRows]
  constructor
  · rintro ⟨hr, hall⟩
    exact (all_overBudget (recentRows_distinct order now days db) limit 0 hr).1 hall
  · intro hr
    have hrows : r ∈ recentRows order now days db := (inBudget_prefix_rows limit 0 _).subset hr
    exact ⟨hrows, (all_overBudget (recentRows_distinct order now days db) limit 0 hrows).2 hr⟩

omit [DecidableEq P] in
/-- Every blob that retention leaves is pinned, or the body of a record that it leaves. -/
theorem blob_pruneHistory {order : NewestFirst} {now : Int} {days limit : Nat} {b : BlobRow}
    (hb : b ∈ (pruneHistory order now days limit db).1.blobs.list) :
    Pinned (pruneHistory order now days limit db).1 b.id ∨
      ∃ r ∈ (pruneHistory order now days limit db).1.history.list, r.bodyBlob = some b.id := by
  rw [pruneHistory_eq] at hb ⊢
  unfold prunedHistory at hb ⊢
  simp only [Rows.mem_keep, Bool.or_eq_true] at hb
  rcases hb.2 with hused | hpin
  · exact .inr (usesBlob_iff.1 hused)
  · exact .inl hpin

/-- What `prune_history` leaves of a database: the longest front, newest first, of the records that are not too old whose
sizes fit, and no blob that nothing uses. -/
structure Retained (order : NewestFirst) (now : Int) (maxAgeDays maxTotalBytes : Nat) (db db' : Db P) : Prop where
  rows : ∀ r, r ∈ db'.history.list ↔ r ∈ inBudget maxTotalBytes 0 (recentRows order now maxAgeDays db)
  front : inBudget maxTotalBytes 0 (recentRows order now maxAgeDays db) <+: recentRows order now maxAgeDays db
  fits : totalSize (inBudget maxTotalBytes 0 (recentRows order now maxAgeDays db)) ≤ maxTotalBytes
  longest : ∀ front, front <+: recentRows order now maxAgeDays db → totalSize front ≤ maxTotalBytes →
    front <+: inBudget maxTotalBytes 0 (recentRows order now maxAgeDays db)
  blobs : ∀ b ∈ db'.blobs.list, Pinned db' b.id ∨ ∃ r ∈ db'.history.list, r.bodyBlob = some b.id

omit [DecidableEq P] in
theorem pruneHistory_retained (order : NewestFirst) (now : Int) (days limit : Nat) (db : Db P) :
    Retained order now days limit db (pruneHistory order now days limit db).1 where
  rows := fun _ => mem_pruneHistory
  front := inBudget_prefix_rows limit 0 _
  fits := by
    have h := totalSize_inBudget limit 0 (recentRows order now days db) (Nat.zero_le _)
    rwa [Nat.zero_add] at h
  longest := fun front hf hle => inBudget_longest limit 0 _ front hf (by rwa [Nat.zero_add])
  blobs := fun _ => blob_pruneHistory

/-- **Bodies are neither lost nor leaked.** In every state that handles reach by their calls, from any database whose
records have their bodies: every record has its body, a pinned blob stays stored and pinned over any next call that does
not release it, and retention, which is one of the calls, leaves exactly the newest records that fit and no blob without
a use. -/
theorem history_retained {db : Db P} {σ : System h} (hdb : BodiesStored db)
    (hr : Reaches (StoreStep env) (System.closed h db) σ) :
    BodiesStored σ.db ∧
      (∀ τ, StoreStep env σ τ → ∀ id, Held σ.db id → Held τ.db id ∨ ReleaseStep env id σ τ) ∧
      ∀ order now maxAgeDays maxTotalBytes,
        Retained order now maxAgeDays maxTotalBytes σ.db (pruneHistory order now maxAgeDays maxTotalBytes σ.db).1 ∧
          ∃ keeps, (pruneHistory order now maxAgeDays maxTotalBytes σ.db).1 =
            (Autocommit.pruneHistory keeps).run env σ.db := by
  have hinv : σ.Sound ∧ BodiesStored σ.db := by
    refine hr.inv (fun σ => σ.Sound ∧ BodiesStored σ.db) ?_ ⟨System.closed_sound db, hdb⟩
    rintro σ τ hstep ⟨hsound, hbodies⟩
    exact ⟨hstep.sound hsound, (hstep.guards hsound).bodies hbodies⟩
  refine ⟨hinv.2, ?_, ?_⟩
  · intro τ hstep id hheld
    by_cases hfree : ReleaseStep env id σ τ
    · exact .inr hfree
    · exact .inl ((hstep.guards hinv.1).held id hfree hheld)
  · intro order now days limit
    exact ⟨pruneHistory_retained order now days limit σ.db, _, pruneHistory_eq order now days limit σ.db⟩

/-- The query's order, where ties stay as they are stored. -/
def stableOrder : NewestFirst where
  rows l := l.mergeSort fun r s => s.startedAt ≤ r.startedAt
  perm l := List.mergeSort_perm l _
  sorted l := by
    have htrans : ∀ a b c :
        HistoryRow, decide (b.startedAt ≤ a.startedAt) = true → decide (c.startedAt ≤ b.startedAt) = true →
        decide (c.startedAt ≤ a.startedAt) = true := by
      intro a b c hab hbc
      exact decide_eq_true ((of_decide_eq_true hbc).trans (of_decide_eq_true hab))
    have htotal : ∀ a b : HistoryRow, (decide (b.startedAt ≤ a.startedAt) || decide (a.startedAt ≤ b.startedAt)) = true := by
      intro a b
      simpa using le_total b.startedAt a.startedAt
    exact (List.pairwise_mergeSort htrans htotal l).imp fun h => of_decide_eq_true h

/-- A handle that also recorded an exchange with a body, and pinned the body. -/
def recordedSession : Session sampleHashes :=
  Call.run sampleEnv (.autocommit sampleFate (.pinBlob ['x']))
    (Call.run sampleEnv (.transact sampleFate (.step
      (.addHistory 3 7 ['h'] none none 7 [1] (some [120])) fun _ => .done (.ok .unit)))
      sampleSession)

theorem history_retained_recorded :
    BodiesStored sampleDb ∧ BodiesStored (System.alone recordedSession).db ∧
      Retained stableOrder 8 30 1000 (System.alone recordedSession).db
        (pruneHistory stableOrder 8 30 1000 (System.alone recordedSession).db).1 := by
  have hbodies : BodiesStored sampleDb := fun r hr => absurd hr (by simp [sampleDb, Rows.empty])
  have hreached : Reaches (StoreStep sampleEnv) (System.closed sampleHashes sampleDb) (System.alone recordedSession) :=
    (sampleSession_reached.tail (alone_call _ _)).tail (alone_call _ _)
  have hall := history_retained hbodies hreached
  exact ⟨hbodies, hall.1, (hall.2.2 stableOrder 8 30 1000).1⟩

end Anvil.Store
