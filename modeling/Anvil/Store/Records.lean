import Anvil.Storage.Vault
import Anvil.Store.Catalogue

/-!
# Records of one transaction (`anvil-storage/src/store.rs`)

The tables of the database and the operations on them. Sealing under the held key and the decoding of the payloads are
a parameter (`StoreEnv`); what a statement stores under the time and the random draw it is given is part of the
operation. An operation that fails keeps what it wrote before (`Tx` is its state).

* `Db` : the tables; `capture` : the entries of the protected rows as they are stored;
* `objectRow`, `openObject`, `get`, `list` : reads, checked against the transaction's view of the catalogue;
* `put`, `delete`, `putSecret`, `deleteSecret`, `deleteWorkspace` : the writes of protected rows, which `remember` or
  `forget` their entries;
* `addHistory`, `putBlob`, `pinBlob`, `releaseBlob`, `putNote` : the other writes.
-/

namespace Anvil.Store
open Anvil.Lib Anvil.Storage

/-! ## Tables -/

structure ObjectRow where
  kind : Text
  id : Text
  owner : Option Text
  parent : Option Text
  sortKey : UInt64
  updatedAt : Int
  payload : Bytes
deriving DecidableEq

def ObjectRow.key (r : ObjectRow) : Text × Text := (r.kind, r.id)

structure SecretRow where
  id : Text
  owner : Option Text
  updatedAt : Int
  payload : Bytes
deriving DecidableEq

/-- A row of the catalogue table; `none` for a text that is no entry. -/
structure CatalogueRow (P : Type) where
  name : Name
  entry : Option (Entry P)
deriving DecidableEq

structure HistoryRow where
  id : Text
  workspaceId : Option Text
  requestId : Option Text
  startedAt : Int
  size : Nat
  bodyBlob : Option Text
  payload : Bytes
deriving DecidableEq

structure BlobRow where
  id : Text
  size : Nat
  createdAt : Int
  payload : Bytes
deriving DecidableEq

structure ReportRow where
  id : Text
  workspaceId : Option Text
  startedAt : Int
  payload : Bytes
deriving DecidableEq

/-- `rotation::State`: the header and the identity binding, as its text. -/
structure KeyState where
  header : ProfileHeader
  binding : Option String
deriving DecidableEq

/-- The forms of the key canary; `other` does not decode. -/
inductive Canary
  | manifest (env : Bytes)
  | rotated (env : Bytes)
  | plain (env : Bytes)
  | other
deriving DecidableEq

/-- A value of the `meta` table. -/
inductive MetaValue
  | text (t : Text)
  | state (s : KeyState)
  | canary (c : Canary)
deriving DecidableEq

structure MetaRow where
  key : Text
  value : MetaValue
deriving DecidableEq

structure Db (P : Type) where
  objects : Rows ObjectRow.key
  secrets : Rows SecretRow.id
  catalogue : Option (Rows (@CatalogueRow.name P))
  metas : Rows MetaRow.key
  blobs : Rows BlobRow.id
  history : Rows HistoryRow.id
  loadReports : Rows ReportRow.id

variable {P B : Type}

def ObjectRow.entry (h : Hashes P B) (r : ObjectRow) : Entry P :=
  (h.entry ⟨objectsTable, r.kind, r.id⟩ r.owner r.parent r.payload).ordered r.sortKey r.updatedAt

def SecretRow.entry (h : Hashes P B) (r : SecretRow) : Entry P :=
  (h.entry ⟨secretsTable, [], r.id⟩ r.owner none r.payload).ordered 0 r.updatedAt

theorem capture_distinct (h : Hashes P B) (db : Db P) :
    ((db.objects.list.map (ObjectRow.entry h) ++ db.secrets.list.map (SecretRow.entry h)).map Entry.name).Nodup := by
  have hobject : ∀ k k' : Text × Text, (⟨objectsTable, k.1, k.2⟩ : Name) = ⟨objectsTable, k'.1, k'.2⟩ → k = k' := by
    intro k k' hk
    simp only [Name.mk.injEq, true_and] at hk
    exact Prod.ext hk.1 hk.2
  have hsecret : ∀ i i' : Text, (⟨secretsTable, [], i⟩ : Name) = ⟨secretsTable, [], i'⟩ → i = i' := by
    intro i i' hi
    simpa using hi
  rw [List.map_append, List.map_map, List.map_map, List.nodup_append]
  refine ⟨?_, ?_, ?_⟩
  · have hmap : db.objects.list.map (Entry.name ∘ ObjectRow.entry h) =
        (db.objects.list.map ObjectRow.key).map fun k => (⟨objectsTable, k.1, k.2⟩ : Name) := by
      rw [List.map_map]
      rfl
    rw [hmap]
    exact db.objects.distinct.map hobject
  · have hmap : db.secrets.list.map (Entry.name ∘ SecretRow.entry h) =
        (db.secrets.list.map SecretRow.id).map fun i => (⟨secretsTable, [], i⟩ : Name) := by
      rw [List.map_map]
      rfl
    rw [hmap]
    exact db.secrets.distinct.map hsecret
  · intro a ha b hb he
    obtain ⟨o, -, rfl⟩ := List.mem_map.1 ha
    obtain ⟨s, -, rfl⟩ := List.mem_map.1 hb
    have htable : objectsTable = secretsTable := congrArg Name.table he
    exact absurd htable (by decide)

/-- Every protected row as it is stored (`Catalogue::capture`). -/
def capture (h : Hashes P B) (db : Db P) : Entries P where
  list := db.objects.list.map (ObjectRow.entry h) ++ db.secrets.list.map (SecretRow.entry h)
  distinct := capture_distinct h db

variable [DecidableEq P] {h : Hashes P B}

/-! ## Sealing and decoding -/

/-- The identity that an object's payload seals. -/
structure Identity where
  id : Option Text
  owner : Option Text
  parent : Option Text
deriving DecidableEq

/-- What the held key seals and opens, and what the payloads decode to. -/
structure StoreEnv where
  /-- The envelope under a draw, for associated data and a plaintext. -/
  sealBytes : Nat → Text → Bytes → Bytes
  openBytes : Text → Bytes → Option Bytes
  /-- The primitives of the profile header, and the held key. -/
  crypto : Crypto
  key : Key
  blobId : Bytes → Text
  /-- `object_identity` of a kind. -/
  identity : Text → Bytes → Option Identity
  /-- The released revision with the workspace and request that own it (`SealedRevision`). -/
  wrapRevision : Text → Text → Bytes → Bytes
  unwrapRevision : Bytes → Option (Text × Text × Bytes)
  /-- The workspace and request that a history record seals. -/
  historyOwner : Bytes → Option (Option Text × Option Text)
  /-- A secret's payload from its label and value. -/
  secretJson : Text → Text → Bytes
  secretFields : Bytes → Option (Text × Text)
  /-- The canonical text of an id that parses. -/
  canonicalId : Text → Option Text
  /-- What a `REAL NOT NULL` column keeps of a number; a NaN is refused. -/
  realColumn : UInt64 → Option UInt64
  /-- The numeric order of sort keys. -/
  realLe : UInt64 → UInt64 → Bool

def workspaceKind : Text := "workspace".toList

def requestKind : Text := "request".toList

def revisionKind : Text := "revision".toList

def aad (table kind id : Text) : Text := "anvil/v1/".toList ++ table ++ '/' :: kind ++ '/' :: id

/-- A text after its length in bytes. -/
def sized (t : Text) : Text := (Nat.repr (utf8Len t)).toList ++ ':' :: t

def secretAad (id : Text) (owner : Option Text) : Text :=
  match owner with
  | some ws => "anvil/v2/secrets/secret/".toList ++ sized id ++ "/workspace/".toList ++ sized ws
  | none => "anvil/v2/secrets/secret/".toList ++ sized id ++ "/profile".toList

def revisionAad (id : Text) : Text := "anvil/v3/objects/revision/".toList ++ sized id

def historyAad (id : Text) (body : Option Text) : Text :=
  match body with
  | some b => "anvil/v3/history/record/".toList ++ sized id ++ "/body/".toList ++ sized b
  | none => "anvil/v3/history/record/".toList ++ sized id ++ "/no-body".toList

/-- The value, or `Integrity`. -/
def orIntegrity {α : Type} (a : Option α) : Except StoreError α := a.elim (.error .integrity) .ok

def validateObject (env : StoreEnv) (kind id : Text) (owner parent : Option Text) (json : Bytes) : Except StoreError Unit :=
  do
  let identity ← orIntegrity (env.identity kind json)
  refuseIf ((∃ sealed ∈ identity.id, sealed ≠ id) ∨ identity.parent ≠ parent ∨
    (kind ≠ revisionKind ∧ identity.owner ≠ owner) ∨
    (kind = revisionKind ∧ owner = none)) .integrity

/-! ## Reads -/

/-- The state of an open transaction; `locks` has, for each use of the key to come, whether the store is locked by then. -/
structure Tx (h : Hashes P B) where
  db : Db P
  manifest : Option (Manifest h)
  locks : List Bool

def ordering (db : Db P) (name : Name) : Option (UInt64 × Int) :=
  if name.table = objectsTable then (db.objects.get? (name.kind, name.id)).map fun r => (r.sortKey, r.updatedAt)
  else (db.secrets.get? name.id).map fun r => (0, r.updatedAt)

def checkManifest (tx : Tx h) (name : Name) (row : Option (Option Text × Option Text × Bytes)) : Except StoreError Unit :=
  tx.manifest.elim (.ok ()) fun m => m.check name row (ordering tx.db name)

def checkMetadata (tx : Tx h) (name : Name) (row : Option (Option Text × Option Text)) : Except StoreError Unit :=
  tx.manifest.elim (.ok ()) fun m => m.checkMetadata name row (ordering tx.db name)

def checkIndex (tx : Tx h) (table : Text) (kind owner : Option Text) (rows : List Manifest.IndexRow) :
    Except StoreError Unit :=
  tx.manifest.elim (.ok ()) fun m => m.checkIndex table kind owner rows

def objectName (kind id : Text) : Name := ⟨objectsTable, kind, id⟩

def secretName (id : Text) : Name := ⟨secretsTable, [], id⟩

def objectRow (tx : Tx h) (kind id : Text) : Except StoreError (Option ObjectRow) := do
  let row := tx.db.objects.get? (kind, id)
  checkMetadata tx (objectName kind id) (row.map fun r => (r.owner, r.parent))
  pure row

/-- `open_object` of a kind other than a revision. -/
def openPlain (env : StoreEnv) (tx : Tx h) (row : ObjectRow) : Except StoreError Bytes := do
  checkManifest tx (objectName row.kind row.id) (some (row.owner, row.parent, row.payload))
  let pt ← orIntegrity (env.openBytes (aad objectsTable row.kind row.id) row.payload)
  validateObject env row.kind row.id row.owner row.parent pt
  pure pt

/-- The plaintext of each row that is there. -/
def openRow (opens : ObjectRow → Except StoreError Bytes) (row : Option ObjectRow) : Except StoreError (Option Bytes) :=
  row.elim (.ok none) fun r => (opens r).map some

def getPlain (env : StoreEnv) (tx : Tx h) (kind id : Text) : Except StoreError (Option Bytes) := do
  let row ← objectRow tx kind id
  openRow (openPlain env tx) row

/-- The workspace that a stored request seals. -/
def requestWorkspace (env : StoreEnv) (tx : Tx h) (id : Text) : Except StoreError (Option Text) := do
  let request ← getPlain env tx requestKind id
  let json ← orIntegrity request
  let identity ← orIntegrity (env.identity requestKind json)
  pure identity.owner

def validateRevisionOwner (env : StoreEnv) (tx : Tx h) (owner parent : Option Text) : Except StoreError Unit := do
  let request ← orIntegrity (parent.bind env.canonicalId)
  let workspace ← requestWorkspace env tx request
  refuseIf (workspace ≠ owner) .integrity

/-- `open_revision`: the sealed workspace, the sealed request and the revision. -/
def openRevision (env : StoreEnv) (id : Text) (payload : Bytes) : Except StoreError (Text × Text × Bytes) := do
  let pt ← orIntegrity (env.openBytes (revisionAad id) payload)
  orIntegrity (env.unwrapRevision pt)

/-- The branch of `open_object` for a revision. -/
def openRevisionRow (env : StoreEnv) (tx : Tx h) (row : ObjectRow) : Except StoreError Bytes := do
  checkManifest tx (objectName row.kind row.id) (some (row.owner, row.parent, row.payload))
  let sealed ← openRevision env row.id row.payload
  refuseIf (row.owner ≠ some sealed.1 ∨ row.parent ≠ some sealed.2.1) .integrity
  validateObject env row.kind row.id row.owner row.parent sealed.2.2
  validateRevisionOwner env tx row.owner row.parent
  pure sealed.2.2

def openObject (env : StoreEnv) (tx : Tx h) (row : ObjectRow) : Except StoreError Bytes :=
  if row.kind = revisionKind then openRevisionRow env tx row else openPlain env tx row

/-- `Records::get`: the plaintext, which the caller decodes. -/
def get (env : StoreEnv) (tx : Tx h) (kind id : Text) : Except StoreError (Option Bytes) := do
  let row ← objectRow tx kind id
  openRow (openObject env tx) row

/-- `ORDER BY sort_key, updated_at`. -/
def sortRows (env : StoreEnv) (rows : List ObjectRow) : List ObjectRow :=
  rows.mergeSort fun r s => if env.realLe r.sortKey s.sortKey && env.realLe s.sortKey r.sortKey then r.updatedAt ≤ s.updatedAt
    else env.realLe r.sortKey s.sortKey

/-- The rows of a kind, and of a workspace where one is given, in order. -/
def rowsOf (env : StoreEnv) (db : Db P) (kind : Text) (ws : Option Text) : List ObjectRow :=
  sortRows env (db.objects.list.filter fun r => r.kind = kind && ws.all fun w => r.owner = some w)

def objectIndex (rows : List ObjectRow) : List Manifest.IndexRow :=
  rows.map fun r => (objectName r.kind r.id, r.owner, r.parent)

def list (env : StoreEnv) (tx : Tx h) (kind : Text) (ws : Option Text) : Except StoreError (List Bytes) := do
  checkIndex tx objectsTable (some kind) ws (objectIndex (rowsOf env tx.db kind ws))
  (rowsOf env tx.db kind ws).mapM (openObject env tx)

/-- `RowMeta`. -/
structure RowMeta where
  kind : Text
  id : Text
  workspaceId : Option Text
  parentId : Option Text
  sortKey : UInt64
  updatedAt : Int
deriving DecidableEq

def ObjectRow.rowMeta (r : ObjectRow) : RowMeta := ⟨r.kind, r.id, r.owner, r.parent, r.sortKey, r.updatedAt⟩

def objectMeta (tx : Tx h) (kind : Text) : Except StoreError (List RowMeta) := do
  let rows := tx.db.objects.list.filter fun r => r.kind = kind
  checkIndex tx objectsTable (some kind) none (objectIndex rows)
  rows.forM fun r => checkMetadata tx (objectName kind r.id) (some (r.owner, r.parent))
  pure (rows.map ObjectRow.rowMeta)

def secretOwners (tx : Tx h) : Except StoreError (List (Text × Option Text)) := do
  checkIndex tx secretsTable none none (tx.db.secrets.list.map fun r => (secretName r.id, r.owner, none))
  pure (tx.db.secrets.list.map fun r => (r.id, r.owner))

def openSecret (env : StoreEnv) (row : SecretRow) : Except StoreError (Text × Text) := do
  let pt ← orIntegrity (env.openBytes (secretAad row.id row.owner) row.payload)
  orIntegrity (env.secretFields pt)

/-- The stored secret, checked against the catalogue. -/
def secretRow (tx : Tx h) (id : Text) : Except StoreError (Option SecretRow) := do
  let row := tx.db.secrets.get? id
  checkManifest tx (secretName id) (row.map fun r => (r.owner, none, r.payload))
  pure row

def getSecret (env : StoreEnv) (tx : Tx h) (id : Text) : Except StoreError (Option (Text × Text)) := do
  let row ← secretRow tx id
  row.elim (.ok none) fun r => (openSecret env r).map some

def getWorkspaceSecret (env : StoreEnv) (tx : Tx h) (id ws : Text) : Except StoreError (Option (Text × Text)) := do
  let row ← secretRow tx id
  row.elim (.ok none) fun r => if r.owner = some ws then (openSecret env r).map some else .ok none

def getBlob (env : StoreEnv) (db : Db P) (id : Text) : Except StoreError (Option Bytes) :=
  (db.blobs.get? id).elim (.ok none) fun r =>
    (orIntegrity (env.openBytes (aad "blobs".toList "blob".toList id) r.payload)).map some

def checkHistoryOwner (env : StoreEnv) (json : Bytes) (ws request : Option Text) : Except StoreError Unit := do
  let sealed ← orIntegrity (env.historyOwner json)
  refuseIf (sealed ≠ (ws, request)) .integrity

def openHistory (env : StoreEnv) (row : HistoryRow) : Except StoreError Bytes := do
  let pt ← orIntegrity (env.openBytes (historyAad row.id row.bodyBlob) row.payload)
  checkHistoryOwner env pt row.workspaceId row.requestId
  pure pt

def noteKey (name : Text) : Text := "note:".toList ++ name

def note (db : Db P) (name : Text) : Option MetaValue := (db.metas.get? (noteKey name)).map MetaRow.value

/-! ## Writes -/

abbrev TxM (h : Hashes P B) (α : Type) := EStateM StoreError (Tx h) α

/-- `self.store.key()?`: a store that is locked stays so for the rest of the transaction. -/
def holdKey : TxM h Unit := fun tx =>
  match tx.locks with
  | true :: _ => .error .locked tx
  | _ :: locks => .ok () { tx with locks := locks }
  | [] => .ok () tx

/-- A read of the transaction's state. -/
def read {α : Type} (f : Tx h → Except StoreError α) : TxM h α := fun tx => check (f tx) tx

def modifyDb (f : Db P → Db P) : TxM h Unit := modify fun tx => { tx with db := f tx.db }

def modifyManifest (f : Manifest h → Manifest h) : TxM h Unit := modify fun tx => { tx with manifest := tx.manifest.map f }

/-- Enter the entry of a row, with the ordering that the row has. -/
def remember (e : Entry P) : TxM h Unit := do
  let o ← read fun tx => orIntegrity (ordering tx.db e.name)
  modifyManifest fun m => m.insert (e.ordered o.1 o.2)

def forget (name : Name) : TxM h Unit := modifyManifest fun m => m.remove name

/-- The stored row that a `put` replaces: it opens, and its owner (and a revision's request) stays. -/
def checkReplaced (env : StoreEnv) (tx : Tx h) (kind : Text) (owner parent : Option Text) (existing : ObjectRow) :
    Except StoreError Unit := do
  let _ ← openObject env tx existing
  refuseIf (existing.owner ≠ owner ∨ (kind = revisionKind ∧ existing.parent ≠ parent)) .ownership

def checkWorkspace (env : StoreEnv) (tx : Tx h) (ws : Text) : Except StoreError Unit := do
  let workspace ← get env tx workspaceKind ws
  refuseIf (workspace = none) (.notFound "workspace")

/-- The envelope of a revision. -/
def sealRevision (env : StoreEnv) (tx : Tx h) (draw : Nat) (id : Text) (owner parent : Option Text) (json : Bytes) :
    Except StoreError Bytes := do
  validateRevisionOwner env tx owner parent
  let ws ← orIntegrity owner
  let request ← orIntegrity parent
  pure (env.sealBytes draw (revisionAad id) (env.wrapRevision ws request json))

/-- Everything `put` does before it writes. -/
def sealedObject (env : StoreEnv) (draw : Nat) (kind id : Text) (owner parent : Option Text) (json : Bytes) (tx : Tx h) :
    Except StoreError Bytes := do
  validateObject env kind id owner parent json
  let existing ← objectRow tx kind id
  existing.elim (.ok ()) (checkReplaced env tx kind owner parent)
  owner.elim (.ok ()) (checkWorkspace env tx)
  if kind = revisionKind then sealRevision env tx draw id owner parent json
  else pure (env.sealBytes draw (aad objectsTable kind id) json)

def put (env : StoreEnv) (draw : Nat) (now : Int) (kind id : Text) (owner parent : Option Text) (sortKey : UInt64)
    (json : Bytes) : TxM h Unit := do
  holdKey
  let payload ← read (sealedObject env draw kind id owner parent json)
  let stored ← read fun _ => (env.realColumn sortKey).elim (.error .database) .ok
  modifyDb fun db => { db with objects := db.objects.put ⟨kind, id, owner, parent, stored, now, payload⟩ }
  remember (h.entry (objectName kind id) owner parent payload)

/-- Whether a row was there. -/
def delete (kind id : Text) : TxM h Bool := do
  holdKey
  let row ← read fun tx => objectRow tx kind id
  modifyDb fun db => { db with objects := db.objects.remove (kind, id) }
  forget (objectName kind id)
  pure row.isSome

def putSecret (env : StoreEnv) (draw : Nat) (now : Int) (id : Text) (owner : Option Text) (label value : Text) : TxM h Unit :=
  do
  holdKey
  let payload := env.sealBytes draw (secretAad id owner) (env.secretJson label value)
  modifyDb fun db => { db with secrets := db.secrets.put ⟨id, owner, now, payload⟩ }
  remember (h.entry (secretName id) owner none payload)

def deleteSecret (id : Text) : TxM h Unit := do
  holdKey
  read fun tx => checkMetadata tx (secretName id) ((tx.db.secrets.get? id).map fun r => (r.owner, none))
  modifyDb fun db => { db with secrets := db.secrets.remove id }
  forget (secretName id)

/-- The id of a revision that ordinary reads accept; an orphan or a damaged one is kept. -/
def readableRevision (env : StoreEnv) (id : Text) (tx : Tx h) : Except StoreError (Option Text) :=
  match get env tx revisionKind id with
  | .ok (some _) => .ok (some id)
  | .ok none => .ok none
  | .error .integrity => .ok none
  | .error e => .error e

/-- The readable revisions of a workspace among the rows. -/
def revisionsOf (env : StoreEnv) (ws : Text) : List RowMeta → TxM h (List Text)
  | [] => pure []
  | row :: rows =>
    match if row.workspaceId = some ws then env.canonicalId row.id else none with
    | none => revisionsOf env ws rows
    | some id => do
      holdKey
      let found ← read (readableRevision env id)
      let rest ← revisionsOf env ws rows
      pure (found.toList ++ rest)

def deleteRevisions : List Text → TxM h Unit
  | [] => pure ()
  | id :: ids => do
    let _ ← delete revisionKind id
    deleteRevisions ids

/-- The index of every protected row, before a workspace's rows are removed without reading them. -/
def checkWhole : TxM h Unit := do
  holdKey
  read fun tx => checkIndex tx objectsTable none none (objectIndex tx.db.objects.list)
  holdKey
  let _ ← read secretOwners

/-- Only an enrolled profile has a catalogue to check. -/
def checkEnrolled : TxM h Unit := do
  let enrolled ← read fun tx => .ok tx.manifest.isSome
  if enrolled then checkWhole else pure ()

/-- The rows of a workspace, but for its revisions. -/
def Db.withoutWorkspace (db : Db P) (ws : Text) : Db P :=
  { db with
    objects := (db.objects.keep fun r => !(r.owner = some ws && r.kind ≠ revisionKind)).keep fun r =>
      !(r.kind = workspaceKind && r.id = ws)
    secrets := db.secrets.keep fun r => r.owner ≠ some ws
    history := db.history.keep fun r => r.workspaceId ≠ some ws
    loadReports := db.loadReports.keep fun r => r.workspaceId ≠ some ws }

def deleteWorkspace (env : StoreEnv) (ws : Text) : TxM h Unit := do
  holdKey
  holdKey
  let rows ← read fun tx => objectMeta tx revisionKind
  let ids ← revisionsOf env ws rows
  deleteRevisions ids
  checkEnrolled
  modifyDb fun db => db.withoutWorkspace ws
  modifyManifest fun m => m.removeWorkspace ws

def putBlobRow (env : StoreEnv) (draw : Nat) (now : Int) (bytes : Bytes) (db : Db P) : Db P :=
  if (db.blobs.get? (env.blobId bytes)).isSome then db
  else { db with
    blobs := db.blobs.put ⟨env.blobId bytes, bytes.length, now,
      env.sealBytes draw (aad "blobs".toList "blob".toList (env.blobId bytes)) bytes⟩ }

def putBlob (env : StoreEnv) (draw : Nat) (now : Int) (bytes : Bytes) : TxM h Text := do
  holdKey
  modifyDb (putBlobRow env draw now bytes)
  pure (env.blobId bytes)

def pinKey (id : Text) : Text := "pin:".toList ++ id

/-- `ON CONFLICT(key) DO NOTHING`. -/
def pinRow (id : Text) (db : Db P) : Db P :=
  if (db.metas.get? (pinKey id)).isSome then db else { db with metas := db.metas.put ⟨pinKey id, .text id⟩ }

def pinBlob (id : Text) : TxM h Unit := do
  holdKey
  modifyDb (pinRow id)

def usesBlob (db : Db P) (id : Text) : Bool := db.history.list.any fun r => r.bodyBlob = some id

def releaseRow (id : Text) (db : Db P) : Db P :=
  { db with
    metas := db.metas.remove (pinKey id)
    blobs := if usesBlob db id then db.blobs else db.blobs.remove id }

def releaseBlob (id : Text) : TxM h Unit := do
  holdKey
  modifyDb (releaseRow id)

def putNote (name value : Text) : TxM h Unit := do
  holdKey
  modifyDb fun db => { db with metas := db.metas.put ⟨noteKey name, .text value⟩ }

/-- The body of the record that an `add_history` replaces. -/
def replacedBody (env : StoreEnv) (id : Text) (ws request : Option Text) (tx : Tx h) :
    Except StoreError (Option Text) :=
  (tx.db.history.get? id).elim (.ok none) fun old => do
    let _ ← openHistory env old
    refuseIf (old.workspaceId ≠ ws ∨ old.requestId ≠ request) .ownership
    pure old.bodyBlob

/-- The old body goes, unless a record or a pin still uses it. -/
def dropReplaced (replaced : Option Text) (db : Db P) : Db P :=
  replaced.elim db fun old =>
    if usesBlob db old || (db.metas.get? (pinKey old)).isSome then db else { db with blobs := db.blobs.remove old }

/-- The history row of a record, after its body is stored. -/
def addHistoryRows (env : StoreEnv) (draw : Nat) (now : Int) (id : Text) (ws request : Option Text) (startedAt : Int)
    (json : Bytes) (body : Option Bytes) (replaced : Option Text) (db : Db P) : Db P :=
  let kept := body.filter fun b => !b.isEmpty
  let db := kept.elim db fun b => putBlobRow env draw now b db
  let blob := kept.map env.blobId
  let payload := env.sealBytes (draw + 1) (historyAad id blob) json
  let row : HistoryRow := ⟨id, ws, request, startedAt, payload.length + (body.map List.length).getD 0, blob, payload⟩
  dropReplaced replaced { db with history := db.history.put row }

def addHistory (env : StoreEnv) (draw : Nat) (now : Int) (id : Text) (ws request : Option Text) (startedAt : Int)
    (json : Bytes) (body : Option Bytes) : TxM h Unit := do
  holdKey
  read fun _ => checkHistoryOwner env json ws request
  let replaced ← read (replacedBody env id ws request)
  modifyDb (addHistoryRows env draw now id ws request startedAt json body replaced)

/-! ## Programs of a transaction -/

/-- An operation of `StoreTx`, with the time and the draw it is run at. -/
inductive Op
  | put (draw : Nat) (now : Int) (kind id : Text) (owner parent : Option Text) (sortKey : UInt64) (json : Bytes)
  | get (kind id : Text)
  | list (kind : Text) (ws : Option Text)
  | objectMeta (kind : Text)
  | delete (kind id : Text)
  | deleteWorkspace (ws : Text)
  | putSecret (draw : Nat) (now : Int) (id : Text) (owner : Option Text) (label value : Text)
  | getSecret (id : Text)
  | getWorkspaceSecret (id ws : Text)
  | secretOwners
  | deleteSecret (id : Text)
  | addHistory (draw : Nat) (now : Int) (id : Text) (ws request : Option Text) (startedAt : Int) (json : Bytes)
      (body : Option Bytes)
  | getHistory (id : Text)
  | putBlob (draw : Nat) (now : Int) (bytes : Bytes)
  | pinBlob (id : Text)
  | releaseBlob (id : Text)
  | getBlob (id : Text)
  | putNote (name value : Text)
  | note (name : Text)

/-- What an operation returns. -/
inductive Answer
  | unit
  | bool (b : Bool)
  | text (t : Text)
  | bytes (b : Option Bytes)
  | objects (l : List Bytes)
  | metas (l : List RowMeta)
  | secret (s : Option (Text × Text))
  | owners (l : List (Text × Option Text))
  | note (v : Option MetaValue)
deriving DecidableEq

/-- A read under the key. -/
def reading {α : Type} (f : Tx h → Except StoreError α) : TxM h α := do
  holdKey
  read f

/-- A stored history record's plaintext. -/
def getHistory (env : StoreEnv) (id : Text) (tx : Tx h) : Except StoreError (Option Bytes) :=
  (tx.db.history.get? id).elim (.ok none) fun row => (openHistory env row).map some

def runOp (env : StoreEnv) : Op → TxM h Answer
  | .put draw now kind id owner parent sortKey json =>
    (fun _ => .unit) <$> put env draw now kind id owner parent sortKey json
  | .get kind id => .bytes <$> reading fun tx => get env tx kind id
  | .list kind ws => .objects <$> reading fun tx => list env tx kind ws
  | .objectMeta kind => .metas <$> reading fun tx => objectMeta tx kind
  | .delete kind id => .bool <$> delete kind id
  | .deleteWorkspace ws => (fun _ => .unit) <$> deleteWorkspace env ws
  | .putSecret draw now id owner label value => (fun _ => .unit) <$> putSecret env draw now id owner label value
  | .getSecret id => .secret <$> reading fun tx => getSecret env tx id
  | .getWorkspaceSecret id ws => .secret <$> reading fun tx => getWorkspaceSecret env tx id ws
  | .secretOwners => .owners <$> reading secretOwners
  | .deleteSecret id => (fun _ => .unit) <$> deleteSecret id
  | .addHistory draw now id ws request startedAt json body =>
    (fun _ => .unit) <$> addHistory env draw now id ws request startedAt json body
  | .getHistory id => .bytes <$> reading (getHistory env id)
  | .putBlob draw now bytes => .text <$> putBlob env draw now bytes
  | .pinBlob id => (fun _ => .unit) <$> pinBlob id
  | .releaseBlob id => (fun _ => .unit) <$> releaseBlob id
  | .getBlob id => .bytes <$> reading fun tx => getBlob env tx.db id
  | .putNote name value => (fun _ => .unit) <$> putNote name value
  | .note name => .note <$> reading fun tx => .ok (note tx.db name)

/-- A closure given to `atomically`: it goes on with what an operation returned, also after a failure. -/
inductive Prog
  | done (r : Except StoreError Answer)
  | step (op : Op) (next : Except StoreError Answer → Prog)

/-- The answer of an action, and the state it left. -/
def attempted {α : Type} (m : TxM h α) (tx : Tx h) : Except StoreError α × Tx h :=
  match m tx with
  | .ok a tx' => (.ok a, tx')
  | .error e tx' => (.error e, tx')

def runProg (env : StoreEnv) : Prog → Tx h → Except StoreError Answer × Tx h
  | .done r, tx => (r, tx)
  | .step op next, tx => runProg env (next (attempted (runOp env op) tx).1) (attempted (runOp env op) tx).2

end Anvil.Store
