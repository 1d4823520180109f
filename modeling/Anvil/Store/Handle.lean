import Anvil.Lib.Wire
import Anvil.Store.Records

/-!
# Store handles and their transactions (`anvil-storage/src/store.rs`, `manifest.rs`, `rotation.rs`)

A handle is one `Store` on the profile's database: it holds the key, and keeps the catalogue it verified last under the
root and the `data_version` of its connection. A transaction runs a closure on the catalogue it authenticates, and
publishes the entries that the closure changed.

* `authenticatedRoot`, `loadCatalogue` : the root of the header and the canary, and the stored rows that reproduce it;
* `verifiedCatalogue`, `verifyRows` : with the handle's cache;
* `publish` : the changed entries, the root and the canary;
* `transaction`, `protectedAuthority`, `autocommit` : the calls on a handle;
* `System`, `StoreStep`, `Step` : several handles on one database, and writers without one.
-/

namespace Anvil.Store
open Anvil.Lib Anvil.Storage

variable {P B : Type} [DecidableEq P] {h : Hashes P B}

/-! ## Authority -/

def stateKey : Text := "local_key_state_v1".toList

def canaryKey : Text := "key_canary".toList

def schemaKey : Text := "schema_version".toList

def legacyMeta : Text := "protected_records_v1".toList

def canaryAad : Text := "anvil/v3/manifest-canary".toList

def metaText : MetaValue → Option Text
  | .text t => some t
  | _ => none

def storedSchemaVersion (db : Db P) : Int := (((db.metas.get? schemaKey).bind fun r => metaText r.value).bind parseI64).getD 0

def canaryOf : MetaValue → Canary
  | .canary c => c
  | _ => .other

def keyCanary (db : Db P) : Option Canary := (db.metas.get? canaryKey).map fun r => canaryOf r.value

/-- Whether a canary names a canonical key state. -/
def Canary.needsState : Canary → Bool
  | .manifest _ => true
  | .rotated _ => true
  | _ => false

/-- `rotation::read_checked`. -/
def readChecked (db : Db P) : Except StoreError (Option KeyState) :=
  match (db.metas.get? stateKey).map MetaRow.value with
  | some (.state s) => if s.header.rotation.isNone then .error .integrity else .ok (some s)
  | some _ => .error .integrity
  | none => if (keyCanary db).any Canary.needsState then .error .integrity else .ok none

def KeyState.manifestRoot (s : KeyState) : Option String := s.header.rotation.bind RotationPolicy.manifestRoot

/-- A vault error is `Integrity` here. -/
def fromVault {α : Type} (x : Except VaultError α) : Except StoreError α := x.mapError fun _ => .integrity

def Canary.manifestEnv : Canary → Option Bytes
  | .manifest env => some env
  | _ => none

def rootBytes (root : String) : Bytes := encodeUtf8 root.toList

/-- The checks of a root that the header names. -/
def checkRoot (env : StoreEnv) (db : Db P) (s : KeyState) (root : String) : Except StoreError (Option String) := do
  refuseIf (storedSchemaVersion db < 5) .integrity
  fromVault (checkCurrent env.crypto s.header s.header env.key)
  let sealed ← orIntegrity ((keyCanary db).bind Canary.manifestEnv)
  let pt ← orIntegrity (env.openBytes canaryAad sealed)
  refuseIf (pt ≠ rootBytes root) .integrity
  pure (some root)

/-- A database without a root must have nothing of a catalogue. -/
def checkUnenrolled (db : Db P) (state : Option KeyState) : Except StoreError (Option String) := do
  refuseIf ((db.metas.get? legacyMeta).isSome ∨ db.catalogue.isSome ∨ (((keyCanary db).bind Canary.manifestEnv).isSome ∨
    (state.isSome ∧ 5 ≤ storedSchemaVersion db))) .integrity
  pure none

def authenticatedRoot (env : StoreEnv) (db : Db P) : Except StoreError (Option String) := do
  let state ← readChecked db
  match state.bind fun s => s.manifestRoot.map fun root => (s, root) with
  | none => checkUnenrolled db state
  | some (s, root) => checkRoot env db s root

/-- The entry of a catalogue row whose text is one, under its own name, of a protected table. -/
def validEntry (r : CatalogueRow P) : Option (Entry P) :=
  r.entry.filter fun e => r.name = e.name && (e.table = objectsTable || e.table = secretsTable)

omit [DecidableEq P] in
theorem validEntry_name {r : CatalogueRow P} {e : Entry P} (he : validEntry r = some e) : e.name = r.name := by
  unfold validEntry at he
  obtain ⟨-, hp⟩ := Option.filter_eq_some_iff.1 he
  rw [Bool.and_eq_true, decide_eq_true_eq] at hp
  exact hp.1.symm

omit [DecidableEq P] in
theorem entriesOf_distinct (rows : Rows (@CatalogueRow.name P)) :
    ((rows.list.filterMap validEntry).map Entry.name).Nodup := by
  obtain ⟨l, hd⟩ := rows
  induction l with
  | nil => simp
  | cons r l ih =>
    rw [List.map_cons, List.nodup_cons] at hd
    have ih := ih hd.2
    cases hr : validEntry r with
    | none => rwa [List.filterMap_cons_none hr]
    | some e =>
      rw [List.filterMap_cons_some hr, List.map_cons, List.nodup_cons]
      refine ⟨fun hmem => hd.1 ?_, ih⟩
      obtain ⟨e', he', hname⟩ := List.mem_map.1 hmem
      obtain ⟨r', hr', hv⟩ := List.mem_filterMap.1 he'
      rw [← validEntry_name hr, ← hname, validEntry_name hv]
      exact List.mem_map_of_mem hr'

/-- The entries of the stored catalogue. -/
def entriesOf (rows : Rows (@CatalogueRow.name P)) : Entries P := ⟨rows.list.filterMap validEntry, entriesOf_distinct rows⟩

/-- `Catalogue::load`. -/
def loadCatalogue (h : Hashes P B) (db : Db P) (root : String) : Except StoreError (Catalogue h) := do
  let rows ← orIntegrity db.catalogue
  refuseIf (¬rows.list.all fun r => (validEntry r).isSome) .integrity
  refuseIf ((Catalogue.fromEntries h (entriesOf rows)).root ≠ root) .integrity
  pure (Catalogue.fromEntries h (entriesOf rows))

/-! ## A handle -/

structure Cache (h : Hashes P B) where
  root : String
  dataVersion : Nat
  catalogue : Catalogue h
  rowsVerified : Bool

/-- A `Store`: whether it holds the key, its cache, whether the catalogue is required, and its connection's
`data_version`. -/
structure Handle (h : Hashes P B) where
  unlocked : Bool
  cache : Option (Cache h)
  manifestRequired : Bool
  dataVersion : Nat

/-- A handle on the database. -/
structure Session (h : Hashes P B) where
  handle : Handle h
  db : Db P

abbrev StoreM (h : Hashes P B) (α : Type) := EStateM StoreError (Session h) α

def Session.withCache (s : Session h) (cache : Option (Cache h)) : Session h :=
  { s with handle := { s.handle with cache := cache } }

/-- A check of the database. -/
def inspect {α : Type} (f : Db P → Except StoreError α) : StoreM h α := fun s => check (f s.db) s

/-- The cache answers for this root and this `data_version`. -/
def Cache.hits (c : Cache h) (root : String) (dataVersion : Nat) : Bool := c.root = root && c.dataVersion = dataVersion

/-- The catalogue that `root` authenticates: the cached one, or the stored rows. -/
def catalogueAt (root : String) : StoreM h (Manifest h) := fun s =>
  match s.handle.cache.filter fun c => c.hits root s.handle.dataVersion with
  | some c => .ok (Manifest.begin c.catalogue root s.handle.dataVersion) s
  | none =>
    match loadCatalogue h s.db root with
    | .error e => .error e (s.withCache none)
    | .ok c => .ok (Manifest.begin c root s.handle.dataVersion) (s.withCache (some ⟨root, s.handle.dataVersion, c, false⟩))

def verifiedCatalogue (env : StoreEnv) : StoreM h (Option (Manifest h)) := do
  let root ← inspect (authenticatedRoot env)
  match root with
  | none => pure none
  | some root => some <$> catalogueAt root

/-- `Manifest::verify_rows`: every stored protected row is the view's. -/
def Manifest.verifyRows (m : Manifest h) (db : Db P) : Except StoreError Unit :=
  if m.merged.Same (capture h db) then .ok () else .error .integrity

/-- The cache is of the state that the manifest began in, and the manifest changed nothing. -/
def Cache.answers (c : Cache h) (m : Manifest h) : Bool := c.hits m.root m.dataVersion && !m.dirty

/-- `Store::verify_rows` on the database of the open transaction. -/
def verifyRows (m : Manifest h) (db : Db P) : StoreM h Unit := fun s =>
  if s.handle.cache.any fun c => c.answers m && c.rowsVerified then .ok () s
  else
    match m.verifyRows db with
    | .error e => .error e s
    | .ok () => .ok () (s.withCache (s.handle.cache.map fun c => if c.answers m then { c with rowsVerified := true } else c))

def requireManifest (present : Bool) : StoreM h Unit := fun s =>
  if present then .ok () { s with handle := { s.handle with manifestRequired := true } }
  else if s.handle.manifestRequired then .error .integrity s else .ok () s

def canaryPlainAad : Text := "anvil/v1/canary".toList

def canaryRotatedAad : Text := "anvil/v2/rotated-canary".toList

/-- The branch of `check_canary` for a canary that a rotation without a catalogue sealed. -/
def checkRotatedCanary (env : StoreEnv) (db : Db P) (sealed : Bytes) : Except StoreError Unit := do
  refuseIf (storedSchemaVersion db < 4) .integrity
  let state ← readChecked db
  let s ← orIntegrity state
  fromVault (checkCurrent env.crypto s.header s.header env.key)
  refuseIf s.manifestRoot.isSome .integrity
  let _ ← orIntegrity (env.openBytes canaryRotatedAad sealed)

/-- The branch of `check_canary` for a profile that was never rotated. -/
def checkPlainCanary (env : StoreEnv) (db : Db P) (sealed : Option Bytes) : Except StoreError Unit := do
  let state ← readChecked db
  refuseIf state.isSome .integrity
  let bytes ← orIntegrity sealed
  let _ ← orIntegrity (env.openBytes canaryPlainAad bytes)

/-- `check_canary`: whether there is one. -/
def checkCanary (env : StoreEnv) (db : Db P) : Except StoreError Bool :=
  match keyCanary db with
  | none => .ok false
  | some c => do
    let root ← authenticatedRoot env db
    match c with
    | .manifest _ => refuseIf (root = none) .integrity
    | .rotated sealed => checkRotatedCanary env db sealed
    | .plain sealed => checkPlainCanary env db (some sealed)
    | .other => checkPlainCanary env db none
    pure true

def checkHeldKey (env : StoreEnv) : StoreM h Unit := do
  let valid ← inspect (checkCanary env)
  let m ← verifiedCatalogue env
  requireManifest m.isSome
  inspect fun _ => refuseIf (valid = false) .integrity

/-- `Store::conn`: evidence that the profile was altered drops the key. -/
def conn (env : StoreEnv) : StoreM h Unit := fun s =>
  if s.handle.unlocked then
    match checkHeldKey env s with
    | .ok _ s' => .ok () s'
    | .error .integrity s' => .error .locked { s' with handle := { s'.handle with unlocked := false } }
    | .error e s' => .error e s'
  else .ok () s

def requireUnlocked : StoreM h Unit := fun s => if s.handle.unlocked then .ok () s else .error .locked s

def beginRecords (env : StoreEnv) : StoreM h (Option (Manifest h)) := do
  requireUnlocked
  let m ← verifiedCatalogue env
  requireManifest m.isSome
  pure m

/-! ## Publishing -/

/-- The catalogue row of a change. -/
def patchRow (rows : Rows (@CatalogueRow.name P)) (c : Change (@Entry.name P)) : Rows (@CatalogueRow.name P) :=
  match c.value with
  | some e => rows.put ⟨c.name, some e⟩
  | none => rows.remove c.name

/-- `UPDATE meta SET value=.. WHERE key='key_canary'`. -/
def updateCanary (env : StoreEnv) (draw : Nat) (root : String) (metas : Rows MetaRow.key) : Rows MetaRow.key :=
  if (metas.get? canaryKey).isSome then
    metas.put ⟨canaryKey, .canary (.manifest (env.sealBytes draw canaryAad (rootBytes root)))⟩
  else metas

/-- `publish_root`. -/
def publishRoot (env : StoreEnv) (draw : Nat) (db : Db P) (s : KeyState) (root : String) : Except StoreError (Db P) := do
  let header ← fromVault (bindManifestRoot env.crypto s.header env.key root)
  pure { db with metas := updateCanary env draw root (db.metas.put ⟨stateKey, .state { s with header := header }⟩) }

/-- `Manifest::publish`: the database with the changed entries and the new root, and the catalogue. -/
def publish (env : StoreEnv) (draw : Nat) (db : Db P) (s : KeyState) (m : Manifest h) :
    Except StoreError (Db P × Catalogue h) := do
  let rows ← db.catalogue.elim (.error .database) .ok
  let catalogue := m.base.apply m.changes
  let db ← publishRoot env draw { db with catalogue := some (m.changes.list.foldl patchRow rows) } s
    (Catalogue.root catalogue)
  pure (db, catalogue)

/-! ## Transactions -/

/-- What a transaction meets: the draw of its canary, the locks of other threads, and whether SQLite commits it. -/
structure Fate where
  draw : Nat
  locks : List Bool
  commits : Bool

/-- `tx.commit()`: the database of the transaction, or the one before. -/
def commitDb (fate : Fate) (db : Db P) : StoreM h Unit := fun s =>
  if fate.commits then .ok () { s with db := db } else .error .database s

/-- The end of a transaction whose closure returned. -/
def commit (env : StoreEnv) (fate : Fate) (tx : Tx h) : StoreM h Unit := fun s =>
  match tx.manifest.filter Manifest.dirty with
  | none => commitDb fate tx.db s
  | some m =>
    match readChecked tx.db >>= orIntegrity with
    | .error e => .error e s
    | .ok state =>
      -- the cache is taken out, and put back only once committed
      let rowsVerified := !m.reverify && s.handle.cache.any fun c => c.hits m.root m.dataVersion && c.rowsVerified
      if tx.locks.head? = some true then .error .locked (s.withCache none)
      else
        match publish env fate.draw tx.db state m with
        | .error e => .error e (s.withCache none)
        | .ok (db, catalogue) =>
          match commitDb fate db (s.withCache none) with
          | .error e s' => .error e s'
          | .ok _ s' => .ok () (s'.withCache (some ⟨Catalogue.root catalogue, m.dataVersion, catalogue, rowsVerified⟩))

/-- What a closure did in the transaction; its failure rolls back. -/
def finish (env : StoreEnv) (fate : Fate) (r : Except StoreError Answer × Tx h) : StoreM h Answer := do
  let a ← inspect fun _ => r.1
  commit env fate r.2
  pure a

/-- The transaction itself, once the connection is held. -/
def inTransaction (env : StoreEnv) (fate : Fate) (f : Prog) : StoreM h Answer := do
  let m ← beginRecords env
  let s ← EStateM.get
  finish env fate (runProg env f ⟨s.db, m, fate.locks⟩)

/-- `Store::writing`: the connection, checked, of a store that is not locked. -/
def writing (env : StoreEnv) : StoreM h Unit := do
  conn env
  requireUnlocked

/-- `Store::transaction`. -/
def transaction (env : StoreEnv) (fate : Fate) (f : Prog) : StoreM h Answer := do
  writing env
  inTransaction env fate f

/-- The check of the identity binding (`verify_rotation_binding`). -/
def verifyBinding (env : StoreEnv) (s : KeyState) : Except StoreError Unit := do
  refuseIf (s.header.rotation.any fun p => env.crypto.digest s.binding ≠ p.bindingDigest) .integrity
  fromVault (checkProtectionMac env.crypto s.header env.key)

/-- The snapshot that `protected_authority` reads: its rows, its state and the binding. -/
def verifySnapshot (env : StoreEnv) : StoreM h (Option KeyState) := do
  let m ← beginRecords env
  let s ← EStateM.get
  m.elim (pure ()) fun m => verifyRows m s.db
  let state ← inspect readChecked
  state.elim (pure ()) fun _ => requireUnlocked
  inspect fun _ => state.elim (.ok ()) (verifyBinding env)
  pure state

/-- A failure that is evidence against the profile, or finds it locked, drops the key. -/
def lockOnFailure {α : Type} (m : StoreM h α) : StoreM h α := fun s =>
  match m s with
  | .ok a s' => .ok a s'
  | .error e s' =>
    if e = .integrity ∨ e = .locked then .error e { s' with handle := { s'.handle with unlocked := false } } else .error e s'

def protectedAuthority (env : StoreEnv) : StoreM h (Option String) := lockOnFailure do
  writing env
  let state ← verifySnapshot env
  pure (state.bind KeyState.manifestRoot)

/-- A write of its own that is not in a transaction of the store. -/
inductive Autocommit
  | putBlob (draw : Nat) (now : Int) (bytes : Bytes)
  | pinBlob (id : Text)
  | clearHistory (ws : Option Text)
  | deleteLoadReport (id : Text)
  /-- `prune_history`: the records that are kept, and the blobs that one of them or a pin uses. -/
  | pruneHistory (keeps : HistoryRow → Bool)

def clearedHistory (ws : Option Text) (db : Db P) : Db P :=
  { db with history := db.history.keep fun r => ws.any fun w => r.workspaceId ≠ some w }

def prunedHistory (keeps : HistoryRow → Bool) (db : Db P) : Db P :=
  let db := { db with history := db.history.keep keeps }
  { db with blobs := db.blobs.keep fun b => usesBlob db b.id || (db.metas.get? (pinKey b.id)).isSome }

def Autocommit.run (env : StoreEnv) (db : Db P) : Autocommit → Db P
  | .putBlob draw now bytes => putBlobRow env draw now bytes db
  | .pinBlob id => pinRow id db
  | .clearHistory ws => clearedHistory ws db
  | .deleteLoadReport id => { db with loadReports := db.loadReports.remove id }
  | .pruneHistory keeps => prunedHistory keeps db

/-- The statement of an operation whose connection is checked. -/
def autocommit (env : StoreEnv) (fate : Fate) (w : Autocommit) : StoreM h Unit := do
  requireUnlocked
  let s ← EStateM.get
  commitDb fate (w.run env s.db)

/-! ## Several handles on one database -/

/-- What a handle does in one piece: between the check of its connection and the transaction, others may write. -/
inductive Call
  | check
  | transact (fate : Fate) (f : Prog)
  | verify
  | autocommit (fate : Fate) (w : Autocommit)
  /-- `lock`, or `unlock` with the key the profile has. -/
  | hold (unlocked : Bool)

/-- The state that an action leaves, also where it fails. -/
def leaves {α : Type} (m : StoreM h α) (s : Session h) : Session h :=
  match m s with
  | .ok _ s' => s'
  | .error _ s' => s'

def Call.run (env : StoreEnv) : Call → Session h → Session h
  | .check => leaves (writing env)
  | .transact fate f => leaves (inTransaction env fate f)
  | .verify => leaves (verifySnapshot env)
  | .autocommit fate w => leaves (Store.autocommit env fate w)
  | .hold unlocked => fun s => { s with handle := { s.handle with unlocked := unlocked } }

structure System (h : Hashes P B) where
  db : Db P
  handles : Nat → Option (Handle h)

/-- The `data_version`s that connections see after a commit of another one: each is new where the database changed. -/
def Later (σ : System h) (db : Db P) (versions : Nat → Nat) : Prop :=
  ∀ j hd, σ.handles j = some hd → hd.dataVersion ≤ versions j ∧ (db ≠ σ.db → hd.dataVersion < versions j)

/-- The handles with the `data_version`s they see. -/
def System.seen (σ : System h) (versions : Nat → Nat) (j : Nat) : Option (Handle h) :=
  (σ.handles j).map fun hd => { hd with dataVersion := versions j }

/-- A `Store` is opened, or does a call. -/
inductive StoreStep (env : StoreEnv) : System h → System h → Prop
  | opened (σ : System h) (i : Nat) (hd : Handle h) (hcold : hd.cache = none) :
      StoreStep env σ { σ with handles := Function.update σ.handles i (some hd) }
  | call (σ : System h) (i : Nat) (hd : Handle h) (c : Call) (versions : Nat → Nat) (hi : σ.handles i = some hd)
      (hlater : Later σ (c.run env ⟨hd, σ.db⟩).db versions) :
      StoreStep env σ ⟨(c.run env ⟨hd, σ.db⟩).db,
        Function.update (σ.seen versions) i (some (c.run env ⟨hd, σ.db⟩).handle)⟩

/-- A step of a store under any key, a write of a connection that is none of them, or a handle that rewrites the database
and forgets its cache (a restored checkpoint, a rotation, a migration). -/
inductive Step : System h → System h → Prop
  | store {σ τ : System h} (env : StoreEnv) (hs : StoreStep env σ τ) : Step σ τ
  | raw (σ : System h) (db : Db P) (versions : Nat → Nat) (hlater : Later σ db versions) : Step σ ⟨db, σ.seen versions⟩
  | rewrite (σ : System h) (i : Nat) (hd : Handle h) (db : Db P) (versions : Nat → Nat) (hcold : hd.cache = none)
      (hlater : Later σ db versions) : Step σ ⟨db, Function.update (σ.seen versions) i (some hd)⟩

end Anvil.Store
