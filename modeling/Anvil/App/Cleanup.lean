import Anvil.App.Attachments

/-!
# Storage cleanup (`anvil-app/src/cleanup.rs`)

A pass reads in one transaction what to remove, and removes it in another, only if nothing was committed in between.

* `revisionRowsDigestIn` : the digest that a pass keeps when it left no orphaned revision;
* `planWith` : what a pass decides, with or without looking for orphans; `planIn` : without, while the kept digest holds;
* `applyIn` : the removals; `cleanUpStorage` : the rounds of a pass.
-/

namespace Anvil.Cleanup
open Anvil.Lib Anvil.Lib.Json Anvil.Store Anvil.Attachments

variable {P B : Type} [DecidableEq P] {h : Hashes P B}

structure StorageCleanup where
  orphanedRevisions : Nat
  releasedAttachments : Nat
  undecodable : List UndecodableObject

/-- The last pass as the store keeps it. -/
structure KeptPass where
  ranAt : Int
  result : StorageCleanup
  rows : Option Text
  settled : Option Text

structure CleanupEnv extends AppEnv where
  /-- `Sha256` of a text, in hexadecimal. -/
  sha256 : Text → Text
  /-- The note of a pass, and what a note is read as. -/
  writeKept : KeptPass → Text
  readKept : Text → Option KeptPass

def lastPassNote : Text := "storage_cleanup".toList

/-- How many times a pass reads again. -/
def attemptsOfPass : Nat := 3

/-! ## Digests -/

def byId (rows : List RowMeta) : List RowMeta := rows.mergeSort fun a b => textLe a.id b.id

def nul : Char := Char.ofNat 0

def rowLine (kind : Text) (m : RowMeta) : Text :=
  kind ++ nul :: m.id ++ nul :: m.parentId.getD [] ++ nul :: intText m.updatedAt ++ ['\n']

def revisionLine (m : RowMeta) : Text :=
  revisionKind ++ nul :: m.id ++ nul :: m.workspaceId.getD [] ++ nul :: m.parentId.getD [] ++
    nul :: intText m.updatedAt ++ ['\n']

def requestLine (id : Text) : Text := requestKind ++ nul :: id ++ ['\n']

def kindLines (tx : Tx h) (kind : Text) : Except StoreError Text :=
  (objectMeta tx kind).map fun rows => (byId rows).flatMap (rowLine kind)

/-- A digest of what a pass reads: every row that can reference a stored file, and every index entry. -/
def rowsDigestIn (env : CleanupEnv) (tx : Tx h) : Except StoreError Text := do
  let lines ← (referrers ++ [importSourceKind]).mapM (kindLines tx)
  pure (env.sha256 lines.flatten)

def revisionRowsText (revisions requests : List RowMeta) : Text :=
  (byId revisions).flatMap revisionLine ++ ((requests.map RowMeta.id).mergeSort textLe).flatMap requestLine

/-- A digest of what decides which revisions are orphaned. -/
def revisionRowsDigestIn (env : CleanupEnv) (tx : Tx h) : Except StoreError Text := do
  let revisions ← objectMeta tx revisionKind
  let requests ← objectMeta tx requestKind
  pure (env.sha256 (revisionRowsText revisions requests))

/-- The last pass kept; one that does not read counts as none. -/
def keptIn (env : CleanupEnv) (db : Db P) : Option KeptPass := ((note db lastPassNote).bind metaText).bind env.readKept

/-! ## The plan -/

structure Plan where
  /-- Revisions filed under a request that no longer exists. -/
  orphans : List Text
  /-- Stored files no saved item references. -/
  unreferenced : List Text
  /-- Files attached past the grace period that a saved item references. -/
  held : List AttachmentIndex
  /-- Files marked as attached with no time. -/
  unstamped : List AttachmentIndex
  undecodable : List UndecodableObject
  rows : Text

/-- What the look at the revisions found. -/
structure Orphans where
  candidates : List Text
  ids : List Text
  rows : List Text
  undecodable : List UndecodableObject

/-- The revision of a row, as the look for orphans reads it. -/
def orphanRow (env : CleanupEnv) (tx : Tx h) (m : RowMeta) : Except StoreError (Option (List Text)) :=
  (env.canonicalId m.id).elim (.error .integrity) (orphanRefs env.toAppEnv tx)

def Orphans.add (s : Orphans) (env : CleanupEnv) (recent : List Text) (m : RowMeta) : Option (Option (List Text)) → Orphans
  | none => { s with undecodable := s.undecodable ++ [⟨revisionKind, m.id⟩] }
  | some none => s
  | some (some refs) =>
    { s with
      candidates := s.candidates ++ refs.filter fun sha => recent.all fun r => r ≠ sha
      ids := s.ids ++ (env.canonicalId m.id).toList
      rows := s.rows ++ [m.id] }

def orphanStep (env : CleanupEnv) (tx : Tx h) (recent : List Text) (s : Orphans) (m : RowMeta) : Except StoreError Orphans :=
  (readable (orphanRow env tx m)).map (s.add env recent m)

/-- Every revision was authenticated by a pass since which no revision or request row changed. -/
def settledIn (env : CleanupEnv) (tx : Tx h) : Except StoreError Bool :=
  match (keptIn env tx.db).bind KeptPass.settled with
  | some digest => (revisionRowsDigestIn env tx).map fun d => digest = d
  | none => .ok false

def revisionsToRead (tx : Tx h) (settled : Bool) : Except StoreError (List RowMeta) :=
  if settled then .ok [] else objectMeta tx revisionKind

def unstampedMark (e : AttachmentIndex) : Bool := e.user && e.attachedAt.isNone

/-- Marked, and attached before the cutoff. -/
def agedMark (cutoff : Int) (e : AttachmentIndex) : Bool := !unstampedMark e && (e.user && !attachedRecently e cutoff)

/-- The objects of both lists, each once. -/
def joinUndecodable (a b : List UndecodableObject) : List UndecodableObject :=
  b.foldl (fun u o => if u.any fun x => x = o then u else u ++ [o]) a

/-- What to remove and release, decided from one consistent read. -/
def planWith (env : CleanupEnv) (tx : Tx h) (cutoff : Int) (settled : Bool) : Except StoreError Plan := do
  let rows ← rowsDigestIn env tx
  let entries ← attachmentEntriesIn env.toAppEnv tx
  let recent := (entries.filter fun e => attachedRecently e cutoff).map AttachmentIndex.attachment
  let revisions ← revisionsToRead tx settled
  let o ← revisions.foldlM (orphanStep env tx recent) ⟨[], [], [], []⟩
  let aged := entries.filter (agedMark cutoff)
  let scan ← referenceScanIn env.toAppEnv tx (o.candidates ++ aged.map AttachmentIndex.attachment).dedup o.rows
  pure
    { orphans := o.ids
      unreferenced := scan.1
      held := aged.filter fun e => scan.1.all fun sha => sha ≠ e.attachment
      unstamped := entries.filter unstampedMark
      undecodable := joinUndecodable o.undecodable scan.2
      rows := rows }

def planIn (env : CleanupEnv) (tx : Tx h) (cutoff : Int) : Except StoreError Plan := do
  let settled ← settledIn env tx
  planWith env tx cutoff settled

/-! ## The removals -/

/-- The clock and the draw of one write. -/
structure Moment where
  now : Int
  draw : Nat

def putEntry (env : AppEnv) (t : Moment) (e : AttachmentIndex) : TxM h Unit :=
  put env.toStoreEnv t.draw t.now importSourceKind (env.indexId e.attachment) none none 0 (env.print e.toJson)

def putEntries (env : AppEnv) (t : Nat → Moment) : Nat → List AttachmentIndex → TxM h Unit
  | _, [] => pure ()
  | i, e :: entries => do
    putEntry env (t i) e
    putEntries env t (i + 1) entries

/-- How many of the files had an entry. -/
def dropAll (env : AppEnv) : List Text → TxM h Nat
  | [] => pure 0
  | sha :: rest => do
    let dropped ← dropAttachmentIn env sha
    let n ← dropAll env rest
    pure (n + if dropped then 1 else 0)

/-- The readings of a pass: each write's, the time of stamps and the time that is kept. -/
structure PassClock where
  moments : Nat → Moment
  stamp : Int
  ranAt : Int

def keepIn (env : CleanupEnv) (t : PassClock) (done : StorageCleanup) (rows settled : Option Text) : TxM h StorageCleanup :=
  do
  putNote lastPassNote (env.writeKept ⟨t.ranAt, done, rows, settled⟩)
  pure done

/-- What was stamped changed the rows the digest covers. -/
def blockedRows (env : CleanupEnv) (plan : Plan) (tx : Tx h) : Except StoreError Text :=
  if plan.unstamped.isEmpty then .ok plan.rows else rowsDigestIn env tx

/-- Nothing is removed while an object does not decode. -/
def keepBlocked (env : CleanupEnv) (t : PassClock) (plan : Plan) : TxM h StorageCleanup := do
  let rows ← reading (blockedRows env plan)
  keepIn env t ⟨0, 0, plan.undecodable⟩ (some rows) none

def carryOut (env : CleanupEnv) (t : PassClock) (plan : Plan) : TxM h StorageCleanup := do
  deleteRevisions plan.orphans
  let released ← dropAll env.toAppEnv plan.unreferenced
  putEntries env.toAppEnv t.moments plan.unstamped.length
    (plan.held.map fun e => { e with user := false, attachedAt := none })
  let settled ← reading (revisionRowsDigestIn env)
  keepIn env t ⟨plan.orphans.length, released, []⟩ none (some settled)

def applyIn (env : CleanupEnv) (t : PassClock) (plan : Plan) : TxM h StorageCleanup := do
  putEntries env.toAppEnv t.moments 0 (plan.unstamped.map fun e => { e with attachedAt := some t.stamp })
  if plan.undecodable.isEmpty then carryOut env t plan else keepBlocked env t plan

/-! ## Passes -/

/-- A read transaction, the write transaction after it, and the change markers they took. -/
structure Round (h : Hashes P B) where
  seen : Tx h
  seenMarker : Nat
  later : Tx h
  laterMarker : Nat
  clock : PassClock

inductive PassError
  | store (e : StoreError)
  | keptChanging

/-- The result and what is committed; `none` where the store changed meanwhile. -/
def attemptRound (env : CleanupEnv) (cutoff : Int) (r : Round h) : Except StoreError (Option (StorageCleanup × Tx h)) := do
  let plan ← planIn env r.seen cutoff
  if r.laterMarker ≠ r.seenMarker then .ok none
  else
    match applyIn env r.clock plan r.later with
    | .ok done tx => .ok (some (done, tx))
    | .error e _ => .error e

def passRounds (env : CleanupEnv) (cutoff : Int) : List (Round h) → Except PassError (StorageCleanup × Tx h)
  | [] => .error .keptChanging
  | r :: rounds =>
    match attemptRound env cutoff r with
    | .error e => .error (.store e)
    | .ok (some done) => .ok done
    | .ok none => passRounds env cutoff rounds

/-- `clean_up_storage_between_phases`, in the rounds it meets. -/
def cleanUpStorage (env : CleanupEnv) (cutoff : Int) (rounds : List (Round h)) : Except PassError (StorageCleanup × Tx h) :=
  passRounds env cutoff (rounds.take attemptsOfPass)

end Anvil.Cleanup
