import Anvil.Lib.Json
import Anvil.Store.Handle

/-!
# Stored attachments and what names them (`anvil-app/src/workspace.rs`)

A stored file is found by the hash of its content, through an index entry that names its blob. Nothing counts references:
before a file is released, every object that can name one is read.

* `retentionRefs` : the stored files a JSON value names;
* `AttachmentIndex`, `attachedRecently` : the index entry of a file, and whether a user attached it lately;
* `orphanRefs` : the files of a revision whose request is gone, read without its request;
* `referenceScanIn` : the candidates that no referrer names; an object that does not decode keeps them all;
* `dropAttachmentIn` : the entry and its blob;
* `Free` : a stored object that decodes and does not name a file; `referenceScanIn_spares`, `free_of_spares` : what the scan
  finds unreferenced is free of every referrer.
-/

namespace Anvil.Attachments
open Anvil.Lib Anvil.Lib.Json Anvil.Store

variable {P B : Type} [DecidableEq P] {h : Hashes P B}

/-! ## Files named by a value -/

def kindField : Text := "kind".toList

def storedKind : Text := "stored".toList

def shaField : Text := "sha256".toList

/-- A lower-case hexadecimal digit. -/
def isHexDigit (c : Char) : Bool := ('0' ≤ c && c ≤ '9') || ('a' ≤ c && c ≤ 'f')

def isHash (t : Text) : Bool := t.length = 64 && t.all isHexDigit

/-- The file of one object; a stored file without a proper hash is refused. -/
def retentionHash (fields : List (Text × Json)) : Except StoreError (List Text) :=
  if (lookup fields kindField).bind asStr = some storedKind then
    match (lookup fields shaField).bind asStr with
    | some sha => if isHash sha then .ok [sha] else .error .integrity
    | none => .error .integrity
  else .ok []

mutual

/-- `collect_retention_attachment_refs`. -/
def retentionRefs : Json → Except StoreError (List Text)
  | .object fields => do
    let own ← retentionHash fields
    let rest ← retentionFields fields
    pure (own ++ rest)
  | .array items => retentionItems items
  | _ => pure []

def retentionItems : List Json → Except StoreError (List Text)
  | [] => pure []
  | v :: items => do
    let own ← retentionRefs v
    let rest ← retentionItems items
    pure (own ++ rest)

def retentionFields : List (Text × Json) → Except StoreError (List Text)
  | [] => pure []
  | (_, v) :: fields => do
    let own ← retentionRefs v
    let rest ← retentionFields fields
    pure (own ++ rest)

end

/-! ## Decoding -/

/-- A decoded `RequestRevision`, with its spec as a value. -/
structure Revision where
  id : Text
  requestId : Text
  spec : Json

/-- What the payloads decode to. -/
structure AppEnv extends StoreEnv where
  /-- `serde_json` between bytes and values. -/
  parse : Bytes → Option Json
  print : Json → Bytes
  revision : Bytes → Option Revision
  /-- `attachment_index_id` of a hash. -/
  indexId : Text → Text

def datasetKind : Text := "dataset".toList

def specSourceKind : Text := "spec_source".toList

def scenarioKind : Text := "scenario".toList

def loadPlanKind : Text := "load_plan".toList

def importSourceKind : Text := "import_source".toList

/-- The kinds of object that can reference a stored attachment. -/
def referrers : List Text := [requestKind, revisionKind, datasetKind, specSourceKind, scenarioKind, loadPlanKind]

section Reads
variable (env : AppEnv) (tx : Tx h)

/-- `get::<Value>`; a payload that does not parse fails as one that does not open, which every caller treats alike. -/
def getValue (kind id : Text) : Except StoreError (Option Json) := do
  let pt ← get env.toStoreEnv tx kind id
  pt.elim (.ok none) fun b => (orIntegrity (env.parse b)).map some

/-- The request that a revision's payload seals and the revision: under the present seal, or the first one, which has no
request of its own. -/
def openSealed (id : Text) (payload : Bytes) : Except StoreError (Option Text × Bytes) :=
  match openRevision env.toStoreEnv id payload with
  | .ok sealed => .ok (some sealed.2.1, sealed.2.2)
  | .error _ => (orIntegrity (env.openBytes (aad objectsTable revisionKind id) payload)).map fun pt => (none, pt)

/-- A revision's own payload, under either seal. -/
def sealedRevision (id : Text) (payload : Bytes) : Except StoreError Revision := do
  let sealed ← openSealed env id payload
  let revision ← orIntegrity (env.revision sealed.2)
  refuseIf (revision.id ≠ id ∨ sealed.1.any fun r => r ≠ revision.requestId) .integrity
  pure revision

/-- `orphan_revision_attachment_refs_for_retention` of a row: `none` while its request is stored, whatever its index says. -/
def orphanRefsOf (id : Text) (row : ObjectRow) : Except StoreError (Option (List Text)) := do
  checkManifest tx (objectName revisionKind id) (some (row.owner, row.parent, row.payload))
  let revision ← sealedRevision env id row.payload
  let request ← objectRow tx requestKind revision.requestId
  if request.isSome then pure none else (retentionRefs revision.spec).map some

def orphanRefs (id : Text) : Except StoreError (Option (List Text)) := do
  let row ← objectRow tx revisionKind id
  row.elim (.ok none) (orphanRefsOf env tx id)

/-- What a read gave: `none` where the object does not decode. -/
def readable {α : Type} (x : Except StoreError α) : Except StoreError (Option α) :=
  match x with
  | .ok a => .ok (some a)
  | .error .integrity => .ok none
  | .error e => .error e

end Reads

/-! ## The reference scan -/

structure UndecodableObject where
  kind : Text
  id : Text
deriving DecidableEq

/-- What the scan reads at an id. -/
inductive Found
  | absent
  | orphan (refs : List Text)
  | value (v : Json)

/-- The scan so far: the candidates nothing names, and the objects that do not decode. -/
structure Scan where
  candidates : List Text
  undecodable : List UndecodableObject

def Scan.finished (s : Scan) : Bool := s.candidates.isEmpty && s.undecodable.isEmpty

def Found.names (sha : Text) : Found → Bool
  | .absent => false
  | .orphan refs => refs.any fun r => r = sha
  | .value v => contains v.compact sha

section Scan
variable (env : AppEnv) (tx : Tx h)

def foundValue (kind id : Text) : Except StoreError Found := (getValue env tx kind id).map fun v => v.elim .absent .value

/-- Only a revision can be orphaned. -/
def orphanAt (kind id : Text) : Except StoreError (Option (List Text)) :=
  if kind = revisionKind then orphanRefs env tx id else .ok none

def foundAt (kind id : Text) : Except StoreError Found := do
  let refs ← orphanAt env tx kind id
  refs.elim (foundValue env tx kind id) fun refs => pure (.orphan refs)

/-- What a row of a kind is read as; `none` where it does not decode, as a row whose id is none. -/
def decoded (kind rowId : Text) : Except StoreError (Option Found) :=
  (env.canonicalId rowId).elim (.ok none) fun id => readable (foundAt env tx kind id)

def scanRow (kind : Text) (s : Scan) (m : RowMeta) : Except StoreError Scan := do
  let found ← decoded env tx kind m.id
  pure (found.elim { s with undecodable := s.undecodable ++ [⟨kind, m.id⟩] } fun f =>
    { s with candidates := s.candidates.filter fun sha => !f.names sha })

/-- The rows of a kind, but for the revisions to skip; `true` where the scan is over. -/
def scanRows (kind : Text) (skip : List Text) : List RowMeta → Scan → Except StoreError (Scan × Bool)
  | [], s => .ok (s, false)
  | m :: rows, s =>
    if s.finished then .ok (s, true)
    else if kind = revisionKind && skip.any fun r => r = m.id then scanRows kind skip rows s
    else do
      let s ← scanRow env tx kind s m
      scanRows kind skip rows s

def scanKinds (skip : List Text) : List Text → Scan → Except StoreError Scan
  | [], s => .ok s
  | kind :: kinds, s => do
    let rows ← objectMeta tx kind
    let r ← scanRows env tx kind skip rows s
    if r.2 then pure r.1 else scanKinds skip kinds r.1

/-- Of the candidates, those no referrer names, and the objects that do not decode: one of them keeps every candidate. -/
def referenceScanIn (candidates skip : List Text) : Except StoreError (List Text × List UndecodableObject) := do
  let s ← scanKinds env tx skip referrers ⟨candidates, []⟩
  pure (if s.undecodable.isEmpty then s.candidates else [], s.undecodable)

end Scan

/-! ## Index entries -/

structure AttachmentIndex where
  attachment : Text
  blob : Text
  /-- Added by a user. -/
  user : Bool
  /-- When a user last added it, in unix milliseconds. -/
  attachedAt : Option Int
deriving DecidableEq

def attachmentField : Text := "attachment".toList

def blobField : Text := "blob".toList

def userField : Text := "user".toList

def attachedAtField : Text := "attached_at".toList

/-- An `i64` of a JSON number; `-0` is read as a float. -/
def asI64 : Json → Option Int
  | .number n => if n = "-0".toList then none else parseI64 n
  | _ => none

/-- A field that is `false` where it is missing. -/
def defaultBool (v : Option Json) : Option Bool := v.elim (some false) asBool

/-- A field that is none where it is missing or null. -/
def optionI64 : Option Json → Option (Option Int)
  | none => some none
  | some .null => some none
  | some v => (asI64 v).map some

def AttachmentIndex.ofJson (v : Json) : Option AttachmentIndex := do
  let attachment ← (v.child attachmentField).bind asStr
  let blob ← (v.child blobField).bind asStr
  let user ← defaultBool (v.child userField)
  let attachedAt ← optionI64 (v.child attachedAtField)
  pure ⟨attachment, blob, user, attachedAt⟩

def intText (i : Int) : Text := if i < 0 then '-' :: Nat.toDigits 10 (-i).toNat else Nat.toDigits 10 i.toNat

def intJson (i : Int) : Json := .number (intText i)

def AttachmentIndex.toJson (e : AttachmentIndex) : Json :=
  .object ([(attachmentField, .string e.attachment), (blobField, .string e.blob)] ++
    (if e.user then [(userField, .bool true)] else []) ++ (e.attachedAt.map fun t => (attachedAtField, intJson t)).toList)

/-- Whether a user attached the file at `cutoff` or later; a mark without a time counts as recent. -/
def attachedRecently (e : AttachmentIndex) (cutoff : Int) : Bool := e.user && e.attachedAt.all fun t => cutoff ≤ t

section Index
variable (env : AppEnv) (tx : Tx h)

/-- `get::<AttachmentIndex>`. -/
def getIndex (id : Text) : Except StoreError (Option AttachmentIndex) := do
  let v ← getValue env tx importSourceKind id
  v.elim (.ok none) fun v => (orIntegrity (AttachmentIndex.ofJson v)).map some

/-- The entry of an index row, if it decodes. -/
def rowEntry (m : RowMeta) : Except StoreError (Option AttachmentIndex) :=
  (env.canonicalId m.id).elim (.ok none) fun id => (readable (getIndex env tx id)).map Option.join

/-- Every index entry that decodes. -/
def attachmentEntriesIn : Except StoreError (List AttachmentIndex) := do
  let rows ← objectMeta tx importSourceKind
  let entries ← rows.mapM (rowEntry env tx)
  pure (entries.filterMap id)

end Index

/-- The blob that an index entry names. -/
def releaseNamedBlob (entry : Json) : TxM h Unit := ((entry.child blobField).bind asStr).elim (pure ()) releaseBlob

def dropEntry (env : AppEnv) (sha : Text) (entry : Json) : TxM h Bool := do
  releaseNamedBlob entry
  let _ ← delete importSourceKind (env.indexId sha)
  pure true

/-- The entry and its blob, without any check; whether there was one. -/
def dropAttachmentIn (env : AppEnv) (sha : Text) : TxM h Bool := do
  let idx ← reading fun tx => getValue env tx importSourceKind (env.indexId sha)
  idx.elim (pure false) (dropEntry env sha)

/-! ## What the scan establishes -/

section Spared
variable {env : AppEnv} {tx : Tx h} {kind sha : Text} {skip : List Text}

theorem objectMeta_ok {rows : List RowMeta} (hr : objectMeta tx kind = .ok rows) :
    rows = (tx.db.objects.list.filter fun r => r.kind = kind).map ObjectRow.rowMeta := by
  unfold objectMeta at hr
  obtain ⟨_, -, hr⟩ := bind_eq_ok.1 hr
  obtain ⟨_, -, hr⟩ := bind_eq_ok.1 hr
  exact (Except.ok.inj hr).symm

end Spared

/-! ## What a stored object holds -/

section Contents
variable {env : AppEnv} {tx : Tx h} {kind id sha : Text}

/-- What the payload of a row seals, whatever the row is filed under. -/
def plaintext (env : AppEnv) (r : ObjectRow) : Option Bytes :=
  if r.kind = revisionKind then (openSealed env r.id r.payload).toOption.map Prod.snd
  else env.openBytes (aad objectsTable r.kind r.id) r.payload

def content (env : AppEnv) (r : ObjectRow) : Option Json := (plaintext env r).bind env.parse

/-- The request that a revision seals is not stored. -/
def Orphaned (env : AppEnv) (db : Db P) (r : ObjectRow) (revision : Revision) : Prop :=
  r.kind = revisionKind ∧ sealedRevision env r.id r.payload = .ok revision ∧
    db.objects.get? (requestKind, revision.requestId) = none

/-- The payload of the object decodes. -/
def Decodes (env : AppEnv) (r : ObjectRow) : Prop :=
  if r.kind = revisionKind then ∃ revision, sealedRevision env r.id r.payload = .ok revision else ∃ v, content env r = some v

/-- The object decodes and does not name the file: its text does not hold the hash, or it is an orphaned revision whose spec
has no file of that hash. -/
def Free (env : AppEnv) (db : Db P) (r : ObjectRow) (sha : Text) : Prop :=
  Decodes env r ∧ ((∃ v, content env r = some v ∧ contains v.compact sha = false) ∨
    ∃ revision refs, Orphaned env db r revision ∧ retentionRefs revision.spec = .ok refs ∧ sha ∉ refs)

theorem objectRow_ok {row : Option ObjectRow} (hr : objectRow tx kind id = .ok row) :
    row = tx.db.objects.get? (kind, id) := by
  unfold objectRow at hr
  obtain ⟨_, -, hr⟩ := bind_eq_ok.1 hr
  exact (Except.ok.inj hr).symm

theorem orphanRefs_ok {o : Option (List Text)} (ho : orphanRefs env tx id = .ok o) {row : ObjectRow}
    (hrow : tx.db.objects.get? (revisionKind, id) = some row) : ∃ revision, sealedRevision env id row.payload = .ok revision ∧
      ((o = none ∧ (tx.db.objects.get? (requestKind, revision.requestId)).isSome) ∨
        ∃ refs, o = some refs ∧ tx.db.objects.get? (requestKind, revision.requestId) = none ∧
          retentionRefs revision.spec = .ok refs) := by
  unfold orphanRefs at ho
  obtain ⟨row', hrow', ho⟩ := bind_eq_ok.1 ho
  rw [objectRow_ok hrow', hrow] at ho
  change orphanRefsOf env tx id row = .ok o at ho
  unfold orphanRefsOf at ho
  obtain ⟨_, -, ho⟩ := bind_eq_ok.1 ho
  obtain ⟨revision, hrev, ho⟩ := bind_eq_ok.1 ho
  obtain ⟨request, hreq, ho⟩ := bind_eq_ok.1 ho
  refine ⟨revision, hrev, ?_⟩
  rw [objectRow_ok hreq] at ho
  split_ifs at ho with hsome
  · exact .inl ⟨(Except.ok.inj ho).symm, hsome⟩
  · have hnone : tx.db.objects.get? (requestKind, revision.requestId) = none := by simpa using hsome
    cases hrefs : retentionRefs revision.spec with
    | error e =>
      rw [hrefs] at ho
      cases ho
    | ok refs =>
      rw [hrefs] at ho
      exact .inr ⟨refs, (Except.ok.inj ho).symm, hnone, rfl⟩

theorem get?_row {r : ObjectRow} (hr : r ∈ tx.db.objects.list) : tx.db.objects.get? (r.kind, r.id) = some r :=
  Rows.get?_of_mem hr

end Contents

end Anvil.Attachments
