import Anvil.Lib.Sweep
import Anvil.Store.Aad

/-!
# Every payload under a new key (`anvil-storage/src/store.rs`)

`reseal_all` opens each payload of five tables under the old key and seals it under the new one, in batches of rows by
their number. The draws of the seals are a parameter: each row is sealed once, so they are given by its table and number.

* `PayloadColumn` : where a table keeps its payload, and what that is bound to, now and before its schema step;
* `opened` : the data that a payload opens under, and its plaintext;
* `resealTable`, `resealAll`, `rotatePayloads` : one table, the five of them, and the transaction around them;
* `RowResealed`, `Resealed` : a row and a database, before and after;
* `resealAll_exact` : rotation rewrites every payload and nothing else, or fails.
-/

namespace Anvil.Store
open Anvil.Lib Anvil.Storage

/-- A row with its `rowid`. -/
structure Numbered (α : Type) where
  rowid : Int
  row : α
deriving DecidableEq

abbrev NumberedRows (α : Type) := Rows (@Numbered.rowid α)

/-- The tables with a payload. -/
structure Payloads where
  objects : NumberedRows ObjectRow
  secrets : NumberedRows SecretRow
  blobs : NumberedRows BlobRow
  history : NumberedRows HistoryRow
  loadReports : NumberedRows ReportRow

inductive PayloadTable
  | objects
  | secrets
  | blobs
  | history
  | loadReports
deriving DecidableEq

/-! ## What a payload is bound to -/

/-- The payload of a table's rows, its associated data, and that of rows which no schema step has sealed again. -/
structure PayloadColumn (α : Type) where
  payload : α → Bytes
  withPayload : α → Bytes → α
  primary : α → Text
  legacy : α → Option Text
  payload_with : ∀ r x, payload (withPayload r x) = x
  primary_with : ∀ r x, primary (withPayload r x) = primary r
  legacy_with : ∀ r x, legacy (withPayload r x) = legacy r
  legacy_ne : ∀ r, legacy r ≠ some (primary r)

/-- The forms of one id differ. -/
theorem aad_ne {s t : Sealed} (h : s ≠ t) : some s.aad ≠ some t.aad := fun he =>
  h (Sealed.aad_injective (Option.some.inj he))

def revisionOf : Kind := ⟨revisionKind, by decide⟩

def objectColumn : PayloadColumn ObjectRow where
  payload := fun r => r.payload
  withPayload := fun r x => { r with payload := x }
  primary := fun r => if r.kind = revisionKind then revisionAad r.id else aad objectsTable r.kind r.id
  legacy := fun r => if r.kind = revisionKind then some (aad objectsTable revisionKind r.id) else none
  payload_with := fun _ _ => rfl
  primary_with := fun _ _ => rfl
  legacy_with := fun _ _ => rfl
  legacy_ne := by
    intro r
    split_ifs
    · exact aad_ne (s := .object revisionOf r.id) (t := .revision r.id) (by simp)
    · simp

def secretColumn : PayloadColumn SecretRow where
  payload := fun r => r.payload
  withPayload := fun r x => { r with payload := x }
  primary := fun r => secretAad r.id r.owner
  legacy := fun r => some (aad secretsTable "secret".toList r.id)
  payload_with := fun _ _ => rfl
  primary_with := fun _ _ => rfl
  legacy_with := fun _ _ => rfl
  legacy_ne := fun r => aad_ne (s := .ownerlessSecret r.id) (t := .secret r.id r.owner) (by simp)

def blobColumn : PayloadColumn BlobRow where
  payload := fun r => r.payload
  withPayload := fun r x => { r with payload := x }
  primary := fun r => aad "blobs".toList "blob".toList r.id
  legacy := fun _ => none
  payload_with := fun _ _ => rfl
  primary_with := fun _ _ => rfl
  legacy_with := fun _ _ => rfl
  legacy_ne := by simp

def historyColumn : PayloadColumn HistoryRow where
  payload := fun r => r.payload
  withPayload := fun r x => { r with payload := x }
  primary := fun r => historyAad r.id r.bodyBlob
  legacy := fun r => some (aad "history".toList "record".toList r.id)
  payload_with := fun _ _ => rfl
  primary_with := fun _ _ => rfl
  legacy_with := fun _ _ => rfl
  legacy_ne := fun r => aad_ne (s := .bodylessHistory r.id) (t := .history r.id r.bodyBlob) (by simp)

def reportColumn : PayloadColumn ReportRow where
  payload := fun r => r.payload
  withPayload := fun r x => { r with payload := x }
  primary := fun r => aad "load_reports".toList "report".toList r.id
  legacy := fun _ => none
  payload_with := fun _ _ => rfl
  primary_with := fun _ _ => rfl
  legacy_with := fun _ _ => rfl
  legacy_ne := by simp

/-! ## Rotation -/

def migrationBatch : Nat := 256

section Rotation
variable (c : Aead)

/-- The associated data that a payload opens under, and its plaintext. -/
def opened {α : Type} (column : PayloadColumn α) (k : Key) (r : α) : Option (Text × Bytes) :=
  match c.openWith k (encodeUtf8 (column.primary r)) (column.payload r) with
  | some pt => some (column.primary r, pt)
  | none => do
    let data ← column.legacy r
    let pt ← c.openWith k (encodeUtf8 data) (column.payload r)
    pure (data, pt)

/-- The envelope that takes the place of a row's payload. -/
def resealed {α : Type} (column : PayloadColumn α) (old new : Key) (nonce : Int → Bytes) (n : Numbered α) :
    Except StoreError Bytes :=
  match opened c column old n.row with
  | some (data, pt) => .ok (c.sealWith new (nonce n.rowid) (encodeUtf8 data) pt)
  | none => .error .integrity

/-- `UPDATE … SET payload=?1 WHERE rowid=?2`. -/
def resealing {α : Type} (column : PayloadColumn α) (old new : Key) (nonce : Int → Bytes) :
    Sweep (@Numbered.rowid α) Bytes StoreError where
  step := resealed c column old new nonce
  store := fun n x => { n with row := column.withPayload n.row x }
  key_store := fun _ _ => rfl

def resealTable {α : Type} (column : PayloadColumn α) (old new : Key) (nonce : Int → Bytes) (m : NumberedRows α) :
    Except StoreError (NumberedRows α) :=
  (resealing c column old new nonce).all migrationBatch m

/-- `reseal_all`. -/
def resealAll (old new : Key) (nonce : PayloadTable → Int → Bytes) (db : Payloads) : Except StoreError Payloads := do
  let objects ← resealTable c objectColumn old new (nonce .objects) db.objects
  let secrets ← resealTable c secretColumn old new (nonce .secrets) db.secrets
  let blobs ← resealTable c blobColumn old new (nonce .blobs) db.blobs
  let history ← resealTable c historyColumn old new (nonce .history) db.history
  let loadReports ← resealTable c reportColumn old new (nonce .loadReports) db.loadReports
  pure ⟨objects, secrets, blobs, history, loadReports⟩

/-- The transaction of `rotate_to`, of these tables: `prepare_rotation` goes on with the header and the catalogue
(`publish`), and what fails is rolled back. -/
def rotatePayloads (publish : Payloads → Except StoreError Unit) (old new : Key) (nonce : PayloadTable → Int → Bytes)
    (db : Payloads) : Except StoreError Unit × Payloads :=
  match resealAll c old new nonce db with
  | .error e => (.error e, db)
  | .ok db' =>
    match publish db' with
    | .error e => (.error e, db)
    | .ok _ => (.ok (), db')

/-! ## Rows -/

/-- The row has another payload, which opens under the new key as the old one did under the old key, and under nothing
else. -/
structure RowResealed {α : Type} (column : PayloadColumn α) (old new : Key) (n n' : Numbered α) : Prop where
  rowid_eq : n'.rowid = n.rowid
  row_eq : n'.row = column.withPayload n.row (column.payload n'.row)
  reads : (opened c column old n.row).isSome ∧ opened c column new n'.row = opened c column old n.row
  retired : ∀ data, c.openWith old data (column.payload n'.row) = none

variable {c} {α : Type} {column : PayloadColumn α} {old new : Key}

/-- What was read of a payload opens it. -/
theorem openWith_of_opened {k : Key} {r : α} {data : Text} {pt : Bytes} (h : opened c column k r = some (data, pt)) :
    c.openWith k (encodeUtf8 data) (column.payload r) = some pt ∧
      (data = column.primary r ∨ column.legacy r = some data) := by
  unfold opened at h
  split at h
  · next pt' hprimary =>
    obtain ⟨rfl, rfl⟩ := Prod.mk.inj (Option.some.inj h)
    exact ⟨hprimary, .inl rfl⟩
  · obtain ⟨data', hlegacy, h⟩ := Option.bind_eq_some_iff.1 h
    obtain ⟨pt', hopen, h⟩ := Option.bind_eq_some_iff.1 h
    obtain ⟨rfl, rfl⟩ := Prod.mk.inj (Option.some.inj h)
    exact ⟨hopen, .inr hlegacy⟩

/-- A payload sealed under one of its two forms is read as it was sealed. -/
theorem opened_sealed {r : α} {data : Text} (hdata : data = column.primary r ∨ column.legacy r = some data)
    (k : Key) (nonce pt : Bytes) :
    opened c column k (column.withPayload r (c.sealWith k nonce (encodeUtf8 data) pt)) = some (data, pt) := by
  unfold opened
  rw [column.payload_with, column.primary_with, column.legacy_with]
  by_cases hprimary : data = column.primary r
  · rw [hprimary, c.open_seal]
  · have hlegacy := hdata.resolve_left hprimary
    have hother : c.openWith k (encodeUtf8 (column.primary r)) (c.sealWith k nonce (encodeUtf8 data) pt) = none := by
      refine c.open_other k _ k _ nonce pt fun he => hprimary ?_
      exact encodeUtf8_injective (Prod.mk.inj he).2
    rw [hother, hlegacy]
    simp [c.open_seal]

theorem rowResealed (hkeys : old ≠ new) {nonce : Int → Bytes} {n : Numbered α} {x : Bytes}
    (h : resealed c column old new nonce n = .ok x) :
    RowResealed c column old new n { n with row := column.withPayload n.row x } := by
  unfold resealed at h
  split at h
  · next data pt hopen =>
    obtain rfl := Except.ok.inj h
    refine ⟨rfl, by rw [column.payload_with], ⟨by rw [hopen]; rfl, ?_⟩, fun data' => ?_⟩
    · rw [hopen]
      exact opened_sealed (openWith_of_opened hopen).2 new _ pt
    · rw [column.payload_with]
      exact c.open_other _ _ _ _ _ _ fun he => hkeys (Prod.mk.inj he).1.symm
  · cases h

theorem resealed_error {nonce : Int → Bytes} {n : Numbered α} {e : StoreError}
    (h : resealed c column old new nonce n = .error e) : e = .integrity ∧ opened c column old n.row = none := by
  unfold resealed at h
  split at h
  · cases h
  · next hopen => exact ⟨(Except.error.inj h).symm, hopen⟩

/-! ## Tables -/

theorem resealTable_ok (hkeys : old ≠ new) {nonce : Int → Bytes} {m m' : NumberedRows α}
    (h : resealTable c column old new nonce m = .ok m') :
    List.Forall₂ (RowResealed c column old new) m.list m'.list := by
  obtain ⟨hlist, hstep⟩ := Sweep.all_ok (by decide) h
  rw [hlist, List.forall₂_map_right_iff, List.forall₂_same]
  intro n hn
  obtain ⟨x, hx⟩ := hstep n hn
  rw [Sweep.rewritten_of_ok _ hx]
  exact rowResealed hkeys hx

theorem resealTable_error {nonce : Int → Bytes} {m : NumberedRows α} {e : StoreError}
    (h : resealTable c column old new nonce m = .error e) :
    e = .integrity ∧ ∃ n ∈ m.list, opened c column old n.row = none := by
  obtain ⟨n, hn, he⟩ := Sweep.all_error h
  obtain ⟨rfl, hnone⟩ := resealed_error he
  exact ⟨rfl, n, hn, hnone⟩

end Rotation

/-! ## The database -/

/-- Every payload of a table opens, under one of its forms. -/
def TableReadable (c : Aead) {α : Type} (column : PayloadColumn α) (k : Key) (m : NumberedRows α) : Prop :=
  ∀ n ∈ m.list, (opened c column k n.row).isSome

structure Readable (c : Aead) (k : Key) (db : Payloads) : Prop where
  objects : TableReadable c objectColumn k db.objects
  secrets : TableReadable c secretColumn k db.secrets
  blobs : TableReadable c blobColumn k db.blobs
  history : TableReadable c historyColumn k db.history
  loadReports : TableReadable c reportColumn k db.loadReports

/-- The same rows in the same order, each resealed. -/
structure Resealed (c : Aead) (old new : Key) (db db' : Payloads) : Prop where
  objects : List.Forall₂ (RowResealed c objectColumn old new) db.objects.list db'.objects.list
  secrets : List.Forall₂ (RowResealed c secretColumn old new) db.secrets.list db'.secrets.list
  blobs : List.Forall₂ (RowResealed c blobColumn old new) db.blobs.list db'.blobs.list
  history : List.Forall₂ (RowResealed c historyColumn old new) db.history.list db'.history.list
  loadReports : List.Forall₂ (RowResealed c reportColumn old new) db.loadReports.list db'.loadReports.list

section Database
variable {c : Aead} {old new : Key} {nonce : PayloadTable → Int → Bytes} {db db' : Payloads}

theorem tableReadable_of_resealed {α : Type} {column : PayloadColumn α} {m m' : NumberedRows α}
    (h : List.Forall₂ (RowResealed c column old new) m.list m'.list) : TableReadable c column old m := by
  intro n hn
  obtain ⟨i, hi, rfl⟩ := List.getElem_of_mem hn
  have hi' : i < m'.list.length := h.length_eq ▸ hi
  exact (h.get hi hi').reads.1

theorem Resealed.readable (h : Resealed c old new db db') : Readable c old db where
  objects := tableReadable_of_resealed h.objects
  secrets := tableReadable_of_resealed h.secrets
  blobs := tableReadable_of_resealed h.blobs
  history := tableReadable_of_resealed h.history
  loadReports := tableReadable_of_resealed h.loadReports

theorem resealAll_ok (hkeys : old ≠ new) (h : resealAll c old new nonce db = .ok db') : Resealed c old new db db' := by
  unfold resealAll at h
  obtain ⟨objects, hobjects, h⟩ := bind_eq_ok.1 h
  obtain ⟨secrets, hsecrets, h⟩ := bind_eq_ok.1 h
  obtain ⟨blobs, hblobs, h⟩ := bind_eq_ok.1 h
  obtain ⟨history, hhistory, h⟩ := bind_eq_ok.1 h
  obtain ⟨loadReports, hreports, h⟩ := bind_eq_ok.1 h
  obtain rfl := Except.ok.inj h
  exact ⟨resealTable_ok hkeys hobjects, resealTable_ok hkeys hsecrets, resealTable_ok hkeys hblobs,
    resealTable_ok hkeys hhistory, resealTable_ok hkeys hreports⟩

theorem not_tableReadable {α : Type} {column : PayloadColumn α} {m : NumberedRows α} {nonce : Int → Bytes} {e : StoreError}
    (h : resealTable c column old new nonce m = .error e) : e = .integrity ∧ ¬TableReadable c column old m := by
  obtain ⟨rfl, n, hn, hnone⟩ := resealTable_error h
  exact ⟨rfl, fun hread => by simpa [hnone] using hread n hn⟩

theorem resealAll_error {e : StoreError} (h : resealAll c old new nonce db = .error e) :
    e = .integrity ∧ ¬Readable c old db := by
  unfold resealAll at h
  rcases bind_eq_error.1 h with h | ⟨objects, -, h⟩
  · exact (not_tableReadable h).imp_right fun hn hr => hn hr.objects
  rcases bind_eq_error.1 h with h | ⟨secrets, -, h⟩
  · exact (not_tableReadable h).imp_right fun hn hr => hn hr.secrets
  rcases bind_eq_error.1 h with h | ⟨blobs, -, h⟩
  · exact (not_tableReadable h).imp_right fun hn hr => hn hr.blobs
  rcases bind_eq_error.1 h with h | ⟨history, -, h⟩
  · exact (not_tableReadable h).imp_right fun hn hr => hn hr.history
  rcases bind_eq_error.1 h with h | ⟨loadReports, -, h⟩
  · exact (not_tableReadable h).imp_right fun hn hr => hn hr.loadReports
  cases h

/-- **Rotation rewrites every payload and nothing else**: where it ends well, each row of the five tables keeps its number
and its other columns, and its payload opens under the new key with the data and the plaintext it had under the old one,
which opens it no more. It ends well where every payload opens, and else its transaction changes nothing. -/
theorem resealAll_exact (c : Aead) {old new : Key} (hkeys : old ≠ new) (nonce : PayloadTable → Int → Bytes) (db : Payloads) :
    (∀ db', resealAll c old new nonce db = .ok db' → Resealed c old new db db') ∧
      (Readable c old db → ∃ db', resealAll c old new nonce db = .ok db') ∧
      (¬Readable c old db → resealAll c old new nonce db = .error .integrity ∧
        ∀ publish, rotatePayloads c publish old new nonce db = (.error .integrity, db)) := by
  refine ⟨fun db' h => resealAll_ok hkeys h, fun hread => ?_, fun hread => ?_⟩
  · cases h : resealAll c old new nonce db with
    | ok db' => exact ⟨db', rfl⟩
    | error e => exact absurd hread (resealAll_error h).2
  · have herror : resealAll c old new nonce db = .error .integrity := by
      cases h : resealAll c old new nonce db with
      | ok db' => exact absurd (resealAll_ok hkeys h).readable hread
      | error e => rw [(resealAll_error h).1]
    refine ⟨herror, fun publish => ?_⟩
    unfold rotatePayloads
    rw [herror]

end Database

/-! ## A profile of rows in both forms -/

def zeroKey : Key := ⟨List.replicate 32 0, by decide⟩

def oneKey : Key := ⟨List.replicate 32 1, by decide⟩

/-- A plaintext under the old key. -/
def sealedAs (data : Text) : Bytes := framedAead.sealWith zeroKey [] (encodeUtf8 data) [7]

/-- In each table with two forms, a row that no schema step has sealed again, and one that is sealed as now. -/
def mixedRows : Payloads where
  objects := ⟨[⟨1, ⟨"request".toList, ['q'], some ['w'], none, 0, 5, sealedAs (aad objectsTable "request".toList ['q'])⟩⟩,
    ⟨2, ⟨revisionKind, ['r'], some ['w'], some ['q'], 0, 5, sealedAs (aad objectsTable revisionKind ['r'])⟩⟩,
    ⟨4, ⟨revisionKind, ['v'], some ['w'], some ['q'], 0, 6, sealedAs (revisionAad ['v'])⟩⟩], by decide⟩
  secrets := ⟨[⟨3, ⟨['s'], some ['w'], 5, sealedAs (aad secretsTable "secret".toList ['s'])⟩⟩,
    ⟨5, ⟨['t'], none, 5, sealedAs (secretAad ['t'] none)⟩⟩], by decide⟩
  blobs := ⟨[⟨1, ⟨['b'], 1, 5, sealedAs (aad "blobs".toList "blob".toList ['b'])⟩⟩], by decide⟩
  history := ⟨[⟨1, ⟨['h'], some ['w'], some ['q'], 5, 1, some ['b'], sealedAs (aad "history".toList "record".toList ['h'])⟩⟩,
    ⟨2, ⟨['i'], some ['w'], some ['q'], 6, 1, some ['b'], sealedAs (historyAad ['i'] (some ['b']))⟩⟩], by decide⟩
  loadReports := ⟨[⟨1, ⟨['l'], none, 5, sealedAs (aad "load_reports".toList "report".toList ['l'])⟩⟩], by decide⟩

theorem readable_mixedRows : Readable framedAead zeroKey mixedRows := by
  constructor
  all_goals
    unfold TableReadable
    decide

theorem resealAll_exact_mixedRows :
    zeroKey ≠ oneKey ∧ Readable framedAead zeroKey mixedRows ∧
      ∃ db', resealAll framedAead zeroKey oneKey (fun _ _ => []) mixedRows = .ok db' ∧
        Resealed framedAead zeroKey oneKey mixedRows db' := by
  have hkeys : zeroKey ≠ oneKey := by decide
  have hexact := resealAll_exact framedAead hkeys (fun _ _ => []) mixedRows
  obtain ⟨db', hdb⟩ := hexact.2.1 readable_mixedRows
  exact ⟨hkeys, readable_mixedRows, db', hdb, hexact.1 db' hdb⟩

end Anvil.Store
