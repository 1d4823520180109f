import Anvil.Lib.Action
import Anvil.Store.Handle

/-!
# What the operations of a transaction keep

* `get?_capture` : the entry that the stored rows have under a name;
* `Tracks` : the transaction sees, for every name, the entry of the stored row;
* `Moves` : an operation leaves the catalogue table and the authority's rows of `meta` alone, starts from the same
  catalogue, and keeps `Tracks`;
* `runProg_moves` : so does every closure, however its operations end.
-/

namespace Anvil.Store
open Anvil.Lib Anvil.Storage

variable {P B : Type} [DecidableEq P] {h : Hashes P B} {env : StoreEnv}

/-! ## The entries of the stored rows -/

omit [DecidableEq P] in
theorem mem_capture {db : Db P} {e : Entry P} :
    e ∈ (capture h db).list ↔ (∃ r ∈ db.objects.list, r.entry h = e) ∨ ∃ r ∈ db.secrets.list, r.entry h = e := by
  unfold capture
  rw [List.mem_append, List.mem_map, List.mem_map]

omit [DecidableEq P] in
/-- The entry that the stored rows have under a name. -/
theorem get?_capture (db : Db P) (n : Name) :
    (capture h db).get? n =
      if n.table = objectsTable then (db.objects.get? (n.kind, n.id)).map (ObjectRow.entry h)
      else if n.table = secretsTable ∧ n.kind = [] then (db.secrets.get? n.id).map (SecretRow.entry h) else none := by
  have hne : secretsTable ≠ objectsTable := by decide
  apply Option.ext
  intro e
  rw [Rows.get?_eq_some, mem_capture]
  obtain ⟨table, kind, id⟩ := n
  split_ifs with ho hs
  · simp only [Option.map_eq_some_iff, Rows.get?_eq_some]
    constructor
    · rintro ⟨⟨r, hr, rfl⟩ | ⟨r, hr, rfl⟩, hname⟩
      · simp only [ObjectRow.entry, Entry.name_ordered, Hashes.entry_name, Name.mk.injEq] at hname
        exact ⟨r, ⟨hr, Prod.ext hname.2.1 hname.2.2⟩, rfl⟩
      · simp only [SecretRow.entry, Entry.name_ordered, Hashes.entry_name, Name.mk.injEq] at hname
        exact absurd (hname.1.trans ho) hne
    · rintro ⟨r, ⟨hr, hk⟩, rfl⟩
      refine ⟨.inl ⟨r, hr, rfl⟩, ?_⟩
      simp only [ObjectRow.key, Prod.mk.injEq] at hk
      simp only [ObjectRow.entry, Entry.name_ordered, Hashes.entry_name, hk]
      exact congrArg (fun t => (⟨t, kind, id⟩ : Name)) ho.symm
  · simp only [Option.map_eq_some_iff, Rows.get?_eq_some]
    constructor
    · rintro ⟨⟨r, hr, rfl⟩ | ⟨r, hr, rfl⟩, hname⟩
      · simp only [ObjectRow.entry, Entry.name_ordered, Hashes.entry_name, Name.mk.injEq] at hname
        exact absurd hname.1.symm ho
      · simp only [SecretRow.entry, Entry.name_ordered, Hashes.entry_name, Name.mk.injEq] at hname
        exact ⟨r, ⟨hr, hname.2.2⟩, rfl⟩
    · rintro ⟨r, ⟨hr, rfl⟩, rfl⟩
      refine ⟨.inr ⟨r, hr, rfl⟩, ?_⟩
      simp only at hs
      simp only [SecretRow.entry, Entry.name_ordered, Hashes.entry_name, hs]
  · constructor
    · rintro ⟨⟨r, hr, rfl⟩ | ⟨r, hr, rfl⟩, hname⟩
      · simp only [ObjectRow.entry, Entry.name_ordered, Hashes.entry_name, Name.mk.injEq] at hname
        exact absurd hname.1.symm ho
      · simp only [SecretRow.entry, Entry.name_ordered, Hashes.entry_name, Name.mk.injEq] at hname
        exact absurd ⟨hname.1.symm, hname.2.1.symm⟩ hs
    · intro he
      simp at he

omit [DecidableEq P] in
theorem get?_capture_putObject (db : Db P) (r : ObjectRow) (n : Name) :
    (capture h { db with objects := db.objects.put r }).get? n =
      if n = (r.entry h).name then some (r.entry h) else (capture h db).get? n := by
  rw [get?_capture, get?_capture]
  obtain ⟨table, kind, id⟩ := n
  simp only [Rows.get?_put, ObjectRow.entry, Entry.name_ordered, Hashes.entry_name, Name.mk.injEq, ObjectRow.key,
    Prod.mk.injEq]
  split_ifs <;> simp_all [ObjectRow.entry]

omit [DecidableEq P] in
theorem get?_capture_removeObject (db : Db P) (kind id : Text) (n : Name) :
    (capture h { db with objects := db.objects.remove (kind, id) }).get? n =
      if n = objectName kind id then none else (capture h db).get? n := by
  rw [get?_capture, get?_capture]
  obtain ⟨table, kind', id'⟩ := n
  simp only [Rows.get?_remove, objectName, Name.mk.injEq, Prod.mk.injEq]
  split_ifs <;> simp_all

omit [DecidableEq P] in
theorem get?_capture_putSecret (db : Db P) (r : SecretRow) (n : Name) :
    (capture h { db with secrets := db.secrets.put r }).get? n =
      if n = (r.entry h).name then some (r.entry h) else (capture h db).get? n := by
  have hne : secretsTable ≠ objectsTable := by decide
  rw [get?_capture, get?_capture]
  obtain ⟨table, kind, id⟩ := n
  simp only [Rows.get?_put, SecretRow.entry, Entry.name_ordered, Hashes.entry_name, Name.mk.injEq]
  split_ifs <;> simp_all [SecretRow.entry]

omit [DecidableEq P] in
theorem get?_capture_removeSecret (db : Db P) (id : Text) (n : Name) :
    (capture h { db with secrets := db.secrets.remove id }).get? n =
      if n = secretName id then none else (capture h db).get? n := by
  have hne : secretsTable ≠ objectsTable := by decide
  rw [get?_capture, get?_capture]
  obtain ⟨table, kind, id'⟩ := n
  simp only [Rows.get?_remove, secretName, Name.mk.injEq]
  split_ifs <;> simp_all

omit [DecidableEq P] in
theorem ofWorkspace_object (ws : Text) (r : ObjectRow) :
    Manifest.ofWorkspace ws (r.entry h) = true ↔
      (r.owner = some ws ∧ r.kind ≠ revisionKind) ∨ (r.kind = workspaceKind ∧ r.id = ws) := by
  have hne : objectsTable ≠ secretsTable := by decide
  unfold Manifest.ofWorkspace
  simp only [Bool.or_eq_true, Bool.and_eq_true, decide_eq_true_eq]
  constructor
  · rintro (⟨-, hw⟩ | ⟨ht, -⟩)
    · exact hw
    · exact absurd ht hne
  · exact fun hw => .inl ⟨rfl, hw⟩

omit [DecidableEq P] in
theorem ofWorkspace_secret (ws : Text) (r : SecretRow) : Manifest.ofWorkspace ws (r.entry h) = true ↔ r.owner = some ws := by
  have hne : secretsTable ≠ objectsTable := by decide
  unfold Manifest.ofWorkspace
  simp only [Bool.or_eq_true, Bool.and_eq_true, decide_eq_true_eq]
  constructor
  · rintro (⟨ht, -⟩ | ⟨-, hw⟩)
    · exact absurd ht hne
    · exact hw
  · exact fun hw => .inr ⟨rfl, hw⟩

omit [DecidableEq P] in
/-- The bulk removal of a workspace's rows takes the entries that `removeWorkspace` takes. -/
theorem get?_capture_withoutWorkspace (db : Db P) (ws : Text) (n : Name) :
    (capture h (db.withoutWorkspace ws)).get? n = ((capture h db).get? n).filter fun e => !Manifest.ofWorkspace ws e := by
  rw [get?_capture, get?_capture]
  unfold Db.withoutWorkspace
  simp only [Rows.get?_keep]
  split_ifs with ho hs
  · cases db.objects.get? (n.kind, n.id) with
    | none => rfl
    | some r =>
      have hof := ofWorkspace_object (h := h) ws r
      rw [Option.map_some, Option.filter_some, Option.filter_some]
      by_cases hown : r.owner = some ws ∧ r.kind ≠ revisionKind
      · simp [hof.2 (.inl hown), hown]
      · by_cases hws : r.kind = workspaceKind ∧ r.id = ws
        · simp [hof.2 (.inr hws), hws]
        · have hno : Manifest.ofWorkspace ws (r.entry h) = false := by
            rw [← Bool.not_eq_true, hof]
            exact fun hc => hc.elim hown hws
          have hown' : (!(decide (r.owner = some ws) && decide (r.kind ≠ revisionKind))) = true := by
            simpa [imp_iff_not_or] using hown
          have hws' : (!(decide (r.kind = workspaceKind) && decide (r.id = ws))) = true := by
            simpa [← not_and_or] using hws
          rw [if_pos hown', Option.filter_some, if_pos hws', hno]
          rfl
  · cases db.secrets.get? n.id with
    | none => rfl
    | some r =>
      have hof := ofWorkspace_secret (h := h) ws r
      rw [Option.map_some, Option.filter_some, Option.filter_some]
      by_cases hown : r.owner = some ws
      · simp [hof.2 hown, hown]
      · have hno : Manifest.ofWorkspace ws (r.entry h) = false := by
          rw [← Bool.not_eq_true, hof]
          exact hown
        simp [hno, hown]
  · rfl

/-! ## Operations -/

/-- The keys of `meta` that notes and pins do not have. -/
def Reserved (k : Text) : Prop := (∀ name, k ≠ noteKey name) ∧ ∀ id, k ≠ pinKey id

/-- The transaction sees the entry of every stored row, and no other. -/
def Tracks (tx : Tx h) : Prop := ∀ m, tx.manifest = some m → ∀ n, m.get n = (capture h tx.db).get? n

/-- The entry of an object or a secret. -/
def Entry.Protected (e : Entry P) : Prop := e.table = objectsTable ∨ e.table = secretsTable

/-- The changed entries are of protected tables. -/
def Manifest.Proper (m : Manifest h) : Prop := ∀ c ∈ m.changes.list, ∀ e, c.value = some e → e.Protected

/-- What a manifest began with. -/
def Manifest.start (m : Manifest h) : Catalogue h × String × Nat := (m.base, m.root, m.dataVersion)

/-- What an operation leaves alone. -/
structure Moves (tx tx' : Tx h) : Prop where
  catalogue : tx'.db.catalogue = tx.db.catalogue
  metas : ∀ k, Reserved k → tx'.db.metas.get? k = tx.db.metas.get? k
  started : tx'.manifest.map Manifest.start = tx.manifest.map Manifest.start
  proper : (∀ m ∈ tx.manifest, m.Proper) → ∀ m ∈ tx'.manifest, m.Proper
  tracks : Tracks tx → Tracks tx'

theorem Moves.refl (tx : Tx h) : Moves tx tx := ⟨rfl, fun _ _ => rfl, rfl, id, id⟩

theorem Moves.trans {a b c : Tx h} (hab : Moves a b) (hbc : Moves b c) : Moves a c where
  catalogue := hbc.catalogue.trans hab.catalogue
  metas := fun k hk => (hbc.metas k hk).trans (hab.metas k hk)
  started := hbc.started.trans hab.started
  proper := hbc.proper ∘ hab.proper
  tracks := hbc.tracks ∘ hab.tracks

/-- However the action ends, it `Moves`. -/
def Keeps {α : Type} (m : TxM h α) : Prop := ∀ tx, Ensures m tx (fun _ => Moves tx) (Moves tx)

variable {α β : Type}

theorem keeps_pure (a : α) : Keeps (pure a : TxM h α) := fun tx => Moves.refl tx

theorem Keeps.bind {m : TxM h α} {f : α → TxM h β} (hm : Keeps m) (hf : ∀ a, Keeps (f a)) : Keeps (m >>= f) := by
  intro tx
  rw [ensures_bind]
  refine (hm tx).imp ?_ fun _ => id
  intro a tx' hmove
  exact (hf a tx').imp (fun _ _ => hmove.trans) fun _ => hmove.trans

theorem Keeps.map {m : TxM h α} (hm : Keeps m) (f : α → β) : Keeps (f <$> m) :=
  hm.bind fun a => keeps_pure (f a)

theorem keeps_read (f : Tx h → Except StoreError α) : Keeps (read f) := by
  intro tx
  have hcheck : Ensures (check (f tx) : TxM h α) tx (fun _ => Moves tx) (Moves tx) :=
    ensures_check.2 ⟨fun _ _ => Moves.refl tx, fun _ _ => Moves.refl tx⟩
  exact hcheck

theorem keeps_holdKey : Keeps (holdKey : TxM h Unit) := by
  intro tx
  unfold Ensures holdKey
  split
  · next heq =>
    split at heq
    · cases heq
    · cases heq
      exact ⟨rfl, fun _ _ => rfl, rfl, id, id⟩
    · cases heq
      exact Moves.refl tx
  · next heq =>
    split at heq
    · cases heq
      exact Moves.refl tx
    · cases heq
    · cases heq

theorem keeps_reading (f : Tx h → Except StoreError α) : Keeps (reading f) := keeps_holdKey.bind fun _ => keeps_read f

/-- A change of the database that protected records and their authority do not see. -/
structure Aside (db db' : Db P) : Prop where
  objects : db'.objects = db.objects
  secrets : db'.secrets = db.secrets
  catalogue : db'.catalogue = db.catalogue
  metas : ∀ k, Reserved k → db'.metas.get? k = db.metas.get? k

omit [DecidableEq P] in
theorem Aside.refl (db : Db P) : Aside db db := ⟨rfl, rfl, rfl, fun _ _ => rfl⟩

omit [DecidableEq P] in
theorem Aside.trans {a b c : Db P} (hab : Aside a b) (hbc : Aside b c) : Aside a c where
  objects := hbc.objects.trans hab.objects
  secrets := hbc.secrets.trans hab.secrets
  catalogue := hbc.catalogue.trans hab.catalogue
  metas := fun k hk => (hbc.metas k hk).trans (hab.metas k hk)

omit [DecidableEq P] in
theorem Aside.capture {db db' : Db P} (ha : Aside db db') (n : Name) : (capture h db').get? n = (capture h db).get? n := by
  rw [get?_capture, get?_capture, ha.objects, ha.secrets]

theorem keeps_aside {f : Db P → Db P} (hf : ∀ db, Aside db (f db)) : Keeps (modifyDb f : TxM h Unit) := by
  intro tx
  have hmodify : Moves tx { tx with db := f tx.db } := by
    refine ⟨(hf tx.db).catalogue, (hf tx.db).metas, rfl, id, ?_⟩
    intro ht m hm n
    rw [ht m hm n]
    exact ((hf tx.db).capture n).symm
  exact hmodify

omit [DecidableEq P] in
theorem aside_metas {db : Db P} {metas : Rows MetaRow.key} (hm : ∀ k, Reserved k → metas.get? k = db.metas.get? k) :
    Aside db { db with metas := metas } := ⟨rfl, rfl, rfl, hm⟩

omit [DecidableEq P] in
theorem aside_blobs (db : Db P) (blobs : Rows BlobRow.id) : Aside db { db with blobs := blobs } :=
  ⟨rfl, rfl, rfl, fun _ _ => rfl⟩

omit [DecidableEq P] in
theorem aside_history (db : Db P) (history : Rows HistoryRow.id) : Aside db { db with history := history } :=
  ⟨rfl, rfl, rfl, fun _ _ => rfl⟩

omit [DecidableEq P] in
theorem putBlobRow_aside (draw : Nat) (now : Int) (bytes : Bytes) (db : Db P) :
    Aside db (putBlobRow env draw now bytes db) := by
  unfold putBlobRow
  split_ifs with hb
  · exact Aside.refl db
  · exact aside_blobs db _

omit [DecidableEq P] in
theorem pinRow_aside (id : Text) (db : Db P) : Aside db (pinRow id db) := by
  unfold pinRow
  split_ifs with hp
  · exact Aside.refl db
  · apply aside_metas
    intro k hk
    rw [Rows.get?_put, if_neg (hk.2 id)]

omit [DecidableEq P] in
theorem releaseRow_aside (id : Text) (db : Db P) : Aside db (releaseRow id db) := by
  refine ⟨rfl, rfl, rfl, ?_⟩
  intro k hk
  unfold releaseRow
  rw [Rows.get?_remove, if_neg (hk.2 id)]

omit [DecidableEq P] in
theorem dropReplaced_aside (replaced : Option Text) (db : Db P) : Aside db (dropReplaced replaced db) := by
  unfold dropReplaced
  cases replaced with
  | none => exact Aside.refl db
  | some old =>
    rw [Option.elim_some]
    split_ifs with hu
    · exact Aside.refl db
    · exact aside_blobs db _

omit [DecidableEq P] in
theorem addHistoryRows_aside (draw : Nat) (now : Int) (id : Text) (ws request : Option Text) (startedAt : Int) (json : Bytes)
    (body : Option Bytes) (replaced : Option Text) (db : Db P) :
    Aside db (addHistoryRows env draw now id ws request startedAt json body replaced db) := by
  have hbody : ∀ kept : Option Bytes, Aside db (kept.elim db fun b => putBlobRow env draw now b db) := by
    intro kept
    cases kept with
    | none => exact Aside.refl db
    | some b => exact putBlobRow_aside draw now b db
  exact ((hbody _).trans (aside_history _ _)).trans (dropReplaced_aside replaced _)

/-! ## Writes of protected rows -/

/-- A change of the protected rows with the change of their entries. -/
structure Paired (f : Db P → Db P) (g : Manifest h → Manifest h) : Prop where
  catalogue : ∀ db, (f db).catalogue = db.catalogue
  metas : ∀ db, (f db).metas = db.metas
  start : ∀ m, (g m).start = m.start
  proper : ∀ m, m.Proper → (g m).Proper
  get : ∀ db m, (∀ n, m.get n = (capture h db).get? n) → ∀ n, (g m).get n = (capture h (f db)).get? n

theorem Paired.moves {f : Db P → Db P} {g : Manifest h → Manifest h} (hp : Paired f g) (tx : Tx h) :
    Moves tx { tx with db := f tx.db, manifest := tx.manifest.map g } := by
  refine ⟨hp.catalogue tx.db, ?_, ?_, ?_, ?_⟩
  · intro k _
    exact congrArg (fun m => m.get? k) (hp.metas tx.db)
  · rw [Option.map_map]
    exact congrArg (fun k => tx.manifest.map k) (funext hp.start)
  · intro hproper m hm
    obtain ⟨m₀, hm₀, rfl⟩ := Option.map_eq_some_iff.1 hm
    exact hp.proper m₀ (hproper m₀ hm₀)
  · intro ht m hm
    obtain ⟨m₀, hm₀, rfl⟩ := Option.map_eq_some_iff.1 hm
    exact hp.get tx.db m₀ (ht m₀ hm₀)

theorem Manifest.Proper.insert {m : Manifest h} (hm : m.Proper) {e : Entry P} (he : e.Protected) : (m.insert e).Proper := by
  intro c hc e' he'
  rcases Rows.mem_put.1 hc with ⟨hc, -⟩ | rfl
  · exact hm c hc e' he'
  · cases he'
    exact he

theorem Manifest.Proper.remove {m : Manifest h} (hm : m.Proper) (n : Name) : (m.remove n).Proper := by
  intro c hc e' he'
  rcases Rows.mem_put.1 hc with ⟨hc, -⟩ | rfl
  · exact hm c hc e' he'
  · cases he'

theorem Manifest.Proper.removeWorkspace {m : Manifest h} (hm : m.Proper) (ws : Text) : (m.removeWorkspace ws).Proper := by
  have hfold : ∀ (names : List Name) (m : Manifest h), m.Proper → (names.foldl Manifest.remove m).Proper := by
    intro names
    induction names with
    | nil => exact fun m hm => hm
    | cons n names ih => exact fun m hm => ih (m.remove n) (hm.remove n)
  exact hfold _ m hm

theorem removeWorkspace_start (ws : Text) (m : Manifest h) : (m.removeWorkspace ws).start = m.start := by
  have hfold : ∀ (names : List Name) (m : Manifest h), (names.foldl Manifest.remove m).start = m.start := by
    intro names
    induction names with
    | nil => exact fun m => rfl
    | cons n names ih => exact fun m => ih (m.remove n)
  exact hfold _ m

omit [DecidableEq P] in
theorem ordering_put (db : Db P) (r : ObjectRow) :
    ordering { db with objects := db.objects.put r } (objectName r.kind r.id) = some (r.sortKey, r.updatedAt) := by
  have htable : (objectName r.kind r.id).table = objectsTable := rfl
  have hkey : ((objectName r.kind r.id).kind, (objectName r.kind r.id).id) = r.key := rfl
  unfold ordering
  rw [if_pos htable, hkey, Rows.get?_put, if_pos rfl]
  rfl

omit [DecidableEq P] in
theorem ordering_putSecret (db : Db P) (r : SecretRow) :
    ordering { db with secrets := db.secrets.put r } (secretName r.id) = some (0, r.updatedAt) := by
  have hne : secretsTable ≠ objectsTable := by decide
  have htable : (secretName r.id).table ≠ objectsTable := hne
  have hkey : (secretName r.id).id = r.id := rfl
  unfold ordering
  rw [if_neg htable, hkey, Rows.get?_put, if_pos rfl]
  rfl

/-- `remember` after the row is written: the entry is the one of the stored row. -/
theorem ensures_remember {f : Db P → Db P} {e : Entry P} {o : UInt64 × Int} {tx : Tx h} {Q : Tx h → Prop} {E : Tx h → Prop}
    (ho : ordering (f tx.db) e.name = some o)
    (hq : Q { tx with db := f tx.db, manifest := tx.manifest.map fun m => m.insert (e.ordered o.1 o.2) }) :
    Ensures (do modifyDb f; remember e : TxM h Unit) tx (fun _ => Q) E := by
  unfold remember
  rw [ensures_bind]
  have hdb : Ensures (modifyDb f : TxM h Unit) tx (fun _ tx' => Ensures (do
      let o ← read fun tx => orIntegrity (ordering tx.db e.name)
      modifyManifest fun m => m.insert (e.ordered o.1 o.2) : TxM h Unit) tx' (fun _ => Q) E) E ↔ _ := ensures_modify
  rw [hdb, ensures_bind]
  have hread : (orIntegrity (ordering (f tx.db) e.name) : Except StoreError _) = .ok o := by rw [ho]; rfl
  have hr : Ensures (check (orIntegrity (ordering (f tx.db) e.name)) : TxM h (UInt64 × Int)) { tx with db := f tx.db }
      (fun o tx' => Ensures (modifyManifest fun m => m.insert (e.ordered o.1 o.2) : TxM h Unit) tx' (fun _ => Q) E) E := by
    rw [ensures_check, hread]
    refine ⟨?_, by simp⟩
    intro o' ho'
    cases ho'
    exact hq
  exact hr

theorem Paired.keeps {f : Db P → Db P} {g : Manifest h → Manifest h} (hp : Paired f g) :
    Keeps (do modifyDb f; modifyManifest g : TxM h Unit) := fun tx => hp.moves tx

theorem paired_putObject (r : ObjectRow) :
    Paired (fun db => { db with objects := db.objects.put r }) fun m : Manifest h => m.insert (r.entry h) := by
  refine ⟨fun _ => rfl, fun _ => rfl, fun _ => rfl, fun m hm => hm.insert (.inl rfl), ?_⟩
  intro db m hm n
  rw [Manifest.get_insert, get?_capture_putObject, hm]

theorem paired_removeObject (kind id : Text) :
    Paired (fun db => { db with objects := db.objects.remove (kind, id) })
      fun m : Manifest h => m.remove (objectName kind id) := by
  refine ⟨fun _ => rfl, fun _ => rfl, fun _ => rfl, fun m hm => hm.remove _, ?_⟩
  intro db m hm n
  rw [Manifest.get_remove, get?_capture_removeObject, hm]

theorem paired_putSecret (r : SecretRow) :
    Paired (fun db => { db with secrets := db.secrets.put r }) fun m : Manifest h => m.insert (r.entry h) := by
  refine ⟨fun _ => rfl, fun _ => rfl, fun _ => rfl, fun m hm => hm.insert (.inr rfl), ?_⟩
  intro db m hm n
  rw [Manifest.get_insert, get?_capture_putSecret, hm]

theorem paired_removeSecret (id : Text) :
    Paired (fun db => { db with secrets := db.secrets.remove id }) fun m : Manifest h => m.remove (secretName id) := by
  refine ⟨fun _ => rfl, fun _ => rfl, fun _ => rfl, fun m hm => hm.remove _, ?_⟩
  intro db m hm n
  rw [Manifest.get_remove, get?_capture_removeSecret, hm]

theorem paired_withoutWorkspace (ws : Text) :
    Paired (fun db => db.withoutWorkspace ws) fun m : Manifest h => m.removeWorkspace ws := by
  refine ⟨fun _ => rfl, fun _ => rfl, removeWorkspace_start ws, fun m hm => hm.removeWorkspace ws, ?_⟩
  intro db m hm n
  have hnames : ∀ n e, m.get n = some e → e.name = n := by
    intro n e he
    rw [hm] at he
    exact Rows.key_get? he
  rw [Manifest.get_removeWorkspace m hnames, get?_capture_withoutWorkspace, hm]

theorem keeps_storeObject (r : ObjectRow) :
    Keeps (do modifyDb fun db => { db with objects := db.objects.put r }
              remember (h.entry (objectName r.kind r.id) r.owner r.parent r.payload) : TxM h Unit) := by
  intro tx
  exact ensures_remember (o := (r.sortKey, r.updatedAt)) (ordering_put tx.db r) ((paired_putObject r).moves tx)

theorem keeps_storeSecret (r : SecretRow) :
    Keeps (do modifyDb fun db => { db with secrets := db.secrets.put r }
              remember (h.entry (secretName r.id) r.owner none r.payload) : TxM h Unit) := by
  intro tx
  exact ensures_remember (o := (0, r.updatedAt)) (ordering_putSecret tx.db r) ((paired_putSecret r).moves tx)

theorem keeps_put (draw : Nat) (now : Int) (kind id : Text) (owner parent : Option Text) (sortKey : UInt64) (json : Bytes) :
    Keeps (put env draw now kind id owner parent sortKey json : TxM h Unit) := by
  unfold put
  apply keeps_holdKey.bind
  intro _
  apply (keeps_read _).bind
  intro payload
  apply (keeps_read _).bind
  intro stored
  exact keeps_storeObject ⟨kind, id, owner, parent, stored, now, payload⟩

theorem keeps_delete (kind id : Text) : Keeps (delete kind id : TxM h Bool) := by
  unfold delete
  apply keeps_holdKey.bind
  intro _
  apply (keeps_read _).bind
  intro row
  rw [← bind_assoc]
  exact (paired_removeObject kind id).keeps.bind fun _ => keeps_pure _

theorem keeps_putSecret (draw : Nat) (now : Int) (id : Text) (owner : Option Text) (label value : Text) :
    Keeps (putSecret env draw now id owner label value : TxM h Unit) := by
  unfold putSecret
  apply keeps_holdKey.bind
  intro _
  exact keeps_storeSecret ⟨id, owner, now, env.sealBytes draw (secretAad id owner) (env.secretJson label value)⟩

theorem keeps_deleteSecret (id : Text) : Keeps (deleteSecret id : TxM h Unit) := by
  unfold deleteSecret
  apply keeps_holdKey.bind
  intro _
  apply (keeps_read _).bind
  intro _
  exact (paired_removeSecret id).keeps

theorem keeps_revisionsOf (ws : Text) : ∀ rows : List RowMeta, Keeps (revisionsOf env ws rows : TxM h (List Text))
  | [] => keeps_pure []
  | row :: rows => by
    unfold revisionsOf
    split
    · exact keeps_revisionsOf ws rows
    · apply keeps_holdKey.bind
      intro _
      apply (keeps_read _).bind
      intro found
      exact (keeps_revisionsOf ws rows).bind fun _ => keeps_pure _

theorem keeps_deleteRevisions : ∀ ids : List Text, Keeps (deleteRevisions ids : TxM h Unit)
  | [] => keeps_pure ()
  | id :: ids => (keeps_delete revisionKind id).bind fun _ => keeps_deleteRevisions ids

theorem keeps_checkEnrolled : Keeps (checkEnrolled : TxM h Unit) := by
  have hwhole : Keeps (checkWhole : TxM h Unit) := by
    unfold checkWhole
    apply keeps_holdKey.bind
    intro _
    apply (keeps_read _).bind
    intro _
    apply keeps_holdKey.bind
    intro _
    exact (keeps_read _).bind fun _ => keeps_pure ()
  unfold checkEnrolled
  apply (keeps_read _).bind
  intro enrolled
  split_ifs with he
  · exact hwhole
  · exact keeps_pure ()

theorem keeps_deleteWorkspace (ws : Text) : Keeps (deleteWorkspace env ws : TxM h Unit) := by
  unfold deleteWorkspace
  apply keeps_holdKey.bind
  intro _
  apply keeps_holdKey.bind
  intro _
  apply (keeps_read _).bind
  intro rows
  apply (keeps_revisionsOf ws rows).bind
  intro ids
  apply (keeps_deleteRevisions ids).bind
  intro _
  apply keeps_checkEnrolled.bind
  intro _
  exact (paired_withoutWorkspace ws).keeps

theorem keeps_addHistory (draw : Nat) (now : Int) (id : Text) (ws request : Option Text) (startedAt : Int) (json : Bytes)
    (body : Option Bytes) : Keeps (addHistory env draw now id ws request startedAt json body : TxM h Unit) := by
  unfold addHistory
  apply keeps_holdKey.bind
  intro _
  apply (keeps_read _).bind
  intro _
  apply (keeps_read _).bind
  intro replaced
  exact keeps_aside (addHistoryRows_aside draw now id ws request startedAt json body replaced)

theorem keeps_putNote (name value : Text) : Keeps (putNote name value : TxM h Unit) := by
  unfold putNote
  apply keeps_holdKey.bind
  intro _
  apply keeps_aside
  intro db
  apply aside_metas
  intro k hk
  rw [Rows.get?_put, if_neg (hk.1 name)]

/-- Every operation keeps the catalogue in step with the rows it writes. -/
theorem keeps_runOp : ∀ op : Op, Keeps (runOp env op : TxM h Answer)
  | .put draw now kind id owner parent sortKey json => (keeps_put draw now kind id owner parent sortKey json).map _
  | .get _ _ => (keeps_reading _).map _
  | .list _ _ => (keeps_reading _).map _
  | .objectMeta _ => (keeps_reading _).map _
  | .delete kind id => (keeps_delete kind id).map _
  | .deleteWorkspace ws => (keeps_deleteWorkspace ws).map _
  | .putSecret draw now id owner label value => (keeps_putSecret draw now id owner label value).map _
  | .getSecret _ => (keeps_reading _).map _
  | .getWorkspaceSecret _ _ => (keeps_reading _).map _
  | .secretOwners => (keeps_reading _).map _
  | .deleteSecret id => (keeps_deleteSecret id).map _
  | .addHistory draw now id ws request startedAt json body =>
    (keeps_addHistory draw now id ws request startedAt json body).map _
  | .getHistory _ => (keeps_reading _).map _
  | .putBlob draw now bytes => by
    have hput : Keeps (putBlob env draw now bytes : TxM h Text) :=
      keeps_holdKey.bind fun _ => (keeps_aside (putBlobRow_aside draw now bytes)).bind fun _ => keeps_pure _
    exact hput.map _
  | .pinBlob id => (keeps_holdKey.bind fun _ => keeps_aside (pinRow_aside id)).map _
  | .releaseBlob id => (keeps_holdKey.bind fun _ => keeps_aside (releaseRow_aside id)).map _
  | .getBlob _ => (keeps_reading _).map _
  | .putNote name value => (keeps_putNote name value).map _
  | .note _ => (keeps_reading _).map _

theorem attempted_moves {m : TxM h α} (hm : Keeps m) (tx : Tx h) : Moves tx (attempted m tx).2 := by
  have he := hm tx
  unfold Ensures at he
  unfold attempted
  cases hr : m tx with
  | ok a tx' =>
    rw [hr] at he
    exact he
  | error e tx' =>
    rw [hr] at he
    exact he

/-- A closure may go on after an operation that failed. -/
theorem runProg_moves : ∀ (f : Prog) (tx : Tx h), Moves tx (runProg env f tx).2
  | .done _, tx => Moves.refl tx
  | .step op next, tx => (attempted_moves (keeps_runOp op) tx).trans (runProg_moves (next _) _)

end Anvil.Store
