import Anvil.Lib.Digested
import Anvil.Lib.Run
import Anvil.Lib.Utf8

/-!
# The catalogue of protected records (`anvil-storage/src/manifest.rs`)

One entry for each protected object and vault secret. The hash function is a parameter (`Hashes`): the digest of a
payload, the bucket of a name, the digest of a bucket over its entries (which are taken in the order of their names,
so it is one over their set) and the root over the bucket digests.

* `Entry`, `Catalogue` : the entries with the digests of their buckets, which agree with them;
* `Manifest` : a transaction's view, the catalogue it began with and the entries it changed;
* `Manifest.get`, `Manifest.view`, `get?_view` : what the transaction sees;
* `Manifest.check`, `Manifest.checkMetadata`, `Manifest.checkIndex` : a stored row against the view.
-/

namespace Anvil.Store
open Anvil.Lib

abbrev Bytes := List UInt8

/-- `StoreError`, of the operations here. -/
inductive StoreError
  | integrity
  | locked
  | ownership
  | notFound (what : String)
  | staleAuthority
  | policyEnrollmentRequired
  /-- The database refuses a statement. -/
  | database
deriving DecidableEq

/-- The name of an entry; the source writes it as a JSON array, whose first members are what `view` selects by. -/
structure Name where
  table : Text
  kind : Text
  id : Text
deriving DecidableEq

def objectsTable : Text := "objects".toList

def secretsTable : Text := "secrets".toList

/-- `Entry`; the digest of the payload is in `P`, the sort key is its bits. -/
structure Entry (P : Type) where
  table : Text
  kind : Text
  id : Text
  owner : Option Text
  parent : Option Text
  digest : P
  sortBits : UInt64
  updatedAt : Int
deriving DecidableEq

namespace Entry
variable {P : Type}

def name (e : Entry P) : Name := ⟨e.table, e.kind, e.id⟩

def ordered (e : Entry P) (sortBits : UInt64) (updatedAt : Int) : Entry P :=
  { e with sortBits := sortBits, updatedAt := updatedAt }

@[simp] theorem name_ordered (e : Entry P) (s : UInt64) (u : Int) : (e.ordered s u).name = e.name := rfl

end Entry

def buckets : Nat := 1024

/-- SHA-256 where the catalogue uses it. -/
structure Hashes (P B : Type) where
  sha : Bytes → P
  bucket : Name → Fin buckets
  bucketDigest : Fin buckets → Finset (Entry P) → B
  rootDigest : (Fin buckets → B) → String

variable {P B : Type}

/-- `Entry::new`. -/
def Hashes.entry (h : Hashes P B) (name : Name) (owner parent : Option Text) (payload : Bytes) : Entry P where
  table := name.table
  kind := name.kind
  id := name.id
  owner := owner
  parent := parent
  digest := h.sha payload
  sortBits := 0
  updatedAt := 0

@[simp] theorem Hashes.entry_name (h : Hashes P B) (name : Name) (owner parent : Option Text) (payload : Bytes) :
    (h.entry name owner parent payload).name = name := rfl

variable [DecidableEq P]

abbrev Entries (P : Type) := Rows (@Entry.name P)

abbrev EntryChanges (P : Type) := Changes (@Entry.name P)

/-- The entries, the names of each bucket and the bucket digests. -/
abbrev Catalogue (h : Hashes P B) := Digested (@Entry.name P) h.bucket h.bucketDigest

namespace Catalogue
variable {h : Hashes P B}

def fromEntries (h : Hashes P B) (entries : Entries P) : Catalogue h := Digested.ofRows entries

def root (c : Catalogue h) : String := h.rootDigest c.digests

end Catalogue

/-- The root of some entries. -/
def Hashes.rootOf (h : Hashes P B) (entries : Entries P) : String := (Catalogue.fromEntries h entries).root

/-- Also a root that was kept up to date is the root of the entries. -/
theorem Catalogue.root_eq {h : Hashes P B} (c : Catalogue h) : c.root = h.rootOf c.entries :=
  congrArg h.rootDigest (Digested.digests_of_same (Rows.Same.refl _))

theorem Hashes.rootOf_same {h : Hashes P B} {m m' : Entries P} (hs : m.Same m') : h.rootOf m = h.rootOf m' := by
  unfold rootOf Catalogue.root
  have hdigests : (Catalogue.fromEntries h m).digests = (Catalogue.fromEntries h m').digests := Digested.digests_of_same hs
  rw [hdigests]

/-! ## One transaction's view -/

structure Manifest (h : Hashes P B) where
  base : Catalogue h
  changes : EntryChanges P
  root : String
  dataVersion : Nat
  reverify : Bool

namespace Manifest
variable {h : Hashes P B}

/-- `Manifest::new`. -/
def begin (base : Catalogue h) (root : String) (dataVersion : Nat) : Manifest h :=
  ⟨base, Rows.empty, root, dataVersion, false⟩

def dirty (m : Manifest h) : Bool := !m.changes.list.isEmpty || m.reverify

/-- The entries of the base under the changes. -/
def merged (m : Manifest h) : Entries P := m.base.entries.patchAll m.changes

def get (m : Manifest h) (name : Name) : Option (Entry P) :=
  match m.changes.get? name with
  | some c => c.value
  | none => m.base.entries.get? name

def change (m : Manifest h) (c : Change (@Entry.name P)) : Manifest h := { m with changes := m.changes.put c }

def insert (m : Manifest h) (e : Entry P) : Manifest h := m.change ⟨e.name, some e, by simp⟩

def remove (m : Manifest h) (name : Name) : Manifest h := m.change ⟨name, none, by simp⟩

/-- The names of a table, and of a kind where one is given. -/
def selects (table : Text) (kind : Option Text) (n : Name) : Bool := n.table = table && kind.all fun k => n.kind = k

/-- The entries of a table (and kind) as the transaction sees them. -/
def view (m : Manifest h) (table : Text) (kind : Option Text) : Entries P :=
  (m.base.entries.keep fun e => selects table kind e.name).patchAll (m.changes.keep fun c => selects table kind c.name)

/-- The entries that a workspace's deletion removes. -/
def ofWorkspace (ws : Text) (e : Entry P) : Bool :=
  (e.table = objectsTable && ((e.owner = some ws && e.kind ≠ "revision".toList) ||
    (e.kind = "workspace".toList && e.id = ws))) ||
    (e.table = secretsTable && e.owner = some ws)

def removeWorkspace (m : Manifest h) (ws : Text) : Manifest h :=
  let gone := ((m.view objectsTable none).list.filter (ofWorkspace ws)).map Entry.name ++
    ((m.view secretsTable none).list.filter (ofWorkspace ws)).map Entry.name
  { gone.foldl remove m with reverify := true }

theorem get_eq (m : Manifest h) (n : Name) : m.get n = m.merged.get? n := by
  unfold get merged
  rw [Rows.get?_patchAll]
  cases m.changes.get? n with
  | none => rfl
  | some c => rfl

theorem get_change (m : Manifest h) (c : Change (@Entry.name P)) (n : Name) :
    (m.change c).get n = if n = c.name then c.value else m.get n := by
  unfold get change
  rw [Rows.get?_put]
  by_cases hn : n = c.name
  · simp [hn]
  · simp [hn]

@[simp] theorem get_insert (m : Manifest h) (e : Entry P) (n : Name) :
    (m.insert e).get n = if n = e.name then some e else m.get n :=
  get_change m _ n

@[simp] theorem get_remove (m : Manifest h) (name n : Name) : (m.remove name).get n = if n = name then none else m.get n :=
  get_change m _ n

theorem get_foldl_remove (names : List Name) (m : Manifest h) (n : Name) :
    (names.foldl remove m).get n = if n ∈ names then none else m.get n := by
  induction names generalizing m with
  | nil => simp
  | cons k names ih =>
    rw [List.foldl_cons, ih, get_remove]
    by_cases hn : n ∈ names
    · simp [hn]
    · by_cases hk : n = k
      · simp [hk]
      · simp [hn, hk]

/-- The view is what the transaction sees of the table. -/
theorem get?_view (m : Manifest h) (table : Text) (kind : Option Text) (n : Name) :
    (m.view table kind).get? n = if selects table kind n then m.get n else none := by
  unfold view get
  rw [Rows.get?_patchAll, Rows.get?_keep, Rows.get?_keep]
  cases hc : m.changes.get? n with
  | none =>
    cases he : m.base.entries.get? n with
    | none => simp
    | some e =>
      have hn := Rows.key_get? he
      simp [Option.filter_some, hn]
  | some c =>
    have hn := Rows.key_get? hc
    cases hs : selects table kind n with
    | true => simp [Option.filter_some, hn, hs]
    | false =>
      cases he : m.base.entries.get? n with
      | none => simp [Option.filter_some, hn, hs]
      | some e =>
        have hn' := Rows.key_get? he
        simp [Option.filter_some, hn, hn', hs]

theorem mem_view {m : Manifest h} {table : Text} {kind : Option Text} {e : Entry P} :
    e ∈ (m.view table kind).list ↔ selects table kind e.name = true ∧ m.get e.name = some e := by
  have hmem : e ∈ (m.view table kind).list ↔ (m.view table kind).get? e.name = some e := by
    rw [Rows.get?_eq_some, and_iff_left rfl]
  rw [hmem, get?_view]
  cases selects table kind e.name with
  | true => simp
  | false => simp

/-- What a transaction sees after a workspace's deletion. -/
theorem get_removeWorkspace (m : Manifest h) (hnames : ∀ n e, m.get n = some e → e.name = n) (ws : Text) (n : Name) :
    (m.removeWorkspace ws).get n = (m.get n).filter fun e => !ofWorkspace ws e := by
  have hfold : (m.removeWorkspace ws).get n = (List.foldl remove m
      (((m.view objectsTable none).list.filter (ofWorkspace ws)).map Entry.name ++
        ((m.view secretsTable none).list.filter (ofWorkspace ws)).map Entry.name)).get n := rfl
  rw [hfold, get_foldl_remove]
  have hgone : n ∈ ((m.view objectsTable none).list.filter (ofWorkspace ws)).map Entry.name ++
        ((m.view secretsTable none).list.filter (ofWorkspace ws)).map Entry.name ↔
      ∃ e, m.get n = some e ∧ ofWorkspace ws e = true := by
    simp only [List.mem_append, List.mem_map, List.mem_filter, mem_view]
    constructor
    · rintro (⟨e, ⟨⟨-, he⟩, hw⟩, rfl⟩ | ⟨e, ⟨⟨-, he⟩, hw⟩, rfl⟩)
      · exact ⟨e, he, hw⟩
      · exact ⟨e, he, hw⟩
    · rintro ⟨e, he, hw⟩
      have hn := hnames n e he
      have htable : e.table = objectsTable ∨ e.table = secretsTable := by
        unfold ofWorkspace at hw
        simp only [Bool.or_eq_true, Bool.and_eq_true, decide_eq_true_eq] at hw
        exact hw.imp And.left And.left
      rw [← hn] at he
      rcases htable with ht | ht
      · exact .inl ⟨e, ⟨⟨by simp [selects, Entry.name, ht], he⟩, hw⟩, hn⟩
      · exact .inr ⟨e, ⟨⟨by simp [selects, Entry.name, ht], he⟩, hw⟩, hn⟩
  cases hg : m.get n with
  | none => simp
  | some e =>
    simp only [hg, Option.some.injEq, exists_eq_left'] at hgone
    by_cases hw : ofWorkspace ws e = true
    · rw [if_pos (hgone.2 hw)]
      simp [Option.filter_some, hw]
    · rw [if_neg fun hc => hw (hgone.1 hc)]
      simp [Option.filter_some, hw]

/-! ## Checks of a stored row -/

def checkMetadata (m : Manifest h) (name : Name) (row : Option (Option Text × Option Text))
    (ordering : Option (UInt64 × Int)) : Except StoreError Unit :=
  match m.get name, row with
  | none, none => .ok ()
  | some e, some (owner, parent) =>
    if e.owner = owner ∧ e.parent = parent ∧ ordering = some (e.sortBits, e.updatedAt) then .ok () else .error .integrity
  | _, _ => .error .integrity

def check (m : Manifest h) (name : Name) (row : Option (Option Text × Option Text × Bytes))
    (ordering : Option (UInt64 × Int)) : Except StoreError Unit :=
  match m.get name, row with
  | none, none => .ok ()
  | some e, some (owner, parent, payload) =>
    if ordering.any fun o => e = (h.entry name owner parent payload).ordered o.1 o.2 then .ok () else .error .integrity
  | _, _ => .error .integrity

/-- What an index has of a row: its name, owner and parent. -/
abbrev IndexRow := Name × Option Text × Option Text

def checkIndex (m : Manifest h) (table : Text) (kind owner : Option Text) (rows : List IndexRow) : Except StoreError Unit :=
  let expected := ((m.view table kind).list.filter fun e => owner.all fun w => e.owner = some w).map
    fun e => ((e.name, e.owner, e.parent) : IndexRow)
  if rows.toFinset = expected.toFinset then .ok () else .error .integrity

end Manifest

end Anvil.Store
