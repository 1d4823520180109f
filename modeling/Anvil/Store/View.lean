import Anvil.Store.Encoded

/-!
# What a transaction sees of a table (`anvil-storage/src/manifest.rs`, `Manifest`)

A transaction has the catalogue that it began with and the entries it changed. Its view of a table, or of a kind of
objects, is read off both by a scan over the encoded names from their common front on.

* `namePrefix`, `namePrefix_iff` : the front of the names of a table (and kind), which no other name has;
* `Manifest`, `Manifest.view`, `mem_view` : the scans, and exactly the entries that they find;
* `Manifest.checkIndex`, `index_exact` : when the rows of an index are accepted.
-/

namespace Anvil.Store.Encoded
open Anvil.Lib Anvil.Lib.Json

/-- `prefix`: the array of the first members, with a comma in place of its bracket. -/
def namePrefix (table : Text) (kind : Option Text) : Text :=
  (Json.array ((table :: kind.toList).map Json.string)).compact.dropLast ++ [',']

theorem namePrefix_none (table : Text) : namePrefix table none = '[' :: (quote table ++ [',']) := by
  have hdrop : ('[' :: quote table ++ [']']).dropLast = '[' :: quote table := List.dropLast_concat
  simp only [namePrefix, Option.toList_none, List.map_cons, List.map_nil, compact, compactItems, List.isEmpty_nil, if_true,
    List.append_nil]
  rw [hdrop]
  rfl

theorem namePrefix_some (table kind : Text) :
    namePrefix table (some kind) = '[' :: (quote table ++ ',' :: (quote kind ++ [','])) := by
  have hdrop : ('[' :: (quote table ++ ',' :: quote kind) ++ [']']).dropLast = '[' :: (quote table ++ ',' :: quote kind) :=
    List.dropLast_concat
  simp only [namePrefix, Option.toList_some, List.map_cons, List.map_nil, compact, compactItems, List.isEmpty_nil, if_true,
    List.append_nil, List.isEmpty_cons, Bool.false_eq_true, if_false]
  rw [hdrop]
  simp

/-- The names that start so are those of the table, and of the kind. -/
theorem namePrefix_iff {table kind id table' : Text} {kind' : Option Text} :
    namePrefix table' kind' <+: nameOf table kind id ↔ table = table' ∧ ∀ k, kind' = some k → kind = k := by
  rw [nameOf_eq]
  cases kind' with
  | none =>
    rw [namePrefix_none]
    constructor
    · rintro ⟨rest, he⟩
      simp only [List.cons_append, List.append_assoc] at he
      obtain ⟨htable, -⟩ := delimits_quote (List.cons.inj he).2
      exact ⟨htable.symm, fun k hk => absurd hk (by simp)⟩
    · rintro ⟨rfl, -⟩
      exact ⟨quote kind ++ ',' :: (quote id ++ [']']), by simp⟩
  | some kind' =>
    rw [namePrefix_some]
    constructor
    · rintro ⟨rest, he⟩
      simp only [List.cons_append, List.append_assoc] at he
      obtain ⟨htable, he⟩ := delimits_quote (List.cons.inj he).2
      obtain ⟨hkind, -⟩ := delimits_quote (List.cons.inj he).2
      exact ⟨htable.symm, fun k hk => hkind.symm.trans (Option.some.inj hk)⟩
    · rintro ⟨rfl, hkind⟩
      obtain rfl := hkind kind' rfl
      exact ⟨quote id ++ [']'], by simp⟩

/-! ## The view -/

/-- `Manifest`: every entry stands under its name, in the catalogue and in the changes. -/
structure Manifest where
  base : Encoded
  changes : EntryEdits
  base_named : Named base.entries
  changes_named : NamedEdits changes

namespace Manifest

/-- What the transaction sees. -/
def merged (m : Manifest) : EntryMap := m.base.entries.override m.changes

/-- The entries of a table (and kind) as the transaction sees them. -/
def view (m : Manifest) (table : Text) (kind : Option Text) : EntryMap :=
  (m.changes.scan (namePrefix table kind)).foldl Ordered.patch (Ordered.collect (m.base.entries.scan (namePrefix table kind)))

theorem merged_named (m : Manifest) : Named m.merged := named_override m.base_named m.changes_named

/-- The scans find what starts with the front, in the catalogue under the changes. -/
theorem get?_view (m : Manifest) (table : Text) (kind : Option Text) (n : Text) :
    (m.view table kind).get? n = if namePrefix table kind <+: n then m.merged.get? n else none := by
  have hbase : Ordered.collect (m.base.entries.scan (namePrefix table kind)) =
      m.base.entries.keep fun b => namePrefix table kind <+: b.1 := by
    rw [Ordered.scan_eq]
    exact Ordered.collect_list (m.base.entries.keep fun b => namePrefix table kind <+: b.1)
  have hchanges : ∀ base : EntryMap, (m.changes.scan (namePrefix table kind)).foldl Ordered.patch base =
      base.override (m.changes.keep fun b => namePrefix table kind <+: b.1) := by
    intro base
    rw [Ordered.scan_eq]
    rfl
  unfold view merged
  rw [hbase, hchanges, Ordered.get?_override, Ordered.get?_override,
    Ordered.get?_keep_key _ fun k => namePrefix table kind <+: k,
      Ordered.get?_keep_key _ fun k => namePrefix table kind <+: k]
  by_cases hp : namePrefix table kind <+: n
  · simp [hp]
  · simp [hp]

/-- **The view is exact.** -/
theorem mem_view {m : Manifest} {table : Text} {kind : Option Text} {b : Text × Entry Text} :
    b ∈ (m.view table kind).list ↔ b ∈ m.merged.list ∧ b.2.table = table ∧ ∀ k, kind = some k → b.2.kind = k := by
  obtain ⟨n, e⟩ := b
  rw [← Ordered.get?_eq_some, get?_view, ← Ordered.get?_eq_some]
  constructor
  · intro he
    split_ifs at he with hp
    have hn : n = e.nameText := m.merged_named _ (Ordered.get?_eq_some.1 he)
    rw [hn] at hp
    exact ⟨he, namePrefix_iff.1 hp⟩
  · rintro ⟨he, hsel⟩
    have hn : n = e.nameText := m.merged_named _ (Ordered.get?_eq_some.1 he)
    rw [if_pos]
    · exact he
    · rw [hn]
      exact namePrefix_iff.2 hsel

/-! ## The rows of an index -/

/-- What an index has of a row. -/
structure IndexRow where
  kind : Text
  id : Text
  owner : Option Text
  parent : Option Text
deriving DecidableEq

def checkIndex (m : Manifest) (table : Text) (kind owner : Option Text) (rows : List IndexRow) : Except StoreError Unit :=
  let actual : Ordered Text (Option Text × Option Text) :=
    Ordered.collect (rows.map fun r => (nameOf table r.kind r.id, r.owner, r.parent))
  let expected : Ordered Text (Option Text × Option Text) := Ordered.collect
    ((((m.view table kind).list.map Prod.snd).filter fun e => owner.all fun w => e.owner = some w).map
      fun e => (e.nameText, e.owner, e.parent))
  if actual.list = expected.list then .ok () else .error .integrity

/-- The row is due in the index of a table: it is that of an entry there, of the kind and the owner. -/
def Due (m : Manifest) (table : Text) (kind owner : Option Text) (r : IndexRow) : Prop :=
  ∃ e, (e.nameText, e) ∈ m.merged.list ∧ e.table = table ∧ (∀ k, kind = some k → e.kind = k) ∧
    (∀ w, owner = some w → e.owner = some w) ∧ r = ⟨e.kind, e.id, e.owner, e.parent⟩

def IndexRow.key (r : IndexRow) : Text × Text := (r.kind, r.id)

/-- The last row of its record. -/
def LastOf (rows : List IndexRow) (r : IndexRow) : Prop := rows.reverse.find? (fun q => q.key = r.key) = some r

theorem nameOf_eq_iff {table : Text} {r q : IndexRow} :
    nameOf table q.kind q.id = nameOf table r.kind r.id ↔ q.key = r.key := by
  unfold IndexRow.key
  rw [Prod.mk.injEq]
  constructor
  · exact fun he => (nameOf_injective he).2
  · rintro ⟨hkind, hid⟩
    rw [hkind, hid]

theorem get?_actual {table : Text} {rows : List IndexRow} {n : Text} {v : Option Text × Option Text} :
    (Ordered.collect (rows.map fun r => (nameOf table r.kind r.id, r.owner, r.parent))).get? n = some v ↔
      ∃ r, LastOf rows r ∧ n = nameOf table r.kind r.id ∧ v = (r.owner, r.parent) := by
  rw [Ordered.get?_collect_eq_some, ← List.map_reverse, List.find?_map, Option.map_eq_some_iff]
  constructor
  · rintro ⟨r, hr, he⟩
    obtain ⟨rfl, rfl⟩ := Prod.mk.inj he
    refine ⟨r, ?_, rfl, rfl⟩
    unfold LastOf
    rw [← hr]
    congr 1
    funext q
    exact decide_eq_decide.2 nameOf_eq_iff.symm
  · rintro ⟨r, hr, rfl, rfl⟩
    refine ⟨r, ?_, rfl⟩
    rw [← hr]
    congr 1
    funext q
    exact decide_eq_decide.2 nameOf_eq_iff

theorem get?_expected {m : Manifest} {table : Text} {kind owner : Option Text} {n : Text} {v : Option Text × Option Text} :
    (Ordered.collect ((((m.view table kind).list.map Prod.snd).filter fun e => owner.all fun w => e.owner = some w).map
      fun e => (e.nameText, e.owner, e.parent))).get? n = some v ↔
      ∃ r, m.Due table kind owner r ∧ n = nameOf table r.kind r.id ∧ v = (r.owner, r.parent) := by
  have hlist : (((m.view table kind).list.map Prod.snd).filter fun e => owner.all fun w => e.owner = some w).map
      (fun e => (e.nameText, e.owner, e.parent)) =
      (((m.view table kind).keep fun b => owner.all fun w => b.2.owner = some w).mapValues fun e =>
        (e.owner, e.parent)).list := by
    unfold Ordered.mapValues Ordered.keep
    rw [List.filter_map, List.map_map]
    refine List.map_congr_left fun b hb => ?_
    have hn : b.1 = b.2.nameText := m.merged_named b (mem_view.1 (List.mem_filter.1 hb).1).1
    exact Prod.ext hn.symm rfl
  rw [hlist, Ordered.collect_list, Ordered.get?_mapValues, Option.map_eq_some_iff]
  simp only [Ordered.get?_eq_some, Ordered.mem_keep, mem_view]
  have howner : ∀ e : Entry Text, (owner.all fun w => e.owner = some w) = true ↔ ∀ w, owner = some w → e.owner = some w := by
    intro e
    cases owner with
    | none => simp
    | some w => simp
  constructor
  · rintro ⟨e, ⟨⟨he, htable, hkind⟩, hw⟩, rfl⟩
    have hn : n = e.nameText := m.merged_named _ he
    subst hn
    refine ⟨⟨e.kind, e.id, e.owner, e.parent⟩, ⟨e, he, htable, hkind, (howner e).1 hw, rfl⟩, ?_, rfl⟩
    rw [← htable]
    rfl
  · rintro ⟨r, ⟨e, he, rfl, hkind, hw, rfl⟩, rfl, rfl⟩
    exact ⟨e, ⟨⟨he, rfl, hkind⟩, (howner e).2 hw⟩, rfl⟩

/-- An index is accepted for the last row of each record. -/
theorem checkIndex_iff {m : Manifest} {table : Text} {kind owner : Option Text} {rows : List IndexRow} :
    m.checkIndex table kind owner rows = .ok () ↔ ∀ r, LastOf rows r ↔ m.Due table kind owner r := by
  have hsame : ∀ {r q : IndexRow}, nameOf table r.kind r.id = nameOf table q.kind q.id →
      (r.owner, r.parent) = (q.owner, q.parent) → r = q := by
    rintro ⟨k, i, w, p⟩ ⟨k', i', w', p'⟩ hn hv
    obtain ⟨-, rfl, rfl⟩ := nameOf_injective hn
    obtain ⟨rfl, rfl⟩ := Prod.mk.inj hv
    rfl
  unfold checkIndex
  simp only
  constructor
  · intro hok r
    split_ifs at hok with heq
    have hmaps := Ordered.list_injective heq
    have hiff := @get?_actual table rows (nameOf table r.kind r.id) (r.owner, r.parent)
    rw [hmaps, get?_expected] at hiff
    constructor
    · intro hlast
      obtain ⟨q, hq, hn, hv⟩ := hiff.2 ⟨r, hlast, rfl, rfl⟩
      exact hsame hn hv ▸ hq
    · intro hdue
      obtain ⟨q, hq, hn, hv⟩ := hiff.1 ⟨r, hdue, rfl, rfl⟩
      exact hsame hn hv ▸ hq
  · intro hall
    rw [if_pos]
    congr 1
    apply Ordered.ext_get?
    intro n
    apply Option.ext
    intro v
    rw [get?_actual, get?_expected]
    simp only [hall]

theorem lastOf_iff {rows : List IndexRow} (hd : (rows.map IndexRow.key).Nodup) {r : IndexRow} : LastOf rows r ↔ r ∈ rows := by
  unfold LastOf
  constructor
  · intro hr
    exact List.mem_reverse.1 (List.mem_of_find?_eq_some hr)
  · intro hr
    cases hf : rows.reverse.find? fun q => q.key = r.key with
    | none => exact absurd (List.find?_eq_none.1 hf r (List.mem_reverse.2 hr)) (by simp)
    | some q =>
      have hq : q ∈ rows := List.mem_reverse.1 (List.mem_of_find?_eq_some hf)
      have hkey : q.key = r.key := by simpa using List.find?_some hf
      rw [List.inj_on_of_nodup_map hd hq hr hkey]

theorem due_key {m : Manifest} {table : Text} {kind owner : Option Text} {r q : IndexRow} (hr : m.Due table kind owner r)
    (hq : m.Due table kind owner q) (hkey : r.key = q.key) : r = q := by
  obtain ⟨e, he, rfl, -, -, rfl⟩ := hr
  obtain ⟨e', he', htable, -, -, rfl⟩ := hq
  have hname : e.nameText = e'.nameText := by
    obtain ⟨hkind, hid⟩ := Prod.mk.inj hkey
    unfold Entry.nameText
    rw [htable]
    exact congrArg₂ (nameOf e.table) hkind hid
  rw [hname] at he
  rw [Ordered.eq_of_key he he']

/-- **An index is accepted for exactly the rows that are due.** The view of a table, and of a kind, is exactly the entries
of the catalogue under the changes that are of it. An index is accepted iff the last row of each record is one that is due,
and the other way round; so a list is accepted and names no record twice iff it is exactly the rows that are due, each
once. -/
theorem index_exact (m : Manifest) (table : Text) (kind owner : Option Text) (rows : List IndexRow) :
    (∀ b, b ∈ (m.view table kind).list ↔ b ∈ m.merged.list ∧ b.2.table = table ∧ ∀ k, kind = some k → b.2.kind = k) ∧
      (m.checkIndex table kind owner rows = .ok () ↔ ∀ r, LastOf rows r ↔ m.Due table kind owner r) ∧
      (m.checkIndex table kind owner rows = .ok () ∧ (rows.map IndexRow.key).Nodup ↔
        rows.Nodup ∧ ∀ r, r ∈ rows ↔ m.Due table kind owner r) := by
  refine ⟨fun b => mem_view, checkIndex_iff, ?_⟩
  rw [checkIndex_iff]
  constructor
  · rintro ⟨hall, hd⟩
    exact ⟨hd.of_map _, fun r => (lastOf_iff hd).symm.trans (hall r)⟩
  · rintro ⟨hrows, hall⟩
    have hd : (rows.map IndexRow.key).Nodup :=
      hrows.map_on fun r hr q hq hkey => due_key ((hall r).1 hr) ((hall q).1 hq) hkey
    exact ⟨fun r => (lastOf_iff hd).trans (hall r), hd⟩

/-- A catalogue of one entry. -/
def sampleManifest : Manifest where
  base := certified sampleSha keptEntries
  changes := Ordered.empty
  base_named := by
    rintro ⟨n, e⟩ he
    rcases Ordered.mem_insert.1 he with he | ⟨he, -⟩
    · obtain ⟨hn, hv⟩ := Prod.mk.inj he
      exact hn.trans (hv ▸ rfl)
    · exact absurd he List.not_mem_nil
  changes_named := fun n e he => absurd he List.not_mem_nil

def sampleRow : IndexRow := ⟨['r'], ['k'], none, none⟩

/-- One row twice is accepted. -/
theorem index_repeated :
    sampleManifest.checkIndex objectsTable none none [sampleRow, sampleRow] = .ok () ∧
      ¬∀ (m : Manifest) (table : Text) (kind owner : Option Text) (rows : List IndexRow),
        m.checkIndex table kind owner rows = .ok () ↔ rows.Nodup ∧ ∀ r, r ∈ rows ↔ m.Due table kind owner r := by
  have hok : sampleManifest.checkIndex objectsTable none none [sampleRow, sampleRow] = .ok () := by decide
  refine ⟨hok, fun hall => ?_⟩
  exact absurd ((hall _ _ _ _ _).1 hok).1 (by decide)

end Manifest

end Anvil.Store.Encoded
