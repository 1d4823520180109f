import Anvil.App.TreeRuns

/-!
# Moves keep what imports isolate

A request under an import root that is not open to its workspace resolves nothing outside that root.

* `ForestIn` : the folders and requests of one workspace form a forest;
* `Innermost`, `Sealed` : the innermost import root above a place, and that it is not open;
* `sealedRootIn_eq_some` : the walk of the code finds it;
* `KeepsScopes` : every request keeps its sealed root, or had the one that it may leave;
* `moves_keep_isolation` : so does every move that respects isolation, and a refused one changes nothing.
-/

namespace Anvil.App
open Anvil.Lib

namespace Tree

/-! ## Import roots -/

/-- The tree of one workspace; nothing is asked of the others. -/
structure ForestIn (t : Tree) (ws : Id) : Prop where
  folders : ∀ f ∈ t.folders.list, f.workspaceId = ws → t.Holds ws f.parentId
  requests : ∀ r ∈ t.requests.list, r.workspaceId = ws → t.Holds ws r.folderId
  chains : ∀ f ∈ t.folders.list, f.workspaceId = ws → ∃ l, Chain t.links (some f.id) l

theorem ForestIn.chain {t : Tree} {ws : Id} (ht : t.ForestIn ws) {place : Option Id} (h : t.Holds ws place) :
    ∃ l, Chain t.links place l := by
  cases place with
  | none => exact ⟨[], .root⟩
  | some p =>
    obtain ⟨g, hg, hws⟩ := h p rfl
    obtain ⟨l, hl⟩ := ht.chains g (Rows.mem_of_get? hg) hws
    rw [Rows.key_get? hg] at hl
    exact ⟨l, hl⟩

/-- The innermost import root above a place. -/
inductive Innermost (t : Tree) : Option Id → Folder → Prop
  | here {c : Id} {f : Folder} (hf : t.folders.get? c = some f) (hroot : f.importRoot = true) : Innermost t (some c) f
  | above {c : Id} {f root : Folder} (hf : t.folders.get? c = some f) (hroot : f.importRoot = false)
      (h : Innermost t f.parentId root) : Innermost t (some c) root

/-- The innermost import root is not open to its workspace. -/
def Sealed (t : Tree) (place : Option Id) (root : Folder) : Prop := t.Innermost place root ∧ root.useWorkspaceScope = false

/-- The walk stops at the first import root, and a chain never brings it back to a folder it has seen. -/
theorem sealedRootIn_eq_some {t : Tree} {place : Option Id} {l : List Id} (hl : Chain t.links place l) :
    ∀ {seen : List Id} {root : Folder}, (∀ c ∈ l, c ∉ seen) →
      (t.sealedRootIn seen place = some root ↔ t.Sealed place root) := by
  induction hl with
  | root =>
    intro seen root _
    rw [sealedRootIn]
    exact ⟨fun h => absurd h (by simp), fun h => absurd h.1 (by rintro ⟨⟩)⟩
  | @link c p l hc hrest ih =>
    intro seen root hseen
    obtain ⟨f, hmem, hid, hp⟩ := links_eq_some.1 hc
    have hf : t.folders.get? c = some f := hid ▸ Rows.get?_of_mem hmem
    have hnodup := List.nodup_cons.1 (Chain.link hc hrest).nodup
    rw [sealedRootIn, dif_neg (hseen c List.mem_cons_self)]
    split
    · rename_i hnone
      rw [hf] at hnone
      cases hnone
    · rename_i g hg
      obtain rfl : f = g := Option.some.inj (hf.symm.trans hg)
      cases hroot : f.importRoot with
      | true =>
        have hinner : ∀ {r : Folder}, t.Innermost (some c) r ↔ f = r := by
          intro r
          constructor
          · rintro (⟨hf', -⟩ | ⟨hf', hroot', -⟩)
            · exact Option.some.inj (hf.symm.trans hf')
            · rw [Option.some.inj (hf'.symm.trans hf), hroot] at hroot'
              cases hroot'
          · rintro rfl
            exact .here hf hroot
        rw [Sealed, hinner, if_pos rfl]
        split_ifs with hopen
        · refine ⟨fun h => absurd h (by simp), fun h => ?_⟩
          have hsealed := h.2
          rw [← h.1, hopen] at hsealed
          cases hsealed
        · refine ⟨fun h => ?_, fun h => congrArg some h.1⟩
          obtain rfl := Option.some.inj h
          exact ⟨rfl, by simpa using hopen⟩
      | false =>
        have hinner : ∀ {r : Folder}, t.Innermost (some c) r ↔ t.Innermost f.parentId r := by
          intro r
          constructor
          · rintro (⟨hf', hroot'⟩ | ⟨hf', -, h⟩)
            · rw [Option.some.inj (hf'.symm.trans hf), hroot] at hroot'
              cases hroot'
            · rwa [Option.some.inj (hf'.symm.trans hf)] at h
          · exact .above hf hroot
        have hunseen : ∀ d ∈ l, d ∉ c :: seen := by
          intro d hd
          rw [List.mem_cons, not_or]
          exact ⟨ne_of_mem_of_not_mem hd hnodup.1, hseen d (List.mem_cons_of_mem _ hd)⟩
        rw [if_neg Bool.false_ne_true, Sealed, hinner, hp]
        exact ih hunseen

/-- The import root that the code takes a move to leave. -/
theorem leavesImportIn_eq_none {t : Tree} {source target : Option Id} {l m : List Id} (hl : Chain t.links source l)
    (hm : Chain t.links target m) {mayLeave : Folder → Bool}
    (h : (t.leavesImportIn source target).filter (!mayLeave ·) = none) {root : Folder} (hroot : t.Sealed source root) :
    mayLeave root = true ∨ ∃ r, t.Sealed target r ∧ r.id = root.id := by
  have hwalk : ∀ {place : Option Id} {l : List Id}, Chain t.links place l → ∀ {r : Folder},
      (t.sealedRootIn [] place = some r ↔ t.Sealed place r) :=
    fun hl => sealedRootIn_eq_some hl fun _ _ => List.not_mem_nil
  unfold leavesImportIn at h
  rw [(hwalk hl).2 hroot, Option.filter_filter, Option.filter_some] at h
  cases hr : t.sealedRootIn [] target with
  | none => simp_all
  | some r =>
    rw [hr] at h
    by_cases hsame : r.id = root.id
    · exact .inr ⟨r, (hwalk hm).1 hr, hsame⟩
    · simp_all

/-! ## Moves -/

/-- What a transaction leaves; one that fails is rolled back. -/
def after {α : Type} (t : Tree) : Except AppError (Tree × α) → Tree
  | .ok (t', _) => t'
  | .error _ => t

/-- Every request of the workspace has the sealed import root that it had, but for the one that may be left. -/
def KeepsScopes (t t' : Tree) (ws : Id) (mayLeave : Option Id) : Prop :=
  ∀ q ∈ t.requests.list, q.workspaceId = ws → ∀ root, t.Sealed q.folderId root → some root.id ≠ mayLeave →
    ∃ q' root', t'.requests.get? q.id = some q' ∧ t'.Sealed q'.folderId root' ∧ root'.id = root.id

theorem keepsScopes_self (t : Tree) (ws : Id) (mayLeave : Option Id) : t.KeepsScopes t ws mayLeave :=
  fun q hq _ root hroot _ => ⟨q, root, Rows.get?_of_mem hq, hroot, rfl⟩

/-- A place keeps its root where no folder above it changes. -/
theorem Innermost.congr {t t' : Tree} {place : Option Id} {l : List Id} (hl : Chain t.links place l)
    (hsame : ∀ c ∈ l, t'.folders.get? c = t.folders.get? c) {root : Folder} (h : t.Innermost place root) :
      t'.Innermost place root := by
  induction h generalizing l with
  | here hf hroot =>
    cases hl with
    | link hc _ => exact .here ((hsame _ List.mem_cons_self).trans hf) hroot
  | above hf hroot _ ih =>
    cases hl with
    | link hc hrest =>
      unfold links at hc
      rw [hf] at hc
      obtain rfl := Option.some.inj hc
      exact .above ((hsame _ List.mem_cons_self).trans hf) hroot
        (ih hrest fun c hmem => hsame c (List.mem_cons_of_mem _ hmem))

/-- A folder that moves takes the scopes of its contents along: those from above it are the new place's too, the others are
inside it. -/
theorem sealed_moved {t t' : Tree} {f : Folder} {newParent : Option Id} {sortKey : Float} {m : List Id}
    (hf : t.folders.get? f.id = some f) (hm : Chain t.links newParent m) (hid : f.id ∉ m)
    (ht' : t'.folders = t.folders.put { f with parentId := newParent, sortKey := sortKey }) {root : Folder}
    (hguard : f.importRoot = false → t.Sealed f.parentId root → ∃ r, t.Sealed newParent r ∧ r.id = root.id)
    {place : Option Id}
    (h : t.Innermost place root) (hsealed : root.useWorkspaceScope = false) :
      ∃ root', t'.Sealed place root' ∧ root'.id = root.id := by
  have hget : ∀ c, t'.folders.get? c = if c = f.id then some { f with parentId := newParent, sortKey := sortKey } else
      t.folders.get? c := by
    intro c
    rw [ht', Rows.get?_put]
  have hother : ∀ {c : Id}, c ≠ f.id → t'.folders.get? c = t.folders.get? c := fun hc => (hget _).trans (if_neg hc)
  have hself : t'.folders.get? f.id = some { f with parentId := newParent, sortKey := sortKey } :=
    (hget f.id).trans (if_pos rfl)
  induction h with
  | @here c g hg hroot =>
    by_cases hc : c = f.id
    · subst hc
      obtain rfl := Option.some.inj (hf.symm.trans hg)
      exact ⟨_, ⟨.here hself hroot, hsealed⟩, rfl⟩
    · exact ⟨g, ⟨.here ((hother hc).trans hg) hroot, hsealed⟩, rfl⟩
  | @above c g root hg hroot habove ih =>
    by_cases hc : c = f.id
    · subst hc
      obtain rfl := Option.some.inj (hf.symm.trans hg)
      obtain ⟨r, ⟨hr, hopen⟩, hrid⟩ := hguard hroot ⟨habove, hsealed⟩
      have hkept : t'.Innermost newParent r := hr.congr hm fun c hmem => hother (ne_of_mem_of_not_mem hmem hid)
      exact ⟨r, ⟨.above hself hroot hkept, hopen⟩, hrid⟩
    · obtain ⟨r, ⟨hr, hopen⟩, hrid⟩ := ih hguard hsealed
      exact ⟨r, ⟨.above ((hother hc).trans hg) hroot hr, hopen⟩, hrid⟩

theorem moveFolder_keeps {t t' : Tree} {ws : Id} (ht : t.ForestIn ws) {id : Id} {f : Folder} (hf : t.folders.get? id = some f)
    (hws : f.workspaceId = ws) {newParent : Option Id} {sortKey : Float} {mayLeave : Option Id} {m : Move Folder}
    (h : t.moveFolderKeepingIsolation id newParent sortKey mayLeave = .ok (t', m)) : t.KeepsScopes t' ws mayLeave := by
  unfold moveFolderKeepingIsolation moveFolderGuarded at h
  rw [hf] at h
  obtain ⟨_, hwalk, h⟩ := bind_eq_ok.1 h
  split at h
  · cases h
    exact keepsScopes_self t ws mayLeave
  · rename_i hguard
    obtain ⟨t₁, hput, h⟩ := bind_eq_ok.1 h
    cases h
    obtain ⟨-, rfl⟩ := putFolder_ok hput
    obtain ⟨-, l, hl, hid⟩ := checkAncestry_ok hwalk
    obtain ⟨l', hl'⟩ := ht.chain (ht.folders f (Rows.mem_of_get? hf) hws)
    obtain rfl : f.id = id := Rows.key_get? hf
    rintro q hq - root ⟨hroot, hsealed⟩ hleave
    refine ⟨q, ?_⟩
    have hstays : f.importRoot = false → t.Sealed f.parentId root → ∃ r, t.Sealed newParent r ∧ r.id = root.id := by
      intro hplain hsource
      rw [if_neg (by rw [hplain]; exact Bool.false_ne_true)] at hguard
      rcases leavesImportIn_eq_none hl' hl hguard hsource with hmay | hstays
      · exact absurd (of_decide_eq_true hmay) hleave
      · exact hstays
    have hfolders : ({ t with folders := t.folders.put { f with parentId := newParent, sortKey := sortKey } } : Tree).folders
        =
        t.folders.put { f with parentId := newParent, sortKey := sortKey } := rfl
    obtain ⟨root', hroot', hsame⟩ := sealed_moved hf hl hid hfolders hstays hroot hsealed
    exact ⟨root', Rows.get?_of_mem hq, hroot', hsame⟩

theorem moveRequest_keeps {t t' : Tree} {ws : Id} (ht : t.ForestIn ws) {id : Id} {r : RequestDefinition}
    (hr : t.requests.get? id = some r)
    (hws : r.workspaceId = ws) {folder : Option Id} {sortKey : Float} {mayLeave : Option Id} {m : Move RequestDefinition}
    (h : t.moveRequestKeepingIsolation id folder sortKey mayLeave = .ok (t', m)) : t.KeepsScopes t' ws mayLeave := by
  unfold moveRequestKeepingIsolation moveRequestGuarded at h
  rw [hr] at h
  obtain ⟨_, hplace, h⟩ := bind_eq_ok.1 h
  split at h
  · cases h
    exact keepsScopes_self t ws mayLeave
  · rename_i hguard
    obtain ⟨t₁, hput, h⟩ := bind_eq_ok.1 h
    cases h
    obtain rfl := putRequest_ok hput
    obtain ⟨l, hl⟩ := ht.chain (ht.requests r (Rows.mem_of_get? hr) hws)
    rw [hws] at hplace
    obtain ⟨k, hk⟩ := ht.chain (checkRequestFolder_ok hplace)
    have hkept : ∀ {place : Option Id} {root : Folder}, t.Sealed place root →
        ({ t with requests := t.requests.put { r with folderId := folder, sortKey := sortKey } } : Tree).Sealed
          place root := by
      rintro place root ⟨hroot, hsealed⟩
      refine ⟨?_, hsealed⟩
      induction hroot with
      | here hf hroot => exact .here hf hroot
      | above hf hroot _ ih => exact .above hf hroot (ih hsealed)
    intro q hq _ root hroot hleave
    rw [Rows.get?_put]
    split_ifs with hid
    · obtain rfl : q = r := Rows.eq_of_key hq (Rows.mem_of_get? hr) hid
      rcases leavesImportIn_eq_none hl hk hguard hroot with hmay | ⟨root', hroot', hsame⟩
      · exact absurd (of_decide_eq_true hmay) hleave
      · exact ⟨_, root', rfl, hkept hroot', hsame⟩
    · exact ⟨q, root, Rows.get?_of_mem hq, hkept hroot, rfl⟩

theorem moveFolder_refused {t t' : Tree} {id : Id} {newParent : Option Id} {sortKey : Float} {mayLeave : Option Id}
    {root : Folder}
    (h : t.moveFolderKeepingIsolation id newParent sortKey mayLeave = .ok (t', .leavesImport root)) : t' = t := by
  unfold moveFolderKeepingIsolation moveFolderGuarded at h
  split at h
  · cases h
  · obtain ⟨_, -, h⟩ := bind_eq_ok.1 h
    split at h
    · cases h
      rfl
    · obtain ⟨_, -, h⟩ := bind_eq_ok.1 h
      cases h

theorem moveRequest_refused {t t' : Tree} {id : Id} {folder : Option Id} {sortKey : Float} {mayLeave : Option Id}
    {root : Folder}
    (h : t.moveRequestKeepingIsolation id folder sortKey mayLeave = .ok (t', .leavesImport root)) : t' = t := by
  unfold moveRequestKeepingIsolation moveRequestGuarded at h
  split at h
  · cases h
  · obtain ⟨_, -, h⟩ := bind_eq_ok.1 h
    split at h
    · cases h
      rfl
    · obtain ⟨_, -, h⟩ := bind_eq_ok.1 h
      cases h

/-- **Moves keep import isolation.** Whatever a move does, no request of the workspace loses a sealed import root, but for the
one that the move may leave; a move that is refused, or fails, leaves the tree as it was. -/
theorem moves_keep_isolation {t : Tree} {ws : Id} (ht : t.ForestIn ws) :
    (∀ id f, t.folders.get? id = some f → f.workspaceId = ws → ∀ newParent sortKey mayLeave,
      t.KeepsScopes (t.after (t.moveFolderKeepingIsolation id newParent sortKey mayLeave)) ws mayLeave ∧
        ((∀ t' g, t.moveFolderKeepingIsolation id newParent sortKey mayLeave ≠ .ok (t', .moved g)) →
          t.after (t.moveFolderKeepingIsolation id newParent sortKey mayLeave) = t)) ∧
      ∀ id r, t.requests.get? id = some r → r.workspaceId = ws → ∀ folder sortKey mayLeave,
        t.KeepsScopes (t.after (t.moveRequestKeepingIsolation id folder sortKey mayLeave)) ws mayLeave ∧
          ((∀ t' g, t.moveRequestKeepingIsolation id folder sortKey mayLeave ≠ .ok (t', .moved g)) →
            t.after (t.moveRequestKeepingIsolation id folder sortKey mayLeave) = t) := by
  constructor
  · intro id f hf hws newParent sortKey mayLeave
    cases h : t.moveFolderKeepingIsolation id newParent sortKey mayLeave with
    | error e => exact ⟨keepsScopes_self t ws mayLeave, fun _ => rfl⟩
    | ok out =>
      obtain ⟨t', m⟩ := out
      refine ⟨moveFolder_keeps ht hf hws h, fun hrefused => ?_⟩
      cases m with
      | moved g => exact absurd rfl (hrefused t' g)
      | leavesImport root => exact moveFolder_refused h
  · intro id r hr hws folder sortKey mayLeave
    cases h : t.moveRequestKeepingIsolation id folder sortKey mayLeave with
    | error e => exact ⟨keepsScopes_self t ws mayLeave, fun _ => rfl⟩
    | ok out =>
      obtain ⟨t', m⟩ := out
      refine ⟨moveRequest_keeps ht hr hws h, fun hrefused => ?_⟩
      cases m with
      | moved g => exact absurd rfl (hrefused t' g)
      | leavesImport root => exact moveRequest_refused h

end Tree

/-! ## An import -/

section Sample

/-- Import root 2 with folder 3 under it. -/
def importTree : Tree where
  workspaces := [1]
  folders := ⟨[{ sampleFolder 2 none with importRoot := true }, sampleFolder 3 (some 2)], by decide⟩
  requests := ⟨[
    { id := 5, workspaceId := 1, folderId := some 3, name := "", sortKey := 1.0, spec := "", revisionId := none }],
    List.nodup_singleton _⟩
  revisions := Rows.empty

theorem importTree_chain : Chain importTree.links (some 2) [2] := .link rfl .root

theorem importTree_forest : importTree.ForestIn 1 := by
  refine ⟨?_, ?_, ?_⟩
  · intro f hf _ p hp
    simp only [importTree, List.mem_cons, List.not_mem_nil, or_false] at hf
    rcases hf with rfl | rfl <;> cases hp
    exact ⟨_, rfl, rfl⟩
  · intro r hr _ p hp
    obtain rfl := List.mem_singleton.1 hr
    cases hp
    exact ⟨_, rfl, rfl⟩
  · intro f hf _
    simp only [importTree, List.mem_cons, List.not_mem_nil, or_false] at hf
    rcases hf with rfl | rfl
    · exact ⟨_, importTree_chain⟩
    · exact ⟨_, .link rfl importTree_chain⟩

/-- Folder 3 stays under the import root, unless it may leave it. -/
theorem moves_keep_isolation_sample :
    importTree.Sealed (some 3) { sampleFolder 2 none with importRoot := true } ∧
      importTree.after (importTree.moveFolderKeepingIsolation 3 none 1.0 none) = importTree ∧
      importTree.KeepsScopes (importTree.after (importTree.moveFolderKeepingIsolation 3 none 1.0 (some 2))) 1 (some 2) := by
  have hmoves := (Tree.moves_keep_isolation importTree_forest).1 3 (sampleFolder 3 (some 2)) rfl rfl
  refine ⟨⟨.above rfl rfl (.here rfl rfl), rfl⟩, (hmoves none 1.0 none).2 fun t' g h => ?_, (hmoves none 1.0 (some 2)).1⟩
  have hwalk := (Tree.sealedRootIn_eq_some importTree_chain fun _ _ => List.not_mem_nil).2
    (⟨.here rfl rfl, rfl⟩ : importTree.Sealed (some 2) { sampleFolder 2 none with importRoot := true })
  have hleaves : importTree.leavesImportIn (some 2) none = some { sampleFolder 2 none with importRoot := true } := by
    unfold Tree.leavesImportIn
    rw [hwalk, Tree.sealedRootIn]
    rfl
  have hfolder : importTree.folders.get? 3 = some (sampleFolder 3 (some 2)) := rfl
  have hparent : (sampleFolder 3 (some 2)).parentId = some 2 := rfl
  unfold Tree.moveFolderKeepingIsolation Tree.moveFolderGuarded at h
  rw [hfolder] at h
  obtain ⟨_, -, h⟩ := bind_eq_ok.1 h
  rw [hparent, hleaves] at h
  cases h

end Sample

end Anvil.App
