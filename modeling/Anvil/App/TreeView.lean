import Anvil.App.TreeScope

/-!
# The tree view (`App::tree`)

Sort keys are compared by a parameter, as `partial_cmp` compares numbers; what a node shows of a request is one too.

* `tree` : the nodes of a workspace, rebuilt level by level; the depth guard leaves 65 levels;
* `placed` : every node of a forest of nodes with the node above it;
* `mem_placed`, `nodup_placed` : which items are nodes, and that each is one node;
* `Siblings` : at every level the folders by their sort keys, then the requests by theirs;
* `tree_shows` : the items with at most 64 folders above them are shown, each once and under its parent, and no others.
-/

namespace Anvil.App
open Anvil.Lib

/-! ## Nodes -/

inductive NodeKind
  | folder
  | request
deriving DecidableEq

/-- With the method, the protocol, the URL and the mark of a request. -/
inductive TreeNode (ν : Type)
  | node (id : Id) (kind : NodeKind) (name : String) (shown : Option ν) (children : List (TreeNode ν))

section
variable {ν : Type} (keyLe : Float → Float → Bool) (shown : RequestDefinition → ν)

/-- `sort_by` with `partial_cmp`; numbers that do not compare count as equal. -/
def byKey {α : Type} (key : α → Float) (l : List α) : List α := l.mergeSort fun a b => keyLe (key a) (key b)

def folderNode (f : Folder) (children : List (TreeNode ν)) : TreeNode ν := .node f.id .folder f.name none children

def requestNode (r : RequestDefinition) : TreeNode ν := .node r.id .request r.name (some (shown r)) []

/-- `build`, with the number of levels that the depth guard still allows. -/
def build (folders : List Folder) (reqs : List RequestDefinition) : Nat → Option Id → List (TreeNode ν)
  | 0, _ => []
  | levels + 1, parent =>
    ((byKey keyLe (·.sortKey) (folders.filter fun f => f.parentId = parent)).map fun f =>
      folderNode f (build folders reqs levels (some f.id))) ++
    (byKey keyLe (·.sortKey) (reqs.filter fun r => r.folderId = parent)).map (requestNode shown)

def Tree.foldersOf (t : Tree) (ws : Id) : List Folder := t.folders.list.filter fun f => f.workspaceId = ws

def Tree.requestsOf (t : Tree) (ws : Id) : List RequestDefinition := t.requests.list.filter fun r => r.workspaceId = ws

/-- No level is built for a depth above 64. -/
def Tree.tree (t : Tree) (ws : Id) : List (TreeNode ν) := build keyLe shown (t.foldersOf ws) (t.requestsOf ws) 65 none

end

/-! ## Places -/

/-- An item and the folder above it. -/
structure Place where
  parent : Option Id
  kind : NodeKind
  id : Id
deriving DecidableEq

section
variable {ν : Type}

mutual

def placedNode (parent : Option Id) : TreeNode ν → List Place
  | .node id kind _ _ children => ⟨parent, kind, id⟩ :: placed (some id) children

/-- Every node, with the node above it. -/
def placed (parent : Option Id) : List (TreeNode ν) → List Place
  | [] => []
  | n :: rest => placedNode parent n ++ placed parent rest

end

theorem placed_append (parent : Option Id) (l m : List (TreeNode ν)) :
    placed parent (l ++ m) = placed parent l ++ placed parent m := by
  induction l with
  | nil => rfl
  | cons n l ih => rw [List.cons_append, placed, placed, ih, List.append_assoc]

theorem placed_map {α : Type} (parent : Option Id) (g : α → TreeNode ν) (l : List α) :
    placed parent (l.map g) = l.flatMap fun a => placedNode parent (g a) := by
  induction l with
  | nil => rfl
  | cons a l ih => rw [List.map_cons, placed, ih, List.flatMap_cons]

variable {keyLe : Float → Float → Bool} {shown : RequestDefinition → ν} {folders : List Folder}
    {reqs : List RequestDefinition}

theorem mem_byKey {α : Type} {key : α → Float} {l : List α} {a : α} : a ∈ byKey keyLe key l ↔ a ∈ l := List.mem_mergeSort

theorem placed_build (levels : Nat) (parent : Option Id) :
    placed parent (build keyLe shown folders reqs (levels + 1) parent) =
    ((byKey keyLe (·.sortKey) (folders.filter fun f => f.parentId = parent)).flatMap fun f =>
      ⟨parent, .folder, f.id⟩ :: placed (some f.id) (build keyLe shown folders reqs levels (some f.id))) ++
    (byKey keyLe (·.sortKey) (reqs.filter fun r => r.folderId = parent)).map fun r => ⟨parent, .request, r.id⟩ := by
  rw [build, placed_append, placed_map, placed_map]
  congr 1
  induction byKey keyLe (·.sortKey) (reqs.filter fun r => r.folderId = parent) with
  | nil => rfl
  | cons r l ih => rw [List.flatMap_cons, List.map_cons, ih]; rfl

/-- The folders that lead from one place down to another. -/
inductive Below (folders : List Folder) : Nat → Option Id → Option Id → Prop
  | here (p : Option Id) : Below folders 0 p p
  | under {n : Nat} {f : Folder} {p : Option Id} (hf : f ∈ folders) (h : Below folders n (some f.id) p) :
    Below folders (n + 1) f.parentId p

/-- An item that is stored under the place. -/
def Stored (folders : List Folder) (reqs : List RequestDefinition) (x : Place) : Prop :=
  match x.kind with
  | .folder => ∃ f ∈ folders, f.id = x.id ∧ f.parentId = x.parent
  | .request => ∃ r ∈ reqs, r.id = x.id ∧ r.folderId = x.parent

/-- The nodes are the stored items that fewer folders separate from the top than there are levels. -/
theorem mem_placed {levels : Nat} {parent : Option Id} {x : Place} :
    x ∈ placed parent (build keyLe shown folders reqs levels parent) ↔
    ∃ j < levels, Below folders j parent x.parent ∧ Stored folders reqs x := by
  induction levels generalizing parent with
  | zero =>
    rw [build, placed]
    exact ⟨fun h => absurd h List.not_mem_nil, fun ⟨j, hj, _⟩ => absurd hj (Nat.not_lt_zero j)⟩
  | succ levels ih =>
    have hlevel : x ∈ placed parent (build keyLe shown folders reqs (levels + 1) parent) ↔
        (∃ f ∈ folders, f.parentId = parent ∧ (x = ⟨parent, .folder, f.id⟩ ∨
          ∃ j < levels, Below folders j (some f.id) x.parent ∧
          Stored folders reqs x)) ∨ ∃ r ∈ reqs, r.folderId = parent ∧ ⟨parent, .request, r.id⟩ = x := by
      simp only [placed_build, List.mem_append, List.mem_flatMap, List.mem_map, mem_byKey, List.mem_filter, decide_eq_true_eq,
        List.mem_cons, ih, and_assoc]
    rw [hlevel]
    constructor
    · rintro (⟨f, hf, hparent, rfl | ⟨j, hj, hbelow, hx⟩⟩ | ⟨r, hr, hparent, rfl⟩)
      · exact ⟨0, Nat.succ_pos _, .here _, f, hf, rfl, hparent⟩
      · exact ⟨j + 1, Nat.succ_lt_succ hj, hparent ▸ .under hf hbelow, hx⟩
      · exact ⟨0, Nat.succ_pos _, .here _, r, hr, rfl, hparent⟩
    · rintro ⟨j, hj, hbelow, hx⟩
      cases hbelow with
      | here =>
        obtain ⟨parent, kind, id⟩ := x
        cases kind with
        | folder =>
          obtain ⟨f, hf, rfl, hparent⟩ := hx
          exact .inl ⟨f, hf, hparent, .inl rfl⟩
        | request =>
          obtain ⟨r, hr, rfl, hparent⟩ := hx
          exact .inr ⟨r, hr, hparent, rfl⟩
      | under hf hbelow => exact .inl ⟨_, hf, rfl, .inr ⟨_, Nat.lt_of_succ_lt_succ hj, hbelow, hx⟩⟩

theorem Below.snoc {n : Nat} {p : Option Id} {f : Folder} (hf : f ∈ folders) {o : Option Id} (h : Below folders n o p)
    (hp : f.parentId = p) : Below folders (n + 1) o (some f.id) := by
  induction h with
  | here p => exact hp ▸ .under hf (.here _)
  | under hg _ ih => exact .under hg (ih hp)

theorem Below.chain {links : Links Id} (hlinks : ∀ f ∈ folders, links f.id = some f.parentId) {n : Nat} {o p : Option Id}
    (h : Below folders n o p) : ∀ {l : List Id}, Chain links o l → ∃ path, path.length = n ∧ Chain links p (path ++ l) := by
  induction h with
  | here p => exact fun hl => ⟨[], rfl, hl⟩
  | @under n f p hf _ ih =>
    intro l hl
    obtain ⟨path, hlen, hpath⟩ := ih (.link (hlinks f hf) hl)
    refine ⟨path ++ [f.id], by rw [List.length_append, hlen]; rfl, ?_⟩
    rwa [List.append_assoc]

/-- No item is two nodes: the folders above a node lead back through every node above it. -/
theorem nodup_placed {links : Links Id} (hlinks : ∀ f ∈ folders, links f.id = some f.parentId)
    (hfolders : (folders.map (·.id)).Nodup) (hreqs : (reqs.map (·.id)).Nodup) {levels : Nat} :
    ∀ {parent : Option Id} {l : List Id}, Chain links parent l →
      (placed parent (build keyLe shown folders reqs levels parent)).Nodup := by
  induction levels with
  | zero => exact fun _ => List.nodup_nil
  | succ levels ih =>
    intro parent l hl
    have hsub : ∀ {f : Folder}, f ∈ folders → f.parentId = parent → Chain links (some f.id) (f.id :: l) :=
      fun hf hparent => .link (hparent ▸ hlinks _ hf) hl
    have hchain : ∀ {f : Folder}, f ∈ folders → f.parentId = parent →
        ∀ {x}, x ∈ placed (some f.id) (build keyLe shown folders reqs levels (some f.id)) →
          ∃ path, Chain links x.parent (path ++ f.id :: l) := by
      intro f hf hparent x hx
      obtain ⟨_, _, hbelow, _⟩ := mem_placed.1 hx
      obtain ⟨path, -, hpath⟩ := hbelow.chain hlinks (hsub hf hparent)
      exact ⟨path, hpath⟩
    -- what is further down has a longer chain
    have hdeeper : ∀ {f : Folder}, f ∈ folders → f.parentId = parent →
        ∀ {x}, x ∈ placed (some f.id) (build keyLe shown folders reqs levels (some f.id)) → x.parent ≠ parent := by
      intro f hf hparent x hx heq
      obtain ⟨path, hpath⟩ := hchain hf hparent hx
      have hlen := congrArg List.length ((heq ▸ hpath).unique hl)
      rw [List.length_append, List.length_cons] at hlen
      omega
    have hlevel : ∀ {f : Folder}, f ∈ byKey keyLe (·.sortKey) (folders.filter fun f => f.parentId = parent) →
        f ∈ folders ∧ f.parentId = parent := by
      intro f hf
      simpa using List.mem_filter.1 (mem_byKey.1 hf)
    rw [placed_build, List.nodup_append]
    refine ⟨List.nodup_flatMap.2 ⟨fun f hf => ?_, ?_⟩, ?_, ?_⟩
    · obtain ⟨hf, hparent⟩ := hlevel hf
      refine List.nodup_cons.2 ⟨fun hx => hdeeper hf hparent hx rfl, ih (hsub hf hparent)⟩
    · have hids : (byKey keyLe (·.sortKey) (folders.filter fun f => f.parentId = parent)).Pairwise fun f g =>
          f.id ≠ g.id := by
        have hnodup : ((byKey keyLe (·.sortKey) (folders.filter fun f => f.parentId = parent)).map (·.id)).Nodup :=
          ((List.mergeSort_perm _ _).map _).nodup_iff.2 (hfolders.sublist (List.filter_sublist.map _))
        exact List.pairwise_map.1 hnodup
      refine hids.imp_of_mem fun {f g} hf hg hid => ?_
      obtain ⟨hf, hfp⟩ := hlevel hf
      obtain ⟨hg, hgp⟩ := hlevel hg
      rintro x hx hy
      rcases List.mem_cons.1 hx with rfl | hx
      · rcases List.mem_cons.1 hy with heq | hy
        · exact hid (Place.mk.inj heq).2.2
        · exact hdeeper hg hgp hy rfl
      · rcases List.mem_cons.1 hy with rfl | hy
        · exact hdeeper hf hfp hx rfl
        · obtain ⟨path, hpath⟩ := hchain hf hfp hx
          obtain ⟨path', hpath'⟩ := hchain hg hgp hy
          have hsame := (List.append_inj' (hpath.unique hpath') (by simp)).2
          exact hid (List.cons.inj hsame).1
    · have hids : ((byKey keyLe (·.sortKey) (reqs.filter fun r => r.folderId = parent)).map (·.id)).Nodup :=
        ((List.mergeSort_perm _ _).map _).nodup_iff.2 (hreqs.sublist (List.filter_sublist.map _))
      have hplaces := hids.map fun i j (h : (⟨parent, .request, i⟩ : Place) = ⟨parent, .request, j⟩) => (Place.mk.inj h).2.2
      rwa [List.map_map] at hplaces
    · rintro x hx y hy rfl
      obtain ⟨f, hf, hx⟩ := List.mem_flatMap.1 hx
      obtain ⟨hf, hparent⟩ := hlevel hf
      obtain ⟨r, -, rfl⟩ := List.mem_map.1 hy
      rcases List.mem_cons.1 hx with heq | hx
      · cases heq
      · exact hdeeper hf hparent hx rfl

/-! ## Siblings -/

/-- At every level the folders, then the requests, both by their sort keys. -/
inductive Siblings (keyLe : Float → Float → Bool) (shown : RequestDefinition → ν) (folders : List Folder)
    (reqs : List RequestDefinition) : List (TreeNode ν) → Prop
  | level {fs : List (Folder × List (TreeNode ν))} {rs : List RequestDefinition} (hfs : ∀ p ∈ fs, p.1 ∈ folders)
    (hrs : ∀ r ∈ rs, r ∈ reqs) (hfolders : fs.Pairwise fun p q => keyLe p.1.sortKey q.1.sortKey = true)
    (hreqs : rs.Pairwise fun r s => keyLe r.sortKey s.sortKey = true) (h : ∀ p ∈ fs, Siblings keyLe shown folders reqs p.2) :
    Siblings keyLe shown folders reqs (fs.map (fun p => folderNode p.1 p.2) ++ rs.map (requestNode shown))

/-- The keys compare with each other, as numbers do. -/
structure Comparable {α : Type} (keyLe : Float → Float → Bool) (key : α → Float) (l : List α) : Prop where
  total : ∀ a ∈ l, ∀ b ∈ l, keyLe (key a) (key b) = true ∨ keyLe (key b) (key a) = true
  trans : ∀ a ∈ l, ∀ b ∈ l, ∀ c ∈ l, keyLe (key a) (key b) = true → keyLe (key b) (key c) = true →
    keyLe (key a) (key c) = true

theorem Comparable.subset {α : Type} {key : α → Float} {l m : List α} (h : Comparable keyLe key l) (hm : m ⊆ l) :
    Comparable keyLe key m where
  total a ha b hb := h.total a (hm ha) b (hm hb)
  trans a ha b hb c hc := h.trans a (hm ha) b (hm hb) c (hm hc)

/-- The sort needs the keys of the list only. -/
theorem Comparable.pairwise_byKey {α : Type} {key : α → Float} {l : List α} (h : Comparable keyLe key l) :
    (byKey keyLe key l).Pairwise fun a b => keyLe (key a) (key b) = true := by
  have hattach : (l.attach.mergeSort fun a b => keyLe (key a.1) (key b.1)).map Subtype.val = byKey keyLe key l := by
    rw [List.map_mergeSort (s := fun a b => keyLe (key a) (key b)) fun _ _ _ _ => rfl, List.attach_map_subtype_val, byKey]
  rw [← hattach, List.pairwise_map]
  refine List.pairwise_mergeSort ?_ ?_ _
  · exact fun a b c => h.trans a.1 a.2 b.1 b.2 c.1 c.2
  · intro a b
    rw [Bool.or_eq_true]
    exact h.total a.1 a.2 b.1 b.2

theorem siblings_build (hfolders : Comparable keyLe (·.sortKey) folders) (hreqs : Comparable keyLe (·.sortKey) reqs)
    (levels : Nat) :
    ∀ parent, Siblings keyLe shown folders reqs (build keyLe shown folders reqs levels parent) := by
  induction levels with
  | zero => exact fun parent => @Siblings.level _ _ _ _ _ [] [] (by simp) (by simp) .nil .nil (by simp)
  | succ levels ih =>
    intro parent
    have hcut : folders.filter (fun f => f.parentId = parent) ⊆ folders := List.filter_subset_self _
    have hcutReqs : reqs.filter (fun r => r.folderId = parent) ⊆ reqs := List.filter_subset_self _
    have hlevel := @Siblings.level _ keyLe shown folders reqs
      ((byKey keyLe (·.sortKey) (folders.filter fun f => f.parentId = parent)).map fun f =>
        (f, build keyLe shown folders reqs levels (some f.id)))
      (byKey keyLe (·.sortKey) (reqs.filter fun r => r.folderId = parent)) ?_ (fun r hr => hcutReqs (mem_byKey.1 hr)) ?_
      (hreqs.subset hcutReqs).pairwise_byKey ?_
    · rwa [List.map_map] at hlevel
    · intro p hp
      obtain ⟨f, hf, rfl⟩ := List.mem_map.1 hp
      exact hcut (mem_byKey.1 hf)
    · exact List.pairwise_map.2 (hfolders.subset hcut).pairwise_byKey
    · intro p hp
      obtain ⟨f, -, rfl⟩ := List.mem_map.1 hp
      exact ih (some f.id)

/-! ## The tree of a workspace -/

namespace Tree

theorem mem_foldersOf {t : Tree} {ws : Id} {f : Folder} : f ∈ t.foldersOf ws ↔ f ∈ t.folders.list ∧ f.workspaceId = ws := by
  rw [foldersOf, List.mem_filter, decide_eq_true_iff]

theorem mem_requestsOf {t : Tree} {ws : Id} {r : RequestDefinition} :
    r ∈ t.requestsOf ws ↔ r ∈ t.requests.list ∧ r.workspaceId = ws := by
  rw [requestsOf, List.mem_filter, decide_eq_true_iff]

theorem links_foldersOf {t : Tree} {ws : Id} : ∀ f ∈ t.foldersOf ws, t.links f.id = some f.parentId :=
  fun f hf => links_eq_some.2 ⟨f, (mem_foldersOf.1 hf).1, rfl, rfl⟩

/-- A place of the workspace is as far below the top as its chain is long. -/
theorem below_of_chain {t : Tree} {ws : Id} (ht : t.ForestIn ws) {p : Option Id} {l : List Id} (hl : Chain t.links p l) :
    t.Holds ws p → Below (t.foldersOf ws) l.length none p := by
  induction hl with
  | root => exact fun _ => .here none
  | @link c q l hc _ ih =>
    intro hp
    obtain ⟨f, hf, hws⟩ := hp c rfl
    obtain rfl : f.id = c := Rows.key_get? hf
    have hmem := Rows.mem_of_get? hf
    rw [links_eq_some.2 ⟨f, hmem, rfl, rfl⟩] at hc
    cases hc
    exact (ih (ht.folders f hmem hws)).snoc (mem_foldersOf.2 ⟨hmem, hws⟩) rfl

theorem mem_placed_tree {t : Tree} {ws : Id} (ht : t.ForestIn ws) {x : Place} :
    x ∈ placed none (t.tree keyLe shown ws) ↔
      Stored (t.foldersOf ws) (t.requestsOf ws) x ∧ ∃ l, Chain t.links x.parent l ∧ l.length ≤ 64 := by
  rw [tree, mem_placed]
  constructor
  · rintro ⟨j, hj, hbelow, hx⟩
    obtain ⟨path, hlen, hpath⟩ := hbelow.chain links_foldersOf .root
    refine ⟨hx, path ++ [], hpath, ?_⟩
    rw [List.append_nil, hlen]
    exact Nat.le_of_lt_succ hj
  · rintro ⟨hx, l, hl, hlen⟩
    refine ⟨l.length, Nat.lt_succ_of_le hlen, below_of_chain ht hl ?_, hx⟩
    obtain ⟨p, kind, id⟩ := x
    cases kind with
    | folder =>
      obtain ⟨f, hf, -, rfl⟩ := hx
      obtain ⟨hmem, hws⟩ := mem_foldersOf.1 hf
      exact ht.folders f hmem hws
    | request =>
      obtain ⟨r, hr, -, rfl⟩ := hx
      obtain ⟨hmem, hws⟩ := mem_requestsOf.1 hr
      exact ht.requests r hmem hws

/-- **The tree view.** No folder and no request is two nodes; the nodes are the folders and requests of the workspace that
have at most 64 folders above them, each under its parent; and siblings are in order. -/
theorem tree_shows {t : Tree} {ws : Id} (ht : t.ForestIn ws) (hfolders : Comparable keyLe (·.sortKey) (t.foldersOf ws))
    (hreqs : Comparable keyLe (·.sortKey) (t.requestsOf ws)) :
    ((placed none (t.tree keyLe shown ws)).map fun x => (x.kind, x.id)).Nodup ∧
      (∀ x, x ∈ placed none (t.tree keyLe shown ws) ↔
        Stored (t.foldersOf ws) (t.requestsOf ws) x ∧ ∃ l, Chain t.links x.parent l ∧ l.length ≤ 64) ∧
      Siblings keyLe shown (t.foldersOf ws) (t.requestsOf ws) (t.tree keyLe shown ws) := by
  have hfoldersOf : ((t.foldersOf ws).map (·.id)).Nodup := t.folders.distinct.sublist (List.filter_sublist.map _)
  have hrequestsOf : ((t.requestsOf ws).map (·.id)).Nodup := t.requests.distinct.sublist (List.filter_sublist.map _)
  refine ⟨List.Nodup.map_on ?_ (nodup_placed links_foldersOf hfoldersOf hrequestsOf .root), fun x => mem_placed_tree ht,
    siblings_build hfolders hreqs 65 none⟩
  -- an id of a kind is stored once, so it has one parent
  rintro ⟨p, kind, id⟩ hx ⟨q, kind', id'⟩ hy heq
  obtain ⟨rfl, rfl⟩ := Prod.mk.inj heq
  replace hx := ((mem_placed_tree ht).1 hx).1
  replace hy := ((mem_placed_tree ht).1 hy).1
  cases kind with
  | folder =>
    obtain ⟨f, hf, hid, rfl⟩ := hx
    obtain ⟨g, hg, hid', rfl⟩ := hy
    rw [Rows.eq_of_key (mem_foldersOf.1 hf).1 (mem_foldersOf.1 hg).1 (hid.trans hid'.symm)]
  | request =>
    obtain ⟨r, hr, hid, rfl⟩ := hx
    obtain ⟨s, hs, hid', rfl⟩ := hy
    rw [Rows.eq_of_key (mem_requestsOf.1 hr).1 (mem_requestsOf.1 hs).1 (hid.trans hid'.symm)]

end Tree

end

/-! ## Two trees -/

section Sample

/-- Folder 3 shows under import root 2, and the request under folder 3. -/
theorem tree_shows_sample : ⟨some 3, .request, 5⟩ ∈ placed none (importTree.tree (fun _ _ => true) (fun _ => ()) 1) := by
  have hcomparable : ∀ {α : Type} (key : α → Float) (l : List α), Comparable (fun _ _ => true) key l :=
    fun _ _ => ⟨fun _ _ _ _ => .inl rfl, fun _ _ _ _ _ _ _ _ => rfl⟩
  refine ((Tree.tree_shows importTree_forest (hcomparable _ _) (hcomparable _ _)).2.1 _).2
    ⟨?_, [3, 2], .link rfl importTree_chain, by decide⟩
  exact ⟨_, Tree.mem_requestsOf.2 ⟨List.mem_singleton_self _, rfl⟩, rfl, rfl⟩

/-- Each of the folders `0 … n` is under the one before it. -/
def nestedParent : Id → Option Id
  | 0 => none
  | c + 1 => some c

def nestedFolders (n : Nat) : List Folder := (List.range (n + 1)).map fun c => sampleFolder c (nestedParent c)

theorem map_nestedFolders (n : Nat) : (nestedFolders n).map (·.id) = List.range (n + 1) := by
  rw [nestedFolders, List.map_map]
  exact List.map_id _

def nested (n : Nat) : Tree where
  workspaces := [1]
  folders := ⟨nestedFolders n, (map_nestedFolders n).symm ▸ List.nodup_range⟩
  requests := Rows.empty
  revisions := Rows.empty

theorem mem_nested {n : Nat} {f : Folder} : f ∈ (nested n).folders.list ↔ ∃ c ≤ n, sampleFolder c (nestedParent c) = f := by
  change f ∈ nestedFolders n ↔ _
  simp only [nestedFolders, List.mem_map, List.mem_range, Nat.lt_succ_iff]

theorem nested_links {n c : Nat} (hc : c ≤ n) : (nested n).links c = some (nestedParent c) :=
  Tree.links_eq_some.2 ⟨_, mem_nested.2 ⟨c, hc, rfl⟩, rfl, rfl⟩

theorem nested_chain {n c : Nat} (hc : c ≤ n) : ∃ l, Chain (nested n).links (some c) l ∧ l.length = c + 1 := by
  induction c with
  | zero => exact ⟨[0], .link (nested_links hc) .root, rfl⟩
  | succ c ih =>
    obtain ⟨l, hl, hlen⟩ := ih (Nat.le_of_succ_le hc)
    exact ⟨(c + 1) :: l, .link (nested_links hc) hl, by rw [List.length_cons, hlen]⟩

theorem nested_forest (n : Nat) : (nested n).ForestIn 1 := by
  refine ⟨?_, fun r hr => absurd hr List.not_mem_nil, ?_⟩
  · intro f hf _ p hp
    obtain ⟨c, hc, rfl⟩ := mem_nested.1 hf
    cases c with
    | zero => cases hp
    | succ c =>
      obtain rfl := Option.some.inj hp
      exact ⟨_, Rows.get?_of_mem (mem_nested.2 ⟨_, Nat.le_of_succ_le hc, rfl⟩), rfl⟩
  · intro f hf _
    obtain ⟨c, hc, rfl⟩ := mem_nested.1 hf
    obtain ⟨l, hl, -⟩ := nested_chain hc
    exact ⟨l, hl⟩

/-- The last of 66 folders in each other is stored, and is no node. -/
theorem tree_hides_nested : (nested 65).ForestIn 1 ∧ sampleFolder 65 (some 64) ∈ (nested 65).foldersOf 1 ∧
    ¬ ∃ p, ⟨p, .folder, 65⟩ ∈ placed none ((nested 65).tree (fun _ _ => true) (fun _ => ()) 1) := by
  have hmem : sampleFolder 65 (some 64) ∈ (nested 65).folders.list := mem_nested.2 ⟨65, le_rfl, rfl⟩
  refine ⟨nested_forest 65, Tree.mem_foldersOf.2 ⟨hmem, rfl⟩, ?_⟩
  rintro ⟨p, hp⟩
  obtain ⟨⟨f, hf, hid, rfl⟩, l, hl, hlen⟩ := (Tree.mem_placed_tree (nested_forest 65)).1 hp
  obtain rfl := Rows.eq_of_key (Tree.mem_foldersOf.1 hf).1 hmem hid
  obtain ⟨m, hm, hlen'⟩ := nested_chain (n := 65) (c := 64) (by decide)
  rw [hl.unique hm, hlen'] at hlen
  exact absurd hlen (by decide)

end Sample

end Anvil.App
