import Anvil.App.Tree

/-!
# The workspace tree stays a forest

What every operation of the workspace tree does to its folders and requests (`Edit`), and from that what any sequence of
them keeps.

* `Closed` : every parent and every request's folder is stored, in the workspace of what it holds;
* `Forest` : moreover every parent chain ends at a root and repeats no folder;
* `Op.edits` : a committed operation is one of four edits;
* `tree_stays_forest` : every run keeps `Closed`; a run keeps `Forest` as long as no `save_folder` puts a folder under
  itself or one of its subfolders, which that operation does not check;
* `saveFolder_forest_iff` : one that does leaves no forest.
-/

namespace Anvil.App
open Anvil.Lib

namespace Tree

/-- `place` is the top level, or a folder of workspace `ws`. -/
def Holds (t : Tree) (ws : Id) (place : Option Id) : Prop :=
  ∀ p, place = some p → ∃ g, t.folders.get? p = some g ∧ g.workspaceId = ws

/-- Every parent exists in the folder's workspace, and every request's folder in the request's. -/
structure Closed (t : Tree) : Prop where
  folders : ∀ f ∈ t.folders.list, t.Holds f.workspaceId f.parentId
  requests : ∀ r ∈ t.requests.list, t.Holds r.workspaceId r.folderId

/-- The parent of every stored folder. -/
def links (t : Tree) : Links Id := fun a => (t.folders.get? a).map (·.parentId)

/-- The tree is a forest closed within each workspace. -/
structure Forest (t : Tree) : Prop where
  closed : t.Closed
  chains : ∀ f ∈ t.folders.list, ∃ l, Chain t.links (some f.id) l ∧ l.Nodup

theorem links_eq_some {t : Tree} {a : Id} {p : Option Id} :
    t.links a = some p ↔ ∃ f ∈ t.folders.list, f.id = a ∧ f.parentId = p := by
  unfold links
  rw [Option.map_eq_some_iff]
  constructor
  · rintro ⟨f, hf, hp⟩
    exact ⟨f, Rows.mem_of_get? hf, Rows.key_get? hf, hp⟩
  · rintro ⟨f, hf, rfl, hp⟩
    exact ⟨f, Rows.get?_of_mem hf, hp⟩

theorem forest_iff {t : Tree} : t.Forest ↔ t.Closed ∧ Rooted t.links := by
  constructor
  · intro h
    refine ⟨h.closed, ?_⟩
    intro a p ha
    obtain ⟨f, hf, rfl, -⟩ := links_eq_some.1 ha
    obtain ⟨l, hl, -⟩ := h.chains f hf
    exact ⟨l, hl⟩
  · rintro ⟨hclosed, hrooted⟩
    refine ⟨hclosed, ?_⟩
    intro f hf
    obtain ⟨l, hl⟩ := hrooted f.id f.parentId (links_eq_some.2 ⟨f, hf, rfl, rfl⟩)
    exact ⟨l, hl, hl.nodup⟩

/-- In a forest every place has a chain. -/
theorem Forest.chain {t : Tree} (ht : t.Forest) {ws : Id} {place : Option Id} (h : t.Holds ws place) :
    ∃ l, Chain t.links place l := by
  cases place with
  | none => exact ⟨[], .root⟩
  | some p =>
    obtain ⟨g, hg, -⟩ := h p rfl
    obtain ⟨l, hl, -⟩ := ht.chains g (Rows.mem_of_get? hg)
    rw [Rows.key_get? hg] at hl
    exact ⟨l, hl⟩

/-- The folders of a chain are stored. -/
theorem mem_chain_stored {t : Tree} {o : Option Id} {l : List Id} (h : Chain t.links o l) {a : Id} (ha : a ∈ l) :
    ∃ f, t.folders.get? a = some f := by
  obtain ⟨p, hp⟩ := h.linked a ha
  obtain ⟨f, hf, rfl, -⟩ := links_eq_some.1 hp
  exact ⟨f, Rows.get?_of_mem hf⟩

/-! ## Edits -/

/-- What a committed operation does to the folders and requests; `P` holds of the folder it writes. -/
inductive Edit (P : Folder → Prop) (t t' : Tree) : Prop
  | none : t'.folders = t.folders → t'.requests = t.requests → Edit P t t'
  /-- A folder is written, under the id of no folder or of one of the same workspace. -/
  | folder (f : Folder) : P f → t.Holds f.workspaceId f.parentId →
      (∀ g, t.folders.get? f.id = some g → g.workspaceId = f.workspaceId) →
      t'.folders = t.folders.put f → t'.requests = t.requests → Edit P t t'
  | request (r : RequestDefinition) : t.Holds r.workspaceId r.folderId →
      t'.folders = t.folders → t'.requests = t.requests.put r → Edit P t t'
  /-- Folders and requests go, with every folder and request in a folder that goes. -/
  | prune (gone : Id → Bool) (goneRequest : RequestDefinition → Bool) :
      (∀ f ∈ t.folders.list, ∀ p, f.parentId = some p → gone p → gone f.id) →
      (∀ r ∈ t.requests.list, ∀ p, r.folderId = some p → gone p → goneRequest r) →
      t'.folders = t.folders.keep (fun f => !gone f.id) → t'.requests = t.requests.keep (fun r => !goneRequest r) →
      Edit P t t'

theorem Holds.congr {t t' : Tree} {ws : Id} {place : Option Id} (h : t.Holds ws place)
    (hfolders : t'.folders = t.folders) : t'.Holds ws place := by
  unfold Holds
  rw [hfolders]
  exact h

/-- A written folder stays in its workspace, so every place stays one of its workspace. -/
theorem Holds.put {t t' : Tree} {ws : Id} {place : Option Id} (h : t.Holds ws place) {f : Folder}
    (hsame : ∀ g, t.folders.get? f.id = some g → g.workspaceId = f.workspaceId)
    (hput : t'.folders = t.folders.put f) : t'.Holds ws place := by
  intro p hp
  obtain ⟨g, hg, hws⟩ := h p hp
  rw [hput, Rows.get?_put]
  split_ifs with hpf
  · rw [hpf] at hg
    exact ⟨f, rfl, (hsame g hg).symm.trans hws⟩
  · exact ⟨g, hg, hws⟩

theorem Edit.closed {P : Folder → Prop} {t t' : Tree} (h : Edit P t t') (ht : t.Closed) : t'.Closed := by
  cases h with
  | none hfolders hrequests =>
    constructor
    · rw [hfolders]
      exact fun f hf => (ht.folders f hf).congr hfolders
    · rw [hrequests]
      exact fun r hr => (ht.requests r hr).congr hfolders
  | folder f _ hplace hsame hfolders hrequests =>
    constructor
    · intro g hg
      rw [hfolders, Rows.mem_put] at hg
      obtain ⟨hg, -⟩ | rfl := hg
      · exact (ht.folders g hg).put hsame hfolders
      · exact hplace.put hsame hfolders
    · rw [hrequests]
      exact fun r hr => (ht.requests r hr).put hsame hfolders
  | request r hplace hfolders hrequests =>
    constructor
    · rw [hfolders]
      exact fun f hf => (ht.folders f hf).congr hfolders
    · intro q hq
      rw [hrequests, Rows.mem_put] at hq
      obtain ⟨hq, -⟩ | rfl := hq
      · exact (ht.requests q hq).congr hfolders
      · exact hplace.congr hfolders
  | prune gone goneRequest hdown hrequest hfolders hrequests =>
    have hkept : ∀ {ws : Id} {place : Option Id}, t.Holds ws place → (∀ p, place = some p → ¬ gone p) →
        t'.Holds ws place := by
      intro ws place h hp p hplace
      obtain ⟨g, hg, hws⟩ := h p hplace
      refine ⟨g, ?_, hws⟩
      rw [hfolders, Rows.get?_keep, hg, Option.filter_some, Rows.key_get? hg]
      simp [hp p hplace]
    constructor
    · intro f hf
      rw [hfolders, Rows.mem_keep] at hf
      refine hkept (ht.folders f hf.1) fun p hp hgone => ?_
      have := hdown f hf.1 p hp hgone
      simp [this] at hf
    · intro r hr
      rw [hrequests, Rows.mem_keep] at hr
      refine hkept (ht.requests r hr.1) fun p hp hgone => ?_
      have := hrequest r hr.1 p hp hgone
      simp [this] at hr

theorem links_put {t t' : Tree} {f : Folder} (h : t'.folders = t.folders.put f) :
    t'.links = t.links.link f.id f.parentId := by
  funext a
  unfold links Links.link
  rw [h, Rows.get?_put]
  split_ifs with ha
  · rfl
  · rfl

/-- A folder is not on the chain of its parent, as the tree has that chain. -/
def Upward (t : Tree) (f : Folder) : Prop := ∀ l, Chain t.links f.parentId l → f.id ∉ l

theorem Edit.forest {P : Folder → Prop} {t t' : Tree} (h : Edit P t t') (hup : ∀ f, P f → t.Upward f) (ht : t.Forest) :
    t'.Forest := by
  refine forest_iff.2 ⟨h.closed ht.closed, ?_⟩
  have hrooted := (forest_iff.1 ht).2
  cases h with
  | none hfolders _ =>
    unfold links
    rw [hfolders]
    exact hrooted
  | request r _ hfolders _ =>
    unfold links
    rw [hfolders]
    exact hrooted
  | folder f hP hplace _ hfolders _ =>
    rw [links_put hfolders]
    obtain ⟨l, hl⟩ := ht.chain hplace
    exact hrooted.link hl (hup f hP l hl)
  | prune gone _ hdown _ hfolders _ =>
    refine hrooted.prune (fun a => gone a) ?_ ?_ ?_
    · intro a p ha hp
      obtain ⟨f, hf, rfl, hparent⟩ := links_eq_some.1 ha
      exact hdown f hf p hparent hp
    · intro a ha
      unfold links
      rw [hfolders, Rows.get?_keep]
      cases hf : t.folders.get? a with
      | none => rfl
      | some f => simp [Rows.key_get? hf, ha]
    · intro a ha
      unfold links
      rw [hfolders, Rows.get?_keep]
      cases hf : t.folders.get? a with
      | none => rfl
      | some f => simp [Rows.key_get? hf, ha]

/-! ## What the operations write -/

theorem checkPut_ok {t : Tree} {owner : Option Id} {ws : Id} (h : t.checkPut owner ws = .ok ()) :
    (∀ o, owner = some o → o = ws) ∧ ws ∈ t.workspaces := by
  unfold checkPut at h
  split_ifs at h with howner hws
  refine ⟨?_, by simpa using hws⟩
  rintro o rfl
  simpa using howner

theorem putFolder_ok {t t' : Tree} {f : Folder} (h : t.putFolder f = .ok t') :
    (∀ g, t.folders.get? f.id = some g → g.workspaceId = f.workspaceId) ∧ t' = { t with folders := t.folders.put f } := by
  unfold putFolder at h
  obtain ⟨_, hcheck, h⟩ := bind_eq_ok.1 h
  refine ⟨?_, (Except.ok.inj h).symm⟩
  intro g hg
  exact (checkPut_ok hcheck).1 _ (by rw [hg]; rfl)

theorem putRequest_ok {t t' : Tree} {r : RequestDefinition} (h : t.putRequest r = .ok t') :
    t' = { t with requests := t.requests.put r } := by
  unfold putRequest at h
  obtain ⟨_, -, h⟩ := bind_eq_ok.1 h
  exact (Except.ok.inj h).symm

theorem validateFolderParentIn_ok {t : Tree} {ws : Id} {parent : Option Id}
    (h : t.validateFolderParentIn ws parent = .ok ()) : t.Holds ws parent := by
  rintro p rfl
  unfold validateFolderParentIn at h
  split_ifs at h
  cases hg : t.folders.get? p with
  | none => simp [hg] at h
  | some g =>
    refine ⟨g, rfl, ?_⟩
    by_contra hws
    simp [hg, hws] at h

theorem createFolder_ok {t t' : Tree} {id ws : Id} {parent : Option Id} {name : String} {f : Folder}
    (h : t.createFolder id ws parent name = .ok (t', f)) :
    t.Holds ws parent ∧ f.id = id ∧ f.workspaceId = ws ∧ f.parentId = parent ∧ t.putFolder f = .ok t' := by
  unfold createFolder at h
  obtain ⟨_, hvalid, h⟩ := bind_eq_ok.1 h
  obtain ⟨t₁, hput, h⟩ := bind_eq_ok.1 h
  cases h
  exact ⟨validateFolderParentIn_ok hvalid, rfl, rfl, rfl, hput⟩

theorem saveFolderWith_ok {t t' : Tree} {f g : Folder} {inPlace : Bool} (h : t.saveFolderWith f inPlace = .ok (t', g)) :
    g = t.savedFolder f inPlace ∧ t.Holds g.workspaceId g.parentId ∧ t.putFolder g = .ok t' := by
  unfold saveFolderWith at h
  obtain ⟨_, hvalid, h⟩ := bind_eq_ok.1 h
  obtain ⟨t₁, hput, h⟩ := bind_eq_ok.1 h
  cases h
  exact ⟨rfl, validateFolderParentIn_ok hvalid, hput⟩

/-- The walk of a move ends at a root, in the folder's workspace and without the moved folder. -/
theorem checkAncestry_ok {t : Tree} {id ws : Id} {seen : List Id} {place : Option Id}
    (h : t.checkAncestry id ws seen place = .ok ()) : t.Holds ws place ∧ ∃ l, Chain t.links place l ∧ id ∉ l := by
  fun_induction checkAncestry t id ws seen place with
  | case1 => exact ⟨fun p hp => absurd hp (by simp), [], .root, List.not_mem_nil⟩
  | case2 => cases h
  | case3 => cases h
  | case4 => cases h
  | case5 => cases h
  | case6 seen c hne hc a ha hws ih =>
    obtain ⟨-, l, hl, hid⟩ := ih h
    constructor
    · intro p hp
      cases hp
      exact ⟨a, ha, not_not.1 hws⟩
    · refine ⟨c :: l, .link (by rw [links, ha]; rfl) hl, ?_⟩
      rw [List.mem_cons, not_or]
      exact ⟨Ne.symm hne, hid⟩

theorem moveFolderGuarded_ok {t t' : Tree} {id : Id} {newParent : Option Id} {sortKey : Float}
    {mayLeave : Folder → Bool} {m : Move Folder}
    (h : t.moveFolderGuarded id newParent sortKey mayLeave = .ok (t', m)) :
    t' = t ∨ ∃ f g, t.folders.get? id = some f ∧ t.checkAncestry id f.workspaceId [] newParent = .ok () ∧
      g = { f with parentId := newParent, sortKey := sortKey } ∧ t.putFolder g = .ok t' := by
  unfold moveFolderGuarded at h
  split at h
  · cases h
  · rename_i f hf
    obtain ⟨_, hwalk, h⟩ := bind_eq_ok.1 h
    split at h
    · cases h
      exact .inl rfl
    · obtain ⟨t₁, hput, h⟩ := bind_eq_ok.1 h
      cases h
      exact .inr ⟨f, _, hf, hwalk, rfl, hput⟩

end Tree

/-! ## The folders a delete takes along -/

theorem mem_doomChildren {all : List Folder} {cur a : Id} {doomed : List Id} :
    a ∈ doomChildren all cur doomed ↔ a ∈ doomed ∨ ∃ x ∈ all, x.parentId = some cur ∧ x.id = a := by
  unfold doomChildren
  induction all generalizing doomed with
  | nil => simp
  | cons x all ih =>
    rw [List.foldl_cons, ih]
    simp only [List.mem_cons, exists_eq_or_imp]
    split_ifs with h
    · rw [List.mem_append, List.mem_singleton, or_assoc, eq_comm]
      simp [h.1]
    · rw [not_and, not_not] at h
      constructor
      · rintro (ha | hx)
        · exact .inl ha
        · exact .inr (.inr hx)
      · rintro (ha | ⟨hp, rfl⟩ | hx)
        · exact .inl ha
        · exact .inl (h hp)
        · exact .inr hx

theorem doomChildren_append (all : List Folder) (cur : Id) (doomed : List Id) :
    ∃ new, doomChildren all cur doomed = doomed ++ new := by
  unfold doomChildren
  induction all generalizing doomed with
  | nil => exact ⟨[], (List.append_nil _).symm⟩
  | cons x all ih =>
    rw [List.foldl_cons]
    split_ifs with h
    · obtain ⟨new, hnew⟩ := ih (doomed ++ [x.id])
      exact ⟨x.id :: new, by rw [hnew, List.append_assoc, List.singleton_append]⟩
    · exact ih doomed

/-- The children of the first `i` doomed folders are doomed. -/
def Swept (all : List Folder) (doomed : List Id) (i : Nat) : Prop :=
  ∀ x ∈ all, ∀ c ∈ doomed.take i, x.parentId = some c → x.id ∈ doomed

theorem Swept.step {all : List Folder} {doomed : List Id} {i : Nat} (h : Swept all doomed i) (hi : i < doomed.length) :
    Swept all (doomChildren all doomed[i] doomed) (i + 1) := by
  intro x hx c hc hp
  rw [mem_doomChildren]
  obtain ⟨new, hnew⟩ := doomChildren_append all doomed[i] doomed
  rw [hnew, List.take_append_of_le_length hi, List.take_succ_eq_append_getElem hi, List.mem_append,
    List.mem_singleton] at hc
  obtain hc | rfl := hc
  · exact .inl (h x hx c hc hp)
  · exact .inr ⟨x, hx, hp, rfl⟩

/-- The loop ends with a set that holds what it started from, more folders of `all` only, and every child in `all` of
what it holds. -/
theorem doomedFrom_spec {all : List Folder} {doomed : List Id} {i : Nat} (h : Swept all doomed i) :
    doomed ⊆ doomedFrom all doomed i ∧
      (∀ a ∈ doomedFrom all doomed i, a ∈ doomed ∨ ∃ x ∈ all, x.id = a) ∧
      ∀ x ∈ all, ∀ c ∈ doomedFrom all doomed i, x.parentId = some c → x.id ∈ doomedFrom all doomed i := by
  fun_induction doomedFrom all doomed i with
  | case1 doomed i hi ih =>
    obtain ⟨hsub, hfrom, hclosed⟩ := ih (h.step hi)
    refine ⟨?_, ?_, hclosed⟩
    · exact List.Subset.trans (fun a ha => mem_doomChildren.2 (.inl ha)) hsub
    · intro a ha
      obtain ha | ha := hfrom a ha
      · obtain ha | ⟨x, hx, -, rfl⟩ := mem_doomChildren.1 ha
        · exact .inl ha
        · exact .inr ⟨x, hx, rfl⟩
      · exact .inr ha
  | case2 doomed i hi =>
    refine ⟨List.Subset.refl _, fun a ha => .inl ha, ?_⟩
    intro x hx c hc hp
    refine h x hx c ?_ hp
    rwa [List.take_of_length_le (Nat.le_of_not_lt hi)]

namespace Tree

/-- Everything below a deleted folder is in its workspace, so the loop over that workspace finds it. -/
theorem deleteFolder_edit {P : Folder → Prop} {t t' : Tree} {id : Id} (ht : t.Closed) (h : t.deleteFolder id = .ok t') :
    Edit P t t' := by
  unfold deleteFolder at h
  split at h
  · cases h
  · rename_i f hf
    cases h
    generalize hall : (t.folders.list.filter fun x => x.workspaceId = f.workspaceId) = all
    have hmem : ∀ x, x ∈ all ↔ x ∈ t.folders.list ∧ x.workspaceId = f.workspaceId := by
      intro x
      rw [← hall, List.mem_filter, decide_eq_true_iff]
    have hswept : Swept all [id] 0 := by simp [Swept]
    obtain ⟨-, hfrom, hclosed⟩ := doomedFrom_spec hswept
    -- a doomed place is a folder of the workspace
    have hplace : ∀ {ws : Id} {place : Option Id} {p : Id}, t.Holds ws place → place = some p →
        p ∈ doomedFrom all [id] 0 → ws = f.workspaceId := by
      intro ws place p hholds hp hdoomed
      obtain ⟨g, hg, rfl⟩ := hholds p hp
      obtain hid | ⟨x, hx, rfl⟩ := hfrom p hdoomed
      · rw [List.mem_singleton.1 hid, hf] at hg
        cases hg
        rfl
      · obtain ⟨hstored, hws⟩ := (hmem x).1 hx
        rw [Rows.get?_of_mem hstored] at hg
        cases hg
        exact hws
    refine .prune (fun a => a ∈ doomedFrom all [id] 0)
      (fun r => r.id ∈ ((t.requests.list.filter fun r => r.workspaceId = f.workspaceId ∧
        r.folderId.any (· ∈ doomedFrom all [id] 0)).map (·.id))) ?_ ?_ ?_ ?_
    · intro x hx p hp hgone
      rw [decide_eq_true_iff] at hgone ⊢
      exact hclosed x ((hmem x).2 ⟨hx, hplace (ht.folders x hx) hp hgone⟩) p hgone hp
    · intro r hr p hp hgone
      rw [decide_eq_true_iff] at hgone ⊢
      refine List.mem_map_of_mem (List.mem_filter.2 ⟨hr, ?_⟩)
      simp [hplace (ht.requests r hr) hp hgone, hp, hgone]
    · simp only [deleteRequestsIn, decide_not]
    · simp only [deleteRequestsIn, decide_not]

theorem putRevision_ok {t t' : Tree} {v : RequestRevision} (h : t.putRevision v = .ok t') :
    t' = { t with revisions := t.revisions.put v } := by
  unfold putRevision at h
  obtain ⟨existing, -, h⟩ := bind_eq_ok.1 h
  obtain ⟨_, -, h⟩ := bind_eq_ok.1 h
  obtain ⟨_, -, h⟩ := bind_eq_ok.1 h
  obtain ⟨_, -, h⟩ := bind_eq_ok.1 h
  cases h
  rfl

/-- A request is placed in a folder of its workspace, a stored one where it was. -/
theorem placeRequest_ok {t : Tree} {r q : RequestDefinition} {new : Bool} (ht : t.Closed)
    (h : t.placeRequest r new = .ok q) : t.Holds q.workspaceId q.folderId := by
  unfold placeRequest at h
  split at h
  · rename_i held hheld
    split_ifs at h with hws
    cases h
    rw [not_not.1 hws]
    exact ht.requests held (Rows.mem_of_get? hheld)
  · split_ifs at h
    split at h
    · rename_i hfolder
      cases h
      intro p hp
      rw [hfolder] at hp
      cases hp
    · rename_i c hfolder
      split at h
      · cases h
      · rename_i f hf
        split_ifs at h with hws
        cases h
        intro p hp
        rw [hfolder] at hp
        cases hp
        exact ⟨f, hf, not_not.1 hws⟩

theorem appendRevision_ok {specHash : RequestSpec → String} {t t' : Tree} {r q : RequestDefinition} {new : Bool}
    {newRevision : Id} (h : t.appendRevision specHash r new newRevision = .ok (t', q)) :
    (q.id = r.id ∧ q.workspaceId = r.workspaceId ∧ q.folderId = r.folderId) ∧ t'.folders = t.folders ∧
      (t'.requests = t.requests ∨ t'.requests = t.requests.put r) := by
  unfold appendRevision at h
  obtain ⟨prev, -, h⟩ := bind_eq_ok.1 h
  obtain ⟨_, -, h⟩ := bind_eq_ok.1 h
  split at h
  · obtain ⟨t₁, hnew, h⟩ := bind_eq_ok.1 h
    obtain ⟨t₂, hrevision, h⟩ := bind_eq_ok.1 h
    cases h
    have h₂ := putRevision_ok hrevision
    subst h₂
    refine ⟨⟨rfl, rfl, rfl⟩, ?_⟩
    unfold putNewRequest at hnew
    split_ifs at hnew
    · have h₁ := putRequest_ok hnew
      subst h₁
      exact ⟨rfl, .inr rfl⟩
    · cases hnew
      exact ⟨rfl, .inl rfl⟩
  · cases h
    exact ⟨⟨rfl, rfl, rfl⟩, rfl, .inl rfl⟩

theorem saveRequestHolding_edit {P : Folder → Prop} {specHash : RequestSpec → String} {t t' : Tree}
    {r q : RequestDefinition} {gone : Option String} {new : Bool} {newRevision : Id} (ht : t.Closed)
    (h : t.saveRequestHolding specHash r gone new newRevision = .ok (t', q)) : Edit P t t' := by
  unfold saveRequestHolding at h
  obtain ⟨placed, hplace, h⟩ := bind_eq_ok.1 h
  have hholds := placeRequest_ok ht hplace
  split at h
  · cases h
  · obtain ⟨⟨t₁, q₁⟩, happend, h⟩ := bind_eq_ok.1 h
    obtain ⟨t₂, hput, h⟩ := bind_eq_ok.1 h
    cases h
    obtain ⟨⟨hid, hws, hfolder⟩, hfolders, hrequests⟩ := appendRevision_ok happend
    have h₂ := putRequest_ok hput
    subst h₂
    refine .request q (by rw [hws, hfolder]; exact hholds) hfolders ?_
    obtain hrequests | hrequests := hrequests
    · exact congrArg (Rows.put · q) hrequests
    · simp only [hrequests]
      exact Rows.put_put hid.symm

theorem checkRequestFolder_ok {t : Tree} {ws : Id} {folder : Option Id} (h : t.checkRequestFolder ws folder = .ok ()) :
    t.Holds ws folder := by
  rintro p rfl
  unfold checkRequestFolder at h
  cases hg : t.folders.get? p with
  | none => simp [hg] at h
  | some g =>
    refine ⟨g, rfl, ?_⟩
    by_contra hws
    simp [hg, hws] at h

theorem moveRequestGuarded_edit {P : Folder → Prop} {t t' : Tree} {id : Id} {folder : Option Id} {sortKey : Float}
    {mayLeave : Folder → Bool} {m : Move RequestDefinition}
    (h : t.moveRequestGuarded id folder sortKey mayLeave = .ok (t', m)) : Edit P t t' := by
  unfold moveRequestGuarded at h
  split at h
  · cases h
  · rename_i r hr
    obtain ⟨_, hvalid, h⟩ := bind_eq_ok.1 h
    have hholds := checkRequestFolder_ok hvalid
    split at h
    · cases h
      exact .none rfl rfl
    · obtain ⟨t₁, hput, h⟩ := bind_eq_ok.1 h
      cases h
      have h₁ := putRequest_ok hput
      subst h₁
      exact .request _ hholds rfl rfl

theorem deleteRequest_edit {P : Folder → Prop} (t : Tree) (id : Id) : Edit P t (t.deleteRequest id) := by
  unfold deleteRequest
  split
  · rename_i r hr
    refine .prune (fun _ => false) (fun q => q.id ∈ [r].map (·.id)) ?_ ?_ ?_ ?_
    · exact fun f _ p _ hp => absurd hp (by simp)
    · exact fun q _ p _ hp => absurd hp (by simp)
    · simp [deleteRequestsIn, Rows.keep]
    · simp only [deleteRequestsIn, decide_not]
  · exact .none rfl rfl

/-- A folder under an id that no folder has. -/
theorem upward_of_new {t : Tree} {f : Folder} (h : t.folders.get? f.id = none) : t.Upward f := by
  intro l hl hmem
  obtain ⟨g, hg⟩ := mem_chain_stored hl hmem
  rw [h] at hg
  cases hg

/-- A stored folder with its parent as it is. -/
theorem upward_of_stored {t : Tree} {f g : Folder} (hg : t.folders.get? f.id = some g)
    (hp : f.parentId = g.parentId) : t.Upward f := by
  intro l hl
  have hlink : t.links f.id = some f.parentId := by rw [links, hg, hp]; rfl
  exact (List.nodup_cons.1 (Chain.link hlink hl).nodup).1

theorem edit_of_putFolder {P : Folder → Prop} {t t' : Tree} {f : Folder} (hP : P f)
    (hplace : t.Holds f.workspaceId f.parentId) (h : t.putFolder f = .ok t') : Edit P t t' := by
  obtain ⟨hsame, rfl⟩ := putFolder_ok h
  exact .folder f hP hplace hsame rfl rfl

theorem savedFolder_upward (t : Tree) (f : Folder) : t.Upward (t.savedFolder f true) := by
  cases hf : t.folders.get? f.id with
  | none => exact upward_of_new hf
  | some g => exact upward_of_stored (f := t.savedFolder f true) hf (by simp [savedFolder, hf])

theorem moveFolderGuarded_edit {t t' : Tree} {id : Id} {newParent : Option Id} {sortKey : Float}
    {mayLeave : Folder → Bool} {m : Move Folder}
    (h : t.moveFolderGuarded id newParent sortKey mayLeave = .ok (t', m)) : Edit t.Upward t t' := by
  obtain rfl | ⟨f, g, hf, hwalk, rfl, hput⟩ := moveFolderGuarded_ok h
  · exact .none rfl rfl
  · obtain ⟨hholds, l, hl, hid⟩ := checkAncestry_ok hwalk
    refine edit_of_putFolder ?_ hholds hput
    intro l' hl'
    rw [hl'.unique hl]
    simp only [Rows.key_get? hf]
    exact hid

theorem Edit.mono {P Q : Folder → Prop} {t t' : Tree} (h : Edit P t t') (hPQ : ∀ f, P f → Q f) : Edit Q t t' := by
  cases h with
  | none hfolders hrequests => exact .none hfolders hrequests
  | folder f hP hplace hsame hfolders hrequests => exact .folder f (hPQ f hP) hplace hsame hfolders hrequests
  | request r hplace hfolders hrequests => exact .request r hplace hfolders hrequests
  | prune gone goneRequest hdown hrequest hfolders hrequests =>
    exact .prune gone goneRequest hdown hrequest hfolders hrequests

end Tree

/-! ## Runs -/

/-- A write transaction, with what it draws from outside: fresh ids, the attachment check, and for a duplicate the
request an earlier transaction read. -/
inductive Op
  | createFolder (id ws : Id) (parent : Option Id) (name : String)
  | saveFolder (f : Folder)
  | saveFolderInPlace (f : Folder)
  | moveFolder (id : Id) (newParent : Option Id) (sortKey : Float)
  | moveFolderKeepingIsolation (id : Id) (newParent : Option Id) (sortKey : Float) (mayLeave : Option Id)
  | deleteFolder (id : Id)
  | createRequest (id ws : Id) (folder : Option Id) (name : String) (spec : RequestSpec) (gone : Option String)
      (newRevision : Id)
  | saveRequest (r : RequestDefinition) (gone : Option String) (newRevision : Id)
  | moveRequest (id : Id) (folder : Option Id) (sortKey : Float)
  | deleteRequest (id : Id)
  | duplicateRequest (id : Id) (r : RequestDefinition) (gone : Option String) (newRevision : Id)

namespace Op

/-- The tree a transaction commits. -/
def apply (specHash : RequestSpec → String) (t : Tree) : Op → Except AppError Tree
  | createFolder id ws parent name => Prod.fst <$> t.createFolder id ws parent name
  | saveFolder f => Prod.fst <$> t.saveFolder f
  | saveFolderInPlace f => Prod.fst <$> t.saveFolderInPlace f
  | moveFolder id newParent sortKey => Prod.fst <$> t.moveFolder id newParent sortKey
  | moveFolderKeepingIsolation id newParent sortKey mayLeave =>
    Prod.fst <$> t.moveFolderKeepingIsolation id newParent sortKey mayLeave
  | deleteFolder id => t.deleteFolder id
  | createRequest id ws folder name spec gone newRevision =>
    Prod.fst <$> t.createRequest specHash id ws folder name spec gone newRevision
  | saveRequest r gone newRevision => Prod.fst <$> t.saveRequest specHash r gone newRevision
  | moveRequest id folder sortKey => Prod.fst <$> t.moveRequest id folder sortKey
  | deleteRequest id => .ok (t.deleteRequest id)
  | duplicateRequest id r gone newRevision => Prod.fst <$> t.duplicateRequest specHash id r gone newRevision

/-- `Id::new` gives a new folder an id that no folder has. -/
def Issued (t : Tree) : Op → Prop
  | createFolder id _ _ _ => t.folders.get? id = none
  | _ => True

/-- A `save_folder` puts the folder neither under itself nor under a folder below it. -/
def Ascends (t : Tree) : Op → Prop
  | saveFolder f => t.Upward f
  | _ => True

theorem map_fst_ok {α : Type} {x : Except AppError (Tree × α)} {t' : Tree} (h : Prod.fst <$> x = .ok t') :
    ∃ a, x = .ok (t', a) := by
  cases x with
  | error e => cases h
  | ok y =>
    cases h
    exact ⟨y.2, rfl⟩

/-- What a committed transaction does: a folder it writes is not above its own parent, unless `save_folder` puts it
there. -/
theorem edits {specHash : RequestSpec → String} {t t' : Tree} {op : Op} (ht : t.Closed) (hid : op.Issued t)
    (h : op.apply specHash t = .ok t') : Tree.Edit (fun f => op.Ascends t → t.Upward f) t t' := by
  cases op with
  | createFolder id ws parent name =>
    obtain ⟨f, h⟩ := map_fst_ok h
    obtain ⟨hplace, rfl, rfl, rfl, hput⟩ := Tree.createFolder_ok h
    exact Tree.edit_of_putFolder (fun _ => Tree.upward_of_new hid) hplace hput
  | saveFolder f =>
    obtain ⟨g, h⟩ := map_fst_ok h
    obtain ⟨rfl, hplace, hput⟩ := Tree.saveFolderWith_ok h
    exact Tree.edit_of_putFolder (f := t.savedFolder f false) (fun hup => hup) hplace hput
  | saveFolderInPlace f =>
    obtain ⟨g, h⟩ := map_fst_ok h
    obtain ⟨rfl, hplace, hput⟩ := Tree.saveFolderWith_ok h
    exact Tree.edit_of_putFolder (fun _ => t.savedFolder_upward f) hplace hput
  | moveFolder id newParent sortKey =>
    obtain ⟨m, h⟩ := map_fst_ok h
    exact (Tree.moveFolderGuarded_edit h).mono fun f hf _ => hf
  | moveFolderKeepingIsolation id newParent sortKey mayLeave =>
    obtain ⟨m, h⟩ := map_fst_ok h
    exact (Tree.moveFolderGuarded_edit h).mono fun f hf _ => hf
  | deleteFolder id => exact Tree.deleteFolder_edit ht h
  | createRequest id ws folder name spec gone newRevision =>
    obtain ⟨q, h⟩ := map_fst_ok h
    exact Tree.saveRequestHolding_edit ht h
  | saveRequest r gone newRevision =>
    obtain ⟨q, h⟩ := map_fst_ok h
    exact Tree.saveRequestHolding_edit ht h
  | moveRequest id folder sortKey =>
    obtain ⟨m, h⟩ := map_fst_ok h
    exact Tree.moveRequestGuarded_edit h
  | deleteRequest id =>
    cases h
    exact Tree.deleteRequest_edit t id
  | duplicateRequest id r gone newRevision =>
    obtain ⟨q, h⟩ := map_fst_ok h
    exact Tree.saveRequestHolding_edit ht h

end Op

/-- One write transaction: it commits, or it is refused or fails and is rolled back. `Allowed` is what callers keep to. -/
inductive Step (specHash : RequestSpec → String) (Allowed : Tree → Op → Prop) (t : Tree) : Tree → Prop
  | commit {t' : Tree} (op : Op) : op.Issued t → Allowed t op → op.apply specHash t = .ok t' →
      Step specHash Allowed t t'
  | rollback : Step specHash Allowed t t

/-- Transactions of any caller. -/
abbrev AnyStep (specHash : RequestSpec → String) : Tree → Tree → Prop := Step specHash fun _ _ => True

/-- Transactions whose `save_folder` keeps a folder out from under itself. -/
abbrev AscendingStep (specHash : RequestSpec → String) : Tree → Tree → Prop := Step specHash fun t op => op.Ascends t

theorem Step.closed {specHash : RequestSpec → String} {Allowed : Tree → Op → Prop} {t t' : Tree}
    (h : Step specHash Allowed t t') (ht : t.Closed) : t'.Closed := by
  cases h with
  | commit op hid _ happly => exact (op.edits ht hid happly).closed ht
  | rollback => exact ht

theorem Step.forest {specHash : RequestSpec → String} {t t' : Tree} (h : AscendingStep specHash t t') (ht : t.Forest) :
    t'.Forest := by
  cases h with
  | commit op hid hup happly => exact (op.edits ht.closed hid happly).forest (fun f hf => hf hup) ht
  | rollback => exact ht

/-- **Every run from a forest keeps every parent and every request's folder in its workspace, and stays a forest as long
as no `save_folder` puts a folder under itself or one of its subfolders.** -/
theorem tree_stays_forest (specHash : RequestSpec → String) {t t' : Tree} (ht : t.Forest) :
    (Reaches (AnyStep specHash) t t' → t'.Closed) ∧ (Reaches (AscendingStep specHash) t t' → t'.Forest) := by
  constructor
  · intro hrun
    exact hrun.inv Tree.Closed (fun _ _ h => h.closed) ht.closed
  · intro hrun
    exact hrun.inv Tree.Forest (fun _ _ h => h.forest) ht

/-- A `save_folder` that commits leaves a forest exactly when it keeps the folder out from under itself. -/
theorem saveFolder_forest_iff {t t' : Tree} {f g : Folder} (ht : t.Forest) (h : t.saveFolder f = .ok (t', g)) :
    t'.Forest ↔ t.Upward f := by
  obtain ⟨rfl, hplace, hput⟩ := Tree.saveFolderWith_ok h
  have hedit := Tree.edit_of_putFolder (P := fun _ => True) trivial hplace hput
  obtain ⟨hsame, rfl⟩ := Tree.putFolder_ok hput
  have hplace : t.Holds f.workspaceId f.parentId := hplace
  obtain ⟨l, hl⟩ := ht.chain hplace
  rw [Tree.forest_iff, and_iff_right (hedit.closed ht.closed), Tree.links_put rfl]
  have hiff : Rooted (t.links.link f.id f.parentId) ↔ f.id ∉ l := rooted_link_iff (Tree.forest_iff.1 ht).2 hl
  refine hiff.trans ⟨fun hid l' hl' => ?_, fun hup => hup l hl⟩
  rw [hl'.unique hl]
  exact hid

section Sample

/-- Folder `id` of workspace 1. -/
def sampleFolder (id : Id) (parent : Option Id) : Folder where
  id := id
  workspaceId := 1
  parentId := parent
  name := ""
  sortKey := 1.0
  importRoot := false
  importEnvironmentIds := []
  useWorkspaceScope := false

/-- Workspace 1 with one folder, 2, at its top level. -/
def sampleTree : Tree where
  workspaces := [1]
  folders := ⟨[sampleFolder 2 none], List.nodup_singleton _⟩
  requests := Rows.empty
  revisions := Rows.empty

theorem sampleTree_forest : sampleTree.Forest := by
  refine ⟨⟨?_, ?_⟩, ?_⟩
  · intro f hf p hp
    rw [List.mem_singleton.1 hf] at hp
    cases hp
  · exact fun r hr => absurd hr List.not_mem_nil
  · intro f hf
    rw [List.mem_singleton.1 hf]
    exact ⟨[2], .link rfl .root, List.nodup_singleton _⟩

/-- Folder 3 is saved under folder 2. -/
theorem tree_stays_forest_sample :
    ∃ t', Reaches (AscendingStep id) sampleTree t' ∧ (t'.folders.get? 3).map (·.parentId) = some (some 2) ∧ t'.Forest := by
  have hstep : ∃ t', AscendingStep id sampleTree t' ∧ (t'.folders.get? 3).map (·.parentId) = some (some 2) :=
    ⟨_, .commit (.saveFolder (sampleFolder 3 (some 2))) trivial (Tree.upward_of_new rfl) rfl, rfl⟩
  obtain ⟨t', hstep, hfolder⟩ := hstep
  have hrun : Reaches (AscendingStep id) sampleTree t' := Relation.ReflTransGen.single hstep
  exact ⟨t', hrun, hfolder, (tree_stays_forest id sampleTree_forest).2 hrun⟩

/-- Folder 2 is saved under itself. -/
theorem tree_becomes_cyclic : ∃ t', sampleTree.Forest ∧ Reaches (AnyStep id) sampleTree t' ∧ ¬ t'.Forest := by
  have hsave : ∃ t' g, sampleTree.saveFolder (sampleFolder 2 (some 2)) = .ok (t', g) := ⟨_, _, rfl⟩
  obtain ⟨t', g, hsave⟩ := hsave
  have hstep : AnyStep id sampleTree t' := by
    refine .commit (.saveFolder (sampleFolder 2 (some 2))) trivial trivial ?_
    simp only [Op.apply, hsave]
    rfl
  refine ⟨t', sampleTree_forest, Relation.ReflTransGen.single hstep, ?_⟩
  rw [saveFolder_forest_iff sampleTree_forest hsave]
  intro hup
  exact hup [2] (.link rfl .root) List.mem_cons_self

end Sample

end Anvil.App
