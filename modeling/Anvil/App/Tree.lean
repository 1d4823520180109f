import Anvil.Lib.Forest
import Anvil.Lib.Rows
import Anvil.Lib.Run
import Anvil.Lib.Strings

/-!
# The workspace tree

Folders and requests of the workspaces of a profile, and the operations of `workspace.rs` that place them. Each operation
is one write transaction: it gives the tree it commits, or the error it rolls back with.

* `Tree` : the workspace, folder, request and revision rows; a row carries its id, its workspace and its parent;
* `putFolder`, `putRequest`, `putRevision` : `Records::put` for the three kinds;
* `createFolder` … `duplicateRequest` : the operations;
* `checkAncestry`, `sealedRootIn`, `doomedFrom` : the loops over ancestors and descendants.
-/

namespace Anvil.App
open Anvil.Lib

/-- A `Uuid`. -/
abbrev Id := Nat

/-- A serialised request spec. -/
abbrev RequestSpec := String

structure Folder where
  id : Id
  workspaceId : Id
  /-- `none`: top level of the workspace. -/
  parentId : Option Id
  name : String
  sortKey : Float
  importRoot : Bool
  importEnvironmentIds : List Id
  useWorkspaceScope : Bool

structure RequestDefinition where
  id : Id
  workspaceId : Id
  folderId : Option Id
  name : String
  sortKey : Float
  spec : RequestSpec
  revisionId : Option Id

/-- A revision with the workspace its row is filed under. -/
structure RequestRevision where
  id : Id
  workspaceId : Id
  requestId : Id
  specSha256 : String
  spec : RequestSpec

structure Tree where
  workspaces : List Id
  folders : Rows Folder.id
  requests : Rows RequestDefinition.id
  revisions : Rows RequestRevision.id

inductive StoreError
  | notFound (what : String)
  | integrity
  | ownership
  | foreignFolderParent
deriving DecidableEq, Repr

inductive AppError
  | notFound (what : String)
  | invalid (why : String)
  | store (e : StoreError)
deriving DecidableEq, Repr

/-- What a move that respects import isolation did. -/
inductive Move (α : Type)
  | moved (a : α)
  | leavesImport (root : Folder)

/-! ## Writing rows -/

namespace Tree

/-- The checks of `Records::put` on a row of workspace `ws`, where the row already stored under the id has `owner`. -/
def checkPut (t : Tree) (owner : Option Id) (ws : Id) : Except AppError Unit :=
  if owner.any (· ≠ ws) then .error (.store .ownership)
  else if ws ∉ t.workspaces then .error (.store (.notFound "workspace"))
  else .ok ()

def putFolder (t : Tree) (f : Folder) : Except AppError Tree := do
  t.checkPut ((t.folders.get? f.id).map (·.workspaceId)) f.workspaceId
  return { t with folders := t.folders.put f }

def putRequest (t : Tree) (r : RequestDefinition) : Except AppError Tree := do
  t.checkPut ((t.requests.get? r.id).map (·.workspaceId)) r.workspaceId
  return { t with requests := t.requests.put r }

/-- The request of a revision is stored in the revision's workspace. -/
def validRevisionOwner (t : Tree) (v : RequestRevision) : Bool :=
  (t.requests.get? v.requestId).any (·.workspaceId = v.workspaceId)

/-- A revision reads only while its request is in its workspace. -/
def getRevision (t : Tree) (id : Id) : Except AppError (Option RequestRevision) :=
  match t.revisions.get? id with
  | none => .ok none
  | some v => if t.validRevisionOwner v then .ok (some v) else .error (.store .integrity)

def putRevision (t : Tree) (v : RequestRevision) : Except AppError Tree := do
  let existing ← t.getRevision v.id
  refuseIf (existing.any (·.requestId ≠ v.requestId)) (.store .ownership)
  t.checkPut (existing.map (·.workspaceId)) v.workspaceId
  refuseIf (!t.validRevisionOwner v) (.store .integrity)
  return { t with revisions := t.revisions.put v }

/-! ## Folders -/

/-- The workspace is stored, and so is the parent, in that workspace. -/
def validateFolderParentIn (t : Tree) (ws : Id) (parent : Option Id) : Except AppError Unit :=
  if ws ∉ t.workspaces then .error (.store (.notFound "workspace"))
  else match parent with
    | none => .ok ()
    | some p => match t.folders.get? p with
      | none => .error (.store (.notFound "folder"))
      | some folder => if folder.workspaceId ≠ ws then .error (.store .foreignFolderParent) else .ok ()

/-- A name as a new folder or request takes it. -/
def trimmed (name : String) : String := String.ofList (trim name.toList)

/-- `id` is what `Id::new` gave the folder. -/
def createFolder (t : Tree) (id ws : Id) (parent : Option Id) (name : String) : Except AppError (Tree × Folder) := do
  t.validateFolderParentIn ws parent
  let siblings := t.folders.list.filter fun f => f.workspaceId = ws
  let f : Folder := {
    id := id, workspaceId := ws, parentId := parent, name := trimmed name
    sortKey := Float.ofNat (siblings.filter fun f => f.parentId = parent).length + 1.0
    importRoot := false, importEnvironmentIds := [], useWorkspaceScope := false }
  let t' ← t.putFolder f
  return (t', f)

/-- The folder that `save_folder_with` writes for `f`: a stored folder keeps what an import gave it and, saved in place,
its parent. -/
def savedFolder (t : Tree) (f : Folder) (inPlace : Bool) : Folder :=
  let stored := t.folders.get? f.id
  { f with
    parentId := if inPlace then (stored.map (·.parentId)).getD f.parentId else f.parentId
    importRoot := stored.any (·.importRoot)
    importEnvironmentIds := (stored.map (·.importEnvironmentIds)).getD []
    useWorkspaceScope := stored.any (·.useWorkspaceScope) }

def saveFolderWith (t : Tree) (f : Folder) (inPlace : Bool) : Except AppError (Tree × Folder) := do
  let f := t.savedFolder f inPlace
  t.validateFolderParentIn f.workspaceId f.parentId
  let t' ← t.putFolder f
  return (t', f)

def saveFolder (t : Tree) (f : Folder) : Except AppError (Tree × Folder) := t.saveFolderWith f false

def saveFolderInPlace (t : Tree) (f : Folder) : Except AppError (Tree × Folder) := t.saveFolderWith f true

/-- How many stored folders are not in `seen`: what a walk that never takes a folder twice has left. -/
def unseen (t : Tree) (seen : List Id) : Nat := ((t.folders.list.map (·.id)).filter (· ∉ seen)).length

theorem unseen_lt {t : Tree} {seen : List Id} {c : Id} {a : Folder} (ha : t.folders.get? c = some a) (hc : c ∉ seen) :
    t.unseen (c :: seen) < t.unseen seen := by
  unfold unseen
  have hmem : c ∈ (t.folders.list.map (·.id)).filter (· ∉ seen) := by
    rw [List.mem_filter]
    exact ⟨List.mem_map.2 ⟨a, Rows.mem_of_get? ha, Rows.key_get? ha⟩, by simpa using hc⟩
  have hcut : (t.folders.list.map (·.id)).filter (· ∉ c :: seen)
      = ((t.folders.list.map (·.id)).filter (· ∉ seen)).filter (· ≠ c) := by
    rw [List.filter_filter]
    apply List.filter_congr
    intro b _
    simp
  rw [hcut]
  exact List.length_filter_lt_length_iff_exists.2 ⟨c, hmem, by simp⟩

/-- The walk of `move_folder_guarded` from the new parent upwards: no folder of it is the moved one, is met twice, is
missing or is in another workspace. -/
def checkAncestry (t : Tree) (id ws : Id) (seen : List Id) : Option Id → Except AppError Unit
  | none => .ok ()
  | some c =>
    if c = id then .error (.invalid "a folder cannot be moved into itself or one of its subfolders")
    else if _hc : c ∈ seen then .error (.invalid "the target folder's ancestry is cyclic")
    else match _ha : t.folders.get? c with
      | none => .error (.notFound "folder")
      | some a =>
        if a.workspaceId ≠ ws then .error (.invalid "cannot move a folder to another workspace")
        else checkAncestry t id ws (c :: seen) a.parentId
termination_by t.unseen seen
decreasing_by exact unseen_lt _ha _hc

/-- The innermost import root above `folder`, unless it is open to its workspace. -/
def sealedRootIn (t : Tree) (seen : List Id) : Option Id → Option Folder
  | none => none
  | some c =>
    if _hc : c ∈ seen then none
    else match _hf : t.folders.get? c with
      | none => none
      | some f =>
        if f.importRoot then (if f.useWorkspaceScope then none else some f)
        else sealedRootIn t (c :: seen) f.parentId
termination_by t.unseen seen
decreasing_by exact unseen_lt _hf _hc

/-- The import root, not open to its workspace, that a move takes what it moves out of. -/
def leavesImportIn (t : Tree) (source target : Option Id) : Option Folder :=
  (t.sealedRootIn [] source).filter fun root => (t.sealedRootIn [] target).all fun r => r.id ≠ root.id

def moveFolderGuarded (t : Tree) (id : Id) (newParent : Option Id) (sortKey : Float) (mayLeave : Folder → Bool) :
    Except AppError (Tree × Move Folder) :=
  match t.folders.get? id with
  | none => .error (.notFound "folder")
  | some f => do
    t.checkAncestry id f.workspaceId [] newParent
    match if f.importRoot then none else (t.leavesImportIn f.parentId newParent).filter (!mayLeave ·) with
    | some root => return (t, .leavesImport root)
    | none =>
      let f := { f with parentId := newParent, sortKey := sortKey }
      let t' ← t.putFolder f
      return (t', .moved f)

def moveFolder (t : Tree) (id : Id) (newParent : Option Id) (sortKey : Float) : Except AppError (Tree × Move Folder) :=
  t.moveFolderGuarded id newParent sortKey fun _ => true

def moveFolderKeepingIsolation (t : Tree) (id : Id) (newParent : Option Id) (sortKey : Float) (mayLeave : Option Id) :
    Except AppError (Tree × Move Folder) :=
  t.moveFolderGuarded id newParent sortKey fun root => some root.id = mayLeave

end Tree

/-- One round of the loop of `delete_folder`: the children of `cur` that are not doomed yet follow the doomed ones. -/
def doomChildren (all : List Folder) (cur : Id) (doomed : List Id) : List Id :=
  all.foldl (fun d x => if x.parentId = some cur ∧ x.id ∉ d then d ++ [x.id] else d) doomed

/-- How many of `all` are not doomed. -/
def spared (all : List Folder) (doomed : List Id) : Nat := (all.filter fun x => x.id ∉ doomed).length

theorem spared_append_lt {all : List Folder} {doomed : List Id} {x : Folder} (hx : x ∈ all) (hd : x.id ∉ doomed) :
    spared all (doomed ++ [x.id]) < spared all doomed := by
  unfold spared
  have hcut : all.filter (fun y => y.id ∉ doomed ++ [x.id])
      = (all.filter fun y => y.id ∉ doomed).filter fun y => y.id ≠ x.id := by
    rw [List.filter_filter]
    apply List.filter_congr
    intro y _
    simp [and_comm]
  rw [hcut]
  exact List.length_filter_lt_length_iff_exists.2 ⟨x, by simp [hx, hd], by simp⟩

theorem spared_doomChildren (all : List Folder) (cur : Id) (doomed : List Id) :
    spared all (doomChildren all cur doomed) + (doomChildren all cur doomed).length
      ≤ spared all doomed + doomed.length := by
  have hfold : ∀ l : List Folder, l ⊆ all → ∀ d : List Id,
      spared all (l.foldl (fun d x => if x.parentId = some cur ∧ x.id ∉ d then d ++ [x.id] else d) d)
        + (l.foldl (fun d x => if x.parentId = some cur ∧ x.id ∉ d then d ++ [x.id] else d) d).length
        ≤ spared all d + d.length := by
    intro l
    induction l with
    | nil => exact fun _ d => le_rfl
    | cons x l ih =>
      intro hl d
      obtain ⟨hx, hl⟩ := List.cons_subset.1 hl
      rw [List.foldl_cons]
      split_ifs with h
      · have hlt := spared_append_lt hx h.2
        have hrest := ih hl (d ++ [x.id])
        rw [List.length_append, List.length_singleton] at hrest
        omega
      · exact ih hl d
  exact hfold all (List.Subset.refl _) doomed

/-- The loop of `delete_folder` from position `i` of the doomed folders on. -/
def doomedFrom (all : List Folder) (doomed : List Id) (i : Nat) : List Id :=
  if hi : i < doomed.length then doomedFrom all (doomChildren all doomed[i] doomed) (i + 1) else doomed
termination_by spared all doomed + doomed.length - i
decreasing_by
  have hbound := spared_doomChildren all doomed[i] doomed
  omega

namespace Tree

/-- The requests go, each after the revisions filed under it that can be read. -/
def deleteRequestsIn (t : Tree) (gone : List RequestDefinition) : Tree :=
  { t with
    revisions := t.revisions.keep fun v => v.requestId ∉ gone.map (·.id) || !t.validRevisionOwner v
    requests := t.requests.keep fun r => r.id ∉ gone.map (·.id) }

def deleteFolder (t : Tree) (id : Id) : Except AppError Tree :=
  match t.folders.get? id with
  | none => .error (.notFound "folder")
  | some f =>
    let all := t.folders.list.filter fun x => x.workspaceId = f.workspaceId
    let doomed := doomedFrom all [id] 0
    let reqs := t.requests.list.filter fun r => r.workspaceId = f.workspaceId ∧ r.folderId.any (· ∈ doomed)
    let t := t.deleteRequestsIn reqs
    .ok { t with folders := t.folders.keep fun x => x.id ∉ doomed }

/-! ## Requests -/

section Requests
variable (specHash : RequestSpec → String)

/-- A request and where it belongs: a stored one stays in its folder at its place, and its workspace may not change; a
new one needs its workspace and folder and comes after the requests already there. -/
def placeRequest (t : Tree) (r : RequestDefinition) (new : Bool) : Except AppError RequestDefinition :=
  match t.requests.get? r.id with
  | some h =>
    if r.workspaceId ≠ h.workspaceId then .error (.store .ownership)
    else .ok { r with folderId := h.folderId, sortKey := h.sortKey }
  | none =>
    if !new then .error (.notFound "request (it was deleted)")
    else if r.workspaceId ∉ t.workspaces then .error (.notFound "workspace")
    else
      let siblings := t.requests.list.filter fun q => q.workspaceId = r.workspaceId
      let placed := { r with sortKey := Float.ofNat (siblings.filter fun q => q.folderId = r.folderId).length + 1.0 }
      match r.folderId with
      | none => .ok placed
      | some f => match t.folders.get? f with
        | none => .error (.notFound "folder")
        | some f =>
          if f.workspaceId ≠ r.workspaceId then .error (.invalid "folder belongs to another workspace")
          else .ok placed

/-- The message for an attached file that is gone. -/
def unstored (sha256 : String) : AppError :=
  .invalid ("an attached file (sha256 " ++ String.ofList (sha256.toList.take 12) ++
    "...) is no longer stored; attach it again, then save")

def lastRevision (t : Tree) (r : RequestDefinition) : Except AppError (Option RequestRevision) :=
  match r.revisionId with
  | some id => t.getRevision id
  | none => .ok none

/-- A new request is stored before its first revision, which authenticates its owner through it. -/
def putNewRequest (t : Tree) (r : RequestDefinition) (new : Bool) : Except AppError Tree :=
  if new then t.putRequest r else .ok t

/-- The request with a revision `newRevision` appended where its spec is not that of its last one. -/
def appendRevision (t : Tree) (r : RequestDefinition) (new : Bool) (newRevision : Id) :
    Except AppError (Tree × RequestDefinition) := do
  let prev ← t.lastRevision r
  refuseIf (prev.any (·.requestId ≠ r.id)) (.store .ownership)
  if prev.all (·.specSha256 ≠ specHash r.spec) then
    let t ← t.putNewRequest r new
    let t ← t.putRevision {
      id := newRevision, workspaceId := r.workspaceId, requestId := r.id, specSha256 := specHash r.spec, spec := r.spec }
    return (t, { r with revisionId := some newRevision })
  else return (t, r)

/-- `gone` is the first attachment of the spec, not held before, that is not stored; `newRevision` the id of the revision
that may be added. -/
def saveRequestHolding (t : Tree) (r : RequestDefinition) (gone : Option String) (new : Bool) (newRevision : Id) :
    Except AppError (Tree × RequestDefinition) := do
  let r ← t.placeRequest r new
  match gone with
  | some sha256 => .error (unstored sha256)
  | none =>
    let (t, r) ← t.appendRevision specHash r new newRevision
    let t ← t.putRequest r
    return (t, r)

def createRequest (t : Tree) (id ws : Id) (folder : Option Id) (name : String) (spec : RequestSpec)
    (gone : Option String) (newRevision : Id) : Except AppError (Tree × RequestDefinition) :=
  t.saveRequestHolding specHash
    { id := id, workspaceId := ws, folderId := folder, name := trimmed name, sortKey := 0.0, spec := spec,
      revisionId := none }
    gone true newRevision

def saveRequest (t : Tree) (r : RequestDefinition) (gone : Option String) (newRevision : Id) :
    Except AppError (Tree × RequestDefinition) :=
  t.saveRequestHolding specHash r gone false newRevision

/-- The write transaction of a duplicate of `r`, which an earlier transaction read. -/
def duplicateRequest (t : Tree) (id : Id) (r : RequestDefinition) (gone : Option String) (newRevision : Id) :
    Except AppError (Tree × RequestDefinition) :=
  t.createRequest specHash id r.workspaceId r.folderId (r.name ++ " (copy)") r.spec gone newRevision

end Requests

/-- The folder a request moves to is stored, in the request's workspace. -/
def checkRequestFolder (t : Tree) (ws : Id) : Option Id → Except AppError Unit
  | none => .ok ()
  | some c => match t.folders.get? c with
    | none => .error (.notFound "folder")
    | some f => if f.workspaceId ≠ ws then .error (.invalid "cannot move a request to another workspace") else .ok ()

def moveRequestGuarded (t : Tree) (id : Id) (folder : Option Id) (sortKey : Float) (mayLeave : Folder → Bool) :
    Except AppError (Tree × Move RequestDefinition) :=
  match t.requests.get? id with
  | none => .error (.notFound "request")
  | some r => do
    t.checkRequestFolder r.workspaceId folder
    match (t.leavesImportIn r.folderId folder).filter (!mayLeave ·) with
    | some root => return (t, .leavesImport root)
    | none =>
      let r := { r with folderId := folder, sortKey := sortKey }
      let t' ← t.putRequest r
      return (t', .moved r)

def moveRequest (t : Tree) (id : Id) (folder : Option Id) (sortKey : Float) :
    Except AppError (Tree × Move RequestDefinition) :=
  t.moveRequestGuarded id folder sortKey fun _ => true

def moveRequestKeepingIsolation (t : Tree) (id : Id) (folder : Option Id) (sortKey : Float) (mayLeave : Option Id) :
    Except AppError (Tree × Move RequestDefinition) :=
  t.moveRequestGuarded id folder sortKey fun root => some root.id = mayLeave

def deleteRequest (t : Tree) (id : Id) : Tree :=
  match t.requests.get? id with
  | some r => t.deleteRequestsIn [r]
  | none => t

end Tree

end Anvil.App
