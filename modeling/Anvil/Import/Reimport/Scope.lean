import Anvil.Lib.Bytes
import Anvil.Import.Reimport.Unit

/-!
# Reimporting scoped configuration (`anvil-import/src/reimport.rs`)

`diffScope` compares every unit of the stored scope, of the fresh one and of what was generated last time, and
`applyScope` writes the units that are taken: safe updates, and conflicts and removals that are approved. An environment
that only one side has is one unit, and a folder that only one side has is not compared.

* `Taken` : which units are taken, on the three hashes alone;
* `mem_take`, `mem_take_whole` : `applyScope` takes these units;
* `ScopeMerged` : the three-way merge, unit by unit;
* `applyScope_merges` : when the result is this merge. Repeated names are keyed by their count, so the merge is not by
  key where an earlier variable of a name goes and a later one stays, or where a variable is named like such a key.
-/

namespace Anvil.Import
open Anvil.Lib Std

section Model
variable {J H W : Type}

structure ScopeDiff (J H : Type) where
  current : ImportedScope J
  generated : Option (Hashes H)
  fresh : ImportedScope J

structure ScopeChange (J : Type) where
  key : Key
  label : Text
  userEdited : Bool
  wholeEnvironment : Bool
  fresh : Option (Environment J ⊕ UnitValue J)

/-- The scope lists of a `ReimportPlan`. -/
structure ScopePlan (J : Type) where
  updated : List (ScopeChange J)
  conflicts : List (ScopeChange J)
  preservedEdits : List Key
  removed : List (ScopeChange J)

/-! ## Labels -/

def unitLabel (unit : Text) : Text :=
  match dropPrefix "variables/".toList unit with
  | some name => "variable ".toList ++ name
  | none => unit

def environmentLabel (key : Key) (e : Environment J) : Option Text :=
  if key = environmentKey e.id then some ("environment \"".toList ++ e.name ++ "\"".toList)
  else (dropPrefix (environmentKey e.id ++ "/variables/".toList) key).map fun name =>
    "environment \"".toList ++ e.name ++ "\": variable ".toList ++ name

def folderLabel (key : Key) (f : Folder J) : Option Text :=
  if key = folderKey f.id then some ("folder \"".toList ++ f.name ++ "\"".toList)
  else (dropPrefix (folderKey f.id ++ "/".toList) key).map fun unit =>
    "folder \"".toList ++ f.name ++ "\": ".toList ++ unitLabel unit

def scopeLabel (d : ScopeDiff J H) (key : Key) : Text :=
  (((d.fresh.environments ++ d.current.environments).findSome? (environmentLabel key)).or
    ((d.fresh.folders ++ d.current.folders).findSome? (folderLabel key))).getD (unitLabel key)

/-! ## The plan -/

section Diff
variable [DecidableEq H] [DecidableEq W] (hs : Hashing J H W) (d : ScopeDiff J H)

/-- The keys of environments that only one side has. -/
def oneSided : List Key :=
  ((d.current.environments ++ d.fresh.environments).map fun e => environmentKey e.id).filter fun k =>
    !((unitHashes hs d.current).contains k && (unitHashes hs d.fresh).contains k)

/-- The keys of folders that only one side has. -/
def loneFolders : List Key :=
  ((d.current.folders ++ d.fresh.folders).map fun f => folderKey f.id).filter fun k =>
    !((unitHashes hs d.current).contains k && (unitHashes hs d.fresh).contains k)

/-- The keys that are compared, in this order. -/
def diffKeys : List Key :=
  keysOf (scopeUnits d.fresh) ++ (keysOf (scopeUnits d.current)).filter fun k => !(unitHashes hs d.fresh).contains k

/-- The fresh value of a change: the whole environment, or the unit. -/
def freshValue (key : Key) : Option (Environment J ⊕ UnitValue J) :=
  match d.fresh.environments.find? fun e => environmentKey e.id = key with
  | some e => some (.inl e)
  | none => ((scopeUnits d.fresh).lookup key).map .inr

inductive ScopeOutcome (J : Type) where
  | skipped
  | preserved
  | removed (c : ScopeChange J)
  | conflict (c : ScopeChange J)
  | updated (c : ScopeChange J)

/-- What the loop of `diff_scope` does with one key. -/
def scopeOutcome (key : Key) : ScopeOutcome J :=
  if (oneSided hs d).any fun e => (e ++ ['/']).isPrefixOf key then .skipped
  else if (loneFolders hs d).any fun lone => key == lone || (lone ++ ['/']).isPrefixOf key then .skipped
  else
    let whole := (oneSided hs d).contains key
    let c := hashAt hs (unitHashes hs d.current) key whole
    let f := hashAt hs (unitHashes hs d.fresh) key whole
    if c = f then .skipped
    else
      let generated := d.generated.map fun g => hashAt hs g key whole
      if generated = some f then .preserved
      else
        let change : ScopeChange J :=
          { key := key
            label := scopeLabel d key
            userEdited := generated ≠ some c
            wholeEnvironment := whole
            fresh := freshValue d key }
        if f = none then .removed change
        else if generated ≠ some c then .conflict change
        else .updated change

def diffScope : ScopePlan J :=
  { updated := (diffKeys hs d).filterMap fun k =>
      match scopeOutcome hs d k with
      | .updated c => some c
      | _ => none
    conflicts := (diffKeys hs d).filterMap fun k =>
      match scopeOutcome hs d k with
      | .conflict c => some c
      | _ => none
    preservedEdits := (diffKeys hs d).filterMap fun k =>
      match scopeOutcome hs d k with
      | .preserved => some k
      | _ => none
    removed := (diffKeys hs d).filterMap fun k =>
      match scopeOutcome hs d k with
      | .removed c => some c
      | _ => none }

end Diff

/-! ## Applying it -/

/-- `current` with the taken units of `fresh`: replaced in place, removed, or appended in source order. -/
def mergeVariables (at_ : Key) (current fresh : List (Variable J)) (take : List Key) : List (Variable J) :=
  ((variableKeys at_ current).filterMap fun e =>
    if !take.contains e.1 then some e.2
    else ((variableKeys at_ fresh).find? fun f => f.1 = e.1).map (·.2)) ++
  ((variableKeys at_ fresh).filter fun e =>
    take.contains e.1 && !(variableKeys at_ current).any fun c => c.1 = e.1).map (·.2)

namespace ScopePlan

/-- The keys of the units that are taken. -/
def take (p : ScopePlan J) (approval : ReimportApproval) : List Key :=
  (p.updated ++ p.conflicts.filter (fun c => approval.overwriteScope.contains c.key) ++
    p.removed.filter (fun c => approval.deleteScope.contains c.key)).map (·.key)

def applyEnvironment (fresh : List (Environment J)) (take : List Key) (e : Environment J) : Option (Environment J) :=
  let taken := take.contains (environmentKey e.id)
  match fresh.find? fun f => f.id = e.id with
  | none => if taken then none else some e
  | some f => some
    { e with
      name := if taken then f.name else e.name
      vars := mergeVariables (environmentKey e.id ++ "/variables".toList) e.vars f.vars take }

def applyFolder (fresh : List (Folder J)) (take : List Key) (c : Folder J) : Folder J :=
  match fresh.find? fun f => f.id = c.id with
  | none => c
  | some f =>
    let at_ := folderKey c.id
    { c with
      name := if take.contains at_ then f.name else c.name
      description := if take.contains (at_ ++ "/description".toList) then f.description else c.description
      settings := if take.contains (at_ ++ "/settings".toList) then f.settings else c.settings
      auth := if take.contains (at_ ++ "/auth".toList) then f.auth else c.auth
      vars := mergeVariables (at_ ++ "/variables".toList) c.vars f.vars take }

def applyScope (p : ScopePlan J) (current fresh : ImportedScope J) (approval : ReimportApproval) : ImportedScope J :=
  let take := p.take approval
  { description := if take.contains "description".toList then fresh.description else current.description
    settings := if take.contains "settings".toList then fresh.settings else current.settings
    auth := if take.contains "auth".toList then fresh.auth else current.auth
    vars := mergeVariables "variables".toList current.vars fresh.vars take
    environments := current.environments.filterMap (applyEnvironment fresh.environments take) ++
      (fresh.environments.filter fun f => !current.environments.any fun e => e.id = f.id).filter fun f =>
        take.contains (environmentKey f.id)
    folders := current.folders.map (applyFolder fresh.folders take) }

end ScopePlan

/-! ## Which units are taken -/

section Decision
variable {D : Type} (generated : Option (Option D)) (current fresh : Option D)

/-- Changed in the source and not edited by the user. -/
def SafeUpdate : Prop := fresh ≠ none ∧ current ≠ fresh ∧ generated = some current

/-- Changed in the source and edited by the user, or not known to be neither. -/
def Conflict : Prop := fresh ≠ none ∧ current ≠ fresh ∧ generated ≠ some fresh ∧ generated ≠ some current

/-- Gone from the source. -/
def Removal : Prop := fresh = none ∧ current ≠ fresh ∧ generated ≠ some fresh

def Taken (approval : ReimportApproval) (key : Key) : Prop :=
  SafeUpdate generated current fresh ∨
    Conflict generated current fresh ∧ key ∈ approval.overwriteScope ∨
    Removal generated current fresh ∧ key ∈ approval.deleteScope

instance [DecidableEq D] : Decidable (SafeUpdate generated current fresh) :=
  inferInstanceAs (Decidable (_ ∧ _ ∧ _))

instance [DecidableEq D] : Decidable (Conflict generated current fresh) :=
  inferInstanceAs (Decidable (_ ∧ _ ∧ _ ∧ _))

instance [DecidableEq D] : Decidable (Removal generated current fresh) :=
  inferInstanceAs (Decidable (_ ∧ _ ∧ _))

instance [DecidableEq D] (approval : ReimportApproval) (key : Key) :
    Decidable (Taken generated current fresh approval key) :=
  inferInstanceAs (Decidable (_ ∨ _ ∨ _))

/-- What is offered of a unit. -/
inductive Offer where
  | nothing
  | preserved
  | removed
  | conflict
  | updated
deriving DecidableEq

def offer [DecidableEq D] : Offer :=
  if current = fresh then .nothing
  else if generated = some fresh then .preserved
  else if fresh = none then .removed
  else if generated = some current then .updated
  else .conflict

theorem taken_iff_offer [DecidableEq D] (approval : ReimportApproval) (key : Key) :
    Taken generated current fresh approval key ↔
      offer generated current fresh = .updated ∨
        offer generated current fresh = .conflict ∧ key ∈ approval.overwriteScope ∨
        offer generated current fresh = .removed ∧ key ∈ approval.deleteScope := by
  unfold Taken SafeUpdate Conflict Removal offer
  split_ifs with hcf hgf hf hgc
  · simp [hcf]
  · have hfc : fresh ≠ current := fun h => hcf h.symm
    simp [hgf, hfc]
  · simp [hf, hf ▸ hcf, hf ▸ hgf]
  · simp [hcf, hf, hgc]
  · simp [hcf, hgf, hf, hgc]

/-- Marking the hashes does not change what is offered. -/
theorem offer_map {E : Type} [DecidableEq D] [DecidableEq E] {f : D → E} (hf : Function.Injective f) :
    offer (generated.map (·.map f)) (current.map f) (fresh.map f) = offer generated current fresh := by
  have hmap := Option.map_injective hf
  have hsome : ∀ x : Option D, generated.map (·.map f) = some (x.map f) ↔ generated = some x := by
    intro x
    cases generated with
    | none => simp
    | some g => simp only [Option.map_some, Option.some.injEq, hmap.eq_iff]
  unfold offer
  simp only [hsome, hmap.eq_iff, Option.map_eq_none_iff]

end Decision

section Take
variable [DecidableEq H] [DecidableEq W] {hs : Hashing J H W} {d : ScopeDiff J H}

/-- The keys that the loop passes over: inside an environment or a folder that only one side has. -/
def Skips (hs : Hashing J H W) (d : ScopeDiff J H) (key : Key) : Prop :=
  (∃ e ∈ oneSided hs d, e ++ ['/'] <+: key) ∨ ∃ lone ∈ loneFolders hs d, key = lone ∨ lone ++ ['/'] <+: key

def ScopeOutcome.offer : ScopeOutcome J → Offer
  | .skipped => .nothing
  | .preserved => .preserved
  | .removed _ => .removed
  | .conflict _ => .conflict
  | .updated _ => .updated

def ScopeOutcome.change? : ScopeOutcome J → Option (ScopeChange J)
  | .skipped | .preserved => none
  | .removed c | .conflict c | .updated c => some c

theorem change?_scopeOutcome {key : Key} {c : ScopeChange J} (h : (scopeOutcome hs d key).change? = some c) :
    c.key = key ∧ c.wholeEnvironment = (oneSided hs d).contains key := by
  unfold scopeOutcome at h
  simp only at h
  split_ifs at h <;> cases h <;> exact ⟨rfl, rfl⟩

/-- What the loop offers of a key, on its three hashes. -/
theorem offer_scopeOutcome {key : Key} (hskip : ¬ Skips hs d key) :
    (scopeOutcome hs d key).offer =
      offer (d.generated.map fun g => hashAt hs g key ((oneSided hs d).contains key))
        (hashAt hs (unitHashes hs d.current) key ((oneSided hs d).contains key))
        (hashAt hs (unitHashes hs d.fresh) key ((oneSided hs d).contains key)) := by
  have hone : ¬ ((oneSided hs d).any fun e => (e ++ ['/']).isPrefixOf key) = true := by
    rw [List.any_eq_true]
    rintro ⟨e, he, hp⟩
    exact hskip (.inl ⟨e, he, List.isPrefixOf_iff_prefix.1 hp⟩)
  have hlone : ¬ ((loneFolders hs d).any fun lone => key == lone || (lone ++ ['/']).isPrefixOf key) = true := by
    rw [List.any_eq_true]
    rintro ⟨lone, hl, hp⟩
    rw [Bool.or_eq_true, beq_iff_eq, List.isPrefixOf_iff_prefix] at hp
    exact hskip (.inr ⟨lone, hl, hp⟩)
  unfold scopeOutcome offer
  simp only
  rw [if_neg hone, if_neg hlone]
  split_ifs <;> first | rfl | contradiction

theorem offer_of_skips {key : Key} (hskip : Skips hs d key) : (scopeOutcome hs d key).offer = .nothing := by
  unfold scopeOutcome
  rcases hskip with ⟨e, he, hp⟩ | ⟨lone, hl, hp⟩
  · have hone : ((oneSided hs d).any fun e => (e ++ ['/']).isPrefixOf key) = true :=
      List.any_eq_true.2 ⟨e, he, List.isPrefixOf_iff_prefix.2 hp⟩
    rw [if_pos hone]
    rfl
  · split_ifs with hone hlone
    · rfl
    · rfl
    · refine absurd (List.any_eq_true.2 ⟨lone, hl, ?_⟩) hlone
      rw [Bool.or_eq_true, beq_iff_eq, List.isPrefixOf_iff_prefix]
      exact hp

section Lists
variable {key : Key}

theorem mem_updated : key ∈ (diffScope hs d).updated.map (·.key) ↔
    key ∈ diffKeys hs d ∧ (scopeOutcome hs d key).offer = .updated := by
  unfold diffScope
  simp only [List.mem_map, List.mem_filterMap]
  constructor
  · rintro ⟨c, ⟨k, hk, hc⟩, rfl⟩
    split at hc
    · rename_i c' hout
      cases hc
      rw [(change?_scopeOutcome (c := c) (by rw [hout]; rfl)).1, hout]
      exact ⟨hk, rfl⟩
    · cases hc
  · rintro ⟨hk, hoffer⟩
    cases hout : scopeOutcome hs d key with
    | updated c => exact ⟨c, ⟨key, hk, by rw [hout]⟩, (change?_scopeOutcome (c := c) (by rw [hout]; rfl)).1⟩
    | _ => rw [hout] at hoffer; cases hoffer

theorem mem_conflicts {c : ScopeChange J} : c ∈ (diffScope hs d).conflicts ↔
    ∃ k ∈ diffKeys hs d, scopeOutcome hs d k = .conflict c := by
  unfold diffScope
  simp only [List.mem_filterMap]
  constructor
  · rintro ⟨k, hk, hc⟩
    split at hc
    · rename_i c' hout
      cases hc
      exact ⟨k, hk, hout⟩
    · cases hc
  · rintro ⟨k, hk, hout⟩
    exact ⟨k, hk, by rw [hout]⟩

theorem mem_removed {c : ScopeChange J} : c ∈ (diffScope hs d).removed ↔
    ∃ k ∈ diffKeys hs d, scopeOutcome hs d k = .removed c := by
  unfold diffScope
  simp only [List.mem_filterMap]
  constructor
  · rintro ⟨k, hk, hc⟩
    split at hc
    · rename_i c' hout
      cases hc
      exact ⟨k, hk, hout⟩
    · cases hc
  · rintro ⟨k, hk, hout⟩
    exact ⟨k, hk, by rw [hout]⟩

theorem mem_conflict_keys : key ∈ (diffScope hs d).conflicts.map (·.key) ↔
    key ∈ diffKeys hs d ∧ (scopeOutcome hs d key).offer = .conflict := by
  rw [List.mem_map]
  constructor
  · rintro ⟨c, hc, rfl⟩
    obtain ⟨k, hk, hout⟩ := mem_conflicts.1 hc
    rw [(change?_scopeOutcome (c := c) (by rw [hout]; rfl)).1, hout]
    exact ⟨hk, rfl⟩
  · rintro ⟨hk, hoffer⟩
    cases hout : scopeOutcome hs d key with
    | conflict c => exact ⟨c, mem_conflicts.2 ⟨key, hk, hout⟩, (change?_scopeOutcome (c := c) (by rw [hout]; rfl)).1⟩
    | _ => rw [hout] at hoffer; cases hoffer

theorem mem_removed_keys : key ∈ (diffScope hs d).removed.map (·.key) ↔
    key ∈ diffKeys hs d ∧ (scopeOutcome hs d key).offer = .removed := by
  rw [List.mem_map]
  constructor
  · rintro ⟨c, hc, rfl⟩
    obtain ⟨k, hk, hout⟩ := mem_removed.1 hc
    rw [(change?_scopeOutcome (c := c) (by rw [hout]; rfl)).1, hout]
    exact ⟨hk, rfl⟩
  · rintro ⟨hk, hoffer⟩
    cases hout : scopeOutcome hs d key with
    | removed c => exact ⟨c, mem_removed.2 ⟨key, hk, hout⟩, (change?_scopeOutcome (c := c) (by rw [hout]; rfl)).1⟩
    | _ => rw [hout] at hoffer; cases hoffer

/-- The keys that `applyScope` takes, by what is offered of each. -/
theorem mem_take {approval : ReimportApproval} :
    key ∈ (diffScope hs d).take approval ↔ key ∈ diffKeys hs d ∧
      ((scopeOutcome hs d key).offer = .updated ∨
        (scopeOutcome hs d key).offer = .conflict ∧ key ∈ approval.overwriteScope ∨
        (scopeOutcome hs d key).offer = .removed ∧ key ∈ approval.deleteScope) := by
  have hfilter : ∀ (l : List (ScopeChange J)) (keys : List Key),
      key ∈ (l.filter fun c => keys.contains c.key).map (·.key) ↔ key ∈ l.map (·.key) ∧ key ∈ keys := by
    intro l keys
    simp only [List.mem_map, List.mem_filter, List.contains_iff_mem]
    constructor
    · rintro ⟨c, ⟨hc, hk⟩, rfl⟩
      exact ⟨⟨c, hc, rfl⟩, hk⟩
    · rintro ⟨⟨c, hc, rfl⟩, hk⟩
      exact ⟨c, ⟨hc, hk⟩, rfl⟩
  unfold ScopePlan.take
  rw [List.map_append, List.map_append, List.mem_append, List.mem_append, hfilter, hfilter, mem_updated,
    mem_conflict_keys, mem_removed_keys]
  tauto

end Lists

/-- An environment that only one side has. -/
def OneSided (d : ScopeDiff J H) (id : Uuid) : Prop :=
  ¬ (id ∈ d.current.environments.map (·.id) ↔ id ∈ d.fresh.environments.map (·.id))

/-- A folder that only one side has. -/
def LoneFolder (d : ScopeDiff J H) (id : Uuid) : Prop :=
  ¬ (id ∈ d.current.folders.map (·.id) ↔ id ∈ d.fresh.folders.map (·.id))

/-- Both sides of a comparison, each with ids and labels that are distinct. -/
structure ScopeDiff.Distinct (d : ScopeDiff J H) : Prop where
  currentIds : d.current.DistinctIds
  currentLabels : d.current.DistinctLabels
  freshIds : d.fresh.DistinctIds
  freshLabels : d.fresh.DistinctLabels

section Keys
variable (hd : d.Distinct)
include hd

omit [DecidableEq H] [DecidableEq W] in
theorem mem_oneSided_of (hs : Hashing J H W) {at_ : Uuid → Address} {current fresh : List Uuid}
    (hc : ∀ id, at_ id ∈ keysOf (addressed d.current) ↔ id ∈ current)
    (hf : ∀ id, at_ id ∈ keysOf (addressed d.fresh) ↔ id ∈ fresh) (k : Key) :
    k ∈ ((current ++ fresh).map fun id => (at_ id).text).filter (fun k =>
        !((unitHashes hs d.current).contains k && (unitHashes hs d.fresh).contains k)) ↔
      ∃ id, k = (at_ id).text ∧ ¬ (id ∈ current ↔ id ∈ fresh) := by
  have hcontains : ∀ id : Uuid, (!((unitHashes hs d.current).contains (at_ id).text &&
      (unitHashes hs d.fresh).contains (at_ id).text)) = true ↔ ¬ (id ∈ current ∧ id ∈ fresh) := by
    intro id
    rw [← hc, ← hf, ← contains_unitHashes hs hd.currentIds hd.currentLabels,
      ← contains_unitHashes hs hd.freshIds hd.freshLabels, Bool.not_eq_true', ← Bool.not_eq_true, Bool.and_eq_true]
  rw [List.mem_filter, List.mem_map]
  constructor
  · rintro ⟨⟨id, hid, rfl⟩, hk⟩
    have hnot := (hcontains id).1 hk
    have hmem := List.mem_append.1 hid
    exact ⟨id, rfl, by tauto⟩
  · rintro ⟨id, rfl, hone⟩
    refine ⟨⟨id, List.mem_append.2 (by tauto), rfl⟩, (hcontains id).2 (by tauto)⟩

omit [DecidableEq H] [DecidableEq W] in
theorem mem_oneSided {k : Key} : k ∈ oneSided hs d ↔ ∃ id, k = environmentKey id ∧ OneSided d id := by
  have h := mem_oneSided_of hd hs (fun _ => environment_mem_keys) (fun _ => environment_mem_keys) k
  rw [← List.map_append, List.map_map] at h
  exact h

omit [DecidableEq H] [DecidableEq W] in
theorem mem_loneFolders {k : Key} : k ∈ loneFolders hs d ↔ ∃ id, k = folderKey id ∧ LoneFolder d id := by
  have h := mem_oneSided_of hd hs (fun _ => folder_mem_keys) (fun _ => folder_mem_keys) k
  rw [← List.map_append, List.map_map] at h
  exact h

/-- The units that are compared one by one. -/
def Address.Compared (d : ScopeDiff J H) : Address → Prop
  | .own _ => True
  | .environment id _ => ¬ OneSided d id
  | .folder id _ => ¬ LoneFolder d id

omit [DecidableEq H] [DecidableEq W] in
theorem skips_iff (a : Address) :
    Skips hs d a.text ↔
      (∃ id label, a = .environment id (some label) ∧ OneSided d id) ∨ ∃ id u, a = .folder id u ∧ LoneFolder d id := by
  unfold Skips
  simp only [mem_oneSided hd, mem_loneFolders hd]
  constructor
  · rintro (⟨_, ⟨id, rfl, hone⟩, hp⟩ | ⟨_, ⟨id, rfl, hlone⟩, hp⟩)
    · obtain ⟨label, rfl⟩ := (prefix_environment_iff a id).1 hp
      exact .inl ⟨id, label, rfl, hone⟩
    · obtain ⟨u, rfl⟩ := (within_folder_iff a id).1 hp
      exact .inr ⟨id, u, rfl, hlone⟩
  · rintro (⟨id, label, rfl, hone⟩ | ⟨id, u, rfl, hlone⟩)
    · exact .inl ⟨_, ⟨id, rfl, hone⟩, (prefix_environment_iff _ id).2 ⟨label, rfl⟩⟩
    · exact .inr ⟨_, ⟨id, rfl, hlone⟩, (within_folder_iff _ id).2 ⟨u, rfl⟩⟩

omit [DecidableEq H] [DecidableEq W] in
theorem mem_diffKeys (hs : Hashing J H W) (a : Address) :
    a.text ∈ diffKeys hs d ↔ a ∈ keysOf (addressed d.fresh) ∨ a ∈ keysOf (addressed d.current) := by
  have hunits : ∀ s : ImportedScope J, a.text ∈ keysOf (scopeUnits s) ↔ a ∈ keysOf (addressed s) := by
    intro s
    rw [scopeUnits_eq, keysOf, List.map_map]
    constructor
    · intro h
      obtain ⟨e, he, heq⟩ := List.mem_map.1 h
      exact List.mem_map.2 ⟨e, he, Address.text_injective heq⟩
    · intro h
      obtain ⟨e, he, rfl⟩ := List.mem_map.1 h
      exact List.mem_map.2 ⟨e, he, rfl⟩
  unfold diffKeys
  rw [List.mem_append, List.mem_filter, hunits, hunits, Bool.not_eq_true', ← Bool.not_eq_true,
    contains_unitHashes hs hd.freshIds hd.freshLabels]
  tauto

/-- The hash of a unit of a scope. -/
def unitHash (hs : Hashing J H W) (s : ImportedScope J) (a : Address) : Option H :=
  ((addressed s).lookup a).map hs.unit

/-- What is offered of a unit that both sides may have. -/
theorem offer_unit {a : Address} (ha : a.Compared d) :
    (scopeOutcome hs d a.text).offer =
      offer (d.generated.map fun g => g[a.text]?) (unitHash hs d.current a) (unitHash hs d.fresh a) := by
  have hskip : ¬ Skips hs d a.text := by
    rw [skips_iff hd]
    rintro (⟨id, label, rfl, hone⟩ | ⟨id, u, rfl, hlone⟩)
    · exact ha hone
    · exact ha hlone
  have hwhole : (oneSided hs d).contains a.text = false := by
    rw [List.contains_eq_mem, decide_eq_false_iff_not, mem_oneSided hd]
    rintro ⟨id, hid, hone⟩
    have : a = .environment id none := Address.text_injective hid
    subst this
    exact ha hone
  rw [offer_scopeOutcome hskip, hwhole]
  simp only [hashAt, Bool.false_eq_true, if_false, getElem?_unitHashes hs hd.currentIds hd.currentLabels,
    getElem?_unitHashes hs hd.freshIds hd.freshLabels]
  have := offer_map (d.generated.map fun g => g[a.text]?) (unitHash hs d.current a) (unitHash hs d.fresh a)
    (f := (Sum.inl : H → H ⊕ W)) Sum.inl_injective
  rw [Option.map_map] at this
  exact this

/-- A unit of which something is offered is one of a side. -/
theorem mem_diffKeys_of_offer {a : Address} (ha : a.Compared d)
    (h : (scopeOutcome hs d a.text).offer ≠ .nothing) : a.text ∈ diffKeys hs d := by
  by_contra hkey
  rw [mem_diffKeys hd hs, not_or] at hkey
  apply h
  rw [offer_unit hd ha, unitHash, unitHash, lookup_eq_none.2 hkey.1, lookup_eq_none.2 hkey.2]
  exact if_pos rfl

/-- A unit that both sides may have is taken on its own three hashes. -/
theorem mem_take_unit (approval : ReimportApproval) {a : Address} (ha : a.Compared d) :
    a.text ∈ (diffScope hs d).take approval ↔
      Taken (d.generated.map fun g => g[a.text]?) (unitHash hs d.current a) (unitHash hs d.fresh a) approval a.text := by
  rw [taken_iff_offer, ← offer_unit hd ha, mem_take]
  constructor
  · exact fun h => h.2
  · intro h
    refine ⟨mem_diffKeys_of_offer hd ha fun hno => ?_, h⟩
    rw [hno] at h
    simp at h

/-- One hash over all that there is of an environment. -/
def wholeAt (hs : Hashing J H W) (hashes : Hashes H) (key : Key) : Option W :=
  if (within hashes key).isEmpty then none else some (hs.all (within hashes key))

/-- The hash of an environment of a scope. -/
def wholeHash (hs : Hashing J H W) (s : ImportedScope J) (id : Uuid) : Option W :=
  (s.environments.find? fun e => e.id = id).map fun e => hs.all (environmentHashes hs e)

omit [DecidableEq H] [DecidableEq W] hd in
theorem wholeAt_unitHashes {s : ImportedScope J} (hids : s.DistinctIds) (hlabels : s.DistinctLabels) (id : Uuid) :
    wholeAt hs (unitHashes hs s) (environmentKey id) = wholeHash hs s id := by
  unfold wholeAt wholeHash
  rw [within_unitHashes hs hids hlabels]
  cases hfind : s.environments.find? fun e => e.id = id with
  | none => rfl
  | some e =>
    have hne : (environmentHashes hs e).isEmpty = false := by
      unfold environmentHashes environmentUnits
      rw [← Bool.not_eq_true, ExtTreeMap.isEmpty_iff, ExtTreeMap.ofList_eq_empty_iff]
      simp
    simp [hne]

omit [DecidableEq H] [DecidableEq W] hd in
theorem wholeHash_of_mem {s : ImportedScope J} (hids : s.DistinctIds) {e : Environment J} (he : e ∈ s.environments) :
    wholeHash hs s e.id = some (hs.all (environmentHashes hs e)) := by
  unfold wholeHash
  cases h : s.environments.find? (fun x => x.id = e.id) with
  | none => exact absurd (decide_eq_true rfl) (List.find?_eq_none.1 h e he)
  | some x =>
    have hx : x.id = e.id := by simpa using List.find?_some h
    rw [List.inj_on_of_nodup_map hids.environments (List.mem_of_find?_eq_some h) he hx]
    rfl

omit [DecidableEq H] [DecidableEq W] hd in
theorem wholeHash_of_not_mem {s : ImportedScope J} {id : Uuid} (hno : id ∉ s.environments.map (·.id)) :
    wholeHash hs s id = none := by
  unfold wholeHash
  rw [Option.map_eq_none_iff, List.find?_eq_none]
  intro x hx hid
  exact hno (List.mem_map.2 ⟨x, hx, by simpa using hid⟩)

omit [DecidableEq H] [DecidableEq W] in
theorem environmentKey_mem_diffKeys {id : Uuid} (hid : OneSided d id) : environmentKey id ∈ diffKeys hs d := by
  have h := (mem_diffKeys hd hs (.environment id none)).2 (by
    rw [environment_mem_keys, environment_mem_keys]
    unfold OneSided at hid
    tauto)
  exact h

/-- What is offered of an environment that only one side has. -/
theorem offer_whole {id : Uuid} (hid : OneSided d id) :
    (scopeOutcome hs d (environmentKey id)).offer =
      offer (d.generated.map fun g => wholeAt hs g (environmentKey id)) (wholeHash hs d.current id)
        (wholeHash hs d.fresh id) := by
  have hskip : ¬ Skips hs d (environmentKey id) := by
    rw [show environmentKey id = (Address.environment id none).text from rfl, skips_iff hd]
    rintro (⟨j, label, heq, -⟩ | ⟨j, u, heq, -⟩)
    · cases heq
    · cases heq
  have hwhole : (oneSided hs d).contains (environmentKey id) = true := by
    rw [List.contains_iff_mem, mem_oneSided hd]
    exact ⟨id, rfl, hid⟩
  have hat : ∀ g : Hashes H, hashAt hs g (environmentKey id) true = (wholeAt hs g (environmentKey id)).map .inr := by
    intro g
    unfold hashAt wholeAt
    simp only [if_true]
    split_ifs <;> rfl
  have hmap := offer_map (d.generated.map fun g => wholeAt hs g (environmentKey id)) (wholeHash hs d.current id)
    (wholeHash hs d.fresh id) (f := (Sum.inr : W → H ⊕ W)) Sum.inr_injective
  rw [offer_scopeOutcome hskip, hwhole, hat, hat, funext hat, wholeAt_unitHashes hd.currentIds hd.currentLabels,
    wholeAt_unitHashes hd.freshIds hd.freshLabels, ← hmap, Option.map_map]
  rfl

/-- An environment that only one side has is taken whole. -/
theorem mem_take_whole (approval : ReimportApproval) {id : Uuid} (hid : OneSided d id) :
    environmentKey id ∈ (diffScope hs d).take approval ↔
      Taken (d.generated.map fun g => wholeAt hs g (environmentKey id)) (wholeHash hs d.current id)
        (wholeHash hs d.fresh id) approval (environmentKey id) := by
  rw [taken_iff_offer, ← offer_whole hd hid, mem_take, and_iff_right (environmentKey_mem_diffKeys hd hid)]

end Keys

end Take

end Model

end Anvil.Import
