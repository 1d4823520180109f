import Anvil.Import.Reimport.Again
import Anvil.Lib.Run

/-!
# Reimports of changing sources, with edits between them

A store holds requests, scoped configuration and the hashes that the last reimport left. Edits change the first two
alone; a reimport of any source with any approval changes all three. Beside it stands what the source generated: `last`
at the last reimport, and `seen` at the last one at which no change of the unit was declined.

* `Trace.reimport`, `Step` : the runs;
* `Tracks` : every hash that was left is that of the value in `seen`, or the mark of a declined conflict;
* `reimports_keep_edits` : in every run no reimport replaces or removes what differs from `seen` without an approval that
  names it, and the same source again offers what was declined.
-/

namespace Anvil.Import
open Anvil.Lib Std

section Model
variable {J H W : Type}

/-- A unit of scoped configuration, or a detail of the request of an operation. -/
inductive UnitRef where
  | scope (a : Address)
  | detail (operationKey : Text) (part : Part)

def UnitRef.key : UnitRef → Key
  | .scope a => a.text
  | .detail operationKey part => requestKey operationKey part

structure Store (J H : Type) where
  requests : List (RequestDefinition J H)
  scope : ImportedScope J
  generated : Option (Hashes H)

/-- What a reimport is given: what the source generates now, the approval and the folders that are added. -/
structure Reimport (J H : Type) where
  requests : List (RequestDefinition J H)
  scope : ImportedScope J
  approval : ReimportApproval := {}
  newFolders : List (Folder J) := []

/-- A store, what the source last generated, and what it generated when its change was last not declined. -/
structure Trace (J H : Type) extends Store J H where
  last : UnitRef → Option (UnitValue J)
  seen : UnitRef → Option (UnitValue J)

def Reimport.generates (i : Reimport J H) : UnitRef → Option (UnitValue J)
  | .scope a => (addressed i.scope).lookup a
  | .detail operationKey part => (findFresh i.requests operationKey).map fun f => detail f.1 part

def Store.diff (s : Store J H) (i : Reimport J H) : ScopeDiff J H := ⟨s.scope, s.generated, i.scope⟩

section Runs
variable [DecidableEq J] [DecidableEq H] [DecidableEq W] (hs : Hashing J H W)

/-- The reimport leaves a change of the unit undone: a conflict that is not overwritten, or a removal that is not
approved. -/
def Store.declines (s : Store J H) (i : Reimport J H) : UnitRef → Bool
  | .scope a => ((diffScope hs (s.diff i)).declined i.approval).any fun e =>
      !(a.text != e.1.key && !(e.1.wholeEnvironment && (e.1.key ++ ['/']).isPrefixOf a.text))
  | .detail operationKey part => (earlierDetails (reimportDiff hs s.generated s.requests i.requests) i.approval).any
      fun e => e.1 = operationKey && e.2.1 = part

def Store.reimport (s : Store J H) (i : Reimport J H) : Store J H where
  requests := (reimportDiff hs s.generated s.requests i.requests).apply s.requests i.approval
  scope := storedAfter hs (s.diff i) i.approval i.newFolders
  generated := some (nextHashes hs (s.diff i) s.requests i.requests i.approval)

def Trace.reimport (t : Trace J H) (i : Reimport J H) : Trace J H :=
  { t.toStore.reimport hs i with
    last := i.generates
    seen := fun u => if t.declines hs i u then t.seen u else i.generates u }

/-- What a reimport assumes: ids, operations and unit keys are distinct, the fresh requests are as the builder makes
them, and the merged variables stay numbered in order. -/
structure Store.Fits (s : Store J H) (i : Reimport J H) : Prop where
  distinct : (s.diff i).Distinct
  ids : (s.requests.map (·.id)).Nodup
  operations : (s.requests.filterMap fun q => q.spec.source.map (·.operationKey)).Nodup
  fresh : (i.requests.map freshKey).Nodup
  built : Built hs i.requests
  inOrder : NumberedInOrder hs (s.diff i) i.approval
  folders : NewFolders (s.diff i) i.newFolders

/-- One event: the user edits requests and scoped configuration in any way, or a source is reimported. -/
inductive Step : Trace J H → Trace J H → Prop
  | edit (t : Trace J H) (requests : List (RequestDefinition J H)) (scope : ImportedScope J) :
      Step t { t with requests := requests, scope := scope }
  | reimport (t : Trace J H) (i : Reimport J H) : t.Fits hs i → Step t (t.reimport hs i)

/-- A store as an import left it, or one from before the hashes were kept. -/
def Start (t : Trace J H) : Prop :=
  t.generated = none ∨
  ∃ i : Reimport J H, i.scope.DistinctIds ∧ i.scope.DistinctLabels ∧ (i.requests.map freshKey).Nodup ∧
    Built hs i.requests ∧ t.generated = some (unitHashes hs i.scope ∪ requestUnitHashes hs i.requests) ∧
    t.last = i.generates ∧ t.seen = i.generates

/-- The hashes that were left are those of what was last generated and not declined. -/
def Tracks (t : Trace J H) : Prop :=
  ∀ g, t.generated = some g → ∀ u h, g[UnitRef.key u]? = some h →
    h = hs.declined ∨ ∃ v, t.seen u = some v ∧ h = hs.unit v

/-! ## What a reimport leaves at a key -/

variable {hs}

omit [DecidableEq J] [DecidableEq H] [DecidableEq W] in
theorem earlierHashes_some {generated : Option (Hashes H)} {c : ScopeChange J} {k : Key} {h : H}
    (hk : (earlierHashes generated c)[k]? = some h) : ∃ g, generated = some g ∧ g[k]? = some h := by
  unfold earlierHashes at hk
  cases generated with
  | none =>
    rw [ExtTreeMap.getElem?_empty] at hk
    cases hk
  | some g =>
    refine ⟨g, rfl, ?_⟩
    simp only at hk
    split_ifs at hk
    · classical
      rw [getElem?_within] at hk
      split_ifs at hk
      exact hk
    · split at hk
      · rename_i h' hg
        rw [getElem?_singleton] at hk
        split_ifs at hk with hkey
        cases hk
        exact hkey ▸ hg
      · rw [ExtTreeMap.getElem?_empty] at hk
        cases hk

omit [DecidableEq J] [DecidableEq H] [DecidableEq W] in
/-- A declined change leaves hashes that were there, or its mark. -/
theorem replacement_some {generated : Option (Hashes H)} {e : ScopeChange J × Bool} {k : Key} {h : H}
    (hk : (replacement hs generated e)[k]? = some h) :
    h = hs.declined ∨ ∃ g, generated = some g ∧ g[k]? = some h := by
  unfold replacement at hk
  split_ifs at hk
  · exact .inr (earlierHashes_some hk)
  · rw [getElem?_singleton] at hk
    split_ifs at hk
    cases hk
    exact .inl rfl
  · rw [ExtTreeMap.getElem?_empty] at hk
    cases hk

omit [DecidableEq J] [DecidableEq H] [DecidableEq W] in
theorem keptDetail_some {generated : Option (Hashes H)} {e : Text × Part × Bool} {h : H}
    (hk : keptDetail hs generated e = some h) :
    h = hs.declined ∨ ∃ g, generated = some g ∧ g[requestKey e.1 e.2.1]? = some h := by
  unfold keptDetail at hk
  rcases Option.or_eq_some_iff.1 hk with hgen | ⟨-, hmark⟩
  · exact .inr (Option.bind_eq_some_iff.1 hgen)
  · split_ifs at hmark
    cases hmark
    exact .inl rfl

omit [DecidableEq J] [DecidableEq H] [DecidableEq W] in
/-- The hashes of the details of fresh requests are those of what the source generates. -/
theorem requestUnitHashes_some {fresh : List (RequestDefinition J H)} (hbuilt : Built hs fresh)
    (hfresh : (fresh.map freshKey).Nodup) {op : Text} {part : Part} {h : H}
    (hk : (requestUnitHashes hs fresh)[requestKey op part]? = some h) :
    ∃ f, findFresh fresh op = some f ∧ h = hs.unit (detail f.1 part) := by
  have hmem : requestKey op part ∈ keysOf (fresh.flatMap requestUnits) := by
    by_contra hno
    unfold requestUnitHashes at hk
    rw [ExtTreeMap.getElem?_ofList_of_contains_eq_false] at hk
    · cases hk
    · rw [← Bool.not_eq_true, List.contains_iff_mem, List.map_map]
      exact hno
  obtain ⟨e, he, hkey⟩ := List.mem_map.1 hmem
  obtain ⟨f, hf, hunit⟩ := List.mem_flatMap.1 he
  obtain ⟨fsrc, hlink, -⟩ := hbuilt f hf
  unfold requestUnits at hunit
  rw [hlink] at hunit
  obtain ⟨part', hpart, rfl⟩ := List.mem_map.1 hunit
  obtain ⟨rfl, rfl⟩ := requestKey_injective2 hkey
  have hop : freshKey f = fsrc.operationKey := by
    unfold freshKey
    rw [hlink]
    rfl
  have hhash := requestUnitHashes_detail hbuilt hfresh hf hpart
  rw [hop, hk] at hhash
  exact ⟨_, findFresh_of_mem hfresh hf hlink, Option.some.inj hhash⟩

theorem declines_scope {s : Store J H} {i : Reimport J H} {a : Address} :
    s.declines hs i (.scope a) = true ↔
      ∃ e ∈ (diffScope hs (s.diff i)).declined i.approval, Covers e.1 a.text := by
  unfold Store.declines
  simp only [List.any_eq_true]
  apply exists_congr
  intro e
  apply and_congr_right
  intro _
  rw [Bool.not_eq_true', ← Bool.not_eq_true, keeps_key, not_not]

theorem declines_detail {s : Store J H} {i : Reimport J H} {op : Text} {part : Part} :
    s.declines hs i (.detail op part) = true ↔
      ∃ e ∈ earlierDetails (reimportDiff hs s.generated s.requests i.requests) i.approval,
        requestKey e.1 e.2.1 = requestKey op part := by
  unfold Store.declines
  simp only [List.any_eq_true, Bool.and_eq_true, decide_eq_true_iff]
  apply exists_congr
  intro e
  apply and_congr_right
  intro _
  constructor
  · rintro ⟨rfl, rfl⟩
    rfl
  · intro h
    exact requestKey_injective2 h

omit [DecidableEq J] [DecidableEq H] [DecidableEq W] in
theorem unitHashes_requestKey {s : ImportedScope J} (hids : s.DistinctIds) (hlabels : s.DistinctLabels) (op : Text)
    (part : Part) : (unitHashes hs s)[requestKey op part]? = none := by
  rw [Option.eq_none_iff_forall_ne_some]
  intro x hx
  obtain ⟨a, v, -, ha, -⟩ := (unitHashes_eq_some hs hids hlabels).1 hx
  exact requestKey_ne_text op part a ha.symm

omit [DecidableEq J] [DecidableEq H] [DecidableEq W] in
/-- The hashes of a source are those of what it generates. -/
theorem generates_of_hash {i : Reimport J H} (hids : i.scope.DistinctIds) (hlabels : i.scope.DistinctLabels)
    (hbuilt : Built hs i.requests) (hfresh : (i.requests.map freshKey).Nodup) {u : UnitRef} {h : H}
    (hk : (unitHashes hs i.scope ∪ requestUnitHashes hs i.requests)[u.key]? = some h) :
    ∃ v, i.generates u = some v ∧ h = hs.unit v := by
  rw [ExtTreeMap.getElem?_union] at hk
  cases u with
  | scope a =>
    unfold UnitRef.key at hk
    rw [requestUnitHashes_eq_none i.requests fun op part => requestKey_ne_text op part a, Option.none_or,
      getElem?_unitHashes hs hids hlabels] at hk
    obtain ⟨v, hv, rfl⟩ := Option.map_eq_some_iff.1 hk
    exact ⟨v, hv, rfl⟩
  | detail op part =>
    unfold UnitRef.key at hk
    rw [unitHashes_requestKey hids hlabels, Option.or_none] at hk
    obtain ⟨f, hf, rfl⟩ := requestUnitHashes_some hbuilt hfresh hk
    refine ⟨detail f.1 part, ?_, rfl⟩
    unfold Reimport.generates
    simp only [hf, Option.map_some]

/-- A unit of which nothing was declined is left with the hash of the source. -/
theorem next_of_not_declines {s : Store J H} {i : Reimport J H} (hd : (s.diff i).Distinct) {u : UnitRef}
    (h : ¬ s.declines hs i u = true) :
    (nextHashes hs (s.diff i) s.requests i.requests i.approval)[u.key]? =
      (unitHashes hs i.scope ∪ requestUnitHashes hs i.requests)[u.key]? := by
  rw [ExtTreeMap.getElem?_union]
  cases u with
  | scope a =>
    have hno : ∀ e ∈ (diffScope hs (s.diff i)).declined i.approval, ¬ Covers e.1 a.text :=
      fun e he hcov => h (declines_scope.2 ⟨e, he, hcov⟩)
    have hreq : ∀ op part, requestKey op part ≠ a.text := fun op part => requestKey_ne_text op part a
    have hnone : (requestUnitHashes hs i.requests)[a.text]? = none := requestUnitHashes_eq_none i.requests hreq
    unfold UnitRef.key
    rw [hnone, Option.none_or]
    exact next_of_not_covered hreq hno
  | detail op part =>
    have hnone : (unitHashes hs i.scope)[requestKey op part]? = none :=
      unitHashes_requestKey hd.freshIds hd.freshLabels op part
    unfold UnitRef.key
    rw [hnone, Option.or_none]
    exact next_detail_fresh hd fun removal he => h (declines_detail.2 ⟨_, he, rfl⟩)

/-- A unit of which a change was declined is left with a hash that was there, or with the mark. -/
theorem next_of_declines {s : Store J H} {i : Reimport J H} (hd : (s.diff i).Distinct) {u : UnitRef}
    (hdec : s.declines hs i u = true) {h : H}
    (hk : (nextHashes hs (s.diff i) s.requests i.requests i.approval)[u.key]? = some h) :
    h = hs.declined ∨ ∃ g, s.generated = some g ∧ g[u.key]? = some h := by
  cases u with
  | scope a =>
    obtain ⟨e, he, -, hlook⟩ := exists_look_foldl (fun m : Hashes H => m[a.text]?) (fun e => Covers e.1 a.text)
      (fun e => (replacement hs s.generated e)[a.text]?)
      (fun out e he => keepScope_of_not_covers s.generated out e he)
      (fun out e he => keepScope_of_covers s.generated out e he)
      ((earlierDetails (reimportDiff hs s.generated s.requests i.requests) i.approval).foldl (keepDetail hs s.generated)
        (unitHashes hs i.scope ∪ requestUnitHashes hs i.requests)) (declines_scope.1 hdec)
    exact replacement_some (hlook.symm.trans hk)
  | detail op part =>
    have hnext := (next_detail hd op part).symm.trans hk
    obtain ⟨e, he, hkey, hlook⟩ := exists_look_foldl (fun m : Hashes H => m[requestKey op part]?)
      (fun e => requestKey e.1 e.2.1 = requestKey op part) (keptDetail hs s.generated)
      (fun out e he => keepDetail_of_ne s.generated out e he) (fun out e he => keepDetail_self s.generated out e he)
      (unitHashes hs i.scope ∪ requestUnitHashes hs i.requests) (declines_detail.1 hdec)
    rw [show UnitRef.key (.detail op part) = requestKey e.1 e.2.1 from hkey.symm]
    exact keptDetail_some (hlook.symm.trans hnext)

/-! ## Runs -/

omit [DecidableEq J] [DecidableEq H] [DecidableEq W] in
theorem Start.tracks {t : Trace J H} (h : Start hs t) : Tracks hs t := by
  intro g hg u x hx
  rcases h with hnone | ⟨i, hids, hlabels, hfresh, hbuilt, hgen, -, hseen⟩
  · rw [hnone] at hg
    cases hg
  · rw [hgen] at hg
    cases hg
    rw [hseen]
    exact .inr (generates_of_hash hids hlabels hbuilt hfresh hx)

theorem Step.tracks {t t' : Trace J H} (hstep : Step hs t t') (h : Tracks hs t) : Tracks hs t' := by
  cases hstep with
  | edit requests scope => exact h
  | reimport i hfits =>
    intro g hg u x hx
    cases hg
    have hd := hfits.distinct
    unfold Trace.reimport
    simp only
    split_ifs with hdec
    · rcases next_of_declines hd hdec hx with hmark | ⟨g, hg, hold⟩
      · exact .inl hmark
      · exact h g hg u x hold
    · rw [next_of_not_declines hd hdec] at hx
      exact .inr (generates_of_hash hd.freshIds hd.freshLabels hfits.built hfits.fresh hx)

/-! ## What the user set -/

/-- The approval names the unit, or the environment that only one side has and that it is part of. -/
def ReimportApproval.Names (approval : ReimportApproval) (d : ScopeDiff J H) (a : Address) : Prop :=
  a.text ∈ approval.overwriteScope ∨ a.text ∈ approval.deleteScope ∨
    ∃ id label, a = .environment id label ∧ OneSided d id ∧ environmentKey id ∈ approval.deleteScope

section Kept
variable (hfree : hs.CollisionFree) {t : Trace J H} (htracks : Tracks hs t) {i : Reimport J H} (hfits : t.Fits hs i)
include hfree htracks

omit [DecidableEq J] [DecidableEq H] [DecidableEq W] in
/-- A value with the hash that was left is the one that was last generated and not declined. -/
theorem seen_of_hash {u : UnitRef} {v : UnitValue J}
    (h : (t.generated.bind fun g => g[u.key]?) = some (hs.unit v)) : t.seen u = some v := by
  obtain ⟨g, hg, hk⟩ := Option.bind_eq_some_iff.1 h
  rcases htracks g hg u _ hk with hmark | ⟨v', hseen, heq⟩
  · exact absurd hmark (hfree.declined v)
  · rw [hseen, hfree.unit heq]

include hfits

/-- A unit whose value differs from what was last generated and not declined stays, unless the approval names it. -/
theorem scope_kept {a : Address} {v : UnitValue J} (hv : (addressed t.scope).lookup a = some v)
    (hset : t.seen (.scope a) ≠ some v) (hno : ¬ i.approval.Names (t.diff i) a) :
    (addressed (t.reimport hs i).scope).lookup a = some v := by
  unfold ReimportApproval.Names at hno
  rw [not_or, not_or] at hno
  obtain ⟨hoverwrite, hdelete, hwhole⟩ := hno
  have hd := hfits.distinct
  show (addressed (storedAfter hs (t.diff i) i.approval i.newFolders)).lookup a = some v
  by_cases ha : a.Compared (t.diff i)
  · rw [lookup_storedAfter hd hfits.inOrder hfits.folders ha, if_neg]
    · exact hv
    · rintro (⟨-, -, hgen⟩ | ⟨-, hmem⟩ | ⟨-, hmem⟩)
      · apply hset
        apply seen_of_hash hfree htracks
        have hcur : unitHash hs t.scope a = some (hs.unit v) := by
          unfold unitHash
          rw [hv]
          rfl
        obtain ⟨g, hg, hk⟩ := Option.map_eq_some_iff.1 hgen
        exact Option.bind_eq_some_iff.2 ⟨g, hg, hk.trans hcur⟩
      · exact hoverwrite hmem
      · exact hdelete hmem
  · match a with
    | .own _ => exact absurd trivial ha
    | .environment id label =>
      have hid : OneSided (t.diff i) id := not_not.1 ha
      have hcur : id ∈ t.scope.environments.map (·.id) :=
        List.mem_map.2 (mem_keys_environment (mem_keysOf_of_lookup hv))
      have hfresh : id ∉ i.scope.environments.map (·.id) := fun h => hid (iff_of_true hcur h)
      rw [lookup_storedAfter_whole hd hfits.inOrder hfits.folders hid, if_neg]
      · exact hv
      · rintro (⟨hsome, -⟩ | ⟨⟨hsome, -⟩, -⟩ | ⟨-, hmem⟩)
        · exact hsome (wholeHash_of_not_mem hfresh)
        · exact hsome (wholeHash_of_not_mem hfresh)
        · exact hwhole ⟨id, label, rfl, hid, hmem⟩
    | .folder id u =>
      have hid : LoneFolder (t.diff i) id := not_not.1 ha
      have hcur : id ∈ t.scope.folders.map (·.id) :=
        List.mem_map.2 (mem_keys_folder (mem_keysOf_of_lookup hv))
      rw [lookup_storedAfter_lone hd hfits.inOrder hfits.folders hid, if_neg]
      · exact hv
      · intro hmem
        obtain ⟨f, hf, rfl⟩ := List.mem_map.1 hmem
        exact hfits.folders.notStored f hf hcur

/-- A detail that differs from what was last generated for its operation and not declined stays, unless its request is
approved for overwriting or deletion. -/
theorem detail_kept {q : RequestDefinition J H} (hq : q ∈ t.requests) {part : Part} (hpart : part ∈ details)
    (hset : ∀ src, q.spec.source = some src → t.seen (.detail src.operationKey part) ≠ some (detail q part))
    (hoverwrite : q.id ∉ i.approval.overwrite) (hdelete : q.id ∉ i.approval.delete) :
    ∃ r ∈ (t.reimport hs i).requests, r.id = q.id ∧ detail r part = detail q part := by
  have hone : ∃ r, (reimportDiff hs t.generated t.requests i.requests).applyOne i.approval q = some r ∧
      detail r part = detail q part := by
    cases hsrc : q.spec.source with
    | none => exact ⟨q, applyOne_unlinked hfits.ids hq i.approval hsrc, rfl⟩
    | some src =>
      cases hfind : findFresh i.requests src.operationKey with
      | none =>
        refine ⟨q, ?_, rfl⟩
        rw [applyOne_removed hfits.ids hq i.approval hsrc hfind, if_neg hdelete]
      | some f =>
        obtain ⟨hf, hlink, -⟩ := findFresh_some hfind
        obtain ⟨r, hr, hmerged, -⟩ := applyOne_matched hfits.ids hq i.approval hsrc hfind (hfits.built.hash hf hlink)
        refine ⟨r, hr, detail_eq hpart ?_⟩
        rw [hmerged part, if_neg]
        rintro ⟨-, hgen | hmem⟩
        · rw [asGenerated_detail _ _ hpart] at hgen
          exact hset src hsrc (seen_of_hash hfree htracks hgen)
        · exact hoverwrite hmem
  obtain ⟨r, hr, hdetail⟩ := hone
  exact ⟨r, List.mem_append_left _ (List.mem_filterMap.2 ⟨q, hq, hr⟩), (applyOne_keeps hr).1, hdetail⟩

end Kept

/-- What the user set stays in this reimport, unless the approval names it: what differs from `generated`. -/
structure KeepsEdits (hs : Hashing J H W) (t : Trace J H) (generated : UnitRef → Option (UnitValue J))
    (i : Reimport J H) : Prop where
  scope : ∀ a v, (addressed t.scope).lookup a = some v → generated (.scope a) ≠ some v →
    ¬ i.approval.Names (t.diff i) a → (addressed (t.reimport hs i).scope).lookup a = some v
  detail : ∀ q ∈ t.requests, ∀ part ∈ details,
    (∀ src, q.spec.source = some src → generated (.detail src.operationKey part) ≠ some (detail q part)) →
    q.id ∉ i.approval.overwrite → q.id ∉ i.approval.delete →
    ∃ r ∈ (t.reimport hs i).requests, r.id = q.id ∧ Import.detail r part = Import.detail q part

/-- What the same source offers right after the reimport: no safe update, the declined conflicts, the declined removals
of requests, and those of units of which a hash was known. -/
structure OffersDeclined (hs : Hashing J H W) (t : Trace J H) (i : Reimport J H) : Prop where
  updated : (reimportDiff hs (t.reimport hs i).generated (t.reimport hs i).requests i.requests).updated = []
  conflicts : ∀ id part,
    (reimportDiff hs (t.reimport hs i).generated (t.reimport hs i).requests i.requests).ConflictAt id part ↔
      (reimportDiff hs t.generated t.requests i.requests).ConflictAt id part ∧ id ∉ i.approval.overwrite
  removed : ∀ id,
    id ∈ (reimportDiff hs (t.reimport hs i).generated (t.reimport hs i).requests i.requests).removed.map (·.existingId) ↔
      id ∈ (reimportDiff hs t.generated t.requests i.requests).removed.map (·.existingId) ∧ id ∉ i.approval.delete
  scopeUpdated : (diffScope hs ((t.reimport hs i).diff i)).updated = []
  scopeConflicts : ∀ k, k ∈ (diffScope hs ((t.reimport hs i).diff i)).conflicts.map (·.key) ↔
    k ∈ (diffScope hs (t.diff i)).conflicts.map (·.key) ∧ k ∉ i.approval.overwriteScope
  scopeRemoved : ∀ k, k ∈ (diffScope hs ((t.reimport hs i).diff i)).removed.map (·.key) ↔
    k ∈ (diffScope hs (t.diff i)).removed.map (·.key) ∧ k ∉ i.approval.deleteScope ∧ KnownAt hs (t.diff i) k

theorem offersDeclined (hfree : hs.CollisionFree) {t : Trace J H} {i : Reimport J H} (hfits : t.Fits hs i) :
    OffersDeclined hs t i := by
  obtain ⟨hupdated, hconflicts, hremoved⟩ :=
    requests_again hfree hfits.distinct hfits.ids hfits.operations hfits.fresh hfits.built
  obtain ⟨hscopeUpdated, hscopeConflicts, hscopeRemoved⟩ :=
    scope_again hfree hfits.distinct hfits.inOrder hfits.folders
  exact ⟨hupdated, hconflicts, hremoved, hscopeUpdated, hscopeConflicts, hscopeRemoved⟩

/-- **In every run of edits and reimports** a reimport keeps what differs from what the source generated when its change
was last not declined, unless its approval names it, and the same source right after it offers what was declined. -/
theorem reimports_keep_edits (hfree : hs.CollisionFree) {start t : Trace J H} (hstart : Start hs start)
    (hrun : Reaches (Step hs) start t) {i : Reimport J H} (hfits : t.Fits hs i) :
    KeepsEdits hs t t.seen i ∧ OffersDeclined hs t i := by
  have htracks : Tracks hs t := hrun.inv (Tracks hs) (fun _ _ hstep => hstep.tracks) hstart.tracks
  refine ⟨⟨?_, ?_⟩, offersDeclined hfree hfits⟩
  · intro a v hv hset hno
    exact scope_kept hfree htracks hfits hv hset hno
  · intro q hq part hpart hset hoverwrite hdelete
    exact detail_kept hfree htracks hfits hq hpart hset hoverwrite hdelete

end Runs

end Model

/-! ## A change that is declined -/

theorem plainHashing_collisionFree : plainHashing.CollisionFree where
  spec := fun _ _ h => ExtTreeMap.toList_inj.1 (Sum.inl.inj h)
  unit := fun _ _ h => Option.some.inj (Sum.inr.inj h)
  all := fun _ _ h => ExtTreeMap.toList_inj.1 h
  declined := fun _ h => nomatch h

/-- A source with one request of this name and one variable of this value. -/
def sampleSource (name : Text) (value : Nat) : Reimport Nat PlainHash where
  requests := [sampleRequest name 1 1]
  scope := sampleScope [⟨"a".toList, value⟩] [⟨"a".toList, 1⟩]

/-- What an import leaves. -/
def sampleImport (i : Reimport Nat PlainHash) : Trace Nat PlainHash where
  requests := i.requests
  scope := i.scope
  generated := some (unitHashes plainHashing i.scope ∪ requestUnitHashes plainHashing i.requests)
  last := i.generates
  seen := i.generates

/-- The same store after an edit of the request's name and of the variable. -/
def sampleEdit (t : Trace Nat PlainHash) (name : Text) (value : Nat) : Trace Nat PlainHash :=
  { t with requests := (sampleSource name value).requests, scope := (sampleSource name value).scope }

theorem sampleScope_distinct (name : Text) (x y : Nat) :
    (sampleScope [⟨name, x⟩] [⟨name, y⟩]).DistinctIds ∧ (sampleScope [⟨name, x⟩] [⟨name, y⟩]).DistinctLabels := by
  refine ⟨⟨List.nodup_singleton _, List.nodup_nil⟩, List.nodup_singleton _, ?_, nofun⟩
  intro e he
  obtain rfl := List.mem_singleton.1 he
  exact List.nodup_singleton _

theorem sampleImport_start : Start plainHashing (sampleImport (sampleSource "pet".toList 1)) := by
  refine .inr ⟨sampleSource "pet".toList 1, (sampleScope_distinct _ _ _).1, (sampleScope_distinct _ _ _).2,
    List.nodup_singleton _, ?_, rfl, rfl, rfl⟩
  intro f hf
  obtain rfl := List.mem_singleton.1 hf
  exact ⟨_, rfl, by decide⟩

theorem inOrder_survivors_single (taken : Text → Bool) (name : Text) (x y : Nat) :
    InOrder Variable.name variableLabel (survivors taken [⟨name, x⟩] [⟨name, y⟩]) := by
  rw [← numbered_eq_iff]
  cases h : taken name with
  | _ => simp [survivors, mergeKeyed, labels, numbered, numberedFrom, variableLabel, h]

theorem sampleEdit_fits (t : Trace Nat PlainHash) (name name' : Text) (value value' : Nat) :
    (sampleEdit t name value).Fits plainHashing (sampleSource name' value') where
  distinct :=
    ⟨(sampleScope_distinct _ _ _).1, (sampleScope_distinct _ _ _).2, (sampleScope_distinct _ _ _).1,
      (sampleScope_distinct _ _ _).2⟩
  ids := List.nodup_singleton _
  operations := List.nodup_singleton _
  fresh := List.nodup_singleton _
  built := by
    intro f hf
    obtain rfl := List.mem_singleton.1 hf
    exact ⟨_, rfl, rfl⟩
  inOrder := by
    refine ⟨inOrder_survivors_single _ _ _ _, ?_, ?_⟩
    · intro e he f hf _
      obtain rfl := List.mem_singleton.1 he
      obtain rfl := List.mem_singleton.1 hf
      exact inOrder_survivors_single _ _ _ _
    · intro c hc
      cases hc
  folders := ⟨List.nodup_nil, nofun, nofun⟩

/-- A renamed request and an edited variable stay, with the source changed in both. -/
theorem reimports_keep_edits_sample :
    (addressed ((sampleEdit (sampleImport (sampleSource "pet".toList 1)) "mine".toList 2).reimport plainHashing
      (sampleSource "Pet".toList 3)).scope).lookup (.own (.variable "a".toList)) = some (.variable "a".toList 2) ∧
    ∃ r ∈ ((sampleEdit (sampleImport (sampleSource "pet".toList 1)) "mine".toList 2).reimport plainHashing
      (sampleSource "Pet".toList 3)).requests, r.id = ⟨1⟩ ∧ detail r .name = .text "mine".toList := by
  have h := (reimports_keep_edits plainHashing_collisionFree sampleImport_start
    (.single (.edit _ (sampleSource "mine".toList 2).requests (sampleSource "mine".toList 2).scope))
    (sampleEdit_fits (sampleImport (sampleSource "pet".toList 1)) "mine".toList "Pet".toList 2 3)).1
  constructor
  · apply h.scope
    · decide
    · decide
    · rintro (hmem | hmem | ⟨id, label, hno, -⟩)
      · cases hmem
      · cases hmem
      · cases hno
  · refine h.detail (sampleRequest "mine".toList 1 1) (List.mem_singleton_self _) .name (by decide) ?_ nofun nofun
    rintro src ⟨⟩
    decide

/-- The user declines the source's 3 for an edited variable and then puts back 1, which the source generated first. -/
def revertedTrace : Trace Nat PlainHash :=
  sampleEdit ((sampleEdit (sampleImport (sampleSource "pet".toList 1)) "pet".toList 2).reimport plainHashing
    (sampleSource "pet".toList 3)) "pet".toList 1

/-- The value that was put back differs from what the source last generated, and the same source replaces it. -/
theorem reverted_edit_replaced :
    Start plainHashing (sampleImport (sampleSource "pet".toList 1)) ∧
    Reaches (Step plainHashing) (sampleImport (sampleSource "pet".toList 1)) revertedTrace ∧
    revertedTrace.Fits plainHashing (sampleSource "pet".toList 3) ∧
    ¬ KeepsEdits plainHashing revertedTrace revertedTrace.last (sampleSource "pet".toList 3) := by
  refine ⟨sampleImport_start, ?_, sampleEdit_fits _ _ _ _ _, ?_⟩
  · refine .tail (.tail (.single (.edit _ (sampleSource "pet".toList 2).requests (sampleSource "pet".toList 2).scope))
      (.reimport _ (sampleSource "pet".toList 3) (sampleEdit_fits _ _ _ _ _))) ?_
    exact .edit _ (sampleSource "pet".toList 1).requests (sampleSource "pet".toList 1).scope
  · intro h
    have hkept := h.scope (.own (.variable "a".toList)) (.variable "a".toList 1) (by decide) (by decide) (by
      rintro (hmem | hmem | ⟨id, label, hno, -⟩)
      · cases hmem
      · cases hmem
      · cases hno)
    exact absurd hkept (by decide +kernel)

end Anvil.Import
