import Anvil.Import.Reimport.Scope

/-!
# Scoped configuration is merged three ways (`anvil-import/src/reimport.rs`)

`ScopeMerged` says of every unit of a scope that it is the fresh one where the unit is taken and the stored one
otherwise. `applyScope` merges the variables of a list by their labels, in place, and the labels of the result are
counted anew: they are those of the merge exactly when the entries that stay or arrive are still numbered in order.

* `VariablesMerged`, `ScopeMerged` : the merge of one list of variables and of a scope;
* `NumberedInOrder` : what stays or arrives of a name are its first variables, in order;
* `applyScope_merges` : a reimport is the merge exactly when no variable is named like the key of a repeated one and
  the merged variables are numbered in order;
* `applyScope_loses` : a variable that is lost where one is.
-/

namespace Anvil.Import
open Anvil.Lib Std

section Model
variable {J H W : Type}

/-! ## Lists of variables -/

/-- The variables that stay or arrive, each under the label it had. -/
def survivors (taken : Text → Bool) (current fresh : List (Variable J)) : List (Text × Variable J) :=
  mergeKeyed taken (labels current) (labels fresh)

/-- The value of every label is the fresh one where it is taken and the stored one otherwise; what is kept stays in
order, and what arrives follows in the order of the source. -/
structure VariablesMerged (taken : Text → Bool) (current fresh result : List (Variable J)) : Prop where
  values : ∀ label, (labels result).lookup label =
    if taken label then (labels fresh).lookup label else (labels current).lookup label
  order : keysOf (labels result) =
    (keysOf (labels current)).filter (fun label =>
      (if taken label then (labels fresh).lookup label else (labels current).lookup label).isSome) ++
    (keysOf (labels fresh)).filter fun label => taken label && !(keysOf (labels current)).contains label

theorem mergeVariables_eq (at_ : Key) (current fresh : List (Variable J)) (take : List Key) :
    mergeVariables at_ current fresh take =
      (survivors (fun label => take.contains (at_ ++ '/' :: label)) current fresh).map Prod.snd := by
  have hinj : Function.Injective fun label : Text => at_ ++ '/' :: label :=
    fun a b h => (List.cons.inj (List.append_cancel_left h)).2
  have hfind : ∀ label : Text, ((variableKeys at_ fresh).find? fun f => f.1 = at_ ++ '/' :: label).map (·.2) =
      (labels fresh).lookup label := by
    intro label
    rw [variableKeys_eq, List.find?_map, Option.map_map, List.lookup_eq_findSome?]
    induction labels fresh with
    | nil => rfl
    | cons e l ih =>
      rw [List.find?_cons, List.findSome?_cons]
      by_cases he : label = e.1
      · simp [he]
      · have hne : ¬ e.1 = label := fun h => he h.symm
        simpa [he, hne] using ih
  have hany : ∀ label : Text, ((variableKeys at_ current).any fun c => c.1 = at_ ++ '/' :: label) =
      (keysOf (labels current)).contains label := by
    intro label
    rw [variableKeys_eq, List.any_map, Bool.eq_iff_iff, List.any_eq_true, List.contains_iff_mem, List.mem_map]
    simp
  unfold mergeVariables survivors mergeKeyed
  rw [List.map_append]
  congr 1
  · rw [variableKeys_eq at_ current, List.filterMap_map, List.map_filterMap]
    apply List.filterMap_congr
    intro e he
    simp only [Function.comp_apply, hfind]
    by_cases htake : at_ ++ '/' :: e.1 ∈ take
    · simp [htake]
    · simp [htake]
  · simp only [variableKeys_eq at_ fresh, List.filter_map, List.map_map, Function.comp_def, hany]

theorem variablesMerged_iff {taken : Text → Bool} {current fresh : List (Variable J)}
    (hc : (keysOf (labels current)).Nodup) (hf : (keysOf (labels fresh)).Nodup) :
    VariablesMerged taken current fresh ((survivors taken current fresh).map Prod.snd) ↔
      InOrder Variable.name variableLabel (survivors taken current fresh) := by
  have hlookup := lookup_mergeKeyed taken (labels current) (labels fresh) hc
  have hkeys := keys_mergeKeyed taken (labels current) (labels fresh)
  have hnodup := nodup_keys_mergeKeyed taken (labels current) (labels fresh) hc hf
  rw [← numbered_eq_iff]
  constructor
  · rintro ⟨hvalues, horder⟩
    have horder' : keysOf (labels ((survivors taken current fresh).map Prod.snd)) =
        keysOf (survivors taken current fresh) := horder.trans hkeys.symm
    refine ext_of_lookup (horder' ▸ hnodup) horder' fun label => ?_
    exact (hvalues label).trans (hlookup label).symm
  · intro h
    have hlabels : labels ((survivors taken current fresh).map Prod.snd) = survivors taken current fresh := h
    refine ⟨?_, ?_⟩
    · intro label
      rw [hlabels]
      exact hlookup label
    · rw [hlabels]
      exact hkeys

/-! ## Scopes -/

section Merge
variable [DecidableEq H] [DecidableEq W] (hs : Hashing J H W) (d : ScopeDiff J H) (approval : ReimportApproval)

/-- A unit that is taken: a safe update, an approved conflict or an approved removal. -/
def TakenUnit (a : Address) : Prop :=
  Taken (d.generated.map fun g => g[a.text]?) (unitHash hs d.current a) (unitHash hs d.fresh a) approval a.text

/-- An environment that only one side has and that is taken. -/
def TakenWhole (id : Uuid) : Prop :=
  Taken (d.generated.map fun g => wholeAt hs g (environmentKey id)) (wholeHash hs d.current id) (wholeHash hs d.fresh id)
    approval (environmentKey id)

instance (a : Address) : Decidable (TakenUnit hs d approval a) :=
  inferInstanceAs (Decidable (Taken _ _ _ _ _))

instance (id : Uuid) : Decidable (TakenWhole hs d approval id) :=
  inferInstanceAs (Decidable (Taken _ _ _ _ _))

/-- The three-way merge of a scope, unit by unit. -/
structure ScopeMerged (r : ImportedScope J) : Prop where
  description : r.description =
    if TakenUnit hs d approval (.own .description) then d.fresh.description else d.current.description
  settings : r.settings =
    if TakenUnit hs d approval (.own .settings) then d.fresh.settings else d.current.settings
  auth : r.auth = if TakenUnit hs d approval (.own .auth) then d.fresh.auth else d.current.auth
  vars : VariablesMerged (fun l => TakenUnit hs d approval (.own (.variable l))) d.current.vars d.fresh.vars r.vars
  /-- An environment that only one side has is kept or dropped, taken or left out; the kept ones stay in order. -/
  environments : r.environments.map (·.id) =
    ((d.current.environments.map (·.id)).filter fun id =>
      id ∈ d.fresh.environments.map (·.id) ∨ ¬ TakenWhole hs d approval id) ++
    (d.fresh.environments.map (·.id)).filter fun id =>
      id ∉ d.current.environments.map (·.id) ∧ TakenWhole hs d approval id
  kept : ∀ e ∈ d.current.environments, e.id ∉ d.fresh.environments.map (·.id) → ¬ TakenWhole hs d approval e.id →
    e ∈ r.environments
  added : ∀ f ∈ d.fresh.environments, f.id ∉ d.current.environments.map (·.id) → TakenWhole hs d approval f.id →
    f ∈ r.environments
  environment : ∀ e ∈ d.current.environments, ∀ f ∈ d.fresh.environments, f.id = e.id →
    ∃ x ∈ r.environments, x.id = e.id ∧ x.rest = e.rest ∧
      x.name = (if TakenUnit hs d approval (.environment e.id none) then f.name else e.name) ∧
      VariablesMerged (fun l => TakenUnit hs d approval (.environment e.id (some l))) e.vars f.vars x.vars
  folders : r.folders.map (·.id) = d.current.folders.map (·.id)
  lone : ∀ c ∈ d.current.folders, c.id ∉ d.fresh.folders.map (·.id) → c ∈ r.folders
  folder : ∀ c ∈ d.current.folders, ∀ f ∈ d.fresh.folders, f.id = c.id →
    ∃ x ∈ r.folders, x.id = c.id ∧ x.rest = c.rest ∧
      x.name = (if TakenUnit hs d approval (.folder c.id none) then f.name else c.name) ∧
      x.description = (if TakenUnit hs d approval (.folder c.id (some .description)) then f.description
        else c.description) ∧
      x.settings = (if TakenUnit hs d approval (.folder c.id (some .settings)) then f.settings else c.settings) ∧
      x.auth = (if TakenUnit hs d approval (.folder c.id (some .auth)) then f.auth else c.auth) ∧
      VariablesMerged (fun l => TakenUnit hs d approval (.folder c.id (some (.variable l)))) c.vars f.vars x.vars

/-- In every list that both sides have, the variables that stay or arrive are numbered in order: one labelled `x#n`
comes after `n - 1` others of its name, labelled `x`, `x#2` and so on. -/
structure NumberedInOrder : Prop where
  own : InOrder Variable.name variableLabel
    (survivors (fun l => TakenUnit hs d approval (.own (.variable l))) d.current.vars d.fresh.vars)
  environments : ∀ e ∈ d.current.environments, ∀ f ∈ d.fresh.environments, f.id = e.id →
    InOrder Variable.name variableLabel
      (survivors (fun l => TakenUnit hs d approval (.environment e.id (some l))) e.vars f.vars)
  folders : ∀ c ∈ d.current.folders, ∀ f ∈ d.fresh.folders, f.id = c.id →
    InOrder Variable.name variableLabel
      (survivors (fun l => TakenUnit hs d approval (.folder c.id (some (.variable l)))) c.vars f.vars)

section Apply
variable {hs d} (hd : d.Distinct)

/-- What `applyScope` makes of the stored environment `e` and the fresh one `f` of the same id. -/
def mergedEnvironment (hs : Hashing J H W) (d : ScopeDiff J H) (approval : ReimportApproval) (e f : Environment J) :
    Environment J :=
  { e with
    name := if TakenUnit hs d approval (.environment e.id none) then f.name else e.name
    vars := (survivors (fun l => TakenUnit hs d approval (.environment e.id (some l))) e.vars f.vars).map Prod.snd }

def mergedFolder (hs : Hashing J H W) (d : ScopeDiff J H) (approval : ReimportApproval) (c f : Folder J) : Folder J :=
  { c with
    name := if TakenUnit hs d approval (.folder c.id none) then f.name else c.name
    description := if TakenUnit hs d approval (.folder c.id (some .description)) then f.description else c.description
    settings := if TakenUnit hs d approval (.folder c.id (some .settings)) then f.settings else c.settings
    auth := if TakenUnit hs d approval (.folder c.id (some .auth)) then f.auth else c.auth
    vars := (survivors (fun l => TakenUnit hs d approval (.folder c.id (some (.variable l)))) c.vars f.vars).map
      Prod.snd }

include hd

theorem contains_take {a : Address} (ha : a.Compared d) :
    ((diffScope hs d).take approval).contains a.text = decide (TakenUnit hs d approval a) := by
  rw [List.contains_eq_mem]
  exact decide_eq_decide.2 (mem_take_unit hd approval ha)

theorem contains_take_whole {id : Uuid} (hid : OneSided d id) :
    ((diffScope hs d).take approval).contains (environmentKey id) = decide (TakenWhole hs d approval id) := by
  rw [List.contains_eq_mem]
  exact decide_eq_decide.2 (mem_take_whole hd approval hid)

omit hd [DecidableEq H] [DecidableEq W] in
theorem not_oneSided {e f : Environment J} (he : e ∈ d.current.environments) (hf : f ∈ d.fresh.environments)
    (hid : f.id = e.id) : ¬ OneSided d e.id := by
  unfold OneSided
  rw [not_not]
  exact iff_of_true (List.mem_map_of_mem he) (hid ▸ List.mem_map_of_mem hf)

omit hd [DecidableEq H] [DecidableEq W] in
theorem not_loneFolder {c f : Folder J} (hc : c ∈ d.current.folders) (hf : f ∈ d.fresh.folders) (hid : f.id = c.id) :
    ¬ LoneFolder d c.id := by
  unfold LoneFolder
  rw [not_not]
  exact iff_of_true (List.mem_map_of_mem hc) (hid ▸ List.mem_map_of_mem hf)

theorem applyEnvironment_shared (hs : Hashing J H W) {e f : Environment J} (he : e ∈ d.current.environments)
    (hf : f ∈ d.fresh.environments)
    (hid : f.id = e.id) :
    ScopePlan.applyEnvironment d.fresh.environments ((diffScope hs d).take approval) e =
      some (mergedEnvironment hs d approval e f) := by
  have hnot := not_oneSided he hf hid
  have hfind : d.fresh.environments.find? (fun x => x.id = e.id) = some f := by
    cases h : d.fresh.environments.find? (fun x => x.id = e.id) with
    | none => exact absurd (decide_eq_true hid) (List.find?_eq_none.1 h f hf)
    | some x =>
      have hx : x.id = e.id := by simpa using List.find?_some h
      rw [List.inj_on_of_nodup_map hd.freshIds.environments (List.mem_of_find?_eq_some h) hf (hx.trans hid.symm)]
  have hname : ((diffScope hs d).take approval).contains (environmentKey e.id) =
      decide (TakenUnit hs d approval (.environment e.id none)) :=
    contains_take approval hd (a := .environment e.id none) hnot
  have hvars : (fun l => ((diffScope hs d).take approval).contains
      (environmentKey e.id ++ "/variables".toList ++ '/' :: l)) =
      fun l => decide (TakenUnit hs d approval (.environment e.id (some l))) := by
    funext l
    rw [← contains_take approval hd (a := .environment e.id (some l)) hnot, List.append_assoc, Address.text,
      List.append_assoc]
    rfl
  unfold ScopePlan.applyEnvironment mergedEnvironment
  rw [hfind]
  simp only
  rw [mergeVariables_eq, hvars, hname]
  simp only [decide_eq_true_iff]

theorem applyEnvironment_lone {e : Environment J} (he : e ∈ d.current.environments)
    (hno : e.id ∉ d.fresh.environments.map (·.id)) :
    ScopePlan.applyEnvironment d.fresh.environments ((diffScope hs d).take approval) e =
      if TakenWhole hs d approval e.id then none else some e := by
  have hone : OneSided d e.id := fun h => hno (h.1 (List.mem_map_of_mem he))
  have hfind : d.fresh.environments.find? (fun x => x.id = e.id) = none := by
    rw [List.find?_eq_none]
    intro x hx hid
    exact hno (List.mem_map.2 ⟨x, hx, by simpa using hid⟩)
  unfold ScopePlan.applyEnvironment
  rw [hfind]
  simp only
  rw [contains_take_whole approval hd hone]
  simp only [decide_eq_true_iff]

theorem applyFolder_shared (hs : Hashing J H W) {c f : Folder J} (hc : c ∈ d.current.folders) (hf : f ∈ d.fresh.folders)
    (hid : f.id = c.id) :
    ScopePlan.applyFolder d.fresh.folders ((diffScope hs d).take approval) c = mergedFolder hs d approval c f := by
  have hnot := not_loneFolder hc hf hid
  have hfind : d.fresh.folders.find? (fun x => x.id = c.id) = some f := by
    cases h : d.fresh.folders.find? (fun x => x.id = c.id) with
    | none => exact absurd (decide_eq_true hid) (List.find?_eq_none.1 h f hf)
    | some x =>
      have hx : x.id = c.id := by simpa using List.find?_some h
      rw [List.inj_on_of_nodup_map hd.freshIds.folders (List.mem_of_find?_eq_some h) hf (hx.trans hid.symm)]
  have hunit : ∀ u, ((diffScope hs d).take approval).contains (folderKey c.id ++ folderTail u) =
      decide (TakenUnit hs d approval (.folder c.id u)) := by
    intro u
    rw [← Address.text_folder]
    exact contains_take approval hd (a := .folder c.id u) hnot
  have hname : ((diffScope hs d).take approval).contains (folderKey c.id) =
      decide (TakenUnit hs d approval (.folder c.id none)) :=
    contains_take approval hd (a := .folder c.id none) hnot
  have hdescription : ((diffScope hs d).take approval).contains (folderKey c.id ++ "/description".toList) =
      decide (TakenUnit hs d approval (.folder c.id (some .description))) := hunit (some .description)
  have hsettings : ((diffScope hs d).take approval).contains (folderKey c.id ++ "/settings".toList) =
      decide (TakenUnit hs d approval (.folder c.id (some .settings))) := hunit (some .settings)
  have hauth : ((diffScope hs d).take approval).contains (folderKey c.id ++ "/auth".toList) =
      decide (TakenUnit hs d approval (.folder c.id (some .auth))) := hunit (some .auth)
  have hvars : (fun l => ((diffScope hs d).take approval).contains
      (folderKey c.id ++ "/variables".toList ++ '/' :: l)) =
      fun l => decide (TakenUnit hs d approval (.folder c.id (some (.variable l)))) := by
    funext l
    rw [← hunit, List.append_assoc]
    rfl
  unfold ScopePlan.applyFolder mergedFolder
  rw [hfind]
  simp only
  rw [mergeVariables_eq, hvars, hname, hdescription, hsettings, hauth]
  simp only [decide_eq_true_iff]

omit hd in
theorem applyFolder_lone {c : Folder J} (hno : c.id ∉ d.fresh.folders.map (·.id)) :
    ScopePlan.applyFolder d.fresh.folders ((diffScope hs d).take approval) c = c := by
  have hfind : d.fresh.folders.find? (fun x => x.id = c.id) = none := by
    rw [List.find?_eq_none]
    intro x hx hid
    exact hno (List.mem_map.2 ⟨x, hx, by simpa using hid⟩)
  unfold ScopePlan.applyFolder
  rw [hfind]

/-- What became of the own variables. -/
theorem applyScope_vars :
    ((diffScope hs d).applyScope d.current d.fresh approval).vars =
      (survivors (fun l => TakenUnit hs d approval (.own (.variable l))) d.current.vars d.fresh.vars).map Prod.snd := by
  have hvars : (fun l => ((diffScope hs d).take approval).contains ("variables".toList ++ '/' :: l)) =
      fun l => decide (TakenUnit hs d approval (.own (.variable l))) := by
    funext l
    rw [← contains_take approval hd (a := .own (.variable l)) trivial]
    rfl
  unfold ScopePlan.applyScope
  simp only
  rw [mergeVariables_eq, hvars]

/-- An environment of the result that a stored one has become. -/
theorem mem_environments_shared {e f x : Environment J} (he : e ∈ d.current.environments)
    (hf : f ∈ d.fresh.environments) (hid : f.id = e.id) :
    x ∈ ((diffScope hs d).applyScope d.current d.fresh approval).environments ∧ x.id = e.id ↔
      x = mergedEnvironment hs d approval e f := by
  have happly := applyEnvironment_shared approval hd hs he hf hid
  unfold ScopePlan.applyScope
  simp only [List.mem_append, List.mem_filterMap, List.mem_filter]
  constructor
  · rintro ⟨⟨e', he', hx⟩ | ⟨⟨hx, hnew⟩, -⟩, hxid⟩
    · have hid' : x.id = e'.id := by
        unfold ScopePlan.applyEnvironment at hx
        simp only at hx
        split at hx
        · split_ifs at hx
          cases hx
          rfl
        · cases hx
          rfl
      rw [List.inj_on_of_nodup_map hd.currentIds.environments he' he (hid'.symm.trans hxid), happly] at hx
      exact (Option.some.inj hx).symm
    · rw [Bool.not_eq_true', List.any_eq_false] at hnew
      exact absurd (decide_eq_true hxid.symm) (hnew e he)
  · rintro rfl
    exact ⟨.inl ⟨e, he, happly⟩, rfl⟩

theorem applyScope_environment_ids :
    ((diffScope hs d).applyScope d.current d.fresh approval).environments.map (·.id) =
      ((d.current.environments.map (·.id)).filter fun id =>
        id ∈ d.fresh.environments.map (·.id) ∨ ¬ TakenWhole hs d approval id) ++
      (d.fresh.environments.map (·.id)).filter fun id =>
        id ∉ d.current.environments.map (·.id) ∧ TakenWhole hs d approval id := by
  unfold ScopePlan.applyScope
  simp only
  rw [List.map_append, List.filter_map, List.filter_map, List.map_filterMap, List.filter_filter]
  congr 1
  · rw [← List.filterMap_eq_filter, List.map_filterMap]
    apply List.filterMap_congr
    intro e he
    by_cases hin : e.id ∈ d.fresh.environments.map (·.id)
    · obtain ⟨f, hf, hid⟩ := List.mem_map.1 hin
      rw [applyEnvironment_shared approval hd hs he hf hid]
      simp only [Function.comp, Option.guard, hin, true_or, decide_true, if_true]
      rfl
    · rw [applyEnvironment_lone approval hd he hin]
      by_cases htaken : TakenWhole hs d approval e.id
      · simpa [Option.guard, htaken] using hin
      · simp [Option.guard, htaken]
  · congr 1
    apply List.filter_congr
    intro f hf
    have hany : (!d.current.environments.any fun e => e.id = f.id) =
        decide (f.id ∉ d.current.environments.map (·.id)) := by
      rw [Bool.eq_iff_iff, Bool.not_eq_true', List.any_eq_false, decide_eq_true_iff, List.mem_map]
      simp
    by_cases hin : f.id ∈ d.current.environments.map (·.id)
    · simp only [hany, hin, not_true_eq_false, decide_false, Bool.and_false, Function.comp, false_and]
    · have hone : OneSided d f.id := fun h => hin (h.2 (List.mem_map_of_mem hf))
      rw [contains_take_whole approval hd hone, hany]
      simp only [hin, not_false_eq_true, decide_true, Bool.and_true, Function.comp, true_and]

theorem applyScope_kept {e : Environment J} (he : e ∈ d.current.environments)
    (hno : e.id ∉ d.fresh.environments.map (·.id)) (htaken : ¬ TakenWhole hs d approval e.id) :
    e ∈ ((diffScope hs d).applyScope d.current d.fresh approval).environments := by
  refine List.mem_append_left _ (List.mem_filterMap.2 ⟨e, he, ?_⟩)
  rw [applyEnvironment_lone approval hd he hno, if_neg htaken]

theorem applyScope_added {f : Environment J} (hf : f ∈ d.fresh.environments)
    (hno : f.id ∉ d.current.environments.map (·.id)) (htaken : TakenWhole hs d approval f.id) :
    f ∈ ((diffScope hs d).applyScope d.current d.fresh approval).environments := by
  have hone : OneSided d f.id := fun h => hno (h.2 (List.mem_map_of_mem hf))
  refine List.mem_append_right _ (List.mem_filter.2 ⟨List.mem_filter.2 ⟨hf, ?_⟩, ?_⟩)
  · rw [Bool.not_eq_true', List.any_eq_false]
    intro e he hid
    exact hno (List.mem_map.2 ⟨e, he, by simpa using hid⟩)
  · rw [contains_take_whole approval hd hone]
    exact decide_eq_true htaken

omit hd in
theorem applyScope_folder_ids :
    ((diffScope hs d).applyScope d.current d.fresh approval).folders.map (·.id) = d.current.folders.map (·.id) := by
  unfold ScopePlan.applyScope
  simp only
  rw [List.map_map]
  apply List.map_congr_left
  intro c _
  unfold ScopePlan.applyFolder
  simp only [Function.comp]
  split <;> rfl

/-- A folder of the result that a stored one has become. -/
theorem mem_folders_shared {c f x : Folder J} (hc : c ∈ d.current.folders) (hf : f ∈ d.fresh.folders)
    (hid : f.id = c.id) :
    x ∈ ((diffScope hs d).applyScope d.current d.fresh approval).folders ∧ x.id = c.id ↔
      x = mergedFolder hs d approval c f := by
  have happly := applyFolder_shared approval hd hs hc hf hid
  unfold ScopePlan.applyScope
  simp only [List.mem_map]
  constructor
  · rintro ⟨⟨c', hc', rfl⟩, hxid⟩
    have hid' : (ScopePlan.applyFolder d.fresh.folders ((diffScope hs d).take approval) c').id = c'.id := by
      unfold ScopePlan.applyFolder
      split <;> rfl
    rw [List.inj_on_of_nodup_map hd.currentIds.folders hc' hc (hid'.symm.trans hxid), happly]
  · rintro rfl
    exact ⟨⟨c, hc, happly⟩, rfl⟩

/-- Of distinct labels, the result is the merge exactly when the merged variables are numbered in order. -/
theorem scopeMerged_iff :
    ScopeMerged hs d approval ((diffScope hs d).applyScope d.current d.fresh approval) ↔
      NumberedInOrder hs d approval := by
  constructor
  · intro h
    refine ⟨?_, ?_, ?_⟩
    · have := h.vars
      rw [applyScope_vars approval hd] at this
      exact (variablesMerged_iff hd.currentLabels.own hd.freshLabels.own).1 this
    · intro e he f hf hid
      obtain ⟨x, hx, hxid, -, -, hvars⟩ := h.environment e he f hf hid
      rw [(mem_environments_shared approval hd he hf hid).1 ⟨hx, hxid⟩] at hvars
      exact (variablesMerged_iff (hd.currentLabels.environments e he) (hd.freshLabels.environments f hf)).1 hvars
    · intro c hc f hf hid
      obtain ⟨x, hx, hxid, -, -, -, -, -, hvars⟩ := h.folder c hc f hf hid
      rw [(mem_folders_shared approval hd hc hf hid).1 ⟨hx, hxid⟩] at hvars
      exact (variablesMerged_iff (hd.currentLabels.folders c hc) (hd.freshLabels.folders f hf)).1 hvars
  · intro h
    have hown : ∀ u, ((diffScope hs d).take approval).contains u.text = decide (TakenUnit hs d approval (.own u)) :=
      fun u => contains_take approval hd (a := .own u) trivial
    have hite : ∀ {α : Type} (u : ScopeUnit) (x y : α),
        (if ((diffScope hs d).take approval).contains u.text then x else y) =
          if TakenUnit hs d approval (.own u) then x else y := by
      intro α u x y
      rw [hown u]
      simp only [decide_eq_true_iff]
    refine ⟨?_, ?_, ?_, ?_, ?_, ?_, ?_, ?_, ?_, ?_, ?_⟩
    · exact hite .description _ _
    · exact hite .settings _ _
    · exact hite .auth _ _
    · rw [applyScope_vars approval hd]
      exact (variablesMerged_iff hd.currentLabels.own hd.freshLabels.own).2 h.own
    · exact applyScope_environment_ids approval hd
    · exact fun e he hno htaken => applyScope_kept approval hd he hno htaken
    · exact fun f hf hno htaken => applyScope_added approval hd hf hno htaken
    · intro e he f hf hid
      obtain ⟨hx, hxid⟩ := (mem_environments_shared approval hd he hf hid).2 (rfl : mergedEnvironment hs d approval e f = _)
      refine ⟨_, hx, hxid, rfl, rfl, ?_⟩
      exact (variablesMerged_iff (hd.currentLabels.environments e he) (hd.freshLabels.environments f hf)).2
        (h.environments e he f hf hid)
    · exact applyScope_folder_ids approval
    · intro c hc hno
      exact List.mem_map.2 ⟨c, hc, applyFolder_lone approval hno⟩
    · intro c hc f hf hid
      obtain ⟨hx, hxid⟩ := (mem_folders_shared approval hd hc hf hid).2 (rfl : mergedFolder hs d approval c f = _)
      refine ⟨_, hx, hxid, rfl, rfl, rfl, rfl, rfl, ?_⟩
      exact (variablesMerged_iff (hd.currentLabels.folders c hc) (hd.freshLabels.folders f hf)).2
        (h.folders c hc f hf hid)

end Apply

/-! ## The value of every unit -/

/-- New folders of the source, as they are stored with the requests added in them. -/
structure NewFolders (d : ScopeDiff J H) (new : List (Folder J)) : Prop where
  ids : (new.map (·.id)).Nodup
  fresh : ∀ f ∈ new, f ∈ d.fresh.folders
  notStored : ∀ f ∈ new, f.id ∉ d.current.folders.map (·.id)

/-- The scope that is stored after a reimport. -/
def storedAfter (hs : Hashing J H W) (d : ScopeDiff J H) (approval : ReimportApproval) (new : List (Folder J)) :
    ImportedScope J :=
  let r := (diffScope hs d).applyScope d.current d.fresh approval
  { r with folders := r.folders ++ new }

section Values
variable {hs d} {approval} (hd : d.Distinct) (hin : NumberedInOrder hs d approval) {new : List (Folder J)}
  (hnew : NewFolders d new)
include hd

omit hd in
theorem nodup_of_variablesMerged {taken : Text → Bool} {current fresh result : List (Variable J)}
    (hc : (keysOf (labels current)).Nodup) (hf : (keysOf (labels fresh)).Nodup)
    (h : VariablesMerged taken current fresh result) : (keysOf (labels result)).Nodup := by
  rw [h.order]
  exact keys_mergeKeyed taken (labels current) (labels fresh) ▸
    nodup_keys_mergeKeyed taken (labels current) (labels fresh) hc hf

include hnew in
theorem storedAfter_ids : (storedAfter hs d approval new).DistinctIds := by
  constructor
  · rw [show (storedAfter hs d approval new).environments =
      ((diffScope hs d).applyScope d.current d.fresh approval).environments from rfl,
      applyScope_environment_ids approval hd, List.nodup_append]
    refine ⟨hd.currentIds.environments.filter _, hd.freshIds.environments.filter _, ?_⟩
    intro i hi j hj hij
    subst hij
    have hmem := (List.mem_filter.1 hi).1
    have hno := of_decide_eq_true (List.mem_filter.1 hj).2
    exact hno.1 hmem
  · rw [show (storedAfter hs d approval new).folders =
      ((diffScope hs d).applyScope d.current d.fresh approval).folders ++ new from rfl, List.map_append,
      applyScope_folder_ids, List.nodup_append]
    refine ⟨hd.currentIds.folders, hnew.ids, ?_⟩
    intro i hi j hj hij
    subst hij
    obtain ⟨f, hf, rfl⟩ := List.mem_map.1 hj
    exact hnew.notStored f hf hi

include hin hnew in
theorem storedAfter_labels : (storedAfter hs d approval new).DistinctLabels := by
  have hm := (scopeMerged_iff approval hd).2 hin
  refine ⟨nodup_of_variablesMerged hd.currentLabels.own hd.freshLabels.own hm.vars, ?_, ?_⟩
  · intro x hx
    rcases List.mem_append.1 hx with hx | hx
    · obtain ⟨e, he, hex⟩ := List.mem_filterMap.1 hx
      by_cases hno : e.id ∈ d.fresh.environments.map (·.id)
      · obtain ⟨f, hf, hid⟩ := List.mem_map.1 hno
        rw [applyEnvironment_shared approval hd hs he hf hid] at hex
        cases hex
        exact nodup_of_variablesMerged (hd.currentLabels.environments e he) (hd.freshLabels.environments f hf)
          ((variablesMerged_iff (hd.currentLabels.environments e he) (hd.freshLabels.environments f hf)).2
            (hin.environments e he f hf hid))
      · rw [applyEnvironment_lone approval hd he hno] at hex
        split_ifs at hex
        cases hex
        exact hd.currentLabels.environments _ he
    · exact hd.freshLabels.environments x (List.mem_filter.1 (List.mem_filter.1 hx).1).1
  · intro x hx
    rcases List.mem_append.1 hx with hx | hx
    · obtain ⟨c, hc, rfl⟩ := List.mem_map.1 hx
      by_cases hno : c.id ∈ d.fresh.folders.map (·.id)
      · obtain ⟨f, hf, hid⟩ := List.mem_map.1 hno
        rw [applyFolder_shared approval hd hs hc hf hid]
        exact nodup_of_variablesMerged (hd.currentLabels.folders c hc) (hd.freshLabels.folders f hf)
          ((variablesMerged_iff (hd.currentLabels.folders c hc) (hd.freshLabels.folders f hf)).2
            (hin.folders c hc f hf hid))
      · rw [applyFolder_lone approval hno]
        exact hd.currentLabels.folders c hc
    · exact hd.freshLabels.folders x (hnew.fresh x hx)

omit hd in
theorem lookup_environment_none {s : ImportedScope J} {id : Uuid} (hno : id ∉ s.environments.map (·.id))
    (label : Option Text) : (addressed s).lookup (.environment id label) = none := by
  rw [lookup_eq_none]
  intro h
  obtain ⟨e, he, hid⟩ := mem_keys_environment h
  exact hno (List.mem_map.2 ⟨e, he, hid⟩)

omit hd in
theorem lookup_folder_none {s : ImportedScope J} {id : Uuid} (hno : id ∉ s.folders.map (·.id))
    (u : Option ScopeUnit) : (addressed s).lookup (.folder id u) = none := by
  rw [lookup_eq_none]
  intro h
  obtain ⟨f, hf, hid⟩ := mem_keys_folder h
  exact hno (List.mem_map.2 ⟨f, hf, hid⟩)

theorem mem_storedAfter_environments {id : Uuid} :
    id ∈ (storedAfter hs d approval new).environments.map (·.id) ↔
      (id ∈ d.current.environments.map (·.id) ∧
        (id ∈ d.fresh.environments.map (·.id) ∨ ¬ TakenWhole hs d approval id)) ∨
      (id ∈ d.fresh.environments.map (·.id) ∧ id ∉ d.current.environments.map (·.id) ∧ TakenWhole hs d approval id) := by
  rw [show (storedAfter hs d approval new).environments =
    ((diffScope hs d).applyScope d.current d.fresh approval).environments from rfl,
    applyScope_environment_ids approval hd, List.mem_append, List.mem_filter, List.mem_filter]
  simp only [decide_eq_true_iff]

omit hd in
theorem mem_storedAfter_folders {id : Uuid} :
    id ∈ (storedAfter hs d approval new).folders.map (·.id) ↔
      id ∈ d.current.folders.map (·.id) ∨ id ∈ new.map (·.id) := by
  rw [show (storedAfter hs d approval new).folders =
    ((diffScope hs d).applyScope d.current d.fresh approval).folders ++ new from rfl, List.map_append, List.mem_append,
    applyScope_folder_ids]

omit hd in
theorem VariablesMerged.lookup_value {taken : Text → Bool} {current fresh result : List (Variable J)}
    (h : VariablesMerged taken current fresh result) (label : Text) :
    ((labels result).lookup label).map Variable.value =
      if taken label then ((labels fresh).lookup label).map Variable.value
      else ((labels current).lookup label).map Variable.value := by
  rw [h.values]
  split_ifs <;> rfl

include hin hnew

/-- The value of a unit that both sides may have. -/
theorem lookup_storedAfter {a : Address} (ha : a.Compared d) :
    (addressed (storedAfter hs d approval new)).lookup a =
      if TakenUnit hs d approval a then (addressed d.fresh).lookup a else (addressed d.current).lookup a := by
  have hm := (scopeMerged_iff approval hd).2 hin
  have hids : (storedAfter hs d approval new).DistinctIds := storedAfter_ids hd hnew
  have hlabels := storedAfter_labels hd hin hnew
  match a with
  | .own u =>
    rw [lookup_own hids hlabels, lookup_own hd.freshIds hd.freshLabels, lookup_own hd.currentIds hd.currentLabels,
      lookup_scopeParts, lookup_scopeParts, lookup_scopeParts]
    match u with
    | .description =>
      have h : (storedAfter hs d approval new).description = _ := hm.description
      simp only [h]
      split_ifs <;> rfl
    | .settings =>
      have h : (storedAfter hs d approval new).settings = _ := hm.settings
      simp only [h]
      split_ifs <;> rfl
    | .auth =>
      have h : (storedAfter hs d approval new).auth = _ := hm.auth
      simp only [h]
      split_ifs <;> rfl
    | .variable l =>
      have h := hm.vars.lookup_value l
      simp only [decide_eq_true_iff] at h
      exact h
  | .environment id label =>
    have hboth := not_not.1 ha
    by_cases hcur : id ∈ d.current.environments.map (·.id)
    · obtain ⟨e, he, rfl⟩ := List.mem_map.1 hcur
      obtain ⟨f, hf, hid⟩ := List.mem_map.1 (hboth.1 hcur)
      have hx := (mem_environments_shared approval hd he hf hid).2 (rfl : mergedEnvironment hs d approval e f = _)
      have hr := lookup_environment hids hlabels (e := mergedEnvironment hs d approval e f) hx.1 label
      have hfresh := lookup_environment hd.freshIds hd.freshLabels hf label
      rw [hid] at hfresh
      rw [show e.id = (mergedEnvironment hs d approval e f).id from rfl, hr,
        show (mergedEnvironment hs d approval e f).id = e.id from rfl, hfresh,
        lookup_environment hd.currentIds hd.currentLabels he, lookup_environmentParts, lookup_environmentParts,
        lookup_environmentParts]
      match label with
      | none =>
        unfold mergedEnvironment
        simp only
        split_ifs <;> rfl
      | some l =>
        have h := ((variablesMerged_iff (hd.currentLabels.environments e he) (hd.freshLabels.environments f hf)).2
          (hin.environments e he f hf hid)).lookup_value l
        simp only [decide_eq_true_iff] at h
        exact h
    · have hfresh : id ∉ d.fresh.environments.map (·.id) := fun h => hcur (hboth.2 h)
      have hr : id ∉ (storedAfter hs d approval new).environments.map (·.id) := by
        rw [mem_storedAfter_environments hd]
        tauto
      rw [lookup_environment_none hr, lookup_environment_none hfresh, lookup_environment_none hcur, ite_self]
  | .folder id u =>
    have hboth := not_not.1 ha
    by_cases hcur : id ∈ d.current.folders.map (·.id)
    · obtain ⟨c, hc, rfl⟩ := List.mem_map.1 hcur
      obtain ⟨f, hf, hid⟩ := List.mem_map.1 (hboth.1 hcur)
      have hx := (mem_folders_shared approval hd hc hf hid).2 (rfl : mergedFolder hs d approval c f = _)
      have hr := lookup_folder hids hlabels (f := mergedFolder hs d approval c f) (List.mem_append_left _ hx.1) u
      have hfresh := lookup_folder hd.freshIds hd.freshLabels hf u
      rw [hid] at hfresh
      rw [show c.id = (mergedFolder hs d approval c f).id from rfl, hr,
        show (mergedFolder hs d approval c f).id = c.id from rfl, hfresh,
        lookup_folder hd.currentIds hd.currentLabels hc, lookup_folderParts, lookup_folderParts, lookup_folderParts]
      match u with
      | none =>
        unfold mergedFolder
        simp only
        split_ifs <;> rfl
      | some u =>
        simp only
        rw [lookup_scopeParts, lookup_scopeParts, lookup_scopeParts]
        match u with
        | .description =>
          unfold mergedFolder
          simp only
          split_ifs <;> rfl
        | .settings =>
          unfold mergedFolder
          simp only
          split_ifs <;> rfl
        | .auth =>
          unfold mergedFolder
          simp only
          split_ifs <;> rfl
        | .variable l =>
          have h := ((variablesMerged_iff (hd.currentLabels.folders c hc) (hd.freshLabels.folders f hf)).2
            (hin.folders c hc f hf hid)).lookup_value l
          simp only [decide_eq_true_iff] at h
          exact h
    · have hfresh : id ∉ d.fresh.folders.map (·.id) := fun h => hcur (hboth.2 h)
      have hr : id ∉ (storedAfter hs d approval new).folders.map (·.id) := by
        rw [mem_storedAfter_folders, not_or]
        refine ⟨hcur, fun h => ?_⟩
        obtain ⟨f, hf, rfl⟩ := List.mem_map.1 h
        exact hfresh (List.mem_map_of_mem (hnew.fresh f hf))
      rw [lookup_folder_none hr, lookup_folder_none hfresh, lookup_folder_none hcur, ite_self]

/-- An environment that only one side has is there whole or not at all. -/
theorem lookup_storedAfter_whole {id : Uuid} (hid : OneSided d id) (label : Option Text) :
    (addressed (storedAfter hs d approval new)).lookup (.environment id label) =
      if TakenWhole hs d approval id then (addressed d.fresh).lookup (.environment id label)
      else (addressed d.current).lookup (.environment id label) := by
  have hids : (storedAfter hs d approval new).DistinctIds := storedAfter_ids hd hnew
  have hlabels := storedAfter_labels hd hin hnew
  unfold OneSided at hid
  by_cases hcur : id ∈ d.current.environments.map (·.id)
  · have hfresh : id ∉ d.fresh.environments.map (·.id) := fun h => hid (iff_of_true hcur h)
    rw [lookup_environment_none hfresh]
    split_ifs with htaken
    · apply lookup_environment_none
      rw [mem_storedAfter_environments hd]
      tauto
    · obtain ⟨e, he, rfl⟩ := List.mem_map.1 hcur
      have hx := applyScope_kept approval hd he hfresh htaken
      rw [lookup_environment hids hlabels hx, lookup_environment hd.currentIds hd.currentLabels he]
  · have hfresh : id ∈ d.fresh.environments.map (·.id) := by tauto
    rw [lookup_environment_none hcur]
    split_ifs with htaken
    · obtain ⟨f, hf, rfl⟩ := List.mem_map.1 hfresh
      have hx := applyScope_added approval hd hf hcur htaken
      rw [lookup_environment hids hlabels hx, lookup_environment hd.freshIds hd.freshLabels hf]
    · apply lookup_environment_none
      rw [mem_storedAfter_environments hd]
      tauto

omit hin in
theorem wholeHash_storedAfter {id : Uuid} (hid : OneSided d id) (htaken : ¬ TakenWhole hs d approval id) :
    wholeHash hs (storedAfter hs d approval new) id = wholeHash hs d.current id := by
  have hids : (storedAfter hs d approval new).DistinctIds := storedAfter_ids hd hnew
  unfold OneSided at hid
  by_cases hcur : id ∈ d.current.environments.map (·.id)
  · have hfresh : id ∉ d.fresh.environments.map (·.id) := fun h => hid (iff_of_true hcur h)
    obtain ⟨e, he, rfl⟩ := List.mem_map.1 hcur
    have hx : e ∈ (storedAfter hs d approval new).environments := applyScope_kept approval hd he hfresh htaken
    rw [wholeHash_of_mem hids hx, wholeHash_of_mem hd.currentIds he]
  · have hr : id ∉ (storedAfter hs d approval new).environments.map (·.id) := by
      rw [mem_storedAfter_environments hd]
      tauto
    rw [wholeHash_of_not_mem hr, wholeHash_of_not_mem hcur]

/-- A folder that only one side has is left alone, or stored as it is new. -/
theorem lookup_storedAfter_lone {id : Uuid} (hid : LoneFolder d id) (u : Option ScopeUnit) :
    (addressed (storedAfter hs d approval new)).lookup (.folder id u) =
      if id ∈ new.map (·.id) then (addressed d.fresh).lookup (.folder id u)
      else (addressed d.current).lookup (.folder id u) := by
  have hids : (storedAfter hs d approval new).DistinctIds := storedAfter_ids hd hnew
  have hlabels := storedAfter_labels hd hin hnew
  split_ifs with hmem
  · obtain ⟨f, hf, rfl⟩ := List.mem_map.1 hmem
    rw [lookup_folder hids hlabels (List.mem_append_right _ hf),
      lookup_folder hd.freshIds hd.freshLabels (hnew.fresh f hf)]
  · by_cases hcur : id ∈ d.current.folders.map (·.id)
    · obtain ⟨c, hc, rfl⟩ := List.mem_map.1 hcur
      have hfresh : c.id ∉ d.fresh.folders.map (·.id) := fun h => hid (iff_of_true hcur h)
      have hx : c ∈ (storedAfter hs d approval new).folders :=
        List.mem_append_left _ (List.mem_map.2 ⟨c, hc, applyFolder_lone approval hfresh⟩)
      rw [lookup_folder hids hlabels hx, lookup_folder hd.currentIds hd.currentLabels hc]
    · have hr : id ∉ (storedAfter hs d approval new).folders.map (·.id) := by
        rw [mem_storedAfter_folders]
        tauto
      rw [lookup_folder_none hr, lookup_folder_none hcur]

end Values

/-- No two units share a key on either side, and the reimport is the three-way merge. -/
def ReimportedByUnit : Prop :=
  (keysOf (scopeUnits d.current)).Nodup ∧ (keysOf (scopeUnits d.fresh)).Nodup ∧
    ScopeMerged hs d approval ((diffScope hs d).applyScope d.current d.fresh approval)

/-- **When reimporting scoped configuration is a three-way merge of units**: exactly when no variable of either side is
named like the key of a repeated one, and the variables that stay or arrive are numbered in order. -/
theorem applyScope_merges (hc : d.current.DistinctIds) (hf : d.fresh.DistinctIds) :
    ReimportedByUnit hs d approval ↔
      d.current.NoClashes ∧ d.fresh.NoClashes ∧ NumberedInOrder hs d approval := by
  unfold ReimportedByUnit
  rw [nodup_scopeUnits hc, nodup_scopeUnits hf, distinctLabels_iff, distinctLabels_iff]
  apply and_congr_right
  intro hnc
  apply and_congr_right
  intro hnf
  exact scopeMerged_iff approval ⟨hc, distinctLabels_iff.2 hnc, hf, distinctLabels_iff.2 hnf⟩

end Merge

end Model

/-! ## Repeated names -/

instance : DecidableEq (List (Key × PlainHash)) := @List.hasDecEq _ inferInstance

/-- A scope with these variables and one environment with these. -/
def sampleScope (vars envVars : List (Variable Nat)) : ImportedScope Nat :=
  ⟨[], 0, vars, 0, [⟨⟨7⟩, "Production".toList, envVars, 0⟩], []⟩

/-- Two variables of one name, and the source has a new value for the second. -/
def repeatedDiff : ScopeDiff Nat PlainHash :=
  { current := sampleScope [⟨"a".toList, 1⟩, ⟨"a".toList, 2⟩] [⟨"baseUrl".toList, 1⟩]
    generated := some (unitHashes plainHashing (sampleScope [⟨"a".toList, 1⟩, ⟨"a".toList, 2⟩] [⟨"baseUrl".toList, 1⟩]))
    fresh := sampleScope [⟨"a".toList, 1⟩, ⟨"a".toList, 5⟩] [⟨"baseUrl".toList, 2⟩] }

theorem applyScope_merges_repeated : ReimportedByUnit plainHashing repeatedDiff {} := by
  refine (applyScope_merges plainHashing repeatedDiff {} ⟨by decide, by decide⟩ ⟨by decide, by decide⟩).2
    ⟨distinctLabels_iff.1 ⟨by decide, by decide, by decide⟩, distinctLabels_iff.1 ⟨by decide, by decide, by decide⟩, ?_⟩
  refine ⟨(numbered_eq_iff _ _ _).1 (by decide), ?_, ?_⟩
  · intro e he f hf _
    obtain rfl := List.mem_singleton.1 he
    obtain rfl := List.mem_singleton.1 hf
    exact (numbered_eq_iff _ _ _).1 (by decide)
  · intro c hc
    cases hc

/-- A third variable is named like the key of the second, and the source has a new value for it. -/
def clashingDiff : ScopeDiff Nat PlainHash :=
  { current := sampleScope [⟨"a".toList, 1⟩, ⟨"a".toList, 2⟩, ⟨"a#2".toList, 3⟩] []
    generated := some (unitHashes plainHashing
      (sampleScope [⟨"a".toList, 1⟩, ⟨"a".toList, 2⟩, ⟨"a#2".toList, 3⟩] []))
    fresh := sampleScope [⟨"a".toList, 1⟩, ⟨"a".toList, 2⟩, ⟨"a#2".toList, 4⟩] [] }

/-- The third variable is lost: both that have the key are replaced by the first that has it. -/
theorem applyScope_loses :
    ¬ ReimportedByUnit plainHashing clashingDiff {} ∧
      ((diffScope plainHashing clashingDiff).applyScope clashingDiff.current clashingDiff.fresh {}).vars =
        [⟨"a".toList, 1⟩, ⟨"a".toList, 2⟩, ⟨"a".toList, 2⟩] := by
  constructor
  · intro h
    exact absurd h.1 (by decide)
  · decide

end Anvil.Import
