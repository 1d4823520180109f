import Anvil.Import.Reimport.Baseline

/-!
# Reimporting the same source again

What a plan offers right after a reimport of the same source, with the hashes that it left: no safe update, the declined
conflicts, and the declined removals of which a hash was known.

* `scope_again` : of scoped configuration;
* `requests_again` : of requests.
-/

namespace Anvil.Import
open Anvil.Lib Std

section Model
variable {J H W : Type} [DecidableEq H] [DecidableEq W]

/-- Hashes without collisions, and none is the mark of a declined conflict. -/
structure Hashing.CollisionFree (hs : Hashing J H W) : Prop where
  spec : Function.Injective hs.spec
  unit : Function.Injective hs.unit
  all : Function.Injective hs.all
  declined : ∀ v, hs.unit v ≠ hs.declined

/-! ## Scoped configuration -/

section Scope
variable {hs : Hashing J H W} (hfree : hs.CollisionFree) {d : ScopeDiff J H} (hd : d.Distinct)
  {approval : ReimportApproval} (hin : NumberedInOrder hs d approval) {new : List (Folder J)} (hnew : NewFolders d new)
  {p : RequestPlan J H} {requests : List (RequestDefinition J H)}

/-- The comparison with the same source right after a reimport. -/
def againDiff (hs : Hashing J H W) (d : ScopeDiff J H) (approval : ReimportApproval) (new : List (Folder J))
    (p : RequestPlan J H) (requests : List (RequestDefinition J H)) : ScopeDiff J H :=
  { current := storedAfter hs d approval new
    generated := some (nextGeneratedScope hs p (diffScope hs d) d.fresh requests d.generated approval)
    fresh := d.fresh }

/-- A hash of the unit, or of something of the whole environment, was known. -/
def KnownAt (hs : Hashing J H W) (d : ScopeDiff J H) (key : Key) : Prop :=
  (d.generated.bind fun g => hashAt hs g key ((oneSided hs d).contains key)).isSome

instance (key : Key) : Decidable (KnownAt hs d key) := inferInstanceAs (Decidable (_ = true))

include hd in
theorem oneSided_again {id : Uuid} :
    OneSided (againDiff hs d approval new p requests) id ↔ OneSided d id ∧ ¬ TakenWhole hs d approval id := by
  unfold OneSided againDiff
  simp only
  rw [mem_storedAfter_environments hd]
  tauto

include hnew in
theorem loneFolder_again {id : Uuid} :
    LoneFolder (againDiff hs d approval new p requests) id ↔ LoneFolder d id ∧ id ∉ new.map (·.id) := by
  have hfresh : id ∈ new.map (·.id) → id ∈ d.fresh.folders.map (·.id) := by
    intro h
    obtain ⟨f, hf, rfl⟩ := List.mem_map.1 h
    exact List.mem_map_of_mem (hnew.fresh f hf)
  have hno : id ∈ new.map (·.id) → id ∉ d.current.folders.map (·.id) := by
    intro h
    obtain ⟨f, hf, rfl⟩ := List.mem_map.1 h
    exact hnew.notStored f hf
  unfold LoneFolder againDiff
  simp only
  rw [mem_storedAfter_folders]
  tauto

include hd hin hnew

theorem againDiff_distinct : (againDiff hs d approval new p requests).Distinct :=
  ⟨storedAfter_ids hd hnew, storedAfter_labels hd hin hnew, hd.freshIds, hd.freshLabels⟩

/-- A unit that is the fresh one is not offered again. -/
theorem offer_of_fresh {a : Address} (ha : a.Compared (againDiff hs d approval new p requests))
    (h : (addressed (storedAfter hs d approval new)).lookup a = (addressed d.fresh).lookup a) :
    (scopeOutcome hs (againDiff hs d approval new p requests) a.text).offer = .nothing := by
  rw [offer_unit (againDiff_distinct hd hin hnew) ha]
  apply if_pos
  unfold unitHash againDiff
  simp only
  rw [h]

omit [DecidableEq H] [DecidableEq W] hd hin hnew in
theorem knownAt_unit {a : Address} (hd : d.Distinct) (ha : a.Compared d) :
    KnownAt hs d a.text ↔ (d.generated.map fun g => g[a.text]?).join.isSome := by
  have hwhole : (oneSided hs d).contains a.text = false := by
    rw [List.contains_eq_mem, decide_eq_false_iff_not, mem_oneSided hd]
    rintro ⟨id, hid, hone⟩
    have : a = .environment id none := Address.text_injective hid
    subst this
    exact ha hone
  unfold KnownAt
  rw [hwhole]
  cases d.generated with
  | none => rfl
  | some g => simp [hashAt]

omit [DecidableEq H] [DecidableEq W] hd hin hnew in
theorem knownAt_whole {id : Uuid} (hd : d.Distinct) (hid : OneSided d id) :
    KnownAt hs d (environmentKey id) ↔ (d.generated.map fun g => wholeAt hs g (environmentKey id)).join.isSome := by
  have hwhole : (oneSided hs d).contains (environmentKey id) = true := by
    rw [List.contains_iff_mem, mem_oneSided hd]
    exact ⟨id, rfl, hid⟩
  unfold KnownAt
  rw [hwhole]
  cases d.generated with
  | none => rfl
  | some g =>
    simp only [hashAt, wholeAt, if_true, Option.bind_some, Option.map_some, Option.join_some]
    split_ifs <;> rfl

omit [DecidableEq H] [DecidableEq W] hd hin hnew in
theorem Offer.again_congr {overwrite delete known known' : Prop} [Decidable overwrite] [Decidable delete]
    [Decidable known] [Decidable known'] (h : known ↔ known') (o : Offer) :
    o.again overwrite delete known = o.again overwrite delete known' := by
  cases o <;> simp only [Offer.again, h]

omit [DecidableEq H] [DecidableEq W] hd hin hnew in
theorem unitHash_ne_declined (hfree : hs.CollisionFree) (s : ImportedScope J) (a : Address) :
    unitHash hs s a ≠ some hs.declined := by
  unfold unitHash
  rw [ne_eq, Option.map_eq_some_iff]
  rintro ⟨v, -, hv⟩
  exact hfree.declined v hv

omit [DecidableEq H] [DecidableEq W] hd hin hnew in
theorem wholeHash_ne_declined (hfree : hs.CollisionFree) {s : ImportedScope J} (hids : s.DistinctIds)
    (hlabels : s.DistinctLabels) (id : Uuid) :
    wholeHash hs s id ≠ some (hs.all {(environmentKey id, hs.declined)}) := by
  classical
  rw [← wholeAt_unitHashes hids hlabels]
  unfold wholeAt
  split_ifs
  · exact nofun
  · intro h
    have hmap := hfree.all (Option.some.inj h)
    have hkey := getElem?_within (unitHashes hs s) (environmentKey id) (environmentKey id)
    rw [hmap, getElem?_singleton, if_pos rfl, if_pos (.inl rfl)] at hkey
    obtain ⟨a, v, -, -, hv⟩ := (unitHashes_eq_some hs hids hlabels).1 hkey.symm
    exact hfree.declined v hv

include hfree

theorem offer_again_compared {a : Address} (ha : a.Compared d) :
    (scopeOutcome hs (againDiff hs d approval new p requests) a.text).offer =
      (scopeOutcome hs d a.text).offer.again (a.text ∈ approval.overwriteScope) (a.text ∈ approval.deleteScope)
        (KnownAt hs d a.text) := by
  have ha' : a.Compared (againDiff hs d approval new p requests) := by
    match a with
    | .own _ => trivial
    | .environment id _ => exact fun h => ha ((oneSided_again hd).1 h).1
    | .folder id _ => exact fun h => ha ((loneFolder_again hnew).1 h).1
  have hcurrent : unitHash hs (storedAfter hs d approval new) a =
      if TakenUnit hs d approval a then unitHash hs d.fresh a else unitHash hs d.current a := by
    unfold unitHash
    rw [lookup_storedAfter hd hin hnew ha]
    split_ifs <;> rfl
  rw [offer_unit (againDiff_distinct hd hin hnew) ha', offer_unit hd ha, Offer.again_congr (knownAt_unit hd ha)]
  unfold againDiff
  simp only [Option.map_some]
  rw [next_unit hd ha, hcurrent]
  exact offer_again _ approval a.text (unitHash_ne_declined hfree _ _) (unitHash_ne_declined hfree _ _)

theorem offer_again_whole {id : Uuid} (hid : OneSided d id) :
    (scopeOutcome hs (againDiff hs d approval new p requests) (environmentKey id)).offer =
      (scopeOutcome hs d (environmentKey id)).offer.again (environmentKey id ∈ approval.overwriteScope)
        (environmentKey id ∈ approval.deleteScope) (KnownAt hs d (environmentKey id)) := by
  have hagain := offer_again (d.generated.map fun g => wholeAt hs g (environmentKey id)) approval (environmentKey id)
    (wholeHash_ne_declined hfree hd.currentIds hd.currentLabels id)
    (wholeHash_ne_declined hfree hd.freshIds hd.freshLabels id)
  rw [offer_whole hd hid, Offer.again_congr (knownAt_whole hd hid), ← hagain]
  by_cases htaken : TakenWhole hs d approval id
  · have hnot : ¬ OneSided (againDiff hs d approval new p requests) id := fun h => ((oneSided_again hd).1 h).2 htaken
    have hlookup := lookup_storedAfter_whole hd hin hnew hid none
    rw [if_pos htaken] at hlookup
    have hnothing := offer_of_fresh hd hin hnew (a := .environment id none) hnot hlookup
    rw [show environmentKey id = (Address.environment id none).text from rfl, hnothing, if_pos]
    · exact (if_pos rfl).symm
    · exact htaken
  · have hid' : OneSided (againDiff hs d approval new p requests) id := (oneSided_again hd).2 ⟨hid, htaken⟩
    rw [offer_whole (againDiff_distinct hd hin hnew) hid', if_neg]
    · unfold againDiff
      simp only [Option.map_some]
      rw [next_whole hd hid, wholeHash_storedAfter hd hnew hid htaken]
    · exact htaken

/-- What is offered again of a unit, for every unit of either side. -/
theorem offer_againDiff (a : Address) :
    (scopeOutcome hs (againDiff hs d approval new p requests) a.text).offer =
      (scopeOutcome hs d a.text).offer.again (a.text ∈ approval.overwriteScope) (a.text ∈ approval.deleteScope)
        (KnownAt hs d a.text) := by
  have hnothing : Skips hs d a.text → (scopeOutcome hs (againDiff hs d approval new p requests) a.text).offer = .nothing →
      (scopeOutcome hs (againDiff hs d approval new p requests) a.text).offer =
        (scopeOutcome hs d a.text).offer.again (a.text ∈ approval.overwriteScope) (a.text ∈ approval.deleteScope)
          (KnownAt hs d a.text) := by
    intro hskip hagain
    rw [hagain, offer_of_skips hskip]
    rfl
  match a with
  | .own u => exact offer_again_compared hfree hd hin hnew (a := .own u) trivial
  | .environment id label =>
    by_cases hid : OneSided d id
    · match label with
      | none => exact offer_again_whole hfree hd hin hnew hid
      | some l =>
        refine hnothing ((skips_iff hd _).2 (.inl ⟨id, l, rfl, hid⟩)) ?_
        by_cases htaken : TakenWhole hs d approval id
        · have hlookup := lookup_storedAfter_whole hd hin hnew hid (some l)
          rw [if_pos htaken] at hlookup
          exact offer_of_fresh hd hin hnew (fun h => ((oneSided_again hd).1 h).2 htaken) hlookup
        · exact offer_of_skips ((skips_iff (againDiff_distinct hd hin hnew) _).2
            (.inl ⟨id, l, rfl, (oneSided_again hd).2 ⟨hid, htaken⟩⟩))
    · exact offer_again_compared hfree hd hin hnew (a := .environment id label) hid
  | .folder id u =>
    by_cases hid : LoneFolder d id
    · refine hnothing ((skips_iff hd _).2 (.inr ⟨id, u, rfl, hid⟩)) ?_
      by_cases hmem : id ∈ new.map (·.id)
      · have hlookup := lookup_storedAfter_lone hd hin hnew hid u
        rw [if_pos hmem] at hlookup
        exact offer_of_fresh hd hin hnew (fun h => ((loneFolder_again hnew).1 h).2 hmem) hlookup
      · exact offer_of_skips ((skips_iff (againDiff_distinct hd hin hnew) _).2
          (.inr ⟨id, u, rfl, (loneFolder_again hnew).2 ⟨hid, hmem⟩⟩))
    · exact offer_again_compared hfree hd hin hnew (a := .folder id u) hid

omit hfree hin hnew in
theorem mem_diffKeys_of_offered {a : Address} (h : (scopeOutcome hs d a.text).offer ≠ .nothing) :
    a.text ∈ diffKeys hs d := by
  by_cases ha : a.Compared d
  · exact mem_diffKeys_of_offer hd ha h
  · match a with
    | .own _ => exact absurd trivial ha
    | .environment id none => exact environmentKey_mem_diffKeys hd (not_not.1 ha)
    | .environment id (some l) =>
      exact absurd (offer_of_skips ((skips_iff hd _).2 (.inl ⟨id, l, rfl, not_not.1 ha⟩))) h
    | .folder id u => exact absurd (offer_of_skips ((skips_iff hd _).2 (.inr ⟨id, u, rfl, not_not.1 ha⟩))) h

/-- **The same source again, right after a reimport**: no safe update of scoped configuration, the declined conflicts,
and the declined removals of which an earlier hash was known. -/
theorem scope_again :
    (diffScope hs (againDiff hs d approval new p requests)).updated = [] ∧
    (∀ k, k ∈ (diffScope hs (againDiff hs d approval new p requests)).conflicts.map (·.key) ↔
      k ∈ (diffScope hs d).conflicts.map (·.key) ∧ k ∉ approval.overwriteScope) ∧
    ∀ k, k ∈ (diffScope hs (againDiff hs d approval new p requests)).removed.map (·.key) ↔
      k ∈ (diffScope hs d).removed.map (·.key) ∧ k ∉ approval.deleteScope ∧ KnownAt hs d k := by
  have hd' : (againDiff hs d approval new p requests).Distinct := againDiff_distinct hd hin hnew
  have hoffer : ∀ a : Address, (scopeOutcome hs (againDiff hs d approval new p requests) a.text).offer = _ :=
    offer_againDiff hfree hd hin hnew
  refine ⟨?_, ?_, ?_⟩
  · rw [← List.map_eq_nil_iff (f := ScopeChange.key), List.eq_nil_iff_forall_not_mem]
    intro k hk
    obtain ⟨hmem, hupdated⟩ := mem_updated.1 hk
    obtain ⟨a, rfl⟩ := exists_address hmem
    rw [hoffer a] at hupdated
    unfold Offer.again at hupdated
    split at hupdated <;> first | cases hupdated | split_ifs at hupdated
  · intro k
    rw [mem_conflict_keys, mem_conflict_keys]
    constructor
    · rintro ⟨hmem, hconflict⟩
      obtain ⟨a, rfl⟩ := exists_address hmem
      rw [hoffer a] at hconflict
      cases ho : (scopeOutcome hs d a.text).offer with
      | conflict =>
        rw [ho] at hconflict
        refine ⟨⟨mem_diffKeys_of_offered hd (by simp [ho]), rfl⟩, fun happ => ?_⟩
        simp only [Offer.again, if_pos happ] at hconflict
        cases hconflict
      | removed =>
        rw [ho] at hconflict
        simp only [Offer.again] at hconflict
        split_ifs at hconflict
      | _ =>
        rw [ho] at hconflict
        cases hconflict
    · rintro ⟨⟨hmem, hconflict⟩, happ⟩
      obtain ⟨a, rfl⟩ := exists_address hmem
      have hagain : (scopeOutcome hs (againDiff hs d approval new p requests) a.text).offer = .conflict := by
        rw [hoffer a, hconflict]
        exact if_neg happ
      exact ⟨mem_diffKeys_of_offered hd' (by simp [hagain]), hagain⟩
  · intro k
    rw [mem_removed_keys, mem_removed_keys]
    constructor
    · rintro ⟨hmem, hremoved⟩
      obtain ⟨a, rfl⟩ := exists_address hmem
      rw [hoffer a] at hremoved
      cases ho : (scopeOutcome hs d a.text).offer with
      | removed =>
        rw [ho] at hremoved
        simp only [Offer.again] at hremoved
        split_ifs at hremoved with happ hknown
        exact ⟨⟨mem_diffKeys_of_offered hd (by simp [ho]), rfl⟩, happ, hknown⟩
      | conflict =>
        rw [ho] at hremoved
        simp only [Offer.again] at hremoved
        split_ifs at hremoved
      | _ =>
        rw [ho] at hremoved
        cases hremoved
    · rintro ⟨⟨hmem, hremoved⟩, happ, hknown⟩
      obtain ⟨a, rfl⟩ := exists_address hmem
      have hagain : (scopeOutcome hs (againDiff hs d approval new p requests) a.text).offer = .removed := by
        rw [hoffer a, hremoved]
        simp only [Offer.again, if_neg happ, if_pos hknown]
      exact ⟨mem_diffKeys_of_offered hd' (by simp [hagain]), hagain⟩

end Scope

/-! ## Requests -/

section Requests
variable [DecidableEq J] {hs : Hashing J H W} (hfree : hs.CollisionFree) {d : ScopeDiff J H} (hd : d.Distinct)
  {previous fresh : List (RequestDefinition J H)} {approval : ReimportApproval}
  (hids : (previous.map (·.id)).Nodup)
  (hops : (previous.filterMap fun q => q.spec.source.map (·.operationKey)).Nodup)
  (hfresh : (fresh.map freshKey).Nodup) (hbuilt : Built hs fresh)

/-- The hashes that a reimport of the source leaves. -/
abbrev nextHashes (hs : Hashing J H W) (d : ScopeDiff J H) (previous fresh : List (RequestDefinition J H))
    (approval : ReimportApproval) : Hashes H :=
  nextGeneratedScope hs (reimportDiff hs d.generated previous fresh) (diffScope hs d) d.fresh fresh d.generated approval

/-- A part that changed in the source, that the user edited and whose request is not approved for overwriting. -/
def DeclinedPart (hs : Hashing J H W) (generated : Option (Hashes H)) (approval : ReimportApproval)
    (q f : RequestDefinition J H) (src : ImportSource H) (part : Part) : Prop :=
  partOf q part ≠ partOf f part ∧ ¬ AsGenerated hs generated f src part ∧ ¬ AsGenerated hs generated q src part ∧
    q.id ∉ approval.overwrite

omit [DecidableEq H] [DecidableEq W] [DecidableEq J] in
/-- Two previous requests of one operation are the same. -/
theorem eq_of_operation (hops : (previous.filterMap fun q => q.spec.source.map (·.operationKey)).Nodup)
    {q q' : RequestDefinition J H} (hq : q ∈ previous) (hq' : q' ∈ previous) {src src' : ImportSource H}
    (hsrc : q.spec.source = some src) (hsrc' : q'.spec.source = some src') (hop : src.operationKey = src'.operationKey) :
    q = q' := by
  induction previous with
  | nil => cases hq
  | cons x l ih =>
    rw [List.filterMap_cons] at hops
    have hmem : ∀ {y : RequestDefinition J H} {s : ImportSource H}, y ∈ l → y.spec.source = some s →
        s.operationKey ∈ l.filterMap fun q => q.spec.source.map (·.operationKey) := by
      intro y s hy hs
      exact List.mem_filterMap.2 ⟨y, hy, by rw [hs]; rfl⟩
    rcases List.mem_cons.1 hq with rfl | hl <;> rcases List.mem_cons.1 hq' with rfl | hl'
    · rfl
    · rw [hsrc] at hops
      have h := hmem hl' hsrc'
      rw [← hop] at h
      exact absurd h (List.nodup_cons.1 hops).1
    · rw [hsrc'] at hops
      have h := hmem hl hsrc
      rw [hop] at h
      exact absurd h (List.nodup_cons.1 hops).1
    · apply ih _ hl hl'
      split at hops
      · exact hops
      · exact (List.nodup_cons.1 hops).2

omit [DecidableEq W] in
theorem outcome_conflict {generated : Option (Hashes H)} {q : RequestDefinition J H} {c : ReimportChange J H}
    (h : outcome hs generated fresh q = .conflict c) :
    ∃ src f fsrc, q.spec.source = some src ∧ findFresh fresh src.operationKey = some (f, fsrc) ∧
      compareParts hs generated q f src fsrc = .conflict c := by
  unfold outcome at h
  split at h
  · cases h
  · rename_i src hsrc
    split at h
    · cases h
    · rename_i f fsrc hfind
      exact ⟨src, f, fsrc, hsrc, hfind, h⟩

omit [DecidableEq W] in
theorem outcome_removed {generated : Option (Hashes H)} {q : RequestDefinition J H} {r : ReimportRemoval}
    (h : outcome hs generated fresh q = .removed r) :
    ∃ src, q.spec.source = some src ∧ findFresh fresh src.operationKey = none ∧ r.existingId = q.id ∧
      r.operationKey = src.operationKey := by
  unfold outcome at h
  split at h
  · cases h
  · rename_i src hsrc
    split at h
    · rename_i hfind
      cases h
      exact ⟨src, hsrc, hfind, rfl, rfl⟩
    · rename_i f fsrc hfind
      unfold compareParts at h
      simp only at h
      split_ifs at h

omit [DecidableEq W] in
theorem mem_plan_conflicts {generated : Option (Hashes H)} {c : ReimportChange J H} :
    c ∈ (reimportDiff hs generated previous fresh).conflicts ↔
      ∃ q ∈ previous, outcome hs generated fresh q = .conflict c := by
  unfold reimportDiff
  simp only [List.mem_filterMap, List.mem_map]
  constructor
  · rintro ⟨o, ⟨q, hq, rfl⟩, hc⟩
    split at hc
    · rename_i c' hout
      cases hc
      exact ⟨q, hq, hout⟩
    · cases hc
  · rintro ⟨q, hq, hout⟩
    exact ⟨_, ⟨q, hq, rfl⟩, by rw [hout]⟩

omit [DecidableEq W] in
theorem mem_plan_removed {generated : Option (Hashes H)} {r : ReimportRemoval} :
    r ∈ (reimportDiff hs generated previous fresh).removed ↔
      ∃ q ∈ previous, outcome hs generated fresh q = .removed r := by
  unfold reimportDiff
  simp only [List.mem_filterMap, List.mem_map]
  constructor
  · rintro ⟨o, ⟨q, hq, rfl⟩, hr⟩
    split at hr
    · rename_i r' hout
      cases hr
      exact ⟨q, hq, hout⟩
    · cases hr
  · rintro ⟨q, hq, hout⟩
    exact ⟨_, ⟨q, hq, rfl⟩, by rw [hout]⟩

omit [DecidableEq W] in
theorem mem_plan_updated {generated : Option (Hashes H)} {c : ReimportChange J H} :
    c ∈ (reimportDiff hs generated previous fresh).updated ↔
      ∃ q ∈ previous, outcome hs generated fresh q = .updated c := by
  unfold reimportDiff
  simp only [List.mem_filterMap, List.mem_map]
  constructor
  · rintro ⟨o, ⟨q, hq, rfl⟩, hc⟩
    split at hc
    · rename_i c' hout
      cases hc
      exact ⟨q, hq, hout⟩
    · cases hc
  · rintro ⟨q, hq, hout⟩
    exact ⟨_, ⟨q, hq, rfl⟩, by rw [hout]⟩

section Matched
variable {q f : RequestDefinition J H} (hq : q ∈ previous) {src fsrc : ImportSource H}
  (hsrc : q.spec.source = some src) (hfind : findFresh fresh src.operationKey = some (f, fsrc))
include hops hbuilt hq hsrc hfind

omit [DecidableEq W] hops hq in
theorem outcome_matched (generated : Option (Hashes H)) :
    outcome hs generated fresh q = compareParts hs generated q f src fsrc ∧
      fsrc.generatedHash = hs.spec f.spec.content := by
  obtain ⟨hmem, hlink, -⟩ := findFresh_some hfind
  refine ⟨?_, hbuilt.hash hmem hlink⟩
  unfold outcome
  rw [hsrc]
  simp only [hfind]

omit [DecidableEq W] hops hq in
/-- A request is a conflict with the parts that changed in the source and that the user edited. -/
theorem outcome_conflict_iff {generated : Option (Hashes H)} :
    (∃ part, partOf q part ≠ partOf f part ∧ ¬ AsGenerated hs generated f src part ∧
      ¬ AsGenerated hs generated q src part) ↔
      ∃ c, outcome hs generated fresh q = .conflict c ∧ ChangeOf hs generated q f src c ∧ c.conflictingFields ≠ [] := by
  obtain ⟨hout, hlink⟩ := outcome_matched hbuilt hsrc hfind generated
  have hspec := compareParts_spec generated q src hlink
  rw [hout]
  constructor
  · rintro ⟨part, hdiff, hup, hedit⟩
    cases hcp : compareParts hs generated q f src fsrc with
    | conflict c =>
      rw [hcp] at hspec
      exact ⟨c, rfl, hspec⟩
    | updated c =>
      rw [hcp] at hspec
      have hmem : part ∈ c.conflictingFields :=
        (hspec.1.conflicting part).2 ⟨(hspec.1.upstream part).2 ⟨hdiff, hup⟩, hedit⟩
      rw [hspec.2] at hmem
      cases hmem
    | preserved _ =>
      rw [hcp] at hspec
      exact absurd (hspec part hdiff) hup
    | unchanged _ =>
      rw [hcp] at hspec
      exact absurd (hspec part hdiff) hup
    | unlinked _ =>
      rw [hcp] at hspec
      exact hspec.elim
    | removed _ =>
      rw [hcp] at hspec
      exact hspec.elim
  · rintro ⟨c, -, hc, hne⟩
    obtain ⟨part, hpart⟩ := List.exists_mem_of_ne_nil _ hne
    obtain ⟨hup, hedit⟩ := (hc.conflicting part).1 hpart
    obtain ⟨hdiff, hgen⟩ := (hc.upstream part).1 hup
    exact ⟨part, hdiff, hgen, hedit⟩

omit [DecidableEq W] in
/-- The details that are kept as they were: those of declined parts. -/
theorem mem_earlierDetails {generated : Option (Hashes H)} {part : Part} {removal : Bool} :
    (src.operationKey, part, removal) ∈ earlierDetails (reimportDiff hs generated previous fresh) approval ↔
      removal = false ∧ part ∈ details ∧ DeclinedPart hs generated approval q f src part := by
  have hno : ∀ (l : List Uuid) (id : Uuid), (!l.contains id) = true ↔ id ∉ l := by
    intro l id
    simp
  unfold earlierDetails
  simp only [List.mem_append, List.mem_flatMap, List.mem_filter, List.mem_map, hno]
  constructor
  · rintro (⟨c, ⟨hc, hid⟩, part', ⟨hpart, hkeeps⟩, heq⟩ | ⟨r, ⟨hr, -⟩, part', -, heq⟩)
    · simp only [Prod.mk.injEq] at heq
      obtain ⟨hop, rfl, rfl⟩ := heq
      obtain ⟨q', hq', hout⟩ := mem_plan_conflicts.1 hc
      obtain ⟨src', f', fsrc', hsrc', hfind', hcp⟩ := outcome_conflict hout
      obtain ⟨-, hlink'⟩ := outcome_matched hbuilt hsrc' hfind' generated
      have hspec := compareParts_spec generated q' src' hlink'
      rw [hcp] at hspec
      obtain ⟨hchange, hne⟩ := hspec
      obtain rfl := eq_of_operation hops hq' hq hsrc' hsrc (hchange.key.symm.trans hop)
      rw [hsrc] at hsrc'
      cases hsrc'
      rw [hfind] at hfind'
      cases hfind'
      unfold ReimportChange.keeps at hkeeps
      rw [List.isEmpty_eq_false_iff.2 hne, Bool.false_or, List.contains_iff_mem] at hkeeps
      obtain ⟨hup, hedit⟩ := (hchange.conflicting part').1 hkeeps
      obtain ⟨hdiff, hgen⟩ := (hchange.upstream part').1 hup
      exact ⟨rfl, hpart, hdiff, hgen, hedit, hchange.id ▸ hid⟩
    · obtain ⟨q', hq', hout⟩ := mem_plan_removed.1 hr
      obtain ⟨src', hsrc', hnone, -, hkey⟩ := outcome_removed hout
      have hop : src'.operationKey = src.operationKey := hkey.symm.trans (congrArg Prod.fst heq)
      rw [hop, hfind] at hnone
      cases hnone
  · rintro ⟨rfl, hpart, hdiff, hgen, hedit, hid⟩
    obtain ⟨c, hout, hchange, hne⟩ := (outcome_conflict_iff hbuilt hsrc hfind).1 ⟨part, hdiff, hgen, hedit⟩
    refine .inl ⟨c, ⟨mem_plan_conflicts.2 ⟨q, hq, hout⟩, hchange.id.symm ▸ hid⟩, part, ⟨hpart, ?_⟩, ?_⟩
    · unfold ReimportChange.keeps
      rw [List.isEmpty_eq_false_iff.2 hne, Bool.false_or, List.contains_iff_mem]
      exact (hchange.conflicting part).2 ⟨(hchange.upstream part).2 ⟨hdiff, hgen⟩, hedit⟩
    · rw [hchange.key]

omit [DecidableEq W] [DecidableEq J] [DecidableEq H] hops hbuilt hq hsrc hfind in
theorem asGenerated_detail (generated : Option (Hashes H)) (x : RequestDefinition J H) {part : Part}
    (hpart : part ∈ details) :
    AsGenerated hs generated x src part ↔ generatedAt generated src.operationKey part = some (hs.unit (detail x part)) := by
  cases part with
  | spec => simp [details] at hpart
  | _ => rfl

omit [DecidableEq W] [DecidableEq J] [DecidableEq H] hops hbuilt hq hsrc hfind in
theorem detail_eq {x y : RequestDefinition J H} {part : Part} (hpart : part ∈ details)
    (h : partOf x part = partOf y part) : detail x part = detail y part := by
  cases part with
  | spec => simp [details] at hpart
  | _ => exact Sum.inr.inj h

include hd hfresh

/-- The hash that is left for a detail: what was there of a declined part, and else that of the source. -/
theorem generatedAt_next {part : Part} (hpart : part ∈ details) :
    (DeclinedPart hs d.generated approval q f src part →
      generatedAt (some (nextHashes hs d previous fresh approval)) src.operationKey part =
        (generatedAt d.generated src.operationKey part).or (some hs.declined)) ∧
    (¬ DeclinedPart hs d.generated approval q f src part →
      generatedAt (some (nextHashes hs d previous fresh approval)) src.operationKey part =
        some (hs.unit (detail f part))) := by
  have hmem : ∀ removal,
      (src.operationKey, part, removal) ∈ earlierDetails (reimportDiff hs d.generated previous fresh) approval ↔
        removal = false ∧ part ∈ details ∧ DeclinedPart hs d.generated approval q f src part :=
    fun _ => mem_earlierDetails hops hbuilt hq hsrc hfind
  obtain ⟨hf, hlink, hkey⟩ := findFresh_some hfind
  constructor
  · intro hdec
    exact next_detail_kept hd ((hmem false).2 ⟨rfl, hpart, hdec⟩) fun x hx => ((hmem x).1 hx).1
  · intro hdec
    have hfreshKey : freshKey f = src.operationKey := by
      unfold freshKey
      rw [hlink]
      exact hkey
    have hunit := requestUnitHashes_detail hbuilt hfresh hf hpart
    rw [hfreshKey] at hunit
    exact (next_detail_fresh hd fun removal hx => hdec ((hmem removal).1 hx).2.2).trans hunit

omit hfresh hd hops hq hbuilt [DecidableEq H] [DecidableEq J] [DecidableEq W] in
/-- The link of what is left of a matched request. -/
theorem link_merged {r : RequestDefinition J H} (hr : r.spec = f.spec ∨ r.spec = q.spec) :
    ∃ src', r.spec.source = some src' ∧ src'.operationKey = src.operationKey ∧ (r.spec = q.spec → src' = src) := by
  obtain ⟨-, hlink, hkey⟩ := findFresh_some hfind
  by_cases h : r.spec = q.spec
  · exact ⟨src, by rw [h, hsrc], rfl, fun _ => rfl⟩
  · rw [← hr.resolve_right h] at hlink
    exact ⟨fsrc, hlink, hkey, fun h' => absurd h' h⟩

section Part
variable {r : RequestDefinition J H} (hmerged : Merged hs d.generated approval q f src r) {part : Part}
include hmerged

omit hfresh hd hops hq hbuilt hsrc hfind [DecidableEq J] [DecidableEq W] in
theorem partOf_declined (hdec : DeclinedPart hs d.generated approval q f src part) : partOf r part = partOf q part := by
  obtain ⟨-, -, hedit, hid⟩ := hdec
  rw [hmerged part, if_neg]
  rintro ⟨-, h | h⟩
  · exact hedit h
  · exact hid h

omit hfresh hd hops hq hbuilt hsrc hfind [DecidableEq J] [DecidableEq W] in
theorem declined_of_differs (hne : partOf r part ≠ partOf f part) (hgen : ¬ AsGenerated hs d.generated f src part) :
    DeclinedPart hs d.generated approval q f src part := by
  rw [hmerged part] at hne
  split_ifs at hne with h
  · exact absurd rfl hne
  · exact ⟨hne, hgen, fun hq => h ⟨hgen, .inl hq⟩, fun hid => h ⟨hgen, .inr hid⟩⟩

include hfree in
/-- What was left differs from the source and from its hash in the declined parts alone, and was edited there. -/
theorem again_part (hspec : r.spec = f.spec ∨ r.spec = q.spec) {src' : ImportSource H}
    (hop : src'.operationKey = src.operationKey) (hsame : r.spec = q.spec → src' = src) :
    (partOf r part ≠ partOf f part ∧ ¬ AsGenerated hs (some (nextHashes hs d previous fresh approval)) f src' part ↔
      DeclinedPart hs d.generated approval q f src part) ∧
    (DeclinedPart hs d.generated approval q f src part →
      ¬ AsGenerated hs (some (nextHashes hs d previous fresh approval)) r src' part) := by
  by_cases hdetail : part ∈ details
  · obtain ⟨hkept, hnew⟩ := generatedAt_next hd hops hfresh hbuilt hq hsrc hfind hdetail
    have hedited : ∀ x : RequestDefinition J H, DeclinedPart hs d.generated approval q f src part →
        ¬ AsGenerated hs d.generated x src part →
        ¬ AsGenerated hs (some (nextHashes hs d previous fresh approval)) x src' part := by
      intro x hdec hx
      rw [asGenerated_detail _ _ hdetail] at hx ⊢
      rw [hop, hkept hdec]
      cases hg : generatedAt d.generated src.operationKey part with
      | none => exact fun h => hfree.declined _ (Option.some.inj h).symm
      | some h => rwa [hg] at hx
    constructor
    · constructor
      · rintro ⟨-, hgen⟩
        by_contra hdec
        rw [asGenerated_detail _ _ hdetail, hop] at hgen
        exact hgen (hnew hdec)
      · intro hdec
        rw [partOf_declined hmerged hdec]
        exact ⟨hdec.1, hedited f hdec hdec.2.1⟩
    · intro hdec
      rw [asGenerated_detail _ _ hdetail, detail_eq hdetail (partOf_declined hmerged hdec), ← asGenerated_detail _ _ hdetail]
      exact hedited q hdec hdec.2.2.1
  · obtain rfl : part = .spec := by
      cases part with
      | spec => rfl
      | _ => simp [details] at hdetail
    have hkept : partOf r .spec ≠ partOf f .spec → src' = src := by
      intro hne
      exact hsame (hspec.resolve_left fun h => hne (by unfold partOf; rw [h]))
    constructor
    · constructor
      · rintro ⟨hne, hgen⟩
        rw [hkept hne] at hgen
        exact declined_of_differs hmerged hne hgen
      · intro hdec
        have hne : partOf r .spec ≠ partOf f .spec := by
          rw [partOf_declined hmerged hdec]
          exact hdec.1
        refine ⟨hne, ?_⟩
        rw [hkept hne]
        exact hdec.2.1
    · intro hdec
      have heq := partOf_declined hmerged hdec
      unfold AsGenerated
      rw [heq, hkept (heq ▸ hdec.1)]
      exact hdec.2.2.1

end Part

end Matched

/-- A part of a previous request that the plan names as conflicting. -/
def RequestPlan.ConflictAt (p : RequestPlan J H) (id : Uuid) (part : Part) : Prop :=
  ∃ c ∈ p.conflicts, c.existingId = id ∧ part ∈ c.conflictingFields

/-- A part that changed in the source and that the user edited. -/
def ConflictPart (hs : Hashing J H W) (generated : Option (Hashes H)) (fresh : List (RequestDefinition J H))
    (q : RequestDefinition J H) (part : Part) : Prop :=
  ∃ src f fsrc, q.spec.source = some src ∧ findFresh fresh src.operationKey = some (f, fsrc) ∧
    partOf q part ≠ partOf f part ∧ ¬ AsGenerated hs generated f src part ∧ ¬ AsGenerated hs generated q src part

omit [DecidableEq W] in
include hbuilt in
theorem conflictAt_iff {generated : Option (Hashes H)} {id : Uuid} {part : Part} :
    (reimportDiff hs generated previous fresh).ConflictAt id part ↔
      ∃ q ∈ previous, q.id = id ∧ ConflictPart hs generated fresh q part := by
  unfold RequestPlan.ConflictAt
  simp only [mem_plan_conflicts]
  constructor
  · rintro ⟨c, ⟨q, hq, hout⟩, rfl, hpart⟩
    obtain ⟨src, f, fsrc, hsrc, hfind, hcp⟩ := outcome_conflict hout
    obtain ⟨-, hlink⟩ := outcome_matched hbuilt hsrc hfind generated
    have hspec := compareParts_spec generated q src hlink
    rw [hcp] at hspec
    obtain ⟨hup, hedit⟩ := (hspec.1.conflicting part).1 hpart
    obtain ⟨hdiff, hgen⟩ := (hspec.1.upstream part).1 hup
    exact ⟨q, hq, hspec.1.id.symm, src, f, fsrc, hsrc, hfind, hdiff, hgen, hedit⟩
  · rintro ⟨q, hq, rfl, src, f, fsrc, hsrc, hfind, hdiff, hgen, hedit⟩
    obtain ⟨c, hout, hchange, -⟩ := (outcome_conflict_iff hbuilt hsrc hfind).1 ⟨part, hdiff, hgen, hedit⟩
    exact ⟨c, ⟨q, hq, hout⟩, hchange.id, (hchange.conflicting part).2 ⟨(hchange.upstream part).2 ⟨hdiff, hgen⟩, hedit⟩⟩

omit [DecidableEq W] in
include hbuilt in
/-- A safe update writes a part that changed in the source and that the user did not edit. -/
theorem outcome_updated {generated : Option (Hashes H)} {q : RequestDefinition J H} {c : ReimportChange J H}
    (h : outcome hs generated fresh q = .updated c) :
    ∃ src f fsrc part, q.spec.source = some src ∧ findFresh fresh src.operationKey = some (f, fsrc) ∧
      partOf q part ≠ partOf f part ∧ ¬ AsGenerated hs generated f src part ∧ AsGenerated hs generated q src part := by
  unfold outcome at h
  split at h
  · cases h
  · rename_i src hsrc
    split at h
    · cases h
    · rename_i f fsrc hfind
      obtain ⟨-, hlink⟩ := outcome_matched hbuilt hsrc hfind generated
      have hspec := compareParts_spec generated q src hlink
      rw [h] at hspec
      have hne : c.upstreamFields ≠ [] := by
        unfold compareParts at h
        simp only at h
        split_ifs at h with hempty
        cases h
        simpa using hempty
      obtain ⟨part, hup⟩ := List.exists_mem_of_ne_nil _ hne
      obtain ⟨hdiff, hgen⟩ := (hspec.1.upstream part).1 hup
      refine ⟨src, f, fsrc, part, hsrc, hfind, hdiff, hgen, ?_⟩
      by_contra hedit
      have hmem := (hspec.1.conflicting part).2 ⟨hup, hedit⟩
      rw [hspec.2] at hmem
      cases hmem

section Apply
include hids hfresh hbuilt

omit [DecidableEq W] in
/-- What a plan leaves: requests without a link, requests whose operation is gone and that are kept, merged ones and
added ones. -/
theorem apply_cases {generated : Option (Hashes H)} {x : RequestDefinition J H}
    (hx : x ∈ (reimportDiff hs generated previous fresh).apply previous approval) :
    x ∈ previous ∧ x.spec.source = none ∨
    (x ∈ previous ∧ ∃ src, x.spec.source = some src ∧ findFresh fresh src.operationKey = none ∧ x.id ∉ approval.delete) ∨
    (∃ q ∈ previous, ∃ src f fsrc, q.spec.source = some src ∧ findFresh fresh src.operationKey = some (f, fsrc) ∧
      x.id = q.id ∧ Merged hs generated approval q f src x ∧ (x.spec = f.spec ∨ x.spec = q.spec)) ∨
    ∃ a fsrc, findFresh fresh fsrc.operationKey = some (a, fsrc) ∧ x.spec.source = some fsrc ∧
      partOf x = partOf a := by
  unfold RequestPlan.apply at hx
  rcases List.mem_append.1 hx with hx | hx
  · obtain ⟨q, hq, hone⟩ := List.mem_filterMap.1 hx
    cases hsrc : q.spec.source with
    | none =>
      rw [applyOne_unlinked hids hq approval hsrc] at hone
      cases hone
      exact .inl ⟨hq, hsrc⟩
    | some src =>
      cases hfind : findFresh fresh src.operationKey with
      | none =>
        rw [applyOne_removed hids hq approval hsrc hfind] at hone
        split_ifs at hone with hdel
        cases hone
        exact .inr (.inl ⟨hq, src, hsrc, hfind, hdel⟩)
      | some p =>
        obtain ⟨hmem, hlink, -⟩ := findFresh_some hfind
        obtain ⟨r, hr, hmerged, hspec⟩ := applyOne_matched hids hq approval hsrc hfind (hbuilt.hash hmem hlink)
        have hid := (applyOne_keeps hr).1
        rw [hr] at hone
        cases hone
        exact .inr (.inr (.inl ⟨q, hq, src, p.1, p.2, hsrc, hfind, hid, hmerged, hspec⟩))
  · obtain ⟨a, ha, rfl⟩ := List.mem_map.1 hx
    have hmem : a ∈ fresh := (List.mem_filter.1 ha).1
    obtain ⟨fsrc, hlink, -⟩ := hbuilt a hmem
    refine .inr (.inr (.inr ⟨a, fsrc, findFresh_of_mem hfresh hmem hlink, ?_, ?_⟩))
    · split <;> exact hlink
    · funext part
      split <;> cases part <;> rfl

omit [DecidableEq W] hids hfresh hbuilt in
theorem outcome_removed_iff {generated : Option (Hashes H)} {q : RequestDefinition J H} :
    (∃ r, outcome hs generated fresh q = .removed r) ↔
      ∃ src, q.spec.source = some src ∧ findFresh fresh src.operationKey = none := by
  constructor
  · rintro ⟨r, hr⟩
    obtain ⟨src, hsrc, hnone, -⟩ := outcome_removed hr
    exact ⟨src, hsrc, hnone⟩
  · rintro ⟨src, hsrc, hnone⟩
    unfold outcome
    rw [hsrc]
    simp only [hnone]
    exact ⟨_, rfl⟩

omit [DecidableEq W] hids hfresh hbuilt in
theorem mem_plan_removed_ids {generated : Option (Hashes H)} {id : Uuid} :
    id ∈ (reimportDiff hs generated previous fresh).removed.map (·.existingId) ↔
      ∃ q ∈ previous, q.id = id ∧ ∃ src, q.spec.source = some src ∧ findFresh fresh src.operationKey = none := by
  rw [List.mem_map]
  simp only [mem_plan_removed]
  constructor
  · rintro ⟨r, ⟨q, hq, hout⟩, rfl⟩
    have hid := outcome_id hs generated fresh q
    rw [hout] at hid
    exact ⟨q, hq, hid.symm, outcome_removed_iff.1 ⟨r, hout⟩⟩
  · rintro ⟨q, hq, rfl, hgone⟩
    obtain ⟨r, hout⟩ : ∃ r, outcome hs generated fresh q = .removed r := outcome_removed_iff.2 hgone
    have hid := outcome_id hs generated fresh q
    rw [hout] at hid
    exact ⟨r, ⟨q, hq, hout⟩, hid⟩

include hfree hd hops

/-- A request that was left differs in a part from the source and from its hash only where a conflict was declined. -/
theorem upstream_again {x : RequestDefinition J H}
    (hx : x ∈ (reimportDiff hs d.generated previous fresh).apply previous approval) {src f fsrc} {part : Part}
    (hsrc : x.spec.source = some src) (hfind : findFresh fresh src.operationKey = some (f, fsrc))
    (hne : partOf x part ≠ partOf f part)
    (hgen : ¬ AsGenerated hs (some (nextHashes hs d previous fresh approval)) f src part) :
    ¬ AsGenerated hs (some (nextHashes hs d previous fresh approval)) x src part ∧
      x.id ∉ approval.overwrite ∧ ∃ q ∈ previous, q.id = x.id ∧ ConflictPart hs d.generated fresh q part := by
  rcases apply_cases hids hfresh hbuilt hx with ⟨-, hnone⟩ | ⟨-, src₀, hsrc₀, hnone, -⟩ |
    ⟨q, hq, src₀, f₀, fsrc₀, hsrc₀, hfind₀, hid, hmerged, hspec⟩ | ⟨a, fsrc₀, hfind₀, hsrc₀, heq⟩
  · rw [hsrc] at hnone
    cases hnone
  · rw [hsrc] at hsrc₀
    cases hsrc₀
    rw [hfind] at hnone
    cases hnone
  · obtain ⟨src', hsrc', hop, hsame⟩ := link_merged hsrc₀ hfind₀ hspec
    rw [hsrc] at hsrc'
    cases hsrc'
    rw [hop, hfind₀] at hfind
    cases hfind
    obtain ⟨hiff, hedit⟩ := again_part hfree hd hops hfresh hbuilt hq hsrc₀ hfind₀ hmerged hspec hop hsame
    have hdec := hiff.1 ⟨hne, hgen⟩
    refine ⟨hedit hdec, hid ▸ hdec.2.2.2, q, hq, hid.symm, ?_⟩
    exact ⟨src₀, _, _, hsrc₀, hfind₀, hdec.1, hdec.2.1, hdec.2.2.1⟩
  · rw [hsrc] at hsrc₀
    cases hsrc₀
    rw [hfind] at hfind₀
    cases hfind₀
    exact absurd (congrFun heq part) hne

/-- **The same source again, right after a reimport**: no safe update of a request, the declined conflicts with their
parts, and the declined removals. -/
theorem requests_again :
    (reimportDiff hs (some (nextHashes hs d previous fresh approval))
      ((reimportDiff hs d.generated previous fresh).apply previous approval) fresh).updated = [] ∧
    (∀ id part, (reimportDiff hs (some (nextHashes hs d previous fresh approval))
        ((reimportDiff hs d.generated previous fresh).apply previous approval) fresh).ConflictAt id part ↔
      (reimportDiff hs d.generated previous fresh).ConflictAt id part ∧ id ∉ approval.overwrite) ∧
    ∀ id, id ∈ (reimportDiff hs (some (nextHashes hs d previous fresh approval))
        ((reimportDiff hs d.generated previous fresh).apply previous approval) fresh).removed.map (·.existingId) ↔
      id ∈ (reimportDiff hs d.generated previous fresh).removed.map (·.existingId) ∧ id ∉ approval.delete := by
  refine ⟨?_, ?_, ?_⟩
  · rw [List.eq_nil_iff_forall_not_mem]
    intro c hc
    obtain ⟨x, hx, hout⟩ := mem_plan_updated.1 hc
    obtain ⟨src, f, fsrc, part, hsrc, hfind, hne, hgen, hedit⟩ := outcome_updated hbuilt hout
    exact (upstream_again hfree hd hids hops hfresh hbuilt hx hsrc hfind hne hgen).1 hedit
  · intro id part
    rw [conflictAt_iff hbuilt, conflictAt_iff hbuilt]
    constructor
    · rintro ⟨x, hx, rfl, src, f, fsrc, hsrc, hfind, hne, hgen, -⟩
      obtain ⟨-, hid, hconflict⟩ := upstream_again hfree hd hids hops hfresh hbuilt hx hsrc hfind hne hgen
      exact ⟨hconflict, hid⟩
    · rintro ⟨⟨q, hq, rfl, src, f, fsrc, hsrc, hfind, hne, hgen, hedit⟩, hid⟩
      obtain ⟨hmem, hlink, -⟩ := findFresh_some hfind
      obtain ⟨r, hr, hmerged, hspec⟩ := applyOne_matched hids hq approval hsrc hfind (hbuilt.hash hmem hlink)
      obtain ⟨src', hsrc', hop, hsame⟩ := link_merged hsrc hfind hspec
      obtain ⟨hiff, hedit'⟩ := again_part hfree hd hops hfresh hbuilt hq hsrc hfind hmerged hspec hop hsame
      have hdec : DeclinedPart hs d.generated approval q f src part := ⟨hne, hgen, hedit, hid⟩
      refine ⟨r, List.mem_append_left _ (List.mem_filterMap.2 ⟨q, hq, hr⟩), (applyOne_keeps hr).1, src', f, fsrc, hsrc',
        by rw [hop, hfind], (hiff.2 hdec).1, (hiff.2 hdec).2, hedit' hdec⟩
  · intro id
    rw [mem_plan_removed_ids, mem_plan_removed_ids]
    constructor
    · rintro ⟨x, hx, rfl, src, hsrc, hnone⟩
      rcases apply_cases hids hfresh hbuilt hx with ⟨-, hno⟩ | ⟨hmem, src₀, hsrc₀, -, hdel⟩ |
        ⟨q, hq, src₀, f₀, fsrc₀, hsrc₀, hfind₀, hid, hmerged, hspec⟩ | ⟨a, fsrc₀, hfind₀, hsrc₀, heq⟩
      · rw [hsrc] at hno
        cases hno
      · exact ⟨⟨x, hmem, rfl, src, hsrc, hnone⟩, hdel⟩
      · obtain ⟨src', hsrc', hop, -⟩ := link_merged hsrc₀ hfind₀ hspec
        rw [hsrc] at hsrc'
        cases hsrc'
        rw [hop, hfind₀] at hnone
        cases hnone
      · rw [hsrc] at hsrc₀
        cases hsrc₀
        rw [hfind₀] at hnone
        cases hnone
    · rintro ⟨⟨q, hq, rfl, src, hsrc, hnone⟩, hdel⟩
      have hone : (reimportDiff hs d.generated previous fresh).applyOne approval q = some q := by
        rw [applyOne_removed hids hq approval hsrc hnone, if_neg hdel]
      exact ⟨q, List.mem_append_left _ (List.mem_filterMap.2 ⟨q, hq, hone⟩), rfl, src, hsrc, hnone⟩

end Apply

end Requests

end Model

end Anvil.Import
