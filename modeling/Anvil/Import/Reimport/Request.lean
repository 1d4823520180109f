import Anvil.Lib.Utf8
import Std.Data.ExtTreeMap

/-!
# Reimporting requests (`anvil-import/src/reimport.rs`)

A previous request is compared with the freshly imported one of the same operation, part by part: the spec against the
hash in its own link, the name, description and tags against a side map of hashes that may lack them. `reimportDiff`
sorts every previous request into one list of the plan, `apply` writes the parts that are taken.

JSON is a parameter, and so are the hashes of it. A request keeps the fields that the comparison and the application
read or write.

* `Outcome`, `outcome` : what the loop of `reimport_diff` does with one previous request;
* `Merged`, `applyOne_matched` : what `apply` leaves of one previous request;
* `reimport_merges` : the plan and its application as a three-way merge of every part.
-/

namespace Anvil.Import
open Anvil.Lib Std

abbrev Key := Text

structure Uuid where
  bits : BitVec 128
deriving DecidableEq

/-- A `BTreeMap<String, String>` from unit keys to hashes. -/
abbrev Hashes (H : Type) := ExtTreeMap Key H compare

/-- The JSON object of a spec without its link. -/
abbrev Content (J : Type) := ExtTreeMap Key J compare

/-- The value of a unit, as the type it is serialized from. -/
inductive UnitValue (J : Type) where
  | text (t : Text)
  | tags (l : List Text)
  | json (j : J)
  | variable (name : Text) (j : J)
deriving DecidableEq

/-- `spec_hash`, `unit_hash` (of a value, and of an object of hashes) and the mark of a declined conflict. -/
structure Hashing (J H W : Type) where
  spec : Content J → H
  unit : UnitValue J → H
  all : Hashes H → W
  declined : H

structure ImportSource (H : Type) where
  importId : Uuid
  operationKey : Text
  generatedHash : H

structure RequestSpec (J H : Type) where
  content : Content J
  source : Option (ImportSource H)

structure RequestDefinition (J H : Type) where
  id : Uuid
  updatedAt : Nat
  workspaceId : Uuid
  folderId : Option Uuid
  name : Text
  description : Text
  tags : List Text
  favorite : Bool
  /-- The bits of the ordering key. -/
  sortKey : UInt64
  spec : RequestSpec J H
  revisionId : Option Uuid

inductive Part where
  | spec
  | name
  | description
  | tags
deriving DecidableEq

def Part.text : Part → Text
  | .spec => "spec".toList
  | .name => "name".toList
  | .description => "description".toList
  | .tags => "tags".toList

/-- The fields of a request that are not part of its spec hash. -/
def details : List Part := [.name, .description, .tags]

def requestKey (operationKey : Text) (part : Part) : Key :=
  "requests/".toList ++ operationKey ++ '/' :: part.text

section Model
variable {J H W : Type}

def detail (q : RequestDefinition J H) : Part → UnitValue J
  | .name => .text q.name
  | .description => .text q.description
  | .spec | .tags => .tags q.tags

structure ReimportChange (J H : Type) where
  existingId : Uuid
  operationKey : Text
  userEdited : Bool
  changedFields : List Key
  upstreamFields : List Part
  conflictingFields : List Part
  fresh : RequestDefinition J H

structure ReimportRemoval where
  existingId : Uuid
  operationKey : Text
  userEdited : Bool

def ReimportChange.keeps (c : ReimportChange J H) (part : Part) : Bool :=
  c.conflictingFields.isEmpty || c.conflictingFields.contains part

/-- The request lists of a `ReimportPlan`. -/
structure RequestPlan (J H : Type) where
  added : List (RequestDefinition J H)
  updated : List (ReimportChange J H)
  conflicts : List (ReimportChange J H)
  preservedEdits : List Uuid
  unchanged : List Uuid
  removed : List ReimportRemoval
  unlinked : List Uuid

structure ReimportApproval where
  overwrite : List Uuid := []
  delete : List Uuid := []
  overwriteScope : List Key := []
  deleteScope : List Key := []

def changedFields [DecidableEq J] (a b : Content J) : List Key := (a ∪ b).keys.filter fun k => a[k]? ≠ b[k]?

/-- What the loop over the previous requests does with one of them. -/
inductive Outcome (J H : Type) where
  | unlinked (id : Uuid)
  | removed (r : ReimportRemoval)
  | preserved (id : Uuid)
  | unchanged (id : Uuid)
  | updated (c : ReimportChange J H)
  | conflict (c : ReimportChange J H)

/-- One part as (name, differs, changed upstream, edited by the user). -/
structure Judged where
  part : Part
  differs : Bool
  upstream : Bool
  edited : Bool

variable [DecidableEq J] [DecidableEq H] (hs : Hashing J H W) (generated : Option (Hashes H))

/-- The hash that the last import left for a part of a request. -/
def generatedAt (operationKey : Text) (part : Part) : Option H :=
  generated.bind fun g => g[requestKey operationKey part]?

def detailDiff (prev fresh : RequestDefinition J H) (src : ImportSource H) (part : Part) : Bool × Bool :=
  match generatedAt generated src.operationKey part with
  | none => (true, true)
  | some g => (g ≠ hs.unit (detail fresh part), g ≠ hs.unit (detail prev part))

def judgeDetail (prev f : RequestDefinition J H) (src : ImportSource H) (part : Part) : Judged :=
  let d := detailDiff hs generated prev f src part
  ⟨part, detail prev part ≠ detail f part, d.1, d.2⟩

def judgeSpec (prev f : RequestDefinition J H) (src fsrc : ImportSource H) : Judged :=
  ⟨.spec, !(changedFields prev.spec.content f.spec.content).isEmpty, fsrc.generatedHash ≠ src.generatedHash,
    hs.spec prev.spec.content ≠ src.generatedHash⟩

def judgedParts (prev f : RequestDefinition J H) (src fsrc : ImportSource H) : List Judged :=
  judgeSpec hs prev f src fsrc :: details.map (judgeDetail hs generated prev f src)

/-- A previous request and its fresh counterpart. -/
def compareParts (prev f : RequestDefinition J H) (src fsrc : ImportSource H) : Outcome J H :=
  let differing := (judgedParts hs generated prev f src fsrc).filter (·.differs)
  let upstream := differing.filter (·.upstream)
  if upstream.isEmpty then if differing.any (·.edited) then .preserved prev.id else .unchanged prev.id
  else
    let conflicting := upstream.filter (·.edited)
    let change : ReimportChange J H :=
      { existingId := prev.id
        operationKey := src.operationKey
        userEdited := !conflicting.isEmpty
        changedFields := changedFields prev.spec.content f.spec.content ++
          ((differing.map (·.part)).filter (· ≠ .spec)).map Part.text
        upstreamFields := upstream.map (·.part)
        conflictingFields := conflicting.map (·.part)
        fresh := f }
    if change.userEdited then .conflict change else .updated change

/-- The fresh request of an operation, with its link. -/
def findFresh (fresh : List (RequestDefinition J H)) (operationKey : Text) :
    Option (RequestDefinition J H × ImportSource H) :=
  fresh.findSome? fun f => (f.spec.source.filter fun s => s.operationKey = operationKey).map (f, ·)

def outcome (fresh : List (RequestDefinition J H)) (prev : RequestDefinition J H) : Outcome J H :=
  match prev.spec.source with
  | none => .unlinked prev.id
  | some src =>
    match findFresh fresh src.operationKey with
    | none =>
      .removed ⟨prev.id, src.operationKey, hs.spec prev.spec.content ≠ src.generatedHash ||
        details.any fun part => (detailDiff hs generated prev prev src part).2⟩
    | some (f, fsrc) => compareParts hs generated prev f src fsrc

/-- The operations of previous requests that the fresh import still has. -/
def matched (fresh previous : List (RequestDefinition J H)) : List Text :=
  previous.filterMap fun prev =>
    (prev.spec.source.filter fun src => (findFresh fresh src.operationKey).isSome).map (·.operationKey)

def freshKey (f : RequestDefinition J H) : Text := (f.spec.source.map (·.operationKey)).getD []

def reimportDiff (previous fresh : List (RequestDefinition J H)) : RequestPlan J H :=
  let outcomes := previous.map (outcome hs generated fresh)
  { added := fresh.filter fun f => freshKey f ∉ matched fresh previous
    updated := outcomes.filterMap fun | .updated c => some c | _ => none
    conflicts := outcomes.filterMap fun | .conflict c => some c | _ => none
    preservedEdits := outcomes.filterMap fun | .preserved id => some id | _ => none
    unchanged := outcomes.filterMap fun | .unchanged id => some id | _ => none
    removed := outcomes.filterMap fun | .removed r => some r | _ => none
    unlinked := outcomes.filterMap fun | .unlinked id => some id | _ => none }

namespace RequestPlan

def takenFields (p : RequestPlan J H) (c : ReimportChange J H) (approval : ReimportApproval) : List Part :=
  let declined := p.conflicts.any (fun x => x.existingId = c.existingId) && !approval.overwrite.contains c.existingId
  c.upstreamFields.filter fun part => !(declined && c.keeps part)

/-- The parts that are taken, written over a previous request. -/
def write (prev : RequestDefinition J H) (c : ReimportChange J H) (taken : List Part) : RequestDefinition J H :=
  let takes := fun part : Part => taken.contains part
  { prev with
    spec := if takes .spec then c.fresh.spec else prev.spec
    revisionId := if takes .spec then none else prev.revisionId
    name := if takes .name then c.fresh.name else prev.name
    description := if takes .description then c.fresh.description else prev.description
    tags := if takes .tags then c.fresh.tags else prev.tags
    updatedAt := c.fresh.updatedAt }

/-- A previous request after the plan, if it is kept. -/
def applyOne (p : RequestPlan J H) (approval : ReimportApproval) (prev : RequestDefinition J H) :
    Option (RequestDefinition J H) :=
  if p.removed.any (fun r => r.existingId = prev.id) && approval.delete.contains prev.id then none
  else
    match (p.updated ++ p.conflicts).find? fun c => c.existingId = prev.id with
    | none => some prev
    | some c =>
      let taken := p.takenFields c approval
      some (if taken.isEmpty then prev else write prev c taken)

def apply (p : RequestPlan J H) (previous : List (RequestDefinition J H)) (approval : ReimportApproval) :
    List (RequestDefinition J H) :=
  previous.filterMap (p.applyOne approval) ++
    p.added.map fun a =>
      match previous.head? with
      | some first => { a with workspaceId := first.workspaceId }
      | none => a

end RequestPlan

/-! ## Comparing the parts -/

omit [DecidableEq H] in
theorem changedFields_eq_nil {a b : Content J} : changedFields a b = [] ↔ a = b := by
  unfold changedFields
  rw [List.filter_eq_nil_iff]
  constructor
  · intro h
    apply ExtTreeMap.ext_getElem?
    intro k
    by_cases hk : k ∈ (a ∪ b).keys
    · simpa using h k hk
    · rw [ExtTreeMap.mem_keys, ExtTreeMap.mem_union_iff, not_or] at hk
      rw [ExtTreeMap.getElem?_eq_none hk.1, ExtTreeMap.getElem?_eq_none hk.2]
  · rintro rfl k -
    simp

def Outcome.id : Outcome J H → Uuid
  | .unlinked id | .preserved id | .unchanged id => id
  | .removed r => r.existingId
  | .updated c | .conflict c => c.existingId

def Outcome.change : Outcome J H → Option (ReimportChange J H)
  | .updated c | .conflict c => some c
  | .unlinked _ | .preserved _ | .unchanged _ | .removed _ => none

theorem compareParts_id (prev f : RequestDefinition J H) (src fsrc : ImportSource H) :
    (compareParts hs generated prev f src fsrc).id = prev.id := by
  unfold compareParts
  simp only
  split_ifs <;> rfl

theorem outcome_id (fresh : List (RequestDefinition J H)) (prev : RequestDefinition J H) :
    (outcome hs generated fresh prev).id = prev.id := by
  unfold outcome
  cases prev.spec.source with
  | none => rfl
  | some src =>
    simp only
    cases findFresh fresh src.operationKey with
    | none => rfl
    | some r => exact compareParts_id hs generated prev r.1 src r.2

/-! ## The lists of the plan -/

/-- The ids of the six lists that a previous request can be put in. -/
def RequestPlan.sorted (p : RequestPlan J H) : List Uuid :=
  p.unlinked ++ p.removed.map (·.existingId) ++ p.unchanged ++ p.preservedEdits ++ p.updated.map (·.existingId) ++
    p.conflicts.map (·.existingId)

theorem count_sorted_cons (fresh : List (RequestDefinition J H)) (id : Uuid) (prev : RequestDefinition J H)
    (previous : List (RequestDefinition J H)) :
    (reimportDiff hs generated (prev :: previous) fresh).sorted.count id =
      (reimportDiff hs generated previous fresh).sorted.count id + if prev.id == id then 1 else 0 := by
  have hid := outcome_id hs generated fresh prev
  unfold RequestPlan.sorted reimportDiff
  simp only [List.map_cons, List.count_append]
  cases ho : outcome hs generated fresh prev with
  | _ =>
    rw [ho] at hid
    dsimp only [Outcome.id] at hid
    simp only [List.filterMap_cons, List.map_cons, List.count_cons]
    rw [hid]
    omega

/-- Distinct previous requests are each put in one list, once. -/
theorem count_sorted (fresh previous : List (RequestDefinition J H)) (id : Uuid) :
    (reimportDiff hs generated previous fresh).sorted.count id = (previous.map (·.id)).count id := by
  induction previous with
  | nil => rfl
  | cons prev previous ih =>
    rw [count_sorted_cons, ih, List.map_cons, List.count_cons]

section Plan
variable {hs generated} {previous fresh : List (RequestDefinition J H)} (hids : (previous.map (·.id)).Nodup)
  {prev : RequestDefinition J H} (hprev : prev ∈ previous)
include hids hprev

/-- The list that a change or a removal of this request is in names what became of it. -/
theorem outcome_of_mem {o : Outcome J H} (ho : o ∈ previous.map (outcome hs generated fresh)) (hid : o.id = prev.id) :
    outcome hs generated fresh prev = o := by
  obtain ⟨q, hq, rfl⟩ := List.mem_map.1 ho
  rw [outcome_id] at hid
  rw [List.inj_on_of_nodup_map hids hq hprev hid]

theorem find_change :
    ((reimportDiff hs generated previous fresh).updated ++ (reimportDiff hs generated previous fresh).conflicts).find?
        (fun c => c.existingId = prev.id) = (outcome hs generated fresh prev).change := by
  have hmem := List.mem_map_of_mem (f := outcome hs generated fresh) hprev
  have hid := outcome_id hs generated fresh prev
  have hown : ∀ c, c ∈ (reimportDiff hs generated previous fresh).updated ++
      (reimportDiff hs generated previous fresh).conflicts → c.existingId = prev.id →
      (outcome hs generated fresh prev).change = some c := by
    intro c hc hcid
    unfold reimportDiff at hc
    rw [List.mem_append, List.mem_filterMap, List.mem_filterMap] at hc
    rcases hc with ⟨o, ho, hoc⟩ | ⟨o, ho, hoc⟩
    · split at hoc
      · cases hoc
        rw [outcome_of_mem hids hprev ho hcid]
        rfl
      · cases hoc
    · split at hoc
      · cases hoc
        rw [outcome_of_mem hids hprev ho hcid]
        rfl
      · cases hoc
  cases hf : ((reimportDiff hs generated previous fresh).updated ++
      (reimportDiff hs generated previous fresh).conflicts).find? fun c => c.existingId = prev.id with
  | some c =>
    exact (hown c (List.mem_of_find?_eq_some hf) (by simpa using List.find?_some hf)).symm
  | none =>
    rw [List.find?_eq_none] at hf
    cases ho : outcome hs generated fresh prev with
    | unlinked _ => rfl
    | removed _ => rfl
    | preserved _ => rfl
    | unchanged _ => rfl
    | updated c =>
      rw [ho] at hid hmem
      refine absurd ?_ (hf c (List.mem_append_left _ (List.mem_filterMap.2 ⟨_, hmem, rfl⟩)))
      exact decide_eq_true hid
    | conflict c =>
      rw [ho] at hid hmem
      refine absurd ?_ (hf c (List.mem_append_right _ (List.mem_filterMap.2 ⟨_, hmem, rfl⟩)))
      exact decide_eq_true hid

theorem any_conflict : (reimportDiff hs generated previous fresh).conflicts.any (fun x => x.existingId = prev.id) = true ↔
    ∃ c, outcome hs generated fresh prev = .conflict c := by
  have hmem := List.mem_map_of_mem (f := outcome hs generated fresh) hprev
  have hid := outcome_id hs generated fresh prev
  rw [List.any_eq_true]
  unfold reimportDiff
  simp only [List.mem_filterMap, decide_eq_true_iff]
  constructor
  · rintro ⟨c, ⟨o, ho, hoc⟩, hcid⟩
    split at hoc
    · cases hoc
      exact ⟨_, outcome_of_mem hids hprev ho hcid⟩
    · cases hoc
  · rintro ⟨c, hc⟩
    rw [hc] at hid hmem
    exact ⟨c, ⟨_, hmem, rfl⟩, hid⟩

theorem any_removed : (reimportDiff hs generated previous fresh).removed.any (fun x => x.existingId = prev.id) = true ↔
    ∃ r, outcome hs generated fresh prev = .removed r := by
  have hmem := List.mem_map_of_mem (f := outcome hs generated fresh) hprev
  have hid := outcome_id hs generated fresh prev
  rw [List.any_eq_true]
  unfold reimportDiff
  simp only [List.mem_filterMap, decide_eq_true_iff]
  constructor
  · rintro ⟨r, ⟨o, ho, hor⟩, hrid⟩
    split at hor
    · cases hor
      exact ⟨_, outcome_of_mem hids hprev ho hrid⟩
    · cases hor
  · rintro ⟨r, hr⟩
    rw [hr] at hid hmem
    exact ⟨r, ⟨_, hmem, rfl⟩, hid⟩

end Plan

/-! ## The parts that are taken -/

section Taken
variable (prev f : RequestDefinition J H) (src fsrc : ImportSource H)

def judged : Part → Judged
  | .spec => judgeSpec hs prev f src fsrc
  | .name => judgeDetail hs generated prev f src .name
  | .description => judgeDetail hs generated prev f src .description
  | .tags => judgeDetail hs generated prev f src .tags

theorem judged_part (part : Part) : (judged hs generated prev f src fsrc part).part = part := by
  cases part <;> rfl

theorem mem_judgedParts {j : Judged} :
    j ∈ judgedParts hs generated prev f src fsrc ↔ judged hs generated prev f src fsrc j.part = j := by
  constructor
  · intro h
    simp only [judgedParts, details, List.map_cons, List.map_nil, List.mem_cons, List.not_mem_nil, or_false] at h
    rcases h with rfl | rfl | rfl | rfl <;> rfl
  · intro h
    rw [← h]
    unfold judgedParts details
    cases j.part <;> simp [judged]

theorem mem_filter_judged {p : Judged → Bool} {part : Part} :
    part ∈ ((judgedParts hs generated prev f src fsrc).filter p).map (·.part) ↔
      p (judged hs generated prev f src fsrc part) = true := by
  rw [List.mem_map]
  constructor
  · rintro ⟨j, hj, rfl⟩
    rw [List.mem_filter, mem_judgedParts] at hj
    rw [hj.1]
    exact hj.2
  · intro hp
    refine ⟨judged hs generated prev f src fsrc part, ?_, judged_part hs generated prev f src fsrc part⟩
    rw [List.mem_filter, mem_judgedParts, judged_part]
    exact ⟨rfl, hp⟩

end Taken

/-- A part of a request. The link is no part of the spec. -/
def partOf (q : RequestDefinition J H) : Part → Content J ⊕ UnitValue J
  | .spec => .inl q.spec.content
  | .name => .inr (detail q .name)
  | .description => .inr (detail q .description)
  | .tags => .inr (detail q .tags)

/-- The hash of a part as the last import generated it, if that is known. -/
def baseline (src : ImportSource H) : Part → Option H
  | .spec => some src.generatedHash
  | .name => generatedAt generated src.operationKey .name
  | .description => generatedAt generated src.operationKey .description
  | .tags => generatedAt generated src.operationKey .tags

/-- A part is as the last import generated it. -/
def AsGenerated (q : RequestDefinition J H) (src : ImportSource H) (part : Part) : Prop :=
  baseline generated src part = some ((partOf q part).elim hs.spec hs.unit)

instance (q : RequestDefinition J H) (src : ImportSource H) (part : Part) : Decidable (AsGenerated hs generated q src part) :=
  inferInstanceAs (Decidable (_ = _))

section Judged
variable {hs generated} (prev f : RequestDefinition J H) (src fsrc : ImportSource H)

theorem judged_differs (part : Part) :
    (judged hs generated prev f src fsrc part).differs = true ↔ partOf prev part ≠ partOf f part := by
  cases part with
  | spec =>
    simp only [judged, judgeSpec, partOf, ne_eq, Sum.inl.injEq, Bool.not_eq_true', List.isEmpty_eq_false_iff,
      changedFields_eq_nil]
  | _ => simp [judged, judgeDetail, partOf]

theorem judged_upstream (hlink : fsrc.generatedHash = hs.spec f.spec.content) (part : Part) :
    (judged hs generated prev f src fsrc part).upstream = true ↔ ¬ AsGenerated hs generated f src part := by
  unfold AsGenerated
  cases part with
  | spec =>
    simp only [judged, judgeSpec, partOf, baseline, hlink, decide_eq_true_iff, Option.some.injEq, Sum.elim_inl]
    exact ne_comm
  | _ =>
    simp only [judged, judgeDetail, detailDiff, partOf, baseline, Sum.elim_inr]
    split <;> simp_all

theorem judged_edited (part : Part) :
    (judged hs generated prev f src fsrc part).edited = true ↔ ¬ AsGenerated hs generated prev src part := by
  unfold AsGenerated
  cases part with
  | spec =>
    simp only [judged, judgeSpec, partOf, baseline, decide_eq_true_iff, Option.some.injEq, Sum.elim_inl]
    exact ne_comm
  | _ =>
    simp only [judged, judgeDetail, detailDiff, partOf, baseline, Sum.elim_inr]
    split <;> simp_all

end Judged

/-! ## One previous request and its counterpart -/

section Compare
variable {hs generated} {prev f : RequestDefinition J H} {src fsrc : ImportSource H}

/-- What a change says of every part, and that it is a conflict only with a part that the user edited too. -/
structure ChangeOf (hs : Hashing J H W) (generated : Option (Hashes H)) (prev f : RequestDefinition J H)
    (src : ImportSource H) (c : ReimportChange J H) : Prop where
  id : c.existingId = prev.id
  key : c.operationKey = src.operationKey
  fresh : c.fresh = f
  upstream : ∀ part, part ∈ c.upstreamFields ↔
    partOf prev part ≠ partOf f part ∧ ¬ AsGenerated hs generated f src part
  conflicting : ∀ part, part ∈ c.conflictingFields ↔
    part ∈ c.upstreamFields ∧ ¬ AsGenerated hs generated prev src part

theorem compareParts_spec (generated : Option (Hashes H)) (prev : RequestDefinition J H) (src : ImportSource H)
    (hlink : fsrc.generatedHash = hs.spec f.spec.content) :
    match compareParts hs generated prev f src fsrc with
    | .updated c => ChangeOf hs generated prev f src c ∧ c.conflictingFields = []
    | .conflict c => ChangeOf hs generated prev f src c ∧ c.conflictingFields ≠ []
    | .preserved _ | .unchanged _ => ∀ part, partOf prev part ≠ partOf f part → AsGenerated hs generated f src part
    | .unlinked _ | .removed _ => False := by
  have hup : ∀ part, part ∈ (((judgedParts hs generated prev f src fsrc).filter (·.differs)).filter (·.upstream)).map
      (·.part) ↔ partOf prev part ≠ partOf f part ∧ ¬ AsGenerated hs generated f src part := by
    intro part
    rw [List.filter_filter, mem_filter_judged, Bool.and_eq_true, judged_differs, judged_upstream prev f src fsrc hlink,
      and_comm]
  have hconf : ∀ part, part ∈ ((((judgedParts hs generated prev f src fsrc).filter (·.differs)).filter
      (·.upstream)).filter (·.edited)).map (·.part) ↔
      (partOf prev part ≠ partOf f part ∧ ¬ AsGenerated hs generated f src part) ∧
        ¬ AsGenerated hs generated prev src part := by
    intro part
    rw [List.filter_filter, List.filter_filter, mem_filter_judged, Bool.and_eq_true, Bool.and_eq_true, judged_differs,
      judged_upstream prev f src fsrc hlink, judged_edited]
    tauto
  have hnone : (((judgedParts hs generated prev f src fsrc).filter (·.differs)).filter (·.upstream)).isEmpty = true →
      ∀ part, partOf prev part ≠ partOf f part → AsGenerated hs generated f src part := by
    intro he part hd
    by_contra hg
    have := (hup part).2 ⟨hd, hg⟩
    rw [List.isEmpty_iff.1 he] at this
    cases this
  unfold compareParts
  simp only
  split_ifs with he hany hconfl
  · exact hnone he
  · exact hnone he
  · refine ⟨⟨rfl, rfl, rfl, hup, fun part => (hconf part).trans (and_congr_left' (hup part).symm)⟩, ?_⟩
    simpa using hconfl
  · refine ⟨⟨rfl, rfl, rfl, hup, fun part => (hconf part).trans (and_congr_left' (hup part).symm)⟩, ?_⟩
    simpa using hconfl

omit [DecidableEq J] [DecidableEq H] in
theorem partOf_write (c : ReimportChange J H) (taken : List Part) (part : Part) :
    partOf (RequestPlan.write prev c taken) part = if part ∈ taken then partOf c.fresh part else partOf prev part := by
  unfold RequestPlan.write
  cases part with
  | _ =>
    simp only [partOf, detail, List.contains_iff_mem]
    split_ifs <;> rfl

omit [DecidableEq J] [DecidableEq H] in
theorem ChangeOf.spec_write {c : ReimportChange J H} (hc : ChangeOf hs generated prev f src c) {taken : List Part} :
    (if taken.isEmpty then prev else RequestPlan.write prev c taken).spec = f.spec ∨
      (if taken.isEmpty then prev else RequestPlan.write prev c taken).spec = prev.spec := by
  split_ifs
  · exact .inr rfl
  · unfold RequestPlan.write
    simp only [hc.fresh]
    split_ifs
    · exact .inl rfl
    · exact .inr rfl

/-- A request whose every part is the fresh one exactly when it changed upstream and either the user did not edit it or
the request is approved for overwriting, and the previous one otherwise. -/
def Merged (hs : Hashing J H W) (generated : Option (Hashes H)) (approval : ReimportApproval)
    (prev f : RequestDefinition J H) (src : ImportSource H) (r : RequestDefinition J H) : Prop :=
  ∀ part, partOf r part =
    if ¬ AsGenerated hs generated f src part ∧ (AsGenerated hs generated prev src part ∨ prev.id ∈ approval.overwrite)
    then partOf f part else partOf prev part

omit [DecidableEq J] in
theorem merged_self {approval : ReimportApproval}
    (h : ∀ part, partOf prev part ≠ partOf f part → AsGenerated hs generated f src part) :
    Merged hs generated approval prev f src prev := by
  intro part
  split_ifs with hg
  · exact not_not.1 fun hne => hg.1 (h part hne)
  · rfl

end Compare

section Apply
variable {hs generated} {previous fresh : List (RequestDefinition J H)} (hids : (previous.map (·.id)).Nodup)
  {prev : RequestDefinition J H} (hprev : prev ∈ previous) (approval : ReimportApproval)
include hids hprev

theorem applyOne_unlinked (hsrc : prev.spec.source = none) :
    (reimportDiff hs generated previous fresh).applyOne approval prev = some prev := by
  have ho : outcome hs generated fresh prev = .unlinked prev.id := by
    unfold outcome
    rw [hsrc]
  have hrem : ¬ (reimportDiff hs generated previous fresh).removed.any (fun x => x.existingId = prev.id) = true := by
    rw [any_removed hids hprev, ho]
    rintro ⟨r, ⟨⟩⟩
  unfold RequestPlan.applyOne
  rw [find_change hids hprev, ho, Bool.eq_false_iff.2 hrem]
  rfl

theorem applyOne_removed {src : ImportSource H} (hsrc : prev.spec.source = some src)
    (hf : findFresh fresh src.operationKey = none) :
    (reimportDiff hs generated previous fresh).applyOne approval prev =
      if prev.id ∈ approval.delete then none else some prev := by
  obtain ⟨r, ho⟩ : ∃ r, outcome hs generated fresh prev = .removed r := by
    unfold outcome
    rw [hsrc]
    simp only [hf]
    exact ⟨_, rfl⟩
  have hrem := (any_removed hids hprev).2 ⟨r, ho⟩
  unfold RequestPlan.applyOne
  rw [find_change hids hprev, ho, hrem, Bool.true_and]
  simp only [List.contains_iff_mem]
  rfl

/-- The parts of a change that are written: those that the user left alone, or all of them with the approval. -/
theorem mem_takenFields {f : RequestDefinition J H} {src : ImportSource H} {c : ReimportChange J H}
    (hc : ChangeOf hs generated prev f src c)
    (hlist : (∃ c, outcome hs generated fresh prev = .conflict c) ↔ c.conflictingFields ≠ []) (part : Part) :
    part ∈ (reimportDiff hs generated previous fresh).takenFields c approval ↔
      part ∈ c.upstreamFields ∧ (AsGenerated hs generated prev src part ∨ prev.id ∈ approval.overwrite) := by
  unfold RequestPlan.takenFields ReimportChange.keeps
  simp only
  rw [List.mem_filter, hc.id]
  apply and_congr_right
  intro hup
  have hkeep := hc.conflicting part
  rw [← any_conflict hids hprev] at hlist
  by_cases hnil : c.conflictingFields = []
  · have hno := Bool.eq_false_iff.2 (mt hlist.1 (not_not.2 hnil))
    rw [hno]
    rw [hnil] at hkeep
    simpa [hup] using Or.inl (not_not.1 fun hg => List.not_mem_nil (hkeep.2 ⟨hup, hg⟩))
  · rw [hlist.2 hnil]
    simp only [List.isEmpty_eq_false_iff.2 hnil, Bool.true_and, Bool.false_or, Bool.not_and, Bool.not_not,
      Bool.or_eq_true, List.contains_iff_mem]
    rw [Bool.not_eq_true', ← Bool.not_eq_true, List.contains_iff_mem, hkeep]
    tauto

/-- A change, written with the parts that are taken, is the merge. -/
theorem merged_write {f : RequestDefinition J H} {src : ImportSource H} {c : ReimportChange J H}
    (hc : ChangeOf hs generated prev f src c)
    (hlist : (∃ c, outcome hs generated fresh prev = .conflict c) ↔ c.conflictingFields ≠ []) :
    Merged hs generated approval prev f src
      (if ((reimportDiff hs generated previous fresh).takenFields c approval).isEmpty then prev
        else RequestPlan.write prev c ((reimportDiff hs generated previous fresh).takenFields c approval)) := by
  intro part
  have htaken := mem_takenFields hids hprev approval hc hlist part
  have hwrite : partOf (if ((reimportDiff hs generated previous fresh).takenFields c approval).isEmpty then prev
      else RequestPlan.write prev c ((reimportDiff hs generated previous fresh).takenFields c approval)) part =
      if part ∈ (reimportDiff hs generated previous fresh).takenFields c approval then partOf c.fresh part
      else partOf prev part := by
    split_ifs with he hmem hmem
    · rw [List.isEmpty_iff.1 he] at hmem
      cases hmem
    · rfl
    · rw [partOf_write, if_pos hmem]
    · rw [partOf_write, if_neg hmem]
  rw [hwrite, hc.fresh]
  by_cases hd : partOf prev part = partOf f part
  · rw [hd, ite_self, ite_self]
  · apply if_congr _ rfl rfl
    rw [htaken, hc.upstream]
    tauto

/-- What `apply` leaves of a request that the fresh import still has. -/
theorem applyOne_matched {f : RequestDefinition J H} {src fsrc : ImportSource H} (hsrc : prev.spec.source = some src)
    (hf : findFresh fresh src.operationKey = some (f, fsrc)) (hlink : fsrc.generatedHash = hs.spec f.spec.content) :
    ∃ r, (reimportDiff hs generated previous fresh).applyOne approval prev = some r ∧
      Merged hs generated approval prev f src r ∧ (r.spec = f.spec ∨ r.spec = prev.spec) := by
  have ho : outcome hs generated fresh prev = compareParts hs generated prev f src fsrc := by
    unfold outcome
    rw [hsrc]
    simp only [hf]
  have hspec := compareParts_spec generated prev src hlink
  have hrem : ¬ (reimportDiff hs generated previous fresh).removed.any (fun x => x.existingId = prev.id) = true := by
    rw [any_removed hids hprev, ho]
    rintro ⟨r, hr⟩
    rw [hr] at hspec
    exact hspec
  unfold RequestPlan.applyOne
  rw [find_change hids hprev, Bool.eq_false_iff.2 hrem, Bool.false_and, if_neg Bool.false_ne_true]
  cases hcp : compareParts hs generated prev f src fsrc with
  | unlinked _ =>
    rw [hcp] at hspec
    exact hspec.elim
  | removed _ =>
    rw [hcp] at hspec
    exact hspec.elim
  | preserved id =>
    rw [hcp] at hspec
    rw [ho, hcp]
    exact ⟨prev, rfl, merged_self hspec, .inr rfl⟩
  | unchanged id =>
    rw [hcp] at hspec
    rw [ho, hcp]
    exact ⟨prev, rfl, merged_self hspec, .inr rfl⟩
  | updated c =>
    rw [hcp] at hspec
    have hlist : (∃ c, outcome hs generated fresh prev = .conflict c) ↔ c.conflictingFields ≠ [] := by
      rw [ho, hcp, hspec.2]
      simp
    rw [ho, hcp]
    exact ⟨_, rfl, merged_write hids hprev approval hspec.1 hlist, hspec.1.spec_write⟩
  | conflict c =>
    rw [hcp] at hspec
    have hlist : (∃ c, outcome hs generated fresh prev = .conflict c) ↔ c.conflictingFields ≠ [] := by
      rw [ho, hcp]
      simpa using hspec.2
    rw [ho, hcp]
    exact ⟨_, rfl, merged_write hids hprev approval hspec.1 hlist, hspec.1.spec_write⟩

end Apply

/-! ## The whole plan -/

/-- A previous and a fresh request of the same operation. -/
def SameOperation (q f : RequestDefinition J H) : Prop :=
  ∃ src fsrc, q.spec.source = some src ∧ f.spec.source = some fsrc ∧ fsrc.operationKey = src.operationKey

/-- What the builder makes: every request is linked, with the hash of its spec. -/
def Built (hs : Hashing J H W) (fresh : List (RequestDefinition J H)) : Prop :=
  ∀ f ∈ fresh, ∃ fsrc, f.spec.source = some fsrc ∧ fsrc.generatedHash = hs.spec f.spec.content

section Whole
variable {hs generated} {previous fresh : List (RequestDefinition J H)}

omit [DecidableEq J] [DecidableEq H] in
theorem findFresh_some {key : Text} {f : RequestDefinition J H} {fsrc : ImportSource H}
    (h : findFresh fresh key = some (f, fsrc)) : f ∈ fresh ∧ f.spec.source = some fsrc ∧ fsrc.operationKey = key := by
  obtain ⟨f', hf', hmap⟩ := List.exists_of_findSome?_eq_some h
  rw [Option.map_eq_some_iff] at hmap
  obtain ⟨s, hs, hpair⟩ := hmap
  rw [Option.filter_eq_some_iff] at hs
  cases hpair
  exact ⟨hf', hs.1, by simpa using hs.2⟩

omit [DecidableEq J] [DecidableEq H] in
theorem findFresh_none {key : Text} (h : findFresh fresh key = none) {f : RequestDefinition J H} (hf : f ∈ fresh)
    {fsrc : ImportSource H} (hsrc : f.spec.source = some fsrc) : fsrc.operationKey ≠ key := by
  intro hkey
  have := List.findSome?_eq_none_iff.1 h f hf
  rw [hsrc] at this
  simp [Option.filter, hkey] at this

omit [DecidableEq J] [DecidableEq H] in
theorem not_sameOperation {q : RequestDefinition J H} {src : ImportSource H} (hsrc : q.spec.source = some src)
    (h : findFresh fresh src.operationKey = none) (f : RequestDefinition J H) (hf : f ∈ fresh) : ¬ SameOperation q f := by
  rintro ⟨src', fsrc, hsrc', hlink, hkey⟩
  rw [hsrc] at hsrc'
  cases hsrc'
  exact findFresh_none h hf hlink hkey

omit [DecidableEq J] [DecidableEq H] in
theorem Built.hash (hbuilt : Built hs fresh) {f : RequestDefinition J H} (hf : f ∈ fresh) {fsrc : ImportSource H}
    (hsrc : f.spec.source = some fsrc) : fsrc.generatedHash = hs.spec f.spec.content := by
  obtain ⟨s, hs, hash⟩ := hbuilt f hf
  rw [hsrc] at hs
  cases hs
  exact hash

omit [DecidableEq J] [DecidableEq H] in
theorem findFresh_of_mem (hfresh : (fresh.map freshKey).Nodup) {f : RequestDefinition J H} (hf : f ∈ fresh)
    {fsrc : ImportSource H} (hsrc : f.spec.source = some fsrc) :
    findFresh fresh fsrc.operationKey = some (f, fsrc) := by
  cases h : findFresh fresh fsrc.operationKey with
  | none => exact absurd rfl (findFresh_none h hf hsrc)
  | some r =>
    obtain ⟨hmem, hlink, hkey⟩ := findFresh_some h
    have hsame : freshKey r.1 = freshKey f := by
      unfold freshKey
      rw [hlink, hsrc]
      exact hkey
    obtain rfl := List.inj_on_of_nodup_map hfresh hmem hf hsame
    rw [hsrc] at hlink
    cases hlink
    rfl

omit [DecidableEq J] [DecidableEq H] in
theorem mem_added (hbuilt : Built hs fresh) {f : RequestDefinition J H} (hf : f ∈ fresh) :
    freshKey f ∉ matched fresh previous ↔ ∀ q ∈ previous, ¬ SameOperation q f := by
  obtain ⟨fsrc, hsrc, -⟩ := hbuilt f hf
  have hkey : freshKey f = fsrc.operationKey := by
    unfold freshKey
    rw [hsrc]
    rfl
  unfold matched
  rw [hkey, List.mem_filterMap, not_exists]
  apply forall_congr'
  intro q
  rw [not_and]
  apply imp_congr_right
  rintro -
  apply not_congr
  rw [Option.map_eq_some_iff]
  constructor
  · rintro ⟨src, hq, heq⟩
    rw [Option.filter_eq_some_iff] at hq
    exact ⟨src, fsrc, hq.1, hsrc, heq.symm⟩
  · rintro ⟨src, fsrc', hq, hf', heq⟩
    rw [hsrc] at hf'
    cases hf'
    refine ⟨src, Option.filter_eq_some_iff.2 ⟨hq, ?_⟩, heq.symm⟩
    cases hfind : findFresh fresh src.operationKey with
    | none => exact absurd heq (findFresh_none hfind hf hsrc)
    | some r => rfl

omit [DecidableEq J] [DecidableEq H] in
theorem applyOne_keeps {p : RequestPlan J H} {approval : ReimportApproval} {q r : RequestDefinition J H}
    (h : p.applyOne approval q = some r) :
    r.id = q.id ∧ r.workspaceId = q.workspaceId ∧ r.folderId = q.folderId ∧ r.sortKey = q.sortKey ∧
      r.favorite = q.favorite := by
  unfold RequestPlan.applyOne at h
  split_ifs at h with hdel
  simp only at h
  split at h
  · cases h
    exact ⟨rfl, rfl, rfl, rfl, rfl⟩
  · rw [Option.some.injEq] at h
    subst h
    split_ifs <;> exact ⟨rfl, rfl, rfl, rfl, rfl⟩

end Whole

/-- **Reimporting requests is a three-way merge.** Every previous request is in one list of the plan, every fresh request
without a counterpart is added, and `apply` drops a previous request exactly when it is gone from the source and its
deletion is approved; the parts of a kept one are merged and its place is unchanged. -/
theorem reimport_merges (previous fresh : List (RequestDefinition J H)) (approval : ReimportApproval)
    (hids : (previous.map (·.id)).Nodup) (hfresh : (fresh.map freshKey).Nodup) (hbuilt : Built hs fresh) :
    let plan := reimportDiff hs generated previous fresh
    (∀ q ∈ previous, plan.sorted.count q.id = 1) ∧
    (∀ f ∈ fresh, f ∈ plan.added ↔ ∀ q ∈ previous, ¬ SameOperation q f) ∧
    plan.apply previous approval = previous.filterMap (plan.applyOne approval) ++ plan.added.map (fun a =>
      { a with workspaceId := (previous.head?.map (·.workspaceId)).getD a.workspaceId }) ∧
    ∀ q ∈ previous,
      (plan.applyOne approval q = none ↔
        q.spec.source.isSome ∧ (∀ f ∈ fresh, ¬ SameOperation q f) ∧ q.id ∈ approval.delete) ∧
      ∀ r, plan.applyOne approval q = some r →
        r.id = q.id ∧ r.workspaceId = q.workspaceId ∧ r.folderId = q.folderId ∧ r.sortKey = q.sortKey ∧
          r.favorite = q.favorite ∧
        ((∀ f ∈ fresh, ¬ SameOperation q f) → r = q) ∧
        ∀ f ∈ fresh, ∀ src, q.spec.source = some src → SameOperation q f →
          Merged hs generated approval q f src r := by
  intro plan
  refine ⟨?_, ?_, ?_, ?_⟩
  · intro q hq
    rw [count_sorted]
    exact List.count_eq_one_of_mem hids (List.mem_map_of_mem hq)
  · intro f hf
    rw [← mem_added hbuilt hf]
    simp only [plan, reimportDiff, List.mem_filter, hf, true_and, decide_eq_true_iff]
  · unfold RequestPlan.apply
    cases previous <;> rfl
  · intro q hq
    refine ⟨?_, ?_⟩
    · cases hsrc : q.spec.source with
      | none =>
        have hone : plan.applyOne approval q = some q := applyOne_unlinked hids hq approval hsrc
        rw [hone]
        simp
      | some src =>
        cases hfind : findFresh fresh src.operationKey with
        | none =>
          have hone : plan.applyOne approval q = if q.id ∈ approval.delete then none else some q :=
            applyOne_removed hids hq approval hsrc hfind
          have hgone := not_sameOperation hsrc hfind
          rw [hone]
          split_ifs with hdel
          · exact iff_of_true rfl ⟨rfl, hgone, hdel⟩
          · simp [hdel]
        | some r =>
          obtain ⟨hmem, hlink, hkey⟩ := findFresh_some hfind
          obtain ⟨r', hone, -, -⟩ := applyOne_matched hids hq approval hsrc hfind (hbuilt.hash hmem hlink)
          have hsome : plan.applyOne approval q = some r' := hone
          rw [hsome]
          have hno : ¬ ∀ f ∈ fresh, ¬ SameOperation q f := fun h => h r.1 hmem ⟨src, r.2, hsrc, hlink, hkey⟩
          simp [hno]
    · intro r hr
      obtain ⟨hid, hws, hfolder, hsort, hfav⟩ := applyOne_keeps hr
      refine ⟨hid, hws, hfolder, hsort, hfav, ?_, ?_⟩
      · intro hgone
        cases hsrc : q.spec.source with
        | none =>
          have hone : plan.applyOne approval q = some q := applyOne_unlinked hids hq approval hsrc
          rw [hone] at hr
          exact (Option.some.inj hr).symm
        | some src =>
          cases hfind : findFresh fresh src.operationKey with
          | none =>
            have hone : plan.applyOne approval q = if q.id ∈ approval.delete then none else some q :=
              applyOne_removed hids hq approval hsrc hfind
            rw [hone] at hr
            split_ifs at hr
            exact (Option.some.inj hr).symm
          | some r' =>
            obtain ⟨hmem, hlink, hkey⟩ := findFresh_some hfind
            exact absurd ⟨src, r'.2, hsrc, hlink, hkey⟩ (hgone r'.1 hmem)
      · rintro f hf src hsrc ⟨src', fsrc, hsrc', hlink, hkey⟩
        rw [hsrc] at hsrc'
        cases hsrc'
        have hfind := findFresh_of_mem hfresh hf hlink
        rw [hkey] at hfind
        obtain ⟨r', hone, hmerged, -⟩ := applyOne_matched hids hq approval hsrc hfind (hbuilt.hash hf hlink)
        rw [show plan.applyOne approval q = some r' from hone] at hr
        cases hr
        exact hmerged

end Model

/-- Hashes without collisions: the hashed value itself. -/
abbrev PlainHash := List (Key × Nat) ⊕ Option (UnitValue Nat)

def plainHashing : Hashing Nat PlainHash (List (Key × PlainHash)) where
  spec c := .inl c.toList
  unit v := .inr (some v)
  all g := g.toList
  declined := .inr none

/-- A request with the given name and the value of its `url`, linked to what was generated for it. -/
def sampleRequest (name : Text) (url : Nat) (generatedUrl : Nat) : RequestDefinition Nat PlainHash where
  id := ⟨1⟩
  updatedAt := 0
  workspaceId := ⟨2⟩
  folderId := none
  name := name
  description := []
  tags := []
  favorite := true
  sortKey := 0
  spec := ⟨{("url".toList, url)}, some ⟨⟨3⟩, "getPet".toList, .inl [("url".toList, generatedUrl)]⟩⟩
  revisionId := none

/-- The user's name stays, and the spec that the source changed is taken. -/
theorem reimport_merges_renamed :
    ∃ r, (reimportDiff plainHashing (some {(requestKey "getPet".toList .name, .inr (some (.text "pet".toList)))})
        [sampleRequest "mine".toList 1 1] [sampleRequest "Pet".toList 2 2]).applyOne {} (sampleRequest "mine".toList 1 1) =
          some r ∧ partOf r .name = .inr (.text "mine".toList) ∧ partOf r .spec = .inl {("url".toList, 2)} := by
  obtain ⟨r, hr⟩ : ∃ r, (reimportDiff plainHashing
      (some {(requestKey "getPet".toList .name, .inr (some (.text "pet".toList)))})
      [sampleRequest "mine".toList 1 1] [sampleRequest "Pet".toList 2 2]).applyOne {} (sampleRequest "mine".toList 1 1) =
        some r := Option.isSome_iff_exists.1 (by decide)
  have h := (reimport_merges plainHashing (some {(requestKey "getPet".toList .name, .inr (some (.text "pet".toList)))})
    [sampleRequest "mine".toList 1 1] [sampleRequest "Pet".toList 2 2] {} (by decide) (by decide)
    (by
      intro f hf
      obtain rfl := List.mem_singleton.1 hf
      exact ⟨_, rfl, by decide⟩)).2.2.2 _ (List.mem_singleton_self _)
  have hm := (h.2 r hr).2.2.2.2.2.2 _ (List.mem_singleton_self _) _ rfl ⟨_, _, rfl, rfl, rfl⟩
  refine ⟨r, hr, ?_, ?_⟩
  · rw [hm .name, if_neg (by decide)]
    rfl
  · rw [hm .spec, if_pos (by decide)]
    rfl

end Anvil.Import
