import Anvil.Import.Reimport.Merge

/-!
# The hashes that a reimport leaves (`anvil-import/src/reimport.rs`)

`nextGeneratedScope` keeps the hashes of the fresh import, except that a declined conflict or removal keeps what was
there before, so that it is offered again.

* `nextGeneratedScope` : as in the source;
* `next_unit`, `next_whole` : what is kept for a unit, and for an environment that only one side has;
* `next_detail` : what is kept for the name, description and tags of a request;
* `offer_again` : what is offered of a unit whose hash was kept so.
-/

namespace Anvil.Import
open Anvil.Lib Std

section Model
variable {J H W : Type} [DecidableEq H] [DecidableEq W] (hs : Hashing J H W)

def requestUnits (q : RequestDefinition J H) : List (Key × UnitValue J) :=
  match q.spec.source with
  | none => []
  | some src => details.map fun part => (requestKey src.operationKey part, detail q part)

def requestUnitHashes (requests : List (RequestDefinition J H)) : Hashes H :=
  ExtTreeMap.ofList ((requests.flatMap requestUnits).map fun e => (e.1, hs.unit e.2)) compare

/-- The details of declined conflicts, and with `true` those of removed requests that are kept. -/
def earlierDetails (p : RequestPlan J H) (approval : ReimportApproval) : List (Text × Part × Bool) :=
  ((p.conflicts.filter fun c => !approval.overwrite.contains c.existingId).flatMap fun c =>
    (details.filter fun part => c.keeps part).map fun part => (c.operationKey, part, false)) ++
  (p.removed.filter fun r => !approval.delete.contains r.existingId).flatMap fun r =>
    details.map fun part => (r.operationKey, part, true)

def keepDetail (generated : Option (Hashes H)) (out : Hashes H) (e : Text × Part × Bool) : Hashes H :=
  match generatedAt generated e.1 e.2.1 with
  | some h => out.insert (requestKey e.1 e.2.1) h
  | none => if e.2.2 then out.erase (requestKey e.1 e.2.1) else out.insert (requestKey e.1 e.2.1) hs.declined

/-- What a declined change of the scope keeps: its earlier hash, or those of the whole environment. -/
def earlierHashes (generated : Option (Hashes H)) (c : ScopeChange J) : Hashes H :=
  match generated with
  | none => ∅
  | some g =>
    if c.wholeEnvironment then within g c.key
    else
      match g[c.key]? with
      | some h => {(c.key, h)}
      | none => ∅

def keepScope (generated : Option (Hashes H)) (out : Hashes H) (e : ScopeChange J × Bool) : Hashes H :=
  let c := e.1
  let earlier := earlierHashes generated c
  let out := out.filter fun k _ => k != c.key && !(c.wholeEnvironment && (c.key ++ ['/']).isPrefixOf k)
  if !earlier.isEmpty then out ∪ earlier
  else if !e.2 then out.insert c.key hs.declined
  else out

/-- The declined conflicts, and with `true` the declined removals. -/
def ScopePlan.declined (p : ScopePlan J) (approval : ReimportApproval) : List (ScopeChange J × Bool) :=
  (p.conflicts.filter fun c => !approval.overwriteScope.contains c.key).map (·, false) ++
    (p.removed.filter fun c => !approval.deleteScope.contains c.key).map (·, true)

def nextGeneratedScope (p : RequestPlan J H) (sp : ScopePlan J) (fresh : ImportedScope J)
    (freshRequests : List (RequestDefinition J H)) (generated : Option (Hashes H)) (approval : ReimportApproval) :
    Hashes H :=
  let out := unitHashes hs fresh ∪ requestUnitHashes hs freshRequests
  let out := (earlierDetails p approval).foldl (keepDetail hs generated) out
  (sp.declined approval).foldl (keepScope hs generated) out

/-! ## The keys of a change -/

/-- The keys that a declined change of the scope decides. -/
def Covers (c : ScopeChange J) (k : Key) : Prop :=
  k = c.key ∨ c.wholeEnvironment = true ∧ c.key ++ ['/'] <+: k

/-- What a declined change leaves for its keys. -/
def replacement (generated : Option (Hashes H)) (e : ScopeChange J × Bool) : Hashes H :=
  if !(earlierHashes generated e.1).isEmpty then earlierHashes generated e.1
  else if !e.2 then {(e.1.key, hs.declined)}
  else ∅

variable {hs}

omit [DecidableEq H] [DecidableEq W] in
theorem getElem?_singleton (k k' : Key) (h : H) :
    ({(k, h)} : Hashes H)[k']? = if k = k' then some h else none := by
  rw [ExtTreeMap.singleton_eq_insert, ExtTreeMap.getElem?_insert, ExtTreeMap.getElem?_empty]
  simp only [Std.compare_eq_iff_eq]

omit [DecidableEq H] [DecidableEq W] in
theorem isEmpty_singleton (k : Key) (h : H) : ({(k, h)} : Hashes H).isEmpty = false := by
  rw [← Bool.not_eq_true, ExtTreeMap.isEmpty_iff]
  intro he
  have := getElem?_singleton k k h
  rw [he, if_pos rfl, ExtTreeMap.getElem?_empty] at this
  cases this

theorem keeps_key (c : ScopeChange J) (k : Key) :
    (k != c.key && !(c.wholeEnvironment && (c.key ++ ['/']).isPrefixOf k)) = true ↔ ¬ Covers c k := by
  unfold Covers
  rw [Bool.and_eq_true, Bool.not_eq_true', ← Bool.not_eq_true, Bool.and_eq_true, List.isPrefixOf_iff_prefix, bne_iff_ne,
    not_or]

omit [DecidableEq H] [DecidableEq W] in
theorem earlierHashes_eq_none (generated : Option (Hashes H)) (c : ScopeChange J) {k : Key} (hk : ¬ Covers c k) :
    (earlierHashes generated c)[k]? = none := by
  unfold Covers at hk
  rw [not_or] at hk
  unfold earlierHashes
  cases generated with
  | none => exact ExtTreeMap.getElem?_empty
  | some g =>
    simp only
    split_ifs with hw
    · unfold within
      rw [ExtTreeMap.getElem?_filter', Option.filter_eq_none_iff]
      intro h _
      have hp : ¬ c.key ++ ['/'] <+: k := fun h => hk.2 ⟨hw, h⟩
      simp [hk.1, hp]
    · split
      · rw [getElem?_singleton, if_neg (Ne.symm hk.1)]
      · exact ExtTreeMap.getElem?_empty

omit [DecidableEq H] [DecidableEq W] in
theorem keepScope_of_covers (generated : Option (Hashes H)) (out : Hashes H) (e : ScopeChange J × Bool) {k : Key}
    (hk : Covers e.1 k) : (keepScope hs generated out e)[k]? = (replacement hs generated e)[k]? := by
  have hout : (out.filter fun k _ => k != e.1.key && !(e.1.wholeEnvironment && (e.1.key ++ ['/']).isPrefixOf k))[k]? =
      none := by
    rw [ExtTreeMap.getElem?_filter', Option.filter_eq_none_iff]
    intro h _ hkeep
    exact (keeps_key e.1 k).1 hkeep hk
  unfold keepScope replacement
  simp only
  split_ifs with hearlier hremoval
  · rw [ExtTreeMap.getElem?_union, hout, Option.or_none]
  · rw [ExtTreeMap.getElem?_insert, hout, getElem?_singleton]
    simp only [Std.compare_eq_iff_eq]
  · rw [hout, ExtTreeMap.getElem?_empty]

omit [DecidableEq H] [DecidableEq W] in
theorem keepScope_of_not_covers (generated : Option (Hashes H)) (out : Hashes H) (e : ScopeChange J × Bool) {k : Key}
    (hk : ¬ Covers e.1 k) : (keepScope hs generated out e)[k]? = out[k]? := by
  have hout : (out.filter fun k _ => k != e.1.key && !(e.1.wholeEnvironment && (e.1.key ++ ['/']).isPrefixOf k))[k]? =
      out[k]? := by
    rw [ExtTreeMap.getElem?_filter']
    simp only [(keeps_key e.1 k).2 hk]
    cases out[k]? <;> rfl
  unfold keepScope
  simp only
  split_ifs with hearlier hremoval
  · rw [ExtTreeMap.getElem?_union, earlierHashes_eq_none generated e.1 hk, hout, Option.none_or]
  · have hne : ¬ e.1.key = k := fun h => hk (.inl h.symm)
    rw [ExtTreeMap.getElem?_insert, hout]
    simp only [Std.compare_eq_iff_eq, if_neg hne]
  · exact hout

/-! ## The keys of requests -/

theorem Part.text_no_slash (part : Part) : '/' ∉ part.text := by
  cases part <;> decide

theorem requestKey_injective2 : Function.Injective2 requestKey := by
  intro k l p q h
  unfold requestKey at h
  simp only [List.append_assoc] at h
  have hrest := List.append_cancel_left h
  obtain ⟨hk, ht⟩ := append_cons_inj p.text_no_slash q.text_no_slash hrest
  refine ⟨hk, ?_⟩
  cases p <;> cases q <;> first | rfl | exact absurd ht (by decide)

theorem requestKey_ne_text (op : Text) (part : Part) (a : Address) : requestKey op part ≠ a.text := by
  intro h
  have hhead := congrArg List.head? h
  have hreq : (requestKey op part).head? = some 'r' := rfl
  rw [hreq] at hhead
  cases a with
  | own u =>
    rw [Address.text, ScopeUnit.head_text] at hhead
    cases u <;> simp [ScopeUnit.head] at hhead
  | environment id label =>
    rw [Address.text_environment, head_environmentKey] at hhead
    exact absurd hhead (by decide)
  | folder id u =>
    rw [Address.text_folder, head_folderKey] at hhead
    exact absurd hhead (by decide)

omit [DecidableEq H] [DecidableEq W] in
theorem keepDetail_of_ne (generated : Option (Hashes H)) (out : Hashes H) (e : Text × Part × Bool) {k : Key}
    (hk : ¬ requestKey e.1 e.2.1 = k) : (keepDetail hs generated out e)[k]? = out[k]? := by
  unfold keepDetail
  cases generatedAt generated e.1 e.2.1 with
  | some h =>
    rw [ExtTreeMap.getElem?_insert]
    simp only [Std.compare_eq_iff_eq, if_neg hk]
  | none =>
    simp only
    split_ifs
    · rw [ExtTreeMap.getElem?_erase]
      simp only [Std.compare_eq_iff_eq, if_neg hk]
    · rw [ExtTreeMap.getElem?_insert]
      simp only [Std.compare_eq_iff_eq, if_neg hk]

/-- What is kept for a detail of a declined conflict, or of a removed request that is kept. -/
def keptDetail (hs : Hashing J H W) (generated : Option (Hashes H)) (e : Text × Part × Bool) : Option H :=
  (generatedAt generated e.1 e.2.1).or (if e.2.2 then none else some hs.declined)

omit [DecidableEq H] [DecidableEq W] in
theorem keepDetail_self (generated : Option (Hashes H)) (out : Hashes H) (e : Text × Part × Bool) {k : Key}
    (hk : requestKey e.1 e.2.1 = k) : (keepDetail hs generated out e)[k]? = keptDetail hs generated e := by
  unfold keepDetail keptDetail
  subst hk
  cases generatedAt generated e.1 e.2.1 with
  | some h => rw [ExtTreeMap.getElem?_insert_self, Option.some_or]
  | none =>
    simp only [Option.none_or]
    split_ifs
    · exact ExtTreeMap.getElem?_erase_self
    · exact ExtTreeMap.getElem?_insert_self

omit [DecidableEq H] [DecidableEq W] in
theorem requestUnitHashes_eq_none (requests : List (RequestDefinition J H)) {k : Key}
    (hk : ∀ op part, requestKey op part ≠ k) : (requestUnitHashes hs requests)[k]? = none := by
  unfold requestUnitHashes
  apply ExtTreeMap.getElem?_ofList_of_contains_eq_false
  rw [← Bool.not_eq_true, List.contains_iff_mem, List.map_map, List.mem_map]
  rintro ⟨e, he, rfl⟩
  obtain ⟨q, -, hq⟩ := List.mem_flatMap.1 he
  unfold requestUnits at hq
  split at hq
  · cases hq
  · obtain ⟨part, -, rfl⟩ := List.mem_map.1 hq
    exact hk _ _ rfl

/-! ## The units of a scope -/

section Scope
variable {d : ScopeDiff J H} {p : RequestPlan J H} {requests : List (RequestDefinition J H)}
  {approval : ReimportApproval}

theorem mem_declined {e : ScopeChange J × Bool} :
    e ∈ (diffScope hs d).declined approval ↔ ∃ k ∈ diffKeys hs d,
      scopeOutcome hs d k = .conflict e.1 ∧ e.2 = false ∧ k ∉ approval.overwriteScope ∨
      scopeOutcome hs d k = .removed e.1 ∧ e.2 = true ∧ k ∉ approval.deleteScope := by
  have hkey : ∀ {k : Key} {c : ScopeChange J}, scopeOutcome hs d k = .conflict c ∨ scopeOutcome hs d k = .removed c →
      c.key = k := by
    rintro k c (h | h) <;> exact (change?_scopeOutcome (c := c) (by rw [h]; rfl)).1
  have hno : ∀ (l : List Key) (k : Key), (!l.contains k) = true ↔ k ∉ l := by
    intro l k
    simp
  unfold ScopePlan.declined
  simp only [List.mem_append, List.mem_map, List.mem_filter, hno, mem_conflicts, mem_removed]
  constructor
  · rintro (⟨c, ⟨⟨k, hk, hout⟩, hno⟩, rfl⟩ | ⟨c, ⟨⟨k, hk, hout⟩, hno⟩, rfl⟩)
    · rw [hkey (.inl hout)] at hno
      exact ⟨k, hk, .inl ⟨hout, rfl, hno⟩⟩
    · rw [hkey (.inr hout)] at hno
      exact ⟨k, hk, .inr ⟨hout, rfl, hno⟩⟩
  · rintro ⟨k, hk, ⟨hout, hflag, hno⟩ | ⟨hout, hflag, hno⟩⟩
    · exact .inl ⟨e.1, ⟨⟨k, hk, hout⟩, by rwa [hkey (.inl hout)]⟩, Prod.ext rfl hflag.symm⟩
    · exact .inr ⟨e.1, ⟨⟨k, hk, hout⟩, by rwa [hkey (.inr hout)]⟩, Prod.ext rfl hflag.symm⟩

/-- A declined change is what was found for its key. -/
theorem declined_key {e : ScopeChange J × Bool} (he : e ∈ (diffScope hs d).declined approval) :
    e.1.key ∈ diffKeys hs d ∧ e.1.wholeEnvironment = (oneSided hs d).contains e.1.key ∧
      (scopeOutcome hs d e.1.key = .conflict e.1 ∧ e.2 = false ∧ e.1.key ∉ approval.overwriteScope ∨
        scopeOutcome hs d e.1.key = .removed e.1 ∧ e.2 = true ∧ e.1.key ∉ approval.deleteScope) := by
  obtain ⟨k, hk, h⟩ := mem_declined.1 he
  have hchange : (scopeOutcome hs d k).change? = some e.1 := by
    rcases h with ⟨hout, -⟩ | ⟨hout, -⟩ <;> rw [hout] <;> rfl
  obtain ⟨hkey, hwhole⟩ := change?_scopeOutcome hchange
  rw [hkey]
  exact ⟨hk, hwhole, h⟩

theorem declined_unique {e e' : ScopeChange J × Bool} (he : e ∈ (diffScope hs d).declined approval)
    (he' : e' ∈ (diffScope hs d).declined approval) (hkey : e.1.key = e'.1.key) : e = e' := by
  obtain ⟨-, -, h⟩ := declined_key he
  obtain ⟨-, -, h'⟩ := declined_key he'
  rw [hkey] at h
  rcases h with ⟨hout, hflag, -⟩ | ⟨hout, hflag, -⟩ <;> rcases h' with ⟨hout', hflag', -⟩ | ⟨hout', hflag', -⟩
  · exact Prod.ext (ScopeOutcome.conflict.inj (hout.symm.trans hout')) (hflag.trans hflag'.symm)
  · rw [hout] at hout'
    cases hout'
  · rw [hout] at hout'
    cases hout'
  · exact Prod.ext (ScopeOutcome.removed.inj (hout.symm.trans hout')) (hflag.trans hflag'.symm)

theorem next_of_not_covered {k : Key} (hreq : ∀ op part, requestKey op part ≠ k)
    (h : ∀ e ∈ (diffScope hs d).declined approval, ¬ Covers e.1 k) :
    (nextGeneratedScope hs p (diffScope hs d) d.fresh requests d.generated approval)[k]? =
      (unitHashes hs d.fresh)[k]? := by
  unfold nextGeneratedScope
  simp only
  rw [look_foldl_of_not_hit (fun m : Hashes H => m[k]?) (fun e => Covers e.1 k)
      (fun out e he => keepScope_of_not_covers d.generated out e he) _ h,
    look_foldl_of_not_hit (fun m : Hashes H => m[k]?) (fun e => requestKey e.1 e.2.1 = k)
      (fun out e he => keepDetail_of_ne d.generated out e he) _ fun e _ => hreq e.1 e.2.1,
    ExtTreeMap.getElem?_union, requestUnitHashes_eq_none requests hreq, Option.none_or]

theorem next_of_covered {k : Key} {e : ScopeChange J × Bool} (he : e ∈ (diffScope hs d).declined approval)
    (hcov : Covers e.1 k) (huniq : ∀ x ∈ (diffScope hs d).declined approval, Covers x.1 k → x = e) :
    (nextGeneratedScope hs p (diffScope hs d) d.fresh requests d.generated approval)[k]? =
      (replacement hs d.generated e)[k]? := by
  unfold nextGeneratedScope
  exact look_foldl_of_hit (fun m : Hashes H => m[k]?) (fun e => Covers e.1 k) (fun e => (replacement hs d.generated e)[k]?)
    (fun out e he => keepScope_of_not_covers d.generated out e he)
    (fun out e he => keepScope_of_covers d.generated out e he) _ ⟨e, he, hcov⟩
    fun x hx hxc => by rw [huniq x hx hxc]

omit [DecidableEq H] [DecidableEq W] in
theorem replacement_self (generated : Option (Hashes H)) {c : ScopeChange J} (hw : c.wholeEnvironment = false)
    (removal : Bool) :
    (replacement hs generated (c, removal))[c.key]? =
      (generated.bind fun g => g[c.key]?).or (if removal then none else some hs.declined) := by
  have hearlier : earlierHashes generated c = match generated.bind fun g => g[c.key]? with
      | some h => {(c.key, h)}
      | none => ∅ := by
    unfold earlierHashes
    cases generated with
    | none => rfl
    | some g =>
      simp only [hw, Bool.false_eq_true, if_false, Option.bind_some]
  unfold replacement
  simp only [hearlier]
  cases generated.bind fun g => g[c.key]? with
  | some h =>
    simp only [isEmpty_singleton c.key h, Bool.not_false, if_true, Option.some_or]
    rw [getElem?_singleton, if_pos rfl]
  | none =>
    cases removal with
    | true => rfl
    | false =>
      simp only [Option.none_or, Bool.not_false, if_true, Bool.false_eq_true, if_false]
      rw [if_neg (by simp), getElem?_singleton, if_pos rfl]

/-- What is kept of a unit, on its three hashes. -/
def nextOf {D : Type} [DecidableEq D] (declined : D) (generated : Option (Option D)) (current fresh : Option D)
    (approval : ReimportApproval) (key : Key) : Option D :=
  match offer generated current fresh with
  | .conflict => if key ∈ approval.overwriteScope then fresh else some (generated.join.getD declined)
  | .removed => if key ∈ approval.deleteScope then fresh else generated.join
  | .nothing | .preserved | .updated => fresh

/-- What is kept at a key, from what it is without a declined change there and with one. -/
theorem kept_eq {D : Type} {x fresh kept : Option D} {declined : D} {key : Key}
    (hmem : (scopeOutcome hs d key).offer ≠ .nothing → key ∈ diffKeys hs d)
    (hfresh : (∀ e ∈ (diffScope hs d).declined approval, e.1.key ≠ key) → x = fresh)
    (hdeclined : ∀ e ∈ (diffScope hs d).declined approval, e.1.key = key →
      x = kept.or (if e.2 then none else some declined)) :
    x = match (scopeOutcome hs d key).offer with
      | .conflict => if key ∈ approval.overwriteScope then fresh else some (kept.getD declined)
      | .removed => if key ∈ approval.deleteScope then fresh else kept
      | .nothing | .preserved | .updated => fresh := by
  cases hout : scopeOutcome hs d key with
  | skipped =>
    refine hfresh fun e he hkey => ?_
    rcases (declined_key he).2.2 with h | h <;> rw [hkey, hout] at h <;> cases h.1
  | preserved =>
    refine hfresh fun e he hkey => ?_
    rcases (declined_key he).2.2 with h | h <;> rw [hkey, hout] at h <;> cases h.1
  | updated c =>
    refine hfresh fun e he hkey => ?_
    rcases (declined_key he).2.2 with h | h <;> rw [hkey, hout] at h <;> cases h.1
  | conflict c =>
    have hk := hmem (by rw [hout]; exact nofun)
    simp only [ScopeOutcome.offer]
    split_ifs with happ
    · refine hfresh fun e he hkey => ?_
      rcases (declined_key he).2.2 with h | h
      · exact h.2.2 (hkey ▸ happ)
      · rw [hkey, hout] at h
        cases h.1
    · have hkey : c.key = key := (change?_scopeOutcome (c := c) (by rw [hout]; rfl)).1
      rw [hdeclined (c, false) (mem_declined.2 ⟨key, hk, .inl ⟨hout, rfl, happ⟩⟩) hkey]
      cases kept <;> rfl
  | removed c =>
    have hk := hmem (by rw [hout]; exact nofun)
    simp only [ScopeOutcome.offer]
    split_ifs with happ
    · refine hfresh fun e he hkey => ?_
      rcases (declined_key he).2.2 with h | h
      · rw [hkey, hout] at h
        cases h.1
      · exact h.2.2 (hkey ▸ happ)
    · have hkey : c.key = key := (change?_scopeOutcome (c := c) (by rw [hout]; rfl)).1
      rw [hdeclined (c, true) (mem_declined.2 ⟨key, hk, .inr ⟨hout, rfl, happ⟩⟩) hkey]
      exact Option.or_none

section Units
variable (hd : d.Distinct)
include hd

omit [DecidableEq H] [DecidableEq W] hd in
theorem join_map_bind (generated : Option (Hashes H)) (k : Key) :
    (generated.map fun g => g[k]?).join = generated.bind fun g => g[k]? := by
  cases generated <;> rfl

theorem covers_unit {a : Address} (ha : a.Compared d) {e : ScopeChange J × Bool}
    (he : e ∈ (diffScope hs d).declined approval) (hcov : Covers e.1 a.text) : e.1.key = a.text := by
  rcases hcov with h | ⟨hwhole, hp⟩
  · exact h.symm
  · rw [(declined_key he).2.1, List.contains_iff_mem, mem_oneSided hd] at hwhole
    obtain ⟨id, hkey, hone⟩ := hwhole
    rw [hkey] at hp
    obtain ⟨l, rfl⟩ := (prefix_environment_iff a id).1 hp
    exact absurd hone ha

/-- What is kept of a unit that both sides may have. -/
theorem next_unit {a : Address} (ha : a.Compared d) :
    (nextGeneratedScope hs p (diffScope hs d) d.fresh requests d.generated approval)[a.text]? =
      nextOf hs.declined (d.generated.map fun g => g[a.text]?) (unitHash hs d.current a) (unitHash hs d.fresh a) approval
        a.text := by
  have hreq : ∀ op part, requestKey op part ≠ a.text := fun op part => requestKey_ne_text op part a
  have hfresh : (∀ e ∈ (diffScope hs d).declined approval, e.1.key ≠ a.text) →
      (nextGeneratedScope hs p (diffScope hs d) d.fresh requests d.generated approval)[a.text]? =
        unitHash hs d.fresh a := by
    intro hno
    rw [next_of_not_covered hreq fun e he hcov => hno e he (covers_unit hd ha he hcov),
      getElem?_unitHashes hs hd.freshIds hd.freshLabels]
    rfl
  have hdeclined : ∀ e ∈ (diffScope hs d).declined approval, e.1.key = a.text →
      (nextGeneratedScope hs p (diffScope hs d) d.fresh requests d.generated approval)[a.text]? =
        (d.generated.bind fun g => g[a.text]?).or (if e.2 then none else some hs.declined) := by
    intro e he hkey
    have hw : e.1.wholeEnvironment = false := by
      rw [(declined_key he).2.1, hkey, List.contains_eq_mem, decide_eq_false_iff_not, mem_oneSided hd]
      rintro ⟨id, hid, hone⟩
      have : a = .environment id none := Address.text_injective hid
      subst this
      exact ha hone
    rw [next_of_covered he (.inl hkey.symm) fun x hx hcov =>
      declined_unique hx he ((covers_unit hd ha hx hcov).trans hkey.symm), ← hkey]
    exact replacement_self d.generated hw e.2
  unfold nextOf
  rw [← offer_unit hd ha, join_map_bind]
  exact kept_eq (fun h => mem_diffKeys_of_offer hd ha h) hfresh hdeclined

/-! ### Whole environments -/

omit [DecidableEq H] [DecidableEq W] hd in
theorem getElem?_within (hashes : Hashes H) (key k : Key) [Decidable (k = key ∨ key ++ ['/'] <+: k)] :
    (within hashes key)[k]? = if k = key ∨ key ++ ['/'] <+: k then hashes[k]? else none := by
  have hiff : (k == key || (key ++ ['/']).isPrefixOf k) = true ↔ k = key ∨ key ++ ['/'] <+: k := by
    rw [Bool.or_eq_true, beq_iff_eq, List.isPrefixOf_iff_prefix]
  unfold within
  rw [ExtTreeMap.getElem?_filter']
  split_ifs with h
  · simp only [hiff.2 h]
    cases hashes[k]? <;> rfl
  · simp only [Bool.eq_false_iff.2 (mt hiff.1 h)]
    cases hashes[k]? <;> rfl

omit [DecidableEq H] [DecidableEq W] hd in
theorem exists_address {k : Key} (hk : k ∈ diffKeys hs d) : ∃ b : Address, k = b.text := by
  have hunits : ∀ s : ImportedScope J, k ∈ keysOf (scopeUnits s) → ∃ b : Address, k = b.text := by
    intro s h
    rw [scopeUnits_eq, keysOf, List.map_map] at h
    obtain ⟨e, -, rfl⟩ := List.mem_map.1 h
    exact ⟨e.1, rfl⟩
  unfold diffKeys at hk
  rcases List.mem_append.1 hk with h | h
  · exact hunits d.fresh h
  · exact hunits d.current (List.mem_filter.1 h).1

theorem covers_whole {id : Uuid} (hid : OneSided d id) {e : ScopeChange J × Bool}
    (he : e ∈ (diffScope hs d).declined approval) {k : Key}
    (hk : k = environmentKey id ∨ environmentKey id ++ ['/'] <+: k) (hcov : Covers e.1 k) :
    e.1.key = environmentKey id := by
  obtain ⟨hmem, hwhole, hout⟩ := declined_key he
  rcases hcov with rfl | ⟨hw, t, ht⟩
  · obtain ⟨b, hb⟩ := exists_address hmem
    rw [hb] at hk
    obtain ⟨label, rfl⟩ := (within_environment_iff b id).1 (by
      rw [Bool.or_eq_true, beq_iff_eq, List.isPrefixOf_iff_prefix]
      exact hk)
    cases label with
    | none => exact hb
    | some l =>
      have hskip : (scopeOutcome hs d e.1.key).offer = .nothing := by
        rw [hb]
        exact offer_of_skips ((skips_iff hd _).2 (.inl ⟨id, l, rfl, hid⟩))
      rcases hout with h | h <;> rw [h.1] at hskip <;> cases hskip
  · rw [hwhole, List.contains_iff_mem, mem_oneSided hd] at hw
    obtain ⟨j, hkey, -⟩ := hw
    obtain ⟨r, hr⟩ : ∃ r, k = environmentKey id ++ r := by
      rcases hk with rfl | ⟨r, hr⟩
      · exact ⟨[], (List.append_nil _).symm⟩
      · exact ⟨'/' :: r, by rw [← hr, List.append_assoc]; rfl⟩
    rw [hkey, List.append_assoc, hr] at ht
    rw [hkey, (environmentKey_append_inj ht).1]

omit [DecidableEq H] [DecidableEq W] hd in
theorem requestKey_ne_inside {id : Uuid} {k : Key} (hk : k = environmentKey id ∨ environmentKey id ++ ['/'] <+: k)
    (op : Text) (part : Part) : requestKey op part ≠ k := by
  intro h
  have hhead : k.head? = some 'e' := by
    rcases hk with rfl | ⟨r, rfl⟩
    · rfl
    · rw [List.append_assoc, head_environmentKey]
  rw [← h] at hhead
  have hreq : (requestKey op part).head? = some 'r' := rfl
  rw [hreq] at hhead
  exact absurd hhead (by decide)

/-- The hashes kept for an environment that only one side has and whose change is declined. -/
theorem within_next_declined {id : Uuid} (hid : OneSided d id) {e : ScopeChange J × Bool}
    (he : e ∈ (diffScope hs d).declined approval) (hkey : e.1.key = environmentKey id) :
    within (nextGeneratedScope hs p (diffScope hs d) d.fresh requests d.generated approval) (environmentKey id) =
      replacement hs d.generated e := by
  classical
  have hw : e.1.wholeEnvironment = true := by
    rw [(declined_key he).2.1, hkey, List.contains_iff_mem, mem_oneSided hd]
    exact ⟨id, rfl, hid⟩
  apply ExtTreeMap.ext_getElem?
  intro k
  rw [getElem?_within]
  split_ifs with hk
  · have hcov : Covers e.1 k := by
      unfold Covers
      rw [hkey]
      exact hk.imp_right fun h => ⟨hw, h⟩
    exact next_of_covered he hcov fun x hx hxc =>
      declined_unique hx he ((covers_whole hd hid hx hk hxc).trans hkey.symm)
  · have hcov : ¬ Covers e.1 k := by
      unfold Covers
      rw [hkey]
      exact fun h => hk (h.imp_right And.right)
    unfold replacement
    split_ifs
    · exact (earlierHashes_eq_none d.generated e.1 hcov).symm
    · rw [getElem?_singleton, if_neg fun h => hcov (.inl h.symm)]
    · exact ExtTreeMap.getElem?_empty.symm

theorem within_next_taken {id : Uuid} (hid : OneSided d id)
    (hno : ∀ e ∈ (diffScope hs d).declined approval, e.1.key ≠ environmentKey id) :
    within (nextGeneratedScope hs p (diffScope hs d) d.fresh requests d.generated approval) (environmentKey id) =
      within (unitHashes hs d.fresh) (environmentKey id) := by
  classical
  apply ExtTreeMap.ext_getElem?
  intro k
  rw [getElem?_within, getElem?_within]
  split_ifs with hk
  · exact next_of_not_covered (requestKey_ne_inside hk) fun e he hcov => hno e he (covers_whole hd hid he hk hcov)
  · rfl

omit [DecidableEq H] [DecidableEq W] hd in
theorem wholeAt_replacement {id : Uuid} {e : ScopeChange J × Bool} (hkey : e.1.key = environmentKey id)
    (hw : e.1.wholeEnvironment = true) :
    (if (replacement hs d.generated e).isEmpty then none else some (hs.all (replacement hs d.generated e))) =
      (d.generated.bind fun g => wholeAt hs g (environmentKey id)).or
        (if e.2 then none else some (hs.all {(environmentKey id, hs.declined)})) := by
  have hearlier : earlierHashes d.generated e.1 = (d.generated.map fun g => within g (environmentKey id)).getD ∅ := by
    unfold earlierHashes
    cases d.generated with
    | none => rfl
    | some g =>
      simp only [hw, if_true, hkey]
      rfl
  have hnone : (d.generated.bind fun g => wholeAt hs g (environmentKey id)) =
      if (earlierHashes d.generated e.1).isEmpty then none else some (hs.all (earlierHashes d.generated e.1)) := by
    rw [hearlier]
    cases d.generated with
    | none => rfl
    | some g => rfl
  rw [hnone]
  unfold replacement
  cases hempty : (earlierHashes d.generated e.1).isEmpty with
  | false => simp [hempty]
  | true =>
    cases hremoval : e.2 with
    | true => simp
    | false =>
      rw [hkey]
      simp

/-- What is kept of an environment that only one side has. -/
theorem next_whole {id : Uuid} (hid : OneSided d id) :
    wholeAt hs (nextGeneratedScope hs p (diffScope hs d) d.fresh requests d.generated approval) (environmentKey id) =
      nextOf (hs.all {(environmentKey id, hs.declined)}) (d.generated.map fun g => wholeAt hs g (environmentKey id))
        (wholeHash hs d.current id) (wholeHash hs d.fresh id) approval (environmentKey id) := by
  have hjoin : (d.generated.map fun g => wholeAt hs g (environmentKey id)).join =
      d.generated.bind fun g => wholeAt hs g (environmentKey id) := by
    cases d.generated <;> rfl
  have hfresh : (∀ e ∈ (diffScope hs d).declined approval, e.1.key ≠ environmentKey id) →
      wholeAt hs (nextGeneratedScope hs p (diffScope hs d) d.fresh requests d.generated approval) (environmentKey id) =
        wholeHash hs d.fresh id := by
    intro hno
    rw [← wholeAt_unitHashes hd.freshIds hd.freshLabels]
    unfold wholeAt
    rw [within_next_taken hd hid hno]
  have hdeclined : ∀ e ∈ (diffScope hs d).declined approval, e.1.key = environmentKey id →
      wholeAt hs (nextGeneratedScope hs p (diffScope hs d) d.fresh requests d.generated approval) (environmentKey id) =
        (d.generated.bind fun g => wholeAt hs g (environmentKey id)).or
          (if e.2 then none else some (hs.all {(environmentKey id, hs.declined)})) := by
    intro e he hkey
    have hw : e.1.wholeEnvironment = true := by
      rw [(declined_key he).2.1, hkey, List.contains_iff_mem, mem_oneSided hd]
      exact ⟨id, rfl, hid⟩
    unfold wholeAt
    rw [within_next_declined hd hid he hkey]
    exact wholeAt_replacement hkey hw
  unfold nextOf
  rw [← offer_whole hd hid, hjoin]
  exact kept_eq (fun _ => environmentKey_mem_diffKeys hd hid) hfresh hdeclined

end Units

/-- What is offered again of what was offered. -/
def Offer.again (overwrite delete known : Prop) [Decidable overwrite] [Decidable delete] [Decidable known] :
    Offer → Offer
  | .conflict => if overwrite then .nothing else .conflict
  | .removed => if delete then .nothing else if known then .removed else .preserved
  | .preserved => .preserved
  | .updated | .nothing => .nothing

/-- What is offered of a unit by the same source again: what was taken is not, a declined conflict is, and a declined
removal is where a hash was known. -/
theorem offer_again {D : Type} [DecidableEq D] {declined : D} (generated : Option (Option D)) {current fresh : Option D}
    (approval : ReimportApproval) (key : Key) (hc : current ≠ some declined) (hf : fresh ≠ some declined) :
    offer (some (nextOf declined generated current fresh approval key))
        (if Taken generated current fresh approval key then fresh else current) fresh =
      (offer generated current fresh).again (key ∈ approval.overwriteScope) (key ∈ approval.deleteScope)
        (generated.join.isSome = true) := by
  have htaken := taken_iff_offer generated current fresh approval key
  have hself : ∀ g : Option (Option D), offer g fresh fresh = .nothing := fun g => if_pos rfl
  have hknown : ∀ x : Option D, generated ≠ some x → x ≠ some declined → some (generated.join.getD declined) ≠ x := by
    intro x hg hx heq
    cases hj : generated.join with
    | none =>
      rw [hj] at heq
      exact hx heq.symm
    | some h =>
      rw [hj] at heq
      exact hg (by rw [Option.join_eq_some_iff.1 hj, ← heq]; rfl)
  unfold nextOf
  cases ho : offer generated current fresh with
  | nothing =>
    have hcf : current = fresh := by
      unfold offer at ho
      split_ifs at ho with h
      exact h
    rw [hcf, ite_self]
    exact hself _
  | preserved =>
    have hcf : current ≠ fresh := by
      intro h
      unfold offer at ho
      rw [if_pos h] at ho
      cases ho
    rw [ho] at htaken
    have hnot : ¬ Taken generated current fresh approval key := fun h => by simpa using htaken.1 h
    simp only [if_neg hnot]
    unfold offer
    rw [if_neg hcf, if_pos rfl]
    rfl
  | updated =>
    rw [ho] at htaken
    rw [if_pos (htaken.2 (.inl rfl))]
    exact hself _
  | conflict =>
    obtain ⟨hcf, hgf, hnone, hgc⟩ : current ≠ fresh ∧ generated ≠ some fresh ∧ fresh ≠ none ∧
        generated ≠ some current := by
      unfold offer at ho
      split_ifs at ho with h₁ h₂ h₃ h₄
      exact ⟨h₁, h₂, h₃, h₄⟩
    rw [ho] at htaken
    by_cases happ : key ∈ approval.overwriteScope
    · rw [if_pos (htaken.2 (.inr (.inl ⟨rfl, happ⟩)))]
      simp only [Offer.again, if_pos happ]
      exact hself _
    · have hnot : ¬ Taken generated current fresh approval key := fun h => by simpa [happ] using htaken.1 h
      simp only [Offer.again, if_neg hnot, if_neg happ]
      unfold offer
      rw [if_neg hcf, if_neg fun h => hknown fresh hgf hf (Option.some.inj h), if_neg hnone,
        if_neg fun h => hknown current hgc hc (Option.some.inj h)]
  | removed =>
    obtain ⟨hcf, hnone⟩ : current ≠ fresh ∧ fresh = none := by
      unfold offer at ho
      split_ifs at ho with h₁ h₂ h₃ h₄
      exact ⟨h₁, h₃⟩
    rw [ho] at htaken
    by_cases happ : key ∈ approval.deleteScope
    · rw [if_pos (htaken.2 (.inr (.inr ⟨rfl, happ⟩)))]
      simp only [Offer.again, if_pos happ]
      exact hself _
    · have hnot : ¬ Taken generated current fresh approval key := fun h => by simpa [happ] using htaken.1 h
      simp only [Offer.again, if_neg hnot, if_neg happ]
      unfold offer
      rw [if_neg hcf]
      subst hnone
      cases hj : generated.join with
      | none => rfl
      | some h => rfl

end Scope

/-! ## The details of requests -/

section Details
variable {d : ScopeDiff J H} {p : RequestPlan J H} {fresh : List (RequestDefinition J H)} {approval : ReimportApproval}

theorem not_covers_request (hd : d.Distinct) {e : ScopeChange J × Bool} (he : e ∈ (diffScope hs d).declined approval)
    (op : Text) (part : Part) : ¬ Covers e.1 (requestKey op part) := by
  obtain ⟨hmem, hwhole, -⟩ := declined_key he
  rintro (h | ⟨hw, t, ht⟩)
  · obtain ⟨b, hb⟩ := exists_address hmem
    exact requestKey_ne_text op part b (h.trans hb)
  · rw [hwhole, List.contains_iff_mem, mem_oneSided hd] at hw
    obtain ⟨id, hkey, -⟩ := hw
    rw [hkey] at ht
    exact requestKey_ne_inside (.inr ⟨t, ht⟩) op part rfl

theorem next_detail (hd : d.Distinct) (op : Text) (part : Part) :
    (nextGeneratedScope hs p (diffScope hs d) d.fresh fresh d.generated approval)[requestKey op part]? =
      ((earlierDetails p approval).foldl (keepDetail hs d.generated)
        (unitHashes hs d.fresh ∪ requestUnitHashes hs fresh))[requestKey op part]? := by
  unfold nextGeneratedScope
  exact look_foldl_of_not_hit (fun m : Hashes H => m[requestKey op part]?) (fun e => Covers e.1 (requestKey op part))
    (fun out e he => keepScope_of_not_covers d.generated out e he) _ fun e he => not_covers_request hd he op part

/-- A detail that is not kept as it was has the hash of the fresh import. -/
theorem next_detail_fresh (hd : d.Distinct) {op : Text} {part : Part}
    (h : ∀ removal, (op, part, removal) ∉ earlierDetails p approval) :
    (nextGeneratedScope hs p (diffScope hs d) d.fresh fresh d.generated approval)[requestKey op part]? =
      (requestUnitHashes hs fresh)[requestKey op part]? := by
  have hunits : (unitHashes hs d.fresh)[requestKey op part]? = none := by
    rw [Option.eq_none_iff_forall_ne_some]
    intro x hx
    obtain ⟨a, v, -, ha, -⟩ := (unitHashes_eq_some hs hd.freshIds hd.freshLabels).1 hx
    exact requestKey_ne_text op part a ha.symm
  rw [next_detail hd, look_foldl_of_not_hit (fun m : Hashes H => m[requestKey op part]?)
    (fun e => requestKey e.1 e.2.1 = requestKey op part)
    (fun out e he => keepDetail_of_ne d.generated out e he), ExtTreeMap.getElem?_union, hunits, Option.or_none]
  rintro ⟨op', part', removal⟩ he hkey
  obtain ⟨rfl, rfl⟩ := requestKey_injective2 hkey
  exact h removal he

theorem next_detail_kept (hd : d.Distinct) {op : Text} {part : Part} {removal : Bool}
    (hmem : (op, part, removal) ∈ earlierDetails p approval)
    (h : ∀ x, (op, part, x) ∈ earlierDetails p approval → x = removal) :
    (nextGeneratedScope hs p (diffScope hs d) d.fresh fresh d.generated approval)[requestKey op part]? =
      keptDetail hs d.generated (op, part, removal) := by
  rw [next_detail hd]
  refine look_foldl_of_hit (fun m : Hashes H => m[requestKey op part]?)
    (fun e => requestKey e.1 e.2.1 = requestKey op part) (keptDetail hs d.generated)
    (fun out e he => keepDetail_of_ne d.generated out e he) (fun out e he => keepDetail_self d.generated out e he) _
    ⟨_, hmem, rfl⟩ ?_
  rintro ⟨op', part', x⟩ he hkey
  obtain ⟨rfl, rfl⟩ := requestKey_injective2 hkey
  rw [h x he]

omit [DecidableEq H] [DecidableEq W] in
/-- The hash of a detail of a fresh request. -/
theorem requestUnitHashes_detail (hbuilt : Built hs fresh) (hfresh : (fresh.map freshKey).Nodup)
    {f : RequestDefinition J H} (hf : f ∈ fresh) {part : Part} (hpart : part ∈ details) :
    (requestUnitHashes hs fresh)[requestKey (freshKey f) part]? = some (hs.unit (detail f part)) := by
  have hunits : fresh.flatMap requestUnits =
      family freshKey (fun q => details.map fun part => (part, detail q part)) requestKey fresh := by
    unfold family
    apply List.flatMap_congr
    intro q hq
    obtain ⟨src, hsrc, -⟩ := hbuilt q hq
    unfold requestUnits freshKey
    rw [hsrc, List.map_map]
    rfl
  have hnodup : (keysOf (fresh.flatMap requestUnits)).Nodup := by
    rw [hunits]
    apply nodup_family freshKey _ requestKey_injective2 hfresh
    intro q _
    rw [keysOf, List.map_map, show (Prod.fst ∘ fun part => (part, detail q part)) = id from rfl, List.map_id]
    decide
  have hnodup' : (keysOf ((fresh.flatMap requestUnits).map fun e => (e.1, hs.unit e.2))).Nodup := by
    rw [keysOf, List.map_map]
    exact hnodup
  unfold requestUnitHashes
  rw [getElem?_ofList_eq_some hnodup']
  refine List.mem_map.2 ⟨(requestKey (freshKey f) part, detail f part), ?_, rfl⟩
  rw [hunits, mem_family freshKey _ requestKey_injective2]
  exact ⟨f, hf, rfl, List.mem_map.2 ⟨part, hpart, rfl⟩⟩

end Details

end Model

end Anvil.Import
