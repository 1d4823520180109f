import Anvil.Lib.Climb
import Anvil.Lib.Run
import Anvil.Portability.Graph

/-!
# Checking an imported graph (`anvil-portability/src/validate.rs`)

What the code calls outside is a parameter (`Outside`): ids as text, an execution record in a value of the history, and the
linked files that a specification names.

* `validateAndNormalize` : the checks of a graph, in order, and the graph that is imported with its warnings;
* `Closed` : the graphs that pass; `Safe`, `InnerLinks` : what an imported graph does not turn on, and where its links lead;
* `validate_eq_ok` : the checks passed, and what they made;
* `validate_exact` : exactly the closed graphs pass, and what they become passes again unchanged.
-/

namespace Anvil.Portability
open Anvil.Lib

structure ExecutionRecord (ι δ : Type) where
  id : ι
  workspaceId : Option ι
  requestId : Option ι
  revisionId : Option ι
  environmentId : Option ι
  rest : δ

structure Outside (ι δ ν : Type) where
  parseId : Text → Option ι
  showId : ι → Text
  fromValue : ν → Option (ExecutionRecord ι δ)
  toValue : ExecutionRecord ι δ → ν
  linkedPaths : RequestSpec δ → List Text

/-! ## Checks -/

def showNat (n : Nat) : Text := Nat.toDigits 10 n

/-- The first problem of a list is the error. -/
def checkEach {α : Type} (l : List α) (problem : α → Option Text) : Except Text Unit :=
  (l.findSome? problem).elim (.ok ()) .error

/-- A map filled from a list: the last value of a key is the one that stays. -/
def lastOf {κ α : Type} [DecidableEq κ] (l : List (κ × α)) (k : κ) : Option α :=
  (l.reverse.find? fun e => e.1 = k).map Prod.snd

def maxStoredRulesets : Nat := 32
def maxStoredRulesetBytes : Nat := 1024 * 1024
def maxStoredRulesetsBytes : Nat := 8 * 1024 * 1024

section
variable {ι δ ν : Type}

def validateRulesetLimits (g : PortableGraph ι δ ν) (source : Text) : Except Text Unit := do
  refuseIf (maxStoredRulesets < g.rulesets.length)
    ("a ".toList ++ source ++ " has more than ".toList ++ showNat maxStoredRulesets ++ " API rulesets".toList)
  checkEach g.rulesets fun r => if maxStoredRulesetBytes < utf8Len r.text then
    some ("API ruleset '".toList ++ r.name ++ "' in the ".toList ++ source ++ " exceeds the ".toList ++
      showNat (maxStoredRulesetBytes / (1024 * 1024)) ++ " MiB limit".toList) else none
  refuseIf (maxStoredRulesetsBytes < (g.rulesets.map fun r => utf8Len r.text).sum)
    ("API rulesets in the ".toList ++ source ++ " together exceed the ".toList ++
      showNat (maxStoredRulesetsBytes / (1024 * 1024)) ++ " MiB limit".toList)

/-- The kind, the name and the workspace of each object of a workspace. -/
def members (g : PortableGraph ι δ ν) : List (Text × Text × ι) :=
  g.folders.map (fun x => ("folder".toList, x.name, x.workspaceId)) ++
  g.requests.map (fun x => ("request".toList, x.name, x.workspaceId)) ++
  g.environments.map (fun x => ("environment".toList, x.name, x.workspaceId)) ++
  g.tlsProfiles.map (fun x => ("TLS profile".toList, x.name, x.workspaceId)) ++
  g.proxyProfiles.map (fun x => ("proxy profile".toList, x.name, x.workspaceId)) ++
  g.integrations.map (fun x => ("integration profile".toList, x.name, x.workspaceId)) ++
  g.datasets.map (fun x => ("dataset".toList, x.name, x.workspaceId)) ++
  g.scenarios.map (fun x => ("scenario".toList, x.name, x.workspaceId)) ++
  g.loadPlans.map (fun x => ("load plan".toList, x.name, x.workspaceId))

def workspaceIds (g : PortableGraph ι δ ν) : List ι := g.workspaces.map fun w => w.id

def folderWs (g : PortableGraph ι δ ν) : List (ι × ι) := g.folders.map fun f => (f.id, f.workspaceId)

def requestWs (g : PortableGraph ι δ ν) : List (ι × ι) := g.requests.map fun r => (r.id, r.workspaceId)

def datasetWs (g : PortableGraph ι δ ν) : List (ι × ι) := g.datasets.map fun d => (d.id, d.workspaceId)

def environmentWs (g : PortableGraph ι δ ν) : List (ι × ι) := g.environments.map fun e => (e.id, e.workspaceId)

def parents (g : PortableGraph ι δ ν) : Parents ι := g.folders.map fun f => (f.id, f.parentId)

variable [DecidableEq ι]

def checkMembers (g : PortableGraph ι δ ν) : Except Text Unit :=
  checkEach (members g) fun m => if m.2.2 ∈ workspaceIds g then none else
    some (m.1 ++ " '".toList ++ m.2.1 ++ "' belongs to a workspace that is not in the bundle".toList)

/-- Not an object of this workspace. -/
def outside (map : List (ι × ι)) (w id : ι) : Bool := lastOf map id ≠ some w

def checkFolderParents (g : PortableGraph ι δ ν) : Except Text Unit :=
  checkEach g.folders fun f => if f.parentId.any (outside (folderWs g) f.workspaceId) then
    some ("folder '".toList ++ f.name ++ "' has a parent that is not in the bundle or its workspace".toList) else none

def checkCycles (g : PortableGraph ι δ ν) : Except Text Unit :=
  (climbAll (fun f : Folder ι δ => f.id) (parents g) (fun _ => none) g.folders).elim (.ok ()) fun f =>
    .error ("folder '".toList ++ f.name ++ "' is part of a parent cycle".toList)

def checkRequestFolders (g : PortableGraph ι δ ν) : Except Text Unit :=
  checkEach g.requests fun r => if r.folderId.any (outside (folderWs g) r.workspaceId) then
    some ("request '".toList ++ r.name ++ "' is in a folder that is not in the bundle or its workspace".toList) else none

def checkScenarios (g : PortableGraph ι δ ν) : Except Text Unit :=
  checkEach g.scenarios fun sc =>
    if sc.steps.any (outside (requestWs g) sc.workspaceId) then
      some ("scenario '".toList ++ sc.name ++ "' runs a request that is not in the bundle or its workspace".toList)
    else if sc.datasetId.any (outside (datasetWs g) sc.workspaceId) then
      some ("scenario '".toList ++ sc.name ++ "' uses a dataset that is not in the bundle or its workspace".toList)
    else none

def checkLoadPlans (g : PortableGraph ι δ ν) : Except Text Unit :=
  checkEach g.loadPlans fun p =>
    if (p.chain ++ p.mix).any (outside (requestWs g) p.workspaceId) then
      some ("load plan '".toList ++ p.name ++ "' runs a request that is not in the bundle or its workspace".toList)
    else if p.datasetId.any (outside (datasetWs g) p.workspaceId) then
      some ("load plan '".toList ++ p.name ++ "' uses a dataset that is not in the bundle or its workspace".toList)
    else if p.environmentId.any (outside (environmentWs g) p.workspaceId) then
      some ("load plan '".toList ++ p.name ++ "' uses an environment that is not in the bundle or its workspace".toList)
    else none

variable [DecidableEq δ] (o : Outside ι δ ν)

/-- The revisions so far and the rest; identical copies collapse to one. -/
def dedupe : List (RequestRevision ι δ) → List (RequestRevision ι δ) → Except Text (List (RequestRevision ι δ))
  | kept, [] => .ok kept
  | kept, r :: rest =>
    match kept.find? fun q => q.id = r.id with
    | some q =>
      if q = r then dedupe kept rest
      else .error ("revision ".toList ++ o.showId r.id ++ " appears twice with different contents".toList)
    | none => dedupe (kept ++ [r]) rest

/-- The revisions of requests in the graph. -/
def ownRevisions (g : PortableGraph ι δ ν) (revisions : List (RequestRevision ι δ)) : List (RequestRevision ι δ) :=
  revisions.filter fun r => r.requestId ∈ g.requests.map fun q => q.id

/-- A request keeps the link to a revision of its own. -/
def keepRevision (revisions : List (RequestRevision ι δ)) (r : RequestDefinition ι δ) : RequestDefinition ι δ :=
  { r with revisionId := r.revisionId.filter fun v => (v, r.id) ∈ revisions.map fun q => (q.id, q.requestId) }

/-- The graph with its own revisions. -/
def withRevisions (g : PortableGraph ι δ ν) (revisions : List (RequestRevision ι δ)) : PortableGraph ι δ ν :=
  { g with revisions := ownRevisions g revisions, requests := g.requests.map (keepRevision (ownRevisions g revisions)) }

/-! ## The history -/

structure HistoryState (ι ν : Type) where
  ids : List ι
  outside : Nat
  unreadable : Nat
  kept : List ν

/-- A record of a workspace keeps the links to objects of that workspace. -/
def keepLinks (g : PortableGraph ι δ ν) (w : ι) (r : ExecutionRecord ι δ) : ExecutionRecord ι δ :=
  let request := r.requestId.filter fun q => lastOf (requestWs g) q = some w
  { r with
    requestId := request
    revisionId := r.revisionId.filter fun v => request.any fun q => lastOf
      (g.revisions.map fun x => (x.id, x.requestId)) v = some q
    environmentId := r.environmentId.filter fun e => lastOf (environmentWs g) e = some w }

def historyStep (g : PortableGraph ι δ ν) (s : HistoryState ι ν) (h : ν) : Except Text (HistoryState ι ν) :=
  match o.fromValue h with
  | none => .ok { s with unreadable := s.unreadable + 1 }
  | some r =>
    if r.id ∈ s.ids then .error ("history record ".toList ++ o.showId r.id ++ " appears twice".toList)
    else match r.workspaceId.filter fun w => w ∈ workspaceIds g with
      | none => .ok { s with ids := r.id :: s.ids, outside := s.outside + 1 }
      | some w => .ok { s with ids := r.id :: s.ids, kept := s.kept ++ [o.toValue (keepLinks g w r)] }

def runHistory (g : PortableGraph ι δ ν) : Except Text (HistoryState ι ν) := g.history.foldlM (historyStep o g) ⟨[], 0, 0, []⟩

/-! ## Ids and secrets -/

def writtenIds (g : PortableGraph ι δ ν) : List (Text × ι × Text) :=
  allIds g ++ g.revisions.map fun r => ("revision".toList, r.id, [])

def checkUnique : List ι → List (Text × ι × Text) → Except Text Unit
  | _, [] => .ok ()
  | seen, x :: rest =>
    if x.2.1 ∈ seen then .error (x.1 ++ " '".toList ++ x.2.2 ++ "' reuses the id ".toList ++ o.showId x.2.1 ++
      " of another object in the bundle".toList)
    else checkUnique (x.2.1 :: seen) rest

def checkSecrets (g : PortableGraph ι δ ν) : Except Text Unit :=
  checkEach g.secrets fun s =>
    if (o.parseId s.1).isNone then some ("secret '".toList ++ s.2.label ++ "' has an invalid id".toList)
    else if ((s.2.workspaceId.bind o.parseId).any fun w => w ∈ workspaceIds g) then none
    else some ("secret '".toList ++ s.2.label ++ "' belongs to a workspace that is not in the bundle".toList)

/-! ## Safety -/

def Settings.forwards (s : Settings δ) : Bool := s.redirects.any (·.forwardCredentialsCrossOrigin)

def Settings.sendsEarly (s : Settings δ) : Bool := s.earlyData.any (·.enabled)

/-- The settings without forwarded credentials and without early data. -/
def Settings.safe (s : Settings δ) : Settings δ :=
  { s with
    redirects := s.redirects.map fun r => { r with forwardCredentialsCrossOrigin := false }
    earlyData := s.earlyData.map fun e => { e with enabled := false } }

/-- The profile without the legacy opt-in, then without the sending of tokens that failed their checks. -/
def AuthConfig.safe (a : AuthConfig δ) : AuthConfig δ := (jwtSvidSafety (disableLegacy a).1).1

/-- The settings that an import changes. -/
def allSettings (g : PortableGraph ι δ ν) : List (Settings δ) :=
  g.workspaces.map (·.settings) ++ g.folders.map (·.settings) ++ g.requests.map (·.spec.settings) ++ g.appSettings.toList

/-- The auth profiles that an import changes. -/
def allAuth (g : PortableGraph ι δ ν) : List (AuthConfig δ) :=
  g.requests.map (·.spec.auth) ++ g.folders.map (·.auth) ++ g.workspaces.map (·.auth)

def normalizeFolder (g : PortableGraph ι δ ν) (f : Folder ι δ) : Folder ι δ :=
  { f with
    settings := f.settings.safe
    auth := f.auth.safe
    useWorkspaceScope := false
    importEnvironmentIds := f.importEnvironmentIds.filter fun e => lastOf (environmentWs g) e = some f.workspaceId }

/-- The graph after the safety passes. -/
def normalize (g : PortableGraph ι δ ν) : PortableGraph ι δ ν :=
  { g with
    workspaces := g.workspaces.map fun w => { w with settings := w.settings.safe, auth := w.auth.safe }
    folders := g.folders.map (normalizeFolder g)
    requests := g.requests.map fun r =>
      { r with spec := { r.spec with settings := r.spec.settings.safe, auth := r.spec.auth.safe } }
    tlsProfiles := g.tlsProfiles.map fun t => { t with verify := true }
    integrations := g.integrations.map fun i => { i with requireVerifiedTls := true }
    scenarios := g.scenarios.map fun sc => { sc with trusted := false }
    loadPlans := g.loadPlans.map fun p => { p with trusted := false }
    appSettings := g.appSettings.map Settings.safe }

/-! ## Warnings -/

/-- A warning about a number of things, where there are any. -/
def counted (n : Nat) (text : String) : List Text := if 0 < n then [showNat n ++ text.toList] else []

def linkedFiles (g : PortableGraph ι δ ν) : List Text :=
  (g.requests.flatMap fun r => (o.linkedPaths r.spec).map fun p => "request '".toList ++ r.name ++ "': ".toList ++ p) ++
    g.datasets.filterMap fun d => d.linkedPath.map fun p => "dataset '".toList ++ d.name ++ "': ".toList ++ p

/-- What the safety passes say of a graph. -/
def safetyWarnings (g : PortableGraph ι δ ν) : List Text :=
  g.tlsProfiles.filterMap (fun t => if t.verify then none else
    some ("TLS profile '".toList ++ t.name ++ ("' had certificate verification disabled; the import re-enabled it. " ++
      "Disable it again deliberately if you need a scoped bypass.").toList)) ++
  counted g.scenarios.length " scenario(s) imported as untrusted; review them before running." ++
  counted g.loadPlans.length " load plan(s) imported as untrusted; they never start automatically." ++
  g.integrations.filterMap (fun i => if i.requireVerifiedTls then none else
    some ("Gateway profile '".toList ++ i.name ++
      ("' trusted markers over unverified connections; the import turned that off. " ++
        "Re-enable it deliberately for a local lab.").toList)) ++
  counted ((allSettings g).countP Settings.forwards)
    " item(s) forwarded credentials to other origins on redirect; the import turned that off." ++
  counted ((allSettings g).countP Settings.sendsEarly)
    (" item(s) sent requests as replayable 0-RTT early data; the import turned that off. " ++
      "Re-enable it deliberately where replay is harmless.") ++
  counted ((allAuth g).map fun a => (disableLegacy a).2).sum
    " auth profile(s) requested the replayable legacy HMAC v1 opt-in; the opt-in was turned off on import." ++
  counted ((allAuth g).map fun a => (jwtSvidSafety (disableLegacy a).1).2.1).sum
    " JWT-SVID auth profile(s) sent tokens that failed Anvil's local checks; the import turned that off." ++
  counted ((allAuth g).map fun a => (jwtSvidSafety (disableLegacy a).1).2.2).sum
    (" JWT-SVID auth profile(s) fetch tokens from this machine's SPIFFE Workload API and send them to the imported URLs; " ++
      "review their audiences and destinations before sending.") ++
  (if (g.tlsProfiles.filter (·.fromWorkloadApi)).isEmpty then [] else
    ["TLS profile(s) ".toList ++ ", ".toList.intercalate ((g.tlsProfiles.filter (·.fromWorkloadApi)).map (·.name)) ++
      (" present this machine's X.509-SVID from the SPIFFE Workload API; check their host bindings before sending.").toList])
        ++
  counted (g.folders.countP (·.useWorkspaceScope))
    (" imported collection(s) used their workspace's variables, environment and auth; the import turned that off. " ++
      "Turn it on again deliberately.") ++
  (if (linkedFiles o (normalize g)).isEmpty then [] else
    [showNat (linkedFiles o (normalize g)).length ++
      (" linked local file(s) name files on the machine that made the bundle and stay " ++
      "unused until chosen on this device (or attach the files instead): ").toList ++
      "; ".toList.intercalate (linkedFiles o (normalize g))])

/-- What the passes before them left out. -/
def leftOutWarnings (revisions : Nat) (s : HistoryState ι ν) : List Text :=
  counted revisions " request revision(s) belonged to requests that are not in the bundle and were left out." ++
  counted s.outside " history record(s) of workspaces that are not in the bundle were left out." ++
  counted s.unreadable " history record(s) are not valid execution records and were left out."

def validateAndNormalize (g : PortableGraph ι δ ν) : Except Text (PortableGraph ι δ ν × List Text) := do
  validateRulesetLimits g "bundle".toList
  checkMembers g
  checkFolderParents g
  checkCycles g
  checkRequestFolders g
  checkScenarios g
  checkLoadPlans g
  let revisions ← dedupe o [] g.revisions
  let g := withRevisions g revisions
  let s ← runHistory o g
  let g := { g with history := s.kept }
  checkUnique o [] (writtenIds g)
  checkSecrets o g
  pure (normalize g, leftOutWarnings (revisions.length - g.revisions.length) s ++ safetyWarnings o g)

end

/-! ## What each check accepts -/

theorem checkEach_ok {α : Type} {l : List α} {problem : α → Option Text} :
    checkEach l problem = .ok () ↔ ∀ a ∈ l, problem a = none := by
  rw [← List.findSome?_eq_none_iff]
  unfold checkEach
  cases l.findSome? problem with
  | none => simp
  | some e => simp

theorem problem_none {p : Prop} [Decidable p] {text : Text} {x : Option Text} :
    (if p then some text else x) = none ↔ ¬p ∧ x = none := by
  by_cases hp : p
  · simp [hp]
  · simp [hp]

theorem allowed_none {p : Prop} [Decidable p] {text : Text} : (if p then none else some text) = none ↔ p := by
  by_cases hp : p
  · simp [hp]
  · simp [hp]

section Maps
variable {κ α : Type} [DecidableEq κ] {l : List (κ × α)} {k : κ} {v : α}

theorem mem_of_lastOf (h : lastOf l k = some v) : (k, v) ∈ l := by
  obtain ⟨e, he, rfl⟩ := Option.map_eq_some_iff.1 h
  have hkey : e.1 = k := by simpa using List.find?_some he
  rw [← hkey]
  exact List.mem_reverse.1 (List.mem_of_find?_eq_some he)

theorem lastOf_eq_some (hl : (l.map Prod.fst).Nodup) : lastOf l k = some v ↔ (k, v) ∈ l := by
  refine ⟨mem_of_lastOf, fun h => ?_⟩
  have hsome : (lastOf l k).isSome := by
    unfold lastOf
    rw [Option.isSome_map, List.find?_isSome]
    exact ⟨(k, v), List.mem_reverse.2 h, decide_eq_true rfl⟩
  obtain ⟨w, hw⟩ := Option.isSome_iff_exists.1 hsome
  rw [hw, (Prod.mk.inj (List.inj_on_of_nodup_map hl (mem_of_lastOf hw) h rfl)).2]

end Maps

section Ids
variable {ι δ : Type}

/-- Fresh ids, one after the other. -/
def Fresh (seen : List ι) (l : List (ExecutionRecord ι δ)) : Prop := (l.map fun r => r.id).Nodup ∧ ∀ r ∈ l, r.id ∉ seen

theorem fresh_cons {seen : List ι} {r : ExecutionRecord ι δ} {l : List (ExecutionRecord ι δ)} :
    Fresh seen (r :: l) ↔ r.id ∉ seen ∧ Fresh (r.id :: seen) l := by
  unfold Fresh
  rw [List.map_cons, List.nodup_cons, List.forall_mem_cons]
  constructor
  · rintro ⟨⟨hself, hnodup⟩, hr, hl⟩
    refine ⟨hr, hnodup, fun x hx hmem => ?_⟩
    rcases List.mem_cons.1 hmem with he | hmem
    · exact hself (List.mem_map.2 ⟨x, hx, he⟩)
    · exact hl x hx hmem
  · rintro ⟨hr, hnodup, hl⟩
    refine ⟨⟨fun hmem => ?_, hnodup⟩, hr, fun x hx hmem => hl x hx (List.mem_cons_of_mem _ hmem)⟩
    obtain ⟨x, hx, he⟩ := List.mem_map.1 hmem
    exact hl x hx (he ▸ List.mem_cons_self)

end Ids

section
variable {ι δ ν : Type} [DecidableEq ι]

theorem outside_eq_false {map : List (ι × ι)} (hmap : (map.map Prod.fst).Nodup) {w id : ι} :
    outside map w id = false ↔ (id, w) ∈ map := by
  rw [← lastOf_eq_some hmap]
  unfold outside
  simp

theorem checkUnique_ok (o : Outside ι δ ν) {seen : List ι} {l : List (Text × ι × Text)} :
    checkUnique o seen l = .ok () ↔ (l.map fun x => x.2.1).Nodup ∧ ∀ x ∈ l, x.2.1 ∉ seen := by
  induction l generalizing seen with
  | nil => simp [checkUnique]
  | cons x l ih =>
    rw [checkUnique, List.map_cons, List.nodup_cons, List.forall_mem_cons]
    split_ifs with hx
    · exact ⟨fun h => (by cases h), fun h => absurd hx h.2.1⟩
    · rw [ih]
      constructor
      · rintro ⟨hnodup, hseen⟩
        refine ⟨⟨fun hmem => ?_, hnodup⟩, hx, fun y hy hys => hseen y hy (List.mem_cons_of_mem _ hys)⟩
        obtain ⟨y, hy, hyx⟩ := List.mem_map.1 hmem
        exact hseen y hy (hyx ▸ List.mem_cons_self)
      · rintro ⟨⟨hself, hnodup⟩, -, hseen⟩
        refine ⟨hnodup, fun y hy hys => ?_⟩
        rcases List.mem_cons.1 hys with hyx | hys
        · exact hself (List.mem_map.2 ⟨y, hy, hyx⟩)
        · exact hseen y hy hys

variable (o : Outside ι δ ν)

/-- Revisions of one id are one revision. -/
def Consistent (l : List (RequestRevision ι δ)) : Prop := ∀ r ∈ l, ∀ r' ∈ l, r.id = r'.id → r = r'

theorem dedupe_spec [DecidableEq δ] {kept l : List (RequestRevision ι δ)} (hkept : (kept.map fun r => r.id).Nodup) :
    (∀ out, dedupe o kept l = .ok out → Consistent (kept ++ l) ∧ (out.map fun r => r.id).Nodup ∧ ∀ r, r ∈ out ↔
      r ∈ kept ++ l) ∧
      (Consistent (kept ++ l) → ∃ out, dedupe o kept l = .ok out) := by
  induction l generalizing kept with
  | nil =>
    rw [List.append_nil]
    refine ⟨fun out h => ?_, fun _ => ⟨kept, rfl⟩⟩
    obtain rfl := Except.ok.inj h
    exact ⟨fun r hr r' hr' he => List.inj_on_of_nodup_map hkept hr hr' he, hkept, fun r => Iff.rfl⟩
  | cons r l ih =>
    rw [dedupe]
    cases hfind : kept.find? fun q => q.id = r.id with
    | some q =>
      have hq : q ∈ kept := List.mem_of_find?_eq_some hfind
      have hid : q.id = r.id := by simpa using List.find?_some hfind
      dsimp only
      split_ifs with hqr
      · -- the copy adds nothing
        have hmem : ∀ x, x ∈ kept ++ r :: l ↔ x ∈ kept ++ l := by
          intro x
          simp only [List.mem_append, List.mem_cons]
          constructor
          · rintro (h | rfl | h)
            · exact .inl h
            · exact .inl (hqr ▸ hq)
            · exact .inr h
          · rintro (h | h)
            · exact .inl h
            · exact .inr (.inr h)
        have hsame : Consistent (kept ++ r :: l) ↔ Consistent (kept ++ l) := by
          unfold Consistent
          simp only [hmem]
        simp only [hsame, hmem]
        exact ih hkept
      · refine ⟨fun out h => (by cases h), fun h => ?_⟩
        exact absurd (h q (List.mem_append_left _ hq) r (List.mem_append_right _ List.mem_cons_self) hid) hqr
    | none =>
      have hnew : ((kept ++ [r]).map fun x => x.id).Nodup := by
        rw [List.map_append, List.map_singleton, List.nodup_append]
        refine ⟨hkept, List.nodup_singleton _, fun x hx y hy => ?_⟩
        obtain ⟨q, hq, rfl⟩ := List.mem_map.1 hx
        rw [List.mem_singleton.1 hy]
        simpa using List.find?_eq_none.1 hfind q hq
      have hassoc : kept ++ [r] ++ l = kept ++ r :: l := by simp
      dsimp only
      rw [← hassoc]
      exact ih hnew

/-- Revisions with different ids stay as they are. -/
theorem dedupe_self [DecidableEq δ] {kept l : List (RequestRevision ι δ)} (h : ((kept ++ l).map fun r => r.id).Nodup) :
    dedupe o kept l = .ok (kept ++ l) := by
  induction l generalizing kept with
  | nil => rw [dedupe, List.append_nil]
  | cons r l ih =>
    have hfind : (kept.find? fun q => q.id = r.id) = none := by
      refine List.find?_eq_none.2 fun q hq he => ?_
      rw [List.map_append, List.nodup_append] at h
      exact h.2.2 q.id (List.mem_map_of_mem hq) r.id (List.mem_map_of_mem List.mem_cons_self) (of_decide_eq_true he)
    have hassoc : kept ++ r :: l = kept ++ [r] ++ l := by simp
    rw [hassoc] at h ⊢
    rw [dedupe, hfind]
    exact ih h

/-! ## The history that is kept -/

def keptRecord (g : PortableGraph ι δ ν) (r : ExecutionRecord ι δ) : Option (ExecutionRecord ι δ) :=
  (r.workspaceId.filter fun w => w ∈ workspaceIds g).map fun w => keepLinks g w r

/-- The records of the history that can be read. -/
def records (g : PortableGraph ι δ ν) : List (ExecutionRecord ι δ) := g.history.filterMap o.fromValue

theorem foldlM_history (g : PortableGraph ι δ ν) (l : List ν) (s : HistoryState ι ν) :
    (∀ t, l.foldlM (historyStep o g) s = .ok t → Fresh s.ids (l.filterMap o.fromValue) ∧
      t.kept = s.kept ++ ((l.filterMap o.fromValue).filterMap (keptRecord g)).map o.toValue) ∧
    (Fresh s.ids (l.filterMap o.fromValue) → ∃ t, l.foldlM (historyStep o g) s = .ok t) := by
  induction l generalizing s with
  | nil =>
    refine ⟨fun t ht => ?_, fun _ => ⟨s, rfl⟩⟩
    obtain rfl := Except.ok.inj ht
    exact ⟨⟨List.nodup_nil, fun r hr => absurd hr List.not_mem_nil⟩, (List.append_nil _).symm⟩
  | cons h l ih =>
    rw [List.foldlM_cons]
    cases hread : o.fromValue h with
    | none =>
      have hstep : historyStep o g s h = .ok { s with unreadable := s.unreadable + 1 } := by rw [historyStep, hread]
      rw [hstep, ok_bind, List.filterMap_cons_none hread]
      exact ih _
    | some r =>
      rw [List.filterMap_cons_some hread, fresh_cons]
      by_cases hr : r.id ∈ s.ids
      · have hstep : historyStep o g s h = .error ("history record ".toList ++ o.showId r.id ++ " appears twice".toList) := by
          rw [historyStep, hread]
          exact if_pos hr
        rw [hstep]
        exact ⟨fun t ht => (by cases ht), fun hf => absurd hr hf.1⟩
      · cases hw : r.workspaceId.filter fun w => w ∈ workspaceIds g with
        | none =>
          have hstep : historyStep o g s h = .ok { s with ids := r.id :: s.ids, outside := s.outside + 1 } := by
            rw [historyStep, hread]
            dsimp only
            rw [if_neg hr, hw]
          have hkept : keptRecord g r = none := by rw [keptRecord, hw]; rfl
          obtain ⟨hok, hex⟩ := ih { s with ids := r.id :: s.ids, outside := s.outside + 1 }
          rw [hstep, ok_bind, List.filterMap_cons_none hkept]
          exact ⟨fun t ht => ⟨⟨hr, (hok t ht).1⟩, (hok t ht).2⟩, fun hf => hex hf.2⟩
        | some w =>
          have hstep : historyStep o g s h =
              .ok { s with ids := r.id :: s.ids, kept := s.kept ++ [o.toValue (keepLinks g w r)] } := by
            rw [historyStep, hread]
            dsimp only
            rw [if_neg hr, hw]
          have hkept : keptRecord g r = some (keepLinks g w r) := by rw [keptRecord, hw]; rfl
          obtain ⟨hok, hex⟩ := ih { s with ids := r.id :: s.ids, kept := s.kept ++ [o.toValue (keepLinks g w r)] }
          rw [hstep, ok_bind, List.filterMap_cons_some hkept, List.map_cons]
          refine ⟨fun t ht => ⟨⟨hr, (hok t ht).1⟩, ?_⟩, fun hf => hex hf.2⟩
          rw [(hok t ht).2, List.append_assoc]
          rfl

/-- The values of the records that are kept. -/
def keptHistory (g : PortableGraph ι δ ν) : List ν := ((records o g).filterMap (keptRecord g)).map o.toValue

theorem runHistory_spec (g : PortableGraph ι δ ν) :
    (∀ s, runHistory o g = .ok s → ((records o g).map fun r => r.id).Nodup ∧ s.kept = keptHistory o g) ∧
      (((records o g).map fun r => r.id).Nodup → ∃ s, runHistory o g = .ok s) := by
  obtain ⟨hok, hex⟩ := foldlM_history o g g.history ⟨[], 0, 0, []⟩
  exact ⟨fun s hs => ⟨(hok s hs).1.1, (hok s hs).2⟩, fun h => hex ⟨h, fun r hr => List.not_mem_nil⟩⟩

/-! ## The graphs that pass -/

/-- Every object is of a workspace in the graph, and every reference leads to an object of its own workspace. -/
structure Linked (g : PortableGraph ι δ ν) : Prop where
  members : ∀ m ∈ members g, m.2.2 ∈ workspaceIds g
  folderParents : ∀ f ∈ g.folders, ∀ p ∈ f.parentId, (p, f.workspaceId) ∈ folderWs g
  acyclic : Acyclic (parents g)
  requestFolders : ∀ r ∈ g.requests, ∀ p ∈ r.folderId, (p, r.workspaceId) ∈ folderWs g
  scenarios : ∀ sc ∈ g.scenarios, (∀ r ∈ sc.steps, (r, sc.workspaceId) ∈ requestWs g) ∧
    ∀ d ∈ sc.datasetId, (d, sc.workspaceId) ∈ datasetWs g
  loadPlans : ∀ p ∈ g.loadPlans, (∀ r ∈ p.chain ++ p.mix, (r, p.workspaceId) ∈ requestWs g) ∧
    (∀ d ∈ p.datasetId, (d, p.workspaceId) ∈ datasetWs g) ∧ ∀ e ∈ p.environmentId, (e, p.workspaceId) ∈ environmentWs g

def WithinLimits (g : PortableGraph ι δ ν) : Prop :=
  g.rulesets.length ≤ maxStoredRulesets ∧ (∀ r ∈ g.rulesets, utf8Len r.text ≤ maxStoredRulesetBytes) ∧
    (g.rulesets.map fun r => utf8Len r.text).sum ≤ maxStoredRulesetsBytes

/-- The secrets have ids and owners in the graph. -/
def Owned (g : PortableGraph ι δ ν) : Prop :=
  ∀ s ∈ g.secrets, (o.parseId s.1).isSome ∧ ∃ w ∈ s.2.workspaceId.bind o.parseId, w ∈ workspaceIds g

def objectIds (g : PortableGraph ι δ ν) : List ι := (allIds g).map fun x => x.2.1

/-- No id is used twice; a revision of a request outside the graph is not written and may have any. -/
def UniqueIds (g : PortableGraph ι δ ν) : Prop :=
  (objectIds g).Nodup ∧ Consistent g.revisions ∧
    ∀ r ∈ g.revisions, r.requestId ∈ (g.requests.map fun q => q.id) → r.id ∉ objectIds g

/-- **The closed graphs.** -/
structure Closed (g : PortableGraph ι δ ν) : Prop where
  limits : WithinLimits g
  linked : Linked g
  ids : UniqueIds g
  history : ((records o g).map fun r => r.id).Nodup
  secrets : Owned o g

/-! ## What passes is closed -/

variable {o} {g : PortableGraph ι δ ν}

omit [DecidableEq ι] in
/-- The ids of folders, requests, environments and datasets, among those of all objects. -/
theorem nodup_ids (h : (objectIds g).Nodup) : ((folderWs g).map Prod.fst).Nodup ∧ ((requestWs g).map Prod.fst).Nodup ∧
    ((environmentWs g).map Prod.fst).Nodup ∧ ((datasetWs g).map Prod.fst).Nodup := by
  unfold objectIds allIds at h
  simp only [List.map_append, List.map_map] at h
  have hdatasets := h.of_append_left.of_append_left.of_append_left
  have henvironments := hdatasets.of_append_left.of_append_left.of_append_left.of_append_left
  unfold folderWs requestWs environmentWs datasetWs
  simp only [List.map_map]
  exact ⟨henvironments.of_append_left.of_append_left.of_append_right, henvironments.of_append_left.of_append_right,
    henvironments.of_append_right, hdatasets.of_append_right⟩

omit [DecidableEq ι] in
theorem limits_ok {source : Text} : validateRulesetLimits g source = .ok () ↔ WithinLimits g := by
  unfold validateRulesetLimits WithinLimits
  simp only [bind_eq_ok, refuseIf_ok, not_lt]
  constructor
  · rintro ⟨⟨⟩, hcount, ⟨⟩, heach, hsum⟩
    exact ⟨hcount, fun r hr => not_lt.1 (problem_none.1 (checkEach_ok.1 heach r hr)).1, hsum⟩
  · rintro ⟨hcount, heach, hsum⟩
    exact ⟨(), hcount, (), checkEach_ok.2 fun r hr => problem_none.2 ⟨not_lt.2 (heach r hr), rfl⟩, hsum⟩

theorem checkCycles_ok : checkCycles g = .ok () ↔ Acyclic (parents g) := by
  have hall : ∀ a ∈ (parents g).map Prod.fst, ∃ f ∈ g.folders, f.id = a := by
    intro a ha
    unfold parents at ha
    rw [List.map_map] at ha
    exact List.mem_map.1 ha
  rw [← climbAll_eq_none hall]
  unfold checkCycles
  cases climbAll (fun f : Folder ι δ => f.id) (parents g) (fun _ => none) g.folders with
  | none => simp
  | some f => simp

theorem none_outside {map : List (ι × ι)} (hmap : (map.map Prod.fst).Nodup) {w : ι} {id : Option ι} :
    id.any (outside map w) = false ↔ ∀ p ∈ id, (p, w) ∈ map := by
  cases id with
  | none => simp
  | some p => simp [outside_eq_false hmap]

theorem none_outside_list {map : List (ι × ι)} (hmap : (map.map Prod.fst).Nodup) {w : ι} {ids : List ι} :
    ids.any (outside map w) = false ↔ ∀ p ∈ ids, (p, w) ∈ map := by
  rw [List.any_eq_false]
  simp only [Bool.not_eq_true, outside_eq_false hmap]

/-- The checks of the references. -/
theorem linked_iff (h : (objectIds g).Nodup) :
    Linked g ↔ checkMembers g = .ok () ∧ checkFolderParents g = .ok () ∧ checkCycles g = .ok () ∧
    checkRequestFolders g = .ok () ∧ checkScenarios g = .ok () ∧ checkLoadPlans g = .ok () := by
  obtain ⟨hfolders, hrequests, henvironments, hdatasets⟩ := nodup_ids h
  have hmembers : checkMembers g = .ok () ↔ ∀ m ∈ members g, m.2.2 ∈ workspaceIds g := by
    unfold checkMembers
    rw [checkEach_ok]
    exact forall₂_congr fun m _ => allowed_none
  have hparents : checkFolderParents g = .ok () ↔ ∀ f ∈ g.folders, ∀ p ∈ f.parentId, (p, f.workspaceId) ∈ folderWs g := by
    unfold checkFolderParents
    rw [checkEach_ok]
    refine forall₂_congr fun f _ => ?_
    rw [← none_outside hfolders, problem_none, Bool.not_eq_true]
    exact and_iff_left rfl
  have hinside : checkRequestFolders g = .ok () ↔ ∀ r ∈ g.requests, ∀ p ∈ r.folderId, (p, r.workspaceId) ∈ folderWs g := by
    unfold checkRequestFolders
    rw [checkEach_ok]
    refine forall₂_congr fun r _ => ?_
    rw [← none_outside hfolders, problem_none, Bool.not_eq_true]
    exact and_iff_left rfl
  have hscenarios : checkScenarios g = .ok () ↔ ∀ sc ∈ g.scenarios, (∀ r ∈ sc.steps, (r, sc.workspaceId) ∈ requestWs g) ∧
      ∀ d ∈ sc.datasetId, (d, sc.workspaceId) ∈ datasetWs g := by
    unfold checkScenarios
    rw [checkEach_ok]
    refine forall₂_congr fun sc _ => ?_
    rw [← none_outside_list hrequests, ← none_outside hdatasets, problem_none, problem_none, Bool.not_eq_true,
      Bool.not_eq_true]
    exact and_congr_right fun _ => and_iff_left rfl
  have hplans : checkLoadPlans g = .ok () ↔ ∀ p ∈ g.loadPlans, (∀ r ∈ p.chain ++ p.mix, (r, p.workspaceId) ∈ requestWs g) ∧
      (∀ d ∈ p.datasetId, (d, p.workspaceId) ∈ datasetWs g) ∧ ∀ e ∈ p.environmentId,
        (e, p.workspaceId) ∈ environmentWs g := by
    unfold checkLoadPlans
    rw [checkEach_ok]
    refine forall₂_congr fun p _ => ?_
    rw [← none_outside_list hrequests, ← none_outside hdatasets, ← none_outside henvironments, problem_none, problem_none,
      problem_none,
      Bool.not_eq_true, Bool.not_eq_true, Bool.not_eq_true]
    exact and_congr_right fun _ => and_congr_right fun _ => and_iff_left rfl
  rw [hmembers, hparents, checkCycles_ok, hinside, hscenarios, hplans]
  exact ⟨fun ⟨h1, h2, h3, h4, h5, h6⟩ => ⟨h1, h2, h3, h4, h5, h6⟩, fun ⟨h1, h2, h3, h4, h5, h6⟩ => ⟨h1, h2, h3, h4, h5, h6⟩⟩

theorem checkSecrets_ok : checkSecrets o g = .ok () ↔ Owned o g := by
  unfold checkSecrets Owned
  rw [checkEach_ok]
  refine forall₂_congr fun e _ => ?_
  rw [problem_none, allowed_none]
  refine and_congr ?_ ?_
  · rw [Option.isNone_iff_eq_none]
    exact Option.isSome_iff_ne_none.symm
  · rw [Option.any_eq_true]
    simp

/-- The graph with its own revisions and the history that is kept. -/
def joined (o : Outside ι δ ν) (g : PortableGraph ι δ ν) (revisions : List (RequestRevision ι δ)) : PortableGraph ι δ ν :=
  { withRevisions g revisions with history := keptHistory o (withRevisions g revisions) }

theorem allIds_joined (revisions : List (RequestRevision ι δ)) : allIds (joined o g revisions) = allIds g := by
  unfold allIds joined withRevisions
  simp only [List.map_map]
  rfl

theorem writtenIds_joined (revisions : List (RequestRevision ι δ)) :
    (writtenIds (joined o g revisions)).map (fun x => x.2.1) = objectIds g ++
    (ownRevisions g revisions).map fun r => r.id := by
  have hrevisions : (joined o g revisions).revisions = ownRevisions g revisions := rfl
  unfold writtenIds
  rw [allIds_joined, hrevisions, List.map_append, List.map_map]
  rfl

/-- What a graph that passes has gone through. -/
theorem validate_eq_ok [DecidableEq δ] {out : PortableGraph ι δ ν × List Text} : validateAndNormalize o g = .ok out ↔
    (WithinLimits g ∧ checkMembers g = .ok () ∧ checkFolderParents g = .ok () ∧ checkCycles g = .ok () ∧
      checkRequestFolders g = .ok () ∧ checkScenarios g = .ok () ∧ checkLoadPlans g = .ok ()) ∧
    ∃ revisions s, dedupe o [] g.revisions = .ok revisions ∧ runHistory o (withRevisions g revisions) = .ok s ∧
      checkUnique o [] (writtenIds (joined o g revisions)) = .ok () ∧ Owned o g ∧
      out = (normalize (joined o g revisions),
        leftOutWarnings (revisions.length - (ownRevisions g revisions).length) s ++ safetyWarnings o
          (joined o g revisions)) := by
  unfold validateAndNormalize
  simp only [bind_eq_ok]
  constructor
  · rintro ⟨⟨⟩, hlimits, ⟨⟩, hmembers, ⟨⟩, hparents, ⟨⟩, hcycles, ⟨⟩, hfolders, ⟨⟩, hscenarios, ⟨⟩, hplans, revisions,
      hrevisions, s, hs,
      ⟨⟩, hunique, ⟨⟩, hsecrets, hout⟩
    have hkept := ((runHistory_spec o (withRevisions g revisions)).1 s hs).2
    have hjoined : { withRevisions g revisions with history := s.kept } = joined o g revisions := by
      unfold joined
      rw [hkept]
    rw [hjoined] at hunique hout
    refine ⟨⟨limits_ok.1 hlimits, hmembers, hparents, hcycles, hfolders, hscenarios, hplans⟩, revisions, s, hrevisions,
      hs, hunique,
      checkSecrets_ok.1 hsecrets, (Except.ok.inj hout).symm⟩
  · rintro ⟨⟨hlimits, hmembers, hparents, hcycles, hfolders, hscenarios, hplans⟩, revisions, s, hrevisions, hs, hunique,
      hsecrets, rfl⟩
    have hkept := ((runHistory_spec o (withRevisions g revisions)).1 s hs).2
    have hjoined : { withRevisions g revisions with history := s.kept } = joined o g revisions := by
      unfold joined
      rw [hkept]
    refine ⟨(), limits_ok.2 hlimits, (), hmembers, (), hparents, (), hcycles, (), hfolders, (), hscenarios, (),
      hplans, revisions,
      hrevisions, s, hs, (), ?_, (), checkSecrets_ok.2 hsecrets, ?_⟩
    · rw [hjoined]
      exact hunique
    · rw [hjoined]
      rfl

/-- The ids that are written are unique: the copies of a revision have collapsed. -/
theorem unique_iff {revisions : List (RequestRevision ι δ)} (hnodup : (revisions.map fun r => r.id).Nodup)
    (hmem : ∀ r, r ∈ revisions ↔ r ∈ g.revisions) : checkUnique o [] (writtenIds (joined o g revisions)) = .ok () ↔
      (objectIds g).Nodup ∧ ∀ r ∈ g.revisions, r.requestId ∈ (g.requests.map fun q => q.id) → r.id ∉ objectIds g := by
  have hown : ((ownRevisions g revisions).map fun r => r.id).Nodup := hnodup.sublist (List.filter_sublist.map _)
  have hseen : ∀ x ∈ writtenIds (joined o g revisions), x.2.1 ∉ ([] : List ι) := fun _ _ => List.not_mem_nil
  rw [checkUnique_ok, writtenIds_joined, and_iff_left hseen, List.nodup_append]
  constructor
  · rintro ⟨hobjects, -, hapart⟩
    refine ⟨hobjects, fun r hr hrequest hid => ?_⟩
    have hin : r ∈ ownRevisions g revisions := List.mem_filter.2 ⟨(hmem r).2 hr, decide_eq_true hrequest⟩
    exact hapart r.id hid r.id (List.mem_map_of_mem hin) rfl
  · rintro ⟨hobjects, hapart⟩
    refine ⟨hobjects, hown, fun a ha b hb hab => ?_⟩
    obtain ⟨r, hr, rfl⟩ := List.mem_map.1 hb
    obtain ⟨hin, hrequest⟩ := List.mem_filter.1 hr
    exact hapart r ((hmem r).1 hin) (of_decide_eq_true hrequest) (hab ▸ ha)

omit [DecidableEq ι] in
theorem nodup_none : (([] : List (RequestRevision ι δ)).map fun r => r.id).Nodup := List.nodup_nil

theorem dedupe_nil [DecidableEq δ] {revisions : List (RequestRevision ι δ)} (h : dedupe o [] g.revisions = .ok revisions) :
    Consistent g.revisions ∧ (revisions.map fun r => r.id).Nodup ∧ ∀ r, r ∈ revisions ↔ r ∈ g.revisions :=
  (dedupe_spec o nodup_none).1 revisions h

/-- Exactly the closed graphs pass. -/
theorem accepts_iff [DecidableEq δ] : (∃ out, validateAndNormalize o g = .ok out) ↔ Closed o g := by
  constructor
  · rintro ⟨out, h⟩
    obtain ⟨⟨hlimits, hchecks⟩, revisions, s, hrevisions, hs, hunique, hsecrets, -⟩ := validate_eq_ok.1 h
    obtain ⟨hconsistent, hnodup, hmem⟩ := dedupe_nil hrevisions
    obtain ⟨hobjects, hapart⟩ := (unique_iff hnodup hmem).1 hunique
    have hrecords : records o (withRevisions g revisions) = records o g := rfl
    refine ⟨hlimits, (linked_iff hobjects).2 hchecks, ⟨hobjects, hconsistent, hapart⟩, ?_, hsecrets⟩
    rw [← hrecords]
    exact ((runHistory_spec o (withRevisions g revisions)).1 s hs).1
  · rintro ⟨hlimits, hlinked, ⟨hobjects, hconsistent, hapart⟩, hhistory, hsecrets⟩
    obtain ⟨revisions, hrevisions⟩ := (dedupe_spec o nodup_none).2 hconsistent
    obtain ⟨-, hnodup, hmem⟩ := dedupe_nil hrevisions
    obtain ⟨s, hs⟩ := (runHistory_spec o (withRevisions g revisions)).2 hhistory
    exact ⟨_, validate_eq_ok.2 ⟨⟨hlimits, (linked_iff hobjects).1 hlinked⟩, revisions, s, hrevisions, hs,
      (unique_iff hnodup hmem).2 ⟨hobjects, hapart⟩, hsecrets, rfl⟩⟩

/-! ## What an import never turns on -/

/-- Nothing that an import turns off is on. -/
structure Safe (g : PortableGraph ι δ ν) : Prop where
  tls : ∀ t ∈ g.tlsProfiles, t.verify = true
  gateways : ∀ i ∈ g.integrations, i.requireVerifiedTls = true
  scenarios : ∀ sc ∈ g.scenarios, sc.trusted = false
  loadPlans : ∀ p ∈ g.loadPlans, p.trusted = false
  settings : ∀ s ∈ allSettings g, s.forwards = false ∧ s.sendsEarly = false
  auth : ∀ a ∈ allAuth g, ∀ l ∈ a.leaves, l.legacy = false ∧ l.sendsAnyway = false
  roots : ∀ f ∈ g.folders, f.useWorkspaceScope = false

omit [DecidableEq ι] in
theorem safe_settings (s : Settings δ) : s.safe.forwards = false ∧ s.safe.sendsEarly = false := by
  constructor
  · unfold Settings.safe Settings.forwards
    cases s.redirects <;> rfl
  · unfold Settings.safe Settings.sendsEarly
    cases s.earlyData <;> rfl

theorem leaves_safe (a : AuthConfig δ) : a.safe.leaves = a.leaves.map fun l => l.disableLegacy.jwtSvidSafety := by
  unfold AuthConfig.safe jwtSvidSafety disableLegacy
  rw [AuthConfig.leaves_mapLeaves, AuthConfig.leaves_mapLeaves, List.map_map]
  rfl

theorem safe_leaf (l : AuthLeaf δ) :
    (l.disableLegacy.jwtSvidSafety).legacy = false ∧ (l.disableLegacy.jwtSvidSafety).sendsAnyway = false := by
  cases l <;> exact ⟨rfl, rfl⟩

theorem safe_auth (a : AuthConfig δ) : ∀ l ∈ a.safe.leaves, l.legacy = false ∧ l.sendsAnyway = false := by
  rw [leaves_safe]
  intro l hl
  obtain ⟨k, -, rfl⟩ := List.mem_map.1 hl
  exact safe_leaf k

theorem allSettings_normalize (g : PortableGraph ι δ ν) : allSettings (normalize g) = (allSettings g).map Settings.safe := by
  unfold allSettings normalize
  simp only [List.map_append, List.map_map]
  cases g.appSettings <;> rfl

theorem allAuth_normalize (g : PortableGraph ι δ ν) : allAuth (normalize g) = (allAuth g).map AuthConfig.safe := by
  unfold allAuth normalize
  simp only [List.map_append, List.map_map]
  rfl

theorem safe_normalize (g : PortableGraph ι δ ν) : Safe (normalize g) := by
  refine ⟨?_, ?_, ?_, ?_, ?_, ?_, ?_⟩
  · exact List.forall_mem_map.2 fun t _ => rfl
  · exact List.forall_mem_map.2 fun i _ => rfl
  · exact List.forall_mem_map.2 fun sc _ => rfl
  · exact List.forall_mem_map.2 fun p _ => rfl
  · rw [allSettings_normalize]
    exact List.forall_mem_map.2 fun s _ => safe_settings s
  · rw [allAuth_normalize]
    exact List.forall_mem_map.2 fun a _ => safe_auth a
  · exact List.forall_mem_map.2 fun f _ => rfl

/-- Safe settings are not changed, and neither are safe profiles. -/
theorem settings_safe_self {s : Settings δ} (h : s.forwards = false ∧ s.sendsEarly = false) : s.safe = s := by
  obtain ⟨redirects, early, rest⟩ := s
  unfold Settings.safe
  cases redirects with
  | none =>
    cases early with
    | none => rfl
    | some e =>
      obtain ⟨enabled, methods⟩ := e
      obtain rfl : enabled = false := h.2
      rfl
  | some r =>
    obtain ⟨follow, max, forward⟩ := r
    obtain rfl : forward = false := h.1
    cases early with
    | none => rfl
    | some e =>
      obtain ⟨enabled, methods⟩ := e
      obtain rfl : enabled = false := h.2
      rfl

theorem auth_safe_self {a : AuthConfig δ} (h : ∀ l ∈ a.leaves, l.legacy = false ∧ l.sendsAnyway = false) : a.safe = a := by
  have hlegacy : a.mapLeaves AuthLeaf.disableLegacy = a := by
    refine AuthConfig.mapLeaves_self a fun l hl => ?_
    cases l with
    | hmac allow rest => exact congrArg (AuthLeaf.hmac · rest) (h _ hl).1.symm
    | jwtSvid send api rest => rfl
    | other rest => rfl
  have hjwt : a.mapLeaves AuthLeaf.jwtSvidSafety = a := by
    refine AuthConfig.mapLeaves_self a fun l hl => ?_
    cases l with
    | hmac allow rest => rfl
    | jwtSvid send api rest => exact congrArg (AuthLeaf.jwtSvid · api rest) (h _ hl).2.symm
    | other rest => rfl
  unfold AuthConfig.safe jwtSvidSafety disableLegacy
  rw [hlegacy, hjwt]

/-! ## What an imported graph is -/

/-- The links that are not checked but cleared lead to objects of the graph. -/
structure InnerLinks (o : Outside ι δ ν) (g : PortableGraph ι δ ν) : Prop where
  revisions : ∀ r ∈ g.requests, ∀ v ∈ r.revisionId, ∃ q ∈ g.revisions, q.id = v ∧ q.requestId = r.id
  history : ∀ h ∈ g.history, ∃ r w, o.fromValue h = some r ∧ r.workspaceId = some w ∧ w ∈ workspaceIds g ∧
    (∀ q ∈ r.requestId, (q, w) ∈ requestWs g) ∧
    (∀ v ∈ r.revisionId, ∃ q ∈ r.requestId, ∃ x ∈ g.revisions, x.id = v ∧ x.requestId = q) ∧
    ∀ e ∈ r.environmentId, (e, w) ∈ environmentWs g
  roots : ∀ f ∈ g.folders, ∀ e ∈ f.importEnvironmentIds, (e, f.workspaceId) ∈ environmentWs g

/-- A record that was read is written, with any links, as a value that is read as it. -/
def RoundTrips (o : Outside ι δ ν) :
  Prop := ∀ h r r', o.fromValue h = some r → r'.id = r.id → r'.workspaceId = r.workspaceId →
  r'.rest = r.rest → o.fromValue (o.toValue r') = some r'

/-- The graph that is imported, for the revisions that are left after copies collapsed. -/
def imported (o : Outside ι δ ν) (g : PortableGraph ι δ ν) (revisions : List (RequestRevision ι δ)) : PortableGraph ι δ ν :=
  normalize (joined o g revisions)

section Imported
variable (revisions : List (RequestRevision ι δ))

theorem allIds_imported : allIds (imported o g revisions) = allIds g := by
  have hjoined : allIds (joined o g revisions) = allIds g := allIds_joined revisions
  rw [← hjoined]
  unfold imported allIds normalize
  simp only [List.map_map]
  rfl

theorem members_imported : members (imported o g revisions) = members g := by
  unfold imported members normalize joined withRevisions
  simp only [List.map_map]
  rfl

theorem workspaceIds_imported : workspaceIds (imported o g revisions) = workspaceIds g := by
  unfold imported workspaceIds normalize joined withRevisions
  simp only [List.map_map]
  rfl

theorem folderWs_imported : folderWs (imported o g revisions) = folderWs g := by
  unfold imported folderWs normalize joined withRevisions
  simp only [List.map_map]
  rfl

theorem parents_imported : parents (imported o g revisions) = parents g := by
  unfold imported parents normalize joined withRevisions
  simp only [List.map_map]
  rfl

theorem requestWs_imported : requestWs (imported o g revisions) = requestWs g := by
  unfold imported requestWs normalize joined withRevisions
  simp only [List.map_map]
  rfl

theorem environmentWs_imported : environmentWs (imported o g revisions) = environmentWs g := rfl

theorem datasetWs_imported : datasetWs (imported o g revisions) = datasetWs g := rfl

theorem revisions_imported : (imported o g revisions).revisions = ownRevisions g revisions := rfl

theorem requestIds_imported : ((imported o g revisions).requests.map fun q => q.id) = g.requests.map fun q => q.id := by
  unfold imported normalize joined withRevisions
  simp only [List.map_map]
  rfl

theorem linked_imported (h : Linked g) : Linked (imported o g revisions) where
  members := by
    rw [members_imported, workspaceIds_imported]
    exact h.members
  folderParents := by
    rw [folderWs_imported]
    exact List.forall_mem_map.2 h.folderParents
  acyclic := by
    rw [parents_imported]
    exact h.acyclic
  requestFolders := by
    rw [folderWs_imported]
    exact List.forall_mem_map.2 (List.forall_mem_map.2 h.requestFolders)
  scenarios := by
    rw [requestWs_imported, datasetWs_imported]
    exact List.forall_mem_map.2 h.scenarios
  loadPlans := by
    rw [requestWs_imported, datasetWs_imported, environmentWs_imported]
    exact List.forall_mem_map.2 h.loadPlans

/-! ## A second time -/

theorem keepLinks_keepLinks (g : PortableGraph ι δ ν) (w : ι) (r : ExecutionRecord ι δ) :
    keepLinks g w (keepLinks g w r) = keepLinks g w r := by
  unfold keepLinks
  simp only [Option.filter_filter, Bool.and_self]

/-- The links of a record depend on these maps only. -/
theorem keepLinks_imported (w : ι) (r : ExecutionRecord ι δ) :
    keepLinks (imported o g revisions) w r = keepLinks (withRevisions g revisions) w r := by
  have hrequests : requestWs (withRevisions g revisions) = requestWs g := by
    unfold requestWs withRevisions
    simp only [List.map_map]
    rfl
  unfold keepLinks
  rw [requestWs_imported, hrequests]
  rfl

theorem keptRecord_eq_some {g : PortableGraph ι δ ν} {r r' : ExecutionRecord ι δ} (h : keptRecord g r = some r') :
    ∃ w, r.workspaceId = some w ∧ w ∈ workspaceIds g ∧ r' = keepLinks g w r := by
  obtain ⟨w, hw, rfl⟩ := Option.map_eq_some_iff.1 h
  obtain ⟨hsome, hmem⟩ := Option.filter_eq_some_iff.1 hw
  exact ⟨w, hsome, of_decide_eq_true hmem, rfl⟩

theorem filterMap_self {α β : Type} {f : α → Option β} {i : β → α} {l : List β} (h : ∀ b ∈ l, f (i b) = some b) :
    (l.map i).filterMap f = l := by
  induction l with
  | nil => rfl
  | cons b l ih =>
    obtain ⟨hb, hl⟩ := List.forall_mem_cons.1 h
    rw [List.map_cons, List.filterMap_cons_some hb, ih hl]

/-- A record that is kept was read, and is read again. -/
theorem fromValue_kept (hround : RoundTrips o) {r' : ExecutionRecord ι δ}
    (hr' : r' ∈ (records o (withRevisions g revisions)).filterMap (keptRecord (withRevisions g revisions))) :
    o.fromValue (o.toValue r') = some r' := by
  obtain ⟨r, hr, hkept⟩ := List.mem_filterMap.1 hr'
  obtain ⟨h, -, hread⟩ := List.mem_filterMap.1 hr
  obtain ⟨w, -, -, rfl⟩ := keptRecord_eq_some hkept
  exact hround h r _ hread rfl rfl rfl

theorem records_imported (hround : RoundTrips o) : records o (imported o g revisions) =
    (records o (withRevisions g revisions)).filterMap (keptRecord (withRevisions g revisions)) :=
  filterMap_self fun _ hr => fromValue_kept revisions hround hr

theorem keptHistory_imported (hround : RoundTrips o) :
    keptHistory o (imported o g revisions) = (imported o g revisions).history := by
  have hself : ∀ r ∈ records o (imported o g revisions), keptRecord (imported o g revisions) r = some r := by
    intro r' hr'
    rw [records_imported revisions hround] at hr'
    obtain ⟨r, -, hkept⟩ := List.mem_filterMap.1 hr'
    obtain ⟨w, hw, hmem, rfl⟩ := keptRecord_eq_some hkept
    have hfilter : (keepLinks (withRevisions g revisions) w r).workspaceId.filter
        (fun w => w ∈ workspaceIds (imported o g revisions)) = some w := by
      rw [workspaceIds_imported]
      exact Option.filter_eq_some_iff.2 ⟨hw, decide_eq_true hmem⟩
    unfold keptRecord
    rw [hfilter, Option.map_some, keepLinks_imported, keepLinks_keepLinks]
  have hlist : (records o (imported o g revisions)).filterMap (keptRecord (imported o g revisions)) = records o
      (imported o g revisions) := by
    have hmap := filterMap_self (i := id) hself
    rwa [List.map_id] at hmap
  unfold keptHistory
  rw [hlist, records_imported revisions hround]
  rfl

theorem ownRevisions_imported :
    ownRevisions (imported o g revisions) (imported o g revisions).revisions = (imported o g revisions).revisions := by
  unfold ownRevisions
  rw [requestIds_imported, revisions_imported]
  unfold ownRevisions
  rw [List.filter_filter]
  simp only [Bool.and_self]

theorem withRevisions_imported :
    withRevisions (imported o g revisions) (imported o g revisions).revisions = imported o g revisions := by
  have hrequests : (imported o g revisions).requests.map (keepRevision (imported o g revisions).revisions) =
      (imported o g revisions).requests := by
    rw [revisions_imported]
    unfold imported normalize joined withRevisions
    simp only [List.map_map]
    refine List.map_congr_left fun r _ => ?_
    unfold keepRevision
    simp only [Function.comp_apply, Option.filter_filter, Bool.and_self]
  unfold withRevisions
  rw [ownRevisions_imported, hrequests]

end Imported

theorem map_map_self {α : Type} {f f' : α → α} (h : ∀ a, f' (f a) = f a) (l : List α) : (l.map f).map f' = l.map f := by
  rw [List.map_map]
  exact List.map_congr_left fun a _ => h a

theorem normalizeFolder_self (j : PortableGraph ι δ ν) (f : Folder ι δ) :
    normalizeFolder (normalize j) (normalizeFolder j f) = normalizeFolder j f := by
  have henvironments : environmentWs (normalize j) = environmentWs j := rfl
  unfold normalizeFolder
  rw [henvironments]
  simp only [settings_safe_self (safe_settings _), auth_safe_self (safe_auth _), List.filter_filter, Bool.and_self]

/-- The safety passes change nothing the second time. -/
theorem normalize_normalize (j : PortableGraph ι δ ν) : normalize (normalize j) = normalize j := by
  have hworkspaces : ∀ w :
      Workspace ι δ, ({ w with settings := w.settings.safe.safe, auth := w.auth.safe.safe } : Workspace ι δ) =
      { w with settings := w.settings.safe, auth := w.auth.safe } := by
    intro w
    rw [settings_safe_self (safe_settings _), auth_safe_self (safe_auth _)]
  have hspecs : ∀ r : RequestDefinition ι δ,
      ({ r with spec := { r.spec with settings := r.spec.settings.safe.safe, auth := r.spec.auth.safe.safe } } :
        RequestDefinition ι δ) =
      { r with spec := { r.spec with settings := r.spec.settings.safe, auth := r.spec.auth.safe } } := by
    intro r
    rw [settings_safe_self (safe_settings _), auth_safe_self (safe_auth _)]
  have happ : (j.appSettings.map Settings.safe).map Settings.safe = j.appSettings.map Settings.safe := by
    rw [Option.map_map]
    exact Option.map_congr fun s _ => settings_safe_self (safe_settings s)
  refine PortableGraph.ext ?_ ?_ ?_ rfl rfl ?_ rfl ?_ rfl ?_ ?_ rfl happ rfl rfl
  · exact map_map_self hworkspaces j.workspaces
  · exact map_map_self (normalizeFolder_self j) j.folders
  · exact map_map_self hspecs j.requests
  · exact List.map_map
  · exact List.map_map
  · exact List.map_map
  · exact List.map_map

section Imported
variable (revisions : List (RequestRevision ι δ))

theorem joined_imported (hround : RoundTrips o) :
    joined o (imported o g revisions) (imported o g revisions).revisions = imported o g revisions := by
  unfold joined
  rw [withRevisions_imported, keptHistory_imported revisions hround]

theorem innerLinks_imported (hround : RoundTrips o) : InnerLinks o (imported o g revisions) where
  revisions := by
    refine List.forall_mem_map.2 (List.forall_mem_map.2 fun r _ v hv => ?_)
    obtain ⟨-, hmem⟩ := Option.filter_eq_some_iff.1 hv
    obtain ⟨q, hq, he⟩ := List.mem_map.1 (of_decide_eq_true hmem)
    obtain ⟨hid, hrequest⟩ := Prod.mk.inj he
    exact ⟨q, hq, hid, hrequest⟩
  history := by
    intro h hh
    obtain ⟨r', hr', rfl⟩ := List.mem_map.1 hh
    have hread := fromValue_kept revisions hround hr'
    obtain ⟨r, -, hkept⟩ := List.mem_filterMap.1 hr'
    obtain ⟨w, hw, hmem, rfl⟩ := keptRecord_eq_some hkept
    rw [← keepLinks_imported] at hread ⊢
    refine ⟨_, w, hread, hw, ?_, fun q hq => ?_, fun v hv => ?_, fun e he => ?_⟩
    · rw [workspaceIds_imported]
      exact hmem
    · obtain ⟨-, hlast⟩ := Option.filter_eq_some_iff.1 hq
      exact mem_of_lastOf (of_decide_eq_true hlast)
    · obtain ⟨-, hany⟩ := Option.filter_eq_some_iff.1 hv
      obtain ⟨q, hq, hlast⟩ := (Option.any_eq_true _ _).1 hany
      obtain ⟨x, hx, hxe⟩ := List.mem_map.1 (mem_of_lastOf (of_decide_eq_true hlast))
      obtain ⟨hid, hrequest⟩ := Prod.mk.inj hxe
      exact ⟨q, hq, x, hx, hid, hrequest⟩
    · obtain ⟨-, hlast⟩ := Option.filter_eq_some_iff.1 he
      exact mem_of_lastOf (of_decide_eq_true hlast)
  roots := by
    refine List.forall_mem_map.2 fun f _ e he => ?_
    obtain ⟨-, hlast⟩ := List.mem_filter.1 he
    exact mem_of_lastOf (of_decide_eq_true hlast)

/-- An imported graph is closed again. -/
theorem closed_imported (hround : RoundTrips o) (h : Closed o g)
    (hmem : ∀ r, r ∈ revisions ↔ r ∈ g.revisions) : Closed o (imported o g revisions) where
  limits := h.limits
  linked := linked_imported revisions h.linked
  ids := by
    have hobjects : objectIds (imported o g revisions) = objectIds g := by
      unfold objectIds
      rw [allIds_imported]
    refine ⟨hobjects ▸ h.ids.1, fun r hr r' hr' he => ?_, fun r hr hrequest => ?_⟩
    · exact h.ids.2.1 r ((hmem r).1 (List.mem_filter.1 hr).1) r' ((hmem r').1 (List.mem_filter.1 hr').1) he
    · rw [requestIds_imported] at hrequest
      rw [hobjects]
      exact h.ids.2.2 r ((hmem r).1 (List.mem_filter.1 hr).1) hrequest
  history := by
    rw [records_imported revisions hround]
    have hsub : ∀ l : List (ExecutionRecord ι δ),
        ((l.filterMap (keptRecord (withRevisions g revisions))).map fun r => r.id).Sublist (l.map fun r => r.id) := by
      intro l
      induction l with
      | nil => exact .slnil
      | cons r l ih =>
        cases hkept : keptRecord (withRevisions g revisions) r with
        | none =>
          rw [List.filterMap_cons_none hkept, List.map_cons]
          exact ih.cons _
        | some r' =>
          obtain ⟨w, -, -, rfl⟩ := keptRecord_eq_some hkept
          rw [List.filterMap_cons_some hkept, List.map_cons, List.map_cons]
          exact ih.cons_cons _
    exact h.history.sublist (hsub _)
  secrets := by
    intro s hs
    rw [workspaceIds_imported]
    exact h.secrets s hs

end Imported

/-- **What is accepted, and what it becomes.** Where a record that was read is read again as it was written, exactly the
closed graphs pass; what a graph becomes turns nothing on, has its links inside, and passes again without a change. -/
theorem validate_exact [DecidableEq δ] (hround : RoundTrips o) (g : PortableGraph ι δ ν) :
    ((∃ out, validateAndNormalize o g = .ok out) ↔ Closed o g) ∧
      ∀ out, validateAndNormalize o g = .ok out → Safe out.1 ∧ InnerLinks o out.1 ∧
        ∃ warnings, validateAndNormalize o out.1 = .ok (out.1, warnings) := by
  refine ⟨accepts_iff, fun out h => ?_⟩
  have hclosed : Closed o g := accepts_iff.1 ⟨out, h⟩
  obtain ⟨-, revisions, s, hrevisions, -, -, -, rfl⟩ := validate_eq_ok.1 h
  obtain ⟨-, hnodup, hmem⟩ := dedupe_nil hrevisions
  refine ⟨safe_normalize _, innerLinks_imported revisions hround, ?_⟩
  obtain ⟨again, hagain⟩ := accepts_iff.2 (closed_imported revisions hround hclosed hmem)
  obtain ⟨-, revisions', s', hrevisions', -, -, -, rfl⟩ := validate_eq_ok.1 hagain
  have hown : (((imported o g revisions).revisions).map fun r => r.id).Nodup := hnodup.sublist (List.filter_sublist.map _)
  have hself : dedupe o [] (imported o g revisions).revisions = .ok (imported o g revisions).revisions :=
    dedupe_self o ((List.nil_append (imported o g revisions).revisions).symm ▸ hown)
  obtain rfl : (imported o g revisions).revisions = revisions' := Except.ok.inj (hself.symm.trans hrevisions')
  rw [joined_imported revisions hround] at hagain
  have hfixed : normalize (imported o g revisions) = imported o g revisions := normalize_normalize _
  rw [hfixed] at hagain
  exact ⟨_, hagain⟩

end

/-! ## Two graphs -/

/-- Ids that are numbers, of which one has a text, and a history of records. -/
def numbered : Outside Nat Unit (Option (ExecutionRecord Nat Unit)) where
  parseId t := if t = "1".toList then some 1 else none
  showId := Nat.toDigits 10
  fromValue := id
  toValue := some
  linkedPaths _ := []

def earlySettings : Settings Unit := ⟨none, some ⟨true, []⟩, ()⟩

def plainSettings : Settings Unit := ⟨none, none, ()⟩

def legacyAuth : AuthConfig Unit := .multi [.multi [.leaf (.hmac true ()), .leaf (.jwtSvid true true ())]]

/-- A workspace with one request and its revision, which sends what the request does, and a run of it. -/
def oneRequest (revision : Nat) (of : Nat) : PortableGraph Nat Unit (Option (ExecutionRecord Nat Unit)) where
  workspaces := [⟨1, "w".toList, plainSettings, .leaf (.other ())⟩]
  folders := []
  requests := [⟨2, 1, none, "r".toList, some revision, ⟨earlySettings, legacyAuth, ()⟩⟩]
  revisions := [⟨revision, of, (), ⟨earlySettings, legacyAuth, ()⟩⟩]
  environments := []
  tlsProfiles := []
  proxyProfiles := []
  integrations := []
  datasets := []
  scenarios := []
  loadPlans := []
  rulesets := []
  appSettings := none
  secrets := [("1".toList, ⟨"s".toList, some "1".toList⟩)]
  history := [some ⟨7, some 1, some 2, some 9, none, ()⟩]

/-- A left-out revision may have the id of an object, and a revision keeps what a request does not. -/
theorem revision_unchecked :
    (validateAndNormalize numbered (oneRequest 1 8)).toOption.isSome = true ∧
      ¬(objectIds (oneRequest 1 8) ++ (oneRequest 1 8).revisions.map fun r => r.id).Nodup ∧
      (validateAndNormalize numbered (oneRequest 3 2)).toOption.map
        (fun out => out.1.revisions.map fun r => r.spec.settings.sendsEarly) =
        some [true] := by
  refine ⟨by decide, by decide, by decide⟩

theorem roundTrips_numbered : RoundTrips numbered := fun _ _ _ _ _ _ _ => rfl

theorem validate_exact_one :
    ∃ out, RoundTrips numbered ∧ validateAndNormalize numbered (oneRequest 3 2) = .ok out ∧ Safe out.1 ∧
    Closed numbered (oneRequest 3 2) := by
  have hsome : (validateAndNormalize numbered (oneRequest 3 2)).toOption.isSome = true := by decide
  cases hrun : validateAndNormalize numbered (oneRequest 3 2) with
  | error e =>
    rw [hrun] at hsome
    cases hsome
  | ok out =>
    have hexact := validate_exact roundTrips_numbered (oneRequest 3 2)
    exact ⟨out, roundTrips_numbered, rfl, (hexact.2 out hrun).1, hexact.1.1 ⟨out, hrun⟩⟩

end Anvil.Portability
