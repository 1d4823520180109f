import Anvil.Lib.Strings

/-!
# The portable graph (`anvil-portability/src/graph.rs`)

Ids are of any type `ι`, a run history has values of any type `ν`, and what no check reads of a specification is of a type
`δ`.

* `AuthConfig`, `Settings`, `RequestSpec` : what a request sends, as far as an import changes it;
* `PortableGraph` : the objects that a bundle carries;
* `allIds` : the ids of its objects;
* `disableLegacy`, `jwtSvidSafety` : the leaves of an auth profile that an import turns off.
-/

namespace Anvil.Portability
open Anvil.Lib

/-! ## Auth profiles -/

/-- An auth profile that holds no other. -/
inductive AuthLeaf (δ : Type)
  | hmac (allowUnsafeLegacy : Bool) (rest : δ)
  | jwtSvid (sendDespiteFailedChecks fromWorkloadApi : Bool) (rest : δ)
  | other (rest : δ)
deriving DecidableEq

inductive AuthConfig (δ : Type)
  | leaf (l : AuthLeaf δ)
  | multi (profiles : List (AuthConfig δ))

namespace AuthConfig
variable {δ : Type}

mutual

def decEq [DecidableEq δ] : (a b : AuthConfig δ) → Decidable (a = b)
  | .leaf l, .leaf k => decidable_of_iff (l = k) (by simp)
  | .leaf _, .multi _ => .isFalse (by simp)
  | .multi _, .leaf _ => .isFalse (by simp)
  | .multi ps, .multi qs =>
    match decEqAll ps qs with
    | .isTrue h => .isTrue (by rw [h])
    | .isFalse h => .isFalse (by simpa using h)

def decEqAll [DecidableEq δ] : (a b : List (AuthConfig δ)) → Decidable (a = b)
  | [], [] => .isTrue rfl
  | [], _ :: _ => .isFalse (by simp)
  | _ :: _, [] => .isFalse (by simp)
  | p :: ps, q :: qs =>
    match decEq p q, decEqAll ps qs with
    | .isTrue h, .isTrue hs => .isTrue (by rw [h, hs])
    | .isFalse h, _ => .isFalse (by simp [h])
    | _, .isFalse hs => .isFalse (by simp [hs])

end

instance [DecidableEq δ] : DecidableEq (AuthConfig δ) := decEq

mutual

/-- The profile with each leaf changed, at any depth. -/
def mapLeaves (f : AuthLeaf δ → AuthLeaf δ) : AuthConfig δ → AuthConfig δ
  | .leaf l => .leaf (f l)
  | .multi ps => .multi (mapLeavesAll f ps)

def mapLeavesAll (f : AuthLeaf δ → AuthLeaf δ) : List (AuthConfig δ) → List (AuthConfig δ)
  | [] => []
  | p :: ps => mapLeaves f p :: mapLeavesAll f ps

end

mutual

def leaves : AuthConfig δ → List (AuthLeaf δ)
  | .leaf l => [l]
  | .multi ps => leavesAll ps

def leavesAll : List (AuthConfig δ) → List (AuthLeaf δ)
  | [] => []
  | p :: ps => leaves p ++ leavesAll ps

end

theorem leaves_mapLeaves (f : AuthLeaf δ → AuthLeaf δ) (a : AuthConfig δ) : (a.mapLeaves f).leaves = a.leaves.map f := by
  refine @AuthConfig.rec δ (fun a => (a.mapLeaves f).leaves = a.leaves.map f)
    (fun ps => leavesAll (mapLeavesAll f ps) = (leavesAll ps).map f) ?leaf ?multi ?nil ?cons a
  case leaf => exact fun _ => rfl
  case multi => exact fun _ hall => hall
  case nil => rfl
  case cons =>
    intro p ps hp hps
    rw [mapLeavesAll, leavesAll, leavesAll, hp, hps, List.map_append]

/-- A change that leaves each leaf as it is changes nothing. -/
theorem mapLeaves_self {f : AuthLeaf δ → AuthLeaf δ} (a : AuthConfig δ) : (∀ l ∈ a.leaves, f l = l) → a.mapLeaves f = a := by
  refine @AuthConfig.rec δ (fun a => (∀ l ∈ a.leaves, f l = l) → a.mapLeaves f = a)
    (fun ps => (∀ l ∈ leavesAll ps, f l = l) → mapLeavesAll f ps = ps) ?leaf ?multi ?nil ?cons a
  case leaf => exact fun l h => congrArg AuthConfig.leaf (h l (List.mem_singleton.2 rfl))
  case multi => exact fun _ hall h => congrArg AuthConfig.multi (hall h)
  case nil => exact fun _ => rfl
  case cons =>
    intro p ps hp hps h
    rw [leavesAll, List.forall_mem_append] at h
    rw [mapLeavesAll, hp h.1, hps h.2]

end AuthConfig

namespace AuthLeaf
variable {δ : Type}

def legacy : AuthLeaf δ → Bool
  | .hmac allow _ => allow
  | _ => false

def sendsAnyway : AuthLeaf δ → Bool
  | .jwtSvid send _ _ => send
  | _ => false

def fromApi : AuthLeaf δ → Bool
  | .jwtSvid _ api _ => api
  | _ => false

def disableLegacy : AuthLeaf δ → AuthLeaf δ
  | .hmac _ rest => .hmac false rest
  | l => l

def jwtSvidSafety : AuthLeaf δ → AuthLeaf δ
  | .jwtSvid _ api rest => .jwtSvid false api rest
  | l => l

end AuthLeaf

/-- `disable_legacy`, with what it adds to the count. -/
def disableLegacy {δ : Type} (a : AuthConfig δ) : AuthConfig δ × Nat :=
  (a.mapLeaves AuthLeaf.disableLegacy, a.leaves.countP AuthLeaf.legacy)

/-- `jwt_svid_safety`, with what it adds to the two counts. -/
def jwtSvidSafety {δ : Type} (a : AuthConfig δ) : AuthConfig δ × Nat × Nat :=
  (a.mapLeaves AuthLeaf.jwtSvidSafety, a.leaves.countP AuthLeaf.sendsAnyway, a.leaves.countP AuthLeaf.fromApi)

/-! ## The graph -/

structure RedirectPolicy where
  follow : Bool
  max : UInt8
  forwardCredentialsCrossOrigin : Bool
deriving DecidableEq

structure EarlyDataPolicy where
  enabled : Bool
  extraMethods : List Text
deriving DecidableEq

/-- `SettingsOverrides`. -/
structure Settings (δ : Type) where
  redirects : Option RedirectPolicy
  earlyData : Option EarlyDataPolicy
  rest : δ
deriving DecidableEq

structure RequestSpec (δ : Type) where
  settings : Settings δ
  auth : AuthConfig δ
  rest : δ
deriving DecidableEq

structure Workspace (ι δ : Type) where
  id : ι
  name : Text
  settings : Settings δ
  auth : AuthConfig δ

structure Folder (ι δ : Type) where
  id : ι
  workspaceId : ι
  parentId : Option ι
  name : Text
  settings : Settings δ
  auth : AuthConfig δ
  importEnvironmentIds : List ι
  useWorkspaceScope : Bool

structure RequestDefinition (ι δ : Type) where
  id : ι
  workspaceId : ι
  folderId : Option ι
  name : Text
  revisionId : Option ι
  spec : RequestSpec δ

/-- With the instant and the digest of the revision in `stamp`. -/
structure RequestRevision (ι δ : Type) where
  id : ι
  requestId : ι
  stamp : δ
  spec : RequestSpec δ
deriving DecidableEq

/-- An environment or a proxy profile. -/
structure Named (ι : Type) where
  id : ι
  workspaceId : ι
  name : Text

structure TlsProfile (ι : Type) where
  id : ι
  workspaceId : ι
  name : Text
  verify : Bool
  fromWorkloadApi : Bool

/-- `IntegrationProfile`, of the one kind there is. -/
structure Integration (ι : Type) where
  id : ι
  workspaceId : ι
  name : Text
  requireVerifiedTls : Bool

/-- With the path of a linked file. -/
structure Dataset (ι : Type) where
  id : ι
  workspaceId : ι
  name : Text
  linkedPath : Option Text

structure Scenario (ι : Type) where
  id : ι
  workspaceId : ι
  name : Text
  steps : List ι
  datasetId : Option ι
  trusted : Bool

structure LoadPlan (ι : Type) where
  id : ι
  workspaceId : ι
  name : Text
  chain : List ι
  mix : List ι
  datasetId : Option ι
  environmentId : Option ι
  trusted : Bool

structure StoredRuleset (ι : Type) where
  id : ι
  name : Text
  text : Text

structure SecretValue where
  label : Text
  workspaceId : Option Text

@[ext]
structure PortableGraph (ι δ ν : Type) where
  workspaces : List (Workspace ι δ)
  folders : List (Folder ι δ)
  requests : List (RequestDefinition ι δ)
  revisions : List (RequestRevision ι δ)
  environments : List (Named ι)
  tlsProfiles : List (TlsProfile ι)
  proxyProfiles : List (Named ι)
  integrations : List (Integration ι)
  datasets : List (Dataset ι)
  scenarios : List (Scenario ι)
  loadPlans : List (LoadPlan ι)
  rulesets : List (StoredRuleset ι)
  appSettings : Option (Settings δ)
  secrets : List (Text × SecretValue)
  history : List ν

/-- `all_ids`: the kind, the id and the name of each object but the revisions. -/
def allIds {ι δ ν : Type} (g : PortableGraph ι δ ν) : List (Text × ι × Text) :=
  g.workspaces.map (fun x => ("workspace".toList, x.id, x.name)) ++ g.folders.map
    (fun x => ("folder".toList, x.id, x.name)) ++
  g.requests.map (fun x => ("request".toList, x.id, x.name)) ++ g.environments.map
    (fun x => ("environment".toList, x.id, x.name)) ++
  g.tlsProfiles.map (fun x => ("tls_profile".toList, x.id, x.name)) ++
  g.proxyProfiles.map (fun x => ("proxy_profile".toList, x.id, x.name)) ++
  g.integrations.map (fun x => ("integration".toList, x.id, x.name)) ++ g.datasets.map
    (fun x => ("dataset".toList, x.id, x.name)) ++
  g.scenarios.map (fun x => ("scenario".toList, x.id, x.name)) ++ g.loadPlans.map
    (fun x => ("load_plan".toList, x.id, x.name)) ++
  g.rulesets.map (fun x => ("api_ruleset".toList, x.id, x.name))

end Anvil.Portability
