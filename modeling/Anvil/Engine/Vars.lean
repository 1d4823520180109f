import Anvil.Lib.Action
import Anvil.Lib.Braces
import Anvil.Lib.Strings

/-!
# Variable resolution (`anvil-engine/src/vars.rs`)

A resolver holds layers of variables. Resolving an input replaces each `{{name}}` by the value of the entry that wins,
with the references of that value replaced in turn, and each `{{$helper}}` by what the helper gives.

* `Failure` : the errors, one constructor for each place that makes one;
* `lookup`, `variableValue` : the winning entry and its unexpanded value;
* `dynamic` : the helpers, over the clock and the generators they read;
* `scan`, `resolveInner`, `resolve` : the resolution;
* `maskDynamic` : an input with a stand-in for every helper.
-/

namespace Anvil.Vars
open Anvil.Lib

def maxDepth : Nat := 16

def maxOutput : Nat := 8 * 1024 * 1024

def maxExpansions : Nat := 16384

/-- The stand-in value of a vault variable that is resolved only on use. -/
def deferredSecretValue : Text := "\x00anvil-deferred-vault-variable\x00".toList

structure VarEntry where
  name : Text
  value : Text
  secret : Bool
  /-- Run-local values are data, not templates. -/
  literal : Bool
deriving DecidableEq, Inhabited

structure VarLayer where
  label : Text
  vars : List VarEntry
deriving DecidableEq, Inhabited

/-! ## Failures -/

inductive Failure where
  | tooDeep (field : Text) (stack : List Text)
  | emptyReference (field : Text)
  | cycle (field : Text) (path : List Text)
  | undefined (field expr : Text) (scopes : List Text)
  | tooMany (field : Text)
  | tooLong (field : Text)
  | vault
  | deferred
  | emptyRange (field : Text) (lo hi : Int)
  | noChoices (field : Text)
  | unknownHelper (field other : Text)
  /-- A failure below a secret variable. -/
  | concealed (failure : Failure)
deriving DecidableEq

/-! ## Resolvers -/

/-- What a resolver asks of the vault: the reference an entry of a layer stands for, and the secret of a reference. -/
structure SecretResolver (κ : Type) where
  variableSecret : Nat → Nat → Option κ
  resolve : κ → Option Text

structure Resolver (κ : Type) where
  layers : List VarLayer
  secrets : Option (SecretResolver κ)
  valueTransform : Option (Text → Text)

/-- A reading of the clock, as the three helpers show it. -/
structure Instant where
  timestamp : Int
  timestampMillis : Int
  rfc3339 : Text

/-- The clock and the generators, over a state of their own. -/
structure World (ω : Type) where
  now : ω → Instant × ω
  newV4 : ω → Text × ω
  /-- A number from `lo` to `hi`. -/
  randomRange : Int → Int → ω → Int × ω

/-- What a resolver keeps behind its locks, and the stack of the call in progress. -/
structure State (ω : Type) where
  variableValues : List ((Nat × Nat) × Text)
  expansions : Nat
  counter : Nat
  secretSubstitutions : Nat
  usedSecrets : List Text
  used : List (Text × Text)
  stack : List Text
  world : ω

abbrev ResolveM (ω : Type) := EStateM Failure (State ω)

/-- What `lookup` finds: an entry, its layer's label and both places. -/
structure Found where
  entry : VarEntry
  scope : Text
  layer : Nat
  index : Nat

variable {κ ω : Type}

/-- `Resolver::new`, started in the state `world` of the clock and the generators. -/
def State.new (world : ω) : State ω := ⟨[], 0, 0, 0, [], [], [], world⟩

namespace Resolver

variable (r : Resolver κ)

/-- Layers and entries are searched from the last. -/
def lookup (name : Text) : Option Found :=
  r.layers.zipIdx.reverse.findSome? fun layer =>
    (layer.1.vars.zipIdx.reverse.find? fun v => v.1.name = name).map fun v => ⟨v.1, layer.1.label, layer.2, v.2⟩

def scopesSearched : List Text := r.layers.map VarLayer.label

/-- The entry at a place that `lookup` gave; the source panics at any other. -/
def entryAt (layer index : Nat) : VarEntry := (r.layers.getD layer default).vars.getD index default

def variableSecret (layer index : Nat) : Option κ := r.secrets.bind fun s => s.variableSecret layer index

def resolveSecret (reference : κ) : Option Text := r.secrets.bind fun s => s.resolve reference

/-- A value kept for a place, or the secret of its reference, which is kept. -/
def frozenSecret (layer index : Nat) (reference : κ) : ResolveM ω Text := do
  let s ← EStateM.get
  match s.variableValues.lookup (layer, index) with
  | some value => pure value
  | none =>
    match r.resolveSecret reference with
    | none => throw .vault
    | some value =>
      EStateM.set { s with variableValues := ((layer, index), value) :: s.variableValues }
      pure value

def rawValue (layer index : Nat) : ResolveM ω Text :=
  match r.variableSecret layer index with
  | some reference => r.frozenSecret layer index reference
  | none =>
    if (r.entryAt layer index).value = deferredSecretValue then throw .deferred
    else pure (r.entryAt layer index).value

def transformed (value : Text) : Text :=
  match r.valueTransform with
  | some transform => transform value
  | none => value

def variableValue (layer index : Nat) : ResolveM ω Text := do
  let value ← r.rawValue layer index
  pure (r.transformed value)

end Resolver

/-! ## Helpers -/

/-- The bounds of `$randomInt`. -/
def randomBounds : List Text → Int × Int
  | [a, b] => ((parseI64 a).getD 0, (parseI64 b).getD 1000)
  | _ => (0, 1000)

/-- The choices of `$randomFrom`. -/
def randomChoices (args : List Text) : List Text := (((" ".toList.intercalate args).splitOn '|').filter (· ≠ [])).take 1000

/-- A reading of the clock. -/
def readNow (w : World ω) : ResolveM ω Instant := fun s => .ok (w.now s.world).1 { s with world := (w.now s.world).2 }

def newUuid (w : World ω) : ResolveM ω Text := fun s =>
  .ok (w.newV4 s.world).1 { s with world := (w.newV4 s.world).2 }

def randomRange (w : World ω) (lo hi : Int) : ResolveM ω Int := fun s =>
  .ok (w.randomRange lo hi s.world).1 { s with world := (w.randomRange lo hi s.world).2 }

/-- `fetch_add(1) + 1` on the counter. -/
def nextCount : ResolveM ω Nat := fun s => .ok ((s.counter + 1) % 2 ^ 64) { s with counter := (s.counter + 1) % 2 ^ 64 }

/-- The helper `name` with its arguments, the clock read. -/
def helper (w : World ω) (now : Instant) (name : Text) (args : List Text) (field : Text) : ResolveM ω Text :=
  if name = "uuid".toList ∨ name = "randomUUID".toList ∨ name = "guid".toList then newUuid w
  else if name = "timestamp".toList then pure (toString now.timestamp).toList
  else if name = "timestampMs".toList then pure (toString now.timestampMillis).toList
  else if name = "isoTimestamp".toList then pure now.rfc3339
  else if name = "counter".toList then Nat.toDigits 10 <$> nextCount
  else if name = "randomInt".toList then
    if (randomBounds args).2 < (randomBounds args).1 then
      throw (.emptyRange field (randomBounds args).1 (randomBounds args).2)
    else (fun n => (toString n).toList) <$> randomRange w (randomBounds args).1 (randomBounds args).2
  else if name = "randomFrom".toList then
    if randomChoices args = [] then throw (.noChoices field)
    else (fun i => (randomChoices args).getD i.toNat []) <$> randomRange w 0 ((randomChoices args).length - 1)
  else throw (.unknownHelper field name)

def dynamic (w : World ω) (expr field : Text) : ResolveM ω Text := do
  let now ← readNow w
  helper w now ((splitWhitespace expr).headD []) (splitWhitespace expr).tail field

/-! ## Resolution -/

/-- `fetch_add(1)` on the expansions, refused from the limit on. -/
def countExpansion (field : Text) : ResolveM ω Unit := do
  let s ← EStateM.get
  EStateM.set { s with expansions := s.expansions + 1 }
  refuse (s.expansions ≥ maxExpansions) (.tooMany field)

/-- The use of a variable is noted, and its name put on the stack. -/
def enter (name label : Text) : ResolveM ω Unit := fun s =>
  .ok () { s with used := s.used ++ [(name, label)], stack := s.stack ++ [name] }

def leave : ResolveM ω Unit := fun s => .ok () { s with stack := s.stack.dropLast }

def noteSecret (entry : VarEntry) (value : Text) : ResolveM ω Unit := fun s =>
  if entry.secret ∧ value ≠ [] then
    .ok () { s with secretSubstitutions := s.secretSubstitutions + 1, usedSecrets := s.usedSecrets ++ [value] }
  else .ok () s

/-- `map_err` below a secret entry. -/
def conceal (entry : VarEntry) (m : ResolveM ω Text) : ResolveM ω Text := fun s =>
  match m s with
  | .ok value s' => .ok value s'
  | .error failure s' => .error (if entry.secret then .concealed failure else failure) s'

/-- The winning entry, refused where no layer has one. -/
def winner (r : Resolver κ) (field expr : Text) : ResolveM ω Found :=
  match r.lookup expr with
  | none => throw (.undefined field expr r.scopesSearched)
  | some found => pure found

/-- A literal value stands as it is. -/
def expanded (inner : Text → ResolveM ω Text) (entry : VarEntry) (raw : Text) : ResolveM ω Text :=
  if entry.literal then pure raw else conceal entry (inner raw)

variable (dyn : Text → Text → ResolveM ω Text) (r : Resolver κ) (field : Text)

/-- What a reference becomes; `inner` resolves a value one level down. -/
def reference (inner : Text → ResolveM ω Text) (expr : Text) : ResolveM ω Text := do
  refuse (expr = []) (.emptyReference field)
  let s ← EStateM.get
  refuse (expr ∈ s.stack) (.cycle field (s.stack ++ [expr]))
  let found ← winner r field expr
  countExpansion field
  enter expr found.scope
  let raw ← r.variableValue found.layer found.index
  let value ← expanded inner found.entry raw
  leave
  noteSecret found.entry value
  pure value

/-- What a token becomes. -/
def substitute (inner : Text → ResolveM ω Text) (expr : Text) : ResolveM ω Text :=
  match expr with
  | '$' :: name => dyn name field
  | expr => reference r field inner expr

/-- The loop over the tokens of `rest`, which runs out of `fuel` on no text that is as short. -/
def scan (inner : Text → ResolveM ω Text) : Nat → Text → Text → ResolveM ω Text
  | 0, out, rest => pure (out ++ rest)
  | fuel + 1, out, rest =>
    match findSplit ['\x7b', '\x7b'] rest with
    | none => pure (out ++ rest)
    | some (text, after) =>
      match findSplit ['\x7d', '\x7d'] after with
      | none => pure (out ++ text ++ ['\x7b', '\x7b'] ++ after)
      | some (expr, rest) => do
        let value ← substitute dyn r field inner (trim expr)
        refuse (utf8Len (out ++ text ++ value) > maxOutput) (.tooLong field)
        scan inner fuel (out ++ text ++ value) rest

def tooDeep : ResolveM ω Text := fun s => .error (.tooDeep field s.stack) s

/-- `levels` counts down what `depth` counts up: none is left where `depth > MAX_DEPTH`. -/
def resolveInner : Nat → Text → ResolveM ω Text
  | 0, input => if contains input ['\x7b', '\x7b'] then tooDeep field else pure input
  | levels + 1, input =>
    if contains input ['\x7b', '\x7b'] then scan dyn r field (resolveInner levels) input.length [] input else pure input

/-- `resolve`, with the helpers given by `dyn`. -/
def resolveWith (input : Text) : ResolveM ω Text := do
  modify fun s => { s with stack := [] }
  resolveInner dyn r field (maxDepth + 1) input

def resolve (w : World ω) (r : Resolver κ) (input field : Text) : ResolveM ω Text := resolveWith (dynamic w) r field input

/-! ## Masking -/

def maskFrom (standIn : Text) : Nat → Text → Text
  | 0, rest => rest
  | fuel + 1, rest =>
    match findSplit ['\x7b', '\x7b'] rest with
    | none => rest
    | some (text, after) =>
      match findSplit ['\x7d', '\x7d'] after with
      | none => text ++ ['\x7b', '\x7b'] ++ after
      | some (expr, rest) =>
        if (trim expr).head? = some '$' then text ++ standIn ++ maskFrom standIn fuel rest
        else text ++ (['\x7b', '\x7b'] ++ expr ++ ['\x7d', '\x7d']) ++ maskFrom standIn fuel rest

def maskDynamic (input standIn : Text) : Text := maskFrom standIn input.length input

end Anvil.Vars
