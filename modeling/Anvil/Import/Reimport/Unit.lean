import Anvil.Lib.Bytes
import Anvil.Lib.Keyed
import Anvil.Import.Reimport.Request
import Std.Data.String.ToNat

/-!
# The units of scoped configuration (`anvil-import/src/reimport.rs`)

A scope is compared unit by unit. Every unit has a text key: `variables/<name>`, `environments/<id>/variables/<name>`,
`folders/<id>/settings` and so on, where the `n`-th variable of one name is `<name>#n`.

* `variableKeys`, `scopeUnits`, `unitHashes`, `within`, `hashAt` : as in the source;
* `Address`, `Address.text_injective` : what a key names, and that no two of them have the same text;
* `nodup_labels` : when the variables of one list have distinct keys;
* `getElem?_unitHashes`, `unitHashes_eq_some` : what the hashes of a scope hold, by address.
-/

namespace Anvil.Import
open Anvil.Lib Std

/-! ## Ids -/

def hexDigit (n : Nat) : Char := if n < 10 then Char.ofNat (48 + n) else Char.ofNat (87 + n)

/-- The `i`-th hexadecimal digit. -/
def Uuid.hex (u : Uuid) (i : Nat) : Char := hexDigit (u.bits.toNat / 16 ^ (31 - i) % 16)

/-- The hyphenated form, `xxxxxxxx-xxxx-xxxx-xxxx-xxxxxxxxxxxx`. -/
def Uuid.text (u : Uuid) : Text :=
  (List.range' 0 8).map u.hex ++ '-' :: ((List.range' 8 4).map u.hex ++ '-' :: ((List.range' 12 4).map u.hex ++
    '-' :: ((List.range' 16 4).map u.hex ++ '-' :: (List.range' 20 12).map u.hex)))

theorem Uuid.length_text (u : Uuid) : u.text.length = 36 := by
  simp [Uuid.text]

theorem hexDigit_injOn {m n : Nat} (hm : m < 16) (hn : n < 16) (h : hexDigit m = hexDigit n) : m = n := by
  have : ∀ a < 16, ∀ b < 16, hexDigit a = hexDigit b → a = b := by decide
  exact this m hm n hn h

theorem eq_of_digits (n : Nat) : ∀ {a b : Nat}, a < 16 ^ n → b < 16 ^ n →
    (∀ k < n, a / 16 ^ k % 16 = b / 16 ^ k % 16) → a = b := by
  induction n with
  | zero =>
    intro a b ha hb _
    rw [pow_zero] at ha hb
    omega
  | succ n ih =>
    intro a b ha hb h
    have hlow := h 0 (by omega)
    rw [pow_zero, Nat.div_one, Nat.div_one] at hlow
    have hhigh : a / 16 = b / 16 := by
      apply ih
      · rw [pow_succ] at ha
        omega
      · rw [pow_succ] at hb
        omega
      · intro k hk
        have := h (k + 1) (by omega)
        rwa [pow_succ', ← Nat.div_div_eq_div_mul, ← Nat.div_div_eq_div_mul] at this
    omega

theorem Uuid.text_injective : Function.Injective Uuid.text := by
  intro u v h
  have hdigits : ∀ i < 32, u.hex i = v.hex i := by
    intro i hi
    unfold Uuid.text at h
    obtain ⟨h₁, h⟩ := List.append_inj h (by simp)
    obtain ⟨h₂, h⟩ := List.append_inj (List.cons.inj h).2 (by simp)
    obtain ⟨h₃, h⟩ := List.append_inj (List.cons.inj h).2 (by simp)
    obtain ⟨h₄, h⟩ := List.append_inj (List.cons.inj h).2 (by simp)
    have h₅ := (List.cons.inj h).2
    rw [List.map_inj_left] at h₁ h₂ h₃ h₄ h₅
    simp only [List.mem_range'_1] at h₁ h₂ h₃ h₄ h₅
    by_cases c₁ : i < 8
    · exact h₁ i (by omega)
    by_cases c₂ : i < 12
    · exact h₂ i (by omega)
    by_cases c₃ : i < 16
    · exact h₃ i (by omega)
    by_cases c₄ : i < 20
    · exact h₄ i (by omega)
    · exact h₅ i (by omega)
  have hbits : u.bits.toNat = v.bits.toNat := by
    apply eq_of_digits 32 u.bits.isLt v.bits.isLt
    intro k hk
    have := hexDigit_injOn (Nat.mod_lt _ (by omega)) (Nat.mod_lt _ (by omega)) (hdigits (31 - k) (by omega))
    rwa [show 31 - (31 - k) = k by omega] at this
  cases u
  cases v
  exact congrArg Uuid.mk (BitVec.eq_of_toNat_eq hbits)

theorem Uuid.text_append_inj {u v : Uuid} {r s : Text} (h : u.text ++ r = v.text ++ s) : u = v ∧ r = s := by
  obtain ⟨htext, hrest⟩ := List.append_inj h (by rw [u.length_text, v.length_text])
  exact ⟨Uuid.text_injective htext, hrest⟩

/-! ## Scopes -/

/-- A variable. Its value, its marks and its description are compared with it and not looked at. -/
structure Variable (J : Type) where
  name : Text
  rest : J
deriving DecidableEq

structure Environment (J : Type) where
  id : Uuid
  name : Text
  vars : List (Variable J)
  /-- The dates and the workspace. -/
  rest : J
deriving DecidableEq

structure Folder (J : Type) where
  id : Uuid
  name : Text
  description : Text
  settings : J
  vars : List (Variable J)
  auth : J
  /-- The dates, the place in the workspace, the tags and the marks of an import root. -/
  rest : J
deriving DecidableEq

structure ImportedScope (J : Type) where
  description : Text
  settings : J
  vars : List (Variable J)
  auth : J
  environments : List (Environment J)
  folders : List (Folder J)
deriving DecidableEq

def environmentKey (id : Uuid) : Key := "environments/".toList ++ id.text

def folderKey (id : Uuid) : Key := "folders/".toList ++ id.text

/-- The `n`-th variable of one name. -/
def variableLabel (name : Text) (n : Nat) : Text := if n = 1 then name else name ++ '#' :: n.repr.toList

section Model
variable {J H W : Type}

def variableKeys (at_ : Key) (vars : List (Variable J)) : List (Key × Variable J) :=
  numbered Variable.name (fun name n => at_ ++ '/' :: variableLabel name n) vars

def Variable.value (v : Variable J) : UnitValue J := .variable v.name v.rest

def variableUnits (at_ : Key) (vars : List (Variable J)) : List (Key × UnitValue J) :=
  (variableKeys at_ vars).map fun e => (e.1, e.2.value)

def environmentUnits (e : Environment J) : List (Key × UnitValue J) :=
  (environmentKey e.id, .text e.name) :: variableUnits (environmentKey e.id ++ "/variables".toList) e.vars

def folderUnits (f : Folder J) : List (Key × UnitValue J) :=
  (folderKey f.id, .text f.name) ::
  (folderKey f.id ++ "/description".toList, .text f.description) ::
  (folderKey f.id ++ "/settings".toList, .json f.settings) ::
  (folderKey f.id ++ "/auth".toList, .json f.auth) ::
  variableUnits (folderKey f.id ++ "/variables".toList) f.vars

def scopeUnits (s : ImportedScope J) : List (Key × UnitValue J) :=
  [("description".toList, .text s.description), ("settings".toList, .json s.settings), ("auth".toList, .json s.auth)] ++
    variableUnits "variables".toList s.vars ++ s.environments.flatMap environmentUnits ++
    s.folders.flatMap folderUnits

def unitHashes (hs : Hashing J H W) (s : ImportedScope J) : Hashes H :=
  ExtTreeMap.ofList ((scopeUnits s).map fun e => (e.1, hs.unit e.2)) compare

/-- The entries for the environment at `key` and its variables. -/
def within (hashes : Hashes H) (key : Key) : Hashes H :=
  hashes.filter fun k _ => k == key || (key ++ ['/']).isPrefixOf k

/-- The hash of a unit, or one hash over all of an environment. -/
def hashAt (hs : Hashing J H W) (hashes : Hashes H) (key : Key) (whole : Bool) : Option (H ⊕ W) :=
  if whole then
    let all := within hashes key
    if all.isEmpty then none else some (.inr (hs.all all))
  else hashes[key]?.map .inl

/-! ## Addresses -/

end Model

/-- The units that a scope and a folder both have. -/
inductive ScopeUnit where
  | description
  | settings
  | auth
  | variable (label : Text)
deriving DecidableEq

def ScopeUnit.text : ScopeUnit → Text
  | .description => "description".toList
  | .settings => "settings".toList
  | .auth => "auth".toList
  | .variable label => "variables/".toList ++ label

/-- What a key names. An environment or a folder without more is its name. -/
inductive Address where
  | own (u : ScopeUnit)
  | environment (id : Uuid) (label : Option Text)
  | folder (id : Uuid) (u : Option ScopeUnit)
deriving DecidableEq

def Address.text : Address → Key
  | .own u => u.text
  | .environment id none => environmentKey id
  | .environment id (some label) => environmentKey id ++ "/variables/".toList ++ label
  | .folder id none => folderKey id
  | .folder id (some u) => folderKey id ++ '/' :: u.text

/-- The first character of a unit's text. -/
def ScopeUnit.head : ScopeUnit → Char
  | .description => 'd'
  | .settings => 's'
  | .auth => 'a'
  | .variable _ => 'v'

theorem ScopeUnit.head_text (u : ScopeUnit) : u.text.head? = some u.head := by
  cases u <;> rfl

theorem ScopeUnit.text_injective : Function.Injective ScopeUnit.text := by
  intro a b h
  have hhead := congrArg List.head? h
  rw [head_text, head_text, Option.some.injEq] at hhead
  match a, b with
  | .variable _, .variable _ => rw [List.append_cancel_left h]
  | .description, .description => rfl
  | .settings, .settings => rfl
  | .auth, .auth => rfl

theorem ScopeUnit.head_text_ne (u : ScopeUnit) : u.text.head? ≠ some 'e' ∧ u.text.head? ≠ some 'f' := by
  rw [head_text]
  cases u <;> simp [ScopeUnit.head]

theorem environmentKey_append_inj {i j : Uuid} {r s : Text} (h : environmentKey i ++ r = environmentKey j ++ s) :
    i = j ∧ r = s := by
  unfold environmentKey at h
  simp only [List.append_assoc] at h
  have hrest := List.append_cancel_left h
  exact Uuid.text_append_inj hrest

theorem folderKey_append_inj {i j : Uuid} {r s : Text} (h : folderKey i ++ r = folderKey j ++ s) : i = j ∧ r = s := by
  unfold folderKey at h
  simp only [List.append_assoc] at h
  have hrest := List.append_cancel_left h
  exact Uuid.text_append_inj hrest

/-- What follows the id in the key of a unit of an environment. -/
def environmentTail (label : Option Text) : Text := (label.map ("/variables/".toList ++ ·)).getD []

/-- What follows the id in the key of a unit of a folder. -/
def folderTail (u : Option ScopeUnit) : Text := (u.map ('/' :: ·.text)).getD []

theorem Address.text_environment (id : Uuid) (label : Option Text) :
    (Address.environment id label).text = environmentKey id ++ environmentTail label := by
  cases label <;> simp [Address.text, environmentTail]

theorem Address.text_folder (id : Uuid) (u : Option ScopeUnit) :
    (Address.folder id u).text = folderKey id ++ folderTail u := by
  cases u <;> simp [Address.text, folderTail]

theorem environmentTail_injective : Function.Injective environmentTail := by
  intro a b h
  cases a <;> cases b <;> simp_all [environmentTail]

theorem folderTail_injective : Function.Injective folderTail := by
  intro a b h
  cases a <;> cases b <;> simp_all [folderTail, ScopeUnit.text_injective.eq_iff]

theorem head_environmentKey (id : Uuid) (r : Text) : (environmentKey id ++ r).head? = some 'e' := rfl

theorem head_folderKey (id : Uuid) (r : Text) : (folderKey id ++ r).head? = some 'f' := rfl

theorem Address.text_injective : Function.Injective Address.text := by
  intro a b h
  have hhead := congrArg List.head? h
  match a, b with
  | .own u, .own v => rw [ScopeUnit.text_injective h]
  | .own u, .environment j l =>
    rw [text_environment j l, head_environmentKey] at hhead
    exact absurd hhead u.head_text_ne.1
  | .own u, .folder j v =>
    rw [text_folder j v, head_folderKey] at hhead
    exact absurd hhead u.head_text_ne.2
  | .environment i k, .own v =>
    rw [text_environment i k, head_environmentKey] at hhead
    exact absurd hhead.symm v.head_text_ne.1
  | .environment i k, .environment j l =>
    rw [text_environment, text_environment] at h
    obtain ⟨rfl, htail⟩ := environmentKey_append_inj h
    rw [environmentTail_injective htail]
  | .environment i k, .folder j v =>
    rw [text_environment, text_folder, head_environmentKey, head_folderKey] at hhead
    exact absurd hhead (by decide)
  | .folder i u, .own v =>
    rw [text_folder i u, head_folderKey] at hhead
    exact absurd hhead.symm v.head_text_ne.2
  | .folder i u, .environment j l =>
    rw [text_environment, text_folder, head_environmentKey, head_folderKey] at hhead
    exact absurd hhead (by decide)
  | .folder i u, .folder j v =>
    rw [text_folder, text_folder] at h
    obtain ⟨rfl, htail⟩ := folderKey_append_inj h
    rw [folderTail_injective htail]

section Addressed
variable {J H W : Type}

/-- The variables by their names, the repeated ones numbered. -/
def labels (vars : List (Variable J)) : List (Text × Variable J) := numbered Variable.name variableLabel vars

def scopeParts (description : Text) (settings auth : J) (vars : List (Variable J)) : List (ScopeUnit × UnitValue J) :=
  [(.description, .text description), (.settings, .json settings), (.auth, .json auth)] ++
    (labels vars).map fun e => (.variable e.1, e.2.value)

def environmentParts (e : Environment J) : List (Option Text × UnitValue J) :=
  (none, .text e.name) :: (labels e.vars).map fun x => (some x.1, x.2.value)

def folderParts (f : Folder J) : List (Option ScopeUnit × UnitValue J) :=
  (none, .text f.name) :: (scopeParts f.description f.settings f.auth f.vars).map fun x => (some x.1, x.2)

/-- The units of a scope by what their keys name. -/
def addressed (s : ImportedScope J) : List (Address × UnitValue J) :=
  (scopeParts s.description s.settings s.auth s.vars).map (fun e => (Address.own e.1, e.2)) ++
    family Environment.id environmentParts Address.environment s.environments ++
    family Folder.id folderParts Address.folder s.folders

theorem variableKeys_eq (at_ : Key) (vars : List (Variable J)) :
    variableKeys at_ vars = (labels vars).map fun e => (at_ ++ '/' :: e.1, e.2) :=
  numbered_key Variable.name variableLabel (fun label => at_ ++ '/' :: label) vars

theorem variableUnits_eq (at_ : Key) (vars : List (Variable J)) :
    variableUnits at_ vars = (labels vars).map fun e => (at_ ++ '/' :: e.1, e.2.value) := by
  unfold variableUnits
  rw [variableKeys_eq, List.map_map]
  rfl

theorem environmentUnits_eq (e : Environment J) :
    environmentUnits e = (environmentParts e).map fun x => ((Address.environment e.id x.1).text, x.2) := by
  unfold environmentUnits environmentParts
  rw [variableUnits_eq, List.map_cons, List.map_map]
  simp only [Function.comp_def, Address.text, List.append_assoc]
  rfl

theorem folderUnits_eq (f : Folder J) :
    folderUnits f = (folderParts f).map fun x => ((Address.folder f.id x.1).text, x.2) := by
  have hd : "/description".toList = '/' :: "description".toList := rfl
  have hs : "/settings".toList = '/' :: "settings".toList := rfl
  have ha : "/auth".toList = '/' :: "auth".toList := rfl
  have hv : ∀ label : Text, folderKey f.id ++ "/variables".toList ++ '/' :: label =
      folderKey f.id ++ '/' :: ("variables/".toList ++ label) := by
    intro label
    rw [List.append_assoc]
    rfl
  unfold folderUnits folderParts scopeParts
  rw [variableUnits_eq, hd, hs, ha]
  simp only [hv, List.map_cons, List.map_append, List.map_map]
  rfl

theorem scopeUnits_eq (s : ImportedScope J) : scopeUnits s = (addressed s).map fun e => (e.1.text, e.2) := by
  have hown : (scopeParts s.description s.settings s.auth s.vars).map (fun e => (e.1.text, e.2)) =
      [("description".toList, .text s.description), ("settings".toList, .json s.settings),
        ("auth".toList, .json s.auth)] ++ variableUnits "variables".toList s.vars := by
    unfold scopeParts
    rw [variableUnits_eq, List.map_append, List.map_map]
    rfl
  unfold scopeUnits addressed family
  rw [List.map_append, List.map_append, List.map_flatMap, List.map_flatMap, List.map_map, ← hown,
    funext environmentUnits_eq, funext folderUnits_eq]
  simp only [List.map_map]
  rfl

/-- No two environments and no two folders of a scope have the same id. -/
structure ImportedScope.DistinctIds (s : ImportedScope J) : Prop where
  environments : (s.environments.map (·.id)).Nodup
  folders : (s.folders.map (·.id)).Nodup

/-- No two variables of one list have the same label. -/
structure ImportedScope.DistinctLabels (s : ImportedScope J) : Prop where
  own : (keysOf (labels s.vars)).Nodup
  environments : ∀ e ∈ s.environments, (keysOf (labels e.vars)).Nodup
  folders : ∀ f ∈ s.folders, (keysOf (labels f.vars)).Nodup

/-- No variable is named like the key of a repeated one. -/
def NoClash (vars : List (Variable J)) : Prop :=
  ∀ name n, 2 ≤ n → n ≤ (vars.map Variable.name).count name → name ++ '#' :: n.repr.toList ∉ vars.map Variable.name

theorem hash_not_mem_repr (n : Nat) : '#' ∉ n.repr.toList := by
  intro h
  rw [Nat.toList_repr] at h
  have := Nat.isDigit_of_mem_toDigits (by decide) (by decide) h
  exact absurd this (by decide)

theorem nodup_labels {vars : List (Variable J)} : (keysOf (labels vars)).Nodup ↔ NoClash vars := by
  unfold labels
  rw [nodup_numbered]
  constructor
  · intro h name n hn hcount hmem
    have := h (name ++ '#' :: n.repr.toList) 1 name n le_rfl (List.count_pos_iff.2 hmem) (by omega) hcount (by
      unfold variableLabel
      rw [if_pos rfl, if_neg (by omega)])
    omega
  · intro h x n y m hn hn' hm hm' heq
    unfold variableLabel at heq
    split_ifs at heq with h₁ h₂ h₂
    · exact ⟨heq, h₁.trans h₂.symm⟩
    · refine absurd ?_ (h y m (by omega) hm')
      rw [← heq]
      exact List.count_pos_iff.1 (by omega)
    · refine absurd ?_ (h x n (by omega) hn')
      rw [heq]
      exact List.count_pos_iff.1 (by omega)
    · obtain ⟨hx, hrepr⟩ := append_cons_inj (hash_not_mem_repr n) (hash_not_mem_repr m) heq
      exact ⟨hx, Nat.repr_injective (String.ext_iff.2 hrepr)⟩

/-- No variable of a scope is named like the key of a repeated one of its list. -/
structure ImportedScope.NoClashes (s : ImportedScope J) : Prop where
  own : NoClash s.vars
  environments : ∀ e ∈ s.environments, NoClash e.vars
  folders : ∀ f ∈ s.folders, NoClash f.vars

theorem distinctLabels_iff {s : ImportedScope J} : s.DistinctLabels ↔ s.NoClashes := by
  constructor
  · rintro ⟨hown, henv, hfolder⟩
    exact ⟨nodup_labels.1 hown, fun e he => nodup_labels.1 (henv e he), fun f hf => nodup_labels.1 (hfolder f hf)⟩
  · rintro ⟨hown, henv, hfolder⟩
    exact ⟨nodup_labels.2 hown, fun e he => nodup_labels.2 (henv e he), fun f hf => nodup_labels.2 (hfolder f hf)⟩

theorem nodup_scopeParts (description : Text) (settings auth : J) {vars : List (Variable J)}
    (h : (keysOf (labels vars)).Nodup) : (keysOf (scopeParts description settings auth vars)).Nodup := by
  have hvars : ((labels vars).map fun e => ScopeUnit.variable e.1).Nodup := by
    have := h.map (f := ScopeUnit.variable) fun a b hab => ScopeUnit.variable.inj hab
    rwa [List.map_map] at this
  simp only [scopeParts, keysOf, List.map_cons, List.map_map, Function.comp_def,
    List.cons_append, List.nil_append, List.nodup_cons, List.mem_cons, List.mem_map, not_or, hvars]
  simp

theorem nodup_environmentParts {e : Environment J} (h : (keysOf (labels e.vars)).Nodup) :
    (keysOf (environmentParts e)).Nodup := by
  have hvars := h.map (f := some) fun a b hab => Option.some.inj hab
  rw [List.map_map] at hvars
  refine List.nodup_cons.2 ⟨?_, ?_⟩
  · simp
  · rwa [List.map_map]

theorem nodup_folderParts {f : Folder J} (h : (keysOf (labels f.vars)).Nodup) : (keysOf (folderParts f)).Nodup := by
  have hparts := (nodup_scopeParts f.description f.settings f.auth h).map (f := some) fun a b hab => Option.some.inj hab
  rw [List.map_map] at hparts
  refine List.nodup_cons.2 ⟨?_, ?_⟩
  · simp
  · rwa [List.map_map]

section Mem
variable {s : ImportedScope J} {v : UnitValue J}

theorem environment_injective2 : Function.Injective2 Address.environment :=
  fun _ _ _ _ h => Address.environment.inj h

theorem folder_injective2 : Function.Injective2 Address.folder :=
  fun _ _ _ _ h => Address.folder.inj h

theorem mem_addressed {a : Address} :
    (a, v) ∈ addressed s ↔
      match a with
      | .own u => (u, v) ∈ scopeParts s.description s.settings s.auth s.vars
      | .environment id label => ∃ e ∈ s.environments, e.id = id ∧ (label, v) ∈ environmentParts e
      | .folder id u => ∃ f ∈ s.folders, f.id = id ∧ (u, v) ∈ folderParts f := by
  unfold addressed
  rw [List.mem_append, List.mem_append]
  cases a with
  | own u =>
    simp [family]
  | environment id label =>
    rw [mem_family Environment.id environmentParts environment_injective2]
    simp [family]
  | folder id u =>
    rw [mem_family Folder.id folderParts folder_injective2]
    simp [family]

theorem nodup_addressed (hids : s.DistinctIds) (hlabels : s.DistinctLabels) : (keysOf (addressed s)).Nodup := by
  have hown := (nodup_scopeParts s.description s.settings s.auth hlabels.own).map (f := Address.own)
    fun a b hab => Address.own.inj hab
  have henv := nodup_family Environment.id environmentParts environment_injective2 hids.environments
    fun e he => nodup_environmentParts (hlabels.environments e he)
  have hfolder := nodup_family Folder.id folderParts folder_injective2 hids.folders
    fun f hf => nodup_folderParts (hlabels.folders f hf)
  unfold addressed
  rw [keysOf, List.map_append, List.map_append, List.nodup_append, List.nodup_append]
  rw [List.map_map] at hown
  refine ⟨⟨by rwa [List.map_map], henv, ?_⟩, hfolder, ?_⟩
  · intro a ha b hb hab
    subst hab
    simp only [List.mem_map, family, List.mem_flatMap] at ha hb
    obtain ⟨_, ⟨_, -, rfl⟩, rfl⟩ := ha
    obtain ⟨_, ⟨_, -, _, -, rfl⟩, hb⟩ := hb
    cases hb
  · intro a ha b hb hab
    subst hab
    simp only [List.mem_append, List.mem_map, family, List.mem_flatMap] at ha hb
    obtain ⟨_, ⟨_, -, _, -, rfl⟩, rfl⟩ := hb
    obtain ⟨_, ⟨_, -, rfl⟩, ha⟩ | ⟨_, ⟨_, -, _, -, rfl⟩, ha⟩ := ha
    · cases ha
    · cases ha

end Mem

/-! ## Hashes -/

section Hashes
variable (hs : Hashing J H W) {s : ImportedScope J} (hids : s.DistinctIds) (hlabels : s.DistinctLabels)

/-- The hashes of the units of one environment. -/
def environmentHashes (e : Environment J) : Hashes H :=
  ExtTreeMap.ofList ((environmentUnits e).map fun x => (x.1, hs.unit x.2)) compare

omit hlabels in
/-- No two units of a scope have the same key exactly when no two variables of one list have the same label. -/
theorem nodup_scopeUnits (hids : s.DistinctIds) : (keysOf (scopeUnits s)).Nodup ↔ s.DistinctLabels := by
  rw [scopeUnits_eq, keysOf, List.map_map]
  constructor
  · intro h
    have haddr : ((addressed s).map Prod.fst).Nodup :=
      List.Nodup.of_map Address.text (by rw [List.map_map]; exact h)
    unfold addressed family at haddr
    rw [List.map_append, List.map_append, List.nodup_append, List.nodup_append, List.map_flatMap, List.map_flatMap,
      List.nodup_flatMap, List.nodup_flatMap] at haddr
    obtain ⟨⟨hown, ⟨henv, -⟩, -⟩, ⟨hfolder, -⟩, -⟩ := haddr
    refine ⟨?_, ?_, ?_⟩
    · rw [List.map_map] at hown
      unfold scopeParts at hown
      rw [List.map_append, List.nodup_append, List.map_map] at hown
      exact List.Nodup.of_map (fun l => Address.own (.variable l)) (by rw [List.map_map]; exact hown.2.1)
    · intro e he
      have := henv e he
      unfold environmentParts at this
      rw [List.map_map, List.map_cons, List.nodup_cons, List.map_map] at this
      exact List.Nodup.of_map (fun l => Address.environment e.id (some l)) (by rw [List.map_map]; exact this.2)
    · intro f hf
      have := hfolder f hf
      unfold folderParts scopeParts at this
      rw [List.map_map, List.map_cons, List.nodup_cons, List.map_map, List.map_append, List.nodup_append,
        List.map_map] at this
      exact List.Nodup.of_map (fun l => Address.folder f.id (some (.variable l)))
        (by rw [List.map_map]; exact this.2.2.1)
  · intro hlabels
    have := (nodup_addressed hids hlabels).map (f := Address.text) Address.text_injective
    rwa [keysOf, List.map_map] at this

section
include hids hlabels

theorem nodup_keys_scopeUnits : (keysOf ((scopeUnits s).map fun e => (e.1, hs.unit e.2))).Nodup := by
  rw [keysOf, List.map_map]
  exact (nodup_scopeUnits hids).2 hlabels

theorem getElem?_unitHashes (a : Address) :
    (unitHashes hs s)[a.text]? = ((addressed s).lookup a).map hs.unit := by
  unfold unitHashes
  rw [getElem?_ofList (nodup_keys_scopeUnits hs hids hlabels), scopeUnits_eq, List.map_map]
  exact lookup_map Address.text_injective hs.unit (addressed s) a

theorem contains_unitHashes (a : Address) : (unitHashes hs s).contains a.text = true ↔ a ∈ keysOf (addressed s) := by
  rw [ExtTreeMap.contains_eq_isSome_getElem?, getElem?_unitHashes hs hids hlabels, Option.isSome_map,
    Option.isSome_iff_ne_none, ne_eq, lookup_eq_none, not_not]

theorem unitHashes_eq_some {k : Key} {h : H} :
    (unitHashes hs s)[k]? = some h ↔ ∃ a v, (a, v) ∈ addressed s ∧ a.text = k ∧ hs.unit v = h := by
  unfold unitHashes
  rw [getElem?_ofList_eq_some (nodup_keys_scopeUnits hs hids hlabels), scopeUnits_eq]
  simp

theorem lookup_own (u : ScopeUnit) :
    (addressed s).lookup (.own u) = (scopeParts s.description s.settings s.auth s.vars).lookup u :=
  lookup_congr (nodup_addressed hids hlabels) (nodup_scopeParts s.description s.settings s.auth hlabels.own)
    fun _ => mem_addressed

theorem lookup_environment {e : Environment J} (he : e ∈ s.environments) (label : Option Text) :
    (addressed s).lookup (.environment e.id label) = (environmentParts e).lookup label := by
  apply lookup_congr (nodup_addressed hids hlabels) (nodup_environmentParts (hlabels.environments e he))
  intro v
  rw [mem_addressed]
  constructor
  · rintro ⟨e', he', hid, hv⟩
    rwa [List.inj_on_of_nodup_map hids.environments he' he hid] at hv
  · intro hv
    exact ⟨e, he, rfl, hv⟩

theorem lookup_folder {f : Folder J} (hf : f ∈ s.folders) (u : Option ScopeUnit) :
    (addressed s).lookup (.folder f.id u) = (folderParts f).lookup u := by
  apply lookup_congr (nodup_addressed hids hlabels) (nodup_folderParts (hlabels.folders f hf))
  intro v
  rw [mem_addressed]
  constructor
  · rintro ⟨f', hf', hid, hv⟩
    rwa [List.inj_on_of_nodup_map hids.folders hf' hf hid] at hv
  · intro hv
    exact ⟨f, hf, rfl, hv⟩

end

theorem lookup_scopeParts (description : Text) (settings auth : J) (vars : List (Variable J)) (u : ScopeUnit) :
    (scopeParts description settings auth vars).lookup u =
      match u with
      | .description => some (.text description)
      | .settings => some (.json settings)
      | .auth => some (.json auth)
      | .variable label => ((labels vars).lookup label).map Variable.value := by
  match u with
  | .description => rfl
  | .settings => rfl
  | .auth => rfl
  | .variable label => exact lookup_map (fun _ _ => ScopeUnit.variable.inj) Variable.value (labels vars) label

theorem lookup_environmentParts (e : Environment J) (label : Option Text) :
    (environmentParts e).lookup label =
      match label with
      | none => some (.text e.name)
      | some l => ((labels e.vars).lookup l).map Variable.value := by
  cases label with
  | none => rfl
  | some l => exact lookup_map (Option.some_injective Text) Variable.value (labels e.vars) l

theorem lookup_folderParts (f : Folder J) (u : Option ScopeUnit) :
    (folderParts f).lookup u =
      match u with
      | none => some (.text f.name)
      | some u => (scopeParts f.description f.settings f.auth f.vars).lookup u := by
  cases u with
  | none => rfl
  | some u =>
    have := lookup_map (Option.some_injective ScopeUnit) (fun v : UnitValue J => v)
      (scopeParts f.description f.settings f.auth f.vars) u
    rwa [Option.map_id_fun'] at this

theorem mem_keys_environment {id : Uuid} {label : Option Text} (h : Address.environment id label ∈ keysOf (addressed s)) :
    ∃ e ∈ s.environments, e.id = id := by
  obtain ⟨⟨a, v⟩, hmem, rfl⟩ := List.mem_map.1 h
  obtain ⟨e, he, hid, -⟩ := mem_addressed.1 hmem
  exact ⟨e, he, hid⟩

theorem mem_keys_folder {id : Uuid} {u : Option ScopeUnit} (h : Address.folder id u ∈ keysOf (addressed s)) :
    ∃ f ∈ s.folders, f.id = id := by
  obtain ⟨⟨a, v⟩, hmem, rfl⟩ := List.mem_map.1 h
  obtain ⟨f, hf, hid, -⟩ := mem_addressed.1 hmem
  exact ⟨f, hf, hid⟩

theorem environment_mem_keys {id : Uuid} :
    Address.environment id none ∈ keysOf (addressed s) ↔ id ∈ s.environments.map (·.id) := by
  constructor
  · intro h
    obtain ⟨e, he, hid⟩ := mem_keys_environment h
    exact List.mem_map.2 ⟨e, he, hid⟩
  · intro h
    obtain ⟨e, he, rfl⟩ := List.mem_map.1 h
    have hmem : (Address.environment e.id none, UnitValue.text e.name) ∈ addressed s :=
      mem_addressed.2 ⟨e, he, rfl, List.mem_cons_self⟩
    exact List.mem_map_of_mem (f := Prod.fst) hmem

theorem folder_mem_keys {id : Uuid} :
    Address.folder id none ∈ keysOf (addressed s) ↔ id ∈ s.folders.map (·.id) := by
  constructor
  · intro h
    obtain ⟨f, hf, hid⟩ := mem_keys_folder h
    exact List.mem_map.2 ⟨f, hf, hid⟩
  · intro h
    obtain ⟨f, hf, rfl⟩ := List.mem_map.1 h
    have hmem : (Address.folder f.id none, UnitValue.text f.name) ∈ addressed s :=
      mem_addressed.2 ⟨f, hf, rfl, List.mem_cons_self⟩
    exact List.mem_map_of_mem (f := Prod.fst) hmem

/-- What a key is below the key of an environment. -/
theorem within_environment_iff (a : Address) (id : Uuid) :
    (a.text == environmentKey id || (environmentKey id ++ ['/']).isPrefixOf a.text) = true ↔
      ∃ label, a = .environment id label := by
  rw [Bool.or_eq_true, beq_iff_eq, List.isPrefixOf_iff_prefix]
  constructor
  · intro h
    obtain ⟨t, ht⟩ : ∃ t, a.text = environmentKey id ++ t := by
      rcases h with h | ⟨t, ht⟩
      · exact ⟨[], by rw [h, List.append_nil]⟩
      · exact ⟨'/' :: t, by rw [← ht, List.append_assoc]; rfl⟩
    cases a with
    | own u =>
      have hhead := congrArg List.head? ht
      rw [head_environmentKey] at hhead
      exact absurd hhead u.head_text_ne.1
    | environment j label =>
      rw [Address.text_environment] at ht
      exact ⟨label, by rw [(environmentKey_append_inj ht).1]⟩
    | folder j u =>
      have hhead := congrArg List.head? ht
      rw [head_environmentKey, Address.text_folder, head_folderKey] at hhead
      exact absurd hhead (by decide)
  · rintro ⟨label, rfl⟩
    cases label with
    | none => exact .inl rfl
    | some label =>
      refine .inr ⟨"variables/".toList ++ label, ?_⟩
      rw [Address.text, List.append_assoc, List.append_assoc]
      rfl

theorem prefix_environment_iff (a : Address) (id : Uuid) :
    environmentKey id ++ ['/'] <+: a.text ↔ ∃ label, a = .environment id (some label) := by
  constructor
  · intro h
    obtain ⟨label, rfl⟩ := (within_environment_iff a id).1 (by
      rw [Bool.or_eq_true, List.isPrefixOf_iff_prefix]
      exact .inr h)
    cases label with
    | some label => exact ⟨label, rfl⟩
    | none =>
      have := h.length_le
      simp [Address.text] at this
  · rintro ⟨label, rfl⟩
    refine ⟨"variables/".toList ++ label, ?_⟩
    rw [Address.text, List.append_assoc, List.append_assoc]
    rfl

theorem within_folder_iff (a : Address) (id : Uuid) :
    (a.text = folderKey id ∨ folderKey id ++ ['/'] <+: a.text) ↔ ∃ u, a = .folder id u := by
  constructor
  · intro h
    obtain ⟨t, ht⟩ : ∃ t, a.text = folderKey id ++ t := by
      rcases h with h | ⟨t, ht⟩
      · exact ⟨[], by rw [h, List.append_nil]⟩
      · exact ⟨'/' :: t, by rw [← ht, List.append_assoc]; rfl⟩
    cases a with
    | own u =>
      have hhead := congrArg List.head? ht
      rw [head_folderKey] at hhead
      exact absurd hhead u.head_text_ne.2
    | environment j label =>
      have hhead := congrArg List.head? ht
      rw [head_folderKey, Address.text_environment, head_environmentKey] at hhead
      exact absurd hhead (by decide)
    | folder j u =>
      rw [Address.text_folder] at ht
      exact ⟨u, by rw [(folderKey_append_inj ht).1]⟩
  · rintro ⟨u, rfl⟩
    cases u with
    | none => exact .inl rfl
    | some u =>
      refine .inr ⟨u.text, ?_⟩
      rw [Address.text, List.append_assoc]
      rfl

include hids hlabels in
/-- Of a scope, an environment's keys hold that environment. -/
theorem within_unitHashes (id : Uuid) :
    within (unitHashes hs s) (environmentKey id) =
      match s.environments.find? (fun e => e.id = id) with
      | some e => environmentHashes hs e
      | none => ∅ := by
  apply ExtTreeMap.ext_getElem?
  intro k
  apply Option.ext
  intro h
  have hleft : (within (unitHashes hs s) (environmentKey id))[k]? = some h ↔
      ∃ e ∈ s.environments, e.id = id ∧ (k, h) ∈ (environmentUnits e).map fun x => (x.1, hs.unit x.2) := by
    unfold within
    rw [ExtTreeMap.getElem?_filter', Option.filter_eq_some_iff, unitHashes_eq_some hs hids hlabels]
    constructor
    · rintro ⟨⟨a, v, hmem, rfl, rfl⟩, hwithin⟩
      obtain ⟨label, rfl⟩ := (within_environment_iff a id).1 hwithin
      obtain ⟨e, he, rfl, hv⟩ := mem_addressed.1 hmem
      refine ⟨e, he, rfl, ?_⟩
      rw [environmentUnits_eq, List.map_map]
      exact List.mem_map.2 ⟨(label, v), hv, rfl⟩
    · rintro ⟨e, he, rfl, hmem⟩
      rw [environmentUnits_eq, List.map_map] at hmem
      obtain ⟨⟨label, v⟩, hv, heq⟩ := List.mem_map.1 hmem
      cases heq
      have hmem' : (Address.environment e.id label, v) ∈ addressed s := mem_addressed.2 ⟨e, he, rfl, hv⟩
      exact ⟨⟨_, v, hmem', rfl, rfl⟩, (within_environment_iff _ e.id).2 ⟨label, rfl⟩⟩
  rw [hleft]
  cases hfind : s.environments.find? (fun e => e.id = id) with
  | none =>
    rw [List.find?_eq_none] at hfind
    simp only [ExtTreeMap.getElem?_empty, reduceCtorEq, iff_false, not_exists, not_and]
    intro e he hid
    exact absurd (decide_eq_true hid) (hfind e he)
  | some e =>
    have he := List.mem_of_find?_eq_some hfind
    have hid : e.id = id := by simpa using List.find?_some hfind
    have hnodup : (keysOf ((environmentUnits e).map fun x => (x.1, hs.unit x.2))).Nodup := by
      have := (nodup_environmentParts (hlabels.environments e he)).map (f := fun l => (Address.environment e.id l).text)
        fun a b hab => (Address.environment.inj (Address.text_injective hab)).2
      rw [environmentUnits_eq, List.map_map, keysOf, List.map_map]
      rwa [keysOf, List.map_map] at this
    unfold environmentHashes
    simp only
    rw [getElem?_ofList_eq_some hnodup]
    constructor
    · rintro ⟨e', he', hid', hmem⟩
      rwa [List.inj_on_of_nodup_map hids.environments he' he (hid'.trans hid.symm)] at hmem
    · intro hmem
      exact ⟨e, he, hid, hmem⟩

end Hashes

end Addressed

end Anvil.Import
