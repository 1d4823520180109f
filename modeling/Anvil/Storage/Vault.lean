import Anvil.Lib.Action
import Anvil.Lib.Run
import Anvil.Lib.Strings

/-!
# The profile vault

The header of a profile and how it wraps the data key, after `vault.rs`. Encryption, key derivation, the key check and the
MAC are parameters (`Crypto`); the actions run on what the profile has on disk and in the OS credential store.

* `ProfileHeader`, `RotationPolicy` : the header; one with a rotation policy is enrolled;
* `Vault` : `profile.json`, the canonical header in the database, and the credential store;
* `unlockWithPassphrase`, `unlockWithRecovery` : unlocking;
* `upgradeHeader`, `changePassphrase`, `convertKeychainToPassphrase`, `retireKeychainEntry`, `retireRotatedKeychain`,
  `rotateTo` : the operations, and `createPassphraseProfile` and its siblings : where a profile starts.
-/

namespace Anvil.Storage
open Anvil.Lib

/-! ## Keys and their derivation -/

inductive CryptoError
  | authentication
  | malformed
  | kdf (why : String)
deriving DecidableEq, Repr

def keyLen : Nat := 32

/-- A 256-bit key. -/
structure Key where
  bytes : List UInt8
  length_eq : bytes.length = keyLen
deriving DecidableEq

def Key.fromBytes (b : List UInt8) : Except CryptoError Key :=
  if h : b.length = keyLen then .ok ⟨b, h⟩ else .error .malformed

theorem Key.fromBytes_bytes (k : Key) : Key.fromBytes k.bytes = .ok k := dif_pos k.length_eq

/-- Argon2id parameters. -/
structure KdfParams where
  mCost : Nat
  tCost : Nat
  pCost : Nat
deriving DecidableEq, Repr

def maxKdfMemoryKib : Nat := 256 * 1024
def maxKdfIterations : Nat := 10
def maxKdfParallelism : Nat := 4
def maxKdfWork : Nat := 1024 * 1024
def minSaltLen : Nat := 8
def maxSaltLen : Nat := 64

def KdfParams.checkBounds (p : KdfParams) : Except String Unit :=
  if ¬ (1 ≤ p.tCost ∧ p.tCost ≤ maxKdfIterations) then
    .error (toString p.tCost ++ " passes; allowed 1 to " ++ toString maxKdfIterations)
  else if ¬ (1 ≤ p.pCost ∧ p.pCost ≤ maxKdfParallelism) then
    .error (toString p.pCost ++ " lanes; allowed 1 to " ++ toString maxKdfParallelism)
  else if ¬ (8 * p.pCost ≤ p.mCost ∧ p.mCost ≤ maxKdfMemoryKib) then
    .error (toString p.mCost ++ " KiB of memory; allowed " ++ toString (8 * p.pCost) ++ " to " ++
      toString maxKdfMemoryKib ++ " KiB")
  else if p.mCost * p.tCost > maxKdfWork then
    .error (toString p.mCost ++ " KiB for " ++ toString p.tCost ++ " passes exceeds the budget of " ++
      toString maxKdfWork ++ " KiB-passes")
  else .ok ()

def checkSalt (salt : List UInt8) : Except String Unit :=
  if ¬ (minSaltLen ≤ salt.length ∧ salt.length ≤ maxSaltLen) then
    .error (toString salt.length ++ "-byte salt; allowed " ++ toString minSaltLen ++ " to " ++ toString maxSaltLen)
  else .ok ()

/-! ## The header -/

inductive ProtectionMode
  | passphrase
  | osKeychain
deriving DecidableEq, Repr

/-- What a wrap is sealed under. -/
inductive Label
  | passphrase
  | rotatedPassphrase
  | recovery
  | rotatedRecovery
deriving DecidableEq, Repr

/-- The salt and the envelope stand for their base64 texts. -/
structure WrappedKey where
  kdf : Option KdfParams
  salt : List UInt8
  envelope : List UInt8
deriving DecidableEq

/-- A credential-store entry that a rotation replaced. -/
structure RetiredKeychainEntry where
  account : String
  keyCheck : String
deriving DecidableEq, Repr

structure RotationPolicy where
  bindingDigest : String
  retiredKeychain : List RetiredKeychainEntry
  manifestRoot : Option String
deriving DecidableEq, Repr

structure ProfileHeader where
  profileId : String
  displayName : String
  createdAt : Nat
  protection : ProtectionMode
  passphraseWrap : Option WrappedKey
  recoveryWrap : Option WrappedKey
  keychainAccount : Option String
  keyCheck : String
  protectionMac : Option String
  rotation : Option RotationPolicy
deriving DecidableEq

/-- What the protection MAC is taken of: three fields of a legacy header, all of an enrolled one but the MAC. -/
inductive MacInput
  | legacy (profileId : String) (mode : ProtectionMode) (keyCheck : String)
  | enrolled (sealed : ProfileHeader)
deriving DecidableEq

def ProfileHeader.macInput (h : ProfileHeader) : MacInput :=
  if h.rotation.isSome then .enrolled { h with protectionMac := none } else .legacy h.profileId h.protection h.keyCheck

/-- The primitives the vault rests on. An envelope opens exactly under the key and the label it was sealed with. -/
structure Crypto where
  derive : Text → List UInt8 → KdfParams → Except CryptoError Key
  sealWith : Key → Label → List UInt8 → List UInt8 → List UInt8
  openWith : Key → Label → List UInt8 → Option (List UInt8)
  open_seal : ∀ k l nonce m, openWith k l (sealWith k l nonce m) = some m
  open_other : ∀ k l k' l' nonce m, (k, l) ≠ (k', l') → openWith k' l' (sealWith k l nonce m) = none
  keyCheck : Key → String
  mac : Key → MacInput → String
  /-- The SHA-256 of a serialised identity binding. -/
  digest : Option String → String

inductive VaultError
  | wrongSecret
  | keychainAccessDenied
  | keychainUnavailable (why : String)
  | wrongProtection (what : String)
  | header (why : String)
  | headerTampered
  | crypto (e : CryptoError)
deriving DecidableEq, Repr

/-- The entries a rotation away from `h` retires. -/
def retiring (h : ProfileHeader) : List RetiredKeychainEntry :=
  let retired := (h.rotation.map (·.retiredKeychain)).getD []
  match h.keychainAccount with
  | some account => if retired.any (·.account = account) then retired else retired ++ [⟨account, h.keyCheck⟩]
  | none => retired

def passphraseLabel (h : ProfileHeader) : Label := if h.rotation.isSome then .rotatedPassphrase else .passphrase

def recoveryLabel (h : ProfileHeader) : Label := if h.rotation.isSome then .rotatedRecovery else .recovery

def requireProtection (h : ProfileHeader) (mode : ProtectionMode) : Except VaultError Unit :=
  if h.protection = mode then .ok ()
  else .error (.wrongProtection (match mode with
    | .passphrase => "a passphrase"
    | .osKeychain => "the OS keychain"))

/-- A keychain header without a MAC never carries wraps. -/
def checkUnsealedKeychainHeader (h : ProfileHeader) : Except VaultError Unit :=
  if h.protection = .osKeychain ∧ h.protectionMac = none ∧ (h.passphraseWrap.isSome ∨ h.recoveryWrap.isSome) then
    .error .headerTampered
  else .ok ()

/-- The character of five bits. -/
def recoveryChar (bits : Nat) : Char := "ABCDEFGHJKLMNPQRSTUVWXYZ23456789".toList.getD (bits % 32) 'A'

/-- One byte of `format_recovery_key`: the 32-bit buffer takes it in and gives a character for every five bits. -/
def recoveryStep (acc : Text × Nat × Nat) (b : UInt8) : Text × Nat × Nat :=
  let bits := (acc.2.1 * 256 + b.toNat) % 2 ^ 32
  let nbits := acc.2.2 + 8
  (acc.1 ++ (List.range (nbits / 5)).map fun i => recoveryChar (bits >>> (nbits - 5 * (i + 1))), bits, nbits % 5)

def formatRecoveryKey (raw : List UInt8) : Text :=
  let (out, bits, nbits) := raw.foldl recoveryStep ([], 0, 0)
  let out := if nbits > 0 then out ++ [recoveryChar (bits <<< (5 - nbits))] else out
  ['-'].intercalate (out.toChunks 4)

def normalizeRecovery (s : Text) : Text := (s.filter Char.isAlphanum).map Char.toUpper

section Crypto
variable (c : Crypto)

def protectionMac (dek : Key) (h : ProfileHeader) : String := c.mac dek h.macInput

def checkProtectionMac (h : ProfileHeader) (dek : Key) : Except VaultError Unit :=
  match h.protectionMac with
  | none => if h.rotation.isSome then .error .headerTampered else .ok ()
  | some mac => if mac = protectionMac c dek h then .ok () else .error .headerTampered

/-- The unlocked data key is the profile's. -/
def requireProfileKey (h : ProfileHeader) (dek : Key) : Except VaultError Unit :=
  if c.keyCheck dek ≠ h.keyCheck then .error .wrongSecret else .ok ()

def checkCurrent (current expected : ProfileHeader) (key : Key) : Except VaultError Unit := do
  refuseIf (current.profileId ≠ expected.profileId) .headerTampered
  requireProfileKey c current key
  checkProtectionMac c current key

def bindRotation (h : ProfileHeader) (key : Key) (binding : Option String) : ProfileHeader :=
  let h := { h with rotation := h.rotation.map fun (p : RotationPolicy) => { p with bindingDigest := c.digest binding } }
  { h with protectionMac := some (protectionMac c key h) }

def bindManifestRoot (h : ProfileHeader) (key : Key) (root : String) : Except VaultError ProfileHeader := do
  checkProtectionMac c h key
  match h.rotation with
  | none => .error .headerTampered
  | some p =>
    let h := { h with rotation := some { p with manifestRoot := some root } }
    .ok { h with protectionMac := some (protectionMac c key h) }

/-! ## Wrapping and unlocking -/

def checkKdf (kdf : KdfParams) (salt : List UInt8) : Except VaultError Unit :=
  match kdf.checkBounds >>= fun _ => checkSalt salt with
  | .ok _ => .ok ()
  | .error why => .error (.header ("unsupported key-derivation settings (" ++ why ++ ")"))

def deriveKey (passphrase : Text) (salt : List UInt8) (kdf : KdfParams) : Except VaultError Key :=
  (c.derive passphrase salt kdf).mapError .crypto

/-- The random bytes of one wrap. -/
structure WrapSeed where
  salt : List UInt8
  nonce : List UInt8

def wrapWithPassphrase (dek : Key) (passphrase : Text) (kdf : KdfParams) (label : Label) (seed : WrapSeed) :
    Except VaultError WrappedKey := do
  checkKdf kdf seed.salt
  let kek ← deriveKey c passphrase seed.salt kdf
  return ⟨some kdf, seed.salt, c.sealWith kek label seed.nonce dek.bytes⟩

def unwrapWithPassphrase (w : WrappedKey) (passphrase : Text) (label : Label) : Except VaultError Key :=
  match w.kdf with
  | none => .error (.header "missing KDF parameters")
  | some kdf => do
    checkKdf kdf w.salt
    let kek ← deriveKey c passphrase w.salt kdf
    match c.openWith kek label w.envelope with
    | none => .error .wrongSecret
    | some dek => (Key.fromBytes dek).mapError .crypto

/-- A wrap of `h` unlocks to the profile's key, and that key's MAC of `h` holds. -/
def unlockWith (h : ProfileHeader) (wrap : Option WrappedKey) (secret : Text) (label : Label) : Except VaultError Key :=
  do
  requireProtection h .passphrase
  match wrap with
  | none => .error .wrongSecret
  | some w =>
    let k ← unwrapWithPassphrase c w secret label
    requireProfileKey c h k
    checkProtectionMac c h k
    return k

def unlockWithPassphrase (h : ProfileHeader) (passphrase : Text) : Except VaultError Key :=
  unlockWith c h h.passphraseWrap passphrase (passphraseLabel h)

def unlockWithRecovery (h : ProfileHeader) (recovery : Text) : Except VaultError Key :=
  unlockWith c h h.recoveryWrap (normalizeRecovery recovery) (recoveryLabel h)

/-! ## The profile on disk and the credential store -/

/-- A credential-store entry: a bare key of an earlier build, a tagged one, the marker left where a key could not be
deleted, or something else. -/
inductive Secret
  | bare (k : Key)
  | tagged (k : Key)
  | enrolled (k : Key)
  | retired (keyCheck : String)
  | other
deriving DecidableEq

structure Vault where
  /-- `profile.json`. -/
  file : ProfileHeader
  /-- The canonical header in the database, once the profile is enrolled. -/
  state : Option ProfileHeader
  keychain : String → Option Secret

/-- A call to the credential store, which may refuse it. -/
inductive KeychainCall
  | entry (account : String)
  | get (account : String)
  | set (account : String)
  | delete (account : String)

abbrev Deny := KeychainCall → Option VaultError

abbrev Action := EStateM VaultError Vault

def Vault.setSecret (v : Vault) (account : String) (secret : Option Secret) : Vault :=
  { v with keychain := fun a => if a = account then secret else v.keychain a }

/-- The key of a credential-store entry, and whether the entry is tagged. -/
def parseKeychainSecret : Secret → Option (Key × Bool)
  | .bare k => some (k, false)
  | .tagged k => some (k, true)
  | .enrolled k => some (k, true)
  | .retired _ => none
  | .other => none

def readHeaderUnlocked : Action ProfileHeader := do
  let v ← get
  match v.state with
  | some h => if h.rotation.isNone then throw .headerTampered else pure h
  | none =>
    if v.file.rotation.isSome then throw (.header "the rotated profile's canonical key state is missing")
    else pure v.file

/-- The header takes the place of the one it was made from: of the canonical one if there is one. -/
def replaceHeader (h : ProfileHeader) : Action Unit := do
  let v ← get
  match v.state with
  | some current => do
    refuse (h.rotation.isNone ∨ current.keyCheck ≠ h.keyCheck ∨
      current.rotation.map (·.bindingDigest) ≠ h.rotation.map (·.bindingDigest) ∨
      current.rotation.bind (·.manifestRoot) ≠ h.rotation.bind (·.manifestRoot)) .headerTampered
    set { v with state := some h }
  | none => set { v with file := h }

/-- Edit the header on disk; `edit` gives nothing where it changes nothing. -/
def updateHeader (edit : ProfileHeader → Except VaultError (Option ProfileHeader)) : Action ProfileHeader := do
  let h ← readHeaderUnlocked
  let next ← check (edit h)
  match next with
  | none => pure h
  | some next => do
    replaceHeader next
    pure next

def callKeychain (deny : Deny) (call : KeychainCall) : Action Unit :=
  match deny call with
  | some e => throw e
  | none => pure ()

/-- An entry that could not be deleted: one that holds the key becomes the marker, if the store takes it. -/
def overwriteRetired (deny : Deny) (keyCheckOfEntry account : String) (holdsKey : Bool) (refused : VaultError) :
    Action Unit := do
  modify fun v => if holdsKey ∧ deny (.set account) = none then v.setSecret account (some (.retired keyCheckOfEntry)) else v
  throw refused

/-- Delete an entry that holds the key of this check, or its marker. -/
def deleteRetiredEntry (deny : Deny) (keyCheckOfEntry account : String) : Action Unit := do
  callKeychain deny (.entry account)
  callKeychain deny (.get account)
  let v ← get
  match v.keychain account with
  | none => pure ()
  | some secret =>
    let holdsKey := (parseKeychainSecret secret).any fun k => c.keyCheck k.1 = keyCheckOfEntry
    if ¬ holdsKey ∧ secret ≠ .retired keyCheckOfEntry then pure ()
    else match deny (.delete account) with
      | none => set (v.setSecret account none)
      | some refused => overwriteRetired deny keyCheckOfEntry account holdsKey refused

def tagKeychainEntry (deny : Deny) (h : ProfileHeader) (dek : Key) : Action Unit :=
  match h.keychainAccount with
  | none => throw (.header "no keychain account recorded")
  | some account => do
    callKeychain deny (.entry account)
    callKeychain deny (.get account)
    let v ← get
    match (v.keychain account).bind parseKeychainSecret with
    | some (k, false) =>
      if c.keyCheck k = h.keyCheck then do
        callKeychain deny (.set account)
        set (v.setSecret account (some (.tagged dek)))
      else pure ()
    | _ => pure ()

/-! ## Changing the protection -/

/-- What `upgrade_header` makes of the header on disk: the MAC it lacks. -/
def upgraded (h : ProfileHeader) (dek : Key) (next : ProfileHeader) : Except VaultError (Option ProfileHeader) :=
  if ¬ (next.profileId = h.profileId ∧ next.keyCheck = h.keyCheck ∧ next.protection = h.protection) ∨
      next.protectionMac.isSome then .ok none
  else do
    checkUnsealedKeychainHeader next
    return some { next with protectionMac := some (protectionMac c dek next) }

/-- Tag the entry of a keychain profile whose header has just got its MAC. -/
def tagUpgraded (deny : Deny) (h : ProfileHeader) (dek : Key) : Action Unit :=
  if h.protection = .osKeychain then tagKeychainEntry c deny h dek else pure ()

def upgradeHeader (deny : Deny) (h : ProfileHeader) (dek : Key) : Action ProfileHeader := do
  check (requireProfileKey c h dek)
  if h.protectionMac.isSome then pure h
  else do
    check (checkUnsealedKeychainHeader h)
    let next ← updateHeader (upgraded c h dek)
    if next.profileId ≠ h.profileId ∨ next.keyCheck ≠ h.keyCheck ∨ next.protectionMac = none then pure h
    else do
      check (checkProtectionMac c next dek)
      tagUpgraded c deny next dek
      pure next

/-- Rewrite the header on disk, which must still be the profile's, in `mode` and authentic under `dek`. -/
def rewriteHeader (h : ProfileHeader) (dek : Key) (mode : ProtectionMode)
    (edit : ProfileHeader → Action ProfileHeader) : Action ProfileHeader := do
  let next ← readHeaderUnlocked
  refuse (next.profileId ≠ h.profileId) (.header "the profile header on disk belongs to another profile")
  check (requireProtection next mode)
  check (requireProfileKey c next dek)
  check (checkUnsealedKeychainHeader next)
  check (checkProtectionMac c next dek)
  let next ← edit next
  let next := { next with protectionMac := some (protectionMac c dek next) }
  replaceHeader next
  pure next

/-- The label of the new wrap is that of the caller's copy of the header. -/
def changePassphrase (h : ProfileHeader) (dek : Key) (newPassphrase : Text) (kdf : KdfParams) (seed : WrapSeed) :
    Action ProfileHeader := do
  check (requireProtection h .passphrase)
  check (requireProfileKey c h dek)
  check (checkProtectionMac c h dek)
  let wrap ← check (wrapWithPassphrase c dek newPassphrase kdf (passphraseLabel h) seed)
  rewriteHeader c h dek .passphrase fun next => pure { next with passphraseWrap := some wrap }

/-- Drop `account` from the header on disk once its entry is gone. -/
def forgetKeychainAccount (h : ProfileHeader) (account : String) : Action ProfileHeader := do
  let next ← updateHeader fun next =>
    if ¬ (next.protection = .passphrase ∧ next.profileId = h.profileId ∧ next.keyCheck = h.keyCheck) ∨
        next.keychainAccount ≠ some account then .ok none
    else .ok (some { next with keychainAccount := none })
  if next.protection = .passphrase ∧ next.profileId = h.profileId ∧ next.keyCheck = h.keyCheck then pure next else pure h

/-- Tag the entry a header names, if it names one. -/
def tagNamed (deny : Deny) (h : ProfileHeader) (dek : Key) : Action Unit :=
  if h.keychainAccount.isSome then tagKeychainEntry c deny h dek else pure ()

/-- The edit of a conversion, which tags the entry while the header still names it. -/
def convertedHeader (deny : Deny) (dek : Key) (passphraseWrap recoveryWrap : WrappedKey) (next : ProfileHeader) :
    Action ProfileHeader := do
  refuse (next.protectionMac = none) (.header "the profile header was replaced during the conversion")
  tagNamed c deny next dek
  pure { next with protection := .passphrase, passphraseWrap := some passphraseWrap, recoveryWrap := some recoveryWrap }

/-- Remove the entry of a converted profile and, where that worked, the name the header has for it. -/
def removeConverted (deny : Deny) (h : ProfileHeader) : Action Unit :=
  match h.keychainAccount with
  | none => pure ()
  | some account => do
    let refused ← attempt (deleteRetiredEntry c deny h.keyCheck account)
    if refused.isSome then pure ()
    else do
      let _ ← attempt (forgetKeychainAccount h account)
      pure ()

/-- The random bytes of a conversion. -/
structure ConversionSeed where
  recovery : List UInt8
  passphraseWrap : WrapSeed
  recoveryWrap : WrapSeed

/-- The new recovery key. Both wraps are sealed under the labels of a header that is not enrolled. -/
def convertKeychainToPassphrase (deny : Deny) (h : ProfileHeader) (dek : Key) (newPassphrase : Text) (kdf : KdfParams)
    (seed : ConversionSeed) : Action Text := do
  check (requireProtection h .osKeychain)
  check (requireProfileKey c h dek)
  check (checkUnsealedKeychainHeader h)
  check (checkProtectionMac c h dek)
  let h ← upgradeHeader c deny h dek
  let recovery := formatRecoveryKey seed.recovery
  let passphraseWrap ← check (wrapWithPassphrase c dek newPassphrase kdf .passphrase seed.passphraseWrap)
  let recoveryWrap ← check (wrapWithPassphrase c dek (normalizeRecovery recovery) kdf .recovery seed.recoveryWrap)
  let h ← rewriteHeader c h dek .osKeychain (convertedHeader c deny dek passphraseWrap recoveryWrap)
  removeConverted c deny h
  pure recovery

def retireKeychainEntry (deny : Deny) (h : ProfileHeader) : Action ProfileHeader := do
  check (requireProtection h .passphrase)
  match h.keychainAccount with
  | none => pure h
  | some account => do
    refuse h.rotation.isSome (.header "rotated cleanup requires the current data key")
    deleteRetiredEntry c deny h.keyCheck account
    forgetKeychainAccount h account

/-- The entries that could not be removed, with what refused each. -/
def retireEach (deny : Deny) : List RetiredKeychainEntry → Action (List (RetiredKeychainEntry × VaultError))
  | [] => pure []
  | entry :: rest => do
    let refused ← attempt (deleteRetiredEntry c deny entry.keyCheck entry.account)
    let left ← retireEach deny rest
    pure (match refused with
      | some e => (entry, e) :: left
      | none => left)

/-- The header without the entries that are gone, sealed again; failing to write it is not an error. -/
def forgetRetired (key : Key) (current : ProfileHeader) (policy : RotationPolicy) (left : List RetiredKeychainEntry) :
    Action ProfileHeader :=
  if left.length < policy.retiredKeychain.length then do
    let next := { current with rotation := some { policy with retiredKeychain := left } }
    let next := { next with protectionMac := some (protectionMac c key next) }
    let failed ← attempt (replaceHeader next)
    pure (if failed.isSome then current else next)
  else pure current

def retireRotatedKeychain (deny : Deny) (h : ProfileHeader) (key : Key) : Action ProfileHeader := do
  let current ← readHeaderUnlocked
  check (checkCurrent c current h key)
  match current.rotation with
  | none => throw .headerTampered
  | some policy => do
    let left ← retireEach c deny policy.retiredKeychain
    let next ← forgetRetired c key current policy (left.map (·.1))
    match left.head? with
    | some (_, refused) => throw refused
    | none => pure next

/-! ## Rotation -/

/-- The random bytes of a rotation to a passphrase. -/
structure RotationSeed where
  passphraseWrap : WrapSeed
  recoveryWrap : WrapSeed

/-- The header of `key` under a new passphrase and recovery key. -/
def rotatedHeader (h : ProfileHeader) (key : Key) (passphrase recovery : Text) (kdf : KdfParams) (seed : RotationSeed) :
    Except VaultError ProfileHeader := do
  refuseIf (h.protection = .passphrase ∧ (unlockWithPassphrase c h passphrase).isOk)
    (.header "choose a passphrase different from the current one")
  refuseIf (h.recoveryWrap.isSome ∧ (unlockWithRecovery c h recovery).isOk)
    (.header "rotation requires a new recovery credential")
  let passphraseWrap ← wrapWithPassphrase c key passphrase kdf .rotatedPassphrase seed.passphraseWrap
  let recoveryWrap ← wrapWithPassphrase c key (normalizeRecovery recovery) kdf .rotatedRecovery seed.recoveryWrap
  return { h with
    protection := .passphrase, keyCheck := c.keyCheck key, keychainAccount := none
    rotation := some { bindingDigest := "", manifestRoot := none, retiredKeychain := retiring h }
    passphraseWrap := some passphraseWrap, recoveryWrap := some recoveryWrap }

/-- The header of `key` in a new credential-store entry. -/
def rotatedKeychainHeader (deny : Deny) (h : ProfileHeader) (key : Key) (suffix : String) : Action ProfileHeader := do
  check (requireProtection h .osKeychain)
  let account := "profile-" ++ h.profileId ++ "-" ++ suffix
  callKeychain deny (.entry account)
  callKeychain deny (.set account)
  modify fun v => v.setSecret account (some (.enrolled key))
  pure { h with
    keyCheck := c.keyCheck key, passphraseWrap := none, recoveryWrap := none, keychainAccount := some account
    rotation := some { bindingDigest := "", manifestRoot := none, retiredKeychain := retiring h } }

/-- What protects the data key after a rotation. -/
inductive RotationTarget
  | passphrase (passphrase recovery : Text) (kdf : KdfParams) (seed : RotationSeed)
  | keychain (suffix : String)

def stageHeader (deny : Deny) (h : ProfileHeader) (newKey : Key) : RotationTarget → Action ProfileHeader
  | .passphrase passphrase recovery kdf seed => check (rotatedHeader c h newKey passphrase recovery kdf seed)
  | .keychain suffix => rotatedKeychainHeader c deny h newKey suffix

/-- What a rotation meets outside the vault: the identity binding and the catalogue root it binds, and whether the data
could be re-sealed and the old `profile.json` replaced. -/
structure RotationRun where
  binding : Option String
  root : String
  resealed : Bool
  scrubbed : Bool

/-- The staged header bound and sealed, if the data could be re-sealed. -/
def prepareRotation (newKey : Key) (run : RotationRun) (next : ProfileHeader) : Except VaultError ProfileHeader := do
  let next := bindRotation c next newKey run.binding
  refuseIf (!run.resealed) (.header "stored data could not be decrypted (wrong key or corruption)")
  bindManifestRoot c next newKey run.root

/-- A rotation that stops before its commit removes the entry it staged. -/
def discardStaged (deny : Deny) (staged : ProfileHeader) : Action Unit :=
  match staged.keychainAccount with
  | none => pure ()
  | some account => do
    let _ ← attempt (deleteRetiredEntry c deny staged.keyCheck account)
    pure ()

/-- The new header is committed with the re-sealed data. -/
def commitRotation (scrubbed : Bool) (next : ProfileHeader) : Action Unit :=
  modify fun v => { v with state := some next, file := if scrubbed then next else v.file }

def rotateTo (deny : Deny) (key newKey : Key) (target : RotationTarget) (run : RotationRun) : Action Bool := do
  let h ← readHeaderUnlocked
  check (checkCurrent c h h key)
  let staged ← stageHeader c deny h newKey target
  match prepareRotation c newKey run staged with
  | .error e => do
    discardStaged c deny staged
    throw e
  | .ok next => do
    commitRotation run.scrubbed next
    if next.rotation.any (·.retiredKeychain ≠ []) then do
      let refused ← attempt (retireRotatedKeychain c deny next newKey)
      pure refused.isNone
    else pure true

/-- A write to the catalogue publishes its new root in the canonical header. -/
def publishRoot (key : Key) (root : String) : Action Unit := do
  let v ← get
  match v.state with
  | none => throw .headerTampered
  | some h => do
    let next ← check (bindManifestRoot c h key root)
    set { v with state := some next }

/-! ## Creation -/

/-- A profile as its creation leaves it. -/
structure Created where
  vault : Vault
  dek : Key
  recoveryKey : Option Text

/-- What a creation draws: the profile's name and id, its key and the random bytes of its wraps. -/
structure CreationSeed where
  profileId : String
  displayName : String
  createdAt : Nat
  dek : Key
  recovery : List UInt8
  wraps : RotationSeed
  enrolledWraps : RotationSeed
  root : String

def createPassphraseProfile (seed : CreationSeed) (passphrase : Text) (kdf : KdfParams) : Except VaultError Created := do
  let recovery := formatRecoveryKey seed.recovery
  let passphraseWrap ← wrapWithPassphrase c seed.dek passphrase kdf .passphrase seed.wraps.passphraseWrap
  let recoveryWrap ← wrapWithPassphrase c seed.dek (normalizeRecovery recovery) kdf .recovery seed.wraps.recoveryWrap
  let header : ProfileHeader := {
    profileId := seed.profileId, displayName := seed.displayName, createdAt := seed.createdAt
    protection := .passphrase, passphraseWrap := some passphraseWrap, recoveryWrap := some recoveryWrap
    keychainAccount := none, keyCheck := c.keyCheck seed.dek, protectionMac := none, rotation := none }
  let header := { header with protectionMac := some (protectionMac c seed.dek header) }
  return { vault := ⟨header, none, fun _ => none⟩, dek := seed.dek, recoveryKey := some recovery }

/-- The policy of a profile that never rotated and is linked to no identity. -/
def RotationPolicy.initial : RotationPolicy := { bindingDigest := "", retiredKeychain := [], manifestRoot := none }

/-- The header becomes the canonical one, bound to no identity and to the first catalogue. -/
def initializePolicy (seed : CreationSeed) (v : Vault) (header : ProfileHeader) : Except VaultError Vault := do
  let header ← bindManifestRoot c (bindRotation c header seed.dek none) seed.dek seed.root
  return { v with file := header, state := some header }

def createEnrolledPassphraseProfile (seed : CreationSeed) (passphrase : Text) (kdf : KdfParams) : Except VaultError Created :=
  do
  let created ← createPassphraseProfile c seed passphrase kdf
  let recovery := formatRecoveryKey seed.recovery
  let passphraseWrap ← wrapWithPassphrase c seed.dek passphrase kdf .rotatedPassphrase seed.enrolledWraps.passphraseWrap
  let recoveryWrap ←
    wrapWithPassphrase c seed.dek (normalizeRecovery recovery) kdf .rotatedRecovery seed.enrolledWraps.recoveryWrap
  let header := { created.vault.file with
    rotation := some RotationPolicy.initial, passphraseWrap := some passphraseWrap, recoveryWrap := some recoveryWrap }
  let v ← initializePolicy c seed created.vault header
  return { created with vault := v }

def createKeychainProfile (seed : CreationSeed) : Created :=
  let account := "profile-" ++ seed.profileId
  let header : ProfileHeader := {
    profileId := seed.profileId, displayName := seed.displayName, createdAt := seed.createdAt
    protection := .osKeychain, passphraseWrap := none, recoveryWrap := none
    keychainAccount := some account, keyCheck := c.keyCheck seed.dek, protectionMac := none, rotation := none }
  let header := { header with protectionMac := some (protectionMac c seed.dek header) }
  { vault := ⟨header, none, fun a => if a = account then some (.tagged seed.dek) else none⟩
    dek := seed.dek, recoveryKey := none }

def createEnrolledKeychainProfile (seed : CreationSeed) : Except VaultError Created := do
  let created := createKeychainProfile c seed
  let account := "profile-" ++ seed.profileId
  let v := created.vault.setSecret account (some (.enrolled seed.dek))
  let v ← initializePolicy c seed v { created.vault.file with rotation := some RotationPolicy.initial }
  return { created with vault := v }

end Crypto

end Anvil.Storage
