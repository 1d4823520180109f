import Mathlib
import Anvil.Storage.Vault

/-!
# Every passphrase that was set opens the profile

The header on disk as the operations of the vault leave it, over whole runs from a creation.

* `Opens c h dek p r` : `h` unlocks to `dek` with the passphrase `p` and with the recovery key `r` however it is typed;
* `Kept` : what every operation keeps of the header on disk: it is the data key's, it is authentic, and the secrets last
  set open it;
* `World`, `Step` : runs, with the copies of headers and keys that callers may hold;
* `secrets_open` : after any run whose conversions meet no keychain header with a rotation policy, the secrets last set open
  the profile;
* `convert_enrolled_locks_out` : a conversion of an enrolled header leaves one that no passphrase and no recovery key opens.
-/

namespace Anvil.Storage
open Anvil.Lib

/-- `typed` is the recovery key in some letter case and grouping. -/
def Retyped (typed recovery : Text) : Prop :=
  eqIgnoreCase (typed.filter Char.isAlphanum) (recovery.filter Char.isAlphanum) = true

theorem normalizeRecovery_retyped {typed recovery : Text} (h : Retyped typed recovery) :
    normalizeRecovery typed = normalizeRecovery recovery := by
  have hupper : ∀ t : Text, (lower t).map Char.toUpper = t.map Char.toUpper := by
    intro t
    rw [lower, List.map_map]
    exact List.map_congr_left fun a _ => a.toUpper_toLower_eq_toUpper
  unfold normalizeRecovery
  rw [← hupper, eqIgnoreCase_iff.1 h, hupper]

section
variable (c : Crypto)

/-- The passphrase and the recovery key, however it is typed, unlock the header to the key. -/
def Opens (h : ProfileHeader) (dek : Key) (passphrase recovery : Text) : Prop :=
  unlockWithPassphrase c h passphrase = .ok dek ∧
    ∀ typed, Retyped typed recovery → unlockWithRecovery c h typed = .ok dek

/-! ## Unlocking what was wrapped -/

variable {c}

theorem requireProtection_ok {h : ProfileHeader} {mode : ProtectionMode} {u : Unit} :
    requireProtection h mode = .ok u ↔ h.protection = mode := by
  unfold requireProtection
  split_ifs with hmode
  · simp [hmode]
  · simp [hmode]

theorem requireProfileKey_ok {h : ProfileHeader} {dek : Key} {u : Unit} :
    requireProfileKey c h dek = .ok u ↔ c.keyCheck dek = h.keyCheck := by
  unfold requireProfileKey
  split_ifs with hkey
  · simp [hkey]
  · simpa using hkey

theorem unlockWith_ok {h : ProfileHeader} {wrap : Option WrappedKey} {secret : Text} {label : Label} {k : Key} :
    unlockWith c h wrap secret label = .ok k ↔ h.protection = .passphrase ∧
      (∃ w, wrap = some w ∧ unwrapWithPassphrase c w secret label = .ok k) ∧ c.keyCheck k = h.keyCheck ∧
      checkProtectionMac c h k = .ok () := by
  unfold unlockWith
  cases wrap with
  | none => simp [bind_eq_ok]
  | some w =>
    simp only [bind_eq_ok, requireProtection_ok, requireProfileKey_ok]
    constructor
    · rintro ⟨_, hmode, k', hunwrap, _, hkey, _, hmac, hk⟩
      cases hk
      exact ⟨hmode, ⟨w, rfl, hunwrap⟩, hkey, hmac⟩
    · rintro ⟨hmode, ⟨w', hw, hunwrap⟩, hkey, hmac⟩
      cases hw
      exact ⟨(), hmode, k, hunwrap, (), hkey, (), hmac, rfl⟩

/-- What is wrapped under a secret and a label unwraps with them. -/
theorem unwrap_wrap {dek : Key} {secret : Text} {kdf : KdfParams} {label : Label} {seed : WrapSeed} {w : WrappedKey}
    (h : wrapWithPassphrase c dek secret kdf label seed = .ok w) : unwrapWithPassphrase c w secret label = .ok dek := by
  unfold wrapWithPassphrase at h
  obtain ⟨_, hkdf, h⟩ := bind_eq_ok.1 h
  obtain ⟨kek, hkek, h⟩ := bind_eq_ok.1 h
  cases h
  unfold unwrapWithPassphrase
  simp only [hkdf, hkek, ok_bind, c.open_seal, Key.fromBytes_bytes]
  rfl

/-- What is wrapped under one label unwraps under no other, whatever the secret. -/
theorem unwrap_other {dek k : Key} {secret other : Text} {kdf : KdfParams} {label label' : Label} {seed : WrapSeed}
    {w : WrappedKey} (h : wrapWithPassphrase c dek secret kdf label seed = .ok w) (hlabel : label ≠ label') :
    unwrapWithPassphrase c w other label' ≠ .ok k := by
  unfold wrapWithPassphrase at h
  obtain ⟨_, -, h⟩ := bind_eq_ok.1 h
  obtain ⟨kek, -, h⟩ := bind_eq_ok.1 h
  cases h
  intro hunwrap
  unfold unwrapWithPassphrase at hunwrap
  obtain ⟨_, -, hunwrap⟩ := bind_eq_ok.1 hunwrap
  obtain ⟨kek', -, hunwrap⟩ := bind_eq_ok.1 hunwrap
  rw [c.open_other kek label kek' label' seed.nonce dek.bytes fun h => hlabel (Prod.mk.inj h).2] at hunwrap
  cases hunwrap

/-- A header in passphrase mode, with authentic contents, opens with what its wraps unwrap with. -/
theorem opens_iff {h : ProfileHeader} {dek : Key} {p r : Text} :
    Opens c h dek p r ↔ h.protection = .passphrase ∧ c.keyCheck dek = h.keyCheck ∧ checkProtectionMac c h dek = .ok () ∧
      (∃ w, h.passphraseWrap = some w ∧ unwrapWithPassphrase c w p (passphraseLabel h) = .ok dek) ∧
      ∃ w, h.recoveryWrap = some w ∧ unwrapWithPassphrase c w (normalizeRecovery r) (recoveryLabel h) = .ok dek := by
  unfold Opens unlockWithPassphrase unlockWithRecovery
  simp only [unlockWith_ok]
  constructor
  · rintro ⟨⟨hmode, hpass, hkey, hmac⟩, hrecovery⟩
    exact ⟨hmode, hkey, hmac, hpass, (hrecovery r (eqIgnoreCase_self _)).2.1⟩
  · rintro ⟨hmode, hkey, hmac, hpass, hrecovery⟩
    refine ⟨⟨hmode, hpass, hkey, hmac⟩, ?_⟩
    intro typed htyped
    rw [normalizeRecovery_retyped htyped]
    exact ⟨hmode, hrecovery, hkey, hmac⟩

/-! ## The protection MAC -/

@[simp] theorem macInput_withMac (h : ProfileHeader) (mac : Option String) :
    ProfileHeader.macInput { h with protectionMac := mac } = h.macInput := rfl

theorem checkProtectionMac_sealed (h : ProfileHeader) (dek : Key) :
    checkProtectionMac c { h with protectionMac := some (protectionMac c dek h) } dek = .ok () := by
  unfold checkProtectionMac protectionMac
  simp

/-- The MAC of a header that is not enrolled covers its id, its mode and its key check only. -/
theorem checkProtectionMac_legacy {h h' : ProfileHeader} {dek : Key} (hmac : checkProtectionMac c h dek = .ok ())
    (hold : h.rotation = none) (hnew : h'.rotation = none) (hid : h'.profileId = h.profileId)
    (hmode : h'.protection = h.protection) (hkey : h'.keyCheck = h.keyCheck) (hsame : h'.protectionMac = h.protectionMac) :
    checkProtectionMac c h' dek = .ok () := by
  have hinput : h'.macInput = h.macInput := by
    unfold ProfileHeader.macInput
    simp [hold, hnew, hid, hmode, hkey]
  unfold checkProtectionMac protectionMac at hmac ⊢
  rwa [hsame, hnew, hinput, ← hold]

/-! ## The header on disk -/

/-- The header that unlocking reads. -/
def Vault.onDisk (v : Vault) : ProfileHeader := v.state.getD v.file

/-- A canonical header is enrolled, and without one the file's is not. -/
structure Vault.Canonical (v : Vault) : Prop where
  state : ∀ h, v.state = some h → h.rotation.isSome
  file : v.state = none → v.file.rotation = none

/-- Only the credential store differs. -/
def Vault.SameHeader (v v' : Vault) : Prop := v'.file = v.file ∧ v'.state = v.state

theorem Vault.SameHeader.onDisk {v v' : Vault} (h : v.SameHeader v') : v'.onDisk = v.onDisk := by
  unfold Vault.onDisk
  rw [h.1, h.2]

/-- `h` is an authentic header of the data key `dek`, and the secrets last set open it. -/
structure Sound (c : Crypto) (dek : Key) (secrets : Option (Text × Text)) (enrolled : Bool) (h : ProfileHeader) : Prop where
  key : h.keyCheck = c.keyCheck dek
  policy : h.rotation.isSome = enrolled
  mac : checkProtectionMac c h dek = .ok ()
  known : h.protection = .passphrase → secrets.isSome
  opens : ∀ p r, secrets = some (p, r) → Opens c h dek p r

/-- What the operations keep of a vault. -/
def Kept (c : Crypto) (dek : Key) (secrets : Option (Text × Text)) (enrolled : Bool) (v : Vault) : Prop :=
  v.Canonical ∧ Sound c dek secrets enrolled v.onDisk

theorem Kept.sameHeader {dek : Key} {secrets : Option (Text × Text)} {enrolled : Bool} {v v' : Vault}
    (h : Kept c dek secrets enrolled v) (hsame : v.SameHeader v') : Kept c dek secrets enrolled v' := by
  obtain ⟨hfile, hstate⟩ := hsame
  refine ⟨⟨?_, ?_⟩, ?_⟩
  · rw [hstate]
    exact h.1.state
  · rw [hstate, hfile]
    exact h.1.file
  · unfold Vault.onDisk
    rw [hstate, hfile]
    exact h.2

section Actions
variable {v : Vault} {dek : Key} {secrets : Option (Text × Text)} {enrolled : Bool}

theorem ensures_read {Q : ProfileHeader → Vault → Prop} {E : Vault → Prop} (hv : v.Canonical) (hQ : Q v.onDisk v) :
    Ensures readHeaderUnlocked v Q E := by
  unfold readHeaderUnlocked
  rw [ensures_bind, ensures_get]
  unfold Vault.onDisk at hQ
  cases hstate : v.state with
  | some h =>
    have hsome := hv.state h hstate
    rw [hstate] at hQ
    simp only [Option.isNone_eq_false_iff.2 hsome, Bool.false_eq_true, if_false]
    exact hQ
  | none =>
    rw [hstate] at hQ
    simp only [hv.file hstate, Option.isSome_none, Bool.false_eq_true, if_false]
    exact hQ

theorem readHeaderUnlocked_ok {h : ProfileHeader} {v' : Vault} (hread : readHeaderUnlocked v = .ok h v') : h = v.onDisk := by
  have hends : Ensures readHeaderUnlocked v (fun h _ => h = v.onDisk) fun _ => True := by
    unfold readHeaderUnlocked Vault.onDisk
    rw [ensures_bind, ensures_get]
    cases v.state with
    | some s =>
      dsimp only
      split_ifs
      · trivial
      · rfl
    | none =>
      dsimp only
      split_ifs
      · trivial
      · rfl
  unfold Ensures at hends
  rw [hread] at hends
  exact hends

/-- A header takes the place of an enrolled one as an enrolled one, and of a legacy one as a legacy one. -/
theorem ensures_replace {h : ProfileHeader} {Q : Unit → Vault → Prop} {E : Vault → Prop} (hv : v.Canonical)
    (hpolicy : h.rotation.isSome = v.onDisk.rotation.isSome) (hE : E v)
    (hQ : ∀ v' : Vault, v'.Canonical → v'.onDisk = h → Q () v') : Ensures (replaceHeader h) v Q E := by
  unfold replaceHeader
  rw [ensures_bind, ensures_get]
  cases hstate : v.state with
  | some current =>
    simp only [ensures_bind, ensures_refuse, ensures_set]
    refine ⟨fun _ => hE, fun _ => hQ _ ⟨?_, ?_⟩ rfl⟩
    · intro h' hh'
      cases hh'
      rw [hpolicy, Vault.onDisk, hstate]
      exact hv.state current hstate
    · exact fun hnone => absurd hnone (by simp)
  | none =>
    rw [ensures_set]
    refine hQ _ ⟨?_, ?_⟩ ?_
    · intro h' hh'
      cases hh'
    · intro _
      rw [Vault.onDisk, hstate, Option.getD_none, hv.file hstate] at hpolicy
      exact Option.isSome_eq_false_iff.1 hpolicy |> Option.isNone_iff_eq_none.1
    · rfl

theorem ensures_update {edit : ProfileHeader → Except VaultError (Option ProfileHeader)}
    {Q : ProfileHeader → Vault → Prop} {E : Vault → Prop} (hv : v.Canonical) (hE : E v)
    (hpolicy : ∀ next, edit v.onDisk = .ok (some next) → next.rotation.isSome = v.onDisk.rotation.isSome)
    (hnone : edit v.onDisk = .ok none → Q v.onDisk v)
    (hsome : ∀ next v', edit v.onDisk = .ok (some next) → v'.Canonical → v'.onDisk = next → Q next v') :
    Ensures (updateHeader edit) v Q E := by
  unfold updateHeader
  rw [ensures_bind]
  apply ensures_read hv
  rw [ensures_bind, ensures_check]
  refine ⟨?_, fun _ _ => hE⟩
  intro next hnext
  cases next with
  | none => exact hnone hnext
  | some next =>
    simp only [ensures_bind, ensures_pure]
    exact ensures_replace hv (hpolicy next hnext) hE fun v' hv' hdisk => hsome next v' hnext hv' hdisk

/-! ## The credential store -/

theorem Vault.SameHeader.refl (v : Vault) : v.SameHeader v := ⟨rfl, rfl⟩

theorem Vault.SameHeader.trans {v v' v'' : Vault} (h : v.SameHeader v') (h' : v'.SameHeader v'') : v.SameHeader v'' :=
  ⟨h'.1.trans h.1, h'.2.trans h.2⟩

theorem ensures_callKeychain {deny : Deny} {call : KeychainCall} {Q : Unit → Vault → Prop} {E : Vault → Prop}
    (hQ : Q () v) (hE : E v) : Ensures (callKeychain deny call) v Q E := by
  unfold callKeychain
  cases deny call with
  | some e => exact hE
  | none => exact hQ

/-- An action that only touches the credential store, where the conditions only look at the headers. -/
def StoreOnly {α : Type} (m : Action α) : Prop := ∀ v : Vault, Ensures m v (fun _ => v.SameHeader) v.SameHeader

theorem deleteRetiredEntry_storeOnly (deny : Deny) (keyCheckOfEntry account : String) :
    StoreOnly (deleteRetiredEntry c deny keyCheckOfEntry account) := by
  intro v
  unfold deleteRetiredEntry
  simp only [ensures_bind]
  refine ensures_callKeychain (ensures_callKeychain ?_ (.refl v)) (.refl v)
  rw [ensures_get]
  cases v.keychain account with
  | none => exact .refl v
  | some secret =>
    dsimp only
    split
    · exact .refl v
    · split
      · exact .refl v
      · unfold overwriteRetired
        rw [ensures_bind, ensures_modify, ensures_throw]
        split_ifs
        · exact .refl v
        · exact .refl v

theorem tagKeychainEntry_storeOnly (deny : Deny) (h : ProfileHeader) (dek : Key) :
    StoreOnly (tagKeychainEntry c deny h dek) := by
  intro v
  unfold tagKeychainEntry
  cases h.keychainAccount with
  | none => exact .refl v
  | some account =>
    simp only [ensures_bind]
    refine ensures_callKeychain (ensures_callKeychain ?_ (.refl v)) (.refl v)
    rw [ensures_get]
    split
    · split
      · rw [ensures_bind]
        exact ensures_callKeychain (.refl v) (.refl v)
      · exact .refl v
    · exact .refl v

/-! ## What the operations keep -/

theorem passphraseLabel_congr {h h' : ProfileHeader} (hpolicy : h'.rotation.isSome = h.rotation.isSome) :
    passphraseLabel h' = passphraseLabel h := by
  unfold passphraseLabel
  rw [hpolicy]

theorem recoveryLabel_congr {h h' : ProfileHeader} (hpolicy : h'.rotation.isSome = h.rotation.isSome) :
    recoveryLabel h' = recoveryLabel h := by
  unfold recoveryLabel
  rw [hpolicy]

/-- A header with the mode, the wraps and the key of a sound one, and an authentic MAC. -/
theorem Sound.update {h h' : ProfileHeader} (hs : Sound c dek secrets enrolled h) (hkey : h'.keyCheck = h.keyCheck)
    (hpolicy : h'.rotation.isSome = h.rotation.isSome) (hmode : h'.protection = h.protection)
    (hpass : h'.passphraseWrap = h.passphraseWrap) (hrecovery : h'.recoveryWrap = h.recoveryWrap)
    (hmac : checkProtectionMac c h' dek = .ok ()) : Sound c dek secrets enrolled h' where
  key := hkey.trans hs.key
  policy := hpolicy.trans hs.policy
  mac := hmac
  known := by
    rw [hmode]
    exact hs.known
  opens p r hpr := by
    have hopens := opens_iff.1 (hs.opens p r hpr)
    rw [opens_iff, hmode, hkey, hpass, hrecovery, passphraseLabel_congr hpolicy, recoveryLabel_congr hpolicy]
    exact ⟨hopens.1, hopens.2.1, hmac, hopens.2.2.2⟩

theorem Sound.resealed {h : ProfileHeader} (hs : Sound c dek secrets enrolled h) :
    Sound c dek secrets enrolled { h with protectionMac := some (protectionMac c dek h) } :=
  hs.update rfl rfl rfl rfl rfl (checkProtectionMac_sealed h dek)

/-- The header stays as sound, and in the mode it has. -/
theorem upgradeHeader_keeps (deny : Deny) (h : ProfileHeader) {dek' : Key} (hv : Kept c dek secrets enrolled v)
    (hkey : c.keyCheck dek' = c.keyCheck dek → dek' = dek) :
    Ensures (upgradeHeader c deny h dek') v
      (fun _ v' => Kept c dek secrets enrolled v' ∧ v'.onDisk.protection = v.onDisk.protection)
        (Kept c dek secrets enrolled) := by
  unfold upgradeHeader
  rw [ensures_bind, ensures_check]
  refine ⟨?_, fun _ _ => hv⟩
  intro _ hprofile
  rw [requireProfileKey_ok] at hprofile
  split
  · exact ⟨hv, rfl⟩
  · rw [ensures_bind, ensures_check]
    refine ⟨?_, fun _ _ => hv⟩
    intro _ _
    rw [ensures_bind]
    -- whatever the header on disk becomes, the rest only tags the credential-store entry
    have hrest : ∀ next v', Kept c dek secrets enrolled v' → v'.onDisk.protection = v.onDisk.protection → Ensures
        (if next.profileId ≠ h.profileId ∨ next.keyCheck ≠ h.keyCheck ∨ next.protectionMac = none then pure h
          else do
            check (checkProtectionMac c next dek')
            tagUpgraded c deny next dek'
            pure next) v' (fun _ v'' => Kept c dek secrets enrolled v'' ∧ v''.onDisk.protection = v.onDisk.protection)
          (Kept c dek secrets enrolled) := by
      intro next v' hv' hmode
      split
      · exact ⟨hv', hmode⟩
      · rw [ensures_bind, ensures_check]
        refine ⟨fun _ _ => ?_, fun _ _ => hv'⟩
        rw [ensures_bind]
        unfold tagUpgraded
        split
        · refine (tagKeychainEntry_storeOnly deny next dek' v').imp (fun _ v'' hsame => ⟨hv'.sameHeader hsame, ?_⟩)
            fun _ => hv'.sameHeader
          rw [hsame.onDisk, hmode]
        · exact ⟨hv', hmode⟩
    have hupgraded : ∀ next, upgraded c h dek' v.onDisk = .ok (some next) →
        next = { v.onDisk with protectionMac := some (protectionMac c dek v.onDisk) } := by
      intro next hnext
      unfold upgraded at hnext
      split at hnext
      · cases hnext
      · rename_i hsame
        rw [not_or, not_not] at hsame
        obtain ⟨_, _, hnext⟩ := bind_eq_ok.1 hnext
        cases hnext
        rw [hkey (by rw [hprofile, ← hsame.1.2.1, hv.2.key])]
    refine ensures_update hv.1 hv ?_ ?_ ?_
    · intro next hnext
      rw [hupgraded next hnext]
    · exact fun _ => hrest _ v hv rfl
    · intro next v' hnext hv' hdisk
      refine hrest _ v' ⟨hv', ?_⟩ ?_
      · rw [hdisk, hupgraded next hnext]
        exact hv.2.resealed
      · rw [hdisk, hupgraded next hnext]

/-- A rewrite of the header on disk by an edit that only touches the credential store besides. -/
theorem ensures_rewrite {h : ProfileHeader} {dek' : Key} {mode : ProtectionMode}
    {edit : ProfileHeader → Action ProfileHeader} {Q : ProfileHeader → Vault → Prop}
    (hv : Kept c dek secrets enrolled v) (hkey : c.keyCheck dek' = c.keyCheck dek → dek' = dek)
    (hedit : v.onDisk.protection = mode → dek' = dek → Ensures (edit v.onDisk) v
      (fun next v' => v.SameHeader v' ∧ next.rotation.isSome = v.onDisk.rotation.isSome ∧
        ∀ v'' : Vault, v''.Canonical → v''.onDisk = { next with protectionMac := some (protectionMac c dek next) } →
          Q { next with protectionMac := some (protectionMac c dek next) } v'') v.SameHeader) :
    Ensures (rewriteHeader c h dek' mode edit) v Q (Kept c dek secrets enrolled) := by
  unfold rewriteHeader
  rw [ensures_bind]
  apply ensures_read hv.1
  rw [ensures_bind, ensures_refuse]
  refine ⟨fun _ => hv, fun _ => ?_⟩
  simp only [ensures_bind, ensures_check]
  refine ⟨fun _ hmode => ⟨fun _ hprofile => ⟨fun _ _ => ⟨fun _ _ => ?_, fun _ _ => hv⟩, fun _ _ => hv⟩,
    fun _ _ => hv⟩, fun _ _ => hv⟩
  rw [requireProtection_ok] at hmode
  rw [requireProfileKey_ok, hv.2.key] at hprofile
  have hdek := hkey hprofile
  subst hdek
  refine (hedit hmode rfl).imp ?_ fun _ => hv.sameHeader
  intro next v' hnext
  obtain ⟨hsame, hpolicy, hQ⟩ := hnext
  have hv' := hv.sameHeader hsame
  refine ensures_replace hv'.1 ?_ hv' fun v'' hv'' hdisk => hQ v'' hv'' hdisk
  rw [hsame.onDisk]
  exact hpolicy

/-- The new passphrase and the recovery key as it was. -/
theorem changePassphrase_opens (h : ProfileHeader) {dek' : Key} (p : Text) (kdf : KdfParams) (seed : WrapSeed)
    (hv : Kept c dek secrets enrolled v) (hkey : c.keyCheck dek' = c.keyCheck dek → dek' = dek)
    (hpolicy : h.keyCheck = c.keyCheck dek → h.rotation.isSome = enrolled) :
    Ensures (changePassphrase c h dek' p kdf seed) v
      (fun _ => Kept c dek (secrets.map fun s => (p, s.2)) enrolled) (Kept c dek secrets enrolled) := by
  unfold changePassphrase
  simp only [ensures_bind, ensures_check]
  refine ⟨fun _ _ => ⟨fun _ hprofile => ⟨fun _ _ => ⟨fun w hw => ?_, fun _ _ => hv⟩, fun _ _ => hv⟩, fun _ _ => hv⟩,
    fun _ _ => hv⟩
  rw [requireProfileKey_ok] at hprofile
  refine ensures_rewrite hv hkey fun hmode hdek => ?_
  rw [ensures_pure]
  refine ⟨.refl v, rfl, fun v' hv' hdisk => ⟨hv', ?_⟩⟩
  rw [hdek] at hprofile hw
  -- the caller's copy and the header on disk are enrolled alike, so the new wrap has the label that unlocking uses
  have hlabel : h.rotation.isSome = v.onDisk.rotation.isSome := by rw [hpolicy hprofile.symm, hv.2.policy]
  rw [hdisk]
  refine ⟨hv.2.key, hv.2.policy, checkProtectionMac_sealed _ dek, ?_, ?_⟩
  · intro _
    rw [Option.isSome_map]
    exact hv.2.known hmode
  · intro p' r hpr
    obtain ⟨⟨q, r'⟩, hsecrets, hpr⟩ := Option.map_eq_some_iff.1 hpr
    cases hpr
    have hopens := opens_iff.1 (hv.2.opens q r' hsecrets)
    rw [opens_iff]
    refine ⟨hmode, hopens.2.1, checkProtectionMac_sealed _ dek, ⟨w, rfl, ?_⟩, hopens.2.2.2.2⟩
    rw [passphraseLabel_congr hlabel] at hw
    exact unwrap_wrap hw

/-- Forgetting the account of a header that is not enrolled. -/
theorem forgetKeychainAccount_keeps (h : ProfileHeader) (account : String) (hv : Kept c dek secrets enrolled v)
    (hlegacy : h.keyCheck = c.keyCheck dek → enrolled = false) :
    Ensures (forgetKeychainAccount h account) v (fun _ => Kept c dek secrets enrolled) (Kept c dek secrets enrolled) := by
  unfold forgetKeychainAccount
  rw [ensures_bind]
  have hrest : ∀ next v', Kept c dek secrets enrolled v' → Ensures
      (if next.protection = .passphrase ∧ next.profileId = h.profileId ∧ next.keyCheck = h.keyCheck then pure next
        else pure h : Action ProfileHeader) v' (fun _ => Kept c dek secrets enrolled) (Kept c dek secrets enrolled) := by
    intro next v' hv'
    split
    · exact hv'
    · exact hv'
  refine ensures_update hv.1 hv ?_ (fun _ => hrest _ v hv) ?_
  · intro next hnext
    split at hnext
    · cases hnext
    · cases hnext
      rfl
  · intro next v' hnext hv' hdisk
    refine hrest next v' ⟨hv', ?_⟩
    split at hnext
    · cases hnext
    · rename_i hsame
      rw [not_or, not_not] at hsame
      cases hnext
      rw [hdisk]
      have hnone : v.onDisk.rotation = none := by
        have hpolicy := hv.2.policy
        rw [hlegacy (hsame.1.2.2.symm.trans hv.2.key)] at hpolicy
        exact Option.isNone_iff_eq_none.1 (Option.isSome_eq_false_iff.1 hpolicy)
      exact hv.2.update rfl rfl rfl rfl rfl (checkProtectionMac_legacy hv.2.mac hnone hnone rfl rfl rfl rfl)

theorem retireKeychainEntry_keeps (deny : Deny) (h : ProfileHeader) (hv : Kept c dek secrets enrolled v)
    (hpolicy : h.keyCheck = c.keyCheck dek → h.rotation.isSome = enrolled) :
    Ensures (retireKeychainEntry c deny h) v (fun _ => Kept c dek secrets enrolled) (Kept c dek secrets enrolled) := by
  unfold retireKeychainEntry
  rw [ensures_bind, ensures_check]
  refine ⟨fun _ _ => ?_, fun _ _ => hv⟩
  split
  · exact hv
  · rename_i account _
    simp only [ensures_bind, ensures_refuse]
    refine ⟨fun _ => hv, fun hrotation => ?_⟩
    refine (deleteRetiredEntry_storeOnly deny h.keyCheck account v).imp ?_ fun _ => hv.sameHeader
    intro _ v' hsame
    refine forgetKeychainAccount_keeps h account (hv.sameHeader hsame) fun hkey => ?_
    rw [← hpolicy hkey]
    simpa using hrotation

/-- Removing the entry of a converted header never fails, whatever the credential store does. -/
theorem removeConverted_keeps {E : Vault → Prop} (deny : Deny) (h : ProfileHeader) (hv : Kept c dek secrets false v) :
    Ensures (removeConverted c deny h) v (fun _ => Kept c dek secrets false) E := by
  unfold removeConverted
  split
  · exact hv
  · rename_i account _
    rw [ensures_bind]
    apply ensures_attempt
    refine (deleteRetiredEntry_storeOnly deny h.keyCheck account v).imp ?_ ?_
    · intro _ v' hsame
      simp only [Option.isSome_none, Bool.false_eq_true, if_false, ensures_bind]
      apply ensures_attempt
      exact (forgetKeychainAccount_keeps h account (hv.sameHeader hsame) fun _ => rfl).imp (fun _ _ h => h) fun _ h _ => h
    · intro v' hsame e
      exact hv.sameHeader hsame

/-- A conversion up to the header it writes; `hQ` is about what is left to do then. -/
theorem ensures_convert {Q : Text → Vault → Prop} (deny : Deny) (h : ProfileHeader) {dek' : Key} (p : Text)
    (kdf : KdfParams) (seed : ConversionSeed) (hv : Kept c dek secrets enrolled v)
    (hkey : c.keyCheck dek' = c.keyCheck dek → dek' = dek)
    (hQ : v.onDisk.protection = .osKeychain → ∀ wp wr v₁ v₂ next,
      wrapWithPassphrase c dek p kdf .passphrase seed.passphraseWrap = .ok wp →
      wrapWithPassphrase c dek (normalizeRecovery (formatRecoveryKey seed.recovery)) kdf .recovery seed.recoveryWrap =
        .ok wr →
      Kept c dek secrets enrolled v₁ →
      next = { v₁.onDisk with protection := .passphrase, passphraseWrap := some wp, recoveryWrap := some wr } →
      v₂.Canonical → v₂.onDisk = { next with protectionMac := some (protectionMac c dek next) } →
      Ensures (removeConverted c deny v₂.onDisk) v₂ (fun _ => Q (formatRecoveryKey seed.recovery))
        (Kept c dek secrets enrolled)) :
    Ensures (convertKeychainToPassphrase c deny h dek' p kdf seed) v Q (Kept c dek secrets enrolled) := by
  unfold convertKeychainToPassphrase
  simp only [ensures_bind, ensures_check]
  refine ⟨fun _ _ => ⟨fun _ _ => ⟨fun _ _ => ⟨fun _ _ => ?_, fun _ _ => hv⟩, fun _ _ => hv⟩, fun _ _ => hv⟩,
    fun _ _ => hv⟩
  refine (upgradeHeader_keeps deny h hv hkey).imp ?_ fun _ h => h
  rintro h₁ v₁ ⟨hv₁, hsameMode⟩
  refine ⟨fun wp hwp => ⟨fun wr hwr => ?_, fun _ _ => hv₁⟩, fun _ _ => hv₁⟩
  refine ensures_rewrite hv₁ hkey fun hmode hdek => ?_
  subst hdek
  unfold convertedHeader
  rw [ensures_bind, ensures_refuse]
  refine ⟨fun _ => .refl v₁, fun _ => ?_⟩
  rw [ensures_bind]
  have htag : StoreOnly (tagNamed c deny v₁.onDisk dek') := by
    intro v
    unfold tagNamed
    split
    · exact tagKeychainEntry_storeOnly deny _ dek' v
    · exact .refl v
  refine (htag v₁).imp ?_ fun _ h => h
  intro _ v₂ hsame
  refine ⟨hsame, rfl, fun v₃ hv₃ hdisk => ?_⟩
  have hrest := hQ (hsameMode ▸ hmode) wp wr v₁ v₃ _ hwp hwr hv₁ rfl hv₃ hdisk
  rw [hdisk] at hrest
  exact hrest

/-- A conversion that meets no enrolled keychain header: the new passphrase and the new recovery key. One that meets a
passphrase header is refused. -/
theorem convertKeychainToPassphrase_opens (deny : Deny) (h : ProfileHeader) {dek' : Key} (p : Text) (kdf : KdfParams)
    (seed : ConversionSeed) (hv : Kept c dek secrets enrolled v) (hkey : c.keyCheck dek' = c.keyCheck dek → dek' = dek)
    (hlegacy : v.onDisk.protection = .osKeychain → v.onDisk.rotation = none) :
    Ensures (convertKeychainToPassphrase c deny h dek' p kdf seed) v
      (fun r => Kept c dek (some (p, r)) enrolled) (Kept c dek secrets enrolled) := by
  refine ensures_convert deny h p kdf seed hv hkey fun hmode => ?_
  have hfalse : enrolled = false := by rw [← hv.2.policy, hlegacy hmode, Option.isSome_none]
  subst hfalse
  intro wp wr v₁ v₂ next hwp hwr hv₁ hnext hv₂ hdisk
  refine removeConverted_keeps deny _ ⟨hv₂, ?_⟩
  subst hnext
  have hpolicy : v₁.onDisk.rotation.isSome = false := hv₁.2.policy
  rw [hdisk]
  refine ⟨hv₁.2.key, hpolicy, checkProtectionMac_sealed _ dek, fun _ => rfl, ?_⟩
  intro p' r hpr
  cases hpr
  rw [opens_iff]
  refine ⟨rfl, hv₁.2.key.symm, checkProtectionMac_sealed _ dek, ⟨wp, rfl, ?_⟩, wr, rfl, ?_⟩
  · rw [passphraseLabel]
    simp only [hpolicy]
    exact unwrap_wrap hwp
  · rw [recoveryLabel]
    simp only [hpolicy]
    exact unwrap_wrap hwr

/-- An enrolled header whose wraps are sealed under the labels of one that is not. -/
structure Mislabelled (c : Crypto) (h : ProfileHeader) : Prop where
  policy : h.rotation.isSome
  passphrase : ∃ w, h.passphraseWrap = some w ∧ ∀ q k, unwrapWithPassphrase c w q .rotatedPassphrase ≠ .ok k
  recovery : ∃ w, h.recoveryWrap = some w ∧ ∀ q k, unwrapWithPassphrase c w q .rotatedRecovery ≠ .ok k

theorem Mislabelled.locked {h : ProfileHeader} (hh : Mislabelled c h) (q : Text) (k : Key) :
    unlockWithPassphrase c h q ≠ .ok k ∧ unlockWithRecovery c h q ≠ .ok k := by
  unfold unlockWithPassphrase unlockWithRecovery
  rw [passphraseLabel, recoveryLabel, if_pos hh.policy, if_pos hh.policy]
  constructor
  · intro hunlock
    obtain ⟨w, hw, hunwrap⟩ := (unlockWith_ok.1 hunlock).2.1
    obtain ⟨w', hw', hfail⟩ := hh.passphrase
    rw [hw] at hw'
    cases hw'
    exact hfail q k hunwrap
  · intro hunlock
    obtain ⟨w, hw, hunwrap⟩ := (unlockWith_ok.1 hunlock).2.1
    obtain ⟨w', hw', hfail⟩ := hh.recovery
    rw [hw] at hw'
    cases hw'
    exact hfail _ k hunwrap

theorem forgetKeychainAccount_mislabelled (h : ProfileHeader) (account : String) (hv : v.Canonical)
    (hdisk : Mislabelled c v.onDisk) : Ensures (forgetKeychainAccount h account) v
      (fun _ v' => Mislabelled c v'.onDisk) (fun v' => Mislabelled c v'.onDisk) := by
  unfold forgetKeychainAccount
  rw [ensures_bind]
  have hrest : ∀ next v', Mislabelled c (Vault.onDisk v') → Ensures
      (if next.protection = .passphrase ∧ next.profileId = h.profileId ∧ next.keyCheck = h.keyCheck then pure next
        else pure h : Action ProfileHeader) v' (fun _ v' => Mislabelled c v'.onDisk) fun v' => Mislabelled c v'.onDisk := by
    intro next v' hv'
    split
    · exact hv'
    · exact hv'
  refine ensures_update hv hdisk ?_ (fun _ => hrest _ v hdisk) ?_
  · intro next hnext
    split at hnext
    · cases hnext
    · cases hnext
      rfl
  · intro next v' hnext hv' hnew
    refine hrest next v' ?_
    split at hnext
    · cases hnext
    · cases hnext
      rw [hnew]
      exact ⟨hdisk.policy, hdisk.passphrase, hdisk.recovery⟩

/-- **A conversion of an enrolled header that succeeds leaves one that no passphrase and no recovery key opens.** -/
theorem convert_enrolled_locks_out (deny : Deny) (h : ProfileHeader) {dek' : Key} (p : Text) (kdf : KdfParams)
    (seed : ConversionSeed) (hv : Kept c dek secrets true v) (hkey : c.keyCheck dek' = c.keyCheck dek → dek' = dek) :
    Ensures (convertKeychainToPassphrase c deny h dek' p kdf seed) v
      (fun _ v' => ∀ q k, unlockWithPassphrase c v'.onDisk q ≠ .ok k ∧ unlockWithRecovery c v'.onDisk q ≠ .ok k)
      (Kept c dek secrets true) := by
  refine ensures_convert deny h p kdf seed hv hkey fun _ => ?_
  intro wp wr v₁ v₂ next hwp hwr hv₁ hnext hv₂ hdisk
  have hwrong : Mislabelled c v₂.onDisk := by
    subst hnext
    rw [hdisk]
    exact ⟨hv₁.2.policy, ⟨wp, rfl, fun q k => unwrap_other hwp (by decide)⟩, wr, rfl,
      fun q k => unwrap_other hwr (by decide)⟩
  unfold removeConverted
  split
  · exact hwrong.locked
  · rename_i account _
    rw [ensures_bind]
    apply ensures_attempt
    have hsame : ∀ {v' : Vault}, v₂.SameHeader v' → v'.Canonical ∧ Mislabelled c v'.onDisk := by
      intro v' hsame
      unfold Vault.onDisk at hwrong ⊢
      rw [hsame.1, hsame.2]
      refine ⟨⟨?_, ?_⟩, hwrong⟩
      · rw [hsame.2]
        exact hv₂.state
      · rw [hsame.1, hsame.2]
        exact hv₂.file
    refine (deleteRetiredEntry_storeOnly deny _ account v₂).imp ?_ ?_
    · intro _ v' hv'
      simp only [Option.isSome_none, Bool.false_eq_true, if_false, ensures_bind]
      apply ensures_attempt
      exact (forgetKeychainAccount_mislabelled _ account (hsame hv').1 (hsame hv').2).imp (fun _ _ h => h.locked)
        fun _ h _ => h.locked
    · intro v' hv' e
      exact (hsame hv').2.locked

/-! ## Rotation -/

theorem retireEach_storeOnly (deny : Deny) (entries : List RetiredKeychainEntry) :
    StoreOnly (retireEach c deny entries) := by
  induction entries with
  | nil => exact fun v => .refl v
  | cons entry rest ih =>
    intro v
    rw [retireEach, ensures_bind]
    have hrest : ∀ refused v', v.SameHeader v' → Ensures (do
        let left ← retireEach c deny rest
        pure (match refused with
          | some e => (entry, e) :: left
          | none => left)) v' (fun _ => v.SameHeader) v.SameHeader := by
      intro refused v' hsame
      rw [ensures_bind]
      exact (ih v').imp (fun _ _ h => hsame.trans h) fun _ h => hsame.trans h
    apply ensures_attempt
    exact (deleteRetiredEntry_storeOnly deny _ _ v).imp (fun _ v' h => hrest none v' h) fun v' h e => hrest (some e) v' h

theorem checkCurrent_ok {current expected : ProfileHeader} {key : Key} {u : Unit}
    (h : checkCurrent c current expected key = .ok u) : c.keyCheck key = current.keyCheck := by
  unfold checkCurrent at h
  obtain ⟨_, -, h⟩ := bind_eq_ok.1 h
  obtain ⟨_, hkey, -⟩ := bind_eq_ok.1 h
  exact requireProfileKey_ok.1 hkey

theorem forgetRetired_keeps {E : Vault → Prop} {policy : RotationPolicy} (left : List RetiredKeychainEntry)
    (hv : Kept c dek secrets enrolled v) (hpolicy : v.onDisk.rotation = some policy) :
    Ensures (forgetRetired c dek v.onDisk policy left) v (fun _ => Kept c dek secrets enrolled) E := by
  unfold forgetRetired
  split
  · simp only [ensures_bind]
    apply ensures_attempt
    refine ensures_replace hv.1 ?_ (fun _ => hv) fun v' hv' hdisk => ⟨hv', ?_⟩
    · rw [hpolicy]
      rfl
    · rw [hdisk]
      refine hv.2.update rfl ?_ rfl rfl rfl (checkProtectionMac_sealed _ dek)
      rw [hpolicy]
      rfl
  · exact hv

theorem retireRotatedKeychain_keeps (deny : Deny) (h : ProfileHeader) {key : Key} (hv : Kept c dek secrets enrolled v)
    (hkey : c.keyCheck key = c.keyCheck dek → key = dek) :
    Ensures (retireRotatedKeychain c deny h key) v (fun _ => Kept c dek secrets enrolled) (Kept c dek secrets enrolled) := by
  unfold retireRotatedKeychain
  rw [ensures_bind]
  apply ensures_read hv.1
  rw [ensures_bind, ensures_check]
  refine ⟨fun _ hcurrent => ?_, fun _ _ => hv⟩
  have hdek := hkey ((checkCurrent_ok hcurrent).trans hv.2.key)
  subst hdek
  split
  · exact hv
  · rename_i policy hpolicy
    rw [ensures_bind]
    refine (retireEach_storeOnly deny _ v).imp ?_ fun _ => hv.sameHeader
    intro left v' hsame
    have hv' := hv.sameHeader hsame
    have hdisk : v.onDisk = v'.onDisk := by
      unfold Vault.onDisk
      rw [hsame.1, hsame.2]
    rw [ensures_bind, hdisk]
    refine (forgetRetired_keeps _ hv' (hdisk ▸ hpolicy)).imp ?_ fun _ h => h
    intro next v'' hv''
    split
    · exact hv''
    · exact hv''

/-- The secrets a rotation sets. -/
def RotationTarget.newSecrets : RotationTarget → Option (Text × Text)
  | .passphrase p r _ _ => some (p, r)
  | .keychain _ => none

/-- A header staged for a new key: its wraps, under the labels of an enrolled header, hold that key. -/
structure Staged (c : Crypto) (newKey : Key) (secrets : Option (Text × Text)) (h : ProfileHeader) : Prop where
  key : h.keyCheck = c.keyCheck newKey
  policy : h.rotation.isSome
  known : h.protection = .passphrase → secrets.isSome
  wraps : ∀ p r, secrets = some (p, r) → h.protection = .passphrase ∧
    (∃ w, h.passphraseWrap = some w ∧ unwrapWithPassphrase c w p .rotatedPassphrase = .ok newKey) ∧
    ∃ w, h.recoveryWrap = some w ∧ unwrapWithPassphrase c w (normalizeRecovery r) .rotatedRecovery = .ok newKey

theorem Staged.update {newKey : Key} {h h' : ProfileHeader} (hs : Staged c newKey secrets h)
    (hkey : h'.keyCheck = h.keyCheck) (hpolicy : h'.rotation.isSome) (hmode : h'.protection = h.protection)
    (hpass : h'.passphraseWrap = h.passphraseWrap) (hrecovery : h'.recoveryWrap = h.recoveryWrap) :
    Staged c newKey secrets h' where
  key := hkey.trans hs.key
  policy := hpolicy
  known := by
    rw [hmode]
    exact hs.known
  wraps := by
    rw [hmode, hpass, hrecovery]
    exact hs.wraps

theorem Staged.sound {newKey : Key} {h : ProfileHeader} (hs : Staged c newKey secrets h)
    (hmac : checkProtectionMac c h newKey = .ok ()) : Sound c newKey secrets true h where
  key := hs.key
  policy := hs.policy
  mac := hmac
  known := hs.known
  opens p r hpr := by
    obtain ⟨hmode, hpass, hrecovery⟩ := hs.wraps p r hpr
    rw [opens_iff, passphraseLabel, recoveryLabel, if_pos hs.policy, if_pos hs.policy]
    exact ⟨hmode, hs.key.symm, hmac, hpass, hrecovery⟩

theorem bindManifestRoot_ok {h next : ProfileHeader} {key : Key} {root : String}
    (hbind : bindManifestRoot c h key root = .ok next) :
    (next.keyCheck = h.keyCheck ∧ next.protection = h.protection ∧ next.passphraseWrap = h.passphraseWrap ∧
      next.recoveryWrap = h.recoveryWrap) ∧ next.rotation.isSome ∧ h.rotation.isSome ∧
      checkProtectionMac c next key = .ok () := by
  unfold bindManifestRoot at hbind
  obtain ⟨_, -, hbind⟩ := bind_eq_ok.1 hbind
  split at hbind
  · cases hbind
  · rename_i policy hpolicy
    cases hbind
    exact ⟨⟨rfl, rfl, rfl, rfl⟩, rfl, by rw [hpolicy]; rfl, checkProtectionMac_sealed _ key⟩

/-- Binding a staged header makes it sound. -/
theorem Staged.bound {newKey : Key} {h next : ProfileHeader} {binding : Option String} {root : String}
    (hs : Staged c newKey secrets h) (hbind : bindManifestRoot c (bindRotation c h newKey binding) newKey root = .ok next) :
    Sound c newKey secrets true next := by
  obtain ⟨⟨hkey, hmode, hpass, hrecovery⟩, hpolicy, -, hmac⟩ := bindManifestRoot_ok hbind
  exact (hs.update hkey hpolicy hmode hpass hrecovery).sound hmac

theorem stageHeader_staged (deny : Deny) (h : ProfileHeader) (newKey : Key) (target : RotationTarget) :
    Ensures (stageHeader c deny h newKey target) v
      (fun staged v' => v.SameHeader v' ∧ Staged c newKey target.newSecrets staged) v.SameHeader := by
  cases target with
  | passphrase p r kdf seed =>
    rw [stageHeader, ensures_check]
    refine ⟨?_, fun _ _ => .refl v⟩
    intro staged hstaged
    unfold rotatedHeader at hstaged
    obtain ⟨_, -, hstaged⟩ := bind_eq_ok.1 hstaged
    obtain ⟨_, -, hstaged⟩ := bind_eq_ok.1 hstaged
    obtain ⟨wp, hwp, hstaged⟩ := bind_eq_ok.1 hstaged
    obtain ⟨wr, hwr, hstaged⟩ := bind_eq_ok.1 hstaged
    cases hstaged
    refine ⟨.refl v, rfl, rfl, fun _ => rfl, ?_⟩
    intro p' r' hpr
    cases hpr
    exact ⟨rfl, ⟨wp, rfl, unwrap_wrap hwp⟩, wr, rfl, unwrap_wrap hwr⟩
  | keychain suffix =>
    rw [stageHeader, rotatedKeychainHeader, ensures_bind, ensures_check]
    refine ⟨fun _ hmode => ?_, fun _ _ => .refl v⟩
    rw [requireProtection_ok] at hmode
    simp only [ensures_bind]
    refine ensures_callKeychain (ensures_callKeychain ?_ (.refl v)) (.refl v)
    rw [ensures_modify, ensures_pure]
    refine ⟨.refl v, rfl, rfl, fun hpass => ?_, fun _ _ hpr => absurd hpr (by simp [RotationTarget.newSecrets])⟩
    have hpass : h.protection = .passphrase := hpass
    rw [hmode] at hpass
    cases hpass

/-- After a rotation the new secrets open the profile with the new key; one that fails leaves everything as it was. -/
theorem rotateTo_opens (deny : Deny) {key newKey : Key} (target : RotationTarget) (run : RotationRun)
    (hv : Kept c dek secrets enrolled v) :
    Ensures (rotateTo c deny key newKey target run) v
      (fun _ => Kept c newKey target.newSecrets true) (Kept c dek secrets enrolled) := by
  unfold rotateTo
  rw [ensures_bind]
  apply ensures_read hv.1
  rw [ensures_bind, ensures_check]
  refine ⟨fun _ _ => ?_, fun _ _ => hv⟩
  rw [ensures_bind]
  refine (stageHeader_staged deny v.onDisk newKey target).imp ?_ fun _ => hv.sameHeader
  rintro staged v' ⟨hsame, hstaged⟩
  split
  · rw [ensures_bind]
    unfold discardStaged
    split
    · exact hv.sameHeader hsame
    · rw [ensures_bind]
      apply ensures_attempt
      exact (deleteRetiredEntry_storeOnly deny _ _ v').imp (fun _ _ h => hv.sameHeader (hsame.trans h))
        fun _ h _ => hv.sameHeader (hsame.trans h)
  · rename_i next hnext
    unfold prepareRotation at hnext
    obtain ⟨_, -, hnext⟩ := bind_eq_ok.1 hnext
    have hsound := hstaged.bound hnext
    rw [ensures_bind, commitRotation, ensures_modify]
    have hkept : Kept c newKey target.newSecrets true
        { v' with state := some next, file := if run.scrubbed then next else v'.file } := by
      refine ⟨⟨?_, fun h => absurd h (by simp)⟩, hsound⟩
      intro h hh
      cases hh
      exact hsound.policy
    split
    · rw [ensures_bind]
      apply ensures_attempt
      exact (retireRotatedKeychain_keeps deny next hkept fun _ => rfl).imp (fun _ _ h => h) fun _ h _ => h
    · exact hkept

theorem publishRoot_keeps (root : String) (hv : Kept c dek secrets enrolled v) :
    Ensures (publishRoot c dek root) v (fun _ => Kept c dek secrets enrolled) (Kept c dek secrets enrolled) := by
  unfold publishRoot
  rw [ensures_bind, ensures_get]
  cases hstate : v.state with
  | none => exact hv
  | some h =>
    have hsound := hv.2
    rw [Vault.onDisk, hstate, Option.getD_some] at hsound
    simp only [ensures_bind, ensures_check, ensures_set]
    refine ⟨fun next hnext => ?_, fun _ _ => hv⟩
    obtain ⟨⟨hkey, hmode, hpass, hrecovery⟩, hpolicy, hold, hmac⟩ := bindManifestRoot_ok hnext
    refine ⟨⟨?_, fun hnone => absurd hnone (by simp)⟩,
      hsound.update hkey (hpolicy.trans hold.symm) hmode hpass hrecovery hmac⟩
    intro h' hh'
    cases hh'
    exact hpolicy

/-- A profile enrolled at its creation. -/
theorem initializePolicy_kept {seed : CreationSeed} {v' : Vault} {header : ProfileHeader}
    (hs : Staged c seed.dek secrets header) (h : initializePolicy c seed v header = .ok v') :
    Kept c seed.dek secrets true v' := by
  unfold initializePolicy at h
  obtain ⟨next, hnext, h⟩ := bind_eq_ok.1 h
  cases h
  have hsound := hs.bound hnext
  refine ⟨⟨?_, fun hnone => absurd hnone (by simp)⟩, hsound⟩
  intro h' hh'
  cases hh'
  exact hsound.policy

end Actions

/-! ## Runs -/

/-- A profile with what callers may hold of it: every data key it has had, with whether that key's headers were enrolled,
and the passphrase and recovery key last set. -/
structure World where
  vault : Vault
  dek : Key
  keys : List (Key × Bool)
  secrets : Option (Text × Text)

/-- A header of the profile, read at any time: it names a key the profile has had and is enrolled as that key's are. -/
def World.Holds (c : Crypto) (w : World) (h : ProfileHeader) : Prop :=
  ∃ k ∈ w.keys, h.keyCheck = c.keyCheck k.1 ∧ h.rotation.isSome = k.2

inductive VaultOp
  | upgradeHeader (h : ProfileHeader) (dek : Key)
  | changePassphrase (h : ProfileHeader) (dek : Key) (passphrase : Text) (kdf : KdfParams) (seed : WrapSeed)
  | convertKeychainToPassphrase (h : ProfileHeader) (dek : Key) (passphrase : Text) (kdf : KdfParams)
      (seed : ConversionSeed)
  | retireKeychainEntry (h : ProfileHeader)
  | retireRotatedKeychain (h : ProfileHeader) (dek : Key)
  | rotateTo (dek newKey : Key) (target : RotationTarget) (run : RotationRun)
  | publishRoot (root : String)

/-- The world after an action: `f` on its value where it succeeds, and what it left of the vault where it fails. -/
def World.after {α : Type} (w : World) (m : Action α) (f : α → World → World) : World :=
  match m w.vault with
  | .ok a v => f a { w with vault := v }
  | .error _ v => { w with vault := v }

/-- An operation, run with a credential store that may refuse calls. -/
def VaultOp.run (c : Crypto) (deny : Deny) (w : World) : VaultOp → World
  | upgradeHeader h dek => w.after (Storage.upgradeHeader c deny h dek) fun _ w => w
  | changePassphrase h dek p kdf seed =>
    w.after (Storage.changePassphrase c h dek p kdf seed) fun _ w => { w with secrets := w.secrets.map fun s => (p, s.2) }
  | convertKeychainToPassphrase h dek p kdf seed =>
    w.after (Storage.convertKeychainToPassphrase c deny h dek p kdf seed) fun r w => { w with secrets := some (p, r) }
  | retireKeychainEntry h => w.after (Storage.retireKeychainEntry c deny h) fun _ w => w
  | retireRotatedKeychain h dek => w.after (Storage.retireRotatedKeychain c deny h dek) fun _ w => w
  | rotateTo dek newKey target run =>
    w.after (Storage.rotateTo c deny dek newKey target run) fun _ w =>
      { w with dek := newKey, keys := (newKey, true) :: w.keys, secrets := target.newSecrets }
  | publishRoot root => w.after (Storage.publishRoot c w.dek root) fun _ w => w

/-- What callers and the random source give an operation: headers of the profile, keys it has had, and a new key whose
check no earlier key has. -/
def VaultOp.Fits (c : Crypto) (w : World) : VaultOp → Prop
  | upgradeHeader h dek => w.Holds c h ∧ dek ∈ w.keys.map Prod.fst
  | changePassphrase h dek _ _ _ => w.Holds c h ∧ dek ∈ w.keys.map Prod.fst
  | convertKeychainToPassphrase h dek _ _ _ => w.Holds c h ∧ dek ∈ w.keys.map Prod.fst
  | retireKeychainEntry h => w.Holds c h
  | retireRotatedKeychain h dek => w.Holds c h ∧ dek ∈ w.keys.map Prod.fst
  | rotateTo dek newKey _ _ => dek ∈ w.keys.map Prod.fst ∧ ∀ k ∈ w.keys, c.keyCheck k.1 ≠ c.keyCheck newKey
  | publishRoot _ => True

/-- A conversion that finds a keychain header on disk finds it without a rotation policy. -/
def VaultOp.ConvertsLegacy (w : World) : VaultOp → Prop
  | convertKeychainToPassphrase _ _ _ _ _ => w.vault.onDisk.protection = .osKeychain → w.vault.onDisk.rotation = none
  | _ => True

/-- A profile as one of the four creations leaves it. -/
inductive Starts (c : Crypto) : World → Prop
  | passphrase (seed : CreationSeed) (p : Text) (kdf : KdfParams) (created : Created) :
      createPassphraseProfile c seed p kdf = .ok created →
      Starts c ⟨created.vault, created.dek, [(created.dek, false)], created.recoveryKey.map (p, ·)⟩
  | enrolledPassphrase (seed : CreationSeed) (p : Text) (kdf : KdfParams) (created : Created) :
      createEnrolledPassphraseProfile c seed p kdf = .ok created →
      Starts c ⟨created.vault, created.dek, [(created.dek, true)], created.recoveryKey.map (p, ·)⟩
  | keychain (seed : CreationSeed) :
      Starts c ⟨(createKeychainProfile c seed).vault, seed.dek, [(seed.dek, false)], none⟩
  | enrolledKeychain (seed : CreationSeed) (created : Created) : createEnrolledKeychainProfile c seed = .ok created →
      Starts c ⟨created.vault, created.dek, [(created.dek, true)], none⟩

/-- One operation. `Allowed` is what its callers keep to besides. -/
inductive VaultStep (c : Crypto) (Allowed : World → VaultOp → Prop) (w : World) : World → Prop
  | op (op : VaultOp) (deny : Deny) : op.Fits c w → Allowed w op → VaultStep c Allowed w (op.run c deny w)

/-- The header on disk is read, and the secrets last set open it with the current data key. -/
def World.SecretsOpen (c : Crypto) (w : World) : Prop :=
  ∀ p r, w.secrets = some (p, r) → ∃ h, readHeaderUnlocked w.vault = .ok h w.vault ∧ Opens c h w.dek p r

/-- The invariant of a run. -/
structure World.Inv (c : Crypto) (w : World) : Prop where
  kept : ∃ enrolled, (w.dek, enrolled) ∈ w.keys ∧ Kept c w.dek w.secrets enrolled w.vault
  keys : ∀ k ∈ w.keys, ∀ k' ∈ w.keys, c.keyCheck k.1 = c.keyCheck k'.1 → k = k'

namespace World

theorem Inv.secretsOpen {w : World} (hw : w.Inv c) : w.SecretsOpen c := by
  intro p r hpr
  obtain ⟨enrolled, -, hkept⟩ := hw.kept
  refine ⟨w.vault.onDisk, ?_, hkept.2.opens p r hpr⟩
  have hread : Ensures readHeaderUnlocked w.vault
      (fun h v => readHeaderUnlocked w.vault = .ok h v → h = w.vault.onDisk ∧ v = w.vault) fun _ => False :=
    ensures_read hkept.1 fun _ => ⟨rfl, rfl⟩
  unfold Ensures at hread
  cases hresult : readHeaderUnlocked w.vault with
  | ok h v =>
    rw [hresult] at hread
    obtain ⟨rfl, rfl⟩ := hread rfl
    rfl
  | error e v =>
    rw [hresult] at hread
    exact hread.elim

/-- A key that callers hold and that has the check of the current one is the current one. -/
theorem Inv.key_eq {w : World} (hw : w.Inv c) {dek : Key} (hdek : dek ∈ w.keys.map Prod.fst)
    (hcheck : c.keyCheck dek = c.keyCheck w.dek) : dek = w.dek := by
  obtain ⟨enrolled, hmem, -⟩ := hw.kept
  obtain ⟨k, hk, rfl⟩ := List.mem_map.1 hdek
  rw [hw.keys k hk _ hmem hcheck]

theorem Inv.policy_eq {w : World} (hw : w.Inv c) {enrolled : Bool} (hmem : (w.dek, enrolled) ∈ w.keys) {h : ProfileHeader}
    (hh : w.Holds c h) (hcheck : h.keyCheck = c.keyCheck w.dek) : h.rotation.isSome = enrolled := by
  obtain ⟨k, hk, hkey, hpolicy⟩ := hh
  have hsame := hw.keys k hk _ hmem (hkey.symm.trans hcheck)
  rw [hpolicy, hsame]

/-- An action keeps the invariant when it keeps the vault, possibly under new secrets. -/
theorem after_inv {α : Type} {w : World} (hw : w.Inv c) {enrolled : Bool} (hmem : (w.dek, enrolled) ∈ w.keys)
    {m : Action α} {secrets : α → Option (Text × Text)} {f : α → World → World}
    (h : Ensures m w.vault (fun a => Kept c w.dek (secrets a) enrolled) (Kept c w.dek w.secrets enrolled))
    (hf : ∀ a v, f a { w with vault := v } = { w with vault := v, secrets := secrets a }) :
    (w.after m f).Inv c := by
  unfold Ensures at h
  unfold after
  cases hm : m w.vault with
  | ok a v =>
    rw [hm] at h
    simp only [hf]
    exact ⟨⟨enrolled, hmem, h⟩, hw.keys⟩
  | error e v =>
    rw [hm] at h
    exact ⟨⟨enrolled, hmem, h⟩, hw.keys⟩

end World

theorem VaultStep.inv {w w' : World} (h : VaultStep c (fun w op => op.ConvertsLegacy w) w w') (hw : w.Inv c) : w'.Inv c := by
  obtain ⟨op, deny, hfits, hlegacy⟩ := h
  obtain ⟨enrolled, hmem, hkept⟩ := hw.kept
  cases op with
  | upgradeHeader h dek =>
    rw [VaultOp.run]
    have hkeeps := (upgradeHeader_keeps deny h hkept (hw.key_eq hfits.2)).imp (fun _ _ h => h.1) fun _ h => h
    exact World.after_inv hw hmem hkeeps fun _ _ => rfl
  | changePassphrase h dek p kdf seed =>
    rw [VaultOp.run]
    have hopens := changePassphrase_opens h p kdf seed hkept (hw.key_eq hfits.2) (hw.policy_eq hmem hfits.1)
    exact World.after_inv hw hmem hopens fun _ _ => rfl
  | convertKeychainToPassphrase h dek p kdf seed =>
    rw [VaultOp.run]
    have hopens := convertKeychainToPassphrase_opens deny h p kdf seed hkept (hw.key_eq hfits.2) hlegacy
    exact World.after_inv hw hmem hopens fun _ _ => rfl
  | retireKeychainEntry h =>
    rw [VaultOp.run]
    exact World.after_inv hw hmem (retireKeychainEntry_keeps deny h hkept (hw.policy_eq hmem hfits)) fun _ _ => rfl
  | retireRotatedKeychain h dek =>
    rw [VaultOp.run]
    exact World.after_inv hw hmem (retireRotatedKeychain_keeps deny h hkept (hw.key_eq hfits.2)) fun _ _ => rfl
  | rotateTo dek newKey target run =>
    have hrotate : Ensures (Storage.rotateTo c deny dek newKey target run) w.vault _ _ :=
      rotateTo_opens deny target run hkept
    unfold Ensures at hrotate
    rw [VaultOp.run, World.after]
    cases hresult : Storage.rotateTo c deny dek newKey target run w.vault with
    | ok a v =>
      rw [hresult] at hrotate
      refine ⟨⟨true, List.mem_cons_self, hrotate⟩, ?_⟩
      -- the new key has a check of its own
      intro k hk k' hk' hcheck
      obtain rfl | hk := List.mem_cons.1 hk
      · obtain rfl | hk' := List.mem_cons.1 hk'
        · rfl
        · exact absurd hcheck.symm (hfits.2 k' hk')
      · obtain rfl | hk' := List.mem_cons.1 hk'
        · exact absurd hcheck (hfits.2 k hk)
        · exact hw.keys k hk k' hk' hcheck
    | error e v =>
      rw [hresult] at hrotate
      exact ⟨⟨enrolled, hmem, hrotate⟩, hw.keys⟩
  | publishRoot root =>
    rw [VaultOp.run]
    exact World.after_inv hw hmem (publishRoot_keeps root hkept) fun _ _ => rfl

theorem Starts.inv {w : World} (h : Starts c w) : w.Inv c := by
  have hkeys : ∀ {k : Key × Bool}, ∀ k₁ ∈ [k], ∀ k₂ ∈ [k], c.keyCheck k₁.1 = c.keyCheck k₂.1 → k₁ = k₂ := by
    intro k k₁ h₁ k₂ h₂ _
    rw [List.mem_singleton.1 h₁, List.mem_singleton.1 h₂]
  cases h with
  | passphrase seed p kdf created hcreated =>
    refine ⟨⟨false, List.mem_singleton_self _, ?_⟩, hkeys⟩
    unfold createPassphraseProfile at hcreated
    obtain ⟨wp, hwp, hcreated⟩ := bind_eq_ok.1 hcreated
    obtain ⟨wr, hwr, hcreated⟩ := bind_eq_ok.1 hcreated
    cases hcreated
    refine ⟨⟨fun h hh => absurd hh (by simp), fun _ => rfl⟩, rfl, rfl, checkProtectionMac_sealed _ _, fun _ => rfl, ?_⟩
    intro p' r hpr
    cases hpr
    exact opens_iff.2 ⟨rfl, rfl, checkProtectionMac_sealed _ _, ⟨wp, rfl, unwrap_wrap hwp⟩, wr, rfl, unwrap_wrap hwr⟩
  | enrolledPassphrase seed p kdf created hcreated =>
    refine ⟨⟨true, List.mem_singleton_self _, ?_⟩, hkeys⟩
    unfold createEnrolledPassphraseProfile at hcreated
    obtain ⟨legacy, hlegacy, hcreated⟩ := bind_eq_ok.1 hcreated
    obtain ⟨wp, hwp, hcreated⟩ := bind_eq_ok.1 hcreated
    obtain ⟨wr, hwr, hcreated⟩ := bind_eq_ok.1 hcreated
    obtain ⟨v, hv, hcreated⟩ := bind_eq_ok.1 hcreated
    unfold createPassphraseProfile at hlegacy
    obtain ⟨_, -, hlegacy⟩ := bind_eq_ok.1 hlegacy
    obtain ⟨_, -, hlegacy⟩ := bind_eq_ok.1 hlegacy
    cases hlegacy
    cases hcreated
    refine initializePolicy_kept ⟨rfl, rfl, fun _ => rfl, ?_⟩ hv
    intro p' r hpr
    cases hpr
    exact ⟨rfl, ⟨wp, rfl, unwrap_wrap hwp⟩, wr, rfl, unwrap_wrap hwr⟩
  | keychain seed =>
    refine ⟨⟨false, List.mem_singleton_self _, ?_⟩, hkeys⟩
    exact ⟨⟨fun h hh => absurd hh (by simp [createKeychainProfile]), fun _ => rfl⟩, rfl, rfl, checkProtectionMac_sealed _ _,
      fun hmode => absurd hmode (by simp [createKeychainProfile, Vault.onDisk]), fun p r hpr => absurd hpr (by simp)⟩
  | enrolledKeychain seed created hcreated =>
    refine ⟨⟨true, List.mem_singleton_self _, ?_⟩, hkeys⟩
    unfold createEnrolledKeychainProfile at hcreated
    obtain ⟨v, hv, hcreated⟩ := bind_eq_ok.1 hcreated
    cases hcreated
    exact initializePolicy_kept ⟨rfl, rfl, fun hmode => absurd hmode (by simp [createKeychainProfile]),
      fun p r hpr => absurd hpr (by simp)⟩ hv

/-- **After any run from a creation whose conversions meet no keychain header with a rotation policy, the passphrase and the
recovery key last set open the header on disk with the current data key.** -/
theorem secrets_open (c : Crypto) {w₀ w : World} (hstart : Starts c w₀)
    (hrun : Reaches (VaultStep c fun w op => op.ConvertsLegacy w) w₀ w) : w.SecretsOpen c := by
  have hinv := hrun.inv (World.Inv c) (fun _ _ h => h.inv) hstart.inv
  exact hinv.secretsOpen

end

/-- A conversion of an enrolled keychain profile sets a passphrase that does not open it. -/
theorem not_secretsOpen_of_convert {c : Crypto} {w : World} (hw : w.Inv c) (hpolicy : w.vault.onDisk.rotation.isSome)
    (hsecrets : w.secrets = none) {deny : Deny} {h : ProfileHeader} {p : Text} {kdf : KdfParams} {seed : ConversionSeed}
    (hsuccess : ((VaultOp.convertKeychainToPassphrase h w.dek p kdf seed).run c deny w).secrets.isSome) :
    ¬ ((VaultOp.convertKeychainToPassphrase h w.dek p kdf seed).run c deny w).SecretsOpen c := by
  obtain ⟨enrolled, hmem, hkept⟩ := hw.kept
  have henrolled : enrolled = true := by rw [← hkept.2.policy, hpolicy]
  subst henrolled
  have hlocked := convert_enrolled_locks_out deny h p kdf seed hkept fun _ => rfl
  rw [VaultOp.run, World.after] at hsuccess ⊢
  unfold Ensures at hlocked
  cases hresult : convertKeychainToPassphrase c deny h w.dek p kdf seed w.vault with
  | error e v =>
    rw [hresult] at hsuccess
    simp only [hsecrets] at hsuccess
    cases hsuccess
  | ok r v =>
    rw [hresult] at hlocked
    intro hopen
    obtain ⟨h', hread, hopens⟩ := hopen p r rfl
    have hdisk : h' = v.onDisk := readHeaderUnlocked_ok hread
    rw [hdisk] at hopens
    exact (hlocked p w.dek).1 hopens.1

section Sample

/-- A key that starts with the characters of a text. -/
def sampleKey (t : Text) : Key where
  bytes := (t.map (fun a : Char => UInt8.ofNat a.toNat) ++ List.replicate keyLen 0).take keyLen
  length_eq := by simp [keyLen]

def Label.code : Label → UInt8
  | .passphrase => 0
  | .rotatedPassphrase => 1
  | .recovery => 2
  | .rotatedRecovery => 3

/-- An envelope that shows its key, its label and its contents. -/
def sampleCrypto : Crypto where
  derive p _ _ := .ok (sampleKey p)
  sealWith k l _ m := k.bytes ++ l.code :: m
  openWith k l e := if e.take keyLen = k.bytes ∧ e.drop keyLen = l.code :: e.drop (keyLen + 1) then some (e.drop (keyLen + 1))
    else none
  open_seal k l _ m := by
    have hdrop : (k.bytes ++ l.code :: m).drop keyLen = l.code :: m := List.drop_left' k.length_eq
    have hrest : (k.bytes ++ l.code :: m).drop (keyLen + 1) = m := by
      rw [← List.drop_drop, hdrop, List.drop_one, List.tail_cons]
    rw [if_pos ⟨List.take_left' k.length_eq, by rw [hdrop, hrest]⟩, hrest]
  open_other k l k' l' _ m hne := by
    rw [if_neg]
    rintro ⟨hkey, hlabel⟩
    rw [List.take_left' k.length_eq] at hkey
    rw [List.drop_left' k.length_eq] at hlabel
    have hk : k = k' := by
      cases k
      cases k'
      cases hkey
      rfl
    have hl : l = l' := by
      have hcode := (List.cons.inj hlabel).1
      cases l <;> cases l' <;> first | rfl | cases hcode
    exact hne (by rw [hk, hl])
  keyCheck k := String.ofList (k.bytes.map fun b => Char.ofNat b.toNat)
  mac k _ := String.ofList (k.bytes.map fun b => Char.ofNat b.toNat)
  digest b := b.getD ""

def sampleKdf : KdfParams := { mCost := 1024, tCost := 1, pCost := 1 }

def sampleWrap : WrapSeed := { salt := List.replicate 16 0, nonce := [] }

def sampleConversion : ConversionSeed where
  recovery := List.replicate 20 0
  passphraseWrap := sampleWrap
  recoveryWrap := sampleWrap

def sampleCreation : CreationSeed where
  profileId := "a"
  displayName := "a"
  createdAt := 0
  dek := sampleKey ['k']
  recovery := List.replicate 20 0
  wraps := { passphraseWrap := sampleWrap, recoveryWrap := sampleWrap }
  enrolledWraps := { passphraseWrap := sampleWrap, recoveryWrap := sampleWrap }
  root := "r"

/-- A keychain profile that is not enrolled. -/
def sampleLegacy : World :=
  ⟨(createKeychainProfile sampleCrypto sampleCreation).vault, sampleKey ['k'], [(sampleKey ['k'], false)], none⟩

/-- A keychain profile enrolled at its creation. -/
def sampleEnrolled : Option World :=
  (createEnrolledKeychainProfile sampleCrypto sampleCreation).toOption.map fun created =>
    ⟨created.vault, created.dek, [(created.dek, true)], none⟩

/-- The conversion of a profile to the passphrase `p`, by a caller that has just read its header. -/
def sampleConvert (w : World) : VaultOp :=
  .convertKeychainToPassphrase w.vault.onDisk w.dek ['p'] sampleKdf sampleConversion

theorem sampleConvert_fits {w : World} (hw : w.Inv sampleCrypto) : (sampleConvert w).Fits sampleCrypto w := by
  obtain ⟨enrolled, hmem, hkept⟩ := hw.kept
  exact ⟨⟨_, hmem, hkept.2.key, hkept.2.policy⟩, List.mem_map_of_mem hmem⟩

/-- A legacy keychain profile is converted. -/
theorem secrets_open_sample : ∃ w, Starts sampleCrypto sampleLegacy ∧
    Reaches (VaultStep sampleCrypto fun w op => op.ConvertsLegacy w) sampleLegacy w ∧ w.secrets.isSome ∧
      w.SecretsOpen sampleCrypto := by
  have hstart : Starts sampleCrypto sampleLegacy := .keychain sampleCreation
  have hrun : Reaches (VaultStep sampleCrypto fun w op => op.ConvertsLegacy w) sampleLegacy
      ((sampleConvert sampleLegacy).run sampleCrypto (fun _ => none) sampleLegacy) :=
    Relation.ReflTransGen.single (.op _ _ (sampleConvert_fits hstart.inv) fun _ => rfl)
  exact ⟨_, hstart, hrun, by decide, secrets_open sampleCrypto hstart hrun⟩

/-- An enrolled keychain profile is converted: the conversion succeeds, and its passphrase does not open the profile. -/
theorem enrolled_conversion_locks_out : ∃ w₀ w, Starts sampleCrypto w₀ ∧
    Reaches (VaultStep sampleCrypto fun _ _ => True) w₀ w ∧ ¬ w.SecretsOpen sampleCrypto := by
  have hsuccess : sampleEnrolled.any (fun w =>
      ((sampleConvert w).run sampleCrypto (fun _ => none) w).secrets.isSome && w.vault.onDisk.rotation.isSome) = true := by
    decide
  obtain ⟨w, hw, hsuccess⟩ := (Option.any_eq_true _ _).1 hsuccess
  obtain ⟨hsuccess, hpolicy⟩ := Bool.and_eq_true_iff.1 hsuccess
  obtain ⟨created, hcreated, rfl⟩ := Option.map_eq_some_iff.1 hw
  have hstart : Starts sampleCrypto ⟨created.vault, created.dek, [(created.dek, true)], none⟩ := by
    refine .enrolledKeychain sampleCreation created ?_
    cases hresult : createEnrolledKeychainProfile sampleCrypto sampleCreation with
    | ok other =>
      rw [hresult] at hcreated
      cases hcreated
      rfl
    | error e =>
      rw [hresult] at hcreated
      cases hcreated
  have hinv := hstart.inv
  refine ⟨_, _, hstart, Relation.ReflTransGen.single (.op _ (fun _ => none) (sampleConvert_fits hinv) trivial), ?_⟩
  exact not_secretsOpen_of_convert hinv hpolicy rfl hsuccess

end Sample

end Anvil.Storage
