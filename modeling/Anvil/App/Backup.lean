import Anvil.Lib.Aead
import Anvil.Lib.Base64
import Anvil.Lib.Utf8Match
import Anvil.Portability.Export

/-!
# The full-backup container (`anvil-app/src/backup.rs`)

* `frame`, `openHeader`, `importReadLimit` : the signature, the length and the header;
* `sealBackup`, `openBackup` : writing and reading a container;
* `frame_take` : the first `headerPrefixBytes` bytes frame the header as all of them do;
* `opened_is_file` : what opens is the file of one call of the writer;
* `container_faithful` : the writer, the check of the first bytes and the reader agree.
-/

namespace Anvil.App
open Anvil.Lib Anvil.Lib.JsonSyntax Anvil.Storage Anvil.Portability

/-! ## The format -/

/-- `ANVILBAK`. -/
def magic : List UInt8 := [0x41, 0x4E, 0x56, 0x49, 0x4C, 0x42, 0x41, 0x4B]

def backupFormat : Text := "anvil-backup".toList
def backupVersion : Nat := 1
def backupCipher : Text := "xchacha20poly1305".toList
def maxHeaderBytes : Nat := 4096
def maxBackupBytes : Nat := 2 * 1024 * 1024 * 1024
def maxBundleFileBytes : Nat := 256 * 1024 * 1024 + 64 * 1024 * 1024
def minPassphraseLen : Nat := 8
def backupSaltLen : Nat := 16
def nonceLen : Nat := 24
def schemaVersion : Nat := 1
def minSchemaVersion : Nat := 1
def dbSchemaVersion : Int := 6
def headerPrefixBytes : Nat := magic.length + 4 + maxHeaderBytes

inductive BackupError
  | notABackup (why : String)
  | futureFormat (found supported : Nat)
  | futureSchema (what : String) (found supported : Int)
  | unsupportedKdf (why : String)
  | tooLarge
  | weakPassphrase
  | passphraseRequired
  | authentication
  | duplicateUnsupported
  | invalid (why : String)
deriving DecidableEq, Repr

inductive BundleKind
  | workspace
  | backup
deriving DecidableEq, Repr

/-- The fields from `createdAt` on are only carried. -/
structure BackupManifest where
  format : Text
  formatVersion : Nat
  kind : BundleKind
  mode : ExportMode
  schemaVersion : Nat
  dbSchemaVersion : Int
  createdAt : Int
  appVersion : Text
  counts : List (Text × Nat)
  excluded : List Text
  deviceBindings : List Text
  includesHistory : Bool
deriving DecidableEq, Repr

structure Header where
  format : Text
  formatVersion : Nat
  cipher : Text
  kdf : KdfParams
  saltB64 : Text
deriving DecidableEq, Repr

def Header.json (h : Header) : Json :=
  .object [textField "format" h.format, numberField "format_version" h.formatVersion, textField "cipher" h.cipher,
    ("kdf".toList, kdfJson h.kdf), textField "salt_b64" h.saltB64]

/-- `serde_json::to_vec` of a header. -/
def Header.bytes (h : Header) : List UInt8 := textBytes false h.json

/-- The numbers are `u32`. -/
structure Header.Machine (h : Header) : Prop where
  formatVersion : h.formatVersion < 2 ^ 32
  mCost : h.kdf.mCost < 2 ^ 32
  tCost : h.kdf.tCost < 2 ^ 32
  pCost : h.kdf.pCost < 2 ^ 32

/-- The base64 crate's standard engine, key derivation, the cipher, and how `serde_json` reads a header and writes and reads a
payload; the contents are opaque here. -/
structure Primitives (α : Type) where
  base64 : Base64.Engine
  derive : Text → List UInt8 → KdfParams → Except String Key
  aead : Aead Key
  readHeader : List UInt8 → Except String Header
  writePayload : BackupManifest → α → Except String (List UInt8)
  readPayload : List UInt8 → Except String (BackupManifest × α)

/-! ## The header -/

def isBackup (bytes : List UInt8) : Bool := magic.isPrefixOf bytes

def truncated : BackupError := .notABackup "the file is truncated"

/-- The bytes of the header and where it ends. -/
def frame (bytes : List UInt8) : Except BackupError (List UInt8 × Nat) :=
  match dropPrefix magic bytes with
  | none => .error (.notABackup "the full-backup signature is missing")
  | some rest =>
    if rest.length < 4 then .error truncated
    else
      let len := ofBeBytes (rest.take 4)
      if len > maxHeaderBytes then
        .error (.notABackup ("the header is " ++ toString len ++ " bytes (at most " ++ toString maxHeaderBytes ++ ")"))
      else
        let headerEnd := magic.length + 4 + len
        if bytes.length < headerEnd then .error truncated
        else .ok ((bytes.take headerEnd).drop (magic.length + 4), headerEnd)

def checkKdf (p : KdfParams) : Except BackupError Unit := p.checkBounds.mapError .unsupportedKdf

/-- What `open_header` checks of a header that it has read; the salt. -/
def checkHeader (e : Base64.Engine) (h : Header) : Except BackupError (List UInt8) := do
  refuseIf (h.format ≠ backupFormat) (.notABackup ("unknown format '" ++ String.ofList h.format ++ "'"))
  refuseIf (backupVersion < h.formatVersion) (.futureFormat h.formatVersion backupVersion)
  refuseIf (h.formatVersion ≠ backupVersion) (.notABackup ("unknown format version " ++ toString h.formatVersion))
  refuseIf (h.cipher ≠ backupCipher) (.notABackup ("unsupported cipher '" ++ String.ofList h.cipher ++ "'"))
  checkKdf h.kdf
  let salt ← (e.decode (encodeUtf8 h.saltB64)).mapError fun _ => .notABackup "the salt is not base64"
  (checkSalt salt).mapError .unsupportedKdf
  return salt

structure OpenedHeader where
  header : Header
  salt : List UInt8
  headerEnd : Nat
deriving DecidableEq, Repr

section Containers
variable {α : Type} (x : Primitives α)

def openHeader (bytes : List UInt8) : Except BackupError OpenedHeader := do
  let (headerBytes, headerEnd) ← frame bytes
  let header ← (x.readHeader headerBytes).mapError fun e => .notABackup ("header: " ++ e)
  let salt ← checkHeader x.base64 header
  return ⟨header, salt, headerEnd⟩

/-- What `open` checks before it derives a key: the header, then that a passphrase was given. -/
def openChecks (bytes : List UInt8) (passphrase : Option Text) : Except BackupError (OpenedHeader × Text) := do
  let h ← openHeader x bytes
  let p ← passphrase.elim (.error .passphraseRequired) .ok
  return (h, p)

def importReadLimit (start : List UInt8) (size : Nat) (passphrase : Option Text) : Except BackupError Nat :=
  if ¬ isBackup start then .ok maxBundleFileBytes
  else if size > maxBackupBytes then .error .tooLarge
  else do
    let _ ← openHeader x start
    let _ ← passphrase.elim (.error .passphraseRequired) .ok
    return maxBackupBytes

/-! ## Writing and reading -/

/-- One call of `seal`, with the salt and the nonce it draws. -/
structure SealRun (α : Type) where
  manifest : BackupManifest
  contents : α
  passphrase : Text
  kdf : KdfParams
  salt : List UInt8
  nonce : List UInt8
  saltLength : salt.length = backupSaltLen
  nonceLength : nonce.length = nonceLen

def SealRun.header (e : Base64.Engine) (r : SealRun α) : Header where
  format := backupFormat
  formatVersion := backupVersion
  cipher := backupCipher
  kdf := r.kdf
  saltB64 := (e.encode r.salt).map fun b => Char.ofNat b.toNat

/-- The signature, the length and the header: the associated data. -/
def SealRun.start (e : Base64.Engine) (r : SealRun α) : List UInt8 :=
  magic ++ beBytes 4 (r.header e).bytes.length ++ (r.header e).bytes

/-- What `seal` hands to the cipher. -/
def sealing (r : SealRun α) : Except BackupError (Sealing Key) := do
  refuseIf ((encodeUtf8 r.passphrase).length < minPassphraseLen) .weakPassphrase
  checkKdf r.kdf
  let payload ← (x.writePayload r.manifest r.contents).mapError .invalid
  refuseIf (payload.length > maxBackupBytes) .tooLarge
  refuseIf (2 ^ 32 ≤ (r.header x.base64).bytes.length) (.invalid "header too large")
  let key ← (x.derive r.passphrase r.salt r.kdf).mapError .unsupportedKdf
  return ⟨key, r.start x.base64, r.nonce, payload⟩

def sealBackup (r : SealRun α) : Except BackupError (List UInt8) := do
  let s ← sealing x r
  refuseIf ((x.aead.file s).length > maxBackupBytes) .tooLarge
  return x.aead.file s

/-- `open` up to where it parses the payload. -/
def openPlaintext (bytes : List UInt8) (passphrase : Option Text) : Except BackupError (OpenedHeader × List UInt8) := do
  refuseIf (bytes.length > maxBackupBytes) .tooLarge
  let (h, p) ← openChecks x bytes passphrase
  let key ← (x.derive p h.salt h.header.kdf).mapError .unsupportedKdf
  let plaintext ← (x.aead.openWith key (bytes.take h.headerEnd) (bytes.drop h.headerEnd)).elim (.error .authentication) .ok
  return (h, plaintext)

def checkManifest (h : Header) (m : BackupManifest) : Except BackupError Unit := do
  refuseIf (m.format ≠ backupFormat ∨ m.formatVersion ≠ h.formatVersion ∨ m.kind ≠ .backup ∨ m.mode ≠ .fullBackup)
    (.invalid "the manifest does not describe this full backup")
  refuseIf (schemaVersion < m.schemaVersion) (.futureSchema "object schema" m.schemaVersion schemaVersion)
  refuseIf (m.schemaVersion < minSchemaVersion)
    (.invalid ("schema " ++ toString m.schemaVersion ++ " is older than this version can read"))
  refuseIf (dbSchemaVersion < m.dbSchemaVersion) (.futureSchema "database schema" m.dbSchemaVersion dbSchemaVersion)

def openBackup (bytes : List UInt8) (passphrase : Option Text) : Except BackupError (BackupManifest × α) := do
  let (h, plaintext) ← openPlaintext x bytes passphrase
  let payload ← (x.readPayload plaintext).mapError fun e => .invalid ("contents: " ++ e)
  checkManifest h.header payload.1
  return payload

end Containers

/-! ## Framing -/

theorem dropPrefix_take {start bytes : List UInt8} {n : Nat} (hn : start.length ≤ n) :
    dropPrefix start (bytes.take n) = (dropPrefix start bytes).map (List.take (n - start.length)) := by
  cases hdrop : dropPrefix start bytes with
  | none =>
    rw [Option.map_none, dropPrefix_eq_none]
    exact fun h => dropPrefix_eq_none.1 hdrop (h.trans (List.take_prefix n bytes))
  | some rest =>
    rw [dropPrefix_eq_some] at hdrop
    rw [Option.map_some, dropPrefix_eq_some, hdrop, List.take_append, List.take_of_length_le hn]

/-- The first bytes frame the header as all of them do. -/
theorem frame_take (bytes : List UInt8) : frame (bytes.take headerPrefixBytes) = frame bytes := by
  unfold frame
  rw [dropPrefix_take (show magic.length ≤ headerPrefixBytes by decide)]
  cases hdrop : dropPrefix magic bytes with
  | none => rfl
  | some rest =>
    have hlength : bytes.length = magic.length + rest.length := by
      rw [dropPrefix_eq_some.1 hdrop, List.length_append]
    have hrest : headerPrefixBytes - magic.length = 4 + maxHeaderBytes := by decide
    have hprefix : headerPrefixBytes = magic.length + 4 + maxHeaderBytes := rfl
    have hshort : (rest.take (4 + maxHeaderBytes)).length < 4 ↔ rest.length < 4 := by
      rw [List.length_take]
      omega
    have hlen : (rest.take (4 + maxHeaderBytes)).take 4 = rest.take 4 := by
      rw [List.take_take, Nat.min_eq_left (Nat.le_add_right 4 maxHeaderBytes)]
    simp only [Option.map_some, hrest, hlen, hshort]
    by_cases hfour : rest.length < 4
    · rw [if_pos hfour, if_pos hfour]
    · rw [if_neg hfour, if_neg hfour]
      by_cases hlong : maxHeaderBytes < ofBeBytes (rest.take 4)
      · rw [if_pos hlong, if_pos hlong]
      · have hend : magic.length + 4 + ofBeBytes (rest.take 4) ≤ headerPrefixBytes := by omega
        have hcut : (bytes.take headerPrefixBytes).length < magic.length + 4 + ofBeBytes (rest.take 4) ↔
            bytes.length < magic.length + 4 + ofBeBytes (rest.take 4) := by
          rw [List.length_take]
          omega
        rw [if_neg hlong, if_neg hlong, List.take_take, Nat.min_eq_left hend]
        simp only [hcut]

/-- A header between the signature with its length and an envelope. -/
theorem frame_file {header : List UInt8} (envelope : List UInt8) (h : header.length ≤ maxHeaderBytes) :
    frame (magic ++ beBytes 4 header.length ++ header ++ envelope) = .ok (header, magic.length + 4 + header.length) := by
  have hfits : header.length < 256 ^ 4 := lt_of_le_of_lt h (by decide)
  have hdrop : dropPrefix magic (magic ++ beBytes 4 header.length ++ header ++ envelope) =
      some (beBytes 4 header.length ++ (header ++ envelope)) := by
    rw [dropPrefix_eq_some, List.append_assoc, List.append_assoc]
  have hlen : (beBytes 4 header.length ++ (header ++ envelope)).take 4 = beBytes 4 header.length := by
    rw [List.take_append_of_le_length (by rw [length_beBytes]), List.take_of_length_le (by rw [length_beBytes])]
  have hstart : (magic ++ beBytes 4 header.length).length = magic.length + 4 := by rw [List.length_append, length_beBytes]
  have htake : (magic ++ beBytes 4 header.length ++ header ++ envelope).take (magic.length + 4 + header.length) =
      magic ++ beBytes 4 header.length ++ header := by
    rw [← hstart, ← List.length_append, List.take_left]
  unfold frame
  rw [hdrop]
  simp only [hlen, ofBeBytes_beBytes hfits]
  rw [if_neg (by rw [List.length_append, length_beBytes]; omega), if_neg (Nat.not_lt.2 h), if_neg, htake, ← hstart,
    List.drop_left]
  rw [List.length_append, List.length_append, hstart]
  omega

section Checks
variable {α : Type} (x : Primitives α)

theorem openHeader_take (bytes : List UInt8) : openHeader x (bytes.take headerPrefixBytes) = openHeader x bytes := by
  unfold openHeader
  rw [frame_take]

theorem isBackup_take (bytes : List UInt8) : isBackup (bytes.take headerPrefixBytes) = isBackup bytes := by
  have hiff : magic <+: bytes.take headerPrefixBytes ↔ magic <+: bytes := by
    rw [List.prefix_take_iff]
    exact and_iff_left (by decide)
  exact Bool.eq_iff_iff.2 (by simpa only [isBackup, List.isPrefixOf_iff_prefix] using hiff)

/-- **What the first bytes are refused for**: what `open` refuses the whole file for before it derives a key. -/
theorem importReadLimit_take {bytes : List UInt8} (hbackup : isBackup bytes = true) {size : Nat}
    (hsize : size ≤ maxBackupBytes)
    (passphrase : Option Text) : importReadLimit x (bytes.take headerPrefixBytes) size passphrase =
      (openChecks x bytes passphrase).map fun _ => maxBackupBytes := by
  unfold importReadLimit openChecks
  rw [isBackup_take, hbackup, if_neg (not_not.2 rfl), if_neg (Nat.not_lt.2 hsize), openHeader_take]
  cases openHeader x bytes with
  | error e => rfl
  | ok h =>
    cases passphrase with
    | none => rfl
    | some p => rfl

end Checks

/-! ## The header that is written -/

theorem utf8Len_le (t : Text) : utf8Len t ≤ 4 * t.length := by
  induction t with
  | nil => rfl
  | cons c t ih =>
    have hc := c.utf8Size_le_four
    rw [utf8Len_cons, List.length_cons]
    omega

theorem length_u32 {n : Nat} (h : n < 2 ^ 32) : (Nat.toDigits 10 n).length ≤ 10 :=
  (Nat.length_toDigits_le_iff (by decide) (by decide)).2 (h.trans (by decide))

theorem length_header_le {h : Header} (hm : h.Machine) (hformat : h.format = backupFormat) (hcipher : h.cipher = backupCipher)
    (hsalt : h.saltB64.length = 24) : h.bytes.length ≤ maxHeaderBytes := by
  have hversion := length_u32 hm.formatVersion
  have hmCost := length_u32 hm.mCost
  have htCost := length_u32 hm.tCost
  have hpCost := length_u32 hm.pCost
  have hquote := length_quote_le h.saltB64
  have hmax : maxHeaderBytes = 4096 := rfl
  -- what does not depend on the numbers and the salt
  have hkeys : (Json.quote "format".toList).length = 8 ∧ (Json.quote backupFormat).length = 14 ∧
      (Json.quote "format_version".toList).length = 16 ∧ (Json.quote "cipher".toList).length = 8 ∧
      (Json.quote backupCipher).length = 19 ∧ (Json.quote "kdf".toList).length = 5 ∧
        (Json.quote "algorithm".toList).length = 11 ∧
      (Json.quote "argon2id".toList).length = 10 ∧ (Json.quote "m_cost".toList).length = 8 ∧
      (Json.quote "t_cost".toList).length = 8 ∧ (Json.quote "p_cost".toList).length = 8 ∧
      (Json.quote "salt_b64".toList).length = 10 := by decide
  rw [Header.bytes, textBytes, length_encodeUtf8, text_layout_compact]
  refine (utf8Len_le _).trans ?_
  simp only [Header.json, kdfJson, textField, numberField, Json.compact, Json.compactFields, List.length_append,
    List.length_cons,
    List.isEmpty_cons, List.isEmpty_nil, if_true, if_false, Bool.false_eq_true, List.length_nil, hformat, hcipher]
  omega

theorem checkKdf_le {p : KdfParams} (h : checkKdf p = .ok ()) :
    p.mCost ≤ maxKdfMemoryKib ∧ p.tCost ≤ maxKdfIterations ∧ p.pCost ≤ maxKdfParallelism := by
  have hbounds := mapError_eq_ok.1 h
  unfold KdfParams.checkBounds at hbounds
  split_ifs at hbounds with ht hp hm hwork
  exact ⟨hm.2, ht.2, hp.2⟩

/-- What is asked of the base64 crate: padded quanta, which are ASCII. -/
structure StandardBase64 (e : Base64.Engine) : Prop where
  standard : e.Standard
  ascii : ∀ v, ∀ b ∈ e.encode v, b < 0x80

section Written
variable {α : Type} {x : Primitives α} {r : SealRun α}

theorem checkHeader_header (hbase : StandardBase64 x.base64) (hkdf : checkKdf r.kdf = .ok ()) :
    checkHeader x.base64 (r.header x.base64) = .ok r.salt := by
  have hdecode : x.base64.decode (encodeUtf8 (r.header x.base64).saltB64) = .ok r.salt := by
    rw [SealRun.header, encodeUtf8_ascii (hbase.ascii r.salt), hbase.standard.decode_encode]
  have hsalt : checkSalt r.salt = .ok () := by
    unfold checkSalt
    rw [r.saltLength]
    rfl
  have hk : checkKdf (r.header x.base64).kdf = .ok () := hkdf
  unfold checkHeader
  rw [hdecode, hk]
  simp only [Except.mapError, ok_bind]
  rw [hsalt]
  rfl

theorem machine_header (hkdf : checkKdf r.kdf = .ok ()) : (r.header x.base64).Machine := by
  obtain ⟨hm, ht, hp⟩ := checkKdf_le hkdf
  have hversion : backupVersion < 2 ^ 32 := by decide
  exact ⟨hversion, hm.trans_lt (by decide), ht.trans_lt (by decide), hp.trans_lt (by decide)⟩

theorem length_header (hbase : StandardBase64 x.base64) (hkdf : checkKdf r.kdf = .ok ()) :
    (r.header x.base64).bytes.length ≤ maxHeaderBytes := by
  refine length_header_le (machine_header hkdf) rfl rfl ?_
  rw [SealRun.header, List.length_map, hbase.standard.length_encode, r.saltLength]
  rfl

theorem sealing_eq_ok {s : Sealing Key} (h : sealing x r = .ok s) : checkKdf r.kdf = .ok () ∧
    x.writePayload r.manifest r.contents = .ok s.plaintext ∧ x.derive r.passphrase r.salt r.kdf = .ok s.key ∧
      s.aad = r.start x.base64 := by
  obtain ⟨_, -, h⟩ := bind_eq_ok.1 h
  obtain ⟨_, hkdf, h⟩ := bind_eq_ok.1 h
  obtain ⟨payload, hpayload, h⟩ := bind_eq_ok.1 h
  obtain ⟨_, -, h⟩ := bind_eq_ok.1 h
  obtain ⟨_, -, h⟩ := bind_eq_ok.1 h
  obtain ⟨key, hkey, h⟩ := bind_eq_ok.1 h
  obtain rfl := Except.ok.inj h
  exact ⟨hkdf, mapError_eq_ok.1 hpayload, mapError_eq_ok.1 hkey, rfl⟩

theorem sealBackup_eq_ok {f : List UInt8} : sealBackup x r = .ok f ↔
    ∃ s, sealing x r = .ok s ∧ x.aead.file s = f ∧ f.length ≤ maxBackupBytes := by
  constructor
  · intro h
    obtain ⟨s, hs, h⟩ := bind_eq_ok.1 h
    obtain ⟨_, hsize, h⟩ := bind_eq_ok.1 h
    obtain rfl := Except.ok.inj h
    exact ⟨s, hs, rfl, Nat.not_lt.1 (refuseIf_ok.1 hsize)⟩
  · rintro ⟨s, hs, rfl, hsize⟩
    refine bind_eq_ok.2 ⟨s, hs, bind_eq_ok.2 ⟨(), refuseIf_ok.2 (Nat.not_lt.2 hsize), rfl⟩⟩

end Written

/-! ## The calls that were made -/

/-- The manifest describes a full backup that this build reads. -/
structure BackupManifest.Readable (m : BackupManifest) : Prop where
  format : m.format = backupFormat
  formatVersion : m.formatVersion = backupVersion
  kind : m.kind = .backup
  mode : m.mode = .fullBackup
  minSchema : minSchemaVersion ≤ m.schemaVersion
  schema : m.schemaVersion ≤ App.schemaVersion
  dbSchema : m.dbSchemaVersion ≤ App.dbSchemaVersion

section Assumed
variable {α : Type}

/-- What the calls of `seal` handed to the cipher. -/
def sealings (x : Primitives α) (runs : Set (SealRun α)) : Set (Sealing Key) := {s | ∃ r ∈ runs, sealing x r = .ok s}

/-- The base64 crate is standard, what `serde_json` writes in a call it reads back, the cipher is ideal for these calls and
for `others`, and the associated data of the others (store rows, vault keys, bundles) do not start with the signature. -/
structure Assumed (x : Primitives α) (runs : Set (SealRun α)) (others : Set (Sealing Key)) : Prop where
  base64 : StandardBase64 x.base64
  readHeader : ∀ r ∈ runs, x.readHeader (r.header x.base64).bytes = .ok (r.header x.base64)
  readPayload : ∀ r ∈ runs, ∀ b, x.writePayload r.manifest r.contents = .ok b → x.readPayload b = .ok (r.manifest, r.contents)
  ideal : x.aead.Ideal (sealings x runs ∪ others)
  foreign : ∀ s ∈ others, ¬ magic <+: s.aad

/-- The passphrase gives the key that the call sealed with; derivation is only a function. -/
def SealRun.SealedWith (x : Primitives α) (r : SealRun α) (passphrase : Text) : Prop :=
  x.derive r.passphrase r.salt r.kdf = x.derive passphrase r.salt r.kdf

/-- Opening fails, and whatever would read the payload is not asked. -/
def Refused (x : Primitives α) (bytes : List UInt8) (passphrase : Text) : Prop :=
  ∃ e, openPlaintext x bytes (some passphrase) = .error e ∧
    ∀ read, openBackup { x with readPayload := read } bytes (some passphrase) = .error e

theorem frame_eq_ok {bytes header : List UInt8} {headerEnd : Nat} (h : frame bytes = .ok (header, headerEnd)) :
    magic <+: bytes ∧ magic.length ≤ headerEnd := by
  unfold frame at h
  cases hdrop : dropPrefix magic bytes with
  | none =>
    rw [hdrop] at h
    cases h
  | some rest =>
    simp only [hdrop] at h
    split_ifs at h
    obtain ⟨-, rfl⟩ := Prod.mk.inj (Except.ok.inj h)
    refine ⟨⟨rest, (dropPrefix_eq_some.1 hdrop).symm⟩, ?_⟩
    rw [Nat.add_assoc]
    exact Nat.le_add_right _ _

variable {x : Primitives α} {runs : Set (SealRun α)} {others : Set (Sealing Key)}

theorem openHeader_eq_ok {bytes : List UInt8} {h : OpenedHeader} (hopen : openHeader x bytes = .ok h) :
    magic <+: bytes.take h.headerEnd := by
  obtain ⟨⟨header, headerEnd⟩, hframe, hopen⟩ := bind_eq_ok.1 hopen
  obtain ⟨_, -, hopen⟩ := bind_eq_ok.1 hopen
  obtain ⟨_, -, hopen⟩ := bind_eq_ok.1 hopen
  obtain rfl := Except.ok.inj hopen
  exact List.prefix_take_iff.2 (frame_eq_ok hframe)

theorem openChecks_eq_ok {bytes : List UInt8} {passphrase : Option Text} {h : OpenedHeader} {p : Text} :
    openChecks x bytes passphrase = .ok (h, p) ↔ openHeader x bytes = .ok h ∧ passphrase = some p := by
  constructor
  · intro hopen
    obtain ⟨h, hheader, hopen⟩ := bind_eq_ok.1 hopen
    obtain ⟨p, hp, hopen⟩ := bind_eq_ok.1 hopen
    obtain ⟨rfl, rfl⟩ := Prod.mk.inj (Except.ok.inj hopen)
    exact ⟨hheader, elim_eq_ok.1 hp⟩
  · rintro ⟨hheader, rfl⟩
    exact bind_eq_ok.2 ⟨h, hheader, rfl⟩

theorem openPlaintext_eq_ok {bytes plaintext : List UInt8} {p : Text} {h : OpenedHeader} :
    openPlaintext x bytes (some p) = .ok (h, plaintext) ↔ bytes.length ≤ maxBackupBytes ∧ openHeader x bytes = .ok h ∧
      ∃ key, x.derive p h.salt h.header.kdf = .ok key ∧
        x.aead.openWith key (bytes.take h.headerEnd) (bytes.drop h.headerEnd) = some plaintext := by
  constructor
  · intro hopen
    obtain ⟨_, hsize, hopen⟩ := bind_eq_ok.1 hopen
    obtain ⟨⟨h, q⟩, hchecks, hopen⟩ := bind_eq_ok.1 hopen
    obtain ⟨key, hkey, hopen⟩ := bind_eq_ok.1 hopen
    obtain ⟨m, hm, hopen⟩ := bind_eq_ok.1 hopen
    obtain ⟨rfl, rfl⟩ := Prod.mk.inj (Except.ok.inj hopen)
    obtain ⟨hheader, hq⟩ := openChecks_eq_ok.1 hchecks
    obtain rfl := Option.some.inj hq
    exact ⟨Nat.not_lt.1 (refuseIf_ok.1 hsize), hheader, key, mapError_eq_ok.1 hkey, elim_eq_ok.1 hm⟩
  · rintro ⟨hsize, hheader, key, hkey, hm⟩
    refine bind_eq_ok.2 ⟨(), refuseIf_ok.2 (Nat.not_lt.2 hsize), ?_⟩
    refine bind_eq_ok.2 ⟨(h, p), openChecks_eq_ok.2 ⟨hheader, rfl⟩, ?_⟩
    exact bind_eq_ok.2 ⟨key, mapError_eq_ok.2 hkey, bind_eq_ok.2 ⟨plaintext, elim_eq_ok.2 hm, rfl⟩⟩

/-- The header of what a call wrote, whatever its envelope. -/
theorem openHeader_start (a : Assumed x runs others) {r : SealRun α} (hr : r ∈ runs) (hkdf : checkKdf r.kdf = .ok ())
    (envelope : List UInt8) :
      openHeader x (r.start x.base64 ++ envelope) = .ok ⟨r.header x.base64, r.salt, (r.start x.base64).length⟩ := by
  have hlength : (r.start x.base64).length = magic.length + 4 + (r.header x.base64).bytes.length := by
    rw [SealRun.start, List.length_append, List.length_append, length_beBytes]
  unfold openHeader
  rw [SealRun.start, frame_file envelope (length_header a.base64 hkdf), ok_bind]
  simp only [a.readHeader r hr]
  refine bind_eq_ok.2 ⟨r.header x.base64, rfl, ?_⟩
  rw [checkHeader_header a.base64 hkdf, ok_bind, ← SealRun.start, hlength]
  rfl

/-- What opens is the file of one call, under the key of that call. -/
theorem opened_is_file (a : Assumed x runs others) {bytes plaintext : List UInt8} {p : Text} {h : OpenedHeader}
    (hopen : openPlaintext x bytes (some p) = .ok (h, plaintext)) :
    ∃ r ∈ runs, r.SealedWith x p ∧ sealBackup x r = .ok bytes := by
  obtain ⟨hsize, hheader, key, hkey, hm⟩ := openPlaintext_eq_ok.1 hopen
  obtain ⟨s, hs, rfl, haad, -, hfile⟩ := a.ideal.sealed_of_open hm
  rw [List.take_append_drop] at hfile
  rcases hs with ⟨r, hr, hsealing⟩ | hother
  · obtain ⟨hkdf, -, hderive, hstart⟩ := sealing_eq_ok hsealing
    have hheader' := openHeader_start a hr hkdf (x.aead.sealWith s)
    have hbytes : bytes = r.start x.base64 ++ x.aead.sealWith s := by rw [← hfile, Aead.file, hstart]
    rw [← hbytes, hheader] at hheader'
    obtain rfl := Except.ok.inj hheader'
    exact ⟨r, hr, hderive.trans hkey.symm, sealBackup_eq_ok.2 ⟨s, hsealing, hfile, hsize⟩⟩
  · exact absurd (haad ▸ openHeader_eq_ok hheader) (a.foreign s hother)

theorem refused_of_not_file (a : Assumed x runs others) {bytes : List UInt8} {p : Text}
    (hother : ∀ r ∈ runs, r.SealedWith x p → sealBackup x r ≠ .ok bytes) : Refused x bytes p := by
  cases hopen : openPlaintext x bytes (some p) with
  | ok m =>
    obtain ⟨r, hr, hwith, hfile⟩ := opened_is_file a hopen
    exact absurd hfile (hother r hr hwith)
  | error e =>
    refine ⟨e, hopen, fun read => ?_⟩
    have hsame : openPlaintext { x with readPayload := read } bytes (some p) = openPlaintext x bytes (some p) := rfl
    exact bind_eq_error.2 (.inl (hsame.trans hopen))

/-! ## Writer and reader -/

theorem checkManifest_of_readable {r : SealRun α} (h : r.manifest.Readable) :
    checkManifest (r.header x.base64) r.manifest = .ok () := by
  have hdescribes : ¬ (r.manifest.format ≠ backupFormat ∨ r.manifest.formatVersion ≠ (r.header x.base64).formatVersion ∨
      r.manifest.kind ≠ .backup ∨ r.manifest.mode ≠ .fullBackup) := by
    rintro (hne | hne | hne | hne)
    exacts [hne h.format, hne h.formatVersion, hne h.kind, hne h.mode]
  refine bind_eq_ok.2 ⟨(), refuseIf_ok.2 hdescribes, ?_⟩
  refine bind_eq_ok.2 ⟨(), refuseIf_ok.2 (Nat.not_lt.2 h.schema), ?_⟩
  exact bind_eq_ok.2 ⟨(), refuseIf_ok.2 (Nat.not_lt.2 h.minSchema), refuseIf_ok.2 (Int.not_lt.2 h.dbSchema)⟩

theorem open_sealed (a : Assumed x runs others) {r : SealRun α} (hr : r ∈ runs) (hm : r.manifest.Readable) {f : List UInt8}
    (hf : sealBackup x r = .ok f) : openBackup x f (some r.passphrase) = .ok (r.manifest, r.contents) := by
  obtain ⟨s, hsealing, rfl, hsize⟩ := sealBackup_eq_ok.1 hf
  obtain ⟨hkdf, hpayload, hkey, hstart⟩ := sealing_eq_ok hsealing
  have hopen := a.ideal.open_sealed (.inl ⟨r, hr, hsealing⟩)
  have hplaintext : openPlaintext x (x.aead.file s) (some r.passphrase) =
      .ok (⟨r.header x.base64, r.salt, (r.start x.base64).length⟩, s.plaintext) := by
    refine openPlaintext_eq_ok.2 ⟨hsize, ?_, s.key, hkey, ?_⟩
    · rw [Aead.file, hstart]
      exact openHeader_start a hr hkdf _
    · rw [Aead.file, hstart, List.take_left, List.drop_left, ← hstart]
      exact hopen
  refine bind_eq_ok.2 ⟨_, hplaintext, bind_eq_ok.2 ⟨_, mapError_eq_ok.2 (a.readPayload r hr _ hpayload), ?_⟩⟩
  exact bind_eq_ok.2 ⟨(), checkManifest_of_readable hm, rfl⟩

theorem openBackup_of_openChecks {bytes : List UInt8} {passphrase : Option Text} {e : BackupError}
    (hsize : bytes.length ≤ maxBackupBytes) (h : openChecks x bytes passphrase = .error e) :
    openBackup x bytes passphrase = .error e := by
  refine bind_eq_error.2 (.inl (bind_eq_error.2 (.inr ⟨(), refuseIf_ok.2 (Nat.not_lt.2 hsize), ?_⟩)))
  exact bind_eq_error.2 (.inl h)

/-- **The container**: what is sealed opens to what was sealed; whatever differs from every file sealed with the passphrase is
refused before its payload is read; and the first bytes of a backup are refused exactly when opening it fails in its checks of
the header and of the passphrase's presence. -/
theorem container_faithful (a : Assumed x runs others) :
    (∀ r ∈ runs, r.manifest.Readable → ∀ f, sealBackup x r = .ok f →
      openBackup x f (some r.passphrase) = .ok (r.manifest, r.contents)) ∧
    (∀ p b, (∀ r ∈ runs, r.SealedWith x p → sealBackup x r ≠ .ok b) → Refused x b p) ∧
    ((∀ p q salt kdf k, x.derive p salt kdf = .ok k → x.derive q salt kdf = .ok k → p = q) →
      ∀ p b, (∀ r ∈ runs, r.passphrase = p → sealBackup x r ≠ .ok b) → Refused x b p) ∧
    (∀ b size passphrase, isBackup b = true → size ≤ maxBackupBytes → ∀ e,
      (importReadLimit x (b.take headerPrefixBytes) size passphrase = .error e ↔ openChecks x b passphrase = .error e) ∧
      (b.length ≤ maxBackupBytes → openChecks x b passphrase = .error e → openBackup x b passphrase = .error e)) := by
  refine ⟨fun r hr hm f hf => open_sealed a hr hm hf, fun p b => refused_of_not_file a, ?_, ?_⟩
  · intro happart p b hother
    refine refused_of_not_file a fun r hr hwith hfile => hother r hr ?_ hfile
    obtain ⟨s, hsealing, -⟩ := sealBackup_eq_ok.1 hfile
    obtain ⟨-, -, hkey, -⟩ := sealing_eq_ok hsealing
    exact happart _ _ _ _ _ hkey (hwith.symm.trans hkey)
  · intro b size passphrase hbackup hsize e
    refine ⟨?_, openBackup_of_openChecks⟩
    rw [importReadLimit_take x hbackup hsize]
    cases openChecks x b passphrase <;> simp [Except.map]

end Assumed

/-! ## A backup of an empty profile -/

def emptyManifest : BackupManifest where
  format := backupFormat
  formatVersion := backupVersion
  kind := .backup
  mode := .fullBackup
  schemaVersion := App.schemaVersion
  dbSchemaVersion := App.dbSchemaVersion
  createdAt := 0
  appVersion := "1.0.0".toList
  counts := []
  excluded := []
  deviceBindings := []
  includesHistory := false

-- its text is evaluated by the kernel only
@[irreducible] def emptyPayload : List UInt8 := encodeUtf8 (String.toList
  ("\x7b\"manifest\":\x7b\"format\":\"anvil-backup\",\"format_version\":1,\"kind\":\"backup\"," ++
    "\"mode\":\"full_backup\",\"created_at\":\"1970-01-01T00:00:00Z\",\"app_version\":\"1.0.0\"," ++
    "\"schema_version\":1,\"db_schema_version\":6,\"counts\":\x7b\x7d,\"excluded\":[],\"device_bindings\":[]," ++
    "\"placeholders\":[],\"content_warnings\":[],\"includes_history\":false\x7d," ++
    "\"contents\":\x7b\"objects\":[],\"secrets\":[],\"attachments\":[],\"history\":[]," ++
    "\"load_reports\":[]\x7d\x7d"))

def emptyRun : SealRun Unit where
  manifest := emptyManifest
  contents := ()
  passphrase := "correct horse".toList
  kdf := ⟨64 * 1024, 3, 1⟩
  salt := List.replicate backupSaltLen 7
  nonce := List.replicate nonceLen 9
  saltLength := List.length_replicate
  nonceLength := List.length_replicate

/-- The key of a passphrase by its length. -/
def lengthKey (p : Text) : Key := ⟨List.replicate keyLen (UInt8.ofNat p.length), List.length_replicate⟩

def emptySealing : Sealing Key := ⟨lengthKey emptyRun.passphrase, emptyRun.start Base64.engine, emptyRun.nonce, emptyPayload⟩

/-- The version, the nonce, the text and a tag. -/
def plainEnvelope (s : Sealing Key) : List UInt8 := 1 :: s.nonce ++ s.plaintext ++ List.replicate 16 0

def emptyPrimitives : Primitives Unit where
  base64 := Base64.engine
  derive p _ _ := .ok (lengthKey p)
  aead := ⟨plainEnvelope, fun k a e =>
    if k = emptySealing.key ∧ a = emptySealing.aad ∧ e = plainEnvelope emptySealing then some emptySealing.plaintext
    else none⟩
  readHeader b := if b = (emptyRun.header Base64.engine).bytes then .ok (emptyRun.header Base64.engine) else
    .error "expected value"
  writePayload _ _ := .ok emptyPayload
  readPayload b := if b = emptyPayload then .ok (emptyManifest, ()) else .error "expected value"

theorem standard_emptyPrimitives : StandardBase64 emptyPrimitives.base64 where
  standard := Base64.standard_engine
  ascii := by
    have hletter : ∀ n < 64, Base64.letter n < 0x80 := by decide
    intro v b hb
    obtain ⟨l, r, hsplit⟩ := List.append_of_mem hb
    rcases Base64.mem_encode v l b r hsplit with ⟨n, hn, rfl⟩ | ⟨rfl, -⟩
    · exact hletter n hn
    · decide

/-- The text of a literal is as long as its list of characters. -/
theorem length_ofList_le {l : List Char} {n : Nat} (h : l.length ≤ n) : (String.ofList l).toList.length ≤ n := by
  rwa [String.toList_ofList]

theorem length_emptyPayload : emptyPayload.length ≤ 4 * (100 + 100 + 100 + 100 + 100 + 100) := by
  unfold emptyPayload
  rw [length_encodeUtf8]
  refine (utf8Len_le _).trans (Nat.mul_le_mul_left 4 ?_)
  simp only [String.toList_append, List.length_append]
  refine Nat.add_le_add ?_ ?_
  refine Nat.add_le_add ?_ ?_
  refine Nat.add_le_add ?_ ?_
  refine Nat.add_le_add ?_ ?_
  refine Nat.add_le_add ?_ ?_
  all_goals exact length_ofList_le (by decide)

theorem sealing_empty : sealing emptyPrimitives emptyRun = .ok emptySealing := by
  have hkdf : checkKdf emptyRun.kdf = .ok () := rfl
  have hheader : (emptyRun.header Base64.engine).bytes.length < 2 ^ 32 :=
    (length_header (x := emptyPrimitives) standard_emptyPrimitives hkdf).trans_lt (by decide)
  refine bind_eq_ok.2 ⟨(), refuseIf_ok.2 (by decide), bind_eq_ok.2 ⟨(), hkdf, ?_⟩⟩
  have hpayload : emptyPayload.length ≤ maxBackupBytes := length_emptyPayload.trans (by decide)
  refine bind_eq_ok.2 ⟨emptyPayload, rfl, bind_eq_ok.2 ⟨(), refuseIf_ok.2 (Nat.not_lt.2 hpayload), ?_⟩⟩
  exact bind_eq_ok.2 ⟨(), refuseIf_ok.2 (Nat.not_le.2 hheader), rfl⟩

theorem openWith_empty : emptyPrimitives.aead.openWith emptySealing.key emptySealing.aad (plainEnvelope emptySealing) =
    some emptySealing.plaintext := by
  unfold emptyPrimitives
  simp only [and_self, if_true]

theorem assumed_empty : Assumed emptyPrimitives {emptyRun} ∅ where
  base64 := standard_emptyPrimitives
  readHeader := by
    rintro r rfl
    unfold emptyPrimitives
    simp only [if_true]
  readPayload := by
    rintro r rfl b hb
    obtain rfl := Except.ok.inj hb
    unfold emptyPrimitives
    simp only [if_true]
    rfl
  foreign := fun s hs => hs.elim
  ideal := by
    intro key aad envelope plaintext
    constructor
    · intro hopen
      obtain ⟨⟨rfl, rfl, rfl⟩, hm⟩ := Option.ite_none_right_eq_some.1 hopen
      obtain rfl := Option.some.inj hm
      exact ⟨emptyRun.nonce, .inl ⟨emptyRun, rfl, sealing_empty⟩, rfl⟩
    · rintro ⟨nonce, ⟨r, rfl, hsealing⟩ | hother, rfl⟩
      · have hsame : Sealing.mk key aad nonce plaintext = emptySealing := Except.ok.inj (hsealing.symm.trans sealing_empty)
        have hplaintext : plaintext = emptySealing.plaintext := congrArg Sealing.plaintext hsame
        have hsealed : emptyPrimitives.aead.sealWith ⟨key, aad, nonce, plaintext⟩ = plainEnvelope emptySealing :=
          congrArg plainEnvelope hsame
        have hkey : key = emptySealing.key := congrArg Sealing.key hsame
        have haad : aad = emptySealing.aad := congrArg Sealing.aad hsame
        rw [hsealed, hkey, haad, hplaintext]
        exact openWith_empty
      · exact hother.elim

theorem length_emptyFile : (emptyPrimitives.aead.file emptySealing).length ≤ maxBackupBytes := by
  have hheader : (emptyRun.header Base64.engine).bytes.length ≤ maxHeaderBytes :=
    length_header (x := emptyPrimitives) standard_emptyPrimitives rfl
  have hstart : (emptyRun.start Base64.engine).length = magic.length + 4 + (emptyRun.header Base64.engine).bytes.length := by
    rw [SealRun.start, List.length_append, List.length_append, length_beBytes]
  have henvelope : (plainEnvelope emptySealing).length = emptyRun.nonce.length + 1 + emptyPayload.length + 16 := by
    have hnonce : emptySealing.nonce = emptyRun.nonce := rfl
    have hplaintext : emptySealing.plaintext = emptyPayload := rfl
    rw [plainEnvelope, List.length_append, List.length_append, List.length_cons, List.length_replicate, hnonce, hplaintext]
  have hpayload := length_emptyPayload
  have hfile : emptyPrimitives.aead.file emptySealing = emptyRun.start Base64.engine ++ plainEnvelope emptySealing := rfl
  rw [hfile, List.length_append, hstart, henvelope, emptyRun.nonceLength]
  have hmagic : magic.length = 8 := rfl
  have hnonce : nonceLen ≤ 64 := by decide
  have hmax : maxHeaderBytes ≤ 2 ^ 20 := by decide
  have hbound : 2 ^ 24 ≤ maxBackupBytes := by decide
  omega

/-- The backup opens; with a byte appended it is refused; and without a passphrase it is refused by its first bytes. -/
theorem container_sample : ∃ f, sealBackup emptyPrimitives emptyRun = .ok f ∧
    openBackup emptyPrimitives f (some emptyRun.passphrase) = .ok (emptyManifest, ()) ∧
    Refused emptyPrimitives (f ++ [0]) emptyRun.passphrase ∧
    importReadLimit emptyPrimitives (f.take headerPrefixBytes) f.length none = .error .passphraseRequired := by
  obtain ⟨hopens, hrefused, -, hlimit⟩ := container_faithful assumed_empty
  have hsize : (emptyPrimitives.aead.file emptySealing).length ≤ maxBackupBytes := length_emptyFile
  have hfile : sealBackup emptyPrimitives emptyRun = .ok (emptyPrimitives.aead.file emptySealing) :=
    sealBackup_eq_ok.2 ⟨_, sealing_empty, rfl, hsize⟩
  have hreadable : emptyManifest.Readable := ⟨rfl, rfl, rfl, rfl, Nat.le_refl _, Nat.le_refl _, Int.le_refl _⟩
  have hheader : openHeader emptyPrimitives (emptyPrimitives.aead.file emptySealing) =
      .ok ⟨emptyRun.header Base64.engine, emptyRun.salt, (emptyRun.start Base64.engine).length⟩ :=
        openHeader_start assumed_empty rfl rfl _
  have hchecks : openChecks emptyPrimitives (emptyPrimitives.aead.file emptySealing) none = .error .passphraseRequired :=
    bind_eq_error.2 (.inr ⟨_, hheader, rfl⟩)
  refine ⟨_, hfile, hopens emptyRun rfl hreadable _ hfile, hrefused _ _ ?_, ?_⟩
  · rintro r rfl - hother
    have hlength := congrArg List.length (Except.ok.inj (hfile.symm.trans hother))
    rw [List.length_append, List.length_singleton] at hlength
    omega
  · exact (hlimit _ _ none (by decide) hsize _).1.2 hchecks

end Anvil.App
