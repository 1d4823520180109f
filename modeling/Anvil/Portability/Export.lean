import Mathlib.Data.String.Basic
import Anvil.Lib.Ordered
import Anvil.Portability.Bundle
import Anvil.Storage.Vault

/-!
# Writing bundles (`anvil-portability/src/bundle.rs`)

The digest, the cipher and how `serde_json` cuts a text into writes are parameters.

* `Manifest`, `ExportGraph`, `PreparedExport` : what is exported;
* `exportPreflight` : the budgets charged before anything is written;
* `writtenFiles` : the entries as they are written; `openCharges` : what opening them charges for JSON values;
* `exportPreflight_charges`, `openCharges_written` : both charge the same counts, in another order;
* `nodes_counted` : the count is that of the JSON values and keys, and what an export charges for an entry opening it charges
  too.
-/

namespace Anvil.Portability
open Anvil.Lib Anvil.Lib.JsonSyntax Anvil.Storage

/-! ## Exports -/

inductive ExportMode
  | shareSafely
  | encryptedTransfer
  | fullBackup
deriving DecidableEq, Repr

structure VaultInfo where
  kdf : KdfParams
  saltB64 : Text
  envelopeVersion : Nat
  cipher : Text

def textField (name : String) (value : Text) : Text × Json := (name.toList, .string value)

def numberField (name : String) (value : Nat) : Text × Json := (name.toList, .number (Nat.toDigits 10 value))

def kdfJson (p : KdfParams) : Json :=
  .object [textField "algorithm" "argon2id".toList, numberField "m_cost" p.mCost, numberField "t_cost" p.tCost,
    numberField "p_cost" p.pCost]

def VaultInfo.json (v : VaultInfo) : Json :=
  .object [("kdf".toList, kdfJson v.kdf), textField "salt_b64" v.saltB64, numberField "envelope_version" v.envelopeVersion,
    textField "cipher" v.cipher]

/-- The fields before `vault` are only written. -/
structure Manifest where
  fields : List (Text × Json)
  vault : Option VaultInfo
  includesHistory : Bool
  numbers : ∀ f ∈ fields, Numbers f.2

def Manifest.json (m : Manifest) : Json :=
  .object (m.fields ++ (m.vault.map fun v => ("vault".toList, v.json)).toList ++
    [("includes_history".toList, .bool m.includesHistory)])

/-- What is read of a `PortableGraph` besides its objects. -/
structure ExportGraph where
  attachments : Ordered String (List UInt8)
  history : List Json
  numbers : ∀ r ∈ history, Numbers r

/-- `prepare` refuses a full backup. -/
structure ExportOptions where
  mode : ExportMode
  includeHistory : Bool
  kdf : KdfParams
  isBundle : mode ≠ .fullBackup

structure PreparedExport where
  manifest : Manifest
  objects : Json
  vault : Json
  objectNumbers : Numbers objects
  vaultNumbers : Numbers vault

/-- The history is exported. -/
def hasHistory (graph : ExportGraph) (opts : ExportOptions) : Bool := opts.includeHistory && !graph.history.isEmpty

/-- The entries that the checksums list, in the order in which they are listed. -/
def entryNames (graph : ExportGraph) (opts : ExportOptions) : List String :=
  [manifestEntry, objectsEntry] ++ graph.attachments.keys.map attachmentEntry ++
    (if hasHistory graph opts then [historyEntry] else []) ++
    (if opts.mode = .encryptedTransfer then [vaultEntry] else [])

def checksumsJson (checksums : Ordered String Text) : Json := .object (checksums.list.map fun c => (c.1.toList, .string c.2))

def vaultInfo (kdf : KdfParams) (saltB64 : Text) : VaultInfo := ⟨kdf, saltB64, 1, "xchacha20poly1305".toList⟩

/-- The manifest as it is exported: an encrypted export names the parameters of its vault. -/
def PreparedExport.exported (p : PreparedExport) (opts : ExportOptions) (saltB64 : Text) : Manifest :=
  if opts.mode = .encryptedTransfer then { p.manifest with vault := some (vaultInfo opts.kdf saltB64) } else p.manifest

/-! ## The preflight -/

/-- Version byte, nonce and tag of an envelope. -/
def vaultEnvelopeOverhead : Nat := 1 + 24 + 16

/-- The history has a record a line. -/
def historyPieces (cut : Text → List (List UInt8)) (history : List Json) : List (List UInt8) :=
  history.flatMap fun r => cut (layout false 0 r).text ++ [[0x0A]]

def chargeAttachment (limits : ReadLimits) (b : Budget) (a : String × List UInt8) : Except BundleError Budget := do
  safeName (attachmentEntry a.1)
  let remaining ← chargeEntryBytes limits (attachmentEntry a.1) a.2.length b.remaining
  return { b with remaining := remaining }

def chargeHistory (cut : Text → List (List UInt8)) (limits : ReadLimits) (graph : ExportGraph) (opts : ExportOptions)
    (b : Budget) :
    Except BundleError Budget :=
  if hasHistory graph opts then chargePieces limits historyEntry (historyPieces cut graph.history) 0 b else .ok b

def checkKdf (kdf : KdfParams) : Except BundleError Unit :=
  match kdf.checkBounds with
  | .ok () => .ok ()
  | .error why => .error (.unsupportedKdf why)

def chargeVault (cut : Text → List (List UInt8)) (limits : ReadLimits) (opts : ExportOptions) (p : PreparedExport)
    (b : Budget) :
    Except BundleError Budget :=
  if opts.mode = .encryptedTransfer then do
    checkKdf opts.kdf
    chargeJson cut limits vaultEntry p.vault false vaultEnvelopeOverhead b
  else .ok b

/-- A salt of 16 zero bytes, and a digest of zeros, are as long as any. -/
def zeroSalt : Text := "AAAAAAAAAAAAAAAAAAAAAA==".toList

def zeroDigest : Text := List.replicate 64 '0'

def exportPreflight (cut : Text → List (List UInt8)) (graph : ExportGraph) (opts : ExportOptions) (p : PreparedExport)
    (limits : ReadLimits) : Except BundleError Budget := do
  let b ← chargeJson cut limits objectsEntry p.objects true 0 ⟨limits.total, limits.nodes, []⟩
  let b ← runOps (chargeAttachment limits) b graph.attachments.list
  let b ← chargeHistory cut limits graph opts b
  let b ← chargeVault cut limits opts p b
  refuseIf (limits.entries < (entryNames graph opts).length + 1) (.limits "too many export entries")
  let b ← chargeJson cut limits manifestEntry (p.exported opts zeroSalt).json true 0 b
  chargeJson cut limits checksumsEntry (checksumsJson (.collect ((entryNames graph opts).map fun name => (name, zeroDigest))))
    true 0 b

/-! ## The entries -/

abbrev Files := List (String × List UInt8)

def textBytes (pretty : Bool) (v : Json) : List UInt8 := encodeUtf8 (layout pretty 0 v).text

def historyBytes (history : List Json) : List UInt8 := history.flatMap fun r => textBytes false r ++ [0x0A]

section Written
variable (sha256 : List UInt8 → Text) (encrypt : List UInt8 → List UInt8) (saltB64 : Text)

/-- The entries that the checksums list; `encrypt` is under the key and the listing of this bundle. -/
def listedFiles (graph : ExportGraph) (opts : ExportOptions) (p : PreparedExport) : Files :=
  [(manifestEntry, textBytes true (p.exported opts saltB64).json), (objectsEntry, textBytes true p.objects)] ++
    graph.attachments.list.map (fun a => (attachmentEntry a.1, a.2)) ++
    (if hasHistory graph opts then [(historyEntry, historyBytes graph.history)] else []) ++
    (if opts.mode = .encryptedTransfer then [(vaultEntry, encrypt (textBytes false p.vault))] else [])

/-- The entries that `write_prepared` hands to the archive. -/
def writtenFiles (graph : ExportGraph) (opts : ExportOptions) (p : PreparedExport) : Files :=
  let files := listedFiles encrypt saltB64 graph opts p
  files ++ [(checksumsEntry, textBytes true (checksumsJson (.collect (files.map fun f => (f.1, sha256 f.2)))))]

end Written

/-- What an archive holds under a name. -/
def Files.get? (files : Files) (name : String) : Option (List UInt8) := (files.find? fun f => f.1 = name).map Prod.snd

/-- An entry that a bundle must have. -/
def chargeRequired (limits : ReadLimits) (files : Files) (b : NodeBudget) (name : String) : Except BundleError NodeBudget :=
  match files.get? name with
  | none => .error (.notABundle ("missing " ++ name))
  | some data => chargeJsonNodes limits name data b

def chargeOptional (limits : ReadLimits) (name : String) (data : Option (List UInt8)) (b : NodeBudget) :
    Except BundleError NodeBudget :=
  match data with
  | none => .ok b
  | some data => chargeJsonNodes limits name data b

/-- The charges of `open_archive` for JSON values, where the vault opened to `vault`. -/
def openCharges (limits : ReadLimits) (files : Files) (vault : Option (List UInt8)) : Except BundleError NodeBudget := do
  let b ← runOps (chargeRequired limits files) ⟨limits.nodes, []⟩ [checksumsEntry, manifestEntry, objectsEntry]
  let b ← chargeOptional limits vaultEntry vault b
  chargeOptional limits historyEntry (files.get? historyEntry) b

/-! ## Charges -/

/-- Charges one after another. -/
def chargeAll (limits : ReadLimits) (b : NodeBudget) (charges : List (String × Nat)) : Except BundleError NodeBudget :=
  runOps (fun b c => chargeNodes limits c.1 c.2 b) b charges

theorem chargeNodes_ok {limits : ReadLimits} {name : String} {nodes : Nat} {b b' : NodeBudget} :
    chargeNodes limits name nodes b = .ok b' ↔ nodes ≤ b.remaining ∧
      b' = ⟨b.remaining - nodes, b.charged ++ [(name, nodes)]⟩ := by
  unfold chargeNodes
  split_ifs with hfits hmax
  · rw [Except.ok.injEq, eq_comm]
    exact (and_iff_right hfits).symm
  · simp [hfits]
  · simp [hfits]

/-- Charges fit when all of them together do. -/
theorem chargeAll_ok {limits : ReadLimits} {charges : List (String × Nat)} {b b' : NodeBudget} :
    chargeAll limits b charges = .ok b' ↔ (charges.map Prod.snd).sum ≤ b.remaining ∧
      b' = ⟨b.remaining - (charges.map Prod.snd).sum, b.charged ++ charges⟩ := by
  induction charges generalizing b with
  | nil => simp [chargeAll, eq_comm]
  | cons c charges ih =>
    rw [chargeAll, runOps_cons_eq_ok, List.map_cons, List.sum_cons]
    constructor
    · rintro ⟨b₁, hb₁, h⟩
      obtain ⟨hfits, rfl⟩ := chargeNodes_ok.1 hb₁
      obtain ⟨hrest, rfl⟩ := ih.1 h
      dsimp only at hrest
      exact ⟨by omega, by simp [Nat.sub_sub]⟩
    · rintro ⟨hfits, rfl⟩
      refine ⟨_, chargeNodes_ok.2 ⟨by omega, rfl⟩, ih.2 ⟨?_, ?_⟩⟩
      · dsimp only
        omega
      · simp [Nat.sub_sub]

/-- Charges are the same in any order. -/
theorem chargeAll_perm {limits : ReadLimits} {charges charges' : List (String × Nat)}
    (hperm : charges.Perm charges') {b b' : NodeBudget}
    (h : chargeAll limits b charges = .ok b') :
    ∃ b₁, chargeAll limits b charges' = .ok b₁ ∧ b₁.remaining = b'.remaining ∧ b₁.charged.Perm b'.charged := by
  obtain ⟨hfits, rfl⟩ := chargeAll_ok.1 h
  have hsum := (hperm.map Prod.snd).sum_eq
  refine ⟨_, chargeAll_ok.2 ⟨hsum ▸ hfits, rfl⟩, ?_, hperm.symm.append_left _⟩
  dsimp only
  rw [hsum]

/-! ## What is charged -/

/-- The text of a value, as a document with no white space around it. -/
def document (pretty : Bool) (v : Json) : Document := ⟨[], layout pretty 0 v, []⟩

theorem valid_document {pretty : Bool} {v : Json} (h : Numbers v) :
    (document pretty v).Valid := ⟨blank_nil, valid_layout v h, blank_nil⟩

theorem text_document (pretty : Bool) (v : Json) : (document pretty v).text = (layout pretty 0 v).text := List.append_nil _

theorem chargeJsonNodes_text {limits : ReadLimits} {name : String} {pretty : Bool} {v : Json} (hv : Numbers v)
    (b : NodeBudget) :
    chargeJsonNodes limits name (textBytes pretty v) b = chargeNodes limits name (nodes v) b := by
  have hcount := NodeCounter.nodes_of_adds (NodeCounter.adds_document (valid_document hv : (document pretty v).Valid))
  rw [text_document] at hcount
  rw [chargeJsonNodes, textBytes, hcount]
  exact congrArg (fun w => chargeNodes limits name (nodes w) b) (value_layout v hv)

theorem historyBytes_eq (history : List Json) :
    historyBytes history = encodeUtf8 ((history.map (document false)).flatMap fun d => d.text ++ ['\n']) := by
  induction history with
  | nil => rfl
  | cons r history ih =>
    rw [List.map_cons, List.flatMap_cons, encodeUtf8_append, encodeUtf8_append, ← ih, text_document]
    rfl

theorem chargeJsonNodes_history {limits : ReadLimits} {name : String} {history : List Json} (h : ∀ r ∈ history, Numbers r)
    (b : NodeBudget) : chargeJsonNodes limits name (historyBytes history) b = chargeNodes limits name
    (history.map nodes).sum b := by
  have hvalid : ∀ d ∈ history.map (document false), d.Valid := by
    intro d hd
    obtain ⟨r, hr, rfl⟩ := List.mem_map.1 hd
    exact valid_document (h r hr)
  rw [chargeJsonNodes, historyBytes_eq, NodeCounter.nodes_of_adds (NodeCounter.adds_lines hvalid), List.map_map]
  refine congrArg (fun l => chargeNodes limits name (List.sum l) b) (List.map_congr_left fun r hr => ?_)
  exact congrArg nodes (value_layout r (h r hr))

/-! ## The manifest and the checksums -/

theorem numbers_vaultInfo (v : VaultInfo) : Numbers v.json := by
  have hkdf : Numbers (kdfJson v.kdf) := by
    refine numbers_object fun f hf => ?_
    simp only [List.mem_cons, List.not_mem_nil, or_false] at hf
    rcases hf with rfl | rfl | rfl | rfl
    exacts [numbers_string _, numbers_toDigits _, numbers_toDigits _, numbers_toDigits _]
  refine numbers_object fun f hf => ?_
  simp only [List.mem_cons, List.not_mem_nil, or_false] at hf
  rcases hf with rfl | rfl | rfl | rfl
  exacts [hkdf, numbers_string _, numbers_toDigits _, numbers_string _]

theorem numbers_manifest (m : Manifest) : Numbers m.json := by
  refine numbers_object fun f hf => ?_
  rcases List.mem_append.1 hf with hf | hf
  · rcases List.mem_append.1 hf with hf | hf
    · exact m.numbers f hf
    · obtain ⟨v, -, rfl⟩ := Option.map_eq_some_iff.1 (Option.mem_toList.1 hf)
      exact numbers_vaultInfo v
  · obtain rfl := List.mem_singleton.1 hf
    exact numbers_bool _

theorem numbers_checksums (m : Ordered String Text) : Numbers (checksumsJson m) := by
  refine numbers_object fun f hf => ?_
  obtain ⟨c, -, rfl⟩ := List.mem_map.1 hf
  exact numbers_string _

/-- The salt is one string. -/
theorem nodes_exported (p : PreparedExport) (opts : ExportOptions) (salt salt' : Text) :
    nodes (p.exported opts salt).json = nodes (p.exported opts salt').json := by
  unfold PreparedExport.exported
  split_ifs
  · simp only [Manifest.json, nodes, nodesFields_eq, List.map_append, Option.map_some, Option.toList_some, List.map_cons,
      List.map_nil]
    rfl
  · rfl

/-- A digest is one string. -/
theorem nodes_checksums (m : Ordered String Text) : nodes (checksumsJson m) = 1 + 2 * m.keys.length := by
  rw [checksumsJson, nodes, nodesFields_eq, List.map_map, Ordered.keys, List.length_map]
  congr 1
  induction m.list with
  | nil => rfl
  | cons c l ih =>
    rw [List.map_cons, List.sum_cons, ih, List.length_cons, Nat.mul_succ, Nat.add_comm]
    rfl

/-! ## Both sides -/

section Charges
variable {cut : Text → List (List UInt8)} {graph : ExportGraph} {opts : ExportOptions} {p : PreparedExport}
    {limits : ReadLimits}

/-- The keys of the checksums. -/
def checksumCount (graph : ExportGraph) (opts : ExportOptions) : Nat :=
  (Ordered.collect ((entryNames graph opts).map fun name => (name, zeroDigest))).keys.length

def historyCharges (graph : ExportGraph) (opts : ExportOptions) : List (String × Nat) :=
  if hasHistory graph opts then [(historyEntry, (graph.history.map nodes).sum)] else []

def vaultCharges (opts : ExportOptions) (p : PreparedExport) : List (String × Nat) :=
  if opts.mode = .encryptedTransfer then [(vaultEntry, nodes p.vault)] else []

def manifestCharges (graph : ExportGraph) (opts : ExportOptions) (p : PreparedExport) : List (String × Nat) :=
  [(manifestEntry, nodes (p.exported opts zeroSalt).json), (checksumsEntry, 1 + 2 * checksumCount graph opts)]

theorem chargeAll_singleton (b : NodeBudget) (c : String × Nat) : chargeAll limits b [c] = chargeNodes limits c.1 c.2 b := by
  rw [chargeAll, runOps, List.foldlM_cons]
  exact bind_pure _

theorem chargeJson_ok (hcut : ∀ t, (cut t).flatten = encodeUtf8 t) {name : String} {v : Json} (hv : Numbers v) {pretty : Bool}
    {overhead : Nat} {b b' : Budget} (h : chargeJson cut limits name v pretty overhead b = .ok b') :
    chargeNodes limits name (nodes v) b.nodes = .ok b'.nodes := by
  have hcharged := chargePieces_ok h
  rw [hcut] at hcharged
  exact (chargeJsonNodes_text hv b.nodes).symm.trans hcharged

theorem chargeAttachments_ok {l : List (String × List UInt8)} {b b' : Budget}
    (h : runOps (chargeAttachment limits) b l = .ok b') :
    b'.nodes = b.nodes := by
  refine (runOps_forall (I := fun b' => b'.nodes = b.nodes) (Q := fun _ => True) ?_ h rfl).1
  intro s a s' hstep hs
  obtain ⟨-, -, hstep⟩ := bind_eq_ok.1 hstep
  obtain ⟨remaining, -, hstep⟩ := bind_eq_ok.1 hstep
  obtain rfl := Except.ok.inj hstep
  exact ⟨hs, trivial⟩

theorem flatten_historyPieces (hcut : ∀ t, (cut t).flatten = encodeUtf8 t) (history : List Json) :
    (historyPieces cut history).flatten = historyBytes history := by
  induction history with
  | nil => rfl
  | cons r history ih =>
    have hpieces : historyPieces cut (r :: history) = cut (layout false 0 r).text ++ [[0x0A]] ++ historyPieces cut history :=
      rfl
    rw [hpieces, List.flatten_append, List.flatten_append, hcut, ih]
    rfl

theorem chargeHistory_ok (hcut : ∀ t, (cut t).flatten = encodeUtf8 t) {b b' : Budget}
    (h : chargeHistory cut limits graph opts b = .ok b') :
    chargeAll limits b.nodes (historyCharges graph opts) = .ok b'.nodes := by
  unfold chargeHistory at h
  unfold historyCharges
  split_ifs at h ⊢
  · have hcharged := chargePieces_ok h
    rw [flatten_historyPieces hcut, chargeJsonNodes_history graph.numbers] at hcharged
    rw [chargeAll_singleton, hcharged]
  · obtain rfl := Except.ok.inj h
    rfl

theorem chargeVault_ok (hcut : ∀ t, (cut t).flatten = encodeUtf8 t) {b b' : Budget}
    (h : chargeVault cut limits opts p b = .ok b') :
    chargeAll limits b.nodes (vaultCharges opts p) = .ok b'.nodes := by
  unfold chargeVault at h
  unfold vaultCharges
  split_ifs at h ⊢
  · obtain ⟨-, -, h⟩ := bind_eq_ok.1 h
    rw [chargeAll_singleton, chargeJson_ok hcut p.vaultNumbers h]
  · obtain rfl := Except.ok.inj h
    rfl

theorem chargeAll_append {b : NodeBudget} {cs ds : List (String × Nat)} :
    chargeAll limits b (cs ++ ds) = chargeAll limits b cs >>= fun b' => chargeAll limits b' ds := runOps_append ..

/-- What the preflight charges. -/
theorem exportPreflight_charges (hcut : ∀ t, (cut t).flatten = encodeUtf8 t) {b : Budget}
    (h : exportPreflight cut graph opts p limits = .ok b) :
    chargeAll limits ⟨limits.nodes, []⟩ ([(objectsEntry, nodes p.objects)] ++ historyCharges graph opts ++
      vaultCharges opts p ++
      manifestCharges graph opts p) = .ok b.nodes := by
  unfold exportPreflight at h
  obtain ⟨b₁, hobjects, h⟩ := bind_eq_ok.1 h
  obtain ⟨b₂, hattachments, h⟩ := bind_eq_ok.1 h
  obtain ⟨b₃, hhistory, h⟩ := bind_eq_ok.1 h
  obtain ⟨b₄, hvault, h⟩ := bind_eq_ok.1 h
  obtain ⟨-, -, h⟩ := bind_eq_ok.1 h
  obtain ⟨b₅, hmanifest, hchecksums⟩ := bind_eq_ok.1 h
  have hfirst : chargeAll limits ⟨limits.nodes, []⟩ [(objectsEntry, nodes p.objects)] = .ok b₂.nodes := by
    rw [chargeAttachments_ok hattachments, chargeAll_singleton]
    exact chargeJson_ok hcut p.objectNumbers hobjects
  have hlast := chargeJson_ok hcut (numbers_checksums _) hchecksums
  rw [nodes_checksums] at hlast
  rw [chargeAll_append, chargeAll_append, chargeAll_append, hfirst, ok_bind, chargeHistory_ok hcut hhistory, ok_bind,
    chargeVault_ok hcut hvault, ok_bind]
  exact runOps_cons_eq_ok.2 ⟨_, chargeJson_ok hcut (numbers_manifest _) hmanifest, runOps_cons_eq_ok.2 ⟨_, hlast, rfl⟩⟩

/-! ## Opening what was written -/

theorem attachmentEntry_ne (hash : String) {name : String}
    (h : name.toList.head? ≠ some 'a') : attachmentEntry hash ≠ name := by
  rintro rfl
  rw [attachmentEntry, String.toList_append] at h
  exact h rfl

theorem Files.get?_append (fs gs : Files) (name : String) :
    Files.get? (fs ++ gs) name = (fs.get? name).or (gs.get? name) := by
  rw [get?, get?, get?, List.find?_append]
  cases fs.find? fun f => f.1 = name <;> rfl

theorem Files.get?_eq_none {fs : Files} {name : String} (h : ∀ f ∈ fs, f.1 ≠ name) : fs.get? name = none := by
  rw [get?, List.find?_eq_none.2 fun f hf => by simpa using h f hf]
  rfl

variable {sha256 : List UInt8 → Text} {encrypt : List UInt8 → List UInt8} {saltB64 : Text}

theorem map_listedFiles : (listedFiles encrypt saltB64 graph opts p).map Prod.fst = entryNames graph opts := by
  unfold listedFiles entryNames
  rw [List.map_append, List.map_append, List.map_append, List.map_map, Ordered.keys, List.map_map]
  congr 1
  · congr 1
    split_ifs <;> rfl
  · split_ifs <;> rfl

/-- What stands under a name that no attachment has. -/
theorem get?_listedFiles {name : String} (h : name.toList.head? ≠ some 'a') :
    (listedFiles encrypt saltB64 graph opts p).get? name =
      ((Files.get? [(manifestEntry, textBytes true (p.exported opts saltB64).json),
        (objectsEntry, textBytes true p.objects)] name).or
        (Files.get? (if hasHistory graph opts then [(historyEntry, historyBytes graph.history)] else []) name)).or
        (Files.get? (if opts.mode = .encryptedTransfer then [(vaultEntry, encrypt (textBytes false p.vault))] else [])
          name) := by
  have hattachments : Files.get? (graph.attachments.list.map fun a => (attachmentEntry a.1, a.2)) name = none := by
    refine Files.get?_eq_none fun f hf => ?_
    obtain ⟨a, -, rfl⟩ := List.mem_map.1 hf
    exact attachmentEntry_ne a.1 h
  rw [listedFiles, Files.get?_append, Files.get?_append, Files.get?_append, hattachments, Option.or_none]

theorem get?_writtenFiles (name : String) :
    (writtenFiles sha256 encrypt saltB64 graph opts p).get? name =
      ((listedFiles encrypt saltB64 graph opts p).get? name).or
        (Files.get? [(checksumsEntry, textBytes true (checksumsJson (.collect
          ((listedFiles encrypt saltB64 graph opts p).map fun f => (f.1, sha256 f.2)))))] name) := Files.get?_append _ _ _

theorem get?_history : (writtenFiles sha256 encrypt saltB64 graph opts p).get? historyEntry =
    if hasHistory graph opts then some (historyBytes graph.history) else none := by
  rw [get?_writtenFiles, get?_listedFiles (by decide)]
  split_ifs <;> rfl

theorem get?_checksums : (writtenFiles sha256 encrypt saltB64 graph opts p).get? checksumsEntry =
    some (textBytes true (checksumsJson (.collect ((listedFiles encrypt saltB64 graph opts p).map fun f =>
      (f.1, sha256 f.2))))) := by
  rw [get?_writtenFiles, get?_listedFiles (by decide)]
  split_ifs <;> rfl

theorem nodes_writtenChecksums :
    nodes (checksumsJson (.collect ((listedFiles encrypt saltB64 graph opts p).map fun f => (f.1, sha256 f.2)))) =
      1 + 2 * checksumCount graph opts := by
  have hnames : ((listedFiles encrypt saltB64 graph opts p).map fun f => (f.1, sha256 f.2)).map Prod.fst =
      ((entryNames graph opts).map fun name => (name, zeroDigest)).map Prod.fst := by
    rw [List.map_map, List.map_map, ← map_listedFiles, List.map_map]
    rfl
  rw [nodes_checksums, Ordered.keys_collect_congr hnames, checksumCount]

/-- The same charges, and in the order in which the entries are read. -/
theorem openCharges_written : openCharges limits (writtenFiles sha256 encrypt saltB64 graph opts p)
      (if opts.mode = .encryptedTransfer then some (textBytes false p.vault) else none) =
    chargeAll limits ⟨limits.nodes, []⟩ ((manifestCharges graph opts p).reverse ++ [(objectsEntry, nodes p.objects)] ++
      vaultCharges opts p ++ historyCharges graph opts) := by
  have hmanifest : (writtenFiles sha256 encrypt saltB64 graph opts p).get? manifestEntry =
      some (textBytes true (p.exported opts saltB64).json) := by
    rw [get?_writtenFiles, get?_listedFiles (by decide)]
    rfl
  have hobjects : (writtenFiles sha256 encrypt saltB64 graph opts p).get? objectsEntry = some (textBytes true p.objects) := by
    rw [get?_writtenFiles, get?_listedFiles (by decide)]
    rfl
  have hrequired : ∀ {name data}, (writtenFiles sha256 encrypt saltB64 graph opts p).get? name = some data → ∀ b : NodeBudget,
      chargeRequired limits (writtenFiles sha256 encrypt saltB64 graph opts p) b name =
        chargeJsonNodes limits name data b := by
    intro name data h b
    rw [chargeRequired, h]
  have hfirst : runOps (chargeRequired limits (writtenFiles sha256 encrypt saltB64 graph opts p)) ⟨limits.nodes, []⟩
      [checksumsEntry, manifestEntry, objectsEntry] =
      chargeAll limits ⟨limits.nodes, []⟩ ((manifestCharges graph opts p).reverse ++ [(objectsEntry, nodes p.objects)]) := by
    unfold runOps
    simp only [List.foldlM_cons, List.foldlM_nil, hrequired get?_checksums, hrequired hmanifest, hrequired hobjects,
      chargeJsonNodes_text (numbers_checksums _), chargeJsonNodes_text (numbers_manifest _),
        chargeJsonNodes_text p.objectNumbers,
      nodes_writtenChecksums, nodes_exported p opts saltB64 zeroSalt]
    rfl
  have hvault : ∀ b, chargeOptional limits vaultEntry
      (if opts.mode = .encryptedTransfer then some (textBytes false p.vault) else none) b =
      chargeAll limits b (vaultCharges opts p) := by
    intro b
    unfold vaultCharges
    split_ifs
    · rw [chargeOptional, chargeJsonNodes_text p.vaultNumbers, chargeAll_singleton]
    · rfl
  have hhistory : ∀ b, chargeOptional limits historyEntry
      ((writtenFiles sha256 encrypt saltB64 graph opts p).get? historyEntry) b =
      chargeAll limits b (historyCharges graph opts) := by
    intro b
    rw [get?_history]
    unfold historyCharges
    split_ifs
    · rw [chargeOptional, chargeJsonNodes_history graph.numbers, chargeAll_singleton]
    · rfl
  simp only [openCharges, hfirst, hvault, hhistory, chargeAll_append, bind_assoc]

theorem get?_vault : (writtenFiles sha256 encrypt saltB64 graph opts p).get? vaultEntry =
    if opts.mode = .encryptedTransfer then some (encrypt (textBytes false p.vault)) else none := by
  rw [get?_writtenFiles, get?_listedFiles (by decide)]
  split_ifs <;> rfl

/-- **JSON values are counted as a parser would build them.** However texts are cut, the count is that of their values and
keys. So what an export charges for its entries while it serializes them, opening the bundle charges for the same entries. -/
theorem nodes_counted {decrypt : List UInt8 → Option (List UInt8)} (hcut : ∀ t, (cut t).flatten = encodeUtf8 t)
    (hdecrypt : ∀ m, decrypt (encrypt m) = some m) :
    (∀ (ds : List Document) (pieces : List (List UInt8)), (∀ d ∈ ds, d.Valid) → pieces.flatten = encodeUtf8 (jsonLines ds) →
      (pieces.foldl NodeCounter.scan .new).nodes = (ds.map fun d => nodes d.value.value).sum) ∧
    ∀ (graph : ExportGraph) (opts : ExportOptions) (p : PreparedExport) (limits : ReadLimits) (saltB64 : Text)
      (sha256 : List UInt8 → Text) (b : Budget), exportPreflight cut graph opts p limits = .ok b →
      let files := writtenFiles sha256 encrypt saltB64 graph opts p
      ∃ b', openCharges limits files (if opts.mode = .encryptedTransfer then (files.get? vaultEntry).bind decrypt else none) =
        .ok b' ∧
        b'.charged.Perm b.nodes.charged := by
  refine ⟨fun ds pieces hds hpieces => NodeCounter.scan_jsonLines hds hpieces, ?_⟩
  intro graph opts p limits saltB64 sha256 b h files
  have hvault : (if opts.mode = .encryptedTransfer then (files.get? vaultEntry).bind decrypt else none) =
      if opts.mode = .encryptedTransfer then some (textBytes false p.vault) else none := by
    split_ifs with hmode
    · rw [get?_vault, if_pos hmode, Option.bind_some, hdecrypt]
    · rfl
  have hperm : ([(objectsEntry, nodes p.objects)] ++ historyCharges graph opts ++ vaultCharges opts p ++
      manifestCharges graph opts p).Perm
      ((manifestCharges graph opts p).reverse ++ [(objectsEntry, nodes p.objects)] ++ vaultCharges opts p ++
        historyCharges graph opts) := by
    refine List.perm_append_comm.trans ?_
    rw [List.append_assoc, List.append_assoc, List.append_assoc]
    exact ((List.reverse_perm _).symm).append (.append_left _ List.perm_append_comm)
  obtain ⟨b', hb', -, hcharged⟩ := chargeAll_perm hperm (exportPreflight_charges hcut h)
  rw [hvault, openCharges_written]
  exact ⟨b', hb', hcharged⟩

end Charges

/-! ## An export -/

section Sample

/-- One history record, and a vault. -/
def sampleGraph : ExportGraph := ⟨.empty, [.array [.null, .bool true]], by
  intro r hr n hn
  obtain rfl := List.mem_singleton.1 hr
  simp [Json.leaves, Json.leavesItems] at hn⟩

def sampleOptions : ExportOptions := ⟨.encryptedTransfer, true, ⟨8, 1, 1⟩, by decide⟩

def samplePrepared : PreparedExport where
  manifest := ⟨[], none, true, by simp⟩
  objects := .object []
  vault := .object [textField "secrets" "s".toList]
  objectNumbers := numbers_object (by simp)
  vaultNumbers := numbers_object (by
    intro f hf
    obtain rfl := List.mem_singleton.1 hf
    exact numbers_string _)

def cutWhole (t : Text) : List (List UInt8) := [encodeUtf8 t]

def twoLines : List Document := [document false (.array [.null]), document true (.string "a\"".toList)]

/-- Two texts of three values, in two pieces; and an encrypted export with its history. -/
theorem nodes_counted_sample :
    ([(encodeUtf8 (jsonLines twoLines)).take 9, (encodeUtf8 (jsonLines twoLines)).drop 9].foldl NodeCounter.scan .new).nodes =
      3 ∧
      ∃ b b', exportPreflight cutWhole sampleGraph sampleOptions samplePrepared readLimits = .ok b ∧
        openCharges readLimits (writtenFiles (fun _ => zeroDigest) (0x01 :: ·) zeroSalt sampleGraph sampleOptions
          samplePrepared)
          (some (textBytes false samplePrepared.vault)) = .ok b' ∧ b'.charged.Perm b.nodes.charged := by
  have hcounted := @nodes_counted cutWhole (0x01 :: ·) List.tail? (fun _ => List.flatten_singleton) fun _ => rfl
  have hmode : sampleOptions.mode = .encryptedTransfer := rfl
  have hlines : ∀ d ∈ twoLines, d.Valid := by
    intro d hd
    simp only [twoLines, List.mem_cons, List.not_mem_nil, or_false] at hd
    rcases hd with rfl | rfl
    · exact valid_document fun n hn => by simp [Json.leaves, Json.leavesItems] at hn
    · exact valid_document (numbers_string _)
  have hok : (exportPreflight cutWhole sampleGraph sampleOptions samplePrepared readLimits).isOk = true := by decide +kernel
  refine ⟨(hcounted.1 twoLines _ hlines (by simp)).trans (by decide), ?_⟩
  cases h : exportPreflight cutWhole sampleGraph sampleOptions samplePrepared readLimits with
  | error e =>
    rw [h] at hok
    cases hok
  | ok b =>
    obtain ⟨b', hb', hperm⟩ := hcounted.2 sampleGraph sampleOptions samplePrepared readLimits zeroSalt
        (fun _ => zeroDigest) b h
    rw [if_pos hmode, get?_vault, if_pos hmode] at hb'
    exact ⟨b, b', rfl, hb', hperm⟩

end Sample

end Anvil.Portability
