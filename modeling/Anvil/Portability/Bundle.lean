import Anvil.Lib.Bytes
import Anvil.Lib.Run
import Anvil.Portability.Nodes

/-!
# Bundle budgets (`anvil-portability/src/bundle.rs`)

* `ReadLimits`, `BundleError` : the limits of a bundle, and what it is refused with;
* `safeName` : the entry names that a bundle may have;
* `checkEntrySize`, `chargeTotalBytes`, `chargeEntryBytes` : the byte budget;
* `chargeNodes`, `chargeJsonNodes` : the budget of JSON values;
* `LengthWriter`, `chargeJson` : a serialization charged without keeping it.
-/

namespace Anvil.Portability
open Anvil.Lib Anvil.Lib.JsonSyntax

/-! ## Limits -/

structure ReadLimits where
  entries : Nat
  total : Nat
  entry : Nat
  ratio : Nat
  nodes : Nat

def maxEntries : Nat := 20000
def maxTotalBytes : Nat := 256 * 1024 * 1024
def maxEntryBytes : Nat := 128 * 1024 * 1024
def maxRatio : Nat := 200
def maxJsonNodes : Nat := 4 * 1024 * 1024

def readLimits : ReadLimits := ⟨maxEntries, maxTotalBytes, maxEntryBytes, maxRatio, maxJsonNodes⟩

inductive BundleError
  | notABundle (why : String)
  | unsafeEntry (name why : String)
  | limits (why : String)
  | unsupportedKdf (why : String)
  | invalid (why : String)
  | io (why : String)
  | zip (why : String)
deriving DecidableEq, Repr

/-! ## Entry names -/

def manifestEntry : String := "manifest.json"
def checksumsEntry : String := "checksums.json"
def objectsEntry : String := "workspace/objects.json"
def settingsEntry : String := "settings/portable.json"
def historyEntry : String := "history/records.jsonl"
def vaultEntry : String := "secrets/portable-vault.enc"

def attachmentEntry (hash : String) : String := "attachments/" ++ hash

def allowedEntries : List String := [manifestEntry, checksumsEntry, objectsEntry, settingsEntry, historyEntry, vaultEntry]

/-- The digest that the name of an attachment holds. -/
def attachmentHash (name : String) : Option Text :=
  (dropPrefix "attachments/".toList name.toList).filter fun h => utf8Len h = 64 ∧ h.all isHex

def safeName (name : String) : Except BundleError Unit := do
  let t := name.toList
  refuseIf (t = [] ∨ 255 < utf8Len t) (.unsafeEntry name "invalid length")
  refuseIf (t.head? = some '/' ∨ '\\' ∈ t ∨ ':' ∈ t ∨ Char.ofNat 0 ∈ t) (.unsafeEntry name "absolute or non-portable path")
  refuseIf (∃ seg ∈ t.splitOn '/', seg = "..".toList ∨ seg = ".".toList) (.unsafeEntry name "path traversal")
  refuseIf (name ∉ allowedEntries ∧ attachmentHash name = none) (.unsafeEntry name "unexpected entry")

/-! ## Bytes -/

/-- `checked_sub` from what is left. -/
def chargeTotalBytes (size remaining : Nat) : Except BundleError Nat :=
  if size ≤ remaining then .ok (remaining - size) else .error (.limits "total uncompressed size exceeds the byte budget")

def chargeEntryBytes (limits : ReadLimits) (name : String) (size remaining : Nat) : Except BundleError Nat :=
  if limits.entry < size then
    .error (.limits ("entry '" ++ name ++ "' exceeds the " ++ toString limits.entry ++ "-byte entry budget"))
  else chargeTotalBytes size remaining

/-! ## JSON values -/

structure NodeBudget where
  remaining : Nat
  /-- What each entry was charged so far; the code keeps no such list. -/
  charged : List (String × Nat)

def chargeNodes (limits : ReadLimits) (name : String) (nodes : Nat) (b : NodeBudget) : Except BundleError NodeBudget :=
  if nodes ≤ b.remaining then .ok ⟨b.remaining - nodes, b.charged ++ [(name, nodes)]⟩
  else if limits.nodes < nodes then
    .error (.limits ("entry '" ++ name ++ "' exceeds the " ++ toString limits.nodes ++ "-value JSON budget (" ++
      toString nodes ++
      " values)"))
  else
    .error (.limits ("entry '" ++ name ++ "' (" ++ toString nodes ++
      " values) would take the bundle's JSON values over the " ++
      toString limits.nodes ++ "-value budget; earlier entries already used " ++ toString (limits.nodes - b.remaining)))

/-- Charges an entry for the values in its bytes. -/
def chargeJsonNodes (limits : ReadLimits) (name : String) (text : List UInt8) (b : NodeBudget) :
    Except BundleError NodeBudget :=
  chargeNodes limits name (NodeCounter.new.scan text).nodes b

/-! ## Serializations -/

structure LengthWriter where
  bytes : Nat
  bound : Nat
  json : NodeCounter

namespace LengthWriter

/-- `bytes` is a `u64`: what would pass it passes the bound. -/
def write (w : LengthWriter) (bytes : List UInt8) : Option LengthWriter :=
  if w.bytes + bytes.length ≤ w.bound then
    some { w with bytes := w.bytes + bytes.length, json := w.json.scan bytes }
  else none

def writeAll (w : LengthWriter) (pieces : List (List UInt8)) : Option LengthWriter := pieces.foldlM write w

/-- What fits has been counted, however it was cut. -/
theorem writeAll_eq_some {w w' : LengthWriter} {pieces : List (List UInt8)} (h : w.writeAll pieces = some w') :
    w' = { w with bytes := w.bytes + pieces.flatten.length, json := w.json.scan pieces.flatten } := by
  induction pieces generalizing w with
  | nil =>
    obtain rfl := Option.some.inj h
    rfl
  | cons p pieces ih =>
    obtain ⟨w₁, hw₁, h⟩ := Option.bind_eq_some_iff.1 h
    unfold write at hw₁
    split_ifs at hw₁
    obtain rfl := Option.some.inj hw₁
    rw [ih h, List.flatten_cons, List.length_append, NodeCounter.scan_append, ← Nat.add_assoc]

end LengthWriter

def exportSizeError (limits : ReadLimits) (name : String) : BundleError :=
  .limits ("export entry '" ++ name ++ "' exceeds the " ++ toString limits.entry ++ "-byte entry or " ++
    toString limits.total ++
    "-byte total budget")

structure Budget where
  remaining : Nat
  nodes : NodeBudget

/-- Charges what was written for an entry that starts with `overhead` bytes. -/
def chargePieces (limits : ReadLimits) (name : String) (pieces : List (List UInt8)) (overhead : Nat) (b : Budget) :
    Except BundleError Budget := do
  let writer : LengthWriter := ⟨overhead, min b.remaining limits.entry, .new⟩
  refuseIf (writer.bound < overhead) (exportSizeError limits name)
  match writer.writeAll pieces with
  | none => .error (exportSizeError limits name)
  | some writer => do
    let remaining ← chargeEntryBytes limits name writer.bytes b.remaining
    let nodes ← chargeNodes limits name writer.json.nodes b.nodes
    return ⟨remaining, nodes⟩

/-- `serde_json` writes the text of a value in pieces. -/
def chargeJson (cut : Text → List (List UInt8)) (limits : ReadLimits) (name : String) (value : Json) (pretty : Bool)
    (overhead : Nat)
    (b : Budget) : Except BundleError Budget :=
  chargePieces limits name (cut (layout pretty 0 value).text) overhead b

theorem chargePieces_ok {limits : ReadLimits} {name : String} {pieces : List (List UInt8)} {overhead : Nat} {b b' : Budget}
    (h : chargePieces limits name pieces overhead b = .ok b') : chargeJsonNodes limits name pieces.flatten b.nodes =
      .ok b'.nodes := by
  obtain ⟨_, -, h⟩ := bind_eq_ok.1 h
  split at h
  · cases h
  · rename_i writer hwriter
    obtain ⟨remaining, -, h⟩ := bind_eq_ok.1 h
    obtain ⟨nodes, hnodes, h⟩ := bind_eq_ok.1 h
    obtain rfl := Except.ok.inj h
    rw [LengthWriter.writeAll_eq_some hwriter] at hnodes
    exact hnodes

end Anvil.Portability
