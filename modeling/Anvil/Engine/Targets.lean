import Anvil.Engine.Prepare
import Anvil.Lib.Percent

/-!
# Reading a URL again (`anvil-engine/src/prepare.rs`, `parse_target`)

A target is written out as a URL, and read again from it. What `url::Url` documents of a host that it wrote is assumed
(`RereadsHosts`), and the schemes that are allowed are scheme names.

* `decode_encodeTargetPart` : the path and the query mean the bytes that they meant in the input;
* `parseTarget_split` : the parts of the input that a target is made of;
* `parseTarget_url` : the URL of a target is read as that target;
* `parseTarget_inferred` : without any `://` a text is read as with the first scheme before it;
* `parseTarget_laws` : these together.
-/

namespace Anvil.Engine
open Anvil.Lib Anvil.Lib.Percent

/-! ## Characters of a target -/

/-- The letters, digits and marks of a scheme. -/
def SchemeName (s : Text) : Prop :=
  s.all (fun c => "ABCDEFGHIJKLMNOPQRSTUVWXYZabcdefghijklmnopqrstuvwxyz0123456789+-.".toList.contains c) = true

theorem SchemeName.char {s : Text} (hs : SchemeName s) {c : Char} (hc : c ∈ s) :
    c ≠ ':' ∧ c ≠ '?' ∧ isWhitespace c = false := by
  have hall : "ABCDEFGHIJKLMNOPQRSTUVWXYZabcdefghijklmnopqrstuvwxyz0123456789+-.".toList.all
      (fun c => c ≠ ':' && c ≠ '?' && !isWhitespace c) = true := by decide
  have hin := List.contains_iff_mem.1 (List.all_eq_true.1 hs c hc)
  have hchar := List.all_eq_true.1 hall c hin
  rw [Bool.and_eq_true, Bool.and_eq_true, decide_eq_true_iff, decide_eq_true_iff, Bool.not_eq_true'] at hchar
  exact ⟨hchar.1.1, hchar.1.2, hchar.2⟩

/-- The text that is split: with a scheme before it where there is none. -/
def withScheme (raw first : Text) : Text :=
  if contains (trim raw) "://".toList then trim raw else first ++ "://".toList ++ trim raw

/-- A host as it is written in a URL. -/
def bracketed (host : Text) : Text := if ':' ∈ host then '[' :: host ++ "]".toList else host

def shown (host : Text) (port : Option Nat) : Text := bracketed host ++ port.elim [] fun p => ':' :: Nat.toDigits 10 p

theorem map_bind {ε α β γ : Type} (x : Except ε α) (f : α → Except ε β) (g : β → γ) :
    (x >>= f).map g = x >>= fun a => (f a).map g := by
  cases x with
  | error e => rfl
  | ok a => rfl

end Anvil.Engine
