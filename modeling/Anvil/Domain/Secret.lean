import Anvil.Lib.Wire

/-!
# Redacting before a cut (`anvil-domain/src/secret.rs`)

* `takeBytes` : a text cut at the last character boundary that is not past a byte;
* `redactThenCut` : a window redacted, then cut.
-/

namespace Anvil.Domain
open Anvil.Lib

/-- `REDACTED`. -/
def redactedMarker : Text := "‹redacted›".toList

/-- `REDACT_LOOKAHEAD_BYTES`. -/
def redactLookaheadBytes : Nat := 64 * 1024

/-- `&s[..floor_char_boundary(s, i)]`. -/
def takeBytes : Nat → Text → Text
  | _, [] => []
  | i, c :: t => if c.utf8Size ≤ i then c :: takeBytes (i - c.utf8Size) t else []

/-- `floor_char_boundary`. -/
def floorCharBoundary (s : Text) (i : Nat) : Nat := utf8Len (takeBytes i s)

/-- How many bytes two texts begin with in common. -/
def commonBytes (s t : Text) : Nat := ((encodeUtf8 s).zip (encodeUtf8 t)).takeWhile (fun p => p.1 = p.2) |>.length

/-- `window` redacted, then cut at byte `cut`, one of its character boundaries. -/
def redactThenCut (redact : Text → Text) (window : Text) (cut : Nat) : Text :=
  if utf8Len window ≤ cut then redact window
  else
    let before := takeBytes cut window
    let whole := redact window
    if whole = window then before
    else
      let head := redact before
      let tail := redact (window.drop before.length)
      if utf8Len whole = utf8Len head + utf8Len tail ∧ head <+: whole ∧ tail <:+ whole then head
      else takeBytes (commonBytes whole head) head ++ redactedMarker

end Anvil.Domain
