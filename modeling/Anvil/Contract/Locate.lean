import Anvil.Lib.JsonSyntax
import Anvil.Lib.Keyed
import Anvil.Lib.Strings

/-!
# Where a pointer is in a JSON document

The document is read once more, for where each member and item starts; a scan of its own that takes any text.

* `Position`, `Scan` : where the scan is and what it has recorded; `skip`, `bump`, `peek`, `ws`;
* `string` : a name, its escapes undone;
* `value`, `objectFrom`, `arrayFrom` : a value and the loops over the members and the items, with a number of steps;
* `newJson`, `position` : the locator of a text, and the position of a pointer or of its nearest recorded ancestor.

Lines and columns are numbers here, and 32 bits wide in the source: a document has fewer characters than that.
-/

namespace Anvil.Contract.Locate
open Lib

/-- A line and a column, both from 1. -/
structure Position where
  line : Nat
  column : Nat
  deriving DecidableEq

/-- The position after a character. -/
def Position.after (p : Position) (c : Char) : Position := if c = '\n' then ⟨p.line + 1, 1⟩ else ⟨p.line, p.column + 1⟩

/-- `u32::from_str_radix(_, 16)`, of at most four characters. -/
def parseHex (t : Text) : Option Nat :=
  let digits := if t.head? = some '+' then t.tail else t
  if digits ≠ [] ∧ digits.all JsonSyntax.isHex then some (JsonSyntax.hexValue digits) else none

/-- `char::from_u32`, or the replacement character. -/
def charFrom (code : Nat) : Char := if code.isValidChar then Char.ofNat code else Char.ofNat 0xFFFD

/-- What a letter stands for after a backslash. -/
def unescaped (c : Char) : Char :=
  if c = 'n' then '\n' else if c = 't' then '\t' else if c = 'r' then '\r' else if c = 'b' then Char.ofNat 8
  else if c = 'f' then Char.ofNat 12 else c

/-- `ptr(base, token)`. -/
def ptr (base token : Text) : Text := base ++ '/' :: Json.escapePtr token

theorem ptr_render (path : List Text) (token : Text) : ptr (Json.render path) token = Json.render (path ++ [token]) := by
  rw [Json.render_append, ptr]
  simp [Json.render]

/-- The characters of a scalar that is not a string. -/
def inScalar (c : Char) : Bool := !(c = ',' || c = '}' || c = ']') && !isWhitespace c

structure Scan where
  chars : Text
  pos : Position
  map : List (Text × Position)

namespace Scan

def new (text : Text) : Scan := ⟨text, ⟨1, 1⟩, []⟩

def peek (s : Scan) : Option Char := s.chars.head?

/-- `bump`, `n` times. -/
def skip (n : Nat) (s : Scan) : Scan :=
  { s with chars := s.chars.drop n, pos := (s.chars.take n).foldl Position.after s.pos }

def bump (s : Scan) : Scan := s.skip 1

/-- `bump` while the next character is one of these. -/
def skipWhile (p : Char → Bool) (s : Scan) : Scan := s.skip (s.chars.takeWhile p).length

def ws (s : Scan) : Scan := s.skipWhile isWhitespace

/-- `map.entry(pointer).or_insert(at)`. -/
def record (pointer : Text) (at' : Position) (s : Scan) : Scan :=
  if pointer ∈ keysOf s.map then s else { s with map := s.map ++ [(pointer, at')] }

/-- The character of a `\u` escape, read from after the `u`. -/
def unicodeEscape (s : Scan) : Char × Scan :=
  let hi := (parseHex (s.chars.take 4)).getD 0xFFFD
  let s := s.skip 4
  if (0xD800 ≤ hi ∧ hi < 0xDC00) ∧ s.peek = some '\\' then
    let s := s.skip 2
    let lo := (parseHex (s.chars.take 4)).getD 0
    -- `lo.wrapping_sub(0xdc00)`; the sum wraps only without overflow checks, with them it panics
    (charFrom ((0x10000 + (hi - 0xD800) * 0x400 + (lo + 2 ^ 32 - 0xDC00) % 2 ^ 32) % 2 ^ 32), s.skip 4)
  else (charFrom hi, s)

/-- The character of an escape, read from after the backslash; none at the end of the text. -/
def escape (s : Scan) : Option Char × Scan :=
  if s.peek = some 'u' then (some s.bump.unicodeEscape.1, s.bump.unicodeEscape.2) else (s.peek.map unescaped, s.bump)

/-- The loop of `string`. -/
def stringFrom : Nat → Text → Scan → Text × Scan
  | 0, out, s => (out, s)
  | fuel + 1, out, s =>
    match s.peek with
    | none => (out, s)
    | some c =>
      if c = '"' then (out, s.bump)
      else if c = '\\' then
        match s.bump.escape.1 with
        | none => (out, s.bump.escape.2)
        | some c => stringFrom fuel (out ++ [c]) s.bump.escape.2
      else stringFrom fuel (out ++ [c]) s.bump

/-- A string, from its opening quote on. A step reads a character, so that the text's length is enough of them. -/
def string (s : Scan) : Text × Scan := stringFrom s.chars.length [] s.bump

/-- Past the colon after a name, where there is one. -/
def colon (s : Scan) : Scan := if s.peek = some ':' then s.bump else s

mutual

/-- A value, whose pointer is recorded already. -/
def value : Nat → Text → Nat → Scan → Option Scan
  | 0, _, _, _ => none
  | fuel + 1, pointer, depth, s =>
    match s.ws.peek with
    | none => some s.ws
    | some c =>
      if c = '{' ∧ depth < 256 then objectFrom fuel pointer depth s.ws.bump
      else if c = '[' ∧ depth < 256 then arrayFrom fuel pointer depth 0 s.ws.bump
      else if c = '"' then some s.ws.string.2
      else some (s.ws.skipWhile inScalar)

def objectFrom : Nat → Text → Nat → Scan → Option Scan
  | 0, _, _, _ => none
  | fuel + 1, pointer, depth, s =>
    match s.ws.peek with
    | none => some s.ws
    | some c =>
      if c = '}' then some s.ws.bump
      else if c = '"' then
        let child := ptr pointer s.ws.string.1
        (value fuel child (depth + 1) (s.ws.string.2.record child s.ws.pos).ws.colon).bind (objectFrom fuel pointer depth)
      -- a comma, or no valid JSON: skip a character so that the scan ends
      else objectFrom fuel pointer depth s.ws.bump

def arrayFrom : Nat → Text → Nat → Nat → Scan → Option Scan
  | 0, _, _, _, _ => none
  | fuel + 1, pointer, depth, index, s =>
    match s.ws.peek with
    | none => some s.ws
    | some c =>
      if c = ']' then some s.ws.bump
      else if c = ',' then arrayFrom fuel pointer depth index s.ws.bump
      else
        let child := ptr pointer (Nat.toDigits 10 index)
        (value fuel child (depth + 1) (s.ws.record child s.ws.pos)).bind fun t =>
          -- no valid JSON here when nothing was read (a stray brace)
          arrayFrom fuel pointer depth (index + 1) (if t.pos = s.ws.pos then t.bump else t)

end

/-- `document`; a value takes at most two steps for each character, as `value_ends` says. -/
def document (s : Scan) : Option Scan := value (2 * s.ws.chars.length + 1) [] 0 (s.ws.record [] s.ws.pos)

end Scan

/-! ## The locator -/

/-- `Locator::new` for a JSON text: the map it holds. -/
def newJson (text : Text) : Option (List (Text × Position)) :=
  let text := if text.head? = some (Char.ofNat 0xFEFF) then text.tail else text
  (Scan.new text).document.map Scan.map

/-- `&p[..p.rfind('/').unwrap_or(0)]`. -/
def parent (p : Text) : Text := (p.rdropWhile (· ≠ '/')).dropLast

theorem parent_length {p : Text} (hp : p ≠ []) : (parent p).length < p.length := by
  have hlen : (p.rdropWhile (· ≠ '/')).length ≤ p.length := (List.rdropWhile_prefix _ _).length_le
  have hpos : 0 < p.length := List.length_pos_iff.2 hp
  rw [parent, List.length_dropLast]
  omega

/-- `Locator::position`. -/
def position (map : List (Text × Position)) (pointer : Text) : Option Position :=
  match map.lookup pointer with
  | some at' => some at'
  | none => if _ : pointer = [] then none else position map (parent pointer)
termination_by pointer.length
decreasing_by exact parent_length ‹_›

end Anvil.Contract.Locate
