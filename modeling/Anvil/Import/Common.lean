import Anvil.Lib.Braces
import Anvil.Lib.JsonText

/-!
# Credentials in a JSON body (`anvil-import/src/common.rs`, `util.rs`)

`scrub_json` replaces credentials in a body by `{{variable}}` placeholders, and `render_json` writes the scrubbed body. A
placeholder for a number is marked in the tree, for it is written without quotes.

* `isCredentialName`, `isNumericCredentialName`, `hasLiteralSecret`, `sanitizeVar` : what is a credential, and its variable;
* `credentialText`, `scrubJson` : the replaced values, with what the report is told of each;
* `renderJson` : the text of a scrubbed tree, against the text that the tree was read from.
-/

namespace Anvil.Import.Common
open Anvil.Lib Json

/-! ## Names -/

def credentialHeaders : List String :=
  ["authorization", "proxy-authorization", "cookie", "set-cookie", "x-api-key", "api-key", "apikey", "x-auth-token",
    "x-access-token", "x-amz-security-token", "x-csrf-token", "x-xsrf-token", "x-goog-api-key", "dpop", "x-functions-key",
    "ocp-apim-subscription-key", "x-session-token", "x-refresh-token"]

def credentialParts : List String :=
  ["password", "passwd", "passphrase", "secret", "token", "apikey", "api_key", "api-key", "access_key", "accesskey",
    "private_key", "privatekey", "client_secret", "credential", "session", "signature", "authorization"]

def credentialExact : List String :=
  ["sig", "key", "pwd", "pass", "auth", "otp", "pin", "jwt", "sid", "code_verifier"]

def listed (names : List String) (n : Text) : Bool := names.any fun s => n = s.toList

def isCredentialName (name : Text) : Bool :=
  let n := lower (trim name)
  if n.isEmpty then false
  else if listed credentialHeaders n || listed credentialExact n then true
  else if ["page_token", "pagetoken", "next_token", "continuation"].any (fun s => contains n s.toList) then false
  else credentialParts.any fun p => contains n p.toList

def isNumericCredentialName (name : Text) : Bool :=
  let n := lower (trim name)
  isCredentialName name &&
    (listed credentialHeaders n || listed credentialExact n ||
      (credentialParts.filter (· ≠ "token")).any fun p => contains n p.toList)

/-- The text outside of `{{variable}}` references; each turn of the loop takes a reference away. -/
def literalFrom : Nat → Text → Text
  | 0, rest => rest
  | fuel + 1, rest =>
    match findSplit ['{', '{'] rest with
    | none => rest
    | some (before, after) =>
      match findSplit ['}', '}'] after with
      | some (_, rest) => before ++ literalFrom fuel rest
      | none => rest

def schemeWords : List String := ["bearer", "basic", "token", "digest", "apikey", "dpop", "hmac", "negotiate", "jwt"]

def hasLiteralSecret (v : Text) : Bool :=
  let t := trim (literalFrom v.length v)
  !(t.isEmpty || listed schemeWords (lower t))

/-- One character of `sanitize_var`, after what was written. -/
def sanitizeStep (out : Text) (c : Char) : Text :=
  if c.isAlphanum then out ++ [c]
  else if out.isEmpty ∨ out.getLast? = some '_' then out
  else out ++ ['_']

def sanitizeVar (name : Text) : Text :=
  let out := (name.foldl sanitizeStep []).rdropWhile (· = '_')
  let out := if out.isEmpty then "value".toList else out
  if out.head?.any Char.isDigit then '_' :: out else out

/-! ## Replacing -/

/-- What the report is told. -/
inductive Entry
  | redacted (pointer field placeholder : Text)
  | requireVar (name : Text) (secret : Bool) (reason pointer : Text)
deriving DecidableEq

def placeholderOf (name : Text) : Text := '{' :: '{' :: sanitizeVar name ++ ['}', '}']

def credentialText (includeCredentials : Bool) (value name pointer field : Text) : Text × List Entry :=
  let t := trim value
  if !t.isEmpty && !hasLiteralSecret t then (value, [])
  else if t.isEmpty then
    (placeholderOf name, [.requireVar (sanitizeVar name) true (field ++ " has no value in the source".toList) pointer])
  else if includeCredentials then (value, [])
  else (placeholderOf name, [.redacted pointer field (placeholderOf name),
    .requireVar (sanitizeVar name) true (field ++ " was redacted on import".toList) pointer])

/-- `clip(name, SEGMENT_BYTES)`: its first characters. -/
def segment (name : Text) : Text := if name.length ≤ 64 then name else name.take 64 ++ ['…']

/-- `pointer_at`: the tokens of the path and the last one, while the pointer is short. -/
def pointerAt (base : Text) : List Text → Text
  | [] => base
  | token :: rest => if 1024 < utf8Len base then base ++ "/…".toList else pointerAt (base ++ '/' :: escapePtr token) rest

def numericMark : Text := Char.ofNat 1 :: "anvil-number".toList ++ [Char.ofNat 1]

def marked (placeholder : Text) : Text := numericMark ++ placeholder ++ numericMark

section Scrub
variable (includeCredentials : Bool) (put : Text → Json) (pointer : Text)

/-- The members that `scrub_json_at` replaces or leaves as they are; `put` is what stands for a replaced number. -/
def scrubLeaf (path : List Text) (k : Text) : Json → Option (Json × List Entry)
  | .string s =>
    if isCredentialName k then
      let new := credentialText includeCredentials s k (pointerAt pointer (path ++ [segment k])) ("body field ".toList ++ k)
      some (.string new.1, new.2)
    else some (.string s, [])
  | .number n =>
    if isNumericCredentialName k then
      let new := credentialText includeCredentials n k (pointerAt pointer (path ++ [segment k])) ("body field ".toList ++ k)
      some (if new.1 ≠ n then put new.1 else .number n, new.2)
    else some (.number n, [])
  | _ => none

mutual

/-- `scrub_json_at`. -/
def scrubAt (path : List Text) : Json → Json × List Entry
  | .object fields =>
    let r := scrubFields path fields
    (.object r.1, r.2)
  | .array items =>
    let r := scrubItems path 0 items
    (.array r.1, r.2)
  | v => (v, [])

def scrubItems (path : List Text) (i : Nat) : List Json → List Json × List Entry
  | [] => ([], [])
  | v :: items =>
    let r := scrubAt (path ++ [Nat.toDigits 10 i]) v
    let rest := scrubItems path (i + 1) items
    (r.1 :: rest.1, r.2 ++ rest.2)

def scrubFields (path : List Text) : List (Text × Json) → List (Text × Json) × List Entry
  | [] => ([], [])
  | (k, v) :: fields =>
    let r := (scrubLeaf includeCredentials put pointer path k v).getD (scrubAt (path ++ [segment k]) v)
    let rest := scrubFields path fields
    ((k, r.1) :: rest.1, r.2 ++ rest.2)

end

end Scrub

/-- `scrub_json`: a number that is replaced becomes a marked string. -/
def scrubJson (includeCredentials : Bool) (pointer : Text) (v : Json) : Json × List Entry :=
  scrubAt includeCredentials (fun p => .string (marked p)) pointer [] v

/-! ## Rendering -/

/-- A whole marked placeholder. -/
def isNumericPlaceholder (s : Text) : Bool :=
  utf8Len numericMark * 2 < utf8Len s && numericMark.isPrefixOf s && numericMark.isSuffixOf s

def collectNumericPlaceholders (v : Json) : List Text := (v.leaves.filterMap asStr).filter isNumericPlaceholder

/-- The placeholder without its marks. -/
def inner (m : Text) : Text := (m.drop numericMark.length).take (m.length - 2 * numericMark.length)

/-- `scan_marked`: the tokens that start with `start` and have a replacement, replaced. -/
def scanMarked (start : Text) (replace : Text → Option Text) (text : Text) : Text :=
  scan (fun token => if start.isPrefixOf token then (replace token).getD token else token) text

/-- The tokens that `scan_marked` asks a replacement for. -/
def candidates (start text : Text) : List Text :=
  (pieces text).filterMap fun p =>
    match p with
    | .token t => if start.isPrefixOf t then some t else none
    | .plain _ => none

/-- The start of a marked string in a text: without the closing quote of the literal. -/
def markStart : Text := (quote numericMark).dropLast

/-- What is written for a token: the placeholder of a marked string, in quotes where the source has the token too. -/
def replacement (numeric : List Text) (source token : Text) : Option Text :=
  (numeric.find? fun m => quote m = token).map fun m =>
    if token ∈ candidates markStart source then quote (inner m) else inner m

/-- `render_json`. -/
def renderJson (v : Json) (pretty : Bool) (source : Text) : Text :=
  let text := serialize pretty v
  let numeric := collectNumericPlaceholders v
  if numeric.isEmpty then text else scanMarked markStart (replacement numeric source) text

end Anvil.Import.Common
