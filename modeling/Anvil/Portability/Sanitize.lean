import Anvil.Lib.Json
import Anvil.Lib.Run

/-!
# Export sanitization (`anvil-portability/src/sanitize.rs`)

Sensitive literals leave the object graph before it is exported: each is replaced by a placeholder, and the originals are
listed with the pointers they were taken from.

* `isPureReference` : the texts that may stay; `placeholderName` : what is written in place of the others;
* `isTemplate`, `isVariable`, `isKeyValue` : the shapes that hold a sensitive text, told by their fields;
* `walk`, `sanitize` : the walk over a value; it does not go into the shapes it recognises;
* `restore` : the values put back, all or none.
-/

namespace Anvil.Portability
open Anvil.Lib Anvil.Lib.Json

structure Extracted where
  pointer : Text
  placeholder : Text
  value : Text
deriving DecidableEq

structure ContentWarning where
  pointer : Text
  reason : Text

/-- The `regex` crate: what in a free text looks like a credential, and which kind. -/
class CredentialPatterns where
  looksLikeCredential : Text → Option Text

/-! ## Names and references -/

def sensitiveParts : List Text :=
  ["password".toList, "passwd".toList, "secret".toList, "token".toList, "apikey".toList, "api_key".toList, "api-key".toList,
    "authorization".toList, "cookie".toList, "session".toList, "private".toList, "credential".toList, "signature".toList,
    "x-api-key".toList]

def sensitiveName (n : Text) : Bool := sensitiveParts.any fun p => contains (lower n) p

def opening : Text := ['{', '{']

def closing : Text := ['}', '}']

/-- The matches of `opening`, from the left and not overlapping. -/
def openings : Text → Nat
  | '{' :: '{' :: t => openings t + 1
  | _ :: t => openings t
  | [] => 0

def isPureReference (s : Text) : Bool :=
  let t := trim s
  t.isEmpty || (opening.isPrefixOf t && closing.isSuffixOf t && openings t = 1)

/-- `replace("__", "_")`. -/
def replaceDouble : Text → Text
  | '_' :: '_' :: t => '_' :: replaceDouble t
  | c :: t => c :: replaceDouble t
  | [] => []

/-- The loop of `placeholder_name`, at most `n` times. -/
def squeeze : Nat → Text → Text
  | 0, t => t
  | n + 1, t => if contains t ['_', '_'] then squeeze n (replaceDouble t) else t

def trimUnderscores (t : Text) : Text := (((t.dropWhile (· = '_')).reverse).dropWhile (· = '_')).reverse

def placeholderName (hint : Text) : Text :=
  let out := hint.map fun c => if c.isAlphanum then c.toLower else '_'
  let out := trimUnderscores (squeeze out.length out)
  if out.isEmpty then "secret_value".toList else "secret_".toList ++ out

/-- What is written in place of an extracted value. -/
def placeholderText (placeholder : Text) : Text :=
  if placeholder.isEmpty then [] else opening ++ placeholder ++ closing

/-! ## Shapes -/

section Shapes
variable (fields : List (Text × Json))

def strField (k : Text) : Option Text := (lookup fields k).bind asStr

def boolField (k : Text) : Bool := ((lookup fields k).bind asBool).getD false

def kindKey : Text := "kind".toList

def valueKey : Text := "value".toList

def nameKey : Text := "name".toList

def templateKind : Text := "template".toList

/-- A `SensitiveValue::Template`. -/
def isTemplate : Bool :=
  strField fields kindKey = some templateKind && fields.length = 2 && (lookup fields valueKey).any isString

/-- A `Variable`. -/
def isVariable : Bool :=
  (lookup fields nameKey).isSome && (lookup fields "secret".toList).isSome && (lookup fields valueKey).any isObject

/-- A `KeyValue`. -/
def isKeyValue : Bool :=
  (lookup fields nameKey).isSome && (lookup fields valueKey).any isString && (lookup fields "enabled".toList).isSome

/-- An object that the walk goes into. -/
def isPlain : Bool := !isTemplate fields && !isVariable fields && !isKeyValue fields

end Shapes

/-! ## The walk -/

structure Sanitized where
  extracted : List Extracted := []
  warnings : List ContentWarning := []

def Sanitized.append (a b : Sanitized) : Sanitized := ⟨a.extracted ++ b.extracted, a.warnings ++ b.warnings⟩

def freeTextRemediation : Text :=
  ("it is exported as written and stays readable in share-safely and encrypted-transfer bundles alike (encrypted transfer " ++
    "seals only vault secrets and extracted fields) — remove it, or move it into a secret variable or a sensitive " ++
    "header/parameter; only a full backup encrypts it").toList

def freeTextFields : List Text :=
  ["text".toList, "url".toList, "query".toList, "envelope".toList, "variables".toList, "extra_json".toList]

/-- The `value` field is replaced by a placeholder. -/
def extractValue (fields : List (Text × Json)) (ptr placeholder value : Text) : Json × Sanitized :=
  (.object (setField fields valueKey (.string (opening ++ placeholder ++ closing))),
    { extracted := [⟨ptr ++ "/value".toList, placeholder, value⟩] })

def walkTemplate (fields : List (Text × Json)) (ptr key : Text) : Json × Sanitized :=
  let val := (strField fields valueKey).getD []
  if isPureReference val then (.object fields, {}) else extractValue fields ptr (placeholderName key) val

/-- The name of a name/value field, and whether its value is sensitive. -/
def keyValueName (fields : List (Text × Json)) : Text := (strField fields nameKey).getD []

def keyValueSensitive (fields : List (Text × Json)) : Bool :=
  boolField fields "sensitive".toList || sensitiveName (keyValueName fields)

section Walk
variable [CredentialPatterns]
open CredentialPatterns

def walkVariable (fields : List (Text × Json)) (ptr : Text) : Json × Sanitized :=
  let secret := boolField fields "secret".toList
  let name := (strField fields nameKey).getD []
  match lookup fields valueKey with
  | some val =>
    let isTpl := (val.child kindKey).bind asStr = some templateKind
    let text := ((val.child valueKey).bind asStr).getD []
    if secret && isTpl && !isPureReference text then
      (.object (setField fields valueKey (val.putChild valueKey (.string []))),
        { extracted := [⟨ptr ++ "/value/value".toList, [], text⟩] })
    else if !secret && isTpl && (sensitiveName name || (looksLikeCredential text).isSome) && !text.isEmpty &&
        !isPureReference text then
      (.object fields, { warnings := [⟨ptr, "variable '".toList ++ name ++
        "' looks sensitive but is not marked secret; it is exported as-is".toList⟩] })
    else (.object fields, {})
  | none => (.object fields, {})

def walkKeyValue (fields : List (Text × Json)) (ptr : Text) : Json × Sanitized :=
  let name := keyValueName fields
  let val := (strField fields valueKey).getD []
  if keyValueSensitive fields && !isPureReference val then extractValue fields ptr (placeholderName name) val
  else
    match looksLikeCredential val with
    | some why => (.object fields, { warnings := [⟨ptr, "'".toList ++ name ++ "' ".toList ++ why⟩] })
    | none => (.object fields, {})

/-- A free-text field is scanned, not changed. -/
def scanText (ptr k text : Text) : Sanitized :=
  if freeTextFields.any fun f => f = k then
    match looksLikeCredential text with
    | some why => { warnings := [⟨ptr, k ++ " ".toList ++ why ++ "; ".toList ++ freeTextRemediation⟩] }
    | none => {}
  else {}

mutual

def walk : Json → Text → Text → Json × Sanitized
  | .object fields, ptr, key =>
    if isTemplate fields then walkTemplate fields ptr key
    else if isVariable fields then walkVariable fields ptr
    else if isKeyValue fields then walkKeyValue fields ptr
    else
      let (fields', s) := walkFields fields ptr
      (.object fields', s)
  | .array items, ptr, key =>
    let (items', s) := walkItems items ptr key 0
    (.array items', s)
  | v, _, _ => (v, {})

def walkFields : List (Text × Json) → Text → List (Text × Json) × Sanitized
  | [], _ => ([], {})
  | (k, v) :: fields, ptr =>
    let (v', s) := match asStr v with
      | some text => (v, scanText (ptr ++ '/' :: escapePtr k) k text)
      | none => walk v (ptr ++ '/' :: escapePtr k) k
    let (fields', s') := walkFields fields ptr
    ((k, v') :: fields', s.append s')

def walkItems : List Json → Text → Text → Nat → List Json × Sanitized
  | [], _, _, _ => ([], {})
  | v :: items, ptr, key, i =>
    let (v', s) := walk v (ptr ++ '/' :: Nat.toDigits 10 i) key
    let (items', s') := walkItems items ptr key (i + 1)
    (v' :: items', s.append s')

end

def sanitize (v : Json) : Json × Sanitized := walk v [] []

end Walk

/-! ## Restoring -/

def vaultRefers (pointer what : Text) : Text := "encrypted vault refers to ".toList ++ pointer ++ what

/-- One value goes back to its field, if that holds its placeholder. -/
def restoreOne (root : Json) (e : Extracted) : Except Text Json :=
  match root.pointer e.pointer with
  | some (.string slot) =>
    if slot = placeholderText e.placeholder then .ok (root.put ((tokens e.pointer).getD []) (.string e.value))
    else .error (vaultRefers e.pointer ", which does not hold its placeholder".toList)
  | some _ => .error (vaultRefers e.pointer ", which does not hold its placeholder".toList)
  | none => .error (vaultRefers e.pointer " which does not exist in the bundle".toList)

/-- The value after the call, and its result. -/
def restore (v : Json) (extracted : List Extracted) : Json × Except Text Unit :=
  match runOps restoreOne v extracted with
  | .ok restored => (restored, .ok ())
  | .error e => (v, .error e)

end Anvil.Portability
