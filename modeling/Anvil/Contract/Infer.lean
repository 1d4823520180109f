import Anvil.Lib.JsonFields
import Anvil.Lib.Wire

/-!
# Schemas inferred from observed JSON (`anvil-contract/src/infer.rs`)

Only the shape of the samples is kept. An object with a key that looks like data is a map, and its keys are not rendered.

* `safeName`, `stringFormats` : what a name may look like, and the formats of a string;
* `Shape` : what was seen at a place; `addAt` : a sample; `merge` : the samples of another place;
* `depth_merge` : merging nests no deeper;
* `Shape.schema`, `markNullable` : a shape as a schema of a dialect; `infer` : the schema of samples.
-/

namespace Anvil.Contract.Infer
open Anvil.Lib Json

/-- `MAX_DEPTH`. -/
def maxDepth : Nat := 16

/-- `MAX_PROPERTIES`. -/
def maxProperties : Nat := 200

/-- `MAX_ITEMS`. -/
def maxItems : Nat := 50

/-- `MAX_NAMED_PROPERTIES`. -/
def maxNamedProperties : Nat := 50

inductive Dialect
  | swagger20
  | openApi30
  | openApi31
  | openApi32
  | openApiUnsupported
  | wsdl11
  | wsdl20
  | postmanV1
  | postmanV20
  | postmanV21
  | postmanEnvironment
  | postmanGlobals
  | insomniaV4
  | insomniaV5
  | curl
  | har
  | unknown
deriving DecidableEq

/-- The dialects with lists of types. -/
def Dialect.modern (d : Dialect) : Bool := d = .openApi31 || d = .openApi32

/-! ## Names and formats -/

def isUpper (c : UInt8) : Bool := 0x41 ≤ c && c ≤ 0x5A

def isLower (c : UInt8) : Bool := 0x61 ≤ c && c ≤ 0x7A

/-- A name that does not look like data. -/
def safeName (n : Text) : Bool :=
  let b := encodeUtf8 n
  let tokenLike := 16 ≤ b.length && b.any isUpper && b.any isLower && b.any isDigit
  !b.isEmpty && b.length ≤ 64 && !b.head?.any isDigit &&
    b.all (fun c => isUpper c || isLower c || isDigit c || [0x5F, 0x2D, 0x2E, 0x24, 0x5B, 0x5D].contains c) &&
    (b.filter isDigit).length < 4 && !tokenLike

/-- The formats, in the order of their names. -/
inductive Format
  | date
  | dateTime
  | email
  | uri
  | uuid
deriving DecidableEq

def Format.name : Format → Text
  | .date => "date".toList
  | .dateTime => "date-time".toList
  | .email => "email".toList
  | .uri => "uri".toList
  | .uuid => "uuid".toList

/-- The bytes from `lo` to `hi` are there and digits. -/
def digitsAt (b : List UInt8) (lo hi : Nat) : Bool := hi ≤ b.length && ((b.drop lo).take (hi - lo)).all isDigit

def isDate (b : List UInt8) : Bool :=
  10 ≤ b.length && digitsAt b 0 4 && b[4]? = some 0x2D && digitsAt b 5 7 && b[7]? = some 0x2D && digitsAt b 8 10

/-- What follows the seconds: a fraction, and `Z` or an offset. -/
def isZone (tz : List UInt8) : Bool :=
  let tz := if tz.head? = some 0x2E then tz.tail.dropWhile isDigit else tz
  tz = [0x5A] || tz = [0x7A] ||
    (tz.length = 6 && (tz.head? = some 0x2B || tz.head? = some 0x2D) && tz[3]? = some 0x3A)

def isDateTime (b : List UInt8) : Bool :=
  isDate b && 19 < b.length && (b[10]? = some 0x54 || b[10]? = some 0x74) && digitsAt b 11 13 && b[13]? = some 0x3A &&
    digitsAt b 14 16 && b[16]? = some 0x3A && digitsAt b 17 19 && isZone (b.drop 19)

def isAsciiHexDigit (c : Char) : Bool := c.isDigit || ('a' ≤ c && c ≤ 'f') || ('A' ≤ c && c ≤ 'F')

/-- `char_indices`. -/
def charIndices : Nat → Text → List (Nat × Char)
  | _, [] => []
  | i, c :: t => (i, c) :: charIndices (i + c.utf8Size) t

def Format.valid (s : Text) : Format → Bool
  | .date => isDate (encodeUtf8 s) && (encodeUtf8 s).length = 10
  | .dateTime => isDateTime (encodeUtf8 s)
  | .uuid => (encodeUtf8 s).length = 36 &&
      (charIndices 0 s).all fun p => if p.1 ∈ [8, 13, 18, 23] then p.2 = '-' else isAsciiHexDigit p.2
  | .email =>
    match splitOnce '@' s with
    | some (before, domain) => !before.isEmpty && domain.contains '.' && !s.any isWhitespace && !domain.contains '@'
    | none => false
  | .uri => ("https://".toList.isPrefixOf s || "http://".toList.isPrefixOf s) && !s.any isWhitespace &&
      8 < (encodeUtf8 s).length

/-- Formats a string is valid for. -/
def stringFormats (s : Text) : List Format := [.date, .dateTime, .email, .uri, .uuid].filter fun f => f.valid s

/-- `is_i64() || is_u64()`: a number written as an integer that one of them holds. -/
def isInteger : Text → Bool
  | '-' :: t => (digitsOf t).any fun n => 0 < n && n ≤ 2 ^ 63
  | t => (digitsOf t).any fun n => n < 2 ^ 64

/-! ## Shapes -/

/-- An accumulating shape; a property has its name, how often it was present, and its shape. -/
structure Shape where
  samples : Nat := 0
  nulls : Nat := 0
  booleans : Nat := 0
  integers : Nat := 0
  numbers : Nat := 0
  strings : Nat := 0
  formats : Option (List Format) := none
  arrays : Nat := 0
  items : Option Shape := none
  objects : Nat := 0
  properties : List (Text × Nat × Shape) := []
  /-- Some key looked like data: the object is a map. -/
  mapLike : Bool := false
  truncated : Bool := false

abbrev Properties := List (Text × Nat × Shape)

/-- A property that is there is updated; a new one is kept while there is room. -/
def keep (acc : Properties × Bool) (k : Text) (update : Nat × Shape → Nat × Shape) (fresh : Nat × Shape) :
    Properties × Bool :=
  match acc.1.findIdx? fun p => p.1 = k with
  | some i => (acc.1.modify i fun p => (p.1, update p.2), acc.2)
  | none => if acc.1.length < maxProperties then (acc.1 ++ [(k, fresh)], acc.2) else (acc.1, true)

namespace Shape

theorem sizeOf_items {s i : Shape} (h : s.items = some i) : sizeOf i < sizeOf s := by
  cases s
  simp only at h
  subst h
  simp only [mk.sizeOf_spec, Option.some.sizeOf_spec]
  omega

theorem sizeOf_property {s : Shape} {p : Text × Nat × Shape} (h : p ∈ s.properties) : sizeOf p.2.2 < sizeOf s := by
  have hp := List.sizeOf_lt_of_mem h
  cases s
  obtain ⟨k, n, q⟩ := p
  simp only [Prod.mk.sizeOf_spec] at hp
  simp only [mk.sizeOf_spec]
  omega

/-- Induction over a shape and the shapes in it. -/
theorem ind {P : Shape → Prop} (h : ∀ s : Shape, (∀ i, s.items = some i → P i) → (∀ p ∈ s.properties, P p.2.2) → P s)
    (s : Shape) : P s :=
  h s (fun i _hi => ind h i) fun p _hp => ind h p.2.2
termination_by sizeOf s
decreasing_by
  · exact sizeOf_items _hi
  · exact sizeOf_property _hp

mutual

/-- A sample at a nesting depth. -/
def addAt (s : Shape) (depth : Nat) : Json → Shape
  | .null =>
    if maxDepth < depth then { s with samples := s.samples + 1, truncated := true }
    else { s with samples := s.samples + 1, nulls := s.nulls + 1 }
  | .bool _ =>
    if maxDepth < depth then { s with samples := s.samples + 1, truncated := true }
    else { s with samples := s.samples + 1, booleans := s.booleans + 1 }
  | .number n =>
    if maxDepth < depth then { s with samples := s.samples + 1, truncated := true }
    else if isInteger n then { s with samples := s.samples + 1, integers := s.integers + 1 }
    else { s with samples := s.samples + 1, numbers := s.numbers + 1 }
  | .string t =>
    if maxDepth < depth then { s with samples := s.samples + 1, truncated := true }
    else
      let found := stringFormats t
      let both := s.formats.elim found fun prev => prev.filter fun f => f ∈ found
      { s with samples := s.samples + 1, strings := s.strings + 1, formats := some both }
  | .array a =>
    if maxDepth < depth then { s with samples := s.samples + 1, truncated := true }
    else
      let items := addItems (s.items.getD {}) (depth + 1) maxItems a
      { s with samples := s.samples + 1, arrays := s.arrays + 1, items := some items }
  | .object o =>
    if maxDepth < depth then { s with samples := s.samples + 1, truncated := true }
    else
      let kept := addFields (s.properties, s.truncated) (depth + 1) o
      let data := o.any (fun f => !safeName f.1) || maxNamedProperties < o.length
      { s with samples := s.samples + 1, objects := s.objects + 1, mapLike := s.mapLike || data, properties := kept.1,
               truncated := kept.2 }

/-- The first items of a list, up to a number of them. -/
def addItems (s : Shape) (depth : Nat) : Nat → List Json → Shape
  | n + 1, x :: items => addItems (s.addAt depth x) depth n items
  | _, _ => s

def addFields (acc : Properties × Bool) (depth : Nat) : List (Text × Json) → Properties × Bool
  | [] => acc
  | (k, x) :: fields =>
    addFields (keep acc k (fun p => (p.1 + 1, p.2.addAt depth x)) (1, addAt {} depth x)) depth fields

end

def add (s : Shape) (v : Json) : Shape := s.addAt 0 v

/-- Fold the samples of another shape of the same place in. -/
def merge (self other : Shape) : Shape :=
  let formats := match self.formats, other.formats with
    | none, f => f
    | f, none => f
    | some a, some b => some (a.filter fun f => f ∈ b)
  let items := match _h : other.items with
    | some oi => some (merge (self.items.getD {}) oi)
    | none => self.items
  let kept := other.properties.foldl (fun acc q => keep acc q.1 (fun p => (p.1 + q.2.1, p.2.merge q.2.2)) q.2)
    (self.properties, self.truncated || other.truncated)
  { samples := self.samples + other.samples, nulls := self.nulls + other.nulls, booleans := self.booleans + other.booleans,
    integers := self.integers + other.integers, numbers := self.numbers + other.numbers,
    strings := self.strings + other.strings, formats := formats, arrays := self.arrays + other.arrays, items := items,
    objects := self.objects + other.objects, properties := kept.1, mapLike := self.mapLike || other.mapLike,
    truncated := kept.2 }
termination_by sizeOf other
decreasing_by
  · exact sizeOf_items _h
  · exact sizeOf_property (by assumption)

/-- What a shape nests. -/
def depth (s : Shape) : Nat :=
  let items := match _h : s.items with
    | some i => i.depth
    | none => 0
  1 + max items ((s.properties.map fun p => p.2.2.depth).foldr max 0)
termination_by sizeOf s
decreasing_by
  · exact sizeOf_items _h
  · exact sizeOf_property (by assumption)

theorem depth_le {s : Shape} {n : Nat} : s.depth ≤ n + 1 ↔
    (∀ i, s.items = some i → i.depth ≤ n) ∧ ∀ p ∈ s.properties, p.2.2.depth ≤ n := by
  have hfold (l : List Nat) : l.foldr max 0 ≤ n ↔ ∀ m ∈ l, m ≤ n := by
    induction l with
    | nil => simp
    | cons m l ih => rw [List.foldr_cons, max_le_iff, ih, List.forall_mem_cons]
  rw [depth, Nat.add_comm, Nat.add_le_add_iff_right, max_le_iff, hfold, List.forall_mem_map]
  refine and_congr_left fun _ => ?_
  split
  · rename_i i h
    simp [h]
  · rename_i h
    simp [h]

theorem depth_pos (s : Shape) : 0 < s.depth := by
  rw [depth]
  omega

theorem depth_item {s i : Shape} (h : s.items = some i) : i.depth < s.depth := by
  obtain ⟨n, hn⟩ : ∃ n, s.depth = n + 1 := Nat.exists_eq_succ_of_ne_zero s.depth_pos.ne'
  have := (depth_le.1 hn.le).1 i h
  omega

theorem depth_property {s : Shape} {p : Text × Nat × Shape} (h : p ∈ s.properties) : p.2.2.depth < s.depth := by
  obtain ⟨n, hn⟩ : ∃ n, s.depth = n + 1 := Nat.exists_eq_succ_of_ne_zero s.depth_pos.ne'
  have := (depth_le.1 hn.le).2 p h
  omega

end Shape

/-- What is so of every property once one is kept. -/
theorem forall_mem_keep {P : Text → Shape → Prop} {acc : Properties × Bool} {k : Text} {update : Nat × Shape → Nat × Shape}
    {fresh : Nat × Shape} (hacc : ∀ p ∈ acc.1, P p.1 p.2.2) (hupdate : ∀ p, P k p.2 → P k (update p).2)
    (hfresh : P k fresh.2) :
    ∀ p ∈ (keep acc k update fresh).1, P p.1 p.2.2 := by
  unfold keep
  split
  · rename_i i hi
    obtain ⟨hlt, hname, -⟩ := List.findIdx?_eq_some_iff_getElem.1 hi
    intro p hp
    rw [List.mem_iff_getElem] at hp
    obtain ⟨j, hj, rfl⟩ := hp
    rw [List.length_modify] at hj
    rw [List.getElem_modify]
    split_ifs with hij
    · subst hij
      have hk : acc.1[i].1 = k := by simpa using hname
      have := hacc acc.1[i] (List.getElem_mem hlt)
      rw [hk] at this ⊢
      exact hupdate _ this
    · exact hacc _ (List.getElem_mem hj)
  · split_ifs
    · intro p hp
      rcases List.mem_append.1 hp with hp | hp
      · exact hacc p hp
      · rw [List.mem_singleton.1 hp]
        exact hfresh
    · exact hacc

namespace Shape

section Merge
variable {a b : Shape}

theorem items_merge : (a.merge b).items = b.items.elim a.items fun oi => some ((a.items.getD {}).merge oi) := by
  rw [merge]
  simp only
  split
  · rename_i h
    rw [h]
    rfl
  · rename_i h
    rw [h]
    rfl

theorem mapLike_merge : (a.merge b).mapLike = (a.mapLike || b.mapLike) := by
  rw [merge]

/-- What is so of every property of two shapes, and kept by merging, is so of every property of the merged one. -/
theorem forall_mem_merge {P : Text → Shape → Prop} (ha : ∀ p ∈ a.properties, P p.1 p.2.2)
    (hb : ∀ q ∈ b.properties, P q.1 q.2.2) (hmerge : ∀ k s, P k s → ∀ q ∈ b.properties, P k q.2.2 → P k (s.merge q.2.2)) :
    ∀ p ∈ (a.merge b).properties, P p.1 p.2.2 := by
  have hfold : ∀ (l : Properties) (acc : Properties × Bool), (∀ q ∈ l, q ∈ b.properties) → (∀ p ∈ acc.1, P p.1 p.2.2) →
      ∀ p ∈ (l.foldl (fun acc q => keep acc q.1 (fun p => (p.1 + q.2.1, p.2.merge q.2.2)) q.2) acc).1, P p.1 p.2.2 := by
    intro l
    induction l with
    | nil => exact fun _ _ hacc => hacc
    | cons q l ih =>
      intro acc hl hacc
      obtain ⟨hq, hl⟩ := List.forall_mem_cons.1 hl
      exact ih _ hl (forall_mem_keep hacc (fun p hp => hmerge q.1 p.2 hp q hq (hb q hq)) (hb q hq))
  rw [merge]
  exact hfold b.properties _ (fun q hq => hq) ha

end Merge

theorem depth_default : (({} : Shape)).depth = 1 := by
  rw [depth]
  rfl

/-- **Merging nests no deeper** than the two shapes. -/
theorem depth_merge {n : Nat} : ∀ {a b : Shape}, a.depth ≤ n → b.depth ≤ n → (a.merge b).depth ≤ n := by
  induction n with
  | zero =>
    intro a b ha
    exact absurd ha (Nat.not_le_of_lt a.depth_pos)
  | succ n ih =>
    intro a b ha hb
    obtain ⟨haitems, haproperties⟩ := depth_le.1 ha
    obtain ⟨hbitems, hbproperties⟩ := depth_le.1 hb
    refine depth_le.2 ⟨fun i hi => ?_, ?_⟩
    · rw [items_merge] at hi
      cases hoi : b.items with
      | none =>
        rw [hoi] at hi
        exact haitems i hi
      | some oi =>
        rw [hoi] at hi
        obtain rfl := Option.some.inj hi
        have hn := hbitems oi hoi
        refine ih ?_ hn
        cases hai : a.items with
        | none =>
          rw [Option.getD_none, depth_default]
          exact oi.depth_pos.trans_le hn
        | some ai => exact haitems ai hai
    · exact forall_mem_merge (P := fun _ s => s.depth ≤ n) haproperties hbproperties
        fun k s hs q _ hq => ih hs hq

/-- The merged shapes of a map's values, which nest less than the map. -/
def values (s : Shape) : Shape := s.properties.foldl (fun acc p => acc.merge p.2.2) {}

theorem depth_values {s : Shape} (h : s.values.samples ≠ 0) : s.values.depth < s.depth := by
  have hne : s.properties ≠ [] := by
    intro hnil
    unfold values at h
    rw [hnil] at h
    exact h rfl
  obtain ⟨n, hn⟩ : ∃ n, s.depth = n + 1 := Nat.exists_eq_succ_of_ne_zero s.depth_pos.ne'
  obtain ⟨-, hproperties⟩ := depth_le.1 hn.le
  have hfold : ∀ (l : Properties) (acc : Shape), (∀ p ∈ l, p.2.2.depth ≤ n) → acc.depth ≤ n →
      (l.foldl (fun acc p => acc.merge p.2.2) acc).depth ≤ n := by
    intro l
    induction l with
    | nil => exact fun _ _ hacc => hacc
    | cons p l ih =>
      intro acc hl hacc
      obtain ⟨hp, hl⟩ := List.forall_mem_cons.1 hl
      exact ih _ hl (depth_merge hacc hp)
  have hone : (({} : Shape)).depth ≤ n := by
    obtain ⟨p, hp⟩ := List.exists_mem_of_ne_nil _ hne
    rw [depth_default]
    exact p.2.2.depth_pos.trans_le (hproperties p hp)
  have := hfold s.properties {} hproperties hone
  unfold values
  omega

/-! ## Schemas -/

end Shape

/-- The JSON types, as they are listed. -/
inductive TypeName
  | object
  | array
  | string
  | number
  | integer
  | boolean
deriving DecidableEq

def TypeName.name : TypeName → Text
  | .object => "object".toList
  | .array => "array".toList
  | .string => "string".toList
  | .number => "number".toList
  | .integer => "integer".toList
  | .boolean => "boolean".toList

/-- A JSON object of one field. -/
def single (k : String) (v : Json) : Json := .object [(k.toList, v)]

/-- A `const` becomes an `enum`; with an `enum` too, only what both allow is kept. -/
def constToEnum (o : List (Text × Json)) : List (Text × Json) :=
  match lookup o "const".toList with
  | some c =>
    let allowed := match lookup (remove o "const".toList) "enum".toList with
      | some (.array values) => if values.any fun v => v.same c then [c] else []
      | _ => [c]
    insert (remove o "const".toList) "enum".toList (.array allowed)
  | none => o

/-- `v` among the items of a list. -/
def pushed (items : List Json) (v : Json) : List Json := if items.any fun x => x.same v then items else items ++ [v]

def enumNull (o : List (Text × Json)) : List (Text × Json) :=
  match lookup o "enum".toList with
  | some (.array e) => setField o "enum".toList (.array (pushed e .null))
  | _ => o

def isListed (o : List (Text × Json)) : Bool :=
  match lookup o "enum".toList with
  | some (.array _) => true
  | _ => false

/-- `null` among the types. -/
def typeNull (o : List (Text × Json)) : Json :=
  let anyOf := single "anyOf" (.array [.object o, single "type" (.string "null".toList)])
  match lookup o "type".toList with
  | some (.string t) => .object (insert o "type".toList (.array [.string t, .string "null".toList]))
  | some (.array a) => .object (insert o "type".toList (.array (pushed a (.string "null".toList))))
  | some _ => anyOf
  | none => if isListed o then .object o else anyOf

/-- Allow `null` on a schema, in the dialect's own way. -/
def markNullable (s : Json) (d : Dialect) : Json :=
  match s with
  | .object o =>
    if d.modern then typeNull (enumNull (constToEnum o))
    else if d = .swagger20 then .object (insert (enumNull o) "x-nullable".toList (.bool true))
    else .object (insert (enumNull o) "nullable".toList (.bool true))
  | s => s

def nullSchema (d : Dialect) : Json :=
  if d.modern then single "type" (.string "null".toList)
  else if d = .swagger20 then single "x-nullable" (.bool true)
  else single "nullable" (.bool true)

namespace Shape

def types (s : Shape) : List TypeName :=
  (if 0 < s.objects then [.object] else []) ++ (if 0 < s.arrays then [.array] else []) ++
    (if 0 < s.strings then [.string] else []) ++
    (if 0 < s.numbers then [.number] else if 0 < s.integers then [.integer] else []) ++
    (if 0 < s.booleans then [.boolean] else [])

/-- The part of a shape of one JSON type. -/
def only (s : Shape) (t : TypeName) : Shape :=
  { s with
    nulls := 0
    objects := if t = .object then s.objects else 0
    properties := if t = .object then s.properties else []
    arrays := if t = .array then s.arrays else 0
    items := if t = .array then s.items else none
    strings := if t = .string then s.strings else 0
    numbers := if t = .number ∨ t = .integer then s.numbers else 0
    integers := if t = .number ∨ t = .integer then s.integers else 0
    booleans := if t = .boolean then s.booleans else 0 }

theorem length_types_only (s : Shape) (t : TypeName) : (s.only t).types.length ≤ 1 := by
  cases t <;> simp only [types, only, reduceCtorEq, if_true, if_false, or_false, or_true, Nat.lt_irrefl,
    List.append_nil, List.nil_append] <;> split_ifs <;> decide

theorem depth_only (s : Shape) (t : TypeName) : (s.only t).depth ≤ s.depth := by
  obtain ⟨n, hn⟩ : ∃ n, s.depth = n + 1 := Nat.exists_eq_succ_of_ne_zero s.depth_pos.ne'
  obtain ⟨hitems, hproperties⟩ := depth_le.1 hn.le
  rw [hn]
  refine depth_le.2 ⟨fun i hi => ?_, fun p hp => ?_⟩
  · simp only [only] at hi
    split_ifs at hi
    exact hitems i hi
  · simp only [only] at hp
    split_ifs at hp
    · exact hproperties p hp
    · cases hp

theorem lex_only {s : Shape} (h : 1 < s.types.length) (t : TypeName) :
    Prod.Lex (· < ·) (· < ·) ((s.only t).depth, (s.only t).types.length) (s.depth, s.types.length) := by
  rcases (depth_only s t).lt_or_eq with hless | heq
  · exact Prod.Lex.left _ _ hless
  · rw [heq]
    exact Prod.Lex.right _ ((length_types_only s t).trans_lt h)

/-- Induction over the shapes that rendering a shape renders. -/
theorem renderInd {P : Shape → Prop} (h : ∀ s : Shape, (1 < s.types.length → ∀ t, P (s.only t)) →
    (s.values.samples ≠ 0 → P s.values) → (∀ p ∈ s.properties, P p.2.2) → (∀ i, s.items = some i → P i) → P s)
    (s : Shape) : P s :=
  h s (fun _hmany t => renderInd h (s.only t)) (fun _hvalues => renderInd h s.values) (fun p _hp => renderInd h p.2.2)
    fun i _hi => renderInd h i
termination_by (s.depth, s.types.length)
decreasing_by
  · exact lex_only _hmany t
  · exact Prod.Lex.left _ _ (depth_values _hvalues)
  · exact Prod.Lex.left _ _ (depth_property _hp)
  · exact Prod.Lex.left _ _ (depth_item _hi)

def typeNames (l : List TypeName) : Json :=
  match l with
  | [one] => .string one.name
  | many => .array (many.map fun t => .string t.name)

def formatField (s : Shape) : List (Text × Json) :=
  if .string ∈ s.types then (s.formats.bind List.head?).toList.map fun f => ("format".toList, .string f.name) else []

def nullableIf (b : Bool) (d : Dialect) (v : Json) : Json := if b then markNullable v d else v

/-- A shape as a Schema Object of a dialect. -/
def schema (s : Shape) (d : Dialect) : Json :=
  if s.types = [] then if 0 < s.nulls then nullSchema d else .object []
  else if _hmany : 1 < s.types.length ∧ d.modern = false then
    if d = .swagger20 then if 0 < s.nulls then single "x-nullable" (.bool true) else .object []
    else nullableIf (0 < s.nulls) d (single "oneOf" (.array (s.types.map fun t => (s.only t).schema d)))
  else
    let members :=
      if 0 < s.objects ∧ (s.mapLike ∨ maxNamedProperties < s.properties.length) then
        [("additionalProperties".toList, if _h : s.values.samples = 0 then .object [] else s.values.schema d)]
      else if 0 < s.objects then
        let props := s.properties.foldl (fun o p => insert o p.1 (p.2.2.schema d)) []
        let required := (s.properties.filter fun p => p.2.1 = s.objects).map fun p => Json.string p.1
        ("properties".toList, .object props) :: if required = [] then [] else [("required".toList, .array required)]
      else []
    let elements :=
      if 0 < s.arrays then
        [("items".toList, match _h : s.items with
          | some i => i.schema d
          | none => .object [])]
      else []
    nullableIf (0 < s.nulls) d (.object (("type".toList, typeNames s.types) :: (s.formatField ++ members ++ elements)))
termination_by (s.depth, s.types.length)
decreasing_by
  · exact lex_only _hmany.1 _
  · exact Prod.Lex.left _ _ (depth_values _h)
  · exact Prod.Lex.left _ _ (depth_property (by assumption))
  · exact Prod.Lex.left _ _ (depth_item _h)

end Shape

/-- The schema of samples. -/
def infer (samples : List Json) (d : Dialect) : Json := (samples.foldl Shape.add {}).schema d

end Anvil.Contract.Infer
