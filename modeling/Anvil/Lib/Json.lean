import Anvil.Lib.Strings

/-!
# JSON values and JSON pointers

* `Json` : a value; the fields of an object in their order; `Json.ind` : induction over all parts of a value;
* `Json.Distinct` : no object names a field twice;
* `child`, `get`, `put` : the part of a value at a path, and the value with that part replaced; their laws
  (`get_put`, `put_put`, `put_get`, `get_append`, `put_append`);
* `escapePtr`, `tokens`, `pointer` : a pointer is a text; `tokens_render` : reading one back;
* `text_put` : writing over one string leaves every other string alone;
* `compact` : a value as `to_string` writes it.
-/

namespace Anvil.Lib

inductive Json
  | null
  | bool (b : Bool)
  | number (n : Text)
  | string (t : Text)
  | array (items : List Json)
  | object (fields : List (Text × Json))

namespace Json

/-- Induction over a value and everything in it. -/
theorem ind {P : Json → Prop} (null : P null) (bool : ∀ b, P (bool b)) (number : ∀ n, P (number n))
    (string : ∀ t, P (string t)) (array : ∀ items, (∀ v ∈ items, P v) → P (array items))
    (object : ∀ fields, (∀ f ∈ fields, P f.2) → P (object fields)) (v : Json) : P v := by
  refine @Json.rec P (fun items => ∀ v ∈ items, P v) (fun fields => ∀ f ∈ fields, P f.2) (fun f => P f.2)
    null bool number string (fun items h => array items h) (fun fields h => object fields h) (by simp) ?_ (by simp) ?_
    (fun _ _ h => h) v
  · intro head tail hhead htail
    exact List.forall_mem_cons.2 ⟨hhead, htail⟩
  · intro head tail hhead htail
    exact List.forall_mem_cons.2 ⟨hhead, htail⟩

mutual

/-- No object has two fields of one name. -/
def Distinct : Json → Prop
  | .array items => DistinctItems items
  | .object fields => (fields.map Prod.fst).Nodup ∧ DistinctFields fields
  | _ => True

def DistinctItems : List Json → Prop
  | [] => True
  | v :: items => Distinct v ∧ DistinctItems items

def DistinctFields : List (Text × Json) → Prop
  | [] => True
  | (_, v) :: fields => Distinct v ∧ DistinctFields fields

end

theorem distinctItems_iff {items : List Json} : DistinctItems items ↔ ∀ v ∈ items, v.Distinct := by
  induction items with
  | nil => simp [DistinctItems]
  | cons v items ih => simp [DistinctItems, ih]

theorem distinctFields_iff {fields : List (Text × Json)} : DistinctFields fields ↔ ∀ f ∈ fields, f.2.Distinct := by
  induction fields with
  | nil => simp [DistinctFields]
  | cons f fields ih => simp [DistinctFields, ih]

def asStr : Json → Option Text
  | .string t => some t
  | _ => none

def asBool : Json → Option Bool
  | .bool b => some b
  | _ => none

def isString : Json → Bool
  | .string _ => true
  | _ => false

def isObject : Json → Bool
  | .object _ => true
  | _ => false

/-! ## Parts of a value -/

/-- An array index as a text: decimal, without sign or leading zero. -/
def parseIndex (t : Text) : Option Nat :=
  let n := Nat.ofDigitChars 10 t 0
  if Nat.toDigits 10 n = t then some n else none

@[simp] theorem parseIndex_toDigits (n : Nat) : parseIndex (Nat.toDigits 10 n) = some n := by
  unfold parseIndex
  rw [Nat.ofDigitChars_toDigits (by omega) (by omega)]
  simp

theorem parseIndex_eq_some {t : Text} {n : Nat} (h : parseIndex t = some n) : t = Nat.toDigits 10 n := by
  unfold parseIndex at h
  dsimp only at h
  split_ifs at h with ht
  rw [← Option.some.inj h, ht]

def lookup (fields : List (Text × Json)) (k : Text) : Option Json := (fields.find? fun f => f.1 = k).map Prod.snd

/-- The first field of the name, replaced. -/
def setField : List (Text × Json) → Text → Json → List (Text × Json)
  | [], _, _ => []
  | f :: fields, k, w => if f.1 = k then (f.1, w) :: fields else f :: setField fields k w

/-- The member of a container that a token names. -/
def child (v : Json) (token : Text) : Option Json :=
  match v with
  | .object fields => lookup fields token
  | .array items => (parseIndex token).bind fun i => items[i]?
  | _ => none

def putChild (v : Json) (token : Text) (w : Json) : Json :=
  match v with
  | .object fields => .object (setField fields token w)
  | .array items => .array (match parseIndex token with
      | some i => items.set i w
      | none => items)
  | v => v

/-- The part of a value at a path of tokens. -/
def get (v : Json) : List Text → Option Json
  | [] => some v
  | t :: path => (v.child t).bind fun c => c.get path

/-- The value with the part at the path replaced, where there is one. -/
def put (v : Json) (path : List Text) (w : Json) : Json :=
  match path with
  | [] => w
  | t :: path =>
    match v.child t with
    | some c => v.putChild t (c.put path w)
    | none => v

section Fields
variable {fields : List (Text × Json)} {k k' : Text} {c w w' : Json}

theorem lookup_cons (f : Text × Json) : lookup (f :: fields) k = if f.1 = k then some f.2 else lookup fields k := by
  unfold lookup
  rw [List.find?_cons]
  by_cases h : f.1 = k <;> simp [h]

theorem lookup_setField : lookup (setField fields k w) k' =
    if k' = k then (lookup fields k).map fun _ => w else lookup fields k' := by
  induction fields with
  | nil => simp [setField, lookup]
  | cons f fields ih =>
    unfold setField
    by_cases hf : f.1 = k
    · subst hf
      rw [if_pos rfl, lookup_cons, lookup_cons, lookup_cons]
      by_cases hk : k' = f.1
      · simp [hk]
      · simp [hk, Ne.symm hk]
    · rw [if_neg hf, lookup_cons, ih, lookup_cons, lookup_cons, if_neg hf]
      by_cases hk : k' = k
      · simp [hk, hf]
      · simp [hk]

theorem setField_setField : setField (setField fields k w) k w' = setField fields k w' := by
  induction fields with
  | nil => rfl
  | cons f fields ih =>
    unfold setField
    by_cases hf : f.1 = k
    · simp [hf, setField]
    · simp [hf, setField, ih]

theorem setField_lookup (h : lookup fields k = some c) : setField fields k c = fields := by
  induction fields with
  | nil => rfl
  | cons f fields ih =>
    rw [lookup_cons] at h
    unfold setField
    by_cases hf : f.1 = k
    · rw [if_pos hf] at h ⊢
      rw [← Option.some.inj h]
    · rw [if_neg hf] at h ⊢
      rw [ih h]

theorem map_fst_setField : (setField fields k w).map Prod.fst = fields.map Prod.fst := by
  induction fields with
  | nil => rfl
  | cons f fields ih =>
    unfold setField
    split_ifs
    · rfl
    · rw [List.map_cons, List.map_cons, ih]

theorem lookup_of_mem (hd : (fields.map Prod.fst).Nodup) {f : Text × Json} (hf : f ∈ fields) :
    lookup fields f.1 = some f.2 := by
  induction fields with
  | nil => cases hf
  | cons g fields ih =>
    rw [List.map_cons, List.nodup_cons] at hd
    rw [lookup_cons]
    rcases List.mem_cons.1 hf with rfl | hf
    · exact if_pos rfl
    · have hne : g.1 ≠ f.1 := fun h => hd.1 (h ▸ List.mem_map_of_mem hf)
      rw [if_neg hne, ih hd.2 hf]

theorem lookup_mem (h : lookup fields k = some c) : (k, c) ∈ fields := by
  unfold lookup at h
  obtain ⟨f, hf, rfl⟩ := Option.map_eq_some_iff.1 h
  have hk : f.1 = k := by simpa using List.find?_some hf
  exact hk ▸ List.mem_of_find?_eq_some hf

theorem lookup_append_of_not_mem {done rest : List (Text × Json)} {k : Text} (h : k ∉ done.map Prod.fst) :
    lookup (done ++ rest) k = lookup rest k := by
  induction done with
  | nil => rfl
  | cons f done ih =>
    simp only [List.map_cons, List.mem_cons, not_or] at h
    rw [List.cons_append, lookup_cons, if_neg (Ne.symm h.1), ih h.2]

theorem setField_append_of_not_mem {done rest : List (Text × Json)} {k : Text} {w : Json} (h : k ∉ done.map Prod.fst) :
    setField (done ++ rest) k w = done ++ setField rest k w := by
  induction done with
  | nil => rfl
  | cons f done ih =>
    simp only [List.map_cons, List.mem_cons, not_or] at h
    rw [List.cons_append, setField, if_neg (Ne.symm h.1), ih h.2, List.cons_append]

end Fields

section Child
variable {v c w w' : Json} {t t' : Text}

theorem child_putChild (h : v.child t = some c) : (v.putChild t w).child t = some w := by
  cases v with
  | object fields =>
    change lookup fields t = some c at h
    simp [child, putChild, lookup_setField, h]
  | array items =>
    obtain ⟨i, hi, hc⟩ := Option.bind_eq_some_iff.1 h
    obtain ⟨hlt, -⟩ := List.getElem?_eq_some_iff.1 hc
    simp [child, putChild, hi, hlt]
  | _ => cases h

theorem child_putChild_ne (h : t' ≠ t) : (v.putChild t w).child t' = v.child t' := by
  cases v with
  | object fields => simp [child, putChild, lookup_setField, h]
  | array items =>
    cases hi : parseIndex t with
    | none => simp [child, putChild, hi]
    | some i =>
      cases hj : parseIndex t' with
      | none => simp [child, putChild, hi, hj]
      | some j =>
        have hij : i ≠ j := by
          rintro rfl
          exact h ((parseIndex_eq_some hj).trans (parseIndex_eq_some hi).symm)
        simp [child, putChild, hi, hj, List.getElem?_set_ne hij]
  | _ => rfl

theorem putChild_putChild : (v.putChild t w).putChild t w' = v.putChild t w' := by
  cases v with
  | object fields => simp [putChild, setField_setField]
  | array items =>
    cases hi : parseIndex t with
    | none => simp [putChild, hi]
    | some i => simp [putChild, hi]
  | _ => rfl

theorem putChild_child (h : v.child t = some c) : v.putChild t c = v := by
  cases v with
  | object fields => simp [putChild, setField_lookup (show lookup fields t = some c from h)]
  | array items =>
    obtain ⟨i, hi, hc⟩ := Option.bind_eq_some_iff.1 h
    obtain ⟨hlt, rfl⟩ := List.getElem?_eq_some_iff.1 hc
    simp [putChild, hi]
  | _ => cases h

end Child

section Path
variable {v c w w' : Json} {p q : List Text}

theorem get_append (v : Json) (p q : List Text) : v.get (p ++ q) = (v.get p).bind fun c => c.get q := by
  induction p generalizing v with
  | nil => rfl
  | cons t p ih =>
    rw [List.cons_append, get, get, Option.bind_assoc]
    congr 1
    funext c
    exact ih c

theorem put_append (h : v.get p = some c) (q : List Text) (w : Json) : v.put (p ++ q) w = v.put p (c.put q w) := by
  induction p generalizing v with
  | nil =>
    cases h
    rfl
  | cons t p ih =>
    obtain ⟨d, hd, h⟩ := Option.bind_eq_some_iff.1 h
    rw [List.cons_append, put, put, hd]
    simp only [ih h]

theorem get_put (h : v.get p = some c) (w : Json) : (v.put p w).get p = some w := by
  induction p generalizing v with
  | nil => rfl
  | cons t p ih =>
    obtain ⟨d, hd, h⟩ := Option.bind_eq_some_iff.1 h
    rw [put, hd, get, child_putChild hd]
    exact ih h

theorem put_put (h : v.get p = some c) (w w' : Json) : (v.put p w).put p w' = v.put p w' := by
  induction p generalizing v with
  | nil => rfl
  | cons t p ih =>
    obtain ⟨d, hd, h⟩ := Option.bind_eq_some_iff.1 h
    have hput (w : Json) : v.put (t :: p) w = v.putChild t (d.put p w) := by simp only [put, hd]
    rw [hput, hput, put]
    simp only [child_putChild hd, putChild_putChild, ih h]

theorem put_get (h : v.get p = some c) : v.put p c = v := by
  induction p generalizing v with
  | nil =>
    cases h
    rfl
  | cons t p ih =>
    obtain ⟨d, hd, h⟩ := Option.bind_eq_some_iff.1 h
    rw [put, hd]
    simp only [ih h, putChild_child hd]

/-- The string at a path. -/
def text (v : Json) (p : List Text) : Option Text := (v.get p).bind asStr

/-- A string written over a string leaves every other string alone. -/
theorem text_put {x : Text} (h : v.text q = some x) (y : Text) (p : List Text) :
    (v.put q (.string y)).text p = if p = q then some y else v.text p := by
  induction q generalizing v p with
  | nil =>
    cases v with
    | string t =>
      cases p with
      | nil => rfl
      | cons t p => rfl
    | _ => cases h
  | cons t q ih =>
    unfold text at h
    rw [get, Option.bind_assoc] at h
    obtain ⟨d, hd, hdx⟩ := Option.bind_eq_some_iff.1 h
    have hput : v.put (t :: q) (.string y) = v.putChild t (d.put q (.string y)) := by simp only [put, hd]
    rw [hput]
    cases p with
    | nil =>
      cases v with
      | object fields => rfl
      | array items => rfl
      | _ => cases hd
    | cons t' p =>
      by_cases ht : t' = t
      · subst ht
        have hih := ih (v := d) hdx p
        unfold text at hih ⊢
        rw [get, child_putChild hd, Option.bind_some, hih, get, hd]
        simp
      · unfold text
        rw [get, child_putChild_ne ht, get, if_neg (by simp [ht])]

end Path

/-! ## Pointers as texts -/

def escapePtr (t : Text) : Text :=
  (t.flatMap fun c => if c = '~' then ['~', '0'] else [c]).flatMap fun c => if c = '/' then ['~', '1'] else [c]

/-- `replace("~1", "/")`. -/
def unescapeSlash : Text → Text
  | '~' :: '1' :: t => '/' :: unescapeSlash t
  | c :: t => c :: unescapeSlash t
  | [] => []

/-- `replace("~0", "~")`. -/
def unescapeTilde : Text → Text
  | '~' :: '0' :: t => '~' :: unescapeTilde t
  | c :: t => c :: unescapeTilde t
  | [] => []

def unescape (t : Text) : Text := unescapeTilde (unescapeSlash t)

/-- The tokens of a pointer; a pointer that is not empty starts with a slash. -/
def tokens : Text → Option (List Text)
  | [] => some []
  | '/' :: rest => some ((rest.splitOn '/').map unescape)
  | _ => none

/-- The pointer with the given tokens. -/
def render (path : List Text) : Text := path.flatMap fun t => '/' :: escapePtr t

def pointer (v : Json) (p : Text) : Option Json := (tokens p).bind v.get

theorem escapePtr_cons (c : Char) (t : Text) : escapePtr (c :: t) =
    (if c = '~' then ['~', '0'] else if c = '/' then ['~', '1'] else [c]) ++ escapePtr t := by
  unfold escapePtr
  by_cases h : c = '~'
  · simp [h]
  · by_cases h' : c = '/' <;> simp [h, h']

theorem slash_not_mem_escapePtr (t : Text) : '/' ∉ escapePtr t := by
  induction t with
  | nil => simp [escapePtr]
  | cons c t ih =>
    rw [escapePtr_cons, List.mem_append, not_or]
    refine ⟨?_, ih⟩
    split_ifs with h h'
    · simp
    · simp
    · simpa using Ne.symm h'

theorem unescapeSlash_cons {c : Char} (h : c ≠ '~') (t : Text) : unescapeSlash (c :: t) = c :: unescapeSlash t := by
  rw [unescapeSlash]
  simp [h]

theorem unescapeTilde_cons {c : Char} (h : c ≠ '~') (t : Text) : unescapeTilde (c :: t) = c :: unescapeTilde t := by
  rw [unescapeTilde]
  simp [h]

theorem unescape_escapePtr (t : Text) : unescape (escapePtr t) = t := by
  induction t with
  | nil => rfl
  | cons c t ih =>
    unfold unescape at ih ⊢
    rw [escapePtr_cons]
    split_ifs with h h'
    · subst h
      rw [List.cons_append, List.cons_append, List.nil_append]
      rw [show unescapeSlash ('~' :: '0' :: escapePtr t) = '~' :: '0' :: unescapeSlash (escapePtr t) by
        rw [unescapeSlash, unescapeSlash_cons (by decide)]; simp]
      rw [unescapeTilde, ih]
    · subst h'
      rw [List.cons_append, List.cons_append, List.nil_append, unescapeSlash, unescapeTilde_cons (by decide), ih]
    · rw [List.singleton_append, unescapeSlash_cons h, unescapeTilde_cons h, ih]

theorem splitOn_render (t : Text) (p : List Text) :
    (escapePtr t ++ render p).splitOn '/' = escapePtr t :: p.map escapePtr := by
  induction p generalizing t with
  | nil => simp [render, List.splitOn_eq_singleton (slash_not_mem_escapePtr t)]
  | cons t' p ih =>
    rw [show render (t' :: p) = '/' :: (escapePtr t' ++ render p) by simp [render],
      List.splitOn_append_cons_self_of_not_mem (slash_not_mem_escapePtr t), ih, List.map_cons]

/-- A pointer is read as the path it was written for. -/
theorem tokens_render (p : List Text) : tokens (render p) = some p := by
  cases p with
  | nil => rfl
  | cons t p =>
    rw [show render (t :: p) = '/' :: (escapePtr t ++ render p) by simp [render], tokens, splitOn_render]
    have hmap : (p.map escapePtr).map unescape = p := by
      rw [List.map_map]
      exact (List.map_congr_left fun t _ => unescape_escapePtr t).trans (List.map_id p)
    rw [List.map_cons, unescape_escapePtr, hmap]

theorem render_injective : Function.Injective render := fun p q h =>
  Option.some.inj (by rw [← tokens_render p, ← tokens_render q, h])

theorem render_append (p q : List Text) : render (p ++ q) = render p ++ render q := List.flatMap_append ..

theorem toDigits_injective : Function.Injective (Nat.toDigits 10) := fun i j hij => by
  rw [← Nat.ofDigitChars_toDigits (b := 10) (n := i) (by omega) (by omega), hij,
    Nat.ofDigitChars_toDigits (by omega) (by omega)]

/-- A token of digits is not changed by escaping. -/
theorem escapePtr_toDigits (n : Nat) : escapePtr (Nat.toDigits 10 n) = Nat.toDigits 10 n := by
  have hdigits : ∀ c ∈ Nat.toDigits 10 n, c.isDigit := fun c hc => Nat.isDigit_of_mem_toDigits (by omega) (by omega) hc
  revert hdigits
  induction Nat.toDigits 10 n with
  | nil => exact fun _ => rfl
  | cons c t ih =>
    intro h
    obtain ⟨hc, ht⟩ := List.forall_mem_cons.1 h
    have hne : c ≠ '~' ∧ c ≠ '/' := by
      constructor <;> (rintro rfl; revert hc; decide)
    rw [escapePtr_cons, if_neg hne.1, if_neg hne.2, ih ht, List.singleton_append]

/-! ## Printing -/

/-- A character as it stands in a string literal. -/
def escapeChar (c : Char) : Text :=
  if c = '"' then ['\\', '"']
  else if c = '\\' then ['\\', '\\']
  else if c.toNat = 8 then ['\\', 'b']
  else if c.toNat = 12 then ['\\', 'f']
  else if c = '\n' then ['\\', 'n']
  else if c = '\r' then ['\\', 'r']
  else if c = '\t' then ['\\', 't']
  else if c.toNat < 32 then ['\\', 'u', '0', '0', Nat.digitChar (c.toNat / 16), Nat.digitChar (c.toNat % 16)]
  else [c]

def quote (t : Text) : Text := '"' :: t.flatMap escapeChar ++ ['"']

mutual

/-- `Value::to_string`: no blanks, the fields in their order. -/
def compact : Json → Text
  | .null => "null".toList
  | .bool b => if b then "true".toList else "false".toList
  | .number n => n
  | .string t => quote t
  | .array items => '[' :: compactItems items ++ [']']
  | .object fields => '{' :: compactFields fields ++ ['}']

def compactItems : List Json → Text
  | [] => []
  | v :: items => compact v ++ (if items.isEmpty then [] else ',' :: compactItems items)

def compactFields : List (Text × Json) → Text
  | [] => []
  | (k, v) :: fields => quote k ++ ':' :: compact v ++ (if fields.isEmpty then [] else ',' :: compactFields fields)

end

end Json

end Anvil.Lib
