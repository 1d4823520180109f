import Anvil.Lib.JsonSyntax
import Anvil.Lib.JsonText

/-!
# JSON values and their texts

* `Cst.value` : what a text means; `Json.nodes` : the values and object keys of a value;
* `Document`, `jsonLines` : a text with the white space around its value, and texts separated by newlines;
* `layout` : the text of a value, compact or with two blanks a level;
* `valid_layout`, `value_layout` : it is a text, of that value; `text_layout_compact` : without blanks it is `compact`.
-/

namespace Anvil.Lib.JsonSyntax
open Json

/-! ## Meaning -/

mutual

def Cst.value : Cst → Json
  | .scalar t =>
    if t = "null".toList then .null
    else if t = "true".toList then .bool true
    else if t = "false".toList then .bool false
    else .number t
  | .string parts => .string (stringOf parts)
  | .array _ items => .array items.values
  | .object _ members => .object members.fields

def Items.values : Items → List Json
  | .nil => []
  | .cons _ value _ rest => value.value :: rest.values

def Members.fields : Members → List (Text × Json)
  | .nil => []
  | .cons _ name _ _ value _ rest => (stringOf name, value.value) :: rest.fields

end

mutual

/-- A value, the values in it and the keys of its objects. -/
def nodes : Json → Nat
  | .array items => 1 + nodesItems items
  | .object fields => 1 + nodesFields fields
  | _ => 1

def nodesItems : List Json → Nat
  | [] => 0
  | v :: items => nodes v + nodesItems items

def nodesFields : List (Text × Json) → Nat
  | [] => 0
  | (_, v) :: fields => 1 + nodes v + nodesFields fields

end

theorem nodes_scalar (t : Text) : nodes (Cst.scalar t).value = 1 := by
  rw [Cst.value]
  split_ifs <;> rfl

theorem nodesFields_eq (fields : List (Text × Json)) : nodesFields fields = (fields.map fun f => 1 + nodes f.2).sum := by
  induction fields with
  | nil => rfl
  | cons f fields ih => rw [nodesFields, ih, List.map_cons, List.sum_cons]

/-- A value with the white space around it. -/
structure Document where
  before : Text
  value : Cst
  after : Text

namespace Document

structure Valid (d : Document) : Prop where
  before : Blank d.before
  value : d.value.Valid
  after : Blank d.after

def text (d : Document) : Text := d.before ++ (d.value.text ++ d.after)

end Document

/-- Texts with a newline between each and the next; white space may stand around each, so also newlines. -/
def jsonLines (ds : List Document) : Text := List.intercalate ['\n'] (ds.map Document.text)

theorem jsonLines_singleton (d : Document) : jsonLines [d] = d.text := List.append_nil _

theorem jsonLines_cons (d e : Document) (ds : List Document) :
    jsonLines (d :: e :: ds) = d.text ++ (['\n'] ++ jsonLines (e :: ds)) := rfl

/-! ## Layout -/

/-- A character as the printer writes it. -/
def partOf (c : Char) : Part :=
  if c = '"' then .escape '"'
  else if c = '\\' then .escape '\\'
  else if c.toNat = 8 then .escape 'b'
  else if c.toNat = 12 then .escape 'f'
  else if c = '\n' then .escape 'n'
  else if c = '\r' then .escape 'r'
  else if c = '\t' then .escape 't'
  else if c.toNat < 32 then .unit ['0', '0', Nat.digitChar (c.toNat / 16), Nat.digitChar (c.toNat % 16)]
  else .plain c

theorem text_partOf (c : Char) : (partOf c).text = escapeChar c := by
  unfold partOf escapeChar
  split_ifs <;> rfl

theorem hexValue_control {n : Nat} (hn : n < 32) :
    Hex4 ['0', '0', Nat.digitChar (n / 16), Nat.digitChar (n % 16)] ∧
      hexValue ['0', '0', Nat.digitChar (n / 16), Nat.digitChar (n % 16)] = n := by
  have hall : ∀ n : Fin 32, (['0', '0', Nat.digitChar (n.val / 16), Nat.digitChar (n.val % 16)].all isHex) = true ∧
      hexValue ['0', '0', Nat.digitChar (n.val / 16), Nat.digitChar (n.val % 16)] = n.val := by decide
  obtain ⟨hhex, hvalue⟩ := hall ⟨n, hn⟩
  exact ⟨⟨rfl, List.all_eq_true.1 hhex⟩, hvalue⟩

theorem partOf_spec (c : Char) : (partOf c).Valid ∧ (partOf c).char = c := by
  have hcode : ∀ {n : Nat}, c.toNat = n → c = Char.ofNat n := fun h => h ▸ (Char.ofNat_toNat c).symm
  unfold partOf
  split_ifs with hquote hslash hb hf hn hr ht hcontrol
  · exact ⟨by simp [Part.Valid], hquote.symm⟩
  · exact ⟨by simp [Part.Valid], hslash.symm⟩
  · exact ⟨by simp [Part.Valid], (hcode hb).symm⟩
  · exact ⟨by simp [Part.Valid], (hcode hf).symm⟩
  · exact ⟨by simp [Part.Valid], hn.symm⟩
  · exact ⟨by simp [Part.Valid], hr.symm⟩
  · exact ⟨by simp [Part.Valid], ht.symm⟩
  · obtain ⟨hhex, hvalue⟩ := hexValue_control hcontrol
    refine ⟨⟨hhex, by omega⟩, ?_⟩
    rw [Part.char, hvalue, Char.ofNat_toNat]
  · exact ⟨⟨by omega, hquote, hslash⟩, rfl⟩

theorem stringOf_partOf (t : Text) : stringOf (t.map partOf) = t := by
  rw [stringOf, List.map_map]
  exact (List.map_congr_left fun c _ => (partOf_spec c).2).trans (List.map_id t)

theorem literal_partOf (t : Text) : literal (t.map partOf) = quote t := by
  rw [literal, closing, List.flatMap_map, quote]
  simp only [text_partOf, List.cons_append]

theorem valid_partOf {t : Text} : ∀ p ∈ t.map partOf, p.Valid := by
  intro p hp
  obtain ⟨c, -, rfl⟩ := List.mem_map.1 hp
  exact (partOf_spec c).1

/-- A new line at a level, where the text is laid out. -/
def indent (pretty : Bool) (depth : Nat) : Text := if pretty then '\n' :: List.replicate (2 * depth) ' ' else []

theorem blank_indent (pretty : Bool) (depth : Nat) : Blank (indent pretty depth) := by
  unfold indent
  split_ifs
  · intro c hc
    rcases List.mem_cons.1 hc with rfl | hc
    · rfl
    · rw [List.eq_of_mem_replicate hc]
      rfl
  · exact blank_nil

mutual

/-- The text of a value as `to_vec` and `to_vec_pretty` lay it out. -/
def layout (pretty : Bool) (depth : Nat) : Json → Cst
  | .null => .scalar "null".toList
  | .bool b => .scalar (if b then "true".toList else "false".toList)
  | .number n => .scalar n
  | .string t => .string (t.map partOf)
  | .array items => .array [] (layoutItems pretty depth items)
  | .object fields => .object [] (layoutFields pretty depth fields)

def layoutItems (pretty : Bool) (depth : Nat) : List Json → Items
  | [] => .nil
  | v :: items => .cons (indent pretty (depth + 1)) (layout pretty (depth + 1) v)
      (if items.isEmpty then indent pretty depth else [])
      (layoutItems pretty depth items)

def layoutFields (pretty : Bool) (depth : Nat) : List (Text × Json) → Members
  | [] => .nil
  | (k, v) :: fields => .cons (indent pretty (depth + 1)) (k.map partOf) []
      (if pretty then [' '] else []) (layout pretty (depth + 1) v)
      (if fields.isEmpty then indent pretty depth else []) (layoutFields pretty depth fields)

end

/-- The numbers of a value are printed as numbers. -/
def Numbers (v : Json) : Prop := ∀ n, number n ∈ v.leaves → IsNumber n

theorem Numbers.item {items : List Json} (h : Numbers (array items)) {v : Json} (hv : v ∈ items) : Numbers v :=
  fun n hn => h n (mem_leaves_array.2 ⟨v, hv, hn⟩)

theorem Numbers.field {fields : List (Text × Json)} (h : Numbers (object fields)) {f : Text × Json} (hf : f ∈ fields) :
    Numbers f.2 :=
  fun n hn => h n (mem_leaves_object.2 ⟨f, hf, hn⟩)

theorem numbers_string (t : Text) : Numbers (string t) := fun n hn => by simp [leaves] at hn

theorem numbers_bool (b : Bool) : Numbers (bool b) := fun n hn => by simp [leaves] at hn

theorem numbers_object {fields : List (Text × Json)} (h : ∀ f ∈ fields, Numbers f.2) : Numbers (object fields) := by
  intro n hn
  obtain ⟨f, hf, hn⟩ := mem_leaves_object.1 hn
  exact h f hf n hn

theorem head_toDigits_ne_zero {n : Nat} (hn : n ≠ 0) : (Nat.toDigits 10 n).head? ≠ some '0' := by
  induction n using Nat.strongRecOn with
  | ind n ih =>
    by_cases hlt : n < 10
    · have hall : ∀ n : Fin 10, n.val ≠ 0 → Nat.digitChar n.val ≠ '0' := by decide
      rw [Nat.toDigits_of_lt_base hlt, List.head?_cons]
      exact fun h => hall ⟨n, hlt⟩ hn (Option.some.inj h)
    · rw [Nat.toDigits_of_base_le (by decide) (Nat.not_lt.1 hlt), List.head?_append_of_ne_nil _ Nat.toDigits_ne_nil]
      exact ih (n / 10) (by omega) (by omega)

theorem isNumber_toDigits (n : Nat) : IsNumber (Nat.toDigits 10 n) := by
  refine ⟨[], Nat.toDigits 10 n, [], [], by simp, .inl rfl, ?_, .inl rfl, .inl rfl⟩
  by_cases hn : n = 0
  · exact .inl (by rw [hn]; decide)
  · exact .inr ⟨⟨Nat.toDigits_ne_nil, fun c hc => Nat.isDigit_of_mem_toDigits (by decide) (by decide) hc⟩,
      head_toDigits_ne_zero hn⟩

theorem numbers_toDigits (n : Nat) : Numbers (number (Nat.toDigits 10 n)) := by
  intro m hm
  obtain rfl := Json.number.inj (List.mem_singleton.1 hm)
  exact isNumber_toDigits n

theorem valid_layout {pretty : Bool} (v : Json) : ∀ {depth : Nat}, Numbers v → (layout pretty depth v).Valid := by
  induction v using Json.ind with
  | null => exact fun _ => .inl rfl
  | bool b =>
    intro depth _
    cases b
    · exact .inr (.inr (.inl rfl))
    · exact .inr (.inl rfl)
  | number n => exact fun h => .inr (.inr (.inr (h n (List.mem_singleton.2 rfl))))
  | string t => exact fun _ => valid_partOf
  | array items ih =>
    intro depth h
    refine ⟨blank_nil, ?_⟩
    have hitems : ∀ l : List Json, l ⊆ items → (layoutItems pretty depth l).Valid := by
      intro l
      induction l with
      | nil => exact fun _ => trivial
      | cons v l ihl =>
        intro hl
        obtain ⟨hv, hl⟩ := List.cons_subset.1 hl
        refine ⟨blank_indent _ _, ih v hv (h.item hv), ?_, ihl hl⟩
        split_ifs
        exacts [blank_indent _ _, blank_nil]
    exact hitems items fun _ h => h
  | object fields ih =>
    intro depth h
    refine ⟨blank_nil, ?_⟩
    have hfields : ∀ l : List (Text × Json), l ⊆ fields → (layoutFields pretty depth l).Valid := by
      intro l
      induction l with
      | nil => exact fun _ => trivial
      | cons f l ihl =>
        intro hl
        obtain ⟨hf, hl⟩ := List.cons_subset.1 hl
        refine ⟨blank_indent _ _, valid_partOf, blank_nil, ?_, ih f hf (h.field hf), ?_, ihl hl⟩
        · split_ifs
          · exact fun c hc => List.mem_singleton.1 hc ▸ rfl
          · exact blank_nil
        · split_ifs
          exacts [blank_indent _ _, blank_nil]
    exact hfields fields fun _ h => h

theorem value_layout {pretty : Bool} (v : Json) : ∀ {depth : Nat}, Numbers v → (layout pretty depth v).value = v := by
  induction v using Json.ind with
  | null => exact fun _ => rfl
  | bool b =>
    intro depth _
    cases b <;> rfl
  | number n =>
    intro depth h
    obtain ⟨hne, hnumeral⟩ := (h n (List.mem_singleton.2 rfl)).numeral
    have hletter : ∀ {t : Text}, (∃ c ∈ t, isNumeral c = false) → n ≠ t := by
      rintro t ⟨c, hc, hfalse⟩ rfl
      rw [hnumeral c hc] at hfalse
      cases hfalse
    rw [layout, Cst.value, if_neg (hletter ⟨'n', by decide, rfl⟩), if_neg (hletter ⟨'t', by decide, rfl⟩),
      if_neg (hletter ⟨'f', by decide, rfl⟩)]
  | string t => exact fun _ => congrArg Json.string (stringOf_partOf t)
  | array items ih =>
    intro depth h
    have hitems : ∀ l : List Json, l ⊆ items → (layoutItems pretty depth l).values = l := by
      intro l
      induction l with
      | nil => exact fun _ => rfl
      | cons v l ihl =>
        intro hl
        obtain ⟨hv, hl⟩ := List.cons_subset.1 hl
        rw [layoutItems, Items.values, ih v hv (h.item hv), ihl hl]
    exact congrArg Json.array (hitems items fun _ h => h)
  | object fields ih =>
    intro depth h
    have hfields : ∀ l : List (Text × Json), l ⊆ fields → (layoutFields pretty depth l).fields = l := by
      intro l
      induction l with
      | nil => exact fun _ => rfl
      | cons f l ihl =>
        intro hl
        obtain ⟨k, v⟩ := f
        obtain ⟨hf, hl⟩ := List.cons_subset.1 hl
        rw [layoutFields, Members.fields, stringOf_partOf, ih _ hf (h.field hf), ihl hl]
    exact congrArg Json.object (hfields fields fun _ h => h)

/-- Without blanks the text is the one that `to_string` writes. -/
theorem text_layout_compact (v : Json) : ∀ {depth : Nat}, (layout false depth v).text = v.compact := by
  induction v using Json.ind with
  | null => exact rfl
  | bool b =>
    intro depth
    cases b <;> rfl
  | number n => exact rfl
  | string t => exact literal_partOf t
  | array items ih =>
    intro depth
    have hitems : ∀ l : List Json, l ⊆ items → (layoutItems false depth l).text = compactItems l := by
      intro l
      induction l with
      | nil => exact fun _ => rfl
      | cons v l ihl =>
        intro hl
        obtain ⟨hv, hl⟩ := List.cons_subset.1 hl
        rw [layoutItems, Items.text, ih v hv, ihl hl, compactItems]
        cases l <;> rfl
    rw [layout, Cst.text, hitems items fun _ h => h]
    rfl
  | object fields ih =>
    intro depth
    have hfields : ∀ l : List (Text × Json), l ⊆ fields → (layoutFields false depth l).text = compactFields l := by
      intro l
      induction l with
      | nil => exact fun _ => rfl
      | cons f l ihl =>
        intro hl
        obtain ⟨k, v⟩ := f
        obtain ⟨hf, hl⟩ := List.cons_subset.1 hl
        rw [layoutFields, Members.text, ih _ hf, ihl hl, compactFields, literal_partOf]
        cases l <;> simp [indent, layoutFields, Members.comma, compactFields]
    rw [layout, Cst.text, hfields fields fun _ h => h]
    rfl

/-! ## Lengths -/

theorem length_escapeChar_le (c : Char) : (escapeChar c).length ≤ 6 := by
  unfold escapeChar
  split_ifs <;> simp

theorem length_quote_le (t : Text) : (quote t).length ≤ 6 * t.length + 2 := by
  have hall : ∀ t : Text, (t.flatMap escapeChar).length ≤ 6 * t.length := by
    intro t
    induction t with
    | nil => rfl
    | cons c t ih =>
      have hc := length_escapeChar_le c
      rw [List.flatMap_cons, List.length_append, List.length_cons]
      omega
  have ht := hall t
  rw [quote, List.cons_append, List.length_cons, List.length_append, List.length_singleton]
  omega

end Anvil.Lib.JsonSyntax
