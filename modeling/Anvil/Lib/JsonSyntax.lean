import Anvil.Lib.Json

/-!
# JSON texts

The grammar of RFC 8259 as a type: a `Cst` is a value with every character of its text, the white space included.

* `Part`, `literal`, `stringOf` : the characters of a string literal, escaped or not, and the string that is meant;
* `Cst`, `Items`, `Members` : values, the items of an array and the members of an object; `text`, `Valid`, `depth`;
* `names`, `Distinct` : no object repeats a name;
* `places`, `documentPlaces` : every item and member with its path, and the text before it;
* `nodup_documentPlaces` : a path has one place.
-/

namespace Anvil.Lib.JsonSyntax

/-! ## Characters -/

def isBlank (c : Char) : Bool := c = ' ' || c = '\t' || c = '\n' || c = '\r'

/-- White space. -/
def Blank (t : Text) : Prop := ∀ c ∈ t, isBlank c = true

theorem blank_nil : Blank [] := fun _ hc => absurd hc List.not_mem_nil

theorem Blank.append {s t : Text} (hs : Blank s) (ht : Blank t) : Blank (s ++ t) := fun c hc =>
  (List.mem_append.1 hc).elim (hs c) (ht c)

def isHex (c : Char) : Bool := c.isDigit || ('a' ≤ c && c ≤ 'f') || ('A' ≤ c && c ≤ 'F')

def hexDigit (c : Char) : Nat :=
  if c.isDigit then c.toNat - 48 else if 'a' ≤ c ∧ c ≤ 'f' then c.toNat - 87 else c.toNat - 55

def hexValue (t : Text) : Nat := t.foldl (fun n c => 16 * n + hexDigit c) 0

/-- The four digits of a `\u` escape. -/
def Hex4 (t : Text) : Prop := t.length = 4 ∧ ∀ c ∈ t, isHex c = true

/-- A character of a string literal: as it is, with a letter escape, as a code unit, or as a pair of surrogates. -/
inductive Part
  | plain (c : Char)
  | escape (c : Char)
  | unit (hex : Text)
  | pair (high low : Text)

namespace Part

def Valid : Part → Prop
  | .plain c => 0x20 ≤ c.toNat ∧ c ≠ '"' ∧ c ≠ '\\'
  | .escape c => c ∈ "\"\\/bfnrt".toList
  | .unit hex => Hex4 hex ∧ ¬(0xD800 ≤ hexValue hex ∧ hexValue hex < 0xE000)
  | .pair high low => Hex4 high ∧ Hex4 low ∧ (0xD800 ≤ hexValue high ∧ hexValue high < 0xDC00) ∧
      0xDC00 ≤ hexValue low ∧ hexValue low < 0xE000

def text : Part → Text
  | .plain c => [c]
  | .escape c => ['\\', c]
  | .unit hex => '\\' :: 'u' :: hex
  | .pair high low => '\\' :: 'u' :: (high ++ '\\' :: 'u' :: low)

/-- The meaning of an escape letter. -/
def letter (c : Char) : Char :=
  if c = 'b' then Char.ofNat 8 else if c = 'f' then Char.ofNat 12 else if c = 'n' then '\n' else if c = 'r' then '\r'
  else if c = 't' then '\t' else c

def char : Part → Char
  | .plain c => c
  | .escape c => letter c
  | .unit hex => Char.ofNat (hexValue hex)
  | .pair high low => Char.ofNat (0x10000 + (hexValue high - 0xD800) * 0x400 + (hexValue low - 0xDC00))

end Part

/-- A string literal after its opening quote. -/
def closing (parts : List Part) : Text := parts.flatMap Part.text ++ ['"']

def literal (parts : List Part) : Text := '"' :: closing parts

def stringOf (parts : List Part) : Text := parts.map Part.char

def Digits (t : Text) : Prop := t ≠ [] ∧ ∀ c ∈ t, c.isDigit = true

/-- `[minus] int [frac] [exp]`. -/
def IsNumber (t : Text) : Prop :=
  ∃ sign int frac exp : Text, t = sign ++ (int ++ (frac ++ exp)) ∧ (sign = [] ∨ sign = ['-']) ∧
    (int = ['0'] ∨ Digits int ∧ int.head? ≠ some '0') ∧
    (frac = [] ∨ ∃ ds, frac = '.' :: ds ∧ Digits ds) ∧
    (exp = [] ∨ ∃ e s ds, exp = e :: (s ++ ds) ∧ (e = 'e' ∨ e = 'E') ∧ (s = [] ∨ s = ['+'] ∨ s = ['-']) ∧ Digits ds)

theorem hexDigit_lt {c : Char} (h : isHex c = true) : hexDigit c < 16 := by
  have hchar : ∀ n : Fin 128, isHex (Char.ofNat n) = true → hexDigit (Char.ofNat n) < 16 := by decide
  have hlt : c.toNat < 128 := by
    simp only [isHex, Bool.or_eq_true, Bool.and_eq_true, decide_eq_true_eq] at h
    obtain (hc | ⟨-, hc⟩) | ⟨-, hc⟩ := h
    · exact Nat.lt_of_le_of_lt (Char.isDigit_iff_toNat.1 hc).2 (by decide)
    all_goals exact Nat.lt_of_le_of_lt (UInt32.le_iff_toNat_le.1 hc) (by decide)
  have hc := hchar ⟨c.toNat, hlt⟩
  rw [Char.ofNat_toNat] at hc
  exact hc h

theorem hexValue_push (t : Text) (c : Char) : hexValue (t ++ [c]) = 16 * hexValue t + hexDigit c := by
  unfold hexValue
  rw [List.foldl_append]
  rfl

theorem hexValue_lt {t : Text} (h : ∀ c ∈ t, isHex c = true) : hexValue t < 16 ^ t.length := by
  induction t using List.reverseRecOn with
  | nil => exact Nat.one_pos
  | append_singleton t c ih =>
    have hc := hexDigit_lt (h c (by simp))
    have ht := ih fun d hd => h d (by simp [hd])
    rw [hexValue_push, List.length_append, List.length_singleton, pow_succ]
    omega

theorem Hex4.value_lt {t : Text} (h : Hex4 t) : hexValue t < 0x10000 := by
  have hlt := hexValue_lt h.2
  rwa [h.1] at hlt

/-- The characters of a number. -/
def isNumeral (c : Char) : Bool := c.isDigit || c = '-' || c = '+' || c = '.' || c = 'e' || c = 'E'

theorem Digits.numeral {t : Text} (h : Digits t) : ∀ c ∈ t, isNumeral c = true := fun c hc => by simp [isNumeral, h.2 c hc]

/-- A number starts with a sign or a digit, and has no other characters than these. -/
theorem IsNumber.numeral {t : Text} (h : IsNumber t) : t ≠ [] ∧ ∀ c ∈ t, isNumeral c = true := by
  obtain ⟨sign, int, frac, exp, rfl, hsign, hint, hfrac, hexp⟩ := h
  have hint : int ≠ [] ∧ ∀ c ∈ int, isNumeral c = true := by
    rcases hint with rfl | ⟨hd, -⟩
    · exact ⟨by decide, List.forall_mem_singleton.2 rfl⟩
    · exact ⟨hd.1, hd.numeral⟩
  have hsign : ∀ c ∈ sign, isNumeral c = true := by rcases hsign with rfl | rfl <;> simp [isNumeral]
  have hfrac : ∀ c ∈ frac, isNumeral c = true := by
    rcases hfrac with rfl | ⟨ds, rfl, hds⟩
    · simp
    · simpa [isNumeral] using hds.numeral
  have hexp : ∀ c ∈ exp, isNumeral c = true := by
    rcases hexp with rfl | ⟨e, s, ds, rfl, he, hs, hds⟩
    · simp
    · simp only [List.mem_cons, List.mem_append]
      rintro c (rfl | hc | hc)
      · rcases he with rfl | rfl <;> rfl
      · rcases hs with rfl | rfl | rfl <;> simp_all [isNumeral]
      · exact hds.numeral c hc
  refine ⟨by simp [hint.1], fun c hc => ?_⟩
  simp only [List.mem_append] at hc
  rcases hc with hc | hc | hc | hc
  exacts [hsign c hc, hint.2 c hc, hfrac c hc, hexp c hc]

/-! ## Values -/

mutual

inductive Cst
  | scalar (t : Text)
  | string (parts : List Part)
  | array (blank : Text) (items : Items)
  | object (blank : Text) (members : Members)

inductive Items
  | nil
  | cons (before : Text) (value : Cst) (after : Text) (rest : Items)

inductive Members
  | nil
  | cons (before : Text) (name : List Part) (gap colonGap : Text) (value : Cst) (after : Text) (rest : Members)

end

/-- The comma before the next item. -/
def Items.comma : Items → Text
  | .nil => []
  | .cons _ _ _ _ => [',']

def Members.comma : Members → Text
  | .nil => []
  | .cons _ _ _ _ _ _ _ => [',']

mutual

def Cst.text : Cst → Text
  | .scalar t => t
  | .string parts => literal parts
  | .array blank items => '[' :: (blank ++ (items.text ++ [']']))
  | .object blank members => '{' :: (blank ++ (members.text ++ ['}']))

def Items.text : Items → Text
  | .nil => []
  | .cons before value after rest => before ++ (value.text ++ (after ++ (rest.comma ++ rest.text)))

def Members.text : Members → Text
  | .nil => []
  | .cons before name gap colonGap value after rest =>
    before ++ (literal name ++ (gap ++ ':' :: (colonGap ++ (value.text ++ (after ++ (rest.comma ++ rest.text))))))

end

mutual

def Cst.Valid : Cst → Prop
  | .scalar t => t = "null".toList ∨ t = "true".toList ∨ t = "false".toList ∨ IsNumber t
  | .string parts => ∀ p ∈ parts, p.Valid
  | .array blank items => Blank blank ∧ items.Valid
  | .object blank members => Blank blank ∧ members.Valid

def Items.Valid : Items → Prop
  | .nil => True
  | .cons before value after rest => Blank before ∧ value.Valid ∧ Blank after ∧ rest.Valid

def Members.Valid : Members → Prop
  | .nil => True
  | .cons before name gap colonGap value after rest =>
    Blank before ∧ (∀ p ∈ name, p.Valid) ∧ Blank gap ∧ Blank colonGap ∧ value.Valid ∧ Blank after ∧ rest.Valid

end

mutual

/-- How deeply arrays and objects are nested. -/
def Cst.depth : Cst → Nat
  | .scalar _ => 0
  | .string _ => 0
  | .array _ items => items.depth + 1
  | .object _ members => members.depth + 1

def Items.depth : Items → Nat
  | .nil => 0
  | .cons _ value _ rest => max value.depth rest.depth

def Members.depth : Members → Nat
  | .nil => 0
  | .cons _ _ _ _ value _ rest => max value.depth rest.depth

end

def Members.names : Members → List Text
  | .nil => []
  | .cons _ name _ _ _ _ rest => stringOf name :: rest.names

mutual

/-- No object repeats a name, however it is spelled. -/
def Cst.Distinct : Cst → Prop
  | .scalar _ => True
  | .string _ => True
  | .array _ items => items.Distinct
  | .object _ members => members.names.Nodup ∧ members.Distinct

def Items.Distinct : Items → Prop
  | .nil => True
  | .cons _ value _ rest => value.Distinct ∧ rest.Distinct

def Members.Distinct : Members → Prop
  | .nil => True
  | .cons _ _ _ _ value _ rest => value.Distinct ∧ rest.Distinct

end

mutual

/-- The items and members in a value at a path, each with its own path and the text before it; `before` is the text before
the value. -/
def Cst.places (path : List Text) (before : Text) : Cst → List (List Text × Text)
  | .scalar _ => []
  | .string _ => []
  | .array blank items => items.places path 0 (before ++ '[' :: blank)
  | .object blank members => members.places path (before ++ '{' :: blank)

def Items.places (path : List Text) (index : Nat) (text : Text) : Items → List (List Text × Text)
  | .nil => []
  | .cons before value after rest =>
    (path ++ [Nat.toDigits 10 index], text ++ before) ::
      (value.places (path ++ [Nat.toDigits 10 index]) (text ++ before) ++
        rest.places path (index + 1) (text ++ before ++ (value.text ++ (after ++ rest.comma))))

def Members.places (path : List Text) (text : Text) : Members → List (List Text × Text)
  | .nil => []
  | .cons before name gap colonGap value after rest =>
    (path ++ [stringOf name], text ++ before) ::
      (value.places (path ++ [stringOf name]) (text ++ before ++ (literal name ++ (gap ++ ':' :: colonGap))) ++
        rest.places path
          (text ++ before ++ (literal name ++ (gap ++ ':' :: (colonGap ++ (value.text ++ (after ++ rest.comma)))))))

end

/-- The value of a text, and every item and member in it; the value is at the empty path. -/
def documentPlaces (before : Text) (v : Cst) : List (List Text × Text) := ([], before) :: v.places [] before

/-! ## The paths are distinct -/

mutual

theorem Cst.places_path : ∀ (v : Cst) {path before p}, p ∈ v.places path before → ∃ t q, p.1 = path ++ t :: q
  | .scalar _, _, _, _, h => absurd h List.not_mem_nil
  | .string _, _, _, _, h => absurd h List.not_mem_nil
  | .array _ items, _, _, _, h => by
    obtain ⟨i, q, -, hp⟩ := items.places_path h
    exact ⟨_, q, hp⟩
  | .object _ members, _, _, _, h => by
    obtain ⟨t, q, -, hp⟩ := members.places_path h
    exact ⟨t, q, hp⟩

theorem Items.places_path : ∀ (items : Items) {path index text p}, p ∈ items.places path index text →
    ∃ i q, index ≤ i ∧ p.1 = path ++ Nat.toDigits 10 i :: q
  | .nil, _, _, _, _, h => absurd h List.not_mem_nil
  | .cons _ value _ rest, path, index, _, _, h => by
    rcases List.mem_cons.1 h with rfl | h
    · exact ⟨index, [], Nat.le_refl _, rfl⟩
    rcases List.mem_append.1 h with h | h
    · obtain ⟨t, q, hp⟩ := value.places_path h
      exact ⟨index, t :: q, Nat.le_refl _, by rw [hp, List.append_assoc, List.singleton_append]⟩
    · obtain ⟨i, q, hi, hp⟩ := rest.places_path h
      exact ⟨i, q, by omega, hp⟩

theorem Members.places_path : ∀ (members : Members) {path text p}, p ∈ members.places path text →
    ∃ t q, t ∈ members.names ∧ p.1 = path ++ t :: q
  | .nil, _, _, _, h => absurd h List.not_mem_nil
  | .cons _ name _ _ value _ rest, path, _, _, h => by
    rcases List.mem_cons.1 h with rfl | h
    · exact ⟨stringOf name, [], List.mem_cons_self, rfl⟩
    rcases List.mem_append.1 h with h | h
    · obtain ⟨t, q, hp⟩ := value.places_path h
      exact ⟨stringOf name, t :: q, List.mem_cons_self, by rw [hp, List.append_assoc, List.singleton_append]⟩
    · obtain ⟨t, q, ht, hp⟩ := rest.places_path h
      exact ⟨t, q, List.mem_cons_of_mem _ ht, hp⟩

end

/-- An item or member, what is in it, and what is beside it. -/
theorem nodup_beside {path : List Text} {t before : Text} {inside beside : List (List Text × Text)}
    (hi : (inside.map Prod.fst).Nodup) (hb : (beside.map Prod.fst).Nodup)
    (hinside : ∀ p ∈ inside, ∃ u q, p.1 = path ++ [t] ++ u :: q)
    (hbeside : ∀ p ∈ beside, ∃ u q, u ≠ t ∧ p.1 = path ++ u :: q) :
    (((path ++ [t], before) :: (inside ++ beside)).map Prod.fst).Nodup := by
  rw [List.map_cons, List.map_append, List.nodup_cons, List.mem_append, List.nodup_append']
  refine ⟨?_, hi, hb, ?_⟩
  · rintro (h | h)
    · obtain ⟨p, hp, heq⟩ := List.mem_map.1 h
      obtain ⟨u, q, hpath⟩ := hinside p hp
      rw [heq] at hpath
      simp at hpath
    · obtain ⟨p, hp, heq⟩ := List.mem_map.1 h
      obtain ⟨u, q, hne, hpath⟩ := hbeside p hp
      rw [heq, List.append_cancel_left_eq] at hpath
      exact hne (List.cons.inj hpath).1.symm
  · intro x hx hx'
    obtain ⟨p, hp, rfl⟩ := List.mem_map.1 hx
    obtain ⟨p', hp', heq⟩ := List.mem_map.1 hx'
    obtain ⟨u, q, hpath⟩ := hinside p hp
    obtain ⟨u', q', hne, hpath'⟩ := hbeside p' hp'
    rw [← heq, hpath', List.append_assoc, List.append_cancel_left_eq] at hpath
    exact hne (List.cons.inj hpath).1

/-- No two places of a value, of items or of members have one path. -/
theorem Cst.nodup_places (v : Cst) : ∀ path before, v.Distinct → ((v.places path before).map Prod.fst).Nodup := by
  refine @Cst.rec (fun v => ∀ path before, v.Distinct → ((v.places path before).map Prod.fst).Nodup)
    (fun items => ∀ path index text, items.Distinct → ((items.places path index text).map Prod.fst).Nodup)
    (fun members => ∀ path text, members.names.Nodup → members.Distinct → ((members.places path text).map Prod.fst).Nodup)
    ?scalar ?string ?array ?object ?noItems ?item ?noMembers ?member v
  case scalar => exact fun _ _ _ _ => List.nodup_nil
  case string => exact fun _ _ _ _ => List.nodup_nil
  case array => exact fun _ _ hitems path _ h => hitems path 0 _ h
  case object => exact fun _ _ hmembers path _ h => hmembers path _ h.1 h.2
  case noItems => exact fun _ _ _ _ => List.nodup_nil
  case item =>
    intro _ value _ rest hvalue hrest path index _ h
    refine nodup_beside (hvalue _ _ h.1) (hrest _ _ _ h.2) (fun p hp => value.places_path hp) ?_
    intro p hp
    obtain ⟨i, q, hi, hpath⟩ := rest.places_path hp
    exact ⟨_, q, fun heq => absurd (Json.toDigits_injective heq) (by omega), hpath⟩
  case noMembers => exact fun _ _ _ _ => List.nodup_nil
  case member =>
    intro _ name _ _ value _ rest hvalue hrest path _ hnames h
    obtain ⟨hname, hnames⟩ := List.nodup_cons.1 hnames
    refine nodup_beside (hvalue _ _ h.1) (hrest _ _ hnames h.2) (fun p hp => value.places_path hp) ?_
    intro p hp
    obtain ⟨t, q, ht, hpath⟩ := rest.places_path hp
    exact ⟨t, q, fun heq => hname (heq ▸ ht), hpath⟩

/-- A text in which no object repeats a name has no two places with one path. -/
theorem nodup_documentPlaces {v : Cst} (h : v.Distinct) (before : Text) :
    ((documentPlaces before v).map Prod.fst).Nodup := by
  rw [documentPlaces, List.map_cons, List.nodup_cons]
  refine ⟨fun hmem => ?_, v.nodup_places [] before h⟩
  obtain ⟨p, hp, heq⟩ := List.mem_map.1 hmem
  obtain ⟨t, q, hpath⟩ := v.places_path hp
  rw [heq] at hpath
  cases hpath

end Anvil.Lib.JsonSyntax
