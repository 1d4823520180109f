import Anvil.Lib.Delimited
import Anvil.Lib.JsonFields

/-!
# JSON values as texts, and the string tokens of a text

* `write` : a value with a writer for each kind of leaf, laid out on lines or compact; `write_none` : without a layout it is
  `compact`;
* `mapTexts`, `write_mapTexts`, `write_congr` : other leaves are other writers, and only the leaves there are matter;
* `pieces` : the string tokens of a text and what stands between them; `pieces_quote`, `pieces_plain`;
* `quote_injective`, `delimits_quote` : a literal tells its string, and where it ends.
-/

namespace Anvil.Lib.Json

/-! ## Leaves -/

mutual

/-- The values in a value that hold no others, in their order. -/
def leaves : Json → List Json
  | .array items => leavesItems items
  | .object fields => leavesFields fields
  | v => [v]

def leavesItems : List Json → List Json
  | [] => []
  | v :: items => leaves v ++ leavesItems items

def leavesFields : List (Text × Json) → List Json
  | [] => []
  | (_, v) :: fields => leaves v ++ leavesFields fields

end

theorem mem_leaves_array {items : List Json} {l : Json} : l ∈ (array items).leaves ↔ ∃ v ∈ items, l ∈ v.leaves := by
  rw [leaves]
  induction items with
  | nil => simp [leavesItems]
  | cons v items ih => simp [leavesItems, ih]

theorem mem_leaves_object {fields : List (Text × Json)} {l : Json} :
    l ∈ (object fields).leaves ↔ ∃ f ∈ fields, l ∈ f.2.leaves := by
  rw [leaves]
  induction fields with
  | nil => simp [leavesFields]
  | cons f fields ih => simp [leavesFields, ih]

/-- A leaf is a string or a number, or else `null` or a boolean. -/
theorem leaf_cases {v l : Json} (h : l ∈ v.leaves) :
    (∃ t, l = string t) ∨ (∃ n, l = number n) ∨ l = null ∨ ∃ b, l = bool b := by
  induction v using Json.ind generalizing l with
  | null => simp_all [leaves]
  | bool b => simp_all [leaves]
  | number n => simp_all [leaves]
  | string t => simp_all [leaves]
  | array items ih =>
    obtain ⟨v, hv, hl⟩ := mem_leaves_array.1 h
    exact ih v hv hl
  | object fields ih =>
    obtain ⟨f, hf, hl⟩ := mem_leaves_object.1 h
    exact ih f hf hl

mutual

/-- A value with other strings, names and numbers. -/
def mapTexts (s k : Text → Text) (n : Text → Json) : Json → Json
  | .string t => .string (s t)
  | .number t => n t
  | .array items => .array (mapTextsItems s k n items)
  | .object fields => .object (mapTextsFields s k n fields)
  | v => v

def mapTextsItems (s k : Text → Text) (n : Text → Json) : List Json → List Json
  | [] => []
  | v :: items => mapTexts s k n v :: mapTextsItems s k n items

def mapTextsFields (s k : Text → Text) (n : Text → Json) : List (Text × Json) → List (Text × Json)
  | [] => []
  | (name, v) :: fields => (k name, mapTexts s k n v) :: mapTextsFields s k n fields

end

section MapTexts
variable {s k : Text → Text} {n : Text → Json}

theorem mapTextsItems_eq (items : List Json) : mapTextsItems s k n items = items.map (mapTexts s k n) := by
  induction items with
  | nil => rfl
  | cons v items ih => rw [mapTextsItems, ih, List.map_cons]

theorem mapTextsFields_eq (fields : List (Text × Json)) :
    mapTextsFields s k n fields = fields.map fun f => (k f.1, mapTexts s k n f.2) := by
  induction fields with
  | nil => rfl
  | cons f fields ih => rw [mapTextsFields, ih, List.map_cons]

/-- The leaves of a mapped value are those of the mapped leaves. -/
theorem mem_leaves_mapTexts {v l : Json} :
    l ∈ (mapTexts s k n v).leaves ↔ ∃ u ∈ v.leaves, l ∈ (mapTexts s k n u).leaves := by
  induction v using Json.ind generalizing l with
  | null => simp [mapTexts, leaves]
  | bool b => simp [mapTexts, leaves]
  | number t => simp [mapTexts, leaves]
  | string t => simp [mapTexts, leaves]
  | array items ih =>
    rw [mapTexts, mapTextsItems_eq, mem_leaves_array]
    simp only [List.mem_map, exists_exists_and_eq_and, mem_leaves_array]
    constructor
    · rintro ⟨v, hv, hl⟩
      obtain ⟨u, hu, hul⟩ := (ih v hv).1 hl
      exact ⟨u, ⟨v, hv, hu⟩, hul⟩
    · rintro ⟨u, ⟨v, hv, hu⟩, hul⟩
      exact ⟨v, hv, (ih v hv).2 ⟨u, hu, hul⟩⟩
  | object fields ih =>
    rw [mapTexts, mapTextsFields_eq, mem_leaves_object]
    simp only [List.mem_map, exists_exists_and_eq_and, mem_leaves_object]
    constructor
    · rintro ⟨f, hf, hl⟩
      obtain ⟨u, hu, hul⟩ := (ih f hf).1 hl
      exact ⟨u, ⟨f, hf, hu⟩, hul⟩
    · rintro ⟨u, ⟨f, hf, hu⟩, hul⟩
      exact ⟨f, hf, (ih f hf).2 ⟨u, hu, hul⟩⟩

end MapTexts

/-! ## Writing -/

/-- A line break and the indentation of a level; nothing in a compact text. -/
def gap : Option Nat → Text
  | none => []
  | some level => '\n' :: List.replicate (2 * level) ' '

def deeper (level : Option Nat) : Option Nat := level.map (· + 1)

def colon (level : Option Nat) : Text := if level.isSome then ": ".toList else ":".toList

/-- How the strings, the names and the numbers of a value are written. -/
structure Writer where
  string : Text → Text
  name : Text → Text
  number : Text → Text

/-- As they are. -/
def plainWriter : Writer := ⟨quote, quote, fun n => n⟩

mutual

/-- `to_string_pretty` from a level on, and `to_string` without one. -/
def write (w : Writer) (level : Option Nat) : Json → Text
  | .null => "null".toList
  | .bool b => if b then "true".toList else "false".toList
  | .number n => w.number n
  | .string t => w.string t
  | .array items =>
    if items.isEmpty then "[]".toList else '[' :: (writeItems w (deeper level) items ++ (gap level ++ [']']))
  | .object fields =>
    if fields.isEmpty then ['{', '}'] else '{' :: (writeFields w (deeper level) fields ++ (gap level ++ ['}']))

def writeItems (w : Writer) (level : Option Nat) : List Json → Text
  | [] => []
  | v :: items =>
    gap level ++ (write w level v ++ (if items.isEmpty then [] else ',' :: writeItems w level items))

def writeFields (w : Writer) (level : Option Nat) : List (Text × Json) → Text
  | [] => []
  | (k, v) :: fields => gap level ++ (w.name k ++ (colon level ++ (write w level v ++
      (if fields.isEmpty then [] else ',' :: writeFields w level fields))))

end

/-- `to_string_pretty`, `to_string`. -/
def serialize (pretty : Bool) (v : Json) : Text := if pretty then write plainWriter (some 0) v else v.compact

theorem writeItems_none (items : List Json) (ih : ∀ v ∈ items, write plainWriter none v = v.compact) :
    writeItems plainWriter none items = compactItems items := by
  induction items with
  | nil => rfl
  | cons v items ihs =>
    obtain ⟨hv, hitems⟩ := List.forall_mem_cons.1 ih
    rw [writeItems, compactItems, hv, ihs hitems]
    rfl

theorem writeFields_none (fields : List (Text × Json)) (ih : ∀ f ∈ fields, write plainWriter none f.2 = f.2.compact) :
    writeFields plainWriter none fields = compactFields fields := by
  induction fields with
  | nil => rfl
  | cons f fields ihs =>
    obtain ⟨k, v⟩ := f
    obtain ⟨hv, hfields⟩ := List.forall_mem_cons.1 ih
    rw [writeFields, compactFields, hv, ihs hfields]
    simp [plainWriter, gap, colon]

theorem write_none (v : Json) : write plainWriter none v = v.compact := by
  induction v using Json.ind with
  | null => rfl
  | bool b => rfl
  | number n => rfl
  | string t => rfl
  | array items ih =>
    rw [write, compact, deeper, Option.map_none, writeItems_none items ih]
    cases items with
    | nil => rfl
    | cons v items => simp [gap]
  | object fields ih =>
    rw [write, compact, deeper, Option.map_none, writeFields_none fields ih]
    cases fields with
    | nil => rfl
    | cons f fields => simp [gap]

theorem serialize_eq_write (pretty : Bool) (v : Json) :
    serialize pretty v = write plainWriter (if pretty then some 0 else none) v := by
  unfold serialize
  split_ifs
  · rfl
  · exact (write_none v).symm

section Maps
variable {w w₂ : Writer}

/-- Other leaves, and names, are other writers. -/
theorem write_mapTexts (s k : Text → Text) {n : Text → Json} (hn : ∀ t level, write w level (n t) = write w none (n t))
    (v : Json) (level : Option Nat) : write w level (mapTexts s k n v) =
      write ⟨fun t => w.string (s t), fun t => w.name (k t), fun t => write w none (n t)⟩ level v := by
  induction v using Json.ind generalizing level with
  | null => rfl
  | bool b => rfl
  | number t => exact hn t level
  | string t => rfl
  | array items ih =>
    have hempty : (mapTextsItems s k n items).isEmpty = items.isEmpty := by cases items <;> rfl
    have hitems : ∀ level, writeItems w level (mapTextsItems s k n items) = writeItems
        ⟨fun t => w.string (s t), fun t => w.name (k t), fun t => write w none (n t)⟩ level items := by
      clear hempty
      intro level
      induction items with
      | nil => rfl
      | cons v items ihs =>
        obtain ⟨hv, hitems⟩ := List.forall_mem_cons.1 ih
        have hempty : (mapTextsItems s k n items).isEmpty = items.isEmpty := by cases items <;> rfl
        rw [mapTextsItems, writeItems, writeItems, hv, ihs hitems, hempty]
    rw [mapTexts, write, write, hempty, hitems]
  | object fields ih =>
    have hfields : ∀ level, writeFields w level (mapTextsFields s k n fields) = writeFields
        ⟨fun t => w.string (s t), fun t => w.name (k t), fun t => write w none (n t)⟩ level fields := by
      intro level
      induction fields with
      | nil => rfl
      | cons f fields ihs =>
        obtain ⟨name, v⟩ := f
        obtain ⟨hv, hfields⟩ := List.forall_mem_cons.1 ih
        have hempty : (mapTextsFields s k n fields).isEmpty = fields.isEmpty := by cases fields <;> rfl
        rw [mapTextsFields, writeFields, writeFields, hv, ihs hfields, hempty]
    have hempty : (mapTextsFields s k n fields).isEmpty = fields.isEmpty := by cases fields <;> rfl
    rw [mapTexts, write, write, hempty, hfields]

/-- Only the leaves and the names that a value has are written. -/
theorem write_congr {v : Json} (hs : ∀ t, string t ∈ v.leaves → w.string t = w₂.string t)
    (hk : ∀ k ∈ v.keys, w.name k = w₂.name k) (hn : ∀ n, number n ∈ v.leaves → w.number n = w₂.number n)
    (level : Option Nat) : write w level v = write w₂ level v := by
  induction v using Json.ind generalizing level with
  | null => rfl
  | bool b => rfl
  | number n => exact hn n (by simp [leaves])
  | string t => exact hs t (by simp [leaves])
  | array items ih =>
    have hitems : ∀ l ⊆ items, ∀ level, writeItems w level l = writeItems w₂ level l := by
      intro l hl level
      induction l with
      | nil => rfl
      | cons v l ihl =>
        obtain ⟨hv, hsub⟩ := List.cons_subset.1 hl
        rw [writeItems, writeItems, ihl hsub, ih v hv (fun t ht => hs t (mem_leaves_array.2 ⟨v, hv, ht⟩))
          (fun k hkey => hk k (mem_keys_item hv hkey)) (fun n h => hn n (mem_leaves_array.2 ⟨v, hv, h⟩))]
    rw [write, write, hitems items (List.Subset.refl _)]
  | object fields ih =>
    have hfields : ∀ l ⊆ fields, ∀ level, writeFields w level l = writeFields w₂ level l := by
      intro l hl level
      induction l with
      | nil => rfl
      | cons f l ihl =>
        obtain ⟨hf, hsub⟩ := List.cons_subset.1 hl
        obtain ⟨hname, hkeys⟩ := mem_keys_field hf
        have hvalue := ih f hf (fun t ht => hs t (mem_leaves_object.2 ⟨f, hf, ht⟩)) (fun k h => hk k (hkeys k h))
          (fun n h => hn n (mem_leaves_object.2 ⟨f, hf, h⟩)) level
        obtain ⟨k, v⟩ := f
        rw [writeFields, writeFields, ihl hsub, hvalue, hk k hname]
    rw [write, write, hfields fields (List.Subset.refl _)]

end Maps

/-! ## String tokens -/

/-- A piece of a text: a string token with its quotes, or a character outside of one. -/
inductive Piece
  | plain (t : Text)
  | token (t : Text)
deriving DecidableEq

def Piece.text : Piece → Text
  | .plain t => t
  | .token t => t

/-- The pieces of a text, after the start of a token that is open; one that is not closed is no token. -/
def piecesFrom : Option Text → Text → List Piece
  | none, [] => []
  | some token, [] => [.plain token]
  | none, c :: t => if c = '"' then piecesFrom (some ['"']) t else .plain [c] :: piecesFrom none t
  | some token, '\\' :: c :: t => piecesFrom (some (token ++ ['\\', c])) t
  | some token, c :: t =>
    if c = '"' then .token (token ++ ['"']) :: piecesFrom none t else piecesFrom (some (token ++ [c])) t

def pieces (t : Text) : List Piece := piecesFrom none t

theorem piecesFrom_none_cons (c : Char) (t : Text) :
    piecesFrom none (c :: t) = if c = '"' then piecesFrom (some ['"']) t else .plain [c] :: piecesFrom none t := by
  conv_lhs => rw [piecesFrom.eq_def]

theorem piecesFrom_escape (token : Text) (c : Char) (t : Text) :
    piecesFrom (some token) ('\\' :: c :: t) = piecesFrom (some (token ++ ['\\', c])) t := by
  conv_lhs => rw [piecesFrom.eq_def]
  rfl

theorem piecesFrom_plain {c : Char} (hquote : c ≠ '"') (hslash : c ≠ '\\') (token t : Text) :
    piecesFrom (some token) (c :: t) = piecesFrom (some (token ++ [c])) t := by
  conv_lhs => rw [piecesFrom.eq_def]
  split <;> simp_all

theorem piecesFrom_close (token t : Text) :
    piecesFrom (some token) ('"' :: t) = .token (token ++ ['"']) :: piecesFrom none t := by
  conv_lhs => rw [piecesFrom.eq_def]
  simp

/-- The escapes of a character stay within its token. -/
theorem piecesFrom_escapeChar (c : Char) (token t : Text) :
    piecesFrom (some token) (escapeChar c ++ t) = piecesFrom (some (token ++ escapeChar c)) t := by
  have hdigit : ∀ n < 16, Nat.digitChar n ≠ '"' ∧ Nat.digitChar n ≠ '\\' := by decide
  unfold escapeChar
  split_ifs with hquote hslash
  all_goals first
    | exact piecesFrom_escape token _ t
    | exact piecesFrom_plain hquote hslash token t
    | skip
  -- a control character: an escape, and then four plain digits
  obtain ⟨hq, hs⟩ := hdigit (c.toNat / 16) (by omega)
  obtain ⟨hq', hs'⟩ := hdigit (c.toNat % 16) (by omega)
  simp only [List.cons_append, List.nil_append]
  rw [piecesFrom_escape, piecesFrom_plain (by decide) (by decide), piecesFrom_plain (by decide) (by decide),
    piecesFrom_plain hq hs, piecesFrom_plain hq' hs']
  simp only [List.append_assoc, List.cons_append, List.nil_append]

theorem piecesFrom_literal (s token t : Text) : piecesFrom (some token) (s.flatMap escapeChar ++ '"' :: t) =
    .token (token ++ s.flatMap escapeChar ++ ['"']) :: piecesFrom none t := by
  induction s generalizing token with
  | nil =>
    rw [List.flatMap_nil, List.nil_append, piecesFrom_close, List.append_nil]
  | cons c s ih =>
    rw [List.flatMap_cons, List.append_assoc, piecesFrom_escapeChar, ih]
    simp only [List.append_assoc]

/-- A written string is one token. -/
theorem pieces_quote (s t : Text) : pieces (quote s ++ t) = .token (quote s) :: pieces t := by
  unfold quote pieces
  rw [List.append_assoc, List.cons_append, piecesFrom_none_cons, if_pos rfl, List.singleton_append, piecesFrom_literal]
  rfl

/-- A text without quotes has no token. -/
theorem pieces_plain {s : Text} (h : '"' ∉ s) (t : Text) : pieces (s ++ t) = s.map (fun c => .plain [c]) ++ pieces t := by
  induction s with
  | nil => rfl
  | cons c s ih =>
    rw [List.mem_cons, not_or] at h
    rw [List.cons_append, pieces, piecesFrom_none_cons, if_neg (Ne.symm h.1), ← pieces, ih h.2]
    rfl

/-- A text with its string tokens rewritten. -/
def scan (f : Text → Text) (t : Text) : Text :=
  (pieces t).flatMap fun p =>
    match p with
    | .plain t => t
    | .token t => f t

section Scan
variable (f : Text → Text)

theorem scan_quote (s t : Text) : scan f (quote s ++ t) = f (quote s) ++ scan f t := by
  unfold scan
  rw [pieces_quote, List.flatMap_cons]

theorem scan_plain {s : Text} (h : '"' ∉ s) (t : Text) : scan f (s ++ t) = s ++ scan f t := by
  unfold scan
  rw [pieces_plain h, List.flatMap_append, List.flatMap_map]
  simp

theorem scan_cons {c : Char} (h : c ≠ '"') (t : Text) : scan f (c :: t) = c :: scan f t :=
  scan_plain f (s := [c]) (by simpa using h.symm) t

theorem scan_gap (level : Option Nat) (t : Text) : scan f (gap level ++ t) = gap level ++ scan f t := by
  refine scan_plain f ?_ t
  cases level with
  | none => exact List.not_mem_nil
  | some level => simp [gap]

theorem scan_colon (level : Option Nat) (t : Text) : scan f (colon level ++ t) = colon level ++ scan f t := by
  refine scan_plain f ?_ t
  unfold colon
  split_ifs <;> decide

/-- Rewriting the tokens of a written value is writing its strings and names so. -/
theorem scan_write {v : Json} (hn : ∀ n, number n ∈ v.leaves → '"' ∉ n) (level : Option Nat) (t : Text) :
    scan f (write plainWriter level v ++ t) =
      write ⟨fun s => f (quote s), fun s => f (quote s), fun n => n⟩ level v ++ scan f t := by
  induction v using Json.ind generalizing level t with
  | null => exact scan_plain f (s := "null".toList) (by decide) t
  | bool b =>
    cases b with
    | false => exact scan_plain f (s := "false".toList) (by decide) t
    | true => exact scan_plain f (s := "true".toList) (by decide) t
  | number n => exact scan_plain f (hn n (by simp [leaves])) t
  | string s => exact scan_quote f s t
  | array items ih =>
    have hitems : ∀ l ⊆ items, ∀ level t, scan f (writeItems plainWriter level l ++ t) =
        writeItems ⟨fun s => f (quote s), fun s => f (quote s), fun n => n⟩ level l ++ scan f t := by
      intro l hl level t
      induction l generalizing t with
      | nil => rfl
      | cons v l ihl =>
        obtain ⟨hv, hsub⟩ := List.cons_subset.1 hl
        have hvalue := ih v hv fun n h => hn n (mem_leaves_array.2 ⟨v, hv, h⟩)
        rw [writeItems, writeItems]
        simp only [List.append_assoc, scan_gap, hvalue]
        split_ifs
        · rfl
        · rw [List.cons_append, scan_cons f (by decide), ihl hsub]
          rfl
    rw [write, write]
    split_ifs
    · exact scan_plain f (by decide) t
    · simp only [List.cons_append, List.append_assoc, List.nil_append]
      rw [scan_cons f (by decide), hitems items (List.Subset.refl _), scan_gap, scan_cons f (by decide)]
  | object fields ih =>
    have hfields : ∀ l ⊆ fields, ∀ level t, scan f (writeFields plainWriter level l ++ t) =
        writeFields ⟨fun s => f (quote s), fun s => f (quote s), fun n => n⟩ level l ++ scan f t := by
      intro l hl level t
      induction l generalizing t with
      | nil => rfl
      | cons g l ihl =>
        obtain ⟨hg, hsub⟩ := List.cons_subset.1 hl
        have hvalue := ih g hg fun n h => hn n (mem_leaves_object.2 ⟨g, hg, h⟩)
        obtain ⟨k, v⟩ := g
        rw [writeFields, writeFields]
        simp only [List.append_assoc, scan_gap, plainWriter, scan_quote, scan_colon]
        rw [← plainWriter, hvalue]
        split_ifs
        · rfl
        · rw [List.cons_append, scan_cons f (by decide), ihl hsub]
          rfl
    rw [write, write]
    split_ifs
    · exact scan_plain f (by decide) t
    · simp only [List.cons_append, List.append_assoc, List.nil_append]
      rw [scan_cons f (by decide), hfields fields (List.Subset.refl _), scan_gap, scan_cons f (by decide)]

end Scan

/-! ## Literals -/

theorem escapeChar_wide {c : Char} (h : 128 ≤ c.toNat) : escapeChar c = [c] := by
  have hascii : ∀ n < 128, (Char.ofNat n).toNat < 128 := by decide
  have hne : ∀ n < 128, c ≠ Char.ofNat n := by
    rintro n hn rfl
    have := hascii n hn
    omega
  have hctl : c.toNat ≠ 8 ∧ c.toNat ≠ 12 ∧ ¬c.toNat < 32 := by omega
  unfold escapeChar
  rw [if_neg (hne 34 (by decide)), if_neg (hne 92 (by decide)), if_neg hctl.1, if_neg hctl.2.1, if_neg (hne 10 (by decide)),
    if_neg (hne 13 (by decide)), if_neg (hne 9 (by decide)), if_neg hctl.2.2]

theorem escapeChar_ascii {c : Char} (h : c.toNat < 128) {d : Char} (hd : d ∈ escapeChar c) : d.toNat < 128 := by
  have hall : ∀ n : Fin 128, (escapeChar (Char.ofNat n)).all (fun c => c.toNat < 128) = true := by decide
  have hc := hall ⟨c.toNat, h⟩
  rw [Char.ofNat_toNat, List.all_eq_true] at hc
  exact of_decide_eq_true (hc d hd)

theorem escapeChar_ne_nil (c : Char) : escapeChar c ≠ [] := by
  unfold escapeChar
  split_ifs <;> exact List.cons_ne_nil _ _

theorem escapeChar_head (c : Char) : (escapeChar c).head? ≠ some '"' := by
  by_cases hc : c.toNat < 128
  · have hall : ∀ n : Fin 128, (escapeChar (Char.ofNat n)).head? ≠ some '"' := by decide
    have hhead := hall ⟨c.toNat, hc⟩
    rwa [Char.ofNat_toNat] at hhead
  · rw [escapeChar_wide (show 128 ≤ c.toNat by omega)]
    intro he
    obtain rfl := Option.some.inj he
    exact hc (by decide)

/-- The length of a character as it is written, by how it starts. -/
def escapedWidth (t : Text) : Nat := if t.head? = some '\\' then if t[1]? = some 'u' then 6 else 2 else 1

/-- The number of an ASCII character, from how it is written. -/
def escapedCode (t : Text) : Nat :=
  if t.length = 6 then 16 * "01".toList.idxOf (t.getD 4 '0') + "0123456789abcdef".toList.idxOf (t.getD 5 '0')
  else if t.length = 2 then
    ((["b".toList, "t".toList, "n".toList, "f".toList, "r".toList].zip [8, 9, 10, 12, 13]).lookup (t.drop 1)).getD
    (t.getD 1 '0').toNat
  else (t.headD '0').toNat

theorem escapedWidth_start {s t : Text} (h : s <+: t) (hs : s.length = escapedWidth s) : escapedWidth t = s.length := by
  obtain ⟨r, rfl⟩ := h
  rw [hs]
  cases s with
  | nil => exact absurd hs (by decide)
  | cons c s =>
    cases s with
    | nil =>
      have hc : c ≠ '\\' := fun he => absurd hs (by rw [he]; decide)
      simp [escapedWidth, hc]
    | cons d s => rfl

/-- No character is written as the start of another. -/
theorem escapeChar_prefix_eq {c d : Char} (h : escapeChar c <+: escapeChar d) : c = d := by
  by_cases hc : c.toNat < 128
  · by_cases hd : d.toNat < 128
    · have hwidth : ∀ n : Fin 128, (escapeChar (Char.ofNat n)).length = escapedWidth (escapeChar (Char.ofNat n)) := by decide
      have hcode : ∀ n : Fin 128, escapedCode (escapeChar (Char.ofNat n)) = n := by decide +kernel
      have hc' := hwidth ⟨c.toNat, hc⟩
      have hd' := hwidth ⟨d.toNat, hd⟩
      have hcn := hcode ⟨c.toNat, hc⟩
      have hdn := hcode ⟨d.toNat, hd⟩
      simp only [Char.ofNat_toNat] at hc' hd' hcn hdn
      have hsame := h.eq_of_length ((escapedWidth_start h hc').symm.trans hd'.symm)
      rw [hsame, hdn] at hcn
      exact Char.toNat_inj.1 hcn.symm
    · rw [escapeChar_wide (show 128 ≤ d.toNat by omega)] at h
      obtain ⟨e, t, he⟩ := List.exists_cons_of_ne_nil (escapeChar_ne_nil c)
      have hmem : e ∈ escapeChar c := he ▸ List.mem_cons_self
      obtain rfl := List.mem_singleton.1 (h.subset hmem)
      exact absurd (escapeChar_ascii hc hmem) hd
  · rw [escapeChar_wide (show 128 ≤ c.toNat by omega)] at h
    by_cases hd : d.toNat < 128
    · exact absurd (escapeChar_ascii hd (h.subset List.mem_cons_self)) hc
    · rw [escapeChar_wide (show 128 ≤ d.toNat by omega)] at h
      exact List.mem_singleton.1 (h.subset List.mem_cons_self)

theorem escapeChar_append {c d : Char} {x y : Text} (h : escapeChar c ++ x = escapeChar d ++ y) : c = d ∧ x = y := by
  have hcd : c = d := by
    rcases List.prefix_or_prefix_of_prefix (List.prefix_append (escapeChar c) x) (h ▸ List.prefix_append (escapeChar d) y)
      with hp | hp
    · exact escapeChar_prefix_eq hp
    · exact (escapeChar_prefix_eq hp).symm
  subst hcd
  exact ⟨rfl, List.append_cancel_left h⟩

/-- A literal tells its string: the characters are read off one after another, and none is written as a quote. -/
theorem literal_injective {s t : Text} (h : s.flatMap escapeChar ++ ['"'] = t.flatMap escapeChar ++ ['"']) : s = t := by
  have hquote : ∀ (c : Char) (u : Text), ['"'] ≠ escapeChar c ++ u := by
    intro c u he
    obtain ⟨e, v, hv⟩ := List.exists_cons_of_ne_nil (escapeChar_ne_nil c)
    rw [hv] at he
    exact escapeChar_head c (by rw [hv, ← (List.cons.inj he).1]; rfl)
  induction s generalizing t with
  | nil =>
    cases t with
    | nil => rfl
    | cons d t =>
      rw [List.flatMap_nil, List.nil_append, List.flatMap_cons, List.append_assoc] at h
      exact absurd h (hquote d _)
  | cons c s ih =>
    cases t with
    | nil =>
      rw [List.flatMap_nil, List.nil_append, List.flatMap_cons, List.append_assoc] at h
      exact absurd h.symm (hquote c _)
    | cons d t =>
      rw [List.flatMap_cons, List.flatMap_cons, List.append_assoc, List.append_assoc] at h
      obtain ⟨rfl, hrest⟩ := escapeChar_append h
      rw [ih hrest]

theorem quote_injective {s t : Text} (h : quote s = quote t) : s = t :=
  literal_injective (List.cons.inj h).2

theorem delimits_quote : Delimits quote id := by
  intro s t x x' he
  have hpieces := congrArg pieces he
  rw [pieces_quote, pieces_quote] at hpieces
  obtain rfl := quote_injective (Piece.token.inj (List.cons.inj hpieces).1)
  exact ⟨rfl, List.append_cancel_left he⟩

end Anvil.Lib.Json
