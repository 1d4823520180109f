import Anvil.Contract.Locate

/-!
# What the locator records

* `Position.of` : the line and the column after a text;
* `Moved`, `value_ends` : the scan only reads on, and ends on every text;
* `between`, `string_literal` : the scan between two texts, and past a string literal;
* `Reads`, `reads` : the scan of a valid value, with what it records and where it stops;
* `newJson_eq` : the map of a valid document;
* `position_render` : the position of a pointer is that of its longest recorded ancestor;
* `newJson_located` : the recorded pointers of a valid document, and the end of the scan.
-/

namespace Anvil.Contract.Locate
open Lib Lib.JsonSyntax

/-! ## Positions -/

namespace Position

/-- The position after a text: on the line after its line breaks, past the characters since the last of them. -/
def of (before : Text) : Position := ⟨before.count '\n' + 1, (before.rtakeWhile (· ≠ '\n')).length + 1⟩

theorem of_push (before : Text) (c : Char) : of (before ++ [c]) = (of before).after c := by
  unfold of after
  by_cases hc : c = '\n'
  · subst hc
    simp
  · simp [hc]

theorem foldl_after (before t : Text) : t.foldl after (of before) = of (before ++ t) := by
  induction t generalizing before with
  | nil => simp
  | cons c t ih => rw [List.foldl_cons, ← of_push, ih, List.append_assoc, List.singleton_append]

/-- Later in a text. -/
def Before (p q : Position) : Prop := p.line < q.line ∨ (p.line = q.line ∧ p.column < q.column)

theorem before_after (p : Position) (c : Char) : p.Before (p.after c) := by
  unfold after
  split_ifs
  · exact .inl (Nat.lt_succ_self _)
  · exact .inr ⟨rfl, Nat.lt_succ_self _⟩

theorem Before.trans {p q r : Position} (hpq : p.Before q) (hqr : q.Before r) : p.Before r := by
  unfold Before at *
  omega

theorem before_foldl {t : Text} (ht : t ≠ []) (p : Position) : p.Before (t.foldl after p) := by
  induction t generalizing p with
  | nil => exact absurd rfl ht
  | cons c t ih =>
    rw [List.foldl_cons]
    by_cases hnil : t = []
    · subst hnil
      exact before_after p c
    · exact (before_after p c).trans (ih hnil _)

theorem foldl_after_eq {t : Text} {p : Position} : t.foldl after p = p ↔ t = [] := by
  constructor
  · intro heq
    by_contra ht
    have hbefore := before_foldl ht p
    rw [heq] at hbefore
    unfold Before at hbefore
    omega
  · rintro rfl
    rfl

end Position

namespace Scan

/-! ## The scan ends -/

/-- Some characters were read. -/
def Moved (s t : Scan) : Prop := ∃ read, s.chars = read ++ t.chars ∧ t.pos = read.foldl Position.after s.pos

theorem Moved.refl (s : Scan) : Moved s s := ⟨[], rfl, rfl⟩

theorem Moved.trans {s t u : Scan} (hst : Moved s t) (htu : Moved t u) : Moved s u := by
  obtain ⟨read, hchars, hpos⟩ := hst
  obtain ⟨read', hchars', hpos'⟩ := htu
  exact ⟨read ++ read', by rw [hchars, hchars', List.append_assoc], by rw [hpos', hpos, List.foldl_append]⟩

theorem Moved.length_le {s t : Scan} (h : Moved s t) : t.chars.length ≤ s.chars.length := by
  obtain ⟨read, hchars, -⟩ := h
  rw [hchars, List.length_append]
  exact Nat.le_add_left _ _

theorem moved_skip (n : Nat) (s : Scan) : Moved s (s.skip n) := ⟨_, (List.take_append_drop n s.chars).symm, rfl⟩

theorem moved_ws (s : Scan) : Moved s s.ws := moved_skip _ s

@[simp] theorem record_chars (pointer : Text) (at' : Position) (s : Scan) : (s.record pointer at').chars = s.chars := by
  unfold record
  split_ifs <;> rfl

@[simp] theorem record_pos (pointer : Text) (at' : Position) (s : Scan) : (s.record pointer at').pos = s.pos := by
  unfold record
  split_ifs <;> rfl

theorem moved_record (pointer : Text) (at' : Position) (s : Scan) : Moved s (s.record pointer at') :=
  ⟨[], (record_chars pointer at' s).symm, record_pos pointer at' s⟩

theorem bump_length {s : Scan} {c : Char} (h : s.peek = some c) : s.bump.chars.length + 1 = s.chars.length := by
  have hpos : 0 < s.chars.length := List.length_pos_iff.2 (by rintro hnil; simp [peek, hnil] at h)
  rw [bump, skip, List.length_drop]
  omega

theorem moved_unicodeEscape (s : Scan) : Moved s s.unicodeEscape.2 := by
  unfold unicodeEscape
  dsimp only
  split_ifs
  · exact ((moved_skip 4 s).trans (moved_skip 2 _)).trans (moved_skip 4 _)
  · exact moved_skip 4 s

theorem moved_escape (s : Scan) : Moved s s.escape.2 := by
  unfold escape
  split_ifs
  · exact (moved_skip 1 s).trans (moved_unicodeEscape _)
  · exact moved_skip 1 s

theorem moved_stringFrom (fuel : Nat) (out : Text) (s : Scan) : Moved s (stringFrom fuel out s).2 := by
  induction fuel generalizing out s with
  | zero => exact .refl s
  | succ fuel ih =>
    unfold stringFrom
    have hescape := (moved_skip 1 s).trans (moved_escape s.bump)
    split
    · exact .refl s
    split_ifs
    · exact moved_skip 1 s
    · split
      · exact hescape
      · exact hescape.trans (ih _ _)
    · exact (moved_skip 1 s).trans (ih _ _)

theorem moved_string (s : Scan) : Moved s.bump s.string.2 := moved_stringFrom _ _ _

theorem moved_bumpIf (p : Prop) [Decidable p] (s : Scan) : Moved s (if p then s.bump else s) := by
  split_ifs
  · exact moved_skip 1 s
  · exact .refl s

/-- There is a scan, and it has only read on. -/
def Ends (s : Scan) (r : Option Scan) : Prop := ∃ t, r = some t ∧ Moved s t

theorem Ends.after {s t : Scan} {r : Option Scan} (hst : Moved s t) (h : Ends t r) : Ends s r := by
  obtain ⟨u, hu, htu⟩ := h
  exact ⟨u, hu, hst.trans htu⟩

/-- The steps that are enough, for each of the three loops. -/
structure EndsIn (fuel : Nat) : Prop where
  value : ∀ pointer depth s, 2 * s.chars.length + 1 ≤ fuel → Ends s (value fuel pointer depth s)
  object : ∀ pointer depth s, 2 * s.chars.length + 2 ≤ fuel → Ends s (objectFrom fuel pointer depth s)
  array : ∀ pointer depth index s, 2 * s.chars.length + 2 ≤ fuel → Ends s (arrayFrom fuel pointer depth index s)

section Step
variable {fuel : Nat} (ih : EndsIn fuel) (pointer : Text) (depth index : Nat) {s : Scan}
include ih

theorem value_ends_succ (hfuel : 2 * s.chars.length + 1 ≤ fuel + 1) : Ends s (Scan.value (fuel + 1) pointer depth s) := by
  have hws := moved_ws s
  have hlen := hws.length_le
  rw [Scan.value]
  split
  · exact ⟨_, rfl, hws⟩
  next c hc =>
  have hbump : Moved s s.ws.bump := hws.trans (moved_skip 1 _)
  have hshort := bump_length hc
  split_ifs
  · exact (ih.object _ _ _ (by omega)).after hbump
  · exact (ih.array _ _ _ _ (by omega)).after hbump
  · exact ⟨_, rfl, hbump.trans (moved_string _)⟩
  · exact ⟨_, rfl, hws.trans (moved_skip _ _)⟩

theorem objectFrom_ends_succ (hfuel : 2 * s.chars.length + 2 ≤ fuel + 1) :
    Ends s (objectFrom (fuel + 1) pointer depth s) := by
  have hws := moved_ws s
  have hlen := hws.length_le
  rw [objectFrom]
  split
  · exact ⟨_, rfl, hws⟩
  next c hc =>
  have hbump : Moved s s.ws.bump := hws.trans (moved_skip 1 _)
  have hshort := bump_length hc
  split_ifs
  · exact ⟨_, rfl, hbump⟩
  · -- the opening quote is read at least, so that both the value and the rest are shorter
    dsimp only
    generalize hu : colon _ = u
    have hmoved : Moved s.ws.bump u := by
      rw [← hu]
      exact (((moved_string _).trans (moved_record _ _ _)).trans (moved_ws _)).trans (moved_bumpIf _ _)
    have hulen := hmoved.length_le
    obtain ⟨t, ht, hut⟩ := ih.value (ptr pointer s.ws.string.1) (depth + 1) u (by omega)
    have htlen := hut.length_le
    rw [ht, Option.bind_some]
    exact (ih.object _ _ _ (by omega)).after ((hbump.trans hmoved).trans hut)
  · exact (ih.object _ _ _ (by omega)).after hbump

theorem arrayFrom_ends_succ (hfuel : 2 * s.chars.length + 2 ≤ fuel + 1) :
    Ends s (arrayFrom (fuel + 1) pointer depth index s) := by
  have hws := moved_ws s
  have hlen := hws.length_le
  rw [arrayFrom]
  split
  · exact ⟨_, rfl, hws⟩
  next c hc =>
  have hbump : Moved s s.ws.bump := hws.trans (moved_skip 1 _)
  have hshort := bump_length hc
  split_ifs
  · exact ⟨_, rfl, hbump⟩
  · exact (ih.array _ _ _ _ (by omega)).after hbump
  · dsimp only
    generalize hu : s.ws.record _ _ = u
    have huchars : u.chars = s.ws.chars := by rw [← hu, record_chars]
    have hupos : u.pos = s.ws.pos := by rw [← hu, record_pos]
    have hsu : Moved s u := hws.trans (hu ▸ moved_record _ _ _)
    obtain ⟨t, ht, hut⟩ := ih.value (ptr pointer (Nat.toDigits 10 index)) (depth + 1) u (by rw [huchars]; omega)
    have hmoved := moved_bumpIf (t.pos = s.ws.pos) t
    have hlast := hmoved.length_le
    rw [ht, Option.bind_some]
    refine (ih.array _ _ _ _ ?_).after ((hsu.trans hut).trans hmoved)
    -- the value has read something, or else the loop does
    obtain ⟨read, hchars, hpos⟩ := hut
    rw [huchars] at hchars
    rw [hupos] at hpos
    by_cases hread : read = []
    · subst hread
      have htpos : t.pos = s.ws.pos := hpos
      have htpeek : t.peek = some c := by rw [← hc, peek, peek, hchars, List.nil_append]
      have htshort := bump_length htpeek
      rw [List.nil_append] at hchars
      rw [if_pos htpos]
      rw [hchars] at hlen
      omega
    · have hreadlen : 0 < read.length := List.length_pos_iff.2 hread
      have hsum := congrArg List.length hchars
      rw [List.length_append] at hsum
      omega

end Step

theorem endsIn (fuel : Nat) : EndsIn fuel := by
  induction fuel with
  | zero => exact ⟨fun _ _ _ h => by omega, fun _ _ _ h => by omega, fun _ _ _ _ h => by omega⟩
  | succ fuel ih =>
    exact ⟨fun pointer depth _ h => value_ends_succ ih pointer depth h,
      fun pointer depth _ h => objectFrom_ends_succ ih pointer depth h,
      fun pointer depth index _ h => arrayFrom_ends_succ ih pointer depth index h⟩

/-- The scan of a value ends, whatever the text. -/
theorem value_ends (pointer : Text) (depth : Nat) (s : Scan) :
    Ends s (value (2 * s.chars.length + 1) pointer depth s) :=
  (endsIn _).value pointer depth s (Nat.le_refl _)

theorem document_ends (s : Scan) : Ends s s.document := by
  have h := value_ends [] 0 (s.ws.record [] s.ws.pos)
  rw [record_chars] at h
  exact h.after ((moved_ws s).trans (moved_record _ _ _))

/-! ## Reading on -/

/-- The scan between two texts. -/
def between (before rest : Text) (map : List (Text × Position)) : Scan := ⟨rest, .of before, map⟩

section Read
variable {before t blank rest : Text} {map : List (Text × Position)} {c : Char}

@[simp] theorem between_peek : (between before (c :: rest) map).peek = some c := rfl

theorem between_pos : (between before rest map).pos = .of before := rfl

theorem between_skip : (between before (t ++ rest) map).skip t.length = between (before ++ t) rest map := by
  rw [skip, between, between, List.drop_left, List.take_left, Position.foldl_after]

theorem between_bump : (between before (c :: rest) map).bump = between (before ++ [c]) rest map := between_skip (t := [c])

theorem between_skipWhile {p : Char → Bool} (ht : ∀ c ∈ t, p c = true) (hrest : ∀ c ∈ rest.head?, p c = false) :
    (between before (t ++ rest) map).skipWhile p = between (before ++ t) rest map := by
  have hnil : rest.takeWhile p = [] := by
    cases rest with
    | nil => rfl
    | cons c rest => exact List.takeWhile_cons_of_neg (by simp [hrest c rfl])
  have htake : (t ++ rest).takeWhile p = t := by rw [List.takeWhile_append_of_pos ht, hnil, List.append_nil]
  rw [skipWhile, show (between before (t ++ rest) map).chars = t ++ rest from rfl, htake, between_skip]

theorem isWhitespace_of_isBlank (h : isBlank c = true) : isWhitespace c = true := by
  simp only [isBlank, Bool.or_eq_true, decide_eq_true_eq] at h
  rcases h with ((rfl | rfl) | rfl) | rfl <;> rfl

theorem between_ws (hblank : Blank blank) (hrest : ∀ c ∈ rest.head?, isWhitespace c = false) :
    (between before (blank ++ rest) map).ws = between (before ++ blank) rest map :=
  between_skipWhile (fun c hc => isWhitespace_of_isBlank (hblank c hc)) hrest

end Read

/-! ## Names -/

section Names
variable {before rest : Text} {map : List (Text × Position)}

theorem parseHex_of_hex4 {hex : Text} (h : Hex4 hex) : parseHex hex = some (hexValue hex) := by
  have hne : hex ≠ [] := List.length_pos_iff.1 (by rw [h.1]; decide)
  have hplus : hex.head? ≠ some '+' := by
    intro hhead
    have hc := h.2 '+' (List.mem_of_mem_head? hhead)
    revert hc
    decide
  unfold parseHex
  dsimp only
  rw [if_neg hplus, if_pos ⟨hne, List.all_eq_true.2 h.2⟩]

theorem charFrom_of_valid {code : Nat} (h : code.isValidChar) : charFrom code = Char.ofNat code := if_pos h

theorem between_take4 {hex : Text} (h : hex.length = 4) : (between before (hex ++ rest) map).chars.take 4 = hex :=
  List.take_left' h

theorem between_skip4 {hex : Text} (h : hex.length = 4) :
    (between before (hex ++ rest) map).skip 4 = between (before ++ hex) rest map := by rw [← h, between_skip]

theorem unicodeEscape_unit {hex : Text} (h : (Part.unit hex).Valid) :
    (between before (hex ++ rest) map).unicodeEscape = ((Part.unit hex).char, between (before ++ hex) rest map) := by
  obtain ⟨hhex, hsurrogate⟩ := h
  have hlt := hhex.value_lt
  unfold unicodeEscape
  dsimp only
  rw [between_take4 hhex.1, parseHex_of_hex4 hhex, Option.getD_some, if_neg (by omega), between_skip4 hhex.1,
    charFrom_of_valid (by unfold Nat.isValidChar; omega)]
  rfl

theorem unicodeEscape_pair {high low : Text} (h : (Part.pair high low).Valid) :
    (between before (high ++ '\\' :: 'u' :: (low ++ rest)) map).unicodeEscape =
      ((Part.pair high low).char, between (before ++ (high ++ '\\' :: 'u' :: low)) rest map) := by
  obtain ⟨hhigh, hlow, hh, hl⟩ := h
  have hskip : (between (before ++ high) ('\\' :: 'u' :: (low ++ rest)) map).skip 2 =
      between (before ++ high ++ ['\\', 'u']) (low ++ rest) map := between_skip (t := ['\\', 'u'])
  unfold unicodeEscape
  dsimp only
  rw [between_take4 hhigh.1, parseHex_of_hex4 hhigh, Option.getD_some, between_skip4 hhigh.1, if_pos ⟨hh, between_peek⟩,
    hskip, between_take4 hlow.1, parseHex_of_hex4 hlow, Option.getD_some, between_skip4 hlow.1]
  have hcode : (0x10000 + (hexValue high - 0xD800) * 0x400 + (hexValue low + 2 ^ 32 - 0xDC00) % 2 ^ 32) % 2 ^ 32 =
      0x10000 + (hexValue high - 0xD800) * 0x400 + (hexValue low - 0xDC00) := by omega
  rw [hcode, charFrom_of_valid (by unfold Nat.isValidChar; omega)]
  simp [Part.char]

theorem unescaped_eq_letter : ∀ c ∈ "\"\\/bfnrt".toList, unescaped c = Part.letter c := by
  simp [unescaped, Part.letter]

/-- A step of `string` reads a character of the literal. -/
theorem stringFrom_part {p : Part} (hp : p.Valid) (fuel : Nat) (out : Text) :
    stringFrom (fuel + 1) out (between before (p.text ++ rest) map) =
      stringFrom fuel (out ++ [p.char]) (between (before ++ p.text) rest map) := by
  have hback : '\\' ≠ '"' := by decide
  cases p with
  | plain c =>
    obtain ⟨-, hquote, hslash⟩ := hp
    rw [Part.text, List.singleton_append, stringFrom, between_peek]
    dsimp only
    rw [if_neg hquote, if_neg hslash, between_bump]
    rfl
  | escape c =>
    have hu : c ≠ 'u' := by
      rintro rfl
      revert hp
      unfold Part.Valid
      decide
    have hescape : (between (before ++ ['\\']) (c :: rest) map).escape =
        (some (Part.letter c), between (before ++ ['\\', c]) rest map) := by
      rw [escape, between_peek, if_neg (by simpa using hu), between_bump, Option.map_some, unescaped_eq_letter c hp,
        List.append_assoc]
      rfl
    rw [Part.text, List.cons_append, List.singleton_append, stringFrom, between_peek]
    dsimp only
    rw [if_neg hback, if_pos rfl, between_bump, hescape]
    rfl
  | unit hex =>
    have hescape : (between (before ++ ['\\']) ('u' :: (hex ++ rest)) map).escape =
        (some (Part.unit hex).char, between (before ++ '\\' :: 'u' :: hex) rest map) := by
      rw [escape, between_peek, if_pos rfl, between_bump, unicodeEscape_unit hp]
      simp
    rw [Part.text, List.cons_append, List.cons_append, stringFrom, between_peek]
    dsimp only
    rw [if_neg hback, if_pos rfl, between_bump, hescape]
  | pair high low =>
    have hescape : (between (before ++ ['\\']) ('u' :: (high ++ '\\' :: 'u' :: (low ++ rest))) map).escape =
        (some (Part.pair high low).char, between (before ++ '\\' :: 'u' :: (high ++ '\\' :: 'u' :: low)) rest map) := by
      rw [escape, between_peek, if_pos rfl, between_bump, unicodeEscape_pair hp]
      simp
    rw [Part.text, List.cons_append, List.cons_append, List.append_assoc, List.cons_append, List.cons_append, stringFrom,
      between_peek]
    dsimp only
    rw [if_neg hback, if_pos rfl, between_bump, hescape]

theorem stringFrom_closing {parts : List Part} (hparts : ∀ p ∈ parts, p.Valid) {fuel : Nat} (hfuel : parts.length < fuel)
    (out before : Text) :
    stringFrom fuel out (between before (closing parts ++ rest) map) =
      (out ++ stringOf parts, between (before ++ closing parts) rest map) := by
  obtain ⟨fuel, rfl⟩ : ∃ k, fuel = k + 1 := ⟨fuel - 1, by omega⟩
  induction parts generalizing fuel out before with
  | nil =>
    rw [closing, List.flatMap_nil, List.nil_append, List.singleton_append, stringFrom, between_peek]
    dsimp only
    rw [if_pos rfl, between_bump]
    simp [stringOf]
  | cons p parts ih =>
    rw [List.length_cons] at hfuel
    obtain ⟨fuel, rfl⟩ : ∃ k, fuel = k + 1 := ⟨fuel - 1, by omega⟩
    have hcons : closing (p :: parts) = p.text ++ closing parts := by simp [closing]
    rw [hcons, List.append_assoc, stringFrom_part (hparts p (by simp)),
      ih (fun q hq => hparts q (by simp [hq])) _ _ _ (by omega)]
    simp [stringOf]

theorem length_closing (parts : List Part) : parts.length < (closing parts).length := by
  induction parts with
  | nil => decide
  | cons p parts ih =>
    have hp : 0 < p.text.length := by cases p <;> simp [Part.text]
    simp only [closing, List.flatMap_cons, List.length_append, List.length_cons] at ih ⊢
    omega

/-- A string literal is read whole, and as the string that is meant. -/
theorem string_literal {parts : List Part} (hparts : ∀ p ∈ parts, p.Valid) :
    (between before (literal parts ++ rest) map).string = (stringOf parts, between (before ++ literal parts) rest map) := by
  have hfuel : parts.length < (literal parts ++ rest).length := by
    have h := length_closing parts
    rw [literal, List.length_append, List.length_cons]
    omega
  rw [string, show (between before (literal parts ++ rest) map).chars = literal parts ++ rest from rfl]
  rw [show between before (literal parts ++ rest) map = between before ('"' :: (closing parts ++ rest)) map from rfl,
    between_bump, stringFrom_closing hparts hfuel]
  simp [literal]

end Names

/-! ## Values -/

/-- What recording a place does to the map. -/
def note (map : List (Text × Position)) (place : List Text × Text) : List (Text × Position) :=
  if Json.render place.1 ∈ keysOf map then map else map ++ [(Json.render place.1, .of place.2)]

/-- The map after the places have been recorded in turn. -/
def notes (map : List (Text × Position)) (places : List (List Text × Text)) : List (Text × Position) := places.foldl note map

/-- Where a scalar that is not a string ends. -/
def Stops (rest : Text) : Prop := ∀ c ∈ rest.head?, inScalar c = false

/-- The scan reads a value up to its end, and records its places. -/
def Reads (v : Cst) : Prop :=
  v.Valid → ∀ {fuel path depth before blank rest map r}, Blank blank → Stops rest → depth + v.depth ≤ 256 →
    value fuel (Json.render path) depth (between before (blank ++ (v.text ++ rest)) map) = some r →
    r = between (before ++ (blank ++ v.text)) rest (notes map (v.places path (before ++ blank)))

/-- The same of the items up to the closing bracket, which the loop reads too. -/
def ReadsItems (items : Items) : Prop :=
  items.Valid → ∀ {fuel path depth index before blank rest map r}, Blank blank → depth + 1 + items.depth ≤ 256 →
    arrayFrom fuel (Json.render path) depth index (between before (blank ++ (items.text ++ ']' :: rest)) map) = some r →
    r = between (before ++ (blank ++ (items.text ++ [']']))) rest (notes map (items.places path index (before ++ blank)))

def ReadsMembers (members : Members) : Prop :=
  members.Valid → ∀ {fuel path depth before blank rest map r}, Blank blank → depth + 1 + members.depth ≤ 256 →
    objectFrom fuel (Json.render path) depth (between before (blank ++ (members.text ++ '\x7d' :: rest)) map) = some r →
    r = between (before ++ (blank ++ (members.text ++ ['\x7d']))) rest (notes map (members.places path (before ++ blank)))

theorem ptr_index (path : List Text) (index : Nat) :
    ptr (Json.render path) (Nat.toDigits 10 index) = Json.render (path ++ [Nat.toDigits 10 index]) := ptr_render path _

theorem between_record (path : List Text) (start before rest : Text) (map : List (Text × Position)) :
    (between before rest map).record (Json.render path) (.of start) = between before rest (note map (path, start)) := by
  unfold record note between
  dsimp only
  split_ifs <;> rfl

/-- A character of a scalar, which cannot start another value. -/
def ScalarChar (c : Char) : Prop := inScalar c = true ∧ c ≠ '\x7b' ∧ c ≠ '[' ∧ c ≠ '"' ∧ c.toNat < 128

instance (c : Char) : Decidable (ScalarChar c) := inferInstanceAs (Decidable (_ ∧ _))

theorem scalarChar_of_isNumeral {c : Char} (h : isNumeral c = true) : ScalarChar c := by
  have hchar : ∀ n : Fin 128, isNumeral (Char.ofNat n) = true → ScalarChar (Char.ofNat n) := by decide
  have hlt : c.toNat < 128 := by
    simp only [isNumeral, Bool.or_eq_true, decide_eq_true_eq] at h
    rcases h with ((((hc | rfl) | rfl) | rfl) | rfl) | rfl
    · exact Nat.lt_of_le_of_lt (Char.isDigit_iff_toNat.1 hc).2 (by decide)
    all_goals decide
  have hc := hchar ⟨c.toNat, hlt⟩
  rw [Char.ofNat_toNat] at hc
  exact hc h

theorem scalar_chars {t : Text} (h : (Cst.scalar t).Valid) : t ≠ [] ∧ ∀ c ∈ t, ScalarChar c := by
  rcases h with rfl | rfl | rfl | h
  · refine ⟨by decide, ?_⟩
    simp [ScalarChar]
    decide
  · refine ⟨by decide, ?_⟩
    simp [ScalarChar]
    decide
  · refine ⟨by decide, ?_⟩
    simp [ScalarChar]
    decide
  · exact ⟨h.numeral.1, fun c hc => scalarChar_of_isNumeral (h.numeral.2 c hc)⟩

theorem inScalar_iff {c : Char} : inScalar c = true ↔ c ≠ ',' ∧ c ≠ '\x7d' ∧ c ≠ ']' ∧ isWhitespace c = false := by
  simp [inScalar, and_assoc]

/-- A value starts with a character that the loops take for one. -/
theorem Cst.head {v : Cst} (h : v.Valid) :
    ∃ c t, v.text = c :: t ∧ isWhitespace c = false ∧ c ≠ ']' ∧ c ≠ ',' ∧ c.toNat < 128 := by
  cases v with
  | scalar t =>
    obtain ⟨hne, hchars⟩ := scalar_chars h
    obtain ⟨c, t, rfl⟩ := List.exists_cons_of_ne_nil hne
    obtain ⟨hin, -, -, -, hascii⟩ := hchars c (by simp)
    obtain ⟨hcomma, -, hbracket, hws⟩ := inScalar_iff.1 hin
    exact ⟨c, t, rfl, hws, hbracket, hcomma, hascii⟩
  | string parts => exact ⟨_, _, rfl, by decide, by decide, by decide, by decide⟩
  | array blank items => exact ⟨_, _, rfl, by decide, by decide, by decide, by decide⟩
  | object blank members => exact ⟨_, _, rfl, by decide, by decide, by decide, by decide⟩

theorem Stops.blank {blank rest : Text} (hblank : Blank blank) (hrest : Stops rest) : Stops (blank ++ rest) := by
  cases blank with
  | nil => exact hrest
  | cons c blank =>
    intro d hd
    obtain rfl : c = d := by simpa using hd
    have hc := isWhitespace_of_isBlank (hblank c (by simp))
    simp [inScalar, hc]

theorem value_fuel {fuel : Nat} {pointer : Text} {depth : Nat} {s r : Scan} (h : value fuel pointer depth s = some r) :
    ∃ k, fuel = k + 1 := by
  cases fuel with
  | zero => simp [Scan.value] at h
  | succ k => exact ⟨k, rfl⟩

theorem arrayFrom_fuel {fuel : Nat} {pointer : Text} {depth index : Nat} {s r : Scan}
    (h : arrayFrom fuel pointer depth index s = some r) : ∃ k, fuel = k + 1 := by
  cases fuel with
  | zero => simp [arrayFrom] at h
  | succ k => exact ⟨k, rfl⟩

theorem objectFrom_fuel {fuel : Nat} {pointer : Text} {depth : Nat} {s r : Scan}
    (h : objectFrom fuel pointer depth s = some r) :
    ∃ k, fuel = k + 1 := by
  cases fuel with
  | zero => simp [objectFrom] at h
  | succ k => exact ⟨k, rfl⟩

section Reads
variable {t blank before gap colonGap after : Text} {name parts : List Part} {items : Items} {members : Members} {v : Cst}

/-- White space before a character that is none. -/
theorem ws_cons {b blank rest : Text} {map : List (Text × Position)} {c : Char} (hblank : Blank blank)
    (hc : isWhitespace c = false) :
    (between b (blank ++ c :: rest) map).ws = between (b ++ blank) (c :: rest) map :=
  between_ws hblank fun d hd => by
    obtain rfl : c = d := by simpa using hd
    exact hc

theorem reads_scalar : Reads (.scalar t) := by
  intro hvalid fuel path depth b blank rest map r hblank hstops hdepth hr
  obtain ⟨hne, hchars⟩ := scalar_chars hvalid
  obtain ⟨c, t, rfl⟩ := List.exists_cons_of_ne_nil hne
  obtain ⟨hc, hbrace, hbracket, hquote, -⟩ := hchars c (by simp)
  obtain ⟨fuel, rfl⟩ := value_fuel hr
  rw [Cst.text, Scan.value, List.cons_append, ws_cons hblank (inScalar_iff.1 hc).2.2.2, between_peek] at hr
  dsimp only at hr
  rw [if_neg (by simp [hbrace]), if_neg (by simp [hbracket]), if_neg hquote, ← List.cons_append,
    between_skipWhile (fun d hd => (hchars d hd).1) hstops] at hr
  rw [← Option.some.inj hr, Cst.text, List.append_assoc]
  rfl

theorem reads_string : Reads (.string parts) := by
  intro hvalid fuel path depth b blank rest map r hblank hstops hdepth hr
  obtain ⟨fuel, rfl⟩ := value_fuel hr
  rw [Cst.text, Scan.value, literal, List.cons_append, ws_cons hblank (by decide), between_peek] at hr
  dsimp only at hr
  rw [if_neg (by simp), if_neg (by simp), if_pos rfl, ← List.cons_append, ← literal, string_literal hvalid] at hr
  rw [← Option.some.inj hr, Cst.text, List.append_assoc]
  rfl

theorem reads_array (h : ReadsItems items) : Reads (.array blank items) := by
  intro hvalid fuel path depth b gap rest map r hgap hstops hdepth hr
  obtain ⟨fuel, rfl⟩ := value_fuel hr
  rw [Cst.depth] at hdepth
  have htext : (Cst.array blank items).text ++ rest = '[' :: (blank ++ (items.text ++ ']' :: rest)) := by simp [Cst.text]
  rw [htext, Scan.value, ws_cons hgap (by decide), between_peek] at hr
  dsimp only at hr
  rw [if_neg (by simp), if_pos ⟨rfl, by omega⟩, between_bump] at hr
  rw [h hvalid.2 hvalid.1 (by omega) hr, Cst.places, Cst.text]
  simp [List.append_assoc]

theorem reads_object (h : ReadsMembers members) : Reads (.object blank members) := by
  intro hvalid fuel path depth b gap rest map r hgap hstops hdepth hr
  obtain ⟨fuel, rfl⟩ := value_fuel hr
  rw [Cst.depth] at hdepth
  have htext : (Cst.object blank members).text ++ rest = '\x7b' :: (blank ++ (members.text ++ '\x7d' :: rest)) := by
    simp [Cst.text]
  rw [htext, Scan.value, ws_cons hgap (by decide), between_peek] at hr
  dsimp only at hr
  rw [if_pos ⟨rfl, by omega⟩, between_bump] at hr
  rw [h hvalid.2 hvalid.1 (by omega) hr, Cst.places, Cst.text]
  simp [List.append_assoc]

/-! ### The loops -/

theorem readsItems_nil : ReadsItems .nil := by
  intro hvalid fuel path depth index b blank rest map r hblank hdepth hr
  obtain ⟨fuel, rfl⟩ := arrayFrom_fuel hr
  rw [Items.text, List.nil_append, arrayFrom, ws_cons hblank (by decide), between_peek] at hr
  dsimp only at hr
  rw [if_pos rfl, between_bump] at hr
  rw [← Option.some.inj hr, Items.text, List.append_assoc]
  rfl

/-- After an item the loop goes past the white space and the comma, where one follows. -/
theorem ReadsItems.more (h : ReadsItems items) (hvalid : items.Valid) {fuel path depth index b rest map r}
    (hblank : Blank blank)
    (hdepth : depth + 1 + items.depth ≤ 256)
    (hr : arrayFrom fuel (Json.render path) depth index
      (between b (blank ++ (items.comma ++ (items.text ++ ']' :: rest))) map) = some r) :
    r = between (b ++ (blank ++ (items.comma ++ (items.text ++ [']'])))) rest
      (notes map (items.places path index (b ++ (blank ++ items.comma)))) := by
  cases items with
  | nil =>
    rw [h hvalid hblank hdepth hr]
    rfl
  | cons before v after items =>
    obtain ⟨fuel, rfl⟩ := arrayFrom_fuel hr
    rw [Items.comma, List.singleton_append, arrayFrom, ws_cons hblank (by decide), between_peek] at hr
    dsimp only at hr
    rw [if_neg (by decide), if_pos rfl, between_bump] at hr
    have hnil : Blank [] := by simp [Blank]
    rw [h hvalid hnil hdepth hr, Items.comma]
    simp [List.append_assoc]

theorem stops_items (items : Items) (rest : Text) : Stops (items.comma ++ (items.text ++ ']' :: rest)) := by
  cases items <;> simp [Stops, Items.comma, Items.text, inScalar]

theorem stops_members (members : Members) (rest : Text) : Stops (members.comma ++ (members.text ++ '\x7d' :: rest)) := by
  cases members <;> simp [Stops, Members.comma, Members.text, inScalar]

theorem of_append_ne (b : Text) (ht : t ≠ []) : Position.of (b ++ t) ≠ Position.of b := by
  rw [← Position.foldl_after]
  exact fun heq => ht (Position.foldl_after_eq.1 heq)

theorem readsItems_cons (hv : Reads v) (h : ReadsItems items) : ReadsItems (.cons before v after items) := by
  intro hvalid fuel path depth index b blank rest map r hblank hdepth hr
  obtain ⟨hbefore, hvalue, hafter, hitems⟩ := hvalid
  rw [Items.depth] at hdepth
  obtain ⟨fuel, rfl⟩ := arrayFrom_fuel hr
  obtain ⟨c, t, htext, hws, hbracket, hcomma, -⟩ := Cst.head hvalue
  have hstops := Stops.blank hafter (stops_items items rest)
  have hread : blank ++ ((Items.cons before v after items).text ++ ']' :: rest) =
      (blank ++ before) ++ (v.text ++ (after ++ (items.comma ++ (items.text ++ ']' :: rest)))) := by simp [Items.text]
  rw [hread, htext, List.cons_append, arrayFrom, ws_cons (hblank.append hbefore) hws, between_peek] at hr
  dsimp only at hr
  rw [if_neg hbracket, if_neg hcomma, ptr_index, between_pos, between_record,
    ← List.cons_append, ← htext] at hr
  obtain ⟨s, hs, hr⟩ := Option.bind_eq_some_iff.1 hr
  have hs := hv hvalue blank_nil hstops (by omega) hs
  subst hs
  -- the value is not empty, so that nothing is skipped
  rw [between_pos, if_neg (of_append_ne _ (by simp [htext]))] at hr
  rw [h.more hitems hafter (by omega) hr, Items.places]
  simp [Items.text, notes, List.append_assoc]

theorem readsMembers_nil : ReadsMembers .nil := by
  intro hvalid fuel path depth b blank rest map r hblank hdepth hr
  obtain ⟨fuel, rfl⟩ := objectFrom_fuel hr
  rw [Members.text, List.nil_append, objectFrom, ws_cons hblank (by decide), between_peek] at hr
  dsimp only at hr
  rw [if_pos rfl, between_bump] at hr
  rw [← Option.some.inj hr, Members.text, List.append_assoc]
  rfl

theorem ReadsMembers.more (h : ReadsMembers members) (hvalid : members.Valid) {fuel path depth b rest map r}
    (hblank : Blank blank) (hdepth : depth + 1 + members.depth ≤ 256)
    (hr : objectFrom fuel (Json.render path) depth
      (between b (blank ++ (members.comma ++ (members.text ++ '\x7d' :: rest))) map) = some r) :
    r = between (b ++ (blank ++ (members.comma ++ (members.text ++ ['\x7d'])))) rest
      (notes map (members.places path (b ++ (blank ++ members.comma)))) := by
  cases members with
  | nil =>
    rw [h hvalid hblank hdepth hr]
    rfl
  | cons before name gap colonGap v after members =>
    obtain ⟨fuel, rfl⟩ := objectFrom_fuel hr
    rw [Members.comma, List.singleton_append, objectFrom, ws_cons hblank (by decide), between_peek] at hr
    dsimp only at hr
    rw [if_neg (by decide), if_neg (by decide), between_bump] at hr
    rw [h hvalid blank_nil hdepth hr, Members.comma]
    simp [List.append_assoc]

theorem readsMembers_cons (hv : Reads v) (h : ReadsMembers members) :
    ReadsMembers (.cons before name gap colonGap v after members) := by
  intro hvalid fuel path depth b blank rest map r hblank hdepth hr
  obtain ⟨hbefore, hname, hgap, hcolonGap, hvalue, hafter, hmembers⟩ := hvalid
  rw [Members.depth] at hdepth
  obtain ⟨fuel, rfl⟩ := objectFrom_fuel hr
  have hstops := Stops.blank hafter (stops_members members rest)
  generalize hu : after ++ (members.comma ++ (members.text ++ '\x7d' :: rest)) = u at hstops
  have hread : blank ++ ((Members.cons before name gap colonGap v after members).text ++ '\x7d' :: rest) =
      (blank ++ before) ++ '"' :: (closing name ++ (gap ++ ':' :: (colonGap ++ (v.text ++ u)))) := by
    simp [Members.text, literal, ← hu]
  rw [hread, objectFrom, ws_cons (hblank.append hbefore) (by decide), between_peek] at hr
  dsimp only at hr
  rw [if_neg (by decide), if_pos rfl, ← List.cons_append, ← literal, string_literal hname, between_pos, ptr_render,
    between_record,
    ws_cons hgap (by decide), colon, between_peek, if_pos rfl, between_bump] at hr
  obtain ⟨s, hs, hr⟩ := Option.bind_eq_some_iff.1 hr
  have hs := hv hvalue hcolonGap hstops (by omega) hs
  subst hs
  rw [← hu] at hr
  rw [h.more hmembers hafter (by omega) hr, Members.places]
  simp [Members.text, notes, List.append_assoc]

end Reads

/-- By recursion over values, items and members together. -/
theorem reads (v : Cst) : Reads v := by
  refine @Cst.rec Reads ReadsItems ReadsMembers ?scalar ?string ?array ?object ?noItems ?item ?noMembers ?member v
  case scalar => exact fun _ => reads_scalar
  case string => exact fun _ => reads_string
  case array => exact fun _ _ hitems => reads_array hitems
  case object => exact fun _ _ hmembers => reads_object hmembers
  case noItems => exact readsItems_nil
  case item => exact fun _ _ _ _ hv hrest => readsItems_cons hv hrest
  case noMembers => exact readsMembers_nil
  case member => exact fun _ _ _ _ _ _ _ hv hrest => readsMembers_cons hv hrest

/-! ## A document -/

theorem notes_eq {places : List (List Text × Text)} {map : List (Text × Position)} (hp : (places.map Prod.fst).Nodup)
    (hnew : ∀ p ∈ places, Json.render p.1 ∉ keysOf map) :
    notes map places = map ++ places.map fun p => (Json.render p.1, Position.of p.2) := by
  induction places generalizing map with
  | nil => simp [notes]
  | cons p places ih =>
    rw [List.map_cons, List.nodup_cons] at hp
    have hnote : note map p = map ++ [(Json.render p.1, .of p.2)] := if_neg (hnew p (by simp))
    have hrest : ∀ q ∈ places, Json.render q.1 ∉ keysOf (note map p) := by
      intro q hq
      rw [hnote, keysOf, List.map_append, List.mem_append, not_or]
      refine ⟨hnew q (by simp [hq]), fun heq => ?_⟩
      have hpath : q.1 = p.1 := Json.render_injective (List.mem_singleton.1 heq)
      exact hp.1 (hpath ▸ List.mem_map_of_mem hq)
    rw [show notes map (p :: places) = notes (note map p) places from rfl, ih hp.2 hrest, hnote]
    simp

/-- What the places of a document come to in the map. -/
def located (places : List (List Text × Text)) : List (Text × Position) :=
  places.map fun p => (Json.render p.1, Position.of p.2)

theorem document_eq {blank tail : Text} {v : Cst} (hblank : Blank blank) (htail : Blank tail) (hvalid : v.Valid)
    (hdistinct : v.Distinct) (hdepth : v.depth < 256) :
    ∃ s, (Scan.new (blank ++ (v.text ++ tail))).document = some s ∧ s.map = located (documentPlaces blank v) := by
  obtain ⟨c, t, htext, hws, -⟩ := Cst.head hvalid
  have hnew : (Scan.new (blank ++ (v.text ++ tail))).ws = between blank (v.text ++ tail) [] := by
    rw [htext, List.cons_append]
    exact ws_cons (b := []) hblank hws
  have hstops : Stops tail := by
    have h : Stops (tail ++ []) := Stops.blank htail fun d hd => by cases hd
    rwa [List.append_nil] at h
  obtain ⟨s, hs, -⟩ := document_ends (Scan.new (blank ++ (v.text ++ tail)))
  refine ⟨s, hs, ?_⟩
  rw [document, hnew, between_pos, show ([] : Text) = Json.render [] from rfl, between_record] at hs
  have hr := reads v hvalid blank_nil hstops (by omega) hs
  have hnodup := nodup_documentPlaces hdistinct blank
  rw [hr, List.append_nil]
  change notes [] (documentPlaces blank v) = _
  rw [notes_eq hnodup (fun _ _ => List.not_mem_nil)]
  rfl

end Scan

theorem newJson_eq {blank tail : Text} {v : Cst} (hblank : Blank blank) (htail : Blank tail) (hvalid : v.Valid)
    (hdistinct : v.Distinct) (hdepth : v.depth < 256) :
    newJson (blank ++ (v.text ++ tail)) = some (Scan.located (documentPlaces blank v)) := by
  have hmark : (blank ++ (v.text ++ tail)).head? ≠ some (Char.ofNat 0xFEFF) := by
    obtain ⟨c, t, htext, -, -, -, hascii⟩ := Scan.Cst.head hvalid
    cases blank with
    | nil =>
      rw [htext]
      rintro h
      obtain rfl : c = Char.ofNat 0xFEFF := by simpa using h
      revert hascii
      decide
    | cons d blank =>
      rintro h
      obtain rfl : d = Char.ofNat 0xFEFF := by simpa using h
      have hd := hblank (Char.ofNat 0xFEFF) (by simp)
      revert hd
      decide
  obtain ⟨s, hs, hmap⟩ := Scan.document_eq hblank htail hvalid hdistinct hdepth
  unfold newJson
  dsimp only
  rw [if_neg hmark, hs, Option.map_some, hmap]

/-- The scan of any text ends. -/
theorem newJson_ends (text : Text) : ∃ map, newJson text = some map := by
  unfold newJson
  dsimp only
  obtain ⟨s, hs, -⟩ := Scan.document_ends (Scan.new (if text.head? = some (Char.ofNat 0xFEFF) then text.tail else text))
  exact ⟨s.map, by rw [hs]; rfl⟩

/-! ## Pointers -/

/-- The longest recorded path that a path starts with. -/
def Nearest (places : List (List Text × Text)) (path : List Text) (place : List Text × Text) : Prop :=
  place ∈ places ∧ place.1 <+: path ∧ ∀ q ∈ places, q.1 <+: path → q.1.length ≤ place.1.length

theorem parent_ptr (path : List Text) (token : Text) : parent (Json.render (path ++ [token])) = Json.render path := by
  have hrender : Json.render (path ++ [token]) = Json.render path ++ '/' :: Json.escapePtr token :=
    (ptr_render path token).symm
  have hslash : ∀ c ∈ Json.escapePtr token, decide (c ≠ '/') = true := fun c hc =>
    decide_eq_true fun heq => Json.slash_not_mem_escapePtr token (heq ▸ hc)
  have hcut : (Json.render path ++ '/' :: Json.escapePtr token).rdropWhile (· ≠ '/') = Json.render path ++ ['/'] := by
    rw [List.rdropWhile, List.reverse_append, List.reverse_cons, List.append_assoc,
      List.dropWhile_append_of_pos (by simpa using hslash)]
    simp
  rw [parent, hrender, hcut, List.dropLast_concat]

/-- The position of a pointer is that of the longest recorded path it starts with. -/
theorem position_render {places : List (List Text × Text)} (hp : (places.map Prod.fst).Nodup)
    (hroot : [] ∈ places.map Prod.fst) (path : List Text) :
    ∃ place, Nearest places path place ∧ position (Scan.located places) (Json.render path) = some (.of place.2) := by
  have hlookup : ∀ q, (Scan.located places).lookup (Json.render q) = (places.lookup q).map Position.of :=
    fun q => lookup_map Json.render_injective Position.of places q
  induction path using List.reverseRecOn with
  | nil =>
    obtain ⟨place, hplace, hnil⟩ := List.mem_map.1 hroot
    refine ⟨place, ⟨hplace, hnil ▸ List.nil_prefix, fun q _ hq => ?_⟩, ?_⟩
    · rw [List.prefix_nil.1 hq]
      exact Nat.zero_le _
    · rw [position, hlookup, ← hnil, lookup_of_mem hp hplace]
      rfl
  | append_singleton path token ih =>
    rw [position, hlookup]
    cases hfound : places.lookup (path ++ [token]) with
    | some before =>
      exact ⟨(path ++ [token], before), ⟨mem_of_lookup hfound, List.prefix_refl _, fun q _ hq => hq.length_le⟩, rfl⟩
    | none =>
      obtain ⟨place, ⟨hplace, hprefix, hlongest⟩, hpos⟩ := ih
      refine ⟨place, ⟨hplace, hprefix.trans (List.prefix_append _ _), fun q hq hprefix' => hlongest q hq ?_⟩, ?_⟩
      · rcases List.prefix_concat_iff.1 hprefix' with heq | h
        · exact absurd (heq ▸ List.mem_map_of_mem hq) (lookup_eq_none.1 hfound)
        · exact h
      · have hne : Json.render (path ++ [token]) ≠ [] := by
          rw [Json.render_append]
          simp [Json.render]
        rw [Option.map_none]
        dsimp only
        rw [dif_neg hne, parent_ptr, hpos]

theorem mem_located {places : List (List Text × Text)} (hp : (places.map Prod.fst).Nodup) (pointer : Text) (at' : Position) :
    (Scan.located places).lookup pointer = some at' ↔
      ∃ path before, (path, before) ∈ places ∧ pointer = Json.render path ∧ at' = .of before := by
  constructor
  · intro h
    obtain ⟨⟨path, before⟩, hplace, heq⟩ := List.mem_map.1 (mem_of_lookup h)
    obtain ⟨rfl, rfl⟩ := Prod.mk.inj heq
    exact ⟨path, before, hplace, rfl, rfl⟩
  · rintro ⟨path, before, hplace, rfl, rfl⟩
    have h := lookup_map Json.render_injective Position.of places path
    rw [lookup_of_mem hp hplace] at h
    exact h

/-- **Of a valid document the locator records every member and item where it starts, and nothing else but the document
itself; a pointer that is not recorded is where its longest recorded ancestor is. The scan of any text ends.** -/
theorem newJson_located {blank tail : Text} {v : Cst} (hblank : Blank blank) (htail : Blank tail) (hvalid : v.Valid)
    (hdistinct : v.Distinct) (hdepth : v.depth < 256) :
    (∃ map, newJson (blank ++ (v.text ++ tail)) = some map ∧
      (∀ pointer at', map.lookup pointer = some at' ↔
        ∃ path before, (path, before) ∈ documentPlaces blank v ∧ pointer = Json.render path ∧ at' = .of before) ∧
      ∀ path, ∃ place, Nearest (documentPlaces blank v) path place ∧ position map (Json.render path) = some (.of place.2)) ∧
    ∀ text, ∃ map, newJson text = some map := by
  have hnodup := nodup_documentPlaces hdistinct blank
  refine ⟨⟨_, newJson_eq hblank htail hvalid hdistinct hdepth, mem_located hnodup, ?_⟩, newJson_ends⟩
  exact position_render hnodup (by simp [documentPlaces])

/-- An array under a name that is written as a pair of surrogates. -/
def smile : Cst :=
  .object [] (.cons [' '] [.pair "d83d".toList "de00".toList] [] [' '] (.array [] (.cons [] (.scalar ['1']) [] .nil)) [] .nil)

theorem smile_valid : smile.Valid := by
  have hhex : Hex4 "d83d".toList ∧ Hex4 "de00".toList := by
    exact ⟨⟨by decide, List.all_eq_true.1 (by decide)⟩, by decide, List.all_eq_true.1 (by decide)⟩
  have hone : IsNumber ['1'] := by
    refine ⟨[], ['1'], [], [], rfl, .inl rfl, .inr ⟨⟨by decide, List.forall_mem_singleton.2 rfl⟩, by decide⟩,
      .inl rfl, .inl rfl⟩
  have hname : ∀ p ∈ [Part.pair "d83d".toList "de00".toList], p.Valid := by
    intro p hp
    obtain rfl := List.mem_singleton.1 hp
    exact ⟨hhex.1, hhex.2, by decide, by decide⟩
  have hspace : Blank [' '] := List.forall_mem_singleton.2 rfl
  exact ⟨blank_nil, hspace, hname, blank_nil, hspace, ⟨blank_nil, blank_nil, .inr (.inr (.inr hone)), blank_nil, trivial⟩,
    blank_nil, trivial⟩

theorem newJson_located_smile :
    ∃ map, newJson "\n\x7b \"\\ud83d\\ude00\": [1]\x7d".toList = some map ∧
      map.lookup "/😀/0".toList = some ⟨2, 20⟩ := by
  have hblank : Blank ['\n'] := List.forall_mem_singleton.2 rfl
  have hdistinct : smile.Distinct := ⟨by decide, ⟨trivial, trivial⟩, trivial⟩
  obtain ⟨⟨map, hmap, hlookup, -⟩, -⟩ := newJson_located hblank blank_nil smile_valid hdistinct (by decide)
  refine ⟨map, hmap, (hlookup _ _).2 ?_⟩
  exact ⟨["😀".toList, ['0']], "\n\x7b \"\\ud83d\\ude00\": [".toList, by decide, by decide, by decide⟩

end Anvil.Contract.Locate
