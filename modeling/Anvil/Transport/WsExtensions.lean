import Anvil.Lib.Quoted
import Anvil.Lib.Run

/-!
# The `Sec-WebSocket-Extensions` header (`anvil-transport/src/ws_deflate.rs`)

* `parse` : the elements of an answer, as the client reads them;
* `IsAnswer` : the grammar of the header, its empty list elements and the whitespace in it included;
* `parse_iff` : the client reads what the grammar says, with any Unicode whitespace, and nothing else;
* `isAnswer_ows` : the answers among these whose whitespace is that of a header field.
-/

namespace Anvil.WsDeflate
open Anvil.Lib Anvil.Lib.Quoted

/-- One element: an extension and its parameters, in lower case. -/
structure Element where
  name : Text
  params : List (Text × Option Text)
deriving DecidableEq

def isTchar (c : Char) : Bool := c.isAlphanum || "!#$%&'*+-.^_`|~".toList.contains c

def isToken (s : Text) : Bool := !s.isEmpty && s.all isTchar

/-! ## Reading -/

/-- The value of a parameter, as a token or a quoted string. -/
def parseValue (k v : Text) : Except Text Text :=
  if 2 ≤ v.length ∧ v.head? = some '"' ∧ v.getLast? = some '"' then
    if isToken (unescape v.tail.dropLast) then .ok (unescape v.tail.dropLast)
    else .error ("the value of ".toList ++ k ++ " is not a token".toList)
  else if isToken v then .ok v
  else .error ("the value of ".toList ++ k ++ " is not a token".toList)

def parseParam (name p : Text) : Except Text (Text × Option Text) :=
  match splitOnce '=' p with
  | some (k, v) =>
    if isToken (trim k) then (parseValue (trim k) (trim v)).map fun v => (lower (trim k), some v)
    else .error ("'".toList ++ trim p ++ "' is not a valid parameter of ".toList ++ name)
  | none =>
    if isToken (trim p) then .ok (lower (trim p), none)
    else .error ("'".toList ++ trim p ++ "' is not a valid parameter of ".toList ++ name)

def unterminated : Text := "an unterminated quoted string".toList

/-- An extension of the name, and its parameters. -/
def parseNamed (name : Text) (params : List Text) : Except Text Element :=
  if isToken name then (params.mapM (parseParam name)).map fun params => ⟨lower name, params⟩
  else .error ("'".toList ++ name ++ "' is not a valid extension name".toList)

def parseItem (item : Text) : Except Text Element :=
  match splitOutside ';' item with
  | none => .error unterminated
  | some parts => parseNamed (trim (parts.headD [])) parts.tail

/-- One header field; empty list elements are ignored. -/
def parseField (value : Text) : Except Text (List Element) :=
  match splitOutside ',' value with
  | none => .error unterminated
  | some items => (items.filter fun item => trim item ≠ []).mapM parseItem

/-- Several header fields form one list. -/
def parse (values : List Text) : Except Text (List Element) := (values.mapM parseField).map List.flatten

/-! ## The grammar -/

/-- Whitespace, of some characters. -/
def Space (white : Char → Bool) (b : Text) : Prop := ∀ c ∈ b, white c = true

/-- A value written as a token or as a quoted string, whose text is a token. -/
def IsValue (v w : Text) : Prop := isToken v = true ∧ (w = v ∨ ∃ b, Escaped v b ∧ w = '"' :: (b ++ ['"']))

/-- A parameter, with whitespace around its words. -/
inductive IsParam (white : Char → Bool) : Text × Option Text → Text → Prop
  | flag {k before after : Text} : isToken k = true → Space white before → Space white after →
      IsParam white (lower k, none) (before ++ k ++ after)
  | value {k v w before after before' after' : Text} : isToken k = true → Space white before → Space white after →
      IsValue v w → Space white before' → Space white after' →
      IsParam white (lower k, some v) (before ++ k ++ after ++ '=' :: (before' ++ w ++ after'))

/-- An extension and its parameters, each after a semicolon. -/
def IsElement (white : Char → Bool) (e : Element) (t : Text) : Prop :=
  ∃ n before after ps, isToken n = true ∧ Space white before ∧ Space white after ∧ e.name = lower n ∧
    List.Forall₂ (IsParam white) e.params ps ∧ t = before ++ n ++ after ++ ps.flatMap (';' :: ·)

/-- An item of the list: an element, or nothing. -/
def IsItem (white : Char → Bool) : Option Element → Text → Prop
  | some e, t => IsElement white e t
  | none, t => Space white t

/-- A header field: items with commas between them. -/
def IsField (white : Char → Bool) (es : List Element) (value : Text) : Prop :=
  ∃ x xs t ts, IsItem white x t ∧ List.Forall₂ (IsItem white) xs ts ∧ es = (x :: xs).filterMap id ∧
    value = t ++ ts.flatMap (',' :: ·)

/-- Header fields with these elements. -/
def IsAnswer (white : Char → Bool) (es : List Element) (values : List Text) : Prop :=
  ∃ ess, List.Forall₂ (IsField white) ess values ∧ es = ess.flatten

/-! ## Characters -/

theorem isAlphanum_ascii {c : Char} (h : c.isAlphanum = true) : c.toNat < 128 := by
  have hbound (d : Char) (hd : d.toNat < 128) (hle : c.val ≤ d.val) : c.toNat < 128 :=
    lt_of_le_of_lt (UInt32.le_iff_toNat_le.1 hle) hd
  rcases Bool.or_eq_true_iff.1 h with h | h
  · rcases Bool.or_eq_true_iff.1 h with h | h
    · exact hbound 'Z' (by decide) (of_decide_eq_true h).2
    · exact hbound 'z' (by decide) (of_decide_eq_true (Bool.and_eq_true_iff.1 h).2)
  · exact hbound '9' (by decide) (of_decide_eq_true (Bool.and_eq_true_iff.1 h).2)

theorem isTchar_spec {c : Char} (h : isTchar c = true) :
    isWhitespace c = false ∧ c ≠ '"' ∧ c ≠ '\\' ∧ c ≠ ',' ∧ c ≠ ';' ∧ c ≠ '=' := by
  have hascii : c.toNat < 128 := by
    unfold isTchar at h
    rcases Bool.or_eq_true_iff.1 h with h | h
    · exact isAlphanum_ascii h
    · have hall : ("!#$%&'*+-.^_`|~".toList.all fun d => d.toNat < 128) = true := by decide
      exact of_decide_eq_true (List.all_eq_true.1 hall c (by simpa using h))
  have hall : ∀ n < 128, isTchar (Char.ofNat n) = true → isWhitespace (Char.ofNat n) = false ∧ Char.ofNat n ≠ '"' ∧
      Char.ofNat n ≠ '\\' ∧ Char.ofNat n ≠ ',' ∧ Char.ofNat n ≠ ';' ∧ Char.ofNat n ≠ '=' := by
    decide
  have := hall c.toNat hascii
  rw [Char.ofNat_toNat] at this
  exact this h

theorem isToken_spec {s : Text} (h : isToken s = true) : s ≠ [] ∧ ∀ c ∈ s, isTchar c = true := by
  unfold isToken at h
  simpa using h

theorem blank_spec {b : Text} (h : Blank b) {c : Char} (hc : c ∈ b) : c ≠ '"' ∧ c ≠ ',' ∧ c ≠ ';' ∧ c ≠ '=' := by
  have hspace := h c hc
  refine ⟨?_, ?_, ?_, ?_⟩ <;> (rintro rfl; revert hspace; decide)

/-- A word with whitespace around it. -/
theorem trim_word {before k after : Text} (hk : isToken k = true) (hb : Blank before) (ha : Blank after) :
    trim (before ++ k ++ after) = k := by
  obtain ⟨hne, hchars⟩ := isToken_spec hk
  exact trim_around hb ha hne (fun c hc => (isTchar_spec (hchars c (List.mem_of_mem_head? hc))).1)
    fun c hc => (isTchar_spec (hchars c (List.mem_of_mem_getLast? hc))).1

/-- A separator of the header. -/
def IsSeparator (sep : Char) : Prop := sep = ',' ∨ sep = ';'

theorem piece_word {sep : Char} (hsep : IsSeparator sep) {before k after : Text} (hk : isToken k = true) (hb : Blank before)
    (ha : Blank after) : Piece sep (before ++ k ++ after) := by
  refine ends_plain fun c hc => ?_
  have hplain : c ≠ '"' ∧ c ≠ ',' ∧ c ≠ ';' := by
    rcases List.mem_append.1 hc with hc | hc
    · rcases List.mem_append.1 hc with hc | hc
      · exact ⟨(blank_spec hb hc).1, (blank_spec hb hc).2.1, (blank_spec hb hc).2.2.1⟩
      · have := isTchar_spec ((isToken_spec hk).2 c hc)
        exact ⟨this.2.1, this.2.2.2.1, this.2.2.2.2.1⟩
    · exact ⟨(blank_spec ha hc).1, (blank_spec ha hc).2.1, (blank_spec ha hc).2.2.1⟩
  rcases hsep with rfl | rfl
  · exact ⟨hplain.1, hplain.2.1⟩
  · exact ⟨hplain.1, hplain.2.2⟩

theorem piece_blank {sep : Char} (hsep : IsSeparator sep) {b : Text} (hb : Blank b) : Piece sep b := by
  refine ends_plain fun c hc => ?_
  have hplain := blank_spec hb hc
  rcases hsep with rfl | rfl
  · exact ⟨hplain.1, hplain.2.1⟩
  · exact ⟨hplain.1, hplain.2.2.1⟩

theorem equals_not_mem {before k after : Text} (hk : isToken k = true) (hb : Blank before) (ha : Blank after) :
    '=' ∉ before ++ k ++ after := by
  intro hc
  rcases List.mem_append.1 hc with hc | hc
  · rcases List.mem_append.1 hc with hc | hc
    · exact (blank_spec hb hc).2.2.2 rfl
    · exact (isTchar_spec ((isToken_spec hk).2 _ hc)).2.2.2.2.2 rfl
  · exact (blank_spec ha hc).2.2.2 rfl

/-! ## Values -/

/-- A written value: it is one piece, what it starts and ends with, and how it is read. -/
theorem isValue_spec {v w : Text} (h : IsValue v w) : (∀ sep, IsSeparator sep → Piece sep w) ∧ w ≠ [] ∧
    (∀ c, w.head? = some c → isWhitespace c = false) ∧ (∀ c, w.getLast? = some c → isWhitespace c = false) ∧
    ∀ k, parseValue k w = .ok v := by
  obtain ⟨hv, rfl | ⟨b, hb, rfl⟩⟩ := h
  · obtain ⟨hne, hchars⟩ := isToken_spec hv
    refine ⟨fun sep hsep => ?_, hne, fun c hc => (isTchar_spec (hchars c (List.mem_of_mem_head? hc))).1,
      fun c hc => (isTchar_spec (hchars c (List.mem_of_mem_getLast? hc))).1, fun k => ?_⟩
    · have := @piece_word _ hsep [] _ [] hv (fun c hc => (by cases hc)) fun c hc => (by cases hc)
      rwa [List.nil_append, List.append_nil] at this
    · unfold parseValue
      rw [if_neg, if_pos hv]
      rintro ⟨-, hhead, -⟩
      exact (isTchar_spec (hchars _ (List.mem_of_mem_head? hhead))).2.1 rfl
  · refine ⟨fun sep hsep => ?_, List.cons_ne_nil _ _, fun c hc => ?_, fun c hc => ?_, fun k => ?_⟩
    · unfold Piece
      rw [ends, if_pos rfl, ends_append _ (ends_escaped hb)]
      rfl
    · rw [← Option.some.inj hc]
      decide
    · rw [← List.cons_append, List.getLast?_concat] at hc
      rw [← Option.some.inj hc]
      decide
    · unfold parseValue
      have hbody : ('"' :: (b ++ ['"'])).tail.dropLast = b := by rw [List.tail_cons, List.dropLast_concat]
      rw [hbody, unescape_escaped hb, if_pos, if_pos hv]
      refine ⟨?_, rfl, ?_⟩
      · rw [List.length_cons, List.length_append, List.length_singleton]
        omega
      · rw [← List.cons_append, List.getLast?_concat]

/-- A value that is read, in a piece, was written. -/
theorem isValue_of_parseValue {sep : Char} {k v w after : Text} (h : parseValue k w = .ok v) (ha : Blank after)
    (hpiece : Piece sep (w ++ after)) : IsValue v w := by
  unfold parseValue at h
  split_ifs at h with hquoted htoken htoken'
  · obtain ⟨hlen, hhead, hlast⟩ := hquoted
    obtain rfl := Except.ok.inj h
    have hw : w = '"' :: (w.tail.dropLast ++ ['"']) := by
      obtain ⟨t, rfl⟩ : ∃ t, w = '"' :: t := by
        cases w with
        | nil => cases hhead
        | cons c t => exact ⟨t, by rw [Option.some.inj hhead]⟩
      rcases List.eq_nil_or_concat t with rfl | ⟨b, d, rfl⟩
      · simp at hlen
      · rw [List.concat_eq_append, ← List.cons_append, List.getLast?_concat] at hlast
        rw [List.concat_eq_append, List.tail_cons, List.dropLast_concat, Option.some.inj hlast]
    refine ⟨htoken, .inr ⟨w.tail.dropLast, ?_, hw⟩⟩
    refine @escaped_unescape sep after (fun c hc => (blank_spec ha hc).1) _
      (fun c hc => (isTchar_spec ((isToken_spec htoken).2 c hc)).2.1) ?_
    unfold Piece at hpiece
    rw [hw, List.cons_append, ends, if_pos rfl, List.append_assoc] at hpiece
    exact hpiece
  · obtain rfl := Except.ok.inj h
    exact ⟨htoken', .inl rfl⟩

/-! ## Parameters -/

theorem piece_param {sep : Char} (hsep : IsSeparator sep) {x : Text × Option Text} {p : Text} (h : IsParam isWhitespace x p) :
    Piece sep p := by
  cases h with
  | flag hk hb ha => exact piece_word hsep hk hb ha
  | @value k v w before after before' after' hk hb ha hv hb' ha' =>
    have hequals : '=' ≠ sep := by rcases hsep with rfl | rfl <;> decide
    unfold Piece
    rw [ends_append _ (piece_word hsep hk hb ha), ends, if_neg (by decide), if_neg hequals, List.append_assoc,
      ends_append _ (piece_blank hsep hb'), ends_append _ ((isValue_spec hv).1 sep hsep), piece_blank hsep ha']

theorem parseParam_of_isParam {x : Text × Option Text} {p : Text} (h : IsParam isWhitespace x p) (name : Text) :
    parseParam name p = .ok x := by
  cases h with
  | flag hk hb ha =>
    unfold parseParam
    rw [splitOnce_of_not_mem (equals_not_mem hk hb ha)]
    simp only
    rw [trim_word hk hb ha, if_pos hk]
  | @value k v w before after before' after' hk hb ha hv hb' ha' =>
    obtain ⟨-, hne, hhead, hlast, hparse⟩ := isValue_spec hv
    unfold parseParam
    rw [splitOnce_of_mem (equals_not_mem hk hb ha)]
    simp only
    rw [trim_word hk hb ha, if_pos hk, trim_around hb' ha' hne hhead hlast, hparse]
    rfl

theorem isParam_of_parseParam {x : Text × Option Text} {name p : Text} (h : parseParam name p = .ok x) {sep : Char}
    (hsep : IsSeparator sep) (hpiece : Piece sep p) : IsParam isWhitespace x p := by
  unfold parseParam at h
  cases hsplit : splitOnce '=' p with
  | none =>
    rw [hsplit] at h
    simp only at h
    split_ifs at h with hk
    obtain ⟨before, after, hp, hb, ha⟩ := exists_trim p
    obtain rfl := Except.ok.inj h
    generalize trim p = k at hp hk ⊢
    rw [hp]
    exact .flag hk hb ha
  | some s =>
    obtain ⟨l, r⟩ := s
    rw [hsplit] at h
    simp only at h
    split_ifs at h with hk
    obtain ⟨before, after, hl, hb, ha⟩ := exists_trim l
    obtain ⟨before', after', hr, hb', ha'⟩ := exists_trim r
    cases hvalue : parseValue (trim l) (trim r) with
    | error e =>
      rw [hvalue] at h
      cases h
    | ok v =>
      rw [hvalue] at h
      obtain rfl := Except.ok.inj h
      rw [splitOnce_some hsplit] at hpiece ⊢
      have hequals : '=' ≠ sep := by rcases hsep with rfl | rfl <;> decide
      have hright : Piece sep (trim r ++ after') := by
        unfold Piece at hpiece ⊢
        rw [hl, ends_append _ (piece_word hsep hk hb ha), ends, if_neg (by decide), if_neg hequals, hr, List.append_assoc,
          ends_append _ (piece_blank hsep hb')] at hpiece
        exact hpiece
      have hv := isValue_of_parseValue hvalue ha' hright
      generalize trim l = k at hl hk ⊢
      generalize trim r = w at hr hv
      rw [hl, hr]
      exact .value hk hb ha hv hb' ha'

/-! ## Elements -/

theorem forall_right {α β : Type} {R : α → β → Prop} {P : β → Prop} (hP : ∀ x y, R x y → P y) {xs : List α} {ys : List β}
    (h : List.Forall₂ R xs ys) : ∀ y ∈ ys, P y := by
  induction h with
  | nil => exact fun y hy => (by cases hy)
  | cons hxy _ ih => exact List.forall_mem_cons.2 ⟨hP _ _ hxy, ih⟩

/-- A text that is read as pieces at another separator is a piece. -/
theorem piece_flatMap {sep sep' : Char} (hsep : sep' ≠ sep)
    (hquote : sep' ≠ '"') {ps : List Text} (hps : ∀ p ∈ ps, Piece sep p) :
    Piece sep (ps.flatMap (sep' :: ·)) := by
  induction ps with
  | nil => rfl
  | cons p ps ih =>
    obtain ⟨hp, hps⟩ := List.forall_mem_cons.1 hps
    unfold Piece
    rw [List.flatMap_cons, List.cons_append, ends, if_neg hquote, if_neg hsep, ends_append _ hp]
    exact ih hps

/-- A text with a word in it is more than whitespace. -/
theorem trim_ne_nil {t : Text} {c : Char} (hc : c ∈ t) (h : isWhitespace c = false) : trim t ≠ [] := by
  intro hnil
  obtain ⟨before, after, ht, hb, ha⟩ := exists_trim t
  rw [hnil, List.append_nil] at ht
  rw [ht] at hc
  have hspace : isWhitespace c = true := (List.mem_append.1 hc).elim (hb c) (ha c)
  rw [h] at hspace
  cases hspace

theorem parseItem_of_isElement {e : Element} {t : Text} (h : IsElement isWhitespace e t) :
    parseItem t = .ok e ∧ Piece ',' t ∧ trim t ≠ [] := by
  obtain ⟨n, before, after, ps, hn, hb, ha, hname, hps, rfl⟩ := h
  have hpiece {sep : Char} (hsep : IsSeparator sep) : ∀ p ∈ ps, Piece sep p :=
    forall_right (fun _ _ hx => piece_param hsep hx) hps
  have hsplit : splitOutside ';' (before ++ n ++ after ++ ps.flatMap (';' :: ·)) = some ((before ++ n ++ after) :: ps) :=
    (splitOutside_iff (by decide)).2 ⟨_, ps, rfl, piece_word (.inr rfl) hn hb ha, hpiece (.inr rfl), rfl⟩
  refine ⟨?_, ?_, ?_⟩
  · unfold parseItem
    rw [hsplit]
    change parseNamed (trim (before ++ n ++ after)) ps = _
    unfold parseNamed
    rw [trim_word hn hb ha, if_pos hn, mapM_ok.2 (hps.imp fun _ _ hx => parseParam_of_isParam hx n), ← hname]
    rfl
  · unfold Piece
    rw [ends_append _ (piece_word (.inl rfl) hn hb ha)]
    exact piece_flatMap (by decide) (by decide) (hpiece (.inl rfl))
  · obtain ⟨hne, hchars⟩ := isToken_spec hn
    obtain ⟨c, hc⟩ := List.exists_mem_of_ne_nil n hne
    exact trim_ne_nil (c := c) (by simp [hc]) (isTchar_spec (hchars c hc)).1

theorem isElement_of_parseItem {e : Element} {t : Text} (h : parseItem t = .ok e) : IsElement isWhitespace e t := by
  unfold parseItem at h
  cases hsplit : splitOutside ';' t with
  | none =>
    rw [hsplit] at h
    cases h
  | some parts =>
    obtain ⟨p, ps, rfl, hp, hps, ht⟩ := (splitOutside_iff (by decide)).1 hsplit
    rw [hsplit] at h
    change parseNamed (trim p) ps = _ at h
    unfold parseNamed at h
    split_ifs at h with hn
    cases hparams : ps.mapM (parseParam (trim p)) with
    | error e =>
      rw [hparams] at h
      cases h
    | ok params =>
      rw [hparams] at h
      obtain rfl := Except.ok.inj h
      obtain ⟨before, after, htrim, hb, ha⟩ := exists_trim p
      have hread : List.Forall₂ (IsParam isWhitespace) params ps := by
        have hall := mapM_ok.1 hparams
        clear hparams h hsplit ht
        induction hall with
        | nil => exact .nil
        | cons hx _ ih =>
          obtain ⟨hp', hps⟩ := List.forall_mem_cons.1 hps
          exact .cons (isParam_of_parseParam hx (.inr rfl) hp') (ih hps)
      refine ⟨trim p, before, after, ps, hn, hb, ha, rfl, hread, ?_⟩
      rw [← htrim]
      exact ht

/-! ## Fields -/

/-- The items of a field that are not empty. -/
theorem mapM_items {xs : List (Option Element)} {ts : List Text} (h : List.Forall₂ (IsItem isWhitespace) xs ts) :
    (ts.filter fun t => trim t ≠ []).mapM parseItem = .ok (xs.filterMap id) := by
  induction h with
  | nil => rfl
  | @cons x t xs ts hx _ ih =>
    cases x with
    | none =>
      rw [List.filter_cons_of_neg (by simp [trim_blank (show Blank t from hx)]), ih]
      rfl
    | some e =>
      obtain ⟨hparse, -, htrim⟩ := parseItem_of_isElement hx
      rw [List.filter_cons_of_pos (by simp [htrim]), List.mapM_cons, hparse, ih]
      rfl

theorem piece_item {x : Option Element} {t : Text} (h : IsItem isWhitespace x t) : Piece ',' t := by
  cases x with
  | none => exact piece_blank (.inl rfl) h
  | some e => exact (parseItem_of_isElement h).2.1

/-- The items that are read, with the empty ones between them. -/
theorem exists_items {ts : List Text} : ∀ {es : List Element}, (ts.filter fun t => trim t ≠ []).mapM parseItem = .ok es →
    ∃ xs, List.Forall₂ (IsItem isWhitespace) xs ts ∧ es = xs.filterMap id := by
  induction ts with
  | nil =>
    intro es h
    exact ⟨[], .nil, (Except.ok.inj h).symm⟩
  | cons t ts ih =>
    intro es h
    by_cases htrim : trim t = []
    · rw [List.filter_cons_of_neg (by simp [htrim])] at h
      obtain ⟨xs, hxs, rfl⟩ := ih h
      obtain ⟨before, after, ht, hb, ha⟩ := exists_trim t
      rw [htrim, List.append_nil] at ht
      have hblank : Blank t := fun c hc => by
        rw [ht] at hc
        exact (List.mem_append.1 hc).elim (hb c) (ha c)
      exact ⟨none :: xs, .cons hblank hxs, rfl⟩
    · rw [List.filter_cons_of_pos (by simp [htrim]), mapM_ok, List.forall₂_cons_right_iff] at h
      obtain ⟨e, es, he, hes, rfl⟩ := h
      obtain ⟨xs, hxs, rfl⟩ := ih (mapM_ok.2 hes)
      exact ⟨some e :: xs, .cons (isElement_of_parseItem he) hxs, rfl⟩

theorem parseField_iff {value : Text} {es : List Element} : parseField value = .ok es ↔ IsField isWhitespace es value := by
  unfold parseField IsField
  refine ⟨fun h => ?_, ?_⟩
  · cases hsplit : splitOutside ',' value with
    | none =>
      rw [hsplit] at h
      cases h
    | some items =>
      obtain ⟨t, ts, rfl, -, -, hvalue⟩ := (splitOutside_iff (by decide)).1 hsplit
      rw [hsplit] at h
      obtain ⟨xs, hxs, hes⟩ := exists_items h
      obtain ⟨x, xs', hx, hxs', rfl⟩ := List.forall₂_cons_right_iff.1 hxs
      exact ⟨x, xs', t, ts, hx, hxs', hes, hvalue⟩
  · rintro ⟨x, xs, t, ts, hx, hxs, rfl, rfl⟩
    have hsplit : splitOutside ',' (t ++ ts.flatMap (',' :: ·)) = some (t :: ts) :=
      (splitOutside_iff (by decide)).2 ⟨t, ts, rfl, piece_item hx,
        forall_right (P := Piece ',') (fun _ _ => piece_item) hxs, rfl⟩
    rw [hsplit]
    exact mapM_items (.cons hx hxs)

/-- **The client reads what the grammar says**, and nothing else. -/
theorem parse_iff {values : List Text} {es : List Element} : parse values = .ok es ↔ IsAnswer isWhitespace es values := by
  unfold parse IsAnswer
  refine ⟨fun h => ?_, ?_⟩
  · cases hread : values.mapM parseField with
    | error e =>
      rw [hread] at h
      cases h
    | ok ess =>
      rw [hread] at h
      exact ⟨ess, (mapM_ok.1 hread).imp fun _ _ => parseField_iff.1, (Except.ok.inj h).symm⟩
  · rintro ⟨ess, hess, rfl⟩
    rw [mapM_ok.2 (hess.imp fun _ _ => parseField_iff.2)]
    rfl

/-! ## Optional whitespace -/

/-- The whitespace of a header field. -/
def isOws (c : Char) : Bool := c = ' ' ∨ c = '\t'

/-- All whitespace is that of a header field. -/
def Narrow (t : Text) : Prop := ∀ c ∈ t, isWhitespace c = true → isOws c = true

theorem isWhitespace_of_isOws {c : Char} (h : isOws c = true) : isWhitespace c = true := by
  unfold isOws at h
  rcases of_decide_eq_true h with rfl | rfl <;> decide

theorem narrow_append {s t : Text} : Narrow (s ++ t) ↔ Narrow s ∧ Narrow t := List.forall_mem_append

theorem narrow_cons {c : Char} {t : Text} (hc : isWhitespace c = false) : Narrow (c :: t) ↔ Narrow t := by
  unfold Narrow
  rw [List.forall_mem_cons]
  refine and_iff_right fun h => ?_
  rw [hc] at h
  cases h

theorem narrow_flatMap {c : Char} (hc : isWhitespace c = false) {ts : List Text} :
    Narrow (ts.flatMap (c :: ·)) ↔ ∀ t ∈ ts, Narrow t := by
  induction ts with
  | nil => simp [Narrow]
  | cons t ts ih => rw [List.flatMap_cons, narrow_append, narrow_cons hc, ih, List.forall_mem_cons]

theorem narrow_token {k : Text} (hk : isToken k = true) : Narrow k := by
  intro c hc hwhite
  rw [(isTchar_spec ((isToken_spec hk).2 c hc)).1] at hwhite
  cases hwhite

theorem narrow_escaped {t b : Text} (h : Escaped t b) (ht : Narrow t) : Narrow b := by
  induction h with
  | nil => exact ht
  | plain _ _ _ ih =>
    obtain ⟨hc, ht⟩ := List.forall_mem_cons.1 ht
    exact List.forall_mem_cons.2 ⟨hc, ih ht⟩
  | pair _ ih =>
    obtain ⟨hc, ht⟩ := List.forall_mem_cons.1 ht
    exact (narrow_cons (by decide)).2 (List.forall_mem_cons.2 ⟨hc, ih ht⟩)

theorem narrow_value {v w : Text} (h : IsValue v w) : Narrow w := by
  obtain ⟨hv, rfl | ⟨b, hb, rfl⟩⟩ := h
  · exact narrow_token hv
  · rw [narrow_cons (by decide), narrow_append, narrow_cons (by decide)]
    exact ⟨narrow_escaped hb (narrow_token hv), fun c hc => (by cases hc)⟩

theorem space_iff {b : Text} : Space isOws b ↔ Space isWhitespace b ∧ Narrow b := by
  constructor
  · exact fun h => ⟨fun c hc => isWhitespace_of_isOws (h c hc), fun c hc _ => h c hc⟩
  · exact fun h c hc => h.2 c hc (h.1 c hc)

theorem forall₂_narrow {α : Type} {R R' : α → Text → Prop} (h : ∀ x t, R x t ↔ R' x t ∧ Narrow t) {xs : List α}
    {ts : List Text} : List.Forall₂ R xs ts ↔ List.Forall₂ R' xs ts ∧ ∀ t ∈ ts, Narrow t := by
  induction ts generalizing xs with
  | nil => simp
  | cons t ts ih =>
    rw [List.forall₂_cons_right_iff, List.forall₂_cons_right_iff, List.forall_mem_cons]
    constructor
    · rintro ⟨x, xs, hx, hxs, rfl⟩
      obtain ⟨hx, ht⟩ := (h x t).1 hx
      obtain ⟨hxs, hts⟩ := ih.1 hxs
      exact ⟨⟨x, xs, hx, hxs, rfl⟩, ht, hts⟩
    · rintro ⟨⟨x, xs, hx, hxs, rfl⟩, ht, hts⟩
      exact ⟨x, xs, (h x t).2 ⟨hx, ht⟩, ih.2 ⟨hxs, hts⟩, rfl⟩

theorem isParam_ows {x : Text × Option Text} {p : Text} : IsParam isOws x p ↔ IsParam isWhitespace x p ∧ Narrow p := by
  constructor
  · intro h
    cases h with
    | flag hk hb ha =>
      rw [space_iff] at hb ha
      exact ⟨.flag hk hb.1 ha.1, narrow_append.2 ⟨narrow_append.2 ⟨hb.2, narrow_token hk⟩, ha.2⟩⟩
    | value hk hb ha hv hb' ha' =>
      rw [space_iff] at hb ha hb' ha'
      refine ⟨.value hk hb.1 ha.1 hv hb'.1 ha'.1, ?_⟩
      rw [narrow_append, narrow_append, narrow_append, narrow_cons (by decide), narrow_append, narrow_append]
      exact ⟨⟨⟨hb.2, narrow_token hk⟩, ha.2⟩, ⟨hb'.2, narrow_value hv⟩, ha'.2⟩
  · rintro ⟨h, hp⟩
    cases h with
    | flag hk hb ha =>
      obtain ⟨hp, ha'⟩ := narrow_append.1 hp
      exact .flag hk (space_iff.2 ⟨hb, (narrow_append.1 hp).1⟩) (space_iff.2 ⟨ha, ha'⟩)
    | value hk hb ha hv hb' ha' =>
      rw [narrow_append, narrow_append, narrow_append, narrow_cons (by decide), narrow_append, narrow_append] at hp
      obtain ⟨⟨⟨nb, -⟩, na⟩, ⟨nb', -⟩, na'⟩ := hp
      exact .value hk (space_iff.2 ⟨hb, nb⟩) (space_iff.2 ⟨ha, na⟩) hv (space_iff.2 ⟨hb', nb'⟩) (space_iff.2 ⟨ha', na'⟩)

theorem isElement_ows {e : Element} {t : Text} : IsElement isOws e t ↔ IsElement isWhitespace e t ∧ Narrow t := by
  constructor
  · rintro ⟨n, before, after, ps, hn, hb, ha, hname, hps, rfl⟩
    rw [space_iff] at hb ha
    obtain ⟨hps, nps⟩ := (forall₂_narrow fun _ _ => isParam_ows).1 hps
    refine ⟨⟨n, before, after, ps, hn, hb.1, ha.1, hname, hps, rfl⟩, ?_⟩
    rw [narrow_append, narrow_append, narrow_append, narrow_flatMap (by decide)]
    exact ⟨⟨⟨hb.2, narrow_token hn⟩, ha.2⟩, nps⟩
  · rintro ⟨⟨n, before, after, ps, hn, hb, ha, hname, hps, rfl⟩, ht⟩
    rw [narrow_append, narrow_append, narrow_append, narrow_flatMap (by decide)] at ht
    obtain ⟨⟨⟨nb, -⟩, na⟩, nps⟩ := ht
    exact ⟨n, before, after, ps, hn, space_iff.2 ⟨hb, nb⟩, space_iff.2 ⟨ha, na⟩, hname,
      (forall₂_narrow fun _ _ => isParam_ows).2 ⟨hps, nps⟩, rfl⟩

theorem isItem_ows {x : Option Element} {t : Text} : IsItem isOws x t ↔ IsItem isWhitespace x t ∧ Narrow t := by
  cases x with
  | none => exact space_iff
  | some e => exact isElement_ows

theorem isField_ows {es : List Element} {value : Text} :
    IsField isOws es value ↔ IsField isWhitespace es value ∧ Narrow value := by
  constructor
  · rintro ⟨x, xs, t, ts, hx, hxs, hes, rfl⟩
    obtain ⟨hx, ht⟩ := isItem_ows.1 hx
    obtain ⟨hxs, hts⟩ := (forall₂_narrow fun _ _ => isItem_ows).1 hxs
    exact ⟨⟨x, xs, t, ts, hx, hxs, hes, rfl⟩, narrow_append.2 ⟨ht, (narrow_flatMap (by decide)).2 hts⟩⟩
  · rintro ⟨⟨x, xs, t, ts, hx, hxs, hes, rfl⟩, hvalue⟩
    rw [narrow_append, narrow_flatMap (by decide)] at hvalue
    exact ⟨x, xs, t, ts, isItem_ows.2 ⟨hx, hvalue.1⟩, (forall₂_narrow fun _ _ => isItem_ows).2 ⟨hxs, hvalue.2⟩, hes, rfl⟩

/-- The answers with the whitespace of header fields are those that are read and have no other whitespace. -/
theorem isAnswer_ows {es : List Element} {values : List Text} :
    IsAnswer isOws es values ↔ IsAnswer isWhitespace es values ∧ ∀ value ∈ values, Narrow value := by
  constructor
  · rintro ⟨ess, hess, hes⟩
    obtain ⟨hess, hvalues⟩ := (forall₂_narrow fun _ _ => isField_ows).1 hess
    exact ⟨⟨ess, hess, hes⟩, hvalues⟩
  · rintro ⟨⟨ess, hess, hes⟩, hvalues⟩
    exact ⟨ess, (forall₂_narrow fun _ _ => isField_ows).2 ⟨hess, hvalues⟩, hes⟩

end Anvil.WsDeflate
