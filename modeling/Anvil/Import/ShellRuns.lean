import Anvil.Import.Shell

/-!
# Reading back a command line (`anvil-import/src/curl.rs`)

* `Written`, `Line` : the ways of writing a word, and of joining words;
* `tokenize_rejoins` : the words of a line are those it was written from;
* `ansi_bytes_exact` : bytes spelled in a `$'…'` string are read as characters, which is right for ASCII alone.
-/

namespace Anvil.Import.Shell
open Anvil.Lib

/-! ## Writing words -/

/-- A character in double quotes. -/
def doubleChar (c : Char) : Text := if isDoubleSpecial c then ['\\', c] else [c]

/-- A character in a `$'…'` string. -/
inductive AnsiChar : Char → Text → Prop
  | plain {c : Char} : c ≠ '\'' → c ≠ '\\' → AnsiChar c [c]
  | backslash : AnsiChar '\\' ['\\', '\\']
  | quote : AnsiChar '\'' ['\\', '\'']
  | newline : AnsiChar '\n' ['\\', 'n']
  | tab : AnsiChar '\t' ['\\', 't']
  | carriage : AnsiChar '\r' ['\\', 'r']

/-- Part of a word, and how it is written. -/
inductive Piece : Text → Text → Prop
  | single {t : Text} : '\'' ∉ t → Piece t ('\'' :: (t ++ ['\'']))
  | double (t : Text) : Piece t ('"' :: (t.flatMap doubleChar ++ ['"']))
  | ansi {t : Text} {ws : List Text} : List.Forall₂ AnsiChar t ws → Piece t ('$' :: '\'' :: (ws.flatten ++ ['\'']))
  | escape {c : Char} : c ≠ '\n' → Piece [c] ['\\', c]

/-- A word, in any mix of pieces. -/
inductive Written : Text → Text → Prop
  | piece {t w : Text} : Piece t w → Written t w
  | cons {t w t' w' : Text} : Piece t w → Written t' w' → Written (t ++ t') (w ++ w')

/-- Blanks, newlines and continuations; whether there is more than continuations. -/
inductive IsGap : Bool → Text → Prop
  | nil : IsGap false []
  | blank {c : Char} {b : Bool} {t : Text} : isBlank c = true → IsGap b t → IsGap true (c :: t)
  | continued {b : Bool} {t : Text} : IsGap b t → IsGap b ('\\' :: '\n' :: t)

/-- Words joined by gaps; `apart` says which gap may follow a written word. -/
inductive Line (apart : Text → Text → Prop) : List Text → Text → Prop
  | nil : Line apart [] []
  | last {t w : Text} : Written t w → Line apart [t] w
  | cons {t w gap line : Text} {ts : List Text} : Written t w → apart w gap → Line apart ts line →
      Line apart (t :: ts) (w ++ gap ++ line)

/-- The end of the line, or a control operator with anything after it. -/
def Ending (tail : Text) : Prop := ∀ c t, tail = c :: t → isControl c = true

/-- Lines are read back. -/
def Rejoins (apart : Text → Text → Prop) : Prop :=
  ∀ ts line tail, ts.length ≤ maxArgs → Line apart ts line → Ending tail →
    tokenize (line ++ tail) = .ok (ts.map (⟨·, []⟩), if tail = [] then none else some tail)

/-- A gap with a blank or a newline, which is no newline right after an escaped carriage return. -/
def Apart (w gap : Text) : Prop := IsGap true gap ∧ ¬ (w.getLast? = some '\r' ∧ gap.head? = some '\n')

/-! ## Pieces -/

@[simp] theorem add_add (s : Scan) (t u : Text) : (s.add t).add u = s.add (t ++ u) := by
  unfold Scan.add
  rw [List.append_assoc]

theorem double_chars (rest : Text) : ∀ (t : Text) (s : Scan) (u : Text),
    double (s.add u) (t.flatMap doubleChar ++ '"' :: rest) = .ok (s.add (u ++ t), rest) := by
  intro t
  induction t with
  | nil =>
    intro s u
    rw [List.flatMap_nil, List.nil_append, double, if_pos rfl, List.append_nil]
  | cons c t ih =>
    intro s u
    have hnext : double (s.add (u ++ [c])) (t.flatMap doubleChar ++ '"' :: rest) = .ok (s.add (u ++ c :: t), rest) := by
      rw [ih, List.append_assoc, List.singleton_append]
    rw [List.flatMap_cons, List.append_assoc]
    unfold doubleChar
    split_ifs with hspecial
    · have hescape : doubleEscape (c :: (t.flatMap doubleChar ++ '"' :: rest)) =
          ([c], t.flatMap doubleChar ++ '"' :: rest) := if_pos hspecial
      rw [List.cons_append, List.cons_append, List.nil_append, double, if_neg (by decide), if_pos rfl]
      change double ((s.add u).add (doubleEscape (c :: (t.flatMap doubleChar ++ '"' :: rest))).1)
        (doubleEscape (c :: (t.flatMap doubleChar ++ '"' :: rest))).2 = _
      rw [hescape, add_add]
      exact hnext
    · have hplain : c ≠ '"' ∧ c ≠ '\\' ∧ c ≠ '$' := by
        refine ⟨?_, ?_, ?_⟩ <;> (rintro rfl; exact hspecial (by decide))
      rw [List.singleton_append, double, if_neg hplain.1, if_neg hplain.2.1, if_neg hplain.2.2, add_add]
      exact hnext

theorem ansi_close (cur t : Text) : ansi cur ('\'' :: t) = .ok (cur, t) := by
  rw [ansi.eq_def]
  exact if_pos rfl

theorem ansi_escape (cur t : Text) (e : Char) :
    ansi cur ('\\' :: e :: t) = ansi (cur ++ (ansiEscape e t).1) (ansiEscape e t).2 := by
  conv_lhs => rw [ansi.eq_def]
  exact (if_neg (by decide)).trans (if_pos rfl)

theorem ansi_plain (cur t : Text) {c : Char} (hquote : c ≠ '\'') (hslash : c ≠ '\\') :
    ansi cur (c :: t) = ansi (cur ++ [c]) t := by
  conv_lhs => rw [ansi.eq_def]
  exact (if_neg hquote).trans (if_neg hslash)

theorem ansi_chars (rest : Text) {t : Text} {ws : List Text} (h : List.Forall₂ AnsiChar t ws) : ∀ cur,
    ansi cur (ws.flatten ++ '\'' :: rest) = .ok (cur ++ t, rest) := by
  induction h with
  | nil =>
    intro cur
    rw [List.flatten_nil, List.nil_append, ansi_close, List.append_nil]
  | @cons c w t ws hc _ ih =>
    intro cur
    rw [List.flatten_cons, List.append_assoc]
    have hnext : ansi (cur ++ [c]) (ws.flatten ++ '\'' :: rest) = .ok (cur ++ c :: t, rest) := by
      rw [ih, List.append_assoc, List.singleton_append]
    cases hc with
    | plain hquote hslash => exact (ansi_plain _ _ hquote hslash).trans hnext
    | backslash => exact (ansi_escape _ _ _).trans hnext
    | quote => exact (ansi_escape _ _ _).trans hnext
    | newline => exact (ansi_escape _ _ _).trans hnext
    | tab => exact (ansi_escape _ _ _).trans hnext
    | carriage => exact (ansi_escape _ _ _).trans hnext

/-- A piece adds its text to the word. -/
theorem tokenizeFrom_piece {t w : Text} (h : Piece t w) {s : Scan} (hs : s.words.length ≤ maxArgs) {rest : Text}
    (hrest : ¬ (w.getLast? = some '\r' ∧ rest.head? = some '\n')) :
    tokenizeFrom s (w ++ rest) = tokenizeFrom (s.add t) rest := by
  cases h with
  | single ht =>
    rw [List.cons_append, List.append_assoc, List.singleton_append]
    refine tokenizeFrom_step (by decide) ?_ hs
    unfold step
    rw [splitOnce_of_mem ht]
    rfl
  | double t =>
    rw [List.cons_append, List.append_assoc, List.singleton_append]
    refine tokenizeFrom_step (by decide) ?_ hs
    exact double_chars rest t s []
  | ansi ht =>
    rw [List.cons_append, List.cons_append, List.append_assoc, List.singleton_append]
    refine tokenizeFrom_step (by decide) ?_ hs
    change (ansi s.cur _).map _ = _
    rw [List.tail_cons, ansi_chars rest ht]
    rfl
  | @escape c hc =>
    refine @tokenizeFrom_step s (s.add [c]) '\\' (c :: rest) rest (by decide) ?_ hs
    have hcarriage : ¬ (c = '\r' ∧ rest.head? = some '\n') := by
      rintro ⟨rfl, hhead⟩
      exact hrest ⟨rfl, hhead⟩
    exact congrArg Except.ok ((if_neg hc).trans (if_neg hcarriage))

theorem Written.head {t w : Text} (h : Written t w) : ∃ c u, w = c :: u ∧ c ≠ '\n' := by
  have hpiece {t w : Text} (h : Piece t w) : ∃ c u, w = c :: u ∧ c ≠ '\n' := by
    cases h <;> exact ⟨_, _, rfl, by decide⟩
  cases h with
  | piece hp => exact hpiece hp
  | cons hp _ =>
    obtain ⟨c, u, rfl, hc⟩ := hpiece hp
    exact ⟨c, _, rfl, hc⟩

theorem tokenizeFrom_written {t w : Text} (h : Written t w) : ∀ {s : Scan}, s.words.length ≤ maxArgs → ∀ {rest : Text},
    ¬ (w.getLast? = some '\r' ∧ rest.head? = some '\n') → tokenizeFrom s (w ++ rest) = tokenizeFrom (s.add t) rest := by
  induction h with
  | piece hp => exact fun hs _ hrest => tokenizeFrom_piece hp hs hrest
  | @cons t w t' w' hp hw ih =>
    intro s hs rest hrest
    obtain ⟨c, u, hu, hc⟩ := hw.head
    rw [List.append_assoc, tokenizeFrom_piece hp hs, ih (s := s.add t) hs, add_add]
    · rintro ⟨hlast, hhead⟩
      refine hrest ⟨?_, hhead⟩
      rw [List.getLast?_append, hlast]
      rfl
    · rintro ⟨-, hhead⟩
      rw [hu] at hhead
      exact hc (Option.some.inj hhead)

/-! ## Gaps -/

theorem push_push (s : Scan) : s.push.push = s.push := by
  unfold Scan.push
  split_ifs <;> simp_all

theorem tokenizeFrom_gap {b : Bool} {gap : Text} (h : IsGap b gap) : ∀ {s : Scan}, s.words.length ≤ maxArgs →
    s.push.words.length ≤ maxArgs → ∀ rest, tokenizeFrom s (gap ++ rest) = tokenizeFrom (if b then s.push else s) rest := by
  induction h with
  | nil => exact fun _ _ _ => rfl
  | @blank c b t hc _ ih =>
    intro s hs hpush rest
    have hstep : step s c (t ++ rest) = .ok (s.push, t ++ rest) := by
      unfold step
      rw [if_neg (by rintro rfl; revert hc; decide), if_pos hc]
    have hcontrol : isControl c = false := by
      unfold isBlank at hc
      rcases of_decide_eq_true hc with rfl | rfl | rfl | rfl <;> decide
    rw [List.cons_append, tokenizeFrom_step hcontrol hstep hpush, ih hpush (by rw [push_push]; exact hpush),
      push_push, if_pos rfl]
    split_ifs <;> rfl
  | continued _ ih =>
    intro s hs hpush rest
    rw [List.cons_append, List.cons_append, ← ih hs hpush rest]
    exact tokenizeFrom_step (by decide) rfl hs

/-! ## Lines -/

/-- A word that is read becomes one of the words. -/
theorem push_add (ws : List Word) (t : Text) :
    (({ words := ws } : Scan).add t).push = { words := ws ++ [⟨t, []⟩] } := by
  unfold Scan.push Scan.add
  rfl

theorem tokenizeFrom_ending {tail : Text} (h : Ending tail) (s : Scan) :
    tokenizeFrom s tail = .ok (s.push.words, if tail = [] then none else some tail) := by
  cases tail with
  | nil => rw [tokenizeFrom, if_pos rfl]
  | cons c t => rw [tokenizeFrom_control (h c t rfl), if_neg (List.cons_ne_nil c t)]

theorem Ending.head {tail : Text} (h : Ending tail) : tail.head? ≠ some '\n' := by
  intro hhead
  cases tail with
  | nil => cases hhead
  | cons c t =>
    have hc := h c t rfl
    rw [Option.some.inj hhead] at hc
    revert hc
    decide

theorem tokenizeFrom_line {ts : List Text} {line tail : Text} (h : Line Apart ts line) (htail : Ending tail) :
    ∀ {ws : List Word}, ws.length + ts.length ≤ maxArgs → tokenizeFrom { words := ws } (line ++ tail) =
      .ok (ws ++ ts.map (⟨·, []⟩), if tail = [] then none else some tail) := by
  induction h with
  | nil =>
    intro ws _
    rw [List.nil_append, tokenizeFrom_ending htail, List.map_nil, List.append_nil]
    rfl
  | @last t w hw =>
    intro ws hlen
    rw [tokenizeFrom_written hw (Nat.le_of_add_right_le hlen) fun hr => htail.head hr.2, tokenizeFrom_ending htail, push_add]
    rfl
  | @cons t w gap line ts hw hgap _ ih =>
    intro ws hlen
    rw [List.length_cons] at hlen
    have hnext : (ws ++ [(⟨t, []⟩ : Word)]).length + ts.length ≤ maxArgs := by
      rw [List.length_append, List.length_singleton]
      omega
    have hws : ws.length ≤ maxArgs := by omega
    have hpush : (({ words := ws } : Scan).add t).push.words.length ≤ maxArgs := by
      rw [push_add]
      exact Nat.le_of_add_right_le hnext
    rw [List.append_assoc, List.append_assoc, tokenizeFrom_written hw hws, tokenizeFrom_gap hgap.1 hws hpush,
      if_pos rfl, push_add,
      ih hnext, List.append_assoc]
    · rfl
    · rintro ⟨hlast, hhead⟩
      refine hgap.2 ⟨hlast, ?_⟩
      cases gap with
      | nil => cases hgap.1
      | cons c gap => exact hhead

/-- **A command line is read back**: its words, without variables, and what follows them. -/
theorem tokenize_rejoins : Rejoins Apart := by
  intro ts line tail hlen hline htail
  exact @tokenizeFrom_line ts line tail hline htail [] (by simpa using hlen)

/-- A line of two words, with a continuation between them and a pipe after them. -/
theorem tokenize_rejoins_piped :
    tokenize ("'a b'".toList ++ " \\\n".toList ++ "\"it's\"".toList ++ "|jq".toList) =
      .ok ([⟨"a b".toList, []⟩, ⟨"it's".toList, []⟩], some "|jq".toList) := by
  have hfirst : Written "a b".toList "'a b'".toList := .piece (.single (t := "a b".toList) (by decide))
  have hsecond : Written "it's".toList "\"it's\"".toList := .piece (.double "it's".toList)
  have hgap : Apart "'a b'".toList " \\\n".toList := ⟨.blank (by decide) (.continued .nil), by decide⟩
  refine tokenize_rejoins ["a b".toList, "it's".toList] _ "|jq".toList (by decide) (.cons hfirst hgap (.last hsecond)) ?_
  intro c t h
  rw [← (List.cons.inj h).1]
  decide

theorem single_written {t : Text} (h : '\'' ∉ t) : Written t ('\'' :: (t ++ ['\''])) := .piece (.single h)

/-- A continuation alone, or one after an escaped carriage return, joins what is around it into one word. -/
theorem joined_words : ¬ Rejoins (fun _ gap => gap ≠ [] ∧ ∃ b, IsGap b gap) ∧ ¬ Rejoins (fun _ gap => IsGap true gap) := by
  have ha : Written ['a'] "'a'".toList := single_written (by decide)
  have hb : Written ['b'] "'b'".toList := single_written (by decide)
  have hlast (s : Scan) (hs : s.words = []) (hcur : s.cur = ['a']) (hvars : s.vars = []) :
      tokenizeFrom s "'b'".toList = .ok ([⟨['a', 'b'], []⟩], none) := by
    have hread : tokenizeFrom s ("'b'".toList ++ []) = tokenizeFrom (s.add ['b']) [] :=
      tokenizeFrom_written hb (by rw [hs]; decide) fun h => (by cases h.2)
    rw [List.append_nil] at hread
    rw [hread, tokenizeFrom]
    unfold Scan.push Scan.add
    rw [hs, hcur, hvars]
    rfl
  have hword (rest : Text) : tokenizeFrom {} ("'a'".toList ++ rest) = tokenizeFrom (({} : Scan).add ['a']) rest :=
    tokenizeFrom_written ha (by decide) fun h => (by cases h.1)
  constructor
  · intro h
    have hwrong := h [['a'], ['b']] _ [] (by decide)
      (.cons ha ⟨by decide, false, .continued .nil⟩ (.last hb)) fun c t h => (by cases h)
    have hread : tokenize ("'a'".toList ++ ['\\', '\n'] ++ "'b'".toList ++ []) = .ok ([⟨['a', 'b'], []⟩], none) := by
      rw [List.append_nil, List.append_assoc]
      unfold tokenize
      rw [hword, tokenizeFrom_gap (.continued .nil) (by decide) (by decide)]
      exact hlast _ rfl rfl rfl
    rw [hread] at hwrong
    revert hwrong
    decide
  · intro h
    have hescaped : Written ['a', '\r'] ("'a'".toList ++ ['\\', '\r']) :=
      .cons (t := ['a']) (.single (by decide)) (.piece (.escape (by decide)))
    have hwrong := h [['a', '\r'], ['b']] _ [] (by decide)
      (.cons hescaped (.blank (c := '\n') (by decide) .nil) (.last hb)) fun c t h => (by cases h)
    have hread : tokenize ("'a'".toList ++ ['\\', '\r'] ++ ['\n'] ++ "'b'".toList ++ []) =
        .ok ([⟨['a', 'b'], []⟩], none) := by
      rw [List.append_nil, List.append_assoc, List.append_assoc]
      unfold tokenize
      rw [hword]
      have hstep : step (({} : Scan).add ['a']) '\\' ('\r' :: '\n' :: "'b'".toList) =
          .ok (({} : Scan).add ['a'], "'b'".toList) := rfl
      change tokenizeFrom _ ('\\' :: '\r' :: '\n' :: "'b'".toList) = _
      rw [tokenizeFrom_step (by decide) hstep (by decide)]
      exact hlast _ rfl rfl rfl
    rw [hread] at hwrong
    revert hwrong
    decide

/-! ## Bytes -/

/-- How a byte is written in a `$'…'` string. -/
def Spells (b : UInt8) (w : Text) : Prop :=
  ∃ h l m n, w = ['\\', 'x', h, l] ∧ hexValue h = some m ∧ hexValue l = some n ∧ b.toNat = 16 * m + n

/-- The character of a byte's number. -/
def latin (b : UInt8) : Char := Char.ofNat b.toNat

theorem ansiEscape_byte {b : UInt8} {h l : Char} {m n : Nat} (hm : hexValue h = some m) (hn : hexValue l = some n)
    (hb : b.toNat = 16 * m + n) (t : Text) : ansiEscape 'x' (h :: l :: t) = ([latin b], t) := by
  have hread : fromHex [h, l] = some b.toNat := by
    unfold fromHex
    simp [hm, hn, hb]
  have hvalid : b.toNat.isValidChar := .inl (lt_trans b.toNat_lt (by decide))
  change codePoint 2 (h :: l :: t) = _
  unfold codePoint
  rw [List.take_succ_cons, List.take_succ_cons, List.take_zero, List.takeWhile_cons_of_pos (by rw [hm]; rfl),
    List.takeWhile_cons_of_pos (by rw [hn]; rfl), List.takeWhile_nil]
  change (((fromHex [h, l]).bind charOf).toList, t) = _
  rw [hread, Option.bind_some, charOf, if_pos hvalid]
  rfl

theorem ansi_bytes {bytes : List UInt8} {ws : List Text} (h : List.Forall₂ Spells bytes ws) (rest : Text) : ∀ cur,
    ansi cur (ws.flatten ++ '\'' :: rest) = .ok (cur ++ bytes.map latin, rest) := by
  induction h with
  | nil =>
    intro cur
    rw [List.flatten_nil, List.nil_append, ansi_close, List.map_nil, List.append_nil]
  | @cons b w bytes ws hw _ ih =>
    intro cur
    obtain ⟨h, l, m, n, rfl, hm, hn, hb⟩ := hw
    rw [List.flatten_cons, List.append_assoc]
    refine (ansi_escape cur _ 'x').trans ?_
    change ansi (cur ++ (ansiEscape 'x' (h :: l :: (ws.flatten ++ '\'' :: rest))).1)
      (ansiEscape 'x' (h :: l :: (ws.flatten ++ '\'' :: rest))).2 = _
    rw [ansiEscape_byte hm hn hb, ih, List.map_cons, List.append_assoc, List.singleton_append]

theorem tokenize_bytes {bytes : List UInt8} {ws : List Text} (h : List.Forall₂ Spells bytes ws) :
    tokenize ('$' :: '\'' :: (ws.flatten ++ ['\''])) = .ok ([⟨bytes.map latin, []⟩], none) := by
  have hstep : step {} '$' ('\'' :: (ws.flatten ++ ['\''])) = .ok (({} : Scan).add (bytes.map latin), []) := by
    change (ansi [] _).map _ = _
    rw [List.tail_cons, ansi_bytes h [] []]
    rfl
  unfold tokenize
  rw [tokenizeFrom_step (by decide) hstep (Nat.zero_le _), tokenizeFrom, push_add]
  rfl

theorem length_encodeUtf8 (s : Text) : (encodeUtf8 s).length = utf8Len s := by
  induction s with
  | nil => rfl
  | cons c s ih =>
    unfold encodeUtf8 at ih ⊢
    rw [List.flatMap_cons, List.length_append, ih, utf8Len_cons, String.length_utf8EncodeChar]

theorem length_le_utf8Len (s : Text) : s.length ≤ utf8Len s := by
  induction s with
  | nil => exact le_rfl
  | cons c s ih =>
    have hsize := c.utf8Size_pos
    rw [List.length_cons, utf8Len_cons]
    omega

theorem ascii_of_utf8Len {s : Text} (h : utf8Len s = s.length) : ∀ c ∈ s, c.toNat < 128 := by
  induction s with
  | nil => exact fun c hc => (by cases hc)
  | cons c s ih =>
    have hsize := c.utf8Size_pos
    have hle := length_le_utf8Len s
    rw [List.length_cons, utf8Len_cons] at h
    have hone : c.utf8Size = 1 := by omega
    refine List.forall_mem_cons.2 ⟨?_, ih (by omega)⟩
    exact Nat.lt_succ_of_le (UInt32.le_iff_toNat_le.1 (Char.utf8Size_eq_one_iff.1 hone))

/-- The characters of the bytes are those of the text for ASCII alone. -/
theorem latin_bytes_iff {s : Text} : (encodeUtf8 s).map latin = s ↔ ∀ c ∈ s, c.toNat < 128 := by
  constructor
  · intro h
    have hlen := congrArg List.length h
    rw [List.length_map, length_encodeUtf8] at hlen
    exact ascii_of_utf8Len hlen
  · intro h
    have hchars : (s.map fun c => UInt8.ofNat c.toNat).map latin = s := by
      rw [List.map_map]
      refine (List.map_congr_left fun c hc => ?_).trans (List.map_id s)
      have hc := h c hc
      change Char.ofNat (UInt8.ofNat c.toNat).toNat = c
      rw [UInt8.toNat_ofNat_of_lt' (lt_trans hc (by decide)), Char.ofNat_toNat]
    have hbytes : ∀ b ∈ s.map fun c => UInt8.ofNat c.toNat, b < 0x80 := by
      intro b hb
      obtain ⟨c, hc, rfl⟩ := List.mem_map.1 hb
      have hc := h c hc
      rw [UInt8.lt_iff_toNat_lt, UInt8.toNat_ofNat_of_lt' (lt_trans hc (by decide))]
      exact hc
    have hencode : encodeUtf8 s = s.map fun c => UInt8.ofNat c.toNat := by
      conv_lhs => rw [← hchars]
      exact encodeUtf8_ascii hbytes
    rw [hencode]
    exact hchars

/-- **Bytes spelled in a `$'…'` string** are read as the text for ASCII texts alone. -/
theorem ansi_bytes_exact (s : Text) (ws : List Text) (h : List.Forall₂ Spells (encodeUtf8 s) ws) :
    tokenize ('$' :: '\'' :: (ws.flatten ++ ['\''])) = .ok ([⟨s, []⟩], none) ↔ ∀ c ∈ s, c.toNat < 128 := by
  rw [tokenize_bytes h, ← latin_bytes_iff]
  constructor
  · intro heq
    exact (Word.mk.inj (List.singleton_inj.1 (Prod.mk.inj (Except.ok.inj heq)).1)).1
  · intro heq
    rw [heq]

theorem ansi_bytes_exact_word :
    tokenize "$'\\x41\\x62\\x7e\\x7E'".toList = .ok ([⟨"Ab~~".toList, []⟩], none) ↔ ∀ c ∈ "Ab~~".toList, c.toNat < 128 :=
  ansi_bytes_exact "Ab~~".toList ["\\x41".toList, "\\x62".toList, "\\x7e".toList, "\\x7E".toList]
    (.cons ⟨'4', '1', 4, 1, rfl, rfl, rfl, rfl⟩ (.cons ⟨'6', '2', 6, 2, rfl, rfl, rfl, rfl⟩
      (.cons ⟨'7', 'e', 7, 14, rfl, rfl, rfl, rfl⟩ (.cons ⟨'7', 'E', 7, 14, rfl, rfl, rfl, rfl⟩ .nil))))

/-- The two bytes of `é` are read as two characters. -/
theorem accent_misread :
    ¬ ∀ ws, List.Forall₂ Spells (encodeUtf8 [Char.ofNat 0xe9]) ws →
      tokenize ('$' :: '\'' :: (ws.flatten ++ ['\''])) = .ok ([⟨[Char.ofNat 0xe9], []⟩], none) := by
  intro h
  have hspelled : List.Forall₂ Spells (encodeUtf8 [Char.ofNat 0xe9]) ["\\xc3".toList, "\\xa9".toList] :=
    .cons ⟨'c', '3', 12, 3, rfl, rfl, rfl, rfl⟩ (.cons ⟨'a', '9', 10, 9, rfl, rfl, rfl, rfl⟩ .nil)
  have hread := h _ hspelled
  rw [tokenize_bytes hspelled] at hread
  revert hread
  decide

end Anvil.Import.Shell
