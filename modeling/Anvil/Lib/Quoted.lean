import Anvil.Lib.Strings

/-!
# Texts with quoted strings

* `splitOutside` : a text split at a separator that is not in a quoted string; `splitOutside_iff` : its parts are pieces;
* `ends` : where reading a text ends; `Piece` : a text that a split leaves whole;
* `Escaped`, `unescape` : what a quoted string stands for; `escaped_unescape`, `unescape_escaped`;
* `Blank`, `exists_trim`, `trim_around` : the whitespace around a text.
-/

namespace Anvil.Lib.Quoted

/-! ## Reading -/

/-- Outside a quoted string, inside one, or after a backslash inside one. -/
inductive Quote
  | plain
  | quoted
  | escaped
deriving DecidableEq

/-- The parts of a text once `cur` was read of the first; `none` when a quoted string does not end. -/
def splitFrom (sep : Char) : Quote → Text → Text → Option (List Text)
  | .plain, cur, [] => some [cur]
  | _, _, [] => none
  | .escaped, cur, c :: t => splitFrom sep .quoted (cur ++ [c]) t
  | .quoted, cur, c :: t =>
    if c = '\\' then splitFrom sep .escaped (cur ++ [c]) t
    else if c = '"' then splitFrom sep .plain (cur ++ [c]) t
    else splitFrom sep .quoted (cur ++ [c]) t
  | .plain, cur, c :: t =>
    if c = '"' then splitFrom sep .quoted (cur ++ [c]) t
    else if c = sep then (splitFrom sep .plain [] t).map (cur :: ·)
    else splitFrom sep .plain (cur ++ [c]) t

def splitOutside (sep : Char) (s : Text) : Option (List Text) := splitFrom sep .plain [] s

/-- Where reading a text ends, when no separator is met outside its quoted strings. -/
def ends (sep : Char) : Quote → Text → Option Quote
  | q, [] => some q
  | .escaped, _ :: t => ends sep .quoted t
  | .quoted, c :: t => if c = '\\' then ends sep .escaped t else if c = '"' then ends sep .plain t else ends sep .quoted t
  | .plain, c :: t => if c = '"' then ends sep .quoted t else if c = sep then none else ends sep .plain t

/-- A text without separators outside its quoted strings, which all end. -/
def Piece (sep : Char) (p : Text) : Prop := ends sep .plain p = some .plain

/-- Reading on from where a text ends. -/
theorem splitFrom_append {sep : Char} {p : Text} : ∀ {q q' : Quote} (cur rest : Text), ends sep q p = some q' →
    splitFrom sep q cur (p ++ rest) = splitFrom sep q' (cur ++ p) rest := by
  induction p with
  | nil =>
    intro q q' cur rest h
    rw [List.append_nil, ← Option.some.inj h]
    rfl
  | cons c p ih =>
    intro q q' cur rest h
    have hcur : cur ++ c :: p = cur ++ [c] ++ p := by rw [List.append_assoc, List.singleton_append]
    rw [List.cons_append, hcur]
    cases q with
    | escaped => exact ih _ _ h
    | quoted =>
      simp only [ends] at h
      simp only [splitFrom]
      split_ifs at h ⊢ <;> exact ih _ _ h
    | plain =>
      simp only [ends] at h
      simp only [splitFrom]
      split_ifs at h ⊢ <;> exact ih _ _ h

theorem ends_append {sep : Char} {p : Text} : ∀ {q q' : Quote} (rest : Text), ends sep q p = some q' →
    ends sep q (p ++ rest) = ends sep q' rest := by
  induction p with
  | nil =>
    intro q q' rest h
    rw [← Option.some.inj h]
    rfl
  | cons c p ih =>
    intro q q' rest h
    cases q with
    | escaped => exact ih _ h
    | quoted =>
      simp only [ends, List.cons_append] at h ⊢
      split_ifs at h ⊢ <;> exact ih _ h
    | plain =>
      simp only [ends, List.cons_append] at h ⊢
      split_ifs at h ⊢ <;> exact ih _ h

/-- The parts of a split are pieces, and give the text with the separators between them. -/
theorem splitFrom_sound {sep : Char} {t : Text} : ∀ {q : Quote} {cur : Text} {parts : List Text},
    splitFrom sep q cur t = some parts → ∃ p ps, parts = (cur ++ p) :: ps ∧ ends sep q p = some .plain ∧
      (∀ x ∈ ps, Piece sep x) ∧ t = p ++ ps.flatMap (sep :: ·) := by
  induction t with
  | nil =>
    intro q cur parts h
    cases q with
    | plain =>
      rw [← Option.some.inj h]
      exact ⟨[], [], by rw [List.append_nil], rfl, fun x hx => (by cases hx), rfl⟩
    | quoted => cases h
    | escaped => cases h
  | cons c t ih =>
    intro q cur parts h
    -- a character of the first part
    have hread {q' : Quote} (hq : ∀ p, ends sep q (c :: p) = ends sep q' p)
        (h : splitFrom sep q' (cur ++ [c]) t = some parts) :
        ∃ p ps, parts = (cur ++ p) :: ps ∧ ends sep q p = some .plain ∧ (∀ x ∈ ps, Piece sep x) ∧
          c :: t = p ++ ps.flatMap (sep :: ·) := by
      obtain ⟨p, ps, rfl, hp, hps, rfl⟩ := ih h
      exact ⟨c :: p, ps, by rw [List.append_assoc, List.singleton_append], (hq p).trans hp, hps, rfl⟩
    cases q with
    | escaped => exact hread (fun p => rfl) h
    | quoted =>
      simp only [splitFrom] at h
      split_ifs at h with hslash hquote
      · exact hread (fun p => if_pos hslash) h
      · exact hread (fun p => (if_neg hslash).trans (if_pos hquote)) h
      · exact hread (fun p => (if_neg hslash).trans (if_neg hquote)) h
    | plain =>
      simp only [splitFrom] at h
      split_ifs at h with hquote hsep
      · exact hread (fun p => if_pos hquote) h
      · obtain ⟨rest, hrest, rfl⟩ := Option.map_eq_some_iff.1 h
        obtain ⟨p, ps, rfl, hp, hps, rfl⟩ := ih hrest
        refine ⟨[], p :: ps, by rw [List.append_nil]; rfl, rfl, List.forall_mem_cons.2 ⟨hp, hps⟩, ?_⟩
        rw [hsep]
        rfl
      · exact hread (fun p => (if_neg hquote).trans (if_neg hsep)) h

/-- **What a split gives**: the pieces between the separators. -/
theorem splitOutside_iff {sep : Char} (hsep : sep ≠ '"') {s : Text} {parts : List Text} :
    splitOutside sep s = some parts ↔
      ∃ p ps, parts = p :: ps ∧ Piece sep p ∧ (∀ x ∈ ps, Piece sep x) ∧ s = p ++ ps.flatMap (sep :: ·) := by
  refine ⟨fun h => ?_, ?_⟩
  · obtain ⟨p, ps, hparts, hp⟩ := splitFrom_sound h
    exact ⟨p, ps, hparts, hp⟩
  · rintro ⟨p, ps, rfl, hp, hps, rfl⟩
    have hrest : ∀ (ps : List Text) (cur : Text), (∀ x ∈ ps, Piece sep x) →
        splitFrom sep .plain cur (ps.flatMap (sep :: ·)) = some (cur :: ps) := by
      intro ps
      induction ps with
      | nil => exact fun _ _ => rfl
      | cons x ps ih =>
        intro cur hps
        obtain ⟨hx, hps⟩ := List.forall_mem_cons.1 hps
        rw [List.flatMap_cons, List.cons_append, splitFrom, if_neg hsep, if_pos rfl, splitFrom_append [] _ hx, ih _ hps,
          List.nil_append]
        rfl
    unfold splitOutside
    rw [splitFrom_append [] _ hp, hrest ps _ hps, List.nil_append]

/-- Characters that are neither quotes nor separators. -/
theorem ends_plain {sep : Char} {p : Text} (h : ∀ c ∈ p, c ≠ '"' ∧ c ≠ sep) : Piece sep p := by
  unfold Piece
  induction p with
  | nil => rfl
  | cons c p ih =>
    obtain ⟨⟨hquote, hsep⟩, hp⟩ := List.forall_mem_cons.1 h
    rw [ends, if_neg hquote, if_neg hsep, ih hp]

/-! ## Quoted strings -/

/-- The body of a quoted string for a text: a character may be escaped, and a quote or a backslash must be. -/
inductive Escaped : Text → Text → Prop
  | nil : Escaped [] []
  | plain {c : Char} {t b : Text} : c ≠ '"' → c ≠ '\\' → Escaped t b → Escaped (c :: t) (c :: b)
  | pair {c : Char} {t b : Text} : Escaped t b → Escaped (c :: t) ('\\' :: c :: b)

/-- The text that a body stands for. -/
def unescape : Text → Text
  | '\\' :: c :: b => c :: unescape b
  | '\\' :: [] => []
  | c :: b => c :: unescape b
  | [] => []

theorem unescape_escaped {t b : Text} (h : Escaped t b) : unescape b = t := by
  induction h with
  | nil => rfl
  | plain _ hslash _ ih =>
    rw [unescape, ih]
    all_goals simp_all
  | pair _ ih => rw [unescape, ih]

theorem ends_escaped {sep : Char} {t b : Text} (h : Escaped t b) : ends sep .quoted b = some .quoted := by
  induction h with
  | nil => rfl
  | plain hquote hslash _ ih => rw [ends, if_neg hslash, if_neg hquote, ih]
  | pair _ ih => rw [ends, if_pos rfl, ends, ih]

theorem ends_without_quote {sep : Char} {b : Text} (h : ∀ c ∈ b, c ≠ '"') : ∀ {q : Quote}, q ≠ .plain →
    ends sep q b ≠ some .plain := by
  induction b with
  | nil => exact fun hq heq => hq (Option.some.inj heq)
  | cons c b ih =>
    obtain ⟨hc, hb⟩ := List.forall_mem_cons.1 h
    intro q hq
    cases q with
    | plain => exact absurd rfl hq
    | escaped => exact ih hb (by decide)
    | quoted =>
      rw [ends, if_neg hc]
      split_ifs
      · exact ih hb (by decide)
      · exact ih hb (by decide)

/-- **The body up to the last quote stands for its text**, when the quoted string ends there. -/
theorem escaped_unescape {sep : Char} {rest : Text} (hrest : ∀ c ∈ rest, c ≠ '"') {b : Text} :
    (∀ c ∈ unescape b, c ≠ '"') → ends sep .quoted (b ++ '"' :: rest) = some .plain → Escaped (unescape b) b := by
  fun_induction unescape b with
  | case1 c b ih =>
    intro hquotes hends
    exact .pair (ih (List.forall_mem_cons.1 hquotes).2 hends)
  | case2 =>
    intro _ hends
    exact absurd hends (ends_without_quote hrest (by decide))
  | case3 c b hne hlast ih =>
    intro hquotes hends
    obtain ⟨hquote, hquotes⟩ := List.forall_mem_cons.1 hquotes
    have hslash : c ≠ '\\' := by
      rintro rfl
      cases b with
      | nil => exact hlast rfl rfl
      | cons d b => exact hne d b rfl rfl
    rw [List.cons_append, ends, if_neg hslash, if_neg hquote] at hends
    exact .plain hquote hslash (ih hquotes hends)
  | case4 => exact fun _ _ => .nil

/-! ## Whitespace -/

def Blank (t : Text) : Prop := ∀ c ∈ t, isWhitespace c = true

theorem exists_trim (t : Text) : ∃ before after, t = before ++ trim t ++ after ∧ Blank before ∧ Blank after := by
  refine ⟨t.takeWhile isWhitespace, (t.dropWhile isWhitespace).rtakeWhile isWhitespace, ?_, ?_, ?_⟩
  · rw [trim_eq, List.append_assoc, List.rdropWhile_append_rtakeWhile, List.takeWhile_append_dropWhile]
  · exact fun c hc => List.mem_takeWhile_imp hc
  · exact fun c hc => List.mem_rtakeWhile_imp hc

theorem trim_blank {t : Text} (h : Blank t) : trim t = [] := by
  rw [trim_eq, List.dropWhile_eq_nil_iff.2 fun c hc => h c hc]
  rfl

/-- A text between whitespace, that starts and ends with something else. -/
theorem trim_around {before after t : Text} (hb : Blank before) (ha : Blank after) (ht : t ≠ [])
    (hhead : ∀ c, t.head? = some c → isWhitespace c = false) (hlast : ∀ c, t.getLast? = some c → isWhitespace c = false) :
    trim (before ++ t ++ after) = t := by
  obtain ⟨c, t', rfl⟩ := List.exists_cons_of_ne_nil ht
  have hc : ¬isWhitespace c = true := by
    rw [hhead c rfl]
    exact Bool.false_ne_true
  rw [trim_eq, List.append_assoc, List.dropWhile_append_of_pos hb, List.cons_append, List.dropWhile_cons_of_neg hc,
    ← List.cons_append]
  have hdrop : ∀ after :
      Text, Blank after → ((c :: t') ++ after).rdropWhile isWhitespace = (c :: t').rdropWhile isWhitespace := by
    intro after
    induction after using List.reverseRecOn with
    | nil => exact fun _ => (by rw [List.append_nil])
    | append_singleton after d ih =>
      intro h
      rw [← List.append_assoc, List.rdropWhile_concat_pos _ _ _ (h d (by simp)), ih fun x hx => h x (by simp [hx])]
  rw [hdrop after ha, List.rdropWhile_eq_self_iff]
  intro hne
  rw [hlast _ (List.getLast?_eq_some_getLast hne)]
  exact Bool.false_ne_true

end Anvil.Lib.Quoted
