import Anvil.Lib.Braces
import Anvil.Lib.Utf8Match

/-!
# Reading a multipart/form-data body (RFC 2046, RFC 7578, and the parameters of RFC 2045)

* `readBlocks boundary` : what stands between the delimiter lines;
* `fieldLines`, `unfoldLines`, `fieldOf` : the header fields of a block, and its content;
* `quotedString`, `parameters` : the parameters of a field, tokens and quoted strings;
* `unquote`, `formPart` : the part that a block is, with `%22` for a quote in its names;
* `readBlocks_writeBlocks` : the blocks that were written are read, where the delimiter is in none of them;
* `formPart_layout` : the part that was laid out is read, where its names need no quoted pair;
* `formPart_slashes` : a part has no more backslashes than its block, and where it has as many, its names are plain.
-/

namespace Anvil.Lib.Multipart
open Anvil.Lib

def crlf : List UInt8 := [0x0D, 0x0A]

/-- The start of a delimiter line. -/
def delimiter (boundary : List UInt8) : List UInt8 := 0x0D :: 0x0A :: 0x2D :: 0x2D :: boundary

def isLwsp (b : UInt8) : Bool := b = 0x20 || b = 0x09

/-! ## Blocks -/

/-- The blocks after a delimiter, until the one that closes the body; white space may follow a delimiter on its line. -/
def blocksFrom (boundary : List UInt8) : Nat → List UInt8 → Option (List (List UInt8))
  | 0, _ => none
  | n + 1, t =>
    if [0x2D, 0x2D] <+: t then some []
    else if crlf <+: t.dropWhile isLwsp then
      (findSplit (delimiter boundary) ((t.dropWhile isLwsp).drop 2)).bind fun p => (blocksFrom boundary n p.2).map (p.1 :: ·)
    else none

/-- What stands before the first delimiter is not read, and neither is what follows the last. -/
def readBlocks (boundary t : List UInt8) : Option (List (List UInt8)) :=
  (findSplit (delimiter boundary) (crlf ++ t)).bind fun p => blocksFrom boundary t.length p.2

def writeBlocks (boundary : List UInt8) (blocks : List (List UInt8)) : List UInt8 :=
  blocks.flatMap (fun b => [0x2D, 0x2D] ++ boundary ++ crlf ++ b ++ crlf) ++
    ([0x2D, 0x2D] ++ boundary ++ [0x2D, 0x2D] ++ crlf)

/-! ## Header fields -/

/-- The lines before the first empty one, and what follows it. -/
def fieldLines : Nat → List UInt8 → Option (List (List UInt8) × List UInt8)
  | 0, _ => none
  | n + 1, t => (findSplit crlf t).bind fun p =>
    if p.1.isEmpty then some ([], p.2) else (fieldLines n p.2).map fun q => (p.1 :: q.1, q.2)

/-- A line that starts with white space goes on with the field before it. -/
def joinLine (line : List UInt8) : List (List UInt8) → List (List UInt8)
  | [] => [line]
  | field :: fields => if (field.head?.map isLwsp).getD false then (line ++ field) :: fields else line :: field :: fields

def unfoldLines (lines : List (List UInt8)) : List (List UInt8) := lines.foldr joinLine []

/-- The name and the body of a field, without the space after its colon. -/
def fieldOf (line : List UInt8) : Option (List UInt8 × List UInt8) :=
  (findSplit [0x3A] line).map fun p => (p.1.map lowerByte, if [0x20] <+: p.2 then p.2.drop 1 else p.2)

/-! ## Form parts -/

/-- No control, no space and none of the `tspecials`. -/
def isTokenByte (b : UInt8) : Bool :=
  0x20 < b && b < 0x7F && !([0x28, 0x29, 0x3C, 0x3E, 0x40, 0x2C, 0x3B, 0x3A, 0x5C, 0x22, 0x2F, 0x5B, 0x5D, 0x3F,
    0x3D].contains b)

/-- A token, and what follows it. -/
def token (t : List UInt8) : Option (List UInt8 × List UInt8) :=
  if (t.takeWhile isTokenByte).isEmpty then none else some (t.takeWhile isTokenByte, t.dropWhile isTokenByte)

/-- A quoted string after its opening quote, and what follows it. A backslash stands before the byte that is meant (a quoted
pair), and a carriage return only after one. -/
def quotedString : List UInt8 → Option (List UInt8 × List UInt8)
  | [] => none
  | [b] => if b = 0x22 then some ([], []) else none
  | b :: c :: t =>
    if b = 0x22 then some ([], c :: t)
    else if b = 0x5C then (quotedString t).map fun p => (c :: p.1, p.2)
    else if b = 0x0D then none
    else (quotedString (c :: t)).map fun p => (b :: p.1, p.2)

/-- The value of a parameter, and what follows it. -/
def parameterValue (t : List UInt8) : Option (List UInt8 × List UInt8) :=
  if [0x22] <+: t then quotedString (t.drop 1) else token t

/-- The parameters of a field. -/
def parameters : Nat → List UInt8 → Option (List (List UInt8 × List UInt8))
  | _, [] => some []
  | 0, _ :: _ => none
  | n + 1, c :: t =>
    if c = 0x3B then
      (token (t.dropWhile isLwsp)).bind fun p =>
        if [0x3D] <+: p.2 then
          (parameterValue (p.2.drop 1)).bind fun v => (parameters n v.2).map ((p.1.map lowerByte, v.1) :: ·)
        else none
    else none

/-- The value of a name, with `%22` read as a quote. -/
def unquote : List UInt8 → List UInt8
  | 0x25 :: 0x32 :: 0x32 :: t => 0x22 :: unquote t
  | b :: t => b :: unquote t
  | [] => []

structure FormPart where
  name : List UInt8
  fileName : Option (List UInt8)
  contentType : Option (List UInt8)
  content : List UInt8
deriving DecidableEq

def valueOf (name : Text) (l : List (List UInt8 × List UInt8)) : Option (List UInt8) :=
  (l.find? fun f => f.1 = encodeUtf8 name).map Prod.snd

/-- The part that a block is, where its disposition is that of a form and names it. -/
def formPart (block : List UInt8) : Option FormPart :=
  (fieldLines (block.length + 1) block).bind fun lines =>
  ((unfoldLines lines.1).mapM fieldOf).bind fun fields =>
  (valueOf "content-disposition".toList fields).bind fun disposition =>
  if disposition.takeWhile (· ≠ 0x3B) = encodeUtf8 "form-data".toList then
    (parameters disposition.length (disposition.dropWhile (· ≠ 0x3B))).bind fun params =>
    (valueOf "name".toList params).map fun name =>
      ⟨unquote name, (valueOf "filename".toList params).map unquote, valueOf "content-type".toList fields, lines.2⟩
  else none

/-- The parts of a form. -/
def readForm (boundary t : List UInt8) : Option (List FormPart) :=
  (readBlocks boundary t).bind fun blocks => blocks.mapM formPart

/-! ## What was written is read -/

/-- A pattern whose first element comes only once in it does not go from one list into its next place. -/
theorem meets_of_head {α : Type} {c : α} {r : List α} (hc : c ∉ r) {x : List α} : Meets (c :: r) x ↔ ¬ c :: r <:+: x := by
  constructor
  · exact fun h hx => h (hx.trans (List.infix_append' [] x _))
  · intro h
    induction x with
    | nil => exact meets_nil (List.cons_ne_nil c r)
    | cons a x ih =>
      refine (meets_cons (List.cons_ne_nil c r) []).2 ⟨fun hp => ?_, ih fun hx => h (List.infix_cons hx)⟩
      rw [List.append_nil, ← List.cons_append] at hp
      obtain ⟨s, hs⟩ := hp
      rcases List.append_eq_append_iff.1 hs with ⟨y, hy, -⟩ | ⟨y, hy, hpat⟩
      · exact h (hy ▸ List.infix_append_left)
      · cases y with
        | nil => exact h (by rw [hy, List.append_nil])
        | cons d y =>
          -- the pattern would hold its own first element again
          obtain rfl : c = d := (List.cons.inj hpat).1
          have hr : r = x ++ c :: y := (List.cons.inj hy).2
          exact hc (hr ▸ List.mem_append_right x List.mem_cons_self)

theorem findSplit_meets {α : Type} [DecidableEq α] {c : α} {r : List α} (hc : c ∉ r) {x : List α} (h : ¬c :: r <:+: x)
    (t : List α) :
    findSplit (c :: r) (x ++ (c :: r ++ t)) = some (x, t) :=
  (findSplit_eq_some (List.cons_ne_nil c r)).2 ⟨(List.append_assoc x (c :: r) t).symm, (meets_of_head hc).2 h⟩

/-- The body from the end of its first delimiter. -/
def after (boundary : List UInt8) : List (List UInt8) → List UInt8
  | [] => [0x2D, 0x2D] ++ crlf
  | b :: blocks => crlf ++ (b ++ (delimiter boundary ++ after boundary blocks))

theorem crlf_writeBlocks (boundary : List UInt8) (blocks : List (List UInt8)) :
    crlf ++ writeBlocks boundary blocks = delimiter boundary ++ after boundary blocks := by
  induction blocks with
  | nil =>
    unfold writeBlocks delimiter after crlf
    simp
  | cons b blocks ih =>
    have hnext : writeBlocks boundary (b :: blocks) = [0x2D, 0x2D] ++ boundary ++ crlf ++ b ++
        (crlf ++ writeBlocks boundary blocks) := by
      unfold writeBlocks
      rw [List.flatMap_cons]
      simp
    have hafter : after boundary (b :: blocks) = crlf ++ (b ++ (delimiter boundary ++ after boundary blocks)) := rfl
    rw [hnext, ih, hafter]
    unfold delimiter crlf
    simp

theorem blocksFrom_after {boundary : List UInt8} (hcr : 0x0D ∉ boundary) {blocks : List (List UInt8)}
    (h : ∀ b ∈ blocks, ¬delimiter boundary <:+: b) {n : Nat} (hn : blocks.length < n) :
    blocksFrom boundary n (after boundary blocks) = some blocks := by
  have hmark : (0x0D : UInt8) ∉ 0x0A :: 0x2D :: 0x2D :: boundary := by simpa using hcr
  induction blocks generalizing n with
  | nil =>
    obtain ⟨m, rfl⟩ := Nat.exists_eq_add_one_of_ne_zero (by omega : n ≠ 0)
    rw [blocksFrom, if_pos ⟨crlf, rfl⟩]
  | cons b blocks ih =>
    obtain ⟨hb, hrest⟩ := List.forall_mem_cons.1 h
    obtain ⟨m, rfl⟩ := Nat.exists_eq_add_one_of_ne_zero (by omega : n ≠ 0)
    have hopen : ¬[0x2D, 0x2D] <+: after boundary (b :: blocks) := by
      rintro ⟨s, hs⟩
      exact absurd (List.cons.inj hs).1 (by decide)
    have hline : (after boundary (b :: blocks)).dropWhile isLwsp = after boundary (b :: blocks) := rfl
    rw [blocksFrom, if_neg hopen, hline, if_pos ⟨b ++ (delimiter boundary ++ after boundary blocks), rfl⟩]
    have hdrop : (after boundary (b :: blocks)).drop 2 = b ++ (delimiter boundary ++ after boundary blocks) := rfl
    rw [hdrop, delimiter, findSplit_meets hmark hb, Option.bind_some, ih hrest (by rw [List.length_cons] at hn; omega)]
    rfl

theorem length_lt_writeBlocks (boundary : List UInt8) (blocks : List (List UInt8)) :
    blocks.length < (writeBlocks boundary blocks).length := by
  induction blocks with
  | nil =>
    unfold writeBlocks crlf
    simp
  | cons b blocks ih =>
    unfold writeBlocks at ih ⊢
    rw [List.flatMap_cons, List.append_assoc, List.length_append, List.length_cons]
    unfold crlf at ih ⊢
    simp only [List.length_append, List.length_cons, List.length_nil] at ih ⊢
    omega

/-- What was written between delimiters is read, where the delimiter is in none of it. -/
theorem readBlocks_writeBlocks {boundary : List UInt8} (hcr : 0x0D ∉ boundary) {blocks : List (List UInt8)}
    (h : ∀ b ∈ blocks, ¬delimiter boundary <:+: b) : readBlocks boundary (writeBlocks boundary blocks) = some blocks := by
  have hmark : (0x0D : UInt8) ∉ 0x0A :: 0x2D :: 0x2D :: boundary := by simpa using hcr
  unfold readBlocks
  have hfirst : findSplit (delimiter boundary) (crlf ++ writeBlocks boundary blocks) = some ([], after boundary blocks) := by
    rw [crlf_writeBlocks]
    exact findSplit_meets hmark (fun hnil => List.cons_ne_nil _ _ (List.infix_nil.1 hnil)) (after boundary blocks)
  rw [hfirst, Option.bind_some]
  exact blocksFrom_after hcr h (length_lt_writeBlocks boundary blocks)

/-! ## A part as it is laid out -/

def quoted (value : List UInt8) : List UInt8 := 0x22 :: value ++ [0x22]

def dispositionLine (name : List UInt8) (fileName : Option (List UInt8)) : List UInt8 :=
  encodeUtf8 "Content-Disposition: form-data; name=".toList ++ (quoted name ++
    fileName.elim [] fun f => encodeUtf8 "; filename=".toList ++ quoted f)

def typeLine (contentType : List UInt8) : List UInt8 := encodeUtf8 "Content-Type: ".toList ++ contentType

/-- The header lines and the content of a part, with its names as they stand between quotes. -/
def layout (name : List UInt8) (fileName contentType : Option (List UInt8)) (content : List UInt8) : List UInt8 :=
  dispositionLine name fileName ++ (crlf ++ (contentType.elim [] (fun t => typeLine t ++ crlf) ++ (crlf ++ content)))

theorem fieldLines_end (n : Nat) (content : List UInt8) : fieldLines (n + 1) (crlf ++ content) = some ([], content) := by
  have hsplit : findSplit crlf (crlf ++ content) = some ([], content) :=
    findSplit_meets (by decide) (fun h => List.cons_ne_nil _ _ (List.infix_nil.1 h)) content
  rw [fieldLines, hsplit]
  rfl

theorem fieldLines_line {line : List UInt8} (hne : line ≠ []) (hline : ¬crlf <:+: line) (n : Nat) (t : List UInt8) :
    fieldLines (n + 1) (line ++ (crlf ++ t)) = (fieldLines n t).map fun q => (line :: q.1, q.2) := by
  have hsplit : findSplit crlf (line ++ (crlf ++ t)) = some (line, t) := findSplit_meets (by decide) hline t
  rw [fieldLines, hsplit, Option.bind_some, if_neg fun he => hne (List.isEmpty_iff.1 he)]

theorem fieldOf_line {name body : List UInt8} (hname : 0x3A ∉ name) :
    fieldOf (name ++ (0x3A :: 0x20 :: body)) = some (name.map lowerByte, body) := by
  have hsplit : findSplit [0x3A] (name ++ ([0x3A] ++ 0x20 :: body)) = some (name, 0x20 :: body) :=
    findSplit_meets List.not_mem_nil (fun h => hname (h.subset List.mem_cons_self)) _
  unfold fieldOf
  rw [show name ++ (0x3A :: 0x20 :: body) = name ++ ([0x3A] ++ 0x20 :: body) from rfl, hsplit]
  rfl

theorem token_append {x t : List UInt8} {b : UInt8} (hne : x ≠ []) (hx : x.all isTokenByte = true)
    (hb : isTokenByte b = false) :
    token (x ++ b :: t) = some (x, b :: t) := by
  have htake : (x ++ b :: t).takeWhile isTokenByte = x := by
    rw [List.takeWhile_append_of_pos (List.all_eq_true.1 hx), List.takeWhile_cons_of_neg (by simp [hb]), List.append_nil]
  have hdrop : (x ++ b :: t).dropWhile isTokenByte = b :: t := by
    rw [List.dropWhile_append_of_pos (List.all_eq_true.1 hx), List.dropWhile_cons_of_neg (by simp [hb])]
  unfold token
  rw [htake, hdrop, if_neg fun he => hne (List.isEmpty_iff.1 he)]

theorem quotedString_close (t : List UInt8) : quotedString (0x22 :: t) = some ([], t) := by
  cases t with
  | nil => rfl
  | cons c t => rfl

theorem quotedString_cons {b : UInt8} (hquote : b ≠ 0x22) (hslash : b ≠ 0x5C) (hcr : b ≠ 0x0D) (t : List UInt8) :
    quotedString (b :: t) = (quotedString t).map fun p => (b :: p.1, p.2) := by
  cases t with
  | nil => exact if_neg hquote
  | cons c t => rw [quotedString, if_neg hquote, if_neg hslash, if_neg hcr]

/-- A value that needs no quoted pair. -/
structure Plain (v : List UInt8) : Prop where
  slash : 0x5C ∉ v
  cr : 0x0D ∉ v

theorem Plain.not_crlf {v : List UInt8} (h : Plain v) : ¬crlf <:+: v := fun hc => h.cr (hc.subset List.mem_cons_self)

theorem quotedString_append {v : List UInt8} (hquote : 0x22 ∉ v) (hv : Plain v) (t : List UInt8) :
    quotedString (v ++ 0x22 :: t) = some (v, t) := by
  obtain ⟨hslash, hcr⟩ := hv
  induction v with
  | nil => exact quotedString_close t
  | cons b v ih =>
    rw [List.mem_cons, not_or] at hquote hslash hcr
    rw [List.cons_append, quotedString_cons (Ne.symm hquote.1) (Ne.symm hslash.1) (Ne.symm hcr.1), ih hquote.2 hslash.2 hcr.2]
    rfl

/-- One parameter with a quoted value. -/
theorem parameters_quoted {c : UInt8} {name value : List UInt8} (hstart : isLwsp c = false)
    (hname : (c :: name).all isTokenByte = true) (hquote : 0x22 ∉ value) (hvalue : Plain value) (n : Nat) (t : List UInt8) :
    parameters (n + 1) (0x3B :: 0x20 :: (c :: name ++ (0x3D :: (quoted value ++ t)))) =
      (parameters n t).map (((c :: name).map lowerByte, value) :: ·) := by
  have hskip : (0x20 :: (c :: name ++ (0x3D :: (quoted value ++ t)))).dropWhile isLwsp = c :: name ++
      0x3D :: (quoted value ++ t) := by
    rw [List.dropWhile_cons_of_pos (by decide), List.cons_append, List.dropWhile_cons_of_neg (by simp [hstart])]
  have hquoted : quoted value ++ t = 0x22 :: (value ++ 0x22 :: t) := by
    unfold quoted
    simp
  have hread : parameterValue (quoted value ++ t) = some (value, t) := by
    rw [hquoted, parameterValue, if_pos ⟨value ++ 0x22 :: t, rfl⟩]
    exact quotedString_append hquote hvalue t
  have hafter : (0x3D :: (quoted value ++ t)).drop 1 = quoted value ++ t := rfl
  rw [parameters, if_pos rfl, hskip, token_append (List.cons_ne_nil c name) hname (by decide), Option.bind_some,
    if_pos ⟨quoted value ++ t, rfl⟩, hafter, hread]
  rfl

/-- No line starts with white space. -/
theorem unfoldLines_of_start {lines : List (List UInt8)} (h : ∀ l ∈ lines, (l.head?.map isLwsp).getD false = false) :
    unfoldLines lines = lines := by
  induction lines with
  | nil => rfl
  | cons l lines ih =>
    obtain ⟨-, hlines⟩ := List.forall_mem_cons.1 h
    have hrest : unfoldLines (l :: lines) = joinLine l (unfoldLines lines) := rfl
    rw [hrest, ih hlines]
    cases lines with
    | nil => rfl
    | cons m lines =>
      have hm := hlines m List.mem_cons_self
      rw [joinLine, if_neg (by rw [hm]; decide)]

/-- A pattern is on one side of an element that is not inside of it. -/
theorem infix_append_cons {α : Type} {c : α} {r x y : List α} {b : α} (hb : b ∉ r) (h : c :: r <:+: x ++ b :: y) :
    c :: r <:+: x ∨ c :: r <:+: b :: y := by
  rcases List.infix_append_iff_ne_nil.1 h with h | h | ⟨u, v, hu, hv, hpat, -, hpre⟩
  · exact .inl h
  · exact .inr h
  · obtain ⟨d, u, rfl⟩ := List.exists_cons_of_ne_nil hu
    obtain ⟨e, v, rfl⟩ := List.exists_cons_of_ne_nil hv
    obtain rfl : e = b := (List.cons_prefix_cons.1 hpre).1
    have hr : r = u ++ e :: v := (List.cons.inj hpat).2
    exact absurd (hr ▸ List.mem_append_right u List.mem_cons_self) hb

/-- A pattern without an element is on one side of it. -/
theorem infix_split {α : Type} {c : α} {r x y : List α} {b : α} (hb : b ∉ c :: r) (h : c :: r <:+: x ++ b :: y) :
    c :: r <:+: x ∨ c :: r <:+: y := by
  rw [List.mem_cons, not_or] at hb
  refine (infix_append_cons hb.2 h).imp_right fun hy => (List.infix_cons_iff.1 hy).resolve_left fun hpre => ?_
  exact hb.1 (List.cons_prefix_cons.1 hpre).1.symm

/-- What is in none of the fixed texts of a part. -/
structure Foreign (p : List UInt8) : Prop where
  quote : 0x22 ∉ p
  disposition : ¬p <:+: encodeUtf8 "Content-Disposition: form-data; name=".toList
  fileName : ¬p <:+: encodeUtf8 "; filename=".toList

theorem infix_dispositionLine {c : UInt8} {r name : List UInt8} {fileName : Option (List UInt8)} (hp : Foreign (c :: r))
    (h : c :: r <:+: dispositionLine name fileName) : c :: r <:+: name ∨ ∃ f ∈ fileName, c :: r <:+: f := by
  have hshape : dispositionLine name fileName = encodeUtf8 "Content-Disposition: form-data; name=".toList ++ 0x22 ::
      (name ++ 0x22 :: fileName.elim [] fun f => encodeUtf8 "; filename=".toList ++ 0x22 :: (f ++ 0x22 :: [])) := by
    unfold dispositionLine quoted
    simp
  rw [hshape] at h
  rcases infix_split hp.quote h with h | h
  · exact absurd h hp.disposition
  rcases infix_split hp.quote h with h | h
  · exact .inl h
  cases fileName with
  | none => exact absurd (List.infix_nil.1 h) (List.cons_ne_nil c r)
  | some f =>
    rcases infix_split hp.quote h with h | h
    · exact absurd h hp.fileName
    rcases infix_split hp.quote h with h | h
    · exact .inr ⟨f, rfl, h⟩
    · exact absurd (List.infix_nil.1 h) (List.cons_ne_nil c r)

theorem infix_typeLine {c : UInt8} {r contentType : List UInt8} (hspace : 0x20 ∉ c :: r)
    (hlit : ¬c :: r <:+: encodeUtf8 "Content-Type:".toList) (h : c :: r <:+: typeLine contentType) :
      c :: r <:+: contentType := by
  have hshape : typeLine contentType = encodeUtf8 "Content-Type:".toList ++ 0x20 :: contentType := rfl
  rw [hshape] at h
  exact (infix_split hspace h).resolve_left hlit

/-- What is in a part without being in its fixed texts is in one of its values. -/
theorem infix_layout {c : UInt8} {r name content : List UInt8} {fileName contentType : Option (List UInt8)}
    (hp : Foreign (c :: r))
    (hcr : 0x0D ∉ c :: r) (hlf : 0x0A ∉ c :: r) (hspace : 0x20 ∉ c :: r)
    (hlit : ¬c :: r <:+: encodeUtf8 "Content-Type:".toList)
    (h : c :: r <:+: layout name fileName contentType content) :
    c :: r <:+: name ∨ (∃ f ∈ fileName, c :: r <:+: f) ∨ (∃ t ∈ contentType, c :: r <:+: t) ∨ c :: r <:+: content := by
  have hline : ∀ {x y : List UInt8}, c :: r <:+: x ++ (crlf ++ y) → c :: r <:+: x ∨ c :: r <:+: y := by
    intro x y h
    rcases infix_split hcr (show c :: r <:+: x ++ 0x0D :: (0x0A :: y) from h) with h | h
    · exact .inl h
    · exact .inr ((infix_split hlf (show c :: r <:+: [] ++ 0x0A :: y from h)).resolve_left fun hnil =>
        List.cons_ne_nil c r (List.infix_nil.1 hnil))
  rcases hline h with h | h
  · rcases infix_dispositionLine hp h with h | h
    · exact .inl h
    · exact .inr (.inl h)
  cases contentType with
  | none =>
    rcases hline h with h | h
    · exact absurd (List.infix_nil.1 h) (List.cons_ne_nil c r)
    · exact .inr (.inr (.inr h))
  | some t =>
    rw [Option.elim_some, List.append_assoc] at h
    rcases hline h with h | h
    · exact .inr (.inr (.inl ⟨t, rfl, infix_typeLine hspace hlit h⟩))
    · rcases hline (show c :: r <:+: [] ++ (crlf ++ content) from h) with h | h
      · exact absurd (List.infix_nil.1 h) (List.cons_ne_nil c r)
      · exact .inr (.inr (.inr h))

theorem not_crlf_dispositionLine {name : List UInt8} {fileName : Option (List UInt8)} (hname : ¬crlf <:+: name)
    (hfile : ∀ f ∈ fileName, ¬crlf <:+: f) : ¬crlf <:+: dispositionLine name fileName := by
  have hforeign : Foreign crlf := ⟨by decide, by decide, by decide⟩
  intro h
  rcases infix_dispositionLine hforeign h with h | ⟨f, hf, h⟩
  · exact hname h
  · exact hfile f hf h

theorem not_crlf_typeLine {contentType : List UInt8} (h : ¬crlf <:+: contentType) : ¬crlf <:+: typeLine contentType :=
  fun hline => h (infix_typeLine (by decide) (by decide) hline)

theorem fieldLines_layout {name content : List UInt8} {fileName contentType : Option (List UInt8)} (hname : ¬crlf <:+: name)
    (hfile : ∀ f ∈ fileName, ¬crlf <:+: f) (htype : ∀ t ∈ contentType, ¬crlf <:+: t) (n : Nat) :
    fieldLines (n + 3) (layout name fileName contentType content) =
      some (dispositionLine name fileName :: (contentType.map typeLine).toList, content) := by
  have hne : dispositionLine name fileName ≠ [] := List.cons_ne_nil _ _
  unfold layout
  rw [fieldLines_line hne (not_crlf_dispositionLine hname hfile)]
  cases contentType with
  | none =>
    rw [Option.elim_none, List.nil_append, fieldLines_end]
    rfl
  | some t =>
    have hne' : typeLine t ≠ [] := List.cons_ne_nil _ _
    rw [Option.elim_some, List.append_assoc, fieldLines_line hne' (not_crlf_typeLine (htype t rfl)), fieldLines_end]
    rfl

/-- The body of the disposition, after its type. -/
def dispositionRest (name : List UInt8) (fileName : Option (List UInt8)) : List UInt8 :=
  0x3B :: 0x20 :: (encodeUtf8 "name".toList ++ (0x3D :: (quoted name ++
    fileName.elim [] fun f => 0x3B :: 0x20 :: (encodeUtf8 "filename".toList ++ (0x3D :: (quoted f ++ []))))))

theorem fieldOf_dispositionLine (name : List UInt8) (fileName : Option (List UInt8)) :
    fieldOf (dispositionLine name fileName) =
    some (encodeUtf8 "content-disposition".toList, encodeUtf8 "form-data".toList ++ dispositionRest name fileName) := by
  have hlit : encodeUtf8 "Content-Disposition: form-data; name=".toList = encodeUtf8 "Content-Disposition".toList ++
      (0x3A :: 0x20 :: (encodeUtf8 "form-data".toList ++ (0x3B :: 0x20 :: (encodeUtf8 "name".toList ++ [0x3D])))) := by decide
  have hfile : encodeUtf8 "; filename=".toList = 0x3B :: 0x20 :: (encodeUtf8 "filename".toList ++ [0x3D]) := by decide
  have hlower : (encodeUtf8 "Content-Disposition".toList).map lowerByte = encodeUtf8 "content-disposition".toList := by decide
  have hshape : dispositionLine name fileName =
      encodeUtf8 "Content-Disposition".toList ++ (0x3A :: 0x20 ::
        (encodeUtf8 "form-data".toList ++ dispositionRest name fileName)) := by
    unfold dispositionLine dispositionRest
    rw [hlit, hfile]
    cases fileName with
    | none => simp only [Option.elim_none, List.append_assoc, List.cons_append, List.nil_append]
    | some f => simp only [Option.elim_some, List.append_assoc, List.cons_append, List.nil_append, List.append_nil]
  rw [hshape, fieldOf_line (by decide), hlower]

theorem fieldOf_typeLine (t : List UInt8) : fieldOf (typeLine t) = some (encodeUtf8 "content-type".toList, t) := by
  have hlower : (encodeUtf8 "Content-Type".toList).map lowerByte = encodeUtf8 "content-type".toList := by decide
  have hlit : encodeUtf8 "Content-Type: ".toList = encodeUtf8 "Content-Type".toList ++ [0x3A, 0x20] := by decide
  have hshape : typeLine t = encodeUtf8 "Content-Type".toList ++ (0x3A :: 0x20 :: t) := by
    unfold typeLine
    rw [hlit, List.append_assoc]
    rfl
  rw [hshape, fieldOf_line (by decide), hlower]

theorem parameters_dispositionRest {name : List UInt8} {fileName : Option (List UInt8)} (hname : 0x22 ∉ name ∧ Plain name)
    (hfile : ∀ f ∈ fileName, 0x22 ∉ f ∧ Plain f) (n : Nat) : parameters (n + 2) (dispositionRest name fileName) =
      some ((encodeUtf8 "name".toList, name) :: (fileName.map fun f => (encodeUtf8 "filename".toList, f)).toList) := by
  have hfirst : ∀ t, parameters (n + 2) (0x3B :: 0x20 :: (encodeUtf8 "name".toList ++ (0x3D :: (quoted name ++ t)))) =
      (parameters (n + 1) t).map ((encodeUtf8 "name".toList, name) :: ·) :=
    fun t => parameters_quoted (c := 0x6E) (by decide) (by decide) hname.1 hname.2 (n + 1) t
  unfold dispositionRest
  rw [hfirst]
  cases fileName with
  | none => rfl
  | some f =>
    have hsecond : parameters (n + 1) (0x3B :: 0x20 :: (encodeUtf8 "filename".toList ++ (0x3D :: (quoted f ++ [])))) =
        (parameters n []).map ((encodeUtf8 "filename".toList, f) :: ·) :=
      parameters_quoted (c := 0x66) (by decide) (by decide) (hfile f rfl).1 (hfile f rfl).2 n []
    rw [Option.elim_some, hsecond]
    cases n <;> rfl

/-- A part is read as it was laid out. -/
theorem formPart_layout {name content : List UInt8} {fileName contentType : Option (List UInt8)}
    (hname : 0x22 ∉ name ∧ Plain name)
    (hfile : ∀ f ∈ fileName, 0x22 ∉ f ∧ Plain f) (htype : ∀ t ∈ contentType, ¬crlf <:+: t) :
    formPart (layout name fileName contentType content) =
      some ⟨unquote name, fileName.map unquote, contentType, content⟩ := by
  obtain ⟨n, hn⟩ : ∃ n, (layout name fileName contentType content).length + 1 = n + 3 := by
    refine ⟨(layout name fileName contentType content).length - 2, ?_⟩
    have hlen : 2 ≤ (layout name fileName contentType content).length := by
      unfold layout crlf
      simp only [List.length_append, List.length_cons]
      omega
    omega
  have hstart : ∀ l ∈ dispositionLine name fileName :: (contentType.map typeLine).toList,
      (l.head?.map isLwsp).getD false = false := by
    intro l hl
    rcases List.mem_cons.1 hl with rfl | hl
    · rfl
    · obtain ⟨t, -, rfl⟩ := Option.map_eq_some_iff.1 (Option.mem_toList.1 hl)
      rfl
  have hfields : (dispositionLine name fileName :: (contentType.map typeLine).toList).mapM fieldOf =
      some ((encodeUtf8 "content-disposition".toList, encodeUtf8 "form-data".toList ++ dispositionRest name fileName) ::
        (contentType.map fun t => (encodeUtf8 "content-type".toList, t)).toList) := by
    rw [List.mapM_cons, fieldOf_dispositionLine]
    cases contentType with
    | none => rfl
    | some t =>
      have hone : (Option.map typeLine (some t)).toList.mapM fieldOf = some [(encodeUtf8 "content-type".toList, t)] := by
        rw [Option.map_some, Option.toList_some, List.mapM_cons, fieldOf_typeLine]
        rfl
      rw [hone]
      rfl
  have hvalue : ∀ rest, valueOf "content-disposition".toList
      ((encodeUtf8 "content-disposition".toList, encodeUtf8 "form-data".toList ++ dispositionRest name fileName) :: rest) =
      some (encodeUtf8 "form-data".toList ++ dispositionRest name fileName) := fun _ => rfl
  have hform : (encodeUtf8 "form-data".toList).all (· ≠ 0x3B) = true := by decide
  have htake : (encodeUtf8 "form-data".toList ++ dispositionRest name fileName).takeWhile (· ≠ 0x3B) =
      encodeUtf8 "form-data".toList := by
    rw [List.takeWhile_append_of_pos (List.all_eq_true.1 hform)]
    exact List.append_nil _
  have hdrop : (encodeUtf8 "form-data".toList ++ dispositionRest name fileName).dropWhile (· ≠ 0x3B) =
      dispositionRest name fileName := by
    rw [List.dropWhile_append_of_pos (List.all_eq_true.1 hform)]
    rfl
  obtain ⟨m, hm⟩ : ∃ m, (encodeUtf8 "form-data".toList ++ dispositionRest name fileName).length = m + 2 := by
    refine ⟨(encodeUtf8 "form-data".toList ++ dispositionRest name fileName).length - 2, ?_⟩
    have hlen : 2 ≤ (dispositionRest name fileName).length := by
      unfold dispositionRest
      simp only [List.length_cons]
      omega
    rw [List.length_append]
    omega
  unfold formPart
  rw [hn, fieldLines_layout hname.2.not_crlf (fun f hf => (hfile f hf).2.not_crlf) htype, Option.bind_some,
    unfoldLines_of_start hstart, hfields, Option.bind_some, hvalue, Option.bind_some, if_pos htake, hdrop, hm,
    parameters_dispositionRest hname hfile, Option.bind_some]
  cases fileName with
  | none => cases contentType <;> rfl
  | some f => cases contentType <;> rfl

/-! ## Names and quotes -/

/-- The name with a `%22` for each quote. -/
def escapeQuotes (s : List UInt8) : List UInt8 := s.flatMap fun b => if b = 0x22 then [0x25, 0x32, 0x32] else [b]

def quoteEscape : List UInt8 := [0x25, 0x32, 0x32]

theorem escapeQuotes_cons (b : UInt8) (s : List UInt8) :
    escapeQuotes (b :: s) = (if b = 0x22 then [0x25, 0x32, 0x32] else [b]) ++ escapeQuotes s := List.flatMap_cons

theorem quote_not_mem_escapeQuotes (s : List UInt8) : 0x22 ∉ escapeQuotes s := by
  intro h
  obtain ⟨b, -, hb⟩ := List.mem_flatMap.1 h
  split_ifs at hb with hq
  · exact absurd hb (by decide)
  · exact hq (List.mem_singleton.1 hb).symm

/-- A start without percent signs was there before. -/
theorem prefix_escapeQuotes {p s : List UInt8} (hp : 0x25 ∉ p) (h : p <+: escapeQuotes s) : p <+: s := by
  induction s generalizing p with
  | nil => exact h
  | cons b s ih =>
    cases p with
    | nil => exact List.nil_prefix
    | cons c p =>
      rw [List.mem_cons, not_or] at hp
      rw [escapeQuotes_cons] at h
      split_ifs at h with hb
      · exact absurd (List.cons_prefix_cons.1 h).1.symm hp.1
      · obtain ⟨rfl, hrest⟩ := List.cons_prefix_cons.1 h
        exact List.cons_prefix_cons.2 ⟨rfl, ih hp.2 hrest⟩

theorem infix_escapeQuotes {c : UInt8} {r s : List UInt8} (hp : 0x25 ∉ c :: r) (hc : c ≠ 0x32)
    (h : c :: r <:+: escapeQuotes s) :
    c :: r <:+: s := by
  induction s with
  | nil => exact h
  | cons b s ih =>
    rw [escapeQuotes_cons] at h
    split_ifs at h with hb
    · -- the pattern starts at none of the three bytes
      have hpercent : c ≠ 0x25 := fun he => hp (he ▸ List.mem_cons_self)
      rcases List.infix_cons_iff.1 h with h | h
      · exact absurd (List.cons_prefix_cons.1 h).1 hpercent
      rcases List.infix_cons_iff.1 h with h | h
      · exact absurd (List.cons_prefix_cons.1 h).1 hc
      rcases List.infix_cons_iff.1 h with h | h
      · exact absurd (List.cons_prefix_cons.1 h).1 hc
      exact List.infix_cons (ih h)
    · rcases List.infix_cons_iff.1 h with h | h
      · obtain ⟨rfl, hrest⟩ := List.cons_prefix_cons.1 h
        have htail : 0x25 ∉ r := fun hr => hp (List.mem_cons_of_mem _ hr)
        exact (List.cons_prefix_cons.2 ⟨rfl, prefix_escapeQuotes htail hrest⟩).isInfix
      · exact List.infix_cons (ih h)

theorem unquote_cons {b : UInt8} {t : List UInt8} (h : ¬quoteEscape <+: b :: t) : unquote (b :: t) = b :: unquote t := by
  rw [unquote.eq_2]
  rintro t' rfl rfl
  exact h ⟨t', rfl⟩

/-- A name is read as it was, where it had no `%22` itself. -/
theorem unquote_escapeQuotes {s : List UInt8} (h : ¬quoteEscape <:+: s) : unquote (escapeQuotes s) = s := by
  induction s with
  | nil => rfl
  | cons b s ih =>
    have hs : ¬quoteEscape <:+: s := fun hs => h (List.infix_cons hs)
    rw [escapeQuotes_cons]
    split_ifs with hb
    · rw [hb]
      exact congrArg (0x22 :: ·) (ih hs)
    · have hhead : ¬quoteEscape <+: b :: escapeQuotes s := by
        intro hp
        obtain ⟨rfl, hrest⟩ := List.cons_prefix_cons.1 hp
        exact h (List.cons_prefix_cons.2 ⟨rfl, prefix_escapeQuotes (by decide) hrest⟩).isInfix
      rw [List.singleton_append, unquote_cons hhead, ih hs]

/-- A start without quotes was there before. -/
theorem prefix_unquote {p t : List UInt8} (hp : 0x22 ∉ p) (h : p <+: unquote t) : p <+: t := by
  induction t using unquote.induct generalizing p with
  | case1 t ih =>
    cases p with
    | nil => exact List.nil_prefix
    | cons c p => exact absurd ((List.cons_prefix_cons.1 h).1 ▸ List.mem_cons_self) hp
  | case2 b t hesc ih =>
    rw [unquote.eq_2 b t hesc] at h
    cases p with
    | nil => exact List.nil_prefix
    | cons c p =>
      obtain ⟨rfl, hrest⟩ := List.cons_prefix_cons.1 h
      exact List.cons_prefix_cons.2 ⟨rfl, ih (fun hc => hp (List.mem_cons_of_mem _ hc)) hrest⟩
  | case3 => exact h

/-- No name that is read has a `%22`. -/
theorem not_quoteEscape_unquote (t : List UInt8) : ¬quoteEscape <:+: unquote t := by
  induction t using unquote.induct with
  | case1 t ih =>
    intro h
    rcases List.infix_cons_iff.1 h with h | h
    · exact absurd (List.cons_prefix_cons.1 h).1 (by decide)
    · exact ih h
  | case2 b t hesc ih =>
    rw [unquote.eq_2 b t hesc]
    intro h
    rcases List.infix_cons_iff.1 h with h | h
    · obtain ⟨rfl, hrest⟩ := List.cons_prefix_cons.1 h
      obtain ⟨t', ht'⟩ := prefix_unquote (by decide) hrest
      exact hesc t' rfl ht'.symm
    · exact ih h
  | case3 => decide

/-! ## What a part that is read cannot hold -/

theorem fieldLines_clean {n : Nat} {t : List UInt8} {lines : List (List UInt8)} {content : List UInt8}
    (h : fieldLines n t = some (lines, content)) : ∀ l ∈ lines, ¬crlf <:+: l := by
  induction n generalizing t lines content with
  | zero => cases h
  | succ n ih =>
    rw [fieldLines, Option.bind_eq_some_iff] at h
    obtain ⟨p, hp, h⟩ := h
    split_ifs at h with hend
    · obtain ⟨rfl, -⟩ := Prod.mk.inj (Option.some.inj h)
      exact fun l hl => absurd hl List.not_mem_nil
    · obtain ⟨q, hq, he⟩ := Option.map_eq_some_iff.1 h
      obtain ⟨rfl, -⟩ := Prod.mk.inj he
      have hmeets := ((findSplit_eq_some (List.cons_ne_nil _ _)).1 hp).2
      exact List.forall_mem_cons.2 ⟨(meets_of_head (by decide)).1 hmeets, ih hq⟩

theorem joinLine_clean {line : List UInt8} {fields : List (List UInt8)} (hline : ¬crlf <:+: line)
    (hfields : ∀ l ∈ fields, ¬crlf <:+: l) :
    ∀ l ∈ joinLine line fields, ¬crlf <:+: l := by
  cases fields with
  | nil => exact List.forall_mem_cons.2 ⟨hline, fun l hl => absurd hl List.not_mem_nil⟩
  | cons f fields =>
    obtain ⟨hf, hrest⟩ := List.forall_mem_cons.1 hfields
    rw [joinLine]
    split_ifs with hstart
    · refine List.forall_mem_cons.2 ⟨?_, hrest⟩
      cases f with
      | nil => cases hstart
      | cons b f =>
        have hb : b ≠ 0x0A := by
          rintro rfl
          exact absurd (show isLwsp 0x0A = true from hstart) (by decide)
        exact fun h => (infix_append_cons (by simpa using hb) h).elim hline hf
    · exact List.forall_mem_cons.2 ⟨hline, hfields⟩

theorem unfoldLines_clean {lines : List (List UInt8)} (h : ∀ l ∈ lines, ¬crlf <:+: l) :
    ∀ l ∈ unfoldLines lines, ¬crlf <:+: l := by
  induction lines with
  | nil => exact h
  | cons l lines ih =>
    obtain ⟨hl, hlines⟩ := List.forall_mem_cons.1 h
    exact joinLine_clean hl (ih hlines)

theorem infix_of_findSplit {pat t : List UInt8} (hne : pat ≠ []) {p : List UInt8 × List UInt8}
    (h : findSplit pat t = some p) :
    p.1 <:+: t ∧ p.2 <:+: t := by
  obtain ⟨rfl, -⟩ := (findSplit_eq_some hne).1 (show findSplit pat t = some (p.1, p.2) from h)
  rw [List.append_assoc]
  exact ⟨List.infix_append_left, (List.infix_append_right).trans List.infix_append_right⟩

theorem infix_of_fieldOf {line : List UInt8} {f : List UInt8 × List UInt8} (h : fieldOf line = some f) : f.2 <:+: line := by
  obtain ⟨p, hp, rfl⟩ := Option.map_eq_some_iff.1 h
  have hrest := (infix_of_findSplit (List.cons_ne_nil _ _) hp).2
  dsimp only
  split_ifs
  · exact (List.drop_suffix 1 p.2).isInfix.trans hrest
  · exact hrest

theorem mem_of_mapM {α β : Type} {f : α → Option β} {l : List α} {r : List β} (h : l.mapM f = some r) {y : β} (hy : y ∈ r) :
    ∃ x ∈ l, f x = some y := by
  induction l generalizing r with
  | nil =>
    obtain rfl := Option.some.inj h
    exact absurd hy List.not_mem_nil
  | cons x l ih =>
    rw [List.mapM_cons] at h
    obtain ⟨z, hz, h⟩ := Option.bind_eq_some_iff.1 h
    obtain ⟨rest, hrest, h⟩ := Option.bind_eq_some_iff.1 h
    obtain rfl := Option.some.inj h
    rcases List.mem_cons.1 hy with rfl | hy
    · exact ⟨x, List.mem_cons_self, hz⟩
    · obtain ⟨w, hw, hwy⟩ := ih hrest hy
      exact ⟨w, List.mem_cons_of_mem x hw, hwy⟩

theorem mem_of_valueOf {name : Text} {l : List (List UInt8 × List UInt8)} {v : List UInt8} (h : valueOf name l = some v) :
    ∃ kv ∈ l, kv.2 = v := by
  obtain ⟨kv, hkv, rfl⟩ := Option.map_eq_some_iff.1 h
  exact ⟨kv, List.mem_of_find?_eq_some hkv, rfl⟩

/-! ## Backslashes

A reader only drops backslashes: those of quoted pairs, and those of what it does not read. So where a part has as many of
them as its block, no quoted pair was read in its names. -/

def slashes (t : List UInt8) : Nat := t.count 0x5C

@[simp] theorem slashes_nil : slashes [] = 0 := rfl

@[simp] theorem slashes_cons (b : UInt8) (t : List UInt8) : slashes (b :: t) = slashes t + if b = 0x5C then 1 else 0 := by
  unfold slashes
  rw [List.count_cons]
  simp

@[simp] theorem slashes_append (s t : List UInt8) : slashes (s ++ t) = slashes s + slashes t := List.count_append

theorem slashes_sublist {s t : List UInt8} (h : s.Sublist t) : slashes s ≤ slashes t := h.count_le 0x5C

/-- The backslashes of the values. -/
def valueSlashes (l : List (List UInt8 × List UInt8)) : Nat := (l.map fun kv => slashes kv.2).sum

@[simp] theorem valueSlashes_cons (kv : List UInt8 × List UInt8) (l : List (List UInt8 × List UInt8)) :
    valueSlashes (kv :: l) = slashes kv.2 + valueSlashes l := by
  unfold valueSlashes
  rw [List.map_cons, List.sum_cons]

theorem findSplit_slashes {pat t : List UInt8} (hne : pat ≠ []) {p : List UInt8 × List UInt8} (h : findSplit pat t = some p) :
    slashes p.1 + slashes p.2 ≤ slashes t := by
  obtain ⟨rfl, -⟩ := (findSplit_eq_some hne).1 (show findSplit pat t = some (p.1, p.2) from h)
  rw [slashes_append, slashes_append]
  omega

theorem token_slashes {t : List UInt8} {p : List UInt8 × List UInt8} (h : token t = some p) :
    slashes p.1 + slashes p.2 ≤ slashes t ∧ Plain p.1 := by
  unfold token at h
  split_ifs at h
  obtain rfl := Option.some.inj h
  have hbyte : ∀ b ∈ t.takeWhile isTokenByte, isTokenByte b = true := fun b hb => List.mem_takeWhile_imp hb
  refine ⟨?_, fun hc => absurd (hbyte _ hc) (by decide), fun hc => absurd (hbyte _ hc) (by decide)⟩
  rw [← slashes_append, List.takeWhile_append_dropWhile]

theorem plain_cons {b : UInt8} {v : List UInt8} (hslash : b ≠ 0x5C) (hcr : b ≠ 0x0D) (hv : Plain v) : Plain (b :: v) :=
  ⟨fun h => (List.mem_cons.1 h).elim (fun he => hslash he.symm) hv.slash,
    fun h => (List.mem_cons.1 h).elim (fun he => hcr he.symm) hv.cr⟩

theorem plain_nil : Plain [] := ⟨List.not_mem_nil, List.not_mem_nil⟩

/-- A quoted string that keeps all of its backslashes has no quoted pair. -/
theorem quotedString_slashes {t : List UInt8} {p : List UInt8 × List UInt8} (h : quotedString t = some p) :
    slashes p.1 + slashes p.2 ≤ slashes t ∧ (slashes p.1 + slashes p.2 = slashes t → Plain p.1) := by
  induction t using quotedString.induct generalizing p with
  | case1 => cases h
  | case2 =>
    obtain rfl := Option.some.inj h
    exact ⟨Nat.zero_le _, fun _ => plain_nil⟩
  | case3 b hquote =>
    rw [quotedString, if_neg hquote] at h
    cases h
  | case4 c t =>
    obtain rfl := Option.some.inj h
    exact ⟨by simp, fun _ => plain_nil⟩
  | case5 c t hquote ih =>
    -- a quoted pair loses its backslash
    rw [quotedString, if_neg hquote, if_pos rfl] at h
    obtain ⟨q, hq, rfl⟩ := Option.map_eq_some_iff.1 h
    have hle := (ih hq).1
    dsimp only
    rw [slashes_cons c, slashes_cons 0x5C, slashes_cons c, if_pos rfl]
    exact ⟨by omega, fun he => absurd he (by omega)⟩
  | case6 c t hquote hslash =>
    rw [quotedString, if_neg hquote, if_neg hslash, if_pos rfl] at h
    cases h
  | case7 b c t hquote hslash hcr ih =>
    rw [quotedString_cons hquote hslash hcr] at h
    obtain ⟨q, hq, rfl⟩ := Option.map_eq_some_iff.1 h
    obtain ⟨hle, hplain⟩ := ih hq
    rw [slashes_cons b, slashes_cons b, if_neg hslash]
    exact ⟨by omega, fun he => plain_cons hslash hcr (hplain (by omega))⟩

theorem parameterValue_slashes {t : List UInt8} {p : List UInt8 × List UInt8} (h : parameterValue t = some p) :
    slashes p.1 + slashes p.2 ≤ slashes t ∧ (slashes p.1 + slashes p.2 = slashes t → Plain p.1) := by
  unfold parameterValue at h
  split_ifs at h with hquote
  · obtain ⟨r, rfl⟩ := hquote
    have hread : quotedString r = some p := h
    simpa using quotedString_slashes hread
  · exact ⟨(token_slashes h).1, fun _ => (token_slashes h).2⟩

/-- So it is with the values of all parameters together. -/
theorem parameters_slashes {n : Nat} {t : List UInt8} {l : List (List UInt8 × List UInt8)} (h : parameters n t = some l) :
    valueSlashes l ≤ slashes t ∧ (valueSlashes l = slashes t → ∀ kv ∈ l, Plain kv.2) := by
  induction n generalizing t l with
  | zero =>
    cases t with
    | nil =>
      obtain rfl := Option.some.inj h
      exact ⟨le_rfl, fun _ kv hkv => absurd hkv List.not_mem_nil⟩
    | cons c t => cases h
  | succ n ih =>
    cases t with
    | nil =>
      obtain rfl := Option.some.inj h
      exact ⟨le_rfl, fun _ kv hkv => absurd hkv List.not_mem_nil⟩
    | cons c t =>
      rw [parameters] at h
      split_ifs at h
      obtain ⟨p, hp, h⟩ := Option.bind_eq_some_iff.1 h
      split_ifs at h
      obtain ⟨v, hv, h⟩ := Option.bind_eq_some_iff.1 h
      obtain ⟨rest, hrest, rfl⟩ := Option.map_eq_some_iff.1 h
      have hskip := slashes_sublist (List.dropWhile_sublist isLwsp (l := t))
      have hname := (token_slashes hp).1
      have hmark := slashes_sublist (List.drop_sublist 1 p.2)
      obtain ⟨hvalue, hplain⟩ := parameterValue_slashes hv
      obtain ⟨hle, hall⟩ := ih hrest
      rw [valueSlashes_cons, slashes_cons]
      dsimp only
      exact ⟨by omega, fun he => List.forall_mem_cons.2 ⟨hplain (by omega), hall (by omega)⟩⟩

theorem fieldLines_slashes {n : Nat} {t : List UInt8} {lines : List (List UInt8)} {content : List UInt8}
    (h : fieldLines n t = some (lines, content)) : (lines.map slashes).sum + slashes content ≤ slashes t := by
  induction n generalizing t lines content with
  | zero => cases h
  | succ n ih =>
    rw [fieldLines, Option.bind_eq_some_iff] at h
    obtain ⟨p, hp, h⟩ := h
    have hsplit := findSplit_slashes (List.cons_ne_nil _ _) hp
    split_ifs at h with hend
    · obtain ⟨rfl, rfl⟩ := Prod.mk.inj (Option.some.inj h)
      rw [List.map_nil, List.sum_nil]
      omega
    · obtain ⟨q, hq, he⟩ := Option.map_eq_some_iff.1 h
      obtain ⟨rfl, rfl⟩ := Prod.mk.inj he
      have hrest := ih hq
      rw [List.map_cons, List.sum_cons]
      omega

theorem unfoldLines_slashes (lines : List (List UInt8)) :
    ((unfoldLines lines).map slashes).sum = (lines.map slashes).sum := by
  induction lines with
  | nil => rfl
  | cons l lines ih =>
    have hrest : unfoldLines (l :: lines) = joinLine l (unfoldLines lines) := rfl
    rw [hrest, List.map_cons, List.sum_cons, ← ih]
    cases unfoldLines lines with
    | nil => rfl
    | cons f fields =>
      rw [joinLine]
      split_ifs
      · rw [List.map_cons, List.sum_cons, List.map_cons, List.sum_cons, slashes_append, Nat.add_assoc]
      · rfl

theorem fieldOf_slashes {line : List UInt8} {f : List UInt8 × List UInt8} (h : fieldOf line = some f) :
    slashes f.2 ≤ slashes line := by
  obtain ⟨p, hp, rfl⟩ := Option.map_eq_some_iff.1 h
  have hsplit := findSplit_slashes (List.cons_ne_nil _ _) hp
  have hdrop := slashes_sublist (List.drop_sublist 1 p.2)
  dsimp only
  split_ifs <;> omega

theorem fields_slashes {lines : List (List UInt8)} {fields : List (List UInt8 × List UInt8)}
    (h : lines.mapM fieldOf = some fields) :
    valueSlashes fields ≤ (lines.map slashes).sum := by
  induction lines generalizing fields with
  | nil =>
    obtain rfl := Option.some.inj h
    exact le_rfl
  | cons line lines ih =>
    rw [List.mapM_cons] at h
    obtain ⟨f, hf, h⟩ := Option.bind_eq_some_iff.1 h
    obtain ⟨rest, hrest, h⟩ := Option.bind_eq_some_iff.1 h
    obtain rfl := Option.some.inj h
    rw [valueSlashes_cons, List.map_cons, List.sum_cons]
    exact Nat.add_le_add (fieldOf_slashes hf) (ih hrest)

theorem valueOf_cons (name : Text) (kv : List UInt8 × List UInt8) (l : List (List UInt8 × List UInt8)) :
    valueOf name (kv :: l) = if kv.1 = encodeUtf8 name then some kv.2 else valueOf name l := by
  unfold valueOf
  rw [List.find?_cons]
  by_cases h : kv.1 = encodeUtf8 name
  · rw [decide_eq_true h, if_pos h]
    rfl
  · rw [decide_eq_false h, if_neg h]

theorem valueOf_slashes (name : Text) (l : List (List UInt8 × List UInt8)) :
    (valueOf name l).elim 0 slashes ≤ valueSlashes l := by
  induction l with
  | nil => exact le_rfl
  | cons kv l ih =>
    rw [valueOf_cons, valueSlashes_cons]
    split_ifs
    · exact Nat.le_add_right _ _
    · exact ih.trans (Nat.le_add_left _ _)

/-- The values of two names are two values. -/
theorem valueOf_slashes_two {a b : Text} (hne : encodeUtf8 a ≠ encodeUtf8 b) (l : List (List UInt8 × List UInt8)) :
    (valueOf a l).elim 0 slashes + (valueOf b l).elim 0 slashes ≤ valueSlashes l := by
  induction l with
  | nil => exact le_rfl
  | cons kv l ih =>
    have ha := valueOf_slashes a l
    have hb := valueOf_slashes b l
    rw [valueOf_cons, valueOf_cons, valueSlashes_cons]
    split_ifs with hka hkb hkb
    · exact absurd (hka.symm.trans hkb) hne
    · exact Nat.add_le_add_left hb _
    · rw [Nat.add_comm]
      exact Nat.add_le_add_left ha _
    · exact ih.trans (Nat.le_add_left _ _)

theorem slashes_unquote (t : List UInt8) : slashes (unquote t) = slashes t := by
  induction t using unquote.induct with
  | case1 t ih =>
    have hcons : unquote (0x25 :: 0x32 :: 0x32 :: t) = 0x22 :: unquote t := rfl
    rw [hcons]
    simp [ih]
  | case2 b t hesc ih => rw [unquote.eq_2 b t hesc, slashes_cons, slashes_cons, ih]
  | case3 => rfl

theorem mem_unquote {b : UInt8} {t : List UInt8} (h : b ∈ unquote t) : b = 0x22 ∨ b ∈ t := by
  induction t using unquote.induct with
  | case1 t ih =>
    rcases List.mem_cons.1 h with h | h
    · exact .inl h
    · exact (ih h).imp_right fun ht => List.mem_cons_of_mem _ (List.mem_cons_of_mem _ (List.mem_cons_of_mem _ ht))
  | case2 c t hesc ih =>
    rw [unquote.eq_2 c t hesc] at h
    rcases List.mem_cons.1 h with h | h
    · exact .inr (h ▸ List.mem_cons_self)
    · exact (ih h).imp_right (List.mem_cons_of_mem _)
  | case3 => exact .inr h

theorem Plain.unquote {v : List UInt8} (h : Plain v) : Plain (unquote v) :=
  ⟨fun hc => (mem_unquote hc).elim (absurd · (by decide)) h.slash,
    fun hc => (mem_unquote hc).elim (absurd · (by decide)) h.cr⟩

namespace FormPart

/-- The backslashes of a part. -/
def slashes (p : FormPart) : Nat :=
  Multipart.slashes p.name + p.fileName.elim 0 Multipart.slashes + p.contentType.elim 0 Multipart.slashes +
    Multipart.slashes p.content

/-- Names without a backslash, a carriage return or a `%22`, and a content type without a line break. -/
structure Clean (p : FormPart) : Prop where
  name : Plain p.name ∧ ¬quoteEscape <:+: p.name
  fileName : ∀ f ∈ p.fileName, Plain f ∧ ¬quoteEscape <:+: f
  contentType : ∀ t ∈ p.contentType, ¬crlf <:+: t

end FormPart

/-- What is read of a block has no more backslashes than the block; a part that has as many is clean. -/
theorem formPart_slashes {block : List UInt8} {p : FormPart} (h : formPart block = some p) :
    p.slashes ≤ slashes block ∧ (p.slashes = slashes block → p.Clean) := by
  obtain ⟨lines, hlines, h⟩ := Option.bind_eq_some_iff.1 h
  obtain ⟨fields, hfields, h⟩ := Option.bind_eq_some_iff.1 h
  obtain ⟨disposition, hdisposition, h⟩ := Option.bind_eq_some_iff.1 h
  split_ifs at h
  obtain ⟨params, hparams, h⟩ := Option.bind_eq_some_iff.1 h
  obtain ⟨name, hname, rfl⟩ := Option.map_eq_some_iff.1 h
  have hheader := fieldLines_slashes hlines
  have hfolded := unfoldLines_slashes lines.1
  have hbodies := fields_slashes hfields
  have hboth := valueOf_slashes_two (a := "content-disposition".toList) (b := "content-type".toList) (by decide) fields
  have hrest := slashes_sublist (List.dropWhile_sublist (· ≠ (0x3B : UInt8)) (l := disposition))
  obtain ⟨hvalues, hplain⟩ := parameters_slashes hparams
  have hnames := valueOf_slashes_two (a := "name".toList) (b := "filename".toList) (by decide) params
  rw [hdisposition] at hboth
  rw [hname] at hnames
  rw [Option.elim_some] at hboth hnames
  have hfile : ((valueOf "filename".toList params).map unquote).elim 0 slashes =
      (valueOf "filename".toList params).elim 0 slashes := by
    cases valueOf "filename".toList params with
    | none => rfl
    | some f => exact slashes_unquote f
  unfold FormPart.slashes
  dsimp only
  rw [slashes_unquote, hfile]
  refine ⟨by omega, fun he => ?_⟩
  have hall := hplain (by omega)
  have hclean : ∀ {n : Text} {v : List UInt8}, valueOf n params = some v → Plain (unquote v) ∧
      ¬quoteEscape <:+: unquote v := by
    intro n v hv
    obtain ⟨kv, hkv, rfl⟩ := mem_of_valueOf hv
    exact ⟨(hall kv hkv).unquote, not_quoteEscape_unquote kv.2⟩
  refine ⟨hclean hname, fun f hf => ?_, fun t ht hc => ?_⟩
  · obtain ⟨v, hv, rfl⟩ := Option.map_eq_some_iff.1 hf
    exact hclean hv
  · obtain ⟨kv, hkv, rfl⟩ := mem_of_valueOf ht
    obtain ⟨l, hl, hkv⟩ := mem_of_mapM hfields hkv
    exact unfoldLines_clean (fieldLines_clean hlines) l hl (hc.trans (infix_of_fieldOf hkv))

theorem slashes_quoted (v : List UInt8) : slashes (quoted v) = slashes v := by
  unfold quoted
  simp

theorem slashes_dispositionLine (name : List UInt8) (fileName : Option (List UInt8)) :
    slashes (dispositionLine name fileName) = slashes name + fileName.elim 0 slashes := by
  have hname : slashes (encodeUtf8 "Content-Disposition: form-data; name=".toList) = 0 := by decide
  have hfile : slashes (encodeUtf8 "; filename=".toList) = 0 := by decide
  unfold dispositionLine
  rw [slashes_append, slashes_append, hname, slashes_quoted, Nat.zero_add]
  cases fileName with
  | none => rfl
  | some f => rw [Option.elim_some, Option.elim_some, slashes_append, hfile, slashes_quoted, Nat.zero_add]

theorem slashes_typeLine (t : List UInt8) : slashes (typeLine t) = slashes t := by
  have hlit : slashes (encodeUtf8 "Content-Type: ".toList) = 0 := by decide
  unfold typeLine
  rw [slashes_append, hlit, Nat.zero_add]

/-- Nothing that is written around the values of a part has a backslash. -/
theorem slashes_layout (name content : List UInt8) (fileName contentType : Option (List UInt8)) :
    slashes (layout name fileName contentType content) =
      slashes name + fileName.elim 0 slashes + contentType.elim 0 slashes + slashes content := by
  have hcrlf : slashes crlf = 0 := rfl
  unfold layout
  rw [slashes_append, slashes_append, slashes_append, slashes_append, slashes_dispositionLine, hcrlf]
  cases contentType with
  | none => simp
  | some t =>
    rw [Option.elim_some, Option.elim_some, slashes_append, slashes_typeLine, hcrlf]
    omega

end Anvil.Lib.Multipart
