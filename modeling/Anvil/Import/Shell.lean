import Anvil.Lib.Strings
import Anvil.Lib.Wire

/-!
# Shell command lines (`anvil-import/src/curl.rs`)

* `tokenize` : the words of one command line, and what follows the first unquoted control operator;
* `readVar`, `ansi`, `double` : a `$NAME`, and the inside of a `$'…'` and of a double-quoted string;
* `tokenize` reads every line to its end: each step leaves less of it (`step_length`).
-/

namespace Anvil.Import.Shell
open Anvil.Lib

def maxArgs : Nat := 10000

/-- A shell word and the unexpanded `$VAR` references in it. -/
structure Word where
  text : Text
  vars : List Text
deriving DecidableEq

/-- The words so far, and the one being read. -/
structure Scan where
  words : List Word := []
  cur : Text := []
  vars : List Text := []
  inWord : Bool := false
deriving DecidableEq

/-- The word being read, if any, is one of the words. -/
def Scan.push (s : Scan) : Scan := if s.inWord then { words := s.words ++ [⟨s.cur, s.vars⟩] } else s

/-- More of a word. -/
def Scan.add (s : Scan) (t : Text) : Scan := { s with cur := s.cur ++ t, inWord := true }

/-! ## Variables -/

/-- `is_ascii_alphanumeric() || '_'`. -/
def isNameChar (c : Char) : Bool := c.isAlphanum || c = '_'

/-- What stands for the `$NAME` or `${NAME}` whose `$` is before the text, its name, and the rest. -/
def readVar (t : Text) : Text × List Text × Text :=
  let braced := t.head? = some '\x7b'
  let t := if braced then t.tail else t
  let name := t.takeWhile isNameChar
  let t := t.drop name.length
  -- modifiers such as `:-default` are skipped
  let t := if braced then (t.dropWhile (· ≠ '\x7d')).tail else t
  if name = [] then (['$'], [], t) else (['\x7b', '\x7b'] ++ name ++ ['\x7d', '\x7d'], [name], t)

/-! ## `$'…'` -/

def hexValue (c : Char) : Option Nat :=
  if '0' ≤ c ∧ c ≤ '9' then some (c.toNat - 48)
  else if 'a' ≤ c ∧ c ≤ 'f' then some (c.toNat - 87)
  else if 'A' ≤ c ∧ c ≤ 'F' then some (c.toNat - 55)
  else none

/-- `u32::from_str_radix(_, 16)`, of at most eight digits. -/
def fromHex (hex : Text) : Option Nat :=
  if hex = [] then none else hex.foldl (fun n c => n.bind fun n => (hexValue c).map (16 * n + ·)) (some 0)

/-- `char::from_u32`. -/
def charOf (n : Nat) : Option Char := if n.isValidChar then some (Char.ofNat n) else none

/-- A character given by at most `max` hexadecimal digits, and the rest. -/
def codePoint (max : Nat) (t : Text) : Text × Text :=
  let hex := (t.take max).takeWhile fun c => (hexValue c).isSome
  (((fromHex hex).bind charOf).toList, t.drop hex.length)

/-- What an escape stands for, after its first character `e`, and the rest. -/
def ansiEscape (e : Char) (t : Text) : Text × Text :=
  if e = 'n' then (['\n'], t)
  else if e = 't' then (['\t'], t)
  else if e = 'r' then (['\r'], t)
  else if e = '0' then ([Char.ofNat 0], t)
  else if e = 'e' ∨ e = 'E' then ([Char.ofNat 0x1b], t)
  else if e = 'x' then codePoint 2 t
  else if e = 'u' then codePoint 4 t
  else if e = 'U' then codePoint 8 t
  else ([e], t)

theorem codePoint_length (max : Nat) (t : Text) : (codePoint max t).2.length ≤ t.length := by
  unfold codePoint
  simp

theorem ansiEscape_length (e : Char) (t : Text) : (ansiEscape e t).2.length ≤ t.length := by
  unfold ansiEscape
  split_ifs <;> simp [codePoint_length]

def unterminatedAnsi : Text := "unterminated $'…' string".toList

/-- The inside of a `$'…'` string after `cur`, and the rest after its end. -/
def ansi (cur : Text) : Text → Except Text (Text × Text)
  | [] => .error unterminatedAnsi
  | c :: t =>
    if c = '\'' then .ok (cur, t)
    else if c = '\\' then
      match t with
      | [] => .error unterminatedAnsi
      | e :: t =>
        have : (ansiEscape e t).2.length < t.length + 2 := by
          have := ansiEscape_length e t
          omega
        ansi (cur ++ (ansiEscape e t).1) (ansiEscape e t).2
    else ansi (cur ++ [c]) t
termination_by t => t.length

/-! ## Double quotes -/

/-- The characters that a backslash escapes in double quotes. -/
def isDoubleSpecial (c : Char) : Bool := c = '$' ∨ c = '\x60' ∨ c = '"' ∨ c = '\\'

/-- What a backslash stands for in double quotes, and the rest. -/
def doubleEscape (t : Text) : Text × Text :=
  match t with
  | [] => (['\\'], [])
  | e :: u => if isDoubleSpecial e then ([e], u) else if e = '\n' then ([], u) else (['\\'], t)

theorem doubleEscape_length (t : Text) : (doubleEscape t).2.length ≤ t.length := by
  unfold doubleEscape
  split
  · exact le_rfl
  · split_ifs <;> simp

theorem readVar_length (t : Text) : (readVar t).2.2.length ≤ t.length := by
  have htail (u : Text) : u.tail.length ≤ u.length := by simp
  have hdrop (u : Text) (n : Nat) : (u.drop n).length ≤ u.length := by simp
  have hwhile (u : Text) : (u.dropWhile (· ≠ '\x7d')).length ≤ u.length := List.length_dropWhile_le _ _
  unfold readVar
  dsimp only
  split_ifs
  · exact (htail _).trans ((hwhile _).trans ((hdrop _ _).trans (htail _)))
  · exact (htail _).trans ((hwhile _).trans ((hdrop _ _).trans (htail _)))
  · exact hdrop _ _
  · exact hdrop _ _

/-- The inside of a double-quoted string, and the rest after its end. -/
def double (s : Scan) : Text → Except Text (Scan × Text)
  | [] => .error "unterminated double quote".toList
  | c :: t =>
    if c = '"' then .ok (s, t)
    else if c = '\\' then
      have : (doubleEscape t).2.length < t.length + 1 := Nat.lt_succ_of_le (doubleEscape_length t)
      double (s.add (doubleEscape t).1) (doubleEscape t).2
    else if c = '$' then
      have : (readVar t).2.2.length < t.length + 1 := Nat.lt_succ_of_le (readVar_length t)
      double { s.add (readVar t).1 with vars := s.vars ++ (readVar t).2.1 } (readVar t).2.2
    else double (s.add [c]) t
termination_by t => t.length

/-! ## The line -/

def isBlank (c : Char) : Bool := c = ' ' ∨ c = '\t' ∨ c = '\n' ∨ c = '\r'

def isControl (c : Char) : Bool := c = '|' ∨ c = ';' ∨ c = '&' ∨ c = '>' ∨ c = '<'

/-- An unquoted backslash: a line continuation, or an escape. -/
def backslash (s : Scan) : Text → Scan × Text
  | [] => (s.add ['\\'], [])
  | d :: t =>
    if d = '\n' then (s, t)
    else if d = '\r' ∧ t.head? = some '\n' then (s, t.tail)
    else (s.add [d], t)

/-- What the character `c` and what follows it add to the words, and the rest. -/
def step (s : Scan) (c : Char) (t : Text) : Except Text (Scan × Text) :=
  if c = '\\' then .ok (backslash s t)
  else if isBlank c then .ok (s.push, t)
  else if c = '#' ∧ s.inWord = false then .ok (s, t.dropWhile (· ≠ '\n'))
  else if c = '\'' then
    match splitOnce '\'' t with
    | none => .error "unterminated single quote".toList
    | some (quoted, rest) => .ok (s.add quoted, rest)
  else if c = '$' ∧ t.head? = some '\'' then
    (ansi s.cur t.tail).map fun r => ({ s with cur := r.1, inWord := true }, r.2)
  else if c = '"' then double (s.add []) t
  else if c = '$' then .ok ({ s.add (readVar t).1 with vars := s.vars ++ (readVar t).2.1 }, (readVar t).2.2)
  else .ok (s.add [c], t)

theorem ansi_length {t : Text} : ∀ {cur cur' rest : Text}, ansi cur t = .ok (cur', rest) → rest.length < t.length := by
  intro cur
  fun_induction ansi cur t with
  | case1 => exact fun h => (by cases h)
  | case2 cur t =>
    intro cur' rest h
    obtain ⟨-, rfl⟩ := Prod.mk.inj (Except.ok.inj h)
    exact Nat.lt_succ_self _
  | case3 => exact fun h => (by cases h)
  | case4 cur e t hlt hne ih =>
    intro cur' rest h
    have hrest := ih h
    have hescape := ansiEscape_length e t
    rw [List.length_cons, List.length_cons]
    omega
  | case5 cur c t hc hc' ih => exact fun h => (ih h).trans (Nat.lt_succ_self _)

theorem double_length {t : Text} : ∀ {s s' : Scan} {rest : Text}, double s t = .ok (s', rest) → rest.length < t.length := by
  intro s
  fun_induction double s t with
  | case1 => exact fun h => (by cases h)
  | case2 s t =>
    intro s' rest h
    obtain ⟨-, rfl⟩ := Prod.mk.inj (Except.ok.inj h)
    exact Nat.lt_succ_self _
  | case3 s t hlt _ ih => exact fun h => (ih h).trans hlt
  | case4 s t hlt _ _ ih => exact fun h => (ih h).trans hlt
  | case5 s c t _ _ _ ih => exact fun h => (ih h).trans (Nat.lt_succ_self _)

theorem splitOnce_length {c : Char} {t l r : Text} (h : splitOnce c t = some (l, r)) : r.length < t.length := by
  rw [splitOnce_some h, List.length_append, List.length_cons]
  omega

theorem backslash_length (s : Scan) (t : Text) : (backslash s t).2.length ≤ t.length := by
  unfold backslash
  split
  · exact le_rfl
  · next d t =>
    split_ifs
    · exact Nat.le_succ _
    · rw [List.length_tail, List.length_cons]
      omega
    · exact Nat.le_succ _

/-- A step leaves less of the line. -/
theorem step_length {s s' : Scan} {c : Char} {t rest : Text} (h : step s c t = .ok (s', rest)) : rest.length ≤ t.length := by
  unfold step at h
  split_ifs at h with hslash hblank hcomment hsingle hansi hdouble hvar
  · obtain ⟨-, rfl⟩ := Prod.mk.inj (Except.ok.inj h)
    exact backslash_length s t
  · obtain ⟨-, rfl⟩ := Prod.mk.inj (Except.ok.inj h)
    exact le_rfl
  · obtain ⟨-, rfl⟩ := Prod.mk.inj (Except.ok.inj h)
    exact List.length_dropWhile_le _ _
  · cases hsplit : splitOnce '\'' t with
    | none =>
      rw [hsplit] at h
      cases h
    | some p =>
      rw [hsplit] at h
      obtain ⟨-, rfl⟩ := Prod.mk.inj (Except.ok.inj h)
      exact (splitOnce_length (l := p.1) (r := p.2) hsplit).le
  · cases hread : ansi s.cur t.tail with
    | error e =>
      rw [hread] at h
      cases h
    | ok p =>
      rw [hread] at h
      obtain ⟨-, rfl⟩ := Prod.mk.inj (Except.ok.inj h)
      exact (ansi_length (show ansi _ _ = .ok (p.1, p.2) from hread)).le.trans (by simp)
  · exact (double_length h).le
  · obtain ⟨-, rfl⟩ := Prod.mk.inj (Except.ok.inj h)
    exact readVar_length t
  · obtain ⟨-, rfl⟩ := Prod.mk.inj (Except.ok.inj h)
    exact le_rfl

def tooMany : Text := "more than 10000 arguments".toList

/-- The rest of a line, after the words of `s`. -/
def tokenizeFrom (s : Scan) (line : Text) : Except Text (List Word × Option Text) :=
  match line with
  | [] => .ok (s.push.words, none)
  | c :: t =>
    if isControl c then .ok (s.push.words, some (c :: t))
    else
      match _h : step s c t with
      | .error e => .error e
      | .ok (s', rest) => if maxArgs < s'.words.length then .error tooMany else tokenizeFrom s' rest
termination_by line.length
decreasing_by exact Nat.lt_succ_of_le (step_length _h)

/-- The words of a command line, and the rest from the first unquoted control operator. -/
def tokenize (line : Text) : Except Text (List Word × Option Text) := tokenizeFrom {} line

theorem tokenizeFrom_control {s : Scan} {c : Char} {t : Text} (hc : isControl c = true) :
    tokenizeFrom s (c :: t) = .ok (s.push.words, some (c :: t)) := by
  rw [tokenizeFrom, if_pos hc]

theorem tokenizeFrom_step {s s' : Scan} {c : Char} {t rest : Text} (hc : isControl c = false)
    (h : step s c t = .ok (s', rest))
    (hwords : s'.words.length ≤ maxArgs) : tokenizeFrom s (c :: t) = tokenizeFrom s' rest := by
  rw [tokenizeFrom, if_neg (by rw [hc]; exact Bool.false_ne_true)]
  split
  · next e he =>
    rw [h] at he
    cases he
  · next s'' rest' hs =>
    rw [h] at hs
    obtain ⟨rfl, rfl⟩ := Prod.mk.inj (Except.ok.inj hs)
    exact if_neg (Nat.not_lt.2 hwords)

end Anvil.Import.Shell
