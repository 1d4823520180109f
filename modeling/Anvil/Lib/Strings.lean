import Anvil.Lib.Utf8
import Mathlib.Data.List.DropRight

/-!
# Strings as the standard library reads them

* `lower`, `eqIgnoreCase` : `to_ascii_lowercase`, `eq_ignore_ascii_case`;
* `trim` : `str::trim`, over the Unicode `White_Space` characters;
* `splitOnce` : `split_once` at a character;
* `textLe` : the order of `str`;
* `digitsOf`, `parseI64` : `str::parse::<i64>`;
* `digitsOf_iff`, `digitsOf_plain` : the texts that are read as a number, and those without a leading zero;
* `splitWhitespace` : `str::split_whitespace`;
* `trim_trim`, `trim_eq_self`, `not_mem_of_mem_splitOn` : the parts that trimming and splitting give.
-/

namespace Anvil.Lib

/-- `to_ascii_lowercase`. -/
def lower (t : Text) : Text := t.map Char.toLower

/-- `to_ascii_uppercase`. -/
def upper (t : Text) : Text := t.map Char.toUpper

theorem toUpper_toUpper (c : Char) : c.toUpper.toUpper = c.toUpper := by
  by_cases h : 'a'.val ≤ c.val ∧ c.val ≤ 'z'.val
  · have hascii : ∀ n : Fin 128, (Char.ofNat n).toUpper.toUpper = (Char.ofNat n).toUpper := by decide
    have hc : c.toNat ≤ 122 := UInt32.le_iff_toNat_le.1 h.2
    have hn := hascii ⟨c.toNat, by omega⟩
    rwa [Char.ofNat_toNat] at hn
  · have hkeep : c.toUpper = c := dif_neg h
    rw [hkeep, hkeep]

@[simp] theorem upper_upper (t : Text) : upper (upper t) = upper t := by
  unfold upper
  rw [List.map_map]
  exact List.map_congr_left fun c _ => toUpper_toUpper c

/-- `eq_ignore_ascii_case`. -/
def eqIgnoreCase (a b : Text) : Bool := lower a = lower b

theorem eqIgnoreCase_iff {a b : Text} : eqIgnoreCase a b = true ↔ lower a = lower b := decide_eq_true_iff

@[simp] theorem eqIgnoreCase_self (a : Text) : eqIgnoreCase a a = true := eqIgnoreCase_iff.2 rfl

theorem eqIgnoreCase_comm (a b : Text) : eqIgnoreCase a b = eqIgnoreCase b a := by
  unfold eqIgnoreCase
  rw [decide_eq_decide]
  exact eq_comm

/-- A Unicode `White_Space` character. -/
def isWhitespace (c : Char) : Bool :=
  (0x09 ≤ c.toNat && c.toNat ≤ 0x0D) || c.toNat = 0x20 || c.toNat = 0x85 || c.toNat = 0xA0 || c.toNat = 0x1680 ||
    (0x2000 ≤ c.toNat && c.toNat ≤ 0x200A) || c.toNat = 0x2028 || c.toNat = 0x2029 || c.toNat = 0x202F ||
    c.toNat = 0x205F || c.toNat = 0x3000

theorem isWhitespace_eq_false {c : Char} (hlo : 0x21 ≤ c.toNat) (hhi : c.toNat < 0x7F) : isWhitespace c = false := by
  unfold isWhitespace
  simp only [Bool.or_eq_false_iff, Bool.and_eq_false_iff, decide_eq_false_iff_not]
  omega

/-- `str::trim`. -/
def trim (t : Text) : Text := ((t.dropWhile isWhitespace).reverse.dropWhile isWhitespace).reverse

/-- `split_once(c)`. -/
def splitOnce (c : Char) : Text → Option (Text × Text)
  | [] => none
  | d :: t => if d = c then some ([], t) else (splitOnce c t).map fun p => (d :: p.1, p.2)

/-- The order of `str`: by the code points, as by the bytes. -/
def textLe : Text → Text → Bool
  | [], _ => true
  | _ :: _, [] => false
  | a :: s, b :: t => a.toNat < b.toNat || (a.toNat = b.toNat && textLe s t)

def digitsOf (t : Text) : Option Nat :=
  if t.isEmpty ∨ ¬t.all Char.isDigit then none else some (t.foldl (fun n c => n * 10 + (c.toNat - 48)) 0)

/-- `str::parse::<i64>`. -/
def parseI64 (t : Text) : Option Int :=
  (match t with
    | '-' :: t => (digitsOf t).map fun n => -(n : Int)
    | '+' :: t => (digitsOf t).map fun n => (n : Int)
    | t => (digitsOf t).map fun n => (n : Int)).filter fun n => -2 ^ 63 ≤ n ∧ n < 2 ^ 63

/-- `split_whitespace`. -/
def splitWhitespace (t : Text) : List Text := (t.splitOnP isWhitespace).filter (· ≠ [])

theorem trim_eq (t : Text) : trim t = (t.dropWhile isWhitespace).rdropWhile isWhitespace := rfl

theorem mem_of_mem_trim {t : Text} {c : Char} (hc : c ∈ trim t) : c ∈ t := by
  rw [trim_eq] at hc
  exact (List.dropWhile_sublist _).subset ((List.rdropWhile_prefix _ _).sublist.subset hc)

theorem trim_eq_self {t : Text} (h : ∀ c ∈ t, isWhitespace c = false) : trim t = t := by
  have hd : t.dropWhile isWhitespace = t := by
    refine List.dropWhile_eq_self_iff.2 fun hl => ?_
    simp [h _ (List.getElem_mem hl)]
  rw [trim_eq, hd, List.rdropWhile_eq_self_iff]
  intro hl
  simp [h _ (List.getLast_mem hl)]

theorem trim_trim (t : Text) : trim (trim t) = trim t := by
  have hd : (trim t).dropWhile isWhitespace = trim t := by
    refine List.dropWhile_eq_self_iff.2 fun hl => ?_
    have hpre : trim t <+: t.dropWhile isWhitespace := List.rdropWhile_prefix _ _
    have hne : 0 < (t.dropWhile isWhitespace).length := Nat.lt_of_lt_of_le hl hpre.length_le
    rw [hpre.getElem hl]
    exact List.dropWhile_get_zero_not isWhitespace t hne
  rw [trim_eq (trim t), hd, trim_eq, List.rdropWhile_idempotent]

@[simp] theorem trim_space (t : Text) : trim (' ' :: t) = trim t := by
  rw [trim_eq, trim_eq, List.dropWhile_cons_of_pos (by decide)]

theorem splitOnce_of_mem {c : Char} {a b : Text} (h : c ∉ a) : splitOnce c (a ++ c :: b) = some (a, b) := by
  induction a with
  | nil => exact if_pos rfl
  | cons d a ih =>
    rw [List.mem_cons, not_or] at h
    rw [List.cons_append, splitOnce, if_neg (Ne.symm h.1), ih h.2]
    rfl

theorem splitOnce_of_not_mem {c : Char} {t : Text} (h : c ∉ t) : splitOnce c t = none := by
  induction t with
  | nil => rfl
  | cons d t ih =>
    rw [List.mem_cons, not_or] at h
    rw [splitOnce, if_neg (Ne.symm h.1), ih h.2]
    rfl

theorem splitOnce_some {c : Char} {t a b : Text} (h : splitOnce c t = some (a, b)) : t = a ++ c :: b := by
  induction t generalizing a with
  | nil => cases h
  | cons d t ih =>
    rw [splitOnce] at h
    split_ifs at h with hd
    · obtain ⟨rfl, rfl⟩ := Prod.mk.inj (Option.some.inj h)
      rw [hd]
      rfl
    · obtain ⟨p, hp, heq⟩ := Option.map_eq_some_iff.1 h
      obtain ⟨rfl, rfl⟩ := Prod.mk.inj heq
      rw [ih (a := p.1) hp]
      rfl

/-- By the first place of the character. -/
theorem not_mem_of_mem_splitOn {c : Char} {t part : Text} (h : part ∈ t.splitOn c) : c ∉ part := by
  induction hn : t.length using Nat.strong_induction_on generalizing t with
  | _ n ih =>
    by_cases hc : c ∈ t
    · obtain ⟨a, b, rfl, ha⟩ := List.eq_append_cons_of_mem hc
      rw [List.splitOn_append_cons_self_of_not_mem ha] at h
      rcases List.mem_cons.1 h with rfl | h
      · exact ha
      · refine ih b.length ?_ h rfl
        rw [← hn, List.length_append, List.length_cons]
        omega
    · rw [List.splitOn_eq_singleton hc, List.mem_singleton] at h
      exact h ▸ hc

/-- `contains`. -/
def contains (t part : Text) : Bool := part <:+: t

/-! ## Decimal numbers -/

theorem digitChar_toNat {c : Char} (h : c.isDigit = true) : c.toNat - 48 < 10 ∧ Nat.digitChar (c.toNat - 48) = c := by
  have hrange : 48 ≤ c.toNat ∧ c.toNat ≤ 57 := Char.isDigit_iff_toNat.1 h
  have hlt : c.toNat - 48 < 10 := by omega
  refine ⟨hlt, Char.toNat_inj.1 ?_⟩
  rw [Nat.toNat_digitChar_of_lt_ten hlt]
  omega

theorem toDigits_foldl {t : Text} : ∀ {n : Nat}, 0 < n → t.all Char.isDigit = true →
    Nat.toDigits 10 n ++ t = Nat.toDigits 10 (t.foldl (fun n c => n * 10 + (c.toNat - 48)) n) := by
  induction t with
  | nil => exact fun _ _ => List.append_nil _
  | cons c t ih =>
    intro n hn hdigits
    rw [List.all_cons, Bool.and_eq_true_iff] at hdigits
    obtain ⟨hc, ht⟩ := hdigits
    obtain ⟨hlt, hchar⟩ := digitChar_toNat hc
    have hnext := Nat.toDigits_append_toDigits (b := 10) (by decide) hn hlt
    rw [Nat.toDigits_of_lt_base hlt, hchar, Nat.mul_comm 10 n] at hnext
    rw [List.foldl_cons, ← ih (by omega) ht, ← hnext, List.append_assoc, List.singleton_append]

/-- A number that is read without a leading zero is written in plain digits. -/
theorem digitsOf_plain {t : Text} {n : Nat} (hzero : t.head? ≠ some '0') (h : digitsOf t = some n) :
    t = Nat.toDigits 10 n := by
  unfold digitsOf at h
  split_ifs at h with hdigits
  rw [not_or, not_not] at hdigits
  cases t with
  | nil => exact absurd rfl hdigits.1
  | cons c t =>
    have hall := hdigits.2
    rw [List.all_cons, Bool.and_eq_true_iff] at hall
    obtain ⟨hlt, hchar⟩ := digitChar_toNat hall.1
    have hpos : 0 < c.toNat - 48 := by
      refine Nat.pos_of_ne_zero fun h0 => hzero ?_
      rw [← hchar, h0]
      rfl
    have hrest := toDigits_foldl hpos hall.2
    rw [Nat.toDigits_of_lt_base hlt, hchar, List.singleton_append] at hrest
    rw [← Option.some.inj h, List.foldl_cons, Nat.zero_mul, Nat.zero_add]
    exact hrest

theorem digitsOf_toDigits (n : Nat) : digitsOf (Nat.toDigits 10 n) = some n := by
  unfold digitsOf
  rw [if_neg]
  · have hfold := Nat.ofDigitChars_ten_toDigits (n := n)
    rw [Nat.ofDigitChars_eq_foldl] at hfold
    conv_rhs => rw [← hfold]
    simp only [Nat.mul_comm]
    rfl
  · rw [not_or, not_not, List.isEmpty_iff, List.all_eq_true]
    exact ⟨Nat.toDigits_ne_nil, fun c hc => Nat.isDigit_of_mem_toDigits (by omega) (by omega) hc⟩

theorem digitsOf_zero_cons {t : Text} (h : t ≠ []) : digitsOf ('0' :: t) = digitsOf t := by
  unfold digitsOf
  have hempty : t.isEmpty = false := by simpa using h
  simp [hempty]

/-- The texts that are read as a number: its digits, after any zeros. -/
theorem digitsOf_iff {t : Text} : ∀ {n : Nat}, digitsOf t = some n ↔ ∃ z, t = List.replicate z '0' ++ Nat.toDigits 10 n := by
  induction t with
  | nil =>
    refine fun {n} => ⟨fun h => (by cases h), ?_⟩
    rintro ⟨z, h⟩
    exact absurd (List.append_eq_nil_iff.1 h.symm).2 Nat.toDigits_ne_nil
  | cons c t ih =>
    intro n
    by_cases hzero : c = '0'
    · subst hzero
      rcases eq_or_ne t [] with rfl | ht
      · constructor
        · intro h
          obtain rfl : 0 = n := Option.some.inj h
          exact ⟨0, rfl⟩
        · rintro ⟨z, h⟩
          have hread := digitsOf_toDigits n
          rcases z with _ | z
          · rw [List.replicate_zero, List.nil_append] at h
            rw [h]
            exact hread
          · rw [List.replicate_succ, List.cons_append, List.cons.injEq] at h
            exact absurd (List.append_eq_nil_iff.1 h.2.symm).2 Nat.toDigits_ne_nil
      · rw [digitsOf_zero_cons ht, ih]
        constructor
        · rintro ⟨z, rfl⟩
          exact ⟨z + 1, rfl⟩
        · rintro ⟨z, h⟩
          rcases z with _ | z
          · have hplain := digitsOf_toDigits n
            rw [List.replicate_zero, List.nil_append] at h
            rw [← h, digitsOf_zero_cons ht] at hplain
            exact ih.1 hplain
          · rw [List.replicate_succ, List.cons_append, List.cons.injEq] at h
            exact ⟨z, h.2⟩
    · constructor
      · exact fun h => ⟨0, digitsOf_plain (by simpa using hzero) h⟩
      · rintro ⟨z, h⟩
        rcases z with _ | z
        · rw [h]
          exact digitsOf_toDigits n
        · rw [List.replicate_succ, List.cons_append, List.cons.injEq] at h
          exact absurd h.1 hzero

end Anvil.Lib
