import Mathlib.Tactic

/-!
# Lossy UTF-8 decoding (`String::from_utf8_lossy`)

A text is a list of characters. Decoding reads one character at a time; where the bytes are not one, the longest
start of a character that stands there becomes a single replacement character.

* `utf8Len` : the length of a text in bytes (`str::len`);
* `length_le_utf8Len` : decoding never makes a text shorter.
-/

namespace Anvil.Lib

abbrev Text := List Char

instance Text.lawfulBEq : LawfulBEq Text := List.instLawfulBEq

/-- `str::len`. -/
def utf8Len (t : Text) : Nat := (t.map Char.utf8Size).sum

@[simp] theorem utf8Len_nil : utf8Len [] = 0 := rfl

@[simp] theorem utf8Len_cons (c : Char) (t : Text) : utf8Len (c :: t) = c.utf8Size + utf8Len t := by
  unfold utf8Len
  rw [List.map_cons, List.sum_cons]

@[simp] theorem utf8Len_append (s t : Text) : utf8Len (s ++ t) = utf8Len s + utf8Len t := by
  unfold utf8Len
  rw [List.map_append, List.sum_append]

theorem utf8Len_pos {t : Text} (h : t ≠ []) : 0 < utf8Len t := by
  obtain ⟨c, t, rfl⟩ := List.exists_cons_of_ne_nil h
  have := c.utf8Size_pos
  rw [utf8Len_cons]
  omega

def replacement : Char := Char.ofNat 0xFFFD

/-- The length of the character that a byte starts, 0 for a byte that starts none. -/
def utf8Width (b : UInt8) : Nat :=
  if b < 0x80 then 1
  else if 0xC2 ≤ b ∧ b ≤ 0xDF then 2
  else if 0xE0 ≤ b ∧ b ≤ 0xEF then 3
  else if 0xF0 ≤ b ∧ b ≤ 0xF4 then 4
  else 0

def isCont (b : UInt8) : Bool := 0x80 ≤ b ∧ b ≤ 0xBF

/-- The second bytes that may follow the first byte of three or four. -/
def secondOk (b c : UInt8) : Bool :=
  if b = 0xE0 then 0xA0 ≤ c ∧ c ≤ 0xBF
  else if b = 0xED then 0x80 ≤ c ∧ c ≤ 0x9F
  else if b = 0xF0 then 0x90 ≤ c ∧ c ≤ 0xBF
  else if b = 0xF4 then 0x80 ≤ c ∧ c ≤ 0x8F
  else isCont c

def char2 (b c : UInt8) : Char := Char.ofNat (b.toNat % 32 * 64 + c.toNat % 64)

def char3 (b c d : UInt8) : Char := Char.ofNat ((b.toNat % 16 * 64 + c.toNat % 64) * 64 + d.toNat % 64)

def char4 (b c d e : UInt8) : Char :=
  Char.ofNat (((b.toNat % 8 * 64 + c.toNat % 64) * 64 + d.toNat % 64) * 64 + e.toNat % 64)

def fromUtf8Lossy : List UInt8 → Text
  | [] => []
  | b :: t =>
    match utf8Width b with
    | 1 => Char.ofNat b.toNat :: fromUtf8Lossy t
    | 2 =>
      match t with
      | [] => [replacement]
      | c :: t₁ => if isCont c then char2 b c :: fromUtf8Lossy t₁ else replacement :: fromUtf8Lossy (c :: t₁)
    | 3 =>
      match t with
      | [] => [replacement]
      | c :: t₁ =>
        if secondOk b c then
          match t₁ with
          | [] => [replacement]
          | d :: t₂ => if isCont d then char3 b c d :: fromUtf8Lossy t₂ else replacement :: fromUtf8Lossy (d :: t₂)
        else replacement :: fromUtf8Lossy (c :: t₁)
    | 4 =>
      match t with
      | [] => [replacement]
      | c :: t₁ =>
        if secondOk b c then
          match t₁ with
          | [] => [replacement]
          | d :: t₂ =>
            if isCont d then
              match t₂ with
              | [] => [replacement]
              | e :: t₃ =>
                if isCont e then char4 b c d e :: fromUtf8Lossy t₃ else replacement :: fromUtf8Lossy (e :: t₃)
            else replacement :: fromUtf8Lossy (d :: t₂)
        else replacement :: fromUtf8Lossy (c :: t₁)
    | _ => replacement :: fromUtf8Lossy t

/-! ## Lengths -/

theorem toNat_ofNat {n : Nat} (h : n.isValidChar) : (Char.ofNat n).val.toNat = n := by
  unfold Char.ofNat
  rw [dif_pos h]
  rfl

/-- A code point above the bound of a shorter encoding takes at least the longer one. -/
theorem le_utf8Size_ofNat {n : Nat} (h : n.isValidChar) (k : Nat)
    (hk : k ≤ if n ≤ 127 then 1 else if n ≤ 2047 then 2 else if n ≤ 65535 then 3 else 4) :
    k ≤ (Char.ofNat n).utf8Size := by
  have hle : ∀ m : UInt32, (Char.ofNat n).val ≤ m ↔ n ≤ m.toNat := fun m => by
    rw [UInt32.le_iff_toNat_le, toNat_ofNat h]
  unfold Char.utf8Size
  simp only [hle]
  exact hk

theorem isCont_iff {c : UInt8} : isCont c = true ↔ 0x80 ≤ c.toNat ∧ c.toNat ≤ 0xBF := by
  unfold isCont
  rw [decide_eq_true_iff, UInt8.le_iff_toNat_le, UInt8.le_iff_toNat_le]
  rfl

theorem utf8Width_bounds (b : UInt8) : (utf8Width b = 2 → 0xC2 ≤ b.toNat ∧ b.toNat ≤ 0xDF) ∧
    (utf8Width b = 3 → 0xE0 ≤ b.toNat ∧ b.toNat ≤ 0xEF) ∧ (utf8Width b = 4 → 0xF0 ≤ b.toNat ∧ b.toNat ≤ 0xF4) := by
  unfold utf8Width
  simp only [UInt8.le_iff_toNat_le]
  refine ⟨?_, ?_, ?_⟩ <;> intro h <;> split_ifs at h <;> first | assumption | exact absurd h (by decide)

/-- The second byte keeps the code point out of the shorter encodings, the surrogates and the end of Unicode. -/
theorem secondOk_bounds {b c : UInt8} (h : secondOk b c = true) : (0x80 ≤ c.toNat ∧ c.toNat ≤ 0xBF) ∧
    (b.toNat = 0xE0 → 0xA0 ≤ c.toNat) ∧ (b.toNat = 0xED → c.toNat ≤ 0x9F) ∧
    (b.toNat = 0xF0 → 0x90 ≤ c.toNat) ∧ (b.toNat = 0xF4 → c.toNat ≤ 0x8F) := by
  have heq : ∀ n : UInt8, b = n ↔ b.toNat = n.toNat := fun n => ⟨congrArg _, UInt8.toNat_inj.1⟩
  unfold secondOk at h
  simp only [heq, UInt8.le_iff_toNat_le, UInt8.reduceToNat] at h
  split_ifs at h with h₁ h₂ h₃ h₄
  all_goals first
    | rw [decide_eq_true_iff] at h; omega
    | have := isCont_iff.1 h; omega

theorem two_le_char2 {b c : UInt8} (hb : utf8Width b = 2) (hc : isCont c = true) : 2 ≤ (char2 b c).utf8Size := by
  have := (utf8Width_bounds b).1 hb
  have := isCont_iff.1 hc
  refine le_utf8Size_ofNat (by unfold Nat.isValidChar; omega) 2 ?_
  split_ifs <;> omega

theorem three_le_char3 {b c d : UInt8} (hb : utf8Width b = 3) (hc : secondOk b c = true) (hd : isCont d = true) :
    3 ≤ (char3 b c d).utf8Size := by
  have := (utf8Width_bounds b).2.1 hb
  have := secondOk_bounds hc
  have := isCont_iff.1 hd
  refine le_utf8Size_ofNat (by unfold Nat.isValidChar; omega) 3 ?_
  split_ifs <;> omega

theorem four_le_char4 {b c d e : UInt8} (hb : utf8Width b = 4) (hc : secondOk b c = true) (hd : isCont d = true)
    (he : isCont e = true) : 4 ≤ (char4 b c d e).utf8Size := by
  have := (utf8Width_bounds b).2.2 hb
  have := secondOk_bounds hc
  have := isCont_iff.1 hd
  have := isCont_iff.1 he
  refine le_utf8Size_ofNat (by unfold Nat.isValidChar; omega) 4 ?_
  split_ifs <;> omega

theorem utf8Size_replacement : replacement.utf8Size = 3 := by decide

theorem length_le_utf8Len (bytes : List UInt8) : bytes.length ≤ utf8Len (fromUtf8Lossy bytes) := by
  fun_induction fromUtf8Lossy bytes
  all_goals
    simp only [utf8Len_cons, utf8Len_nil, List.length_cons, List.length_nil, utf8Size_replacement] at *
  case case2 b _ _ _ =>
    have := Char.utf8Size_pos (Char.ofNat b.toNat)
    omega
  case case4 hw _ _ hc _ =>
    have := two_le_char2 hw hc
    omega
  case case8 hw _ hc _ _ hd _ =>
    have := three_le_char3 hw hc hd
    omega
  case case14 hw _ hc _ hd _ _ he _ =>
    have := four_le_char4 hw hc hd he
    omega
  all_goals omega

/-! ## ASCII -/

/-- An ASCII byte is the character it encodes. -/
theorem fromUtf8Lossy_ascii {b : UInt8} (h : b < 0x80) (t : List UInt8) :
    fromUtf8Lossy (b :: t) = Char.ofNat b.toNat :: fromUtf8Lossy t := by
  have hw : utf8Width b = 1 := if_pos h
  rw [fromUtf8Lossy.eq_def]
  simp only [hw]

theorem fromUtf8Lossy_ascii_append {bytes : List UInt8} (h : ∀ b ∈ bytes, b < 0x80) (t : List UInt8) :
    fromUtf8Lossy (bytes ++ t) = bytes.map (fun b => Char.ofNat b.toNat) ++ fromUtf8Lossy t := by
  induction bytes with
  | nil => rfl
  | cons b bs ih =>
    rw [List.cons_append, fromUtf8Lossy_ascii (h b List.mem_cons_self),
      ih fun c hc => h c (List.mem_cons_of_mem b hc)]
    rfl

theorem utf8Width_eq_one {b : UInt8} (h : utf8Width b = 1) : b < 0x80 := by
  by_contra hb
  unfold utf8Width at h
  rw [if_neg hb] at h
  split_ifs at h <;> exact absurd h (by decide)

/-- A character of one byte is decoded from that byte only. -/
theorem head_of_utf8Size_one {bytes : List UInt8} {c : Char} (h : (fromUtf8Lossy bytes).head? = some c)
    (hc : c.utf8Size = 1) : ∃ b t, bytes = b :: t ∧ b < 0x80 ∧ c = Char.ofNat b.toNat := by
  have hlong : ∀ {d : Char}, 2 ≤ d.utf8Size → some d = some c → False := fun h2 hd => by
    rw [Option.some.inj hd] at h2
    omega
  have hrep : 2 ≤ replacement.utf8Size := by decide
  revert h
  fun_cases fromUtf8Lossy bytes <;> intro h
  case case2 b t hw => exact ⟨b, t, rfl, utf8Width_eq_one hw, (Option.some.inj h).symm⟩
  case case4 hw _ _ hd => exact (hlong (two_le_char2 hw hd) h).elim
  case case8 hw _ hd _ _ he => exact (hlong (by have := three_le_char3 hw hd he; omega) h).elim
  case case14 hw _ hd _ he _ _ hf => exact (hlong (by have := four_le_char4 hw hd he hf; omega) h).elim
  case case1 => exact absurd h nofun
  all_goals exact (hlong hrep h).elim

end Anvil.Lib
