import Anvil.Lib.Utf8

/-!
# Fields of text and binary headers

* `toBe`, `fromBe` : big-endian 16-bit numbers; `beBytes`, `ofBeBytes` : big-endian numbers of any width;
* `decimalBytes`, `parseU16` : `Display` and `FromStr` of `u16`;
* `splitAsciiWhitespace` : the fields of a line;
* `crlfAt` : where a line ends;
* `encodeUtf8`, `isUtf8` : whether bytes are text.
-/

namespace Anvil.Lib

/-! ## Big-endian numbers -/

def toBe (n : UInt16) : List UInt8 := [UInt8.ofNat (n.toNat / 256), UInt8.ofNat (n.toNat % 256)]

def fromBe (hi lo : UInt8) : UInt16 := UInt16.ofNat (hi.toNat * 256 + lo.toNat)

theorem fromBe_toBe (n : UInt16) : fromBe (UInt8.ofNat (n.toNat / 256)) (UInt8.ofNat (n.toNat % 256)) = n := by
  have hn := n.toNat_lt
  have hhi : (UInt8.ofNat (n.toNat / 256)).toNat = n.toNat / 256 :=
    UInt8.toNat_ofNat_of_lt' (show n.toNat / 256 < 256 by omega)
  have hlo : (UInt8.ofNat (n.toNat % 256)).toNat = n.toNat % 256 :=
    UInt8.toNat_ofNat_of_lt' (show n.toNat % 256 < 256 by omega)
  unfold fromBe
  rw [hhi, hlo, show n.toNat / 256 * 256 + n.toNat % 256 = n.toNat by omega]
  exact UInt16.ofNat_toNat

/-- The last `k` bytes of a number, the highest first. -/
def beBytes : Nat → Nat → List UInt8
  | 0, _ => []
  | k + 1, n => beBytes k (n / 256) ++ [UInt8.ofNat (n % 256)]

def ofBeBytes (l : List UInt8) : Nat := l.foldl (fun n b => n * 256 + b.toNat) 0

@[simp] theorem length_beBytes (k n : Nat) : (beBytes k n).length = k := by
  induction k generalizing n with
  | zero => rfl
  | succ k ih => rw [beBytes, List.length_append, ih, List.length_singleton]

theorem foldl_beBytes (k : Nat) : ∀ v n : Nat, n < 256 ^ k →
    (beBytes k n).foldl (fun v b => v * 256 + b.toNat) v = v * 256 ^ k + n := by
  induction k with
  | zero =>
    intro v n hn
    obtain rfl : n = 0 := by omega
    simp [beBytes]
  | succ k ih =>
    intro v n hn
    have hlow : (UInt8.ofNat (n % 256)).toNat = n % 256 := UInt8.toNat_ofNat_of_lt' (show n % 256 < 256 by omega)
    rw [beBytes, List.foldl_append, ih v (n / 256) (by rw [pow_succ] at hn; omega), List.foldl_cons, List.foldl_nil, hlow,
      pow_succ, Nat.add_mul, Nat.mul_assoc]
    omega

/-- The highest byte of a number, and the others. -/
theorem beBytes_succ (k : Nat) : ∀ n : Nat, n < 256 ^ (k + 1) →
    beBytes (k + 1) n = UInt8.ofNat (n / 256 ^ k) :: beBytes k (n % 256 ^ k) := by
  induction k with
  | zero =>
    intro n hn
    have hmod : n % 256 = n := Nat.mod_eq_of_lt (by simpa using hn)
    simp [beBytes, hmod]
  | succ k ih =>
    intro n hn
    have hdiv : n / 256 / 256 ^ k = n / 256 ^ (k + 1) := by rw [Nat.div_div_eq_div_mul, pow_succ, Nat.mul_comm]
    have hmod : n / 256 % 256 ^ k = n % 256 ^ (k + 1) / 256 := by
      rw [pow_succ, Nat.mul_comm, Nat.mod_mul_right_div_self]
    have hlow : n % 256 ^ (k + 1) % 256 = n % 256 := Nat.mod_mod_of_dvd _ ⟨256 ^ k, by rw [pow_succ, Nat.mul_comm]⟩
    rw [beBytes, ih (n / 256) (by rw [pow_succ] at hn; omega), hdiv, hmod, List.cons_append, beBytes, hlow]

theorem ofBeBytes_beBytes {k n : Nat} (hn : n < 256 ^ k) : ofBeBytes (beBytes k n) = n := by
  unfold ofBeBytes
  rw [foldl_beBytes k 0 n hn, Nat.zero_mul, Nat.zero_add]

/-! ## Decimal numbers -/

/-- The digits of a number below `10 ^ (k + 1)`. -/
def decimalUpTo : Nat → Nat → List UInt8
  | 0, n => [UInt8.ofNat (48 + n)]
  | k + 1, n => if n < 10 then [UInt8.ofNat (48 + n)] else decimalUpTo k (n / 10) ++ [UInt8.ofNat (48 + n % 10)]

/-- `u16::to_string`. -/
def decimalBytes (n : UInt16) : List UInt8 := decimalUpTo 4 n.toNat

def isDigit (c : UInt8) : Bool := 0x30 ≤ c && c ≤ 0x39

def ofDecimal (l : List UInt8) : Nat := l.foldl (fun n c => 10 * n + (c.toNat - 48)) 0

/-- `str::parse::<u16>`. -/
def parseU16 (l : List UInt8) : Option UInt16 :=
  let digits := if l.head? = some 0x2B then l.tail else l
  if digits ≠ [] ∧ digits.all isDigit ∧ ofDecimal digits < 65536 then some (UInt16.ofNat (ofDecimal digits)) else none

theorem digit_spec {n : Nat} (h : n < 10) :
    isDigit (UInt8.ofNat (48 + n)) = true ∧ (UInt8.ofNat (48 + n)).toNat = 48 + n := by
  have ht : (UInt8.ofNat (48 + n)).toNat = 48 + n := UInt8.toNat_ofNat_of_lt' (show 48 + n < 256 by omega)
  refine ⟨?_, ht⟩
  unfold isDigit
  rw [Bool.and_eq_true, decide_eq_true_iff, decide_eq_true_iff, UInt8.le_iff_toNat_le, UInt8.le_iff_toNat_le, ht]
  exact ⟨Nat.le_add_right 48 n, show 48 + n ≤ 57 by omega⟩

theorem decimalUpTo_spec (k : Nat) : ∀ n, n < 10 ^ (k + 1) →
    decimalUpTo k n ≠ [] ∧ (∀ c ∈ decimalUpTo k n, isDigit c = true) ∧ ofDecimal (decimalUpTo k n) = n := by
  have hone : ∀ n, n < 10 → [UInt8.ofNat (48 + n)] ≠ [] ∧ (∀ c ∈ [UInt8.ofNat (48 + n)], isDigit c = true) ∧
      ofDecimal [UInt8.ofNat (48 + n)] = n := fun n hn => by
    refine ⟨List.cons_ne_nil _ _, List.forall_mem_singleton.2 (digit_spec hn).1, ?_⟩
    unfold ofDecimal
    rw [List.foldl_cons, List.foldl_nil, (digit_spec hn).2]
    omega
  induction k with
  | zero => exact fun n hn => hone n (by omega)
  | succ k ih =>
    intro n hn
    unfold decimalUpTo
    split_ifs with h
    · exact hone n h
    · obtain ⟨-, hdigits, hvalue⟩ := ih (n / 10) (by rw [pow_succ] at hn; omega)
      have hlast := digit_spec (Nat.mod_lt n (by decide : 10 > 0))
      refine ⟨by simp, ?_, ?_⟩
      · intro c hc
        rcases List.mem_append.1 hc with hc | hc
        · exact hdigits c hc
        · rw [List.mem_singleton.1 hc]
          exact hlast.1
      · unfold ofDecimal at hvalue ⊢
        rw [List.foldl_append, hvalue, List.foldl_cons, List.foldl_nil, hlast.2]
        omega

theorem decimalBytes_digits (n : UInt16) : decimalBytes n ≠ [] ∧ ∀ c ∈ decimalBytes n, isDigit c = true := by
  have h := decimalUpTo_spec 4 n.toNat (by have := n.toNat_lt; omega)
  exact ⟨h.1, h.2.1⟩

theorem parseU16_decimalBytes (n : UInt16) : parseU16 (decimalBytes n) = some n := by
  have hlt := n.toNat_lt
  obtain ⟨hne, hdigits, hvalue⟩ := decimalUpTo_spec 4 n.toNat (by omega)
  have hplus : (decimalUpTo 4 n.toNat).head? ≠ some 0x2B := by
    intro h
    exact absurd (hdigits _ (List.mem_of_mem_head? h)) (by decide)
  unfold parseU16 decimalBytes
  simp only
  rw [if_neg hplus, if_pos ⟨hne, List.all_eq_true.2 hdigits, by omega⟩, hvalue, UInt16.ofNat_toNat]

/-! ## Lines -/

/-- `u8::is_ascii_whitespace`. -/
def isAsciiSpace (c : UInt8) : Bool := c = 0x20 || c = 0x09 || c = 0x0A || c = 0x0C || c = 0x0D

/-- The fields of a text, the first of which has begun with `field`. -/
def splitFrom (field : List UInt8) : List UInt8 → List (List UInt8)
  | [] => if field = [] then [] else [field]
  | c :: t =>
    if isAsciiSpace c then (if field = [] then [] else [field]) ++ splitFrom [] t
    else splitFrom (field ++ [c]) t

def splitAsciiWhitespace (l : List UInt8) : List (List UInt8) := splitFrom [] l

theorem splitFrom_append {w : List UInt8} (hw : ∀ c ∈ w, isAsciiSpace c = false) (field t : List UInt8) :
    splitFrom field (w ++ t) = splitFrom (field ++ w) t := by
  induction w generalizing field with
  | nil => rw [List.nil_append, List.append_nil]
  | cons c w ih =>
    have hc : ¬isAsciiSpace c = true := by rw [hw c List.mem_cons_self]; exact Bool.false_ne_true
    rw [List.cons_append, splitFrom, if_neg hc, ih (fun d hd => hw d (List.mem_cons_of_mem c hd)), List.append_assoc]
    rfl

theorem splitAsciiWhitespace_word {w : List UInt8} (hw : ∀ c ∈ w, isAsciiSpace c = false) (hne : w ≠ []) :
    splitAsciiWhitespace w = [w] := by
  have h := splitFrom_append hw [] []
  rw [List.append_nil, List.nil_append] at h
  unfold splitAsciiWhitespace
  rw [h, splitFrom, if_neg hne]

theorem splitAsciiWhitespace_cons {w : List UInt8} (hw : ∀ c ∈ w, isAsciiSpace c = false) (hne : w ≠ [])
    (t : List UInt8) : splitAsciiWhitespace (w ++ 0x20 :: t) = w :: splitAsciiWhitespace t := by
  unfold splitAsciiWhitespace
  rw [splitFrom_append hw, List.nil_append, splitFrom, if_pos (by decide), if_neg hne]
  rfl

/-- `windows(2).position(|w| w == b"\r\n")`. -/
def crlfAt : List UInt8 → Option Nat
  | [] => none
  | c :: t => if c = 0x0D ∧ t.head? = some 0x0A then some 0 else (crlfAt t).map (· + 1)

theorem crlfAt_line {line : List UInt8} (h : 0x0D ∉ line) (t : List UInt8) :
    crlfAt (line ++ 0x0D :: 0x0A :: t) = some line.length := by
  induction line with
  | nil => rfl
  | cons c line ih =>
    have hc : ¬(c = 0x0D ∧ (line ++ 0x0D :: 0x0A :: t).head? = some 0x0A) := fun hc => h (hc.1 ▸ List.mem_cons_self)
    rw [List.cons_append, crlfAt, if_neg hc, ih fun hm => h (List.mem_cons_of_mem c hm)]
    rfl

/-! ## Text -/

def encodeUtf8 (t : Text) : List UInt8 := t.flatMap String.utf8EncodeChar

/-- `str::from_utf8(..).is_ok()`: the bytes are those of the text they decode to. -/
def isUtf8 (bytes : List UInt8) : Bool := encodeUtf8 (fromUtf8Lossy bytes) = bytes

theorem utf8EncodeChar_ascii {b : UInt8} (h : b < 0x80) : String.utf8EncodeChar (Char.ofNat b.toNat) = [b] := by
  have hlt : b.toNat < 128 := UInt8.lt_iff_toNat_lt.1 h
  have hval : (Char.ofNat b.toNat).val.toNat = b.toNat := toNat_ofNat (by unfold Nat.isValidChar; omega)
  have hsize : (Char.ofNat b.toNat).utf8Size = 1 := by
    rw [Char.utf8Size_eq_one_iff, UInt32.le_iff_toNat_le, hval]
    exact Nat.lt_succ_iff.1 hlt
  rw [String.utf8EncodeChar_eq_singleton hsize]
  congr 1
  apply UInt8.toNat_inj.1
  rw [UInt32.toNat_toUInt8, hval]
  omega

theorem encodeUtf8_ascii {bytes : List UInt8} (h : ∀ b ∈ bytes, b < 0x80) :
    encodeUtf8 (bytes.map fun b : UInt8 => Char.ofNat b.toNat) = bytes := by
  induction bytes with
  | nil => rfl
  | cons b bytes ih =>
    unfold encodeUtf8 at ih ⊢
    rw [List.map_cons, List.flatMap_cons, utf8EncodeChar_ascii (h b List.mem_cons_self),
      ih fun c hc => h c (List.mem_cons_of_mem b hc)]
    rfl

theorem isUtf8_ascii {bytes : List UInt8} (h : ∀ b ∈ bytes, b < 0x80) : isUtf8 bytes = true := by
  have hdecode : fromUtf8Lossy bytes = bytes.map fun b : UInt8 => Char.ofNat b.toNat := by
    have := fromUtf8Lossy_ascii_append h []
    rw [List.append_nil] at this
    rw [this]
    exact List.append_nil _
  unfold isUtf8
  rw [hdecode, encodeUtf8_ascii h, decide_eq_true_iff]

end Anvil.Lib
