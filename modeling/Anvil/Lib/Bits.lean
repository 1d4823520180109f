import Mathlib.Tactic

/-!
# The bits of numbers

A list of bits has the most significant one first.

* `lowBits n v` : the `n` low bits of `v`; `lowBits_add` : the upper ones and then the rest;
* `lowBits_mod`, `lowBits_shiftLeft` : what truncation and a shift do to them;
* `octets` : the whole bytes of a list of bits and the bits that are left;
* `octets_append` : bytes are read back from their bits, whatever fewer than eight bits follow.
-/

namespace Anvil.Lib

def lowBits : Nat → Nat → List Bool
  | 0, _ => []
  | n + 1, v => v.testBit n :: lowBits n v

@[simp] theorem length_lowBits (n v : Nat) : (lowBits n v).length = n := by
  induction n with
  | zero => rfl
  | succ n ih => rw [lowBits, List.length_cons, ih]

theorem lowBits_add (n m v : Nat) : lowBits (n + m) v = lowBits n (v >>> m) ++ lowBits m v := by
  induction n with
  | zero => rw [Nat.zero_add, lowBits, List.nil_append]
  | succ n ih => rw [Nat.succ_add, lowBits, lowBits, ih, Nat.testBit_shiftRight, Nat.add_comm m n, List.cons_append]

theorem lowBits_congr {n v w : Nat} (h : ∀ i < n, v.testBit i = w.testBit i) : lowBits n v = lowBits n w := by
  induction n with
  | zero => rfl
  | succ n ih => rw [lowBits, lowBits, h n (Nat.lt_succ_self n), ih fun i hi => h i (Nat.lt_succ_of_lt hi)]

/-- The low bits do not see what a wider register drops. -/
theorem lowBits_mod {n k : Nat} (h : n ≤ k) (v : Nat) : lowBits n (v % 2 ^ k) = lowBits n v :=
  lowBits_congr fun i hi => by rw [Nat.testBit_mod_two_pow, decide_eq_true (Nat.lt_of_lt_of_le hi h), Bool.true_and]

theorem lowBits_shiftLeft (k v : Nat) : lowBits k (v <<< k) = List.replicate k false := by
  have hzero : ∀ n, lowBits n 0 = List.replicate n false := by
    intro n
    induction n with
    | zero => rfl
    | succ n ih => rw [lowBits, ih, Nat.zero_testBit, List.replicate_succ]
  rw [← hzero k]
  exact lowBits_congr fun i hi => by rw [Nat.testBit_shiftLeft, decide_eq_false (Nat.not_le.2 hi), Bool.false_and,
    Nat.zero_testBit]

/-- A register takes in a byte at its low end. -/
theorem lowBits_push (n v : Nat) (b : UInt8) : lowBits (n + 8) (v * 256 + b.toNat) = lowBits n v ++ lowBits 8 b.toNat := by
  have hb := b.toNat_lt
  have hupper : (v * 256 + b.toNat) >>> 8 = v := by
    rw [Nat.shiftRight_eq_div_pow]
    omega
  have hlower : (v * 256 + b.toNat) % 2 ^ 8 = b.toNat := by omega
  rw [lowBits_add, hupper, ← lowBits_mod (Nat.le_refl 8) (v * 256 + b.toNat), hlower]

/-! ## Bytes -/

/-- The number that bits write. -/
def ofBits : List Bool → Nat
  | [] => 0
  | b :: l => b.toNat * 2 ^ l.length + ofBits l

theorem ofBits_lowBits (n v : Nat) : ofBits (lowBits n v) = v % 2 ^ n := by
  induction n with
  | zero => rw [lowBits, ofBits, Nat.pow_zero, Nat.mod_one]
  | succ n ih => rw [lowBits, ofBits, ih, length_lowBits, Nat.toNat_testBit, Nat.mod_pow_succ, Nat.mul_comm, Nat.add_comm]

def octets : List Bool → List UInt8 × List Bool
  | a :: b :: c :: d :: e :: f :: g :: h :: rest =>
    (UInt8.ofNat (ofBits [a, b, c, d, e, f, g, h]) :: (octets rest).1, (octets rest).2)
  | rest => ([], rest)

theorem octets_of_lt {rest : List Bool} (h : rest.length < 8) : octets rest = ([], rest) := by
  unfold octets
  split
  · simp only [List.length_cons] at h
    omega
  · rfl

theorem octets_cons (b : UInt8) (rest : List Bool) :
    octets (lowBits 8 b.toNat ++ rest) = (b :: (octets rest).1, (octets rest).2) := by
  have hbyte : UInt8.ofNat (ofBits (lowBits 8 b.toNat)) = b := by
    rw [ofBits_lowBits, Nat.mod_eq_of_lt b.toNat_lt, UInt8.ofNat_toNat]
  exact congrArg (fun x => (x :: (octets rest).1, (octets rest).2)) hbyte

theorem octets_append (raw : List UInt8) {rest : List Bool} (h : rest.length < 8) :
    octets ((raw.flatMap fun b => lowBits 8 b.toNat) ++ rest) = (raw, rest) := by
  induction raw with
  | nil => exact octets_of_lt h
  | cons b raw ih => rw [List.flatMap_cons, List.append_assoc, octets_cons, ih]

end Anvil.Lib
