import Mathlib.Tactic

/-!
# Base64 with padding

* `Engine` : an encoder and a decoder; `Engine.Standard` : what is asked of them, quantum by quantum;
* `encode`, `decode` : the standard alphabet, padded, with no trailing bits;
* `standard_engine` : they are such an engine.
-/

namespace Anvil.Lib.Base64

/-- `=`. -/
def pad : UInt8 := 0x3D

/-- An encoder and a decoder, whose failures have a text. -/
structure Engine where
  encode : List UInt8 → List UInt8
  decode : List UInt8 → Except String (List UInt8)

/-- A quantum of four characters that is not the last one of a text. -/
structure Inner (q : List UInt8) : Prop where
  length : q.length = 4
  unpadded : ∀ a b c d, q = [a, b, c, d] → c ≠ pad ∧ d ≠ pad

def isBlank (c : UInt8) : Bool := c = 0x20 || c = 0x09 || c = 0x0A || c = 0x0C || c = 0x0D

/-- A quantum is decoded by itself; what is encoded comes back, in quanta of which only the last is padded. -/
structure Engine.Standard (e : Engine) : Prop where
  decode_inner : ∀ q rest, Inner q → rest ≠ [] → 4 ∣ rest.length →
    (e.decode (q ++ rest)).toOption = (e.decode q).toOption.bind fun v => (e.decode rest).toOption.map fun w => v ++ w
  decode_encode : ∀ v, e.decode (e.encode v) = .ok v
  length_encode : ∀ v, (e.encode v).length = (v.length + 2) / 3 * 4
  pad_encode : ∀ v l r, e.encode v = l ++ pad :: r → r.length ≤ 1
  blank_encode : ∀ v, ∀ c ∈ e.encode v, isBlank c = false

/-! ## The standard alphabet -/

def letter (n : Nat) : UInt8 :=
  if n < 26 then UInt8.ofNat (65 + n) else if n < 52 then UInt8.ofNat (71 + n) else if n < 62 then UInt8.ofNat (n - 4)
  else if n = 62 then 0x2B else 0x2F

/-- The six bits of a letter. -/
def sixBits (c : UInt8) : Option Nat :=
  if 65 ≤ c.toNat ∧ c.toNat ≤ 90 then some (c.toNat - 65) else if 97 ≤ c.toNat ∧ c.toNat ≤ 122 then some (c.toNat - 71)
  else if 48 ≤ c.toNat ∧ c.toNat ≤ 57 then some (c.toNat + 4) else if c = 0x2B then some 62 else if c = 0x2F then some 63
  else none

theorem letter_spec {n : Nat} (hn : n < 64) : sixBits (letter n) = some n ∧ letter n ≠ pad ∧ isBlank (letter n) = false := by
  have hall : ∀ n < 64, sixBits (letter n) = some n ∧ letter n ≠ pad ∧ isBlank (letter n) = false := by decide
  exact hall n hn

def encode : List UInt8 → List UInt8
  | a :: b :: c :: rest =>
    letter (a.toNat / 4) :: letter (a.toNat % 4 * 16 + b.toNat / 16) :: letter (b.toNat % 16 * 4 + c.toNat / 64) ::
      letter (c.toNat % 64) :: encode rest
  | [a, b] => [letter (a.toNat / 4), letter (a.toNat % 4 * 16 + b.toNat / 16), letter (b.toNat % 16 * 4), pad]
  | [a] => [letter (a.toNat / 4), letter (a.toNat % 4 * 16), pad, pad]
  | [] => []

/-- Four letters. -/
def decodeInner (a b c d : UInt8) : Option (List UInt8) := do
  let x ← sixBits a
  let y ← sixBits b
  let z ← sixBits c
  let w ← sixBits d
  pure [UInt8.ofNat (x * 4 + y / 16), UInt8.ofNat (y % 16 * 16 + z / 4), UInt8.ofNat (z % 4 * 64 + w)]

/-- Three letters and their padding; the bits beyond the last byte are zero. -/
def decodeTwo (a b c : UInt8) : Option (List UInt8) := do
  let x ← sixBits a
  let y ← sixBits b
  let z ← sixBits c
  if z % 4 = 0 then some [UInt8.ofNat (x * 4 + y / 16), UInt8.ofNat (y % 16 * 16 + z / 4)] else none

def decodeOne (a b : UInt8) : Option (List UInt8) := do
  let x ← sixBits a
  let y ← sixBits b
  if y % 16 = 0 then some [UInt8.ofNat (x * 4 + y / 16)] else none

/-- The last quantum. -/
def decodeLast (a b c d : UInt8) : Option (List UInt8) :=
  if d ≠ pad then decodeInner a b c d else if c ≠ pad then decodeTwo a b c else decodeOne a b

def decode : List UInt8 → Option (List UInt8)
  | [] => some []
  | [a, b, c, d] => decodeLast a b c d
  | a :: b :: c :: d :: rest => do
    let v ← decodeInner a b c d
    let w ← decode rest
    pure (v ++ w)
  | _ => none

theorem decode_cons {a b c d : UInt8} {rest : List UInt8} (hrest : rest ≠ []) :
    decode (a :: b :: c :: d :: rest) = (decodeInner a b c d).bind fun v => (decode rest).map fun w => v ++ w := by
  cases rest with
  | nil => exact absurd rfl hrest
  | cons x rest =>
    rw [decode]
    · cases decodeInner a b c d with
      | none => rfl
      | some v => cases decode (x :: rest) <;> rfl
    · simp

theorem byte_eq {n : Nat} {a : UInt8} (h : n = a.toNat) : UInt8.ofNat n = a := by
  rw [h, UInt8.ofNat_toNat]

theorem decodeInner_letters (a b c : UInt8) :
    decodeInner (letter (a.toNat / 4)) (letter (a.toNat % 4 * 16 + b.toNat / 16)) (letter (b.toNat % 16 * 4 + c.toNat / 64))
      (letter (c.toNat % 64)) = some [a, b, c] := by
  have ha := a.toNat_lt
  have hb := b.toNat_lt
  have hc := c.toNat_lt
  unfold decodeInner
  rw [(letter_spec (by omega)).1, (letter_spec (by omega)).1, (letter_spec (by omega)).1, (letter_spec (by omega)).1]
  simp only [Option.bind_eq_bind, Option.bind_some, Option.pure_def, Option.some.injEq, List.cons.injEq, and_true]
  exact ⟨byte_eq (by omega), byte_eq (by omega), byte_eq (by omega)⟩

theorem encode_nil_iff {v : List UInt8} : encode v = [] ↔ v = [] := by
  rcases v with _ | ⟨a, _ | ⟨b, _ | ⟨c, v⟩⟩⟩ <;> simp [encode]

theorem decode_encode (v : List UInt8) : decode (encode v) = some v := by
  induction v using encode.induct with
  | case1 a b c rest ih =>
    have hinner := decodeInner_letters a b c
    have hletter : letter (c.toNat % 64) ≠ pad := (letter_spec (Nat.mod_lt _ (by omega))).2.1
    rw [encode]
    cases hrest : encode rest with
    | nil =>
      rw [encode_nil_iff.1 hrest, decode, decodeLast, if_pos hletter, hinner]
    | cons x l =>
      rw [decode_cons (by simp), hinner, ← hrest, ih]
      rfl
  | case2 a b =>
    have ha := a.toNat_lt
    have hb := b.toNat_lt
    have hletter : letter (b.toNat % 16 * 4) ≠ pad := (letter_spec (by omega)).2.1
    rw [encode, decode, decodeLast, if_neg (by simp), if_pos hletter, decodeTwo, (letter_spec (by omega)).1,
      (letter_spec (by omega)).1, (letter_spec (by omega)).1]
    simp only [Option.bind_eq_bind, Option.bind_some]
    rw [if_pos (by omega), byte_eq (show _ = a.toNat by omega), byte_eq (show _ = b.toNat by omega)]
  | case3 a =>
    have ha := a.toNat_lt
    rw [encode, decode, decodeLast, if_neg (by simp), if_neg (by simp), decodeOne, (letter_spec (by omega)).1,
      (letter_spec (by omega)).1]
    simp only [Option.bind_eq_bind, Option.bind_some]
    rw [if_pos (by omega), byte_eq (show _ = a.toNat by omega)]
  | case4 => rfl

theorem length_encode (v : List UInt8) : (encode v).length = (v.length + 2) / 3 * 4 := by
  induction v using encode.induct with
  | case1 a b c rest ih =>
    simp only [encode, List.length_cons, ih]
    omega
  | case2 a b => simp [encode]
  | case3 a => simp [encode]
  | case4 => simp [encode]

/-- A character of a text: a letter, or padding with at most one character after it. -/
theorem mem_encode (v : List UInt8) :
    ∀ l x r, encode v = l ++ x :: r → (∃ n < 64, x = letter n) ∨ x = pad ∧ r.length ≤ 1 := by
  induction v using encode.induct with
  | case1 a b c rest ih =>
    have ha := a.toNat_lt
    have hb := b.toNat_lt
    have hc := c.toNat_lt
    intro l x r he
    rw [encode] at he
    rcases l with _ | ⟨x₁, _ | ⟨x₂, _ | ⟨x₃, _ | ⟨x₄, l⟩⟩⟩⟩
    · exact .inl ⟨_, by omega, (List.cons.inj he).1.symm⟩
    · simp only [List.cons_append, List.nil_append, List.cons.injEq] at he
      exact .inl ⟨_, by omega, he.2.1.symm⟩
    · simp only [List.cons_append, List.nil_append, List.cons.injEq] at he
      exact .inl ⟨_, by omega, he.2.2.1.symm⟩
    · simp only [List.cons_append, List.nil_append, List.cons.injEq] at he
      exact .inl ⟨_, by omega, he.2.2.2.1.symm⟩
    · simp only [List.cons_append, List.cons.injEq] at he
      exact ih l x r he.2.2.2.2
  | case2 a b =>
    have ha := a.toNat_lt
    have hb := b.toNat_lt
    intro l x r he
    rw [encode] at he
    rcases l with _ | ⟨x₁, _ | ⟨x₂, _ | ⟨x₃, _ | ⟨x₄, l⟩⟩⟩⟩
    · exact .inl ⟨_, by omega, (List.cons.inj he).1.symm⟩
    · simp only [List.cons_append, List.nil_append, List.cons.injEq] at he
      exact .inl ⟨_, by omega, he.2.1.symm⟩
    · simp only [List.cons_append, List.nil_append, List.cons.injEq] at he
      exact .inl ⟨_, by omega, he.2.2.1.symm⟩
    · simp only [List.cons_append, List.nil_append, List.cons.injEq] at he
      exact .inr ⟨he.2.2.2.1.symm, by rw [← he.2.2.2.2]; simp⟩
    · simp at he
  | case3 a =>
    have ha := a.toNat_lt
    intro l x r he
    rw [encode] at he
    rcases l with _ | ⟨x₁, _ | ⟨x₂, _ | ⟨x₃, _ | ⟨x₄, l⟩⟩⟩⟩
    · exact .inl ⟨_, by omega, (List.cons.inj he).1.symm⟩
    · simp only [List.cons_append, List.nil_append, List.cons.injEq] at he
      exact .inl ⟨_, by omega, he.2.1.symm⟩
    · simp only [List.cons_append, List.nil_append, List.cons.injEq] at he
      exact .inr ⟨he.2.2.1.symm, by rw [← he.2.2.2]; simp⟩
    · simp only [List.cons_append, List.nil_append, List.cons.injEq] at he
      exact .inr ⟨he.2.2.2.1.symm, by rw [← he.2.2.2.2]; simp⟩
    · simp at he
  | case4 =>
    intro l x r he
    simp [encode] at he

def decodeText (t : List UInt8) : Except String (List UInt8) := (decode t).elim (.error "not base64") .ok

/-- The engine of `encode` and `decode`. -/
def engine : Engine := ⟨encode, decodeText⟩

theorem decodeText_toOption (t : List UInt8) : (decodeText t).toOption = decode t := by
  unfold decodeText
  cases decode t with
  | none => rfl
  | some v => rfl

theorem standard_engine : engine.Standard where
  decode_inner := by
    intro q rest hq hrest _
    obtain ⟨a, b, c, d, rfl⟩ := List.length_eq_four.1 hq.length
    change (decodeText _).toOption = (decodeText _).toOption.bind fun v => (decodeText _).toOption.map _
    rw [decodeText_toOption, decodeText_toOption, decodeText_toOption, List.cons_append, List.cons_append, List.cons_append,
      List.cons_append,
      List.nil_append, decode_cons hrest, decode, decodeLast, if_pos (hq.unpadded a b c d rfl).2]
  decode_encode := by
    intro v
    change decodeText (encode v) = .ok v
    rw [decodeText, decode_encode]
    rfl
  length_encode := length_encode
  pad_encode := by
    intro v l r he
    obtain ⟨n, hn, hpad⟩ | ⟨-, hr⟩ := mem_encode v l pad r he
    · exact absurd hpad.symm (letter_spec hn).2.1
    · exact hr
  blank_encode := by
    intro v c hc
    obtain ⟨l, r, he⟩ := List.append_of_mem hc
    obtain ⟨n, hn, rfl⟩ | ⟨rfl, -⟩ := mem_encode v l c r he
    · exact (letter_spec hn).2.2
    · decide

end Anvil.Lib.Base64
