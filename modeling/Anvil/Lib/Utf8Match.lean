import Anvil.Lib.Delimited
import Anvil.Lib.Strings
import Anvil.Lib.Wire

/-!
# Searching text by its bytes

The bytes of a text can only be found at the bytes of another where the text itself stands in it: no character's bytes
begin or end inside another's.

* `encodeUtf8_prefix_iff`, `encodeUtf8_injective` : a text starts with another, or is it, iff its bytes do;
* `encodeUtf8_split` : the bytes split at the first byte of a character only between characters;
* `encodeUtf8_infix` : bytes of a text inside those of another;
* `lowerByte`, `encodeUtf8_lower` : ASCII case of text and of bytes.
-/

namespace Anvil.Lib

@[simp] theorem encodeUtf8_nil : encodeUtf8 [] = [] := rfl

@[simp] theorem encodeUtf8_cons (c : Char) (t : Text) : encodeUtf8 (c :: t) = String.utf8EncodeChar c ++ encodeUtf8 t := rfl

@[simp] theorem encodeUtf8_append (s t : Text) : encodeUtf8 (s ++ t) = encodeUtf8 s ++ encodeUtf8 t :=
  List.flatMap_append

@[simp] theorem length_encodeUtf8 (t : Text) : (encodeUtf8 t).length = utf8Len t := by
  induction t with
  | nil => rfl
  | cons c t ih => rw [encodeUtf8_cons, List.length_append, ih, String.length_utf8EncodeChar, utf8Len_cons]

/-- The bytes of a character tell where they end. -/
theorem utf8EncodeChar_inj {c d : Char} {x y : List UInt8} (h : String.utf8EncodeChar c ++ x = String.utf8EncodeChar d ++ y) :
    c = d ∧ x = y := by
  have hdecode : ∀ (c : Char) (x : List UInt8),
      ByteArray.utf8DecodeChar? (String.utf8EncodeChar c ++ x).toByteArray 0 = some c := by
    intro c x
    rw [List.toByteArray_append]
    exact ByteArray.utf8DecodeChar?_utf8EncodeChar_append
  have hc : c = d := by
    have hd := hdecode c x
    rw [h, hdecode d y] at hd
    exact (Option.some.inj hd).symm
  subst hc
  exact ⟨rfl, List.append_cancel_left h⟩

/-- A text starts with another iff its bytes do. -/
theorem encodeUtf8_prefix_iff {p t : Text} : encodeUtf8 p <+: encodeUtf8 t ↔ p <+: t := by
  constructor
  · intro h
    induction p generalizing t with
    | nil => exact List.nil_prefix
    | cons c p ih =>
      obtain ⟨rest, hrest⟩ := h
      rw [encodeUtf8_cons, List.append_assoc] at hrest
      cases t with
      | nil =>
        have hlen := congrArg List.length hrest
        have hpos := c.utf8Size_pos
        simp only [List.length_append, String.length_utf8EncodeChar, encodeUtf8_nil, List.length_nil] at hlen
        omega
      | cons d t =>
        obtain ⟨hcd, htail⟩ := utf8EncodeChar_inj hrest
        exact List.cons_prefix_cons.2 ⟨hcd, ih ⟨rest, htail⟩⟩
  · rintro ⟨rest, rfl⟩
    rw [encodeUtf8_append]
    exact List.prefix_append _ _

/-- Texts of one length in bytes. -/
theorem append_inj_utf8Len {s t x y : Text} (h : s ++ x = t ++ y) (hlen : utf8Len s = utf8Len t) : s = t ∧ x = y := by
  have hbytes := congrArg encodeUtf8 h
  rw [encodeUtf8_append, encodeUtf8_append] at hbytes
  have hst := (List.append_inj hbytes (by rw [length_encodeUtf8, length_encodeUtf8, hlen])).1
  obtain ⟨d, rfl⟩ := encodeUtf8_prefix_iff.1 (hst ▸ List.prefix_rfl : encodeUtf8 s <+: encodeUtf8 t)
  have hd : encodeUtf8 d = [] := by
    rw [encodeUtf8_append] at hst
    exact List.self_eq_append_right.1 hst
  obtain rfl : d = [] := List.prefix_nil.1 (encodeUtf8_prefix_iff.1 (hd ▸ List.prefix_rfl : encodeUtf8 d <+: encodeUtf8 []))
  exact ⟨(List.append_nil s).symm, by simpa using h⟩

theorem encodeUtf8_injective : Function.Injective encodeUtf8 := by
  intro s t h
  have hlen : utf8Len s = utf8Len t := by rw [← length_encodeUtf8, h, length_encodeUtf8]
  obtain ⟨d, rfl⟩ := encodeUtf8_prefix_iff.1 (h ▸ List.prefix_rfl : encodeUtf8 s <+: encodeUtf8 t)
  exact (append_inj_utf8Len (List.append_nil (s ++ d) ▸ (List.append_assoc s d []).symm : s ++ (d ++ []) =
    (s ++ d) ++ []) hlen).1

/-- What tells its end as a text tells it as bytes. -/
theorem Delimits.utf8 {α κ : Type} {enc : α → Text} {key : α → κ} (h : Delimits enc key) :
    Delimits (fun a => encodeUtf8 (enc a)) key := by
  have hleft : ∀ (a a' : α) (x x' : List UInt8), enc a <+: enc a' → encodeUtf8 (enc a) ++ x = encodeUtf8 (enc a') ++ x' →
      key a = key a' ∧ x = x' := by
    rintro a a' x x' ⟨z, hz⟩ he
    obtain ⟨hkey, rfl⟩ := @h a a' z [] (by rw [hz, List.append_nil])
    rw [List.append_nil] at hz
    rw [hz] at he
    exact ⟨hkey, List.append_cancel_left he⟩
  intro a a' x x' he
  rcases List.prefix_or_prefix_of_prefix (List.prefix_append _ x) (he ▸ List.prefix_append _ x') with hp | hp
  · exact hleft a a' x x' (encodeUtf8_prefix_iff.1 hp) he
  · obtain ⟨hkey, hx⟩ := hleft a' a x' x (encodeUtf8_prefix_iff.1 hp) he.symm
    exact ⟨hkey.symm, hx.symm⟩

theorem head_encodeUtf8 {t : Text} {b : UInt8} (h : (encodeUtf8 t).head? = some b) : b.IsUTF8FirstByte := by
  cases t with
  | nil => cases h
  | cons c t =>
    have hne : String.utf8EncodeChar c ≠ [] := String.utf8EncodeChar_ne_nil
    rw [encodeUtf8_cons, List.head?_append_of_ne_nil _ hne] at h
    have hb : (String.utf8EncodeChar c).head hne = b := by
      rw [List.head?_eq_some_head hne] at h
      exact Option.some.inj h
    rw [← hb, List.head_eq_getElem]
    exact UInt8.isUTF8FirstByte_getElem_zero_utf8EncodeChar

/-- Bytes split at the first byte of a character only where the text splits. -/
theorem encodeUtf8_split {t : Text} {a b : List UInt8} (h : encodeUtf8 t = a ++ b)
    (hb : ∀ x, b.head? = some x → x.IsUTF8FirstByte) :
    ∃ pre post, t = pre ++ post ∧ encodeUtf8 pre = a ∧ encodeUtf8 post = b := by
  induction t generalizing a with
  | nil =>
    obtain ⟨rfl, rfl⟩ := List.append_eq_nil_iff.1 h.symm
    exact ⟨[], [], rfl, rfl, rfl⟩
  | cons c t ih =>
    rw [encodeUtf8_cons] at h
    rcases List.append_eq_append_iff.1 h with ⟨a', ha, hrest⟩ | ⟨b', hc, hrest⟩
    · obtain ⟨pre, post, rfl, hpre, hpost⟩ := ih hrest
      exact ⟨c :: pre, post, rfl, by rw [encodeUtf8_cons, hpre, ha], hpost⟩
    · -- `a` ends inside or before the character; `b` begins there
      cases b' with
      | nil =>
        rw [List.append_nil] at hc
        exact ⟨[c], t, rfl, by rw [encodeUtf8_cons, encodeUtf8_nil, List.append_nil, hc], hrest.symm⟩
      | cons x b' =>
        have hx := hb x (by rw [hrest]; rfl)
        have hlt : a.length < (String.utf8EncodeChar c).length := by
          rw [hc, List.length_append, List.length_cons]
          omega
        have hget : (String.utf8EncodeChar c)[a.length] = x := by
          simp [hc]
        rw [← hget, UInt8.isUTF8FirstByte_getElem_utf8EncodeChar, List.length_eq_zero_iff] at hx
        subst hx
        exact ⟨[], c :: t, rfl, rfl, by rw [encodeUtf8_cons, hc, hrest, List.nil_append]⟩

/-- The bytes of a text stand among those of another only where the text does. -/
theorem encodeUtf8_infix {t p : Text} {a b : List UInt8} (hp : p ≠ []) (h : encodeUtf8 t = a ++ (encodeUtf8 p ++ b)) :
    ∃ pre post, t = pre ++ post ∧ encodeUtf8 pre = a ∧ p <+: post := by
  have hne : encodeUtf8 p ≠ [] := by
    cases p with
    | nil => exact absurd rfl hp
    | cons c p =>
      rw [encodeUtf8_cons]
      simp [String.utf8EncodeChar_ne_nil]
  have hfirst : ∀ x, (encodeUtf8 p ++ b).head? = some x → x.IsUTF8FirstByte := by
    intro x hx
    rw [List.head?_append_of_ne_nil _ hne] at hx
    exact head_encodeUtf8 hx
  obtain ⟨pre, post, rfl, hpre, hpost⟩ := encodeUtf8_split h hfirst
  exact ⟨pre, post, rfl, hpre, encodeUtf8_prefix_iff.1 ⟨b, hpost.symm⟩⟩

/-- A byte of ASCII is only in the encoding of its own character. -/
theorem ascii_mem_encodeUtf8 {t : Text} {b : UInt8} (hb : b < 0x80) (h : b ∈ encodeUtf8 t) : Char.ofNat b.toNat ∈ t := by
  obtain ⟨x, y, hsplit⟩ := List.append_of_mem h
  have hbyte : encodeUtf8 [Char.ofNat b.toNat] = [b] := (List.append_nil _).trans (utf8EncodeChar_ascii hb)
  have hat : encodeUtf8 t = x ++ (encodeUtf8 [Char.ofNat b.toNat] ++ y) := by
    rw [hbyte]
    exact hsplit
  obtain ⟨pre, post, rfl, -, hpost⟩ := encodeUtf8_infix (List.cons_ne_nil _ _) hat
  exact List.mem_append_right pre (hpost.subset List.mem_cons_self)

/-! ## ASCII case -/

/-- `u8::to_ascii_lowercase`. -/
def lowerByte (b : UInt8) : UInt8 := if 0x41 ≤ b ∧ b ≤ 0x5A then b + 0x20 else b

theorem lowerByte_of_high {b : UInt8} (h : 0x80 ≤ b) : lowerByte b = b := by
  unfold lowerByte
  rw [if_neg]
  intro hb
  have h1 := UInt8.le_iff_toNat_le.1 h
  have h2 := UInt8.le_iff_toNat_le.1 hb.2
  simp only [UInt8.reduceToNat] at h1 h2
  omega

theorem high_or (b : UInt8) {m : UInt8} (hm : 0x80 ≤ m) : 0x80 ≤ b ||| m := by
  rw [UInt8.le_iff_toNat_le] at hm ⊢
  rw [UInt8.toNat_or]
  exact hm.trans Nat.right_le_or

/-- Every byte of a character outside ASCII is. -/
theorem high_of_mem {c : Char} (hc : c.utf8Size ≠ 1) {b : UInt8} (hb : b ∈ String.utf8EncodeChar c) : 0x80 ≤ b := by
  have hpos := c.utf8Size_pos
  have hle := c.utf8Size_le_four
  have hsizes : c.utf8Size = 2 ∨ c.utf8Size = 3 ∨ c.utf8Size = 4 := by omega
  rcases hsizes with h | h | h
  · rw [String.utf8EncodeChar_eq_cons_cons h] at hb
    simp only [List.mem_cons, List.not_mem_nil, or_false] at hb
    rcases hb with rfl | rfl
    · exact high_or _ (by decide)
    · exact high_or _ (by decide)
  · rw [String.utf8EncodeChar_eq_cons_cons_cons h] at hb
    simp only [List.mem_cons, List.not_mem_nil, or_false] at hb
    rcases hb with rfl | rfl | rfl
    · exact high_or _ (by decide)
    · exact high_or _ (by decide)
    · exact high_or _ (by decide)
  · rw [String.utf8EncodeChar_eq_cons_cons_cons_cons h] at hb
    simp only [List.mem_cons, List.not_mem_nil, or_false] at hb
    rcases hb with rfl | rfl | rfl | rfl
    · exact high_or _ (by decide)
    · exact high_or _ (by decide)
    · exact high_or _ (by decide)
    · exact high_or _ (by decide)

theorem toLower_of_not_ascii {c : Char} (hc : c.utf8Size ≠ 1) : c.toLower = c := by
  unfold Char.toLower
  rw [dif_neg]
  rintro ⟨-, hz⟩
  apply hc
  rw [Char.utf8Size_eq_one_iff]
  rw [UInt32.le_iff_toNat_le] at hz ⊢
  exact hz.trans (by decide)

/-- Lowering a character lowers its bytes. -/
theorem utf8EncodeChar_toLower (c : Char) : String.utf8EncodeChar c.toLower = (String.utf8EncodeChar c).map lowerByte := by
  by_cases hone : c.utf8Size = 1
  · have hascii : ∀ n : Fin 128, String.utf8EncodeChar (Char.ofNat n).toLower =
        (String.utf8EncodeChar (Char.ofNat n)).map lowerByte := by decide
    have hc : c.toNat ≤ 127 := UInt32.le_iff_toNat_le.1 (Char.utf8Size_eq_one_iff.1 hone)
    have hn := hascii ⟨c.toNat, by omega⟩
    rwa [Char.ofNat_toNat] at hn
  · rw [toLower_of_not_ascii hone]
    have hid : (String.utf8EncodeChar c).map lowerByte = (String.utf8EncodeChar c).map id :=
      List.map_congr_left fun b hb => lowerByte_of_high (high_of_mem hone hb)
    rw [hid, List.map_id]

theorem encodeUtf8_lower (t : Text) : encodeUtf8 (lower t) = (encodeUtf8 t).map lowerByte := by
  induction t with
  | nil => rfl
  | cons c t ih =>
    rw [encodeUtf8_cons, List.map_append, ← ih, ← utf8EncodeChar_toLower]
    rfl

end Anvil.Lib
