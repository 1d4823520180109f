import Anvil.Portability.Restored

/-!
# What a sanitized value holds in its sensitive slots

* `WalksTo` : the parts of a value the walk comes to; `Slot` : their sensitive texts, told by the shape of the part;
* `walk_slot` : a sensitive text of a sanitized value is a pure reference or the placeholder of what was taken from it;
* `OneReference`, `ClosesEarly`, `pureReference_cases` : the texts that pass for pure references;
* `sanitize_safe` : sanitizing is reversible, and what it leaves in the slots.
-/

namespace Anvil.Portability
open Anvil.Lib Anvil.Lib.Json

/-- The walk of a value comes to its part `w`: it goes through arrays and through objects of no known shape. -/
inductive WalksTo : Json → List Text → Json → Prop
  | here (v : Json) : WalksTo v [] v
  | field {fields : List (Text × Json)} {k : Text} {v w : Json} {path : List Text} (hplain : isPlain fields = true)
    (hk : lookup fields k = some v) (h : WalksTo v path w) : WalksTo (.object fields) (k :: path) w
  | item {items : List Json} {i : Nat} {v w : Json} {path : List Text} (hi : items[i]? = some v) (h : WalksTo v path w) :
    WalksTo (.array items) (Nat.toDigits 10 i :: path) w

/-- `t` is a sensitive text of an object, by its shape, and `path` where it stands. -/
inductive Slot : Json → List Text → Text → Prop
  | template {fields : List (Text × Json)} {t : Text} (h : isTemplate fields = true)
    (ht : strField fields valueKey = some t) :
    Slot (.object fields) [valueKey] t
  | secretVariable {fields : List (Text × Json)} {val : Json} {t : Text} (h : isVariable fields = true)
    (hsecret : boolField fields "secret".toList = true) (hval : lookup fields valueKey = some val)
    (htpl : (val.child kindKey).bind asStr = some templateKind) (ht : (val.child valueKey).bind asStr = some t) :
    Slot (.object fields) [valueKey, valueKey] t
  | keyValue {fields : List (Text × Json)} {t : Text} (h : isKeyValue fields = true)
    (hsensitive : keyValueSensitive fields = true) (ht : strField fields valueKey = some t) :
      Slot (.object fields) [valueKey] t

/-! ## The shapes exclude each other -/

section Shapes
variable {fields : List (Text × Json)} {t : Text}

theorem lookup_name_of_template (h : isTemplate fields = true) : lookup fields nameKey = none := by
  simp only [isTemplate, Bool.and_eq_true, decide_eq_true_eq] at h
  obtain ⟨⟨hkind, hlen⟩, hvalue⟩ := h
  obtain ⟨f, g, rfl⟩ := List.length_eq_two.1 hlen
  have hk := strField_eq_some.1 hkind
  obtain ⟨v, hv, -⟩ := (Option.any_eq_true _ _).1 hvalue
  have hne : kindKey ≠ valueKey ∧ kindKey ≠ nameKey ∧ valueKey ≠ nameKey := by decide
  simp only [lookup_cons] at hk hv ⊢
  by_cases hf : f.1 = kindKey
  · have hg : g.1 = valueKey := by
      by_contra hg
      simp [hf, hg, hne.1, lookup] at hv
    simp [hf, hg, hne, lookup]
  · have hg : g.1 = kindKey := by
      by_contra hg
      simp [hf, hg, lookup] at hk
    have hf' : f.1 = valueKey := by
      by_contra hf'
      simp [hf', hg, hne.1, lookup] at hv
    simp [hf', hg, hne, lookup]

theorem not_variable_of_template (h : isTemplate fields = true) : isVariable fields = false := by
  simp [isVariable, lookup_name_of_template h]

theorem not_keyValue_of_template (h : isTemplate fields = true) : isKeyValue fields = false := by
  simp [isKeyValue, lookup_name_of_template h]

theorem not_keyValue_of_variable (h : isVariable fields = true) : isKeyValue fields = false := by
  obtain ⟨val, hval⟩ := variable_value h
  simp [isKeyValue, hval, isString]

theorem not_plain (h : isTemplate fields = true ∨ isVariable fields = true ∨ isKeyValue fields = true) :
    isPlain fields = false := by
  rcases h with h | h | h <;> simp [isPlain, h]

/-- In an object of a known shape the walk goes no further. -/
theorem walksTo_known {path : List Text} {w : Json}
    (hknown : isTemplate fields = true ∨ isVariable fields = true ∨ isKeyValue fields = true)
    (h : WalksTo (.object fields) path w) : path = [] ∧ w = .object fields := by
  cases h with
  | here => exact ⟨rfl, rfl⟩
  | field hplain _ _ =>
    rw [not_plain hknown] at hplain
    cases hplain

theorem slot_template (h : isTemplate fields = true) {q : List Text} (hs : Slot (.object fields) q t) :
    q = [valueKey] ∧ strField fields valueKey = some t := by
  cases hs with
  | template _ ht => exact ⟨rfl, ht⟩
  | secretVariable h' => simp [not_variable_of_template h] at h'
  | keyValue h' => simp [not_keyValue_of_template h] at h'

theorem slot_keyValue (h : isKeyValue fields = true) {q : List Text} (hs : Slot (.object fields) q t) :
    q = [valueKey] ∧ strField fields valueKey = some t ∧ keyValueSensitive fields = true := by
  cases hs with
  | template h' => simp [not_keyValue_of_template h'] at h
  | secretVariable h' => simp [not_keyValue_of_variable h'] at h
  | keyValue _ hsensitive ht => exact ⟨rfl, ht, hsensitive⟩

theorem slot_variable (h : isVariable fields = true) {q : List Text} (hs : Slot (.object fields) q t) :
    boolField fields "secret".toList = true ∧ ∃ val, lookup fields valueKey = some val ∧
      (val.child kindKey).bind asStr = some templateKind ∧ (val.child valueKey).bind asStr = some t := by
  cases hs with
  | template h' => simp [not_variable_of_template h'] at h
  | secretVariable _ hsecret hval htpl ht => exact ⟨hsecret, _, hval, htpl, ht⟩
  | keyValue h' => simp [not_keyValue_of_variable h] at h'

theorem not_slot_plain (h : isPlain fields = true) {q : List Text} : ¬ Slot (.object fields) q t := by
  intro hs
  have hknown : isTemplate fields = true ∨ isVariable fields = true ∨ isKeyValue fields = true := by
    cases hs with
    | template h' => exact .inl h'
    | secretVariable h' => exact .inr (.inl h')
    | keyValue h' => exact .inr (.inr h')
  rw [not_plain hknown] at h
  cases h

/-! ## Writing a value keeps the shape -/

theorem lookup_setValue {k : Text} (hk : k ≠ valueKey) (w : Json) :
    lookup (setField fields valueKey w) k = lookup fields k := by
  rw [lookup_setField, if_neg hk]

theorem strField_setValue (h : (lookup fields valueKey).isSome) (t : Text) :
    strField (setField fields valueKey (.string t)) valueKey = some t := by
  obtain ⟨v, hv⟩ := Option.isSome_iff_exists.1 h
  simp [strField, lookup_setField, hv, asStr]

theorem template_setValue (h : isTemplate fields = true) (t : Text) :
    isTemplate (setField fields valueKey (.string t)) = true := by
  obtain ⟨u, hu⟩ := template_value h
  have hlen : (setField fields valueKey (.string t)).length = fields.length := by
    simpa using congrArg List.length (@map_fst_setField fields valueKey (.string t))
  simp only [isTemplate, Bool.and_eq_true, decide_eq_true_eq] at h ⊢
  refine ⟨⟨?_, hlen.trans h.1.2⟩, ?_⟩
  · rw [strField, lookup_setValue (by decide)]
    exact h.1.1
  · simp [lookup_setField, strField_eq_some.1 hu, isString]

theorem keyValue_setValue (h : isKeyValue fields = true) (t : Text) :
    isKeyValue (setField fields valueKey (.string t)) = true := by
  obtain ⟨u, hu⟩ := keyValue_value h
  simp only [isKeyValue, Bool.and_eq_true] at h ⊢
  refine ⟨⟨?_, ?_⟩, ?_⟩
  · rw [lookup_setValue (by decide)]
    exact h.1.1
  · simp [lookup_setField, strField_eq_some.1 hu, isString]
  · rw [lookup_setValue (by decide)]
    exact h.2

theorem variable_setValue (h : isVariable fields = true) {w : Json} (hw : w.isObject = true) :
    isVariable (setField fields valueKey w) = true := by
  obtain ⟨val, hval⟩ := variable_value h
  simp only [isVariable, Bool.and_eq_true] at h ⊢
  rw [lookup_setValue (by decide), lookup_setValue (by decide)]
  refine ⟨h.1, ?_⟩
  simp [lookup_setField, hval, hw]

/-- A sensitive text of a sanitized part: a pure reference, or the placeholder of the value taken from there. -/
def Withheld (s : Sanitized) (path : List Text) (t : Text) : Prop :=
  isPureReference t = true ∨ ∃ e ∈ s.extracted, e.pointer = render path ∧ t = placeholderText e.placeholder

theorem withheld_extractValue {p : List Text} {hint value : Text} (h : (lookup fields valueKey).isSome)
    (ht : strField (setField fields valueKey (.string (opening ++ placeholderName hint ++ closing))) valueKey = some t) :
    Withheld (extractValue fields (render p) (placeholderName hint) value).2 (p ++ [valueKey]) t := by
  rw [strField_setValue h] at ht
  refine .inr ⟨_, List.mem_singleton_self _, render_value p, ?_⟩
  rw [← Option.some.inj ht, placeholderText_name]

theorem Withheld.mono {s s' : Sanitized} {path : List Text} (h : Withheld s path t)
    (hss : ∀ e ∈ s.extracted, e ∈ s'.extracted) : Withheld s' path t := by
  rcases h with h | ⟨e, he, h⟩
  · exact .inl h
  · exact .inr ⟨e, hss e he, h⟩

theorem walkTemplate_slot (h : isTemplate fields = true) {p path q : List Text} {key : Text} {w : Json}
    (hw : WalksTo (walkTemplate fields (render p) key).1 path w) (hs : Slot w q t) :
    Withheld (walkTemplate fields (render p) key).2 (p ++ path ++ q) t := by
  obtain ⟨u, hu⟩ := template_value h
  unfold walkTemplate at hw ⊢
  rw [hu] at hw ⊢
  dsimp only [Option.getD_some] at hw ⊢
  split_ifs at hw ⊢ with hpure
  · obtain ⟨rfl, rfl⟩ := walksTo_known (.inl h) hw
    obtain ⟨rfl, ht⟩ := slot_template h hs
    rw [hu] at ht
    exact .inl (Option.some.inj ht ▸ hpure)
  · have h' := template_setValue h (opening ++ placeholderName key ++ closing)
    obtain ⟨rfl, rfl⟩ := walksTo_known (.inl h') hw
    obtain ⟨rfl, ht⟩ := slot_template h' hs
    rw [List.append_nil]
    exact withheld_extractValue (by simp [strField_eq_some.1 hu]) ht

end Shapes

/-! ## The walk -/

section Walk
variable [CredentialPatterns] {fields : List (Text × Json)} {p : List Text} {k key t ptr : Text} {v w : Json}

theorem walkKeyValue_slot (h : isKeyValue fields = true) {path q : List Text}
    (hw : WalksTo (walkKeyValue fields (render p)).1 path w) (hs : Slot w q t) :
    Withheld (walkKeyValue fields (render p)).2 (p ++ path ++ q) t := by
  obtain ⟨u, hu⟩ := keyValue_value h
  unfold walkKeyValue at hw ⊢
  rw [hu] at hw ⊢
  dsimp only [Option.getD_some] at hw ⊢
  split_ifs at hw ⊢ with hextract
  · have h' := keyValue_setValue h (opening ++ placeholderName (keyValueName fields) ++ closing)
    obtain ⟨rfl, rfl⟩ := walksTo_known (.inr (.inr h')) hw
    obtain ⟨rfl, ht, -⟩ := slot_keyValue h' hs
    rw [List.append_nil]
    exact withheld_extractValue (by simp [strField_eq_some.1 hu]) ht
  · have hsame : WalksTo (.object fields) path w := by
      cases hc : CredentialPatterns.looksLikeCredential u with
      | none => simpa [hc] using hw
      | some why => simpa [hc] using hw
    obtain ⟨rfl, rfl⟩ := walksTo_known (.inr (.inr h)) hsame
    obtain ⟨rfl, ht, hsensitive⟩ := slot_keyValue h hs
    rw [hu] at ht
    cases ht
    exact .inl (by simpa [hsensitive] using hextract)

theorem walkVariable_slot (h : isVariable fields = true) {path q : List Text}
    (hw : WalksTo (walkVariable fields (render p)).1 path w) (hs : Slot w q t) :
    Withheld (walkVariable fields (render p)).2 (p ++ path ++ q) t := by
  -- An empty text is left behind, and it passes for a reference.
  refine .inl ?_
  obtain ⟨val, hval⟩ := variable_value h
  have hstays (hw : WalksTo (.object fields) path w) (hkept : ¬ (boolField fields "secret".toList &&
      decide (((Json.object val).child kindKey).bind asStr = some templateKind) &&
        !isPureReference ((((Json.object val).child valueKey).bind asStr).getD [])) = true) : isPureReference t = true := by
    obtain ⟨rfl, rfl⟩ := walksTo_known (.inr (.inl h)) hw
    obtain ⟨hsecret, val', hval', htpl, ht⟩ := slot_variable h hs
    cases hval.symm.trans hval'
    rw [hsecret, htpl, ht] at hkept
    simpa using hkept
  unfold walkVariable at hw
  dsimp only at hw
  rw [hval] at hw
  dsimp only at hw
  split_ifs at hw with hextract hwarn
  · have h' := variable_setValue h (w := (Json.object val).putChild valueKey (.string [])) rfl
    obtain ⟨rfl, rfl⟩ := walksTo_known (.inr (.inl h')) hw
    obtain ⟨-, val', hval', -, ht⟩ := slot_variable h' hs
    rw [lookup_setField, if_pos rfl, hval, Option.map_some] at hval'
    rw [← Option.some.inj hval'] at ht
    change (lookup (setField val valueKey (.string [])) valueKey).bind asStr = some t at ht
    rw [lookup_setField, if_pos rfl] at ht
    obtain ⟨x, hx, hxt⟩ := Option.bind_eq_some_iff.1 ht
    obtain ⟨y, -, rfl⟩ := Option.map_eq_some_iff.1 hx
    cases hxt
    rfl
  · exact hstays hw hextract
  · exact hstays hw hextract

/-- The walk keeps what kind of value a part is. -/
theorem walk_kind (v : Json) (ptr key : Text) :
    (walk v ptr key).1.asStr = v.asStr ∧ (walk v ptr key).1.isString = v.isString ∧
      (walk v ptr key).1.isObject = v.isObject := by
  cases v with
  | object fields =>
    unfold walk walkTemplate walkVariable walkKeyValue extractValue
    dsimp only
    repeat' first | split | exact ⟨rfl, rfl, rfl⟩
  | array items =>
    unfold walk
    exact ⟨rfl, rfl, rfl⟩
  | _ => exact ⟨rfl, rfl, rfl⟩

theorem walkField_kind (v : Json) (ptr k : Text) :
    (walkField v ptr k).1.asStr = v.asStr ∧ (walkField v ptr k).1.isString = v.isString ∧
      (walkField v ptr k).1.isObject = v.isObject := by
  unfold walkField
  split
  · exact ⟨rfl, rfl, rfl⟩
  · exact walk_kind v ptr k

theorem lookup_walkFields (fields : List (Text × Json)) (p : List Text) (k : Text) :
    lookup (walkFields fields (render p)).1 k = (lookup fields k).map fun v => (walkField v (render (p ++ [k])) k).1 := by
  induction fields with
  | nil =>
    rw [walkFields]
    rfl
  | cons f fields ih =>
    obtain ⟨k', v⟩ := f
    rw [walkFields_cons, lookup_cons, lookup_cons]
    by_cases hk : k' = k
    · subst hk
      simp
    · simp [hk, ih]

theorem length_walkFields (fields : List (Text × Json)) (p : List Text) :
    (walkFields fields (render p)).1.length = fields.length := by
  induction fields with
  | nil =>
    rw [walkFields]
  | cons f fields ih =>
    obtain ⟨k, v⟩ := f
    rw [walkFields_cons, List.length_cons, List.length_cons, ih]

theorem any_walkFields {f : Json → Bool} (hf : ∀ v ptr k, f (walkField v ptr k).1 = f v) (fields : List (Text × Json))
    (p : List Text) (k : Text) : (lookup (walkFields fields (render p)).1 k).any f = (lookup fields k).any f := by
  rw [lookup_walkFields]
  cases lookup fields k with
  | none => rfl
  | some v => exact hf v _ _

/-- An object the walk went into is still of no known shape. -/
theorem isPlain_walkFields (fields : List (Text × Json)) (p : List Text) :
    isPlain (walkFields fields (render p)).1 = isPlain fields := by
  have hkind : strField (walkFields fields (render p)).1 kindKey = strField fields kindKey := by
    unfold strField
    rw [lookup_walkFields]
    cases lookup fields kindKey with
    | none => rfl
    | some v => exact (walkField_kind v _ _).1
  have hsome : ∀ k, (lookup (walkFields fields (render p)).1 k).isSome = (lookup fields k).isSome := by
    intro k
    rw [lookup_walkFields, Option.isSome_map]
  simp only [isPlain, isTemplate, isVariable, isKeyValue, hkind, hsome, length_walkFields,
    any_walkFields (fun v ptr k => (walkField_kind v ptr k).2.1), any_walkFields
      (fun v ptr k => (walkField_kind v ptr k).2.2)]

theorem mem_walkFields {e : Extracted} (hk : lookup fields k = some v)
    (he : e ∈ (walkField v (render (p ++ [k])) k).2.extracted) : e ∈ (walkFields fields (render p)).2.extracted := by
  induction fields with
  | nil => cases hk
  | cons f fields ih =>
    obtain ⟨k', v'⟩ := f
    rw [walkFields_cons]
    rw [lookup_cons] at hk
    by_cases hk' : k' = k
    · subst hk'
      rw [if_pos rfl] at hk
      cases hk
      exact List.mem_append_left _ he
    · rw [if_neg hk'] at hk
      exact List.mem_append_right _ (ih hk)

theorem walkItems_get? (items : List Json) (key : Text) (i n : Nat) :
    (walkItems items (render p) key n).1[i]? =
      items[i]?.map fun v => (walk v (render (p ++ [Nat.toDigits 10 (n + i)])) key).1 := by
  induction items generalizing i n with
  | nil => simp [walkItems]
  | cons v items ih =>
    rw [walkItems, render_index]
    cases i with
    | zero => rfl
    | succ i =>
      rw [show n + (i + 1) = n + 1 + i by omega]
      exact ih i (n + 1)

theorem mem_walkItems {items : List Json} {i : Nat} {e : Extracted} (n : Nat) (hi : items[i]? = some v)
    (he : e ∈ (walk v (render (p ++ [Nat.toDigits 10 (n + i)])) key).2.extracted) :
    e ∈ (walkItems items (render p) key n).2.extracted := by
  induction items generalizing i n with
  | nil => cases hi
  | cons v' items ih =>
    rw [walkItems, render_index]
    cases i with
    | zero =>
      cases hi
      exact List.mem_append_left _ he
    | succ i =>
      rw [show n + (i + 1) = n + 1 + i by omega] at he
      exact List.mem_append_right _ (ih (n + 1) hi he)

/-- **The sensitive texts of a sanitized value** are withheld. -/
theorem walk_slot (v : Json) : ∀ (p : List Text) (key : Text) (path : List Text) (w : Json) (q : List Text) (t : Text),
    WalksTo (walk v (render p) key).1 path w → Slot w q t → Withheld (walk v (render p) key).2 (p ++ path ++ q) t := by
  induction v using Json.ind with
  | object fields ih =>
    intro p key path w q t hw hs
    unfold walk at hw ⊢
    split_ifs at hw ⊢ with htpl hvar hkv
    · exact walkTemplate_slot htpl hw hs
    · exact walkVariable_slot hvar hw hs
    · exact walkKeyValue_slot hkv hw hs
    · dsimp only at hw ⊢
      have hplain : isPlain fields = true := by simp [isPlain, htpl, hvar, hkv]
      cases hw with
      | here => exact absurd hs (not_slot_plain ((isPlain_walkFields fields p).trans hplain))
      | field hplain' hk hw =>
        rename_i k v' path
        rw [lookup_walkFields] at hk
        obtain ⟨v, hv, rfl⟩ := Option.map_eq_some_iff.1 hk
        have hmem := lookup_mem hv
        rw [show p ++ k :: path ++ q = (p ++ [k]) ++ path ++ q by simp]
        refine Withheld.mono ?_ fun e he => mem_walkFields hv he
        unfold walkField at hw ⊢
        split at hw
        · -- A text has no parts.
          rename_i text htext
          cases v with
          | string t' =>
            cases hw with
            | here => cases hs
          | _ => cases htext
        · exact ih _ hmem (p ++ [k]) k path w q t hw hs
  | array items ih =>
    intro p key path w q t hw hs
    unfold walk at hw ⊢
    dsimp only at hw ⊢
    cases hw with
    | here => cases hs
    | item hi hw =>
      rename_i i v' path
      rw [walkItems_get?, Nat.zero_add] at hi
      obtain ⟨v, hv, rfl⟩ := Option.map_eq_some_iff.1 hi
      rw [show p ++ Nat.toDigits 10 i :: path ++ q = (p ++ [Nat.toDigits 10 i]) ++ path ++ q by simp]
      refine Withheld.mono (ih v (List.mem_of_getElem? hv) _ key path w q t hw hs) fun e he => ?_
      exact mem_walkItems 0 hv (by rwa [Nat.zero_add])
  | _ =>
    intro p key path w q t hw hs
    cases hw with
    | here => cases hs

end Walk

/-! ## The texts that pass for references -/

section References
variable {t : Text}

def Blank (t : Text) : Prop := ∀ c ∈ t, isWhitespace c = true

/-- Whitespace around one reference. -/
def OneReference (t : Text) : Prop :=
  ∃ before inner after, t = before ++ (opening ++ inner ++ closing) ++ after ∧ Blank before ∧ Blank after ∧
    contains inner closing = false ∧ contains inner opening = false

/-- The first closing of the reference is not the one at the end. -/
def ClosesEarly (t : Text) : Prop := ∃ inner, trim t = opening ++ inner ++ closing ∧ contains inner closing = true

theorem trim_split (t : Text) : ∃ before after, t = before ++ trim t ++ after ∧ Blank before ∧ Blank after := by
  refine ⟨t.takeWhile isWhitespace, (t.dropWhile isWhitespace).rtakeWhile isWhitespace, ?_, ?_, ?_⟩
  · rw [trim_eq, List.append_assoc, List.rdropWhile_append_rtakeWhile, List.takeWhile_append_dropWhile]
  · exact fun c hc => List.mem_takeWhile_imp hc
  · exact fun c hc => List.mem_rtakeWhile_imp hc

/-- What starts with the opening and ends with the closing has both, one after the other. -/
theorem opening_closing (ho : opening <+: t) (hc : closing <:+ t) : ∃ inner, t = opening ++ inner ++ closing := by
  obtain ⟨rest, rfl⟩ := ho
  obtain ⟨pre, hpre⟩ := hc
  unfold opening closing at *
  rcases pre with _ | ⟨c, _ | ⟨d, pre⟩⟩
  · simp at hpre
  · simp at hpre
  · simp only [List.cons_append, List.cons.injEq, List.nil_append] at hpre
    exact ⟨pre, by simp [← hpre.2.2]⟩

theorem openings_eq_zero (h : openings t = 0) : ¬ opening <:+: t := by
  fun_induction openings t with
  | case1 t ih => simp at h
  | case2 c t hne ih =>
    rw [List.infix_cons_iff]
    rintro (hpre | hin)
    · obtain ⟨rest, hrest⟩ := hpre
      simp only [opening, List.cons_append, List.nil_append, List.cons.injEq] at hrest
      exact hne rest hrest.1.symm hrest.2.symm
    · exact ih h hin
  | case3 => simp [opening]

theorem pureReference_cases (h : isPureReference t = true) : Blank t ∨ OneReference t ∨ ClosesEarly t := by
  obtain ⟨before, after, ht, hb, ha⟩ := trim_split t
  simp only [isPureReference, Bool.or_eq_true, Bool.and_eq_true, List.isEmpty_iff, List.isPrefixOf_iff_prefix,
    List.isSuffixOf_iff_suffix, decide_eq_true_eq] at h
  rcases h with hnil | ⟨⟨ho, hc⟩, hone⟩
  · left
    rw [ht, hnil, List.append_nil]
    intro c hc
    exact (List.mem_append.1 hc).elim (hb c) (ha c)
  · obtain ⟨inner, hinner⟩ := opening_closing ho hc
    cases hearly : contains inner closing with
    | true => exact .inr (.inr ⟨inner, hinner, hearly⟩)
    | false =>
      have hzero : openings (inner ++ closing) = 0 := by
        rw [hinner, List.append_assoc] at hone
        simpa [opening, openings] using hone
      have hno : ¬ opening <:+: inner := fun hin => openings_eq_zero hzero (hin.trans (List.prefix_append _ _).isInfix)
      exact .inr (.inl ⟨before, inner, after, hinner ▸ ht, hb, ha, hearly, decide_eq_false hno⟩)

end References

/-! ## Sanitizing -/

section Sanitize
variable [CredentialPatterns]

/-- **Sanitizing is reversible, a restore is all or nothing, and no literal stays in a slot the walk comes to.** A value of
`serde_json` names a field of an object once. -/
theorem sanitize_safe (v : Json) (hd : v.Distinct) :
    restore (sanitize v).1 (sanitize v).2.extracted = (v, .ok ()) ∧
    (∀ (root : Json) (ex : List Extracted),
      ((∃ err, (restore root ex).2 = .error err) ↔ ∃ done e rest, ex = done ++ e :: rest ∧ Misnamed root done e) ∧
        ((∃ err, (restore root ex).2 = .error err) → (restore root ex).1 = root)) ∧
    ∀ path w q t, WalksTo (sanitize v).1 path w → Slot w q t → ¬ ClosesEarly t →
      Blank t ∨ OneReference t ∨
        ∃ e ∈ (sanitize v).2.extracted, e.pointer = render (path ++ q) ∧ t = placeholderText e.placeholder := by
  refine ⟨?_, restore_error_iff, ?_⟩
  · have h : runOps restoreOne (sanitize v).1 (sanitize v).2.extracted = .ok v := walk_restores v hd [] [] _ rfl
    unfold restore
    rw [h]
  · intro path w q t hw hs hearly
    rcases walk_slot v [] [] path w q t hw hs with hpure | hplaceholder
    · rcases pureReference_cases hpure with h | h | h
      · exact .inl h
      · exact .inr (.inl h)
      · exact absurd h hearly
    · exact .inr (.inr hplaceholder)

end Sanitize

/-- Nothing looks like a credential. -/
@[reducible] def noPatterns : CredentialPatterns := ⟨fun _ => none⟩

def templateOf (t : Text) : Json := .object [(kindKey, .string templateKind), (valueKey, .string t)]

def passwordAuth : Json := .object [("password".toList, templateOf "hunter2".toList)]

theorem sanitize_safe_password : @sanitize noPatterns passwordAuth =
      (.object [("password".toList, templateOf "\x7b\x7bsecret_password\x7d\x7d".toList)],
        { extracted := [⟨"/password/value".toList, "secret_password".toList, "hunter2".toList⟩] }) ∧
    restore (@sanitize noPatterns passwordAuth).1 (@sanitize noPatterns passwordAuth).2.extracted = (passwordAuth, .ok ()) :=
  ⟨by rfl, (@sanitize_safe noPatterns passwordAuth (by simp [passwordAuth, templateOf, Distinct, DistinctFields,
    kindKey, valueKey])).1⟩

def hostVariable : Json :=
  .object [(nameKey, .string "host".toList), ("secret".toList, .bool false), (valueKey, templateOf "api.example.com".toList)]

/-- The template of a variable that is not secret stays. -/
theorem host_template_stays : ¬ ∀ path w q t, (@sanitize noPatterns hostVariable).1.get path = some w → Slot w q t →
    t = [] ∨ OneReference t ∨ ∃ e ∈ (@sanitize noPatterns hostVariable).2.extracted,
      e.pointer = render (path ++ q) ∧ t = placeholderText e.placeholder := by
  intro h
  rcases h [valueKey] (templateOf "api.example.com".toList) [valueKey] "api.example.com".toList rfl (.template rfl rfl) with
    h | ⟨before, inner, after, ht, -⟩ | ⟨e, he, -⟩
  · simp at h
  · have hmem : '{' ∈ "api.example.com".toList := by simp [ht, opening]
    revert hmem
    decide
  · cases he

end Anvil.Portability
