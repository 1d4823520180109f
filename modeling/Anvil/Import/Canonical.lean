import Mathlib.Data.Char
import Mathlib.Data.List.Lex
import Anvil.Lib.JsonSyntax
import Anvil.Lib.JsonText
import Anvil.Lib.Utf8Match

/-!
# Canonical JSON (`anvil-import/src/util.rs`)

* `canonicalJson` : a value with the fields of its objects in the order of their names;
* `alike` : equality of values, but for the order of fields; numbers are equal when they are printed alike;
* `told` : a canonical text tells its value, whatever stands behind it;
* `specHash`, `canonical_exact` : values have one text iff they are alike, and so do specs have one hash.
-/

namespace Anvil.Import
open Anvil.Lib Anvil.Lib.Json Anvil.Lib.JsonSyntax

/-! ## Writing -/

/-- `keys.sort()`; the order of the bytes of two names is that of their characters. -/
def sortFields {α : Type} (fields : List (Text × α)) : List (Text × α) := fields.mergeSort fun f g => f.1 ≤ g.1

def joinWith (opening closing : Char) (parts : List Text) : Text := opening :: [','].intercalate parts ++ [closing]

mutual

/-- `write_canonical`. -/
def canonicalJson : Json → Text
  | .object fields => joinWith '\x7b' '\x7d' ((sortFields (canonicalFields fields)).map fun f => quote f.1 ++ ':' :: f.2)
  | .array items => joinWith '[' ']' (canonicalItems items)
  | v => v.compact

def canonicalItems : List Json → List Text
  | [] => []
  | v :: items => canonicalJson v :: canonicalItems items

/-- The fields with their values written. -/
def canonicalFields : List (Text × Json) → List (Text × Text)
  | [] => []
  | (k, v) :: fields => (k, canonicalJson v) :: canonicalFields fields

end

theorem canonicalItems_eq (items : List Json) : canonicalItems items = items.map canonicalJson := by
  induction items with
  | nil => rfl
  | cons v items ih => rw [canonicalItems, ih, List.map_cons]

theorem canonicalFields_eq (fields : List (Text × Json)) :
    canonicalFields fields = fields.map fun f => (f.1, canonicalJson f.2) := by
  induction fields with
  | nil => rfl
  | cons f fields ih => rw [canonicalFields, ih, List.map_cons]

theorem canonical_array (items : List Json) : canonicalJson (.array items) = joinWith '[' ']' (items.map canonicalJson) := by
  rw [canonicalJson, canonicalItems_eq]

theorem canonical_object (fields : List (Text × Json)) : canonicalJson (.object fields) =
    joinWith '\x7b' '\x7d' ((sortFields fields).map fun f => quote f.1 ++ ':' :: canonicalJson f.2) := by
  have hsort : sortFields (fields.map fun f => (f.1, canonicalJson f.2)) =
      (sortFields fields).map fun f => (f.1, canonicalJson f.2) :=
    (List.map_mergeSort (f := fun f : Text × Json => (f.1, canonicalJson f.2)) fun _ _ _ _ => rfl).symm
  rw [canonicalJson, canonicalFields_eq, hsort, List.map_map]
  rfl

/-! ## Equality -/

mutual

/-- Equality where the order of fields does not matter and numbers are their printed texts. -/
def alike : Json → Json → Bool
  | .null, .null => true
  | .bool a, .bool b => a = b
  | .number n, .number m => n = m
  | .string s, .string t => s = t
  | .array xs, .array ys => alikeItems xs ys
  | .object xs, .object ys => xs.length = ys.length && alikeFields xs ys
  | _, _ => false

def alikeItems : List Json → List Json → Bool
  | [], [] => true
  | x :: xs, y :: ys => alike x y && alikeItems xs ys
  | _, _ => false

/-- Every field of the first is in the second, with the same value. -/
def alikeFields : List (Text × Json) → List (Text × Json) → Bool
  | [], _ => true
  | (k, v) :: xs, ys => (match lookup ys k with
      | some w => alike v w
      | none => false) && alikeFields xs ys

end

theorem alike_array {xs ys : List Json} :
    alike (.array xs) (.array ys) = true ↔ List.Forall₂ (fun x y => alike x y = true) xs ys := by
  rw [alike]
  induction xs generalizing ys with
  | nil => cases ys <;> simp [alikeItems]
  | cons x xs ih => cases ys <;> simp [alikeItems, ih]

theorem alike_object {xs ys : List (Text × Json)} : alike (.object xs) (.object ys) = true ↔
    xs.length = ys.length ∧ ∀ f ∈ xs, ∃ w, lookup ys f.1 = some w ∧ alike f.2 w = true := by
  have hfields : alikeFields xs ys = true ↔ ∀ f ∈ xs, ∃ w, lookup ys f.1 = some w ∧ alike f.2 w = true := by
    induction xs with
    | nil => simp [alikeFields]
    | cons f xs ih =>
      obtain ⟨k, v⟩ := f
      rw [alikeFields, Bool.and_eq_true, ih, List.forall_mem_cons]
      refine and_congr_left fun _ => ?_
      cases lookup ys k <;> simp
  rw [alike, Bool.and_eq_true, hfields, decide_eq_true_eq]

/-! ## Values that are read -/

/-- A `serde_json::Value`: no object names a field twice, and a number is printed as one. -/
structure Printed (v : Json) : Prop where
  distinct : v.Distinct
  numbers : ∀ n, number n ∈ v.leaves → IsNumber n

theorem printed_item {items : List Json} (h : Printed (array items)) {v : Json} (hv : v ∈ items) : Printed v :=
  ⟨distinctItems_iff.1 h.distinct v hv, fun n hn => h.numbers n (mem_leaves_array.2 ⟨v, hv, hn⟩)⟩

theorem printed_field {fields : List (Text × Json)} (h : Printed (object fields)) {f : Text × Json} (hf : f ∈ fields) :
    Printed f.2 :=
  ⟨distinctFields_iff.1 h.distinct.2 f hf, fun n hn => h.numbers n (mem_leaves_object.2 ⟨f, hf, hn⟩)⟩

theorem printed_number {n : Text} (h : Printed (number n)) : IsNumber n := h.numbers n (List.mem_singleton.2 rfl)

/-! ## Reading -/

/-- What the first character of a text says of its value. -/
def kindOf (c : Char) : Nat :=
  if c = 'n' then 0 else if c = 't' then 1 else if c = 'f' then 2 else if c = '"' then 4 else if c = '[' then 5
  else if c = '\x7b' then 6 else 3

def kind : Json → Nat
  | .null => 0
  | .bool true => 1
  | .bool false => 2
  | .number _ => 3
  | .string _ => 4
  | .array _ => 5
  | .object _ => 6

theorem kindOf_numeral {c : Char} (h : isNumeral c = true) : kindOf c = 3 := by
  unfold kindOf
  rw [if_neg, if_neg, if_neg, if_neg, if_neg, if_neg]
  all_goals
    rintro rfl
    revert h
    decide

/-- The first character tells the kind, and closes nothing. -/
theorem first_char {v : Json} (h : Printed v) :
    ∃ c t, canonicalJson v = c :: t ∧ kindOf c = kind v ∧ c ≠ ']' ∧ c ≠ '\x7d' := by
  cases v with
  | null => exact ⟨_, _, rfl, by decide, by decide, by decide⟩
  | bool b => cases b <;> exact ⟨_, _, rfl, by decide, by decide, by decide⟩
  | number n =>
    obtain ⟨hne, hall⟩ := (printed_number h).numeral
    obtain ⟨c, t, rfl⟩ := List.exists_cons_of_ne_nil hne
    have hc := hall c List.mem_cons_self
    refine ⟨c, t, rfl, kindOf_numeral hc, ?_, ?_⟩
    all_goals
      rintro rfl
      revert hc
      decide
  | string t => exact ⟨_, _, rfl, rfl, by decide, by decide⟩
  | array items => exact ⟨_, _, rfl, rfl, by decide, by decide⟩
  | object fields => exact ⟨_, _, rfl, rfl, by decide, by decide⟩

/-- What does not go on with a number. -/
def Ends (x : Text) : Prop := ∀ c, x.head? = some c → isNumeral c = false

theorem ends_of_rest {close : Char} (hclose : isNumeral close = false) {x : Text} (h : Rest ',' close x) : Ends x := by
  intro c hc
  rcases h with ⟨t, rfl | rfl⟩
  · rw [← Option.some.inj hc]
    decide
  · rw [← Option.some.inj hc]
    exact hclose

theorem number_told {n m x y : Text} (hn : IsNumber n) (hm : IsNumber m) (hx : Ends x) (hy : Ends y) (he : n ++ x = m ++ y) :
    n = m ∧ x = y := by
  have htake : ∀ {n x : Text}, IsNumber n → Ends x → (n ++ x).takeWhile isNumeral = n := by
    intro n x hn hx
    have hstop : x.takeWhile isNumeral = [] := by
      cases x with
      | nil => rfl
      | cons c x => rw [List.takeWhile_cons, hx c rfl, if_neg Bool.false_ne_true]
    rw [List.takeWhile_append_of_pos hn.numeral.2, hstop, List.append_nil]
  have hnm : n = m := by rw [← htake hn hx, he, htake hm hy]
  subst hnm
  exact ⟨rfl, List.append_cancel_left he⟩

/-- The parts of a list or an object between their marks. -/
theorem joinWith_append (opening closing : Char) (parts : List Text) (x : Text) :
    joinWith opening closing parts ++ x = opening :: ([','].intercalate parts ++ closing :: x) := by
  unfold joinWith
  rw [List.append_assoc, List.cons_append, List.singleton_append]

theorem sortFields_perm {α : Type} (fields : List (Text × α)) : (sortFields fields).Perm fields := List.mergeSort_perm _ _

theorem mem_sortFields {α : Type} {fields : List (Text × α)} {f : Text × α} : f ∈ sortFields fields ↔ f ∈ fields :=
  (sortFields_perm fields).mem_iff

theorem exists_of_forall₂ {α β : Type} {R : α → β → Prop} {l : List α} {m : List β} (h : List.Forall₂ R l m) :
    ∀ a ∈ l, ∃ b ∈ m, R a b := by
  induction h with
  | nil => simp
  | cons hab _ ih =>
    refine List.forall_mem_cons.2 ⟨⟨_, List.mem_cons_self, hab⟩, fun a ha => ?_⟩
    obtain ⟨b, hb, hab⟩ := ih a ha
    exact ⟨b, List.mem_cons_of_mem _ hb, hab⟩

/-- Fields that are alike one after another make objects that are. -/
theorem alike_of_sorted {xs ys : List (Text × Json)} (hys : (ys.map Prod.fst).Nodup)
    (h : List.Forall₂ (fun f g => f.1 = g.1 ∧ alike f.2 g.2 = true) (sortFields xs) (sortFields ys)) :
    alike (.object xs) (.object ys) = true := by
  refine alike_object.2 ⟨?_, fun f hf => ?_⟩
  · rw [← (sortFields_perm xs).length_eq, ← (sortFields_perm ys).length_eq, h.length_eq]
  · obtain ⟨g, hg, hname, hvalue⟩ := exists_of_forall₂ h f (mem_sortFields.2 hf)
    rw [hname]
    exact ⟨g.2, lookup_of_mem hys (mem_sortFields.1 hg), hvalue⟩

theorem kind_eq {a b : Json} (ha : Printed a) (hb : Printed b) {x y : Text}
    (he : canonicalJson a ++ x = canonicalJson b ++ y) :
    kind a = kind b := by
  obtain ⟨c, s, hc, hkind, -, -⟩ := first_char ha
  obtain ⟨d, t, hd, hkind', -, -⟩ := first_char hb
  rw [hc, hd, List.cons_append, List.cons_append] at he
  rw [← hkind, ← hkind', (List.cons.inj he).1]

/-- A text is told from what follows it, which tells the value but for the order of fields. -/
theorem told {a : Json} (ha : Printed a) : ∀ {b : Json} {x y : Text}, Printed b → Ends x → Ends y →
    canonicalJson a ++ x = canonicalJson b ++ y → alike a b = true ∧ x = y := by
  induction a using Json.ind with
  | null =>
    intro b x y hb _ _ he
    have hkind := kind_eq ha hb he
    cases b with
    | null => exact ⟨rfl, List.append_cancel_left he⟩
    | bool b => cases b <;> cases hkind
    | _ => cases hkind
  | bool b =>
    intro b' x y hb _ _ he
    have hkind := kind_eq ha hb he
    cases b' with
    | bool b' =>
      have hbool : b = b' := by cases b <;> cases b' <;> first | rfl | cases hkind
      subst hbool
      exact ⟨decide_eq_true rfl, List.append_cancel_left he⟩
    | _ => cases b <;> cases hkind
  | number n =>
    intro b x y hb hx hy he
    have hkind := kind_eq ha hb he
    cases b with
    | number m =>
      obtain ⟨rfl, rfl⟩ := number_told (printed_number ha) (printed_number hb) hx hy he
      exact ⟨decide_eq_true rfl, rfl⟩
    | bool b => cases b <;> cases hkind
    | _ => cases hkind
  | string s =>
    intro b x y hb _ _ he
    have hkind := kind_eq ha hb he
    cases b with
    | string t =>
      obtain ⟨hst, rfl⟩ := delimits_quote he
      exact ⟨decide_eq_true hst, rfl⟩
    | bool b => cases b <;> cases hkind
    | _ => cases hkind
  | array items ih =>
    intro b x y hb _ _ he
    have hkind := kind_eq ha hb he
    cases b with
    | array items' =>
      rw [canonical_array, canonical_array, joinWith_append, joinWith_append] at he
      have hfirst : ∀ v, v ∈ items ∨ v ∈ items' → ∃ c t, canonicalJson v = c :: t ∧ c ≠ ']' := by
        intro v hv
        obtain ⟨c, t, hc, -, hclose, -⟩ := first_char (hv.elim (printed_item ha) (printed_item hb))
        exact ⟨c, t, hc, hclose⟩
      have htold : ∀ v w, v ∈ items → w ∈ items' → ∀ x x', Rest ',' ']' x → Rest ',' ']' x' →
          canonicalJson v ++ x = canonicalJson w ++ x' → alike v w = true ∧ x = x' :=
        fun v w hv hw x x' hx hx' hvw => ih v hv (printed_item ha hv) (printed_item hb hw) (ends_of_rest (by decide) hx)
          (ends_of_rest (by decide) hx') hvw
      obtain ⟨hall, hxy⟩ := joined_told (by decide) hfirst htold (fun _ h => h) (fun _ h => h) (List.cons.inj he).2
      exact ⟨alike_array.2 hall, hxy⟩
    | bool b => cases b <;> cases hkind
    | _ => cases hkind
  | object fields ih =>
    intro b x y hb _ _ he
    have hkind := kind_eq ha hb he
    cases b with
    | object fields' =>
      rw [canonical_object, canonical_object, joinWith_append, joinWith_append] at he
      have htold : ∀ f g, f ∈ fields → g ∈ fields' → ∀ x x', Rest ',' '\x7d' x → Rest ',' '\x7d' x' →
          quote f.1 ++ ':' :: canonicalJson f.2 ++ x = quote g.1 ++ ':' :: canonicalJson g.2 ++ x' →
          (f.1 = g.1 ∧ alike f.2 g.2 = true) ∧ x = x' := by
        intro f g hf hg x x' hx hx' hfg
        rw [List.append_assoc, List.append_assoc] at hfg
        obtain ⟨hname, hvalue⟩ := delimits_quote hfg
        obtain ⟨halike, hrest⟩ := ih f hf (printed_field ha hf) (printed_field hb hg) (ends_of_rest (by decide) hx)
          (ends_of_rest (by decide) hx') (List.cons.inj hvalue).2
        exact ⟨⟨hname, halike⟩, hrest⟩
      obtain ⟨hall, hxy⟩ := joined_told (by decide) (fun f _ => ⟨_, _, rfl, by decide⟩) htold (fun _ => mem_sortFields.1)
        (fun _ => mem_sortFields.1) (List.cons.inj he).2
      exact ⟨alike_of_sorted hb.distinct.1 hall, hxy⟩
    | bool b => cases b <;> cases hkind
    | _ => cases hkind

/-! ## Alike values are written alike -/

theorem sortFields_congr {xs ys : List (Text × Text)} (hxs : (xs.map Prod.fst).Nodup) (h : xs.Perm ys) :
    sortFields xs = sortFields ys := by
  have hsorted : ∀ l : List (Text × Text), (sortFields l).Pairwise fun f g => decide (f.1 ≤ g.1) = true := fun l =>
    @List.pairwise_mergeSort _ (fun f g : Text × Text => decide (f.1 ≤ g.1))
      (fun f g k hfg hgk => decide_eq_true (le_trans (of_decide_eq_true hfg) (of_decide_eq_true hgk)))
      (fun f g => by simpa using le_total f.1 g.1) l
  refine List.Perm.eq_of_pairwise (fun f g hf hg hfg hgf => ?_) (hsorted xs) (hsorted ys)
    ((sortFields_perm xs).trans (h.trans (sortFields_perm ys).symm))
  have hname : f.1 = g.1 := le_antisymm (of_decide_eq_true hfg) (of_decide_eq_true hgf)
  exact List.inj_on_of_nodup_map hxs (mem_sortFields.1 hf) (h.mem_iff.2 (mem_sortFields.1 hg)) hname

theorem map_of_forall₂ {α β : Type} {R : α → α → Prop} {f : α → β} {l m : List α} (h : List.Forall₂ R l m)
    (hf : ∀ a ∈ l, ∀ b ∈ m, R a b → f a = f b) : l.map f = m.map f := by
  induction h with
  | nil => rfl
  | cons hab _ ih =>
    rw [List.map_cons, List.map_cons, hf _ List.mem_cons_self _ List.mem_cons_self hab,
      ih fun a ha b hb => hf a (List.mem_cons_of_mem _ ha) b (List.mem_cons_of_mem _ hb)]

theorem canonical_of_alike {a : Json} (ha : Printed a) :
    ∀ {b : Json}, Printed b → alike a b = true → canonicalJson a = canonicalJson b := by
  induction a using Json.ind with
  | array items ih =>
    intro b hb h
    cases b with
    | array items' =>
      have hall := alike_array.1 h
      rw [canonical_array, canonical_array, map_of_forall₂ hall fun v hv w hw => ih v hv (printed_item ha hv)
        (printed_item hb hw)]
    | _ => cases h
  | object fields ih =>
    intro b hb h
    cases b with
    | object fields' =>
      obtain ⟨hlen, hall⟩ := alike_object.1 h
      have hwritten : ∀ f ∈ fields, (f.1, canonicalJson f.2) ∈ fields'.map fun g => (g.1, canonicalJson g.2) := by
        intro f hf
        obtain ⟨w, hw, hfw⟩ := hall f hf
        have hmem := lookup_mem hw
        exact List.mem_map.2 ⟨(f.1, w), hmem, by rw [ih f hf (printed_field ha hf) (printed_field hb hmem) hfw]⟩
      have hnodup : ∀ {l : List (Text × Json)}, (l.map Prod.fst).Nodup →
          ((l.map fun f => (f.1, canonicalJson f.2)).map Prod.fst).Nodup := by
        intro l hl
        rwa [List.map_map]
      have hperm : (fields.map fun f => (f.1, canonicalJson f.2)).Perm (fields'.map fun f => (f.1, canonicalJson f.2)) := by
        refine (List.subperm_of_subset (hnodup ha.distinct.1).of_map ?_).perm_of_length_le ?_
        · exact List.forall_mem_map.2 hwritten
        · rw [List.length_map, List.length_map, hlen]
      have hwrite : ∀ l : List (Text × Json), canonicalJson (.object l) =
          joinWith '\x7b' '\x7d' ((sortFields (l.map fun f => (f.1, canonicalJson f.2))).map fun f => quote f.1 ++
            ':' :: f.2) := by
        intro l
        rw [canonicalJson, canonicalFields_eq]
      rw [hwrite, hwrite, sortFields_congr (hnodup ha.distinct.1) hperm]
    | _ => cases h
  | null =>
    intro b _ h
    cases b <;> first | rfl | cases h
  | bool x =>
    intro b _ h
    cases b with
    | bool y => rw [of_decide_eq_true h]
    | _ => cases h
  | number n =>
    intro b _ h
    cases b with
    | number m => rw [of_decide_eq_true h]
    | _ => cases h
  | string s =>
    intro b _ h
    cases b with
    | string t => rw [of_decide_eq_true h]
    | _ => cases h

theorem canonical_iff {a b : Json} (ha : Printed a) (hb : Printed b) :
    canonicalJson a = canonicalJson b ↔ alike a b = true := by
  refine ⟨fun h => ?_, canonical_of_alike ha hb⟩
  have hends : Ends [] := fun c hc => absurd hc (by simp)
  exact (told ha hb hends hends (by rw [h])).1

/-! ## Hashes of specs -/

/-- With what a request was imported from. -/
structure Canonical.RequestSpec (σ δ : Type) where
  source : Option σ
  rest : δ

section Hash
variable {σ δ : Type} (toValue : Canonical.RequestSpec σ δ → Option { v : Json // Printed v }) (sha256Hex : List UInt8 → Text)

/-- A spec without its source, as it is serialized. -/
def specValue (spec : Canonical.RequestSpec σ δ) : Json := ((toValue { spec with source := none }).map Subtype.val).getD .null

def specHash (spec : Canonical.RequestSpec σ δ) : Text := sha256Hex (encodeUtf8 (canonicalJson (specValue toValue spec)))

theorem printed_specValue (spec : Canonical.RequestSpec σ δ) : Printed (specValue toValue spec) := by
  unfold specValue
  cases toValue { spec with source := none } with
  | none => exact ⟨trivial, fun n hn => by simp [leaves] at hn⟩
  | some v => exact v.2

/-- **One text for one value.** Two values have the same canonical text iff they are equal up to the order of their fields;
where no two specs collide under SHA-256, the same holds of the specs and their hashes. -/
theorem canonical_exact (hsha : Set.InjOn sha256Hex
    (Set.range fun spec : Canonical.RequestSpec σ δ => encodeUtf8 (canonicalJson (specValue toValue spec)))) :
    (∀ a b : Json, Printed a → Printed b → (canonicalJson a = canonicalJson b ↔ alike a b = true)) ∧
      ∀ s t : Canonical.RequestSpec σ δ, specHash toValue sha256Hex s = specHash toValue sha256Hex t ↔
        alike (specValue toValue s) (specValue toValue t) = true := by
  refine ⟨fun a b => canonical_iff, fun s t => ?_⟩
  rw [← canonical_iff (printed_specValue toValue s) (printed_specValue toValue t)]
  constructor
  · exact fun h => encodeUtf8_injective (hsha ⟨s, rfl⟩ ⟨t, rfl⟩ h)
  · exact fun h => by unfold specHash; rw [h]

end Hash

/-! ## One spec in two orders -/

/-- A spec that is serialized as it is. -/
def storedValue (spec : Canonical.RequestSpec Unit { v : Json // Printed v }) : Option { v : Json // Printed v } :=
  some spec.rest

def bytesAsText (bytes : List UInt8) : Text := bytes.map fun b => Char.ofNat b.toNat

theorem bytesAsText_injective : Function.Injective bytesAsText := by
  refine List.map_injective_iff.2 fun b c h => ?_
  have hvalid : ∀ b : UInt8, (Char.ofNat b.toNat).toNat = b.toNat := by
    intro b
    have hb := b.toNat_lt
    rw [Char.ofNat, dif_pos (Or.inl (by omega))]
    rfl
  exact UInt8.toNat_inj.1 (by rw [← hvalid b, h, hvalid c])

def methodFirst (method : String) : { v : Json // Printed v } :=
  ⟨.object [("method".toList, .string method.toList), ("url".toList, .string "/a".toList)],
    ⟨by simp [Json.Distinct, DistinctFields], fun n hn => by simp [leaves, leavesFields] at hn⟩⟩

def urlFirst (method : String) : { v : Json // Printed v } :=
  ⟨.object [("url".toList, .string "/a".toList), ("method".toList, .string method.toList)],
    ⟨by simp [Json.Distinct, DistinctFields], fun n hn => by simp [leaves, leavesFields] at hn⟩⟩

/-- The order of the fields and the source do not count, and the method does. -/
theorem canonical_exact_reordered :
    methodFirst "GET" ≠ urlFirst "GET" ∧ canonicalJson (methodFirst "GET").1 = canonicalJson (urlFirst "GET").1 ∧
      specHash storedValue bytesAsText ⟨some (), methodFirst "GET"⟩ =
        specHash storedValue bytesAsText ⟨none, urlFirst "GET"⟩ ∧
      specHash storedValue bytesAsText ⟨none, methodFirst "GET"⟩ ≠ specHash storedValue bytesAsText
        ⟨none, urlFirst "PUT"⟩ := by
  obtain ⟨htexts, hspecs⟩ := canonical_exact storedValue bytesAsText bytesAsText_injective.injOn
  have halike : alike (methodFirst "GET").1 (urlFirst "GET").1 = true := by decide
  refine ⟨fun h => absurd (congrArg Subtype.val h) (by simp [methodFirst, urlFirst]),
    (htexts _ _ (methodFirst "GET").2 (urlFirst "GET").2).2 halike, (hspecs _ _).2 halike, fun h => ?_⟩
  exact absurd ((hspecs _ _).1 h) (by decide)

end Anvil.Import
