import Anvil.Lib.Json

/-!
# The fields of an object as an ordered map, and equality of values

* `insert`, `remove`, `lookup` : fields keep their place, new ones come last, and removal shifts;
* `insertIdx_remove`, `remove_append` : what undoes an edit;
* `same` : equality of values, the order of fields apart; `same_refl`, `same_object`;
* `strings`, `keys` : the texts in a value, and the names of fields among them.
-/

namespace Anvil.Lib.Json

/-! ## Edits -/

/-- The value at a key, in its place when there is one. -/
def insert (fields : List (Text × Json)) (k : Text) (v : Json) : List (Text × Json) :=
  if (lookup fields k).isSome then setField fields k v else fields ++ [(k, v)]

/-- The fields after it move up. -/
def remove (fields : List (Text × Json)) (k : Text) : List (Text × Json) := fields.eraseP fun f => f.1 = k

section Edits
variable {fields : List (Text × Json)} {k k' : Text} {c v w : Json}

theorem insert_of_some (h : lookup fields k = some c) : insert fields k v = setField fields k v :=
  if_pos (by rw [h]; rfl)

theorem insert_of_none (h : lookup fields k = none) : insert fields k v = fields ++ [(k, v)] :=
  if_neg (by rw [h]; exact Bool.false_ne_true)

theorem lookup_eq_none : lookup fields k = none ↔ k ∉ fields.map Prod.fst := by
  induction fields with
  | nil => simp [lookup]
  | cons f fields ih =>
    rw [lookup_cons, List.map_cons, List.mem_cons]
    by_cases h : f.1 = k
    · simp [h]
    · rw [if_neg h, ih]
      simp [Ne.symm h]

theorem lookup_insert : lookup (insert fields k v) k' = if k' = k then some v else lookup fields k' := by
  cases h : lookup fields k with
  | some c =>
    rw [insert_of_some h, lookup_setField, h]
    rfl
  | none =>
    rw [insert_of_none h]
    by_cases hk : k' = k
    · rw [if_pos hk, hk, lookup_append_of_not_mem (lookup_eq_none.1 h), lookup_cons, if_pos rfl]
    · rw [if_neg hk]
      induction fields with
      | nil => rw [List.nil_append, lookup_cons, if_neg (Ne.symm hk)]
      | cons f fields ih =>
        rw [lookup_cons] at h
        rw [List.cons_append, lookup_cons, lookup_cons]
        split_ifs at h
        rw [ih h]

/-- A field that came last is taken away. -/
theorem remove_append (h : lookup fields k = none) : remove (fields ++ [(k, v)]) k = fields := by
  unfold remove
  rw [List.eraseP_append_right _ (fun f hf => ?_)]
  · rw [List.eraseP_cons_of_pos (by simp), List.append_nil]
  · have := lookup_eq_none.1 h
    have hne : f.1 ≠ k := fun heq => this (heq ▸ List.mem_map_of_mem hf)
    simpa using hne

theorem lookup_remove (hd : (fields.map Prod.fst).Nodup) :
    lookup (remove fields k) k' = if k' = k then none else lookup fields k' := by
  induction fields with
  | nil => simp [remove, lookup]
  | cons f fields ih =>
    rw [List.map_cons, List.nodup_cons] at hd
    by_cases hf : f.1 = k
    · have hremove : remove (f :: fields) k = fields := List.eraseP_cons_of_pos (by simpa using hf)
      rw [hremove, lookup_cons]
      by_cases hk : k' = k
      · rw [if_pos hk, hk, lookup_eq_none.2 (hf ▸ hd.1)]
      · rw [if_neg hk, if_neg (by rw [hf]; exact Ne.symm hk)]
    · have hremove : remove (f :: fields) k = f :: remove fields k := List.eraseP_cons_of_neg (by simpa using hf)
      rw [hremove, lookup_cons, ih hd.2, lookup_cons]
      by_cases hk : k' = k
      · rw [if_pos hk, if_pos hk, if_neg (by rw [hk]; exact hf)]
      · rw [if_neg hk, if_neg hk]

theorem remove_sublist : (remove fields k).Sublist fields := List.eraseP_sublist

/-- A field that was removed is put back at its place. -/
theorem insertIdx_remove (h : lookup fields k = some c) :
    (remove fields k).insertIdx (min (fields.findIdx fun f => f.1 = k) (remove fields k).length) (k, c) = fields := by
  induction fields with
  | nil => cases h
  | cons f fields ih =>
    rw [lookup_cons] at h
    by_cases hf : f.1 = k
    · rw [if_pos hf] at h
      have hremove : remove (f :: fields) k = fields := List.eraseP_cons_of_pos (by simpa using hf)
      have hidx : (f :: fields).findIdx (fun f => f.1 = k) = 0 := by rw [List.findIdx_cons]; simp [hf]
      rw [hremove, hidx, Nat.zero_min, List.insertIdx_zero, ← Option.some.inj h, ← hf]
    · rw [if_neg hf] at h
      have hremove : remove (f :: fields) k = f :: remove fields k := List.eraseP_cons_of_neg (by simpa using hf)
      have hidx : (f :: fields).findIdx (fun f => f.1 = k) = fields.findIdx (fun f => f.1 = k) + 1 := by
        rw [List.findIdx_cons]
        simp [hf]
      rw [hremove, hidx, List.length_cons, Nat.succ_min_succ, List.insertIdx_succ_cons, ih h]

end Edits

/-! ## Equality -/

/-- The zeros of a floating-point number are equal. -/
def zeroless (n : Text) : Text := if n = ['-', '0', '.', '0'] then ['0', '.', '0'] else n

mutual

/-- `Value == Value`: the order of fields does not matter. -/
def same : Json → Json → Bool
  | .null, .null => true
  | .bool a, .bool b => a = b
  | .number a, .number b => zeroless a = zeroless b
  | .string a, .string b => a = b
  | .array xs, .array ys => sameItems xs ys
  | .object xs, .object ys => xs.length = ys.length && sameFields xs ys
  | _, _ => false

def sameItems : List Json → List Json → Bool
  | [], [] => true
  | x :: xs, y :: ys => same x y && sameItems xs ys
  | _, _ => false

/-- Every field of the first is in the second, with the same value. -/
def sameFields : List (Text × Json) → List (Text × Json) → Bool
  | [], _ => true
  | (k, v) :: xs, ys => (match lookup ys k with
      | some w => same v w
      | none => false) && sameFields xs ys

end

theorem sameItems_iff {xs ys : List Json} : sameItems xs ys = true ↔ List.Forall₂ (fun x y => same x y = true) xs ys := by
  induction xs generalizing ys with
  | nil => cases ys <;> simp [sameItems]
  | cons x xs ih => cases ys <;> simp [sameItems, ih]

theorem sameFields_iff {xs ys : List (Text × Json)} :
    sameFields xs ys = true ↔ ∀ f ∈ xs, ∃ w, lookup ys f.1 = some w ∧ same f.2 w = true := by
  induction xs with
  | nil => simp [sameFields]
  | cons f xs ih =>
    obtain ⟨k, v⟩ := f
    rw [sameFields, Bool.and_eq_true, ih, List.forall_mem_cons]
    refine and_congr_left fun _ => ?_
    cases lookup ys k <;> simp

theorem same_object {xs ys : List (Text × Json)} : same (.object xs) (.object ys) = true ↔
    xs.length = ys.length ∧ ∀ f ∈ xs, ∃ w, lookup ys f.1 = some w ∧ same f.2 w = true := by
  rw [same, Bool.and_eq_true, sameFields_iff, decide_eq_true_eq]

theorem same_refl {v : Json} (h : v.Distinct) : same v v = true := by
  induction v using Json.ind with
  | array items ih =>
    rw [same, sameItems_iff]
    have hitems := distinctItems_iff.1 h
    exact List.forall₂_same.2 fun x hx => ih x hx (hitems x hx)
  | object fields ih =>
    obtain ⟨hnodup, hfields⟩ := h
    have hfields := distinctFields_iff.1 hfields
    exact same_object.2 ⟨rfl, fun f hf => ⟨f.2, lookup_of_mem hnodup hf, ih f hf (hfields f hf)⟩⟩
  | null => rfl
  | bool b => simp [same]
  | number n => simp [same]
  | string t => simp [same]

/-! ## Texts -/

mutual

/-- Every string of a value and every name of a field. -/
def strings : Json → List Text
  | .string t => [t]
  | .array items => stringsItems items
  | .object fields => stringsFields fields
  | _ => []

def stringsItems : List Json → List Text
  | [] => []
  | v :: items => strings v ++ stringsItems items

def stringsFields : List (Text × Json) → List Text
  | [] => []
  | (k, v) :: fields => k :: (strings v ++ stringsFields fields)

end

mutual

/-- Every name of a field. -/
def keys : Json → List Text
  | .array items => keysItems items
  | .object fields => keysFields fields
  | _ => []

def keysItems : List Json → List Text
  | [] => []
  | v :: items => keys v ++ keysItems items

def keysFields : List (Text × Json) → List Text
  | [] => []
  | (k, v) :: fields => k :: (keys v ++ keysFields fields)

end

section Texts
variable {P : Text → Prop} {fields : List (Text × Json)}

theorem forall_strings_array {items : List Json} :
    (∀ t ∈ (array items).strings, P t) ↔ ∀ v ∈ items, ∀ t ∈ v.strings, P t := by
  rw [strings]
  induction items with
  | nil => simp [stringsItems]
  | cons v items ih => rw [stringsItems, List.forall_mem_append, ih, List.forall_mem_cons]

theorem forall_strings_object :
    (∀ t ∈ (object fields).strings, P t) ↔ ∀ f ∈ fields, P f.1 ∧ ∀ t ∈ f.2.strings, P t := by
  rw [strings]
  induction fields with
  | nil => simp [stringsFields]
  | cons f fields ih => rw [stringsFields, List.forall_mem_cons, List.forall_mem_append, ih, List.forall_mem_cons, and_assoc]

theorem mem_keys_item {items : List Json} {v : Json} (hv : v ∈ items) {t : Text} (ht : t ∈ v.keys) :
    t ∈ (array items).keys := by
  rw [keys]
  induction items with
  | nil => cases hv
  | cons w items ih =>
    rw [keysItems, List.mem_append]
    rcases List.mem_cons.1 hv with rfl | hv
    · exact .inl ht
    · exact .inr (ih hv)

theorem mem_keys_field {f : Text × Json} (hf : f ∈ fields) :
    f.1 ∈ (object fields).keys ∧ ∀ t ∈ f.2.keys, t ∈ (object fields).keys := by
  rw [keys]
  induction fields with
  | nil => cases hf
  | cons g fields ih =>
    rw [keysFields]
    rcases List.mem_cons.1 hf with rfl | hf
    · exact ⟨List.mem_cons_self .., fun t ht => List.mem_cons_of_mem _ (List.mem_append_left _ ht)⟩
    · obtain ⟨hname, hvalue⟩ := ih hf
      exact ⟨List.mem_cons_of_mem _ (List.mem_append_right _ hname),
        fun t ht => List.mem_cons_of_mem _ (List.mem_append_right _ (hvalue t ht))⟩

theorem mem_setField {k : Text} {v : Json} {f : Text × Json} (hf : f ∈ setField fields k v) : f ∈ fields ∨ f = (k, v) := by
  induction fields with
  | nil => cases hf
  | cons g fields ih =>
    rw [setField] at hf
    split_ifs at hf with hg
    · rcases List.mem_cons.1 hf with rfl | hf
      · exact .inr (by rw [hg])
      · exact .inl (List.mem_cons_of_mem _ hf)
    · rcases List.mem_cons.1 hf with rfl | hf
      · exact .inl (List.mem_cons_self ..)
      · exact (ih hf).imp_left (List.mem_cons_of_mem _)

/-- What a field is once a key has a value. -/
theorem mem_insert {k : Text} {v : Json} {f : Text × Json} (hf : f ∈ insert fields k v) : f ∈ fields ∨ f = (k, v) := by
  unfold insert at hf
  split_ifs at hf
  · exact mem_setField hf
  · rcases List.mem_append.1 hf with hf | hf
    · exact .inl hf
    · exact .inr (List.mem_singleton.1 hf)

end Texts

end Anvil.Lib.Json
