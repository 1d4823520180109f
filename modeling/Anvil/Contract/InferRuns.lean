import Anvil.Contract.Infer

/-!
# What an inferred schema tells about its samples (`anvil-contract/src/infer.rs`)

* `Kept` : where no key looked like data every name may be rendered; `kept_addAt`, `kept_merge`, `kept_only` keep it so;
* `within_schema` : the texts of a schema are words of schemas and such names;
* `skeleton` : a value without its scalars; `addAt_skeleton` : a shape takes no more of it;
* `infer_private` : no text of the samples is in the schema but a safe name, and no scalar changes it.
-/

namespace Anvil.Contract.Infer
open Anvil.Lib Json

/-! ## Names that may be rendered -/

/-- Where no key looked like data, every name is one that may be rendered. -/
inductive Kept (K : Text → Prop) : Shape → Prop
  | intro {s : Shape} (names : s.mapLike = false → ∀ p ∈ s.properties, K p.1) (items : ∀ i, s.items = some i → Kept K i)
      (shapes : ∀ p ∈ s.properties, Kept K p.2.2) : Kept K s

section Kept
variable {K : Text → Prop}

theorem kept_default : Kept K {} :=
  .intro (fun _ p hp => (by cases hp)) (fun i hi => (by cases hi)) fun p hp => (by cases hp)

theorem Kept.getD {s : Shape} (h : Kept K s) : Kept K (s.items.getD {}) := by
  obtain ⟨-, hitems, -⟩ := h
  cases hi : s.items with
  | none => exact kept_default
  | some i => exact hitems i hi

theorem forall_mem_addFields {P : Text → Shape → Prop} {depth : Nat} {fields : List (Text × Json)} :
    ∀ {acc : Properties × Bool}, (∀ p ∈ acc.1, P p.1 p.2.2) →
    (∀ f ∈ fields, P f.1 (Shape.addAt {} depth f.2) ∧ ∀ s, P f.1 s → P f.1 (s.addAt depth f.2)) →
    ∀ p ∈ (Shape.addFields acc depth fields).1, P p.1 p.2.2 := by
  induction fields with
  | nil =>
    intro acc hacc _
    rw [Shape.addFields]
    exact hacc
  | cons f fields ih =>
    intro acc hacc hfields
    obtain ⟨⟨hfresh, hupdate⟩, hfields⟩ := List.forall_mem_cons.1 hfields
    rw [Shape.addFields]
    exact ih (forall_mem_keep hacc (fun p hp => hupdate p.2 hp) hfresh) hfields

/-- **A sample keeps it so**: a key that looks like data makes the object a map. -/
theorem kept_addAt (v : Json) : ∀ {s : Shape} {depth : Nat}, Kept K s → (∀ t ∈ v.keys, safeName t = true → K t) →
    Kept K (s.addAt depth v) := by
  induction v using Json.ind with
  | array a ih =>
    intro s depth hs hK
    have hitems : ∀ (l : List Json) (n : Nat) (i : Shape), (∀ x ∈ l, x ∈ a) → Kept K i →
        Kept K (Shape.addItems i (depth + 1) n l) := by
      intro l
      induction l with
      | nil =>
        intro n i _ hi
        cases n <;> exact hi
      | cons x l ihl =>
        intro n i hl hi
        obtain ⟨hx, hl⟩ := List.forall_mem_cons.1 hl
        cases n with
        | zero => exact hi
        | succ n => exact ihl n _ hl (ih x hx hi fun t ht => hK t (mem_keys_item hx ht))
    have hgetD := hs.getD
    obtain ⟨hnames, hold, hshapes⟩ := hs
    rw [Shape.addAt]
    split_ifs
    · exact .intro hnames hold hshapes
    · refine .intro hnames (fun i hi => ?_) hshapes
      obtain rfl := Option.some.inj hi
      exact hitems a maxItems _ (fun x hx => hx) hgetD
  | object o ih =>
    intro s depth hs hK
    obtain ⟨hnames, hold, hshapes⟩ := hs
    rw [Shape.addAt]
    split_ifs
    · exact .intro hnames hold hshapes
    · refine .intro (fun hmap => ?_) hold ?_
      · simp only [Bool.or_eq_false_iff, List.any_eq_false, Bool.not_eq_true', Bool.not_eq_false] at hmap
        refine forall_mem_addFields (P := fun k _ => K k) (hnames hmap.1) fun f hf => ?_
        have hname : K f.1 := hK f.1 (mem_keys_field hf).1 (hmap.2.1 f hf)
        exact ⟨hname, fun _ _ => hname⟩
      · refine forall_mem_addFields (P := fun _ s => Kept K s) hshapes fun f hf => ?_
        have hkeys : ∀ t ∈ f.2.keys, safeName t = true → K t := fun t ht => hK t ((mem_keys_field hf).2 t ht)
        exact ⟨ih f hf kept_default hkeys, fun s hs => ih f hf hs hkeys⟩
  | null | bool | number | string =>
    intro s depth hs _
    obtain ⟨hnames, hold, hshapes⟩ := hs
    rw [Shape.addAt]
    split_ifs <;> exact .intro hnames hold hshapes

theorem kept_merge {a b : Shape} (ha : Kept K a) (hb : Kept K b) : Kept K (a.merge b) := by
  induction b using Shape.ind generalizing a with
  | h b ihitems ihproperties =>
    have hgetD := ha.getD
    obtain ⟨hanames, haitems, hashapes⟩ := ha
    obtain ⟨hbnames, hbitems, hbshapes⟩ := hb
    refine .intro (fun hmap => ?_) (fun i hi => ?_) ?_
    · rw [Shape.mapLike_merge, Bool.or_eq_false_iff] at hmap
      exact Shape.forall_mem_merge (P := fun k _ => K k) (hanames hmap.1) (hbnames hmap.2) fun _ _ hk _ _ _ => hk
    · rw [Shape.items_merge] at hi
      cases hoi : b.items with
      | none =>
        rw [hoi] at hi
        exact haitems i hi
      | some oi =>
        rw [hoi] at hi
        obtain rfl := Option.some.inj hi
        exact ihitems oi hoi hgetD (hbitems oi hoi)
    · exact Shape.forall_mem_merge (P := fun _ s => Kept K s) hashapes hbshapes
        fun k s hs q hq hqs => ihproperties q hq hs hqs

theorem kept_values {s : Shape} (h : Kept K s) : Kept K s.values := by
  obtain ⟨-, -, hshapes⟩ := h
  have hfold : ∀ (l : Properties) (acc : Shape), (∀ p ∈ l, Kept K p.2.2) → Kept K acc →
      Kept K (l.foldl (fun acc p => acc.merge p.2.2) acc) := by
    intro l
    induction l with
    | nil => exact fun _ _ hacc => hacc
    | cons p l ih =>
      intro acc hl hacc
      obtain ⟨hp, hl⟩ := List.forall_mem_cons.1 hl
      exact ih _ hl (kept_merge hacc hp)
  exact hfold s.properties {} hshapes kept_default

theorem kept_only {s : Shape} (h : Kept K s) (t : TypeName) : Kept K (s.only t) := by
  obtain ⟨hnames, hitems, hshapes⟩ := h
  refine .intro (fun hmap p hp => ?_) (fun i hi => ?_) fun p hp => ?_
  · simp only [Shape.only] at hp hmap
    split_ifs at hp
    · exact hnames hmap p hp
    · cases hp
  · simp only [Shape.only] at hi
    split_ifs at hi
    exact hitems i hi
  · simp only [Shape.only] at hp
    split_ifs at hp
    · exact hshapes p hp
    · cases hp

end Kept

/-! ## Texts of a schema -/

def keywords : List Text :=
  ["type", "format", "properties", "required", "additionalProperties", "items", "oneOf", "anyOf", "enum", "nullable",
    "x-nullable"].map String.toList

def typeWords : List Text := "null".toList :: [TypeName.object, .array, .string, .number, .integer, .boolean].map
    TypeName.name

def formatWords : List Text := [Format.date, .dateTime, .email, .uri, .uuid].map Format.name

/-- The words that schemas are written with. -/
def words : List Text := keywords ++ typeWords ++ formatWords

/-- Every text of the value is one of `W`. -/
def Within (W : Text → Prop) (v : Json) : Prop := ∀ t ∈ v.strings, W t

section Within
variable {W : Text → Prop} {v : Json} {k : Text} {o : List (Text × Json)}

theorem within_object : Within W (.object o) ↔ ∀ f ∈ o, W f.1 ∧ Within W f.2 := forall_strings_object

theorem within_array {items : List Json} : Within W (.array items) ↔ ∀ v ∈ items, Within W v := forall_strings_array

theorem within_string {t : Text} : Within W (.string t) ↔ W t := by
  unfold Within
  rw [strings]
  exact List.forall_mem_singleton

theorem within_bool (b : Bool) : Within W (.bool b) := fun t ht => (by simp [strings] at ht)

theorem within_single {k : String} (hk : W k.toList) (hv : Within W v) : Within W (single k v) :=
  within_object.2 fun f hf => (by rw [List.mem_singleton.1 hf]; exact ⟨hk, hv⟩)

theorem within_insert (ho : Within W (.object o)) (hk : W k) (hv : Within W v) : Within W (.object (insert o k v)) := by
  refine within_object.2 fun f hf => ?_
  rcases mem_insert hf with hf | rfl
  · exact within_object.1 ho f hf
  · exact ⟨hk, hv⟩

theorem within_setField (ho : Within W (.object o)) (hk : W k) (hv : Within W v) : Within W (.object (setField o k v)) := by
  refine within_object.2 fun f hf => ?_
  rcases mem_setField hf with hf | rfl
  · exact within_object.1 ho f hf
  · exact ⟨hk, hv⟩

theorem within_lookup (ho : Within W (.object o)) (h : lookup o k = some v) : Within W v :=
  (within_object.1 ho _ (lookup_mem h)).2

theorem within_remove (ho : Within W (.object o)) : Within W (.object (Json.remove o k)) :=
  within_object.2 fun f hf => within_object.1 ho f (remove_sublist.subset hf)

theorem within_pushed {items : List Json} (hitems : Within W (.array items)) (hv : Within W v) :
    Within W (.array (pushed items v)) := by
  unfold pushed
  split_ifs
  · exact hitems
  · refine within_array.2 fun x hx => ?_
    rcases List.mem_append.1 hx with hx | hx
    · exact within_array.1 hitems x hx
    · exact List.mem_singleton.1 hx ▸ hv

theorem within_null : Within W .null := fun t ht => (by simp [strings] at ht)

section Words
variable (hwords : ∀ t ∈ words, W t)
include hwords

theorem within_constToEnum (ho : Within W (.object o)) : Within W (.object (constToEnum o)) := by
  unfold constToEnum
  split
  · rename_i c hc
    have hall : Within W (.array [c]) := within_array.2 fun x hx => List.mem_singleton.1 hx ▸ within_lookup ho hc
    have hnone : Within W (.array []) := within_array.2 fun x hx => (by cases hx)
    refine within_insert (within_remove ho) (hwords _ (by decide)) ?_
    split
    · split_ifs
      · exact hall
      · exact hnone
    · exact hall
  · exact ho

theorem within_enumNull (ho : Within W (.object o)) : Within W (.object (enumNull o)) := by
  unfold enumNull
  split
  · rename_i e he
    exact within_setField ho (hwords _ (by decide)) (within_pushed (within_lookup ho he) within_null)
  · exact ho

theorem within_typeNull (ho : Within W (.object o)) : Within W (typeNull o) := by
  have htype : W "type".toList := hwords _ (by decide)
  have hnull : Within W (.string "null".toList) := within_string.2 (hwords _ (by decide))
  have hanyOf : Within W (single "anyOf" (.array [.object o, single "type" (.string "null".toList)])) := by
    refine within_single (hwords _ (by decide)) (within_array.2 fun x hx => ?_)
    rcases List.mem_cons.1 hx with rfl | hx
    · exact ho
    · exact List.mem_singleton.1 hx ▸ within_single htype hnull
  unfold typeNull
  simp only
  split
  · rename_i t ht
    refine within_insert ho htype (within_array.2 fun x hx => ?_)
    rcases List.mem_cons.1 hx with rfl | hx
    · exact within_lookup ho ht
    · exact List.mem_singleton.1 hx ▸ hnull
  · rename_i a ha
    exact within_insert ho htype (within_pushed (within_lookup ho ha) hnull)
  · exact hanyOf
  · split_ifs
    · exact ho
    · exact hanyOf

/-- A schema that allows `null` has no new texts but words. -/
theorem within_nullableIf (hv : Within W v) (b : Bool) (d : Dialect) : Within W (Shape.nullableIf b d v) := by
  have hmark : Within W (markNullable v d) := by
    cases v with
    | object o =>
      unfold markNullable
      simp only
      split_ifs
      · exact within_typeNull hwords (within_enumNull hwords (within_constToEnum hwords hv))
      · exact within_insert (within_enumNull hwords hv) (hwords _ (by decide)) (within_bool true)
      · exact within_insert (within_enumNull hwords hv) (hwords _ (by decide)) (within_bool true)
    | _ => exact hv
  unfold Shape.nullableIf
  split_ifs
  · exact hmark
  · exact hv

theorem within_nullSchema (d : Dialect) : Within W (nullSchema d) := by
  unfold nullSchema
  split_ifs
  · exact within_single (hwords _ (by decide)) (within_string.2 (hwords _ (by decide)))
  · exact within_single (hwords _ (by decide)) (within_bool true)
  · exact within_single (hwords _ (by decide)) (within_bool true)

theorem within_typeNames (l : List TypeName) : Within W (Shape.typeNames l) := by
  have hname (t : TypeName) : Within W (.string t.name) := within_string.2 (hwords _ (by cases t <;> decide))
  unfold Shape.typeNames
  split
  · exact hname _
  · refine within_array.2 fun x hx => ?_
    obtain ⟨t, -, rfl⟩ := List.mem_map.1 hx
    exact hname t

theorem within_formatField (s : Shape) : Within W (.object s.formatField) := by
  refine within_object.2 fun f hf => ?_
  unfold Shape.formatField at hf
  split_ifs at hf
  · obtain ⟨g, -, rfl⟩ := List.mem_map.1 hf
    exact ⟨hwords "format".toList (by decide), within_string.2 (hwords _ (by cases g <;> decide))⟩
  · cases hf

omit hwords in
/-- The properties of an object, each under its name. -/
theorem within_props {l : Properties} (render : Shape → Json) (hl : ∀ p ∈ l, W p.1 ∧ Within W (render p.2.2)) :
    ∀ {o : List (Text × Json)}, Within W (.object o) →
    Within W (.object (l.foldl (fun o p => insert o p.1 (render p.2.2)) o)) := by
  induction l with
  | nil => exact fun ho => ho
  | cons p l ih =>
    intro o ho
    obtain ⟨hp, hl⟩ := List.forall_mem_cons.1 hl
    exact ih hl (within_insert ho hp.1 hp.2)

end Words
end Within

/-- **The texts of a schema** are words, and names that may be rendered. -/
theorem within_schema {K : Text → Prop} (d : Dialect) {s : Shape} (h : Kept K s) :
    Within (fun t => t ∈ words ∨ K t) (s.schema d) := by
  have hwords : ∀ t ∈ words, t ∈ words ∨ K t := fun t ht => .inl ht
  have hempty : Within (fun t => t ∈ words ∨ K t) (.object []) := within_object.2 fun f hf => (by cases hf)
  induction s using Shape.renderInd with
  | h s ihonly ihvalues ihproperties ihitems =>
  have hinner := h
  obtain ⟨hnames, hitems, hshapes⟩ := h
  rw [Shape.schema]
  split
  · split
    · exact within_nullSchema hwords d
    · exact hempty
  · split
    · rename_i hmany
      split
      · split
        · exact within_single (hwords _ (by decide)) (within_bool true)
        · exact hempty
      · refine within_nullableIf hwords (within_single (hwords _ (by decide)) (within_array.2 fun x hx => ?_)) _ d
        obtain ⟨t, -, rfl⟩ := List.mem_map.1 hx
        exact ihonly hmany.1 t (kept_only hinner t)
    · refine within_nullableIf hwords (within_object.2 fun f hf => ?_) _ d
      simp only [List.mem_cons, List.mem_append] at hf
      rcases hf with rfl | (hf | hf) | hf
      · exact ⟨hwords "type".toList (by decide), within_typeNames hwords s.types⟩
      · exact within_object.1 (within_formatField hwords s) f hf
      · split at hf
        · -- a map: one shape for every value, no names
          rw [List.mem_singleton.1 hf]
          refine ⟨hwords "additionalProperties".toList (by decide), ?_⟩
          simp only
          split
          · exact hempty
          · rename_i hvalues
            exact ihvalues hvalues (kept_values hinner)
        · rename_i hmap
          split at hf
          · rename_i hobjects
            have hprops : ∀ p ∈ s.properties, (p.1 ∈ words ∨ K p.1) ∧ Within (fun t => t ∈ words ∨ K t) (p.2.2.schema d) := by
              intro p hp
              have hplain : s.mapLike = false := by
                by_contra hne
                exact hmap ⟨hobjects, .inl (by simpa using hne)⟩
              exact ⟨.inr (hnames hplain p hp), ihproperties p hp (hshapes p hp)⟩
            rcases List.mem_cons.1 hf with rfl | hf
            · exact ⟨hwords "properties".toList (by decide), within_props (fun s => s.schema d) hprops hempty⟩
            · split at hf
              · cases hf
              · rw [List.mem_singleton.1 hf]
                refine ⟨hwords "required".toList (by decide), within_array.2 fun x hx => ?_⟩
                obtain ⟨p, hp, rfl⟩ := List.mem_map.1 hx
                exact within_string.2 (hprops p (List.mem_filter.1 hp).1).1
          · cases hf
      · split at hf
        · rw [List.mem_singleton.1 hf]
          refine ⟨hwords "items".toList (by decide), ?_⟩
          simp only
          split
          · rename_i i hi
            exact ihitems i hi (hitems i hi)
          · exact hempty
        · cases hf

/-! ## Values without their scalars -/

/-- The structure of a value: its names, the kinds of its scalars, and the formats of its strings. -/
inductive Skeleton
  | null
  | boolean
  | number (integer : Bool)
  | string (formats : List Format)
  | array (items : List Skeleton)
  | object (fields : List (Text × Skeleton))

mutual

def skeleton : Json → Skeleton
  | .null => .null
  | .bool _ => .boolean
  | .number n => .number (isInteger n)
  | .string t => .string (stringFormats t)
  | .array items => .array (skeletonItems items)
  | .object fields => .object (skeletonFields fields)

def skeletonItems : List Json → List Skeleton
  | [] => []
  | v :: items => skeleton v :: skeletonItems items

def skeletonFields : List (Text × Json) → List (Text × Skeleton)
  | [] => []
  | (k, v) :: fields => (k, skeleton v) :: skeletonFields fields

end

/-- **A shape takes no more of a value than its skeleton.** -/
theorem addAt_skeleton (v : Json) : ∀ {w : Json}, skeleton v = skeleton w → ∀ (s : Shape) (depth : Nat),
    s.addAt depth v = s.addAt depth w := by
  induction v using Json.ind with
  | array a ih =>
    intro w h s depth
    cases w with
    | array b =>
      simp only [skeleton, Skeleton.array.injEq] at h
      have hitems : ∀ (n : Nat) (s : Shape) (depth : Nat), Shape.addItems s depth n a = Shape.addItems s depth n b := by
        clear s depth
        induction a generalizing b with
        | nil =>
          cases b with
          | nil => exact fun _ _ _ => rfl
          | cons y b => simp [skeletonItems] at h
        | cons x a iha =>
          cases b with
          | nil => simp [skeletonItems] at h
          | cons y b =>
            obtain ⟨hx, ha⟩ := List.forall_mem_cons.1 ih
            obtain ⟨hxy, hab⟩ := List.cons.inj h
            intro n s depth
            cases n with
            | zero => rfl
            | succ n => rw [Shape.addItems, Shape.addItems, hx hxy, iha ha b hab]
      rw [Shape.addAt, Shape.addAt, hitems]
    | _ => simp [skeleton] at h
  | object o ih =>
    intro w h s depth
    cases w with
    | object o' =>
      simp only [skeleton, Skeleton.object.injEq] at h
      have hfields : (∀ (acc : Properties × Bool) (depth : Nat), Shape.addFields acc depth o = Shape.addFields acc depth o') ∧
          o.map Prod.fst = o'.map Prod.fst := by
        clear s depth
        induction o generalizing o' with
        | nil =>
          cases o' with
          | nil => exact ⟨fun _ _ => rfl, rfl⟩
          | cons g o' => simp [skeletonFields] at h
        | cons f o iho =>
          cases o' with
          | nil => simp [skeletonFields] at h
          | cons g o' =>
            obtain ⟨hf, ho⟩ := List.forall_mem_cons.1 ih
            obtain ⟨hfg, hoo⟩ := List.cons.inj h
            obtain ⟨hname, hvalue⟩ := Prod.mk.inj hfg
            obtain ⟨hfields, hnames⟩ := iho ho o' hoo
            refine ⟨fun acc depth => ?_, ?_⟩
            · have hadd (s : Shape) : s.addAt depth f.2 = s.addAt depth g.2 := hf hvalue s depth
              rw [Shape.addFields, Shape.addFields, hfields, hname]
              simp only [hadd]
            · rw [List.map_cons, List.map_cons, hname, hnames]
      have hdata : o.any (fun f => !safeName f.1) = o'.any (fun f => !safeName f.1) := by
        have hmap (l : List (Text × Json)) : l.any (fun f => !safeName f.1) = (l.map Prod.fst).any fun k => !safeName k := by
          rw [List.any_map]
          rfl
        rw [hmap, hmap, hfields.2]
      have hlen : o.length = o'.length := by
        have := congrArg List.length hfields.2
        rwa [List.length_map, List.length_map] at this
      rw [Shape.addAt, Shape.addAt, hfields.1, hdata, hlen]
    | _ => simp [skeleton] at h
  | null =>
    intro w h s depth
    cases w with
    | null => rfl
    | _ => simp [skeleton] at h
  | bool b =>
    intro w h s depth
    cases w with
    | bool b' => rfl
    | _ => simp [skeleton] at h
  | number n =>
    intro w h s depth
    cases w with
    | number n' =>
      simp only [skeleton, Skeleton.number.injEq] at h
      rw [Shape.addAt, Shape.addAt, h]
    | _ => simp [skeleton] at h
  | string t =>
    intro w h s depth
    cases w with
    | string t' =>
      simp only [skeleton, Skeleton.string.injEq] at h
      rw [Shape.addAt, Shape.addAt, h]
    | _ => simp [skeleton] at h

/-- **An inferred schema tells no data**: its texts are words of schemas and safe names of the samples, and samples with the
    same skeletons have the same schema. -/
theorem infer_private (samples : List Json) (d : Dialect) :
    (∀ t ∈ (infer samples d).strings, t ∈ words ∨ (safeName t = true ∧ ∃ v ∈ samples, t ∈ v.keys)) ∧
    ∀ samples', samples.map skeleton = samples'.map skeleton → infer samples d = infer samples' d := by
  refine ⟨?_, fun samples' h => ?_⟩
  · have hkept : ∀ (l : List Json) (s : Shape), (∀ v ∈ l, v ∈ samples) →
        Kept (fun t => safeName t = true ∧ ∃ v ∈ samples, t ∈ v.keys) s →
        Kept (fun t => safeName t = true ∧ ∃ v ∈ samples, t ∈ v.keys) (l.foldl Shape.add s) := by
      intro l
      induction l with
      | nil => exact fun _ _ hs => hs
      | cons v l ih =>
        intro s hl hs
        obtain ⟨hv, hl⟩ := List.forall_mem_cons.1 hl
        exact ih _ hl (kept_addAt v hs fun t ht hsafe => ⟨hsafe, v, hv, ht⟩)
    exact within_schema d (hkept samples {} (fun v hv => hv) kept_default)
  · have hadd : ∀ (l l' : List Json) (s : Shape), l.map skeleton = l'.map skeleton →
        l.foldl Shape.add s = l'.foldl Shape.add s := by
      intro l
      induction l with
      | nil =>
        intro l' s h
        rw [List.map_eq_nil_iff.1 h.symm]
      | cons v l ih =>
        intro l' s h
        cases l' with
        | nil => cases h
        | cons w l' =>
          obtain ⟨hvw, hl⟩ := List.cons.inj h
          have hstep : s.add v = s.add w := addAt_skeleton v hvw s 0
          rw [List.foldl_cons, List.foldl_cons, hstep, ih l' _ hl]
    unfold infer
    rw [hadd samples samples' {} h]

end Anvil.Contract.Infer
