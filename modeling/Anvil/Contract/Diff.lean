import Anvil.Contract.Patch
import Anvil.Lib.JsonPatch

/-!
# What turns one document into another (`anvil-contract/src/patch.rs`)

* `diffAt`, `diff` : the operations, as a patch document has them; `PatchOp.fromValue` : reading one for `apply`;
* `changes` : the operations as changes at paths; `diffAt_eq`;
* `runAll_changes` : in every way of applying changes they lead to the target;
* `applyEdit_reading` : `apply` is such a way; `diff_exact` : by `apply` as by RFC 6902.
-/

namespace Anvil.Contract.Patch
open Anvil.Lib Json

/-! ## The operations -/

def addOp (path : Text) (v : Json) : Json :=
  .object [("op".toList, .string "add".toList), ("path".toList, .string path), ("value".toList, v)]

def removeOp (path : Text) : Json := .object [("op".toList, .string "remove".toList), ("path".toList, .string path)]

def replaceOp (path : Text) (v : Json) : Json :=
  .object [("op".toList, .string "replace".toList), ("path".toList, .string path), ("value".toList, v)]

/-- The keys that only the first object has. -/
def onlyIn (x y : List (Text × Json)) : List Text := (x.map Prod.fst).filter fun k => !(lookup y k).isSome

def fieldsOf : Json → Option (List (Text × Json))
  | .object x => some x
  | _ => none

def itemsOf : Json → Option (List Json)
  | .array x => some x
  | _ => none

mutual

def diffAt (a : Json) (path : Text) : Json → List Json
  | .object y =>
    if a.same (.object y) then []
    else
      match fieldsOf a with
      | some x => (onlyIn x y).map (fun k => removeOp (path ++ '/' :: escapePtr k)) ++ diffFields x path y
      | none => [replaceOp path (.object y)]
  | .array y =>
    if a.same (.array y) then []
    else
      match itemsOf a with
      | some x =>
        if x.length < y.length ∧ sameItems x (y.take x.length) then (y.drop x.length).map (addOp (path ++ ['/', '-']))
        else [replaceOp path (.array y)]
      | none => [replaceOp path (.array y)]
  | .null => if a.same .null then [] else [replaceOp path .null]
  | .bool b => if a.same (.bool b) then [] else [replaceOp path (.bool b)]
  | .number n => if a.same (.number n) then [] else [replaceOp path (.number n)]
  | .string t => if a.same (.string t) then [] else [replaceOp path (.string t)]

def diffFields (x : List (Text × Json)) (path : Text) : List (Text × Json) → List Json
  | [] => []
  | (k, v) :: y =>
    (match lookup x k with
      | some old => diffAt old (path ++ '/' :: escapePtr k) v
      | none => [addOp (path ++ '/' :: escapePtr k) v]) ++ diffFields x path y

end

/-- RFC 6902 operations that turn `a` into `b`. -/
def diff (a b : Json) : List Json := diffAt a [] b

def PatchKind.ofName (t : Text) : Option PatchKind :=
  if t = "add".toList then some .add
  else if t = "replace".toList then some .replace
  else if t = "remove".toList then some .remove
  else if t = "union".toList then some .union
  else none

/-- The fields of a `PatchOp`; a `null` value is read as none. -/
def PatchOp.fromValue : Json → Option PatchOp
  | .object o => do
    let op ← ((lookup o "op".toList).bind asStr).bind PatchKind.ofName
    let path ← (lookup o "path".toList).bind asStr
    let value := (lookup o "value".toList).bind fun v => if v.same .null then none else some v
    some ⟨op, path, value⟩
  | _ => none

/-! ## Changes -/

mutual

/-- The operations of `diffAt`, from where it stands. -/
def changes (a : Json) : Json → List Edit
  | .object y =>
    if a.same (.object y) then []
    else
      match fieldsOf a with
      | some x => (onlyIn x y).map (fun k => .remove [k]) ++ changesFields x y
      | none => [.replace [] (.object y)]
  | .array y =>
    if a.same (.array y) then []
    else
      match itemsOf a with
      | some x =>
        if x.length < y.length ∧ sameItems x (y.take x.length) then (y.drop x.length).map (.add [['-']])
        else [.replace [] (.array y)]
      | none => [.replace [] (.array y)]
  | .null => if a.same .null then [] else [.replace [] .null]
  | .bool b => if a.same (.bool b) then [] else [.replace [] (.bool b)]
  | .number n => if a.same (.number n) then [] else [.replace [] (.number n)]
  | .string t => if a.same (.string t) then [] else [.replace [] (.string t)]

def changesFields (x : List (Text × Json)) : List (Text × Json) → List Edit
  | [] => []
  | (k, v) :: y =>
    (match lookup x k with
      | some old => (changes old v).map (Edit.below [k])
      | none => [.add [k] v]) ++ changesFields x y

end

theorem render_concat (p : List Text) (k : Text) : render (p ++ [k]) = render p ++ '/' :: escapePtr k := by
  rw [render_append]
  exact congrArg (render p ++ ·) (List.append_nil _)

theorem below_below (p q : List Text) (c : Edit) : (c.below q).below p = c.below (p ++ q) := by
  cases c <;> simp [Edit.below]

theorem toJson_replace (p : List Text) (v : Json) : replaceOp (render p) v = ((Edit.replace [] v).below p).toJson := by
  simp only [Edit.below, List.append_nil]
  rfl

theorem toJson_add (p : List Text) (k : Text) (v : Json) :
    addOp (render p ++ '/' :: escapePtr k) v = ((Edit.add [k] v).below p).toJson := by
  rw [← render_concat]
  rfl

theorem toJson_remove (p : List Text) (k : Text) :
    removeOp (render p ++ '/' :: escapePtr k) = ((Edit.remove [k]).below p).toJson := by
  rw [← render_concat]
  rfl

/-- Replacing a value is a change at the path so far. -/
theorem replaced_eq (a b : Json) (p : List Text) :
    (if a.same b then [] else [replaceOp (render p) b]) =
      (if a.same b then [] else [Edit.replace [] b]).map fun c => (c.below p).toJson := by
  split_ifs
  · rfl
  · exact congrArg (· :: []) (toJson_replace p b)

/-- **Each operation is a change** at the path so far. -/
theorem diffAt_eq (b : Json) : ∀ (a : Json) (p : List Text),
    diffAt a (render p) b = (changes a b).map fun c => (c.below p).toJson := by
  induction b using Json.ind with
  | object y ih =>
    intro a p
    have hfields (x : List (Text × Json)) :
        diffFields x (render p) y = (changesFields x y).map fun c => (c.below p).toJson := by
      induction y with
      | nil => rw [diffFields, changesFields, List.map_nil]
      | cons f y ihy =>
        obtain ⟨hf, hy⟩ := List.forall_mem_cons.1 ih
        rw [diffFields, changesFields, List.map_append, ihy hy]
        congr 1
        cases lookup x f.1 with
        | none => exact congrArg (· :: []) (toJson_add p f.1 f.2)
        | some old =>
          simp only
          rw [← render_concat, hf, List.map_map]
          exact List.map_congr_left fun c _ => congrArg Edit.toJson (below_below p [f.1] c).symm
    rw [diffAt, changes]
    split_ifs
    · rfl
    · cases fieldsOf a with
      | some x =>
        simp only
        rw [List.map_append, hfields, List.map_map]
        congr 1
        exact List.map_congr_left fun k _ => toJson_remove p k
      | none => exact congrArg (· :: []) (toJson_replace p _)
  | array y ih =>
    intro a p
    rw [diffAt, changes]
    split_ifs
    · rfl
    · cases itemsOf a with
      | some x =>
        simp only
        split_ifs
        · rw [List.map_map]
          exact List.map_congr_left fun v _ => toJson_add p ['-'] v
        · exact congrArg (· :: []) (toJson_replace p _)
      | none => exact congrArg (· :: []) (toJson_replace p _)
  | null => exact fun a p => replaced_eq a .null p
  | bool b => exact fun a p => replaced_eq a (.bool b) p
  | number n => exact fun a p => replaced_eq a (.number n) p
  | string t => exact fun a p => replaced_eq a (.string t) p

/-- Changes of members say what to do wherever they are. -/
theorem changes_inside (b : Json) : ∀ (a : Json), ∀ c ∈ changes a b, c.Inside := by
  have hreplaced (a b : Json) : ∀ c ∈ (if a.same b then [] else [Edit.replace [] b]), c.Inside := by
    intro c hc
    split_ifs at hc
    · cases hc
    · rw [List.mem_singleton.1 hc]
      trivial
  have hreplace (b : Json) : ∀ c ∈ [Edit.replace [] b], c.Inside := fun c hc => (by rw [List.mem_singleton.1 hc]; trivial)
  induction b using Json.ind with
  | object y ih =>
    have hfields (x : List (Text × Json)) : ∀ c ∈ changesFields x y, c.Inside := by
      induction y with
      | nil => exact fun c hc => (by rw [changesFields] at hc; cases hc)
      | cons f y ihy =>
        intro c hc
        obtain ⟨hf, hy⟩ := List.forall_mem_cons.1 ih
        rw [changesFields, List.mem_append] at hc
        rcases hc with hc | hc
        · cases hlookup : lookup x f.1 with
          | none =>
            simp only [hlookup] at hc
            rw [List.mem_singleton.1 hc]
            exact List.cons_ne_nil _ _
          | some old =>
            simp only [hlookup] at hc
            obtain ⟨c, hmem, rfl⟩ := List.mem_map.1 hc
            exact Edit.inside_below [f.1] (hf old c hmem)
        · exact ihy hy c hc
    intro a c hc
    rw [changes] at hc
    split_ifs at hc
    · cases hc
    · cases hx : fieldsOf a with
      | some x =>
        simp only [hx] at hc
        rcases List.mem_append.1 hc with hc | hc
        · obtain ⟨k, -, rfl⟩ := List.mem_map.1 hc
          exact List.cons_ne_nil _ _
        · exact hfields x c hc
      | none =>
        simp only [hx] at hc
        exact hreplace _ c hc
  | array y ih =>
    intro a c hc
    rw [changes] at hc
    split_ifs at hc
    · cases hc
    · cases hx : itemsOf a with
      | some x =>
        simp only [hx] at hc
        split_ifs at hc
        · obtain ⟨v, -, rfl⟩ := List.mem_map.1 hc
          exact List.cons_ne_nil _ _
        · exact hreplace _ c hc
      | none =>
        simp only [hx] at hc
        exact hreplace _ c hc
  | null => exact fun a => hreplaced a .null
  | bool b => exact fun a => hreplaced a (.bool b)
  | number n => exact fun a => hreplaced a (.number n)
  | string t => exact fun a => hreplaced a (.string t)

/-! ## Applying the changes -/

section Applying
variable {run : Json → Edit → Option Json}

/-- Members are removed one after another. -/
theorem runAll_removes (hrun : Reading run) {ks : List Text} : ∀ {o : List (Text × Json)}, ks.Nodup →
    (o.map Prod.fst).Nodup → (∀ k ∈ ks, (lookup o k).isSome) →
    ∃ o', runAll run (.object o) (ks.map fun k => .remove [k]) = some (.object o') ∧ (o'.map Prod.fst).Nodup ∧
      ∀ k, lookup o' k = if k ∈ ks then none else lookup o k := by
  induction ks with
  | nil => exact fun {o} _ ho _ => ⟨o, rfl, ho, fun k => (if_neg List.not_mem_nil).symm⟩
  | cons k ks ih =>
    intro o hks ho hsome
    obtain ⟨hk, hks⟩ := List.nodup_cons.1 hks
    obtain ⟨hfirst, hrest⟩ := List.forall_mem_cons.1 hsome
    have hstill : ∀ k' ∈ ks, (lookup (Json.remove o k) k').isSome := by
      intro k' hk'
      rw [lookup_remove ho, if_neg (fun h : k' = k => hk (h ▸ hk'))]
      exact hrest k' hk'
    obtain ⟨o', hruns, ho', hlookup⟩ := ih hks (ho.sublist (remove_sublist.map _)) hstill
    refine ⟨o', ?_, ho', fun k' => ?_⟩
    · rw [List.map_cons, runAll, hrun.remove hfirst]
      exact hruns
    · rw [hlookup, lookup_remove ho]
      by_cases hk' : k' = k
      · simp [hk']
      · simp [hk']

/-- Members are added and changed one after another. -/
theorem runAll_fields (hrun : Reading run) (x : List (Text × Json)) {y : List (Text × Json)} : (y.map Prod.fst).Nodup →
    (∀ f ∈ y, f.2.Distinct ∧ ∀ old, lookup x f.1 = some old →
      ∃ r, runAll run old (changes old f.2) = some r ∧ r.same f.2 = true) →
    ∀ {o : List (Text × Json)}, (o.map Prod.fst).Nodup → (∀ f ∈ y, lookup o f.1 = lookup x f.1) →
    ∃ o', runAll run (.object o) (changesFields x y) = some (.object o') ∧ (o'.map Prod.fst).Nodup ∧
      (∀ f ∈ y, ∃ r, lookup o' f.1 = some r ∧ r.same f.2 = true) ∧ ∀ k ∉ y.map Prod.fst, lookup o' k = lookup o k := by
  induction y with
  | nil =>
    intro _ _ o ho _
    refine ⟨o, ?_, ho, fun f hf => (by cases hf), fun _ _ => rfl⟩
    rw [changesFields, runAll]
  | cons f y ih =>
    intro hy hvalues o ho hsame
    rw [List.map_cons, List.nodup_cons] at hy
    obtain ⟨⟨hdistinct, hchange⟩, hvalues⟩ := List.forall_mem_cons.1 hvalues
    obtain ⟨hfirst, hrest⟩ := List.forall_mem_cons.1 hsame
    -- the member is now the value, and the others are what they were
    obtain ⟨o₁, hone, ho₁, r, hr, hrsame, hothers⟩ : ∃ o₁, runAll run (.object o) (match lookup x f.1 with
          | some old => (changes old f.2).map (Edit.below [f.1])
          | none => [.add [f.1] f.2]) = some (.object o₁) ∧ (o₁.map Prod.fst).Nodup ∧
        ∃ r, lookup o₁ f.1 = some r ∧ r.same f.2 = true ∧ ∀ k ≠ f.1, lookup o₁ k = lookup o k := by
      cases hx : lookup x f.1 with
      | none =>
        rw [hx] at hfirst
        have hlookup (k : Text) : lookup (o ++ [(f.1, f.2)]) k = if k = f.1 then some f.2 else lookup o k := by
          rw [← insert_of_none hfirst, lookup_insert]
        refine ⟨o ++ [(f.1, f.2)], ?_, ?_, f.2, (hlookup f.1).trans (if_pos rfl), same_refl hdistinct,
          fun k hk => (hlookup k).trans (if_neg hk)⟩
        · simp only [runAll, hrun.add hfirst, Option.bind_some]
        · rw [List.map_append, List.nodup_append]
          refine ⟨ho, List.nodup_singleton _, fun k hk k' hk' => ?_⟩
          rw [List.map_singleton, List.mem_singleton] at hk'
          rintro rfl
          exact Json.lookup_eq_none.1 hfirst (hk' ▸ hk)
      | some old =>
        rw [hx] at hfirst
        obtain ⟨r, hruns, hrsame⟩ := hchange old hx
        refine ⟨setField o f.1 r, ?_, ?_, r, ?_, hrsame, fun k hk => ?_⟩
        · simp only [runAll_under hrun (changes_inside f.2 old) hfirst, hruns, Option.map_some]
        · rw [map_fst_setField]
          exact ho
        · rw [lookup_setField, if_pos rfl, hfirst]
          rfl
        · rw [lookup_setField, if_neg hk]
    have hrest₁ : ∀ g ∈ y, lookup o₁ g.1 = lookup x g.1 := by
      intro g hg
      have hne : g.1 ≠ f.1 := fun h => hy.1 (h ▸ List.mem_map_of_mem hg)
      rw [hothers g.1 hne]
      exact hrest g hg
    obtain ⟨o', hruns, ho', hdone, hleft⟩ := ih hy.2 hvalues ho₁ hrest₁
    refine ⟨o', ?_, ho', List.forall_mem_cons.2 ⟨⟨r, (hleft f.1 hy.1).trans hr, hrsame⟩, hdone⟩, fun k hk => ?_⟩
    · rw [changesFields, runAll_append, hone]
      exact hruns
    · rw [List.map_cons, List.mem_cons, not_or] at hk
      rw [hleft k hk.2, hothers k hk.1]

/-- Items are added at the end one after another. -/
theorem runAll_appends (hrun : Reading run) (vs : List Json) : ∀ x : List Json,
    runAll run (.array x) (vs.map (.add [['-']])) = some (.array (x ++ vs)) := by
  induction vs with
  | nil => exact fun x => (by rw [List.append_nil]; rfl)
  | cons v vs ih =>
    intro x
    rw [List.map_cons, runAll, hrun.append, Option.bind_some, ih, List.append_assoc, List.singleton_append]

/-- Objects with the same keys and the same values are equal. -/
theorem same_of_lookup {o y : List (Text × Json)} (ho : (o.map Prod.fst).Nodup) (hy : (y.map Prod.fst).Nodup)
    (hvalues : ∀ f ∈ y, ∃ r, lookup o f.1 = some r ∧ r.same f.2 = true) (hkeys : ∀ k ∉ y.map Prod.fst, lookup o k = none) :
    same (.object o) (.object y) = true := by
  have hoy : o.map Prod.fst ⊆ y.map Prod.fst := fun k hk => by
    by_contra hne
    exact Json.lookup_eq_none.1 (hkeys k hne) hk
  have hyo : y.map Prod.fst ⊆ o.map Prod.fst := fun k hk => by
    obtain ⟨f, hf, rfl⟩ := List.mem_map.1 hk
    obtain ⟨r, hr, -⟩ := hvalues f hf
    exact List.mem_map.2 ⟨(f.1, r), lookup_mem hr, rfl⟩
  have hlen := le_antisymm (List.subperm_of_subset ho hoy).length_le (List.subperm_of_subset hy hyo).length_le
  rw [List.length_map, List.length_map] at hlen
  refine same_object.2 ⟨hlen, fun g hg => ?_⟩
  obtain ⟨f, hf, hfg⟩ := List.mem_map.1 (hoy (List.mem_map_of_mem hg))
  obtain ⟨r, hr, hsame⟩ := hvalues f hf
  rw [hfg, Json.lookup_of_mem ho hg] at hr
  obtain rfl := Option.some.inj hr
  exact ⟨f.2, hfg ▸ Json.lookup_of_mem hy hf, hsame⟩

/-- **The changes lead to the target**, in every way of applying them. -/
theorem runAll_changes (hrun : Reading run) (b : Json) : ∀ a : Json, a.Distinct → b.Distinct →
    ∃ r, runAll run a (changes a b) = some r ∧ r.same b = true := by
  have hreplace (a : Json) {b : Json} (hb : b.Distinct) : ∃ r, runAll run a [.replace [] b] = some r ∧ r.same b = true := by
    refine ⟨b, ?_, same_refl hb⟩
    simp only [runAll, hrun.replace, Option.bind_some]
  have hreplaced (a : Json) {b : Json} (hb : b.Distinct) :
      ∃ r, runAll run a (if a.same b then [] else [.replace [] b]) = some r ∧ r.same b = true := by
    split_ifs with hsame
    · exact ⟨a, rfl, hsame⟩
    · exact hreplace a hb
  induction b using Json.ind with
  | object y ih =>
    intro a ha hb
    rw [changes]
    split_ifs with hsame
    · exact ⟨a, rfl, hsame⟩
    · cases a with
      | object x =>
        have hx := distinctFields_iff.1 ha.2
        have hy := distinctFields_iff.1 hb.2
        have hchosen : ∀ k ∈ onlyIn x y, (lookup x k).isSome := by
          intro k hk
          have hmem := (List.mem_filter.1 hk).1
          by_contra hnone
          rw [Bool.not_eq_true, Option.isSome_eq_false_iff, Option.isNone_iff_eq_none] at hnone
          exact Json.lookup_eq_none.1 hnone hmem
        have hnodup : (onlyIn x y).Nodup := ha.1.filter _
        obtain ⟨o, hremoved, ho, hlookup⟩ := runAll_removes hrun hnodup ha.1 hchosen
        have hkept : ∀ f ∈ y, lookup o f.1 = lookup x f.1 := by
          intro f hf
          rw [hlookup, if_neg]
          intro hmem
          have hnone := (List.mem_filter.1 hmem).2
          rw [Json.lookup_of_mem hb.1 hf] at hnone
          cases hnone
        obtain ⟨o', hruns, ho', hdone, hleft⟩ := runAll_fields hrun x hb.1
          (fun f hf => ⟨hy f hf, fun old hold => ih f hf old (hx _ (lookup_mem hold)) (hy f hf)⟩) ho hkept
        refine ⟨.object o', ?_, same_of_lookup ho' hb.1 hdone fun k hk => ?_⟩
        · simp only [fieldsOf]
          rw [runAll_append, hremoved]
          exact hruns
        · rw [hleft k hk, hlookup]
          split_ifs with hmem
          · rfl
          · by_contra hne
            have hin : k ∈ x.map Prod.fst := by
              by_contra hnot
              exact hne (Json.lookup_eq_none.2 hnot)
            exact hmem (List.mem_filter.2 ⟨hin, by rw [Json.lookup_eq_none.2 hk]; rfl⟩)
      | _ => exact hreplace _ hb
  | array y ih =>
    intro a ha hb
    rw [changes]
    split_ifs with hsame
    · exact ⟨a, rfl, hsame⟩
    · cases a with
      | array x =>
        simp only [itemsOf]
        split_ifs with happended
        · refine ⟨.array (x ++ y.drop x.length), runAll_appends hrun _ x, ?_⟩
          have hy := distinctItems_iff.1 hb
          have hkept := sameItems_iff.1 happended.2
          have hnew : List.Forall₂ (fun v w => same v w = true) (y.drop x.length) (y.drop x.length) :=
            List.forall₂_same.2 fun v hv => same_refl (hy v (List.mem_of_mem_drop hv))
          have hall : List.Forall₂ (fun v w => same v w = true) (x ++ y.drop x.length)
              (y.take x.length ++ y.drop x.length) := List.rel_append hkept hnew
          rw [List.take_append_drop] at hall
          exact sameItems_iff.2 hall
        · exact hreplace _ hb
      | _ => exact hreplace _ hb
  | null => exact fun a _ hb => hreplaced a hb
  | bool b => exact fun a _ hb => hreplaced a hb
  | number n => exact fun a _ hb => hreplaced a hb
  | string t => exact fun a _ hb => hreplaced a hb

end Applying

/-! ## By `apply` -/

theorem patchTokens_render (p : List Text) : tokens (render p) = p := by
  cases p with
  | nil => rfl
  | cons t p =>
    have h := tokens_render (t :: p)
    rw [show render (t :: p) = '/' :: (escapePtr t ++ render p) by simp [render]] at h ⊢
    simp only [Json.tokens, Option.some.injEq] at h
    rw [Patch.tokens, ← List.nil_append ('/' :: _), List.splitOn_append_cons_self_of_not_mem List.not_mem_nil]
    exact h

/-- A change as an operation for `apply`. -/
def opFor : Edit → PatchOp
  | .add path v => ⟨.add, render path, if v.same .null then none else some v⟩
  | .remove path => ⟨.remove, render path, none⟩
  | .replace path v => ⟨.replace, render path, if v.same .null then none else some v⟩

/-- A change by `apply`, where it does not fail. -/
def applyEdit (v : Json) (c : Edit) : Option Json :=
  if (applyOp v (opFor c)).2 = 0 then some (applyOp v (opFor c)).1 else none

theorem fromValue_toJson (c : Edit) : PatchOp.fromValue c.toJson = some (opFor c) := by
  have hpath : "op".toList ≠ "path".toList := by decide
  have hvalue : "op".toList ≠ "value".toList := by decide
  have hvalue' : "path".toList ≠ "value".toList := by decide
  cases c with
  | add path v =>
    simp only [Edit.toJson, PatchOp.fromValue, lookup_cons, asStr, if_true, if_neg hpath, if_neg hvalue, if_neg hvalue',
      Option.bind_some]
    rfl
  | remove path =>
    simp only [Edit.toJson, PatchOp.fromValue, lookup_cons, asStr, if_true, if_neg hpath, if_neg hvalue, if_neg hvalue',
      Option.bind_some]
    rfl
  | replace path v =>
    simp only [Edit.toJson, PatchOp.fromValue, lookup_cons, asStr, if_true, if_neg hpath, if_neg hvalue, if_neg hvalue',
      Option.bind_some]
    rfl

/-- A value that is read as none is `null`. -/
theorem getD_value (v : Json) : (if v.same .null then none else some v : Option Json).getD .null = v := by
  cases v <;> rfl

theorem applyOp_concat (op : PatchOp) {p : List Text} {last : Text} (h : op.path = render (p ++ [last])) (doc : Json) :
    applyOp doc op = walk op last doc p := by
  unfold applyOp
  rw [h, patchTokens_render]
  simp only [List.getLast?_concat, List.dropLast_concat]

/-- An operation at a member of the document itself. -/
theorem applyOp_single (op : PatchOp) {k : Text} (h : op.path = render [k]) (doc : Json) :
    applyOp doc op = edit op k doc := by
  rw [applyOp_concat op (p := []) h]
  unfold walk
  split_ifs <;> simp only [walkExisting, walkTo]

/-- The operation of a change inside a member is that of the change, on the member. -/
theorem applyOp_below {o : List (Text × Json)} {k : Text} {c : Json} (h : lookup o k = some c) {ch : Edit}
    (hch : ch.Inside) : applyOp (.object o) (opFor (ch.below [k])) =
      (.object (setField o k (applyOp c (opFor ch)).1), (applyOp c (opFor ch)).2) := by
  have hchild : childAt (.object o) k = some c := h
  cases ch with
  | add path v =>
    obtain ⟨path, last, rfl⟩ := (List.eq_nil_or_concat path).resolve_left hch
    rw [List.concat_eq_append]
    rw [applyOp_concat (opFor (.add (path ++ [last]) v)) rfl,
      applyOp_concat (opFor ((Edit.add (path ++ [last]) v).below [k])) (p := k :: path) rfl, walk_some _ _ hchild]
    rfl
  | remove path =>
    obtain ⟨path, last, rfl⟩ := (List.eq_nil_or_concat path).resolve_left hch
    rw [List.concat_eq_append]
    rw [applyOp_concat (opFor (.remove (path ++ [last]))) rfl,
      applyOp_concat (opFor ((Edit.remove (path ++ [last])).below [k])) (p := k :: path) rfl, walk_some _ _ hchild]
    rfl
  | replace path v =>
    rcases List.eq_nil_or_concat path with rfl | ⟨path, last, rfl⟩
    · rw [applyOp_single (opFor ((Edit.replace [] v).below [k])) rfl]
      simp only [opFor, Edit.below, edit]
      rw [insert_of_some h]
      rfl
    · rw [List.concat_eq_append]
      rw [applyOp_concat (opFor (.replace (path ++ [last]) v)) rfl,
        applyOp_concat (opFor ((Edit.replace (path ++ [last]) v).below [k])) (p := k :: path) rfl,
        walk_some _ _ hchild]
      rfl

/-- **`apply` is such a way.** -/
theorem applyEdit_reading : Reading applyEdit where
  replace v w := by
    have h : applyOp v (opFor (.replace [] w)) = ((if w.same .null then none else some w : Option Json).getD .null, 0) := rfl
    unfold applyEdit
    rw [h, getD_value]
    rfl
  add {o k} h w := by
    unfold applyEdit
    rw [applyOp_single (opFor (.add [k] w)) rfl]
    simp only [opFor, edit, h, getD_value, if_true]
  append a w := by
    unfold applyEdit
    rw [applyOp_single (opFor (.add [['-']] w)) rfl]
    simp only [opFor, edit, getD_value, if_true]
  remove {o k} h := by
    unfold applyEdit
    rw [applyOp_single (opFor (.remove [k])) rfl]
    simp only [opFor, edit, h, if_true]
  under {o k c} h ch hch := by
    unfold applyEdit
    rw [applyOp_below h hch]
    split_ifs <;> rfl

/-- Changes that `apply` makes one by one are made by `apply`, and none fails. -/
theorem apply_of_runAll {cs : List Edit} :
    ∀ {v r : Json}, runAll applyEdit v cs = some r → apply v (cs.map opFor) = (r, 0) := by
  induction cs with
  | nil =>
    intro v r h
    rw [← Option.some.inj h]
    rfl
  | cons c cs ih =>
    intro v r h
    obtain ⟨w, hw, h⟩ := Option.bind_eq_some_iff.1 h
    unfold applyEdit at hw
    split_ifs at hw with hzero
    obtain ⟨hdoc, hfailed⟩ := apply_cons v (opFor c) (cs.map opFor)
    obtain rfl := Option.some.inj hw
    rw [ih h] at hdoc hfailed
    rw [List.map_cons]
    exact Prod.ext hdoc (by rw [hfailed, hzero, Nat.zero_add])

theorem mapM_toJson {α : Type} {f : Json → Option α} {g : Edit → α} (h : ∀ c, f c.toJson = some (g c)) (cs : List Edit) :
    (cs.map Edit.toJson).mapM f = some (cs.map g) := by
  induction cs with
  | nil => rfl
  | cons c cs ih =>
    rw [List.map_cons, List.mapM_cons, h, ih]
    rfl

/-- **What `diff` gives turns one value into the other**, by `apply` as by RFC 6902. -/
theorem diff_exact {a b : Json} (ha : a.Distinct) (hb : b.Distinct) :
    (∃ ops r, (diff a b).mapM PatchOp.fromValue = some ops ∧ apply a ops = (r, 0) ∧ r.same b = true) ∧
    ∃ cs r, (diff a b).mapM Edit.ofJson = some cs ∧ runAll Edit.run a cs = some r ∧ r.same b = true := by
  have hdiff : diff a b = (changes a b).map Edit.toJson := by
    have h := diffAt_eq b a []
    have hbelow : ∀ c : Edit, c.below [] = c := fun c => (by cases c <;> rfl)
    simp only [hbelow] at h
    exact h
  rw [hdiff]
  refine ⟨?_, ?_⟩
  · obtain ⟨r, hruns, hsame⟩ := runAll_changes applyEdit_reading b a ha hb
    exact ⟨_, r, mapM_toJson fromValue_toJson _, apply_of_runAll hruns, hsame⟩
  · obtain ⟨r, hruns, hsame⟩ := runAll_changes Edit.run_reading b a ha hb
    exact ⟨_, r, mapM_toJson Edit.ofJson_toJson _, (by rw [List.map_id']; exact hruns), hsame⟩

/-- A key with a slash is removed, one of `-` is changed, and a list grows. -/
theorem diff_exact_keys :
    let a : Json := .object [(['a', '/', '~'], .null), (['-'], .bool true), (['0'], .array [])]
    let b : Json := .object [(['0'], .array [.null]), (['-'], .null)]
    (∃ ops r, (diff a b).mapM PatchOp.fromValue = some ops ∧ apply a ops = (r, 0) ∧ r.same b = true) ∧
    ∃ cs r, (diff a b).mapM Edit.ofJson = some cs ∧ runAll Edit.run a cs = some r ∧ r.same b = true :=
  diff_exact (by simp [Distinct, DistinctFields, DistinctItems]) (by simp [Distinct, DistinctFields, DistinctItems])

end Anvil.Contract.Patch
