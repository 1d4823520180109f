import Anvil.Portability.Sanitize

/-!
# Sanitizing and restoring

* `Restores` : putting the extracted values back turns the sanitized part of a value into the original one, wherever it
  stands; `walk_restores` : the walk;
* `held` : what a field holds when its turn comes; `Misnamed`, `restore_error_iff` : which lists are refused.
-/

namespace Anvil.Portability
open Anvil.Lib Anvil.Lib.Json

/-! ## One value goes back -/

section Restore
variable {root v v' : Json} {p q : List Text} {ex ex' : List Extracted}

theorem restoreOne_ok_iff {e : Extracted} {r : Json} : restoreOne root e = .ok r ↔
    ∃ p, tokens e.pointer = some p ∧ root.text p = some (placeholderText e.placeholder) ∧
      r = root.put p (.string e.value) := by
  unfold restoreOne Json.pointer Json.text
  cases hp : tokens e.pointer with
  | none => simp
  | some p =>
    simp only [Option.bind_some, Option.some.injEq, exists_eq_left', Option.getD_some]
    cases hg : root.get p with
    | none => simp
    | some w =>
      cases w with
      | string slot =>
        by_cases hs : slot = placeholderText e.placeholder
        · simp [hs, asStr, eq_comm]
        · simp [hs, asStr]
      | _ => simp [asStr]

theorem restoreOne_render {ph value : Text} (h : root.text q = some (placeholderText ph)) :
    restoreOne root ⟨render q, ph, value⟩ = .ok (root.put q (.string value)) :=
  restoreOne_ok_iff.2 ⟨q, tokens_render q, h, rfl⟩

/-- Wherever `v'` stands, at the path `p`, the values of `ex` turn it into `v`. -/
def Restores (v' : Json) (ex : List Extracted) (v : Json) (p : List Text) : Prop :=
  ∀ root : Json, root.get p = some v' → runOps restoreOne root ex = .ok (root.put p v)

theorem restores_nil (v : Json) (p : List Text) : Restores v [] v p := by
  intro root h
  rw [runOps_nil, put_get h]

/-- One value goes back to a field of `v'`. -/
theorem restores_one {ph value : Text} (hslot : v'.text q = some (placeholderText ph)) (hput : v'.put q (.string value) = v) :
    Restores v' [⟨render (p ++ q), ph, value⟩] v p := by
  intro root h
  have htext : root.text (p ++ q) = some (placeholderText ph) := by
    unfold Json.text
    rw [get_append, h]
    exact hslot
  rw [runOps_cons_ok (restoreOne_render htext), runOps_nil, put_append h, hput]

end Restore

/-! ## The shapes -/

section Shapes
variable {fields : List (Text × Json)} {p : List Text}

theorem render_value (p : List Text) : render p ++ "/value".toList = render (p ++ [valueKey]) := by
  rw [render_append]
  rfl

theorem render_value_value (p : List Text) : render p ++ "/value/value".toList = render (p ++ [valueKey, valueKey]) := by
  rw [render_append]
  rfl

theorem render_field (p : List Text) (k : Text) : render p ++ '/' :: escapePtr k = render (p ++ [k]) := by
  rw [render_append]
  simp [render]

theorem render_index (p : List Text) (i : Nat) :
    render p ++ '/' :: Nat.toDigits 10 i = render (p ++ [Nat.toDigits 10 i]) := by
  rw [← render_field, escapePtr_toDigits]

theorem placeholderName_ne_nil (hint : Text) : (placeholderName hint).isEmpty = false := by
  unfold placeholderName
  dsimp only
  split_ifs
  · rfl
  · rfl

theorem placeholderText_name (hint : Text) :
    placeholderText (placeholderName hint) = opening ++ placeholderName hint ++ closing := by
  unfold placeholderText
  rw [placeholderName_ne_nil]
  rfl

theorem strField_eq_some {k t : Text} : strField fields k = some t ↔ lookup fields k = some (.string t) := by
  unfold strField
  cases h : lookup fields k with
  | none => simp
  | some v =>
    cases v with
    | _ => simp [asStr]

theorem restores_extractValue {hint value : Text} (h : strField fields valueKey = some value) :
    Restores (extractValue fields (render p) (placeholderName hint) value).1
      (extractValue fields (render p) (placeholderName hint) value).2.extracted (.object fields) p := by
  have hlook := strField_eq_some.1 h
  unfold extractValue
  rw [render_value]
  refine restores_one ?_ ?_
  · simp [Json.text, Json.get, child, lookup_setField, hlook, asStr, placeholderText_name]
  · simp [Json.put, child, putChild, lookup_setField, hlook, setField_setField, setField_lookup hlook]

theorem template_value (h : isTemplate fields = true) : ∃ t, strField fields valueKey = some t := by
  simp only [isTemplate, Bool.and_eq_true] at h
  obtain ⟨v, hv, hs⟩ := (Option.any_eq_true _ _).1 h.2
  cases v with
  | string t => exact ⟨t, strField_eq_some.2 hv⟩
  | _ => cases hs

theorem keyValue_value (h : isKeyValue fields = true) : ∃ t, strField fields valueKey = some t := by
  simp only [isKeyValue, Bool.and_eq_true] at h
  obtain ⟨v, hv, hs⟩ := (Option.any_eq_true _ _).1 h.1.2
  cases v with
  | string t => exact ⟨t, strField_eq_some.2 hv⟩
  | _ => cases hs

theorem variable_value (h : isVariable fields = true) : ∃ val, lookup fields valueKey = some (.object val) := by
  simp only [isVariable, Bool.and_eq_true] at h
  obtain ⟨v, hv, hs⟩ := (Option.any_eq_true _ _).1 h.2
  cases v with
  | object val => exact ⟨val, hv⟩
  | _ => cases hs

theorem walkTemplate_restores (h : isTemplate fields = true) (key : Text) :
    Restores (walkTemplate fields (render p) key).1 (walkTemplate fields (render p) key).2.extracted (.object fields) p := by
  obtain ⟨t, ht⟩ := template_value h
  unfold walkTemplate
  rw [ht]
  dsimp only [Option.getD_some]
  split_ifs
  · exact restores_nil _ _
  · exact restores_extractValue ht

theorem nil_isPureReference : isPureReference [] = true := rfl

theorem walkVariable_restores [CredentialPatterns] :
    Restores (walkVariable fields (render p)).1 (walkVariable fields (render p)).2.extracted (.object fields) p := by
  unfold walkVariable
  dsimp only
  split
  · rename_i val hval
    split_ifs with h
    · -- The text is not empty, so the template does hold it.
      simp only [Bool.and_eq_true, Bool.not_eq_true'] at h
      cases ht : (val.child valueKey).bind asStr with
      | none => simp [ht, nil_isPureReference] at h
      | some t =>
        obtain ⟨w, hw, hws⟩ := Option.bind_eq_some_iff.1 ht
        cases w with
        | string t' =>
          cases hws
          rw [render_value_value]
          refine restores_one ?_ ?_
          · have hlook : (Json.object (setField fields valueKey (val.putChild valueKey (.string [])))).child valueKey =
                some (val.putChild valueKey (.string [])) := by
              simp [child, lookup_setField, hval]
            rw [Json.text, Json.get, hlook, Option.bind_some, Json.get, child_putChild hw]
            rfl
          · have hput : ∀ w : Json, (Json.object (setField fields valueKey w)).put [valueKey] val = .object fields := by
              intro w
              simp [Json.put, child, putChild, lookup_setField, hval, setField_setField, setField_lookup hval]
            have hinner : (val.putChild valueKey (.string [])).put [valueKey] (.string t) = val := by
              rw [Json.put, child_putChild hw]
              simp only [Json.put, putChild_putChild, putChild_child hw]
            have hget : (Json.object (setField fields valueKey (val.putChild valueKey (.string [])))).get [valueKey] =
                some (val.putChild valueKey (.string [])) := by
              simp [Json.get, child, lookup_setField, hval]
            rw [show [valueKey, valueKey] = [valueKey] ++ [valueKey] from rfl, put_append hget, Option.getD_some,
              hinner, hput]
        | _ => cases hws
    · exact restores_nil _ _
    · exact restores_nil _ _
  · exact restores_nil _ _

theorem walkKeyValue_restores [CredentialPatterns] (h : isKeyValue fields = true) :
    Restores (walkKeyValue fields (render p)).1 (walkKeyValue fields (render p)).2.extracted (.object fields) p := by
  obtain ⟨t, ht⟩ := keyValue_value h
  unfold walkKeyValue
  rw [ht]
  dsimp only [Option.getD_some]
  split_ifs
  · exact restores_extractValue ht
  · split
    · exact restores_nil _ _
    · exact restores_nil _ _

end Shapes

/-! ## The walk -/

section Walk
variable [CredentialPatterns] {p : List Text}

/-- A field of an object that the walk goes into. -/
def walkField (v : Json) (ptr k : Text) : Json × Sanitized :=
  match asStr v with
  | some text => (v, scanText ptr k text)
  | none => walk v ptr k

theorem walkFields_cons (k : Text) (v : Json) (fields : List (Text × Json)) :
    walkFields ((k, v) :: fields) (render p) =
      ((k, (walkField v (render (p ++ [k])) k).1) :: (walkFields fields (render p)).1,
        (walkField v (render (p ++ [k])) k).2.append (walkFields fields (render p)).2) := by
  rw [walkFields, render_field]
  rfl

theorem scanText_extracted (ptr k text : Text) : (scanText ptr k text).extracted = [] := by
  unfold scanText
  split_ifs
  · split <;> rfl
  · rfl

theorem walkField_restores {v : Json} {k : Text} (h : Restores (walk v (render p) k).1 (walk v (render p) k).2.extracted v p)
    :
    Restores (walkField v (render p) k).1 (walkField v (render p) k).2.extracted v p := by
  unfold walkField
  split
  · rw [scanText_extracted]
    exact restores_nil _ _
  · exact h

theorem walkFields_restores {rest : List (Text × Json)}
    (hv : ∀ f ∈ rest, ∀ q key, Restores (walk f.2 (render q) key).1 (walk f.2 (render q) key).2.extracted f.2 q) :
    ∀ (done : List (Text × Json)) (root : Json), ((done ++ rest).map Prod.fst).Nodup →
      root.get p = some (.object (done ++ (walkFields rest (render p)).1)) →
      runOps restoreOne root (walkFields rest (render p)).2.extracted = .ok (root.put p (.object (done ++ rest))) := by
  induction rest with
  | nil =>
    intro done root _ hroot
    exact restores_nil _ p root hroot
  | cons f rest ih =>
    intro done root hd hroot
    obtain ⟨k, v⟩ := f
    obtain ⟨hv, hrest⟩ := List.forall_mem_cons.1 hv
    have hk : k ∉ done.map Prod.fst := by
      rw [List.map_append, List.map_cons, List.nodup_append] at hd
      exact fun hmem => hd.2.2 k hmem k (List.mem_cons_self) rfl
    rw [walkFields_cons] at hroot ⊢
    -- First the field itself, then those behind it.
    have hget : root.get (p ++ [k]) = some (walkField v (render (p ++ [k])) k).1 := by
      rw [get_append, hroot]
      simp [Json.get, child, lookup_append_of_not_mem hk, lookup_cons]
    have hfield := walkField_restores (hv (p ++ [k]) k) root hget
    change runOps restoreOne root ((walkField v (render (p ++ [k])) k).2.extracted ++ _) = _
    rw [runOps_append, hfield, ok_bind, put_append hroot]
    have hput : (Json.object (done ++ (k, (walkField v (render (p ++ [k])) k).1) :: (walkFields rest (render p)).1)).put
        [k] v =
        .object ((done ++ [(k, v)]) ++ (walkFields rest (render p)).1) := by
      simp [Json.put, child, putChild, lookup_append_of_not_mem hk, lookup_cons, setField_append_of_not_mem hk, setField]
    rw [hput]
    have hnext := ih hrest (done ++ [(k, v)]) (root.put p (.object ((done ++ [(k, v)]) ++ (walkFields rest (render p)).1)))
      (by simpa using hd) (get_put hroot _)
    rw [hnext, put_put hroot, List.append_assoc]
    rfl

theorem walkItems_restores {rest : List Json}
    (hv : ∀ v ∈ rest, ∀ q key, Restores (walk v (render q) key).1 (walk v (render q) key).2.extracted v q) (key : Text) :
    ∀ (done : List Json) (root : Json),
      root.get p = some (.array (done ++ (walkItems rest (render p) key done.length).1)) →
      runOps restoreOne root (walkItems rest (render p) key done.length).2.extracted =
        .ok (root.put p (.array (done ++ rest))) := by
  induction rest with
  | nil =>
    intro done root hroot
    exact restores_nil _ p root hroot
  | cons v rest ih =>
    intro done root hroot
    obtain ⟨hv, hrest⟩ := List.forall_mem_cons.1 hv
    rw [walkItems, render_index] at hroot ⊢
    dsimp only at hroot ⊢
    set i := Nat.toDigits 10 done.length with hi
    have hget : root.get (p ++ [i]) = some (walk v (render (p ++ [i])) key).1 := by
      rw [get_append, hroot]
      simp [Json.get, child, hi]
    change runOps restoreOne root ((walk v (render (p ++ [i])) key).2.extracted ++ _) = _
    rw [runOps_append, hv (p ++ [i]) key root hget, ok_bind, put_append hroot]
    have hput : (Json.array (done ++ (walk v (render (p ++ [i])) key).1 ::
        (walkItems rest (render p) key (done.length + 1)).1)).put [i] v =
        .array ((done ++ [v]) ++ (walkItems rest (render p) key (done.length + 1)).1) := by
      simp [Json.put, child, putChild, hi]
    rw [hput]
    have hlen : done.length + 1 = (done ++ [v]).length := by simp
    rw [hlen]
    have hnext := ih hrest (done ++ [v])
      (root.put p (.array ((done ++ [v]) ++ (walkItems rest (render p) key (done ++ [v]).length).1))) (get_put hroot _)
    rw [hnext, put_put hroot, List.append_assoc]
    rfl

/-- **The extracted values restore the walked value**, wherever it stands. -/
theorem walk_restores (v : Json) (hd : v.Distinct) : ∀ (p : List Text) (key : Text),
    Restores (walk v (render p) key).1 (walk v (render p) key).2.extracted v p := by
  induction v using Json.ind with
  | object fields ih =>
    intro p key
    rw [Json.Distinct, distinctFields_iff] at hd
    unfold walk
    split_ifs with ht hvar hkv
    · exact walkTemplate_restores ht key
    · exact walkVariable_restores
    · exact walkKeyValue_restores hkv
    · intro root hroot
      exact walkFields_restores (fun f hf => ih f hf (hd.2 f hf)) [] root (by simpa using hd.1) hroot
  | array items ih =>
    intro p key
    rw [Json.Distinct, distinctItems_iff] at hd
    unfold walk
    intro root hroot
    exact walkItems_restores (fun v hv => ih v hv (hd v hv)) key [] root hroot
  | _ =>
    intro p key
    exact restores_nil _ _

end Walk

/-! ## The lists that are refused -/

section Refused
variable {v root r : Json} {ex done : List Extracted} {e : Extracted} {p : List Text}

/-- The text at `p` after the values of `done` went back to `v`. -/
def held (v : Json) (done : List Extracted) (p : List Text) : Option Text :=
  done.foldl (fun t d => if tokens d.pointer = some p then t.map fun _ => d.value else t) (v.text p)

theorem held_snoc : held v (done ++ [e]) p =
    if tokens e.pointer = some p then (held v done p).map fun _ => e.value else held v done p := by
  unfold held
  rw [List.foldl_append, List.foldl_cons, List.foldl_nil]

theorem held_append_of_not_named {after : List Extracted} (h : ∀ d ∈ after, tokens d.pointer ≠ some p) :
    held v (done ++ after) p = held v done p := by
  induction after using List.reverseRecOn with
  | nil => rw [List.append_nil]
  | append_singleton after d ih =>
    rw [← List.append_assoc, held_snoc, if_neg (h d (by simp)), ih fun d hd => h d (by simp [hd])]

theorem isSome_held (v : Json) (done : List Extracted) (p : List Text) : (held v done p).isSome = (v.text p).isSome := by
  induction done using List.reverseRecOn with
  | nil => rfl
  | append_singleton done d ih =>
    rw [held_snoc]
    split_ifs
    · rw [Option.isSome_map, ih]
    · exact ih

/-- A value that went back changed the text of its own field only. -/
theorem restored_text (h : runOps restoreOne v done = .ok r) (p : List Text) : r.text p = held v done p := by
  induction done using List.reverseRecOn generalizing r with
  | nil =>
    cases h
    simp [held]
  | append_singleton done e ih =>
    rw [runOps_append] at h
    obtain ⟨root, hroot, h⟩ := bind_eq_ok.1 h
    obtain ⟨r', hr, h⟩ := runOps_cons_eq_ok.1 h
    cases h
    obtain ⟨q, hq, htext, rfl⟩ := restoreOne_ok_iff.1 hr
    rw [text_put htext, held_snoc, hq, ← ih hroot]
    by_cases hpq : p = q
    · subst hpq
      simp [htext]
    · simp [hpq, Ne.symm hpq]

/-- After the entries `done`, the entry `e` does not name a field that holds its placeholder. -/
inductive Misnamed (v : Json) (done : List Extracted) (e : Extracted) : Prop
  | missing (h : v.pointer e.pointer = none)
  | notString {w : Json} (h : v.pointer e.pointer = some w) (hw : w.asStr = none)
  | other {t : Text} (h : v.pointer e.pointer = some (.string t)) (hfirst : ∀ d ∈ done, tokens d.pointer ≠ tokens e.pointer)
    (ht : t ≠ placeholderText e.placeholder)
  | again {before after : List Extracted} {d : Extracted} (h : done = before ++ d :: after)
    (hd : tokens d.pointer = tokens e.pointer) (hlast : ∀ d' ∈ after, tokens d'.pointer ≠ tokens e.pointer)
    (hvalue : d.value ≠ placeholderText e.placeholder)

theorem text_eq (h : tokens e.pointer = some p) : v.text p = (v.pointer e.pointer).bind asStr := by
  unfold Json.text Json.pointer
  rw [h, Option.bind_some]

/-- The last entry of `done` that names the field, if there is one. -/
theorem last_named (done : List Extracted) (p : List Text) : (∀ d ∈ done, tokens d.pointer ≠ some p) ∨
    ∃ before d after, done = before ++ d :: after ∧ tokens d.pointer = some p ∧ ∀ d' ∈ after, tokens d'.pointer ≠ some p := by
  induction done using List.reverseRecOn with
  | nil => exact .inl (by simp)
  | append_singleton done d ih =>
    by_cases hd : tokens d.pointer = some p
    · exact .inr ⟨done, d, [], rfl, hd, by simp⟩
    · rcases ih with ih | ⟨before, d', after, rfl, hd', hafter⟩
      · refine .inl fun x hx => ?_
        rcases List.mem_append.1 hx with hx | hx
        · exact ih x hx
        · exact (List.mem_singleton.1 hx) ▸ hd
      · refine .inr ⟨before, d', after ++ [d], by simp, hd', fun x hx => ?_⟩
        rcases List.mem_append.1 hx with hx | hx
        · exact hafter x hx
        · exact (List.mem_singleton.1 hx) ▸ hd

theorem held_named {before after : List Extracted} {d : Extracted} (hd : tokens d.pointer = some p)
    (hafter : ∀ d' ∈ after, tokens d'.pointer ≠ some p) :
    held v (before ++ d :: after) p = (v.text p).map fun _ => d.value := by
  rw [show before ++ d :: after = (before ++ [d]) ++ after by simp, held_append_of_not_named hafter, held_snoc, if_pos hd]
  have h := isSome_held v before p
  cases hh : held v before p with
  | none => cases ht : v.text p <;> simp_all
  | some t => cases ht : v.text p <;> simp_all

/-- A step fails exactly where its entry is misnamed. -/
theorem misnamed_iff : Misnamed v done e ↔
    ∀ p, tokens e.pointer = some p → held v done p ≠ some (placeholderText e.placeholder) := by
  constructor
  · intro h p hp hheld
    obtain ⟨t, ht⟩ := Option.isSome_iff_exists.1 (show (v.text p).isSome by rw [← isSome_held v done, hheld]; rfl)
    rw [text_eq hp] at ht
    cases h with
    | missing h => simp [h] at ht
    | notString h hw => simp [h, hw] at ht
    | other h hfirst hne =>
      have hfirst : held v ([] ++ done) p = held v [] p := held_append_of_not_named fun d hd => hp ▸ hfirst d hd
      rw [List.nil_append, hheld, held, List.foldl_nil, text_eq hp, h] at hfirst
      exact hne (Option.some.inj hfirst).symm
    | again h hd hlast hvalue =>
      rw [h, held_named (hd.trans hp) fun d' hd' => hp ▸ hlast d' hd', text_eq hp, ht] at hheld
      exact hvalue (Option.some.inj hheld)
  · intro h
    cases hw : v.pointer e.pointer with
    | none => exact .missing hw
    | some w =>
      obtain ⟨p, hp, -⟩ := Option.bind_eq_some_iff.1 hw
      cases ht : w.asStr with
      | none => exact .notString hw ht
      | some t =>
        have htext : v.text p = some t := by rw [text_eq hp, hw, Option.bind_some, ht]
        cases w with
        | string t' =>
          cases ht
          rcases last_named done p with hfirst | ⟨before, d, after, hdone, hd, hafter⟩
          · refine .other hw (fun d hd => hp ▸ hfirst d hd) fun hne => h p hp ?_
            rw [← List.nil_append done, held_append_of_not_named hfirst, held, List.foldl_nil, htext, hne]
          · refine .again hdone (hd.trans hp.symm) (fun d' hd' => hp ▸ hafter d' hd') fun hvalue => h p hp ?_
            rw [hdone, held_named hd hafter, htext, Option.map_some, hvalue]
        | _ => cases ht

theorem restoreOne_error_iff (h : runOps restoreOne v done = .ok root) :
    (∃ err, restoreOne root e = .error err) ↔ Misnamed v done e := by
  have hok : (∃ err, restoreOne root e = .error err) ↔ ¬ ∃ r, restoreOne root e = .ok r := by
    cases restoreOne root e <;> simp
  rw [hok, misnamed_iff]
  simp only [restoreOne_ok_iff, restored_text h, not_exists, not_and]
  constructor
  · exact fun hno p hp hheld => hno _ p hp hheld rfl
  · exact fun hno _ p hp hheld _ => hno p hp hheld

/-- The steps fail exactly where some entry is misnamed after those before it. -/
theorem runOps_restoreOne_error_iff (v : Json) (ex : List Extracted) :
    (∃ err, runOps restoreOne v ex = .error err) ↔ ∃ done e rest, ex = done ++ e :: rest ∧ Misnamed v done e := by
  induction ex using List.reverseRecOn with
  | nil => simp
  | append_singleton ex e ih =>
    rw [runOps_append]
    cases hroot : runOps restoreOne v ex with
    | error err =>
      obtain ⟨done, d, rest, rfl, hd⟩ := ih.1 ⟨err, hroot⟩
      exact ⟨fun _ => ⟨done, d, rest ++ [e], by simp, hd⟩, fun _ => ⟨err, rfl⟩⟩
    | ok root =>
      have hone : (∃ err, runOps restoreOne root [e] = .error err) ↔ Misnamed v ex e := by
        rw [← restoreOne_error_iff hroot]
        simp only [runOps, List.foldlM_cons, List.foldlM_nil]
        cases restoreOne root e <;> simp [bind, Except.bind, pure, Except.pure]
      rw [ok_bind, hone]
      constructor
      · exact fun h => ⟨ex, e, [], rfl, h⟩
      · rintro ⟨done, d, rest, hsplit, hd⟩
        -- An entry before the last would have stopped the run there.
        rcases List.eq_nil_or_concat rest with rfl | ⟨rest, e', rfl⟩
        · obtain ⟨rfl, he⟩ := List.append_inj' hsplit rfl
          cases he
          exact hd
        · have hex : ex = done ++ d :: rest := by
            rw [List.concat_eq_append, ← List.cons_append, ← List.append_assoc] at hsplit
            exact (List.append_inj' hsplit rfl).1
          obtain ⟨err, herr⟩ := ih.2 ⟨done, d, rest, hex, hd⟩
          rw [hroot] at herr
          cases herr

/-- **A restore is refused exactly where an entry is misnamed**, and a refused restore changes nothing. -/
theorem restore_error_iff (v : Json) (ex : List Extracted) :
    ((∃ err, (restore v ex).2 = .error err) ↔ ∃ done e rest, ex = done ++ e :: rest ∧ Misnamed v done e) ∧
      ((∃ err, (restore v ex).2 = .error err) → (restore v ex).1 = v) := by
  rw [← runOps_restoreOne_error_iff]
  unfold restore
  cases runOps restoreOne v ex with
  | ok r => simp
  | error err => simp

end Refused

end Anvil.Portability
