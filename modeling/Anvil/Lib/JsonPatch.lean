import Anvil.Lib.JsonFields

/-!
# Changes of a JSON value at paths (RFC 6902)

* `Edit` : add, remove and replace; `Edit.toJson`, `Edit.ofJson` : as a patch document has them;
* `Edit.run` : what RFC 6902 says a change does; `runAll` : changes in order;
* `Reading` : what a way of applying changes must do with those of members and lists; `run_reading` : `Edit.run` does;
* `runAll_under` : changes inside a member leave the others alone.
-/

namespace Anvil.Lib
open Json

inductive Edit
  | add (path : List Text) (value : Json)
  | remove (path : List Text)
  | replace (path : List Text) (value : Json)

namespace Edit

/-- The change with its path below another. -/
def below (p : List Text) : Edit → Edit
  | add path v => add (p ++ path) v
  | remove path => remove (p ++ path)
  | replace path v => replace (p ++ path) v

/-- A change that says what to do when its path is continued upwards. -/
def Inside : Edit → Prop
  | add path _ => path ≠ []
  | remove path => path ≠ []
  | replace _ _ => True

theorem inside_below (p : List Text) {c : Edit} (h : c.Inside) : (c.below p).Inside := by
  cases c with
  | add path v => exact List.append_ne_nil_of_right_ne_nil p h
  | remove path => exact List.append_ne_nil_of_right_ne_nil p h
  | replace path v => trivial

def toJson : Edit → Json
  | add path v => .object [("op".toList, .string "add".toList), ("path".toList, .string (render path)), ("value".toList, v)]
  | remove path => .object [("op".toList, .string "remove".toList), ("path".toList, .string (render path))]
  | replace path v =>
    .object [("op".toList, .string "replace".toList), ("path".toList, .string (render path)), ("value".toList, v)]

def ofJson : Json → Option Edit
  | .object o => do
    let op ← (lookup o "op".toList).bind asStr
    let path ← ((lookup o "path".toList).bind asStr).bind Json.tokens
    if op = "add".toList then (lookup o "value".toList).map (add path)
    else if op = "replace".toList then (lookup o "value".toList).map (replace path)
    else if op = "remove".toList then some (remove path)
    else none
  | _ => none

theorem ofJson_toJson (c : Edit) : ofJson c.toJson = some c := by
  have hpath : "op".toList ≠ "path".toList := by decide
  have hvalue : "op".toList ≠ "value".toList := by decide
  have hvalue' : "path".toList ≠ "value".toList := by decide
  cases c with
  | add path v =>
    simp only [toJson, ofJson, lookup_cons, asStr, if_true, if_neg hpath, if_neg hvalue, if_neg hvalue', Option.bind_some,
      tokens_render, Option.map_some]
    rfl
  | remove path =>
    simp only [toJson, ofJson, lookup_cons, asStr, if_true, if_neg hpath, Option.bind_some, tokens_render]
    rfl
  | replace path v =>
    simp only [toJson, ofJson, lookup_cons, asStr, if_true, if_neg hpath, if_neg hvalue, if_neg hvalue', Option.bind_some,
      tokens_render, Option.map_some]
    rfl

/-! ## What a change does -/

/-- A new member takes the key's place; an item is inserted before the one at the index, or after the last. -/
def addMember (parent : Json) (last : Text) (v : Json) : Option Json :=
  match parent with
  | .object o => some (.object (insert o last v))
  | .array a =>
    if last = ['-'] then some (.array (a ++ [v]))
    else (parseIndex last).bind fun i => if i ≤ a.length then some (.array (a.insertIdx i v)) else none
  | _ => none

/-- The member must be there. -/
def removeMember (parent : Json) (last : Text) : Option Json :=
  match parent with
  | .object o => if (lookup o last).isSome then some (.object (Json.remove o last)) else none
  | .array a => (parseIndex last).bind fun i => if i < a.length then some (.array (a.eraseIdx i)) else none
  | _ => none

/-- The parent of the last token, changed. -/
def atParent (v : Json) (parents : List Text) (f : Json → Option Json) : Option Json :=
  (v.get parents).bind fun parent => (f parent).map (v.put parents)

/-- `none` when the change cannot be made. -/
def run (v : Json) : Edit → Option Json
  | add path w =>
    match path.getLast? with
    | some last => atParent v path.dropLast fun parent => addMember parent last w
    | none => some w
  | remove path =>
    match path.getLast? with
    | some last => atParent v path.dropLast fun parent => removeMember parent last
    | none => none
  | replace path w => (v.get path).map fun _ => v.put path w

end Edit

/-- Changes in order. -/
def runAll (run : Json → Edit → Option Json) : Json → List Edit → Option Json
  | v, [] => some v
  | v, c :: cs => (run v c).bind fun w => runAll run w cs

/-- What a way of applying changes must do. -/
structure Reading (run : Json → Edit → Option Json) : Prop where
  replace : ∀ v w, run v (.replace [] w) = some w
  add : ∀ {o k}, lookup o k = none → ∀ w, run (.object o) (.add [k] w) = some (.object (o ++ [(k, w)]))
  append : ∀ a w, run (.array a) (.add [['-']] w) = some (.array (a ++ [w]))
  remove : ∀ {o k}, (lookup o k).isSome → run (.object o) (.remove [k]) = some (.object (Json.remove o k))
  under : ∀ {o k c}, lookup o k = some c → ∀ {ch : Edit}, ch.Inside →
    run (.object o) (ch.below [k]) = (run c ch).map fun w => .object (setField o k w)

section Runs
variable {run : Json → Edit → Option Json} {o : List (Text × Json)} {k : Text} {c : Json}

theorem runAll_append (v : Json) (cs cs' : List Edit) :
    runAll run v (cs ++ cs') = (runAll run v cs).bind fun w => runAll run w cs' := by
  induction cs generalizing v with
  | nil => rfl
  | cons c cs ih =>
    rw [List.cons_append, runAll, runAll, Option.bind_assoc]
    exact congrArg _ (funext fun w => ih w)

/-- Changes inside a member leave the others alone. -/
theorem runAll_under (hrun : Reading run) {cs : List Edit} (hcs : ∀ ch ∈ cs, ch.Inside) (h : lookup o k = some c) :
    runAll run (.object o) (cs.map (Edit.below [k])) = (runAll run c cs).map fun w => .object (setField o k w) := by
  induction cs generalizing o c with
  | nil => rw [List.map_nil, runAll, runAll, Option.map_some, setField_lookup h]
  | cons ch cs ih =>
    obtain ⟨hch, hcs⟩ := List.forall_mem_cons.1 hcs
    rw [List.map_cons, runAll, runAll, hrun.under h hch]
    cases hc : run c ch with
    | none => rfl
    | some w =>
      have hlookup : lookup (setField o k w) k = some w := by
        rw [lookup_setField, if_pos rfl, h]
        rfl
      simp only [Option.map_some, Option.bind_some]
      rw [ih hcs hlookup]
      simp only [setField_setField]

end Runs

namespace Edit

theorem atParent_cons {o : List (Text × Json)} {k : Text} {c : Json} (h : lookup o k = some c) (parents : List Text)
    (f : Json → Option Json) :
    atParent (.object o) (k :: parents) f = (atParent c parents f).map fun w => .object (setField o k w) := by
  have hchild : (Json.object o).child k = some c := h
  unfold atParent
  rw [Json.get, hchild, Option.bind_some, Option.map_bind]
  refine congrArg _ (funext fun parent => ?_)
  rw [Function.comp_apply, Option.map_map]
  refine congrArg (Option.map · (f parent)) (funext fun w => ?_)
  simp only [Function.comp_apply, Json.put, hchild]
  rfl

/-- **RFC 6902 is such a way.** -/
theorem run_reading : Reading run where
  replace v w := rfl
  add {o k} h w := by
    change some (Json.object (Json.insert o k w)) = _
    rw [insert_of_none h]
  append a w := rfl
  remove {o k} h := by
    change (if (lookup o k).isSome then some (Json.object (Json.remove o k)) else none).map _ = _
    rw [if_pos h]
    rfl
  under {o k c} h ch hch := by
    cases ch with
    | add path w =>
      obtain ⟨path, last, rfl⟩ := (List.eq_nil_or_concat path).resolve_left hch
      simp only [below, run, List.concat_eq_append, ← List.append_assoc, List.getLast?_concat, List.dropLast_concat]
      exact atParent_cons h path _
    | remove path =>
      obtain ⟨path, last, rfl⟩ := (List.eq_nil_or_concat path).resolve_left hch
      simp only [below, run, List.concat_eq_append, ← List.append_assoc, List.getLast?_concat, List.dropLast_concat]
      exact atParent_cons h path _
    | replace path w =>
      have hchild : (Json.object o).child k = some c := h
      simp only [below, run, List.cons_append, List.nil_append, Json.get, hchild, Option.bind_some, Option.map_map, Json.put]
      rfl

end Edit
end Anvil.Lib
