import Anvil.Lib.JsonFields

/-!
# Changes to a description (`anvil-contract/src/patch.rs`)

* `applyOp`, `apply` : operations on a document, each at a pointer whose missing parents it creates;
* `applyAtomic` : all of them or none, by undoing; `undoFor` : what is recorded before an operation, `restore` : putting it
  back;
* `restore_applyOp` : an operation is undone, whatever it did before it failed;
* `applyAtomic_exact` : all or nothing, the order of members included.
-/

namespace Anvil.Contract.Patch
open Anvil.Lib Json

inductive PatchKind
  | add
  | replace
  | remove
  | union
deriving DecidableEq

structure PatchOp where
  op : PatchKind
  path : Text
  value : Option Json

namespace PatchOp

def add (path : Text) (value : Json) : PatchOp := ⟨.add, path, some value⟩

def replace (path : Text) (value : Json) : PatchOp := ⟨.replace, path, some value⟩

def remove (path : Text) : PatchOp := ⟨.remove, path, none⟩

def union (path : Text) (items : List Json) : PatchOp := ⟨.union, path, some (.array items)⟩

end PatchOp

/-- `str::parse::<usize>`: a sign and leading zeros are accepted. -/
def parseUsize (t : Text) : Option Nat :=
  (match t with
    | '+' :: t => digitsOf t
    | t => digitsOf t).filter fun n => n < 2 ^ 64

def tokens (pointer : Text) : List Text := ((pointer.splitOn '/').drop 1).map unescape

/-- What a token names in a container. -/
def childAt (v : Json) (t : Text) : Option Json :=
  match v with
  | .object o => lookup o t
  | .array a => (parseUsize t).bind fun i => a[i]?
  | _ => none

def putAt (v : Json) (t : Text) (w : Json) : Json :=
  match v with
  | .object o => .object (setField o t w)
  | .array a =>
    match parseUsize t with
    | some i => .array (a.set i w)
    | none => .array a
  | v => v

/-! ## Applying -/

mutual

/-- Deep-merge `add` into `into`, keeping what `into` already has. -/
def mergeKeep (into : Json) : Json → Json
  | .object b =>
    match into with
    | .object a => .object (mergeFields a b)
    | v => v
  | _ => into

def mergeFields (a : List (Text × Json)) : List (Text × Json) → List (Text × Json)
  | [] => a
  | (k, v) :: b =>
    match lookup a k with
    | some existing => mergeFields (setField a k (mergeKeep existing v)) b
    | none => mergeFields (a ++ [(k, v)]) b

end

/-- The items that a list lacks, added to it. -/
def pushMissing (existing items : List Json) : List Json :=
  items.foldl (fun l i => if l.any fun x => x.same i then l else l ++ [i]) existing

/-- The items of a union. -/
def unionItems : Option Json → List Json
  | some (.array a) => a
  | some v => [v]
  | none => []

/-- The change at the parent of the last token, and how many failed. -/
def edit (op : PatchOp) (last : Text) (cur : Json) : Json × Nat :=
  let v := op.value.getD .null
  match cur with
  | .object o =>
    match op.op with
    | .remove => if (lookup o last).isSome then (.object (remove o last), 0) else (.object o, 1)
    | .add =>
      match lookup o last with
      | some existing => (.object (setField o last (mergeKeep existing v)), 0)
      | none => (.object (o ++ [(last, v)]), 0)
    | .union =>
      match lookup o last with
      | some (.array existing) => (.object (setField o last (.array (pushMissing existing (unionItems op.value)))), 0)
      | some (.object _) => (.object o, 1)
      | some .null => (.object (setField o last (.array (pushMissing [] (unionItems op.value)))), 0)
      | some single => (.object (setField o last (.array (pushMissing [single] (unionItems op.value)))), 0)
      | none => (.object (o ++ [(last, .array (unionItems op.value))]), 0)
    | .replace => (.object (insert o last v), 0)
  | .array a =>
    match op.op with
    | .remove =>
      match parseUsize last with
      | some i => if i < a.length then (.array (a.eraseIdx i), 0) else (.array a, 1)
      | none => (.array a, 1)
    | .union => (.array a, 1)
    | _ =>
      if last = ['-'] then (.array (a ++ [v]), 0)
      else
        match parseUsize last with
        | some i =>
          if i < a.length ∧ op.op = .replace then (.array (a.set i v), 0)
          else if i ≤ a.length then (.array (a.insertIdx i v), 0)
          else (.array a, 1)
        | none => (.array a, 1)
  | cur => (cur, 1)

/-- A change at a place that exists. -/
def walkExisting (f : Json → Json × Nat) (cur : Json) : List Text → Json × Nat
  | [] => f cur
  | t :: parents =>
    match childAt cur t with
    | some c => (putAt cur t (walkExisting f c parents).1, (walkExisting f c parents).2)
    | none => (cur, 1)

/-- A change below parents that are created where there are none: a list when the next token appends to one. -/
def walkTo (f : Json → Json × Nat) (last : Text) (cur : Json) : List Text → Json × Nat
  | [] => f cur
  | t :: parents =>
    match childAt cur t with
    | some c => (putAt cur t (walkTo f last c parents).1, (walkTo f last c parents).2)
    | none =>
      match cur with
      | .object o =>
        let r := walkTo f last (if (parents ++ [last]).head? = some ['-'] then .array [] else .object []) parents
        (.object (o ++ [(t, r.1)]), r.2)
      | cur => (cur, 1)

/-- The place that an operation changes: removing creates nothing. -/
def walk (op : PatchOp) (last : Text) (cur : Json) (parents : List Text) : Json × Nat :=
  if op.op = .remove then walkExisting (edit op last) cur parents else walkTo (edit op last) last cur parents

/-- One operation: the document, and how many failed. -/
def applyOp (doc : Json) (op : PatchOp) : Json × Nat :=
  match (tokens op.path).getLast? with
  | none =>
    match op.op with
    | .add => (mergeKeep doc (op.value.getD .null), 0)
    | .remove => (doc, 1)
    | _ => (op.value.getD .null, 0)
  | some last => walk op last doc (tokens op.path).dropLast

/-- Operations in order, and how many could not be applied. -/
def apply (doc : Json) (ops : List PatchOp) : Json × Nat :=
  ops.foldl (fun acc op => ((applyOp acc.1 op).1, acc.2 + (applyOp acc.1 op).2)) (doc, 0)

/-! ## Undoing -/

inductive Undo
  | nothing
  /-- Put this value back at the pointer. -/
  | set (path : List Text) (v : Json)
  /-- Remove a member the operation created. -/
  | removeKey (path : List Text) (k : Text)
  /-- Shorten a list the operation appended to. -/
  | truncate (path : List Text) (len : Nat)
  /-- Put back a member the operation removed, at its position. -/
  | reinsert (path : List Text) (k : Text) (i : Nat) (v : Json)

/-- What undoes an operation of the kind below `node`, which is at `done`. -/
def undoAt (op : PatchKind) : List Text → Json → List Text → Undo
  | done, .object o, t :: rest =>
    match lookup o t with
    | some child =>
      if rest = [] then
        if op = .remove then .reinsert done t (o.findIdx fun f => f.1 = t) child else .set (done ++ [t]) child
      else undoAt op (done ++ [t]) child rest
    | none => if op = .remove then .nothing else .removeKey done t
  | done, .array a, t :: rest =>
    if t = ['-'] then .truncate done a.length
    else if rest = [] then .set done (.array a)
    else
      match childAt (.array a) t with
      | some child => undoAt op (done ++ [t]) child rest
      | none => .nothing
  | _, _, _ => .nothing

def undoFor (doc : Json) (op : PatchOp) : Undo :=
  if tokens op.path = [] then .set [] doc else undoAt op.op [] doc (tokens op.path)

/-- A change that does not fail. -/
def editing (f : Json → Json) (n : Json) : Json × Nat := (f n, 0)

def truncateTo (len : Nat) : Json → Json
  | .array a => .array (a.take len)
  | v => v

def removeMember (k : Text) : Json → Json
  | .object o => .object (remove o k)
  | v => v

def reinsertMember (k : Text) (i : Nat) (c : Json) : Json → Json
  | .object o => .object (o.insertIdx (min i o.length) (k, c))
  | v => v

def restore (doc : Json) : Undo → Json
  | .nothing => doc
  | .set path v => (walkExisting (editing fun _ => v) doc path).1
  | .removeKey path k => (walkExisting (editing (removeMember k)) doc path).1
  | .truncate path len => (walkExisting (editing (truncateTo len)) doc path).1
  | .reinsert path k i v => (walkExisting (editing (reinsertMember k i v)) doc path).1

/-- The operations one after another; at the first that fails, everything is undone in reverse. -/
def applyFrom (doc : Json) (undo : List Undo) : List PatchOp → Json × Bool
  | [] => (doc, true)
  | op :: ops =>
    if 0 < (apply doc [op]).2 then ((undoFor doc op :: undo).foldl restore (apply doc [op]).1, false)
    else applyFrom (apply doc [op]).1 (undoFor doc op :: undo) ops

def applyAtomic (doc : Json) (ops : List PatchOp) : Json × Bool := applyFrom doc [] ops

/-! ## Places -/

section Places
variable {v c w w' : Json} {t : Text}

theorem childAt_putAt (h : childAt v t = some c) : childAt (putAt v t w) t = some w := by
  cases v with
  | object o =>
    change lookup o t = some c at h
    simp [childAt, putAt, lookup_setField, h]
  | array a =>
    obtain ⟨i, hi, hc⟩ := Option.bind_eq_some_iff.1 h
    obtain ⟨hlt, -⟩ := List.getElem?_eq_some_iff.1 hc
    simp [childAt, putAt, hi, hlt]
  | _ => cases h

theorem putAt_putAt : putAt (putAt v t w) t w' = putAt v t w' := by
  cases v with
  | object o => simp [putAt, setField_setField]
  | array a => cases hi : parseUsize t <;> simp [putAt, hi]
  | _ => rfl

theorem putAt_childAt (h : childAt v t = some c) : putAt v t c = v := by
  cases v with
  | object o => simp [putAt, setField_lookup (show lookup o t = some c from h)]
  | array a =>
    obtain ⟨i, hi, hc⟩ := Option.bind_eq_some_iff.1 h
    obtain ⟨hlt, rfl⟩ := List.getElem?_eq_some_iff.1 hc
    simp [putAt, hi]
  | _ => cases h

end Places

theorem walk_some (op : PatchOp) (last : Text) {cur c : Json} {t : Text} (h : childAt cur t = some c) (parents : List Text) :
    walk op last cur (t :: parents) = (putAt cur t (walk op last c parents).1, (walk op last c parents).2) := by
  unfold walk
  split_ifs
  · rw [walkExisting, h]
  · cases cur <;> simp only [walkTo, h]

/-- Below a place that is missing, an operation may only create the member it needs. -/
theorem walk_none (op : PatchOp) (last : Text) {cur : Json} {t : Text} (h : childAt cur t = none) (parents : List Text) :
    ((walk op last cur (t :: parents)).1 = cur ∧ ∀ o, cur = .object o → op.op = .remove) ∨
    ∃ o r, cur = .object o ∧ op.op ≠ .remove ∧ (walk op last cur (t :: parents)).1 = .object (o ++ [(t, r)]) := by
  unfold walk
  split_ifs with hop
  · rw [walkExisting, h]
    exact .inl ⟨rfl, fun _ _ => hop⟩
  · cases cur with
    | object o =>
      simp only [walkTo, h]
      exact .inr ⟨o, _, rfl, hop, rfl⟩
    | _ =>
      simp only [walkTo, h]
      exact .inl ⟨trivial, fun o ho => (by cases ho)⟩

/-! ## Undoing one operation -/

/-- What undoes a change of the member `t` of a container. -/
def Undo.below (done : List Text) : Undo → Undo
  | .nothing => .nothing
  | .set path v => .set (done ++ path) v
  | .removeKey path k => .removeKey (done ++ path) k
  | .truncate path len => .truncate (done ++ path) len
  | .reinsert path k i v => .reinsert (done ++ path) k i v

theorem undoAt_below (op : PatchKind) (p : List Text) : ∀ (toks : List Text) (done : List Text) (node : Json),
    undoAt op (p ++ done) node toks = (undoAt op done node toks).below p
  | [], _, node => by cases node <;> rfl
  | t :: rest, done, node => by
    cases node with
    | object o =>
      simp only [undoAt]
      cases lookup o t with
      | none => simp only; split_ifs <;> rfl
      | some child =>
        simp only
        split_ifs
        · rfl
        · rw [List.append_assoc]
          rfl
        · rw [List.append_assoc]
          exact undoAt_below op p rest (done ++ [t]) child
    | array a =>
      simp only [undoAt]
      split_ifs
      · rfl
      · rfl
      · cases childAt (.array a) t with
        | none => rfl
        | some child =>
          simp only
          rw [List.append_assoc]
          exact undoAt_below op p rest (done ++ [t]) child
    | _ => rfl

theorem walkExisting_cons (f : Json → Json × Nat) {v c : Json} {t : Text} (h : childAt v t = some c) (path : List Text) :
    (walkExisting f v (t :: path)).1 = putAt v t (walkExisting f c path).1 := by
  rw [walkExisting, h]

/-- What undoes a change inside a member leaves the others alone. -/
theorem restore_below {v c : Json} {t : Text} (h : childAt v t = some c) (u : Undo) :
    restore v (u.below [t]) = putAt v t (restore c u) := by
  cases u with
  | nothing => exact (putAt_childAt h).symm
  | set path w => exact walkExisting_cons _ h path
  | removeKey path k => exact walkExisting_cons _ h path
  | truncate path len => exact walkExisting_cons _ h path
  | reinsert path k i w => exact walkExisting_cons _ h path

theorem childAt_dash (a : List Json) : childAt (.array a) ['-'] = none := rfl

/-- What undoes a change deeper than a member of the node. -/
theorem undoAt_some (op : PatchKind) {node c : Json} {t : Text} {rest : List Text} (h : childAt node t = some c)
    (hrest : rest ≠ []) : undoAt op [] node (t :: rest) = (undoAt op [] c rest).below [t] := by
  rw [← undoAt_below op [t] rest [] c, List.append_nil]
  cases node with
  | object o =>
    change lookup o t = some c at h
    simp only [undoAt, h, if_neg hrest]
    rfl
  | array a =>
    have hdash : t ≠ ['-'] := by
      rintro rfl
      rw [childAt_dash] at h
      cases h
    simp only [undoAt, if_neg hdash, if_neg hrest, h]
    rfl
  | _ => cases h

/-- **A change of one member is undone.** -/
theorem restore_edit (op : PatchOp) (last : Text) (node : Json) :
    restore (edit op last node).1 (undoAt op.op [] node [last]) = node := by
  cases node with
  | object o =>
    cases h : lookup o last with
    | some c =>
      -- the member is still there, or it was removed from its place
      have hset (w : Json) : (walkExisting (editing fun _ => c) (.object (setField o last w)) [last]).1 = .object o := by
        have hchild : childAt (.object (setField o last w)) last = some w := childAt_putAt (v := .object o) (w := w) h
        rw [walkExisting_cons _ hchild]
        exact (putAt_putAt (v := .object o)).trans (putAt_childAt (v := .object o) h)
      have hsame : (walkExisting (editing fun _ => c) (.object o) [last]).1 = .object o := by
        rw [walkExisting_cons _ (show childAt (.object o) last = some c from h)]
        exact putAt_childAt (v := .object o) h
      cases hop : op.op with
      | remove =>
        simp only [edit, undoAt, hop, h, restore, walkExisting, editing, reinsertMember, if_pos, Option.isSome_some]
        rw [insertIdx_remove h]
      | add =>
        simp only [edit, undoAt, hop, h, if_true, reduceCtorEq, if_false, List.nil_append, restore]
        exact hset _
      | replace =>
        simp only [edit, undoAt, hop, h, insert_of_some h, if_true, reduceCtorEq, if_false, List.nil_append, restore]
        exact hset _
      | union =>
        simp only [undoAt, hop, h, if_true, reduceCtorEq, if_false, List.nil_append, restore, edit]
        split
        · exact hset _
        · exact hsame
        · exact hset _
        · exact hset _
        · rename_i hnone
          cases hnone
    | none =>
      have hremove (w : Json) :
          (walkExisting (editing (removeMember last)) (.object (o ++ [(last, w)])) []).1 = .object o := by
        simp only [walkExisting, editing, removeMember]
        rw [remove_append h]
      cases hop : op.op with
      | remove => simp [edit, undoAt, hop, h, restore]
      | add =>
        simp only [edit, undoAt, hop, h, reduceCtorEq, if_false, restore]
        exact hremove _
      | replace =>
        simp only [edit, undoAt, hop, h, insert_of_none h, reduceCtorEq, if_false, restore]
        exact hremove _
      | union =>
        simp only [edit, undoAt, hop, h, reduceCtorEq, if_false, restore]
        exact hremove _
  | array a =>
    by_cases hdash : last = ['-']
    · subst hdash
      have hparse : parseUsize ['-'] = none := rfl
      simp only [undoAt, if_pos, restore, walkExisting, editing, edit, hparse]
      cases op.op <;> simp [truncateTo]
    · -- the whole list is put back
      have hlist (b : List Json) : (walkExisting (editing fun _ => .array a) (.array b) []).1 = .array a := rfl
      simp only [undoAt, if_neg hdash, if_true, restore, walkExisting, editing]
  | _ => cases hop : op.op <;> rfl

/-- **An operation is undone**, whatever it did before it failed. -/
theorem restore_walk (op : PatchOp) (last : Text) : ∀ (parents : List Text) (node : Json),
    restore (walk op last node parents).1 (undoAt op.op [] node (parents ++ [last])) = node
  | [], node => by
    have hwalk : walk op last node [] = edit op last node := by
      unfold walk
      split_ifs <;> simp only [walkExisting, walkTo]
    rw [hwalk]
    exact restore_edit op last node
  | t :: parents, node => by
    have hne : parents ++ [last] ≠ [] := List.append_ne_nil_of_right_ne_nil _ (List.cons_ne_nil _ _)
    cases h : childAt node t with
    | some c =>
      rw [List.cons_append, undoAt_some op.op h hne, walk_some op last h, restore_below (childAt_putAt h),
        restore_walk op last parents c, putAt_putAt, putAt_childAt h]
    | none =>
      obtain ⟨hsame, hremove⟩ | ⟨o, r, rfl, hop, hmade⟩ := walk_none op last h parents
      · rw [hsame, List.cons_append]
        cases node with
        | object o =>
          change lookup o t = none at h
          simp only [undoAt, h, hremove o rfl, if_true, restore]
        | array a =>
          simp only [undoAt, h, if_neg hne]
          split_ifs
          · simp only [restore, walkExisting, editing, truncateTo, List.take_length]
          · rfl
        | _ => rfl
      · change lookup o t = none at h
        rw [hmade]
        simp only [List.cons_append, undoAt, h, if_neg hop, restore, walkExisting, editing, removeMember]
        rw [remove_append h]

/-- The document before an operation is put back. -/
theorem restore_applyOp (doc : Json) (op : PatchOp) : restore (applyOp doc op).1 (undoFor doc op) = doc := by
  unfold applyOp undoFor
  rcases List.eq_nil_or_concat (tokens op.path) with htoks | ⟨parents, last, htoks⟩
  · rw [htoks, if_pos rfl]
    simp only [restore, walkExisting, editing]
  · rw [htoks, List.concat_eq_append, if_neg (List.append_ne_nil_of_right_ne_nil _ (List.cons_ne_nil _ _))]
    simp only [List.getLast?_concat, List.dropLast_concat]
    exact restore_walk op last parents doc

/-! ## All or nothing -/

theorem apply_singleton (doc : Json) (op : PatchOp) : apply doc [op] = applyOp doc op := by
  unfold apply
  rw [List.foldl_cons, List.foldl_nil, Nat.zero_add]

/-- How many fail is counted on top of what failed before. -/
theorem apply_cons (doc : Json) (op : PatchOp) (ops : List PatchOp) :
    (apply doc (op :: ops)).1 = (apply (applyOp doc op).1 ops).1 ∧
    (apply doc (op :: ops)).2 = (applyOp doc op).2 + (apply (applyOp doc op).1 ops).2 := by
  have hfrom : ∀ (ops : List PatchOp) (doc : Json) (n : Nat),
      ops.foldl (fun acc op => ((applyOp acc.1 op).1, acc.2 + (applyOp acc.1 op).2)) (doc, n) =
        ((apply doc ops).1, n + (apply doc ops).2) := by
    intro ops
    induction ops with
    | nil => exact fun _ _ => rfl
    | cons op ops ih =>
      intro doc n
      unfold apply
      rw [List.foldl_cons, List.foldl_cons, ih, ih, Nat.zero_add, Nat.add_assoc]
  unfold apply
  rw [List.foldl_cons, hfrom, Nat.zero_add]
  exact ⟨rfl, rfl⟩

/-- The rest of the operations, once what undoes the others is recorded. -/
theorem applyFrom_eq (ops : List PatchOp) : ∀ (doc : Json) (undo : List Undo), applyFrom doc undo ops =
    if (apply doc ops).2 = 0 then ((apply doc ops).1, true) else (undo.foldl restore doc, false) := by
  induction ops with
  | nil => exact fun doc undo => (if_pos rfl).symm
  | cons op ops ih =>
    intro doc undo
    obtain ⟨hdoc, hfailed⟩ := apply_cons doc op ops
    have hundone : (undoFor doc op :: undo).foldl restore (applyOp doc op).1 = undo.foldl restore doc := by
      rw [List.foldl_cons, restore_applyOp]
    rw [applyFrom, apply_singleton, hdoc, hfailed, ih, hundone]
    by_cases hzero : (applyOp doc op).2 = 0
    · rw [if_neg (by omega), hzero, Nat.zero_add]
    · rw [if_pos (Nat.pos_of_ne_zero hzero), if_neg (by omega)]

/-- **All or nothing**: where every operation can be applied the document is what applying them gives, and otherwise it is
    the document there was. -/
theorem applyAtomic_exact (doc : Json) (ops : List PatchOp) :
    ((applyAtomic doc ops).2 = true ↔ (apply doc ops).2 = 0) ∧
    ((applyAtomic doc ops).2 = true → (applyAtomic doc ops).1 = (apply doc ops).1) ∧
    ((applyAtomic doc ops).2 = false → (applyAtomic doc ops).1 = doc) := by
  have h : applyAtomic doc ops = _ := applyFrom_eq ops doc []
  rw [h]
  split_ifs with hzero
  · exact ⟨⟨fun _ => hzero, fun _ => rfl⟩, fun _ => rfl, fun hf => (by cases hf)⟩
  · exact ⟨⟨fun hf => (by cases hf), fun hf => absurd hf hzero⟩, fun hf => (by cases hf), fun _ => rfl⟩

end Anvil.Contract.Patch
