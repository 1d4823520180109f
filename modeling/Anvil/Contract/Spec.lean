import Anvil.Lib.Chase
import Anvil.Lib.Json
import Anvil.Lib.Table
import Anvil.Lib.Wire

/-!
# References of a description (`anvil-contract/src/spec.rs`)

A description's internal references are followed once each and remembered, and so are the places of those that lead nowhere.

* `internalPointer` : the pointer of a reference; `Spec.next` : where one reference leads;
* `Spec.followFrom`, `Spec.endOf` : following a chain against the cache; `Spec.reach`, `Spec.resolve`, `Spec.resolveWithin`;
* `Cached` : what the cache says is so; `cached_endOf` : following keeps it and answers as the references do.
-/

namespace Anvil.Contract
open Anvil.Lib

/-- `MAX_REF_DEPTH`. -/
def maxRefDepth : Nat := 32

/-- `MAX_UNRESOLVED`. -/
def maxUnresolved : Nat := 1000

/-! ## Pointers -/

/-- `to_digit(16)`. -/
def hexVal (b : UInt8) : Option UInt8 :=
  if 0x30 ≤ b ∧ b ≤ 0x39 then some (b - 0x30)
  else if 0x61 ≤ b ∧ b ≤ 0x66 then some (b - 0x61 + 10)
  else if 0x41 ≤ b ∧ b ≤ 0x46 then some (b - 0x41 + 10)
  else none

/-- The bytes with every `%xx` replaced. -/
def percentBytes : List UInt8 → List UInt8
  | 0x25 :: a :: b :: rest =>
    match hexVal a, hexVal b with
    | some h, some l => (h * 16 + l) :: percentBytes rest
    | _, _ => 0x25 :: percentBytes (a :: b :: rest)
  | c :: rest => c :: percentBytes rest
  | [] => []

def percentDecode (s : Text) : Text := fromUtf8Lossy (percentBytes (encodeUtf8 s))

/-- The pointer of an internal reference. -/
def internalPointer : Text → Option Text
  | '#' :: frag => if frag = [] ∨ frag.head? = some '/' then some (percentDecode frag) else none
  | _ => none

/-- `v.get("$ref").and_then(Value::as_str)`. -/
def refOf : Json → Option Text
  | .object fields => (Json.lookup fields "$ref".toList).bind Json.asStr
  | _ => none

mutual

/-- The references in a value. -/
def refStrings : Json → List Text
  | .array items => refStringsItems items
  | .object fields => (refOf (.object fields)).toList ++ refStringsFields fields
  | _ => []

def refStringsItems : List Json → List Text
  | [] => []
  | v :: items => refStrings v ++ refStringsItems items

def refStringsFields : List (Text × Json) → List Text
  | [] => []
  | (_, v) :: fields => refStrings v ++ refStringsFields fields

end

/-! ## The cache -/

/-- The references followed so far: where each one's chain ends (an index into `ends`) and through how many references. -/
structure RefCache where
  byRef : Table Text (Option (Nat × Nat)) := .empty
  ends : List Text := []
  endIds : Table Text Nat := .empty

/-- The index of a pointer in `ends`. -/
def RefCache.intern (cache : RefCache) (pointer : Text) : Nat × RefCache :=
  match cache.endIds.get? pointer with
  | some id => (id, cache)
  | none => (cache.ends.length,
      { cache with endIds := cache.endIds.insert pointer cache.ends.length, ends := cache.ends ++ [pointer] })

/-- What a value leads to. -/
inductive Reach
  | inline (v : Json)
  | target (id : Nat) (pointer : Text)
  | unresolved

/-- A byte budget. -/
structure Meter where
  left : Nat
  spent : Nat := 0
  exhausted : Bool := false
deriving DecidableEq

def Meter.charge (m : Meter) (bytes : Nat) : Bool × Meter :=
  if m.exhausted ∨ m.left < bytes then (false, { m with exhausted := true })
  else (true, { m with left := m.left - bytes, spent := m.spent + bytes })

/-- A description: its document, the references followed, and the locations of those that lead nowhere (some of them, sorted,
and their number). -/
structure Spec where
  root : Json
  refs : RefCache := {}
  unresolved : List Text × Nat := ([], 0)

namespace Spec

/-- Where one reference leads. -/
def next (root : Json) (r : Text) : Link Text Text :=
  match internalPointer r with
  | none => .lost
  | some target =>
    match root.pointer target with
    | none => .lost
    | some v =>
      match refOf v with
      | none => .ends target
      | some r' => .more r'

theorem mem_refStringsItems {items : List Json} {v : Json} (hv : v ∈ items) {r : Text} (hr : r ∈ refStrings v) :
    r ∈ refStringsItems items := by
  induction items with
  | nil => cases hv
  | cons w items ih =>
    rw [refStringsItems, List.mem_append]
    rcases List.mem_cons.1 hv with rfl | hv
    · exact .inl hr
    · exact .inr (ih hv)

theorem mem_refStringsFields {fields : List (Text × Json)} {f : Text × Json} (hf : f ∈ fields) {r : Text}
    (hr : r ∈ refStrings f.2) : r ∈ refStringsFields fields := by
  induction fields with
  | nil => cases hf
  | cons g fields ih =>
    obtain ⟨k, v⟩ := g
    rw [refStringsFields, List.mem_append]
    rcases List.mem_cons.1 hf with rfl | hf
    · exact .inl hr
    · exact .inr (ih hf)

theorem mem_refStrings_of_refOf {v : Json} {r : Text} (h : refOf v = some r) : r ∈ refStrings v := by
  cases v with
  | object fields =>
    rw [refStrings, h]
    exact List.mem_append_left _ (List.mem_singleton_self r)
  | _ => simp [refOf] at h

theorem refStrings_child {v c : Json} {t r : Text} (h : v.child t = some c) (hr : r ∈ refStrings c) : r ∈ refStrings v := by
  cases v with
  | object fields =>
    rw [refStrings]
    exact List.mem_append_right _ (mem_refStringsFields (Json.lookup_mem h) hr)
  | array items =>
    obtain ⟨i, -, hc⟩ := Option.bind_eq_some_iff.1 h
    rw [refStrings]
    exact mem_refStringsItems (List.mem_of_getElem? hc) hr
  | _ => simp [Json.child] at h

theorem refStrings_get (p : List Text) : ∀ {v c : Json}, v.get p = some c → ∀ r ∈ refStrings c, r ∈ refStrings v := by
  induction p with
  | nil =>
    intro v c h r hr
    cases h
    exact hr
  | cons t p ih =>
    intro v c h r hr
    obtain ⟨d, hd, h⟩ := Option.bind_eq_some_iff.1 h
    exact refStrings_child hd (ih h r hr)

/-- A reference that another one leads to is in the document. -/
theorem mem_refStrings_of_next {root : Json} {r r' : Text} (h : next root r = .more r') : r' ∈ refStrings root := by
  unfold next at h
  split at h
  · cases h
  · split at h
    · cases h
    · rename_i v hv
      split at h
      · cases h
      · rename_i r'' hr
        cases h
        obtain ⟨p, -, hp⟩ := Option.bind_eq_some_iff.1 hv
        exact refStrings_get p hp r' (mem_refStrings_of_refOf hr)

theorem filter_lt {l chain : List Text} {r : Text} (hr : r ∈ l) (hnot : r ∉ chain) :
    (l.filter (· ∉ chain ++ [r])).length < (l.filter (· ∉ chain)).length := by
  have hsub : l.filter (· ∉ chain ++ [r]) = (l.filter (· ∉ chain)).filter (· ≠ r) := by
    rw [List.filter_filter]
    refine List.filter_congr fun x _ => ?_
    simp [and_comm]
  rw [hsub]
  exact List.length_filter_lt_length_iff_exists.2 ⟨r, List.mem_filter.2 ⟨hr, by simpa using hnot⟩, by simp⟩

/-- The chain of references from `before` and `r` on, and where it ends and how many references come after its last one. -/
def followFrom (root : Json) (cache : RefCache) (before : List Text) (r : Text) :
    List Text × RefCache × Option (Nat × Nat) :=
  match _h : next root r with
  | .lost => (before ++ [r], cache, none)
  | .ends target => (before ++ [r], (cache.intern target).2, some ((cache.intern target).1, 0))
  | .more r' =>
    match cache.byRef.get? r' with
    | some found => (before ++ [r], cache, found)
    | none => if r' ∈ before ++ [r] then (before ++ [r], cache, none) else followFrom root cache (before ++ [r]) r'
termination_by ((refStrings root).filter (· ∉ before ++ [r])).length
decreasing_by exact filter_lt (mem_refStrings_of_next _h) ‹_›

/-- Every reference of a chain remembered. -/
def remember (cache : RefCache) (chain : List Text) (found : Option (Nat × Nat)) : RefCache :=
  let byRef := chain.zipIdx.foldl
    (fun m e => m.insert e.1 (found.map fun f => (f.1, f.2 + chain.length - e.2))) cache.byRef
  { cache with byRef }

def endOf (root : Json) (cache : RefCache) (r : Text) : Option (Nat × Nat) × RefCache :=
  match cache.byRef.get? r with
  | some found => (found, cache)
  | none =>
    let (chain, cache, found) := followFrom root cache [] r
    (found.map fun f => (f.1, f.2 + chain.length), remember cache chain found)

/-- The locations of references that lead nowhere, at most so many of them, and their number. -/
def note (u : List Text × Nat) (location : Text) : List Text × Nat :=
  if u.1.length < maxUnresolved then
    if location ∈ u.1 then u else (u.1.orderedInsert (fun a b => textLe a b) location, u.2 + 1)
  else if location ∉ u.1 then (u.1, u.2 + 1)
  else u

def noteUnresolved (s : Spec) (location : Text) : Spec := { s with unresolved := note s.unresolved location }

/-- Where `v` (at `location`) leads. -/
def reach (s : Spec) (v : Json) (location : Text) : Reach × Spec :=
  match refOf v with
  | none => (.inline v, s)
  | some r =>
    let (found, refs) := endOf s.root s.refs r
    let s := { s with refs }
    match found with
    | some (id, hops) =>
      if hops < maxRefDepth then (.target id (refs.ends.getD id []), s) else (.unresolved, s.noteUnresolved location)
    | none => (.unresolved, s.noteUnresolved location)

def targetValue (s : Spec) (pointer : Text) : Option Json := s.root.pointer pointer

def resolve (s : Spec) (v : Json) (location : Text) : Option (Json × Text) × Spec :=
  match s.reach v location with
  | (.inline v, s) => (some (v, location), s)
  | (.target _ pointer, s) => ((s.targetValue pointer).map fun v => (v, pointer), s)
  | (.unresolved, s) => (none, s)

def resolveWithin (s : Spec) (v : Json) (location : Text) (meter : Meter) : Option (Json × Text) × Spec × Meter :=
  let (ok, meter) := meter.charge (utf8Len location + ((refOf v).map utf8Len).getD 0)
  if ok then
    match s.reach v location with
    | (.inline v, s) => (some (v, location), s, meter)
    | (.target _ pointer, s) =>
      let (ok, meter) := meter.charge (utf8Len pointer)
      if ok then ((s.targetValue pointer).map fun v => (v, pointer), s, meter) else (none, s, meter)
    | (.unresolved, s) => (none, s, meter)
  else (none, s, meter)

/-! ## What the cache says -/

/-- `found` is where the chain of `r` ends: an end of the cache and a number of references, or nowhere. -/
structure Tells (root : Json) (ends : List Text) (r : Text) (found : Option (Nat × Nat)) : Prop where
  ends : ∀ id n, found = some (id, n) → ∃ p, ends[id]? = some p ∧ Leads (next root) r p n
  lost : found = none → ∀ p n, ¬Leads (next root) r p n

/-- What the cache says of a reference is so, and its ends are numbered once each. -/
structure Cached (root : Json) (cache : RefCache) : Prop where
  tells : ∀ r found, cache.byRef.get? r = some found → Tells root cache.ends r found
  ids : ∀ p id, cache.endIds.get? p = some id ↔ cache.ends[id]? = some p

theorem Tells.mono {root : Json} {ends ends' : List Text} (hsub : ends <+: ends') {r : Text} {found : Option (Nat × Nat)}
    (h : Tells root ends r found) : Tells root ends' r found where
  ends id n hfound := by
    obtain ⟨p, hp, hr⟩ := h.ends id n hfound
    obtain ⟨more, rfl⟩ := hsub
    exact ⟨p, List.getElem?_append_left (List.getElem?_eq_some_iff.1 hp).1 ▸ hp, hr⟩
  lost := h.lost

theorem Tells.nowhere {root : Json} {r : Text} (h : ∀ p n, ¬Leads (next root) r p n) (ends : List Text) :
    Tells root ends r none where
  ends _ _ hfound := by cases hfound
  lost _ := h

theorem cached_empty (root : Json) : Cached root {} where
  tells _ _ h := by cases h
  ids p id := by
    have hget : ({} : RefCache).endIds.get? p = none := rfl
    have hends : ({} : RefCache).ends[id]? = none := rfl
    rw [hget, hends]
    simp

variable {root : Json} {cache : RefCache}

theorem Cached.inj (h : Cached root cache) {i j : Nat} {p : Text} (hi : cache.ends[i]? = some p)
    (hj : cache.ends[j]? = some p) :
    i = j :=
  Option.some.inj (((h.ids p i).2 hi).symm.trans ((h.ids p j).2 hj))

/-- A pointer is numbered, and nothing else changes. -/
theorem cached_intern (h : Cached root cache) (p : Text) : Cached root (cache.intern p).2 ∧
    cache.ends <+: (cache.intern p).2.ends ∧ (cache.intern p).2.ends[(cache.intern p).1]? = some p := by
  unfold RefCache.intern
  cases hp : cache.endIds.get? p with
  | some id => exact ⟨h, List.prefix_refl _, (h.ids p id).1 hp⟩
  | none =>
    have hsub : cache.ends <+: cache.ends ++ [p] := List.prefix_append _ _
    refine ⟨⟨fun r found hr => (h.tells r found hr).mono hsub, fun q id => ?_⟩, hsub, List.getElem?_concat_length⟩
    rw [Table.get?_insert]
    by_cases hq : q = p
    · subst hq
      rw [if_pos rfl]
      constructor
      · intro hid
        rw [← Option.some.inj hid]
        exact List.getElem?_concat_length
      · intro hid
        rcases Nat.lt_trichotomy id cache.ends.length with hlt | rfl | hgt
        · rw [List.getElem?_append_left hlt] at hid
          rw [(h.ids q id).2 hid] at hp
          cases hp
        · rfl
        · rw [List.getElem?_eq_none (by rw [List.length_append, List.length_singleton]; omega)] at hid
          cases hid
    · rw [if_neg hq, h.ids]
      rcases Nat.lt_trichotomy id cache.ends.length with hlt | rfl | hgt
      · rw [List.getElem?_append_left hlt]
      · rw [List.getElem?_concat_length, List.getElem?_eq_none le_rfl]
        simp [Ne.symm hq]
      · rw [List.getElem?_eq_none (by omega), List.getElem?_eq_none
          (by rw [List.length_append, List.length_singleton]; omega)]

/-- What `followFrom` gives: a chain of references, the last of which it tells the end of. -/
structure Followed (root : Json) (cache : RefCache) (chain : List Text) (out : List Text × RefCache × Option (Nat × Nat)) :
    Prop where
  cached : Cached root out.2.1
  grows : cache.ends <+: out.2.1.ends
  extends_chain : chain <+: out.1
  linked : Linked (next root) out.1
  last : ∃ init r, out.1 = init ++ [r] ∧ Tells root out.2.1.ends r (out.2.2.map fun f => (f.1, f.2 + 1))

theorem followed_followFrom (h : Cached root cache) (before : List Text) (r : Text)
    (hlinked : Linked (next root) (before ++ [r])) :
      Followed root cache (before ++ [r]) (followFrom root cache before r) := by
  rw [followFrom]
  split
  · rename_i hlost
    refine ⟨h, List.prefix_refl _, List.prefix_refl _, hlinked, before, r, rfl, Tells.nowhere ?_ _⟩
    exact fun p n => Leads.lost_iff hlost
  · rename_i target hends
    obtain ⟨hcached, hgrows, hid⟩ := cached_intern h target
    refine ⟨hcached, hgrows, List.prefix_refl _, hlinked, before, r, rfl, ⟨fun id n hf => ?_, fun hf => by cases hf⟩⟩
    obtain ⟨rfl, rfl⟩ := Prod.mk.inj (Option.some.inj hf)
    exact ⟨target, hid, .last hends⟩
  · rename_i r' hmore
    split
    · rename_i found hfound
      have htells := h.tells r' found hfound
      refine ⟨h, List.prefix_refl _, List.prefix_refl _, hlinked, before, r, rfl, ⟨fun id n hf => ?_, fun hf p n hr => ?_⟩⟩
      · obtain ⟨f, hf', hfn⟩ := Option.map_eq_some_iff.1 hf
        obtain ⟨rfl, rfl⟩ := Prod.mk.inj hfn
        obtain ⟨p, hp, hr⟩ := htells.ends f.1 f.2 hf'
        exact ⟨p, hp, .more hmore hr⟩
      · obtain ⟨n, rfl⟩ := Nat.exists_eq_succ_of_ne_zero hr.pos.ne'
        exact htells.lost (Option.map_eq_none_iff.1 hf) p n ((Leads.more_iff hmore).1 hr)
    · split
      · rename_i hmem
        refine ⟨h, List.prefix_refl _, List.prefix_refl _, hlinked, before, r, rfl, Tells.nowhere ?_ _⟩
        exact hlinked.cyclic hmore hmem
      · rename_i hnot
        have hrest := followed_followFrom h (before ++ [r]) r' (hlinked.concat hmore)
        exact ⟨hrest.cached, hrest.grows, (List.prefix_append _ _).trans hrest.extends_chain, hrest.linked, hrest.last⟩
termination_by ((refStrings root).filter (· ∉ before ++ [r])).length
decreasing_by exact filter_lt (mem_refStrings_of_next ‹_›) ‹_›

/-- From every member of the chain one gets where its last one leads. -/
theorem Followed.member {chain : List Text} {out : List Text × RefCache × Option (Nat × Nat)}
    (h : Followed root cache chain out) {i : Nat} {r : Text} (hi : out.1[i]? = some r) :
    Tells root out.2.1.ends r (out.2.2.map fun f => (f.1, f.2 + out.1.length - i)) := by
  obtain ⟨init, last, hchain, htells⟩ := h.last
  have hlinked := h.linked
  have hlt := (List.getElem?_eq_some_iff.1 hi).1
  rw [hchain] at hlinked hi hlt ⊢
  rw [List.length_append, List.length_singleton] at hlt ⊢
  refine ⟨fun id n hfound => ?_, fun hfound => ?_⟩
  · obtain ⟨f, hf, hfn⟩ := Option.map_eq_some_iff.1 hfound
    obtain ⟨rfl, rfl⟩ := Prod.mk.inj hfn
    obtain ⟨p, hp, hreach⟩ := htells.ends f.1 (f.2 + 1) (by rw [hf]; rfl)
    have hn : f.2 + (init.length + 1) - i = f.2 + 1 + (init.length - i) := by omega
    exact ⟨p, hp, hn ▸ (hlinked.leads hi).2 hreach⟩
  · have hnone : (out.2.2.map fun f : Nat × Nat => (f.1, f.2 + 1)) = none := by
      rw [Option.map_eq_none_iff.1 hfound]
      rfl
    exact hlinked.lost (htells.lost hnone) r (List.mem_of_getElem? hi)

theorem get?_remember (chain : List Text) (found : Option (Nat × Nat)) {r : Text} {f : Option (Nat × Nat)}
    (h : (remember cache chain found).byRef.get? r = some f) : cache.byRef.get? r = some f ∨
      ∃ i, chain[i]? = some r ∧ f = found.map fun e => (e.1, e.2 + chain.length - i) := by
  have hfold : ∀ (es : List (Text × Nat)) (m : Table Text (Option (Nat × Nat))), (∀ e ∈ es, chain[e.2]? = some e.1) →
      (es.foldl (fun m e => m.insert e.1 (found.map fun f => (f.1, f.2 + chain.length - e.2))) m).get? r = some f →
      m.get? r = some f ∨ ∃ i, chain[i]? = some r ∧ f = found.map fun e => (e.1, e.2 + chain.length - i) := by
    intro es
    induction es with
    | nil => exact fun m _ hm => .inl hm
    | cons e es ih =>
      intro m hes hm
      obtain ⟨he, hes⟩ := List.forall_mem_cons.1 hes
      rcases ih _ hes hm with hget | hfound
      · rw [Table.get?_insert] at hget
        split_ifs at hget with hr
        · exact .inr ⟨e.2, hr ▸ he, (Option.some.inj hget).symm⟩
        · exact .inl hget
      · exact .inr hfound
  exact hfold chain.zipIdx cache.byRef (fun e he => List.mem_zipIdx_iff_getElem?.1 he) h

/-- **Following a reference answers as the references do**, whatever was followed before. -/
theorem cached_endOf (h : Cached root cache) (r : Text) : Cached root (endOf root cache r).2 ∧
    cache.ends <+: (endOf root cache r).2.ends ∧ Tells root (endOf root cache r).2.ends r (endOf root cache r).1 := by
  unfold endOf
  cases hr : cache.byRef.get? r with
  | some found => exact ⟨h, List.prefix_refl _, h.tells r found hr⟩
  | none =>
    have hf := followed_followFrom h [] r (linked_singleton r)
    generalize followFrom root cache [] r = out at hf
    obtain ⟨chain, cache', found⟩ := out
    refine ⟨⟨fun r' f hget => ?_, hf.cached.ids⟩, hf.grows, ?_⟩
    · rcases get?_remember chain found hget with hold | ⟨i, hi, rfl⟩
      · exact hf.cached.tells r' f hold
      · exact hf.member hi
    · have hfirst : chain[0]? = some r := by
        obtain ⟨more, hmore⟩ := hf.extends_chain
        rw [show chain = [r] ++ more from hmore.symm]
        rfl
      exact hf.member hfirst

end Spec
end Anvil.Contract
