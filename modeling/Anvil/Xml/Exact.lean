import Anvil.Xml.Document

/-!
# The scan bounds the element tree

`Yields` says when a step of the scan goes through and what it then leaves. Steps compose, so the condition of a whole
document is collected along its content.

* `Scan.Fits`, `Scan.after` : the limits for some more start tags, and the counters after them;
* `Scan.tokens_content` : the content of an element, by induction on the tree;
* `fits_iff_within`, `checkXmlLimits_exact` : the whole document, and the in-scope counter at every point of it.
-/

namespace Anvil.Xml
open Anvil.Lib

/-! ## Steps that go through -/

/-- The step leaves `v` where `c` holds, and exceeds a limit elsewhere. -/
structure Yields {α : Type} (r : Except Stop α) (c : Prop) (v : α) : Prop where
  ok : c → r = .ok v
  refused : ¬c → ∃ e, r = .error (.exceeded e)

namespace Yields
variable {α β : Type} {r : Except Stop α} {c c' : Prop} {v : α}

theorem of_eq (h : r = .ok v) (hc : c) : Yields r c v := ⟨fun _ => h, fun hn => absurd hc hn⟩

theorem congr (h : Yields r c v) (hc : c ↔ c') : Yields r
    c' v := ⟨fun h' => h.ok (hc.2 h'), fun h' => h.refused fun hn => h' (hc.1 hn)⟩

theorem bind {f : α → Except Stop β} {w : β} (h : Yields r c v) (h' : c → Yields (f v) c' w) :
    Yields (r.bind f) (c ∧ c') w := by
  constructor
  · rintro ⟨hc, hc'⟩
    rw [h.ok hc]
    exact (h' hc).ok hc'
  · intro hn
    by_cases hc : c
    · rw [h.ok hc]
      exact (h' hc).refused fun hc' => hn ⟨hc, hc'⟩
    · obtain ⟨e, he⟩ := h.refused hc
      exact ⟨e, by rw [he]; rfl⟩

theorem ok_iff (h : Yields r c v) : (∃ w, r = .ok w) ↔ c := by
  constructor
  · rintro ⟨w, hw⟩
    by_contra hc
    obtain ⟨e, he⟩ := h.refused hc
    exact absurd (hw.symm.trans he) nofun
  · exact fun hc => ⟨v, h.ok hc⟩

end Yields

/-! ## Attributes -/

/-- One attribute is within its bounds. -/
structure Attr.Within (l : XmlLimits) (a : Attr) : Prop where
  name : a.name.bytes.length ≤ l.attributeNameBytes
  declared : ∀ p, a.declaredPrefix = some p → p.length ≤ l.xmlnsPrefixBytes
  uri : a.declaredPrefix.isSome → a.value.length ≤ l.xmlnsUriBytes

theorem Tag.within_iff {l : XmlLimits} {t : Tag} :
    t.Within l ↔ t.attrs.length ≤ l.attributesPerElement ∧ ∀ a ∈ t.attrs, a.Within l :=
  ⟨fun h => ⟨h.attributes, fun a ha => ⟨h.names a ha, h.prefixes a ha, h.uris a ha⟩⟩,
    fun h => ⟨h.1, fun a ha => (h.2 a ha).name, fun a ha => (h.2 a ha).declared, fun a ha => (h.2 a ha).uri⟩⟩

theorem prefixOf_name (a : Attr) : prefixOf a.name.bytes = a.declaredPrefix.map List.length := by
  unfold prefixOf Attr.declaredPrefix
  generalize a.name.bytes = name
  cases hd : dropPrefix xmlnsName name with
  | none =>
    have hp := dropPrefix_eq_none.1 hd
    have hne : name ≠ xmlnsName := fun h => hp (h ▸ List.prefix_rfl)
    have hcolon : ¬xmlnsName ++ [0x3A] <+: name := fun h => hp ((List.prefix_append _ _).trans h)
    rw [if_neg hne, if_neg hcolon]
    rfl
  | some p =>
    obtain rfl := dropPrefix_eq_some.1 hd
    cases p with
    | nil =>
      rw [List.append_nil, if_pos rfl]
      rfl
    | cons c p =>
      have hne : xmlnsName ++ c :: p ≠ xmlnsName := fun h => by
        have := congrArg List.length h
        rw [List.length_append, List.length_cons] at this
        omega
      have hcolon : xmlnsName ++ [0x3A] <+: xmlnsName ++ c :: p ↔ c = 0x3A := by
        rw [List.prefix_append_right_inj, List.cons_prefix_cons, and_iff_left List.nil_prefix, eq_comm]
      simp only
      rw [if_neg hne]
      by_cases hc : c = 0x3A
      · rw [if_pos hc, if_pos (hcolon.2 hc)]
        rfl
      · rw [if_neg hc, if_neg (mt hcolon.1 hc)]
        rfl

/-- The declarations among some attributes. -/
def declaredIn (attrs : List Attr) : Nat := attrs.countP fun a => a.declaredPrefix.isSome

theorem declaredIn_cons (a : Attr) (more : List Attr) :
    declaredIn (a :: more) = declares a.name.bytes + declaredIn more := by
  unfold declaredIn declares
  rw [List.countP_cons, prefixOf_name, Option.isSome_map]
  omega

namespace Scan

/-- The counters are within their limits. -/
structure Room (s : Scan) : Prop where
  pairs : s.pairs ≤ s.limits.attributePairs
  pairs_max : s.pairs ≤ usizeMax
  xmlns : s.xmlns ≤ s.limits.xmlnsDeclarations
  work : s.work ≤ s.limits.namespaceScopeWork
  work_max : s.work ≤ usizeMax

theorem takes_iff {s : Scan} (h : s.Room) {n : Nat} {a : Attr} :
    s.Takes n a.name.bytes a.value.length ↔ a.Within s.limits ∧ n + 1 ≤ s.limits.attributesPerElement ∧
      satAdd s.pairs n ≤ s.limits.attributePairs ∧ s.xmlns + declares a.name.bytes ≤ s.limits.xmlnsDeclarations := by
  have hp := prefixOf_name a
  unfold declares
  cases hd : a.declaredPrefix with
  | none =>
    rw [hd, Option.map_none] at hp
    rw [hp]
    constructor
    · intro ht
      exact ⟨⟨ht.nameLength, by simp [hd], by simp [hd]⟩, ht.attributes, ht.pairs, h.xmlns⟩
    · rintro ⟨hw, h₁, h₂, -⟩
      exact ⟨h₁, h₂, hw.name, by simp [hp]⟩
  | some p =>
    rw [hd, Option.map_some] at hp
    rw [hp]
    constructor
    · intro ht
      obtain ⟨h₁, h₂, h₃⟩ := ht.xmlns p.length hp
      refine ⟨⟨ht.nameLength, fun q hq => ?_, fun _ => h₃⟩, ht.attributes, ht.pairs, h₁⟩
      obtain rfl : p = q := Option.some.inj (hd.symm.trans hq)
      exact h₂
    · rintro ⟨hw, h₁, h₂, h₃⟩
      refine ⟨h₁, h₂, hw.name, fun length hl => ?_⟩
      obtain rfl : p.length = length := Option.some.inj (hp.symm.trans hl)
      exact ⟨h₃, hw.declared p hd, hw.uri (by rw [hd]; rfl)⟩

/-- Some more attributes, after `n` others on their start tag, break no limit. -/
structure FitsAttrs (s : Scan) (n : Nat) (attrs : List Attr) : Prop where
  within : ∀ a ∈ attrs, a.Within s.limits
  attributes : attrs ≠ [] → n + attrs.length ≤ s.limits.attributesPerElement
  pairs : satAdd s.pairs (n * attrs.length + attrs.length * (attrs.length - 1) / 2) ≤ s.limits.attributePairs
  xmlns : s.xmlns + declaredIn attrs ≤ s.limits.xmlnsDeclarations

def afterAttrs (s : Scan) (n : Nat) (attrs : List Attr) : Scan :=
  { s with
    pairs := satAdd s.pairs (n * attrs.length + attrs.length * (attrs.length - 1) / 2)
    xmlns := s.xmlns + declaredIn attrs }

/-- The pairs of `k + 1` attributes after `n` others: those of the first, and those of the rest. -/
theorem pairs_succ (n k : Nat) :
    n * (k + 1) + (k + 1) * (k + 1 - 1) / 2 = n + ((n + 1) * k + k * (k - 1) / 2) := by
  rw [Nat.triangle_succ, Nat.mul_succ, Nat.succ_mul]
  omega

theorem fitsAttrs_cons {s : Scan} (h : s.Room) {n : Nat} {a : Attr} {more : List Attr} :
    s.Takes n a.name.bytes a.value.length ∧ (s.taken n a.name.bytes).FitsAttrs (n + 1) more ↔
      s.FitsAttrs n (a :: more) := by
  rw [takes_iff h]
  constructor
  · rintro ⟨⟨ha, hn, -, -⟩, hm⟩
    refine ⟨List.forall_mem_cons.2 ⟨ha, hm.within⟩, fun _ => ?_, ?_, ?_⟩
    · rw [List.length_cons]
      by_cases hnil : more = []
      · rw [hnil]
        exact hn
      · have := hm.attributes hnil
        exact (by omega : n + (more.length + 1) ≤ (s.taken n a.name.bytes).limits.attributesPerElement)
    · rw [List.length_cons, pairs_succ, ← satAdd_satAdd]
      exact hm.pairs
    · rw [declaredIn_cons, ← Nat.add_assoc]
      exact hm.xmlns
  · intro hf
    have hlen := hf.attributes (List.cons_ne_nil a more)
    have hpairs := hf.pairs
    have hxmlns := hf.xmlns
    rw [List.length_cons] at hlen
    rw [List.length_cons, pairs_succ] at hpairs
    rw [declaredIn_cons] at hxmlns
    refine ⟨⟨hf.within a List.mem_cons_self, by omega, (satAdd_mono _ (Nat.le_add_right _ _)).trans hpairs, by omega⟩,
      fun b hb => hf.within b (List.mem_cons_of_mem a hb), fun _ => ?_, ?_, ?_⟩
    · exact (by omega : n + 1 + more.length ≤ s.limits.attributesPerElement)
    · exact (satAdd_satAdd _ _ _).trans_le hpairs
    · exact (by omega : s.xmlns + declares a.name.bytes + declaredIn more ≤ s.limits.xmlnsDeclarations)

theorem Takes.room {s : Scan} (h : s.Room) {n : Nat} {a : Attr} (ht : s.Takes n a.name.bytes a.value.length) :
    (s.taken n a.name.bytes).Room :=
  ⟨ht.pairs, satAdd_le_max _ _, ((takes_iff h).1 ht).2.2.2, h.work, h.work_max⟩

/-- The attributes of a start tag, by induction on those still to come. -/
theorem countAttrs_yields {s : Scan} (h : s.Room) (n declared : Nat) (attrs : List Attr) :
    Yields (s.countAttrs n declared attrs) (s.FitsAttrs n attrs)
      (s.afterAttrs n attrs, n + attrs.length, declared + declaredIn attrs) := by
  induction attrs generalizing s n declared with
  | nil =>
    refine .of_eq ?_ ⟨by simp, fun h => absurd rfl h, ?_, h.xmlns⟩
    · unfold afterAttrs
      simp only [List.length_nil, Nat.mul_zero, Nat.zero_mul, Nat.zero_div, Nat.add_zero, satAdd_zero h.pairs_max]
      rfl
    · simp only [List.length_nil, Nat.mul_zero, Nat.zero_mul, Nat.zero_div, Nat.add_zero, satAdd_zero h.pairs_max]
      exact h.pairs
  | cons a more ih =>
    have hafter : (s.taken n a.name.bytes).afterAttrs (n + 1) more = s.afterAttrs n (a :: more) := by
      unfold afterAttrs taken
      simp only
      rw [satAdd_satAdd, List.length_cons, pairs_succ, declaredIn_cons, Nat.add_assoc]
    have hstep : Yields (s.countAttribute n declared a.name.bytes a.value.length)
        (s.Takes n a.name.bytes a.value.length) (s.taken n a.name.bytes, n + 1, declared + declares a.name.bytes) :=
      ⟨fun ht => countAttribute_taken ht declared, fun hn => countAttribute_refused hn declared⟩
    have hrest := hstep.bind (f := fun r => r.1.countAttrs r.2.1 r.2.2 more) fun ht =>
      ih (ht.room h) (n + 1) (declared + declares a.name.bytes)
    rw [hafter] at hrest
    rw [List.length_cons, Nat.add_comm more.length 1, declaredIn_cons, ← Nat.add_assoc, ← Nat.add_assoc]
    exact hrest.congr (fitsAttrs_cons h)

/-! ## Start tags -/

/-- Some more start tags, with the scopes of those that declare a namespace, break no limit. -/
structure Fits (s : Scan) (tags : List Tag) (scopes : List Nat) : Prop where
  within : ∀ t ∈ tags, t.Within s.limits
  pairs : satAdd s.pairs (pairsOf tags) ≤ s.limits.attributePairs
  xmlns : s.xmlns + (tags.map Tag.declared).sum ≤ s.limits.xmlnsDeclarations
  inScope : ∀ n ∈ scopes, n ≤ s.limits.inScopeNamespaces
  work : satAdd s.work (workOf scopes) ≤ s.limits.namespaceScopeWork

/-- The counters after these start tags. -/
def after (s : Scan) (tags : List Tag) (scopes : List Nat) : Scan :=
  { s with
    pairs := satAdd s.pairs (pairsOf tags)
    xmlns := s.xmlns + (tags.map Tag.declared).sum
    work := satAdd s.work (workOf scopes) }

theorem Room.fits_nil {s : Scan} (h : s.Room) : s.Fits [] [] :=
  ⟨by simp, (satAdd_zero h.pairs_max).trans_le h.pairs, h.xmlns, by simp, (satAdd_zero h.work_max).trans_le h.work⟩

theorem Room.after_nil {s : Scan} (h : s.Room) : s.after [] [] = s := by
  unfold after pairsOf workOf
  simp only [List.map_nil, List.sum_nil, Nat.add_zero, satAdd_zero h.pairs_max, satAdd_zero h.work_max]

theorem Fits.room {s : Scan} {tags : List Tag} {scopes : List Nat} (h : s.Fits tags scopes) :
    (s.after tags scopes).Room :=
  ⟨h.pairs, satAdd_le_max _ _, h.xmlns, h.work, satAdd_le_max _ _⟩

section Append
variable (s : Scan) (tags tags' : List Tag) (scopes scopes' : List Nat)

theorem pairsOf_append : pairsOf (tags ++ tags') = pairsOf tags + pairsOf tags' := by
  unfold pairsOf
  rw [List.map_append, List.sum_append]

theorem workOf_append : workOf (scopes ++ scopes') = workOf scopes + workOf scopes' := by
  unfold workOf
  rw [List.map_append, List.sum_append]

theorem after_append :
    (s.after tags scopes).after tags' scopes' = s.after (tags ++ tags') (scopes ++ scopes') := by
  unfold after
  simp only
  rw [satAdd_satAdd, satAdd_satAdd, pairsOf_append, workOf_append, List.map_append, List.sum_append, Nat.add_assoc]

theorem fits_append :
    s.Fits tags scopes ∧ (s.after tags scopes).Fits tags' scopes' ↔ s.Fits (tags ++ tags') (scopes ++ scopes') := by
  constructor
  · rintro ⟨h, h'⟩
    refine ⟨List.forall_mem_append.2 ⟨h.within, h'.within⟩, ?_, ?_, List.forall_mem_append.2 ⟨h.inScope, h'.inScope⟩, ?_⟩
    · rw [pairsOf_append, ← satAdd_satAdd]
      exact h'.pairs
    · rw [List.map_append, List.sum_append, ← Nat.add_assoc]
      exact h'.xmlns
    · rw [workOf_append, ← satAdd_satAdd]
      exact h'.work
  · rintro ⟨hw, hp, hx, hi, hs⟩
    rw [List.forall_mem_append] at hw hi
    rw [pairsOf_append] at hp
    rw [List.map_append, List.sum_append] at hx
    rw [workOf_append] at hs
    refine ⟨⟨hw.1, (satAdd_mono _ (Nat.le_add_right _ _)).trans hp, by omega, hi.1,
      (satAdd_mono _ (Nat.le_add_right _ _)).trans hs⟩, hw.2, ?_, ?_, hi.2, ?_⟩
    · exact (satAdd_satAdd _ _ _).trans_le hp
    · exact (Nat.add_assoc _ _ _).trans_le hx
    · exact (satAdd_satAdd _ _ _).trans_le hs

end Append

/-- The scope of one start tag. -/
def scopeOf (outer : Nat) (t : Tag) : List Nat := if 0 < t.declared then [outer + t.declared] else []

theorem satAdd_satSquare (w n : Nat) : satAdd w (satSquare n) = satAdd w (n ^ 2) := by
  unfold satAdd satSquare
  rw [pow_two]
  omega

theorem charged_afterAttrs {s : Scan} (h : s.Room) (t : Tag) :
    (s.afterAttrs 0 t.attrs).charged t.declared = s.after [t] (scopeOf s.inScope t) := by
  unfold charged afterAttrs after scopeOf pairsOf workOf
  simp only [List.map_cons, List.map_nil, List.sum_cons, List.sum_nil, Nat.add_zero, Nat.zero_mul, Nat.zero_add]
  split_ifs
  · rw [satAdd_satSquare]
    rfl
  · rw [List.map_nil, List.sum_nil, satAdd_zero h.work_max]
    rfl

theorem fits_tag {s : Scan} (h : s.Room) (t : Tag) :
    s.FitsAttrs 0 t.attrs ∧ (s.afterAttrs 0 t.attrs).Opens t.declared ↔ s.Fits [t] (scopeOf s.inScope t) := by
  have hpairs : 0 * t.attrs.length + t.attrs.length * (t.attrs.length - 1) / 2 = pairsOf [t] := by
    rw [Nat.zero_mul, Nat.zero_add]
    rfl
  have hopens : (s.afterAttrs 0 t.attrs).Opens t.declared ↔
      (∀ n ∈ scopeOf s.inScope t, n ≤ s.limits.inScopeNamespaces) ∧
        satAdd s.work (workOf (scopeOf s.inScope t)) ≤ s.limits.namespaceScopeWork := by
    unfold Opens scopeOf
    by_cases hd : 0 < t.declared
    · rw [if_pos hd, List.forall_mem_singleton, satAdd_satSquare]
      exact ⟨fun ho => ho hd, fun ho _ => ho⟩
    · rw [if_neg hd]
      exact ⟨fun _ => ⟨by simp, (satAdd_zero h.work_max).trans_le h.work⟩, fun _ hd' => absurd hd' hd⟩
  rw [hopens]
  constructor
  · rintro ⟨ha, hi, hw⟩
    refine ⟨List.forall_mem_singleton.2 (Tag.within_iff.2 ⟨?_, ha.within⟩), hpairs ▸ ha.pairs, ha.xmlns, hi, hw⟩
    by_cases hnil : t.attrs = []
    · rw [hnil]
      exact Nat.zero_le _
    · have := ha.attributes hnil
      omega
  · rintro ⟨ht, hp, hx, hi, hw⟩
    obtain ⟨hlen, ha⟩ := Tag.within_iff.1 (List.forall_mem_singleton.1 ht)
    exact ⟨⟨ha, fun _ => by omega, hpairs ▸ hp, hx⟩, hi, hw⟩

theorem tag_yields {s : Scan} (h : s.Room) (t : Tag) (empty : Bool) :
    Yields ((s.countAttrs 0 0 t.attrs).bind fun r => r.1.closeStartTag r.2.2 empty)
      (s.Fits [t] (scopeOf s.inScope t))
      (if empty then s.after [t] (scopeOf s.inScope t)
        else (s.after [t] (scopeOf s.inScope t)).inside t.declared) := by
  have hclose : Yields ((s.afterAttrs 0 t.attrs).closeStartTag t.declared empty)
      ((s.afterAttrs 0 t.attrs).Opens t.declared)
      (if empty then (s.afterAttrs 0 t.attrs).charged t.declared
        else ((s.afterAttrs 0 t.attrs).charged t.declared).inside t.declared) :=
    ⟨fun ho => closeStartTag_opens ho empty, fun hn => closeStartTag_refused hn empty⟩
  rw [charged_afterAttrs h] at hclose
  have hcount := countAttrs_yields h 0 0 t.attrs
  rw [Nat.zero_add (declaredIn t.attrs)] at hcount
  exact (hcount.bind (f := fun r => r.1.closeStartTag r.2.2 empty) fun _ => hclose).congr (fits_tag h t)

theorem token_empty {s : Scan} (h : s.Room) (t : Tag) :
    Yields (s.token (.empty t)) (s.Fits [t] (scopeOf s.inScope t)) (s.after [t] (scopeOf s.inScope t)) :=
  tag_yields h t true

theorem token_start {s : Scan} (h : s.Room) (t : Tag) :
    Yields (s.token (.start t)) (s.Fits [t] (scopeOf s.inScope t))
      ((s.after [t] (scopeOf s.inScope t)).inside t.declared) :=
  tag_yields h t false

/-! ## Content -/

theorem Room.inside {s : Scan} (h : s.Room) (declared : Nat) : (s.inside declared).Room :=
  ⟨h.pairs, h.pairs_max, h.xmlns, h.work, h.work_max⟩

theorem fits_inside {s : Scan} {declared : Nat} {tags : List Tag} {scopes : List Nat} :
    (s.inside declared).Fits tags scopes ↔ s.Fits tags scopes :=
  ⟨fun h => ⟨h.within, h.pairs, h.xmlns, h.inScope, h.work⟩, fun h => ⟨h.within, h.pairs, h.xmlns, h.inScope, h.work⟩⟩

/-- Every scope on the stack belongs to an open element. -/
def Deep (s : Scan) : Prop := ∀ p ∈ s.scopes, p.1 < s.depth

theorem Deep.inside {s : Scan} (h : s.Deep) (declared : Nat) : (s.inside declared).Deep := by
  intro p hp
  unfold Scan.inside at hp ⊢
  simp only at hp ⊢
  split_ifs at hp
  · rcases List.mem_cons.1 hp with rfl | hp
    · exact Nat.lt_succ_self _
    · exact (h p hp).trans (Nat.lt_succ_self _)
  · exact (h p hp).trans (Nat.lt_succ_self _)

/-- An end tag takes back what the start tag of the same element added. -/
theorem endTag_inside {s : Scan} (h : s.Deep) (declared : Nat) : (s.inside declared).endTag = .ok s := by
  obtain ⟨limits, xmlns, pairs, depth, scopes, inScope, work⟩ := s
  unfold Scan.inside endTag
  by_cases hd : 0 < declared
  · simp only [if_pos hd, Nat.add_sub_cancel, if_true, checkedSub_of_le (Nat.le_add_left _ _)]
  · obtain rfl : declared = 0 := Nat.eq_zero_of_not_pos hd
    cases scopes with
    | nil => rfl
    | cons p outer =>
      have hp : p.1 ≠ depth := (h p List.mem_cons_self).ne
      simp only [if_neg hd, Nat.add_sub_cancel, if_neg hp, Nat.add_zero]

theorem tokens_cons (s : Scan) (tok : Token) (l : List Token) :
    s.tokens (tok :: l) = (s.token tok).bind fun s => s.tokens l := List.foldlM_cons

theorem tokens_append (s : Scan) (l l' : List Token) :
    s.tokens (l ++ l') = (s.tokens l).bind fun s => s.tokens l' := List.foldlM_append

/-- **The content of an element goes through exactly when its start tags fit**, and leaves the stack as it was. -/
theorem tokens_content {s : Scan} (h : s.Room) (hd : s.Deep) (c : Content) :
    Yields (s.tokens c.tokens) (s.Fits c.tags (c.scopes s.inScope)) (s.after c.tags (c.scopes s.inScope)) := by
  induction c generalizing s with
  | nil => exact .of_eq (congrArg Except.ok h.after_nil.symm) h.fits_nil
  | chars _ rest ih => exact ih h hd
  | comment _ rest ih => exact ih h hd
  | cdata _ rest ih => exact ih h hd
  | pi _ rest ih => exact ih h hd
  | empty tag rest ih =>
    have hrest := (token_empty h tag).bind (f := fun s => s.tokens rest.tokens) fun hf => ih hf.room hd
    rw [after_append] at hrest
    unfold Content.tokens
    rw [tokens_cons]
    exact hrest.congr (fits_append ..)
  | element tag children close rest ihc ihr =>
    let s₁ := s.after [tag] (scopeOf s.inScope tag)
    let s₂ := s₁.after children.tags (children.scopes (s.inScope + tag.declared))
    have hclose (hr : s₂.Room) : Yields ((s₂.inside tag.declared).tokens (.close tag.name close :: rest.tokens))
        (s₂.Fits rest.tags (rest.scopes s.inScope)) (s₂.after rest.tags (rest.scopes s.inScope)) := by
      rw [tokens_cons]
      show Yields (((s₂.inside tag.declared).endTag).bind fun s => s.tokens rest.tokens) _ _
      rw [endTag_inside (show s₂.Deep from hd) tag.declared]
      exact ihr hr hd
    have hchildren (hr : s₁.Room) :
        Yields ((s₁.inside tag.declared).tokens (children.tokens ++ .close tag.name close :: rest.tokens))
          (s₁.Fits (children.tags ++ rest.tags) (children.scopes (s.inScope + tag.declared) ++ rest.scopes s.inScope))
          (s₂.after rest.tags (rest.scopes s.inScope)) := by
      rw [tokens_append]
      have hc := ihc (hr.inside tag.declared) (Deep.inside (show s₁.Deep from hd) tag.declared)
      have hcr := (hc.congr fits_inside).bind (f := fun s => s.tokens (.close tag.name close :: rest.tokens))
        fun hf => hclose hf.room
      exact hcr.congr (fits_append ..)
    have hall := (token_start h tag).bind
      (f := fun s => s.tokens (children.tokens ++ .close tag.name close :: rest.tokens)) fun hf => hchildren hf.room
    rw [show s₂.after rest.tags (rest.scopes s.inScope) = s.after _ _ by rw [after_append, after_append]] at hall
    unfold Content.tokens
    rw [tokens_cons]
    exact hall.congr (fits_append ..)

end Scan

/-! ## The open elements -/

/-- The start tags of the open elements after a token, the innermost first. -/
def Token.nest (stack : List Tag) : Token → List Tag
  | .start t => t :: stack
  | .close _ _ => stack.tail
  | .chars _ | .comment _ | .cdata _ | .pi _ | .empty _ => stack

def openTags (l : List Token) : List Tag := l.foldl Token.nest []

def stackScopes : List Tag → List (Nat × Nat)
  | [] => []
  | t :: outer => if 0 < t.declared then (outer.length, t.declared) :: stackScopes outer else stackScopes outer

theorem stackScopes_lt {stack : List Tag} : ∀ p ∈ stackScopes stack, p.1 < stack.length := by
  induction stack with
  | nil => exact fun p hp => absurd hp List.not_mem_nil
  | cons t outer ih =>
    intro p hp
    rw [List.length_cons]
    unfold stackScopes at hp
    split_ifs at hp
    · rcases List.mem_cons.1 hp with rfl | hp
      · exact Nat.lt_succ_self _
      · exact (ih p hp).trans (Nat.lt_succ_self _)
    · exact (ih p hp).trans (Nat.lt_succ_self _)

namespace Scan

/-- The stack of the scan is that of the open elements. -/
structure Mirrors (s : Scan) (stack : List Tag) : Prop where
  room : s.Room
  depth : s.depth = stack.length
  scopes : s.scopes = stackScopes stack
  inScope : s.inScope = (stack.map Tag.declared).sum

theorem Mirrors.inside {s : Scan} {stack : List Tag} (h : s.Mirrors stack) (t : Tag) :
    (s.inside t.declared).Mirrors (t :: stack) := by
  refine ⟨h.room.inside _, congrArg (· + 1) h.depth, ?_, ?_⟩
  · unfold Scan.inside stackScopes
    rw [h.depth, h.scopes]
  · rw [List.map_cons, List.sum_cons, ← h.inScope, Nat.add_comm]
    rfl

theorem Mirrors.after {s : Scan} {stack tags : List Tag} {scopes : List Nat} (h : s.Mirrors stack)
    (hf : s.Fits tags scopes) : (s.after tags scopes).Mirrors stack := ⟨hf.room, h.depth, h.scopes, h.inScope⟩

theorem Mirrors.endTag {s : Scan} {stack : List Tag} (h : s.Mirrors stack) :
    ∃ s', s.endTag = .ok s' ∧ s'.Mirrors stack.tail := by
  cases stack with
  | nil =>
    refine ⟨{ s with depth := s.depth - 1 }, ?_, ?_⟩
    · unfold Scan.endTag
      rw [h.scopes]
      rfl
    · exact ⟨⟨h.room.pairs, h.room.pairs_max, h.room.xmlns, h.room.work, h.room.work_max⟩,
        by rw [h.depth]; rfl, h.scopes, h.inScope⟩
  | cons t outer =>
    -- the scan is inside the innermost element, as it was when that was opened
    let s₀ := { s with depth := outer.length, scopes := stackScopes outer, inScope := (outer.map Tag.declared).sum }
    have hs₀ : s₀.Mirrors outer :=
      ⟨⟨h.room.pairs, h.room.pairs_max, h.room.xmlns, h.room.work, h.room.work_max⟩, rfl, rfl, rfl⟩
    have hs : s = s₀.inside t.declared := by
      have hi := hs₀.inside t
      obtain ⟨limits, xmlns, pairs, depth, scopes, inScope, work⟩ := s
      obtain ⟨-, rfl, rfl, rfl⟩ := h
      unfold Scan.inside
      rw [Scan.mk.injEq]
      exact ⟨rfl, rfl, rfl, hi.depth.symm, hi.scopes.symm, hi.inScope.symm, rfl⟩
    exact ⟨s₀, by rw [hs, endTag_inside (show s₀.Deep from stackScopes_lt)], hs₀⟩

theorem Mirrors.token {s : Scan} {stack : List Tag} (h : s.Mirrors stack) (tok : Token) :
    (∃ e, s.token tok = .error (.exceeded e)) ∨ ∃ s', s.token tok = .ok s' ∧ s'.Mirrors (tok.nest stack) := by
  cases tok with
  | chars _ => exact .inr ⟨s, rfl, h⟩
  | comment _ => exact .inr ⟨s, rfl, h⟩
  | cdata _ => exact .inr ⟨s, rfl, h⟩
  | pi _ => exact .inr ⟨s, rfl, h⟩
  | empty t =>
    by_cases hf : s.Fits [t] (scopeOf s.inScope t)
    · exact .inr ⟨_, (token_empty h.room t).ok hf, h.after hf⟩
    · exact .inl ((token_empty h.room t).refused hf)
  | start t =>
    by_cases hf : s.Fits [t] (scopeOf s.inScope t)
    · exact .inr ⟨_, (token_start h.room t).ok hf, (h.after hf).inside t⟩
    · exact .inl ((token_start h.room t).refused hf)
  | close _ _ => exact .inr h.endTag

theorem Mirrors.tokens {s : Scan} {stack : List Tag} (h : s.Mirrors stack) (l : List Token) :
    (∃ e, s.tokens l = .error (.exceeded e)) ∨
    ∃ s', s.tokens l = .ok s' ∧ s'.Mirrors (l.foldl Token.nest stack) := by
  induction l generalizing s stack with
  | nil => exact .inr ⟨s, rfl, h⟩
  | cons tok l ih =>
    rw [tokens_cons]
    rcases h.token tok with ⟨e, he⟩ | ⟨s', hs, h'⟩
    · exact .inl ⟨e, by rw [he]; rfl⟩
    · rw [hs]
      exact ih h'

theorem room_new (limits : XmlLimits) : Room { limits } :=
  ⟨Nat.zero_le _, Nat.zero_le _, Nat.zero_le _, Nat.zero_le _, Nat.zero_le _⟩

theorem mirrors_new (limits : XmlLimits) : Mirrors { limits } [] := ⟨room_new limits, rfl, rfl, rfl⟩

theorem tokens_misc (s : Scan) (l : List Misc) : s.tokens (l.map Misc.token) = .ok s := by
  induction l with
  | nil => rfl
  | cons m l ih =>
    rw [List.map_cons, tokens_cons]
    cases m <;> exact ih

theorem tokens_document (s : Scan) (d : Document) : s.tokens d.tokens = s.tokens d.root.content.tokens := by
  have hbom : s.tokens (if d.bom then [.chars bomChars] else []) = .ok s := by
    split_ifs <;> rfl
  unfold Document.tokens
  rw [tokens_append, tokens_append, tokens_append, hbom]
  show ((s.tokens (d.prolog.map Misc.token)).bind _).bind _ = _
  rw [tokens_misc]
  show (s.tokens d.root.content.tokens).bind _ = _
  cases s.tokens d.root.content.tokens with
  | error e => rfl
  | ok s' => exact tokens_misc s' d.epilog

end Scan

theorem fits_iff_within (limits : XmlLimits) (d : Document) :
    Scan.Fits { limits } d.root.content.tags (d.root.content.scopes 0) ↔ Within saturated limits d := by
  have hsat : ∀ n, satAdd 0 n = saturated n := fun n => by
    unfold satAdd saturated
    rw [Nat.zero_add]
  have hzero := Nat.zero_add (d.root.content.tags.map Tag.declared).sum
  constructor
  · intro h
    exact ⟨h.within, (hsat _).symm.trans_le h.pairs, hzero.symm.trans_le h.xmlns, h.inScope,
      (hsat _).symm.trans_le h.work⟩
  · intro h
    exact ⟨h.tags, (hsat _).trans_le h.pairs, hzero.trans_le h.declarations, h.inScope, (hsat _).trans_le h.work⟩

theorem checkXmlLimits_eq (d : Document) (limits : XmlLimits) :
    checkXmlLimits d.text limits = (Scan.tokens { limits } d.root.content.tokens).bind fun _ => .ok () := by
  unfold checkXmlLimits Document.text
  rw [← List.append_nil (d.tokens.flatMap Token.bytes), Scan.loop_tokens, Scan.tokens_document]
  simp only [Scan.loop_nil]

theorem checkXmlLimits_iff (d : Document) (limits : XmlLimits) :
    checkXmlLimits d.text limits = .ok () ↔ Within saturated limits d := by
  have hdeep : Scan.Deep { limits } := fun p hp => absurd hp List.not_mem_nil
  have h := Scan.tokens_content (Scan.room_new limits) hdeep d.root.content
  rw [checkXmlLimits_eq, ← fits_iff_within, ← h.ok_iff]
  cases Scan.tokens { limits } d.root.content.tokens with
  | error e => simp [Except.bind]
  | ok s => simp [Except.bind]

/-- **The scan accepts exactly the documents within the limits**, its in-scope counter never underflows, and after any
number of tokens it is the number of declarations of the open elements. -/
theorem checkXmlLimits_exact (limits : XmlLimits) :
    (∀ d : Document, checkXmlLimits d.text limits = .ok () ↔ Within saturated limits d) ∧
    (∀ text, checkXmlLimits text limits ≠ .error .underflow) ∧
    ∀ (d : Document) (n : Nat),
      (∃ e, ∀ rest, checkXmlLimits ((d.tokens.take n).flatMap Token.bytes ++ rest) limits = .error (.exceeded e)) ∨
      ∃ s : Scan, Scan.tokens { limits } (d.tokens.take n) = .ok s ∧
        (∀ rest, checkXmlLimits ((d.tokens.take n).flatMap Token.bytes ++ rest) limits = s.loop rest) ∧
        s.inScope = ((openTags (d.tokens.take n)).map Tag.declared).sum := by
  refine ⟨fun d => checkXmlLimits_iff d limits, fun text => checkXmlLimits_ne_underflow text limits, fun d n => ?_⟩
  unfold checkXmlLimits
  rcases (Scan.mirrors_new limits).tokens (d.tokens.take n) with ⟨e, he⟩ | ⟨s, hs, hm⟩
  · refine .inl ⟨e, fun rest => ?_⟩
    rw [Scan.loop_tokens, he]
    rfl
  · refine .inr ⟨s, hs, fun rest => ?_, hm.inScope⟩
    rw [Scan.loop_tokens, hs]
    rfl

/-! ## Where the sums saturate -/

def xmlnsAttr : Attr where
  before := { bytes := [0x20] }
  before_ne := by decide
  name := ⟨xmlnsName, by decide, by decide⟩
  quote := 0x27
  isQuote_quote := rfl
  value := [0x75]
  quote_notMem := by decide

/-- `<a xmlns='u'>`. -/
def chainTag : Tag where
  name := ⟨[0x61], by decide, by decide⟩
  attrs := [xmlnsAttr]

/-- That many elements, each inside the one before it. -/
def chain : Nat → Content
  | 0 => .nil
  | n + 1 => .element chainTag (chain n) {} .nil

theorem chain_tags (n : Nat) : (chain n).tags = List.replicate n chainTag := by
  induction n with
  | zero => rfl
  | succ n ih =>
    unfold chain Content.tags
    rw [ih, Content.tags, List.append_nil]
    rfl

theorem chain_scopes_le (n outer : Nat) : ∀ k ∈ (chain n).scopes outer, k ≤ outer + n := by
  induction n generalizing outer with
  | zero => exact fun k hk => absurd hk List.not_mem_nil
  | succ n ih =>
    intro k hk
    have hcons : (chain (n + 1)).scopes outer = (outer + 1) :: (chain n).scopes (outer + 1) := by
      show [outer + 1] ++ ((chain n).scopes (outer + 1) ++ []) = _
      rw [List.append_nil]
      rfl
    rw [hcons] at hk
    rcases List.mem_cons.1 hk with rfl | hk
    · omega
    · have := ih (outer + 1) k hk
      omega

/-- The squares of a chain sum to a third of a cube. -/
theorem chain_work (n outer : Nat) : (outer + n) ^ 3 ≤ 3 * workOf ((chain n).scopes outer) + outer ^ 3 := by
  induction n generalizing outer with
  | zero => exact Nat.le_add_left _ _
  | succ n ih =>
    have hcons : workOf ((chain (n + 1)).scopes outer) = (outer + 1) ^ 2 + workOf ((chain n).scopes (outer + 1)) := by
      show workOf ([outer + 1] ++ ((chain n).scopes (outer + 1) ++ [])) = _
      rw [List.append_nil]
      rfl
    have := ih (outer + 1)
    rw [hcons]
    ring_nf at this ⊢
    omega

def unlimited : XmlLimits :=
  ⟨usizeMax, usizeMax, usizeMax, usizeMax, usizeMax, usizeMax, usizeMax, usizeMax⟩

def chainDocument (n : Nat) : Document := { root := .element chainTag (chain n) {} }

theorem chainDocument_content (n : Nat) : (chainDocument n).root.content = chain (n + 1) := rfl

theorem chain_within {n : Nat} (hn : n < usizeMax) : Within saturated unlimited (chainDocument n) := by
  have hmax : (6 : Nat) ≤ usizeMax := by decide
  refine ⟨?_, Nat.min_le_right _ _, ?_, ?_, Nat.min_le_right _ _⟩
  · rw [chainDocument_content, chain_tags]
    intro t ht
    rw [List.eq_of_mem_replicate ht]
    refine Tag.within_iff.2 ⟨show 1 ≤ usizeMax by omega, List.forall_mem_singleton.2 ⟨?_, ?_, ?_⟩⟩
    · exact show 5 ≤ usizeMax by omega
    · rintro p hp
      obtain rfl : [] = p := Option.some.inj hp
      exact Nat.zero_le _
    · exact fun _ => show 1 ≤ usizeMax by omega
  · rw [chainDocument_content, chain_tags, List.map_replicate, List.sum_replicate]
    show (n + 1) * 1 ≤ usizeMax
    omega
  · intro k hk
    have := chain_scopes_le (n + 1) 0 k hk
    exact show k ≤ usizeMax by omega

theorem chain_not_within {n : Nat} (hn : 3 * usizeMax < (n + 1) ^ 3) : ¬Within id unlimited (chainDocument n) := by
  intro h
  have hwork : workOf ((chain (n + 1)).scopes 0) ≤ usizeMax := h.work
  have hcube := chain_work (n + 1) 0
  rw [Nat.zero_add] at hcube
  omega

/-- Four million nested declarations cost more than `usize::MAX`, and no limit says so. -/
theorem chain_unbounded :
    ¬∀ (d : Document) (l : XmlLimits), checkXmlLimits d.text l = .ok () ↔ Within id l d := by
  intro h
  obtain ⟨n, hn, hcube⟩ : ∃ n, n < usizeMax ∧ 3 * usizeMax < (n + 1) ^ 3 :=
    ⟨3999999, by norm_num [usizeMax], by norm_num [usizeMax]⟩
  exact chain_not_within hcube ((h _ _).1 ((checkXmlLimits_iff _ _).2 (chain_within hn)))

end Anvil.Xml
