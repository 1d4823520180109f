import Anvil.Lib.Bytes
import Anvil.Lib.Run

/-!
# The scan of XML text before it is parsed (`anvil-xml-limits/src/lib.rs`)

`checkXmlLimits` reads the text once. A position in the text is the text from there on. The scan ends without an error
where the text stops making sense (`none`), and a subtraction that would wrap is an error of its own.

* `Scan.startTag`, `Scan.markup`, `Scan.loop` : a start tag, any markup, the text;
* `checkXmlLimits_ne_underflow` : on no text does the in-scope counter underflow.
-/

namespace Anvil.Xml
open Anvil.Lib

structure XmlLimits where
  attributesPerElement : Nat
  attributePairs : Nat
  attributeNameBytes : Nat
  xmlnsDeclarations : Nat
  xmlnsPrefixBytes : Nat
  xmlnsUriBytes : Nat
  inScopeNamespaces : Nat
  namespaceScopeWork : Nat
deriving DecidableEq

inductive XmlLimitExceeded where
  | attributesPerElement (l : Nat)
  | attributePairs (l : Nat)
  | attributeNameBytes (l : Nat)
  | namespaceDeclarations (l : Nat)
  | namespacePrefixBytes (l : Nat)
  | namespaceUriBytes (l : Nat)
  | inScopeNamespaces (l : Nat)
  | namespaceScopeWork (l : Nat)
deriving DecidableEq

/-- An error of the scan, or the trap of a subtraction. -/
inductive Stop where
  | exceeded (e : XmlLimitExceeded)
  | underflow
deriving DecidableEq

structure Scan where
  limits : XmlLimits
  xmlns : Nat := 0
  pairs : Nat := 0
  /-- Open elements. -/
  depth : Nat := 0
  /-- (depth, declarations) of each open element that declares a namespace, the innermost first. -/
  scopes : List (Nat × Nat) := []
  /-- Declarations of the open elements. -/
  inScope : Nat := 0
  /-- Namespace scope work so far. -/
  work : Nat := 0
deriving DecidableEq

def isSpace (c : UInt8) : Bool := c = 0x20 || c = 0x09 || c = 0x0A || c = 0x0D

def lt : UInt8 := 0x3C

def gt : UInt8 := 0x3E

def slash : UInt8 := 0x2F

def eq : UInt8 := 0x3D

def isQuote (c : UInt8) : Bool := c = 0x22 || c = 0x27

def xmlnsName : List UInt8 := [0x78, 0x6D, 0x6C, 0x6E, 0x73]

/-- The length of the prefix that an attribute declares, if it declares one. -/
def prefixOf (name : List UInt8) : Option Nat :=
  match dropPrefix xmlnsName name with
  | some [] => some 0
  | some (c :: p) => if c = 0x3A then some p.length else none
  | none => none

/-- An attribute from its name on: the name, the length of the value and the text after it. -/
def lexAttribute (b : List UInt8) : Option (List UInt8 × Nat × List UInt8) :=
  let isName := fun c : UInt8 => !isSpace c && c ≠ eq && c ≠ gt && c ≠ slash
  match (b.dropWhile isName).dropWhile isSpace with
  | [] => none
  | e :: u =>
    if e ≠ eq then none
    else
      match u.dropWhile isSpace with
      | [] => none
      | q :: v =>
        if !isQuote q then none
        else
          match v.dropWhile (· ≠ q) with
          | [] => none
          | _ :: rest => some (b.takeWhile isName, (v.takeWhile (· ≠ q)).length, rest)

theorem length_lt_of_dropWhile {α : Type} {p : α → Bool} {l t : List α} {c : α} (h : l.dropWhile p = c :: t) :
    t.length < l.length := by
  have := (List.dropWhile_suffix (l := l) p).length_le
  rw [h, List.length_cons] at this
  omega

theorem lexAttribute_length {b name rest : List UInt8} {value : Nat} (h : lexAttribute b = some (name, value, rest)) :
    rest.length < b.length := by
  unfold lexAttribute at h
  simp only at h
  split at h
  · cases h
  · next e u hu =>
    split_ifs at h
    split at h
    · cases h
    · next q v hv =>
      split_ifs at h
      split at h
      · cases h
      · next c w hw =>
        cases h
        have h₁ := (List.dropWhile_suffix (l := b) fun c : UInt8 => !isSpace c && c ≠ eq && c ≠ gt && c ≠ slash).length_le
        have h₂ := length_lt_of_dropWhile hu
        have h₃ := length_lt_of_dropWhile hv
        have h₄ := length_lt_of_dropWhile hw
        omega

namespace Scan

def exceeded {α : Type} (e : XmlLimitExceeded) : Except Stop α := .error (.exceeded e)

/-- The checks of one attribute of a start tag that has `attributes` of them and `declared` namespaces by now. -/
def countAttribute (s : Scan) (attributes declared : Nat) (name : List UInt8) (value : Nat) :
    Except Stop (Scan × Nat × Nat) :=
  let l := s.limits
  let s := { s with pairs := satAdd s.pairs attributes }
  let attributes := attributes + 1
  if l.attributesPerElement < attributes then exceeded (.attributesPerElement l.attributesPerElement)
  else if l.attributePairs < s.pairs then exceeded (.attributePairs l.attributePairs)
  else if l.attributeNameBytes < name.length then exceeded (.attributeNameBytes l.attributeNameBytes)
  else
    match prefixOf name with
    | none => .ok (s, attributes, declared)
    | some length =>
      let s := { s with xmlns := s.xmlns + 1 }
      if l.xmlnsDeclarations < s.xmlns then exceeded (.namespaceDeclarations l.xmlnsDeclarations)
      else if l.xmlnsPrefixBytes < length then exceeded (.namespacePrefixBytes l.xmlnsPrefixBytes)
      else if l.xmlnsUriBytes < value then exceeded (.namespaceUriBytes l.xmlnsUriBytes)
      else .ok (s, attributes, declared + 1)

def endTag (s : Scan) : Except Stop Scan :=
  let s := { s with depth := s.depth - 1 }
  match s.scopes with
  | [] => .ok s
  | (depth, declared) :: outer =>
    if depth = s.depth then
      match checkedSub s.inScope declared with
      | none => .error .underflow
      | some n => .ok { s with scopes := outer, inScope := n }
    else .ok s

/-- `n.saturating_mul(n)`. -/
def satSquare (n : Nat) : Nat := min (n * n) usizeMax

def closeStartTag (s : Scan) (declared : Nat) (empty : Bool) : Except Stop Scan :=
  let l := s.limits
  let opened (s : Scan) : Scan := if empty then s else { s with depth := s.depth + 1 }
  if 0 < declared then
    let n := s.inScope + declared
    if l.inScopeNamespaces < n then exceeded (.inScopeNamespaces l.inScopeNamespaces)
    else
      let s := { s with work := satAdd s.work (satSquare n) }
      if l.namespaceScopeWork < s.work then exceeded (.namespaceScopeWork l.namespaceScopeWork)
      else .ok (opened (if empty then s else { s with scopes := (s.depth, declared) :: s.scopes, inScope := n }))
  else .ok (opened s)

/-- The loop of `start_tag`, from behind the element's name. -/
def startTag (s : Scan) (n declared : Nat) (empty : Bool) (b : List UInt8) :
    Except Stop (Option (Scan × List UInt8)) :=
  match _hb : b.dropWhile isSpace with
  | [] => .ok none
  | c :: t =>
    if c = gt then (s.closeStartTag declared empty).map fun s => some (s, t)
    else if c = slash then s.startTag n declared true t
    else
      match _ha : lexAttribute (c :: t) with
      | none => .ok none
      | some (name, value, rest) =>
        (s.countAttribute n declared name value).bind fun r => r.1.startTag r.2.1 r.2.2 false rest
termination_by b.length
decreasing_by
  · exact length_lt_of_dropWhile _hb
  · have := lexAttribute_length _ha
    have := length_lt_of_dropWhile _hb
    rw [List.length_cons] at *
    omega

def commentStart : List UInt8 := [0x3C, 0x21, 0x2D, 0x2D]

def commentEnd : List UInt8 := [0x2D, 0x2D, 0x3E]

def cdataStart : List UInt8 := [0x3C, 0x21, 0x5B, 0x43, 0x44, 0x41, 0x54, 0x41, 0x5B]

def cdataEnd : List UInt8 := [0x5D, 0x5D, 0x3E]

def piStart : List UInt8 := [0x3C, 0x3F]

def piEnd : List UInt8 := [0x3F, 0x3E]

def bangStart : List UInt8 := [0x3C, 0x21]

def endStart : List UInt8 := [0x3C, 0x2F]

/-- The markup that begins at a `<`, and the text after it. -/
def markup (s : Scan) (b : List UInt8) : Except Stop (Option (Scan × List UInt8)) :=
  if commentStart <+: b then .ok ((skipPast commentEnd (b.drop 4)).map (s, ·))
  else if cdataStart <+: b then .ok ((skipPast cdataEnd (b.drop 9)).map (s, ·))
  else if piStart <+: b then .ok ((skipPast piEnd (b.drop 2)).map (s, ·))
  else if bangStart <+: b then .ok none
  else if endStart <+: b then s.endTag.map fun s => (skipPast [gt] (b.drop 2)).map (s, ·)
  else s.startTag 0 0 false ((b.drop 1).dropWhile fun c => !isSpace c && c ≠ gt && c ≠ slash)

theorem startTag_length {s s' : Scan} {n declared : Nat} {empty : Bool} {b rest : List UInt8}
    (h : s.startTag n declared empty b = .ok (some (s', rest))) : rest.length < b.length := by
  fun_induction startTag s n declared empty b with
  | case1 => cases h
  | case2 s n declared empty b t hb =>
    cases hc : s.closeStartTag declared empty with
    | error e =>
      rw [hc] at h
      cases h
    | ok s₁ =>
      rw [hc] at h
      cases h
      exact length_lt_of_dropWhile hb
  | case3 s n declared empty b t hb hg ih => exact (ih h).trans (length_lt_of_dropWhile hb)
  | case4 => cases h
  | case5 s n declared empty b c t hb hg hs name value mid ha ih =>
    have h₁ := length_lt_of_dropWhile hb
    have h₂ := lexAttribute_length ha
    cases hc : s.countAttribute n declared name value with
    | error e =>
      rw [hc] at h
      cases h
    | ok r =>
      rw [hc] at h
      have h₃ := ih r h
      rw [List.length_cons] at h₂
      omega

theorem markup_length {s s' : Scan} {b rest : List UInt8} (hb : b ≠ [])
    (h : s.markup b = .ok (some (s', rest))) : rest.length < b.length := by
  have hskip : ∀ {pat : List UInt8} {k : Nat}, pat ≠ [] → ∀ {t : List UInt8}, skipPast pat (b.drop k) = some t →
      t.length < b.length := fun hp _ ht => by
    have := length_skipPast_lt hp ht
    rw [List.length_drop] at this
    omega
  have hmap : ∀ {o : Option (List UInt8)} {s₁ : Scan}, o.map (s₁, ·) = some (s', rest) → o = some rest := fun ho => by
    obtain ⟨t, rfl, ht⟩ := Option.map_eq_some_iff.1 ho
    cases ht
    rfl
  unfold markup at h
  split_ifs at h
  · exact hskip (by decide) (hmap (Except.ok.inj h))
  · exact hskip (by decide) (hmap (Except.ok.inj h))
  · exact hskip (by decide) (hmap (Except.ok.inj h))
  · cases h
  · cases he : s.endTag with
    | error e =>
      rw [he] at h
      cases h
    | ok s₁ =>
      rw [he] at h
      exact hskip (by decide) (hmap (Except.ok.inj h))
  · have h₁ := startTag_length h
    have h₂ := (List.dropWhile_suffix (l := b.drop 1) fun c => !isSpace c && c ≠ gt && c ≠ slash).length_le
    have h₃ := List.length_pos_of_ne_nil hb
    rw [List.length_drop] at h₂
    omega

/-- The loop of `check_xml_limits`. -/
def loop (s : Scan) (text : List UInt8) : Except Stop Unit :=
  match _ht : text.dropWhile (· ≠ lt) with
  | [] => .ok ()
  | c :: t =>
    match _hm : s.markup (c :: t) with
    | .error e => .error e
    | .ok none => .ok ()
    | .ok (some (s', rest)) => s'.loop rest
termination_by text.length
decreasing_by
  have h₁ := markup_length (List.cons_ne_nil c t) _hm
  have h₂ := length_lt_of_dropWhile _ht
  rw [List.length_cons] at h₁
  omega

end Scan

def checkXmlLimits (text : List UInt8) (limits : XmlLimits) : Except Stop Unit := Scan.loop { limits } text

/-! ## What each step counts -/

/-- Whether an attribute is a declaration, as a number. -/
def declares (name : List UInt8) : Nat := if (prefixOf name).isSome then 1 else 0

namespace Scan

/-- An attribute that breaks no limit, after `n` others on its start tag. -/
structure Takes (s : Scan) (n : Nat) (name : List UInt8) (value : Nat) : Prop where
  attributes : n + 1 ≤ s.limits.attributesPerElement
  pairs : satAdd s.pairs n ≤ s.limits.attributePairs
  nameLength : name.length ≤ s.limits.attributeNameBytes
  xmlns : ∀ length, prefixOf name = some length → s.xmlns + 1 ≤ s.limits.xmlnsDeclarations ∧
    length ≤ s.limits.xmlnsPrefixBytes ∧ value ≤ s.limits.xmlnsUriBytes

def taken (s : Scan) (n : Nat) (name : List UInt8) : Scan :=
  { s with pairs := satAdd s.pairs n, xmlns := s.xmlns + declares name }

theorem countAttribute_taken {s : Scan} {n : Nat} {name : List UInt8} {value : Nat} (h : s.Takes n name value)
    (declared : Nat) :
    s.countAttribute n declared name value = .ok (s.taken n name, n + 1, declared + declares name) := by
  unfold countAttribute taken declares
  simp only
  rw [if_neg (Nat.not_lt.2 h.attributes), if_neg (Nat.not_lt.2 h.pairs), if_neg (Nat.not_lt.2 h.nameLength)]
  cases hp : prefixOf name with
  | none => rfl
  | some length =>
    obtain ⟨h₁, h₂, h₃⟩ := h.xmlns length hp
    simp only
    rw [if_neg (Nat.not_lt.2 h₁), if_neg (Nat.not_lt.2 h₂), if_neg (Nat.not_lt.2 h₃)]
    rfl

theorem countAttribute_refused {s : Scan} {n : Nat} {name : List UInt8} {value : Nat} (h : ¬s.Takes n name value)
    (declared : Nat) : ∃ e, s.countAttribute n declared name value = .error (.exceeded e) := by
  unfold countAttribute
  simp only
  by_cases h₁ : s.limits.attributesPerElement < n + 1
  · exact ⟨_, if_pos h₁⟩
  rw [if_neg h₁]
  by_cases h₂ : s.limits.attributePairs < satAdd s.pairs n
  · exact ⟨_, if_pos h₂⟩
  rw [if_neg h₂]
  by_cases h₃ : s.limits.attributeNameBytes < name.length
  · exact ⟨_, if_pos h₃⟩
  rw [if_neg h₃]
  cases hp : prefixOf name with
  | none =>
    refine absurd ⟨Nat.not_lt.1 h₁, Nat.not_lt.1 h₂, Nat.not_lt.1 h₃, fun l hl => ?_⟩ h
    rw [hp] at hl
    cases hl
  | some length =>
    simp only
    by_cases h₄ : s.limits.xmlnsDeclarations < s.xmlns + 1
    · exact ⟨_, if_pos h₄⟩
    rw [if_neg h₄]
    by_cases h₅ : s.limits.xmlnsPrefixBytes < length
    · exact ⟨_, if_pos h₅⟩
    rw [if_neg h₅]
    by_cases h₆ : s.limits.xmlnsUriBytes < value
    · exact ⟨_, if_pos h₆⟩
    · refine absurd ⟨Nat.not_lt.1 h₁, Nat.not_lt.1 h₂, Nat.not_lt.1 h₃, fun l hl => ?_⟩ h
      obtain rfl : length = l := Option.some.inj (hp.symm.trans hl)
      exact ⟨Nat.not_lt.1 h₄, Nat.not_lt.1 h₅, Nat.not_lt.1 h₆⟩

/-- A start tag with `declared` declarations whose scope breaks no limit. -/
def Opens (s : Scan) (declared : Nat) : Prop := 0 < declared →
  s.inScope + declared ≤ s.limits.inScopeNamespaces ∧
  satAdd s.work (satSquare (s.inScope + declared)) ≤ s.limits.namespaceScopeWork

/-- The scan after a start tag's scope was charged. -/
def charged (s : Scan) (declared : Nat) : Scan :=
  { s with work := if 0 < declared then satAdd s.work (satSquare (s.inScope + declared)) else s.work }

/-- The scan inside an element. -/
def inside (s : Scan) (declared : Nat) : Scan :=
  { s with
    depth := s.depth + 1
    scopes := if 0 < declared then (s.depth, declared) :: s.scopes else s.scopes
    inScope := s.inScope + declared }

theorem closeStartTag_opens {s : Scan} {declared : Nat} (h : s.Opens declared) (empty : Bool) :
    s.closeStartTag declared empty =
      .ok (if empty then s.charged declared else (s.charged declared).inside declared) := by
  unfold closeStartTag charged inside
  simp only
  by_cases hd : 0 < declared
  · obtain ⟨h₁, h₂⟩ := h hd
    rw [if_pos hd, if_neg (Nat.not_lt.2 h₁), if_neg (Nat.not_lt.2 h₂)]
    cases empty <;> simp only [hd, if_true, if_false, Bool.false_eq_true]
  · obtain rfl : declared = 0 := Nat.eq_zero_of_not_pos hd
    rw [if_neg hd]
    cases empty <;> rfl

theorem closeStartTag_refused {s : Scan} {declared : Nat} (h : ¬s.Opens declared) (empty : Bool) :
    ∃ e, s.closeStartTag declared empty = .error (.exceeded e) := by
  obtain ⟨hd, h⟩ := Classical.not_imp.1 h
  unfold closeStartTag
  simp only
  rw [if_pos hd]
  by_cases h₁ : s.limits.inScopeNamespaces < s.inScope + declared
  · exact ⟨_, if_pos h₁⟩
  · rw [if_neg h₁]
    have h₂ : s.limits.namespaceScopeWork < satAdd s.work (satSquare (s.inScope + declared)) :=
      Nat.not_le.1 fun h₂ => h ⟨Nat.not_lt.1 h₁, h₂⟩
    exact ⟨_, if_pos h₂⟩

end Scan

/-! ## The in-scope counter -/

namespace Scan

/-- The counter is the sum of the declarations on the stack. -/
def Balanced (s : Scan) : Prop := (s.scopes.map Prod.snd).sum = s.inScope

theorem countAttribute_balanced {s : Scan} (h : s.Balanced) (n declared : Nat) (name : List UInt8) (value : Nat) :
    (∃ e, s.countAttribute n declared name value = .error (.exceeded e)) ∨
    ∃ r, s.countAttribute n declared name value = .ok r ∧ r.1.Balanced := by
  by_cases ht : s.Takes n name value
  · exact .inr ⟨_, countAttribute_taken ht declared, h⟩
  · exact .inl (countAttribute_refused ht declared)

theorem inside_balanced {s : Scan} (h : s.Balanced) (declared : Nat) : (s.inside declared).Balanced := by
  unfold Balanced inside at *
  simp only
  split_ifs with hd
  · rw [List.map_cons, List.sum_cons, h, Nat.add_comm]
  · omega

theorem closeStartTag_balanced {s : Scan} (h : s.Balanced) (declared : Nat) (empty : Bool) :
    (∃ e, s.closeStartTag declared empty = .error (.exceeded e)) ∨
    ∃ s', s.closeStartTag declared empty = .ok s' ∧ s'.Balanced := by
  by_cases ho : s.Opens declared
  · have hc : (s.charged declared).Balanced := h
    refine .inr ⟨_, closeStartTag_opens ho empty, ?_⟩
    split_ifs
    · exact hc
    · exact inside_balanced hc declared
  · exact .inl (closeStartTag_refused ho empty)

theorem endTag_balanced {s : Scan} (h : s.Balanced) : ∃ s', s.endTag = .ok s' ∧ s'.Balanced := by
  obtain ⟨limits, xmlns, pairs, depth, scopes, inScope, work⟩ := s
  unfold Balanced at h
  cases scopes with
  | nil => exact ⟨_, rfl, h⟩
  | cons p outer =>
    obtain ⟨at_, declared⟩ := p
    rw [List.map_cons, List.sum_cons] at h
    unfold endTag
    simp only at h ⊢
    split_ifs
    · rw [checkedSub_of_le (by omega)]
      refine ⟨_, rfl, ?_⟩
      show (outer.map Prod.snd).sum = inScope - declared
      omega
    · exact ⟨_, rfl, h⟩

/-- A step that does not underflow and leaves the counter right. -/
def Safe (r : Except Stop (Option (Scan × List UInt8))) : Prop :=
  r ≠ .error .underflow ∧ ∀ s rest, r = .ok (some (s, rest)) → s.Balanced

theorem Safe.exceeded (e : XmlLimitExceeded) : Safe (.error (.exceeded e)) := by
  constructor
  · intro h
    cases h
  · intro s rest h
    cases h

theorem Safe.done : Safe (.ok none) := by
  constructor
  · intro h
    cases h
  · intro s rest h
    cases h

theorem Safe.next {s : Scan} (h : s.Balanced) (rest : List UInt8) : Safe (.ok (some (s, rest))) := by
  constructor
  · intro h
    cases h
  · intro s' rest' h'
    cases h'
    exact h

theorem startTag_safe {s : Scan} (h : s.Balanced) (n declared : Nat) (empty : Bool) (b : List UInt8) :
    Safe (s.startTag n declared empty b) := by
  fun_induction startTag s n declared empty b with
  | case1 => exact .done
  | case2 s n declared empty b t hb =>
    rcases closeStartTag_balanced h declared empty with ⟨e, he⟩ | ⟨s', hs, hb'⟩
    · rw [he]
      exact .exceeded e
    · rw [hs]
      exact .next hb' t
  | case3 s n declared empty b t hb hg ih => exact ih h
  | case4 => exact .done
  | case5 s n declared empty b c t hb hg hs name value mid ha ih =>
    rcases countAttribute_balanced h n declared name value with ⟨e, he⟩ | ⟨r, hr, hb'⟩
    · rw [he]
      exact .exceeded e
    · rw [hr]
      exact ih r hb'

theorem markup_safe {s : Scan} (h : s.Balanced) (b : List UInt8) : Safe (s.markup b) := by
  have hmap : ∀ (o : Option (List UInt8)) {s₁ : Scan}, s₁.Balanced → Safe (.ok (o.map (s₁, ·))) := fun o s₁ hs => by
    cases o with
    | none => exact .done
    | some t => exact .next hs t
  unfold markup
  split_ifs
  · exact hmap _ h
  · exact hmap _ h
  · exact hmap _ h
  · exact .done
  · obtain ⟨s', hs, hb⟩ := endTag_balanced h
    rw [hs]
    exact hmap _ hb
  · exact startTag_safe h 0 0 false _

theorem loop_ne_underflow {s : Scan} (h : s.Balanced) (text : List UInt8) : s.loop text ≠ .error .underflow := by
  fun_induction loop s text with
  | case1 => exact nofun
  | case2 s text c t ht e hm =>
    rintro he
    cases he
    exact (markup_safe h (c :: t)).1 hm
  | case3 => exact nofun
  | case4 s text c t ht s' rest hm ih => exact ih ((markup_safe h (c :: t)).2 s' rest hm)

end Scan

/-- **On no text does the in-scope counter underflow.** -/
theorem checkXmlLimits_ne_underflow (text : List UInt8) (limits : XmlLimits) :
    checkXmlLimits text limits ≠ .error .underflow :=
  Scan.loop_ne_underflow (show Scan.Balanced { limits } from rfl) text

end Anvil.Xml
