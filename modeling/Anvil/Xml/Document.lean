import Anvil.Xml.Scan

/-!
# XML documents without a DOCTYPE

A document is a tree with everything its text leaves free: white space inside tags, the quotes, comments, CDATA
sections, instructions and empty-element tags. The grammar here is wider than XML's (a name may begin with a digit, a
prefix need not be declared), so that every well-formed document is one.

* `Token`, `Content.tokens` : the text as a sequence of markup;
* `Within` : the limits, as a condition on the element tree;
* `Scan.loop_tokens` : the scan reads the tokens one by one, whatever follows.
-/

namespace Anvil.Xml
open Anvil.Lib

/-! ## The tree -/

def isNameByte (c : UInt8) : Bool :=
  0x80 ≤ c || (0x61 ≤ c && c ≤ 0x7A) || (0x41 ≤ c && c ≤ 0x5A) || (0x30 ≤ c && c ≤ 0x39) ||
    c = 0x3A || c = 0x5F || c = 0x2D || c = 0x2E

structure Name where
  bytes : List UInt8
  ne_nil : bytes ≠ []
  ok : ∀ c ∈ bytes, isNameByte c = true

structure Space where
  bytes : List UInt8 := []
  ok : ∀ c ∈ bytes, isSpace c = true := by decide

structure Attr where
  before : Space
  before_ne : before.bytes ≠ []
  name : Name
  beforeEq : Space := {}
  afterEq : Space := {}
  quote : UInt8
  isQuote_quote : isQuote quote = true
  value : List UInt8
  quote_notMem : quote ∉ value

structure Tag where
  name : Name
  attrs : List Attr
  space : Space := {}

structure Chars where
  bytes : List UInt8
  ok : lt ∉ bytes

/-- The inside of a comment, a CDATA section or an instruction, up to its end mark. -/
structure Body (mark : List UInt8) where
  bytes : List UInt8
  ok : ¬mark <:+: bytes

/-- The content of an element: its first node, and the nodes after it. -/
inductive Content where
  | nil
  | chars (c : Chars) (rest : Content)
  | comment (b : Body Scan.commentEnd) (rest : Content)
  | cdata (b : Body Scan.cdataEnd) (rest : Content)
  | pi (b : Body Scan.piEnd) (rest : Content)
  | empty (tag : Tag) (rest : Content)
  | element (tag : Tag) (children : Content) (close : Space) (rest : Content)

/-- White space, a comment or an instruction beside the root element. -/
inductive Misc where
  | space (s : Space)
  | comment (b : Body Scan.commentEnd)
  | pi (b : Body Scan.piEnd)

inductive Root where
  | empty (tag : Tag)
  | element (tag : Tag) (children : Content) (close : Space)

structure Document where
  bom : Bool := false
  prolog : List Misc := []
  root : Root
  epilog : List Misc := []

/-! ## The text -/

inductive Token where
  | chars (c : Chars)
  | comment (b : Body Scan.commentEnd)
  | cdata (b : Body Scan.cdataEnd)
  | pi (b : Body Scan.piEnd)
  | empty (tag : Tag)
  | start (tag : Tag)
  | close (name : Name) (space : Space)

def Attr.bytes (a : Attr) : List UInt8 :=
  a.before.bytes ++ a.name.bytes ++ a.beforeEq.bytes ++ eq :: a.afterEq.bytes ++ a.quote :: a.value ++ [a.quote]

def Tag.bytes (t : Tag) : List UInt8 := lt :: t.name.bytes ++ t.attrs.flatMap Attr.bytes ++ t.space.bytes

def Token.bytes : Token → List UInt8
  | .chars c => c.bytes
  | .comment b => Scan.commentStart ++ b.bytes ++ Scan.commentEnd
  | .cdata b => Scan.cdataStart ++ b.bytes ++ Scan.cdataEnd
  | .pi b => Scan.piStart ++ b.bytes ++ Scan.piEnd
  | .empty tag => tag.bytes ++ [slash, gt]
  | .start tag => tag.bytes ++ [gt]
  | .close name space => Scan.endStart ++ name.bytes ++ space.bytes ++ [gt]

def Content.tokens : Content → List Token
  | .nil => []
  | .chars c rest => .chars c :: rest.tokens
  | .comment b rest => .comment b :: rest.tokens
  | .cdata b rest => .cdata b :: rest.tokens
  | .pi b rest => .pi b :: rest.tokens
  | .empty tag rest => .empty tag :: rest.tokens
  | .element tag children close rest => .start tag :: (children.tokens ++ .close tag.name close :: rest.tokens)

theorem Space.lt_notMem (s : Space) : lt ∉ s.bytes := fun h => absurd (s.ok lt h) (by decide)

def Misc.token : Misc → Token
  | .space s => .chars ⟨s.bytes, s.lt_notMem⟩
  | .comment b => .comment b
  | .pi b => .pi b

def Root.content : Root → Content
  | .empty tag => .empty tag .nil
  | .element tag children close => .element tag children close .nil

def bomChars : Chars := ⟨[0xEF, 0xBB, 0xBF], by decide⟩

def Document.tokens (d : Document) : List Token :=
  (if d.bom then [.chars bomChars] else []) ++ d.prolog.map Misc.token ++ d.root.content.tokens ++
    d.epilog.map Misc.token

def Document.text (d : Document) : List UInt8 := d.tokens.flatMap Token.bytes

/-! ## What the limits bound -/

/-- The prefix that an attribute declares; `xmlns` declares the empty one. -/
def Attr.declaredPrefix (a : Attr) : Option (List UInt8) :=
  if a.name.bytes = xmlnsName then some []
  else if xmlnsName ++ [0x3A] <+: a.name.bytes then some (a.name.bytes.drop 6)
  else none

/-- The namespace declarations of a start tag. -/
def Tag.declared (t : Tag) : Nat := t.attrs.countP fun a => a.declaredPrefix.isSome

/-- The start tags of the elements, in document order. -/
def Content.tags : Content → List Tag
  | .nil => []
  | .chars _ rest | .comment _ rest | .cdata _ rest | .pi _ rest => rest.tags
  | .empty tag rest => tag :: rest.tags
  | .element tag children _ rest => tag :: (children.tags ++ rest.tags)

/-- For every element that declares a namespace, the declarations of it and its ancestors; `outer` are those around
the content. -/
def Content.scopes (outer : Nat) : Content → List Nat
  | .nil => []
  | .chars _ rest | .comment _ rest | .cdata _ rest | .pi _ rest => rest.scopes outer
  | .empty tag rest => (if 0 < tag.declared then [outer + tag.declared] else []) ++ rest.scopes outer
  | .element tag children _ rest => (if 0 < tag.declared then [outer + tag.declared] else []) ++
      (children.scopes (outer + tag.declared) ++ rest.scopes outer)

def pairsOf (tags : List Tag) : Nat := (tags.map fun t => t.attrs.length * (t.attrs.length - 1) / 2).sum

def workOf (scopes : List Nat) : Nat := (scopes.map (· ^ 2)).sum

/-- One start tag's attributes are within their bounds. -/
structure Tag.Within (l : XmlLimits) (t : Tag) : Prop where
  attributes : t.attrs.length ≤ l.attributesPerElement
  names : ∀ a ∈ t.attrs, a.name.bytes.length ≤ l.attributeNameBytes
  prefixes : ∀ a ∈ t.attrs, ∀ p, a.declaredPrefix = some p → p.length ≤ l.xmlnsPrefixBytes
  uris : ∀ a ∈ t.attrs, a.declaredPrefix.isSome → a.value.length ≤ l.xmlnsUriBytes

/-- The limits on the element tree of a document; `total` is how a sum over the document is taken. -/
structure Within (total : Nat → Nat) (l : XmlLimits) (d : Document) : Prop where
  tags : ∀ t ∈ d.root.content.tags, t.Within l
  pairs : total (pairsOf d.root.content.tags) ≤ l.attributePairs
  declarations : (d.root.content.tags.map Tag.declared).sum ≤ l.xmlnsDeclarations
  inScope : ∀ n ∈ d.root.content.scopes 0, n ≤ l.inScopeNamespaces
  work : total (workOf (d.root.content.scopes 0)) ≤ l.namespaceScopeWork

/-- A sum that stops at `usize::MAX`. -/
def saturated (n : Nat) : Nat := min n usizeMax

/-! ## The scan reads tokens -/

theorem ne_of_isNameByte {c d : UInt8} (hc : isNameByte c = true) (hd : isNameByte d = false) : c ≠ d := by
  rintro rfl
  exact absurd (hc.symm.trans hd) (by decide)

theorem not_isSpace_of_isNameByte {c : UInt8} (h : isNameByte c = true) : isSpace c = false := by
  unfold isSpace
  have hne : ∀ d, isNameByte d = false → decide (c = d) = false := fun d hd => decide_eq_false (ne_of_isNameByte h hd)
  rw [hne _ (by decide), hne _ (by decide), hne _ (by decide), hne _ (by decide)]
  rfl

/-- Bytes that a loop skips, and then one that it does not. -/
theorem dropWhile_append_cons {p : UInt8 → Bool} {l t : List UInt8} {c : UInt8} (hl : ∀ x ∈ l, p x = true)
    (hc : p c = false) : (l ++ c :: t).dropWhile p = c :: t ∧ (l ++ c :: t).takeWhile p = l := by
  rw [List.dropWhile_append_of_pos hl, List.takeWhile_append_of_pos hl,
    List.dropWhile_cons_of_neg (by rw [hc]; exact Bool.false_ne_true),
    List.takeWhile_cons_of_neg (by rw [hc]; exact Bool.false_ne_true), List.append_nil]
  exact ⟨rfl, rfl⟩

theorem Name.head (n : Name) : ∃ c t, n.bytes = c :: t ∧ isNameByte c = true := by
  cases h : n.bytes with
  | nil => exact absurd h n.ne_nil
  | cons c t => exact ⟨c, t, rfl, n.ok c (by rw [h]; exact List.mem_cons_self)⟩

/-- White space and the byte after it, where that byte is no space. -/
theorem Space.dropWhile (s : Space) {c : UInt8} (hc : isSpace c = false) (t : List UInt8) :
    (s.bytes ++ c :: t).dropWhile isSpace = c :: t := (dropWhile_append_cons s.ok hc).1

/-- White space and then a byte: either way the text goes on with one that ends a name. -/
theorem Space.head (s : Space) (c : UInt8) (t : List UInt8) :
    ∃ d u, s.bytes ++ c :: t = d :: u ∧ (d = c ∨ isSpace d = true) := by
  cases h : s.bytes with
  | nil => exact ⟨c, t, rfl, .inl rfl⟩
  | cons d u => exact ⟨d, u ++ c :: t, rfl, .inr (s.ok d (by rw [h]; exact List.mem_cons_self))⟩

/-- An attribute from its name on, and what follows it. -/
theorem lexAttribute_attr (a : Attr) (rest : List UInt8) :
    lexAttribute (a.name.bytes ++ (a.beforeEq.bytes ++ eq :: (a.afterEq.bytes ++ a.quote :: (a.value ++ a.quote :: rest)))) =
      some (a.name.bytes, a.value.length, rest) := by
  have hname : ∀ c ∈ a.name.bytes, (!isSpace c && decide (c ≠ eq) && decide (c ≠ gt) && decide (c ≠ slash)) = true := by
    intro c hc
    have h := a.name.ok c hc
    rw [not_isSpace_of_isNameByte h, decide_eq_true (ne_of_isNameByte h (by decide)),
      decide_eq_true (ne_of_isNameByte h (by decide)), decide_eq_true (ne_of_isNameByte h (by decide))]
    rfl
  obtain ⟨d, u, hd, hstop⟩ := a.beforeEq.head eq (a.afterEq.bytes ++ a.quote :: (a.value ++ a.quote :: rest))
  have hend : (!isSpace d && decide (d ≠ eq) && decide (d ≠ gt) && decide (d ≠ slash)) = false := by
    rcases hstop with rfl | hs
    · decide
    · rw [hs]
      rfl
  have hquote : isSpace a.quote = false := by
    have h := a.isQuote_quote
    unfold isQuote at h
    rw [Bool.or_eq_true, decide_eq_true_iff, decide_eq_true_iff] at h
    rcases h with h | h <;> rw [h] <;> decide
  have hvalue : ∀ c ∈ a.value, decide (c ≠ a.quote) = true := by
    intro c hc
    rw [decide_eq_true_iff]
    rintro rfl
    exact a.quote_notMem hc
  have hsame : decide (a.quote ≠ a.quote) = false := decide_eq_false (not_not.2 rfl)
  obtain ⟨hdrop, htake⟩ := dropWhile_append_cons (t := u) hname hend
  unfold lexAttribute
  simp only
  rw [hd, hdrop, htake, ← hd, a.beforeEq.dropWhile (by decide)]
  simp only [ne_eq, not_true_eq_false, if_false]
  rw [a.afterEq.dropWhile hquote]
  simp only [a.isQuote_quote, Bool.not_true, Bool.false_eq_true, if_false]
  obtain ⟨hvdrop, hvtake⟩ := dropWhile_append_cons (t := rest) hvalue hsame
  rw [hvdrop, hvtake]

namespace Scan

/-- The attributes of a start tag, one after another. -/
def countAttrs (s : Scan) (n declared : Nat) : List Attr → Except Stop (Scan × Nat × Nat)
  | [] => .ok (s, n, declared)
  | a :: more => (s.countAttribute n declared a.name.bytes a.value.length).bind fun r => r.1.countAttrs r.2.1 r.2.2 more

/-- What a token does to the scan. -/
def token (s : Scan) : Token → Except Stop Scan
  | .chars _ | .comment _ | .cdata _ | .pi _ => .ok s
  | .empty tag => (s.countAttrs 0 0 tag.attrs).bind fun r => r.1.closeStartTag r.2.2 true
  | .start tag => (s.countAttrs 0 0 tag.attrs).bind fun r => r.1.closeStartTag r.2.2 false
  | .close _ _ => s.endTag

def tokens (s : Scan) (l : List Token) : Except Stop Scan := l.foldlM token s

section StartTag
variable (s : Scan) (n declared : Nat) (empty : Bool) {b t : List UInt8}

theorem startTag_gt (hb : b.dropWhile isSpace = gt :: t) :
    s.startTag n declared empty b = (s.closeStartTag declared empty).map fun s => some (s, t) := by
  rw [startTag]
  split
  · next h => exact absurd (h.symm.trans hb) (List.cons_ne_nil _ _).symm
  · next c u h =>
    cases h.symm.trans hb
    rw [if_pos rfl]

theorem startTag_slash (hb : b.dropWhile isSpace = slash :: t) :
    s.startTag n declared empty b = s.startTag n declared true t := by
  rw [startTag]
  split
  · next h => exact absurd (h.symm.trans hb) (List.cons_ne_nil _ _).symm
  · next c u h =>
    cases h.symm.trans hb
    rw [if_neg (by decide), if_pos rfl]

theorem startTag_attr {c : UInt8} {name rest : List UInt8} {value : Nat} (hb : b.dropWhile isSpace = c :: t)
    (hg : c ≠ gt) (hs : c ≠ slash) (ha : lexAttribute (c :: t) = some (name, value, rest)) :
    s.startTag n declared empty b =
      (s.countAttribute n declared name value).bind fun r => r.1.startTag r.2.1 r.2.2 false rest := by
  rw [startTag]
  split
  · next h => exact absurd (h.symm.trans hb) (List.cons_ne_nil _ _).symm
  · next d u h =>
    cases h.symm.trans hb
    rw [if_neg hg, if_neg hs]
    split
    · next h' => exact absurd (h'.symm.trans ha) (Option.some_ne_none _).symm
    · next name' value' rest' h' =>
      cases h'.symm.trans ha
      rfl

end StartTag

theorem startTag_cons (s : Scan) (n declared : Nat) (empty : Bool) (a : Attr) (rest : List UInt8) :
    s.startTag n declared empty (a.bytes ++ rest) =
      (s.countAttribute n declared a.name.bytes a.value.length).bind fun r => r.1.startTag r.2.1 r.2.2 false rest := by
  obtain ⟨c, t, hct, hc⟩ := a.name.head
  have hlex := lexAttribute_attr a rest
  have hbytes : a.bytes ++ rest = a.before.bytes ++ c :: (t ++ (a.beforeEq.bytes ++ eq :: (a.afterEq.bytes ++
      a.quote :: (a.value ++ a.quote :: rest)))) := by
    unfold Attr.bytes
    rw [hct]
    simp only [List.append_assoc, List.cons_append, List.nil_append]
  rw [hct, List.cons_append] at hlex
  rw [hbytes]
  exact startTag_attr s n declared empty (a.before.dropWhile (not_isSpace_of_isNameByte hc) _)
    (ne_of_isNameByte hc (by decide)) (ne_of_isNameByte hc (by decide)) (by rw [hlex, hct])

/-- All attributes of a start tag, up to its end. -/
theorem startTag_attrs (s : Scan) (n declared : Nat) (attrs : List Attr) (rest : List UInt8) :
    s.startTag n declared false (attrs.flatMap Attr.bytes ++ rest) =
      (s.countAttrs n declared attrs).bind fun r => r.1.startTag r.2.1 r.2.2 false rest := by
  induction attrs generalizing s n declared with
  | nil => rfl
  | cons a more ih =>
    rw [List.flatMap_cons, List.append_assoc, startTag_cons]
    unfold countAttrs
    cases s.countAttribute n declared a.name.bytes a.value.length with
    | error e => rfl
    | ok r => exact ih r.1 r.2.1 r.2.2

/-- The name of an element ends where its attributes, its white space or its end begin. -/
theorem dropWhile_name (t : Tag) {c : UInt8} (hc : c = gt ∨ c = slash) (rest : List UInt8) :
    (t.name.bytes ++ (t.attrs.flatMap Attr.bytes ++ (t.space.bytes ++ c :: rest))).dropWhile
        (fun c => !isSpace c && decide (c ≠ gt) && decide (c ≠ slash)) =
      t.attrs.flatMap Attr.bytes ++ (t.space.bytes ++ c :: rest) := by
  have hname : ∀ c ∈ t.name.bytes, (!isSpace c && decide (c ≠ gt) && decide (c ≠ slash)) = true := by
    intro c hc
    have h := t.name.ok c hc
    rw [not_isSpace_of_isNameByte h, decide_eq_true (ne_of_isNameByte h (by decide)),
      decide_eq_true (ne_of_isNameByte h (by decide))]
    rfl
  obtain ⟨d, u, hd, hstop⟩ : ∃ d u, t.attrs.flatMap Attr.bytes ++ (t.space.bytes ++ c :: rest) = d :: u ∧
      (!isSpace d && decide (d ≠ gt) && decide (d ≠ slash)) = false := by
    cases ha : t.attrs with
    | nil =>
      obtain ⟨d, u, hd, hs⟩ := t.space.head c rest
      refine ⟨d, u, hd, ?_⟩
      rcases hs with rfl | hs
      · rcases hc with rfl | rfl <;> decide
      · rw [hs]
        rfl
    | cons a more =>
      cases hb : a.before.bytes with
      | nil => exact absurd hb a.before_ne
      | cons d u =>
        refine ⟨d, _, by rw [List.flatMap_cons, Attr.bytes, hb]; rfl, ?_⟩
        rw [a.before.ok d (by rw [hb]; exact List.mem_cons_self)]
        rfl
  rw [hd]
  exact (dropWhile_append_cons hname hstop).1

/-! ### Markup -/

/-- The rest of the loop, after one piece of markup. -/
def resume (o : Option (Scan × List UInt8)) : Except Stop Unit :=
  match o with
  | none => .ok ()
  | some (s, rest) => s.loop rest

theorem loop_eq (s : Scan) (text : List UInt8) :
    s.loop text =
      match text.dropWhile (fun c => decide (c ≠ lt)) with
      | [] => .ok ()
      | c :: t => (s.markup (c :: t)).bind resume := by
  rw [loop]
  split
  · next h => rw [h]
  · next c t h =>
    rw [h]
    simp only
    split
    · next e hm => rw [hm, Except.bind]
    · next hm => rw [hm, Except.bind, resume]
    · next s' rest hm => rw [hm, Except.bind, resume]

theorem loop_markup (s : Scan) (t : List UInt8) : s.loop (lt :: t) = (s.markup (lt :: t)).bind resume := by
  rw [loop_eq, List.dropWhile_cons_of_neg (by decide)]

theorem loop_nil (s : Scan) : s.loop [] = .ok () := by
  rw [loop_eq, List.dropWhile_nil]

theorem loop_chars (s : Scan) {l : List UInt8} (hl : lt ∉ l) (rest : List UInt8) : s.loop (l ++ rest) = s.loop rest := by
  have hd : ∀ c ∈ l, decide (c ≠ lt) = true := fun c hc => decide_eq_true fun h => hl (h ▸ hc)
  rw [loop_eq s (l ++ rest), loop_eq s rest, List.dropWhile_append_of_pos hd]

/-- A section between two marks, the second of which ends in `>` and has no other. -/
theorem skipPast_body {mark pat : List UInt8} (hm : mark = pat ++ [gt]) (hp : gt ∉ pat) (b : Body mark)
    (rest : List UInt8) : skipPast mark (b.bytes ++ mark ++ rest) = some rest := by
  subst hm
  exact skipPast_append hp b.ok rest

theorem skipPast_close (name : Name) (space : Space) (rest : List UInt8) :
    skipPast [gt] (name.bytes ++ space.bytes ++ [gt] ++ rest) = some rest := by
  refine @skipPast_append _ _ [] gt List.not_mem_nil _ (fun h => ?_) rest
  rw [List.nil_append, List.singleton_infix_iff, List.mem_append] at h
  rcases h with h | h
  · exact ne_of_isNameByte (name.ok gt h) (by decide) rfl
  · exact absurd (space.ok gt h) (by decide)

theorem markup_comment (s : Scan) (b : Body commentEnd) (rest : List UInt8) :
    s.markup (commentStart ++ b.bytes ++ commentEnd ++ rest) = .ok (some (s, rest)) := by
  have hstart : commentStart <+: commentStart ++ b.bytes ++ commentEnd ++ rest := by
    rw [List.append_assoc, List.append_assoc]
    exact List.prefix_append _ _
  unfold markup
  rw [if_pos hstart]
  show Except.ok ((skipPast commentEnd (b.bytes ++ commentEnd ++ rest)).map (s, ·)) = _
  rw [skipPast_body (show commentEnd = [0x2D, 0x2D] ++ [gt] from rfl) (by decide) b rest]
  rfl

theorem markup_cdata (s : Scan) (b : Body cdataEnd) (rest : List UInt8) :
    s.markup (cdataStart ++ b.bytes ++ cdataEnd ++ rest) = .ok (some (s, rest)) := by
  have hstart : cdataStart <+: cdataStart ++ b.bytes ++ cdataEnd ++ rest := by
    rw [List.append_assoc, List.append_assoc]
    exact List.prefix_append _ _
  have hnot : ¬commentStart <+: cdataStart ++ b.bytes ++ cdataEnd ++ rest := by
    simp [commentStart, cdataStart]
  unfold markup
  rw [if_neg hnot, if_pos hstart]
  show Except.ok ((skipPast cdataEnd (b.bytes ++ cdataEnd ++ rest)).map (s, ·)) = _
  rw [skipPast_body (show cdataEnd = [0x5D, 0x5D] ++ [gt] from rfl) (by decide) b rest]
  rfl

theorem markup_pi (s : Scan) (b : Body piEnd) (rest : List UInt8) :
    s.markup (piStart ++ b.bytes ++ piEnd ++ rest) = .ok (some (s, rest)) := by
  have hstart : piStart <+: piStart ++ b.bytes ++ piEnd ++ rest := by
    rw [List.append_assoc, List.append_assoc]
    exact List.prefix_append _ _
  unfold markup
  rw [if_neg (by simp [commentStart, piStart]), if_neg (by simp [cdataStart, piStart]), if_pos hstart]
  show Except.ok ((skipPast piEnd (b.bytes ++ piEnd ++ rest)).map (s, ·)) = _
  rw [skipPast_body (show piEnd = [0x3F] ++ [gt] from rfl) (by decide) b rest]
  rfl

theorem markup_close (s : Scan) (name : Name) (space : Space) (rest : List UInt8) :
    s.markup (endStart ++ name.bytes ++ space.bytes ++ [gt] ++ rest) = s.endTag.map fun s => some (s, rest) := by
  have hassoc : endStart ++ name.bytes ++ space.bytes ++ [gt] ++ rest =
      endStart ++ (name.bytes ++ space.bytes ++ [gt] ++ rest) := by
    simp only [List.append_assoc]
  unfold markup
  rw [hassoc, if_neg (by simp [commentStart, endStart]), if_neg (by simp [cdataStart, endStart]),
    if_neg (by simp [piStart, endStart]), if_neg (by simp [bangStart, endStart]), if_pos (List.prefix_append _ _)]
  show s.endTag.map (fun s => (skipPast [gt] (name.bytes ++ space.bytes ++ [gt] ++ rest)).map (s, ·)) = _
  rw [skipPast_close]
  rfl

/-- A start tag: none of the other kinds of markup begins with a name. -/
theorem markup_tag (s : Scan) (t : Tag) {c : UInt8} (hc : c = gt ∨ c = slash) (rest : List UInt8) :
    s.markup (t.bytes ++ c :: rest) =
      (s.countAttrs 0 0 t.attrs).bind fun r => r.1.startTag r.2.1 r.2.2 false (t.space.bytes ++ c :: rest) := by
  obtain ⟨d, u, hd, hname⟩ := t.name.head
  have hbang : (0x21 : UInt8) ≠ d := (ne_of_isNameByte hname (by decide)).symm
  have hpi : (0x3F : UInt8) ≠ d := (ne_of_isNameByte hname (by decide)).symm
  have hend : (0x2F : UInt8) ≠ d := (ne_of_isNameByte hname (by decide)).symm
  have hbytes : t.bytes ++ c :: rest =
      lt :: (t.name.bytes ++ (t.attrs.flatMap Attr.bytes ++ (t.space.bytes ++ c :: rest))) := by
    unfold Tag.bytes
    simp only [List.append_assoc, List.cons_append]
  have hno : ∀ (e : UInt8) (p : List UInt8), e ≠ d →
      ¬(0x3C :: e :: p) <+: lt :: (t.name.bytes ++ (t.attrs.flatMap Attr.bytes ++ (t.space.bytes ++ c :: rest))) := by
    intro e p he h
    rw [hd, List.cons_append, List.cons_prefix_cons, List.cons_prefix_cons] at h
    exact he h.2.1
  rw [hbytes]
  unfold markup
  unfold commentStart cdataStart piStart bangStart endStart
  rw [if_neg (hno _ _ hbang), if_neg (hno _ _ hbang), if_neg (hno _ _ hpi), if_neg (hno _ _ hbang),
    if_neg (hno _ _ hend), List.drop_one, List.tail_cons, dropWhile_name t hc rest, startTag_attrs]

theorem markup_start (s : Scan) (t : Tag) (rest : List UInt8) :
    s.markup (t.bytes ++ gt :: rest) = (s.token (.start t)).map fun s => some (s, rest) := by
  rw [markup_tag s t (.inl rfl), token]
  cases s.countAttrs 0 0 t.attrs with
  | error e => rfl
  | ok r => exact startTag_gt r.1 r.2.1 r.2.2 false (t.space.dropWhile (by decide) rest)

theorem markup_empty (s : Scan) (t : Tag) (rest : List UInt8) :
    s.markup (t.bytes ++ slash :: gt :: rest) = (s.token (.empty t)).map fun s => some (s, rest) := by
  rw [markup_tag s t (.inr rfl), token]
  cases s.countAttrs 0 0 t.attrs with
  | error e => rfl
  | ok r =>
    refine (startTag_slash r.1 r.2.1 r.2.2 false (t.space.dropWhile (by decide) _)).trans ?_
    exact startTag_gt r.1 r.2.1 r.2.2 true (List.dropWhile_cons_of_neg (by decide))

/-- One token, whatever follows it. -/
theorem loop_token (s : Scan) (tok : Token) (rest : List UInt8) :
    s.loop (tok.bytes ++ rest) = (s.token tok).bind fun s => s.loop rest := by
  have hresume : ∀ r : Except Stop Scan, (r.map fun s => some (s, rest)).bind resume = r.bind fun s => s.loop rest :=
    fun r => by cases r <;> rfl
  cases tok with
  | chars c => exact loop_chars s c.ok rest
  | comment b => exact (loop_markup s _).trans (congrArg (Except.bind · resume) (markup_comment s b rest))
  | cdata b => exact (loop_markup s _).trans (congrArg (Except.bind · resume) (markup_cdata s b rest))
  | pi b => exact (loop_markup s _).trans (congrArg (Except.bind · resume) (markup_pi s b rest))
  | empty tag =>
    rw [← hresume, ← markup_empty s tag rest]
    unfold Token.bytes
    rw [List.append_assoc]
    exact loop_markup s _
  | start tag =>
    rw [← hresume, ← markup_start s tag rest]
    unfold Token.bytes
    rw [List.append_assoc]
    exact loop_markup s _
  | close name space =>
    refine Eq.trans ?_ (hresume s.endTag)
    rw [← markup_close s name space rest]
    exact loop_markup s _

/-- **The scan of a text that begins with tokens has read them one by one.** -/
theorem loop_tokens (s : Scan) (l : List Token) (rest : List UInt8) :
    s.loop (l.flatMap Token.bytes ++ rest) = (s.tokens l).bind fun s => s.loop rest := by
  induction l generalizing s with
  | nil => rfl
  | cons tok l ih =>
    rw [List.flatMap_cons, List.append_assoc, loop_token]
    unfold tokens
    rw [List.foldlM_cons]
    cases s.token tok with
    | error e => rfl
    | ok s' => exact ih s'

end Scan

end Anvil.Xml
