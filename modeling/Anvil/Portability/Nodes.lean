import Anvil.Lib.JsonLayout
import Anvil.Lib.Utf8Match

/-!
# Counting JSON values (`NodeCounter` of `anvil-portability/src/bundle.rs`)

The counter reads bytes, in pieces of any length.

* `NodeCounter`, `scan` : the four flags and their loop;
* `Adds` : scanned outside a string, a text adds so many nodes and ends outside a string;
* `adds_value` : a JSON text adds the values and keys of its value;
* `scan_jsonLines` : so do texts separated by newlines, in whatever pieces they are scanned.
-/

namespace Anvil.Portability
open Anvil.Lib Anvil.Lib.JsonSyntax

/-! ## The counter -/

/-- `nodes` is a `u64`, and counts no more than the bytes that were scanned. -/
structure NodeCounter where
  nodes : Nat
  quoted : Bool
  escaped : Bool
  scalar : Bool
deriving DecidableEq

namespace NodeCounter

def new : NodeCounter := ⟨0, false, false, false⟩

def isPunctuation (b : UInt8) : Bool :=
  b = 0x7D || b = 0x5D || b = 0x2C || b = 0x3A || b = 0x20 || b = 0x09 || b = 0x0D || b = 0x0A

/-- The body of the loop of `scan`. -/
def scanByte (c : NodeCounter) (b : UInt8) : NodeCounter :=
  if c.quoted then
    if c.escaped then { c with escaped := false }
    else if b = 0x5C then { c with escaped := true }
    else if b = 0x22 then { c with quoted := false }
    else c
  else if b = 0x22 || b = 0x7B || b = 0x5B then { c with quoted := b = 0x22, scalar := false, nodes := c.nodes + 1 }
  else if isPunctuation b then { c with scalar := false }
  else if !c.scalar then { c with scalar := true, nodes := c.nodes + 1 }
  else c

def scan (c : NodeCounter) (text : List UInt8) : NodeCounter := text.foldl scanByte c

theorem scan_append (c : NodeCounter) (s t : List UInt8) : c.scan (s ++ t) = (c.scan s).scan t := List.foldl_append

theorem foldl_scan (c : NodeCounter) (pieces : List (List UInt8)) : pieces.foldl scan c = c.scan pieces.flatten := by
  induction pieces generalizing c with
  | nil => rfl
  | cons p pieces ih => rw [List.foldl_cons, ih, List.flatten_cons, scan_append]

/-! ## Texts -/

def scanText (c : NodeCounter) (t : Text) : NodeCounter := c.scan (encodeUtf8 t)

theorem scanText_append (c : NodeCounter) (s t : Text) : c.scanText (s ++ t) = (c.scanText s).scanText t := by
  rw [scanText, encodeUtf8_append, scan_append]
  rfl

theorem scanText_cons (c : NodeCounter) (d : Char) (t : Text) : c.scanText (d :: t) = (c.scanText [d]).scanText t :=
  scanText_append c [d] t

def outside (n : Nat) (scalar : Bool) : NodeCounter := ⟨n, false, false, scalar⟩

def inside (n : Nat) : NodeCounter := ⟨n, true, false, false⟩

/-- Bytes that neither end a string nor escape in it. -/
theorem scan_inside {n : Nat} {l : List UInt8} (h : ∀ b ∈ l, b ≠ 0x22 ∧ b ≠ 0x5C) : (inside n).scan l = inside n := by
  induction l with
  | nil => rfl
  | cons b l ih =>
    obtain ⟨⟨hquote, hslash⟩, hl⟩ := List.forall_mem_cons.1 h
    have hb : (inside n).scanByte b = inside n := by simp [scanByte, inside, hquote, hslash]
    rw [scan, List.foldl_cons, hb]
    exact ih hl

theorem scanText_inside {n : Nat} {t : Text} (hquote : '"' ∉ t) (hslash : '\\' ∉ t) : (inside n).scanText t = inside n := by
  refine scan_inside fun b hb => ⟨?_, ?_⟩
  · rintro rfl
    exact hquote (ascii_mem_encodeUtf8 (by decide) hb)
  · rintro rfl
    exact hslash (ascii_mem_encodeUtf8 (by decide) hb)

theorem scanText_unit {n : Nat} {hex : Text} (h : Hex4 hex) : (inside n).scanText ('\\' :: 'u' :: hex) = inside n := by
  have hescape : (inside n).scanText ['\\', 'u'] = inside n := rfl
  have hnot : ∀ {c : Char}, isHex c = false → c ∉ hex := by
    intro c hc hmem
    rw [h.2 c hmem] at hc
    cases hc
  have hcut : '\\' :: 'u' :: hex = ['\\', 'u'] ++ hex := rfl
  rw [hcut, scanText_append, hescape, scanText_inside (hnot (by decide)) (hnot (by decide))]

/-- An escape swallows the quote or the backslash after it. -/
theorem scan_part {n : Nat} {p : Part} (hp : p.Valid) : (inside n).scanText p.text = inside n := by
  cases p with
  | plain c =>
    obtain ⟨-, hquote, hslash⟩ := hp
    exact scanText_inside (fun h => hquote (List.mem_singleton.1 h).symm) fun h => hslash (List.mem_singleton.1 h).symm
  | escape c =>
    have hc : c = '"' ∨ c = '\\' ∨ c = '/' ∨ c = 'b' ∨ c = 'f' ∨ c = 'n' ∨ c = 'r' ∨ c = 't' := by
      simpa [Part.Valid] using hp
    rcases hc with rfl | rfl | rfl | rfl | rfl | rfl | rfl | rfl <;> rfl
  | unit hex => exact scanText_unit hp.1
  | pair high low =>
    have hcut : (Part.pair high low).text = ('\\' :: 'u' :: high) ++ ('\\' :: 'u' :: low) := rfl
    rw [hcut, scanText_append, scanText_unit hp.1, scanText_unit hp.2.1]

/-! ## Outside strings -/

/-- Wherever it stands outside a string, the text adds `k` nodes and ends outside a string. -/
def Adds (k : Nat) (t : Text) : Prop := ∀ n, ∃ scalar, (outside n false).scanText t = outside (n + k) scalar

theorem scanText_string (n : Nat) (scalar : Bool) {parts : List Part} (h : ∀ p ∈ parts, p.Valid) :
    (outside n scalar).scanText (literal parts) = outside (n + 1) false := by
  have hopen : (outside n scalar).scanText ['"'] = inside (n + 1) := rfl
  have hclose : (inside (n + 1)).scanText ['"'] = outside (n + 1) false := rfl
  have hparts : (inside (n + 1)).scanText (parts.flatMap Part.text) = inside (n + 1) := by
    induction parts with
    | nil => rfl
    | cons p parts ih =>
      obtain ⟨hp, hparts⟩ := List.forall_mem_cons.1 h
      rw [List.flatMap_cons, scanText_append, scan_part hp, ih hparts]
  rw [literal, closing, scanText_cons, hopen, scanText_append, hparts, hclose]

/-- A character that ends a scalar and starts nothing. -/
def separates (c : Char) : Bool := c = '}' || c = ']' || c = ',' || c = ':' || isBlank c

theorem scanText_separator (n : Nat) (scalar : Bool) {c : Char} (h : separates c = true) :
    (outside n scalar).scanText [c] = outside n false := by
  have hc : c = '}' ∨ c = ']' ∨ c = ',' ∨ c = ':' ∨ c = ' ' ∨ c = '\t' ∨ c = '\n' ∨ c = '\r' := by
    simpa [separates, isBlank, or_assoc] using h
  rcases hc with rfl | rfl | rfl | rfl | rfl | rfl | rfl | rfl <;> rfl

theorem scanText_separators (n : Nat) (scalar : Bool) {t : Text} (h : ∀ c ∈ t, separates c = true) :
    (outside n scalar).scanText t = outside n (scalar && t.isEmpty) := by
  induction t generalizing scalar with
  | nil => simp [scanText, scan]
  | cons c t ih =>
    obtain ⟨hc, ht⟩ := List.forall_mem_cons.1 h
    rw [scanText_cons, scanText_separator n scalar hc, ih false ht]
    simp

theorem separates_of_blank {t : Text} (h : Blank t) : ∀ c ∈ t, separates c = true := fun c hc => by simp [separates, h c hc]

theorem scanText_bracket (n : Nat) (scalar : Bool) {c : Char} (h : c = '[' ∨ c = '\x7b') :
    (outside n scalar).scanText [c] = outside (n + 1) false := by
  rcases h with rfl | rfl <;> rfl

/-- A character of a number or of a name such as `true`. -/
def isScalarChar (c : Char) : Bool := isNumeral c || c.isLower

theorem encodeUtf8_scalarChar {c : Char} (h : isScalarChar c = true) :
    ∃ b : UInt8, encodeUtf8 [c] = [b] ∧ (b = 0x22 || b = 0x7B || b = 0x5B) = false ∧ isPunctuation b = false := by
  have hall : ∀ n : Fin 128, isScalarChar (Char.ofNat n) = true → encodeUtf8 [Char.ofNat n] = [UInt8.ofNat n] ∧
      (UInt8.ofNat n = 0x22 || UInt8.ofNat n = 0x7B || UInt8.ofNat n = 0x5B) = false ∧
        isPunctuation (UInt8.ofNat n) = false := by
    decide
  have hlt : c.toNat < 128 := by
    rcases Bool.or_eq_true_iff.1 h with hc | hc
    · simp only [isNumeral, Bool.or_eq_true, decide_eq_true_eq, or_assoc] at hc
      rcases hc with hc | rfl | rfl | rfl | rfl | rfl
      · exact Nat.lt_of_le_of_lt (Char.isDigit_iff_toNat.1 hc).2 (by decide)
      all_goals decide
    · have hle : c ≤ 'z' := (of_decide_eq_true (Bool.and_eq_true_iff.1 hc).2)
      exact Nat.lt_of_le_of_lt (UInt32.le_iff_toNat_le.1 hle) (by decide)
  have hc := hall ⟨c.toNat, hlt⟩
  rw [Char.ofNat_toNat] at hc
  exact ⟨_, hc h⟩

theorem scanText_scalarChar (n : Nat) (scalar : Bool) {c : Char} (h : isScalarChar c = true) :
    (outside n scalar).scanText [c] = outside (if scalar then n else n + 1) true := by
  obtain ⟨b, hb, hstarts, hpunctuation⟩ := encodeUtf8_scalarChar h
  have hbyte : (outside n scalar).scanByte b = outside (if scalar then n else n + 1) true := by
    unfold scanByte
    rw [if_neg (by simp [outside]), if_neg (by rw [hstarts]; exact Bool.false_ne_true),
      if_neg (by rw [hpunctuation]; exact Bool.false_ne_true)]
    cases scalar <;> rfl
  rw [scanText, hb]
  exact hbyte

theorem adds_scalar {t : Text} (hne : t ≠ []) (h : ∀ c ∈ t, isScalarChar c = true) : Adds 1 t := by
  intro n
  have hrest : ∀ {t : Text}, (∀ c ∈ t, isScalarChar c = true) → (outside (n + 1) true).scanText t = outside (n + 1) true := by
    intro t
    induction t with
    | nil => exact fun _ => rfl
    | cons c t ih =>
      intro h
      obtain ⟨hc, ht⟩ := List.forall_mem_cons.1 h
      rw [scanText_cons, scanText_scalarChar _ _ hc]
      exact ih ht
  obtain ⟨c, t, rfl⟩ := List.exists_cons_of_ne_nil hne
  obtain ⟨hc, ht⟩ := List.forall_mem_cons.1 h
  refine ⟨true, ?_⟩
  rw [scanText_cons, scanText_scalarChar _ _ hc]
  exact hrest ht

theorem scanText_adds {j : Nat} {s t : Text} (hs : Adds j s) (n : Nat) :
    ∃ scalar, (outside n false).scanText (s ++ t) = (outside (n + j) scalar).scanText t := by
  obtain ⟨scalar, hscalar⟩ := hs n
  exact ⟨scalar, by rw [scanText_append, hscalar]⟩

theorem Adds.before {k : Nat} {t u : Text} (ht : Adds k t) (hu : ∀ c ∈ u, separates c = true) : Adds k (t ++ u) := by
  intro n
  obtain ⟨scalar, hscalar⟩ := scanText_adds ht n
  exact ⟨_, by rw [hscalar, scanText_separators _ _ hu]⟩

theorem Adds.after {k : Nat} {t u : Text} (ht : Adds k t) (hu : ∀ c ∈ u, separates c = true) : Adds k (u ++ t) := by
  intro n
  obtain ⟨scalar, hscalar⟩ := ht n
  exact ⟨scalar, by rw [scanText_append, scanText_separators _ _ hu, Bool.false_and, hscalar]⟩

/-- A separator keeps a scalar from running on into the text after it. -/
theorem Adds.separated {j k : Nat} {s t u : Text} (hs : Adds j s) (ht : Adds k t) (hu : ∀ c ∈ u, separates c = true)
    (hne : u ≠ []) :
    Adds (j + k) (s ++ (u ++ t)) := by
  intro n
  obtain ⟨scalar, hscalar⟩ := scanText_adds hs n
  obtain ⟨scalar', hscalar'⟩ := ht (n + j)
  refine ⟨scalar', ?_⟩
  rw [hscalar, scanText_append, scanText_separators _ _ hu, List.isEmpty_eq_false_iff.2 hne, Bool.and_false, hscalar',
    Nat.add_assoc]

theorem Adds.bracketed {k : Nat} {t : Text} {c d : Char} (ht : Adds k t)
    (hc : c = '[' ∨ c = '\x7b') (hd : separates d = true) :
    Adds (1 + k) (c :: (t ++ [d])) := by
  intro n
  obtain ⟨scalar, hscalar⟩ := scanText_adds ht (n + 1)
  refine ⟨false, ?_⟩
  rw [scanText_cons, scanText_bracket n false hc, hscalar, scanText_separator _ _ hd, Nat.add_assoc]

theorem adds_separators {u : Text} (hu : ∀ c ∈ u, separates c = true) :
    Adds 0 u := fun n => ⟨_, scanText_separators n false hu⟩

theorem adds_literal {parts : List Part} (h : ∀ p ∈ parts, p.Valid) :
    Adds 1 (literal parts) := fun n => ⟨false, scanText_string n false h⟩

theorem adds_member {k : Nat} {name : List Part} {gap colonGap t : Text} (hname : ∀ p ∈ name, p.Valid) (hgap : Blank gap)
    (hcolon : Blank colonGap) (ht : Adds k t) : Adds (1 + k) (literal name ++ ((gap ++ ':' :: colonGap) ++ t)) := by
  refine (adds_literal hname).separated ht ?_ (by simp)
  exact List.forall_mem_append.2 ⟨separates_of_blank hgap, List.forall_mem_cons.2 ⟨rfl, separates_of_blank hcolon⟩⟩

def AddsValue (v : Cst) : Prop := v.Valid → Adds (JsonSyntax.nodes v.value) v.text

def AddsItems (items : Items) : Prop := items.Valid → Adds (nodesItems items.values) items.text

def AddsMembers (members : Members) : Prop := members.Valid → Adds (nodesFields members.fields) members.text

theorem addsValue_scalar (t : Text) : AddsValue (.scalar t) := by
  intro h
  rw [nodes_scalar]
  rcases h with rfl | rfl | rfl | h
  · exact adds_scalar (by decide) (List.all_eq_true.1 (by decide))
  · exact adds_scalar (by decide) (List.all_eq_true.1 (by decide))
  · exact adds_scalar (by decide) (List.all_eq_true.1 (by decide))
  · exact adds_scalar h.numeral.1 fun c hc => by simp [isScalarChar, h.numeral.2 c hc]

theorem addsValue_array {blank : Text} {items : Items} (hitems : AddsItems items) : AddsValue (.array blank items) := by
  intro h
  rw [Cst.text, ← List.append_assoc]
  exact ((hitems h.2).after (separates_of_blank h.1)).bracketed (.inl rfl) rfl

theorem addsValue_object {blank : Text} {members : Members} (hmembers : AddsMembers members) :
    AddsValue (.object blank members) := by
  intro h
  rw [Cst.text, ← List.append_assoc]
  exact ((hmembers h.2).after (separates_of_blank h.1)).bracketed (.inr rfl) rfl

/-- The comma separates an item from those after it; the last one has none. -/
theorem addsItems_cons {before after : Text} {value : Cst} {rest : Items} (hv : AddsValue value) (hr : AddsItems rest) :
    AddsItems (.cons before value after rest) := by
  rintro ⟨hbefore, hvalue, hafter, hrest⟩
  cases rest with
  | nil =>
    rw [Items.text, Items.comma, Items.text, List.append_nil, List.append_nil]
    exact ((hv hvalue).before (separates_of_blank hafter)).after (separates_of_blank hbefore)
  | cons b v a rest =>
    rw [Items.text, Items.comma, ← List.append_assoc after]
    refine Adds.after ((hv hvalue).separated (hr hrest) ?_ (by simp)) (separates_of_blank hbefore)
    exact List.forall_mem_append.2 ⟨separates_of_blank hafter, List.forall_mem_singleton.2 rfl⟩

theorem addsMembers_cons {before gap colonGap after : Text} {name : List Part} {value : Cst} {rest : Members}
    (hv : AddsValue value) (hr : AddsMembers rest) : AddsMembers (.cons before name gap colonGap value after rest) := by
  rintro ⟨hbefore, hname, hgap, hcolon, hvalue, hafter, hrest⟩
  have hmember := adds_member hname hgap hcolon (hv hvalue)
  cases rest with
  | nil =>
    have hcut : (Members.cons before name gap colonGap value after .nil).text =
        before ++ ((literal name ++ ((gap ++ ':' :: colonGap) ++ value.text)) ++ after) := by simp [Members.text,
          Members.comma]
    rw [hcut]
    exact (hmember.before (separates_of_blank hafter)).after (separates_of_blank hbefore)
  | cons b n g c v a rest =>
    have hcut : (Members.cons before name gap colonGap value after (.cons b n g c v a rest)).text =
        before ++ ((literal name ++ ((gap ++ ':' :: colonGap) ++ value.text)) ++ ((after ++ [',']) ++
          (Members.cons b n g c v a rest).text)) := by
      rw [Members.text, Members.comma]
      simp only [List.append_assoc, List.cons_append]
    rw [hcut]
    refine Adds.after (hmember.separated (hr hrest) ?_ (by simp)) (separates_of_blank hbefore)
    exact List.forall_mem_append.2 ⟨separates_of_blank hafter, List.forall_mem_singleton.2 rfl⟩

/-- By recursion over values, items and members together. -/
theorem adds_value (v : Cst) : AddsValue v := by
  refine @Cst.rec AddsValue AddsItems AddsMembers ?scalar ?string ?array ?object ?noItems ?item ?noMembers ?member v
  case scalar => exact addsValue_scalar
  case string => exact fun _ => adds_literal
  case array => exact fun _ _ hitems => addsValue_array hitems
  case object => exact fun _ _ hmembers => addsValue_object hmembers
  case noItems => exact fun _ => adds_separators (by simp [Items.text])
  case item => exact fun _ _ _ _ hv hrest => addsItems_cons hv hrest
  case noMembers => exact fun _ => adds_separators (by simp [Members.text])
  case member => exact fun _ _ _ _ _ _ _ hv hrest => addsMembers_cons hv hrest

theorem adds_document {d : Document} (h : d.Valid) : Adds (JsonSyntax.nodes d.value.value) d.text :=
  ((adds_value d.value h.value).before (separates_of_blank h.after)).after (separates_of_blank h.before)

theorem adds_jsonLines {ds : List Document} (h : ∀ d ∈ ds, d.Valid) :
    Adds (ds.map fun d => JsonSyntax.nodes d.value.value).sum (jsonLines ds) := by
  induction ds with
  | nil => exact adds_separators (by simp [jsonLines])
  | cons d ds ih =>
    obtain ⟨hd, hds⟩ := List.forall_mem_cons.1 h
    cases ds with
    | nil =>
      rw [List.map_singleton, List.sum_singleton, jsonLines_singleton]
      exact (adds_document hd)
    | cons e ds =>
      rw [List.map_cons, List.sum_cons, jsonLines_cons]
      exact (adds_document hd).separated (ih hds) (List.forall_mem_singleton.2 rfl) (by decide)

/-- Texts with a newline after each. -/
theorem adds_lines {ds : List Document} (h : ∀ d ∈ ds, d.Valid) :
    Adds (ds.map fun d => JsonSyntax.nodes d.value.value).sum (ds.flatMap fun d => d.text ++ ['\n']) := by
  induction ds with
  | nil => exact adds_separators (by simp)
  | cons d ds ih =>
    obtain ⟨hd, hds⟩ := List.forall_mem_cons.1 h
    rw [List.map_cons, List.sum_cons, List.flatMap_cons, List.append_assoc]
    exact (adds_document hd).separated (ih hds) (List.forall_mem_singleton.2 rfl) (by decide)

theorem nodes_of_adds {k : Nat} {t : Text} (h : Adds k t) : (new.scan (encodeUtf8 t)).nodes = k := by
  obtain ⟨scalar, hscalar⟩ := h 0
  exact (congrArg NodeCounter.nodes hscalar).trans (Nat.zero_add k)

/-- However the bytes of the texts are cut into pieces, the count is that of their values. -/
theorem scan_jsonLines {ds : List Document} (h : ∀ d ∈ ds, d.Valid) {pieces : List (List UInt8)}
    (hpieces : pieces.flatten = encodeUtf8 (jsonLines ds)) :
    (pieces.foldl scan new).nodes = (ds.map fun d => JsonSyntax.nodes d.value.value).sum := by
  rw [foldl_scan, hpieces, nodes_of_adds (adds_jsonLines h)]

end NodeCounter

end Anvil.Portability
