import Anvil.Import.Common

/-!
# What a rendered body holds

A scrubbed tree says which of its strings stand for a number only by their marks. `written` is the tree that should be
written, with a placeholder where the number was; `mark` gives the tree that the code has.

* `scrubAt_mark` : the code's tree is the marked one;
* `stripped` : the tree without its marks, where a marked string that the source holds too is still a string;
* `renderJson_mark` : what is written is the stripped tree; `renderJson_scrubbed`.
-/

namespace Anvil.Import.Common
open Anvil.Lib Json

/-- The characters of a JSON number. -/
def NumberText (n : Text) : Prop := ∀ c ∈ n, c ∈ "0123456789+-.eE".toList

/-- The scrubbed tree with the placeholders of numbers as they should be written. -/
def written (includeCredentials : Bool) (pointer : Text) (v : Json) : Json :=
  (scrubAt includeCredentials .number pointer [] v).1

/-- No number starts with a brace, a placeholder does. -/
def isPlaceholder (n : Text) : Bool := n.head? = some '{'

def markNumber (n : Text) : Json := if isPlaceholder n then .string (marked n) else .number n

def mark (v : Json) : Json := mapTexts (fun s => s) (fun k => k) markNumber v

theorem isPlaceholder_placeholderOf (name : Text) : isPlaceholder (placeholderOf name) = true := rfl

theorem not_isPlaceholder {n : Text} (h : NumberText n) : isPlaceholder n = false := by
  cases n with
  | nil => rfl
  | cons c n =>
    have hc := h c List.mem_cons_self
    have hne : c ≠ '{' := by
      rintro rfl
      revert hc
      decide
    simp [isPlaceholder, hne]

theorem quote_not_mem {n : Text} (h : NumberText n) : '"' ∉ n := by
  intro hc
  have := h _ hc
  revert this
  decide

/-- What a credential is replaced by: itself, or the placeholder of its name. -/
theorem credentialText_fst (includeCredentials : Bool) (value name pointer field : Text) :
    (credentialText includeCredentials value name pointer field).1 = value ∨
      (credentialText includeCredentials value name pointer field).1 = placeholderOf name := by
  unfold credentialText
  simp only
  split_ifs
  · exact .inl rfl
  · exact .inr rfl
  · exact .inl rfl
  · exact .inr rfl

section Scrub
variable (includeCredentials : Bool) (pointer : Text)

theorem scrubLeaf_mark {path : List Text} {k : Text} {v : Json} (hn : ∀ n, number n ∈ v.leaves → NumberText n) :
    (scrubLeaf includeCredentials (fun p => .string (marked p)) pointer path k v).map Prod.fst =
      (scrubLeaf includeCredentials .number pointer path k v).map fun r => mark r.1 := by
  cases v with
  | null => rfl
  | bool b => rfl
  | array items => rfl
  | object fields => rfl
  | string s =>
    unfold scrubLeaf
    split_ifs <;> rfl
  | number n =>
    have hplain : mark (.number n) = .number n := by
      simp only [mark, mapTexts, markNumber, not_isPlaceholder (hn n (by simp [leaves]))]
      rfl
    unfold scrubLeaf
    simp only
    generalize "body field ".toList ++ k = field, pointerAt pointer (path ++ [segment k]) = p
    have hcases := credentialText_fst includeCredentials n k p field
    generalize credentialText includeCredentials n k p field = new at hcases
    split_ifs with hk hne
    · obtain hnew := hcases.resolve_left hne
      simp only [Option.map_some, hnew, mark, mapTexts, markNumber, isPlaceholder_placeholderOf, if_true]
    · exact congrArg some hplain.symm
    · exact congrArg some hplain.symm

theorem scrubLeaf_numbers {path : List Text} {k : Text} {v : Json} (hn : ∀ n, number n ∈ v.leaves → NumberText n)
    {u : Json × List Entry} (hu : scrubLeaf includeCredentials .number pointer path k v = some u) :
    ∀ n, number n ∈ u.1.leaves → NumberText n ∨ isPlaceholder n = true := by
  unfold scrubLeaf at hu
  split at hu
  · -- a string stays a string
    split_ifs at hu
    all_goals obtain rfl := Option.some.inj hu
    all_goals exact fun n h => absurd h (by simp [leaves])
  · next m =>
    simp only at hu
    generalize "body field ".toList ++ k = field, pointerAt pointer (path ++ [segment k]) = p at hu
    have hcases := credentialText_fst includeCredentials m k p field
    generalize credentialText includeCredentials m k p field = new at hu hcases
    have hm : NumberText m := hn m (by simp [leaves])
    split_ifs at hu with hk hne
    all_goals obtain rfl := Option.some.inj hu
    all_goals intro n h
    all_goals obtain rfl : n = _ := by simpa [leaves] using h
    · exact .inr (by rw [hcases.resolve_left hne, isPlaceholder_placeholderOf])
    · exact .inl hm
    · exact .inl hm
  · cases hu

/-- The code's tree is the marked one, and the report is told the same. -/
theorem scrubAt_mark {v : Json} (hn : ∀ n, number n ∈ v.leaves → NumberText n) (path : List Text) :
    (scrubAt includeCredentials (fun p => .string (marked p)) pointer path v).1 =
      mark (scrubAt includeCredentials .number pointer path v).1 := by
  induction v using Json.ind generalizing path with
  | null => rfl
  | bool b => rfl
  | number n =>
    have hplain := not_isPlaceholder (hn n (by simp [leaves]))
    simp only [scrubAt, mark, mapTexts, markNumber, hplain]
    rfl
  | string s => rfl
  | array items ih =>
    have hitems : ∀ l ⊆ items, ∀ i, (scrubItems includeCredentials (fun p => .string (marked p)) pointer path i l).1 =
        mapTextsItems (fun s => s) (fun k => k) markNumber (scrubItems includeCredentials .number pointer path i l).1 := by
      intro l hl i
      induction l generalizing i with
      | nil => rfl
      | cons v l ihl =>
        obtain ⟨hv, hsub⟩ := List.cons_subset.1 hl
        have hvalue := ih v hv (fun n h => hn n (mem_leaves_array.2 ⟨v, hv, h⟩)) (path ++ [Nat.toDigits 10 i])
        rw [scrubItems, scrubItems, mapTextsItems, ihl hsub, hvalue]
        rfl
    rw [scrubAt, scrubAt, mark, mapTexts, hitems items (List.Subset.refl _)]
  | object fields ih =>
    have hfields : ∀ l ⊆ fields, (scrubFields includeCredentials (fun p => .string (marked p)) pointer path l).1 =
        mapTextsFields (fun s => s) (fun k => k) markNumber (scrubFields includeCredentials .number pointer path l).1 := by
      intro l hl
      induction l with
      | nil => rfl
      | cons f l ihl =>
        obtain ⟨hf, hsub⟩ := List.cons_subset.1 hl
        have hnum : ∀ n, number n ∈ f.2.leaves → NumberText n := fun n h => hn n (mem_leaves_object.2 ⟨f, hf, h⟩)
        have hvalue := ih f hf hnum (path ++ [segment f.1])
        have hleaf := @scrubLeaf_mark includeCredentials pointer path f.1 f.2 hnum
        obtain ⟨k, v⟩ := f
        rw [scrubFields, scrubFields, mapTextsFields, ihl hsub]
        simp only at hvalue hleaf ⊢
        congr 2
        cases hu : scrubLeaf includeCredentials .number pointer path k v with
        | none =>
          rw [hu, Option.map_none, Option.map_eq_none_iff] at hleaf
          rw [hleaf]
          exact hvalue
        | some u =>
          rw [hu, Option.map_some, Option.map_eq_some_iff] at hleaf
          obtain ⟨u', hu', he⟩ := hleaf
          rw [hu']
          exact he
    rw [scrubAt, scrubAt, mark, mapTexts, hfields fields (List.Subset.refl _)]

/-- The numbers of the written tree are the body's own and the placeholders. -/
theorem scrubAt_numbers {v : Json} (hn : ∀ n, number n ∈ v.leaves → NumberText n) (path : List Text) :
    ∀ n, number n ∈ (scrubAt includeCredentials .number pointer path v).1.leaves → NumberText n ∨ isPlaceholder n = true := by
  induction v using Json.ind generalizing path with
  | null => exact fun n h => .inl (hn n h)
  | bool b => exact fun n h => .inl (hn n h)
  | number m => exact fun n h => .inl (hn n h)
  | string s => exact fun n h => .inl (hn n h)
  | array items ih =>
    have hitems : ∀ l ⊆ items, ∀ i, ∀ u ∈ (scrubItems includeCredentials .number pointer path i l).1,
        ∀ n, number n ∈ u.leaves → NumberText n ∨ isPlaceholder n = true := by
      intro l hl i
      induction l generalizing i with
      | nil => exact fun u hu => absurd hu List.not_mem_nil
      | cons v l ihl =>
        obtain ⟨hv, hsub⟩ := List.cons_subset.1 hl
        rw [scrubItems]
        exact List.forall_mem_cons.2 ⟨ih v hv (fun n h => hn n (mem_leaves_array.2 ⟨v, hv, h⟩)) _, ihl hsub (i + 1)⟩
    intro n h
    obtain ⟨u, hu, hl⟩ := mem_leaves_array.1 h
    exact hitems items (List.Subset.refl _) 0 u hu n hl
  | object fields ih =>
    have hfields : ∀ l ⊆ fields, ∀ g ∈ (scrubFields includeCredentials .number pointer path l).1,
        ∀ n, number n ∈ g.2.leaves → NumberText n ∨ isPlaceholder n = true := by
      intro l hl
      induction l with
      | nil => exact fun u hu => absurd hu List.not_mem_nil
      | cons f l ihl =>
        obtain ⟨hf, hsub⟩ := List.cons_subset.1 hl
        have hnum : ∀ n, number n ∈ f.2.leaves → NumberText n := fun n h => hn n (mem_leaves_object.2 ⟨f, hf, h⟩)
        have hvalue := ih f hf hnum (path ++ [segment f.1])
        obtain ⟨k, v⟩ := f
        rw [scrubFields]
        refine List.forall_mem_cons.2 ⟨fun n h => ?_, ihl hsub⟩
        cases hu : scrubLeaf includeCredentials .number pointer path k v with
        | none =>
          rw [hu] at h
          exact hvalue n h
        | some u =>
          rw [hu] at h
          exact scrubLeaf_numbers includeCredentials pointer hnum hu n h
    intro n h
    obtain ⟨g, hg, hl⟩ := mem_leaves_object.1 h
    exact hfields fields (List.Subset.refl _) g hg n hl

end Scrub

/-! ## Marked strings -/

@[simp] theorem length_numericMark : numericMark.length = 14 := rfl

@[simp] theorem utf8Len_numericMark : utf8Len numericMark = 14 := by decide

theorem inner_marked (p : Text) : inner (marked p) = p := by
  unfold inner marked
  rw [List.append_assoc, List.drop_left]
  have hlen : (numericMark ++ (p ++ numericMark)).length - 2 * numericMark.length = p.length := by
    simp
    omega
  rw [hlen, List.take_left]

theorem isNumericPlaceholder_marked {p : Text} (hp : p ≠ []) : isNumericPlaceholder (marked p) = true := by
  have hlen : utf8Len numericMark * 2 < utf8Len (marked p) := by
    have hpos := utf8Len_pos hp
    simp only [marked, utf8Len_append, utf8Len_numericMark]
    omega
  have hstart : numericMark <+: marked p := by
    unfold marked
    rw [List.append_assoc]
    exact List.prefix_append _ _
  have hend : numericMark <:+ marked p := List.suffix_append _ _
  unfold isNumericPlaceholder
  rw [decide_eq_true hlen, List.isPrefixOf_iff_prefix.2 hstart, List.isSuffixOf_iff_suffix.2 hend]
  rfl

theorem markStart_isPrefixOf {m : Text} (h : isNumericPlaceholder m = true) : markStart.isPrefixOf (quote m) = true := by
  unfold isNumericPlaceholder at h
  rw [Bool.and_eq_true_iff, Bool.and_eq_true_iff] at h
  obtain ⟨rest, rfl⟩ := List.isPrefixOf_iff_prefix.1 h.1.2
  have hstart : markStart = '"' :: numericMark.flatMap escapeChar := List.dropLast_concat
  rw [List.isPrefixOf_iff_prefix, hstart, quote, List.flatMap_append]
  exact ⟨rest.flatMap escapeChar ++ ['"'], by simp⟩

/-- The marked strings of the code's tree: those of the body, and those that stand for a number. -/
theorem mem_collectNumericPlaceholders {r : Json} {m : Text} :
    m ∈ collectNumericPlaceholders (mark r) ↔ isNumericPlaceholder m = true ∧
      (string m ∈ r.leaves ∨ ∃ p, number p ∈ r.leaves ∧ isPlaceholder p = true ∧ m = marked p) := by
  have hstring : m ∈ (mark r).leaves.filterMap asStr ↔ string m ∈ (mark r).leaves := by
    rw [List.mem_filterMap]
    constructor
    · rintro ⟨l, hl, he⟩
      cases l <;> cases he
      exact hl
    · exact fun h => ⟨_, h, rfl⟩
  unfold collectNumericPlaceholders
  rw [List.mem_filter, hstring, and_comm, mark, mem_leaves_mapTexts]
  refine and_congr_right fun _ => ⟨?_, ?_⟩
  · rintro ⟨u, hu, hm⟩
    rcases leaf_cases hu with ⟨t, rfl⟩ | ⟨n, rfl⟩ | rfl | ⟨b, rfl⟩
    · obtain rfl : m = t := by simpa [mapTexts, leaves] using hm
      exact .inl hu
    · rw [mapTexts, markNumber] at hm
      split_ifs at hm with hp
      · exact .inr ⟨n, hu, hp, by simpa [leaves] using hm⟩
      · simp [leaves] at hm
    · simp [mapTexts, leaves] at hm
    · simp [mapTexts, leaves] at hm
  · rintro (h | ⟨p, hp, hbrace, rfl⟩)
    · exact ⟨_, h, by simp [mapTexts, leaves]⟩
    · exact ⟨_, hp, by simp [mapTexts, markNumber, hbrace, leaves]⟩

theorem mem_candidates {start source token : Text} (h : start.isPrefixOf token = true) :
    token ∈ candidates start source ↔ .token token ∈ pieces source := by
  unfold candidates
  rw [List.mem_filterMap]
  constructor
  · rintro ⟨p, hp, he⟩
    cases p with
    | plain t => cases he
    | token t =>
      simp only at he
      split_ifs at he
      obtain rfl := Option.some.inj he
      exact hp
  · exact fun hp => ⟨_, hp, if_pos h⟩

/-- What `render_json` makes of a token. -/
theorem replacement_quote {numeric : List Text} (source t : Text) (hall : ∀ m ∈ numeric, isNumericPlaceholder m = true) :
    (if markStart.isPrefixOf (quote t) then (replacement numeric source (quote t)).getD (quote t) else quote t) =
      if t ∈ numeric then (if .token (quote t) ∈ pieces source then quote (inner t) else inner t) else quote t := by
  unfold replacement
  by_cases ht : t ∈ numeric
  · have hfind : numeric.find? (fun m => quote m = quote t) = some t := by
      have hsome : (numeric.find? fun m => quote m = quote t).isSome = true :=
        List.find?_isSome.2 ⟨t, ht, decide_eq_true rfl⟩
      obtain ⟨m, hm⟩ := Option.isSome_iff_exists.1 hsome
      have heq : quote m = quote t := by simpa using List.find?_some hm
      rw [hm, quote_injective heq]
    have hstart := markStart_isPrefixOf (hall t ht)
    rw [if_pos hstart, if_pos ht, hfind, Option.map_some, Option.getD_some]
    exact if_congr (mem_candidates hstart) rfl rfl
  · have hnone : numeric.find? (fun m => quote m = quote t) = none := by
      refine List.find?_eq_none.2 fun m hm he => ht ?_
      have heq : quote m = quote t := by simpa using he
      exact quote_injective heq ▸ hm
    rw [if_neg ht, hnone]
    exact ite_self _

/-! ## The rendered body -/

/-- The tree without its marks: a marked string of the body is a string, and a placeholder that the source holds as a
marked string is one too. -/
def stripped (source : Text) (r : Json) : Json :=
  mapTexts (fun t => if isNumericPlaceholder t then inner t else t)
    (fun k => if k ∈ collectNumericPlaceholders (mark r) then inner k else k)
    (fun n => if isPlaceholder n ∧ .token (quote (marked n)) ∈ pieces source then .string n else .number n) r

/-- The numbers of the code's tree have no quotes, as the placeholders are strings there. -/
theorem quote_not_mem_mark {r : Json} (hn : ∀ n, number n ∈ r.leaves → NumberText n ∨ isPlaceholder n = true) {n : Text}
    (h : number n ∈ (mark r).leaves) : '"' ∉ n := by
  obtain ⟨u, hu, hnu⟩ := mem_leaves_mapTexts.1 h
  rcases leaf_cases hu with ⟨t, rfl⟩ | ⟨m, rfl⟩ | rfl | ⟨b, rfl⟩
  · simp [mapTexts, leaves] at hnu
  · rw [mapTexts, markNumber] at hnu
    split_ifs at hnu with hp
    · simp [leaves] at hnu
    · obtain rfl : n = m := by simpa [leaves] using hnu
      exact quote_not_mem ((hn n hu).resolve_right hp)
  · simp [mapTexts, leaves] at hnu
  · simp [mapTexts, leaves] at hnu

/-- How `render_json` writes a string or a name. -/
def renderedText (numeric : List Text) (source t : Text) : Text :=
  if t ∈ numeric then (if .token (quote t) ∈ pieces source then quote (inner t) else inner t) else quote t

theorem renderJson_write {v : Json} (hn : ∀ n, number n ∈ v.leaves → '"' ∉ n) (pretty : Bool) (source : Text) :
    renderJson v pretty source = write ⟨renderedText (collectNumericPlaceholders v) source,
      renderedText (collectNumericPlaceholders v) source, fun n => n⟩ (if pretty then some 0 else none) v := by
  have hall : ∀ m ∈ collectNumericPlaceholders v, isNumericPlaceholder m = true := fun m hm => (List.mem_filter.1 hm).2
  unfold renderJson
  simp only [serialize_eq_write]
  generalize (if pretty then some 0 else none : Option Nat) = level
  split_ifs with hempty
  · have hnone : ∀ t, quote t = renderedText (collectNumericPlaceholders v) source t := by
      intro t
      rw [List.isEmpty_iff.1 hempty]
      exact (if_neg List.not_mem_nil).symm
    refine write_congr ?_ ?_ ?_ level
    · exact fun t _ => hnone t
    · exact fun k _ => hnone k
    · exact fun _ _ => rfl
  · have hscan := scan_write (fun token => if markStart.isPrefixOf token then
      (replacement (collectNumericPlaceholders v) source token).getD token else token) hn level []
    rw [List.append_nil] at hscan
    unfold scanMarked
    rw [hscan]
    simp only [replacement_quote source _ hall]
    exact List.append_nil _

theorem renderJson_mark {r : Json} (hn : ∀ n, number n ∈ r.leaves → NumberText n ∨ isPlaceholder n = true) (pretty : Bool)
    {source : Text} (hspelled : ∀ t ∈ collectNumericPlaceholders (mark r), string t ∈ r.leaves ∨ t ∈ r.keys →
      .token (quote t) ∈ pieces source) :
    renderJson (mark r) pretty source = serialize pretty (stripped source r) := by
  rw [renderJson_write (fun n => quote_not_mem_mark hn), serialize_eq_write]
  generalize (if pretty then some 0 else none : Option Nat) = level
  unfold stripped
  have hstring : ∀ t, string t ∈ r.leaves → renderedText (collectNumericPlaceholders (mark r)) source t =
      quote (if isNumericPlaceholder t then inner t else t) := by
    intro t ht
    unfold renderedText
    by_cases hmarked : isNumericPlaceholder t = true
    · have hmem := mem_collectNumericPlaceholders.2 ⟨hmarked, .inl ht⟩
      rw [if_pos hmem, if_pos (hspelled t hmem (.inl ht)), if_pos hmarked]
    · rw [if_neg fun h => hmarked (mem_collectNumericPlaceholders.1 h).1, if_neg hmarked]
  have hname : ∀ k ∈ r.keys, renderedText (collectNumericPlaceholders (mark r)) source k =
      quote (if k ∈ collectNumericPlaceholders (mark r) then inner k else k) := by
    intro k hk
    unfold renderedText
    split_ifs with hmem hheld
    · rfl
    · exact absurd (hspelled k hmem (.inr hk)) hheld
    · rfl
  have hnumber : ∀ n, number n ∈ r.leaves → write ⟨renderedText (collectNumericPlaceholders (mark r)) source,
      renderedText (collectNumericPlaceholders (mark r)) source, fun n => n⟩ none (markNumber n) =
      write plainWriter none
        (if isPlaceholder n ∧ .token (quote (marked n)) ∈ pieces source then .string n else .number n) := by
    intro n hmem
    unfold markNumber
    by_cases hp : isPlaceholder n = true
    · have hne : n ≠ [] := by
        rintro rfl
        cases hp
      have hmarked := mem_collectNumericPlaceholders.2 ⟨isNumericPlaceholder_marked hne, .inr ⟨n, hmem, hp, rfl⟩⟩
      rw [if_pos hp, write]
      simp only
      rw [renderedText, if_pos hmarked, inner_marked]
      by_cases hheld : .token (quote (marked n)) ∈ pieces source
      · rw [if_pos hheld, if_pos ⟨hp, hheld⟩]
        rfl
      · rw [if_neg hheld, if_neg fun h => hheld h.2]
        rfl
    · rw [if_neg hp, if_neg fun h => hp h.1]
      rfl
  conv_lhs => rw [mark]
  rw [write_mapTexts, write_mapTexts]
  · exact write_congr hstring hname hnumber level
  · intro n level
    split_ifs <;> rfl
  · intro n level
    unfold markNumber
    split_ifs <;> rfl

/-- A body without marked strings of its own, none of whose tokens is that of a placeholder, has nothing to strip. -/
theorem serialize_stripped {r : Json} (pretty : Bool) {source : Text}
    (hspelled : ∀ t ∈ collectNumericPlaceholders (mark r), string t ∈ r.leaves ∨ t ∈ r.keys →
      .token (quote t) ∈ pieces source)
    (hstrings : ∀ t, string t ∈ r.leaves → isNumericPlaceholder t = false)
    (hfree : ∀ p, number p ∈ r.leaves → isPlaceholder p = true → .token (quote (marked p)) ∉ pieces source) :
    serialize pretty (stripped source r) = serialize pretty r := by
  rw [serialize_eq_write, serialize_eq_write, stripped, write_mapTexts]
  · refine write_congr (fun t ht => ?_) (fun k hk => ?_) (fun n hn => ?_) _
    · dsimp only
      rw [hstrings t ht]
      rfl
    · dsimp only
      rw [if_neg]
      intro hmem
      obtain ⟨hmarked, ht | ⟨p, hp, hbrace, rfl⟩⟩ := mem_collectNumericPlaceholders.1 hmem
      · exact absurd hmarked (by rw [hstrings k ht]; exact Bool.false_ne_true)
      · exact hfree p hp hbrace (hspelled _ hmem (.inr hk))
    · dsimp only
      rw [if_neg fun h => hfree n hn h.1 h.2]
      rfl
  · intro n level
    split_ifs <;> rfl

/-- **The rendered body is the scrubbed tree**, where the body's marked strings, and its names that are one of the tree, are
spelled as they would be written: its strings and names are in quotes, and a placeholder for a number is not, unless the
source holds it as a marked string. -/
theorem renderJson_scrubbed (includeCredentials pretty : Bool) (pointer : Text) {v : Json} {source : Text}
    (hn : ∀ n, number n ∈ v.leaves → NumberText n)
    (hspelled : ∀ t ∈ collectNumericPlaceholders (scrubJson includeCredentials pointer v).1,
      string t ∈ (written includeCredentials pointer v).leaves ∨ t ∈ (written includeCredentials pointer v).keys →
      .token (quote t) ∈ pieces source) :
    renderJson (scrubJson includeCredentials pointer v).1 pretty source =
        serialize pretty (stripped source (written includeCredentials pointer v)) ∧
      ((∀ t, string t ∈ (written includeCredentials pointer v).leaves → isNumericPlaceholder t = false) →
        (∀ p, number p ∈ (written includeCredentials pointer v).leaves → isPlaceholder p = true →
          .token (quote (marked p)) ∉ pieces source) →
        renderJson (scrubJson includeCredentials pointer v).1 pretty source =
          serialize pretty (written includeCredentials pointer v)) := by
  have htree : (scrubJson includeCredentials pointer v).1 = mark (written includeCredentials pointer v) :=
    scrubAt_mark includeCredentials pointer hn []
  rw [htree] at hspelled ⊢
  have hrender : renderJson (mark (written includeCredentials pointer v)) pretty source =
      serialize pretty (stripped source (written includeCredentials pointer v)) :=
    renderJson_mark (scrubAt_numbers includeCredentials pointer hn []) pretty hspelled
  exact ⟨hrender, fun hstrings hfree => hrender.trans (serialize_stripped pretty hspelled hstrings hfree)⟩

/-! ## One body with a PIN and a note -/

def pinBody (note : Text) : Json := .object [("pin".toList, .number "1234".toList), ("note".toList, .string note)]

theorem scrubAt_pinBody (put : Text → Json) (note : Text) : ∃ told, scrubAt false put [] [] (pinBody note) =
    (.object [("pin".toList, put (placeholderOf "pin".toList)), ("note".toList, .string note)], told) := by
  obtain ⟨told, hpin⟩ : ∃ told, scrubLeaf false put [] [] "pin".toList (.number "1234".toList) =
      some (put (placeholderOf "pin".toList), told) := ⟨_, rfl⟩
  have hnote : scrubLeaf false put [] [] "note".toList (.string note) = some (.string note, []) := rfl
  rw [pinBody, scrubAt, scrubFields, scrubFields, hpin, hnote]
  exact ⟨_, rfl⟩

theorem written_pinBody (note : Text) : written false [] (pinBody note) =
    .object [("pin".toList, .number (placeholderOf "pin".toList)), ("note".toList, .string note)] := by
  obtain ⟨told, h⟩ := scrubAt_pinBody .number note
  rw [written, h]

theorem scrubJson_pinBody (note : Text) : (scrubJson false [] (pinBody note)).1 =
    .object [("pin".toList, .string (marked (placeholderOf "pin".toList))), ("note".toList, .string note)] := by
  obtain ⟨told, h⟩ := scrubAt_pinBody (fun p => .string (marked p)) note
  rw [scrubJson, h]

theorem renderJson_scrubbed_pin :
    renderJson (scrubJson false [] (pinBody "x".toList)).1 false "\x7b\"pin\":1234,\"note\":\"x\"\x7d".toList =
      "\x7b\"pin\":\x7b\x7bpin\x7d\x7d,\"note\":\"x\"\x7d".toList := by
  have hleaves : (written false [] (pinBody "x".toList)).leaves =
      [.number (placeholderOf "pin".toList), .string "x".toList] := by rw [written_pinBody]; rfl
  have hkeys : (written false [] (pinBody "x".toList)).keys = ["pin".toList, "note".toList] := by rw [written_pinBody]; rfl
  have hstring : ∀ t, string t ∈ (written false [] (pinBody "x".toList)).leaves → isNumericPlaceholder t = false := by
    intro t ht
    rw [hleaves] at ht
    obtain rfl : t = "x".toList := by simpa using ht
    decide
  have hnumber : ∀ n, number n ∈ (pinBody "x".toList).leaves → NumberText n := by
    intro n hn
    obtain rfl : n = "1234".toList := by simpa [pinBody, leaves, leavesFields] using hn
    unfold NumberText
    simp
  refine ((renderJson_scrubbed false false [] hnumber ?_).2 hstring ?_).trans ?_
  · rintro t hmem (ht | ht)
    · have hmarked : isNumericPlaceholder t = true := (List.mem_filter.1 hmem).2
      exact absurd hmarked (by rw [hstring t ht]; exact Bool.false_ne_true)
    · rw [hkeys] at ht
      have hall : ["pin".toList, "note".toList].all (fun t => !isNumericPlaceholder t) = true := by decide
      have hplain := List.all_eq_true.1 hall t ht
      simp [(List.mem_filter.1 hmem).2] at hplain
  · intro p hp _
    rw [hleaves] at hp
    obtain rfl : p = placeholderOf "pin".toList := by simpa using hp
    decide
  · rw [written_pinBody]
    decide

/-- A string of the source that is a whole marked placeholder loses its marks, and the placeholder of the number is
written in quotes as well. -/
theorem marked_note_quoted :
    renderJson (scrubJson false [] (pinBody (marked (placeholderOf "pin".toList)))).1 false
        ("\x7b\"pin\":1234,\"note\":".toList ++ quote (marked (placeholderOf "pin".toList)) ++ "\x7d".toList) =
        "\x7b\"pin\":\"\x7b\x7bpin\x7d\x7d\",\"note\":\"\x7b\x7bpin\x7d\x7d\"\x7d".toList ∧
      serialize false (written false [] (pinBody (marked (placeholderOf "pin".toList)))) =
        "\x7b\"pin\":\x7b\x7bpin\x7d\x7d,\"note\":".toList ++ quote (marked (placeholderOf "pin".toList)) ++
          "\x7d".toList := by
  rw [scrubJson_pinBody, written_pinBody]
  exact ⟨by decide, by decide⟩

end Anvil.Import.Common
