import Anvil.Lib.Ranges
import Anvil.Lib.Utf8Match

/-!
# Replacing secrets in text (`anvil-engine/src/redact.rs`)

A text is given by its bytes, and a match of a pattern by its range of bytes. The Aho-Corasick automaton is taken by the
matches it reports (`Finds`): every occurrence of every pattern, in the order of their ends.

* `replaceMatches` : the automaton's matches, merged and replaced;
* `fallbackRanges`, `fallbackRedact` : the slower pass for when no automaton could be built;
* `replaceRanges` : the markers in place of the ranges, around the markers that are there already;
* `fallback_redacts_as_automaton` : both passes give the same bytes.
-/

namespace Anvil.Redact
open Anvil.Lib

abbrev Bytes := List UInt8

def redacted : Text := "‹redacted›".toList

def redactedBytes : Bytes := encodeUtf8 redacted

def maxSecretMatches : Nat := 4096

/-! ## Replacing ranges -/

/-- The matches of a pattern that do not overlap, from the left (`match_indices`); `skip` bytes are of the last one. -/
def matchIndices (pat : Bytes) : Nat → Nat → Bytes → List Range
  | _, _, [] => []
  | i, skip + 1, _ :: s => matchIndices pat (i + 1) skip s
  | i, 0, b :: s =>
    if pat.isPrefixOf (b :: s) then ⟨i, i + pat.length⟩ :: matchIndices pat (i + 1) (pat.length - 1) s
    else matchIndices pat (i + 1) 0 s

/-- Widen a range by the markers that it reaches into. -/
def coverMarkers : Range → List Range → Range × List Range
  | r, [] => (r, [])
  | r, m :: markers =>
    if m.start < r.stop then coverMarkers ⟨min r.start m.start, max r.stop m.stop⟩ markers else (r, m :: markers)

/-- The ranges to replace, given the markers of the text: one inside a marker is left out. -/
def adjust : List Range → List Range → List Range → List Range
  | [], _, adjusted => adjusted
  | r :: ranges, markers, adjusted =>
    let markers := markers.dropWhile fun m => m.stop ≤ r.start
    if markers.head?.any fun m => m.start ≤ r.start && r.stop ≤ m.stop then adjust ranges markers adjusted
    else
      let covered := coverMarkers r markers
      adjust ranges covered.2 (pushRange adjusted covered.1)

/-- The text with a marker in place of each range. -/
def render (s : Bytes) : Nat → List Range → Bytes
  | offset, [] => s.drop offset
  | offset, r :: ranges => (s.drop offset).take (r.start - offset) ++ redactedBytes ++ render s r.stop ranges

def replaceRanges (s : Bytes) (ranges : List Range) : Bytes :=
  if ranges.isEmpty then s else render s 0 (adjust ranges (matchIndices redactedBytes 0 0 s) [])

/-! ## By the automaton -/

/-- Every occurrence of every pattern. -/
def occurrences (patterns : List Bytes) (s : Bytes) : List Range :=
  patterns.flatMap fun p => ((List.range (s.length + 1)).filter fun i => p.isPrefixOf (s.drop i)).map fun i =>
    ⟨i, i + p.length⟩

/-- What `find_overlapping_iter` reports. -/
structure Finds (patterns : List Bytes) (s : Bytes) (found : List Range) : Prop where
  all : found.Perm (occurrences patterns s)
  ordered : found.Pairwise fun a b => a.stop ≤ b.stop

/-- The bytes as an automaton built with `ascii_case_insensitive` compares them. -/
def lowerBytes (s : Bytes) : Bytes := s.map lowerByte

/-- The merged ranges of the matches, on a stack; none once there are too many. -/
def mergeMatches : Nat → List Range → List Range → Option (List Range)
  | _, stack, [] => some stack.reverse
  | index, stack, m :: found =>
    if index = maxSecretMatches then none
    else mergeMatches (index + 1) (⟨(absorb m.start stack).1, m.stop⟩ :: (absorb m.start stack).2) found

def replaceMatches (found : List Range) (s : Bytes) : Bytes := (mergeMatches 0 [] found).elim redactedBytes (replaceRanges s)

/-! ## Without an automaton -/

/-- `str::find`: the text before the first match, and the text from it on. -/
def find (pattern : Text) : Text → Option (Text × Text)
  | [] => if pattern.isPrefixOf [] then some ([], []) else none
  | c :: t =>
    if pattern.isPrefixOf (c :: t) then some ([], c :: t)
    else (find pattern t).map fun split => (c :: split.1, split.2)

/-- A match: its first byte, its length, and the text from it on. -/
structure Candidate where
  start : Nat
  len : Nat
  tail : Text

/-- The first match of each pattern in `rest`, which begins at `offset`. -/
def candidates (patterns : List Text) (offset : Nat) (rest : Text) : List Candidate :=
  patterns.filterMap fun p => (find p rest).map fun split => ⟨offset + utf8Len split.1, utf8Len p, split.2⟩

/-- `min_by` of the start, and then of the greater length. -/
def earliest : List Candidate → Option Candidate
  | [] => none
  | c :: cs =>
    match earliest cs with
    | none => some c
    | some d => if d.start < c.start ∨ (d.start = c.start ∧ c.len < d.len) then some d else some c

/-- The loop of `fallback_ranges`; each turn goes at least one character on. -/
def fallbackFrom (patterns : List Text) (total : Nat) : Nat → Nat → Nat → Text → List Range → List Range
  | 0, _, _, _, ranges => ranges
  | fuel + 1, offset, count, rest, ranges =>
    if rest.isEmpty then ranges
    else
      match earliest (candidates patterns offset rest) with
      | none => ranges
      | some m =>
        if count = maxSecretMatches then [⟨0, total⟩]
        else
          fallbackFrom patterns total fuel (m.start + (m.tail.head?.map Char.utf8Size).getD 1) (count + 1) m.tail.tail
            (pushRange ranges ⟨m.start, m.start + m.len⟩)

def fallbackRanges (text : Text) (patterns : List Text) : List Range :=
  fallbackFrom patterns (utf8Len text) text.length 0 0 text []

def fallbackRedact (text : Text) (patterns : List Text) : Bytes :=
  replaceRanges (encodeUtf8 text) (fallbackRanges text patterns)

/-- The case-insensitive pass without an automaton, on the lowered text and patterns. -/
def fallbackAnyCase (text : Text) (patterns : List Text) : Bytes :=
  replaceRanges (encodeUtf8 text) (fallbackRanges (lower text) (patterns.map lower))

/-! ## The automaton's ranges -/

/-- The merge of the matches, as long as there are not too many. -/
theorem mergeMatches_merged : ∀ {found stack M : List Range} {index : Nat} (_ : Merged M stack.reverse)
    (_ : ∀ m ∈ found, m.start < m.stop) (_ : found.Pairwise fun a b => a.stop ≤ b.stop)
    (_ : ∀ n ∈ M, ∀ m ∈ found, n.stop ≤ m.stop) (_ : index + found.length ≤ maxSecretMatches),
    ∃ R, mergeMatches index stack found = some R ∧ Merged (found.reverse ++ M) R
  | [], stack, M, index, h, _, _, _, _ => ⟨stack.reverse, rfl, h⟩
  | m :: found, stack, M, index, h, hproper, hordered, hbelow, hlen => by
    rw [List.pairwise_cons] at hordered
    rw [List.length_cons] at hlen
    have hne : index ≠ maxSecretMatches := by omega
    have hlen' : index + 1 + found.length ≤ maxSecretMatches := by omega
    have hm := h.absorb (hproper m List.mem_cons_self) fun n hn => hbelow n hn m List.mem_cons_self
    obtain ⟨R, hR, hmerged⟩ := mergeMatches_merged hm (fun n hn => hproper n (List.mem_cons_of_mem m hn)) hordered.2
      (by
        intro n hn k hk
        rcases List.mem_cons.1 hn with rfl | hn
        · exact hordered.1 k hk
        · exact hbelow n hn k (List.mem_cons_of_mem m hk))
      hlen'
    refine ⟨R, ?_, ?_⟩
    · unfold mergeMatches
      rw [if_neg hne]
      exact hR
    · rw [List.reverse_cons, List.append_assoc]
      exact hmerged

theorem mem_occurrences {patterns : List Bytes} {s : Bytes} {r : Range} :
    r ∈ occurrences patterns s ↔ ∃ p ∈ patterns, r.stop = r.start + p.length ∧ r.start ≤ s.length ∧ p <+: s.drop r.start := by
  unfold occurrences
  simp only [List.mem_flatMap, List.mem_map, List.mem_filter, List.mem_range, List.isPrefixOf_iff_prefix]
  constructor
  · rintro ⟨p, hp, i, ⟨hi, hpre⟩, rfl⟩
    exact ⟨p, hp, rfl, Nat.lt_succ_iff.1 hi, hpre⟩
  · rintro ⟨p, hp, hstop, hle, hpre⟩
    refine ⟨p, hp, r.start, ⟨Nat.lt_succ_iff.2 hle, hpre⟩, ?_⟩
    rw [← hstop]

theorem Finds.merged {patterns : List Bytes} {s : Bytes} {found : List Range} (h : Finds patterns s found)
    (hp : ∀ p ∈ patterns, p ≠ []) (hlen : (occurrences patterns s).length ≤ maxSecretMatches) :
    ∃ R, mergeMatches 0 [] found = some R ∧ Merged (occurrences patterns s) R := by
  have hproper : ∀ m ∈ found, m.start < m.stop := by
    intro m hm
    obtain ⟨p, hpm, hstop, -⟩ := mem_occurrences.1 (h.all.mem_iff.1 hm)
    have := List.length_pos_iff.2 (hp p hpm)
    omega
  have hcount : 0 + found.length ≤ maxSecretMatches := by
    rw [Nat.zero_add, h.all.length_eq]
    exact hlen
  have hempty : Merged [] ([] : List Range).reverse := merged_nil
  obtain ⟨R, hR, hmerged⟩ := mergeMatches_merged hempty hproper h.ordered (by simp) hcount
  refine ⟨R, hR, hmerged.congr ?_⟩
  intro m
  rw [List.append_nil, List.mem_reverse, h.all.mem_iff]

/-! ## The ranges without an automaton -/

theorem find_some {p t pre post : Text} (h : find p t = some (pre, post)) :
    t = pre ++ post ∧ p <+: post ∧ ∀ pre' post', t = pre' ++ post' → p <+: post' → pre.length ≤ pre'.length := by
  induction t generalizing pre with
  | nil =>
    unfold find at h
    split_ifs at h with hp
    cases h
    exact ⟨rfl, List.isPrefixOf_iff_prefix.1 hp, fun _ _ _ _ => Nat.zero_le _⟩
  | cons c t ih =>
    unfold find at h
    split_ifs at h with hp
    · cases h
      exact ⟨rfl, List.isPrefixOf_iff_prefix.1 hp, fun _ _ _ _ => Nat.zero_le _⟩
    · obtain ⟨⟨pre₁, post₁⟩, hfind, heq⟩ := Option.map_eq_some_iff.1 h
      cases heq
      obtain ⟨rfl, hpre, hfirst⟩ := ih hfind
      refine ⟨rfl, hpre, ?_⟩
      intro pre' post' ht hp'
      cases pre' with
      | nil =>
        rw [List.nil_append] at ht
        rw [← ht] at hp'
        exact absurd (List.isPrefixOf_iff_prefix.2 hp') hp
      | cons d pre' =>
        rw [List.cons_append, List.cons.injEq] at ht
        exact Nat.succ_le_succ (hfirst pre' post' ht.2 hp')

theorem find_none {p t pre post : Text} (h : find p t = none) (ht : t = pre ++ post) : ¬p <+: post := by
  induction t generalizing pre with
  | nil =>
    obtain ⟨rfl, rfl⟩ := List.append_eq_nil_iff.1 ht.symm
    unfold find at h
    split_ifs at h with hp
    exact fun hc => hp (List.isPrefixOf_iff_prefix.2 hc)
  | cons c t ih =>
    unfold find at h
    split_ifs at h with hp
    cases pre with
    | nil =>
      rw [List.nil_append] at ht
      rw [← ht]
      exact fun hc => hp (List.isPrefixOf_iff_prefix.2 hc)
    | cons d pre =>
      rw [List.cons_append, List.cons.injEq] at ht
      exact ih (Option.map_eq_none_iff.1 h) ht.2

theorem earliest_none {cs : List Candidate} (h : earliest cs = none) : cs = [] := by
  cases cs with
  | nil => rfl
  | cons c cs =>
    unfold earliest at h
    split at h
    · cases h
    · split_ifs at h

/-- The earliest candidate, and of those the longest. -/
theorem earliest_some {cs : List Candidate} {m : Candidate} (h : earliest cs = some m) :
    m ∈ cs ∧ ∀ c ∈ cs, m.start < c.start ∨ (m.start = c.start ∧ c.len ≤ m.len) := by
  induction cs generalizing m with
  | nil => cases h
  | cons c cs ih =>
    unfold earliest at h
    split at h
    · next hnone =>
      cases h
      rw [earliest_none hnone]
      simp
    · next d hd =>
      obtain ⟨hmem, hmin⟩ := ih hd
      split_ifs at h with hbetter
      · cases h
        refine ⟨List.mem_cons_of_mem c hmem, List.forall_mem_cons.2 ⟨?_, hmin⟩⟩
        omega
      · cases h
        refine ⟨List.mem_cons_self, List.forall_mem_cons.2 ⟨by omega, ?_⟩⟩
        intro e he
        have := hmin e he
        omega

/-- The occurrences of text are where the text stands. -/
theorem mem_occurrences_text {patterns : List Text} {text : Text} (hp : ∀ p ∈ patterns, p ≠ []) {r : Range} :
    r ∈ occurrences (patterns.map encodeUtf8) (encodeUtf8 text) ↔
      ∃ p ∈ patterns, ∃ pre post, text = pre ++ post ∧ p <+: post ∧ r = ⟨utf8Len pre, utf8Len pre + utf8Len p⟩ := by
  rw [mem_occurrences]
  constructor
  · rintro ⟨q, hq, hstop, hle, b, hb⟩
    obtain ⟨p, hpm, rfl⟩ := List.mem_map.1 hq
    have hsplit : encodeUtf8 text = (encodeUtf8 text).take r.start ++ (encodeUtf8 p ++ b) := by
      rw [hb, List.take_append_drop]
    obtain ⟨pre, post, htext, hpre, hpost⟩ := encodeUtf8_infix (hp p hpm) hsplit
    refine ⟨p, hpm, pre, post, htext, hpost, ?_⟩
    have hlen : utf8Len pre = r.start := by
      rw [← length_encodeUtf8, hpre, List.length_take, min_eq_left hle]
    rw [length_encodeUtf8] at hstop
    rw [hlen, ← hstop]
  · rintro ⟨p, hpm, pre, post, rfl, hpost, rfl⟩
    refine ⟨encodeUtf8 p, List.mem_map_of_mem hpm, by rw [length_encodeUtf8], ?_, ?_⟩
    · rw [length_encodeUtf8, utf8Len_append]
      exact Nat.le_add_right _ _
    · rw [encodeUtf8_append, ← length_encodeUtf8, List.drop_left]
      exact encodeUtf8_prefix_iff.2 hpost

theorem utf8Len_pos {t : Text} (h : t ≠ []) : 0 < utf8Len t := by
  cases t with
  | nil => exact absurd rfl h
  | cons c t =>
    have := c.utf8Size_pos
    rw [utf8Len_cons]
    omega

/-- Where two splits of a text lie to each other. -/
theorem split_cases {pre rest pre' post' : Text} (h : pre ++ rest = pre' ++ post') :
    (∃ x, pre' = pre ++ x ∧ rest = x ++ post') ∨ utf8Len pre' < utf8Len pre := by
  rcases List.append_eq_append_iff.1 h with ⟨x, hpre, hrest⟩ | ⟨x, hpre, hrest⟩
  · exact .inl ⟨x, hpre, hrest⟩
  · cases x with
    | nil => exact .inl ⟨[], by simpa using hpre.symm, by simpa using hrest.symm⟩
    | cons c x =>
      right
      rw [hpre, utf8Len_append]
      have := utf8Len_pos (List.cons_ne_nil c x)
      omega

/-- What the loop has found among the occurrences before `n`: the longest one at every start. -/
structure Scanned (occ : List Range) (n : Nat) (M : List Range) : Prop where
  found : ∀ m ∈ M, m ∈ occ
  nodup : M.Nodup
  before : ∀ m ∈ M, m.start < n
  longest : ∀ o ∈ occ, o.start < n → ∃ m ∈ M, m.start = o.start ∧ o.stop ≤ m.stop

section Fallback
variable {patterns : List Text} {text : Text}

/-- The occurrences in the text. -/
abbrev textOccurrences (patterns : List Text) (text : Text) : List Range :=
  occurrences (patterns.map encodeUtf8) (encodeUtf8 text)

theorem occurrence_proper (hp : ∀ p ∈ patterns, p ≠ []) {o : Range} (ho : o ∈ textOccurrences patterns text) :
    o.start < o.stop := by
  obtain ⟨p, hpm, pre, post, -, -, rfl⟩ := (mem_occurrences_text hp).1 ho
  have := utf8Len_pos (hp p hpm)
  simp only
  omega

/-- Once nothing is found any more, the ranges are those of all occurrences. -/
theorem Scanned.finished {pre rest : Text} {M ranges : List Range} (hp : ∀ p ∈ patterns, p ≠ []) (ht : text = pre ++ rest)
    (h : Scanned (textOccurrences patterns text) (utf8Len pre) M) (hm : Merged M ranges)
    (hnone : ∀ p ∈ patterns, ∀ x post, rest = x ++ post → ¬p <+: post) : Merged (textOccurrences patterns text) ranges := by
  refine hm.of_dominated h.found ?_
  intro o ho
  refine ⟨occurrence_proper hp ho, h.longest o ho ?_⟩
  obtain ⟨p, hpm, pre', post', ht', hpost, rfl⟩ := (mem_occurrences_text hp).1 ho
  rcases split_cases (ht.symm.trans ht') with ⟨x, -, hrest⟩ | hlt
  · exact absurd hpost (hnone p hpm x post' hrest)
  · exact hlt

/-- One turn of the loop. -/
theorem Scanned.next {pre rest : Text} {M : List Range} {m : Candidate} (hp : ∀ p ∈ patterns, p ≠ [])
    (ht : text = pre ++ rest)
    (h : Scanned (textOccurrences patterns text) (utf8Len pre) M)
    (hm : earliest (candidates patterns (utf8Len pre) rest) = some m) :
    ∃ skipped c after, rest = skipped ++ c :: after ∧ m.tail = c :: after ∧
      m.start = utf8Len pre + utf8Len skipped ∧ 0 < m.len ∧
      Scanned (textOccurrences patterns text) (m.start + c.utf8Size) (⟨m.start, m.start + m.len⟩ :: M) := by
  obtain ⟨hmem, hmin⟩ := earliest_some hm
  obtain ⟨p, hpm, hmap⟩ := List.mem_filterMap.1 hmem
  obtain ⟨⟨skipped, tail⟩, hfind, rfl⟩ := Option.map_eq_some_iff.1 hmap
  obtain ⟨hrest, hprefix, -⟩ := find_some hfind
  obtain ⟨c, after, rfl⟩ : ∃ c after, tail = c :: after := by
    cases tail with
    | nil => exact absurd (List.prefix_nil.1 hprefix) (hp p hpm)
    | cons c after => exact ⟨c, after, rfl⟩
  refine ⟨skipped, c, after, hrest, rfl, rfl, utf8Len_pos (hp p hpm), ?_, ?_, ?_, ?_⟩
  · refine List.forall_mem_cons.2 ⟨?_, h.found⟩
    refine (mem_occurrences_text hp).2 ⟨p, hpm, pre ++ skipped, c :: after, ?_, hprefix, ?_⟩
    · rw [ht, hrest, List.append_assoc]
    · rw [utf8Len_append]
  · refine List.nodup_cons.2 ⟨?_, h.nodup⟩
    intro hin
    have := h.before _ hin
    simp only at this
    omega
  · have hpos := c.utf8Size_pos
    refine List.forall_mem_cons.2 ⟨?_, ?_⟩
    · simp only
      omega
    · intro n hn
      have := h.before n hn
      simp only
      omega
  · intro o ho hlt
    by_cases hold : o.start < utf8Len pre
    · obtain ⟨n, hn, hstart, hstop⟩ := h.longest o ho hold
      exact ⟨n, List.mem_cons_of_mem _ hn, hstart, hstop⟩
    · -- the occurrence is at the match: the earlier ones would have been found first
      obtain ⟨q, hqm, pre', post', ht', hpost, rfl⟩ := (mem_occurrences_text hp).1 ho
      refine ⟨_, List.mem_cons_self, ?_⟩
      simp only at hlt hold ⊢
      rcases split_cases (ht.symm.trans ht') with ⟨x, rfl, hx⟩ | hbefore
      · obtain ⟨⟨skipped', tail'⟩, hfind'⟩ : ∃ split, find q rest = some split := by
          cases hq : find q rest with
          | none => exact absurd hpost (find_none hq hx)
          | some split => exact ⟨split, rfl⟩
        obtain ⟨hrest', -, hfirst⟩ := find_some hfind'
        have hcandidate := hmin ⟨utf8Len pre + utf8Len skipped', utf8Len q, tail'⟩
          (List.mem_filterMap.2 ⟨q, hqm, by rw [hfind']; rfl⟩)
        have hle : utf8Len skipped' ≤ utf8Len x := by
          rcases split_cases (hrest'.symm.trans hx) with ⟨y, rfl, -⟩ | hlt'
          · rw [utf8Len_append]
            omega
          · have hlen := hfirst x post' hx hpost
            rcases split_cases (hx.symm.trans hrest') with ⟨y, rfl, -⟩ | hlt''
            · cases y with
              | nil => simp
              | cons d y =>
                rw [List.length_append, List.length_cons] at hlen
                omega
            · omega
        have hxs : utf8Len x ≤ utf8Len skipped := by
          rcases split_cases (hx.symm.trans hrest) with ⟨y, rfl, -⟩ | hlt'
          · rw [utf8Len_append]
            omega
          · rcases split_cases (hrest.symm.trans hx) with ⟨y, rfl, hy⟩ | hlt''
            · cases y with
              | nil => simp
              | cons d y =>
                rw [List.cons_append, List.cons.injEq] at hy
                rw [utf8Len_append, utf8Len_append, utf8Len_cons, hy.1] at hlt
                omega
            · omega
        rw [utf8Len_append]
        simp only at hcandidate
        omega
      · omega

theorem fallbackFrom_merged {total : Nat} (hp : ∀ p ∈ patterns, p ≠ [])
    (hlen : (textOccurrences patterns text).length ≤ maxSecretMatches) :
    ∀ {fuel : Nat} {pre rest : Text} {M ranges : List Range} (_ : text = pre ++ rest) (_ : rest.length ≤ fuel)
      (_ : Scanned (textOccurrences patterns text) (utf8Len pre) M) (_ : Merged M ranges),
      Merged (textOccurrences patterns text) (fallbackFrom patterns total fuel (utf8Len pre) M.length rest ranges)
  | 0, pre, rest, M, ranges, ht, hfuel, hs, hm => by
    obtain rfl := List.length_eq_zero_iff.1 (Nat.le_zero.1 hfuel)
    refine hs.finished hp ht hm ?_
    intro p hpm x post hx hpost
    obtain ⟨rfl, rfl⟩ := List.append_eq_nil_iff.1 hx.symm
    exact hp p hpm (List.prefix_nil.1 hpost)
  | fuel + 1, pre, rest, M, ranges, ht, hfuel, hs, hm => by
    unfold fallbackFrom
    by_cases hrest : rest.isEmpty = true
    · rw [if_pos hrest]
      obtain rfl := List.isEmpty_iff.1 hrest
      refine hs.finished hp ht hm ?_
      intro p hpm x post hx hpost
      obtain ⟨rfl, rfl⟩ := List.append_eq_nil_iff.1 hx.symm
      exact hp p hpm (List.prefix_nil.1 hpost)
    · rw [if_neg hrest]
      split
      · next hnone =>
        refine hs.finished hp ht hm ?_
        intro p hpm x post hx
        cases hf : find p rest with
        | none => exact find_none hf hx
        | some split =>
          have hcand : (⟨utf8Len pre + utf8Len split.1, utf8Len p, split.2⟩ : Candidate) ∈ candidates patterns
              (utf8Len pre) rest :=
            List.mem_filterMap.2 ⟨p, hpm, by rw [hf]; rfl⟩
          rw [earliest_none hnone] at hcand
          cases hcand
      · next m hsome =>
        obtain ⟨skipped, c, after, hsplit, htail, hstart, hpos, hnext⟩ := hs.next hp ht hsome
        have hcount : M.length < maxSecretMatches := by
          have hle := (hnext.nodup.subperm hnext.found).length_le
          rw [List.length_cons] at hle
          omega
        have hpre : m.start + c.utf8Size = utf8Len (pre ++ skipped ++ [c]) := by
          rw [utf8Len_append, utf8Len_append, utf8Len_cons, utf8Len_nil, hstart]
          omega
        have hpush : Merged (⟨m.start, m.start + m.len⟩ :: M) (pushRange ranges ⟨m.start, m.start + m.len⟩) := by
          refine hm.pushRange (Nat.lt_add_of_pos_right hpos) ?_
          intro n hn
          have := hs.before n hn
          simp only
          omega
        rw [if_neg hcount.ne, htail]
        simp only [List.head?_cons, Option.map_some, Option.getD_some, List.tail_cons]
        rw [hpre] at hnext ⊢
        refine fallbackFrom_merged hp hlen ?_ ?_ hnext hpush
        · rw [ht, hsplit]
          simp
        · rw [hsplit, List.length_append, List.length_cons] at hfuel
          omega

theorem fallbackRanges_merged (hp : ∀ p ∈ patterns, p ≠ [])
    (hlen : (textOccurrences patterns text).length ≤ maxSecretMatches) :
    Merged (textOccurrences patterns text) (fallbackRanges text patterns) := by
  have hs : Scanned (textOccurrences patterns text) (utf8Len []) [] := ⟨by simp, List.nodup_nil, by simp, by simp⟩
  exact fallbackFrom_merged hp hlen rfl le_rfl hs merged_nil

/-- Both passes merge the same occurrences. -/
theorem mergeMatches_eq_fallback {found : List Range} (hp : ∀ p ∈ patterns, p ≠ [])
    (hf : Finds (patterns.map encodeUtf8) (encodeUtf8 text) found)
    (hlen : (textOccurrences patterns text).length ≤ maxSecretMatches) :
    mergeMatches 0 [] found = some (fallbackRanges text patterns) := by
  have hp' : ∀ p ∈ patterns.map encodeUtf8, p ≠ [] := by
    intro q hq hnil
    obtain ⟨p, hpm, rfl⟩ := List.mem_map.1 hq
    have hpos := utf8Len_pos (hp p hpm)
    rw [← length_encodeUtf8, hnil] at hpos
    exact absurd hpos (by simp)
  obtain ⟨R, hR, hmerged⟩ := hf.merged hp' hlen
  rw [hR, hmerged.unique (fallbackRanges_merged hp hlen)]

end Fallback

/-- **The pass without an automaton gives the bytes of the pass with it**, with the case of the text or without, as long as
the automaton's matches are not too many. -/
theorem fallback_redacts_as_automaton (patterns : List Text) (hp : ∀ p ∈ patterns, p ≠ []) (text : Text)
    (found : List Range) :
    (Finds (patterns.map encodeUtf8) (encodeUtf8 text) found →
      (occurrences (patterns.map encodeUtf8) (encodeUtf8 text)).length ≤ maxSecretMatches →
      fallbackRedact text patterns = replaceMatches found (encodeUtf8 text)) ∧
    (Finds ((patterns.map encodeUtf8).map lowerBytes) (lowerBytes (encodeUtf8 text)) found →
      (occurrences ((patterns.map encodeUtf8).map lowerBytes) (lowerBytes (encodeUtf8 text))).length ≤ maxSecretMatches →
      fallbackAnyCase text patterns = replaceMatches found (encodeUtf8 text)) := by
  refine ⟨?_, ?_⟩
  · intro hf hlen
    unfold fallbackRedact replaceMatches
    rw [mergeMatches_eq_fallback hp hf hlen]
    rfl
  · intro hf hlen
    have hbytes : (patterns.map encodeUtf8).map lowerBytes = (patterns.map lower).map encodeUtf8 := by
      rw [List.map_map, List.map_map]
      exact List.map_congr_left fun p _ => (encodeUtf8_lower p).symm
    have htext : lowerBytes (encodeUtf8 text) = encodeUtf8 (lower text) := (encodeUtf8_lower text).symm
    have hp' : ∀ p ∈ patterns.map lower, p ≠ [] := by
      intro q hq hnil
      obtain ⟨p, hpm, rfl⟩ := List.mem_map.1 hq
      exact hp p hpm (List.map_eq_nil_iff.1 hnil)
    rw [hbytes, htext] at hf hlen
    unfold fallbackAnyCase replaceMatches
    rw [mergeMatches_eq_fallback hp' hf hlen]
    rfl

/-- The occurrences in the order of their ends. -/
def overlapping (patterns : List Bytes) (s : Bytes) : List Range :=
  (occurrences patterns s).mergeSort fun a b => a.stop ≤ b.stop

theorem overlapping_finds (patterns : List Bytes) (s : Bytes) : Finds patterns s (overlapping patterns s) := by
  refine ⟨List.mergeSort_perm _ _, ?_⟩
  have hsorted := @List.pairwise_mergeSort Range (fun a b => decide (a.stop ≤ b.stop))
    (fun a b c hab hbc => by simp only [decide_eq_true_eq] at *; omega)
    (fun a b => by simp only [Bool.or_eq_true, decide_eq_true_eq]; omega) (occurrences patterns s)
  exact hsorted.imp fun h => by simpa using h

def samplePatterns : List Text := ["Token-é7".toList, "é7-more".toList, "ken".toList]

def sampleText : Text := "Ü TOKEN-é7-MORE, ‹redacted› token".toList

/-- Two secrets that overlap, in another case. -/
theorem fallback_redacts_as_automaton_sample :
    (∀ p ∈ samplePatterns, p ≠ []) ∧ fallbackAnyCase sampleText samplePatterns =
      replaceMatches (overlapping ((samplePatterns.map encodeUtf8).map lowerBytes) (lowerBytes (encodeUtf8 sampleText)))
        (encodeUtf8 sampleText) ∧
    fallbackAnyCase sampleText samplePatterns = encodeUtf8 "Ü ‹redacted›, ‹redacted› to‹redacted›".toList := by
  have hp : ∀ p ∈ samplePatterns, p ≠ [] := by decide
  exact ⟨hp, (fallback_redacts_as_automaton samplePatterns hp sampleText _).2 (overlapping_finds _ _) (by decide),
    by decide⟩

end Anvil.Redact
