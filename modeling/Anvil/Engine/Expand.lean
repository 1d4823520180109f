import Anvil.Engine.Vars

/-!
# What resolving gives (`anvil-engine/src/vars.rs`)

The expansion of an input over the layers, without a stack, a limit or a run; and that `resolve` gives it.

* `Wins` : the entry that wins a name, as the layers have it;
* `Mentions`, `Unfolds`, `Chain` : the references of a text, and those reached from it one value after another;
* `Expands` : a text with every token replaced, in full;
* `After`, `SoundNames`, `Resolved` : what a run keeps and what it reached; `resolveInner_sound` : runs that gave a value.
-/

namespace Anvil.Vars
open Anvil.Lib

variable {κ ω : Type}

/-! ## The winning entry -/

/-- The last layer that has `name`, and its last entry of that name. -/
structure Wins (r : Resolver κ) (name : Text) (found : Found) : Prop where
  layer : ∃ layer, r.layers[found.layer]? = some layer ∧ layer.label = found.scope ∧
    layer.vars[found.index]? = some found.entry ∧
      ∀ j v, found.index < j → layer.vars[j]? = some v → v.name ≠ name
  named : found.entry.name = name
  last : ∀ i layer, found.layer < i → r.layers[i]? = some layer → ∀ v ∈ layer.vars, v.name ≠ name

theorem getElem?_concat_eq_some {α : Type} {l : List α} {a b : α} {i : Nat} :
    (l ++ [a])[i]? = some b ↔ l[i]? = some b ∨ i = l.length ∧ a = b := by
  rcases Nat.lt_trichotomy i l.length with hlt | rfl | hgt
  · rw [List.getElem?_append_left hlt]
    exact ⟨Or.inl, fun h => h.resolve_right fun h' => by omega⟩
  · simp
  · rw [List.getElem?_eq_none (by simp; omega), List.getElem?_eq_none (by omega)]
    simp only [reduceCtorEq, false_or, false_iff, not_and]
    omega

/-- Searching a list from its end finds the last element that passes. -/
theorem findSome?_zipIdx_reverse {α β : Type} {f : α × Nat → Option β} {l : List α} {b : β} :
    l.zipIdx.reverse.findSome? f = some b ↔ ∃ i a, l[i]? = some a ∧ f (a, i) = some b ∧
      ∀ j c, i < j → l[j]? = some c → f (c, j) = none := by
  induction l using List.reverseRecOn with
  | nil => simp
  | append_singleton l a ih =>
    rw [List.zipIdx_append, List.reverse_append]
    simp only [List.zipIdx_cons, List.zipIdx_nil, List.reverse_cons, List.reverse_nil, List.nil_append,
      List.cons_append, List.findSome?_cons, Nat.zero_add, getElem?_concat_eq_some]
    cases hfa : f (a, l.length) with
    | some b' =>
      constructor
      · intro h
        obtain rfl := Option.some.inj h
        refine ⟨l.length, a, .inr ⟨rfl, rfl⟩, hfa, fun j c hj hc => ?_⟩
        rcases hc with hc | ⟨rfl, -⟩
        · have := (List.getElem?_eq_some_iff.1 hc).1
          omega
        · exact absurd hj (Nat.lt_irrefl _)
      · rintro ⟨i, c, hi | ⟨rfl, rfl⟩, hf, hrest⟩
        · have := hrest l.length a (List.getElem?_eq_some_iff.1 hi).1 (.inr ⟨rfl, rfl⟩)
          rw [hfa] at this
          cases this
        · rw [← hfa, hf]
    | none =>
      rw [ih]
      constructor
      · rintro ⟨i, c, hi, hf, hrest⟩
        refine ⟨i, c, .inl hi, hf, fun j d hj hd => ?_⟩
        rcases hd with hd | ⟨rfl, rfl⟩
        · exact hrest j d hj hd
        · exact hfa
      · rintro ⟨i, c, hi | ⟨rfl, rfl⟩, hf, hrest⟩
        · exact ⟨i, c, hi, hf, fun j d hj hd => hrest j d hj (.inl hd)⟩
        · rw [hfa] at hf
          cases hf

theorem find?_zipIdx_reverse {α : Type} {p : α → Bool} {l : List α} {a : α} {i : Nat} :
    l.zipIdx.reverse.find? (fun v => p v.1) = some (a, i) ↔ l[i]? = some a ∧ p a = true ∧
      ∀ j c, i < j → l[j]? = some c → p c = false := by
  rw [← List.findSome?_guard, findSome?_zipIdx_reverse]
  constructor
  · rintro ⟨j, b, hb, hg, hrest⟩
    obtain ⟨he, hp⟩ := Option.guard_eq_some_iff.1 hg
    obtain ⟨rfl, rfl⟩ := Prod.mk.inj he
    refine ⟨hb, hp, fun k c hk hc => ?_⟩
    simpa using hrest k c hk hc
  · rintro ⟨ha, hp, hrest⟩
    refine ⟨i, a, ha, Option.guard_eq_some_iff.2 ⟨rfl, hp⟩, fun k c hk hc => ?_⟩
    simpa using hrest k c hk hc

/-- `lookup` finds the entry that wins. -/
theorem lookup_eq_some {r : Resolver κ} {name : Text} {found : Found} : r.lookup name = some found ↔ Wins r name found := by
  have hnone : ∀ layer : VarLayer, layer.vars.zipIdx.reverse.find? (fun v => decide (v.1.name = name)) = none ↔
      ∀ v ∈ layer.vars, v.name ≠ name := fun layer => by
    rw [List.find?_eq_none]
    simp only [List.mem_reverse, decide_eq_true_eq, Prod.forall]
    refine ⟨fun h v hv => ?_, fun h v j hj => h v (List.fst_mem_of_mem_zipIdx hj)⟩
    obtain ⟨j, hj⟩ := List.mem_iff_getElem?.1 hv
    exact h v j (List.mem_zipIdx_iff_getElem?.2 hj)
  unfold Resolver.lookup
  rw [findSome?_zipIdx_reverse]
  simp only [Option.map_eq_some_iff, Option.map_eq_none_iff, hnone]
  constructor
  · rintro ⟨i, layer, hi, ⟨⟨v, j⟩, hv, rfl⟩, hlast⟩
    obtain ⟨hj, hp, hafter⟩ := (find?_zipIdx_reverse (p := fun v : VarEntry => decide (v.name = name))).1 hv
    exact ⟨⟨layer, hi, rfl, hj, fun k w hk hw => of_decide_eq_false (hafter k w hk hw)⟩, of_decide_eq_true hp, hlast⟩
  · rintro ⟨⟨layer, hi, hlabel, hj, hafter⟩, hp, hlast⟩
    refine ⟨found.layer, layer, hi, ⟨(found.entry, found.index), ?_, by rw [hlabel]⟩, hlast⟩
    exact (find?_zipIdx_reverse (p := fun v : VarEntry => decide (v.name = name))).2
      ⟨hj, decide_eq_true hp, fun k w hk hw => decide_eq_false (hafter k w hk hw)⟩

theorem Wins.unique {r : Resolver κ} {name : Text} {found found' : Found} (h : Wins r name found)
    (h' : Wins r name found') : found = found' :=
  Option.some.inj ((lookup_eq_some.2 h).symm.trans (lookup_eq_some.2 h'))

/-! ## Values -/

theorem Wins.entryAt {r : Resolver κ} {name : Text} {found : Found} (h : Wins r name found) :
    r.entryAt found.layer found.index = found.entry := by
  obtain ⟨layer, hi, -, hj, -⟩ := h.layer
  unfold Resolver.entryAt
  simp only [List.getD_eq_getElem?_getD, hi, hj, Option.getD_some]

/-- The value of an entry as it is stored or as the vault has it, where there is one. -/
def Resolver.rawOf (r : Resolver κ) (layer index : Nat) : Option Text :=
  match r.variableSecret layer index with
  | some reference => r.resolveSecret reference
  | none => if (r.entryAt layer index).value = deferredSecretValue then none else some (r.entryAt layer index).value

/-- The unexpanded value of an entry. -/
def Resolver.valueOf (r : Resolver κ) (layer index : Nat) : Option Text := (r.rawOf layer index).map r.transformed

/-- What was kept for a place is the secret of its reference. -/
def Frozen (r : Resolver κ) (s : State ω) : Prop :=
  ∀ place value, s.variableValues.lookup place = some value →
    ∃ reference, r.variableSecret place.1 place.2 = some reference ∧ r.resolveSecret reference = some value

theorem frozenSecret_spec {r : Resolver κ} {s : State ω} {layer index : Nat} {reference : κ} (hs : Frozen r s)
    (href : r.variableSecret layer index = some reference) :
    (∃ value vs, r.resolveSecret reference = some value ∧ Frozen r { s with variableValues := vs } ∧
      r.frozenSecret layer index reference s = .ok value { s with variableValues := vs }) ∨
    r.resolveSecret reference = none ∧ r.frozenSecret layer index reference s = .error .vault s := by
  unfold Resolver.frozenSecret
  rw [bind_of_ok (show EStateM.get s = .ok s s from rfl)]
  cases hl : s.variableValues.lookup (layer, index) with
  | some value =>
    obtain ⟨reference', href', hvalue⟩ := hs _ _ hl
    obtain rfl := Option.some.inj (href.symm.trans href')
    exact .inl ⟨value, s.variableValues, hvalue, hs, rfl⟩
  | none =>
    cases hr : r.resolveSecret reference with
    | none => exact .inr ⟨rfl, rfl⟩
    | some value =>
      refine .inl ⟨value, ((layer, index), value) :: s.variableValues, rfl, fun place v hv => ?_, rfl⟩
      rw [List.lookup_cons] at hv
      split at hv
      next heq =>
        obtain rfl : place = (layer, index) := eq_of_beq heq
        obtain rfl := Option.some.inj hv
        exact ⟨reference, href, hr⟩
      next => exact hs place v hv

/-- Reading a value keeps it at most, and fails only where there is none. -/
theorem rawValue_spec {r : Resolver κ} {s : State ω} (hs : Frozen r s) (layer index : Nat) :
    (∃ value vs, r.rawOf layer index = some value ∧ Frozen r { s with variableValues := vs } ∧
      r.rawValue layer index s = .ok value { s with variableValues := vs }) ∨
    r.rawOf layer index = none ∧ ∃ failure, r.rawValue layer index s = .error failure s := by
  unfold Resolver.rawValue Resolver.rawOf
  cases href : r.variableSecret layer index with
  | some reference =>
    rcases frozenSecret_spec hs href with hok | ⟨hnone, herror⟩
    · exact .inl hok
    · exact .inr ⟨hnone, .vault, herror⟩
  | none =>
    by_cases hd : (r.entryAt layer index).value = deferredSecretValue
    · simp only [if_pos hd]
      exact .inr ⟨trivial, .deferred, rfl⟩
    · simp only [if_neg hd]
      exact .inl ⟨_, s.variableValues, rfl, hs, rfl⟩

theorem variableValue_spec {r : Resolver κ} {s : State ω} (hs : Frozen r s) (layer index : Nat) :
    (∃ value vs, r.valueOf layer index = some value ∧ Frozen r { s with variableValues := vs } ∧
      r.variableValue layer index s = .ok value { s with variableValues := vs }) ∨
    r.valueOf layer index = none ∧ ∃ failure, r.variableValue layer index s = .error failure s := by
  unfold Resolver.variableValue Resolver.valueOf
  rcases rawValue_spec hs layer index with ⟨value, vs, hvalue, hvs, hok⟩ | ⟨hnone, failure, herror⟩
  · refine .inl ⟨r.transformed value, vs, by rw [hvalue, Option.map_some], hvs, ?_⟩
    rw [bind_of_ok hok]
    rfl
  · exact .inr ⟨by rw [hnone, Option.map_none], failure, bind_of_error herror⟩

/-! ## Helpers -/

/-- What the helpers read and move: the counter, the clock and the generators. -/
def State.position (s : State ω) : Nat × ω := (s.counter, s.world)

def State.moved (s : State ω) (p : Nat × ω) : State ω := { s with counter := p.1, world := p.2 }

/-- At `p`, the helper gives `value` and moves to `p'`, whatever else the state holds. -/
def Gives (w : World ω) (field expr : Text) (p : Nat × ω) (value : Text) (p' : Nat × ω) : Prop :=
  ∀ s : State ω, s.position = p → dynamic w expr field s = .ok value (s.moved p')

def knownHelpers : List Text :=
  ["uuid".toList, "randomUUID".toList, "guid".toList, "timestamp".toList, "timestampMs".toList, "isoTimestamp".toList,
    "counter".toList]

/-- A known name, with a range or choices that are not empty where it takes some. -/
def WellFormedHelper (name : Text) (args : List Text) : Prop :=
  name ∈ knownHelpers ∨ name = "randomInt".toList ∧ (randomBounds args).1 ≤ (randomBounds args).2 ∨
    name = "randomFrom".toList ∧ randomChoices args ≠ []

def WellFormed (expr : Text) : Prop := WellFormedHelper ((splitWhitespace expr).headD []) (splitWhitespace expr).tail

theorem randomRange_gives (w : World ω) (lo hi : Int) (f : Int → Text) (p : Nat × ω) :
    ∃ value p', ∀ s : State ω, s.position = p → (f <$> randomRange w lo hi) s = .ok value (s.moved p') := by
  refine ⟨f (w.randomRange lo hi p.2).1, (p.1, (w.randomRange lo hi p.2).2), ?_⟩
  rintro s rfl
  rfl

theorem helper_spec (w : World ω) (now : Instant) (name : Text) (args : List Text) (field : Text) (p : Nat × ω) :
    (WellFormedHelper name args ∧ ∃ value p', ∀ s : State ω, s.position = p →
      helper w now name args field s = .ok value (s.moved p')) ∨
    ¬ WellFormedHelper name args ∧ ∃ failure, ∀ s : State ω, helper w now name args field s = .error failure s := by
  unfold WellFormedHelper helper
  split_ifs with huuid htime hmillis hiso hcount hint hrange hfrom hchoices
  · refine .inl ⟨.inl ?_, (w.newV4 p.2).1, (p.1, (w.newV4 p.2).2), ?_⟩
    · rcases huuid with rfl | rfl | rfl <;> decide
    · rintro s rfl
      rfl
  · exact .inl ⟨.inl (by rw [htime]; decide), _, p, by rintro s rfl; rfl⟩
  · exact .inl ⟨.inl (by rw [hmillis]; decide), _, p, by rintro s rfl; rfl⟩
  · exact .inl ⟨.inl (by rw [hiso]; decide), _, p, by rintro s rfl; rfl⟩
  · exact .inl ⟨.inl (by rw [hcount]; decide), Nat.toDigits 10 ((p.1 + 1) % 2 ^ 64), ((p.1 + 1) % 2 ^ 64, p.2),
      by rintro s rfl; rfl⟩
  · refine .inr ⟨?_, _, fun s => rfl⟩
    rw [hint]
    rintro (h | ⟨-, h⟩ | ⟨h, -⟩)
    · exact absurd h (by decide)
    · omega
    · exact absurd h (by decide)
  · exact .inl ⟨.inr (.inl ⟨hint, by omega⟩), randomRange_gives w _ _ _ p⟩
  · refine .inr ⟨?_, _, fun s => rfl⟩
    rw [hfrom]
    rintro (h | ⟨h, -⟩ | ⟨-, h⟩)
    · exact absurd h (by decide)
    · exact absurd h (by decide)
    · exact h hchoices
  · exact .inl ⟨.inr (.inr ⟨hfrom, hchoices⟩), randomRange_gives w _ _ _ p⟩
  · refine .inr ⟨?_, _, fun s => rfl⟩
    rintro (h | ⟨h, -⟩ | ⟨h, -⟩)
    · unfold knownHelpers at h
      simp only [List.mem_cons, List.not_mem_nil, or_false] at h
      rcases h with h | h | h | h | h | h | h
      · exact huuid (.inl h)
      · exact huuid (.inr (.inl h))
      · exact huuid (.inr (.inr h))
      · exact htime h
      · exact hmillis h
      · exact hiso h
      · exact hcount h
    · exact hint h
    · exact hfrom h

/-- A helper gives a value where it is well formed, and fails elsewhere. -/
theorem dynamic_spec (w : World ω) (expr field : Text) (p : Nat × ω) :
    (WellFormed expr ∧ ∃ value p', Gives w field expr p value p') ∨
    ¬ WellFormed expr ∧
      ∃ failure p', ∀ s : State ω, s.position = p → dynamic w expr field s = .error failure (s.moved p') := by
  have hstep : ∀ s : State ω, s.position = p → dynamic w expr field s =
      helper w (w.now p.2).1 ((splitWhitespace expr).headD []) (splitWhitespace expr).tail field
        (s.moved (p.1, (w.now p.2).2)) := by
    rintro s rfl
    rfl
  rcases helper_spec w (w.now p.2).1 ((splitWhitespace expr).headD []) (splitWhitespace expr).tail field
    (p.1, (w.now p.2).2) with ⟨hw, value, p', hok⟩ | ⟨hw, failure, herror⟩
  · refine .inl ⟨hw, value, p', fun s hs => ?_⟩
    rw [hstep s hs, hok _ rfl]
    rfl
  · exact .inr ⟨hw, failure, _, fun s hs => (hstep s hs).trans (herror _)⟩

/-! ## Expansions -/

abbrev Token (input text expr rest : Text) : Prop := Opens '\x7b' '\x7d' input text expr rest

/-- The text of an input through its last token and after it, with every reference replaced: how many were, at any depth,
and the values of secret entries among them, in order. -/
structure Expansion where
  body : Text
  tail : Text
  refs : Nat
  secrets : List Text

def Expansion.text (e : Expansion) : Text := e.body ++ e.tail

/-- The expansion of an input whose first token, behind `text`, becomes `value`. -/
def Expansion.after (e : Expansion) (text value : Text) (refs : Nat) (secrets : List Text) : Expansion :=
  ⟨text ++ value ++ e.body, e.tail, refs + e.refs, secrets ++ e.secrets⟩

theorem Expansion.after_text (e : Expansion) (text value : Text) (refs : Nat) (secrets : List Text) :
    (e.after text value refs secrets).text = text ++ value ++ e.text := by
  unfold Expansion.after Expansion.text
  simp only [List.append_assoc]

/-- The value of a secret entry, unless it is empty. -/
def noted (entry : VarEntry) (value : Text) : List Text := if entry.secret ∧ value ≠ [] then [value] else []

/-- Every token replaced, in full: a helper by what it gives, a reference by the value of the entry that wins it, which
is expanded in turn unless it is literal. -/
inductive Expands (w : World ω) (r : Resolver κ) (field : Text) : Text → Nat × ω → Expansion → Nat × ω → Prop
  | plain : Plain '\x7b' '\x7d' input → Expands w r field input p ⟨[], input, 0, []⟩ p
  | helper : Token input text expr rest → trim expr = '$' :: name → Gives w field name p value p₁ →
      Expands w r field rest p₁ e p' → Expands w r field input p (e.after text value 0 []) p'
  | literal : Token input text expr rest → (trim expr).head? ≠ some '$' → trim expr ≠ [] → Wins r (trim expr) found →
      found.entry.literal = true → r.valueOf found.layer found.index = some raw → Expands w r field rest p e p' →
        Expands w r field input p (e.after text raw 1 (noted found.entry raw)) p'
  | value : Token input text expr rest → (trim expr).head? ≠ some '$' → trim expr ≠ [] → Wins r (trim expr) found →
      found.entry.literal = false → r.valueOf found.layer found.index = some raw → Expands w r field raw p e₁ p₁ →
        Expands w r field rest p₁ e p' →
          Expands w r field input p (e.after text e₁.text (1 + e₁.refs) (e₁.secrets ++ noted found.entry e₁.text)) p'

/-- `name` is referenced in the text itself. -/
inductive Mentions : Text → Text → Prop
  | here : Token input text expr rest → (trim expr).head? ≠ some '$' → Mentions input (trim expr)
  | later : Token input text expr rest → Mentions rest name → Mentions input name

/-- `raw` is the value that a reference to `name` is expanded in. -/
def Unfolds (r : Resolver κ) (name raw : Text) : Prop :=
  ∃ found, Wins r name found ∧ found.entry.literal = false ∧ r.valueOf found.layer found.index = some raw

/-- References, each in the value of the one before. -/
inductive Chain (r : Resolver κ) : Text → List Text → Prop
  | last : Mentions input name → Chain r input [name]
  | more : Mentions input name → Unfolds r name raw → Chain r raw names → Chain r input (name :: names)

/-- The name is reached from the input through values that are expanded. -/
def Reached (r : Resolver κ) (input name : Text) : Prop := ∃ names, Chain r input (names ++ [name])

/-- The name is reached from its own value. -/
def OnCycle (r : Resolver κ) (name : Text) : Prop := ∃ raw, Unfolds r name raw ∧ Reached r raw name

/-! ## One reference -/

/-- What is kept before a reference's value is expanded. -/
structure Entered (r : Resolver κ) (name : Text) (s s₁ : State ω) : Prop where
  frozen : Frozen r s₁
  stack : s₁.stack = s.stack ++ [name]
  secrets : s₁.usedSecrets = s.usedSecrets
  count : s₁.expansions = s.expansions + 1
  position : s₁.position = s.position

/-- The state a reference's value is expanded in. -/
def State.entered (s : State ω) (name label : Text) : State ω :=
  { s with expansions := s.expansions + 1, used := s.used ++ [(name, label)], stack := s.stack ++ [name] }

/-- What is kept after it. -/
def settle (entry : VarEntry) (value : Text) : ResolveM ω Text := do
  leave
  noteSecret entry value
  pure value

/-- What a reference needs to be expanded. -/
structure Ready (r : Resolver κ) (name : Text) (s : State ω) (found : Found) (raw : Text) : Prop where
  named : name ≠ []
  free : name ∉ s.stack
  wins : Wins r name found
  value : r.valueOf found.layer found.index = some raw
  budget : s.expansions < maxExpansions

theorem refuse_of {p : Prop} [Decidable p] {failure : Failure} {s : State ω} (h : p) :
    (refuse p failure : ResolveM ω Unit) s = .error failure s := by
  unfold refuse
  rw [if_pos h]
  rfl

theorem refuse_of_not {p : Prop} [Decidable p] {failure : Failure} {s : State ω} (h : ¬ p) :
    (refuse p failure : ResolveM ω Unit) s = .ok () s := by
  unfold refuse
  rw [if_neg h]
  rfl

theorem countExpansion_of_lt {field : Text} {s : State ω} (h : s.expansions < maxExpansions) :
    countExpansion field s = .ok () { s with expansions := s.expansions + 1 } := by
  unfold countExpansion
  rw [bind_of_ok (show EStateM.get s = .ok s s from rfl),
    bind_of_ok (show EStateM.set _ s = .ok () { s with expansions := s.expansions + 1 } from rfl)]
  exact refuse_of_not (by omega)

theorem countExpansion_of_ge {field : Text} {s : State ω} (h : ¬ s.expansions < maxExpansions) :
    countExpansion field s = .error (.tooMany field) { s with expansions := s.expansions + 1 } := by
  unfold countExpansion
  rw [bind_of_ok (show EStateM.get s = .ok s s from rfl),
    bind_of_ok (show EStateM.set _ s = .ok () { s with expansions := s.expansions + 1 } from rfl)]
  exact refuse_of (by omega)

theorem reference_checked {r : Resolver κ} {field expr : Text} {inner : Text → ResolveM ω Text} {s : State ω}
    {found : Found} (hne : expr ≠ []) (hfree : expr ∉ s.stack) (hwins : Wins r expr found) :
    reference r field inner expr s = (do
      countExpansion field
      enter expr found.scope
      let raw ← r.variableValue found.layer found.index
      let value ← expanded inner found.entry raw
      settle found.entry value : ResolveM ω Text) s := by
  unfold reference winner
  rw [bind_of_ok (refuse_of_not hne), bind_of_ok (show EStateM.get s = .ok s s from rfl),
    bind_of_ok (refuse_of_not hfree), lookup_eq_some.2 hwins]
  rfl

/-- A reference that is ready is expanded between entering and settling. -/
theorem reference_ready {r : Resolver κ} {field expr : Text} {inner : Text → ResolveM ω Text} {s : State ω}
    {found : Found} {raw : Text} (hs : Frozen r s) (h : Ready r expr s found raw) : ∃ s₁, Entered r expr s s₁ ∧
      reference r field inner expr s = (expanded inner found.entry raw >>= settle found.entry) s₁ := by
  rw [reference_checked h.named h.free h.wins, bind_of_ok (countExpansion_of_lt h.budget),
    bind_of_ok (show enter expr found.scope _ = .ok () (s.entered expr found.scope) from rfl)]
  rcases @variableValue_spec _ _ r (s.entered expr found.scope) hs found.layer found.index with ⟨value, vs, hvalue, hvs, hok⟩
    | ⟨hnone, -⟩
  · obtain rfl := Option.some.inj (h.value.symm.trans hvalue)
    rw [bind_of_ok hok]
    exact ⟨_, ⟨hvs, rfl, rfl, rfl, rfl⟩, rfl⟩
  · exact absurd (hnone.symm.trans h.value) (by simp)

/-- A reference that gives a value was ready. -/
theorem ready_of_reference {r : Resolver κ} {field expr : Text} {inner : Text → ResolveM ω Text} {s s' : State ω}
    {value : Text} (hs : Frozen r s) (h : reference r field inner expr s = .ok value s') :
    ∃ found raw, Ready r expr s found raw := by
  by_cases hne : expr = []
  · unfold reference at h
    rw [bind_of_error (refuse_of hne)] at h
    cases h
  by_cases hfree : expr ∈ s.stack
  · unfold reference at h
    rw [bind_of_ok (refuse_of_not hne), bind_of_ok (show EStateM.get s = .ok s s from rfl),
      bind_of_error (refuse_of hfree)] at h
    cases h
  cases hl : r.lookup expr with
  | none =>
    unfold reference winner at h
    rw [bind_of_ok (refuse_of_not hne), bind_of_ok (show EStateM.get s = .ok s s from rfl),
      bind_of_ok (refuse_of_not hfree), hl] at h
    cases h
  | some found =>
    have hwins := lookup_eq_some.1 hl
    rw [reference_checked hne hfree hwins] at h
    by_cases hbudget : s.expansions < maxExpansions
    · rw [bind_of_ok (countExpansion_of_lt hbudget),
        bind_of_ok (show enter expr found.scope _ = .ok () (s.entered expr found.scope) from rfl)] at h
      rcases @variableValue_spec _ _ r (s.entered expr found.scope) hs found.layer found.index with ⟨raw, vs, hraw, -, -⟩ |
        ⟨-, failure, herror⟩
      · exact ⟨found, raw, hne, hfree, hwins, hraw, hbudget⟩
      · rw [bind_of_error herror] at h
        cases h
    · rw [bind_of_error (countExpansion_of_ge hbudget)] at h
      cases h

/-- The state a settled reference leaves. -/
def State.settled (s : State ω) (entry : VarEntry) (value : Text) : State ω :=
  { s with
    stack := s.stack.dropLast
    secretSubstitutions := s.secretSubstitutions + (noted entry value).length
    usedSecrets := s.usedSecrets ++ noted entry value }

theorem noteSecret_ok (entry : VarEntry) (value : Text) (s : State ω) : noteSecret entry value s = .ok () { s with
    secretSubstitutions := s.secretSubstitutions + (noted entry value).length
    usedSecrets := s.usedSecrets ++ noted entry value } := by
  unfold noteSecret noted
  by_cases h : entry.secret = true ∧ value ≠ []
  · simp only [if_pos h]
    rfl
  · simp only [if_neg h, List.append_nil]
    rfl

theorem settle_ok (entry : VarEntry) (value : Text) (s : State ω) :
    settle entry value s = .ok value (s.settled entry value) := by
  unfold settle
  rw [bind_of_ok (show leave s = .ok () _ from rfl), bind_of_ok (noteSecret_ok ..)]
  rfl

/-! ## Runs -/

/-- What a run that expanded `refs` references, the secret ones to `secrets`, kept. -/
structure After (r : Resolver κ) (s s' : State ω) (refs : Nat) (secrets : List Text) : Prop where
  frozen : Frozen r s'
  stack : s'.stack = s.stack
  secrets : s'.usedSecrets = s.usedSecrets ++ secrets
  count : s'.expansions = s.expansions + refs

theorem After.refl {r : Resolver κ} {s : State ω} (hs : Frozen r s) : After r s s 0 [] :=
  ⟨hs, rfl, (List.append_nil _).symm, rfl⟩

theorem After.trans {r : Resolver κ} {s s₁ s₂ : State ω} {refs refs' : Nat} {secrets secrets' : List Text}
    (h : After r s s₁ refs secrets) (h' : After r s₁ s₂ refs' secrets') :
    After r s s₂ (refs + refs') (secrets ++ secrets') where
  frozen := h'.frozen
  stack := h'.stack.trans h.stack
  secrets := by rw [h'.secrets, h.secrets, List.append_assoc]
  count := by rw [h'.count, h.count, Nat.add_assoc]

theorem After.settled {r : Resolver κ} {name : Text} {s s₁ s₂ : State ω} {refs : Nat} {secrets : List Text}
    {entry : VarEntry} {value : Text} (hin : Entered r name s s₁) (h : After r s₁ s₂ refs secrets) :
    After r s (s₂.settled entry value) (1 + refs) (secrets ++ noted entry value) where
  frozen := h.frozen
  stack := by
    rw [show (s₂.settled entry value).stack = s₂.stack.dropLast from rfl, h.stack, hin.stack, List.dropLast_concat]
  secrets := by
    rw [show (s₂.settled entry value).usedSecrets = s₂.usedSecrets ++ noted entry value from rfl, h.secrets, hin.secrets,
      List.append_assoc]
  count := by
    rw [show (s₂.settled entry value).expansions = s₂.expansions from rfl, h.count, hin.count, Nat.add_assoc]

theorem plain_of_not_contains {input : Text} (h : contains input ['\x7b', '\x7b'] = false) :
    Plain '\x7b' '\x7d' input := by
  rintro text expr rest ⟨hsplit, -, -⟩
  unfold contains at h
  refine of_decide_eq_false h ⟨text, expr ++ ['\x7d', '\x7d'] ++ rest, hsplit.symm⟩

variable {dyn : Text → Text → ResolveM ω Text} {r : Resolver κ} {field : Text} {inner : Text → ResolveM ω Text}

theorem scan_plain {rest : Text} (h : Plain '\x7b' '\x7d' rest) (fuel : Nat) (out : Text) :
    scan dyn r field inner fuel out rest = pure (out ++ rest) := by
  cases fuel with
  | zero => rfl
  | succ fuel =>
    unfold scan
    cases ho : findSplit ['\x7b', '\x7b'] rest with
    | none => rfl
    | some found =>
      obtain ⟨text, after⟩ := found
      simp only
      cases hc : findSplit ['\x7d', '\x7d'] after with
      | none =>
        obtain ⟨rfl, -⟩ := (findSplit_eq_some (by simp)).1 ho
        simp only [List.append_assoc]
      | some found => exact absurd (opens_iff.2 ⟨after, ho, hc⟩) (h _ _ _)

theorem scan_token {input text expr rest : Text} (h : Token input text expr rest) (fuel : Nat) (out : Text) :
    scan dyn r field inner (fuel + 1) out input = (do
      let value ← substitute dyn r field inner (trim expr)
      refuse (utf8Len (out ++ text ++ value) > maxOutput) (.tooLong field)
      scan dyn r field inner fuel (out ++ text ++ value) rest) := by
  obtain ⟨after, ho, hc⟩ := opens_iff.1 h
  rw [scan, ho]
  simp only [hc]

theorem resolveInner_succ (levels : Nat) (input : Text) : resolveInner dyn r field (levels + 1) input =
    scan dyn r field (resolveInner dyn r field levels) input.length [] input := by
  rw [resolveInner]
  by_cases hc : contains input ['\x7b', '\x7b'] = true
  · rw [if_pos hc]
  · rw [if_neg hc, scan_plain (plain_of_not_contains (Bool.eq_false_iff.2 hc)), List.nil_append]

theorem frozen_moved {s : State ω} (hs : Frozen r s) (p : Nat × ω) : Frozen r (s.moved p) := hs

theorem expanded_ok {entry : VarEntry} {raw value : Text} {s s' : State ω} (h : expanded inner entry raw s = .ok value s') :
    entry.literal = true ∧ value = raw ∧ s' = s ∨ entry.literal = false ∧ inner raw s = .ok value s' := by
  unfold expanded at h
  cases hl : entry.literal with
  | true =>
    rw [hl, if_pos rfl] at h
    obtain ⟨rfl, rfl⟩ := action_pure_ok.1 h
    exact .inl ⟨rfl, rfl, rfl⟩
  | false =>
    rw [hl, if_neg (by simp)] at h
    unfold conceal at h
    cases hi : inner raw s with
    | ok v t =>
      rw [hi] at h
      exact .inr ⟨rfl, h⟩
    | error failure t =>
      rw [hi] at h
      cases h

/-- The references reached under `stack`: none of them empty, undefined, on the stack or met twice. -/
def SoundNames (r : Resolver κ) (stack names : List Text) : Prop :=
  names.Nodup ∧ ∀ name ∈ names, name ∉ stack ∧ name ≠ [] ∧ ∃ found, Wins r name found

/-- What a run from `s` to `s'` that gave `value` for `input` did. -/
def Resolved (w : World ω) (r : Resolver κ) (field input value : Text) (s s' : State ω) : Prop :=
  ∃ e, Expands w r field input s.position e s'.position ∧ value = e.text ∧ After r s s' e.refs e.secrets ∧
    ∀ names, Chain r input names → SoundNames r s.stack names

theorem mentions_cases {input text expr rest name : Text} (h : Token input text expr rest) (hm : Mentions input name) :
    name = trim expr ∧ (trim expr).head? ≠ some '$' ∨ Mentions rest name := by
  cases hm with
  | here h' hhead =>
    obtain ⟨rfl, rfl, rfl⟩ := h.unique h'
    exact .inl ⟨rfl, hhead⟩
  | later h' hm =>
    obtain ⟨rfl, rfl, rfl⟩ := h.unique h'
    exact .inr hm

theorem not_mentions_of_plain {input name : Text} (h : Plain '\x7b' '\x7d' input) : ¬ Mentions input name := by
  intro hm
  cases hm with
  | here h' => exact h _ _ _ h'
  | later h' => exact h _ _ _ h'

/-- A chain starts at the first token of its input, or goes on in the rest. -/
theorem chain_cases {input text expr rest : Text} {names : List Text} (h : Token input text expr rest)
    (hc : Chain r input names) : Chain r rest names ∨ (trim expr).head? ≠ some '$' ∧ (names = [trim expr] ∨
      ∃ raw names', names = trim expr :: names' ∧ Unfolds r (trim expr) raw ∧ Chain r raw names') := by
  cases hc with
  | last hm =>
    rcases mentions_cases h hm with ⟨rfl, hhead⟩ | hm
    · exact .inr ⟨hhead, .inl rfl⟩
    · exact .inl (.last hm)
  | more hm hu hc =>
    rcases mentions_cases h hm with ⟨rfl, hhead⟩ | hm
    · exact .inr ⟨hhead, .inr ⟨_, _, rfl, hu, hc⟩⟩
    · exact .inl (.more hm hu hc)

theorem not_chain_of_plain {input : Text} {names : List Text} (h : Plain '\x7b' '\x7d' input) : ¬ Chain r input names := by
  intro hc
  cases hc with
  | last hm => exact not_mentions_of_plain h hm
  | more hm => exact not_mentions_of_plain h hm

theorem Unfolds.unique {name raw raw' : Text} (h : Unfolds r name raw) (h' : Unfolds r name raw') : raw = raw' := by
  obtain ⟨found, hwins, -, hvalue⟩ := h
  obtain ⟨found', hwins', -, hvalue'⟩ := h'
  obtain rfl := hwins.unique hwins'
  exact Option.some.inj (hvalue.symm.trans hvalue')

theorem substitute_helper (name : Text) : substitute dyn r field inner ('$' :: name) = dyn name field := rfl

theorem substitute_reference {expr : Text} (h : expr.head? ≠ some '$') :
    substitute dyn r field inner expr = reference r field inner expr := by
  unfold substitute
  split
  · exact absurd rfl h
  · rfl

variable {w : World ω}

theorem SoundNames.single {expr : Text} {s : State ω} {found : Found} {raw : Text}
    (h : Ready r expr s found raw) : SoundNames r s.stack [expr] := by
  refine ⟨List.nodup_singleton _, fun name hname => ?_⟩
  obtain rfl := List.mem_singleton.1 hname
  exact ⟨h.free, h.named, found, h.wins⟩

theorem SoundNames.cons {expr : Text} {s : State ω} {found : Found} {raw : Text} {names : List Text}
    (h : Ready r expr s found raw) (hn : SoundNames r (s.stack ++ [expr]) names) : SoundNames r s.stack (expr :: names) := by
  refine ⟨List.nodup_cons.2 ⟨fun hm => (hn.2 expr hm).1 (by simp), hn.1⟩, fun name hname => ?_⟩
  rcases List.mem_cons.1 hname with rfl | hname
  · exact ⟨h.free, h.named, found, h.wins⟩
  · obtain ⟨hfree, hrest⟩ := hn.2 name hname
    exact ⟨fun hm => hfree (List.mem_append_left _ hm), hrest⟩

/-- What a reference that gave `value` did: the step of an expansion, and sound chains through it. -/
theorem reference_sound
    (hinner : ∀ raw s v s', Frozen r s → inner raw s = .ok v s' → Resolved w r field raw v s s')
    {expr value : Text} {s s' : State ω} (hs : Frozen r s) (hhead : (trim expr).head? ≠ some '$')
    (h : reference r field inner (trim expr) s = .ok value s') :
    ∃ refs secrets, After r s s' refs secrets ∧
      (∀ input text rest e p, Token input text expr rest → Expands w r field rest s'.position e p →
        Expands w r field input s.position (e.after text value refs secrets) p) ∧
      ∀ names, names = [trim expr] ∨ (∃ raw names', names = trim expr :: names' ∧ Unfolds r (trim expr) raw ∧
        Chain r raw names') → SoundNames r s.stack names := by
  obtain ⟨found, raw, hready⟩ := ready_of_reference hs h
  obtain ⟨s₁, hin, heq⟩ := @reference_ready _ _ r field _ inner _ _ _ hs hready
  rw [heq] at h
  obtain ⟨value', t, hexp, hset⟩ := action_bind_ok.1 h
  rw [settle_ok] at hset
  cases hset
  rcases expanded_ok hexp with ⟨hlit, rfl, rfl⟩ | ⟨hlit, hval⟩
  · refine ⟨1 + 0, [] ++ noted found.entry value, (After.refl hin.frozen).settled hin,
      fun input text rest e p ht he => ?_, ?_⟩
    · rw [show (State.settled t found.entry value).position = t.position from rfl, hin.position] at he
      exact .literal ht hhead hready.named hready.wins hlit hready.value he
    · rintro names (rfl | ⟨raw', names', rfl, hu, hc⟩)
      · exact .single hready
      · obtain ⟨found', hwins, hlit', -⟩ := hu
        obtain rfl := hwins.unique hready.wins
        rw [hlit] at hlit'
        cases hlit'
  · obtain ⟨e₁, he₁, rfl, hafter, hsound⟩ := hinner _ _ _ _ hin.frozen hval
    refine ⟨1 + e₁.refs, e₁.secrets ++ noted found.entry e₁.text, hafter.settled hin, fun input text rest e p ht he => ?_, ?_⟩
    · rw [hin.position] at he₁
      exact .value ht hhead hready.named hready.wins hlit hready.value he₁ he
    · rintro names (rfl | ⟨raw', names', rfl, hu, hc⟩)
      · exact .single hready
      · obtain rfl := hu.unique ⟨found, hready.wins, hlit, hready.value⟩
        have hn := hsound names' hc
        rw [hin.stack] at hn
        exact .cons hready hn

theorem head_eq_dollar {expr : Text} (h : expr.head? = some '$') : ∃ name, expr = '$' :: name := by
  cases expr with
  | nil => cases h
  | cons c name => exact ⟨name, by rw [Option.some.inj h]⟩

theorem scan_sound
    (hinner : ∀ raw s v s', Frozen r s → inner raw s = .ok v s' → Resolved w r field raw v s s') (rest : Text) :
    ∀ fuel out s v s', rest.length ≤ fuel → Frozen r s → scan (dynamic w) r field inner fuel out rest s = .ok v s' →
      ∃ value, v = out ++ value ∧ Resolved w r field rest value s s' := by
  induction rest using braces_induction (o := '\x7b') (c := '\x7d') with
  | plain rest hplain =>
    intro fuel out s v s' _ hs h
    rw [scan_plain hplain] at h
    obtain ⟨rfl, rfl⟩ := action_pure_ok.1 h
    exact ⟨rest, rfl, _, .plain hplain, rfl, .refl hs, fun names hc => absurd hc (not_chain_of_plain hplain)⟩
  | token input text expr rest ht ih =>
    intro fuel out s v s' hfuel hs h
    have hlt := ht.length_lt
    obtain ⟨fuel, rfl⟩ : ∃ k, fuel = k + 1 := ⟨fuel - 1, by omega⟩
    rw [scan_token ht] at h
    obtain ⟨value, s₁, hsub, h⟩ := action_bind_ok.1 h
    by_cases hlong : utf8Len (out ++ text ++ value) > maxOutput
    · rw [bind_of_error (refuse_of hlong)] at h
      cases h
    rw [bind_of_ok (refuse_of_not hlong)] at h
    -- What the token became, and how it joins the expansion of the rest.
    obtain ⟨refs, secrets, hafter, hstep, hsound⟩ : ∃ refs secrets, After r s s₁ refs secrets ∧
        (∀ e p, Expands w r field rest s₁.position e p →
          Expands w r field input s.position (e.after text value refs secrets) p) ∧
        ∀ names, Chain r input names → Chain r rest names ∨ SoundNames r s.stack names := by
      by_cases hhead : (trim expr).head? = some '$'
      · obtain ⟨name, hname⟩ := head_eq_dollar hhead
        rw [hname, substitute_helper] at hsub
        rcases dynamic_spec w name field s.position with ⟨-, t, p', hgives⟩ | ⟨-, failure, p', herror⟩
        · obtain ⟨rfl, rfl⟩ := EStateM.Result.ok.inj ((hgives s rfl).symm.trans hsub)
          refine ⟨0, [], ⟨frozen_moved hs p', rfl, (List.append_nil _).symm, rfl⟩, fun e p he => ?_, fun names hc => ?_⟩
          · exact .helper ht hname hgives he
          · exact .inl ((chain_cases ht hc).resolve_right fun h => h.1 hhead)
        · rw [herror s rfl] at hsub
          cases hsub
      · rw [substitute_reference hhead] at hsub
        obtain ⟨refs, secrets, hafter, hstep, hsound⟩ := reference_sound hinner hs hhead hsub
        refine ⟨refs, secrets, hafter, fun e p he => hstep _ _ _ _ _ ht he, fun names hc => ?_⟩
        exact (chain_cases ht hc).imp id fun h => hsound names h.2
    obtain ⟨value', rfl, e, he, rfl, hafter', hsound'⟩ := ih fuel _ _ _ _ (by omega) hafter.frozen h
    refine ⟨text ++ value ++ e.text, by simp only [List.append_assoc], _, hstep _ _ he, (e.after_text ..).symm,
      hafter.trans hafter', fun names hc => ?_⟩
    rcases hsound names hc with hc | hn
    · exact hafter.stack ▸ hsound' names hc
    · exact hn

/-- What resolving gave at any depth is the expansion, and everything it reached is sound. -/
theorem resolveInner_sound (levels : Nat) : ∀ input s v s', Frozen r s →
    resolveInner (dynamic w) r field levels input s = .ok v s' → Resolved w r field input v s s' := by
  induction levels with
  | zero =>
    intro input s v s' hs h
    rw [resolveInner] at h
    split at h
    · cases h
    · rename_i hc
      have hplain := plain_of_not_contains (Bool.eq_false_iff.2 hc)
      obtain ⟨rfl, rfl⟩ := action_pure_ok.1 h
      exact ⟨_, .plain hplain, rfl, .refl hs, fun names hc => absurd hc (not_chain_of_plain hplain)⟩
  | succ levels ih =>
    intro input s v s' hs h
    rw [resolveInner_succ] at h
    obtain ⟨value, rfl, hres⟩ := scan_sound ih input _ _ _ _ _ (Nat.le_refl _) hs h
    exact hres

end Anvil.Vars
