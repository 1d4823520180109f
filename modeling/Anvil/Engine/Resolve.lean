import Anvil.Engine.Expand

/-!
# Resolving is expanding (`anvil-engine/src/vars.rs`)

* `chain_repeat`, `nodup_of_bounded` : chains that meet a name twice have no bound;
* `Plausible` : what an input needs to have an expansion, and `plausible_expands`;
* `scan_total` : an expansion within the budgets is what the loop gives;
* `Serves` : the states that calls lead to;
* `resolve_exact` : what `resolve` gives is the expansion, and it gives one wherever there is one within the budgets.
-/

namespace Anvil.Vars
open Anvil.Lib

variable {κ ω : Type} {w : World ω} {r : Resolver κ} {field : Text}

/-! ## Chains -/

theorem chain_append {input name : Text} {before rest : List Text} (hrest : rest ≠ []) :
    Chain r input (before ++ name :: rest) ↔
      Chain r input (before ++ [name]) ∧ ∃ raw, Unfolds r name raw ∧ Chain r raw rest := by
  induction before generalizing input with
  | nil =>
    constructor
    · intro h
      cases h with
      | last => exact absurd rfl hrest
      | more hm hu hc => exact ⟨.last hm, _, hu, hc⟩
    · rintro ⟨h, raw, hu, hc⟩
      cases h with
      | last hm => exact .more hm hu hc
      | more _ _ h => cases h
  | cons x before ih =>
    constructor
    · intro h
      cases hb : before ++ name :: rest with
      | nil => simp at hb
      | cons y l =>
        rw [List.cons_append, hb] at h
        cases h with
        | more hm hu hc =>
          rw [← hb, ih] at hc
          exact ⟨.more hm hu hc.1, hc.2⟩
    · rintro ⟨h, hc⟩
      cases hb : before ++ [name] with
      | nil => simp at hb
      | cons y l =>
        rw [List.cons_append, hb] at h
        cases h with
        | more hm hu h =>
          rw [← hb] at h
          exact .more hm hu (ih.2 ⟨h, hc⟩)

/-- A name met twice can be met once more. -/
theorem chain_repeat {input : Text} {names : List Text} (h : Chain r input names) (hdup : ¬ names.Nodup) :
    ∃ names', Chain r input names' ∧ ¬ names'.Nodup ∧ names.length < names'.length := by
  obtain ⟨x, hx⟩ : ∃ x, List.Duplicate x names := by
    simpa [List.nodup_iff_forall_not_duplicate] using hdup
  obtain ⟨before, rest, rfl, hmem⟩ : ∃ before rest, names = before ++ x :: rest ∧ x ∈ rest := by
    clear h hdup
    induction hx with
    | cons_mem hm => exact ⟨[], _, rfl, hm⟩
    | cons_duplicate _ ih =>
      obtain ⟨before, rest, rfl, hm⟩ := ih
      exact ⟨_ :: before, rest, rfl, hm⟩
  obtain ⟨middle, after, rfl⟩ := List.append_of_mem hmem
  obtain ⟨hbefore, raw, hu, hc⟩ := (chain_append (by simp)).1 h
  have hmiddle : Chain r raw (middle ++ [x]) := by
    by_cases ha : after = []
    · rwa [ha] at hc
    · exact ((chain_append ha).1 hc).1
  refine ⟨before ++ x :: (middle ++ x :: (middle ++ x :: after)), ?_, ?_, ?_⟩
  · exact (chain_append (by simp)).2 ⟨hbefore, raw, hu, (chain_append (by simp)).2 ⟨hmiddle, raw, hu, hc⟩⟩
  · intro hn
    exact (List.nodup_cons.1 (List.nodup_append.1 hn).2.1).1 (by simp)
  · simp only [List.length_append, List.length_cons]
    omega

/-- Where chains are bounded, none meets a name twice. -/
theorem nodup_of_bounded {input : Text} {n : Nat} (h : ∀ names, Chain r input names → names.length ≤ n)
    {names : List Text} (hc : Chain r input names) : names.Nodup := by
  by_contra hdup
  have hlong : ∀ k, ∃ names, Chain r input names ∧ ¬ names.Nodup ∧ k ≤ names.length := by
    intro k
    induction k with
    | zero => exact ⟨names, hc, hdup, Nat.zero_le _⟩
    | succ k ih =>
      obtain ⟨names', hc', hdup', hk⟩ := ih
      obtain ⟨names'', hc'', hdup'', hlt⟩ := chain_repeat hc' hdup'
      exact ⟨names'', hc'', hdup'', by omega⟩
  obtain ⟨names', hc', -, hk⟩ := hlong (n + 1)
  have := h names' hc'
  omega

theorem chain_of_cycle {input name : Text} (h : Reached r input name) (hc : OnCycle r name) :
    ∃ names, Chain r input names ∧ ¬ names.Nodup := by
  obtain ⟨before, hbefore⟩ := h
  obtain ⟨raw, hu, around, haround⟩ := hc
  refine ⟨before ++ name :: (around ++ [name]), (chain_append (by simp)).2 ⟨hbefore, raw, hu, haround⟩, fun hn => ?_⟩
  exact (List.nodup_cons.1 (List.nodup_append.1 hn).2.1).1 (by simp)

/-! ## Existence -/

/-- The text itself invokes the helper. -/
inductive Invokes : Text → Text → Prop
  | here : Token input text expr rest → trim expr = '$' :: name → Invokes input name
  | later : Token input text expr rest → Invokes rest name → Invokes input name

/-- Every name reached is defined and not empty, its value is there, and every helper reached is well formed. -/
structure Plausible (r : Resolver κ) (input : Text) : Prop where
  defined : ∀ name, Reached r input name → name ≠ [] ∧
    ∃ found raw, Wins r name found ∧ r.valueOf found.layer found.index = some raw
  helpers : ∀ expr, Invokes input expr → WellFormed expr
  deeper : ∀ name raw expr, Reached r input name → Unfolds r name raw → Invokes raw expr → WellFormed expr

theorem Chain.later {input text expr rest : Text} {names : List Text} (h : Token input text expr rest)
    (hc : Chain r rest names) : Chain r input names := by
  cases hc with
  | last hm => exact .last (.later h hm)
  | more hm hu hc => exact .more (.later h hm) hu hc

theorem Reached.deeper {input name raw name' : Text} (h : Reached r input name) (hu : Unfolds r name raw)
    (h' : Reached r raw name') : Reached r input name' := by
  obtain ⟨before, hbefore⟩ := h
  obtain ⟨names, hnames⟩ := h'
  refine ⟨before ++ name :: names, ?_⟩
  rw [List.append_assoc]
  exact (chain_append (by simp)).2 ⟨hbefore, raw, hu, hnames⟩

theorem Plausible.rest {input text expr rest : Text} (h : Plausible r input) (ht : Token input text expr rest) :
    Plausible r rest where
  defined name hn := h.defined name (hn.imp fun _ hc => hc.later ht)
  helpers name hn := h.helpers name (.later ht hn)
  deeper name raw expr hn := h.deeper name raw expr (hn.imp fun _ hc => hc.later ht)

theorem Plausible.value {input name raw : Text} (h : Plausible r input) (hn : Reached r input name)
    (hu : Unfolds r name raw) : Plausible r raw where
  defined name' hn' := h.defined name' (hn.deeper hu hn')
  helpers expr he := h.deeper name raw expr hn hu he
  deeper name' raw' expr hn' := h.deeper name' raw' expr (hn.deeper hu hn')

theorem Reached.here {input text expr rest : Text} (h : Token input text expr rest)
    (hhead : (trim expr).head? ≠ some '$') : Reached r input (trim expr) := ⟨[], .last (.here h hhead)⟩

/-- A plausible input whose chains are bounded has an expansion: over the bound, and over the tokens of one text. -/
theorem plausible_expands (n : Nat) : ∀ input, Plausible r input → (∀ names, Chain r input names → names.length ≤ n) →
    ∀ p : Nat × ω, ∃ e p', Expands w r field input p e p' := by
  induction n using Nat.strong_induction_on with
  | _ n ihn =>
    intro input
    induction input using braces_induction (o := '\x7b') (c := '\x7d') with
    | plain rest hplain => exact fun _ _ p => ⟨_, p, .plain hplain⟩
    | token input text expr rest ht ih =>
      intro h hdepth p
      have ih := ih (h.rest ht) fun names hc => hdepth names (hc.later ht)
      by_cases hhead : (trim expr).head? = some '$'
      · obtain ⟨name, hname⟩ := head_eq_dollar hhead
        rcases dynamic_spec w name field p with ⟨-, value, p₁, hgives⟩ | ⟨hbad, -⟩
        · obtain ⟨e, p', he⟩ := ih p₁
          exact ⟨_, p', .helper ht hname hgives he⟩
        · exact absurd (h.helpers name (.here ht hname)) hbad
      · have hreached : Reached r input (trim expr) := .here ht hhead
        obtain ⟨hne, found, raw, hwins, hvalue⟩ := h.defined _ hreached
        cases hlit : found.entry.literal with
        | true =>
          obtain ⟨e, p', he⟩ := ih p
          exact ⟨_, p', .literal ht hhead hne hwins hlit hvalue he⟩
        | false =>
          have hu : Unfolds r (trim expr) raw := ⟨found, hwins, hlit, hvalue⟩
          have hm : Mentions input (trim expr) := .here ht hhead
          have hpos : 1 ≤ n := hdepth _ (.last hm)
          obtain ⟨e₁, p₁, he₁⟩ := ihn (n - 1) (by omega) raw (h.value hreached hu)
            (fun names hc => by
              have := hdepth _ (.more hm hu hc)
              rw [List.length_cons] at this
              omega) p
          obtain ⟨e, p', he⟩ := ih p₁
          exact ⟨_, p', .value ht hhead hne hwins hlit hvalue he₁ he⟩

/-! ## Runs within the budgets -/

theorem expanded_literal {inner : Text → ResolveM ω Text} {entry : VarEntry} (h : entry.literal = true) (raw : Text) :
    expanded inner entry raw = pure raw := by
  unfold expanded
  rw [if_pos h]

theorem expanded_value {inner : Text → ResolveM ω Text} {entry : VarEntry} (h : entry.literal = false) {raw value : Text}
    {s s' : State ω} (hok : inner raw s = .ok value s') : expanded inner entry raw s = .ok value s' := by
  unfold expanded
  rw [h, if_neg (by simp)]
  unfold conceal
  simp only [hok]

/-- What the loop needs of an expansion to follow it: levels for its chains, none of them through the stack, and the two
budgets. -/
structure Affordable (r : Resolver κ) (levels : Nat) (out rest : Text) (s : State ω) (e : Expansion) : Prop where
  frozen : Frozen r s
  levels : ∀ names, Chain r rest names → names.length ≤ levels
  fresh : ∀ names, Chain r rest names → names.Nodup ∧ ∀ name ∈ names, name ∉ s.stack
  count : s.expansions + e.refs ≤ maxExpansions
  size : utf8Len (out ++ e.body) ≤ maxOutput

theorem Affordable.rest {levels : Nat} {out input text expr rest value : Text} {s s₁ : State ω} {e : Expansion} {refs : Nat}
    {secrets : List Text} (h : Affordable r levels out input s (e.after text value refs secrets))
    (ht : Token input text expr rest) (hafter : After r s s₁ refs secrets) :
    Affordable r levels (out ++ text ++ value) rest s₁ e where
  frozen := hafter.frozen
  levels names hc := h.levels names (hc.later ht)
  fresh names hc := by
    rw [hafter.stack]
    exact h.fresh names (hc.later ht)
  count := by
    rw [hafter.count, Nat.add_assoc]
    exact h.count
  size := by
    have := h.size
    rwa [show (e.after text value refs secrets).body = text ++ value ++ e.body from rfl, ← List.append_assoc,
      ← List.append_assoc] at this

/-- A token replaced, and the loop over the rest. -/
theorem scan_follow {levels fuel : Nat} {out input text expr rest value : Text} {s s₁ : State ω} {e : Expansion}
    {refs : Nat} {secrets : List Text} {p' : Nat × ω} (ht : Token input text expr rest) (hfuel : input.length ≤ fuel)
    (ha : Affordable r levels out input s (e.after text value refs secrets))
    (hsub : substitute (dynamic w) r field (resolveInner (dynamic w) r field levels) (trim expr) s = .ok value s₁)
    (hafter : After r s s₁ refs secrets)
    (ih : ∀ fuel, rest.length ≤ fuel → Affordable r levels (out ++ text ++ value) rest s₁ e →
      ∃ s', scan (dynamic w) r field (resolveInner (dynamic w) r field levels) fuel (out ++ text ++ value) rest s₁ =
        .ok (out ++ text ++ value ++ e.text) s' ∧ s'.position = p' ∧ After r s₁ s' e.refs e.secrets) :
    ∃ s', scan (dynamic w) r field (resolveInner (dynamic w) r field levels) fuel out input s =
      .ok (out ++ (e.after text value refs secrets).text) s' ∧ s'.position = p' ∧
        After r s s' (refs + e.refs) (secrets ++ e.secrets) := by
  have hlt := ht.length_lt
  obtain ⟨fuel, rfl⟩ : ∃ k, fuel = k + 1 := ⟨fuel - 1, by omega⟩
  have harest := ha.rest ht hafter
  have hsize : ¬ utf8Len (out ++ text ++ value) > maxOutput := by
    have := harest.size
    rw [utf8Len_append] at this
    omega
  obtain ⟨s', hscan, hp, hafter'⟩ := ih fuel (by omega) harest
  refine ⟨s', ?_, hp, hafter.trans hafter'⟩
  rw [scan_token ht, bind_of_ok hsub, bind_of_ok (refuse_of_not hsize), hscan, e.after_text]
  simp only [List.append_assoc]

/-- The loop gives an expansion it can afford: by the expansion, a step for each way a token is replaced. -/
theorem scan_total {rest : Text} {p p' : Nat × ω} {e : Expansion} (h : Expands w r field rest p e p') :
    ∀ levels fuel out s, rest.length ≤ fuel → s.position = p → Affordable r levels out rest s e →
      ∃ s', scan (dynamic w) r field (resolveInner (dynamic w) r field levels) fuel out rest s = .ok (out ++ e.text) s' ∧
        s'.position = p' ∧ After r s s' e.refs e.secrets := by
  induction h with
  | plain hplain =>
    intro levels fuel out s _ hp ha
    exact ⟨s, by rw [scan_plain hplain]; rfl, hp, .refl ha.frozen⟩
  | @helper input text expr rest name p value p₁ e p' ht hname hgives _ ih =>
    intro levels fuel out s hfuel hp ha
    refine scan_follow ht hfuel ha ?_ ⟨frozen_moved ha.frozen p₁, rfl, (List.append_nil _).symm, rfl⟩
      fun fuel hfuel harest => ih levels fuel _ _ hfuel rfl harest
    rw [hname, substitute_helper]
    exact hgives s hp
  | @literal input text expr rest found raw p e p' ht hhead hne hwins hlit hvalue _ ih =>
    intro levels fuel out s hfuel hp ha
    have hready : Ready r (trim expr) s found raw :=
      ⟨hne, (ha.fresh _ (.last (.here ht hhead))).2 _ (by simp), hwins, hvalue, by
        have := ha.count
        rw [show (e.after text raw 1 (noted found.entry raw)).refs = 1 + e.refs from rfl] at this
        omega⟩
    obtain ⟨s₁, hin, heq⟩ := @reference_ready _ _ r field _ (resolveInner (dynamic w) r field levels) _ _ _
      ha.frozen hready
    refine scan_follow ht hfuel ha ?_ ((After.refl hin.frozen).settled hin) fun fuel hfuel harest =>
      ih levels fuel _ _ hfuel (hin.position.trans hp) harest
    rw [substitute_reference hhead, heq, expanded_literal hlit]
    exact settle_ok ..
  | @value input text expr rest found raw p e₁ p₁ e p' ht hhead hne hwins hlit hvalue _ _ ih₁ ih =>
    intro levels fuel out s hfuel hp ha
    have hm : Mentions input (trim expr) := .here ht hhead
    have hu : Unfolds r (trim expr) raw := ⟨found, hwins, hlit, hvalue⟩
    have hcount : s.expansions + (1 + e₁.refs + e.refs) ≤ maxExpansions := ha.count
    have hready : Ready r (trim expr) s found raw :=
      ⟨hne, (ha.fresh _ (.last hm)).2 _ (by simp), hwins, hvalue, by omega⟩
    obtain ⟨s₁, hin, heq⟩ := @reference_ready _ _ r field _ (resolveInner (dynamic w) r field levels) _ _ _
      ha.frozen hready
    -- The value is expanded one level down, under its own name.
    obtain ⟨levels, rfl⟩ : ∃ k, levels = k + 1 := ⟨levels - 1, by
      have := ha.levels _ (.last hm)
      rw [List.length_singleton] at this
      omega⟩
    have hvalue : Affordable r levels [] raw s₁ e₁ := by
      refine ⟨hin.frozen, fun names hc => ?_, fun names hc => ?_, by rw [hin.count]; omega, ?_⟩
      · have := ha.levels _ (.more hm hu hc)
        rw [List.length_cons] at this
        omega
      · obtain ⟨hnodup, hfree⟩ := ha.fresh _ (.more hm hu hc)
        refine ⟨(List.nodup_cons.1 hnodup).2, fun name hname => ?_⟩
        rw [hin.stack, List.mem_append, List.mem_singleton, not_or]
        refine ⟨hfree name (List.mem_cons_of_mem _ hname), ?_⟩
        rintro rfl
        exact (List.nodup_cons.1 hnodup).1 hname
      · have := ha.size
        rw [show (e.after text e₁.text (1 + e₁.refs) (e₁.secrets ++ noted found.entry e₁.text)).body =
          text ++ (e₁.body ++ e₁.tail) ++ e.body from rfl] at this
        simp only [utf8Len_append] at this
        rw [List.nil_append]
        omega
    obtain ⟨t, hscan, hpos, hafter⟩ := ih₁ levels raw.length [] s₁ (Nat.le_refl _) (hin.position.trans hp) hvalue
    refine scan_follow ht hfuel ha ?_ (hafter.settled hin) fun fuel hfuel harest => ih _ fuel _ _ hfuel hpos harest
    rw [substitute_reference hhead, heq,
      bind_of_ok (expanded_value hlit ((congrFun (resolveInner_succ levels raw) s₁).trans hscan))]
    exact settle_ok ..

/-! ## The values that are kept -/

/-- Whether it gives a value or fails, the action leaves only secrets of their references among the kept values. -/
def Keeps (r : Resolver κ) {α : Type} (m : ResolveM ω α) : Prop :=
  ∀ s, Frozen r s → Ensures m s (fun _ s' => Frozen r s') (Frozen r)

theorem Keeps.bind {α β : Type} {m : ResolveM ω α} {f : α → ResolveM ω β} (h : Keeps r m) (hf : ∀ a, Keeps r (f a)) :
    Keeps r (m >>= f) :=
  fun s hs => ensures_bind.2 ((h s hs).imp (fun a s' hs' => hf a s' hs') fun _ hs' => hs')

theorem Keeps.pure {α : Type} (a : α) : Keeps r (pure a : ResolveM ω α) := fun _ hs => hs

theorem Keeps.throw {α : Type} (failure : Failure) : Keeps r (throw failure : ResolveM ω α) := fun _ hs => hs

theorem Keeps.refuse (p : Prop) [Decidable p] (failure : Failure) : Keeps r (refuse p failure : ResolveM ω Unit) :=
  fun _ hs => ensures_refuse.2 ⟨fun _ => hs, fun _ => hs⟩

theorem Keeps.get : Keeps r (EStateM.get : ResolveM ω (State ω)) := fun _ hs => hs

theorem Keeps.winner (expr : Text) : Keeps r (winner r field expr : ResolveM ω Found) := by
  unfold Vars.winner
  split
  · exact .throw _
  · exact .pure _

theorem Keeps.countExpansion : Keeps r (countExpansion field : ResolveM ω Unit) := by
  intro s hs
  unfold Ensures
  by_cases h : s.expansions < maxExpansions
  · rw [countExpansion_of_lt h]
    exact hs
  · rw [countExpansion_of_ge h]
    exact hs

theorem Keeps.variableValue (layer index : Nat) : Keeps r (r.variableValue layer index : ResolveM ω Text) := by
  intro s hs
  unfold Ensures
  rcases variableValue_spec hs layer index with ⟨value, vs, -, hvs, hok⟩ | ⟨-, failure, herror⟩
  · rw [hok]
    exact hvs
  · rw [herror]
    exact hs

theorem Keeps.expanded {inner : Text → ResolveM ω Text} (hinner : ∀ raw, Keeps r (inner raw)) (entry : VarEntry)
    (raw : Text) : Keeps r (expanded inner entry raw) := by
  unfold Vars.expanded
  split
  · exact .pure _
  · intro s hs
    have h := hinner raw s hs
    unfold Ensures at h ⊢
    unfold conceal
    cases hi : inner raw s with
    | ok value t =>
      rw [hi] at h
      exact h
    | error failure t =>
      rw [hi] at h
      exact h

theorem Keeps.settle (entry : VarEntry) (value : Text) : Keeps r (settle entry value : ResolveM ω Text) := by
  intro s hs
  unfold Ensures
  rw [settle_ok]
  exact hs

theorem Keeps.reference {inner : Text → ResolveM ω Text} (hinner : ∀ raw, Keeps r (inner raw)) (expr : Text) :
    Keeps r (reference r field inner expr) := by
  unfold Vars.reference
  refine .bind (.refuse _ _) fun _ => .bind .get fun _ => .bind (.refuse _ _) fun _ => .bind (.winner _) fun found => ?_
  refine .bind .countExpansion fun _ => .bind (fun _ hs => hs) fun _ => .bind (.variableValue _ _) fun raw => ?_
  exact .bind (.expanded hinner _ _) fun value => .settle found.entry value

theorem Keeps.dynamic (expr : Text) : Keeps r (dynamic w expr field) := by
  intro s hs
  unfold Ensures
  rcases dynamic_spec w expr field s.position with ⟨-, value, p, hgives⟩ | ⟨-, failure, p, herror⟩
  · rw [hgives s rfl]
    exact hs
  · rw [herror s rfl]
    exact hs

theorem Keeps.substitute {inner : Text → ResolveM ω Text} (hinner : ∀ raw, Keeps r (inner raw)) (expr : Text) :
    Keeps r (substitute (Vars.dynamic w) r field inner expr) := by
  unfold Vars.substitute
  split
  · exact .dynamic _
  · exact .reference hinner _

theorem Keeps.scan {inner : Text → ResolveM ω Text} (hinner : ∀ raw, Keeps r (inner raw)) (fuel : Nat) :
    ∀ out rest, Keeps r (scan (Vars.dynamic w) r field inner fuel out rest) := by
  induction fuel with
  | zero => exact fun _ _ => .pure _
  | succ fuel ih =>
    intro out rest
    by_cases h : Plain '\x7b' '\x7d' rest
    · rw [scan_plain h]
      exact .pure _
    · unfold Plain at h
      push Not at h
      obtain ⟨text, expr, rest', ht⟩ := h
      rw [scan_token ht]
      exact .bind (.substitute hinner _) fun _ => .bind (.refuse _ _) fun _ => ih _ _

theorem Keeps.resolveInner (levels : Nat) : ∀ input, Keeps r (resolveInner (Vars.dynamic w) r field levels input) := by
  induction levels with
  | zero =>
    intro input
    rw [Vars.resolveInner]
    split
    · exact fun _ hs => hs
    · exact .pure _
  | succ levels ih =>
    intro input
    rw [resolveInner_succ]
    exact .scan ih _ _ _

theorem keeps_resolve (input : Text) : Keeps r (resolve w r input field) :=
  .bind (fun _ hs => hs) fun _ => .resolveInner _ _

/-- The states that calls lead to from any in which no value was kept yet, whatever else is noted between them. -/
inductive Serves (w : World ω) (r : Resolver κ) : State ω → Prop
  | start (s : State ω) : s.variableValues = [] → Serves w r s
  | resolved (s s' : State ω) (input field value : Text) : Serves w r s → resolve w r input field s = .ok value s' →
      Serves w r s'
  | failed (s s' : State ω) (input field : Text) (failure : Failure) : Serves w r s →
      resolve w r input field s = .error failure s' → Serves w r s'
  | read (s s' : State ω) (layer index : Nat) (value : Text) : Serves w r s →
      r.variableValue layer index s = .ok value s' → Serves w r s'
  | noted (s s' : State ω) : Serves w r s → s'.variableValues = s.variableValues → Serves w r s'

theorem Serves.frozen {s : State ω} (h : Serves w r s) : Frozen r s := by
  induction h with
  | start s h =>
    intro place value hv
    rw [h] at hv
    cases hv
  | resolved s s' input field value _ hok ih =>
    have := @keeps_resolve _ _ w _ field input s ih
    unfold Ensures at this
    rwa [hok] at this
  | failed s s' input field failure _ herror ih =>
    have := @keeps_resolve _ _ w _ field input s ih
    unfold Ensures at this
    rwa [herror] at this
  | read s s' layer index value _ hok ih =>
    have := Keeps.variableValue layer index s ih
    unfold Ensures at this
    rwa [hok] at this
  | noted s s' _ hsame ih =>
    intro place value hv
    rw [hsame] at hv
    exact ih place value hv

/-! ## The result -/

/-- **What `resolve` gives is the expansion of its input**, with the secrets in it noted, and then every name reached is
defined, not empty and on no cycle. It does give one where every name and helper reached is sound, chains of references
have `MAX_DEPTH` names at most (a cycle has longer ones) and the expansion is within the budgets. -/
theorem resolve_exact (s : State ω) (hs : Serves w r s) (input : Text) :
    (∀ value s', resolve w r input field s = .ok value s' →
      (∃ e, Expands w r field input s.position e s'.position ∧ value = e.text ∧
        s'.usedSecrets = s.usedSecrets ++ e.secrets) ∧
      ∀ name, Reached r input name → name ≠ [] ∧ (∃ found, Wins r name found) ∧ ¬ OnCycle r name) ∧
    (Plausible r input → (∀ names, Chain r input names → names.length ≤ maxDepth) →
      (∀ e p, Expands w r field input s.position e p →
        s.expansions + e.refs ≤ maxExpansions ∧ utf8Len e.body ≤ maxOutput) →
      ∃ e s', resolve w r input field s = .ok e.text s' ∧ Expands w r field input s.position e s'.position ∧
        s'.usedSecrets = s.usedSecrets ++ e.secrets) := by
  have hbegin : resolve w r input field s =
      resolveInner (dynamic w) r field (maxDepth + 1) input { s with stack := [] } := rfl
  have hfrozen : Frozen r { s with stack := [] } := hs.frozen
  constructor
  · intro value s' h
    rw [hbegin] at h
    obtain ⟨e, he, hvalue, hafter, hsound⟩ := resolveInner_sound _ _ _ _ _ hfrozen h
    refine ⟨⟨e, he, hvalue, hafter.secrets⟩, fun name hname => ?_⟩
    obtain ⟨names, hchain⟩ := hname
    obtain ⟨-, hne, hwins⟩ := (hsound _ hchain).2 name (by simp)
    refine ⟨hne, hwins, fun hcycle => ?_⟩
    obtain ⟨names', hchain', hdup⟩ := chain_of_cycle ⟨names, hchain⟩ hcycle
    exact hdup (hsound _ hchain').1
  · intro hplausible hdepth hbudget
    obtain ⟨e, p, he⟩ := @plausible_expands _ _ w _ field maxDepth input hplausible hdepth s.position
    obtain ⟨hcount, hsize⟩ := hbudget e p he
    obtain ⟨s', hscan, hpos, hafter⟩ := scan_total he maxDepth input.length [] { s with stack := [] } (Nat.le_refl _) rfl
      ⟨hfrozen, hdepth, fun names hc => ⟨nodup_of_bounded hdepth hc, fun _ _ => List.not_mem_nil⟩, hcount, hsize⟩
    refine ⟨e, s', ?_, hpos ▸ he, hafter.secrets⟩
    rw [hbegin, resolveInner_succ]
    exact hscan

/-! ## A resolver of one variable -/

def sampleWorld : World Unit := ⟨fun _ => (⟨0, 0, []⟩, ()), fun _ => ([], ()), fun lo _ _ => (lo, ())⟩

def sampleResolver (value : Text) (literal : Bool) : Resolver Unit where
  layers := [⟨"env".toList, [⟨"a".toList, value, true, literal⟩]⟩]
  secrets := none
  valueTransform := none

def sampleInput : Text := "x\x7b\x7b a \x7d\x7d".toList

theorem sample_token : Token sampleInput "x".toList " a ".toList [] :=
  opens_iff.2 ⟨" a \x7d\x7d".toList, by decide, by decide⟩

theorem plain_nil : Plain '\x7b' '\x7d' ([] : Text) := plain_of_not_contains (by decide)

theorem sample_mentions {name : Text} (h : Mentions sampleInput name) : name = "a".toList := by
  rcases mentions_cases sample_token h with ⟨rfl, -⟩ | h
  · decide
  · exact absurd h (not_mentions_of_plain plain_nil)

theorem sample_wins (value : Text) (literal : Bool) : Wins (sampleResolver value literal) "a".toList
    ⟨⟨"a".toList, value, true, literal⟩, "env".toList, 0, 0⟩ := lookup_eq_some.1 (by
  simp [sampleResolver, Resolver.lookup])

/-- Nothing is expanded below a variable without a value, or below a literal one. -/
theorem sample_chain {value : Text} {literal : Bool}
    (h : literal = true ∨ value = deferredSecretValue) {names : List Text}
    (hc : Chain (sampleResolver value literal) sampleInput names) : names = ["a".toList] := by
  cases hc with
  | last hm => rw [sample_mentions hm]
  | more hm hu _ =>
    obtain rfl := sample_mentions hm
    obtain ⟨found, hwins, hlit, hvalue⟩ := hu
    obtain rfl := hwins.unique (sample_wins value literal)
    rcases h with rfl | rfl
    · cases hlit
    · cases hvalue

/-- A vault variable that is resolved only on use is defined, on no cycle, and refused. -/
theorem deferred_refused : (∀ name, Reached (sampleResolver deferredSecretValue false) sampleInput name → name ≠ [] ∧
      ∃ found, Wins (sampleResolver deferredSecretValue false) name found) ∧
    (∀ names, Chain (sampleResolver deferredSecretValue false) sampleInput names → names.length ≤ maxDepth) ∧
    ∃ s', resolve sampleWorld (sampleResolver deferredSecretValue false) sampleInput "url".toList (State.new ()) =
      .error .deferred s' := by
  refine ⟨fun name hname => ?_, fun names hc => ?_, _, rfl⟩
  · obtain ⟨before, hc⟩ := hname
    have hlast := congrArg List.getLast? (sample_chain (.inr rfl) hc)
    rw [List.getLast?_concat] at hlast
    obtain rfl : name = "a".toList := Option.some.inj hlast
    exact ⟨by decide, _, sample_wins _ _⟩
  · rw [sample_chain (.inr rfl) hc]
    decide

def sampleValue : Text := "k\x7b\x7bb\x7d\x7d".toList

theorem sample_expands {p p' : Nat × Unit} {e : Expansion}
    (h : Expands sampleWorld (sampleResolver sampleValue true) "url".toList sampleInput p e p') :
    e.refs = 1 ∧ e.body = "x".toList ++ sampleValue := by
  have hnil : ∀ {q q' e}, Expands sampleWorld (sampleResolver sampleValue true) "url".toList [] q e q' →
      e.refs = 0 ∧ e.body = [] := by
    intro q q' e he
    cases he with
    | plain => exact ⟨rfl, rfl⟩
    | helper ht => exact absurd ht (plain_nil _ _ _)
    | literal ht => exact absurd ht (plain_nil _ _ _)
    | value ht => exact absurd ht (plain_nil _ _ _)
  cases h with
  | plain hplain => exact absurd sample_token (hplain _ _ _)
  | helper ht hname =>
    obtain ⟨rfl, rfl, rfl⟩ := ht.unique sample_token
    have hhead : (trim " a ".toList).head? = some '$' := by rw [hname, List.head?_cons]
    exact absurd hhead (by decide)
  | literal ht _ _ hwins _ hvalue he =>
    obtain ⟨rfl, rfl, rfl⟩ := ht.unique sample_token
    obtain rfl := hwins.unique (sample_wins sampleValue true)
    obtain rfl : _ = sampleValue := (Option.some.inj hvalue).symm
    obtain ⟨hrefs, hbody⟩ := hnil he
    exact ⟨congrArg (1 + ·) hrefs, congrArg ("x".toList ++ sampleValue ++ ·) hbody⟩
  | value ht _ _ hwins hlit _ _ _ =>
    obtain ⟨rfl, rfl, rfl⟩ := ht.unique sample_token
    obtain rfl := hwins.unique (sample_wins sampleValue true)
    cases hlit

def gave (value : Text) (secrets : List Text) : EStateM.Result Failure (State Unit) Text → Bool
  | .ok v s => v = value ∧ s.usedSecrets = secrets
  | .error _ _ => false

theorem sample_run : gave ("x".toList ++ sampleValue) [sampleValue] (resolve sampleWorld (sampleResolver sampleValue true)
    sampleInput "url".toList (State.new ())) = true := by
  decide +kernel

theorem sample_size : (State.new ()).expansions + 1 ≤ maxExpansions ∧ utf8Len ("x".toList ++ sampleValue) ≤ maxOutput := by
  decide

/-- A literal value stands as it is, the tokens in it included, and is noted as a secret. -/
theorem resolve_exact_literal :
    ∃ (e : Expansion) (s' : State Unit), resolve sampleWorld (sampleResolver sampleValue true) sampleInput "url".toList
    (State.new ()) = .ok e.text s' ∧ e.text = "x".toList ++ sampleValue ∧ s'.usedSecrets = [sampleValue] := by
  have hlast : ∀ name, Reached (sampleResolver sampleValue true) sampleInput name → name = "a".toList := by
    rintro name ⟨before, hc⟩
    have := congrArg List.getLast? (sample_chain (.inl rfl) hc)
    rw [List.getLast?_concat] at this
    exact Option.some.inj this
  have hplausible : Plausible (sampleResolver sampleValue true) sampleInput := by
    refine ⟨fun name hname => ?_, fun expr he => ?_, fun name raw expr hname hu => ?_⟩
    · obtain rfl := hlast name hname
      exact ⟨by decide, _, _, sample_wins _ _, rfl⟩
    · cases he with
      | here ht hname =>
        obtain ⟨rfl, rfl, rfl⟩ := ht.unique sample_token
        have hhead : (trim " a ".toList).head? = some '$' := by rw [hname, List.head?_cons]
        exact absurd hhead (by decide)
      | later ht he =>
        obtain ⟨rfl, rfl, rfl⟩ := ht.unique sample_token
        cases he with
        | here ht => exact absurd ht (plain_nil _ _ _)
        | later ht => exact absurd ht (plain_nil _ _ _)
    · obtain rfl := hlast name hname
      obtain ⟨found, hwins, hlit, -⟩ := hu
      obtain rfl := hwins.unique (sample_wins _ _)
      cases hlit
  obtain ⟨e, s', hok, -, -⟩ := (@resolve_exact _ _ sampleWorld (sampleResolver sampleValue true) "url".toList (State.new ())
    (.start _ rfl) sampleInput).2 hplausible (fun names hc => by rw [sample_chain (.inl rfl) hc]; decide) fun e p he => by
      rw [(sample_expands he).1, (sample_expands he).2]
      exact sample_size
  have hrun := sample_run
  rw [hok] at hrun
  exact ⟨e, s', hok, of_decide_eq_true hrun⟩

end Anvil.Vars
