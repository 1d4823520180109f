import Anvil.Engine.Expand

/-!
# Masked inputs (`mask_dynamic` of `anvil-engine/src/vars.rs`)

Masking and resolving find the same tokens. A masked input holds no helper, and resolves as its original would if every
helper gave the stand-in: only the two limits that are checked at tokens can tell the two apart, since a masked helper is
no token.

* `maskDynamic_plain`, `maskDynamic_token` : masking, token by token;
* `Failure.isLimit` : the depth and the size of what is expanded;
* `Agrees m' m` : the same result from every state, unless `m` fails at a limit;
* `mask_resolves` : the masked run and the original one.
-/

namespace Anvil.Vars
open Anvil.Lib

variable {κ ω : Type} {standIn : Text}

/-! ## Masking, token by token -/

theorem maskFrom_plain {rest : Text} (h : Plain '\x7b' '\x7d' rest) (fuel : Nat) : maskFrom standIn fuel rest = rest := by
  cases fuel with
  | zero => rfl
  | succ fuel =>
    unfold maskFrom
    cases ho : findSplit ['\x7b', '\x7b'] rest with
    | none => rfl
    | some found =>
      obtain ⟨text, after⟩ := found
      simp only
      cases hc : findSplit ['\x7d', '\x7d'] after with
      | none =>
        obtain ⟨rfl, -⟩ := (findSplit_eq_some (by simp)).1 ho
        rfl
      | some found => exact absurd (opens_iff.2 ⟨after, ho, hc⟩) (h _ _ _)

theorem maskFrom_token {input text expr rest : Text} (h : Token input text expr rest) (fuel : Nat) :
    maskFrom standIn (fuel + 1) input =
      if (trim expr).head? = some '$' then text ++ standIn ++ maskFrom standIn fuel rest
      else text ++ (['\x7b', '\x7b'] ++ expr ++ ['\x7d', '\x7d']) ++ maskFrom standIn fuel rest := by
  obtain ⟨after, ho, hc⟩ := opens_iff.1 h
  rw [maskFrom, ho]
  simp only [hc]

/-- Any fuel as long as the text will do. -/
theorem maskFrom_fuel (rest : Text) : ∀ fuel, rest.length ≤ fuel → maskFrom standIn fuel rest = maskDynamic rest standIn := by
  induction rest using braces_induction (o := '\x7b') (c := '\x7d') with
  | plain rest h => exact fun fuel _ => (maskFrom_plain h fuel).trans (maskFrom_plain h _).symm
  | token input text expr rest h ih =>
    intro fuel hfuel
    have hlt := h.length_lt
    obtain ⟨fuel, rfl⟩ : ∃ k, fuel = k + 1 := ⟨fuel - 1, by omega⟩
    obtain ⟨n, hn⟩ : ∃ k, input.length = k + 1 := ⟨input.length - 1, by omega⟩
    unfold maskDynamic
    rw [hn, maskFrom_token h, maskFrom_token h, ih fuel (by omega), ih n (by omega)]

theorem maskDynamic_plain {rest : Text} (h : Plain '\x7b' '\x7d' rest) : maskDynamic rest standIn = rest := maskFrom_plain h _

theorem maskDynamic_token {input text expr rest : Text} (h : Token input text expr rest) : maskDynamic input standIn =
    if (trim expr).head? = some '$' then text ++ standIn ++ maskDynamic rest standIn
    else text ++ (['\x7b', '\x7b'] ++ expr ++ ['\x7d', '\x7d']) ++ maskDynamic rest standIn := by
  have hlt := h.length_lt
  rw [← maskFrom_fuel input (input.length + 1) (Nat.le_succ _), maskFrom_token h, maskFrom_fuel rest _ hlt.le]

/-- A text in which no token starts is masked as it is. -/
theorem maskDynamic_append {x : Text} (h : Meets ['\x7b', '\x7b'] x) (t : Text) :
    maskDynamic (x ++ t) standIn = x ++ maskDynamic t standIn := by
  by_cases ht : Plain '\x7b' '\x7d' t
  · rw [maskDynamic_plain (plain_append h ht), maskDynamic_plain ht]
  · unfold Plain at ht
    push Not at ht
    obtain ⟨text, expr, rest, ht⟩ := ht
    have htoken : Token (x ++ t) (x ++ text) expr rest := (opens_append h).2 ⟨text, rfl, ht⟩
    rw [maskDynamic_token htoken, maskDynamic_token ht]
    split_ifs
    · simp only [List.append_assoc]
    · simp only [List.append_assoc]

/-- A reference is kept, as the first token of what is masked. -/
theorem token_maskDynamic {input text expr rest : Text} (h : Token input text expr rest)
    (hhead : (trim expr).head? ≠ some '$') :
    Token (maskDynamic input standIn) text expr (maskDynamic rest standIn) := by
  rw [maskDynamic_token h, if_neg hhead]
  refine ⟨?_, h.clear, h.short⟩
  simp only [List.append_assoc]

/-- Before and behind a stand-in without braces, no token starts. -/
theorem meets_standIn {input text expr rest : Text} (hs : '\x7b' ∉ standIn) (h : Token input text expr rest) :
    Meets ['\x7b', '\x7b'] (text ++ standIn) := h.clear.append (meets_of_not_mem hs)

theorem maskDynamic_idempotent (hs : '\x7b' ∉ standIn) (input : Text) :
    maskDynamic (maskDynamic input standIn) standIn = maskDynamic input standIn := by
  induction input using braces_induction (o := '\x7b') (c := '\x7d') with
  | plain rest h => rw [maskDynamic_plain h, maskDynamic_plain h]
  | token input text expr rest h ih =>
    by_cases hhead : (trim expr).head? = some '$'
    · rw [maskDynamic_token h, if_pos hhead, maskDynamic_append (meets_standIn hs h), ih]
    · rw [maskDynamic_token (token_maskDynamic h hhead), if_neg hhead, ih, maskDynamic_token h, if_neg hhead]

/-! ## Runs side by side -/

/-- The failures of the two limits that are checked at tokens. -/
def Failure.isLimit : Failure → Bool
  | .tooDeep .. | .tooLong .. => true
  | .concealed failure => failure.isLimit
  | _ => false

/-- `m'` does what `m` does, unless `m` fails at a limit. -/
def Agrees {α : Type} (m' m : ResolveM ω α) : Prop :=
  ∀ s, m' s = m s ∨ ∃ failure s', m s = .error failure s' ∧ failure.isLimit = true

theorem Agrees.refl {α : Type} (m : ResolveM ω α) : Agrees m m := fun _ => .inl rfl

theorem Agrees.bind {α β : Type} {m' m : ResolveM ω α} {f' f : α → ResolveM ω β} (h : Agrees m' m)
    (hf : ∀ a s s', m s = .ok a s' → Agrees (f' a) (f a)) : Agrees (m' >>= f') (m >>= f) := by
  intro s
  rcases h s with h | ⟨failure, s', herror, hlimit⟩
  · cases hm : m s with
    | ok a t =>
      rw [bind_of_ok (h.trans hm), bind_of_ok hm]
      exact hf a s t hm t
    | error failure t =>
      rw [bind_of_error (h.trans hm), bind_of_error hm]
      exact .inl rfl
  · exact .inr ⟨failure, s', bind_of_error herror, hlimit⟩

theorem Agrees.same {α β : Type} (m : ResolveM ω α) {f' f : α → ResolveM ω β} (hf : ∀ a, Agrees (f' a) (f a)) :
    Agrees (m >>= f') (m >>= f) := (Agrees.refl m).bind fun a _ _ _ => hf a

theorem Agrees.conceal {m' m : ResolveM ω Text} (h : Agrees m' m) (entry : VarEntry) :
    Agrees (conceal entry m') (conceal entry m) := by
  intro s
  unfold Vars.conceal
  rcases h s with h | ⟨failure, s', herror, hlimit⟩
  · rw [h]
    exact .inl rfl
  · refine .inr ⟨if entry.secret then .concealed failure else failure, s', by rw [herror], ?_⟩
    split_ifs
    · exact hlimit
    · exact hlimit

/-- A resolver whose value transform masks. -/
def Resolver.masked (r : Resolver κ) (standIn : Text) : Resolver κ :=
  { r with valueTransform := some fun value => maskDynamic value standIn }

/-- No entry is literal. -/
def Resolver.Templates (r : Resolver κ) : Prop := ∀ layer ∈ r.layers, ∀ v ∈ layer.vars, v.literal = false

variable {dyn dyn' : Text → Text → ResolveM ω Text} {r : Resolver κ} {field : Text} {inner' inner : Text → ResolveM ω Text}

theorem Wins.template {name : Text} {found : Found} (hr : r.Templates) (h : Wins r name found) :
    found.entry.literal = false := by
  obtain ⟨layer, hlayer, -, hentry, -⟩ := h.layer
  exact hr layer (List.mem_of_getElem? hlayer) _ (List.mem_of_getElem? hentry)

theorem winner_ok {name : Text} {found : Found} {s s' : State ω} (h : winner r field name s = .ok found s') :
    Wins r name found := by
  unfold winner at h
  cases hl : r.lookup name with
  | none =>
    rw [hl] at h
    cases h
  | some found' =>
    rw [hl] at h
    obtain ⟨rfl, -⟩ := action_pure_ok.1 h
    exact lookup_eq_some.1 hl

theorem variableValue_masked (layer index : Nat) : ((r.masked standIn).variableValue layer index : ResolveM ω Text) =
    r.rawValue layer index >>= fun raw => pure (maskDynamic raw standIn) := rfl

theorem variableValue_plain (hr : r.valueTransform = none) (layer index : Nat) :
    (r.variableValue layer index : ResolveM ω Text) = r.rawValue layer index := by
  unfold Resolver.variableValue Resolver.transformed
  rw [hr]
  exact bind_pure _

/-- A reference reads the same entry, and its value masked. -/
theorem reference_masked (hr : r.valueTransform = none) (ht : r.Templates)
    (h : ∀ raw, Agrees (inner' (maskDynamic raw standIn)) (inner raw)) (expr : Text) :
    Agrees (reference (r.masked standIn) field inner' expr) (reference r field inner expr) := by
  unfold reference
  refine .same _ fun _ => .same _ fun _ => .same _ fun _ => .bind (.refl _) fun found s s' hfound => ?_
  have hlit := (winner_ok hfound).template ht
  refine .same _ fun _ => .same _ fun _ => ?_
  rw [variableValue_masked, variableValue_plain hr, bind_assoc]
  refine .same _ fun raw => ?_
  rw [pure_bind]
  unfold expanded
  rw [if_neg (by rw [hlit]; simp), if_neg (by rw [hlit]; simp)]
  exact ((h raw).conceal _).bind fun value _ _ _ => .refl _

/-- Every helper gives the stand-in. -/
def standsIn (standIn : Text) : Text → Text → ResolveM ω Text := fun _ _ => pure standIn

/-- The two loops, where the masked one still has `x` before it that the other has put out: over the tokens of the
original input, of which the masked one meets the references only. -/
theorem scan_masked (hr : r.valueTransform = none) (ht : r.Templates) (hs : '\x7b' ∉ standIn)
    (h : ∀ raw, Agrees (inner' (maskDynamic raw standIn)) (inner raw)) (input : Text) :
    ∀ fuel' fuel out x, (x ++ maskDynamic input standIn).length ≤ fuel' → input.length ≤ fuel → Meets ['\x7b', '\x7b'] x →
      Agrees (scan dyn (r.masked standIn) field inner' fuel' out (x ++ maskDynamic input standIn))
        (scan (standsIn standIn) r field inner fuel (out ++ x) input) := by
  induction input using braces_induction (o := '\x7b') (c := '\x7d') with
  | plain rest hplain =>
    intro fuel' fuel out x _ _ hx
    rw [maskDynamic_plain hplain, scan_plain hplain, scan_plain (plain_append hx hplain), List.append_assoc]
    exact .refl _
  | token input text expr rest htoken ih =>
    intro fuel' fuel out x hfuel' hfuel hx
    have hlt := htoken.length_lt
    obtain ⟨fuel, rfl⟩ : ∃ k, fuel = k + 1 := ⟨fuel - 1, by omega⟩
    rw [scan_token htoken]
    by_cases hhead : (trim expr).head? = some '$'
    · obtain ⟨name, hname⟩ := head_eq_dollar hhead
      rw [maskDynamic_token htoken, if_pos hhead] at hfuel' ⊢
      rw [hname, substitute_helper, standsIn, pure_bind]
      intro s
      by_cases hlong : utf8Len (out ++ x ++ text ++ standIn) > maxOutput
      · exact .inr ⟨.tooLong field, s, bind_of_error (refuse_of hlong), rfl⟩
      · have := ih fuel' fuel out (x ++ (text ++ standIn)) (by rwa [List.append_assoc]) (by omega)
          (hx.append (meets_standIn hs htoken)) s
        rw [bind_of_ok (refuse_of_not hlong)]
        simpa only [List.append_assoc] using this
    · have htoken' := (opens_append hx).2 ⟨text, rfl, @token_maskDynamic standIn _ _ _ _ htoken hhead⟩
      have hlt' := htoken'.length_lt
      obtain ⟨fuel', rfl⟩ : ∃ k, fuel' = k + 1 := ⟨fuel' - 1, by omega⟩
      rw [scan_token htoken', substitute_reference hhead, substitute_reference hhead]
      refine (reference_masked hr ht h _).bind fun value _ _ _ => ?_
      rw [← List.append_assoc]
      refine .same _ fun _ => ?_
      have := ih fuel' fuel (out ++ x ++ text ++ value) [] (by rw [List.nil_append]; omega) (by omega) (meets_nil (by simp))
      rwa [List.append_nil, List.nil_append] at this

theorem resolveInner_masked (hr : r.valueTransform = none) (ht : r.Templates) (hs : '\x7b' ∉ standIn) (levels : Nat) :
    ∀ input, Agrees (resolveInner dyn (r.masked standIn) field levels (maskDynamic input standIn))
      (resolveInner (standsIn standIn) r field levels input) := by
  induction levels with
  | zero =>
    intro input s
    rw [resolveInner, resolveInner]
    by_cases hc : contains input ['\x7b', '\x7b'] = true
    · rw [if_pos hc]
      exact .inr ⟨_, s, rfl, rfl⟩
    · rw [maskDynamic_plain (plain_of_not_contains (Bool.eq_false_iff.2 hc)), if_neg hc]
      exact .inl rfl
  | succ levels ih =>
    intro input
    rw [resolveInner_succ, resolveInner_succ]
    have := @scan_masked _ _ standIn dyn r field _ _ hr ht hs ih input (maskDynamic input standIn).length
      input.length [] [] (Nat.le_refl _) (Nat.le_refl _) (meets_nil (by simp))
    rwa [List.append_nil, List.nil_append] at this

/-! ## Runs without helpers -/

/-- No token is a helper. -/
inductive Helperless : Text → Prop
  | plain : Plain '\x7b' '\x7d' input → Helperless input
  | token : Token input text expr rest → (trim expr).head? ≠ some '$' → Helperless rest → Helperless input

theorem Helperless.append {x t : Text} (hx : Meets ['\x7b', '\x7b'] x) (h : Helperless t) : Helperless (x ++ t) := by
  cases h with
  | plain h => exact .plain (plain_append hx h)
  | token h hhead hrest => exact .token ((opens_append hx).2 ⟨_, rfl, h⟩) hhead hrest

theorem helperless_maskDynamic (hs : '\x7b' ∉ standIn) (input : Text) : Helperless (maskDynamic input standIn) := by
  induction input using braces_induction (o := '\x7b') (c := '\x7d') with
  | plain rest h =>
    rw [maskDynamic_plain h]
    exact .plain h
  | token input text expr rest h ih =>
    by_cases hhead : (trim expr).head? = some '$'
    · rw [maskDynamic_token h, if_pos hhead]
      exact ih.append (meets_standIn hs h)
    · exact .token (token_maskDynamic h hhead) hhead ih

theorem scan_helperless {rest : Text} (h : Helperless rest)
    (hinner : ∀ expr, reference r field inner' expr = reference r field inner expr) :
    ∀ fuel out, scan dyn r field inner' fuel out rest = scan dyn' r field inner fuel out rest := by
  induction h with
  | plain h => exact fun fuel out => by rw [scan_plain h, scan_plain h]
  | token h hhead _ ih =>
    intro fuel out
    cases fuel with
    | zero => rfl
    | succ fuel =>
      rw [scan_token h, scan_token h, substitute_reference hhead, substitute_reference hhead, hinner]
      simp only [ih]

/-- Where every value is masked, no helper is evaluated at any depth. -/
theorem resolveInner_helperless (hs : '\x7b' ∉ standIn) (levels : Nat) : ∀ input, Helperless input →
    resolveInner dyn (r.masked standIn) field levels input = resolveInner dyn' (r.masked standIn) field levels input := by
  induction levels with
  | zero => exact fun _ _ => rfl
  | succ levels ih =>
    intro input h
    rw [resolveInner_succ, resolveInner_succ]
    refine scan_helperless h (fun expr => ?_) _ _
    unfold reference
    have hexpanded : ∀ (entry : VarEntry) (raw : Text),
        expanded (resolveInner dyn (r.masked standIn) field levels) entry (maskDynamic raw standIn) =
          expanded (resolveInner dyn' (r.masked standIn) field levels) entry (maskDynamic raw standIn) := fun entry raw => by
      unfold expanded
      rw [ih _ (helperless_maskDynamic hs raw)]
    simp only [variableValue_masked, bind_assoc, pure_bind, hexpanded]

theorem resolveWith_masked (hs : '\x7b' ∉ standIn) (dyn dyn' : Text → Text → ResolveM ω Text) (input : Text) :
    resolveWith dyn (r.masked standIn) field (maskDynamic input standIn) =
      resolveWith dyn' (r.masked standIn) field (maskDynamic input standIn) := by
  unfold resolveWith
  rw [resolveInner_helperless hs _ _ (helperless_maskDynamic hs input)]

/-! ## The result -/

/-- **A masked input over masked values resolves without a helper**, to what the original input resolves to where every
helper gives the stand-in, unless that run fails at the depth or the size limit; and masking again changes nothing. -/
theorem mask_resolves (r : Resolver κ) (hr : r.valueTransform = none) (ht : r.Templates) (standIn : Text)
    (hs : '\x7b' ∉ standIn) (input field : Text) :
    (∀ dyn dyn' : Text → Text → ResolveM ω Text, resolveWith dyn (r.masked standIn) field (maskDynamic input standIn) =
      resolveWith dyn' (r.masked standIn) field (maskDynamic input standIn)) ∧
    (∀ (dyn : Text → Text → ResolveM ω Text) (s : State ω),
      resolveWith dyn (r.masked standIn) field (maskDynamic input standIn) s = resolveWith
        (standsIn standIn) r field input s ∨
      ∃ failure s', resolveWith (standsIn standIn) r field input s = .error failure s' ∧ failure.isLimit = true) ∧
    maskDynamic (maskDynamic input standIn) standIn = maskDynamic input standIn := by
  refine ⟨fun dyn dyn' => resolveWith_masked hs dyn dyn' input, fun dyn => ?_, maskDynamic_idempotent hs input⟩
  exact Agrees.same (modify fun s => { s with stack := [] }) fun _ => resolveInner_masked hr ht hs _ _

/-! ## A chain that ends in a helper -/

/-- `n` variables, each the reference to the next, the last one a helper. -/
def helperChain (n : Nat) : Resolver Unit where
  layers := [⟨"env".toList, (List.range n).map fun i => ⟨List.replicate (i + 1) 'v',
    if i + 1 = n then "\x7b\x7b$uuid\x7d\x7d".toList
    else "\x7b\x7b".toList ++ List.replicate (i + 2) 'v' ++ "\x7d\x7d".toList, false, false⟩⟩]
  secrets := none
  valueTransform := none

def chainInput : Text := "\x7b\x7bv\x7d\x7d".toList

theorem helperChain_templates (n : Nat) : (helperChain n).Templates := by
  intro layer hlayer v hv
  obtain rfl := List.mem_singleton.1 hlayer
  obtain ⟨i, -, rfl⟩ := List.mem_map.1 hv
  rfl

/-- Whether the run gave this text. -/
def gives (value : Text) : EStateM.Result Failure (State Unit) Text → Bool
  | .ok v _ => v = value
  | .error _ _ => false

def failsAtLimit : EStateM.Result Failure (State Unit) Text → Bool
  | .ok _ _ => false
  | .error failure _ => failure.isLimit

/-- A helper below 17 references is too deep, and what stands in for it is not. -/
theorem depth_counts_helpers : (helperChain 17).Templates ∧ WellFormed "uuid".toList ∧
    failsAtLimit (resolveWith (standsIn "s".toList) (helperChain 17) "url".toList chainInput
      ⟨[], 0, 0, 0, [], [], [], ()⟩) = true ∧
    ∀ dyn : Text → Text → ResolveM Unit Text, gives "s".toList (resolveWith dyn ((helperChain 17).masked "s".toList)
      "url".toList (maskDynamic chainInput "s".toList) ⟨[], 0, 0, 0, [], [], [], ()⟩) = true := by
  refine ⟨helperChain_templates 17, .inl (by decide), by decide +kernel, fun dyn => ?_⟩
  rw [resolveWith_masked (by decide) dyn (standsIn []) chainInput]
  decide +kernel

theorem mask_resolves_chain : gives "s".toList (resolveWith (standsIn "s".toList) (helperChain 16) "url".toList chainInput
    ⟨[], 0, 0, 0, [], [], [], ()⟩) = true ∧
    resolveWith (standsIn []) ((helperChain 16).masked "s".toList) "url".toList (maskDynamic chainInput "s".toList)
      ⟨[], 0, 0, 0, [], [], [], ()⟩ =
    resolveWith (standsIn "s".toList) (helperChain 16) "url".toList chainInput ⟨[], 0, 0, 0, [], [], [], ()⟩ := by
  have hgives : gives "s".toList (resolveWith (standsIn "s".toList) (helperChain 16) "url".toList chainInput
    ⟨[], 0, 0, 0, [], [], [], ()⟩) = true := by decide +kernel
  refine ⟨hgives, ?_⟩
  obtain ⟨-, h, -⟩ := @mask_resolves _ Unit (helperChain 16) rfl (helperChain_templates 16) "s".toList (by decide) chainInput
    "url".toList
  rcases h (standsIn []) ⟨[], 0, 0, 0, [], [], [], ()⟩ with h | ⟨failure, s', herror, -⟩
  · exact h
  · rw [herror] at hgives
    cases hgives

end Anvil.Vars
