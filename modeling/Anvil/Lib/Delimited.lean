import Mathlib.Tactic

/-!
# Encodings that can be read off a stream

* `Delimits enc key` : what `enc` wrote is told from whatever follows it, and tells `key` of what was written;
* `Delimits.append`, `Delimits.choice` : one part after another, and parts that a tag chooses;
* `delimits_fixed`, `delimits_const` : parts of one length; `delimits_until` : up to a mark;
* `Delimits.flatMap` : a list of parts tells each of them;
* `joined_injective` : parts after a separator that none of them holds, read from the end;
* `joined_told` : parts between separators up to a closing mark, each told from what a separator or the mark starts.
-/

namespace Anvil.Lib

variable {α β κ κ' : Type}

def Delimits (enc : α → List β) (key : α → κ) : Prop :=
  ∀ ⦃a a' : α⦄ ⦃x x' : List β⦄, enc a ++ x = enc a' ++ x' → key a = key a' ∧ x = x'

theorem Delimits.injective {enc : α → List β} {key : α → κ} (h : Delimits enc key) {a a' : α} (he : enc a = enc a') :
    key a = key a' := by
  refine (@h a a' [] [] ?_).1
  rw [he]

theorem delimits_fixed {enc : α → List β} {key : α → κ} (n : Nat) (hlen : ∀ a, (enc a).length = n)
    (hkey : ∀ a a', enc a = enc a' → key a = key a') : Delimits enc key := by
  intro a a' x x' he
  obtain ⟨henc, hx⟩ := List.append_inj he (by rw [hlen, hlen])
  exact ⟨hkey a a' henc, hx⟩

theorem delimits_const (l : List β) : Delimits (fun _ : α => l) fun _ => () :=
  fun _ _ _ _ he => ⟨rfl, List.append_cancel_left he⟩

theorem Delimits.append {enc enc' : α → List β} {key : α → κ}
    {key' : α → κ'} (h : Delimits enc key) (h' : Delimits enc' key') :
    Delimits (fun a => enc a ++ enc' a) fun a => (key a, key' a) := by
  intro a a' x x' he
  rw [List.append_assoc, List.append_assoc] at he
  obtain ⟨hkey, he⟩ := h he
  obtain ⟨hkey', hx⟩ := h' he
  exact ⟨Prod.ext hkey hkey', hx⟩

theorem Delimits.imp {enc : α → List β} {key : α → κ} {key' : α → κ'} (h : Delimits enc key)
    (hkey : ∀ a a', key a = key a' → key' a = key' a') : Delimits enc key' :=
  fun a a' _ _ he => ⟨hkey a a' (h he).1, (h he).2⟩

/-- Encodings of something that was computed first. -/
theorem Delimits.comp {enc : α → List β} {key : α → κ} (h : Delimits enc key) {γ : Type} (f : γ → α) :
    Delimits (fun c => enc (f c)) fun c => key (f c) :=
  fun _ _ _ _ he => h he

/-- A first part tells how to read the second. -/
theorem Delimits.choice {enc enc' : α → List β} {tag : α → κ} {key : α → κ'} (h : Delimits enc tag)
    (h' : ∀ a a' x x', tag a = tag a' → enc' a ++ x = enc' a' ++ x' → key a = key a' ∧ x = x') :
    Delimits (fun a => enc a ++ enc' a) key := by
  intro a a' x x' he
  rw [List.append_assoc, List.append_assoc] at he
  obtain ⟨htag, he⟩ := h he
  exact h' a a' x x' htag he

/-- A part without `c`, up to `c`. -/
theorem delimits_until {enc : α → List β} {key : α → κ} {c : β} (hc : ∀ a, c ∉ enc a)
    (hkey : ∀ a a', enc a = enc a' → key a = key a') : Delimits (fun a => enc a ++ [c]) key := by
  have hfirst : ∀ s t x x' : List β, c ∉ s → c ∉ t → s ++ c :: x = t ++ c :: x' → s = t ∧ x = x' := by
    intro s
    induction s with
    | nil =>
      intro t x x' _ ht he
      cases t with
      | nil => exact ⟨rfl, (List.cons.inj he).2⟩
      | cons d t => exact absurd (List.cons.inj he).1 fun hcd => ht (hcd ▸ List.mem_cons_self)
    | cons d s ih =>
      intro t x x' hs ht he
      cases t with
      | nil => exact absurd (List.cons.inj he).1 fun hcd => hs (hcd ▸ List.mem_cons_self)
      | cons e t =>
        obtain ⟨rfl, htail⟩ := List.cons.inj he
        obtain ⟨rfl, hx⟩ := ih t x x' (fun h => hs (List.mem_cons_of_mem _ h)) (fun h => ht (List.mem_cons_of_mem _ h)) htail
        exact ⟨rfl, hx⟩
  intro a a' x x' he
  rw [List.append_assoc, List.append_assoc] at he
  obtain ⟨henc, hx⟩ := hfirst _ _ _ _ (hc a) (hc a') he
  exact ⟨hkey a a' henc, hx⟩

/-- Parts one after another, none of them empty. -/
theorem Delimits.flatMap {enc : α → List β} {key : α → κ} (h : Delimits enc key) (hne : ∀ a, enc a ≠ []) :
    ∀ {l l' : List α}, l.flatMap enc = l'.flatMap enc → l.map key = l'.map key
  | [], [], _ => rfl
  | [], a :: l', he => absurd (List.append_eq_nil_iff.1 he.symm).1 (hne a)
  | a :: l, [], he => absurd (List.append_eq_nil_iff.1 he).1 (hne a)
  | a :: l, a' :: l', he => by
    obtain ⟨hkey, he⟩ := h he
    rw [List.map_cons, List.map_cons, hkey, h.flatMap hne he]

/-- Functions of one list whose values have one length. -/
theorem flatMap_fixed {f g : α → List β} (n : Nat) (hf : ∀ a, (f a).length = n) (hg : ∀ a, (g a).length = n) :
    ∀ {l : List α}, l.flatMap f = l.flatMap g → ∀ a ∈ l, f a = g a
  | [], _ => fun a ha => absurd ha List.not_mem_nil
  | b :: l, he => by
    obtain ⟨hb, he⟩ := List.append_inj he (by rw [hf, hg])
    exact List.forall_mem_cons.2 ⟨hb, flatMap_fixed n hf hg he⟩

/-! ## Parts joined by a separator -/

theorem intercalate_cons (c : β) (x : List β) (l : List (List β)) :
    [c].intercalate (x :: l) = x ++ l.flatMap fun part => c :: part := by
  induction l generalizing x with
  | nil => simp
  | cons y l ih => rw [List.intercalate_cons_cons, ih, List.flatMap_cons, List.append_assoc]; rfl

theorem last_separator {c : β} {x y f g : List β} (hf : c ∉ f) (hg : c ∉ g) (he : x ++ c :: f = y ++ c :: g) :
    x = y ∧ f = g := by
  rcases List.append_eq_append_iff.1 he with ⟨d, rfl, hd⟩ | ⟨d, rfl, hd⟩
  all_goals cases d with
  | nil => simp_all
  | cons e d =>
    -- the other text's separator would lie in this part
    obtain ⟨-, hd⟩ := List.cons.inj hd
    simp_all

/-- A first part may be anything: the others are read from the end, the last separator first. -/
theorem joined_injective {c : β} {l m : List (List β)} {a b : List β} (hl : ∀ part ∈ l, c ∉ part)
    (hm : ∀ part ∈ m, c ∉ part) (hlen : l.length = m.length)
    (he : (a ++ l.flatMap fun part => c :: part) = b ++ m.flatMap fun part => c :: part) : a = b ∧ l = m := by
  induction l using List.reverseRecOn generalizing m with
  | nil =>
    obtain rfl := List.length_eq_zero_iff.1 hlen.symm
    simpa using he
  | append_singleton l f ih =>
    rcases List.eq_nil_or_concat m with rfl | ⟨m, g, rfl⟩
    · simp at hlen
    · rw [List.concat_eq_append] at *
      simp only [List.flatMap_append, List.flatMap_singleton, ← List.append_assoc] at he
      obtain ⟨hfront, rfl⟩ := last_separator (hl f (by simp)) (hm g (by simp)) he
      obtain ⟨rfl, rfl⟩ := ih (fun part h => hl part (by simp [h])) (fun part h => hm part (by simp [h]))
        (by simpa using hlen) hfront
      exact ⟨rfl, rfl⟩

section Lists
variable {enc : α → List β} {rel : α → α → Prop} {P Q : α → Prop} {sep close : β}

/-- What follows a part of a list. -/
def Rest (sep close : β) (x : List β) : Prop := ∃ t, x = sep :: t ∨ x = close :: t

/-- The parts behind the first one. -/
theorem rest_told (hne : sep ≠ close)
    (htold : ∀ a a', P a → Q a' → ∀ x x', Rest sep close x → Rest sep close x' → enc a ++ x = enc a' ++ x' →
      rel a a' ∧ x = x') :
    ∀ {l l' : List α} {x x' : List β}, (∀ a ∈ l, P a) → (∀ a ∈ l', Q a) →
      ((l.map enc).flatMap fun part => sep :: part) ++ close :: x = ((l'.map enc).flatMap fun part => sep :: part) ++
        close :: x' →
      List.Forall₂ rel l l' ∧ x = x'
  | [], [], _, _, _, _, he => ⟨.nil, (List.cons.inj he).2⟩
  | [], _ :: _, _, _, _, _, he => absurd (List.cons.inj he).1.symm hne
  | _ :: _, [], _, _, _, _, he => absurd (List.cons.inj he).1 hne
  | a :: l, a' :: l', x, x', hl, hl', he => by
    have hrest : ∀ (m : List α) (y : List β), Rest sep close
        (((m.map enc).flatMap fun part => sep :: part) ++ close :: y) := by
      intro m y
      cases m with
      | nil => exact ⟨y, Or.inr rfl⟩
      | cons b m => exact ⟨_, Or.inl rfl⟩
    obtain ⟨ha, hl⟩ := List.forall_mem_cons.1 hl
    obtain ⟨ha', hl'⟩ := List.forall_mem_cons.1 hl'
    rw [List.map_cons, List.map_cons, List.flatMap_cons, List.flatMap_cons, List.append_assoc, List.append_assoc] at he
    obtain ⟨hrel, he⟩ := htold a a' ha ha' _ _ (hrest l x) (hrest l' x') (List.cons.inj he).2
    obtain ⟨hall, hx⟩ := rest_told hne htold hl hl' he
    exact ⟨.cons hrel hall, hx⟩

theorem joined_told (hne : sep ≠ close) (hfirst : ∀ a, P a ∨ Q a → ∃ c t, enc a = c :: t ∧ c ≠ close)
    (htold : ∀ a a', P a → Q a' → ∀ x x', Rest sep close x → Rest sep close x' → enc a ++ x = enc a' ++ x' →
      rel a a' ∧ x = x')
    {l l' : List α} {x x' : List β} (hl : ∀ a ∈ l, P a) (hl' : ∀ a ∈ l', Q a)
    (he : [sep].intercalate (l.map enc) ++ close :: x = [sep].intercalate (l'.map enc) ++ close :: x') :
    List.Forall₂ rel l l' ∧ x = x' := by
  have hopen : ∀ {a : α} {y z : List β}, P a ∨ Q a → close :: y ≠ enc a ++ z := by
    intro a y z ha hyz
    obtain ⟨c, t, henc, hc⟩ := hfirst a ha
    rw [henc] at hyz
    exact hc (List.cons.inj hyz).1.symm
  cases l with
  | nil =>
    cases l' with
    | nil => exact ⟨.nil, (List.cons.inj he).2⟩
    | cons a' l' =>
      rw [List.map_cons, intercalate_cons, List.append_assoc] at he
      exact absurd he (hopen (Or.inr (hl' a' List.mem_cons_self)))
  | cons a l =>
    cases l' with
    | nil =>
      rw [List.map_cons, intercalate_cons, List.append_assoc] at he
      exact absurd he.symm (hopen (Or.inl (hl a List.mem_cons_self)))
    | cons a' l' =>
      -- a separator before both lists makes the first part one of the others
      refine rest_told hne htold hl hl' ?_
      rw [List.map_cons, List.map_cons, intercalate_cons, intercalate_cons] at he
      rw [List.map_cons, List.map_cons, List.flatMap_cons, List.flatMap_cons]
      exact congrArg (List.cons sep) he

end Lists

end Anvil.Lib
