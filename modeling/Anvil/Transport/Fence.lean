import Anvil.Lib.Bytes
import Anvil.Lib.Run
import Anvil.Lib.Table
import Anvil.Lib.Utf8

/-!
# Clear generations and the ticket cache (`anvil-transport/src/fence.rs`, `tickets.rs`)

Every clear starts a generation. `Generations` keeps only the last clear of everything and, since then, the last one of
each isolation; `Follows` ties it to the list of all clears so far, and `admits_iff` says that nothing is lost by it.

Generations are counted up by clears alone, so the `u64` of the source is a natural number here.

A ticket cache hands out one resumption context for a key, a new one that it does not keep where the attempt is older
than a clear of the key.

* `Generations.admits_iff` : an attempt is admitted for a key exactly when no clear of the key is newer than it;
* `TicketCache.Step` : clears, and calls of `context` with a generation taken before;
* `TicketCache.fenced_run` : no context that the cache holds or hands out for a key is older than a clear of the key.
-/

namespace Anvil.Transport
open Anvil.Lib

abbrev Key := Text

def inIsolation (key isolation : Text) : Bool :=
  (dropPrefix isolation key).any fun rest => rest.head? == some '|'

/-- `key.starts_with(format!("{isolation}|"))`. -/
def startsWithIsolation (key isolation : Text) : Bool := (isolation ++ ['|']).isPrefixOf key

structure Generations where
  current : Nat := 0
  all : Nat := 0
  isolations : Table Text Nat := .empty

namespace Generations

def clear (g : Generations) : Generations where
  current := g.current + 1
  all := g.current + 1
  isolations := .empty

def clearIsolation (g : Generations) (isolation : Text) : Generations :=
  { g with
    current := g.current + 1
    isolations := g.isolations.insert isolation (g.current + 1) }

def admits (g : Generations) (generation : Nat) (key : Key) : Bool :=
  decide (g.all ≤ generation) &&
    g.isolations.entries.all fun e => decide (e.2 ≤ generation) || !inIsolation key e.1

end Generations

theorem inIsolation_eq (key isolation : Text) : inIsolation key isolation = startsWithIsolation key isolation := by
  rw [Bool.eq_iff_iff]
  unfold inIsolation startsWithIsolation
  rw [Option.any_eq_true, List.isPrefixOf_iff_prefix]
  constructor
  · rintro ⟨rest, hrest, hhead⟩
    obtain ⟨t, rfl⟩ : ∃ t, rest = '|' :: t := by
      cases rest with
      | nil => cases hhead
      | cons c t => exact ⟨t, by simpa using hhead⟩
    exact ⟨t, by rw [dropPrefix_eq_some.1 hrest, List.append_assoc]; rfl⟩
  · rintro ⟨t, rfl⟩
    exact ⟨'|' :: t, dropPrefix_eq_some.2 (List.append_assoc _ _ _), rfl⟩

/-! ## All clears so far -/

/-- A clear of everything, or of one isolation, with the generation that it started. -/
structure Clear where
  generation : Nat
  isolation : Option Text

def Clear.Covers (c : Clear) (key : Key) : Prop := ∀ isolation, c.isolation = some isolation → inIsolation key isolation

/-- No clear that covers the key is newer. -/
def Fenced (clears : List Clear) (key : Key) (generation : Nat) : Prop :=
  ∀ c ∈ clears, c.Covers key → c.generation ≤ generation

/-- The generations that a list of clears leads to, as far as they are told apart later. -/
structure Generations.Follows (g : Generations) (clears : List Clear) : Prop where
  current : ∀ c ∈ clears, c.generation ≤ g.current
  all : ∀ c ∈ clears, c.isolation = none → c.generation ≤ g.all
  isolation : ∀ c ∈ clears, ∀ i, c.isolation = some i →
    c.generation ≤ g.all ∨ ∃ n, g.isolations.get? i = some n ∧ c.generation ≤ n
  lastAll : g.all = 0 ∨ ⟨g.all, none⟩ ∈ clears
  lastIsolation : ∀ i n, g.isolations.get? i = some n → ⟨n, some i⟩ ∈ clears

namespace Generations
variable {g : Generations} {clears : List Clear}

theorem follows_default : Follows {} [] where
  current := nofun
  all := nofun
  isolation := nofun
  lastAll := .inl rfl
  lastIsolation := nofun

theorem Follows.clear (h : g.Follows clears) : g.clear.Follows (⟨g.current + 1, none⟩ :: clears) := by
  have hle : ∀ c ∈ (⟨g.current + 1, none⟩ :: clears : List Clear), c.generation ≤ g.current + 1 := by
    intro c hc
    rcases List.mem_cons.1 hc with rfl | hc
    · exact Nat.le_refl _
    · exact Nat.le_succ_of_le (h.current c hc)
  refine ⟨hle, fun c hc _ => hle c hc, fun c hc _ _ => .inl (hle c hc), .inr List.mem_cons_self, ?_⟩
  intro i n hi
  cases hi

theorem Follows.clearIsolation (h : g.Follows clears) (isolation : Text) :
    (g.clearIsolation isolation).Follows (⟨g.current + 1, some isolation⟩ :: clears) := by
  refine ⟨?_, ?_, ?_, ?_, ?_⟩
  · intro c hc
    rcases List.mem_cons.1 hc with rfl | hc
    · exact Nat.le_refl _
    · exact Nat.le_succ_of_le (h.current c hc)
  · intro c hc hnone
    rcases List.mem_cons.1 hc with rfl | hc
    · cases hnone
    · exact h.all c hc hnone
  · intro c hc i hi
    unfold Generations.clearIsolation
    simp only [Table.get?_insert]
    rcases List.mem_cons.1 hc with rfl | hc
    · cases hi
      exact .inr ⟨_, if_pos rfl, Nat.le_refl _⟩
    · rcases h.isolation c hc i hi with hall | ⟨n, hn, hle⟩
      · exact .inl hall
      · by_cases hsame : i = isolation
        · exact .inr ⟨_, if_pos hsame, Nat.le_succ_of_le (h.current c hc)⟩
        · exact .inr ⟨n, by rw [if_neg hsame, hn], hle⟩
  · exact h.lastAll.imp_right (List.mem_cons_of_mem _)
  · intro i n hi
    unfold Generations.clearIsolation at hi
    simp only [Table.get?_insert] at hi
    split_ifs at hi with hsame
    · cases hi
      rw [hsame]
      exact List.mem_cons_self
    · exact List.mem_cons_of_mem _ (h.lastIsolation i n hi)

/-- An attempt is admitted for a key exactly when no clear of the key is newer. -/
theorem Follows.admits_iff (h : g.Follows clears) {generation : Nat} {key : Key} :
    g.admits generation key = true ↔ Fenced clears key generation := by
  unfold Generations.admits
  simp only [Bool.and_eq_true, decide_eq_true_iff, List.all_eq_true, Bool.or_eq_true, Bool.not_eq_true']
  constructor
  · rintro ⟨hall, hisolations⟩ c hc hcov
    cases hi : c.isolation with
    | none => exact Nat.le_trans (h.all c hc hi) hall
    | some i =>
      rcases h.isolation c hc i hi with hle | ⟨n, hn, hle⟩
      · exact Nat.le_trans hle hall
      · rcases hisolations (i, n) (Table.mem_entries_iff.2 hn) with hgen | hno
        · exact Nat.le_trans hle hgen
        · rw [hcov i hi] at hno
          cases hno
  · intro hfenced
    constructor
    · rcases h.lastAll with hzero | hmem
      · omega
      · exact hfenced _ hmem nofun
    · rintro ⟨i, n⟩ hmem
      by_cases hin : inIsolation key i = true
      · refine .inl (hfenced _ (h.lastIsolation i n (Table.mem_entries_iff.1 hmem)) ?_)
        rintro j ⟨⟩
        exact hin
      · exact .inr (Bool.eq_false_iff.2 hin)

end Generations

/-! ## The ticket cache -/

def maxContexts : Nat := 256

inductive TicketTransport where
  | quic
  | tls
deriving DecidableEq

def TicketTransport.text : TicketTransport → Text
  | .quic => "quic".toList
  | .tls => "tls".toList

/-- What a context is kept for. -/
structure TicketTarget where
  isolation : Text
  transport : TicketTransport
  host : Text
  port : Nat
  profileKey : Text
  fingerprint : Text
  alpn : List Text

def TicketTarget.key (t : TicketTarget) : Key :=
  t.isolation ++ '|' :: (t.transport.text ++ '|' :: (t.host.map Char.toLower ++ ':' :: (t.port.repr.toList ++
    '|' :: (t.profileKey ++ '|' :: (t.fingerprint ++ '|' :: List.intercalate [','] t.alpn)))))

/-- The contexts by their numbers. -/
structure TicketCache where
  contexts : Table Key Nat := .empty
  generations : Generations := {}

namespace TicketCache

def clear (c : TicketCache) : TicketCache := ⟨.empty, c.generations.clear⟩

def clearIsolation (c : TicketCache) (isolation : Text) : TicketCache where
  contexts := c.contexts.retain fun k v => if startsWithIsolation k isolation then none else some v
  generations := c.generations.clearIsolation isolation

/-- Room for one more context: at the bound, some context is dropped. -/
def makeRoom (contexts : Table Key Nat) : Table Key Nat :=
  if maxContexts ≤ contexts.entries.length then
    match contexts.entries.head? with
    | some e => contexts.erase e.1
    | none => contexts
  else contexts

/-- The context of a key, with `fresh` for the one that a call makes. -/
def context (c : TicketCache) (generation : Nat) (t : TicketTarget) (fresh : Nat) : TicketCache × Nat :=
  if !c.generations.admits generation t.key then (c, fresh)
  else
    match c.contexts.get? t.key with
    | some held => (c, held)
    | none => ({ c with contexts := (makeRoom c.contexts).insert t.key fresh }, fresh)

/-- A cache, every clear so far and the generation of the call that made each context. -/
structure Trace where
  cache : TicketCache := {}
  clears : List Clear := []
  made : Nat → Nat := fun _ => 0
  next : Nat := 0

/-- One call, or another order of the contexts. -/
inductive Step : Trace → Trace → Prop
  | clear (s : Trace) : Step s { s with
      cache := s.cache.clear
      clears := ⟨s.cache.generations.current + 1, none⟩ :: s.clears }
  | clearIsolation (s : Trace) (isolation : Text) : Step s { s with
      cache := s.cache.clearIsolation isolation
      clears := ⟨s.cache.generations.current + 1, some isolation⟩ :: s.clears }
  | context (s : Trace) (generation : Nat) (t : TicketTarget) : generation ≤ s.cache.generations.current →
      Step s { s with
        cache := (s.cache.context generation t s.next).1
        made := fun i => if i = s.next then generation else s.made i
        next := s.next + 1 }
  | reorder (s : Trace) (contexts : Table Key Nat) : s.cache.contexts.Reordered contexts →
      Step s { s with cache := { s.cache with contexts := contexts } }

structure Inv (s : Trace) : Prop where
  follows : s.cache.generations.Follows s.clears
  fenced : ∀ k i, s.cache.contexts.get? k = some i → Fenced s.clears k (s.made i)
  numbered : ∀ k i, s.cache.contexts.get? k = some i → i < s.next

theorem fenced_clear {clears : List Clear} {c : Clear} {key : Key} {n : Nat} (h : Fenced clears key n)
    (hno : ¬ c.Covers key) : Fenced (c :: clears) key n := by
  intro c' hc' hcov
  rcases List.mem_cons.1 hc' with rfl | hc'
  · exact absurd hcov hno
  · exact h c' hc' hcov

theorem get?_clearIsolation {c : TicketCache} {isolation : Text} {k : Key} {i : Nat}
    (h : (c.clearIsolation isolation).contexts.get? k = some i) :
    c.contexts.get? k = some i ∧ inIsolation k isolation = false := by
  unfold clearIsolation at h
  rw [Table.get?_retain, Option.bind_eq_some_iff] at h
  obtain ⟨v, hv, hkeep⟩ := h
  split_ifs at hkeep with hin
  cases hkeep
  rw [inIsolation_eq]
  exact ⟨hv, Bool.eq_false_iff.2 hin⟩

theorem get?_makeRoom {contexts : Table Key Nat} {k : Key} {i : Nat} (h : (makeRoom contexts).get? k = some i) :
    contexts.get? k = some i := by
  unfold makeRoom at h
  split_ifs at h
  · split at h
    · rw [Table.get?_erase] at h
      split_ifs at h
      exact h
    · exact h
  · exact h

/-- What the cache holds after a call: what it held, or the new context under its key. -/
theorem get?_context {c : TicketCache} {generation : Nat} {t : TicketTarget} {fresh : Nat} {k : Key} {i : Nat}
    (h : (c.context generation t fresh).1.contexts.get? k = some i) :
    c.contexts.get? k = some i ∨ k = t.key ∧ i = fresh ∧ c.generations.admits generation t.key = true := by
  unfold context at h
  split_ifs at h with hadmits
  · exact .inl h
  · rw [Bool.not_eq_true', Bool.not_eq_false] at hadmits
    cases hget : c.contexts.get? t.key with
    | some held =>
      rw [hget] at h
      exact .inl h
    | none =>
      rw [hget] at h
      simp only [Table.get?_insert] at h
      split_ifs at h with hkey
      · cases h
        exact .inr ⟨hkey, rfl, hadmits⟩
      · exact .inl (get?_makeRoom h)

theorem generations_context (c : TicketCache) (generation : Nat) (t : TicketTarget) (fresh : Nat) :
    (c.context generation t fresh).1.generations = c.generations := by
  unfold context
  split_ifs
  · rfl
  · split <;> rfl

theorem Step.inv {s s' : Trace} (hstep : Step s s') (h : Inv s) : Inv s' := by
  cases hstep with
  | clear => exact ⟨h.follows.clear, nofun, nofun⟩
  | clearIsolation isolation =>
    refine ⟨h.follows.clearIsolation isolation, ?_, ?_⟩
    · intro k i hk
      obtain ⟨hk, hin⟩ := get?_clearIsolation hk
      apply fenced_clear (h.fenced k i hk)
      intro hcov
      rw [hcov isolation rfl] at hin
      cases hin
    · intro k i hk
      exact h.numbered k i (get?_clearIsolation hk).1
  | context generation t hgen =>
    refine ⟨by rw [generations_context]; exact h.follows, ?_, ?_⟩
    · intro k i hk
      rcases get?_context hk with hold | ⟨rfl, rfl, hadmits⟩
      · have hne : i ≠ s.next := Nat.ne_of_lt (h.numbered k i hold)
        simp only [if_neg hne]
        exact h.fenced k i hold
      · simp only [if_true]
        exact h.follows.admits_iff.1 hadmits
    · intro k i hk
      rcases get?_context hk with hold | ⟨-, rfl, -⟩
      · exact Nat.lt_succ_of_lt (h.numbered k i hold)
      · exact Nat.lt_succ_self _
  | reorder contexts hperm =>
    refine ⟨h.follows, ?_, ?_⟩
    · intro k i hk
      exact h.fenced k i ((hperm.get? k).trans hk)
    · intro k i hk
      exact h.numbered k i ((hperm.get? k).trans hk)

/-- **The fence of the ticket cache**: no context that it holds, or hands out and did not make for the call, was made
for an attempt older than a clear of its key. -/
theorem fenced_run {s : Trace} (hrun : Reaches Step {} s) :
    (∀ k i, s.cache.contexts.get? k = some i → Fenced s.clears k (s.made i)) ∧
    ∀ generation t, (s.cache.context generation t s.next).2 = s.next ∨
      Fenced s.clears t.key (s.made (s.cache.context generation t s.next).2) := by
  have hinv : Inv s := hrun.inv Inv (fun _ _ hstep => hstep.inv) ⟨Generations.follows_default, nofun, nofun⟩
  refine ⟨hinv.fenced, ?_⟩
  intro generation t
  unfold context
  split_ifs
  · exact .inl rfl
  · cases hget : s.cache.contexts.get? t.key with
    | some held => exact .inr (hinv.fenced _ _ hget)
    | none => exact .inl rfl

end TicketCache

end Anvil.Transport
