import Anvil.Transport.Pool

/-!
# Attempts on one connection pool (`anvil-transport/src/http.rs`)

An attempt has a generation that was taken before, is handed a pooled connection or opens one, and gives it back under
its own key and generation. Clears, evictions and sweeps come in between, in any order; time and whether a connection is
usable are whatever an operation finds. An HTTP/1.1 connection that is kept for the retry is not returned as well.

Beside the pool stands what it does not record: every clear so far, and for each connection the attempt that opened it.

* `Step` : one operation of one attempt, or of the pool's owner;
* `Inv` : fences, leases, owners and lists, kept by every step;
* `pool_fenced_bounded` : what holds in every run.
-/

namespace Anvil.Transport.Pool
open Anvil.Lib

structure Attempt where
  key : Key
  generation : Nat
  /-- The connection that it sends on. -/
  holds : Option Pooled := none
  /-- The connection that it kept for the retry, of which it still has a clone. -/
  kept : Option Pooled := none
  lease : Option Nat := none

/-- The attempt that opened a connection, the generation of the pool then, and its protocol. -/
structure Opened where
  generation : Nat := 0
  current : Nat := 0
  key : Key := []
  sender : Sender := .h1

structure World where
  pool : PoolState := {}
  streams : Streams := fun _ => {}
  attempts : List Attempt := []
  clears : List Clear := []
  opened : Nat → Opened := fun _ => {}
  next : Nat := 0

def Attempt.handed (a : Attempt) : Option (Pooled × Option Nat) → Attempt
  | none => a
  | some (p, lease) => { a with holds := some p, lease := lease }

/-- The lease that ends with an attempt. -/
def Attempt.release (a : Attempt) (s : Streams) (now : Nat) : Streams :=
  match a.lease with
  | none => s
  | some id => s.drop id now

/-- A new connection of an attempt, with its lease. -/
def World.connect (w : World) (a : Attempt) (rest : List Attempt) (sender : Sender) (now : Nat) : World :=
  let p : Pooled := ⟨w.next, sender, now⟩
  let streams : Streams := fun i => if i = w.next then { active := 0, idleSince := now } else w.streams i
  { w with
    streams := (p.lease streams).1
    attempts := { a with holds := some p, lease := (p.lease streams).2 } :: rest
    opened := fun i => if i = w.next then ⟨a.generation, w.pool.generations.current, a.key, sender⟩ else w.opened i
    next := w.next + 1 }

/-- One operation on the pool; `w.attempts` is in no order. -/
inductive Step (limits : PoolLimits) : World → World → Prop
  | start (w : World) (key : Key) (generation : Nat) : generation ≤ w.pool.generations.current →
      Step limits w { w with attempts := { key := key, generation := generation } :: w.attempts }
  | checkout (w : World) (a : Attempt) (rest : List Attempt) (usable : Nat → Bool) (now : Nat) :
      w.attempts.Perm (a :: rest) → a.holds = none → a.lease = none →
      Step limits w { w with
        pool := (w.pool.checkout limits w.streams a.key usable now).1
        streams := (w.pool.checkout limits w.streams a.key usable now).2.1
        attempts := a.handed (w.pool.checkout limits w.streams a.key usable now).2.2 :: rest }
  | takeTooEarly (w : World) (a : Attempt) (rest : List Attempt) (usable usable' : Nat → Bool) (now : Nat) :
      w.attempts.Perm (a :: rest) → a.holds = none → a.lease = none →
      Step limits w { w with
        pool := (w.pool.takeTooEarly limits w.streams a.key usable usable' now).1
        streams := (w.pool.takeTooEarly limits w.streams a.key usable usable' now).2.1
        attempts := a.handed (w.pool.takeTooEarly limits w.streams a.key usable usable' now).2.2 :: rest }
  | connect (w : World) (a : Attempt) (rest : List Attempt) (sender : Sender) (now : Nat) :
      w.attempts.Perm (a :: rest) → a.holds = none → a.lease = none → Step limits w (w.connect a rest sender now)
  | keepTooEarly (w : World) (a : Attempt) (rest : List Attempt) (p : Pooled) (now : Nat) :
      w.attempts.Perm (a :: rest) → a.holds = some p →
      Step limits w { w with
        pool := w.pool.keepTooEarly a.key p a.generation now
        attempts := { a with holds := none, kept := some p } :: rest }
  | checkin (w : World) (a : Attempt) (rest : List Attempt) (p : Pooled) (now : Nat) :
      w.attempts.Perm (a :: rest) → a.holds = some p →
      Step limits w { w with
        pool := w.pool.checkin limits w.streams a.key p a.generation now
        attempts := { a with holds := none } :: rest }
  | checkinKept (w : World) (a : Attempt) (rest : List Attempt) (p : Pooled) (now : Nat) :
      w.attempts.Perm (a :: rest) → a.holds = none → a.kept = some p → p.sender = .h2 →
      Step limits w { w with
        pool := w.pool.checkin limits w.streams a.key p a.generation now
        attempts := { a with kept := none } :: rest }
  | finish (w : World) (a : Attempt) (rest : List Attempt) (now : Nat) :
      w.attempts.Perm (a :: rest) →
      Step limits w { w with streams := a.release w.streams now, attempts := rest }
  | evict (w : World) (key : Key) (id : Nat) : Step limits w { w with pool := w.pool.evict key id }
  | sweep (w : World) (usable : Nat → Bool) (now : Nat) :
      Step limits w { w with pool := w.pool.sweep limits w.streams usable now }
  | clear (w : World) : Step limits w { w with
      pool := w.pool.clear
      clears := ⟨w.pool.generations.current + 1, none⟩ :: w.clears }
  | clearIsolation (w : World) (isolation : Text) : Step limits w { w with
      pool := w.pool.clearIsolation isolation
      clears := ⟨w.pool.generations.current + 1, some isolation⟩ :: w.clears }
  | reorder (w : World) (idle : Table Key (List Pooled)) (tooEarly : Table Key Pooled) :
      w.pool.idle.Reordered idle → w.pool.tooEarly.Reordered tooEarly →
      Step limits w { w with pool := { w.pool with idle := idle, tooEarly := tooEarly } }

/-! ## The invariant -/

/-- The connection was opened under the key, with its protocol, by an attempt that had begun. -/
structure Placed (opened : Nat → Opened) (next : Nat) (k : Key) (p : Pooled) : Prop where
  id : p.id < next
  key : (opened p.id).key = k
  sender : (opened p.id).sender = p.sender
  begun : (opened p.id).generation ≤ (opened p.id).current

/-- The number of an HTTP/1.1 connection that the attempt holds. -/
def Attempt.own (a : Attempt) : Option Nat := a.holds.bind fun p => if p.sender = .h1 then some p.id else none

/-- What an attempt has was opened after every clear of its key that it is admitted past. -/
def Admitted (clears : List Clear) (opened : Nat → Opened) (a : Attempt) (p : Pooled) : Prop :=
  ∀ c ∈ clears, c.Covers a.key → c.generation ≤ a.generation → c.generation ≤ (opened p.id).generation

/-- Connections are pooled under the key and after the clears that they were opened with. -/
structure World.Fences (w : World) : Prop where
  follows : w.pool.generations.Follows w.clears
  placed : ∀ k p, w.pool.Holds k p → Placed w.opened w.next k p
  fenced : ∀ k p, w.pool.Holds k p → Fenced w.clears k (w.opened p.id).generation
  generation : ∀ a ∈ w.attempts, a.generation ≤ w.pool.generations.current
  carried : ∀ a ∈ w.attempts, ∀ p, a.holds = some p ∨ a.kept = some p → Placed w.opened w.next a.key p
  admitted : ∀ a ∈ w.attempts, ∀ p, a.holds = some p ∨ a.kept = some p → Admitted w.clears w.opened a p

/-- The count of a connection is the number of leases of it. -/
structure World.Leases (w : World) : Prop where
  active : ∀ id, (w.streams id).active = w.attempts.countP fun a => a.lease = some id
  id : ∀ a ∈ w.attempts, ∀ id, a.lease = some id → id < w.next

/-- An HTTP/1.1 connection is in one place. -/
structure World.Owned (w : World) : Prop where
  holders : (w.attempts.filterMap Attempt.own).Nodup
  apart : ∀ a ∈ w.attempts, ∀ c, a.own = some c → ∀ k p, w.pool.Holds k p → p.id ≠ c
  once : ∀ k p k' p', p ∈ w.pool.idle.listAt k → w.pool.tooEarly.get? k' = some p' → p.sender = .h1 → p.id ≠ p'.id

structure Inv (limits : PoolLimits) (w : World) : Prop where
  lists : w.pool.Lists limits
  fences : w.Fences
  leases : w.Leases
  owned : w.Owned

section Step
variable {limits : PoolLimits} {w : World} {a : Attempt} {rest : List Attempt} {opened : Nat → Opened} {next : Nat}

theorem Placed.sender_eq {k k' : Key} {p q : Pooled} (hp : Placed opened next k p) (hq : Placed opened next k' q)
    (h : p.id = q.id) : p.sender = q.sender := by
  rw [← hp.sender, h, hq.sender]

theorem Placed.key_eq {k k' : Key} {p q : Pooled} (hp : Placed opened next k p) (hq : Placed opened next k' q)
    (h : p.id = q.id) : k = k' := by
  rw [← hp.key, h, hq.key]

theorem Attempt.own_eq_some {c : Nat} : a.own = some c ↔ ∃ p, a.holds = some p ∧ p.sender = .h1 ∧ p.id = c := by
  unfold Attempt.own
  rw [Option.bind_eq_some_iff]
  apply exists_congr
  intro p
  apply and_congr_right
  intro _
  split_ifs with h
  · simp [h]
  · simp [h]

theorem Attempt.own_eq_none (h : a.holds = none) : a.own = none := by
  unfold Attempt.own
  rw [h]
  rfl

/-- The order of the attempts does not matter. -/
theorem Inv.perm (h : Inv limits w) {l : List Attempt} (hperm : w.attempts.Perm l) :
    Inv limits { w with attempts := l } where
  lists := h.lists
  fences := ⟨h.fences.follows, h.fences.placed, h.fences.fenced,
    fun b hb => h.fences.generation b (hperm.mem_iff.2 hb), fun b hb => h.fences.carried b (hperm.mem_iff.2 hb),
    fun b hb => h.fences.admitted b (hperm.mem_iff.2 hb)⟩
  leases := ⟨fun id => (h.leases.active id).trans (hperm.countP_eq _), fun b hb => h.leases.id b (hperm.mem_iff.2 hb)⟩
  owned := ⟨(hperm.filterMap _).nodup_iff.1 h.owned.holders, fun b hb => h.owned.apart b (hperm.mem_iff.2 hb),
    h.owned.once⟩

/-- A pool that holds no more, with the generations that it had. -/
theorem Inv.sub (h : Inv limits w) {pool : PoolState} (hsub : pool.Sub w.pool)
    (hgen : pool.generations = w.pool.generations) : Inv limits { w with pool := pool } := by
  have hholds : ∀ k p, pool.Holds k p → w.pool.Holds k p := fun k p hp => hsub.holds hp
  refine ⟨hsub.lists h.lists, ⟨?_, ?_, ?_, ?_, h.fences.carried, h.fences.admitted⟩, ⟨h.leases.active, h.leases.id⟩,
    ⟨h.owned.holders, ?_, ?_⟩⟩
  · show pool.generations.Follows w.clears
    rw [hgen]
    exact h.fences.follows
  · intro k p hp
    exact h.fences.placed k p (hholds k p hp)
  · intro k p hp
    exact h.fences.fenced k p (hholds k p hp)
  · intro b hb
    show b.generation ≤ pool.generations.current
    rw [hgen]
    exact h.fences.generation b hb
  · intro b hb c hc k p hp
    exact h.owned.apart b hb c hc k p (hholds k p hp)
  · intro k p k' p' hp hp'
    exact h.owned.once k p k' p' ((hsub.idle k).subset hp) (hsub.tooEarly k' p' hp')

theorem Inv.start (h : Inv limits w) {key : Key} {generation : Nat} (hgen : generation ≤ w.pool.generations.current) :
    Inv limits { w with attempts := { key := key, generation := generation } :: w.attempts } := by
  refine ⟨h.lists, ⟨h.fences.follows, h.fences.placed, h.fences.fenced, ?_, ?_, ?_⟩, ⟨?_, ?_⟩, ⟨?_, ?_, h.owned.once⟩⟩
  · intro b hb
    rcases List.mem_cons.1 hb with rfl | hb
    · exact hgen
    · exact h.fences.generation b hb
  · intro b hb p hp
    rcases List.mem_cons.1 hb with rfl | hb
    · exact hp.elim nofun nofun
    · exact h.fences.carried b hb p hp
  · intro b hb p hp
    rcases List.mem_cons.1 hb with rfl | hb
    · exact hp.elim nofun nofun
    · exact h.fences.admitted b hb p hp
  · intro id
    rw [h.leases.active id, List.countP_cons_of_neg (by simp)]
  · intro b hb id hid
    rcases List.mem_cons.1 hb with rfl | hb
    · cases hid
    · exact h.leases.id b hb id hid
  · rw [List.filterMap_cons_none rfl]
    exact h.owned.holders
  · intro b hb c hc
    rcases List.mem_cons.1 hb with rfl | hb
    · cases hc
    · exact h.owned.apart b hb c hc

theorem leases_handed {s s' : Streams} {p : Pooled} {lease : Option Nat} {left : List Pooled}
    (hhanded : PoolState.Handed s s' left p lease)
    (hactive : ∀ id, (s id).active = (a :: rest).countP fun b => b.lease = some id) (hnone : a.lease = none) (id : Nat) :
    (s' id).active = ({ a with holds := some p, lease := lease } :: rest).countP fun b => b.lease = some id := by
  have hold := hactive id
  rw [List.countP_cons_of_neg (by simp [hnone])] at hold
  cases hsender : p.sender with
  | h1 =>
    obtain ⟨rfl, rfl, -⟩ := hhanded.own hsender
    rw [List.countP_cons_of_neg (by simp)]
    exact hold
  | h2 =>
    obtain ⟨rfl, rfl⟩ := hhanded.shared hsender
    rw [List.countP_cons]
    unfold Streams.lease
    by_cases hid : id = p.id
    · subst hid
      simp [hold]
    · have hne : ¬ p.id = id := fun h => hid h.symm
      simp [hid, hne, hold]

/-- An attempt is handed a pooled connection. -/
theorem Inv.handed (h : Inv limits { w with attempts := a :: rest }) {pool : PoolState} (hsub : pool.Sub w.pool)
    (hgen : pool.generations = w.pool.generations) (hholds : a.holds = none) (hlease : a.lease = none) {s' : Streams}
    {p : Pooled} {lease : Option Nat} {left : List Pooled} (hp : w.pool.Holds a.key p)
    (hhanded : PoolState.Handed w.streams s' left p lease)
    (hgone : p.sender = .h1 → ∀ k q, pool.Holds k q → q.id ≠ p.id) :
    Inv limits { w with
      pool := pool
      streams := s'
      attempts := { a with holds := some p, lease := lease } :: rest } := by
  have hs := h.sub hsub hgen
  have hplaced := h.fences.placed a.key p hp
  have hfenced := h.fences.fenced a.key p hp
  have hown : a.own = none := Attempt.own_eq_none hholds
  have hholders : (rest.filterMap Attempt.own).Nodup := by
    have := h.owned.holders
    rwa [List.filterMap_cons_none hown] at this
  refine ⟨hs.lists, ⟨hs.fences.follows, hs.fences.placed, hs.fences.fenced, ?_, ?_, ?_⟩, ⟨?_, ?_⟩, ⟨?_, ?_, hs.owned.once⟩⟩
  · intro b hb
    rcases List.mem_cons.1 hb with rfl | hb
    · exact hs.fences.generation a List.mem_cons_self
    · exact hs.fences.generation b (List.mem_cons_of_mem a hb)
  · intro b hb q hq
    rcases List.mem_cons.1 hb with rfl | hb
    · rcases hq with hq | hq
      · cases hq
        exact hplaced
      · exact hs.fences.carried a List.mem_cons_self q (.inr hq)
    · exact hs.fences.carried b (List.mem_cons_of_mem a hb) q hq
  · intro b hb q hq
    rcases List.mem_cons.1 hb with rfl | hb
    · rcases hq with hq | hq
      · cases hq
        intro c hc hcov _
        exact hfenced c hc hcov
      · exact hs.fences.admitted a List.mem_cons_self q (.inr hq)
    · exact hs.fences.admitted b (List.mem_cons_of_mem a hb) q hq
  · intro id
    exact leases_handed hhanded h.leases.active hlease id
  · intro b hb id hid
    rcases List.mem_cons.1 hb with rfl | hb
    · cases hsender : p.sender with
      | h1 =>
        rw [(hhanded.own hsender).1] at hid
        cases hid
      | h2 =>
        rw [(hhanded.shared hsender).1] at hid
        cases hid
        exact hplaced.id
    · exact h.leases.id b (List.mem_cons_of_mem a hb) id hid
  · rw [List.filterMap_cons]
    split
    · exact hholders
    · rename_i c hc
      obtain ⟨q, hq, hsender, rfl⟩ := Attempt.own_eq_some.1 hc
      cases hq
      refine List.nodup_cons.2 ⟨?_, hholders⟩
      intro hmem
      obtain ⟨b, hb, hbown⟩ := List.mem_filterMap.1 hmem
      exact h.owned.apart b (List.mem_cons_of_mem a hb) p.id hbown a.key p hp rfl
  · intro b hb c hc k q hq
    rcases List.mem_cons.1 hb with rfl | hb
    · obtain ⟨x, hx, hsender, rfl⟩ := Attempt.own_eq_some.1 hc
      cases hx
      exact hgone hsender k q hq
    · exact hs.owned.apart b (List.mem_cons_of_mem a hb) c hc k q hq

theorem Inv.checkout (h : Inv limits { w with attempts := a :: rest }) (hholds : a.holds = none) (hlease : a.lease = none)
    (usable : Nat → Bool) (now : Nat) :
    Inv limits { w with
      pool := (w.pool.checkout limits w.streams a.key usable now).1
      streams := (w.pool.checkout limits w.streams a.key usable now).2.1
      attempts := a.handed (w.pool.checkout limits w.streams a.key usable now).2.2 :: rest } := by
  have hlists : w.pool.Lists limits := h.lists
  obtain ⟨hsub, hgen, hother, hfound⟩ := PoolState.checkout_spec limits w.streams hlists.ids a.key usable now
  generalize w.pool.checkout limits w.streams a.key usable now = r at *
  obtain ⟨pool, s', found⟩ := r
  cases found with
  | none =>
    cases hfound
    exact h.sub hsub hgen
  | some e =>
    obtain ⟨hp, hhanded⟩ := hfound
    refine h.handed hsub hgen hholds hlease (.inl hp) hhanded ?_
    intro hsender k q hq heq
    have hplaced := h.fences.placed k q (hsub.holds hq)
    have hk : k = a.key := hplaced.key_eq (h.fences.placed a.key e.1 (.inl hp)) heq
    rcases hq with hq | hq
    · rw [hk] at hq
      exact (hhanded.own hsender).2.2 q hq heq
    · exact h.owned.once a.key e.1 k q hp (hsub.tooEarly k q hq) hsender heq.symm

theorem Inv.takeTooEarly (h : Inv limits { w with attempts := a :: rest }) (hholds : a.holds = none)
    (hlease : a.lease = none) (usable usable' : Nat → Bool) (now : Nat) :
    Inv limits { w with
      pool := (w.pool.takeTooEarly limits w.streams a.key usable usable' now).1
      streams := (w.pool.takeTooEarly limits w.streams a.key usable usable' now).2.1
      attempts := a.handed (w.pool.takeTooEarly limits w.streams a.key usable usable' now).2.2 :: rest } := by
  obtain ⟨hsub, hgen, hidle, hfound⟩ :=
    PoolState.takeTooEarly_spec limits w.pool w.streams a.key usable usable' now
  generalize w.pool.takeTooEarly limits w.streams a.key usable usable' now = r at *
  obtain ⟨pool, s', found⟩ := r
  cases found with
  | none =>
    cases hfound
    exact h.sub hsub hgen
  | some e =>
    obtain ⟨hp, herase, hhanded⟩ := hfound
    refine h.handed hsub hgen hholds hlease (.inr hp) hhanded ?_
    intro hsender k q hq heq
    have hplaced := h.fences.placed k q (hsub.holds hq)
    have hk : k = a.key := hplaced.key_eq (h.fences.placed a.key e.1 (.inr hp)) heq
    rcases hq with hq | hq
    · have hsame : q.sender = .h1 :=
        (hplaced.sender_eq (h.fences.placed a.key e.1 (.inr hp)) heq).trans hsender
      exact h.owned.once k q a.key e.1 ((hsub.idle k).subset hq) hp hsame heq
    · rw [hk, herase, Table.get?_erase, if_pos rfl] at hq
      cases hq

/-- An attempt gives its connection to the idle ones (`idle`) or keeps it for the retry. -/
theorem Inv.returned (h : Inv limits { w with attempts := a :: rest }) (pool : PoolState) (p p' : Pooled) (idle : Bool)
    (hgen : pool.generations = w.pool.generations) (hlists : pool.Lists limits)
    (hadmits : w.pool.generations.admits a.generation a.key = true) (hid : p'.id = p.id) (hsender : p'.sender = p.sender)
    (hidle : ∀ k, ∀ q ∈ pool.idle.listAt k, q ∈ w.pool.idle.listAt k ∨ idle = true ∧ k = a.key ∧ q = p')
    (htooEarly : ∀ k q, pool.tooEarly.get? k = some q → w.pool.tooEarly.get? k = some q ∨ idle = false ∧ k = a.key ∧ q = p')
    (hcarried : a.holds = some p ∨ a.kept = some p ∧ p.sender = .h2) {kept : Option Pooled}
    (hkept : ∀ q, kept = some q → a.holds = some q ∨ a.kept = some q) :
    Inv limits { w with
      pool := pool
      attempts := { a with holds := none, kept := kept } :: rest } := by
  have hfollows : w.pool.generations.Follows w.clears := h.fences.follows
  have hmem : ∀ k q, pool.Holds k q → w.pool.Holds k q ∨ k = a.key ∧ q = p' := by
    rintro k q (hq | hq)
    · exact (hidle k q hq).imp .inl And.right
    · exact (htooEarly k q hq).imp .inr And.right
  have hcarry : a.holds = some p ∨ a.kept = some p := hcarried.imp_right And.left
  have hplaced : Placed w.opened w.next a.key p := h.fences.carried a List.mem_cons_self p hcarry
  have hplaced' : Placed w.opened w.next a.key p' := by
    refine ⟨?_, ?_, ?_, ?_⟩
    · rw [hid]
      exact hplaced.id
    · rw [hid]
      exact hplaced.key
    · rw [hid, hsender]
      exact hplaced.sender
    · rw [hid]
      exact hplaced.begun
  have hfenced : Fenced w.clears a.key (w.opened p'.id).generation := by
    intro c hc hcov
    rw [hid]
    exact h.fences.admitted a List.mem_cons_self p hcarry c hc hcov (hfollows.admits_iff.1 hadmits c hc hcov)
  have hown : p.sender = .h1 → a.own = some p.id := by
    intro hs
    refine Attempt.own_eq_some.2 ⟨p, hcarried.resolve_right ?_, hs, rfl⟩
    rintro ⟨-, h2⟩
    rw [hs] at h2
    cases h2
  have hfree : p.sender = .h1 → ∀ k q, w.pool.Holds k q → q.id ≠ p.id := fun hs =>
    h.owned.apart a List.mem_cons_self p.id (hown hs)
  have hrest : (rest.filterMap Attempt.own).Nodup :=
    h.owned.holders.sublist ((List.sublist_cons_self a rest).filterMap _)
  have hothers : ∀ b ∈ rest, ∀ c, b.own = some c → p.id ≠ c := by
    rintro b hb c hc rfl
    cases hs : p.sender with
    | h1 =>
      have hnodup := h.owned.holders
      rw [List.filterMap_cons_some (hown hs)] at hnodup
      exact (List.nodup_cons.1 hnodup).1 (List.mem_filterMap.2 ⟨b, hb, hc⟩)
    | h2 =>
      obtain ⟨x, hx, hs', heq⟩ := Attempt.own_eq_some.1 hc
      have hsame := (h.fences.carried b (List.mem_cons_of_mem a hb) x (.inl hx)).sender_eq hplaced heq
      rw [hs', hs] at hsame
      cases hsame
  have hother : ∀ k q, w.pool.Holds k q → q.sender = .h1 → q.id ≠ p.id := by
    intro k q hq hs heq
    have hsame := (h.fences.placed k q hq).sender_eq hplaced heq
    exact hfree (hsame.symm.trans hs) k q hq heq
  refine ⟨hlists, ⟨?_, ?_, ?_, ?_, ?_, ?_⟩, ⟨?_, ?_⟩, ⟨?_, ?_, ?_⟩⟩
  · show pool.generations.Follows w.clears
    rw [hgen]
    exact hfollows
  · intro k q hq
    rcases hmem k q hq with hq | ⟨rfl, rfl⟩
    · exact h.fences.placed k q hq
    · exact hplaced'
  · intro k q hq
    rcases hmem k q hq with hq | ⟨rfl, rfl⟩
    · exact h.fences.fenced k q hq
    · exact hfenced
  · intro b hb
    show b.generation ≤ pool.generations.current
    rw [hgen]
    rcases List.mem_cons.1 hb with rfl | hb
    · exact h.fences.generation a List.mem_cons_self
    · exact h.fences.generation b (List.mem_cons_of_mem a hb)
  · intro b hb q hq
    rcases List.mem_cons.1 hb with rfl | hb
    · exact h.fences.carried a List.mem_cons_self q (hq.elim nofun (hkept q))
    · exact h.fences.carried b (List.mem_cons_of_mem a hb) q hq
  · intro b hb q hq
    rcases List.mem_cons.1 hb with rfl | hb
    · exact h.fences.admitted a List.mem_cons_self q (hq.elim nofun (hkept q))
    · exact h.fences.admitted b (List.mem_cons_of_mem a hb) q hq
  · intro id
    exact (h.leases.active id).trans (by simp [List.countP_cons])
  · intro b hb id hlease
    rcases List.mem_cons.1 hb with rfl | hb
    · exact h.leases.id a List.mem_cons_self id hlease
    · exact h.leases.id b (List.mem_cons_of_mem a hb) id hlease
  · rw [List.filterMap_cons_none rfl]
    exact hrest
  · intro b hb c hc k q hq
    rcases List.mem_cons.1 hb with rfl | hb
    · cases hc
    · rcases hmem k q hq with hq | ⟨rfl, rfl⟩
      · exact h.owned.apart b (List.mem_cons_of_mem a hb) c hc k q hq
      · rw [hid]
        exact hothers b hb c hc
  · intro k q k' q' hq hq' hs
    rcases hidle k q hq with hq | ⟨htrue, rfl, rfl⟩
    · rcases htooEarly k' q' hq' with hq' | ⟨-, rfl, rfl⟩
      · exact h.owned.once k q k' q' hq hq' hs
      · rw [hid]
        exact hother k q (.inl hq) hs
    · rcases htooEarly k' q' hq' with hq' | ⟨hfalse, -⟩
      · rw [hid]
        exact (hfree (hsender.symm.trans hs) k' q' (.inr hq')).symm
      · rw [htrue] at hfalse
        cases hfalse

/-- An attempt lets go of its connection, and the pool does not take it. -/
theorem Inv.letGo (h : Inv limits { w with attempts := a :: rest }) {kept : Option Pooled}
    (hkept : ∀ q, kept = some q → a.holds = some q ∨ a.kept = some q) :
    Inv limits { w with attempts := { a with holds := none, kept := kept } :: rest } := by
  refine ⟨h.lists, ⟨h.fences.follows, h.fences.placed, h.fences.fenced, ?_, ?_, ?_⟩, ⟨?_, ?_⟩, ⟨?_, ?_, h.owned.once⟩⟩
  · intro b hb
    rcases List.mem_cons.1 hb with rfl | hb
    · exact h.fences.generation a List.mem_cons_self
    · exact h.fences.generation b (List.mem_cons_of_mem a hb)
  · intro b hb q hq
    rcases List.mem_cons.1 hb with rfl | hb
    · exact h.fences.carried a List.mem_cons_self q (hq.elim nofun (hkept q))
    · exact h.fences.carried b (List.mem_cons_of_mem a hb) q hq
  · intro b hb q hq
    rcases List.mem_cons.1 hb with rfl | hb
    · exact h.fences.admitted a List.mem_cons_self q (hq.elim nofun (hkept q))
    · exact h.fences.admitted b (List.mem_cons_of_mem a hb) q hq
  · intro id
    exact (h.leases.active id).trans (by simp [List.countP_cons])
  · intro b hb id hlease
    rcases List.mem_cons.1 hb with rfl | hb
    · exact h.leases.id a List.mem_cons_self id hlease
    · exact h.leases.id b (List.mem_cons_of_mem a hb) id hlease
  · rw [List.filterMap_cons_none rfl]
    exact h.owned.holders.sublist ((List.sublist_cons_self a rest).filterMap _)
  · intro b hb c hc
    rcases List.mem_cons.1 hb with rfl | hb
    · cases hc
    · exact h.owned.apart b (List.mem_cons_of_mem a hb) c hc

theorem Inv.keepTooEarly (h : Inv limits { w with attempts := a :: rest }) {p : Pooled} (hp : a.holds = some p) (now : Nat) :
    Inv limits { w with
      pool := w.pool.keepTooEarly a.key p a.generation now
      attempts := { a with holds := none, kept := some p } :: rest } := by
  have hkept : ∀ q, some p = some q → a.holds = some q ∨ a.kept = some q := by
    rintro q ⟨⟩
    exact .inl hp
  unfold PoolState.keepTooEarly
  cases hadmits : w.pool.generations.admits a.generation a.key with
  | false => exact h.letGo hkept
  | true =>
    refine h.returned { w.pool with tooEarly := w.pool.tooEarly.insert a.key { p with idleSince := now } } p
      { p with idleSince := now } false rfl ?_ hadmits rfl rfl ?_ ?_ (.inl hp) hkept
    · exact ⟨h.lists.noEmpty, h.lists.bounded, h.lists.ids⟩
    · intro k q hq
      exact .inl hq
    · intro k q hq
      simp only [Table.get?_insert] at hq
      split_ifs at hq with hk
      · cases hq
        exact .inr ⟨rfl, hk, rfl⟩
      · exact .inl hq

theorem Inv.checkin (h : Inv limits { w with attempts := a :: rest }) {p : Pooled} {kept : Option Pooled}
    (hcarried : a.holds = some p ∨ a.kept = some p ∧ p.sender = .h2)
    (hkept : ∀ q, kept = some q → a.holds = some q ∨ a.kept = some q) (now : Nat) :
    Inv limits { w with
      pool := w.pool.checkin limits w.streams a.key p a.generation now
      attempts := { a with holds := none, kept := kept } :: rest } := by
  have hlists : w.pool.Lists limits := h.lists
  cases hrefuses : w.pool.refuses a.key p a.generation with
  | true =>
    rw [PoolState.checkin_refused hrefuses]
    exact h.letGo hkept
  | false =>
    have hspec : PoolState.CheckedIn limits w.streams w.pool a.key { p with idleSince := now }
        (w.pool.checkin limits w.streams a.key p a.generation now) := PoolState.checkin_spec hlists hrefuses
    unfold PoolState.refuses at hrefuses
    rw [Bool.or_eq_false_iff, Bool.not_eq_false'] at hrefuses
    refine h.returned _ p { p with idleSince := now } true hspec.generations hspec.lists hrefuses.1 rfl rfl ?_ ?_ hcarried
      hkept
    · intro k q hq
      exact (hspec.mem k q hq).imp_right fun h => ⟨rfl, h⟩
    · intro k q hq
      rw [hspec.tooEarly] at hq
      exact .inl hq

theorem placed_fresh {k : Key} {p : Pooled} (h : Placed opened next k p) (o : Opened) :
    Placed (fun i => if i = next then o else opened i) (next + 1) k p := by
  have hne : ¬ p.id = next := Nat.ne_of_lt h.id
  refine ⟨Nat.lt_succ_of_lt h.id, ?_, ?_, ?_⟩
  · rw [if_neg hne]
    exact h.key
  · rw [if_neg hne]
    exact h.sender
  · rw [if_neg hne]
    exact h.begun

theorem Inv.connect (h : Inv limits { w with attempts := a :: rest }) (hlease : a.lease = none) (sender : Sender)
    (now : Nat) : Inv limits (w.connect a rest sender now) := by
  have hfresh : ∀ {k p}, Placed w.opened w.next k p → p.id ≠ w.next := fun hp => Nat.ne_of_lt hp.id
  have hrest : (rest.filterMap Attempt.own).Nodup :=
    h.owned.holders.sublist ((List.sublist_cons_self a rest).filterMap _)
  have hactive : ∀ id, ((fun i => if i = w.next then { active := 0, idleSince := now } else w.streams i : Streams) id).active
      =
      (a :: rest).countP fun b => b.lease = some id := by
    intro id
    by_cases hid : id = w.next
    · subst hid
      simp only [if_true]
      symm
      rw [List.countP_eq_zero]
      intro b hb hl
      have hlt := h.leases.id b hb w.next (of_decide_eq_true hl)
      exact Nat.lt_irrefl _ hlt
    · simp only [if_neg hid]
      exact h.leases.active id
  refine ⟨h.lists, ⟨h.fences.follows, ?_, ?_, ?_, ?_, ?_⟩, ⟨?_, ?_⟩, ⟨?_, ?_, h.owned.once⟩⟩
  · intro k p hp
    exact placed_fresh (h.fences.placed k p hp) _
  · intro k p hp
    show Fenced w.clears k (if p.id = w.next then _ else w.opened p.id).generation
    rw [if_neg (hfresh (h.fences.placed k p hp))]
    exact h.fences.fenced k p hp
  · intro b hb
    rcases List.mem_cons.1 hb with rfl | hb
    · exact h.fences.generation a List.mem_cons_self
    · exact h.fences.generation b (List.mem_cons_of_mem a hb)
  · intro b hb q hq
    rcases List.mem_cons.1 hb with rfl | hb
    · rcases hq with hq | hq
      · cases hq
        refine ⟨Nat.lt_succ_self _, by simp [World.connect], by simp [World.connect], ?_⟩
        simpa [World.connect] using h.fences.generation a List.mem_cons_self
      · exact placed_fresh (h.fences.carried a List.mem_cons_self q (.inr hq)) _
    · exact placed_fresh (h.fences.carried b (List.mem_cons_of_mem a hb) q hq) _
  · intro b hb q hq c hc hcov hle
    show c.generation ≤ (if q.id = w.next then _ else w.opened q.id).generation
    rcases List.mem_cons.1 hb with rfl | hb
    · rcases hq with hq | hq
      · cases hq
        rw [if_pos rfl]
        exact hle
      · rw [if_neg (hfresh (h.fences.carried a List.mem_cons_self q (.inr hq)))]
        exact h.fences.admitted a List.mem_cons_self q (.inr hq) c hc hcov hle
    · rw [if_neg (hfresh (h.fences.carried b (List.mem_cons_of_mem a hb) q hq))]
      exact h.fences.admitted b (List.mem_cons_of_mem a hb) q hq c hc hcov hle
  · exact leases_handed (PoolState.handed_lease ⟨w.next, sender, now⟩ _) hactive hlease
  · intro b hb id hid
    rcases List.mem_cons.1 hb with rfl | hb
    · cases sender with
      | h1 => cases hid
      | h2 =>
        cases hid
        exact Nat.lt_succ_self _
    · exact Nat.lt_succ_of_lt (h.leases.id b (List.mem_cons_of_mem a hb) id hid)
  · show (({ a with holds := _, lease := _ } :: rest).filterMap Attempt.own).Nodup
    rw [List.filterMap_cons]
    split
    · exact hrest
    · rename_i c hc
      obtain ⟨q, hq, -, rfl⟩ := Attempt.own_eq_some.1 hc
      cases hq
      refine List.nodup_cons.2 ⟨?_, hrest⟩
      intro hmem
      obtain ⟨b, hb, hbown⟩ := List.mem_filterMap.1 hmem
      obtain ⟨x, hx, -, hid⟩ := Attempt.own_eq_some.1 hbown
      exact hfresh (h.fences.carried b (List.mem_cons_of_mem a hb) x (.inl hx)) hid
  · intro b hb c hc k p hp
    rcases List.mem_cons.1 hb with rfl | hb
    · obtain ⟨x, hx, -, rfl⟩ := Attempt.own_eq_some.1 hc
      cases hx
      exact hfresh (h.fences.placed k p hp)
    · exact h.owned.apart b (List.mem_cons_of_mem a hb) c hc k p hp

theorem Inv.finish (h : Inv limits { w with attempts := a :: rest }) (now : Nat) :
    Inv limits { w with streams := a.release w.streams now, attempts := rest } := by
  have hmem : ∀ b ∈ rest, b ∈ a :: rest := fun b hb => List.mem_cons_of_mem a hb
  refine ⟨h.lists, ⟨h.fences.follows, h.fences.placed, h.fences.fenced, fun b hb => h.fences.generation b (hmem b hb),
    fun b hb => h.fences.carried b (hmem b hb), fun b hb => h.fences.admitted b (hmem b hb)⟩,
    ⟨?_, fun b hb => h.leases.id b (hmem b hb)⟩,
    ⟨h.owned.holders.sublist ((List.sublist_cons_self a rest).filterMap _), fun b hb => h.owned.apart b (hmem b hb),
      h.owned.once⟩⟩
  intro id
  have hactive : (w.streams id).active = (a :: rest).countP fun b => b.lease = some id := h.leases.active id
  rw [List.countP_cons] at hactive
  unfold Attempt.release
  cases hl : a.lease with
  | none =>
    simp only [hl] at hactive
    simpa using hactive
  | some c =>
    simp only [hl, Option.some.injEq] at hactive
    unfold Streams.drop
    by_cases hid : id = c
    · subst hid
      simp only [decide_true, if_true] at hactive ⊢
      omega
    · have hne : ¬ c = id := fun h => hid h.symm
      simp only [hne, hid, decide_false, if_false] at hactive ⊢
      simpa using hactive

/-- A new clear, and a pool that holds nothing that it covers. -/
theorem Inv.cleared (h : Inv limits w) {c : Clear} {pool : PoolState} (hsub : pool.Sub w.pool)
    (hfollows : pool.generations.Follows (c :: w.clears))
    (hcurrent : pool.generations.current = w.pool.generations.current + 1)
    (hc : c.generation = w.pool.generations.current + 1) (hno : ∀ k p, pool.Holds k p → ¬ c.Covers k) :
    Inv limits { w with pool := pool, clears := c :: w.clears } := by
  refine ⟨hsub.lists h.lists, ⟨hfollows, ?_, ?_, ?_, h.fences.carried, ?_⟩, ⟨h.leases.active, h.leases.id⟩,
    ⟨h.owned.holders, ?_, ?_⟩⟩
  · intro k p hp
    exact h.fences.placed k p (hsub.holds hp)
  · intro k p hp c' hc' hcov
    rcases List.mem_cons.1 hc' with rfl | hc'
    · exact absurd hcov (hno k p hp)
    · exact h.fences.fenced k p (hsub.holds hp) c' hc' hcov
  · intro b hb
    show b.generation ≤ pool.generations.current
    have hle := h.fences.generation b hb
    omega
  · intro b hb p hp c' hc' hcov hle
    rcases List.mem_cons.1 hc' with rfl | hc'
    · have hgen := h.fences.generation b hb
      omega
    · exact h.fences.admitted b hb p hp c' hc' hcov hle
  · intro b hb x hx k p hp
    exact h.owned.apart b hb x hx k p (hsub.holds hp)
  · intro k p k' p' hp hp'
    exact h.owned.once k p k' p' ((hsub.idle k).subset hp) (hsub.tooEarly k' p' hp')

theorem Inv.clearIsolation (h : Inv limits w) (isolation : Text) :
    Inv limits { w with
      pool := w.pool.clearIsolation isolation
      clears := ⟨w.pool.generations.current + 1, some isolation⟩ :: w.clears } := by
  refine h.cleared (PoolState.sub_clearIsolation isolation) (h.fences.follows.clearIsolation isolation) rfl rfl ?_
  intro k p hp hcov
  have hin : inIsolation k isolation = false := by
    rcases hp with hp | hp
    · exact PoolState.not_inIsolation_of_clearIsolation.1 p hp
    · exact PoolState.not_inIsolation_of_clearIsolation.2 p hp
  rw [hcov isolation rfl] at hin
  cases hin

theorem sub_reordered {state : PoolState} {idle : Table Key (List Pooled)} {tooEarly : Table Key Pooled}
    (hidle : state.idle.Reordered idle) (htooEarly : state.tooEarly.Reordered tooEarly) :
    PoolState.Sub { state with idle := idle, tooEarly := tooEarly } state := by
  refine ⟨?_, ?_, ?_⟩
  · intro k
    unfold Table.listAt
    rw [hidle.get? k]
  · intro k p hp
    exact (htooEarly.get? k).trans hp
  · intro hno k l hl
    exact hno k l ((hidle.get? k).trans hl)

theorem Step.inv {w' : World} (hstep : Step limits w w') (h : Inv limits w) : Inv limits w' := by
  cases hstep with
  | start key generation hgen => exact h.start hgen
  | checkout a rest usable now hperm hholds hlease => exact (h.perm hperm).checkout hholds hlease usable now
  | takeTooEarly a rest usable usable' now hperm hholds hlease =>
    exact (h.perm hperm).takeTooEarly hholds hlease usable usable' now
  | connect a rest sender now hperm _ hlease => exact (h.perm hperm).connect hlease sender now
  | keepTooEarly a rest p now hperm hp => exact (h.perm hperm).keepTooEarly hp now
  | checkin a rest p now hperm hp => exact (h.perm hperm).checkin (.inl hp) (fun q hq => .inr hq) now
  | checkinKept a rest p now hperm hholds hp hsender =>
    have hsame : ({ a with kept := none } : Attempt) = { a with holds := none, kept := none } := by rw [hholds]
    rw [hsame]
    refine (h.perm hperm).checkin (.inr ⟨hp, hsender⟩) ?_ now
    intro q hq
    cases hq
  | finish a rest now hperm => exact (h.perm hperm).finish now
  | evict key id => exact h.sub (PoolState.sub_evict key id) (PoolState.generations_evict key id)
  | sweep usable now => exact h.sub (PoolState.sub_sweep usable now) rfl
  | clear => exact h.cleared PoolState.sub_clear h.fences.follows.clear rfl rfl fun _ _ hp => hp.elim nofun nofun
  | clearIsolation isolation => exact h.clearIsolation isolation
  | reorder idle tooEarly hidle htooEarly => exact h.sub (sub_reordered hidle htooEarly) rfl

theorem inv_start : Inv limits {} where
  lists := ⟨nofun, fun _ => Nat.zero_le _, fun _ => List.nodup_nil⟩
  fences := ⟨Generations.follows_default, fun _ _ hp => hp.elim nofun nofun, fun _ _ hp => hp.elim nofun nofun, nofun, nofun,
    nofun⟩
  leases := ⟨fun _ => rfl, nofun⟩
  owned := ⟨List.nodup_nil, nofun, nofun⟩

/-! ## Every run -/

/-- Opened by an attempt that began after every clear of the key, and after all of them. -/
def OpenedAfterClears (w : World) (k : Key) (p : Pooled) : Prop :=
  Fenced w.clears k (w.opened p.id).generation ∧ Fenced w.clears k (w.opened p.id).current

/-- What is pooled and what is handed out was opened after every clear of its key. -/
structure FencedPool (limits : PoolLimits) (w : World) : Prop where
  holds : ∀ k p, w.pool.Holds k p → OpenedAfterClears w k p
  checkout : ∀ key usable now p lease,
    (w.pool.checkout limits w.streams key usable now).2.2 = some (p, lease) → OpenedAfterClears w key p
  takeTooEarly : ∀ key usable usable' now p lease,
    (w.pool.takeTooEarly limits w.streams key usable usable' now).2.2 = some (p, lease) → OpenedAfterClears w key p

/-- The idle connections are within their bound after a return that is not refused, and after a sweep. -/
structure BoundedPool (limits : PoolLimits) (w : World) : Prop where
  lists : w.pool.Lists limits
  checkin : ∀ key p generation now, w.pool.refuses key p generation = false →
    idleCount w.streams (w.pool.checkin limits w.streams key p generation now).idle ≤ limits.maxIdleTotal
  sweep : ∀ usable now, idleCount w.streams (w.pool.sweep limits w.streams usable now).idle ≤ limits.maxIdleTotal

/-- A shared connection with a lease stays through a return, an eviction over the cap and, while it is live, a sweep. -/
structure KeepsLeased (limits : PoolLimits) (w : World) (k : Key) (p : Pooled) : Prop where
  checkin : ∀ key q generation now, p ∈ (w.pool.checkin limits w.streams key q generation now).idle.listAt k
  evict : ∀ max, p ∈ (evictOverCap w.streams w.pool.idle max).listAt k
  sweep : ∀ usable now, usable p.id = true → p ∈ (w.pool.sweep limits w.streams usable now).idle.listAt k

theorem Inv.fencedPool (h : Inv limits w) : FencedPool limits w := by
  have hall : ∀ k p, w.pool.Holds k p → OpenedAfterClears w k p := by
    intro k p hp
    have hfenced := h.fences.fenced k p hp
    refine ⟨hfenced, ?_⟩
    intro c hc hcov
    exact Nat.le_trans (hfenced c hc hcov) (h.fences.placed k p hp).begun
  refine ⟨hall, ?_, ?_⟩
  · intro key usable now p lease hfound
    obtain ⟨-, -, -, hspec⟩ := PoolState.checkout_spec limits w.streams h.lists.ids key usable now
    rw [hfound] at hspec
    exact hall key p (.inl hspec.1)
  · intro key usable usable' now p lease hfound
    obtain ⟨-, -, -, hspec⟩ := PoolState.takeTooEarly_spec limits w.pool w.streams key usable usable' now
    rw [hfound] at hspec
    exact hall key p (.inr hspec.1)

theorem Inv.boundedPool (h : Inv limits w) : BoundedPool limits w where
  lists := h.lists
  checkin := fun _ _ _ _ hrefuses => (PoolState.checkin_spec h.lists hrefuses).count
  sweep := fun usable now => (PoolState.sweep_spec usable now).1

theorem Inv.keepsLeased (h : Inv limits w) {a : Attempt} (ha : a ∈ w.attempts) {k : Key} {p : Pooled}
    (hlease : a.lease = some p.id) (hp : p ∈ w.pool.idle.listAt k) (hsender : p.sender = .h2) : KeepsLeased limits w k p := by
  have hactive : 0 < (w.streams p.id).active := by
    rw [h.leases.active]
    exact List.countP_pos_iff.2 ⟨a, ha, decide_eq_true hlease⟩
  have hbusy : p.idleStart w.streams = none := by
    unfold Pooled.idleStart
    simp only [hsender]
    exact if_neg (by omega)
  refine ⟨?_, ?_, ?_⟩
  · intro key q generation now
    cases hrefuses : w.pool.refuses key q generation with
    | true =>
      rw [PoolState.checkin_refused hrefuses]
      exact hp
    | false => exact (PoolState.checkin_spec h.lists hrefuses).busy k p hp hbusy
  · intro max
    exact (evictOverCap_spec w.pool.idle max).1.busy k p hp hbusy
  · intro usable now husable
    exact (PoolState.sweep_spec usable now).2 k p hp husable hbusy

/-- **Every run of attempts on a pool**, with clears, evictions and sweeps between them: what is pooled or handed out was
opened after every clear of its key, an HTTP/1.1 connection is held by one attempt or by the pool, the lists and the
idle connections stay within their bounds, and a shared connection with a lease is not evicted. The ticket cache has
the same fence. -/
theorem pool_fenced_bounded (limits : PoolLimits) :
    (∀ w, Reaches (Step limits) {} w →
      FencedPool limits w ∧
      (w.attempts.filterMap Attempt.own).Nodup ∧
      (∀ a ∈ w.attempts, ∀ c, a.own = some c → ∀ k p, w.pool.Holds k p → p.id ≠ c) ∧
      BoundedPool limits w ∧
      ∀ a ∈ w.attempts, ∀ k p, a.lease = some p.id → p ∈ w.pool.idle.listAt k → p.sender = .h2 →
        KeepsLeased limits w k p) ∧
    ∀ s, Reaches TicketCache.Step {} s →
      (∀ k i, s.cache.contexts.get? k = some i → Fenced s.clears k (s.made i)) ∧
      ∀ generation t, (s.cache.context generation t s.next).2 = s.next ∨
        Fenced s.clears t.key (s.made (s.cache.context generation t s.next).2) := by
  constructor
  · intro w hrun
    have h : Inv limits w := hrun.inv (Inv limits) (fun _ _ hstep => hstep.inv) inv_start
    exact ⟨h.fencedPool, h.owned.holders, h.owned.apart, h.boundedPool,
      fun a ha k p hlease hp hsender => h.keepsLeased ha hlease hp hsender⟩
  · intro s hrun
    exact TicketCache.fenced_run hrun

end Step

/-! ## A return that is refused -/

/-- An attempt that begins now. -/
def World.begin (w : World) (key : Key) : Attempt := { key := key, generation := w.pool.generations.current }

/-- An attempt begins, opens a connection and keeps hold of it. -/
def World.opening (w : World) (key : Key) (sender : Sender) : World :=
  { w with attempts := w.begin key :: w.attempts }.connect (w.begin key) w.attempts sender 0

/-- The attempt of a shared connection returns it and ends. -/
def World.returning (w : World) (limits : PoolLimits) (a : Attempt) (rest : List Attempt) (p : Pooled) : World :=
  { w with
    pool := w.pool.checkin limits w.streams a.key p a.generation 0
    streams := a.release w.streams 0
    attempts := rest }

theorem reaches_opening (limits : PoolLimits) (w : World) (key : Key) (sender : Sender) :
    Reaches (Step limits) w (w.opening key sender) :=
  .tail (.single (.start w key w.pool.generations.current (Nat.le_refl _)))
    (.connect _ (w.begin key) w.attempts sender 0 (List.Perm.refl _) rfl rfl)

theorem reaches_returning (limits : PoolLimits) (w : World) {a : Attempt} {rest : List Attempt} {p : Pooled}
    (hattempts : w.attempts = a :: rest) (hp : a.holds = some p) :
    Reaches (Step limits) w (w.returning limits a rest p) :=
  .tail (.single (.checkin w a rest p 0 (List.Perm.of_eq hattempts) hp))
    (.finish _ { a with holds := none } rest 0 (List.Perm.refl _))

def tightLimits : PoolLimits := { maxIdleTotal := 1 }

/-- An attempt on an HTTP/1.1 connection, and a clear after it began. -/
def clearedWorld : World :=
  let w := World.opening {} "b|x".toList .h1
  { w with pool := w.pool.clear, clears := ⟨w.pool.generations.current + 1, none⟩ :: w.clears }

/-- A shared connection is opened, returned while it is busy, and then idle. -/
def sharedWorld (key : Key) (w : World) : World :=
  let w' := w.opening key .h2
  let p : Pooled := ⟨w.next, .h2, 0⟩
  w'.returning tightLimits { w.begin key with holds := some p, lease := some w.next } w.attempts p

/-- Two of them, after the clear. -/
def crowdedWorld : World := sharedWorld "a|y".toList (sharedWorld "a|x".toList clearedWorld)

theorem reaches_crowdedWorld : Reaches (Step tightLimits) {} crowdedWorld := by
  have hshared : ∀ key w, Reaches (Step tightLimits) w (sharedWorld key w) := fun key w =>
    (reaches_opening tightLimits w key .h2).trans (reaches_returning tightLimits (w.opening key .h2) rfl rfl)
  have hcleared : Reaches (Step tightLimits) {} clearedWorld :=
    .tail (reaches_opening tightLimits {} "b|x".toList .h1) (.clear _)
  exact (hcleared.trans (hshared _ _)).trans (hshared _ _)

/-- A sweep leaves one of them idle, and both were opened after the clear. -/
theorem pool_fenced_bounded_crowded :
    idleCount crowdedWorld.streams (crowdedWorld.pool.sweep tightLimits crowdedWorld.streams (fun _ => true) 0).idle ≤ 1 ∧
      OpenedAfterClears crowdedWorld "a|x".toList ⟨1, .h2, 0⟩ ∧ OpenedAfterClears crowdedWorld "a|y".toList ⟨2, .h2, 0⟩ := by
  obtain ⟨hfenced, -, -, hbounded, -⟩ := (pool_fenced_bounded tightLimits).1 crowdedWorld reaches_crowdedWorld
  exact ⟨hbounded.sweep _ _, hfenced.holds _ _ (.inl (by decide)), hfenced.holds _ _ (.inl (by decide))⟩

/-- The return of the connection that was opened before the clear is refused, and leaves more than one idle. -/
theorem refused_return_over_cap :
    ∃ w a p, Reaches (Step tightLimits) {} w ∧ a ∈ w.attempts ∧ a.holds = some p ∧
      tightLimits.maxIdleTotal <
        idleCount w.streams (w.pool.checkin tightLimits w.streams a.key p a.generation 0).idle := by
  refine ⟨crowdedWorld, { key := "b|x".toList, generation := 0, holds := some ⟨0, .h1, 0⟩ }, ⟨0, .h1, 0⟩,
    reaches_crowdedWorld, ?_, rfl, ?_⟩
  · exact List.mem_singleton_self _
  · decide

end Anvil.Transport.Pool
