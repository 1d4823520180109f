import Anvil.Transport.Fence
import Mathlib.Data.List.MinMax

/-!
# The connection pool (`Pool` of `anvil-transport/src/http.rs`)

Idle HTTP/1.1 connections and shared HTTP/2 connections by key, and per key the one that is kept for the retry after
`425 Too Early`. Instants are natural numbers. What the clones of a connection share is held by its number: its count
of requests in flight in `Streams`, and whether it is usable, which every operation is told.

* `checkout`, `checkin`, `evict`, `takeTooEarly`, `keepTooEarly`, `clear`, `clearIsolation`, `sweep` : as in the source;
* `evictOverCap_spec` : what the eviction leaves, and that it leaves every busy connection;
* `Sub` : a pool that holds no more than another, as after everything but a return.
-/

namespace Anvil.Transport
open Anvil.Lib

inductive Sender where
  | h1
  | h2
deriving DecidableEq

structure Pooled where
  id : Nat
  sender : Sender
  idleSince : Nat
deriving DecidableEq

structure StreamUse where
  active : Nat := 0
  idleSince : Nat := 0

/-- The requests in flight on each connection. -/
abbrev Streams := Nat → StreamUse

structure PoolLimits where
  maxIdlePerKey : Nat := 8
  maxIdleTotal : Nat := 64
  idleTtl : Nat := 90000

/-- In milliseconds, as the limits. -/
def tooEarlyTtl : Nat := 10000

structure PoolState where
  generations : Generations := {}
  idle : Table Key (List Pooled) := .empty
  tooEarly : Table Key Pooled := .empty

/-! ## Leases -/

def Streams.lease (s : Streams) (id : Nat) : Streams :=
  fun i => if i = id then { s i with active := (s i).active + 1 } else s i

/-- The end of a lease. -/
def Streams.drop (s : Streams) (id now : Nat) : Streams :=
  fun i => if i = id then
    let active := (s i).active - 1
    { active := active, idleSince := if active = 0 then now else (s i).idleSince }
  else s i

namespace Pooled

/-- The lease of a request on a shared connection. -/
def lease (p : Pooled) (s : Streams) : Streams × Option Nat :=
  match p.sender with
  | .h1 => (s, none)
  | .h2 => (s.lease p.id, some p.id)

theorem lease_h1 {p : Pooled} (h : p.sender = .h1) (s : Streams) : p.lease s = (s, none) := by
  unfold lease
  rw [h]

theorem lease_h2 {p : Pooled} (h : p.sender = .h2) (s : Streams) : p.lease s = (s.lease p.id, some p.id) := by
  unfold lease
  rw [h]

def idleStart (p : Pooled) (s : Streams) : Option Nat :=
  match p.sender with
  | .h1 => some p.idleSince
  | .h2 => if (s p.id).active = 0 then some (s p.id).idleSince else none

def expired (p : Pooled) (s : Streams) (usable : Nat → Bool) (now ttl : Nat) : Bool :=
  !usable p.id || (p.idleStart s).any fun t => ttl ≤ now - t

end Pooled

/-! ## Eviction -/

section Evict
variable (s : Streams)

/-- The idle connections of a list, with the instant and the index. -/
def idleIndices (list : List Pooled) : List (Nat × Nat) :=
  list.zipIdx.filterMap fun e => (e.1.idleStart s).map (·, e.2)

/-- The index of the longest idle connection of a list. -/
def oldestOf (list : List Pooled) : Option Nat := ((idleIndices s list).argmin (·.1)).map (·.2)

/-- The key and index of the longest idle connection of all. -/
def oldest (idle : Table Key (List Pooled)) : Option (Key × Nat) :=
  ((idle.entries.flatMap fun e => (idleIndices s e.2).map fun x => (x.1, e.1, x.2)).argmin (·.1)).map (·.2)

def idleOf (list : List Pooled) : Nat := list.countP fun p => (p.idleStart s).isSome

/-- The connections that carry no request. -/
def idleCount (idle : Table Key (List Pooled)) : Nat := idle.total (idleOf s)

def removeAt (idle : Table Key (List Pooled)) (key : Key) (i : Nat) : Table Key (List Pooled) :=
  match idle.get? key with
  | some list => idle.putList key (list.eraseIdx i)
  | none => idle

/-- So many rounds of the loop. -/
def evictRounds : Nat → Table Key (List Pooled) → Table Key (List Pooled)
  | 0, idle => idle
  | n + 1, idle =>
    match oldest s idle with
    | none => idle
    | some (key, i) => evictRounds n (removeAt idle key i)

def evictOverCap (idle : Table Key (List Pooled)) (max : Nat) : Table Key (List Pooled) :=
  evictRounds s (idleCount s idle - max) idle

end Evict

/-! ## Operations -/

namespace PoolState
variable (limits : PoolLimits) (state : PoolState) (s : Streams)

def checkout (key : Key) (usable : Nat → Bool) (now : Nat) : PoolState × Streams × Option (Pooled × Option Nat) :=
  match state.idle.get? key with
  | none => (state, s, none)
  | some list =>
    let list := list.filter fun p => !p.expired s usable now limits.idleTtl
    match list.find? fun p => p.sender = .h2 with
    | some p =>
      ({ state with idle := state.idle.putList key list }, (p.lease s).1, some (p, (p.lease s).2))
    | none =>
      ({ state with idle := state.idle.putList key list.dropLast }, s, list.getLast?.map (·, none))

/-- The list of a key without its longest idle connection, where it is full. -/
def withRoom (list : List Pooled) : List Pooled :=
  if limits.maxIdlePerKey ≤ list.length then
    match oldestOf s list with
    | some i => list.eraseIdx i
    | none => list
  else list

def returned (list : List Pooled) (p : Pooled) : List Pooled :=
  let list := withRoom limits s list
  if list.length < limits.maxIdlePerKey then list ++ [p] else list

/-- A return that the fence refuses, or of a connection that is pooled already. -/
def refuses (key : Key) (p : Pooled) (generation : Nat) : Bool :=
  !state.generations.admits generation key || (state.idle.listAt key).any fun x => x.id = p.id

def checkin (key : Key) (p : Pooled) (generation now : Nat) : PoolState :=
  if state.refuses key p generation then state
  else
    let list := returned limits s (state.idle.listAt key) { p with idleSince := now }
    { state with idle := evictOverCap s (state.idle.putList key list) limits.maxIdleTotal }

def evict (key : Key) (id : Nat) : PoolState :=
  match state.idle.get? key with
  | none => state
  | some list => { state with idle := state.idle.putList key (list.filter fun p => p.id ≠ id) }

/-- `usable'` is the second look at the connection. -/
def takeTooEarly (key : Key) (usable usable' : Nat → Bool) (now : Nat) :
    PoolState × Streams × Option (Pooled × Option Nat) :=
  match state.tooEarly.get? key with
  | none => (state, s, none)
  | some p =>
    let state := { state with tooEarly := state.tooEarly.erase key }
    if p.expired s usable now (min limits.idleTtl tooEarlyTtl) || !usable' p.id then (state, s, none)
    else (state, (p.lease s).1, some (p, (p.lease s).2))

def keepTooEarly (key : Key) (p : Pooled) (generation now : Nat) : PoolState :=
  if !state.generations.admits generation key then state
  else { state with tooEarly := state.tooEarly.insert key { p with idleSince := now } }

def clear : PoolState := ⟨state.generations.clear, .empty, .empty⟩

def clearIsolation (isolation : Text) : PoolState where
  generations := state.generations.clearIsolation isolation
  idle := state.idle.retain fun k list => if startsWithIsolation k isolation then none else some list
  tooEarly := state.tooEarly.retain fun k p => if startsWithIsolation k isolation then none else some p

def sweep (usable : Nat → Bool) (now : Nat) : PoolState :=
  let idle := state.idle.retain fun _ list =>
    let list := list.filter fun p => !p.expired s usable now limits.idleTtl
    if list.isEmpty then none else some list
  { state with
    idle := evictOverCap s idle limits.maxIdleTotal
    tooEarly := state.tooEarly.retain fun _ p =>
      if p.expired s usable now (min limits.idleTtl tooEarlyTtl) then none else some p }

end PoolState

/-! ## What the eviction leaves -/

section Evicted
variable {s : Streams}

theorem mem_idleIndices {list : List Pooled} {t i : Nat} :
    (t, i) ∈ idleIndices s list ↔ ∃ p, list[i]? = some p ∧ p.idleStart s = some t := by
  unfold idleIndices
  rw [List.mem_filterMap]
  constructor
  · rintro ⟨⟨p, j⟩, hmem, heq⟩
    obtain ⟨t', ht', hpair⟩ := Option.map_eq_some_iff.1 heq
    cases hpair
    exact ⟨p, List.mem_zipIdx_iff_getElem?.1 hmem, ht'⟩
  · rintro ⟨p, hget, ht⟩
    exact ⟨(p, i), List.mem_zipIdx_iff_getElem?.2 hget, by simp [ht]⟩

/-- The longest idle connection of a list is one of its idle ones. -/
theorem oldestOf_some {list : List Pooled} {i : Nat} (h : oldestOf s list = some i) :
    ∃ p, list[i]? = some p ∧ (p.idleStart s).isSome := by
  obtain ⟨⟨t, j⟩, harg, rfl⟩ := Option.map_eq_some_iff.1 h
  obtain ⟨p, hget, ht⟩ := mem_idleIndices.1 (List.argmin_mem harg)
  exact ⟨p, hget, by rw [ht]; rfl⟩

theorem oldest_some {idle : Table Key (List Pooled)} {key : Key} {i : Nat} (h : oldest s idle = some (key, i)) :
    ∃ list p, idle.get? key = some list ∧ list[i]? = some p ∧ (p.idleStart s).isSome := by
  obtain ⟨⟨t, k, j⟩, harg, hpair⟩ := Option.map_eq_some_iff.1 h
  cases hpair
  obtain ⟨⟨k', list⟩, hentry, hmem⟩ := List.mem_flatMap.1 (List.argmin_mem harg)
  obtain ⟨⟨t', j'⟩, hidle, heq⟩ := List.mem_map.1 hmem
  cases heq
  obtain ⟨p, hget, ht⟩ := mem_idleIndices.1 hidle
  exact ⟨list, p, Table.mem_entries_iff.1 hentry, hget, by rw [ht]; rfl⟩

/-- Where something is idle, something is the longest idle. -/
theorem oldest_ne_none {idle : Table Key (List Pooled)} (h : 0 < idleCount s idle) : oldest s idle ≠ none := by
  unfold oldest
  rw [ne_eq, Option.map_eq_none_iff, List.argmin_eq_none]
  intro hnil
  have hno : ∀ e ∈ idle.entries, idleOf s e.2 = 0 := by
    intro e he
    unfold idleOf
    rw [List.countP_eq_zero]
    intro p hp hidle
    obtain ⟨t, ht⟩ := Option.isSome_iff_exists.1 hidle
    obtain ⟨j, hj⟩ := List.getElem?_of_mem hp
    have hmem : (t, e.1, j) ∈ idle.entries.flatMap fun e => (idleIndices s e.2).map fun x => (x.1, e.1, x.2) :=
      List.mem_flatMap.2 ⟨e, he, List.mem_map.2 ⟨(t, j), mem_idleIndices.2 ⟨p, hj, ht⟩, rfl⟩⟩
    rw [hnil] at hmem
    cases hmem
  unfold idleCount Table.total at h
  rw [List.sum_eq_zero] at h
  · omega
  · intro n hn
    obtain ⟨e, he, rfl⟩ := List.mem_map.1 hn
    exact hno e he

theorem idleOf_eraseIdx {list : List Pooled} {i : Nat} {p : Pooled} (h : list[i]? = some p)
    (hidle : (p.idleStart s).isSome) : idleOf s (list.eraseIdx i) + 1 = idleOf s list := by
  unfold idleOf
  obtain ⟨hlt, rfl⟩ := List.getElem?_eq_some_iff.1 h
  rw [← (List.getElem_cons_eraseIdx_perm hlt).countP_eq, List.countP_cons, if_pos hidle]

theorem mem_eraseIdx_of_ne {list : List Pooled} {i : Nat} {p q : Pooled} (h : list[i]? = some p) (hq : q ∈ list)
    (hne : q ≠ p) : q ∈ list.eraseIdx i := by
  obtain ⟨hlt, rfl⟩ := List.getElem?_eq_some_iff.1 h
  have hmem := (List.getElem_cons_eraseIdx_perm hlt).mem_iff.2 hq
  exact (List.mem_cons.1 hmem).resolve_left hne

/-- One round, on the table that it is given. -/
structure Round (s : Streams) (idle idle' : Table Key (List Pooled)) : Prop where
  sub : ∀ k, (idle'.listAt k).Sublist (idle.listAt k)
  busy : ∀ k, ∀ p ∈ idle.listAt k, p.idleStart s = none → p ∈ idle'.listAt k
  count : idleCount s idle' + 1 = idleCount s idle
  noEmpty : idle.NoEmpty → idle'.NoEmpty

theorem round_removeAt {idle : Table Key (List Pooled)} {key : Key} {i : Nat} (h : oldest s idle = some (key, i)) :
    Round s idle (removeAt idle key i) := by
  obtain ⟨list, p, hget, hp, hidle⟩ := oldest_some h
  have hlist : idle.listAt key = list := Table.listAt_of_get? hget
  have hremove : removeAt idle key i = idle.putList key (list.eraseIdx i) := by
    unfold removeAt
    rw [hget]
  rw [hremove]
  refine ⟨?_, ?_, ?_, ?_⟩
  · intro k
    rw [Table.listAt_putList]
    split_ifs with hk
    · rw [hk, hlist]
      exact List.eraseIdx_sublist list i
    · exact List.Sublist.refl _
  · intro k q hq hbusy
    rw [Table.listAt_putList]
    split_ifs with hk
    · rw [hk, hlist] at hq
      apply mem_eraseIdx_of_ne hp hq
      rintro rfl
      rw [hbusy] at hidle
      cases hidle
    · exact hq
  · have htotal := Table.total_putList (idleOf s) rfl idle key (list.eraseIdx i)
    have hcount := idleOf_eraseIdx hp hidle
    rw [hlist] at htotal
    unfold idleCount
    omega
  · intro hno
    exact hno.putList key _

/-- What any number of rounds leaves. -/
structure Evicted (s : Streams) (idle idle' : Table Key (List Pooled)) : Prop where
  sub : ∀ k, (idle'.listAt k).Sublist (idle.listAt k)
  busy : ∀ k, ∀ p ∈ idle.listAt k, p.idleStart s = none → p ∈ idle'.listAt k
  noEmpty : idle.NoEmpty → idle'.NoEmpty

theorem evicted_rounds (n : Nat) (idle : Table Key (List Pooled)) :
    Evicted s idle (evictRounds s n idle) ∧ idleCount s (evictRounds s n idle) ≤ idleCount s idle - n := by
  induction n generalizing idle with
  | zero => exact ⟨⟨fun _ => List.Sublist.refl _, fun _ _ hp _ => hp, id⟩, Nat.le_refl _⟩
  | succ n ih =>
    unfold evictRounds
    cases h : oldest s idle with
    | none =>
      have hzero : idleCount s idle = 0 := by
        by_contra hne
        exact oldest_ne_none (Nat.pos_of_ne_zero hne) h
      refine ⟨⟨fun _ => List.Sublist.refl _, fun _ _ hp _ => hp, id⟩, ?_⟩
      show idleCount s idle ≤ idleCount s idle - (n + 1)
      omega
    | some e =>
      have hround := round_removeAt h
      obtain ⟨hrest, hcount⟩ := ih (removeAt idle e.1 e.2)
      refine ⟨⟨?_, ?_, ?_⟩, ?_⟩
      · intro k
        exact (hrest.sub k).trans (hround.sub k)
      · intro k p hp hbusy
        exact hrest.busy k p (hround.busy k p hp hbusy) hbusy
      · intro hno
        exact hrest.noEmpty (hround.noEmpty hno)
      · have hone := hround.count
        show idleCount s (evictRounds s n (removeAt idle e.1 e.2)) ≤ idleCount s idle - (n + 1)
        omega

/-- The eviction leaves at most `max` idle connections, and every busy one. -/
theorem evictOverCap_spec (idle : Table Key (List Pooled)) (max : Nat) :
    Evicted s idle (evictOverCap s idle max) ∧ idleCount s (evictOverCap s idle max) ≤ max := by
  obtain ⟨hevicted, hcount⟩ : Evicted s idle (evictOverCap s idle max) ∧
      idleCount s (evictOverCap s idle max) ≤ idleCount s idle - (idleCount s idle - max) := evicted_rounds _ idle
  exact ⟨hevicted, by omega⟩

end Evicted

/-! ## What the operations leave -/

/-- A connection is in the pool under a key. -/
def PoolState.Holds (state : PoolState) (k : Key) (p : Pooled) : Prop :=
  p ∈ state.idle.listAt k ∨ state.tooEarly.get? k = some p

/-- A pool that holds no more than another. -/
structure PoolState.Sub (state' state : PoolState) : Prop where
  idle : ∀ k, (state'.idle.listAt k).Sublist (state.idle.listAt k)
  tooEarly : ∀ k p, state'.tooEarly.get? k = some p → state.tooEarly.get? k = some p
  noEmpty : state.idle.NoEmpty → state'.idle.NoEmpty

/-- The lists of a pool: none is empty or over the bound, and no connection is in one twice. -/
structure PoolState.Lists (limits : PoolLimits) (state : PoolState) : Prop where
  noEmpty : state.idle.NoEmpty
  bounded : ∀ k, (state.idle.listAt k).length ≤ limits.maxIdlePerKey
  ids : ∀ k, ((state.idle.listAt k).map (·.id)).Nodup

namespace PoolState
variable {limits : PoolLimits} {state state' : PoolState} {s : Streams}

theorem Sub.lists (h : state'.Sub state) (hl : state.Lists limits) : state'.Lists limits where
  noEmpty := h.noEmpty hl.noEmpty
  bounded := fun k => Nat.le_trans (h.idle k).length_le (hl.bounded k)
  ids := fun k => (hl.ids k).sublist ((h.idle k).map _)

theorem Sub.holds (h : state'.Sub state) {k : Key} {p : Pooled} (hp : state'.Holds k p) : state.Holds k p :=
  hp.imp (fun hmem => (h.idle k).subset hmem) (h.tooEarly k p)

theorem sub_putList {key : Key} {list : List Pooled} (h : list.Sublist (state.idle.listAt key)) :
    Sub { state with idle := state.idle.putList key list } state where
  idle := by
    intro k
    simp only [Table.listAt_putList]
    split_ifs with hk
    · rw [hk]
      exact h
    · exact List.Sublist.refl _
  tooEarly := fun _ _ h => h
  noEmpty := fun hno => hno.putList key list

theorem Sub.refl : state.Sub state := ⟨fun _ => List.Sublist.refl _, fun _ _ h => h, id⟩

theorem sub_evict (key : Key) (id : Nat) : (state.evict key id).Sub state := by
  unfold evict
  cases hget : state.idle.get? key with
  | none => exact Sub.refl
  | some list =>
    apply sub_putList
    rw [Table.listAt_of_get? hget]
    exact List.filter_sublist

theorem generations_evict (key : Key) (id : Nat) : (state.evict key id).generations = state.generations := by
  unfold evict
  split <;> rfl

theorem sub_clear : state.clear.Sub state := ⟨fun _ => List.nil_sublist _, nofun, fun _ => nofun⟩

theorem listAt_retain {idle : Table Key (List Pooled)} {f : Key → List Pooled → Option (List Pooled)} (k : Key) :
    (idle.retain f).listAt k = ((idle.get? k).bind (f k)).getD [] := by
  unfold Table.listAt
  rw [Table.get?_retain]

theorem sub_clearIsolation (isolation : Text) : (state.clearIsolation isolation).Sub state := by
  refine ⟨?_, ?_, ?_⟩
  · intro k
    unfold clearIsolation
    rw [listAt_retain]
    unfold Table.listAt
    cases state.idle.get? k with
    | none => exact List.Sublist.refl _
    | some list =>
      simp only [Option.bind_some]
      split_ifs
      · exact List.nil_sublist _
      · exact List.Sublist.refl _
  · intro k p hp
    unfold clearIsolation at hp
    rw [Table.get?_retain, Option.bind_eq_some_iff] at hp
    obtain ⟨q, hq, hkeep⟩ := hp
    split_ifs at hkeep
    cases hkeep
    exact hq
  · intro hno k list hk
    unfold clearIsolation at hk
    rw [Table.get?_retain, Option.bind_eq_some_iff] at hk
    obtain ⟨l, hl, hkeep⟩ := hk
    split_ifs at hkeep
    cases hkeep
    exact hno k _ hl

/-- A clear leaves nothing of the isolation. -/
theorem not_inIsolation_of_clearIsolation {isolation : Text} {k : Key} :
    (∀ p, p ∈ (state.clearIsolation isolation).idle.listAt k → inIsolation k isolation = false) ∧
    ∀ p, (state.clearIsolation isolation).tooEarly.get? k = some p → inIsolation k isolation = false := by
  rw [inIsolation_eq]
  constructor
  · intro p hp
    unfold clearIsolation at hp
    rw [listAt_retain] at hp
    by_contra hin
    rw [Bool.not_eq_false] at hin
    simp only [hin, if_true] at hp
    cases hget : state.idle.get? k with
    | _ => simp [hget] at hp
  · intro p hp
    unfold clearIsolation at hp
    rw [Table.get?_retain, Option.bind_eq_some_iff] at hp
    obtain ⟨q, -, hkeep⟩ := hp
    split_ifs at hkeep with hin
    exact Bool.eq_false_iff.2 hin

/-- The lists after the expired ones are gone. -/
theorem listAt_unexpired (p : Pooled → Bool) (idle : Table Key (List Pooled)) (k : Key) :
    (idle.retain fun _ list => if (list.filter p).isEmpty then none else some (list.filter p)).listAt k =
      (idle.listAt k).filter p := by
  rw [listAt_retain]
  unfold Table.listAt
  cases idle.get? k with
  | none => rfl
  | some list =>
    simp only [Option.bind_some, Option.getD_some]
    split_ifs with hempty
    · exact (List.isEmpty_iff.1 hempty).symm
    · rfl

theorem sub_sweep (usable : Nat → Bool) (now : Nat) : (state.sweep limits s usable now).Sub state := by
  have hevicted := (evictOverCap_spec (s := s) (state.idle.retain fun _ list =>
    if (list.filter fun p => !p.expired s usable now limits.idleTtl).isEmpty then none
    else some (list.filter fun p => !p.expired s usable now limits.idleTtl)) limits.maxIdleTotal).1
  refine ⟨?_, ?_, ?_⟩
  · intro k
    refine (hevicted.sub k).trans ?_
    rw [listAt_unexpired]
    exact List.filter_sublist
  · intro k p hp
    unfold sweep at hp
    rw [Table.get?_retain, Option.bind_eq_some_iff] at hp
    obtain ⟨q, hq, hkeep⟩ := hp
    split_ifs at hkeep
    cases hkeep
    exact hq
  · intro _
    apply hevicted.noEmpty
    intro k list hk
    rw [Table.get?_retain, Option.bind_eq_some_iff] at hk
    obtain ⟨l, -, hkeep⟩ := hk
    split_ifs at hkeep with hempty
    cases hkeep
    exact fun h => hempty (List.isEmpty_iff.2 h)

/-- A sweep leaves at most so many idle connections, and every live busy one. -/
theorem sweep_spec (usable : Nat → Bool) (now : Nat) :
    idleCount s (state.sweep limits s usable now).idle ≤ limits.maxIdleTotal ∧
    ∀ k, ∀ p ∈ state.idle.listAt k, usable p.id = true → p.idleStart s = none →
      p ∈ (state.sweep limits s usable now).idle.listAt k := by
  obtain ⟨hevicted, hcount⟩ := evictOverCap_spec (s := s) (state.idle.retain fun _ list =>
    if (list.filter fun p => !p.expired s usable now limits.idleTtl).isEmpty then none
    else some (list.filter fun p => !p.expired s usable now limits.idleTtl)) limits.maxIdleTotal
  refine ⟨hcount, ?_⟩
  intro k p hp husable hbusy
  apply hevicted.busy k p _ hbusy
  rw [listAt_unexpired, List.mem_filter]
  refine ⟨hp, ?_⟩
  unfold Pooled.expired
  rw [husable, hbusy]
  rfl

/-! ### Taking a connection out -/

/-- A connection that an attempt is handed, and what is left: a shared one with a lease, or one that is nowhere in the
list any more. -/
structure Handed (s s' : Streams) (left : List Pooled) (p : Pooled) (lease : Option Nat) : Prop where
  shared : p.sender = .h2 → lease = some p.id ∧ s' = s.lease p.id
  own : p.sender = .h1 → lease = none ∧ s' = s ∧ ∀ q ∈ left, q.id ≠ p.id

theorem handed_lease (p : Pooled) (s : Streams) : Handed s (p.lease s).1 [] p (p.lease s).2 where
  shared := by
    intro h
    rw [Pooled.lease_h2 h]
    exact ⟨rfl, rfl⟩
  own := by
    intro h
    rw [Pooled.lease_h1 h]
    exact ⟨rfl, rfl, nofun⟩

theorem checkout_spec (limits : PoolLimits) (s : Streams) (hids : ∀ k, ((state.idle.listAt k).map (·.id)).Nodup)
    (key : Key) (usable : Nat → Bool) (now : Nat) :
    let r := state.checkout limits s key usable now
    r.1.Sub state ∧ r.1.generations = state.generations ∧ (∀ k, k ≠ key → r.1.idle.listAt k = state.idle.listAt k) ∧
      match r.2.2 with
      | none => r.2.1 = s
      | some (p, lease) => p ∈ state.idle.listAt key ∧ Handed s r.2.1 (r.1.idle.listAt key) p lease := by
  intro r
  unfold r checkout
  cases hget : state.idle.get? key with
  | none => exact ⟨Sub.refl, rfl, fun _ _ => rfl, rfl⟩
  | some list =>
    have hlist : state.idle.listAt key = list := Table.listAt_of_get? hget
    have hfilter : (list.filter fun p => !p.expired s usable now limits.idleTtl).Sublist (state.idle.listAt key) := by
      rw [hlist]
      exact List.filter_sublist
    generalize hlive : (list.filter fun p => !p.expired s usable now limits.idleTtl) = live at hfilter
    have hother : ∀ (l : List Pooled) (k : Key), k ≠ key → (state.idle.putList key l).listAt k = state.idle.listAt k := by
      intro l k hk
      rw [Table.listAt_putList, if_neg hk]
    simp only [hlive]
    cases hfind : live.find? fun p => p.sender = .h2 with
    | some p =>
      have hsender : p.sender = .h2 := by simpa using List.find?_some hfind
      refine ⟨sub_putList hfilter, rfl, hother live, hfilter.subset (List.mem_of_find?_eq_some hfind), ⟨?_, ?_⟩⟩
      · intro _
        simp only [Pooled.lease_h2 hsender]
        exact ⟨trivial, trivial⟩
      · intro h
        rw [hsender] at h
        cases h
    | none =>
      refine ⟨sub_putList ((List.dropLast_sublist live).trans hfilter), rfl, hother live.dropLast, ?_⟩
      cases hlast : live.getLast? with
      | none => rfl
      | some p =>
        have hp : p ∈ live := List.mem_of_getLast? hlast
        refine ⟨hfilter.subset hp, ⟨?_, ?_⟩⟩
        · intro h
          exact absurd (decide_eq_true h) (List.find?_eq_none.1 hfind p hp)
        · intro _
          refine ⟨rfl, rfl, ?_⟩
          intro q hq heq
          have hnodup : (live.map (·.id)).Nodup := (hids key).sublist (hfilter.map _)
          rw [← List.dropLast_append_getLast? p hlast, List.map_append, List.nodup_append] at hnodup
          simp only [Table.listAt_putList, if_true] at hq
          exact hnodup.2.2 _ (List.mem_map_of_mem hq) _ (List.mem_singleton_self _) heq

theorem takeTooEarly_spec (limits : PoolLimits) (state : PoolState) (s : Streams) (key : Key)
    (usable usable' : Nat → Bool) (now : Nat) :
    let r := state.takeTooEarly limits s key usable usable' now
    r.1.Sub state ∧ r.1.generations = state.generations ∧ r.1.idle = state.idle ∧
      match r.2.2 with
      | none => r.2.1 = s
      | some (p, lease) => state.tooEarly.get? key = some p ∧ r.1.tooEarly = state.tooEarly.erase key ∧
          Handed s r.2.1 [] p lease := by
  intro r
  unfold r takeTooEarly
  cases hget : state.tooEarly.get? key with
  | none => exact ⟨Sub.refl, rfl, rfl, rfl⟩
  | some p =>
    have hsub : Sub { state with tooEarly := state.tooEarly.erase key } state := by
      refine ⟨fun _ => List.Sublist.refl _, ?_, id⟩
      intro k q hq
      simp only [Table.get?_erase] at hq
      split_ifs at hq
      exact hq
    simp only
    split_ifs
    · exact ⟨hsub, rfl, rfl, rfl⟩
    · exact ⟨hsub, rfl, rfl, rfl, rfl, handed_lease p s⟩

/-! ### Giving a connection back -/

theorem withRoom_spec (list : List Pooled) :
    (withRoom limits s list).Sublist list ∧ ∀ q ∈ list, q.idleStart s = none → q ∈ withRoom limits s list := by
  unfold withRoom
  split_ifs
  · cases hold : oldestOf s list with
    | none => exact ⟨List.Sublist.refl _, fun _ hq _ => hq⟩
    | some i =>
      refine ⟨List.eraseIdx_sublist list i, ?_⟩
      intro q hq hnone
      obtain ⟨x, hx, hidle⟩ := oldestOf_some hold
      apply mem_eraseIdx_of_ne hx hq
      rintro rfl
      rw [hnone] at hidle
      cases hidle
  · exact ⟨List.Sublist.refl _, fun _ hq _ => hq⟩

theorem returned_spec {list : List Pooled} {p : Pooled} (hlen : list.length ≤ limits.maxIdlePerKey)
    (hids : (list.map (·.id)).Nodup) (hnew : ∀ q ∈ list, q.id ≠ p.id) :
    (returned limits s list p).length ≤ limits.maxIdlePerKey ∧ ((returned limits s list p).map (·.id)).Nodup ∧
      (∀ q ∈ returned limits s list p, q ∈ list ∨ q = p) ∧
      ∀ q ∈ list, q.idleStart s = none → q ∈ returned limits s list p := by
  obtain ⟨hkept, hbusy⟩ : (withRoom limits s list).Sublist list ∧
      ∀ q ∈ list, q.idleStart s = none → q ∈ withRoom limits s list := withRoom_spec list
  have hkeptLen := hkept.length_le
  have hkeptIds : ((withRoom limits s list).map (·.id)).Nodup := hids.sublist (hkept.map _)
  unfold returned
  simp only
  split_ifs with hroom
  · refine ⟨?_, ?_, ?_, ?_⟩
    · rw [List.length_append, List.length_singleton]
      omega
    · rw [List.map_append, List.nodup_append]
      refine ⟨hkeptIds, List.nodup_singleton _, ?_⟩
      intro a ha b hb
      obtain ⟨q, hq, rfl⟩ := List.mem_map.1 ha
      obtain rfl := List.mem_singleton.1 hb
      exact hnew q (hkept.subset hq)
    · intro q hq
      rcases List.mem_append.1 hq with h | h
      · exact .inl (hkept.subset h)
      · exact .inr (List.mem_singleton.1 h)
    · intro q hq hnone
      exact List.mem_append_left _ (hbusy q hq hnone)
  · exact ⟨by omega, hkeptIds, fun q hq => .inl (hkept.subset hq), hbusy⟩

theorem checkin_refused {key : Key} {p : Pooled} {generation now : Nat} (h : state.refuses key p generation = true) :
    state.checkin limits s key p generation now = state := by
  unfold checkin
  rw [if_pos h]

/-- A return that is not refused: the lists stay within the bounds, what they hold was there or is the connection that
is returned, at most so many connections are idle, and every busy one stays. -/
structure CheckedIn (limits : PoolLimits) (s : Streams) (state : PoolState) (key : Key) (p : Pooled) (state' : PoolState) :
    Prop where
  generations : state'.generations = state.generations
  tooEarly : state'.tooEarly = state.tooEarly
  lists : state'.Lists limits
  mem : ∀ k, ∀ q ∈ state'.idle.listAt k, q ∈ state.idle.listAt k ∨ k = key ∧ q = p
  count : idleCount s state'.idle ≤ limits.maxIdleTotal
  busy : ∀ k, ∀ q ∈ state.idle.listAt k, q.idleStart s = none → q ∈ state'.idle.listAt k

theorem checkin_spec (hl : state.Lists limits) {key : Key} {p : Pooled} {generation now : Nat}
    (h : state.refuses key p generation = false) :
    CheckedIn limits s state key { p with idleSince := now } (state.checkin limits s key p generation now) := by
  unfold refuses at h
  rw [Bool.or_eq_false_iff, List.any_eq_false] at h
  have hnew : ∀ q ∈ state.idle.listAt key, q.id ≠ p.id := by
    intro q hq heq
    exact h.2 q hq (decide_eq_true heq)
  have hrefuses : state.refuses key p generation = false := by
    unfold refuses
    rw [Bool.or_eq_false_iff, List.any_eq_false]
    exact h
  obtain ⟨hlen, hids, hmem, hbusy⟩ := returned_spec (s := s) (p := { p with idleSince := now }) (hl.bounded key)
    (hl.ids key) hnew
  have hput := Table.listAt_putList state.idle key
    (l := returned limits s (state.idle.listAt key) { p with idleSince := now })
  obtain ⟨hevicted, hcount⟩ := evictOverCap_spec (s := s)
    (state.idle.putList key (returned limits s (state.idle.listAt key) { p with idleSince := now })) limits.maxIdleTotal
  unfold checkin
  rw [hrefuses, if_neg Bool.false_ne_true]
  refine ⟨rfl, rfl, ⟨?_, ?_, ?_⟩, ?_, hcount, ?_⟩
  · exact hevicted.noEmpty (hl.noEmpty.putList key _)
  · intro k
    refine Nat.le_trans (hevicted.sub k).length_le ?_
    rw [hput]
    split_ifs
    · exact hlen
    · exact hl.bounded k
  · intro k
    refine List.Nodup.sublist ((hevicted.sub k).map _) ?_
    rw [hput]
    split_ifs
    · exact hids
    · exact hl.ids k
  · intro k q hq
    have hq' := (hevicted.sub k).subset hq
    rw [hput] at hq'
    split_ifs at hq' with hk
    · rw [hk]
      exact (hmem q hq').imp_right fun h => ⟨rfl, h⟩
    · exact .inl hq'
  · intro k q hq hnone
    apply hevicted.busy k q _ hnone
    rw [hput]
    split_ifs with hk
    · rw [hk] at hq
      exact hbusy q hq hnone
    · exact hq

end PoolState

end Anvil.Transport
