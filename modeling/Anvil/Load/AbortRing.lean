import Anvil.Load.Ledger

/-!
# The abort rule's window (`anvil-load/src/executor.rs`, `Shared::end_send` and `Shared::abort_triggered`)

`end_send` reads the clock, waits for the ledger, and then pushes its second into a ring that it also prunes, so seconds
are pushed out of order. `abort_triggered` sums the entries of the last seconds.

* `abortSums`, `abortTriggered` : what the rule reads from the ring;
* `WindowState`, `WindowStep` : clock readings, sends and the ledger's other operations, with every finished send in `log`;
  `step_window` : the operations of a run are such steps;
* `Windowed` : from every second that is not before a recorded one the ring and the log look the same;
* `abort_window` : so they do in every run; `abortTriggered_window` : what the rule decides.
-/

namespace Anvil.Load
open Anvil.Lib

/-! ## Reading the ring -/

def abortMinSends : Nat := 10

/-- The finished and the failed sends of the window that ends at second `now`. -/
def abortSums (rule : AbortRule) (now : Nat) (ring : List (Nat × Nat × Nat)) : Nat × Nat :=
  (ring.filter fun e => e.1 + max rule.windowSecs 1 > now).foldl (fun f e => (f.1 + e.2.1, f.2 + e.2.2)) (0, 0)

/-- `abort_triggered` at second `now`: the failed and finished sends that its note gives. -/
def LedgerState.abortTriggered (l : LedgerState) (rule : AbortRule) (now : Nat) : Option (Nat × Nat) :=
  let sums := abortSums rule now l.ring
  if sums.1 ≥ abortMinSends ∧ sums.2 * 1000 > rule.maxFailurePermille * sums.1 then some (sums.2, sums.1) else none

theorem foldl_pair (l : List (Nat × Nat × Nat)) : ∀ a b, l.foldl (fun f e => (f.1 + e.2.1, f.2 + e.2.2)) (a, b) =
    (a + (l.map fun e => e.2.1).sum, b + (l.map fun e => e.2.2).sum) := by
  induction l with
  | nil => intro a b; rfl
  | cons e l ih =>
    intro a b
    rw [List.foldl_cons, ih, List.map_cons, List.map_cons, List.sum_cons, List.sum_cons, Nat.add_assoc, Nat.add_assoc]

/-- One entry's part of the window. -/
def inWindow (rule : AbortRule) (now : Nat) (e : Nat × Nat × Nat) : Nat × Nat :=
  if e.1 + max rule.windowSecs 1 > now then e.2 else (0, 0)

theorem abortSums_append (rule : AbortRule) (now : Nat) (r r' : List (Nat × Nat × Nat)) :
    abortSums rule now (r ++ r') = abortSums rule now r + abortSums rule now r' := by
  unfold abortSums
  rw [List.filter_append, foldl_pair, foldl_pair, foldl_pair]
  simp

theorem abortSums_singleton (rule : AbortRule) (now : Nat) (e : Nat × Nat × Nat) :
    abortSums rule now [e] = inWindow rule now e := by
  unfold abortSums inWindow
  by_cases h : e.1 + max rule.windowSecs 1 > now <;> simp [h]

theorem filter_dropWhile {α : Type} {p q : α → Bool} (h : ∀ a, p a = true → q a = false) (l : List α) :
    (l.dropWhile p).filter q = l.filter q := by
  induction l with
  | nil => rfl
  | cons a l ih =>
    rw [List.dropWhile_cons, List.filter_cons]
    split
    · rename_i hp
      rw [ih, h a hp]
      rfl
    · rw [List.filter_cons]

/-! ## Pushing into the ring -/

/-- A finished send is counted once, whether or not its second is the last one pushed, and what is pruned is in no window
that ends at its second or later. -/
theorem abortSums_pushRing (rule : AbortRule) {sec now : Nat} (h : sec ≤ now) (o : SendObservation)
    (ring : List (Nat × Nat × Nat)) : abortSums rule now (LedgerState.pushRing rule sec o ring) =
      abortSums rule now ring + inWindow rule now (sec, 1, o.isFailure.toNat) := by
  have hprune : ∀ r, abortSums rule now (r.dropWhile fun e => e.1 + max rule.windowSecs 1 < sec) = abortSums rule now r := by
    intro r
    unfold abortSums
    rw [filter_dropWhile]
    intro e he
    have hlt : e.1 + max rule.windowSecs 1 < sec := by simpa using he
    exact decide_eq_false (by omega)
  unfold LedgerState.pushRing
  cases hlast : ring.getLast? with
  | none => rw [hprune, abortSums_append, abortSums_singleton]
  | some e =>
    obtain ⟨init, rfl⟩ := List.getLast?_eq_some_iff.1 hlast
    rw [hprune]
    simp only
    split_ifs with hsec
    · -- the last entry takes the send in
      subst hsec
      rw [List.dropLast_concat, abortSums_append, abortSums_append, abortSums_singleton, abortSums_singleton, add_assoc]
      unfold inWindow
      split_ifs <;> rfl
    · rw [abortSums_append, abortSums_singleton]

/-! ## Runs -/

/-- The ledger with the clock: `reads` are the seconds that ending sends have read while they wait for the ledger, and `log`
has every send that ended, with its second. -/
structure WindowState where
  ledger : LedgerState := {}
  clock : Nat := 0
  reads : List Nat := []
  log : List (Nat × SendObservation) := []

inductive WindowStep (rule : AbortRule) (s : WindowState) : WindowState → Prop
  | advance (clock : Nat) : s.clock ≤ clock → WindowStep rule s { s with clock }
  | read : WindowStep rule s { s with reads := s.clock :: s.reads }
  | endSend {measured : Bool} {bucket sec : Nat} {o : SendObservation} {l : LedgerState} : sec ∈ s.reads →
      s.ledger.endSend (some rule) measured bucket sec o = some l →
      WindowStep rule s { s with ledger := l, reads := s.reads.erase sec, log := s.log ++ [(sec, o)] }
  | other (l : LedgerState) : l.ring = s.ledger.ring → WindowStep rule s { s with ledger := l }

/-- The sends of the log that the rule counts at second `now`. -/
def counts (rule : AbortRule) (now : Nat) (e : Nat × SendObservation) : Bool :=
  decide (e.2.terminal ≠ .canceled) && decide (e.1 + rule.windowSecs > now)

namespace LedgerState

@[simp] theorem ring_setSide (l : LedgerState) (m : Bool) (s : Ledger) : (l.setSide m s).ring = l.ring := by
  cases m <;> rfl

@[simp] theorem ring_notePeak (l : LedgerState) (bucket held peak : Nat) : (l.notePeak bucket held peak).ring = l.ring := by
  unfold notePeak
  split_ifs <;> rfl

/-- Only a send that was not canceled is pushed. -/
theorem ring_endSend {rule : AbortRule} {l l' : LedgerState} {m : Bool} {bucket sec : Nat} {o : SendObservation}
    (h : l.endSend (some rule) m bucket sec o = some l') :
    l'.ring = if o.terminal ≠ .canceled then pushRing rule sec o l.ring else l.ring := by
  unfold endSend at h
  simp only [Option.bind_eq_bind, Option.bind_eq_some_iff] at h
  obtain ⟨n, -, h⟩ := h
  split_ifs at h ⊢
  · rw [← Option.some.inj h]
    simp
  · rw [← Option.some.inj h]
    simp

end LedgerState

/-- The operations of a run are steps of the ring: one ends a send, or the ring stays. -/
theorem step_window {parseUrl : String → Option ParsedUrl} {rule : AbortRule} {r r' : Run}
    (h : Step parseUrl (some rule) r r') : r'.ledger.ring = r.ledger.ring ∨
      ∃ m bucket sec o, r.ledger.endSend (some rule) m bucket sec o = some r'.ledger := by
  cases h with
  | endSend bucket sec out wallUs unit _ hl => exact .inr ⟨_, bucket, sec, _, hl⟩
  | beginSend bucket _ => exact .inl (by simp [LedgerState.beginSend])
  | beginIteration m _ => exact .inl (by simp [LedgerState.beginIteration])
  | arrivalDropped m => exact .inl (by simp [LedgerState.arrivalDropped])
  | endIteration terminal app assertion _ hl =>
    unfold LedgerState.endIteration at hl
    simp only [Option.bind_eq_bind, Option.bind_eq_some_iff, Option.some.injEq] at hl
    obtain ⟨n, -, rfl⟩ := hl
    exact .inl (LedgerState.ring_setSide _ _ _)
  | flush upto => exact .inl rfl
  | abandon i => exact .inl rfl

section Runs
variable {rule : AbortRule} {s t : WindowState}

/-- No reading is ahead of the clock, and from every second that no recorded one is past the ring and the log look the
same. -/
structure Windowed (rule : AbortRule) (s : WindowState) : Prop where
  reads : ∀ sec ∈ s.reads, sec ≤ s.clock
  log : ∀ e ∈ s.log, e.1 ≤ s.clock
  sums : ∀ now, (∀ e ∈ s.log, e.1 ≤ now) → abortSums rule now s.ledger.ring =
    (s.log.countP (counts rule now), s.log.countP fun e => counts rule now e && e.2.isFailure)

theorem Windowed.step (hw : 1 ≤ rule.windowSecs) (hs : Windowed rule s) (h : WindowStep rule s t) : Windowed rule t := by
  cases h with
  | advance clock hclock =>
    exact { hs with
      reads := fun sec hsec => (hs.reads sec hsec).trans hclock
      log := fun e he => (hs.log e he).trans hclock }
  | read => exact { hs with reads := List.forall_mem_cons.2 ⟨le_rfl, hs.reads⟩ }
  | other l hring =>
    refine { hs with sums := fun now hnow => ?_ }
    rw [hring]
    exact hs.sums now hnow
  | @endSend measured bucket sec o l hsec hl =>
    refine ⟨fun x hx => hs.reads x (List.mem_of_mem_erase hx), fun e he => ?_, fun now hnow => ?_⟩
    · rcases List.mem_append.1 he with he | he
      · exact hs.log e he
      · rw [List.mem_singleton.1 he]
        exact hs.reads sec hsec
    · have hold := hs.sums now fun e he => hnow e (List.mem_append_left _ he)
      have hnew : sec ≤ now := hnow (sec, o) (by simp)
      rw [LedgerState.ring_endSend hl, List.countP_append, List.countP_append, List.countP_singleton, List.countP_singleton]
      by_cases hcanceled : o.terminal = .canceled
      · rw [if_neg (not_not.2 hcanceled), hold]
        simp [counts, hcanceled]
      · rw [if_pos hcanceled, abortSums_pushRing rule hnew, hold, inWindow, Nat.max_eq_left hw]
        by_cases hin : sec + rule.windowSecs > now <;> cases o.isFailure <;> simp [counts, hcanceled, hin]

theorem init_windowed : Windowed rule {} where
  reads _ h := by cases h
  log _ h := by cases h
  sums _ _ := rfl

theorem reaches_windowed (hw : 1 ≤ rule.windowSecs) (hr : Reaches (WindowStep rule) {} s) : Windowed rule s :=
  Reaches.inv (Windowed rule) (fun _ _ h hs => hs.step hw h) hr init_windowed

/-- **The rule fires on the sends of its window**: on enough of them, of which too many failed. -/
theorem abortTriggered_window (hw : 1 ≤ rule.windowSecs) (hr : Reaches (WindowStep rule) {} s) {now : Nat}
    (hnow : ∀ e ∈ s.log, e.1 ≤ now) : (s.ledger.abortTriggered rule now).isSome ↔
      abortMinSends ≤ s.log.countP (counts rule now) ∧ rule.maxFailurePermille * s.log.countP (counts rule now) <
        (s.log.countP fun e => counts rule now e && e.2.isFailure) * 1000 := by
  unfold LedgerState.abortTriggered
  rw [(reaches_windowed hw hr).sums now hnow]
  simp only
  split_ifs with h
  · simp only [Option.isSome_some, true_iff]
    exact h
  · simp only [Option.isSome_none, Bool.false_eq_true, false_iff]
    exact h

/-- **In any run of sends that end in any order after they read the clock, a reading of the clock is not before a recorded
second, and from any second that is not, the finished and failed totals of the ring are the sends, and the failed ones,
that were not canceled and whose second is in the window.** -/
theorem abort_window (hw : 1 ≤ rule.windowSecs) (hr : Reaches (WindowStep rule) {} s) :
    (∀ e ∈ s.log, e.1 ≤ s.clock) ∧ ∀ now, (∀ e ∈ s.log, e.1 ≤ now) → abortSums rule now s.ledger.ring =
      (s.log.countP fun e => decide (e.2.terminal ≠ .canceled) && decide (e.1 + rule.windowSecs > now),
        s.log.countP fun e => (decide (e.2.terminal ≠ .canceled) && decide (e.1 + rule.windowSecs > now)) &&
          e.2.isFailure) := by
  have hs := reaches_windowed hw hr
  exact ⟨hs.log, hs.sums⟩

end Runs

/-- A send of second 2 is recorded before one of second 0, which its window no longer holds. -/
theorem abort_window_late : ∃ s, Reaches (WindowStep ⟨100, 2⟩) {} s ∧ s.log.map Prod.fst = [2, 0] ∧
    abortSums ⟨100, 2⟩ 2 s.ledger.ring = (1, 0) := by
  have hread : Reaches (WindowStep ⟨100, 2⟩) {} { clock := 2, reads := [2, 0] } :=
    .tail (.tail (.tail .refl .read) (.advance 2 (by decide))) .read
  have hbegun := (hread.tail (.other (LedgerState.beginSend {} true 0) rfl)).tail
    (.other (LedgerState.beginSend (LedgerState.beginSend {} true 0) true 0) rfl)
  have hfirst := hbegun.tail (@WindowStep.endSend _ _ true 0 2 {} _ (by simp) rfl)
  have hboth := hfirst.tail (@WindowStep.endSend _ _ true 0 0 {} _ (by decide) rfl)
  refine ⟨_, hboth, rfl, ?_⟩
  rw [(abort_window (by decide) hboth).2 2 (by simp)]
  decide

end Anvil.Load
