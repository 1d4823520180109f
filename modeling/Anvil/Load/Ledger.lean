import Anvil.Lib.Run
import Anvil.Load.Observe

/-!
# The iteration and send ledger (`anvil-load/src/executor.rs`, `report.rs`)

`LedgerState` is what the ledger lock protects: a `Ledger` for the measured window and one for the warmup, the
timeline peaks and the window of the abort rule. Every operation runs under that lock, so it is one step; a
decrement of an in-flight counter that would underflow is `none`.

* `checkBalance`, `checkRequestBalance` : the balance laws of a report;
* `Run`, `Step` : slots that run iterations, with every interleaving of their ledger operations and with tasks
  abandoned anywhere;
* `Run.Accounted` : the invariant, and `run_balances` : the laws hold at every moment and no decrement underflows.
-/

namespace Anvil.Load
open Anvil.Lib

structure LoadCounts where
  scheduled : Nat := 0
  started : Nat := 0
  dropped : Nat := 0
  completed : Nat := 0
  transportFailures : Nat := 0
  applicationFailures : Nat := 0
  assertionFailures : Nat := 0
  timeouts : Nat := 0
  canceled : Nat := 0
  inFlightAtEnd : Nat := 0
deriving DecidableEq

structure RequestCounts where
  started : Nat := 0
  completed : Nat := 0
  transportFailures : Nat := 0
  timeouts : Nat := 0
  canceled : Nat := 0
  inFlightAtEnd : Nat := 0
  applicationFailures : Nat := 0
  assertionFailures : Nat := 0
  connectionsOpened : Nat := 0
  connectionsReused : Nat := 0
deriving DecidableEq

structure Ledger where
  counts : LoadCounts := {}
  requests : RequestCounts := {}
  iterInFlight : Nat := 0
  sendInFlight : Nat := 0
deriving DecidableEq

def Ledger.balanced (l : Ledger) : LoadCounts × RequestCounts :=
  ({ l.counts with inFlightAtEnd := l.iterInFlight }, { l.requests with inFlightAtEnd := l.sendInFlight })

def checkBalance (c : LoadCounts) : Except String Unit :=
  if c.scheduled ≠ c.started + c.dropped then
    .error ("scheduled " ++ toString c.scheduled ++ " ≠ started " ++ toString c.started ++ " + dropped " ++
      toString c.dropped)
  else if c.started ≠ c.completed + c.transportFailures + c.timeouts + c.canceled + c.inFlightAtEnd then
    .error ("started " ++ toString c.started ++ " ≠ completed " ++ toString c.completed ++ " + transport failures " ++
      toString c.transportFailures ++ " + timeouts " ++ toString c.timeouts ++ " + canceled " ++
      toString c.canceled ++ " + in flight " ++ toString c.inFlightAtEnd)
  else if c.applicationFailures > c.completed ∨ c.assertionFailures > c.completed then
    .error "application/assertion failures must be subsets of completed"
  else .ok ()

def checkRequestBalance (r : RequestCounts) : Except String Unit :=
  if r.started ≠ r.completed + r.transportFailures + r.timeouts + r.canceled + r.inFlightAtEnd then
    .error ("sends started " ++ toString r.started ++ " ≠ completed " ++ toString r.completed ++
      " + transport failures " ++ toString r.transportFailures ++ " + timeouts " ++ toString r.timeouts ++
      " + canceled " ++ toString r.canceled ++ " + in flight " ++ toString r.inFlightAtEnd)
  else if r.applicationFailures > r.completed ∨ r.assertionFailures > r.completed then
    .error "application/assertion failures must be subsets of completed sends"
  else .ok ()

/-! ## The locked state -/

def maxTimelineBuckets : Nat := 3600

structure AbortRule where
  maxFailurePermille : Nat
  windowSecs : Nat
deriving DecidableEq

/-- `peaks` maps a timeline bucket to its peak of sends in flight; `ring` holds (second, finished, failed). -/
structure LedgerState where
  measured : Ledger := {}
  warmup : Ledger := {}
  peaks : Std.ExtTreeMap Nat Nat := ∅
  lastPeakBucket : Option Nat := none
  ring : List (Nat × Nat × Nat) := []

namespace LedgerState

def side (l : LedgerState) (measured : Bool) : Ledger := if measured then l.measured else l.warmup

/-- The state with one side replaced (`side` is a mutable borrow in the source). -/
def setSide (l : LedgerState) (measured : Bool) (s : Ledger) : LedgerState :=
  if measured then { l with measured := s } else { l with warmup := s }

def sendInFlightTotal (l : LedgerState) : Nat := l.measured.sendInFlight + l.warmup.sendInFlight

/-- `*entry(k).or_default() = max(.., v)`. -/
def raisePeak (peaks : Std.ExtTreeMap Nat Nat) (k v : Nat) : Std.ExtTreeMap Nat Nat :=
  peaks.alter k fun p => some (max (p.getD 0) v)

def notePeak (l : LedgerState) (bucket held peak : Nat) : LedgerState :=
  if bucket ≥ maxTimelineBuckets then l
  else
    let carried := match l.lastPeakBucket with
      | some last => (List.range' (last + 1) (bucket - (last + 1))).foldl (fun ps k => raisePeak ps k held) l.peaks
      | none => l.peaks
    { l with
      peaks := raisePeak carried bucket peak
      lastPeakBucket := some (match l.lastPeakBucket with
        | some last => max last bucket
        | none => bucket) }

def beginIteration (l : LedgerState) (measured : Bool) : LedgerState :=
  let s := l.side measured
  l.setSide measured
    { s with
      counts := { s.counts with scheduled := s.counts.scheduled + 1, started := s.counts.started + 1 }
      iterInFlight := s.iterInFlight + 1 }

def arrivalDropped (l : LedgerState) (measured : Bool) : LedgerState :=
  let s := l.side measured
  l.setSide measured
    { s with counts := { s.counts with scheduled := s.counts.scheduled + 1, dropped := s.counts.dropped + 1 } }

/-- `ledger_begin_send`. -/
def beginSend (l : LedgerState) (measured : Bool) (bucket : Nat) : LedgerState :=
  let held := l.sendInFlightTotal
  let s := l.side measured
  let l := l.setSide measured
    { s with
      requests := { s.requests with started := s.requests.started + 1 }
      sendInFlight := s.sendInFlight + 1 }
  l.notePeak bucket held l.sendInFlightTotal

/-- A finished send in the request counts. -/
def settle (r : RequestCounts) (o : SendObservation) : RequestCounts :=
  let r := match o.terminal with
    | .completed => { r with completed := r.completed + 1 }
    | .transportFailure => { r with transportFailures := r.transportFailures + 1 }
    | .timeout => { r with timeouts := r.timeouts + 1 }
    | .canceled => { r with canceled := r.canceled + 1 }
  { r with
    applicationFailures := r.applicationFailures + o.applicationFailure.toNat
    assertionFailures := r.assertionFailures + o.assertionFailure.toNat
    connectionsOpened := r.connectionsOpened + o.connectionsOpened
    connectionsReused := r.connectionsReused + o.connectionsReused }

/-- The abort rule's window after a send that finished in second `sec`. -/
def pushRing (rule : AbortRule) (sec : Nat) (o : SendObservation) (ring : List (Nat × Nat × Nat)) :
    List (Nat × Nat × Nat) :=
  let pushed := match ring.getLast? with
    | some e =>
      if e.1 = sec then ring.dropLast ++ [(sec, e.2.1 + 1, e.2.2 + o.isFailure.toNat)]
      else ring ++ [(sec, 1, o.isFailure.toNat)]
    | none => ring ++ [(sec, 1, o.isFailure.toNat)]
  pushed.dropWhile fun e => e.1 + max rule.windowSecs 1 < sec

/-- The ledger part of `end_send`, in timeline bucket `bucket` and second `sec`. -/
def endSend (abort : Option AbortRule) (l : LedgerState) (measured : Bool) (bucket sec : Nat)
    (o : SendObservation) : Option LedgerState := do
  let held := l.sendInFlightTotal
  let l := l.notePeak bucket held held
  let s := l.side measured
  let sendInFlight ← checkedSub s.sendInFlight 1
  let l := l.setSide measured { s with sendInFlight, requests := settle s.requests o }
  match abort with
  | some rule => if o.terminal ≠ .canceled then some { l with ring := pushRing rule sec o l.ring } else some l
  | none => some l

def endIteration (l : LedgerState) (measured : Bool) (terminal : Terminal) (app assertion : Bool) : Option LedgerState :=
  do
  let s := l.side measured
  let iterInFlight ← checkedSub s.iterInFlight 1
  let c := s.counts
  let counts := match terminal with
    | .completed =>
      { c with
        completed := c.completed + 1
        applicationFailures := c.applicationFailures + app.toNat
        assertionFailures := c.assertionFailures + assertion.toNat }
    | .transportFailure => { c with transportFailures := c.transportFailures + 1 }
    | .timeout => { c with timeouts := c.timeouts + 1 }
    | .canceled => { c with canceled := c.canceled + 1 }
  some (l.setSide measured { s with iterInFlight, counts })

/-- The ledger part of `flush`: the peaks from bucket `upto` on stay. -/
def keepPeaks (l : LedgerState) (upto : Nat) : LedgerState :=
  { l with peaks := l.peaks.filter fun k _ => k ≥ upto }

end LedgerState

/-! ## Runs -/

/-- What the task of a slot is doing, and for which side. -/
inductive Slot where
  | idle
  | running (measured : Bool)
  | sending (measured : Bool)
deriving DecidableEq

/-- The ledger and the slots of a run. -/
structure Run where
  ledger : LedgerState
  slots : List Slot

/-- `n` idle slots and an empty ledger. -/
def Run.init (n : Nat) : Run := ⟨{}, List.replicate n .idle⟩

/-- One ledger operation, or a task that disappears (its slot is free again, the ledger unchanged). -/
inductive Step (parseUrl : String → Option ParsedUrl) (abort : Option AbortRule) : Run → Run → Prop
  | beginIteration {l slots i} (m : Bool) (h : slots[i]? = some Slot.idle) :
      Step parseUrl abort ⟨l, slots⟩ ⟨l.beginIteration m, slots.set i (.running m)⟩
  | arrivalDropped {l slots} (m : Bool) : Step parseUrl abort ⟨l, slots⟩ ⟨l.arrivalDropped m, slots⟩
  | beginSend {l slots i m} (bucket : Nat) (h : slots[i]? = some (Slot.running m)) :
      Step parseUrl abort ⟨l, slots⟩ ⟨l.beginSend m bucket, slots.set i (.sending m)⟩
  | endSend {l l' slots i m} (bucket sec : Nat) (out : ExecutionOutput) (wallUs : Nat) (unit : StepUnit)
      (h : slots[i]? = some (Slot.sending m))
      (hl : l.endSend abort m bucket sec (observe parseUrl out wallUs unit) = some l') :
      Step parseUrl abort ⟨l, slots⟩ ⟨l', slots.set i (.running m)⟩
  | endIteration {l l' slots i m} (terminal : Terminal) (app assertion : Bool)
      (h : slots[i]? = some (Slot.running m)) (hl : l.endIteration m terminal app assertion = some l') :
      Step parseUrl abort ⟨l, slots⟩ ⟨l', slots.set i .idle⟩
  | flush {l slots} (upto : Nat) : Step parseUrl abort ⟨l, slots⟩ ⟨l.keepPeaks upto, slots⟩
  | abandon {l slots} (i : Nat) : Step parseUrl abort ⟨l, slots⟩ ⟨l, slots.set i .idle⟩

/-! ## The invariant -/

/-- The laws of one side, with `running` iterations and `sending` sends whose task is still there. -/
structure Ledger.Accounted (s : Ledger) (running sending : Nat) : Prop where
  scheduled : s.counts.scheduled = s.counts.started + s.counts.dropped
  iterations : s.counts.started = s.counts.completed + s.counts.transportFailures + s.counts.timeouts +
    s.counts.canceled + s.iterInFlight
  application : s.counts.applicationFailures ≤ s.counts.completed
  assertion : s.counts.assertionFailures ≤ s.counts.completed
  sends : s.requests.started = s.requests.completed + s.requests.transportFailures + s.requests.timeouts +
    s.requests.canceled + s.sendInFlight
  sendApplication : s.requests.applicationFailures ≤ s.requests.completed
  sendAssertion : s.requests.assertionFailures ≤ s.requests.completed
  running : running ≤ s.iterInFlight
  sending : sending ≤ s.sendInFlight

def Slot.inIteration (m : Bool) : Slot → Bool
  | .idle => false
  | .running m' | .sending m' => m' = m

def Slot.inSend (m : Bool) : Slot → Bool
  | .sending m' => m' = m
  | _ => false

/-- Both sides obey the laws, and an in-flight counter covers every task that is still there. -/
def Run.Accounted (r : Run) : Prop :=
  ∀ m, (r.ledger.side m).Accounted (r.slots.countP (Slot.inIteration m)) (r.slots.countP (Slot.inSend m))

theorem Ledger.Accounted.mono {s : Ledger} {a b a' b' : Nat} (h : s.Accounted a b) (ha : a' ≤ a) (hb : b' ≤ b) :
    s.Accounted a' b' :=
  { h with running := ha.trans h.running, sending := hb.trans h.sending }

theorem checkBalance_ok {c : LoadCounts} (h₁ : c.scheduled = c.started + c.dropped)
    (h₂ : c.started = c.completed + c.transportFailures + c.timeouts + c.canceled + c.inFlightAtEnd)
    (h₃ : c.applicationFailures ≤ c.completed) (h₄ : c.assertionFailures ≤ c.completed) :
    checkBalance c = .ok () := by
  unfold checkBalance
  rw [if_neg (not_ne_iff.2 h₁), if_neg (not_ne_iff.2 h₂), if_neg (not_or.2 ⟨not_lt.2 h₃, not_lt.2 h₄⟩)]

theorem checkRequestBalance_ok {r : RequestCounts}
    (h₁ : r.started = r.completed + r.transportFailures + r.timeouts + r.canceled + r.inFlightAtEnd)
    (h₂ : r.applicationFailures ≤ r.completed) (h₃ : r.assertionFailures ≤ r.completed) :
    checkRequestBalance r = .ok () := by
  unfold checkRequestBalance
  rw [if_neg (not_ne_iff.2 h₁), if_neg (not_or.2 ⟨not_lt.2 h₂, not_lt.2 h₃⟩)]

/-! ## What an operation does to a side -/

namespace LedgerState

theorem side_setSide (l : LedgerState) (m m' : Bool) (s : Ledger) :
    (l.setSide m s).side m' = if m' = m then s else l.side m' := by
  cases m <;> cases m' <;> rfl

@[simp] theorem side_notePeak (l : LedgerState) (m : Bool) (bucket held peak : Nat) :
    (l.notePeak bucket held peak).side m = l.side m := by
  unfold notePeak
  split_ifs <;> rfl

theorem side_beginSend (l : LedgerState) (m m' : Bool) (bucket : Nat) :
    (l.beginSend m bucket).side m' = if m' = m then
      { l.side m with
        requests := { (l.side m).requests with started := (l.side m).requests.started + 1 }
        sendInFlight := (l.side m).sendInFlight + 1 }
      else l.side m' := by
  rw [beginSend, side_notePeak, side_setSide]

/-- `end_send` succeeds exactly when its side has a send in flight, and settles that send there. -/
theorem endSend_eq_some {abort : Option AbortRule} {l l' : LedgerState} {m : Bool} {bucket sec : Nat}
    {o : SendObservation} (h : l.endSend abort m bucket sec o = some l') :
    1 ≤ (l.side m).sendInFlight ∧ ∀ m', l'.side m' = if m' = m then
      { l.side m with
        sendInFlight := (l.side m).sendInFlight - 1
        requests := settle (l.side m).requests o }
      else l.side m' := by
  unfold endSend at h
  simp only [side_notePeak, Option.bind_eq_bind, Option.bind_eq_some_iff, checkedSub_eq_some] at h
  obtain ⟨n, ⟨hn, rfl⟩, h⟩ := h
  refine ⟨hn, fun m' => ?_⟩
  have hs : ∀ ring, l' = { (l.notePeak bucket l.sendInFlightTotal l.sendInFlightTotal).setSide m
        { l.side m with
          sendInFlight := (l.side m).sendInFlight - 1
          requests := settle (l.side m).requests o } with ring := ring } →
      l'.side m' = if m' = m then
        { l.side m with
          sendInFlight := (l.side m).sendInFlight - 1
          requests := settle (l.side m).requests o }
        else l.side m' := by
    rintro ring rfl
    cases m <;> cases m' <;> simp [setSide, side, notePeak] <;> split_ifs <;> rfl
  cases abort with
  | none => exact hs _ (Option.some.inj h).symm
  | some rule =>
    simp only at h
    split_ifs at h
    · exact hs _ (Option.some.inj h).symm
    · exact hs _ (Option.some.inj h).symm

theorem endSend_isSome (abort : Option AbortRule) {l : LedgerState} {m : Bool} (bucket sec : Nat)
    (o : SendObservation) (h : 1 ≤ (l.side m).sendInFlight) : (l.endSend abort m bucket sec o).isSome := by
  unfold endSend
  simp only [side_notePeak, checkedSub_of_le h, Option.bind_eq_bind, Option.bind_some]
  cases abort with
  | none => rfl
  | some rule =>
    simp only
    split_ifs <;> rfl

theorem endIteration_isSome {l : LedgerState} {m : Bool} (terminal : Terminal) (app assertion : Bool)
    (h : 1 ≤ (l.side m).iterInFlight) : (l.endIteration m terminal app assertion).isSome := by
  unfold endIteration
  simp only [checkedSub_of_le h, Option.bind_eq_bind, Option.bind_some, Option.isSome_some]

end LedgerState

/-! ## One operation keeps the laws of its side -/

section Operations
variable {s : Ledger} {a b : Nat}

/-- A terminal class adds one to its own counter, and a flag of a completed send is one of a completed send. -/
theorem settle_spec (r : RequestCounts) {o : SendObservation} (ho : FlagsCompleted o) :
    let r' := LedgerState.settle r o
    r'.started = r.started ∧
    r'.completed + r'.transportFailures + r'.timeouts + r'.canceled =
      r.completed + r.transportFailures + r.timeouts + r.canceled + 1 ∧
    (r.applicationFailures ≤ r.completed → r'.applicationFailures ≤ r'.completed) ∧
    (r.assertionFailures ≤ r.completed → r'.assertionFailures ≤ r'.completed) := by
  obtain ⟨h₁, h₂⟩ := ho
  have ha : o.applicationFailure.toNat ≤ 1 := Bool.toNat_le _
  have hb : o.assertionFailure.toNat ≤ 1 := Bool.toNat_le _
  cases ht : o.terminal with
  | completed =>
    simp only [LedgerState.settle, ht]
    refine ⟨trivial, ?_, fun h => ?_, fun h => ?_⟩ <;> omega
  | transportFailure | timeout | canceled =>
    have h₃ : o.applicationFailure = false := by
      cases h : o.applicationFailure
      · rfl
      · exact absurd (ht.symm.trans (h₁ h)) (by decide)
    have h₄ : o.assertionFailure = false := by
      cases h : o.assertionFailure
      · rfl
      · exact absurd (ht.symm.trans (h₂ h)) (by decide)
    simp only [LedgerState.settle, ht, h₃, h₄, Bool.toNat_false]
    refine ⟨trivial, ?_, fun h => ?_, fun h => ?_⟩ <;> omega

theorem Ledger.Accounted.settled (h : s.Accounted a (b + 1)) {o : SendObservation} (ho : FlagsCompleted o) :
    { s with sendInFlight := s.sendInFlight - 1, requests := LedgerState.settle s.requests o : Ledger }.Accounted
      a b := by
  obtain ⟨h₁, h₂, h₃, h₄⟩ := settle_spec s.requests ho
  have hs := h.sends
  have hi := h.sending
  refine { h with sends := ?_, sendApplication := h₃ h.sendApplication, sendAssertion := h₄ h.sendAssertion, sending := ?_ }
  · simp only
    omega
  · show b ≤ s.sendInFlight - 1
    omega

/-- `end_iteration` ends an iteration of its side and keeps the laws there. -/
theorem endIteration_spec {l l' : LedgerState} {m : Bool} {terminal : Terminal} {app assertion : Bool}
    (h : (l.side m).Accounted (a + 1) b) (hl : l.endIteration m terminal app assertion = some l') :
    ∃ s' : Ledger, s'.Accounted a b ∧ l' = l.setSide m s' := by
  unfold LedgerState.endIteration at hl
  simp only [Option.bind_eq_bind, Option.bind_eq_some_iff, checkedSub_eq_some, Option.some.injEq] at hl
  obtain ⟨n, ⟨hn, rfl⟩, rfl⟩ := hl
  refine ⟨_, ?_, rfl⟩
  have h₁ := h.scheduled
  have h₂ := h.iterations
  have h₃ := h.running
  have h₄ := h.application
  have h₅ := h.assertion
  have ha : app.toNat ≤ 1 := Bool.toNat_le _
  have hb : assertion.toNat ≤ 1 := Bool.toNat_le _
  cases terminal <;>
    exact { h with
      scheduled := h₁
      iterations := by simp only; omega
      application := by simp only; omega
      assertion := by simp only; omega
      running := by simp only; omega }

end Operations

/-! ## Every run -/

/-- Replacing one element moves a count by what the two elements count. -/
theorem countP_set_add {α : Type} (p : α → Bool) {l : List α} {i : Nat} {x : α} (h : l[i]? = some x) (y : α) :
    (l.set i y).countP p + (p x).toNat = l.countP p + (p y).toNat := by
  obtain ⟨hi, rfl⟩ := List.getElem?_eq_some_iff.1 h
  rw [List.countP_set hi]
  have hx : p l[i] = true → 0 < l.countP p := fun hp => List.countP_pos_iff.2 ⟨_, List.getElem_mem hi, hp⟩
  cases hp : p l[i] <;> cases hq : p y <;> simp only [hp, Bool.toNat_true, Bool.toNat_false] at hx ⊢ <;> grind

theorem countP_set_idle (p : Slot → Bool) (hp : p .idle = false) (l : List Slot) (i : Nat) :
    (l.set i .idle).countP p ≤ l.countP p := by
  cases hx : l[i]? with
  | none => rw [List.set_eq_of_length_le (List.getElem?_eq_none_iff.1 hx)]
  | some x =>
    have := countP_set_add p hx .idle
    rw [hp] at this
    simp only [Bool.toNat_false] at this
    omega

/-- The side an operation is for obeys the laws with the new counts, the other one as before. -/
theorem Run.Accounted.update {l l' : LedgerState} {slots slots' : List Slot} (h : Run.Accounted ⟨l, slots⟩) {m : Bool}
    {s' : Ledger} (hs : ∀ m', l'.side m' = if m' = m then s' else l.side m')
    (hm : s'.Accounted (slots'.countP (Slot.inIteration m)) (slots'.countP (Slot.inSend m)))
    (hle : ∀ m', m' ≠ m → slots'.countP (Slot.inIteration m') ≤ slots.countP (Slot.inIteration m') ∧
      slots'.countP (Slot.inSend m') ≤ slots.countP (Slot.inSend m')) :
    Run.Accounted ⟨l', slots'⟩ := by
  intro m'
  show (l'.side m').Accounted (slots'.countP (Slot.inIteration m')) (slots'.countP (Slot.inSend m'))
  rw [hs m']
  split_ifs with hm'
  · rw [hm']; exact hm
  · exact (h m').mono (hle m' hm').1 (hle m' hm').2

/-- A slot that goes from `x` to `y`, both for side `m`, changes no count of the other side. -/
theorem countP_other {slots : List Slot} {i : Nat} {x : Slot} (hx : slots[i]? = some x) (y : Slot) {m m' : Bool}
    (hm : m' ≠ m) (hx' : x = .idle ∨ x = .running m ∨ x = .sending m)
    (hy' : y = .idle ∨ y = .running m ∨ y = .sending m) :
    (slots.set i y).countP (Slot.inIteration m') ≤ slots.countP (Slot.inIteration m') ∧
      (slots.set i y).countP (Slot.inSend m') ≤ slots.countP (Slot.inSend m') := by
  have h₁ := countP_set_add (Slot.inIteration m') hx y
  have h₂ := countP_set_add (Slot.inSend m') hx y
  have hmm : ¬m = m' := fun e => hm e.symm
  rcases hx' with rfl | rfl | rfl <;> rcases hy' with rfl | rfl | rfl <;>
    simp [Slot.inIteration, Slot.inSend, hmm] at h₁ h₂ <;> omega

variable {parseUrl : String → Option ParsedUrl} {abort : Option AbortRule}

theorem Step.accounted {r r' : Run} (hstep : Step parseUrl abort r r') (h : r.Accounted) : r'.Accounted := by
  cases hstep with
  | @beginIteration l slots i m hi =>
    refine h.update (l.side_setSide m · _) ?_ fun m' hm => countP_other hi _ hm (.inl rfl) (.inr (.inl rfl))
    have h₁ := countP_set_add (Slot.inIteration m) hi (.running m)
    have h₂ := countP_set_add (Slot.inSend m) hi (.running m)
    simp only [Slot.inIteration, Slot.inSend, decide_true, Bool.toNat_true, Bool.toNat_false] at h₁ h₂
    have hm : (l.side m).Accounted (slots.countP (Slot.inIteration m)) (slots.countP (Slot.inSend m)) := h m
    refine { hm with scheduled := ?_, iterations := ?_, running := ?_, sending := ?_ }
    · have := hm.scheduled; simp only; omega
    · have := hm.iterations; simp only; omega
    · have := hm.running; simp only at this ⊢; omega
    · have := hm.sending; simp only at this ⊢; omega
  | @arrivalDropped l slots m =>
    refine h.update (l.side_setSide m · _) ?_ fun m' _ => ⟨le_rfl, le_rfl⟩
    have hm : (l.side m).Accounted (slots.countP (Slot.inIteration m)) (slots.countP (Slot.inSend m)) := h m
    refine { hm with scheduled := ?_ }
    have := hm.scheduled
    simp only
    omega
  | @beginSend l slots i m bucket hi =>
    refine h.update (l.side_beginSend m · bucket) ?_ fun m' hm =>
      countP_other hi _ hm (.inr (.inl rfl)) (.inr (.inr rfl))
    have h₁ := countP_set_add (Slot.inIteration m) hi (.sending m)
    have h₂ := countP_set_add (Slot.inSend m) hi (.sending m)
    simp only [Slot.inIteration, Slot.inSend, decide_true, Bool.toNat_true, Bool.toNat_false] at h₁ h₂
    have hm : (l.side m).Accounted (slots.countP (Slot.inIteration m)) (slots.countP (Slot.inSend m)) := h m
    refine { hm with sends := ?_, running := ?_, sending := ?_ }
    · have := hm.sends; simp only; omega
    · have := hm.running; simp only at this ⊢; omega
    · have := hm.sending; simp only at this ⊢; omega
  | @endSend l l' slots i m bucket sec out wallUs unit hi hl =>
    refine h.update (LedgerState.endSend_eq_some hl).2 ?_ fun m' hm =>
      countP_other hi _ hm (.inr (.inr rfl)) (.inr (.inl rfl))
    have h₁ := countP_set_add (Slot.inIteration m) hi (.running m)
    have h₂ := countP_set_add (Slot.inSend m) hi (.running m)
    simp only [Slot.inIteration, Slot.inSend, decide_true, Bool.toNat_true, Bool.toNat_false] at h₁ h₂
    have hm := (h m).mono (by simp only; omega : (slots.set i (.running m)).countP (Slot.inIteration m) ≤ _)
      (by simp only; omega : (slots.set i (.running m)).countP (Slot.inSend m) + 1 ≤ _)
    exact hm.settled (observe_flags parseUrl out wallUs unit)
  | @endIteration l l' slots i m terminal app assertion hi hl =>
    have h₁ := countP_set_add (Slot.inIteration m) hi .idle
    have h₂ := countP_set_add (Slot.inSend m) hi .idle
    simp only [Slot.inIteration, Slot.inSend, decide_true, Bool.toNat_true, Bool.toNat_false] at h₁ h₂
    have hm := (h m).mono (by simp only; omega : (slots.set i .idle).countP (Slot.inIteration m) + 1 ≤ _)
      (by simp only; omega : (slots.set i .idle).countP (Slot.inSend m) ≤ _)
    obtain ⟨s', hs', rfl⟩ := endIteration_spec hm hl
    exact h.update (l.side_setSide m · _) hs' fun m' hm => countP_other hi _ hm (.inr (.inl rfl)) (.inl rfl)
  | flush upto => exact h
  | @abandon l slots i =>
    intro m
    exact (h m).mono (countP_set_idle _ rfl slots i) (countP_set_idle _ rfl slots i)

theorem Run.init_accounted (n : Nat) : (Run.init n).Accounted := by
  intro m
  have hs : (Run.init n).ledger.side m = {} := by cases m <;> rfl
  have h₁ : (Run.init n).slots.countP (Slot.inIteration m) = 0 := by
    simp [Run.init, List.countP_replicate, Slot.inIteration]
  have h₂ : (Run.init n).slots.countP (Slot.inSend m) = 0 := by
    simp [Run.init, List.countP_replicate, Slot.inSend]
  rw [hs, h₁, h₂]
  constructor <;> exact (by decide)

/-- **At every moment of every interleaving the measured side passes both balance checks, and every decrement a
slot can make is defined.** -/
theorem run_balances {n : Nat} {r : Run} (hr : Reaches (Step parseUrl abort) (Run.init n) r) :
    checkBalance r.ledger.measured.balanced.1 = .ok () ∧
    checkRequestBalance r.ledger.measured.balanced.2 = .ok () ∧
    (∀ (i : Nat) m, r.slots[i]? = some (Slot.sending m) → ∀ bucket sec o, (r.ledger.endSend abort m bucket sec o).isSome) ∧
    (∀ (i : Nat) m, r.slots[i]? = some (Slot.running m) →
      ∀ terminal app assertion, (r.ledger.endIteration m terminal app assertion).isSome) := by
  have h : r.Accounted := Reaches.inv Run.Accounted (fun _ _ => Step.accounted) hr (Run.init_accounted n)
  have hm : r.ledger.measured.Accounted _ _ := h true
  refine ⟨checkBalance_ok hm.scheduled hm.iterations hm.application hm.assertion,
    checkRequestBalance_ok hm.sends hm.sendApplication hm.sendAssertion, fun i m hi bucket sec o => ?_,
    fun i m hi terminal app assertion => ?_⟩
  · have hpos : 0 < r.slots.countP (Slot.inSend m) :=
      List.countP_pos_iff.2 ⟨_, List.mem_of_getElem? hi, by simp [Slot.inSend]⟩
    exact LedgerState.endSend_isSome abort bucket sec o (le_trans hpos (h m).sending)
  · have hpos : 0 < r.slots.countP (Slot.inIteration m) :=
      List.countP_pos_iff.2 ⟨_, List.mem_of_getElem? hi, by simp [Slot.inIteration]⟩
    exact LedgerState.endIteration_isSome terminal app assertion (le_trans hpos (h m).running)

/-- One slot in the middle of its first measured send. -/
theorem run_balances_sending : ∃ r, Reaches (Step (fun _ => none) none) (Run.init 1) r ∧
    r.slots = [Slot.sending true] ∧ r.ledger.measured.balanced.2 = { started := 1, inFlightAtEnd := 1 } ∧
    checkRequestBalance r.ledger.measured.balanced.2 = .ok () ∧
    ∀ bucket sec o, (r.ledger.endSend none true bucket sec o).isSome := by
  have h₁ : Step (fun _ => none) none (Run.init 1) ⟨LedgerState.beginIteration {} true, [Slot.running true]⟩ :=
    Step.beginIteration (i := 0) true rfl
  have h₂ : Step (fun _ => none) none ⟨LedgerState.beginIteration {} true, [Slot.running true]⟩
      ⟨(LedgerState.beginIteration {} true).beginSend true 0, [Slot.sending true]⟩ :=
    Step.beginSend (i := 0) 0 rfl
  have hr : Reaches (Step (fun _ => none) none) (Run.init 1) _ := .tail (.tail .refl h₁) h₂
  have h := run_balances hr
  exact ⟨_, hr, rfl, rfl, h.2.1, h.2.2.1 0 true rfl⟩

end Anvil.Load
