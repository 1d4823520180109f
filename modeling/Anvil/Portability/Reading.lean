import Mathlib.Data.String.Basic
import Anvil.Lib.Ordered
import Anvil.Portability.Bundle

/-!
# Reading bundle entries (`read_entry` of `anvil-portability/src/bundle.rs`)

An archive answers reads in any way that `Read` allows; sizes are the numbers that the archive declares.

* `Archive`, `Answer` : the table of an archive, and its reader;
* `Stop` : an error, an operation that leaves its machine type, or more reads than are looked at;
* `readLoop`, `readEntry`, `readEntries` : reading one entry, and entries in turn on one budget;
* `readLoop_spec`, `readEntry_spec` : what is kept, charged and returned;
* `Budgeted`, `readEntries_budgeted` : what all entries together take of the budget.
-/

namespace Anvil.Portability
open Anvil.Lib

/-! ## Machine numbers -/

/-- Why a computation stops. -/
inductive Stop
  | refused (e : BundleError)
  /-- An unchecked operation would pass its type or its slice. -/
  | overflow
  /-- The reader was asked as often as is looked at. -/
  | unfinished
deriving DecidableEq, Repr

/-- `checked_add` of `u64` and of `usize`. -/
def checkedAdd (a b : Nat) : Option Nat := if a + b ≤ u64Max then some (a + b) else none

def orRefuse {α : Type} (x : Option α) (e : BundleError) : Except Stop α :=
  match x with
  | some a => .ok a
  | none => .error (.refused e)

def orOverflow {α : Type} (x : Option α) : Except Stop α :=
  match x with
  | some a => .ok a
  | none => .error .overflow

def refused {α : Type} (x : Except BundleError α) : Except Stop α :=
  match x with
  | .ok a => .ok a
  | .error e => .error (.refused e)

/-! ## Archives -/

structure EntryInfo where
  index : Nat
  declared : Nat
  compressed : Nat
  declared_le : declared ≤ u64Max

/-- What a reader answers. -/
inductive Answer
  | bytes (l : List UInt8)
  | interrupted
  | invalidData
  | failed (why : String)

/-- What `by_index_raw` gives. -/
structure RawEntry where
  name : Except String String
  unixMode : Option Nat
  isFile : Bool
  isEnclosed : Bool
  size : Nat
  compressedSize : Nat
  size_le : size ≤ u64Max

/-- An archive as the `zip` crate presents it. A reader gives no more than it is asked for. -/
structure Archive (ρ : Type) where
  directoryStart : Nat
  table : List (Except String RawEntry)
  byIndex : Nat → ρ → Except String ρ
  read : ρ → Nat → Answer × ρ
  reserves : Nat → Bool
  read_le : ∀ r n l, (read r n).1 = .bytes l → l.length ≤ n

/-- The archive's reader and the budget of the code, with what was read, kept and accepted so far, which the code does not
keep. -/
structure Reading (ρ : Type) where
  reader : ρ
  remaining : Nat
  read : List UInt8
  kept : Nat
  accepted : List (List UInt8)

/-! ## One entry -/

def checkEntrySize (limits : ReadLimits) (name : String) (info : EntryInfo) : Except BundleError Unit :=
  let ratio := info.declared / max info.compressed 1
  refuseIf (limits.entry < info.declared ∨ limits.ratio < ratio)
    (.limits ("entry '" ++ name ++ "' declares " ++ toString info.declared ++ " bytes (compression ratio " ++
      toString ratio ++ ")"))

def chunkLen : Nat := 8192

section
variable {ρ : Type} (a : Archive ρ) (limits : ReadLimits) (name : String) (info : EntryInfo) (available : Nat)

/-- `Take::read`: no more than the limit is asked for, and nothing at the limit. -/
def takeRead (limit request : Nat) (r : ρ) : Answer × ρ := if limit = 0 then (.bytes [], r) else a.read r (min request limit)

def overBudget : BundleError := .limits ("entry '" ++ name ++ "' expands beyond the remaining budget")

def wrongSize : BundleError := .invalid ("entry '" ++ name ++ "' inflated size does not match its declared size")

/-- What a read of `n` bytes after `len` leads to: the bytes read so far, and the budget left. -/
def acceptRead (len n remaining : Nat) : Except Stop Nat × Nat :=
  match checkedAdd len n with
  | none => (.error (.refused (.limits "inflated size overflow")), remaining)
  | some actual =>
    if available < actual then (.error (.refused (overBudget name)), remaining)
    else match chargeTotalBytes n remaining with
      | .error e => (.error (.refused e), remaining)
      | .ok remaining =>
        if info.declared < actual ∨ n = 0 ∧ actual ≠ info.declared then (.error (.refused (wrongSize name)), remaining)
        else (.ok actual, remaining)

/-- The loop of `read_entry`, for so many reads; `limit` is what `take` still lets through. -/
def readLoop : Nat → Nat → List UInt8 → Reading ρ → Except Stop (List UInt8) × Reading ρ
  | 0, _, _, s => (.error .unfinished, s)
  | reads + 1, limit, data, s =>
    match (checkedSub info.declared data.length).bind fun n => checkedAdd n 1 with
    | none => (.error (.refused (.limits "read size overflow")), s)
    | some probe =>
      match takeRead a limit (min probe chunkLen) s.reader with
      | (.interrupted, r) => readLoop reads limit data { s with reader := r }
      | (.invalidData, r) =>
        (.error (.refused (if available ≤ info.declared then overBudget name else wrongSize name)), { s with reader := r })
      | (.failed why, r) => (.error (.refused (.io why)), { s with reader := r })
      | (.bytes chunk, r) =>
        -- `take` counts down, and the chunk is cut to what was read
        match checkedSub limit chunk.length, checkedSub chunkLen chunk.length with
        | some limit, some _ =>
          match acceptRead name info available data.length chunk.length s.remaining with
          | (.error e, remaining) => (.error e, { s with reader := r, remaining := remaining, read := s.read ++ chunk })
          | (.ok actual, remaining) =>
            let s := { s with reader := r, remaining := remaining, read := s.read ++ chunk, kept := actual }
            if chunk = [] then (.ok data, s) else readLoop reads limit (data ++ chunk) s
        | _, _ => (.error .overflow, { s with reader := r })

/-- The checks of `read_entry` before it reads: what may be read, the reader's limit, and the reader. -/
def beginEntry (s : Reading ρ) : Except Stop (Nat × Nat × ρ) := do
  refused (checkEntrySize limits name info)
  let available := min s.remaining limits.entry
  let _ ← refused (chargeEntryBytes limits name info.declared s.remaining)
  let bound ← orRefuse (checkedAdd available 1) (.limits "read budget overflow")
  let capacity ← orRefuse (if info.declared ≤ usizeMax then some info.declared else none)
    (.limits "entry does not fit in memory")
  match a.byIndex info.index s.reader with
  | .error why => .error (.refused (.zip why))
  | .ok r => do
    refused (refuseIf (a.reserves capacity = false) (.limits "cannot allocate entry within the budget"))
    return (available, bound, r)

/-- The data of an entry, and its digest. -/
def readEntry (sha256 : List UInt8 → String) (reads : Nat) (s : Reading ρ) : Except Stop (List UInt8 × String) × Reading ρ :=
  match beginEntry a limits name info s with
  | .error e => (.error e, { s with kept := 0 })
  | .ok (available, bound, r) =>
    match readLoop a name info available reads bound [] { s with reader := r, kept := 0 } with
    | (.error e, s) => (.error e, s)
    | (.ok data, s) => (.ok (data, sha256 data), { s with accepted := s.accepted ++ [data] })

end

/-- Entries in turn, each with so many reads; the first that fails ends it. -/
def readEntries {ρ : Type} (a : Archive ρ) (limits : ReadLimits) (sha256 : List UInt8 → String) :
    List (String × EntryInfo × Nat) → Reading ρ →
    Except Stop Unit × Reading ρ
  | [], s => (.ok (), s)
  | (name, info, reads) :: calls, s =>
    match readEntry a limits name info sha256 reads s with
    | (.error e, s) => (.error e, s)
    | (.ok _, s) => readEntries a limits sha256 calls s

/-! ## What a read does -/

/-- The refusals of checked arithmetic. -/
def arithmeticRefusals : List BundleError :=
  [.limits "read budget overflow", .limits "read size overflow", .limits "inflated size overflow",
    .limits "entry does not fit in memory"]

/-- The end is no overflow, neither an unchecked nor a checked one. -/
def InRange {α : Type} (x : Except Stop α) : Prop := x ≠ .error .overflow ∧ ∀ e ∈ arithmeticRefusals, x ≠ .error (.refused e)

theorem inRange_ok {α : Type} (x : α) : InRange (.ok x : Except Stop α) := ⟨by simp, fun _ _ => by simp⟩

theorem inRange_refused {α : Type} {e : BundleError} (h : e ∉ arithmeticRefusals) :
    InRange (.error (.refused e) : Except Stop α) := by
  refine ⟨by simp, fun f hf heq => ?_⟩
  obtain rfl := Stop.refused.inj (Except.error.inj heq)
  exact h hf

theorem InRange.cast {α β : Type} {e : Stop} (h : InRange (.error e : Except Stop α)) : InRange (.error e : Except Stop β) :=
  ⟨fun he => h.1 (congrArg Except.error (Except.error.inj he)),
    fun f hf he => h.2 f hf (congrArg Except.error (Except.error.inj he))⟩

/-- What names the entry is not one of them. -/
theorem entryRefusal_not_mem (t : String) : BundleError.limits ("entry '" ++ t) ∉ arithmeticRefusals := by
  intro h
  have hstart : ∀ e ∈ arithmeticRefusals, ∀ why, e = .limits why → why.toList.take 7 ≠ "entry '".toList := by
    intro e he why heq
    simp only [arithmeticRefusals, List.mem_cons, List.not_mem_nil, or_false] at he
    rcases he with rfl | rfl | rfl | rfl
    all_goals
      obtain rfl := BundleError.limits.inj heq
      decide
  refine hstart _ h _ rfl ?_
  rw [String.toList_append]
  rfl

theorem inRange_overBudget {α : Type} (name : String) : InRange (.error (.refused (overBudget name)) : Except Stop α) := by
  apply inRange_refused
  rw [overBudget, String.append_assoc]
  exact entryRefusal_not_mem _

theorem inRange_wrongSize {α : Type} (name : String) : InRange (.error (.refused (wrongSize name)) : Except Stop α) :=
  inRange_refused (by simp [wrongSize, arithmeticRefusals])

section
variable {ρ : Type} {a : Archive ρ} {limits : ReadLimits} {name : String} {info : EntryInfo} {available : Nat}

theorem takeRead_le {limit request : Nat} {r : ρ} {l : List UInt8} (h : (takeRead a limit request r).1 = .bytes l) :
    l.length ≤ request ∧ l.length ≤ limit := by
  unfold takeRead at h
  split_ifs at h with hlimit
  · obtain rfl := Answer.bytes.inj h
    exact ⟨Nat.zero_le _, Nat.zero_le _⟩
  · have hle := a.read_le _ _ _ h
    omega

/-- What the loop has done to the budget of `s₀`. -/
structure Loop (info : EntryInfo) (available : Nat) {ρ : Type} (s₀ : Reading ρ) (limit : Nat) (data : List UInt8)
    (s : Reading ρ) : Prop where
  kept : s.kept = data.length
  length_le : data.length ≤ info.declared
  remaining : s.remaining + data.length = s₀.remaining
  read : s.read = s₀.read ++ data
  limit : limit + data.length = available + 1
  accepted : s.accepted = s₀.accepted

/-- How a read of an entry ends that began in `s₀`. -/
structure Ended (a : Archive ρ) (info : EntryInfo) (s₀ : Reading ρ) (result : Except Stop (List UInt8))
    (s : Reading ρ) : Prop where
  kept : s.kept ≤ info.declared
  remaining_le : s.remaining ≤ s₀.remaining
  /-- No more is charged than was read. -/
  charged : ∃ more, s.read = s₀.read ++ more ∧ s₀.remaining ≤ s.remaining + more.length ∧ more.length ≤ info.declared + 1
  accepted : s.accepted = s₀.accepted
  inRange : InRange result
  /-- The reader gave what was declared, and then nothing. -/
  ok : ∀ data, result = .ok data → data.length = info.declared ∧ s.read = s₀.read ++ data ∧ s.remaining + info.declared =
    s₀.remaining ∧
    ∃ r n, 0 < n ∧ a.read r n = (.bytes [], s.reader)

/-- A loop that stops where it is. -/
theorem Loop.ended {s₀ s : Reading ρ} {limit : Nat} {data : List UInt8} (h : Loop info available s₀ limit data s) {e : Stop}
    (he : InRange (.error e : Except Stop (List UInt8))) (r : ρ) : Ended a info s₀ (.error e) { s with reader := r } where
  kept := h.kept.trans_le h.length_le
  remaining_le := by
    have hremaining := h.remaining
    dsimp only
    omega
  charged := ⟨data, h.read, h.remaining.ge, Nat.le_succ_of_le h.length_le⟩
  accepted := h.accepted
  inRange := he
  ok := fun _ h => by cases h

theorem checkedAdd_of_le {m n : Nat} (h : m + n ≤ u64Max) : checkedAdd m n = some (m + n) := if_pos h

theorem acceptRead_spec {len n remaining : Nat} (hlen : len ≤ info.declared) (hn : n ≤ info.declared - len + 1)
    (hdeclared : info.declared ≤ available) (havailable : available ≤ remaining + len) (hmax : available + 1 ≤ u64Max) :
    InRange (acceptRead name info available len n remaining).1 ∧
      (acceptRead name info available len n remaining).2 ≤ remaining ∧
      remaining ≤ (acceptRead name info available len n remaining).2 + n ∧
      ∀ actual, (acceptRead name info available len n remaining).1 = .ok actual → actual = len + n ∧ actual ≤ info.declared ∧
        (n = 0 → actual = info.declared) ∧ (acceptRead name info available len n remaining).2 + n = remaining := by
  unfold acceptRead chargeTotalBytes
  rw [checkedAdd_of_le (by omega)]
  dsimp only
  by_cases hover : available < len + n
  · rw [if_pos hover]
    exact ⟨inRange_overBudget name, le_rfl, Nat.le_add_right _ _, by simp⟩
  · have hcharge : n ≤ remaining := by omega
    rw [if_neg hover, if_pos hcharge]
    dsimp only
    split_ifs with hwrong
    · exact ⟨inRange_wrongSize name, Nat.sub_le _ _, by omega, by simp⟩
    · refine ⟨inRange_ok _, Nat.sub_le _ _, by omega, fun actual h => ?_⟩
      obtain rfl := Except.ok.inj h
      omega

theorem readLoop_spec {s₀ : Reading ρ} (hdeclared : info.declared ≤ available) (havailable : available ≤ s₀.remaining)
    (hmax : available + 1 ≤ u64Max) (reads : Nat) :
      ∀ {limit : Nat} {data : List UInt8} {s : Reading ρ}, Loop info available s₀ limit data s →
      Ended a info s₀ (readLoop a name info available reads limit data s).1
        (readLoop a name info available reads limit data s).2 := by
  induction reads with
  | zero => exact fun h => h.ended ⟨by simp, fun _ _ => by simp⟩ _
  | succ reads ih =>
    intro limit data s h
    have hlen := h.length_le
    have hlimit := h.limit
    have hremaining := h.remaining
    have hprobe : ((checkedSub info.declared data.length).bind fun n => checkedAdd n 1) =
        some (info.declared - data.length + 1) := by
      rw [checkedSub_of_le hlen, Option.bind_some, checkedAdd_of_le (by omega)]
    rw [readLoop, hprobe]
    dsimp only
    cases htake : takeRead a limit (min (info.declared - data.length + 1) chunkLen) s.reader with
    | mk answer r =>
    cases answer with
    | interrupted => exact ih { h with }
    | invalidData =>
      dsimp only
      refine h.ended ?_ r
      split_ifs
      exacts [inRange_overBudget name, inRange_wrongSize name]
    | failed why => exact h.ended (inRange_refused (by simp [arithmeticRefusals])) r
    | bytes chunk =>
      obtain ⟨hrequest, hchunk⟩ := takeRead_le (congrArg Prod.fst htake)
      have hprobe : chunk.length ≤ info.declared - data.length + 1 := hrequest.trans (Nat.min_le_left _ _)
      have hbuffer : chunk.length ≤ chunkLen := hrequest.trans (Nat.min_le_right _ _)
      dsimp only
      rw [checkedSub_of_le hchunk, checkedSub_of_le hbuffer]
      dsimp only
      obtain ⟨hrange, hle, hcharged, hok⟩ := @acceptRead_spec name info available _ _ _ hlen hprobe hdeclared
          (havailable.trans hremaining.ge) hmax
      cases haccept : acceptRead name info available data.length chunk.length s.remaining with
      | mk result remaining =>
      rw [haccept] at hrange hle hcharged hok
      have hread : s.read ++ chunk = s₀.read ++ (data ++ chunk) := by rw [h.read, List.append_assoc]
      cases result with
      | error e =>
        refine ⟨h.kept.trans_le hlen, by dsimp only at hle ⊢; omega, ⟨data ++ chunk, hread, ?_, ?_⟩, h.accepted, ?_,
          fun _ h => by cases h⟩
        · rw [List.length_append]
          dsimp only at hcharged ⊢
          omega
        · rw [List.length_append]
          omega
        · exact hrange.cast
      | ok actual =>
        obtain ⟨hactual, hfits, hend, hleft⟩ := hok actual rfl
        dsimp only at hleft ⊢
        split_ifs with hempty
        · subst hempty
          have hend : data.length = info.declared := hactual.symm.trans (hend rfl)
          have hleft : remaining = s.remaining := hleft
          have hread : s.read ++ [] = s₀.read ++ data := (List.append_nil _).trans h.read
          rw [takeRead, if_neg (by omega)] at htake
          refine ⟨hfits, ?_, ⟨data, hread, ?_, by omega⟩, h.accepted, inRange_ok _, fun out hout => ?_⟩
          · dsimp only
            omega
          · dsimp only
            omega
          · obtain rfl := Except.ok.inj hout
            refine ⟨hend, hread, ?_, _, _, ?_, htake⟩
            · dsimp only
              omega
            · exact lt_min (lt_min (Nat.succ_pos _) (by decide)) (by omega)
        · refine ih ⟨hactual.trans (List.length_append).symm, ?_, ?_, hread, ?_, h.accepted⟩
          · rw [List.length_append, ← hactual]
            exact hfits
          · rw [List.length_append]
            dsimp only
            omega
          · rw [List.length_append]
            omega

theorem acceptRead_ok {len n remaining : Nat} : (acceptRead name info available len n remaining).1 ≠ .error .unfinished ∧
    ∀ actual, (acceptRead name info available len n remaining).1 = .ok actual → actual = len + n ∧
      actual ≤ info.declared := by
  unfold acceptRead checkedAdd
  by_cases hmax : len + n ≤ u64Max
  · rw [if_pos hmax]
    dsimp only
    by_cases hover : available < len + n
    · rw [if_pos hover]
      simp
    · rw [if_neg hover]
      cases chargeTotalBytes n remaining with
      | error e => simp
      | ok left =>
        dsimp only
        split_ifs with hwrong
        · simp
        · refine ⟨by simp, fun actual h => ?_⟩
          obtain rfl := Except.ok.inj h
          omega
  · rw [if_neg hmax]
    simp

/-- A reader that is never interrupted is read to its end: every read but the last brings the data on. -/
theorem readLoop_finishes (hread : ∀ r n, (a.read r n).1 ≠ .interrupted) {reads : Nat} :
    ∀ {limit : Nat} {data : List UInt8} {s : Reading ρ},
    info.declared + 2 ≤ reads + data.length → data.length ≤ info.declared →
      (readLoop a name info available reads limit data s).1 ≠ .error .unfinished := by
  induction reads with
  | zero => exact fun hreads hlen => absurd hreads (by omega)
  | succ reads ih =>
    intro limit data s hreads hlen
    rw [readLoop]
    split
    · simp
    · cases htake : takeRead a limit (min _ chunkLen) s.reader with
      | mk answer r =>
      cases answer with
      | interrupted =>
        unfold takeRead at htake
        split_ifs at htake
        · cases htake
        · exact absurd (congrArg Prod.fst htake) (hread _ _)
      | invalidData => simp
      | failed why => simp
      | bytes chunk =>
        dsimp only
        split
        · cases haccept : acceptRead name info available data.length chunk.length s.remaining with
          | mk result remaining =>
          obtain ⟨hstop, hok⟩ := @acceptRead_ok name info available data.length chunk.length s.remaining
          rw [haccept] at hstop hok
          cases result with
          | error e => exact fun h => hstop (congrArg Except.error (Except.error.inj h))
          | ok actual =>
            obtain ⟨hactual, hfits⟩ := hok actual rfl
            dsimp only
            split_ifs with hempty
            · simp
            · have hpos := List.length_pos_of_ne_nil hempty
              exact ih (by rw [List.length_append]; omega) (by rw [List.length_append]; omega)
        · simp

theorem refused_eq_ok {α : Type} {x : Except BundleError α} {b : α} : refused x = .ok b ↔ x = .ok b := by
  cases x <;> simp [refused]

theorem orRefuse_eq_ok {α : Type} {x : Option α} {e : BundleError} {b : α} : orRefuse x e = .ok b ↔ x = some b := by
  cases x <;> simp [orRefuse]

theorem refused_eq_error {α : Type} {x : Except BundleError α} {e : Stop} :
    refused x = .error e ↔ ∃ why, x = .error why ∧ .refused why = e := by
  cases x <;> simp [refused]

theorem orRefuse_eq_error {α : Type} {x : Option α} {e : BundleError} {e' : Stop} :
    orRefuse x e = .error e' ↔ x = none ∧ .refused e = e' := by
  cases x <;> simp [orRefuse]

theorem chargeEntryBytes_error {size remaining : Nat} {why : BundleError}
    (h : chargeEntryBytes limits name size remaining = .error why) :
    why ∉ arithmeticRefusals := by
  unfold chargeEntryBytes chargeTotalBytes at h
  split_ifs at h
  · obtain rfl := Except.error.inj h
    rw [String.append_assoc, String.append_assoc, String.append_assoc]
    exact entryRefusal_not_mem _
  · obtain rfl := Except.error.inj h
    decide

theorem chargeEntryBytes_ok {size remaining left : Nat} (h : chargeEntryBytes limits name size remaining = .ok left) :
    size ≤ limits.entry ∧ size ≤ remaining ∧ left = remaining - size := by
  unfold chargeEntryBytes chargeTotalBytes at h
  split_ifs at h with hentry hfits
  exact ⟨Nat.not_lt.1 hentry, hfits, (Except.ok.inj h).symm⟩

/-- Reading begins with a budget that what the entry declares fits in. -/
theorem beginEntry_ok {s : Reading ρ} {available bound : Nat} {r : ρ}
    (h : beginEntry a limits name info s = .ok (available, bound, r)) :
    info.declared ≤ limits.entry ∧ info.declared ≤ available ∧ available ≤ s.remaining ∧ bound = available + 1 ∧
      bound ≤ u64Max := by
  unfold beginEntry at h
  obtain ⟨_, -, h⟩ := bind_eq_ok.1 h
  obtain ⟨left, hcharge, h⟩ := bind_eq_ok.1 h
  obtain ⟨b, hbound, h⟩ := bind_eq_ok.1 h
  obtain ⟨_, -, h⟩ := bind_eq_ok.1 h
  obtain ⟨hentry, hfits, -⟩ := chargeEntryBytes_ok (refused_eq_ok.1 hcharge)
  replace hbound := orRefuse_eq_ok.1 hbound
  unfold checkedAdd at hbound
  split_ifs at hbound with hmax
  obtain rfl := Option.some.inj hbound
  split at h
  · cases h
  · obtain ⟨_, -, h⟩ := bind_eq_ok.1 h
    obtain ⟨rfl, rfl, -⟩ : _ ∧ _ ∧ _ := by simpa using Except.ok.inj h
    exact ⟨hentry, le_min hfits hentry, Nat.min_le_left _ _, rfl, hmax⟩

/-- Before it reads, the code refuses and does not overflow; nor does its checked arithmetic, where the limit is below the
greatest number. -/
theorem beginEntry_error {s : Reading ρ} {e : Stop} (h : beginEntry a limits name info s = .error e) :
    ∃ why, e = .refused why ∧ (limits.entry < u64Max → why ∉ arithmeticRefusals) := by
  unfold beginEntry at h
  rcases bind_eq_error.1 h with h | ⟨_, -, h⟩
  · obtain ⟨why, hwhy, rfl⟩ := refused_eq_error.1 h
    refine ⟨why, rfl, fun _ => ?_⟩
    unfold checkEntrySize refuseIf at hwhy
    dsimp only at hwhy
    split_ifs at hwhy
    obtain rfl := Except.error.inj hwhy
    rw [String.append_assoc, String.append_assoc, String.append_assoc, String.append_assoc, String.append_assoc]
    exact entryRefusal_not_mem _
  rcases bind_eq_error.1 h with h | ⟨_, -, h⟩
  · obtain ⟨why, hwhy, rfl⟩ := refused_eq_error.1 h
    exact ⟨why, rfl, fun _ => chargeEntryBytes_error hwhy⟩
  rcases bind_eq_error.1 h with h | ⟨_, -, h⟩
  · obtain ⟨hnone, rfl⟩ := orRefuse_eq_error.1 h
    refine ⟨_, rfl, fun hlimits => ?_⟩
    rw [checkedAdd_of_le ((Nat.add_le_add_right (Nat.min_le_right _ _) 1).trans hlimits)] at hnone
    cases hnone
  rcases bind_eq_error.1 h with h | ⟨_, -, h⟩
  · obtain ⟨hnone, rfl⟩ := orRefuse_eq_error.1 h
    rw [if_pos (show info.declared ≤ usizeMax from info.declared_le)] at hnone
    cases hnone
  split at h
  · obtain rfl := Except.error.inj h
    exact ⟨_, rfl, fun _ => by simp [arithmeticRefusals]⟩
  · rcases bind_eq_error.1 h with h | ⟨_, -, h⟩
    · obtain ⟨why, hwhy, rfl⟩ := refused_eq_error.1 h
      refine ⟨why, rfl, fun _ => ?_⟩
      unfold refuseIf at hwhy
      split_ifs at hwhy
      obtain rfl := Except.error.inj hwhy
      decide
    · cases h

/-- How reading one entry ends. -/
structure EntryRead (a : Archive ρ) (limits : ReadLimits) (info : EntryInfo) (s₀ : Reading ρ)
    (result : Except Stop (List UInt8 × String))
    (s : Reading ρ) : Prop where
  kept : s.kept ≤ info.declared
  remaining_le : s.remaining ≤ s₀.remaining
  charged : ∃ more, s.read = s₀.read ++ more ∧ s₀.remaining ≤ s.remaining + more.length ∧ more.length ≤ info.declared + 1
  overflow : result ≠ .error .overflow
  inRange : limits.entry < u64Max → InRange result
  ok : ∀ data digest, result = .ok (data, digest) → data.length = info.declared ∧ info.declared ≤ limits.entry ∧
    s.read = s₀.read ++ data ∧ s.remaining + data.length = s₀.remaining ∧ s.accepted = s₀.accepted ++ [data] ∧
    ∃ r n, 0 < n ∧ a.read r n = (.bytes [], s.reader)
  error : ∀ e, result = .error e → s.accepted = s₀.accepted

theorem readEntry_spec (sha256 : List UInt8 → String) (reads : Nat) (s : Reading ρ) :
    EntryRead a limits info s (readEntry a limits name info sha256 reads s).1
      (readEntry a limits name info sha256 reads s).2 := by
  unfold readEntry
  cases hbegin : beginEntry a limits name info s with
  | error e =>
    obtain ⟨why, rfl, hrange⟩ := beginEntry_error hbegin
    exact ⟨Nat.zero_le _, le_rfl, ⟨[], (List.append_nil _).symm, le_rfl, Nat.zero_le _⟩, by simp,
      fun h => inRange_refused (hrange h),
      fun _ _ h => (by cases h), fun _ _ => rfl⟩
  | ok begun =>
    obtain ⟨available, bound, r⟩ := begun
    obtain ⟨hentry, hdeclared, havailable, rfl, hmax⟩ := beginEntry_ok hbegin
    have hstart : Loop info available s (available + 1) [] { s with reader := r, kept := 0 } :=
      ⟨rfl, Nat.zero_le _, rfl, (List.append_nil _).symm, rfl, rfl⟩
    have hended : Ended a info s (readLoop a name info available reads (available + 1) [] { s with reader := r, kept := 0 }).1
        (readLoop a name info available reads (available + 1) [] { s with reader := r, kept := 0 }).2 :=
      readLoop_spec hdeclared havailable hmax reads hstart
    dsimp only
    cases hloop : readLoop a name info available reads (available + 1) [] { s with reader := r, kept := 0 } with
    | mk result s' =>
    rw [hloop] at hended
    cases result with
    | error e =>
      refine ⟨hended.kept, hended.remaining_le, hended.charged, fun h => ?_, fun _ => hended.inRange.cast,
        fun _ _ h => (by cases h),
        fun _ _ => hended.accepted⟩
      exact hended.inRange.1 (congrArg Except.error (Except.error.inj h))
    | ok data =>
      refine ⟨hended.kept, hended.remaining_le, hended.charged, by simp, fun _ => inRange_ok _, fun data' digest h => ?_,
        fun _ h => by cases h⟩
      obtain ⟨rfl, -⟩ := Prod.mk.inj (Except.ok.inj h)
      obtain ⟨hlength, hread, hremaining, hend⟩ := hended.ok _ rfl
      exact ⟨hlength, hentry, hread, hlength ▸ hremaining, congrArg (· ++ [data]) hended.accepted, hend⟩

/-! ## All entries -/

/-- What was accepted was paid for, and no entry is over the entry limit. -/
structure Budgeted (limits : ReadLimits) (s : Reading ρ) : Prop where
  total : s.remaining + (s.accepted.map List.length).sum ≤ limits.total
  entry : ∀ data ∈ s.accepted, data.length ≤ limits.entry

theorem readEntry_budgeted {sha256 : List UInt8 → String} {reads : Nat} {s : Reading ρ} (h : Budgeted limits s) :
    Budgeted limits (readEntry a limits name info sha256 reads s).2 := by
  have hread := @readEntry_spec ρ a limits name info sha256 reads s
  cases hresult : (readEntry a limits name info sha256 reads s).1 with
  | error e =>
    have haccepted := hread.error e hresult
    exact ⟨by rw [haccepted]; exact (Nat.add_le_add_right hread.remaining_le _).trans h.total,
      by rw [haccepted]; exact h.entry⟩
  | ok out =>
    obtain ⟨data, digest⟩ := out
    obtain ⟨hlength, hentry, -, hremaining, haccepted, -⟩ := hread.ok data digest hresult
    have htotal := h.total
    constructor
    · rw [haccepted, List.map_append, List.sum_append, List.map_singleton, List.sum_singleton]
      omega
    · rw [haccepted]
      exact List.forall_mem_append.2 ⟨h.entry, List.forall_mem_singleton.2 (hlength.trans_le hentry)⟩

theorem readEntries_budgeted {sha256 : List UInt8 → String} {calls : List (String × EntryInfo × Nat)} :
    ∀ {s : Reading ρ}, Budgeted limits s → Budgeted limits (readEntries a limits sha256 calls s).2 := by
  induction calls with
  | nil => exact id
  | cons call calls ih =>
    intro s h
    obtain ⟨name, info, reads⟩ := call
    have hread := @readEntry_budgeted ρ a limits name info sha256 reads s h
    rw [readEntries]
    cases hresult : readEntry a limits name info sha256 reads s with
    | mk result s' =>
    rw [hresult] at hread
    cases result with
    | error e => exact hread
    | ok out => exact ih hread

end

end Anvil.Portability
