import Anvil.Lib.Slices
import Anvil.Portability.Reading

/-!
# The directory of a bundle (`anvil-portability/src/bundle.rs`)

The bytes of a file, of which there are no more than a slice may have.

* `checkEndRecord`, `endRecordProblem` : the end records from the last one back;
* `checkHeader`, `walkDirectory`, `checkDirectory` : the central headers;
* `preflight` : the table of an archive and its sizes;
* `openArchive` : the preflight, and the entries that are read after it;
* `reads_in_budget` : no run of these overflows, and no more is accepted than the budgets allow.
-/

namespace Anvil.Portability
open Anvil.Lib

/-! ## Numbers in bytes -/

def addU64 (m n : Nat) : Except Stop Nat := orOverflow (checkedAdd m n)

def byteAt (l : List UInt8) (i : Nat) : Except Stop Nat := orOverflow (l[i]?.map UInt8.toNat)

def u16At (l : List UInt8) (i : Nat) : Except Stop Nat := do
  let low ← byteAt l i
  let high ← byteAt l (i + 1)
  return low + 256 * high

def u32At (l : List UInt8) (i : Nat) : Except Stop Nat := do
  let low ← u16At l i
  let high ← u16At l (i + 2)
  return low + 65536 * high

/-! ## End records -/

def endSignature : List UInt8 := [0x50, 0x4B, 0x05, 0x06]

def locatorSignature : List UInt8 := [0x50, 0x4B, 0x06, 0x07]

def maxDirectoryHeaderBytes : Nat := 46 + 255 + 4096

/-- What an end record leads to: on to the one before it, or a refusal. -/
inductive RecordCheck
  | passed (last : Bool)
  | problem (e : BundleError)

def directoryProblem (limits : ReadLimits) (declared size : Nat) : BundleError :=
  .limits (toString declared ++ " entries in a " ++ toString size ++ "-byte central directory (max " ++
    toString limits.entries ++ " entries)")

/-- The last record declares what the file may have. -/
def checkLastRecord (limits : ReadLimits) (start declared size : Nat) : Except Stop RecordCheck :=
  if limits.entries < declared ∨ start < size then .ok (.problem (directoryProblem limits declared size))
  else do
    let fits ← orOverflow (if declared * maxDirectoryHeaderBytes ≤
      u64Max then some (declared * maxDirectoryHeaderBytes) else none)
    return if fits < size then .problem (directoryProblem limits declared size) else .passed false

/-- The ZIP64 locator stands before the record. -/
def hasLocator (bytes : List UInt8) (start : Nat) : Except Stop Bool :=
  if 20 ≤ start then do
    let place ← orOverflow (checkedSub start 20)
    return locatorSignature.isPrefixOf (bytes.drop place)
  else .ok false

def checkEndRecord (bytes : List UInt8) (limits : ReadLimits) (last : Bool) (start : Nat) : Except Stop RecordCheck := do
  let stop ← addU64 start 22
  match slice? bytes start stop with
  | none => return .passed last
  | some record => do
    let comment ← u16At record 20
    let stop ← addU64 stop comment
    if bytes.length < stop then return .passed last
    else do
      let onDisk ← u16At record 8
      let entries ← u16At record 10
      let size ← u32At record 12
      let offset ← u32At record 16
      let zip64 := entries = 0xFFFF ∨ size = 0xFFFFFFFF ∨ offset = 0xFFFFFFFF
      let located ← if zip64 then hasLocator bytes start else .ok false
      if located then return .problem (.limits "ZIP64 archives are not supported")
      else if last then checkLastRecord limits start (max onDisk entries) size
      else return .passed false

/-- The loop of `end_record_problem`: the records before `stop`. -/
def endRecordScan (bytes : List UInt8) (limits : ReadLimits) (last : Bool) (stop : Nat) :
    Except Stop (Option (Nat × BundleError)) :=
  if _hstop : stop ≤ bytes.length then
    match _hat : rposition endSignature (bytes.take stop) with
    | none => .ok none
    | some start =>
      if start + 3 ≤ usizeMax then
        match checkEndRecord bytes limits last start with
        | .error e => .error e
        | .ok (.problem e) => .ok (some (start, e))
        | .ok (.passed last) => endRecordScan bytes limits last (start + 3)
      else .error .overflow
  else .error .overflow
termination_by stop
decreasing_by
  have hle := rposition_le _hat
  rw [List.length_take, Nat.min_eq_left _hstop] at hle
  have hlen : endSignature.length = 4 := rfl
  omega

def endRecordProblem (bytes : List UInt8) (limits : ReadLimits) : Except Stop (Option (Nat × BundleError)) :=
  endRecordScan bytes limits true bytes.length

/-! ## The central directory -/

def centralSignature : List UInt8 := [0x50, 0x4B, 0x01, 0x02]

def invalidDirectory : BundleError := .notABundle "invalid central directory"

def lossyName (name : List UInt8) : String := String.ofList (fromUtf8Lossy name)

/-- One round of the loop of `check_directory`: where the next header starts, the names so far and their count. -/
def checkHeader (bytes : List UInt8) (limits : ReadLimits) (offset : Nat) (names : List (List UInt8)) (count : Nat) :
    Except Stop (Nat × List (List UInt8) × Nat) := do
  let headerEnd ← orRefuse (checkedAdd offset 46) invalidDirectory
  let header ← orRefuse (slice? bytes offset headerEnd) invalidDirectory
  let nameLength ← u16At header 28
  let nameEnd ← orRefuse (checkedAdd headerEnd nameLength) invalidDirectory
  let extra ← u16At header 30
  let comment ← u16At header 32
  let stop ← orRefuse ((checkedAdd nameEnd extra).bind fun n => checkedAdd n comment) invalidDirectory
  let name ← orRefuse (slice? bytes headerEnd nameEnd) invalidDirectory
  let _ ← orRefuse (slice? bytes nameEnd stop) invalidDirectory
  let count ← orRefuse (checkedAdd count 1) invalidDirectory
  refused (refuseIf (limits.entries < count) (.limits (toString count ++ " entries (max " ++ toString limits.entries ++ ")")))
  refused (refuseIf (name ∈ names) (.unsafeEntry (lossyName name) "duplicate entry"))
  let external ← u32At header 38
  let fileType := Nat.land (external / 65536) 0o170000
  refused (refuseIf (fileType ≠ 0 ∧ fileType ≠ 0o100000) (.unsafeEntry (lossyName name) "only regular files are allowed"))
  return (stop, name :: names, count)

/-- A header lies within the file, and the next one after it. -/
theorem checkHeader_ok {bytes : List UInt8} {limits : ReadLimits} {offset count stop count' : Nat}
    {names names' : List (List UInt8)}
    (h : checkHeader bytes limits offset names count = .ok (stop, names', count')) :
    offset + 46 ≤ stop ∧ stop ≤ bytes.length ∧ count' = count + 1 := by
  unfold checkHeader at h
  obtain ⟨headerEnd, hheaderEnd, h⟩ := bind_eq_ok.1 h
  obtain ⟨header, hheader, h⟩ := bind_eq_ok.1 h
  obtain ⟨nameLength, -, h⟩ := bind_eq_ok.1 h
  obtain ⟨nameEnd, hnameEnd, h⟩ := bind_eq_ok.1 h
  obtain ⟨extra, -, h⟩ := bind_eq_ok.1 h
  obtain ⟨comment, -, h⟩ := bind_eq_ok.1 h
  obtain ⟨stop', hstop, h⟩ := bind_eq_ok.1 h
  obtain ⟨name, -, h⟩ := bind_eq_ok.1 h
  obtain ⟨rest, hrest, h⟩ := bind_eq_ok.1 h
  obtain ⟨n, hcount, h⟩ := bind_eq_ok.1 h
  obtain ⟨_, -, h⟩ := bind_eq_ok.1 h
  obtain ⟨_, -, h⟩ := bind_eq_ok.1 h
  obtain ⟨_, -, h⟩ := bind_eq_ok.1 h
  obtain ⟨_, -, h⟩ := bind_eq_ok.1 h
  obtain ⟨rfl, -, rfl⟩ : stop' = stop ∧ name :: names = names' ∧ n = count' := by simpa using Except.ok.inj h
  have hadd : ∀ {k m c : Nat}, checkedAdd k m = some c → c = k + m := by
    intro k m c hc
    unfold checkedAdd at hc
    split_ifs at hc
    exact (Option.some.inj hc).symm
  obtain ⟨n, hn, hstop⟩ := Option.bind_eq_some_iff.1 (orRefuse_eq_ok.1 hstop)
  have hheaderEnd := hadd (orRefuse_eq_ok.1 hheaderEnd)
  have hnameEnd := hadd (orRefuse_eq_ok.1 hnameEnd)
  have hcount := hadd (orRefuse_eq_ok.1 hcount)
  have hn := hadd hn
  have hstop := hadd hstop
  obtain ⟨-, hle, -⟩ := slice?_eq_some (orRefuse_eq_ok.1 hrest)
  exact ⟨by omega, hle, hcount⟩

/-- The loop of `check_directory`, from a place on. -/
def walkDirectory (bytes : List UInt8) (limits : ReadLimits) (offset : Nat) (names : List (List UInt8)) (count : Nat) :
    Except Stop Nat :=
  if slice? bytes offset (satAdd offset 4) = some centralSignature then
    match _h : checkHeader bytes limits offset names count with
    | .error e => .error e
    | .ok (stop, names, count) => walkDirectory bytes limits stop names count
  else .ok count
termination_by bytes.length - offset
decreasing_by
  obtain ⟨hoffset, hstop, -⟩ := checkHeader_ok _h
  omega

def checkDirectory (bytes : List UInt8) (start indexed : Nat) (limits : ReadLimits) : Except Stop Unit := do
  let offset ← orRefuse (if start ≤ usizeMax then some start else none) invalidDirectory
  let count ← walkDirectory bytes limits offset [] 0
  refused (refuseIf (count ≠ indexed) invalidDirectory)

/-! ## The preflight -/

def zipError {α : Type} (x : Except String α) : Except BundleError α :=
  match x with
  | .ok a => .ok a
  | .error why => .error (.zip why)

/-- One entry of the table. -/
def preflightEntry (limits : ReadLimits) (s : Ordered String EntryInfo × Nat) (entry : Except String RawEntry × Nat) :
    Except BundleError (Ordered String EntryInfo × Nat) := do
  let f ← zipError entry.1
  let name ← zipError f.name
  safeName name
  let fileType := Nat.land (f.unixMode.getD 0) 0o170000
  refuseIf (f.isFile = false ∨ fileType ≠ 0 ∧ fileType ≠ 0o100000) (.unsafeEntry name "only regular files are allowed")
  refuseIf (f.isEnclosed = false) (.unsafeEntry name "path escapes the archive")
  let info : EntryInfo := ⟨entry.2, f.size, f.compressedSize, f.size_le⟩
  checkEntrySize limits name info
  let remaining ← chargeEntryBytes limits name info.declared s.2
  refuseIf (s.1.get? name).isSome (.unsafeEntry name "duplicate entry")
  return (s.1.insert name info, remaining)

def preflight {ρ : Type} (a : Archive ρ) (bytes : List UInt8) (limits : ReadLimits) :
    Except Stop (Ordered String EntryInfo) := do
  checkDirectory bytes a.directoryStart a.table.length limits
  let out ← refused (runOps (preflightEntry limits) (.empty, limits.total) a.table.zipIdx)
  let _ ← refused (runOps (fun _ name => refuseIf (out.1.get? name = none) (.notABundle ("missing " ++ name))) ()
    [manifestEntry, checksumsEntry, objectsEntry])
  return out.1

/-- An open: the preflight, and then the entries that the checks between the reads let it come to. -/
def openArchive {ρ : Type} (a : Archive ρ) (bytes : List UInt8) (limits : ReadLimits) (sha256 : List UInt8 → String)
    (calls : Ordered String EntryInfo → List (String × EntryInfo × Nat)) (r : ρ) : Except Stop Unit × Reading ρ :=
  let s : Reading ρ := ⟨r, limits.total, [], 0, []⟩
  match preflight a bytes limits with
  | .error e => (.error e, s)
  | .ok entries => readEntries a limits sha256 (calls entries) s

/-! ## Nothing overflows -/

theorem byteAt_ok {l : List UInt8} {i : Nat} (h : i < l.length) : ∃ v, byteAt l i = .ok v ∧ v < 256 :=
  ⟨(l[i]).toNat, by rw [byteAt, List.getElem?_eq_getElem h]; rfl, (l[i]).toNat_lt⟩

theorem u16At_ok {l : List UInt8} {i : Nat} (h : i + 1 < l.length) : ∃ v, u16At l i = .ok v ∧ v < 65536 := by
  obtain ⟨low, hlow, hlow'⟩ := byteAt_ok (Nat.lt_of_succ_lt h)
  obtain ⟨high, hhigh, hhigh'⟩ := byteAt_ok h
  refine ⟨low + 256 * high, ?_, by omega⟩
  rw [u16At, hlow, ok_bind, hhigh, ok_bind]
  rfl

theorem u32At_ok {l : List UInt8} {i : Nat} (h : i + 3 < l.length) : ∃ v, u32At l i = .ok v := by
  obtain ⟨low, hlow, -⟩ := u16At_ok (l := l) (i := i) (by omega)
  obtain ⟨high, hhigh, -⟩ := u16At_ok (l := l) (i := i + 2) (by omega)
  refine ⟨low + 65536 * high, ?_⟩
  rw [u32At, hlow, ok_bind, hhigh, ok_bind]
  rfl

theorem addU64_ok {m n : Nat} (h : m + n ≤ u64Max) : addU64 m n = .ok (m + n) := by
  rw [addU64, checkedAdd_of_le h]
  rfl

theorem checkLastRecord_ok {limits : ReadLimits} {start declared size : Nat} (h : declared < 65536) :
    ∃ c, checkLastRecord limits start declared size = .ok c := by
  unfold checkLastRecord
  split_ifs with hdeclared hfits
  · exact ⟨_, rfl⟩
  · exact ⟨_, rfl⟩
  · exact absurd (show declared * maxDirectoryHeaderBytes ≤ u64Max by unfold maxDirectoryHeaderBytes u64Max; omega) hfits

theorem hasLocator_ok (bytes : List UInt8) (start : Nat) : ∃ b, hasLocator bytes start = .ok b := by
  unfold hasLocator
  split_ifs with h
  · rw [checkedSub_of_le h]
    exact ⟨_, rfl⟩
  · exact ⟨_, rfl⟩

theorem checkEndRecord_ok {bytes : List UInt8} (hbytes : bytes.length ≤ isizeMax) {limits : ReadLimits} {last : Bool}
    {start : Nat}
    (hstart : start ≤ bytes.length) :
    ∃ c, checkEndRecord bytes limits last start = .ok c ∧ ∀ e, c = .problem e → start + 22 ≤ bytes.length := by
  have hmax : isizeMax + 65558 ≤ u64Max := by decide
  unfold checkEndRecord
  rw [addU64_ok (by omega), ok_bind]
  cases hrecord : slice? bytes start (start + 22) with
  | none => exact ⟨_, rfl, fun e h => by cases h⟩
  | some record =>
    obtain ⟨-, hin, hlength⟩ := slice?_eq_some hrecord
    have hat : ∀ {i : Nat}, i + 1 < 22 → ∃ v, u16At record i = .ok v ∧ v < 65536 := fun hi => u16At_ok (by omega)
    obtain ⟨comment, hcomment, hcomment'⟩ := hat (show 20 + 1 < 22 by decide)
    obtain ⟨onDisk, honDisk, honDisk'⟩ := hat (show 8 + 1 < 22 by decide)
    obtain ⟨entries, hentries, hentries'⟩ := hat (show 10 + 1 < 22 by decide)
    obtain ⟨size, hsize⟩ := u32At_ok (l := record) (i := 12) (by omega)
    obtain ⟨offset, hoffset⟩ := u32At_ok (l := record) (i := 16) (by omega)
    obtain ⟨located, hlocated⟩ := hasLocator_ok bytes start
    obtain ⟨c, hc⟩ := @checkLastRecord_ok limits start (max onDisk entries) size (max_lt honDisk' hentries')
    suffices hok : ∃ c, _ = Except.ok c from hok.imp fun c hc => ⟨hc, fun _ _ => hin⟩
    dsimp only
    simp only [hcomment, addU64_ok (show start + 22 + comment ≤ u64Max by omega), honDisk, hentries, hsize, hoffset, hlocated,
      hc, ok_bind]
    split_ifs
    all_goals exact ⟨_, rfl⟩

/-- The scan ends, and what it finds is in the file. -/
theorem endRecordScan_ok {bytes : List UInt8} (hbytes : bytes.length ≤ isizeMax) (limits : ReadLimits) {stop : Nat}
    (hstop : stop ≤ bytes.length) (last : Bool) :
    ∃ x, endRecordScan bytes limits last stop = .ok x ∧ ∀ start e, x = some (start, e) → start + 22 ≤ bytes.length := by
  induction stop using Nat.strongRecOn generalizing last with
  | ind stop ih =>
    rw [endRecordScan, dif_pos hstop]
    split
    · exact ⟨none, rfl, fun _ _ h => by cases h⟩
    · rename_i start hat
      have hle := rposition_le hat
      have hlen : endSignature.length = 4 := rfl
      have hmax : isizeMax ≤ usizeMax := by decide
      rw [List.length_take, Nat.min_eq_left hstop] at hle
      rw [if_pos (by omega)]
      obtain ⟨c, hc, hin⟩ := @checkEndRecord_ok bytes hbytes limits last start (by omega)
      rw [hc]
      cases c with
      | passed last => exact ih (start + 3) (by omega) (by omega) last
      | problem e =>
        refine ⟨_, rfl, fun start' e' h => ?_⟩
        obtain ⟨rfl, -⟩ := Prod.mk.inj (Option.some.inj h)
        exact hin e rfl

/-- No unchecked operation of the computation passes its type. -/
def NoOverflow {α : Type} (x : Except Stop α) : Prop := x ≠ .error .overflow

theorem NoOverflow.bind {α β : Type} {x : Except Stop α} {f : α → Except Stop β} (hx : NoOverflow x)
    (hf : ∀ a, x = .ok a → NoOverflow (f a)) : NoOverflow (x >>= f) := by
  intro h
  rcases bind_eq_error.1 h with h | ⟨a, ha, h⟩
  · exact hx h
  · exact hf a ha h

theorem noOverflow_refused {α : Type} (x : Except BundleError α) : NoOverflow (refused x) := by
  intro h
  obtain ⟨why, -, h⟩ := refused_eq_error.1 h
  cases h

theorem noOverflow_orRefuse {α : Type} (x : Option α) (e : BundleError) : NoOverflow (orRefuse x e) := by
  intro h
  cases (orRefuse_eq_error.1 h).2

theorem noOverflow_ok {α : Type} (x : α) : NoOverflow (.ok x : Except Stop α) := by simp [NoOverflow]

theorem checkHeader_noOverflow (bytes : List UInt8) (limits : ReadLimits) (offset : Nat) (names : List (List UInt8))
    (count : Nat) :
    NoOverflow (checkHeader bytes limits offset names count) := by
  unfold checkHeader
  refine (noOverflow_orRefuse _ _).bind fun headerEnd hheaderEnd => (noOverflow_orRefuse _ _).bind fun header hheader => ?_
  have hlength : header.length = 46 := by
    obtain ⟨-, -, hlength⟩ := slice?_eq_some (orRefuse_eq_ok.1 hheader)
    replace hheaderEnd := orRefuse_eq_ok.1 hheaderEnd
    unfold checkedAdd at hheaderEnd
    split_ifs at hheaderEnd
    obtain rfl := Option.some.inj hheaderEnd
    omega
  have hat : ∀ {i : Nat}, i + 1 < 46 → NoOverflow (u16At header i) := by
    intro i hi
    obtain ⟨v, hv, -⟩ := u16At_ok (l := header) (i := i) (by omega)
    rw [hv]
    exact noOverflow_ok v
  obtain ⟨external, hexternal⟩ := u32At_ok (l := header) (i := 38) (by omega)
  refine (hat (by decide)).bind fun nameLength _ => (noOverflow_orRefuse _ _).bind fun nameEnd _ => ?_
  refine (hat (by decide)).bind fun extra _ => (hat (by decide)).bind fun comment _ => (noOverflow_orRefuse _ _).bind
    fun stop _ => ?_
  refine (noOverflow_orRefuse _ _).bind fun name _ => (noOverflow_orRefuse _ _).bind fun _ _ => ?_
  refine (noOverflow_orRefuse _ _).bind fun count _ => (noOverflow_refused _).bind fun _ _ => (noOverflow_refused _).bind
    fun _ _ => ?_
  rw [hexternal, ok_bind]
  exact (noOverflow_refused _).bind fun _ _ => noOverflow_ok _

/-- The walk ends, and its headers fill as much of the file as they need at least. -/
theorem walkDirectory_spec (bytes : List UInt8) (limits : ReadLimits) {offset : Nat} (hoffset : offset ≤ bytes.length)
    (names : List (List UInt8))
    (count : Nat) : NoOverflow (walkDirectory bytes limits offset names count) ∧
      ∀ n, walkDirectory bytes limits offset names count = .ok n → offset + 46 * (n - count) ≤ bytes.length ∧ count ≤ n := by
  induction hsize : bytes.length - offset using Nat.strongRecOn generalizing offset names count with
  | ind size ih =>
    rw [walkDirectory]
    split_ifs with hsignature
    · split
      · rename_i e he
        refine ⟨fun h => checkHeader_noOverflow bytes limits offset names count (he.trans ?_), fun n h => by cases h⟩
        exact congrArg Except.error (Except.error.inj h)
      · rename_i stop names' count' hheader
        obtain ⟨hstop, hin, rfl⟩ := checkHeader_ok hheader
        obtain ⟨hno, hfits⟩ := ih (bytes.length - stop) (by omega) hin names' (count + 1) rfl
        refine ⟨hno, fun n hn => ?_⟩
        have hn := hfits n hn
        omega
    · refine ⟨noOverflow_ok _, fun n hn => ?_⟩
      obtain rfl := Except.ok.inj hn
      omega

/-- The directory that is walked lies within the file. -/
theorem walkDirectory_all (bytes : List UInt8) (limits : ReadLimits) (offset : Nat) :
    NoOverflow (walkDirectory bytes limits offset [] 0) ∧ ∀ n, walkDirectory bytes limits offset [] 0 = .ok n →
      46 * n ≤ bytes.length := by
  by_cases hoffset : offset ≤ bytes.length
  · obtain ⟨hno, hfits⟩ := walkDirectory_spec bytes limits hoffset [] 0
    refine ⟨hno, fun n hn => ?_⟩
    have hn := hfits n hn
    omega
  · have houtside : slice? bytes offset (satAdd offset 4) ≠ some centralSignature := by
      intro h
      obtain ⟨hle, hin, -⟩ := slice?_eq_some h
      omega
    rw [walkDirectory, if_neg houtside]
    refine ⟨noOverflow_ok _, fun n hn => ?_⟩
    obtain rfl := Except.ok.inj hn
    exact Nat.zero_le _

theorem checkDirectory_spec (bytes : List UInt8) (start indexed : Nat) (limits : ReadLimits) :
    NoOverflow (checkDirectory bytes start indexed limits) ∧
      (checkDirectory bytes start indexed limits = .ok () → 46 * indexed ≤ bytes.length) := by
  unfold checkDirectory
  constructor
  · exact (noOverflow_orRefuse _ _).bind fun offset _ => (walkDirectory_all bytes limits offset).1.bind fun _ _ =>
      noOverflow_refused _
  · intro h
    obtain ⟨offset, -, h⟩ := bind_eq_ok.1 h
    obtain ⟨count, hcount, h⟩ := bind_eq_ok.1 h
    obtain rfl : count = indexed := Classical.not_not.1 (refuseIf_ok.1 (refused_eq_ok.1 h))
    exact (walkDirectory_all bytes limits offset).2 count hcount

/-! ## The preflight reserves the budget -/

/-- The declared sizes fit in the budget together, and each in the entry limit. -/
structure Reserved (limits : ReadLimits) (s : Ordered String EntryInfo × Nat) : Prop where
  total : s.2 + (s.1.list.map fun b => b.2.declared).sum = limits.total
  entry : ∀ b ∈ s.1.list, b.2.declared ≤ limits.entry

theorem preflightEntry_reserved {limits : ReadLimits} {s s' : Ordered String EntryInfo × Nat}
    {entry : Except String RawEntry × Nat}
    (h : preflightEntry limits s entry = .ok s') (hs : Reserved limits s) : Reserved limits s' := by
  unfold preflightEntry at h
  obtain ⟨f, -, h⟩ := bind_eq_ok.1 h
  obtain ⟨name, -, h⟩ := bind_eq_ok.1 h
  obtain ⟨_, -, h⟩ := bind_eq_ok.1 h
  obtain ⟨_, -, h⟩ := bind_eq_ok.1 h
  obtain ⟨_, -, h⟩ := bind_eq_ok.1 h
  obtain ⟨_, -, h⟩ := bind_eq_ok.1 h
  obtain ⟨remaining, hcharge, h⟩ := bind_eq_ok.1 h
  obtain ⟨_, hnew, h⟩ := bind_eq_ok.1 h
  obtain rfl := Except.ok.inj h
  obtain ⟨hentry, hfits, rfl⟩ := chargeEntryBytes_ok hcharge
  have hperm := s.1.insert_perm (Option.not_isSome_iff_eq_none.1 (refuseIf_ok.1 hnew))
      ⟨entry.2, f.size, f.compressedSize, f.size_le⟩
  have htotal := hs.total
  constructor
  · rw [(hperm.map fun b => b.2.declared).sum_eq, List.map_cons, List.sum_cons]
    dsimp only at hfits ⊢
    omega
  · intro b hb
    rcases List.mem_cons.1 (hperm.mem_iff.1 hb) with rfl | hb
    · exact hentry
    · exact hs.entry b hb

theorem preflight_noOverflow {ρ : Type} (a : Archive ρ) (bytes : List UInt8) (limits : ReadLimits) :
    NoOverflow (preflight a bytes limits) :=
  (checkDirectory_spec _ _ _ _).1.bind fun _ _ => (noOverflow_refused _).bind fun _ _ => (noOverflow_refused _).bind fun _
    _ => noOverflow_ok _

theorem preflight_reserved {ρ : Type} {a : Archive ρ} {bytes : List UInt8} {limits : ReadLimits}
    {entries : Ordered String EntryInfo}
    (h : preflight a bytes limits = .ok entries) :
    (entries.list.map fun b => b.2.declared).sum ≤ limits.total ∧ ∀ b ∈ entries.list, b.2.declared ≤ limits.entry := by
  unfold preflight at h
  obtain ⟨_, -, h⟩ := bind_eq_ok.1 h
  obtain ⟨out, hout, h⟩ := bind_eq_ok.1 h
  obtain ⟨_, -, h⟩ := bind_eq_ok.1 h
  obtain rfl := Except.ok.inj h
  have hreserved := (runOps_forall (Q := fun _ => True) (fun s e s' hstep hs => ⟨preflightEntry_reserved hstep hs, trivial⟩)
    (refused_eq_ok.1 hout) ⟨Nat.add_zero _, fun b hb => absurd hb List.not_mem_nil⟩).1
  exact ⟨Nat.le_of_add_left_le hreserved.total.le, hreserved.entry⟩

/-! ## An open keeps to its budgets -/

theorem readEntries_noOverflow {ρ : Type} {a : Archive ρ} {limits : ReadLimits} {sha256 : List UInt8 → String}
    {calls : List (String × EntryInfo × Nat)} : ∀ {s : Reading ρ}, NoOverflow (readEntries a limits sha256 calls s).1 := by
  induction calls with
  | nil => exact noOverflow_ok _
  | cons call calls ih =>
    intro s
    obtain ⟨name, info, reads⟩ := call
    have hread := @readEntry_spec ρ a limits name info sha256 reads s
    rw [readEntries]
    cases hresult : readEntry a limits name info sha256 reads s with
    | mk result s' =>
    rw [hresult] at hread
    cases result with
    | error e => exact fun h => hread.overflow (congrArg Except.error (Except.error.inj h))
    | ok out => exact ih

/-- **Bundle reading respects its budgets.** However the reader answers, reading an entry keeps, charges and returns what it
may (`EntryRead`); over an open no more is accepted than the total budget and, of one entry, than the entry budget; what the
preflight lets through was declared within both; and the scans of the file end within it, with no overflow anywhere. -/
theorem reads_in_budget {ρ : Type} (a : Archive ρ) {bytes : List UInt8} (hbytes : bytes.length ≤ isizeMax)
    (limits : ReadLimits)
    (sha256 : List UInt8 → String) :
    (∀ name info reads s,
      EntryRead a limits info s (readEntry a limits name info sha256 reads s).1
        (readEntry a limits name info sha256 reads s).2) ∧
    (∀ calls r, NoOverflow (openArchive a bytes limits sha256 calls r).1 ∧
      ((openArchive a bytes limits sha256 calls r).2.accepted.map List.length).sum ≤ limits.total ∧
      ∀ data ∈ (openArchive a bytes limits sha256 calls r).2.accepted, data.length ≤ limits.entry) ∧
    (∀ entries, preflight a bytes limits = .ok entries →
      (entries.list.map fun b => b.2.declared).sum ≤ limits.total ∧ ∀ b ∈ entries.list, b.2.declared ≤ limits.entry) ∧
    (∃ problem, endRecordProblem bytes limits = .ok problem ∧ ∀ start e, problem = some (start, e) →
      start + 22 ≤ bytes.length) ∧
    ∀ start, NoOverflow (checkDirectory bytes start a.table.length limits) ∧
      (checkDirectory bytes start a.table.length limits = .ok () → 46 * a.table.length ≤ bytes.length) := by
  refine ⟨fun name info reads s => readEntry_spec sha256 reads s, fun calls r => ?_, fun entries => preflight_reserved,
    endRecordScan_ok hbytes limits le_rfl true, fun start => checkDirectory_spec bytes start _ limits⟩
  have hstart : Budgeted limits (⟨r, limits.total, [], 0, []⟩ : Reading ρ) := ⟨le_rfl, fun _ h => absurd h List.not_mem_nil⟩
  unfold openArchive
  cases hpreflight : preflight a bytes limits with
  | error e =>
    refine ⟨fun h => preflight_noOverflow a bytes limits (hpreflight.trans (congrArg Except.error (Except.error.inj h))), ?_,
      hstart.entry⟩
    exact Nat.zero_le _
  | ok entries =>
    have hbudgeted := @readEntries_budgeted ρ a limits sha256 (calls entries) _ hstart
    exact ⟨readEntries_noOverflow, Nat.le_of_add_left_le hbudgeted.total, hbudgeted.entry⟩

section Sample

/-- A reader of the bytes 1, 2, 3 that gives one at a time. -/
def trickle : Archive (List UInt8) where
  directoryStart := 0
  table := []
  byIndex := fun _ _ => .ok [1, 2, 3]
  read := fun r n => (.bytes (r.take (min n 1)), r.drop (min n 1))
  reserves := fun _ => true
  read_le := by
    intro r n l h
    obtain rfl := Answer.bytes.inj h
    exact (List.length_take_le _ _).trans (Nat.min_le_left _ _)

def sampleInfo : EntryInfo := ⟨0, 3, 3, by decide⟩

def sampleReading : Reading (List UInt8) := ⟨[], 10, [], 0, []⟩

/-- An end record after two bytes, which declares an entry and a directory longer than what is before it. -/
def sampleFile : List UInt8 := [7, 7] ++ endSignature ++ [0, 0, 0, 0, 1, 0, 1, 0, 46, 0, 0, 0, 0, 0, 0, 0, 0, 0]

theorem scan_sampleFile : endRecordProblem sampleFile readLimits = .ok (some (2, directoryProblem readLimits 1 46)) := by
  have hat : rposition endSignature (sampleFile.take sampleFile.length) = some 2 := by decide
  unfold endRecordProblem
  rw [endRecordScan, dif_pos le_rfl]
  split
  · next hnone => exact absurd (hat.symm.trans hnone) (by simp)
  · next start hstart =>
    obtain rfl := Option.some.inj (hat.symm.trans hstart)
    rfl

/-- Three reads of a byte and one of none; and a file whose end record is found. -/
theorem reads_in_budget_sample :
    (readEntry trickle readLimits manifestEntry sampleInfo (fun _ => "") 4 sampleReading).2.accepted = [[1, 2, 3]] ∧
      EntryRead trickle readLimits sampleInfo sampleReading
        (readEntry trickle readLimits manifestEntry sampleInfo (fun _ => "") 4 sampleReading).1
        (readEntry trickle readLimits manifestEntry sampleInfo (fun _ => "") 4 sampleReading).2 ∧
      ∃ start e, endRecordProblem sampleFile readLimits = .ok (some (start, e)) ∧ start + 22 ≤ sampleFile.length := by
  have hbytes : sampleFile.length ≤ isizeMax := by decide
  obtain ⟨hentry, -, -, ⟨problem, hproblem, hin⟩, -⟩ := reads_in_budget trickle hbytes readLimits fun _ => ""
  obtain rfl := Except.ok.inj (scan_sampleFile.symm.trans hproblem)
  exact ⟨by decide, hentry manifestEntry sampleInfo 4 sampleReading, _, _, hproblem, hin _ _ rfl⟩

end Sample

end Anvil.Portability
