import Anvil.Contract.Infer
import Anvil.Lib.Rfc3339

/-!
# The formats of a string (`anvil-contract/src/infer.rs`)

A date or a date-time is recognised by the positions of its digits and separators.

* `Asserted`, `Sound` : what the validator asserts of a string with a format, and that it holds of the strings that get it;
* `isDate_iff`, `isDateTime_iff`, `isZone_iff` : what is recognised;
* `formats_exact` : the strings whose formats are sound are those whose numbers are in range.
-/

namespace Anvil.Contract.Infer
open Anvil.Lib Json Rfc3339

/-- What a schema with the format asserts of a string. -/
def Asserted : Format → Text → Prop
  | .date, s => IsFullDate (encodeUtf8 s)
  | .dateTime, s => IsDateTime (encodeUtf8 s)
  | _, _ => True

/-- The `format` of a schema. -/
def formatOf : Json → Option Json
  | .object fields => Json.lookup fields "format".toList
  | _ => none

/-- The formats of the string are those it has, and so is the one of a schema inferred from it. -/
structure Sound (s : Text) : Prop where
  reported : ∀ f ∈ stringFormats s, Asserted f s
  accepted : ∀ d f, formatOf (infer [.string s] d) = some (.string f.name) → Asserted f s

/-! ## Ranges -/

def DayInRange (bs : List UInt8) : Prop :=
  IsDay (ofDecimal (slice bs 0 4)) (ofDecimal (slice bs 5 2)) (ofDecimal (slice bs 8 2))

def ClockInRange (bs : List UInt8) : Prop :=
  IsClock (ofDecimal (slice bs 11 2)) (ofDecimal (slice bs 14 2)) (ofDecimal (slice bs 17 2)) (offsetOf (zoneOf (bs.drop 19)))

/-- A digit follows the point, and an offset is two numbers of digits. -/
def ZoneInRange (tz : List UInt8) : Prop :=
  (tz.head? = some 0x2E → tz.tail.head?.any isDigit = true) ∧
    ((zoneOf tz).length = 6 → Digits 2 (slice (zoneOf tz) 1 2) ∧ Digits 2 (slice (zoneOf tz) 4 2) ∧
      ofDecimal (slice (zoneOf tz) 1 2) < 24 ∧ ofDecimal (slice (zoneOf tz) 4 2) < 60)

/-- The numbers of what is recognised as a date or a date-time are in range. -/
def InRange (bs : List UInt8) : Prop :=
  (isDate bs = true → bs.length = 10 → DayInRange bs) ∧
    (isDateTime bs = true → DayInRange bs ∧ ClockInRange bs ∧ ZoneInRange (bs.drop 19))

/-! ## What is recognised -/

theorem exists_append {n : Nat} {bs : List UInt8} (h : n ≤ bs.length) : ∃ l r, l.length = n ∧ bs = l ++ r :=
  ⟨bs.take n, bs.drop n, List.length_take_of_le h, (List.take_append_drop n bs).symm⟩

theorem isDate_iff {bs : List UInt8} : isDate bs = true ↔
    ∃ y m d rest, Digits 4 y ∧ Digits 2 m ∧ Digits 2 d ∧ bs = dated y m d rest := by
  constructor
  · intro h
    have hlen : 10 ≤ bs.length := by
      unfold isDate at h
      simp only [Bool.and_eq_true, decide_eq_true_eq] at h
      exact h.1.1.1.1.1
    obtain ⟨l, rest, hl, rfl⟩ := exists_append hlen
    obtain _ | ⟨b0, _ | ⟨b1, _ | ⟨b2, _ | ⟨b3, _ | ⟨b4, _ | ⟨b5, _ | ⟨b6, _ | ⟨b7, _ | ⟨b8, _ | ⟨b9,
      _ | ⟨b, l⟩⟩⟩⟩⟩⟩⟩⟩⟩⟩⟩ := l <;>
      simp only [List.length_nil, List.length_cons] at hl <;> try omega
    simp [isDate, digitsAt] at h
    obtain ⟨⟨⟨⟨h0, h1, h2, h3⟩, rfl⟩, h5, h6⟩, rfl⟩ := h.1
    exact ⟨[b0, b1, b2, b3], [b5, b6], [b8, b9], rest, digits_four.2 ⟨_, _, _, _, rfl, h0, h1, h2, h3⟩,
      digits_two.2 ⟨_, _, rfl, h5, h6⟩, digits_two.2 ⟨_, _, rfl, h.2⟩, rfl⟩
  · rintro ⟨y, m, d, rest, hy, hm, hd, rfl⟩
    obtain ⟨y1, y2, y3, y4, rfl, h0, h1, h2, h3⟩ := digits_four.1 hy
    obtain ⟨m1, m2, rfl, h5, h6⟩ := digits_two.1 hm
    obtain ⟨d1, d2, rfl, h8, h9⟩ := digits_two.1 hd
    simp [isDate, digitsAt, dated, h0, h1, h2, h3, h5, h6, h8, h9]

theorem isDateTime_iff {bs : List UInt8} : isDateTime bs = true ↔
    ∃ y m d t h mi s tz, Digits 4 y ∧ Digits 2 m ∧ Digits 2 d ∧ (t = 0x54 ∨ t = 0x74) ∧ Digits 2 h ∧ Digits 2 mi ∧
      Digits 2 s ∧ isZone tz = true ∧ bs = dated y m d (t :: timed h mi s tz) := by
  constructor
  · intro hbs
    have hdate : isDate bs = true := by
      unfold isDateTime at hbs
      simp only [Bool.and_eq_true] at hbs
      exact hbs.1.1.1.1.1.1.1.1
    obtain ⟨y, m, d, rest, hy, hm, hd, rfl⟩ := isDate_iff.1 hdate
    obtain ⟨y1, y2, y3, y4, rfl, -⟩ := digits_four.1 hy
    obtain ⟨m1, m2, rfl, -⟩ := digits_two.1 hm
    obtain ⟨d1, d2, rfl, -⟩ := digits_two.1 hd
    have hlen : 9 ≤ rest.length := by
      unfold isDateTime at hbs
      simp only [Bool.and_eq_true, decide_eq_true_eq] at hbs
      have hlen := hbs.1.1.1.1.1.1.1.2
      simp [dated] at hlen
      omega
    obtain ⟨l, tz, hl, rfl⟩ := exists_append hlen
    obtain _ | ⟨t, _ | ⟨h1, _ | ⟨h2, _ | ⟨c1, _ | ⟨n1, _ | ⟨n2, _ | ⟨c2, _ | ⟨s1, _ | ⟨s2, _ | ⟨b, l⟩⟩⟩⟩⟩⟩⟩⟩⟩⟩ := l <;>
      simp only [List.length_nil, List.length_cons] at hl <;> try omega
    simp [isDateTime, digitsAt, dated] at hbs
    obtain ⟨⟨⟨⟨⟨⟨⟨-, -⟩, ht⟩, hh1, hh2⟩, rfl⟩, hn1, hn2⟩, rfl⟩, hs1, hs2⟩ := hbs.1
    exact ⟨_, _, _, t, [h1, h2], [n1, n2], [s1, s2], tz, hy, hm, hd, ht, digits_two.2 ⟨_, _, rfl, hh1, hh2⟩,
      digits_two.2 ⟨_, _, rfl, hn1, hn2⟩, digits_two.2 ⟨_, _, rfl, hs1, hs2⟩, hbs.2, rfl⟩
  · rintro ⟨y, m, d, t, h, mi, s, tz, hy, hm, hd, ht, hh, hmi, hs, htz, rfl⟩
    have hdate : isDate (dated y m d (t :: timed h mi s tz)) = true := isDate_iff.2 ⟨y, m, d, _, hy, hm, hd, rfl⟩
    obtain ⟨y1, y2, y3, y4, rfl, -⟩ := digits_four.1 hy
    obtain ⟨m1, m2, rfl, -⟩ := digits_two.1 hm
    obtain ⟨d1, d2, rfl, -⟩ := digits_two.1 hd
    obtain ⟨h1, h2, rfl, hh1, hh2⟩ := digits_two.1 hh
    obtain ⟨n1, n2, rfl, hn1, hn2⟩ := digits_two.1 hmi
    obtain ⟨s1, s2, rfl, hs1, hs2⟩ := digits_two.1 hs
    have htz' : tz ≠ [] := by
      rintro rfl
      revert htz
      decide
    have hlen : 0 < tz.length := List.length_pos_iff.2 htz'
    unfold isDateTime
    rw [hdate]
    simp [digitsAt, dated, timed, hh1, hh2, hn1, hn2, hs1, hs2, htz, ht, hlen]

/-- An offset as it is recognised, after what may be a fraction. -/
theorem isZone_iff {tz : List UInt8} : isZone tz = true ↔ zoneOf tz = [0x5A] ∨ zoneOf tz = [0x7A] ∨
    ∃ sign a b c d, (sign = 0x2B ∨ sign = 0x2D) ∧ zoneOf tz = [sign, a, b, 0x3A, c, d] := by
  have hdef : isZone tz = (zoneOf tz = [0x5A] || zoneOf tz = [0x7A] || ((zoneOf tz).length = 6 &&
      ((zoneOf tz).head? = some 0x2B || (zoneOf tz).head? = some 0x2D) && (zoneOf tz)[3]? = some 0x3A)) := rfl
  rw [hdef]
  generalize zoneOf tz = z
  simp only [Bool.or_eq_true, Bool.and_eq_true, decide_eq_true_eq, or_assoc]
  refine or_congr_right (or_congr_right ⟨?_, ?_⟩)
  · rintro ⟨⟨hlen, hsign⟩, hcolon⟩
    obtain _ | ⟨sign, _ | ⟨a, _ | ⟨b, _ | ⟨e, _ | ⟨c, _ | ⟨d, _ | ⟨f, z⟩⟩⟩⟩⟩⟩⟩ := z <;>
      simp only [List.length_nil, List.length_cons] at hlen <;> try omega
    obtain rfl : e = 0x3A := Option.some.inj hcolon
    exact ⟨sign, a, b, c, d, hsign.imp Option.some.inj Option.some.inj, rfl⟩
  · rintro ⟨sign, a, b, c, d, hsign, rfl⟩
    exact ⟨⟨rfl, hsign.imp (congrArg some) (congrArg some)⟩, rfl⟩

/-! ## Offsets -/

theorem fraction_split {tz : List UInt8} (h : tz.head? = some 0x2E → tz.tail.head?.any isDigit = true) :
    ∃ frac, IsFraction frac ∧ tz = frac ++ zoneOf tz := by
  unfold zoneOf
  split_ifs with hdot
  · refine ⟨0x2E :: tz.tail.takeWhile isDigit, .inr ⟨_, ?_, fun d hd => List.mem_takeWhile_imp hd, rfl⟩, ?_⟩
    · have hdigit := h hdot
      cases htail : tz.tail with
      | nil =>
        rw [htail] at hdigit
        cases hdigit
      | cons c t =>
        rw [htail] at hdigit
        have hc : isDigit c = true := hdigit
        rw [List.takeWhile_cons_of_pos hc]
        exact List.cons_ne_nil _ _
    · rw [List.cons_append, List.takeWhile_append_dropWhile]
      cases tz with
      | nil => cases hdot
      | cons c t => rw [Option.some.inj hdot, List.tail_cons]
  · exact ⟨[], .inl rfl, rfl⟩

/-- What is recognised after the seconds is a fraction and an offset where the numbers are in range. -/
theorem zone_iff {tz : List UInt8} (htz : isZone tz = true) :
    (∃ frac zone offset, tz = frac ++ zone ∧ IsFraction frac ∧ IsOffset offset zone) ↔ ZoneInRange tz := by
  constructor
  · rintro ⟨frac, zone, offset, rfl, hfrac, hzone⟩
    refine ⟨fun hdot => ?_, fun hlen => ?_⟩
    · rcases hfrac with rfl | ⟨ds, hne, hds, rfl⟩
      · obtain ⟨c, t, rfl, -, hc⟩ := hzone.head
        exact absurd (Option.some.inj hdot) hc
      · cases ds with
        | nil => exact absurd rfl hne
        | cons d ds => exact hds d List.mem_cons_self
    · rw [zoneOf_append hfrac hzone] at hlen ⊢
      cases hzone with
      | utc => cases hlen
      | @numeric sign h m _ hh hm hhour hminute =>
        obtain ⟨h1, h2, rfl, -⟩ := digits_two.1 hh
        obtain ⟨m1, m2, rfl, -⟩ := digits_two.1 hm
        exact ⟨hh, hm, hhour, hminute⟩
  · rintro ⟨hdigit, hrange⟩
    obtain ⟨frac, hfrac, hsplit⟩ := fraction_split hdigit
    rcases isZone_iff.1 htz with hz | hz | ⟨sign, a, b, c, d, hsign, hz⟩
    · exact ⟨frac, _, 0, hsplit, hfrac, hz ▸ .utc (.inl rfl)⟩
    · exact ⟨frac, _, 0, hsplit, hfrac, hz ▸ .utc (.inr rfl)⟩
    · rw [hz] at hrange hsplit
      obtain ⟨hh, hm, hhour, hminute⟩ := hrange rfl
      exact ⟨frac, _, _, hsplit, hfrac, .numeric hsign hh hm hhour hminute⟩

/-! ## Soundness -/

theorem asserted_date {bs : List UInt8} (h : isDate bs = true) (hlen : bs.length = 10) :
    IsFullDate bs ↔ DayInRange bs := by
  obtain ⟨y, m, d, rest, hy, hm, hd, rfl⟩ := isDate_iff.1 h
  obtain ⟨hslice, hslice', hslice'', hdrop⟩ := slices_dated hy hm hd rest
  have hrest : rest = [] := by
    rw [← List.drop_zero (l := rest), ← hdrop 0]
    exact List.drop_eq_nil_of_le hlen.le
  unfold DayInRange
  rw [hslice, hslice', hslice'', hrest]
  exact isFullDate_dated hy hm hd

theorem asserted_dateTime {bs : List UInt8} (h : isDateTime bs = true) :
    IsDateTime bs ↔ DayInRange bs ∧ ClockInRange bs ∧ ZoneInRange (bs.drop 19) := by
  obtain ⟨y, m, d, t, hour, mi, s, tz, hy, hm, hd, ht, hh, hmi, hs, htz, rfl⟩ := isDateTime_iff.1 h
  obtain ⟨hslice, hslice', hslice'', hdrop⟩ := slices_dated hy hm hd (t :: timed hour mi s tz)
  obtain ⟨htime, htime', htime'', hrest⟩ := slices_timed hh hmi hs tz
  have hslices (i : Nat) : slice (dated y m d (t :: timed hour mi s tz)) (11 + i) 2 = slice (timed hour mi s tz) i 2 := by
    unfold slice
    rw [show 11 + i = 10 + (i + 1) by omega, hdrop, List.drop_succ_cons]
  have htail : (dated y m d (t :: timed hour mi s tz)).drop 19 = tz := by
    rw [hdrop 9, List.drop_succ_cons, hrest]
  unfold DayInRange ClockInRange
  rw [isDateTime_dated hy hm hd hh hmi hs ht, hslice, hslice', hslice'', hslices 0, hslices 3, hslices 6, htime, htime',
    htime'', htail,
    ← zone_iff htz]
  refine and_congr_right fun _ => ⟨?_, ?_⟩
  · rintro ⟨frac, zone, offset, rfl, hfrac, hzone, hclock⟩
    rw [zoneOf_append hfrac hzone, hzone.offsetOf]
    exact ⟨hclock, frac, zone, offset, rfl, hfrac, hzone⟩
  · rintro ⟨hclock, frac, zone, offset, rfl, hfrac, hzone⟩
    rw [zoneOf_append hfrac hzone, hzone.offsetOf] at hclock
    exact ⟨frac, zone, offset, rfl, hfrac, hzone, hclock⟩

theorem mem_stringFormats {s : Text} {f : Format} : f ∈ stringFormats s ↔ f.valid s = true := by
  unfold stringFormats
  rw [List.mem_filter]
  refine and_iff_right ?_
  cases f <;> decide

/-- The schema of one string has its first format. -/
theorem formatOf_infer (s : Text) (d : Dialect) :
    formatOf (infer [.string s] d) = (stringFormats s).head?.map fun f => .string f.name := by
  have hshape : [Json.string s].foldl Shape.add {} =
      ({ samples := 1, strings := 1, formats := some (stringFormats s) } : Shape) := by
    change Shape.addAt {} 0 (.string s) = _
    rw [Shape.addAt]
    rfl
  unfold infer
  rw [hshape, Shape.schema, if_neg (by simp [Shape.types]), dif_neg (by simp [Shape.types])]
  unfold Shape.formatField
  cases hfirst : (stringFormats s).head? <;> simp [hfirst, Shape.types, Shape.nullableIf, formatOf, Json.lookup]

theorem Format.name_injective : Function.Injective Format.name := by
  intro f g h
  cases f <;> cases g <;> first | rfl | (revert h; decide)

/-- **The formats of a string are sound** exactly where the numbers of what is recognised as a date or a date-time are in
range. -/
theorem formats_exact (s : Text) : Sound s ↔ InRange (encodeUtf8 s) := by
  constructor
  · intro h
    constructor
    · intro hdate hlen
      have hvalid : Format.valid s .date = true := by
        unfold Format.valid
        rw [hdate, hlen]
        rfl
      exact (asserted_date hdate hlen).1 (h.reported .date (mem_stringFormats.2 hvalid))
    · intro hdateTime
      exact (asserted_dateTime hdateTime).1 (h.reported .dateTime (mem_stringFormats.2 hdateTime))
  · intro h
    have hreported : ∀ f ∈ stringFormats s, Asserted f s := by
      intro f hf
      rw [mem_stringFormats] at hf
      cases f with
      | date =>
        obtain ⟨hdate, hlen⟩ := Bool.and_eq_true_iff.1 hf
        have hlen := of_decide_eq_true hlen
        exact (asserted_date hdate hlen).2 (h.1 hdate hlen)
      | dateTime => exact (asserted_dateTime hf).2 (h.2 hf)
      | email => exact trivial
      | uri => exact trivial
      | uuid => exact trivial
    refine ⟨hreported, fun d f hf => hreported f ?_⟩
    rw [formatOf_infer] at hf
    obtain ⟨g, hg, hname⟩ := Option.map_eq_some_iff.1 hf
    rw [← Format.name_injective (Json.string.inj hname)]
    exact List.mem_of_mem_head? hg

/-- The thirty-ninth day of a nineteenth month. -/
theorem impossible_day_reported : ¬ Sound "2024-19-39".toList := by
  intro h
  have hdate := h.reported .date (by decide)
  have hday := (asserted_date (by decide) (by decide)).1 hdate
  revert hday
  unfold DayInRange IsDay
  decide

end Anvil.Contract.Infer
