import Anvil.Lib.Wire

/-!
# Dates and times on the wire (RFC 3339)

* `IsFullDate`, `IsDateTime` : the grammar, with the ranges of its numbers;
* `slice`, `dated`, `timed` : the parts of a text, and the positions they stand at;
* `isFullDate_dated`, `isDateTime_dated` : a text of their form is in the grammar where its numbers are in range.
-/

namespace Anvil.Lib.Rfc3339

/-! ## The grammar -/

/-- A number of decimal digits. -/
def Digits (n : Nat) (ds : List UInt8) : Prop := ds.length = n ∧ ∀ d ∈ ds, isDigit d = true

def isLeapYear (year : Nat) : Bool := (year % 4 = 0 ∧ year % 100 ≠ 0) ∨ year % 400 = 0

def daysIn (year month : Nat) : Nat :=
  if month = 2 then if isLeapYear year then 29 else 28 else if month ∈ [4, 6, 9, 11] then 30 else 31

/-- The numbers of a day. -/
def IsDay (year month day : Nat) : Prop := 1 ≤ month ∧ month ≤ 12 ∧ 1 ≤ day ∧ day ≤ daysIn year month

/-- The numbers of a time of day at an offset in minutes; the second 60 is a leap second, at the end of a day of UTC. -/
def IsClock (hour minute second : Nat) (offset : Int) : Prop :=
  hour < 24 ∧ minute < 60 ∧ (second < 60 ∨ second = 60 ∧ (60 * hour + minute - offset) % 1440 = 1439)

/-- `full-date`. -/
def IsFullDate (bs : List UInt8) : Prop :=
  ∃ y m d, Digits 4 y ∧ Digits 2 m ∧ Digits 2 d ∧ IsDay (ofDecimal y) (ofDecimal m) (ofDecimal d) ∧
    bs = y ++ 0x2D :: (m ++ 0x2D :: d)

/-- `time-secfrac`, or none. -/
def IsFraction (bs : List UInt8) : Prop := bs = [] ∨ ∃ ds, ds ≠ [] ∧ (∀ d ∈ ds, isDigit d = true) ∧ bs = 0x2E :: ds

/-- `time-offset`, with its minutes. -/
inductive IsOffset : Int → List UInt8 → Prop
  | utc {c : UInt8} : c = 0x5A ∨ c = 0x7A → IsOffset 0 [c]
  | numeric {sign : UInt8} {h m : List UInt8} : sign = 0x2B ∨ sign = 0x2D → Digits 2 h → Digits 2 m → ofDecimal h < 24 →
      ofDecimal m < 60 → IsOffset ((if sign = 0x2D then -1 else 1) * (60 * ofDecimal h + ofDecimal m))
        (sign :: (h ++ 0x3A :: m))

/-- `date-time`. -/
def IsDateTime (bs : List UInt8) : Prop :=
  ∃ date t h m s frac zone offset, IsFullDate date ∧ (t = 0x54 ∨ t = 0x74) ∧ Digits 2 h ∧ Digits 2 m ∧ Digits 2 s ∧
    IsClock (ofDecimal h) (ofDecimal m) (ofDecimal s) offset ∧ IsFraction frac ∧ IsOffset offset zone ∧
    bs = date ++ t :: (h ++ 0x3A :: (m ++ 0x3A :: (s ++ (frac ++ zone))))

/-! ## Positions -/

/-- `n` bytes at a position. -/
def slice (bs : List UInt8) (i n : Nat) : List UInt8 := (bs.drop i).take n

theorem digits_two {ds : List UInt8} : Digits 2 ds ↔ ∃ a b, ds = [a, b] ∧ isDigit a = true ∧ isDigit b = true := by
  constructor
  · rintro ⟨hlen, hdigits⟩
    obtain ⟨a, b, rfl⟩ := List.length_eq_two.1 hlen
    exact ⟨a, b, rfl, hdigits a (by simp), hdigits b (by simp)⟩
  · rintro ⟨a, b, rfl, ha, hb⟩
    exact ⟨rfl, by simp [ha, hb]⟩

theorem digits_four {ds : List UInt8} : Digits 4 ds ↔
    ∃ a b c d, ds = [a, b, c, d] ∧ isDigit a = true ∧ isDigit b = true ∧ isDigit c = true ∧ isDigit d = true := by
  constructor
  · rintro ⟨hlen, hdigits⟩
    obtain _ | ⟨a, _ | ⟨b, _ | ⟨c, _ | ⟨d, _ | ⟨e, ds⟩⟩⟩⟩⟩ := ds
    · cases hlen
    · cases hlen
    · cases hlen
    · cases hlen
    · exact ⟨a, b, c, d, rfl, hdigits a (by simp), hdigits b (by simp), hdigits c (by simp), hdigits d (by simp)⟩
    · simp at hlen
  · rintro ⟨a, b, c, d, rfl, ha, hb, hc, hd⟩
    exact ⟨rfl, by simp [ha, hb, hc, hd]⟩

/-- A date, and what follows it. -/
def dated (y m d rest : List UInt8) : List UInt8 := y ++ 0x2D :: (m ++ 0x2D :: (d ++ rest))

/-- A time after the `T`, and what follows it. -/
def timed (h m s rest : List UInt8) : List UInt8 := h ++ 0x3A :: (m ++ 0x3A :: (s ++ rest))

theorem slices_dated {y m d : List UInt8} (hy : Digits 4 y) (hm : Digits 2 m) (hd : Digits 2 d) (rest : List UInt8) :
    slice (dated y m d rest) 0 4 = y ∧ slice (dated y m d rest) 5 2 = m ∧ slice (dated y m d rest) 8 2 = d ∧
      ∀ n, (dated y m d rest).drop (10 + n) = rest.drop n := by
  obtain ⟨y1, y2, y3, y4, rfl, -⟩ := digits_four.1 hy
  obtain ⟨m1, m2, rfl, -⟩ := digits_two.1 hm
  obtain ⟨d1, d2, rfl, -⟩ := digits_two.1 hd
  refine ⟨rfl, rfl, rfl, fun n => ?_⟩
  rw [← List.drop_drop]
  rfl

theorem slices_timed {h m s : List UInt8} (hh : Digits 2 h) (hm : Digits 2 m) (hs : Digits 2 s) (rest : List UInt8) :
    slice (timed h m s rest) 0 2 = h ∧ slice (timed h m s rest) 3 2 = m ∧ slice (timed h m s rest) 6 2 = s ∧
      (timed h m s rest).drop 8 = rest := by
  obtain ⟨h1, h2, rfl, -⟩ := digits_two.1 hh
  obtain ⟨m1, m2, rfl, -⟩ := digits_two.1 hm
  obtain ⟨s1, s2, rfl, -⟩ := digits_two.1 hs
  exact ⟨rfl, rfl, rfl, rfl⟩

/-- A text of the form of a date and a time is one where their numbers are in range. -/
theorem isFullDate_dated {y m d : List UInt8} (hy : Digits 4 y) (hm : Digits 2 m) (hd : Digits 2 d) :
    IsFullDate (dated y m d []) ↔ IsDay (ofDecimal y) (ofDecimal m) (ofDecimal d) := by
  constructor
  · rintro ⟨y', m', d', hy', hm', hd', hday, heq⟩
    have hparts := slices_dated hy hm hd []
    have hparts' := slices_dated hy' hm' hd' []
    have heq : dated y m d [] = dated y' m' d' [] := by
      rw [heq]
      unfold dated
      rw [List.append_nil]
    rw [heq] at hparts
    rw [← hparts.1, ← hparts.2.1, ← hparts.2.2.1, hparts'.1, hparts'.2.1, hparts'.2.2.1]
    exact hday
  · intro hday
    refine ⟨y, m, d, hy, hm, hd, hday, ?_⟩
    unfold dated
    rw [List.append_nil]

/-! ## Fraction and offset -/

/-- What follows the fraction. -/
def zoneOf (tz : List UInt8) : List UInt8 := if tz.head? = some 0x2E then tz.tail.dropWhile isDigit else tz

/-- The minutes of an offset. -/
def offsetOf (zone : List UInt8) : Int :=
  if zone.length = 6 then
    (if zone.head? = some 0x2D then -1 else 1) * (60 * ofDecimal (slice zone 1 2) + ofDecimal (slice zone 4 2))
  else 0

theorem IsOffset.head {offset : Int} {zone : List UInt8} (h : IsOffset offset zone) :
    ∃ c t, zone = c :: t ∧ isDigit c = false ∧ c ≠ 0x2E := by
  cases h with
  | utc hc => rcases hc with rfl | rfl <;> exact ⟨_, _, rfl, by decide, by decide⟩
  | numeric hsign => rcases hsign with rfl | rfl <;> exact ⟨_, _, rfl, by decide, by decide⟩

theorem IsOffset.offsetOf {offset : Int} {zone : List UInt8} (h : IsOffset offset zone) : offsetOf zone = offset := by
  cases h with
  | utc hc => rfl
  | @numeric sign h m hsign hh hm =>
    obtain ⟨h1, h2, rfl, -⟩ := digits_two.1 hh
    obtain ⟨m1, m2, rfl, -⟩ := digits_two.1 hm
    rcases hsign with rfl | rfl <;> rfl

/-- A fraction is cut off. -/
theorem zoneOf_append {offset : Int} {frac zone : List UInt8} (hfrac : IsFraction frac) (hzone : IsOffset offset zone) :
    zoneOf (frac ++ zone) = zone := by
  obtain ⟨c, t, rfl, hc, hdot⟩ := hzone.head
  unfold zoneOf
  rcases hfrac with rfl | ⟨ds, -, hds, rfl⟩
  · exact if_neg fun h => hdot (Option.some.inj h)
  · refine (if_pos rfl).trans ?_
    rw [List.cons_append, List.tail_cons, List.dropWhile_append_of_pos hds, List.dropWhile_cons_of_neg (by rw [hc]; decide)]

/-- A text of the form of a date-time is one where its date is, and its clock, fraction and offset are. -/
theorem isDateTime_dated {y m d h mi s : List UInt8} {t : UInt8} (hy : Digits 4 y) (hm : Digits 2 m) (hd : Digits 2 d)
    (hh : Digits 2 h) (hmi : Digits 2 mi) (hs : Digits 2 s) (ht : t = 0x54 ∨ t = 0x74) (tz : List UInt8) :
    IsDateTime (dated y m d (t :: timed h mi s tz)) ↔ IsDay (ofDecimal y) (ofDecimal m) (ofDecimal d) ∧
      ∃ frac zone offset, tz = frac ++ zone ∧ IsFraction frac ∧ IsOffset offset zone ∧
        IsClock (ofDecimal h) (ofDecimal mi) (ofDecimal s) offset := by
  constructor
  · rintro ⟨date, t', h', mi', s', frac, zone, offset, ⟨y', m', d', hy', hm', hd', hday, rfl⟩, ht', hh', hmi', hs',
      hclock, hfrac,
      hzone, heq⟩
    have heq : dated y m d (t :: timed h mi s tz) = dated y' m' d' (t' :: timed h' mi' s' (frac ++ zone)) := by
      rw [heq]
      unfold dated timed
      simp only [List.append_assoc, List.cons_append]
    have hparts := slices_dated hy hm hd (t :: timed h mi s tz)
    have hparts' := slices_dated hy' hm' hd' (t' :: timed h' mi' s' (frac ++ zone))
    rw [heq] at hparts
    have hrest : timed h mi s tz = timed h' mi' s' (frac ++ zone) := (hparts.2.2.2 1).symm.trans (hparts'.2.2.2 1)
    have htime := slices_timed hh hmi hs tz
    have htime' := slices_timed hh' hmi' hs' (frac ++ zone)
    rw [hrest] at htime
    refine ⟨?_, frac, zone, offset, htime.2.2.2.symm.trans htime'.2.2.2, hfrac, hzone, ?_⟩
    · rw [← hparts.1, ← hparts.2.1, ← hparts.2.2.1, hparts'.1, hparts'.2.1, hparts'.2.2.1]
      exact hday
    · rw [← htime.1, ← htime.2.1, ← htime.2.2.1, htime'.1, htime'.2.1, htime'.2.2.1]
      exact hclock
  · rintro ⟨hday, frac, zone, offset, rfl, hfrac, hzone, hclock⟩
    refine ⟨dated y m d [], t, h, mi, s, frac, zone, offset, (isFullDate_dated hy hm hd).2 hday, ht, hh, hmi, hs,
      hclock, hfrac,
      hzone, ?_⟩
    unfold dated timed
    simp only [List.append_assoc, List.cons_append, List.append_nil]

end Anvil.Lib.Rfc3339
