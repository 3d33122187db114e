import Mathlib.Algebra.BigOperators.Group.Finset.Basic
import OpenWbem.Cim.Data

/-!
# Dates, times and intervals

`CIMDateTime` is either an interval or a date with a time and an offset in minutes. The order of two
dates is that of numbers that the code computes as if every year had 366 days. Here these numbers
are compared with the calendar: they run ahead of it by one day for each common year that has
passed.

## Main definitions

* `DateTimeData.getMagnitude`, `DateTimeData.lt` — the order.
* `DateTimeData.ofMicroSeconds` — the interval of a number of microseconds.
* `DateTimeData.instant` — the microseconds from the beginning of the year 0, by the calendar.

## Main results

* `DateTimeData.lt_iff_instant_lt_iff` — for which dates the order is that of the instants.
* `DateTimeData.ofMicroSeconds_exact_iff` — for which numbers the interval is exact.
-/

namespace OpenWbem

/-- `StrictWeakOrdering`: pairs of numbers are compared one after the other. -/
def strictWeakOrdering : List (ℤ × ℤ) → Bool
  | [] => false
  | (x, y) :: l => decide (x < y) || (!decide (y < x) && strictWeakOrdering l)

namespace DateTimeData

/-! ### The order -/

/-- `isLeap` -/
def isLeap (year : ℕ) : Bool := year % 4 = 0 && (year % 100 ≠ 0 || year % 400 = 0)

/-- How many days come before each month. -/
def monthYearDay (leap : Bool) : List ℤ :=
  if leap then [0, 31, 60, 91, 121, 152, 182, 213, 244, 274, 305, 335, 366]
  else [0, 31, 59, 90, 120, 151, 181, 212, 243, 273, 304, 334, 365]

/-- `getMagnitude`. Sums of type `int` are taken modulo `2 ^ 32`. For the month 0 the code reads the
number in front of the table, here it is that of the first month. -/
def getMagnitude (d : DateTimeData) : ℤ :=
  if 12 < d.month then 0
  else
    let dayOfYear := ((monthYearDay (isLeap d.year.toNat)).getD (d.month.toNat - 1) 0
      + d.days.toNat - 1).bmod (2 ^ 32)
    let days := (366 * ((d.year.toNat : ℤ) - 1970) + dayOfYear).bmod (2 ^ 32)
    d.seconds.toNat + 60 * (d.minutes.toNat + d.utc.toInt)
      + 3600 * (d.hours.toNat + 24 * days).bmod (2 ^ 32)

/-- `operator<` -/
def lt (x y : DateTimeData) : Bool :=
  if xor (x.isInterval != 0) (y.isInterval != 0) then x.isInterval != 0
  else if x.isInterval != 0 then
    strictWeakOrdering [(x.days.toNat, y.days.toNat), (x.hours.toNat, y.hours.toNat),
      (x.minutes.toNat, y.minutes.toNat), (x.seconds.toNat, y.seconds.toNat),
      (x.microSeconds.toNat, y.microSeconds.toNat)]
  else
    strictWeakOrdering [(x.getMagnitude, y.getMagnitude),
      (x.microSeconds.toNat, y.microSeconds.toNat)]

/-! ### The calendar -/

open Finset

/-- The number of days of a year. -/
def yearLength (year : ℕ) : ℤ := if isLeap year then 366 else 365

/-- The number of days of a month. -/
def monthLength (leap : Bool) (month : ℕ) : ℤ :=
  if month = 2 then if leap then 29 else 28
  else if month ∈ [4, 6, 9, 11] then 30 else 31

/-- The fields are those of a date and a time of the calendar, and of an offset. -/
structure Valid (d : DateTimeData) : Prop where
  date : d.isInterval = 0
  year : d.year.toNat ≤ 9999
  month : 1 ≤ d.month.toNat ∧ d.month.toNat ≤ 12
  day : 1 ≤ d.days.toNat ∧ (d.days.toNat : ℤ) ≤ monthLength (isLeap d.year.toNat) d.month.toNat
  hours : d.hours.toNat < 24
  minutes : d.minutes.toNat < 60
  seconds : d.seconds.toNat < 60
  microSeconds : d.microSeconds.toNat < 10 ^ 6
  utc : -999 ≤ d.utc.toInt ∧ d.utc.toInt ≤ 999

/-- The days from the beginning of the year 0. -/
def dayNumber (d : DateTimeData) : ℤ :=
  ∑ i ∈ range d.year.toNat, yearLength i
    + ∑ j ∈ range (d.month.toNat - 1), monthLength (isLeap d.year.toNat) (j + 1) + d.days.toNat

/-- The microseconds of a day. -/
def day : ℤ := 86400 * 10 ^ 6

/-- The instant that a date denotes, in microseconds: the local time plus the offset. -/
def instant (d : DateTimeData) : ℤ :=
  d.dayNumber * day + (d.hours.toNat * 3600 + (d.minutes.toNat + d.utc.toInt) * 60 +
    d.seconds.toNat)
    * 10 ^ 6 + d.microSeconds.toNat

/-- The number of common years before a year. -/
def commonYears (year : ℕ) : ℤ := ∑ i ∈ range year, if isLeap i then 0 else 1

/-- Days in all years before. -/
lemma sum_yearLength (year : ℕ) :
    ∑ i ∈ range year, yearLength i + commonYears year = 366 * year := by
  rw [commonYears, ← sum_add_distrib, sum_congr rfl, sum_const, card_range, nsmul_eq_mul, mul_comm]
  intro i _
  unfold yearLength
  split_ifs <;> rfl

/-- Days in all months before. -/
lemma getD_monthYearDay (leap : Bool) {month : ℕ} (h : 1 ≤ month ∧ month ≤ 12) :
    (monthYearDay leap).getD (month - 1) 0 = ∑ j ∈ range (month - 1), monthLength leap (j + 1) := by
  obtain ⟨hlow, hhigh⟩ := h
  interval_cases month <;> cases leap <;> decide

/-- No month has more than 31 days. -/
lemma monthLength_le (leap : Bool) (month : ℕ) : monthLength leap month ≤ 31 := by
  unfold monthLength
  split_ifs <;> decide

/-- The magnitude is ahead of the calendar by a day for each common year. -/
lemma getMagnitude_eq {d : DateTimeData} (h : d.Valid) :
    d.getMagnitude * 10 ^ 6 + d.microSeconds.toNat
      = d.instant + day * (commonYears d.year.toNat - 366 * 1970 - 1) := by
  have hmonth : ¬ 12 < d.month := by
    exact Nat.not_lt.2 h.month.2
  have hdays := sum_yearLength d.year.toNat
  have htable := getD_monthYearDay (isLeap d.year.toNat) h.month
  have hbound : 0 ≤ (monthYearDay (isLeap d.year.toNat)).getD (d.month.toNat - 1) 0 ∧
      (monthYearDay (isLeap d.year.toNat)).getD (d.month.toNat - 1) 0 ≤ 366 := by
    have hm := h.month
    generalize d.month.toNat = month at hm
    obtain ⟨hlow, hhigh⟩ := hm
    interval_cases month <;> cases isLeap d.year.toNat <;> decide
  have hday := h.day.2.trans (monthLength_le _ _)
  have hyear := h.year
  have hhours := h.hours
  rw [getMagnitude, if_neg hmonth, instant, dayNumber, day]
  simp only [Int.bmod]
  omega

/-- The comparison of the code, as numbers. -/
lemma lt_of_date {x y : DateTimeData} (hx : x.Valid) (hy : y.Valid) :
    x.lt y ↔ x.getMagnitude * 10 ^ 6 + x.microSeconds.toNat
      < y.getMagnitude * 10 ^ 6 + y.microSeconds.toNat := by
  have hmx := hx.microSeconds
  have hmy := hy.microSeconds
  simp [lt, hx.date, hy.date, strictWeakOrdering]
  omega

/-- **When dates are ordered as the instants that they denote.** For dates of the calendar the order
of the code is that of the instants unless the instant of `y` lies between that of `x` and that of
`x` moved by one day for each common year between their years. -/
theorem lt_iff_instant_lt_iff {x y : DateTimeData} (hx : x.Valid) (hy : y.Valid) :
    (x.lt y ↔ x.instant < y.instant) ↔ ¬ (x.instant < y.instant ∧ y.instant ≤ x.instant
          + day * (commonYears x.year.toNat - commonYears y.year.toNat)) ∧
      ¬ (x.instant + day * (commonYears x.year.toNat - commonYears y.year.toNat) < y.instant ∧
          y.instant ≤ x.instant) := by
  rw [lt_of_date hx hy, getMagnitude_eq hx, getMagnitude_eq hy, day]
  omega

/-- 20:00 on the last day of 2001 with an offset of ten hours, six hours into the next year. -/
def lastEvening : DateTimeData := ⟨2001, 12, 31, 20, 0, 0, 0, 600, 0⟩

/-- 05:00 on the first day of 2002. -/
def firstMorning : DateTimeData := ⟨2002, 1, 1, 5, 0, 0, 0, 0, 0⟩

/-- The first sample is a date. -/
lemma valid_lastEvening : lastEvening.Valid := by constructor <;> decide

/-- So is the second one. -/
lemma valid_firstMorning : firstMorning.Valid := by constructor <;> decide

/-- Six in the morning comes before five in the morning. -/
theorem lastEvening_lt_firstMorning :
    ∃ x y : DateTimeData, x.Valid ∧ y.Valid ∧ x.lt y ∧ y.instant < x.instant :=
  ⟨lastEvening, firstMorning, valid_lastEvening, valid_firstMorning,
    by decide +kernel, by decide +kernel⟩

/-- **At the turn of a year**: the condition for two dates. -/
theorem lt_iff_instant_lt_iff_lastEvening : lastEvening.Valid ∧ firstMorning.Valid ∧
      ((lastEvening.lt firstMorning ↔ lastEvening.instant < firstMorning.instant) ↔
        ¬ (lastEvening.instant < firstMorning.instant ∧ firstMorning.instant ≤ lastEvening.instant
            + day * (commonYears 2001 - commonYears 2002)) ∧
        ¬ (lastEvening.instant + day * (commonYears 2001 - commonYears 2002) <
          firstMorning.instant ∧
            firstMorning.instant ≤ lastEvening.instant)) :=
  ⟨valid_lastEvening, valid_firstMorning,
    lt_iff_instant_lt_iff valid_lastEvening valid_firstMorning⟩

/-! ### Intervals -/

/-- The constructor from a number of microseconds. The variables `secs`, `minutes`, `hours` and
`days` of the source have 32 bits, and so has the product of the seconds. -/
def ofMicroSeconds (microSeconds : UInt64) : DateTimeData :=
  let secs : UInt32 := (microSeconds / 1000000).toUInt32
  let microSeconds := microSeconds - (secs * 1000000).toUInt64
  let minutes := secs / 60
  let secs := secs - minutes * 60
  let hours := minutes / 60
  let minutes := minutes - hours * 60
  let days := hours / 24
  let hours := hours - days * 24
  ⟨0, 0, days, hours.toUInt8, minutes.toUInt8, secs.toUInt8, microSeconds.toUInt32, 0, 1⟩

/-- The microseconds of an interval. -/
def total (d : DateTimeData) : ℕ :=
  (((d.days.toNat * 24 + d.hours.toNat) * 60 + d.minutes.toNat) * 60 + d.seconds.toNat) * 10 ^ 6
    + d.microSeconds.toNat

/-- An interval of `m` microseconds whose fields are in their ranges. -/
structure IsInterval (d : DateTimeData) (m : ℕ) : Prop where
  interval : d.isInterval ≠ 0
  hours : d.hours.toNat < 24
  minutes : d.minutes.toNat < 60
  seconds : d.seconds.toNat < 60
  microSeconds : d.microSeconds.toNat < 10 ^ 6
  total : d.total = m

/-- Intervals are ordered by their lengths. -/
lemma lt_of_interval {x y : DateTimeData} {m n : ℕ} (hx : x.IsInterval m) (hy : y.IsInterval n) :
    x.lt y ↔ m < n := by
  obtain ⟨hix, hhx, hmx, hsx, hux, rfl⟩ := hx
  obtain ⟨hiy, hhy, hmy, hsy, huy, rfl⟩ := hy
  rw [← bne_iff_ne] at hix hiy
  simp [lt, hix, hiy, strictWeakOrdering, total]
  omega

/-- What the code computes instead of a remainder. -/
lemma toNat_sub_div_mul (a : UInt32) {k : UInt32} (hk : 0 < k.toNat ∧ k.toNat ≤ 256) :
    (a - a / k * k).toUInt8.toNat = a.toNat % k.toNat := by
  have hle := Nat.div_mul_le_self a.toNat k.toNat
  have hlt := a.toNat_lt
  have hmod := Nat.div_add_mod' a.toNat k.toNat
  have hrem := Nat.mod_lt a.toNat hk.1
  rw [UInt32.toNat_toUInt8, UInt32.toNat_sub, UInt32.toNat_mul, UInt32.toNat_div]
  omega

/-- The seconds are taken modulo `2 ^ 32`, all else is exact. -/
lemma isInterval_ofMicroSeconds (m : UInt64) :
    (ofMicroSeconds m).IsInterval (m.toNat / 10 ^ 6 % 2 ^ 32 * 10 ^ 6 + m.toNat % 10 ^ 6) := by
  have hmicro : (m - ((m / 1000000).toUInt32 * 1000000).toUInt64).toUInt32.toNat =
      m.toNat % 10 ^ 6 := by
    simp only [UInt32.toNat_mul, UInt32.toNat_toUInt64, UInt32.reduceToNat, UInt64.toNat_toUInt32,
      UInt64.toNat_div, UInt64.toNat_sub, UInt64.reduceToNat]
    omega
  have hsecs : (m / 1000000).toUInt32.toNat = m.toNat / 10 ^ 6 % 2 ^ 32 := by
    rfl
  constructor <;>
    simp (disch := decide) only [ofMicroSeconds, total, toNat_sub_div_mul, hmicro, hsecs,
      UInt32.toNat_div, UInt32.reduceToNat]
  · decide
  all_goals omega

/-- **When the interval of a number of microseconds is exact.** The interval has the length that it
was made from just if that is less than `2 ^ 32` seconds, and two intervals that are both exact are
in the order of their lengths. -/
theorem ofMicroSeconds_exact_iff (m n : UInt64) :
    ((ofMicroSeconds m).IsInterval m.toNat ↔ m.toNat < 2 ^ 32 * 10 ^ 6) ∧
      (m < n → (((ofMicroSeconds m).IsInterval m.toNat ∧ (ofMicroSeconds n).IsInterval n.toNat ∧
        (ofMicroSeconds m).lt (ofMicroSeconds n)) ↔ n.toNat < 2 ^ 32 * 10 ^ 6)) := by
  have hexact (k : UInt64) : (ofMicroSeconds k).IsInterval k.toNat ↔ k.toNat < 2 ^ 32 * 10 ^ 6 := by
    have hk := isInterval_ofMicroSeconds k
    constructor
    · intro h
      have heq := hk.total.symm.trans h.total
      omega
    · intro h
      rwa [show k.toNat / 10 ^ 6 % 2 ^ 32 * 10 ^ 6 + k.toNat % 10 ^ 6 = k.toNat by omega] at hk
  refine ⟨hexact m, fun hlt => ⟨fun h => (hexact n).1 h.2.1, fun h => ?_⟩⟩
  have hem := (hexact m).2 (hlt.trans h)
  exact ⟨hem, (hexact n).2 h, (lt_of_interval hem ((hexact n).2 h)).2 hlt⟩

/-- `2 ^ 32` seconds, less than 50000 days, give an empty interval. -/
theorem ofMicroSeconds_wraps :
    ∃ m : UInt64, m.toNat / 86400000000 < 10 ^ 8 ∧ ¬ (ofMicroSeconds m).IsInterval m.toNat ∧
      (ofMicroSeconds m).lt (ofMicroSeconds (m - 1)) :=
  ⟨4294967296000000, by decide, fun h => absurd h.total (by decide), by decide⟩

end DateTimeData

end OpenWbem
