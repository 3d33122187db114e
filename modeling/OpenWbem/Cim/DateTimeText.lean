import Mathlib.Data.Nat.Digits.Lemmas
import OpenWbem.Binary.RoundTrip

/-!
# The text of dates, times and intervals

`CIMDateTime` has two textual layouts, `ddddddddhhmmss.mmmmmm:000` for intervals and
`yyyymmddhhmmss.mmmmmmsutc` for dates. The text is made with `sprintf`, whose widths are least ones.

## Main definitions

* `padded`, `signed` — what the code uses of the C library.
* `DateTimeData.toString` — from values to texts.

## Main results

* `DateTimeData.length_toString_le_iff` — which texts fit into the buffer.
-/

namespace OpenWbem

open Reader Binary List

/-- `%0wu` in a format: a number in at least `w` digits. -/
def padded (w n : ℕ) : ByteStr :=
  ((Nat.digitsAppend 10 w n).map fun k => UInt8.ofNat (48 + k)).reverse

/-- `%+04d` in a format. -/
def signed (n : ℤ) : ByteStr := (if n < 0 then 45 else 43) :: padded 3 n.natAbs

/-- The length of a padded number. -/
lemma length_padded (w n : ℕ) : (padded w n).length = w + ((Nat.digits 10 n).length - w) := by
  simp only [padded, Nat.digitsAppend, length_reverse, length_map, length_append,
    length_replicate]
  omega

namespace DateTimeData

/-- `CIMDateTime::toString` -/
def toString (d : DateTimeData) : ByteStr :=
  let time := padded 2 d.hours.toNat ++ padded 2 d.minutes.toNat ++ padded 2 d.seconds.toNat ++
    46 :: padded 6 d.microSeconds.toNat
  if d.isInterval != 0 then
    padded 8 d.days.toNat ++ time ++ [58, 48, 48, 48]
  else
    padded 4 d.year.toNat ++ padded 2 d.month.toNat ++ padded 2 d.days.toNat ++ time ++
      signed d.utc.toInt

/-- The digits of a number beyond the width of its field. -/
def excess (w n : ℕ) : ℕ := (Nat.digits 10 n).length - w

/-- **Which texts fit into the buffer.** Any data can be read from a stream, and their text has at
most 29 characters only if the fields have at most four digits beyond the widths of the format. -/
theorem length_toString_le_iff (d : DateTimeData) : Reads readDateTime (writeDateTime d) d ∧
      (d.toString.length ≤ 29 ↔ (if d.isInterval != 0 then excess 8 d.days.toNat
        else excess 4 d.year.toNat + excess 2 d.month.toNat + excess 2 d.days.toNat
          + excess 3 d.utc.toInt.natAbs)
          + excess 2 d.hours.toNat + excess 2 d.minutes.toNat + excess 2 d.seconds.toNat
          + excess 6 d.microSeconds.toNat ≤ 4) := by
  refine ⟨reads_dateTime d, ?_⟩
  unfold toString
  split_ifs
  all_goals
    simp only [signed, length_append, length_cons, length_nil, length_padded]
    unfold excess
    omega

/-- An interval whose fields are all as large as possible. -/
theorem toString_overflows : let d : DateTimeData :=
      ⟨0, 0, 4294967295, 255, 255, 255, 4294967295, 0, 1⟩
    Reads readDateTime (writeDateTime d) d ∧ 29 < d.toString.length :=
  ⟨reads_dateTime _, by decide +kernel⟩

end DateTimeData

end OpenWbem
