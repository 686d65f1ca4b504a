/-
The proleptic Gregorian calendar as day counts from 1970-01-01.
-/
import Mathlib.Tactic

namespace Calendar

/-- Days from the epoch to a civil date.  Years are counted from March, so
that a leap day ends its year. -/
def daysFromCivil (year month day : Int) : Int :=
  let y := if month ≤ 2 then year - 1 else year
  let era := y / 400
  let yearOfEra := y - era * 400
  let dayOfYear := (153 * (if month > 2 then month - 3 else month + 9) + 2) / 5 + day - 1
  let dayOfEra := yearOfEra * 365 + yearOfEra / 4 - yearOfEra / 100 + dayOfYear
  era * 146097 + dayOfEra - 719468

/-- The civil date of a day count: year, month and day. -/
def civilFromDays (days : Int) : Int × Int × Int :=
  let z := days + 719468
  let era := z / 146097
  let dayOfEra := z - era * 146097
  let yearOfEra := (dayOfEra - dayOfEra / 1460 + dayOfEra / 36524 - dayOfEra / 146096) / 365
  let dayOfYear := dayOfEra - (365 * yearOfEra + yearOfEra / 4 - yearOfEra / 100)
  let mp := (5 * dayOfYear + 2) / 153
  let day := dayOfYear - (153 * mp + 2) / 5 + 1
  let month := if mp < 10 then mp + 3 else mp - 9
  (yearOfEra + era * 400 + (if month ≤ 2 then 1 else 0), month, day)

example : daysFromCivil 1970 1 1 = 0 := by decide

example : civilFromDays (daysFromCivil 2000 2 29) = (2000, 2, 29) := by decide

/-- The year that a New Year's Day within an era is found in. -/
theorem yearOfEra_newYear {n : Int} (hlow : 0 ≤ n) (hhigh : n < 400) :
    (n * 365 + n / 4 - n / 100 + 306 - (n * 365 + n / 4 - n / 100 + 306) / 1460 +
        (n * 365 + n / 4 - n / 100 + 306) / 36524 -
        (n * 365 + n / 4 - n / 100 + 306) / 146096) / 365 = n := by
  omega

theorem civilFromDays_newYear (year : Int) :
    civilFromDays (daysFromCivil year 1 1) = (year, 1, 1) := by
  have hlow : 0 ≤ year - 1 - (year - 1) / 400 * 400 := by omega
  have hhigh : year - 1 - (year - 1) / 400 * 400 < 400 := by omega
  have hyear := yearOfEra_newYear hlow hhigh
  generalize hn : year - 1 - (year - 1) / 400 * 400 = n at hlow hhigh hyear
  have hera : ((year - 1) / 400 * 146097 + (n * 365 + n / 4 - n / 100 + 306)) / 146097 =
      (year - 1) / 400 := by omega
  have hdays : daysFromCivil year 1 1 + 719468 =
      (year - 1) / 400 * 146097 + (n * 365 + n / 4 - n / 100 + 306) := by
    simp [daysFromCivil, hn]
  have hofYear : (n * 365 + n / 4 - n / 100 + 306) - (365 * n + n / 4 - n / 100) = 306 := by
    ring
  simp only [civilFromDays, hdays, hera, add_sub_cancel_left, hyear, hofYear]
  norm_num
  omega

theorem daysFromCivil_newYear_eq_zero_iff (year : Int) :
    daysFromCivil year 1 1 = 0 ↔ year = 1970 := by
  constructor
  · intro hzero
    have hyear := civilFromDays_newYear year
    rw [hzero] at hyear
    exact (Prod.ext_iff.mp hyear).1.symm
  · rintro rfl
    decide

end Calendar
