import Savr.Lib.Positional

/-!
# The Gregorian calendar

Dates from the year 0 on, and the number of days before them.  Years, months and days are
the digits of that number: dates are in the order of their fields.

## Main results

* `Date.number_lt_iff` — the order of dates.
-/

namespace Calendar

open Positional

/-- The year has a 29th of February. -/
def isLeap (year : ℕ) : Bool :=
  (year % 4 = 0 ∧ year % 100 ≠ 0) ∨ year % 400 = 0

/-- The length of a month, from 1 to 12. -/
def monthLength (year month : ℕ) : ℕ :=
  match month with
  | 2 => if isLeap year then 29 else 28
  | 4 | 6 | 9 | 11 => 30
  | _ => 31

/-- The lengths of the months, counted from 0. -/
def months (year i : ℕ) : ℕ := monthLength year (i + 1)

/-- The days of a year with these months. -/
def yearLength (year : ℕ) : ℕ := before (months year) 12

/-- A day of the calendar: the day is one that its month has in its year. -/
structure Date where
  year : ℕ
  month : ℕ
  day : ℕ
  month_pos : 1 ≤ month
  month_le : month ≤ 12
  day_pos : 1 ≤ day
  day_le : day ≤ monthLength year month
  deriving DecidableEq

namespace Date

/-- The days of the year before the date. -/
def ordinal (d : Date) : ℕ := before (months d.year) (d.month - 1) + (d.day - 1)

/-- The days before the date, from the first day of the year 0 on. -/
def number (d : Date) : ℕ := before yearLength d.year + d.ordinal

variable {a b d : Date}

theorem day_lt (d : Date) : d.day - 1 < months d.year (d.month - 1) := by
  have hday := d.day_le
  have hpos := d.day_pos
  rw [months, Nat.sub_add_cancel d.month_pos]
  omega

/-- A day's number is below the number of days of its year. -/
theorem ordinal_lt (d : Date) : d.ordinal < yearLength d.year := by
  have hmonth : d.month - 1 + 1 ≤ 12 := by
    have hle := d.month_le
    have hpos := d.month_pos
    omega
  calc d.ordinal
      < before (months d.year) (d.month - 1 + 1) :=
        Nat.add_lt_add_left d.day_lt _
    _ ≤ yearLength d.year := before_mono hmonth

/-- Within a year, days are ordered by month and then by day. -/
theorem ordinal_lt_iff (hyear : a.year = b.year) :
    a.ordinal < b.ordinal ↔ a.month < b.month ∨ a.month = b.month ∧ a.day < b.day := by
  have hdays := before_add_lt_iff a.day_lt (hyear ▸ b.day_lt)
  rw [ordinal, ordinal, ← hyear, hdays]
  have ha := a.month_pos
  have hb := b.month_pos
  have ha' := a.day_pos
  have hb' := b.day_pos
  omega

/-- **The order of dates.** -/
theorem number_lt_iff : a.number < b.number ↔ a.year < b.year ∨
    a.year = b.year ∧ (a.month < b.month ∨ a.month = b.month ∧ a.day < b.day) := by
  rw [number, number, before_add_lt_iff a.ordinal_lt b.ordinal_lt]
  exact or_congr_right (and_congr_right fun hyear => ordinal_lt_iff hyear)

/-- The days before the Unix epoch. -/
example : number ⟨1970, 1, 1, by decide, by decide, by decide, by decide⟩ = 719528 := by
  decide +kernel

end Date

end Calendar
