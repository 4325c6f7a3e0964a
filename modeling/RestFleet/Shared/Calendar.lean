import Mathlib.Data.Nat.Notation
import Mathlib.Data.Int.Notation

/-! # The Gregorian calendar

Dates of the proleptic Gregorian calendar from day numbers, where day `0` is the first of January of
year 1. -/

namespace RestFleet.Calendar

/-- A date; months and days count from 1. -/
structure Date where
  year : ℤ
  month : ℕ
  day : ℕ
  deriving DecidableEq

def isLeap (year : ℤ) : Bool := year % 4 = 0 && (year % 100 ≠ 0 || year % 400 = 0)

def monthLengths (leap : Bool) : List ℕ :=
  [31, if leap then 29 else 28, 31, 30, 31, 30, 31, 31, 30, 31, 30, 31]

/-- The month and day of a day of the year, with `month` the month of the first length. -/
def monthDay : List ℕ → ℕ → ℕ → ℕ × ℕ
  | [], month, day => (month, day + 1)
  | length :: rest, month, day =>
    if day < length then (month, day + 1) else monthDay rest (month + 1) (day - length)

/-- Years are counted off in cycles of 400, 100, 4 and 1; the last century and the last year of a
cycle are one day longer than the others. -/
def date (days : ℤ) : Date :=
  let n400 := days / 146097
  let rest := days % 146097
  let n100 := min (rest / 36524) 3
  let rest := rest - n100 * 36524
  let n4 := rest / 1461
  let rest := rest - n4 * 1461
  let n1 := min (rest / 365) 3
  let rest := rest - n1 * 365
  let year := 400 * n400 + 100 * n100 + 4 * n4 + n1 + 1
  let (month, day) := monthDay (monthLengths (isLeap year)) 1 rest.toNat
  ⟨year, month, day⟩

example : date 719162 = ⟨1970, 1, 1⟩ := by decide
example : date 730178 = ⟨2000, 2, 29⟩ := by decide

/-- Sunday is `0`; day `0` was a Monday. -/
def weekday (days : ℤ) : ℕ := ((days + 1) % 7).toNat

end RestFleet.Calendar
