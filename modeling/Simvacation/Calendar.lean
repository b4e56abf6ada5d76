import Mathlib.Algebra.BigOperators.Intervals
import Mathlib.Tactic.IntervalCases

/-!
The Gregorian calendar, counted. A date is so many days after 1 January 1970 as
there are days in the years, the months and the days between. A formula
gives the same number.
-/

namespace Simvacation.Calendar

def isLeap (year : ℕ) : Bool := year % 4 = 0 && (year % 100 ≠ 0 || year % 400 = 0)

def yearLength (year : ℕ) : ℤ := if isLeap year then 366 else 365

def monthLength (year month : ℕ) : ℕ :=
  if month = 2 then if isLeap year then 29 else 28
  else if month = 4 ∨ month = 6 ∨ month = 9 ∨ month = 11 then 30
  else 31

structure Date where
  year : ℕ
  month : ℕ
  day : ℕ
  month_pos : 1 ≤ month
  month_le : month ≤ 12
  day_pos : 1 ≤ day
  day_le : day ≤ monthLength year month

/-- The days of the years between, negative before 1970. -/
def yearStart (year : ℕ) : ℤ :=
  ∑ y ∈ Finset.Ico 1970 year, yearLength y - ∑ y ∈ Finset.Ico year 1970, yearLength y

def monthStart (year month : ℕ) : ℤ := ∑ m ∈ Finset.Ico 1 month, (monthLength year m : ℤ)

/-- The number of a day, 0 for 1 January 1970. -/
def Date.epochDay (date : Date) : ℤ :=
  yearStart date.year + monthStart date.year date.month + (date.day - 1)

/-- The years counted from 1900, as the seconds since the epoch are defined by them. -/
def yearFormula (year : ℕ) : ℤ :=
  let y : ℤ := year - 1900
  (y - 70) * 365 + (y - 69) / 4 - (y - 1) / 100 + (y + 299) / 400

theorem yearFormula_succ (year : ℕ) :
    yearFormula (year + 1) = yearFormula year + yearLength year := by
  have hleap : yearLength year =
      if year % 4 = 0 ∧ (year % 100 ≠ 0 ∨ year % 400 = 0) then 366 else 365 := by
    simp [yearLength, isLeap]
  simp only [yearFormula, Nat.cast_add, Nat.cast_one]
  rw [hleap]
  split <;> omega

theorem sum_yearLength {a b : ℕ} (h : a ≤ b) :
    ∑ y ∈ Finset.Ico a b, yearLength y = yearFormula b - yearFormula a := by
  induction b, h using Nat.le_induction with
  | base => simp
  | succ b hab ih =>
    rw [Finset.sum_Ico_succ_top hab, ih, yearFormula_succ]
    omega

theorem yearStart_eq (year : ℕ) : yearStart year = yearFormula year := by
  have hepoch : yearFormula 1970 = 0 := by decide
  rcases le_total 1970 year with h | h
  · rw [yearStart, Finset.Ico_eq_empty_of_le h, sum_yearLength h, hepoch, Finset.sum_empty]
    omega
  · rw [yearStart, Finset.Ico_eq_empty_of_le h, sum_yearLength h, hepoch, Finset.sum_empty]
    omega

/-- The days before each month of a year without a leap day. -/
def monthTable : List ℤ := [0, 31, 59, 90, 120, 151, 181, 212, 243, 273, 304, 334]

theorem monthStart_eq {year month : ℕ} (hpos : 1 ≤ month) (hle : month ≤ 12) :
    monthStart year month =
      monthTable.getD (month - 1) 0 + if 2 < month ∧ isLeap year then 1 else 0 := by
  unfold monthStart
  interval_cases month <;> cases hleap : isLeap year <;>
    simp [Finset.sum_Ico_succ_top, monthLength, hleap, monthTable]

end Simvacation.Calendar
