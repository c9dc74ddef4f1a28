import Mathlib.Tactic.Common
import Mathlib.Tactic.IntervalCases

/-!
# The civil calendar

Days are counted year by year and month by month.  An algorithm that counts them in eras of four
hundred years, each from its first of March, comes to the same number.
-/

namespace Calendar

def isLeap (year : Nat) : Bool := year % 4 = 0 && (year % 100 ≠ 0 || year % 400 = 0)

def yearLength (year : Nat) : Nat := if isLeap year then 366 else 365

def daysBeforeYear : Nat → Nat
  | 0 => 0
  | year + 1 => daysBeforeYear year + yearLength year

def monthLength (leap : Bool) : Nat → Nat
  | 2 => if leap then 29 else 28
  | 4 | 6 | 9 | 11 => 30
  | _ => 31

def daysBeforeMonth (leap : Bool) : Nat → Nat
  | 0 | 1 => 0
  | month + 2 => daysBeforeMonth leap (month + 1) + monthLength leap (month + 1)

structure Date where
  year : Nat
  month : Nat
  day : Nat
  year_bounds : 1 ≤ year ∧ year ≤ 9999
  month_bounds : 1 ≤ month ∧ month ≤ 12
  day_bounds : 1 ≤ day ∧ day ≤ monthLength (isLeap year) month

def Date.dayNumber (date : Date) : Int :=
  (daysBeforeYear date.year + daysBeforeMonth (isLeap date.year) date.month + date.day : Nat) -
    (daysBeforeYear 1970 + 1 : Nat)

theorem daysBeforeYear_succ (year : Nat) :
    daysBeforeYear (year + 1) = 365 * (year + 1) + year / 4 - year / 100 + year / 400 + 1 := by
  induction year with
  | zero => rfl
  | succ year inductionHypothesis =>
    rw [daysBeforeYear, inductionHypothesis, yearLength]
    by_cases leap : isLeap (year + 1) = true
    · rw [if_pos leap]
      simp only [isLeap, Bool.and_eq_true, Bool.or_eq_true, decide_eq_true_eq] at leap
      omega
    · rw [if_neg leap]
      simp only [isLeap, Bool.and_eq_true, Bool.or_eq_true, decide_eq_true_eq] at leap
      omega

theorem daysBeforeYear_epoch : daysBeforeYear 1970 = 719528 := by
  rw [daysBeforeYear_succ]

/-- The days since the first of March of the year 0, for a year that begins in March. -/
def daysFromMarch (year monthIndex day : Int) : Int :=
  365 * year + year / 4 - year / 100 + year / 400 + (153 * monthIndex + 2) / 5 + (day - 1)

theorem monthLength_le (leap : Bool) (month : Nat) : monthLength leap month ≤ 31 := by
  unfold monthLength
  split
  · cases leap <;> decide
  all_goals decide

theorem daysBeforeMonth_eq (leap : Bool) {month : Nat} (late : 3 ≤ month) (last : month ≤ 12) :
    daysBeforeMonth leap month = (if leap then 60 else 59) + (153 * (month - 3) + 2) / 5 := by
  interval_cases month <;> cases leap <;> rfl

theorem dayNumber_eq (date : Date) :
    date.dayNumber = daysFromMarch (if date.month ≤ 2 then (date.year : Int) - 1 else date.year)
      (((date.month : Int) + 9) % 12) date.day - 719468 := by
  obtain ⟨year, month, day, ⟨positive, -⟩, ⟨first, last⟩, -⟩ := date
  obtain ⟨year, rfl⟩ := Nat.exists_eq_add_of_le' positive
  unfold Date.dayNumber daysFromMarch
  dsimp only
  rw [daysBeforeYear_epoch]
  by_cases early : month ≤ 2
  · have january : month = 1 ∨ month = 2 := by omega
    rw [if_pos early, daysBeforeYear_succ]
    rcases january with rfl | rfl
    · simp only [daysBeforeMonth]
      omega
    · simp only [daysBeforeMonth, monthLength]
      omega
  · have late : 3 ≤ month := by omega
    -- The next year's beginning is told by the same rule, and its length by whether it leaps.
    have next : daysBeforeYear (year + 1) + yearLength (year + 1) = _ := daysBeforeYear_succ (year + 1)
    rw [if_neg early, daysBeforeMonth_eq _ late last]
    unfold yearLength at next
    by_cases leap : isLeap (year + 1) = true
    · rw [if_pos leap] at next ⊢
      omega
    · rw [if_neg leap] at next ⊢
      omega

end Calendar
