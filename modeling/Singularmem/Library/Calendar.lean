import Mathlib.Data.Int.Order.Basic
import Mathlib.Tactic.Common
import Mathlib.Tactic.IntervalCases

/-!
# The proleptic Gregorian calendar

Days are counted from 1 January of year 0; the calendar extends to all years
before and after. A day has one civil date, later days have later dates, and the
date gives the day back.
-/

namespace Singularmem.Library.Calendar

/-- Days from 1 January of year 0 to 1 January of a year. -/
def daysBeforeYear (year : Int) : Int :=
  365 * year + (year + 3) / 4 - (year + 99) / 100 + (year + 399) / 400

/-- The year of a day: an estimate by the mean length of a year, off by at most
one. -/
def yearOf (day : Int) : Int :=
  let estimate := day * 400 / 146097
  if day < daysBeforeYear estimate then estimate - 1
  else if daysBeforeYear (estimate + 1) ≤ day then estimate + 1
  else estimate

/-- One in a leap year. -/
def leapDay (year : Int) : Nat := (daysBeforeYear (year + 1) - daysBeforeYear year - 365).toNat

/-- Days of a year before a month, counting the months from zero. -/
def daysBeforeMonth (leap : Nat) : Nat → Nat
  | 0 => 0
  | 1 => 31
  | 2 => 59 + leap
  | 3 => 90 + leap
  | 4 => 120 + leap
  | 5 => 151 + leap
  | 6 => 181 + leap
  | 7 => 212 + leap
  | 8 => 243 + leap
  | 9 => 273 + leap
  | 10 => 304 + leap
  | 11 => 334 + leap
  | _ => 365 + leap

/-- The month of a day of the year: the first whose end lies beyond it. -/
def monthOf (leap dayOfYear : Nat) : Nat :=
  ((List.range 11).find? fun month => dayOfYear < daysBeforeMonth leap (month + 1)).getD 11

/-- A civil date. Months and days count from one. -/
structure Civil where
  year : Int
  month : Nat
  day : Nat
deriving DecidableEq

/-- The civil date of a day. -/
def civil (day : Int) : Civil :=
  let year := yearOf day
  let dayOfYear := (day - daysBeforeYear year).toNat
  let month := monthOf (leapDay year) dayOfYear
  ⟨year, month + 1, dayOfYear - daysBeforeMonth (leapDay year) month + 1⟩

/-- The day of a civil date. -/
def dayOf (date : Civil) : Int :=
  daysBeforeYear date.year +
    (daysBeforeMonth (leapDay date.year) (date.month - 1) + (date.day - 1) : Nat)

/-- A year is 365 or 366 days long. -/
theorem year_length (year : Int) :
    daysBeforeYear (year + 1) = daysBeforeYear year + 365 + leapDay year ∧ leapDay year ≤ 1 := by
  unfold leapDay daysBeforeYear
  omega

theorem daysBeforeYear_mono {left right : Int} (below : left ≤ right) :
    daysBeforeYear left ≤ daysBeforeYear right := by
  unfold daysBeforeYear
  omega

/-- The estimated year is off by at most one. -/
theorem estimate_bounds (day : Int) :
    daysBeforeYear (day * 400 / 146097 - 1) ≤ day ∧
      day < daysBeforeYear (day * 400 / 146097 + 1 + 1) := by
  unfold daysBeforeYear
  omega

/-- A day lies in its year. -/
theorem yearOf_bounds (day : Int) :
    daysBeforeYear (yearOf day) ≤ day ∧ day < daysBeforeYear (yearOf day + 1) := by
  obtain ⟨lower, upper⟩ := estimate_bounds day
  unfold yearOf
  dsimp only
  split
  · rename_i early
    rw [Int.sub_add_cancel]
    exact ⟨lower, early⟩
  · rename_i late
    split
    · rename_i next
      exact ⟨next, upper⟩
    · rename_i inside
      exact ⟨Int.not_lt.mp late, Int.not_le.mp inside⟩

/-- A day of the year lies in its month. -/
theorem monthOf_bounds {leap dayOfYear : Nat} (inYear : dayOfYear < 365 + leap) :
    monthOf leap dayOfYear < 12 ∧ daysBeforeMonth leap (monthOf leap dayOfYear) ≤ dayOfYear ∧
      dayOfYear < daysBeforeMonth leap (monthOf leap dayOfYear + 1) := by
  unfold monthOf
  cases found : (List.range 11).find? fun month => dayOfYear < daysBeforeMonth leap (month + 1) with
  | none =>
    rw [List.find?_eq_none] at found
    have last := found 10 (by decide)
    simp only [decide_eq_true_eq, Nat.not_lt] at last
    exact ⟨by decide, last, inYear⟩
  | some month =>
    obtain ⟨before, inside, earlier⟩ := List.find?_range_eq_some.mp found
    rw [List.mem_range] at inside
    refine ⟨Nat.lt_succ_of_lt inside, ?_, of_decide_eq_true before⟩
    cases month with
    | zero => exact Nat.zero_le _
    | succ previous =>
      have past := earlier previous (Nat.lt_succ_self _)
      simpa using past

/-- A month ends before the later ones start. -/
theorem month_end (leap : Nat) {left right : Nat} (below : left < right) (inYear : right ≤ 12) :
    daysBeforeMonth leap (left + 1) ≤ daysBeforeMonth leap right := by
  induction right with
  | zero => exact absurd below (Nat.not_lt_zero left)
  | succ right inductionHypothesis =>
    rcases Nat.lt_succ_iff_lt_or_eq.mp below with earlier | rfl
    · refine Nat.le_trans (inductionHypothesis earlier (by omega)) ?_
      have small : right < 12 := by omega
      interval_cases right <;> simp only [daysBeforeMonth] <;> omega
    · exact Nat.le_refl _

/-- Where a day lies in its year. -/
def dayOfYear (day : Int) : Nat := (day - daysBeforeYear (yearOf day)).toNat

theorem dayOfYear_spec (day : Int) :
    day = daysBeforeYear (yearOf day) + dayOfYear day ∧
      dayOfYear day < 365 + leapDay (yearOf day) := by
  obtain ⟨lower, upper⟩ := yearOf_bounds day
  obtain ⟨length, _⟩ := year_length (yearOf day)
  unfold dayOfYear
  omega

/-- Months are at most 31 days long. -/
theorem month_length {leap month : Nat} (leapYear : leap ≤ 1) (inYear : month < 12) :
    daysBeforeMonth leap (month + 1) ≤ daysBeforeMonth leap month + 31 := by
  interval_cases month <;> simp only [daysBeforeMonth] <;> omega

/-- The fields of a civil date. -/
theorem civil_fields (day : Int) : (civil day).month ≤ 12 ∧ (civil day).day ≤ 31 := by
  obtain ⟨_, inYear⟩ := dayOfYear_spec day
  obtain ⟨small, lower, upper⟩ := monthOf_bounds inYear
  have length := month_length (year_length (yearOf day)).2 small
  change monthOf (leapDay (yearOf day)) (dayOfYear day) + 1 ≤ 12 ∧
    dayOfYear day - daysBeforeMonth (leapDay (yearOf day))
      (monthOf (leapDay (yearOf day)) (dayOfYear day)) + 1 ≤ 31
  omega

/-- The civil date gives the day back. -/
theorem dayOf_civil (day : Int) : dayOf (civil day) = day := by
  obtain ⟨split, inYear⟩ := dayOfYear_spec day
  obtain ⟨_, lower, _⟩ := monthOf_bounds inYear
  change daysBeforeYear (yearOf day) +
    (daysBeforeMonth (leapDay (yearOf day)) (monthOf (leapDay (yearOf day)) (dayOfYear day)) +
      (dayOfYear day - daysBeforeMonth (leapDay (yearOf day))
        (monthOf (leapDay (yearOf day)) (dayOfYear day))) : Nat) = day
  rw [Nat.add_sub_cancel' lower]
  exact split.symm

/-- Later days have later dates. -/
theorem civil_lt {left right : Int} (below : left < right) :
    (civil left).year < (civil right).year ∨
      ((civil left).year = (civil right).year ∧
        ((civil left).month < (civil right).month ∨
          ((civil left).month = (civil right).month ∧ (civil left).day < (civil right).day))) := by
  obtain ⟨leftSplit, leftInYear⟩ := dayOfYear_spec left
  obtain ⟨rightSplit, rightInYear⟩ := dayOfYear_spec right
  change yearOf left < yearOf right ∨ (yearOf left = yearOf right ∧
    (monthOf (leapDay (yearOf left)) (dayOfYear left) + 1 <
        monthOf (leapDay (yearOf right)) (dayOfYear right) + 1 ∨
      (monthOf (leapDay (yearOf left)) (dayOfYear left) + 1 =
        monthOf (leapDay (yearOf right)) (dayOfYear right) + 1 ∧
        dayOfYear left - daysBeforeMonth (leapDay (yearOf left))
          (monthOf (leapDay (yearOf left)) (dayOfYear left)) + 1 <
        dayOfYear right - daysBeforeMonth (leapDay (yearOf right))
          (monthOf (leapDay (yearOf right)) (dayOfYear right)) + 1)))
  rcases lt_trichotomy (yearOf left) (yearOf right) with earlier | same | later
  · exact .inl earlier
  · refine .inr ⟨same, ?_⟩
    have inside : dayOfYear left < dayOfYear right := by
      rw [same] at leftSplit
      omega
    rw [same] at leftInYear ⊢
    generalize leapDay (yearOf right) = leap at leftInYear rightInYear
    obtain ⟨leftSmall, leftLower, _⟩ := monthOf_bounds leftInYear
    obtain ⟨_, rightLower, rightUpper⟩ := monthOf_bounds rightInYear
    rcases Nat.lt_trichotomy (monthOf leap (dayOfYear left)) (monthOf leap (dayOfYear right)) with
      before | sameMonth | after
    · exact .inl (by omega)
    · rw [sameMonth] at leftLower ⊢
      exact .inr ⟨rfl, by omega⟩
    · have bound := month_end leap after (Nat.le_of_lt leftSmall)
      omega
  · have bound := @daysBeforeYear_mono (yearOf right + 1) (yearOf left) (by omega)
    obtain ⟨length, _⟩ := year_length (yearOf right)
    omega

end Singularmem.Library.Calendar
