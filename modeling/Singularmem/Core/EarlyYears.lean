import Singularmem.Core.Time

/-!
# Instants before year 0

A year before year 0 is written with a sign and four digits. The sign comes before every
digit, so such a text lies before that of any later year; but among negative years the text
order goes against time.
-/

namespace Singularmem.Core

open Library Library.Calendar

namespace Timestamp

variable {left right : Timestamp}

/-- Years stay above -10000. -/
theorem neg_le_year (instant : Timestamp) : -9999 ≤ instant.year := by
  by_contra early
  have upper : instant.day < daysBeforeYear (instant.year + 1) := (yearOf_bounds instant.day).2
  have bound := @daysBeforeYear_mono (instant.year + 1) (-9999) (by omega)
  have reach : daysBeforeYear (-9999) = -3652059 := by decide
  have lower : -3652059 ≤ instant.day := by
    have range := instant.inRange.1
    unfold day nanosPerDay epochDay
    omega
  omega

/-- The fields of every instant fit their widths, its year without the sign. -/
theorem magnitudes_fit (instant : Timestamp) :
    sqlFormat.Fits (instant.year.natAbs :: instant.fieldsAfterYear) := by
  obtain ⟨month, day⟩ := civil_fields instant.day
  have latest := instant.year_le
  have earliest := instant.neg_le_year
  have clock := instant.nanos_eq.2
  refine .cons ?_ (.cons ?_ (.cons ?_ (.cons ?_ (.cons ?_ (.cons ?_ (.cons ?_ .nil)))))) <;> omega

/-- Later instants lie on later days, or later in the day. -/
theorem day_lt (below : left < right) :
    left.day < right.day ∨ (left.day = right.day ∧ left.nanoOfDay < right.nanoOfDay) := by
  have leftSplit := left.nanos_eq
  have rightSplit := right.nanos_eq
  have nanos : left.nanos < right.nanos := below
  unfold nanosPerDay at leftSplit rightSplit
  omega

/-- Later instants lie in no earlier year, and within a year they have later fields. -/
theorem year_lt (below : left < right) :
    left.year < right.year ∨
      (left.year = right.year ∧ left.fieldsAfterYear < right.fieldsAfterYear) := by
  simp only [fieldsAfterYear, List.cons_lt_cons_iff]
  rcases day_lt below with earlier | ⟨sameDay, earlier⟩
  · rcases civil_lt earlier with year | ⟨sameYear, month | ⟨sameMonth, day⟩⟩
    · exact .inl year
    · exact .inr ⟨sameYear, .inl month⟩
    · exact .inr ⟨sameYear, .inr ⟨sameMonth, .inl day⟩⟩
  · rw [year, year, sameDay]
    exact .inr ⟨rfl, .inr ⟨rfl, .inr ⟨rfl, clockFields_lt earlier⟩⟩⟩

/-- The text of an instant before year 0. -/
theorem toSql_signed {instant : Timestamp} (signed : ¬ instant.Unsigned) :
    (toSql instant).toList =
      '-' :: sqlFormat.render (instant.year.natAbs :: instant.fieldsAfterYear) := by
  rw [toSql, String.toList_ofList, if_pos (Int.not_le.mp signed)]
  rfl

/-- A text with a sign lies before one without. -/
theorem toSql_signed_lt (leftSigned : ¬ left.Unsigned) (rightUnsigned : right.Unsigned) :
    toSql left < toSql right := by
  rw [String.lt_iff, toSql_signed leftSigned, toSql_unsigned rightUnsigned]
  obtain ⟨leading, rest, written⟩ : ∃ leading rest,
      sqlFormat.render (right.year.natAbs :: right.fieldsAfterYear) = digit leading :: rest :=
    ⟨_, _, rfl⟩
  rw [written, List.cons_lt_cons_iff]
  refine .inl ?_
  show '-'.toNat < (digit leading).toNat
  rw [digit_toNat]
  exact Nat.lt_of_lt_of_le (by decide) (Nat.le_add_right 48 _)

/-- Texts with a sign compare as what follows the sign. -/
theorem toSql_signed_lt_signed (leftSigned : ¬ left.Unsigned) (rightSigned : ¬ right.Unsigned) :
    toSql left < toSql right ↔
      left.year.natAbs :: left.fieldsAfterYear < right.year.natAbs :: right.fieldsAfterYear := by
  rw [String.lt_iff, toSql_signed leftSigned, toSql_signed rightSigned, List.cons_lt_cons_iff,
    Format.render_lt left.magnitudes_fit right.magnitudes_fit]
  simp

/-- **Text order against time order.** The texts of two instants in order are in order
exactly where the later one is unsigned, or they share their year. -/
theorem toSql_le_iff (ordered : left ≤ right) :
    toSql left ≤ toSql right ↔ right.Unsigned ∨ left.year = right.year := by
  rcases Int.lt_or_eq_of_le (show left.nanos ≤ right.nanos from ordered) with below | same
  case inr =>
    obtain rfl : left = right := by
      cases left
      cases right
      simpa using same
    exact iff_of_true (String.le_refl _) (.inr rfl)
  have split := year_lt (show left < right from below)
  by_cases rightUnsigned : right.Unsigned
  · refine iff_of_true ?_ (.inl rightUnsigned)
    by_cases leftUnsigned : left.Unsigned
    · exact (toSql_le leftUnsigned rightUnsigned).mpr ordered
    · exact String.not_lt.mp (String.lt_asymm (toSql_signed_lt leftUnsigned rightUnsigned))
  · have signed : right.year < 0 := Int.not_le.mp rightUnsigned
    have leftSigned : ¬ left.Unsigned := by
      unfold Unsigned
      omega
    rw [← String.not_lt, toSql_signed_lt_signed rightUnsigned leftSigned, List.cons_lt_cons_iff]
    rcases split with earlier | ⟨sameYear, fields⟩
    · refine iff_of_false (not_not.mpr (.inl (by omega))) ?_
      exact not_or.mpr ⟨rightUnsigned, by omega⟩
    · refine iff_of_true ?_ (.inr sameYear)
      rintro (later | ⟨_, back⟩)
      · omega
      · exact List.lt_asymm fields back

end Timestamp

end Singularmem.Core
