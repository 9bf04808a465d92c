import Singularmem.Core.EarlyYears
import Singularmem.Core.Text

/-!
# Reading stored instants

The stored text of an instant from year 0 on has thirty characters, compares as the
instant does, and is read back. A year before year 0 is written with a sign and four
digits, where the time parser takes a signed year with six digits only.
-/

namespace Singularmem.Core

open Library Library.Calendar

/-- What the parsers do with a stored instant: the time parser reads a year without a sign
and refuses a signed one of four digits; the date parser refuses the zone. -/
structure Platform.ReadsStored (platform : Platform) : Prop where
  unsigned : ∀ instant : Timestamp, instant.Unsigned →
    platform.parseTimestamp (toSql instant) = some instant
  signed : ∀ instant : Timestamp, ¬ instant.Unsigned →
    platform.parseTimestamp (toSql instant) = none
  date : ∀ instant, platform.parseDate (toSql instant) = none

namespace Platform.ReadsStored

variable {platform : Platform}

/-- What is read is rendered as the same text. -/
theorem readsBack (reads : platform.ReadsStored) : platform.ReadsBack := by
  refine ⟨?_, reads.date⟩
  intro instant parsed read
  by_cases unsigned : instant.Unsigned
  · rw [reads.unsigned instant unsigned] at read
    exact congrArg toSql (Option.some.inj read).symm
  · rw [reads.signed instant unsigned] at read
    cases read

/-- A stored instant is read back from year 0 on. -/
theorem parsePoint_unsigned (reads : platform.ReadsStored) {instant : Timestamp}
    (unsigned : instant.Unsigned) : parsePoint platform (toSql instant) = .ok instant := by
  simp only [parsePoint, trim_toSql, reads.unsigned instant unsigned]

/-- **A stored instant is read back** exactly from year 0 on. -/
theorem parsePoint_iff (reads : platform.ReadsStored) (instant : Timestamp) :
    parsePoint platform (toSql instant) = .ok instant ↔ instant.Unsigned := by
  refine ⟨?_, reads.parsePoint_unsigned⟩
  intro read
  by_contra signed
  simp only [parsePoint, trim_toSql, reads.signed instant signed, reads.date] at read
  cases read

end Platform.ReadsStored

namespace Timestamp

variable {left right : Timestamp}

/-- Instants of one year compare by their later fields. -/
theorem fieldsAfterYear_lt (same : left.year = right.year) :
    left.fieldsAfterYear < right.fieldsAfterYear ↔ left < right := by
  have forward : ∀ {early late : Timestamp}, early.year = late.year → early < late →
      early.fieldsAfterYear < late.fieldsAfterYear := by
    intro early late same below
    rcases year_lt below with earlier | ⟨_, fields⟩
    · exact absurd same (Int.ne_of_lt earlier)
    · exact fields
  refine ⟨?_, forward same⟩
  intro fields
  rcases Int.lt_trichotomy left.nanos right.nanos with below | equal | above
  · exact below
  · obtain rfl : left = right := by
      cases left
      cases right
      simpa using equal
    exact absurd fields (List.lt_irrefl _)
  · exact absurd fields (List.lt_asymm (forward same.symm above))

/-- The instant with a sign is the earlier one. -/
theorem lt_of_signs (leftSigned : ¬ left.Unsigned) (rightUnsigned : right.Unsigned) :
    left < right := by
  by_contra late
  have year : right.year ≤ left.year := by
    rcases Int.lt_or_eq_of_le (Int.not_lt.mp late) with below | same
    · rcases year_lt (show right < left from below) with earlier | ⟨equal, _⟩
      · exact Int.le_of_lt earlier
      · exact Int.le_of_eq equal
    · obtain rfl : right = left := by
        cases left
        cases right
        simpa using same
      exact Int.le_refl _
  exact leftSigned (Int.le_trans rightUnsigned year)

/-- **Text order is time order** for two instants exactly where one of them is unsigned, or
they share their year. -/
theorem toSql_lt_iff (left right : Timestamp) :
    (toSql left < toSql right ↔ left < right) ↔
      left.Unsigned ∨ right.Unsigned ∨ left.year = right.year := by
  by_cases leftUnsigned : left.Unsigned
  · refine iff_of_true ?_ (.inl leftUnsigned)
    by_cases rightUnsigned : right.Unsigned
    · exact toSql_lt leftUnsigned rightUnsigned
    · have text := toSql_signed_lt rightUnsigned leftUnsigned
      have time := lt_of_signs rightUnsigned leftUnsigned
      exact iff_of_false (String.lt_asymm text) (Int.not_lt.mpr (Int.le_of_lt time))
  by_cases rightUnsigned : right.Unsigned
  · exact iff_of_true (iff_of_true (toSql_signed_lt leftUnsigned rightUnsigned)
      (lt_of_signs leftUnsigned rightUnsigned)) (.inr (.inl rightUnsigned))
  have leftNegative : left.year < 0 := Int.not_le.mp leftUnsigned
  have rightNegative : right.year < 0 := Int.not_le.mp rightUnsigned
  rw [toSql_signed_lt_signed leftUnsigned rightUnsigned, List.cons_lt_cons_iff]
  by_cases same : left.year = right.year
  · refine iff_of_true ?_ (.inr (.inr same))
    rw [fieldsAfterYear_lt same, same]
    simp
  refine iff_of_false ?_ (by simp [leftUnsigned, rightUnsigned, same])
  intro agree
  have years : left.year.natAbs < right.year.natAbs ↔ left < right := by
    rw [← agree]
    have apart : left.year.natAbs ≠ right.year.natAbs := by omega
    simp [apart]
  rcases Int.lt_trichotomy left.nanos right.nanos with below | equal | above
  · have text := years.mpr below
    rcases year_lt (show left < right from below) with earlier | ⟨equal, _⟩
    · omega
    · exact same equal
  · have never : ¬ left < right := Int.not_lt.mpr (Int.le_of_eq equal.symm)
    obtain rfl : left = right := by
      cases left
      cases right
      simpa using equal
    exact same rfl
  · have never : ¬ left < right := Int.not_lt.mpr (Int.le_of_lt above)
    have text := mt years.mp never
    rcases year_lt (show right < left from above) with earlier | ⟨equal, _⟩
    · omega
    · exact same equal.symm

/-- **The stored text** has thirty characters, and one more for a sign. -/
theorem toSql_length (instant : Timestamp) :
    (toSql instant).length = if instant.Unsigned then 30 else 31 := by
  have fields := Format.render_length instant.magnitudes_fit
  rw [← String.length_toList]
  split
  case isTrue unsigned => rw [toSql_unsigned unsigned, fields]; rfl
  case isFalse signed => rw [toSql_signed signed, List.length_cons, fields]; rfl

end Timestamp

namespace Platform

/-- The fields of a rendered instant denote it. -/
theorem candidate_toSql {instant : Timestamp} (unsigned : instant.Unsigned) :
    candidate (toSql instant).toList = some instant := by
  have fields := Format.read_render (instant.fields_fit unsigned)
  have year : ((instant.year.natAbs : Int)) = instant.year := Int.natAbs_of_nonneg unsigned
  have day : dayOf ⟨instant.year, (civil instant.day).month, (civil instant.day).day⟩ =
      instant.day := dayOf_civil instant.day
  obtain ⟨split, _⟩ := instant.nanos_eq
  rw [candidate, Timestamp.toSql_unsigned unsigned, fields]
  simp only [Timestamp.fieldsAfterYear, Timestamp.clockFields]
  rw [year, day]
  have nanos : (instant.day - epochDay) * nanosPerDay +
      (((instant.nanoOfDay / 3600000000000 * 60 + instant.nanoOfDay / 60000000000 % 60) * 60 +
        instant.nanoOfDay / 1000000000 % 60 : Nat) : Int) * 1000000000 +
      ((instant.nanoOfDay % 1000000000 : Nat) : Int) = instant.nanos := by
    rw [split]
    omega
  rw [dif_pos (nanos ▸ instant.inRange)]
  exact congrArg some (by cases instant; simpa using nanos)

/-- A rendered instant is read back. -/
theorem readSql_toSql {instant : Timestamp} (unsigned : instant.Unsigned) :
    readSql (toSql instant) = some instant := by
  rw [readSql, padFraction_toSql, candidate_toSql unsigned]
  simp

/-- A platform for ASCII texts whose time parser refuses a signed year. -/
def unsignedYears : Platform :=
  { ascii with parseTimestamp := fun text => (readSql text).filter fun instant => instant.Unsigned }

/-- Its parsers read stored instants. -/
theorem unsignedYears_readsStored : unsignedYears.ReadsStored := by
  refine ⟨?_, ?_, fun _ => rfl⟩
  · intro instant unsigned
    change (readSql (toSql instant)).filter _ = some instant
    rw [readSql_toSql unsigned]
    simpa using unsigned
  · intro instant signed
    refine Option.filter_eq_none_iff.mpr ?_
    intro parsed read unsigned
    have same : toSql parsed = toSql instant := ascii_readsBack.timestamp instant parsed read
    have order := Timestamp.toSql_signed_lt signed (by simpa using unsigned)
    rw [same] at order
    exact String.lt_irrefl _ order

end Platform

end Singularmem.Core
