import Singularmem.Library.Calendar
import Singularmem.Library.FixedWidth

/-!
# Instants and their stored text

Instants are counted in nanoseconds from the Unix epoch. The graph tables store
them as text of a fixed width, which the database compares byte by byte; for UTF-8
that is the order of the characters. From year
0 on, the text is ordered as the instants are.
-/

namespace Singularmem.Core

open Library Library.Calendar

/-- Nanoseconds of a day. -/
def nanosPerDay : Int := 86400000000000

/-- The day of the Unix epoch, counted from year 0. -/
def epochDay : Int := 719528

/-- An instant, within the years -9999 to 9999. -/
structure Timestamp where
  nanos : Int
  inRange : -377705023201000000000 ≤ nanos ∧ nanos ≤ 253402207200999999999
deriving DecidableEq

namespace Timestamp

theorem epoch_inRange : -377705023201000000000 ≤ (0 : Int) ∧ (0 : Int) ≤ 253402207200999999999 := by
  decide

/-- The Unix epoch. -/
def epoch : Timestamp := ⟨0, epoch_inRange⟩

/-- Milliseconds since the epoch, rounded toward zero. -/
def asMillisecond (instant : Timestamp) : Int := instant.nanos.tdiv 1000000

instance : LT Timestamp := ⟨fun left right => left.nanos < right.nanos⟩

instance : LE Timestamp := ⟨fun left right => left.nanos ≤ right.nanos⟩

instance (left right : Timestamp) : Decidable (left < right) :=
  inferInstanceAs (Decidable (left.nanos < right.nanos))

instance (left right : Timestamp) : Decidable (left ≤ right) :=
  inferInstanceAs (Decidable (left.nanos ≤ right.nanos))

/-- The day of an instant, counted from year 0. -/
def day (instant : Timestamp) : Int := instant.nanos / nanosPerDay + epochDay

/-- The nanoseconds since midnight. -/
def nanoOfDay (instant : Timestamp) : Nat := (instant.nanos % nanosPerDay).toNat

/-- The year of an instant. -/
def year (instant : Timestamp) : Int := (civil instant.day).year

/-- The instant's year is at least 0, so that it is written with four digits and
no sign. -/
def Unsigned (instant : Timestamp) : Prop := 0 ≤ instant.year

instance (instant : Timestamp) : Decidable instant.Unsigned :=
  inferInstanceAs (Decidable (_ ≤ _))

/-- Hour, minute, second and nanosecond of a time of day. -/
def clockFields (nanoOfDay : Nat) : List Nat :=
  [nanoOfDay / 3600000000000, nanoOfDay / 60000000000 % 60, nanoOfDay / 1000000000 % 60,
    nanoOfDay % 1000000000]

/-- Month and day, then the time of day. -/
def fieldsAfterYear (instant : Timestamp) : List Nat :=
  (civil instant.day).month :: (civil instant.day).day :: clockFields instant.nanoOfDay

end Timestamp

/-- `%Y-%m-%dT%H:%M:%S%.9fZ`, without the sign of a negative year. -/
def sqlFormat : Format :=
  [(4, ['-']), (2, ['-']), (2, ['T']), (2, [':']), (2, [':']), (2, ['.']), (9, ['Z'])]

/-- Render an instant in the fixed-width form the graph tables store. A negative
year has a minus sign before its four digits. -/
def toSql (instant : Timestamp) : String :=
  String.ofList ((if instant.year < 0 then ['-'] else []) ++
    sqlFormat.render (instant.year.natAbs :: instant.fieldsAfterYear))

namespace Timestamp

variable {left right : Timestamp}

/-- Years stay below 10000. -/
theorem year_le (instant : Timestamp) : instant.year ≤ 9999 := by
  by_contra late
  have lower : daysBeforeYear instant.year ≤ instant.day := (yearOf_bounds instant.day).1
  have bound := @daysBeforeYear_mono 10000 instant.year (by omega)
  have reach : daysBeforeYear 10000 = 3652425 := by decide
  have upper : instant.day ≤ 3652424 := by
    have range := instant.inRange.2
    unfold day nanosPerDay epochDay
    omega
  omega

/-- From one millisecond before the epoch on, years are not negative. -/
theorem unsigned_of_recent {instant : Timestamp} (recent : 0 ≤ instant.asMillisecond) :
    instant.Unsigned := by
  have nanos : -1000000 < instant.nanos := by
    by_contra early
    have flipped : instant.nanos.tdiv 1000000 = -(-instant.nanos / 1000000) := by
      rw [← Int.tdiv_eq_ediv_of_nonneg (by omega), Int.neg_tdiv, Int.neg_neg]
    unfold asMillisecond at recent
    omega
  by_contra negative
  have upper : instant.day < daysBeforeYear (instant.year + 1) := (yearOf_bounds instant.day).2
  have bound := @daysBeforeYear_mono (instant.year + 1) 0 (by unfold Unsigned at negative; omega)
  have zero : daysBeforeYear 0 = 0 := by decide
  have recentDay : 719527 ≤ instant.day := by
    unfold day nanosPerDay epochDay
    omega
  omega

/-- Day and time of day give the instant back. -/
theorem nanos_eq (instant : Timestamp) :
    instant.nanos = (instant.day - epochDay) * nanosPerDay + instant.nanoOfDay ∧
      instant.nanoOfDay < 86400000000000 := by
  unfold day nanoOfDay nanosPerDay
  omega

/-- The fields fit their widths. -/
theorem fields_fit (instant : Timestamp) (unsigned : instant.Unsigned) :
    sqlFormat.Fits (instant.year.natAbs :: instant.fieldsAfterYear) := by
  obtain ⟨month, day⟩ := civil_fields instant.day
  have year := instant.year_le
  have clock := instant.nanos_eq.2
  unfold Unsigned at unsigned
  refine .cons ?_ (.cons ?_ (.cons ?_ (.cons ?_ (.cons ?_ (.cons ?_ (.cons ?_ .nil)))))) <;> omega

/-- Times of day compare by their fields. -/
theorem clockFields_lt {early late : Nat} (below : early < late) :
    clockFields early < clockFields late := by
  simp only [clockFields, List.cons_lt_cons_iff, List.not_lt_nil, and_false, or_false]
  omega

/-- Later instants have later fields. -/
theorem fields_lt (leftUnsigned : left.Unsigned) (rightUnsigned : right.Unsigned)
    (below : left < right) :
    left.year.natAbs :: left.fieldsAfterYear < right.year.natAbs :: right.fieldsAfterYear := by
  have leftSplit := left.nanos_eq
  have rightSplit := right.nanos_eq
  have nanos : left.nanos < right.nanos := below
  simp only [fieldsAfterYear, List.cons_lt_cons_iff]
  have years : left.day < right.day ∨ (left.day = right.day ∧ left.nanoOfDay < right.nanoOfDay) := by
    unfold nanosPerDay at leftSplit rightSplit
    omega
  rcases years with earlier | ⟨sameDay, earlier⟩
  · unfold Unsigned year at leftUnsigned rightUnsigned
    unfold year
    rcases civil_lt earlier with year | ⟨sameYear, month | ⟨sameMonth, day⟩⟩
    · exact .inl (by omega)
    · exact .inr ⟨by rw [sameYear], .inl month⟩
    · exact .inr ⟨by rw [sameYear], .inr ⟨sameMonth, .inl day⟩⟩
  · rw [year, year, sameDay]
    exact .inr ⟨rfl, .inr ⟨rfl, .inr ⟨rfl, clockFields_lt earlier⟩⟩⟩

/-- The text of an unsigned instant. -/
theorem toSql_unsigned {instant : Timestamp} (unsigned : instant.Unsigned) :
    (toSql instant).toList =
      sqlFormat.render (instant.year.natAbs :: instant.fieldsAfterYear) := by
  rw [toSql, String.toList_ofList, if_neg (Int.not_lt.mpr unsigned), List.nil_append]

/-- **Text order is time order**, from year 0 on. -/
theorem toSql_lt (leftUnsigned : left.Unsigned) (rightUnsigned : right.Unsigned) :
    toSql left < toSql right ↔ left < right := by
  have forward : ∀ {early late : Timestamp}, early.Unsigned → late.Unsigned → early < late →
      toSql early < toSql late := by
    intro early late earlyUnsigned lateUnsigned below
    rw [String.lt_iff, toSql_unsigned earlyUnsigned, toSql_unsigned lateUnsigned,
      Format.render_lt (early.fields_fit earlyUnsigned) (late.fields_fit lateUnsigned)]
    exact fields_lt earlyUnsigned lateUnsigned below
  refine ⟨?_, forward leftUnsigned rightUnsigned⟩
  intro text
  rcases lt_trichotomy left.nanos right.nanos with below | same | above
  · exact below
  · obtain rfl : left = right := by
      cases left
      cases right
      simpa using same
    exact absurd text (String.lt_irrefl _)
  · exact absurd text (String.lt_asymm (forward rightUnsigned leftUnsigned above))

/-- The same for the comparison that includes equality. -/
theorem toSql_le (leftUnsigned : left.Unsigned) (rightUnsigned : right.Unsigned) :
    toSql left ≤ toSql right ↔ left ≤ right := by
  rw [← String.not_lt, toSql_lt rightUnsigned leftUnsigned]
  exact Int.not_lt

end Timestamp

end Singularmem.Core
