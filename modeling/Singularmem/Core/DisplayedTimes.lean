import Singularmem.Core.StoredTimes
import Singularmem.Library.Trimming

/-!
# Displayed instants

The item tables store instants with as many fractional digits as they need, so that texts of
different lengths are compared. Down to the second the text has a fixed width: instants of
different seconds compare as their texts do, whatever their fractions.
-/

namespace Singularmem.Core

open Library Library.Calendar

namespace Timestamp

variable {left right : Timestamp}

/-- The second an instant lies in. -/
def second (instant : Timestamp) : Int := instant.nanos / 1000000000

/-- Date and time of day, down to the second. -/
def secondFormat : Format :=
  [(4, ['-']), (2, ['-']), (2, ['T']), (2, [':']), (2, [':']), (2, [])]

/-- The fields of a date and a time of day, down to the second. -/
def secondFields (instant : Timestamp) : List Nat :=
  [instant.year.natAbs, (civil instant.day).month, (civil instant.day).day,
    instant.nanoOfDay / 3600000000000, instant.nanoOfDay / 60000000000 % 60,
    instant.nanoOfDay / 1000000000 % 60]

theorem secondFields_fit {instant : Timestamp} (unsigned : instant.Unsigned) :
    secondFormat.Fits instant.secondFields := by
  obtain ⟨month, day⟩ := civil_fields instant.day
  have year := instant.year_le
  have clock := instant.nanos_eq.2
  unfold Unsigned at unsigned
  refine .cons ?_ (.cons ?_ (.cons ?_ (.cons ?_ (.cons ?_ (.cons ?_ .nil))))) <;> omega

/-- The stored form is the text down to the second, and nine digits. -/
theorem toSql_eq_second {instant : Timestamp} (unsigned : instant.Unsigned) :
    (toSql instant).toList = secondFormat.render instant.secondFields ++
      '.' :: (decimal 9 (instant.nanoOfDay % 1000000000) ++ ['Z']) := by
  rw [toSql_unsigned unsigned]
  simp [sqlFormat, secondFormat, Format.render, secondFields, fieldsAfterYear, clockFields]

/-- Fields down to the second give the second back. -/
theorem second_of_fields (leftUnsigned : left.Unsigned) (rightUnsigned : right.Unsigned)
    (same : left.secondFields = right.secondFields) : left.second = right.second := by
  unfold secondFields at same
  injection same with year same
  injection same with month same
  injection same with day same
  injection same with hour same
  injection same with minute same
  injection same with seconds _
  have leftSplit := left.nanos_eq
  have rightSplit := right.nanos_eq
  have days : left.day = right.day := by
    have years : (civil left.day).year = (civil right.day).year := by
      unfold Unsigned Timestamp.year at leftUnsigned rightUnsigned
      unfold Timestamp.year at year
      omega
    have dates : civil left.day = civil right.day := by
      cases leftDate : civil left.day
      cases rightDate : civil right.day
      simp_all
    rw [← dayOf_civil left.day, dates, dayOf_civil]
  unfold second
  unfold nanosPerDay at leftSplit rightSplit
  omega

/-- Instants of different seconds have different fields. -/
theorem secondFields_lt (leftUnsigned : left.Unsigned) (rightUnsigned : right.Unsigned)
    (below : left.second < right.second) : left.secondFields < right.secondFields := by
  have earlier : left < right := by
    unfold second at below
    change left.nanos < right.nanos
    omega
  have fields : left.secondFields ++ [left.nanoOfDay % 1000000000] <
      right.secondFields ++ [right.nanoOfDay % 1000000000] :=
    fields_lt leftUnsigned rightUnsigned earlier
  have length : left.secondFields.length = right.secondFields.length := rfl
  rcases (append_lt_append length _ _).mp fields with lower | ⟨same, _⟩
  · exact lower
  · exact absurd (second_of_fields leftUnsigned rightUnsigned same) (Int.ne_of_lt below)

end Timestamp

namespace Platform

/-- No digit is a point. -/
theorem digit_ne_point (value : Nat) : digit value ≠ '.' := by
  intro same
  have codes := congrArg Char.toNat same
  rw [digit_toNat] at codes
  change 48 + value % 10 = 46 at codes
  omega

/-- Digits have no point. -/
theorem decimal_ne_point (width number : Nat) : ∀ char ∈ decimal width number, char ≠ '.' := by
  have rendered := @Format.render_all (fun char => char ≠ '.') [(width, [])] digit_ne_point (by simp)
    [number]
  simpa [Format.render] using rendered

/-- Dropping zeros stops at a point. -/
theorem dropWhile_zero_point (digits rest : List Char) :
    (digits ++ '.' :: rest).dropWhile (· = '0') = digits.dropWhile (· = '0') ++ '.' :: rest := by
  induction digits with
  | nil => rfl
  | cons char digits inductionHypothesis =>
    rw [List.cons_append, List.dropWhile_cons, List.dropWhile_cons]
    split
    · exact inductionHypothesis
    · rfl

/-- The displayed form is the text down to the second, with the digits of the fraction that
stand before its last zeros. -/
theorem trimFraction_eq_second {instant : Timestamp} (unsigned : instant.Unsigned) :
    ∃ kept zeros, decimal 9 (instant.nanoOfDay % 1000000000) = kept ++ List.replicate zeros '0' ∧
      (trimFraction instant).toList = Timestamp.secondFormat.render instant.secondFields ++
        ((if kept = [] then [] else '.' :: kept) ++ ['Z']) := by
  let seconds := Timestamp.secondFormat.render instant.secondFields
  let digits := (decimal 9 (instant.nanoOfDay % 1000000000)).reverse
  have pointless : ∀ char ∈ seconds, char ≠ '.' :=
    @Format.render_all (fun char => char ≠ '.') Timestamp.secondFormat digit_ne_point
      (by simp [Timestamp.secondFormat]) _
  have plain : ∀ char ∈ digits, char ≠ '.' := fun char member =>
    decimal_ne_point _ _ char (List.mem_reverse.mp member)
  have reversed : (toSql instant).toList.reverse.drop 1 = digits ++ '.' :: seconds.reverse := by
    rw [Timestamp.toSql_eq_second unsigned]
    simp [digits, seconds]
  obtain ⟨zeros, dropped⟩ : ∃ zeros, digits.takeWhile (· = '0') = List.replicate zeros '0' :=
    ⟨_, List.eq_replicate_iff.mpr ⟨rfl, fun char member => by
      simpa using List.mem_takeWhile_imp member⟩⟩
  have whole : digits = List.replicate zeros '0' ++ digits.dropWhile (· = '0') := by
    rw [← dropped, List.takeWhile_append_dropWhile]
  refine ⟨(digits.dropWhile (· = '0')).reverse, zeros, ?_, ?_⟩
  · have again := congrArg List.reverse whole
    rwa [List.reverse_append, List.reverse_replicate, List.reverse_reverse] at again
  rw [trimFraction, String.toList_ofList, reversed, dropWhile_zero_point]
  cases left : digits.dropWhile (· = '0') with
  | nil =>
    have ends : seconds.reverse.dropWhile (· = '.') = seconds.reverse := by
      apply dropWhile_eq_self
      intro char first
      have member := List.mem_reverse.mp (List.mem_of_mem_head? first)
      simpa using pointless char member
    rw [List.nil_append, List.dropWhile_cons_of_pos (by decide), ends, List.reverse_reverse]
    rfl
  | cons char more =>
    have member : char ∈ digits := by
      rw [whole, left]
      exact List.mem_append_right _ List.mem_cons_self
    rw [List.cons_append, List.dropWhile_cons_of_neg (by simpa using plain char member)]
    simp [seconds]

/-- A displayed fraction is completed to the stored form. -/
theorem padFraction_trimFraction {instant : Timestamp} (unsigned : instant.Unsigned) :
    padFraction (trimFraction instant).toList = (toSql instant).toList := by
  obtain ⟨kept, zeros, digits, text⟩ := trimFraction_eq_second unsigned
  have length : kept.length + zeros = 9 := by
    have whole := congrArg List.length digits
    rw [decimal_length, List.length_append, List.length_replicate] at whole
    exact whole.symm
  have seconds : (Timestamp.secondFormat.render instant.secondFields).length = 19 :=
    Format.render_length (Timestamp.secondFields_fit unsigned)
  have pointless : '.' ∉ Timestamp.secondFormat.render instant.secondFields := fun member =>
    @Format.render_all (fun char => char ≠ '.') Timestamp.secondFormat digit_ne_point
      (by simp [Timestamp.secondFormat]) _ '.' member rfl
  rw [Timestamp.toSql_eq_second unsigned, digits, text, padFraction]
  by_cases none : kept = []
  · subst none
    obtain rfl : zeros = 9 := by simpa using length
    simp [seconds, pointless, List.dropLast_append_of_ne_nil]
  · rw [if_neg none]
    by_cases full : zeros = 0
    · subst full
      rw [if_neg (by simp [seconds]; omega)]
      simp
    · have short : ((Timestamp.secondFormat.render instant.secondFields) ++
          ('.' :: kept ++ ['Z'])).length < 30 := by
        simp [seconds]
        omega
      rw [if_pos short]
      have body : ((Timestamp.secondFormat.render instant.secondFields) ++
          ('.' :: kept ++ ['Z'])).dropLast =
          Timestamp.secondFormat.render instant.secondFields ++ '.' :: kept := by
        rw [← List.append_assoc, List.dropLast_concat]
      have missing : 29 - (19 + (kept.length + 1)) = zeros := by omega
      simp only [body]
      simp [seconds, missing]

/-- A displayed instant is read back. -/
theorem readSql_trimFraction {instant : Timestamp} (unsigned : instant.Unsigned) :
    readSql (trimFraction instant) = some instant := by
  rw [readSql, padFraction_trimFraction unsigned, candidate_toSql unsigned]
  simp

/-- **Text order is time order** between different seconds. -/
theorem trimFraction_lt {left right : Timestamp} (leftUnsigned : left.Unsigned)
    (rightUnsigned : right.Unsigned) (below : left.second < right.second) :
    trimFraction left < trimFraction right := by
  obtain ⟨_, _, _, leftText⟩ := trimFraction_eq_second leftUnsigned
  obtain ⟨_, _, _, rightText⟩ := trimFraction_eq_second rightUnsigned
  have length : (Timestamp.secondFormat.render left.secondFields).length =
      (Timestamp.secondFormat.render right.secondFields).length := by
    rw [Format.render_length (Timestamp.secondFields_fit leftUnsigned),
      Format.render_length (Timestamp.secondFields_fit rightUnsigned)]
  rw [String.lt_iff, leftText, rightText, append_lt_append length]
  refine .inl ((Format.render_lt (Timestamp.secondFields_fit leftUnsigned)
    (Timestamp.secondFields_fit rightUnsigned)).mpr ?_)
  exact Timestamp.secondFields_lt leftUnsigned rightUnsigned below

end Platform

end Singularmem.Core
