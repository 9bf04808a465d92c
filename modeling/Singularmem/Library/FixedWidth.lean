import Mathlib.Algebra.GroupWithZero.Nat
import Mathlib.Data.List.Basic
import Mathlib.Tactic.Common

/-!
# Fixed-width decimal text

A number is written in a given count of decimal digits, most significant first.
A record writes several numbers one after the other, each in its own width and
followed by a fixed separator. Texts of one format compare, character by character, as
their numbers compare, field by field.
-/

namespace Singularmem.Library

/-- The character of a decimal digit. -/
def digit (value : Nat) : Char := Char.ofNat (48 + value % 10)

/-- The code of a digit. -/
@[simp] theorem digit_toNat (value : Nat) : (digit value).toNat = 48 + value % 10 := by
  have valid : (48 + value % 10).isValidChar := .inl (by omega)
  rw [digit, Char.ofNat, dif_pos valid]
  rfl

/-- The `width` low-order decimal digits of a number, most significant first. -/
def decimal : Nat → Nat → List Char
  | 0, _ => []
  | width + 1, number => decimal width (number / 10) ++ [digit number]

@[simp] theorem decimal_length (width number : Nat) : (decimal width number).length = width := by
  induction width generalizing number with
  | zero => rfl
  | succ width inductionHypothesis => simp [decimal, inductionHypothesis]

/-- Digits compare as their values. -/
theorem digit_lt {left right : Nat} : digit left < digit right ↔ left % 10 < right % 10 := by
  rw [Char.lt_def, UInt32.lt_iff_toNat_lt]
  change (digit left).toNat < (digit right).toNat ↔ _
  rw [digit_toNat, digit_toNat]
  omega

theorem digit_eq {left right : Nat} : digit left = digit right ↔ left % 10 = right % 10 := by
  constructor
  · intro same
    have codes := congrArg Char.toNat same
    rw [digit_toNat, digit_toNat] at codes
    omega
  · intro same
    rw [digit, digit, same]

/-- Texts of one length compare by their first parts, and then by their second. -/
theorem append_lt_append {α : Type} [LT α] {left right : List α}
    (length : left.length = right.length) (leftRest rightRest : List α) :
    left ++ leftRest < right ++ rightRest ↔ left < right ∨ (left = right ∧ leftRest < rightRest) := by
  induction left generalizing right with
  | nil =>
    obtain rfl : right = [] := List.length_eq_zero_iff.mp length.symm
    simp
  | cons head tail inductionHypothesis =>
    cases right with
    | nil => simp at length
    | cons other rest =>
      have shorter : tail.length = rest.length := by simpa using length
      simp only [List.cons_append, List.cons_lt_cons_iff, inductionHypothesis shorter,
        List.cons.injEq]
      constructor
      · rintro (below | ⟨rfl, below | ⟨rfl, below⟩⟩)
        · exact .inl (.inl below)
        · exact .inl (.inr ⟨rfl, below⟩)
        · exact .inr ⟨⟨rfl, rfl⟩, below⟩
      · rintro ((below | ⟨rfl, below⟩) | ⟨⟨rfl, rfl⟩, below⟩)
        · exact .inl below
        · exact .inr ⟨rfl, .inl below⟩
        · exact .inr ⟨rfl, .inr ⟨rfl, below⟩⟩

/-- Numbers that fit the width have different texts. -/
theorem decimal_inj {width left right : Nat} (leftFits : left < 10 ^ width)
    (rightFits : right < 10 ^ width) : decimal width left = decimal width right ↔ left = right := by
  refine ⟨?_, fun same => by rw [same]⟩
  intro same
  induction width generalizing left right with
  | zero =>
    rw [Nat.pow_zero] at leftFits rightFits
    omega
  | succ width inductionHypothesis =>
    rw [Nat.pow_succ] at leftFits rightFits
    obtain ⟨high, low⟩ := List.append_inj' same rfl
    have quotient := inductionHypothesis (by omega) (by omega) high
    have remainder := digit_eq.mp (List.singleton_inj.mp low)
    omega

/-- Numbers that fit the width compare as their texts. -/
theorem decimal_lt {width left right : Nat} (leftFits : left < 10 ^ width)
    (rightFits : right < 10 ^ width) : decimal width left < decimal width right ↔ left < right := by
  induction width generalizing left right with
  | zero =>
    rw [Nat.pow_zero] at leftFits rightFits
    simp [decimal]
    omega
  | succ width inductionHypothesis =>
    rw [Nat.pow_succ] at leftFits rightFits
    have leftHigh : left / 10 < 10 ^ width := by omega
    have rightHigh : right / 10 < 10 ^ width := by omega
    rw [decimal, decimal, append_lt_append (by simp), inductionHypothesis leftHigh rightHigh,
      decimal_inj leftHigh rightHigh]
    simp only [List.cons_lt_cons_iff, List.not_lt_nil, and_false, or_false, digit_lt]
    omega

/-- The field widths of a record, each with the separator written after it. -/
abbrev Format := List (Nat × List Char)

/-- The text of a record. -/
def Format.render : Format → List Nat → List Char
  | (width, separator) :: format, value :: values =>
    decimal width value ++ (separator ++ Format.render format values)
  | _, _ => []

/-- One number for each field, each within its width. -/
inductive Format.Fits : Format → List Nat → Prop
  | nil : Fits [] []
  | cons {width value : Nat} {separator : List Char} {format : Format} {values : List Nat}
      (field : value < 10 ^ width) (rest : Fits format values) :
      Fits ((width, separator) :: format) (value :: values)

/-- Records of one format compare field by field. -/
theorem Format.render_lt {format : Format} {left right : List Nat} (leftFits : format.Fits left)
    (rightFits : format.Fits right) :
    format.render left < format.render right ↔ left < right := by
  induction leftFits generalizing right with
  | nil =>
    cases rightFits
    simp [Format.render]
  | @cons width value separator format values field _ inductionHypothesis =>
    cases rightFits with
    | cons other rest =>
      rw [Format.render, Format.render, append_lt_append (by simp), decimal_lt field other,
        decimal_inj field other, append_lt_append rfl, inductionHypothesis rest,
        List.cons_lt_cons_iff]
      have irreflexive : ¬ separator < separator := List.lt_irrefl separator
      simp only [irreflexive, false_or, true_and]

/-- A text in a format has only digits and separators. -/
theorem Format.render_all {holds : Char → Prop} {format : Format}
    (digits : ∀ value, holds (digit value))
    (separators : ∀ field ∈ format, ∀ char ∈ field.2, holds char) (values : List Nat) :
    ∀ char ∈ format.render values, holds char := by
  have written : ∀ width value, ∀ char ∈ decimal width value, holds char := by
    intro width
    induction width with
    | zero => simp [decimal]
    | succ width inductionHypothesis =>
      intro value char member
      rcases List.mem_append.mp member with high | low
      · exact inductionHypothesis _ char high
      · rw [List.mem_singleton.mp low]
        exact digits value
  induction format generalizing values with
  | nil => simp [Format.render]
  | cons field format inductionHypothesis =>
    cases values with
    | nil => simp [Format.render]
    | cons value values =>
      intro char member
      simp only [Format.render, List.mem_append] at member
      rcases member with number | separator | rest
      · exact written _ _ char number
      · exact separators field List.mem_cons_self char separator
      · refine inductionHypothesis ?_ values char rest
        intro other otherIn
        exact separators other (List.mem_cons_of_mem field otherIn)

/-- The number that decimal digits denote; anything else reads as its code. -/
def decimalValue (digits : List Char) : Nat :=
  digits.foldl (fun value char => value * 10 + (char.toNat - 48)) 0

/-- Read the fields of a record, skipping the separators. -/
def Format.read : Format → List Char → List Nat
  | [], _ => []
  | (width, separator) :: format, text =>
    decimalValue (text.take width) :: Format.read format (text.drop (width + separator.length))

/-- The digits of a number that fits its width denote it. -/
theorem decimalValue_decimal {width number : Nat} (fits : number < 10 ^ width) :
    decimalValue (decimal width number) = number := by
  induction width generalizing number with
  | zero =>
    rw [Nat.pow_zero] at fits
    simp [decimal, decimalValue]
    omega
  | succ width inductionHypothesis =>
    rw [Nat.pow_succ] at fits
    have high := @inductionHypothesis (number / 10) (by omega)
    unfold decimalValue at high
    rw [decimal, decimalValue, List.foldl_append, high, List.foldl_cons, List.foldl_nil,
      digit_toNat]
    omega

/-- Reading the text of a record gives its fields back. -/
theorem Format.read_render {format : Format} {values : List Nat} (fits : format.Fits values) :
    format.read (format.render values) = values := by
  induction fits with
  | nil => rfl
  | @cons width value separator format values field _ inductionHypothesis =>
    have number : (decimal width value).length = width := decimal_length width value
    have front : (decimal width value ++ separator).length = width + separator.length := by
      rw [List.length_append, number]
    rw [Format.render, Format.read, List.take_left' number, decimalValue_decimal field,
      ← List.append_assoc, List.drop_left' front, inductionHypothesis]

/-- The text of a record is as long as its widths and separators together. -/
theorem Format.render_length {format : Format} {values : List Nat} (fits : format.Fits values) :
    (format.render values).length =
      (format.map fun field => field.1 + field.2.length).sum := by
  induction fits with
  | nil => rfl
  | cons _ _ inductionHypothesis =>
    rw [Format.render, List.length_append, List.length_append, decimal_length,
      inductionHypothesis, List.map_cons, List.sum_cons, Nat.add_assoc]

end Singularmem.Library
