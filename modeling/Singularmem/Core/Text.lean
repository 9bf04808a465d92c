import Singularmem.Core.Error
import Singularmem.Core.Time
import Mathlib.Tactic.IntervalCases

/-!
# Text, confidence and the platform

The Unicode tables, the time parser and the number formatting come from outside the
repository and are parameters: a `Platform` gives the functions the source calls.
Whitespace, trimming and splitting follow the Unicode `White_Space` property.
-/

namespace Singularmem.Core

/-- A single-precision number by its bits. -/
structure Confidence where
  bits : BitVec 32
deriving DecidableEq

namespace Confidence

/-- The number 1. -/
def one : Confidence := ⟨0x3F800000⟩

/-- Whether the number lies in `0.0..=1.0`. Negative zero does; no NaN does. -/
def inUnit (confidence : Confidence) : Bool :=
  confidence.bits.toNat ≤ 0x3F800000 || confidence.bits = 0x80000000

/-- The magnitude, in units of the least positive number. -/
def magnitude (confidence : Confidence) : Nat :=
  let exponent := confidence.bits.toNat / 2 ^ 23 % 2 ^ 8
  let fraction := confidence.bits.toNat % 2 ^ 23
  if exponent = 0 then fraction else (2 ^ 23 + fraction) * 2 ^ (exponent - 1)

/-- Whether two numbers in the unit interval differ by less than the machine
epsilon, after their difference is rounded: distances from half a unit in the last
place below the epsilon are rounded up to it. -/
def near (left right : Confidence) : Bool :=
  max left.magnitude right.magnitude - min left.magnitude right.magnitude < 2 ^ 126 - 2 ^ 101

end Confidence

/-- The value of a `REAL` column. Whole numbers are kept as integers there, so no column
holds a negative zero. -/
structure RealColumn where
  value : Confidence
  notNegativeZero : value.bits ≠ 0x80000000
deriving DecidableEq

/-- Store a number in a `REAL` column. -/
def Confidence.real (confidence : Confidence) : RealColumn :=
  if negativeZero : confidence.bits = 0x80000000 then ⟨⟨0⟩, by decide⟩
  else ⟨confidence, negativeZero⟩

/-- Storing what a column holds gives the column back. -/
@[simp] theorem RealColumn.real_value (column : RealColumn) : column.value.real = column := by
  rw [Confidence.real, dif_neg column.notNegativeZero]

/-- What the program takes from its libraries. -/
structure Platform where
  /-- Unicode normalisation form C. -/
  nfc : String → String
  /-- Unicode lowercase. -/
  toLowercase : String → String
  /-- The quoted form of a text in messages. -/
  debug : String → String
  /-- An instant with as many fractional digits as it needs. -/
  displayTime : Timestamp → String
  displayConfidence : Confidence → String
  /-- Parse an RFC 3339 instant. -/
  parseTimestamp : String → Option Timestamp
  /-- Parse a bare date and take its midnight, which may lie out of range. -/
  parseDate : String → Option (Except String Timestamp)
  /-- What reading back the digits of a JSON number gives. -/
  readNumber : String → String

/-- The Unicode `White_Space` property. -/
def isWhitespace (char : Char) : Bool :=
  let code := char.toNat
  (9 ≤ code && code ≤ 13) || (0x2000 ≤ code && code ≤ 0x200A) ||
    code ∈ [0x20, 0x85, 0xA0, 0x1680, 0x2028, 0x2029, 0x202F, 0x205F, 0x3000]

/-- Drop matching characters at both ends. -/
def trimMatches (matching : Char → Bool) (text : String) : String :=
  String.ofList (((text.toList.dropWhile matching).reverse.dropWhile matching).reverse)

/-- Drop whitespace at both ends. -/
def trim : String → String := trimMatches isWhitespace

/-- The non-empty parts between whitespace. -/
def splitWhitespace (text : String) : List String :=
  ((text.toList.splitOnP isWhitespace).filter (· ≠ [])).map String.ofList

/-- The parts between separators. -/
def split (separator : Char) (text : String) : List String :=
  (text.toList.splitOn separator).map String.ofList

/-- The length the database reports: the characters before the first NUL. -/
def sqlLength (text : String) : Nat := (text.toList.takeWhile (· ≠ Char.ofNat 0)).length

/-- Parse a time point given as a bare date or as a full timestamp. -/
def parsePoint (platform : Platform) (raw : String) : Except Error Timestamp :=
  let text := trim raw
  match platform.parseTimestamp text with
  | some instant => .ok instant
  | none =>
    match platform.parseDate text with
    | some (.ok instant) => .ok instant
    | some (.error reason) => .error (.validation "timestamp" reason)
    | none => .error (.validation "timestamp"
        (platform.debug text ++ " is neither YYYY-MM-DD nor RFC 3339"))

/-- A text without matching characters is not trimmed. -/
theorem trimMatches_of_none {matching : Char → Bool} {text : String}
    (none : ∀ char ∈ text.toList, ¬ matching char) : trimMatches matching text = text := by
  have kept : ∀ chars : List Char, (∀ char ∈ chars, ¬ matching char) →
      chars.dropWhile matching = chars := by
    intro chars absent
    cases chars with
    | nil => rfl
    | cons char rest => exact List.dropWhile_cons_of_neg (absent char List.mem_cons_self)
  rw [trimMatches, kept _ none, kept _ (by simpa using none), List.reverse_reverse,
    String.ofList_toList]

/-- A rendered instant has nothing to trim. -/
theorem trim_toSql (instant : Timestamp) : trim (toSql instant) = toSql instant := by
  refine trimMatches_of_none ?_
  have digits : ∀ value, ¬ isWhitespace (Library.digit value) := by
    intro value
    simp only [isWhitespace, Library.digit_toNat]
    have bound : value % 10 < 10 := Nat.mod_lt value (by decide)
    interval_cases value % 10 <;> decide
  rw [toSql, String.toList_ofList]
  intro char member
  rcases List.mem_append.mp member with sign | text
  · split at sign
    · rw [List.mem_singleton.mp sign]
      decide
    · cases sign
  · exact @Library.Format.render_all (fun char => ¬ isWhitespace char) sqlFormat digits
      (by simp [sqlFormat, isWhitespace]) _ char text

/-- What the parsers do with a rendered instant. The time parser may refuse a negative
year, but what it reads is rendered as the same text; the date parser refuses the zone. -/
structure Platform.ReadsBack (platform : Platform) : Prop where
  timestamp : ∀ instant parsed, platform.parseTimestamp (toSql instant) = some parsed →
    toSql parsed = toSql instant
  date : ∀ instant, platform.parseDate (toSql instant) = none

/-- A stored instant that parses is rendered as the same text again. -/
theorem Platform.ReadsBack.parsePoint {platform : Platform} (readsBack : platform.ReadsBack)
    {instant parsed : Timestamp} (read : Core.parsePoint platform (toSql instant) = .ok parsed) :
    toSql parsed = toSql instant := by
  simp only [Core.parsePoint, trim_toSql, readsBack.date] at read
  split at read
  case h_1 found =>
    cases read
    exact readsBack.timestamp instant parsed found
  case h_2 => cases read

namespace Platform

open Library Library.Calendar

/-- The instant a text in the stored format would denote. -/
def candidate (text : List Char) : Option Timestamp :=
  match sqlFormat.read text with
  | [year, month, day, hour, minute, second, nano] =>
    let seconds := (hour * 60 + minute) * 60 + second
    let nanos : Int :=
      (dayOf ⟨year, month, day⟩ - epochDay) * nanosPerDay + seconds * 1000000000 + nano
    if inRange : -377705023201000000000 ≤ nanos ∧ nanos ≤ 253402207200999999999 then
      some ⟨nanos, inRange⟩
    else none
  | _ => none

/-- Complete a fraction to nine digits, where a text is shorter than the stored form. -/
def padFraction (text : List Char) : List Char :=
  if text.length < 30 then
    let digits := text.dropLast ++ (if '.' ∈ text then [] else ['.'])
    digits ++ List.replicate (29 - digits.length) '0' ++ ['Z']
  else text

/-- The instant whose stored form a text is, once its fraction is completed. -/
def readSql (text : String) : Option Timestamp :=
  (candidate (padFraction text.toList)).filter fun instant =>
    (toSql instant).toList = padFraction text.toList

/-- The stored form of an instant without the zeros at its end. -/
def trimFraction (instant : Timestamp) : String :=
  let digits := ((toSql instant).toList.reverse.drop 1).dropWhile (· = '0')
  String.ofList ((digits.dropWhile (· = '.')).reverse ++ ['Z'])

/-- A platform for ASCII texts and times in their stored form. -/
def ascii : Platform where
  nfc := id
  toLowercase text := String.ofList (text.toList.map Char.toLower)
  debug := String.quote
  displayTime := trimFraction
  displayConfidence confidence := if confidence = .one then "1" else "0"
  parseTimestamp := readSql
  parseDate _ := none
  readNumber := id

/-- The stored form has its nine digits. -/
theorem padFraction_toSql (instant : Timestamp) :
    padFraction (toSql instant).toList = (toSql instant).toList := by
  refine if_neg ?_
  simp [toSql, sqlFormat, Format.render, Timestamp.fieldsAfterYear, Timestamp.clockFields]

/-- Its parsers read rendered instants back. -/
theorem ascii_readsBack : ascii.ReadsBack := by
  refine ⟨?_, fun _ => rfl⟩
  intro instant parsed read
  have kept := (Option.filter_eq_some_iff.mp read).2
  rw [padFraction_toSql] at kept
  exact String.toList_inj.mp (by simpa using kept)

end Platform

end Singularmem.Core
