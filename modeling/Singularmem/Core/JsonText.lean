import Singularmem.Core.Items
import Singularmem.Library.Quoting

/-!
# JSON as text

Values are written without spaces, each member after its name. A value is read from the front
of a text and leaves what follows it. What was written is read back; and a written value has
no control character, so it stays on one line.
-/

namespace Singularmem.Core.Json

open Library.Quoting

/-- The characters of numbers. -/
def isNumberChar (char : Char) : Bool := char.isDigit || char ∈ ['+', '-', '.', 'e', 'E']

/-- The text of a number. -/
def Numeral (digits : String) : Prop :=
  digits ≠ "" ∧ digits.toList.all isNumberChar = true

instance (digits : String) : Decidable (Numeral digits) := inferInstanceAs (Decidable (_ ∧ _))

mutual

/-- Every number is a numeral. -/
def Numeric : Json → Prop
  | .number digits => Numeral digits
  | .array elements => NumericElements elements
  | .object members => NumericMembers members
  | _ => True

/-- Every number among the elements is. -/
def NumericElements : List Json → Prop
  | [] => True
  | element :: elements => Numeric element ∧ NumericElements elements

/-- Every number among the members is. -/
def NumericMembers : List (String × Json) → Prop
  | [] => True
  | (_, member) :: members => Numeric member ∧ NumericMembers members

end

mutual

/-- The text of a value. -/
def write : Json → List Char
  | .null => ['n', 'u', 'l', 'l']
  | .bool true => ['t', 'r', 'u', 'e']
  | .bool false => ['f', 'a', 'l', 's', 'e']
  | .number digits => digits.toList
  | .string value => quote value.toList
  | .array [] => ['[', ']']
  | .array (element :: elements) => '[' :: (write element ++ writeElements elements)
  | .object [] => ['{', '}']
  | .object ((name, member) :: members) =>
    '{' :: (quote name.toList ++ ':' :: (write member ++ writeMembers members))

/-- The elements behind the first one. -/
def writeElements : List Json → List Char
  | [] => [']']
  | element :: elements => ',' :: (write element ++ writeElements elements)

/-- The members behind the first one. -/
def writeMembers : List (String × Json) → List Char
  | [] => ['}']
  | (name, member) :: members =>
    ',' :: (quote name.toList ++ ':' :: (write member ++ writeMembers members))

end

mutual

/-- Read a value and leave what follows it. -/
def read : Nat → List Char → Option (Json × List Char)
  | 0, _ => none
  | _ + 1, 'n' :: 'u' :: 'l' :: 'l' :: rest => some (.null, rest)
  | _ + 1, 't' :: 'r' :: 'u' :: 'e' :: rest => some (.bool true, rest)
  | _ + 1, 'f' :: 'a' :: 'l' :: 's' :: 'e' :: rest => some (.bool false, rest)
  | _ + 1, '"' :: rest => do
    let (value, rest) ← unquote rest
    return (.string (String.ofList value), rest)
  | _ + 1, '[' :: ']' :: rest => some (.array [], rest)
  | fuel + 1, '[' :: rest => do
    let (element, rest) ← read fuel rest
    let (elements, rest) ← readElements fuel rest
    return (.array (element :: elements), rest)
  | _ + 1, '{' :: '}' :: rest => some (.object [], rest)
  | fuel + 1, '{' :: rest => do
    let (member, rest) ← readMember fuel rest
    let (members, rest) ← readMembers fuel rest
    return (.object (member :: members), rest)
  | _ + 1, chars =>
    let digits := chars.takeWhile isNumberChar
    if digits = [] then none
    else some (.number (String.ofList digits), chars.dropWhile isNumberChar)

/-- Read the elements behind the first one. -/
def readElements : Nat → List Char → Option (List Json × List Char)
  | _ + 1, ']' :: rest => some ([], rest)
  | fuel + 1, ',' :: rest => do
    let (element, rest) ← read fuel rest
    let (elements, rest) ← readElements fuel rest
    return (element :: elements, rest)
  | _, _ => none

/-- Read one member. -/
def readMember : Nat → List Char → Option ((String × Json) × List Char)
  | fuel + 1, '"' :: rest =>
    match unquote rest with
    | some (name, ':' :: rest) => do
      let (member, rest) ← read fuel rest
      return ((String.ofList name, member), rest)
    | _ => none
  | _, _ => none

/-- Read the members behind the first one. -/
def readMembers : Nat → List Char → Option (List (String × Json) × List Char)
  | _ + 1, '}' :: rest => some ([], rest)
  | fuel + 1, ',' :: rest => do
    let (member, rest) ← readMember fuel rest
    let (members, rest) ← readMembers fuel rest
    return (member :: members, rest)
  | _, _ => none

end

/-- The value that a whole text denotes. -/
def ofText (text : List Char) : Option Json :=
  match read text.length text with
  | some (value, []) => some value
  | _ => none

/-- What follows a value does not go on with a number. -/
def Ends (rest : List Char) : Prop := ∀ char ∈ rest.head?, isNumberChar char = false

/-- A number is read up to what does not go on with it. -/
theorem read_number {digits : String} (numeral : Numeral digits) {rest : List Char}
    (ends : Ends rest) (fuel : Nat) :
    read (fuel + 1) (digits.toList ++ rest) = some (.number digits, rest) := by
  have taken : (digits.toList ++ rest).takeWhile isNumberChar = digits.toList := by
    rw [List.takeWhile_append_of_pos (List.all_eq_true.mp numeral.2)]
    cases rest with
    | nil => simp
    | cons char rest => simp [ends char rfl]
  have dropped : (digits.toList ++ rest).dropWhile isNumberChar = rest := by
    rw [List.dropWhile_append_of_pos (List.all_eq_true.mp numeral.2)]
    cases rest with
    | nil => rfl
    | cons char rest => simp [ends char rfl]
  have filled : digits.toList ≠ [] := by simpa using numeral.1
  obtain ⟨first, more, same⟩ := List.exists_cons_of_ne_nil filled
  have starts : isNumberChar first = true := by
    refine List.all_eq_true.mp numeral.2 first ?_
    rw [same]
    exact List.mem_cons_self
  rw [read, taken, dropped, if_neg filled, String.ofList_toList]
  all_goals
    rw [same]
    intro _ equal
    cases (List.cons.inj equal).1
    cases starts

/-- The text of a value starts with a character that closes nothing. -/
theorem write_starts (value : Json) (numeric : value.Numeric) :
    ∃ first more, write value = first :: more ∧ first ≠ ']' := by
  cases value with
  | null => exact ⟨_, _, rfl, by decide⟩
  | bool value => cases value <;> exact ⟨_, _, rfl, by decide⟩
  | number digits =>
    obtain ⟨first, more, same⟩ := List.exists_cons_of_ne_nil
      (show digits.toList ≠ [] by simpa using numeric.1)
    refine ⟨first, more, same, ?_⟩
    rintro rfl
    have number := numeric.2
    rw [same] at number
    cases number
  | string value => exact ⟨_, _, rfl, by decide⟩
  | array elements => cases elements <;> exact ⟨_, _, rfl, by decide⟩
  | object members => cases members <;> exact ⟨_, _, rfl, by decide⟩

/-- An array with a first element is read element by element. -/
theorem read_array {fuel : Nat} {element : Json} {elements : List Json}
    {chars behind rest : List Char} (starts : ∃ first more, chars = first :: more ∧ first ≠ ']')
    (head : read fuel (chars ++ behind) = some (element, behind))
    (tail : readElements fuel behind = some (elements, rest)) :
    read (fuel + 1) ('[' :: (chars ++ behind)) = some (.array (element :: elements), rest) := by
  obtain ⟨first, more, rfl, opened⟩ := starts
  rw [read]
  · simp only [head, tail, Option.bind_eq_bind, Option.bind_some]
    rfl
  · rintro _ ⟨⟩
    exact opened rfl

/-- A member is read with its name. -/
theorem readMember_write {fuel : Nat} (name : String) {member : Json} {chars behind : List Char}
    (inside : read fuel (chars ++ behind) = some (member, behind)) :
    readMember (fuel + 1) (quote name.toList ++ ':' :: (chars ++ behind)) =
      some ((name, member), behind) := by
  have named : unquote (name.toList.flatMap escapeChar ++ '"' :: (':' :: (chars ++ behind))) =
      some (name.toList, ':' :: (chars ++ behind)) := unquote_escaped _ _
  rw [quote_append, readMember]
  simp only [named, inside, Option.bind_eq_bind, Option.bind_some, String.ofList_toList]
  rfl

theorem ends_elements (elements : List Json) (rest : List Char) :
    Ends (writeElements elements ++ rest) := by
  cases elements <;> rintro _ ⟨⟩ <;> decide

theorem ends_members (members : List (String × Json)) (rest : List Char) :
    Ends (writeMembers members ++ rest) := by
  cases members with
  | nil => rintro _ ⟨⟩; decide
  | cons member members => rintro _ ⟨⟩; decide

/-- The text of a value is not empty. -/
theorem write_length (value : Json) (numeric : value.Numeric) : 0 < (write value).length := by
  obtain ⟨first, more, same, _⟩ := write_starts value numeric
  rw [same]
  exact Nat.succ_pos _

mutual

/-- **A written value is read back.** -/
theorem read_write : ∀ (value : Json), value.Numeric → ∀ fuel rest, Ends rest →
    (write value).length ≤ fuel + 1 → read (fuel + 1) (write value ++ rest) = some (value, rest)
  | .null, _, _, _, _, _ => rfl
  | .bool true, _, _, _, _, _ => rfl
  | .bool false, _, _, _, _, _ => rfl
  | .number digits, numeral, fuel, rest, ends, _ => read_number numeral ends fuel
  | .string value, _, fuel, rest, _, _ => by
    rw [write, quote_append, read, unquote_escaped]
    simp only [Option.bind_eq_bind, Option.bind_some, String.ofList_toList]
    rfl
  | .array [], _, _, _, _, _ => rfl
  | .array (element :: elements), ⟨head, tail⟩, fuel, rest, _, enough => by
    rw [write, List.length_cons, List.length_append] at enough
    have first := write_length element head
    obtain ⟨less, rfl⟩ : ∃ less, fuel = less + 1 := ⟨fuel - 1, by omega⟩
    rw [write, List.cons_append, List.append_assoc]
    refine read_array (write_starts element head) ?_ ?_
    · exact read_write element head less _ (ends_elements elements rest) (by omega)
    · exact readElements_write elements tail (less + 1) rest (by omega)
  | .object [], _, _, _, _, _ => rfl
  | .object ((name, member) :: members), ⟨head, tail⟩, fuel, rest, _, enough => by
    rw [write, List.length_cons, List.length_append, List.length_cons, List.length_append] at enough
    have first := write_length member head
    obtain ⟨less, rfl⟩ : ∃ less, fuel = less + 2 := ⟨fuel - 2, by omega⟩
    have inside := read_write member head less _ (ends_members members rest) (by omega)
    have behind := readMembers_write members tail (less + 2) rest (by omega)
    have named := readMember_write name inside
    rw [write, List.cons_append, List.append_assoc, List.cons_append, List.append_assoc, read]
    · simp only [named, behind, Option.bind_eq_bind, Option.bind_some]
      rfl
    · rw [quote_append]
      rintro _ ⟨⟩

/-- So are the elements behind the first one. -/
theorem readElements_write : ∀ (elements : List Json), NumericElements elements → ∀ fuel rest,
    (writeElements elements).length ≤ fuel →
      readElements fuel (writeElements elements ++ rest) = some (elements, rest)
  | [], _, fuel + 1, _, _ => rfl
  | element :: elements, ⟨head, tail⟩, fuel, rest, enough => by
    rw [writeElements, List.length_cons, List.length_append] at enough
    have first := write_length element head
    obtain ⟨less, rfl⟩ : ∃ less, fuel = less + 2 := ⟨fuel - 2, by omega⟩
    have inside := read_write element head less _ (ends_elements elements rest) (by omega)
    have behind := readElements_write elements tail (less + 1) rest (by omega)
    rw [writeElements, List.cons_append, List.append_assoc, readElements]
    simp only [inside, behind, Option.bind_eq_bind, Option.bind_some]
    rfl

/-- So are the members behind the first one. -/
theorem readMembers_write : ∀ (members : List (String × Json)), NumericMembers members →
    ∀ fuel rest, (writeMembers members).length ≤ fuel →
      readMembers fuel (writeMembers members ++ rest) = some (members, rest)
  | [], _, fuel + 1, _, _ => rfl
  | (name, member) :: members, ⟨head, tail⟩, fuel, rest, enough => by
    rw [writeMembers, List.length_cons, List.length_append, List.length_cons, List.length_append]
      at enough
    have first := write_length member head
    obtain ⟨less, rfl⟩ : ∃ less, fuel = less + 3 := ⟨fuel - 3, by omega⟩
    have inside := read_write member head less _ (ends_members members rest) (by omega)
    have behind := readMembers_write members tail (less + 2) rest (by omega)
    have named := readMember_write name inside
    rw [writeMembers, List.cons_append, List.append_assoc, List.cons_append, List.append_assoc,
      readMembers]
    simp only [named, behind, Option.bind_eq_bind, Option.bind_some]
    rfl

end

mutual

/-- Reading a value again leaves numerals, where it does so with numbers. -/
theorem reread_numeric {platform : Platform}
    (numerals : ∀ digits, Numeral digits → Numeral (platform.readNumber digits)) :
    ∀ value : Json, value.Numeric → (value.reread platform).Numeric
  | .null, _ | .bool _, _ | .string _, _ => by simp [reread, Numeric]
  | .number digits, numeral => by
    rw [reread]
    exact numerals digits numeral
  | .array elements, numeric => by
    rw [reread]
    exact rereadElements_numeric numerals elements numeric
  | .object members, numeric => by
    rw [reread]
    exact rereadMembers_numeric numerals members numeric

/-- So does reading elements again. -/
theorem rereadElements_numeric {platform : Platform}
    (numerals : ∀ digits, Numeral digits → Numeral (platform.readNumber digits)) :
    ∀ elements : List Json, NumericElements elements →
      NumericElements (rereadElements platform elements)
  | [], _ => trivial
  | element :: elements, ⟨head, tail⟩ =>
    ⟨reread_numeric numerals element head, rereadElements_numeric numerals elements tail⟩

/-- So does reading members again. -/
theorem rereadMembers_numeric {platform : Platform}
    (numerals : ∀ digits, Numeral digits → Numeral (platform.readNumber digits)) :
    ∀ members : List (String × Json), NumericMembers members →
      NumericMembers (rereadMembers platform members)
  | [], _ => trivial
  | (_, member) :: members, ⟨head, tail⟩ =>
    ⟨reread_numeric numerals member head, rereadMembers_numeric numerals members tail⟩

end

/-- **The text of a value denotes it.** -/
theorem ofText_write {value : Json} (numeric : value.Numeric) :
    ofText (write value) = some value := by
  obtain ⟨fuel, size⟩ : ∃ fuel, (write value).length = fuel + 1 :=
    ⟨_, (Nat.succ_pred_eq_of_pos (write_length value numeric)).symm⟩
  have back := read_write value numeric fuel [] nofun (Nat.le_of_eq size)
  rw [List.append_nil] at back
  rw [ofText, size, back]

/-- A character of a number is no control character. -/
theorem isNumberChar_printed {char : Char} (number : isNumberChar char = true) :
    32 ≤ char.toNat := by
  rw [isNumberChar, Bool.or_eq_true] at number
  rcases number with digit | sign
  · rw [Char.isDigit, Bool.and_eq_true, decide_eq_true_eq, decide_eq_true_eq] at digit
    exact Nat.le_trans (by decide) (UInt32.le_iff_toNat_le.mp digit.1)
  · have each : ∀ sign ∈ ['+', '-', '.', 'e', 'E'], 32 ≤ sign.toNat := all_printed rfl
    exact each char (of_decide_eq_true sign)

mutual

/-- **A written value has no control character.** -/
theorem write_printed : ∀ value : Json, value.Numeric → ∀ part ∈ write value, 32 ≤ part.toNat
  | .null, _ => all_printed rfl
  | .bool true, _ => all_printed rfl
  | .bool false, _ => all_printed rfl
  | .number _, numeral => fun part member =>
    isNumberChar_printed (List.all_eq_true.mp numeral.2 part member)
  | .string value, _ => quote_printed value.toList
  | .array [], _ => all_printed rfl
  | .array (element :: elements), ⟨head, tail⟩ => by
    rw [write, List.forall_mem_cons, List.forall_mem_append]
    exact ⟨by decide, write_printed element head, writeElements_printed elements tail⟩
  | .object [], _ => all_printed rfl
  | .object ((name, member) :: members), ⟨head, tail⟩ => by
    rw [write, List.forall_mem_cons, List.forall_mem_append, List.forall_mem_cons,
      List.forall_mem_append]
    exact ⟨by decide, quote_printed name.toList, by decide, write_printed member head,
      writeMembers_printed members tail⟩

/-- Nor do written elements. -/
theorem writeElements_printed : ∀ elements : List Json, NumericElements elements →
    ∀ part ∈ writeElements elements, 32 ≤ part.toNat
  | [], _ => all_printed rfl
  | element :: elements, ⟨head, tail⟩ => by
    rw [writeElements, List.forall_mem_cons, List.forall_mem_append]
    exact ⟨by decide, write_printed element head, writeElements_printed elements tail⟩

/-- Nor do written members. -/
theorem writeMembers_printed : ∀ members : List (String × Json), NumericMembers members →
    ∀ part ∈ writeMembers members, 32 ≤ part.toNat
  | [], _ => all_printed rfl
  | (name, member) :: members, ⟨head, tail⟩ => by
    rw [writeMembers, List.forall_mem_cons, List.forall_mem_append, List.forall_mem_cons,
      List.forall_mem_append]
    exact ⟨by decide, quote_printed name.toList, by decide, write_printed member head,
      writeMembers_printed members tail⟩

end

end Singularmem.Core.Json
