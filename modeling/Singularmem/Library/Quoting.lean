import Mathlib.Tactic.Common

/-!
# Quoted texts

A text between quotation marks escapes the mark, the backslash and the control characters, and
writes every other character as it is. What was quoted is read back, up to the closing mark,
whatever follows it; and no control character is left, so a quoted text stays on its line.
-/

namespace Singularmem.Library.Quoting

/-- A hexadecimal digit. -/
def hexDigit (value : Nat) : Char := "0123456789abcdef".toList.getD value '0'

/-- The value of a hexadecimal digit. -/
def hexValue (char : Char) : Option Nat :=
  let place := "0123456789abcdef".toList.idxOf char
  if place < 16 then some place else none

/-- The control characters with a short escape, and the letter of each. -/
def shortEscapes : List (Char × Char) :=
  [(Char.ofNat 8, 'b'), (Char.ofNat 9, 't'), (Char.ofNat 10, 'n'), (Char.ofNat 12, 'f'),
    (Char.ofNat 13, 'r'), ('"', '"'), ('\\', '\\')]

/-- A character between quotation marks. -/
def escapeChar (char : Char) : List Char :=
  match shortEscapes.lookup char with
  | some letter => ['\\', letter]
  | none =>
    if char.toNat < 32 then
      ['\\', 'u', '0', '0', hexDigit (char.toNat / 16), hexDigit (char.toNat % 16)]
    else [char]

/-- A text between quotation marks. -/
def quote (chars : List Char) : List Char := '"' :: chars.flatMap escapeChar ++ ['"']

theorem quote_append (chars rest : List Char) :
    quote chars ++ rest = '"' :: (chars.flatMap escapeChar ++ '"' :: rest) := by
  simp [quote]

/-- The character that an escape stands for. -/
def unescape (letter : Char) : Option Char :=
  (shortEscapes.find? fun entry => entry.2 = letter).map Prod.fst

/-- Read up to the closing quotation mark: the text, and what follows. -/
def unquote : List Char → Option (List Char × List Char)
  | [] => none
  | '"' :: rest => some ([], rest)
  | '\\' :: 'u' :: '0' :: '0' :: high :: low :: rest => do
    let value := 16 * (← hexValue high) + (← hexValue low)
    let (chars, after) ← unquote rest
    return (Char.ofNat value :: chars, after)
  | '\\' :: letter :: rest => do
    let char ← unescape letter
    let (chars, after) ← unquote rest
    return (char :: chars, after)
  | char :: rest => do
    let (chars, after) ← unquote rest
    return (char :: chars, after)

/-- A digit has its value. -/
theorem hexValue_hexDigit : ∀ value, value < 16 → hexValue (hexDigit value) = some value := by
  decide

/-- A letter that was found is in the list. -/
theorem listed_of_lookup {char letter : Char} (found : shortEscapes.lookup char = some letter) :
    (char, letter) ∈ shortEscapes := by
  obtain ⟨before, after, listed, _⟩ := List.lookup_eq_some_iff.mp found
  rw [listed]
  exact List.mem_append_right before List.mem_cons_self

/-- A letter of the list stands for the character it was given to. -/
theorem unquote_letter : ∀ entry ∈ shortEscapes, ∀ rest, unquote ('\\' :: entry.2 :: rest) =
    (unquote rest).map fun read => (entry.1 :: read.1, read.2) := by
  intro entry member rest
  simp only [shortEscapes, List.mem_cons, List.not_mem_nil, or_false] at member
  rcases member with rfl | rfl | rfl | rfl | rfl | rfl | rfl
  all_goals
    simp [unquote, unescape, shortEscapes]
    cases unquote rest <;> rfl

/-- The digits of a control character stand for it. -/
theorem unquote_digits {char : Char} (control : char.toNat < 32) (rest : List Char) :
    unquote ('\\' :: 'u' :: '0' :: '0' :: hexDigit (char.toNat / 16) ::
        hexDigit (char.toNat % 16) :: rest) =
      (unquote rest).map fun read => (char :: read.1, read.2) := by
  have value : 16 * (char.toNat / 16) + char.toNat % 16 = char.toNat := Nat.div_add_mod _ 16
  rw [unquote, hexValue_hexDigit _ (by omega), hexValue_hexDigit _ (Nat.mod_lt _ (by decide))]
  simp only [Option.pure_def, Option.bind_eq_bind, Option.bind_some, value, Char.ofNat_toNat]
  cases unquote rest <;> rfl

/-- A plain character stands for itself. -/
theorem unquote_plain {char : Char} (quoted : char ≠ '"') (escaped : char ≠ '\\')
    (rest : List Char) : unquote (char :: rest) =
      (unquote rest).map fun read => (char :: read.1, read.2) := by
  rw [unquote.eq_def]
  split <;> simp_all
  rename_i same
  obtain ⟨rfl, rfl⟩ := same
  cases unquote rest <;> rfl

/-- What is read of an escaped character. -/
theorem unquote_escapeChar (char : Char) (rest : List Char) :
    unquote (escapeChar char ++ rest) =
      (unquote rest).map fun read => (char :: read.1, read.2) := by
  unfold escapeChar
  split
  case h_1 letter found => exact unquote_letter (char, letter) (listed_of_lookup found) rest
  case h_2 absent =>
    split
    case isTrue control => exact unquote_digits control rest
    case isFalse =>
      refine unquote_plain ?_ ?_ rest <;> rintro rfl <;> cases absent

/-- **A quoted text is read back**, whatever follows it. -/
theorem unquote_escaped (chars rest : List Char) :
    unquote (chars.flatMap escapeChar ++ '"' :: rest) = some (chars, rest) := by
  induction chars with
  | nil => rfl
  | cons char chars inductionHypothesis =>
    rw [List.flatMap_cons, List.append_assoc, unquote_escapeChar, inductionHypothesis]
    rfl

/-- Characters that are checked one by one. -/
theorem all_printed {chars : List Char}
    (all : chars.all (fun part => decide (32 ≤ part.toNat)) = true) :
    ∀ part ∈ chars, 32 ≤ part.toNat :=
  fun part member => of_decide_eq_true (List.all_eq_true.mp all part member)

/-- A digit is no control character. -/
theorem hexDigit_printed : ∀ value, value < 16 → 32 ≤ (hexDigit value).toNat := by decide

/-- No control character is left of a character. -/
theorem escapeChar_printed (char : Char) : ∀ part ∈ escapeChar char, 32 ≤ part.toNat := by
  have letters : ∀ entry ∈ shortEscapes, 32 ≤ entry.2.toNat := by decide
  unfold escapeChar
  split
  case h_1 letter found =>
    have printed : 32 ≤ letter.toNat := letters (char, letter) (listed_of_lookup found)
    simpa using printed
  case h_2 =>
    split
    case isTrue control =>
      have high := hexDigit_printed (char.toNat / 16) (by omega)
      have low := hexDigit_printed (char.toNat % 16) (Nat.mod_lt _ (by decide))
      simpa using ⟨high, low⟩
    case isFalse printed => simpa using printed

/-- **No control character is left of a text.** -/
theorem quote_printed (chars : List Char) : ∀ part ∈ quote chars, 32 ≤ part.toNat := by
  intro part member
  simp only [quote, List.cons_append, List.mem_cons, List.mem_append, List.mem_flatMap,
    List.not_mem_nil, or_false] at member
  rcases member with rfl | ⟨char, _, inside⟩ | rfl
  · decide
  · exact escapeChar_printed char part inside
  · decide

end Singularmem.Library.Quoting
