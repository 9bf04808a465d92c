import Singularmem.Ingest.Transcripts
import Mathlib.Data.List.TakeWhile

/-!
# Torn lines

The last line of a file that is still being written may be cut anywhere, also inside a
character. Where it can be parsed nevertheless, all that is missing is whitespace, and it
is parsed as its completion is.
-/

namespace Singularmem.Ingest

open Library Singularmem.Core

variable {Line σ : Type} {reader : LineReader Line}

/-- A line of JSON, as bytes. -/
def LineReader.JsonLine (reader : LineReader Line) (raw : List UInt8) : Prop :=
  ∃ text, lineText raw = .ok text ∧ reader.Whole text

/-- Brackets are no whitespace. -/
theorem bracket_not_space {bracket : Char} (closing : bracket = '}' ∨ bracket = ']') :
    isJsonSpace bracket = false ∧ isWhitespace bracket = false := by
  rcases closing with rfl | rfl <;> decide

/-- Whitespace at the end of a text comes after its last bracket. -/
theorem split_at_bracket {value rest text spaces : List Char} {bracket : Char}
    (closing : bracket = '}' ∨ bracket = ']') (blank : spaces.all isJsonSpace)
    (same : value ++ bracket :: rest = text ++ spaces) :
    ∃ between, rest = between ++ spaces ∧ text = value ++ bracket :: between := by
  rcases List.append_eq_append_iff.mp same with ⟨more, rfl, after⟩ | ⟨more, rfl, after⟩
  · cases more with
    | nil =>
      have member : bracket ∈ spaces := by
        rw [← List.nil_append spaces, ← after]
        exact List.mem_cons_self
      have space := List.all_eq_true.mp blank bracket member
      rw [(bracket_not_space closing).1] at space
      cases space
    | cons head between =>
      obtain ⟨rfl, rest⟩ := List.cons.inj after
      exact ⟨between, rest, rfl⟩
  · have member : bracket ∈ spaces := by
      rw [after]
      exact List.mem_append_right more List.mem_cons_self
    have space := List.all_eq_true.mp blank bracket member
    rw [(bracket_not_space closing).1] at space
    cases space

/-- A text that is parsed: a value, its closing bracket, and whitespace. -/
theorem fromStr_returned {text : List Char} {line : Line} (parsed : reader.fromStr text = .ok line) :
    ∃ value bracket rest, text = value ++ bracket :: rest ∧ (bracket = '}' ∨ bracket = ']') ∧
      rest.all isJsonSpace ∧ ∀ more, reader.readValue (value ++ bracket :: more) = .ok (line, more) := by
  rw [LineReader.fromStr] at parsed
  split at parsed
  case h_1 found rest read =>
    split at parsed
    case isTrue blank =>
      cases parsed
      obtain ⟨value, bracket, same, closing, reads⟩ := reader.selfDelineating read
      exact ⟨value, bracket, rest, same, closing, blank, reads⟩
    case isFalse => cases parsed
  case h_2 => cases parsed

/-- What is parsed is parsed the same with whitespace after it. -/
theorem fromStr_more {text spaces : List Char} {line : Line}
    (parsed : reader.fromStr text = .ok line) (blank : spaces.all isJsonSpace) :
    reader.fromStr (text ++ spaces) = .ok line := by
  obtain ⟨value, bracket, rest, rfl, _, still, reads⟩ := fromStr_returned parsed
  rw [List.append_assoc, List.cons_append, LineReader.fromStr, reads]
  simp [List.all_append, still, blank]

/-- What is parsed is parsed the same without whitespace after it. -/
theorem fromStr_less {text spaces : List Char} {line : Line}
    (parsed : reader.fromStr (text ++ spaces) = .ok line) (blank : spaces.all isJsonSpace) :
    reader.fromStr text = .ok line := by
  obtain ⟨value, bracket, rest, same, closing, still, reads⟩ := fromStr_returned parsed
  obtain ⟨between, rfl, rfl⟩ := split_at_bracket closing blank same.symm
  rw [List.all_append, Bool.and_eq_true] at still
  rw [LineReader.fromStr, reads]
  simp [still.1]

/-- A text is not blank if a character of it is no whitespace. -/
theorem trimChars_ne_nil {text : List Char} {char : Char} (member : char ∈ text)
    (visible : ¬ isWhitespace char) : trimChars text ≠ [] := by
  intro blank
  rw [trimChars, trim, trimMatches, String.toList_ofList, String.toList_ofList,
    List.reverse_eq_nil_iff, List.dropWhile_eq_nil_iff] at blank
  cases left : text.dropWhile isWhitespace with
  | nil => exact visible (List.dropWhile_eq_nil_iff.mp left char member)
  | cons head rest =>
    have stops := List.head?_dropWhile_not isWhitespace text
    rw [left] at stops blank
    have space := blank head (List.mem_reverse.mpr List.mem_cons_self)
    simp [space] at stops

/-- A text that is parsed is not blank. -/
theorem fromStr_not_blank {text : List Char} {line : Line}
    (parsed : reader.fromStr text = .ok line) : trimChars text ≠ [] := by
  obtain ⟨value, bracket, rest, rfl, closing, _⟩ := fromStr_returned parsed
  refine trimChars_ne_nil (List.mem_append_right value List.mem_cons_self) ?_
  rw [(bracket_not_space closing).2]
  exact Bool.false_ne_true

/-- Where the end of a line was dropped. -/
theorem stripEol_spaces (text : List Char) :
    ∃ spaces : List Char, spaces.all isJsonSpace ∧ text = stripEol text ++ spaces := by
  rw [stripEol]
  split
  case h_1 rest same =>
    refine ⟨['\r', '\n'], by decide, ?_⟩
    have := congrArg List.reverse same
    simpa using this
  case h_2 rest _ same =>
    refine ⟨['\n'], by decide, ?_⟩
    have := congrArg List.reverse same
    simpa using this
  case h_3 => exact ⟨[], rfl, (List.append_nil _).symm⟩

/-- The bytes of characters. -/
def encodeUtf8 (text : List Char) : List UInt8 := text.flatMap String.utf8EncodeChar

/-- Bytes that decode are those of the characters they decode to. -/
theorem fromUTF8_iff {raw : List UInt8} {text : String} :
    String.fromUTF8? ⟨raw.toArray⟩ = some text ↔ raw = encodeUtf8 text.toList := by
  have bytes : text.toByteArray = ⟨(encodeUtf8 text.toList).toArray⟩ := by
    rw [← String.utf8Encode_toList]
    exact ByteArray.ext (List.data_toByteArray)
  constructor
  · intro decoded
    rw [String.fromUTF8?] at decoded
    split at decoded
    case isTrue valid =>
      cases decoded
      have same : (⟨raw.toArray⟩ : ByteArray) = ⟨(encodeUtf8 _).toArray⟩ := bytes
      simpa using same
    case isFalse => cases decoded
  · intro same
    have known : (⟨raw.toArray⟩ : ByteArray) = text.toByteArray := by rw [bytes, same]
    rw [known, String.fromUTF8?, dif_pos text.isValidUTF8]
    rfl

/-- Bytes after those of a text are those of the characters after it. -/
theorem encodeUtf8_append {front text : List Char} {more : List UInt8}
    (same : encodeUtf8 front ++ more = encodeUtf8 text) :
    ∃ rest, text = front ++ rest ∧ more = encodeUtf8 rest := by
  have initial : front <+: text := by
    refine List.isPrefix_of_utf8Encode_append_eq_utf8Encode more.toByteArray ?_
    rw [List.utf8Encode, List.utf8Encode, ← List.toByteArray_append]
    exact congrArg List.toByteArray same
  obtain ⟨rest, rfl⟩ := initial
  refine ⟨rest, rfl, ?_⟩
  rw [encodeUtf8, encodeUtf8, List.flatMap_append] at same
  exact List.append_cancel_left same

/-- JSON whitespace takes a byte each. -/
theorem encodeUtf8_spaces {spaces : List Char} (blank : spaces.all isJsonSpace) :
    encodeUtf8 spaces = spaces.map fun char => char.toNat.toUInt8 := by
  rw [encodeUtf8, ← List.flatMap_singleton' (spaces.map _), List.flatMap_map]
  refine List.flatMap_congr fun char member => ?_
  have space := List.all_eq_true.mp blank char member
  simp only [isJsonSpace, List.mem_cons, List.not_mem_nil, or_false, decide_eq_true_eq] at space
  rcases space with rfl | rfl | rfl | rfl <;> decide

/-- A front of the bytes of whitespace is the bytes of a front of the whitespace. -/
theorem spaces_front {spaces : List Char} {front rest : List UInt8} (blank : spaces.all isJsonSpace)
    (same : encodeUtf8 spaces = front ++ rest) :
    ∃ some : List Char, some.all isJsonSpace ∧ front = encodeUtf8 some := by
  have cut := congrArg (List.take front.length) same
  rw [encodeUtf8_spaces blank, List.take_left, ← List.map_take] at cut
  have still : (spaces.take front.length).all isJsonSpace :=
    List.all_eq_true.mpr fun char member => List.all_eq_true.mp blank char (List.mem_of_mem_take member)
  exact ⟨spaces.take front.length, still, by rw [encodeUtf8_spaces still, cut]⟩

/-- What the bytes of a line give. -/
theorem lineText_iff {raw : List UInt8} {text : List Char} :
    lineText raw = .ok text ↔ ∃ decoded, raw = encodeUtf8 decoded ∧ text = stripEol decoded := by
  rw [lineText]
  constructor
  · intro read
    split at read
    case h_1 decoded found =>
      cases read
      exact ⟨decoded.toList, fromUTF8_iff.mp found, rfl⟩
    case h_2 => cases read
  · rintro ⟨decoded, same, rfl⟩
    have found := (@fromUTF8_iff raw (String.ofList decoded)).mpr (by simpa using same)
    rw [found]
    exact congrArg (fun text => Except.ok (stripEol text)) String.toList_ofList

/-- A line that is parsed. -/
theorem readLine_parsed {state : σ} {parsed : Line → LineOutcome × σ} {raw : List UInt8}
    {text : List Char} {line : Line} (read : lineText raw = .ok text)
    (found : reader.fromStr text = .ok line) : readLine reader state parsed raw = parsed line := by
  rw [readLine, read]
  dsimp only
  rw [if_neg (fromStr_not_blank found), found]

/-- Where the end of a text was dropped, it is parsed the same. -/
theorem fromStr_stripEol {text : List Char} {line : Line} :
    reader.fromStr (stripEol text) = .ok line ↔ reader.fromStr text = .ok line := by
  obtain ⟨spaces, blank, same⟩ := stripEol_spaces text
  constructor
  · intro parsed
    rw [same]
    exact fromStr_more parsed blank
  · intro parsed
    rw [same] at parsed
    exact fromStr_less parsed blank

/-- What follows a text that is parsed, in a line of JSON, is whitespace. -/
theorem rest_blank {front rest : List Char} {line : Line} (parsed : reader.fromStr front = .ok line)
    (whole : reader.Whole (stripEol (front ++ rest))) : rest.all isJsonSpace := by
  obtain ⟨value, bracket, between, rfl, closing, _, reads⟩ := fromStr_returned parsed
  obtain ⟨spaces, blank, same⟩ := stripEol_spaces (value ++ bracket :: between ++ rest)
  rw [List.append_assoc, List.cons_append] at same whole
  obtain ⟨inner, after, text⟩ := split_at_bracket closing blank same
  rw [text] at whole
  have inside := whole line inner (reads inner)
  have all : (between ++ rest).all isJsonSpace := by
    rw [after, List.all_append, inside, blank, Bool.true_and]
  rw [List.all_append, Bool.and_eq_true] at all
  exact all.2

/-- **A torn line** that is parsed lacks only whitespace, and is parsed as its completion
is; any other yields nothing. -/
theorem readLine_torn {state : σ} {parsed : Line → LineOutcome × σ} {torn more tail : List UInt8}
    (json : reader.JsonLine (torn ++ more ++ tail)) :
    (readLine reader state parsed torn).1.yields.filterMap Except.toOption = [] ∨
      readLine reader state parsed (torn ++ more) = readLine reader state parsed torn := by
  cases read : lineText torn with
  | error error =>
    left
    rw [readLine, read]
    rfl
  | ok text =>
    by_cases blank : trimChars text = []
    · left
      rw [readLine, read]
      dsimp only
      rw [if_pos blank]
      rfl
    · cases found : reader.fromStr text with
      | error error =>
        left
        rw [readLine, read]
        dsimp only
        rw [if_neg blank, found]
        rfl
      | ok line =>
        right
        obtain ⟨decoded, rfl, rfl⟩ := lineText_iff.mp read
        obtain ⟨_, complete, whole⟩ := json
        obtain ⟨all, same, rfl⟩ := lineText_iff.mp complete
        rw [List.append_assoc] at same
        obtain ⟨rest, rfl, after⟩ := encodeUtf8_append same
        have spaces := rest_blank (fromStr_stripEol.mp found) whole
        obtain ⟨some, someBlank, rfl⟩ := spaces_front spaces after.symm
        have longer : lineText (encodeUtf8 decoded ++ encodeUtf8 some) =
            .ok (stripEol (decoded ++ some)) :=
          lineText_iff.mpr ⟨decoded ++ some, by simp [encodeUtf8], rfl⟩
        have still := fromStr_stripEol.mpr (fromStr_more (fromStr_stripEol.mp found) someBlank)
        rw [readLine_parsed longer still, readLine_parsed read found]

end Singularmem.Ingest
