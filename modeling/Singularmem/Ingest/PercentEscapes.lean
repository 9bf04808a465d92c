import Singularmem.Ingest.Walker

/-!
# Percent escapes

The folder of a workspace is a URI whose escapes are decoded. Two hexadecimal digits after a `%`
are read by a number parser, which also takes a sign and one digit. Where no such signed escape
occurs, the escapes are replaced and every other byte is kept; an escaped path is always read
back.
-/

namespace Singularmem.Ingest

open Library Singularmem.Core

/-- The byte `%`. -/
def percentByte : UInt8 := 0x25

/-- The byte `+`. -/
def plusByte : UInt8 := 0x2B

/-- The value of a hexadecimal digit. -/
def hexDigit (byte : UInt8) : Option Nat :=
  if 0x30 ≤ byte ∧ byte ≤ 0x39 then some (byte.toNat - 0x30)
  else if 0x61 ≤ byte ∧ byte ≤ 0x66 then some (byte.toNat - 0x57)
  else if 0x41 ≤ byte ∧ byte ≤ 0x46 then some (byte.toNat - 0x37)
  else none

/-- Read digits to the base 16 after those before; none, if the number exceeds a byte. -/
def digitsFrom : Nat → List UInt8 → Option Nat
  | value, [] => some value
  | value, byte :: rest => do
    let digit ← hexDigit byte
    let next := value * 16 + digit
    if next < 256 then digitsFrom next rest else none

/-- Parse a byte to the base 16, the source's `u8::from_str_radix`: digits, which a `+` may
precede. -/
def fromStrRadix (text : List UInt8) : Option UInt8 :=
  let digits := if text.head? = some plusByte then text.tail else text
  if digits = [] then none else (digitsFrom 0 digits).map UInt8.ofNat

/-- A text may be cut before these bytes: they do not start within a character. -/
def atBoundary (rest : List UInt8) : Bool := !rest.head?.any isContinuation

/-- Replace the escapes in the bytes of a text. The two bytes after a `%` are looked at where
they are there and end at the end of a character. -/
def percentDecodeBytes : List UInt8 → List UInt8
  | byte :: first :: second :: rest =>
    match if byte = percentByte ∧ atBoundary rest then fromStrRadix [first, second] else none with
    | some decoded => decoded :: percentDecodeBytes rest
    | none => byte :: percentDecodeBytes (first :: second :: rest)
  | bytes => bytes

/-- Decode the escapes of a text; what is not UTF-8 then is replaced. -/
def percentDecode (text : String) : String :=
  OsPath.toStringLossy (percentDecodeBytes (encodeUtf8 text.toList))

/-- The byte that two hexadecimal digits denote. -/
def hexByte (first second : UInt8) : Option UInt8 := do
  let high ← hexDigit first
  let low ← hexDigit second
  return UInt8.ofNat (16 * high + low)

/-- A `%` and two hexadecimal digits are replaced by their byte, and all else is kept. -/
def replaceEscapes : List UInt8 → List UInt8
  | byte :: first :: second :: rest =>
    match if byte = percentByte then hexByte first second else none with
    | some denoted => denoted :: replaceEscapes rest
    | none => byte :: replaceEscapes (first :: second :: rest)
  | bytes => bytes

/-- A `%`, a `+` and a hexadecimal digit occur. -/
def SignedEscape (bytes : List UInt8) : Prop :=
  ∃ digit, (hexDigit digit).isSome ∧ [percentByte, plusByte, digit] <:+: bytes

/-- A `%` and two hexadecimal digits occur. -/
def Escape (bytes : List UInt8) : Prop :=
  ∃ first second, (hexByte first second).isSome ∧ [percentByte, first, second] <:+: bytes

/-- A text with escapes for a path: each byte of the path stands for itself, unless it is `%`,
or as an escape. -/
inductive PercentEncodes : List UInt8 → List UInt8 → Prop
  | done : PercentEncodes [] []
  | literal {byte : UInt8} {path text : List UInt8} : byte ≠ percentByte →
      PercentEncodes path text → PercentEncodes (byte :: path) (byte :: text)
  | escaped {first second byte : UInt8} {path text : List UInt8} :
      hexByte first second = some byte → PercentEncodes path text →
        PercentEncodes (byte :: path) (percentByte :: first :: second :: text)

section Digits

variable {byte first second : UInt8} {value : Nat}

/-- A hexadecimal digit is an ASCII character other than `%` and `+`, with a value below 16. -/
theorem hexDigit_some (digit : hexDigit byte = some value) :
    value < 16 ∧ byte.toNat < 0x80 ∧ byte ≠ percentByte ∧ byte ≠ plusByte := by
  have code : byte.toNat ≠ 0x25 ∧ byte.toNat ≠ 0x2B ∧ byte.toNat < 0x80 ∧ value < 16 := by
    simp only [hexDigit, UInt8.le_iff_toNat_le] at digit
    split at digit
    case isTrue decimal =>
      cases digit
      simp at decimal
      omega
    case isFalse =>
      split at digit
      case isTrue lower =>
        cases digit
        simp at lower
        omega
      case isFalse =>
        split at digit
        case isTrue upper =>
          cases digit
          simp at upper
          omega
        case isFalse => cases digit
  obtain ⟨noPercent, noPlus, ascii, small⟩ := code
  refine ⟨small, ascii, ?_, ?_⟩
  · rintro rfl
    exact noPercent rfl
  · rintro rfl
    exact noPlus rfl

/-- One digit after a `+` is read. -/
theorem fromStrRadix_plus (second : UInt8) :
    fromStrRadix [plusByte, second] = (hexDigit second).map UInt8.ofNat := by
  cases digit : hexDigit second with
  | none => simp [fromStrRadix, digitsFrom, digit]
  | some low =>
    have small := (hexDigit_some digit).1
    have fits : low < 256 := by omega
    simp [fromStrRadix, digitsFrom, digit, fits]

/-- Two digits denote a byte where both are digits. -/
theorem hexByte_some {byte : UInt8} (denotes : hexByte first second = some byte) :
    (∃ high, hexDigit first = some high) ∧ ∃ low, hexDigit second = some low := by
  rcases digit : hexDigit first with _ | high
  · rw [hexByte, digit] at denotes
    cases denotes
  · rcases lowDigit : hexDigit second with _ | low
    · rw [hexByte, digit, lowDigit] at denotes
      cases denotes
    · exact ⟨⟨high, rfl⟩, low, rfl⟩

/-- Two digits are read. -/
theorem fromStrRadix_two (unsigned : first ≠ plusByte) :
    fromStrRadix [first, second] = hexByte first second := by
  have both : fromStrRadix [first, second] = (digitsFrom 0 [first, second]).map UInt8.ofNat := by
    rw [fromStrRadix]
    simp [unsigned]
  rw [both, hexByte, digitsFrom]
  cases digit : hexDigit first with
  | none => rfl
  | some high =>
    have small := (hexDigit_some digit).1
    have fits : 0 * 16 + high < 256 := by omega
    change (if 0 * 16 + high < 256 then digitsFrom (0 * 16 + high) [second] else none).map _ = _
    rw [if_pos fits, digitsFrom]
    cases lowDigit : hexDigit second with
    | none => rfl
    | some low =>
      have lowSmall := (hexDigit_some lowDigit).1
      have fits : (0 * 16 + high) * 16 + low < 256 := by omega
      have same : (0 * 16 + high) * 16 + low = 16 * high + low := by omega
      change (if (0 * 16 + high) * 16 + low < 256 then
        digitsFrom ((0 * 16 + high) * 16 + low) [] else none).map _ = _
      rw [if_pos fits, same]
      rfl

end Digits

/-- After every ASCII byte a character starts. -/
def Bounded : List UInt8 → Prop
  | [] => True
  | byte :: rest => (byte.toNat < 0x80 → atBoundary rest) ∧ Bounded rest

/-- A byte that continues a character is none of the first 128 and none of the last 64. -/
theorem isContinuation_iff (byte : UInt8) :
    isContinuation byte = true ↔ 0x80 ≤ byte.toNat ∧ byte.toNat ≤ 0xBF := by
  simp [isContinuation, UInt8.le_iff_toNat_le]

/-- A text starts at the start of a character. -/
theorem atBoundary_encodeUtf8 (chars : List Char) : atBoundary (encodeUtf8 chars) = true := by
  cases chars with
  | nil => rfl
  | cons char rest =>
    have start :
        (String.utf8EncodeChar char ++ encodeUtf8 rest).head?.any isContinuation = false := by
      rw [← Bool.not_eq_true, String.utf8EncodeChar]
      split
      case isTrue ascii =>
        have code : char.toNat ≤ 0x7F := ascii
        simp [isContinuation_iff]
        omega
      case isFalse =>
        split
        · simp [isContinuation_iff]
          omega
        · split
          · simp [isContinuation_iff]
            omega
          · simp [isContinuation_iff]
            omega
    rw [atBoundary, encodeUtf8, List.flatMap_cons]
    change (!(String.utf8EncodeChar char ++ encodeUtf8 rest).head?.any isContinuation) = true
    rw [start]
    rfl

/-- The bytes of a text are bounded. -/
theorem encodeUtf8_bounded (chars : List Char) : Bounded (encodeUtf8 chars) := by
  induction chars with
  | nil => trivial
  | cons char rest inductionHypothesis =>
    have start := atBoundary_encodeUtf8 rest
    change Bounded (String.utf8EncodeChar char ++ encodeUtf8 rest)
    rw [String.utf8EncodeChar]
    split
    · exact ⟨fun _ => start, inductionHypothesis⟩
    · split
      · refine ⟨?_, ?_, inductionHypothesis⟩ <;> simp <;> omega
      · split
        · refine ⟨?_, ?_, ?_, inductionHypothesis⟩ <;> simp <;> omega
        · refine ⟨?_, ?_, ?_, ?_, inductionHypothesis⟩ <;> simp <;> omega

section Decoding

variable {byte first second : UInt8} {rest tail bytes : List UInt8}

/-- A byte other than `%` is kept. -/
theorem percentDecodeBytes_plain (plain : byte ≠ percentByte) (tail : List UInt8) :
    percentDecodeBytes (byte :: tail) = byte :: percentDecodeBytes tail := by
  cases tail with
  | nil => rfl
  | cons first tail =>
    cases tail with
    | nil => rfl
    | cons second rest =>
      have same : ¬ (byte = percentByte ∧ atBoundary rest = true) := fun both => plain both.1
      rw [percentDecodeBytes, if_neg same]

/-- So is it where the escapes are replaced. -/
theorem replaceEscapes_plain (plain : byte ≠ percentByte) (tail : List UInt8) :
    replaceEscapes (byte :: tail) = byte :: replaceEscapes tail := by
  cases tail with
  | nil => rfl
  | cons first tail =>
    cases tail with
    | nil => rfl
    | cons second rest => rw [replaceEscapes, if_neg plain]

/-- Without a sign the two bytes after a `%` are read as two digits. -/
theorem slice_unsigned (bounded : Bounded (second :: rest)) (unsigned : first ≠ plusByte) :
    (if byte = percentByte ∧ atBoundary rest then fromStrRadix [first, second] else none) =
      if byte = percentByte then hexByte first second else none := by
  rw [fromStrRadix_two unsigned]
  by_cases percent : byte = percentByte
  · rw [if_pos percent]
    rcases denotes : hexByte first second with _ | denoted
    · split <;> rfl
    · obtain ⟨_, low, digit⟩ := hexByte_some denotes
      rw [if_pos ⟨percent, bounded.1 (hexDigit_some digit).2.1⟩]
  · rw [if_neg percent, if_neg fun both => percent both.1]

/-- After a sign one digit is read. -/
theorem slice_signed (bounded : Bounded (second :: rest)) :
    (if byte = percentByte ∧ atBoundary rest then fromStrRadix [plusByte, second] else none) =
      if byte = percentByte then (hexDigit second).map UInt8.ofNat else none := by
  rw [fromStrRadix_plus]
  by_cases percent : byte = percentByte
  · rw [if_pos percent]
    rcases digit : hexDigit second with _ | low
    · split <;> rfl
    · rw [if_pos ⟨percent, bounded.1 (hexDigit_some digit).2.1⟩]
  · rw [if_neg percent, if_neg fun both => percent both.1]

/-- A signed escape is at the start or later. -/
theorem signedEscape_cons : SignedEscape (byte :: tail) ↔
    (byte = percentByte ∧
      ∃ digit rest, (hexDigit digit).isSome ∧ tail = plusByte :: digit :: rest) ∨
        SignedEscape tail := by
  constructor
  · rintro ⟨digit, some, occurs⟩
    rcases List.infix_cons_iff.mp occurs with ⟨rest, same⟩ | later
    · obtain ⟨rfl, rfl⟩ := List.cons.inj same
      exact .inl ⟨rfl, digit, rest, some, rfl⟩
    · exact .inr ⟨digit, some, later⟩
  · rintro (⟨rfl, digit, rest, some, rfl⟩ | ⟨digit, some, occurs⟩)
    · exact ⟨digit, some, (List.prefix_append [percentByte, plusByte, digit] rest).isInfix⟩
    · exact ⟨digit, some, List.infix_cons occurs⟩

/-- After a byte other than `%` it is later. -/
theorem signedEscape_plain (plain : byte ≠ percentByte) :
    SignedEscape (byte :: tail) ↔ SignedEscape tail := by
  rw [signedEscape_cons]
  exact or_iff_right fun start => plain start.1

/-- Too few bytes hold no signed escape. -/
theorem not_signedEscape_short (short : bytes.length < 3) : ¬ SignedEscape bytes := by
  rintro ⟨digit, _, occurs⟩
  have length := occurs.length_le
  rw [List.length_cons, List.length_cons, List.length_singleton] at length
  omega

/-- **Decoding compared with replacing the escapes**: it gives no more bytes, the same ones where
no signed escape occurs, and fewer where one does. -/
theorem decoded_compared (bounded : Bounded bytes) :
    (¬ SignedEscape bytes → percentDecodeBytes bytes = replaceEscapes bytes) ∧
      (percentDecodeBytes bytes).length ≤ (replaceEscapes bytes).length ∧
      (SignedEscape bytes → (percentDecodeBytes bytes).length < (replaceEscapes bytes).length) := by
  fun_induction percentDecodeBytes bytes with
  | case1 byte first second rest decoded slice inductionHypothesis =>
    obtain ⟨same, fewer, less⟩ := inductionHypothesis bounded.2.2.2
    by_cases signed : first = plusByte
    · subst signed
      rw [slice_signed bounded.2.2] at slice
      split at slice
      case isFalse => cases slice
      case isTrue percent =>
        subst percent
        obtain ⟨low, digit, rfl⟩ := Option.map_eq_some_iff.mp slice
        have plus : plusByte ≠ percentByte := by decide
        have noByte : hexByte plusByte second = none := rfl
        have kept : replaceEscapes (percentByte :: plusByte :: second :: rest) =
            percentByte :: plusByte :: second :: replaceEscapes rest := by
          rw [replaceEscapes, if_pos rfl, noByte, replaceEscapes_plain plus,
            replaceEscapes_plain (hexDigit_some digit).2.2.1]
        have occurs : SignedEscape (percentByte :: plusByte :: second :: rest) :=
          signedEscape_cons.mpr (.inl ⟨rfl, second, rest, by rw [digit]; rfl, rfl⟩)
        rw [kept]
        simp only [List.length_cons]
        exact ⟨fun none => absurd occurs none, by omega, fun _ => by omega⟩
    · rw [slice_unsigned bounded.2.2 signed] at slice
      have replaced : replaceEscapes (byte :: first :: second :: rest) =
          decoded :: replaceEscapes rest := by
        rw [replaceEscapes, slice]
      split at slice
      case isFalse => cases slice
      case isTrue percent =>
        obtain ⟨⟨high, firstDigit⟩, low, secondDigit⟩ := hexByte_some slice
        have later : SignedEscape (byte :: first :: second :: rest) ↔ SignedEscape rest := by
          rw [signedEscape_cons, signedEscape_plain (hexDigit_some firstDigit).2.2.1,
            signedEscape_plain (hexDigit_some secondDigit).2.2.1]
          apply or_iff_right
          rintro ⟨_, _, _, _, plus⟩
          exact signed (List.cons.inj plus).1
        rw [replaced, later]
        simp only [List.length_cons]
        exact ⟨fun none => by rw [same none], by omega, fun some => by have := less some; omega⟩
  | case2 byte first second rest slice inductionHypothesis =>
    obtain ⟨same, fewer, less⟩ := inductionHypothesis bounded.2
    have later : (if byte = percentByte then hexByte first second else none) = none ∧
        (SignedEscape (byte :: first :: second :: rest) ↔
          SignedEscape (first :: second :: rest)) := by
      by_cases signed : first = plusByte
      · subst signed
        rw [slice_signed bounded.2.2] at slice
        refine ⟨by split <;> rfl, ?_⟩
        rw [signedEscape_cons]
        apply or_iff_right
        rintro ⟨rfl, digit, _, some, tail⟩
        cases tail
        rw [if_pos rfl, Option.map_eq_none_iff] at slice
        rw [slice] at some
        cases some
      · rw [slice_unsigned bounded.2.2 signed] at slice
        refine ⟨slice, ?_⟩
        rw [signedEscape_cons]
        apply or_iff_right
        rintro ⟨_, _, _, _, plus⟩
        exact signed (List.cons.inj plus).1
    have replaced : replaceEscapes (byte :: first :: second :: rest) =
        byte :: replaceEscapes (first :: second :: rest) := by
      rw [replaceEscapes, later.1]
    rw [replaced, later.2]
    simp only [List.length_cons]
    exact ⟨fun none => by rw [same none], by omega, fun some => by have := less some; omega⟩
  | case3 bytes few =>
    have short : bytes.length < 3 := by
      match bytes, few with
      | [], _ => simp
      | [_], _ => simp
      | [_, _], _ => simp
      | first :: second :: third :: rest, few => exact absurd rfl (few first second third rest)
    have kept : replaceEscapes bytes = bytes := by
      match bytes, few with
      | [], _ => rfl
      | [_], _ => rfl
      | [_, _], _ => rfl
      | first :: second :: third :: rest, few => exact absurd rfl (few first second third rest)
    rw [kept]
    exact ⟨fun _ => rfl, le_rfl, fun some => absurd some (not_signedEscape_short short)⟩

/-- **The escapes are replaced** exactly where no signed escape occurs. -/
theorem percentDecodeBytes_eq_iff (bounded : Bounded bytes) :
    percentDecodeBytes bytes = replaceEscapes bytes ↔ ¬ SignedEscape bytes := by
  obtain ⟨same, _, less⟩ := decoded_compared bounded
  constructor
  · intro equal occurs
    have fewer := less occurs
    rw [equal] at fewer
    exact Nat.lt_irrefl _ fewer
  · exact same

/-- An escaped path is read back. -/
theorem percentDecodeBytes_encoded {path text : List UInt8} (encodes : PercentEncodes path text)
    (bounded : Bounded text) : percentDecodeBytes text = path := by
  induction encodes with
  | done => rfl
  | literal plain _ inductionHypothesis =>
    rw [percentDecodeBytes_plain plain, inductionHypothesis bounded.2]
  | @escaped first second byte path text denotes _ inductionHypothesis =>
    obtain ⟨⟨high, digit⟩, _⟩ := hexByte_some denotes
    rw [percentDecodeBytes, slice_unsigned bounded.2.2 (hexDigit_some digit).2.2.2, if_pos rfl,
      denotes, inductionHypothesis bounded.2.2.2]

/-- Where no escape occurs nothing is replaced. -/
theorem replaceEscapes_none (none : ¬ Escape bytes) : replaceEscapes bytes = bytes := by
  fun_induction replaceEscapes bytes with
  | case1 byte first second rest denoted slice inductionHypothesis =>
    split at slice
    case isFalse => cases slice
    case isTrue percent =>
      refine absurd ⟨first, second, by rw [slice]; rfl, ?_⟩ none
      rw [percent]
      exact (List.prefix_append [percentByte, first, second] rest).isInfix
  | case2 byte first second rest slice inductionHypothesis =>
    rw [inductionHypothesis]
    rintro ⟨high, low, some, occurs⟩
    exact none ⟨high, low, some, List.infix_cons occurs⟩
  | case3 bytes few => rfl

end Decoding

/-- The bytes of a text are shown as the text. -/
theorem toStringLossy_encodeUtf8 (text : String) :
    OsPath.toStringLossy (encodeUtf8 text.toList) = text := by
  rw [OsPath.toStringLossy, lossyFrom_encodeUtf8 le_rfl, String.ofList_toList]

/-- **Escapes are replaced exactly where no `%` is followed by a `+` and a digit.** A path is read
back from each of its encodings, and a text without escapes and without such signed ones is not
changed. -/
theorem escapes_replaced_iff (text : String) :
    (percentDecodeBytes (encodeUtf8 text.toList) = replaceEscapes (encodeUtf8 text.toList) ↔
        ¬ SignedEscape (encodeUtf8 text.toList)) ∧
      (∀ path : String, PercentEncodes (encodeUtf8 path.toList) (encodeUtf8 text.toList) →
        percentDecode text = path) ∧
      (¬ Escape (encodeUtf8 text.toList) → ¬ SignedEscape (encodeUtf8 text.toList) →
        percentDecode text = text) := by
  constructor
  · exact percentDecodeBytes_eq_iff (encodeUtf8_bounded text.toList)
  constructor
  · intro path encodes
    rw [percentDecode, percentDecodeBytes_encoded encodes (encodeUtf8_bounded text.toList),
      toStringLossy_encodeUtf8]
  · intro none unsigned
    rw [percentDecode, (percentDecodeBytes_eq_iff (encodeUtf8_bounded text.toList)).mpr unsigned,
      replaceEscapes_none none, toStringLossy_encodeUtf8]

/-- Escapes are replaced, and a `%` without two digits is kept. -/
example : percentDecode "My%20Repo%zz%" = "My Repo%zz%" := by decide +kernel

/-- **A `%` before a sign and a digit** is replaced by the digit's value. -/
theorem signed_escape_is_replaced :
    percentDecodeBytes (encodeUtf8 "/a%+5".toList) = [0x2F, 0x61, 0x05] ∧
      replaceEscapes (encodeUtf8 "/a%+5".toList) = encodeUtf8 "/a%+5".toList ∧
      percentDecode "/a%+5" ≠ "/a%+5" := by
  decide +kernel

end Singularmem.Ingest
