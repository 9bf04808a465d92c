import Singularmem.Core.Text

/-!
# Chunks

`chunkText` packs the paragraphs of a text greedily into chunks of a bounded number of
bytes; a paragraph above the bound is cut at character boundaries. Chunks are trimmed and
never empty.
-/

namespace Singularmem.Ingest

open Singularmem.Core

/-- Default chunk cap in bytes. -/
def defaultChunkBytes : Nat := 4096

/-- The bytes of characters. -/
def byteLength (chars : List Char) : Nat := (chars.map Char.utf8Size).sum

/-- Drop whitespace at both ends. -/
def trimChars (chars : List Char) : List Char := (trim (String.ofList chars)).toList

/-- The parts between blank lines. -/
def paragraphs : List Char → List (List Char)
  | [] => [[]]
  | '\n' :: '\n' :: rest => [] :: paragraphs rest
  | char :: rest =>
    match paragraphs rest with
    | [] => [[char]]
    | part :: parts => (char :: part) :: parts

/-- The longest front of at most so many bytes, and the rest. -/
def cutFront : Nat → List Char → List Char × List Char
  | _, [] => ([], [])
  | maxBytes, char :: rest =>
    if char.utf8Size ≤ maxBytes then
      let (front, rest) := cutFront (maxBytes - char.utf8Size) rest
      (char :: front, rest)
    else ([], char :: rest)

/-- A front of at most so many bytes, or of one character that is wider. -/
def cutPiece (maxBytes : Nat) (chars : List Char) : List Char × List Char :=
  match cutFront maxBytes chars with
  | ([], rest) => (rest.take 1, rest.drop 1)
  | cut => cut

/-- Split a text into trimmed pieces, in as many rounds as it may need. -/
def hardSplitFrom (maxBytes : Nat) : Nat → List Char → List (List Char)
  | 0, _ => []
  | _ + 1, [] => []
  | rounds + 1, chars =>
    let (piece, rest) := cutPiece maxBytes chars
    let piece := trimChars piece
    let others := hardSplitFrom maxBytes rounds rest
    if piece = [] then others else piece :: others

/-- Split a text into pieces of at most so many bytes on character boundaries. -/
def hardSplit (maxBytes : Nat) (chars : List Char) : List (List Char) :=
  hardSplitFrom maxBytes chars.length chars

/-- Close the current chunk. -/
def flush (current : List Char) (chunks : List (List Char)) : List (List Char) :=
  let trimmed := trimChars current
  if trimmed = [] then chunks else chunks ++ [trimmed]

/-- Pack paragraphs into chunks. -/
def packParagraphs (maxBytes : Nat) :
    List (List Char) → List Char → List (List Char) → List (List Char)
  | [], current, chunks => flush current chunks
  | para :: rest, current, chunks =>
    if byteLength para > maxBytes then
      packParagraphs maxBytes rest [] (flush current chunks ++ hardSplit maxBytes para)
    else
      let needed := if current = [] then byteLength para else byteLength current + 2 + byteLength para
      let (current, chunks) := if needed > maxBytes then ([], flush current chunks) else (current, chunks)
      let current := if current = [] then current else current ++ ['\n', '\n']
      packParagraphs maxBytes rest (current ++ para) chunks

/-- Split a text into chunks of at most `max maxBytes 4` bytes. -/
def chunkText (text : String) (maxBytes : Nat) : List String :=
  let paras := ((paragraphs text.toList).map trimChars).filter (· ≠ [])
  (packParagraphs (max maxBytes 4) paras [] []).map String.ofList

/-- Paragraphs are packed while they fit. -/
example : chunkText "one\n\ntwo\n\nlonger" 8 = ["one\n\ntwo", "longer"] := by decide +kernel

end Singularmem.Ingest
