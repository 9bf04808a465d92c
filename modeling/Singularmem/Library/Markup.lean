import Mathlib.Data.List.Basic
import Mathlib.Tactic.Common

/-!
# Marked-up texts

A marked-up text is a sequence of tags, each followed by plain text. Where neither the tags nor
the plain texts hold a bracket, they are read back from the characters alone: every opening
bracket belongs to one of the tags. Characters that stand for others are replaced one kind after
the other.
-/

namespace Singularmem.Library

universe u
variable {α : Type u}

/-- Replace every occurrence of a character. -/
def replaceChar [DecidableEq α] (old : α) (new chars : List α) : List α :=
  chars.flatMap fun char => if char = old then new else [char]

/-- A tag, and the plain text up to the next one. -/
structure Piece (α : Type u) where
  tag : List α
  text : List α
deriving DecidableEq

section Brackets

variable (opening closing : α)

/-- The characters of a piece after its opening bracket. -/
def Piece.body (piece : Piece α) : List α := piece.tag ++ closing :: piece.text

/-- The characters of pieces. -/
def spell (pieces : List (Piece α)) : List α :=
  pieces.flatMap fun piece => opening :: piece.body closing

/-- A piece holds no brackets but its own. -/
structure Piece.Plain (piece : Piece α) : Prop where
  tagOpening : opening ∉ piece.tag
  tagClosing : closing ∉ piece.tag
  textOpening : opening ∉ piece.text
  textClosing : closing ∉ piece.text

/-- Read the characters of a piece after its opening bracket. -/
def readPiece [DecidableEq α] (chars : List α) : Option (Piece α) :=
  match chars.splitOn closing with
  | [tag, text] => some ⟨tag, text⟩
  | _ => none

/-- Read a marked-up text. -/
def readPieces [DecidableEq α] (chars : List α) : Option (List (Piece α)) :=
  match chars.splitOn opening with
  | [] :: bodies => bodies.mapM (readPiece closing)
  | _ => none

variable {opening closing}

theorem spell_cons (piece : Piece α) (rest : List (Piece α)) :
    spell opening closing (piece :: rest) =
      opening :: (piece.body closing ++ spell opening closing rest) := rfl

theorem spell_append (pieces more : List (Piece α)) :
    spell opening closing (pieces ++ more) =
      spell opening closing pieces ++ spell opening closing more := List.flatMap_append

/-- Plain pieces hold no opening bracket but the first. -/
theorem Piece.Plain.body {piece : Piece α} (plain : piece.Plain opening closing)
    (different : opening ≠ closing) : opening ∉ piece.body closing := by
  unfold Piece.body
  rw [List.mem_append, List.mem_cons]
  rintro (inTag | same | inText)
  · exact plain.tagOpening inTag
  · exact different same
  · exact plain.textOpening inText

variable [DecidableEq α]

/-- A plain piece is read back. -/
theorem readPiece_body {piece : Piece α} (plain : piece.Plain opening closing) :
    readPiece closing (piece.body closing) = some piece := by
  unfold readPiece Piece.body
  rw [List.splitOn_append_cons_self_of_not_mem plain.tagClosing,
    List.splitOn_eq_singleton plain.textClosing]

/-- Plain pieces are split at their opening brackets. -/
theorem splitOn_spell {pieces : List (Piece α)} {front : List α} (before : opening ∉ front)
    (plain : ∀ piece ∈ pieces, opening ∉ piece.body closing) :
    (front ++ spell opening closing pieces).splitOn opening =
      front :: pieces.map (Piece.body closing) := by
  induction pieces generalizing front with
  | nil =>
    change (front ++ []).splitOn opening = [front]
    rw [List.append_nil]
    exact List.splitOn_eq_singleton before
  | cons piece rest inductionHypothesis =>
    rw [spell_cons, List.splitOn_append_cons_self_of_not_mem before,
      inductionHypothesis (plain piece List.mem_cons_self)
        fun other member => plain other (List.mem_cons_of_mem piece member)]
    rfl

/-- **Plain pieces are read back.** -/
theorem readPieces_spell (different : opening ≠ closing) {pieces : List (Piece α)}
    (plain : ∀ piece ∈ pieces, piece.Plain opening closing) :
    readPieces opening closing (spell opening closing pieces) = some pieces := by
  have split := @splitOn_spell α opening closing _ pieces [] List.not_mem_nil
    fun piece member => (plain piece member).body different
  rw [List.nil_append] at split
  unfold readPieces
  rw [split]
  change (pieces.map (Piece.body closing)).mapM (readPiece closing) = some pieces
  clear split
  induction pieces with
  | nil => rfl
  | cons piece rest inductionHypothesis =>
    rw [List.map_cons, List.mapM_cons, readPiece_body (plain piece List.mem_cons_self),
      inductionHypothesis fun other member => plain other (List.mem_cons_of_mem piece member)]
    rfl

/-- **Each opening bracket belongs to a piece.** -/
theorem count_opening (different : opening ≠ closing) {pieces : List (Piece α)}
    (plain : ∀ piece ∈ pieces, piece.Plain opening closing) :
    (spell opening closing pieces).count opening = pieces.length := by
  induction pieces with
  | nil => rfl
  | cons piece rest inductionHypothesis =>
    have none := List.count_eq_zero.mpr ((plain piece List.mem_cons_self).body different)
    rw [spell_cons, List.count_cons_self, List.count_append, none, Nat.zero_add,
      inductionHypothesis fun other member => plain other (List.mem_cons_of_mem piece member),
      List.length_cons]

end Brackets

end Singularmem.Library
