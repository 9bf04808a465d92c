import Mathlib.Data.List.Infix
import Mathlib.Tactic.Common

/-!
# Words across joined parts

A word occurs in a joined list inside one of its parts, or across the borders of several:
it begins with an end of one part, goes on with whole parts and ends with a start of
another. An occurrence is the first one where no other ends before it does.
-/

namespace Singularmem.Library

universe u
variable {α : Type u} {word : List α}

/-- A word is put together from an end of a part, the parts after it and a start of a later
part. -/
def Straddles (word : List α) (parts : List (List α)) : Prop :=
  ∃ before first between last after front back,
    parts = before ++ first :: between ++ last :: after ∧
      word = front ++ between.flatten ++ back ∧ front ≠ [] ∧ back ≠ [] ∧
        front <:+ first ∧ back <+: last

/-- What precedes the first occurrence of a word: the word does not occur before its last
element is there. -/
def FirstAt (word before : List α) : Prop := ¬ word <:+: before ++ word.dropLast

/-- A word occurs in two joined parts in one of them, or across the border. -/
theorem infix_append_iff {left right : List α} :
    word <:+: left ++ right ↔ word <:+: left ∨ word <:+: right ∨
      ∃ front back, word = front ++ back ∧ front ≠ [] ∧ back ≠ [] ∧ front <:+ left ∧ back <+: right := by
  constructor
  · rintro ⟨start, rest, same⟩
    rcases List.append_eq_append_iff.mp same with ⟨more, inLeft, _⟩ | ⟨back, cut, inRight⟩
    · exact .inl ⟨start, more, inLeft.symm⟩
    · rcases List.append_eq_append_iff.mp cut with ⟨front, inLeft, split⟩ | ⟨more, _, split⟩
      · by_cases noFront : front = []
        · refine .inr (.inl ⟨[], rest, ?_⟩)
          rw [split, noFront, inRight]
          rfl
        · by_cases noBack : back = []
          · refine .inl ⟨start, [], ?_⟩
            rw [split, noBack, inLeft, List.append_nil, List.append_nil]
          · exact .inr (.inr ⟨front, back, split, noFront, noBack, ⟨start, inLeft.symm⟩, rest,
              inRight.symm⟩)
      · refine .inr (.inl ⟨more, rest, ?_⟩)
        rw [inRight, split]
  · rintro (inLeft | inRight | ⟨front, back, rfl, _, _, ⟨start, rfl⟩, rest, rfl⟩)
    · exact inLeft.trans (List.prefix_append left right).isInfix
    · exact inRight.trans (List.suffix_append left right).isInfix
    · exact ⟨start, rest, by simp⟩

/-- A start of joined parts ends inside one of them. -/
theorem prefix_flatten {parts : List (List α)} {back : List α} (some : back ≠ [])
    (starts : back <+: parts.flatten) : ∃ between last after rest,
      parts = between ++ last :: after ∧ back = between.flatten ++ rest ∧ rest ≠ [] ∧ rest <+: last := by
  induction parts generalizing back with
  | nil => exact absurd (List.prefix_nil.mp starts) some
  | cons part parts inductionHypothesis =>
    obtain ⟨more, same⟩ := starts
    rw [List.flatten_cons] at same
    rcases List.append_eq_append_iff.mp same with ⟨rest, inPart, _⟩ | ⟨rest, split, inParts⟩
    · exact ⟨[], part, parts, back, rfl, rfl, some, rest, inPart.symm⟩
    · by_cases none : rest = []
      · refine ⟨[], part, parts, back, rfl, rfl, some, [], ?_⟩
        rw [split, none, List.append_nil, List.append_nil]
      · obtain ⟨between, last, after, ending, rfl, rfl, ends⟩ :=
          inductionHypothesis none ⟨more, inParts.symm⟩
        exact ⟨part :: between, last, after, ending, rfl, by rw [split]; simp, ends⟩

/-- **A word occurs in joined parts** inside one of them, or across their borders. -/
theorem infix_flatten_iff (some : word ≠ []) {parts : List (List α)} :
    word <:+: parts.flatten ↔ (∃ part ∈ parts, word <:+: part) ∨ Straddles word parts := by
  constructor
  · intro occurs
    induction parts with
    | nil => exact absurd (List.infix_nil.mp occurs) some
    | cons part parts inductionHypothesis =>
      rcases infix_append_iff.mp occurs with inPart | later | ⟨front, back, rfl, left, right, ends, starts⟩
      · exact .inl ⟨part, List.mem_cons_self, inPart⟩
      · rcases inductionHypothesis later with ⟨other, member, inOther⟩ | ⟨before, straddles⟩
        · exact .inl ⟨other, List.mem_cons_of_mem part member, inOther⟩
        · obtain ⟨first, between, last, after, front, back, rfl, crosses⟩ := straddles
          exact .inr ⟨part :: before, first, between, last, after, front, back, rfl, crosses⟩
      · obtain ⟨between, last, after, rest, rfl, rfl, more, begins⟩ := prefix_flatten right starts
        exact .inr ⟨[], part, between, last, after, front, rest, rfl, by simp, left, more, ends, begins⟩
  · rintro (⟨part, member, occurs⟩ | straddles)
    · exact occurs.trans (List.infix_of_mem_flatten member)
    · obtain ⟨before, first, between, last, after, front, back, rfl, rfl, _, _, ⟨start, rfl⟩, rest,
        rfl⟩ := straddles
      exact ⟨before.flatten ++ start, rest ++ after.flatten, by simp⟩

/-- Before its first occurrence a word does not occur. -/
theorem FirstAt.absent {before : List α} (first : FirstAt word before) : ¬ word <:+: before :=
  fun occurs => first (occurs.trans (List.prefix_append before word.dropLast).isInfix)

/-- Where an element stands before the first occurrence, the word does not begin there. -/
theorem FirstAt.cons_iff {element : α} {before : List α} :
    FirstAt word (element :: before) ↔
      ¬ word <+: element :: (before ++ word.dropLast) ∧ FirstAt word before := by
  rw [FirstAt, List.cons_append, List.infix_cons_iff, not_or]
  rfl

/-- Whether a word begins where an element stands shows before its next occurrence ends. -/
theorem begins_iff {element : α} {before after : List α} :
    word <+: element :: (before ++ word ++ after) ↔ word <+: element :: (before ++ word.dropLast) := by
  have initial : element :: (before ++ word.dropLast) <+: element :: (before ++ word ++ after) := by
    rw [List.cons_prefix_cons, List.append_assoc, List.prefix_append_right_inj]
    exact ⟨rfl, (List.dropLast_prefix word).trans (List.prefix_append word after)⟩
  constructor
  · intro begins
    apply List.prefix_of_prefix_length_le begins initial
    rw [List.length_cons, List.length_append, List.length_dropLast]
    omega
  · intro begins
    exact begins.trans initial

/-- A word first occurs where it begins. -/
theorem FirstAt.nil (some : word ≠ []) : FirstAt word [] := by
  intro occurs
  have shorter := occurs.length_le
  have positive := List.length_pos_iff.mpr some
  rw [List.nil_append, List.length_dropLast] at shorter
  omega

section Kinds

variable {drops : α → Bool} (some : word ≠ []) (solid : ∀ element ∈ word, drops element = false)
include some solid

/-- A word without elements of a kind does not occur among these. -/
theorem not_infix_of_drops {dropped : List α} (all : ∀ element ∈ dropped, drops element = true) :
    ¬ word <:+: dropped := by
  intro occurs
  obtain ⟨element, rest, rfl⟩ := List.exists_cons_of_ne_nil some
  have kept := solid element List.mem_cons_self
  rw [all element (occurs.subset List.mem_cons_self)] at kept
  cases kept

/-- It occurs after such elements only where it occurs in the rest. -/
theorem infix_of_drops_append {dropped rest : List α}
    (all : ∀ element ∈ dropped, drops element = true) (occurs : word <:+: dropped ++ rest) :
    word <:+: rest := by
  rcases infix_append_iff.mp occurs with inFront | inRest | ⟨front, back, rfl, more, _, ends, _⟩
  · exact absurd inFront (not_infix_of_drops some solid all)
  · exact inRest
  · have partly : ∀ element ∈ front, drops element = false := fun element member =>
      solid element (List.mem_append_left back member)
    exact absurd ends.isInfix (not_infix_of_drops more partly all)

/-- It occurs before such elements only where it occurs in the rest. -/
theorem infix_of_append_drops {dropped rest : List α}
    (all : ∀ element ∈ dropped, drops element = true) (occurs : word <:+: rest ++ dropped) :
    word <:+: rest := by
  rcases infix_append_iff.mp occurs with inRest | inBack | ⟨front, back, rfl, _, more, _, starts⟩
  · exact inRest
  · exact absurd inBack (not_infix_of_drops some solid all)
  · have partly : ∀ element ∈ back, drops element = false := fun element member =>
      solid element (List.mem_append_right front member)
    exact absurd starts.isInfix (not_infix_of_drops more partly all)

/-- It occurs in lists that such elements separate in one of them. -/
theorem infix_of_separated {left right dropped : List α} (separated : dropped ≠ [])
    (all : ∀ element ∈ dropped, drops element = true)
    (occurs : word <:+: left ++ dropped ++ right) : word <:+: left ∨ word <:+: right := by
  rcases infix_append_iff.mp occurs with inFront | inRight | ⟨front, back, rfl, more, _, ends, _⟩
  · exact .inl (infix_of_append_drops some solid all inFront)
  · exact .inr inRight
  · have last := List.getLast_mem separated
    have same : front.getLast more = dropped.getLast separated := by
      obtain ⟨start, joined⟩ := ends
      have whole := congrArg List.getLast? joined
      rw [List.getLast?_append, List.getLast?_append, List.getLast?_eq_some_getLast more,
        List.getLast?_eq_some_getLast separated] at whole
      exact Option.some.inj whole
    have kept := solid (front.getLast more) (List.mem_append_left back (List.getLast_mem more))
    rw [same, all _ last] at kept
    cases kept

end Kinds

end Singularmem.Library
