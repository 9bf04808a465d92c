import Mathlib.Data.List.TakeWhile
import Singularmem.Library.Splices

/-!
# Trimming

Trimming drops the elements of a kind at both ends of a list. What remains neither begins
nor ends with one, so that trimming again changes nothing; the elements of other kinds all
remain, in their order, and so does every part that has none of the kind.
-/

namespace Singularmem.Library

universe u
variable {α : Type u} (drops : α → Bool)

/-- Drop elements at both ends. -/
def trimEnds (items : List α) : List α :=
  ((items.dropWhile drops).reverse.dropWhile drops).reverse

/-- Neither the first nor the last element is to be dropped. -/
structure Trimmed (items : List α) : Prop where
  head : ∀ item ∈ items.head?, drops item = false
  last : ∀ item ∈ items.getLast?, drops item = false

variable {drops}

theorem dropWhile_head {items : List α} : ∀ item ∈ (items.dropWhile drops).head?, drops item = false := by
  intro item first
  have stops := List.head?_dropWhile_not drops items
  rw [Option.mem_def] at first
  rw [first] at stops
  simpa using stops

theorem dropWhile_eq_self {items : List α} (stops : ∀ item ∈ items.head?, drops item = false) :
    items.dropWhile drops = items := by
  cases items with
  | nil => rfl
  | cons item rest =>
    apply List.dropWhile_cons_of_neg
    simp [stops item rfl]

/-- What the first pass leaves is what remains and what the second pass drops. -/
theorem trimEnds_back (items : List α) : ∃ back, items.dropWhile drops = trimEnds drops items ++ back ∧
    ∀ item ∈ back, drops item = true := by
  have later := List.takeWhile_append_dropWhile (p := drops) (l := (items.dropWhile drops).reverse)
  refine ⟨((items.dropWhile drops).reverse.takeWhile drops).reverse, ?_, ?_⟩
  · rw [trimEnds, ← List.reverse_append, later, List.reverse_reverse]
  · intro item member
    exact List.mem_takeWhile_imp (List.mem_reverse.mp member)

/-- What is dropped stands before and after what remains. -/
theorem trimEnds_cut (items : List α) : ∃ front back, items = front ++ trimEnds drops items ++ back ∧
    (∀ item ∈ front, drops item = true) ∧ ∀ item ∈ back, drops item = true := by
  obtain ⟨back, split, dropped⟩ := @trimEnds_back _ drops items
  have whole := List.takeWhile_append_dropWhile (p := drops) (l := items)
  refine ⟨items.takeWhile drops, back, ?_, fun item => List.mem_takeWhile_imp, dropped⟩
  rw [List.append_assoc, ← split, whole]

/-- What remains is trimmed. -/
theorem trimEnds_trimmed (items : List α) : Trimmed drops (trimEnds drops items) := by
  constructor
  · intro item first
    obtain ⟨back, split, _⟩ := @trimEnds_back _ drops items
    apply dropWhile_head item
    rw [split, List.head?_append, Option.mem_def.mp first]
    rfl
  · intro item last
    rw [trimEnds, List.getLast?_reverse] at last
    exact dropWhile_head item last

/-- Trimming changes nothing about a trimmed list. -/
theorem Trimmed.trimEnds_eq {items : List α} (trimmed : Trimmed drops items) :
    trimEnds drops items = items := by
  have reversed : ∀ item ∈ items.reverse.head?, drops item = false := by
    intro item first
    rw [List.head?_reverse] at first
    exact trimmed.last item first
  rw [trimEnds, dropWhile_eq_self trimmed.head, dropWhile_eq_self reversed, List.reverse_reverse]

/-- **Trimming twice** is trimming once. -/
theorem trimEnds_idempotent (items : List α) :
    trimEnds drops (trimEnds drops items) = trimEnds drops items :=
  (trimEnds_trimmed items).trimEnds_eq

/-- The elements of other kinds remain. -/
theorem filter_trimEnds (items : List α) :
    (trimEnds drops items).filter (fun item => !drops item) = items.filter fun item => !drops item := by
  obtain ⟨front, back, cut, dropped, droppedLater⟩ := @trimEnds_cut _ drops items
  have none {part : List α} (all : ∀ item ∈ part, drops item = true) :
      part.filter (fun item => !drops item) = [] := by
    rw [List.filter_eq_nil_iff]
    intro item member
    simp [all item member]
  have split := congrArg (List.filter fun item => !drops item) cut
  rw [List.filter_append, List.filter_append, none dropped, none droppedLater, List.nil_append,
    List.append_nil] at split
  exact split.symm

/-- Trimmed lists with anything between them are trimmed. -/
theorem Trimmed.append {first second : List α} (between : List α) (firstTrimmed : Trimmed drops first)
    (secondTrimmed : Trimmed drops second) (some : first ≠ []) (more : second ≠ []) :
    Trimmed drops (first ++ between ++ second) := by
  constructor
  · intro item head
    obtain ⟨start, rest, rfl⟩ := List.exists_cons_of_ne_nil some
    exact firstTrimmed.head item head
  · intro item last
    have ends := List.getLast?_eq_some_getLast more
    rw [List.getLast?_append, ends] at last
    exact secondTrimmed.last item (ends.trans last)

/-- A part of a trimmed list is a part of the list. -/
theorem infix_of_trimEnds {items word : List α} (occurs : word <:+: trimEnds drops items) :
    word <:+: items := by
  obtain ⟨front, back, cut, _, _⟩ := @trimEnds_cut _ drops items
  exact occurs.trans ⟨front, back, cut.symm⟩

/-- **A word of other kinds** occurs in a trimmed list exactly where it occurs in the list. -/
theorem infix_trimEnds_iff {items word : List α} (some : word ≠ [])
    (solid : ∀ item ∈ word, drops item = false) :
    word <:+: trimEnds drops items ↔ word <:+: items := by
  constructor
  · exact infix_of_trimEnds
  · intro occurs
    obtain ⟨front, back, cut, dropped, droppedLater⟩ := @trimEnds_cut _ drops items
    rw [cut] at occurs
    exact infix_of_drops_append some solid dropped
      (infix_of_append_drops some solid droppedLater occurs)

end Singularmem.Library
