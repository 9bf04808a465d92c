import Mathlib.Data.List.Basic
import Mathlib.Tactic.Common

/-!
# Delimited parts

What stands before a mark is told from the mark and what follows, where it does not hold the
mark itself. A text before a number is told likewise from the end.
-/

namespace Singularmem.Library

universe u
variable {α : Type u} {mark : α} {front other rest more : List α}

/-- **Parts before a mark**, and what follows it, are told apart. -/
theorem append_mark_inj (plain : mark ∉ front) (otherPlain : mark ∉ other) :
    front ++ mark :: rest = other ++ mark :: more ↔ front = other ∧ rest = more := by
  induction front generalizing other with
  | nil =>
    cases other with
    | nil => simp
    | cons head tail =>
      have different : mark ≠ head := fun same => otherPlain (same ▸ List.mem_cons_self)
      simp [different]
  | cons head tail inductionHypothesis =>
    have tailPlain : mark ∉ tail := fun member => plain (List.mem_cons_of_mem head member)
    cases other with
    | nil =>
      have different : head ≠ mark := fun same => plain (same ▸ List.mem_cons_self)
      simp [different]
    | cons next after =>
      have afterPlain : mark ∉ after := fun member => otherPlain (List.mem_cons_of_mem next member)
      simp [inductionHypothesis tailPlain afterPlain, and_assoc]

/-- **Parts after a mark**, and what precedes it, are told apart. -/
theorem mark_append_inj (plain : mark ∉ rest) (otherPlain : mark ∉ more) :
    front ++ mark :: rest = other ++ mark :: more ↔ front = other ∧ rest = more := by
  have reversed : front ++ mark :: rest = other ++ mark :: more ↔
      rest.reverse ++ mark :: front.reverse = more.reverse ++ mark :: other.reverse := by
    rw [← List.reverse_inj]
    simp
  rw [reversed, append_mark_inj (by simpa using plain) (by simpa using otherPlain),
    List.reverse_inj, List.reverse_inj, and_comm]

end Singularmem.Library
