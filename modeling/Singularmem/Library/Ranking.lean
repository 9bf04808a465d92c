import Mathlib.Data.List.Forall2
import Mathlib.Data.List.Sort
import Singularmem.Library.Effects

/-!
# Best candidates

Among candidates with values, repetitions included, the best so many come with the best first,
and none that is left out is better than one of them. A sort finds them. What is computed for
each candidate in turn stays aligned with the candidates.
-/

namespace Singularmem.Library

universe u v w
variable {α : Type u} {β : Type v} {γ : Type w}

section Best

variable [LinearOrder β] {value : α → β} {candidates : List α} {count : Nat}

/-- The shown candidates are the best, as many as are asked for or all of them. -/
structure Best (value : α → β) (candidates : List α) (count : Nat) (shown : List α) : Prop where
  length : shown.length = min count candidates.length
  sorted : shown.Pairwise fun first second => value second ≤ value first
  best : ∃ hidden, candidates.Perm (shown ++ hidden) ∧
    ∀ candidate ∈ shown, ∀ other ∈ hidden, value other ≤ value candidate

/-- The candidates, best first. -/
def bestFirst (value : α → β) (candidates : List α) : List α :=
  candidates.insertionSort fun first second => value second ≤ value first

theorem bestFirst_perm : (bestFirst value candidates).Perm candidates :=
  List.perm_insertionSort _ candidates

/-- **The first of the sorted candidates are the best.** -/
theorem Best.of_sort : Best value candidates count ((bestFirst value candidates).take count) := by
  have total : Std.Total fun first second : α => value second ≤ value first :=
    ⟨fun first second => le_total (value second) (value first)⟩
  have transitive : IsTrans α fun first second => value second ≤ value first :=
    ⟨fun _ _ _ earlier later => later.trans earlier⟩
  have sorted : (bestFirst value candidates).Pairwise fun first second =>
      value second ≤ value first := List.pairwise_insertionSort _ candidates
  constructor
  · rw [List.length_take, bestFirst_perm.length_eq]
  · exact sorted.sublist (List.take_sublist count _)
  · refine ⟨(bestFirst value candidates).drop count, ?_, ?_⟩
    · rw [List.take_append_drop]
      exact bestFirst_perm.symm
    · rw [← List.take_append_drop count (bestFirst value candidates)] at sorted
      exact (List.pairwise_append.mp sorted).2.2

end Best

section Aligned

variable {first : α → β → Prop} {second : β → γ → Prop} {whole : α → γ → Prop}

/-- Two aligned steps are one. -/
theorem forall₂_trans (compose : ∀ a b c, first a b → second b c → whole a c)
    {left : List α} {middle : List β} {right : List γ} (early : left.Forall₂ first middle)
    (late : middle.Forall₂ second right) : left.Forall₂ whole right := by
  induction early generalizing right with
  | nil =>
    cases late
    exact .nil
  | cons head _ remaining =>
    cases late with
    | cons next rest => exact .cons (compose _ _ _ head next) (remaining rest)

/-- An aligned element belongs to one of the others. -/
theorem forall₂_right {left : List α} {right : List β} (aligned : left.Forall₂ first right) {b : β}
    (member : b ∈ right) : ∃ a ∈ left, first a b := by
  induction aligned with
  | nil => cases member
  | @cons a _ _ _ head _ remaining =>
    rcases List.mem_cons.mp member with rfl | later
    · exact ⟨a, List.mem_cons_self, head⟩
    · obtain ⟨other, otherIn, paired⟩ := remaining later
      exact ⟨other, List.mem_cons_of_mem a otherIn, paired⟩

/-- One of the others belongs to an aligned element. -/
theorem forall₂_left {left : List α} {right : List β} (aligned : left.Forall₂ first right) {a : α}
    (member : a ∈ left) : ∃ b ∈ right, first a b := by
  induction aligned with
  | nil => cases member
  | @cons _ b _ _ head _ remaining =>
    rcases List.mem_cons.mp member with rfl | later
    · exact ⟨b, List.mem_cons_self, head⟩
    · obtain ⟨other, otherIn, paired⟩ := remaining later
      exact ⟨other, List.mem_cons_of_mem b otherIn, paired⟩

/-- Numbered elements are aligned with the elements. -/
theorem forall₂_zipIdx (elements : List α) (start : Nat) :
    elements.Forall₂ (fun element entry => entry.1 = element) (elements.zipIdx start) := by
  induction elements generalizing start with
  | nil => exact .nil
  | cons element rest remaining => exact .cons rfl (remaining (start + 1))

/-- A traversal that returned is aligned with its elements. -/
theorem mapM_aligned {ε κ ι : Type u} {compute : κ → Except ε ι} {inputs : List κ}
    {outputs : List ι} (returned : inputs.mapM compute = .ok outputs) :
    inputs.Forall₂ (fun input output => compute input = .ok output) outputs := by
  apply List.forall₂_iff_zip.mpr
  constructor
  · exact (mapM_returned_length returned).symm
  · exact fun {input output} paired => mapM_returned_zip returned (input, output) paired

end Aligned

end Singularmem.Library
