import Mathlib.Data.List.Basic
import Mathlib.Data.List.TakeWhile
import Mathlib.Tactic.Common

/-!
# Splitting at marks

A list is split at its marks into parts that hold none. A function that acts on the parts
alone, and maps marks to marks, commutes with splitting.
-/

namespace Singularmem.Library

universe u v
variable {α : Type u} {β : Type v} {splits : α → Bool} {items part : List α}

/-- A list has no mark, or a first one. -/
theorem first_mark (splits : α → Bool) (items : List α) :
    (∀ item ∈ items, splits item = false) ∨ ∃ front mark rest, items = front ++ mark :: rest ∧
      (∀ item ∈ front, splits item = false) ∧ splits mark = true := by
  induction items with
  | nil => exact .inl (by simp)
  | cons item rest inductionHypothesis =>
    cases here : splits item with
    | true => exact .inr ⟨[], item, rest, rfl, by simp, here⟩
    | false =>
      have front {before : List α} (none : ∀ other ∈ before, splits other = false) :
          ∀ other ∈ item :: before, splits other = false := by
        intro other member
        rcases List.mem_cons.mp member with rfl | later
        · exact here
        · exact none other later
      rcases inductionHypothesis with none | ⟨before, mark, after, split, none, marked⟩
      · exact .inl (front none)
      · rw [split, ← List.cons_append]
        exact .inr ⟨item :: before, mark, after, rfl, front none, marked⟩

/-- **Splitting by cases**: what holds of lists without a mark, and of a first part and the rest
where it holds of the rest, holds of every list. -/
theorem mark_induction {motive : List α → Prop} (splits : α → Bool)
    (plain : ∀ items, (∀ item ∈ items, splits item = false) → motive items)
    (split : ∀ front mark rest, (∀ item ∈ front, splits item = false) → splits mark = true →
      motive rest → motive (front ++ mark :: rest)) (items : List α) : motive items := by
  induction size : items.length using Nat.strong_induction_on generalizing items with
  | _ size inductionHypothesis =>
    rcases first_mark splits items with none | ⟨front, mark, rest, rfl, none, marked⟩
    · exact plain items none
    · apply split front mark rest none marked
      apply inductionHypothesis rest.length _ rest rfl
      rw [← size, List.length_append, List.length_cons]
      omega

/-- The parts hold no mark. -/
theorem splitOnP_plain (member : part ∈ items.splitOnP splits) :
    ∀ item ∈ part, splits item = false := by
  induction items using mark_induction splits with
  | plain items none =>
    rw [List.splitOnP_eq_singleton none] at member
    rw [List.mem_singleton.mp member]
    exact none
  | split front mark rest none marked inductionHypothesis =>
    rw [List.splitOnP_append_cons_of_forall_mem none mark marked] at member
    rcases List.mem_cons.mp member with rfl | later
    · exact none
    · exact inductionHypothesis later

/-- **A function of the parts** commutes with splitting. -/
theorem splitOnP_commutes {compute : List α → List β} {splits : α → Bool} {marks : β → Bool}
    (plain : ∀ items, (∀ item ∈ items, splits item = false) →
      ∀ item ∈ compute items, marks item = false)
    (apart : ∀ front mark rest, splits mark = true → ∃ other, marks other = true ∧
      compute (front ++ mark :: rest) = compute front ++ other :: compute rest) (items : List α) :
    (compute items).splitOnP marks = (items.splitOnP splits).map compute := by
  induction items using mark_induction splits with
  | plain items none =>
    rw [List.splitOnP_eq_singleton none, List.splitOnP_eq_singleton (plain items none)]
    rfl
  | split front mark rest none marked inductionHypothesis =>
    obtain ⟨other, otherMarked, computed⟩ := apart front mark rest marked
    rw [List.splitOnP_append_cons_of_forall_mem none mark marked, computed,
      List.splitOnP_append_cons_of_forall_mem (plain front none) other otherMarked,
      inductionHypothesis, List.map_cons]

/-- **A map that keeps which elements are marks** commutes with splitting. -/
theorem splitOnP_map {change : α → β} {splits : α → Bool} {marks : β → Bool}
    (keeps : ∀ item, marks (change item) = splits item) (items : List α) :
    (items.map change).splitOnP marks = (items.splitOnP splits).map (List.map change) := by
  apply splitOnP_commutes
  · intro items none item member
    obtain ⟨before, inside, rfl⟩ := List.mem_map.mp member
    rw [keeps, none before inside]
  · intro front mark rest marked
    refine ⟨change mark, ?_, ?_⟩
    · rw [keeps, marked]
    · rw [List.map_append, List.map_cons]

/-- The parts hold elements of the list. -/
theorem mem_of_mem_splitOnP (member : part ∈ items.splitOnP splits) :
    ∀ item ∈ part, item ∈ items := by
  induction items using mark_induction splits with
  | plain items none =>
    rw [List.splitOnP_eq_singleton none] at member
    rw [List.mem_singleton.mp member]
    exact fun item inside => inside
  | split front mark rest none marked inductionHypothesis =>
    rw [List.splitOnP_append_cons_of_forall_mem none mark marked] at member
    intro item inside
    rcases List.mem_cons.mp member with rfl | later
    · exact List.mem_append_left _ inside
    · apply List.mem_append_right
      exact List.mem_cons_of_mem mark (inductionHypothesis later item inside)

section Joined

variable {mark : α} {parts : List (List α)}

/-- Joined parts are split into theirs. -/
theorem splitOn_joined [DecidableEq α] (some : parts ≠ []) :
    ([mark].intercalate parts).splitOn mark = parts.flatMap (List.splitOn mark) := by
  induction parts with
  | nil => exact absurd rfl some
  | cons part rest inductionHypothesis =>
    cases rest with
    | nil => simp
    | cons next others =>
      have later := inductionHypothesis (List.cons_ne_nil next others)
      rw [List.intercalate_cons_cons, List.append_assoc, List.singleton_append,
        List.splitOn_append_cons_self, later, @List.flatMap_cons _ _ part]

variable {compute : List α → List α}
  (plain : ∀ items, mark ∉ items → mark ∉ compute items)
  (apart : ∀ front rest, compute (front ++ mark :: rest) = compute front ++ mark :: compute rest)

include apart

/-- A function of the parts acts on joined parts one by one. -/
theorem compute_joined (some : parts ≠ []) :
    compute ([mark].intercalate parts) = [mark].intercalate (parts.map compute) := by
  induction parts with
  | nil => exact absurd rfl some
  | cons part rest inductionHypothesis =>
    cases rest with
    | nil => simp
    | cons next others =>
      have later := inductionHypothesis (List.cons_ne_nil _ _)
      rw [List.map_cons] at later
      rw [List.map_cons, List.map_cons, List.intercalate_cons_cons, List.intercalate_cons_cons,
        List.append_assoc, List.singleton_append, apart, later, List.append_assoc,
        List.singleton_append]

include plain

variable [DecidableEq α]

/-- A list is left alone exactly where its parts are. -/
theorem fixed_iff_parts (items : List α) :
    compute items = items ↔ ∀ part ∈ items.splitOn mark, compute part = part := by
  have commutes : (compute items).splitOn mark = (items.splitOn mark).map compute := by
    apply splitOnP_commutes
    · intro others none item member
      have absent : mark ∉ others := by
        intro inside
        simpa using none mark inside
      apply beq_eq_false_iff_ne.mpr
      rintro rfl
      exact plain others absent member
    · intro front other rest same
      rw [beq_iff_eq.mp same]
      exact ⟨mark, beq_self_eq_true mark, apart front rest⟩
  constructor
  · intro fixed
    rw [fixed] at commutes
    exact List.map_inj_left.mp (commutes.symm.trans (List.map_id _).symm)
  · intro each
    have same := compute_joined apart (List.splitOn_ne_nil mark items)
    rwa [List.map_congr_left each, List.map_id', List.intercalate_splitOn] at same

/-- **Joined parts** are left alone exactly where each part is. -/
theorem fixed_joined_iff (some : parts ≠ []) :
    compute ([mark].intercalate parts) = [mark].intercalate parts ↔
      ∀ part ∈ parts, compute part = part := by
  rw [fixed_iff_parts plain apart, splitOn_joined some]
  constructor
  · intro each part member
    apply (fixed_iff_parts plain apart part).mpr
    intro inner inside
    exact each inner (List.mem_flatMap.mpr ⟨part, member, inside⟩)
  · intro each inner inside
    obtain ⟨part, member, inner⟩ := List.mem_flatMap.mp inside
    exact (fixed_iff_parts plain apart part).mp (each part member) _ inner

end Joined

end Singularmem.Library
