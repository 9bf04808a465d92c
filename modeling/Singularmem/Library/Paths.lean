import Mathlib.Data.List.Basic
import Mathlib.Tactic.Common

/-!
# Paths of segments

A path is a list of segments written with a separator between them. Its leading paths
are those of its non-empty initial lists of segments. A path is one of them exactly when
it is the whole path, or is followed in it by a separator.
-/

namespace Singularmem.Library

universe u
variable {α : Type u} (separator : α)

/-- The leading paths of a list of segments, shortest first. -/
def leadingPaths : List (List α) → List (List α)
  | [] => []
  | segment :: rest =>
    segment :: (leadingPaths rest).map fun path => segment ++ separator :: path

/-- One path is another, or lies above it. -/
def Above (path text : List α) : Prop := text = path ∨ ∃ rest, text = path ++ separator :: rest

variable {separator}

/-- A path holds only separators and what its segments hold. -/
theorem mem_intercalate {segments : List (List α)} {element : α}
    (member : element ∈ [separator].intercalate segments) :
    element = separator ∨ ∃ segment ∈ segments, element ∈ segment := by
  induction segments with
  | nil => cases member
  | cons segment rest inductionHypothesis =>
    cases rest with
    | nil =>
      rw [List.intercalate_singleton] at member
      exact .inr ⟨segment, List.mem_cons_self, member⟩
    | cons next more =>
      rw [List.intercalate_cons_cons, List.append_assoc, List.singleton_append] at member
      rcases List.mem_append.mp member with first | later
      · exact .inr ⟨segment, List.mem_cons_self, first⟩
      · rcases List.mem_cons.mp later with same | below
        · exact .inl same
        · exact (inductionHypothesis below).imp_right fun ⟨other, otherIn, inside⟩ =>
            ⟨other, List.mem_cons_of_mem segment otherIn, inside⟩

/-- Every leading path lies above the whole path. -/
theorem above_of_mem_leadingPaths {segments : List (List α)} {path : List α}
    (member : path ∈ leadingPaths separator segments) :
    Above separator path ([separator].intercalate segments) := by
  induction segments generalizing path with
  | nil => cases member
  | cons segment rest inductionHypothesis =>
    cases rest with
    | nil =>
      left
      simpa [leadingPaths, List.intercalate_singleton, eq_comm] using member
    | cons next more =>
      rw [List.intercalate_cons_cons, List.append_assoc, List.singleton_append]
      rcases List.mem_cons.mp member with rfl | later
      · exact .inr ⟨_, rfl⟩
      · obtain ⟨below, belowIn, rfl⟩ := List.mem_map.mp later
        rcases inductionHypothesis belowIn with whole | ⟨suffix, followed⟩
        · left
          rw [whole]
        · right
          exact ⟨suffix, by rw [followed]; simp⟩

/-- **The paths above a path are its leading paths**, when no segment holds a separator. -/
theorem mem_leadingPaths_iff {segments : List (List α)} (nonempty : segments ≠ [])
    (plain : ∀ segment ∈ segments, separator ∉ segment) {path : List α} :
    path ∈ leadingPaths separator segments ↔
      Above separator path ([separator].intercalate segments) := by
  refine ⟨above_of_mem_leadingPaths, ?_⟩
  induction segments generalizing path with
  | nil => exact absurd rfl nonempty
  | cons segment rest inductionHypothesis =>
    have segmentPlain := plain segment List.mem_cons_self
    cases rest with
    | nil =>
      rw [List.intercalate_singleton]
      rintro (whole | ⟨suffix, followed⟩)
      · simp [leadingPaths, whole]
      · rw [followed] at segmentPlain
        simp at segmentPlain
    | cons next more =>
      have restPlain := fun other otherIn => plain other (List.mem_cons_of_mem segment otherIn)
      have fromRest : ∀ below, Above separator below ([separator].intercalate (next :: more)) →
          segment ++ separator :: below ∈ leadingPaths separator (segment :: next :: more) :=
        fun below above => List.mem_cons_of_mem _
          (List.mem_map.mpr ⟨below, inductionHypothesis (List.cons_ne_nil _ _) restPlain above, rfl⟩)
      rw [List.intercalate_cons_cons, List.append_assoc, List.singleton_append]
      rintro (whole | ⟨suffix, followed⟩)
      · rw [← whole]
        exact fromRest _ (.inl rfl)
      · rcases List.append_eq_append_iff.mp followed with ⟨gap, rfl, shifted⟩ | ⟨gap, cut, shifted⟩
        · rcases gap with _ | ⟨head, below⟩
          · simp [leadingPaths]
          · obtain ⟨rfl, tail⟩ := List.cons.inj shifted
            exact fromRest below (.inr ⟨suffix, tail⟩)
        · rcases gap with _ | ⟨head, below⟩
          · rw [List.append_nil] at cut
            simp [leadingPaths, cut]
          · obtain ⟨rfl, _⟩ := List.cons.inj shifted
            rw [cut] at segmentPlain
            simp at segmentPlain

end Singularmem.Library
