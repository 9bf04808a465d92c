import Mathlib.Data.List.Basic
import Mathlib.Data.List.Nodup
import Mathlib.Logic.Relation
import Mathlib.Tactic.Common

/-!
# Backward links

Rows are appended in order, and a row may link to one row before it. The position of a
row is then a measure for both walks over the links: it falls along a link and rises
against one.
-/

namespace Singularmem.Library

universe u v
variable {Row : Type u} {Id : Type v}

/-- How the links of a row are read. -/
structure Linkage (Row : Type u) (Id : Type v) where
  id : Row → Id
  /-- The row this one links to. -/
  prior : Row → Option Id

namespace Linkage

variable (link : Linkage Row Id)

/-- Every link points to a row that was appended before. -/
inductive Backward : List Row → Prop
  | nil : Backward []
  | snoc {rows : List Row} {row : Row} (past : Backward rows)
      (points : ∀ target ∈ link.prior row, ∃ older ∈ rows, link.id older = target) :
      Backward (rows ++ [row])

variable {link} {rows : List Row}

/-- Links that only change where they agree stay backward. -/
theorem Backward.map {change : Row → Row} (sameId : ∀ row, link.id (change row) = link.id row)
    (samePrior : ∀ row, link.prior (change row) = link.prior row) (backward : link.Backward rows) :
    link.Backward (rows.map change) := by
  induction backward with
  | nil => exact .nil
  | @snoc rows row past points inductionHypothesis =>
    rw [List.map_append, List.map_singleton]
    refine .snoc inductionHypothesis ?_
    intro target linked
    rw [samePrior] at linked
    obtain ⟨older, member, same⟩ := points target linked
    exact ⟨change older, List.mem_map_of_mem member, (sameId older).trans same⟩

/-- A link from a row splits the rows before it. -/
theorem Backward.before (backward : link.Backward rows) {before after : List Row} {row : Row}
    (shape : rows = before ++ row :: after) :
    ∀ target ∈ link.prior row, ∃ older ∈ before, link.id older = target := by
  induction backward generalizing after with
  | nil => simp at shape
  | @snoc rows last past points inductionHypothesis =>
    rcases after.eq_nil_or_concat with rfl | ⟨rest, final, rfl⟩
    · obtain ⟨rfl, lasts⟩ := List.append_inj' shape rfl
      obtain rfl := List.singleton_inj.mp lasts
      exact points
    · have longer : rows ++ [last] = (before ++ row :: rest) ++ [final] := by
        rw [shape]
        simp
      exact inductionHypothesis (List.append_inj' longer rfl).1

variable [DecidableEq Id]

/-- The position of the row with an id. -/
def position (link : Linkage Row Id) (rows : List Row) (id : Id) : Nat :=
  rows.findIdx fun row => link.id row = id

/-- A row that is there has a position. -/
theorem position_lt {row : Row} (member : row ∈ rows) : link.position rows (link.id row) < rows.length :=
  List.findIdx_lt_length_of_exists ⟨row, member, by simp⟩

/-- **Links fall in position.** -/
theorem Backward.position_falls (backward : link.Backward rows)
    (distinct : (rows.map link.id).Nodup) {row : Row} (member : row ∈ rows) {target : Id}
    (linked : link.prior row = some target) :
    link.position rows target < link.position rows (link.id row) := by
  obtain ⟨before, after, rfl⟩ := List.append_of_mem member
  obtain ⟨older, olderIn, rfl⟩ := backward.before rfl target linked
  have fresh : ∀ other ∈ before, link.id other ≠ link.id row := by
    intro other otherIn same
    rw [List.map_append, List.map_cons] at distinct
    exact (List.nodup_append.mp distinct).2.2 _ (List.mem_map_of_mem otherIn) _
      List.mem_cons_self same
  have own : link.position (before ++ row :: after) (link.id row) = before.length := by
    have absent : (before.findIdx fun other => link.id other = link.id row) = before.length := by
      refine List.findIdx_eq_length.mpr ?_
      intro other otherIn
      simpa using fresh other otherIn
    rw [position, List.findIdx_append, if_neg (by omega), List.findIdx_cons]
    simp
  have target : link.position (before ++ row :: after) (link.id older) < before.length := by
    have found := @position_lt _ _ link before _ older olderIn
    rw [position] at found
    rw [position, List.findIdx_append, if_pos found]
    exact found
  omega

/-- No row is reached from itself along links. -/
theorem Backward.acyclic (backward : link.Backward rows) (distinct : (rows.map link.id).Nodup)
    (id : Id) :
    ¬ Relation.TransGen (fun newer older => ∃ row ∈ rows, link.id row = newer ∧
      link.prior row = some older) id id := by
  have falls : ∀ newer older, Relation.TransGen (fun newer older => ∃ row ∈ rows,
      link.id row = newer ∧ link.prior row = some older) newer older →
      link.position rows older < link.position rows newer := by
    intro newer older path
    induction path with
    | single step =>
      obtain ⟨row, member, rfl, linked⟩ := step
      exact backward.position_falls distinct member linked
    | tail _ step inductionHypothesis =>
      obtain ⟨row, member, rfl, linked⟩ := step
      exact Nat.lt_trans (backward.position_falls distinct member linked) inductionHypothesis
  intro cycle
  exact Nat.lt_irrefl _ (falls id id cycle)

end Linkage

end Singularmem.Library
