import Mathlib.Data.List.Pairwise
import Mathlib.Tactic.Common

/-!
# Tables with row checks and unique indexes

A table keeps its rows in insertion order. Its schema checks every row by itself and
lists the index entries of a row; no two rows share an entry. A row without a value in a
partial index has no entry there. Primary keys and unique indexes are entries of one
list, tagged by the index they belong to.
-/

namespace Singularmem.Library

universe u v
variable {Row : Type u} {Key : Type v}

/-- What a table demands of its rows. -/
structure Schema (Row : Type u) (Key : Type v) where
  /-- The check every row passes. -/
  check : Row → Bool
  /-- The index entries of a row, in the order in which they are looked up. -/
  entries : Row → List Key

/-- Why a row is refused. -/
inductive Violation (Key : Type v)
  | check
  | taken (key : Key)
deriving DecidableEq

/-- The rows of a table, all of them checked, without shared index entries. -/
structure Table (schema : Schema Row Key) where
  rows : List Row
  checked : ∀ row ∈ rows, schema.check row
  unique : rows.Pairwise fun earlier later =>
    ∀ key ∈ schema.entries earlier, key ∉ schema.entries later

namespace Table

variable {schema : Schema Row Key}

/-- The table without rows. -/
def empty : Table schema := ⟨[], by simp, .nil⟩

/-- Tables with the same rows are the same table. -/
@[ext] theorem ext {left right : Table schema} (rows : left.rows = right.rows) : left = right := by
  cases left
  cases right
  cases rows
  rfl

/-- Rows that share an index entry are one row. -/
theorem row_unique (table : Table schema) {left right : Row} (leftIn : left ∈ table.rows)
    (rightIn : right ∈ table.rows) {key : Key} (leftKey : key ∈ schema.entries left)
    (rightKey : key ∈ schema.entries right) : left = right := by
  have symmetric : Std.Symm fun earlier later : Row =>
      ∀ key ∈ schema.entries earlier, key ∉ schema.entries later :=
    ⟨fun _ _ apart key later earlier => apart key earlier later⟩
  by_contra different
  exact table.unique.forall leftIn rightIn different key leftKey rightKey

/-- No two rows have the same value in an index. -/
theorem nodup_filterMap (table : Table schema) {Value : Type*} {value : Row → Option Value}
    (key : Value → Key) (indexed : ∀ row given, value row = some given → key given ∈ schema.entries row) :
    (table.rows.filterMap value).Nodup := by
  refine table.unique.filterMap value ?_
  intro earlier later apart given earlierGiven other laterGiven same
  subst same
  exact apart _ (indexed earlier given earlierGiven) (indexed later given laterGiven)

section Lookup

variable [DecidableEq Key]

/-- The row with an index entry. -/
def find (table : Table schema) (key : Key) : Option Row :=
  table.rows.find? fun row => key ∈ schema.entries row

/-- A lookup finds the row that has the entry. -/
theorem find_eq_some {table : Table schema} {key : Key} {row : Row} :
    table.find key = some row ↔ row ∈ table.rows ∧ key ∈ schema.entries row := by
  constructor
  · intro found
    exact ⟨List.mem_of_find?_eq_some found, by simpa using List.find?_some found⟩
  · rintro ⟨stored, entry⟩
    rcases found : table.find key with _ | other
    · have missing := List.find?_eq_none.mp found row stored
      simp [entry] at missing
    · have otherEntry : key ∈ schema.entries other := by simpa using List.find?_some found
      rw [table.row_unique (List.mem_of_find?_eq_some found) stored otherEntry entry]

/-- A lookup fails when no row has the entry. -/
theorem find_eq_none {table : Table schema} {key : Key} :
    table.find key = none ↔ ∀ row ∈ table.rows, key ∉ schema.entries row := by
  simp [find, List.find?_eq_none]

/-- The rows with an index entry are the one a lookup finds. -/
theorem filter_key (table : Table schema) (key : Key) :
    (table.rows.filter fun row => key ∈ schema.entries row) = (table.find key).toList := by
  have apart := table.unique.filter fun row => key ∈ schema.entries row
  have entry : ∀ row ∈ table.rows.filter fun row => key ∈ schema.entries row,
      row ∈ table.rows ∧ key ∈ schema.entries row := by
    intro row member
    simpa using member
  rcases found : table.find key with _ | row
  · refine List.filter_eq_nil_iff.mpr ?_
    intro row member
    simpa using find_eq_none.mp found row member
  · have kept : row ∈ table.rows.filter fun row => key ∈ schema.entries row := by
      simpa using find_eq_some.mp found
    rcases shape : table.rows.filter fun row => key ∈ schema.entries row with _ | ⟨first, rest⟩
    · rw [shape] at kept
      cases kept
    · rw [shape] at apart entry kept
      obtain rfl : rest = [] := by
        rcases rest with _ | ⟨second, others⟩
        · rfl
        · have firstKey := (entry first List.mem_cons_self).2
          have secondKey := (entry second (by simp)).2
          exact absurd secondKey
            (List.rel_of_pairwise_cons apart List.mem_cons_self key firstKey)
      rw [List.mem_singleton.mp kept]
      rfl

/-- Insert one row, unless the check or an index refuses it. -/
def insert (table : Table schema) (row : Row) : Except (Violation Key) (Table schema) :=
  if check : schema.check row then
    match taken : (schema.entries row).find? fun key => (table.find key).isSome with
    | some key => .error (.taken key)
    | none => .ok {
        rows := table.rows ++ [row]
        checked := by
          intro stored member
          rcases List.mem_append.mp member with earlier | last
          · exact table.checked stored earlier
          · rwa [List.mem_singleton.mp last]
        unique := by
          refine List.pairwise_append.mpr ⟨table.unique, List.pairwise_singleton _ row, ?_⟩
          intro stored earlier last member key entry
          rw [List.mem_singleton.mp member]
          intro shared
          have free := List.find?_eq_none.mp taken key shared
          rw [find_eq_some.mpr ⟨earlier, entry⟩] at free
          exact free rfl }
  else .error .check

/-- **What an insertion does.** It appends the row, which passed the check and whose
entries were free. -/
theorem insert_eq_ok {table after : Table schema} {row : Row} :
    table.insert row = .ok after ↔ schema.check row ∧
      (∀ key ∈ schema.entries row, table.find key = none) ∧ after.rows = table.rows ++ [row] := by
  unfold insert
  split
  case isTrue check =>
    split
    case h_1 key taken =>
      have held := List.find?_some taken
      have entry := List.mem_of_find?_eq_some taken
      simp only [reduceCtorEq, false_iff]
      rintro ⟨_, free, _⟩
      rw [free key entry] at held
      simp at held
    case h_2 free =>
      have allFree : ∀ key ∈ schema.entries row, table.find key = none := by
        intro key entry
        simpa using List.find?_eq_none.mp free key entry
      constructor
      · rintro ⟨⟩
        exact ⟨check, allFree, rfl⟩
      · rintro ⟨_, _, rows⟩
        exact congrArg Except.ok (ext rows.symm)
  case isFalse check => simp [check]

/-- A row that passes the check, and whose entries are free, is inserted. -/
theorem insert_succeeds {table : Table schema} {row : Row} (check : schema.check row)
    (free : ∀ key ∈ schema.entries row, table.find key = none) :
    ∃ after, table.insert row = .ok after ∧ after.rows = table.rows ++ [row] := by
  unfold insert
  rw [dif_pos check]
  split
  case h_1 key taken =>
    have held := List.find?_some taken
    rw [free key (List.mem_of_find?_eq_some taken)] at held
    cases held
  case h_2 => exact ⟨_, rfl, rfl⟩

/-- An index refuses a row for an entry another row has. -/
theorem insert_taken {table : Table schema} {row : Row} {key : Key}
    (refused : table.insert row = .error (.taken key)) :
    key ∈ schema.entries row ∧ ∃ other ∈ table.rows, key ∈ schema.entries other := by
  unfold insert at refused
  split at refused
  case isTrue check =>
    split at refused
    case h_1 held taken =>
      cases refused
      have stored := List.find?_some taken
      obtain ⟨other, found⟩ := Option.isSome_iff_exists.mp stored
      exact ⟨List.mem_of_find?_eq_some taken, other, find_eq_some.mp found⟩
    case h_2 => cases refused
  case isFalse => cases refused

end Lookup

/-- Change rows in place, where no change fails the check or adds an index entry. -/
def update (table : Table schema) (change : Row → Row)
    (checks : ∀ row, schema.check row → schema.check (change row))
    (entries : ∀ row, schema.entries (change row) ⊆ schema.entries row) : Table schema where
  rows := table.rows.map change
  checked := by
    intro row member
    obtain ⟨before, stored, rfl⟩ := List.mem_map.mp member
    exact checks before (table.checked before stored)
  unique := by
    refine table.unique.map change ?_
    intro earlier later apart key earlierKey laterKey
    exact apart key (entries earlier earlierKey) (entries later laterKey)

end Table

/-- Rows stay in place, each related to what it was; new rows follow. -/
inductive Grown (keeps : Row → Row → Prop) : List Row → List Row → Prop
  | added (rows : List Row) : Grown keeps [] rows
  | kept {before after : Row} {befores afters : List Row} (stays : keeps before after)
      (rest : Grown keeps befores afters) : Grown keeps (before :: befores) (after :: afters)

namespace Grown

variable {keeps : Row → Row → Prop}

/-- Changing rows in place and appending others is growth. -/
theorem map_append (change : Row → Row) (rows added : List Row)
    (stays : ∀ row ∈ rows, keeps row (change row)) : Grown keeps rows (rows.map change ++ added) := by
  induction rows with
  | nil => exact .added added
  | cons row rest inductionHypothesis =>
    refine .kept (stays row List.mem_cons_self) (inductionHypothesis ?_)
    intro later member
    exact stays later (List.mem_cons_of_mem row member)

/-- Appending rows is growth. -/
theorem append (reflexive : ∀ row, keeps row row) (rows added : List Row) :
    Grown keeps rows (rows ++ added) := by
  simpa using map_append id rows added fun row _ => reflexive row

theorem refl (reflexive : ∀ row, keeps row row) (rows : List Row) : Grown keeps rows rows := by
  simpa using append reflexive rows []

theorem trans (transitive : ∀ first second third, keeps first second → keeps second third →
      keeps first third) {first second third : List Row} (early : Grown keeps first second)
    (late : Grown keeps second third) : Grown keeps first third := by
  induction early generalizing third with
  | added rows => exact .added third
  | kept stays _ inductionHypothesis =>
    cases late with
    | kept again rest => exact .kept (transitive _ _ _ stays again) (inductionHypothesis rest)

/-- Every row is still there, as what it became. -/
theorem mem {before after : List Row} (grown : Grown keeps before after) {row : Row}
    (member : row ∈ before) : ∃ became ∈ after, keeps row became := by
  induction grown with
  | added rows => cases member
  | @kept head became befores afters stays _ inductionHypothesis =>
    rcases List.mem_cons.mp member with rfl | later
    · exact ⟨became, List.mem_cons_self, stays⟩
    · obtain ⟨found, foundIn, keepsFound⟩ := inductionHypothesis later
      exact ⟨found, List.mem_cons_of_mem became foundIn, keepsFound⟩

end Grown

end Singularmem.Library
