import Mathlib.Data.List.Forall2
import Mathlib.Logic.Function.Basic
import Mathlib.Tactic.Common

/-!
# Schema statements of a relational database

A catalog has a schema, which is its tables and indexes in the order of their creation,
and the rows of each table. A statement is refused for a reason of the schema, for a reason
of the rows, or changes both. Constraints that are only carried along are kept as text.

Adding a column to a table gives every row a last value. So a script that only creates
objects and adds columns keeps all values of all rows.
-/

namespace Singularmem.Library.Sql

universe u

/-- A column; `none` as its default is `NULL`. -/
structure Column (Value : Type u) where
  name : String
  type : String
  notNull : Bool
  default : Option Value
deriving DecidableEq

/-- A table: its columns in order, its primary key and its other constraints. -/
structure TableDef (Value : Type u) where
  name : String
  columns : List (Column Value)
  primaryKey : List String
  constraints : List String
deriving DecidableEq

/-- An index. A partial one holds the rows where a column is not `NULL`. -/
structure IndexDef where
  name : String
  table : String
  columns : List String
  unique : Bool
  whereNotNull : Option String
deriving DecidableEq

/-- The tables and indexes of a database. -/
structure Schema (Value : Type u) where
  tables : List (TableDef Value)
  indexes : List IndexDef
deriving DecidableEq

/-- A row: one value for each column, `none` for `NULL`. -/
abbrev Row (Value : Type u) := List (Option Value)

/-- A database. -/
structure Catalog (Value : Type u) where
  schema : Schema Value
  rows : String → List (Row Value)

/-- A statement. An update sets one column, which no key or index covers, where another has
a value. -/
inductive Statement (Value : Type u)
  | createTable (table : TableDef Value)
  | createIndex (index : IndexDef)
  | addColumn (table : String) (column : Column Value)
  | insert (table : String) (row : Row Value)
  | update (table set : String) (value : Value) (key : String) (equals : Value)

/-- Why a statement is refused. -/
inductive Refusal
  | exists_ (name : String)
  | noSuchTable (name : String)
  | noSuchColumn (name : String)
  | duplicateColumn (name : String)
  | nullColumn (name : String)
  | arity (table : String)
  | notUnique (name : String)
  /-- The statement did not get through, for a reason outside the database. -/
  | interrupted
deriving DecidableEq

variable {Value : Type u} [DecidableEq Value]

namespace Schema

/-- The tables and indexes have one name space. -/
def names (schema : Schema Value) : List String :=
  schema.tables.map TableDef.name ++ schema.indexes.map IndexDef.name

/-- A table by its name. -/
def table (schema : Schema Value) (name : String) : Option (TableDef Value) :=
  schema.tables.find? fun table => table.name = name

/-- Append a column to a table. -/
def addColumn (schema : Schema Value) (name : String) (column : Column Value) : Schema Value :=
  { schema with tables := schema.tables.map fun table =>
      if table.name = name then { table with columns := table.columns ++ [column] } else table }

/-- What a statement makes of a schema. -/
def apply (schema : Schema Value) : Statement Value → Schema Value
  | .createTable table => { schema with tables := schema.tables ++ [table] }
  | .createIndex index => { schema with indexes := schema.indexes ++ [index] }
  | .addColumn table column => schema.addColumn table column
  | .insert _ _ => schema
  | .update _ _ _ _ _ => schema

/-- Why a schema refuses a statement. -/
def refusal (schema : Schema Value) : Statement Value → Option Refusal
  | .createTable table => if table.name ∈ schema.names then some (.exists_ table.name) else none
  | .createIndex index =>
    if index.name ∈ schema.names then some (.exists_ index.name)
    else match schema.table index.table with
      | none => some (.noSuchTable index.table)
      | some table =>
        (index.columns ++ index.whereNotNull.toList).findSome? fun column =>
          if column ∈ table.columns.map Column.name then none else some (.noSuchColumn column)
  | .addColumn name column =>
    match schema.table name with
    | none => some (.noSuchTable name)
    | some table =>
      if column.name ∈ table.columns.map Column.name then some (.duplicateColumn column.name)
      else if column.notNull ∧ column.default = none then some (.nullColumn column.name)
      else none
  | .insert name row =>
    match schema.table name with
    | none => some (.noSuchTable name)
    | some table =>
      if row.length ≠ table.columns.length then some (.arity name)
      else (table.columns.zip row).findSome? fun (column, value) =>
        if column.notNull ∧ value = none then some (.nullColumn column.name) else none
  | .update name set _ key _ =>
    match schema.table name with
    | none => some (.noSuchTable name)
    | some table =>
      [set, key].findSome? fun column =>
        if column ∈ table.columns.map Column.name then none else some (.noSuchColumn column)

end Schema

/-- The value of a row in a column. -/
def TableDef.value (table : TableDef Value) (row : Row Value) (column : String) : Option Value :=
  (row[(table.columns.map Column.name).idxOf column]?).join

/-- The entry of a row in an index over columns. A `NULL` differs from every value, so a
row with one has no entry. -/
def TableDef.entry (table : TableDef Value) (columns : List String) (whereNotNull : Option String)
    (row : Row Value) : Option (List Value) :=
  if whereNotNull.any fun column => (table.value row column).isNone then none
  else columns.mapM (table.value row)

/-- Replace the value of a row in a column. -/
def TableDef.setValue (table : TableDef Value) (row : Row Value) (column : String) (value : Value) :
    Row Value :=
  row.set ((table.columns.map Column.name).idxOf column) (some value)

namespace Catalog

/-- A database without tables. -/
def empty : Catalog Value := ⟨⟨[], []⟩, fun _ => []⟩

/-- Why the rows refuse a statement that the schema accepts. -/
def violation (catalog : Catalog Value) : Statement Value → Option Refusal
  | .createIndex index =>
    match catalog.schema.table index.table with
    | none => none
    | some table =>
      let entries := (catalog.rows index.table).filterMap (table.entry index.columns index.whereNotNull)
      if index.unique ∧ ¬ entries.Nodup then some (.notUnique index.name) else none
  | .insert name row =>
    match catalog.schema.table name with
    | none => none
    | some table =>
      let entries := (catalog.rows name).filterMap (table.entry table.primaryKey none)
      if (table.entry table.primaryKey none row).any (· ∈ entries) then some (.notUnique name) else none
  | _ => none

/-- What a statement makes of the rows. -/
def applyRows (catalog : Catalog Value) : Statement Value → String → List (Row Value)
  | .createTable table => Function.update catalog.rows table.name []
  | .createIndex _ => catalog.rows
  | .addColumn name column =>
    Function.update catalog.rows name ((catalog.rows name).map (· ++ [column.default]))
  | .insert name row => Function.update catalog.rows name (catalog.rows name ++ [row])
  | .update name set value key equals =>
    match catalog.schema.table name with
    | none => catalog.rows
    | some table => Function.update catalog.rows name ((catalog.rows name).map fun row =>
        if table.value row key = some equals then table.setValue row set value else row)

/-- Execute a statement. -/
def execute (catalog : Catalog Value) (statement : Statement Value) : Except Refusal (Catalog Value) :=
  match catalog.schema.refusal statement with
  | some refusal => .error refusal
  | none =>
    match catalog.violation statement with
    | some refusal => .error refusal
    | none => .ok ⟨catalog.schema.apply statement, catalog.applyRows statement⟩

/-- Execute a script, each statement of which may be interrupted. An error names the
statement by its place. -/
def executeAll (interrupted : Nat → Bool) (catalog : Catalog Value) :
    List (Statement Value) → Except (Nat × Refusal) (Catalog Value)
  | [] => .ok catalog
  | statement :: rest =>
    if interrupted 0 then .error (0, .interrupted)
    else
      match catalog.execute statement with
      | .error refusal => .error (0, refusal)
      | .ok after =>
        (executeAll (fun call => interrupted (call + 1)) after rest).mapError fun error =>
          (error.1 + 1, error.2)

/-- What a statement that nothing refuses makes of a database. -/
def next (catalog : Catalog Value) (statement : Statement Value) : Catalog Value :=
  ⟨catalog.schema.apply statement, catalog.applyRows statement⟩

/-- What a script that nothing refuses makes of a database. -/
def run (catalog : Catalog Value) (script : List (Statement Value)) : Catalog Value :=
  script.foldl next catalog

/-- The rows refuse no statement of a script. -/
def fits : Catalog Value → List (Statement Value) → Bool
  | _, [] => true
  | catalog, statement :: rest =>
    (catalog.violation statement).isNone && (catalog.next statement).fits rest

end Catalog

/-- The schema refuses no statement of a script. -/
def Schema.accepts : Schema Value → List (Statement Value) → Bool
  | _, [] => true
  | schema, statement :: rest =>
    (schema.refusal statement).isNone && (schema.apply statement).accepts rest

/-- The table whose rows a statement writes. -/
def Statement.writes : Statement Value → Option String
  | .createTable table => some table.name
  | .createIndex _ => none
  | .addColumn name _ => some name
  | .insert name _ => some name
  | .update name _ _ _ _ => some name

/-- Statements that the rows never refuse. -/
def Statement.quiet : Statement Value → Bool
  | .createIndex index => !index.unique
  | .insert _ _ => false
  | _ => true

/-- Statements that only create objects and add columns. -/
def Statement.grows : Statement Value → Bool
  | .createTable _ | .createIndex _ | .addColumn _ _ => true
  | _ => false

namespace Catalog

variable {catalog after : Catalog Value} {statement : Statement Value}
  {script more : List (Statement Value)}

@[simp] theorem run_nil : catalog.run [] = catalog := rfl

@[simp] theorem run_cons : catalog.run (statement :: script) = (catalog.next statement).run script := rfl

theorem run_append : catalog.run (script ++ more) = (catalog.run script).run more :=
  List.foldl_append

/-- The schema after a script depends on the schema before it only. -/
theorem run_schema : (catalog.run script).schema = script.foldl Schema.apply catalog.schema := by
  induction script generalizing catalog with
  | nil => rfl
  | cons statement rest inductionHypothesis => exact inductionHypothesis

/-- Quiet statements fit all rows. -/
theorem fits_of_quiet (quiet : script.all Statement.quiet) : catalog.fits script := by
  induction script generalizing catalog with
  | nil => rfl
  | cons statement rest inductionHypothesis =>
    rw [List.all_cons, Bool.and_eq_true] at quiet
    have silent : catalog.violation statement = none := by
      cases statement with
      | createIndex index =>
        have plain : index.unique = false := by simpa [Statement.quiet] using quiet.1
        simp only [violation, plain]
        split <;> simp
      | insert table row => cases quiet.1
      | _ => rfl
    rw [fits, silent, inductionHypothesis quiet.2]
    rfl

/-- An index without entries is unique. -/
theorem violation_of_no_entries {index : IndexDef}
    (vacant : ∀ table, catalog.schema.table index.table = some table →
      ∀ row ∈ catalog.rows index.table, table.entry index.columns index.whereNotNull row = none) :
    catalog.violation (.createIndex index) = none := by
  rw [violation]
  rcases present : catalog.schema.table index.table with _ | table
  · rfl
  · have entries : (catalog.rows index.table).filterMap (table.entry index.columns index.whereNotNull) =
        [] := List.filterMap_eq_nil_iff.mpr (vacant table present)
    simp [entries]

/-- **A script that neither schema nor rows refuse** succeeds where it is not interrupted. -/
theorem executeAll_cases (accepted : catalog.schema.accepts script) (fitting : catalog.fits script)
    (interrupted : Nat → Bool) :
    catalog.executeAll interrupted script = .ok (catalog.run script) ∨
      ∃ place, interrupted place ∧ catalog.executeAll interrupted script = .error (place, .interrupted) := by
  induction script generalizing catalog interrupted with
  | nil => exact .inl rfl
  | cons statement rest inductionHypothesis =>
    rw [Schema.accepts, Bool.and_eq_true, Option.isNone_iff_eq_none] at accepted
    rw [fits, Bool.and_eq_true, Option.isNone_iff_eq_none] at fitting
    have executed : catalog.execute statement = .ok (catalog.next statement) := by
      rw [execute, accepted.1, fitting.1]
      rfl
    rw [executeAll]
    by_cases stopped : interrupted 0
    · exact .inr ⟨0, stopped, by rw [if_pos stopped]⟩
    · rw [if_neg stopped, executed]
      rcases inductionHypothesis accepted.2 fitting.2 fun call => interrupted (call + 1) with
        done | ⟨place, stopped, failed⟩
      · left
        simp only [done]
        rfl
      · right
        refine ⟨place + 1, stopped, ?_⟩
        simp only [failed]
        rfl

/-- A script keeps the rows of a table that it does not write. -/
theorem run_rows_of_unwritten {name : String}
    (unwritten : ∀ statement ∈ script, statement.writes ≠ some name) :
    (catalog.run script).rows name = catalog.rows name := by
  induction script generalizing catalog with
  | nil => rfl
  | cons statement rest inductionHypothesis =>
    have first := unwritten statement List.mem_cons_self
    have others := @inductionHypothesis (catalog.next statement)
      fun other otherIn => unwritten other (List.mem_cons_of_mem statement otherIn)
    rw [run_cons, others]
    have apart : ∀ {table : String}, some table ≠ some name → name ≠ table :=
      fun differs same => differs (congrArg some same.symm)
    cases statement with
    | createIndex index => rfl
    | update table set value key equals =>
      change catalog.applyRows (.update table set value key equals) name = catalog.rows name
      rw [applyRows]
      cases catalog.schema.table table with
      | none => rfl
      | some found => exact Function.update_of_ne (apart first) _ _
    | _ => exact Function.update_of_ne (apart first) _ _

/-- Every row has a value for each column, and there are no rows without a table. -/
structure WellFormed (catalog : Catalog Value) : Prop where
  widths : ∀ name table, catalog.schema.table name = some table →
    ∀ row ∈ catalog.rows name, row.length = table.columns.length
  absent : ∀ name, catalog.schema.table name = none → catalog.rows name = []

end Catalog

/-- Related lists of a transitive relation. -/
theorem forall₂_trans {α : Type u} {related : α → α → Prop}
    (transitive : ∀ first second third, related first second → related second third →
      related first third) {first second third : List α} (early : List.Forall₂ related first second)
    (late : List.Forall₂ related second third) : List.Forall₂ related first third := by
  induction early generalizing third with
  | nil => exact late
  | cons head _ inductionHypothesis =>
    cases late with
    | cons next rest => exact .cons (transitive _ _ _ head next) (inductionHypothesis rest)

namespace Schema

variable {schema : Schema Value}

omit [DecidableEq Value] in
/-- A schema accepts two scripts, one after the other. -/
theorem accepts_append (script more : List (Statement Value)) :
    schema.accepts (script ++ more) =
      (schema.accepts script && (script.foldl Schema.apply schema).accepts more) := by
  induction script generalizing schema with
  | nil => rfl
  | cons statement rest inductionHypothesis =>
    rw [List.cons_append, accepts, accepts, inductionHypothesis, Bool.and_assoc]
    rfl

omit [DecidableEq Value] in
/-- The tables of a schema after a statement: those before, one of them perhaps with another
column, and perhaps a new one. -/
theorem table_apply (statement : Statement Value) (name : String) :
    (schema.apply statement).table name =
      match statement with
      | .createTable table => (schema.table name).or (if table.name = name then some table else none)
      | .addColumn target column => (schema.table name).map fun table =>
          if table.name = target then { table with columns := table.columns ++ [column] } else table
      | _ => schema.table name := by
  cases statement with
  | createTable table =>
    rw [apply, Schema.table, List.find?_append, List.find?_singleton]
    simp only [decide_eq_true_eq]
    rfl
  | addColumn target column =>
    rw [apply, addColumn, Schema.table, List.find?_map]
    congr 2
    funext table
    simp only [Function.comp_apply]
    split <;> rfl
  | _ => rfl

omit [DecidableEq Value] in
/-- A found table has the name it was found by. -/
theorem table_name {name : String} {table : TableDef Value} (found : schema.table name = some table) :
    table.name = name := by
  simpa using List.find?_some found

omit [DecidableEq Value] in
/-- A name that no object has is no table's. -/
theorem table_of_not_mem_names {name : String} (unknown : name ∉ schema.names) :
    schema.table name = none := by
  rw [Schema.table, List.find?_eq_none]
  intro table member same
  refine unknown (List.mem_append_left _ (List.mem_map.mpr ⟨table, member, ?_⟩))
  simpa using same

end Schema

namespace Catalog

variable {catalog : Catalog Value} {statement : Statement Value} {script : List (Statement Value)}

/-- An accepted statement keeps a database well formed. -/
theorem WellFormed.next (formed : catalog.WellFormed)
    (accepted : catalog.schema.refusal statement = none) : (catalog.next statement).WellFormed := by
  cases statement with
  | createTable table =>
    have unknown : table.name ∉ catalog.schema.names := by
      simpa [Schema.refusal] using accepted
    have vacant := Schema.table_of_not_mem_names unknown
    constructor
    · intro name found known row member
      change (catalog.schema.apply _).table name = _ at known
      change row ∈ Function.update catalog.rows table.name [] name at member
      by_cases own : name = table.name
      · subst own
        rw [Function.update_self] at member
        cases member
      · rw [Function.update_of_ne own] at member
        rw [Schema.table_apply] at known
        simp only [if_neg (Ne.symm own), Option.or_none] at known
        exact formed.widths name found known row member
    · intro name unfound
      change (catalog.schema.apply _).table name = _ at unfound
      rw [Schema.table_apply] at unfound
      simp only [Option.or_eq_none_iff] at unfound
      change Function.update catalog.rows table.name [] name = []
      by_cases own : name = table.name
      · subst own
        exact Function.update_self _ _ _
      · rw [Function.update_of_ne own]
        exact formed.absent name unfound.1
  | createIndex index => exact ⟨formed.widths, formed.absent⟩
  | addColumn target column =>
    constructor
    · intro name found known row member
      change (catalog.schema.apply _).table name = _ at known
      rw [Schema.table_apply] at known
      obtain ⟨table, before, rfl⟩ := Option.map_eq_some_iff.mp known
      have same := Schema.table_name before
      change row ∈ Function.update catalog.rows target _ name at member
      by_cases own : name = target
      · subst own
        rw [Function.update_self] at member
        obtain ⟨old, oldIn, rfl⟩ := List.mem_map.mp member
        rw [if_pos same, List.length_append, List.length_append, formed.widths name table before old oldIn]
        rfl
      · rw [Function.update_of_ne own] at member
        rw [if_neg (same ▸ own)]
        exact formed.widths name table before row member
    · intro name unfound
      change (catalog.schema.apply _).table name = _ at unfound
      rw [Schema.table_apply] at unfound
      have vacant := formed.absent name (Option.map_eq_none_iff.mp unfound)
      change Function.update catalog.rows target _ name = []
      by_cases own : name = target
      · subst own
        rw [Function.update_self, vacant, List.map_nil]
      · rwa [Function.update_of_ne own]
  | insert target row =>
    rcases present : catalog.schema.table target with _ | table
    · simp [Schema.refusal, present] at accepted
    have width : row.length = table.columns.length := by
      by_contra differs
      simp [Schema.refusal, present, differs] at accepted
    constructor
    · intro name found known other member
      change other ∈ Function.update catalog.rows target _ name at member
      by_cases own : name = target
      · subst own
        rw [Function.update_self] at member
        obtain rfl : table = found := Option.some.inj (present.symm.trans known)
        rcases List.mem_append.mp member with old | new
        · exact formed.widths name table present other old
        · rw [List.mem_singleton.mp new, width]
      · rw [Function.update_of_ne own] at member
        exact formed.widths name found known other member
    · intro name unfound
      change Function.update catalog.rows target _ name = []
      by_cases own : name = target
      · subst own
        cases present.symm.trans unfound
      · rw [Function.update_of_ne own]
        exact formed.absent name unfound
  | update target set value key equals =>
    rcases present : catalog.schema.table target with _ | table
    · simp [Schema.refusal, present] at accepted
    have rows : (catalog.next (.update target set value key equals)).rows =
        Function.update catalog.rows target ((catalog.rows target).map fun row =>
          if table.value row key = some equals then table.setValue row set value else row) := by
      rw [Catalog.next, applyRows, present]
    constructor
    · intro name found known other member
      rw [rows] at member
      by_cases own : name = target
      · subst own
        rw [Function.update_self] at member
        obtain rfl : table = found := Option.some.inj (present.symm.trans known)
        obtain ⟨old, oldIn, rfl⟩ := List.mem_map.mp member
        rw [← formed.widths name table present old oldIn]
        split
        · exact List.length_set
        · rfl
      · rw [Function.update_of_ne own] at member
        exact formed.widths name found known other member
    · intro name unfound
      rw [rows]
      by_cases own : name = target
      · subst own
        cases present.symm.trans unfound
      · rw [Function.update_of_ne own]
        exact formed.absent name unfound

/-- An accepted script keeps a database well formed. -/
theorem WellFormed.run (formed : catalog.WellFormed) (accepted : catalog.schema.accepts script) :
    (catalog.run script).WellFormed := by
  induction script generalizing catalog with
  | nil => exact formed
  | cons statement rest inductionHypothesis =>
    rw [Schema.accepts, Bool.and_eq_true, Option.isNone_iff_eq_none] at accepted
    exact inductionHypothesis (formed.next accepted.1) accepted.2

/-- A statement that only grows keeps the values of all rows. -/
theorem next_grows (formed : catalog.WellFormed) (accepted : catalog.schema.refusal statement = none)
    (grows : statement.grows) (name : String) :
    List.Forall₂ (· <+: ·) (catalog.rows name) ((catalog.next statement).rows name) := by
  have same : List.Forall₂ (· <+: ·) (catalog.rows name) (catalog.rows name) :=
    List.forall₂_same.mpr fun row _ => List.prefix_refl row
  cases statement with
  | createTable table =>
    change List.Forall₂ _ _ (Function.update catalog.rows table.name [] name)
    by_cases own : name = table.name
    · subst own
      have unknown : table.name ∉ catalog.schema.names := by
        simpa [Schema.refusal] using accepted
      rw [Function.update_self, formed.absent _ (Schema.table_of_not_mem_names unknown)]
      exact .nil
    · rwa [Function.update_of_ne own]
  | createIndex index => exact same
  | addColumn table column =>
    change List.Forall₂ _ _ (Function.update catalog.rows table _ name)
    by_cases own : name = table
    · subst own
      rw [Function.update_self, List.forall₂_map_right_iff]
      exact List.forall₂_same.mpr fun row _ => List.prefix_append row _
    · rwa [Function.update_of_ne own]
  | _ => cases grows

/-- **A script that only grows keeps the values of all rows.** -/
theorem run_grows (formed : catalog.WellFormed) (accepted : catalog.schema.accepts script)
    (grows : ∀ statement ∈ script, statement.grows) (name : String) :
    List.Forall₂ (· <+: ·) (catalog.rows name) ((catalog.run script).rows name) := by
  induction script generalizing catalog with
  | nil => exact List.forall₂_same.mpr fun row _ => List.prefix_refl row
  | cons statement rest inductionHypothesis =>
    rw [Schema.accepts, Bool.and_eq_true, Option.isNone_iff_eq_none] at accepted
    have first := next_grows formed accepted.1 (grows statement List.mem_cons_self) name
    have others := inductionHypothesis (formed.next accepted.1) accepted.2
      fun other otherIn => grows other (List.mem_cons_of_mem statement otherIn)
    exact forall₂_trans (fun _ _ _ early late => early.trans late) first others

end Catalog

end Singularmem.Library.Sql
