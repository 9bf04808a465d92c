import Singularmem.Core.Ids

/-!
# Errors of the library

Every failure the store reports. A failing statement names what the store was doing and
why the database refused; a rejected value names its field.
-/

namespace Singularmem.Core

/-- Why the database refused a statement. -/
inductive SqliteError
  /-- The `CHECK` of a table. -/
  | check (table : String)
  /-- A primary key or unique index, named by its column. -/
  | unique (column : String)
  | foreignKey
  | invalidColumnType (column : String)
deriving DecidableEq

/-- All errors the library can surface. -/
inductive Error
  /-- A field did not pass validation. -/
  | validation (field reason : String)
  /-- `supersedes` referenced an item that does not exist in the store. -/
  | supersedesNotFound (id : ItemId)
  /-- A point read did not find the requested item. -/
  | notFound (id : ItemId)
  /-- No open fact for the given triple. -/
  | factNotFound (subject predicate object : String)
  /-- A fact id was looked up and does not exist in the store. -/
  | factIdNotFound (id : FactId)
  /-- The chain of a fact forks: several revisions supersede the same one. -/
  | ambiguousFactRevision (candidates : List FactId)
  /-- Several items supersede the same one. -/
  | ambiguousLatest (candidates : List ItemId)
  /-- An `external_id` collides with an existing item's. -/
  | externalIdConflict (externalId : String)
  /-- A write was attempted against a read-only store. -/
  | readOnly (operation : String)
  /-- The database reported an error during a named operation. -/
  | sqlite (context : String) (source : SqliteError)
  /-- JSON parsing failed. -/
  | json (context reason : String)
deriving DecidableEq

end Singularmem.Core
