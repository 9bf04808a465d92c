import Singularmem.Core.Query

/-!
# Listings

A listing selects the rows by tags and scope and loads the items one by one, in the order
they were created. The items of `list` fail one by one; `recent` fails as a whole.
-/

namespace Singularmem.Core

variable (platform : Platform) (tables : Tables)

/-- A row carries every tag of a query. A tag that is asked for twice counts twice. -/
def carriesTags (tags : List String) (row : ItemRow) : Bool :=
  tags.isEmpty || ((tagsOf tables row.id).filter (· ∈ tags)).length = tags.length

/-- Rows by creation time. -/
def byCreation (rows : List ItemRow) : List ItemRow :=
  rows.insertionSort (·.createdAt ≤ ·.createdAt)

/-- The items of a listing. -/
def listedIds (tags : List String) (filter : Option ScopeFilter) : List ItemId :=
  (byCreation (tables.items.rows.filter fun row =>
    carriesTags tables tags row && filter.all (·.sqlClause row.scope))).map ItemRow.id

/-- Items that carry every tag and match the filter, oldest first. -/
def listByTagsScoped (tags : List String) (filter : Option ScopeFilter) :
    List (Except Error Item) :=
  (listedIds tables tags filter).map (loadItem platform tables)

/-- Every item. -/
def list : List (Except Error Item) := listByTagsScoped platform tables [] none

/-- The newest items that match the filter, newest first. -/
def recentIds (filter : Option ScopeFilter) (limit : Nat) : List ItemId :=
  ((byCreation (tables.items.rows.filter fun row =>
    filter.all (·.sqlClause row.scope))).reverse.take limit).map ItemRow.id

/-- Load the newest items that match the filter. -/
def recent (filter : Option ScopeFilter) (limit : Nat) : Except Error (List Item) :=
  (recentIds tables filter limit).mapM (loadItem platform tables)

end Singularmem.Core
