import Singularmem.Core.Store

/-!
# Item reads

Point reads of items, and the two walks over the `supersedes` links. The walks are loops
without a bound; here they take one step for each unit of fuel and report when it ran out.
-/

namespace Singularmem.Core

open Library

variable (platform : Platform)

/-- The tags of an item, sorted. -/
def tagsOf (tables : Tables) (id : ItemId) : List String :=
  ((tables.itemTags.rows.filter fun row => row.itemId = id).map TagRow.tag).insertionSort (· ≤ ·)

/-- Parse the stored creation time. -/
def parseCreatedAt (text : String) : Except Error Timestamp :=
  match platform.parseTimestamp text with
  | some instant => .ok instant
  | none => .error (.sqlite "parsing stored created_at" (.invalidColumnType "created_at"))

/-- Parse a row and join its tags. -/
def itemOfRow (tables : Tables) (row : ItemRow) : Except Error Item := do
  let createdAt ← parseCreatedAt platform row.createdAt
  let metadata ← row.metadata.parse platform
  return ⟨row.id, row.content, createdAt, row.supersedes, tagsOf tables row.id, row.source, metadata,
    row.externalId, row.scope⟩

/-- Load one item. -/
def loadItem (tables : Tables) (id : ItemId) : Except Error Item :=
  match tables.items.find (.id id) with
  | none => .error (.notFound id)
  | some row => itemOfRow platform tables row

/-- The scope of one item, without loading it. -/
def scopeOf (tables : Tables) (id : ItemId) : Except Error (Option String) :=
  match tables.items.find (.id id) with
  | none => .error (.notFound id)
  | some row => .ok row.scope

/-- Fetch the item that carries an `external_id`, if any. -/
def getByExternalId (tables : Tables) (externalId : String) : Except Error (Option Item) :=
  match tables.items.find (.externalId externalId) with
  | none => .ok none
  | some row => some <$> loadItem platform tables row.id

/-- The ids among these that exist as `external_id` values. -/
def existingExternalIds (tables : Tables) (ids : List String) : List String :=
  ids.filter fun id => (tables.items.find (.externalId id)).isSome

/-- Walk the `supersedes` chain from an item back to the original. -/
def revisionHistory (tables : Tables) : Nat → ItemId → Option (Except Error (List Item))
  | 0, _ => none
  | fuel + 1, id =>
    match loadItem platform tables id with
    | .error error => some (.error error)
    | .ok item =>
      match item.supersedes with
      | none => some (.ok [item])
      | some prior => (revisionHistory tables fuel prior).map fun rest => (item :: ·) <$> rest

/-- The items that supersede an item. -/
def successors (tables : Tables) (id : ItemId) : List ItemId :=
  (tables.items.rows.filter fun row => row.supersedes = some id).map ItemRow.id

/-- Walk forward from an item while it has one successor. -/
def walkForward (tables : Tables) : Nat → ItemId → Option (Except Error Item)
  | 0, _ => none
  | fuel + 1, id =>
    match successors tables id with
    | [] => some (loadItem platform tables id)
    | [next] => walkForward tables fuel next
    | candidates => some (.error (.ambiguousLatest candidates))

/-- Find the latest revision reachable forward from an item. -/
def latestRevision (tables : Tables) (fuel : Nat) (id : ItemId) : Option (Except Error Item) :=
  match loadItem platform tables id with
  | .error error => some (.error error)
  | .ok _ => walkForward platform tables fuel id

end Singularmem.Core
