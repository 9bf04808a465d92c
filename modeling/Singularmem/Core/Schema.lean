import Singularmem.Core.Items
import Singularmem.Library.Tables

/-!
# The tables

The rows of the four data tables, with the checks, the unique indexes and the foreign
keys of the schema. Columns that hold a ULID keep the number, and the metadata column
keeps the value its text denotes. Unique indexes are looked up before the primary key.
-/

namespace Singularmem.Core

open Library

/-- A row of `items`. -/
structure ItemRow where
  id : ItemId
  content : String
  createdAt : String
  supersedes : Option ItemId
  source : Option String
  metadata : Json
  externalId : Option String
  scope : Option String

/-- Index entries of `items`. -/
inductive ItemKey
  | externalId (value : String)
  | id (id : ItemId)
deriving DecidableEq

/-- The demands of `items`. -/
def itemSchema : Schema ItemRow ItemKey where
  check row := 0 < sqlLength row.content && sqlLength row.content ≤ 1048576 && row.metadata.sqlValid
  entries row := (row.externalId.map ItemKey.externalId).toList ++ [.id row.id]

/-- A row of `item_tags`. -/
structure TagRow where
  itemId : ItemId
  tag : String
deriving DecidableEq

/-- The demands of `item_tags`. -/
def tagSchema : Schema TagRow TagRow where
  check _ := true
  entries row := [row]

/-- A row of `entities`. -/
structure EntityRow where
  id : EntityId
  name : String
  normalisedName : String
  kind : Option String
  createdAt : String
deriving DecidableEq

/-- Index entries of `entities`. -/
inductive EntityKey
  | normalisedName (value : String)
  | id (id : EntityId)
deriving DecidableEq

/-- The demands of `entities`. -/
def entitySchema : Schema EntityRow EntityKey where
  check row := 0 < sqlLength row.name
  entries row := [.normalisedName row.normalisedName, .id row.id]

/-- A row of `facts`. -/
structure FactRow where
  id : FactId
  subjectId : EntityId
  predicate : String
  objectId : Option EntityId
  objectValue : Option String
  validFrom : Option String
  validTo : Option String
  confidence : RealColumn
  sourceItemId : Option ItemId
  scope : Option String
  supersedes : Option FactId
  recordedAt : String
deriving DecidableEq

/-- A window that is known at both ends does not end before it starts. -/
def windowOrdered (validFrom validTo : Option String) : Bool :=
  match validFrom, validTo with
  | some start, some stop => start ≤ stop
  | _, _ => true

/-- The demands of `facts`. -/
def factSchema : Schema FactRow FactId where
  check row := (row.objectId.isNone != row.objectValue.isNone) && row.confidence.value.inUnit &&
    windowOrdered row.validFrom row.validTo
  entries row := [row.id]

/-- The data tables. -/
structure Tables where
  items : Table itemSchema
  itemTags : Table tagSchema
  entities : Table entitySchema
  facts : Table factSchema

namespace Tables

/-- An item with this id is stored. -/
def hasItem (tables : Tables) (id : ItemId) : Bool := (tables.items.find (.id id)).isSome

/-- An entity with this id is stored. -/
def hasEntity (tables : Tables) (id : EntityId) : Bool := (tables.entities.find (.id id)).isSome

/-- A fact with this id is stored. -/
def hasFact (tables : Tables) (id : FactId) : Bool := (tables.facts.find id).isSome

/-- Every foreign key points to a stored row. -/
structure References (tables : Tables) : Prop where
  itemSupersedes : ∀ row ∈ tables.items.rows, ∀ id ∈ row.supersedes, tables.hasItem id
  tagItem : ∀ row ∈ tables.itemTags.rows, tables.hasItem row.itemId
  subject : ∀ row ∈ tables.facts.rows, tables.hasEntity row.subjectId
  object : ∀ row ∈ tables.facts.rows, ∀ id ∈ row.objectId, tables.hasEntity id
  sourceItem : ∀ row ∈ tables.facts.rows, ∀ id ∈ row.sourceItemId, tables.hasItem id
  supersedes : ∀ row ∈ tables.facts.rows, ∀ id ∈ row.supersedes, tables.hasFact id

instance (tables : Tables) : Decidable tables.References :=
  decidable_of_iff
    ((∀ row ∈ tables.items.rows, ∀ id ∈ row.supersedes, tables.hasItem id) ∧
      (∀ row ∈ tables.itemTags.rows, tables.hasItem row.itemId) ∧
      (∀ row ∈ tables.facts.rows, tables.hasEntity row.subjectId) ∧
      (∀ row ∈ tables.facts.rows, ∀ id ∈ row.objectId, tables.hasEntity id) ∧
      (∀ row ∈ tables.facts.rows, ∀ id ∈ row.sourceItemId, tables.hasItem id) ∧
      ∀ row ∈ tables.facts.rows, ∀ id ∈ row.supersedes, tables.hasFact id)
    ⟨fun ⟨a, b, c, d, e, f⟩ => ⟨a, b, c, d, e, f⟩, fun ⟨a, b, c, d, e, f⟩ => ⟨a, b, c, d, e, f⟩⟩

end Tables

/-- The tables between transactions: every foreign key holds. -/
structure Database where
  tables : Tables
  references : tables.References

/-- The database of a fresh store. -/
def Database.fresh : Database :=
  ⟨⟨.empty, .empty, .empty, .empty⟩, by constructor <;> simp [Table.empty]⟩

end Singularmem.Core
