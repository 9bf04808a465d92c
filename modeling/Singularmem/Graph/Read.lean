import Singularmem.Graph.Facts

/-!
# Graph reads

Entity and predicate queries, and the load of one fact. A query selects rows of `facts`,
joins the names of their entities, and parses what it selected; one predicate holds the
rules of the two time axes for every read.
-/

namespace Singularmem.Graph

open Library Singularmem.Core

variable (platform : Platform)

/-- Which fact revisions a read sees. -/
inductive Validity
  /-- The validity window of the query. -/
  | window
  /-- Every head revision, open and closed alike. -/
  | anyHead
deriving DecidableEq

/-- A fact as the tables keep it, with the names of its entities. -/
structure RawFact where
  row : FactRow
  subjectName : String
  objectName : Option String
deriving DecidableEq

/-- The name of an entity. -/
def entityNameOf (tables : Tables) (id : EntityId) : Option String :=
  (tables.entities.find (.id id)).map EntityRow.name

/-- Join a row with the names of its entities. A row without a subject is dropped. -/
def joinNames (tables : Tables) (row : FactRow) : Option RawFact :=
  (entityNameOf tables row.subjectId).map fun subjectName =>
    ⟨row, subjectName, row.objectId.bind (entityNameOf tables)⟩

/-- A row supersedes this one, among the rows a condition admits. -/
def supersededBy (tables : Tables) (id : FactId) (admits : FactRow → Bool) : Bool :=
  tables.facts.rows.any fun newer => newer.supersedes = some id && admits newer

/-- Head selection: nothing supersedes the row or, at a record time, the row and no
revision of it were recorded by then. -/
def recordedWhere (tables : Tables) (recordedAt : Option Timestamp) (row : FactRow) : Bool :=
  match recordedAt with
  | some time => row.recordedAt ≤ toSql time &&
      !supersededBy tables row.id fun newer => newer.recordedAt ≤ toSql time
  | none => !supersededBy tables row.id fun _ => true

/-- The validity window: half-open around an instant, else open facts only. -/
def windowWhere (asOf : Option Timestamp) (row : FactRow) : Bool :=
  match asOf with
  | some time => row.validFrom.all (· ≤ toSql time) && row.validTo.all (toSql time < ·)
  | none => row.validTo.isNone

/-- The shared read predicate: head selection, the two time axes, and scope. -/
def factWhere (tables : Tables) (query : GraphQuery) (validity : Validity) (row : FactRow) : Bool :=
  recordedWhere tables query.recordedAt row &&
    (validity = .anyHead || windowWhere query.asOf row) &&
    query.scope.all fun filter => filter.sqlClause row.scope

/-- The object of a row. -/
def RawFact.object (raw : RawFact) : Except Error FactObject :=
  match raw.row.objectId, raw.row.objectValue with
  | some id, _ => .ok (.entity ⟨id, raw.objectName.getD ""⟩)
  | none, some text => .ok (.value text)
  | none, none => .error (.validation "object"
      ("fact " ++ raw.row.id.ulid.display ++ " has neither object_id nor object_value"))

/-- Parse the times of a row into a fact. -/
def RawFact.intoFact (raw : RawFact) : Except Error Fact := do
  let object ← raw.object
  let validFrom ← raw.row.validFrom.mapM (parsePoint platform)
  let validTo ← raw.row.validTo.mapM (parsePoint platform)
  let recordedAt ← parsePoint platform raw.row.recordedAt
  return {
    id := raw.row.id
    subject := ⟨raw.row.subjectId, raw.subjectName⟩
    predicate := raw.row.predicate
    object := object
    validFrom := validFrom
    validTo := validTo
    confidence := raw.row.confidence.value
    sourceItemId := raw.row.sourceItemId
    scope := raw.row.scope
    supersedes := raw.row.supersedes
    recordedAt := recordedAt }

/-- Rows in the order of their record times, then of their ids. -/
def chronological (rows : List FactRow) : List FactRow :=
  rows.insertionSort fun left right =>
    left.recordedAt < right.recordedAt ∨
      (left.recordedAt = right.recordedAt ∧ left.id.ulid ≤ right.id.ulid)

/-- Join and parse selected rows. -/
def selectFacts (tables : Tables) (rows : List FactRow) : Except Error (List Fact) :=
  (rows.filterMap (joinNames tables)).mapM (RawFact.intoFact platform)

/-- Load one fact by id. -/
def loadFact (tables : Tables) (id : FactId) : Except Error (Option Fact) := do
  let facts ← selectFacts platform tables (tables.facts.rows.filter fun row => row.id = id)
  return facts.getLast?

/-- Ids of every entity with this name, once normalised. -/
def entityIdsByName (tables : Tables) (name : String) : Except Error (List EntityId) := do
  let normalised ← Normalise.entityName platform name
  return (((tables.entities.rows.filter fun row => row.normalisedName = normalised).map
    EntityRow.id).insertionSort fun left right => left.ulid ≤ right.ulid)

/-- The side of a fact on which the entities of a query stand. -/
def directionClause (direction : Direction) (ids : List EntityId) (row : FactRow) : Bool :=
  let subject := row.subjectId ∈ ids
  let object := row.objectId.any (· ∈ ids)
  match direction with
  | .outgoing => subject
  | .incoming => object
  | .both => subject || object

/-- Facts on whose side of the query one of these entities stands. -/
def factsTouching (tables : Tables) (ids : List EntityId) (query : GraphQuery) :
    Except Error (List Fact) :=
  if ids = [] then .ok []
  else selectFacts platform tables (chronological (tables.facts.rows.filter fun row =>
    directionClause query.direction ids row && factWhere tables query .window row))

/-- Facts where the named entity is the subject, the object, or either, oldest recorded
first. -/
def queryEntity (tables : Tables) (name : String) (query : GraphQuery) :
    Except Error (List Fact) := do
  let ids ← entityIdsByName platform tables name
  factsTouching platform tables ids query

/-- Every fact with a predicate, oldest recorded first. -/
def queryPredicate (tables : Tables) (predicate : String) (query : GraphQuery) :
    Except Error (List Fact) := do
  let normalised ← Normalise.predicate platform predicate
  selectFacts platform tables (chronological (tables.facts.rows.filter fun row =>
    row.predicate = normalised && factWhere tables query .window row))

end Singularmem.Graph
