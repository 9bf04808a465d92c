import Singularmem.Graph.Read

/-!
# Summaries of the graph

The timeline, the counts over the graph, and the listing of entities. Each is a statement of
its own, with its own joins and its own copies of the shared read predicate.
-/

namespace Singularmem.Graph

open Library Singularmem.Core

variable (platform : Platform)

/-- Most rows a timeline returns. -/
def timelineLimit : Nat := 500

/-- A fact, and whether it is the current, open head. -/
structure TimelineEntry where
  fact : Fact
  current : Bool
deriving DecidableEq

/-- Aggregate counts over the graph. -/
structure GraphStats where
  entities : Nat
  openFacts : Nat
  closedFacts : Nat
  predicates : Nat
deriving DecidableEq

/-- An entity. -/
structure Entity where
  id : EntityId
  name : String
  normalisedName : String
  kind : Option String
  createdAt : Timestamp
deriving DecidableEq

/-- An entity and how many facts reference it. -/
structure EntitySummary where
  entity : Entity
  factCount : Nat
deriving DecidableEq

/-- A query that carries nothing but a scope filter. -/
def scopeOnly (scope : Option ScopeFilter) : GraphQuery := ⟨scope, none, none, .both⟩

/-- A row comes before another by the start of its validity, an unknown one first, then by its
record time, then by its id. -/
def sinceBefore (left right : FactRow) : Bool :=
  let recordedBefore : Bool := left.recordedAt < right.recordedAt ||
    (left.recordedAt = right.recordedAt && left.id.ulid ≤ right.id.ulid)
  match left.validFrom, right.validFrom with
  | none, none => recordedBefore
  | none, some _ => true
  | some _, none => false
  | some leftStart, some rightStart =>
    leftStart < rightStart || (leftStart = rightStart && recordedBefore)

/-- Rows in the order of their validity. -/
def bySince (rows : List FactRow) : List FactRow :=
  rows.insertionSort fun left right => sinceBefore left right

/-- Join selected rows, and parse as many as a limit lets through. -/
def selectFirst (tables : Tables) (limit : Nat) (rows : List FactRow) : Except Error (List Fact) :=
  ((rows.filterMap (joinNames tables)).take limit).mapM (RawFact.intoFact platform)

/-- Head revisions, open and closed, in the order of their validity. -/
def timeline (tables : Tables) (entity : Option String) (scope : Option ScopeFilter) :
    Except Error (List TimelineEntry) := do
  let filter := factWhere tables (scopeOnly scope) .anyHead
  let ids ← entity.mapM (entityIdsByName platform tables)
  if ids = some [] then return []
  let facts ← selectFirst platform tables timelineLimit (bySince (tables.facts.rows.filter
    fun row => filter row && ids.all fun ids => directionClause .both ids row))
  return facts.map fun fact => ⟨fact, fact.validTo.isNone⟩

/-- A fact that matches a filter touches an entity. -/
def touches (id : EntityId) (filter : FactRow → Bool) (row : FactRow) : Bool :=
  (row.subjectId = id || row.objectId = some id) && filter row

/-- The number of facts that match a filter and touch an entity. -/
def factCountSubquery (tables : Tables) (filter : FactRow → Bool) (id : EntityId) : Nat :=
  (tables.facts.rows.filter (touches id filter)).length

/-- Counts over head revisions. With a scope filter only the entities that take part in a
fact in scope are counted. -/
def graphStats (tables : Tables) (scope : Option ScopeFilter) : GraphStats where
  entities :=
    if scope.isSome then
      (tables.entities.rows.filter fun entity => tables.facts.rows.any
        (touches entity.id (factWhere tables (scopeOnly scope) .anyHead))).length
    else tables.entities.rows.length
  openFacts := (tables.facts.rows.filter fun row =>
    factWhere tables (scopeOnly scope) .anyHead row && row.validTo.isNone).length
  closedFacts := (tables.facts.rows.filter fun row =>
    factWhere tables (scopeOnly scope) .anyHead row && row.validTo.isSome).length
  predicates := ((tables.facts.rows.filter
    (factWhere tables (scopeOnly scope) .anyHead)).map FactRow.predicate).dedup.length

/-- Parse the creation time of an entity. -/
def intoEntity (row : EntityRow) : Except Error Entity := do
  return ⟨row.id, row.name, row.normalisedName, row.kind, ← parsePoint platform row.createdAt⟩

/-- Entities by normalised name, each with the number of head facts it takes part in. With a
scope filter only those that take part in a fact in scope are listed. -/
def entities (tables : Tables) (scope : Option ScopeFilter) (kind : Option String) :
    Except Error (List EntitySummary) :=
  let filter := factWhere tables (scopeOnly scope) .anyHead
  let listed := tables.entities.rows.filter fun entity =>
    kind.all (entity.kind = some ·) &&
      (scope.isNone || tables.facts.rows.any (touches entity.id filter))
  (listed.insertionSort fun left right => left.normalisedName ≤ right.normalisedName).mapM
    fun row => do
      let entity ← intoEntity platform row
      return ⟨entity, factCountSubquery tables filter row.id⟩

end Singularmem.Graph
