import Singularmem.Core.JsonText
import Singularmem.Core.Listings
import Singularmem.Graph.Summaries

/-!
# Exports

An export writes a store line by line: what it is, then every item, every entity and every
revision of every fact, each as a JSON object that names its kind. What says nothing is left
out. The identifiers of the items, each item, the entities and the facts are read one after
the other, and other writers may come in between.
-/

namespace Singularmem.Graph

open Library Singularmem.Core

/-- How JSON writes a number of single precision, and how it is read. -/
structure Decimals where
  write : Confidence → String
  read : String → Option Confidence

variable (platform : Platform) (decimals : Decimals)

/-- The format of the store. -/
def formatVersion : String := "4"

/-- The format of the export. -/
def exportFormat : String := "export-v2"

/-- A member that is left out where there is nothing to say. -/
def unlessNone (name : String) (value : Option Json) : List (String × Json) :=
  (value.map fun value => (name, value)).toList

/-- An instant as JSON. -/
def timestampJson (instant : Timestamp) : Json := .string (platform.displayTime instant)

/-- The tags of an item, unless there are none. -/
def tagsJson (tags : List String) : Option Json :=
  if tags.isEmpty then none else some (.array (tags.map Json.string))

/-- The metadata of an item, unless it is the empty object. -/
def metadataJson : Json → Option Json
  | .object [] => none
  | metadata => some metadata

/-- The first line. -/
def exportMeta (exportedAt : Timestamp) : Json :=
  .object [("_singularmem_format", .string exportFormat), ("_kind", .string "meta"),
    ("store_format_version", .string formatVersion),
    ("exported_at", timestampJson platform exportedAt)]

/-- The line of an item. -/
def exportItem (item : Item) : Json :=
  .object ([("_kind", .string "item"), ("id", .string item.id.ulid.display),
      ("content", .string item.content), ("created_at", timestampJson platform item.createdAt)] ++
    unlessNone "supersedes" (item.supersedes.map fun id => .string id.ulid.display) ++
    unlessNone "tags" (tagsJson item.tags) ++ unlessNone "source" (item.source.map .string) ++
    unlessNone "metadata" (metadataJson item.metadata) ++
    unlessNone "external_id" (item.externalId.map .string) ++
    unlessNone "scope" (item.scope.map .string))

/-- The line of an entity. -/
def exportEntity (entity : Entity) : Json :=
  .object ([("_kind", .string "entity"), ("id", .string entity.id.ulid.display),
      ("name", .string entity.name), ("normalised_name", .string entity.normalisedName)] ++
    unlessNone "kind" (entity.kind.map .string) ++
    [("created_at", timestampJson platform entity.createdAt)])

/-- A reference to an entity as JSON. -/
def entityRefJson (ref : EntityRef) : Json :=
  .object [("id", .string ref.id.ulid.display), ("name", .string ref.name)]

/-- The object of a fact as JSON. -/
def factObjectJson : FactObject → Json
  | .entity ref => .object [("entity", entityRefJson ref)]
  | .value text => .object [("value", .string text)]

/-- The line of a fact revision. -/
def exportFact (fact : Fact) : Json :=
  .object ([("_kind", .string "fact"), ("id", .string fact.id.ulid.display),
      ("subject", entityRefJson fact.subject), ("predicate", .string fact.predicate),
      ("object", factObjectJson fact.object)] ++
    unlessNone "valid_from" (fact.validFrom.map (timestampJson platform)) ++
    unlessNone "valid_to" (fact.validTo.map (timestampJson platform)) ++
    [("confidence", .number (decimals.write fact.confidence))] ++
    unlessNone "source_item_id" (fact.sourceItemId.map fun id => .string id.ulid.display) ++
    unlessNone "scope" (fact.scope.map .string) ++
    unlessNone "supersedes" (fact.supersedes.map fun id => .string id.ulid.display) ++
    [("recorded_at", timestampJson platform fact.recordedAt)])

/-- Entities by their creation, then by their identifiers. -/
def byEntityCreation (entities : List Entity) : List Entity :=
  entities.insertionSort fun left right =>
    left.createdAt < right.createdAt ∨
      (left.createdAt = right.createdAt ∧ left.id.ulid ≤ right.id.ulid)

/-- Every entity, the oldest first. -/
def exportedEntities (tables : Tables) : Except Error (List Entity) := do
  let summaries ← entities platform tables none none
  return byEntityCreation (summaries.map EntitySummary.entity)

/-- Every fact revision, in the order of their record times. -/
def allFactsChronological (tables : Tables) : Except Error (List Fact) :=
  selectFacts platform tables (chronological tables.facts.rows)

/-- The lines of a part that is read at once. -/
def sectionLines {α : Type} (line : α → Json) : Except Error (List α) → List (Except Error Json)
  | .error error => [.error error]
  | .ok entries => entries.map fun entry => .ok (line entry)

/-- The items of an export: they are listed first, then loaded one by one. -/
def itemsAt (moments : Nat → Tables) : List (Except Error Item) :=
  (listedIds (moments 0) [] none).zipIdx.map fun entry =>
    loadItem platform (moments (entry.2 + 1)) entry.1

/-- The lines of an export, up to what cannot be read. At each moment it reads what the tables
then hold. -/
def exportLines (now : Timestamp) (moments : Nat → Tables) : List (Except Error Json) :=
  let items := itemsAt platform moments
  .ok (exportMeta platform now) ::
    (items.map fun item => item.map (exportItem platform)) ++
    sectionLines (exportEntity platform) (exportedEntities platform (moments (items.length + 1))) ++
    sectionLines (exportFact platform decimals)
      (allFactsChronological platform (moments (items.length + 2)))

/-- Write lines until one cannot be read. -/
def writeLines : List (Except Error Json) → List Char × Except Error Unit
  | [] => ([], .ok ())
  | .error error :: _ => ([], .error error)
  | .ok line :: lines =>
    let (text, ended) := writeLines lines
    (line.write ++ '\n' :: text, ended)

/-- Export a store: the text that was written, and how it ended. -/
def exportStore (now : Timestamp) (moments : Nat → Tables) : String × Except Error Unit :=
  let (text, ended) := writeLines (exportLines platform decimals now moments)
  (String.ofList text, ended)

/-- One line of an export. -/
inductive Record
  | item (item : Item)
  | entity (entity : Entity)
  | fact (fact : Fact)
  | unknown

namespace Record

/-- The item of a line. -/
def asItem : Record → Option Item
  | .item read => some read
  | _ => none

/-- The entity of a line. -/
def asEntity : Record → Option Entity
  | .entity read => some read
  | _ => none

/-- The fact revision of a line. -/
def asFact : Record → Option Fact
  | .fact read => some read
  | _ => none

end Record

/-- What an export says. -/
structure Archive where
  items : List Item
  entities : List Entity
  facts : List Fact

/-- A member that has to be there. -/
def demanded {α : Type} (json : Json) (name : String) (parse : Json → Option α) : Option α :=
  (json.get name).bind parse

/-- A member that may be absent, or null. -/
def offered {α : Type} (json : Json) (name : String) (parse : Json → Option α) :
    Option (Option α) :=
  match json.get name with
  | none | some .null => some none
  | some value => (parse value).map some

/-- Read an identifier. -/
def ulidOf (json : Json) : Option Ulid := json.asStr.bind Ulid.fromString

/-- Read an instant. -/
def timestampOf (json : Json) : Option Timestamp := json.asStr.bind platform.parseTimestamp

/-- Read a number of single precision. -/
def confidenceOf : Json → Option Confidence
  | .number digits => decimals.read digits
  | _ => none

/-- Read tags. -/
def tagsOfJson (json : Json) : Option (List String) :=
  json.asArray.bind fun elements => elements.mapM Json.asStr

/-- Read the line of an item. Absent tags are none, absent metadata is the empty object. -/
def itemOf (json : Json) : Option Item := do
  let id ← demanded json "id" ulidOf
  let content ← demanded json "content" Json.asStr
  let createdAt ← demanded json "created_at" (timestampOf platform)
  let supersedes ← offered json "supersedes" ulidOf
  let tags ← offered json "tags" tagsOfJson
  let source ← offered json "source" Json.asStr
  let externalId ← offered json "external_id" Json.asStr
  let scope ← offered json "scope" Json.asStr
  return ⟨⟨id⟩, content, createdAt, supersedes.map ItemId.mk, tags.getD [], source,
    (json.get "metadata").getD (.object []), externalId, scope⟩

/-- Read the line of an entity. -/
def entityOf (json : Json) : Option Entity := do
  let id ← demanded json "id" ulidOf
  let name ← demanded json "name" Json.asStr
  let normalisedName ← demanded json "normalised_name" Json.asStr
  let kind ← offered json "kind" Json.asStr
  let createdAt ← demanded json "created_at" (timestampOf platform)
  return ⟨⟨id⟩, name, normalisedName, kind, createdAt⟩

/-- Read a reference to an entity. -/
def entityRefOf (json : Json) : Option EntityRef := do
  let id ← demanded json "id" ulidOf
  let name ← demanded json "name" Json.asStr
  return ⟨⟨id⟩, name⟩

/-- Read the object of a fact: an entity, or else a value. -/
def factObjectOf (json : Json) : Option FactObject :=
  match json.get "entity" with
  | some ref => (entityRefOf ref).map .entity
  | none => (demanded json "value" Json.asStr).map .value

/-- Read the line of a fact revision. -/
def factOf (json : Json) : Option Fact := do
  let id ← demanded json "id" ulidOf
  let subject ← demanded json "subject" entityRefOf
  let predicate ← demanded json "predicate" Json.asStr
  let object ← demanded json "object" factObjectOf
  let validFrom ← offered json "valid_from" (timestampOf platform)
  let validTo ← offered json "valid_to" (timestampOf platform)
  let confidence ← demanded json "confidence" (confidenceOf decimals)
  let sourceItemId ← offered json "source_item_id" ulidOf
  let scope ← offered json "scope" Json.asStr
  let supersedes ← offered json "supersedes" ulidOf
  let recordedAt ← demanded json "recorded_at" (timestampOf platform)
  return {
    id := ⟨id⟩, subject, predicate, object, validFrom, validTo, confidence
    sourceItemId := sourceItemId.map ItemId.mk
    scope
    supersedes := supersedes.map FactId.mk
    recordedAt }

/-- Read a line. Kinds the loader does not know are ignored. -/
def recordOf (knows : String → Bool) (json : Json) : Option Record := do
  let kind ← demanded json "_kind" Json.asStr
  if !knows kind then return .unknown
  if kind = "item" then return .item (← itemOf platform json)
  if kind = "entity" then return .entity (← entityOf platform json)
  if kind = "fact" then return .fact (← factOf platform decimals json)
  return .unknown

/-- The lines of a text, without their ends. -/
def exportedLines (text : List Char) : List (List Char) :=
  (text.splitOn '\n').filter (· ≠ [])

/-- Load an export. -/
def load (knows : String → Bool) (text : String) : Option Archive := do
  let lines ← (exportedLines text.toList).mapM Json.ofText
  let records ← lines.mapM (recordOf platform decimals knows)
  return {
    items := records.filterMap Record.asItem
    entities := records.filterMap Record.asEntity
    facts := records.filterMap Record.asFact }

end Singularmem.Graph
