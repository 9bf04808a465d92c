import Singularmem.Core.Text
import Singularmem.Library.SqlCatalog

/-!
# The schema and its migrations

The statements that create the current schema, those of each migration, and the schema of
format version 1. A migration runs in one transaction, which reads the version again and
does nothing where another process has already moved the store past it. Creating the schema
of a new file does the same.
-/

namespace Singularmem.Core

open Library.Sql

/-- A value of a column. -/
inductive SqlValue
  | text (value : String)
  | real (value : Confidence)
deriving DecidableEq

/-- A database. -/
abbrev Catalog := Library.Sql.Catalog SqlValue

namespace Migration

/-- A `TEXT` column. -/
def text (name : String) : Column SqlValue := ⟨name, "TEXT", false, none⟩

/-- A `TEXT NOT NULL` column. -/
def textNotNull (name : String) : Column SqlValue := ⟨name, "TEXT", true, none⟩

/-- An index that holds the rows where its column is not `NULL`. -/
def partialIndex (name table column : String) : Statement SqlValue :=
  .createIndex ⟨name, table, [column], false, some column⟩

/-- The statements of the 1 → 2 migration. -/
def migrate1To2Ddl : List (Statement SqlValue) :=
  [.addColumn "items" (text "external_id"),
    .createIndex ⟨"idx_items_external_id", "items", ["external_id"], true, some "external_id"⟩]

/-- The statements of the 2 → 3 migration. -/
def migrate2To3Ddl : List (Statement SqlValue) :=
  [.addColumn "items" (text "scope"), partialIndex "idx_items_scope" "items" "scope"]

/-- The table of entities. -/
def entitiesTable : TableDef SqlValue where
  name := "entities"
  columns := [textNotNull "id", textNotNull "name", textNotNull "normalised_name", text "kind",
    textNotNull "created_at"]
  primaryKey := ["id"]
  constraints := ["CHECK (length(name) > 0)", "STRICT"]

/-- The table of facts. -/
def factsTable : TableDef SqlValue where
  name := "facts"
  columns := [textNotNull "id", textNotNull "subject_id", textNotNull "predicate", text "object_id",
    text "object_value", text "valid_from", text "valid_to",
    ⟨"confidence", "REAL", true, some (.real .one)⟩, text "source_item_id", text "scope",
    text "supersedes", textNotNull "recorded_at"]
  primaryKey := ["id"]
  constraints := ["FOREIGN KEY (subject_id) REFERENCES entities(id)",
    "FOREIGN KEY (object_id) REFERENCES entities(id)",
    "FOREIGN KEY (source_item_id) REFERENCES items(id) DEFERRABLE INITIALLY DEFERRED",
    "FOREIGN KEY (supersedes) REFERENCES facts(id) DEFERRABLE INITIALLY DEFERRED",
    "CHECK ((object_id IS NULL) <> (object_value IS NULL))",
    "CHECK (confidence >= 0.0 AND confidence <= 1.0)",
    "CHECK (valid_to IS NULL OR valid_from IS NULL OR valid_to >= valid_from)", "STRICT"]

/-- The statements of the 3 → 4 migration. -/
def migrate3To4Ddl : List (Statement SqlValue) :=
  [.createTable entitiesTable,
    .createIndex ⟨"idx_entities_identity", "entities", ["normalised_name"], true, none⟩,
    .createTable factsTable,
    .createIndex ⟨"idx_facts_subject", "facts", ["subject_id"], false, none⟩,
    partialIndex "idx_facts_object" "facts" "object_id",
    .createIndex ⟨"idx_facts_predicate", "facts", ["predicate"], false, none⟩,
    partialIndex "idx_facts_supersedes" "facts" "supersedes",
    partialIndex "idx_facts_scope" "facts" "scope"]

/-- The table of meta rows. -/
def metaTable : TableDef SqlValue where
  name := "singularmem_meta"
  columns := [textNotNull "key", textNotNull "value"]
  primaryKey := ["key"]
  constraints := ["STRICT"]

/-- The table of items, without its later columns or with them. -/
def itemsTable (later : List (Column SqlValue)) : TableDef SqlValue where
  name := "items"
  columns := [textNotNull "id", textNotNull "content", textNotNull "created_at", text "supersedes",
    text "source", ⟨"metadata", "TEXT", true, some (.text "{}")⟩] ++ later
  primaryKey := ["id"]
  constraints := ["FOREIGN KEY (supersedes) REFERENCES items(id) DEFERRABLE INITIALLY DEFERRED",
    "CHECK (length(content) > 0)", "CHECK (length(content) <= 1048576)",
    "CHECK (json_valid(metadata) AND json_type(metadata) = 'object')", "STRICT"]

/-- The table of tags. -/
def itemTagsTable : TableDef SqlValue where
  name := "item_tags"
  columns := [textNotNull "item_id", textNotNull "tag"]
  primaryKey := ["item_id", "tag"]
  constraints := ["FOREIGN KEY (item_id) REFERENCES items(id) ON DELETE CASCADE", "STRICT"]

/-- The indexes that every version has. -/
def firstIndexes : List IndexDef :=
  [⟨"idx_items_created_at", "items", ["created_at"], false, none⟩,
    ⟨"idx_items_supersedes", "items", ["supersedes"], false, some "supersedes"⟩,
    ⟨"idx_item_tags_tag", "item_tags", ["tag"], false, none⟩]

/-- The statements that create the current schema. -/
def ddlV4 : List (Statement SqlValue) :=
  [.createTable metaTable, .createTable (itemsTable [text "external_id", text "scope"]),
    .createTable itemTagsTable] ++ firstIndexes.map .createIndex ++
  [.createIndex ⟨"idx_items_external_id", "items", ["external_id"], true, some "external_id"⟩,
    partialIndex "idx_items_scope" "items" "scope",
    .createTable entitiesTable,
    .createIndex ⟨"idx_entities_identity", "entities", ["normalised_name"], true, none⟩,
    .createTable factsTable,
    .createIndex ⟨"idx_facts_subject", "facts", ["subject_id"], false, none⟩,
    partialIndex "idx_facts_object" "facts" "object_id",
    .createIndex ⟨"idx_facts_predicate", "facts", ["predicate"], false, none⟩,
    partialIndex "idx_facts_supersedes" "facts" "supersedes",
    partialIndex "idx_facts_scope" "facts" "scope"]

/-- The documented schema of format version 1. -/
def schemaV1 : Schema SqlValue := ⟨[metaTable, itemsTable [], itemTagsTable], firstIndexes⟩

/-- The current format version. -/
def formatVersion : String := "4"

/-- The errors of opening a store. -/
inductive OpenError
  | migration («from» «to» : String) (reason : Refusal)
  | sqlite (context : String) (reason : Refusal)
  | unsupportedFormatVersion (found : String)
deriving DecidableEq

/-- Read the `format_version` meta row. A database without the table has none. -/
def readFormatVersion (catalog : Catalog) : Option String :=
  match catalog.schema.table "singularmem_meta" with
  | none => none
  | some table =>
    (catalog.rows "singularmem_meta").findSome? fun row =>
      if table.value row "key" = some (.text "format_version") then
        match table.value row "value" with
        | some (.text version) => some version
        | _ => none
      else none

/-- Which SQL calls of a transaction fail for a reason outside the database: its begin, its
read of the version, its end, and each statement in between. -/
structure Interruptions where
  begins : Bool
  reads : Bool
  ends : Bool
  statement : Nat → Bool

/-- Nothing interrupts the transaction. -/
def Interruptions.none : Interruptions := ⟨false, false, false, fun _ => false⟩

/-- The SQL calls of a transaction that may fail. -/
inductive Phase
  | begins | reads | rollsBack
  /-- A statement, by its place. -/
  | works (place : Nat)
  | commits

/-- Run a transaction that does its work only where the version read inside is the expected
one. An error rolls it back; so does another version, without an error. -/
def guarded (interruptions : Interruptions) (expected : Option String)
    (work : List (Statement SqlValue)) (fail : Phase → Refusal → OpenError) (catalog : Catalog) :
    Except OpenError Unit × Catalog :=
  if interruptions.begins then (.error (fail .begins .interrupted), catalog)
  else if interruptions.reads then (.error (fail .reads .interrupted), catalog)
  else if readFormatVersion catalog ≠ expected then
    (if interruptions.ends then .error (fail .rollsBack .interrupted) else .ok ⟨⟩, catalog)
  else
    match catalog.executeAll interruptions.statement work with
    | .error (place, refusal) => (.error (fail (.works place) refusal), catalog)
    | .ok after =>
      if interruptions.ends then (.error (fail .commits .interrupted), catalog) else (.ok ⟨⟩, after)

/-- Write the format version. -/
def setFormatVersion (version : String) : Statement SqlValue :=
  .update "singularmem_meta" "value" (.text version) "key" (.text "format_version")

/-- Run a single-step format migration. -/
def runMigration (interruptions : Interruptions) («from» «to» : String)
    (ddl : List (Statement SqlValue)) : Catalog → Except OpenError Unit × Catalog :=
  guarded interruptions (some «from») (ddl ++ [setFormatVersion «to»]) fun _ => .migration «from» «to»

/-- Apply the 1 → 2 migration. -/
def migrate1To2 (interruptions : Interruptions) : Catalog → Except OpenError Unit × Catalog :=
  runMigration interruptions "1" "2" migrate1To2Ddl

/-- Apply the 2 → 3 migration. -/
def migrate2To3 (interruptions : Interruptions) : Catalog → Except OpenError Unit × Catalog :=
  runMigration interruptions "2" "3" migrate2To3Ddl

/-- Apply the 3 → 4 migration. -/
def migrate3To4 (interruptions : Interruptions) : Catalog → Except OpenError Unit × Catalog :=
  runMigration interruptions "3" "4" migrate3To4Ddl

/-- The statements that set up a new file. -/
def bootstrap (createdAt : String) : List (Statement SqlValue) :=
  ddlV4 ++ [.insert "singularmem_meta" [some (.text "format_version"), some (.text formatVersion)],
    .insert "singularmem_meta" [some (.text "created_at"), some (.text createdAt)]]

/-- What setting up a new file was doing. -/
def bootstrapContext : Phase → String
  | .begins => "beginning fresh-store bootstrap transaction"
  | .reads => "preparing format_version query"
  | .rollsBack => "rolling back a bootstrap another process already did"
  | .works place =>
    if place < ddlV4.length then "applying v4 schema"
    else if place = ddlV4.length then "writing format_version meta row"
    else "writing created_at meta row"
  | .commits => "committing fresh-store bootstrap"

/-- Apply the current schema to a new file. -/
def applyCurrent (interruptions : Interruptions) (createdAt : String) :
    Catalog → Except OpenError Unit × Catalog :=
  guarded interruptions none (bootstrap createdAt) fun phase => .sqlite (bootstrapContext phase)

/-- The transactions an open may run. -/
inductive Upgrade
  | fresh | oneToTwo | twoToThree | threeToFour
deriving DecidableEq

/-- What an open does about the version it read outside any transaction. -/
def plan : Option String → Except OpenError (List Upgrade)
  | none => .ok [.fresh]
  | some version =>
    if version = formatVersion then .ok []
    else if version = "1" then .ok [.oneToTwo, .twoToThree, .threeToFour]
    else if version = "2" then .ok [.twoToThree, .threeToFour]
    else if version = "3" then .ok [.threeToFour]
    else .error (.unsupportedFormatVersion version)

/-- Run one transaction of an open. -/
def Upgrade.run (interruptions : Interruptions) (now : String) :
    Upgrade → Catalog → Except OpenError Unit × Catalog
  | .fresh => applyCurrent interruptions now
  | .oneToTwo => migrate1To2 interruptions
  | .twoToThree => migrate2To3 interruptions
  | .threeToFour => migrate3To4 interruptions

end Migration

end Singularmem.Core
