import Singularmem.Core.Query

/-!
# Item writes

`ingest`, `ingestMany`, `ingestReplacing` and `setScope`. Each validates its arguments
before the database is touched and writes in one transaction. A row never changes but in
two ways: a replaced row gives up its `external_id`, and a row moves to another scope.
-/

namespace Singularmem.Core

open Library
open Effect hiding ofExcept

variable (platform : Platform)

/-- Map a refused insertion: a taken `external_id` is a conflict. -/
def mapInsertErr (externalId : Option String) : Violation ItemKey → Error
  | .taken (.externalId _) => .externalIdConflict (externalId.getD "")
  | .taken (.id _) => .sqlite "inserting item row" (.unique "items.id")
  | .check => .sqlite "inserting item row" (.check "items")

/-- The row of a validated submission. -/
def itemRowOf (env : Env) (id : ItemId) (item : NewItem) (scope : Option String) : ItemRow :=
  ⟨id, item.content, platform.displayTime env.now, item.supersedes, item.source, item.metadata,
    item.externalId, scope⟩

/-- Insert tags one after the other. -/
def insertTags (id : ItemId) : List String → Tx PUnit
  | [] => pure ⟨⟩
  | tag :: rest => do
    let pending ← get
    match pending.tables.itemTags.insert ⟨id, tag⟩ with
    | .error _ => throw (.sqlite "inserting item tag" (.unique "item_tags.item_id, item_tags.tag"))
    | .ok itemTags => do
      setTables { pending.tables with itemTags }
      insertTags id rest

/-- Insert one item row and its tags. -/
def insertItemRow (env : Env) (id : ItemId) (item : NewItem) (validated : Validated) : Tx PUnit := do
  let pending ← get
  match pending.tables.items.insert (itemRowOf platform env id item validated.scope) with
  | .error violation => throw (mapInsertErr item.externalId violation)
  | .ok items => do
    setTables { pending.tables with items }
    insertTags id validated.tags

/-- The stored form of a submission. -/
def storedItem (env : Env) (id : ItemId) (item : NewItem) (validated : Validated) : Item :=
  ⟨id, item.content, env.now, item.supersedes, validated.tags, item.source, item.metadata,
    item.externalId, validated.scope⟩

/-- Check that the target of `supersedes` exists. -/
def checkSupersedes (supersedes : Option ItemId) : Tx PUnit := do
  let pending ← get
  match supersedes with
  | none => pure ⟨⟩
  | some target => throwIf (!pending.tables.hasItem target) (.supersedesNotFound target)

/-- The transaction of `ingest`. -/
def ingestInTx (env : Env) (item : NewItem) : Tx Item := do
  let validated ← Effect.ofExcept (validate platform item)
  let ulid ← mintRawUlid env
  checkSupersedes item.supersedes
  insertItemRow platform env ⟨ulid⟩ item validated
  return storedItem env ⟨ulid⟩ item validated

/-- Validate and persist a new item. -/
def ingest (env : Env) (item : NewItem) : StoreCall Item :=
  writing "ingest" "committing ingest transaction" (ingestInTx platform env item)

/-- Insert validated items one after the other; a later one may refer to an earlier. -/
def insertEach (env : Env) : List (NewItem × Validated) → Tx (List Item)
  | [] => pure []
  | (item, validated) :: rest => do
    checkSupersedes item.supersedes
    let ulid ← mintRawUlid env
    insertItemRow platform env ⟨ulid⟩ item validated
    let others ← insertEach env rest
    return storedItem env ⟨ulid⟩ item validated :: others

/-- The transaction of `ingestMany`: everything is validated first. -/
def ingestManyInTx (env : Env) (items : List NewItem) : Tx (List Item) := do
  let validated ← Effect.ofExcept (items.mapM (validate platform))
  insertEach platform env (items.zip validated)

/-- Bulk variant of `ingest`. All items persist or none do. -/
def ingestMany (env : Env) (items : List NewItem) : StoreCall (List Item) :=
  writing "ingest_many" "committing bulk ingest transaction" (ingestManyInTx platform env items)

/-- Clear the `external_id` of a row. -/
def clearExternalId (items : Table itemSchema) (id : ItemId) : Table itemSchema :=
  items.update (fun row => if row.id = id then { row with externalId := none } else row)
    (by
      intro row checked
      split
      · exact checked
      · exact checked)
    (by
      intro row
      split
      · intro key member
        exact List.mem_append_right _ (by simpa [itemSchema] using member)
      · exact List.Subset.refl _)

/-- Move a row to a scope. -/
def moveToScope (items : Table itemSchema) (id : ItemId) (scope : Option String) :
    Table itemSchema :=
  items.update (fun row => if row.id = id then { row with scope } else row)
    (by
      intro row checked
      split
      · exact checked
      · exact checked)
    (by
      intro row
      split <;> exact List.Subset.refl _)

/-- The transaction of `ingestReplacing`. -/
def ingestReplacingInTx (env : Env) (submitted : NewItem) (replaces : ItemId) : Tx Item := do
  let item := { submitted with supersedes := some replaces }
  let validated ← Effect.ofExcept (validate platform item)
  let ulid ← mintRawUlid env
  let pending ← get
  throwIf (!pending.tables.hasItem replaces) (.supersedesNotFound replaces)
  setTables { pending.tables with items := clearExternalId pending.tables.items replaces }
  insertItemRow platform env ⟨ulid⟩ item validated
  return storedItem env ⟨ulid⟩ item validated

/-- Ingest an item as the successor of another, which gives up its `external_id`. -/
def ingestReplacing (env : Env) (item : NewItem) (replaces : ItemId) : StoreCall Item :=
  writing "ingest_replacing" "committing ingest_replacing transaction"
    (ingestReplacingInTx platform env item replaces)

/-- The statement of `setScope`. -/
def updateScope (id : ItemId) (scope : Option String) : Tx PUnit := do
  let pending ← get
  throwIf (!pending.tables.hasItem id) (.notFound id)
  setTables { pending.tables with items := moveToScope pending.tables.items id scope }

/-- Move an item to a scope, or out of every scope, without creating a revision. -/
def setScope (id : ItemId) (scope : Option String) : StoreCall Item := do
  assertWritable "set_scope"
  let normalised ← Effect.ofExcept (scope.mapM (Scope.validate platform))
  transaction "updating scope" (updateScope id normalised)
  let store ← get
  Effect.ofExcept (loadItem platform store.database.tables id)

end Singularmem.Core
