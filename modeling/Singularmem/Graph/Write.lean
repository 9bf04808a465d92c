import Singularmem.Graph.Read

/-!
# Graph writes

`addFact`, `invalidateFact` and `supersedeFact`. The graph is append-only: ending or
replacing a fact appends a revision that points at the old one through `supersedes`.
Each call is one transaction.
-/

namespace Singularmem.Graph

open Library Singularmem.Core
open Effect hiding ofExcept

variable (platform : Platform)

/-- The triple an invalidation addresses, as the caller wrote it. -/
structure TripleRef where
  subject : String
  predicate : String
  object : NewObject
  scope : Option String

/-- `FactNotFound` naming a triple. -/
def TripleRef.notFound (triple : TripleRef) : Error :=
  .factNotFound triple.subject triple.predicate triple.object.text

/-- The object side of a fact as the table stores it. -/
structure ObjectColumns where
  id : Option EntityId
  value : Option String
deriving DecidableEq

/-- Split a resolved object into its columns. -/
def ObjectColumns.of : FactObject → ObjectColumns
  | .entity ref => ⟨some ref.id, none⟩
  | .value text => ⟨none, some text⟩

/-- A row is an open head: it has no end, and nothing supersedes it. -/
def isOpenHead (tables : Tables) (row : FactRow) : Bool :=
  row.validTo.isNone && !supersededBy tables row.id fun _ => true

/-- The id of the open head for a triple, if one exists. A missing value or scope is
compared as the empty text. -/
def findOpenHead (tables : Tables) (subject : EntityId) (predicate : String)
    (object : ObjectColumns) (scope : Option String) : Option FactId :=
  (tables.facts.rows.find? fun row =>
    row.subjectId = subject && row.predicate = predicate && row.objectId = object.id &&
      row.objectValue.getD "" = object.value.getD "" && row.scope.getD "" = scope.getD "" &&
      isOpenHead tables row).map FactRow.id

/-- The row of a fact. -/
def Fact.toRow (fact : Fact) : FactRow where
  id := fact.id
  subjectId := fact.subject.id
  predicate := fact.predicate
  objectId := (ObjectColumns.of fact.object).id
  objectValue := (ObjectColumns.of fact.object).value
  validFrom := fact.validFrom.map toSql
  validTo := fact.validTo.map toSql
  confidence := fact.confidence.real
  sourceItemId := fact.sourceItemId
  scope := fact.scope
  supersedes := fact.supersedes
  recordedAt := toSql fact.recordedAt

/-- The database's complaint about a refused fact. -/
def factViolation : Violation FactId → SqliteError
  | .check => .check "facts"
  | .taken _ => .unique "facts.id"

/-- The database's complaint about a refused entity. -/
def entityViolation : Violation EntityKey → SqliteError
  | .check => .check "entities"
  | .taken (.normalisedName _) => .unique "entities.normalised_name"
  | .taken (.id _) => .unique "entities.id"

/-- Insert one fully-formed revision. The entities it names must exist. -/
def insertFactRow (fact : Fact) : Tx PUnit := do
  let pending ← get
  match pending.tables.facts.insert fact.toRow with
  | .error violation => throw (.sqlite "inserting fact revision" (factViolation violation))
  | .ok facts => do
    throwIf (!(pending.tables.hasEntity fact.subject.id &&
        (ObjectColumns.of fact.object).id.all pending.tables.hasEntity))
      (.sqlite "inserting fact revision" .foreignKey)
    setTables { pending.tables with facts }

/-- The entity with a normalised name. -/
def entityByName (tables : Tables) (normalised : String) : Option EntityRow :=
  tables.entities.find (.normalisedName normalised)

/-- The id of an existing entity, without creating one. -/
def findEntity (name : String) : Tx (Option EntityRef) := do
  let normalised ← Effect.ofExcept (Normalise.entityName platform name)
  let pending ← get
  return (entityByName pending.tables normalised).map fun row => ⟨row.id, row.name⟩

/-- A caller-supplied kind, trimmed, with a blank one treated as absent. -/
def kindOrNone (kind : Option String) : Option String :=
  (kind.map trim).filter (· ≠ "")

/-- Whether an open head answers a request exactly. -/
def headMatchesRequest (head : Fact) (validFrom validTo : Option Timestamp)
    (confidence : Confidence) : Bool :=
  head.validFrom = validFrom && head.validTo = validTo && head.confidence.near confidence

/-- Set the kind of an entity. -/
def setKind (entities : Table entitySchema) (id : EntityId) (kind : Option String) :
    Table entitySchema :=
  entities.update (fun row => if row.id = id then { row with kind } else row)
    (by
      intro row checked
      split
      · exact checked
      · exact checked)
    (by
      intro row
      split <;> exact List.Subset.refl _)

/-- Set the kind of an entity that has none, if the caller names one. -/
def fillKind (tables : Tables) (row : EntityRow) (kind : Option String) : Tables :=
  if kind.isSome ∧ row.kind.isNone then
    { tables with entities := setKind tables.entities row.id kind }
  else tables

/-- The kind a caller wants is not the one an entity has. -/
def kindConflicts (kind held : Option String) : Bool :=
  kind.any fun wanted => held.any (wanted ≠ ·)

/-- Resolve or create an entity, returning its id and display name. The kind is set on
creation and on an entity that has none; a conflicting kind is an error. -/
def getOrCreateEntity (env : Env) (name : String) (kind : Option String) : Tx EntityRef := do
  let normalised ← Effect.ofExcept (Normalise.entityName platform name)
  let pending ← get
  match entityByName pending.tables normalised with
  | some row => do
    throwIf (kindConflicts kind row.kind) (.validation "kind"
      ("entity " ++ platform.debug row.name ++ " already has kind " ++
        platform.debug (row.kind.getD "")))
    setTables (fillKind pending.tables row kind)
    return ⟨row.id, row.name⟩
  | none => do
    let ulid ← mintRawUlid env
    match pending.tables.entities.insert ⟨⟨ulid⟩, trim name, normalised, kind, toSql env.now⟩ with
    | .error violation => throw (.sqlite "inserting entity" (entityViolation violation))
    | .ok entities => do
      setTables { pending.tables with entities }
      return ⟨⟨ulid⟩, trim name⟩

/-- Check that the window of a submitted fact is in order. -/
def validateWindow (validFrom validTo : Option Timestamp) : Except Error Unit :=
  match validFrom, validTo with
  | some start, some stop =>
    if stop < start then
      .error (.validation "valid_window" ("valid_to " ++ platform.displayTime stop ++
        " precedes valid_from " ++ platform.displayTime start))
    else .ok ()
  | _, _ => .ok ()

/-- Check that a confidence lies in the unit interval. -/
def validateConfidence (confidence : Confidence) : Except Error Unit :=
  if confidence.inUnit then .ok ()
  else .error (.validation "confidence"
    (platform.displayConfidence confidence ++ " is outside [0.0, 1.0]"))

/-- Check that the source item of a fact exists. -/
def checkSourceItem (tables : Tables) : Option ItemId → Except Error Unit
  | none => .ok ()
  | some source =>
    if tables.hasItem source then .ok ()
    else .error (.validation "source_item_id"
      ("item " ++ source.ulid.display ++ " does not exist in this store"))

/-- Resolve the object of a submitted fact. Literal values are stored trimmed. -/
def resolveObject (env : Env) : NewObject → Tx FactObject
  | .entity name kind => .entity <$> getOrCreateEntity platform env name (kindOrNone kind)
  | .value text => do
    throwIf (trim text = "") (.validation "object" "value must be non-empty")
    return .value (trim text)

/-- The message about an open head that a request does not match. -/
def standingMessage (head : Fact) : String :=
  "an open fact <" ++ head.subject.name ++ " —" ++ head.predicate ++ "→ " ++ head.object.text ++
    "> already exists with a different validity window or confidence; use supersede or invalidate"

/-- Return the open head a request matches, or refuse the request. -/
def answerWithHead (headId : FactId) (request : NewFact) : Tx Fact := do
  let pending ← get
  match ← Effect.ofExcept (loadFact platform pending.tables headId) with
  | none => throw (.factIdNotFound headId)
  | some head => do
    throwIf (!headMatchesRequest head request.validFrom request.validTo request.confidence)
      (.validation "fact" (standingMessage head))
    return head

/-- Append the first revision of a fact. -/
def appendFact (env : Env) (subject : EntityRef) (predicate : String) (object : FactObject)
    (scope : Option String) (request : NewFact) : Tx Fact := do
  let ulid ← mintRawUlid env
  let fact : Fact := {
    id := ⟨ulid⟩
    subject := subject
    predicate := predicate
    object := object
    validFrom := request.validFrom
    validTo := request.validTo
    confidence := request.confidence
    sourceItemId := request.sourceItemId
    scope := scope
    supersedes := none
    recordedAt := env.now }
  insertFactRow fact
  return fact

/-- Validate, resolve entities, and append one fact revision, unless an open head
answers the request. -/
def addFactInTx (env : Env) (request : NewFact) : Tx Fact := do
  let predicate ← Effect.ofExcept (Normalise.predicate platform request.predicate)
  Effect.ofExcept (validateConfidence platform request.confidence)
  Effect.ofExcept (validateWindow platform request.validFrom request.validTo)
  let scope ← Effect.ofExcept (request.scope.mapM (Scope.validate platform))
  let before ← get
  Effect.ofExcept (checkSourceItem before.tables request.sourceItemId)
  let subject ← getOrCreateEntity platform env request.subject (kindOrNone request.subjectKind)
  let object ← resolveObject platform env request.object
  let pending ← get
  match findOpenHead pending.tables subject.id predicate (.of object) scope with
  | some head => answerWithHead platform head request
  | none => appendFact env subject predicate object scope request

/-- The columns by which an invalidation looks for the object; none, if the object is an
unknown entity. -/
def lookupObject : NewObject → Tx (Option ObjectColumns)
  | .entity name _ => do return (← findEntity platform name).map fun ref => ⟨some ref.id, none⟩
  | .value text => return some ⟨none, some (trim text)⟩

/-- Append the revision that ends a head. -/
def closeHead (env : Env) (ending : Timestamp) (head : Fact) : Tx Fact := do
  throwIf (head.validFrom.any (ending < ·)) (.validation "valid_window"
    ("cannot end a fact at " ++ platform.displayTime ending ++ ", before it became valid at " ++
      platform.displayTime (head.validFrom.getD ending)))
  let ulid ← mintRawUlid env
  let closed : Fact := { head with
    id := ⟨ulid⟩
    validTo := some ending
    supersedes := some head.id
    recordedAt := env.now }
  insertFactRow closed
  return closed

/-- Close the open head for a triple by appending a revision that ends at an instant. -/
def invalidateInTx (env : Env) (ending : Timestamp) (triple : TripleRef) : Tx Fact := do
  let predicate ← Effect.ofExcept (Normalise.predicate platform triple.predicate)
  let scope ← Effect.ofExcept (triple.scope.mapM (Scope.validate platform))
  match ← findEntity platform triple.subject with
  | none => throw triple.notFound
  | some subject =>
    match ← lookupObject platform triple.object with
    | none => throw triple.notFound
    | some object => do
      let pending ← get
      match findOpenHead pending.tables subject.id predicate object scope with
      | none => throw triple.notFound
      | some headId =>
        match ← Effect.ofExcept (loadFact platform pending.tables headId) with
        | none => throw (.factIdNotFound headId)
        | some head => closeHead platform env ending head

/-- Record a fact, creating its entities on demand. -/
def addFact (env : Env) (request : NewFact) : StoreCall Fact :=
  writing "add_fact" "committing add_fact transaction" (addFactInTx platform env request)

/-- End an open fact at an instant, which is now unless the caller names one. -/
def invalidateFact (env : Env) (triple : TripleRef) (ending : Option Timestamp) : StoreCall Fact :=
  writing "invalidate_fact" "committing invalidate_fact transaction"
    (invalidateInTx platform env (ending.getD env.now) triple)

/-- The part of a text before the first occurrence of another. -/
def beforeFirst (separator : List Char) : List Char → List Char
  | [] => []
  | char :: rest =>
    if separator.isPrefixOf (char :: rest) then [] else char :: beforeFirst separator rest

/-- Tell the caller of `supersedeFact` what applies when the replacement stands. -/
def rewordStanding : Error → Error
  | .validation "fact" reason => .validation "fact"
      (String.ofList (beforeFirst "; use supersede or invalidate".toList reason.toList) ++
        "; the replacement already stands, so supersede with the time point it opened at, " ++
        "or invalidate it first")
  | error => error

/-- A missing fact is tolerated where it is to be replaced. -/
def tolerateMissing : Error → Except Error (Option Fact)
  | .factNotFound .. => .ok none
  | error => .error error

/-- Close the old fact of a replacement. -/
def closeOld (env : Env) (ending : Timestamp) (triple : TripleRef) : Tx (Option Fact) :=
  tryCatch (some <$> invalidateInTx platform env ending triple) fun error =>
    Effect.ofExcept (tolerateMissing error)

/-- The fact that opens at the instant the old one ends. -/
def replacementOf (triple : TripleRef) (new : NewObject) (ending : Timestamp) : NewFact where
  subject := triple.subject
  subjectKind := none
  predicate := triple.predicate
  object := new
  validFrom := some ending
  validTo := none
  confidence := .one
  sourceItemId := none
  scope := triple.scope

/-- The transaction of `supersedeFact`. -/
def supersedeInTx (env : Env) (ending : Timestamp) (triple : TripleRef) (new : NewObject) :
    Tx (Option Fact × Fact) := do
  let closed ← closeOld platform env ending triple
  let replacement ← tryCatch (addFactInTx platform env (replacementOf triple new ending))
    fun error => throw (rewordStanding error)
  return (closed, replacement)

/-- Replace one fact with another: close the old fact and open the new one from the same
instant. -/
def supersedeFact (env : Env) (triple : TripleRef) (new : NewObject) (ending : Option Timestamp) :
    StoreCall (Option Fact × Fact) :=
  writing "supersede_fact" "committing supersede_fact transaction"
    (supersedeInTx platform env (ending.getD env.now) triple new)

end Singularmem.Graph
