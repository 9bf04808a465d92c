import Singularmem.Core.Listings
import Singularmem.Graph.History
import Singularmem.Graph.Summaries
import Singularmem.Mcp.Tools
import Singularmem.Retrieve.ScopeCounts

/-!
# The handlers of the tools

A handler opens the store, reads it or makes one call on it, and answers with one text. The
handlers of the tools that write refuse to where the server is read-only. A walk along
revisions takes one step for each row and one more; one that is not over then never is, and is
no answer.
-/

namespace Singularmem.Mcp

open Library Singularmem.Core Singularmem.Graph Singularmem.Search Singularmem.Retrieve

/-- What handles a call of a tool. -/
abbrev Handler := Effect ToolError Database

variable (platform : Platform) (libraries : Libraries) (config : ServerConfig) (host : Host)

section Stores

/-- A reading of the crates below. -/
def ofReading {α : Type} (outcome : Except Error α) : Handler α :=
  Effect.ofExcept (outcome.mapError .reading)

/-- A reading of the core crate. -/
def ofCore {α : Type} (outcome : Except Core.Error α) : Handler α :=
  ofReading (outcome.mapError .core)

/-- Open the store, to read only or not. -/
def openStore (readOnly : Bool) : Handler PUnit :=
  match host.openError readOnly with
  | some error => throw (.reading (.core error))
  | none => pure ⟨⟩

/-- Open the store for a handler that reads. -/
def openStoreForReading : Handler Tables := do
  openStore host config.readOnly
  return (← get).tables

/-- Open the store with the hooks of the indexes that exist. An index that cannot be opened is
skipped; a model that cannot be loaded is an error. -/
def openStoreWithHooks : Handler PUnit :=
  match host.semantic, host.embedderError with
  | some _, some error => throw (.reading (.search error))
  | _, _ => openStore host false

/-- Make a call on the open store. -/
def onStore {α : Type} (call : StoreCall α) : Handler α :=
  ExceptT.mk fun database =>
    let (outcome, store) := Effect.exec call ⟨false, database⟩
    (outcome.mapError fun error => .reading (.core error), store.database)

/-- The identifier of an item in a request. -/
def readId (text : String) : Handler ItemId :=
  match ItemId.fromStr text with
  | some id => pure id
  | none => throw (.invalidId (libraries.idError text))

/-- The identifier of a fact in a request. -/
def readFactId (text : String) : Handler FactId :=
  match Ulid.fromString text with
  | some ulid => pure ⟨ulid⟩
  | none => throw (.invalidFactId (libraries.idError text))

/-- The directory of a request: that of its arguments, of the server, or the current one. -/
def projectDir (argument : Option String) : Handler String :=
  match argument.or config.project, host.currentDir with
  | some dir, _ => pure dir
  | none, .ok dir => pure dir
  | none, .error reason => throw (.noProject reason)

/-- The directory of a request, which has to be one. -/
def resolveProject (argument : Option String) : Handler String := do
  let dir ← projectDir config host argument
  Effect.throwIf (host.isDir dir = false) (.invalidProject dir)
  return dir

end Stores

section Items

/-- The text of one memory. -/
def memoryText (item : Item) : String :=
  "Memory " ++ item.id.ulid.display ++ "\n" ++
  "Created: " ++ platform.displayTime item.createdAt ++ "\n" ++
  (match item.source with
    | some source => "Source: " ++ source ++ "\n"
    | none => "") ++
  (if item.tags.isEmpty then "" else "Tags: " ++ ", ".intercalate item.tags ++ "\n") ++
  "\n" ++ item.content

/-- The start of a content on one line. -/
def snippetOf (content : String) : String :=
  .ofList ((content.toList.take 80).map fun char => if char = '\n' then ' ' else char)

/-- The line of an item in a listing. -/
def itemLine (item : Item) : String := item.id.ulid.display ++ ": " ++ snippetOf item.content ++ "\n"

/-- Handle `memory_get`. -/
def handleMemoryGet (args : MemoryGetArgs) : Handler String := do
  let id ← readId libraries args.id
  let tables ← openStoreForReading config host
  let item ← ofCore (loadItem platform tables id)
  return memoryText platform item

/-- Handle `memory_list`. -/
def handleMemoryList (args : MemoryListArgs) : Handler String := do
  let limit := min (max (args.limit.getD 50) 1) 100
  let tables ← openStoreForReading config host
  let filter ← ofReading (scopeFilter platform args.scope args.scopeExact)
  let listed := listByTagsScoped platform tables (args.tags.getD []) filter
  let items ← ofCore ((listed.take limit).mapM id)
  return "Found " ++ toString items.length ++ " memor" ++ (if items.length = 1 then "y" else "ies") ++
    " (limit " ++ toString limit ++ "):\n\n" ++ .join (items.map itemLine)

/-- Handle `memory_scopes`. -/
def handleMemoryScopes : Handler String := do
  let tables ← openStoreForReading config host
  let listed := scopes tables
  return if listed.isEmpty then "No scopes (all items are unscoped)."
    else .join (listed.map fun entry => entry.1 ++ "\t" ++ toString entry.2 ++ "\n")

/-- The text of a revision history. -/
def revisionsText (id : String) (history : List Item) : String :=
  "Revisions of " ++ id ++ " (" ++ toString history.length ++ " item" ++
    (if history.length = 1 then "" else "s") ++ ", newest first):\n\n" ++
    .join (history.map itemLine)

/-- Handle `memory_revisions`. -/
def handleMemoryRevisions (args : MemoryRevisionsArgs) : Handler (Option String) := do
  let id ← readId libraries args.id
  let tables ← openStoreForReading config host
  match revisionHistory platform tables (tables.items.rows.length + 1) id with
  | none => return none
  | some outcome =>
    let history ← ofCore outcome
    return some (revisionsText args.id history)

/-- The item that `memory_ingest` submits. -/
def MemoryIngestArgs.item (args : MemoryIngestArgs) (supersedes : Option ItemId) : NewItem where
  content := args.content
  supersedes
  tags := args.tags.getD []
  source := args.source
  metadata := args.metadata.getD (.object [])
  externalId := none
  scope := args.scope

/-- What `memory_ingest` answers. -/
def ingestedText (item : Item) : String :=
  "Ingested memory " ++ item.id.ulid.display ++ " at " ++ platform.displayTime item.createdAt ++ "\n"

/-- Handle `memory_ingest`. -/
def handleMemoryIngest (args : MemoryIngestArgs) : Handler String := do
  Effect.throwIf config.readOnly .readOnly
  let supersedes ← args.supersedes.mapM (readId libraries)
  openStoreWithHooks host
  let stored ← onStore (ingest platform host.env (args.item supersedes))
  return ingestedText platform stored

/-- Handle `memory_wakeup`. -/
def handleMemoryWakeup (args : MemoryWakeupArgs) : Handler String := do
  let dir ← resolveProject config host args.project
  let adapter ← ofReading (findAdapter config.toConfig args.adapter)
  let set := ScopeSet.forProject platform host.fs dir (args.includeFiles.getD false)
  let options : WakeupOptions := ⟨args.limit.getD 20, args.maxBytes.getD 8192⟩
  let tables ← openStoreForReading config host
  let wakeup ← ofReading ((build platform tables set options).mapError .retrieve)
  return render wakeup adapter options.maxBytes

end Items

section Facts

/-- The line of a fact. -/
def renderFact (fact : Fact) : String :=
  let start := (fact.validFrom.map platform.displayTime).getD "?"
  let ending := (fact.validTo.map platform.displayTime).getD "open"
  let source := (fact.sourceItemId.map fun id => id.ulid.display).getD "-"
  fact.id.ulid.display ++ "  " ++ fact.subject.name ++ " —" ++ fact.predicate ++ "→ " ++
    fact.object.text ++ "  [" ++ start ++ ", " ++ ending ++ ")  conf=" ++
    libraries.twoDigits fact.confidence ++ "  scope=" ++ fact.scope.getD "-" ++ "  src=" ++ source

/-- Lines, or what stands for none. -/
def linesOr (none : String) (lines : List String) : String :=
  if lines.isEmpty then none else "\n".intercalate lines

/-- The lines of facts. -/
def renderFacts (facts : List Fact) : String :=
  linesOr "No facts." (facts.map (renderFact platform libraries))

/-- The lines of a timeline. -/
def renderTimeline (entries : List TimelineEntry) : String :=
  linesOr "No facts." (entries.map fun entry =>
    "[" ++ (if entry.current then "current" else "closed") ++ "] " ++
      renderFact platform libraries entry.fact)

/-- The counts over the graph. -/
def renderStats (stats : GraphStats) : String :=
  "entities: " ++ toString stats.entities ++ "\nopen facts: " ++ toString stats.openFacts ++
    "\nclosed facts: " ++ toString stats.closedFacts ++ "\npredicates: " ++
    toString stats.predicates

/-- The lines of entities. -/
def renderEntities (summaries : List EntitySummary) : String :=
  linesOr "No entities." (summaries.map fun summary =>
    summary.entity.id.ulid.display ++ "\t" ++ summary.entity.name ++ "\t" ++
      summary.entity.kind.getD "-" ++ "\t" ++ toString summary.factCount)

/-- The object of a request. -/
def buildObject (raw : String) (isValue : Option Bool) (kind : Option String) : NewObject :=
  if isValue.getD false then .value raw else .entity raw kind

/-- The instant of an argument; an error names the argument. -/
def parseOptionalPoint (raw : Option String) (argument : String) : Handler (Option Timestamp) :=
  ofCore ((raw.mapM (parsePoint platform)).mapError fun error =>
    match error with
    | .validation _ reason => .validation argument reason
    | other => other)

/-- The direction of a query. -/
def parseDirection : Option String → Handler Direction
  | some "outgoing" => pure .outgoing
  | some "incoming" => pure .incoming
  | none => pure .both
  | some "both" => pure .both
  | some other => throw (.reading (.core (.validation "direction" (platform.debug other ++
      " must be one of \"outgoing\", \"incoming\", \"both\""))))

/-- Handle `memory_graph_add`. -/
def handleMemoryGraphAdd (args : MemoryGraphAddArgs) : Handler String := do
  Effect.throwIf config.readOnly .readOnly
  let object := buildObject args.object args.objectIsValue args.objectKind
  let validFrom ← parseOptionalPoint platform args.validFrom "valid_from"
  let validTo ← parseOptionalPoint platform args.validTo "valid_to"
  let sourceItemId ← args.sourceItemId.mapM (readId libraries)
  openStore host false
  let fact ← onStore (addFact platform host.env
    { subject := args.subject, subjectKind := args.subjectKind, predicate := args.predicate,
      object, validFrom, validTo, confidence := args.confidence.getD .one, sourceItemId,
      scope := args.scope })
  return renderFact platform libraries fact

/-- Handle `memory_graph_invalidate`. -/
def handleMemoryGraphInvalidate (args : MemoryGraphInvalidateArgs) : Handler String := do
  Effect.throwIf config.readOnly .readOnly
  let object := buildObject args.object args.objectIsValue none
  let ending ← parseOptionalPoint platform args.«at» "at"
  openStore host false
  let closed ← onStore (invalidateFact platform host.env
    ⟨args.subject, args.predicate, object, args.scope⟩ ending)
  return renderFact platform libraries closed

/-- Handle `memory_graph_supersede`. -/
def handleMemoryGraphSupersede (args : MemoryGraphSupersedeArgs) : Handler String := do
  Effect.throwIf config.readOnly .readOnly
  let old := buildObject args.oldObject args.objectIsValue none
  let new := buildObject args.newObject args.objectIsValue none
  let ending ← parseOptionalPoint platform args.«at» "at"
  openStore host false
  let revised ← onStore (supersedeFact platform host.env
    ⟨args.subject, args.predicate, old, args.scope⟩ new ending)
  return "closed: " ++ (revised.1.map (renderFact platform libraries)).getD "none" ++
    "\nopened: " ++ renderFact platform libraries revised.2

/-- Handle `memory_graph_query`. -/
def handleMemoryGraphQuery (args : MemoryGraphQueryArgs) : Handler String := do
  Effect.throwIf (args.entity.isSome = args.predicate.isSome) (.reading (.core
    (.validation "query" "exactly one of entity or predicate is required")))
  let scope ← ofReading (scopeFilter platform args.scope args.scopeExact)
  let asOf ← parseOptionalPoint platform args.asOf "as_of"
  let recordedAt ← parseOptionalPoint platform args.recordedAt "recorded_at"
  let direction ← parseDirection platform args.direction
  let query : GraphQuery := { scope, asOf, recordedAt, direction }
  let tables ← openStoreForReading config host
  let facts ← ofCore (match args.entity, args.predicate with
    | some entity, _ => queryEntity platform tables entity query
    | none, some predicate => queryPredicate platform tables predicate query
    | none, none => .ok [])
  return renderFacts platform libraries facts

/-- Handle `memory_graph_timeline`. -/
def handleMemoryGraphTimeline (args : MemoryGraphTimelineArgs) : Handler String := do
  let scope ← ofReading (scopeFilter platform args.scope args.scopeExact)
  let tables ← openStoreForReading config host
  let entries ← ofCore (timeline platform tables args.entity scope)
  return renderTimeline platform libraries entries

/-- Handle `memory_graph_stats`. -/
def handleMemoryGraphStats (args : MemoryGraphStatsArgs) : Handler String := do
  let scope ← ofReading (scopeFilter platform args.scope none)
  let tables ← openStoreForReading config host
  return renderStats (graphStats tables scope)

/-- Handle `memory_graph_entities`. -/
def handleMemoryGraphEntities (args : MemoryGraphEntitiesArgs) : Handler String := do
  let scope ← ofReading (scopeFilter platform args.scope args.scopeExact)
  let tables ← openStoreForReading config host
  let summaries ← ofCore (entities platform tables scope args.kind)
  return renderEntities summaries

/-- Handle `memory_graph_history`. -/
def handleMemoryGraphHistory (args : MemoryGraphHistoryArgs) : Handler (Option String) := do
  let id ← readFactId libraries args.factId
  let tables ← openStoreForReading config host
  match factHistory platform tables (tables.facts.rows.length + 1) id with
  | none => return none
  | some outcome =>
    let facts ← ofCore outcome
    return some (renderFacts platform libraries facts)

end Facts

end Singularmem.Mcp
