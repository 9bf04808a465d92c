import Singularmem.Mcp.Handlers

/-!
# The server

A request names a tool, a prompt or a resource. The server parses the arguments, runs the
handler and maps its error to one of the protocol. It lists the tools that write only where it
may write, and answers a request for one with an error where it may not.
-/

namespace Singularmem.Mcp

open Library Singularmem.Core Singularmem.Search Singularmem.Retrieve

/-- The tools. -/
inductive Tool
  | memoryRetrieve
  | memoryGet
  | memoryList
  | memoryRevisions
  | memoryScopes
  | memoryWakeup
  | memoryGraphQuery
  | memoryGraphTimeline
  | memoryGraphStats
  | memoryGraphEntities
  | memoryGraphHistory
  | memoryIngest
  | memoryGraphAdd
  | memoryGraphInvalidate
  | memoryGraphSupersede
deriving DecidableEq

namespace Tool

/-- The name of a tool. -/
def name : Tool → String
  | memoryRetrieve => "memory_retrieve"
  | memoryGet => "memory_get"
  | memoryList => "memory_list"
  | memoryRevisions => "memory_revisions"
  | memoryScopes => "memory_scopes"
  | memoryWakeup => "memory_wakeup"
  | memoryGraphQuery => "memory_graph_query"
  | memoryGraphTimeline => "memory_graph_timeline"
  | memoryGraphStats => "memory_graph_stats"
  | memoryGraphEntities => "memory_graph_entities"
  | memoryGraphHistory => "memory_graph_history"
  | memoryIngest => "memory_ingest"
  | memoryGraphAdd => "memory_graph_add"
  | memoryGraphInvalidate => "memory_graph_invalidate"
  | memoryGraphSupersede => "memory_graph_supersede"

/-- The tools that are always listed. -/
def readers : List Tool :=
  [memoryRetrieve, memoryGet, memoryList, memoryRevisions, memoryScopes, memoryWakeup,
    memoryGraphQuery, memoryGraphTimeline, memoryGraphStats, memoryGraphEntities,
    memoryGraphHistory]

/-- The tools that write. -/
def writers : List Tool :=
  [memoryIngest, memoryGraphAdd, memoryGraphInvalidate, memoryGraphSupersede]

/-- The tool of a name. -/
def ofName (text : String) : Option Tool := (readers ++ writers).find? (·.name = text)

end Tool

/-- The errors of the protocol. -/
inductive McpError
  | invalidParams (message : String)
  | internalError (message : String)
  | resourceNotFound (message : String)
  | methodNotFound

/-- A request of a client. -/
inductive Request
  | listTools
  | callTool (name : String) (arguments : Option (List (String × Json)))
  | listPrompts
  | getPrompt (name : String) (arguments : Option (List (String × Json)))
  | listResources
  | listResourceTemplates
  | readResource (uri : String)

/-- What a request is answered with. -/
inductive Answer
  | tools (names : List String)
  | content (text : String)
  | prompts (names : List String)
  | prompt (description text : String)
  | resources (uris : List String)
  | resourceTemplates (templates : List String)
  | resource (uri mimeType text : String)

section Errors

variable (libraries : Libraries)

/-- Where no other arm of a mapping fits. -/
def internal (error : ToolError) : McpError := .internalError (error.display libraries)

/-- Map an error of `memory_retrieve`. -/
def mapRetrieveError : ToolError → McpError
  | .reading (.retrieve .emptyQuery) => .invalidParams "query must not be empty"
  | .reading (.unknownAdapter name) =>
    .invalidParams ("unknown adapter '" ++ name ++ "'; known adapters: plain, claude, openai, gemini")
  | .reading (.search .noIndexes) =>
    .internalError "no memories indexed yet; run `singularmem ingest` first"
  | .reading (.core (.validation field reason)) => .invalidParams (field ++ ": " ++ reason)
  | other => internal libraries other

/-- Map an error of `memory_ingest`. -/
def mapIngestError : ToolError → McpError
  | .readOnly => .invalidParams "server is read-only; memory_ingest is disabled"
  | .invalidId reason => .invalidParams ("invalid item ID: " ++ reason)
  | .reading (.core (.validation field reason)) => .invalidParams (field ++ ": " ++ reason)
  | .reading (.core (.supersedesNotFound id)) =>
    .invalidParams ("supersedes target " ++ id.ulid.display ++ " not found")
  | other => internal libraries other

/-- Map an error of `memory_get` or `memory_revisions`. -/
def mapLookupError : ToolError → McpError
  | .invalidId reason => .invalidParams ("invalid item ID: " ++ reason)
  | .reading (.core (.notFound id)) => .invalidParams ("memory not found: " ++ id.ulid.display)
  | other => internal libraries other

/-- Map an error of `memory_list`. -/
def mapListError : ToolError → McpError
  | .reading (.core (.validation field reason)) => .invalidParams (field ++ ": " ++ reason)
  | other => internal libraries other

/-- Map an error of a graph writer. -/
def mapGraphWriteError (tool : String) : ToolError → McpError
  | .readOnly => .invalidParams ("server is read-only; " ++ tool ++ " is disabled")
  | .invalidId reason => .invalidParams ("invalid item ID: " ++ reason)
  | .reading (.core (.validation field reason)) => .invalidParams (field ++ ": " ++ reason)
  | .reading (.core (.factNotFound subject predicate object)) =>
    .invalidParams ("no open fact " ++ subject ++ " —" ++ predicate ++ "→ " ++ object)
  | .reading (.core (.factIdNotFound id)) =>
    .invalidParams ("fact " ++ id.ulid.display ++ " not found")
  | other => internal libraries other

/-- Map an error of a graph reader. -/
def mapGraphReadError : ToolError → McpError
  | .reading (.core (.validation field reason)) => .invalidParams (field ++ ": " ++ reason)
  | .reading (.core (.factIdNotFound id)) =>
    .invalidParams ("fact " ++ id.ulid.display ++ " not found")
  | .invalidFactId reason => .invalidParams ("invalid fact ID: " ++ reason)
  | other => internal libraries other

/-- Map an error of a wake-up. -/
def mapWakeupError : ToolError → McpError
  | .invalidProject dir => .invalidParams ("project " ++ dir ++ " is not a directory")
  | .noProject reason => .invalidParams ("cannot determine a project directory: " ++ reason)
  | .reading (.unknownAdapter name) =>
    .invalidParams ("unknown adapter '" ++ name ++ "'; known adapters: plain, claude, openai, gemini")
  | other => internal libraries other

/-- Parse the arguments of a call. -/
def parseCallArgs {α : Type} (parse : Json → Option α) (tool : Tool)
    (arguments : Option (List (String × Json))) : Except McpError α :=
  let value := Json.object (arguments.getD [])
  match parse value with
  | some args => .ok args
  | none => .error (.invalidParams ("failed to parse " ++ tool.name ++ " arguments: " ++
      libraries.argumentError tool.name value))

end Errors

variable {Parsed : Type} (engine : TextEngine Parsed) (neural : SemanticEngine)
  (arithmetic : Arithmetic) (platform : Platform) (libraries : Libraries)
  (config : ServerConfig) (host : Host)

/-- The files of a server that is asked. -/
def storeFiles (tables : Tables) : StoreFiles where
  openStore readOnly := match host.openError readOnly with
    | some error => .error error
    | none => .ok tables
  lexical := host.lexical
  semantic := host.semantic

/-- Handle `memory_retrieve`. -/
def handleRetrieve (args : MemoryRetrieveArgs) : Handler String := do
  let database ← get
  let output ← ofReading (handleMemoryRetrieve engine neural arithmetic platform args config.toConfig
    (storeFiles host database.tables))
  return output.text

/-- Parse the arguments, run the handler and map its error. -/
def dispatch {α β : Type} (parse : Json → Option α) (mapError : ToolError → McpError) (tool : Tool)
    (arguments : Option (List (String × Json))) (handler : α → Handler β) :
    Effect McpError Database β := do
  let args ← Effect.ofExcept (parseCallArgs libraries parse tool arguments)
  ExceptT.adapt mapError (handler args)

/-- Call a tool. A server that is read-only does not parse the arguments of `memory_ingest`. -/
def runTool (tool : Tool) (arguments : Option (List (String × Json))) :
    Effect McpError Database (Option String) :=
  match tool with
  | .memoryRetrieve => some <$> dispatch libraries MemoryRetrieveArgs.parse
      (mapRetrieveError libraries) tool arguments
      (handleRetrieve engine neural arithmetic platform config host)
  | .memoryIngest => do
    Effect.throwIf config.readOnly
      (.invalidParams "server is read-only; memory_ingest is disabled")
    some <$> dispatch libraries MemoryIngestArgs.parse (mapIngestError libraries) tool arguments
      (handleMemoryIngest platform libraries config host)
  | .memoryGet => some <$> dispatch libraries MemoryGetArgs.parse (mapLookupError libraries) tool
      arguments (handleMemoryGet platform libraries config host)
  | .memoryList => some <$> dispatch libraries MemoryListArgs.parse (mapListError libraries) tool
      arguments (handleMemoryList platform config host)
  | .memoryScopes => some <$> ExceptT.adapt (internal libraries) (handleMemoryScopes config host)
  | .memoryRevisions => dispatch libraries MemoryRevisionsArgs.parse (mapLookupError libraries) tool
      arguments (handleMemoryRevisions platform libraries config host)
  | .memoryGraphAdd => some <$> dispatch libraries (MemoryGraphAddArgs.parse libraries)
      (mapGraphWriteError libraries tool.name) tool arguments
      (handleMemoryGraphAdd platform libraries config host)
  | .memoryGraphQuery => some <$> dispatch libraries MemoryGraphQueryArgs.parse
      (mapGraphReadError libraries) tool arguments
      (handleMemoryGraphQuery platform libraries config host)
  | .memoryGraphInvalidate => some <$> dispatch libraries MemoryGraphInvalidateArgs.parse
      (mapGraphWriteError libraries tool.name) tool arguments
      (handleMemoryGraphInvalidate platform libraries config host)
  | .memoryGraphSupersede => some <$> dispatch libraries MemoryGraphSupersedeArgs.parse
      (mapGraphWriteError libraries tool.name) tool arguments
      (handleMemoryGraphSupersede platform libraries config host)
  | .memoryGraphTimeline => some <$> dispatch libraries MemoryGraphTimelineArgs.parse
      (mapGraphReadError libraries) tool arguments
      (handleMemoryGraphTimeline platform libraries config host)
  | .memoryGraphStats => some <$> dispatch libraries MemoryGraphStatsArgs.parse
      (mapGraphReadError libraries) tool arguments (handleMemoryGraphStats platform config host)
  | .memoryGraphEntities => some <$> dispatch libraries MemoryGraphEntitiesArgs.parse
      (mapGraphReadError libraries) tool arguments (handleMemoryGraphEntities platform config host)
  | .memoryGraphHistory => dispatch libraries MemoryGraphHistoryArgs.parse
      (mapGraphReadError libraries) tool arguments
      (handleMemoryGraphHistory platform libraries config host)
  | .memoryWakeup => some <$> dispatch libraries MemoryWakeupArgs.parse (mapWakeupError libraries)
      tool arguments (handleMemoryWakeup platform config host)

/-- Call a tool by its name. -/
def callTool (name : String) (arguments : Option (List (String × Json))) :
    Effect McpError Database (Option String) :=
  match Tool.ofName name with
  | some tool => runTool engine neural arithmetic platform libraries config host tool arguments
  | none => throw .methodNotFound

/-- The tools a server lists. -/
def listTools : List Tool := Tool.readers ++ if config.readOnly then [] else Tool.writers

/-- The only prompt. -/
def wakeUp : String := "wake-up"

/-- The project of a prompt. -/
def promptProject (arguments : Option (List (String × Json))) :
    Effect McpError Database (Option String) :=
  match (arguments.map Json.object).bind (·.get "project") with
  | none => pure none
  | some (.string project) => pure (some project)
  | some _ => throw (.invalidParams "prompt argument 'project' must be a string")

/-- Build a prompt. -/
def getPrompt (name : String) (arguments : Option (List (String × Json))) :
    Effect McpError Database Answer := do
  Effect.throwIf (name ≠ wakeUp) (.invalidParams ("prompt not found: " ++ name))
  let project ← promptProject arguments
  let text ← ExceptT.adapt (mapWakeupError libraries)
    (handleMemoryWakeup platform config host ⟨project, none, none, none, none⟩)
  return .prompt "Singularmem wake-up" text

/-- What the identifier of a resource starts with. -/
def uriPrefix : String := "singularmem://memory/"

/-- The text of a memory as a resource. -/
def resourceText (item : Item) : String :=
  "id: " ++ item.id.ulid.display ++ "\ncreated_at: " ++ platform.displayTime item.createdAt ++
    "\nscope: " ++ item.scope.getD "-" ++ "\nsource: " ++ item.source.getD "-" ++ "\ntags: " ++
    (if item.tags.isEmpty then "-" else ", ".intercalate item.tags) ++ "\n\n" ++ item.content

/-- The error of a resource that is not there. -/
def missingResource (uri : String) : McpError := .resourceNotFound ("resource not found: " ++ uri)

/-- The memory a resource is. -/
def resourceId (uri : String) : Effect McpError Database ItemId :=
  match (ScopeFilter.stripPrefix uri uriPrefix).bind (ItemId.fromStr ∘ String.ofList) with
  | some id => pure id
  | none => throw (missingResource uri)

/-- Read a resource. -/
def readResource (uri : String) : Effect McpError Database Answer := do
  let id ← resourceId uri
  let tables ← ExceptT.adapt (internal libraries) (openStoreForReading config host)
  match loadItem platform tables id with
  | .ok item => return .resource uri "text/plain" (resourceText platform item)
  | .error (.notFound _) => throw (missingResource uri)
  | .error error => throw (internal libraries (.reading (.core error)))

/-- Handle a request. -/
def handle : Request → Effect McpError Database (Option Answer)
  | .listTools => pure (some (.tools ((listTools config).map Tool.name)))
  | .callTool name arguments =>
    Option.map .content <$>
      callTool engine neural arithmetic platform libraries config host name arguments
  | .listPrompts => pure (some (.prompts [wakeUp]))
  | .getPrompt name arguments => some <$> getPrompt platform libraries config host name arguments
  | .listResources => pure (some (.resources []))
  | .listResourceTemplates => pure (some (.resourceTemplates ["singularmem://memory/\x7bid\x7d"]))
  | .readResource uri => some <$> readResource platform libraries config host uri

end Singularmem.Mcp
