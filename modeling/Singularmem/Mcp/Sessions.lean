import Singularmem.Core.RevisionWalks
import Singularmem.Mcp.RequestEffects

/-!
# Sessions

Servers answer requests one after the other, and other processes write between them. A request
that names a listed writing tool makes one write call if it is answered; any other leaves the
database as it is, and so does one that is answered with an error. No request is left without
an answer: the walks along revisions end. A memory that was ingested is read back by any later
request for it.
-/

namespace Singularmem.Mcp

open Library Singularmem.Core Singularmem.Graph Singularmem.Search Singularmem.Retrieve
open Effect hiding ofExcept

section Walks

variable {platform : Platform} {tables : Tables}

/-- The link of a loaded item leads to a stored one further up the table. -/
theorem loaded_link_falls (backward : itemLinks.Backward tables.items.rows) {id prior : ItemId}
    {item : Item} (loaded : loadItem platform tables id = .ok item)
    (linked : item.supersedes = some prior) :
    itemPosition tables prior < itemPosition tables id := by
  obtain ⟨known, shelved, rfl, read⟩ := loadItem_from_shelf loaded
  have same := (readShelved_portrays read).1.supersedes
  obtain ⟨row, stored, rfl⟩ := List.mem_map.mp shelved
  exact (directlySupersedes_falls backward ⟨row, stored, rfl, same ▸ linked⟩).2

/-- The walk back from an item is over after as many steps as the position of the item. -/
theorem revisionHistory_over (backward : itemLinks.Backward tables.items.rows) (fuel : Nat)
    (id : ItemId) (enough : itemPosition tables id < fuel) :
    revisionHistory platform tables fuel id ≠ none := by
  induction fuel generalizing id with
  | zero => exact absurd enough (Nat.not_lt_zero _)
  | succ fuel inductionHypothesis =>
    rw [revisionHistory]
    rcases loaded : loadItem platform tables id with error | item
    · simp
    · rcases linked : item.supersedes with _ | prior
      · simp [linked]
      · have falls := loaded_link_falls backward loaded linked
        simpa [linked] using inductionHypothesis prior (by omega)

end Walks

variable {Parsed : Type} {engine : TextEngine Parsed} {neural : SemanticEngine}
  {arithmetic : Arithmetic} {platform : Platform} {libraries : Libraries}
  {config : ServerConfig} {host : Host}

section Answers

/-- What a reading handler opens is the database. -/
theorem openStoreForReading_returned {database after : Database} {tables : Tables}
    (returned : exec (openStoreForReading config host) database = (.ok tables, after)) :
    tables = database.tables ∧ after = database := by
  obtain ⟨_, middle, opened, rest⟩ := exec_bind_returned returned
  obtain rfl := (reads_openStore _).after opened
  rw [exec_bind_ok (exec_get _)] at rest
  cases rest
  exact ⟨rfl, rfl⟩

/-- A call of a tool that returned parsed its arguments and ran its handler. -/
theorem dispatch_returned {α β : Type} {parse : Json → Option α} {mapError : ToolError → McpError}
    {tool : Tool} {arguments : Option (List (String × Json))} {handler : α → Handler β}
    {database after : Database} {value : β}
    (returned : exec (dispatch libraries parse mapError tool arguments handler) database =
      (.ok value, after)) :
    ∃ args, parse (.object (arguments.getD [])) = some args ∧
      exec (handler args) database = (.ok value, after) := by
  obtain ⟨args, parsed, ran⟩ := ofExcept_bind_returned returned
  refine ⟨args, ?_, ?_⟩
  · unfold parseCallArgs at parsed
    rcases read : parse (.object (arguments.getD [])) with _ | given
    · simp [read] at parsed
    · simpa [read] using parsed
  · rw [exec_adapt] at ran
    rcases began : exec (handler args) database with ⟨error | result, middle⟩
    · rw [began] at ran
      cases ran
    · rw [began] at ran
      cases ran
      rfl

/-- A handler of a revision history answers. -/
theorem handleMemoryRevisions_answers {database : Database} {args : MemoryRevisionsArgs}
    (backward : itemLinks.Backward database.tables.items.rows) (after : Database) :
    exec (handleMemoryRevisions platform libraries config host args) database ≠
      (.ok none, after) := by
  intro returned
  obtain ⟨id, middle, read, rest⟩ := exec_bind_returned returned
  obtain rfl := (reads_readId _).after read
  obtain ⟨tables, _, opened, rest⟩ := exec_bind_returned rest
  obtain ⟨rfl, rfl⟩ := openStoreForReading_returned opened
  split at rest
  case h_1 endless =>
    refine revisionHistory_over backward _ id ?_ endless
    exact Nat.lt_succ_of_le List.findIdx_le_length
  case h_2 =>
    obtain ⟨_, _, _, rest⟩ := exec_bind_returned rest
    cases rest

/-- A handler of a fact history answers. -/
theorem handleMemoryGraphHistory_answers {database : Database} {args : MemoryGraphHistoryArgs}
    (after : Database) :
    exec (handleMemoryGraphHistory platform libraries config host args) database ≠
      (.ok none, after) := by
  intro returned
  obtain ⟨id, middle, read, rest⟩ := exec_bind_returned returned
  obtain rfl := (reads_readFactId _).after read
  obtain ⟨tables, _, opened, rest⟩ := exec_bind_returned rest
  obtain ⟨rfl, rfl⟩ := openStoreForReading_returned opened
  split at rest
  case h_1 endless =>
    obtain ⟨outcome, walked⟩ := @factHistory_ends platform _ id
    rw [walked _ (Nat.lt_succ_self _)] at endless
    cases endless
  case h_2 =>
    obtain ⟨_, _, _, rest⟩ := exec_bind_returned rest
    cases rest

/-- **No tool is left without an answer** over a database whose links lead backward. -/
theorem runTool_answers {database : Database}
    (backward : itemLinks.Backward database.tables.items.rows) (tool : Tool)
    (arguments : Option (List (String × Json))) (after : Database) :
    exec (runTool engine neural arithmetic platform libraries config host tool arguments) database ≠
      (.ok none, after) := by
  have answered : ∀ {action : Effect McpError Database String} {state : Database},
      exec (some <$> action) state ≠ (.ok none, after) := by
    intro action state returned
    obtain ⟨_, _, impossible⟩ := map_returned returned
    cases impossible
  intro returned
  cases tool with
  | memoryRevisions =>
    obtain ⟨args, -, ran⟩ := dispatch_returned returned
    exact handleMemoryRevisions_answers backward after ran
  | memoryGraphHistory =>
    obtain ⟨args, -, ran⟩ := dispatch_returned returned
    exact handleMemoryGraphHistory_answers after ran
  | memoryIngest =>
    obtain ⟨_, _, _, rest⟩ := exec_bind_returned returned
    exact answered rest
  | memoryRetrieve | memoryGet | memoryList | memoryScopes | memoryWakeup | memoryGraphQuery
  | memoryGraphTimeline | memoryGraphStats | memoryGraphEntities | memoryGraphAdd
  | memoryGraphInvalidate | memoryGraphSupersede => exact answered returned

end Answers

section Requests

/-- The tool of a name has that name. -/
theorem ofName_name (tool : Tool) : Tool.ofName tool.name = some tool := by
  cases tool <;> rfl

/-- A request that names a tool which the server lists and which writes. -/
def Writing (config : ServerConfig) (request : Request) : Prop :=
  ∃ tool ∈ listTools config, tool ∈ Tool.writers ∧ ∃ arguments,
    request = .callTool tool.name arguments

/-- The tool of a name. -/
theorem name_of_ofName {name : String} {tool : Tool} (found : Tool.ofName name = some tool) :
    tool.name = name := by
  simpa using List.find?_some found

/-- A tool either reads or writes. -/
theorem reader_or_writer (tool : Tool) : tool ∈ Tool.readers ∨ tool ∈ Tool.writers := by
  cases tool <;> decide

/-- A server that may not write lists no tool that does. -/
theorem mem_listTools {tool : Tool} (writer : tool ∈ Tool.writers) :
    tool ∈ listTools config ↔ config.readOnly = false := by
  have notReader : tool ∉ Tool.readers := by
    revert writer
    cases tool <;> decide
  rw [listTools, List.mem_append, or_iff_right notReader]
  cases config.readOnly <;> simp [writer]

/-- **A request that is no listed writing tool** leaves the database as it is. -/
theorem reads_handle {request : Request} (reading : ¬ Writing config request) :
    Reads (handle engine neural arithmetic platform libraries config host request) := by
  cases request with
  | listTools | listPrompts | listResources | listResourceTemplates => exact .pure _
  | getPrompt name arguments => exact .map _ (reads_getPrompt name arguments)
  | readResource uri => exact .map _ (reads_readResource uri)
  | callTool name arguments =>
    refine .map _ ?_
    unfold callTool
    split
    case h_2 => exact .throw _
    case h_1 tool found =>
      rcases reader_or_writer tool with reader | writer
      · exact reads_runTool reader arguments
      · have readOnly : config.readOnly = true := by
          refine Bool.eq_true_of_not_eq_false fun writable => reading ?_
          exact ⟨tool, (mem_listTools writer).mpr writable, writer, arguments,
            by rw [name_of_ofName found]⟩
        obtain ⟨message, refused⟩ := @runTool_refused _ engine neural arithmetic platform libraries
          config host readOnly tool writer arguments
        exact fun database => by rw [refused]

/-- **Any request** moves the database by one write call at most, and not where it fails. -/
theorem moves_handle (request : Request) : MovesOnce (Performs platform host.env)
    (handle engine neural arithmetic platform libraries config host request) := by
  by_cases writing : Writing config request
  · obtain ⟨tool, _, _, arguments, rfl⟩ := writing
    refine .map _ ?_
    rw [callTool, ofName_name]
    exact moves_runTool tool arguments
  · exact .of_reads (reads_handle writing)

/-- **Every request is answered** over a database whose links lead backward. -/
theorem handle_answers {database : Database}
    (backward : itemLinks.Backward database.tables.items.rows) (request : Request) :
    (exec (handle engine neural arithmetic platform libraries config host request) database).1 ≠
      .ok none := by
  intro unanswered
  rcases ran : exec (handle engine neural arithmetic platform libraries config host request)
    database with ⟨outcome, after⟩
  rw [ran] at unanswered
  subst unanswered
  cases request with
  | listTools | listPrompts | listResources | listResourceTemplates => cases ran
  | getPrompt name arguments =>
    obtain ⟨_, _, impossible⟩ := map_returned ran
    cases impossible
  | readResource uri =>
    obtain ⟨_, _, impossible⟩ := map_returned ran
    cases impossible
  | callTool name arguments =>
    obtain ⟨text, called, none⟩ := map_returned ran
    cases text with
    | some text => cases none
    | none =>
      unfold callTool at called
      split at called
      case h_1 tool _ => exact runTool_answers backward tool arguments after called
      case h_2 => cases called

/-- A call of a tool that the server does not list is refused. -/
theorem handle_refuses {tool : Tool} (writer : tool ∈ Tool.writers)
    (unlisted : tool ∉ listTools config) (arguments : Option (List (String × Json)))
    (database : Database) : ∃ message,
      (exec (handle engine neural arithmetic platform libraries config host
        (.callTool tool.name arguments)) database).1 = .error (.invalidParams message) := by
  have readOnly : config.readOnly = true :=
    Bool.eq_true_of_not_eq_false fun writable => unlisted ((mem_listTools writer).mpr writable)
  obtain ⟨message, refused⟩ := @runTool_refused _ engine neural arithmetic platform libraries config
    host readOnly tool writer arguments
  refine ⟨message, ?_⟩
  rw [handle, exec_map, callTool, ofName_name]
  simp only [refused]
  rfl

end Requests

section Runs

/-- A request to a server, or a write of another process. -/
inductive Event
  | request (config : ServerConfig) (host : Host) (request : Request)
  | write (env : Env) (call : WriteCall)

variable (engine neural arithmetic platform libraries)

/-- The database after an event. -/
def Event.run (database : Database) : Event → Database
  | .request config host asked =>
    (exec (handle engine neural arithmetic platform libraries config host asked) database).2
  | .write env call => written platform env call database

/-- The database after a sequence of events. -/
def runEvents (events : List Event) (database : Database) : Database :=
  events.foldl (Event.run engine neural arithmetic platform libraries) database

variable {engine neural arithmetic platform libraries}

/-- **One event** makes one write call at most. -/
theorem Event.run_cases (event : Event) (database : Database) :
    event.run engine neural arithmetic platform libraries database = database ∨
      ∃ env call, event.run engine neural arithmetic platform libraries database =
        written platform env call database := by
  cases event with
  | write env call => exact .inr ⟨env, call, rfl⟩
  | request config host asked =>
    rcases moves_handle asked database _ _ rfl with same | ⟨-, call, moved⟩
    · exact .inl same
    · exact .inr ⟨host.env, call, moved⟩

/-- **One event** keeps what a database keeps. -/
theorem Event.run_kept (event : Event) {database : Database}
    (kept : DatabaseKept platform database.tables) :
    DatabaseKept platform (event.run engine neural arithmetic platform libraries database).tables := by
  rcases event.run_cases database with same | ⟨env, call, moved⟩
  · rwa [same]
  · rw [moved]
    exact @WriteCall.perform_kept platform env call ⟨false, database⟩ kept

/-- **One event** lets the tables grow. -/
theorem Event.run_grows (event : Event) (database : Database) :
    Grows database.tables
      (event.run engine neural arithmetic platform libraries database).tables := by
  rcases event.run_cases database with same | ⟨env, call, moved⟩
  · rw [same]
    exact .refl _
  · rw [moved]
    exact @WriteCall.perform_grows platform env call ⟨false, database⟩

/-- **A run** keeps what a database keeps. -/
theorem runEvents_kept (events : List Event) {database : Database}
    (kept : DatabaseKept platform database.tables) : DatabaseKept platform
      (runEvents engine neural arithmetic platform libraries events database).tables := by
  induction events generalizing database with
  | nil => exact kept
  | cons event rest inductionHypothesis => exact inductionHypothesis (event.run_kept kept)

/-- **A run** lets the tables grow. -/
theorem runEvents_grows (events : List Event) (database : Database) :
    Grows database.tables
      (runEvents engine neural arithmetic platform libraries events database).tables := by
  induction events generalizing database with
  | nil => exact .refl _
  | cons event rest inductionHypothesis =>
    exact (event.run_grows database).trans (inductionHypothesis _)

/-- A run up to an event, the event, and the rest. -/
theorem runEvents_split (earlier later : List Event) (event : Event) (database : Database) :
    runEvents engine neural arithmetic platform libraries (earlier ++ event :: later) database =
      runEvents engine neural arithmetic platform libraries later
        (event.run engine neural arithmetic platform libraries
          (runEvents engine neural arithmetic platform libraries earlier database)) := by
  rw [runEvents, List.foldl_append]
  rfl

/-- **Sessions.** Whatever servers are asked and other processes write, the database keeps what
it keeps and loses nothing. Each request is answered. It makes one write call exactly where it
names a listed writing tool and is answered without an error, and leaves the database as it is
otherwise; a writing tool that is not listed is refused. -/
theorem sessions_keep_the_database (earlier later : List Event) (config : ServerConfig)
    (host : Host) (request : Request) {start : Database} (kept : DatabaseKept platform start.tables) :
    let past := runEvents engine neural arithmetic platform libraries earlier start
    let answer := exec (handle engine neural arithmetic platform libraries config host request) past
    let present := runEvents engine neural arithmetic platform libraries
      (earlier ++ .request config host request :: later) start
    DatabaseKept platform present.tables ∧ Grows past.tables present.tables ∧
      answer.1 ≠ .ok none ∧
      (answer.2 = past ∨ Writing config request ∧ (∃ given, answer.1 = .ok (some given)) ∧
        ∃ call, answer.2 = written platform host.env call past) ∧
      ∀ tool ∈ Tool.writers, tool ∉ listTools config → ∀ arguments,
        request = .callTool tool.name arguments →
          answer.2 = past ∧ ∃ message, answer.1 = .error (.invalidParams message) := by
  intro past answer present
  have keptPast : DatabaseKept platform past.tables := runEvents_kept earlier kept
  have answered : answer.1 ≠ .ok none := handle_answers keptPast.links request
  refine ⟨runEvents_kept _ kept, ?_, answered, ?_, ?_⟩
  · rw [show present = _ from runEvents_split earlier later _ start]
    exact (Event.run_grows _ past).trans (runEvents_grows later _)
  · by_cases writing : Writing config request
    · rcases moves_handle request past answer.1 answer.2 rfl with same | ⟨⟨given, returned⟩, call, moved⟩
      · exact .inl same
      · cases given with
        | none => exact absurd returned answered
        | some given => exact .inr ⟨writing, ⟨given, returned⟩, call, moved⟩
    · exact .inl (reads_handle writing past)
  · rintro tool writer unlisted arguments rfl
    refine ⟨reads_handle ?_ past, handle_refuses writer unlisted arguments past⟩
    rintro ⟨other, listed, -, _, same⟩
    have named : tool.name = other.name := (Request.callTool.inj same).1
    have equal : some tool = some other := by rw [← ofName_name, named, ofName_name]
    exact unlisted (Option.some.inj equal ▸ listed)

end Runs

section Memories

/-- A stored memory says what was submitted. -/
structure Remembers (platform : Platform) (env : Env) (args : MemoryIngestArgs) (stored : Item) :
    Prop where
  content : stored.content = args.content
  createdAt : stored.createdAt = env.now
  source : stored.source = args.source
  tags : normaliseTags (args.tags.getD []) = .ok stored.tags
  supersedes : stored.supersedes = args.supersedes.bind ItemId.fromStr

/-- A call on the open store that returned. -/
theorem onStore_returned {α : Type} {call : StoreCall α} {database after : Database} {value : α}
    (returned : exec (onStore call) database = (.ok value, after)) :
    ∃ store, exec call ⟨false, database⟩ = (.ok value, store) ∧ after = store.database := by
  rcases began : exec call ⟨false, database⟩ with ⟨outcome, store⟩
  have final : exec (onStore call) database =
      (outcome.mapError fun error => .reading (.core error), store.database) := by
    change ((exec call ⟨false, database⟩).1.mapError _, (exec call ⟨false, database⟩).2.database) = _
    rw [began]
  rw [final] at returned
  obtain ⟨result, rfl⟩ := Prod.mk.inj returned
  exact ⟨store, by rw [mapError_returned result], rfl⟩

/-- Optional identifiers that were read. -/
theorem mapM_readId_returned {text : Option String} {database after : Database}
    {id : Option ItemId}
    (returned : exec (text.mapM (readId libraries)) database = (.ok id, after)) :
    id = text.bind ItemId.fromStr := by
  cases text with
  | none =>
    cases returned
    rfl
  | some text =>
    obtain ⟨value, read, rfl⟩ := map_returned returned
    unfold readId at read
    rw [Option.bind_some]
    split at read
    case h_1 found =>
      cases read
      exact found.symm
    case h_2 => cases read

/-- What `memory_ingest` stored when it answered. -/
theorem handleMemoryIngest_returned {args : MemoryIngestArgs} {database after : Database}
    {text : String} (returned : exec (handleMemoryIngest platform libraries config host args)
      database = (.ok text, after)) :
    ∃ stored store, exec (ingest platform host.env (args.item (args.supersedes.bind ItemId.fromStr)))
        ⟨false, database⟩ = (.ok stored, store) ∧ after = store.database ∧
      text = ingestedText platform stored := by
  obtain ⟨-, parsing⟩ := throwIf_bind_returned returned
  obtain ⟨supersedes, middle, read, opening⟩ := exec_bind_returned parsing
  obtain rfl := (reads_mapM_readId _).after read
  obtain rfl := mapM_readId_returned read
  obtain ⟨_, opened, unlocked, storing⟩ := exec_bind_returned opening
  obtain rfl := reads_openStoreWithHooks.after unlocked
  obtain ⟨stored, left, made, told⟩ := exec_bind_returned storing
  cases told
  obtain ⟨store, ran, rfl⟩ := onStore_returned made
  exact ⟨stored, store, ran, rfl, rfl⟩

/-- What reading a row gives that an item portrays. -/
theorem readShelved_portrayed {item : Item} {known : Shelved}
    (portrays : item.Portrays platform known) : readShelved platform known =
      if known.1.metadata.depth < Json.recursionLimit then
        .ok { item with metadata := known.1.metadata.reread platform,
                        externalId := known.1.externalId, scope := known.1.scope }
      else .error (.json "parsing stored metadata JSON" "recursion limit exceeded") := by
  simp only [readShelved, parseCreatedAt, portrays.createdAt, Json.parse, portrays.id,
    portrays.content, portrays.supersedes, portrays.tags, portrays.source]
  split <;> rfl

/-- An item says of a row what it says of what the row stayed. -/
theorem portrays_stays {item : Item} {before after : Shelved}
    (portrays : item.Portrays platform before) (stays : Stays before after) :
    item.Portrays platform after := by
  obtain ⟨_, _, rfl⟩ := stays
  exact ⟨portrays.id, portrays.content, portrays.createdAt, portrays.supersedes, portrays.tags,
    portrays.source⟩

/-- The memory that was ingested is on the shelf, as it was submitted. -/
theorem ingest_remembers (keeps : platform.KeepsTimes) {args : MemoryIngestArgs} {stored : Item}
    {store after : Store} (returned : exec (ingest platform host.env
      (args.item (args.supersedes.bind ItemId.fromStr))) store = (.ok stored, after)) :
    Remembers platform host.env args stored ∧ ∃ known ∈ after.database.tables.shelf,
      stored.Portrays platform known ∧ known.1.metadata = args.metadata.getD (.object []) := by
  obtain ⟨validated, accepted, rfl⟩ := ingest_stored returned
  obtain ⟨-, -, recent, -, again, acceptedAgain, shelf⟩ := ingest_shelves returned
  cases accepted.symm.trans acceptedAgain
  refine ⟨⟨rfl, rfl, rfl, (validatesAs accepted).tags, rfl⟩, _,
    shelf ▸ List.mem_append_right _ (List.mem_singleton_self _),
    (storedItem_portrays keeps recent accepted).1, rfl⟩

/-- The answer to a request for a memory: its text, unless its metadata nests too deep. -/
def lookedUp (libraries : Libraries) (args : MemoryIngestArgs) (answer : Answer) :
    Except McpError (Option Answer) :=
  if (args.metadata.getD (.object [])).depth < Json.recursionLimit then .ok (some answer)
  else .error (.internalError (libraries.describe (.core
    (.json "parsing stored metadata JSON" "recursion limit exceeded"))))

/-- A store that can be opened is. -/
theorem exec_openStoreForReading (opens : host.openError config.readOnly = none)
    (database : Database) :
    exec (openStoreForReading config host) database = (.ok database.tables, database) := by
  simp only [openStoreForReading, openStore, opens]
  rfl

/-- **A request for a memory** by its identifier. -/
theorem exec_memoryGet (opens : host.openError config.readOnly = none) (id : ItemId)
    (database : Database) :
    (exec (handle engine neural arithmetic platform libraries config host
      (.callTool "memory_get" (some [("id", .string id.ulid.display)]))) database).1 =
      match loadItem platform database.tables id with
      | .ok item => .ok (some (.content (memoryText platform item)))
      | .error error => .error (mapLookupError libraries (.reading (.core error))) := by
  have read : readId libraries id.ulid.display = pure id := by
    rw [readId, ItemId.fromStr_display]
  have handled : exec (handleMemoryGet platform libraries config host ⟨id.ulid.display⟩) database =
      (((loadItem platform database.tables id).map (memoryText platform)).mapError
        fun error => .reading (.core error), database) := by
    rw [handleMemoryGet, read, pure_bind, exec_bind_ok (exec_openStoreForReading opens database),
      exec_bind, ofCore, ofReading, exec_ofExcept]
    cases loadItem platform database.tables id <;> rfl
  have dispatched : exec (dispatch libraries MemoryGetArgs.parse (mapLookupError libraries)
      .memoryGet (some [("id", .string id.ulid.display)])
      (handleMemoryGet platform libraries config host)) database =
      ((exec (handleMemoryGet platform libraries config host ⟨id.ulid.display⟩) database).1.mapError
        (mapLookupError libraries), database) := by
    change exec (Effect.ofExcept (.ok (MemoryGetArgs.mk id.ulid.display)) >>= _) database = _
    rw [exec_bind_ok (exec_ofExcept _ _), exec_adapt, handled]
  have called : callTool engine neural arithmetic platform libraries config host "memory_get"
      (some [("id", .string id.ulid.display)]) = some <$> dispatch libraries MemoryGetArgs.parse
        (mapLookupError libraries) .memoryGet (some [("id", .string id.ulid.display)])
        (handleMemoryGet platform libraries config host) := rfl
  rw [handle, exec_map, called, exec_map, dispatched, handled]
  cases loadItem platform database.tables id <;> rfl

/-- **A request for the resource** of a memory. -/
theorem exec_readResource (opens : host.openError config.readOnly = none) (id : ItemId)
    (database : Database) :
    (exec (handle engine neural arithmetic platform libraries config host
      (.readResource (uriPrefix ++ id.ulid.display))) database).1 =
      match loadItem platform database.tables id with
      | .ok item => .ok (some (.resource (uriPrefix ++ id.ulid.display) "text/plain"
          (resourceText platform item)))
      | .error (.notFound _) => .error (missingResource (uriPrefix ++ id.ulid.display))
      | .error error => .error (internal libraries (.reading (.core error))) := by
  have stripped : (ScopeFilter.stripPrefix (uriPrefix ++ id.ulid.display) uriPrefix).bind
      (ItemId.fromStr ∘ String.ofList) = some id := by
    simp [ScopeFilter.stripPrefix, String.toList_append, ItemId.fromStr_display]
  have named : resourceId (uriPrefix ++ id.ulid.display) = pure id := by
    rw [resourceId, stripped]
  have opened : exec (ExceptT.adapt (internal libraries) (openStoreForReading config host) :
      Effect McpError Database Tables) database = (.ok database.tables, database) := by
    rw [exec_adapt, exec_openStoreForReading opens]
    rfl
  rw [handle, exec_map, readResource, named, pure_bind, exec_bind_ok opened]
  cases loadItem platform database.tables id with
  | ok item => rfl
  | error error => cases error <;> rfl

/-- **A memory that was ingested is read back.** After a server answered `memory_ingest`, and
whatever servers are asked and other processes write afterwards, the text of the answer names
a memory that says what was submitted, and each request for it by its identifier, to any
server that can open the store, is answered with that memory: only its scope may have changed.
What nests too deep to be parsed again is an internal error. -/
theorem ingested_memory_is_read_back (keeps : platform.KeepsTimes) (earlier later : List Event)
    (config : ServerConfig) (host : Host) (arguments : Option (List (String × Json)))
    (start : Database) {text : String}
    (ingested : (exec (handle engine neural arithmetic platform libraries config host
      (.callTool "memory_ingest" arguments))
      (runEvents engine neural arithmetic platform libraries earlier start)).1 =
        .ok (some (.content text))) :
    let present := runEvents engine neural arithmetic platform libraries
      (earlier ++ .request config host (.callTool "memory_ingest" arguments) :: later) start
    ∃ args stored, MemoryIngestArgs.parse (.object (arguments.getD [])) = some args ∧
      Remembers platform host.env args stored ∧ text = ingestedText platform stored ∧
      ∀ config' host', Host.openError host' config'.readOnly = none →
        (exec (handle engine neural arithmetic platform libraries config' host'
          (.callTool "memory_get" (some [("id", .string stored.id.ulid.display)]))) present).1 =
            lookedUp libraries args (.content (memoryText platform stored)) ∧
        ∃ scope, (exec (handle engine neural arithmetic platform libraries config' host'
          (.readResource (uriPrefix ++ stored.id.ulid.display))) present).1 =
            lookedUp libraries args (.resource (uriPrefix ++ stored.id.ulid.display) "text/plain"
              (resourceText platform { stored with scope })) := by
  intro present
  rcases ran : exec (handle engine neural arithmetic platform libraries config host
    (.callTool "memory_ingest" arguments))
    (runEvents engine neural arithmetic platform libraries earlier start) with ⟨outcome, after⟩
  rw [ran] at ingested
  subst ingested
  obtain ⟨given, called, shown⟩ := map_returned ran
  obtain ⟨told, rfl⟩ : ∃ told, given = some told := by
    cases given with
    | none => cases shown
    | some told => exact ⟨told, rfl⟩
  cases shown
  obtain ⟨-, dispatching⟩ := throwIf_bind_returned called
  obtain ⟨_, dispatched, same⟩ := map_returned dispatching
  cases same
  obtain ⟨args, parsed, handled⟩ := dispatch_returned dispatched
  obtain ⟨stored, store, made, rfl, rfl⟩ := handleMemoryIngest_returned handled
  obtain ⟨remembers, known, shelved, portrays, metadata⟩ := ingest_remembers keeps made
  obtain ⟨still, stands, stays⟩ : ∃ still ∈ present.tables.shelf, Stays known still := by
    rw [show present = _ from runEvents_split earlier later _ start]
    refine (runEvents_grows later _).shelf.mem ?_
    rw [Event.run, ran]
    exact shelved
  have portraysStill := portrays_stays portrays stays
  have loaded : loadItem platform present.tables stored.id =
      if (args.metadata.getD (.object [])).depth < Json.recursionLimit then
        .ok { stored with metadata := still.1.metadata.reread platform,
                          externalId := still.1.externalId, scope := still.1.scope }
      else .error (.json "parsing stored metadata JSON" "recursion limit exceeded") := by
    have kept : still.1.metadata = args.metadata.getD (.object []) := by
      obtain ⟨_, _, rfl⟩ := stays
      exact metadata
    have read := @loadItem_shelved platform _ _ stands
    rw [← portraysStill.id] at read
    rw [read, readShelved_portrayed portraysStill, kept]
  refine ⟨args, stored, parsed, remembers, rfl, fun config' host' opens => ?_⟩
  rw [exec_memoryGet opens]
  refine ⟨?_, still.1.scope, ?_⟩
  · rw [loaded, lookedUp]
    by_cases shallow : (args.metadata.getD (.object [])).depth < Json.recursionLimit
    · rw [if_pos shallow, if_pos shallow]
      rfl
    · rw [if_neg shallow, if_neg shallow]
      rfl
  · rw [exec_readResource opens, loaded, lookedUp]
    by_cases shallow : (args.metadata.getD (.object [])).depth < Json.recursionLimit
    · rw [if_pos shallow, if_pos shallow]
      rfl
    · rw [if_neg shallow, if_neg shallow]
      rfl

end Memories

/-- Libraries with short texts. -/
def shortTexts : Libraries :=
  ⟨⟨id, fun _ => "0.0000"⟩, fun _ => "1.00", fun _ => "invalid length", fun _ => "failed",
    fun _ _ => "missing field", fun _ => .one⟩

/-- A host without indexes whose store can be opened. -/
def plainHost (draw : Nat) : Host :=
  ⟨zebraEnv draw, fun _ => none, none, none, none, .error "deleted", fun _ => false, ⟨some⟩⟩

/-- A server that may write, or not. -/
def claudeServing (readOnly : Bool) : ServerConfig := ⟨⟨"claude", [claudeAdapter], readOnly⟩, none⟩

/-- A request that stores a memory. -/
def askIngest : Request := .callTool "memory_ingest" (some [("content", .string "zebra")])

/-- One server stores a memory; another, read-only, refuses to. -/
theorem two_servers_keep_the_database :
    let past := runEvents wordEngine threeNeighbours wholeNumbers .ascii shortTexts
      [.request (claudeServing false) (plainHost 1) askIngest] .fresh
    let answer := exec (handle wordEngine threeNeighbours wholeNumbers .ascii shortTexts
      (claudeServing true) (plainHost 2) askIngest) past
    past.tables.items.rows.length = 1 ∧ DatabaseKept .ascii past.tables ∧ answer.2 = past ∧
      ∃ message, answer.1 = .error (.invalidParams message) := by
  have session := @sessions_keep_the_database _ wordEngine threeNeighbours wholeNumbers .ascii
    shortTexts [.request (claudeServing false) (plainHost 1) askIngest] []
    (claudeServing true) (plainHost 2) askIngest .fresh fresh_kept
  obtain ⟨kept, -, -, -, refused⟩ := session
  obtain ⟨same, message, refusal⟩ := refused .memoryIngest (by decide) (by decide) _ rfl
  refine ⟨by decide +kernel, ?_, same, message, refusal⟩
  rwa [runEvents_split, Event.run, same] at kept

/-- The stored memory is read back by a read-only server. -/
theorem zebra_is_read_back :
    let present := runEvents wordEngine threeNeighbours wholeNumbers .ascii shortTexts
      [.request (claudeServing false) (plainHost 1) askIngest] .fresh
    ∃ stored : Item, stored.content = "zebra" ∧
      (exec (handle wordEngine threeNeighbours wholeNumbers .ascii shortTexts (claudeServing true)
        (plainHost 2) (.callTool "memory_get" (some [("id", .string stored.id.ulid.display)])))
        present).1 = .ok (some (.content (memoryText .ascii stored))) := by
  obtain ⟨text, answered⟩ : ∃ text, (exec (handle wordEngine threeNeighbours wholeNumbers .ascii
      shortTexts (claudeServing false) (plainHost 1) askIngest)
      (runEvents wordEngine threeNeighbours wholeNumbers .ascii shortTexts [] .fresh)).1 =
        .ok (some (.content text)) := ⟨_, rfl⟩
  obtain ⟨args, stored, parsed, remembers, -, reads⟩ :=
    ingested_memory_is_read_back Platform.ascii_keepsTimes [] [] (claudeServing false) (plainHost 1)
      _ .fresh answered
  obtain rfl := (Option.some.inj parsed).symm
  exact ⟨stored, remembers.content, (reads (claudeServing true) (plainHost 2) rfl).1⟩

end Singularmem.Mcp
