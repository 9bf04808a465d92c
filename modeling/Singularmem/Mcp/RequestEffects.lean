import Singularmem.Library.SingleWrites
import Singularmem.Mcp.Server

/-!
# What requests do to the database

A tool that reads leaves the database as it is, whatever it answers. A tool that writes parses
its arguments, makes one write call in one transaction and renders the result, so it writes
exactly if it is answered; a read-only server refuses it first.
-/

namespace Singularmem.Mcp

open Library Singularmem.Core Singularmem.Graph Singularmem.Search Singularmem.Retrieve
open Effect hiding ofExcept

variable {Parsed : Type} {engine : TextEngine Parsed} {neural : SemanticEngine}
  {arithmetic : Arithmetic} {platform : Platform} {libraries : Libraries}
  {config : ServerConfig} {host : Host}

section Readers

theorem reads_ofReading {α : Type} (outcome : Except Error α) : Reads (ofReading outcome) :=
  .ofExcept _

theorem reads_ofCore {α : Type} (outcome : Except Core.Error α) : Reads (ofCore outcome) :=
  .ofExcept _

theorem reads_openStore (readOnly : Bool) : Reads (openStore host readOnly) := by
  unfold openStore
  split
  · exact .throw _
  · exact .pure _

theorem reads_openStoreForReading : Reads (openStoreForReading config host) :=
  .bind (reads_openStore _) fun _ => .bind .get fun _ => .pure _

theorem reads_openStoreWithHooks : Reads (openStoreWithHooks host) := by
  unfold openStoreWithHooks
  split
  · exact .throw _
  · exact reads_openStore _

theorem reads_readId (text : String) : Reads (readId libraries text) := by
  unfold readId
  split
  · exact .pure _
  · exact .throw _

theorem reads_mapM_readId (text : Option String) : Reads (text.mapM (readId libraries)) := by
  cases text with
  | none => exact .pure _
  | some text => exact .map _ (reads_readId text)

theorem reads_parseOptionalPoint (raw : Option String) (argument : String) :
    Reads (parseOptionalPoint platform raw argument) := reads_ofCore _

theorem reads_parseDirection (raw : Option String) : Reads (parseDirection platform raw) := by
  unfold parseDirection
  split
  all_goals first | exact .pure _ | exact .throw _

theorem reads_readFactId (text : String) : Reads (readFactId libraries text) := by
  unfold readFactId
  split
  · exact .pure _
  · exact .throw _

theorem reads_projectDir (argument : Option String) : Reads (projectDir config host argument) := by
  unfold projectDir
  split
  · exact .pure _
  · exact .pure _
  · exact .throw _

theorem reads_resolveProject (argument : Option String) :
    Reads (resolveProject config host argument) :=
  .bind (reads_projectDir _) fun dir =>
    .bind (.throwIf (host.isDir dir = false) _) fun _ => .pure _

theorem reads_handleRetrieve (args : MemoryRetrieveArgs) :
    Reads (handleRetrieve engine neural arithmetic platform config host args) :=
  .bind .get fun _ => .bind (reads_ofReading _) fun _ => .pure _

theorem reads_handleMemoryGet (args : MemoryGetArgs) :
    Reads (handleMemoryGet platform libraries config host args) :=
  .bind (reads_readId _) fun _ => .bind reads_openStoreForReading fun _ =>
    .bind (reads_ofCore _) fun _ => .pure _

theorem reads_handleMemoryList (args : MemoryListArgs) :
    Reads (handleMemoryList platform config host args) :=
  .bind reads_openStoreForReading fun _ => .bind (reads_ofReading _) fun _ =>
    .bind (reads_ofCore _) fun _ => .pure _

theorem reads_handleMemoryScopes : Reads (handleMemoryScopes config host) :=
  .bind reads_openStoreForReading fun _ => .pure _

theorem reads_handleMemoryRevisions (args : MemoryRevisionsArgs) :
    Reads (handleMemoryRevisions platform libraries config host args) := by
  refine .bind (reads_readId _) fun _ => .bind reads_openStoreForReading fun _ => ?_
  split
  · exact .pure _
  · exact .bind (reads_ofCore _) fun _ => .pure _

theorem reads_handleMemoryWakeup (args : MemoryWakeupArgs) :
    Reads (handleMemoryWakeup platform config host args) :=
  .bind (reads_resolveProject _) fun _ => .bind (reads_ofReading _) fun _ =>
    .bind reads_openStoreForReading fun _ => .bind (reads_ofReading _) fun _ => .pure _

theorem reads_handleMemoryGraphQuery (args : MemoryGraphQueryArgs) :
    Reads (handleMemoryGraphQuery platform libraries config host args) :=
  .bind (.throwIf (args.entity.isSome = args.predicate.isSome) _) fun _ =>
    .bind (reads_ofReading _) fun _ => .bind (reads_parseOptionalPoint _ _) fun _ => .bind (reads_parseOptionalPoint _ _) fun _ =>
      .bind (reads_parseDirection _) fun _ => .bind reads_openStoreForReading fun _ =>
        .bind (reads_ofCore _) fun _ => .pure _

theorem reads_handleMemoryGraphTimeline (args : MemoryGraphTimelineArgs) :
    Reads (handleMemoryGraphTimeline platform libraries config host args) :=
  .bind (reads_ofReading _) fun _ => .bind reads_openStoreForReading fun _ =>
    .bind (reads_ofCore _) fun _ => .pure _

theorem reads_handleMemoryGraphStats (args : MemoryGraphStatsArgs) :
    Reads (handleMemoryGraphStats platform config host args) :=
  .bind (reads_ofReading _) fun _ => .bind reads_openStoreForReading fun _ => .pure _

theorem reads_handleMemoryGraphEntities (args : MemoryGraphEntitiesArgs) :
    Reads (handleMemoryGraphEntities platform config host args) :=
  .bind (reads_ofReading _) fun _ => .bind reads_openStoreForReading fun _ =>
    .bind (reads_ofCore _) fun _ => .pure _

theorem reads_handleMemoryGraphHistory (args : MemoryGraphHistoryArgs) :
    Reads (handleMemoryGraphHistory platform libraries config host args) := by
  refine .bind (reads_readFactId _) fun _ => .bind reads_openStoreForReading fun _ => ?_
  split
  · exact .pure _
  · exact .bind (reads_ofCore _) fun _ => .pure _

theorem reads_dispatch {α β : Type} {parse : Json → Option α} {mapError : ToolError → McpError}
    {tool : Tool} {arguments : Option (List (String × Json))} {handler : α → Handler β}
    (reads : ∀ args, Reads (handler args)) :
    Reads (dispatch libraries parse mapError tool arguments handler) :=
  .bind (.ofExcept _) fun args => .adapt _ (reads args)

/-- **A tool that reads** leaves the database as it is. -/
theorem reads_runTool {tool : Tool} (reader : tool ∈ Tool.readers)
    (arguments : Option (List (String × Json))) :
    Reads (runTool engine neural arithmetic platform libraries config host tool arguments) := by
  cases tool with
  | memoryRetrieve => exact .map _ (reads_dispatch reads_handleRetrieve)
  | memoryGet => exact .map _ (reads_dispatch reads_handleMemoryGet)
  | memoryList => exact .map _ (reads_dispatch reads_handleMemoryList)
  | memoryRevisions => exact reads_dispatch reads_handleMemoryRevisions
  | memoryScopes => exact .map _ (.adapt _ reads_handleMemoryScopes)
  | memoryWakeup => exact .map _ (reads_dispatch reads_handleMemoryWakeup)
  | memoryGraphQuery => exact .map _ (reads_dispatch reads_handleMemoryGraphQuery)
  | memoryGraphTimeline => exact .map _ (reads_dispatch reads_handleMemoryGraphTimeline)
  | memoryGraphStats => exact .map _ (reads_dispatch reads_handleMemoryGraphStats)
  | memoryGraphEntities => exact .map _ (reads_dispatch reads_handleMemoryGraphEntities)
  | memoryGraphHistory => exact reads_dispatch reads_handleMemoryGraphHistory
  | memoryIngest | memoryGraphAdd | memoryGraphInvalidate | memoryGraphSupersede =>
    exact absurd reader (by decide)

theorem reads_getPrompt (name : String) (arguments : Option (List (String × Json))) :
    Reads (getPrompt platform libraries config host name arguments) := by
  refine .bind (.throwIf (name ≠ wakeUp) _) fun _ => .bind ?_ fun _ =>
    .bind (.adapt _ (reads_handleMemoryWakeup _)) fun _ => .pure _
  unfold promptProject
  split
  · exact .pure _
  · exact .pure _
  · exact .throw _

theorem reads_readResource (uri : String) :
    Reads (readResource platform libraries config host uri) := by
  refine .bind ?_ fun _ => .bind (.adapt _ reads_openStoreForReading) fun _ => ?_
  · unfold resourceId
    split
    · exact .pure _
    · exact .throw _
  · split
    · exact .pure _
    · exact .throw _
    · exact .throw _

end Readers

section Writers

/-- The database after a write call, whatever it returned. -/
def written (platform : Platform) (env : Env) (call : WriteCall) (database : Database) : Database :=
  (exec (call.perform platform env) ⟨false, database⟩).2.database

/-- What one write call may do to the database. -/
def Performs (platform : Platform) (env : Env) (before after : Database) : Prop :=
  ∃ call, after = written platform env call before

/-- A call that writes in one transaction moves the database once. -/
theorem moves_onStore {α : Type} {operation committing : String} {body : Tx α} (write : WriteCall)
    (same : write.perform platform host.env =
      (fun _ => ⟨⟩) <$> writing operation committing body) :
    MovesOnce (Performs platform host.env) (onStore (writing operation committing body)) := by
  intro database outcome after ran
  rcases began : exec (writing operation committing body) ⟨false, database⟩
    with ⟨error | value, store⟩
  · left
    have kept := writing_error began
    have final : exec (onStore (writing operation committing body)) database =
        (.error (.reading (.core error)), store.database) := by
      change ((exec (writing operation committing body) ⟨false, database⟩).1.mapError _,
        (exec (writing operation committing body) ⟨false, database⟩).2.database) = _
      rw [began]
      rfl
    rw [final] at ran
    cases ran
    rw [kept]
  · right
    have final : exec (onStore (writing operation committing body)) database =
        (.ok value, store.database) := by
      change ((exec (writing operation committing body) ⟨false, database⟩).1.mapError _,
        (exec (writing operation committing body) ⟨false, database⟩).2.database) = _
      rw [began]
      rfl
    rw [final] at ran
    cases ran
    refine ⟨⟨value, rfl⟩, write, ?_⟩
    rw [written, same, exec_map, began]

theorem moves_handleMemoryIngest (args : MemoryIngestArgs) :
    MovesOnce (Performs platform host.env)
      (handleMemoryIngest platform libraries config host args) :=
  .bind (.throwIf (config.readOnly = true) _) fun _ => .bind (reads_mapM_readId _) fun supersedes =>
    .bind reads_openStoreWithHooks fun _ =>
      .bind_pure (moves_onStore (.item (.ingest (args.item supersedes))) rfl) _

theorem moves_handleMemoryGraphAdd (args : MemoryGraphAddArgs) :
    MovesOnce (Performs platform host.env)
      (handleMemoryGraphAdd platform libraries config host args) :=
  .bind (.throwIf (config.readOnly = true) _) fun _ =>
    .bind (reads_parseOptionalPoint _ _) fun _ => .bind (reads_parseOptionalPoint _ _) fun _ =>
      .bind (reads_mapM_readId _) fun _ => .bind (reads_openStore _) fun _ =>
        .bind_pure (moves_onStore (.graph (.add _)) rfl) _

theorem moves_handleMemoryGraphInvalidate (args : MemoryGraphInvalidateArgs) :
    MovesOnce (Performs platform host.env)
      (handleMemoryGraphInvalidate platform libraries config host args) :=
  .bind (.throwIf (config.readOnly = true) _) fun _ =>
    .bind (reads_parseOptionalPoint _ _) fun _ => .bind (reads_openStore _) fun _ =>
      .bind_pure (moves_onStore (.graph (.invalidate _ _)) rfl) _

theorem moves_handleMemoryGraphSupersede (args : MemoryGraphSupersedeArgs) :
    MovesOnce (Performs platform host.env)
      (handleMemoryGraphSupersede platform libraries config host args) :=
  .bind (.throwIf (config.readOnly = true) _) fun _ =>
    .bind (reads_parseOptionalPoint _ _) fun _ => .bind (reads_openStore _) fun _ =>
      .bind_pure (moves_onStore (.graph (.supersede _ _ _)) rfl) _

theorem moves_dispatch {α β : Type} {parse : Json → Option α} {mapError : ToolError → McpError}
    {tool : Tool} {arguments : Option (List (String × Json))} {handler : α → Handler β}
    (moves : ∀ args, MovesOnce (Performs platform host.env) (handler args)) :
    MovesOnce (Performs platform host.env)
      (dispatch libraries parse mapError tool arguments handler) :=
  .bind (.ofExcept _) fun args => .adapt _ (moves args)

/-- **Any tool** moves the database by one write call at most, and not where it fails. -/
theorem moves_runTool (tool : Tool) (arguments : Option (List (String × Json))) :
    MovesOnce (Performs platform host.env)
      (runTool engine neural arithmetic platform libraries config host tool arguments) := by
  by_cases reader : tool ∈ Tool.readers
  · exact .of_reads (reads_runTool reader arguments)
  cases tool with
  | memoryIngest =>
    exact .bind (.throwIf (config.readOnly = true) _) fun _ =>
      .map _ (moves_dispatch moves_handleMemoryIngest)
  | memoryGraphAdd => exact .map _ (moves_dispatch moves_handleMemoryGraphAdd)
  | memoryGraphInvalidate => exact .map _ (moves_dispatch moves_handleMemoryGraphInvalidate)
  | memoryGraphSupersede => exact .map _ (moves_dispatch moves_handleMemoryGraphSupersede)
  | memoryRetrieve | memoryGet | memoryList | memoryRevisions | memoryScopes | memoryWakeup
  | memoryGraphQuery | memoryGraphTimeline | memoryGraphStats | memoryGraphEntities
  | memoryGraphHistory => exact absurd (by decide) reader

end Writers

section Refusals

/-- A computation that is refused with invalid parameters, whatever the database. -/
def Refused {α : Type} (action : Effect McpError Database α) : Prop :=
  ∃ message, ∀ database, exec action database = (.error (.invalidParams message), database)

theorem Refused.map {α β : Type} {action : Effect McpError Database α} (update : α → β)
    (refused : Refused action) : Refused (update <$> action) := by
  obtain ⟨message, refused⟩ := refused
  exact ⟨message, fun database => by rw [exec_map, refused]; rfl⟩

/-- A tool whose handler refuses is refused: for its arguments, or by the handler. -/
theorem dispatch_refused {α β : Type} {parse : Json → Option α} {mapError : ToolError → McpError}
    {tool : Tool} {arguments : Option (List (String × Json))} {handler : α → Handler β}
    (refuses : ∀ args database, exec (handler args) database = (.error .readOnly, database))
    {message : String} (mapped : mapError .readOnly = .invalidParams message) :
    Refused (dispatch libraries parse mapError tool arguments handler) := by
  unfold dispatch parseCallArgs
  rcases parsed : parse (.object (arguments.getD [])) with _ | args
  · simp only [parsed]
    exact ⟨_, fun database => rfl⟩
  · simp only [parsed]
    refine ⟨message, fun database => ?_⟩
    rw [exec_bind, exec_ofExcept]
    simp only [exec_adapt, refuses]
    rw [Except.mapError, mapped]

/-- A step that refuses ends the handler. -/
theorem exec_refusing {α : Type} (readOnly : config.readOnly = true) (next : PUnit → Handler α)
    (database : Database) :
    exec (Effect.throwIf config.readOnly .readOnly >>= next) database =
      (.error .readOnly, database) := by
  rw [exec_bind, exec_throwIf, if_pos readOnly]

/-- **A read-only server refuses** the tools that write. -/
theorem runTool_refused (readOnly : config.readOnly = true) {tool : Tool}
    (writer : tool ∈ Tool.writers) (arguments : Option (List (String × Json))) :
    Refused (runTool engine neural arithmetic platform libraries config host tool arguments) := by
  cases tool with
  | memoryIngest =>
    refine ⟨"server is read-only; memory_ingest is disabled", fun database => ?_⟩
    rw [runTool, exec_bind, exec_throwIf, if_pos readOnly]
  | memoryGraphAdd =>
    exact .map _ (dispatch_refused (fun _ => exec_refusing readOnly _) rfl)
  | memoryGraphInvalidate =>
    exact .map _ (dispatch_refused (fun _ => exec_refusing readOnly _) rfl)
  | memoryGraphSupersede =>
    exact .map _ (dispatch_refused (fun _ => exec_refusing readOnly _) rfl)
  | memoryRetrieve | memoryGet | memoryList | memoryRevisions | memoryScopes | memoryWakeup
  | memoryGraphQuery | memoryGraphTimeline | memoryGraphStats | memoryGraphEntities
  | memoryGraphHistory => exact absurd writer (by decide)

end Refusals

end Singularmem.Mcp
