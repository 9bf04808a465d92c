import Singularmem.Mcp.MemoryRetrieve
import Singularmem.Retrieve.ProjectScopes
import Singularmem.Retrieve.WakeupText

/-!
# Arguments and errors of the tools

Each tool has a record of arguments, which is read from a JSON object: a member that has to be
there and is not, or is of another type, is an error, and members of other names are ignored.
-/

namespace Singularmem.Mcp

open Library Singularmem.Core Singularmem.Search Singularmem.Retrieve
open Singularmem.Ingest (FileSystem)

/-- The errors of the tools. -/
inductive ToolError
  /-- The server is read-only and the request would write. -/
  | readOnly
  /-- A text is no identifier of an item. -/
  | invalidId (reason : String)
  /-- A text is no identifier of a fact. -/
  | invalidFactId (reason : String)
  | reading (error : Error)
  /-- The project is not a directory. -/
  | invalidProject (dir : String)
  /-- There is no directory to fall back to. -/
  | noProject (reason : String)

/-- What the server takes from its libraries. -/
structure Libraries where
  formatting : Formatting
  /-- A confidence with two digits after the point. -/
  twoDigits : Confidence → String
  /-- Why a text is no ULID. -/
  idError : String → String
  /-- How the errors of the crates below show. -/
  describe : Error → String
  /-- Why an object holds no arguments of a tool. -/
  argumentError : String → Json → String
  /-- The digits of a JSON number as a single-precision one. -/
  toSingle : String → Confidence

/-- The configuration of a server, with its project directory. -/
structure ServerConfig extends Config where
  project : Option String

/-- What a request meets outside of the database. -/
structure Host where
  env : Env
  /-- Why the store cannot be opened, to read only or not. -/
  openError : Bool → Option Core.Error
  /-- Why the model of the semantic index cannot be loaded. -/
  embedderError : Option Search.Error
  lexical : Option (Except Search.Error (List Document))
  semantic : Option (Except Search.Error VectorIndex)
  currentDir : Except String String
  isDir : String → Bool
  fs : FileSystem

variable (libraries : Libraries)

/-- An error as text. -/
def ToolError.display : ToolError → String
  | .readOnly => "server is read-only; memory_ingest is disabled"
  | .invalidId reason => "invalid item ID: " ++ reason
  | .invalidFactId reason => "invalid ULID: " ++ reason
  | .reading (.unknownAdapter name) =>
    "unknown adapter '" ++ name ++ "'; known adapters: plain, claude, openai, gemini"
  | .reading error => libraries.describe error
  | .invalidProject dir => "project " ++ dir ++ " is not a directory"
  | .noProject reason => "cannot determine a project directory: " ++ reason

section Arguments

/-- A member that has to be there. -/
def required {α : Type} (read : Json → Option α) (arguments : Json) (name : String) : Option α :=
  (arguments.get name).bind read

/-- A member that may be absent or null. -/
def optional {α : Type} (read : Json → Option α) (arguments : Json) (name : String) :
    Option (Option α) :=
  match arguments.get name with
  | none => some none
  | some .null => some none
  | some value => some <$> read value

/-- A truth value. -/
def asBool : Json → Option Bool
  | .bool value => some value
  | _ => none

/-- A number as a size of 64 bits. -/
def asUsize : Json → Option Nat
  | .number digits =>
    let value := digits.toList.foldl (fun value digit => 10 * value + (digit.toNat - '0'.toNat)) 0
    if digits ≠ "" ∧ digits.toList.all Char.isDigit ∧ value < 2 ^ 64 then some value else none
  | _ => none

/-- A number as a single-precision one. -/
def asSingle : Json → Option Confidence
  | .number digits => some (libraries.toSingle digits)
  | _ => none

/-- A list of texts. -/
def asTexts (value : Json) : Option (List String) := value.asArray.bind fun elements =>
  elements.mapM Json.asStr

/-- Read the arguments of a retrieval. -/
def MemoryRetrieveArgs.parse (arguments : Json) : Option MemoryRetrieveArgs := do
  let query ← required Json.asStr arguments "query"
  let limit ← optional asUsize arguments "limit"
  let adapter ← optional Json.asStr arguments "adapter"
  let scope ← optional Json.asStr arguments "scope"
  let scopeExact ← optional asBool arguments "scope_exact"
  return { query, limit, adapter, scope, scopeExact }

/-- Arguments of `memory_ingest`. -/
structure MemoryIngestArgs where
  content : String
  tags : Option (List String)
  source : Option String
  supersedes : Option String
  metadata : Option Json
  scope : Option String

/-- Read the arguments of `memory_ingest`. -/
def MemoryIngestArgs.parse (arguments : Json) : Option MemoryIngestArgs := do
  let content ← required Json.asStr arguments "content"
  let tags ← optional asTexts arguments "tags"
  let source ← optional Json.asStr arguments "source"
  let supersedes ← optional Json.asStr arguments "supersedes"
  let metadata ← optional some arguments "metadata"
  let scope ← optional Json.asStr arguments "scope"
  return { content, tags, source, supersedes, metadata, scope }

/-- Arguments of `memory_get`. -/
structure MemoryGetArgs where
  id : String

/-- Read the arguments of `memory_get`. -/
def MemoryGetArgs.parse (arguments : Json) : Option MemoryGetArgs :=
  .mk <$> required Json.asStr arguments "id"

/-- Arguments of `memory_list`. -/
structure MemoryListArgs where
  tags : Option (List String)
  limit : Option Nat
  scope : Option String
  scopeExact : Option Bool

/-- Read the arguments of `memory_list`. -/
def MemoryListArgs.parse (arguments : Json) : Option MemoryListArgs := do
  let tags ← optional asTexts arguments "tags"
  let limit ← optional asUsize arguments "limit"
  let scope ← optional Json.asStr arguments "scope"
  let scopeExact ← optional asBool arguments "scope_exact"
  return { tags, limit, scope, scopeExact }

/-- Arguments of `memory_revisions`. -/
structure MemoryRevisionsArgs where
  id : String

/-- Read the arguments of `memory_revisions`. -/
def MemoryRevisionsArgs.parse (arguments : Json) : Option MemoryRevisionsArgs :=
  .mk <$> required Json.asStr arguments "id"

/-- Arguments of `memory_wakeup`. -/
structure MemoryWakeupArgs where
  project : Option String
  includeFiles : Option Bool
  limit : Option Nat
  maxBytes : Option Nat
  adapter : Option String

/-- Read the arguments of `memory_wakeup`. -/
def MemoryWakeupArgs.parse (arguments : Json) : Option MemoryWakeupArgs := do
  let project ← optional Json.asStr arguments "project"
  let includeFiles ← optional asBool arguments "include_files"
  let limit ← optional asUsize arguments "limit"
  let maxBytes ← optional asUsize arguments "max_bytes"
  let adapter ← optional Json.asStr arguments "adapter"
  return { project, includeFiles, limit, maxBytes, adapter }

/-- Arguments of `memory_graph_add`. -/
structure MemoryGraphAddArgs where
  subject : String
  predicate : String
  object : String
  objectIsValue : Option Bool
  subjectKind : Option String
  objectKind : Option String
  validFrom : Option String
  validTo : Option String
  confidence : Option Confidence
  sourceItemId : Option String
  scope : Option String

/-- Read the arguments of `memory_graph_add`. -/
def MemoryGraphAddArgs.parse (arguments : Json) : Option MemoryGraphAddArgs := do
  let subject ← required Json.asStr arguments "subject"
  let predicate ← required Json.asStr arguments "predicate"
  let object ← required Json.asStr arguments "object"
  let objectIsValue ← optional asBool arguments "object_is_value"
  let subjectKind ← optional Json.asStr arguments "subject_kind"
  let objectKind ← optional Json.asStr arguments "object_kind"
  let validFrom ← optional Json.asStr arguments "valid_from"
  let validTo ← optional Json.asStr arguments "valid_to"
  let confidence ← optional (asSingle libraries) arguments "confidence"
  let sourceItemId ← optional Json.asStr arguments "source_item_id"
  let scope ← optional Json.asStr arguments "scope"
  return { subject, predicate, object, objectIsValue, subjectKind, objectKind, validFrom, validTo,
           confidence, sourceItemId, scope }

/-- Arguments of `memory_graph_query`. -/
structure MemoryGraphQueryArgs where
  entity : Option String
  predicate : Option String
  direction : Option String
  asOf : Option String
  recordedAt : Option String
  scope : Option String
  scopeExact : Option Bool

/-- Read the arguments of `memory_graph_query`. -/
def MemoryGraphQueryArgs.parse (arguments : Json) : Option MemoryGraphQueryArgs := do
  let entity ← optional Json.asStr arguments "entity"
  let predicate ← optional Json.asStr arguments "predicate"
  let direction ← optional Json.asStr arguments "direction"
  let asOf ← optional Json.asStr arguments "as_of"
  let recordedAt ← optional Json.asStr arguments "recorded_at"
  let scope ← optional Json.asStr arguments "scope"
  let scopeExact ← optional asBool arguments "scope_exact"
  return { entity, predicate, direction, asOf, recordedAt, scope, scopeExact }

/-- Arguments of `memory_graph_invalidate`. -/
structure MemoryGraphInvalidateArgs where
  subject : String
  predicate : String
  object : String
  objectIsValue : Option Bool
  «at» : Option String
  scope : Option String

/-- Read the arguments of `memory_graph_invalidate`. -/
def MemoryGraphInvalidateArgs.parse (arguments : Json) : Option MemoryGraphInvalidateArgs := do
  let subject ← required Json.asStr arguments "subject"
  let predicate ← required Json.asStr arguments "predicate"
  let object ← required Json.asStr arguments "object"
  let objectIsValue ← optional asBool arguments "object_is_value"
  let «at» ← optional Json.asStr arguments "at"
  let scope ← optional Json.asStr arguments "scope"
  return { subject, predicate, object, objectIsValue, «at», scope }

/-- Arguments of `memory_graph_supersede`. -/
structure MemoryGraphSupersedeArgs where
  subject : String
  predicate : String
  oldObject : String
  newObject : String
  objectIsValue : Option Bool
  «at» : Option String
  scope : Option String

/-- Read the arguments of `memory_graph_supersede`. -/
def MemoryGraphSupersedeArgs.parse (arguments : Json) : Option MemoryGraphSupersedeArgs := do
  let subject ← required Json.asStr arguments "subject"
  let predicate ← required Json.asStr arguments "predicate"
  let oldObject ← required Json.asStr arguments "old_object"
  let newObject ← required Json.asStr arguments "new_object"
  let objectIsValue ← optional asBool arguments "object_is_value"
  let «at» ← optional Json.asStr arguments "at"
  let scope ← optional Json.asStr arguments "scope"
  return { subject, predicate, oldObject, newObject, objectIsValue, «at», scope }

/-- Arguments of `memory_graph_timeline`. -/
structure MemoryGraphTimelineArgs where
  entity : Option String
  scope : Option String
  scopeExact : Option Bool

/-- Read the arguments of `memory_graph_timeline`. -/
def MemoryGraphTimelineArgs.parse (arguments : Json) : Option MemoryGraphTimelineArgs := do
  let entity ← optional Json.asStr arguments "entity"
  let scope ← optional Json.asStr arguments "scope"
  let scopeExact ← optional asBool arguments "scope_exact"
  return { entity, scope, scopeExact }

/-- Arguments of `memory_graph_stats`. -/
structure MemoryGraphStatsArgs where
  scope : Option String

/-- Read the arguments of `memory_graph_stats`. -/
def MemoryGraphStatsArgs.parse (arguments : Json) : Option MemoryGraphStatsArgs :=
  .mk <$> optional Json.asStr arguments "scope"

/-- Arguments of `memory_graph_entities`. -/
structure MemoryGraphEntitiesArgs where
  kind : Option String
  scope : Option String
  scopeExact : Option Bool

/-- Read the arguments of `memory_graph_entities`. -/
def MemoryGraphEntitiesArgs.parse (arguments : Json) : Option MemoryGraphEntitiesArgs := do
  let kind ← optional Json.asStr arguments "kind"
  let scope ← optional Json.asStr arguments "scope"
  let scopeExact ← optional asBool arguments "scope_exact"
  return { kind, scope, scopeExact }

/-- Arguments of `memory_graph_history`. -/
structure MemoryGraphHistoryArgs where
  factId : String

/-- Read the arguments of `memory_graph_history`. -/
def MemoryGraphHistoryArgs.parse (arguments : Json) : Option MemoryGraphHistoryArgs :=
  .mk <$> required Json.asStr arguments "fact_id"

end Arguments

end Singularmem.Mcp
