import Singularmem.Ingest.Transcripts

/-!
# Claude Code transcripts

One item per user or assistant message that carries text, or several if the text is long.
Tool payloads, tool results and thinking blocks are skipped; tool names are recorded in the
metadata.
-/

namespace Singularmem.Ingest

open Library Singularmem.Core

variable (platform : Platform) (fs : FileSystem)

/-- A line of a session file. -/
structure ClaudeLine where
  kind : String
  uuid : Option String
  parentUuid : Option String
  sessionId : Option String
  timestamp : Option String
  cwd : Option String
  gitBranch : Option String
  isSidechain : Option Bool
  isMeta : Option Bool
  /-- The message, and its `content`. -/
  message : Option (Option Json)

/-- A single Claude Code session file. -/
structure ClaudeTranscript where
  fileStem : String
  /-- Keep messages of subagent conversations. -/
  includeSidechains : Bool
  /-- When set, keep only messages whose `cwd` names this directory. -/
  projectFilter : Option String
  /-- Chunk cap in bytes. -/
  chunkBytes : Nat
  /-- Explicit scope, which wins over the derived one. -/
  scopeOverride : Option String

/-- The text of a text block, and the name of a tool block. -/
def extractBlock (block : Json) : Option String × Option String :=
  match (block.get "type").bind Json.asStr with
  | some "text" => ((block.get "text").bind Json.asStr, none)
  | some "tool_use" => (none, (block.get "name").bind Json.asStr)
  | _ => (none, none)

/-- Concatenate text blocks and collect tool names. -/
def extractText : Json → String × List String
  | .string text => (text, [])
  | .array blocks =>
    ("\n\n".intercalate ((blocks.map extractBlock).filterMap Prod.fst),
      (blocks.map extractBlock).filterMap Prod.snd)
  | _ => ("", [])

/-- Cut a text at the first occurrence of a pattern. -/
def cutAt (pattern : List Char) : List Char → Option (List Char × List Char)
  | [] => if pattern = [] then some ([], []) else none
  | char :: rest =>
    if pattern.isPrefixOf (char :: rest) then some ([], (char :: rest).drop pattern.length)
    else (cutAt pattern rest).map fun (before, after) => (char :: before, after)

/-- The opening tag of a system reminder. -/
def reminderOpen : List Char := "<system-reminder>".toList

/-- The closing tag of a system reminder. -/
def reminderClose : List Char := "</system-reminder>".toList

/-- Remove reminders, in as many rounds as there may be. -/
def stripFrom : Nat → List Char → List Char
  | 0, rest => rest
  | rounds + 1, rest =>
    match cutAt reminderOpen rest with
    | none => rest
    | some (before, after) =>
      match cutAt reminderClose after with
      | some (_, rest) => before ++ stripFrom rounds rest
      | none => before

/-- Remove every reminder, an unterminated one through the end of the text, and trim. -/
def stripSystemReminders (text : String) : String :=
  trim (String.ofList (stripFrom text.toList.length text.toList))

/-- An item of a message. -/
def claudeItem (line : ClaudeLine) (sessionId uuid : String) (toolNames : List String)
    (chunkCount : Nat) (chunk : String × Nat) : NewItem :=
  let role := line.kind
  let base := "claude-code:" ++ sessionId ++ ":" ++ uuid
  { content := chunk.1
    supersedes := none
    tags := (["claude-code", "role:" ++ role, "transcript"] ++
      if line.isSidechain.getD false then ["sidechain"] else []).insertionSort (· ≤ ·)
    source := some ("claude-code:" ++ sessionId)
    metadata := .object [("session_id", .string sessionId), ("uuid", .string uuid),
      ("parent_uuid", .ofOption line.parentUuid), ("role", .string role),
      ("cwd", .ofOption line.cwd), ("git_branch", .ofOption line.gitBranch),
      ("occurred_at", .ofOption (occurredAt platform line.timestamp)),
      ("tool_names", .array (toolNames.map .string)),
      ("chunk_index", .number (toString chunk.2)), ("chunk_count", .number (toString chunkCount))]
    externalId := some (if chunkCount = 1 then base else base ++ "#" ++ toString chunk.2)
    scope := none }

namespace ClaudeTranscript

variable (transcript : ClaudeTranscript)

/-- Convert one parsed line into items. -/
def lineToItems (line : ClaudeLine) : Option (List NewItem) :=
  if line.kind ≠ "user" ∧ line.kind ≠ "assistant" then none
  else if line.isMeta.getD false then some []
  else if line.isSidechain.getD false ∧ !transcript.includeSidechains then some []
  else if transcript.projectFilter.any fun filter => !filterMatches fs filter line.cwd then some []
  else
    match line.uuid, line.message with
    | some uuid, some (some content) =>
      let (text, toolNames) := extractText content
      let text := if line.kind = "user" then stripSystemReminders text else text
      let chunks := chunkText text transcript.chunkBytes
      let sessionId := line.sessionId.getD transcript.fileStem
      some (chunks.zipIdx.map (claudeItem platform line sessionId uuid toolNames chunks.length))
    | _, _ => some []

/-- The lines of the file, one after the other. -/
def readFile (reader : LineReader ClaudeLine) (bytes : List UInt8) : List LineOutcome :=
  readLines (fun _ _ raw => readLine reader () (fun line =>
      (.message (transcript.lineToItems platform fs line), ())) raw) () 1
    (rawLines 10 bytes)

/-- The source that reads the file. -/
def source (reader : LineReader ClaudeLine) (bytes : List UInt8) : Source where
  items := (transcript.readFile platform fs reader bytes).flatMap LineOutcome.yields
  filteredCount :=
    ((transcript.readFile platform fs reader bytes).filter LineOutcome.filtered).length
  defaultScope := defaultScope platform "claude-code" transcript.scopeOverride

end ClaudeTranscript

end Singularmem.Ingest
