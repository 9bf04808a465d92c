import Singularmem.Ingest.Transcripts

/-!
# Codex rollouts

One item per user or assistant message that carries text, or several if the text is long.
The session a message belongs to is told by the last `session_meta` line before it; items
are identified by the session and the number of their line.
-/

namespace Singularmem.Ingest

open Library Singularmem.Core

variable (platform : Platform) (fs : FileSystem)

/-- A line of a rollout file. -/
structure CodexLine where
  timestamp : Option String
  kind : String
  payload : Option Json

/-- What `session_meta` lines told so far. -/
structure Session where
  id : String
  cwd : Option String

/-- One Codex rollout file. -/
structure CodexRollout where
  fileStem : String
  /-- Keep only messages from sessions whose `cwd` names this directory. -/
  projectFilter : Option String
  /-- Explicit scope, which wins over the derived one. -/
  scopeOverride : Option String
  /-- Chunk cap in bytes. -/
  chunkBytes : Nat

/-- The text of a message: its `content`, or the text blocks of it. -/
def codexText (content : Option Json) : String :=
  match content.bind Json.asStr with
  | some text => text
  | none =>
    match content.bind Json.asArray with
    | none => ""
    | some blocks =>
      "\n\n".intercalate ((blocks.filter fun block =>
        ((block.get "type").bind Json.asStr).any fun kind =>
          kind ∈ ["input_text", "output_text", "text"]).filterMap fun block =>
            (block.get "text").bind Json.asStr)

/-- An item of a message. -/
def codexItem (line : CodexLine) (number : Nat) (session : Session) (role : String)
    (chunkCount : Nat) (chunk : String × Nat) : NewItem :=
  let base := "codex:" ++ session.id ++ ":" ++ toString number
  { content := chunk.1
    supersedes := none
    tags := ["codex", "role:" ++ role, "transcript"].insertionSort (· ≤ ·)
    source := some ("codex:" ++ session.id)
    metadata := .object [("session_id", .string session.id), ("line", .number (toString number)),
      ("role", .string role), ("cwd", .ofOption session.cwd),
      ("occurred_at", .ofOption (occurredAt platform line.timestamp)),
      ("chunk_index", .number (toString chunk.2)), ("chunk_count", .number (toString chunkCount))]
    externalId := some (if chunkCount = 1 then base else base ++ "#" ++ toString chunk.2)
    scope := none }

namespace CodexRollout

variable (rollout : CodexRollout)

/-- Build the items of a message line. -/
def lineToItems (number : Nat) (line : CodexLine) (session : Session) : Option (List NewItem) :=
  if line.kind ≠ "response_item" then none
  else
    match line.payload with
    | none => none
    | some payload =>
      if (payload.get "type").bind Json.asStr ≠ some "message" then some []
      else
        match (payload.get "role").bind Json.asStr with
        | none => none
        | some role =>
          if role ≠ "user" ∧ role ≠ "assistant" then some []
          else if rollout.projectFilter.any fun filter => !filterMatches fs filter session.cwd then
            some []
          else
            let chunks := chunkText (codexText (payload.get "content")) rollout.chunkBytes
            some (chunks.zipIdx.map (codexItem platform line number session role chunks.length))

/-- The session after a `session_meta` line. -/
def enterSession (session : Session) (payload : Option Json) : Session :=
  match payload with
  | none => session
  | some payload =>
    ⟨((payload.get "id").bind Json.asStr).getD session.id, (payload.get "cwd").bind Json.asStr⟩

/-- One parsed line. -/
def parsedLine (number : Nat) (session : Session) (line : CodexLine) : LineOutcome × Session :=
  if line.kind = "session_meta" then (.none, enterSession session line.payload)
  else (.message (rollout.lineToItems platform fs number line session), session)

/-- The lines of the file, one after the other. -/
def readFile (reader : LineReader CodexLine) (bytes : List UInt8) : List LineOutcome :=
  readLines (fun session number raw => readLine reader session
      (rollout.parsedLine platform fs number session) raw) ⟨rollout.fileStem, none⟩ 1
    (rawLines 10 bytes)

/-- The source that reads the file. -/
def source (reader : LineReader CodexLine) (bytes : List UInt8) : Source where
  items := (rollout.readFile platform fs reader bytes).flatMap LineOutcome.yields
  filteredCount :=
    ((rollout.readFile platform fs reader bytes).filter LineOutcome.filtered).length
  defaultScope := defaultScope platform "codex" rollout.scopeOverride

end CodexRollout

end Singularmem.Ingest
