import Singularmem.Core.Objects
import Singularmem.Core.ShelfRuns
import Singularmem.Hooks.Command
import Singularmem.Retrieve.ProjectScopes
import Singularmem.Retrieve.WakeupText

/-!
# The session-start hook

An editor runs a hook with a payload on its standard input. When a session starts, the hook
prints an envelope with the wake-up of the directories the payload names, and nothing it meets
makes it fail: without a store, or when the wake-up cannot be built, the envelope is empty. The
notes it shows are the newest that sessions in those directories saved.
-/

namespace Singularmem.Hooks

open Library Singularmem.Core Singularmem.Retrieve
open Singularmem.Ingest (FileSystem fileName deriveScope)

/-- The payload of a hook in one shape for all editors. -/
structure HookInput where
  /-- The working directory, or the first workspace root. -/
  cwd : Option String
  workspaceRoots : List String
  transcriptPath : Option String
  sessionId : Option String
  conversationId : Option String

/-- Read a payload. A field that is absent or of another type is left out. -/
def parseInput (_editor : Editor) (json : Json) : HookInput :=
  match json.asObject with
  | none => ⟨none, [], none, none, none⟩
  | some _ =>
    let workspaceRoots :=
      (((json.get "workspace_roots").bind Json.asArray).map (List.filterMap Json.asStr)).getD []
    { cwd := ((json.get "cwd").bind Json.asStr).or workspaceRoots.head?
      workspaceRoots
      transcriptPath := (json.get "transcript_path").bind Json.asStr
      sessionId := (json.get "session_id").bind Json.asStr
      conversationId := (json.get "conversation_id").bind Json.asStr }

/-- What the hook prints when a session starts. -/
def sessionStartEnvelope (editor : Editor) (text : String) : Json :=
  match editor with
  | .claudeCode | .codex => .object [("hookSpecificOutput", .object
      [("hookEventName", .string "SessionStart"), ("additionalContext", .string text)])]
  | .cursor => .object [("additional_context", .string text)]

/-- What a hook reads from its surroundings. -/
structure Surroundings where
  fs : FileSystem
  currentDir : Except String String
  formatting : Formatting
  fromStr : String → Except String Json

/-- What an editor runs: the words after `hook`, and the standard input if it can be read. -/
structure HookCall where
  editor : String
  event : String
  stdin : Except String String

/-- The payload of a call: null where there is none that can be read. -/
def HookCall.json (surroundings : Surroundings) (call : HookCall) : Json :=
  let raw := match call.stdin with
    | .ok raw => raw
    | .error _ => ""
  match surroundings.fromStr raw with
  | .ok json => json
  | .error _ => .null

variable (platform : Platform) (surroundings : Surroundings)

/-- The directory of a session: the one of the payload, or else the current one. -/
def sessionDir (input : HookInput) : Except String String :=
  match input.cwd with
  | some dir => .ok dir
  | none => surroundings.currentDir

/-- The scopes of a session: those of every workspace root where Cursor names several, each
path once, and those of one directory otherwise. -/
def sessionScopes (editor : Editor) (input : HookInput) : Except String ScopeSet :=
  if editor = .cursor ∧ input.workspaceRoots.length > 1 then
    .ok (keepFirst ScopeFilter.path [] (input.workspaceRoots.flatMap fun root =>
      ScopeSet.forProject platform surroundings.fs root false))
  else do
    let dir ← sessionDir surroundings input
    return ScopeSet.forProject platform surroundings.fs dir false

/-- The session-start hook of an open store. -/
def hookSessionStart (tables : Tables) (editor : Editor) (input : HookInput) :
    Except String Json := do
  let set ← sessionScopes platform surroundings editor input
  let text := match build platform tables set .default with
    | .ok wakeup => render wakeup (plainAdapter surroundings.formatting platform)
        WakeupOptions.default.maxBytes
    | .error _ => ""
  return sessionStartEnvelope editor text

/-- The entry point of a hook: what it prints, and the store. It never fails. -/
def cmdHookEntry (saving : Editor → HookInput → StoreCall PUnit) (call : HookCall)
    (opened : Except Core.Error Store) : Option Json × Except Core.Error Store :=
  match Editor.fromStr call.editor, Event.fromStr call.event with
  | none, _ => (none, opened)
  | some _, none => (none, opened)
  | some editor, some event =>
    let input := parseInput editor (call.json surroundings)
    match event, opened with
    | .sessionStart, .ok store =>
      ((hookSessionStart platform surroundings store.database.tables editor input).toOption,
        opened)
    | .sessionStart, .error _ => (some (sessionStartEnvelope editor ""), opened)
    | _, .ok store => (none, .ok (Effect.exec (saving editor input) store).2)
    | _, .error _ => (none, opened)

/-- The directories of a session. -/
def sessionDirs (editor : Editor) (input : HookInput) : Except String (List String) :=
  if editor = .cursor ∧ input.workspaceRoots.length > 1 then .ok input.workspaceRoots
  else (List.cons · []) <$> sessionDir surroundings input

/-- A text that shows the newest notes of the sessions in some directories: of the items kept
for the scopes, those that sessions saved are the ones of a directory of the same base name
but for case; the newest of them are gathered, and as many are shown as fit. -/
structure Recalls (tables : Tables) (dirs : List String) (text : String) (scopes : ScopeSet)
    (wakeup : Wakeup) (items kept : List Item) : Prop where
  sessions : ∀ row ∈ tables.items.rows, ∀ start ∈ editorPrefixes, ∀ saved,
    row.scope = deriveScope platform start saved →
      (row.id ∈ unionIds tables scopes ↔ row.scope.isSome = true ∧ ∃ dir ∈ dirs,
        (fileName saved).map lowercase = (projectBase surroundings.fs dir).map lowercase)
  total : wakeup.total = (unionIds tables scopes).card
  gathered : Gathers platform tables scopes 20 items
  newest : Gathers platform tables scopes kept.length kept
  shown : ShowsLast wakeup (plainAdapter surroundings.formatting platform) 8192
    (items.map digestBlock) (kept.map digestBlock) text

variable {platform surroundings} {editor : Editor} {input : HookInput}

/-- A filter is its path and its kind. -/
theorem filter_ext {first second : ScopeFilter} (path : first.path = second.path)
    (exact : first.exact = second.exact) : first = second := by
  cases first
  cases second
  congr

/-- Paths that are kept once stand for all filters of a path. -/
theorem mem_unionIds_keepFirst {tables : Tables} {filters : List ScopeFilter}
    (same : ∀ first ∈ filters, ∀ second ∈ filters, first.path = second.path → first = second)
    (id : ItemId) : id ∈ unionIds tables (keepFirst ScopeFilter.path [] filters) ↔
      id ∈ unionIds tables filters := by
  have part := (@keepFirst_sublist _ _ _ ScopeFilter.path [] filters).subset
  rw [mem_unionIds, mem_unionIds]
  constructor
  · rintro ⟨filter, kept, matching⟩
    exact ⟨filter, part kept, matching⟩
  · rintro ⟨filter, given, matching⟩
    have named := (@mem_keepFirst_keys _ _ _ ScopeFilter.path _ [] filters).mpr
      ⟨List.not_mem_nil, List.mem_map_of_mem given⟩
    obtain ⟨other, kept, equal⟩ := List.mem_map.mp named
    exact ⟨other, kept, same other (part kept) filter given equal ▸ matching⟩

/-- **The scopes of a session** gather what those of its directories gather. -/
theorem sessionScopes_returned {dirs : List String}
    (named : sessionDirs surroundings editor input = .ok dirs) :
    ∃ scopes, sessionScopes platform surroundings editor input = .ok scopes ∧
      (∀ filter ∈ scopes, filter.Built platform) ∧ ∀ tables id, id ∈ unionIds tables scopes ↔
        ∃ dir ∈ dirs, id ∈ unionIds tables
          (ScopeSet.forProject platform surroundings.fs dir false) := by
  unfold sessionDirs at named
  unfold sessionScopes
  split at named
  case isTrue several =>
    cases named
    refine ⟨_, if_pos several, fun filter kept => ?_, fun tables id => ?_⟩
    · obtain ⟨root, -, given⟩ := List.mem_flatMap.mp ((keepFirst_sublist [] _).subset kept)
      exact forProject_built given
    · rw [mem_unionIds_keepFirst, mem_unionIds]
      · simp only [List.mem_flatMap, mem_unionIds]
        constructor
        · rintro ⟨filter, ⟨root, listed, given⟩, matching⟩
          exact ⟨root, listed, filter, given, matching⟩
        · rintro ⟨root, listed, filter, given, matching⟩
          exact ⟨filter, ⟨root, listed, given⟩, matching⟩
      · intro first firstIn second secondIn path
        obtain ⟨_, -, firstGiven⟩ := List.mem_flatMap.mp firstIn
        obtain ⟨_, -, secondGiven⟩ := List.mem_flatMap.mp secondIn
        obtain ⟨_, -, _, -, -, firstDescends⟩ := mem_forProject.mp firstGiven
        obtain ⟨_, -, _, -, -, secondDescends⟩ := mem_forProject.mp secondGiven
        exact filter_ext path (firstDescends.trans secondDescends.symm)
  case isFalse single =>
    rw [if_neg single]
    rcases found : sessionDir surroundings input with error | dir
    · rw [found] at named
      cases named
    · rw [found] at named
      cases named
      exact ⟨ScopeSet.forProject platform surroundings.fs dir false, rfl,
        fun filter given => forProject_built given, fun tables id => by simp⟩

/-- The session-start hook of a store whose rows can be read prints an envelope with the newest
notes of the sessions in its directories, and leaves the store as it is. -/
theorem hookEntry_recalls (displays : platform.DisplaysTimes) {store : Store}
    (dated : store.database.tables.Dated platform)
    (readable : ∀ row ∈ store.database.tables.items.rows,
      row.metadata.depth < Json.recursionLimit)
    (validated : store.ScopesValidated platform) (saving : Editor → HookInput → StoreCall PUnit)
    {call : HookCall} {dirs : List String} (known : Editor.fromStr call.editor = some editor)
    (starts : Event.fromStr call.event = some .sessionStart)
    (named : sessionDirs surroundings editor (parseInput editor (call.json surroundings)) =
      .ok dirs) :
    ∃ text scopes wakeup items kept,
      cmdHookEntry platform surroundings saving call (.ok store) =
        (some (sessionStartEnvelope editor text), .ok store) ∧
      Recalls platform surroundings store.database.tables dirs text scopes wakeup items kept := by
  obtain ⟨scopes, chosen, -, union⟩ := @sessionScopes_returned platform _ _ _ _ named
  obtain ⟨wakeup, items, built, blocks, total, gathers⟩ :=
    build_gathers displays dated (fun _ _ row stored _ => readable row stored) .default
  obtain ⟨_, shows⟩ := renderFrom_shows wakeup (plainAdapter surroundings.formatting platform)
    8192 (items.map digestBlock)
  obtain ⟨kept, last, rfl⟩ := List.suffix_map_iff.mp shows.last
  refine ⟨_, scopes, wakeup, items, kept, ?_,
    ⟨?_, total, gathers, gathers.suffix last, shows⟩⟩
  · simp only [cmdHookEntry, known, starts, hookSessionStart, chosen, bind, Except.bind, pure,
      Except.pure, built, render, blocks]
    rfl
  · intro row stored start prefixed saved derived
    have each : ∀ dir, row.id ∈ unionIds store.database.tables
        (ScopeSet.forProject platform surroundings.fs dir false) ↔ row.scope.isSome = true ∧
          (fileName saved).map lowercase = (projectBase surroundings.fs dir).map lowercase := by
      intro dir
      rw [mem_unionIds_row (fun filter given => forProject_built given) stored
        (validated row stored), derived]
      exact session_admitted_iff (List.mem_append_left _ prefixed) saved dir
    rw [union]
    simp only [each]
    constructor
    · rintro ⟨dir, listed, has, same⟩
      exact ⟨has, dir, listed, same⟩
    · rintro ⟨has, dir, listed, same⟩
      exact ⟨dir, listed, has, same⟩

/-- The surroundings of a hook whose payload names `/home/dev/`. -/
def devSurroundings : Surroundings :=
  ⟨⟨some⟩, .error "deleted", ⟨id, fun _ => "0.0000"⟩,
    fun _ => .ok (.object [("cwd", .string "/home/dev/")])⟩

end Singularmem.Hooks
