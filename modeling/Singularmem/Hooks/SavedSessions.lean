import Singularmem.Hooks.SessionStart
import Singularmem.Ingest.CallRuns
import Singularmem.Ingest.Incremental

/-!
# Saved sessions

A save hook ingests the transcript of a session in bulk, and the next session in a directory of
the same name starts with it. Whatever the transcripts hold and however the ingests end, the
session-start hook gathers the messages that sessions in its directories said, and no others.
-/

namespace Singularmem.Hooks

open Library Singularmem.Core Singularmem.Retrieve
open Singularmem.Ingest hiding oneItem

/-- A transcript as it is saved, with what the ingest reads meanwhile. -/
structure Save where
  transcript : Transcript
  bytes : List UInt8
  fs : FileSystem
  readers : LineReaders
  readings : Readings

section Items

variable {platform : Platform} {fs : FileSystem}

/-- An item of a session: its scope is left to its source, and its metadata is flat. -/
structure SessionItem (item : NewItem) : Prop where
  unscoped : item.scope = none
  flat : item.metadata.depth ≤ 2

/-- A list of texts is flat. -/
theorem depthElements_texts (texts : List String) :
    Json.depthElements (texts.map .string) = 0 := by
  induction texts with
  | nil => rfl
  | cons text rest inductionHypothesis =>
    rw [List.map_cons, Json.depthElements, inductionHypothesis]
    rfl

/-- Optional texts are flat. -/
theorem depth_ofOption (text : Option String) : (Json.ofOption text).depth = 0 := by
  cases text <;> rfl

theorem claudeItem_session (line : ClaudeLine) (sessionId uuid : String) (toolNames : List String)
    (chunkCount : Nat) (chunk : String × Nat) :
    SessionItem (claudeItem platform line sessionId uuid toolNames chunkCount chunk) := by
  refine ⟨rfl, ?_⟩
  simp [claudeItem, Json.depth, Json.depthMembers, depth_ofOption, depthElements_texts]

theorem codexItem_session (line : CodexLine) (number : Nat) (session : Session) (role : String)
    (chunkCount : Nat) (chunk : String × Nat) :
    SessionItem (codexItem platform line number session role chunkCount chunk) := by
  refine ⟨rfl, ?_⟩
  simp [codexItem, Json.depth, Json.depthMembers, depth_ofOption]

/-- The items of a line of Claude Code. -/
theorem claudeLine_sessions (transcript : ClaudeTranscript) (line : ClaudeLine) :
    ∀ item ∈ (transcript.lineToItems platform fs line).getD [], SessionItem item := by
  rw [ClaudeTranscript.lineToItems]
  split
  · simp
  · split
    · simp
    · split
      · simp
      · split
        · simp
        · split
          · intro item member
            obtain ⟨chunk, _, rfl⟩ := List.mem_map.mp member
            exact claudeItem_session line _ _ _ _ chunk
          · simp

/-- The items of a line of Codex. -/
theorem codexLine_sessions (rollout : CodexRollout) (number : Nat) (line : CodexLine)
    (session : Session) :
    ∀ item ∈ (rollout.lineToItems platform fs number line session).getD [], SessionItem item := by
  rw [CodexRollout.lineToItems]
  split
  · simp
  · split
    · simp
    · split
      · simp
      · split
        · simp
        · split
          · simp
          · split
            · simp
            · intro item member
              obtain ⟨chunk, _, rfl⟩ := List.mem_map.mp member
              exact codexItem_session line _ _ _ _ chunk

end Items

namespace Save

/-- The source of a save. -/
def source (platform : Platform) (save : Save) : Source :=
  save.transcript.source platform save.fs save.readers save.bytes

/-- What the scopes of its sessions start with. -/
def agent (save : Save) : String :=
  match save.transcript with
  | .claude _ => "claude-code"
  | .codex _ => "codex"

/-- The explicit scope of a save. -/
def scopeOverride (save : Save) : Option String :=
  match save.transcript with
  | .claude transcript => transcript.scopeOverride
  | .codex rollout => rollout.scopeOverride

variable {platform : Platform} (save : Save)

/-- The directory that an item's session ran in. -/
def sessionCwd (item : NewItem) : Option String := (item.metadata.get "cwd").bind Json.asStr

theorem prefixed : save.agent ∈ editorPrefixes := by
  unfold agent
  split <;> decide

/-- What a save's source yields are items of sessions. -/
theorem yields_sessions : ∀ item, .ok item ∈ (save.source platform).items → SessionItem item := by
  have each : ∀ outcomes : List LineOutcome,
      (∀ outcome ∈ outcomes, ∀ item ∈ outcome.items, SessionItem item) →
      ∀ item, .ok item ∈ outcomes.flatMap LineOutcome.yields → SessionItem item := by
    intro outcomes sessions item yielded
    obtain ⟨outcome, read, inside⟩ := List.mem_flatMap.mp yielded
    exact sessions outcome read item (List.mem_filterMap.mpr ⟨_, inside, rfl⟩)
  obtain ⟨transcript, bytes, fs, readers, readings⟩ := save
  cases transcript with
  | claude transcript =>
    refine each _ (forall_readLines (fun _ _ _ => ?_) () 1 _)
    refine readLine_items fun line => ?_
    rw [items_message]
    exact claudeLine_sessions transcript line
  | codex rollout =>
    refine each _ (forall_readLines (fun session number _ => ?_)
      (Session.mk rollout.fileStem none) 1 _)
    refine readLine_items fun line => ?_
    rw [CodexRollout.parsedLine]
    split
    · simp [LineOutcome.none, LineOutcome.items]
    · rw [items_message]
      exact codexLine_sessions rollout number line session

/-- **The items of a save** are flat, and have the scopes of their directories. -/
theorem sourceItems_derived (plain : save.scopeOverride = none) {item : NewItem}
    (member : item ∈ sourceItems (save.source platform)) :
    item.metadata.depth ≤ 2 ∧
      item.scope = (sessionCwd item).bind (deriveScope platform save.agent) := by
  obtain ⟨candidate, listed, rfl⟩ := List.mem_map.mp member
  obtain ⟨yielded, read, same⟩ := List.mem_filterMap.mp (List.fst_mem_of_mem_zipIdx listed)
  rcases yielded with error | given
  · cases same
  · obtain ⟨unscoped, flat⟩ := save.yields_sessions given read
    have completed : candidate.1 =
        { given with scope := (save.source platform).defaultScope given } := by
      rw [← Option.some.inj same, withDefaultScope, unscoped]
      rfl
    rw [completed]
    refine ⟨flat, ?_⟩
    obtain ⟨transcript, bytes, fs, readers, readings⟩ := save
    cases transcript with
    | claude transcript =>
      change defaultScope platform "claude-code" transcript.scopeOverride given = _
      rw [show transcript.scopeOverride = none from plain]
      rfl
    | codex rollout =>
      change defaultScope platform "codex" rollout.scopeOverride given = _
      rw [show rollout.scopeOverride = none from plain]
      rfl

end Save

section Saves

variable (platform : Platform)

/-- The store after saves, however each of them ends. -/
def saveAll (saves : List Save) (store : Store) : Store :=
  saves.foldl (fun store save =>
    (Effect.exec (ingestSource platform save.readings (save.source platform) false) store).2) store

/-- A call that one of some saves may make. -/
def OfSaves (saves : List Save) (call : Env × ItemCall) : Prop :=
  ∃ save ∈ saves, OfRun save.readings (sourceItems (save.source platform)) call

variable {platform}

/-- **Saves are a run of calls**, and every row they leave is an item of one of them. -/
theorem saveAll_reached {start : Store} (saves : List Save) :
    Reached platform (OfSaves platform saves) start (saveAll platform saves start) ∧
      ∀ known ∈ (saveAll platform saves start).database.tables.shelf,
        (∃ old ∈ start.database.tables.shelf, KeepsShelved none old known) ∨
          ∃ save ∈ saves, Delivered platform save.readings (sourceItems (save.source platform))
            known := by
  induction saves generalizing start with
  | nil => exact ⟨.refl, fun known member => .inl ⟨known, member, .refl known⟩⟩
  | cons save rest inductionHypothesis =>
    have first : Reached platform (OfRun save.readings (sourceItems (save.source platform))) start
        (Effect.exec (ingestSource platform save.readings (save.source platform) false) start).2 :=
      ingestSource_reached start .refl
    obtain ⟨later, delivered⟩ := @inductionHypothesis
      (Effect.exec (ingestSource platform save.readings (save.source platform) false) start).2
    constructor
    · refine (first.mono ?_).trans (later.mono ?_)
      · exact fun call ofRun => ⟨save, List.mem_cons_self, ofRun⟩
      · rintro call ⟨other, among, ofRun⟩
        exact ⟨other, List.mem_cons_of_mem save among, ofRun⟩
    · intro known member
      rcases delivered known member with ⟨middle, there, kept⟩ | ⟨other, among, made⟩
      · rcases reached_delivers first middle there with ⟨old, here, keeps⟩ | made
        · exact .inl ⟨old, here, keeps_trans keeps kept⟩
        · exact .inr ⟨save, List.mem_cons_self, made.keeps kept⟩
      · exact .inr ⟨other, List.mem_cons_of_mem save among, made⟩

/-- A row as the item it was made of gave it. -/
structure Remembers (row : ItemRow) (item : NewItem) : Prop where
  content : row.content = item.content
  source : row.source = item.source
  metadata : row.metadata = item.metadata
  scope : row.scope = item.scope

/-- A delivered row remembers its item, where the scope of the item was derived. -/
theorem delivered_remembers {save : Save} (plain : save.scopeOverride = none) {known : Shelved}
    (delivered : Delivered platform save.readings (sourceItems (save.source platform)) known) :
    ∃ item ∈ sourceItems (save.source platform), Remembers known.1 item := by
  obtain ⟨item, given, env, draw, validated, supersedes, -, accepted, kept⟩ := delivered
  obtain ⟨externalId, scope, rfl, same⟩ := kept
  have derived := (save.sourceItems_derived plain given).2
  have checked := (validatesAs accepted).scope
  have unchanged : item.scope.mapM (Scope.validate platform) = .ok item.scope := by
    rw [derived]
    rcases Save.sessionCwd item with _ | cwd
    · rfl
    · exact deriveScope_validates
  refine ⟨item, given, rfl, rfl, rfl, ?_⟩
  rcases same with same | moved
  · change scope = item.scope
    rw [same]
    exact (Except.ok.inj (unchanged.symm.trans checked)).symm
  · cases moved

variable {surroundings : Surroundings} {editor : Editor}

end Saves

/-- The text of a message in `/work/Dev`. -/
def devText : String :=
  "\x7b\"type\":\"user\",\"uuid\":\"u\",\"cwd\":\"/work/Dev\"," ++
    "\"message\":\x7b\"content\":\"hi\"\x7d\x7d"

/-- The message. -/
def devLine : ClaudeLine :=
  ⟨"user", some "u", none, none, none, some "/work/Dev", none, none, none,
    some (some (.string "hi"))⟩

/-- A save of its session. -/
def devSave : Save where
  transcript := .claude ⟨"session", false, none, defaultChunkBytes, none⟩
  bytes := encodeUtf8 devText.toList ++ [10]
  fs := ⟨fun _ => none⟩
  readers := ⟨literalReader (devText.toList.take (devText.toList.length - 1)) devLine,
    literalReader [] ⟨none, "", none⟩⟩
  readings := standing .epoch

end Singularmem.Hooks
