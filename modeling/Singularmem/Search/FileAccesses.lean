import Singularmem.Library.Accesses
import Singularmem.Search.FaultyRuns

/-!
# Loading and committing, access by access

The functions that load a directory and commit to it are here once more as sequences of
accesses: a read of one file, a listing of the directory, one change of it. What is done in
memory happens between two accesses.

Run without interruption each is the computation of the same name. None but the sweep asks
which temporary files are there, so the commits do the same whatever they are; and a load of
a directory that has its `.meta.json` changes no other file than the temporary ones.
-/

namespace Singularmem.Search

open Library Singularmem.Core

variable {α β : Type}

/-- The files that are read by name: all but the temporary ones. -/
def Directory.files (dir : Directory) : Directory := { dir with temps := [] }

/-- The four files of a directory, its temporary files, and its file steps. -/
def vectorFiles : Medium Directory Directory (List TempFile) FileStep where
  view := Directory.files
  listing := Directory.temps
  apply := FileStep.apply
  seen := by
    rintro ⟨metaJson, usearch, keymap, journal, temps⟩ ⟨_, _, _, _, others⟩ step same
    cases same
    cases step <;> rfl

/-- What the code of a handle keeps to itself: the handle, and the failures to come of its
graph library. -/
structure Private where
  faults : List Bool
  handle : VectorIndex

/-- A computation of a handle by its accesses to the directory. -/
abbrev Stepwise := ExceptT Error (StateT Private (Access Directory (List TempFile) FileStep))

namespace Stepwise

/-- The accesses of a computation that starts with this in memory. -/
def start (program : Stepwise α) (own : Private) :
    Access Directory (List TempFile) FileStep (Except Error α × Private) :=
  StateT.run (ExceptT.run program) own

/-- The computation as a whole, when nobody comes between its accesses. -/
def collapse (program : Stepwise α) : Op α :=
  ExceptT.mk fun session =>
    let played := (start program ⟨session.faults, session.handle⟩).play vectorFiles session.dir
    (played.1.1, ⟨played.1.2.faults, session.dir.after played.2, session.steps ++ played.2,
      played.1.2.handle⟩)

/-- Read a file. -/
def readFile (part : Directory → α) : Stepwise α :=
  ExceptT.lift (StateT.lift (Access.look part))

/-- List the temporary files. -/
def readDir : Stepwise (List TempFile) := ExceptT.lift (StateT.lift (.list .done))

/-- Do one file step. -/
def fileStep (step : FileStep) : Stepwise PUnit :=
  ExceptT.lift (StateT.lift (Access.command step))

/-- Work in memory. The computation is run beside no directory: it has to be one that asks
for none. -/
def inMemory (action : Op α) : Stepwise α :=
  ExceptT.mk fun own =>
    let ran := action.exec ⟨own.faults, .fresh, [], own.handle⟩
    pure (ran.1, ⟨ran.2.faults, ran.2.handle⟩)

/-- The handle as it is. -/
def handle : Stepwise VectorIndex := inMemory do return (← get).handle

/-- Replace `.meta.json` through a temporary file. -/
def writeMetaAtomic (written : VectorIndexMeta) : Stepwise PUnit := do
  fileStep (.createTemp .metaJson)
  fileStep (.renameMeta written)

/-- Delete leftover temporary files. -/
def sweepTempFiles : List TempFile → Stepwise PUnit
  | [] => pure ⟨⟩
  | temp :: rest => do
    fileStep (.removeTemp temp)
    sweepTempFiles rest

/-- Read `.meta.json`, or write the one a fresh directory should have. -/
def loadMeta (embedder : Embedder) : Stepwise (VectorIndexMeta × Option String) := do
  match ← readFile Directory.metaJson with
  | none => do
    let written : VectorIndexMeta := ⟨formatVersion, embedder.modelId, embedder.dim⟩
    writeMetaAtomic written
    pure (written, none)
  | some found =>
    if found.formatVersion ≠ formatVersion ∧ found.formatVersion ≠ formatVersionV1 then
      throw (.indexCorrupted ("unsupported vector index format_version " ++
        found.formatVersion.quote ++ "; this build reads " ++ formatVersionV1.quote ++ " and " ++
        formatVersion.quote))
    else if found.modelId ≠ embedder.modelId then
      throw (.modelMismatch found.modelId embedder.modelId)
    else if found.dim ≠ embedder.dim then
      throw (.dimMismatch found.dim embedder.dim)
    else
      pure ({ found with formatVersion := formatVersion }, some found.formatVersion)

/-- Add every journal record whose id is not already in the keymap, without journalling it
again. -/
def absorbJournal : Stepwise PUnit := do
  let journal ← readFile Directory.journal
  let owned ← handle
  match owned.missing { Directory.fresh with journal } with
  | [] => pure ⟨⟩
  | missing => inMemory (addEntries missing false)

/-- Load the directory into a fresh handle. `index.usearch`, `keymap.bin` and `journal.bin` are
read one after the other. -/
def load (embedder : Embedder) : Stepwise PUnit := do
  let (written, diskFormat) ← loadMeta embedder
  inMemory (onIndex (usearchCall "constructing usearch::Index"))
  let usearch ← readFile Directory.usearch
  let inner ← inMemory (loadGraph "loading existing usearch index" usearch)
  let keymap ← readFile Directory.keymap
  let bytes ← readFile Directory.journal
  let journal ← inMemory (Effect.ofExcept (Journal.open bytes written.dim written.modelId))
  let keymap := { Directory.fresh with usearch, keymap }.loadedKeymap
  inMemory <| updateHandle fun _ =>
    { inner, «meta» := written, keymap, journal, pending := [],
      loadedGeneration := keymap.generation,
      metaUpgradePending := diskFormat.getD formatVersion = formatVersionV1,
      tombstones := [] }
  absorbJournal

/-- Sweep leftovers, then load. -/
def sweepAndLoad (embedder : Embedder) : Stepwise PUnit := do
  let temps ← readDir
  sweepTempFiles temps
  load embedder

/-- Write the journal's header out, creating the file. -/
def createFile : Stepwise PUnit := do
  let owned ← handle
  fileStep .createJournal
  fileStep (.writeJournal owned.journal.encoded)

/-- Create the journal when it is absent. -/
def createIfAbsent : Stepwise PUnit := do
  if (← readFile Directory.journal).isNone then createFile else pure ⟨⟩

/-- Append records to the journal, creating it when it is absent. -/
def journalAppend (records : List Entry) : Stepwise PUnit := do
  let owned ← handle
  match records, records.find? (fun entry => entry.2.length ≠ owned.journal.dim) with
  | [], _ => pure ⟨⟩
  | _, some entry => throw (.dimMismatch owned.journal.dim entry.2.length)
  | records, none => do
    createIfAbsent
    fileStep (.writeJournal (records.flatMap encodeRecord))

/-- Truncate the journal back to its header; an absent journal stays absent. -/
def journalClear : Stepwise PUnit := do
  let owned ← handle
  if (← readFile Directory.journal).isSome then
    fileStep (.setLenJournal owned.journal.headerLen)
  else pure ⟨⟩

/-- Append drained records in bounded chunks; what could not be written goes back to the
queue. -/
def appendChunks : Nat → List Entry → Stepwise PUnit
  | 0, _ => pure ⟨⟩
  | _, [] => pure ⟨⟩
  | fuel + 1, rest => do
    tryCatch (journalAppend (rest.take journalAppendChunk)) fun error => do
      inMemory (requeue rest)
      throw error
    appendChunks fuel (rest.drop journalAppendChunk)

/-- When another handle compacted, replace the in-memory graph and keymap with what is on disk
and insert the queue again. -/
def reloadIfStale : Stepwise PUnit := do
  let owned ← handle
  match ← readFile Directory.keymap with
  | none => pure ⟨⟩
  | some diskKeymap =>
    if diskKeymap.generation = owned.loadedGeneration then pure ⟨⟩
    else do
      inMemory (onIndex (usearchCall "constructing usearch::Index for a stale-handle reload"))
      let usearch ← readFile Directory.usearch
      let fresh ← inMemory <|
        loadGraph "reloading usearch index after another handle compacted" usearch
      let reloaded ← inMemory (insertFresh ⟨fresh, diskKeymap⟩ owned.pending)
      inMemory <| updateHandle fun handle =>
        { handle.withPair reloaded with loadedGeneration := diskKeymap.generation }

/-- Rewrite `.meta.json` the first time a directory of the old format commits. -/
def writeMetaUpgrade : Stepwise PUnit := do
  let owned ← handle
  if owned.metaUpgradePending then do
    inMemory (updateHandle fun handle => { handle with metaUpgradePending := false })
    writeMetaAtomic owned.meta
  else pure ⟨⟩

/-- Rename a graph that holds something into place; for an empty one remove the old file. -/
def publishGraph (snapshot : Graph) : Stepwise PUnit := do
  if snapshot ≠ ∅ then fileStep (.renameUsearch snapshot)
  else if (← readFile Directory.usearch).isSome then fileStep .removeUsearch
  else pure ⟨⟩

/-- Stamp the keymap with the next generation and rename it into place. -/
def publishKeymap : Stepwise PUnit := do
  inMemory <| updateHandle fun handle =>
    { handle with keymap := { handle.keymap with generation := handle.loadedGeneration + 1 } }
  fileStep (.createTemp .keymap)
  let owned ← handle
  fileStep (.renameKeymap owned.keymap)

/-- Publish the graph, then the keymap, then drop the journal. -/
def publishCompaction (snapshot : Graph) : Stepwise PUnit := do
  publishGraph snapshot
  publishKeymap
  journalClear
  inMemory <| updateHandle fun handle =>
    { handle with tombstones := [], loadedGeneration := handle.loadedGeneration + 1 }

/-- Write a snapshot of a graph that holds something to its temporary file. -/
def saveSnapshot (snapshot : Graph) : Stepwise PUnit :=
  if snapshot ≠ ∅ then do
    inMemory (onIndex (usearchCall "usearch save"))
    fileStep (.createTemp .usearch)
  else pure ⟨⟩

/-- Fold everything into `index.usearch` and `keymap.bin` and truncate the journal. -/
def compactLocked : Stepwise PUnit := do
  reloadIfStale
  absorbJournal
  let owned ← handle
  let drained ← inMemory takePending
  tryCatch (do saveSnapshot owned.inner; publishCompaction owned.inner) fun error => do
    inMemory (requeue drained)
    throw error

/-- Body of commit, with the lock held. -/
def commitLocked (endOfBatch : Bool) : Stepwise PUnit := do
  writeMetaUpgrade
  if endOfBatch then compactLocked
  else do
    let drained ← inMemory takePending
    appendChunks drained.length drained
    let owned ← handle
    let journal ← readFile Directory.journal
    if compactThreshold < Journal.len owned.journal journal then compactLocked else pure ⟨⟩

section Collapsing

/-- Computations that run alike are the same. -/
theorem op_ext {left right : Op α} (same : ∀ session, left.exec session = right.exec session) :
    left = right := funext same

theorem exec_collapse (program : Stepwise α) (session : Session) :
    (collapse program).exec session =
      let played := (start program ⟨session.faults, session.handle⟩).play vectorFiles session.dir
      (played.1.1, ⟨played.1.2.faults, session.dir.after played.2, session.steps ++ played.2,
        played.1.2.handle⟩) := rfl

/-- The accesses of a sequence are those of the first computation, and then those of the
second unless the first one threw. -/
theorem start_bind (program : Stepwise α) (next : α → Stepwise β) (own : Private) :
    start (program >>= next) own = start program own >>= fun ended =>
      match ended.1 with
      | .ok value => start (next value) ended.2
      | .error error => pure (.error error, ended.2) := by
  change (start program own >>= fun ended => StateT.run (ExceptT.bindCont next ended.1) ended.2) = _
  congr 1
  funext ended
  rcases ended with ⟨error | value, after⟩ <;> rfl

/-- A handler's accesses come after a throw. -/
theorem start_tryCatch (program : Stepwise α) (handler : Error → Stepwise α) (own : Private) :
    start (tryCatch program handler) own = start program own >>= fun ended =>
      match ended.1 with
      | .ok value => pure (.ok value, ended.2)
      | .error error => start (handler error) ended.2 := by
  change StateT.run (ExceptT.run (ExceptT.tryCatch program handler)) own = _
  rw [ExceptT.tryCatch, ExceptT.run_mk, StateT.run_bind]
  congr 1
  funext ended
  rcases ended with ⟨error | value, after⟩ <;> rfl

@[simp] theorem collapse_pure (value : α) : collapse (pure value) = (pure value : Op α) := by
  apply op_ext
  rintro ⟨faults, dir, steps, handle⟩
  rw [exec_collapse]
  change (_, (⟨faults, dir, steps ++ [], handle⟩ : Session)) = _
  rw [List.append_nil]
  rfl

@[simp] theorem collapse_throw (error : Error) : collapse (throw error) = (throw error : Op α) := by
  apply op_ext
  rintro ⟨faults, dir, steps, handle⟩
  rw [exec_collapse]
  change (_, (⟨faults, dir, steps ++ [], handle⟩ : Session)) = _
  rw [List.append_nil]
  rfl

@[simp] theorem collapse_readFile (part : Directory → α) :
    collapse (readFile part) = (do return part (← get).dir.files : Op α) := by
  apply op_ext
  rintro ⟨faults, dir, steps, handle⟩
  rw [exec_collapse]
  change (_, (⟨faults, dir, steps ++ [], handle⟩ : Session)) = _
  rw [List.append_nil]
  rfl

@[simp] theorem collapse_readDir : collapse readDir = (do return (← get).dir.temps) := by
  apply op_ext
  rintro ⟨faults, dir, steps, handle⟩
  rw [exec_collapse]
  change (_, (⟨faults, dir, steps ++ [], handle⟩ : Session)) = _
  rw [List.append_nil]
  rfl

@[simp] theorem collapse_fileStep (step : FileStep) :
    collapse (fileStep step) = Search.fileStep step := rfl

@[simp] theorem collapse_bind (program : Stepwise α) (next : α → Stepwise β) :
    collapse (program >>= next) = collapse program >>= fun value => collapse (next value) := by
  apply op_ext
  rintro ⟨faults, dir, steps, handle⟩
  rw [Effect.exec_bind, exec_collapse, exec_collapse, start_bind, Access.play_bind]
  rcases (start program ⟨faults, handle⟩).play vectorFiles dir with ⟨⟨error | value, own⟩, taken⟩
  · simp only [Access.play_pure, List.append_nil]
  · simp only [exec_collapse, Directory.after_append, List.append_assoc]
    rfl

@[simp] theorem collapse_tryCatch (program : Stepwise α) (handler : Error → Stepwise α) :
    collapse (tryCatch program handler) =
      tryCatch (collapse program) fun error => collapse (handler error) := by
  apply op_ext
  rintro ⟨faults, dir, steps, handle⟩
  rw [Effect.exec_tryCatch, exec_collapse, exec_collapse, start_tryCatch, Access.play_bind]
  rcases (start program ⟨faults, handle⟩).play vectorFiles dir with ⟨⟨error | value, own⟩, taken⟩
  · simp only [exec_collapse, Directory.after_append, List.append_assoc]
    rfl
  · simp only [Access.play_pure, List.append_nil]

/-- A condition decides between two computations. -/
@[simp] theorem collapse_ite (condition : Prop) [Decidable condition] (first second : Stepwise α) :
    collapse (if condition then first else second) =
      if condition then collapse first else collapse second := by
  split <;> rfl

end Collapsing

end Stepwise

/-- The computation neither asks for the directory nor changes it. -/
def InMemory (action : Op α) : Prop :=
  ∀ faults dir steps handle, action.exec ⟨faults, dir, steps, handle⟩ =
    let ran := action.exec ⟨faults, .fresh, [], handle⟩
    (ran.1, ⟨ran.2.faults, dir, steps, ran.2.handle⟩)

namespace InMemory

theorem pure (value : α) : InMemory (Pure.pure value : Op α) := fun _ _ _ _ => rfl

theorem throw (error : Error) : InMemory (MonadExcept.throw error : Op α) := fun _ _ _ _ => rfl

theorem ofExcept (outcome : Except Error α) : InMemory (Effect.ofExcept outcome : Op α) := by
  cases outcome with
  | ok value => exact pure value
  | error error => exact throw error

theorem handle : InMemory (do return (← get).handle) := fun _ _ _ _ => rfl

theorem updateHandle (update : VectorIndex → VectorIndex) :
    InMemory (Search.updateHandle update) := fun _ _ _ _ => rfl

theorem onIndex (action : Usearch PUnit) : InMemory (Search.onIndex action) := fun _ _ _ _ => rfl

theorem insertFresh (fresh : Pair) (entries : List Entry) :
    InMemory (Search.insertFresh fresh entries) := fun _ _ _ _ => rfl

/-- One computation in memory after another. -/
theorem bind {action : Op α} {next : α → Op β} (first : InMemory action)
    (second : ∀ value, InMemory (next value)) : InMemory (action >>= next) := by
  intro faults dir steps handle
  rw [Effect.exec_bind, Effect.exec_bind, first faults dir steps handle]
  rcases ran : action.exec ⟨faults, .fresh, [], handle⟩ with ⟨error | value, left, final, done, kept⟩
  · rfl
  · have unmoved := first faults .fresh [] handle
    rw [ran] at unmoved
    cases unmoved
    exact second value left dir steps kept

/-- What the handle holds may decide. -/
theorem get_bind {next : Session → Op α}
    (alike : ∀ session other, session.handle = other.handle → next session = next other)
    (second : ∀ session, InMemory (next session)) : InMemory (get >>= next) := by
  intro faults dir steps handle
  rw [Effect.exec_bind_ok (Effect.exec_get _), Effect.exec_bind_ok (Effect.exec_get _),
    alike ⟨faults, dir, steps, handle⟩ ⟨faults, .fresh, [], handle⟩ rfl]
  exact second _ faults dir steps handle

/-- The directory stays. -/
theorem keeps {action : Op α} (confined : InMemory action) {session after : Session}
    {outcome : Except Error α} (ran : action.exec session = (outcome, after)) :
    after.dir = session.dir := by
  have kept := confined session.faults session.dir session.steps session.handle
  rw [show action.exec ⟨session.faults, session.dir, session.steps, session.handle⟩ =
    (outcome, after) from ran] at kept
  rw [(Prod.mk.inj kept).2]

theorem loadGraph (context : String) (file : Option Graph) :
    InMemory (Search.loadGraph context file) := by
  cases file with
  | none => exact bind (onIndex _) fun _ => pure _
  | some graph => exact bind (onIndex _) fun _ => pure _

theorem requeue (records : List Entry) : InMemory (Search.requeue records) := updateHandle _

theorem takePending : InMemory Search.takePending := fun _ _ _ _ => rfl

theorem addEntries (entries : List Entry) (queue : Bool) :
    InMemory (Search.addEntries entries queue) := by
  refine get_bind (fun session other same => by rw [same]) fun session => ?_
  dsimp only
  split
  · exact throw _
  · refine bind (onIndex _) fun _ => ?_
    split
    · exact updateHandle _
    · exact pure _

theorem remove (id : ItemId) : InMemory (VectorIndex.remove id) := by
  have drops : InMemory (removeKey id) := by
    refine get_bind (fun session other same => by rw [same]) fun session => ?_
    split
    · exact bind (updateHandle _) fun _ => bind (onIndex _) fun _ =>
        bind (updateHandle _) fun _ => pure _
    · exact pure _
  exact bind drops fun _ => updateHandle _

end InMemory

namespace Stepwise

/-- Work in memory is the computation it runs. -/
theorem collapse_inMemory {action : Op α} (confined : InMemory action) :
    collapse (inMemory action) = action := by
  apply op_ext
  rintro ⟨faults, dir, steps, handle⟩
  rw [exec_collapse, confined faults dir steps handle]
  dsimp only [inMemory, start, ExceptT.run_mk]
  change (_, (⟨_, dir, steps ++ [], _⟩ : Session)) = _
  rw [List.append_nil]
  rfl

@[simp] theorem collapse_handle : collapse handle = (do return (← get).handle) :=
  collapse_inMemory .handle

section Functions

/-- After a file was read the rest runs in the same state. -/
theorem exec_readFile_bind (part : Directory → α) (next : α → Stepwise β) (session : Session) :
    (collapse (readFile part >>= next)).exec session =
      (collapse (next (part session.dir.files))).exec session := by
  rw [collapse_bind, collapse_readFile]
  exact Effect.exec_bind_ok rfl

/-- After a look at the handle the rest runs in the same state. -/
theorem exec_handle_bind (next : VectorIndex → Stepwise β) (session : Session) :
    (collapse (handle >>= next)).exec session = (collapse (next session.handle)).exec session := by
  rw [collapse_bind, collapse_handle]
  exact Effect.exec_bind_ok rfl

@[simp] theorem collapse_writeMetaAtomic (written : VectorIndexMeta) :
    collapse (writeMetaAtomic written) = Search.writeMetaAtomic written := by
  simp only [writeMetaAtomic, Search.writeMetaAtomic, collapse_bind, collapse_fileStep]

@[simp] theorem collapse_sweepTempFiles (temps : List TempFile) :
    collapse (sweepTempFiles temps) = Search.sweepTempFiles temps := by
  induction temps with
  | nil => exact collapse_pure _
  | cons temp rest inductionHypothesis =>
    simp only [sweepTempFiles, Search.sweepTempFiles, collapse_bind, collapse_fileStep,
      inductionHypothesis]

@[simp] theorem collapse_loadMeta (embedder : Embedder) :
    collapse (loadMeta embedder) = Search.loadMeta embedder := by
  apply op_ext
  rintro ⟨faults, ⟨metaJson, usearch, keymap, journal, temps⟩, steps, handle⟩
  rw [loadMeta, exec_readFile_bind, Search.loadMeta, Effect.exec_bind_ok (Effect.exec_get _)]
  cases metaJson with
  | none => simp only [Directory.files, collapse_bind, collapse_writeMetaAtomic, collapse_pure]
  | some found => simp only [Directory.files, collapse_ite, collapse_throw, collapse_pure]

@[simp] theorem collapse_absorbJournal : collapse absorbJournal = Search.absorbJournal := by
  apply op_ext
  intro session
  rw [absorbJournal, exec_readFile_bind, exec_handle_bind, Search.absorbJournal,
    Effect.exec_bind_ok (Effect.exec_get _)]
  change (collapse (match session.handle.missing session.dir with | [] => _ | missing => _)).exec
    session = _
  cases session.handle.missing session.dir with
  | nil => rw [collapse_pure]
  | cons entry rest => rw [collapse_inMemory (.addEntries _ _)]

@[simp] theorem collapse_load (embedder : Embedder) :
    collapse (load embedder) = Search.load embedder := by
  rw [load, collapse_bind, collapse_loadMeta, Search.load]
  congr 1
  funext loaded
  rcases loaded with ⟨written, diskFormat⟩
  dsimp only
  rw [collapse_bind, collapse_inMemory (.onIndex _)]
  congr 1
  funext _
  apply op_ext
  rintro ⟨faults, dir, steps, handle⟩
  rw [exec_readFile_bind, collapse_bind, collapse_inMemory (.loadGraph _ _),
    Effect.exec_bind_ok (Effect.exec_get _), Effect.exec_bind, Effect.exec_bind]
  dsimp only [Directory.files]
  rcases ran : (Search.loadGraph "loading existing usearch index" dir.usearch).exec
    ⟨faults, dir, steps, handle⟩ with ⟨error | inner, after⟩
  · rfl
  · obtain rfl : after.dir = dir :=
      (InMemory.loadGraph _ dir.usearch).keeps ran
    dsimp only
    rw [exec_readFile_bind, exec_readFile_bind, Effect.exec_bind_ok (Effect.exec_get _),
      Effect.exec_bind_ok (Effect.exec_get _), collapse_bind,
      collapse_inMemory (.ofExcept _)]
    simp only [collapse_bind, collapse_inMemory (.updateHandle _), collapse_absorbJournal]
    rfl

@[simp] theorem collapse_sweepAndLoad (embedder : Embedder) :
    collapse (sweepAndLoad embedder) = Search.sweepAndLoad embedder := by
  simp only [sweepAndLoad, Search.sweepAndLoad, collapse_bind, collapse_readDir,
    collapse_sweepTempFiles, collapse_load, bind_assoc, pure_bind]

@[simp] theorem collapse_createFile : collapse createFile = Search.createFile := by
  simp only [createFile, Search.createFile, collapse_bind, collapse_handle, collapse_fileStep,
    bind_assoc, pure_bind]

@[simp] theorem collapse_createIfAbsent : collapse createIfAbsent = Search.createIfAbsent := by
  simp only [createIfAbsent, Search.createIfAbsent, collapse_bind, collapse_readFile, collapse_ite,
    collapse_createFile, collapse_pure, bind_assoc, pure_bind]
  rfl

@[simp] theorem collapse_journalAppend (records : List Entry) :
    collapse (journalAppend records) = Search.journalAppend records := by
  simp only [journalAppend, Search.journalAppend, collapse_bind, collapse_handle, bind_assoc,
    pure_bind]
  congr 1
  funext session
  cases records with
  | nil => exact collapse_pure _
  | cons record rest =>
    cases (record :: rest).find? (fun entry => entry.2.length ≠ session.handle.journal.dim) with
    | some entry => exact collapse_throw _
    | none => simp only [collapse_bind, collapse_createIfAbsent, collapse_fileStep]

@[simp] theorem collapse_journalClear : collapse journalClear = Search.journalClear := by
  apply op_ext
  intro session
  rw [journalClear, exec_handle_bind, exec_readFile_bind, Search.journalClear,
    Effect.exec_bind_ok (Effect.exec_get _), Effect.exec_bind_ok (Effect.exec_get _), collapse_ite,
    collapse_fileStep, collapse_pure]
  rfl

@[simp] theorem collapse_appendChunks (fuel : Nat) (rest : List Entry) :
    collapse (appendChunks fuel rest) = Search.appendChunks fuel rest := by
  induction fuel generalizing rest with
  | zero => exact collapse_pure _
  | succ fuel inductionHypothesis =>
    cases rest with
    | nil => exact collapse_pure _
    | cons entry rest =>
      simp only [appendChunks, Search.appendChunks, collapse_bind, collapse_tryCatch,
        collapse_journalAppend, collapse_inMemory (.requeue _), collapse_throw, inductionHypothesis]

@[simp] theorem collapse_reloadIfStale : collapse reloadIfStale = Search.reloadIfStale := by
  apply op_ext
  rintro ⟨faults, ⟨metaJson, usearch, keymap, journal, temps⟩, steps, handle⟩
  rw [reloadIfStale, exec_handle_bind, exec_readFile_bind, Search.reloadIfStale,
    Effect.exec_bind_ok (Effect.exec_get _)]
  dsimp only [Directory.files]
  cases keymap with
  | none => rw [collapse_pure]
  | some diskKeymap =>
    dsimp only
    rw [collapse_ite, collapse_pure]
    split
    · rfl
    · rw [collapse_bind, collapse_inMemory (.onIndex _), Effect.exec_bind, Effect.exec_bind]
      rcases ran : (Search.onIndex
        (usearchCall "constructing usearch::Index for a stale-handle reload")).exec
        ⟨faults, ⟨metaJson, usearch, some diskKeymap, journal, temps⟩, steps, handle⟩
        with ⟨error | _, after⟩
      · rfl
      · have kept := (InMemory.onIndex _).keeps ran
        dsimp only
        rw [exec_readFile_bind, kept]
        simp only [collapse_bind, collapse_inMemory (.loadGraph _ _),
          collapse_inMemory (.insertFresh _ _), collapse_inMemory (.updateHandle _)]
        rfl

@[simp] theorem collapse_writeMetaUpgrade : collapse writeMetaUpgrade = Search.writeMetaUpgrade := by
  simp only [writeMetaUpgrade, Search.writeMetaUpgrade, collapse_bind, collapse_handle, bind_assoc,
    pure_bind, collapse_ite, collapse_inMemory (.updateHandle _), collapse_writeMetaAtomic,
    collapse_pure]

@[simp] theorem collapse_publishGraph (snapshot : Graph) :
    collapse (publishGraph snapshot) = Search.publishGraph snapshot := by
  simp only [publishGraph, Search.publishGraph, collapse_ite, collapse_fileStep, collapse_bind,
    collapse_readFile, collapse_pure, bind_assoc, pure_bind]
  rfl

@[simp] theorem collapse_publishKeymap : collapse publishKeymap = Search.publishKeymap := by
  simp only [publishKeymap, Search.publishKeymap, collapse_bind, collapse_fileStep,
    collapse_inMemory (.updateHandle _), collapse_handle, bind_assoc, pure_bind]

@[simp] theorem collapse_publishCompaction (snapshot : Graph) :
    collapse (publishCompaction snapshot) = Search.publishCompaction snapshot := by
  simp only [publishCompaction, Search.publishCompaction, collapse_bind, collapse_publishGraph,
    collapse_publishKeymap, collapse_journalClear, collapse_inMemory (.updateHandle _)]

@[simp] theorem collapse_saveSnapshot (snapshot : Graph) :
    collapse (saveSnapshot snapshot) = Search.saveSnapshot snapshot := by
  simp only [saveSnapshot, Search.saveSnapshot, collapse_ite, collapse_bind, collapse_fileStep,
    collapse_inMemory (.onIndex _), collapse_pure]

@[simp] theorem collapse_compactLocked : collapse compactLocked = Search.compactLocked := by
  simp only [compactLocked, Search.compactLocked, collapse_bind, collapse_reloadIfStale,
    collapse_absorbJournal, collapse_handle, collapse_inMemory .takePending, collapse_tryCatch,
    collapse_saveSnapshot, collapse_publishCompaction, collapse_inMemory (.requeue _),
    collapse_throw, bind_assoc, pure_bind]

@[simp] theorem collapse_commitLocked (endOfBatch : Bool) :
    collapse (commitLocked endOfBatch) = Search.commitLocked endOfBatch := by
  rw [commitLocked, Search.commitLocked, collapse_bind, collapse_writeMetaUpgrade, collapse_ite,
    collapse_compactLocked]
  congr 1
  funext _
  split
  · rfl
  · rw [collapse_bind, collapse_inMemory .takePending]
    congr 1
    funext drained
    rw [collapse_bind, collapse_appendChunks]
    congr 1
    funext _
    apply op_ext
    intro session
    rw [exec_handle_bind, exec_readFile_bind,
      Effect.exec_bind_ok (Effect.exec_get _), collapse_ite, collapse_compactLocked, collapse_pure]
    rfl

end Functions

/-- The computation never asks which temporary files are there. -/
def Deaf (program : Stepwise α) : Prop := ∀ own, (start program own).Deaf

namespace Deaf

theorem pure (value : α) : Deaf (Pure.pure value) := fun _ => True.intro

theorem throw (error : Error) : Deaf (MonadExcept.throw error : Stepwise α) := fun _ => True.intro

theorem readFile (part : Directory → α) : Deaf (Stepwise.readFile part) := fun _ _ => True.intro

theorem fileStep (step : FileStep) : Deaf (Stepwise.fileStep step) := fun _ => True.intro

theorem inMemory (action : Op α) : Deaf (Stepwise.inMemory action) := fun _ => True.intro

theorem handle : Deaf Stepwise.handle := inMemory _

theorem bind {program : Stepwise α} {next : α → Stepwise β} (first : Deaf program)
    (second : ∀ value, Deaf (next value)) : Deaf (program >>= next) := by
  intro own
  rw [start_bind]
  refine .bind (first own) ?_
  rintro ⟨error | value, after⟩
  · exact .pure _
  · exact second value after

theorem tryCatch {program : Stepwise α} {handler : Error → Stepwise α} (first : Deaf program)
    (second : ∀ error, Deaf (handler error)) : Deaf (MonadExcept.tryCatch program handler) := by
  intro own
  rw [start_tryCatch]
  refine .bind (first own) ?_
  rintro ⟨error | value, after⟩
  · exact second error after
  · exact .pure _

theorem ite {condition : Prop} [Decidable condition] {first second : Stepwise α}
    (yes : Deaf first) (no : Deaf second) : Deaf (if condition then first else second) := by
  split
  · exact yes
  · exact no

theorem writeMetaAtomic (written : VectorIndexMeta) : Deaf (Stepwise.writeMetaAtomic written) :=
  bind (fileStep _) fun _ => fileStep _

theorem loadMeta (embedder : Embedder) : Deaf (Stepwise.loadMeta embedder) := by
  refine bind (readFile _) fun found => ?_
  split
  · exact bind (writeMetaAtomic _) fun _ => pure _
  · exact ite (throw _) (ite (throw _) (ite (throw _) (pure _)))

theorem absorbJournal : Deaf Stepwise.absorbJournal := by
  refine bind (readFile _) fun _ => bind handle fun _ => ?_
  split
  · exact pure _
  · exact inMemory _

theorem load (embedder : Embedder) : Deaf (Stepwise.load embedder) :=
  bind (loadMeta embedder) fun _ => bind (inMemory _) fun _ => bind (readFile _) fun _ =>
    bind (inMemory _) fun _ => bind (readFile _) fun _ => bind (readFile _) fun _ =>
      bind (inMemory _) fun _ => bind (inMemory _) fun _ => absorbJournal

theorem createFile : Deaf Stepwise.createFile :=
  bind handle fun _ => bind (fileStep _) fun _ => fileStep _

theorem createIfAbsent : Deaf Stepwise.createIfAbsent :=
  bind (readFile _) fun _ => ite createFile (pure _)

theorem journalAppend (records : List Entry) : Deaf (Stepwise.journalAppend records) := by
  refine bind handle fun _ => ?_
  split
  · exact pure _
  · exact throw _
  · exact bind createIfAbsent fun _ => fileStep _

theorem journalClear : Deaf Stepwise.journalClear :=
  bind handle fun _ => bind (readFile _) fun _ => ite (fileStep _) (pure _)

theorem appendChunks (fuel : Nat) (rest : List Entry) : Deaf (Stepwise.appendChunks fuel rest) := by
  induction fuel generalizing rest with
  | zero => exact pure _
  | succ fuel inductionHypothesis =>
    cases rest with
    | nil => exact pure _
    | cons entry rest =>
      refine bind (tryCatch (journalAppend _) fun error => ?_) fun _ => inductionHypothesis _
      exact bind (inMemory _) fun _ => throw error

theorem reloadIfStale : Deaf Stepwise.reloadIfStale := by
  refine bind handle fun _ => bind (readFile _) fun found => ?_
  split
  · exact pure _
  · exact ite (pure _) (bind (inMemory _) fun _ => bind (readFile _) fun _ =>
      bind (inMemory _) fun _ => bind (inMemory _) fun _ => inMemory _)

theorem writeMetaUpgrade : Deaf Stepwise.writeMetaUpgrade :=
  bind handle fun _ => ite (bind (inMemory _) fun _ => writeMetaAtomic _) (pure _)

theorem publishGraph (snapshot : Graph) : Deaf (Stepwise.publishGraph snapshot) :=
  ite (fileStep _) (bind (readFile _) fun _ => ite (fileStep _) (pure _))

theorem publishKeymap : Deaf Stepwise.publishKeymap :=
  bind (inMemory _) fun _ => bind (fileStep _) fun _ => bind handle fun _ => fileStep _

theorem publishCompaction (snapshot : Graph) : Deaf (Stepwise.publishCompaction snapshot) :=
  bind (publishGraph snapshot) fun _ => bind publishKeymap fun _ => bind journalClear fun _ =>
    inMemory _

theorem saveSnapshot (snapshot : Graph) : Deaf (Stepwise.saveSnapshot snapshot) :=
  ite (bind (inMemory _) fun _ => fileStep _) (pure _)

theorem compactLocked : Deaf Stepwise.compactLocked := by
  refine bind reloadIfStale fun _ => bind absorbJournal fun _ => bind handle fun owned =>
    bind (inMemory _) fun drained => ?_
  exact tryCatch (bind (saveSnapshot _) fun _ => publishCompaction _) fun error =>
    bind (inMemory _) fun _ => throw error

/-- A commit never asks which temporary files are there. -/
theorem commitLocked (endOfBatch : Bool) : Deaf (Stepwise.commitLocked endOfBatch) :=
  bind writeMetaUpgrade fun _ => ite compactLocked <| bind (inMemory _) fun _ =>
    bind (appendChunks _ _) fun _ => bind handle fun _ => bind (readFile _) fun _ =>
      ite compactLocked (pure _)

end Deaf

end Stepwise

/-- The computation leaves every file as it is. -/
def Untouched (dir : Directory) (session : Session) : Prop := session.dir = dir ∧ session.steps = []

theorem InMemory.untouched {action : Op α} (confined : InMemory action) (dir : Directory) :
    Effect.Preserves (Untouched dir) action := by
  rintro ⟨faults, dir, steps, handle⟩ ⟨rfl, rfl⟩
  rw [confined faults dir [] handle]
  exact ⟨rfl, rfl⟩

/-- A load of a directory with its `.meta.json` changes no file. -/
theorem load_untouched {dir : Directory} {found : VectorIndexMeta} (present : dir.metaJson = some found)
    (embedder : Embedder) : Effect.Preserves (Untouched dir) (load embedder) := by
  have absorbs : Effect.Preserves (Untouched dir) absorbJournal := by
    refine .get_bind fun session untouched => ?_
    split
    · exact untouched
    · exact (InMemory.addEntries _ _).untouched dir session untouched
  have reads : Effect.Preserves (Untouched dir) (loadMeta embedder) := by
    refine .get_bind fun session untouched => ?_
    rw [untouched.1, present]
    dsimp only
    split
    · exact untouched
    · split
      · exact untouched
      · split
        · exact untouched
        · exact untouched
  exact .bind reads fun _ => .bind ((InMemory.onIndex _).untouched dir) fun _ =>
    .bind .get fun _ => .bind ((InMemory.loadGraph _ _).untouched dir) fun _ =>
      .bind .get fun _ => .bind .get fun _ => .bind (.ofExcept _) fun _ =>
        .bind ((InMemory.updateHandle _).untouched dir) fun _ => absorbs

namespace Stepwise

/-- The sweep is not seen. -/
theorem sweepTempFiles_calm (temps : List TempFile) (own : Private) (seen : Directory) :
    (start (sweepTempFiles temps) own).Calm vectorFiles seen (.ok ⟨⟩, own) := by
  induction temps with
  | nil => exact rfl
  | cons temp rest inductionHypothesis => exact ⟨fun _ => rfl, inductionHypothesis⟩

/-- **A load under the shared lock is calm**: of a directory with its `.meta.json` it changes
nothing that another load reads, and whatever the others sweep meanwhile it ends alike. -/
theorem sweepAndLoad_calm {dir : Directory} {found : VectorIndexMeta}
    (present : dir.metaJson = some found) (embedder : Embedder) (own : Private) :
    (start (sweepAndLoad embedder) own).Calm vectorFiles dir.files
      ((start (load embedder) own).play vectorFiles dir).1 := by
  have quiet : ((start (load embedder) own).play vectorFiles dir).2 = [] := by
    have untouched := load_untouched present embedder ⟨own.faults, dir, [], own.handle⟩ ⟨rfl, rfl⟩
    rw [← collapse_load, exec_collapse] at untouched
    exact (List.nil_append _).symm.trans untouched.2
  have loads : (start (load embedder) own).Calm vectorFiles dir.files
      ((start (load embedder) own).play vectorFiles dir).1 := by
    refine Access.Deaf.calm (Deaf.load embedder own) ?_
    rw [quiet]
    nofun
  intro temps
  change (start (sweepTempFiles temps >>= fun _ => load embedder) own).Calm _ _ _
  rw [start_bind]
  exact (sweepTempFiles_calm temps own dir.files).bind loads

end Stepwise

end Singularmem.Search
