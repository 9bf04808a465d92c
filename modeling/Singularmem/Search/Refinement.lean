import Singularmem.Library.CrashPoints
import Singularmem.Search.Ledger

/-!
# The files carry out the ledger

`Shows` relates a directory to the disk its files stand for. Each operation of a
handle, run without graph faults, does to the files what the ledger's operation
does to the disk, and at every crash point the files show the disk after some of
its writes. The one exception is the journal whose header has not been written
yet: it shows nothing.
-/

namespace Singularmem.Search

open Library Singularmem.Core

/-- The journal header of a directory opened with this embedder. -/
def Embedder.header (embedder : Embedder) : JournalHeader := ⟨embedder.dim, embedder.modelId⟩

/-- The metadata a handle uses. -/
def Embedder.metadata (embedder : Embedder) : VectorIndexMeta :=
  ⟨formatVersion, embedder.modelId, embedder.dim⟩

/-- The files of a directory stand for a disk. A graph file is absent only beside
a keymap that names nothing. -/
structure Shows (embedder : Embedder) (dir : Directory) (disk : Disk) : Prop where
  index : dir.usearch.getD ∅ = disk.pair.index
  keymap : dir.keymap.getD .default = disk.pair.keymap
  unnamed : dir.usearch = none → disk.pair.keymap.forward = ∅
  journal : Holds embedder.header dir.journal disk.journal
  accepted : dir.journal ≠ none → embedder.header.Accepted
  metadata : ∀ found, dir.metaJson = some found →
    (found.formatVersion = formatVersion ∨ found.formatVersion = formatVersionV1) ∧
      found.modelId = embedder.modelId ∧ found.dim = embedder.dim

/-- A handle opened with this embedder: its metadata and journal header are the
embedder's, and so is the dimension of every queued vector. -/
structure VectorIndex.Fits (embedder : Embedder) (handle : VectorIndex) : Prop where
  metadata : handle.meta = embedder.metadata
  journal : handle.journal = embedder.header
  accepted : embedder.header.Accepted
  pending : ∀ entry ∈ handle.pending, entry.2.length = embedder.dim

/-- What a handle holds, without its files. -/
def VectorIndex.live (handle : VectorIndex) : Live :=
  ⟨handle.pair, handle.pending, handle.loadedGeneration, handle.tombstones⟩

/-- The handle that holds this instead. -/
def VectorIndex.holding (handle : VectorIndex) (live : Live) : VectorIndex :=
  { handle with
    inner := live.pair.index
    keymap := live.pair.keymap
    pending := live.pending
    loadedGeneration := live.generation
    tombstones := live.tombstones }

@[simp] theorem VectorIndex.live_holding (handle : VectorIndex) (live : Live) :
    (handle.holding live).live = live := rfl

@[simp] theorem VectorIndex.holding_live (handle : VectorIndex) :
    handle.holding handle.live = handle := rfl

theorem VectorIndex.view_eq (handle : VectorIndex) : handle.view = handle.live.view := rfl

section Faultless

variable {dir : Directory} {steps : List FileStep} {handle : VectorIndex}

@[simp] theorem exec_fileStep (step : FileStep) (session : Session) :
    (fileStep step).exec session =
      (.ok ⟨⟩, { session with dir := step.apply session.dir, steps := session.steps ++ [step] }) :=
  rfl

@[simp] theorem exec_updateHandle (update : VectorIndex → VectorIndex) (session : Session) :
    (updateHandle update).exec session =
      (.ok ⟨⟩, { session with handle := update session.handle }) := rfl

@[simp] theorem exec_onIndex_call (context : String) :
    (onIndex (usearchCall context)).exec ⟨[], dir, steps, handle⟩ =
      (.ok ⟨⟩, ⟨[], dir, steps, handle⟩) := by
  have called := exec_usearchCall context handle.pair
  rw [onIndex, Effect.exec_zoom]
  change (((usearchCall context).exec handle.pair.faultless).1, _) = _
  rw [called]
  rfl

@[simp] theorem exec_onIndex_insert (entries : List Entry) :
    (onIndex (insertEntries entries)).exec ⟨[], dir, steps, handle⟩ =
      (.ok ⟨⟩, ⟨[], dir, steps, handle.withPair (handle.pair.placeAll entries)⟩) := by
  have inserted := exec_insertEntries entries handle.pair
  rw [onIndex, Effect.exec_zoom]
  change (((insertEntries entries).exec handle.pair.faultless).1, _) = _
  rw [inserted]
  change (_, (⟨((insertEntries entries).exec handle.pair.faultless).2.faults, dir, steps,
    handle.withPair ((insertEntries entries).exec handle.pair.faultless).2.pair⟩ : Session)) = _
  rw [inserted]
  rfl

@[simp] theorem exec_insertFresh (fresh : Pair) (entries : List Entry) :
    (insertFresh fresh entries).exec ⟨[], dir, steps, handle⟩ =
      (.ok (fresh.placeAll entries), ⟨[], dir, steps, handle⟩) := by
  have inserted : Effect.exec (do insertEntries entries; return (← get).pair) fresh.faultless =
      (.ok (fresh.placeAll entries), (fresh.placeAll entries).faultless) := by
    rw [Effect.exec_bind_ok (exec_insertEntries entries fresh)]
    rfl
  rw [insertFresh, Effect.exec_zoom]
  change ((Effect.exec (do insertEntries entries; return (← get).pair) fresh.faultless).1,
    (⟨(Effect.exec (do insertEntries entries; return (← get).pair) fresh.faultless).2.faults, dir,
      steps, handle⟩ : Session)) = _
  rw [inserted]
  rfl

@[simp] theorem exec_loadGraph (context : String) (file : Option Graph) :
    (loadGraph context file).exec ⟨[], dir, steps, handle⟩ =
      (.ok (file.getD ∅), ⟨[], dir, steps, handle⟩) := by
  cases file with
  | none => rw [loadGraph, Effect.exec_bind_ok (exec_onIndex_call _)]; rfl
  | some graph => rw [loadGraph, Effect.exec_bind_ok (exec_onIndex_call _)]; rfl

/-- Entries of the handle's dimension are inserted, and queued on request. -/
theorem exec_addEntries (dir : Directory) (steps : List FileStep) {entries : List Entry}
    (queue : Bool)
    (dimensions : ∀ entry ∈ entries, entry.2.length = handle.meta.dim) :
    (addEntries entries queue).exec ⟨[], dir, steps, handle⟩ =
      (.ok ⟨⟩, ⟨[], dir, steps, { handle.withPair (handle.pair.placeAll entries) with
        pending := handle.pending ++ if queue then entries else [] }⟩) := by
  have fits : entries.find? (fun entry => entry.2.length ≠ handle.meta.dim) = none := by
    rw [List.find?_eq_none]
    intro entry member
    simp [dimensions entry member]
  rw [addEntries, Effect.exec_bind_ok (Effect.exec_get _)]
  simp only [fits]
  rw [Effect.exec_bind_ok (exec_onIndex_insert entries)]
  cases queue with
  | false => simp [VectorIndex.withPair]
  | true => simp [VectorIndex.withPair]

@[simp] theorem exec_takePending (session : Session) :
    takePending.exec session =
      (.ok session.handle.pending,
        { session with handle := { session.handle with pending := [] } }) := rfl

/-- A handle that is not stale is not reloaded. -/
theorem exec_reload_current
    (current : (dir.keymap.getD .default).generation = handle.loadedGeneration) :
    reloadIfStale.exec ⟨[], dir, steps, handle⟩ = (.ok ⟨⟩, ⟨[], dir, steps, handle⟩) := by
  rw [reloadIfStale, Effect.exec_bind_ok (Effect.exec_get _)]
  dsimp only
  cases present : dir.keymap with
  | none => rfl
  | some keymap =>
    rw [present, Option.getD_some] at current
    dsimp only
    rw [if_pos current]
    rfl

/-- A stale handle reads the graph and the keymap on disk and inserts its queue again. -/
theorem exec_reload_stale {keymap : Keymap} (present : dir.keymap = some keymap)
    (stale : keymap.generation ≠ handle.loadedGeneration) :
    reloadIfStale.exec ⟨[], dir, steps, handle⟩ =
      (.ok ⟨⟩, ⟨[], dir, steps,
        { handle.withPair ((Pair.mk (dir.usearch.getD ∅) keymap).placeAll handle.pending) with
          loadedGeneration := keymap.generation }⟩) := by
  rw [reloadIfStale, Effect.exec_bind_ok (Effect.exec_get _)]
  simp only [present, if_neg stale]
  rw [Effect.exec_bind_ok (exec_onIndex_call _), Effect.exec_bind_ok (exec_loadGraph _ _),
    Effect.exec_bind_ok (exec_insertFresh _ _)]
  rfl

end Faultless

section Operations

variable {embedder : Embedder} {dir : Directory} {disk : Disk} {steps : List FileStep}
  {handle : VectorIndex}

/-- The records the files hold are the records of the disk they show. -/
theorem Shows.replay (shows : Shows embedder dir disk) :
    Journal.replay embedder.header dir.journal = disk.journal :=
  shows.journal.replay

theorem Shows.missing (shows : Shows embedder dir disk) (fits : handle.Fits embedder) :
    handle.missing dir = handle.live.missing disk := by
  rw [VectorIndex.missing, fits.journal, shows.replay]
  rfl

/-- Replaying the journal takes in what the live index misses. -/
theorem exec_absorbJournal (shows : Shows embedder dir disk) (fits : handle.Fits embedder) :
    absorbJournal.exec ⟨[], dir, steps, handle⟩ =
      (.ok ⟨⟩, ⟨[], dir, steps, handle.holding (handle.live.absorb disk)⟩) := by
  have dimensions : ∀ entry ∈ handle.live.missing disk, entry.2.length = handle.meta.dim := by
    intro entry member
    rw [fits.metadata]
    exact shows.journal.1 entry (List.mem_filter.mp member).1
  rw [absorbJournal, Effect.exec_bind_ok (Effect.exec_get _)]
  simp only [shows.missing fits]
  cases absent : handle.live.missing disk with
  | nil =>
    simp only [Live.absorb, absent, Pair.placeAll, List.foldl_nil]
    rfl
  | cons record rest =>
    simp only [Live.absorb, absent]
    rw [exec_addEntries dir steps false (absent ▸ dimensions)]
    simp [VectorIndex.holding, VectorIndex.withPair, VectorIndex.live]

/-- A handle that is not ahead of the disk adopts it exactly when it is stale. -/
theorem exec_reloadIfStale (shows : Shows embedder dir disk)
    (current : handle.loadedGeneration ≤ disk.pair.keymap.generation) :
    reloadIfStale.exec ⟨[], dir, steps, handle⟩ =
      (.ok ⟨⟩, ⟨[], dir, steps, handle.holding (handle.live.reload disk)⟩) := by
  have keymap := shows.keymap
  by_cases unmoved : disk.pair.keymap.generation = handle.live.generation
  · rw [exec_reload_current (keymap ▸ unmoved), Live.reload_current unmoved,
      VectorIndex.holding_live]
  · cases present : dir.keymap with
    | none =>
      rw [present] at keymap
      rw [← keymap] at current unmoved
      exact absurd (Nat.le_zero.mp current).symm unmoved
    | some diskKeymap =>
      rw [present, Option.getD_some] at keymap
      subst keymap
      rw [exec_reload_stale present unmoved, shows.index, Live.reload_stale unmoved]
      rfl

end Operations

/-- The steps that publish what a live index holds. -/
def Publishes (live : Live) : FileStep → Prop
  | .createTemp .usearch | .createTemp .keymap => True
  | .renameUsearch saved => saved = live.pair.index
  | .removeUsearch => live.pair.index = ∅
  | .renameKeymap written => written = live.stamped
  | .setLenJournal _ => True
  | _ => False

/-- The steps that publish are compaction steps. -/
theorem Publishes.ofCompaction {live : Live} {step : FileStep} (publishes : Publishes live step) :
    step.ofCompaction := by
  cases step with
  | createTemp temp => cases temp <;> first | rfl | exact publishes.elim
  | renameUsearch | removeUsearch | renameKeymap | setLenJournal => rfl
  | removeTemp | renameMeta | createJournal | writeJournal => exact publishes.elim

/-- The files show the disk after some of the writes; or, where this can happen,
the journal was created and its header not yet written. -/
def ShowsSome (embedder : Embedder) (disk : Disk) (writes : List Write) (headless : Prop)
    (dir : Directory) : Prop :=
  (headless ∧ dir.journal = some []) ∨
    ∃ done, done <+: writes ∧ Shows embedder dir (disk.after done)

/-- File steps carry out writes: all of them together, and some of them at every
crash point. -/
structure Carries (embedder : Embedder) (disk : Disk) (writes : List Write) (headless : Prop)
    (dir : Directory) (taken : List FileStep) : Prop where
  shows : Shows embedder (dir.after taken) (disk.after writes)
  crash : Throughout FileStep.apply (ShowsSome embedder disk writes headless) dir taken

/-- An action on a handle does to the files what the writes do to the disk,
leaves the given live index, and takes only steps of one kind. -/
def Refines (embedder : Embedder) (kind : FileStep → Prop) (action : Op PUnit) (disk : Disk)
    (live : Live) (writes : List Write) (result : Live) : Prop :=
  ∀ dir steps handle, Shows embedder dir disk → handle.Fits embedder → handle.live = live →
    ∃ taken after,
      action.exec ⟨[], dir, steps, handle⟩ =
        (.ok ⟨⟩, ⟨[], dir.after taken, steps ++ taken, after⟩) ∧
      after.Fits embedder ∧ after.live = result ∧
      Carries embedder disk writes (kind .createJournal) dir taken ∧ ∀ step ∈ taken, kind step

namespace Carries

variable {embedder : Embedder} {disk : Disk} {dir : Directory} {headless : Prop}

/-- No step carries out no write. -/
theorem nothing (shows : Shows embedder dir disk) : Carries embedder disk [] headless dir [] :=
  ⟨shows, Throughout.nil_iff.mpr (.inr ⟨[], List.prefix_rfl, shows⟩)⟩

/-- One step after which the files show the next disk carries out one write. -/
theorem single {step : FileStep} {write : Write} (before : Shows embedder dir disk)
    (after : Shows embedder (step.apply dir) (disk.apply write)) :
    Carries embedder disk [write] headless dir [step] :=
  ⟨after, Throughout.cons_iff.mpr ⟨.inr ⟨[], List.nil_prefix, before⟩,
    Throughout.nil_iff.mpr (.inr ⟨[write], List.prefix_rfl, after⟩)⟩⟩

/-- A step the disk does not notice carries out no write. -/
theorem unnoticed {step : FileStep} (before : Shows embedder dir disk)
    (after : Shows embedder (step.apply dir) disk) :
    Carries embedder disk [] headless dir [step] :=
  ⟨after, Throughout.cons_iff.mpr ⟨.inr ⟨[], List.prefix_rfl, before⟩,
    Throughout.nil_iff.mpr (.inr ⟨[], List.prefix_rfl, after⟩)⟩⟩

/-- Steps in sequence carry out the writes in sequence. -/
theorem append {firstWrites secondWrites : List Write} {first second : List FileStep}
    (before : Carries embedder disk firstWrites headless dir first)
    (after : Carries embedder (disk.after firstWrites) secondWrites headless (dir.after first)
      second) :
    Carries embedder disk (firstWrites ++ secondWrites) headless dir (first ++ second) := by
  refine ⟨?_, Throughout.append_iff.mpr ⟨before.crash.imp ?_, after.crash.imp ?_⟩⟩
  · rw [Directory.after_append, Disk.after_append]
    exact after.shows
  · rintro state (created | ⟨done, isPrefix, shows⟩)
    · exact .inl created
    · exact .inr ⟨done, isPrefix.trans (List.prefix_append _ _), shows⟩
  · rintro state (created | ⟨done, isPrefix, shows⟩)
    · exact .inl created
    · refine .inr ⟨firstWrites ++ done, (List.prefix_append_right_inj _).mpr isPrefix, ?_⟩
      rw [Disk.after_append]
      exact shows

/-- More may be said of the crash points than is needed. -/
theorem weaken {writes : List Write} {taken : List FileStep} {other : Prop}
    (carries : Carries embedder disk writes headless dir taken) (allowed : headless → other) :
    Carries embedder disk writes other dir taken :=
  ⟨carries.shows, carries.crash.imp fun _ some => some.imp_left fun created =>
    ⟨allowed created.1, created.2⟩⟩

end Carries

namespace Refines

variable {embedder : Embedder} {kind : FileStep → Prop} {action next : Op PUnit}
  {disk : Disk} {live middle result : Live} {writes others : List Write}

/-- Actions in sequence carry out their writes in sequence. -/
theorem andThen (writes : List Write) (first : Refines embedder kind action disk live writes middle)
    (second : Refines embedder kind next (disk.after writes) middle others result) :
    Refines embedder kind (action >>= fun _ => next) disk live (writes ++ others) result := by
  intro dir steps handle shows fits held
  obtain ⟨taken, after, ran, fits, held, carries, kinds⟩ := first dir steps handle shows fits held
  obtain ⟨later, final, rest, fits, held, carried, others⟩ :=
    second (dir.after taken) (steps ++ taken) after carries.shows fits held
  refine ⟨taken ++ later, final, ?_, fits, held, carries.append carried, ?_⟩
  · rw [Effect.exec_bind_ok ran, rest, Directory.after_append, List.append_assoc]
  · intro step member
    rcases List.mem_append.mp member with early | late
    · exact kinds step early
    · exact others step late

/-- An action that takes no step and leaves the handle holding `result`. -/
theorem unwritten
    (ran : ∀ dir steps handle, Shows embedder dir disk → handle.Fits embedder →
      handle.live = live → ∃ after,
        action.exec ⟨[], dir, steps, handle⟩ = (.ok ⟨⟩, ⟨[], dir, steps, after⟩) ∧
        after.Fits embedder ∧ after.live = result) :
    Refines embedder kind action disk live [] result := by
  intro dir steps handle shows fits held
  obtain ⟨after, ran, fits, held⟩ := ran dir steps handle shows fits held
  exact ⟨[], after, by simpa using ran, fits, held, .nothing shows, by simp⟩

/-- One file step that carries out one write. -/
theorem step {taken : FileStep} {write : Write} (allowed : kind taken)
    (carried : ∀ dir, Shows embedder dir disk →
      Shows embedder (taken.apply dir) (disk.apply write)) :
    Refines embedder kind (fileStep taken) disk live [write] live := by
  intro dir steps handle shows fits held
  refine ⟨[taken], handle, rfl, fits, held, .single shows (carried dir shows), ?_⟩
  simpa using allowed

/-- One file step that the disk does not notice. -/
theorem unnoticed {taken : FileStep} (allowed : kind taken)
    (kept : ∀ dir, Shows embedder dir disk → Shows embedder (taken.apply dir) disk) :
    Refines embedder kind (fileStep taken) disk live [] live := by
  intro dir steps handle shows fits held
  refine ⟨[taken], handle, rfl, fits, held, .unnoticed shows (kept dir shows), ?_⟩
  simpa using allowed

/-- A handler is not run after an action that returns. -/
theorem handled {handler : Error → Op PUnit}
    (refines : Refines embedder kind action disk live writes result) :
    Refines embedder kind (tryCatch action handler) disk live writes result := by
  intro dir steps handle shows fits held
  obtain ⟨taken, after, ran, rest⟩ := refines dir steps handle shows fits held
  exact ⟨taken, after, by rw [Effect.exec_tryCatch, ran], rest⟩

end Refines

section Commit

variable {embedder : Embedder} {disk : Disk} {live : Live} {kind : FileStep → Prop}

theorem absorbJournal_refines :
    Refines embedder kind absorbJournal disk live [] (live.absorb disk) := by
  apply Refines.unwritten
  rintro dir steps handle shows fits rfl
  exact ⟨_, exec_absorbJournal shows fits, ⟨fits.metadata, fits.journal, fits.accepted, fits.pending⟩,
    rfl⟩

theorem reloadIfStale_refines (current : live.generation ≤ disk.pair.keymap.generation) :
    Refines embedder kind reloadIfStale disk live [] (live.reload disk) := by
  apply Refines.unwritten
  rintro dir steps handle shows fits rfl
  refine ⟨_, exec_reloadIfStale shows current, ⟨fits.metadata, fits.journal, fits.accepted, ?_⟩,
    rfl⟩
  have queue : (handle.live.reload disk).pending = handle.pending := by
    unfold Live.reload
    split <;> rfl
  intro entry member
  exact fits.pending entry (queue ▸ member)

/-- Temporary files are not part of what a directory shows. -/
theorem Shows.temps {dir : Directory} (shows : Shows embedder dir disk) (temps : List TempFile) :
    Shows embedder { dir with temps } disk :=
  ⟨shows.index, shows.keymap, shows.unnamed, shows.journal, shows.accepted, shows.metadata⟩

theorem createTemp_refines (temp : TempFile) (allowed : kind (.createTemp temp)) :
    Refines embedder kind (fileStep (.createTemp temp)) disk live [] live :=
  Refines.unnoticed allowed fun _ shows => shows.temps _

/-- Saving a snapshot touches only a temporary file. -/
theorem saveSnapshot_refines (target : Live) (snapshot : Graph) :
    Refines embedder (Publishes target) (saveSnapshot snapshot) disk live [] live := by
  unfold saveSnapshot
  by_cases empty : snapshot = ∅
  · rw [if_neg (not_not.mpr empty)]
    exact Refines.unwritten fun dir steps handle _ fits held => ⟨handle, rfl, fits, held⟩
  · rw [if_pos empty]
    exact Refines.andThen []
      (Refines.unwritten fun dir steps handle _ fits held =>
        ⟨handle, exec_onIndex_call _, fits, held⟩)
      (createTemp_refines .usearch trivial)

/-- The graph is renamed into place. An empty graph needs no file: its old one is
removed, which is sound beside a keymap that names nothing. -/
theorem publishGraph_refines (emptied : live.pair.index = ∅ → disk.pair.keymap.forward = ∅) :
    Refines embedder (Publishes live) (publishGraph live.pair.index) disk live
      [.graph live.pair.index] live := by
  unfold publishGraph
  by_cases empty : live.pair.index = ∅
  · rw [if_neg (not_not.mpr empty)]
    intro dir steps handle shows fits held
    cases present : dir.usearch with
    | none =>
      have unchanged : disk.apply (.graph live.pair.index) = disk := by
        have index := shows.index
        rw [present, Option.getD_none] at index
        rw [empty, index]
        rfl
      refine ⟨[], handle, ?_, fits, held, ⟨?_, Throughout.nil_iff.mpr ?_⟩, by simp⟩
      · rw [Effect.exec_bind_ok (Effect.exec_get _)]
        simp [present]
      · change Shows embedder dir (disk.apply (.graph live.pair.index))
        rw [unchanged]
        exact shows
      · exact .inr ⟨[], List.nil_prefix, shows⟩
    | some old =>
      refine ⟨[.removeUsearch], handle, ?_, fits, held, .single shows ?_, by
        simpa [Publishes] using empty⟩
      · rw [Effect.exec_bind_ok (Effect.exec_get _)]
        simp [present, Directory.after]
      · exact ⟨empty.symm, shows.keymap, fun _ => emptied empty, shows.journal, shows.accepted,
          shows.metadata⟩
  · rw [if_pos empty]
    refine Refines.step rfl ?_
    intro dir shows
    exact ⟨rfl, shows.keymap, by simp [FileStep.apply], shows.journal, shows.accepted,
      shows.metadata⟩

/-- The live index once its keymap is stamped. -/
def Live.stamp (live : Live) : Live := { live with pair := ⟨live.pair.index, live.stamped⟩ }

theorem updateHandle_refines {update : VectorIndex → VectorIndex} (result : Live)
    (kept : ∀ handle, handle.Fits embedder → (update handle).Fits embedder)
    (moved : ∀ handle : VectorIndex, handle.live = live → (update handle).live = result) :
    Refines embedder kind (updateHandle update) disk live [] result :=
  Refines.unwritten fun _ _ handle _ fits held =>
    ⟨update handle, rfl, kept handle fits, moved handle held⟩

/-- The stamped keymap is renamed into place. A graph that holds nothing must
leave nothing named. -/
theorem publishKeymap_refines (unnamed : disk.pair.index = ∅ → live.pair.keymap.forward = ∅) :
    Refines embedder (Publishes live) publishKeymap disk live
      [.keymap live.stamped] live.stamp := by
  refine Refines.andThen []
    (updateHandle_refines live.stamp (fun _ fits => ⟨fits.metadata, fits.journal, fits.accepted, fits.pending⟩)
      (fun _ held => by subst held; rfl)) ?_
  refine Refines.andThen [] (createTemp_refines .keymap trivial) ?_
  intro dir steps handle shows fits held
  have keymap : handle.keymap = live.stamped := congrArg (fun live => live.pair.keymap) held
  refine ⟨[.renameKeymap live.stamped], handle, ?_, fits, held, .single shows ?_, by
    simp [Publishes]⟩
  · rw [Effect.exec_bind_ok (Effect.exec_get _)]
    simp [keymap, Directory.after]
  · refine ⟨shows.index, rfl, ?_, shows.journal, shows.accepted, shows.metadata⟩
    intro absent
    have index := shows.index
    rw [show dir.usearch = none from absent, Option.getD_none] at index
    exact unnamed index.symm

/-- Cutting a file at a length it exceeds keeps its first bytes. -/
theorem setLen_of_le {length : Nat} {bytes : List UInt8} (enough : length ≤ bytes.length) :
    FileStep.setLen length bytes = bytes.take length := by
  simp [FileStep.setLen, Nat.sub_eq_zero_of_le enough]

/-- A file that holds records is at least as long as its header. -/
theorem Holds.header_le {header : JournalHeader} {records : List Entry} {bytes : List UInt8}
    (held : Holds header (some bytes) records) : header.headerLen ≤ bytes.length := by
  obtain ⟨_, ⟨absent, _⟩ | present⟩ := held
  · exact absurd absent (by simp)
  · rw [Option.some.inj present, List.length_append]
    exact Nat.le_add_right _ _

/-- The journal is cut back to its header. -/
theorem journalClear_refines (target : Live) :
    Refines embedder (Publishes target) journalClear disk live [.clear] live := by
  intro dir steps handle shows fits held
  rw [journalClear, Effect.exec_bind_ok (Effect.exec_get _),
    Effect.exec_bind_ok (Effect.exec_get _), fits.journal]
  have cleared := shows.journal.clear
  cases present : dir.journal with
  | none =>
    rw [present] at cleared
    have unchanged : disk.apply .clear = disk := by
      have replayed : [] = disk.journal := by simpa [present, Journal.replay] using shows.replay
      change { disk with journal := [] } = disk
      rw [replayed]
    refine ⟨[], handle, by simp, fits, held, ⟨?_, Throughout.nil_iff.mpr ?_⟩, by simp⟩
    · change Shows embedder dir (disk.apply .clear)
      rw [unchanged]
      exact shows
    · exact .inr ⟨[], List.nil_prefix, shows⟩
  | some bytes =>
    have held := shows.journal
    rw [present] at held cleared
    refine ⟨[.setLenJournal embedder.header.headerLen], handle, by simp [Directory.after],
      fits, ‹handle.live = live›, .single shows ⟨shows.index, shows.keymap, shows.unnamed, ?_, ?_,
        shows.metadata⟩, by simp [Publishes]⟩
    · simpa [FileStep.apply, present, setLen_of_le held.header_le, Disk.apply] using cleared
    · intro _
      exact shows.accepted (by simp [present])

/-- Publishing writes the graph, the keymap and an empty journal, in this order. -/
theorem publishCompaction_refines (live : Live)
    (emptied : live.pair.index = ∅ → disk.pair.keymap.forward = ∅)
    (unnamed : live.pair.index = ∅ → live.pair.keymap.forward = ∅) :
    Refines embedder (Publishes live) (publishCompaction live.pair.index) disk live
      live.publishWrites { live.published with pending := live.pending } := by
  refine Refines.andThen [_] (publishGraph_refines emptied) ?_
  refine Refines.andThen [_] (publishKeymap_refines unnamed) ?_
  refine Refines.andThen [_] (journalClear_refines live) ?_
  exact updateHandle_refines _
    (fun _ fits => ⟨fits.metadata, fits.journal, fits.accepted, fits.pending⟩)
    (fun handle held => by
      have pair : handle.pair = live.stamp.pair := congrArg Live.pair held
      have pending : handle.pending = live.pending := congrArg Live.pending held
      have generation : handle.loadedGeneration = live.generation := congrArg Live.generation held
      simp only [VectorIndex.live, VectorIndex.pair] at pair ⊢
      rw [pair, pending, generation]
      rfl)

/-- When what a compaction folds together holds no vector, neither keymap names
anything. -/
def Covers (live : Live) (disk : Disk) : Prop :=
  live.pair.index = ∅ → disk.pair.keymap.forward = ∅ ∧ live.pair.keymap.forward = ∅

/-- A compaction publishes what the live index folds together. -/
theorem compactLocked_refines (disk : Disk)
    (current : live.generation ≤ disk.pair.keymap.generation)
    (covers : Covers (live.folded disk) disk) :
    Refines embedder (Publishes (live.folded disk)) compactLocked disk live
      (live.folded disk).publishWrites (live.folded disk).published := by
  refine Refines.andThen [] (reloadIfStale_refines current) ?_
  refine Refines.andThen [] absorbJournal_refines ?_
  intro dir steps handle shows fits held
  have index : handle.inner = (live.folded disk).pair.index :=
    congrArg (fun live => live.pair.index) held
  have publish : Refines embedder (Publishes (live.folded disk))
      (do saveSnapshot handle.inner; publishCompaction handle.inner) disk
      (live.folded disk).drained (live.folded disk).publishWrites (live.folded disk).published := by
    rw [index]
    exact Refines.andThen [] (saveSnapshot_refines _ _)
      (publishCompaction_refines (live.folded disk).drained
        (fun empty => (covers empty).1) (fun empty => (covers empty).2))
  obtain ⟨taken, after, ran, fits, published, carries, kinds⟩ :=
    publish dir steps { handle with pending := [] } shows
      ⟨fits.metadata, fits.journal, fits.accepted, by simp⟩
      (by change { handle.live with pending := [] } = _; rw [held]; rfl)
  refine ⟨taken, after, ?_, fits, published, carries, kinds⟩
  rw [Effect.exec_bind_ok (Effect.exec_get _), Effect.exec_bind_ok (exec_takePending _),
    Effect.exec_tryCatch, ran]

/-- Whole records written at the end of a present journal are appended to what it
holds. -/
theorem Shows.written {dir : Directory} (shows : Shows embedder dir disk) {records : List Entry}
    (dimensions : ∀ entry ∈ records, entry.2.length = embedder.dim) {bytes : List UInt8}
    (present : dir.journal = some bytes) :
    Shows embedder (FileStep.apply dir (.writeJournal (records.flatMap encodeRecord)))
      (disk.apply (.append records)) := by
  refine ⟨shows.index, shows.keymap, shows.unnamed, ?_, ?_, shows.metadata⟩
  · have extended := shows.journal.append dimensions
    simpa [FileStep.apply, present, Disk.apply] using extended
  · intro _
    exact shows.accepted (by simp [present])

/-- A journal that was just created and given its header holds no record. -/
theorem Shows.created {dir : Directory} (shows : Shows embedder dir disk)
    (accepted : embedder.header.Accepted) (absent : dir.journal = none) :
    Shows embedder { dir with journal := some embedder.header.encoded } disk := by
  have empty : disk.journal = [] := by simpa [absent, Journal.replay] using shows.replay.symm
  refine ⟨shows.index, shows.keymap, shows.unnamed, ?_, fun _ => accepted, shows.metadata⟩
  rw [empty]
  exact ⟨by simp, .inr (by simp)⟩

/-- The first append creates the journal and writes its header; between the two
steps the file shows nothing. -/
theorem Carries.firstAppend {dir : Directory} (shows : Shows embedder dir disk)
    (accepted : embedder.header.Accepted) {records : List Entry}
    (dimensions : ∀ entry ∈ records, entry.2.length = embedder.dim)
    (absent : dir.journal = none) {headless : Prop} (possible : headless) :
    Carries embedder disk [.append records] headless dir
      [.createJournal, .writeJournal embedder.header.encoded,
        .writeJournal (records.flatMap encodeRecord)] := by
  have created := shows.created accepted absent
  obtain ⟨last, crash⟩ := Carries.single created (created.written dimensions rfl)
  refine ⟨last, Throughout.cons_iff.mpr ⟨?_, Throughout.cons_iff.mpr ⟨?_, crash⟩⟩⟩
  · exact .inr ⟨[], List.nil_prefix, shows⟩
  · exact .inl ⟨possible, rfl⟩

/-- Appending records of the right dimension adds them to the journal. -/
theorem journalAppend_refines {records : List Entry}
    (dimensions : ∀ entry ∈ records, entry.2.length = embedder.dim) :
    Refines embedder (fun step => ¬ step.ofCompaction) (journalAppend records) disk live
      [.append records] live := by
  intro dir steps handle shows fits held
  rw [journalAppend, Effect.exec_bind_ok (Effect.exec_get _), fits.journal]
  have accepts : records.find? (fun entry => entry.2.length ≠ embedder.header.dim) = none := by
    rw [List.find?_eq_none]
    intro entry member
    simp [Embedder.header, dimensions entry member]
  simp only [accepts]
  cases records with
  | nil =>
    refine ⟨[], handle, by simp, fits, held, ⟨?_, Throughout.nil_iff.mpr ?_⟩, by simp⟩
    · simpa [Disk.after, Disk.apply] using shows
    · exact .inr ⟨[], List.nil_prefix, shows⟩
  | cons record rest =>
    cases present : dir.journal with
    | none =>
      refine ⟨_, handle, ?_, fits, held,
        .firstAppend shows fits.accepted dimensions present (by simp [FileStep.ofCompaction]), ?_⟩
      · simp only [createIfAbsent, createFile, Effect.exec_bind, Effect.exec_get, exec_fileStep,
          present, Option.isNone_none, if_true, fits.journal, Directory.after, List.foldl_cons,
          List.foldl_nil, List.append_assoc, List.cons_append, List.nil_append]
      · simp [FileStep.ofCompaction]
    | some bytes =>
      refine ⟨[_], handle, ?_, fits, held, .single shows (shows.written dimensions present), ?_⟩
      · simp [createIfAbsent, Effect.exec_bind, present, Directory.after]
      · simp [FileStep.ofCompaction]

/-- The chunks of the queue are appended in order. -/
theorem appendChunks_refines (disk : Disk) (live : Live) (fuel : Nat) (rest : List Entry)
    (dimensions : ∀ entry ∈ rest, entry.2.length = embedder.dim) :
    Refines embedder (fun step => ¬ step.ofCompaction) (appendChunks fuel rest) disk live
      ((chunks journalAppendChunk fuel rest).map .append) live := by
  induction fuel generalizing rest disk with
  | zero =>
    simp only [appendChunks, chunks, List.map_nil]
    exact Refines.unwritten fun _ _ handle _ fits held => ⟨handle, rfl, fits, held⟩
  | succ fuel inductionHypothesis =>
    cases rest with
    | nil =>
      simp only [appendChunks, chunks, List.map_nil]
      exact Refines.unwritten fun _ _ handle _ fits held => ⟨handle, rfl, fits, held⟩
    | cons entry tail =>
      refine Refines.andThen [_] (Refines.handled (journalAppend_refines ?_))
        (inductionHypothesis _ _ ?_)
      · exact fun entry member => dimensions entry (List.mem_of_mem_take member)
      · exact fun entry member => dimensions entry (List.mem_of_mem_drop member)

/-- The metadata a handle writes is what its directory shows. -/
theorem writeMetaUpgrade_refines (live : Live) :
    Refines embedder (fun step => ¬ step.ofCompaction) writeMetaUpgrade disk live [] live := by
  intro dir steps handle shows fits held
  rw [writeMetaUpgrade, Effect.exec_bind_ok (Effect.exec_get _)]
  cases upgrade : handle.metaUpgradePending with
  | false => exact ⟨[], handle, by simp [upgrade], fits, held, .nothing shows, by simp⟩
  | true =>
    have rewritten : Refines embedder (fun step => ¬ step.ofCompaction)
        (do updateHandle fun handle => { handle with metaUpgradePending := false }
            writeMetaAtomic handle.meta) disk live [] live := by
      refine Refines.andThen [] (updateHandle_refines _
        (fun _ fits => ⟨fits.metadata, fits.journal, fits.accepted, fits.pending⟩)
        (fun _ held => held)) ?_
      refine Refines.andThen [] (createTemp_refines .metaJson (by
        simp [FileStep.ofCompaction])) ?_
      refine Refines.unnoticed (by simp [FileStep.ofCompaction]) ?_
      intro dir shows
      refine ⟨shows.index, shows.keymap, shows.unnamed, shows.journal, shows.accepted, ?_⟩
      intro found present
      rw [← Option.some.inj present, fits.metadata]
      exact ⟨.inl rfl, rfl, rfl⟩
    simp only [upgrade, if_true]
    exact rewritten dir steps handle shows fits held

/-- Every commit is its appends followed by its compaction, if it compacts: the
first take no compaction step and the second no other. -/
theorem commitLocked_carries {dir : Directory} {handle : VectorIndex} (steps : List FileStep)
    (endOfBatch : Bool) (shows : Shows embedder dir disk) (fits : handle.Fits embedder)
    (held : handle.live = live) (current : live.generation ≤ disk.pair.keymap.generation)
    (covers : live.compacts disk endOfBatch →
      Covers (live.compacted disk endOfBatch) (live.beforeCompaction disk endOfBatch).2) :
    ∃ appended published after,
      (commitLocked endOfBatch).exec ⟨[], dir, steps, handle⟩ =
        (.ok ⟨⟩, ⟨[], dir.after (appended ++ published), steps ++ (appended ++ published), after⟩) ∧
      after.Fits embedder ∧ after.live = live.committed disk endOfBatch ∧
      Carries embedder disk (if endOfBatch then [] else live.appendWrites) True dir appended ∧
      Carries embedder (live.beforeCompaction disk endOfBatch).2
        (if live.compacts disk endOfBatch then (live.compacted disk endOfBatch).publishWrites
          else []) False (dir.after appended) published ∧
      (∀ step ∈ appended, ¬ step.ofCompaction) ∧
      ∀ step ∈ published, Publishes (live.compacted disk endOfBatch) step := by
  obtain ⟨upgraded, middle, ran, fits, same, upgrade, noneUpgrade⟩ :=
    writeMetaUpgrade_refines live dir steps handle shows fits held
  rw [commitLocked, Effect.exec_bind_ok ran]
  cases endOfBatch with
  | true =>
    obtain ⟨published, after, compacted, fits, result, carries, only⟩ :=
      compactLocked_refines disk current (covers rfl) (dir.after upgraded) (steps ++ upgraded) middle
        upgrade.shows fits same
    refine ⟨upgraded, published, after, ?_, fits, result, upgrade.weaken fun _ => trivial,
      carries.weaken (by simp [Publishes]), noneUpgrade, only⟩
    simpa using compacted
  | false =>
    have queue : middle.pending = live.pending := congrArg Live.pending same
    have drained : ({ middle with pending := [] } : VectorIndex).live = live.drained := by
      change { middle.live with pending := [] } = _
      rw [same]
      rfl
    obtain ⟨appended, after, ranAppend, fits, kept, append, noneAppend⟩ :=
      appendChunks_refines disk live.drained live.pending.length live.pending
        (queue ▸ fits.pending) (dir.after upgraded) (steps ++ upgraded)
        { middle with pending := [] } upgrade.shows
        ⟨fits.metadata, fits.journal, fits.accepted, by simp⟩ drained
    have journalled := upgrade.append append
    have counted : Journal.len after.journal (dir.after (upgraded ++ appended)).journal =
        (disk.journal ++ live.pending).length := by
      have records := journalled.shows.journal.len
      rw [fits.journal, records, List.nil_append]
      exact congrArg (fun disk => disk.journal.length) (disk.after_appendWrites live)
    have noneFirst : ∀ step ∈ upgraded ++ appended, ¬ step.ofCompaction := by
      intro step member
      rcases List.mem_append.mp member with early | late
      · exact noneUpgrade step early
      · exact noneAppend step late
    rw [if_neg (by simp), Effect.exec_bind_ok (exec_takePending _), queue,
      Effect.exec_bind_ok ranAppend, Effect.exec_bind_ok (Effect.exec_get _)]
    rw [← Directory.after_append] at ranAppend ⊢
    simp only [counted]
    by_cases outgrown : compactThreshold < (disk.journal ++ live.pending).length
    · have compacts : live.compacts disk false = true := by
        simpa [Live.compacts] using outgrown
      obtain ⟨published, final, ranCompact, fits, result, carries, only⟩ :=
        compactLocked_refines (disk.after live.appendWrites)
          (by rw [disk.after_appendWrites]; exact current) (covers compacts)
          (dir.after (upgraded ++ appended)) (steps ++ upgraded ++ appended) after
          journalled.shows fits kept
      refine ⟨upgraded ++ appended, published, final, ?_, fits, ?_,
        journalled.weaken fun _ => trivial, ?_, noneFirst, only⟩
      · rw [if_pos outgrown, ranCompact, Directory.after_append _ (upgraded ++ appended)]
        simp
      · rw [result, Live.committed, if_pos compacts]
        rfl
      · rw [if_pos compacts]
        exact carries.weaken (by simp [Publishes])
    · have plain : ¬ live.compacts disk false = true := by
        simpa [Live.compacts] using outgrown
      refine ⟨upgraded ++ appended, [], after, ?_, fits, ?_,
        journalled.weaken fun _ => trivial, ?_, noneFirst, by simp⟩
      · rw [if_neg outgrown]
        simp
      · rw [kept, Live.committed, if_neg plain]
      · rw [if_neg plain]
        exact .nothing journalled.shows

end Commit

section Open

variable {embedder : Embedder} {disk : Disk} {dir : Directory} {handle : VectorIndex}

/-- Sweeping leftovers changes nothing a directory shows. -/
theorem exec_sweepTempFiles (handle : VectorIndex) (temps : List TempFile) (steps : List FileStep)
    (shows : Shows embedder dir disk) :
    ∃ taken, (sweepTempFiles temps).exec ⟨[], dir, steps, handle⟩ =
        (.ok ⟨⟩, ⟨[], dir.after taken, steps ++ taken, handle⟩) ∧
      Carries embedder disk [] False dir taken ∧ ∀ step ∈ taken, ¬ step.ofCompaction := by
  induction temps generalizing dir steps with
  | nil => exact ⟨[], by simp [sweepTempFiles], .nothing shows, by simp⟩
  | cons temp rest inductionHypothesis =>
    have kept : Shows embedder (FileStep.apply dir (.removeTemp temp)) disk := shows.temps _
    obtain ⟨taken, ran, carries, kinds⟩ := inductionHypothesis (steps ++ [.removeTemp temp]) kept
    refine ⟨.removeTemp temp :: taken, ?_, (Carries.unnoticed shows kept).append carries, ?_⟩
    · rw [sweepTempFiles, Effect.exec_bind_ok (exec_fileStep _ _), ran]
      simp
    · intro step member
      rcases List.mem_cons.mp member with rfl | later
      · simp [FileStep.ofCompaction]
      · exact kinds step later

/-- The metadata on disk is the embedder's, or is written. -/
theorem exec_loadMeta (handle : VectorIndex) (steps : List FileStep) (shows : Shows embedder dir disk) :
    ∃ taken diskFormat, (loadMeta embedder).exec ⟨[], dir, steps, handle⟩ =
        (.ok (embedder.metadata, diskFormat), ⟨[], dir.after taken, steps ++ taken, handle⟩) ∧
      Carries embedder disk [] False dir taken ∧ ∀ step ∈ taken, ¬ step.ofCompaction := by
  rw [loadMeta, Effect.exec_bind_ok (Effect.exec_get _)]
  cases present : dir.metaJson with
  | none =>
    have temp : Shows embedder (FileStep.apply dir (.createTemp .metaJson)) disk := shows.temps _
    have written : Shows embedder (FileStep.apply (FileStep.apply dir (.createTemp .metaJson))
        (.renameMeta embedder.metadata)) disk := by
      refine ⟨shows.index, shows.keymap, shows.unnamed, shows.journal, shows.accepted, ?_⟩
      intro found present
      rw [← Option.some.inj present]
      exact ⟨.inl rfl, rfl, rfl⟩
    refine ⟨[.createTemp .metaJson, .renameMeta embedder.metadata], none, ?_,
      (Carries.unnoticed shows temp).append (.unnoticed temp written), ?_⟩
    · simp [writeMetaAtomic, Effect.exec_bind, Embedder.metadata, Directory.after, Except.map]
    · simp [FileStep.ofCompaction]
  | some found =>
    obtain ⟨format, modelId, dimension⟩ := shows.metadata found present
    have supported :
        ¬ (found.formatVersion ≠ formatVersion ∧ found.formatVersion ≠ formatVersionV1) := by
      rcases format with current | old
      · exact fun unsupported => unsupported.1 current
      · exact fun unsupported => unsupported.2 old
    refine ⟨[], some found.formatVersion, ?_, .nothing shows, by simp⟩
    simp only [supported, modelId, dimension, if_false, ne_eq, not_true_eq_false]
    simp [Embedder.metadata, ← modelId, ← dimension]

/-- The journal a directory shows is accepted by its embedder. -/
theorem Shows.openJournal (shows : Shows embedder dir disk)
    (accepted : embedder.header.Accepted) :
    Journal.open dir.journal embedder.dim embedder.modelId = .ok embedder.header := by
  obtain ⟨_, ⟨absent, _⟩ | present⟩ := shows.journal
  · rw [absent]
    exact Journal.open_absent accepted
  · rw [present]
    exact Journal.open_present accepted _

/-- Beside a graph file, or naming nothing, the keymap is loaded as it is. -/
theorem Shows.loadedKeymap (shows : Shows embedder dir disk) :
    dir.loadedKeymap = disk.pair.keymap := by
  have keymap := shows.keymap
  have kept : ¬ (dir.usearch.isNone ∧ (dir.keymap.getD .default).forward ≠ ∅) := by
    rintro ⟨absent, named⟩
    rw [keymap] at named
    exact named (shows.unnamed (Option.isNone_iff_eq_none.mp absent))
  rw [Directory.loadedKeymap, if_neg kept, keymap]

/-- Loading reads the disk its files show and replays the journal. -/
theorem exec_load (handle : VectorIndex) (steps : List FileStep) (shows : Shows embedder dir disk)
    (accepted : embedder.header.Accepted) :
    ∃ taken after, (load embedder).exec ⟨[], dir, steps, handle⟩ =
        (.ok ⟨⟩, ⟨[], dir.after taken, steps ++ taken, after⟩) ∧
      after.Fits embedder ∧ after.live = Live.opened disk ∧ Carries embedder disk [] False dir taken ∧
      ∀ step ∈ taken, ¬ step.ofCompaction := by
  obtain ⟨taken, diskFormat, ran, carries, kinds⟩ :=
    exec_loadMeta handle steps shows
  have shown := carries.shows
  rw [load, Effect.exec_bind_ok ran, Effect.exec_bind_ok (exec_onIndex_call _),
    Effect.exec_bind_ok (Effect.exec_get _), Effect.exec_bind_ok (exec_loadGraph _ _),
    Effect.exec_bind_ok (Effect.exec_get _), Effect.exec_bind_ok (Effect.exec_get _)]
  have journal := shown.openJournal accepted
  simp only [Embedder.metadata, journal, shown.loadedKeymap, shown.index]
  rw [Effect.exec_bind_ok (Effect.exec_ofExcept _ _),
    Effect.exec_bind_ok (exec_updateHandle _ _)]
  refine ⟨taken, _, exec_absorbJournal shown ⟨rfl, rfl, accepted, by simp⟩, ?_, rfl, carries, kinds⟩
  exact ⟨rfl, rfl, accepted, fun _ member => absurd member List.not_mem_nil⟩

/-- Opening a directory succeeds, reads the disk its files show and changes
nothing they show. -/
theorem open_carries (handle : VectorIndex) (steps : List FileStep) (shows : Shows embedder dir disk)
    (accepted : embedder.header.Accepted) :
    ∃ taken after, (VectorIndex.open embedder).exec ⟨[], dir, steps, handle⟩ =
        (.ok ⟨⟩, ⟨[], dir.after taken, steps ++ taken, after⟩) ∧
      after.Fits embedder ∧ after.live = Live.opened disk ∧ Carries embedder disk [] False dir taken ∧
      ∀ step ∈ taken, ¬ step.ofCompaction := by
  obtain ⟨swept, ranSweep, carriesSweep, kindsSweep⟩ :=
    exec_sweepTempFiles handle dir.temps steps shows
  obtain ⟨taken, after, ran, fits, live, carries, kinds⟩ :=
    exec_load handle (steps ++ swept) carriesSweep.shows accepted
  refine ⟨swept ++ taken, after, ?_, fits, live, carriesSweep.append carries, ?_⟩
  · rw [VectorIndex.open, Effect.exec_tryCatch, sweepAndLoad,
      Effect.exec_bind_ok (Effect.exec_get _), Effect.exec_bind_ok ranSweep, ran]
    simp
  · intro step member
    rcases List.mem_append.mp member with early | late
    · exact kindsSweep step early
    · exact kinds step late

/-- A load under a header the journal cannot carry fails with an error that is
not retried. -/
theorem load_refused (handle : VectorIndex) (steps : List FileStep) (shows : Shows embedder dir disk)
    (refused : ¬ embedder.header.Accepted) :
    ∃ error after, (load embedder).exec ⟨[], dir, steps, handle⟩ = (.error error, after) ∧
      isRetryableLoadError error = false := by
  obtain ⟨taken, diskFormat, ran, carries, _⟩ := exec_loadMeta handle steps shows
  have absent : (dir.after taken).journal = none := by
    by_contra present
    exact refused (carries.shows.accepted present)
  obtain ⟨error, journal, kind⟩ := Journal.open_refused refused
  have journal : Journal.open none embedder.dim embedder.modelId = .error error := journal
  refine ⟨error, ⟨[], dir.after taken, steps ++ taken, handle⟩, ?_, ?_⟩
  · rw [load, Effect.exec_bind_ok ran, Effect.exec_bind_ok (exec_onIndex_call _),
      Effect.exec_bind_ok (Effect.exec_get _), Effect.exec_bind_ok (exec_loadGraph _ _),
      Effect.exec_bind_ok (Effect.exec_get _), Effect.exec_bind_ok (Effect.exec_get _)]
    simp only [Embedder.metadata, absent, journal]
    rw [Effect.exec_bind_error (Effect.exec_ofExcept _ _)]
  · rcases kind with ⟨expected, got, rfl⟩ | ⟨reason, rfl⟩
    · rfl
    · simp [isRetryableLoadError]

/-- A directory is only ever opened with an embedder its journal can carry. -/
theorem accepted_of_open {steps : List FileStep} {after : Session}
    (shows : Shows embedder dir disk)
    (opened : (VectorIndex.open embedder).exec ⟨[], dir, steps, handle⟩ = (.ok ⟨⟩, after)) :
    embedder.header.Accepted := by
  by_contra refused
  obtain ⟨swept, ranSweep, carries, _⟩ :=
    exec_sweepTempFiles handle dir.temps steps shows
  obtain ⟨error, failed, ran, final⟩ :=
    load_refused handle (steps ++ swept) carries.shows refused
  rw [VectorIndex.open, Effect.exec_tryCatch, sweepAndLoad,
    Effect.exec_bind_ok (Effect.exec_get _), Effect.exec_bind_ok ranSweep, ran] at opened
  simp [final] at opened

end Open

/-- A batch is added exactly when every vector has the handle's dimension; it is
then inserted and queued. -/
theorem addBatch_returned {embedder : Embedder} {dir : Directory} {steps : List FileStep}
    {handle : VectorIndex} {entries : List Entry} {after : Session}
    (fits : handle.Fits embedder)
    (returned : (VectorIndex.addBatch entries).exec ⟨[], dir, steps, handle⟩ = (.ok ⟨⟩, after)) :
    after = ⟨[], dir, steps, handle.holding (handle.live.add entries)⟩ ∧
      (handle.holding (handle.live.add entries)).Fits embedder := by
  have dimensions : ∀ entry ∈ entries, entry.2.length = handle.meta.dim := by
    by_contra mismatch
    obtain ⟨found, refused⟩ : ∃ found,
        entries.find? (fun entry => entry.2.length ≠ handle.meta.dim) = some found := by
      rw [← Option.isSome_iff_exists, List.find?_isSome]
      simpa using mismatch
    rw [VectorIndex.addBatch, addEntries, Effect.exec_bind_ok (Effect.exec_get _)] at returned
    simp only [refused] at returned
    simp at returned
  have ran := exec_addEntries dir steps true dimensions
  rw [VectorIndex.addBatch, ran] at returned
  refine ⟨(Prod.mk.inj returned).2.symm, fits.metadata, fits.journal, fits.accepted, ?_⟩
  intro entry member
  rcases List.mem_append.mp member with old | new
  · exact fits.pending entry old
  · have fit := dimensions entry new
    rw [fits.metadata] at fit
    exact fit

end Singularmem.Search
