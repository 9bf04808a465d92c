import Singularmem.Search.FaultyRuns
import Singularmem.Search.SoleHandle

/-!
# Calls that nothing interrupts

Without failures and crashes a handle adds, removes, commits and compacts, each call as one
step, beside any number of other handles. `Hub` is the directory and its handles without
their files: one disk and the live indexes on it. Every call does to the files and the
handle what the hub's step does to its disk and the live index.
-/

namespace Singularmem.Search

open Library Singularmem.Core

/-- Remove an item, and remember the removal of a present one. -/
def Live.remove (live : Live) (id : ItemId) : Live :=
  { live with
    pair := live.pair.evict id
    pending := live.pending.filter fun entry => entry.1 ≠ id
    tombstones := if live.named id then id :: live.tombstones else live.tombstones }

/-- The steps that save a snapshot; an empty one is not saved. -/
def saveSteps (snapshot : Graph) : List FileStep :=
  if snapshot ≠ ∅ then [.createTemp .usearch] else []

/-- The steps that rename a snapshot into place, or remove the file of an empty one. -/
def graphSteps (dir : Directory) (snapshot : Graph) : List FileStep :=
  if snapshot ≠ ∅ then [.renameUsearch snapshot]
  else if dir.usearch.isSome then [.removeUsearch] else []

/-- The steps that truncate the journal. -/
def clearSteps (dir : Directory) (header : JournalHeader) : List FileStep :=
  if dir.journal.isSome then [.setLenJournal header.headerLen] else []

/-- The keymap that a compaction of the handle writes. -/
def VectorIndex.stamped (handle : VectorIndex) : Keymap :=
  { handle.keymap with generation := handle.loadedGeneration + 1 }

/-- The steps of a compaction that publishes what a handle holds. -/
def VectorIndex.publishSteps (handle : VectorIndex) (dir : Directory) : List FileStep :=
  saveSteps handle.inner ++ graphSteps dir handle.inner ++
    [.createTemp .keymap, .renameKeymap handle.stamped] ++ clearSteps dir handle.journal

/-- The handle whose pair was just published. -/
def VectorIndex.published (handle : VectorIndex) : VectorIndex :=
  { handle with
    keymap := handle.stamped
    pending := []
    loadedGeneration := handle.loadedGeneration + 1
    tombstones := [] }

section Results

variable {dir : Directory} {steps : List FileStep} {handle : VectorIndex}

/-- A removal forgets the item's key and takes its vector out. -/
theorem exec_remove (id : ItemId) :
    (VectorIndex.remove id).exec ⟨[], dir, steps, handle⟩ =
      (.ok ⟨⟩, ⟨[], dir, steps, handle.holding (handle.live.remove id)⟩) := by
  have present : (removeKey id).exec ⟨[], dir, steps, handle⟩ =
      (.ok (handle.live.named id), ⟨[], dir, steps, handle.withPair (handle.pair.evict id)⟩) := by
    rw [removeKey, Effect.exec_bind_ok (Effect.exec_get _)]
    cases named : handle.keymap.reverse.lookup id with
    | none =>
      have known : handle.live.named id = false := by
        simp [Live.named, VectorIndex.live, VectorIndex.pair, named]
      have evicted : handle.pair.evict id = handle.pair := by
        simp [Pair.evict, VectorIndex.pair, named]
      rw [known, evicted]
      rfl
    | some key =>
      have known : handle.live.named id = true := by
        simp [Live.named, VectorIndex.live, VectorIndex.pair, named]
      have evicted : handle.pair.evict id =
          ⟨handle.inner.erase key, handle.keymap.forget id key⟩ := by
        simp [Pair.evict, VectorIndex.pair, named]
      rw [known, evicted]
      dsimp only
      rw [Effect.exec_bind_ok (exec_updateHandle _ _),
        Effect.exec_bind_ok (exec_onIndex_call _), Effect.exec_bind_ok (exec_updateHandle _ _)]
      rfl
  rw [VectorIndex.remove, Effect.exec_bind_ok present, exec_updateHandle]
  rfl

/-- Of what a step reads of the directory, saving and publishing a graph leave the
journal. -/
theorem after_graphSteps (dir : Directory) (snapshot : Graph) :
    let after := dir.after (saveSteps snapshot ++ graphSteps dir snapshot)
    after.usearch = (if snapshot = ∅ then none else some snapshot) ∧ after.keymap = dir.keymap ∧
      after.journal = dir.journal ∧ after.metaJson = dir.metaJson := by
  unfold saveSteps graphSteps
  by_cases empty : snapshot = ∅
  · cases present : dir.usearch with
    | none => simp [empty, Directory.after, present]
    | some old => simp [empty, Directory.after, FileStep.apply]
  · simp [empty, Directory.after, FileStep.apply]

theorem exec_saveSnapshot (snapshot : Graph) :
    (saveSnapshot snapshot).exec ⟨[], dir, steps, handle⟩ =
      (.ok ⟨⟩, ⟨[], dir.after (saveSteps snapshot), steps ++ saveSteps snapshot, handle⟩) := by
  unfold saveSnapshot saveSteps
  by_cases empty : snapshot = ∅
  · simp [empty]
  · rw [if_pos empty, if_pos empty, Effect.exec_bind_ok (exec_onIndex_call _), exec_fileStep]
    rfl

theorem exec_publishGraph (snapshot : Graph) (saved : Directory)
    (same : saved.usearch = dir.usearch) :
    (publishGraph snapshot).exec ⟨[], saved, steps, handle⟩ =
      (.ok ⟨⟩, ⟨[], saved.after (graphSteps dir snapshot), steps ++ graphSteps dir snapshot,
        handle⟩) := by
  unfold publishGraph graphSteps
  by_cases empty : snapshot = ∅
  · rw [if_neg (not_not.mpr empty), if_neg (not_not.mpr empty),
      Effect.exec_bind_ok (Effect.exec_get _)]
    cases present : dir.usearch with
    | none => simp [same, present]
    | some old => simp [same, present]
  · rw [if_pos empty, if_pos empty, exec_fileStep]
    rfl

theorem exec_publishKeymap :
    publishKeymap.exec ⟨[], dir, steps, handle⟩ =
      (.ok ⟨⟩, ⟨[], dir.after [.createTemp .keymap, .renameKeymap handle.stamped],
        steps ++ [.createTemp .keymap, .renameKeymap handle.stamped],
        { handle with keymap := handle.stamped }⟩) := by
  rw [publishKeymap, Effect.exec_bind_ok (exec_updateHandle _ _),
    Effect.exec_bind_ok (exec_fileStep _ _), Effect.exec_bind_ok (Effect.exec_get _), exec_fileStep]
  simp [Directory.after, VectorIndex.stamped]

theorem exec_journalClear (cleared : Directory) (same : cleared.journal = dir.journal) :
    journalClear.exec ⟨[], cleared, steps, handle⟩ =
      (.ok ⟨⟩, ⟨[], cleared.after (clearSteps dir handle.journal),
        steps ++ clearSteps dir handle.journal, handle⟩) := by
  rw [journalClear, Effect.exec_bind_ok (Effect.exec_get _),
    Effect.exec_bind_ok (Effect.exec_get _)]
  unfold clearSteps
  dsimp only
  rw [same]
  split
  · rfl
  · simp

/-- A snapshot is saved and published, the keymap stamped and the journal truncated. -/
theorem exec_publish :
    Effect.exec (do saveSnapshot handle.inner; publishCompaction handle.inner)
        ⟨[], dir, steps, handle⟩ =
      (.ok ⟨⟩, ⟨[], dir.after (handle.publishSteps dir), steps ++ handle.publishSteps dir,
        { handle.published with pending := handle.pending }⟩) := by
  have saved : (dir.after (saveSteps handle.inner)).usearch = dir.usearch := by
    unfold saveSteps
    split <;> rfl
  obtain ⟨_, _, journal, _⟩ := after_graphSteps dir handle.inner
  have cleared : ((dir.after (saveSteps handle.inner ++ graphSteps dir handle.inner)).after
      [.createTemp .keymap, .renameKeymap handle.stamped]).journal = dir.journal := journal
  rw [Effect.exec_bind_ok (exec_saveSnapshot _), publishCompaction,
    Effect.exec_bind_ok (exec_publishGraph handle.inner _ saved), ← Directory.after_append,
    Effect.exec_bind_ok exec_publishKeymap,
    Effect.exec_bind_ok (exec_journalClear _ cleared), exec_updateHandle]
  simp [VectorIndex.publishSteps, VectorIndex.published]

/-- **A compaction** reloads, replays the journal, and publishes what the handle then
holds. -/
theorem exec_compactLocked {fresh folded : VectorIndex}
    (reloaded : reloadIfStale.exec ⟨[], dir, steps, handle⟩ = (.ok ⟨⟩, ⟨[], dir, steps, fresh⟩))
    (absorbed : absorbJournal.exec ⟨[], dir, steps, fresh⟩ = (.ok ⟨⟩, ⟨[], dir, steps, folded⟩)) :
    compactLocked.exec ⟨[], dir, steps, handle⟩ =
      (.ok ⟨⟩, ⟨[], dir.after (folded.publishSteps dir), steps ++ folded.publishSteps dir,
        folded.published⟩) := by
  have published := @exec_publish dir steps { folded with pending := [] }
  rw [compactLocked, Effect.exec_bind_ok reloaded, Effect.exec_bind_ok absorbed,
    Effect.exec_bind_ok (Effect.exec_get _), Effect.exec_bind_ok (exec_takePending _),
    Effect.exec_tryCatch]
  erw [published]
  rfl

/-- The directory after a compaction. -/
theorem after_publishSteps (handle : VectorIndex) (dir : Directory) :
    let after := dir.after (handle.publishSteps dir)
    after.usearch = (if handle.inner = ∅ then none else some handle.inner) ∧
      after.keymap = some handle.stamped ∧
      after.journal = dir.journal.map (FileStep.setLen handle.journal.headerLen) ∧
      after.metaJson = dir.metaJson := by
  obtain ⟨usearch, _, journal, metaJson⟩ := after_graphSteps dir handle.inner
  dsimp only at usearch journal metaJson ⊢
  unfold VectorIndex.publishSteps clearSteps
  rw [Directory.after_append, Directory.after_append]
  cases present : dir.journal with
  | none =>
    rw [present] at journal
    exact ⟨usearch, rfl, journal, metaJson⟩
  | some bytes =>
    rw [present] at journal
    exact ⟨usearch, rfl, congrArg (Option.map _) journal, metaJson⟩

end Results

section Commits

variable {embedder : Embedder} {dir : Directory} {disk : Disk} {handle : VectorIndex}

/-- After a compaction the files show what the handle held. -/
theorem Shows.published (shows : Shows embedder dir disk) (fits : handle.Fits embedder)
    (unnamed : handle.inner = ∅ → handle.keymap.forward = ∅) :
    Shows embedder (dir.after (handle.publishSteps dir)) ⟨handle.live.published.pair, []⟩ := by
  obtain ⟨usearch, keymap, journal, metaJson⟩ := after_publishSteps handle dir
  have cleared := shows.journal.clear
  refine ⟨?_, by rw [keymap]; rfl, ?_, ?_, ?_, ?_⟩
  · rw [usearch]
    split
    case isTrue empty => exact empty.symm
    case isFalse => rfl
  · rw [usearch]
    intro absent
    split at absent
    case isTrue empty => exact unnamed empty
    case isFalse => cases absent
  · rw [journal, fits.journal]
    cases present : dir.journal with
    | none =>
      rw [present] at cleared
      exact cleared
    | some bytes =>
      have held := shows.journal
      rw [present] at held cleared
      rw [Option.map_some, setLen_of_le held.header_le]
      exact cleared
  · intro present
    rw [journal] at present
    exact shows.accepted fun absent => present (by rw [absent]; rfl)
  · rw [metaJson]
    exact shows.metadata

/-- Reloading keeps the queue. -/
theorem Live.reload_pending (live : Live) (disk : Disk) :
    (live.reload disk).pending = live.pending := by
  unfold Live.reload
  split <;> rfl

/-- **A compaction settles**: the files show the pair that the live index folds together. -/
theorem compactLocked_settles (shows : Shows embedder dir disk) (fits : handle.Fits embedder)
    (current : handle.loadedGeneration ≤ disk.pair.keymap.generation)
    (unnamed : (handle.live.folded disk).pair.index = ∅ →
      (handle.live.folded disk).pair.keymap.forward = ∅) (steps : List FileStep) :
    ∃ reached taken after, compactLocked.exec ⟨[], dir, steps, handle⟩ =
        (.ok ⟨⟩, ⟨[], reached, taken, after⟩) ∧
      Shows embedder reached (disk.after (handle.live.folded disk).publishWrites) ∧
      after.Fits embedder ∧ after.live = (handle.live.folded disk).published := by
  have reloaded : reloadIfStale.exec ⟨[], dir, steps, handle⟩ = _ :=
    exec_reloadIfStale shows current
  have fresh : (handle.holding (handle.live.reload disk)).Fits embedder :=
    ⟨fits.metadata, fits.journal, fits.accepted, fun entry member => by
      change entry ∈ (handle.live.reload disk).pending at member
      rw [Live.reload_pending] at member
      exact fits.pending entry member⟩
  have absorbed : absorbJournal.exec ⟨[], dir, steps, _⟩ = _ := exec_absorbJournal shows fresh
  have kept : ((handle.holding (handle.live.reload disk)).holding
      (handle.live.folded disk)).Fits embedder :=
    ⟨fits.metadata, fits.journal, fits.accepted, fresh.pending⟩
  exact ⟨_, _, _, exec_compactLocked reloaded absorbed, shows.published kept unnamed,
    ⟨fits.metadata, fits.journal, fits.accepted, fun _ member => absurd member List.not_mem_nil⟩,
    rfl⟩

/-- **A commit settles**: the files show the disk after its writes. -/
theorem commitLocked_settles (endOfBatch : Bool) (shows : Shows embedder dir disk)
    (fits : handle.Fits embedder)
    (current : handle.loadedGeneration ≤ disk.pair.keymap.generation)
    (unnamed : (handle.live.compacted disk endOfBatch).pair.index = ∅ →
      (handle.live.compacted disk endOfBatch).pair.keymap.forward = ∅) :
    ∃ reached taken after, (commitLocked endOfBatch).exec ⟨[], dir, [], handle⟩ =
        (.ok ⟨⟩, ⟨[], reached, taken, after⟩) ∧
      Shows embedder reached (disk.after (handle.live.commitWrites disk endOfBatch)) ∧
      after.Fits embedder ∧ after.live = handle.live.committed disk endOfBatch := by
  obtain ⟨upgraded, middle, ran, fits, same, upgrade, _⟩ :=
    writeMetaUpgrade_refines handle.live dir [] handle shows fits rfl
  have generation : middle.loadedGeneration = handle.loadedGeneration :=
    congrArg Live.generation same
  rw [commitLocked, Effect.exec_bind_ok ran]
  cases endOfBatch with
  | true =>
    rw [if_pos rfl]
    have settled := compactLocked_settles upgrade.shows fits (generation ▸ current)
      (same ▸ unnamed) ([] ++ upgraded)
    rw [same] at settled
    exact settled
  | false =>
    have queue : middle.pending = handle.live.pending := congrArg Live.pending same
    have drained : ({ middle with pending := [] } : VectorIndex).live = handle.live.drained := by
      change { middle.live with pending := [] } = _
      rw [same]
      rfl
    obtain ⟨appended, after, ranAppend, fits, kept, append, _⟩ :=
      appendChunks_refines disk handle.live.drained handle.live.pending.length handle.live.pending
        (queue ▸ fits.pending) (dir.after upgraded) ([] ++ upgraded)
        { middle with pending := [] } upgrade.shows
        ⟨fits.metadata, fits.journal, fits.accepted, by simp⟩ drained
    have shown := append.shows
    have counted : Journal.len after.journal ((dir.after upgraded).after appended).journal =
        (disk.journal ++ handle.live.pending).length := by
      rw [fits.journal, shown.journal.len]
      exact congrArg (fun disk => disk.journal.length) (disk.after_appendWrites handle.live)
    rw [if_neg (by simp), Effect.exec_bind_ok (exec_takePending _), queue,
      Effect.exec_bind_ok ranAppend, Effect.exec_bind_ok (Effect.exec_get _)]
    dsimp only
    rw [counted]
    by_cases outgrown : compactThreshold < (disk.journal ++ handle.live.pending).length
    · have compacts : handle.live.compacts disk false = true := by
        simpa [Live.compacts] using outgrown
      have later : after.loadedGeneration ≤ (disk.after handle.live.appendWrites).pair.keymap.generation := by
        rw [disk.after_appendWrites, show after.loadedGeneration = handle.loadedGeneration from
          congrArg Live.generation kept]
        exact current
      have settled := compactLocked_settles shown fits later (kept ▸ unnamed)
        ([] ++ upgraded ++ appended)
      rw [if_pos outgrown, Live.committed, if_pos compacts, Live.commitWrites, if_pos compacts,
        Disk.after_append]
      rw [kept] at settled
      exact settled
    · have plain : ¬handle.live.compacts disk false = true := by
        simpa [Live.compacts] using outgrown
      rw [if_neg outgrown, Live.committed, if_neg plain, Live.commitWrites, if_neg plain,
        List.append_nil]
      exact ⟨_, _, after, rfl, shown, fits, kept⟩

end Commits

/-- What a process asks for: a handle of its own, or a call on one. -/
inductive Visit
  | «open»
  | ask (handle : Nat) (request : Request)

/-- The operation, without failures of the graph library. -/
def Visit.operation : Visit → FaultyOperation
  | «open» => .open []
  | ask handle request => .act handle request []

/-- A call that returned. -/
def World.VisitStep (embedder : Embedder) (world : World) (visit : Visit) (next : World) : Prop :=
  world.attempt embedder visit.operation = some (.ok ⟨⟩, next)

/-- Whether a request is a commit, and whether that closes a batch. -/
def Request.endOfBatch : Request → Option Bool
  | .commit endOfBatch => some endOfBatch
  | .compact => some true
  | .add _ | .remove _ => none

/-- A commit of the handle would compact: it closes a batch, or the journal outgrows its
threshold. -/
def VectorIndex.compacts (handle : VectorIndex) (dir : Directory) (endOfBatch : Bool) : Bool :=
  endOfBatch || decide (compactThreshold <
    Journal.len handle.journal dir.journal + handle.pending.length)

/-- Another handle has compacted since this one loaded. -/
def VectorIndex.Stale (handle : VectorIndex) (dir : Directory) : Prop :=
  dir.pair.keymap.generation ≠ handle.loadedGeneration

/-- A condition on commits: of the handle's number, the handle, the directory and whether the
commit closes a batch. -/
def CommitCondition : Type := Nat → VectorIndex → Directory → Bool → Prop

/-- The condition holds of a visit, if that is a commit. -/
def World.AtCommits (condition : CommitCondition) (world : World) : Visit → Prop
  | .ask i request => ∀ handle endOfBatch, world.handles[i]? = some (some handle) →
      request.endOfBatch = some endOfBatch → condition i handle world.dir endOfBatch
  | .open => True

instance (condition : CommitCondition) [∀ i handle dir endOfBatch,
    Decidable (condition i handle dir endOfBatch)] (world : World) :
    (visit : Visit) → Decidable (world.AtCommits condition visit)
  | .open => .isTrue trivial
  | .ask i request =>
    match held : world.handles[i]?, commits : request.endOfBatch with
    | some (some handle), some endOfBatch =>
      decidable_of_iff (condition i handle world.dir endOfBatch)
        ⟨fun meets _ _ found given => by
          cases held.symm.trans found
          cases commits.symm.trans given
          exact meets,
        fun meets => meets handle endOfBatch held commits⟩
    | some (some _), none => .isTrue fun _ _ _ given => by cases commits.symm.trans given
    | some none, _ | none, _ => .isTrue fun _ _ found => by cases held.symm.trans found

/-- A call that returned and, if it commits, meets the condition. -/
def World.StepWith (embedder : Embedder) (condition : CommitCondition) (world : World)
    (visit : Visit) (next : World) : Prop :=
  world.VisitStep embedder visit next ∧ world.AtCommits condition visit

/-- The world after a call that returned, computed. -/
def World.visited (embedder : Embedder) (world : World) (visit : Visit) : Option World :=
  match world.attempt embedder visit.operation with
  | some (.ok _, next) => some next
  | _ => none

/-- The same after a call that meets the condition. -/
def World.visitedWith (embedder : Embedder) (condition : CommitCondition) [∀ i handle dir endOfBatch,
    Decidable (condition i handle dir endOfBatch)] (world : World) (visit : Visit) : Option World :=
  if world.AtCommits condition visit then world.visited embedder visit else none

/-- A disk and the live indexes on it. -/
structure Hub where
  disk : Disk
  lives : List Live

/-- A live index and its disk after a request. -/
def Live.serve (live : Live) (disk : Disk) : Request → Live × Disk
  | .add entries => (live.add entries, disk)
  | .remove id => (live.remove id, disk)
  | .commit endOfBatch =>
    (live.committed disk endOfBatch, disk.after (live.commitWrites disk endOfBatch))
  | .compact => (live.committed disk true, disk.after (live.commitWrites disk true))

/-- A hub after a visit. -/
def Hub.after (hub : Hub) : Visit → Option Hub
  | .open => some ⟨hub.disk, hub.lives ++ [Live.opened hub.disk]⟩
  | .ask handle request => (hub.lives[handle]?).map fun live =>
      ⟨(live.serve hub.disk request).2, hub.lives.set handle (live.serve hub.disk request).1⟩

/-- One step of a hub. -/
def Hub.Step (hub : Hub) (visit : Visit) (next : Hub) : Prop := hub.after visit = some next

/-- A hub nothing was written to. -/
def Hub.fresh : Hub := ⟨⟨⟨∅, .default⟩, []⟩, []⟩

/-- No live index is ahead of its disk. -/
structure Live.Behind (live : Live) (disk : Disk) : Prop where
  sound : live.pair.Sound
  current : live.generation ≤ disk.pair.keymap.generation

/-- All pairs of a hub are sound, and no live index is ahead of the disk. -/
structure Hub.Sound (hub : Hub) : Prop where
  disk : hub.disk.pair.Sound
  lives : ∀ live ∈ hub.lives, live.Behind hub.disk

section Hubs

variable {live : Live} {disk : Disk}

/-- A compaction starts from the generation of the disk. -/
theorem Live.folded_generation (live : Live) (disk : Disk) :
    (live.folded disk).generation = disk.pair.keymap.generation := by
  change (live.reload disk).generation = _
  unfold Live.reload
  split
  case isTrue same => exact same.symm
  case isFalse => rfl

/-- What a compaction folds together is sound. -/
theorem Live.Behind.folded (behind : live.Behind disk) (compacted : disk.pair.Sound) :
    (live.folded disk).pair.Sound := by
  refine Pair.Sound.placeAll ?_ _
  unfold Live.reload
  split
  · exact behind.sound
  · exact compacted.placeAll _

/-- So does a compacting commit. -/
theorem Live.compacted_generation (live : Live) (disk : Disk) (endOfBatch : Bool) :
    (live.compacted disk endOfBatch).generation = disk.pair.keymap.generation := by
  rw [← live.beforeCompaction_pair disk endOfBatch]
  exact Live.folded_generation _ _

/-- What a commit compacts is sound. -/
theorem Live.Behind.compacted (behind : live.Behind disk) (compacted : disk.pair.Sound)
    (endOfBatch : Bool) : (live.compacted disk endOfBatch).pair.Sound := by
  have journalled := live.beforeCompaction_pair disk endOfBatch
  have still : (live.beforeCompaction disk endOfBatch).1.Behind
      (live.beforeCompaction disk endOfBatch).2 := by
    rw [← journalled] at compacted
    refine ⟨?_, journalled ▸ ?_⟩
    · cases endOfBatch <;> exact behind.sound
    · cases endOfBatch <;> exact behind.current
  exact still.folded (journalled ▸ compacted)

/-- What a reload names: what the live index did, or the compacted items and the queue. -/
theorem Live.Behind.reload_named (behind : live.Behind disk) (compacted : disk.pair.Sound)
    (id : ItemId) :
    (live.reload disk).pair.keymap.WellFormed ∧ ((live.reload disk).named id = true ↔
      if disk.pair.keymap.generation = live.generation then live.named id = true
      else disk.named id = true ∨ id ∈ live.pending.map Prod.fst) := by
  unfold Live.reload
  split
  · exact ⟨behind.sound.wellFormed, Iff.rfl⟩
  · exact ⟨Pair.placeAll_wellFormed compacted.wellFormed _,
      (Pair.placeAll_named live.pending id).trans or_comm⟩

/-- **What a compaction names.** A current live index keeps its names, a stale one takes those
of the disk and its queue; both add the journalled items that were not removed. -/
theorem Live.Behind.folded_named (behind : live.Behind disk) (compacted : disk.pair.Sound)
    (id : ItemId) :
    (live.folded disk).named id = true ↔
      (if disk.pair.keymap.generation = live.generation then live.named id = true
        else disk.named id = true ∨ id ∈ live.pending.map Prod.fst) ∨
      (id ∈ disk.journal.map Prod.fst ∧ id ∉ live.tombstones) := by
  obtain ⟨wellFormed, named⟩ := behind.reload_named compacted id
  have tombstones : (live.reload disk).tombstones = live.tombstones := by
    unfold Live.reload
    split <;> rfl
  rw [Live.folded, Live.absorb_named, named, tombstones]

/-- The same of a compacting commit, which may journal its queue first. -/
theorem Live.Behind.compacted_named (behind : live.Behind disk) (compacted : disk.pair.Sound)
    (endOfBatch : Bool) (id : ItemId) :
    (live.compacted disk endOfBatch).named id = true ↔
      (if disk.pair.keymap.generation = live.generation then live.named id = true
        else disk.named id = true ∨ (endOfBatch = true ∧ id ∈ live.pending.map Prod.fst)) ∨
      ((id ∈ disk.journal.map Prod.fst ∨
        (endOfBatch = false ∧ id ∈ live.pending.map Prod.fst)) ∧ id ∉ live.tombstones) := by
  cases endOfBatch with
  | true =>
    refine (behind.folded_named compacted id).trans ?_
    simp
  | false =>
    have journalled := disk.after_appendWrites live
    have still : live.drained.Behind (disk.after live.appendWrites) := by
      rw [journalled]
      exact ⟨behind.sound, behind.current⟩
    have sound : (disk.after live.appendWrites).pair.Sound := by
      rw [journalled]
      exact compacted
    refine (still.folded_named sound id).trans ?_
    rw [journalled]
    simp [Live.drained, Live.named, Disk.named]

/-- A removal forgets one item. -/
theorem Live.remove_named (wellFormed : live.pair.keymap.WellFormed) (removed id : ItemId) :
    (live.remove removed).named id = true ↔ live.named id = true ∧ id ≠ removed := by
  obtain ⟨_, unnamed, _, _, others⟩ := Pair.evict_keymap wellFormed removed
  change ((live.pair.evict removed).keymap.reverse.lookup id).isSome ↔ _
  by_cases same : id = removed
  · rw [same, unnamed]
    simp
  · rw [others id same]
    exact (and_iff_left same).symm

/-- **A commit** leaves a live index that is sound and not ahead of the disk, which it leaves
or moves to the next generation. -/
theorem Live.Behind.committed (behind : live.Behind disk) (compacted : disk.pair.Sound)
    (endOfBatch : Bool) :
    (live.committed disk endOfBatch).Behind (disk.after (live.commitWrites disk endOfBatch)) ∧
      (disk.after (live.commitWrites disk endOfBatch)).pair.Sound ∧
      disk.pair.keymap.generation ≤
        (disk.after (live.commitWrites disk endOfBatch)).pair.keymap.generation := by
  rw [Disk.after_commitWrites, Live.committed]
  split
  · have sound := (behind.compacted compacted endOfBatch).stamp
      ((live.compacted disk endOfBatch).generation + 1)
    refine ⟨⟨sound, Nat.le_refl _⟩, sound, ?_⟩
    change _ ≤ (live.compacted disk endOfBatch).generation + 1
    rw [live.compacted_generation]
    exact Nat.le_succ _
  · exact ⟨⟨behind.sound, behind.current⟩, compacted, Nat.le_refl _⟩

/-- A request keeps a live index sound and not ahead of its disk. -/
theorem Live.Behind.serve (behind : live.Behind disk) (compacted : disk.pair.Sound)
    (request : Request) :
    (live.serve disk request).1.Behind (live.serve disk request).2 ∧
      (live.serve disk request).2.pair.Sound ∧
      disk.pair.keymap.generation ≤ (live.serve disk request).2.pair.keymap.generation := by
  cases request with
  | add entries =>
    exact ⟨⟨behind.sound.placeAll entries, behind.current⟩, compacted, Nat.le_refl _⟩
  | remove id =>
    exact ⟨⟨(Pair.evict_moves behind.sound.wellFormed id).sound behind.sound, behind.current⟩,
      compacted, Nat.le_refl _⟩
  | commit endOfBatch => exact behind.committed compacted endOfBatch
  | compact => exact behind.committed compacted true

/-- A fresh open is sound and current. -/
theorem Live.Behind.opened (compacted : disk.pair.Sound) : (Live.opened disk).Behind disk :=
  ⟨compacted.placeAll _, Nat.le_refl _⟩

/-- **Every step keeps a hub sound.** -/
theorem Hub.Sound.after {hub next : Hub} (sound : hub.Sound) {visit : Visit}
    (stepped : hub.Step visit next) : next.Sound := by
  cases visit with
  | «open» =>
    cases stepped
    refine ⟨sound.disk, fun live member => ?_⟩
    rcases List.mem_append.mp member with old | new
    · exact sound.lives live old
    · exact List.mem_singleton.mp new ▸ .opened sound.disk
  | ask i request =>
    obtain ⟨live, held, rfl⟩ := Option.map_eq_some_iff.mp stepped
    obtain ⟨served, compacted, later⟩ :=
      (sound.lives live (List.mem_of_getElem? held)).serve sound.disk request
    refine ⟨compacted, fun other member => ?_⟩
    rcases List.mem_or_eq_of_mem_set member with old | new
    · have behind := sound.lives other old
      exact ⟨behind.sound, behind.current.trans later⟩
    · exact new ▸ served

/-- A fresh hub is sound. -/
theorem Hub.Sound.fresh : Hub.fresh.Sound := ⟨.empty, by rintro _ ⟨⟩⟩

end Hubs

/-- The files of a world stand for a hub. -/
structure World.Reads (embedder : Embedder) (world : World) (hub : Hub) : Prop where
  shows : Shows embedder world.dir hub.disk
  lives : world.handles.map (Option.map VectorIndex.live) = hub.lives.map some
  fits : ∀ handle, some handle ∈ world.handles → handle.Fits embedder
  sound : hub.Sound

section Refinement

variable {embedder : Embedder} {world next : World} {hub : Hub} {handle : VectorIndex}

/-- A computed step is a step. -/
theorem World.visited_step {visit : Visit} (visited : world.visited embedder visit = some next) :
    world.VisitStep embedder visit next := by
  unfold World.visited at visited
  split at visited
  case h_1 attempted =>
    cases visited
    exact attempted
  case h_2 => cases visited

/-- A computed step that meets a condition is one. -/
theorem World.visitedWith_step {visit : Visit} {condition : CommitCondition}
    [∀ i handle dir endOfBatch, Decidable (condition i handle dir endOfBatch)]
    (visited : world.visitedWith embedder condition visit = some next) :
    world.StepWith embedder condition visit next := by
  unfold World.visitedWith at visited
  split at visited
  case isTrue meets => exact ⟨World.visited_step visited, meets⟩
  case isFalse => cases visited

/-- The live index of a handle. -/
theorem World.Reads.live {i : Nat} (reads : world.Reads embedder hub)
    (held : world.handles[i]? = some (some handle)) : hub.lives[i]? = some handle.live := by
  have same := congrArg (fun lives => lives[i]?) reads.lives
  simpa [held] using same.symm

/-- The handle of a live index. -/
theorem World.Reads.opened {i : Nat} {live : Live} (reads : world.Reads embedder hub)
    (present : hub.lives[i]? = some live) :
    ∃ handle, world.handles[i]? = some (some handle) ∧ handle.live = live := by
  have same := congrArg (fun lives => lives[i]?) reads.lives
  simp only [List.getElem?_map, present, Option.map_some, Option.map_eq_some_iff] at same
  obtain ⟨slot, found, handle, rfl, live⟩ := same
  exact ⟨handle, found, live⟩

/-- A commit compacts on the files when it does on the hub. -/
theorem World.Reads.compacts_eq {i : Nat} (reads : world.Reads embedder hub)
    (found : world.handles[i]? = some (some handle)) (endOfBatch : Bool) :
    handle.compacts world.dir endOfBatch = handle.live.compacts hub.disk endOfBatch := by
  have fits := reads.fits handle (List.mem_of_getElem? found)
  rw [VectorIndex.compacts, Live.compacts, List.length_append, fits.journal,
    reads.shows.journal.len]
  rfl

/-- A request does to a handle and its directory what it does to the live index and the
disk. -/
theorem Request.serves {dir : Directory} {disk : Disk} {request : Request} {after : Session}
    (shows : Shows embedder dir disk) (fits : handle.Fits embedder)
    (behind : handle.live.Behind disk) (compacted : disk.pair.Sound)
    (ran : request.run.exec ⟨[], dir, [], handle⟩ = (.ok ⟨⟩, after)) :
    Shows embedder after.dir (handle.live.serve disk request).2 ∧ after.handle.Fits embedder ∧
      after.handle.live = (handle.live.serve disk request).1 := by
  have commits : ∀ endOfBatch, (commitLocked endOfBatch).exec ⟨[], dir, [], handle⟩ =
      (.ok ⟨⟩, after) → Shows embedder after.dir
        (disk.after (handle.live.commitWrites disk endOfBatch)) ∧ after.handle.Fits embedder ∧
      after.handle.live = handle.live.committed disk endOfBatch := by
    intro endOfBatch ran
    have sound := behind.compacted compacted endOfBatch
    obtain ⟨reached, taken, final, settled, shows, fits, live⟩ :=
      commitLocked_settles endOfBatch shows fits behind.current fun empty =>
        sound.wellFormed.forward_empty (sound.unnamed_of_empty empty)
    cases settled.symm.trans ran
    exact ⟨shows, fits, live⟩
  cases request with
  | add entries =>
    obtain ⟨rfl, added⟩ := addBatch_returned fits ran
    exact ⟨shows, added, rfl⟩
  | remove id =>
    cases (exec_remove id).symm.trans ran
    refine ⟨shows, ⟨fits.metadata, fits.journal, fits.accepted, fun entry member => ?_⟩, rfl⟩
    exact fits.pending entry (List.mem_of_mem_filter member)
  | commit endOfBatch => exact commits endOfBatch ran
  | compact => exact commits true ran

/-- **The files carry out the hub**, one call after the other. -/
theorem World.Reads.visit {visit : Visit} (reads : world.Reads embedder hub)
    (visited : world.VisitStep embedder visit next) :
    ∃ after, hub.Step visit after ∧ next.Reads embedder after := by
  unfold World.VisitStep at visited
  cases visit with
  | «open» =>
    simp only [Visit.operation, World.attempt] at visited
    split at visited
    case h_1 value after ran =>
      cases visited
      obtain ⟨taken, opened, opens, fits, live, carries, _⟩ :=
        open_carries .blank [] reads.shows (accepted_of_open reads.shows ran)
      cases opens.symm.trans ran
      have stepped : hub.Step .open ⟨hub.disk, hub.lives ++ [Live.opened hub.disk]⟩ := rfl
      refine ⟨_, stepped, carries.shows, ?_, fun found member => ?_, reads.sound.after stepped⟩
      · simp [reads.lives, live]
      · rcases List.mem_append.mp member with old | new
        · exact reads.fits found old
        · exact Option.some.inj (List.mem_singleton.mp new) ▸ fits
    case h_2 => cases visited
  | ask i request =>
    simp only [Visit.operation, World.attempt] at visited
    split at visited
    case h_1 handle held =>
      have present := reads.live held
      obtain ⟨returned, rfl⟩ := Prod.mk.inj (Option.some.inj visited)
      have ran : request.run.exec ⟨[], world.dir, [], handle⟩ =
          (.ok ⟨⟩, (request.run.exec ⟨[], world.dir, [], handle⟩).2) :=
        Prod.ext returned rfl
      obtain ⟨shows, fits, live⟩ := request.serves reads.shows
        (reads.fits handle (List.mem_of_getElem? held))
        (reads.sound.lives _ (List.mem_of_getElem? present)) reads.sound.disk ran
      have stepped : hub.Step (.ask i request) ⟨(handle.live.serve hub.disk request).2,
          hub.lives.set i (handle.live.serve hub.disk request).1⟩ := by
        rw [Hub.Step, Hub.after, present]
        rfl
      refine ⟨_, stepped, shows, ?_, fun found member => ?_, reads.sound.after stepped⟩
      · rw [List.map_set, reads.lives, List.map_set, ← live]
        rfl
      · rcases List.mem_or_eq_of_mem_set member with old | new
        · exact reads.fits found old
        · exact Option.some.inj new ▸ fits
    case h_2 => cases visited

/-- A fresh world stands for a fresh hub. -/
theorem World.Reads.fresh (embedder : Embedder) : World.fresh.Reads embedder .fresh where
  shows := (World.Consistent.fresh embedder).shows
  lives := rfl
  fits := by rintro _ ⟨⟩
  sound := .fresh

/-- Every run of calls that return is a run of the hub that the files stand for. -/
theorem World.Reads.visits {labels : List Visit} {final : World} (reads : world.Reads embedder hub)
    (run : Run (World.VisitStep embedder) world labels final) :
    ∃ reached, Run Hub.Step hub labels reached ∧ final.Reads embedder reached :=
  run.simulated (fun _ _ _ _ reads visited => reads.visit visited) reads

/-- **Refinement.** So is every run from a fresh directory. -/
theorem visits_refine {labels : List Visit}
    (run : Run (World.VisitStep embedder) .fresh labels world) :
    ∃ hub, Run Hub.Step .fresh labels hub ∧ world.Reads embedder hub :=
  (World.Reads.fresh embedder).visits run

end Refinement

end Singularmem.Search
