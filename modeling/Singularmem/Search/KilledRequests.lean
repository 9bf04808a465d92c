import Singularmem.Search.Rereads

/-!
# Runs of requests that fail or are killed

Handles open, add, remove, commit and compact in any order. Any call of the graph library may
fail, and any operation may be killed at any of its file steps, or in the middle of a write.
Whatever they leave, the two directions of the keymap on disk are inverse, and so are those
of every handle; every handle is the embedder's.
-/

namespace Singularmem.Search

open Library Singularmem.Core Effect

/-- An operation runs to its end, or is killed after some of its file steps and some bytes of
the next write. -/
inductive Incident
  | finish (operation : FaultyOperation)
  | kill (operation : FaultyOperation) (done cut : Nat)

/-- The code that an operation runs and the session that it starts in. -/
def World.launch (embedder : Embedder) (world : World) :
    FaultyOperation → Option (Op PUnit × Session)
  | .open faults => some (VectorIndex.open embedder, ⟨faults, world.dir, [], .blank⟩)
  | .act i request faults =>
    world.handles[i]?.join.map fun handle => (request.run, ⟨faults, world.dir, [], handle⟩)

/-- The handles after a kill: the one that was used is gone. -/
def World.mourn (world : World) : FaultyOperation → List (Option VectorIndex)
  | .open _ => world.handles
  | .act i _ _ => world.handles.set i none

/-- The world after an incident. -/
def World.suffer (embedder : Embedder) (world : World) : Incident → Option World
  | .finish operation => (world.attempt embedder operation).map Prod.snd
  | .kill operation done cut =>
    (world.launch embedder operation).map fun (action, session) =>
      ⟨world.dir.killed (action.exec session).2.steps done cut, world.mourn operation⟩

/-- One step of a run. -/
def World.Suffers (embedder : Embedder) (world : World) (incident : Incident) (next : World) :
    Prop :=
  world.suffer embedder incident = some next

/-- What is known of the keymaps of a session, and of its handle once it is open. -/
structure Session.Tracked (embedder : Embedder) (opened : Prop) (session : Session) : Prop where
  handle : session.handle.keymap.WellFormed
  dir : (session.dir.keymap.getD .default).WellFormed
  written : ∀ keymap, FileStep.renameKeymap keymap ∈ session.steps → keymap.WellFormed
  owned : opened → session.handle.meta = embedder.metadata ∧
    session.handle.journal = embedder.header

/-- The computation keeps this, however it ends. -/
def Tracks (embedder : Embedder) (opened : Prop) {α : Type} (action : Op α) : Prop :=
  Triple (Session.Tracked embedder opened) action (fun _ => Session.Tracked embedder opened)
    (fun _ => Session.Tracked embedder opened)

namespace Tracks

variable {embedder : Embedder} {opened : Prop} {α β : Type}

theorem pure (value : α) : Tracks embedder opened (Pure.pure value : Op α) :=
  Triple.pure fun _ tracked => tracked

theorem throw (error : Error) : Tracks embedder opened (MonadExcept.throw error : Op α) :=
  Triple.throw fun _ tracked => tracked

theorem bind {action : Op α} {next : α → Op β} (first : Tracks embedder opened action)
    (second : ∀ value, Tracks embedder opened (next value)) :
    Tracks embedder opened (action >>= next) :=
  Triple.bind first second

/-- After reading the state, what follows may rely on what was read. -/
theorem get_bind {next : Session → Op α}
    (rest : ∀ session, session.Tracked embedder opened → Tracks embedder opened (next session)) :
    Tracks embedder opened (MonadState.get >>= next) :=
  Triple.get_bind fun session tracked => (rest session tracked).weaken
    (fun _ same => same ▸ tracked) (fun _ _ kept => kept) fun _ _ threw => threw

theorem tryCatch {action : Op α} {handler : Error → Op α} (first : Tracks embedder opened action)
    (second : ∀ error, Tracks embedder opened (handler error)) :
    Tracks embedder opened (MonadExcept.tryCatch action handler) :=
  Triple.tryCatch first second

/-- A file step that leaves the keymap. -/
theorem fileStep {step : FileStep} (keymap : ∀ dir, (step.apply dir).keymap = dir.keymap)
    (other : ∀ written, step ≠ .renameKeymap written) :
    Tracks embedder opened (fileStep step) := by
  refine .modify fun session tracked =>
    ⟨tracked.handle, ?_, fun written member => ?_, tracked.owned⟩
  · rw [keymap]
    exact tracked.dir
  · rcases List.mem_append.mp member with old | new
    · exact tracked.written written old
    · exact absurd (List.mem_singleton.mp new).symm (other written)

theorem updateHandle {update : VectorIndex → VectorIndex}
    (same : ∀ handle, (update handle).meta = handle.meta ∧ (update handle).journal = handle.journal)
    (keymap : ∀ handle, handle.keymap.WellFormed → (update handle).keymap.WellFormed) :
    Tracks embedder opened (updateHandle update) := by
  refine .modify fun session tracked => ⟨keymap _ tracked.handle, tracked.dir, tracked.written, ?_⟩
  intro isOpen
  obtain ⟨metadata, header⟩ := same session.handle
  exact ⟨metadata.trans (tracked.owned isOpen).1, header.trans (tracked.owned isOpen).2⟩

/-- Work on the handle's graph and keymap that keeps the keymap well formed. -/
theorem onIndex {action : Usearch PUnit}
    (keeps : Preserves (fun state : IndexState => state.keymap.WellFormed) action) :
    Tracks embedder opened (onIndex action) := by
  refine .zoom fun session tracked => ?_
  rintro _ rfl
  have kept := keeps ⟨session.faults, session.handle.inner, session.handle.keymap⟩ tracked.handle
  constructor
  · intro value final ran
    rw [ran] at kept
    exact ⟨kept, tracked.dir, tracked.written, tracked.owned⟩
  · intro error final ran
    rw [ran] at kept
    exact ⟨kept, tracked.dir, tracked.written, tracked.owned⟩

theorem usearchCall (context : String) :
    Tracks embedder opened (Search.onIndex (usearchCall context)) := by
  apply onIndex
  rintro ⟨faults, index, keymap⟩ wellFormed
  cases faults with
  | nil => exact wellFormed
  | cons fails rest => cases fails <;> exact wellFormed

theorem insertEntries (entries : List Entry) :
    Tracks embedder opened (Search.onIndex (insertEntries entries)) := by
  apply onIndex
  rintro ⟨faults, index, keymap⟩ wellFormed
  exact @insertEntries_wellFormed ⟨index, keymap⟩ faults entries _ _ rfl wellFormed

/-- Inserting into a well formed pair that no handle holds yet. -/
theorem insertFresh {fresh : Pair} (wellFormed : fresh.keymap.WellFormed) (entries : List Entry) :
    Triple (Session.Tracked embedder opened) (insertFresh fresh entries)
      (fun pair session => pair.keymap.WellFormed ∧ session.Tracked embedder opened)
      (fun _ => Session.Tracked embedder opened) := by
  refine .zoom fun session tracked => ?_
  rintro _ rfl
  constructor
  · intro pair final ran
    obtain ⟨_, middle, inserted, rest⟩ := exec_bind_returned ran
    cases rest
    exact ⟨insertEntries_wellFormed inserted wellFormed, tracked.handle, tracked.dir,
      tracked.written, tracked.owned⟩
  · intro error final _
    exact ⟨tracked.handle, tracked.dir, tracked.written, tracked.owned⟩

theorem loadGraph (context : String) (file : Option Graph) :
    Tracks embedder opened (loadGraph context file) := by
  cases file with
  | none => exact .bind (.usearchCall _) fun _ => .pure _
  | some graph => exact .bind (.usearchCall _) fun _ => .pure _

theorem addEntries (entries : List Entry) (queue : Bool) :
    Tracks embedder opened (addEntries entries queue) := by
  refine .get_bind fun session _ => ?_
  simp only
  split
  · exact .throw _
  · refine .bind (.insertEntries entries) fun _ => ?_
    split
    · exact .updateHandle (fun _ => ⟨rfl, rfl⟩) fun _ wellFormed => wellFormed
    · exact .pure _

theorem absorbJournal : Tracks embedder opened absorbJournal := by
  refine .get_bind fun session _ => ?_
  split
  · exact .pure _
  · exact .addEntries _ _

theorem sweepTempFiles (temps : List TempFile) : Tracks embedder opened (sweepTempFiles temps) := by
  induction temps with
  | nil => exact .pure _
  | cons temp rest inductionHypothesis =>
    exact .bind (.fileStep (fun _ => rfl) fun _ => by simp) fun _ => inductionHypothesis

theorem writeMetaAtomic (written : VectorIndexMeta) :
    Tracks embedder opened (writeMetaAtomic written) :=
  .bind (.fileStep (fun _ => rfl) fun _ => by simp) fun _ =>
    .fileStep (fun _ => rfl) fun _ => by simp

theorem loadMeta : Tracks embedder opened (loadMeta embedder) := by
  refine .get_bind fun session _ => ?_
  split
  · exact .bind (.writeMetaAtomic _) fun _ => .pure _
  · split
    · exact .throw _
    split
    · exact .throw _
    split
    · exact .throw _
    · exact .pure _

/-- A load that returns leaves a handle of the embedder. -/
theorem load :
    Triple (Session.Tracked embedder False) (load embedder)
      (fun _ => Session.Tracked embedder True) (fun _ => Session.Tracked embedder False) := by
  have read : Triple (Session.Tracked embedder False) (Search.loadMeta embedder)
      (fun value session => value.1 = embedder.metadata ∧ session.Tracked embedder False)
      (fun _ => Session.Tracked embedder False) := by
    intro session tracked
    obtain ⟨returns, throws⟩ := loadMeta session tracked
    exact ⟨fun value final ran => ⟨loadMeta_returned ran, returns value final ran⟩, throws⟩
  refine .bind read fun (written, diskFormat) => .fact ?_
  rintro rfl
  refine .bind (usearchCall _) fun _ => .get_bind fun first tracked => .bind
    ((loadGraph _ _).weaken (fun _ same => same ▸ tracked) (fun _ _ kept => kept)
      fun _ _ threw => threw) fun inner => .get_bind fun second tracked =>
    .get_bind fun third same => ?_
  subst same
  refine .bind (.ofExcept (fun journal opened session same =>
      (⟨Journal.open_returned opened, same ▸ tracked⟩ :
        journal = embedder.header ∧ session.Tracked embedder False))
    fun _ _ _ same => same ▸ tracked) fun journal => .fact ?_
  rintro rfl
  refine .bind (.modify fun session held => ?_) fun _ =>
    (@absorbJournal embedder True).weaken (fun _ held => held) (fun _ _ kept => kept)
      fun _ _ threw => ⟨threw.handle, threw.dir, threw.written, False.elim⟩
  exact ⟨Directory.loadedKeymap_wellFormed tracked.dir, held.dir, held.written, fun _ => ⟨rfl, rfl⟩⟩

/-- So does an open. -/
theorem «open» :
    Triple (Session.Tracked embedder False) (VectorIndex.open embedder)
      (fun _ => Session.Tracked embedder True) (fun _ => Session.Tracked embedder False) := by
  have attempt : Triple (Session.Tracked embedder False) (sweepAndLoad embedder)
      (fun _ => Session.Tracked embedder True) (fun _ => Session.Tracked embedder False) :=
    .get_bind fun session tracked => .bind ((sweepTempFiles _).weaken
      (fun _ same => same ▸ tracked) (fun _ _ kept => kept) fun _ _ threw => threw) fun _ => load
  refine .tryCatch attempt fun error => ?_
  split
  · exact attempt
  · exact .throw fun _ tracked => tracked

theorem remove (id : ItemId) : Tracks embedder opened (VectorIndex.remove id) := by
  refine .bind ?_ fun present =>
    .updateHandle (fun _ => ⟨rfl, rfl⟩) fun _ wellFormed => wellFormed
  refine Triple.get_bind fun session tracked => ?_
  cases named : session.handle.keymap.reverse.lookup id with
  | none => exact .pure fun _ same => same ▸ tracked
  | some key =>
    have forgotten : Triple (· = session)
        (Search.updateHandle fun handle => { handle with keymap := handle.keymap.forget id key })
        (fun _ => Session.Tracked embedder opened) (fun _ => Session.Tracked embedder opened) := by
      refine .modify fun after same => ?_
      subst same
      exact ⟨tracked.handle.forget named, tracked.dir, tracked.written, tracked.owned⟩
    have erased : Tracks embedder opened (do
        Search.onIndex (Search.usearchCall "usearch remove")
        Search.updateHandle fun handle => { handle with inner := handle.inner.erase key }
        Pure.pure true) :=
      .bind (.usearchCall _) fun _ => .bind
        (.updateHandle (fun _ => ⟨rfl, rfl⟩) fun _ wellFormed => wellFormed) fun _ => .pure _
    exact Triple.bind forgotten fun _ => erased

theorem writeMetaUpgrade : Tracks embedder opened writeMetaUpgrade := by
  refine .get_bind fun session _ => ?_
  simp only
  split
  · exact .bind (.updateHandle (fun _ => ⟨rfl, rfl⟩) fun _ wellFormed => wellFormed)
      fun _ => .writeMetaAtomic _
  · exact .pure _

theorem journalAppend (records : List Entry) : Tracks embedder opened (journalAppend records) := by
  have created : Tracks embedder opened createFile :=
    .get_bind fun session _ => .bind (.fileStep (fun _ => rfl) fun _ => by simp) fun _ =>
      .fileStep (fun _ => rfl) fun _ => by simp
  refine .get_bind fun session _ => ?_
  simp only
  split
  · exact .pure _
  · exact .throw _
  · refine .bind (.get_bind fun session _ => ?_) fun _ =>
      .fileStep (fun _ => rfl) fun _ => by simp
    split
    · exact created
    · exact .pure _

theorem requeue (records : List Entry) : Tracks embedder opened (requeue records) :=
  .updateHandle (fun _ => ⟨rfl, rfl⟩) fun _ wellFormed => wellFormed

theorem takePending : Tracks embedder opened takePending :=
  .get_bind fun _ _ => .bind
    (.updateHandle (fun _ => ⟨rfl, rfl⟩) fun _ wellFormed => wellFormed) fun _ => .pure _

theorem appendChunks (fuel : Nat) (rest : List Entry) :
    Tracks embedder opened (appendChunks fuel rest) := by
  induction fuel generalizing rest with
  | zero => exact .pure _
  | succ fuel inductionHypothesis =>
    cases rest with
    | nil => exact .pure _
    | cons entry tail =>
      exact .bind (.tryCatch (.journalAppend _) fun _ => .bind (.requeue _) fun _ => .throw _)
        fun _ => inductionHypothesis _

/-- A reload puts a well formed pair in place. -/
theorem reloadIfStale : Tracks embedder opened reloadIfStale := by
  refine .get_bind fun session tracked => ?_
  split
  · exact .pure _
  case h_2 diskKeymap present =>
    split
    · exact .pure _
    · have wellFormed : diskKeymap.WellFormed := by
        have published := tracked.dir
        rwa [present] at published
      refine .bind (.usearchCall _) fun _ => .bind (.loadGraph _ _) fun graph =>
        Triple.bind (insertFresh wellFormed _) fun pair => .modify fun after held => ?_
      exact ⟨held.1, held.2.dir, held.2.written, held.2.owned⟩

theorem publishGraph (snapshot : Graph) : Tracks embedder opened (publishGraph snapshot) := by
  unfold Search.publishGraph
  split
  · exact .fileStep (fun _ => rfl) fun _ => by simp
  · refine .get_bind fun session _ => ?_
    split
    · exact .fileStep (fun _ => rfl) fun _ => by simp
    · exact .pure _

/-- The keymap that is published is the handle's. -/
theorem publishKeymap : Tracks embedder opened publishKeymap := by
  refine .bind (.updateHandle (fun _ => ⟨rfl, rfl⟩) fun _ wellFormed =>
    ⟨wellFormed.inverse, wellFormed.issued⟩) fun _ =>
    .bind (.fileStep (fun _ => rfl) fun _ => by simp) fun _ =>
    Triple.get_bind fun session tracked => .modify fun after same => ?_
  subst same
  refine ⟨tracked.handle, tracked.handle, fun keymap member => ?_, tracked.owned⟩
  rcases List.mem_append.mp member with old | new
  · exact tracked.written keymap old
  · obtain rfl := FileStep.renameKeymap.inj (List.mem_singleton.mp new)
    exact tracked.handle

theorem journalClear : Tracks embedder opened journalClear := by
  refine .get_bind fun session _ => .get_bind fun second _ => ?_
  split
  · exact .fileStep (fun _ => rfl) fun _ => by simp
  · exact .pure _

theorem saveSnapshot (snapshot : Graph) : Tracks embedder opened (saveSnapshot snapshot) := by
  unfold Search.saveSnapshot
  split
  · exact .bind (.usearchCall _) fun _ => .fileStep (fun _ => rfl) fun _ => by simp
  · exact .pure _

theorem compactLocked : Tracks embedder opened compactLocked := by
  refine .bind .reloadIfStale fun _ => .bind .absorbJournal fun _ => .get_bind fun session _ =>
    .bind .takePending fun drained => .tryCatch ?_ fun _ => .bind (.requeue _) fun _ => .throw _
  exact .bind (.saveSnapshot _) fun _ => .bind (.publishGraph _) fun _ => .bind .publishKeymap
    fun _ => .bind .journalClear fun _ =>
      .updateHandle (fun _ => ⟨rfl, rfl⟩) fun _ wellFormed => wellFormed

theorem commitLocked (endOfBatch : Bool) : Tracks embedder opened (commitLocked endOfBatch) := by
  refine .bind .writeMetaUpgrade fun _ => ?_
  split
  · exact .compactLocked
  · refine .bind .takePending fun drained => .bind (.appendChunks _ _) fun _ =>
      .get_bind fun session _ => ?_
    split
    · exact .compactLocked
    · exact .pure _

/-- Every request does, however it ends. -/
theorem request (request : Request) : Tracks embedder opened request.run := by
  cases request with
  | add entries => exact .addEntries entries true
  | remove id => exact .remove id
  | commit endOfBatch => exact .commitLocked endOfBatch
  | compact => exact .commitLocked true

end Tracks

/-- A kill leaves the keymap on disk, or one that the call had written. -/
theorem Directory.killed_wellFormed {dir : Directory} {steps : List FileStep}
    (wellFormed : (dir.keymap.getD .default).WellFormed)
    (written : ∀ keymap, FileStep.renameKeymap keymap ∈ steps → keymap.WellFormed)
    (done cut : Nat) : ((dir.killed steps done cut).keymap.getD .default).WellFormed := by
  refine @Directory.after_keeps (fun dir => (dir.keymap.getD .default).WellFormed) _
    (fun step member dir held => ?_) dir wellFormed
  have taken : step ∈ steps ∨ ∃ bytes, step = .writeJournal bytes := by
    rcases List.mem_append.mp member with whole | part
    · exact .inl (List.mem_of_mem_take whole)
    · obtain ⟨next, _, same⟩ := Option.bind_eq_some_iff.mp (Option.mem_toList.mp part)
      cases next with
      | writeJournal bytes => exact .inr ⟨_, (Option.some.inj same).symm⟩
      | createTemp | removeTemp | renameMeta | renameUsearch | removeUsearch | renameKeymap
      | createJournal | setLenJournal => cases same
  cases step with
  | renameKeymap keymap =>
    obtain inside | ⟨bytes, same⟩ := taken
    · exact written keymap inside
    · cases same
  | createTemp | removeTemp | renameMeta | renameUsearch | removeUsearch | createJournal
  | writeJournal | setLenJournal => exact held

/-- What is known of the keymaps of a world, and of its handles. -/
structure World.Tracked (embedder : Embedder) (world : World) : Prop where
  dir : (world.dir.keymap.getD .default).WellFormed
  handles : ∀ handle, some handle ∈ world.handles → handle.keymap.WellFormed ∧
    handle.meta = embedder.metadata ∧ handle.journal = embedder.header

namespace World.Tracked

variable {embedder : Embedder} {world next : World}

/-- The session that a call of an open handle starts in. -/
theorem session (tracked : world.Tracked embedder) {handle : VectorIndex}
    (member : some handle ∈ world.handles) (faults : List Bool) :
    Session.Tracked embedder True ⟨faults, world.dir, [], handle⟩ := by
  obtain ⟨wellFormed, owned⟩ := tracked.handles handle member
  exact ⟨wellFormed, tracked.dir, fun _ nothing => absurd nothing List.not_mem_nil, fun _ => owned⟩

/-- The session that an open starts in. -/
theorem opening (tracked : world.Tracked embedder) (faults : List Bool) :
    Session.Tracked embedder False ⟨faults, world.dir, [], .blank⟩ :=
  ⟨.default, tracked.dir, fun _ nothing => absurd nothing List.not_mem_nil, False.elim⟩

/-- A handle in its place. -/
theorem set (tracked : world.Tracked embedder) {after : Session}
    (left : after.Tracked embedder True) (i : Nat) :
    World.Tracked embedder ⟨after.dir, world.handles.set i (some after.handle)⟩ := by
  refine ⟨left.dir, fun handle member => ?_⟩
  rcases List.mem_or_eq_of_mem_set member with old | new
  · exact tracked.handles handle old
  · obtain rfl := Option.some.inj new
    exact ⟨left.handle, left.owned trivial⟩

/-- An operation that runs to its end. -/
theorem finish (tracked : world.Tracked embedder) {operation : FaultyOperation}
    {outcome : Except Error PUnit}
    (attempted : world.attempt embedder operation = some (outcome, next)) :
    next.Tracked embedder := by
  cases operation with
  | «open» faults =>
    obtain ⟨returns, throws⟩ := Tracks.open _ (tracked.opening faults)
    rw [World.attempt] at attempted
    split at attempted
    case h_1 value after ran =>
      cases attempted
      have left := returns value after ran
      refine ⟨left.dir, fun handle member => ?_⟩
      rcases List.mem_append.mp member with old | new
      · exact tracked.handles handle old
      · obtain rfl := Option.some.inj (List.mem_singleton.mp new)
        exact ⟨left.handle, left.owned trivial⟩
    case h_2 error after ran =>
      cases attempted
      exact ⟨(throws error after ran).dir, tracked.handles⟩
  | act i request faults =>
    rw [World.attempt] at attempted
    split at attempted
    case h_1 handle held =>
      cases attempted
      exact tracked.set (Triple.ending (Tracks.request request)
        (tracked.session (List.mem_of_getElem? held) faults)) i
    case h_2 => cases attempted

/-- An operation that is killed. -/
theorem kill (tracked : world.Tracked embedder) {operation : FaultyOperation} {action : Op PUnit}
    {session : Session} (launched : world.launch embedder operation = some (action, session))
    (done cut : Nat) :
    World.Tracked embedder
      ⟨world.dir.killed (action.exec session).2.steps done cut, world.mourn operation⟩ := by
  have left : ∃ opened, (action.exec session).2.Tracked embedder opened := by
    cases operation with
    | «open» faults =>
      cases launched
      refine ⟨False, Triple.ending (Tracks.open.weaken (fun _ held => held)
        (fun _ after kept => ?_) fun _ _ threw => threw) (tracked.opening faults)⟩
      exact ⟨kept.handle, kept.dir, kept.written, False.elim⟩
    | act i request faults =>
      obtain ⟨handle, held, same⟩ := Option.map_eq_some_iff.mp launched
      cases same
      exact ⟨True, Triple.ending (Tracks.request request) (tracked.session
        (List.mem_of_getElem? (Option.join_eq_some_iff.mp held)) faults)⟩
  obtain ⟨opened, left⟩ := left
  refine ⟨Directory.killed_wellFormed tracked.dir left.written done cut, fun handle member => ?_⟩
  cases operation with
  | «open» faults => exact tracked.handles handle member
  | act i request faults =>
    rcases List.mem_or_eq_of_mem_set member with old | new
    · exact tracked.handles handle old
    · cases new

/-- Every incident keeps this. -/
theorem suffer (tracked : world.Tracked embedder) {incident : Incident}
    (suffered : world.Suffers embedder incident next) : next.Tracked embedder := by
  cases incident with
  | finish operation =>
    obtain ⟨⟨outcome, after⟩, attempted, rfl⟩ := Option.map_eq_some_iff.mp suffered
    exact tracked.finish attempted
  | kill operation done cut =>
    obtain ⟨⟨action, session⟩, launched, rfl⟩ := Option.map_eq_some_iff.mp suffered
    exact tracked.kill launched done cut

/-- So does every run, from a directory with a well formed keymap that nobody has opened. -/
theorem run {start : Directory} (wellFormed : (start.keymap.getD .default).WellFormed)
    {incidents : List Incident}
    (run : Run (World.Suffers embedder) ⟨start, []⟩ incidents world) : world.Tracked embedder :=
  run.invariant (fun _ _ _ tracked suffered => tracked.suffer suffered)
    ⟨wellFormed, fun _ nothing => absurd nothing List.not_mem_nil⟩

end World.Tracked

/-- One of two handles compacts an item. Then its next compaction is killed between the
renames of the graph and of the keymap. -/
def tornCompaction : List Incident :=
  [.finish (.open []), .finish (.open []), .finish (.act 1 (.add [(⟨7⟩, [1])]) []),
    .finish (.act 1 .compact []), .finish (.act 1 (.add [(⟨8⟩, [2])]) []),
    .kill (.act 1 .compact []) 2 0]

/-- One of two handles compacts an item, adds it again, commits and removes it. Then its
compaction is killed between the removal of the graph and the rename of the keymap. -/
def emptiedCompaction : List Incident :=
  [.finish (.open []), .finish (.open []), .finish (.act 1 (.add [(⟨7⟩, [1])]) []),
    .finish (.act 1 .compact []), .finish (.act 1 (.add [(⟨7⟩, [2])]) []),
    .finish (.act 1 (.commit false) []), .finish (.act 1 (.remove ⟨7⟩) []),
    .kill (.act 1 .compact []) 1 0]

end Singularmem.Search
