import Singularmem.Search.SplitCalls

/-!
# Keys across a stale reload

A reload may renumber every item, so a key that one section of a call obtained must not be
used in a later one when the graph and the keymap were swapped in between. Where no reload
swaps them between the two sections of a search or of a removal, every hit pairs an item
with the score of a vector that it had during the call, and a removal takes out no vector
of another item.

`Crowd.Coherent` carries this: a key is never issued again, so what a call under way has
seen of the keys below the next one still holds, or the key names nothing.
-/

namespace Singularmem.Search

open Library Singularmem.Core Effect

/-- The neighbour search returns keys that the graph holds, with the distances of their
vectors. -/
def SemanticEngine.Measures (neural : SemanticEngine) (distance : List F32 → List F32 → F32) :
    Prop :=
  ∀ graph vector count found, neural.neighbours graph vector count = .ok found →
    ∀ near ∈ found, ∃ stored, graph.lookup near.1 = some stored ∧ near.2 = distance vector stored

/-- Every hit has the score of a vector that its item had at some moment of the call. -/
def Answer.Honest (arithmetic : Arithmetic) (distance : List F32 → List F32 → F32)
    (answer : Answer) : Prop :=
  ∀ hit ∈ answer.hits, ∃ pair ∈ answer.seen, ∃ vector, pair.view hit.id = some vector ∧
    hit.score = arithmetic.sub (arithmetic.ofNat 1) (distance answer.query vector)

/-- The key of the vector that was taken out named no other item. -/
def Eviction.Own (eviction : Eviction) : Prop :=
  ∀ owner ∈ eviction.owner, owner = eviction.removed

/-- The call holds keys that it is going to use. -/
def Task.midway : Task → Bool
  | translating .. | erasing .. => true
  | dequeuing .. | burying .. => false

/-- The next section of the commit swaps the graph and the keymap. -/
def Crowd.swaps (crowd : Crowd) : Bool :=
  match crowd.committer, crowd.dir.keymap with
  | some .reloading, some keymap => keymap.generation ≠ crowd.handle.loadedGeneration
  | _, _ => false

/-- No reload swaps graph and keymap between the two sections of a search or a removal. -/
def Crowd.Calm (crowd : Crowd) : CrowdStep → Prop
  | .proceed _ => crowd.swaps = true → ∀ task ∈ crowd.tasks, task.midway = false
  | _ => True

instance (crowd : Crowd) (step : CrowdStep) : Decidable (crowd.Calm step) :=
  match step with
  | .proceed _ =>
    inferInstanceAs (Decidable (crowd.swaps = true → ∀ task ∈ crowd.tasks, task.midway = false))
  | .add .. | .query .. | .translate .. | .forget .. | .erase .. | .dequeue .. | .bury ..
  | .begin .. | .other .. => inferInstanceAs (Decidable True)

/-- A step that meets the condition. -/
def Crowd.CalmStep (neural : SemanticEngine) (arithmetic : Arithmetic) (embedder : Embedder)
    (crowd : Crowd) (step : CrowdStep) (next : Crowd) : Prop :=
  crowd.Calm step ∧ crowd.Step neural arithmetic embedder step next

/-- What a call under way may rely on. -/
def Task.Current (distance : List F32 → List F32 → F32) (pair : Pair) : Task → Prop
  | translating query found seen => ∃ asked ∈ seen, asked.Ordered ∧
      asked.keymap.Descends pair.keymap ∧ ∀ near ∈ found, ∃ stored,
        asked.index.lookup near.1 = some stored ∧ near.2 = distance query stored
  | erasing _ key => key < pair.keymap.nextKey ∧ pair.keymap.forward.lookup key = none
  | dequeuing .. | burying .. => True

/-- What a commit may rely on: the published pair is ordered, or is about to be. -/
def Phase.Ready (dir : Directory) (pair : Pair) : Option Phase → Prop
  | some (renamingGraph snapshot) =>
    dir.pair.Ordered ∧ ∀ key ∈ snapshot, key < pair.keymap.nextKey
  | some serialising => ∀ key ∈ dir.pair.index, key < pair.keymap.nextKey
  | some (renamingKeymap written) =>
    written.WellFormed ∧ ∀ key ∈ dir.pair.index, key < written.nextKey
  | _ => dir.pair.Ordered

/-- What holds between any two sections. -/
structure Crowd.Coherent (arithmetic : Arithmetic) (distance : List F32 → List F32 → F32)
    (crowd : Crowd) : Prop where
  handle : crowd.handle.pair.Ordered
  others : ∀ other, some other ∈ crowd.others → other.pair.Ordered
  ready : Phase.Ready crowd.dir crowd.handle.pair crowd.committer
  tasks : ∀ task ∈ crowd.tasks, task.Current distance crowd.handle.pair
  answers : ∀ answer ∈ crowd.answers, answer.Honest arithmetic distance
  evictions : ∀ eviction ∈ crowd.evictions, eviction.Own

variable {neural : SemanticEngine} {arithmetic : Arithmetic} {embedder : Embedder}
  {distance : List F32 → List F32 → F32}

/-- Seeing one more pair keeps what was seen. -/
theorem Task.Current.witness {pair seen : Pair} {task : Task} (current : task.Current distance pair) :
    (task.witness seen).Current distance pair := by
  cases task with
  | translating query found past =>
    obtain ⟨asked, member, rest⟩ := current
    exact ⟨asked, List.mem_append_left _ member, rest⟩
  | erasing | dequeuing | burying => exact current

/-- While the pair moves, what a call relies on still holds. -/
theorem Task.Current.moves {pair next : Pair} {task : Task} (current : task.Current distance pair)
    (moves : pair.Moves next) : task.Current distance next := by
  have descends := moves.descends
  cases task with
  | translating query found past =>
    obtain ⟨asked, member, ordered, before, rest⟩ := current
    exact ⟨asked, member, ordered, before.trans descends, rest⟩
  | erasing id key =>
    obtain ⟨issued, unnamed⟩ := current
    refine ⟨issued.trans_le descends.past, Option.eq_none_iff_forall_ne_some.mpr fun other named => ?_⟩
    rw [descends.names key other issued named] at unnamed
    cases unnamed
  | dequeuing | burying => trivial

/-- A key that was found and still names an item named it when it was found. -/
theorem Task.Current.honest {pair : Pair} {query : List F32} {found : List (Nat × F32)}
    {seen : List Pair} (current : (Task.translating query found seen).Current distance pair) :
    Answer.Honest arithmetic distance ⟨query, pair.keymap.translate arithmetic found, seen⟩ := by
  obtain ⟨asked, member, ordered, descends, near⟩ := current
  intro hit hitIn
  obtain ⟨⟨key, measured⟩, foundIn, translated⟩ := List.mem_filterMap.mp hitIn
  obtain ⟨id, named, rfl⟩ := Option.map_eq_some_iff.mp translated
  obtain ⟨stored, held, same⟩ := near (key, measured) foundIn
  have issued : key < asked.keymap.nextKey :=
    ordered.below key (Finmap.mem_of_lookup_eq_some held)
  have known := (ordered.wellFormed.inverse id key).mpr (descends.names key id issued named)
  refine ⟨asked, member, stored, ?_, congrArg (arithmetic.sub (arithmetic.ofNat 1)) same⟩
  rw [Pair.view, known]
  exact held

/-- While the pair moves, a commit's next section can rely on the same. -/
theorem Phase.Ready.moves {dir : Directory} {pair next : Pair} {committer : Option Phase}
    (ready : Ready dir pair committer) (moves : pair.Moves next) : Ready dir next committer := by
  have past := moves.descends.past
  rcases committer with _ | phase
  · exact ready
  cases phase with
  | renamingGraph snapshot => exact ⟨ready.1, fun key held => (ready.2 key held).trans_le past⟩
  | serialising => exact fun key held => (ready key held).trans_le past
  | begun | draining | appending | measuring | reloading | absorbing | inserting | snapshotting
  | renamingKeymap | clearing | finishing => exact ready

section Sections

variable {pair : Pair}

theorem requeueOnError_orderly {held published : Pair → Prop} {action : Op PUnit}
    (records : List Entry) (orderly : Orderly held published action) :
    Orderly held published (requeueOnError records action) :=
  .tryCatch orderly fun _ other => .bind (.requeue records) fun _ => .throw other

/-- What several moves keep of an ordered pair. -/
theorem closed_moves (ordered : pair.Ordered) : Pair.Closed pair.Moves where
  ordered moves := moves.ordered ordered
  moved move moves := moves.tail move

/-- What a section establishes that moves the pair. -/
def Phase.Advances (pair : Pair) (phase : Phase) : Prop :=
  Triple (fun session => session.handle.pair = pair ∧ Phase.Ready session.dir pair (some phase))
    phase.run
    (fun next session => pair.Moves session.handle.pair ∧
      Phase.Ready session.dir session.handle.pair next)
    (fun _ session => pair.Moves session.handle.pair ∧ session.dir.pair.Ordered)

/-- A section that publishes nothing. -/
theorem Phase.Advances.of_orderly {phase : Phase}
    (plain : ∀ dir, Phase.Ready dir pair (some phase) → dir.pair.Ordered)
    (orderly : Triple (Session.InOrder pair.Moves Pair.Ordered) phase.run
      (fun next session => session.InOrder pair.Moves Pair.Ordered ∧
        Phase.Ready session.dir session.handle.pair next)
      (fun _ session => session.InOrder pair.Moves Pair.Ordered)) : phase.Advances pair :=
  orderly.weaken (fun session held => ⟨held.1 ▸ .refl, plain session.dir held.2⟩)
    (fun _ _ result => ⟨result.1.handle, result.2⟩) fun _ _ kept => ⟨kept.handle, kept.dir⟩

/-- A section and the phase that follows it. -/
theorem orderly_next {held : Pair → Prop} {action : Op PUnit} {next : Option Phase}
    (orderly : Orderly held Pair.Ordered action)
    (ready : ∀ dir moved, dir.pair.Ordered → Phase.Ready dir moved next) :
    Triple (Session.InOrder held Pair.Ordered) (action >>= fun _ => pure next)
      (fun next session => session.InOrder held Pair.Ordered ∧
        Phase.Ready session.dir session.handle.pair next)
      (fun _ session => session.InOrder held Pair.Ordered) :=
  .bind (orderly.weaken (fun _ held => held) (fun _ _ kept => kept) fun _ _ threw => threw.2)
    fun _ => .pure fun _ kept => ⟨kept, ready _ _ kept.dir⟩

/-- Every section moves the pair, the reload apart. -/
theorem Phase.advances (ordered : pair.Ordered) (phase : Phase) (still : phase ≠ .reloading) :
    phase.Advances pair := by
  cases phase with
  | begun endOfBatch =>
    refine .of_orderly (fun _ ready => ready) (orderly_next .writeMetaUpgrade ?_)
    cases endOfBatch with
    | true => exact fun _ _ ready => ready
    | false => exact fun _ _ ready => ready
  | draining =>
    refine .of_orderly (fun _ ready => ready) (.bind ((Orderly.takePending).weaken
      (fun _ held => held) (fun _ _ kept => kept) fun _ _ threw => threw.2) fun drained => ?_)
    exact .pure fun session kept => ⟨kept, kept.dir⟩
  | appending rest =>
    cases rest with
    | nil => exact .of_orderly (fun _ ready => ready) (.pure fun session kept => ⟨kept, kept.dir⟩)
    | cons first others =>
      exact .of_orderly (fun _ ready => ready)
        (orderly_next (requeueOnError_orderly _ (.journalAppend _)) fun _ _ ready => ready)
  | measuring =>
    refine .of_orderly (fun _ ready => ready) (.get_bind fun session held => .pure ?_)
    rintro _ rfl
    split
    · exact ⟨held, held.dir⟩
    · exact ⟨held, held.dir⟩
  | reloading => exact absurd rfl still
  | absorbing =>
    refine .of_orderly (fun _ ready => ready) (.get_bind fun session held => ?_)
    have known : ∀ next : Option Phase, (∀ dir moved, dir.pair.Ordered → Phase.Ready dir moved next) →
        ∀ final : Session, final = session → final.InOrder pair.Moves Pair.Ordered ∧
          Phase.Ready final.dir final.handle.pair next := by
      rintro next ready _ rfl
      exact ⟨held, ready _ _ held.dir⟩
    split
    · exact .pure (known _ fun _ _ ready => ready)
    · exact .pure (known _ fun _ _ ready => ready)
  | inserting missing =>
    exact .of_orderly (fun _ ready => ready)
      (orderly_next (.addEntries (closed_moves ordered) _ _) fun _ _ ready => ready)
  | snapshotting =>
    refine Triple.get_bind fun session held => ?_
    have inner : session.handle.inner = pair.index := congrArg Pair.index held.1
    have quiet : ∀ drained, Orderly (· = pair) Pair.Ordered
        (requeueOnError drained (saveSnapshot session.handle.inner)) :=
      fun drained => requeueOnError_orderly drained (.saveSnapshot _)
    have failed : ∀ error (after : Session), error ≠ Error.usearch orphanContext ∧
        after.InOrder (· = pair) Pair.Ordered →
        pair.Moves after.handle.pair ∧ after.dir.pair.Ordered := by
      rintro error after ⟨_, same, published⟩
      exact ⟨same ▸ .refl, published⟩
    refine .bind ((Orderly.takePending).weaken (fun _ same => same ▸ ⟨held.1, held.2⟩)
      (fun _ _ kept => kept) failed) fun drained => .bind ((quiet drained).weaken
        (fun _ kept => kept) (fun _ _ kept => kept) failed) fun _ => .pure ?_
    rintro final ⟨same, published⟩
    refine ⟨same ▸ .refl, published, fun key present => ?_⟩
    rw [same]
    exact ordered.below key (inner ▸ present)
  | renamingGraph snapshot =>
    rintro session ⟨same, _, below⟩
    refine Triple.bind (Orderly.publishGraph.weaken (fun _ same => same) (fun _ _ read => read)
      fun _ _ never => never.elim) (fun _ => .pure ?_) session rfl
    rintro final ⟨kept, read⟩
    rw [kept, same]
    refine ⟨.refl, fun key present => below key ?_⟩
    rwa [← read]
  | serialising =>
    rintro session ⟨rfl, below⟩
    constructor
    · rintro next final ⟨⟩
      exact ⟨.single (.stamp _), ⟨ordered.wellFormed.inverse, ordered.wellFormed.issued⟩, below⟩
    · rintro error final ⟨⟩
  | renamingKeymap written =>
    rintro session ⟨rfl, wellFormed, below⟩
    constructor
    · rintro next final ⟨⟩
      exact ⟨.refl, wellFormed, below⟩
    · rintro error final ⟨⟩
  | clearing =>
    exact .of_orderly (fun _ ready => ready) (orderly_next .journalClear fun _ _ ready => ready)
  | finishing =>
    exact .of_orderly (fun _ ready => ready)
      (orderly_next (.updateHandle fun _ => rfl) fun _ _ ready => ready)

end Sections

/-- Of the directory only the published pair counts. -/
theorem Phase.Ready.of_pair {dir other : Directory} {pair : Pair} {committer : Option Phase}
    (same : other.pair = dir.pair) (ready : Ready dir pair committer) :
    Ready other pair committer := by
  have ordered : dir.pair.Ordered → other.pair.Ordered := fun ordered => same ▸ ordered
  rcases committer with _ | phase
  · exact ordered ready
  cases phase with
  | renamingGraph snapshot => exact ⟨same ▸ ready.1, ready.2⟩
  | serialising => exact fun key held => ready key (same ▸ held)
  | renamingKeymap written => exact ⟨ready.1, fun key held => ready.2 key (same ▸ held)⟩
  | begun | draining | appending | measuring | reloading | absorbing | inserting | snapshotting
  | clearing | finishing => exact ordered ready

/-- What does not wait for the lock leaves the published pair. -/
theorem World.attempt_unlocked {world next : World} {operation : FaultyOperation}
    {outcome : Except Error PUnit}
    (ordered : ∀ handle, some handle ∈ world.handles → handle.pair.Ordered)
    (free : operation.locks = false)
    (attempted : world.attempt embedder operation = some (outcome, next)) :
    next.dir.pair = world.dir.pair ∧ ∀ handle, some handle ∈ next.handles → handle.pair.Ordered := by
  cases operation with
  | «open» => cases free
  | act i request faults =>
    rw [World.attempt] at attempted
    split at attempted
    case h_1 handle held =>
      have orderly : Orderly Pair.Ordered (· = world.dir.pair) request.run := by
        cases request with
        | add entries => exact .addEntries Pair.Ordered.invariant.toClosed entries true
        | remove id => exact .remove Pair.Ordered.invariant.toClosed id
        | commit | compact => cases free
      obtain ⟨returns, throws⟩ := orderly ⟨faults, world.dir, [], handle⟩
        ⟨ordered handle (List.mem_of_getElem? held), rfl⟩
      have kept : (request.run.exec ⟨faults, world.dir, [], handle⟩).2.InOrder Pair.Ordered
          (· = world.dir.pair) := by
        rcases ran : request.run.exec ⟨faults, world.dir, [], handle⟩ with ⟨error | value, after⟩
        · exact (throws error after ran).2
        · exact returns value after ran
      cases attempted
      refine ⟨kept.dir, fun found member => ?_⟩
      rcases List.mem_or_eq_of_mem_set member with old | new
      · exact ordered found old
      · exact Option.some.inj new ▸ kept.handle
    case h_2 => cases attempted

namespace Crowd.Coherent

variable {crowd next : Crowd}

/-- A section that moves the pair. -/
theorem arrive (coherent : crowd.Coherent arithmetic distance) {dir : Directory}
    {handle : VectorIndex} {committer : Option Phase} (moves : crowd.handle.pair.Moves handle.pair)
    (ready : Phase.Ready dir handle.pair committer) :
    Coherent arithmetic distance { crowd.arrive dir handle with committer } where
  handle := moves.ordered coherent.handle
  others := coherent.others
  ready := ready
  tasks task member := by
    obtain ⟨before, old, rfl⟩ := List.mem_map.mp member
    exact ((coherent.tasks before old).moves moves).witness
  answers := coherent.answers
  evictions := coherent.evictions

theorem leave (coherent : crowd.Coherent arithmetic distance) (task : Nat) :
    (crowd.leave task).Coherent arithmetic distance :=
  { coherent with tasks := fun other member => coherent.tasks other (List.mem_of_mem_eraseIdx member) }

theorem await (coherent : crowd.Coherent arithmetic distance) {task : Task}
    (current : task.Current distance crowd.handle.pair) :
    (crowd.await task).Coherent arithmetic distance :=
  { coherent with
    tasks := fun other member => by
      rcases List.mem_append.mp member with old | new
      · exact coherent.tasks other old
      · exact List.mem_singleton.mp new ▸ current }

/-- A batch is added, whatever the graph library does. -/
theorem add (coherent : crowd.Coherent arithmetic distance) {entries : List Entry}
    {faults : List Bool}
    (stepped : crowd.Step neural arithmetic embedder (.add entries faults) next) :
    next.Coherent arithmetic distance := by
  cases stepped
  have added : Orderly crowd.handle.pair.Moves (· = crowd.dir.pair)
      (VectorIndex.addBatch entries) := .addEntries (closed_moves coherent.handle) entries true
  obtain ⟨returns, throws⟩ := added ⟨faults, crowd.dir, [], crowd.handle⟩ ⟨.refl, rfl⟩
  rcases ran : (VectorIndex.addBatch entries).exec ⟨faults, crowd.dir, [], crowd.handle⟩ with
    ⟨error | value, after⟩
  · obtain ⟨_, moves, same⟩ := throws error after ran
    exact coherent.arrive moves ((Phase.Ready.of_pair same coherent.ready).moves moves)
  · obtain ⟨moves, same⟩ := returns value after ran
    exact coherent.arrive moves ((Phase.Ready.of_pair same coherent.ready).moves moves)

/-- A search queries the graph. -/
theorem query (coherent : crowd.Coherent arithmetic distance) (measures : neural.Measures distance)
    {vector : List F32} {count : Nat}
    (stepped : crowd.Step neural arithmetic embedder (.query vector count) next) :
    next.Coherent arithmetic distance := by
  rw [Step, advance] at stepped
  split at stepped
  case isTrue =>
    cases stepped
    exact coherent
  case isFalse =>
    split at stepped
    case h_1 found near =>
      cases stepped
      exact coherent.await ⟨_, List.mem_singleton_self _, coherent.handle, .refl _,
        measures _ _ _ _ near⟩
    case h_2 =>
      cases stepped
      exact coherent

/-- A search translates the keys it found. -/
theorem translate (coherent : crowd.Coherent arithmetic distance) {i : Nat}
    (stepped : crowd.Step neural arithmetic embedder (.translate i) next) :
    next.Coherent arithmetic distance := by
  rw [Step, advance] at stepped
  split at stepped
  case h_1 query found seen task =>
    cases stepped
    have current := coherent.tasks _ (List.mem_of_getElem? task)
    refine { coherent.leave i with answers := fun answer member => ?_ }
    rcases List.mem_append.mp member with old | new
    · exact coherent.answers answer old
    · rw [List.mem_singleton.mp new]
      exact current.honest
  case h_2 => cases stepped

/-- A removal drops the key from the keymap. -/
theorem forget (coherent : crowd.Coherent arithmetic distance) {id : ItemId}
    (stepped : crowd.Step neural arithmetic embedder (.forget id) next) :
    next.Coherent arithmetic distance := by
  rw [Step, advance] at stepped
  split at stepped
  case h_1 key named =>
    cases stepped
    have moves : crowd.handle.pair.Moves (VectorIndex.pair { crowd.handle with
        keymap := crowd.handle.keymap.forget id key }) := .single (.forget named)
    have issued := coherent.handle.wellFormed.issued id key named
    refine (coherent.arrive moves (coherent.ready.moves moves)).await ⟨issued, ?_⟩
    exact Finmap.lookup_erase _ _
  case h_2 =>
    cases stepped
    exact coherent.await trivial

/-- A removal takes the vector out of the graph. -/
theorem erase (coherent : crowd.Coherent arithmetic distance) {i : Nat} {fails : Bool}
    (stepped : crowd.Step neural arithmetic embedder (.erase i fails) next) :
    next.Coherent arithmetic distance := by
  rw [Step, advance] at stepped
  split at stepped
  case h_1 id key task =>
    obtain ⟨issued, unnamed⟩ := coherent.tasks _ (List.mem_of_getElem? task)
    split at stepped
    case isTrue =>
      cases stepped
      exact coherent.leave i
    case isFalse =>
      cases stepped
      have free : ∀ other, crowd.handle.pair.keymap.reverse.lookup other ≠ some key := by
        intro other named
        rw [(coherent.handle.wellFormed.inverse other key).mp named] at unnamed
        cases unnamed
      have moves : crowd.handle.pair.Moves (VectorIndex.pair { crowd.handle with
          inner := crowd.handle.inner.erase key }) := .single (.erase issued free)
      have erased := ((coherent.leave i).arrive moves (coherent.ready.moves moves)).await
        (show Task.Current distance _ (.dequeuing id true) from trivial)
      refine { erased with evictions := fun eviction member => ?_ }
      rcases List.mem_append.mp member with old | new
      · exact coherent.evictions eviction old
      · rw [List.mem_singleton.mp new]
        intro owner named
        rw [show crowd.handle.keymap.forward.lookup key = none from unnamed] at named
        cases named
  case h_2 => cases stepped

/-- A removal is taken out of the queue. -/
theorem dequeue (coherent : crowd.Coherent arithmetic distance) {i : Nat}
    (stepped : crowd.Step neural arithmetic embedder (.dequeue i) next) :
    next.Coherent arithmetic distance := by
  rw [Step, advance] at stepped
  split at stepped
  case h_1 id present task =>
    cases stepped
    have same : crowd.handle.pair.Moves (VectorIndex.pair { crowd.handle with
        pending := crowd.handle.pending.filter fun entry => entry.1 ≠ id }) := .refl
    have dequeued := (coherent.leave i).arrive same coherent.ready
    cases present with
    | true => exact dequeued.await (show Task.Current distance _ (.burying id) from trivial)
    | false => exact dequeued
  case h_2 => cases stepped

/-- A removal is remembered. -/
theorem bury (coherent : crowd.Coherent arithmetic distance) {i : Nat}
    (stepped : crowd.Step neural arithmetic embedder (.bury i) next) :
    next.Coherent arithmetic distance := by
  rw [Step, advance] at stepped
  split at stepped
  case h_1 id task =>
    cases stepped
    have same : crowd.handle.pair.Moves (VectorIndex.pair { crowd.handle with
        tombstones := id :: crowd.handle.tombstones }) := .refl
    exact (coherent.leave i).arrive same coherent.ready
  case h_2 => cases stepped

/-- A commit takes the file lock. -/
theorem begin (coherent : crowd.Coherent arithmetic distance) {endOfBatch : Bool}
    (stepped : crowd.Step neural arithmetic embedder (.begin endOfBatch) next) :
    next.Coherent arithmetic distance := by
  rw [Step, advance] at stepped
  split at stepped
  case h_1 => cases stepped
  case h_2 idle =>
    cases stepped
    have ready := coherent.ready
    rw [idle] at ready
    exact { coherent with ready := ready }

/-- A reload that swaps nothing only passes on. -/
theorem reloading_current {faults : List Bool} (current : crowd.swaps = false)
    (committing : crowd.committer = some .reloading) :
    Phase.reloading.run.exec ⟨faults, crowd.dir, [], crowd.handle⟩ =
      (.ok (some .absorbing), ⟨faults, crowd.dir, [], crowd.handle⟩) := by
  have ran : reloadIfStale.exec ⟨faults, crowd.dir, [], crowd.handle⟩ =
      (.ok ⟨⟩, ⟨faults, crowd.dir, [], crowd.handle⟩) := by
    rw [reloadIfStale, Effect.exec_bind_ok (Effect.exec_get _)]
    split
    case h_1 => rfl
    case h_2 keymap present =>
      have present : crowd.dir.keymap = some keymap := present
      rw [swaps, committing, present] at current
      rw [if_pos (not_not.mp (of_decide_eq_false current))]
      rfl
  rw [Phase.run, Effect.exec_bind_ok ran]
  rfl

/-- The commit does its next section. -/
theorem proceed (coherent : crowd.Coherent arithmetic distance) {faults : List Bool}
    (calm : crowd.Calm (.proceed faults))
    (stepped : crowd.Step neural arithmetic embedder (.proceed faults) next) :
    next.Coherent arithmetic distance := by
  rw [Step, advance] at stepped
  split at stepped
  case h_1 => cases stepped
  case h_2 phase committing =>
    have ready := coherent.ready
    rw [committing] at ready
    cases swapping : crowd.swaps with
    | true =>
      have reloading : phase = .reloading := by
        rw [swaps, committing] at swapping
        cases phase with
        | reloading => rfl
        | begun | draining | appending | measuring | absorbing | inserting | snapshotting
        | renamingGraph | serialising | renamingKeymap | clearing | finishing => cases swapping
      subst reloading
      have swapped : ∀ after : Session, after.InOrder Pair.Ordered Pair.Ordered →
          ∀ committer : Option Phase, Phase.Ready after.dir after.handle.pair committer →
          Coherent arithmetic distance { crowd.arrive after.dir after.handle with committer } := by
        intro after inOrder committer ready
        refine { coherent with handle := inOrder.handle, ready := ready, tasks := fun task member => ?_ }
        obtain ⟨before, old, rfl⟩ := List.mem_map.mp member
        have quiet := calm swapping before old
        cases before with
        | translating | erasing => cases quiet
        | dequeuing | burying => trivial
      have reloads : Triple (Session.InOrder Pair.Ordered Pair.Ordered) Phase.reloading.run
          (fun next session => session.InOrder Pair.Ordered Pair.Ordered ∧
            Phase.Ready session.dir session.handle.pair next)
          (fun _ session => session.InOrder Pair.Ordered Pair.Ordered) :=
        orderly_next (.reloadIfStale Pair.Ordered.invariant) fun _ _ ready => ready
      obtain ⟨returns, throws⟩ := reloads ⟨faults, crowd.dir, [], crowd.handle⟩
        ⟨coherent.handle, ready⟩
      split at stepped
      case h_1 following after ran =>
        cases stepped
        obtain ⟨inOrder, ready⟩ := returns following after ran
        exact swapped after inOrder following ready
      case h_2 error after ran =>
        cases stepped
        have inOrder := throws error after ran
        exact swapped after inOrder none inOrder.dir
    | false =>
      by_cases reloading : phase = .reloading
      · subst reloading
        rw [reloading_current swapping committing] at stepped
        cases stepped
        exact coherent.arrive .refl ready
      · obtain ⟨returns, throws⟩ := Phase.advances coherent.handle phase reloading
          ⟨faults, crowd.dir, [], crowd.handle⟩ ⟨rfl, ready⟩
        split at stepped
        case h_1 following after ran =>
          cases stepped
          obtain ⟨moves, ready⟩ := returns following after ran
          exact coherent.arrive moves ready
        case h_2 error after ran =>
          cases stepped
          obtain ⟨moves, ordered⟩ := throws error after ran
          exact coherent.arrive moves ordered

/-- Another handle does something. -/
theorem other (coherent : crowd.Coherent arithmetic distance) {operation : FaultyOperation}
    (stepped : crowd.Step neural arithmetic embedder (.other operation) next) :
    next.Coherent arithmetic distance := by
  rw [Step, advance] at stepped
  split at stepped
  case isTrue => cases stepped
  case isFalse free =>
    obtain ⟨⟨outcome, world⟩, attempted, rfl⟩ := Option.map_eq_some_iff.mp stepped
    cases locks : operation.locks with
    | true =>
      have idle : crowd.committer = none := by
        rw [locks] at free
        simpa using free
      have ready := coherent.ready
      rw [idle] at ready
      have inOrder : World.InOrder Pair.Ordered ⟨crowd.dir, crowd.others⟩ := ⟨ready, coherent.others⟩
      obtain ⟨kept, _⟩ := inOrder.attempt Pair.Ordered.invariant attempted
      refine { coherent with others := kept.handles, ready := ?_ }
      rw [idle]
      exact kept.dir
    | false =>
      obtain ⟨same, others⟩ := World.attempt_unlocked coherent.others locks attempted
      exact { coherent with others := others, ready := coherent.ready.of_pair same }

end Crowd.Coherent

/-- **Where no reload swaps graph and keymap between the two sections of a search or a
removal**, every hit has the score of a vector that its item had during the call, and no
removal takes out a vector of another item. -/
theorem calm_run_keeps_keys (measures : neural.Measures distance) {labels : List CrowdStep}
    {start final : Crowd} (opened : start.Opened embedder)
    (run : Run (Crowd.CalmStep neural arithmetic embedder) start labels final) :
    (∀ answer ∈ final.answers, answer.Honest arithmetic distance) ∧
      ∀ eviction ∈ final.evictions, eviction.Own := by
  have initially : start.Coherent arithmetic distance := by
    obtain ⟨past, world, faults, after, history, ran, rfl⟩ := opened
    have inOrder := World.InOrder.run Pair.Ordered.invariant history
    obtain ⟨returns, _⟩ := Orderly.open Pair.Ordered.invariant embedder
      ⟨faults, world.dir, [], .blank⟩ ⟨Pair.ordered_cleared .default, inOrder.dir⟩
    have kept := returns _ _ ran
    exact ⟨kept.handle, inOrder.handles, kept.dir, by simp, by simp, by simp⟩
  have coherent := run.invariant (fun state label next coherent stepped => by
    obtain ⟨calm, stepped⟩ := stepped
    cases label with
    | add => exact Crowd.Coherent.add coherent stepped
    | query => exact Crowd.Coherent.query coherent measures stepped
    | translate => exact Crowd.Coherent.translate coherent stepped
    | forget => exact Crowd.Coherent.forget coherent stepped
    | erase => exact Crowd.Coherent.erase coherent stepped
    | dequeue => exact Crowd.Coherent.dequeue coherent stepped
    | bury => exact Crowd.Coherent.bury coherent stepped
    | begin => exact Crowd.Coherent.begin coherent stepped
    | proceed => exact Crowd.Coherent.proceed coherent calm stepped
    | other => exact Crowd.Coherent.other coherent stepped) initially
  exact ⟨coherent.answers, coherent.evictions⟩

/-- One in single precision. -/
def one : F32 := 0x3F800000#32

/-- Subtraction of zero and of equals. -/
def axisArithmetic : Arithmetic where
  ofNat count := if count = 1 then one else 0
  add left _ := left
  sub left right := if right = 0 then left else 0
  div left _ := left
  compare _ _ := none

/-- The cosine distance of two unit vectors on axes. -/
def axisDistance (query stored : List F32) : F32 := if query = stored then 0 else one

/-- A search that looks at the first keys. -/
def axisEngine : SemanticEngine where
  embed _ := .ok []
  neighbours graph vector count :=
    .ok (((List.range 16).filterMap fun key =>
      (graph.lookup key).map fun stored => (key, axisDistance vector stored)).take count)

theorem axisEngine_measures : axisEngine.Measures axisDistance := by
  rintro graph vector count _ ⟨⟩ near member
  obtain ⟨key, _, measured⟩ := List.mem_filterMap.mp (List.mem_of_mem_take member)
  obtain ⟨stored, held, rfl⟩ := Option.map_eq_some_iff.mp measured
  exact ⟨stored, held, rfl⟩

def east : List F32 := [one, 0]

def north : List F32 := [0, one]

/-- A handle that was opened on a fresh directory. -/
def justOpened (embedder : Embedder) : Option Crowd :=
  (returned (VectorIndex.open embedder) .fresh .blank).map fun after =>
    ⟨after.dir, after.handle, none, [], [], [], []⟩

theorem justOpened_opened {crowd : Crowd} (opened : justOpened embedder = some crowd) :
    crowd.Opened embedder := by
  obtain ⟨after, ran, rfl⟩ := Option.map_eq_some_iff.mp opened
  exact ⟨[], .fresh, [], after, .done _, exec_of_returned ran, rfl⟩

/-- An item is added here and another one by a handle that compacts. -/
def bothAdd : List CrowdStep :=
  [.add [(⟨7⟩, east)] [], .other (.open []), .other (.act 0 (.add [(⟨8⟩, north)]) []),
    .other (.act 0 .compact [])]

/-- A search is over before the reload; one item is searched and removed after it. -/
def settledCalls : List CrowdStep :=
  bothAdd ++ [.query east 1, .translate 0, .begin true, .proceed [], .proceed [], .query east 2,
    .forget ⟨7⟩, .translate 0, .erase 0 false, .dequeue 0, .bury 0]

/-- The searches answer with what their items had, and the removal takes out its own. -/
theorem calm_run_keeps_keys_settledCalls : ∃ start final, start.Opened ⟨"", 2⟩ ∧
    Run (Crowd.CalmStep axisEngine axisArithmetic ⟨"", 2⟩) start settledCalls final ∧
      final.answers.length = 2 ∧ final.evictions.length = 1 ∧
      (∀ answer ∈ final.answers, answer.Honest axisArithmetic axisDistance) ∧
        ∀ eviction ∈ final.evictions, eviction.Own := by
  let guarded (crowd : Crowd) (step : CrowdStep) : Option Crowd :=
    if crowd.Calm step then crowd.advance axisEngine axisArithmetic ⟨"", 2⟩ step else none
  obtain ⟨final, played, counted⟩ := Option.map_eq_some_iff.mp
    (show Option.map (fun final : Crowd => (final.answers.length, final.evictions.length))
      ((justOpened ⟨"", 2⟩).bind fun start => Run.play guarded start settledCalls) = some (2, 1) by
        decide +kernel)
  obtain ⟨start, opened, played⟩ := Option.bind_eq_some_iff.mp played
  have run : Run (Crowd.CalmStep axisEngine axisArithmetic ⟨"", 2⟩) start settledCalls final := by
    refine (Run.of_play played).mono fun crowd step next advanced => ?_
    change (if crowd.Calm step then _ else _) = _ at advanced
    split at advanced
    case isTrue calm => exact ⟨calm, advanced⟩
    case isFalse => cases advanced
  obtain ⟨answered, evicted⟩ := Prod.mk.inj counted
  exact ⟨start, final, justOpened_opened opened, run, answered, evicted,
    calm_run_keeps_keys axisEngine_measures (justOpened_opened opened) run⟩

/-- A reload renumbers the items while a search and a removal are between their sections. -/
def crossedCalls : List CrowdStep :=
  bothAdd ++ [.query east 1, .forget ⟨7⟩, .begin true, .proceed [], .proceed [], .translate 0,
    .erase 0 false]

/-- **Crossed by a reload**, the search answers with an item that never had the score, and
the removal takes out the other item's vector. -/
theorem keys_leak_across_a_reload : ∃ start final answer eviction, start.Opened ⟨"", 2⟩ ∧
    Run (Crowd.Step axisEngine axisArithmetic ⟨"", 2⟩) start crossedCalls final ∧
      answer ∈ final.answers ∧ ¬ answer.Honest axisArithmetic axisDistance ∧
      eviction ∈ final.evictions ∧ ¬ eviction.Own := by
  have leaks : ((justOpened ⟨"", 2⟩).bind fun start => Run.play
      (fun crowd step => crowd.advance axisEngine axisArithmetic ⟨"", 2⟩ step) start
        crossedCalls).any (fun final =>
      final.answers.any (fun answer => answer.hits.any fun hit => answer.seen.all fun pair =>
        (pair.view hit.id).all fun vector =>
          hit.score ≠ axisArithmetic.sub (axisArithmetic.ofNat 1) (axisDistance answer.query vector)) ∧
      final.evictions.any fun eviction => eviction.owner.any (· ≠ eviction.removed)) = true := by
    decide +kernel
  obtain ⟨final, played, facts⟩ := (Option.any_eq_true _ _).mp leaks
  obtain ⟨start, opened, played⟩ := Option.bind_eq_some_iff.mp played
  obtain ⟨answered, evicted⟩ := of_decide_eq_true facts
  obtain ⟨answer, answerIn, wrong⟩ := List.any_eq_true.mp answered
  obtain ⟨hit, hitIn, wrong⟩ := List.any_eq_true.mp wrong
  obtain ⟨eviction, evictionIn, stolen⟩ := List.any_eq_true.mp evicted
  obtain ⟨owner, named, different⟩ := (Option.any_eq_true _ _).mp stolen
  refine ⟨start, final, answer, eviction, justOpened_opened opened, Run.of_play played, answerIn,
    fun honest => ?_, evictionIn, fun own => ?_⟩
  · obtain ⟨pair, seen, vector, read, scored⟩ := honest hit hitIn
    have never := (Option.all_eq_true _ _).mp (List.all_eq_true.mp wrong pair seen) vector read
    exact of_decide_eq_true never scored
  · exact of_decide_eq_true different (own owner named)

end Singularmem.Search
