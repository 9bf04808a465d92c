import Singularmem.Search.CommitPhases
import Singularmem.Search.FaultyRuns
import Singularmem.Search.HybridQuery

/-!
# Calls split at their lock boundaries

The threads of one handle search, add, remove and commit. A search queries the graph in one
critical section and translates the keys in a later one; a removal drops the key from the
keymap in one section and the vector from the graph in a later one. A commit goes through
its phases with the file lock held. Other handles use the directory whenever the lock is
free, and their memory at any time.

Of every call between two sections the pairs that the handle held since the call began are
kept, for what is said of its answer.
-/

namespace Singularmem.Search

open Library Singularmem.Core

/-- What is left to do of a call that holds no lock. -/
inductive Task
  /-- The graph was queried. -/
  | translating (query : List F32) (found : List (Nat × F32)) (seen : List Pair)
  /-- The key was dropped from the keymap. -/
  | erasing (id : ItemId) (key : Nat)
  /-- The removal is to be taken out of the queue. -/
  | dequeuing (id : ItemId) (present : Bool)
  /-- The removal is to be remembered. -/
  | burying (id : ItemId)

/-- A search that returned, with the pairs that the handle held meanwhile. -/
structure Answer where
  query : List F32
  hits : List SemanticHit
  seen : List Pair

/-- A vector that a removal took out of the graph, with the item its key then named. -/
structure Eviction where
  removed : ItemId
  owner : Option ItemId

/-- A handle with the calls of its threads, a directory and its other handles. -/
structure Crowd where
  dir : Directory
  handle : VectorIndex
  committer : Option Phase
  tasks : List Task
  others : List (Option VectorIndex)
  answers : List Answer
  evictions : List Eviction

/-- What a thread does next, or another handle. Tasks are named by their place. -/
inductive CrowdStep
  | add (entries : List Entry) (faults : List Bool)
  | query (vector : List F32) (count : Nat)
  | translate (task : Nat)
  | forget (id : ItemId)
  | erase (task : Nat) (fails : Bool)
  | dequeue (task : Nat)
  | bury (task : Nat)
  | begin (endOfBatch : Bool)
  | proceed (faults : List Bool)
  | other (operation : FaultyOperation)

/-- The operation waits for the file lock. -/
def FaultyOperation.locks : FaultyOperation → Bool
  | .open _ => true
  | .act _ (.commit _) _ => true
  | .act _ .compact _ => true
  | .act _ _ _ => false

/-- A call goes on while the handle holds this pair. -/
def Task.witness (pair : Pair) : Task → Task
  | translating query found seen => translating query found (seen ++ [pair])
  | task => task

/-- Keys that were found, translated into hits. -/
def Keymap.translate (keymap : Keymap) (arithmetic : Arithmetic) (found : List (Nat × F32)) :
    List SemanticHit :=
  found.filterMap fun (key, distance) =>
    (keymap.forward.lookup key).map fun id =>
      ⟨id, arithmetic.sub (arithmetic.ofNat 1) distance⟩

namespace Crowd

variable (neural : SemanticEngine) (arithmetic : Arithmetic) (embedder : Embedder)

/-- The directory and the handle change; every call under way sees the handle's pair. -/
def arrive (crowd : Crowd) (dir : Directory) (handle : VectorIndex) : Crowd :=
  { crowd with dir, handle, tasks := crowd.tasks.map (Task.witness handle.pair) }

/-- The call has done its last section. -/
def leave (crowd : Crowd) (task : Nat) : Crowd := { crowd with tasks := crowd.tasks.eraseIdx task }

/-- A call has done a section and has more to do. -/
def await (crowd : Crowd) (task : Task) : Crowd := { crowd with tasks := crowd.tasks ++ [task] }

/-- The state after a step. -/
def advance (crowd : Crowd) : CrowdStep → Option Crowd
  | .add entries faults =>
    let after := ((VectorIndex.addBatch entries).exec ⟨faults, crowd.dir, [], crowd.handle⟩).2
    some (crowd.arrive after.dir after.handle)
  | .query vector count =>
    if vector.length ≠ crowd.handle.meta.dim then some crowd
    else
      match neural.neighbours crowd.handle.inner vector count with
      | .ok found => some (crowd.await (.translating vector found [crowd.handle.pair]))
      | .error _ => some crowd
  | .translate i =>
    match crowd.tasks[i]? with
    | some (.translating query found seen) =>
      let hits := crowd.handle.keymap.translate arithmetic found
      some { crowd.leave i with answers := crowd.answers ++ [⟨query, hits, seen⟩] }
    | _ => none
  | .forget id =>
    match crowd.handle.keymap.reverse.lookup id with
    | some key =>
      let keymap := crowd.handle.keymap.forget id key
      some ((crowd.arrive crowd.dir { crowd.handle with keymap }).await (.erasing id key))
    | none => some (crowd.await (.dequeuing id false))
  | .erase i fails =>
    match crowd.tasks[i]? with
    | some (.erasing id key) =>
      if fails then some (crowd.leave i)
      else
        let owner := crowd.handle.keymap.forward.lookup key
        let inner := crowd.handle.inner.erase key
        let erased := ((crowd.leave i).arrive crowd.dir { crowd.handle with inner }).await
          (.dequeuing id true)
        some { erased with evictions := crowd.evictions ++ [⟨id, owner⟩] }
    | _ => none
  | .dequeue i =>
    match crowd.tasks[i]? with
    | some (.dequeuing id present) =>
      let pending := crowd.handle.pending.filter fun entry => entry.1 ≠ id
      let dequeued := (crowd.leave i).arrive crowd.dir { crowd.handle with pending }
      some (if present then dequeued.await (.burying id) else dequeued)
    | _ => none
  | .bury i =>
    match crowd.tasks[i]? with
    | some (.burying id) =>
      let tombstones := id :: crowd.handle.tombstones
      some ((crowd.leave i).arrive crowd.dir { crowd.handle with tombstones })
    | _ => none
  | .begin endOfBatch =>
    match crowd.committer with
    | some _ => none
    | none => some { crowd with committer := some (.begun endOfBatch) }
  | .proceed faults =>
    match crowd.committer with
    | none => none
    | some phase =>
      match phase.run.exec ⟨faults, crowd.dir, [], crowd.handle⟩ with
      | (.ok next, after) =>
        some { crowd.arrive after.dir after.handle with committer := next }
      | (.error _, after) =>
        some { crowd.arrive after.dir after.handle with committer := none }
  | .other operation =>
    if operation.locks ∧ crowd.committer.isSome then none
    else
      (World.attempt embedder ⟨crowd.dir, crowd.others⟩ operation).map fun (_, world) =>
        { crowd with dir := world.dir, others := world.handles }

/-- A step of the threads or of another handle. -/
def Step (crowd : Crowd) (step : CrowdStep) (next : Crowd) : Prop :=
  crowd.advance neural arithmetic embedder step = some next

/-- A search whose sections nothing interleaves. -/
theorem search_uninterrupted (handle : VectorIndex) (vector : List F32) (count : Nat) :
    handle.search neural arithmetic vector count =
      if vector.length ≠ handle.meta.dim then .error (.dimMismatch handle.meta.dim vector.length)
      else (neural.neighbours handle.inner vector count).map
        (handle.keymap.translate arithmetic) := by
  rw [VectorIndex.search]
  split
  · rfl
  · cases neural.neighbours handle.inner vector count with
    | error error => rfl
    | ok found => rfl

/-- A removal whose sections nothing interleaves. -/
theorem remove_uninterrupted {crowd : Crowd} {id : ItemId} {key : Nat} (idle : crowd.tasks = [])
    (named : crowd.handle.keymap.reverse.lookup id = some key) :
    ∃ final, Run.play (fun crowd step => crowd.advance neural arithmetic embedder step) crowd
        [.forget id, .erase 0 false, .dequeue 0, .bury 0] = some final ∧ final.tasks = [] ∧
      (VectorIndex.remove id).exec ⟨[], crowd.dir, [], crowd.handle⟩ =
        (.ok ⟨⟩, ⟨[], crowd.dir, [], final.handle⟩) := by
  obtain ⟨dir, handle, committer, tasks, others, answers, evictions⟩ := crowd
  obtain rfl : tasks = [] := idle
  have named : handle.keymap.reverse.lookup id = some key := named
  have removed : (removeKey id).exec ⟨[], dir, [], handle⟩ = (.ok true, ⟨[], dir, [],
      { handle with keymap := handle.keymap.forget id key, inner := handle.inner.erase key }⟩) := by
    rw [removeKey, Effect.exec_bind_ok (Effect.exec_get _)]
    simp only [named]
    rw [Effect.exec_bind_ok (exec_updateHandle _ _), Effect.exec_bind_ok (exec_onIndex_call _)]
    rfl
  refine ⟨⟨dir, { handle with
      keymap := handle.keymap.forget id key, inner := handle.inner.erase key
      pending := handle.pending.filter fun entry => entry.1 ≠ id
      tombstones := id :: handle.tombstones }, committer, [], others, answers,
    evictions ++ [⟨id, (handle.keymap.forget id key).forward.lookup key⟩]⟩, ?_, rfl, ?_⟩
  · simp only [Run.play, advance, named]
    rfl
  · rw [VectorIndex.remove, Effect.exec_bind_ok removed]
    rfl

/-- A handle that was just opened, on a directory that other handles use. -/
def Opened (crowd : Crowd) : Prop :=
  ∃ (past : List FaultyOperation) (world : World) (faults : List Bool) (after : Session),
    Run (World.FaultyStep embedder) .fresh past world ∧
      (VectorIndex.open embedder).exec ⟨faults, world.dir, [], .blank⟩ = (.ok ⟨⟩, after) ∧
      crowd = ⟨after.dir, after.handle, none, [], world.handles, [], []⟩

end Crowd

end Singularmem.Search
