import Singularmem.Search.KeptPairs
import Singularmem.Search.SharedDirectory

/-!
# Runs with failures of the graph library

Any number of handles open, add, remove, commit and compact in any order, and any call of
the graph library may fail. In the published pair and in that of each handle the keymap is
inverse, its keys are held, and every key of the graph was issued.
-/

namespace Singularmem.Search

open Library Singularmem.Core Effect

/-- What a handle is asked to do. -/
inductive Request
  | add (entries : List Entry)
  | remove (id : ItemId)
  | commit (endOfBatch : Bool)
  | compact

/-- The code a request runs. -/
def Request.run : Request → Op PUnit
  | add entries => VectorIndex.addBatch entries
  | remove id => VectorIndex.remove id
  | commit endOfBatch => VectorIndex.commit endOfBatch
  | compact => VectorIndex.compact

/-- An operation, with the schedule of the failing calls of the graph library. -/
inductive FaultyOperation
  | «open» (faults : List Bool)
  | act (handle : Nat) (request : Request) (faults : List Bool)

/-- What an operation returns, and the world after it. -/
def World.attempt (embedder : Embedder) (world : World) :
    FaultyOperation → Option (Except Error PUnit × World)
  | .open faults =>
    match (VectorIndex.open embedder).exec ⟨faults, world.dir, [], .blank⟩ with
    | (.ok _, after) => some (.ok ⟨⟩, ⟨after.dir, world.handles ++ [some after.handle]⟩)
    | (.error error, after) => some (.error error, ⟨after.dir, world.handles⟩)
  | .act i request faults =>
    match world.handles[i]? with
    | some (some handle) =>
      let (outcome, after) := request.run.exec ⟨faults, world.dir, [], handle⟩
      some (outcome, ⟨after.dir, world.handles.set i (some after.handle)⟩)
    | _ => none

/-- A step of the handles, whatever it returns. -/
def World.FaultyStep (embedder : Embedder) (world : World) (operation : FaultyOperation)
    (next : World) : Prop :=
  ∃ outcome, world.attempt embedder operation = some (outcome, next)

/-- Every request keeps both pairs good. -/
theorem Orderly.request {good : Pair → Prop} (invariant : Pair.Invariant good) (request : Request) :
    Orderly good good request.run := by
  cases request with
  | add entries => exact .addEntries invariant.toClosed entries true
  | remove id => exact .remove invariant.toClosed id
  | commit endOfBatch => exact .commitLocked invariant endOfBatch
  | compact => exact .commitLocked invariant true

/-- The published pair and those of all handles are good. -/
structure World.InOrder (good : Pair → Prop) (world : World) : Prop where
  dir : good world.dir.pair
  handles : ∀ handle, some handle ∈ world.handles → good handle.pair

namespace World.InOrder

variable {good : Pair → Prop} {embedder : Embedder} {world next : World}

theorem fresh (invariant : Pair.Invariant good) : World.fresh.InOrder good :=
  ⟨invariant.cleared .default, by simp [World.fresh]⟩

/-- Every operation keeps all pairs good, and reports no orphan. -/
theorem attempt (invariant : Pair.Invariant good) (inOrder : world.InOrder good)
    {operation : FaultyOperation} {outcome : Except Error PUnit}
    (attempted : world.attempt embedder operation = some (outcome, next)) :
    next.InOrder good ∧ outcome ≠ .error (.usearch orphanContext) := by
  cases operation with
  | «open» faults =>
    obtain ⟨returns, throws⟩ := Orderly.open invariant embedder
      ⟨faults, world.dir, [], .blank⟩ ⟨invariant.cleared .default, inOrder.dir⟩
    rw [World.attempt] at attempted
    split at attempted
    case h_1 value after ran =>
      cases attempted
      have kept := returns value after ran
      refine ⟨⟨kept.dir, fun handle member => ?_⟩, by simp⟩
      rcases List.mem_append.mp member with old | new
      · exact inOrder.handles handle old
      · obtain rfl := Option.some.inj (List.mem_singleton.mp new)
        exact kept.handle
    case h_2 error after ran =>
      cases attempted
      obtain ⟨other, kept⟩ := throws error after ran
      exact ⟨⟨kept.dir, inOrder.handles⟩, fun orphan => other (Except.error.inj orphan)⟩
  | act i request faults =>
    rw [World.attempt] at attempted
    split at attempted
    case h_1 handle held =>
      obtain ⟨returns, throws⟩ := Orderly.request invariant request
        ⟨faults, world.dir, [], handle⟩
        ⟨inOrder.handles handle (List.mem_of_getElem? held), inOrder.dir⟩
      rcases ran : request.run.exec ⟨faults, world.dir, [], handle⟩ with ⟨error | value, after⟩
      · rw [ran] at attempted
        cases attempted
        obtain ⟨other, kept⟩ := throws error after ran
        refine ⟨⟨kept.dir, fun found member => ?_⟩, fun orphan => other (Except.error.inj orphan)⟩
        rcases List.mem_or_eq_of_mem_set member with old | new
        · exact inOrder.handles found old
        · exact Option.some.inj new ▸ kept.handle
      · rw [ran] at attempted
        cases attempted
        have kept := returns value after ran
        refine ⟨⟨kept.dir, fun found member => ?_⟩, by simp⟩
        rcases List.mem_or_eq_of_mem_set member with old | new
        · exact inOrder.handles found old
        · exact Option.some.inj new ▸ kept.handle
    case h_2 => cases attempted

/-- What holds of a fresh world holds of every world that is reached. -/
theorem run (invariant : Pair.Invariant good) {labels : List FaultyOperation}
    (run : Run (World.FaultyStep embedder) .fresh labels world) : world.InOrder good := by
  refine run.invariant ?_ (fresh invariant)
  rintro state operation next inOrder ⟨outcome, attempted⟩
  exact (attempt invariant inOrder attempted).1

end World.InOrder

/-- **Wherever failures of the graph library leave them**, the published pair and the pair of
every handle are keyed; and no operation meets a key that its graph already holds. -/
theorem pairs_stay_keyed {embedder : Embedder} {labels : List FaultyOperation} {world : World}
    (run : Run (World.FaultyStep embedder) .fresh labels world) :
    world.dir.pair.Keyed ∧ (∀ handle, some handle ∈ world.handles → handle.pair.Keyed) ∧
      ∀ operation outcome next, world.attempt embedder operation = some (outcome, next) →
        outcome ≠ .error (.usearch orphanContext) := by
  have inOrder := World.InOrder.run Pair.Keyed.invariant run
  refine ⟨inOrder.dir, inOrder.handles, fun operation outcome next attempted => ?_⟩
  exact (inOrder.attempt Pair.Keyed.invariant attempted).2

/-- A batch with a repeated item fails at its last vector, a removal fails at the graph, and
a compaction publishes what is left. -/
def failures : List FaultyOperation :=
  [.open [], .act 0 (.add [(⟨7⟩, [1]), (⟨8⟩, [2]), (⟨7⟩, [3])]) [false, false, false, false, true],
    .act 0 (.remove ⟨8⟩) [true], .act 0 .compact [], .open []]

/-- After these failures a second handle is open, and all pairs are keyed. -/
theorem pairs_stay_keyed_after_failures : ∃ world,
    Run (World.FaultyStep ⟨"", 1⟩) .fresh failures world ∧ world.handles.length = 2 ∧
      world.dir.pair.Keyed ∧ ∀ handle, some handle ∈ world.handles → handle.pair.Keyed := by
  obtain ⟨world, played, opened⟩ := Option.map_eq_some_iff.mp
    (show Option.map (fun world : World => world.handles.length)
      (Run.play (fun world operation => (world.attempt ⟨"", 1⟩ operation).map Prod.snd) .fresh
        failures) = some 2 by decide +kernel)
  have run : Run (World.FaultyStep ⟨"", 1⟩) .fresh failures world := by
    refine (Run.of_play played).mono fun state operation next advanced => ?_
    obtain ⟨⟨outcome, _⟩, attempted, rfl⟩ := Option.map_eq_some_iff.mp advanced
    exact ⟨outcome, attempted⟩
  obtain ⟨dir, handles, _⟩ := pairs_stay_keyed run
  exact ⟨world, run, opened, dir, handles⟩

end Singularmem.Search
