import Singularmem.Search.Openable

/-!
# Runs with failures and kills

Handles are opened, used and killed in any order, and any call of the graph
library may fail. A killed call leaves the file steps it had done and a part of
the write it was in the middle of; its handle is gone, the others go on.
-/

namespace Singularmem.Search

open Library Singularmem.Core

/-- What a process is asked to do: open a handle of its own, or use one. -/
inductive Call
  | «open»
  | act (handle : Nat) (action : Action)

/-- A call runs to its end, whatever it returns, or is killed after some of its
file steps and some bytes of the next write. `faults` schedules the failures of
the graph library. -/
inductive Event
  | finish (call : Call) (faults : List Bool)
  | kill (call : Call) (faults : List Bool) (done cut : Nat)

/-- What a killed operation leaves. -/
def Directory.killed (dir : Directory) (steps : List FileStep) (done cut : Nat) : Directory :=
  dir.after (steps.take done ++ (steps[done]?.bind (FileStep.cut cut)).toList)

/-- The code a call runs and the session it starts in. -/
def World.start (embedder : Embedder) (world : World) (faults : List Bool) :
    Call → Option (Op PUnit × Session)
  | .open => some (VectorIndex.open embedder, ⟨faults, world.dir, [], .blank⟩)
  | .act i action =>
    world.handles[i]?.join.map fun handle => (action.run, ⟨faults, world.dir, [], handle⟩)

/-- The handle a finished call leaves: an open that failed leaves none. -/
def Call.survivor (outcome : Except Error PUnit) (handle : VectorIndex) : Call → Option VectorIndex
  | .open => outcome.toOption.map fun _ => handle
  | .act _ _ => some handle

/-- The world a call leaves. -/
def World.settle (world : World) (dir : Directory) (slot : Option VectorIndex) : Call → World
  | .open => ⟨dir, world.handles ++ [slot]⟩
  | .act i _ => ⟨dir, world.handles.set i slot⟩

/-- The world after an event. -/
def World.turn (embedder : Embedder) (world : World) : Event → Option World
  | .finish call faults =>
    (world.start embedder faults call).map fun (action, session) =>
      let (outcome, after) := action.exec session
      world.settle after.dir (call.survivor outcome after.handle) call
  | .kill call faults done cut =>
    (world.start embedder faults call).map fun (action, session) =>
      world.settle (world.dir.killed (action.exec session).2.steps done cut) none call

/-- The file steps a call would take. -/
def World.stepsOf (embedder : Embedder) (world : World) (call : Call) (faults : List Bool) :
    List FileStep :=
  match world.start embedder faults call with
  | some (action, session) => (action.exec session).2.steps
  | none => []

/-- The event does not kill a call between the creation of `journal.bin` and the
end of the write of its header. -/
def World.Spares (embedder : Embedder) (world : World) : Event → Prop
  | .finish _ _ => True
  | .kill call faults done cut =>
    ((world.stepsOf embedder call faults).take done).getLast? = some .createJournal →
      embedder.header.headerLen ≤ cut

/-- The invariant: the directory is sane and every handle writes the embedder's
metadata and header. -/
structure World.Safe (embedder : Embedder) (world : World) : Prop where
  sane : world.dir.Sane embedder
  suits : ∀ (i : Nat) (handle : VectorIndex), world.handles[i]? = some (some handle) →
    handle.Suits embedder

variable {embedder : Embedder}

/-- A killed operation leaves a sane directory, unless the header was cut. -/
theorem CrashSafe.killed {start : Directory} {steps : List FileStep}
    (safe : CrashSafe embedder start steps) (done cut : Nat)
    (spared : (steps.take done).getLast? = some .createJournal → embedder.header.headerLen ≤ cut) :
    (start.killed steps done cut).Sane embedder := by
  have split : steps = steps.take done ++ steps.drop done := (List.take_append_drop done steps).symm
  rw [Directory.killed]
  rcases safe _ _ split with sane | ⟨created, due⟩
  · cases next : steps[done]? with
    | none => simpa using sane
    | some step =>
      cases step with
      | writeJournal bytes =>
        rw [Option.bind_some, FileStep.cut, Option.toList_some, Directory.after_append]
        exact sane.writeJournal _
      | createTemp | removeTemp | renameMeta | renameUsearch | removeUsearch | renameKeymap
      | createJournal | setLenJournal => simpa [FileStep.cut] using sane
  · rw [List.head?_drop] at due
    have whole : embedder.header.encoded.take cut = embedder.header.encoded :=
      List.take_of_length_le (spared created)
    have next : steps.take done ++ [.writeJournal embedder.header.encoded] =
        steps.take (done + 1) := by
      rw [List.take_add_one, due, Option.toList_some]
    rw [due, Option.bind_some, FileStep.cut, Option.toList_some, whole, next]
    rcases safe _ _ (List.take_append_drop (done + 1) steps).symm with sane | ⟨again, _⟩
    · exact sane
    · rw [← next] at again
      simp at again

/-- A directory whose header was cut is not opened. -/
theorem CrashSafe.killed_unopenable {start : Directory} {steps : List FileStep}
    (safe : CrashSafe embedder start steps) {done cut : Nat}
    (created : (steps.take done).getLast? = some .createJournal)
    (short : cut < embedder.header.headerLen) :
    ¬ (start.killed steps done cut).Opens embedder := by
  have empty := @journal_of_created start _ created
  rcases safe _ _ (List.take_append_drop done steps).symm with sane | ⟨_, due⟩
  · obtain ⟨_, nothing⟩ := sane.journal [] empty
    have length := congrArg List.length (List.prefix_nil.mp nothing)
    exact absurd (header_pos embedder.header) (by
      rw [JournalHeader.headerLen, length]
      exact Nat.lt_irrefl 0)
  · rw [List.head?_drop] at due
    have whole := safe.killed done embedder.header.headerLen fun _ => Nat.le_refl _
    have written : ∀ length, (start.killed steps done length).journal =
        some (embedder.header.encoded.take length) := by
      intro length
      rw [Directory.killed, due, Option.bind_some, FileStep.cut, Option.toList_some,
        Directory.after_append]
      change (start.after (steps.take done)).journal.map _ = _
      rw [empty]
      rfl
    exact not_opens_of_cut (whole.journal _ (written _)).1 short (written cut)

namespace World.Safe

variable {world next : World}

/-- Nobody has opened a fresh directory. -/
theorem fresh (embedder : Embedder) : World.fresh.Safe embedder :=
  ⟨.fresh embedder, by simp [World.fresh]⟩

/-- Whatever a call does is crash safe. -/
theorem started (safe : world.Safe embedder) {call : Call} {faults : List Bool}
    {action : Op PUnit} {session : Session}
    (started : world.start embedder faults call = some (action, session)) :
    (action.exec session).2.Keeps embedder world.dir (call ≠ .open) := by
  cases call with
  | «open» =>
    obtain ⟨rfl, rfl⟩ := Prod.mk.inj (Option.some.inj started)
    have keeps := Session.Keeps.open _ (@Session.Keeps.begin embedder world.dir False faults .blank
      safe.sane fun impossible => impossible.elim)
    exact ⟨keeps.reached, keeps.safe, fun opened => absurd rfl opened⟩
  | act i action =>
    obtain ⟨handle, held, same⟩ := Option.map_eq_some_iff.mp started
    obtain ⟨rfl, rfl⟩ := Prod.mk.inj same
    have suits := safe.suits i handle (Option.join_eq_some_iff.mp held)
    exact Session.Keeps.action (by simp) action _ (.begin safe.sane fun _ => suits)

/-- A world is safe after a call when its directory is sane and the handle left by
the call suits. -/
theorem settle (safe : world.Safe embedder) {dir : Directory} (sane : dir.Sane embedder)
    {slot : Option VectorIndex} (suits : ∀ handle, slot = some handle → handle.Suits embedder)
    (call : Call) : (world.settle dir slot call).Safe embedder := by
  refine ⟨by cases call <;> exact sane, ?_⟩
  intro i handle present
  cases call with
  | «open» =>
    rcases World.Consistent.concat_split present with old | ⟨_, same⟩
    · exact safe.suits i handle old
    · exact suits handle same
  | act j action =>
    rcases World.Consistent.set_split present with ⟨_, same⟩ | ⟨_, old⟩
    · exact suits handle same
    · exact safe.suits i handle old

/-- What every event preserves that does not cut a header. -/
theorem turn (safe : world.Safe embedder) {event : Event}
    (turned : world.turn embedder event = some next) (spares : world.Spares embedder event) :
    next.Safe embedder := by
  cases event with
  | finish call faults =>
    obtain ⟨⟨action, session⟩, began, rfl⟩ := Option.map_eq_some_iff.mp turned
    have keeps := safe.started began
    refine safe.settle keeps.sane ?_ call
    intro handle left
    cases call with
    | «open» =>
      obtain ⟨rfl, rfl⟩ := Prod.mk.inj (Option.some.inj began)
      change Call.survivor ((VectorIndex.open embedder).exec _).1
        ((VectorIndex.open embedder).exec _).2.handle .open = some handle at left
      rcases ran : (VectorIndex.open embedder).exec ⟨faults, world.dir, [], .blank⟩ with
        ⟨error | value, after⟩
      · rw [ran] at left
        exact absurd left (by simp [Call.survivor, Except.toOption])
      · rw [ran] at left
        obtain rfl : after.handle = handle := Option.some.inj left
        exact suits_of_open safe.sane ran
    | act i action =>
      obtain rfl := Option.some.inj left
      exact keeps.suits (by simp)
  | kill call faults done cut =>
    obtain ⟨⟨action, session⟩, began, rfl⟩ := Option.map_eq_some_iff.mp turned
    have keeps := safe.started began
    rw [World.Spares, World.stepsOf, began] at spares
    exact safe.settle (keeps.safe.killed done cut spares) (by simp) call

/-- The next open fails after a kill that cut a header. -/
theorem turn_unopenable (safe : world.Safe embedder) {event : Event}
    (turned : world.turn embedder event = some next) (cut : ¬ world.Spares embedder event) :
    ¬ next.dir.Opens embedder := by
  cases event with
  | finish call faults => exact absurd trivial cut
  | kill call faults done length =>
    obtain ⟨⟨action, session⟩, began, rfl⟩ := Option.map_eq_some_iff.mp turned
    have keeps := safe.started began
    rw [World.Spares, World.stepsOf, began, Classical.not_imp, Nat.not_le] at cut
    have closed := keeps.safe.killed_unopenable cut.1 cut.2
    cases call <;> exact closed

end World.Safe

section Runs

variable {events : List Event} {world next : World}

/-- One event of a run. -/
def World.Turn (embedder : Embedder) (world : World) (event : Event) (next : World) : Prop :=
  world.turn embedder event = some next

/-- One event of a run that cuts no header. -/
def World.SparingTurn (embedder : Embedder) (world : World) (event : Event) (next : World) : Prop :=
  world.Turn embedder event next ∧ world.Spares embedder event

/-- The world after several events, computed. -/
def World.turns (embedder : Embedder) (world : World) : List Event → Option World
  | [] => some world
  | event :: rest => (world.turn embedder event).bind fun next => next.turns embedder rest

/-- A computed run is a run. -/
theorem World.turns_run (turned : world.turns embedder events = some next) :
    Run (World.Turn embedder) world events next := by
  induction events generalizing world with
  | nil =>
    obtain rfl : world = next := Option.some.inj turned
    exact .done world
  | cons event rest inductionHypothesis =>
    obtain ⟨middle, taken, others⟩ := Option.bind_eq_some_iff.mp turned
    exact .next taken (inductionHypothesis others)

/-- Every run in which no header was cut ends in a safe world. -/
theorem run_safe (run : Run (World.SparingTurn embedder) .fresh events world) :
    world.Safe embedder := by
  refine Run.invariant ?_ run (World.Safe.fresh embedder)
  intro world event next safe turned
  exact safe.turn turned.1 turned.2

/-- **The next open.** After any run of opens, adds, commits and compactions of any
number of handles, any of which may fail or be killed at any point, the next open
returns unless the journal cannot carry the embedder's header or the last call was
killed between creating `journal.bin` and completing its header. Then it fails. -/
theorem opens_iff_header_completed (run : Run (World.SparingTurn embedder) .fresh events world)
    {event : Event} (turned : World.Turn embedder world event next) :
    next.dir.Opens embedder ↔ embedder.header.Accepted ∧ world.Spares embedder event := by
  have safe := run_safe run
  by_cases spares : world.Spares embedder event
  · have sane := (safe.turn turned spares).sane
    rw [sane.opens_iff]
    exact (and_iff_left spares).symm
  · have closed := safe.turn_unopenable turned spares
    exact ⟨fun opens => absurd opens closed, fun both => absurd both.2 spares⟩

/-- A first commit is killed right after the last byte of the journal's header: the
next open returns. -/
theorem opens_after_completed_header :
    ∃ world next, Run (World.SparingTurn ⟨"", 1⟩) .fresh
        [.finish .open [], .finish (.act 0 (.add [(⟨7⟩, [1])])) []] world ∧
      World.Turn ⟨"", 1⟩ world (.kill (.act 0 (.commit false)) [] 1 12) next ∧
      next.dir.Opens ⟨"", 1⟩ := by
  obtain ⟨next, turned⟩ := Option.isSome_iff_exists.mp (show (World.fresh.turns ⟨"", 1⟩
      [.finish .open [], .finish (.act 0 (.add [(⟨7⟩, [1])])) [],
        .kill (.act 0 (.commit false)) [] 1 12]).isSome by decide +kernel)
  obtain ⟨opened, opening, rest⟩ := Option.bind_eq_some_iff.mp turned
  obtain ⟨world, adding, rest⟩ := Option.bind_eq_some_iff.mp rest
  obtain ⟨killed, killing, rest⟩ := Option.bind_eq_some_iff.mp rest
  obtain rfl : killed = next := Option.some.inj rest
  have run : Run (World.SparingTurn ⟨"", 1⟩) .fresh
      [.finish .open [], .finish (.act 0 (.add [(⟨7⟩, [1])])) []] world :=
    .next ⟨opening, trivial⟩ (.next ⟨adding, trivial⟩ (.done world))
  exact ⟨world, killed, run, killing,
    (opens_iff_header_completed run killing).mpr ⟨by decide, fun _ => by decide⟩⟩

/-- **A cut header.** The first commit of a directory is killed right after it
created `journal.bin`: the next open fails. -/
theorem cut_header_is_refused :
    ¬ ∀ (embedder : Embedder) (events : List Event) (world : World),
      embedder.header.Accepted → Run (World.Turn embedder) .fresh events world →
      world.dir.Opens embedder := by
  intro claimed
  have killed : (World.fresh.turns ⟨"", 1⟩
      [.finish .open [], .finish (.act 0 (.add [(⟨7⟩, [1])])) [],
        .kill (.act 0 (.commit false)) [] 1 0]).any (fun world =>
      ((VectorIndex.open ⟨"", 1⟩).exec ⟨[], world.dir, [], .blank⟩).1.toOption.isNone) = true := by
    decide +kernel
  obtain ⟨world, turned, refused⟩ := (Option.any_eq_true _ _).mp killed
  obtain ⟨after, opened⟩ := claimed ⟨"", 1⟩ _ world (by decide) (World.turns_run turned)
  rw [opened] at refused
  exact absurd refused (by simp [Except.toOption])

end Runs

end Singularmem.Search
