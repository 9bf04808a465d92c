import Singularmem.Core.Announcements
import Singularmem.Core.Chronology

/-!
# Runs of calls and the shelf

A call adds what was submitted to the shelf and changes no more of what stands there than a key
or a scope. So what holds of every submission, and does not speak of keys and scopes, holds of
every row in every run.
-/

namespace Singularmem.Core

open Library
open Effect hiding ofExcept

variable {platform : Platform}

/-- What a call submits. -/
def ItemCall.submissions : ItemCall → List NewItem
  | .ingest item => [item]
  | .ingestMany items => items
  | .ingestReplacing item replaces => [{ item with supersedes := some replaces }]
  | .setScope _ _ => []

/-- **What a call did to the shelf**, and where new rows come from. -/
theorem perform_shelf (env : Env) (call : ItemCall) (store : Store) :
    ∃ added, Extends call.movedRow store.database.tables
        (exec (call.perform platform env) store).2.database.tables added ∧
      ∀ known ∈ added, ∃ item ∈ call.submissions, ∃ draw validated,
        validate platform item = .ok validated ∧
          known = shelved platform env draw item validated := by
  have unchanged : ∃ added,
      Extends call.movedRow store.database.tables store.database.tables added ∧
        ∀ known ∈ added, ∃ item ∈ call.submissions, ∃ draw validated,
          validate platform item = .ok validated ∧
            known = shelved platform env draw item validated := ⟨[], .refl _, nofun⟩
  cases call with
  | ingest item =>
    rw [ItemCall.perform, exec_map]
    rcases ran : exec (ingest platform env item) store with ⟨error | stored, after⟩
    · rw [writing_error ran]
      exact unchanged
    · obtain ⟨-, -, -, -, validated, accepted, shelf⟩ := ingest_shelves ran
      refine ⟨_, ⟨_, shelf, List.forall₂_same.mpr fun known _ => .refl known⟩, fun known new => ?_⟩
      exact ⟨item, List.mem_cons_self, 0, validated, accepted, List.mem_singleton.mp new⟩
  | ingestMany items =>
    rw [ItemCall.perform, exec_map]
    rcases ran : exec (ingestMany platform env items) store with ⟨error | stored, after⟩
    · rw [writing_error ran]
      exact unchanged
    · obtain ⟨-, -, -, -, validated, accepted, shelf, -⟩ := ingestMany_shelves ran
      refine ⟨_, ⟨_, shelf, List.forall₂_same.mpr fun known _ => .refl known⟩, fun known new => ?_⟩
      obtain ⟨pair, given, draw, -, same⟩ := mem_shelvedEach new
      exact ⟨pair.1, (List.of_mem_zip given).1, draw, pair.2, mapM_returned_zip accepted pair given,
        same⟩
  | ingestReplacing item replaces =>
    rw [ItemCall.perform, exec_map]
    rcases ran : exec (ingestReplacing platform env item replaces) store with
      ⟨error | stored, after⟩
    · rw [writing_error ran]
      exact unchanged
    · obtain ⟨-, -, -, -, -, validated, accepted, shelf⟩ := ingestReplacing_shelves ran
      refine ⟨_, ⟨_, shelf, keeps_map (keeps_forget replaces) _⟩, fun known new => ?_⟩
      exact ⟨_, List.mem_cons_self, 0, validated, accepted, List.mem_singleton.mp new⟩
  | setScope id scope =>
    rw [ItemCall.perform, exec_map]
    exact ⟨[], setScope_extends rfl, nofun⟩

/-- A property of rows that a change of the key or the scope leaves as it is. -/
def Lasting (property : Shelved → Prop) : Prop :=
  ∀ moved before after, KeepsShelved moved before after → property before → property after

/-- **One call**: a lasting property of what it submits and of what stands on the shelf holds
of what stands there afterwards. -/
theorem perform_lasting {property : Shelved → Prop} (lasting : Lasting property) (env : Env)
    (call : ItemCall) (made : ∀ item ∈ call.submissions, ∀ draw validated,
      property (shelved platform env draw item validated)) {store : Store}
    (held : ∀ known ∈ store.database.tables.shelf, property known) :
    ∀ known ∈ (exec (call.perform platform env) store).2.database.tables.shelf, property known := by
  obtain ⟨added, ⟨kept, shelf, each⟩, origins⟩ := @perform_shelf platform env call store
  intro known member
  rw [shelf] at member
  rcases List.mem_append.mp member with old | new
  · obtain ⟨before, stored, same⟩ := forall₂_source each known old
    exact lasting _ before known same (held before stored)
  · obtain ⟨item, submitted, draw, validated, -, rfl⟩ := origins known new
    exact made item submitted draw validated

/-- **A run**: a lasting property of all submissions holds of every row. -/
theorem runItemCalls_lasting {property : Shelved → Prop} (lasting : Lasting property)
    {calls : List (Env × ItemCall)} (made : ∀ call ∈ calls, ∀ item ∈ call.2.submissions,
      ∀ draw validated, property (shelved platform call.1 draw item validated)) {start : Store}
    (held : ∀ known ∈ start.database.tables.shelf, property known) :
    ∀ known ∈ (runItemCalls platform calls start).database.tables.shelf, property known := by
  induction calls generalizing start with
  | nil => exact held
  | cons call rest inductionHypothesis =>
    refine inductionHypothesis (fun other later => made other (List.mem_cons_of_mem call later)) ?_
    exact perform_lasting lasting call.1 call.2 (made call List.mem_cons_self) held

/-- A property of all rows with their tags is one of all rows. -/
theorem shelf_rows {tables : Tables} {property : ItemRow → Prop} :
    (∀ known ∈ tables.shelf, property known.1) ↔ ∀ row ∈ tables.items.rows, property row := by
  simp [Tables.shelf]

/-- **Every row is dated** where the clock reads 1970 or later. -/
theorem runItemCalls_dated {calls : List (Env × ItemCall)}
    (after : ∀ call ∈ calls, 0 ≤ call.1.now.nanos) {start : Store}
    (dated : start.database.tables.Dated platform) :
    (runItemCalls platform calls start).database.tables.Dated platform := by
  have held : ∀ known ∈ start.database.tables.shelf,
      ∃ instant, known.1.CreatedAt platform instant := shelf_rows.mpr dated
  refine shelf_rows.mp (runItemCalls_lasting ?_ ?_ held)
  · rintro moved before _ ⟨externalId, scope, rfl, -⟩ created
    exact created
  · intro call given item _ draw validated
    exact ⟨call.1.now, after call given, rfl⟩

/-- **Every row can be read** as far as its metadata goes where no submission nests deeper
than the reader follows. -/
theorem runItemCalls_shallow {calls : List (Env × ItemCall)}
    (shallow : ∀ call ∈ calls, ∀ item ∈ call.2.submissions,
      item.metadata.depth < Json.recursionLimit) {start : Store}
    (held : ∀ row ∈ start.database.tables.items.rows, row.metadata.depth < Json.recursionLimit) :
    ∀ row ∈ (runItemCalls platform calls start).database.tables.items.rows,
      row.metadata.depth < Json.recursionLimit := by
  have stored : ∀ known ∈ start.database.tables.shelf,
      known.1.metadata.depth < Json.recursionLimit := shelf_rows.mpr held
  refine shelf_rows.mp (runItemCalls_lasting ?_ ?_ stored)
  · rintro moved before _ ⟨externalId, scope, rfl, -⟩ readable
    exact readable
  · intro call given item submitted draw validated
    exact shallow call given item submitted

end Singularmem.Core
