import Singularmem.Core.Ingest

/-!
# The ingest driver

`ingestSource` writes what a source yields and the store does not have yet. An item whose
content hash changed replaces the stored one at once; new items are written in batches,
and a batch with an invalid item is retried item by item.
-/

namespace Singularmem.Ingest

open Library Singularmem.Core
open Effect hiding ofExcept

variable (platform : Platform)

/-- Items per `ingestMany` transaction. -/
def batchSize : Nat := 500

/-- Outcome counts of a run. -/
structure Report where
  /-- Items written, or those that a dry run would have written. -/
  ingested : Nat
  /-- Items whose `external_id` was already present and that did not qualify for
  replacement. -/
  skippedExisting : Nat
  /-- Inputs the source deliberately filtered. -/
  skippedFiltered : Nat
  /-- Items the source could not give, or the store rejected. -/
  failed : Nat
deriving DecidableEq

/-- Something that can be turned into memory items. -/
structure Source where
  /-- What the iterator yields, errors included. -/
  items : List (Except String NewItem)
  filteredCount : Nat
  defaultScope : NewItem → Option String

/-- What the store calls of a run read from the clock and the generator. A call that writes
one candidate alone is told by the place of the candidate among those the source yields; a
bulk call, and its repetition after a conflict, by the number of its batch. -/
structure Readings where
  alone : Nat → Env
  batch : Nat → Env
  again : Nat → Env

/-- An item and its place among those the source yields. -/
abbrev Candidate := NewItem × Nat

/-- Run a call and look at its outcome. -/
def attempt {α : Type} (call : StoreCall α) : StoreCall (Except Error α) :=
  tryCatch (.ok <$> call) fun error => pure (.error error)

/-- An item with the scope the source derives where it has none. -/
def withDefaultScope (source : Source) (item : NewItem) : NewItem :=
  if item.scope.isNone then { item with scope := source.defaultScope item } else item

/-- The items the source yields. -/
def candidates (source : Source) : List Candidate :=
  (source.items.filterMap fun yielded => yielded.toOption.map (withDefaultScope source)).zipIdx

/-- How many errors the source yields. -/
def sourceErrors (source : Source) : Nat :=
  (source.items.filter fun yielded => yielded.toOption.isNone).length

/-- `metadata.sha256` of a value. -/
def contentHash (metadata : Json) : Option String := (metadata.get "sha256").bind Json.asStr

/-- Both sides carry a hash and they differ. -/
def differs (new old : Option String) : Bool :=
  match new, old with
  | some new, some old => new ≠ old
  | _, _ => false

/-- Decide about each candidate; those that are new are returned. -/
def sift (readings : Readings) (existing : List String) (dryRun : Bool) :
    List Candidate → List String → Report → StoreCall (List Candidate × Report)
  | [], _, report => pure ([], report)
  | (item, place) :: rest, acceptedIds, report =>
    match item.externalId with
    | none => do
      let (fresh, report) ← sift readings existing dryRun rest acceptedIds report
      return ((item, place) :: fresh, report)
    | some key =>
      if key ∈ acceptedIds then
        sift readings existing dryRun rest acceptedIds
          { report with skippedExisting := report.skippedExisting + 1 }
      else if key ∉ existing then do
        let (fresh, report) ← sift readings existing dryRun rest (key :: acceptedIds) report
        return ((item, place) :: fresh, report)
      else do
        let store ← get
        let old ← Effect.ofExcept (getByExternalId platform store.database.tables key)
        match old.filter fun old => differs (contentHash item.metadata) (contentHash old.metadata) with
        | some old => do
          if dryRun then pure ()
          else (fun _ => ()) <$> ingestReplacing platform (readings.alone place) item old.id
          sift readings existing dryRun rest (key :: acceptedIds)
            { report with ingested := report.ingested + 1 }
        | none =>
          sift readings existing dryRun rest (key :: acceptedIds)
            { report with skippedExisting := report.skippedExisting + 1 }

/-- A candidate that is taken comes before those taken from the rest. -/
theorem exec_taking (readings : Readings) (existing : List String) (dryRun : Bool)
    (candidate : Candidate) (rest : List Candidate) (acceptedIds : List String) (report : Report)
    (store : Store) :
    exec (do
      let (fresh, report) ← sift platform readings existing dryRun rest acceptedIds report
      return (candidate :: fresh, report)) store =
    ((fun result => (candidate :: result.1, result.2)) <$>
      (exec (sift platform readings existing dryRun rest acceptedIds report) store).1,
      (exec (sift platform readings existing dryRun rest acceptedIds report) store).2) := by
  rw [exec_bind]
  rcases exec (sift platform readings existing dryRun rest acceptedIds report) store with
    ⟨error | result, middle⟩
  · rfl
  · rfl

/-- Write the candidates of a batch one by one; those that do not validate have failed. -/
def writeSingly (readings : Readings) : List Candidate → Report → StoreCall Report
  | [], report => pure report
  | (item, place) :: rest, report => do
    let outcome ← attempt (ingest platform (readings.alone place) item)
    match outcome with
    | .ok _ => writeSingly readings rest { report with ingested := report.ingested + 1 }
    | .error (.validation _ _) =>
      writeSingly readings rest { report with failed := report.failed + 1 }
    | .error error => throw error

/-- Write a batch after a conflict, without what other writers stored in the meantime. -/
def retryBatch (readings : Readings) (number : Nat) (batch : List Candidate) (report : Report) :
    StoreCall Report := do
  let store ← get
  let nowExisting := existingExternalIds store.database.tables
    (batch.filterMap fun candidate => candidate.1.externalId)
  let retry := batch.filter fun candidate =>
    !(candidate.1.externalId.any fun key => key ∈ nowExisting)
  let written ← ingestMany platform (readings.again number) (retry.map Prod.fst)
  return { report with
    skippedExisting := report.skippedExisting + (batch.length - retry.length)
    ingested := report.ingested + written.length }

/-- Write one batch. -/
def writeBatch (readings : Readings) (number : Nat) (batch : List Candidate) (report : Report) :
    StoreCall Report := do
  let outcome ← attempt (ingestMany platform (readings.batch number) (batch.map Prod.fst))
  match outcome with
  | .ok written => return { report with ingested := report.ingested + written.length }
  | .error (.externalIdConflict _) => retryBatch platform readings number batch report
  | .error (.validation _ _) => writeSingly platform readings batch report
  | .error error => throw error

/-- Split a list into batches, with at least as many rounds as it has elements. -/
def batches {α : Type} : Nat → List α → List (List α)
  | 0, _ => []
  | _ + 1, [] => []
  | rounds + 1, head :: tail =>
    (head :: tail).take batchSize :: batches rounds ((head :: tail).drop batchSize)

/-- Write the batches one after the other. -/
def writeEach (readings : Readings) : List (List Candidate × Nat) → Report → StoreCall Report
  | [], report => pure report
  | (batch, number) :: rest, report => do
    let report ← writeBatch platform readings number batch report
    writeEach readings rest report

/-- Write the new candidates in batches of `batchSize`. -/
def writeBatches (readings : Readings) (fresh : List Candidate) (report : Report) :
    StoreCall Report :=
  writeEach platform readings (batches fresh.length fresh).zipIdx report

/-- Ingest everything a source yields that the store does not have. -/
def ingestSource (readings : Readings) (source : Source) (dryRun : Bool) : StoreCall Report := do
  let store ← get
  let existing := existingExternalIds store.database.tables
    ((candidates source).filterMap fun candidate => candidate.1.externalId)
  let (fresh, report) ← sift platform readings existing dryRun (candidates source) []
    ⟨0, 0, source.filteredCount, sourceErrors source⟩
  if dryRun then return { report with ingested := report.ingested + fresh.length }
  else writeBatches platform readings fresh report

end Singularmem.Ingest
