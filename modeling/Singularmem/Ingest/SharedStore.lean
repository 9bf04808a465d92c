import Singularmem.Ingest.Sifting

/-!
# The driver among other writers

The driver again, as it runs while others write to the same database. Every statement of a
run may find insertions of others that were made since the statement before; a transaction
is one statement, since the database serialises those that commit. The rows a run writes
are recorded. Undisturbed, the driver does what `ingestSource` does.
-/

namespace Singularmem.Ingest

open Library Singularmem.Core
open Effect hiding ofExcept

/-- What insertions leave of the tables: a stored row keeps its id, and its `external_id`
unless it has given it up; an `external_id` in use stays in use. -/
structure Inserted (before after : Tables) : Prop where
  rows : ∀ row ∈ before.items.rows, ∃ later ∈ after.items.rows, later.id = row.id ∧
    (later.externalId = row.externalId ∨ later.externalId = none)
  keys : ∀ key, before.carries key → after.carries key

/-- What other writers do between two statements. -/
structure Insertion where
  change : Database → Database
  inserted : ∀ database, Inserted database.tables (change database).tables

/-- A store that others write to as well. -/
structure SharedStore where
  store : Store
  /-- What others do before each of the next statements. -/
  others : List Insertion
  /-- The rows inserted by the run, a record the code does not keep. -/
  written : List ItemRow

/-- The tables at the moment. -/
abbrev SharedStore.tables (shared : SharedStore) : Tables := shared.store.database.tables

/-- A call on a shared store. -/
abbrev SharedCall := Effect Error SharedStore

/-- The store after a statement of the run. -/
def SharedStore.record (store : Store) (shared : SharedStore) : SharedStore :=
  { shared with
    store
    written := shared.written ++
      store.database.tables.items.rows.drop shared.tables.items.rows.length }

/-- The store after others had their turn. -/
def SharedStore.interrupted (shared : SharedStore) : SharedStore :=
  match shared.others with
  | [] => shared
  | insertion :: others =>
    { shared with
      store := { shared.store with database := insertion.change shared.store.database }
      others }

/-- One statement of the run, after others had their turn. -/
def statement {α : Type} (call : StoreCall α) : SharedCall α := do
  modify SharedStore.interrupted
  zoom SharedStore.store SharedStore.record call

/-- One statement that reads. -/
def reading {α : Type} (read : Tables → Except Error α) : SharedCall α :=
  statement do
    let store ← get
    Effect.ofExcept (read store.database.tables)

namespace Shared

variable (platform : Platform)

/-- The ids among these that exist as `external_id` values, one query for each. -/
def existingExternalIds : List String → SharedCall (List String)
  | [] => pure []
  | id :: rest => do
    let hit ← reading fun tables => pure (tables.items.find (.externalId id)).isSome
    let others ← existingExternalIds rest
    return if hit then id :: others else others

/-- Look the `external_id` up, then load the item that carried it. -/
def getByExternalId (externalId : String) : SharedCall (Option Item) := do
  let found ← reading fun tables => pure (tables.items.find (.externalId externalId))
  match found with
  | none => pure none
  | some row => some <$> reading fun tables => loadItem platform tables row.id

/-- Decide about each candidate; those that are new are returned. -/
def sift (readings : Readings) (existing : List String) (dryRun : Bool) :
    List Candidate → List String → Report → SharedCall (List Candidate × Report)
  | [], _, report => pure ([], report)
  | (item, place) :: rest, acceptedIds, report =>
    match item.externalId with
    | none => do
      let (fresh, report) ← sift readings existing dryRun rest acceptedIds report
      return ((item, place) :: fresh, report)
    | some key =>
      if key ∈ acceptedIds then
        sift readings existing dryRun rest acceptedIds
          { report with skippedExisting := report.skippedExisting + 1 }
      else if key ∉ existing then do
        let (fresh, report) ← sift readings existing dryRun rest (key :: acceptedIds) report
        return ((item, place) :: fresh, report)
      else do
        let old ← getByExternalId platform key
        match old.filter fun old => differs (contentHash item.metadata) (contentHash old.metadata) with
        | some old => do
          if dryRun then pure ()
          else (fun _ => ()) <$> statement (ingestReplacing platform (readings.alone place) item old.id)
          sift readings existing dryRun rest (key :: acceptedIds)
            { report with ingested := report.ingested + 1 }
        | none =>
          sift readings existing dryRun rest (key :: acceptedIds)
            { report with skippedExisting := report.skippedExisting + 1 }

/-- Write the candidates of a batch one by one; those that do not validate have failed. -/
def writeSingly (readings : Readings) : List Candidate → Report → SharedCall Report
  | [], report => pure report
  | (item, place) :: rest, report => do
    let outcome ← statement (attempt (ingest platform (readings.alone place) item))
    match outcome with
    | .ok _ => writeSingly readings rest { report with ingested := report.ingested + 1 }
    | .error (.validation _ _) =>
      writeSingly readings rest { report with failed := report.failed + 1 }
    | .error error => throw error

/-- Write a batch after a conflict, without what other writers stored in the meantime. -/
def retryBatch (readings : Readings) (number : Nat) (batch : List Candidate) (report : Report) :
    SharedCall Report := do
  let nowExisting ← existingExternalIds (batch.filterMap fun candidate => candidate.1.externalId)
  let retry := batch.filter fun candidate =>
    !(candidate.1.externalId.any fun key => key ∈ nowExisting)
  let written ← statement (ingestMany platform (readings.again number) (retry.map Prod.fst))
  return { report with
    skippedExisting := report.skippedExisting + (batch.length - retry.length)
    ingested := report.ingested + written.length }

/-- Write one batch. -/
def writeBatch (readings : Readings) (number : Nat) (batch : List Candidate) (report : Report) :
    SharedCall Report := do
  let outcome ← statement (attempt (ingestMany platform (readings.batch number) (batch.map Prod.fst)))
  match outcome with
  | .ok written => return { report with ingested := report.ingested + written.length }
  | .error (.externalIdConflict _) => retryBatch platform readings number batch report
  | .error (.validation _ _) => writeSingly platform readings batch report
  | .error error => throw error

/-- Write the batches one after the other. -/
def writeEach (readings : Readings) : List (List Candidate × Nat) → Report → SharedCall Report
  | [], report => pure report
  | (batch, number) :: rest, report => do
    let report ← writeBatch platform readings number batch report
    writeEach readings rest report

/-- Write the new candidates in batches of `batchSize`. -/
def writeBatches (readings : Readings) (fresh : List Candidate) (report : Report) :
    SharedCall Report :=
  writeEach platform readings (batches fresh.length fresh).zipIdx report

/-- Ingest everything a source yields that the store does not have. -/
def ingestSource (readings : Readings) (source : Source) (dryRun : Bool) : SharedCall Report := do
  let existing ← existingExternalIds
    ((candidates source).filterMap fun candidate => candidate.1.externalId)
  let (fresh, report) ← sift platform readings existing dryRun (candidates source) []
    ⟨0, 0, source.filteredCount, sourceErrors source⟩
  if dryRun then return { report with ingested := report.ingested + fresh.length }
  else writeBatches platform readings fresh report

end Shared

/-- With no others about, a call on the shared store does what a call on the store does. -/
def Undisturbed {α : Type} (call : SharedCall α) (alone : StoreCall α) : Prop :=
  ∀ shared : SharedStore, shared.others = [] → ∃ after,
    exec call shared = ((exec alone shared.store).1, after) ∧
      after.store = (exec alone shared.store).2 ∧ after.others = []

namespace Undisturbed

variable {α β : Type}

theorem pure (value : α) : Undisturbed (Pure.pure value) (Pure.pure value) :=
  fun shared alone => ⟨shared, rfl, rfl, alone⟩

theorem throw (error : Error) :
    Undisturbed (α := α) (MonadExcept.throw error) (MonadExcept.throw error) :=
  fun shared alone => ⟨shared, rfl, rfl, alone⟩

theorem bind {call : SharedCall α} {alone : StoreCall α} {next : α → SharedCall β}
    {nextAlone : α → StoreCall β} (first : Undisturbed call alone)
    (second : ∀ value, Undisturbed (next value) (nextAlone value)) :
    Undisturbed (call >>= next) (alone >>= nextAlone) := by
  intro shared none
  obtain ⟨middle, ran, same, still⟩ := first shared none
  cases outcome : exec alone shared.store with
  | mk result store =>
    rw [outcome] at ran same
    cases result with
    | error error =>
      rw [exec_bind_error ran, exec_bind_error outcome]
      exact ⟨middle, rfl, same, still⟩
    | ok value =>
      obtain rfl : middle.store = store := same
      rw [exec_bind_ok ran, exec_bind_ok outcome]
      exact second value middle still

theorem statement (call : StoreCall α) : Undisturbed (Ingest.statement call) call := by
  intro shared none
  have still : shared.interrupted = shared := by rw [SharedStore.interrupted, none]
  rw [Ingest.statement, exec_bind_ok (exec_modify _ _), exec_zoom, still]
  exact ⟨_, rfl, rfl, none⟩

theorem map (update : α → β) {call : SharedCall α} {alone : StoreCall α}
    (first : Undisturbed call alone) : Undisturbed (update <$> call) (update <$> alone) := by
  intro shared none
  obtain ⟨middle, ran, same, still⟩ := first shared none
  rw [exec_map, exec_map, ran]
  exact ⟨middle, rfl, same, still⟩

/-- A statement that reads. -/
theorem reading (read : Tables → Except Error α) :
    Undisturbed (Ingest.reading read) (do
      let store ← get
      Effect.ofExcept (read store.database.tables)) :=
  statement _

variable {platform : Platform} {readings : Readings}

theorem existingExternalIds (ids : List String) :
    Undisturbed (Shared.existingExternalIds ids) (do
      let store ← get
      return Core.existingExternalIds store.database.tables ids) := by
  induction ids with
  | nil => exact .pure []
  | cons id rest inductionHypothesis =>
    intro shared none
    obtain ⟨middle, ran, same, still⟩ := Undisturbed.reading
      (fun tables => Pure.pure (tables.items.find (.externalId id)).isSome) shared none
    obtain ⟨after, others, sameLast, last⟩ := inductionHypothesis middle still
    have same : middle.store = shared.store := same
    rw [Shared.existingExternalIds, exec_bind_ok ran, exec_bind_ok others]
    refine ⟨after, ?_, sameLast.trans same, last⟩
    refine Prod.ext (congrArg Except.ok ?_) rfl
    change _ = List.filter _ (id :: rest)
    rw [List.filter_cons, ← same]
    rfl

theorem getByExternalId (key : String) :
    Undisturbed (Shared.getByExternalId platform key) (do
      let store ← get
      Effect.ofExcept (Core.getByExternalId platform store.database.tables key)) := by
  intro shared none
  obtain ⟨middle, ran, same, still⟩ := Undisturbed.reading
    (fun tables => Pure.pure (tables.items.find (.externalId key))) shared none
  have same : middle.store = shared.store := same
  rw [Shared.getByExternalId, exec_bind_ok ran, exec_bind_ok (exec_get _), Core.getByExternalId]
  cases shared.store.database.tables.items.find (.externalId key) with
  | none => exact ⟨middle, rfl, same, still⟩
  | some row =>
    obtain ⟨after, loaded, sameLast, last⟩ :=
      Undisturbed.reading (fun tables => loadItem platform tables row.id) middle still
    rw [exec_bind_ok (exec_get _), exec_ofExcept] at loaded sameLast
    simp only
    rw [exec_map, loaded, exec_ofExcept, ← same]
    exact ⟨after, rfl, sameLast, last⟩

theorem sift (existing : List String) (dryRun : Bool) (considered : List Candidate)
    (seen : List String) (report : Report) :
    Undisturbed (Shared.sift platform readings existing dryRun considered seen report)
      (Ingest.sift platform readings existing dryRun considered seen report) := by
  induction considered generalizing seen report with
  | nil => exact .pure _
  | cons candidate rest inductionHypothesis =>
    obtain ⟨item, place⟩ := candidate
    rw [Shared.sift, Ingest.sift]
    cases item.externalId with
    | none => exact (inductionHypothesis seen report).bind fun _ => .pure _
    | some key =>
      dsimp only
      by_cases duplicate : key ∈ seen
      · rw [if_pos duplicate, if_pos duplicate]
        exact inductionHypothesis _ _
      · rw [if_neg duplicate, if_neg duplicate]
        by_cases absent : key ∉ existing
        · rw [if_pos absent, if_pos absent]
          exact (inductionHypothesis _ _).bind fun _ => .pure _
        · rw [if_neg absent, if_neg absent]
          refine (getByExternalId key).bind fun old => ?_
          cases old.filter fun old => differs (contentHash item.metadata) (contentHash old.metadata) with
          | none => exact inductionHypothesis _ _
          | some old =>
            cases dryRun with
            | true => exact inductionHypothesis _ _
            | false => exact ((statement _).map _).bind fun _ => inductionHypothesis _ _

theorem writeSingly (batch : List Candidate) (report : Report) :
    Undisturbed (Shared.writeSingly platform readings batch report)
      (Ingest.writeSingly platform readings batch report) := by
  induction batch generalizing report with
  | nil => exact .pure _
  | cons candidate rest inductionHypothesis =>
    refine (statement _).bind fun outcome => ?_
    cases outcome with
    | ok stored => exact inductionHypothesis _
    | error error =>
      cases error with
      | validation field reason => exact inductionHypothesis _
      | _ => exact .throw _

theorem retryBatch (number : Nat) (batch : List Candidate) (report : Report) :
    Undisturbed (Shared.retryBatch platform readings number batch report)
      (Ingest.retryBatch platform readings number batch report) :=
  (existingExternalIds _).bind fun _ => (statement _).bind fun _ => .pure _

theorem writeBatch (number : Nat) (batch : List Candidate) (report : Report) :
    Undisturbed (Shared.writeBatch platform readings number batch report)
      (Ingest.writeBatch platform readings number batch report) := by
  refine (statement _).bind fun outcome => ?_
  cases outcome with
  | ok written => exact .pure _
  | error error =>
    cases error with
    | externalIdConflict key => exact retryBatch number batch report
    | validation field reason => exact writeSingly batch report
    | _ => exact .throw _

theorem writeEach (numbered : List (List Candidate × Nat)) (report : Report) :
    Undisturbed (Shared.writeEach platform readings numbered report)
      (Ingest.writeEach platform readings numbered report) := by
  induction numbered generalizing report with
  | nil => exact .pure _
  | cons pair rest inductionHypothesis =>
    exact (writeBatch pair.2 pair.1 report).bind fun _ => inductionHypothesis _

/-- **The driver alone.** Undisturbed, a run on a shared store is a run of `ingestSource`. -/
theorem ingestSource (source : Source) (dryRun : Bool) :
    Undisturbed (Shared.ingestSource platform readings source dryRun)
      (Ingest.ingestSource platform readings source dryRun) := by
  refine (existingExternalIds _).bind fun existing => (sift existing dryRun _ _ _).bind fun sifted => ?_
  obtain ⟨fresh, report⟩ := sifted
  cases dryRun with
  | true => exact .pure _
  | false => exact writeEach _ report

end Undisturbed

end Singularmem.Ingest
