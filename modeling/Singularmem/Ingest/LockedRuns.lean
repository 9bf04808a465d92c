import Singularmem.Ingest.ClosedForm

/-!
# Runs over a read-only store

A run over a read-only store returns where it has nothing to write. It fails for the store
alone where a write is refused before an item is met that cannot be read.
-/

namespace Singularmem.Ingest

open Library Singularmem.Core
open Effect hiding ofExcept

variable {platform : Platform} {readings : Readings} {tables : Tables} {source : Source}
  {store after : Store}

/-- The error of a call that a read-only store refused. -/
def ForReadOnly (error : Error) : Prop := ∃ operation, error = .readOnly operation

/-- A replacement is refused before an item is met that cannot be read. -/
def readsFirst (platform : Platform) (tables : Tables) : List Candidate → Bool
  | [] => true
  | candidate :: rest => readable platform tables candidate &&
      ((replacement platform tables candidate).isSome || readsFirst platform tables rest)

theorem readsFirst_of_readable {considered : List Candidate}
    (reads : ∀ candidate ∈ considered, readable platform tables candidate) :
    readsFirst platform tables considered := by
  induction considered with
  | nil => rfl
  | cons candidate rest inductionHypothesis =>
    rw [readsFirst, reads candidate List.mem_cons_self,
      inductionHypothesis fun other member => reads other (List.mem_cons_of_mem candidate member),
      Bool.or_true]
    rfl

/-- What cannot be read is not refused for writing. -/
theorem getByExternalId_threw {key : String} {error : Error}
    (failed : getByExternalId platform tables key = .error error) : ¬ ForReadOnly error := by
  rintro ⟨operation, rfl⟩
  by_cases held : tables.carries key
  · obtain ⟨shelved, member, carried⟩ := held
    rw [getByExternalId_carried member carried, readShelved] at failed
    rcases created : parseCreatedAt platform shelved.1.createdAt with error | instant
    · rw [created] at failed
      rw [parseCreatedAt] at created
      split at created
      · cases created
      · cases created
        cases failed
    · rw [created, Json.parse] at failed
      split at failed
      · cases failed
      · cases failed
  · rw [getByExternalId_absent held] at failed
    cases failed

/-- What considering the candidates tells about a read-only store. -/
def Locked (platform : Platform) (tables : Tables) (considered : List Candidate)
    (outcome : Except Error (List Candidate × Report)) : Prop :=
  match outcome with
  | .error error => ForReadOnly error ↔ readsFirst platform tables considered
  | .ok _ => (∀ candidate ∈ considered, readable platform tables candidate) ∧
      ∀ candidate ∈ considered, replacement platform tables candidate = none

namespace Locked

variable {candidate : Candidate} {rest : List Candidate}

/-- A readable candidate that replaces nothing leaves the rest to tell. -/
theorem cons {outcome : Except Error (List Candidate × Report)}
    (reads : readable platform tables candidate)
    (keeps : replacement platform tables candidate = none)
    (later : Locked platform tables rest outcome) :
    Locked platform tables (candidate :: rest) outcome := by
  rcases outcome with error | result
  · change _ ↔ _ at later ⊢
    rw [readsFirst, reads, keeps]
    exact later
  · exact ⟨List.forall_mem_cons.mpr ⟨reads, later.1⟩, List.forall_mem_cons.mpr ⟨keeps, later.2⟩⟩

/-- What is made of the outcome tells the same. -/
theorem map {considered : List Candidate} {outcome : Except Error (List Candidate × Report)}
    {update : List Candidate × Report → List Candidate × Report}
    (told : Locked platform tables considered outcome) :
    Locked platform tables considered (update <$> outcome) := by
  cases outcome with
  | error error => exact told
  | ok result => exact told

end Locked

/-- **Considering the candidates of a read-only store.** -/
theorem sift_locked {existing : List String} {candidates : List Candidate} {seen : List String}
    (report : Report) (locked : store.readOnly = true)
    (knows : Knows existing store.database.tables candidates seen) :
    (exec (sift platform readings existing false candidates seen report) store).2 = store ∧
      Locked platform store.database.tables (firsts seen candidates)
        (exec (sift platform readings existing false candidates seen report) store).1 := by
  induction candidates generalizing seen report with
  | nil => exact ⟨rfl, by simp [firsts], by simp [firsts]⟩
  | cons candidate rest inductionHypothesis =>
    obtain ⟨item, place⟩ := candidate
    rw [sift]
    split
    case h_1 bare =>
      have keyless : (item, place).1.externalId = none := bare
      obtain ⟨still, told⟩ := inductionHypothesis report knows.rest
      rw [firsts_keyless keyless, exec_taking]
      exact ⟨still, (told.map).cons (by simp [readable, bare]) (by rw [replacement, keyless]; rfl)⟩
    case h_2 key named =>
      have given : (item, place).1.externalId = some key := named
      split
      case isTrue duplicate =>
        rw [firsts_seen given duplicate]
        exact inductionHypothesis _ knows.rest
      case isFalse new =>
        rw [firsts_new given new]
        have stored := knows (item, place) List.mem_cons_self key given new
        have later := fun report => inductionHypothesis report (knows.later key)
        split
        case isTrue absent =>
          obtain ⟨still, told⟩ := later report
          have nothing := @getByExternalId_absent platform _ key fun held => absent (stored.mpr held)
          rw [exec_taking]
          refine ⟨still, (told.map).cons ?_ (replacement_read given nothing)⟩
          simp [readable, named, nothing, Except.toOption]
        case isFalse present =>
          rw [exec_bind_ok (exec_get store)]
          rcases read : getByExternalId platform store.database.tables key with error | old
          · rw [exec_bind_error (exec_ofExcept _ _)]
            refine ⟨rfl, ?_⟩
            change ForReadOnly error ↔ _
            have unread : readable platform store.database.tables (item, place) = false := by
              simp [readable, named, read, Except.toOption]
            rw [readsFirst, unread]
            exact iff_of_false (getByExternalId_threw read) Bool.false_ne_true
          · have reads : readable platform store.database.tables (item, place) := by
              simp [readable, named, read, Except.toOption]
            have decision := replacement_read given read
            rw [exec_bind_ok (exec_ofExcept _ _)]
            split
            case h_1 _ found chosen =>
              rw [chosen] at decision
              have refused : exec (ingestReplacing platform (readings.alone place) item found.id) store =
                  (.error (.readOnly "ingest_replacing"), store) := writing_readOnly locked
              have stops : exec ((fun _ => ()) <$>
                  ingestReplacing platform (readings.alone place) item found.id) store =
                  (.error (.readOnly "ingest_replacing"), store) := by
                rw [exec_map, refused]
                rfl
              change (exec (((fun _ => ()) <$>
                ingestReplacing platform (readings.alone place) item found.id) >>= _) store).2 = _ ∧
                Locked _ _ _ (exec (((fun _ => ()) <$>
                ingestReplacing platform (readings.alone place) item found.id) >>= _) store).1
              rw [exec_bind_error stops]
              refine ⟨rfl, ?_⟩
              change ForReadOnly _ ↔ _
              rw [readsFirst, reads, decision]
              exact iff_of_true ⟨_, rfl⟩ rfl
            case h_2 _ nothing =>
              obtain ⟨still, told⟩ := later
                { report with skippedExisting := report.skippedExisting + 1 }
              exact ⟨still, told.cons reads (decision.trans nothing)⟩

/-- A run with nothing to write returns and changes nothing. -/
theorem run_idle
    (reads : ∀ candidate ∈ considered source, readable platform store.database.tables candidate)
    (keeps : ∀ candidate ∈ considered source,
      replacement platform store.database.tables candidate = none)
    (nothing : newCandidates store.database.tables source = []) :
    ∃ report, exec (ingestSource platform readings source false) store = (.ok report, store) ∧
      report.failed = sourceErrors source := by
  obtain ⟨⟨fresh, between⟩, idle⟩ := @sift_idle platform readings
    (knownKeys store.database.tables source) (candidates source) [] (startReport source) store
    mem_knownKeys (fun candidate member => readable_iff.mp (reads candidate member)) keeps
  obtain ⟨sifted, _⟩ := sift_returned mem_knownKeys idle
  have none : fresh = [] := sifted.fresh.trans nothing
  refine ⟨between, ?_, sifted.failed⟩
  rw [ingestSource, exec_bind_ok (exec_get store)]
  change exec (sift platform readings (knownKeys store.database.tables source) false
    (candidates source) [] (startReport source) >>= _) store = _
  rw [exec_bind_ok idle, none]
  rfl

/-- Batches are refused. -/
theorem writeEach_locked {numbered : List (List Candidate × Nat)} (report : Report)
    (locked : store.readOnly = true) (some : numbered ≠ []) :
    exec (writeEach platform readings numbered report) store =
      (.error (.readOnly "ingest_many"), store) := by
  obtain ⟨⟨batch, number⟩, rest, rfl⟩ := List.exists_cons_of_ne_nil some
  have refused : exec (ingestMany platform (readings.batch number) (batch.map Prod.fst)) store =
      (.error (.readOnly "ingest_many"), store) := writing_readOnly locked
  have stops : exec (writeBatch platform readings number batch report) store =
      (.error (.readOnly "ingest_many"), store) := by
    rw [writeBatch, exec_bind_ok (exec_attempt _ store), refused]
    rfl
  rw [writeEach, exec_bind_error stops]

/-- **What a run over a read-only store gives.** -/
theorem run_locked (locked : store.readOnly = true) :
    match exec (ingestSource platform readings source false) store with
    | (.error error, _) =>
      ForReadOnly error ↔ readsFirst platform store.database.tables (considered source)
    | (.ok _, _) =>
      (∀ candidate ∈ considered source, readable platform store.database.tables candidate) ∧
        (∀ candidate ∈ considered source,
          replacement platform store.database.tables candidate = none) ∧
        newCandidates store.database.tables source = [] := by
  obtain ⟨still, told⟩ := @sift_locked platform readings store
    (knownKeys store.database.tables source) (candidates source) [] (startReport source) locked
    mem_knownKeys
  rcases sifting : exec (sift platform readings (knownKeys store.database.tables source) false
    (candidates source) [] (startReport source)) store with ⟨error | ⟨fresh, between⟩, middle⟩
  · have stops : exec (ingestSource platform readings source false) store = (.error error, middle) := by
      rw [ingestSource, exec_bind_ok (exec_get store)]
      change exec (sift platform readings (knownKeys store.database.tables source) false
        (candidates source) [] (startReport source) >>= _) store = _
      rw [exec_bind_error sifting]
    rw [sifting] at told
    rw [stops]
    exact told
  · rw [sifting] at told still
    obtain ⟨reads, keeps⟩ := told
    obtain rfl : middle = store := still
    obtain ⟨sifted, _⟩ := sift_returned mem_knownKeys sifting
    by_cases nothing : newCandidates middle.database.tables source = []
    · obtain ⟨report, returned, _⟩ := @run_idle platform readings source middle reads keeps nothing
      rw [returned]
      exact ⟨reads, keeps, nothing⟩
    · have fresh : fresh = newCandidates middle.database.tables source := sifted.fresh
      have stops : exec (ingestSource platform readings source false) middle =
          (.error (.readOnly "ingest_many"), middle) := by
        rw [ingestSource, exec_bind_ok (exec_get middle)]
        change exec (sift platform readings (knownKeys middle.database.tables source) false
          (candidates source) [] (startReport source) >>= _) middle = _
        rw [exec_bind_ok sifting, fresh]
        refine writeEach_locked between locked fun unbatched => nothing ?_
        have unbatched : numberedBatches (newCandidates middle.database.tables source) = [] := unbatched
        rw [← numberedBatches_flat (newCandidates middle.database.tables source), unbatched]
        rfl
      rw [stops]
      exact iff_of_true ⟨_, rfl⟩ (readsFirst_of_readable reads)

end Singularmem.Ingest
