import Singularmem.Ingest.Accounting
import Singularmem.Ingest.Isolation

/-!
# What a dry run tells

A dry run changes nothing, and fails only where a stored item that it meets cannot be read.
It tells what the real run then reports exactly where the store takes everything that the
run considers: a dry run asks neither the validation nor the constraints nor the clock.
-/

namespace Singularmem.Ingest

open Library Singularmem.Core
open Effect hiding ofExcept

variable {platform : Platform} {readings idle : Readings} {existing : List String}
  {source : Source} {store after : Store}

/-- Results were counted, and none as filtered. -/
structure Counts (report final : Report) (handled : Nat) : Prop where
  counted : final.counted = report.counted + handled
  filtered : final.skippedFiltered = report.skippedFiltered

namespace Counts

variable {report between final : Report} {first second : Nat}

theorem none (report : Report) : Counts report report 0 := ⟨rfl, rfl⟩

theorem trans (early : Counts report between first) (late : Counts between final second) :
    Counts report final (first + second) := by
  constructor
  · rw [late.counted, early.counted, Nat.add_assoc]
  · rw [late.filtered, early.filtered]

/-- One more result, and the rest. -/
theorem next {rest : List Candidate} (early : Counts report between 1)
    (late : Counts between final rest.length) (candidate : Candidate) :
    Counts report final (candidate :: rest).length := by
  rw [List.length_cons, Nat.add_comm]
  exact early.trans late

theorem ingested (report : Report) (count : Nat) :
    Counts report { report with ingested := report.ingested + count } count := by
  refine ⟨?_, rfl⟩
  simp only [Report.counted]
  omega

theorem skipped (report : Report) :
    Counts report { report with skippedExisting := report.skippedExisting + 1 } 1 := by
  refine ⟨?_, rfl⟩
  simp only [Report.counted]
  omega

theorem failed (report : Report) :
    Counts report { report with failed := report.failed + 1 } 1 := by
  refine ⟨?_, rfl⟩
  simp only [Report.counted]
  omega

end Counts

section Counting

variable {report final : Report}

/-- Considering counts the candidates it does not return. -/
theorem sift_counts {dryRun : Bool} {candidates : List Candidate} {seen : List String}
    {fresh : List Candidate}
    (returned : exec (sift platform readings existing dryRun candidates seen report) store =
      (.ok (fresh, final), after)) :
    ∃ passed, Counts report final passed ∧ passed + fresh.length = candidates.length := by
  induction candidates generalizing seen report store fresh with
  | nil =>
    cases returned
    exact ⟨0, .none _, rfl⟩
  | cons candidate rest inductionHypothesis =>
    obtain ⟨item, place⟩ := candidate
    have counted : ∀ {between : Report} {seen : List String} {middle : Store},
        Counts report between 1 →
        exec (sift platform readings existing dryRun rest seen between) middle =
          (.ok (fresh, final), after) →
        ∃ passed, Counts report final passed ∧ passed + fresh.length = rest.length + 1 := by
      intro between seen middle one loop
      obtain ⟨passed, counts, total⟩ := inductionHypothesis loop
      exact ⟨1 + passed, one.trans counts, by omega⟩
    have taken : ∀ {seen : List String},
        exec (do
          let found ← sift platform readings existing dryRun rest seen report
          return ((item, place) :: found.1, found.2)) store = (.ok (fresh, final), after) →
        ∃ passed, Counts report final passed ∧ passed + fresh.length = rest.length + 1 := by
      intro seen loop
      obtain ⟨⟨others, between⟩, middle, loop, returned⟩ := exec_bind_returned loop
      cases returned
      obtain ⟨passed, counts, total⟩ := inductionHypothesis loop
      refine ⟨passed, counts, ?_⟩
      rw [List.length_cons, ← total, Nat.add_assoc]
    rw [sift] at returned
    split at returned
    case h_1 => exact taken returned
    case h_2 key named =>
      split at returned
      case isTrue => exact counted (.skipped report) returned
      case isFalse =>
        split at returned
        case isTrue => exact taken returned
        case isFalse =>
          rw [exec_bind_ok (exec_get store)] at returned
          obtain ⟨old, _, returned⟩ := ofExcept_bind_returned returned
          split at returned
          case h_1 =>
            cases dryRun with
            | true => exact counted (.ingested report 1) returned
            | false =>
              obtain ⟨_, middle, _, loop⟩ := exec_bind_returned returned
              exact counted (.ingested report 1) loop
          case h_2 => exact counted (.skipped report) returned

/-- Writing one by one counts every candidate. -/
theorem writeSingly_counts {batch : List Candidate}
    (returned : exec (writeSingly platform readings batch report) store = (.ok final, after)) :
    Counts report final batch.length := by
  induction batch generalizing report store with
  | nil =>
    cases returned
    exact .none _
  | cons candidate rest inductionHypothesis =>
    obtain ⟨item, place⟩ := candidate
    obtain ⟨outcome, middle, _, returned⟩ := exec_bind_returned returned
    split at returned
    case h_1 => exact (Counts.ingested report 1).next (inductionHypothesis returned) _
    case h_2 => exact (Counts.failed report).next (inductionHypothesis returned) _
    case h_3 => cases returned

/-- So does a second attempt. -/
theorem retryBatch_counts {number : Nat} {batch : List Candidate}
    (returned : exec (retryBatch platform readings number batch report) store =
      (.ok final, after)) :
    Counts report final batch.length := by
  rw [retryBatch, exec_bind_ok (exec_get store)] at returned
  obtain ⟨written, middle, wrote, returned⟩ := exec_bind_returned returned
  cases returned
  obtain ⟨_, _, _, count, _⟩ := ingestMany_shelves wrote
  rw [List.length_map] at count
  refine ⟨?_, rfl⟩
  have fewer := List.length_filter_le (fun candidate : Candidate =>
    !(candidate.1.externalId.any fun key => key ∈ existingExternalIds store.database.tables
      (batch.filterMap fun candidate => candidate.1.externalId))) batch
  simp only [Report.counted]
  omega

/-- So does writing a batch. -/
theorem writeBatch_counts {number : Nat} {batch : List Candidate}
    (returned : exec (writeBatch platform readings number batch report) store =
      (.ok final, after)) :
    Counts report final batch.length := by
  rw [writeBatch, exec_bind_ok (exec_attempt _ store)] at returned
  rcases called : exec (ingestMany platform (readings.batch number) (batch.map Prod.fst)) store
    with ⟨error | stored, middle⟩
  · rw [called] at returned
    split at returned
    case h_1 ok => cases ok
    case h_2 => exact retryBatch_counts returned
    case h_3 => exact writeSingly_counts returned
    case h_4 => cases returned
  · rw [called] at returned
    cases returned
    obtain ⟨_, _, _, count, _⟩ := ingestMany_shelves called
    rw [List.length_map] at count
    rw [← count]
    exact .ingested report _

/-- So does writing the batches. -/
theorem writeEach_counts {numbered : List (List Candidate × Nat)}
    (returned : exec (writeEach platform readings numbered report) store = (.ok final, after)) :
    Counts report final (numbered.flatMap Prod.fst).length := by
  induction numbered generalizing report store with
  | nil =>
    cases returned
    exact .none _
  | cons pair rest inductionHypothesis =>
    obtain ⟨between, middle, wrote, returned⟩ := exec_bind_returned returned
    rw [List.flatMap_cons, List.length_append]
    exact (writeBatch_counts wrote).trans (inductionHypothesis returned)

/-- **A run that returned counted every candidate**, dry or not. -/
theorem ingestSource_counts {dryRun : Bool}
    (returned : exec (ingestSource platform readings source dryRun) store = (.ok report, after)) :
    Counts (startReport source) report (candidates source).length := by
  rw [ingestSource, exec_bind_ok (exec_get store)] at returned
  obtain ⟨⟨fresh, between⟩, middle, sifting, returned⟩ := exec_bind_returned returned
  obtain ⟨passed, counts, total⟩ := sift_counts sifting
  rw [← total]
  apply counts.trans
  cases dryRun with
  | true =>
    cases returned
    exact .ingested between _
  | false =>
    have counts : Counts between report ((numberedBatches fresh).flatMap Prod.fst).length :=
      writeEach_counts returned
    rwa [numberedBatches_flat] at counts

end Counting

section Sifting

variable {tables : Tables} {candidate : Candidate} {rest considered fresh : List Candidate}
  {report : Report}

/-- What a dry run tells about the candidates it considers. -/
def Foretold (platform : Platform) (tables : Tables) (existing : List String)
    (considered : List Candidate) (report : Report)
    (outcome : Except Error (List Candidate × Report)) : Prop :=
  match outcome with
  | .error _ => ∃ candidate ∈ considered, readable platform tables candidate = false
  | .ok (fresh, final) => (∀ candidate ∈ considered, readable platform tables candidate) ∧
      fresh = considered.filter (isNew existing) ∧
      final.ingested = report.ingested + (replacements platform tables considered).length ∧
      final.failed = report.failed

/-- The numbers that considering one candidate adds to. -/
theorem Foretold.next {between : Report} {outcome : Except Error (List Candidate × Report)}
    {update : List Candidate × Report → List Candidate × Report}
    (later : Foretold platform tables existing rest between outcome)
    (reads : readable platform tables candidate)
    (ingested : between.ingested =
      report.ingested + (replacement platform tables candidate).toList.length)
    (failed : between.failed = report.failed)
    (taken : ∀ result, update result =
      (if isNew existing candidate then candidate :: result.1 else result.1, result.2)) :
    Foretold platform tables existing (candidate :: rest) report (update <$> outcome) := by
  rcases outcome with error | ⟨fresh, final⟩
  · obtain ⟨other, member, unread⟩ := later
    exact ⟨other, List.mem_cons_of_mem candidate member, unread⟩
  · obtain ⟨readsRest, rfl, ingestedRest, failedRest⟩ := later
    change Foretold _ _ _ _ _ (.ok (update _))
    rw [taken]
    refine ⟨List.forall_mem_cons.mpr ⟨reads, readsRest⟩, ?_, ?_, failedRest.trans failed⟩
    · rw [List.filter_cons]
    · rw [ingestedRest, ingested, replacements, replacements, List.filterMap_cons]
      rcases replacement platform tables candidate with _ | old
      · rfl
      · simp only [Option.map_some, Option.toList_some, List.length_cons, List.length_nil]
        omega

/-- **Considering in a dry run** reads, and tells what it would do. -/
theorem sift_dry {candidates : List Candidate} {seen : List String} (report : Report)
    (knows : Knows existing store.database.tables candidates seen) :
    (exec (sift platform idle existing true candidates seen report) store).2 = store ∧
      Foretold platform store.database.tables existing (firsts seen candidates) report
        (exec (sift platform idle existing true candidates seen report) store).1 := by
  induction candidates generalizing seen report with
  | nil => exact ⟨rfl, by simp [firsts], rfl, rfl, rfl⟩
  | cons candidate rest inductionHypothesis =>
    obtain ⟨item, place⟩ := candidate
    rw [sift]
    split
    case h_1 bare =>
      have keyless : (item, place).1.externalId = none := bare
      obtain ⟨still, told⟩ := inductionHypothesis report knows.rest
      rw [firsts_keyless keyless, exec_taking]
      refine ⟨still, told.next (by simp [readable, bare]) ?_ rfl fun result => ?_⟩
      · rw [replacement, keyless]
        rfl
      · rw [if_pos (by simp [isNew, bare])]
    case h_2 key named =>
      have given : (item, place).1.externalId = some key := named
      split
      case isTrue duplicate =>
        rw [firsts_seen given duplicate]
        exact (inductionHypothesis { report with skippedExisting := report.skippedExisting + 1 }
          knows.rest : _ ∧ Foretold _ _ _ _ report _)
      case isFalse new =>
        rw [firsts_new given new]
        have stored := knows (item, place) List.mem_cons_self key given new
        have later := fun report => inductionHypothesis report (knows.later key)
        split
        case isTrue absent =>
          obtain ⟨still, told⟩ := later report
          have nothing := @getByExternalId_absent platform _ key fun held =>
            absent (stored.mpr held)
          rw [exec_taking]
          refine ⟨still, told.next ?_ ?_ rfl fun result => ?_⟩
          · simp [readable, named, nothing, Except.toOption]
          · rw [replacement_read given nothing]
            rfl
          · rw [if_pos (by simp [isNew, named, absent])]
        case isFalse present =>
          rw [exec_bind_ok (exec_get store)]
          rcases read : getByExternalId platform store.database.tables key with error | old
          · rw [exec_bind_error (exec_ofExcept _ _)]
            refine ⟨rfl, (item, place), List.mem_cons_self, ?_⟩
            simp [readable, named, read, Except.toOption]
          · have reads : readable platform store.database.tables (item, place) := by
              simp [readable, named, read, Except.toOption]
            have decision := replacement_read given read
            have old : isNew existing (item, place) = false := by
              simpa [isNew, named] using present
            have told : ∀ between : Report,
                between.ingested = report.ingested +
                  (replacement platform store.database.tables (item, place)).toList.length →
                between.failed = report.failed →
                (exec (sift platform idle existing true rest (key :: seen) between) store).2 =
                  store ∧
                Foretold platform store.database.tables existing
                  ((item, place) :: firsts (key :: seen) rest) report
                  (exec (sift platform idle existing true rest (key :: seen) between) store).1 := by
              intro between ingested failed
              obtain ⟨still, told⟩ := later between
              refine ⟨still, ?_⟩
              rw [← id_map (exec _ store).1]
              apply told.next reads ingested failed
              intro result
              rw [old]
              rfl
            rw [exec_bind_ok (exec_ofExcept _ _)]
            split
            case h_1 _ found chosen =>
              rw [chosen] at decision
              exact told _ (by rw [decision]; rfl) rfl
            case h_2 _ nothing =>
              rw [nothing] at decision
              exact told _ (by rw [decision]; rfl) rfl

end Sifting

/-- What a dry run gives. It counts as written whatever it considers new or changed. -/
def Promised (platform : Platform) (tables : Tables) (source : Source) : Except Error Report → Prop
  | .error _ => ∃ candidate ∈ considered source, readable platform tables candidate = false
  | .ok report => (∀ candidate ∈ considered source, readable platform tables candidate) ∧
      report.ingested = (replacements platform tables (considered source)).length +
        (newCandidates tables source).length ∧
      report.failed = sourceErrors source

/-- **A dry run changes nothing**, and fails only where a stored item that it meets cannot be
read. -/
theorem dry_run :
    (exec (ingestSource platform idle source true) store).2 = store ∧
      Promised platform store.database.tables source
        (exec (ingestSource platform idle source true) store).1 := by
  obtain ⟨still, told⟩ := @sift_dry platform idle (knownKeys store.database.tables source) store
    (candidates source) [] (startReport source) mem_knownKeys
  rw [ingestSource, exec_bind_ok (exec_get store)]
  change (exec (sift platform idle (knownKeys store.database.tables source) true
    (candidates source) [] (startReport source) >>= _) store).2 = _ ∧
    Promised _ _ _ (exec (sift platform idle (knownKeys store.database.tables source) true
      (candidates source) [] (startReport source) >>= _) store).1
  rcases sifting : exec (sift platform idle (knownKeys store.database.tables source) true
    (candidates source) [] (startReport source)) store with ⟨error | ⟨fresh, between⟩, middle⟩
  · rw [sifting] at still told
    rw [exec_bind_error sifting]
    exact ⟨still, told⟩
  · rw [sifting] at still told
    obtain ⟨reads, fresh, ingested, failed⟩ := told
    rw [exec_bind_ok sifting]
    refine ⟨still, reads, ?_, failed⟩
    change between.ingested + _ = _
    rw [ingested, fresh, startReport, Nat.zero_add]
    rfl

section Landings

variable {numbered : List (List Candidate × Nat)}

/-- A batch lands in part. -/
theorem landing_sublist (pair : List Candidate × Nat) :
    (landing platform readings pair.2 pair.1).Sublist pair.1 := List.filter_sublist

/-- So do batches. -/
theorem landings_sublist :
    (landings platform readings numbered).Sublist (numbered.flatMap Prod.fst) := by
  induction numbered with
  | nil => exact .slnil
  | cons head rest inductionHypothesis =>
    rw [landings, List.flatMap_cons, List.flatMap_cons, ← landings]
    exact (landing_sublist head).append inductionHypothesis

/-- Where as many land as there are, each batch lands whole. -/
theorem landing_whole
    (all : (landings platform readings numbered).length = (numbered.flatMap Prod.fst).length) :
    ∀ pair ∈ numbered, landing platform readings pair.2 pair.1 = pair.1 := by
  induction numbered with
  | nil => simp
  | cons head rest inductionHypothesis =>
    rw [landings, List.flatMap_cons, List.flatMap_cons, List.length_append, List.length_append,
      ← landings] at all
    have ofHead := (@landing_sublist platform readings head).length_le
    have ofRest := (@landings_sublist platform readings rest).length_le
    rw [List.forall_mem_cons]
    constructor
    · exact (landing_sublist head).eq_of_length (by omega)
    · exact inductionHypothesis (by omega)

/-- Batches that land whole. -/
theorem landings_whole
    (whole : ∀ pair ∈ numbered, landing platform readings pair.2 pair.1 = pair.1) :
    landings platform readings numbered = numbered.flatMap Prod.fst :=
  List.flatMap_congr whole

end Landings

/-- The dry run changes nothing, and tells the report of the real run; where one of them gives
none, neither does the other. -/
structure Predicts (platform : Platform) (idle readings : Readings) (store : Store)
    (source : Source) : Prop where
  still : (exec (ingestSource platform idle source true) store).2 = store
  same : (exec (ingestSource platform idle source true) store).1.toOption =
    (exec (ingestSource platform readings source false) store).1.toOption

/-- The store takes everything that the run considers. -/
structure Acceptable (platform : Platform) (readings : Readings) (store : Store) (source : Source) :
    Prop where
  /-- A read-only store has nothing to take. -/
  writable : store.readOnly = true →
    (∀ candidate ∈ considered source,
      replacement platform store.database.tables candidate = none) ∧
    newCandidates store.database.tables source = []
  accepted : ∀ candidate ∈ considered source,
    refused platform store.database.tables candidate = false
  /-- The clock reads 1970 or later where a stored item is replaced, and refuses no new one. -/
  recent : ∀ candidate ∈ considered source,
    replacement platform store.database.tables candidate ≠ none →
      (readings.alone candidate.2).Recent
  timely : ∀ pair ∈ numberedBatches (newCandidates store.database.tables source),
    Timely platform readings pair

namespace Acceptable

variable (acceptable : Acceptable platform readings store source)
include acceptable

/-- New candidates are valid and admissible. -/
theorem fresh : ∀ candidate ∈ newCandidates store.database.tables source,
    valid platform candidate.1 ∧ admissible store.database.tables candidate.1 := by
  intro candidate member
  apply (refused_new member).mp
  exact acceptable.accepted candidate (mem_newCandidates.mp member).1

/-- They all land. -/
theorem landings_eq :
    landings platform readings (numberedBatches (newCandidates store.database.tables source)) =
      newCandidates store.database.tables source := by
  have flat := numberedBatches_flat (newCandidates store.database.tables source)
  rw [landings_whole, flat]
  intro pair pairIn
  apply List.filter_eq_self.mpr
  intro candidate member
  have inNew : candidate ∈ newCandidates store.database.tables source := by
    rw [← flat]
    exact List.mem_flatMap.mpr ⟨pair, pairIn, member⟩
  have lands := acceptable.timely pair pairIn candidate member (acceptable.fresh candidate inNew).1
  exact (List.mem_filter.mp lands).2

/-- **The real run returns.** -/
theorem returns (minting : FreshMints platform readings store.database.tables source)
    (reads : ∀ candidate ∈ considered source, readable platform store.database.tables candidate) :
    ∃ report after,
      exec (ingestSource platform readings source false) store = (.ok report, after) := by
  cases mode : store.readOnly with
  | true =>
    obtain ⟨keeps, nothing⟩ := acceptable.writable mode
    obtain ⟨report, returned, _⟩ := @run_idle platform readings source store reads keeps nothing
    exact ⟨report, store, returned⟩
  | false =>
    apply run_returns minting mode reads
    · exact fun candidate member replaces =>
        ⟨acceptable.accepted candidate member, acceptable.recent candidate member replaces⟩
    · exact acceptable.timely
    · exact fun candidate member _ => (acceptable.fresh candidate member).2

end Acceptable

variable {report : Report}

/-- What a run that returned counted. -/
theorem real_run
    (returned : exec (ingestSource platform readings source false) store = (.ok report, after)) :
    (∀ candidate ∈ considered source, readable platform store.database.tables candidate) ∧
      report.ingested = (replacements platform store.database.tables (considered source)).length +
        (landings platform readings
          (numberedBatches (newCandidates store.database.tables source))).length ∧
      report.failed + (landings platform readings
          (numberedBatches (newCandidates store.database.tables source))).length =
        sourceErrors source + (newCandidates store.database.tables source).length := by
  obtain ⟨middle, between, sifted, _, ingested, failed, _⟩ := @ingestSource_returned platform
    readings (fun _ => True) source report store after (fun _ _ => trivial)
    (fun _ _ _ _ => trivial) returned
  refine ⟨?_, ?_, ?_⟩
  · intro candidate member
    refine readable_iff.mpr fun key given held => ?_
    obtain ⟨old, read⟩ := sifted.reads candidate member key given held
    exact ⟨some old, read⟩
  · rw [ingested, sifted.ingested, startReport, Nat.zero_add]
  · rw [failed, sifted.failed]
    rfl

/-- Reports of two runs over one source with the same numbers of written and failed items. -/
theorem reports_agree {left right : Report}
    (leftCounts : Counts (startReport source) left (candidates source).length)
    (rightCounts : Counts (startReport source) right (candidates source).length)
    (ingested : left.ingested = right.ingested) (failed : left.failed = right.failed) :
    left = right := by
  obtain ⟨leftCounted, leftFiltered⟩ := leftCounts
  obtain ⟨rightCounted, rightFiltered⟩ := rightCounts
  rw [← leftFiltered] at rightFiltered
  rw [← leftCounted] at rightCounted
  cases left
  cases right
  simp only [Report.counted, Report.mk.injEq] at *
  omega

/-- **A dry run predicts** where the store takes everything. -/
theorem predicts_of_acceptable (minting : FreshMints platform readings store.database.tables source)
    (acceptable : (∀ candidate ∈ considered source,
      readable platform store.database.tables candidate) →
        Acceptable platform readings store source) :
    Predicts platform idle readings store source := by
  obtain ⟨still, promised⟩ := @dry_run platform idle source store
  refine ⟨still, ?_⟩
  rcases dry : exec (ingestSource platform idle source true) store with ⟨error | report, middle⟩
  · rw [dry] at promised
    obtain ⟨candidate, member, unread⟩ := promised
    rcases real : exec (ingestSource platform readings source false) store with
      ⟨failure | report, after⟩
    · rfl
    · have reads := (real_run real).1 candidate member
      rw [unread] at reads
      cases reads
  · rw [dry] at promised
    obtain ⟨reads, ingested, failed⟩ := promised
    have taken := acceptable reads
    obtain ⟨told, after, real⟩ := taken.returns minting reads
    obtain ⟨_, wrote, rejected⟩ := real_run real
    rw [taken.landings_eq] at wrote rejected
    rw [real]
    apply congrArg some
    apply reports_agree (ingestSource_counts dry) (ingestSource_counts real)
    · exact ingested.trans wrote.symm
    · omega

/-- **Where a dry run predicts** and can read what it meets, the store takes everything. -/
theorem acceptable_of_predicts (minting : FreshMints platform readings store.database.tables source)
    (predicts : Predicts platform idle readings store source)
    (reads : ∀ candidate ∈ considered source, readable platform store.database.tables candidate) :
    Acceptable platform readings store source := by
  obtain ⟨_, promised⟩ := @dry_run platform idle source store
  have same := predicts.same
  rcases dry : exec (ingestSource platform idle source true) store with ⟨error | report, middle⟩
  · rw [dry] at promised
    obtain ⟨candidate, member, unread⟩ := promised
    rw [reads candidate member] at unread
    cases unread
  rw [dry] at promised same
  obtain ⟨_, promisedIngested, _⟩ := promised
  rcases real : exec (ingestSource platform readings source false) store with ⟨error | told, after⟩
  · rw [real] at same
    cases same
  rw [real] at same
  obtain rfl : report = told := Option.some.inj same
  obtain ⟨_, ingested, _⟩ := real_run real
  have flat := numberedBatches_flat (newCandidates store.database.tables source)
  have whole := @landing_whole platform readings
    (numberedBatches (newCandidates store.database.tables source)) (by rw [flat]; omega)
  have all := landings_whole whole
  rw [flat] at all
  obtain ⟨between, middle, sifted, landed, _⟩ := run_parts real
  rw [all] at landed
  have admissible := admissible_of_landed minting sifted landed fun candidate member =>
    (firsts_sublist [] _).subset (mem_newCandidates.mp member).1
  constructor
  case writable =>
    intro locked
    have told := @run_locked platform readings source store locked
    rw [real] at told
    exact told.2
  case accepted =>
    intro candidate member
    by_cases replaces : replacement platform store.database.tables candidate = none
    case neg =>
      obtain ⟨_, check, validated, _⟩ := sifted.replaces candidate member replaces
      exact (refused_replacing replaces).mpr ⟨valid_iff.mpr validated, check⟩
    case pos =>
      by_cases stored : isStored store.database.tables candidate
      · rw [refused, if_pos stored, replaces]
        rfl
      · have inNew : candidate ∈ newCandidates store.database.tables source := by
          rw [newCandidates_eq, List.mem_filter]
          exact ⟨member, by simpa using stored⟩
        apply (refused_new inNew).mpr
        exact ⟨(landed.accepted candidate inNew).1, admissible candidate inNew⟩
  case recent =>
    intro candidate member replaces
    exact (sifted.replaces candidate member replaces).1
  case timely =>
    intro pair pairIn candidate member _
    rw [whole pair pairIn]
    exact member

/-- **A dry run predicts the real run** exactly where a stored item that it meets cannot be
read, so that both fail, or the store takes everything that the run considers. -/
theorem dry_run_predicts_iff (minting : FreshMints platform readings store.database.tables source) :
    Predicts platform idle readings store source ↔
      ((∀ candidate ∈ considered source, readable platform store.database.tables candidate) →
        Acceptable platform readings store source) :=
  ⟨acceptable_of_predicts minting, predicts_of_acceptable minting⟩

/-- A stored file that changed, its repetition, a new one, one without a hash and an error. -/
def steadySource : Source :=
  ⟨[.ok (file "changed" "04" "a"), .ok (file "again" "05" "a"), .ok (file "new" "06" "c"),
    .ok { file "bare" "07" "d" with metadata := .object [] }, .error "unreadable"], 0,
    fun _ => some "Notes"⟩

theorem steadySource_minting :
    FreshMints epochPlatform (counting 100) mixedRun.2.database.tables steadySource where
  apart := by decide +kernel
  unused := by
    unfold Unused
    decide +kernel
  unnamed := by decide +kernel

theorem steadySource_acceptable :
    Acceptable epochPlatform (counting 100) mixedRun.2 steadySource where
  writable := by decide +kernel
  accepted := by decide +kernel
  recent := by decide +kernel
  timely := by
    intro pair _
    apply Timely.of_recent
    intro candidate _
    exact Int.le_refl 0

/-- Its dry run tells that three items would be written. -/
theorem steadySource_predicted :
    Predicts epochPlatform (counting 200) (counting 100) mixedRun.2 steadySource ∧
      (exec (ingestSource epochPlatform (counting 200) steadySource true) mixedRun.2).1.toOption =
        some ⟨3, 1, 0, 1⟩ :=
  ⟨(dry_run_predicts_iff steadySource_minting).mpr fun _ => steadySource_acceptable,
    by decide +kernel⟩

/-- A dry run counts the file without content as written, where the real run rejects it. -/
theorem empty_file_is_mispredicted :
    ¬ Predicts epochPlatform (counting 200) (counting 100) mixedRun.2 nextSource := by
  have told : (exec (ingestSource epochPlatform (counting 200) nextSource true)
      mixedRun.2).1.toOption = some ⟨3, 0, 0, 1⟩ := by decide +kernel
  have found : (exec (ingestSource epochPlatform (counting 100) nextSource false)
      mixedRun.2).1.toOption = some ⟨2, 0, 0, 2⟩ := by decide +kernel
  intro predicts
  have same := predicts.same
  rw [told, found] at same
  cases same

end Singularmem.Ingest
