import Singularmem.Ingest.Batches
import Singularmem.Ingest.SiftRuns

/-!
# Running an ingest again

A second run over the same source writes nothing, whatever the clock and the generator
then give, exactly where the first run wrote no item that cannot be read back and refused
no valid item because the clock read before 1970.
-/

namespace Singularmem.Ingest

open Library Singularmem.Core
open Effect hiding ofExcept

variable {platform : Platform} {readings : Readings} {mints : ItemId → Prop}

/-- The keys of a source that the store has. -/
def knownKeys (tables : Tables) (source : Source) : List String :=
  existingExternalIds tables
    ((candidates source).filterMap fun candidate => candidate.1.externalId)

/-- The candidates that are not repetitions. -/
def considered (source : Source) : List Candidate := firsts [] (candidates source)

/-- Those that the store does not have. -/
def newCandidates (tables : Tables) (source : Source) : List Candidate :=
  (considered source).filter (isNew (knownKeys tables source))

/-- The report before the first candidate. -/
def startReport (source : Source) : Report := ⟨0, 0, source.filteredCount, sourceErrors source⟩

/-- A key of a source is known where the store has it. -/
theorem mem_knownKeys {tables : Tables} {source : Source} :
    Knows (knownKeys tables source) tables (candidates source) [] := by
  intro candidate member key given _
  rw [knownKeys, mem_existingExternalIds]
  exact and_iff_right (List.mem_filterMap.mpr ⟨candidate, member, given⟩)

/-- A new candidate has no stored key. -/
theorem mem_newCandidates {tables : Tables} {source : Source} {candidate : Candidate} :
    candidate ∈ newCandidates tables source ↔ candidate ∈ considered source ∧
      ∀ key ∈ candidate.1.externalId, ¬ tables.carries key := by
  rw [newCandidates, List.mem_filter]
  refine and_congr_right fun member => ?_
  have inSource := (firsts_sublist [] (candidates source)).subset member
  rcases given : candidate.1.externalId with _ | key
  · simp [isNew, given]
  · have known := @mem_knownKeys tables source candidate inSource key given (List.not_mem_nil)
    simp [isNew, given, known]

/-- New candidates have distinct keys. -/
theorem newCandidates_distinct (tables : Tables) (source : Source) :
    DistinctKeys (newCandidates tables source) :=
  (firsts_nodup [] (candidates source)).sublist (List.filter_sublist.filterMap _)

/-- **What a run did.** -/
theorem ingestSource_returned {source : Source} {report : Report} {store after : Store}
    (alone : ∀ candidate ∈ newCandidates store.database.tables source,
      mints ((readings.alone candidate.2).mint 0))
    (bulk : ∀ pair ∈ numberedBatches (newCandidates store.database.tables source),
      ∀ draw < pair.1.length, mints ((readings.batch pair.2).mint draw))
    (returned : exec (ingestSource platform readings source false) store = (.ok report, after)) :
    ∃ middle between,
      Sifted platform readings (knownKeys store.database.tables source) store.database.tables
        middle (considered source) (newCandidates store.database.tables source)
        (startReport source) between ∧
      Landed platform mints middle after.database.tables
        (landings platform readings (numberedBatches (newCandidates store.database.tables source))) ∧
      report.ingested = between.ingested +
        (landings platform readings
          (numberedBatches (newCandidates store.database.tables source))).length ∧
      report.failed + (landings platform readings
          (numberedBatches (newCandidates store.database.tables source))).length =
        between.failed + (newCandidates store.database.tables source).length ∧
      (newCandidates store.database.tables source ≠ [] → after.readOnly = false) := by
  rw [ingestSource, exec_bind_ok (exec_get store)] at returned
  obtain ⟨⟨fresh, between⟩, middle, sifting, returned⟩ := exec_bind_returned returned
  obtain ⟨sifted, same⟩ := sift_returned mem_knownKeys sifting
  have freshEq : fresh = newCandidates store.database.tables source := sifted.fresh
  change exec (writeEach platform readings (numberedBatches fresh) between) middle = _ at returned
  rw [freshEq] at returned
  have flat := numberedBatches_flat (newCandidates store.database.tables source)
  have free : FreeKeys middle.database.tables (newCandidates store.database.tables source) := by
    intro candidate member key given held
    exact (mem_newCandidates.mp member).2 key given ((sifted.carries key).mp held)
  obtain ⟨landed, ingested, failed, writable, still⟩ := writeEach_returned
    (fun pair member => (numberedBatches_sized member).1)
    (fun candidate member => alone candidate (flat ▸ member)) bulk
    (flat.symm ▸ newCandidates_distinct _ _) (flat.symm ▸ free) returned
  rw [flat] at failed
  refine ⟨middle.database.tables, between, freshEq ▸ sifted, landed, ingested, failed, fun some => ?_⟩
  rw [still]
  refine writable fun none => some ?_
  rw [← flat, none]
  rfl

section Rejected

variable {store : Store}

/-- Items that do not validate are counted and change nothing. -/
theorem writeSingly_rejected {batch : List Candidate} (report : Report)
    (writable : store.readOnly = false)
    (rejected : ∀ candidate ∈ batch, ¬ valid platform candidate.1) :
    ∃ final, exec (writeSingly platform readings batch report) store = (.ok final, store) ∧
      final.ingested = report.ingested := by
  induction batch generalizing report with
  | nil => exact ⟨_, rfl, rfl⟩
  | cons candidate rest inductionHypothesis =>
    obtain ⟨item, place⟩ := candidate
    obtain ⟨error, refused⟩ := invalid_iff.mp (rejected _ List.mem_cons_self)
    obtain ⟨field, reason, rfl⟩ := validate_rejecting item _ refused
    have called := @ingest_invalid _ (readings.alone place) _ _ _ writable refused
    rw [writeSingly, exec_bind_ok (exec_attempt _ store), called]
    exact inductionHypothesis { report with failed := report.failed + 1 }
      fun other member => rejected other (List.mem_cons_of_mem _ member)

/-- So is a batch of them. -/
theorem writeBatch_rejected {batch : List Candidate} {number : Nat} (report : Report)
    (writable : store.readOnly = false) (some : batch ≠ [])
    (rejected : ∀ candidate ∈ batch, ¬ valid platform candidate.1) :
    ∃ final, exec (writeBatch platform readings number batch report) store = (.ok final, store) ∧
      final.ingested = report.ingested := by
  rcases accepted : (batch.map Prod.fst).mapM (validate platform) with error | validated
  · obtain ⟨item, _, refused⟩ := mapM_threw accepted
    obtain ⟨field, reason, rfl⟩ := validate_rejecting item _ refused
    have called := @ingestMany_invalid _ (readings.batch number) _ _ _ writable accepted
    rw [writeBatch, exec_bind_ok (exec_attempt _ store), called]
    exact writeSingly_rejected report writable rejected
  · obtain ⟨candidate, member⟩ := List.exists_mem_of_ne_nil batch some
    obtain ⟨error, refused⟩ := invalid_iff.mp (rejected candidate member)
    obtain ⟨_, _, returned⟩ := mapM_returned_each accepted (List.mem_map_of_mem member)
    rw [refused] at returned
    cases returned

/-- So are batches of them. -/
theorem writeEach_rejected {numbered : List (List Candidate × Nat)} (report : Report)
    (writable : numbered ≠ [] → store.readOnly = false) (some : ∀ pair ∈ numbered, pair.1 ≠ [])
    (rejected : ∀ candidate ∈ numbered.flatMap Prod.fst, ¬ valid platform candidate.1) :
    ∃ final, exec (writeEach platform readings numbered report) store = (.ok final, store) ∧
      final.ingested = report.ingested := by
  induction numbered generalizing report with
  | nil => exact ⟨_, rfl, rfl⟩
  | cons pair rest inductionHypothesis =>
    obtain ⟨batch, number⟩ := pair
    rw [List.flatMap_cons] at rejected
    have writable := writable (List.cons_ne_nil _ _)
    obtain ⟨middle, wrote, kept⟩ := @writeBatch_rejected platform readings store batch number report writable
      (some _ List.mem_cons_self) fun other member => rejected other (List.mem_append_left _ member)
    rw [writeEach, exec_bind_ok wrote, ← kept]
    exact inductionHypothesis middle (fun _ => writable)
      (fun pair member => some pair (List.mem_cons_of_mem _ member))
      fun other member => rejected other (List.mem_append_right _ member)

end Rejected

/-- Rendered instants from 1970 on are read back. -/
def ReadsTimes (platform : Platform) : Prop :=
  ∀ instant : Timestamp, 0 ≤ instant.asMillisecond →
    (platform.parseTimestamp (platform.displayTime instant)).isSome

/-- Rereading keeps the content hash. -/
theorem contentHash_reread (metadata : Json) :
    contentHash (metadata.reread platform) = contentHash metadata := by
  cases metadata with
  | object members =>
    simp only [contentHash, Json.reread, Json.get]
    induction members with
    | nil => rfl
    | cons member rest inductionHypothesis =>
      obtain ⟨name, value⟩ := member
      rw [Json.rereadMembers, List.find?_cons, List.find?_cons]
      by_cases named : name = "sha256"
      · simp only [named, decide_true, Option.map_some, Option.bind_some]
        cases value <;> rfl
      · simp only [named, decide_false]
        exact inductionHypothesis
  | _ => rfl

/-- A value does not differ from itself. -/
theorem differs_self (hash : Option String) : differs hash hash = false := by
  cases hash <;> simp [differs]

/-- What was written of a submission is read back where its metadata nests below the limit,
and then it is not replaced by the same submission. -/
theorem Holds.settled {tables : Tables} {candidate : Candidate} (times : ReadsTimes platform)
    (holds : Holds platform tables candidate.1)
    (shallow : candidate.1.metadata.depth < Json.recursionLimit) :
    (∀ key ∈ candidate.1.externalId, ∃ old, getByExternalId platform tables key = .ok old) ∧
      replacement platform tables candidate = none := by
  rcases given : candidate.1.externalId with _ | key
  · refine ⟨by simp, ?_⟩
    rw [replacement, given]
    rfl
  obtain ⟨shelved, member, carried, metadata, instant, recent, createdAt⟩ := holds key given
  obtain ⟨parsed, read⟩ := Option.isSome_iff_exists.mp (times instant recent)
  rw [← createdAt] at read
  have shallow : shelved.1.metadata.depth < Json.recursionLimit := metadata ▸ shallow
  have lookup : getByExternalId platform tables key = .ok (some ⟨shelved.1.id, shelved.1.content,
      parsed, shelved.1.supersedes, shelved.2, shelved.1.source, shelved.1.metadata.reread platform,
      shelved.1.externalId, shelved.1.scope⟩) := by
    rw [getByExternalId_carried member carried, readShelved, parseCreatedAt, read, Json.parse,
      if_pos shallow]
    rfl
  refine ⟨?_, ?_⟩
  · rintro other ⟨⟩
    exact ⟨_, lookup⟩
  · rw [replacement_read given lookup, Option.filter_some, contentHash_reread, metadata, differs_self]
    rfl

/-- Elsewhere it cannot be read. -/
theorem Holds.unreadable {tables : Tables} {item : NewItem} {key : String} {old : Option Item}
    (holds : Holds platform tables item) (given : item.externalId = some key)
    (deep : ¬ item.metadata.depth < Json.recursionLimit) :
    getByExternalId platform tables key ≠ .ok old := by
  obtain ⟨shelved, member, carried, metadata, _⟩ := holds key given
  have deep : ¬ shelved.1.metadata.depth < Json.recursionLimit := metadata ▸ deep
  rw [getByExternalId_carried member carried, readShelved]
  intro read
  rcases created : parseCreatedAt platform shelved.1.createdAt with error | instant
  · rw [created] at read
    cases read
  · rw [created, Json.parse, if_neg deep] at read
    cases read

section Fates

variable {before middle after : Tables} {source : Source} {between : Report} {candidate : Candidate}
  {key : String}

/-- Two considered candidates with one key are one. -/
theorem considered_unique {other : Candidate} (member : candidate ∈ considered source)
    (otherIn : other ∈ considered source) (given : candidate.1.externalId = some key)
    (otherGiven : other.1.externalId = some key) : candidate = other :=
  DistinctKeys.unique (firsts_nodup [] (candidates source)) member otherIn given otherGiven

/-- What lands is new. -/
theorem landings_new
    (member : candidate ∈ landings platform readings (numberedBatches (newCandidates before source))) :
    candidate ∈ newCandidates before source := by
  have written := landings_subset member
  rwa [numberedBatches_flat] at written

/-- A candidate that replaces an item is not new. -/
theorem replacement_new (member : candidate ∈ newCandidates before source) :
    replacement platform before candidate = none := by
  rcases given : candidate.1.externalId with _ | key
  · rw [replacement, given]
    rfl
  · have absent := (mem_newCandidates.mp member).2 key given
    exact replacement_read given (getByExternalId_absent absent)

variable (sifted : Sifted platform readings (knownKeys before source) before middle
    (considered source) (newCandidates before source) (startReport source) between)
  (landed : Landed platform mints middle after
    (landings platform readings (numberedBatches (newCandidates before source))))

include sifted landed

/-- What a skipped candidate meets stays as it was. -/
theorem fate_skipped (member : candidate ∈ considered source)
    (given : candidate.1.externalId = some key) (stored : before.carries key)
    (keeps : replacement platform before candidate = none) : SameUnder key before after := by
  refine (sifted.frame key fun other otherIn otherGiven => ?_).trans
    (landed.frame key fun other otherIn otherGiven => ?_)
  · rw [← considered_unique member otherIn given otherGiven]
    exact keeps
  · exact (mem_newCandidates.mp (landings_new otherIn)).2 key otherGiven stored

/-- A candidate that replaced an item is stored. -/
theorem fate_replacing (member : candidate ∈ considered source)
    (replaces : replacement platform before candidate ≠ none) : Holds platform after candidate.1 := by
  refine (sifted.replaces candidate member replaces).2.2.2.frame fun key given => ?_
  refine landed.frame key fun other otherIn otherGiven => ?_
  have otherNew := landings_new otherIn
  rw [← considered_unique member (mem_newCandidates.mp otherNew).1 given otherGiven] at otherNew
  exact replaces (replacement_new otherNew)

/-- Nothing is stored under the key of a new candidate that did not land. -/
theorem fate_missed (member : candidate ∈ newCandidates before source)
    (given : candidate.1.externalId = some key)
    (missed : candidate ∉ landings platform readings (numberedBatches (newCandidates before source))) :
    ¬ after.carries key := by
  have same : SameUnder key middle after := by
    refine landed.frame key fun other otherIn otherGiven => missed ?_
    rwa [considered_unique (mem_newCandidates.mp member).1
      (mem_newCandidates.mp (landings_new otherIn)).1 given otherGiven]
  rw [same.carries, sifted.carries]
  exact (mem_newCandidates.mp member).2 key given

end Fates

/-- What holds a submission carries its key. -/
theorem Holds.carries {tables : Tables} {item : NewItem} {key : String}
    (holds : Holds platform tables item) (given : item.externalId = some key) : tables.carries key := by
  obtain ⟨shelved, member, carried, _⟩ := holds key given
  exact ⟨shelved, member, carried⟩

/-- The condition under which a run can be repeated. -/
structure Repeatable (platform : Platform) (readings : Readings) (tables : Tables) (source : Source) :
    Prop where
  /-- What replaces a stored item can be read back. -/
  replacing : ∀ candidate ∈ considered source, replacement platform tables candidate ≠ none →
    candidate.1.metadata.depth < Json.recursionLimit
  /-- A valid new item can be read back, and it is not refused for an early clock. -/
  landing : ∀ pair ∈ numberedBatches (newCandidates tables source), ∀ candidate ∈ pair.1,
    valid platform candidate.1 → candidate.1.metadata.depth < Json.recursionLimit ∧
      (wholeLands platform readings pair.2 pair.1 ∨ (readings.alone candidate.2).Recent)

section Rerun

variable {source : Source} {report : Report} {store after : Store}

/-- What lands validates, and its whole batch or its own clock reading let it. -/
theorem mem_landings {numbered : List (List Candidate × Nat)} {candidate : Candidate} :
    candidate ∈ landings platform readings numbered ↔ ∃ pair ∈ numbered, candidate ∈ pair.1 ∧
      (wholeLands platform readings pair.2 pair.1 ∨ landsAlone platform readings candidate) := by
  simp [landings, landing, List.mem_flatMap]

/-- **Where the condition holds, the second run writes nothing.** -/
theorem rerun_of_repeatable (keyed : ∀ candidate ∈ candidates source, candidate.1.externalId.isSome)
    (times : ReadsTimes platform)
    (returned : exec (ingestSource platform readings source false) store = (.ok report, after))
    (repeatable : Repeatable platform readings store.database.tables source) (again : Readings) :
    ∃ second, exec (ingestSource platform again source false) after = (.ok second, after) ∧
      second.ingested = 0 := by
  obtain ⟨middle, between, sifted, landed, _, _, writable⟩ := @ingestSource_returned platform readings
    (fun _ => True) source report store after (fun _ _ => trivial) (fun _ _ _ _ => trivial) returned
  have settled : ∀ candidate ∈ considered source, ∀ key, candidate.1.externalId = some key →
      after.database.tables.carries key →
        (∃ old, getByExternalId platform after.database.tables key = .ok old) ∧
          replacement platform after.database.tables candidate = none := by
    intro candidate member key given held
    by_cases stored : store.database.tables.carries key
    · by_cases keeps : replacement platform store.database.tables candidate = none
      · have same := fate_skipped sifted landed member given stored keeps
        obtain ⟨old, read⟩ := sifted.reads candidate member key given stored
        refine ⟨⟨old, same.lookup.trans read⟩, ?_⟩
        rw [replacement_congr fun other otherGiven => ?_, keeps]
        rwa [← Option.some.inj (given.symm.trans otherGiven)]
      · have holds := fate_replacing sifted landed member keeps
        obtain ⟨reads, none⟩ := holds.settled times (repeatable.replacing candidate member keeps)
        exact ⟨reads key given, none⟩
    · have new : candidate ∈ newCandidates store.database.tables source := by
        refine mem_newCandidates.mpr ⟨member, fun other otherGiven => ?_⟩
        rwa [← Option.some.inj (given.symm.trans otherGiven)]
      by_cases lands : candidate ∈ landings platform readings
          (numberedBatches (newCandidates store.database.tables source))
      · obtain ⟨pair, pairIn, inBatch, _⟩ := mem_landings.mp lands
        have shallow := (repeatable.landing pair pairIn candidate inBatch
          (landed.accepted candidate lands).1).1
        obtain ⟨reads, none⟩ := (landed.holds candidate lands).settled times shallow
        exact ⟨reads key given, none⟩
      · exact absurd held (fate_missed sifted landed new given lands)
  have keeps : ∀ candidate ∈ considered source,
      replacement platform after.database.tables candidate = none := by
    intro candidate member
    rcases given : candidate.1.externalId with _ | key
    · rw [replacement, given]
      rfl
    · by_cases held : after.database.tables.carries key
      · exact (settled candidate member key given held).2
      · exact replacement_read given (getByExternalId_absent held)
  have rejected : ∀ candidate ∈ newCandidates after.database.tables source,
      candidate ∈ newCandidates store.database.tables source ∧ ¬ valid platform candidate.1 := by
    intro candidate member
    obtain ⟨inConsidered, absent⟩ := mem_newCandidates.mp member
    obtain ⟨key, given⟩ := Option.isSome_iff_exists.mp
      (keyed candidate ((firsts_sublist [] _).subset inConsidered))
    have absent := absent key given
    have unstored : ¬ store.database.tables.carries key := by
      intro stored
      by_cases keeps : replacement platform store.database.tables candidate = none
      · exact absent ((fate_skipped sifted landed inConsidered given stored keeps).carries.mpr stored)
      · exact absent ((fate_replacing sifted landed inConsidered keeps).carries given)
    have new : candidate ∈ newCandidates store.database.tables source := by
      refine mem_newCandidates.mpr ⟨inConsidered, fun other otherGiven => ?_⟩
      rwa [← Option.some.inj (given.symm.trans otherGiven)]
    refine ⟨new, fun validated => ?_⟩
    have written := new
    rw [← numberedBatches_flat (newCandidates store.database.tables source)] at written
    obtain ⟨pair, pairIn, inBatch⟩ := List.mem_flatMap.mp written
    have lets := (repeatable.landing pair pairIn candidate inBatch validated).2
    have lands : candidate ∈ landings platform readings
        (numberedBatches (newCandidates store.database.tables source)) := by
      refine mem_landings.mpr ⟨pair, pairIn, inBatch, lets.imp_right fun recent => ?_⟩
      rw [landsAlone, validated, decide_eq_true recent]
      rfl
    exact absent ((landed.holds candidate lands).carries given)
  obtain ⟨⟨fresh, middleReport⟩, idle⟩ := @sift_idle platform again
    (knownKeys after.database.tables source) (candidates source) [] (startReport source) after
    mem_knownKeys (fun candidate member key given held =>
      (settled candidate member key given held).1) keeps
  obtain ⟨resifted, _⟩ := sift_returned mem_knownKeys idle
  have freshEq : fresh = newCandidates after.database.tables source := resifted.fresh
  have flat := numberedBatches_flat (newCandidates after.database.tables source)
  obtain ⟨final, wrote, kept⟩ := @writeEach_rejected platform again after
    (numberedBatches (newCandidates after.database.tables source)) middleReport
    (fun some => by
      obtain ⟨pair, pairIn⟩ := List.exists_mem_of_ne_nil _ some
      obtain ⟨candidate, inBatch⟩ := List.exists_mem_of_ne_nil _ (numberedBatches_sized pairIn).1
      have member : candidate ∈ newCandidates after.database.tables source := by
        rw [← flat]
        exact List.mem_flatMap.mpr ⟨pair, pairIn, inBatch⟩
      exact writable (List.ne_nil_of_mem (rejected candidate member).1))
    (fun pair pairIn => (numberedBatches_sized pairIn).1)
    (fun candidate member => (rejected candidate (flat ▸ member)).2)
  refine ⟨final, ?_, ?_⟩
  · rw [ingestSource, exec_bind_ok (exec_get after)]
    change exec (sift platform again (knownKeys after.database.tables source) false
      (candidates source) [] (startReport source) >>= _) after = _
    rw [exec_bind_ok idle, freshEq]
    exact wrote
  · have nothing : replacements platform after.database.tables (considered source) = [] := by
      rw [replacements, List.filterMap_eq_nil_iff]
      intro candidate member
      rw [keeps candidate member]
      rfl
    have ingested : middleReport.ingested =
        0 + (replacements platform after.database.tables (considered source)).length := resifted.ingested
    rw [kept, ingested, nothing]
    rfl

/-- **Where the second run writes nothing, the condition holds.** -/
theorem repeatable_of_rerun
    (keyed : ∀ candidate ∈ candidates source, candidate.1.externalId.isSome)
    (returned : exec (ingestSource platform readings source false) store = (.ok report, after))
    (rerun : ∀ again : Readings, ∃ second,
      exec (ingestSource platform again source false) after = (.ok second, after) ∧
        second.ingested = 0) :
    Repeatable platform readings store.database.tables source := by
  obtain ⟨middle, between, sifted, landed, _⟩ := @ingestSource_returned platform readings
    (fun _ => True) source report store after (fun _ _ => trivial) (fun _ _ _ _ => trivial) returned
  let epoch : Env := ⟨⟨0, by omega, by omega⟩, fun _ => 0⟩
  have recent : epoch.Recent := by
    change 0 ≤ Int.tdiv 0 1000000
    decide
  obtain ⟨second, reran, none⟩ := rerun ⟨fun _ => epoch, fun _ => epoch, fun _ => epoch⟩
  obtain ⟨_, middleReport, resifted, _, ingested, _⟩ := @ingestSource_returned platform _
    (fun _ => True) source second after after (fun _ _ => trivial) (fun _ _ _ _ => trivial) reran
  have shallow : ∀ candidate ∈ considered source, Holds platform after.database.tables candidate.1 →
      candidate.1.metadata.depth < Json.recursionLimit := by
    intro candidate member holds
    obtain ⟨key, given⟩ := Option.isSome_iff_exists.mp
      (keyed candidate ((firsts_sublist [] _).subset member))
    obtain ⟨old, read⟩ := resifted.reads candidate member key given (holds.carries given)
    by_contra deep
    exact holds.unreadable given deep read
  refine ⟨fun candidate member replaces =>
    shallow candidate member (fate_replacing sifted landed member replaces), ?_⟩
  intro pair pairIn candidate inBatch validated
  have new : candidate ∈ newCandidates store.database.tables source := by
    rw [← numberedBatches_flat (newCandidates store.database.tables source)]
    exact List.mem_flatMap.mpr ⟨pair, pairIn, inBatch⟩
  have member := (mem_newCandidates.mp new).1
  obtain ⟨key, given⟩ := Option.isSome_iff_exists.mp
    (keyed candidate ((firsts_sublist [] _).subset member))
  by_cases lands : candidate ∈ landings platform readings
      (numberedBatches (newCandidates store.database.tables source))
  · refine ⟨shallow candidate member (landed.holds candidate lands), ?_⟩
    obtain ⟨other, otherIn, inOther, lets⟩ := mem_landings.mp lands
    have distinct := newCandidates_distinct store.database.tables source
    rw [← numberedBatches_flat (newCandidates store.database.tables source)] at distinct
    obtain rfl := distinct.one_batch pairIn otherIn given inBatch inOther
    refine lets.imp_right fun alone => ?_
    rw [landsAlone, Bool.and_eq_true] at alone
    exact of_decide_eq_true alone.2
  · exfalso
    have stillNew : candidate ∈ newCandidates after.database.tables source := by
      refine mem_newCandidates.mpr ⟨member, fun other otherGiven => ?_⟩
      rw [← Option.some.inj (given.symm.trans otherGiven)]
      exact fate_missed sifted landed new given lands
    rw [← numberedBatches_flat (newCandidates after.database.tables source)] at stillNew
    obtain ⟨other, otherIn, inOther⟩ := List.mem_flatMap.mp stillNew
    have landsNow := @mem_landings platform ⟨fun _ => epoch, fun _ => epoch, fun _ => epoch⟩
      (numberedBatches (newCandidates after.database.tables source)) candidate |>.mpr
      ⟨other, otherIn, inOther, .inr (by
        rw [landsAlone, validated, decide_eq_true recent]
        rfl)⟩
    have some := List.length_pos_of_mem landsNow
    omega

/-- The candidates of a source whose items all carry a key. -/
theorem candidates_keyed (keyed : ∀ item, .ok item ∈ source.items → item.externalId.isSome) :
    ∀ candidate ∈ candidates source, candidate.1.externalId.isSome := by
  rintro ⟨item, place⟩ member
  have inItems := List.mem_map_of_mem (f := Prod.fst) member
  rw [candidates, List.zipIdx_map_fst] at inItems
  obtain ⟨yielded, yieldedIn, same⟩ := List.mem_filterMap.mp inItems
  rcases yielded with error | given
  · cases same
  · have some := keyed given yieldedIn
    simp only [Except.toOption, Option.map_some, Option.some.injEq] at same
    rw [← same, withDefaultScope]
    split
    · exact some
    · exact some

/-- **A run can be repeated exactly where the condition holds.** After a run that returned,
over items that all carry an `external_id`, running again writes nothing and changes no
table, whatever the calls of the second run read. -/
theorem rerun_is_noop_iff (times : ReadsTimes platform)
    (keyed : ∀ item, .ok item ∈ source.items → item.externalId.isSome)
    (returned : exec (ingestSource platform readings source false) store = (.ok report, after)) :
    (∀ again : Readings, ∃ second,
      exec (ingestSource platform again source false) after = (.ok second, after) ∧
        second.ingested = 0) ↔
      Repeatable platform readings store.database.tables source :=
  ⟨repeatable_of_rerun (candidates_keyed keyed) returned,
    rerun_of_repeatable (candidates_keyed keyed) times returned⟩

end Rerun

/-- Readings of a clock that stands still. -/
def standing (now : Timestamp) : Readings :=
  ⟨fun place => ⟨now, fun draw => place + draw⟩, fun number => ⟨now, fun draw => number + draw⟩,
    fun number => ⟨now, fun draw => number + draw⟩⟩

/-- The ASCII platform, which takes a time it cannot read for an instant given to it. -/
def lenient (otherwise : Timestamp) : Platform :=
  { Platform.ascii with
    parseTimestamp := fun text => some ((Platform.readSql text).getD otherwise) }

theorem lenient_readsTimes (otherwise : Timestamp) : ReadsTimes (lenient otherwise) :=
  fun _ _ => rfl

/-- A source with a hashed item, its repetition, an item without content and an error. -/
def mixedSource : Source :=
  let file (content digest key : String) : NewItem :=
    ⟨content, none, ["file"], some "walk", .object [("sha256", .string digest)], some key, none⟩
  ⟨[.ok (file "text" "01" "a"), .ok (file "other" "02" "a"), .ok (file "" "03" "b"), .error "unreadable"],
    1, fun _ => some "Notes"⟩

/-- A pair whose first component is known. -/
theorem pair_of_fst {α β : Type} {pair : α × β} {first : α} (known : pair.1 = first) :
    pair = (first, pair.2) := by
  rw [← known]

/-- The run of that source from an empty store. -/
def mixedRun : Except Error Report × Store :=
  exec (ingestSource (lenient ⟨0, by omega, by omega⟩) (standing ⟨0, by omega, by omega⟩) mixedSource
    false) ⟨false, .fresh⟩

/-- One of its items is written, and the second run writes nothing. -/
theorem mixedSource_runs_again :
    mixedRun.1 = .ok ⟨1, 1, 1, 2⟩ ∧ ∀ again : Readings, ∃ second,
      exec (ingestSource (lenient ⟨0, by omega, by omega⟩) again mixedSource false) mixedRun.2 =
        (.ok second, mixedRun.2) ∧ second.ingested = 0 := by
  have first : mixedRun.1 = .ok ⟨1, 1, 1, 2⟩ := by decide +kernel
  have returned := pair_of_fst first
  refine ⟨first, (rerun_is_noop_iff (lenient_readsTimes _) ?_ returned).mpr ⟨?_, ?_⟩⟩
  · intro item member
    simp only [mixedSource, List.mem_cons, List.not_mem_nil, Except.ok.injEq, reduceCtorEq,
      or_false] at member
    rcases member with rfl | rfl | rfl <;> rfl
  · decide +kernel
  · decide +kernel

/-- An object nested in objects. -/
def nested : Nat → Json
  | 0 => .object []
  | levels + 1 => .object [("inner", nested levels)]

/-- A source of one item, with metadata nested to a depth. -/
def oneItem (levels : Nat) : Source :=
  ⟨[.ok ⟨"text", none, [], none, nested levels, some "key", none⟩], 0, fun _ => none⟩

/-- An item whose metadata nests 128 objects is written, and the second run fails on it. -/
theorem deep_metadata_ends_second_run :
    (exec (ingestSource .ascii (standing ⟨0, by decide⟩) (oneItem 127) false)
      ⟨false, .fresh⟩).1 = .ok ⟨1, 0, 0, 0⟩ ∧
    (exec (ingestSource .ascii (standing ⟨0, by decide⟩) (oneItem 127) false)
      (exec (ingestSource .ascii (standing ⟨0, by decide⟩) (oneItem 127) false)
        ⟨false, .fresh⟩).2).1 =
      .error (.json "parsing stored metadata JSON" "recursion limit exceeded") := by
  decide +kernel

end Singularmem.Ingest
