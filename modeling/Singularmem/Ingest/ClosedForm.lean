import Singularmem.Ingest.Refusals

/-!
# Runs in closed form

Where the clock reads 1970 or later and the generator makes new identifiers, a run that
returned left the contents that the tables and the source alone decide, and it returned
exactly where the store can read and take what it was given.
-/

namespace Singularmem.Ingest

open Library Singularmem.Core
open Effect hiding ofExcept

variable {platform : Platform} {readings : Readings} {tables : Tables} {source : Source}

/-- The identifiers that the calls of a run may mint. -/
def runMints (platform : Platform) (readings : Readings) (tables : Tables) (source : Source) :
    List ItemId :=
  replacingMints platform readings tables (considered source) ++
    (numberedBatches (newCandidates tables source)).flatMap (batchMints readings)

/-- The clock reads 1970 or later and identifiers are new: distinct, not stored, and not
named by an item of the source. -/
structure Sane (platform : Platform) (readings : Readings) (tables : Tables) (source : Source) :
    Prop where
  alone : ∀ candidate ∈ candidates source, (readings.alone candidate.2).Recent
  batch : ∀ pair ∈ numberedBatches (newCandidates tables source), (readings.batch pair.2).Recent
  apart : (runMints platform readings tables source).Nodup
  unused : Unused tables (runMints platform readings tables source)
  unnamed : ∀ candidate ∈ candidates source, ∀ prior ∈ candidate.1.supersedes,
    prior ∉ runMints platform readings tables source

/-- Identifiers are new: distinct, not stored, and not named by an item of the source. -/
structure FreshMints (platform : Platform) (readings : Readings) (tables : Tables)
    (source : Source) : Prop where
  apart : (runMints platform readings tables source).Nodup
  unused : Unused tables (runMints platform readings tables source)
  unnamed : ∀ candidate ∈ candidates source, ∀ prior ∈ candidate.1.supersedes,
    prior ∉ runMints platform readings tables source

theorem Sane.minting (sane : Sane platform readings tables source) :
    FreshMints platform readings tables source := ⟨sane.apart, sane.unused, sane.unnamed⟩

/-- The contents a run leaves. -/
def settledContents (platform : Platform) (tables : Tables) (considered : List Candidate) :
    List Contents :=
  (replacements platform tables considered).foldl (renew platform) (contents tables) ++
    (considered.filter fun candidate => !isStored tables candidate && valid platform candidate.1).map
      fun candidate => submitted platform candidate.1

/-- The items a run meets in the store can be read. -/
def readable (platform : Platform) (tables : Tables) (candidate : Candidate) : Bool :=
  candidate.1.externalId.all fun key => (getByExternalId platform tables key).toOption.isSome

theorem readable_iff {candidate : Candidate} :
    readable platform tables candidate ↔ ∀ key ∈ candidate.1.externalId, tables.carries key →
      ∃ old, getByExternalId platform tables key = .ok old := by
  rw [readable, Option.all_eq_true]
  refine forall_congr' fun key => forall_congr' fun _ => ?_
  constructor
  · intro some _
    rcases read : getByExternalId platform tables key with error | old
    · rw [read] at some
      cases some
    · exact ⟨old, rfl⟩
  · intro reads
    by_cases held : tables.carries key
    · obtain ⟨old, read⟩ := reads held
      rw [read]
      rfl
    · rw [getByExternalId_absent held]
      rfl

/-- A considered candidate is new where its key is not stored. -/
theorem newCandidates_eq :
    newCandidates tables source = (considered source).filter fun candidate =>
      !isStored tables candidate := by
  refine List.filter_congr fun candidate member => ?_
  have new := @mem_newCandidates tables source candidate
  rw [newCandidates, List.mem_filter] at new
  rw [Bool.eq_iff_iff, Bool.not_eq_true', Bool.eq_false_iff, ne_eq, isStored_iff]
  constructor
  · rintro isNew ⟨key, given, held⟩
    exact (new.mp ⟨member, isNew⟩).2 key given held
  · intro unstored
    exact (new.mpr ⟨member, fun key given held => unstored ⟨key, given, held⟩⟩).2

/-- Every valid new candidate lands where the clock of the calls for one item does not read
before 1970. -/
theorem landings_valid
    (alone : ∀ candidate ∈ candidates source, (readings.alone candidate.2).Recent) :
    landings platform readings (numberedBatches (newCandidates tables source)) =
      (newCandidates tables source).filter fun candidate => valid platform candidate.1 := by
  have each : ∀ pair ∈ numberedBatches (newCandidates tables source),
      landing platform readings pair.2 pair.1 =
        pair.1.filter fun candidate => valid platform candidate.1 := by
    intro pair pairIn
    refine List.filter_congr fun candidate member => ?_
    have inNew : candidate ∈ newCandidates tables source := by
      rw [← numberedBatches_flat (newCandidates tables source)]
      exact List.mem_flatMap.mpr ⟨pair, pairIn, member⟩
    have inSource := (firsts_sublist [] _).subset (mem_newCandidates.mp inNew).1
    rw [landsAlone, decide_eq_true (alone candidate inSource), Bool.and_true]
    rcases whole : wholeLands platform readings pair.2 pair.1 with _ | _
    · rw [Bool.false_or]
    · rw [wholeLands, Bool.and_eq_true, List.all_eq_true] at whole
      rw [whole.1 candidate member]
      rfl
  rw [landings, List.flatMap_congr each]
  conv_rhs => rw [← numberedBatches_flat (newCandidates tables source)]
  rw [List.filter_flatMap]

/-- A sane clock lets every valid new candidate land. -/
theorem landings_eq (sane : Sane platform readings tables source) :
    landings platform readings (numberedBatches (newCandidates tables source)) =
      (newCandidates tables source).filter fun candidate => valid platform candidate.1 :=
  landings_valid sane.alone

section Runs

variable {store after : Store} {report : Report}

/-- What a run minted while it considered the candidates. -/
theorem mem_replacingMints {considered : List Candidate} {candidate : Candidate}
    (member : candidate ∈ considered) (replaces : replacement platform tables candidate ≠ none) :
    (readings.alone candidate.2).mint 0 ∈ replacingMints platform readings tables considered :=
  List.mem_map.mpr ⟨candidate,
    List.mem_filter.mpr ⟨member, Option.isSome_iff_ne_none.mpr replaces⟩, rfl⟩

/-- **A run returns** where the stored items it meets can be read, the store takes what
replaces them and what is new and valid, and no clock reading refuses one of these. -/
theorem run_returns (minting : FreshMints platform readings store.database.tables source)
    (writable : store.readOnly = false)
    (reads : ∀ candidate ∈ considered source, readable platform store.database.tables candidate)
    (replacing : ∀ candidate ∈ considered source,
      replacement platform store.database.tables candidate ≠ none →
        refused platform store.database.tables candidate = false ∧
          (readings.alone candidate.2).Recent)
    (timely : ∀ pair ∈ numberedBatches (newCandidates store.database.tables source),
      Timely platform readings pair)
    (fresh : ∀ candidate ∈ newCandidates store.database.tables source, valid platform candidate.1 →
      admissible store.database.tables candidate.1) :
    ∃ report after, exec (ingestSource platform readings source false) store = (.ok report, after) := by
  obtain ⟨apartReplacing, apartBatches, apart⟩ := List.nodup_append.mp minting.apart
  obtain ⟨⟨found, between⟩, middle, sifting⟩ := @sift_succeeds platform readings
    (knownKeys store.database.tables source) (candidates source) [] (startReport source) store
    mem_knownKeys (fun candidate member => readable_iff.mp (reads candidate member))
    (fun candidate member replaces => by
      obtain ⟨accepted, recent⟩ := replacing candidate member replaces
      obtain ⟨validated, check⟩ := (refused_replacing replaces).mp accepted
      exact ⟨writable, recent, valid_iff.mp validated, check,
        minting.unused _ (List.mem_append_left _ (mem_replacingMints member replaces))⟩)
    apartReplacing
  obtain ⟨sifted, same⟩ := sift_returned mem_knownKeys sifting
  have foundEq : found = newCandidates store.database.tables source := sifted.fresh
  have flat := numberedBatches_flat (newCandidates store.database.tables source)
  obtain ⟨final, after, wrote⟩ := @writeEach_succeeds platform readings
    (numberedBatches (newCandidates store.database.tables source)) between middle
    (fun pair pairIn => (numberedBatches_sized pairIn).1) (same.trans writable) timely
    (fun candidate member validated => by
      rw [flat] at member
      obtain ⟨check, target⟩ := admissible_iff.mp (fresh candidate member validated)
      exact admissible_iff.mpr ⟨check, fun prior linked => sifted.stays prior (target prior linked)⟩)
    (flat.symm ▸ newCandidates_distinct _ _)
    (flat.symm ▸ fun candidate member key given held =>
      (mem_newCandidates.mp member).2 key given ((sifted.carries key).mp held))
    (fun id member present => by
      rcases sifted.ids id present with old | ⟨candidate, candidateIn, replaces, rfl⟩
      · exact minting.unused id (List.mem_append_right _ member) old
      · exact apart _ (mem_replacingMints candidateIn replaces) _ member rfl)
    apartBatches
  refine ⟨final, after, ?_⟩
  rw [ingestSource, exec_bind_ok (exec_get store)]
  change exec (sift platform readings (knownKeys store.database.tables source) false
    (candidates source) [] (startReport source) >>= _) store = _
  rw [exec_bind_ok sifting, foundEq]
  exact wrote

/-- **A run returns** under a sane clock where the store can read and take what it was given. -/
theorem run_succeeds (sane : Sane platform readings store.database.tables source)
    (writable : store.readOnly = false)
    (reads : ∀ candidate ∈ considered source, readable platform store.database.tables candidate)
    (replacing : ∀ candidate ∈ considered source,
      replacement platform store.database.tables candidate ≠ none →
        refused platform store.database.tables candidate = false)
    (fresh : ∀ candidate ∈ newCandidates store.database.tables source, valid platform candidate.1 →
      admissible store.database.tables candidate.1) :
    ∃ report after, exec (ingestSource platform readings source false) store = (.ok report, after) := by
  have inSource := fun candidate => (firsts_sublist [] (candidates source)).subset (a := candidate)
  apply run_returns sane.minting writable reads
  · exact fun candidate member replaces =>
      ⟨replacing candidate member replaces, sane.alone candidate (inSource candidate member)⟩
  · intro pair pairIn
    apply Timely.of_recent
    intro candidate member
    have inNew : candidate ∈ newCandidates store.database.tables source := by
      rw [← numberedBatches_flat (newCandidates store.database.tables source)]
      exact List.mem_flatMap.mpr ⟨pair, pairIn, member⟩
    exact sane.alone candidate (inSource candidate (mem_newCandidates.mp inNew).1)
  · exact fresh

/-- What a run that returned considered, and what landed with identifiers of the run. -/
theorem run_parts
    (returned : exec (ingestSource platform readings source false) store = (.ok report, after)) :
    ∃ middle between,
      Sifted platform readings (knownKeys store.database.tables source) store.database.tables
        middle (considered source) (newCandidates store.database.tables source)
        (startReport source) between ∧
      Landed platform
        (· ∈ (numberedBatches (newCandidates store.database.tables source)).flatMap
          (batchMints readings))
        middle after.database.tables
        (landings platform readings
          (numberedBatches (newCandidates store.database.tables source))) ∧
      report.ingested = between.ingested + (landings platform readings
          (numberedBatches (newCandidates store.database.tables source))).length ∧
      report.failed + (landings platform readings
          (numberedBatches (newCandidates store.database.tables source))).length =
        between.failed + (newCandidates store.database.tables source).length := by
  have flat := numberedBatches_flat (newCandidates store.database.tables source)
  obtain ⟨middle, between, sifted, landed, ingested, failed, _⟩ := @ingestSource_returned platform readings
    (· ∈ (numberedBatches (newCandidates store.database.tables source)).flatMap (batchMints readings))
    source report store after
    (fun candidate member => by
      rw [← flat] at member
      obtain ⟨pair, pairIn, inBatch⟩ := List.mem_flatMap.mp member
      exact List.mem_flatMap.mpr
        ⟨pair, pairIn, List.mem_append_left _ (List.mem_map.mpr ⟨candidate, inBatch, rfl⟩)⟩)
    (fun pair pairIn draw below => List.mem_flatMap.mpr ⟨pair, pairIn, List.mem_append_right _
      (List.mem_map_of_mem (List.mem_range.mpr below))⟩)
    returned
  exact ⟨middle, between, sifted, landed, ingested, failed⟩

/-- What landed was admissible before the run. -/
theorem admissible_of_landed {existing : List String} {middle : Tables}
    {between : Report} {fresh landed : List Candidate}
    (minting : FreshMints platform readings store.database.tables source)
    (sifted : Sifted platform readings existing store.database.tables middle (considered source)
      fresh (startReport source) between)
    (landing : Landed platform
      (· ∈ (numberedBatches (newCandidates store.database.tables source)).flatMap
        (batchMints readings)) middle after.database.tables landed)
    (inSource : ∀ candidate ∈ landed, candidate ∈ candidates source) :
    ∀ candidate ∈ landed, admissible store.database.tables candidate.1 := by
  intro candidate member
  obtain ⟨_, check, target⟩ := landing.accepted candidate member
  refine admissible_iff.mpr ⟨check, fun prior linked => ?_⟩
  have named := minting.unnamed candidate (inSource candidate member) prior linked
  rcases target prior linked with present | minted
  · rcases sifted.ids prior present with old | ⟨other, otherIn, replaces, rfl⟩
    · exact old
    · exact absurd (List.mem_append_left _ (mem_replacingMints otherIn replaces)) named
  · exact absurd (List.mem_append_right _ minted) named

/-- What landed under a sane clock. -/
theorem run_landed (sane : Sane platform readings store.database.tables source)
    (returned : exec (ingestSource platform readings source false) store = (.ok report, after)) :
    ∃ middle between,
      Sifted platform readings (knownKeys store.database.tables source) store.database.tables
        middle (considered source) (newCandidates store.database.tables source)
        (startReport source) between ∧
      Landed platform
        (· ∈ (numberedBatches (newCandidates store.database.tables source)).flatMap
          (batchMints readings))
        middle after.database.tables
        ((newCandidates store.database.tables source).filter fun candidate =>
          valid platform candidate.1) ∧
      report.failed + ((newCandidates store.database.tables source).filter fun candidate =>
          valid platform candidate.1).length =
        between.failed + (newCandidates store.database.tables source).length := by
  obtain ⟨middle, between, sifted, landed, _, failed⟩ := run_parts returned
  rw [landings_eq sane] at landed failed
  exact ⟨middle, between, sifted, landed, failed⟩

/-- A key is carried where some stored contents have it. -/
theorem carries_contents {key : String} :
    tables.carries key ↔ ∃ stored ∈ contents tables, stored.externalId = some key := by
  constructor
  · rintro ⟨shelved, member, carried⟩
    exact ⟨contentsOf shelved, List.mem_map_of_mem member, carried⟩
  · rintro ⟨_, member, carried⟩
    obtain ⟨shelved, stored, rfl⟩ := List.mem_map.mp member
    exact ⟨shelved, stored, carried⟩

/-- The keys that a run leaves. -/
theorem run_carries (sane : Sane platform readings store.database.tables source)
    (returned : exec (ingestSource platform readings source false) store = (.ok report, after))
    (key : String) :
    after.database.tables.carries key ↔ store.database.tables.carries key ∨
      ∃ candidate ∈ newCandidates store.database.tables source,
        valid platform candidate.1 ∧ candidate.1.externalId = some key := by
  obtain ⟨middle, between, sifted, landed, _⟩ := run_landed sane returned
  rw [← sifted.carries, carries_contents, carries_contents, landed.contents]
  simp only [List.mem_append, or_and_right, exists_or, List.mem_map, List.mem_filter]
  refine or_congr_right ?_
  constructor
  · rintro ⟨_, ⟨candidate, ⟨member, validated⟩, rfl⟩, carried⟩
    exact ⟨candidate, member, validated, carried⟩
  · rintro ⟨candidate, member, validated, given⟩
    exact ⟨_, ⟨candidate, ⟨member, validated⟩, rfl⟩, given⟩

/-- **What a run that returned tells and leaves.** -/
theorem run_closed (sane : Sane platform readings store.database.tables source)
    (returned : exec (ingestSource platform readings source false) store = (.ok report, after)) :
    contents after.database.tables =
        settledContents platform store.database.tables (considered source) ∧
      report.failed = sourceErrors source + ((newCandidates store.database.tables source).filter
        fun candidate => !valid platform candidate.1).length ∧
      (∀ candidate ∈ considered source, readable platform store.database.tables candidate) ∧
      (∀ candidate ∈ considered source,
        replacement platform store.database.tables candidate ≠ none →
          refused platform store.database.tables candidate = false) ∧
      ∀ candidate ∈ newCandidates store.database.tables source, valid platform candidate.1 →
        admissible store.database.tables candidate.1 := by
  obtain ⟨middle, between, sifted, landed, failed⟩ := run_landed sane returned
  refine ⟨?_, ?_, ?_, ?_, ?_⟩
  · rw [landed.contents, sifted.contents, settledContents, newCandidates_eq, List.filter_filter]
    congr 2
    refine List.filter_congr fun candidate _ => ?_
    rw [Bool.and_comm]
  · have total := List.length_eq_length_filter_add (l := newCandidates store.database.tables source)
      fun candidate => valid platform candidate.1
    have started : between.failed = sourceErrors source := sifted.failed
    rw [started] at failed
    omega
  · intro candidate member
    refine readable_iff.mpr fun key given held => ?_
    obtain ⟨old, read⟩ := sifted.reads candidate member key given held
    exact ⟨some old, read⟩
  · intro candidate member replaces
    obtain ⟨_, check, validated, _⟩ := sifted.replaces candidate member replaces
    exact (refused_replacing replaces).mpr ⟨valid_iff.mpr validated, check⟩
  · intro candidate member validated
    apply admissible_of_landed sane.minting sifted landed _ _ (List.mem_filter.mpr ⟨member, validated⟩)
    intro other otherIn
    exact (firsts_sublist [] _).subset (mem_newCandidates.mp (List.mem_of_mem_filter otherIn)).1

end Runs

end Singularmem.Ingest
