import Singularmem.Ingest.Batches
import Singularmem.Ingest.SiftRuns

/-!
# When the driver's writes return

A batch is written without an error where its valid items pass the constraints of the
store, no clock reading refuses one, and the identifiers that its calls may mint are new.
-/

namespace Singularmem.Ingest

open Library Singularmem.Core
open Effect hiding ofExcept

variable {platform : Platform} {readings : Readings}

/-- The constraints of the store take the data of a submission. -/
def admissible (tables : Tables) (item : NewItem) : Bool :=
  item.passesCheck && item.supersedes.all tables.hasItem

/-- The identifiers that the calls for a batch may mint. -/
def batchMints (readings : Readings) (pair : List Candidate × Nat) : List ItemId :=
  pair.1.map (fun candidate => (readings.alone candidate.2).mint 0) ++
    (List.range pair.1.length).map (readings.batch pair.2).mint

/-- What stays admissible. -/
theorem admissible_iff {tables : Tables} {item : NewItem} :
    admissible tables item ↔
      item.passesCheck ∧ ∀ prior ∈ item.supersedes, tables.hasItem prior := by
  rw [admissible, Bool.and_eq_true, Option.all_eq_true]
  exact .rfl

/-- No identifier among these is stored. -/
def Unused (tables : Tables) (ids : List ItemId) : Prop := ∀ id ∈ ids, ¬ tables.hasItem id

/-- Other identifiers stay unused where others land. -/
theorem Unused.later {mints : ItemId → Prop} {before after : Tables} {landed : List Candidate}
    {ids : List ItemId} (unused : Unused before ids)
    (step : Landed platform mints before after landed) (apart : ∀ id ∈ ids, ¬ mints id) :
    Unused after ids := by
  intro id member present
  rcases step.ids id present with old | minted
  · exact unused id member old
  · exact apart id member minted

/-- What was admissible still is. -/
theorem admissible_later {mints : ItemId → Prop} {before after : Tables} {landed : List Candidate}
    (step : Landed platform mints before after landed) {item : NewItem}
    (admitted : admissible before item) : admissible after item := by
  obtain ⟨check, target⟩ := admissible_iff.mp admitted
  exact admissible_iff.mpr ⟨check, fun prior linked => step.stays prior (target prior linked)⟩

/-- **Writing item by item returns** where every valid item is admissible. -/
theorem writeSingly_succeeds {batch : List Candidate} (report : Report) {store : Store}
    (writable : store.readOnly = false)
    (recent : ∀ candidate ∈ batch, valid platform candidate.1 → (readings.alone candidate.2).Recent)
    (admitted : ∀ candidate ∈ batch, valid platform candidate.1 →
      admissible store.database.tables candidate.1)
    (distinct : DistinctKeys batch) (free : FreeKeys store.database.tables batch)
    (unused : Unused store.database.tables
      (batch.map fun candidate => (readings.alone candidate.2).mint 0))
    (apart : (batch.map fun candidate => (readings.alone candidate.2).mint 0).Nodup) :
    ∃ final after, exec (writeSingly platform readings batch report) store = (.ok final, after) := by
  induction batch generalizing report store with
  | nil => exact ⟨_, _, rfl⟩
  | cons candidate rest inductionHypothesis =>
    obtain ⟨item, place⟩ := candidate
    have recentRest := fun candidate member => recent candidate (List.mem_cons_of_mem (item, place) member)
    have admittedRest := fun candidate member => admitted candidate (List.mem_cons_of_mem (item, place) member)
    have freeRest : FreeKeys store.database.tables rest :=
      fun candidate member => free candidate (List.mem_cons_of_mem _ member)
    rw [List.map_cons] at unused apart
    obtain ⟨first, apartRest⟩ := List.nodup_cons.mp apart
    have unusedRest : Unused store.database.tables
        (rest.map fun candidate => (readings.alone candidate.2).mint 0) :=
      fun id member => unused id (List.mem_cons_of_mem _ member)
    rw [writeSingly, exec_bind_ok (exec_attempt _ store)]
    rcases validated : validate platform item with error | validated
    · obtain ⟨field, reason, rfl⟩ := validate_rejecting item _ validated
      rw [ingest_invalid writable validated]
      exact inductionHypothesis _ writable recentRest admittedRest distinct.rest freeRest unusedRest
        apartRest
    · have accepted := validated
      obtain ⟨check, target⟩ := admissible_iff.mp
        (admitted (item, place) List.mem_cons_self (valid_iff.mpr ⟨_, accepted⟩))
      have recentFirst := recent (item, place) List.mem_cons_self (valid_iff.mpr ⟨_, accepted⟩)
      have fits : Fits store.database.tables ((readings.alone place).mint 0) item := by
        refine ⟨check, target, ?_, ?_⟩
        · intro key given known member carried
          exact free (item, place) List.mem_cons_self key given ⟨known, member, carried⟩
        · intro known member same
          exact unused _ List.mem_cons_self (hasItem_iff_shelf.mpr ⟨known, member, same⟩)
      obtain ⟨stored, middle, called⟩ := ingest_succeeds writable recentFirst accepted fits
      obtain ⟨_, still, _, _, again, acceptedAgain, shelf⟩ := ingest_shelves called
      have one : Landed platform (· = (readings.alone place).mint 0) store.database.tables
          middle.database.tables [(item, place)] :=
        @landed_one platform _ _ _ (item, place) (readings.alone place) 0 again recentFirst
          acceptedAgain check (fun prior linked => .inl (target prior linked)) rfl shelf
      rw [called]
      refine inductionHypothesis _ still recentRest
        (fun candidate member validated => admissible_later one (admittedRest candidate member validated))
        distinct.rest (freeRest.later one ?_) (unusedRest.later one ?_) apartRest
      · intro candidate member key given other otherIn same
        rw [List.mem_singleton.mp otherIn] at same
        exact distinct.apart same candidate member given
      · rintro id member rfl
        exact first member

/-- No clock reading refuses a valid candidate of a batch. -/
def Timely (platform : Platform) (readings : Readings) (pair : List Candidate × Nat) : Prop :=
  ∀ candidate ∈ pair.1, valid platform candidate.1 →
    candidate ∈ landing platform readings pair.2 pair.1

/-- Where the batch is not written as a whole, each valid candidate lands alone. -/
theorem Timely.alone {pair : List Candidate × Nat} (timely : Timely platform readings pair)
    (apart : wholeLands platform readings pair.2 pair.1 = false) :
    ∀ candidate ∈ pair.1, valid platform candidate.1 → (readings.alone candidate.2).Recent := by
  intro candidate member validated
  have lands := (List.mem_filter.mp (timely candidate member validated)).2
  rw [apart, Bool.false_or, landsAlone, Bool.and_eq_true, decide_eq_true_eq] at lands
  exact lands.2

/-- A recent clock refuses none. -/
theorem Timely.of_recent {pair : List Candidate × Nat}
    (recent : ∀ candidate ∈ pair.1, (readings.alone candidate.2).Recent) :
    Timely platform readings pair := by
  intro candidate member validated
  refine List.mem_filter.mpr ⟨member, ?_⟩
  rw [landsAlone, validated, decide_eq_true (recent candidate member), Bool.and_true, Bool.or_true]

/-- **Writing a batch returns** where every valid item is admissible. -/
theorem writeBatch_succeeds {pair : List Candidate × Nat} (report : Report) {store : Store}
    (writable : store.readOnly = false) (some : pair.1 ≠ [])
    (timely : Timely platform readings pair)
    (admitted : ∀ candidate ∈ pair.1, valid platform candidate.1 →
      admissible store.database.tables candidate.1)
    (distinct : DistinctKeys pair.1) (free : FreeKeys store.database.tables pair.1)
    (unused : Unused store.database.tables (batchMints readings pair))
    (apart : (batchMints readings pair).Nodup) :
    ∃ final after, exec (writeBatch platform readings pair.2 pair.1 report) store =
      (.ok final, after) := by
  obtain ⟨apartAlone, apartBulk, _⟩ := List.nodup_append.mp apart
  have singly : wholeLands platform readings pair.2 pair.1 = false →
      ∃ final after, exec (writeSingly platform readings pair.1 report) store = (.ok final, after) :=
    fun notWhole => writeSingly_succeeds report writable (timely.alone notWhole) admitted distinct
      free (fun id member => unused id (List.mem_append_left _ member)) apartAlone
  rw [writeBatch, exec_bind_ok (exec_attempt _ store)]
  rcases accepted : (pair.1.map Prod.fst).mapM (validate platform) with error | validated
  · obtain ⟨item, member, refused⟩ := mapM_threw accepted
    obtain ⟨field, reason, rfl⟩ := validate_rejecting item _ refused
    rw [ingestMany_invalid writable accepted]
    apply singly
    obtain ⟨candidate, candidateIn, rfl⟩ := List.mem_map.mp member
    rw [wholeLands, List.all_eq_false.mpr ⟨candidate, candidateIn, invalid_iff.mpr ⟨_, refused⟩⟩,
      Bool.false_and]
  have each : ∀ candidate ∈ pair.1, valid platform candidate.1 := by
    intro candidate member
    obtain ⟨_, _, found⟩ := mapM_returned_each accepted (List.mem_map_of_mem member)
    exact valid_iff.mpr ⟨_, found⟩
  by_cases recent : (readings.batch pair.2).Recent
  case neg =>
    obtain ⟨first, rest, listed⟩ := List.exists_cons_of_ne_nil some
    have firstIn : first ∈ pair.1 := listed ▸ List.mem_cons_self
    obtain ⟨_, target⟩ := admissible_iff.mp (admitted first firstIn (each first firstIn))
    rw [listed, List.map_cons] at accepted
    obtain ⟨field, reason, early⟩ := ingestMany_early writable recent accepted target
    rw [listed, List.map_cons, early, ← listed]
    apply singly
    rw [wholeLands, decide_eq_false recent, Bool.and_false]
  case pos =>
    obtain ⟨stored, after, called⟩ := @ingestMany_succeeds platform (readings.batch pair.2)
      (pair.1.map Prod.fst) store validated writable recent accepted
      (by
        intro item member
        obtain ⟨candidate, candidateIn, rfl⟩ := List.mem_map.mp member
        exact admissible_iff.mp (admitted candidate candidateIn (each candidate candidateIn)))
      (by
        rw [List.filterMap_map]
        exact distinct)
      (by
        intro item member key given known stored carried
        obtain ⟨candidate, candidateIn, rfl⟩ := List.mem_map.mp member
        exact free candidate candidateIn key given ⟨known, stored, carried⟩)
      (by
        intro draw below
        rw [List.length_map] at below
        refine ⟨fun known member same => ?_, fun earlier before same => ?_⟩
        · have minted := List.mem_map_of_mem (f := (readings.batch pair.2).mint) (List.mem_range.mpr below)
          exact unused _ (List.mem_append_right _ minted) (hasItem_iff_shelf.mpr ⟨known, member, same⟩)
        · have equal := List.inj_on_of_nodup_map apartBulk (List.mem_range.mpr (before.trans below))
            (List.mem_range.mpr below) same
          omega)
    rw [called]
    exact ⟨_, _, rfl⟩

/-- **Writing the batches returns** where every valid item is admissible. -/
theorem writeEach_succeeds {numbered : List (List Candidate × Nat)} (report : Report) {store : Store}
    (some : ∀ pair ∈ numbered, pair.1 ≠ []) (writable : store.readOnly = false)
    (timely : ∀ pair ∈ numbered, Timely platform readings pair)
    (admitted : ∀ candidate ∈ numbered.flatMap Prod.fst, valid platform candidate.1 →
      admissible store.database.tables candidate.1)
    (distinct : DistinctKeys (numbered.flatMap Prod.fst))
    (free : FreeKeys store.database.tables (numbered.flatMap Prod.fst))
    (unused : Unused store.database.tables (numbered.flatMap (batchMints readings)))
    (apart : (numbered.flatMap (batchMints readings)).Nodup) :
    ∃ final after, exec (writeEach platform readings numbered report) store = (.ok final, after) := by
  induction numbered generalizing report store with
  | nil => exact ⟨_, _, rfl⟩
  | cons pair rest inductionHypothesis =>
    rw [List.flatMap_cons] at admitted distinct free unused apart
    obtain ⟨distinctBatch, distinctRest, keysApart⟩ := distinct.parts
    obtain ⟨apartBatch, apartRest, mintsApart⟩ := List.nodup_append.mp apart
    have freeBatch : FreeKeys store.database.tables pair.1 :=
      fun candidate member => free candidate (List.mem_append_left _ member)
    have freeRest : FreeKeys store.database.tables (rest.flatMap Prod.fst) :=
      fun candidate member => free candidate (List.mem_append_right _ member)
    have unusedRest : Unused store.database.tables (rest.flatMap (batchMints readings)) :=
      fun id member => unused id (List.mem_append_right _ member)
    obtain ⟨between, middle, wrote⟩ := writeBatch_succeeds report writable
      (some pair List.mem_cons_self) (timely pair List.mem_cons_self)
      (fun candidate member => admitted candidate (List.mem_append_left _ member))
      distinctBatch freeBatch (fun id member => unused id (List.mem_append_left _ member)) apartBatch
    obtain ⟨landed, _, _, _, still⟩ := @writeBatch_returned platform readings
      (· ∈ batchMints readings pair) pair.2 pair.1 report between store middle
      (some pair List.mem_cons_self)
      (fun candidate member => List.mem_append_left _ (List.mem_map_of_mem member))
      (fun draw below => List.mem_append_right _ (List.mem_map_of_mem (List.mem_range.mpr below)))
      distinctBatch freeBatch wrote
    obtain ⟨final, after, others⟩ := inductionHypothesis between
      (fun other member => some other (List.mem_cons_of_mem _ member)) still
      (fun other member => timely other (List.mem_cons_of_mem _ member))
      (fun candidate member validated =>
        admissible_later landed (admitted candidate (List.mem_append_right _ member) validated))
      distinctRest
      (freeRest.later landed fun candidate member key given other otherIn same =>
        keysApart other (List.mem_of_mem_filter otherIn) key same candidate member given)
      (unusedRest.later landed fun id member minted => mintsApart id minted id member rfl) apartRest
    rw [writeEach, exec_bind_ok wrote]
    exact ⟨final, after, others⟩

end Singularmem.Ingest
