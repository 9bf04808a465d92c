import Singularmem.Graph.MixedRuns
import Singularmem.Ingest.Rerun

/-!
# A bulk ingest as a run of calls

A bulk ingest reads the store and makes calls: single ones, whole batches, replacements. Whatever
its source yields, and whether it returns or throws, the store it leaves is the one that a run of
such calls leaves, and every call submits items of the source. So a bulk ingest keeps what runs
of calls keep, and what it adds are the items of its source.
-/

namespace Singularmem.Ingest

open Library Singularmem.Core
open Singularmem.Graph (DatabaseKept Grows fresh_kept runWrites runWrites_grows runWrites_kept)
open Effect hiding ofExcept

/-- A run of permitted calls leads from one store to another. -/
def Reached (platform : Platform) (permits : Env × ItemCall → Prop) (start store : Store) : Prop :=
  ∃ calls : List (Env × ItemCall),
    (∀ call ∈ calls, permits call) ∧ store = runItemCalls platform calls start

/-- What some call of a run reads. -/
def Readings.Reads (readings : Readings) (env : Env) : Prop :=
  ∃ place, env = readings.alone place ∨ env = readings.batch place ∨ env = readings.again place

/-- A call that a bulk ingest may make: it reads one of the run's clocks, moves no scope, and
submits items of the run, some of them as replacements. -/
structure OfRun (readings : Readings) (items : List NewItem) (call : Env × ItemCall) : Prop where
  clock : readings.Reads call.1
  moves : call.2.movedRow = none
  submits : ∀ item ∈ call.2.submissions, ∃ given ∈ items,
    item = { given with supersedes := item.supersedes }

variable {platform : Platform} {permits : Env × ItemCall → Prop} {start store : Store}

namespace Reached

theorem refl : Reached platform permits start start := ⟨[], List.forall_mem_nil _, rfl⟩

/-- A permitted call goes on with a run. -/
theorem call (reached : Reached platform permits start store) {env : Env} {call : ItemCall}
    (permitted : permits (env, call)) :
    Reached platform permits start (exec (call.perform platform env) store).2 := by
  obtain ⟨calls, each, rfl⟩ := reached
  refine ⟨calls ++ [(env, call)], ?_, ?_⟩
  · rw [List.forall_mem_append]
    exact ⟨each, by simpa using permitted⟩
  · rw [runItemCalls, runItemCalls, List.foldl_append]
    rfl

theorem trans {middle : Store} (first : Reached platform permits start middle)
    (second : Reached platform permits middle store) : Reached platform permits start store := by
  obtain ⟨calls, each, rfl⟩ := first
  obtain ⟨more, others, rfl⟩ := second
  refine ⟨calls ++ more, List.forall_mem_append.mpr ⟨each, others⟩, ?_⟩
  rw [runItemCalls, runItemCalls, runItemCalls, List.foldl_append]

theorem mono {other : Env × ItemCall → Prop} (wider : ∀ call, permits call → other call)
    (reached : Reached platform permits start store) : Reached platform other start store := by
  obtain ⟨calls, each, same⟩ := reached
  exact ⟨calls, fun call member => wider call (each call member), same⟩

end Reached

section Calls

/-- What a permitted call performs goes on with a run. -/
theorem reached_perform {α : Type} {env : Env} {call : ItemCall} {action : StoreCall α}
    (performs : call.perform platform env = (fun _ => ⟨⟩) <$> action)
    (permitted : permits (env, call)) : Preserves (Reached platform permits start) action := by
  intro store held
  have next := held.call permitted
  rwa [performs, exec_map] at next

/-- Looking at the outcome of a call changes nothing more. -/
theorem reached_attempt {α : Type} {holds : Store → Prop} {call : StoreCall α}
    (kept : Preserves holds call) : Preserves holds (attempt call) :=
  .tryCatch (.map _ kept) fun _ => .pure _

end Calls

section Driver

variable {readings : Readings} {items : List NewItem}

/-- Candidates are items of the run. -/
def Among (items : List NewItem) (candidates : List Candidate) : Prop :=
  ∀ candidate ∈ candidates, candidate.1 ∈ items

/-- Single calls of a run. -/
theorem ofRun_alone {item : NewItem} (place : Nat) (given : item ∈ items) :
    OfRun readings items (readings.alone place, .ingest item) := by
  refine ⟨⟨place, .inl rfl⟩, rfl, fun other submitted => ?_⟩
  obtain rfl := List.mem_singleton.mp submitted
  exact ⟨_, given, rfl⟩

/-- Replacements of a run. -/
theorem ofRun_replacing {item : NewItem} (place : Nat) (given : item ∈ items) (old : ItemId) :
    OfRun readings items (readings.alone place, .ingestReplacing item old) := by
  refine ⟨⟨place, .inl rfl⟩, rfl, fun other submitted => ?_⟩
  obtain rfl := List.mem_singleton.mp submitted
  exact ⟨_, given, rfl⟩

/-- Bulk calls of a run. -/
theorem ofRun_many {env : Env} {batch : List Candidate} (among : Among items batch)
    (clock : readings.Reads env) :
    OfRun readings items (env, .ingestMany (batch.map Prod.fst)) := by
  refine ⟨clock, rfl, fun other submitted => ?_⟩
  obtain ⟨candidate, member, rfl⟩ := List.mem_map.mp submitted
  exact ⟨_, among candidate member, rfl⟩

/-- **Deciding about candidates** makes calls of the run, and what is new is among them. -/
theorem sift_reached {existing : List String} {dryRun : Bool} {candidates : List Candidate}
    (among : Among items candidates) (acceptedIds : List String) (report : Report) :
    Preserves (Reached platform (OfRun readings items) start)
      (sift platform readings existing dryRun candidates acceptedIds report) := by
  induction candidates generalizing acceptedIds report with
  | nil => exact .pure _
  | cons candidate rest inductionHypothesis =>
    obtain ⟨item, place⟩ := candidate
    obtain ⟨given, others⟩ := List.forall_mem_cons.mp among
    have remaining := inductionHypothesis others
    unfold sift
    split
    case h_1 => exact .bind (remaining _ _) fun _ => .pure _
    case h_2 key _ =>
      split
      case isTrue => exact remaining _ _
      case isFalse =>
        split
        case isTrue => exact .bind (remaining _ _) fun _ => .pure _
        case isFalse =>
          refine .bind .get fun store => .bind (.ofExcept _) fun old => ?_
          split
          case h_1 old _ =>
            cases dryRun with
            | true => exact remaining _ _
            | false =>
              have replaced : OfRun readings items
                  (readings.alone place, .ingestReplacing item old.id) :=
                ofRun_replacing place given old.id
              exact .bind (.map _ (reached_perform rfl replaced)) fun _ => remaining _ _
          case h_2 => exact remaining _ _

/-- Writing candidates one by one makes calls of the run. -/
theorem writeSingly_reached {batch : List Candidate} (among : Among items batch)
    (report : Report) : Preserves (Reached platform (OfRun readings items) start)
      (writeSingly platform readings batch report) := by
  induction batch generalizing report with
  | nil => exact .pure _
  | cons candidate rest inductionHypothesis =>
    obtain ⟨item, place⟩ := candidate
    obtain ⟨given, others⟩ := List.forall_mem_cons.mp among
    have remaining := inductionHypothesis others
    unfold writeSingly
    refine .bind (reached_attempt (reached_perform rfl (ofRun_alone place given))) fun outcome => ?_
    split
    · exact remaining _
    · exact remaining _
    · exact .throw _

/-- Writing a batch again makes calls of the run. -/
theorem retryBatch_reached {batch : List Candidate} (among : Among items batch) (number : Nat)
    (report : Report) : Preserves (Reached platform (OfRun readings items) start)
      (retryBatch platform readings number batch report) := by
  refine .bind .get fun store => .bind (reached_perform rfl (ofRun_many ?_ ?_)) fun _ => .pure _
  · exact fun candidate kept => among candidate (List.mem_of_mem_filter kept)
  · exact ⟨number, .inr (.inr rfl)⟩

/-- Writing a batch makes calls of the run. -/
theorem writeBatch_reached {batch : List Candidate} (among : Among items batch) (number : Nat)
    (report : Report) : Preserves (Reached platform (OfRun readings items) start)
      (writeBatch platform readings number batch report) := by
  refine .bind (reached_attempt (reached_perform rfl (ofRun_many among ⟨number, .inr (.inl rfl)⟩)))
    fun outcome => ?_
  split
  · exact .pure _
  · exact retryBatch_reached among number report
  · exact writeSingly_reached among report
  · exact .throw _

/-- Writing batches one after the other makes calls of the run. -/
theorem writeEach_reached {numbered : List (List Candidate × Nat)}
    (among : ∀ pair ∈ numbered, Among items pair.1) (report : Report) :
    Preserves (Reached platform (OfRun readings items) start)
      (writeEach platform readings numbered report) := by
  induction numbered generalizing report with
  | nil => exact .pure _
  | cons pair rest inductionHypothesis =>
    obtain ⟨batch, number⟩ := pair
    obtain ⟨first, others⟩ := List.forall_mem_cons.mp among
    exact .bind (writeBatch_reached first number report) fun report =>
      inductionHypothesis others report

end Driver

section Source

variable {readings : Readings} {source : Source}

/-- The items of a source, with the scopes it derives. -/
def sourceItems (source : Source) : List NewItem := (candidates source).map Prod.fst

theorem candidates_among (source : Source) : Among (sourceItems source) (candidates source) :=
  fun _ member => List.mem_map_of_mem member

/-- **A bulk ingest is a run of calls** that submit items of its source. -/
theorem ingestSource_reached :
    Preserves (Reached platform (OfRun readings (sourceItems source)) start)
      (ingestSource platform readings source false) := by
  intro store held
  have sifts := @sift_reached platform start readings (sourceItems source)
    (knownKeys store.database.tables source) false _ (candidates_among source) []
    (startReport source) store held
  rw [ingestSource, exec_bind_ok (exec_get store)]
  change Reached _ _ _ (exec (sift platform readings (knownKeys store.database.tables source) false
    (candidates source) [] (startReport source) >>= _) store).2
  rcases sifting : exec (sift platform readings (knownKeys store.database.tables source) false
    (candidates source) [] (startReport source)) store with ⟨error | ⟨fresh, between⟩, middle⟩
  · rw [sifting] at sifts
    rw [exec_bind_error sifting]
    exact sifts
  · rw [sifting] at sifts
    rw [exec_bind_ok sifting]
    have freshEq : fresh = newCandidates store.database.tables source :=
      (sift_returned mem_knownKeys sifting).1.fresh
    refine writeEach_reached (fun pair member candidate inBatch => ?_) between middle sifts
    have written : candidate ∈ fresh :=
      numberedBatches_flat fresh ▸ List.mem_flatMap.mpr ⟨pair, member, inBatch⟩
    rw [freshEq] at written
    exact candidates_among source candidate
      ((firsts_sublist [] _).subset (mem_newCandidates.mp written).1)

end Source

section Rows

variable {readings : Readings} {items : List NewItem}

/-- A row that a run put on the shelf: it has what an item of the run validates as, at a clock
reading of the run. The key may have passed on to a replacement. -/
def Delivered (platform : Platform) (readings : Readings) (items : List NewItem)
    (known : Shelved) : Prop :=
  ∃ item ∈ items, ∃ env draw validated supersedes, readings.Reads env ∧
    validate platform item = .ok validated ∧
    KeepsShelved none (shelved platform env draw { item with supersedes } validated) known

/-- A row that is kept, but for its key, is kept by a further call. -/
theorem keeps_trans {first second third : Shelved} (early : KeepsShelved none first second)
    (late : KeepsShelved none second third) : KeepsShelved none first third := by
  obtain ⟨_, _, rfl, same | moved⟩ := early
  · obtain ⟨externalId, scope, rfl, still | moved⟩ := late
    · exact ⟨externalId, scope, rfl, .inl (still.trans same)⟩
    · cases moved
  · cases moved

/-- A delivered row stays one. -/
theorem Delivered.keeps {before after : Shelved}
    (delivered : Delivered platform readings items before)
    (kept : KeepsShelved none before after) : Delivered platform readings items after := by
  obtain ⟨item, given, env, draw, validated, supersedes, reads, accepted, keeps⟩ := delivered
  exact ⟨item, given, env, draw, validated, supersedes, reads, accepted, keeps_trans keeps kept⟩

/-- **One call of a run**: every row was there before or is delivered. -/
theorem perform_delivers {call : Env × ItemCall} (ofRun : OfRun readings items call)
    (store : Store) :
    ∀ known ∈ (exec (call.2.perform platform call.1) store).2.database.tables.shelf,
      (∃ old ∈ store.database.tables.shelf, KeepsShelved none old known) ∨
        Delivered platform readings items known := by
  obtain ⟨added, ⟨kept, shelf, each⟩, origins⟩ := @perform_shelf platform call.1 call.2 store
  intro known member
  rw [shelf] at member
  rcases List.mem_append.mp member with old | new
  · rw [ofRun.moves] at each
    exact .inl (forall₂_source each known old)
  · obtain ⟨item, submitted, draw, validated, accepted, rfl⟩ := origins known new
    obtain ⟨given, among, same⟩ := ofRun.submits item submitted
    refine .inr ⟨given, among, call.1, draw, validated, item.supersedes, ofRun.clock, ?_, ?_⟩
    · rw [same] at accepted
      exact accepted
    · rw [← same]
      exact .refl _

/-- **A run**: every row was there before or is delivered. -/
theorem reached_delivers (reached : Reached platform (OfRun readings items) start store) :
    ∀ known ∈ store.database.tables.shelf,
      (∃ old ∈ start.database.tables.shelf, KeepsShelved none old known) ∨
        Delivered platform readings items known := by
  obtain ⟨calls, each, rfl⟩ := reached
  induction calls generalizing start with
  | nil => exact fun known member => .inl ⟨known, member, .refl known⟩
  | cons call rest inductionHypothesis =>
    obtain ⟨first, others⟩ := List.forall_mem_cons.mp each
    intro known member
    rcases inductionHypothesis others known member with ⟨old, there, kept⟩ | delivered
    · rcases perform_delivers first start old there with ⟨oldest, here, keeps⟩ | delivered
      · exact .inl ⟨oldest, here, keeps_trans keeps kept⟩
      · exact .inr (delivered.keeps kept)
    · exact .inr delivered

/-- A run of item calls is one of calls of both kinds. -/
theorem runItemCalls_runWrites (calls : List (Env × ItemCall)) (store : Store) :
    runItemCalls platform calls store =
      runWrites platform (calls.map fun call => (call.1, .item call.2)) store := by
  rw [runItemCalls, runWrites, List.foldl_map]
  rfl

/-- A run over a good file, one that repeats its key, an empty one and an unreadable one. -/
def fourFiles : Except Error Report × Store :=
  exec (ingestSource .ascii (standing .epoch) mixedSource false) ⟨false, .fresh⟩

end Rows

end Singularmem.Ingest
