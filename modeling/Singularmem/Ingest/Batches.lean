import Singularmem.Ingest.Sifting

/-!
# What the driver writes in batches

A batch whose items all validate is written as a whole. Of any other batch those items are
written that validate. Either way, what lands is known before the batch is written.
-/

namespace Singularmem.Ingest

open Library Singularmem.Core
open Effect hiding ofExcept

variable {platform : Platform} {readings : Readings} {mints : ItemId → Prop}

/-- A submission validates. -/
def valid (platform : Platform) (item : NewItem) : Bool := (validate platform item).toOption.isSome

/-- A candidate that is written alone lands. -/
def landsAlone (platform : Platform) (readings : Readings) (candidate : Candidate) : Bool :=
  valid platform candidate.1 && (readings.alone candidate.2).Recent

/-- A batch is written as a whole. -/
def wholeLands (platform : Platform) (readings : Readings) (number : Nat) (batch : List Candidate) :
    Bool :=
  batch.all (fun candidate => valid platform candidate.1) && (readings.batch number).Recent

/-- The candidates of a batch that land. -/
def landing (platform : Platform) (readings : Readings) (number : Nat) (batch : List Candidate) :
    List Candidate :=
  batch.filter fun candidate =>
    wholeLands platform readings number batch || landsAlone platform readings candidate

theorem valid_iff {item : NewItem} :
    valid platform item ↔ ∃ validated, validate platform item = .ok validated := by
  unfold valid
  rcases validate platform item with error | validated <;> simp [Except.toOption]

theorem invalid_iff {item : NewItem} :
    ¬ valid platform item ↔ ∃ error, validate platform item = .error error := by
  unfold valid
  rcases validate platform item with error | validated <;> simp [Except.toOption]

/-- Candidates were put on the shelf, one after the other. -/
structure Landed (platform : Platform) (mints : ItemId → Prop) (before after : Tables)
    (landed : List Candidate) : Prop where
  contents : contents after = contents before ++ landed.map fun candidate => submitted platform candidate.1
  holds : ∀ candidate ∈ landed, Holds platform after candidate.1
  /-- Other keys keep what is stored under them. -/
  frame : ∀ key, (∀ candidate ∈ landed, candidate.1.externalId ≠ some key) → SameUnder key before after
  accepted : ∀ candidate ∈ landed, valid platform candidate.1 ∧ candidate.1.passesCheck ∧
    ∀ prior ∈ candidate.1.supersedes, before.hasItem prior ∨ mints prior
  stays : ∀ id, before.hasItem id → after.hasItem id
  ids : ∀ id, after.hasItem id → before.hasItem id ∨ mints id

namespace Landed

variable {before middle after : Tables} {first second : List Candidate}

theorem nil : Landed platform mints before before [] :=
  ⟨(List.append_nil _).symm, by simp, fun _ _ => .refl, by simp, fun _ => id, fun _ => .inl⟩

/-- What landed later has other keys. -/
theorem trans (early : Landed platform mints before middle first)
    (late : Landed platform mints middle after second)
    (apart : ∀ candidate ∈ first, ∀ key ∈ candidate.1.externalId,
      ∀ other ∈ second, other.1.externalId ≠ some key) :
    Landed platform mints before after (first ++ second) := by
  refine ⟨?_, ?_, ?_, ?_, fun id present => late.stays id (early.stays id present), ?_⟩
  · rw [late.contents, early.contents, List.map_append, List.append_assoc]
  · intro candidate member
    rcases List.mem_append.mp member with inFirst | inSecond
    · exact (early.holds candidate inFirst).frame fun key given =>
        late.frame key (apart candidate inFirst key given)
    · exact late.holds candidate inSecond
  · intro key others
    refine (early.frame key fun candidate member => others candidate ?_).trans
      (late.frame key fun candidate member => others candidate ?_)
    · exact List.mem_append_left _ member
    · exact List.mem_append_right _ member
  · intro candidate member
    rcases List.mem_append.mp member with inFirst | inSecond
    · exact early.accepted candidate inFirst
    · obtain ⟨validated, check, target⟩ := late.accepted candidate inSecond
      refine ⟨validated, check, fun prior linked => ?_⟩
      rcases target prior linked with present | minted
      · exact early.ids prior present
      · exact .inr minted
  · intro id present
    rcases late.ids id present with earlier | minted
    · exact early.ids id earlier
    · exact .inr minted

end Landed

/-- An item put on the shelf. -/
theorem landed_one {before after : Tables} {candidate : Candidate} {env : Env} {draw : Nat}
    {validated : Validated} (recent : env.Recent)
    (accepted : validate platform candidate.1 = .ok validated) (check : candidate.1.passesCheck)
    (target : ∀ prior ∈ candidate.1.supersedes, before.hasItem prior ∨ mints prior)
    (minted : mints (env.mint draw))
    (shelf : after.shelf = before.shelf ++ [shelved platform env draw candidate.1 validated]) :
    Landed platform mints before after [candidate] := by
  have last : shelved platform env draw candidate.1 validated ∈ after.shelf := by
    rw [shelf]
    exact List.mem_append_right _ (List.mem_singleton.mpr rfl)
  refine ⟨?_, ?_, ?_, ?_, ?_, ?_⟩
  · rw [contents, shelf, List.map_append, List.map_singleton, contentsOf_shelved accepted]
    rfl
  · intro other member key given
    rw [List.mem_singleton.mp member] at given ⊢
    exact ⟨_, last, given, rfl, env.now, recent, rfl⟩
  · intro key others
    refine sameUnder_append shelf fun known member => ?_
    rw [List.mem_singleton.mp member]
    exact others candidate (List.mem_singleton.mpr rfl)
  · intro other member
    rw [List.mem_singleton.mp member]
    exact ⟨valid_iff.mpr ⟨validated, accepted⟩, check, target⟩
  · intro id present
    obtain ⟨known, member, same⟩ := hasItem_iff_shelf.mp present
    exact hasItem_iff_shelf.mpr ⟨known, shelf ▸ List.mem_append_left _ member, same⟩
  · intro id present
    obtain ⟨known, member, rfl⟩ := hasItem_iff_shelf.mp present
    rw [shelf] at member
    rcases List.mem_append.mp member with old | new
    · exact .inl (hasItem_iff_shelf.mpr ⟨known, old, rfl⟩)
    · rw [List.mem_singleton.mp new]
      exact .inr minted

/-- The contents of submissions put on the shelf in one call. -/
theorem contentsOf_shelvedEach {env : Env} {draw : Nat} {pairs : List (NewItem × Validated)}
    (accepted : ∀ pair ∈ pairs, validate platform pair.1 = .ok pair.2) :
    (shelvedEach platform env draw pairs).map contentsOf =
      pairs.map fun pair => submitted platform pair.1 := by
  induction pairs generalizing draw with
  | nil => rfl
  | cons pair rest inductionHypothesis =>
    rw [shelvedEach, List.map_cons, List.map_cons,
      contentsOf_shelved (accepted pair List.mem_cons_self),
      inductionHypothesis fun other member => accepted other (List.mem_cons_of_mem pair member)]

/-- A bulk call that returned put the whole batch on the shelf. -/
theorem landed_many {env : Env} {batch : List Candidate} {store after : Store} {stored : List Item}
    (minted : ∀ draw < batch.length, mints (env.mint draw)) (some : batch ≠ [])
    (returned : exec (ingestMany platform env (batch.map Prod.fst)) store = (.ok stored, after)) :
    Landed platform mints store.database.tables after.database.tables batch ∧ env.Recent ∧
      stored.length = batch.length ∧ store.readOnly = false ∧ after.readOnly = false := by
  obtain ⟨writable, still, recent, count, validated, accepted, shelf, each⟩ := ingestMany_shelves returned
  have recent := recent (by simpa using some)
  rw [List.length_map] at count each
  have length := mapM_returned_length accepted
  rw [List.length_map] at length
  have zipped := mapM_returned_zip accepted
  have fsts : ((batch.map Prod.fst).zip validated).map Prod.fst = batch.map Prod.fst :=
    List.map_fst_zip (by simp [length])
  have paired : ∀ candidate ∈ batch, ∃ found,
      (candidate.1, found) ∈ (batch.map Prod.fst).zip validated := by
    intro candidate member
    obtain ⟨found, pairIn, _⟩ := mapM_returned_each accepted (List.mem_map_of_mem member)
    exact ⟨found, pairIn⟩
  refine ⟨⟨?_, ?_, ?_, ?_, ?_, ?_⟩, recent, count, writable, still⟩
  · rw [contents, shelf, List.map_append, contentsOf_shelvedEach zipped]
    congr 1
    rw [show (fun pair : NewItem × Validated => submitted platform pair.1) =
      submitted platform ∘ Prod.fst from rfl, ← List.map_map, fsts, List.map_map]
    rfl
  · intro candidate member key given
    obtain ⟨found, pairIn⟩ := paired candidate member
    obtain ⟨made, inShelf⟩ := @shelvedEach_mem platform env 0 _ _ pairIn
    refine ⟨_, shelf ▸ List.mem_append_right _ inShelf, given, rfl, env.now, recent, rfl⟩
  · intro key others
    refine sameUnder_append shelf fun known member => ?_
    obtain ⟨pair, pairIn, _, _, rfl⟩ := mem_shelvedEach member
    obtain ⟨candidate, candidateIn, same⟩ := List.mem_map.mp (List.of_mem_zip pairIn).1
    have other := others candidate candidateIn
    rw [same] at other
    exact other
  · intro candidate member
    obtain ⟨found, pairIn⟩ := paired candidate member
    obtain ⟨check, target⟩ := each candidate.1 (List.mem_map_of_mem member)
    refine ⟨valid_iff.mpr ⟨found, zipped _ pairIn⟩, check, fun prior linked => ?_⟩
    rcases target prior linked with present | ⟨draw, below, rfl⟩
    · exact .inl present
    · exact .inr (minted draw below)
  · intro id present
    obtain ⟨known, member, same⟩ := hasItem_iff_shelf.mp present
    exact hasItem_iff_shelf.mpr ⟨known, shelf ▸ List.mem_append_left _ member, same⟩
  · intro id present
    obtain ⟨known, member, rfl⟩ := hasItem_iff_shelf.mp present
    rw [shelf] at member
    rcases List.mem_append.mp member with old | new
    · exact .inl (hasItem_iff_shelf.mpr ⟨known, old, rfl⟩)
    · obtain ⟨pair, pairIn, draw, below, rfl⟩ := mem_shelvedEach new
      refine .inr (minted draw ?_)
      simpa [length] using below

/-- The keys of candidates are distinct. -/
def DistinctKeys (batch : List Candidate) : Prop :=
  (batch.filterMap fun candidate => candidate.1.externalId).Nodup

/-- No candidate has a key that is stored. -/
def FreeKeys (tables : Tables) (batch : List Candidate) : Prop :=
  ∀ candidate ∈ batch, ∀ key ∈ candidate.1.externalId, ¬ tables.carries key

theorem DistinctKeys.rest {candidate : Candidate} {batch : List Candidate}
    (distinct : DistinctKeys (candidate :: batch)) : DistinctKeys batch :=
  distinct.sublist ((List.sublist_cons_self candidate batch).filterMap _)

theorem DistinctKeys.apart {candidate : Candidate} {batch : List Candidate}
    (distinct : DistinctKeys (candidate :: batch)) {key : String}
    (given : candidate.1.externalId = some key) :
    ∀ other ∈ batch, other.1.externalId ≠ some key := by
  intro other member same
  rw [DistinctKeys, List.filterMap_cons, given] at distinct
  exact (List.nodup_cons.mp distinct).1 (List.mem_filterMap.mpr ⟨other, member, same⟩)

/-- Two candidates with one key are one. -/
theorem DistinctKeys.unique {batch : List Candidate} (distinct : DistinctKeys batch)
    {left right : Candidate} (leftIn : left ∈ batch) (rightIn : right ∈ batch) {key : String}
    (leftKey : left.1.externalId = some key) (rightKey : right.1.externalId = some key) :
    left = right := by
  induction batch with
  | nil => cases leftIn
  | cons head rest inductionHypothesis =>
    rcases List.mem_cons.mp leftIn with rfl | leftLater
    · rcases List.mem_cons.mp rightIn with rfl | rightLater
      · rfl
      · exact absurd rightKey (distinct.apart leftKey right rightLater)
    · rcases List.mem_cons.mp rightIn with rfl | rightLater
      · exact absurd leftKey (distinct.apart rightKey left leftLater)
      · exact inductionHypothesis distinct.rest leftLater rightLater

/-- The other keys stay free where others land. -/
theorem FreeKeys.later {before after : Tables} {landed batch : List Candidate}
    (free : FreeKeys before batch) (step : Landed platform mints before after landed)
    (apart : ∀ candidate ∈ batch, ∀ key ∈ candidate.1.externalId,
      ∀ other ∈ landed, other.1.externalId ≠ some key) : FreeKeys after batch := by
  intro candidate member key given held
  exact free candidate member key given ((step.frame key (apart candidate member key given)).carries.mp held)

/-- **What writing a batch item by item did.** -/
theorem writeSingly_returned {batch : List Candidate} {report final : Report} {store after : Store}
    (minted : ∀ candidate ∈ batch, mints ((readings.alone candidate.2).mint 0))
    (distinct : DistinctKeys batch) (free : FreeKeys store.database.tables batch)
    (writable : store.readOnly = false)
    (returned : exec (writeSingly platform readings batch report) store = (.ok final, after)) :
    Landed platform mints store.database.tables after.database.tables
      (batch.filter (landsAlone platform readings)) ∧
    final.ingested = report.ingested + (batch.filter (landsAlone platform readings)).length ∧
    final.failed + (batch.filter (landsAlone platform readings)).length = report.failed + batch.length ∧
    after.readOnly = false := by
  induction batch generalizing report store with
  | nil =>
    cases returned
    exact ⟨.nil, rfl, rfl, writable⟩
  | cons candidate rest inductionHypothesis =>
    obtain ⟨item, place⟩ := candidate
    have mintedRest : ∀ candidate ∈ rest, mints ((readings.alone candidate.2).mint 0) :=
      fun candidate member => minted candidate (List.mem_cons_of_mem _ member)
    have freeRest : FreeKeys store.database.tables rest :=
      fun candidate member => free candidate (List.mem_cons_of_mem _ member)
    rw [writeSingly, exec_bind_ok (exec_attempt _ store)] at returned
    rcases called : exec (ingest platform (readings.alone place) item) store with ⟨error | stored, middle⟩
    · rw [called] at returned
      split at returned
      case h_1 ok => cases ok
      case h_2 field reason refused =>
        cases refused
        obtain rfl : middle = store := writing_error called
        have missed : ¬ landsAlone platform readings (item, place) := by
          rw [landsAlone, Bool.and_eq_true, decide_eq_true_eq]
          rintro ⟨validated, recent⟩
          rcases ingest_threw_validation writable called with invalid | early
          · exact invalid_iff.mpr invalid validated
          · exact early recent
        obtain ⟨landed, ingested, failed, still⟩ :=
          inductionHypothesis mintedRest distinct.rest freeRest writable returned
        rw [List.filter_cons_of_neg missed]
        refine ⟨landed, ingested, ?_, still⟩
        change _ = report.failed + 1 + rest.length at failed
        rw [failed, List.length_cons]
        omega
      case h_3 => cases returned
    · rw [called] at returned
      obtain ⟨_, still, recent, fits, validated, accepted, shelf⟩ := ingest_shelves called
      have lands : landsAlone platform readings (item, place) := by
        rw [landsAlone, Bool.and_eq_true, decide_eq_true_eq]
        exact ⟨valid_iff.mpr ⟨validated, accepted⟩, recent⟩
      have one : Landed platform mints store.database.tables middle.database.tables [(item, place)] :=
        @landed_one platform mints _ _ (item, place) (readings.alone place) 0 validated recent accepted
          fits.check (fun prior linked => .inl (fits.target prior linked))
          (minted (item, place) List.mem_cons_self) shelf
      have apart : ∀ candidate ∈ rest, ∀ key ∈ candidate.1.externalId,
          ∀ other ∈ [(item, place)], other.1.externalId ≠ some key := by
        intro candidate member key given other otherIn same
        rw [List.mem_singleton.mp otherIn] at same
        exact distinct.apart same candidate member given
      obtain ⟨landed, ingested, failed, final⟩ :=
        inductionHypothesis mintedRest distinct.rest (freeRest.later one apart) still returned
      rw [List.filter_cons_of_pos lands]
      refine ⟨one.trans landed ?_, ?_, ?_, final⟩
      · intro first firstIn key given other otherIn same
        exact apart other (List.mem_of_mem_filter otherIn) key same first firstIn given
      · change _ = report.ingested + 1 + _ at ingested
        rw [ingested, List.length_cons]
        omega
      · change _ = report.failed + rest.length at failed
        rw [List.length_cons, List.length_cons]
        omega

/-- **What writing a batch did.** -/
theorem writeBatch_returned {number : Nat} {batch : List Candidate} {report final : Report}
    {store after : Store} (some : batch ≠ [])
    (alone : ∀ candidate ∈ batch, mints ((readings.alone candidate.2).mint 0))
    (bulk : ∀ draw < batch.length, mints ((readings.batch number).mint draw))
    (distinct : DistinctKeys batch) (free : FreeKeys store.database.tables batch)
    (returned : exec (writeBatch platform readings number batch report) store = (.ok final, after)) :
    Landed platform mints store.database.tables after.database.tables
      (landing platform readings number batch) ∧
    final.ingested = report.ingested + (landing platform readings number batch).length ∧
    final.failed + (landing platform readings number batch).length = report.failed + batch.length ∧
    store.readOnly = false ∧ after.readOnly = false := by
  rw [writeBatch, exec_bind_ok (exec_attempt _ store)] at returned
  rcases called : exec (ingestMany platform (readings.batch number) (batch.map Prod.fst)) store
    with ⟨error | stored, middle⟩
  · rw [called] at returned
    have writable : store.readOnly = false := by
      by_contra readOnly
      rw [ingestMany, writing_readOnly (by simpa using readOnly)] at called
      cases called
      cases returned
    obtain rfl : middle = store := writing_error called
    have keys : ((batch.map Prod.fst).filterMap NewItem.externalId).Nodup := by
      rw [List.filterMap_map]
      exact distinct
    have cause := ingestMany_threw writable keys (fun item member key given known stored carried => by
      obtain ⟨candidate, candidateIn, rfl⟩ := List.mem_map.mp member
      exact free candidate candidateIn key given ⟨known, stored, carried⟩) called
    split at returned
    case h_1 ok => cases ok
    case h_2 key conflict =>
      cases conflict
      rcases cause with database | ⟨⟨_, _, other⟩, _⟩
      · exact absurd rfl (database.noConflict key)
      · cases other
    case h_3 field reason refused =>
      cases refused
      have none : ¬ wholeLands platform readings number batch := by
        rw [wholeLands, Bool.and_eq_true, decide_eq_true_eq, List.all_eq_true]
        rcases cause with database | ⟨_, ⟨item, member, invalid⟩ | early⟩
        · exact absurd rfl (database.noField field reason)
        · obtain ⟨candidate, candidateIn, rfl⟩ := List.mem_map.mp member
          exact fun whole => invalid_iff.mpr invalid (whole.1 candidate candidateIn)
        · exact fun whole => early whole.2
      have single : landing platform readings number batch =
          batch.filter (landsAlone platform readings) := by
        refine List.filter_congr fun candidate _ => ?_
        rw [Bool.eq_false_iff.mpr none, Bool.false_or]
      obtain ⟨landed, ingested, failed, still⟩ :=
        writeSingly_returned alone distinct free writable returned
      rw [single]
      exact ⟨landed, ingested, failed, writable, still⟩
    case h_4 => cases returned
  · rw [called] at returned
    cases returned
    obtain ⟨landed, recent, count, writable, still⟩ := landed_many bulk some called
    have whole : wholeLands platform readings number batch := by
      rw [wholeLands, Bool.and_eq_true, decide_eq_true_eq, List.all_eq_true]
      exact ⟨fun candidate member => (landed.accepted candidate member).1, recent⟩
    have all : landing platform readings number batch = batch := by
      rw [landing, List.filter_eq_self]
      intro candidate _
      rw [whole, Bool.true_or]
    rw [all]
    exact ⟨landed, by rw [count], rfl, writable, still⟩

/-- No round writes nothing or more than a batch. -/
theorem batches_sized {α : Type} {rounds : Nat} {list batch : List α}
    (member : batch ∈ batches rounds list) : batch ≠ [] ∧ batch.length ≤ batchSize := by
  induction rounds generalizing list with
  | zero => cases member
  | succ rounds inductionHypothesis =>
    cases list with
    | nil => cases member
    | cons head tail =>
      rcases List.mem_cons.mp member with rfl | later
      · refine ⟨?_, List.length_take_le _ _⟩
        simp [batchSize]
      · exact inductionHypothesis later

/-- **The batches are the list**, in order, where there are enough rounds. -/
theorem batches_flatten {α : Type} {rounds : Nat} {list : List α} (enough : list.length ≤ rounds) :
    (batches rounds list).flatten = list := by
  induction rounds generalizing list with
  | zero => simpa [batches, eq_comm] using enough
  | succ rounds inductionHypothesis =>
    cases list with
    | nil => rfl
    | cons head tail =>
      have shorter : ((head :: tail).drop batchSize).length ≤ rounds := by
        rw [List.length_drop]
        simp only [List.length_cons, batchSize] at enough ⊢
        omega
      rw [batches, List.flatten_cons, inductionHypothesis shorter, List.take_append_drop]

/-- The candidates that land, batch by batch. -/
def landings (platform : Platform) (readings : Readings) (numbered : List (List Candidate × Nat)) :
    List Candidate :=
  numbered.flatMap fun pair => landing platform readings pair.2 pair.1

/-- What lands is written. -/
theorem landings_subset {numbered : List (List Candidate × Nat)} {candidate : Candidate}
    (member : candidate ∈ landings platform readings numbered) :
    candidate ∈ numbered.flatMap Prod.fst := by
  obtain ⟨pair, pairIn, lands⟩ := List.mem_flatMap.mp member
  exact List.mem_flatMap.mpr ⟨pair, pairIn, List.mem_of_mem_filter lands⟩

/-- Candidates of two parts have different keys. -/
theorem DistinctKeys.parts {first second : List Candidate} (distinct : DistinctKeys (first ++ second)) :
    DistinctKeys first ∧ DistinctKeys second ∧ ∀ candidate ∈ first, ∀ key ∈ candidate.1.externalId,
      ∀ other ∈ second, other.1.externalId ≠ some key := by
  rw [DistinctKeys, List.filterMap_append] at distinct
  obtain ⟨inFirst, inSecond, disjoint⟩ := List.nodup_append.mp distinct
  refine ⟨inFirst, inSecond, fun candidate member key given other otherIn same => ?_⟩
  exact disjoint key (List.mem_filterMap.mpr ⟨candidate, member, given⟩) key
    (List.mem_filterMap.mpr ⟨other, otherIn, same⟩) rfl

/-- A candidate with a key is in one batch. -/
theorem DistinctKeys.one_batch {numbered : List (List Candidate × Nat)}
    (distinct : DistinctKeys (numbered.flatMap Prod.fst)) {left right : List Candidate × Nat}
    (leftIn : left ∈ numbered) (rightIn : right ∈ numbered) {candidate : Candidate} {key : String}
    (given : candidate.1.externalId = some key) (inLeft : candidate ∈ left.1)
    (inRight : candidate ∈ right.1) : left = right := by
  induction numbered with
  | nil => cases leftIn
  | cons head rest inductionHypothesis =>
    rw [List.flatMap_cons] at distinct
    obtain ⟨_, distinctRest, apart⟩ := distinct.parts
    rcases List.mem_cons.mp leftIn with rfl | leftLater
    · rcases List.mem_cons.mp rightIn with rfl | rightLater
      · rfl
      · have later := List.mem_flatMap.mpr ⟨right, rightLater, inRight⟩
        exact absurd given (apart candidate inLeft key given candidate later)
    · rcases List.mem_cons.mp rightIn with rfl | rightLater
      · have later := List.mem_flatMap.mpr ⟨left, leftLater, inLeft⟩
        exact absurd given (apart candidate inRight key given candidate later)
      · exact inductionHypothesis distinctRest leftLater rightLater

/-- **What writing the batches did.** -/
theorem writeEach_returned {numbered : List (List Candidate × Nat)} {report final : Report}
    {store after : Store} (some : ∀ pair ∈ numbered, pair.1 ≠ [])
    (alone : ∀ candidate ∈ numbered.flatMap Prod.fst, mints ((readings.alone candidate.2).mint 0))
    (bulk : ∀ pair ∈ numbered, ∀ draw < pair.1.length, mints ((readings.batch pair.2).mint draw))
    (distinct : DistinctKeys (numbered.flatMap Prod.fst))
    (free : FreeKeys store.database.tables (numbered.flatMap Prod.fst))
    (returned : exec (writeEach platform readings numbered report) store = (.ok final, after)) :
    Landed platform mints store.database.tables after.database.tables
      (landings platform readings numbered) ∧
    final.ingested = report.ingested + (landings platform readings numbered).length ∧
    final.failed + (landings platform readings numbered).length =
      report.failed + (numbered.flatMap Prod.fst).length ∧
    (numbered ≠ [] → store.readOnly = false) ∧ after.readOnly = store.readOnly := by
  induction numbered generalizing report store with
  | nil =>
    cases returned
    exact ⟨.nil, rfl, rfl, by simp, rfl⟩
  | cons pair rest inductionHypothesis =>
    obtain ⟨batch, number⟩ := pair
    rw [List.flatMap_cons] at alone distinct free
    obtain ⟨distinctBatch, distinctRest, apart⟩ := distinct.parts
    obtain ⟨middleReport, middle, wrote, returned⟩ := exec_bind_returned returned
    obtain ⟨landed, ingested, failed, writable, still⟩ := writeBatch_returned
      (some _ List.mem_cons_self) (fun candidate member => alone candidate (List.mem_append_left _ member))
      (bulk _ List.mem_cons_self) distinctBatch
      (fun candidate member => free candidate (List.mem_append_left _ member)) wrote
    have freeRest : FreeKeys store.database.tables (rest.flatMap Prod.fst) :=
      fun candidate member => free candidate (List.mem_append_right _ member)
    obtain ⟨others, ingestedRest, failedRest, _, final⟩ := inductionHypothesis
      (fun pair member => some pair (List.mem_cons_of_mem _ member))
      (fun candidate member => alone candidate (List.mem_append_right _ member))
      (fun pair member => bulk pair (List.mem_cons_of_mem _ member)) distinctRest
      (freeRest.later landed fun candidate member key given other otherIn same =>
        apart other (List.mem_of_mem_filter otherIn) key same candidate member given) returned
    rw [landings, List.flatMap_cons]
    refine ⟨landed.trans others ?_, ?_, ?_, fun _ => writable, (final.trans still).trans writable.symm⟩
    · intro first firstIn key given other otherIn
      exact apart first (List.mem_of_mem_filter firstIn) key given other (landings_subset otherIn)
    · rw [List.length_append, ingestedRest, ingested, ← landings]
      omega
    · rw [List.length_append, List.flatMap_cons, List.length_append, ← landings]
      omega

/-- The batches of new candidates, numbered. -/
def numberedBatches (fresh : List Candidate) : List (List Candidate × Nat) :=
  (batches fresh.length fresh).zipIdx

/-- They are the new candidates. -/
theorem numberedBatches_flat (fresh : List Candidate) :
    (numberedBatches fresh).flatMap Prod.fst = fresh := by
  rw [numberedBatches, List.flatMap_def, List.zipIdx_map_fst, batches_flatten le_rfl]

/-- Each is one of the batches. -/
theorem numberedBatches_sized {fresh : List Candidate} {pair : List Candidate × Nat}
    (member : pair ∈ numberedBatches fresh) :
    pair.1 ≠ [] ∧ pair.1.length ≤ batchSize ∧ pair.2 < (batches fresh.length fresh).length := by
  obtain ⟨_, below, same⟩ := List.mem_zipIdx member
  obtain ⟨some, sized⟩ := batches_sized (same ▸ List.getElem_mem _)
  exact ⟨some, sized, by omega⟩

end Singularmem.Ingest
