import Singularmem.Graph.Chains
import Mathlib.Data.List.TakeWhile

/-!
# Reading the past

A query at a record time answers what the same query without one answered in the store
of that time. Calls only append facts, later calls stamp them later, and an entity that
a fact names keeps its id and name.
-/

namespace Singularmem.Graph

open Library Singularmem.Core
open Effect hiding ofExcept

variable {platform : Platform}

/-- What a sequence of calls adds: entities stay, and every new fact carries the record
time of a call. -/
theorem runCalls_adds (platform : Platform) (calls : List (Env × GraphCall)) (store : Store) :
    Grown KeepsEntity store.database.tables.entities.rows
        (runCalls platform calls store).database.tables.entities.rows ∧
      ∃ added, (runCalls platform calls store).database.tables.facts.rows =
          store.database.tables.facts.rows ++ added ∧
        ∀ row ∈ added, ∃ call ∈ calls, Recorded call.1 row := by
  induction calls using List.reverseRecOn with
  | nil => exact ⟨.refl KeepsEntity.refl _, [], by simp [runCalls], by simp⟩
  | append_singleton calls call inductionHypothesis =>
    obtain ⟨grown, added, rows, stamped⟩ := inductionHypothesis
    rw [runCalls_snoc]
    have step := perform_extends platform call.1 call.2 (runCalls platform calls store)
    obtain ⟨more, moreRows, moreStamped⟩ := step.facts.appended
    refine ⟨grown.trans KeepsEntity.trans step.entities, added ++ more, ?_, ?_⟩
    · rw [moreRows, rows, List.append_assoc]
    · intro row member
      rcases List.mem_append.mp member with earlier | new
      · obtain ⟨source, sourceIn, recorded⟩ := stamped row earlier
        exact ⟨source, List.mem_append_left _ sourceIn, recorded⟩
      · exact ⟨call, by simp, moreStamped row new⟩

section Names

variable {before after : Tables}

/-- An entity that exists keeps its name. -/
theorem entityNameOf_grown (grown : Grown KeepsEntity before.entities.rows after.entities.rows)
    {id : EntityId} (stored : before.hasEntity id) :
    entityNameOf after id = entityNameOf before id := by
  obtain ⟨row, found⟩ := Option.isSome_iff_exists.mp stored
  obtain ⟨member, entry⟩ := Table.find_eq_some.mp found
  obtain ⟨became, becameIn, kind, rfl, _⟩ := grown.mem member
  have foundAfter : after.entities.find (.id id) = some { row with kind } :=
    Table.find_eq_some.mpr ⟨becameIn, by simpa [entitySchema] using entry⟩
  rw [entityNameOf, entityNameOf, found, foundAfter]
  rfl

/-- Facts of an earlier store are read as they were. -/
theorem selectFacts_grown (grown : Grown KeepsEntity before.entities.rows after.entities.rows)
    (references : before.References) {rows : List FactRow}
    (stored : ∀ row ∈ rows, row ∈ before.facts.rows) :
    selectFacts platform after rows = selectFacts platform before rows := by
  have joined : ∀ row ∈ rows, joinNames after row = joinNames before row := by
    intro row member
    have subject := entityNameOf_grown grown (references.subject row (stored row member))
    have object : row.objectId.bind (entityNameOf after) =
        row.objectId.bind (entityNameOf before) := by
      rcases named : row.objectId with _ | id
      · rfl
      · exact entityNameOf_grown grown (references.object row (stored row member) id named)
    rw [joinNames, joinNames, subject, object]
  rw [selectFacts, selectFacts, List.filterMap_congr joined]

/-- A name resolves to the entity that has it. -/
theorem entityIdsByName_eq (tables : Tables) (name : String) :
    entityIdsByName platform tables name = (Normalise.entityName platform name).map
      fun normalised => (entityByName tables normalised).toList.map EntityRow.id := by
  rcases normalisation : Normalise.entityName platform name with error | normalised
  · rw [entityIdsByName, normalisation]
    rfl
  · have named : (tables.entities.rows.filter fun row => row.normalisedName = normalised) =
        (entityByName tables normalised).toList := by
      rw [entityByName, ← Table.filter_key]
      refine List.filter_congr fun row _ => ?_
      simp [entitySchema, eq_comm]
    rw [entityIdsByName, normalisation]
    change Except.ok _ = Except.ok ((entityByName tables normalised).toList.map EntityRow.id)
    rw [named]
    rcases entityByName tables normalised with _ | row <;> rfl

/-- An entity found by name is still found; one that was not there is new. -/
theorem entityByName_grown (grown : Grown KeepsEntity before.entities.rows after.entities.rows)
    (normalised : String) :
    (entityByName after normalised).map EntityRow.id =
        (entityByName before normalised).map EntityRow.id ∨
      entityByName before normalised = none ∧
        ∀ row ∈ entityByName after normalised, ¬ before.hasEntity row.id := by
  rcases found : entityByName before normalised with _ | row
  · refine .inr ⟨rfl, ?_⟩
    intro late lateFound held
    obtain ⟨lateIn, lateEntry⟩ := Table.find_eq_some.mp lateFound
    obtain ⟨early, earlyFound⟩ := Option.isSome_iff_exists.mp held
    obtain ⟨earlyIn, earlyEntry⟩ := Table.find_eq_some.mp earlyFound
    obtain ⟨became, becameIn, kind, rfl, _⟩ := grown.mem earlyIn
    have one := @Table.row_unique _ _ _ after.entities _ _ becameIn lateIn (.id late.id)
      (by simpa [entitySchema] using earlyEntry) (by simp [entitySchema])
    refine Table.find_eq_none.mp found early earlyIn ?_
    rw [← one] at lateEntry
    simpa [entitySchema] using lateEntry
  · left
    obtain ⟨member, entry⟩ := Table.find_eq_some.mp found
    obtain ⟨became, becameIn, kind, rfl, _⟩ := grown.mem member
    have foundAfter : entityByName after normalised = some { row with kind } :=
      Table.find_eq_some.mpr ⟨becameIn, by simpa [entitySchema] using entry⟩
    rw [foundAfter]
    rfl

end Names

/-- The past of a store at a record time: its facts are those recorded by then. -/
structure PastOf (time : Timestamp) (past present : Tables) : Prop where
  references : past.References
  entities : Grown KeepsEntity past.entities.rows present.entities.rows
  facts : ∃ added, present.facts.rows = past.facts.rows ++ added ∧
    ∀ row ∈ added, ¬ row.recordedAt ≤ toSql time
  recorded : ∀ row ∈ past.facts.rows, row.recordedAt ≤ toSql time

section Past

variable {time : Timestamp} {past present : Tables}

/-- The rows visible at the record time are the heads of the past. -/
theorem PastOf.filter_recorded (pastOf : PastOf time past present) (keep : FactRow → Bool) :
    (present.facts.rows.filter fun row => recordedWhere present (some time) row && keep row) =
      past.facts.rows.filter fun row => recordedWhere past none row && keep row := by
  obtain ⟨added, rows, later⟩ := pastOf.facts
  have superseded : ∀ id, supersededBy present id (fun newer => newer.recordedAt ≤ toSql time) =
      supersededBy past id fun _ => true := by
    intro id
    rw [Bool.eq_iff_iff, supersededBy_iff, supersededBy_iff, rows]
    constructor
    · rintro ⟨newer, member, points, early⟩
      rcases List.mem_append.mp member with old | new
      · exact ⟨newer, old, points, rfl⟩
      · exact absurd (by simpa using early) (later newer new)
    · rintro ⟨newer, member, points, _⟩
      exact ⟨newer, List.mem_append_left _ member, points,
        by simpa using pastOf.recorded newer member⟩
  have none : (added.filter fun row => recordedWhere present (some time) row && keep row) = [] := by
    refine List.filter_eq_nil_iff.mpr ?_
    intro row member
    simp [recordedWhere, later row member]
  rw [rows, List.filter_append, none, List.append_nil]
  refine List.filter_congr fun row member => ?_
  simp only [recordedWhere, superseded, pastOf.recorded row member, decide_true, Bool.true_and]

/-- A selection by the shared read predicate is the same in the past. -/
theorem PastOf.selectFacts_eq (pastOf : PastOf time past present) (query : GraphQuery)
    (side : FactRow → Bool) :
    (selectFacts platform present (chronological (present.facts.rows.filter fun row =>
        side row && factWhere present { query with recordedAt := some time } .window row))) =
      selectFacts platform past (chronological (past.facts.rows.filter fun row =>
        side row && factWhere past { query with recordedAt := none } .window row)) := by
  have shape : ∀ (tables : Tables) (recordedAt : Option Timestamp),
      (tables.facts.rows.filter fun row =>
        side row && factWhere tables { query with recordedAt } .window row) =
      tables.facts.rows.filter fun row => recordedWhere tables recordedAt row &&
        (side row && (windowWhere query.asOf row &&
          query.scope.all fun filter => filter.sqlClause row.scope)) := by
    intro tables recordedAt
    refine List.filter_congr fun row _ => ?_
    simp [factWhere, Bool.and_left_comm, Bool.and_assoc]
  rw [shape, shape, pastOf.filter_recorded]
  refine selectFacts_grown pastOf.entities pastOf.references ?_
  intro row member
  have kept := (List.mem_insertionSort _).mp member
  exact (List.mem_filter.mp kept).1

/-- A predicate query answers the same. -/
theorem PastOf.queryPredicate_eq (pastOf : PastOf time past present) (predicate : String)
    (query : GraphQuery) :
    queryPredicate platform present predicate { query with recordedAt := some time } =
      queryPredicate platform past predicate { query with recordedAt := none } := by
  unfold queryPredicate
  refine bind_congr fun normalised => ?_
  exact pastOf.selectFacts_eq query fun row => row.predicate = normalised

/-- No fact of the past stands at the side of an entity that was not there. -/
theorem PastOf.side_empty (pastOf : PastOf time past present) {id : EntityId}
    (absent : ¬ past.hasEntity id) (direction : Direction) (keep : FactRow → Bool) :
    (past.facts.rows.filter fun row => directionClause direction [id] row && keep row) = [] := by
  refine List.filter_eq_nil_iff.mpr ?_
  intro row member
  have subject : row.subjectId ≠ id := by
    rintro rfl
    exact absent (pastOf.references.subject row member)
  have object : row.objectId.any (· = id) = false := by
    rcases named : row.objectId with _ | other
    · rfl
    · have stored := pastOf.references.object row member other named
      have different : other ≠ id := by
        rintro rfl
        exact absent stored
      simpa using different
  cases direction <;> simp [directionClause, subject, object]

/-- An entity query answers the same. -/
theorem PastOf.queryEntity_eq (pastOf : PastOf time past present) (name : String)
    (query : GraphQuery) :
    queryEntity platform present name { query with recordedAt := some time } =
      queryEntity platform past name { query with recordedAt := none } := by
  have fromIds : ∀ ids, factsTouching platform present ids { query with recordedAt := some time } =
      factsTouching platform past ids { query with recordedAt := none } := by
    intro ids
    rw [factsTouching, factsTouching]
    exact congrArg _ (pastOf.selectFacts_eq query (directionClause query.direction ids))
  rw [queryEntity, queryEntity, entityIdsByName_eq, entityIdsByName_eq]
  rcases Normalise.entityName platform name with error | normalised
  · rfl
  · change factsTouching platform present
        ((entityByName present normalised).toList.map EntityRow.id) _ =
      factsTouching platform past ((entityByName past normalised).toList.map EntityRow.id) _
    rcases entityByName_grown pastOf.entities normalised with same | ⟨unknown, fresh⟩
    · have ids : (entityByName present normalised).toList.map EntityRow.id =
          (entityByName past normalised).toList.map EntityRow.id := by
        rw [← Option.toList_map, ← Option.toList_map, same]
      rw [ids]
      exact fromIds _
    · rw [unknown]
      rcases found : entityByName present normalised with _ | row
      · rfl
      · have empty := pastOf.side_empty (fresh row found) query.direction fun row =>
          factWhere past { query with recordedAt := none } .window row
        refine (fromIds [row.id]).trans ?_
        rw [factsTouching, if_neg (by simp), empty]
        rfl

end Past

/-- The calls up to an instant, under a clock that never goes back, are those that read
no later one. -/
theorem later_of_dropWhile {calls : List (Env × GraphCall)} {time : Timestamp}
    (ordered : calls.Pairwise fun earlier later => earlier.1.now ≤ later.1.now) :
    ∀ call ∈ calls.dropWhile fun call => call.1.now ≤ time, time < call.1.now := by
  induction ordered with
  | nil => simp
  | @cons call rest later _ inductionHypothesis =>
    by_cases early : call.1.now ≤ time
    · rw [List.dropWhile_cons_of_pos (by simpa using early)]
      exact inductionHypothesis
    · rw [List.dropWhile_cons_of_neg (by simpa using early)]
      have below : time.nanos < call.1.now.nanos := Int.not_le.mp early
      intro other member
      rcases List.mem_cons.mp member with rfl | rest
      · exact below
      · exact Int.lt_of_lt_of_le below (later other rest)

/-- The store after the calls up to an instant is the past of the store after all. -/
theorem pastOf_runCalls {calls : List (Env × GraphCall)} {start : Store} {time : Timestamp}
    (empty : start.database.tables.facts.rows = [])
    (ordered : calls.Pairwise fun earlier later => earlier.1.now ≤ later.1.now)
    (unsigned : time.Unsigned) :
    PastOf time
      (runCalls platform (calls.takeWhile fun call => call.1.now ≤ time) start).database.tables
      (runCalls platform calls start).database.tables := by
  set early := calls.takeWhile fun call => call.1.now ≤ time
  set late := calls.dropWhile fun call => call.1.now ≤ time
  have whole : runCalls platform calls start =
      runCalls platform late (runCalls platform early start) := by
    rw [runCalls, runCalls, runCalls, ← List.foldl_append, List.takeWhile_append_dropWhile]
  obtain ⟨_, first, firstRows, firstStamped⟩ := runCalls_adds platform early start
  obtain ⟨grown, added, rows, stamped⟩ :=
    runCalls_adds platform late (runCalls platform early start)
  rw [empty, List.nil_append] at firstRows
  refine ⟨(runCalls platform early start).database.references, by rwa [whole],
    ⟨added, by rw [whole, rows], ?_⟩, ?_⟩
  · intro row member recorded
    obtain ⟨call, callIn, stamp, recent, _⟩ := stamped row member
    rw [stamp, Timestamp.toSql_le (Timestamp.unsigned_of_recent recent) unsigned] at recorded
    exact absurd recorded (Int.not_le.mpr (later_of_dropWhile ordered call callIn))
  · intro row member
    rw [firstRows] at member
    obtain ⟨call, callIn, stamp, recent, _⟩ := firstStamped row member
    rw [stamp, Timestamp.toSql_le (Timestamp.unsigned_of_recent recent) unsigned]
    simpa using List.mem_takeWhile_imp callIn

/-- **Bitemporal time travel.** Under a clock that never goes back, a query at a record
time answers in the final store what the query without one answered after the last call
that read the clock no later. -/
theorem recorded_query_answers_the_past (platform : Platform) (calls : List (Env × GraphCall))
    (start : Store) (empty : start.database.tables.facts.rows = [])
    (ordered : calls.Pairwise fun earlier later => earlier.1.now ≤ later.1.now)
    (time : Timestamp) (unsigned : time.Unsigned) (query : GraphQuery) :
    (∀ name, queryEntity platform (runCalls platform calls start).database.tables name
        { query with recordedAt := some time } =
      queryEntity platform (runCalls platform (calls.takeWhile fun call => call.1.now ≤ time)
        start).database.tables name { query with recordedAt := none }) ∧
    ∀ predicate, queryPredicate platform (runCalls platform calls start).database.tables predicate
        { query with recordedAt := some time } =
      queryPredicate platform (runCalls platform (calls.takeWhile fun call => call.1.now ≤ time)
        start).database.tables predicate { query with recordedAt := none } := by
  have past := @pastOf_runCalls platform calls start time empty ordered unsigned
  exact ⟨fun name => past.queryEntity_eq name query,
    fun predicate => past.queryPredicate_eq predicate query⟩

/-- Between the statement of a fact and its replacement, only the fact is known. -/
theorem replaced_fact_is_known_in_its_past :
    ((queryEntity .ascii (runCalls .ascii statedAndReplaced ⟨false, .fresh⟩).database.tables
        "tantivy" ⟨some ⟨"a", false⟩, none, some (instantAfter 0), .both⟩).toOption.map
          (·.map (·.object.text))) = some ["Rust"] ∧
    queryEntity .ascii (runCalls .ascii statedAndReplaced ⟨false, .fresh⟩).database.tables
        "tantivy" ⟨some ⟨"a", false⟩, none, some (instantAfter 0), .both⟩ =
      queryEntity .ascii (runCalls .ascii (statedAndReplaced.takeWhile fun call =>
        call.1.now ≤ instantAfter 0) ⟨false, .fresh⟩).database.tables "tantivy"
        ⟨some ⟨"a", false⟩, none, none, .both⟩ :=
  ⟨by decide +kernel,
    (recorded_query_answers_the_past .ascii statedAndReplaced ⟨false, .fresh⟩ rfl (by decide)
      (instantAfter 0) (by decide +kernel) ⟨some ⟨"a", false⟩, none, none, .both⟩).1 "tantivy"⟩

end Singularmem.Graph
