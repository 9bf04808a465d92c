import Singularmem.Graph.StoredRows

/-!
# Replacement partitions time

The old fact of a replacement ends where the new one starts. A query at an instant shows the
old one before, the new one from there on, and neither before the old one became valid.
-/

namespace Singularmem.Graph

open Library Singularmem.Core
open Effect hiding ofExcept

variable {platform : Platform} {env : Env}

section Reading

variable {tables : Tables}

/-- A loaded fact is read from the row with its id. -/
theorem loadFact_reads {id : FactId} {fact : Fact}
    (loaded : loadFact platform tables id = .ok (some fact)) :
    ∃ row ∈ tables.facts.rows, row.id = id ∧ Reads platform tables row fact := by
  obtain ⟨raw, stored, same, parsed, joined⟩ := loadFact_some loaded
  exact ⟨raw.row, stored, same, raw, joined, parsed⟩

/-- A row that is read is loaded by its id. -/
theorem loadFact_of_reads {row : FactRow} {fact : Fact} (stored : row ∈ tables.facts.rows)
    (reads : Reads platform tables row fact) :
    loadFact platform tables row.id = .ok (some fact) := by
  have alone : (tables.facts.rows.filter fun other => other.id = row.id) = [row] := by
    have found : tables.facts.find row.id = some row :=
      Table.find_eq_some.mpr ⟨stored, List.mem_singleton_self _⟩
    have filtered := Table.filter_key tables.facts row.id
    rw [found] at filtered
    rw [← show _ = [row] from filtered]
    refine List.filter_congr fun other _ => ?_
    simp [factSchema, eq_comm]
  obtain ⟨raw, joined, parsed⟩ := reads
  rw [loadFact, alone, selectFacts, List.filterMap_cons_some joined, List.filterMap_nil,
    List.mapM_cons, parsed]
  rfl

/-- What is read from a rendered row was rendered from instants of year 0 or later. -/
theorem dated_of_reads (readsStored : platform.ReadsStored) {row : FactRow} {fact : Fact}
    (rendered : RowRendered row) (reads : Reads platform tables row fact) : RowDated row := by
  have column : ∀ {stored : Option String} {parsed : Option Timestamp},
      (∀ text, stored = some text → ∃ instant, text = toSql instant) →
      stored.mapM (parsePoint platform) = .ok parsed → Dated stored := by
    intro stored parsed known read
    cases stored with
    | none => exact ⟨none, by rintro _ ⟨⟩, rfl⟩
    | some text =>
      obtain ⟨instant, rfl⟩ := known text rfl
      obtain ⟨point, found, _⟩ := except_bind_returned read
      have same : toSql point = toSql instant := readsStored.readsBack.parsePoint found
      have unsigned : instant.Unsigned := by
        by_contra signed
        simp only [parsePoint, trim_toSql, readsStored.signed instant signed,
          readsStored.date] at found
        cases found
      exact ⟨some instant, by rintro _ ⟨⟩; exact unsigned, rfl⟩
  obtain ⟨raw, joined, parsed⟩ := reads
  obtain rfl := joinNames_row joined
  have made := RawFact.parsesAs parsed
  have recorded : (some raw.row.recordedAt).mapM (parsePoint platform) =
      .ok (some fact.recordedAt) := by
    rw [Option.mapM_some, made.recordedAt]
    rfl
  refine ⟨column (fun text given => rendered text (.inl given)) made.validFrom,
    column (fun text given => rendered text (.inr (.inl given))) made.validTo,
    column ?_ recorded⟩
  rintro _ ⟨⟩
  exact rendered _ (.inr (.inr rfl))

/-- A fact has the columns of the row it is read from, but for the text of its instants. -/
theorem Reads.columns {row : FactRow} {fact : Fact} (checked : factSchema.check row)
    (reads : Reads platform tables row fact) :
    { fact.toRow with
      validFrom := row.validFrom
      validTo := row.validTo
      recordedAt := row.recordedAt } = row := by
  obtain ⟨raw, joined, parsed⟩ := reads
  obtain rfl := joinNames_row joined
  exact (intoFact_returned checked parsed).2

/-- A fact has the id of the row it is read from, and supersedes the same revision. -/
theorem Reads.links {row : FactRow} {fact : Fact} (reads : Reads platform tables row fact) :
    fact.id = row.id ∧ fact.supersedes = row.supersedes := by
  obtain ⟨raw, joined, parsed⟩ := reads
  obtain rfl := joinNames_row joined
  have made := RawFact.parsesAs parsed
  exact ⟨made.id, made.supersedes⟩

theorem Reads.id {row : FactRow} {fact : Fact} (reads : Reads platform tables row fact) :
    fact.id = row.id := reads.links.1

/-- What is read from a dated row is dated. -/
theorem Reads.dated (readsStored : platform.ReadsStored) {row : FactRow} {fact : Fact}
    (reads : Reads platform tables row fact) (dated : RowDated row) : fact.Dated := by
  obtain ⟨raw, joined, parsed⟩ := reads
  obtain rfl := joinNames_row joined
  exact intoFact_keeps_dates readsStored dated parsed

/-- What a fact that was read says of names and of its confidence. -/
structure Fact.Faithful (tables : Tables) (fact : Fact) : Prop where
  subject : entityNameOf tables fact.subject.id = some fact.subject.name
  object : ObjectNamed tables fact.object
  confidence : fact.confidence.real.value = fact.confidence

/-- A fact that was read names its entities as the tables do. -/
theorem Reads.faithful (references : tables.References) {row : FactRow} {fact : Fact}
    (stored : row ∈ tables.facts.rows) (reads : Reads platform tables row fact) :
    fact.Faithful tables := by
  obtain ⟨raw, joined, parsed⟩ := reads
  obtain ⟨subjectName, named, rfl⟩ := Option.map_eq_some_iff.mp joined
  have made := RawFact.parsesAs parsed
  refine ⟨by rwa [made.subject], ?_, by rw [made.confidence, RealColumn.real_value]⟩
  intro ref stated
  have resolved := made.object
  rw [stated] at resolved
  cases given : row.objectId with
  | none => cases value : row.objectValue <;> simp [RawFact.object, given, value] at resolved
  | some id =>
    obtain ⟨entity, found⟩ := Option.isSome_iff_exists.mp (references.object row stored id given)
    simp only [RawFact.object, given, Option.bind_some, entityNameOf, found, Option.map_some,
      Option.getD_some] at resolved
    cases resolved
    simp [entityNameOf, found]

/-- **A faithful, dated fact is read back** from its row. -/
theorem Fact.Faithful.reads (readsStored : platform.ReadsStored) {fact : Fact}
    (faithful : fact.Faithful tables) (dated : fact.Dated) :
    Reads platform tables fact.toRow fact := by
  refine ⟨⟨fact.toRow, fact.subject.name, fact.toRow.objectId.bind (entityNameOf tables)⟩, ?_, ?_⟩
  · rw [joinNames]
    change (entityNameOf tables fact.subject.id).map _ = _
    rw [faithful.subject]
    rfl
  · have resolved : RawFact.object ⟨fact.toRow, fact.subject.name,
        fact.toRow.objectId.bind (entityNameOf tables)⟩ = .ok fact.object := by
      cases given : fact.object with
      | entity ref =>
        have named := faithful.object ref given
        simp [RawFact.object, Fact.toRow, given, ObjectColumns.of, named]
      | value text => simp [RawFact.object, Fact.toRow, given, ObjectColumns.of]
    refine (intoFact_dated readsStored resolved rfl rfl rfl dated.validFrom dated.validTo
      dated.recordedAt).trans ?_
    simp only [Fact.toRow, faithful.confidence]

/-- Entities that stay keep a fact faithful. -/
theorem Fact.Faithful.grown {before after : Tables} {fact : Fact}
    (faithful : fact.Faithful before)
    (grown : Grown KeepsEntity before.entities.rows after.entities.rows) :
    fact.Faithful after := by
  have kept : ∀ {id name}, entityNameOf before id = some name → entityNameOf after id = some name := by
    intro id name named
    obtain ⟨row, found, rfl⟩ := Option.map_eq_some_iff.mp named
    rw [entityNameOf_grown grown (by rw [Tables.hasEntity, found]; rfl), named]
  exact ⟨kept faithful.subject, fun ref given => kept (faithful.object ref given),
    faithful.confidence⟩

/-- A head that states a predicate and a scope, and is read back. -/
structure Standing (platform : Platform) (tables : Tables) (triple : TripleRef) (fact : Fact) :
    Prop where
  stored : fact.toRow ∈ tables.facts.rows
  head : ¬ (factLog platform).Superseded tables.facts.rows fact.toRow
  reads : Reads platform tables fact.toRow fact
  dated : fact.Dated
  predicate : Normalise.predicate platform triple.predicate = .ok fact.predicate
  scope : triple.scope.mapM (Scope.validate platform) = .ok fact.scope

/-- A query sees the facts of a scope that a caller writes so. -/
def GraphQuery.Within (platform : Platform) (query : GraphQuery) (given : Option String) : Prop :=
  ∀ scope, given.mapM (Scope.validate platform) = .ok scope →
    query.scope.all fun filter => filter.sqlClause scope

/-- A query with a filter built from the caller's scope does, and so does one without. -/
theorem GraphQuery.within_own {raw : String} {filter : ScopeFilter}
    (built : ScopeFilter.exactly platform raw = .ok filter ∨
      ScopeFilter.descendants platform raw = .ok filter) (query : GraphQuery) :
    GraphQuery.Within platform { query with scope := some filter } (some raw) := by
  intro scope validated
  obtain ⟨path, accepted, rest⟩ := except_bind_returned validated
  cases rest
  have own : filter.path = path := by
    rcases built with exactly | descendants
    · obtain ⟨again, acceptedAgain, rest⟩ := except_bind_returned exactly
      cases rest
      exact Except.ok.inj (acceptedAgain.symm.trans accepted)
    · obtain ⟨again, acceptedAgain, rest⟩ := except_bind_returned descendants
      cases rest
      exact Except.ok.inj (acceptedAgain.symm.trans accepted)
  simp [ScopeFilter.sqlClause, own]

theorem GraphQuery.within_unfiltered (query : GraphQuery) (given : Option String) :
    GraphQuery.Within platform { query with scope := none } given := fun _ _ => rfl

/-- A standing fact is seen within its window. -/
theorem Standing.factWhere {triple : TripleRef} {fact : Fact}
    (standing : Standing platform tables triple fact) {query : GraphQuery}
    (within : query.Within platform triple.scope) (time : Timestamp) :
    factWhere tables { query with asOf := some time, recordedAt := none } .window fact.toRow = true ↔
      (∀ first ∈ fact.validFrom, first ≤ time) ∧ ∀ last ∈ fact.validTo, time < last := by
  have head : recordedWhere tables none fact.toRow = true := by
    rw [recordedWhere, Bool.not_eq_true', ← Bool.not_eq_true, supersededBy_iff]
    rintro ⟨newer, member, points, _⟩
    exact standing.head ⟨newer, member, points⟩
  have scope : (query.scope.all fun filter => filter.sqlClause fact.toRow.scope) = true :=
    within fact.scope standing.scope
  rw [Graph.factWhere, head, scope]
  simpa using @windowWhere_dated fact.validFrom fact.validTo fact.toRow rfl rfl
    standing.dated.validFrom standing.dated.validTo time

/-- The head that a lookup found and that was loaded is the open one that states what was
looked for. -/
theorem FactsKept.head_loaded (kept : FactsKept platform tables) {subject : EntityId}
    {predicate : String} {columns : ObjectColumns} {scope : Option String}
    (single : columns.Single) (nonempty : scope ≠ some "") {headId : FactId} {fact : Fact}
    (found : findOpenHead tables subject predicate columns scope = some headId)
    (loaded : loadFact platform tables headId = .ok (some fact)) :
    ∃ row, (factLog platform).OpenHead tables.facts.rows row ∧ Reads platform tables row fact ∧
      factKey row = (subject, predicate, columns.id, columns.value, scope) := by
  obtain ⟨head, heading, same, states⟩ := (kept.findOpenHead_iff single nonempty).mp found
  obtain ⟨row, stored, rowSame, reads⟩ := loadFact_reads loaded
  obtain rfl : row = head := kept.sound.id_injective stored heading.1 (rowSame.trans same.symm)
  exact ⟨row, heading, reads, states⟩

end Reading

section Replacing

variable {ending : Timestamp} {triple : TripleRef} {pending after : Pending}

/-- **The old fact** stands afterwards, ended. -/
theorem ended_stands (readsStored : platform.ReadsStored) (kept : FactsKept platform pending.tables)
    (dated : ∀ row ∈ pending.tables.facts.rows, RowDated row)
    (unsigned : 0 ≤ env.now.asMillisecond → ending.Unsigned) {old : Fact}
    (returned : exec (invalidateInTx platform env ending triple) pending = (.ok old, after)) :
    (∀ tables : Tables, (factLog platform).Sound tables.facts.rows →
      (∀ row ∈ after.tables.facts.rows, row ∈ tables.facts.rows) →
      Grown KeepsEntity after.tables.entities.rows tables.entities.rows →
        Standing platform tables triple old) ∧
      old.validTo = some ending ∧ ∀ first ∈ old.validFrom, first ≤ ending := by
  obtain ⟨subject, predicate, columns, scope, headId, head, ulid, facts, addresses, found, loaded,
    early, recent, rfl, inserted, tables⟩ := invalidateInTx_outcome returned
  obtain ⟨row, heading, reads, states⟩ := kept.head_loaded addresses.columns.single
    (scope_nonempty addresses.scope) found loaded
  obtain ⟨_, _, rows⟩ := Table.insert_eq_ok.mp inserted
  have headDated := reads.dated readsStored (dated row heading.1)
  have closedDated : (closingRevision env ulid ending head).Dated := by
    refine ⟨headDated.validFrom, ?_, Timestamp.unsigned_of_recent recent⟩
    rintro _ ⟨⟩
    exact unsigned recent
  have same := reads.columns (pending.tables.facts.checked row heading.1)
  have samePredicate : head.predicate = row.predicate := congrArg FactRow.predicate same
  have sameScope : head.scope = row.scope := congrArg FactRow.scope same
  simp only [factKey, Prod.mk.injEq] at states
  obtain ⟨-, statesPredicate, -, -, statesScope⟩ := states
  refine ⟨fun final sound member grown => ?_, rfl, early⟩
  have stored : (closingRevision env ulid ending head).toRow ∈ final.facts.rows := by
    refine member _ ?_
    rw [tables]
    change _ ∈ facts.rows
    rw [rows]
    simp
  have faithful : (closingRevision env ulid ending head).Faithful final := by
    obtain ⟨subjectNamed, objectNamed, confidence⟩ := reads.faithful kept.references heading.1
    have before : (closingRevision env ulid ending head).Faithful pending.tables :=
      ⟨subjectNamed, objectNamed, confidence⟩
    rw [tables] at grown
    exact before.grown grown
  exact {
    stored := stored
    head := sound.ended_head stored rfl
    reads := faithful.reads readsStored closedDated
    dated := closedDated
    predicate := addresses.predicate.trans
      (congrArg _ (statesPredicate.symm.trans samePredicate.symm))
    scope := addresses.scope.trans (congrArg _ (statesScope.symm.trans sameScope.symm)) }

/-- **The new fact** stands afterwards, with the window that was asked for. -/
theorem opened_stands (readsStored : platform.ReadsStored)
    (sound : (factLog platform).Sound pending.tables.facts.rows)
    (kept : FactsKept platform after.tables)
    (dated : ∀ row ∈ after.tables.facts.rows, RowDated row) {request : NewFact}
    (unsigned : 0 ≤ env.now.asMillisecond →
      (∀ time ∈ request.validFrom, time.Unsigned) ∧ ∀ time ∈ request.validTo, time.Unsigned)
    (confidence : request.confidence.real.value = request.confidence) {fact : Fact}
    (returned : exec (addFactInTx platform env request) pending = (.ok fact, after)) :
    Standing platform after.tables request.triple fact ∧ fact.validFrom = request.validFrom ∧
      fact.validTo = request.validTo := by
  obtain ⟨subject, predicate, object, scope, addresses, -, -, named, answer⟩ :=
    addFactInTx_outcome returned
  cases answer with
  | stands found loaded agrees facts =>
    obtain ⟨row, heading, reads, states⟩ := kept.head_loaded (single_of object)
      (scope_nonempty addresses.scope) found loaded
    have sameRow := reads.toRow readsStored (after.tables.facts.checked row heading.1)
      (dated row heading.1)
    simp only [headMatchesRequest, Bool.and_eq_true, decide_eq_true_eq] at agrees
    obtain ⟨⟨sameStart, sameStop⟩, -⟩ := agrees
    simp only [factKey, Prod.mk.injEq] at states
    obtain ⟨-, statesPredicate, -, -, statesScope⟩ := states
    have factDated := reads.dated readsStored (dated row heading.1)
    subst sameRow
    exact ⟨{
      stored := heading.1
      head := heading.2.2
      reads := reads
      dated := factDated
      predicate := addresses.predicate.trans (congrArg _ statesPredicate.symm)
      scope := addresses.scope.trans (congrArg _ statesScope.symm) }, sameStart, sameStop⟩
  | appended absent recent first inserted =>
    obtain ⟨_, free, rows⟩ := Table.insert_eq_ok.mp inserted
    obtain ⟨start, stop⟩ := unsigned recent
    have factDated : fact.Dated := by
      rw [first]
      exact ⟨start, stop, Timestamp.unsigned_of_recent recent⟩
    have faithful : fact.Faithful after.tables := by
      rw [first]
      exact ⟨addresses.subject.entityNameOf, named, confidence⟩
    have unused : ∀ stored ∈ pending.tables.facts.rows, stored.id ≠ fact.toRow.id := by
      intro stored member same
      refine Table.find_eq_none.mp (free fact.toRow.id List.mem_cons_self) stored member ?_
      exact List.mem_singleton.mpr same.symm
    refine ⟨{
      stored := by rw [rows]; simp
      head := ?_
      reads := faithful.reads readsStored factDated
      dated := factDated
      predicate := by rw [first]; exact addresses.predicate
      scope := by rw [first]; exact addresses.scope }, by rw [first]; rfl, by rw [first]; rfl⟩
    rw [rows]
    exact sound.fresh_head (by rw [first]; rfl) unused

end Replacing

section Choosing

variable {tables : Tables} {triple : TripleRef} {query : GraphQuery} {time : Timestamp}

/-- The rows a query for a predicate selects. -/
def selected (tables : Tables) (normalised : String) (query : GraphQuery) : List FactRow :=
  chronological (tables.facts.rows.filter fun row =>
    row.predicate = normalised && factWhere tables query .window row)

/-- The rows a query selects are those it sees. -/
theorem mem_selected {normalised : String} {row : FactRow} :
    row ∈ selected tables normalised query ↔ row ∈ tables.facts.rows ∧
      row.predicate = normalised ∧ factWhere tables query .window row := by
  simp [selected, chronological]

/-- A query selects no row twice. -/
theorem selected_nodup (sound : (factLog platform).Sound tables.facts.rows) (normalised : String)
    (query : GraphQuery) : (selected tables normalised query).Nodup := by
  have distinct : tables.facts.rows.Nodup :=
    sound.ids.imp fun apart same => apart (congrArg FactRow.id same)
  exact ((List.perm_insertionSort _ _).nodup_iff).mpr (distinct.filter _)

/-- **A query over dated rows answers** with what it selects, read back. -/
theorem queryPredicate_reads (readsStored : platform.ReadsStored) (references : tables.References)
    (dated : ∀ row ∈ tables.facts.rows, RowDated row) {predicate normalised : String}
    (normal : Normalise.predicate platform predicate = .ok normalised) (query : GraphQuery) :
    ∃ facts, queryPredicate platform tables predicate query = .ok facts ∧
      List.Forall₂ (Reads platform tables) (selected tables normalised query) facts := by
  have each : ∀ row ∈ selected tables normalised query, ∃ fact, Reads platform tables row fact := by
    intro row member
    have stored := (mem_selected.mp member).1
    exact reads_of_dated readsStored (tables.facts.checked row stored)
      (references.subject row stored) (dated row stored)
  obtain ⟨facts, answered, all⟩ := selectFacts_reads each
  refine ⟨facts, ?_, all⟩
  rw [queryPredicate, normal]
  exact answered

/-- Choosing facts by their ids chooses the rows they were read from. -/
theorem filter_reads {rows : List FactRow} {facts : List Fact}
    (all : List.Forall₂ (Reads platform tables) rows facts) (chosen : FactId → Bool) :
    List.Forall₂ (Reads platform tables) (rows.filter fun row => chosen row.id)
      (facts.filter fun fact => chosen fact.id) := by
  refine List.rel_filter (fun row fact reads => ?_) all
  change chosen row.id ↔ chosen fact.id
  rw [reads.id]

/-- The row of a standing fact is the one with its id. -/
theorem Standing.row_eq (sound : (factLog platform).Sound tables.facts.rows) {fact : Fact}
    (standing : Standing platform tables triple fact) {row : FactRow}
    (stored : row ∈ tables.facts.rows) (same : row.id = fact.id) : row = fact.toRow :=
  sound.id_injective stored standing.stored same

section Two

variable {normalised : String} {facts : List Fact} {shown hidden : Fact} {chosen : FactId → Bool}

/-- Of two facts, the only one that is seen is chosen. -/
theorem chosen_alone (sound : (factLog platform).Sound tables.facts.rows)
    (all : List.Forall₂ (Reads platform tables) (selected tables normalised query) facts)
    (first : Standing platform tables triple shown)
    (second : Standing platform tables triple hidden)
    (two : ∀ id, chosen id ↔ id = shown.id ∨ id = hidden.id)
    (seen : shown.toRow ∈ selected tables normalised query)
    (unseen : hidden.toRow ∉ selected tables normalised query) :
    (facts.filter fun fact => chosen fact.id) = [shown] := by
  have only : ∀ row ∈ selected tables normalised query,
      chosen row.id = decide (row = shown.toRow) := by
    intro row member
    have stored := (mem_selected.mp member).1
    rw [Bool.eq_iff_iff, two, decide_eq_true_eq]
    constructor
    · rintro (same | same)
      · exact first.row_eq sound stored same
      · rw [second.row_eq sound stored same] at member
        exact absurd member unseen
    · rintro rfl
      exact .inl rfl
  have rows : ((selected tables normalised query).filter fun row => chosen row.id) =
      [shown.toRow] := by
    have once := List.count_eq_one_of_mem (selected_nodup sound normalised query) seen
    rw [List.filter_congr only]
    rw [List.filter_eq, once, List.replicate_one]
  have read := filter_reads all chosen
  rw [rows] at read
  obtain ⟨fact, rest, reads, nothing, shape⟩ := List.forall₂_cons_left_iff.mp read
  rw [List.forall₂_nil_left_iff] at nothing
  rw [shape, nothing, reads.unique first.reads]

/-- Of two facts that are not seen, none is chosen. -/
theorem chosen_none (sound : (factLog platform).Sound tables.facts.rows)
    (all : List.Forall₂ (Reads platform tables) (selected tables normalised query) facts)
    (first : Standing platform tables triple shown)
    (second : Standing platform tables triple hidden)
    (two : ∀ id, chosen id ↔ id = shown.id ∨ id = hidden.id)
    (firstUnseen : shown.toRow ∉ selected tables normalised query)
    (secondUnseen : hidden.toRow ∉ selected tables normalised query) :
    (facts.filter fun fact => chosen fact.id) = [] := by
  have rows : ((selected tables normalised query).filter fun row => chosen row.id) = [] := by
    refine List.filter_eq_nil_iff.mpr fun row member isChosen => ?_
    have stored := (mem_selected.mp member).1
    rcases (two row.id).mp isChosen with same | same
    · rw [first.row_eq sound stored same] at member
      exact firstUnseen member
    · rw [second.row_eq sound stored same] at member
      exact secondUnseen member
  have read := filter_reads all chosen
  rw [rows] at read
  exact List.forall₂_nil_left_iff.mp read

end Two

end Choosing

/-- **Replacing a fact partitions time.** After a replacement that returned the old fact, ended
at an instant, and the new one, a query at any time in their scope answers with neither before
the old one became valid, then with the old one before that instant, and with the new one from
it on. -/
theorem supersede_partitions_time (readsStored : platform.ReadsStored)
    (calls : List (Env × GraphCall)) (unsigned : ∀ call ∈ calls, call.2.Unsigned) (start : Store)
    (empty : start.database.tables.facts.rows = []) (env : Env) (triple : TripleRef)
    (new : NewObject) (ending : Option Timestamp)
    (named : (GraphCall.supersede triple new ending).Unsigned) (old replacement : Fact)
    (after : Store)
    (returned : exec (supersedeFact platform env triple new ending)
      (runCalls platform calls start) = (.ok (some old, replacement), after))
    (time : Timestamp) (query : GraphQuery) (within : query.Within platform triple.scope) :
    old.validTo = some (ending.getD env.now) ∧
      ∃ facts, queryPredicate platform after.database.tables triple.predicate
          { query with asOf := some time, recordedAt := none } = .ok facts ∧
        (facts.filter fun fact => fact.id = old.id ∨ fact.id = replacement.id) =
          if old.validFrom.any (time < ·) then []
          else if time < ending.getD env.now then [old]
          else [replacement] := by
  have all : ∀ call ∈ calls ++ [(env, .supersede triple new ending)], call.2.Unsigned := by
    intro call member
    rcases List.mem_append.mp member with earlier | last
    · exact unsigned call earlier
    · rw [List.mem_singleton.mp last]
      exact named
  have run : runCalls platform (calls ++ [(env, .supersede triple new ending)]) start = after := by
    rw [runCalls_snoc, GraphCall.perform, exec_map, returned]
  have kept : FactsKept platform (runCalls platform calls start).database.tables :=
    reachable_factsKept calls empty
  have dated := reachable_dated readsStored unsigned empty
  have keptAfter : FactsKept platform after.database.tables := by
    rw [← run]
    exact reachable_factsKept _ empty
  have datedAfter := reachable_dated readsStored all empty
  rw [run] at datedAfter
  obtain ⟨_, _, final, ran, tables⟩ := writing_returned returned
  obtain ⟨middle, ended, appended⟩ := supersedeInTx_outcome ran
  rw [tables] at keptAfter datedAfter ⊢
  rcases closeOld_outcome ended with ⟨_, ⟨⟩, invalidated⟩ | ⟨nothing, _⟩
  case inr => cases nothing
  obtain ⟨oldStands, oldEnds, oldStarts⟩ := ended_stands readsStored kept dated
    (unsigned_getD fun given member => named given (Option.mem_toList.mpr member)) invalidated
  obtain ⟨newStands, newStarts, newEnds⟩ := opened_stands readsStored
    ((closeOld_returned ended).facts.sound kept.sound) keptAfter datedAfter
    (fun recent => named.opens rfl recent) rfl appended
  have grown := addFactInTx_returned appended
  obtain ⟨more, rows, _⟩ := grown.facts.appended
  have first := oldStands final.tables keptAfter.sound
    (fun row member => by rw [rows]; exact List.mem_append_left _ member) grown.entities
  have second : Standing platform final.tables triple replacement :=
    ⟨newStands.stored, newStands.head, newStands.reads, newStands.dated, newStands.predicate,
      newStands.scope⟩
  have samePredicate : replacement.predicate = old.predicate :=
    Except.ok.inj (second.predicate.symm.trans first.predicate)
  obtain ⟨facts, answered, all⟩ := queryPredicate_reads readsStored keptAfter.references
    datedAfter first.predicate { query with asOf := some time, recordedAt := none }
  refine ⟨oldEnds, facts, answered, ?_⟩
  have oldSeen : old.toRow ∈ selected final.tables old.predicate
      { query with asOf := some time, recordedAt := none } ↔
      (∀ first ∈ old.validFrom, first ≤ time) ∧ time < ending.getD env.now := by
    rw [mem_selected, first.factWhere within time, oldEnds]
    refine ⟨fun seen => ⟨seen.2.2.1, seen.2.2.2 _ rfl⟩, fun seen => ⟨first.stored, rfl, seen.1, ?_⟩⟩
    rintro _ ⟨⟩
    exact seen.2
  have newSeen : replacement.toRow ∈ selected final.tables old.predicate
      { query with asOf := some time, recordedAt := none } ↔ ending.getD env.now ≤ time := by
    rw [mem_selected, second.factWhere within time, newStarts, newEnds]
    refine ⟨fun seen => seen.2.2.1 _ rfl, fun seen => ⟨second.stored, samePredicate, ?_, ?_⟩⟩
    · rintro _ ⟨⟩
      exact seen
    · rintro _ ⟨⟩
  have started : old.validFrom.any (time < ·) = false ↔ ∀ first ∈ old.validFrom, first ≤ time := by
    cases old.validFrom with
    | none => simp
    | some first =>
      have bound : ¬ time < first ↔ first ≤ time := Int.not_lt
      simpa using bound
  have oldFirst : ∀ id, decide (id = old.id ∨ id = replacement.id) = true ↔
      id = old.id ∨ id = replacement.id := fun id => decide_eq_true_iff
  have newFirst : ∀ id, decide (id = old.id ∨ id = replacement.id) = true ↔
      id = replacement.id ∨ id = old.id := fun id => (oldFirst id).trans or_comm
  split
  case isTrue early =>
    have unstarted : ¬ ∀ first ∈ old.validFrom, first ≤ time := by
      rw [← started, early]
      simp
    refine chosen_none keptAfter.sound all first second oldFirst ?_ ?_
    · rw [oldSeen]
      exact fun seen => unstarted seen.1
    · rw [newSeen]
      exact fun reached => unstarted fun first given =>
        Int.le_trans (oldStarts first given) reached
  case isFalse late =>
    have startedBy := started.mp (by simpa using late)
    split
    case isTrue before =>
      refine chosen_alone keptAfter.sound all first second oldFirst
        (oldSeen.mpr ⟨startedBy, before⟩) ?_
      rw [newSeen]
      exact Int.not_le.mpr before
    case isFalse reached =>
      refine chosen_alone keptAfter.sound all second first newFirst
        (newSeen.mpr (Int.not_lt.mp reached)) ?_
      rw [oldSeen]
      exact fun seen => reached seen.2

/-- A fact about Tantivy is stated. -/
def rustStated : List (Env × GraphCall) :=
  [(⟨instantAfter 0, fun draw => draw⟩,
    .add ⟨"Tantivy", none, "written in", .value "Rust", none, none, .one, none, some "a/b"⟩)]

/-- A nanosecond later it is replaced. -/
def replaceRust : StoreCall (Option Fact × Fact) :=
  supersedeFact .unsignedYears ⟨instantAfter 1, fun draw => 10 + draw⟩
    ⟨"tantivy", "Written_in", .value " Rust ", some "A/B"⟩ (.value "C") none

/-- Before that nanosecond the old fact is seen. -/
theorem old_is_seen_before_the_replacement :
    ∃ old replacement after,
      exec replaceRust (runCalls .unsignedYears rustStated ⟨false, .fresh⟩) =
        (.ok (some old, replacement), after) ∧
      ∃ facts, queryPredicate .unsignedYears after.database.tables "Written_in"
          ⟨none, some (instantAfter 0), none, .both⟩ = .ok facts ∧
        (facts.filter fun fact => fact.id = old.id ∨ fact.id = replacement.id) = [old] := by
  have answer : ((exec replaceRust (runCalls .unsignedYears rustStated ⟨false, .fresh⟩)).1.toOption.map
      fun result => result.1.map Fact.validFrom) = some (some none) := by decide +kernel
  rcases outcome : exec replaceRust (runCalls .unsignedYears rustStated ⟨false, .fresh⟩)
    with ⟨error | ⟨old | old, replacement⟩, after⟩
  · rw [outcome] at answer
    cases answer
  · rw [outcome] at answer
    cases answer
  · rw [outcome] at answer
    have unstarted : old.validFrom = none := by simpa [Except.toOption] using answer
    have whole := supersede_partitions_time Platform.unsignedYears_readsStored rustStated
      (by simp [rustStated, GraphCall.Unsigned, GraphCall.instants]) ⟨false, .fresh⟩ rfl
      ⟨instantAfter 1, fun draw => 10 + draw⟩
      ⟨"tantivy", "Written_in", .value " Rust ", some "A/B"⟩ (.value "C") none
      (by simp [GraphCall.Unsigned, GraphCall.instants]) old replacement after outcome
      (instantAfter 0) ⟨none, none, none, .both⟩ (fun _ _ => rfl)
    obtain ⟨_, facts, answered, chosen⟩ := whole
    refine ⟨old, replacement, after, rfl, facts, answered, chosen.trans ?_⟩
    rw [unstarted]
    rfl

end Singularmem.Graph
