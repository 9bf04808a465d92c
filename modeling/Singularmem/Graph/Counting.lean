import Singularmem.Graph.Partition
import Singularmem.Graph.StoredEntities
import Singularmem.Graph.Summaries
import Mathlib.Algebra.BigOperators.Group.Finset.Basic

/-!
# Summaries and queries agree

The counts, the timeline, the listing of entities and the queries see the same heads. They
can be read in every reachable store whose callers name instants of year 0 or later.
-/

namespace Singularmem.Graph

open Library Singularmem.Core
open Effect hiding ofExcept

variable {platform : Platform} {env : Env}

/-- The libraries leave a text of lowercase ASCII letters, digits and underscores alone. -/
def KeepsPlain (platform : Platform) : Prop :=
  ∀ text : String, (∀ char ∈ text.toList, Normalise.isPredicateChar char) →
    platform.nfc text = text ∧ platform.toLowercase text = text

/-- The codes of the characters of a predicate. -/
theorem isPredicateChar_code {char : Char} (valid : Normalise.isPredicateChar char) :
    (97 ≤ char.toNat ∧ char.toNat ≤ 122) ∨ (48 ≤ char.toNat ∧ char.toNat ≤ 57) ∨
      char.toNat = 95 := by
  delta Normalise.isPredicateChar Char.isLower Char.isDigit at valid
  simp only [Bool.or_eq_true, Bool.and_eq_true, decide_eq_true_eq, ge_iff_le,
    UInt32.le_iff_toNat_le] at valid
  rcases valid with (lower | digit) | rfl
  · exact .inl lower
  · exact .inr (.inl digit)
  · exact .inr (.inr rfl)

/-- No character of a predicate is whitespace or an apostrophe. -/
theorem isPredicateChar_plain {char : Char} (valid : Normalise.isPredicateChar char) :
    isWhitespace char = false ∧ char ≠ '\'' := by
  have code := isPredicateChar_code valid
  constructor
  · simp only [isWhitespace, Bool.or_eq_false_iff, Bool.and_eq_false_iff, decide_eq_false_iff_not,
      List.mem_cons, List.not_mem_nil, or_false]
    omega
  · rintro rfl
    rcases code with ⟨low, _⟩ | ⟨low, _⟩ | same
    · exact absurd low (by decide)
    · exact absurd low (by decide)
    · exact absurd same (by decide)

/-- What normalisation of a predicate returned is its own base. -/
theorem base_plain (plain : KeepsPlain platform) {text : String} (filled : text ≠ "")
    (valid : text.toList.all Normalise.isPredicateChar) : Normalise.base platform text = text := by
  have each : ∀ char ∈ text.toList, Normalise.isPredicateChar char := List.all_eq_true.mp valid
  have spaceless : ∀ char ∈ text.toList, isWhitespace char = false := fun char member =>
    (isPredicateChar_plain (each char member)).1
  have trimmed : trim text = text :=
    trimMatches_of_none fun char member => by rw [spaceless char member]; exact Bool.false_ne_true
  have quoteless : text.toList.filter (· ≠ '\'') = text.toList :=
    List.filter_eq_self.mpr fun char member => by
      simpa using (isPredicateChar_plain (each char member)).2
  obtain ⟨composed, lowered⟩ := plain text each
  have chars : text.toList ≠ [] := fun none => filled (String.toList_inj.mp none)
  rw [Normalise.base, composed, trimmed, lowered, quoteless, String.ofList_toList, splitWhitespace,
    List.splitOnP_eq_singleton spaceless]
  simp [chars, String.ofList_toList]

/-- **A normalised predicate is normal.** -/
theorem predicate_again (plain : KeepsPlain platform) {raw normalised : String}
    (normal : Normalise.predicate platform raw = .ok normalised) :
    Normalise.predicate platform normalised = .ok normalised := by
  unfold Normalise.predicate at normal
  generalize Normalise.base platform raw = text at normal
  dsimp only at normal
  split at normal
  case isTrue => cases normal
  case isFalse filled =>
    split at normal
    case isTrue => cases normal
    case isFalse short =>
      split at normal
      case isTrue => cases normal
      case isFalse valid =>
        cases normal
        have same := base_plain plain filled (by simpa using valid)
        simp only [Normalise.predicate, same]
        rw [if_neg filled, if_neg short, if_neg valid]

/-- The entities of the tables were created in year 0 or later. -/
def EntitiesDated (tables : Tables) : Prop :=
  ∀ row ∈ tables.entities.rows, ∃ time : Timestamp, time.Unsigned ∧ row.createdAt = toSql time

/-- Every call creates entities at its own time. -/
theorem keptEntity_dated (platform : Platform) (env : Env) : KeptEntity platform env
    fun row => ∃ time : Timestamp, time.Unsigned ∧ row.createdAt = toSql time where
  created _ _ _ _ _ recent := ⟨env.now, Timestamp.unsigned_of_recent recent, rfl⟩
  filled _ _ dated := dated

/-- **Every entity of a reachable store** was created in year 0 or later. -/
theorem reachable_entitiesDated (calls : List (Env × GraphCall)) {start : Store}
    (empty : start.database.tables.entities.rows = []) :
    EntitiesDated (runCalls platform calls start).database.tables := by
  apply runCalls_keepsEntities calls fun call _ => keptEntity_dated platform call.1
  rw [empty]
  exact fun row member => absurd member List.not_mem_nil

/-- The heads a scope filter admits: nothing supersedes them. -/
def heads (tables : Tables) (scope : Option ScopeFilter) : List FactRow :=
  tables.facts.rows.filter fun row =>
    !supersededBy tables row.id (fun _ => true) && scope.all fun filter => filter.sqlClause row.scope

/-- The heads that have an entity as their subject or object. -/
def headsOf (tables : Tables) (scope : Option ScopeFilter) (id : EntityId) : List FactRow :=
  (heads tables scope).filter fun row => row.subjectId = id || row.objectId = some id

section Reading

variable {tables : Tables} {scope : Option ScopeFilter}

/-- The read predicate of the summaries admits the heads. -/
theorem filter_anyHead : tables.facts.rows.filter (factWhere tables (scopeOnly scope) .anyHead) =
    heads tables scope := by
  refine List.filter_congr fun row _ => ?_
  simp [factWhere, recordedWhere, scopeOnly]

/-- The read predicate of a query admits the open heads. -/
theorem factWhere_window (row : FactRow) : factWhere tables (scopeOnly scope) .window row =
    (factWhere tables (scopeOnly scope) .anyHead row && row.validTo.isNone) := by
  simp [factWhere, windowWhere, scopeOnly, Bool.and_assoc, Bool.and_comm]

/-- The number of facts that touch an entity is that of its heads. -/
theorem factCountSubquery_eq (id : EntityId) :
    factCountSubquery tables (factWhere tables (scopeOnly scope) .anyHead) id =
      (headsOf tables scope id).length := by
  rw [factCountSubquery, headsOf, ← filter_anyHead, List.filter_filter]
  rfl

/-- A read row, as a function of the row. -/
def readFact (platform : Platform) (tables : Tables) (row : FactRow) : Option Fact :=
  (joinNames tables row).bind fun raw => (raw.intoFact platform).toOption

/-- Rows that are read give their facts. -/
theorem reads_eq {rows : List FactRow} {facts : List Fact}
    (all : List.Forall₂ (Reads platform tables) rows facts) :
    facts = rows.filterMap (readFact platform tables) := by
  induction all with
  | nil => rfl
  | @cons row fact rows facts reads _ inductionHypothesis =>
    obtain ⟨raw, joined, parsed⟩ := reads
    have read : readFact platform tables row = some fact := by
      rw [readFact, joined, Option.bind_some, parsed]
      rfl
    rw [List.filterMap_cons_some read, ← inductionHypothesis]

/-- A fact is open where its row is. -/
theorem Reads.unended {row : FactRow} {fact : Fact} (reads : Reads platform tables row fact) :
    fact.validTo.isNone = row.validTo.isNone := by
  obtain ⟨raw, joined, parsed⟩ := reads
  obtain rfl := joinNames_row joined
  have ended := (RawFact.parsesAs parsed).validTo
  cases stored : raw.row.validTo with
  | none =>
    rw [stored] at ended
    rw [← Except.ok.inj ended]
    rfl
  | some text =>
    rw [stored] at ended
    obtain ⟨time, _, rest⟩ := except_bind_returned ended
    rw [← Except.ok.inj rest]
    rfl

/-- Open facts are read from the open rows. -/
theorem filter_unended {rows : List FactRow} {facts : List Fact}
    (all : List.Forall₂ (Reads platform tables) rows facts) :
    List.Forall₂ (Reads platform tables) (rows.filter fun row => row.validTo.isNone)
      (facts.filter fun fact => fact.validTo.isNone) := by
  refine List.rel_filter (fun row fact reads => ?_) all
  change row.validTo.isNone ↔ fact.validTo.isNone
  rw [reads.unended]

/-- A limit on joined rows is one on the rows, where every row is joined. -/
theorem take_filterMap {rows : List FactRow}
    (each : ∀ row ∈ rows, ∃ fact, Reads platform tables row fact) (limit : Nat) :
    (rows.filterMap (joinNames tables)).take limit =
      (rows.take limit).filterMap (joinNames tables) := by
  induction rows generalizing limit with
  | nil => simp
  | cons row rest inductionHypothesis =>
    obtain ⟨fact, raw, joined, _⟩ := each row List.mem_cons_self
    cases limit with
    | zero => rfl
    | succ limit =>
      rw [List.filterMap_cons_some joined, List.take_succ_cons, List.take_succ_cons,
        List.filterMap_cons_some joined,
        inductionHypothesis fun other member => each other (List.mem_cons_of_mem row member)]

/-- A limited selection reads the first rows. -/
theorem selectFirst_reads {rows : List FactRow}
    (each : ∀ row ∈ rows, ∃ fact, Reads platform tables row fact) (limit : Nat) :
    ∃ facts, selectFirst platform tables limit rows = .ok facts ∧
      List.Forall₂ (Reads platform tables) (rows.take limit) facts := by
  obtain ⟨facts, selected, all⟩ := selectFacts_reads fun row member =>
    each row (List.mem_of_mem_take member)
  refine ⟨facts, ?_, all⟩
  rw [selectFirst, take_filterMap each]
  exact selected

end Reading

section Agreement

variable {tables : Tables} {scope : Option ScopeFilter}

/-- Rows are counted by their predicates. -/
theorem sum_by_predicate {keys : List String} (distinct : keys.Nodup) {rows : List FactRow}
    (covered : ∀ row ∈ rows, row.predicate ∈ keys) :
    (keys.map fun key => (rows.filter fun row => row.predicate = key).length).sum = rows.length := by
  have counts : ∀ key, (rows.filter fun row => row.predicate = key).length =
      (rows.map FactRow.predicate : Multiset String).count key := by
    intro key
    rw [Multiset.coe_count, List.count, List.countP_map, List.countP_eq_length_filter]
    rfl
  have total := Multiset.sum_count_eq_card (s := keys.toFinset)
    (m := (rows.map FactRow.predicate : Multiset String)) (by simpa using covered)
  rw [List.sum_toFinset _ distinct] at total
  simp only [counts]
  simpa using total

/-- **Open facts** are counted as the predicate queries answer them. -/
theorem openFacts_eq_sum (plain : KeepsPlain platform)
    (readable : ∀ row ∈ tables.facts.rows, ∃ fact, Reads platform tables row fact)
    (predicates : ∀ row ∈ tables.facts.rows,
      ∃ raw, Normalise.predicate platform raw = .ok row.predicate) :
    ∃ answers : String → List Fact,
      (∀ predicate ∈ (tables.facts.rows.map FactRow.predicate).dedup,
        queryPredicate platform tables predicate (scopeOnly scope) = .ok (answers predicate)) ∧
      (graphStats tables scope).openFacts =
        ((tables.facts.rows.map FactRow.predicate).dedup.map fun predicate =>
          (answers predicate).length).sum := by
  have each : ∀ predicate ∈ (tables.facts.rows.map FactRow.predicate).dedup, ∃ facts,
      queryPredicate platform tables predicate (scopeOnly scope) = .ok facts ∧
        facts.length = ((tables.facts.rows.filter fun row =>
          factWhere tables (scopeOnly scope) .window row).filter
            fun row => row.predicate = predicate).length := by
    intro predicate member
    obtain ⟨row, stored, rfl⟩ := List.mem_map.mp (List.mem_dedup.mp member)
    obtain ⟨raw, normal⟩ := predicates row stored
    have chosen : ∀ other ∈ selected tables row.predicate (scopeOnly scope),
        ∃ fact, Reads platform tables other fact := fun other otherIn =>
      readable other (mem_selected.mp otherIn).1
    obtain ⟨facts, answered, all⟩ := selectFacts_reads chosen
    refine ⟨facts, ?_, ?_⟩
    · rw [queryPredicate, predicate_again plain normal]
      exact answered
    · rw [← all.length_eq, selected, chronological, List.length_insertionSort, List.filter_filter]
  choose! answers answered lengths using each
  refine ⟨answers, answered, ?_⟩
  have covered : ∀ row ∈ tables.facts.rows.filter fun row =>
      factWhere tables (scopeOnly scope) .window row,
      row.predicate ∈ (tables.facts.rows.map FactRow.predicate).dedup := fun row member =>
    List.mem_dedup.mpr (List.mem_map_of_mem (List.mem_filter.mp member).1)
  rw [List.map_congr_left lengths, sum_by_predicate (List.nodup_dedup _) covered]
  simp only [graphStats, factWhere_window]

/-- The rows of a timeline are read. -/
theorem timelineRows_read
    (readable : ∀ row ∈ tables.facts.rows, ∃ fact, Reads platform tables row fact)
    (side : FactRow → Bool) :
    ∃ facts, selectFirst platform tables timelineLimit (bySince (tables.facts.rows.filter
        fun row => factWhere tables (scopeOnly scope) .anyHead row && side row)) = .ok facts ∧
      List.Forall₂ (Reads platform tables) ((bySince (tables.facts.rows.filter fun row =>
        factWhere tables (scopeOnly scope) .anyHead row && side row)).take timelineLimit) facts := by
  refine selectFirst_reads (fun row member => ?_) timelineLimit
  exact readable row (List.mem_filter.mp ((List.mem_insertionSort _).mp member)).1

/-- **The whole timeline** has an entry for each head, up to its limit. -/
theorem timeline_all (readable : ∀ row ∈ tables.facts.rows, ∃ fact, Reads platform tables row fact) :
    ∃ entries, timeline platform tables none scope = .ok entries ∧
      entries.length = min 500
        ((graphStats tables scope).openFacts + (graphStats tables scope).closedFacts) := by
  obtain ⟨facts, chosen, all⟩ := @timelineRows_read platform tables scope readable fun _ => true
  refine ⟨facts.map fun fact => ⟨fact, fact.validTo.isNone⟩, ?_, ?_⟩
  · change (do
      let facts ← selectFirst platform tables timelineLimit (bySince (tables.facts.rows.filter
        fun row => factWhere tables (scopeOnly scope) .anyHead row && true))
      return facts.map fun fact => (⟨fact, fact.validTo.isNone⟩ : TimelineEntry)) = _
    rw [chosen]
    rfl
  · have split : (graphStats tables scope).openFacts + (graphStats tables scope).closedFacts =
        (tables.facts.rows.filter (factWhere tables (scopeOnly scope) .anyHead)).length := by
      rw [List.length_eq_countP_add_countP fun row => row.validTo.isNone, List.countP_filter,
        List.countP_filter, List.countP_eq_length_filter, List.countP_eq_length_filter]
      refine congrArg₂ (· + ·) (congrArg List.length (List.filter_congr fun row _ => ?_))
        (congrArg List.length (List.filter_congr fun row _ => ?_))
      · exact Bool.and_comm _ _
      · cases row.validTo <;> simp
    rw [List.length_map, ← all.length_eq, List.length_take, bySince, List.length_insertionSort,
      split]
    simp [timelineLimit]

/-- An entity is found by any name that normalises to its own. -/
theorem entityIdsByName_stored {entity : EntityRow} (stored : entity ∈ tables.entities.rows)
    {name : String} (named : Normalise.entityName platform name = .ok entity.normalisedName) :
    entityIdsByName platform tables name = .ok [entity.id] := by
  rw [entityIdsByName_eq, named]
  change Except.ok ((entityByName tables entity.normalisedName).toList.map EntityRow.id) = _
  rw [entityByName_stored stored]
  rfl

/-- The clause for both sides of one entity. -/
theorem directionClause_both (id : EntityId) (row : FactRow) :
    directionClause .both [id] row = (row.subjectId = id || row.objectId = some id) := by
  cases object : row.objectId <;> simp [directionClause, object]

/-- **The timeline of an entity** has an entry for each of its heads, up to the limit; those
marked current are the facts a query for the entity answers. -/
theorem timeline_entity
    (readable : ∀ row ∈ tables.facts.rows, ∃ fact, Reads platform tables row fact)
    {entity : EntityRow} (stored : entity ∈ tables.entities.rows) {name : String}
    (named : Normalise.entityName platform name = .ok entity.normalisedName) :
    ∃ entries facts, timeline platform tables (some name) scope = .ok entries ∧
      queryEntity platform tables name (scopeOnly scope) = .ok facts ∧
      entries.length = min 500 (headsOf tables scope entity.id).length ∧
      ((headsOf tables scope entity.id).length ≤ 500 →
        ((entries.filter TimelineEntry.current).map TimelineEntry.fact).Perm facts) := by
  have ids := entityIdsByName_stored stored named
  obtain ⟨facts, chosen, all⟩ :=
    @timelineRows_read platform tables scope readable (directionClause .both [entity.id])
  have open_ : ∀ row ∈ chronological (tables.facts.rows.filter fun row =>
      directionClause .both [entity.id] row && factWhere tables (scopeOnly scope) .window row),
      ∃ fact, Reads platform tables row fact := fun row member =>
    readable row (List.mem_filter.mp ((List.mem_insertionSort _).mp member)).1
  obtain ⟨answers, answered, answerReads⟩ := selectFacts_reads open_
  have touching : (tables.facts.rows.filter fun row =>
      factWhere tables (scopeOnly scope) .anyHead row && directionClause .both [entity.id] row) =
      headsOf tables scope entity.id := by
    rw [headsOf, ← filter_anyHead, List.filter_filter]
    refine List.filter_congr fun row _ => ?_
    rw [directionClause_both, Bool.and_comm]
  refine ⟨facts.map fun fact => ⟨fact, fact.validTo.isNone⟩, answers, ?_, ?_, ?_, ?_⟩
  · rw [timeline, Option.mapM_some, ids]
    change (do
      let facts ← selectFirst platform tables timelineLimit (bySince (tables.facts.rows.filter
        fun row => factWhere tables (scopeOnly scope) .anyHead row &&
          directionClause .both [entity.id] row))
      return facts.map fun fact => (⟨fact, fact.validTo.isNone⟩ : TimelineEntry)) = _
    rw [chosen]
    rfl
  · rw [queryEntity, ids]
    exact answered
  · rw [List.length_map, ← all.length_eq, List.length_take, bySince, List.length_insertionSort,
      touching]
    rfl
  · intro few
    have whole : (bySince (tables.facts.rows.filter fun row =>
        factWhere tables (scopeOnly scope) .anyHead row &&
          directionClause .both [entity.id] row)).length ≤ timelineLimit := by
      rw [bySince, List.length_insertionSort, touching]
      exact few
    rw [List.take_of_length_le whole] at all
    have current : ((facts.map fun fact => (⟨fact, fact.validTo.isNone⟩ : TimelineEntry)).filter
        TimelineEntry.current).map TimelineEntry.fact = facts.filter fun fact =>
          fact.validTo.isNone := by
      rw [List.filter_map, List.map_map]
      exact List.map_id _
    rw [current, reads_eq (filter_unended all), reads_eq answerReads]
    refine List.Perm.filterMap _ ?_
    refine ((List.perm_insertionSort _ _).filter _).trans ?_
    refine List.Perm.trans (List.Perm.of_eq ?_) (List.perm_insertionSort _ _).symm
    rw [List.filter_filter]
    refine List.filter_congr fun row _ => ?_
    rw [factWhere_window]
    ac_rfl

/-- **The listing of entities** can be read. It lists every entity or, with a scope filter,
those that have a head, each with the number of its heads. -/
theorem entities_listed (dated : EntitiesDated tables) (readsStored : platform.ReadsStored) :
    ∃ summaries, entities platform tables scope none = .ok summaries ∧
      (∀ entity ∈ tables.entities.rows,
        ((∃ summary ∈ summaries, summary.entity.id = entity.id) ↔
          scope = none ∨ 0 < (headsOf tables scope entity.id).length) ∧
        ∀ summary ∈ summaries, summary.entity.id = entity.id →
          summary.factCount = (headsOf tables scope entity.id).length) ∧
      (scope.isSome → (graphStats tables scope).entities = summaries.length) := by
  have touched : ∀ id, tables.facts.rows.any
      (touches id (factWhere tables (scopeOnly scope) .anyHead)) = true ↔
        0 < (headsOf tables scope id).length := by
    intro id
    rw [← factCountSubquery_eq, factCountSubquery, List.length_pos_iff_exists_mem, List.any_eq_true]
    simp only [List.mem_filter]
  set listed := (tables.entities.rows.filter fun entity => scope.isNone || tables.facts.rows.any
    (touches entity.id (factWhere tables (scopeOnly scope) .anyHead))) with listedDef
  set summarise : EntityRow → Except Error EntitySummary := fun row => do
    let entity ← intoEntity platform row
    return ⟨entity, factCountSubquery tables (factWhere tables (scopeOnly scope) .anyHead) row.id⟩
  have computed : ∀ row ∈ tables.entities.rows, ∃ createdAt, summarise row =
      .ok ⟨⟨row.id, row.name, row.normalisedName, row.kind, createdAt⟩,
        (headsOf tables scope row.id).length⟩ := by
    intro row stored
    obtain ⟨time, unsigned, created⟩ := dated row stored
    refine ⟨time, ?_⟩
    change (do
      let entity ← intoEntity platform row
      return (⟨entity, factCountSubquery tables (factWhere tables (scopeOnly scope) .anyHead)
        row.id⟩ : EntitySummary)) = _
    rw [intoEntity, created, readsStored.parsePoint_unsigned unsigned, factCountSubquery_eq]
    rfl
  set ordered := listed.insertionSort fun left right => left.normalisedName ≤ right.normalisedName
  have stored : ∀ row ∈ ordered, row ∈ tables.entities.rows := fun row member =>
    (List.mem_filter.mp ((List.mem_insertionSort _).mp member)).1
  obtain ⟨summaries, returned⟩ := mapM_succeeds fun row member => by
    obtain ⟨createdAt, done⟩ := computed row (stored row member)
    exact ⟨_, done⟩
  have source : ∀ summary ∈ summaries, ∃ row ∈ listed, summary.entity.id = row.id ∧
      summary.factCount = (headsOf tables scope row.id).length := by
    intro summary member
    obtain ⟨row, rowIn, done⟩ := exists_of_mem_mapM returned member
    obtain ⟨createdAt, again⟩ := computed row (stored row rowIn)
    rw [again] at done
    cases done
    exact ⟨row, (List.mem_insertionSort _).mp rowIn, rfl, rfl⟩
  have shown : ∀ row, row ∈ listed ↔ row ∈ tables.entities.rows ∧
      (scope = none ∨ 0 < (headsOf tables scope row.id).length) := by
    intro row
    rw [listedDef, List.mem_filter, Bool.or_eq_true, touched, Option.isNone_iff_eq_none]
  refine ⟨summaries, returned, fun entity member => ⟨⟨?_, ?_⟩, ?_⟩, fun filtered => ?_⟩
  · rintro ⟨summary, summaryIn, same⟩
    obtain ⟨row, rowIn, sameRow, _⟩ := source summary summaryIn
    rw [← same, sameRow]
    exact ((shown row).mp rowIn).2
  · intro has
    have ordering := (List.mem_insertionSort fun left right : EntityRow =>
      left.normalisedName ≤ right.normalisedName).mpr ((shown entity).mpr ⟨member, has⟩)
    obtain ⟨summary, paired, done⟩ := mapM_returned_each returned ordering
    obtain ⟨createdAt, again⟩ := computed entity member
    rw [again] at done
    cases done
    exact ⟨_, (List.of_mem_zip paired).2, rfl⟩
  · intro summary summaryIn same
    obtain ⟨row, _, sameRow, count⟩ := source summary summaryIn
    rw [count, ← sameRow, same]
  · rw [mapM_returned_length returned, List.length_insertionSort, listedDef]
    have unfiltered : scope.isNone = false := by
      cases scope with
      | none => cases filtered
      | some filter => rfl
    simp only [graphStats, filtered, if_true, unfiltered, Bool.false_or]

end Agreement

/-- **All fact reads agree on the heads.** In every reachable store whose callers name instants
of year 0 or later, and for every scope filter: the open facts are those the predicate queries
answer, the predicates are those of the heads, the timeline has all heads, and every entity is
listed with the number of its heads, which its timeline shows and of which a query for it
answers those marked current. -/
theorem fact_reads_agree (readsStored : platform.ReadsStored)
    (plain : KeepsPlain platform) (calls : List (Env × GraphCall))
    (unsigned : ∀ call ∈ calls, call.2.Unsigned) (start : Store)
    (noFacts : start.database.tables.facts.rows = [])
    (noEntities : start.database.tables.entities.rows = []) (scope : Option ScopeFilter) :
    let tables := (runCalls platform calls start).database.tables
    (∃ answers : String → List Fact,
      (∀ predicate ∈ (tables.facts.rows.map FactRow.predicate).dedup,
        queryPredicate platform tables predicate (scopeOnly scope) = .ok (answers predicate)) ∧
      (graphStats tables scope).openFacts =
        ((tables.facts.rows.map FactRow.predicate).dedup.map fun predicate =>
          (answers predicate).length).sum) ∧
    (graphStats tables scope).predicates =
      ((heads tables scope).map FactRow.predicate).toFinset.card ∧
    (∃ entries, timeline platform tables none scope = .ok entries ∧ entries.length =
      min 500 ((graphStats tables scope).openFacts + (graphStats tables scope).closedFacts)) ∧
    ∃ summaries, entities platform tables scope none = .ok summaries ∧
      (scope.isSome → (graphStats tables scope).entities = summaries.length) ∧
      ∀ entity ∈ tables.entities.rows,
        ((∃ summary ∈ summaries, summary.entity.id = entity.id) ↔
          scope = none ∨ 0 < (headsOf tables scope entity.id).length) ∧
        (∀ summary ∈ summaries, summary.entity.id = entity.id →
          summary.factCount = (headsOf tables scope entity.id).length) ∧
        ∀ name, Normalise.entityName platform name = .ok entity.normalisedName →
          ∃ entries facts, timeline platform tables (some name) scope = .ok entries ∧
            queryEntity platform tables name (scopeOnly scope) = .ok facts ∧
            entries.length = min 500 (headsOf tables scope entity.id).length ∧
            ((headsOf tables scope entity.id).length ≤ 500 →
              ((entries.filter TimelineEntry.current).map TimelineEntry.fact).Perm facts) := by
  intro tables
  have kept : FactsKept platform tables := reachable_factsKept calls noFacts
  have dated : ∀ row ∈ tables.facts.rows, RowDated row :=
    reachable_dated readsStored unsigned noFacts
  have created : EntitiesDated tables := reachable_entitiesDated calls noEntities
  have readable : ∀ row ∈ tables.facts.rows, ∃ fact, Reads platform tables row fact :=
    fun row stored => reads_of_dated readsStored (tables.facts.checked row stored)
      (kept.references.subject row stored) (dated row stored)
  obtain ⟨summaries, listed, each, counted⟩ := @entities_listed platform tables scope created
    readsStored
  refine ⟨openFacts_eq_sum plain readable kept.predicates, ?_, timeline_all readable, summaries,
    listed, counted, fun entity stored => ⟨(each entity stored).1, (each entity stored).2, ?_⟩⟩
  · simp only [graphStats, filter_anyHead]
    rfl
  · exact fun name named => timeline_entity readable stored named

/-- Folding ASCII letters leaves plain texts alone. -/
theorem unsignedYears_keepsPlain : KeepsPlain .unsignedYears := by
  intro text each
  refine ⟨rfl, ?_⟩
  have same : text.toList.map Char.toLower = text.toList := by
    refine (List.map_congr_left fun char member => ?_).trans (List.map_id _)
    have valid := each char member
    refine (isScopeChar_plain ?_).2.2
    simp only [Normalise.isPredicateChar, isScopeChar, Bool.or_eq_true] at valid ⊢
    tauto
  change String.ofList (text.toList.map Char.toLower) = text
  rw [same, String.ofList_toList]

/-- A fact that was stated and replaced is counted as it is shown. -/
theorem replaced_fact_is_counted_alike :
    (graphStats (runCalls .unsignedYears statedAndReplaced ⟨false, .fresh⟩).database.tables
        none).openFacts = 1 ∧
      ∃ entries, timeline .unsignedYears
          (runCalls .unsignedYears statedAndReplaced ⟨false, .fresh⟩).database.tables none none =
            .ok entries ∧ entries.length = 2 := by
  have unsigned : ∀ call ∈ statedAndReplaced, call.2.Unsigned := by
    simp [statedAndReplaced, GraphCall.Unsigned, GraphCall.instants]
  have counts : graphStats (runCalls .unsignedYears statedAndReplaced
      ⟨false, .fresh⟩).database.tables none = ⟨1, 1, 1, 1⟩ := by decide +kernel
  obtain ⟨_, _, ⟨entries, shown, length⟩, _⟩ :=
    fact_reads_agree Platform.unsignedYears_readsStored unsignedYears_keepsPlain statedAndReplaced
      unsigned ⟨false, .fresh⟩ rfl rfl none
  rw [counts] at length ⊢
  exact ⟨rfl, entries, shown, length⟩

end Singularmem.Graph
