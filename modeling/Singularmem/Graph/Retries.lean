import Singularmem.Graph.Partition

/-!
# Retrying a replacement

A replacement that returned is issued again. It finds the old fact closed and the new one
standing, and changes nothing, unless the new fact denotes what the old one does, an instant
before year 0 was stored, or the name of the old object was never looked at.
-/

namespace Singularmem.Graph

open Library Singularmem.Core
open Effect hiding ofExcept

variable {platform : Platform} {env : Env}

/-- Two objects are found by the same columns: their names normalise alike, or their trimmed
values are one text. -/
def SameObject (platform : Platform) : NewObject → NewObject → Prop
  | .entity left _, .entity right _ => ∃ normalised,
      Normalise.entityName platform left = .ok normalised ∧
        Normalise.entityName platform right = .ok normalised
  | .value left, .value right => trim left = trim right
  | _, _ => False

/-- A replacement that can be issued again. -/
structure Retryable (platform : Platform) (triple : TripleRef) (new : NewObject)
    (instant : Timestamp) : Prop where
  /-- The instant lies in year 0 or later. -/
  unsigned : instant.Unsigned
  /-- The old object has a name that can be looked up. -/
  named : ∀ name kind, triple.object = .entity name kind →
    ∃ normalised, Normalise.entityName platform name = .ok normalised
  /-- The new object is another one. -/
  differs : ¬ SameObject platform triple.object new

section Standing

variable {pending : Pending}

/-- An entity that stands is resolved without a change. -/
theorem getOrCreateEntity_stands {name : String} {kind : Option String} {ref : EntityRef}
    (resolves : Resolves platform pending.tables name ref)
    (settled : KindSettled platform pending.tables name kind) :
    exec (getOrCreateEntity platform env name kind) pending = (.ok ref, pending) := by
  obtain ⟨normalised, row, named, found, rfl⟩ := resolves
  obtain ⟨agrees, filled⟩ := settled normalised row named found
  have unchanged : fillKind pending.tables row kind = pending.tables := by
    rw [fillKind, if_neg]
    rintro ⟨wanted, missing⟩
    have held := filled wanted
    rw [Option.isNone_iff_eq_none.mp missing] at held
    cases held
  rw [getOrCreateEntity, named, exec_bind_ok (exec_ofExcept _ _), exec_bind_ok (exec_get pending),
    found]
  dsimp only
  rw [exec_bind, exec_throwIf, if_neg agrees, unchanged]
  rfl

/-- An object that stands is resolved without a change. -/
theorem resolveObject_stands {object : NewObject} {columns : ObjectColumns}
    (found : Columns platform pending.tables object columns)
    (settled : ObjectSettled platform pending.tables object) :
    ∃ resolved, ObjectColumns.of resolved = columns ∧
      exec (resolveObject platform env object) pending = (.ok resolved, pending) := by
  cases object with
  | entity name kind =>
    obtain ⟨ref, resolves, rfl⟩ := found
    refine ⟨.entity ref, rfl, ?_⟩
    rw [resolveObject, exec_map, getOrCreateEntity_stands resolves (settled.kind name kind rfl)]
    rfl
  | value text =>
    refine ⟨.value (trim text), found.symm, ?_⟩
    rw [resolveObject, exec_bind, exec_throwIf, if_neg (settled.filled text rfl)]
    rfl

/-- **A request that stands is answered** with the standing fact. -/
theorem addFactInTx_stands {request : NewFact} {subject : EntityRef} {predicate : String}
    {columns : ObjectColumns} {scope : Option String} {headId : FactId} {fact : Fact}
    (addresses : Addresses platform pending.tables request.triple subject predicate columns scope)
    (subjectSettled : KindSettled platform pending.tables request.subject
      (kindOrNone request.subjectKind))
    (objectSettled : ObjectSettled platform pending.tables request.object)
    (confidence : request.confidence.inUnit) (source : request.sourceItemId = none)
    (unending : request.validTo = none)
    (found : findOpenHead pending.tables subject.id predicate columns scope = some headId)
    (loaded : loadFact platform pending.tables headId = .ok (some fact))
    (agrees : headMatchesRequest fact request.validFrom request.validTo request.confidence) :
    exec (addFactInTx platform env request) pending = (.ok fact, pending) := by
  have normal : Normalise.predicate platform request.predicate = .ok predicate :=
    addresses.predicate
  have validated : request.scope.mapM (Scope.validate platform) = .ok scope := addresses.scope
  have sure : validateConfidence platform request.confidence = .ok () := by
    rw [validateConfidence, if_pos confidence]
  have window : validateWindow platform request.validFrom request.validTo = .ok () := by
    rw [unending, validateWindow]
    intro start stop _ never
    cases never
  have known : checkSourceItem pending.tables request.sourceItemId = .ok () := by
    rw [source, checkSourceItem]
  have entity : exec (getOrCreateEntity platform env request.subject
      (kindOrNone request.subjectKind)) pending = (.ok subject, pending) :=
    getOrCreateEntity_stands addresses.subject subjectSettled
  have stated : Columns platform pending.tables request.object columns := addresses.columns
  obtain ⟨object, rfl, resolved⟩ :=
    @resolveObject_stands platform env pending _ _ stated objectSettled
  rw [addFactInTx, normal, sure, window, validated, exec_bind_ok (exec_ofExcept _ _),
    exec_bind_ok (exec_ofExcept _ _), exec_bind_ok (exec_ofExcept _ _),
    exec_bind_ok (exec_ofExcept _ _), exec_bind_ok (exec_get pending), known,
    exec_bind_ok (exec_ofExcept _ _), exec_bind_ok entity, exec_bind_ok resolved,
    exec_bind_ok (exec_get pending), found]
  dsimp only
  rw [answerWithHead, exec_bind_ok (exec_get pending), loaded, exec_bind_ok (exec_ofExcept _ _)]
  dsimp only
  rw [exec_bind, exec_throwIf, if_neg (by simpa using agrees)]
  rfl

end Standing

section Lookup

variable {before after : Tables}

/-- A name that resolves to an entity that was there resolved to it before. -/
theorem Resolves.earlier (grown : Grown KeepsEntity before.entities.rows after.entities.rows)
    {name : String} {ref : EntityRef} (stored : before.hasEntity ref.id)
    (resolves : Resolves platform after name ref) : Resolves platform before name ref := by
  obtain ⟨normalised, row, named, found, rfl⟩ := resolves
  obtain ⟨early, earlyFound⟩ := Option.isSome_iff_exists.mp stored
  obtain ⟨earlyIn, earlyEntry⟩ := Table.find_eq_some.mp earlyFound
  obtain ⟨rowIn, rowEntry⟩ := Table.find_eq_some.mp found
  obtain ⟨became, becameIn, kind, rfl, _⟩ := grown.mem earlyIn
  have one := @Table.row_unique _ _ _ after.entities _ _ becameIn rowIn (.id row.id)
    (by simpa [entitySchema] using earlyEntry) (by simp [entitySchema])
  refine ⟨normalised, early, named, Table.find_eq_some.mpr ⟨earlyIn, ?_⟩, ?_⟩
  · rw [← one] at rowEntry
    simpa [entitySchema] using rowEntry
  · rw [← one]

/-- Columns whose entity was there were found before. -/
theorem Columns.earlier (grown : Grown KeepsEntity before.entities.rows after.entities.rows)
    {object : NewObject} {columns : ObjectColumns} (stored : ∀ id ∈ columns.id, before.hasEntity id)
    (found : Columns platform after object columns) : Columns platform before object columns := by
  cases object with
  | entity name kind =>
    obtain ⟨ref, resolves, rfl⟩ := found
    exact ⟨ref, resolves.earlier grown (stored ref.id rfl), rfl⟩
  | value text => exact found

/-- **Objects found by the same columns** are the same object. -/
theorem sameObject_iff {left right : NewObject} {columns : ObjectColumns}
    (rightFound : Columns platform after right columns) :
    SameObject platform left right ↔ Columns platform after left columns := by
  cases left with
  | value leftText =>
    cases right with
    | value rightText =>
      obtain rfl := rightFound
      simp [SameObject, Columns, eq_comm]
    | entity name kind =>
      obtain ⟨ref, _, rfl⟩ := rightFound
      simp [SameObject, Columns]
  | entity leftName leftKind =>
    cases right with
    | value rightText =>
      obtain rfl := rightFound
      simp [SameObject, Columns]
    | entity rightName rightKind =>
      obtain ⟨ref, ⟨normalised, row, named, found, rfl⟩, rfl⟩ := rightFound
      constructor
      · rintro ⟨both, leftNamed, rightNamed⟩
        obtain rfl := Except.ok.inj (named.symm.trans rightNamed)
        exact ⟨_, ⟨normalised, row, leftNamed, found, rfl⟩, rfl⟩
      · rintro ⟨other, ⟨both, otherRow, leftNamed, otherFound, rfl⟩, same⟩
        have sameId : row.id = otherRow.id := by simpa using same
        obtain ⟨rowIn, rowEntry⟩ := Table.find_eq_some.mp found
        obtain ⟨otherIn, otherEntry⟩ := Table.find_eq_some.mp otherFound
        obtain rfl := @Table.row_unique _ _ _ after.entities _ _ rowIn otherIn (.id row.id)
          (by simp [entitySchema]) (by simp [entitySchema, sameId])
        have names : normalised = both := by
          have first : normalised = row.normalisedName := by simpa [entitySchema] using rowEntry
          have second : both = row.normalisedName := by simpa [entitySchema] using otherEntry
          exact first.trans second.symm
        exact ⟨normalised, names ▸ leftNamed, named⟩

end Lookup

/-- The parts of a triple are unique. -/
theorem Addresses.unique {tables : Tables} {triple : TripleRef} {subject otherSubject : EntityRef}
    {predicate otherPredicate : String} {columns otherColumns : ObjectColumns}
    {scope otherScope : Option String}
    (first : Addresses platform tables triple subject predicate columns scope)
    (second : Addresses platform tables triple otherSubject otherPredicate otherColumns otherScope) :
    subject = otherSubject ∧ predicate = otherPredicate ∧ columns = otherColumns ∧
      scope = otherScope :=
  ⟨first.subject.unique second.subject, Except.ok.inj (first.predicate.symm.trans second.predicate),
    first.columns.unique second.columns, Except.ok.inj (first.scope.symm.trans second.scope)⟩

/-- No open head states a triple, and the entities of open heads are stored. -/
structure Cleared (platform : Platform) (tables : Tables) (triple : TripleRef) : Prop where
  absent : ∀ subject predicate columns scope,
    Addresses platform tables triple subject predicate columns scope →
      ∀ head, (factLog platform).OpenHead tables.facts.rows head →
        factKey head ≠ (subject.id, predicate, columns.id, columns.value, scope)
  entities : ∀ head, (factLog platform).OpenHead tables.facts.rows head →
    tables.hasEntity head.subjectId ∧ ∀ id ∈ head.objectId, tables.hasEntity id

section Clearing

variable {ending : Timestamp} {triple : TripleRef} {pending after : Pending}

/-- **Ending a fact** clears its triple. -/
theorem invalidateInTx_clears (kept : FactsKept platform pending.tables) {closed : Fact}
    (returned : exec (invalidateInTx platform env ending triple) pending = (.ok closed, after)) :
    Cleared platform after.tables triple := by
  obtain ⟨subject, predicate, columns, scope, headId, head, ulid, facts, addresses, found, loaded,
    -, -, rfl, inserted, tables⟩ := invalidateInTx_outcome returned
  obtain ⟨row, heading, reads, states⟩ := kept.head_loaded addresses.columns.single
    (scope_nonempty addresses.scope) found loaded
  obtain ⟨_, _, rows⟩ := Table.insert_eq_ok.mp inserted
  have remains : ∀ other, (factLog platform).OpenHead after.tables.facts.rows other →
      (factLog platform).OpenHead pending.tables.facts.rows other := by
    intro other heading
    rw [tables] at heading
    change (factLog platform).OpenHead facts.rows other at heading
    rw [rows] at heading
    rcases List.mem_append.mp heading.1 with earlier | last
    · exact heading.of_push earlier
    · exact absurd (List.mem_singleton.mp last ▸ rfl) heading.2.1
  refine ⟨?_, fun other heading => ?_⟩
  · rintro otherSubject otherPredicate otherColumns otherScope again other otherHeading same
    have early : Addresses platform pending.tables triple otherSubject otherPredicate otherColumns
        otherScope := by
      rw [tables] at again
      exact again.grown (.refl KeepsEntity.refl _)
    obtain ⟨sameSubject, samePredicate, sameColumns, sameScope⟩ := addresses.unique early
    have one : other = row := by
      refine kept.sound.single other row (remains other otherHeading) heading ?_
      refine same.trans (Eq.trans ?_ states.symm)
      rw [sameSubject, samePredicate, sameColumns, sameScope]
    refine otherHeading.2.2 ⟨(closingRevision env ulid ending head).toRow, ?_, ?_⟩
    · rw [tables]
      change _ ∈ facts.rows
      rw [rows]
      simp
    · rw [one]
      exact congrArg some reads.id
  · have stored := (remains other heading).1
    rw [tables]
    exact ⟨kept.references.subject other stored, kept.references.object other stored⟩

/-- **Closing the old fact** of a replacement clears its triple, also where none was found. -/
theorem closeOld_clears (kept : FactsKept platform pending.tables) {closed : Option Fact}
    (returned : exec (closeOld platform env ending triple) pending = (.ok closed, after)) :
    Cleared platform after.tables triple := by
  rcases closeOld_outcome returned with ⟨fact, _, invalidated⟩ | ⟨_, misses, tables⟩
  · exact invalidateInTx_clears kept invalidated
  · rw [tables]
    refine ⟨fun subject predicate columns scope addresses => ?_, fun head heading => ?_⟩
    · exact findOpenHead_none (misses.absent subject predicate columns scope addresses)
    · exact ⟨kept.references.subject head heading.1, kept.references.object head heading.1⟩

/-- **Opening another fact** keeps a triple cleared. -/
theorem Cleared.opened (cleared : Cleared platform pending.tables triple)
    (kept : FactsKept platform after.tables) {new : NewObject}
    (differs : ¬ SameObject platform triple.object new) {replacement : Fact}
    (returned : exec (addFactInTx platform env (replacementOf triple new ending)) pending =
      (.ok replacement, after))
    {subject : EntityRef} {predicate : String} {columns : ObjectColumns} {scope : Option String}
    (addresses : Addresses platform after.tables triple subject predicate columns scope) :
    findOpenHead after.tables subject.id predicate columns scope = none := by
  have grown := addFactInTx_returned returned
  obtain ⟨newSubject, newPredicate, object, newScope, newAddresses, -, -, -, answer⟩ :=
    addFactInTx_outcome returned
  by_contra present
  obtain ⟨id, found⟩ := Option.ne_none_iff_exists'.mp present
  obtain ⟨head, heading, rfl, states⟩ := (kept.findOpenHead_iff addresses.columns.single
    (scope_nonempty addresses.scope)).mp found
  have fromBefore : (factLog platform).OpenHead pending.tables.facts.rows head → False := by
    intro before
    obtain ⟨subjectStored, objectStored⟩ := cleared.entities head before
    have parts := states
    simp only [factKey, Prod.mk.injEq] at parts
    obtain ⟨sameSubject, -, sameObject, -, -⟩ := parts
    rw [sameSubject] at subjectStored
    rw [sameObject] at objectStored
    exact cleared.absent subject predicate columns scope ⟨addresses.predicate, addresses.scope,
      addresses.subject.earlier grown.entities subjectStored,
      addresses.columns.earlier grown.entities objectStored⟩ head before states
  cases answer with
  | stands _ _ _ facts =>
    rw [facts] at heading
    exact fromBefore heading
  | appended _ _ first inserted =>
    obtain ⟨_, _, rows⟩ := Table.insert_eq_ok.mp inserted
    rw [rows] at heading
    rcases List.mem_append.mp heading.1 with earlier | last
    · exact fromBefore (heading.of_push earlier)
    · have newColumns : columns = .of object := by
        have parts := states
        rw [List.mem_singleton.mp last, first] at parts
        simp only [factKey, Fact.toRow, firstRevision, Prod.mk.injEq] at parts
        obtain ⟨-, -, sameId, sameValue, -⟩ := parts
        calc
          columns = ⟨columns.id, columns.value⟩ := rfl
          _ = ⟨(ObjectColumns.of object).id, (ObjectColumns.of object).value⟩ := by
            rw [sameId, sameValue]
          _ = .of object := rfl
      have stated : Columns platform after.tables new (.of object) := newAddresses.columns
      rw [← newColumns] at stated
      exact differs ((sameObject_iff stated).mpr addresses.columns)

/-- **The new fact of a replacement** is the open head of its triple, and is loaded where its
instant lies in year 0 or later. -/
theorem replacement_found (sound : (factLog platform).Sound pending.tables.facts.rows)
    (kept : FactsKept platform after.tables) {new : NewObject} {replacement : Fact}
    (returned : exec (addFactInTx platform env (replacementOf triple new ending)) pending =
      (.ok replacement, after)) :
    ∃ subject predicate columns scope headId,
      Addresses platform after.tables (replacementOf triple new ending).triple subject predicate
          columns scope ∧
        KindSettled platform after.tables triple.subject none ∧
        ObjectSettled platform after.tables new ∧
        findOpenHead after.tables subject.id predicate columns scope = some headId ∧
        headMatchesRequest replacement (some ending) none .one ∧
        (platform.ReadsStored → ending.Unsigned →
          loadFact platform after.tables headId = .ok (some replacement)) := by
  obtain ⟨subject, predicate, object, scope, addresses, subjectSettled, objectSettled, named,
    answer⟩ := addFactInTx_outcome returned
  cases answer with
  | @stands headId found loaded agrees facts =>
    exact ⟨subject, predicate, .of object, scope, headId, addresses, subjectSettled, objectSettled,
      found, agrees, fun _ _ => loaded⟩
  | appended absent recent first inserted =>
    obtain ⟨_, free, rows⟩ := Table.insert_eq_ok.mp inserted
    have unused : ∀ stored ∈ pending.tables.facts.rows, stored.id ≠ replacement.toRow.id := by
      intro stored member same
      refine Table.find_eq_none.mp (free replacement.toRow.id List.mem_cons_self) stored member ?_
      exact List.mem_singleton.mpr same.symm
    have stored : replacement.toRow ∈ after.tables.facts.rows := by
      rw [rows]
      simp
    have heading : (factLog platform).OpenHead after.tables.facts.rows replacement.toRow := by
      refine ⟨stored, by rw [first]; exact Bool.false_ne_true, ?_⟩
      rw [rows]
      exact sound.fresh_head (by rw [first]; rfl) unused
    have states : factKey replacement.toRow =
        (subject.id, predicate, (ObjectColumns.of object).id, (ObjectColumns.of object).value,
          scope) := by
      rw [first]
      rfl
    refine ⟨subject, predicate, .of object, scope, replacement.id, addresses, subjectSettled,
      objectSettled, ?_, ?_, fun readsStored unsigned => ?_⟩
    · exact (kept.findOpenHead_iff (single_of object) (scope_nonempty addresses.scope)).mpr
        ⟨_, heading, rfl, states⟩
    · rw [first]
      simp [headMatchesRequest, firstRevision, replacementOf]
      decide
    · have dated : replacement.Dated := by
        rw [first]
        refine ⟨?_, ?_, Timestamp.unsigned_of_recent recent⟩
        · rintro _ ⟨⟩
          exact unsigned
        · rintro _ ⟨⟩
      have faithful : replacement.Faithful after.tables := by
        rw [first]
        exact ⟨addresses.subject.entityNameOf, named, rfl⟩
      exact loadFact_of_reads stored (faithful.reads readsStored dated)

end Clearing

/-- **Retrying a replacement** with an explicit instant. After it returned, the same call
returns the same new fact and leaves entities and facts as they are exactly where the instant
lies in year 0 or later, the old object has a name that can be looked up, and the new object is
another one. -/
theorem supersede_retry_iff (readsStored : platform.ReadsStored) (calls : List (Env × GraphCall))
    (start : Store) (empty : start.database.tables.facts.rows = []) (env : Env)
    (triple : TripleRef) (new : NewObject) (instant : Timestamp) (closed : Option Fact)
    (replacement : Fact) (after : Store)
    (returned : exec (supersedeFact platform env triple new (some instant))
      (runCalls platform calls start) = (.ok (closed, replacement), after)) (again : Env) :
    (∃ found final, exec (supersedeFact platform again triple new (some instant)) after =
        (.ok (found, replacement), final) ∧
      final.database.tables.entities.rows = after.database.tables.entities.rows ∧
      final.database.tables.facts.rows = after.database.tables.facts.rows) ↔
    Retryable platform triple new instant := by
  have run : runCalls platform (calls ++ [(env, .supersede triple new (some instant))]) start =
      after := by rw [runCalls_snoc, GraphCall.perform, exec_map, returned]
  have kept : FactsKept platform (runCalls platform calls start).database.tables :=
    reachable_factsKept calls empty
  have keptAfter : FactsKept platform after.database.tables := by
    rw [← run]
    exact reachable_factsKept _ empty
  obtain ⟨_, writable, final, ran, tables⟩ := writing_returned returned
  obtain ⟨middle, ended, added⟩ := supersedeInTx_outcome ran
  rw [tables] at keptAfter
  obtain ⟨subject, predicate, columns, scope, headId, addresses, subjectSettled, objectSettled,
    found, agrees, loads⟩ := replacement_found ((closeOld_returned ended).facts.sound kept.sound)
      keptAfter added
  have stated : Columns platform final.tables new columns := addresses.columns
  constructor
  · rintro ⟨_, last, retried, -, facts⟩
    obtain ⟨_, _, pending, ranAgain, tablesAgain⟩ := writing_returned retried
    obtain ⟨between, endedAgain, addedAgain⟩ := supersedeInTx_outcome ranAgain
    obtain ⟨more, moreRows, _⟩ := (addFactInTx_returned addedAgain).facts.appended
    rw [tablesAgain] at facts
    have length := congrArg List.length facts
    rcases closeOld_outcome endedAgain with ⟨fact, _, invalidated⟩ | ⟨_, misses, unchanged⟩
    · obtain ⟨_, _, _, _, _, _, _, table, _, _, _, _, _, _, inserted, newTables⟩ :=
        invalidateInTx_outcome invalidated
      obtain ⟨_, _, rows⟩ := Table.insert_eq_ok.mp inserted
      rw [moreRows, newTables] at length
      change (table.rows ++ more).length = _ at length
      rw [rows] at length
      simp only [List.length_append, List.length_singleton] at length
      omega
    · obtain ⟨_, _, _, _, _, -, -, -, answer⟩ := addFactInTx_outcome addedAgain
      cases answer with
      | appended _ _ _ inserted =>
        obtain ⟨_, _, rows⟩ := Table.insert_eq_ok.mp inserted
        rw [rows, unchanged] at length
        simp at length
      | stands _ loaded agreesAgain _ =>
        obtain ⟨row, stored, _, reads⟩ := loadFact_reads loaded
        rw [facts, tables] at stored
        have dated := reads.dated readsStored
          (dated_of_reads readsStored (keptAfter.rendered row stored) reads)
        simp only [headMatchesRequest, Bool.and_eq_true, decide_eq_true_eq] at agrees
        change Misses platform after.database.tables triple at misses
        rw [tables] at misses
        exact {
          unsigned := dated.validFrom instant agrees.1.1
          named := misses.object subject addresses.subject
          differs := fun same => by
            have absent := misses.absent subject predicate columns scope ⟨addresses.predicate,
              addresses.scope, addresses.subject, (sameObject_iff stated).mp same⟩
            rw [found] at absent
            cases absent }
  · intro retryable
    have cleared := closeOld_clears kept ended
    have misses : Misses platform after.database.tables triple := by
      rw [tables]
      exact {
        predicate := ⟨predicate, addresses.predicate⟩
        scope := ⟨scope, addresses.scope⟩
        subject := ⟨_, addresses.subject.choose_spec.choose_spec.1⟩
        object := fun _ _ => retryable.named
        absent := fun _ _ _ _ => cleared.opened keptAfter retryable.differs added }
    have closing : exec (closeOld platform again instant triple) ⟨after.database.tables, 0⟩ =
        (.ok none, ⟨after.database.tables, 0⟩) := closeOld_misses misses instant
    have adding : exec (addFactInTx platform again (replacementOf triple new instant))
        ⟨after.database.tables, 0⟩ = (.ok replacement, ⟨after.database.tables, 0⟩) := by
      rw [tables]
      exact addFactInTx_stands addresses subjectSettled objectSettled rfl rfl rfl found
        (loads readsStored retryable.unsigned) agrees
    have whole : exec (supersedeInTx platform again instant triple new)
        ⟨after.database.tables, 0⟩ = (.ok (none, replacement), ⟨after.database.tables, 0⟩) := by
      rw [supersedeInTx, exec_bind_ok closing, exec_bind, exec_tryCatch, adding]
      rfl
    exact ⟨none, after, writing_idle writable whole, rfl, rfl⟩

/-- Replace the fact about Tantivy, from an instant that the caller names. -/
def replaceRustFrom (old new : NewObject) (env : Env) : StoreCall (Option Fact × Fact) :=
  supersedeFact .unsignedYears env ⟨"tantivy", "Written_in", old, some "A/B"⟩ new
    (some (instantAfter 1))

/-- The environment of a call. -/
def laterEnv (draws : Nat) : Env := ⟨instantAfter 2, fun draw => draws + draw⟩

/-- Replacing Rust by C is retried without a change. -/
theorem replacing_rust_is_retried :
    ∃ closed replacement after,
      exec (replaceRustFrom (.value "Rust") (.value "C") (laterEnv 10))
          (runCalls .unsignedYears rustStated ⟨false, .fresh⟩) =
        (.ok (closed, replacement), after) ∧
      ∃ found final, exec (replaceRustFrom (.value "Rust") (.value "C") (laterEnv 20)) after =
          (.ok (found, replacement), final) ∧
        final.database.tables.facts.rows = after.database.tables.facts.rows := by
  have answered : ((exec (replaceRustFrom (.value "Rust") (.value "C") (laterEnv 10))
      (runCalls .unsignedYears rustStated ⟨false, .fresh⟩)).1.isOk) = true := by decide +kernel
  rcases outcome : exec (replaceRustFrom (.value "Rust") (.value "C") (laterEnv 10))
      (runCalls .unsignedYears rustStated ⟨false, .fresh⟩)
    with ⟨error | ⟨closed, replacement⟩, after⟩
  · rw [outcome] at answered
    cases answered
  · have retryable : Retryable .unsignedYears ⟨"tantivy", "Written_in", .value "Rust", some "A/B"⟩
        (.value "C") (instantAfter 1) := by
      refine ⟨by decide +kernel, ?_, ?_⟩
      · rintro _ _ ⟨⟩
      · intro same
        exact absurd same (by decide +kernel : ¬ trim "Rust" = trim "C")
    obtain ⟨found, final, retried, _, facts⟩ :=
      (supersede_retry_iff Platform.unsignedYears_readsStored rustStated ⟨false, .fresh⟩ rfl
        (laterEnv 10) _ (.value "C") (instantAfter 1) closed replacement after outcome
        (laterEnv 20)).mpr retryable
    exact ⟨closed, replacement, after, rfl, found, final, retried, facts⟩

/-- Retrying the replacement of an entity by another spelling of it appends two facts. -/
theorem replacing_by_another_spelling_is_not_retried :
    ¬ ∀ (calls : List (Env × GraphCall)) (start : Store),
      start.database.tables.facts.rows = [] →
      ∀ (env : Env) (triple : TripleRef) (new : NewObject) (instant : Timestamp)
        (closed : Option Fact) (replacement : Fact) (after : Store),
        exec (supersedeFact .unsignedYears env triple new (some instant))
          (runCalls .unsignedYears calls start) = (.ok (closed, replacement), after) →
        ∀ again : Env, ∃ found final,
          exec (supersedeFact .unsignedYears again triple new (some instant)) after =
            (.ok (found, replacement), final) ∧
          final.database.tables.facts.rows = after.database.tables.facts.rows := by
  intro all
  have grows : ((exec (replaceRustFrom (.entity "Rust" none) (.entity " rust" none) (laterEnv 10))
        (runCalls .unsignedYears rustStated ⟨false, .fresh⟩)).1.isOk,
      (exec (replaceRustFrom (.entity "Rust" none) (.entity " rust" none) (laterEnv 20))
        (exec (replaceRustFrom (.entity "Rust" none) (.entity " rust" none) (laterEnv 10))
          (runCalls .unsignedYears rustStated ⟨false, .fresh⟩)).2).2.database.tables.facts.rows.length,
      (exec (replaceRustFrom (.entity "Rust" none) (.entity " rust" none) (laterEnv 10))
        (runCalls .unsignedYears rustStated ⟨false, .fresh⟩)).2.database.tables.facts.rows.length) =
      (true, 4, 2) := by decide +kernel
  rcases outcome : exec (replaceRustFrom (.entity "Rust" none) (.entity " rust" none) (laterEnv 10))
      (runCalls .unsignedYears rustStated ⟨false, .fresh⟩)
    with ⟨error | ⟨closed, replacement⟩, after⟩
  · rw [outcome] at grows
    cases grows
  · rw [outcome] at grows
    obtain ⟨found, final, retried, facts⟩ := all rustStated ⟨false, .fresh⟩ rfl (laterEnv 10) _
      (.entity " rust" none) (instantAfter 1) closed replacement after outcome (laterEnv 20)
    change exec (replaceRustFrom (.entity "Rust" none) (.entity " rust" none) (laterEnv 20)) after =
      _ at retried
    rw [retried, facts] at grows
    simp only [Prod.mk.injEq] at grows
    omega

end Singularmem.Graph
