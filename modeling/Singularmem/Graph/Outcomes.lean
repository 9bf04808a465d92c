import Singularmem.Graph.Constraints
import Singularmem.Graph.StoredFacts
import Singularmem.Graph.TimeTravel

/-!
# What a fact write leaves, exactly

For each function of the write path: the entities its names resolve to afterwards, the open
head it looked at, and the one row it appended, if any. The properties of replacements and
the invariants of stored rows are read off these outcomes.
-/

namespace Singularmem.Graph

open Library Singularmem.Core
open Effect hiding ofExcept

variable {platform : Platform} {env : Env}

/-- A name resolves to an entity of the tables. -/
def Resolves (platform : Platform) (tables : Tables) (name : String) (ref : EntityRef) : Prop :=
  ∃ normalised row, Normalise.entityName platform name = .ok normalised ∧
    entityByName tables normalised = some row ∧ ref = ⟨row.id, row.name⟩

/-- The columns by which an object is found. -/
def Columns (platform : Platform) (tables : Tables) : NewObject → ObjectColumns → Prop
  | .entity name _, columns =>
    ∃ ref, Resolves platform tables name ref ∧ columns = ⟨some ref.id, none⟩
  | .value text, columns => columns = ⟨none, some (trim text)⟩

/-- An entity has what a caller wants of its kind: no conflict, and nothing to fill in. -/
def KindSettled (platform : Platform) (tables : Tables) (name : String) (kind : Option String) :
    Prop :=
  ∀ normalised row, Normalise.entityName platform name = .ok normalised →
    entityByName tables normalised = some row → ¬ kindConflicts kind row.kind ∧
      (kind.isSome → row.kind.isSome)

section Names

variable {before after tables : Tables} {name : String} {ref : EntityRef}

/-- A name resolves to one entity. -/
theorem Resolves.unique {other : EntityRef} (first : Resolves platform tables name ref)
    (second : Resolves platform tables name other) : ref = other := by
  obtain ⟨normalised, row, named, found, rfl⟩ := first
  obtain ⟨again, otherRow, namedAgain, foundAgain, rfl⟩ := second
  obtain rfl : normalised = again := Except.ok.inj (named.symm.trans namedAgain)
  obtain rfl : row = otherRow := Option.some.inj (found.symm.trans foundAgain)
  rfl

/-- An entity that exists is found by its name afterwards, with a kind it may have got. -/
theorem entityByName_kept (grown : Grown KeepsEntity before.entities.rows after.entities.rows)
    {normalised : String} {row : EntityRow} (found : entityByName before normalised = some row) :
    ∃ kind, entityByName after normalised = some { row with kind } ∧
      (row.kind.isSome → kind = row.kind) := by
  obtain ⟨member, entry⟩ := Table.find_eq_some.mp found
  obtain ⟨became, becameIn, kind, rfl, kept⟩ := grown.mem member
  exact ⟨kind, Table.find_eq_some.mpr ⟨becameIn, by simpa [entitySchema] using entry⟩, kept⟩

/-- A name keeps resolving to its entity. -/
theorem Resolves.grown (grown : Grown KeepsEntity before.entities.rows after.entities.rows)
    (resolves : Resolves platform before name ref) : Resolves platform after name ref := by
  obtain ⟨normalised, row, named, found, rfl⟩ := resolves
  obtain ⟨kind, foundAfter, _⟩ := entityByName_kept grown found
  exact ⟨normalised, _, named, foundAfter, rfl⟩

/-- An entity whose kind is settled keeps it. -/
theorem KindSettled.grown (grown : Grown KeepsEntity before.entities.rows after.entities.rows)
    {kind : Option String} (resolves : Resolves platform before name ref)
    (settled : KindSettled platform before name kind) : KindSettled platform after name kind := by
  obtain ⟨normalised, row, named, found, -⟩ := resolves
  obtain ⟨held, foundAfter, kept⟩ := entityByName_kept grown found
  intro again other namedAgain foundAgain
  obtain rfl : normalised = again := Except.ok.inj (named.symm.trans namedAgain)
  obtain rfl : { row with kind := held } = other :=
    Option.some.inj (foundAfter.symm.trans foundAgain)
  obtain ⟨agrees, filled⟩ := settled normalised row named found
  cases kind with
  | none => exact ⟨by simp [kindConflicts], by simp⟩
  | some wanted =>
    have same : held = row.kind := kept (filled rfl)
    exact ⟨by rw [same]; exact agrees, fun _ => by rw [same]; exact filled rfl⟩

/-- The entity of a resolved name has its name in the tables. -/
theorem Resolves.entityNameOf (resolves : Resolves platform tables name ref) :
    entityNameOf tables ref.id = some ref.name := by
  obtain ⟨normalised, row, _, found, rfl⟩ := resolves
  have member := (Table.find_eq_some.mp found).1
  have byId : tables.entities.find (.id row.id) = some row :=
    Table.find_eq_some.mpr ⟨member, by simp [entitySchema]⟩
  rw [Graph.entityNameOf, byId]
  rfl

/-- Columns that were found are found again. -/
theorem Columns.grown (grown : Grown KeepsEntity before.entities.rows after.entities.rows)
    {object : NewObject} {columns : ObjectColumns} (found : Columns platform before object columns) :
    Columns platform after object columns := by
  cases object with
  | entity name kind =>
    obtain ⟨ref, resolves, rfl⟩ := found
    exact ⟨ref, resolves.grown grown, rfl⟩
  | value text => exact found

/-- An object has one pair of columns. -/
theorem Columns.unique {object : NewObject} {left right : ObjectColumns}
    (first : Columns platform tables object left) (second : Columns platform tables object right) :
    left = right := by
  cases object with
  | entity name kind =>
    obtain ⟨ref, resolves, rfl⟩ := first
    obtain ⟨other, resolvesAgain, rfl⟩ := second
    rw [resolves.unique resolvesAgain]
  | value text => exact first.trans second.symm

end Names

/-- The open head of a triple depends on the facts only. -/
theorem findOpenHead_facts {left right : Tables} (same : left.facts = right.facts)
    (subject : EntityId) (predicate : String) (object : ObjectColumns) (scope : Option String) :
    findOpenHead left subject predicate object scope =
      findOpenHead right subject predicate object scope := by
  unfold findOpenHead isOpenHead supersededBy
  rw [same]

/-- **Resolving or creating an entity** leaves one to which the name resolves, of the wanted
kind; the facts are untouched. -/
theorem getOrCreateEntity_outcome {name : String} {kind : Option String} {pending after : Pending}
    {ref : EntityRef}
    (returned : exec (getOrCreateEntity platform env name kind) pending = (.ok ref, after)) :
    Resolves platform after.tables name ref ∧ KindSettled platform after.tables name kind ∧
      after.tables.facts = pending.tables.facts := by
  have extended := getOrCreateEntity_returned returned
  obtain ⟨normalised, named, rest⟩ := ofExcept_bind_returned returned
  rw [exec_bind_ok (exec_get pending)] at rest
  split at rest
  case h_1 row found =>
    obtain ⟨agrees, rest⟩ := throwIf_bind_returned rest
    cases rest
    have same : (fillKind pending.tables row kind).facts = pending.tables.facts := by
      unfold fillKind
      split <;> rfl
    obtain ⟨held, foundAfter, kept⟩ := entityByName_kept extended.entities found
    refine ⟨⟨normalised, _, named, foundAfter, rfl⟩, ?_, same⟩
    intro again other namedAgain foundAgain
    obtain rfl : normalised = again := Except.ok.inj (named.symm.trans namedAgain)
    obtain rfl : { row with kind := held } = other :=
      Option.some.inj (foundAfter.symm.trans foundAgain)
    by_cases missing : kind.isSome ∧ row.kind.isNone
    · have changed : entityByName (fillKind pending.tables row kind) normalised =
          some { row with kind } := by
        obtain ⟨member, entry⟩ := Table.find_eq_some.mp found
        refine Table.find_eq_some.mpr ⟨?_, by simpa [entitySchema] using entry⟩
        rw [fillKind, if_pos missing]
        exact List.mem_map.mpr ⟨row, member, by simp⟩
      have became : { row with kind := held } = { row with kind } :=
        Option.some.inj (foundAfter.symm.trans changed)
      obtain rfl : held = kind := congrArg EntityRow.kind became
      refine ⟨?_, id⟩
      cases held with
      | none => simp [kindConflicts]
      | some wanted => simp [kindConflicts]
    · have keptKind : kind.isSome → row.kind.isSome := by
        intro wanted
        by_contra absent
        exact missing ⟨wanted, by simpa using absent⟩
      cases kind with
      | none => exact ⟨by simp [kindConflicts], by simp⟩
      | some wanted =>
        have same : held = row.kind := kept (keptKind rfl)
        exact ⟨by rw [same]; exact agrees, fun _ => by rw [same]; exact keptKind rfl⟩
  case h_2 absent =>
    obtain ⟨ulid, middle, minted, rest⟩ := exec_bind_returned rest
    obtain ⟨_, sameTables⟩ := mintRawUlid_returned minted
    split at rest
    · cases rest
    case h_2 entities inserted =>
      obtain ⟨_, _, rows⟩ := Table.insert_eq_ok.mp inserted
      cases rest
      have created : entityByName { pending.tables with entities } normalised =
          some ⟨⟨ulid⟩, trim name, normalised, kind, toSql env.now⟩ :=
        Table.find_eq_some.mpr ⟨by rw [rows]; simp, by simp [entitySchema]⟩
      refine ⟨⟨normalised, _, named, created, rfl⟩, ?_, rfl⟩
      intro again other namedAgain foundAgain
      obtain rfl : normalised = again := Except.ok.inj (named.symm.trans namedAgain)
      obtain rfl := Option.some.inj (created.symm.trans foundAgain)
      refine ⟨?_, id⟩
      cases kind with
      | none => simp [kindConflicts]
      | some wanted => simp [kindConflicts]

/-- The triple a submission states. -/
def NewFact.triple (request : NewFact) : TripleRef :=
  ⟨request.subject, request.predicate, request.object, request.scope⟩

/-- What the parts of a triple are in the tables. -/
structure Addresses (platform : Platform) (tables : Tables) (triple : TripleRef)
    (subject : EntityRef) (predicate : String) (columns : ObjectColumns) (scope : Option String) :
    Prop where
  predicate : Normalise.predicate platform triple.predicate = .ok predicate
  scope : triple.scope.mapM (Scope.validate platform) = .ok scope
  subject : Resolves platform tables triple.subject subject
  columns : Columns platform tables triple.object columns

/-- A triple keeps its parts. -/
theorem Addresses.grown {before after : Tables} {triple : TripleRef} {subject : EntityRef}
    {predicate : String} {columns : ObjectColumns} {scope : Option String}
    (addresses : Addresses platform before triple subject predicate columns scope)
    (grown : Grown KeepsEntity before.entities.rows after.entities.rows) :
    Addresses platform after triple subject predicate columns scope :=
  ⟨addresses.predicate, addresses.scope, addresses.subject.grown grown,
    addresses.columns.grown grown⟩

/-- The kind of an object that is an entity is settled; a value is not blank. -/
structure ObjectSettled (platform : Platform) (tables : Tables) (object : NewObject) : Prop where
  kind : ∀ name kind, object = .entity name kind →
    KindSettled platform tables name (kindOrNone kind)
  filled : ∀ text, object = .value text → trim text ≠ ""

/-- The object names its entity as the tables do. -/
def ObjectNamed (tables : Tables) (object : FactObject) : Prop :=
  ∀ ref, object = .entity ref → entityNameOf tables ref.id = some ref.name

/-- **Resolving the object** of a submission leaves the columns by which it is found. -/
theorem resolveObject_outcome {object : NewObject} {pending after : Pending}
    {resolved : FactObject}
    (returned : exec (resolveObject platform env object) pending = (.ok resolved, after)) :
    Columns platform after.tables object (.of resolved) ∧
      ObjectSettled platform after.tables object ∧ ObjectNamed after.tables resolved ∧
      after.tables.facts = pending.tables.facts := by
  cases object with
  | entity name kind =>
    obtain ⟨ref, created, rfl⟩ := map_returned returned
    obtain ⟨resolves, settled, facts⟩ := getOrCreateEntity_outcome created
    refine ⟨⟨ref, resolves, rfl⟩, ⟨?_, ?_⟩, ?_, facts⟩
    · rintro _ _ ⟨⟩
      exact settled
    · rintro _ ⟨⟩
    · rintro _ ⟨⟩
      exact resolves.entityNameOf
  | value text =>
    obtain ⟨filled, rest⟩ := throwIf_bind_returned returned
    cases rest
    refine ⟨rfl, ⟨?_, ?_⟩, ?_, rfl⟩
    · rintro _ _ ⟨⟩
    · rintro _ ⟨⟩
      exact filled
    · rintro _ ⟨⟩

/-- The first revision of a fact. -/
def firstRevision (env : Env) (ulid : Ulid) (subject : EntityRef) (predicate : String)
    (object : FactObject) (scope : Option String) (request : NewFact) : Fact where
  id := ⟨ulid⟩
  subject := subject
  predicate := predicate
  object := object
  validFrom := request.validFrom
  validTo := request.validTo
  confidence := request.confidence
  sourceItemId := request.sourceItemId
  scope := scope
  supersedes := none
  recordedAt := env.now

/-- The revision that ends a head. -/
def closingRevision (env : Env) (ulid : Ulid) (ending : Timestamp) (head : Fact) : Fact :=
  { head with
    id := ⟨ulid⟩
    validTo := some ending
    supersedes := some head.id
    recordedAt := env.now }

/-- The open head that answers a request, or the first revision that was appended. -/
inductive Answer (platform : Platform) (env : Env) (request : NewFact) (before after : Tables)
    (subject : EntityRef) (predicate : String) (object : FactObject) (scope : Option String)
    (fact : Fact) : Prop
  | stands {headId : FactId}
      (found : findOpenHead after subject.id predicate (.of object) scope = some headId)
      (loaded : loadFact platform after headId = .ok (some fact))
      (agrees : headMatchesRequest fact request.validFrom request.validTo request.confidence)
      (facts : after.facts = before.facts)
  | appended {ulid : Ulid}
      (absent : findOpenHead before subject.id predicate (.of object) scope = none)
      (recent : 0 ≤ env.now.asMillisecond)
      (first : fact = firstRevision env ulid subject predicate object scope request)
      (inserted : before.facts.insert fact.toRow = .ok after.facts)

/-- **Adding a fact** resolves its names and answers with an open head or a first
revision. -/
theorem addFactInTx_outcome {request : NewFact} {pending after : Pending} {fact : Fact}
    (returned : exec (addFactInTx platform env request) pending = (.ok fact, after)) :
    ∃ subject predicate object scope,
      Addresses platform after.tables request.triple subject predicate (.of object) scope ∧
        KindSettled platform after.tables request.subject (kindOrNone request.subjectKind) ∧
        ObjectSettled platform after.tables request.object ∧ ObjectNamed after.tables object ∧
        Answer platform env request pending.tables after.tables subject predicate object scope
          fact := by
  obtain ⟨predicate, normal, rest⟩ := ofExcept_bind_returned returned
  obtain ⟨_, _, rest⟩ := ofExcept_bind_returned rest
  obtain ⟨_, _, rest⟩ := ofExcept_bind_returned rest
  obtain ⟨scope, validated, rest⟩ := ofExcept_bind_returned rest
  rw [exec_bind_ok (exec_get pending)] at rest
  obtain ⟨_, _, rest⟩ := ofExcept_bind_returned rest
  obtain ⟨subject, middle, created, rest⟩ := exec_bind_returned rest
  obtain ⟨object, final, resolved, rest⟩ := exec_bind_returned rest
  obtain ⟨subjectResolves, subjectSettled, subjectFacts⟩ := getOrCreateEntity_outcome created
  obtain ⟨columns, objectSettled, objectNamed, objectFacts⟩ := resolveObject_outcome resolved
  have grown := (@resolveObject_returned _ env _ _ _ _ resolved).entities
  have facts : final.tables.facts = pending.tables.facts := objectFacts.trans subjectFacts
  have addresses : Addresses platform final.tables request.triple subject predicate
      (.of object) scope := ⟨normal, validated, subjectResolves.grown grown, columns⟩
  have settled := subjectSettled.grown grown subjectResolves
  rw [exec_bind_ok (exec_get final)] at rest
  split at rest
  case h_1 headId found =>
    obtain rfl : after = final := answerWithHead_returned rest
    rw [answerWithHead, exec_bind_ok (exec_get after)] at rest
    obtain ⟨loaded, read, rest⟩ := ofExcept_bind_returned rest
    cases loaded with
    | none => cases rest
    | some head =>
      obtain ⟨agrees, rest⟩ := throwIf_bind_returned rest
      cases rest
      exact ⟨subject, predicate, object, scope, addresses, settled, objectSettled, objectNamed,
        .stands found read (by simpa using agrees) facts⟩
  case h_2 absent =>
    obtain ⟨ulid, minted, ran, rest⟩ := exec_bind_returned rest
    obtain ⟨recent, sameTables⟩ := mintRawUlid_returned ran
    obtain ⟨_, last, appended, rest⟩ := exec_bind_returned rest
    obtain ⟨table, inserted, tables⟩ := insertFactRow_returned appended
    cases rest
    rw [sameTables] at inserted tables
    refine ⟨subject, predicate, object, scope, ?_, ?_, ?_, ?_, .appended ?_ recent
      rfl ?_⟩
    · rw [tables]
      exact addresses.grown (.refl KeepsEntity.refl _)
    · rw [tables]
      exact settled
    · rw [tables]
      exact ⟨objectSettled.kind, objectSettled.filled⟩
    · rw [tables]
      exact objectNamed
    · rw [← findOpenHead_facts facts]
      exact absent
    · rw [tables, ← facts]
      exact inserted

/-- What looking an entity up finds. -/
theorem findEntity_outcome {name : String} {pending after : Pending} {found : Option EntityRef}
    (returned : exec (findEntity platform name) pending = (.ok found, after)) :
    after = pending ∧ (∃ normalised, Normalise.entityName platform name = .ok normalised) ∧
      ∀ ref, found = some ref ↔ Resolves platform pending.tables name ref := by
  have unchanged := findEntity_returned returned
  obtain ⟨normalised, named, rest⟩ := ofExcept_bind_returned returned
  rw [exec_bind_ok (exec_get pending)] at rest
  cases rest
  refine ⟨rfl, ⟨normalised, named⟩, fun ref => ?_⟩
  constructor
  · intro found
    obtain ⟨row, stored, rfl⟩ := Option.map_eq_some_iff.mp found
    exact ⟨normalised, row, named, stored, rfl⟩
  · rintro ⟨again, row, namedAgain, stored, rfl⟩
    obtain rfl : normalised = again := Except.ok.inj (named.symm.trans namedAgain)
    rw [stored]
    rfl

/-- What looking an object up finds. -/
theorem lookupObject_outcome {object : NewObject} {pending after : Pending}
    {found : Option ObjectColumns}
    (returned : exec (lookupObject platform object) pending = (.ok found, after)) :
    after = pending ∧
      (∀ name kind, object = .entity name kind →
        ∃ normalised, Normalise.entityName platform name = .ok normalised) ∧
      ∀ columns, found = some columns ↔ Columns platform pending.tables object columns := by
  cases object with
  | entity name kind =>
    obtain ⟨ref, middle, looked, rest⟩ := exec_bind_returned returned
    obtain ⟨rfl, named, resolves⟩ := findEntity_outcome looked
    cases rest
    refine ⟨rfl, ?_, fun columns => ?_⟩
    · rintro _ _ ⟨⟩
      exact named
    · constructor
      · intro found
        obtain ⟨entity, known, rfl⟩ := Option.map_eq_some_iff.mp found
        exact ⟨entity, (resolves entity).mp known, rfl⟩
      · rintro ⟨entity, known, rfl⟩
        rw [(resolves entity).mpr known]
        rfl
  | value text =>
    cases returned
    refine ⟨rfl, ?_, fun columns => ?_⟩
    · rintro _ _ ⟨⟩
    · exact ⟨fun found => (Option.some.inj found).symm, fun same => congrArg some same.symm⟩

/-- **Ending a fact** appends the closing revision of the open head its triple addresses. -/
theorem invalidateInTx_outcome {ending : Timestamp} {triple : TripleRef} {pending after : Pending}
    {closed : Fact}
    (returned : exec (invalidateInTx platform env ending triple) pending = (.ok closed, after)) :
    ∃ subject predicate columns scope headId head ulid facts,
      Addresses platform pending.tables triple subject predicate columns scope ∧
        findOpenHead pending.tables subject.id predicate columns scope = some headId ∧
        loadFact platform pending.tables headId = .ok (some head) ∧
        (∀ start ∈ head.validFrom, start ≤ ending) ∧ 0 ≤ env.now.asMillisecond ∧
        closed = closingRevision env ulid ending head ∧
        pending.tables.facts.insert closed.toRow = .ok facts ∧
        after.tables = { pending.tables with facts } := by
  obtain ⟨predicate, normal, rest⟩ := ofExcept_bind_returned returned
  obtain ⟨scope, validated, rest⟩ := ofExcept_bind_returned rest
  obtain ⟨found, middle, looked, rest⟩ := exec_bind_returned rest
  obtain ⟨rfl, -, subjects⟩ := findEntity_outcome looked
  cases found with
  | none => cases rest
  | some subject =>
    obtain ⟨columns, final, looked, rest⟩ := exec_bind_returned rest
    obtain ⟨rfl, -, objects⟩ := lookupObject_outcome looked
    cases columns with
    | none => cases rest
    | some columns =>
      change exec (get >>= _) final = _ at rest
      rw [exec_bind_ok (exec_get final)] at rest
      split at rest
      · cases rest
      case h_2 headId head =>
        obtain ⟨loaded, read, rest⟩ := ofExcept_bind_returned rest
        cases loaded with
        | none => cases rest
        | some fact =>
          obtain ⟨early, rest⟩ := throwIf_bind_returned rest
          obtain ⟨ulid, minted, ran, rest⟩ := exec_bind_returned rest
          obtain ⟨recent, sameTables⟩ := mintRawUlid_returned ran
          obtain ⟨_, last, appended, rest⟩ := exec_bind_returned rest
          obtain ⟨facts, inserted, tables⟩ := insertFactRow_returned appended
          cases rest
          rw [sameTables] at inserted tables
          refine ⟨subject, predicate, columns, scope, headId, fact, ulid, facts,
            ⟨normal, validated, (subjects subject).mp rfl, (objects columns).mp rfl⟩, head, read,
            ?_, recent, rfl, inserted, tables⟩
          intro start given
          refine Int.not_lt.mp fun before => early ?_
          rw [given]
          exact decide_eq_true before

/-- No open head is addressed by a triple whose names are well formed. The object is looked
at only where the subject is known. -/
structure Misses (platform : Platform) (tables : Tables) (triple : TripleRef) : Prop where
  predicate : ∃ predicate, Normalise.predicate platform triple.predicate = .ok predicate
  scope : ∃ scope, triple.scope.mapM (Scope.validate platform) = .ok scope
  subject : ∃ normalised, Normalise.entityName platform triple.subject = .ok normalised
  object : ∀ ref, Resolves platform tables triple.subject ref → ∀ name kind,
    triple.object = .entity name kind →
      ∃ normalised, Normalise.entityName platform name = .ok normalised
  absent : ∀ subject predicate columns scope,
    Addresses platform tables triple subject predicate columns scope →
      findOpenHead tables subject.id predicate columns scope = none

/-- What a lookup throws, it rejects. -/
theorem findEntity_threw {name : String} {pending after : Pending} {error : Error}
    (threw : exec (findEntity platform name) pending = (.error error, after)) :
    ∃ field reason, error = .validation field reason := by
  rw [findEntity, exec_bind, exec_ofExcept] at threw
  rcases named : Normalise.entityName platform name with failure | normalised
  · rw [named] at threw
    cases threw
    exact entityName_rejecting name _ named
  · rw [named] at threw
    cases threw

theorem lookupObject_threw {object : NewObject} {pending after : Pending} {error : Error}
    (threw : exec (lookupObject platform object) pending = (.error error, after)) :
    ∃ field reason, error = .validation field reason := by
  cases object with
  | entity name kind =>
    rw [lookupObject, exec_bind] at threw
    rcases ran : exec (findEntity platform name) pending with ⟨failure | found, middle⟩
    · rw [ran] at threw
      cases threw
      exact findEntity_threw ran
    · rw [ran] at threw
      cases threw
  | value text => cases threw

/-- An error that does not report a missing fact. -/
def NotMissing (error : Error) : Prop :=
  ∀ subject predicate object, error ≠ .factNotFound subject predicate object

/-- Ending a head fails for other reasons than a missing fact. -/
theorem closeHead_notMissing (ending : Timestamp) (head : Fact) :
    ThrowsOnly NotMissing (closeHead platform env ending head) := by
  refine .bind (.throwIf fun _ => ?_) fun _ => .bind ?_ fun ulid => .bind ?_ fun _ => .pure _
  · rintro subject predicate object ⟨⟩
  · refine .bind (.throwIf fun _ => ?_) fun _ => .get_bind fun state error final threw => ?_
    · rintro subject predicate object ⟨⟩
    · cases threw
  · refine .get_bind fun state error final threw => ?_
    split at threw
    case h_1 =>
      cases threw
      rintro subject predicate object ⟨⟩
    case h_2 =>
      refine ThrowsOnly.bind (.throwIf fun _ => ?_) (fun _ => ?_) _ _ _ threw
      · rintro subject predicate object ⟨⟩
      · rintro _ _ _ ⟨⟩

/-- **A triple that misses** is not found. -/
theorem invalidateInTx_misses {pending : Pending} {triple : TripleRef}
    (misses : Misses platform pending.tables triple) (ending : Timestamp) :
    exec (invalidateInTx platform env ending triple) pending =
      (.error triple.notFound, pending) := by
  obtain ⟨predicate, normal⟩ := misses.predicate
  obtain ⟨scope, validated⟩ := misses.scope
  obtain ⟨normalised, named⟩ := misses.subject
  have looked : exec (findEntity platform triple.subject) pending =
      (.ok ((entityByName pending.tables normalised).map fun row => ⟨row.id, row.name⟩),
        pending) := by
    rw [findEntity, named, exec_bind_ok (exec_ofExcept _ _), exec_bind_ok (exec_get pending)]
    rfl
  generalize ((entityByName pending.tables normalised).map fun row =>
    (⟨row.id, row.name⟩ : EntityRef)) = found at looked
  rw [invalidateInTx, normal, validated, exec_bind_ok (exec_ofExcept _ _),
    exec_bind_ok (exec_ofExcept _ _), exec_bind_ok looked]
  have subjects := (findEntity_outcome looked).2.2
  rcases found with _ | subject
  · rfl
  have resolves := (subjects subject).mp rfl
  rcases ran : exec (lookupObject platform triple.object) pending with ⟨error | columns, final⟩
  · exfalso
    cases object : triple.object with
    | entity name kind =>
      obtain ⟨again, namedObject⟩ := misses.object subject resolves name kind object
      rw [object, lookupObject, findEntity, namedObject, exec_bind] at ran
      rw [exec_bind_ok (exec_ofExcept _ _), exec_bind_ok (exec_get pending)] at ran
      cases ran
    | value text =>
      rw [object] at ran
      cases ran
  · obtain ⟨rfl, -, objects⟩ := lookupObject_outcome ran
    dsimp only
    rw [exec_bind_ok ran]
    rcases columns with _ | columns
    · rfl
    change exec (get >>= _) final = _
    rw [exec_bind_ok (exec_get final), misses.absent subject predicate columns scope
      ⟨normal, validated, resolves, (objects columns).mp rfl⟩]
    rfl

/-- A triple that was not found misses. -/
theorem misses_of_notFound {pending after : Pending} {triple : TripleRef} {ending : Timestamp}
    {subject predicate object : String}
    (threw : exec (invalidateInTx platform env ending triple) pending =
      (.error (.factNotFound subject predicate object), after)) :
    Misses platform pending.tables triple := by
  rw [invalidateInTx, exec_bind, exec_ofExcept] at threw
  rcases normal : Normalise.predicate platform triple.predicate with error | normalPredicate
  · rw [normal] at threw
    obtain ⟨_, _, rfl⟩ := predicate_rejecting triple.predicate error normal
    cases threw
  rw [normal] at threw
  dsimp only at threw
  rw [exec_bind, exec_ofExcept] at threw
  rcases validated : triple.scope.mapM (Scope.validate platform) with error | scope
  · rw [validated] at threw
    obtain ⟨_, _, rfl⟩ := Rejecting.option _ Scope.validate_rejecting error validated
    cases threw
  rw [validated] at threw
  dsimp only at threw
  rw [exec_bind] at threw
  rcases looked : exec (findEntity platform triple.subject) pending with ⟨error | found, middle⟩
  · rw [looked] at threw
    obtain ⟨_, _, rfl⟩ := findEntity_threw looked
    cases threw
  obtain ⟨rfl, named, subjects⟩ := findEntity_outcome looked
  rw [looked] at threw
  refine ⟨⟨_, normal⟩, ⟨_, validated⟩, named, ?_, ?_⟩
  · intro ref resolves name kind given
    rw [(subjects ref).mpr resolves] at threw
    dsimp only at threw
    rw [exec_bind] at threw
    rcases ran : exec (lookupObject platform triple.object) middle with ⟨error | columns, final⟩
    · rw [ran] at threw
      obtain ⟨_, _, rfl⟩ := lookupObject_threw ran
      cases threw
    · exact (lookupObject_outcome ran).2.1 name kind given
  · rintro ref predicate columns scopeAgain ⟨normalAgain, validatedAgain, resolves, found⟩
    obtain rfl := Except.ok.inj (normal.symm.trans normalAgain)
    obtain rfl := Except.ok.inj (validated.symm.trans validatedAgain)
    rw [(subjects ref).mpr resolves] at threw
    dsimp only at threw
    rw [exec_bind] at threw
    rcases ran : exec (lookupObject platform triple.object) middle with ⟨error | looked, final⟩
    · rw [ran] at threw
      obtain ⟨_, _, rfl⟩ := lookupObject_threw ran
      cases threw
    obtain ⟨rfl, -, objects⟩ := lookupObject_outcome ran
    rw [ran, (objects columns).mpr found] at threw
    dsimp only at threw
    change exec (get >>= _) final = _ at threw
    rw [exec_bind_ok (exec_get final)] at threw
    by_contra present
    obtain ⟨headId, head⟩ := Option.ne_none_iff_exists'.mp present
    rw [head] at threw
    dsimp only at threw
    rw [exec_bind, exec_ofExcept] at threw
    rcases read : loadFact platform final.tables headId with error | loaded
    · rw [read] at threw
      obtain ⟨_, _, rfl⟩ := loadFact_rejecting final.tables headId error read
      cases threw
    · rw [read] at threw
      cases loaded with
      | none => cases threw
      | some fact =>
        exact closeHead_notMissing _ _ _ _ _ threw _ _ _ rfl

/-- **Closing the old fact** of a replacement ends an open head, or finds none and leaves the
tables alone. -/
theorem closeOld_outcome {ending : Timestamp} {triple : TripleRef} {pending after : Pending}
    {closed : Option Fact}
    (returned : exec (closeOld platform env ending triple) pending = (.ok closed, after)) :
    (∃ fact, closed = some fact ∧
        exec (invalidateInTx platform env ending triple) pending = (.ok fact, after)) ∨
      closed = none ∧ Misses platform pending.tables triple ∧ after.tables = pending.tables := by
  rcases tryCatch_returned returned with ended | ⟨error, middle, threw, handled⟩
  · obtain ⟨fact, invalidated, same⟩ := map_returned ended
    exact .inl ⟨fact, same, invalidated⟩
  · have missing := map_threw threw
    have kept : middle.tables = pending.tables :=
      invalidateInTx_throwing ending triple pending error middle rfl missing
    rw [exec_ofExcept] at handled
    obtain ⟨tolerated, rfl⟩ := Prod.mk.inj handled
    cases error with
    | factNotFound subject predicate object =>
      cases tolerated
      exact .inr ⟨rfl, misses_of_notFound missing, kept⟩
    | _ => cases tolerated

/-- A missing old fact is tolerated. -/
theorem closeOld_misses {pending : Pending} {triple : TripleRef}
    (misses : Misses platform pending.tables triple) (ending : Timestamp) :
    exec (closeOld platform env ending triple) pending = (.ok none, pending) := by
  rw [closeOld, exec_tryCatch, exec_map, invalidateInTx_misses misses]
  rfl

/-- **A replacement** closes the old fact and adds the new one. -/
theorem supersedeInTx_outcome {ending : Timestamp} {triple : TripleRef} {new : NewObject}
    {pending after : Pending} {closed : Option Fact} {replacement : Fact}
    (returned : exec (supersedeInTx platform env ending triple new) pending =
      (.ok (closed, replacement), after)) :
    ∃ middle, exec (closeOld platform env ending triple) pending = (.ok closed, middle) ∧
      exec (addFactInTx platform env (replacementOf triple new ending)) middle =
        (.ok replacement, after) := by
  obtain ⟨ended, middle, old, rest⟩ := exec_bind_returned returned
  obtain ⟨opened, final, added, rest⟩ := exec_bind_returned rest
  cases rest
  rcases tryCatch_returned added with appended | ⟨_, _, _, handled⟩
  · exact ⟨middle, old, appended⟩
  · cases handled

end Singularmem.Graph
