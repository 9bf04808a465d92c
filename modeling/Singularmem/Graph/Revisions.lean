import Singularmem.Graph.Write
import Singularmem.Library.Revisions

/-!
# What a graph write does to the tables

A write that returns appends revisions to `facts` under the discipline of a revision log,
and adds entities or gives a kind to an entity that had none. The law of each function of
the write path is stated once here; the properties of calls and of runs follow from
`Extends`.
-/

namespace Singularmem.Graph

open Library Singularmem.Core
open Effect hiding ofExcept

variable (platform : Platform)

/-- A stored instant and what rendering it after parsing gives. -/
def Reread (stored again : Option String) : Prop :=
  ∃ parsed, stored.mapM (parsePoint platform) = .ok parsed ∧ again = parsed.map toSql

/-- A closing revision copies every column of a head but four. The start of the window is
parsed and rendered on the way. -/
def Copies (closed head : FactRow) : Prop :=
  Reread platform head.validFrom closed.validFrom ∧
    { closed with
      id := head.id
      validFrom := head.validFrom
      validTo := head.validTo
      supersedes := head.supersedes
      recordedAt := head.recordedAt } = head

/-- What an open head states. -/
abbrev FactKey := EntityId × String × Option EntityId × Option String × Option String

/-- What a row states. -/
def factKey (row : FactRow) : FactKey :=
  (row.subjectId, row.predicate, row.objectId, row.objectValue, row.scope)

/-- The facts as a revision log. -/
def factLog : RevisionLog FactRow FactId FactKey where
  id := FactRow.id
  key := factKey
  prior := FactRow.supersedes
  ended row := row.validTo.isSome
  same := Copies platform

/-- A row carries the record time of its call, which did not read before 1970, and the
start of its window was rendered from an instant. -/
def Recorded (env : Env) (row : FactRow) : Prop :=
  row.recordedAt = toSql env.now ∧ 0 ≤ env.now.asMillisecond ∧
    ∀ text ∈ row.validFrom, ∃ instant, text = toSql instant

/-- An entity keeps everything but a missing kind. -/
def KeepsEntity (before after : EntityRow) : Prop :=
  ∃ kind, after = { before with kind } ∧ (before.kind.isSome → kind = before.kind)

/-- **What a graph write may do to the tables.** -/
structure Extends (env : Env) (before after : Tables) : Prop where
  items : after.items = before.items
  itemTags : after.itemTags = before.itemTags
  entities : Grown KeepsEntity before.entities.rows after.entities.rows
  facts : (factLog platform).Pushes (Recorded env) before.facts.rows after.facts.rows

theorem KeepsEntity.refl (row : EntityRow) : KeepsEntity row row := ⟨row.kind, rfl, fun _ => rfl⟩

theorem KeepsEntity.trans (first second third : EntityRow) (early : KeepsEntity first second)
    (late : KeepsEntity second third) : KeepsEntity first third := by
  obtain ⟨kind, rfl, kept⟩ := early
  obtain ⟨final, rfl, again⟩ := late
  refine ⟨final, rfl, ?_⟩
  intro held
  rw [again (by rw [kept held]; exact held)]
  exact kept held

theorem Extends.refl (env : Env) (tables : Tables) : Extends platform env tables tables :=
  ⟨rfl, rfl, .refl KeepsEntity.refl _, .refl⟩

variable {platform} {env : Env}

theorem Extends.trans {before middle after : Tables} (first : Extends platform env before middle)
    (second : Extends platform env middle after) : Extends platform env before after :=
  ⟨second.items.trans first.items, second.itemTags.trans first.itemTags,
    first.entities.trans @KeepsEntity.trans second.entities,
    first.facts.trans second.facts⟩

/-- Growing the entities is all there is to it. -/
theorem Extends.of_entities {tables : Tables} {entities : Table entitySchema}
    (grown : Grown KeepsEntity tables.entities.rows entities.rows) :
    Extends platform env tables { tables with entities } :=
  ⟨rfl, rfl, grown, .refl⟩

/-- Appending an accepted revision is all there is to it. -/
theorem Extends.of_fact {tables : Tables} {facts : Table factSchema} {row : FactRow}
    (inserted : tables.facts.insert row = .ok facts)
    (accepted : (factLog platform).Push tables.facts.rows row) (recorded : Recorded env row) :
    Extends platform env tables { tables with facts } := by
  obtain ⟨_, free, rows⟩ := Table.insert_eq_ok.mp inserted
  refine ⟨rfl, rfl, .refl KeepsEntity.refl _, ?_⟩
  have pushed := RevisionLog.Pushes.push .refl accepted ?_ recorded
  · rwa [← rows] at pushed
  · intro stored member same
    have absent := Table.find_eq_none.mp (free row.id List.mem_cons_self) stored member
    exact absent (List.mem_singleton.mpr same.symm)

/-- An insertion that returned put the row of the fact into the table. -/
theorem insertFactRow_returned {fact : Fact} {pending after : Pending} {value : PUnit}
    (returned : exec (insertFactRow fact) pending = (.ok value, after)) :
    ∃ facts, pending.tables.facts.insert fact.toRow = .ok facts ∧
      after.tables = { pending.tables with facts } := by
  rw [insertFactRow, exec_bind_ok (exec_get pending)] at returned
  split at returned
  · cases returned
  case h_2 facts inserted =>
    obtain ⟨_, rest⟩ := throwIf_bind_returned returned
    cases rest
    exact ⟨facts, inserted, rfl⟩

/-- Filling in a missing kind keeps every entity. -/
theorem extends_fillKind {tables : Tables} {row : EntityRow} (stored : row ∈ tables.entities.rows)
    (kind : Option String) : Extends platform env tables (fillKind tables row kind) := by
  unfold fillKind
  split
  case isTrue missing =>
    refine .of_entities ?_
    have grown := @Grown.map_append _ KeepsEntity
      (fun other => if other.id = row.id then { other with kind } else other)
      tables.entities.rows [] ?_
    · rwa [List.append_nil] at grown
    · intro other member
      split
      case isTrue same =>
        have one : other = row := @Table.row_unique _ _ _ tables.entities _ _ member stored
          (.id row.id) (by simp [entitySchema, same]) (by simp [entitySchema])
        refine ⟨kind, rfl, ?_⟩
        intro held
        rw [one] at held
        rw [Option.isNone_iff_eq_none.mp missing.2] at held
        cases held
      · exact .refl other
  · exact .refl platform env tables

/-- Resolving or creating an entity grows the entities. -/
theorem getOrCreateEntity_returned {name : String} {kind : Option String} {pending after : Pending}
    {ref : EntityRef}
    (returned : exec (getOrCreateEntity platform env name kind) pending = (.ok ref, after)) :
    Extends platform env pending.tables after.tables := by
  obtain ⟨normalised, _, rest⟩ := ofExcept_bind_returned returned
  rw [exec_bind_ok (exec_get pending)] at rest
  split at rest
  case h_1 row found =>
    obtain ⟨_, rest⟩ := throwIf_bind_returned rest
    cases rest
    exact extends_fillKind (Table.find_eq_some.mp found).1 kind
  case h_2 absent =>
    obtain ⟨ulid, middle, minted, rest⟩ := exec_bind_returned rest
    obtain ⟨_, same⟩ := mintRawUlid_returned minted
    split at rest
    · cases rest
    case h_2 entities inserted =>
      obtain ⟨_, _, rows⟩ := Table.insert_eq_ok.mp inserted
      cases rest
      refine .of_entities ?_
      rw [rows]
      exact .append KeepsEntity.refl _ _

/-- The test for a superseding row. -/
theorem supersededBy_iff {tables : Tables} {id : FactId} {admits : FactRow → Bool} :
    supersededBy tables id admits ↔
      ∃ newer ∈ tables.facts.rows, newer.supersedes = some id ∧ admits newer := by
  simp [supersededBy]

/-- The test for an open head is the log's notion of one. -/
theorem isOpenHead_iff {tables : Tables} {row : FactRow} (stored : row ∈ tables.facts.rows) :
    isOpenHead tables row ↔ (factLog platform).OpenHead tables.facts.rows row := by
  have superseded : supersededBy tables row.id (fun _ => true) ↔
      (factLog platform).Superseded tables.facts.rows row := by
    rw [supersededBy_iff]
    simp [RevisionLog.Superseded, factLog]
  rw [isOpenHead, Bool.and_eq_true, Bool.not_eq_true', ← Bool.not_eq_true, superseded]
  simp [RevisionLog.OpenHead, factLog, stored]

/-- A head that was found is an open head with its id. -/
theorem findOpenHead_some {tables : Tables} {subject : EntityId} {predicate : String}
    {object : ObjectColumns} {scope : Option String} {id : FactId}
    (found : findOpenHead tables subject predicate object scope = some id) :
    ∃ head, (factLog platform).OpenHead tables.facts.rows head ∧ head.id = id := by
  obtain ⟨head, search, rfl⟩ := Option.map_eq_some_iff.mp found
  have stored := List.mem_of_find?_eq_some search
  have holds := List.find?_some search
  simp only [Bool.and_eq_true] at holds
  exact ⟨head, (isOpenHead_iff stored).mp holds.2, rfl⟩

/-- Where no head was found, no open head states the triple. -/
theorem findOpenHead_none {tables : Tables} {subject : EntityId} {predicate : String}
    {object : ObjectColumns} {scope : Option String}
    (absent : findOpenHead tables subject predicate object scope = none) (head : FactRow)
    (heading : (factLog platform).OpenHead tables.facts.rows head) :
    factKey head ≠ (subject, predicate, object.id, object.value, scope) := by
  intro same
  have missing := List.find?_eq_none.mp (Option.map_eq_none_iff.mp absent) head heading.1
  simp only [factKey, Prod.mk.injEq] at same
  obtain ⟨rfl, rfl, sameId, sameValue, rfl⟩ := same
  simp [sameId, sameValue, (isOpenHead_iff heading.1).mpr heading] at missing

/-- A loaded fact is the parse of the row with its id. -/
theorem loadFact_some {tables : Tables} {id : FactId} {fact : Fact}
    (loaded : loadFact platform tables id = .ok (some fact)) :
    ∃ raw : RawFact, raw.row ∈ tables.facts.rows ∧ raw.row.id = id ∧
      raw.intoFact platform = .ok fact ∧ joinNames tables raw.row = some raw := by
  rcases selected : selectFacts platform tables (tables.facts.rows.filter fun row => row.id = id)
    with error | facts
  · rw [loadFact, selected] at loaded
    cases loaded
  · rw [loadFact, selected] at loaded
    have last : facts.getLast? = some fact := by simpa using loaded
    obtain ⟨raw, joined, parsed⟩ := exists_of_mem_mapM selected (List.mem_of_getLast? last)
    obtain ⟨row, kept, names⟩ := List.mem_filterMap.mp joined
    have join := names
    obtain ⟨_, _, rfl⟩ := Option.map_eq_some_iff.mp names
    obtain ⟨stored, same⟩ := List.mem_filter.mp kept
    exact ⟨_, stored, by simpa using same, parsed, join⟩

/-- What a parsed fact is made of: its object and its instants are read, and its other fields
are columns of the row. -/
structure RawFact.ParsesAs (platform : Platform) (raw : RawFact) (fact : Fact) : Prop where
  id : fact.id = raw.row.id
  subject : fact.subject = ⟨raw.row.subjectId, raw.subjectName⟩
  predicate : fact.predicate = raw.row.predicate
  object : raw.object = .ok fact.object
  validFrom : raw.row.validFrom.mapM (parsePoint platform) = .ok fact.validFrom
  validTo : raw.row.validTo.mapM (parsePoint platform) = .ok fact.validTo
  confidence : fact.confidence = raw.row.confidence.value
  sourceItemId : fact.sourceItemId = raw.row.sourceItemId
  scope : fact.scope = raw.row.scope
  supersedes : fact.supersedes = raw.row.supersedes
  recordedAt : parsePoint platform raw.row.recordedAt = .ok fact.recordedAt

/-- Every field of a parsed fact is accounted for. -/
theorem RawFact.parsesAs {raw : RawFact} {fact : Fact} (parsed : raw.intoFact platform = .ok fact) :
    raw.ParsesAs platform fact := by
  unfold RawFact.intoFact at parsed
  obtain ⟨object, resolved, parsed⟩ := except_bind_returned parsed
  obtain ⟨validFrom, start, parsed⟩ := except_bind_returned parsed
  obtain ⟨validTo, stop, parsed⟩ := except_bind_returned parsed
  obtain ⟨recordedAt, recorded, parsed⟩ := except_bind_returned parsed
  cases parsed
  exact ⟨rfl, rfl, rfl, resolved, start, stop, rfl, rfl, rfl, rfl, recorded⟩

/-- The columns of a parsed fact are those of its row; the window start is reread. -/
theorem intoFact_returned {raw : RawFact} {fact : Fact} (checked : factSchema.check raw.row)
    (parsed : raw.intoFact platform = .ok fact) :
    Reread platform raw.row.validFrom (fact.validFrom.map toSql) ∧
      { fact.toRow with
        validFrom := raw.row.validFrom
        validTo := raw.row.validTo
        recordedAt := raw.row.recordedAt } = raw.row := by
  have made := RawFact.parsesAs parsed
  refine ⟨⟨fact.validFrom, made.validFrom, rfl⟩, ?_⟩
  simp only [factSchema, Bool.and_eq_true] at checked
  rw [Fact.toRow, made.id, made.subject, made.predicate, made.confidence, made.sourceItemId,
    made.scope, made.supersedes]
  have resolved := made.object
  rcases raw with ⟨row, subjectName, objectName⟩
  rcases row with ⟨id, subjectId, predicate, objectId, objectValue⟩
  rcases objectId with _ | objectId <;> rcases objectValue with _ | objectValue
  · cases resolved
  · rw [← Except.ok.inj resolved]
    simp [ObjectColumns.of]
  · rw [← Except.ok.inj resolved]
    simp [ObjectColumns.of]
  · simp at checked

/-- The row of a fact recorded by a call. -/
theorem recorded_toRow {fact : Fact} (stamped : fact.recordedAt = env.now)
    (recent : 0 ≤ env.now.asMillisecond) : Recorded env fact.toRow := by
  refine ⟨congrArg toSql stamped, recent, ?_⟩
  intro text given
  obtain ⟨instant, _, rendered⟩ := Option.map_eq_some_iff.mp given
  exact ⟨instant, rendered.symm⟩

/-- Appending a fact of which no open head stands. -/
theorem appendFact_returned {subject : EntityRef} {predicate : String} {object : FactObject}
    {scope : Option String} {request : NewFact} {pending after : Pending} {fact : Fact}
    (absent : findOpenHead pending.tables subject.id predicate (.of object) scope = none)
    (returned : exec (appendFact env subject predicate object scope request) pending =
      (.ok fact, after)) : Extends platform env pending.tables after.tables := by
  obtain ⟨ulid, middle, minted, rest⟩ := exec_bind_returned returned
  obtain ⟨recent, same⟩ := mintRawUlid_returned minted
  obtain ⟨_, final, appended, rest⟩ := exec_bind_returned rest
  obtain ⟨facts, inserted, tables⟩ := insertFactRow_returned appended
  cases rest
  rw [same] at inserted tables
  rw [tables]
  exact .of_fact inserted (.opens rfl (findOpenHead_none absent)) (recorded_toRow rfl recent)

/-- Answering with a head changes nothing. -/
theorem answerWithHead_returned {id : FactId} {request : NewFact} {pending after : Pending}
    {fact : Fact}
    (returned : exec (answerWithHead platform id request) pending = (.ok fact, after)) :
    after = pending := by
  rw [answerWithHead, exec_bind_ok (exec_get pending)] at returned
  obtain ⟨loaded, _, rest⟩ := ofExcept_bind_returned returned
  rcases loaded with _ | head
  · cases rest
  · obtain ⟨_, rest⟩ := throwIf_bind_returned rest
    cases rest
    rfl

/-- Resolving the object of a submission grows the entities. -/
theorem resolveObject_returned {object : NewObject} {pending after : Pending}
    {resolved : FactObject}
    (returned : exec (resolveObject platform env object) pending = (.ok resolved, after)) :
    Extends platform env pending.tables after.tables := by
  cases object with
  | entity name kind =>
    obtain ⟨ref, created, _⟩ := map_returned returned
    exact getOrCreateEntity_returned created
  | value text =>
    obtain ⟨_, rest⟩ := throwIf_bind_returned returned
    cases rest
    exact .refl platform env _

/-- **Adding a fact** extends the tables. -/
theorem addFactInTx_returned {request : NewFact} {pending after : Pending} {fact : Fact}
    (returned : exec (addFactInTx platform env request) pending = (.ok fact, after)) :
    Extends platform env pending.tables after.tables := by
  obtain ⟨predicate, _, rest⟩ := ofExcept_bind_returned returned
  obtain ⟨_, _, rest⟩ := ofExcept_bind_returned rest
  obtain ⟨_, _, rest⟩ := ofExcept_bind_returned rest
  obtain ⟨scope, _, rest⟩ := ofExcept_bind_returned rest
  rw [exec_bind_ok (exec_get pending)] at rest
  obtain ⟨_, _, rest⟩ := ofExcept_bind_returned rest
  obtain ⟨subject, middle, created, rest⟩ := exec_bind_returned rest
  obtain ⟨object, final, resolved, rest⟩ := exec_bind_returned rest
  have grown := (getOrCreateEntity_returned created).trans (resolveObject_returned resolved)
  rw [exec_bind_ok (exec_get final)] at rest
  split at rest
  case h_1 head found =>
    rw [answerWithHead_returned rest]
    exact grown
  case h_2 absent => exact grown.trans (appendFact_returned absent rest)

/-- Ending a head appends a closing revision of it. -/
theorem closeHead_returned {ending : Timestamp} {raw : RawFact} {head closed : Fact}
    {pending after : Pending}
    (heading : (factLog platform).OpenHead pending.tables.facts.rows raw.row)
    (parsed : raw.intoFact platform = .ok head)
    (returned : exec (closeHead platform env ending head) pending = (.ok closed, after)) :
    Extends platform env pending.tables after.tables := by
  obtain ⟨_, rest⟩ := throwIf_bind_returned returned
  obtain ⟨ulid, middle, minted, rest⟩ := exec_bind_returned rest
  obtain ⟨recent, same⟩ := mintRawUlid_returned minted
  obtain ⟨_, final, appended, rest⟩ := exec_bind_returned rest
  obtain ⟨facts, inserted, tables⟩ := insertFactRow_returned appended
  cases rest
  rw [same] at inserted tables
  rw [tables]
  obtain ⟨reread, copied⟩ := intoFact_returned (pending.tables.facts.checked _ heading.1) parsed
  have points : head.id = raw.row.id := congrArg FactRow.id copied
  refine .of_fact inserted (.ends heading (congrArg some points) rfl ⟨reread, ?_⟩)
    (recorded_toRow rfl recent)
  calc
    _ = { head.toRow with
          validFrom := raw.row.validFrom
          validTo := raw.row.validTo
          recordedAt := raw.row.recordedAt } := by
      simp only [Fact.toRow, FactRow.mk.injEq, and_true, true_and]
      exact ⟨points.symm, (congrArg FactRow.supersedes copied).symm⟩
    _ = raw.row := copied

/-- Looking an entity up changes nothing. -/
theorem findEntity_returned {name : String} {pending after : Pending} {found : Option EntityRef}
    (returned : exec (findEntity platform name) pending = (.ok found, after)) : after = pending := by
  obtain ⟨_, _, rest⟩ := ofExcept_bind_returned returned
  rw [exec_bind_ok (exec_get pending)] at rest
  cases rest
  rfl

/-- Looking an object up changes nothing. -/
theorem lookupObject_returned {object : NewObject} {pending after : Pending}
    {columns : Option ObjectColumns}
    (returned : exec (lookupObject platform object) pending = (.ok columns, after)) :
    after = pending := by
  cases object with
  | entity name kind =>
    obtain ⟨found, middle, looked, rest⟩ := exec_bind_returned returned
    cases rest
    exact findEntity_returned looked
  | value text =>
    cases returned
    rfl

/-- **Ending a fact** extends the tables. -/
theorem invalidateInTx_returned {ending : Timestamp} {triple : TripleRef} {pending after : Pending}
    {closed : Fact}
    (returned : exec (invalidateInTx platform env ending triple) pending = (.ok closed, after)) :
    Extends platform env pending.tables after.tables := by
  obtain ⟨predicate, _, rest⟩ := ofExcept_bind_returned returned
  obtain ⟨scope, _, rest⟩ := ofExcept_bind_returned rest
  obtain ⟨subject, middle, looked, rest⟩ := exec_bind_returned rest
  rw [findEntity_returned looked] at rest
  rcases subject with _ | subject
  · cases rest
  obtain ⟨object, final, looked, rest⟩ := exec_bind_returned rest
  rw [lookupObject_returned looked] at rest
  rcases object with _ | object
  · cases rest
  change exec (get >>= _) pending = _ at rest
  rw [exec_bind_ok (exec_get pending)] at rest
  split at rest
  · cases rest
  case h_2 headId found =>
    obtain ⟨loaded, read, rest⟩ := ofExcept_bind_returned rest
    rcases loaded with _ | head
    · cases rest
    · obtain ⟨row, heading, rfl⟩ := @findOpenHead_some platform _ _ _ _ _ _ found
      obtain ⟨raw, stored, same, parsed, _⟩ := loadFact_some read
      obtain rfl : raw.row = row := @Table.row_unique _ _ _ _ _ _ stored heading.1 row.id
        (List.mem_singleton.mpr same.symm) (List.mem_singleton_self _)
      exact closeHead_returned heading parsed rest

section Throwing

variable {tables : Tables}

/-- The tables of a transaction are these. -/
abbrev Holding (tables : Tables) (pending : Pending) : Prop := pending.tables = tables

theorem mintRawUlid_keeps : Preserves (Holding tables) (mintRawUlid env) := by
  refine .bind (.throwIf _ _) fun _ => .get_bind ?_
  intro pending held
  exact held

theorem findEntity_keeps (name : String) : Preserves (Holding tables) (findEntity platform name) :=
  .bind (.ofExcept _) fun _ => .bind .get fun _ => .pure _

theorem lookupObject_keeps (object : NewObject) :
    Preserves (Holding tables) (lookupObject platform object) := by
  cases object with
  | entity name kind => exact .bind (findEntity_keeps name) fun _ => .pure _
  | value text => exact .pure _

/-- A refused revision leaves the tables alone. -/
theorem insertFactRow_throwing (fact : Fact) :
    PreservesOnThrow (Holding tables) (insertFactRow fact) := by
  refine .get_bind fun pending => ?_
  split
  · exact .of_preserves (.throw _)
  · refine .bind (.throwIf _ _) fun _ => ?_
    intro state error after _ threw
    cases threw

theorem closeHead_throwing (ending : Timestamp) (head : Fact) :
    PreservesOnThrow (Holding tables) (closeHead platform env ending head) := by
  refine .bind (.throwIf _ _) fun _ => .bind mintRawUlid_keeps fun ulid => ?_
  intro state error after held threw
  rw [exec_bind] at threw
  rcases inserted : exec (insertFactRow { head with
    id := ⟨ulid⟩, validTo := some ending, supersedes := some head.id, recordedAt := env.now }) state
    with ⟨failure | value, final⟩
  · rw [inserted] at threw
    cases threw
    exact insertFactRow_throwing _ state _ _ held inserted
  · rw [inserted] at threw
    cases threw

/-- An invalidation that fails leaves the tables alone. -/
theorem invalidateInTx_throwing (ending : Timestamp) (triple : TripleRef) :
    PreservesOnThrow (Holding tables) (invalidateInTx platform env ending triple) := by
  refine .bind (.ofExcept _) fun predicate => .bind (.ofExcept _) fun scope =>
    .bind (findEntity_keeps _) fun subject => ?_
  rcases subject with _ | subject
  · exact .of_preserves (.throw _)
  refine .bind (lookupObject_keeps _) fun object => ?_
  rcases object with _ | object
  · exact .of_preserves (.throw _)
  refine .get_bind fun pending => ?_
  split
  · exact .of_preserves (.throw _)
  · refine .bind (.ofExcept _) fun loaded => ?_
    rcases loaded with _ | head
    · exact .of_preserves (.throw _)
    · exact closeHead_throwing ending head

end Throwing

/-- **Ending the old fact of a replacement** extends the tables, also when there was
none. -/
theorem closeOld_returned {ending : Timestamp} {triple : TripleRef} {pending after : Pending}
    {closed : Option Fact}
    (returned : exec (closeOld platform env ending triple) pending = (.ok closed, after)) :
    Extends platform env pending.tables after.tables := by
  rcases tryCatch_returned returned with ended | ⟨error, middle, threw, handled⟩
  · obtain ⟨fact, invalidated, _⟩ := map_returned ended
    exact invalidateInTx_returned invalidated
  · have kept : middle.tables = pending.tables :=
      invalidateInTx_throwing ending triple pending error middle rfl (map_threw threw)
    rw [exec_ofExcept] at handled
    have same : middle = after := congrArg Prod.snd handled
    rw [← same, kept]
    exact .refl platform env _

/-- **Replacing a fact** extends the tables. -/
theorem supersedeInTx_returned {ending : Timestamp} {triple : TripleRef} {new : NewObject}
    {pending after : Pending} {result : Option Fact × Fact}
    (returned : exec (supersedeInTx platform env ending triple new) pending = (.ok result, after)) :
    Extends platform env pending.tables after.tables := by
  obtain ⟨closed, middle, ended, rest⟩ := exec_bind_returned returned
  obtain ⟨replacement, final, opened, rest⟩ := exec_bind_returned rest
  cases rest
  refine (closeOld_returned ended).trans ?_
  rcases tryCatch_returned opened with added | ⟨error, last, _, handled⟩
  · exact addFactInTx_returned added
  · cases handled

variable (platform)

/-- A call that writes facts, with its arguments. -/
inductive GraphCall
  | add (request : NewFact)
  | invalidate (triple : TripleRef) (ending : Option Timestamp)
  | supersede (triple : TripleRef) (new : NewObject) (ending : Option Timestamp)

/-- Make a call; its result is dropped. -/
def GraphCall.perform (env : Env) : GraphCall → StoreCall PUnit
  | .add request => (fun _ => ⟨⟩) <$> addFact platform env request
  | .invalidate triple ending => (fun _ => ⟨⟩) <$> invalidateFact platform env triple ending
  | .supersede triple new ending => (fun _ => ⟨⟩) <$> supersedeFact platform env triple new ending

/-- The store after a sequence of calls, each with its clock reading and draws. -/
def runCalls (calls : List (Env × GraphCall)) (store : Store) : Store :=
  calls.foldl (fun store call => (exec (call.2.perform platform call.1) store).2) store

variable {platform}

/-- A transaction that extends the tables makes a call that does. -/
theorem extends_of_writing {α : Type} {operation committing : String} {body : Tx α}
    {store after : Store} {value : α}
    (extends_ : ∀ pending, exec body ⟨store.database.tables, 0⟩ = (.ok value, pending) →
      Extends platform env store.database.tables pending.tables)
    (returned : exec (writing operation committing body) store = (.ok value, after)) :
    Extends platform env store.database.tables after.database.tables := by
  obtain ⟨_, _, pending, ran, tables⟩ := writing_returned returned
  rw [tables]
  exact extends_ pending ran

/-- **A call that returned** extends the tables. -/
theorem perform_returned {call : GraphCall} {store after : Store} {value : PUnit}
    (returned : exec (call.perform platform env) store = (.ok value, after)) :
    Extends platform env store.database.tables after.database.tables := by
  cases call with
  | add request =>
    obtain ⟨_, added, _⟩ := map_returned returned
    exact extends_of_writing (fun _ ran => addFactInTx_returned ran) added
  | invalidate triple ending =>
    obtain ⟨_, ended, _⟩ := map_returned returned
    exact extends_of_writing (fun _ ran => invalidateInTx_returned ran) ended
  | supersede triple new ending =>
    obtain ⟨_, replaced, _⟩ := map_returned returned
    exact extends_of_writing (fun _ ran => supersedeInTx_returned ran) replaced

/-- **A call that failed** leaves the store as it was. -/
theorem perform_threw {call : GraphCall} {store after : Store} {error : Error}
    (threw : exec (call.perform platform env) store = (.error error, after)) : after = store := by
  cases call with
  | add request => exact writing_error (map_threw threw)
  | invalidate triple ending => exact writing_error (map_threw threw)
  | supersede triple new ending => exact writing_error (map_threw threw)

/-- Every call extends the tables. -/
theorem perform_extends (platform : Platform) (env : Env) (call : GraphCall) (store : Store) :
    Extends platform env store.database.tables
      (exec (call.perform platform env) store).2.database.tables := by
  rcases outcome : exec (call.perform platform env) store with ⟨error | value, after⟩
  · rw [perform_threw outcome]
    exact .refl platform env _
  · exact perform_returned outcome

/-- One more call. -/
theorem runCalls_snoc (calls : List (Env × GraphCall)) (call : Env × GraphCall) (store : Store) :
    runCalls platform (calls ++ [call]) store =
      (exec (call.2.perform platform call.1) (runCalls platform calls store)).2 := by
  rw [runCalls, List.foldl_append]
  rfl

/-- Calls keep every entity. -/
theorem runCalls_grown (platform : Platform) (calls : List (Env × GraphCall)) (store : Store) :
    Grown KeepsEntity store.database.tables.entities.rows
      (runCalls platform calls store).database.tables.entities.rows := by
  induction calls using List.reverseRecOn with
  | nil => exact .refl KeepsEntity.refl _
  | append_singleton calls call inductionHypothesis =>
    rw [runCalls_snoc]
    exact inductionHypothesis.trans KeepsEntity.trans
      (perform_extends platform call.1 call.2 (runCalls platform calls store)).entities

/-- No two entities share a normalised name. -/
theorem normalisedNames_nodup (tables : Tables) :
    (tables.entities.rows.map EntityRow.normalisedName).Nodup := by
  have distinct := @Table.nodup_filterMap _ _ _ tables.entities _
    (fun row => some row.normalisedName) EntityKey.normalisedName ?_
  · rwa [List.filterMap_eq_map'] at distinct
  · rintro row given ⟨⟩
    simp [entitySchema]

/-- **Fact writes are atomic and append-only.** A call that fails leaves the store as it
was; one that returns appends facts and keeps every entity but for a missing kind. After
any calls normalised names are unique, and an entity has its name, and a kind it had. -/
theorem fact_writes_are_atomic (platform : Platform) (store : Store) :
    (∀ (env : Env) (call : GraphCall),
      match exec (call.perform platform env) store with
      | (.error _, after) => after = store
      | (.ok _, after) =>
        (∃ added, after.database.tables.facts.rows = store.database.tables.facts.rows ++ added) ∧
          Grown KeepsEntity store.database.tables.entities.rows
            after.database.tables.entities.rows) ∧
    ∀ calls : List (Env × GraphCall),
      ((runCalls platform calls store).database.tables.entities.rows.map
        EntityRow.normalisedName).Nodup ∧
      ∀ row ∈ store.database.tables.entities.rows,
        ∃ became ∈ (runCalls platform calls store).database.tables.entities.rows,
          became.id = row.id ∧ became.name = row.name ∧
            became.normalisedName = row.normalisedName ∧ became.createdAt = row.createdAt ∧
              (row.kind.isSome → became.kind = row.kind) := by
  refine ⟨?_, ?_⟩
  · intro env call
    rcases outcome : exec (call.perform platform env) store with ⟨error | value, after⟩
    · exact perform_threw outcome
    · have extended := perform_returned outcome
      obtain ⟨added, rows, _⟩ := extended.facts.appended
      exact ⟨⟨added, rows⟩, extended.entities⟩
  · intro calls
    refine ⟨normalisedNames_nodup _, ?_⟩
    intro row member
    obtain ⟨became, becameIn, kind, rfl, kept⟩ := (runCalls_grown platform calls store).mem member
    exact ⟨_, becameIn, rfl, rfl, rfl, rfl, kept⟩

end Singularmem.Graph
