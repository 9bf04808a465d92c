import Singularmem.Core.Constraints
import Singularmem.Core.EarlyYears
import Singularmem.Graph.Write

/-!
# Submitted facts and the checks of the tables

A fact that passes the checks of `addFact` passes those of `entities` and `facts` unless a
name, once trimmed, starts with a NUL, or the window lies before year 0 and spans years:
there the order of the stored texts goes against time.
-/

namespace Singularmem.Graph

open Library Singularmem.Core
open Effect hiding ofExcept

variable {platform : Platform} {env : Env}

/-- What `addFact` checks of a request before it writes. -/
structure Accepts (platform : Platform) (tables : Tables) (request : NewFact) : Prop where
  predicate : ∃ name, Normalise.predicate platform request.predicate = .ok name
  confidence : validateConfidence platform request.confidence = .ok ⟨⟩
  window : validateWindow platform request.validFrom request.validTo = .ok ⟨⟩
  scope : ∃ scope, request.scope.mapM (Scope.validate platform) = .ok scope
  source : checkSourceItem tables request.sourceItemId = .ok ⟨⟩
  subject : ∃ name, Normalise.entityName platform request.subject = .ok name
  objectName : ∀ name kind, request.object = .entity name kind →
    ∃ normalised, Normalise.entityName platform name = .ok normalised
  objectValue : ∀ text, request.object = .value text → trim text ≠ ""

/-- The rows that are written for a request pass the checks of their tables. -/
structure RowsPass (request : NewFact) : Prop where
  subject : ∀ id normalised kind createdAt,
    entitySchema.check ⟨id, trim request.subject, normalised, kind, createdAt⟩
  object : ∀ name kind, request.object = .entity name kind → ∀ id normalised held createdAt,
    entitySchema.check ⟨id, trim name, normalised, held, createdAt⟩
  fact : ∀ fact : Fact, fact.validFrom = request.validFrom → fact.validTo = request.validTo →
    fact.confidence = request.confidence → factSchema.check fact.toRow

/-- The database takes a request: no trimmed name starts with a NUL, and a window with two
ends ends at year 0 or later, or in the year it starts. -/
structure Storable (request : NewFact) : Prop where
  subject : Visible (trim request.subject)
  object : ∀ name kind, request.object = .entity name kind → Visible (trim name)
  window : ∀ start stop, request.validFrom = some start → request.validTo = some stop →
    stop.Unsigned ∨ start.year = stop.year

/-- A number in the unit interval stays there in its column. -/
theorem real_inUnit {confidence : Confidence} (within : confidence.inUnit) :
    confidence.real.value.inUnit := by
  rw [Confidence.real]
  split
  · rfl
  · exact within

/-- An accepted confidence lies in the unit interval. -/
theorem validateConfidence_ok {confidence : Confidence}
    (accepted : validateConfidence platform confidence = .ok ⟨⟩) : confidence.inUnit := by
  by_contra outside
  rw [validateConfidence, if_neg outside] at accepted
  cases accepted

/-- An accepted window is in order. -/
theorem validateWindow_ok {start stop : Timestamp}
    (accepted : validateWindow platform (some start) (some stop) = .ok ⟨⟩) : start ≤ stop := by
  rw [validateWindow] at accepted
  split at accepted
  case isTrue => cases accepted
  case isFalse ordered => exact Int.not_lt.mp ordered

/-- **The check of a fact** is that of its window, where the confidence was accepted. -/
theorem check_toRow {fact : Fact} (confidence : fact.confidence.inUnit) :
    factSchema.check fact.toRow =
      windowOrdered (fact.validFrom.map toSql) (fact.validTo.map toSql) := by
  have object : ((ObjectColumns.of fact.object).id.isNone !=
      (ObjectColumns.of fact.object).value.isNone) = true := by
    cases fact.object <;> rfl
  simp only [factSchema, Fact.toRow, object, real_inUnit confidence, Bool.true_and]

/-- **The texts of an accepted window are in order** where it does not span years before
year 0. -/
theorem windowOrdered_iff {validFrom validTo : Option Timestamp}
    (accepted : validateWindow platform validFrom validTo = .ok ⟨⟩) :
    windowOrdered (validFrom.map toSql) (validTo.map toSql) ↔
      ∀ start stop, validFrom = some start → validTo = some stop →
        stop.Unsigned ∨ start.year = stop.year := by
  cases validFrom with
  | none => simp [windowOrdered]
  | some start =>
    cases validTo with
    | none => simp [windowOrdered]
    | some stop =>
      have texts := Timestamp.toSql_le_iff (validateWindow_ok accepted)
      simp only [Option.map_some, windowOrdered, decide_eq_true_iff, texts]
      constructor
      · rintro ordered _ _ ⟨⟩ ⟨⟩
        exact ordered
      · intro each
        exact each start stop rfl rfl

/-- The check of `entities` is that a character of the name is seen. -/
theorem check_entity {id : EntityId} {name normalised createdAt : String}
    {kind : Option String} :
    entitySchema.check ⟨id, name, normalised, kind, createdAt⟩ ↔ Visible name := by
  simp only [entitySchema, decide_eq_true_iff, sqlLength_pos]

/-- **Which accepted requests pass the checks.** -/
theorem rowsPass_iff {tables : Tables} {request : NewFact}
    (accepted : Accepts platform tables request) : RowsPass request ↔ Storable request := by
  have within := validateConfidence_ok accepted.confidence
  have window := windowOrdered_iff accepted.window
  constructor
  · rintro ⟨subject, object, fact⟩
    refine ⟨check_entity.mp (subject default "" none ""), fun name kind given =>
      check_entity.mp (object name kind given default "" none ""), window.mp ?_⟩
    have row := fact ⟨default, ⟨default, ""⟩, "", .value "", request.validFrom, request.validTo,
      request.confidence, none, none, none, .epoch⟩ rfl rfl rfl
    rwa [check_toRow within] at row
  · rintro ⟨subject, object, years⟩
    refine ⟨fun _ _ _ _ => check_entity.mpr subject, fun name kind given _ _ _ _ =>
      check_entity.mpr (object name kind given), fun fact validFrom validTo confidence => ?_⟩
    rw [check_toRow (confidence ▸ within), validFrom, validTo]
    exact window.mpr years

section Calls

/-- Normalising a name rejects it, if anything. -/
theorem entityName_rejecting (name : String) : Rejecting (Normalise.entityName platform name) := by
  rw [Normalise.entityName]
  exact .ite (.error _ _) (.ite (.error _ _) (.ok _))

/-- So does normalising a predicate. -/
theorem predicate_rejecting (name : String) : Rejecting (Normalise.predicate platform name) := by
  rw [Normalise.predicate]
  exact .ite (.error _ _) (.ite (.error _ _) (.ite (.error _ _) (.ok _)))

/-- Parsing a stored time rejects it, if anything. -/
theorem parsePoint_rejecting (text : String) : Rejecting (parsePoint platform text) := by
  rw [parsePoint]
  split
  · exact .ok _
  · split
    · exact .ok _
    · exact .error _ _
    · exact .error _ _

/-- So does loading a fact. -/
theorem loadFact_rejecting (tables : Tables) (id : FactId) :
    Rejecting (loadFact platform tables id) := by
  refine .bind (.mapM fun raw => .bind ?_ fun _ => .bind (.option _ parsePoint_rejecting)
    fun _ => .bind (.option _ parsePoint_rejecting) fun _ =>
      .bind (parsePoint_rejecting _) fun _ => .ok _) fun _ => .ok _
  rw [RawFact.object]
  split
  · exact .ok _
  · exact .ok _
  · exact .error _ _

/-- An entity whose name is seen is refused for another reason than the check. -/
theorem getOrCreateEntity_noCheck {name : String} (seen : Visible (trim name))
    (kind : Option String) :
    ThrowsOnly Error.NoCheck (getOrCreateEntity platform env name kind) := by
  refine .ofExcept_bind (entityName_rejecting name).noCheck fun normalised _ =>
    .get_bind fun pending error after threw => ?_
  split at threw
  case h_1 row _ =>
    have rest : ThrowsOnly Error.NoCheck (do
        throwIf (kindConflicts kind row.kind) (.validation "kind"
          ("entity " ++ platform.debug row.name ++ " already has kind " ++
            platform.debug (row.kind.getD "")))
        setTables (fillKind pending.tables row kind)
        return (⟨row.id, row.name⟩ : EntityRef)) := by
      refine .bind (.throwIf fun _ => ?_) fun _ => .bind ?_ fun _ => .pure _
      · rintro context table ⟨⟩
      · rintro state error final ⟨⟩
    exact rest _ _ _ threw
  case h_2 =>
    refine ThrowsOnly.bind mintRawUlid_noCheck (fun ulid => ?_) _ _ _ threw
    intro state failure final refused
    split at refused
    case h_1 violation inserted =>
      cases refused
      obtain ⟨key, rfl⟩ := insert_refused (check_entity.mpr seen) inserted
      cases key <;> rintro context table ⟨⟩
    case h_2 => cases refused

/-- So is an object. -/
theorem resolveObject_noCheck {object : NewObject}
    (seen : ∀ name kind, object = .entity name kind → Visible (trim name)) :
    ThrowsOnly Error.NoCheck (resolveObject platform env object) := by
  cases object with
  | entity name kind =>
    intro state error after threw
    rw [resolveObject] at threw
    exact getOrCreateEntity_noCheck (seen name kind rfl) _ _ _ _ (map_threw threw)
  | value text =>
    refine .bind (.throwIf fun _ => ?_) fun _ => .pure _
    rintro context table ⟨⟩

/-- An open head answers or rejects. -/
theorem answerWithHead_noCheck (head : FactId) (request : NewFact) :
    ThrowsOnly Error.NoCheck (answerWithHead platform head request) := by
  refine .get_bind fun pending error after threw => ?_
  refine ThrowsOnly.bind (.ofExcept (loadFact_rejecting pending.tables head).noCheck)
    (fun loaded => ?_) _ _ _ threw
  cases loaded with
  | none =>
    refine .throw ?_
    rintro context table ⟨⟩
  | some fact =>
    refine .bind (.throwIf fun _ => ?_) fun _ => .pure _
    rintro context table ⟨⟩

/-- A row that passes the check is refused for a key or a missing entity. -/
theorem insertFactRow_noCheck {fact : Fact} (check : factSchema.check fact.toRow) :
    ThrowsOnly Error.NoCheck (insertFactRow fact) := by
  refine .get_bind fun pending error after threw => ?_
  split at threw
  case h_1 violation refused =>
    cases threw
    obtain ⟨key, rfl⟩ := insert_refused check refused
    rintro context table ⟨⟩
  case h_2 facts _ =>
    refine ThrowsOnly.bind (.throwIf fun _ => ?_) (fun _ => ?_) _ _ _ threw
    · rintro context table ⟨⟩
    · rintro state failure final ⟨⟩

/-- **No storable fact fails on a check.** -/
theorem addFact_noCheck {request : NewFact} (storable : Storable request) :
    ThrowsOnly Error.NoCheck (addFact platform env request) := by
  have confidences : Rejecting (validateConfidence platform request.confidence) :=
    .ite (.ok _) (.error _ _)
  have windows : Rejecting (validateWindow platform request.validFrom request.validTo) := by
    cases request.validFrom with
    | none => exact .ok _
    | some start =>
      cases request.validTo with
      | none => exact .ok _
      | some stop => exact .ite (.error _ _) (.ok _)
  have sources : ∀ tables, Rejecting (checkSourceItem tables request.sourceItemId) := by
    intro tables
    cases request.sourceItemId with
    | none => exact .ok _
    | some source => exact .ite (.ok _) (.error _ _)
  refine writing_noCheck (.ofExcept_bind (predicate_rejecting _).noCheck fun predicate _ =>
    .ofExcept_bind confidences.noCheck fun _ confidence =>
      .ofExcept_bind windows.noCheck fun _ window =>
        .ofExcept_bind (Rejecting.option _ Scope.validate_rejecting).noCheck fun scope _ =>
          .get_bind fun before error after threw => ?_)
  have check : ∀ fact : Fact, fact.validFrom = request.validFrom →
      fact.validTo = request.validTo → fact.confidence = request.confidence →
      factSchema.check fact.toRow := by
    intro fact validFrom validTo same
    rw [check_toRow (same ▸ validateConfidence_ok confidence), validFrom, validTo]
    exact (windowOrdered_iff window).mpr storable.window
  refine ThrowsOnly.bind (.ofExcept (sources before.tables).noCheck) (fun _ =>
    .bind (getOrCreateEntity_noCheck storable.subject _) fun subject =>
      .bind (resolveObject_noCheck storable.object) fun object =>
        .get_bind fun pending failure final refused => ?_) _ _ _ threw
  split at refused
  case h_1 head _ => exact answerWithHead_noCheck head request _ _ _ refused
  case h_2 =>
    exact ThrowsOnly.bind mintRawUlid_noCheck (fun ulid =>
      .bind (insertFactRow_noCheck (check _ rfl rfl rfl)) fun _ => .pure _) _ _ _ refused

end Calls

/-- The rows that are written for a submission pass the checks of their tables. -/
def ItemRowsPass (platform : Platform) (env : Env) (id : ItemId) (item : NewItem)
    (validated : Validated) : Prop :=
  itemSchema.check (itemRowOf platform env id item validated.scope) ∧
    ∀ tag ∈ validated.tags, tagSchema.check ⟨id, tag⟩

/-- **Validation and the checks of the tables.** An accepted submission and an accepted
request pass the checks exactly where the database takes them, and then no write fails on
a check. -/
theorem validation_implies_checks_iff (platform : Platform) (env : Env) :
    (∀ item validated id, validate platform item = .ok validated →
      (ItemRowsPass platform env id item validated ↔ item.Storable)) ∧
    (∀ tables request, Accepts platform tables request →
      (RowsPass request ↔ Storable request)) ∧
    (∀ item : NewItem, item.Storable → ThrowsOnly Error.NoCheck (ingest platform env item) ∧
      ∀ replaces, ThrowsOnly Error.NoCheck (ingestReplacing platform env item replaces)) ∧
    (∀ items : List NewItem, (∀ item ∈ items, item.Storable) →
      ThrowsOnly Error.NoCheck (ingestMany platform env items)) ∧
    ∀ request, Storable request → ThrowsOnly Error.NoCheck (addFact platform env request) := by
  refine ⟨fun item validated id accepted => ?_, fun tables request accepted =>
    rowsPass_iff accepted, fun item storable => ⟨ingest_noCheck storable,
      ingestReplacing_noCheck storable⟩, fun items storable => ingestMany_noCheck storable,
    fun request storable => addFact_noCheck storable⟩
  have same : itemSchema.check (itemRowOf platform env id item validated.scope) ↔
      item.passesCheck := Iff.rfl
  rw [ItemRowsPass, same, passesCheck_iff accepted]
  exact and_iff_left fun _ _ => rfl

/-- A fact about a city. -/
def cityFact : NewFact :=
  ⟨"Rome", none, "lies in", .entity "Italy" (some "country"), some .epoch, none, .one, none, none⟩

/-- A note and a fact about a city pass the checks, and no write of them fails on one. -/
theorem note_and_city_pass_checks :
    ItemRowsPass .ascii ⟨.epoch, id⟩ ⟨0⟩ ⟨"note", none, ["b", "a"], none, .object [], none, none⟩
      ⟨["a", "b"], none⟩ ∧
    RowsPass cityFact ∧
    ThrowsOnly Error.NoCheck (ingest .ascii ⟨.epoch, id⟩
      ⟨"note", none, ["b", "a"], none, .object [], none, none⟩) ∧
    ThrowsOnly Error.NoCheck (addFact .ascii ⟨.epoch, id⟩ cityFact) := by
  obtain ⟨items, facts, ingests, -, adds⟩ := validation_implies_checks_iff .ascii ⟨.epoch, id⟩
  have storable : NewItem.Storable ⟨"note", none, ["b", "a"], none, .object [], none, none⟩ :=
    ⟨by decide +kernel, by decide +kernel⟩
  have accepted : validate .ascii ⟨"note", none, ["b", "a"], none, .object [], none, none⟩ =
      .ok ⟨["a", "b"], none⟩ := rfl
  have city : Storable cityFact := by
    refine ⟨⟨'R', by decide +kernel, by decide⟩, ?_, ?_⟩
    · rintro _ _ ⟨⟩
      exact ⟨'I', by decide +kernel, by decide⟩
    · rintro _ _ ⟨⟩ ⟨⟩
  have cityAccepted : Accepts .ascii Database.fresh.tables cityFact := by
    refine ⟨⟨"lies_in", by decide +kernel⟩, rfl, rfl, ⟨none, rfl⟩, rfl,
      ⟨"rome", by decide +kernel⟩, ?_, ?_⟩
    · rintro _ _ ⟨⟩
      exact ⟨"italy", by decide +kernel⟩
    · rintro _ ⟨⟩
  exact ⟨(items _ _ _ accepted).mpr storable, (facts _ _ cityAccepted).mpr city,
    (ingests _ storable).1, adds _ city⟩

/-- A request whose window runs from year -5 to year -4. -/
def earlyWindow : NewFact :=
  ⟨"rome", none, "ruled", .value "italy", some ⟨-62325000000000000000, by decide⟩,
    some ⟨-62293000000000000000, by decide⟩, .one, none, none⟩

/-- Content that starts with a NUL, a name that does, and a window in early years: each is
accepted and then fails on a check. -/
theorem accepted_and_refused :
    (validate .ascii ⟨String.ofList [Char.ofNat 0], none, [], none, .object [], none,
      none⟩).toOption.isSome ∧
    (exec (ingest .ascii ⟨.epoch, id⟩ ⟨String.ofList [Char.ofNat 0], none, [], none, .object [],
      none, none⟩) ⟨false, .fresh⟩).1.map (fun _ => ()) =
        .error (.sqlite "inserting item row" (.check "items")) ∧
    (exec (addFact .ascii ⟨.epoch, id⟩ { earlyWindow with
      subject := String.ofList [Char.ofNat 0] }) ⟨false, .fresh⟩).1 =
        .error (.sqlite "inserting entity" (.check "entities")) ∧
    (exec (addFact .ascii ⟨.epoch, id⟩ earlyWindow) ⟨false, .fresh⟩).1 =
        .error (.sqlite "inserting fact revision" (.check "facts")) := by
  decide +kernel

end Singularmem.Graph
