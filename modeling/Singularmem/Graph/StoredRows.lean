import Singularmem.Core.StoredScopes
import Singularmem.Graph.Outcomes

/-!
# What every stored fact keeps

A call appends first revisions of what was asked for, and closing revisions of stored rows.
So what both have, every row of a reachable store has: its instants lie in year 0 or later
where those of the calls do, its scope is not empty, and one open head at most answers a
lookup.
-/

namespace Singularmem.Graph

open Library Singularmem.Core
open Effect hiding ofExcept

variable {platform : Platform} {env : Env}

/-- The facts a call asks to open. -/
def GraphCall.Opens (env : Env) (request : NewFact) : GraphCall → Prop
  | .add asked => request = asked
  | .invalidate .. => False
  | .supersede triple new ending => request = replacementOf triple new (ending.getD env.now)

/-- The instant at which a call ends facts. -/
def GraphCall.Ends (env : Env) (instant : Timestamp) : GraphCall → Prop
  | .add _ => False
  | .invalidate _ ending | .supersede _ _ ending => instant = ending.getD env.now

/-- What first revisions and closing revisions of a call have. -/
structure Kept (platform : Platform) (env : Env) (opens : NewFact → Prop)
    (ends : Timestamp → Prop) (holds : FactRow → Prop) : Prop where
  opened : ∀ request, opens request → ∀ ulid subject predicate object scope,
    Normalise.predicate platform request.predicate = .ok predicate →
    request.scope.mapM (Scope.validate platform) = .ok scope → 0 ≤ env.now.asMillisecond →
      holds (firstRevision env ulid subject predicate object scope request).toRow
  closed : ∀ ending, ends ending → ∀ (raw : RawFact) (head : Fact) (ulid : Ulid), holds raw.row →
    raw.intoFact platform = .ok head → 0 ≤ env.now.asMillisecond →
      holds (closingRevision env ulid ending head).toRow

section Rows

variable {opens : NewFact → Prop} {ends : Timestamp → Prop} {holds : FactRow → Prop}
  {pending after : Pending}

/-- Adding a fact keeps what first revisions have. -/
theorem Kept.addFactInTx (kept : Kept platform env opens ends holds) {request : NewFact}
    (asked : opens request) {fact : Fact}
    (returned : exec (addFactInTx platform env request) pending = (.ok fact, after))
    (all : ∀ row ∈ pending.tables.facts.rows, holds row) :
    ∀ row ∈ after.tables.facts.rows, holds row := by
  obtain ⟨subject, predicate, object, scope, addresses, -, -, -, answer⟩ :=
    addFactInTx_outcome returned
  cases answer with
  | stands _ _ _ facts =>
    rw [facts]
    exact all
  | appended _ recent first inserted =>
    obtain ⟨_, _, rows⟩ := Table.insert_eq_ok.mp inserted
    rw [rows]
    intro row member
    rcases List.mem_append.mp member with earlier | last
    · exact all row earlier
    · rw [List.mem_singleton.mp last, first]
      exact kept.opened request asked _ _ _ _ _ addresses.predicate addresses.scope recent

/-- Ending a fact keeps what closing revisions have. -/
theorem Kept.invalidateInTx (kept : Kept platform env opens ends holds) {ending : Timestamp}
    (asked : ends ending) {triple : TripleRef} {closed : Fact}
    (returned : exec (invalidateInTx platform env ending triple) pending = (.ok closed, after))
    (all : ∀ row ∈ pending.tables.facts.rows, holds row) :
    ∀ row ∈ after.tables.facts.rows, holds row := by
  obtain ⟨_, _, _, _, _, head, ulid, facts, -, -, loaded, -, recent, rfl, inserted, tables⟩ :=
    invalidateInTx_outcome returned
  obtain ⟨raw, stored, _, parsed, _⟩ := loadFact_some loaded
  obtain ⟨_, _, rows⟩ := Table.insert_eq_ok.mp inserted
  rw [tables]
  change ∀ row ∈ facts.rows, holds row
  rw [rows]
  intro row member
  rcases List.mem_append.mp member with earlier | last
  · exact all row earlier
  · rw [List.mem_singleton.mp last]
    exact kept.closed ending asked raw head ulid (all _ stored) parsed recent

/-- Replacing a fact keeps what both have. -/
theorem Kept.supersedeInTx (kept : Kept platform env opens ends holds) {ending : Timestamp}
    (asked : ends ending) {triple : TripleRef} {new : NewObject}
    (opened : opens (replacementOf triple new ending)) {result : Option Fact × Fact}
    (returned : exec (supersedeInTx platform env ending triple new) pending = (.ok result, after))
    (all : ∀ row ∈ pending.tables.facts.rows, holds row) :
    ∀ row ∈ after.tables.facts.rows, holds row := by
  obtain ⟨closed, replacement⟩ := result
  obtain ⟨middle, ended, added⟩ := supersedeInTx_outcome returned
  have between : ∀ row ∈ middle.tables.facts.rows, holds row := by
    rcases closeOld_outcome ended with ⟨fact, _, invalidated⟩ | ⟨_, _, tables⟩
    · exact kept.invalidateInTx asked invalidated all
    · rw [tables]
      exact all
  exact kept.addFactInTx opened added between

/-- **A call keeps** what its first and closing revisions have. -/
theorem Kept.perform {call : GraphCall}
    (kept : Kept platform env (call.Opens env) (call.Ends env) holds) {store : Store}
    (all : ∀ row ∈ store.database.tables.facts.rows, holds row) :
    ∀ row ∈ (exec (call.perform platform env) store).2.database.tables.facts.rows, holds row := by
  rcases outcome : exec (call.perform platform env) store with ⟨error | value, after⟩
  · rw [perform_threw outcome]
    exact all
  have committed : ∀ {α : Type} {operation committing : String} {body : Tx α} {result : α},
      exec (writing operation committing body) store = (.ok result, after) →
      (∀ pending, exec body ⟨store.database.tables, 0⟩ = (.ok result, pending) →
        ∀ row ∈ pending.tables.facts.rows, holds row) →
      ∀ row ∈ after.database.tables.facts.rows, holds row := by
    intro α operation committing body result returned each
    obtain ⟨_, _, pending, ran, tables⟩ := writing_returned returned
    rw [tables]
    exact each pending ran
  cases call with
  | add request =>
    obtain ⟨_, added, _⟩ := map_returned outcome
    exact committed added fun pending ran => kept.addFactInTx rfl ran all
  | invalidate triple ending =>
    obtain ⟨_, ended, _⟩ := map_returned outcome
    exact committed ended fun pending ran => kept.invalidateInTx rfl ran all
  | supersede triple new ending =>
    obtain ⟨_, replaced, _⟩ := map_returned outcome
    exact committed replaced fun pending ran => kept.supersedeInTx rfl rfl ran all

end Rows

/-- What all calls keep, every row of a reachable store has. -/
theorem runCalls_keeps {holds : FactRow → Prop} {calls : List (Env × GraphCall)} {start : Store}
    (kept : ∀ call ∈ calls, Kept platform call.1 (call.2.Opens call.1) (call.2.Ends call.1) holds)
    (all : ∀ row ∈ start.database.tables.facts.rows, holds row) :
    ∀ row ∈ (runCalls platform calls start).database.tables.facts.rows, holds row := by
  induction calls using List.reverseRecOn with
  | nil => exact all
  | append_singleton calls call inductionHypothesis =>
    rw [runCalls_snoc]
    exact (kept call (by simp)).perform
      (inductionHypothesis fun other member => kept other (List.mem_append_left _ member))

/-- The instants a caller names. -/
def GraphCall.instants : GraphCall → List Timestamp
  | .add request => request.validFrom.toList ++ request.validTo.toList
  | .invalidate _ ending | .supersede _ _ ending => ending.toList

/-- A caller names only instants of year 0 or later. -/
def GraphCall.Unsigned (call : GraphCall) : Prop :=
  ∀ instant ∈ call.instants, instant.Unsigned

/-- The instant a call ends facts at, or replaces them at, is one that was named, or now. -/
theorem unsigned_getD {ending : Option Timestamp} (named : ∀ time ∈ ending, time.Unsigned)
    (recent : 0 ≤ env.now.asMillisecond) : (ending.getD env.now).Unsigned := by
  cases ending with
  | none => exact Timestamp.unsigned_of_recent recent
  | some time => exact named time rfl

/-- A call that names instants of year 0 or later opens facts that have such instants. -/
theorem GraphCall.Unsigned.opens {call : GraphCall} (unsigned : call.Unsigned) {request : NewFact}
    (opened : call.Opens env request) (recent : 0 ≤ env.now.asMillisecond) :
    (∀ time ∈ request.validFrom, time.Unsigned) ∧ ∀ time ∈ request.validTo, time.Unsigned := by
  cases call with
  | add asked =>
    cases opened
    refine ⟨fun time given => unsigned time ?_, fun time given => unsigned time ?_⟩
    · exact List.mem_append_left _ (Option.mem_toList.mpr given)
    · exact List.mem_append_right _ (Option.mem_toList.mpr given)
  | invalidate triple ending => cases opened
  | supersede triple new ending =>
    cases opened
    refine ⟨?_, ?_⟩
    · rintro _ ⟨⟩
      exact unsigned_getD (fun time given => unsigned time (Option.mem_toList.mpr given)) recent
    · rintro _ ⟨⟩

/-- A call that names instants of year 0 or later ends facts at such an instant. -/
theorem GraphCall.Unsigned.ends {call : GraphCall} (unsigned : call.Unsigned)
    {instant : Timestamp} (ended : call.Ends env instant) (recent : 0 ≤ env.now.asMillisecond) :
    instant.Unsigned := by
  cases call with
  | add asked => cases ended
  | invalidate triple ending | supersede triple new ending =>
    cases ended
    exact unsigned_getD (fun time given => unsigned time (Option.mem_toList.mpr given)) recent

/-- What was parsed from a dated row is dated. -/
theorem intoFact_keeps_dates (reads : platform.ReadsStored) {raw : RawFact} {fact : Fact}
    (dated : RowDated raw.row) (parsed : raw.intoFact platform = .ok fact) : fact.Dated := by
  obtain ⟨validFrom, startUnsigned, start⟩ := dated.validFrom
  obtain ⟨validTo, stopUnsigned, stop⟩ := dated.validTo
  obtain ⟨recordedAt, stampUnsigned, stamp⟩ := dated.recordedAt
  cases recordedAt with
  | none => cases stamp
  | some recordedAt =>
    have dated := intoFact_dated reads (RawFact.parsesAs parsed).object start stop
      (Option.some.inj stamp) startUnsigned stopUnsigned (stampUnsigned recordedAt rfl)
    rw [← Except.ok.inj (dated.symm.trans parsed)]
    exact ⟨startUnsigned, stopUnsigned, stampUnsigned recordedAt rfl⟩

/-- Calls that name instants of year 0 or later store dated rows. -/
theorem GraphCall.Unsigned.kept (reads : platform.ReadsStored) {call : GraphCall}
    (unsigned : call.Unsigned) : Kept platform env (call.Opens env) (call.Ends env) RowDated where
  opened request opened ulid subject predicate object scope _ _ recent := by
    obtain ⟨start, stop⟩ := unsigned.opens opened recent
    exact Fact.Dated.toRow ⟨start, stop, Timestamp.unsigned_of_recent recent⟩
  closed ending ended raw head ulid dated parsed recent := by
    have head := intoFact_keeps_dates reads dated parsed
    refine Fact.Dated.toRow ⟨head.validFrom, ?_, Timestamp.unsigned_of_recent recent⟩
    rintro _ ⟨⟩
    exact unsigned.ends ended recent

/-- A validated scope is not empty. -/
theorem scope_nonempty {given scope : Option String}
    (validated : given.mapM (Scope.validate platform) = .ok scope) : scope ≠ some "" := by
  rintro rfl
  obtain ⟨raw, accepted⟩ := Scope.validated_of_mapM validated "" rfl
  obtain ⟨segments, nonempty, shape, each⟩ := Scope.validate_normalised accepted
  cases segments with
  | nil => exact nonempty rfl
  | cons segment rest =>
    have filled := (each segment List.mem_cons_self).1
    cases rest with
    | nil => exact filled (by simpa using shape.symm)
    | cons next rest => simp at shape

/-- Every call keeps stored scopes from being empty. -/
theorem kept_scopes (call : GraphCall) :
    Kept platform env (call.Opens env) (call.Ends env) fun row => row.scope ≠ some "" where
  opened request _ ulid subject predicate object scope _ validated _ := scope_nonempty validated
  closed ending _ raw head ulid held parsed _ := by
    change head.scope ≠ some ""
    rw [(RawFact.parsesAs parsed).scope]
    exact held

/-- The instants of a row are texts that were rendered. -/
def RowRendered (row : FactRow) : Prop :=
  ∀ text, row.validFrom = some text ∨ row.validTo = some text ∨ row.recordedAt = text →
    ∃ instant, text = toSql instant

theorem toRow_rendered (fact : Fact) : RowRendered fact.toRow := by
  rintro text (start | stop | stamp)
  · obtain ⟨instant, _, rendered⟩ := Option.map_eq_some_iff.mp start
    exact ⟨instant, rendered.symm⟩
  · obtain ⟨instant, _, rendered⟩ := Option.map_eq_some_iff.mp stop
    exact ⟨instant, rendered.symm⟩
  · exact ⟨fact.recordedAt, stamp.symm⟩

/-- Every call renders what it stores. -/
theorem kept_rendered (call : GraphCall) :
    Kept platform env (call.Opens env) (call.Ends env) RowRendered where
  opened _ _ _ _ _ _ _ _ _ _ := toRow_rendered _
  closed _ _ _ _ _ _ _ _ := toRow_rendered _

/-- Every call stores predicates that normalisation returned. -/
theorem kept_predicates (call : GraphCall) :
    Kept platform env (call.Opens env) (call.Ends env) fun row =>
      ∃ raw, Normalise.predicate platform raw = .ok row.predicate where
  opened request _ _ _ _ _ _ normal _ _ := ⟨request.predicate, normal⟩
  closed _ _ raw head _ held parsed _ := by
    change ∃ raw, Normalise.predicate platform raw = .ok head.predicate
    rw [(RawFact.parsesAs parsed).predicate]
    exact held

/-- What the facts of a reachable store keep. -/
structure FactsKept (platform : Platform) (tables : Tables) : Prop where
  references : tables.References
  sound : (factLog platform).Sound tables.facts.rows
  scopes : ∀ row ∈ tables.facts.rows, row.scope ≠ some ""
  rendered : ∀ row ∈ tables.facts.rows, RowRendered row
  predicates : ∀ row ∈ tables.facts.rows, ∃ raw, Normalise.predicate platform raw = .ok row.predicate

/-- **Reachable stores** keep it, whatever the calls. -/
theorem reachable_factsKept (calls : List (Env × GraphCall)) {start : Store}
    (empty : start.database.tables.facts.rows = []) :
    FactsKept platform (runCalls platform calls start).database.tables where
  references := (runCalls platform calls start).database.references
  sound := (runCalls_sound calls empty).1
  scopes := runCalls_keeps (fun call _ => kept_scopes call.2) (by simp [empty])
  rendered := runCalls_keeps (fun call _ => kept_rendered call.2) (by simp [empty])
  predicates := runCalls_keeps (fun call _ => kept_predicates call.2) (by simp [empty])

/-- **Reachable stores hold dated rows**, where the callers name instants of year 0 or
later. -/
theorem reachable_dated (reads : platform.ReadsStored) {calls : List (Env × GraphCall)}
    (unsigned : ∀ call ∈ calls, call.2.Unsigned) {start : Store}
    (empty : start.database.tables.facts.rows = []) :
    ∀ row ∈ (runCalls platform calls start).database.tables.facts.rows, RowDated row :=
  runCalls_keeps (fun call member => (unsigned call member).kept reads) (by simp [empty])

/-- Columns of an object: an entity, or a value. -/
def ObjectColumns.Single (columns : ObjectColumns) : Prop :=
  columns.id.isNone ≠ columns.value.isNone

theorem single_of (object : FactObject) : (ObjectColumns.of object).Single := by
  cases object <;> simp [ObjectColumns.of, ObjectColumns.Single]

theorem Columns.single {tables : Tables} {object : NewObject} {columns : ObjectColumns}
    (found : Columns platform tables object columns) : columns.Single := by
  cases object with
  | entity name kind =>
    obtain ⟨ref, _, rfl⟩ := found
    simp [ObjectColumns.Single]
  | value text =>
    obtain rfl := found
    simp [ObjectColumns.Single]

/-- **The open head of a triple** is the one open head that states it, though a missing value
or scope is compared as the empty text. -/
theorem FactsKept.findOpenHead_iff {tables : Tables} (kept : FactsKept platform tables)
    {subject : EntityId} {predicate : String} {columns : ObjectColumns} {scope : Option String}
    (single : columns.Single) (nonempty : scope ≠ some "") {id : FactId} :
    findOpenHead tables subject predicate columns scope = some id ↔
      ∃ head, (factLog platform).OpenHead tables.facts.rows head ∧ head.id = id ∧
        factKey head = (subject, predicate, columns.id, columns.value, scope) := by
  have forward : ∀ {id}, findOpenHead tables subject predicate columns scope = some id →
      ∃ head, (factLog platform).OpenHead tables.facts.rows head ∧ head.id = id ∧
        factKey head = (subject, predicate, columns.id, columns.value, scope) := by
    intro id found
    obtain ⟨head, search, rfl⟩ := Option.map_eq_some_iff.mp found
    have stored := List.mem_of_find?_eq_some search
    have holds := List.find?_some search
    simp only [Bool.and_eq_true, decide_eq_true_eq] at holds
    obtain ⟨⟨⟨⟨⟨rfl, rfl⟩, sameId⟩, sameValue⟩, sameScope⟩, heading⟩ := holds
    refine ⟨head, (isOpenHead_iff stored).mp heading, rfl, ?_⟩
    have checked := tables.facts.checked head stored
    simp only [factSchema, Bool.and_eq_true] at checked
    obtain ⟨⟨one, _⟩, _⟩ := checked
    have value : head.objectValue = columns.value := by
      rw [sameId] at one
      unfold ObjectColumns.Single at single
      cases columnId : columns.id <;> cases columnValue : columns.value <;>
        cases held : head.objectValue <;> simp_all
    have sameScopes : head.scope = scope := by
      have filled := kept.scopes head stored
      cases held : head.scope <;> cases asked : scope <;> simp_all
    rw [factKey, sameId, value, sameScopes]
  refine ⟨forward, ?_⟩
  rintro ⟨head, heading, rfl, states⟩
  rcases search : findOpenHead tables subject predicate columns scope with _ | other
  · exact absurd states (findOpenHead_none search head heading)
  · obtain ⟨found, foundHead, rfl, foundStates⟩ := forward search
    rw [kept.sound.single found head foundHead heading (foundStates.trans states.symm)]

end Singularmem.Graph
