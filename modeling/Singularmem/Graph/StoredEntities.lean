import Singularmem.Graph.Outcomes

/-!
# What every stored entity keeps

An entity is created under the name a fact gives it and at the time of the call; later calls
fill in its kind at most. So what created entities have, whatever their kind, every entity of
a reachable store has.
-/

namespace Singularmem.Graph

open Library Singularmem.Core
open Effect hiding ofExcept

variable {platform : Platform} {env : Env}

/-- An entity is found by its normalised name. -/
theorem entityByName_stored {tables : Tables} {row : EntityRow}
    (stored : row ∈ tables.entities.rows) : entityByName tables row.normalisedName = some row :=
  Table.find_eq_some.mpr ⟨stored, by simp [entitySchema]⟩

/-- What created entities have, whatever their kind. -/
structure KeptEntity (platform : Platform) (env : Env) (holds : EntityRow → Prop) : Prop where
  created : ∀ ulid name normalised kind, Normalise.entityName platform name = .ok normalised →
    0 ≤ env.now.asMillisecond → holds ⟨⟨ulid⟩, trim name, normalised, kind, toSql env.now⟩
  filled : ∀ row kind, holds row → holds { row with kind }

variable {holds : EntityRow → Prop} {pending after : Pending}

/-- Filling in a kind keeps it. -/
theorem KeptEntity.fillKind (kept : KeptEntity platform env holds) {tables : Tables}
    (row : EntityRow) (kind : Option String) (all : ∀ entity ∈ tables.entities.rows, holds entity) :
    ∀ entity ∈ (fillKind tables row kind).entities.rows, holds entity := by
  intro entity member
  unfold Graph.fillKind at member
  split at member
  · obtain ⟨source, sourceIn, rfl⟩ := List.mem_map.mp member
    split
    · exact kept.filled source kind (all source sourceIn)
    · exact all source sourceIn
  · exact all entity member

/-- Resolving or creating an entity keeps it. -/
theorem KeptEntity.getOrCreateEntity (kept : KeptEntity platform env holds) {name : String}
    {kind : Option String} {ref : EntityRef}
    (returned : exec (getOrCreateEntity platform env name kind) pending = (.ok ref, after))
    (all : ∀ row ∈ pending.tables.entities.rows, holds row) :
    ∀ row ∈ after.tables.entities.rows, holds row := by
  obtain ⟨normalised, named, rest⟩ := ofExcept_bind_returned returned
  rw [exec_bind_ok (exec_get pending)] at rest
  split at rest
  case h_1 row found =>
    obtain ⟨_, rest⟩ := throwIf_bind_returned rest
    cases rest
    exact kept.fillKind row kind all
  case h_2 absent =>
    obtain ⟨ulid, middle, minted, rest⟩ := exec_bind_returned rest
    obtain ⟨recent, _⟩ := mintRawUlid_returned minted
    split at rest
    · cases rest
    case h_2 table inserted =>
      obtain ⟨_, _, rows⟩ := Table.insert_eq_ok.mp inserted
      cases rest
      intro row member
      change row ∈ table.rows at member
      rw [rows] at member
      rcases List.mem_append.mp member with earlier | last
      · exact all row earlier
      · rw [List.mem_singleton.mp last]
        exact kept.created ulid name normalised kind named recent

/-- Adding a fact keeps it. -/
theorem KeptEntity.addFactInTx (kept : KeptEntity platform env holds) {request : NewFact}
    {fact : Fact} (returned : exec (addFactInTx platform env request) pending = (.ok fact, after))
    (all : ∀ row ∈ pending.tables.entities.rows, holds row) :
    ∀ row ∈ after.tables.entities.rows, holds row := by
  obtain ⟨predicate, _, rest⟩ := ofExcept_bind_returned returned
  obtain ⟨_, _, rest⟩ := ofExcept_bind_returned rest
  obtain ⟨_, _, rest⟩ := ofExcept_bind_returned rest
  obtain ⟨scope, _, rest⟩ := ofExcept_bind_returned rest
  rw [exec_bind_ok (exec_get pending)] at rest
  obtain ⟨_, _, rest⟩ := ofExcept_bind_returned rest
  obtain ⟨subject, middle, created, rest⟩ := exec_bind_returned rest
  obtain ⟨object, final, resolved, rest⟩ := exec_bind_returned rest
  have first := kept.getOrCreateEntity created all
  have second : ∀ row ∈ final.tables.entities.rows, holds row := by
    cases asked : request.object with
    | entity name kind =>
      rw [asked] at resolved
      obtain ⟨_, objectCreated, _⟩ := map_returned resolved
      exact kept.getOrCreateEntity objectCreated first
    | value text =>
      rw [asked] at resolved
      obtain ⟨_, same⟩ := throwIf_bind_returned resolved
      cases same
      exact first
  rw [exec_bind_ok (exec_get final)] at rest
  split at rest
  case h_1 head found =>
    rw [answerWithHead_returned rest]
    exact second
  case h_2 absent =>
    obtain ⟨ulid, minted, ran, rest⟩ := exec_bind_returned rest
    obtain ⟨_, same⟩ := mintRawUlid_returned ran
    obtain ⟨_, last, appended, rest⟩ := exec_bind_returned rest
    obtain ⟨table, _, tables⟩ := insertFactRow_returned appended
    cases rest
    rw [tables, same]
    exact second

/-- Ending a fact leaves the entities alone. -/
theorem invalidateInTx_entities {ending : Timestamp} {triple : TripleRef} {closed : Fact}
    (returned : exec (invalidateInTx platform env ending triple) pending = (.ok closed, after)) :
    after.tables.entities = pending.tables.entities := by
  obtain ⟨_, _, _, _, _, _, _, _, _, _, _, _, _, _, _, tables⟩ := invalidateInTx_outcome returned
  rw [tables]

/-- **A call** keeps it. -/
theorem KeptEntity.perform (kept : KeptEntity platform env holds) (call : GraphCall)
    {store : Store} (all : ∀ row ∈ store.database.tables.entities.rows, holds row) :
    ∀ row ∈ (exec (call.perform platform env) store).2.database.tables.entities.rows,
      holds row := by
  rcases outcome : exec (call.perform platform env) store with ⟨error | value, after⟩
  · rw [perform_threw outcome]
    exact all
  cases call with
  | add request =>
    obtain ⟨_, added, _⟩ := map_returned outcome
    obtain ⟨_, _, pending, ran, tables⟩ := writing_returned added
    rw [tables]
    exact kept.addFactInTx ran all
  | invalidate triple ending =>
    obtain ⟨_, ended, _⟩ := map_returned outcome
    obtain ⟨_, _, pending, ran, tables⟩ := writing_returned ended
    rw [tables, invalidateInTx_entities ran]
    exact all
  | supersede triple new ending =>
    obtain ⟨⟨closed, replacement⟩, replaced, _⟩ := map_returned outcome
    obtain ⟨_, _, pending, ran, tables⟩ := writing_returned replaced
    obtain ⟨middle, ended, added⟩ := supersedeInTx_outcome ran
    have between : ∀ row ∈ middle.tables.entities.rows, holds row := by
      rcases closeOld_outcome ended with ⟨fact, _, invalidated⟩ | ⟨_, _, unchanged⟩
      · rw [invalidateInTx_entities invalidated]
        exact all
      · rw [unchanged]
        exact all
    rw [tables]
    exact kept.addFactInTx added between

/-- **Every entity of a reachable store** has what created entities have. -/
theorem runCalls_keepsEntities (calls : List (Env × GraphCall))
    (kept : ∀ call ∈ calls, KeptEntity platform call.1 holds) {start : Store}
    (all : ∀ row ∈ start.database.tables.entities.rows, holds row) :
    ∀ row ∈ (runCalls platform calls start).database.tables.entities.rows, holds row := by
  induction calls using List.reverseRecOn with
  | nil => exact all
  | append_singleton calls call inductionHypothesis =>
    rw [runCalls_snoc]
    have earlier := inductionHypothesis fun other member =>
      kept other (List.mem_append_left [call] member)
    exact (kept call (by simp)).perform call.2 earlier

end Singularmem.Graph
