import Singularmem.Core.ShelfRuns
import Singularmem.Graph.Chains
import Singularmem.Graph.StoredRows

/-!
# Runs that write items and facts

One database holds items and facts, and calls that write either may follow each other in any
order. Each kind leaves alone what the other wrote. So every run keeps the invariants of both,
forgets nothing, and the item a fact names as its source stays what it was when the fact was
stated.
-/

namespace Singularmem.Graph

open Library Singularmem.Core
open Effect hiding ofExcept

/-- A call that writes items or facts. -/
inductive WriteCall
  | item (call : ItemCall)
  | graph (call : GraphCall)

variable (platform : Platform)

/-- Make a call; its result is dropped. -/
def WriteCall.perform (env : Env) : WriteCall → StoreCall PUnit
  | .item call => call.perform platform env
  | .graph call => call.perform platform env

/-- The store after a sequence of calls of both kinds. -/
def runWrites (calls : List (Env × WriteCall)) (store : Store) : Store :=
  calls.foldl (fun store call => (exec (call.2.perform platform call.1) store).2) store

/-- A row with its tags stays as it is but for its key and its scope. -/
def Stays (before after : Shelved) : Prop :=
  ∃ externalId scope, after = ({ before.1 with externalId, scope }, before.2)

/-- What any call may do to the tables: every row stays, an entity may be given a kind, and
new rows follow. -/
structure Grows (before after : Tables) : Prop where
  shelf : Grown Stays before.shelf after.shelf
  entities : Grown KeepsEntity before.entities.rows after.entities.rows
  facts : before.facts.rows <+: after.facts.rows

/-- What a database keeps. -/
structure DatabaseKept (tables : Tables) : Prop where
  facts : FactsKept platform tables
  links : itemLinks.Backward tables.items.rows
  scopes : tables.ScopesValidated platform

variable {platform}

theorem Stays.refl (known : Shelved) : Stays known known := ⟨known.1.externalId, known.1.scope, rfl⟩

theorem Stays.trans (first second third : Shelved) (early : Stays first second)
    (late : Stays second third) : Stays first third := by
  obtain ⟨_, _, rfl⟩ := early
  obtain ⟨externalId, scope, rfl⟩ := late
  exact ⟨externalId, scope, rfl⟩

theorem Stays.id {before after : Shelved} (stays : Stays before after) :
    after.1.id = before.1.id := by
  obtain ⟨_, _, rfl⟩ := stays
  rfl

theorem Grows.refl (tables : Tables) : Grows tables tables :=
  ⟨.refl Stays.refl _, .refl KeepsEntity.refl _, List.prefix_refl _⟩

theorem Grows.trans {before middle after : Tables} (first : Grows before middle)
    (second : Grows middle after) : Grows before after :=
  ⟨first.shelf.trans Stays.trans second.shelf, first.entities.trans KeepsEntity.trans second.entities,
    first.facts.trans second.facts⟩

/-- Rows that became others one by one, and new rows behind them, are growth. -/
theorem grown_of_forall₂ {keeps : Shelved → Shelved → Prop} {before kept : List Shelved}
    (each : List.Forall₂ keeps before kept) (added : List Shelved) :
    Grown keeps before (kept ++ added) := by
  induction each with
  | nil => exact .added added
  | cons stays _ inductionHypothesis => exact .kept stays inductionHypothesis

/-- **One call** lets the tables grow. -/
theorem WriteCall.perform_grows (env : Env) (call : WriteCall) (store : Store) :
    Grows store.database.tables (exec (call.perform platform env) store).2.database.tables := by
  cases call with
  | item call =>
    obtain ⟨added, ⟨kept, shelf, each⟩, -⟩ := @perform_shelf platform env call store
    have law : ItemsExtend call.replacedRow call.movedRow store.database.tables
        (exec (call.perform platform env) store).2.database.tables := (itemCall_law env call rfl).1
    refine ⟨?_, ?_, ?_⟩
    · rw [WriteCall.perform, shelf]
      refine grown_of_forall₂ (each.imp ?_) added
      rintro before _ ⟨externalId, scope, rfl, -⟩
      exact ⟨externalId, scope, rfl⟩
    · rw [WriteCall.perform, law.entities]
      exact .refl KeepsEntity.refl _
    · rw [WriteCall.perform, law.facts]
  | graph call =>
    have extended := perform_extends platform env call store
    refine ⟨?_, extended.entities, ?_⟩
    · have same : (exec (call.perform platform env) store).2.database.tables.shelf =
          store.database.tables.shelf := by
        simp only [Tables.shelf, tagsOf, extended.items, extended.itemTags]
      rw [WriteCall.perform, same]
      exact .refl Stays.refl _
    · obtain ⟨added, rows, -⟩ := extended.facts.appended
      exact ⟨added, rows.symm⟩

/-- **One call** keeps what a database keeps. -/
theorem WriteCall.perform_kept (env : Env) (call : WriteCall) {store : Store}
    (kept : DatabaseKept platform store.database.tables) :
    DatabaseKept platform (exec (call.perform platform env) store).2.database.tables := by
  cases call with
  | item call =>
    have law : ItemsExtend call.replacedRow call.movedRow store.database.tables
        (exec (call.perform platform env) store).2.database.tables := (itemCall_law env call rfl).1
    have scopes := @perform_scopesValidated platform env call store kept.scopes
    refine ⟨⟨Database.references _, ?_, ?_, ?_, ?_⟩, law.links kept.links, scopes⟩
    all_goals rw [WriteCall.perform, law.facts]
    · exact kept.facts.sound
    · exact kept.facts.scopes
    · exact kept.facts.rendered
    · exact kept.facts.predicates
  | graph call =>
    have extended := perform_extends platform env call store
    refine ⟨⟨Database.references _, extended.facts.sound kept.facts.sound,
      (kept_scopes call).perform kept.facts.scopes, (kept_rendered call).perform kept.facts.rendered,
      (kept_predicates call).perform kept.facts.predicates⟩, ?_, ?_⟩
    · rw [WriteCall.perform, extended.items]
      exact kept.links
    · rw [Tables.ScopesValidated, WriteCall.perform, extended.items]
      exact kept.scopes

/-- **A run** lets the tables grow. -/
theorem runWrites_grows (calls : List (Env × WriteCall)) (store : Store) :
    Grows store.database.tables (runWrites platform calls store).database.tables := by
  induction calls generalizing store with
  | nil => exact .refl _
  | cons call rest inductionHypothesis =>
    exact (call.2.perform_grows call.1 store).trans (inductionHypothesis _)

/-- **A run** keeps what a database keeps. -/
theorem runWrites_kept (calls : List (Env × WriteCall)) {store : Store}
    (kept : DatabaseKept platform store.database.tables) :
    DatabaseKept platform (runWrites platform calls store).database.tables := by
  induction calls generalizing store with
  | nil => exact kept
  | cons call rest inductionHypothesis =>
    exact inductionHypothesis (call.2.perform_kept call.1 kept)

/-- The source of a fact is on the shelf. -/
theorem source_shelved {tables : Tables} (references : tables.References) {fact : FactRow}
    (stated : fact ∈ tables.facts.rows) {id : ItemId} (source : fact.sourceItemId = some id) :
    ∃ known ∈ tables.shelf, known.1.id = id :=
  hasItem_iff_shelf.mp (references.sourceItem fact stated id source)

/-- **Runs of both kinds of calls** keep the revision chains sound, the links of items
backward and the scopes validated; they lose no row, and every fact still stands on the item
it named: that item was stored by then, and has changed no more than its key and its scope. -/
theorem mixed_runs_keep (earlier later : List (Env × WriteCall)) {start : Store}
    (kept : DatabaseKept platform start.database.tables) :
    let past := (runWrites platform earlier start).database.tables
    let present := (runWrites platform (earlier ++ later) start).database.tables
    DatabaseKept platform present ∧ Grows past present ∧
      ∀ fact ∈ past.facts.rows, fact ∈ present.facts.rows ∧ ∀ id ∈ fact.sourceItemId,
        ∃ known ∈ past.shelf, known.1.id = id ∧ ∃ still ∈ present.shelf, Stays known still := by
  intro past present
  have grows : Grows past present := by
    have split : runWrites platform (earlier ++ later) start =
        runWrites platform later (runWrites platform earlier start) := List.foldl_append
    rw [show present = _ from congrArg (fun store => store.database.tables) split]
    exact runWrites_grows later _
  refine ⟨runWrites_kept _ kept, grows, fun fact stated => ⟨grows.facts.subset stated, ?_⟩⟩
  intro id source
  obtain ⟨known, shown, same⟩ := source_shelved (Database.references _) stated source
  obtain ⟨still, shownStill, stays⟩ := grows.shelf.mem shown
  exact ⟨known, shown, same, still, shownStill, stays⟩

/-- A fresh database keeps it. -/
theorem fresh_kept : DatabaseKept platform (⟨false, .fresh⟩ : Store).database.tables :=
  ⟨reachable_factsKept [] rfl, .nil, nofun⟩

/-- A note, and a fact that names it as its source. -/
def notedFact : List (Env × WriteCall) :=
  let noted : Env := ⟨instantAfter 0, fun draw => draw⟩
  [(noted, .item (.ingest ⟨"Tantivy is written in Rust", none, [], none, .object [], none, none⟩)),
    (⟨instantAfter 1, fun draw => 10 + draw⟩, .graph (.add ⟨"Tantivy", none, "written in",
      .value "Rust", none, none, .one, some (noted.mint 0), none⟩))]

/-- The note is replaced. -/
def noteReplaced : List (Env × WriteCall) :=
  [(⟨instantAfter 2, fun draw => 20 + draw⟩, .item (.ingestReplacing
    ⟨"It is", none, [], none, .object [], none, none⟩ ((⟨instantAfter 0, id⟩ : Env).mint 0)))]

/-- The fact still stands on the note after the note was replaced. -/
theorem noted_fact_keeps_its_note :
    let past := (runWrites .ascii notedFact ⟨false, .fresh⟩).database.tables
    let present := (runWrites .ascii (notedFact ++ noteReplaced) ⟨false, .fresh⟩).database.tables
    past.facts.rows.map FactRow.sourceItemId = [some ((⟨instantAfter 0, id⟩ : Env).mint 0)] ∧
      present.items.rows.length = 2 ∧ DatabaseKept .ascii present ∧
      ∀ fact ∈ past.facts.rows, fact ∈ present.facts.rows ∧ ∀ id ∈ fact.sourceItemId,
        ∃ known ∈ past.shelf, known.1.id = id ∧ ∃ still ∈ present.shelf, Stays known still := by
  have kept := @mixed_runs_keep .ascii notedFact noteReplaced _ fresh_kept
  exact ⟨by decide +kernel, by decide +kernel, kept.1, kept.2.2⟩

end Singularmem.Graph
