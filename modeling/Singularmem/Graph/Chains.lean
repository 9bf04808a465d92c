import Singularmem.Graph.Revisions

/-!
# Revision chains

The facts of every reachable store form sound revision chains: one open head for what it
states, no fork, no revision of an ended fact, and copies that differ only in what closing
changes.
-/

namespace Singularmem.Graph

open Library Singularmem.Core
open Effect hiding ofExcept

variable {platform : Platform}

/-- What the revisions of a database keep. -/
structure RevisionChains (tables : Tables) : Prop where
  /-- At most one open head for a subject, predicate, object and scope. -/
  openHead_unique : ∀ left ∈ tables.facts.rows, ∀ right ∈ tables.facts.rows,
    isOpenHead tables left → isOpenHead tables right → factKey left = factKey right → left = right
  /-- Each fact is superseded by at most one other. -/
  superseded_once : ∀ left ∈ tables.facts.rows, ∀ right ∈ tables.facts.rows, ∀ older,
    left.supersedes = some older → right.supersedes = some older → left = right
  /-- A fact that supersedes another equals it in every column but four. -/
  closing_copies : ∀ newer ∈ tables.facts.rows, ∀ older ∈ tables.facts.rows,
    newer.supersedes = some older.id →
      { newer with
        id := older.id
        validTo := older.validTo
        supersedes := older.supersedes
        recordedAt := older.recordedAt } = older
  /-- A fact with an end is never superseded. -/
  ended_not_superseded : ∀ older ∈ tables.facts.rows, older.validTo.isSome →
    ∀ newer ∈ tables.facts.rows, newer.supersedes ≠ some older.id
  /-- At every record time at most one revision of a chain is visible. -/
  visible_unique : ∀ (time : Timestamp) (left right : FactRow),
    left ∈ tables.facts.rows → right ∈ tables.facts.rows →
    Relation.EqvGen (fun newer older => newer ∈ tables.facts.rows ∧ older ∈ tables.facts.rows ∧
      newer.supersedes = some older.id) left right →
    recordedWhere tables (some time) left → recordedWhere tables (some time) right → left = right

/-- The start of every window was rendered from an instant. -/
def StartsRendered (rows : List FactRow) : Prop :=
  ∀ row ∈ rows, ∀ text ∈ row.validFrom, ∃ instant, text = toSql instant

/-- Calls keep the log sound and the window starts rendered. -/
theorem runCalls_sound (calls : List (Env × GraphCall)) {start : Store}
    (empty : start.database.tables.facts.rows = []) :
    (factLog platform).Sound (runCalls platform calls start).database.tables.facts.rows ∧
      StartsRendered (runCalls platform calls start).database.tables.facts.rows := by
  induction calls using List.reverseRecOn with
  | nil =>
    rw [runCalls, List.foldl_nil, empty]
    exact ⟨.nil, by simp [StartsRendered]⟩
  | append_singleton calls call inductionHypothesis =>
    obtain ⟨sound, rendered⟩ := inductionHypothesis
    rw [runCalls_snoc]
    have grown := (perform_extends platform call.1 call.2 (runCalls platform calls start)).facts
    refine ⟨grown.sound sound, ?_⟩
    obtain ⟨added, rows, recorded⟩ := grown.appended
    rw [rows]
    intro row member
    rcases List.mem_append.mp member with earlier | new
    · exact rendered row earlier
    · exact (recorded row new).2.2

/-- Rereading a rendered window start gives the same text. -/
theorem reread_rendered (readsBack : platform.ReadsBack) {stored again : Option String}
    (rendered : ∀ text ∈ stored, ∃ instant, text = toSql instant)
    (reread : Reread platform stored again) : again = stored := by
  obtain ⟨parsed, read, rfl⟩ := reread
  rcases stored with _ | text
  · cases read
    rfl
  · obtain ⟨instant, rfl⟩ := rendered text rfl
    rcases one : parsePoint platform (toSql instant) with error | time
    · rw [Option.mapM_some, one] at read
      cases read
    · rw [Option.mapM_some, one] at read
      cases read
      exact congrArg some (readsBack.parsePoint one)

/-- **Every reachable store has sound revision chains**, whatever the calls, their
outcomes and the clock. -/
theorem reachable_revision_chains (readsBack : platform.ReadsBack)
    (calls : List (Env × GraphCall)) (start : Store)
    (empty : start.database.tables.facts.rows = []) :
    RevisionChains (runCalls platform calls start).database.tables := by
  obtain ⟨sound, rendered⟩ := @runCalls_sound platform calls start empty
  set tables := (runCalls platform calls start).database.tables
  have agree : ∀ newer ∈ tables.facts.rows, ∀ older ∈ tables.facts.rows,
      newer.supersedes = some older.id → newer.validTo.isSome ∧ ¬ older.validTo.isSome ∧
        Copies platform newer older := by
    intro newer newerIn older olderIn points
    obtain ⟨isEnded, found, foundIn, same, notOver, copies⟩ := sound.closing newer newerIn _ points
    obtain rfl := sound.id_injective foundIn olderIn same
    exact ⟨isEnded, notOver, copies⟩
  refine ⟨?_, ?_, ?_, ?_, ?_⟩
  · intro left leftIn right rightIn leftHead rightHead
    exact sound.single left right ((isOpenHead_iff leftIn).mp leftHead)
      ((isOpenHead_iff rightIn).mp rightHead)
  · exact sound.unforked
  · intro newer newerIn older olderIn points
    obtain ⟨_, _, reread, copied⟩ := agree newer newerIn older olderIn points
    have start := reread_rendered readsBack (rendered older olderIn) reread
    calc
      _ = { newer with
            id := older.id
            validFrom := older.validFrom
            validTo := older.validTo
            supersedes := older.supersedes
            recordedAt := older.recordedAt } := by rw [← start]
      _ = older := copied
  · intro older olderIn ended newer newerIn points
    exact (agree newer newerIn older olderIn points).2.1 ended
  · intro time left right leftIn rightIn linked leftShown rightShown
    have visible : ∀ row ∈ tables.facts.rows, recordedWhere tables (some time) row →
        (factLog platform).Visible tables.facts.rows (fun row => row.recordedAt ≤ toSql time)
          row := by
      intro row member shown
      rw [recordedWhere, Bool.and_eq_true, Bool.not_eq_true', ← Bool.not_eq_true,
        supersededBy_iff] at shown
      refine ⟨member, by simpa using shown.1, ?_⟩
      intro newer newerIn points early
      exact shown.2 ⟨newer, newerIn, points, by simpa using early⟩
    exact sound.visible_unique linked (visible left leftIn leftShown)
      (visible right rightIn rightShown)

instance thousand_neZero : NeZero 1000 := ⟨by decide⟩

/-- An instant of 2026, and nanoseconds after it. -/
def instantAfter (nanos : Fin 1000) : Timestamp :=
  ⟨1788577920000000000 + nanos.val, by have := nanos.isLt; omega⟩

/-- A fact is stated, and replaced a nanosecond later. -/
def statedAndReplaced : List (Env × GraphCall) :=
  [(⟨instantAfter 0, fun draw => draw⟩,
      .add ⟨"Tantivy", none, "written in", .value "Rust", none, none, .one, none, some "a/b"⟩),
    (⟨instantAfter 1, fun draw => 10 + draw⟩,
      .supersede ⟨"tantivy", "Written_in", .value " Rust ", some "A/B"⟩ (.value "C") none)]

/-- The replaced fact, its closing revision and the replacement form sound chains. -/
theorem replaced_fact_has_sound_chains :
    ((runCalls .ascii statedAndReplaced ⟨false, .fresh⟩).database.tables.facts.rows.map
        fun row => (row.objectValue, row.validTo.isSome, row.supersedes.isSome)) =
      [(some "Rust", false, false), (some "Rust", true, true), (some "C", false, false)] ∧
    RevisionChains (runCalls .ascii statedAndReplaced ⟨false, .fresh⟩).database.tables :=
  ⟨by decide +kernel,
    reachable_revision_chains Platform.ascii_readsBack statedAndReplaced ⟨false, .fresh⟩ rfl⟩

end Singularmem.Graph
