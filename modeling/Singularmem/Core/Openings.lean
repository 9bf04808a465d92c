import Singularmem.Core.MigrationStages

/-!
# Concurrent opens

Any number of writable opens of one file run at once. Each reads the format version outside
any transaction, and then runs the transactions its plan lists; transactions are serialised
and atomic. Between these steps an open may crash, and each SQL call may fail.

Whatever the order of steps, a plan leads from a stage that the database has reached, so its
first transaction either takes the database one stage further or finds nothing to do.
-/

namespace Singularmem.Core.Migration

open Library.Sql

/-- The state of one open. -/
inductive Opener
  | starting
  | upgrading (rest : List Upgrade)
  | opened
  | failed (error : OpenError)
  | crashed

/-- An open that has these transactions left. -/
def Opener.withPlan : List Upgrade → Opener
  | [] => .opened
  | upgrade :: rest => .upgrading (upgrade :: rest)

/-- A file and the opens of it; `applied` records the transactions that did their work. -/
structure Opening where
  catalog : Catalog
  openers : Nat → Opener
  applied : List Upgrade

/-- One step of one open. -/
inductive Event
  /-- Read the version; the read may fail. -/
  | read (opener : Nat) (fails : Bool)
  /-- Run the next transaction, at a clock reading. -/
  | upgrade (opener : Nat) (now : String) (interruptions : Interruptions)
  | crash (opener : Nat)

namespace Opening

/-- Replace the state of one open. -/
def setOpener (state : Opening) (opener : Nat) (became : Opener) : Opening :=
  { state with openers := Function.update state.openers opener became }

/-- Read the version and make a plan. -/
def read (state : Opening) (opener : Nat) (fails : Bool) : Opening :=
  if fails then state.setOpener opener (.failed (.sqlite "preparing format_version query" .interrupted))
  else
    match plan (readFormatVersion state.catalog) with
    | .ok rest => state.setOpener opener (.withPlan rest)
    | .error error => state.setOpener opener (.failed error)

/-- Run a transaction. -/
def runUpgrade (state : Opening) (opener : Nat) (now : String) (interruptions : Interruptions)
    (upgrade : Upgrade) (rest : List Upgrade) : Opening :=
  match upgrade.run interruptions now state.catalog with
  | (.error error, after) => { state with catalog := after }.setOpener opener (.failed error)
  | (.ok _, after) =>
    { state with
      catalog := after
      applied :=
        if readFormatVersion state.catalog = versionAt upgrade.source then state.applied ++ [upgrade]
        else state.applied }.setOpener opener (.withPlan rest)

/-- What a step does. A step that an open cannot take does nothing. -/
def advance (state : Opening) : Event → Opening
  | .read opener fails =>
    match state.openers opener with
    | .starting => state.read opener fails
    | _ => state
  | .upgrade opener now interruptions =>
    match state.openers opener with
    | .upgrading (upgrade :: rest) => state.runUpgrade opener now interruptions upgrade rest
    | _ => state
  | .crash opener => state.setOpener opener .crashed

/-- No open has taken a step. -/
def initial (catalog : Catalog) : Opening := ⟨catalog, fun _ => .starting, []⟩

end Opening

/-- Some SQL call of the transaction fails for a reason outside the database. -/
def Interruptions.Disturbed (interruptions : Interruptions) : Prop :=
  interruptions.begins ∨ interruptions.reads ∨ interruptions.ends ∨
    ∃ place, interruptions.statement place

/-- The step is one of an open and meets a failure from outside the database. -/
def Event.Disturbs (opener : Nat) : Event → Prop
  | .read other fails => other = opener ∧ fails
  | .upgrade other _ interruptions => other = opener ∧ interruptions.Disturbed
  | .crash _ => False

/-- The transactions that lead from a stage to the current version. -/
def planFrom : Nat → List Upgrade
  | 0 => [.fresh]
  | 1 => [.oneToTwo, .twoToThree, .threeToFour]
  | 2 => [.twoToThree, .threeToFour]
  | 3 => [.threeToFour]
  | _ => []

/-- A plan is made for the stage that was read. -/
theorem plan_versionAt {stage : Nat} (bounded : stage ≤ 4) :
    plan (versionAt stage) = .ok (planFrom stage) := by
  interval_cases stage <;> rfl

/-- Different stages have different versions. -/
theorem versionAt_injective {left right : Nat} (leftBounded : left ≤ 4) (rightBounded : right ≤ 4)
    (same : versionAt left = versionAt right) : left = right := by
  interval_cases left <;> interval_cases right <;> first | rfl | (revert same; decide)

/-- A plan starts with the transaction of its stage, and goes on from where that leads. -/
theorem planFrom_cons {stage : Nat} {upgrade : Upgrade} {rest : List Upgrade}
    (planned : planFrom stage = upgrade :: rest) :
    upgrade.source = stage ∧ planFrom upgrade.target = rest := by
  match stage with
  | 0 | 1 | 2 | 3 =>
    cases planned
    exact ⟨rfl, rfl⟩
  | _ + 4 => cases planned

/-- **What a guarded transaction does** at a stage, to which the transaction of another stage
does nothing: it fails and changes nothing, which it only does when disturbed; it does its
work; or it finds nothing to do. -/
theorem run_cases (upgrade : Upgrade) (interruptions : Interruptions) (now : String) {catalog : Catalog}
    {stage : Nat} (staged : AtStage stage catalog) (bounded : stage ≤ 4) :
    (∃ error, upgrade.run interruptions now catalog = (.error error, catalog) ∧ interruptions.Disturbed) ∨
    (upgrade.source = stage ∧
      upgrade.run interruptions now catalog = (.ok ⟨⟩, catalog.run (upgrade.work now))) ∨
    (upgrade.source ≠ stage ∧ upgrade.run interruptions now catalog = (.ok ⟨⟩, catalog)) := by
  have sourceBounded : upgrade.source ≤ 4 := by cases upgrade <;> decide
  rw [Upgrade.run_eq, guarded]
  by_cases begins : interruptions.begins
  · exact .inl ⟨_, if_pos begins, .inl begins⟩
  rw [if_neg begins]
  by_cases reads : interruptions.reads
  · exact .inl ⟨_, if_pos reads, .inr (.inl reads)⟩
  rw [if_neg reads]
  by_cases expected : upgrade.source = stage
  · subst expected
    have accepted : catalog.schema.accepts (upgrade.work now) := by
      rw [staged.schema]
      exact schemaAt_accepts upgrade now
    rw [if_neg (not_not.mpr staged.version)]
    rcases Catalog.executeAll_cases accepted (fits_of_stage upgrade now staged) interruptions.statement with
      done | ⟨place, stopped, failed⟩
    · rw [done]
      by_cases ends : interruptions.ends
      · exact .inl ⟨_, if_pos ends, .inr (.inr (.inl ends))⟩
      · exact .inr (.inl ⟨rfl, if_neg ends⟩)
    · rw [failed]
      exact .inl ⟨_, rfl, .inr (.inr (.inr ⟨place, stopped⟩))⟩
  · have other : readFormatVersion catalog ≠ versionAt upgrade.source := by
      rw [staged.version]
      exact fun same => expected (versionAt_injective sourceBounded bounded same.symm)
    rw [if_pos other]
    by_cases ends : interruptions.ends
    · rw [if_pos ends]
      exact .inl ⟨_, rfl, .inr (.inr (.inl ends))⟩
    · rw [if_neg ends]
      exact .inr (.inr ⟨expected, rfl⟩)

/-- What holds of one open when the database has gone from one stage to another. -/
def OpenerAt (first stage : Nat) : Opener → Prop
  | .upgrading rest => ∃ reached, first ≤ reached ∧ reached ≤ stage ∧ planFrom reached = rest ∧ rest ≠ []
  | .opened => stage = 4
  | _ => True

/-- What holds after any steps from a database at a stage. -/
structure Progress (start : Catalog) (first stage : Nat) (state : Opening) : Prop where
  bounds : first ≤ stage ∧ stage ≤ 4
  /-- A new file goes to the last stage at once. -/
  fresh : first = 0 → stage = 0 ∨ stage = 4
  staged : AtStage stage state.catalog
  kept : RowsKept start state.catalog
  openers : ∀ opener, OpenerAt first stage (state.openers opener)
  once : state.applied.Nodup
  reached : ∀ upgrade ∈ state.applied, upgrade.target ≤ stage

section Steps

variable {start : Catalog} {first stage : Nat} {state : Opening}

/-- An open stays right when the database moves on. -/
theorem OpenerAt.later {later : Nat} {opener : Opener} (held : OpenerAt first stage opener)
    (moved : stage ≤ later) (bounded : later ≤ 4) : OpenerAt first later opener := by
  cases opener with
  | upgrading rest =>
    obtain ⟨reached, above, below, planned⟩ := held
    exact ⟨reached, above, below.trans moved, planned⟩
  | opened =>
    obtain rfl : stage = 4 := held
    exact le_antisymm bounded moved
  | _ => trivial

/-- An open whose plan starts at a stage that was reached. -/
theorem openerAt_withPlan {reached : Nat} (above : first ≤ reached) (below : reached ≤ stage)
    (bounded : stage ≤ 4) : OpenerAt first stage (.withPlan (planFrom reached)) := by
  match reached with
  | 0 => exact ⟨0, above, below, rfl, by simp⟩
  | 1 => exact ⟨1, above, below, rfl, by simp⟩
  | 2 => exact ⟨2, above, below, rfl, by simp⟩
  | 3 => exact ⟨3, above, below, rfl, by simp⟩
  | later + 4 =>
    change stage = 4
    omega

/-- Replacing the state of one open. -/
theorem Progress.setOpener (progress : Progress start first stage state) (opener : Nat) {became : Opener}
    (right : OpenerAt first stage became) : Progress start first stage (state.setOpener opener became) := by
  refine { progress with openers := ?_ }
  intro other
  change OpenerAt first stage (Function.update state.openers opener became other)
  by_cases same : other = opener
  · rwa [same, Function.update_self]
  · rw [Function.update_of_ne same]
    exact progress.openers other

/-- Reading the version makes a plan from the stage reached. -/
theorem Progress.read (progress : Progress start first stage state) (opener : Nat) (fails : Bool) :
    Progress start first stage (state.read opener fails) := by
  unfold Opening.read
  split
  · exact progress.setOpener opener trivial
  · rw [progress.staged.version, plan_versionAt progress.bounds.2]
    exact progress.setOpener opener (openerAt_withPlan progress.bounds.1 le_rfl progress.bounds.2)

/-- A transaction moves the database on, or leaves it. -/
theorem Progress.runUpgrade (progress : Progress start first stage state) (opener : Nat) (now : String)
    (interruptions : Interruptions) {upgrade : Upgrade} {rest : List Upgrade}
    (running : state.openers opener = .upgrading (upgrade :: rest)) :
    ∃ later, Progress start first later (state.runUpgrade opener now interruptions upgrade rest) := by
  have held := progress.openers opener
  rw [running] at held
  obtain ⟨reached, above, below, planned, _⟩ := held
  obtain ⟨source, onward⟩ := planFrom_cons planned
  have bounded := progress.bounds.2
  unfold Opening.runUpgrade
  rcases run_cases upgrade interruptions now progress.staged bounded with
    ⟨error, failed, _⟩ | ⟨own, done⟩ | ⟨passed, nothing⟩
  · rw [failed]
    exact ⟨stage, progress.setOpener opener trivial⟩
  · rw [done, if_pos (by rw [progress.staged.version, own])]
    obtain ⟨staged, kept⟩ := upgrade_run upgrade now (own ▸ progress.staged)
    have further := upgrade.source_lt_target
    have targetBounded : upgrade.target ≤ 4 := by cases upgrade <;> decide
    refine ⟨upgrade.target, Progress.setOpener ⟨⟨by omega, targetBounded⟩, ?_, staged,
      progress.kept.trans kept, ?_, ?_, ?_⟩ opener ?_⟩
    · intro new
      rcases progress.fresh new with atStart | atEnd
      · cases upgrade with
        | fresh => exact .inr rfl
        | _ => cases own.trans atStart
      · cases upgrade <;> cases own.trans atEnd
    · intro other
      exact (progress.openers other).later (by omega) targetBounded
    · rw [List.nodup_append]
      refine ⟨progress.once, List.nodup_singleton _, ?_⟩
      intro before member last isLast
      rw [List.mem_singleton.mp isLast]
      rintro rfl
      have := progress.reached before member
      omega
    · intro other member
      rcases List.mem_append.mp member with before | last
      · have := progress.reached other before
        omega
      · rw [List.mem_singleton.mp last]
    · rw [← onward]
      exact openerAt_withPlan (by omega) le_rfl targetBounded
  · rw [nothing, if_neg (by
      rw [progress.staged.version]
      exact fun same => passed (versionAt_injective (by cases upgrade <;> decide) bounded same.symm))]
    refine ⟨stage, Progress.setOpener progress opener ?_⟩
    rw [← onward]
    refine openerAt_withPlan (by have := upgrade.source_lt_target; omega) ?_ bounded
    cases upgrade with
    | fresh =>
      obtain rfl : reached = 0 := source.symm
      rcases progress.fresh (Nat.le_zero.mp above) with atStart | atEnd
      · exact absurd atStart.symm passed
      · exact atEnd.ge
    | _ =>
      have strictly := lt_of_le_of_ne (source ▸ below) passed
      exact strictly

/-- **Every step keeps the progress.** -/
theorem Progress.advance (progress : Progress start first stage state) (event : Event) :
    ∃ later, Progress start first later (state.advance event) := by
  cases event with
  | read opener fails =>
    simp only [Opening.advance]
    split
    · exact ⟨stage, progress.read opener fails⟩
    · exact ⟨stage, progress⟩
  | upgrade opener now interruptions =>
    simp only [Opening.advance]
    split
    case h_1 running => exact progress.runUpgrade opener now interruptions running
    case h_2 => exact ⟨stage, progress⟩
  | crash opener => exact ⟨stage, progress.setOpener opener trivial⟩

/-- An open that became failed is the one whose state was replaced. -/
theorem setOpener_failed {other opener : Nat} {became : Opener} {error : OpenError}
    (failed : (state.setOpener other became).openers opener = .failed error)
    (before : state.openers opener ≠ .failed error) : other = opener ∧ became = .failed error := by
  change Function.update state.openers other became opener = _ at failed
  by_cases same : opener = other
  · subst same
    rw [Function.update_self] at failed
    exact ⟨rfl, failed⟩
  · rw [Function.update_of_ne same] at failed
    exact absurd failed before

/-- A plan in progress is no failure. -/
theorem withPlan_ne_failed (rest : List Upgrade) (error : OpenError) :
    Opener.withPlan rest ≠ .failed error := by
  cases rest <;> rintro ⟨⟩

/-- **A step that fails an open** was disturbed from outside, and leaves the database as it
was. -/
theorem Progress.failed (progress : Progress start first stage state) (event : Event) {opener : Nat}
    {error : OpenError} (failed : (state.advance event).openers opener = .failed error)
    (before : state.openers opener ≠ .failed error) :
    event.Disturbs opener ∧ (state.advance event).catalog = state.catalog := by
  cases event with
  | read other fails =>
    simp only [Opening.advance] at failed ⊢
    split at failed
    · unfold Opening.read at failed ⊢
      by_cases stopped : fails
      · rw [if_pos stopped] at failed ⊢
        exact ⟨⟨(setOpener_failed failed before).1, stopped⟩, rfl⟩
      · rw [if_neg stopped, progress.staged.version, plan_versionAt progress.bounds.2] at failed
        exact absurd (setOpener_failed failed before).2 (withPlan_ne_failed _ _)
    · exact absurd failed before
  | upgrade other now interruptions =>
    simp only [Opening.advance] at failed ⊢
    split at failed
    case h_1 upgrade rest running =>
      unfold Opening.runUpgrade at failed ⊢
      rcases run_cases upgrade interruptions now progress.staged progress.bounds.2 with
        ⟨reason, threw, disturbed⟩ | ⟨_, done⟩ | ⟨_, nothing⟩
      · rw [threw] at failed ⊢
        exact ⟨⟨(setOpener_failed failed before).1, disturbed⟩, rfl⟩
      · rw [done] at failed
        exact absurd (setOpener_failed failed before).2 (withPlan_ne_failed _ _)
      · rw [nothing] at failed
        exact absurd (setOpener_failed failed before).2 (withPlan_ne_failed _ _)
    case h_2 => exact absurd failed before
  | crash other => cases (setOpener_failed failed before).2

/-- **Progress holds after any steps.** -/
theorem progress_after (staged : AtStage first start)
    (bounded : first ≤ 4) (events : List Event) :
    ∃ stage, Progress start first stage (events.foldl Opening.advance (.initial start)) := by
  induction events using List.reverseRecOn with
  | nil =>
    exact ⟨first, ⟨le_rfl, bounded⟩, fun new => .inl new, staged, .refl start, fun _ => trivial,
      List.nodup_nil, by rintro _ ⟨⟩⟩
  | append_singleton events event inductionHypothesis =>
    obtain ⟨stage, progress⟩ := inductionHypothesis
    rw [List.foldl_append]
    exact progress.advance event

/-- An open that failed met a failure from outside. -/
theorem failed_disturbed (staged : AtStage first start) (bounded : first ≤ 4) {events : List Event}
    {opener : Nat} {error : OpenError}
    (failed : (events.foldl Opening.advance (.initial start)).openers opener = .failed error) :
    ∃ event ∈ events, event.Disturbs opener := by
  induction events using List.reverseRecOn with
  | nil => cases failed
  | append_singleton events event inductionHypothesis =>
    rw [List.foldl_append] at failed
    by_cases before : (events.foldl Opening.advance (.initial start)).openers opener = .failed error
    · obtain ⟨earlier, member, disturbs⟩ := inductionHypothesis before
      exact ⟨earlier, List.mem_append_left _ member, disturbs⟩
    · obtain ⟨_, progress⟩ := progress_after staged bounded events
      exact ⟨event, by simp, (progress.failed event failed before).1⟩

end Steps

/-- **Concurrent opens end in one schema.** From a new file or a database at one of the
former versions, with any rows, after any steps of any number of opens: no transaction did
its work twice; an open only failed where one of its own SQL calls did; where an open
succeeded, the database has the current version and the schema of a new file; all rows keep
their values; and a further step that fails an open leaves the database as it was. -/
theorem openings_end_in_one_schema {start : Catalog} {first : Nat} (staged : AtStage first start)
    (former : first ≤ 3) (events : List Event) :
    let state := events.foldl Opening.advance (.initial start)
    state.applied.Nodup ∧
    (∀ opener error, state.openers opener = .failed error → ∃ event ∈ events, event.Disturbs opener) ∧
    (∀ opener, state.openers opener = .opened →
      readFormatVersion state.catalog = some formatVersion ∧
        state.catalog.schema = (Catalog.empty.run ddlV4).schema) ∧
    RowsKept start state.catalog ∧
    ∀ event opener error, (state.advance event).openers opener = .failed error →
      state.openers opener ≠ .failed error → (state.advance event).catalog = state.catalog := by
  have bounded : first ≤ 4 := former.trans (by decide)
  obtain ⟨stage, progress⟩ := progress_after staged bounded events
  refine ⟨progress.once, fun _ _ failed => failed_disturbed staged bounded failed, ?_, progress.kept, ?_⟩
  · intro opener opened
    have held := progress.openers opener
    rw [opened] at held
    obtain rfl : stage = 4 := held
    exact ⟨progress.staged.version, progress.staged.schema.trans schemaAt_current⟩
  · intro event opener error failed before
    exact (progress.failed event failed before).2

/-- A database at format version 1 with one item. -/
def oneItem : Catalog where
  schema := schemaV1
  rows name :=
    if name = "singularmem_meta" then
      [[some (.text "format_version"), some (.text "1")], [some (.text "created_at"), some (.text "then")]]
    else if name = "items" then
      [[some (.text "01"), some (.text "note"), some (.text "then"), none, none, some (.text "{}")]]
    else []

/-- It is at its stage. -/
theorem oneItem_staged : AtStage 1 oneItem := by
  refine ⟨rfl, by decide +kernel, ?_, ?_⟩
  · intro name table found row member
    change row ∈ ite _ _ _ at member
    split at member
    case isTrue own =>
      subst own
      cases found
      simp only [List.mem_cons, List.not_mem_nil, or_false] at member
      rcases member with rfl | rfl <;> rfl
    case isFalse =>
      split at member
      case isTrue own =>
        subst own
        cases found
        rw [List.mem_singleton.mp member]
        rfl
      case isFalse => cases member
  · intro name unfound
    change ite _ _ _ = _
    split
    case isTrue own =>
      subst own
      cases unfound
    case isFalse =>
      split
      case isTrue own =>
        subst own
        cases unfound
      case isFalse => rfl

/-- Two opens that read version 1 at once; the first crashes after its first migration. -/
def racingOpens : List Event :=
  [.read 0 false, .read 1 false, .upgrade 0 "now" .none, .crash 0, .upgrade 1 "now" .none,
    .upgrade 1 "now" .none, .upgrade 1 "now" .none]

/-- The second open finds the first migration done, and does the others. -/
theorem racing_opens_end_in_one_schema :
    (racingOpens.foldl Opening.advance (.initial oneItem)).applied =
      [.oneToTwo, .twoToThree, .threeToFour] ∧
    (racingOpens.foldl Opening.advance (.initial oneItem)).applied.Nodup :=
  ⟨by decide +kernel, (openings_end_in_one_schema oneItem_staged (by decide) racingOpens).1⟩

end Singularmem.Core.Migration
