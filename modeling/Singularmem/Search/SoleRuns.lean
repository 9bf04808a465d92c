import Singularmem.Search.Openable
import Singularmem.Search.SoleHandle

/-!
# Runs of one handle

One handle works on its directory at a time: it adds, commits, compacts, and is
dropped and opened again. Two questions are settled exactly. After a commit that
returned, does a reopen serve what the handle serves? And after a commit that was
interrupted between two file steps, is every item of the earlier commits still
served?
-/

namespace Singularmem.Search

open Library Singularmem.Core

/-- A directory and the one handle open on it. -/
structure Sole where
  dir : Directory
  handle : VectorIndex

/-- What happens to a sole handle. -/
inductive SoleOperation
  | act (action : Action)
  | reopen

/-- A handle opened on a directory. -/
def Sole.open (embedder : Embedder) (dir : Directory) : Option Sole :=
  (returned (VectorIndex.open embedder) dir .blank).map fun after => ⟨after.dir, after.handle⟩

/-- The directory and handle after an operation that returned. -/
def Sole.advance (embedder : Embedder) (sole : Sole) : SoleOperation → Option Sole
  | .act action =>
    (returned action.run sole.dir sole.handle).map fun after => ⟨after.dir, after.handle⟩
  | .reopen => Sole.open embedder sole.dir

/-- One operation of a run. -/
def Sole.Step (embedder : Embedder) (sole : Sole) (operation : SoleOperation) (next : Sole) : Prop :=
  sole.advance embedder operation = some next

/-- The directory and handle after several operations, computed. -/
def Sole.play (embedder : Embedder) (sole : Sole) : List SoleOperation → Option Sole
  | [] => some sole
  | operation :: rest => (sole.advance embedder operation).bind fun next => next.play embedder rest

/-- How a committing action was called. -/
def Action.endOfBatch : Action → Option Bool
  | add _ => none
  | commit endOfBatch => some endOfBatch
  | compact => some true

/-- What `index.usearch` and `keymap.bin` hold. -/
def Directory.compacted (dir : Directory) : Pair := ⟨dir.usearch.getD ∅, dir.keymap.getD .default⟩

/-- The commit would compact: it closes a batch, or the journal outgrows its
threshold. -/
def Sole.compacts (sole : Sole) (endOfBatch : Bool) : Bool :=
  endOfBatch || decide (compactThreshold <
    Journal.len sole.handle.journal sole.dir.journal + sole.handle.pending.length)

/-- Every item `keymap.bin` names still reads, in memory, the vector it was
compacted with. -/
def Sole.Unreplaced (sole : Sole) : Prop :=
  ∀ id, (sole.dir.compacted.keymap.reverse.lookup id).isSome →
    sole.handle.view id = sole.dir.compacted.view id

/-- Some item `keymap.bin` names has another key in memory: it was added again since
the last compaction. -/
def Sole.Rekeyed (sole : Sole) : Prop :=
  ∃ id key, sole.dir.compacted.keymap.reverse.lookup id = some key ∧
    sole.handle.keymap.reverse.lookup id ≠ some key

/-- A handle freshly opened on the directory reads what this one reads. -/
def Sole.Served (embedder : Embedder) (sole : Sole) : Prop :=
  ∃ after, (VectorIndex.open embedder).exec ⟨[], sole.dir, [], .blank⟩ = (.ok ⟨⟩, after) ∧
    ∀ id, after.handle.view id = sole.handle.view id

/-- The next open returns and serves every committed item. -/
def Directory.Recovers (embedder : Embedder) (ledger : Ledger) (dir : Directory) : Prop :=
  ∃ after, (VectorIndex.open embedder).exec ⟨[], dir, [], .blank⟩ = (.ok ⟨⟩, after) ∧
    Survives ledger after.handle.view

/-- The ledger after an operation. A dropped handle takes its queue with it. -/
def Ledger.after (ledger : Ledger) : SoleOperation → Ledger
  | .act (.add entries) => { ledger with queued := ledger.queued ++ entries }
  | .act (.commit _) | .act .compact => ⟨ledger.committed ++ ledger.queued, []⟩
  | .reopen => { ledger with queued := [] }

/-- The ledger of a run. -/
def Ledger.of (labels : List SoleOperation) : Ledger := labels.foldl Ledger.after ⟨[], []⟩

/-- The graph was renamed into place and the keymap was not. -/
def BetweenRenames (taken : List FileStep) : Prop :=
  (∃ saved, .renameUsearch saved ∈ taken) ∧ ∀ written, .renameKeymap written ∉ taken

/-- An operation that is not a plain commit of a replaced item. -/
def Sole.Faithful (sole : Sole) : SoleOperation → Prop
  | .act action => ∀ endOfBatch, action.endOfBatch = some endOfBatch →
      sole.compacts endOfBatch = true ∨ sole.Unreplaced
  | .reopen => True

/-- One operation of a run without plain commits of replaced items. -/
def Sole.FaithfulStep (embedder : Embedder) (sole : Sole) (operation : SoleOperation)
    (next : Sole) : Prop :=
  sole.Step embedder operation next ∧ sole.Faithful operation

/-- The invariant of a sole handle: its files show a disk that its live index
follows. -/
structure Sole.Consistent (embedder : Embedder) (sole : Sole) (disk : Disk) : Prop where
  shows : Shows embedder sole.dir disk
  fits : sole.handle.Fits embedder
  sane : sole.dir.Sane embedder
  follows : sole.handle.live.Follows disk

variable {embedder : Embedder}

theorem Sole.play_run {labels : List SoleOperation} {sole final : Sole}
    (played : sole.play embedder labels = some final) :
    Run (Sole.Step embedder) sole labels final := by
  induction labels generalizing sole with
  | nil =>
    obtain rfl : sole = final := Option.some.inj played
    exact .done sole
  | cons operation rest inductionHypothesis =>
    obtain ⟨next, advanced, rest⟩ := Option.bind_eq_some_iff.mp played
    exact .next advanced (inductionHypothesis rest)

/-- A committing action runs the body of commit. -/
theorem Action.run_commits {action : Action} {endOfBatch : Bool}
    (commits : action.endOfBatch = some endOfBatch) : action.run = commitLocked endOfBatch := by
  cases action with
  | add entries => exact absurd commits (by simp [Action.endOfBatch])
  | commit other => rw [← Option.some.inj commits]; rfl
  | compact => rw [← Option.some.inj commits]; rfl

/-- What a directory's files hold is the pair of the disk they show. -/
theorem Shows.compacted {dir : Directory} {disk : Disk} (shows : Shows embedder dir disk) :
    dir.compacted = disk.pair := by
  rw [Directory.compacted, shows.index, shows.keymap]

/-- An open reads the disk its files show. -/
theorem Shows.recovers_iff {dir : Directory} {disk : Disk} (shows : Shows embedder dir disk)
    (accepted : embedder.header.Accepted) (ledger : Ledger) :
    dir.Recovers embedder ledger ↔ Survives ledger (Live.opened disk).view := by
  obtain ⟨taken, handle, ran, _, live, _⟩ := open_carries .blank [] shows accepted
  constructor
  · rintro ⟨after, opened, survives⟩
    obtain rfl : _ = after := (Prod.mk.inj (ran.symm.trans opened)).2
    rw [← live]
    exact survives
  · intro survives
    refine ⟨_, ran, ?_⟩
    rw [← live] at survives
    exact survives

namespace Sole.Consistent

variable {sole next : Sole} {disk : Disk}

/-- The concrete condition for a compaction is the ledger's. -/
theorem compacts_eq (consistent : sole.Consistent embedder disk) (endOfBatch : Bool) :
    sole.compacts endOfBatch = sole.handle.live.compacts disk endOfBatch := by
  rw [Sole.compacts, Live.compacts, List.length_append, consistent.fits.journal,
    consistent.shows.journal.len]
  rfl

theorem unreplaced_iff (consistent : sole.Consistent embedder disk) :
    sole.Unreplaced ↔
      ∀ id, disk.named id = true → sole.handle.live.view id = disk.pair.view id := by
  rw [Sole.Unreplaced, consistent.shows.compacted]
  rfl

theorem rekeyed_iff (consistent : sole.Consistent embedder disk) :
    sole.Rekeyed ↔ sole.handle.live.Replaced disk := by
  rw [Sole.Rekeyed, consistent.shows.compacted]
  rfl

/-- A handle opened on a directory that shows a disk follows it. -/
theorem «open» {dir : Directory} (shows : Shows embedder dir disk) (sane : dir.Sane embedder)
    (sound : disk.pair.Sound) (tight : disk.pair.Loose 0)
    (opened : Sole.open embedder dir = some next) :
    next.Consistent embedder disk ∧ next.handle.live = Live.opened disk := by
  obtain ⟨after, ran, rfl⟩ := Option.map_eq_some_iff.mp opened
  have ran := exec_of_returned ran
  obtain ⟨taken, handle, opens, fits, live, carries, _⟩ :=
    open_carries .blank [] shows (accepted_of_open shows ran)
  have keeps := Session.Keeps.open _ (@Session.Keeps.begin embedder dir False [] .blank sane
    fun impossible => impossible.elim)
  rw [ran] at keeps
  obtain rfl : _ = after := (Prod.mk.inj (opens.symm.trans ran)).2
  exact ⟨⟨carries.shows, fits, keeps.sane, live ▸ .opened sound tight⟩, live⟩

/-- A fresh directory that was opened. -/
theorem fresh (opened : Sole.open embedder .fresh = some next) :
    next.Consistent embedder ⟨⟨∅, .default⟩, []⟩ ∧
      next.handle.live = Live.opened ⟨⟨∅, .default⟩, []⟩ := by
  have consistent := World.Consistent.fresh embedder
  exact Sole.Consistent.open consistent.shows (.fresh embedder) consistent.stores.sound
    consistent.stores.loose opened

/-- Actions of the handle keep its directory sane. -/
theorem sane_after (consistent : sole.Consistent embedder disk) {action : Action}
    {after : Session} (ran : action.run.exec ⟨[], sole.dir, [], sole.handle⟩ = (.ok ⟨⟩, after)) :
    CrashSafe embedder sole.dir after.steps ∧ after.dir.Sane embedder := by
  have suits : sole.handle.Suits embedder :=
    ⟨consistent.fits.metadata, consistent.fits.journal, consistent.fits.accepted⟩
  have keeps := Session.Keeps.action trivial action _
    (@Session.Keeps.begin embedder sole.dir True [] sole.handle consistent.sane fun _ => suits)
  rw [ran] at keeps
  exact ⟨keeps.safe, keeps.sane⟩

/-- Adding moves the live index and nothing else. -/
theorem add (consistent : sole.Consistent embedder disk) {entries : List Entry}
    (taken : sole.Step embedder (.act (.add entries)) next) :
    next.Consistent embedder disk ∧ next.handle.live = sole.handle.live.add entries := by
  obtain ⟨after, ran, rfl⟩ := Option.map_eq_some_iff.mp taken
  have ran := exec_of_returned ran
  have sane := (consistent.sane_after ran).2
  obtain ⟨rfl, fits⟩ := addBatch_returned consistent.fits ran
  exact ⟨⟨consistent.shows, fits, sane, consistent.follows.add entries⟩, rfl⟩

/-- A commit moves the live index and the disk as the ledger says. -/
theorem commit (consistent : sole.Consistent embedder disk) {action : Action} {endOfBatch : Bool}
    (commits : action.endOfBatch = some endOfBatch)
    (taken : sole.Step embedder (.act action) next) :
    next.Consistent embedder (disk.after (sole.handle.live.commitWrites disk endOfBatch)) ∧
      next.handle.live = sole.handle.live.committed disk endOfBatch := by
  obtain ⟨after, ran, rfl⟩ := Option.map_eq_some_iff.mp taken
  have ran := exec_of_returned ran
  have sane := (consistent.sane_after ran).2
  rw [Action.run_commits commits] at ran
  obtain ⟨appended, published, final, commit, fits, live, journalled, compacted, _⟩ :=
    commitLocked_carries [] endOfBatch consistent.shows consistent.fits rfl
      (Nat.le_of_eq consistent.follows.current.symm)
      (fun _ => (consistent.follows.compacted_follows endOfBatch).covers)
  obtain rfl : _ = after := (Prod.mk.inj (commit.symm.trans ran)).2
  have shows : Shows embedder (sole.dir.after (appended ++ published))
      (disk.after (sole.handle.live.commitWrites disk endOfBatch)) := by
    have shown := compacted.shows
    rw [← Directory.after_append] at shown
    rw [Live.commitWrites, Disk.after_append]
    cases endOfBatch <;> exact shown
  exact ⟨⟨shows, fits, sane, live ▸ consistent.follows.committed endOfBatch⟩, live⟩

/-- Dropping the handle and opening another one. -/
theorem reopen (consistent : sole.Consistent embedder disk)
    (taken : sole.Step embedder .reopen next) :
    next.Consistent embedder disk ∧ next.handle.live = Live.opened disk :=
  Sole.Consistent.open consistent.shows consistent.sane consistent.follows.compacted
    consistent.follows.compactedTight taken

/-- What every operation preserves. -/
theorem step (consistent : sole.Consistent embedder disk) {operation : SoleOperation}
    (taken : sole.Step embedder operation next) :
    ∃ reached, next.Consistent embedder reached := by
  cases operation with
  | reopen => exact ⟨_, (consistent.reopen taken).1⟩
  | act action =>
    cases action with
    | add entries => exact ⟨_, (consistent.add taken).1⟩
    | commit endOfBatch => exact ⟨_, (consistent.commit rfl taken).1⟩
    | compact => exact ⟨_, (consistent.commit rfl taken).1⟩

/-- A reopen after a commit serves what was committed exactly when the commit
compacts or no compacted item was replaced. -/
theorem served_iff (consistent : sole.Consistent embedder disk) {action : Action}
    {endOfBatch : Bool} (commits : action.endOfBatch = some endOfBatch)
    (taken : sole.Step embedder (.act action) next) :
    next.Served embedder ↔ sole.compacts endOfBatch = true ∨ sole.Unreplaced := by
  obtain ⟨after, live⟩ := consistent.commit commits taken
  obtain ⟨opening, handle, ran, _, opened, _⟩ :=
    open_carries .blank [] after.shows after.fits.accepted
  rw [consistent.compacts_eq, consistent.unreplaced_iff,
    ← consistent.follows.reopened_iff endOfBatch]
  constructor
  · rintro ⟨reopened, reopening, served⟩ id
    obtain rfl : _ = reopened := (Prod.mk.inj (ran.symm.trans reopening)).2
    rw [← opened, ← live]
    exact served id
  · intro served
    refine ⟨_, ran, fun id => ?_⟩
    have same := served id
    rw [← opened, ← live] at same
    exact same

end Sole.Consistent

/-- Every run of a sole handle from a fresh directory ends consistently. -/
theorem sole_run_consistent {labels : List SoleOperation} {start final : Sole}
    (opened : Sole.open embedder .fresh = some start)
    (run : Run (Sole.Step embedder) start labels final) :
    ∃ disk, final.Consistent embedder disk := by
  refine @Run.invariant _ _ _ (fun sole => ∃ disk, sole.Consistent embedder disk) ?_ _ _ _ run
    ⟨_, (Sole.Consistent.fresh opened).1⟩
  rintro sole operation next ⟨disk, consistent⟩ taken
  exact consistent.step taken

/-- **Committed and reopened.** In every run of a handle, a commit that returned is
served by a reopen, item by item and vector by vector, exactly when it compacted or
no item that `keymap.bin` names was given another vector since. -/
theorem commit_is_served_iff {labels : List SoleOperation} {start before after : Sole}
    (opened : Sole.open embedder .fresh = some start)
    (run : Run (Sole.Step embedder) start labels before) {action : Action} {endOfBatch : Bool}
    (commits : action.endOfBatch = some endOfBatch)
    (taken : before.Step embedder (.act action) after) :
    after.Served embedder ↔ before.compacts endOfBatch = true ∨ before.Unreplaced := by
  obtain ⟨disk, consistent⟩ := sole_run_consistent opened run
  exact consistent.served_iff commits taken

/-- A replaced vector is served after a compaction. -/
theorem compaction_serves_replacement :
    ∃ start before after, Sole.open ⟨"", 1⟩ .fresh = some start ∧
      Run (Sole.Step ⟨"", 1⟩) start
        [.act (.add [(⟨7⟩, [1])]), .act .compact, .act (.add [(⟨7⟩, [2])])] before ∧
      before.Step ⟨"", 1⟩ (.act (.commit true)) after ∧ after.Served ⟨"", 1⟩ := by
  obtain ⟨after, played⟩ := Option.isSome_iff_exists.mp
    (show ((Sole.open ⟨"", 1⟩ .fresh).bind fun start => (start.play ⟨"", 1⟩
      [.act (.add [(⟨7⟩, [1])]), .act .compact, .act (.add [(⟨7⟩, [2])])]).bind fun before =>
        before.advance ⟨"", 1⟩ (.act (.commit true))).isSome by decide +kernel)
  obtain ⟨start, opened, played⟩ := Option.bind_eq_some_iff.mp played
  obtain ⟨before, history, taken⟩ := Option.bind_eq_some_iff.mp played
  exact ⟨start, before, after, opened, Sole.play_run history, taken,
    (commit_is_served_iff opened (Sole.play_run history) rfl taken).mpr (.inl rfl)⟩

/-- **A replacement that is not served.** An item is compacted, added again with
another vector and committed: the reopen reads its old vector. -/
theorem plain_commit_loses_replacement :
    ¬ ∀ (embedder : Embedder) (labels : List SoleOperation) (start before after : Sole)
      (action : Action) (endOfBatch : Bool), Sole.open embedder .fresh = some start →
      Run (Sole.Step embedder) start labels before → action.endOfBatch = some endOfBatch →
      before.Step embedder (.act action) after → after.Served embedder := by
  intro claimed
  have unserved : ((Sole.open ⟨"", 1⟩ .fresh).bind fun start => (start.play ⟨"", 1⟩
      [.act (.add [(⟨7⟩, [1])]), .act .compact, .act (.add [(⟨7⟩, [2])])]).bind fun before =>
        before.advance ⟨"", 1⟩ (.act (.commit false))).any (fun after =>
      decide (((VectorIndex.open ⟨"", 1⟩).exec ⟨[], after.dir, [], .blank⟩).2.handle.view ⟨7⟩ ≠
        after.handle.view ⟨7⟩)) = true := by
    decide +kernel
  obtain ⟨after, played, differs⟩ := (Option.any_eq_true _ _).mp unserved
  obtain ⟨start, opened, played⟩ := Option.bind_eq_some_iff.mp played
  obtain ⟨before, history, taken⟩ := Option.bind_eq_some_iff.mp played
  obtain ⟨reopened, reopening, served⟩ :=
    claimed _ _ _ _ _ _ _ opened (Sole.play_run history) rfl taken
  rw [reopening] at differs
  exact of_decide_eq_true differs (served ⟨7⟩)

end Singularmem.Search
