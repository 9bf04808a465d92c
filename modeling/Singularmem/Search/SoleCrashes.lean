import Singularmem.Search.SoleRuns

/-!
# Interrupted commits of one handle

A run without plain commits of replaced items keeps the ledger: a reopen reads
every committed item with its last committed vector. Its last commit is then
interrupted after any number of file steps.

A committed item survives at every crash point but two. The journal was created
and its header not written: the next open fails. Or the new graph stands beside
the old keymap, and an item that this keymap names was given another key: the key
it names is gone, and replay skips the item.
-/

namespace Singularmem.Search

open Library Singularmem.Core

namespace Live.Accounts

variable {live : Live} {disk : Disk} {ledger : Ledger}

/-- Adding entries queues them. -/
theorem add (accounts : live.Accounts disk ledger) (follows : live.Follows disk)
    (entries : List Entry) :
    (live.add entries).Accounts disk { ledger with queued := ledger.queued ++ entries } where
  queue := congrArg (· ++ entries) accounts.queue
  reads := fun id => by
    rw [add_view follows.sound.wellFormed, accounts.reads, latest_append, Option.or_assoc]
  compacted := accounts.compacted
  journalled := accounts.journalled

/-- A commit that compacts, or that replaces no compacted item, commits the queue. -/
theorem commit (accounts : live.Accounts disk ledger) (follows : live.Follows disk)
    {endOfBatch : Bool}
    (faithful : live.compacts disk endOfBatch = true ∨
      ∀ id, disk.named id = true → live.view id = disk.pair.view id) :
    (live.committed disk endOfBatch).Accounts (disk.after (live.commitWrites disk endOfBatch))
      ⟨ledger.committed ++ ledger.queued, []⟩ := by
  have queue : (live.committed disk endOfBatch).pending = [] := by
    rw [Live.committed]
    split <;> rfl
  have reads : ∀ id, live.view id = latest (ledger.committed ++ ledger.queued) id := by
    intro id
    rw [accounts.reads, latest_append]
  have after := follows.committed endOfBatch
  refine ⟨queue, ?_, ?_, ?_⟩
  · intro id
    rw [follows.committed_view, reads]
    rfl
  all_goals
    intro id held
    rw [Disk.after_commitWrites] at held after ⊢
  · by_cases compacts : live.compacts disk endOfBatch = true
    · rw [if_pos compacts]
      rw [← reads, ← follows.committed_view endOfBatch, Live.committed, if_pos compacts]
      rfl
    · rw [if_neg compacts] at held ⊢
      rw [← reads]
      exact ((faithful.resolve_left compacts) id held).symm
  · by_cases compacts : live.compacts disk endOfBatch = true
    · rw [if_pos compacts] at held ⊢
      have unnamed : ((live.compacted disk endOfBatch).published.pair).view id = none :=
        Pair.view_unnamed (by simpa [Disk.named] using held)
      rw [← reads, ← follows.committed_view endOfBatch, Live.committed, if_pos compacts]
      exact unnamed.symm
    · rw [if_neg compacts] at held ⊢
      have unnamed : disk.named id = false := held
      change latest (disk.journal ++ live.pending) id = _
      rw [latest_append, latest_append, accounts.queue, accounts.journalled id unnamed]

/-- A dropped handle takes its queue with it. -/
theorem reopen (accounts : live.Accounts disk ledger) (follows : live.Follows disk) :
    (Live.opened disk).Accounts disk { ledger with queued := [] } where
  queue := rfl
  reads := fun id => by
    rw [opened_view follows.compacted.wellFormed]
    cases held : disk.named id with
    | true => exact (if_pos held).trans (accounts.compacted id held)
    | false => exact (if_neg (ne_true_of_eq_false held)).trans (accounts.journalled id held)
  compacted := accounts.compacted
  journalled := accounts.journalled

/-- A fresh open has nothing to account for. -/
theorem fresh : (Live.opened ⟨⟨∅, .default⟩, []⟩).Accounts ⟨⟨∅, .default⟩, []⟩ ⟨[], []⟩ where
  queue := rfl
  reads := fun _ => rfl
  compacted := fun _ held => absurd held (by simp [Disk.named, Keymap.default])
  journalled := fun _ _ => rfl

end Live.Accounts

variable {embedder : Embedder}

/-- What every faithful operation preserves. -/
theorem Sole.Consistent.account {sole next : Sole} {disk : Disk} {ledger : Ledger}
    (consistent : sole.Consistent embedder disk) (accounts : sole.handle.live.Accounts disk ledger)
    {operation : SoleOperation} (taken : sole.FaithfulStep embedder operation next) :
    ∃ reached, next.Consistent embedder reached ∧
      next.handle.live.Accounts reached (ledger.after operation) := by
  obtain ⟨taken, faithful⟩ := taken
  have committed : ∀ {action : Action} {endOfBatch : Bool},
      action.endOfBatch = some endOfBatch → sole.Step embedder (.act action) next →
      sole.Faithful (.act action) → ∃ reached, next.Consistent embedder reached ∧
        next.handle.live.Accounts reached ⟨ledger.committed ++ ledger.queued, []⟩ := by
    intro action endOfBatch commits taken faithful
    obtain ⟨after, live⟩ := consistent.commit commits taken
    refine ⟨_, after, ?_⟩
    rw [live]
    refine accounts.commit consistent.follows ?_
    rw [← consistent.compacts_eq, ← consistent.unreplaced_iff]
    exact faithful endOfBatch commits
  cases operation with
  | reopen =>
    obtain ⟨after, live⟩ := consistent.reopen taken
    exact ⟨_, after, live ▸ accounts.reopen consistent.follows⟩
  | act action =>
    cases action with
    | add entries =>
      obtain ⟨after, live⟩ := consistent.add taken
      exact ⟨_, after, live ▸ accounts.add consistent.follows entries⟩
    | commit endOfBatch => exact committed rfl taken faithful
    | compact => exact committed rfl taken faithful

/-- Every faithful run from a fresh directory keeps its ledger. -/
theorem faithful_run_accounts {labels : List SoleOperation} {start final : Sole}
    (opened : Sole.open embedder .fresh = some start)
    (run : Run (Sole.FaithfulStep embedder) start labels final) :
    ∃ disk, final.Consistent embedder disk ∧
      final.handle.live.Accounts disk (Ledger.of labels) := by
  refine Run.history (fun past sole => ∃ disk, sole.Consistent embedder disk ∧
    sole.handle.live.Accounts disk (Ledger.of past)) (fun _ => True) ?_ run ?_
    fun _ _ => trivial
  · rintro past sole operation next ⟨disk, consistent, accounts⟩ taken _
    rw [Ledger.of, List.foldl_append]
    exact consistent.account accounts taken
  · obtain ⟨consistent, live⟩ := Sole.Consistent.fresh opened
    exact ⟨_, consistent, live ▸ .fresh⟩

section Files

variable {live : Live} {steps : List FileStep}

/-- Once the stamped keymap was renamed into place it stays. -/
theorem keymap_settled (publishes : ∀ step ∈ steps, Publishes live step) {written : Keymap}
    (renamed : .renameKeymap written ∈ steps) (dir : Directory) :
    (dir.after steps).keymap = some live.stamped := by
  have same : written = live.stamped := publishes _ renamed
  refine @Directory.after_settles (fun dir => dir.keymap = some live.stamped) _ _ renamed
    (fun _ => congrArg some same) ?_ dir
  intro step member dir held
  cases step with
  | renameKeymap other => exact congrArg some (publishes _ member)
  | createTemp | removeTemp | renameMeta | renameUsearch | removeUsearch | createJournal
  | writeJournal | setLenJournal => exact held

/-- Without that rename the keymap is the old one. -/
theorem keymap_kept (unrenamed : ∀ written, .renameKeymap written ∉ steps) (dir : Directory) :
    (dir.after steps).keymap = dir.keymap := by
  refine @Directory.after_keeps (fun after => after.keymap = dir.keymap) _ ?_ dir rfl
  intro step member dir held
  cases step with
  | renameKeymap other => exact absurd member (unrenamed other)
  | createTemp | removeTemp | renameMeta | renameUsearch | removeUsearch | createJournal
  | writeJournal | setLenJournal => exact held

/-- Once the new graph was renamed into place, or the old one removed for an empty
one, it stays. -/
theorem graph_settled (publishes : ∀ step ∈ steps, Publishes live step) {settling : FileStep}
    (taken : settling ∈ steps) (dir : Directory)
    (settles : (∃ saved, settling = .renameUsearch saved) ∨ settling = .removeUsearch) :
    (dir.after steps).usearch.getD ∅ = live.pair.index := by
  refine @Directory.after_settles (fun dir => dir.usearch.getD ∅ = live.pair.index) _ _ taken
    ?_ ?_ dir
  · intro dir
    rcases settles with ⟨saved, rfl⟩ | rfl
    · exact publishes _ taken
    · have empty : live.pair.index = ∅ := publishes _ taken
      exact empty.symm
  · intro step member dir held
    cases step with
    | renameUsearch other => exact publishes _ member
    | removeUsearch =>
      have empty : live.pair.index = ∅ := publishes _ member
      exact empty.symm
    | createTemp | removeTemp | renameMeta | renameKeymap | createJournal | writeJournal
    | setLenJournal => exact held

/-- Without these steps the graph is the old one. -/
theorem graph_kept (unrenamed : ∀ saved, .renameUsearch saved ∉ steps)
    (unremoved : .removeUsearch ∉ steps) (dir : Directory) :
    (dir.after steps).usearch = dir.usearch := by
  refine @Directory.after_keeps (fun after => after.usearch = dir.usearch) _ ?_ dir rfl
  intro step member dir held
  cases step with
  | renameUsearch other => exact absurd member (unrenamed other)
  | removeUsearch => exact absurd member unremoved
  | createTemp | removeTemp | renameMeta | renameKeymap | createJournal | writeJournal
  | setLenJournal => exact held

end Files

namespace Live.Follows

variable {live : Live} {disk : Disk} {dir : Directory} {begun : List FileStep}
  {journal : List Entry}

/-- The disk that an interrupted publication shows: the graph and keymap its files
hold, and the journal until the keymap was replaced. -/
theorem publication_shows (follows : live.Follows disk)
    (publishes : ∀ step ∈ begun, Publishes live step)
    (before : Shows embedder dir ⟨disk.pair, journal⟩) {writes : List Write}
    (isPrefix : writes <+: live.publishWrites)
    (shows : Shows embedder (dir.after begun) ((⟨disk.pair, journal⟩ : Disk).after writes)) :
    ((∃ written, .renameKeymap written ∈ begun) ∧
        ∃ left, Shows embedder (dir.after begun) ⟨live.published.pair, left⟩) ∨
      ((∀ written, .renameKeymap written ∉ begun) ∧
        Shows embedder (dir.after begun)
          ⟨⟨(dir.after begun).usearch.getD ∅, disk.pair.keymap⟩, journal⟩) := by
  have moved : live.stamped ≠ disk.pair.keymap := by
    intro same
    have generation := congrArg Keymap.generation same
    rw [follows.current] at generation
    exact absurd generation (Nat.succ_ne_self _)
  have keymap := shows.keymap
  have index := shows.index
  by_cases renamed : ∃ written, .renameKeymap written ∈ begun
  · obtain ⟨written, member⟩ := renamed
    rw [keymap_settled publishes member, Option.getD_some] at keymap
    refine .inl ⟨⟨written, member⟩, ?_⟩
    rcases publishWrites_prefix isPrefix with rfl | rfl | rfl | rfl
    · exact absurd keymap moved
    · exact absurd keymap moved
    · exact ⟨_, shows⟩
    · exact ⟨_, shows⟩
  · rw [not_exists] at renamed
    rw [keymap_kept renamed, before.keymap] at keymap
    refine .inr ⟨renamed, ?_⟩
    rw [index]
    rcases publishWrites_prefix isPrefix with rfl | rfl | rfl | rfl
    · exact shows
    · exact shows
    · exact absurd keymap.symm moved
    · exact absurd keymap.symm moved

end Live.Follows

namespace Live.Accounts

variable {live : Live} {disk : Disk} {ledger : Ledger} {dir : Directory} {begun : List FileStep}

/-- An interrupted publication loses a committed item exactly when it was interrupted
between its renames and an item of the old keymap has another key. -/
theorem publication_recovers_iff (accounts : live.Accounts disk ledger)
    (follows : live.Follows disk) (accepted : embedder.header.Accepted) {part : List Entry}
    (queued : ∀ entry ∈ part, entry ∈ ledger.queued)
    (publishes : ∀ step ∈ begun, Publishes live step)
    (before : Shows embedder dir ⟨disk.pair, disk.journal ++ part⟩) {writes : List Write}
    (isPrefix : writes <+: live.publishWrites)
    (shows : Shows embedder (dir.after begun)
      ((⟨disk.pair, disk.journal ++ part⟩ : Disk).after writes)) :
    (dir.after begun).Recovers embedder ledger ↔
      ¬ (BetweenRenames begun ∧ live.Replaced disk) := by
  rcases follows.publication_shows publishes before isPrefix shows with
    ⟨⟨written, renamed⟩, left, shown⟩ | ⟨unrenamed, shown⟩
  · rw [shown.recovers_iff accepted]
    refine iff_of_true (accounts.survives_published follows left) ?_
    exact fun torn => torn.1.2 written renamed
  · rw [shown.recovers_iff accepted]
    by_cases torn : ∃ saved, .renameUsearch saved ∈ begun
    · obtain ⟨saved, member⟩ := torn
      rw [graph_settled publishes member dir (.inl ⟨saved, rfl⟩),
        accounts.survives_torn_iff follows queued, not_iff_not]
      exact (and_iff_right ⟨⟨saved, member⟩, unrenamed⟩).symm
    · refine iff_of_true ?_ fun both => torn both.1.1
      rw [not_exists] at torn
      by_cases removed : .removeUsearch ∈ begun
      · have settled := graph_settled publishes removed dir (.inr rfl)
        have empty : live.pair.index = ∅ := publishes _ removed
        rw [settled, accounts.survives_torn_iff follows queued]
        rintro ⟨id, key, named, _⟩
        have nothing := (follows.covers empty).1
        have owner := (follows.compacted.wellFormed.inverse id key).mp named
        rw [nothing] at owner
        exact absurd owner (by simp)
      · rw [graph_kept torn removed, before.index]
        exact accounts.survives_append follows queued

end Live.Accounts

/-- A sane directory's journal is not an empty file. -/
theorem Directory.Sane.journal_ne {dir : Directory} (sane : dir.Sane embedder) :
    dir.journal ≠ some [] := by
  intro empty
  obtain ⟨_, nothing⟩ := sane.journal [] empty
  have length := congrArg List.length (List.prefix_nil.mp nothing)
  have positive := header_pos embedder.header
  rw [JournalHeader.headerLen, length] at positive
  exact Nat.lt_irrefl 0 positive

/-- Some of the appends, carried out, put a part of the queue behind the journal. -/
theorem Disk.after_appends_prefix (disk : Disk) {parts : List (List Entry)} {writes : List Write}
    (isPrefix : writes <+: parts.map .append) :
    ∃ part, disk.after writes = ⟨disk.pair, disk.journal ++ part⟩ ∧
      ∀ entry ∈ part, entry ∈ parts.flatten := by
  have taken : writes = (parts.take writes.length).map .append := by
    rw [List.map_take]
    exact List.prefix_iff_eq_take.mp isPrefix
  refine ⟨(parts.take writes.length).flatten, ?_, ?_⟩
  · exact (congrArg disk.after taken).trans (Disk.after_appends disk _)
  · intro entry member
    obtain ⟨part, inside, found⟩ := List.mem_flatten.mp member
    exact List.mem_flatten.mpr ⟨part, List.mem_of_mem_take inside, found⟩

/-- The part of the queue a commit journals before it compacts. -/
def Live.journalledPart (live : Live) (endOfBatch : Bool) : List Entry :=
  if endOfBatch then [] else live.pending

/-- Journalling that part. -/
theorem after_journalledPart (live : Live) (disk : Disk) (endOfBatch : Bool) :
    disk.after (if endOfBatch then [] else live.appendWrites) =
      ⟨disk.pair, disk.journal ++ live.journalledPart endOfBatch⟩ := by
  cases endOfBatch with
  | true => exact congrArg (Disk.mk disk.pair) (List.append_nil disk.journal).symm
  | false => exact disk.after_appendWrites live

/-- A compaction starts from the disk with that part journalled. -/
theorem beforeCompaction_disk (live : Live) (disk : Disk) (endOfBatch : Bool) :
    (live.beforeCompaction disk endOfBatch).2 =
      ⟨disk.pair, disk.journal ++ live.journalledPart endOfBatch⟩ := by
  rw [← after_journalledPart]
  cases endOfBatch <;> rfl

theorem mem_journalledPart {live : Live} {endOfBatch : Bool} {entry : Entry}
    (member : entry ∈ live.journalledPart endOfBatch) : entry ∈ live.pending := by
  rw [Live.journalledPart] at member
  split at member
  · exact absurd member List.not_mem_nil
  · exact member

/-- Some of the appends of a commit put a part of the queue behind the journal. -/
theorem after_some_appends (live : Live) (disk : Disk) (endOfBatch : Bool) {writes : List Write}
    (isPrefix : writes <+: if endOfBatch then [] else live.appendWrites) :
    ∃ part, disk.after writes = ⟨disk.pair, disk.journal ++ part⟩ ∧
      ∀ entry ∈ part, entry ∈ live.pending := by
  cases endOfBatch with
  | true =>
    rw [if_pos rfl, List.prefix_nil] at isPrefix
    subst isPrefix
    exact ⟨[], by rw [List.append_nil]; rfl, by simp⟩
  | false =>
    obtain ⟨part, same, queued⟩ := disk.after_appends_prefix isPrefix
    rw [chunks_flatten (by decide) _ _ (Nat.le_refl _)] at queued
    exact ⟨part, same, queued⟩

/-- A sole handle publishes its own graph and keymap, whether or not it journalled
its queue before. -/
theorem Live.Follows.publishes_own {live : Live} {disk : Disk} (follows : live.Follows disk)
    (endOfBatch : Bool) : (live.compacted disk endOfBatch).publishWrites = live.publishWrites ∧
      ∀ step, Publishes (live.compacted disk endOfBatch) step → Publishes live step := by
  rw [follows.compacted_eq]
  cases endOfBatch with
  | true => exact ⟨rfl, fun _ => id⟩
  | false => exact ⟨rfl, fun step => by cases step <;> exact id⟩

/-- Only the compaction's own steps count. -/
theorem betweenRenames_append {appended begun : List FileStep}
    (appends : ∀ step ∈ appended, ¬ step.ofCompaction) :
    BetweenRenames (appended ++ begun) ↔ BetweenRenames begun := by
  have graph : ∀ saved, .renameUsearch saved ∉ appended := fun saved member => appends _ member rfl
  have keymap : ∀ written, .renameKeymap written ∉ appended :=
    fun written member => appends _ member rfl
  simp [BetweenRenames, List.mem_append, graph, keymap]

namespace Sole.Consistent

variable {sole : Sole} {disk : Disk} {ledger : Ledger}

/-- A commit interrupted after any number of its file steps loses nothing that was
committed, unless it left the journal without its header or was interrupted between
the renames while an item of the old keymap had another key. -/
theorem interrupted_iff (consistent : sole.Consistent embedder disk)
    (accounts : sole.handle.live.Accounts disk ledger) {action : Action} {endOfBatch : Bool}
    (commits : action.endOfBatch = some endOfBatch) {after : Session}
    (ran : action.run.exec ⟨[], sole.dir, [], sole.handle⟩ = (.ok ⟨⟩, after)) (done : Nat) :
    (sole.dir.after (after.steps.take done)).Recovers embedder ledger ↔
      (after.steps.take done).getLast? ≠ some .createJournal ∧
        ¬ (BetweenRenames (after.steps.take done) ∧ sole.Rekeyed) := by
  have accepted := consistent.fits.accepted
  have follows := consistent.follows
  have split := (List.take_append_drop done after.steps).symm
  rcases (consistent.sane_after ran).1 _ _ split with sane | ⟨created, _⟩
  · have uncreated : (after.steps.take done).getLast? ≠ some .createJournal :=
      fun created => sane.journal_ne (journal_of_created created)
    rw [consistent.rekeyed_iff, and_iff_right uncreated]
    rw [Action.run_commits commits] at ran
    obtain ⟨appended, published, final, commit, _, _, journalled, compacted, appends, publishes⟩ :=
      commitLocked_carries [] endOfBatch consistent.shows consistent.fits rfl
        (Nat.le_of_eq follows.current.symm)
        (fun _ => (follows.compacted_follows endOfBatch).covers)
    obtain rfl : _ = after := (Prod.mk.inj (commit.symm.trans ran)).2
    have split : appended ++ published =
        (appended ++ published).take done ++ (appended ++ published).drop done :=
      (List.take_append_drop done _).symm
    change Directory.Sane embedder (sole.dir.after ((appended ++ published).take done)) at sane
    change (sole.dir.after ((appended ++ published).take done)).Recovers embedder ledger ↔
      ¬ (BetweenRenames ((appended ++ published).take done) ∧ _)
    generalize (appended ++ published).take done = taken at split sane ⊢
    rcases List.append_eq_append_iff.mp split with ⟨begun, rfl, left⟩ | ⟨missing, rfl, _⟩
    · obtain ⟨sameWrites, sameSteps⟩ := follows.publishes_own endOfBatch
      have begins : ∀ step ∈ begun, Publishes sole.handle.live step := fun step member =>
        sameSteps step (publishes step (left ▸ List.mem_append_left _ member))
      have before := journalled.shows
      rw [after_journalledPart] at before
      rw [beforeCompaction_disk, sameWrites] at compacted
      rw [betweenRenames_append appends, Directory.after_append]
      rcases compacted.crash begun ⟨_, left.symm⟩ with ⟨impossible, _⟩ | ⟨writes, isPrefix, shows⟩
      · exact impossible.elim
      · refine accounts.publication_recovers_iff follows accepted
          (fun entry member => accounts.queue ▸ mem_journalledPart member) begins before
          (isPrefix.trans ?_) shows
        split
        · exact List.prefix_rfl
        · exact List.nil_prefix
    · refine iff_of_true ?_ ?_
      · rcases journalled.crash taken ⟨missing, rfl⟩ with ⟨_, empty⟩ | ⟨writes, isPrefix, shows⟩
        · exact absurd empty sane.journal_ne
        · obtain ⟨part, same, queued⟩ := after_some_appends _ disk endOfBatch isPrefix
          rw [same] at shows
          rw [Directory.after, shows.recovers_iff accepted]
          exact accounts.survives_append follows fun entry member =>
            accounts.queue ▸ queued entry member
      · rintro ⟨⟨⟨saved, member⟩, _⟩, _⟩
        exact appends _ (List.mem_append_left _ member) rfl
  · refine iff_of_false ?_ fun both => both.1 created
    rintro ⟨reopened, opened, _⟩
    exact not_opens_of_cut accepted (header_pos _)
      (journal_of_created created) ⟨reopened, opened⟩

end Sole.Consistent

/-- **Interrupted commits.** In every run of a handle without plain commits of
replaced items, a commit interrupted after any number of its file steps loses no
item that was committed before, unless the journal was left without its header, or
the interruption falls between the two renames and an item that the old keymap names
was added again since. In those two cases it does. -/
theorem interrupted_commit_recovers_iff {labels : List SoleOperation} {start before : Sole}
    (opened : Sole.open embedder .fresh = some start)
    (run : Run (Sole.FaithfulStep embedder) start labels before) {action : Action}
    {endOfBatch : Bool} (commits : action.endOfBatch = some endOfBatch) {after : Session}
    (ran : returned action.run before.dir before.handle = some after) (done : Nat) :
    (before.dir.after (after.steps.take done)).Recovers embedder (Ledger.of labels) ↔
      (after.steps.take done).getLast? ≠ some .createJournal ∧
        ¬ (BetweenRenames (after.steps.take done) ∧ before.Rekeyed) := by
  obtain ⟨disk, consistent, accounts⟩ := faithful_run_accounts opened run
  exact consistent.interrupted_iff accounts commits (exec_of_returned ran) done

/-- A compaction of a replaced item is interrupted before its first file step: the
next open serves the item. -/
theorem interrupted_before_renames_recovers :
    ∃ start before after, Sole.open ⟨"", 1⟩ .fresh = some start ∧
      Run (Sole.FaithfulStep ⟨"", 1⟩) start
        [.act (.add [(⟨7⟩, [1])]), .act .compact, .act (.add [(⟨7⟩, [2])])] before ∧
      returned Action.compact.run before.dir before.handle = some after ∧
      (before.dir.after (after.steps.take 0)).Recovers ⟨"", 1⟩ ⟨[(⟨7⟩, [1])], [(⟨7⟩, [2])]⟩ := by
  obtain ⟨after, played⟩ := Option.isSome_iff_exists.mp
    (show ((Sole.open ⟨"", 1⟩ .fresh).bind fun start => (start.play ⟨"", 1⟩
      [.act (.add [(⟨7⟩, [1])]), .act .compact, .act (.add [(⟨7⟩, [2])])]).bind fun before =>
        returned Action.compact.run before.dir before.handle).isSome by decide +kernel)
  obtain ⟨start, opened, played⟩ := Option.bind_eq_some_iff.mp played
  obtain ⟨before, history, ran⟩ := Option.bind_eq_some_iff.mp played
  obtain ⟨added, adding, rest⟩ := Option.bind_eq_some_iff.mp history
  obtain ⟨compacted, compacting, rest⟩ := Option.bind_eq_some_iff.mp rest
  obtain ⟨replaced, replacing, rest⟩ := Option.bind_eq_some_iff.mp rest
  obtain rfl : replaced = before := Option.some.inj rest
  have run : Run (Sole.FaithfulStep ⟨"", 1⟩) start
      [.act (.add [(⟨7⟩, [1])]), .act .compact, .act (.add [(⟨7⟩, [2])])] replaced :=
    .next ⟨adding, fun _ commits => absurd commits (by simp [Action.endOfBatch])⟩ <|
      .next ⟨compacting, fun _ commits => .inl (Option.some.inj commits ▸ rfl)⟩ <|
      .next ⟨replacing, fun _ commits => absurd commits (by simp [Action.endOfBatch])⟩ <|
      .done replaced
  refine ⟨start, replaced, after, opened, run, ran, ?_⟩
  exact (interrupted_commit_recovers_iff opened run rfl ran 0).mpr
    ⟨by simp, fun torn => absurd torn.1.1.choose_spec (by simp)⟩

/-- **A lost item.** A compacted item is added again, and the next compaction is
interrupted between its two renames: the next open does not read the item at all. -/
theorem torn_compaction_loses_item :
    ¬ ∀ (embedder : Embedder) (labels : List SoleOperation) (start before : Sole)
      (action : Action) (endOfBatch : Bool) (after : Session) (done : Nat),
      Sole.open embedder .fresh = some start → Run (Sole.Step embedder) start labels before →
      action.endOfBatch = some endOfBatch →
      returned action.run before.dir before.handle = some after →
      (before.dir.after (after.steps.take done)).Recovers embedder (Ledger.of labels) := by
  intro claimed
  have lost : ((Sole.open ⟨"", 1⟩ .fresh).bind fun start => (start.play ⟨"", 1⟩
      [.act (.add [(⟨7⟩, [1])]), .act .compact, .act (.add [(⟨7⟩, [2])])]).bind fun before =>
        (returned Action.compact.run before.dir before.handle).map fun after =>
          before.dir.after (after.steps.take 2)).any (fun dir =>
      ((VectorIndex.open ⟨"", 1⟩).exec ⟨[], dir, [], .blank⟩).2.handle.view ⟨7⟩ = none) = true := by
    decide +kernel
  obtain ⟨dir, played, unread⟩ := (Option.any_eq_true _ _).mp lost
  obtain ⟨start, opened, played⟩ := Option.bind_eq_some_iff.mp played
  obtain ⟨before, history, played⟩ := Option.bind_eq_some_iff.mp played
  obtain ⟨after, ran, rfl⟩ := Option.map_eq_some_iff.mp played
  obtain ⟨reopened, reopening, survives⟩ :=
    claimed _ _ _ _ _ true after 2 opened (Sole.play_run history) rfl ran
  obtain ⟨vector, read, _⟩ := survives ⟨7⟩ (by decide)
  rw [reopening] at unread
  rw [of_decide_eq_true unread] at read
  exact absurd read (by simp)

end Singularmem.Search
