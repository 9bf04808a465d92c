import Singularmem.Search.SharedDirectory

/-!
# One handle that replaces vectors

A handle that is alone on its directory may add an item again with another
vector. In memory the last vector wins. On disk a plain commit only appends to
the journal, and replay skips every item the compacted keymap names: what it
reads there is the vector of the last compaction.

`Live.Follows` is what always relates the handle to its disk. From it follow the
exact condition under which a commit is served by a reopen, and the exact crash
points at which a committed item is lost.
-/

namespace Singularmem.Search

open Library Singularmem.Core

/-- An item the compacted keymap names. -/
def Disk.named (disk : Disk) (id : ItemId) : Bool :=
  (disk.pair.keymap.reverse.lookup id).isSome

/-- A live index that is alone on its disk: it knows every item the disk holds,
and reads the last journalled or queued vector of an item that was never
compacted. It keeps the compacted keys or issues later ones. -/
structure Live.Follows (live : Live) (disk : Disk) : Prop where
  sound : live.pair.Sound
  tight : live.pair.Loose 0
  kept : live.tombstones = []
  compacted : disk.pair.Sound
  compactedTight : disk.pair.Loose 0
  current : disk.pair.keymap.generation = live.generation
  named : ∀ id, disk.named id = true → live.named id = true
  journalled : ∀ entry ∈ disk.journal ++ live.pending, live.named entry.1 = true
  reads : ∀ id, disk.named id = false → live.view id = latest (disk.journal ++ live.pending) id
  beyond : ∀ id key, live.pair.keymap.reverse.lookup id = some key →
    disk.pair.keymap.reverse.lookup id = some key ∨ disk.pair.keymap.nextKey ≤ key
  past : disk.pair.keymap.nextKey ≤ live.pair.keymap.nextKey

/-- Placing entries keeps old keys or issues later ones. -/
theorem Pair.placeAll_beyond {base : Keymap} {pair : Pair} (wellFormed : pair.keymap.WellFormed)
    (beyond : ∀ id key, pair.keymap.reverse.lookup id = some key →
      base.reverse.lookup id = some key ∨ base.nextKey ≤ key)
    (past : base.nextKey ≤ pair.keymap.nextKey) (entries : List Entry) :
    ∀ id key, (pair.placeAll entries).keymap.reverse.lookup id = some key →
      base.reverse.lookup id = some key ∨ base.nextKey ≤ key := by
  induction entries generalizing pair with
  | nil => exact beyond
  | cons entry rest inductionHypothesis =>
    refine inductionHypothesis (place_wellFormed wellFormed entry) ?_ ?_
    · intro id key named
      rw [place_reverse wellFormed] at named
      by_cases same : id = entry.1
      · rw [if_pos same] at named
        exact .inr (Option.some.inj named ▸ past)
      · rw [if_neg same] at named
        exact beyond id key named
    · rw [place_nextKey wellFormed]
      omega

namespace Live

variable {live : Live} {disk : Disk}

/-- What a handle reads and knows after adding entries. -/
theorem add_view (wellFormed : live.pair.keymap.WellFormed) (entries : List Entry) (id : ItemId) :
    (live.add entries).view id = (latest entries id).or (live.view id) :=
  Pair.placeAll_view wellFormed entries id

theorem add_named (entries : List Entry) (id : ItemId) :
    (live.add entries).named id = true ↔ id ∈ entries.map Prod.fst ∨ live.named id = true :=
  Pair.placeAll_named entries id

namespace Follows

/-- A fresh open follows the disk it read. -/
theorem opened (sound : disk.pair.Sound) (tight : disk.pair.Loose 0) :
    (Live.opened disk).Follows disk where
  sound := sound.placeAll _
  tight := (tight.placeAll sound.wellFormed _).mono (by simp)
  kept := rfl
  compacted := sound
  compactedTight := tight
  current := rfl
  named := fun id held => (@absorb_named (loaded disk) disk id).mpr (.inl held)
  journalled := fun entry member => by
    have recorded : entry ∈ disk.journal := by
      rcases List.mem_append.mp member with old | none
      · exact old
      · exact absurd none List.not_mem_nil
    exact (@absorb_named (loaded disk) disk entry.1).mpr
      (.inr ⟨List.mem_map_of_mem recorded, List.not_mem_nil⟩)
  reads := fun id unnamed => by
    have replayed := opened_view sound.wellFormed id
    rw [show (disk.pair.keymap.reverse.lookup id).isSome = false from unnamed] at replayed
    rw [replayed, if_neg (by simp)]
    exact congrArg (latest · id) (List.append_nil disk.journal).symm
  beyond := @Pair.placeAll_beyond _ disk.pair sound.wellFormed (fun _ _ held => .inl held)
    (Nat.le_refl _) _
  past := by
    change _ ≤ (disk.pair.placeAll ((loaded disk).missing disk)).keymap.nextKey
    rw [Pair.placeAll_nextKey sound.wellFormed]
    exact Nat.le_add_right _ _

/-- Adding entries, old items included. -/
theorem add (follows : live.Follows disk) (entries : List Entry) :
    (live.add entries).Follows disk := by
  have wellFormed := follows.sound.wellFormed
  refine ⟨follows.sound.placeAll entries, ?_, follows.kept, follows.compacted,
    follows.compactedTight, follows.current, ?_, ?_, ?_, ?_, ?_⟩
  · exact (follows.tight.placeAll wellFormed entries).mono (Nat.sub_le _ _)
  · intro id held
    exact (add_named entries id).mpr (.inr (follows.named id held))
  · intro entry member
    rw [add_named]
    change entry ∈ disk.journal ++ (live.pending ++ entries) at member
    rw [← List.append_assoc] at member
    rcases List.mem_append.mp member with old | new
    · exact .inr (follows.journalled entry old)
    · exact .inl (List.mem_map_of_mem new)
  · intro id unnamed
    change _ = latest (disk.journal ++ (live.pending ++ entries)) id
    rw [add_view wellFormed, ← List.append_assoc, latest_append, follows.reads id unnamed]
  · exact Pair.placeAll_beyond wellFormed follows.beyond follows.past entries
  · change _ ≤ (live.pair.placeAll entries).keymap.nextKey
    rw [Pair.placeAll_nextKey wellFormed]
    exact Nat.le_trans follows.past (Nat.le_add_right _ _)

/-- Journalling the queue. -/
theorem drained (follows : live.Follows disk) :
    live.drained.Follows { disk with journal := disk.journal ++ live.pending } :=
  { follows with
    journalled := fun entry member => follows.journalled entry (by simpa [Live.drained] using member)
    reads := fun id unnamed => by
      have read := follows.reads id unnamed
      simpa [Live.drained, Live.view] using read }

/-- Publishing what the handle holds. -/
theorem published (follows : live.Follows disk) :
    live.published.Follows ⟨live.published.pair, []⟩ where
  sound := follows.sound.stamp _
  tight := follows.tight
  kept := rfl
  compacted := follows.sound.stamp _
  compactedTight := follows.tight
  current := rfl
  named := fun _ held => held
  journalled := fun _ member => absurd member List.not_mem_nil
  reads := fun _ unnamed => Pair.view_unnamed (by simpa [Disk.named] using unnamed)
  beyond := fun _ _ held => .inl held
  past := Nat.le_refl _

/-- A sole handle has nothing to reload and nothing to replay. -/
theorem folded (follows : live.Follows disk) : live.folded disk = live := by
  rw [Live.folded, reload_current follows.current]
  exact absorb_known fun entry member => follows.journalled entry (List.mem_append_left _ member)

/-- A compacting commit writes out what the handle holds. -/
theorem compacted_eq (follows : live.Follows disk) (endOfBatch : Bool) :
    live.compacted disk endOfBatch = if endOfBatch then live else live.drained := by
  cases endOfBatch with
  | true => exact follows.folded
  | false =>
    have folded := follows.drained.folded
    rw [← disk.after_appendWrites] at folded
    exact folded

/-- The live index of a compacting commit follows the disk it compacts from. -/
theorem compacted_follows (follows : live.Follows disk) (endOfBatch : Bool) :
    (live.compacted disk endOfBatch).Follows (live.beforeCompaction disk endOfBatch).2 := by
  rw [follows.compacted_eq]
  cases endOfBatch with
  | true => exact follows
  | false =>
    change live.drained.Follows (disk.after live.appendWrites)
    rw [disk.after_appendWrites]
    exact follows.drained

/-- A commit leaves a handle that follows the disk it wrote. -/
theorem committed (follows : live.Follows disk) (endOfBatch : Bool) :
    (live.committed disk endOfBatch).Follows (disk.after (live.commitWrites disk endOfBatch)) := by
  rw [Disk.after_commitWrites, Live.committed]
  by_cases compacts : live.compacts disk endOfBatch = true
  · rw [if_pos compacts, if_pos compacts]
    exact (follows.compacted_follows endOfBatch).published
  · rw [if_neg compacts, if_neg compacts]
    exact follows.drained

/-- A commit does not change what its handle reads. -/
theorem committed_view (follows : live.Follows disk) (endOfBatch : Bool) (id : ItemId) :
    (live.committed disk endOfBatch).view id = live.view id := by
  rw [Live.committed]
  by_cases compacts : live.compacts disk endOfBatch = true
  · rw [if_pos compacts, follows.compacted_eq]
    cases endOfBatch <;> rfl
  · rw [if_neg compacts]
    rfl

/-- Without vectors nothing is named, on disk or in memory. -/
theorem covers (follows : live.Follows disk) :
    live.pair.index = ∅ → disk.pair.keymap.forward = ∅ ∧ live.pair.keymap.forward = ∅ := by
  intro empty
  have nothing := follows.sound.unnamed_of_empty empty
  refine ⟨follows.compacted.wellFormed.forward_empty ?_,
    follows.sound.wellFormed.forward_empty nothing⟩
  intro id
  cases held : disk.named id with
  | false => simpa [Disk.named] using held
  | true =>
    have known := follows.named id held
    rw [Live.named, nothing] at known
    exact absurd known (by simp)

/-- **When a reopen serves what a commit acknowledged.** A compacting commit is
always served. A plain one is served exactly when every item the compacted keymap
names still reads, in memory, the vector it was compacted with. -/
theorem reopened_iff (follows : live.Follows disk) (endOfBatch : Bool) :
    (∀ id, (Live.opened (disk.after (live.commitWrites disk endOfBatch))).view id =
        (live.committed disk endOfBatch).view id) ↔
      live.compacts disk endOfBatch = true ∨
        ∀ id, disk.named id = true → live.view id = disk.pair.view id := by
  have after := follows.committed endOfBatch
  by_cases compacts : live.compacts disk endOfBatch = true
  · rw [iff_true_intro (Or.inl compacts : _ ∨ _), iff_true]
    intro id
    rw [opened_view after.compacted.wellFormed, Disk.after_commitWrites, if_pos compacts,
      Live.committed, if_pos compacts]
    change (if (live.compacted disk endOfBatch).named id = true then _ else none) = _
    cases held : (live.compacted disk endOfBatch).named id with
    | true => rfl
    | false =>
      have unnamed : (live.compacted disk endOfBatch).published.pair.keymap.reverse.lookup id =
          none := by
        simpa [Live.named, Live.published, Live.stamped] using held
      exact (Pair.view_unnamed unnamed).symm
  · simp only [compacts, false_or, Bool.false_eq_true]
    refine forall_congr' fun id => ?_
    rw [opened_view after.compacted.wellFormed, follows.committed_view, Disk.after_commitWrites,
      if_neg compacts]
    change (if disk.named id = true then disk.pair.view id
      else latest (disk.journal ++ live.pending) id) = live.view id ↔ _
    cases held : disk.named id with
    | true => simp [eq_comm]
    | false => simp [follows.reads id held]

end Follows

end Live

/-- What a handle was given: the entries its commits have covered, and those added
since the last one, each in the order they were added. -/
structure Ledger where
  committed : List Entry
  queued : List Entry

/-- The ledger of a live index alone on its disk: a reopen would read the
committed entries, and the handle itself the queued ones over them. -/
structure Live.Accounts (live : Live) (disk : Disk) (ledger : Ledger) : Prop where
  queue : live.pending = ledger.queued
  reads : ∀ id, live.view id = (latest ledger.queued id).or (latest ledger.committed id)
  compacted : ∀ id, disk.named id = true → disk.pair.view id = latest ledger.committed id
  journalled : ∀ id, disk.named id = false → latest disk.journal id = latest ledger.committed id

/-- Every committed item is read after a reopen, with its last committed vector or
with a vector that was queued for it. -/
def Survives (ledger : Ledger) (view : ItemId → Option (List F32)) : Prop :=
  ∀ id ∈ ledger.committed.map Prod.fst, ∃ vector, view id = some vector ∧
    (latest ledger.committed id = some vector ∨ (id, vector) ∈ ledger.queued)

/-- Some compacted item has another key in memory. -/
def Live.Replaced (live : Live) (disk : Disk) : Prop :=
  ∃ id key, disk.pair.keymap.reverse.lookup id = some key ∧
    live.pair.keymap.reverse.lookup id ≠ some key

namespace Live.Accounts

variable {live : Live} {disk : Disk} {ledger : Ledger}

/-- The item has a committed vector. -/
theorem exists_latest {id : ItemId} (covered : id ∈ ledger.committed.map Prod.fst) :
    ∃ vector, latest ledger.committed id = some vector :=
  Option.isSome_iff_exists.mp (latest_isSome.mpr covered)

/-- What the handle itself reads survives. -/
theorem survives_in_memory (accounts : live.Accounts disk ledger) {id : ItemId}
    (covered : id ∈ ledger.committed.map Prod.fst) : ∃ vector, live.view id = some vector ∧
      (latest ledger.committed id = some vector ∨ (id, vector) ∈ ledger.queued) := by
  obtain ⟨vector, committed⟩ := exists_latest covered
  rw [accounts.reads]
  cases queued : latest ledger.queued id with
  | none => exact ⟨vector, by rw [committed]; rfl, .inl committed⟩
  | some other => exact ⟨other, rfl, .inr (latest_mem queued)⟩

/-- Items that were never compacted survive in the journal, whatever part of the
queue was appended to it. -/
theorem survives_in_journal (accounts : live.Accounts disk ledger) {part : List Entry}
    (queued : ∀ entry ∈ part, entry ∈ ledger.queued) {id : ItemId}
    (covered : id ∈ ledger.committed.map Prod.fst) (unnamed : disk.named id = false) :
    ∃ vector, latest (disk.journal ++ part) id = some vector ∧
      (latest ledger.committed id = some vector ∨ (id, vector) ∈ ledger.queued) := by
  obtain ⟨vector, committed⟩ := exists_latest covered
  rw [latest_append, accounts.journalled id unnamed]
  cases appended : latest part id with
  | none => exact ⟨vector, by rw [committed]; rfl, .inl committed⟩
  | some other => exact ⟨other, rfl, .inr (queued _ (latest_mem appended))⟩

/-- A crash among the journal appends loses nothing. -/
theorem survives_append (follows : live.Follows disk) (accounts : live.Accounts disk ledger)
    {part : List Entry} (queued : ∀ entry ∈ part, entry ∈ ledger.queued) :
    Survives ledger (Live.opened ⟨disk.pair, disk.journal ++ part⟩).view := by
  intro id covered
  rw [@opened_view ⟨disk.pair, disk.journal ++ part⟩ follows.compacted.wellFormed id]
  cases held : disk.named id with
  | true =>
    obtain ⟨vector, committed⟩ := exists_latest covered
    refine ⟨vector, (if_pos held).trans ?_, .inl committed⟩
    exact (accounts.compacted id held).trans committed
  | false =>
    have skipped : ¬ disk.named id = true := ne_true_of_eq_false held
    obtain ⟨vector, read, origin⟩ := accounts.survives_in_journal queued covered held
    exact ⟨vector, (if_neg skipped).trans read, origin⟩

/-- After both renames nothing is lost, whether or not the journal was cut. -/
theorem survives_published (follows : live.Follows disk) (accounts : live.Accounts disk ledger)
    (journal : List Entry) :
    Survives ledger (Live.opened ⟨live.published.pair, journal⟩).view := by
  intro id covered
  obtain ⟨vector, read, origin⟩ := accounts.survives_in_memory covered
  have named : live.named id = true := named_of_view follows.sound read
  refine ⟨vector, ?_, origin⟩
  rw [@opened_view ⟨live.published.pair, journal⟩ follows.published.compacted.wellFormed id]
  exact (if_pos named).trans read

/-- **Between the two renames.** The new graph stands beside the old keymap. A
committed item is lost exactly when it was compacted before and has another key
in memory: its old key is gone from the graph and the journal is not asked. -/
theorem survives_torn_iff (follows : live.Follows disk) (accounts : live.Accounts disk ledger)
    {part : List Entry} (queued : ∀ entry ∈ part, entry ∈ ledger.queued) :
    Survives ledger
        (Live.opened ⟨⟨live.pair.index, disk.pair.keymap⟩, disk.journal ++ part⟩).view ↔
      ¬ live.Replaced disk := by
  have view : ∀ id, (Live.opened ⟨⟨live.pair.index, disk.pair.keymap⟩,
      disk.journal ++ part⟩).view id = if disk.named id = true then
        (disk.pair.keymap.reverse.lookup id).bind live.pair.index.lookup
      else latest (disk.journal ++ part) id :=
    @opened_view ⟨⟨live.pair.index, disk.pair.keymap⟩, _⟩ follows.compacted.wellFormed
  constructor
  · rintro survives ⟨id, key, named, moved⟩
    have held : disk.named id = true := by rw [Disk.named, named]; rfl
    have covered : id ∈ ledger.committed.map Prod.fst := by
      rw [← latest_isSome, ← accounts.compacted id held, follows.compacted.view_isSome]
      exact held
    have gone : live.pair.index.lookup key = none := by
      rw [← Option.not_isSome_iff_eq_none]
      intro present
      rcases follows.tight key present with ⟨other, owner⟩ | ⟨above, below⟩
      · rcases follows.beyond other key owner with old | late
        · have same := follows.compacted.wellFormed.injective old named
          exact moved (same ▸ owner)
        · exact absurd (follows.compacted.wellFormed.issued id key named) (Nat.not_lt.mpr late)
      · exact absurd below (Nat.not_lt.mpr above)
    obtain ⟨vector, read, _⟩ := survives id covered
    rw [view, if_pos held, named, Option.bind_some, gone] at read
    exact absurd read (by simp)
  · intro kept id covered
    rw [view]
    cases held : disk.named id with
    | true =>
      obtain ⟨key, named⟩ := Option.isSome_iff_exists.mp held
      have same : live.pair.keymap.reverse.lookup id = some key := by
        by_contra moved
        exact kept ⟨id, key, named, moved⟩
      rw [if_pos rfl, named, ← same]
      exact accounts.survives_in_memory covered
    | false =>
      rw [if_neg (by simp)]
      exact accounts.survives_in_journal queued covered held

end Live.Accounts

end Singularmem.Search
