import Singularmem.Search.VectorIndex

/-!
# Disk and live index

What a vector directory is for, without its files: `Disk` is the pair the last
compaction wrote and the records journalled since; `Live` is what one handle
holds. A commit writes to the disk and moves the handle on. The writes of a
commit are listed in order, so that a crash is a prefix of them.
-/

namespace Singularmem.Search

open Library Singularmem.Core

/-- What a directory holds: the last compacted pair and the journalled records. -/
structure Disk where
  pair : Pair
  journal : List Entry

/-- What a handle holds. -/
structure Live where
  pair : Pair
  pending : List Entry
  generation : Nat
  tombstones : List ItemId

/-- One write that changes what a directory holds. -/
inductive Write
  | append (records : List Entry)
  | graph (index : Graph)
  | keymap (keymap : Keymap)
  | clear

/-- The disk after a write. -/
def Disk.apply (disk : Disk) : Write → Disk
  | .append records => { disk with journal := disk.journal ++ records }
  | .graph index => { disk with pair := { disk.pair with index } }
  | .keymap keymap => { disk with pair := { disk.pair with keymap } }
  | .clear => { disk with journal := [] }

/-- The disk after several writes. -/
def Disk.after (disk : Disk) (writes : List Write) : Disk := writes.foldl Disk.apply disk

/-- Split records into chunks; `fuel` bounds their number. -/
def chunks (size : Nat) : Nat → List Entry → List (List Entry)
  | 0, _ => []
  | _, [] => []
  | fuel + 1, rest => rest.take size :: chunks size fuel (rest.drop size)

namespace Live

/-- The vector an item reads. -/
def view (live : Live) (id : ItemId) : Option (List F32) := live.pair.view id

/-- The journalled records a live index does not know. -/
def missing (live : Live) (disk : Disk) : List Entry :=
  disk.journal.filter fun record =>
    (live.pair.keymap.reverse.lookup record.1).isNone ∧ record.1 ∉ live.tombstones

/-- Take in the journalled records that are missing. -/
def absorb (live : Live) (disk : Disk) : Live :=
  { live with pair := live.pair.placeAll (live.missing disk) }

/-- A live index on the compacted pair, before the journal is replayed. -/
def loaded (disk : Disk) : Live := ⟨disk.pair, [], disk.pair.keymap.generation, []⟩

/-- What a fresh open holds. -/
def opened (disk : Disk) : Live := (loaded disk).absorb disk

/-- Insert entries and queue them. -/
def add (live : Live) (entries : List Entry) : Live :=
  { live with pair := live.pair.placeAll entries, pending := live.pending ++ entries }

/-- Adopt the compacted pair when another handle wrote it. -/
def reload (live : Live) (disk : Disk) : Live :=
  if disk.pair.keymap.generation = live.generation then live
  else
    { live with
      pair := disk.pair.placeAll live.pending
      generation := disk.pair.keymap.generation }

/-- What a compaction is about to write. -/
def folded (live : Live) (disk : Disk) : Live := (live.reload disk).absorb disk

/-- The keymap a compaction writes. -/
def stamped (live : Live) : Keymap :=
  { live.pair.keymap with generation := live.generation + 1 }

/-- A live index whose pair was just written. -/
def published (live : Live) : Live :=
  ⟨⟨live.pair.index, live.stamped⟩, [], live.generation + 1, []⟩

/-- The writes that publish a compaction. -/
def publishWrites (live : Live) : List Write :=
  [.graph live.pair.index, .keymap live.stamped, .clear]

/-- The writes that journal the queue. -/
def appendWrites (live : Live) : List Write :=
  (chunks journalAppendChunk live.pending.length live.pending).map .append

/-- A live index whose queue was just journalled. -/
def drained (live : Live) : Live := { live with pending := [] }

/-- A commit compacts when it closes a batch or the journal has outgrown its
threshold. -/
def compacts (live : Live) (disk : Disk) (endOfBatch : Bool) : Bool :=
  endOfBatch || decide (compactThreshold < (disk.journal ++ live.pending).length)

/-- The live index and disk a compaction starts from: a commit that does not
close a batch journals its queue first. -/
def beforeCompaction (live : Live) (disk : Disk) (endOfBatch : Bool) : Live × Disk :=
  if endOfBatch then (live, disk) else (live.drained, disk.after live.appendWrites)

/-- What a compacting commit writes out. -/
def compacted (live : Live) (disk : Disk) (endOfBatch : Bool) : Live :=
  let (before, journalled) := live.beforeCompaction disk endOfBatch
  before.folded journalled

/-- The writes of a commit, in order. -/
def commitWrites (live : Live) (disk : Disk) (endOfBatch : Bool) : List Write :=
  (if endOfBatch then [] else live.appendWrites) ++
    if live.compacts disk endOfBatch then (live.compacted disk endOfBatch).publishWrites else []

/-- The live index after a commit. -/
def committed (live : Live) (disk : Disk) (endOfBatch : Bool) : Live :=
  if live.compacts disk endOfBatch then (live.compacted disk endOfBatch).published
  else live.drained

/-- A handle of the current generation is not reloaded. -/
theorem reload_current {live : Live} {disk : Disk}
    (same : disk.pair.keymap.generation = live.generation) : live.reload disk = live :=
  if_pos same

/-- A stale handle adopts the compacted pair and inserts its queue again. -/
theorem reload_stale {live : Live} {disk : Disk}
    (moved : disk.pair.keymap.generation ≠ live.generation) :
    live.reload disk =
      ⟨disk.pair.placeAll live.pending, live.pending, disk.pair.keymap.generation,
        live.tombstones⟩ :=
  if_neg moved

end Live

/-- Chunks put together are the records they were cut from. -/
theorem chunks_flatten {size : Nat} (positive : 0 < size) (fuel : Nat) (records : List Entry)
    (enough : records.length ≤ fuel) : (chunks size fuel records).flatten = records := by
  induction fuel generalizing records with
  | zero =>
    have empty : records = [] := List.length_eq_zero_iff.mp (Nat.le_zero.mp enough)
    simp [empty, chunks]
  | succ fuel inductionHypothesis =>
    cases records with
    | nil => rfl
    | cons record rest =>
      have shorter : ((record :: rest).drop size).length ≤ fuel := by
        rw [List.length_drop]
        simp only [List.length_cons] at enough ⊢
        omega
      rw [chunks, List.flatten_cons, inductionHypothesis _ shorter, List.take_append_drop]
      simp

/-- Appending lists of records one after the other appends their concatenation. -/
theorem Disk.after_appends (disk : Disk) (parts : List (List Entry)) :
    disk.after (parts.map .append) = { disk with journal := disk.journal ++ parts.flatten } := by
  induction parts generalizing disk with
  | nil => simp [Disk.after]
  | cons part rest inductionHypothesis =>
    have step : disk.after ((part :: rest).map .append) =
        (disk.apply (.append part)).after (rest.map .append) := rfl
    rw [step, inductionHypothesis]
    simp [Disk.apply]

/-- Journalling the queue adds it to the journal and nothing else. -/
theorem Disk.after_appendWrites (disk : Disk) (live : Live) :
    disk.after live.appendWrites = { disk with journal := disk.journal ++ live.pending } := by
  rw [Live.appendWrites, Disk.after_appends,
    chunks_flatten (by decide) _ _ (Nat.le_refl _)]

/-- Publishing replaces the pair and empties the journal. -/
theorem Disk.after_publishWrites (disk : Disk) (live : Live) :
    disk.after live.publishWrites = ⟨live.published.pair, []⟩ := rfl

theorem Disk.after_append (disk : Disk) (first second : List Write) :
    disk.after (first ++ second) = (disk.after first).after second :=
  List.foldl_append

/-- After a commit the disk holds the published pair and an empty journal, or
the queue in its journal. -/
theorem Disk.after_commitWrites (disk : Disk) (live : Live) (endOfBatch : Bool) :
    disk.after (live.commitWrites disk endOfBatch) =
      if live.compacts disk endOfBatch then
        ⟨(live.compacted disk endOfBatch).published.pair, []⟩
      else { disk with journal := disk.journal ++ live.pending } := by
  by_cases compaction : live.compacts disk endOfBatch = true
  · rw [Live.commitWrites, if_pos compaction, if_pos compaction, Disk.after_append,
      Disk.after_publishWrites]
  · cases endOfBatch with
    | true => simp [Live.compacts] at compaction
    | false =>
      rw [Live.commitWrites, if_neg compaction, if_neg compaction, List.append_nil]
      exact Disk.after_appendWrites disk live

end Singularmem.Search
