import Singularmem.Search.KilledRuns
import Singularmem.Search.Visits

/-!
# Pairs that a kill tears

A compaction renames the graph into place and then the keymap that names its keys. A kill
between the two leaves a graph beside the keymap of another one. Replaying the journal mends
that where every key that the keymap names is in the graph, and every other key of the graph
is among the next keys that the replay issues.

One process at a time opens the directory, uses its handle and may be killed at any file
step, also while it opens. As long as every torn pair that a kill leaves can be mended, the
keys of the graph that a handle holds are the keys that its keymap names.
-/

namespace Singularmem.Search

open Library Singularmem.Core

/-- The pair that a load starts from. -/
def Directory.loadedPair (dir : Directory) : Pair := ⟨dir.usearch.getD ∅, dir.loadedKeymap⟩

/-- The journal records that a load replays. -/
def Directory.missing (embedder : Embedder) (dir : Directory) : List Entry :=
  (Journal.replay embedder.header dir.journal).filter fun record =>
    (dir.loadedKeymap.reverse.lookup record.1).isNone

/-- A load mends the pair: the graph holds what the keymap names, and what it holds besides
is under keys that the replay issues. -/
def Directory.Mendable (embedder : Embedder) (dir : Directory) : Prop :=
  (∀ key ∈ dir.loadedKeymap.forward.keys, key ∈ dir.usearch.getD ∅) ∧
    ∀ key ∈ (dir.usearch.getD ∅).keys, key ∈ dir.loadedKeymap.forward ∨
      (dir.loadedKeymap.nextKey ≤ key ∧
        key < dir.loadedKeymap.nextKey + (dir.missing embedder).length)

instance (embedder : Embedder) (dir : Directory) : Decidable (dir.Mendable embedder) :=
  inferInstanceAs (Decidable ((∀ _ ∈ _, _ ∈ _) ∧ ∀ _ ∈ _, _ ∈ _ ∨ (_ ∧ _)))

/-- These steps rename a graph into place, and no keymap after it. -/
def Torn (steps : List FileStep) : Bool :=
  (steps.any fun step => match step with | .renameUsearch _ => true | _ => false) &&
    !(steps.any fun step => match step with | .renameKeymap _ => true | _ => false)

/-- What a process does: it opens the directory, or uses the handle that it has. The call
runs to its end, or the process is killed after some file steps and some bytes of the next
write. -/
inductive Deed
  | finish (request : Option Request)
  | kill (request : Option Request) (done cut : Nat)

/-- A directory and the handle of the one process that uses it. -/
structure Desk where
  dir : Directory
  handle : Option VectorIndex

/-- A directory nobody has opened. -/
def Desk.fresh : Desk := ⟨.fresh, none⟩

/-- The session after a call: an open, or a request to the handle. -/
def Desk.run (embedder : Embedder) (desk : Desk) :
    Option Request → Option (Except Error PUnit × Session)
  | none => some ((VectorIndex.open embedder).exec ⟨[], desk.dir, [], .blank⟩)
  | some request => desk.handle.map fun handle => request.run.exec ⟨[], desk.dir, [], handle⟩

/-- The handle that a finished call leaves: an open that failed leaves none. -/
def survivor (outcome : Except Error PUnit) (handle : VectorIndex) :
    Option Request → Option VectorIndex
  | none => outcome.toOption.map fun _ => handle
  | some _ => some handle

/-- The desk after a deed. -/
def Desk.after (embedder : Embedder) (desk : Desk) : Deed → Option Desk
  | .finish request => (desk.run embedder request).map fun (outcome, session) =>
      ⟨session.dir, survivor outcome session.handle request⟩
  | .kill request done cut => (desk.run embedder request).map fun (_, session) =>
      ⟨desk.dir.killed session.steps done cut, none⟩

/-- The condition on a deed: a kill between the two renames leaves a pair that can be
mended. -/
def Desk.Spares (embedder : Embedder) (desk : Desk) : Deed → Prop
  | .finish _ => True
  | .kill request done cut => ∀ outcome session, desk.run embedder request = some (outcome, session) →
      Torn (session.steps.take done) = true →
        (desk.dir.killed session.steps done cut).Mendable embedder

/-- One step of the process. -/
def Desk.Step (embedder : Embedder) (desk : Desk) (deed : Deed) (next : Desk) : Prop :=
  desk.after embedder deed = some next

/-- One step that meets the condition. -/
def Desk.SparingStep (embedder : Embedder) (desk : Desk) (deed : Deed) (next : Desk) : Prop :=
  desk.Step embedder deed next ∧ desk.Spares embedder deed

/-- The keys of the graph are the keys that the keymap names. -/
structure Pair.Matched (pair : Pair) : Prop where
  sound : pair.Sound
  tight : pair.Loose 0

/-- A directory whose keymap is well formed and whose pair a load mends. -/
structure Directory.Kept (embedder : Embedder) (dir : Directory) : Prop where
  wellFormed : (dir.keymap.getD .default).WellFormed
  mendable : dir.Mendable embedder

/-- A handle of this embedder. -/
structure VectorIndex.Agrees (embedder : Embedder) (handle : VectorIndex) : Prop where
  metadata : handle.meta = embedder.metadata
  journal : handle.journal = embedder.header
  pending : ∀ entry ∈ handle.pending, entry.2.length = embedder.dim

/-- What holds between calls: a load mends the directory, the handle is not stale and its
keymap names the keys of its graph. -/
structure Desk.Tidy (embedder : Embedder) (desk : Desk) : Prop where
  kept : desk.dir.Kept embedder
  agrees : ∀ handle, desk.handle = some handle → handle.Agrees embedder
  matched : ∀ handle, desk.handle = some handle → handle.pair.Matched
  current : ∀ handle, desk.handle = some handle →
    (desk.dir.keymap.getD .default).generation = handle.loadedGeneration

section Growth

variable {embedder : Embedder} {dir before middle after : Directory}

/-- The graph and the keymap are as before, and the journal holds at least as many
records. -/
structure Directory.Extends (embedder : Embedder) (before after : Directory) : Prop where
  usearch : after.usearch = before.usearch
  keymap : after.keymap = before.keymap
  records : Journal.replay embedder.header before.journal <+:
    Journal.replay embedder.header after.journal

theorem Directory.Extends.refl (dir : Directory) : dir.Extends embedder dir :=
  ⟨rfl, rfl, List.prefix_refl _⟩

theorem Directory.Extends.trans (first : before.Extends embedder middle)
    (second : middle.Extends embedder after) : before.Extends embedder after :=
  ⟨second.usearch.trans first.usearch, second.keymap.trans first.keymap,
    first.records.trans second.records⟩

/-- More bytes hold more records. -/
theorem decodeRecords_prefix {header : JournalHeader} {count more : Nat} (le : count ≤ more)
    {bytes rest : List UInt8} (enough : count * header.recordLen ≤ bytes.length) :
    decodeRecords header count bytes <+: decodeRecords header more (bytes ++ rest) := by
  induction count generalizing more bytes with
  | zero => exact List.nil_prefix
  | succ count inductionHypothesis =>
    obtain ⟨later, rfl⟩ : ∃ later, more = later + 1 := ⟨more - 1, by omega⟩
    have first : header.recordLen ≤ bytes.length :=
      (Nat.le_mul_of_pos_left _ (Nat.succ_pos count)).trans enough
    rw [decodeRecords, decodeRecords, List.take_append_of_le_length first,
      List.drop_append_of_le_length first, List.cons_prefix_cons]
    refine ⟨rfl, inductionHypothesis (by omega) ?_⟩
    rw [List.length_drop]
    rw [Nat.succ_mul] at enough
    omega

/-- Writing at the end of the journal keeps its records. -/
theorem Journal.replay_prefix (header : JournalHeader) (file : Option (List UInt8))
    (rest : List UInt8) :
    Journal.replay header file <+: Journal.replay header (file.map (· ++ rest)) := by
  cases file with
  | none => exact List.prefix_refl _
  | some bytes =>
    rw [Option.map_some, Journal.replay, Journal.replay]
    rcases Nat.le_total header.headerLen bytes.length with long | short
    · rw [List.drop_append_of_le_length long]
      refine decodeRecords_prefix (Nat.div_le_div_right ?_) (Nat.div_mul_le_self _ _)
      rw [List.length_append]
      exact Nat.le_add_right _ _
    · rw [List.drop_eq_nil_of_le short]
      simp [decodeRecords]

/-- A step that leaves graph and keymap alone and takes nothing off the journal. -/
def FileStep.Appends (dir : Directory) : FileStep → Prop
  | .createTemp _ | .removeTemp _ | .renameMeta _ | .writeJournal _ => True
  | .createJournal => dir.journal = none
  | .renameUsearch _ | .removeUsearch | .renameKeymap _ | .setLenJournal _ => False

/-- All these steps do. -/
def Directory.Appends (dir : Directory) : List FileStep → Prop
  | [] => True
  | step :: rest => step.Appends dir ∧ (step.apply dir).Appends rest

theorem FileStep.Appends.extends {step : FileStep} (appends : step.Appends dir) :
    dir.Extends embedder (step.apply dir) := by
  cases step with
  | createTemp | removeTemp | renameMeta => exact ⟨rfl, rfl, List.prefix_refl _⟩
  | writeJournal bytes => exact ⟨rfl, rfl, Journal.replay_prefix _ _ bytes⟩
  | createJournal =>
    refine ⟨rfl, rfl, ?_⟩
    rw [show dir.journal = none from appends]
    exact List.nil_prefix
  | renameUsearch | removeUsearch | renameKeymap | setLenJournal => exact appends.elim

namespace Directory.Appends

variable {first second steps : List FileStep}

theorem append (before : dir.Appends first) (later : (dir.after first).Appends second) :
    dir.Appends (first ++ second) := by
  induction first generalizing dir with
  | nil => exact later
  | cons step rest inductionHypothesis =>
    exact ⟨before.1, inductionHypothesis before.2 later⟩

theorem «extends» (appends : dir.Appends steps) : dir.Extends embedder (dir.after steps) := by
  induction steps generalizing dir with
  | nil => exact .refl dir
  | cons step rest inductionHypothesis =>
    exact appends.1.extends.trans (inductionHypothesis appends.2)

theorem take (appends : dir.Appends steps) (done : Nat) : dir.Appends (steps.take done) := by
  induction steps generalizing dir done with
  | nil => simpa using appends
  | cons step rest inductionHypothesis =>
    cases done with
    | zero => trivial
    | succ done => exact ⟨appends.1, inductionHypothesis appends.2 done⟩

/-- A kill among such steps leaves as much. -/
theorem killed (appends : dir.Appends steps) (done cut : Nat) :
    dir.Extends embedder (dir.killed steps done cut) := by
  refine (Directory.Appends.append (appends.take done) ?_).extends
  cases next : steps[done]? with
  | none => trivial
  | some step =>
    cases step with
    | writeJournal bytes => exact ⟨trivial, trivial⟩
    | createTemp | removeTemp | renameMeta | renameUsearch | removeUsearch | renameKeymap
    | createJournal | setLenJournal => trivial

end Directory.Appends

end Growth

section Calls

variable {embedder : Embedder} {dir : Directory} {steps : List FileStep} {handle : VectorIndex}

/-- Replaying the journal places what the keymap does not name. -/
theorem VectorIndex.Agrees.exec_absorb (agrees : handle.Agrees embedder) :
    absorbJournal.exec ⟨[], dir, steps, handle⟩ =
      (.ok ⟨⟩, ⟨[], dir, steps, handle.withPair (handle.pair.placeAll (handle.missing dir))⟩) := by
  have dimensions : ∀ entry ∈ handle.missing dir, entry.2.length = handle.meta.dim := by
    intro entry member
    rw [agrees.metadata]
    have fit := Journal.replay_dimension _ _ entry (List.mem_filter.mp member).1
    rw [agrees.journal] at fit
    exact fit
  rw [absorbJournal, Effect.exec_bind_ok (Effect.exec_get _)]
  cases absent : handle.missing dir with
  | nil => rfl
  | cons record rest =>
    dsimp only
    rw [exec_addEntries dir steps false (absent ▸ dimensions)]
    simp [VectorIndex.withPair]

/-- Rewriting the metadata leaves what the handle holds. -/
theorem exec_metaUpgrade (dir : Directory) (handle : VectorIndex) :
    ∃ taken after, writeMetaUpgrade.exec ⟨[], dir, [], handle⟩ =
        (.ok ⟨⟩, ⟨[], dir.after taken, taken, after⟩) ∧ dir.Appends taken ∧
      after.live = handle.live ∧ after.meta = handle.meta ∧ after.journal = handle.journal := by
  rw [writeMetaUpgrade, Effect.exec_bind_ok (Effect.exec_get _)]
  dsimp only
  split
  · rw [Effect.exec_bind_ok (exec_updateHandle _ _), writeMetaAtomic,
      Effect.exec_bind_ok (exec_fileStep _ _), exec_fileStep]
    exact ⟨[.createTemp .metaJson, .renameMeta handle.meta], _, rfl, ⟨trivial, trivial, trivial⟩,
      rfl, rfl, rfl⟩
  · exact ⟨[], handle, rfl, trivial, rfl, rfl, rfl⟩

/-- Appending records appends. -/
theorem exec_journalAppend (dir : Directory) (steps : List FileStep) {records : List Entry}
    (dimensions : ∀ entry ∈ records, entry.2.length = handle.journal.dim) :
    ∃ taken, (journalAppend records).exec ⟨[], dir, steps, handle⟩ =
        (.ok ⟨⟩, ⟨[], dir.after taken, steps ++ taken, handle⟩) ∧ dir.Appends taken := by
  have accepts : records.find? (fun entry => entry.2.length ≠ handle.journal.dim) = none := by
    rw [List.find?_eq_none]
    intro entry member
    simp [dimensions entry member]
  rw [journalAppend, Effect.exec_bind_ok (Effect.exec_get _)]
  dsimp only
  rw [accepts]
  cases records with
  | nil => exact ⟨[], by simp, trivial⟩
  | cons record rest =>
    cases present : dir.journal with
    | none =>
      refine ⟨[.createJournal, .writeJournal handle.journal.encoded,
        .writeJournal ((record :: rest).flatMap encodeRecord)], ?_, present, trivial, trivial,
        trivial⟩
      simp only [createIfAbsent, createFile, Effect.exec_bind, Effect.exec_get, exec_fileStep,
        present, Option.isNone_none, if_true, Directory.after, List.foldl_cons,
        List.foldl_nil, List.append_assoc, List.cons_append, List.nil_append]
    | some bytes =>
      refine ⟨[.writeJournal ((record :: rest).flatMap encodeRecord)], ?_, trivial, trivial⟩
      simp [createIfAbsent, Effect.exec_bind, present, Directory.after]

/-- So does appending them in chunks. -/
theorem exec_appendChunks (fuel : Nat) (rest : List Entry) (dir : Directory)
    (steps : List FileStep) (dimensions : ∀ entry ∈ rest, entry.2.length = handle.journal.dim) :
    ∃ taken, (appendChunks fuel rest).exec ⟨[], dir, steps, handle⟩ =
        (.ok ⟨⟩, ⟨[], dir.after taken, steps ++ taken, handle⟩) ∧ dir.Appends taken := by
  induction fuel generalizing rest dir steps with
  | zero => exact ⟨[], by simp [appendChunks], trivial⟩
  | succ fuel inductionHypothesis =>
    cases rest with
    | nil => exact ⟨[], by simp [appendChunks], trivial⟩
    | cons entry tail =>
      obtain ⟨first, ranFirst, appendsFirst⟩ := @exec_journalAppend handle dir steps _
        fun record member => dimensions record (List.mem_of_mem_take member)
      obtain ⟨later, ranLater, appendsLater⟩ := inductionHypothesis _ (dir.after first)
        (steps ++ first) fun record member => dimensions record (List.mem_of_mem_drop member)
      refine ⟨first ++ later, ?_, appendsFirst.append appendsLater⟩
      have attempted : ∀ handler : Error → Op PUnit, Effect.exec
          (tryCatch (journalAppend ((entry :: tail).take journalAppendChunk)) handler)
            ⟨[], dir, steps, handle⟩ =
          (.ok ⟨⟩, ⟨[], dir.after first, steps ++ first, handle⟩) := fun handler => by
        rw [Effect.exec_tryCatch, ranFirst]
      rw [appendChunks, Effect.exec_bind_ok (attempted _), ranLater]
      · simp
      · rintro ⟨⟩

/-- A compaction publishes what it folds together with the journal. -/
theorem VectorIndex.Agrees.exec_compact (agrees : handle.Agrees embedder)
    (current : (dir.keymap.getD .default).generation = handle.loadedGeneration) :
    let folded := handle.withPair (handle.pair.placeAll (handle.missing dir))
    compactLocked.exec ⟨[], dir, steps, handle⟩ =
      (.ok ⟨⟩, ⟨[], dir.after (folded.publishSteps dir), steps ++ folded.publishSteps dir,
        folded.published⟩) :=
  exec_compactLocked (exec_reload_current current) agrees.exec_absorb

/-- **A commit** appends to the journal, and then may compact. -/
theorem VectorIndex.Agrees.exec_commit (agrees : handle.Agrees embedder) (endOfBatch : Bool) :
    ∃ taken middle, dir.Appends taken ∧ middle.Agrees embedder ∧ middle.pair = handle.pair ∧
      middle.loadedGeneration = handle.loadedGeneration ∧
      ((commitLocked endOfBatch).exec ⟨[], dir, [], handle⟩ =
          (.ok ⟨⟩, ⟨[], dir.after taken, taken, middle⟩) ∨
        (commitLocked endOfBatch).exec ⟨[], dir, [], handle⟩ =
          compactLocked.exec ⟨[], dir.after taken, taken, middle⟩) := by
  obtain ⟨upgraded, opened, ran, appends, live, metadata, journal⟩ := exec_metaUpgrade dir handle
  have pair : opened.pair = handle.pair := congrArg Live.pair live
  have generation : opened.loadedGeneration = handle.loadedGeneration :=
    congrArg Live.generation live
  have pending : opened.pending = handle.pending := congrArg Live.pending live
  have agreed : opened.Agrees embedder :=
    ⟨metadata.trans agrees.metadata, journal.trans agrees.journal, pending ▸ agrees.pending⟩
  rw [commitLocked, Effect.exec_bind_ok ran]
  cases endOfBatch with
  | true => exact ⟨upgraded, opened, appends, agreed, pair, generation, .inr rfl⟩
  | false =>
    have dimensions : ∀ entry ∈ opened.pending,
        entry.2.length = ({ opened with pending := [] } : VectorIndex).journal.dim := by
      intro entry member
      change _ = opened.journal.dim
      rw [agreed.journal]
      exact agreed.pending entry member
    obtain ⟨appended, ranAppend, appendsLater⟩ :=
      exec_appendChunks opened.pending.length _ (dir.after upgraded) upgraded dimensions
    refine ⟨upgraded ++ appended, { opened with pending := [] }, appends.append appendsLater,
      ⟨agreed.metadata, agreed.journal, fun _ member => absurd member List.not_mem_nil⟩, pair,
      generation, ?_⟩
    rw [if_neg (by simp), Effect.exec_bind_ok (exec_takePending _),
      Effect.exec_bind_ok ranAppend, Effect.exec_bind_ok (Effect.exec_get _),
      Directory.after_append]
    dsimp only
    split
    · exact .inr rfl
    · exact .inl rfl

/-- A handle that a load of the directory leaves. -/
structure VectorIndex.Loaded (embedder : Embedder) (dir : Directory) (handle : VectorIndex) :
    Prop where
  agrees : handle.Agrees embedder
  pair : handle.pair = dir.loadedPair.placeAll (dir.missing embedder)
  generation : handle.loadedGeneration = dir.loadedKeymap.generation

/-- A handle that removed nothing misses the records that its keymap does not name. -/
theorem VectorIndex.missing_unburied (journal : handle.journal = embedder.header)
    (kept : handle.tombstones = []) :
    handle.missing dir = (Journal.replay embedder.header dir.journal).filter fun record =>
      (handle.keymap.reverse.lookup record.1).isNone := by
  rw [VectorIndex.missing, journal, kept]
  refine List.filter_congr fun record _ => ?_
  rw [Bool.eq_iff_iff]
  simp

/-- What a fresh handle misses is what the load replays. -/
theorem VectorIndex.missing_fresh (journal : handle.journal = embedder.header)
    (keymap : handle.keymap = dir.loadedKeymap) (kept : handle.tombstones = []) :
    handle.missing dir = dir.missing embedder := by
  rw [missing_unburied journal kept, Directory.missing, keymap]

/-- Sweeping leftovers appends nothing. -/
theorem exec_sweep (temps : List TempFile) (dir : Directory) (steps : List FileStep) :
    ∃ taken, (sweepTempFiles temps).exec ⟨[], dir, steps, handle⟩ =
        (.ok ⟨⟩, ⟨[], dir.after taken, steps ++ taken, handle⟩) ∧ dir.Appends taken := by
  induction temps generalizing dir steps with
  | nil => exact ⟨[], by simp [sweepTempFiles], trivial⟩
  | cons temp rest inductionHypothesis =>
    obtain ⟨taken, ran, appends⟩ :=
      inductionHypothesis ((FileStep.removeTemp temp).apply dir) (steps ++ [.removeTemp temp])
    refine ⟨.removeTemp temp :: taken, ?_, trivial, appends⟩
    rw [sweepTempFiles, Effect.exec_bind_ok (exec_fileStep _ _), ran]
    simp

/-- Reading the metadata, or writing it, leaves everything else. -/
theorem exec_readMeta (embedder : Embedder) (dir : Directory) (steps : List FileStep) :
    ∃ taken outcome, (loadMeta embedder).exec ⟨[], dir, steps, handle⟩ =
        (outcome, ⟨[], dir.after taken, steps ++ taken, handle⟩) ∧ dir.Appends taken := by
  rw [loadMeta, Effect.exec_bind_ok (Effect.exec_get _)]
  dsimp only
  split
  · refine ⟨[.createTemp .metaJson, .renameMeta embedder.metadata],
      .ok (embedder.metadata, none), ?_, trivial, trivial, trivial⟩
    simp [writeMetaAtomic, Effect.exec_bind, Embedder.metadata, Directory.after, Except.map]
  · split
    · exact ⟨[], _, by simp; rfl, trivial⟩
    split
    · exact ⟨[], _, by simp; rfl, trivial⟩
    split
    · exact ⟨[], _, by simp; rfl, trivial⟩
    · exact ⟨[], _, by simp; rfl, trivial⟩

/-- **A load** starts from the pair on disk and replays the journal. -/
theorem exec_loading (embedder : Embedder) (dir : Directory) (steps : List FileStep)
    (handle : VectorIndex) : ∃ taken outcome after,
      (sweepAndLoad embedder).exec ⟨[], dir, steps, handle⟩ =
        (outcome, ⟨[], dir.after taken, steps ++ taken, after⟩) ∧ dir.Appends taken ∧
      (outcome = .ok ⟨⟩ → after.Loaded embedder (dir.after taken)) := by
  obtain ⟨swept, ranSweep, appendsSweep⟩ := @exec_sweep handle dir.temps dir steps
  obtain ⟨read, outcome, ranMeta, appendsMeta⟩ :=
    @exec_readMeta handle embedder (dir.after swept) (steps ++ swept)
  rw [sweepAndLoad, Effect.exec_bind_ok (Effect.exec_get _), Effect.exec_bind_ok ranSweep, load]
  rw [← Directory.after_append, List.append_assoc] at ranMeta
  have appends := appendsSweep.append appendsMeta
  cases outcome with
  | error error =>
    rw [Effect.exec_bind_error ranMeta]
    exact ⟨swept ++ read, _, handle, rfl, appends, by rintro ⟨⟩⟩
  | ok found =>
    obtain ⟨written, diskFormat⟩ := found
    obtain rfl := loadMeta_returned ranMeta
    rw [Effect.exec_bind_ok ranMeta, Effect.exec_bind_ok (exec_onIndex_call _),
      Effect.exec_bind_ok (Effect.exec_get _), Effect.exec_bind_ok (exec_loadGraph _ _),
      Effect.exec_bind_ok (Effect.exec_get _), Effect.exec_bind_ok (Effect.exec_get _)]
    dsimp only
    cases opened : Journal.open (dir.after (swept ++ read)).journal embedder.metadata.dim
        embedder.metadata.modelId with
    | error error =>
      rw [Effect.exec_bind_error (Effect.exec_ofExcept _ _)]
      exact ⟨swept ++ read, _, handle, rfl, appends, by rintro ⟨⟩⟩
    | ok header =>
      obtain rfl := @Journal.open_returned embedder _ _ opened
      rw [Effect.exec_bind_ok (Effect.exec_ofExcept _ _),
        Effect.exec_bind_ok (exec_updateHandle _ _),
        VectorIndex.Agrees.exec_absorb ⟨rfl, rfl, fun _ member => absurd member List.not_mem_nil⟩]
      refine ⟨swept ++ read, _, _, rfl, appends, fun _ => ⟨⟨rfl, rfl, fun _ member => ?_⟩, ?_, rfl⟩⟩
      · exact absurd member List.not_mem_nil
      · exact congrArg (Pair.placeAll _) (VectorIndex.missing_fresh rfl rfl rfl)

/-- **An open** that returns has loaded the directory. -/
theorem exec_opening (embedder : Embedder) (dir : Directory) : ∃ taken outcome after,
    (VectorIndex.open embedder).exec ⟨[], dir, [], .blank⟩ =
      (outcome, ⟨[], dir.after taken, taken, after⟩) ∧ dir.Appends taken ∧
    (outcome = .ok ⟨⟩ → after.Loaded embedder (dir.after taken)) := by
  obtain ⟨taken, outcome, after, ran, appends, loaded⟩ := exec_loading embedder dir [] .blank
  rw [VectorIndex.open, Effect.exec_tryCatch, ran]
  cases outcome with
  | ok => exact ⟨taken, _, after, rfl, appends, loaded⟩
  | error error =>
    dsimp only
    split
    · obtain ⟨again, outcome, final, ran, appendsAgain, loaded⟩ :=
        exec_loading embedder (dir.after taken) ([] ++ taken) after
      rw [ran]
      refine ⟨taken ++ again, outcome, final, by simp, appends.append appendsAgain, ?_⟩
      rw [Directory.after_append]
      exact loaded
    · exact ⟨taken, .error error, after, rfl, appends, by rintro ⟨⟩⟩

/-- An open that returned has loaded a directory with the same graph, keymap and journal. -/
theorem opened_loaded {opened : Session}
    (returned : (VectorIndex.open embedder).exec ⟨[], dir, [], .blank⟩ = (.ok ⟨⟩, opened)) :
    opened.handle.Loaded embedder opened.dir ∧ opened.dir.usearch = dir.usearch ∧
      opened.dir.keymap = dir.keymap ∧ opened.dir.journal = dir.journal := by
  obtain ⟨taken, outcome, after, ran, appends, loaded⟩ := exec_opening embedder dir
  cases ran.symm.trans returned
  have grown := @Directory.Appends.extends embedder dir taken appends
  have attempt := (@Session.Loadable.journal embedder dir.journal).sweepAndLoad
    fun _ _ held => held
  have whole : Effect.Preserves (fun session : Session => session.dir.journal = dir.journal)
      (VectorIndex.open embedder) := by
    refine .tryCatch attempt fun error => ?_
    split
    · exact attempt
    · exact .throw _
  exact ⟨loaded rfl, grown.usearch, grown.keymap, whole.after returned rfl⟩

end Calls

section Invariant

variable {embedder : Embedder} {dir before after : Directory} {handle : VectorIndex}

/-- A load keeps the generation. -/
theorem Directory.loadedKeymap_generation (dir : Directory) :
    dir.loadedKeymap.generation = (dir.keymap.getD .default).generation := by
  unfold Directory.loadedKeymap
  dsimp only
  split <;> rfl

/-- A keymap that names nothing is well formed. -/
theorem Keymap.WellFormed.clear (keymap : Keymap) : keymap.clear.WellFormed :=
  ⟨by simp [Keymap.clear], by simp [Keymap.clear]⟩

/-- A load starts from a well formed keymap. -/
theorem Directory.loadedKeymap_wellFormed (wellFormed : (dir.keymap.getD .default).WellFormed) :
    dir.loadedKeymap.WellFormed := by
  unfold Directory.loadedKeymap
  dsimp only
  split
  · exact .clear _
  · exact wellFormed

/-- What is appended leaves a directory that a load mends. -/
theorem Directory.Kept.extends (kept : before.Kept embedder) (grown : before.Extends embedder after) :
    after.Kept embedder := by
  have keymap : after.loadedKeymap = before.loadedKeymap := by
    unfold Directory.loadedKeymap
    rw [grown.usearch, grown.keymap]
  have more : (before.missing embedder).length ≤ (after.missing embedder).length := by
    unfold Directory.missing
    rw [keymap]
    exact (grown.records.filter _).length_le
  refine ⟨grown.keymap ▸ kept.wellFormed, ?_⟩
  unfold Directory.Mendable
  rw [keymap, grown.usearch]
  refine ⟨kept.mendable.1, fun key held => (kept.mendable.2 key held).imp_right ?_⟩
  rintro ⟨above, below⟩
  exact ⟨above, by omega⟩

/-- The pair that a load starts from is sound, and loose by what the load replays. -/
theorem Directory.Kept.loadedPair (kept : dir.Kept embedder) :
    dir.loadedPair.Sound ∧ dir.loadedPair.Loose (dir.missing embedder).length := by
  have wellFormed := Directory.loadedKeymap_wellFormed kept.wellFormed
  have inverse := wellFormed.inverse
  refine ⟨⟨wellFormed, fun id key named => ?_⟩, fun key held => ?_⟩
  · have present : key ∈ dir.loadedKeymap.forward := by
      rw [← Finmap.lookup_isSome, (inverse id key).mp named]
      rfl
    exact Finmap.lookup_isSome.mpr (kept.mendable.1 key (Finmap.mem_keys.mpr present))
  · refine (kept.mendable.2 key (Finmap.mem_keys.mpr (Finmap.lookup_isSome.mp held))).imp_left ?_
    intro present
    obtain ⟨id, named⟩ := Option.isSome_iff_exists.mp (Finmap.lookup_isSome.mpr present)
    exact ⟨id, (inverse id key).mpr named⟩

/-- **A load of a directory that it mends** leaves a handle whose keymap names the keys of
its graph. -/
theorem VectorIndex.Loaded.matched (loaded : handle.Loaded embedder dir) (kept : dir.Kept embedder) :
    handle.pair.Matched := by
  obtain ⟨sound, loose⟩ := kept.loadedPair
  rw [loaded.pair]
  refine ⟨sound.placeAll _, ?_⟩
  have placed := loose.placeAll sound.wellFormed (dir.missing embedder)
  rwa [Nat.sub_self] at placed

theorem Pair.Matched.placeAll {pair : Pair} (matched : pair.Matched) (entries : List Entry) :
    (pair.placeAll entries).Matched := by
  refine ⟨matched.sound.placeAll entries, ?_⟩
  have placed := matched.tight.placeAll matched.sound.wellFormed entries
  rwa [Nat.zero_sub] at placed

/-- An eviction takes a key out of both. -/
theorem Pair.Matched.evict {pair : Pair} (matched : pair.Matched) (id : ItemId) :
    (pair.evict id).Matched := by
  have wellFormed := matched.sound.wellFormed
  obtain ⟨_, _, _, _, others⟩ := Pair.evict_keymap wellFormed id
  refine ⟨(Pair.evict_moves wellFormed id).sound matched.sound, fun key held => .inl ?_⟩
  have kept : pair.keymap.reverse.lookup id ≠ some key := by
    intro evicted
    simp [Pair.evict, evicted] at held
  rw [Pair.evict_index id key kept] at held
  rcases matched.tight key held with ⟨other, named⟩ | ⟨above, below⟩
  · exact ⟨other, by rw [others other fun same => kept (same ▸ named), named]⟩
  · omega

/-- Without a graph file a load starts from nothing. -/
theorem Directory.Kept.of_absent (absent : dir.usearch = none)
    (wellFormed : (dir.keymap.getD .default).WellFormed) : dir.Kept embedder := by
  refine ⟨wellFormed, ?_⟩
  have unnamed : dir.loadedKeymap.forward = ∅ := by
    unfold Directory.loadedKeymap
    dsimp only
    by_cases empty : (dir.keymap.getD .default).forward = ∅
    · rw [if_neg fun stale => stale.2 empty]
      exact empty
    · rw [if_pos ⟨by rw [absent]; rfl, empty⟩]
      rfl
  unfold Directory.Mendable
  rw [unnamed, absent]
  exact ⟨fun key member => by simp at member, fun key member => by simp at member⟩

/-- A published pair needs no mending. -/
theorem Directory.Kept.of_published (matched : handle.pair.Matched)
    (usearch : dir.usearch = if handle.inner = ∅ then none else some handle.inner)
    (keymap : dir.keymap = some handle.stamped) : dir.Kept embedder := by
  have wellFormed : handle.stamped.WellFormed :=
    ⟨matched.sound.wellFormed.inverse, matched.sound.wellFormed.issued⟩
  have read : dir.keymap.getD .default = handle.stamped := by rw [keymap, Option.getD_some]
  by_cases empty : handle.inner = ∅
  · exact .of_absent (by rw [usearch, if_pos empty]) (read ▸ wellFormed)
  · rw [if_neg empty] at usearch
    have loaded : dir.loadedKeymap = handle.stamped := by
      unfold Directory.loadedKeymap
      rw [read, usearch, if_neg fun stale => by simp at stale]
    refine ⟨read ▸ wellFormed, ?_⟩
    unfold Directory.Mendable
    rw [loaded, usearch, Option.getD_some]
    refine ⟨fun key member => ?_, fun key member => .inl ?_⟩
    · obtain ⟨id, named⟩ := Option.isSome_iff_exists.mp
        (Finmap.lookup_isSome.mpr (Finmap.mem_keys.mp member))
      exact Finmap.lookup_isSome.mp
        (matched.sound.served id key ((wellFormed.inverse id key).mpr named))
    · rcases matched.tight key (Finmap.lookup_isSome.mpr (Finmap.mem_keys.mp member)) with
        ⟨id, named⟩ | ⟨above, below⟩
      · exact Finmap.lookup_isSome.mp (by rw [(wellFormed.inverse id key).mp named]; rfl)
      · omega

/-- The prefixes of a single step. -/
theorem prefix_single {part : List FileStep} {step : FileStep} (isPrefix : part <+: [step]) :
    part = [] ∨ part = [step] := by
  rcases List.prefix_cons_iff.mp isPrefix with rfl | ⟨rest, rfl, none⟩
  · exact .inl rfl
  · rw [List.prefix_nil.mp none]
    exact .inr rfl

/-- While the graph is put in place the directory can be mended, until it is renamed. -/
theorem Directory.Kept.placing (kept : dir.Kept embedder) (snapshot : Graph)
    {part : List FileStep} (isPrefix : part <+: saveSteps snapshot ++ graphSteps dir snapshot)
    (whole : Torn part = false) : (dir.after part).Kept embedder := by
  unfold saveSteps graphSteps at isPrefix
  by_cases empty : snapshot = ∅
  · rw [if_neg (not_not.mpr empty), if_neg (not_not.mpr empty), List.nil_append] at isPrefix
    split at isPrefix
    · rcases prefix_single isPrefix with rfl | rfl
      · exact kept
      · exact .of_absent rfl kept.wellFormed
    · rw [List.prefix_nil.mp isPrefix]
      exact kept
  · rw [if_pos empty, if_pos empty] at isPrefix
    rcases List.prefix_concat_iff.mp isPrefix with rfl | saving
    · simp [Torn] at whole
    · rcases prefix_single saving with rfl | rfl
      · exact kept
      · exact kept.extends ⟨rfl, rfl, List.prefix_refl _⟩

/-- **Between the steps of a compaction** the directory can be mended, except perhaps between
the two renames. -/
theorem Directory.Kept.publishing (kept : dir.Kept embedder) (matched : handle.pair.Matched)
    {part : List FileStep} (isPrefix : part <+: handle.publishSteps dir) (whole : Torn part = false) :
    (dir.after part).Kept embedder := by
  have published : ∀ cleared, cleared <+: clearSteps dir handle.journal →
      (dir.after (saveSteps handle.inner ++ graphSteps dir handle.inner ++
        [.createTemp .keymap, .renameKeymap handle.stamped] ++ cleared)).Kept embedder := by
    intro cleared isPrefix
    obtain ⟨usearch, _, _, _⟩ := after_graphSteps dir handle.inner
    rw [Directory.after_append, Directory.after_append]
    unfold clearSteps at isPrefix
    split at isPrefix
    · rcases prefix_single isPrefix with rfl | rfl <;>
        exact .of_published matched usearch rfl
    · rw [List.prefix_nil.mp isPrefix]
      exact .of_published matched usearch rfl
  have split : part <+: saveSteps handle.inner ++ graphSteps dir handle.inner ++
      [.createTemp .keymap, .renameKeymap handle.stamped] ∨
      ∃ cleared, cleared <+: clearSteps dir handle.journal ∧
        part = saveSteps handle.inner ++ graphSteps dir handle.inner ++
          [.createTemp .keymap, .renameKeymap handle.stamped] ++ cleared := by
    rcases List.prefix_or_prefix_of_prefix isPrefix (List.prefix_append _ _) with short | long
    · exact .inl short
    · obtain ⟨cleared, rfl⟩ := long
      exact .inr ⟨cleared, (List.prefix_append_right_inj _).mp isPrefix, rfl⟩
  rcases split with early | ⟨cleared, clearing, rfl⟩
  · rw [List.append_cons] at early
    rcases List.prefix_concat_iff.mp early with rfl | early
    · simpa using published [] List.nil_prefix
    rcases List.prefix_concat_iff.mp early with rfl | early
    · have placed := kept.placing handle.inner (List.prefix_refl _) (by simpa [Torn] using whole)
      rw [Directory.after_append]
      exact placed.extends ⟨rfl, rfl, List.prefix_refl _⟩
    · exact kept.placing handle.inner early whole
  · exact published cleared clearing

/-- A kill in the second part of the steps, none of which can be cut. -/
theorem Directory.killed_append (dir : Directory) (first : List FileStep) {second : List FileStep}
    (whole : ∀ step ∈ second, ∀ cut, step.cut cut = none) (done cut : Nat) :
    dir.killed (first ++ second) done cut =
      if done < first.length then dir.killed first done cut
      else (dir.after first).after (second.take (done - first.length)) := by
  unfold Directory.killed
  split
  case isTrue inside =>
    rw [List.take_append_of_le_length inside.le, List.getElem?_append_left inside]
  case isFalse outside =>
    have past := Nat.not_lt.mp outside
    have uncut : (second[done - first.length]?.bind (FileStep.cut cut)) = none := by
      cases next : second[done - first.length]? with
      | none => rfl
      | some step => exact whole step (List.mem_of_getElem? next) cut
    rw [List.getElem?_append_right past, uncut, List.take_append, List.take_of_length_le past,
      ← Directory.after_append]
    simp

/-- Appending renames nothing. -/
theorem Directory.Appends.torn_append {first : List FileStep} (appends : dir.Appends first)
    (second : List FileStep) : Torn (first ++ second) = Torn second := by
  induction first generalizing dir with
  | nil => rfl
  | cons step rest inductionHypothesis =>
    rw [← inductionHypothesis appends.2]
    cases step with
    | createTemp | removeTemp | renameMeta | createJournal | writeJournal => rfl
    | renameUsearch | removeUsearch | renameKeymap | setLenJournal => exact appends.1.elim

/-- A compaction's steps happen or do not. -/
theorem VectorIndex.publishSteps_uncut (handle : VectorIndex) (dir : Directory) :
    ∀ step ∈ handle.publishSteps dir, ∀ cut, step.cut cut = none := by
  intro step member cut
  unfold VectorIndex.publishSteps saveSteps graphSteps clearSteps at member
  cases step with
  | writeJournal bytes =>
    simp only [List.mem_append] at member
    rcases member with ((saved | placed) | named) | cleared
    · split at saved <;> simp at saved
    · split at placed <;> [skip; split at placed] <;> simp at placed
    · simp at named
    · split at cleared <;> simp at cleared
  | createTemp | removeTemp | renameMeta | renameUsearch | removeUsearch | renameKeymap
  | createJournal | setLenJournal => rfl

/-- The keymap on disk stays well formed. -/
theorem Directory.Kept.publishing_wellFormed (kept : dir.Kept embedder)
    (matched : handle.pair.Matched) {part : List FileStep}
    (isPrefix : part <+: handle.publishSteps dir) :
    ((dir.after part).keymap.getD .default).WellFormed := by
  refine @Directory.after_keeps (fun dir => (dir.keymap.getD .default).WellFormed) part
    (fun step member dir held => ?_) dir kept.wellFormed
  have inside := isPrefix.subset member
  unfold VectorIndex.publishSteps saveSteps graphSteps clearSteps at inside
  cases step with
  | renameKeymap written =>
    have same : written = handle.stamped := by
      simp only [List.mem_append] at inside
      rcases inside with ((saved | placed) | named) | cleared
      · split at saved <;> simp at saved
      · split at placed <;> [skip; split at placed] <;> simp at placed
      · simpa using named
      · split at cleared <;> simp at cleared
    rw [same]
    exact ⟨matched.sound.wellFormed.inverse, matched.sound.wellFormed.issued⟩
  | createTemp | removeTemp | renameMeta | renameUsearch | removeUsearch | createJournal
  | writeJournal | setLenJournal => exact held

/-- **A kill of a compaction** leaves a directory that can be mended, except perhaps between
the two renames. -/
theorem Directory.Kept.killed_publishing {first : List FileStep} (kept : dir.Kept embedder)
    (appends : dir.Appends first) (matched : handle.pair.Matched) (done cut : Nat)
    (spared : Torn ((first ++ handle.publishSteps (dir.after first)).take done) = true →
      (dir.killed (first ++ handle.publishSteps (dir.after first)) done cut).Mendable embedder) :
    (dir.killed (first ++ handle.publishSteps (dir.after first)) done cut).Kept embedder := by
  rw [dir.killed_append first (handle.publishSteps_uncut _)] at spared ⊢
  split at spared
  case isTrue inside =>
    rw [if_pos inside]
    exact kept.extends (appends.killed done cut)
  case isFalse outside =>
    rw [if_neg outside]
    have started : (dir.after first).Kept embedder := kept.extends appends.extends
    have isPrefix := List.take_prefix (done - first.length) (handle.publishSteps (dir.after first))
    rw [List.take_append, List.take_of_length_le (Nat.not_lt.mp outside), appends.torn_append]
      at spared
    by_cases torn : Torn ((handle.publishSteps (dir.after first)).take (done - first.length)) = true
    · exact ⟨started.publishing_wellFormed matched isPrefix, spared torn⟩
    · exact started.publishing matched isPrefix (by simpa using torn)

/-- What a call does: it leaves a tidy desk, and so does a kill that spares the pair, without
the handle. -/
structure Calmly (embedder : Embedder) (dir : Directory) (taken : List FileStep)
    (after : Option VectorIndex) : Prop where
  tidy : Desk.Tidy embedder ⟨dir.after taken, after⟩
  killed : ∀ done cut, (Torn (taken.take done) = true →
    (dir.killed taken done cut).Mendable embedder) → (dir.killed taken done cut).Kept embedder

/-- A call that takes no file step. -/
theorem Calmly.unwritten (kept : dir.Kept embedder) (agrees : handle.Agrees embedder)
    (matched : handle.pair.Matched)
    (current : (dir.keymap.getD .default).generation = handle.loadedGeneration) :
    Calmly embedder dir [] (some handle) where
  tidy := ⟨kept, fun _ same => Option.some.inj same ▸ agrees,
    fun _ same => Option.some.inj same ▸ matched, fun _ same => Option.some.inj same ▸ current⟩
  killed done cut _ := by simpa [Directory.killed] using kept

/-- A commit on a tidy desk. -/
theorem Calmly.commit (kept : dir.Kept embedder) (agrees : handle.Agrees embedder)
    (matched : handle.pair.Matched)
    (current : (dir.keymap.getD .default).generation = handle.loadedGeneration) (endOfBatch : Bool) :
    ∃ taken after, (commitLocked endOfBatch).exec ⟨[], dir, [], handle⟩ =
        (.ok ⟨⟩, ⟨[], dir.after taken, taken, after⟩) ∧ Calmly embedder dir taken (some after) := by
  obtain ⟨taken, middle, appends, agreed, pair, generation, ran⟩ :=
    @VectorIndex.Agrees.exec_commit embedder dir handle agrees endOfBatch
  have grown : dir.Extends embedder (dir.after taken) := appends.extends
  have started : (dir.after taken).Kept embedder := kept.extends grown
  have still : ((dir.after taken).keymap.getD .default).generation = middle.loadedGeneration := by
    rw [grown.keymap, current, generation]
  rcases ran with ran | ran
  · refine ⟨taken, middle, ran, ⟨started, fun _ same => Option.some.inj same ▸ agreed,
      fun _ same => Option.some.inj same ▸ pair ▸ matched,
      fun _ same => Option.some.inj same ▸ still⟩, fun done cut _ => ?_⟩
    exact kept.extends (appends.killed done cut)
  · rw [agreed.exec_compact still, ← Directory.after_append] at ran
    have folded : (middle.withPair (middle.pair.placeAll
        (middle.missing (dir.after taken)))).pair.Matched :=
      (pair ▸ matched : middle.pair.Matched).placeAll _
    obtain ⟨usearch, keymap, _, _⟩ := after_publishSteps
      (middle.withPair (middle.pair.placeAll (middle.missing (dir.after taken)))) (dir.after taken)
    refine ⟨_, _, ran, ⟨?_, ?_, ?_, ?_⟩, kept.killed_publishing appends folded⟩
    · rw [Directory.after_append]
      exact .of_published folded usearch keymap
    · rintro _ ⟨⟩
      exact ⟨agreed.metadata, agreed.journal, fun _ member => absurd member List.not_mem_nil⟩
    · rintro _ ⟨⟩
      exact ⟨folded.sound.stamp _, folded.tight⟩
    · rintro _ ⟨⟩
      rw [Directory.after_append, keymap]
      rfl

/-- **Every request** on a tidy desk. -/
theorem Calmly.request (kept : dir.Kept embedder) (agrees : handle.Agrees embedder)
    (matched : handle.pair.Matched)
    (current : (dir.keymap.getD .default).generation = handle.loadedGeneration) (request : Request) :
    ∃ outcome taken after, request.run.exec ⟨[], dir, [], handle⟩ =
        (outcome, ⟨[], dir.after taken, taken, after⟩) ∧ Calmly embedder dir taken (some after) := by
  cases request with
  | add entries =>
    cases refused : entries.find? (fun entry => entry.2.length ≠ handle.meta.dim) with
    | some entry =>
      have ran : (addEntries entries true).exec ⟨[], dir, [], handle⟩ =
          (.error (.dimMismatch handle.meta.dim entry.2.length), ⟨[], dir, [], handle⟩) := by
        rw [addEntries, Effect.exec_bind_ok (Effect.exec_get _)]
        simp only [refused]
        rfl
      exact ⟨_, [], handle, ran, .unwritten kept agrees matched current⟩
    | none =>
      have dimensions : ∀ entry ∈ entries, entry.2.length = handle.meta.dim := by
        simpa using refused
      refine ⟨_, [], _, exec_addEntries dir [] true dimensions,
        .unwritten kept ⟨agrees.metadata, agrees.journal, fun entry member => ?_⟩
          (matched.placeAll entries) current⟩
      rcases List.mem_append.mp member with old | new
      · exact agrees.pending entry old
      · rw [dimensions entry new, agrees.metadata]
        rfl
  | remove id =>
    refine ⟨_, [], _, exec_remove id, .unwritten kept
      ⟨agrees.metadata, agrees.journal, fun entry member => ?_⟩ (matched.evict id) current⟩
    exact agrees.pending entry (List.mem_of_mem_filter member)
  | commit endOfBatch =>
    obtain ⟨taken, after, ran, calmly⟩ := Calmly.commit kept agrees matched current endOfBatch
    exact ⟨_, taken, after, ran, calmly⟩
  | compact =>
    obtain ⟨taken, after, ran, calmly⟩ := Calmly.commit kept agrees matched current true
    exact ⟨_, taken, after, ran, calmly⟩

/-- **An open** of a directory that a load mends. -/
theorem Calmly.open (kept : dir.Kept embedder) :
    ∃ outcome taken after, (VectorIndex.open embedder).exec ⟨[], dir, [], .blank⟩ =
        (outcome, ⟨[], dir.after taken, taken, after⟩) ∧
      Calmly embedder dir taken (survivor outcome after none) := by
  obtain ⟨taken, outcome, after, ran, appends, loaded⟩ := exec_opening embedder dir
  have started : (dir.after taken).Kept embedder := kept.extends appends.extends
  have left : ∀ handle, survivor outcome after none = some handle →
      handle = after ∧ after.Loaded embedder (dir.after taken) := by
    intro handle same
    cases outcome with
    | error => cases same
    | ok => exact ⟨(Option.some.inj same).symm, loaded rfl⟩
  refine ⟨outcome, taken, after, ran, ⟨started, ?_, ?_, ?_⟩,
    fun done cut _ => kept.extends (appends.killed done cut)⟩
  · intro handle same
    obtain ⟨rfl, left⟩ := left handle same
    exact left.agrees
  · intro handle same
    obtain ⟨rfl, left⟩ := left handle same
    exact left.matched started
  · intro handle same
    obtain ⟨rfl, left⟩ := left handle same
    rw [left.generation, Directory.loadedKeymap_generation]

/-- Every call that a process can make. -/
theorem Desk.Tidy.run {desk : Desk} (tidy : desk.Tidy embedder) {request : Option Request}
    {outcome : Except Error PUnit} {session : Session}
    (ran : desk.run embedder request = some (outcome, session)) :
    session.dir = desk.dir.after session.steps ∧
      Calmly embedder desk.dir session.steps (survivor outcome session.handle request) := by
  cases request with
  | none =>
    obtain ⟨result, taken, after, opened, calmly⟩ := Calmly.open tidy.kept
    cases opened.symm.trans (Option.some.inj ran)
    exact ⟨rfl, calmly⟩
  | some request =>
    obtain ⟨handle, held, served⟩ := Option.map_eq_some_iff.mp ran
    obtain ⟨result, taken, after, requested, calmly⟩ := Calmly.request tidy.kept
      (tidy.agrees handle held) (tidy.matched handle held) (tidy.current handle held) request
    cases requested.symm.trans served
    exact ⟨rfl, calmly⟩

/-- **Every step that meets the condition** leaves a tidy desk. -/
theorem Desk.Tidy.step {desk next : Desk} {deed : Deed} (tidy : desk.Tidy embedder)
    (stepped : desk.SparingStep embedder deed next) : next.Tidy embedder := by
  obtain ⟨stepped, spares⟩ := stepped
  cases deed with
  | finish request =>
    obtain ⟨⟨outcome, session⟩, ran, rfl⟩ := Option.map_eq_some_iff.mp stepped
    obtain ⟨reached, calmly⟩ := tidy.run ran
    have after := calmly.tidy
    rw [← reached] at after
    exact after
  | kill request done cut =>
    obtain ⟨⟨outcome, session⟩, ran, rfl⟩ := Option.map_eq_some_iff.mp stepped
    obtain ⟨_, calmly⟩ := tidy.run ran
    exact ⟨calmly.killed done cut (spares outcome session ran), by rintro _ ⟨⟩, by rintro _ ⟨⟩,
      by rintro _ ⟨⟩⟩

/-- A desk nobody has sat at. -/
theorem Desk.Tidy.fresh (embedder : Embedder) : Desk.fresh.Tidy embedder :=
  ⟨.of_absent rfl .default, by rintro _ ⟨⟩, by rintro _ ⟨⟩, by rintro _ ⟨⟩⟩

/-- **As long as kills spare the pair**, the keymap of the handle names the keys of its
graph. -/
theorem sparing_run_tidy {deeds : List Deed} {desk : Desk}
    (run : Run (Desk.SparingStep embedder) .fresh deeds desk) : desk.Tidy embedder :=
  run.invariant (fun _ _ _ tidy stepped => Desk.Tidy.step tidy stepped) (.fresh embedder)

end Invariant

end Singularmem.Search
