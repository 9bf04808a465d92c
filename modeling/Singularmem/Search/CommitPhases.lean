import Singularmem.Search.SharedDirectory

/-!
# The sections of a commit

The file lock is held for the whole of a commit, and other threads may use the handle
between any two of its critical sections. A phase is what a commit does next; running it
gives the phase after it. A commit whose phases nothing interleaves is `commitLocked`.
-/

namespace Singularmem.Search

open Library Singularmem.Core

/-- What a commit does next. -/
inductive Phase
  | begun (endOfBatch : Bool)
  | draining
  /-- Drained records are left to append. -/
  | appending (rest : List Entry)
  | measuring
  | reloading
  | absorbing
  /-- Journal records were found missing. -/
  | inserting (missing : List Entry)
  | snapshotting
  /-- The graph was saved to its temporary file. -/
  | renamingGraph (snapshot : Graph)
  | serialising
  /-- The keymap was serialised. -/
  | renamingKeymap (written : Keymap)
  | clearing
  | finishing

/-- Put records back when a computation fails. -/
def requeueOnError (records : List Entry) (action : Op PUnit) : Op PUnit :=
  tryCatch action fun error => do
    requeue records
    throw error

/-- Serialise the keymap with the next generation. -/
def stampKeymap : Op Keymap := do
  updateHandle fun handle =>
    { handle with keymap := { handle.keymap with generation := handle.loadedGeneration + 1 } }
  return (← get).handle.keymap

/-- Write the keymap to its temporary file and rename it into place. -/
def renameKeymap (written : Keymap) : Op PUnit := do
  fileStep (.createTemp .keymap)
  fileStep (.renameKeymap written)

/-- Forget the removals and count the compaction. -/
def finishCompaction : Op PUnit :=
  updateHandle fun handle =>
    { handle with tombstones := [], loadedGeneration := handle.loadedGeneration + 1 }

/-- One critical section of a commit, or one change of the files; what comes next, if
anything. -/
def Phase.run : Phase → Op (Option Phase)
  | begun endOfBatch => do
    writeMetaUpgrade
    return some (if endOfBatch then reloading else draining)
  | draining => do
    let drained ← takePending
    return some (appending drained)
  | appending [] => return some measuring
  | appending (first :: others) => do
    requeueOnError (first :: others) (journalAppend ((first :: others).take journalAppendChunk))
    return some (appending ((first :: others).drop journalAppendChunk))
  | measuring => do
    let session ← get
    return if compactThreshold < Journal.len session.handle.journal session.dir.journal
      then some reloading else none
  | reloading => do
    reloadIfStale
    return some absorbing
  | absorbing => do
    let session ← get
    match session.handle.missing session.dir with
    | [] => return some snapshotting
    | missing => return some (inserting missing)
  | inserting missing => do
    addEntries missing false
    return some snapshotting
  | snapshotting => do
    let snapshot := (← get).handle.inner
    let drained ← takePending
    requeueOnError drained (saveSnapshot snapshot)
    return some (renamingGraph snapshot)
  | renamingGraph snapshot => do
    publishGraph snapshot
    return some serialising
  | serialising => do
    let written ← stampKeymap
    return some (renamingKeymap written)
  | renamingKeymap written => do
    renameKeymap written
    return some clearing
  | clearing => do
    journalClear
    return some finishing
  | finishing => do
    finishCompaction
    return none

/-- Run the phases to the end. -/
inductive Phase.Completes : Phase → Session → Except Error PUnit → Session → Prop
  | last {phase : Phase} {session after : Session}
      (ran : phase.run.exec session = (.ok none, after)) : Completes phase session (.ok ⟨⟩) after
  | more {phase next : Phase} {session middle after : Session} {outcome : Except Error PUnit}
      (ran : phase.run.exec session = (.ok (some next), middle))
      (rest : Completes next middle outcome after) : Completes phase session outcome after
  | failed {phase : Phase} {session after : Session} {error : Error}
      (ran : phase.run.exec session = (.error error, after)) :
      Completes phase session (.error error) after

namespace Phase

/-- The phases from here on complete what a computation does. -/
def Completing (phase : Phase) (action : Op PUnit) : Prop :=
  ∀ session, phase.Completes session (action.exec session).1 (action.exec session).2

/-- A phase whose computation is followed by the next phase. -/
theorem Completing.andThen {phase next : Phase} {first rest : Op PUnit}
    (runs : phase.run = first >>= fun _ => pure (some next)) (later : next.Completing rest) :
    phase.Completing (first >>= fun _ => rest) := by
  intro session
  rcases outcome : first.exec session with ⟨error | value, after⟩
  · rw [Effect.exec_bind_error outcome]
    refine .failed ?_
    rw [runs, Effect.exec_bind_error outcome]
  · rw [Effect.exec_bind_ok outcome]
    refine .more ?_ (later after)
    rw [runs, Effect.exec_bind_ok outcome]
    rfl

theorem finishing_completes : finishing.Completing finishCompaction :=
  fun _ => .last rfl

theorem clearing_completes :
    clearing.Completing (journalClear >>= fun _ => finishCompaction) :=
  .andThen rfl finishing_completes

theorem renamingKeymap_completes (written : Keymap) : (renamingKeymap written).Completing
    (renameKeymap written >>= fun _ => journalClear >>= fun _ => finishCompaction) :=
  .andThen rfl clearing_completes

/-- The keymap is serialised in one section and published in a later one. -/
theorem serialising_completes : serialising.Completing
    (publishKeymap >>= fun _ => journalClear >>= fun _ => finishCompaction) := by
  intro session
  exact .more rfl (renamingKeymap_completes _ _)

theorem renamingGraph_completes (snapshot : Graph) :
    (renamingGraph snapshot).Completing (publishCompaction snapshot) :=
  .andThen rfl serialising_completes

/-- Publishing does not fail. -/
theorem publishCompaction_returns (snapshot : Graph) (session : Session) :
    ∃ after, (publishCompaction snapshot).exec session = (.ok ⟨⟩, after) := by
  have graph : ∃ after, (publishGraph snapshot).exec session = (.ok ⟨⟩, after) := by
    rw [publishGraph]
    split
    · exact ⟨_, rfl⟩
    · rw [Effect.exec_bind_ok (Effect.exec_get session)]
      split
      · exact ⟨_, rfl⟩
      · exact ⟨_, rfl⟩
  obtain ⟨renamed, graph⟩ := graph
  rw [publishCompaction, Effect.exec_bind_ok graph]
  have keymap : ∀ session, ∃ after, publishKeymap.exec session = (.ok ⟨⟩, after) :=
    fun session => ⟨_, rfl⟩
  obtain ⟨named, keymap⟩ := keymap renamed
  rw [Effect.exec_bind_ok keymap]
  have journal : ∃ after, journalClear.exec named = (.ok ⟨⟩, after) := by
    rw [journalClear, Effect.exec_bind_ok (Effect.exec_get named),
      Effect.exec_bind_ok (Effect.exec_get named)]
    split
    · exact ⟨_, rfl⟩
    · exact ⟨_, rfl⟩
  obtain ⟨cleared, journal⟩ := journal
  rw [Effect.exec_bind_ok journal]
  exact ⟨_, rfl⟩

/-- What a compaction does once it has taken in what other handles wrote. -/
def publishSnapshot : Op PUnit := do
  let snapshot := (← get).handle.inner
  let drained ← takePending
  requeueOnError drained (do saveSnapshot snapshot; publishCompaction snapshot)

theorem compactLocked_eq :
    compactLocked = reloadIfStale >>= fun _ => absorbJournal >>= fun _ => publishSnapshot := rfl

theorem snapshotting_completes : snapshotting.Completing publishSnapshot := by
  intro session
  obtain ⟨drained, middle, taken⟩ : ∃ drained middle,
      takePending.exec session = (.ok drained, middle) := ⟨_, _, rfl⟩
  have whole : publishSnapshot.exec session = (requeueOnError drained (do
      saveSnapshot session.handle.inner
      publishCompaction session.handle.inner)).exec middle := by
    rw [publishSnapshot, Effect.exec_bind_ok (Effect.exec_get session), Effect.exec_bind_ok taken]
  have first : snapshotting.run.exec session =
      (requeueOnError drained (saveSnapshot session.handle.inner) >>= fun _ =>
        pure (some (renamingGraph session.handle.inner))).exec middle := by
    rw [run, Effect.exec_bind_ok (Effect.exec_get session), Effect.exec_bind_ok taken]
  rw [whole]
  rcases saved : (saveSnapshot session.handle.inner).exec middle with ⟨error | value, after⟩
  · have restored : ∀ rest : Op PUnit,
        (requeueOnError drained (do saveSnapshot session.handle.inner; rest)).exec middle =
          (do requeue drained; throw error : Op PUnit).exec after := by
      intro rest
      rw [requeueOnError, Effect.exec_tryCatch, Effect.exec_bind_error saved]
    have alone : (requeueOnError drained (saveSnapshot session.handle.inner)).exec middle =
        (do requeue drained; throw error : Op PUnit).exec after := by
      rw [requeueOnError, Effect.exec_tryCatch, saved]
    rw [restored]
    refine .failed ?_
    rw [first, Effect.exec_bind_error (alone.trans rfl)]
    rfl
  · obtain ⟨final, published⟩ := publishCompaction_returns session.handle.inner after
    have both : (requeueOnError drained (do
        saveSnapshot session.handle.inner
        publishCompaction session.handle.inner)).exec middle = (.ok ⟨⟩, final) := by
      rw [requeueOnError, Effect.exec_tryCatch, Effect.exec_bind_ok saved, published]
    have alone : (requeueOnError drained (saveSnapshot session.handle.inner)).exec middle =
        (.ok ⟨⟩, after) := by
      rw [requeueOnError, Effect.exec_tryCatch, saved]
    have later := renamingGraph_completes session.handle.inner after
    rw [published] at later
    rw [both]
    refine .more ?_ later
    rw [first, Effect.exec_bind_ok alone]
    rfl

/-- Absorbing looks for missing records in one section and inserts them in a later one. -/
theorem absorbing_completes :
    absorbing.Completing (absorbJournal >>= fun _ => publishSnapshot) := by
  intro session
  rcases found : session.handle.missing session.dir with _ | ⟨first, others⟩
  · have nothing : absorbJournal.exec session = (.ok ⟨⟩, session) := by
      rw [absorbJournal, Effect.exec_bind_ok (Effect.exec_get session), found]
      rfl
    rw [Effect.exec_bind_ok nothing]
    refine .more ?_ (snapshotting_completes session)
    rw [run, Effect.exec_bind_ok (Effect.exec_get session), found]
    rfl
  · have absorbed : absorbJournal.exec session =
        (addEntries (first :: others) false).exec session := by
      rw [absorbJournal, Effect.exec_bind_ok (Effect.exec_get session), found]
    have inserting : (inserting (first :: others)).Completing
        (addEntries (first :: others) false >>= fun _ => publishSnapshot) :=
      .andThen rfl snapshotting_completes
    have whole : (absorbJournal >>= fun _ => publishSnapshot).exec session =
        (addEntries (first :: others) false >>= fun _ => publishSnapshot).exec session := by
      rw [Effect.exec_bind, Effect.exec_bind, absorbed]
    rw [whole]
    refine .more ?_ (inserting session)
    rw [run, Effect.exec_bind_ok (Effect.exec_get session), found]
    rfl

theorem reloading_completes : reloading.Completing compactLocked :=
  .andThen rfl absorbing_completes

/-- A commit that does not close a batch compacts when the journal has outgrown its
threshold. -/
def compactLongJournal : Op PUnit := do
  let session ← get
  if compactThreshold < Journal.len session.handle.journal session.dir.journal then compactLocked
  else pure ⟨⟩

theorem measuring_completes : measuring.Completing compactLongJournal := by
  intro session
  have ran : measuring.run.exec session =
      (.ok (if compactThreshold < Journal.len session.handle.journal session.dir.journal
        then some reloading else none), session) := rfl
  rw [compactLongJournal, Effect.exec_bind_ok (Effect.exec_get session)]
  split
  case isTrue long =>
    rw [if_pos long] at ran
    exact .more ran (reloading_completes session)
  case isFalse short =>
    rw [if_neg short] at ran
    exact .last ran

theorem appending_completes {fuel : Nat} {rest : List Entry} (enough : rest.length ≤ fuel) :
    (appending rest).Completing (appendChunks fuel rest >>= fun _ => compactLongJournal) := by
  induction fuel generalizing rest with
  | zero =>
    obtain rfl := List.eq_nil_of_length_eq_zero (Nat.le_zero.mp enough)
    exact fun session => .more rfl (measuring_completes session)
  | succ fuel inductionHypothesis =>
    cases rest with
    | nil => exact fun session => .more rfl (measuring_completes session)
    | cons first others =>
      have shorter : ((first :: others).drop journalAppendChunk).length ≤ fuel := by
        rw [List.length_drop, journalAppendChunk]
        rw [List.length_cons] at enough ⊢
        omega
      have split : (appendChunks (fuel + 1) (first :: others) >>= fun _ => compactLongJournal) =
          requeueOnError (first :: others)
            (journalAppend ((first :: others).take journalAppendChunk)) >>= fun _ =>
          appendChunks fuel ((first :: others).drop journalAppendChunk) >>= fun _ =>
            compactLongJournal := by
        rw [appendChunks, bind_assoc]
        · rfl
        · exact List.cons_ne_nil first others
      rw [split]
      exact .andThen rfl (inductionHypothesis shorter)

/-- **A commit whose phases nothing interleaves** is the commit. -/
theorem commitLocked_completes (endOfBatch : Bool) :
    (begun endOfBatch).Completing (commitLocked endOfBatch) := by
  cases endOfBatch with
  | true => exact .andThen rfl reloading_completes
  | false =>
    have drains : draining.Completing (takePending >>= fun drained =>
        appendChunks drained.length drained >>= fun _ => compactLongJournal) := by
      intro session
      exact .more rfl (appending_completes le_rfl _)
    exact .andThen rfl drains

end Phase

end Singularmem.Search
