import Singularmem.Search.SharedDirectory

/-!
# Crashes and the next open

An operation may fail at any call of the graph library and may be killed between
any two of its file steps, or in the middle of a write. A directory is sane when
the next open accepts it: its metadata is the embedder's and its journal starts
with a complete header.

Every crash point of every operation leaves a sane directory but one: `journal.bin`
was created and its header was not written to the end. Such a journal is refused
and the refusal is not retried.
-/

namespace Singularmem.Search

open Library Singularmem.Core

/-- The next open, with a graph library that does not fail, returns. -/
def Directory.Opens (embedder : Embedder) (dir : Directory) : Prop :=
  ∃ after, (VectorIndex.open embedder).exec ⟨[], dir, [], .blank⟩ = (.ok ⟨⟩, after)

/-- A directory an open accepts. Nothing is asked of the graph, the keymap, and
what follows the journal's header. -/
structure Directory.Sane (embedder : Embedder) (dir : Directory) : Prop where
  metadata : ∀ found, dir.metaJson = some found → found = embedder.metadata
  journal : ∀ bytes, dir.journal = some bytes →
    embedder.header.Accepted ∧ embedder.header.encoded <+: bytes

/-- The journal was just created, and its header comes next. -/
def HeaderDue (embedder : Embedder) (done rest : List FileStep) : Prop :=
  done.getLast? = some .createJournal ∧
    rest.head? = some (.writeJournal embedder.header.encoded)

/-- Between any two of these steps the directory is sane, or the journal's header
is due. -/
def CrashSafe (embedder : Embedder) (start : Directory) (steps : List FileStep) : Prop :=
  ∀ done rest, steps = done ++ rest → (start.after done).Sane embedder ∨ HeaderDue embedder done rest

/-- A handle that writes this embedder's metadata and journal header. -/
structure VectorIndex.Suits (embedder : Embedder) (handle : VectorIndex) : Prop where
  metadata : handle.meta = embedder.metadata
  journal : handle.journal = embedder.header
  accepted : embedder.header.Accepted

/-- A session whose steps so far are crash safe. Once its handle is opened, the
handle suits the embedder. -/
structure Session.Keeps (embedder : Embedder) (start : Directory) (opened : Prop)
    (session : Session) : Prop where
  reached : session.dir = start.after session.steps
  safe : CrashSafe embedder start session.steps
  suits : opened → session.handle.Suits embedder

section Headers

variable {embedder : Embedder}

/-- A header is never empty. -/
theorem header_pos (header : JournalHeader) : 0 < header.headerLen := by
  rw [JournalHeader.headerLen, JournalHeader.encoded_length, headerPrefixLen]
  omega

/-- Opening a journal returns the header that was asked for. -/
theorem Journal.open_returned {file : Option (List UInt8)} {header : JournalHeader}
    (opened : Journal.open file embedder.dim embedder.modelId = .ok header) :
    header = embedder.header := by
  unfold Journal.open at opened
  split at opened
  · simp at opened
  · cases file with
    | none =>
      simp only at opened
      split at opened
      · simp at opened
      · exact (Except.ok.inj opened).symm
    | some bytes =>
      simp only at opened
      split at opened
      · simp at opened
      split at opened
      · simp at opened
      split at opened
      · simp at opened
      rename_i found decoded
      split at opened
      · simp at opened
      split at opened
      · simp at opened
      rename_i sameModel sameDim
      obtain rfl := Except.ok.inj opened
      simp only [ne_eq, not_not] at sameModel sameDim
      rw [Embedder.header, ← sameModel, ← sameDim]

/-- A journal shorter than its header is refused: the fixed fields are missing,
or the model id they announce is. -/
theorem Journal.open_cut (accepted : embedder.header.Accepted) {cut : Nat}
    (short : cut < embedder.header.headerLen) (header : JournalHeader) :
    Journal.open (some (embedder.header.encoded.take cut)) embedder.dim embedder.modelId ≠
      .ok header := by
  have length : (embedder.header.encoded.take cut).length = cut := by
    rw [List.length_take]
    exact Nat.min_eq_left (Nat.le_of_lt short)
  have narrow : ¬ 2 ^ 32 ≤ embedder.dim := Nat.not_le.mpr accepted.1
  rw [Journal.open, if_neg narrow]
  simp only [length]
  by_cases fields : cut < headerPrefixLen
  · simp [fields]
  · have announced : leNat (((embedder.header.encoded.take cut).drop 10).take 2) =
        (utf8Bytes embedder.modelId).length := by
      obtain ⟨_, _, _, idLength⟩ := JournalHeader.fields_encoded accepted []
      rw [List.append_nil] at idLength
      rw [List.drop_take, List.take_take, Nat.min_eq_left]
      · exact idLength
      · rw [headerPrefixLen] at fields
        omega
    have missing : cut < headerPrefixLen + (utf8Bytes embedder.modelId).length := by
      rw [JournalHeader.headerLen, JournalHeader.encoded_length] at short
      exact short
    simp [fields, announced, missing]

end Headers

namespace Directory.Sane

variable {embedder : Embedder} {dir : Directory}

/-- A fresh directory is sane. -/
theorem fresh (embedder : Embedder) : Directory.fresh.Sane embedder :=
  ⟨fun _ absent => absurd absent (by simp [Directory.fresh]),
    fun _ absent => absurd absent (by simp [Directory.fresh])⟩

/-- Changes of the other files do not matter. -/
theorem others (sane : dir.Sane embedder) {other : Directory}
    (sameMeta : other.metaJson = dir.metaJson) (sameJournal : other.journal = dir.journal) :
    other.Sane embedder :=
  ⟨fun found present => sane.metadata found (sameMeta ▸ present),
    fun bytes present => sane.journal bytes (sameJournal ▸ present)⟩

/-- Writing the embedder's metadata. -/
theorem renameMeta (sane : dir.Sane embedder) :
    ((FileStep.renameMeta embedder.metadata).apply dir).Sane embedder :=
  ⟨fun _ present => (Option.some.inj present).symm, sane.journal⟩

/-- Writing anything at the end of the journal, in whole or in part. -/
theorem writeJournal (sane : dir.Sane embedder) (bytes : List UInt8) :
    ((FileStep.writeJournal bytes).apply dir).Sane embedder := by
  refine ⟨sane.metadata, ?_⟩
  intro written present
  obtain ⟨old, held, rfl⟩ := Option.map_eq_some_iff.mp present
  obtain ⟨accepted, header⟩ := sane.journal old held
  exact ⟨accepted, header.trans (List.prefix_append _ _)⟩

/-- Cutting the journal back to its header. -/
theorem setLenJournal (sane : dir.Sane embedder) :
    ((FileStep.setLenJournal embedder.header.headerLen).apply dir).Sane embedder := by
  refine ⟨sane.metadata, ?_⟩
  intro written present
  obtain ⟨old, held, rfl⟩ := Option.map_eq_some_iff.mp present
  obtain ⟨accepted, tail, rfl⟩ := sane.journal old held
  refine ⟨accepted, ?_⟩
  rw [setLen_of_le (by rw [List.length_append]; exact Nat.le_add_right _ _),
    JournalHeader.headerLen, List.take_left' rfl]

/-- Creating the journal and writing its header to the end. -/
theorem createFile (sane : dir.Sane embedder) (accepted : embedder.header.Accepted) :
    (dir.after [.createJournal, .writeJournal embedder.header.encoded]).Sane embedder := by
  refine ⟨sane.metadata, ?_⟩
  intro written present
  rw [← Option.some.inj present]
  exact ⟨accepted, List.prefix_refl _⟩

end Directory.Sane

/-- After its creation the journal is empty. -/
theorem journal_of_created {dir : Directory} {steps : List FileStep}
    (created : steps.getLast? = some .createJournal) : (dir.after steps).journal = some [] := by
  obtain ⟨before, rfl⟩ := List.getLast?_eq_some_iff.mp created
  rw [Directory.after_append]
  rfl

namespace CrashSafe

variable {embedder : Embedder} {start : Directory} {steps : List FileStep}

/-- Without steps only the start counts. -/
theorem nil (sane : start.Sane embedder) : CrashSafe embedder start [] := by
  intro done rest split
  obtain ⟨rfl, rfl⟩ := List.append_eq_nil_iff.mp split.symm
  exact .inl sane

/-- When no step is left the directory is sane. -/
theorem finish (safe : CrashSafe embedder start steps) : (start.after steps).Sane embedder := by
  rcases safe steps [] (List.append_nil steps).symm with sane | ⟨_, due⟩
  · exact sane
  · exact absurd due (by simp)

/-- More steps, of which the first keep what was safe and the last leaves a sane
directory. -/
theorem extend {more : List FileStep} (safe : CrashSafe embedder start steps)
    (later : ∀ done rest, more = done ++ rest →
      (start.after (steps ++ done)).Sane embedder ∨ HeaderDue embedder (steps ++ done) rest) :
    CrashSafe embedder start (steps ++ more) := by
  intro done rest split
  rcases List.append_eq_append_iff.mp split with ⟨begun, rfl, left⟩ | ⟨missing, rfl, rfl⟩
  · exact later begun rest left
  · rcases safe done missing rfl with sane | ⟨created, due⟩
    · exact .inl sane
    · refine .inr ⟨created, ?_⟩
      cases missing with
      | nil => simp at due
      | cons step others => exact due

/-- One more step after which the directory is sane. -/
theorem snoc {step : FileStep} (safe : CrashSafe embedder start steps)
    (sane : (start.after (steps ++ [step])).Sane embedder) :
    CrashSafe embedder start (steps ++ [step]) := by
  refine safe.extend fun done rest split => .inl ?_
  cases done with
  | nil =>
    rw [List.append_nil]
    exact safe.finish
  | cons first others =>
    obtain ⟨rfl, tail⟩ := List.cons.inj split
    rw [(List.append_eq_nil_iff.mp tail.symm).1]
    exact sane

/-- Creating the journal and writing its header. -/
theorem createFile (safe : CrashSafe embedder start steps)
    (accepted : embedder.header.Accepted) :
    CrashSafe embedder start
      (steps ++ [.createJournal, .writeJournal embedder.header.encoded]) := by
  refine safe.extend ?_
  intro done rest split
  cases done with
  | nil =>
    rw [List.append_nil]
    exact .inl safe.finish
  | cons first others =>
    obtain ⟨rfl, tail⟩ := List.cons.inj split
    cases others with
    | nil =>
      obtain rfl : [.writeJournal embedder.header.encoded] = rest := tail
      exact .inr ⟨by simp, rfl⟩
    | cons second others =>
      obtain ⟨rfl, none⟩ := List.cons.inj tail
      rw [(List.append_eq_nil_iff.mp none.symm).1, Directory.after_append]
      exact .inl (safe.finish.createFile accepted)

end CrashSafe

/-- The file steps of a load. -/
def FileStep.ofLoad (embedder : Embedder) : FileStep → Prop
  | createTemp temp => temp = .metaJson
  | removeTemp _ => True
  | renameMeta written => written = embedder.metadata
  | _ => False

/-- A property of sessions that a load's file steps keep, and that no change of a
handle breaks unless it changes the metadata or the journal header. -/
structure Session.Loadable (embedder : Embedder) (holds : Session → Prop) : Prop where
  step : ∀ (session : Session) (step : FileStep), step.ofLoad embedder → holds session →
    holds { session with dir := step.apply session.dir, steps := session.steps ++ [step] }
  handle : ∀ (session : Session) (faults : List Bool) (handle : VectorIndex),
    handle.meta = session.handle.meta → handle.journal = session.handle.journal → holds session →
    holds { session with faults, handle }

namespace Session.Loadable

open Effect

variable {embedder : Embedder} {holds : Session → Prop}

theorem fileStep (loadable : Loadable embedder holds) {step : FileStep}
    (allowed : step.ofLoad embedder) : Preserves holds (fileStep step) :=
  Preserves.modify fun session held => loadable.step session step allowed held

theorem updateHandle (loadable : Loadable embedder holds) {update : VectorIndex → VectorIndex}
    (sameMeta : ∀ handle, (update handle).meta = handle.meta)
    (sameJournal : ∀ handle, (update handle).journal = handle.journal) :
    Preserves holds (updateHandle update) :=
  Preserves.modify fun session held =>
    loadable.handle session session.faults _ (sameMeta _) (sameJournal _) held

theorem onIndex (loadable : Loadable embedder holds) (action : Usearch PUnit) :
    Preserves holds (onIndex action) :=
  Preserves.zoom fun _ session held => loadable.handle session _ _ rfl rfl held

theorem insertFresh (loadable : Loadable embedder holds) (fresh : Pair) (entries : List Entry) :
    Preserves holds (insertFresh fresh entries) :=
  Preserves.zoom fun _ session held => loadable.handle session _ _ rfl rfl held

theorem sweepTempFiles (loadable : Loadable embedder holds) (temps : List TempFile) :
    Preserves holds (sweepTempFiles temps) := by
  induction temps with
  | nil => exact .pure _
  | cons temp rest inductionHypothesis =>
    exact .bind (loadable.fileStep trivial) fun _ => inductionHypothesis

theorem writeMetaAtomic (loadable : Loadable embedder holds) :
    Preserves holds (writeMetaAtomic embedder.metadata) :=
  .bind (loadable.fileStep rfl) fun _ => loadable.fileStep rfl

theorem loadMeta (loadable : Loadable embedder holds) : Preserves holds (loadMeta embedder) := by
  unfold Search.loadMeta
  refine .bind .get fun session => ?_
  split
  · exact .bind loadable.writeMetaAtomic fun _ => .pure _
  · split
    · exact .throw _
    split
    · exact .throw _
    split
    · exact .throw _
    · exact .pure _

theorem loadGraph (loadable : Loadable embedder holds) (context : String) (file : Option Graph) :
    Preserves holds (loadGraph context file) := by
  cases file with
  | none => exact .bind (loadable.onIndex _) fun _ => .pure _
  | some graph => exact .bind (loadable.onIndex _) fun _ => .pure _

theorem addEntries (loadable : Loadable embedder holds) (entries : List Entry) (queue : Bool) :
    Preserves holds (addEntries entries queue) := by
  unfold Search.addEntries
  refine .bind .get fun session => ?_
  simp only
  split
  · exact .throw _
  · refine .bind (loadable.onIndex _) fun _ => ?_
    split
    · exact loadable.updateHandle (fun _ => rfl) fun _ => rfl
    · exact .pure _

theorem absorbJournal (loadable : Loadable embedder holds) : Preserves holds absorbJournal := by
  unfold Search.absorbJournal
  refine .bind .get fun session => ?_
  split
  · exact .pure _
  · exact loadable.addEntries _ _

/-- A load keeps the property when it may construct any handle. -/
theorem sweepAndLoad (loadable : Loadable embedder holds)
    (constructs : ∀ (session : Session) (handle : VectorIndex), holds session →
      holds { session with handle }) :
    Preserves holds (sweepAndLoad embedder) := by
  refine .bind .get fun _ => .bind (loadable.sweepTempFiles _) fun _ => ?_
  exact .bind loadable.loadMeta fun _ => .bind (loadable.onIndex _) fun _ => .bind .get fun _ =>
    .bind (loadable.loadGraph _ _) fun _ => .bind .get fun _ => .bind .get fun _ =>
    .bind (.ofExcept _) fun _ =>
    .bind (.modify fun session held => constructs session _ held) fun _ => loadable.absorbJournal

/-- The journal is not touched. -/
theorem journal (file : Option (List UInt8)) :
    Loadable embedder fun session => session.dir.journal = file where
  step := by
    intro session step allowed held
    cases step with
    | createTemp | removeTemp | renameMeta => exact held
    | renameUsearch | removeUsearch | renameKeymap | createJournal | writeJournal
    | setLenJournal => exact allowed.elim
  handle := fun _ _ _ _ _ held => held

/-- The metadata and the journal header of the handle are not touched. -/
theorem header (written : VectorIndexMeta) (header : JournalHeader) :
    Loadable embedder fun session =>
      session.handle.meta = written ∧ session.handle.journal = header where
  step := fun _ _ _ held => held
  handle := fun _ _ _ sameMeta sameJournal held => ⟨sameMeta.trans held.1, sameJournal.trans held.2⟩

end Session.Loadable

section Loading

open Effect

variable {embedder : Embedder} {session after : Session}

/-- The metadata a load goes on with is the embedder's. -/
theorem loadMeta_returned {written : VectorIndexMeta} {diskFormat : Option String}
    (returned : (loadMeta embedder).exec session = (.ok (written, diskFormat), after)) :
    written = embedder.metadata := by
  rw [loadMeta, exec_bind_ok (exec_get _)] at returned
  split at returned
  · obtain ⟨_, _, _, rest⟩ := exec_bind_returned returned
    have same := Except.ok.inj (Prod.mk.inj rest).1
    exact (Prod.mk.inj same).1.symm
  · split at returned
    · simp at returned
    split at returned
    · simp at returned
    split at returned
    · simp at returned
    rename_i found _ _ sameModel sameDim
    have same := Except.ok.inj (Prod.mk.inj returned).1
    simp only [ne_eq, not_not] at sameModel sameDim
    rw [← (Prod.mk.inj same).1, Embedder.metadata, ← sameModel, ← sameDim]

/-- A load that returned found a journal of its embedder, and constructed a handle
that writes the embedder's metadata and header. -/
theorem sweepAndLoad_returned
    (returned : (sweepAndLoad embedder).exec session = (.ok ⟨⟩, after)) :
    Journal.open session.dir.journal embedder.dim embedder.modelId = .ok embedder.header ∧
      after.handle.meta = embedder.metadata ∧ after.handle.journal = embedder.header := by
  have kept := @Session.Loadable.journal embedder session.dir.journal
  rw [sweepAndLoad, exec_bind_ok (exec_get _)] at returned
  obtain ⟨_, swept, ranSweep, returned⟩ := exec_bind_returned returned
  obtain ⟨⟨written, diskFormat⟩, read, ranMeta, returned⟩ := exec_bind_returned returned
  obtain rfl := loadMeta_returned ranMeta
  obtain ⟨_, constructed, ranConstruct, returned⟩ := exec_bind_returned returned
  rw [exec_bind_ok (exec_get _)] at returned
  obtain ⟨inner, loaded, ranGraph, returned⟩ := exec_bind_returned returned
  have same : loaded.dir.journal = session.dir.journal :=
    (kept.loadGraph _ _).after ranGraph <| (kept.onIndex _).after ranConstruct <|
      kept.loadMeta.after ranMeta <| (kept.sweepTempFiles _).after ranSweep rfl
  rw [exec_bind_ok (exec_get _), exec_bind_ok (exec_get _)] at returned
  obtain ⟨header, _, journal, returned⟩ := exec_bind_returned returned
  rw [exec_ofExcept] at journal
  obtain ⟨opened, rfl⟩ := Prod.mk.inj journal
  obtain ⟨_, _, updated, returned⟩ := exec_bind_returned returned
  obtain rfl := (Prod.mk.inj updated).2
  rw [same] at opened
  obtain rfl := @Journal.open_returned embedder _ _ opened
  exact ⟨opened, (@Session.Loadable.header embedder embedder.metadata
    embedder.header).absorbJournal.after returned ⟨rfl, rfl⟩⟩

/-- So has an open that returned, at its first attempt or its second. -/
theorem open_returned (returned : (VectorIndex.open embedder).exec session = (.ok ⟨⟩, after)) :
    Journal.open session.dir.journal embedder.dim embedder.modelId = .ok embedder.header ∧
      after.handle.meta = embedder.metadata ∧ after.handle.journal = embedder.header := by
  rw [VectorIndex.open, exec_tryCatch] at returned
  rcases ran : exec (sweepAndLoad embedder) session with ⟨error | value, middle⟩
  · rw [ran] at returned
    have kept := @Session.Loadable.journal embedder session.dir.journal
    have same : middle.dir.journal = session.dir.journal :=
      (kept.sweepAndLoad fun _ _ held => held).after ran rfl
    simp only at returned
    split at returned
    · rw [← same]
      exact sweepAndLoad_returned returned
    · simp at returned
  · rw [ran] at returned
    exact sweepAndLoad_returned (ran.trans returned)

/-- A journal is accepted only under a header it can carry, or behind one. -/
theorem accepted_of_journal {dir : Directory} (sane : dir.Sane embedder)
    (opened : Journal.open dir.journal embedder.dim embedder.modelId = .ok embedder.header) :
    embedder.header.Accepted := by
  cases present : dir.journal with
  | some bytes => exact (sane.journal bytes present).1
  | none =>
    by_contra refused
    obtain ⟨error, failed, _⟩ := Journal.open_refused refused
    rw [present] at opened
    exact absurd (failed.symm.trans opened) (by simp)

/-- A handle opened on a sane directory suits its embedder. -/
theorem suits_of_open (sane : session.dir.Sane embedder)
    (returned : (VectorIndex.open embedder).exec session = (.ok ⟨⟩, after)) :
    after.handle.Suits embedder := by
  obtain ⟨journal, metadata, header⟩ := open_returned returned
  exact ⟨metadata, header, accepted_of_journal sane journal⟩

variable {dir : Directory} {steps : List FileStep} {handle : VectorIndex}

/-- A load past its metadata. -/
def loadFrom (written : VectorIndexMeta) (diskFormat : Option String) : Op PUnit := do
  onIndex (usearchCall "constructing usearch::Index")
  let inner ← loadGraph "loading existing usearch index" (← get).dir.usearch
  let keymap := (← get).dir.loadedKeymap
  let journal ← Effect.ofExcept (Journal.open (← get).dir.journal written.dim written.modelId)
  updateHandle fun _ =>
    { inner, «meta» := written, keymap, journal, pending := [],
      loadedGeneration := keymap.generation,
      metaUpgradePending := diskFormat.getD formatVersion = formatVersionV1,
      tombstones := [] }
  absorbJournal

/-- A load reads the metadata and goes on from it. -/
theorem load_eq (embedder : Embedder) :
    load embedder = loadMeta embedder >>= fun found => loadFrom found.1 found.2 := rfl

/-- A load that has read its metadata returns, where its journal opens and the graph works. -/
theorem loadFrom_returns
    (journal : Journal.open dir.journal embedder.dim embedder.modelId = .ok embedder.header)
    (diskFormat : Option String) :
    ∃ after, (loadFrom embedder.metadata diskFormat).exec ⟨[], dir, steps, handle⟩ =
      (.ok ⟨⟩, after) := by
  rw [loadFrom, exec_bind_ok (exec_onIndex_call _), exec_bind_ok (exec_get _),
    exec_bind_ok (exec_loadGraph _ _), exec_bind_ok (exec_get _), exec_bind_ok (exec_get _)]
  simp only [Embedder.metadata, journal]
  rw [exec_bind_ok (exec_ofExcept _ _), exec_bind_ok (exec_updateHandle _ _), absorbJournal,
    exec_bind_ok (exec_get _)]
  split
  · exact ⟨_, rfl⟩
  · refine ⟨_, exec_addEntries _ _ false ?_⟩
    intro entry member
    exact Journal.replay_dimension _ _ entry (List.mem_filter.mp member).1

/-- Loading a sane directory without graph faults returns. -/
theorem load_returns (sane : dir.Sane embedder) (accepted : embedder.header.Accepted) :
    ∃ after, (load embedder).exec ⟨[], dir, steps, handle⟩ = (.ok ⟨⟩, after) := by
  have journal : Journal.open dir.journal embedder.dim embedder.modelId = .ok embedder.header := by
    cases present : dir.journal with
    | none => exact Journal.open_absent accepted
    | some bytes =>
      obtain ⟨_, tail, rfl⟩ := sane.journal bytes present
      exact Journal.open_present accepted tail
  obtain ⟨diskFormat, taken, sameJournal, ran⟩ : ∃ diskFormat taken,
      (dir.after taken).journal = dir.journal ∧
      (loadMeta embedder).exec ⟨[], dir, steps, handle⟩ =
        (.ok (embedder.metadata, diskFormat), ⟨[], dir.after taken, steps ++ taken, handle⟩) := by
    rw [loadMeta, exec_bind_ok (exec_get _)]
    cases present : dir.metaJson with
    | none =>
      refine ⟨none, [.createTemp .metaJson, .renameMeta embedder.metadata], rfl, ?_⟩
      simp [Search.writeMetaAtomic, exec_bind, Embedder.metadata, Directory.after, Except.map]
    | some found =>
      obtain rfl := sane.metadata found present
      exact ⟨some formatVersion, [], rfl, by simp [Embedder.metadata]⟩
  obtain ⟨after, returned⟩ := @loadFrom_returns embedder (dir.after taken) (steps ++ taken) handle
    (by rw [sameJournal, journal]) diskFormat
  exact ⟨after, by rw [load_eq, exec_bind_ok ran, returned]⟩

/-- A sane directory is opened, if its journal can carry the embedder's header. -/
theorem Directory.Sane.opens (sane : dir.Sane embedder) (accepted : embedder.header.Accepted) :
    dir.Opens embedder := by
  have swept : ∀ (temps : List TempFile) (dir : Directory) (steps : List FileStep),
      dir.Sane embedder → ∃ after taken, after.Sane embedder ∧
        (sweepTempFiles temps).exec ⟨[], dir, steps, .blank⟩ =
          (.ok ⟨⟩, ⟨[], after, steps ++ taken, .blank⟩) := by
    intro temps
    induction temps with
    | nil => exact fun dir steps sane => ⟨dir, [], sane, by simp [Search.sweepTempFiles]⟩
    | cons temp rest inductionHypothesis =>
      intro dir steps sane
      obtain ⟨after, taken, saneAfter, ran⟩ := inductionHypothesis
        ((FileStep.removeTemp temp).apply dir) (steps ++ [.removeTemp temp]) (sane.others rfl rfl)
      refine ⟨after, .removeTemp temp :: taken, saneAfter, ?_⟩
      rw [Search.sweepTempFiles, exec_bind_ok (exec_fileStep _ _), ran]
      simp
  obtain ⟨cleaned, taken, saneCleaned, ranSweep⟩ := swept dir.temps dir [] sane
  obtain ⟨after, ran⟩ := @load_returns _ cleaned ([] ++ taken) .blank saneCleaned accepted
  refine ⟨after, ?_⟩
  rw [VectorIndex.open, exec_tryCatch, Search.sweepAndLoad, exec_bind_ok (exec_get _),
    exec_bind_ok ranSweep, ran]

/-- The next open of a sane directory depends on the embedder alone. -/
theorem Directory.Sane.opens_iff (sane : dir.Sane embedder) :
    dir.Opens embedder ↔ embedder.header.Accepted := by
  refine ⟨?_, sane.opens⟩
  rintro ⟨after, returned⟩
  exact accepted_of_journal sane (open_returned returned).1

/-- A directory whose journal ends inside its header is not opened. -/
theorem not_opens_of_cut (accepted : embedder.header.Accepted) {cut : Nat}
    (short : cut < embedder.header.headerLen)
    (journal : dir.journal = some (embedder.header.encoded.take cut)) : ¬ dir.Opens embedder := by
  rintro ⟨after, returned⟩
  have opened := (open_returned returned).1
  rw [journal] at opened
  exact Journal.open_cut accepted short _ opened

end Loading

namespace Session.Keeps

open Effect

variable {embedder : Embedder} {start : Directory} {opened : Prop} {session : Session}

/-- The session's directory is sane between its operations. -/
theorem sane (keeps : session.Keeps embedder start opened) : session.dir.Sane embedder := by
  rw [keeps.reached]
  exact keeps.safe.finish

/-- A session that starts on a sane directory. -/
theorem begin {faults : List Bool} {handle : VectorIndex} (sane : start.Sane embedder)
    (suits : opened → handle.Suits embedder) :
    (⟨faults, start, [], handle⟩ : Session).Keeps embedder start opened :=
  ⟨rfl, .nil sane, suits⟩

/-- A file step that keeps a sane directory sane. -/
theorem withStep (keeps : session.Keeps embedder start opened) {step : FileStep}
    (kept : (step.apply session.dir).Sane embedder) :
    ({ session with dir := step.apply session.dir, steps := session.steps ++ [step] } :
      Session).Keeps embedder start opened := by
  have reached : step.apply session.dir = start.after (session.steps ++ [step]) := by
    rw [Directory.after_append, ← keeps.reached]
    rfl
  exact ⟨reached, keeps.safe.snoc (reached ▸ kept), keeps.suits⟩

theorem fileStep {step : FileStep}
    (kept : ∀ dir : Directory, dir.Sane embedder → (step.apply dir).Sane embedder) :
    Preserves (Session.Keeps embedder start opened) (fileStep step) :=
  Preserves.modify fun session keeps => keeps.withStep (kept session.dir keeps.sane)

/-- A file step that touches neither the metadata nor the journal. -/
theorem otherFile {step : FileStep}
    (sameMeta : ∀ dir, (step.apply dir).metaJson = dir.metaJson)
    (sameJournal : ∀ dir, (step.apply dir).journal = dir.journal) :
    Preserves (Session.Keeps embedder start opened) (Search.fileStep step) :=
  fileStep fun dir sane => sane.others (sameMeta dir) (sameJournal dir)

/-- What a load does is crash safe. -/
theorem loadable (embedder : Embedder) (start : Directory) (opened : Prop) :
    Loadable embedder (Session.Keeps embedder start opened) where
  step := by
    intro session step allowed keeps
    refine keeps.withStep ?_
    cases step with
    | createTemp | removeTemp => exact keeps.sane.others rfl rfl
    | renameMeta written =>
      obtain rfl : written = embedder.metadata := allowed
      exact keeps.sane.renameMeta
    | renameUsearch | removeUsearch | renameKeymap | createJournal | writeJournal
    | setLenJournal => exact allowed.elim
  handle := fun session faults handle sameMeta sameJournal keeps =>
    ⟨keeps.reached, keeps.safe, fun isOpen => ⟨sameMeta.trans (keeps.suits isOpen).metadata,
      sameJournal.trans (keeps.suits isOpen).journal, (keeps.suits isOpen).accepted⟩⟩

/-- Opening takes crash-safe steps, however it ends. -/
theorem «open» : Preserves (Session.Keeps embedder start False) (VectorIndex.open embedder) := by
  have attempt : Preserves (Session.Keeps embedder start False) (sweepAndLoad embedder) :=
    (loadable embedder start False).sweepAndLoad fun _ _ keeps =>
      ⟨keeps.reached, keeps.safe, fun impossible => impossible.elim⟩
  refine .tryCatch attempt fun error => ?_
  split
  · exact attempt
  · exact .throw _

theorem updateRest {update : VectorIndex → VectorIndex}
    (sameMeta : ∀ handle, (update handle).meta = handle.meta)
    (sameJournal : ∀ handle, (update handle).journal = handle.journal) :
    Preserves (Session.Keeps embedder start opened) (updateHandle update) :=
  (loadable embedder start opened).updateHandle sameMeta sameJournal

theorem createTemp (temp : TempFile) :
    Preserves (Session.Keeps embedder start opened) (Search.fileStep (.createTemp temp)) :=
  otherFile (fun _ => rfl) fun _ => rfl

section Opened

variable (isOpen : opened)
include isOpen

theorem writeMetaUpgrade :
    Preserves (Session.Keeps embedder start opened) writeMetaUpgrade := by
  refine .get_bind fun session keeps => ?_
  simp only
  rw [(keeps.suits isOpen).metadata]
  split
  · refine Preserves.bind ?_ (fun _ => (loadable embedder start opened).writeMetaAtomic)
      session keeps
    exact updateRest (fun _ => rfl) fun _ => rfl
  · exact keeps

/-- The journal is created and its header written in two steps, between which the
header is due. -/
theorem createFile : Preserves (Session.Keeps embedder start opened) createFile := by
  refine .get_bind fun session keeps => ?_
  have suits := keeps.suits isOpen
  have reached : session.dir.after [.createJournal, .writeJournal embedder.header.encoded] =
      start.after (session.steps ++ [.createJournal, .writeJournal embedder.header.encoded]) := by
    rw [Directory.after_append, ← keeps.reached]
  simp only [suits.journal, exec_bind, exec_fileStep, List.append_assoc]
  exact ⟨reached, keeps.safe.createFile suits.accepted, keeps.suits⟩

theorem createIfAbsent : Preserves (Session.Keeps embedder start opened) createIfAbsent := by
  refine .bind .get fun session => ?_
  split
  · exact createFile isOpen
  · exact .pure _

theorem journalAppend (records : List Entry) :
    Preserves (Session.Keeps embedder start opened) (journalAppend records) := by
  unfold Search.journalAppend
  refine .bind .get fun session => ?_
  simp only
  split
  · exact .pure _
  · exact .throw _
  · exact .bind (createIfAbsent isOpen) fun _ => fileStep fun _ sane => sane.writeJournal _

theorem journalClear : Preserves (Session.Keeps embedder start opened) journalClear := by
  refine .get_bind fun session keeps => ?_
  simp only [(keeps.suits isOpen).journal]
  refine Preserves.bind .get (fun found => ?_) session keeps
  split
  · exact fileStep fun _ sane => sane.setLenJournal
  · exact .pure _

omit isOpen in
theorem requeue (records : List Entry) :
    Preserves (Session.Keeps embedder start opened) (requeue records) :=
  updateRest (fun _ => rfl) fun _ => rfl

theorem appendChunks (fuel : Nat) (rest : List Entry) :
    Preserves (Session.Keeps embedder start opened) (appendChunks fuel rest) := by
  induction fuel generalizing rest with
  | zero => exact .pure _
  | succ fuel inductionHypothesis =>
    cases rest with
    | nil => exact .pure _
    | cons entry tail =>
      exact .bind (.tryCatch (journalAppend isOpen _) fun _ => .bind (requeue _) fun _ => .throw _)
        fun _ => inductionHypothesis _

omit isOpen in
theorem takePending : Preserves (Session.Keeps embedder start opened) takePending :=
  .bind .get fun _ => .bind (updateRest (fun _ => rfl) fun _ => rfl) fun _ => .pure _

omit isOpen in
theorem reloadIfStale : Preserves (Session.Keeps embedder start opened) reloadIfStale := by
  unfold Search.reloadIfStale
  refine .bind .get fun session => ?_
  split
  · exact .pure _
  · split
    · exact .pure _
    · have load := loadable embedder start opened
      exact .bind (load.onIndex _) fun _ => .bind (load.loadGraph _ _) fun _ =>
        .bind (load.insertFresh _ _) fun _ => updateRest (fun _ => rfl) fun _ => rfl

omit isOpen in
theorem publishGraph (snapshot : Graph) :
    Preserves (Session.Keeps embedder start opened) (publishGraph snapshot) := by
  unfold Search.publishGraph
  split
  · exact otherFile (fun _ => rfl) fun _ => rfl
  · refine .bind .get fun session => ?_
    split
    · exact otherFile (fun _ => rfl) fun _ => rfl
    · exact .pure _

omit isOpen in
theorem publishKeymap : Preserves (Session.Keeps embedder start opened) publishKeymap :=
  .bind (updateRest (fun _ => rfl) fun _ => rfl) fun _ => .bind (createTemp _) fun _ =>
    .bind .get fun _ => otherFile (fun _ => rfl) fun _ => rfl

theorem publishCompaction (snapshot : Graph) :
    Preserves (Session.Keeps embedder start opened) (publishCompaction snapshot) :=
  .bind (publishGraph _) fun _ => .bind publishKeymap fun _ => .bind (journalClear isOpen)
    fun _ => updateRest (fun _ => rfl) fun _ => rfl

omit isOpen in
theorem saveSnapshot (snapshot : Graph) :
    Preserves (Session.Keeps embedder start opened) (saveSnapshot snapshot) := by
  unfold Search.saveSnapshot
  split
  · exact .bind ((loadable embedder start opened).onIndex _) fun _ => createTemp _
  · exact .pure _

theorem compactLocked : Preserves (Session.Keeps embedder start opened) compactLocked := by
  refine .bind reloadIfStale fun _ => .bind (loadable embedder start opened).absorbJournal fun _ =>
    .bind .get fun session => .bind takePending fun drained =>
    .tryCatch ?_ fun _ => .bind (requeue _) fun _ => .throw _
  exact .bind (saveSnapshot _) fun _ => publishCompaction isOpen _

theorem commitLocked (endOfBatch : Bool) :
    Preserves (Session.Keeps embedder start opened) (commitLocked endOfBatch) := by
  refine .bind (writeMetaUpgrade isOpen) fun _ => ?_
  split
  · exact compactLocked isOpen
  · refine .bind takePending fun drained => .bind (appendChunks isOpen _ _) fun _ =>
      .bind .get fun session => ?_
    split
    · exact compactLocked isOpen
    · exact .pure _

/-- Every action of an open handle takes crash-safe steps, however it ends. -/
theorem action (action : Action) :
    Preserves (Session.Keeps embedder start opened) action.run := by
  cases action with
  | add entries => exact (loadable embedder start opened).addEntries entries true
  | commit endOfBatch => exact commitLocked isOpen endOfBatch
  | compact => exact commitLocked isOpen true

end Opened

end Session.Keeps

end Singularmem.Search
