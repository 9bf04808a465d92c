import Singularmem.Search.Moves
import Singularmem.Search.VectorIndex

/-!
# What every operation keeps of the pairs

An operation of a handle moves the pair that it holds, puts the published pair in its place
or publishes it. So an invariant that every move keeps, known of both pairs, is known of
both after it, wherever a call of the graph library fails; and no insertion meets a key
that its graph already holds.
-/

namespace Singularmem.Search

open Library Singularmem.Core Effect

/-- The pair that is published: a missing graph holds nothing, a missing keymap names
nothing. -/
def Directory.pair (dir : Directory) : Pair := ⟨dir.usearch.getD ∅, dir.keymap.getD .default⟩

/-- The two directions of the keymap are inverse, every key they name is in the graph, and
every key of the graph is below the next one. -/
structure Pair.Keyed (pair : Pair) : Prop where
  inverse : ∀ id key, pair.keymap.reverse.lookup id = some key ↔
    pair.keymap.forward.lookup key = some id
  held : ∀ id key, pair.keymap.reverse.lookup id = some key → key ∈ pair.index
  below : ∀ key ∈ pair.index, key < pair.keymap.nextKey

/-- A property of ordered pairs that every move keeps. -/
structure Pair.Closed (good : Pair → Prop) : Prop where
  ordered : ∀ {pair}, good pair → pair.Ordered
  moved : ∀ {pair next : Pair}, pair.Move next → good pair → good next

/-- A property of ordered pairs that every move keeps, and that an empty pair has. -/
structure Pair.Invariant (good : Pair → Prop) : Prop extends Pair.Closed good where
  cleared : ∀ keymap : Keymap, good ⟨∅, keymap.clear⟩

theorem Pair.ordered_cleared (keymap : Keymap) : (⟨∅, keymap.clear⟩ : Pair).Ordered :=
  ⟨⟨by simp [Keymap.clear], by simp [Keymap.clear]⟩, fun _ held => absurd held Finmap.notMem_empty⟩

theorem Pair.keyed_iff {pair : Pair} : pair.Keyed ↔ pair.Sound ∧ pair.Ordered := by
  constructor
  · intro keyed
    have wellFormed : pair.keymap.WellFormed :=
      ⟨keyed.inverse, fun id key named => keyed.below key (keyed.held id key named)⟩
    exact ⟨⟨wellFormed, fun id key named => Finmap.lookup_isSome.mpr (keyed.held id key named)⟩,
      wellFormed, keyed.below⟩
  · rintro ⟨sound, ordered⟩
    exact ⟨ordered.wellFormed.inverse,
      fun id key named => Finmap.lookup_isSome.mp (sound.served id key named), ordered.below⟩

theorem Pair.Keyed.invariant : Pair.Invariant Pair.Keyed where
  ordered keyed := (Pair.keyed_iff.mp keyed).2
  moved move keyed := Pair.keyed_iff.mpr
    ⟨move.sound (Pair.keyed_iff.mp keyed).1, move.ordered (Pair.keyed_iff.mp keyed).2⟩
  cleared keymap := Pair.keyed_iff.mpr
    ⟨⟨(Pair.ordered_cleared keymap).wellFormed, by simp [Keymap.clear]⟩, Pair.ordered_cleared keymap⟩

theorem Pair.Ordered.invariant : Pair.Invariant Pair.Ordered where
  ordered := id
  moved move := move.ordered
  cleared := Pair.ordered_cleared

/-- What is known of the pair that the handle holds and of the published one. -/
structure Session.InOrder (held published : Pair → Prop) (session : Session) : Prop where
  handle : held session.handle.pair
  dir : published session.dir.pair

/-- What is known of both pairs still holds, and no orphan is reported. -/
def Orderly (held published : Pair → Prop) {α : Type} (action : Op α) : Prop :=
  Triple (Session.InOrder held published) action (fun _ => Session.InOrder held published)
    (fun error session => error ≠ .usearch orphanContext ∧ session.InOrder held published)

namespace Orderly

variable {held published good : Pair → Prop} {α β : Type}

theorem pure (value : α) : Orderly held published (Pure.pure value : Op α) :=
  Triple.pure fun _ kept => kept

theorem throw {error : Error} (other : error ≠ .usearch orphanContext) :
    Orderly held published (MonadExcept.throw error : Op α) :=
  Triple.throw fun _ inOrder => ⟨other, inOrder⟩

theorem bind {action : Op α} {next : α → Op β} (first : Orderly held published action)
    (second : ∀ value, Orderly held published (next value)) : Orderly held published (action >>= next) :=
  Triple.bind first second

theorem get_bind {next : Session → Op α} (rest : ∀ session, Orderly held published (next session)) :
    Orderly held published (MonadState.get >>= next) :=
  Triple.get_bind fun session inOrder => (rest session).weaken (fun _ same => same ▸ inOrder)
    (fun _ _ kept => kept) fun _ _ threw => threw

theorem tryCatch {action : Op α} {handler : Error → Op α} (first : Orderly held published action)
    (second : ∀ error, error ≠ .usearch orphanContext → Orderly held published (handler error)) :
    Orderly held published (MonadExcept.tryCatch action handler) := by
  refine Triple.tryCatch first fun error session threw => ?_
  exact second error threw.1 session threw.2

theorem fileStep {step : FileStep} (kept : ∀ dir, (step.apply dir).pair = dir.pair) :
    Orderly held published (fileStep step) :=
  Triple.modify fun session inOrder => ⟨inOrder.handle, (kept session.dir).symm ▸ inOrder.dir⟩

theorem updateHandle {update : VectorIndex → VectorIndex}
    (kept : ∀ handle, (update handle).pair = handle.pair) : Orderly held published (updateHandle update) :=
  Triple.modify fun session inOrder => ⟨(kept session.handle).symm ▸ inOrder.handle, inOrder.dir⟩

/-- A call of the graph library changes nothing but the schedule. -/
theorem call_keeps {holds : Session → Prop} {context : String}
    (ignores : ∀ session faults, holds session → holds { session with faults })
    (other : context ≠ orphanContext) :
    Triple holds (onIndex (usearchCall context)) (fun _ => holds)
      (fun error session => error ≠ .usearch orphanContext ∧ holds session) := by
  refine Triple.zoom fun session held => ?_
  have still : ∀ state : IndexState, state.pair = session.handle.pair →
      holds { session with faults := state.faults, handle := session.handle.withPair state.pair } := by
    intro state same
    rw [same]
    exact ignores session state.faults held
  refine (@usearchCall_triple session.handle.pair context).weaken (fun _ same => same ▸ rfl)
    (fun _ state same => still state same) fun error state threw => ?_
  obtain ⟨rfl, same⟩ := threw
  exact ⟨fun orphan => other (Error.usearch.inj orphan), still state same⟩

theorem usearchCall {context : String} (other : context ≠ orphanContext) :
    Orderly held published (onIndex (usearchCall context)) :=
  call_keeps (fun _ _ held => ⟨held.handle, held.dir⟩) other

theorem insertEntries (closed : Pair.Closed held) (entries : List Entry) :
    Orderly held published (onIndex (insertEntries entries)) := by
  refine Triple.zoom fun session inOrder => ?_
  refine (@insertEntries_triple session.handle.pair entries (closed.ordered inOrder.handle)).weaken
    (fun _ same => same ▸ rfl) (fun _ state moves => ?_) fun error state threw => ?_
  · exact ⟨moves.keeps closed.moved inOrder.handle, inOrder.dir⟩
  · exact ⟨threw.1, threw.2.keeps closed.moved inOrder.handle, inOrder.dir⟩

theorem addEntries (closed : Pair.Closed held) (entries : List Entry) (queue : Bool) :
    Orderly held published (addEntries entries queue) := by
  refine .get_bind fun session => ?_
  simp only
  split
  · exact .throw (by simp)
  · refine .bind (.insertEntries closed entries) fun _ => ?_
    split
    · exact .updateHandle fun _ => rfl
    · exact .pure _

theorem absorbJournal (closed : Pair.Closed held) : Orderly held published absorbJournal := by
  refine .get_bind fun session => ?_
  split
  · exact .pure _
  · exact .addEntries closed _ _

theorem sweepTempFiles (temps : List TempFile) : Orderly held published (sweepTempFiles temps) := by
  induction temps with
  | nil => exact .pure _
  | cons temp rest inductionHypothesis =>
    exact .bind (.fileStep fun _ => rfl) fun _ => inductionHypothesis

theorem writeMetaAtomic (written : VectorIndexMeta) : Orderly held published (writeMetaAtomic written) :=
  .bind (.fileStep fun _ => rfl) fun _ => .fileStep fun _ => rfl

theorem loadMeta (embedder : Embedder) : Orderly held published (loadMeta embedder) := by
  refine .get_bind fun session => ?_
  split
  · exact .bind (.writeMetaAtomic _) fun _ => .pure _
  · split
    · exact .throw (by simp)
    split
    · exact .throw (by simp)
    split
    · exact .throw (by simp)
    · exact .pure _

section Unchanged

variable {dir : Directory} {handle : VectorIndex}

/-- The files and the handle are these. -/
def Is (dir : Directory) (handle : VectorIndex) (session : Session) : Prop :=
  session.dir = dir ∧ session.handle = handle

theorem call_unchanged {context : String} (other : context ≠ orphanContext) :
    Triple (Is dir handle) (onIndex (Search.usearchCall context)) (fun _ => Is dir handle)
      (fun error session => error ≠ .usearch orphanContext ∧ Is dir handle session) :=
  call_keeps (fun _ _ held => held) other

/-- Loading a graph changes neither. -/
theorem loadGraph {context : String} (other : context ≠ orphanContext) {file : Option Graph} :
    Triple (Is dir handle) (loadGraph context file)
      (fun graph session => graph = file.getD ∅ ∧ Is dir handle session)
      (fun error session => error ≠ .usearch orphanContext ∧ Is dir handle session) := by
  cases file with
  | none =>
    exact Triple.bind (call_unchanged (by decide)) fun _ => .pure fun _ held => ⟨rfl, held⟩
  | some graph =>
    exact Triple.bind (call_unchanged other) fun _ => .pure fun _ held => ⟨rfl, held⟩

/-- Inserting into a pair that no handle holds changes neither. -/
theorem insertFresh (invariant : Pair.Invariant good) {fresh : Pair} (held : good fresh)
    (entries : List Entry) :
    Triple (Is dir handle) (insertFresh fresh entries)
      (fun pair session => good pair ∧ Is dir handle session)
      (fun error session => error ≠ .usearch orphanContext ∧ Is dir handle session) := by
  refine Triple.zoom fun session is => ?_
  have inserted : Triple (·.pair = fresh)
      (do Search.insertEntries entries; return (← MonadState.get).pair)
      (fun pair _ => good pair) (fun error _ => error ≠ .usearch orphanContext) :=
    .bind ((@insertEntries_triple fresh entries (invariant.ordered held)).weaken
      (fun _ same => same) (fun _ _ moves => moves) fun _ _ threw => threw.1) fun _ =>
        .get_bind fun state moves => .pure fun _ _ => moves.keeps invariant.moved held
  exact inserted.weaken (fun _ same => same ▸ rfl) (fun _ _ result => ⟨result, is⟩)
    fun _ _ other => ⟨other, is⟩

end Unchanged

/-- What a load starts from is good. -/
theorem loaded (invariant : Pair.Invariant good) {dir : Directory} (held : good dir.pair) :
    good ⟨dir.usearch.getD ∅, dir.loadedKeymap⟩ := by
  rw [Directory.loadedKeymap]
  split
  case isTrue stale =>
    rw [Option.isNone_iff_eq_none.mp stale.1]
    exact invariant.cleared _
  case isFalse => exact held

/-- Reading a graph and a keymap in place of those the handle holds. -/
theorem reloadIfStale (invariant : Pair.Invariant good) : Orderly good good reloadIfStale := by
  refine Triple.get_bind fun session inOrder => ?_
  split
  case h_1 => exact Triple.pure fun _ same => same ▸ inOrder
  case h_2 diskKeymap present =>
    split
    case isTrue => exact Triple.pure fun _ same => same ▸ inOrder
    case isFalse =>
      have read : good ⟨session.dir.usearch.getD ∅, diskKeymap⟩ := by
        have published := inOrder.dir
        rwa [Directory.pair, present] at published
      have still : ∀ after, Is session.dir session.handle after → after.InOrder good good := by
        rintro after ⟨dir, handle⟩
        exact ⟨handle ▸ inOrder.handle, dir ▸ inOrder.dir⟩
      have reloaded : Triple (Is session.dir session.handle) (do
          onIndex (Search.usearchCall "constructing usearch::Index for a stale-handle reload")
          let fresh ← Search.loadGraph "reloading usearch index after another handle compacted"
            session.dir.usearch
          let reloaded ← Search.insertFresh ⟨fresh, diskKeymap⟩ session.handle.pending
          Search.updateHandle fun handle =>
            { handle.withPair reloaded with loadedGeneration := diskKeymap.generation })
          (fun _ => Session.InOrder good good)
          (fun error after => error ≠ .usearch orphanContext ∧ Is session.dir session.handle after) :=
        .bind (call_unchanged (by decide)) fun _ => .bind (loadGraph (by decide)) fun graph =>
          .fact fun same => .bind (insertFresh invariant (same ▸ read) _) fun pair =>
            .modify fun after held => ⟨held.1, held.2.1 ▸ inOrder.dir⟩
      exact reloaded.weaken (fun _ same => ⟨congrArg _ same, congrArg _ same⟩) (fun _ _ kept => kept)
        fun _ _ threw => ⟨threw.1, still _ threw.2⟩

/-- Opening a journal calls no graph. -/
theorem decode_error {bytes : List UInt8} {context : String} :
    JournalHeader.decode bytes ≠ .error (.usearch context) := by
  rw [JournalHeader.decode]
  split
  · simp
  split
  · simp
  simp only
  split
  · simp
  split
  · simp
  · simp

theorem journal_error {file : Option (List UInt8)} {dim : Nat} {modelId context : String} :
    Journal.open file dim modelId ≠ .error (.usearch context) := by
  unfold Journal.open
  split
  · simp
  split
  · split
    · simp
    simp only
    split
    · simp
    split
    case h_1 failure refused =>
      intro same
      exact decode_error (refused.trans (congrArg Except.error (Except.error.inj same)))
    case h_2 =>
      split
      · simp
      split
      · simp
      · simp
  · split
    · simp
    · simp

/-- A load puts good pairs in place. -/
theorem load (invariant : Pair.Invariant good) (embedder : Embedder) :
    Orderly good good (load embedder) := by
  refine .bind (.loadMeta embedder) fun (written, diskFormat) => .bind (.usearchCall (by decide))
    fun _ => Triple.get_bind fun session inOrder => ?_
  have still : ∀ after, Is session.dir session.handle after → after.InOrder good good := by
    rintro after ⟨dir, handle⟩
    exact ⟨handle ▸ inOrder.handle, dir ▸ inOrder.dir⟩
  refine .bind ((loadGraph (by decide)).weaken (fun _ same => ⟨congrArg _ same, congrArg _ same⟩)
    (fun _ _ held => held) fun _ _ threw => ⟨threw.1, still _ threw.2⟩) fun graph => .fact ?_
  rintro rfl
  refine .get_bind fun second held => .get_bind fun third same => ?_
  subst same
  refine .bind (.ofExcept (fun journal _ _ same => same) fun error refused state same => ?_)
    fun journal => .bind (.modify fun state same => ?_) fun _ => absorbJournal invariant.toClosed
  · subst same
    exact ⟨fun orphan => journal_error (refused.trans (congrArg _ orphan)), still _ held⟩
  · subst same
    have read : good ⟨session.dir.usearch.getD ∅, state.dir.loadedKeymap⟩ := by
      rw [held.1]
      exact loaded invariant inOrder.dir
    exact ⟨read, held.1.symm ▸ inOrder.dir⟩

theorem «open» (invariant : Pair.Invariant good) (embedder : Embedder) :
    Orderly good good (VectorIndex.open embedder) := by
  have whole : Orderly good good (sweepAndLoad embedder) :=
    .get_bind fun session => .bind (.sweepTempFiles _) fun _ => .load invariant embedder
  refine .tryCatch whole fun error other => ?_
  split
  · exact whole
  · exact .throw other

theorem remove (closed : Pair.Closed held) (id : ItemId) :
    Orderly held published (VectorIndex.remove id) := by
  refine .bind ?_ fun present => .updateHandle fun _ => rfl
  refine Triple.get_bind fun session inOrder => ?_
  cases named : session.handle.keymap.reverse.lookup id with
  | none => exact .pure fun _ same => same ▸ inOrder
  | some key =>
    have wellFormed := (closed.ordered inOrder.handle).wellFormed
    have forgotten : held ⟨session.handle.inner, session.handle.keymap.forget id key⟩ :=
      closed.moved (.forget named) inOrder.handle
    have erased : held ⟨session.handle.inner.erase key, session.handle.keymap.forget id key⟩ :=
      closed.moved (@Pair.Move.erase ⟨_, session.handle.keymap.forget id key⟩ key
        (wellFormed.issued id key named) (Pair.forget_unnamed wellFormed named)) forgotten
    let holding := { session.handle with keymap := session.handle.keymap.forget id key }
    refine .bind (.modify fun _ same => ?_ : Triple _ _ (fun _ => Is session.dir holding) _) fun _ =>
      .bind ((call_unchanged (by decide)).weaken (fun _ held => held) (fun _ _ held => held) ?_)
        fun _ => .bind (.modify fun after held => ?_) fun _ => .pure fun _ kept => kept
    · subst same
      exact ⟨rfl, rfl⟩
    · rintro error after ⟨other, dir, handle⟩
      exact ⟨other, handle.symm ▸ forgotten, dir.symm ▸ inOrder.dir⟩
    · obtain ⟨dir, handle⟩ := held
      refine ⟨?_, dir.symm ▸ inOrder.dir⟩
      rw [handle]
      exact erased

theorem journalClear : Orderly held published journalClear := by
  refine .get_bind fun session => .get_bind fun second => ?_
  split
  · exact .fileStep fun _ => rfl
  · exact .pure _

/-- Publishing a graph, which is absent when it holds nothing. -/
theorem publishGraph {snapshot : Graph} {handle : VectorIndex} :
    Triple (·.handle = handle) (publishGraph snapshot)
      (fun _ session => session.handle = handle ∧ session.dir.usearch.getD ∅ = snapshot)
      (fun _ _ => False) := by
  rw [Search.publishGraph]
  split
  case isTrue => exact .modify fun session held => ⟨held, rfl⟩
  case isFalse empty =>
    have nothing : snapshot = ∅ := not_not.mp empty
    refine .get_bind fun session held => ?_
    split
    case isTrue => exact .modify fun _ same => same ▸ ⟨held, nothing.symm⟩
    case isFalse absent =>
      refine .pure fun _ same => same ▸ ⟨held, ?_⟩
      rw [Option.not_isSome_iff_eq_none.mp absent, nothing]
      rfl

theorem saveSnapshot (snapshot : Graph) : Orderly held published (saveSnapshot snapshot) := by
  rw [Search.saveSnapshot]
  split
  · exact .bind (.usearchCall (by decide)) fun _ => .fileStep fun _ => rfl
  · exact .pure _

/-- Publishing what the handle holds. -/
theorem publishCompaction (invariant : Pair.Invariant good) (snapshot : Graph) :
    Triple (fun session => session.InOrder good good ∧ session.handle.inner = snapshot)
      (Search.publishCompaction snapshot) (fun _ => Session.InOrder good good)
      (fun error session => error ≠ .usearch orphanContext ∧ session.InOrder good good) := by
  have graph : Triple (fun session => session.InOrder good good ∧ session.handle.inner = snapshot)
      (Search.publishGraph snapshot) (fun _ session => good session.handle.pair ∧
        session.dir.usearch.getD ∅ = session.handle.inner)
      (fun error session => error ≠ .usearch orphanContext ∧ session.InOrder good good) := by
    rintro session ⟨inOrder, rfl⟩
    refine publishGraph.weaken (fun _ same => congrArg Session.handle same) ?_
      (fun _ _ never => never.elim) session rfl
    rintro _ final ⟨same, read⟩
    rw [same]
    exact ⟨inOrder.handle, read⟩
  have keymap : Triple (fun session => good session.handle.pair ∧
      session.dir.usearch.getD ∅ = session.handle.inner) publishKeymap
      (fun _ => Session.InOrder good good)
      (fun error session => error ≠ .usearch orphanContext ∧ session.InOrder good good) := by
    have created : Triple (fun session : Session => good session.handle.pair ∧
        session.dir.usearch.getD ∅ = session.handle.inner)
        (Search.fileStep (.createTemp .keymap)) (fun _ session => good session.handle.pair ∧
          session.dir.usearch.getD ∅ = session.handle.inner)
        (fun error session => error ≠ .usearch orphanContext ∧ session.InOrder good good) :=
      .modify fun _ held => held
    refine .bind (.modify fun session held => ?_) fun _ => .bind created fun _ =>
      .get_bind fun session held => .modify ?_
    · exact ⟨invariant.moved (.stamp _) held.1, held.2⟩
    · rintro after rfl
      refine ⟨held.1, ?_⟩
      have published : good ⟨after.dir.usearch.getD ∅, after.handle.keymap⟩ := by
        rw [held.2]
        exact held.1
      exact published
  have finished : Orderly good good (do
      Search.journalClear
      Search.updateHandle fun handle =>
        { handle with tombstones := [], loadedGeneration := handle.loadedGeneration + 1 }) :=
    .bind .journalClear fun _ => .updateHandle fun _ => rfl
  exact .bind graph fun _ => .bind keymap fun _ => finished

/-- What a compaction publishes is what the handle holds. -/
theorem publishSnapshot (invariant : Pair.Invariant good) (snapshot : Graph) :
    Triple (fun session => session.InOrder good good ∧ session.handle.inner = snapshot)
      (do Search.saveSnapshot snapshot; Search.publishCompaction snapshot)
      (fun _ => Session.InOrder good good)
      (fun error session => error ≠ .usearch orphanContext ∧ session.InOrder good good) := by
  have saved : Orderly (fun pair => good pair ∧ pair.index = snapshot) good
      (Search.saveSnapshot snapshot) := saveSnapshot snapshot
  refine .bind (saved.weaken ?_ ?_ ?_) fun _ => publishCompaction invariant snapshot
  · exact fun _ held => ⟨⟨held.1.handle, held.2⟩, held.1.dir⟩
  · exact fun _ _ kept => ⟨⟨kept.handle.1, kept.dir⟩, kept.handle.2⟩
  · exact fun _ _ threw => ⟨threw.1, threw.2.handle.1, threw.2.dir⟩

theorem requeue (records : List Entry) : Orderly held published (requeue records) :=
  .updateHandle fun _ => rfl

theorem takePending : Orderly held published takePending :=
  .get_bind fun _ => .bind (.updateHandle fun _ => rfl) fun _ => .pure _

theorem compactLocked (invariant : Pair.Invariant good) : Orderly good good compactLocked := by
  refine .bind (.reloadIfStale invariant) fun _ => .bind (.absorbJournal invariant.toClosed) fun _ =>
    Triple.get_bind fun session inOrder => ?_
  refine .bind (.get_bind fun second held => .bind (.modify fun _ same => ?_) fun _ =>
    .pure fun _ held => held : Triple _ _ (fun _ after => after.InOrder good good ∧
      after.handle.inner = session.handle.inner) _) fun drained =>
    .tryCatch (publishSnapshot invariant session.handle.inner) fun error => ?_
  · subst same held
    exact ⟨⟨inOrder.handle, inOrder.dir⟩, rfl⟩
  · refine .fact fun other => ?_
    have again : Orderly good good (do Search.requeue drained; MonadExcept.throw error : Op PUnit) :=
      .bind (.requeue drained) fun _ => .throw other
    exact again

theorem writeMetaUpgrade : Orderly held published writeMetaUpgrade := by
  refine .get_bind fun session => ?_
  simp only
  split
  · exact .bind (.updateHandle fun _ => rfl) fun _ => .writeMetaAtomic _
  · exact .pure _

theorem journalAppend (records : List Entry) : Orderly held published (journalAppend records) := by
  refine .get_bind fun session => ?_
  simp only
  split
  · exact .pure _
  · exact .throw (by simp)
  · refine .bind (.get_bind fun session => ?_) fun _ => .fileStep fun _ => rfl
    split
    · exact .get_bind fun session => .bind (.fileStep fun _ => rfl) fun _ => .fileStep fun _ => rfl
    · exact .pure _

theorem appendChunks (fuel : Nat) (rest : List Entry) : Orderly held published (appendChunks fuel rest) := by
  induction fuel generalizing rest with
  | zero => exact .pure _
  | succ fuel inductionHypothesis =>
    cases rest with
    | nil => exact .pure _
    | cons first others =>
      exact .bind (.tryCatch (.journalAppend _) fun error other =>
        .bind (.requeue _) fun _ => .throw other) fun _ => inductionHypothesis _

theorem commitLocked (invariant : Pair.Invariant good) (endOfBatch : Bool) :
    Orderly good good (commitLocked endOfBatch) := by
  refine .bind .writeMetaUpgrade fun _ => ?_
  split
  · exact .compactLocked invariant
  · refine .bind .takePending fun drained => .bind (.appendChunks _ _) fun _ =>
      .get_bind fun session => ?_
    split
    · exact .compactLocked invariant
    · exact .pure _

end Orderly

end Singularmem.Search
