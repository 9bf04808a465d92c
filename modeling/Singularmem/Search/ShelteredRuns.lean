import Singularmem.Search.Coverage
import Singularmem.Search.FaultyRuns
import Singularmem.Search.JournalFormat
import Singularmem.Search.TornPairs

/-!
# Runs that keep everything covered

While no batch of a handle strands an item, everything that the handle contains stays
covered, whatever call of the graph library fails: a commit that fails puts back what it took
from the queue, and one that returns has stored everything. So a reopened directory contains
what the handle contained.
-/

namespace Singularmem.Search

open Library Singularmem.Core Effect

/-- What holds inside and between the calls of a handle, apart from entries that were taken
from its queue: it is the embedder's, the journal holds whole records, and everything that
it contains is covered. -/
structure Session.Sheltering (embedder : Embedder) (taken : List Entry) (session : Session) :
    Prop where
  agrees : session.handle.Agrees embedder
  waiting : ∀ entry ∈ taken, entry.2.length = embedder.dim
  journal : ∃ records, Holds embedder.header session.dir.journal records
  covers : ∀ id, session.handle.contains id → session.Covered id ∨ id ∈ taken.map Prod.fst

namespace Session.Sheltering

variable {embedder : Embedder} {taken : List Entry} {session after : Session}

/-- Nothing is named that was not covered, and the rest is as before. -/
theorem carry (sheltering : session.Sheltering embedder taken)
    (metadata : after.handle.meta = session.handle.meta)
    (header : after.handle.journal = session.handle.journal)
    (pending : after.handle.pending = session.handle.pending)
    (names : ∀ id, after.handle.contains id → session.Covered id ∨ session.handle.contains id)
    (keymap : after.dir.keymap = session.dir.keymap)
    (journal : after.dir.journal = session.dir.journal) : after.Sheltering embedder taken := by
  have covered : ∀ id, session.Covered id → after.Covered id := by
    intro id
    rw [Session.Covered, Session.Covered, Session.Stored, Session.Stored, pending, header, keymap,
      journal]
    exact fun held => held
  constructor
  · exact ⟨metadata.trans sheltering.agrees.metadata, header.trans sheltering.agrees.journal,
      pending ▸ sheltering.agrees.pending⟩
  · exact sheltering.waiting
  · exact journal ▸ sheltering.journal
  · intro id named
    rcases names id named with held | old
    · exact .inl (covered id held)
    · exact (sheltering.covers id old).imp_left (covered id)

/-- The session with the same files and handle. -/
theorem unchanged (sheltering : session.Sheltering embedder taken)
    (same : Orderly.Is session.dir session.handle after) : after.Sheltering embedder taken := by
  obtain ⟨dir, handle⟩ := same
  apply sheltering.carry
  · rw [handle]
  · rw [handle]
  · rw [handle]
  · rw [handle]
    exact fun _ => .inr
  · rw [dir]
  · rw [dir]

end Session.Sheltering

/-- The computation keeps this, however it ends. -/
def Shelters (embedder : Embedder) (taken : List Entry) {α : Type} (action : Op α) : Prop :=
  Triple (Session.Sheltering embedder taken) action (fun _ => Session.Sheltering embedder taken)
    (fun _ => Session.Sheltering embedder taken)

/-- Everything that the handle contains is in the keymap on disk. -/
def Session.OnDisk (session : Session) : Prop :=
  ∀ id, session.handle.contains id → ((session.dir.keymap.getD .default).reverse.lookup id).isSome

/-- What a commit leaves: everything that the handle contains is stored. -/
def Session.Durable (session : Session) : Prop :=
  ∀ id, session.handle.contains id → session.Stored id

namespace Shelters

variable {embedder : Embedder} {taken : List Entry} {α β : Type}

theorem bind {action : Op α} {next : α → Op β} (first : Shelters embedder taken action)
    (second : ∀ value, Shelters embedder taken (next value)) :
    Shelters embedder taken (action >>= next) :=
  Triple.bind first second

theorem fileStep {step : FileStep} (keymap : ∀ dir, (step.apply dir).keymap = dir.keymap)
    (journal : ∀ dir, (step.apply dir).journal = dir.journal) :
    Shelters embedder taken (fileStep step) :=
  .modify fun session sheltering => sheltering.carry rfl rfl rfl (fun _ => .inr)
    (keymap session.dir) (journal session.dir)

theorem updateHandle {update : VectorIndex → VectorIndex}
    (same : ∀ handle, (update handle).meta = handle.meta ∧
      (update handle).journal = handle.journal ∧ (update handle).pending = handle.pending ∧
      (update handle).keymap.reverse = handle.keymap.reverse) :
    Shelters embedder taken (updateHandle update) := by
  refine .modify fun session sheltering => ?_
  obtain ⟨metadata, header, pending, reverse⟩ := same session.handle
  apply sheltering.carry metadata header pending
  · intro id named
    rw [VectorIndex.contains_iff, reverse] at named
    exact .inr named
  · rfl
  · rfl

theorem usearchCall {context : String} (other : context ≠ orphanContext) :
    Shelters embedder taken (onIndex (usearchCall context)) :=
  (Orderly.call_keeps (fun _ _ sheltering => sheltering.carry rfl rfl rfl (fun _ => .inr) rfl rfl)
    other).weaken (fun _ held => held) (fun _ _ kept => kept) fun _ _ threw => threw.2

/-- Adding what is covered. -/
theorem addCovered {entries : List Entry} :
    Triple (fun session => session.Sheltering embedder taken ∧
        ∀ entry ∈ entries, session.Covered entry.1)
      (addEntries entries false) (fun _ => Session.Sheltering embedder taken)
      (fun _ => Session.Sheltering embedder taken) := by
  refine .get_bind fun session held => ?_
  simp only
  split
  · exact .throw fun _ same => same ▸ held.1
  · refine .bind (.zoom fun state same => ?_) fun _ => .pure fun _ kept => kept
    subst same
    have inserted : ∀ outcome final,
        (insertEntries entries).exec ⟨state.faults, state.handle.inner, state.handle.keymap⟩ =
          (outcome, final) →
        ({ state with faults := final.faults, handle := state.handle.withPair final.pair } :
          Session).Sheltering embedder taken := by
      intro outcome final ran
      refine held.1.carry rfl rfl rfl (fun id named => ?_) rfl rfl
      rcases @insertEntries_names entries state.faults state.handle.pair _ _ ran id named
        with added | old
      · obtain ⟨entry, member, rfl⟩ := List.mem_map.mp added
        exact .inl (held.2 entry member)
      · exact .inr old
    rintro _ rfl
    exact ⟨fun value final ran => inserted _ final ran, fun error final ran => inserted _ final ran⟩

/-- Replaying the journal names what the journal covers. -/
theorem absorbJournal : Shelters embedder taken absorbJournal := by
  refine .get_bind fun session sheltering => ?_
  split
  · exact .pure fun _ same => same ▸ sheltering
  · refine addCovered.weaken ?_ (fun _ _ kept => kept) fun _ _ threw => threw
    rintro _ rfl
    refine ⟨sheltering, fun entry member => .inr (.inl (List.mem_map_of_mem ?_))⟩
    exact (List.mem_filter.mp member).1

/-- Inserting into a pair that no handle holds yet. -/
theorem insertFresh {dir : Directory} {handle : VectorIndex} {fresh : Pair}
    {entries : List Entry} :
    Triple (Orderly.Is dir handle) (insertFresh fresh entries)
      (fun pair session => (∀ id, (pair.keymap.reverse.lookup id).isSome →
        id ∈ entries.map Prod.fst ∨ (fresh.keymap.reverse.lookup id).isSome) ∧
          Orderly.Is dir handle session)
      (fun _ => Orderly.Is dir handle) := by
  refine .zoom fun session is => ?_
  rintro _ rfl
  constructor
  · intro pair final ran
    obtain ⟨_, middle, inserted, rest⟩ := exec_bind_returned ran
    cases rest
    exact ⟨fun id named => insertEntries_names inserted named, is⟩
  · exact fun _ _ _ => is

/-- A reload names what the keymap on disk and the queue cover. -/
theorem reloadIfStale : Shelters embedder taken reloadIfStale := by
  refine .get_bind fun session sheltering => ?_
  split
  case h_1 => exact .pure fun _ same => same ▸ sheltering
  case h_2 diskKeymap present =>
    split
    case isTrue => exact .pure fun _ same => same ▸ sheltering
    case isFalse =>
      have reloaded : Triple (Orderly.Is session.dir session.handle) (do
          onIndex (Search.usearchCall "constructing usearch::Index for a stale-handle reload")
          let fresh ← Search.loadGraph "reloading usearch index after another handle compacted"
            session.dir.usearch
          let reloaded ← Search.insertFresh ⟨fresh, diskKeymap⟩ session.handle.pending
          Search.updateHandle fun handle =>
            { handle.withPair reloaded with loadedGeneration := diskKeymap.generation })
          (fun _ => Session.Sheltering embedder taken)
          (fun _ => Orderly.Is session.dir session.handle) := by
        refine .bind ((Orderly.call_unchanged (by decide)).weaken (fun _ held => held)
          (fun _ _ held => held) fun _ _ threw => threw.2) fun _ => .bind
          ((Orderly.loadGraph (by decide)).weaken (fun _ held => held) (fun _ _ held => held.2)
            fun _ _ threw => threw.2) fun graph => .bind insertFresh fun pair =>
          .modify fun after held => ?_
        obtain ⟨names, dir, handle⟩ := held
        have metadata := congrArg VectorIndex.meta handle
        have header := congrArg VectorIndex.journal handle
        have pending := congrArg VectorIndex.pending handle
        refine sheltering.carry metadata header pending (fun id named => .inl ?_)
          (congrArg Directory.keymap dir) (congrArg Directory.journal dir)
        rcases names id named with queued | stored
        · exact .inl queued
        · refine .inr (.inr ?_)
          rw [present]
          exact stored
      refine reloaded.weaken ?_ (fun _ _ kept => kept) fun _ _ same => sheltering.unchanged same
      rintro _ rfl
      exact ⟨rfl, rfl⟩

theorem writeMetaUpgrade : Shelters embedder taken writeMetaUpgrade := by
  refine .get_bind fun session sheltering => ?_
  simp only
  split
  · have written : Shelters embedder taken (do
        Search.updateHandle fun handle => { handle with metaUpgradePending := false }
        writeMetaAtomic session.handle.meta) :=
      bind (.updateHandle fun _ => ⟨rfl, rfl, rfl, rfl⟩) fun _ =>
        bind (.fileStep (fun _ => rfl) fun _ => rfl) fun _ => .fileStep (fun _ => rfl) fun _ => rfl
    exact written.weaken (fun _ same => same ▸ sheltering) (fun _ _ kept => kept)
      fun _ _ threw => threw
  · exact .pure fun _ same => same ▸ sheltering

theorem saveSnapshot (snapshot : Graph) : Shelters embedder taken (saveSnapshot snapshot) := by
  rw [Search.saveSnapshot]
  split
  · exact bind (.usearchCall (by decide)) fun _ => .fileStep (fun _ => rfl) fun _ => rfl
  · exact Triple.pure fun _ sheltering => sheltering

theorem publishGraph (snapshot : Graph) : Shelters embedder taken (publishGraph snapshot) := by
  rw [Search.publishGraph]
  split
  · exact .fileStep (fun _ => rfl) fun _ => rfl
  · refine .get_bind fun session sheltering => ?_
    split
    · exact (Shelters.fileStep (fun _ => rfl) fun _ => rfl).weaken
        (fun _ same => same ▸ sheltering) (fun _ _ kept => kept) fun _ _ threw => threw
    · exact .pure fun _ same => same ▸ sheltering

theorem requeue (records : List Entry) :
    Triple (Session.Sheltering embedder records) (requeue records)
      (fun _ => Session.Sheltering embedder []) (fun _ => Session.Sheltering embedder []) := by
  refine .modify fun session sheltering => ?_
  constructor
  · refine ⟨sheltering.agrees.metadata, sheltering.agrees.journal, fun entry member => ?_⟩
    rcases List.mem_append.mp member with drained | queued
    · exact sheltering.waiting entry drained
    · exact sheltering.agrees.pending entry queued
  · exact fun _ member => absurd member List.not_mem_nil
  · exact sheltering.journal
  · intro id named
    refine .inl ?_
    rcases sheltering.covers id named with (queued | stored) | drained
    · exact .inl (List.map_append ▸ List.mem_append_right _ queued)
    · exact .inr stored
    · exact .inl (List.map_append ▸ List.mem_append_left _ drained)

theorem takePending :
    Triple (Session.Sheltering embedder []) takePending
      (fun drained session => session.Sheltering embedder drained ∧ session.handle.pending = [])
      (fun _ _ => False) := by
  refine .get_bind fun session sheltering => .bind (.modify fun after same => ?_) fun _ =>
    .pure fun _ held => held
  subst same
  refine ⟨⟨⟨sheltering.agrees.metadata, sheltering.agrees.journal, ?_⟩,
    sheltering.agrees.pending, sheltering.journal, fun id named => ?_⟩, rfl⟩
  · exact fun _ member => absurd member List.not_mem_nil
  · rcases sheltering.covers id named with (queued | stored) | nothing
    · exact .inr queued
    · exact .inl (.inr stored)
    · cases nothing

/-- Appending to the journal leaves the keymap on disk. -/
theorem journalAppend_keymap (keymap : Option Keymap) (records : List Entry) :
    Preserves (fun session => session.dir.keymap = keymap) (journalAppend records) := by
  have written : ∀ step : FileStep, (∀ dir, (step.apply dir).keymap = dir.keymap) →
      Preserves (fun session => session.dir.keymap = keymap) (Search.fileStep step) :=
    fun step same => .modify fun session held => (same session.dir).trans held
  refine .bind .get fun session => ?_
  simp only
  split
  · exact .pure _
  · exact .throw _
  · refine .bind (.bind .get fun session => ?_) fun _ => written _ fun _ => rfl
    split
    · exact .bind .get fun session => .bind (written _ fun _ => rfl) fun _ => written _ fun _ => rfl
    · exact .pure _

/-- All drained records reach the journal. -/
theorem appendChunks {fuel : Nat} {rest records : List Entry} {session : Session}
    (enough : rest.length ≤ fuel)
    (held : Holds session.handle.journal session.dir.journal records)
    (dimensions : ∀ entry ∈ rest, entry.2.length = session.handle.journal.dim) :
    ∃ after, (appendChunks fuel rest).exec session = (.ok ⟨⟩, after) ∧
      after.handle = session.handle ∧ after.dir.keymap = session.dir.keymap ∧
      Holds session.handle.journal after.dir.journal (records ++ rest) := by
  induction fuel generalizing rest records session with
  | zero =>
    obtain rfl := List.eq_nil_of_length_eq_zero (Nat.le_zero.mp enough)
    exact ⟨session, rfl, rfl, rfl, (List.append_nil records).symm ▸ held⟩
  | succ fuel inductionHypothesis =>
    cases rest with
    | nil => exact ⟨session, rfl, rfl, rfl, (List.append_nil records).symm ▸ held⟩
    | cons entry tail =>
      obtain ⟨middle, returned⟩ := journalAppend_returns_iff.mpr
        fun record member => dimensions record (List.mem_of_mem_take member)
      obtain ⟨same, grown⟩ := journalAppend_holds held returned
      have keymap := (journalAppend_keymap session.dir.keymap _).after returned rfl
      have shorter : ((entry :: tail).drop journalAppendChunk).length ≤ fuel := by
        rw [List.length_drop, journalAppendChunk]
        simp only [List.length_cons] at enough ⊢
        omega
      obtain ⟨after, ran, still, unchanged, all⟩ := inductionHypothesis shorter (same ▸ grown)
        fun record member => same ▸ dimensions record (List.mem_of_mem_drop member)
      have attempted : ∀ handler : Error → Op PUnit, Effect.exec
          (tryCatch (journalAppend ((entry :: tail).take journalAppendChunk)) handler) session =
          (.ok ⟨⟩, middle) := fun handler => by
        rw [exec_tryCatch, returned]
      refine ⟨after, ?_, still.trans same, unchanged.trans keymap, ?_⟩
      · rw [Search.appendChunks, exec_bind_ok (attempted _), ran]
        rintro ⟨⟩
      · rw [List.append_assoc, List.take_append_drop, same] at all
        exact all

/-- Publishing the keymap names everything on disk. -/
theorem publishKeymap :
    Triple (Session.Sheltering embedder taken) publishKeymap
      (fun _ session => session.Sheltering embedder [] ∧ session.OnDisk) (fun _ _ => False) := by
  intro session sheltering
  constructor
  · rintro _ _ ⟨⟩
    refine ⟨⟨?_, fun _ member => absurd member List.not_mem_nil, sheltering.journal, ?_⟩, ?_⟩
    · exact ⟨sheltering.agrees.metadata, sheltering.agrees.journal, sheltering.agrees.pending⟩
    · exact fun id named => .inl (.inr (.inr named))
    · exact fun id named => named
  · rintro _ _ ⟨⟩

/-- Truncating the journal leaves what is on disk. -/
theorem journalClear :
    Triple (fun session => session.Sheltering embedder [] ∧ session.OnDisk) journalClear
      (fun _ session => session.Sheltering embedder [] ∧ session.OnDisk) (fun _ _ => False) := by
  rintro session ⟨sheltering, onDisk⟩
  obtain ⟨records, held⟩ := sheltering.journal
  rw [← sheltering.agrees.journal] at held
  constructor
  · intro _ after returned
    obtain ⟨same, cleared⟩ := journalClear_holds held returned
    have keymap : after.dir.keymap = session.dir.keymap := by
      rw [Search.journalClear, exec_bind_ok (exec_get _), exec_bind_ok (exec_get _)] at returned
      split at returned
      · cases returned
        rfl
      · cases returned
        rfl
    have still : after.OnDisk := by
      intro id named
      rw [keymap]
      exact onDisk id (same ▸ named)
    refine ⟨⟨same ▸ sheltering.agrees, sheltering.waiting, ⟨[], ?_⟩, fun id named => ?_⟩, still⟩
    · rw [← sheltering.agrees.journal]
      exact cleared
    · exact .inl (.inr (.inr (still id named)))
  · intro error after threw
    rw [Search.journalClear, exec_bind_ok (exec_get _), exec_bind_ok (exec_get _)] at threw
    split at threw
    · cases threw
    · cases threw

/-- Publishing what the handle holds. -/
theorem publishCompaction (snapshot : Graph) :
    Triple (Session.Sheltering embedder taken) (publishCompaction snapshot)
      (fun _ session => session.Sheltering embedder [] ∧ session.OnDisk)
      (fun _ => Session.Sheltering embedder taken) := by
  have never : ∀ {action : Op PUnit} {before : Session → Prop} {after : PUnit → Session → Prop},
      Triple before action after (fun _ _ => False) →
        Triple before action after (fun _ => Session.Sheltering embedder taken) :=
    fun triple => triple.weaken (fun _ held => held) (fun _ _ kept => kept)
      fun _ _ threw => threw.elim
  refine .bind (publishGraph snapshot) fun _ => .bind (never publishKeymap) fun _ =>
    .bind (never journalClear) fun _ => .modify fun session held => ⟨?_, held.2⟩
  exact held.1.carry rfl rfl rfl (fun _ => .inr) rfl rfl

/-- A compaction names everything on disk, or leaves it covered. -/
theorem compactLocked :
    Triple (Session.Sheltering embedder []) compactLocked
      (fun _ session => session.Sheltering embedder [] ∧ session.OnDisk)
      (fun _ => Session.Sheltering embedder []) := by
  refine .bind reloadIfStale fun _ => .bind absorbJournal fun _ =>
    Triple.get_bind fun session sheltering => .bind (takePending.weaken
      (fun _ same => same ▸ sheltering) (fun _ _ held => held.1) fun _ _ threw => threw.elim)
    fun drained => .tryCatch (.bind (saveSnapshot _) fun _ => publishCompaction _) fun error =>
    .bind (requeue drained) fun _ => .throw fun _ kept => kept

/-- **A commit** that returns leaves everything stored; otherwise all stays covered. -/
theorem commitLocked (endOfBatch : Bool) :
    Triple (Session.Sheltering embedder []) (commitLocked endOfBatch)
      (fun _ session => session.Sheltering embedder [] ∧ session.Durable)
      (fun _ => Session.Sheltering embedder []) := by
  have compacts : Triple (Session.Sheltering embedder []) Search.compactLocked
      (fun _ session => session.Sheltering embedder [] ∧ session.Durable)
      (fun _ => Session.Sheltering embedder []) :=
    compactLocked.weaken (fun _ held => held)
      (fun _ _ held => ⟨held.1, fun id named => .inr (held.2 id named)⟩) fun _ _ threw => threw
  refine .bind writeMetaUpgrade fun _ => ?_
  split
  · exact compacts
  refine .bind (takePending.weaken (fun _ held => held) (fun _ _ held => held)
    fun _ _ threw => threw.elim) fun drained => ?_
  have appended : Triple
      (fun session => session.Sheltering embedder drained ∧ session.handle.pending = [])
      (Search.appendChunks drained.length drained)
      (fun _ session => session.Sheltering embedder [] ∧ session.Durable)
      (fun _ => Session.Sheltering embedder []) := by
    rintro session ⟨sheltering, queue⟩
    obtain ⟨records, held⟩ := sheltering.journal
    have header := sheltering.agrees.journal
    rw [← header] at held
    obtain ⟨after, ran, same, keymap, grown⟩ := appendChunks (Nat.le_refl _) held
      fun entry member => by
        rw [header]
        exact sheltering.waiting entry member
    rw [ran]
    have durable : after.Durable := by
      intro id named
      rw [same] at named
      rw [Session.Stored, same, keymap, grown.replay, List.map_append, List.mem_append]
      rcases sheltering.covers id named with (queued | old | stored) | taken
      · rw [queue] at queued
        cases queued
      · rw [held.replay] at old
        exact .inl (.inl old)
      · exact .inr stored
      · exact .inl (.inr taken)
    constructor
    · rintro _ _ ⟨⟩
      refine ⟨⟨same ▸ sheltering.agrees, ?_, ⟨_, header ▸ grown⟩, ?_⟩, durable⟩
      · exact fun _ member => absurd member List.not_mem_nil
      · exact fun id named => .inl (.inr (durable id named))
    · rintro _ _ ⟨⟩
  refine .bind appended fun _ => .get_bind fun session held => ?_
  split
  · exact compacts.weaken (fun _ same => same ▸ held.1) (fun _ _ kept => kept)
      fun _ _ threw => threw
  · exact .pure fun _ same => same ▸ held

end Shelters

/-- What holds between the calls of a handle: both pairs are keyed, the journal holds whole
records, and everything that the handle contains is covered. -/
structure Session.Sheltered (embedder : Embedder) (session : Session) : Prop where
  ordered : session.InOrder Pair.Keyed Pair.Keyed
  sheltering : session.Sheltering embedder []

/-- A call of the handle, with the failures of the graph library during it: it strands no
item. -/
def Session.SparingStep (session : Session) (call : Request × List Bool) (next : Session) : Prop :=
  next = (call.1.run.exec { session with faults := call.2 }).2 ∧
    ∀ entries, call.1 = .add entries → ¬ { session with faults := call.2 }.Strands entries

section Runs

variable {embedder : Embedder} {session next : Session} {dir : Directory}

theorem Session.Sheltered.covers (sheltered : session.Sheltered embedder) : session.Covers := by
  intro id named
  rcases sheltered.sheltering.covers id named with held | nothing
  · exact held
  · cases nothing

/-- A batch leaves the handle the embedder's. -/
theorem addBatch_agrees (entries : List Entry) :
    Preserves (fun session : Session => session.handle.Agrees embedder)
      (VectorIndex.addBatch entries) := by
  refine .get_bind fun session agrees => ?_
  simp only
  split
  · exact agrees
  case h_2 accepted =>
    have dimensions : ∀ entry ∈ entries, entry.2.length = embedder.dim := by
      intro entry member
      have fits : entry.2.length = session.handle.meta.dim := by
        simpa using List.find?_eq_none.mp accepted entry member
      rw [fits, agrees.metadata]
      rfl
    have added : Preserves (fun session : Session => session.handle.Agrees embedder) (do
        onIndex (insertEntries entries)
        updateHandle fun handle => { handle with pending := handle.pending ++ entries }) := by
      refine .bind (.zoom fun _ session held => ⟨held.metadata, held.journal, held.pending⟩)
        fun _ => .modify fun session held => ⟨held.metadata, held.journal, fun entry member => ?_⟩
      rcases List.mem_append.mp member with old | new
      · exact held.pending entry old
      · exact dimensions entry new
    exact added session agrees

/-- A batch that strands nothing. -/
theorem Session.Sheltering.addBatch (sheltering : session.Sheltering embedder [])
    {entries : List Entry} (spares : ¬ session.Strands entries) :
    ((VectorIndex.addBatch entries).exec session).2.Sheltering embedder [] := by
  have covers : session.Covers := fun id named =>
    (sheltering.covers id named).resolve_right List.not_mem_nil
  have journal := (@Session.Loadable.journal embedder session.dir.journal).addEntries entries true
    session rfl
  refine ⟨addBatch_agrees entries session sheltering.agrees, sheltering.waiting, ?_,
    fun id named => ?_⟩
  · obtain ⟨records, held⟩ := sheltering.journal
    exact ⟨records, journal.symm ▸ held⟩
  · exact .inl ((addBatch_covers_iff covers entries).mpr spares id named)

/-- Dropping a key leaves its item unnamed. -/
theorem Shelters.removeKey (id : ItemId) :
    Triple (Session.Sheltering embedder []) (removeKey id)
      (fun _ session => session.Sheltering embedder [] ∧ ¬ session.handle.contains id)
      (fun _ => Session.Sheltering embedder []) := by
  refine .get_bind fun session sheltering => ?_
  cases named : session.handle.keymap.reverse.lookup id with
  | none =>
    refine .pure fun _ same => same ▸ ⟨sheltering, ?_⟩
    rw [VectorIndex.contains_iff, named]
    simp
  | some key =>
    have forgotten : Triple (· = session)
        (Search.updateHandle fun handle => { handle with keymap := handle.keymap.forget id key })
        (fun _ session => session.Sheltering embedder [] ∧ ¬ session.handle.contains id)
        (fun _ => Session.Sheltering embedder []) := by
      refine .modify fun after same => ?_
      subst same
      refine ⟨sheltering.carry rfl rfl rfl (fun other held => .inr ?_) rfl rfl, ?_⟩
      · by_cases different : other = id
        · subst different
          simp [VectorIndex.contains, Keymap.forget] at held
        · simpa [VectorIndex.contains, Keymap.forget, Finmap.lookup_erase_ne different] using held
      · simp [VectorIndex.contains, Keymap.forget]
    refine .bind forgotten fun _ => .bind ((Orderly.call_keeps (fun _ _ held =>
      ⟨held.1.carry rfl rfl rfl (fun _ => .inr) rfl rfl, held.2⟩) (by decide)).weaken
        (fun _ held => held) (fun _ _ kept => kept) fun _ _ threw => threw.2.1) fun _ =>
      .bind (.modify fun after held => ?_) fun _ => .pure fun _ kept => kept
    exact ⟨held.1.carry rfl rfl rfl (fun _ => .inr) rfl rfl, held.2⟩

/-- A removal leaves the rest covered. -/
theorem Shelters.remove (id : ItemId) : Shelters embedder [] (VectorIndex.remove id) := by
  refine Triple.bind (removeKey id) fun present => .modify fun session held => ?_
  obtain ⟨sheltering, unnamed⟩ := held
  refine ⟨⟨sheltering.agrees.metadata, sheltering.agrees.journal, fun entry member => ?_⟩,
    sheltering.waiting, sheltering.journal, fun other named => .inl ?_⟩
  · exact sheltering.agrees.pending entry (List.mem_of_mem_filter member)
  · have different : other ≠ id := fun same => unnamed (same ▸ named)
    rcases sheltering.covers other named with (queued | stored) | nothing
    · obtain ⟨entry, member, rfl⟩ := List.mem_map.mp queued
      exact .inl (List.mem_map_of_mem (List.mem_filter.mpr ⟨member, by simpa using different⟩))
    · exact .inr stored
    · cases nothing

/-- **Every call that strands nothing** leaves everything covered. -/
theorem Session.Sheltered.step {call : Request × List Bool} (sheltered : session.Sheltered embedder)
    (stepped : session.SparingStep call next) : next.Sheltered embedder := by
  obtain ⟨request, faults⟩ := call
  obtain ⟨rfl, spares⟩ := stepped
  have started : ({ session with faults } : Session).Sheltered embedder :=
    ⟨⟨sheltered.ordered.handle, sheltered.ordered.dir⟩,
      sheltered.sheltering.carry rfl rfl rfl (fun _ => .inr) rfl rfl⟩
  constructor
  · refine Triple.ending ((Orderly.request Pair.Keyed.invariant request).weaken (fun _ held => held)
      (fun _ _ kept => kept) fun _ _ threw => threw.2) started.ordered
  · cases request with
    | add entries => exact started.sheltering.addBatch (spares entries rfl)
    | remove id => exact Triple.ending (Shelters.remove id) started.sheltering
    | commit endOfBatch =>
      exact Triple.ending ((Shelters.commitLocked endOfBatch).weaken (fun _ held => held)
        (fun _ _ held => held.1) fun _ _ threw => threw) started.sheltering
    | compact =>
      exact Triple.ending ((Shelters.commitLocked true).weaken (fun _ held => held)
        (fun _ _ held => held.1) fun _ _ threw => threw) started.sheltering

/-- A handle that was loaded contains what the keymap it started from names, and what the
journal holds. -/
theorem VectorIndex.Loaded.contains_iff {handle : VectorIndex} (loaded : handle.Loaded embedder dir)
    (id : ItemId) : handle.contains id ↔
      id ∈ (Journal.replay embedder.header dir.journal).map Prod.fst ∨
        (dir.loadedKeymap.reverse.lookup id).isSome := by
  have keymap : handle.keymap = (dir.loadedPair.placeAll (dir.missing embedder)).keymap :=
    congrArg Pair.keymap loaded.pair
  rw [VectorIndex.contains_iff, keymap, Pair.placeAll_named]
  constructor
  · rintro (missing | stored)
    · obtain ⟨record, member, rfl⟩ := List.mem_map.mp missing
      exact .inl (List.mem_map_of_mem (List.mem_filter.mp member).1)
    · exact .inr stored
  · rintro (journalled | stored)
    · obtain ⟨record, member, rfl⟩ := List.mem_map.mp journalled
      cases named : dir.loadedKeymap.reverse.lookup record.1 with
      | some key =>
        refine .inr ?_
        change (dir.loadedKeymap.reverse.lookup record.1).isSome
        rw [named]
        rfl
      | none => exact .inl (List.mem_map_of_mem (List.mem_filter.mpr ⟨member, by rw [named]; rfl⟩))
    · exact .inr stored

/-- A keyed pair is not reset when it is loaded. -/
theorem Pair.Keyed.loadedKeymap (keyed : dir.pair.Keyed) :
    dir.loadedKeymap = dir.keymap.getD .default := by
  unfold Directory.loadedKeymap
  dsimp only
  split
  case isFalse => rfl
  case isTrue stale =>
    obtain ⟨absent, named⟩ := stale
    refine absurd (Finmap.ext_lookup fun key => ?_) named
    rw [Finmap.lookup_empty, Option.eq_none_iff_forall_ne_some]
    intro id forward
    have held := keyed.held id key ((keyed.inverse id key).mpr forward)
    rw [Directory.pair, Option.isNone_iff_eq_none.mp absent] at held
    exact Finmap.notMem_empty held

/-- **A handle that was opened** on a keyed pair and a journal of whole records. -/
theorem Session.Sheltered.opened (keyed : dir.pair.Keyed)
    (journal : ∃ records, Holds embedder.header dir.journal records)
    (returned : (VectorIndex.open embedder).exec ⟨[], dir, [], .blank⟩ = (.ok ⟨⟩, session)) :
    session.Sheltered embedder := by
  obtain ⟨loaded, usearch, keymap, same⟩ := opened_loaded returned
  have still : session.dir.pair.Keyed := by
    rw [Directory.pair, usearch, keymap]
    exact keyed
  have ordered := (Orderly.open Pair.Keyed.invariant embedder
    ⟨[], dir, [], .blank⟩ ⟨Pair.Keyed.invariant.cleared .default, keyed⟩).1 _ _ returned
  refine ⟨ordered, loaded.agrees, fun _ member => absurd member List.not_mem_nil,
    same.symm ▸ journal, fun id named => .inl (.inr ?_)⟩
  rw [Session.Stored, loaded.agrees.journal, ← still.loadedKeymap]
  exact (loaded.contains_iff id).mp named

/-- A handle that was opened on a fresh directory. -/
theorem Session.Sheltered.opened_fresh
    (returned : (VectorIndex.open embedder).exec ⟨[], .fresh, [], .blank⟩ = (.ok ⟨⟩, session)) :
    session.Sheltered embedder := by
  have keyed : Directory.fresh.pair.Keyed := Pair.Keyed.invariant.cleared .default
  exact .opened keyed ⟨[], Holds.absent _⟩ returned

/-- What is stored is there after a reopen. -/
theorem Session.Durable.reopened (sheltered : session.Sheltered embedder)
    (durable : session.Durable) {reopened : Session}
    (returned : (VectorIndex.open embedder).exec ⟨[], session.dir, [], .blank⟩ =
      (.ok ⟨⟩, reopened)) (id : ItemId) (named : session.handle.contains id) :
    reopened.handle.contains id := by
  obtain ⟨loaded, usearch, keymap, same⟩ := opened_loaded returned
  have still : reopened.dir.pair.Keyed := by
    rw [Directory.pair, usearch, keymap]
    exact sheltered.ordered.dir
  have stored := durable id named
  rw [Session.Stored, sheltered.sheltering.agrees.journal, ← same, ← keymap, ← still.loadedKeymap]
    at stored
  exact (loaded.contains_iff id).mpr stored

/-- **Batches that fail in between.** Of everything covered, a batch leaves everything covered
exactly where it strands no item. So as long as no batch of a handle does, whatever call of
the graph library fails, everything that the handle contains stays covered, and after a
commit that returns, a reopened directory contains it. -/
theorem batches_stay_covered_iff (covers : session.Covers) :
    (∀ entries, ((VectorIndex.addBatch entries).exec session).2.Covers ↔
      ¬ session.Strands entries) ∧
    (session.Sheltered embedder → ∀ calls final, Run Session.SparingStep session calls final →
      final.Covers ∧ ∀ faults committed,
        (VectorIndex.commit false).exec { final with faults } = (.ok ⟨⟩, committed) →
          ∀ reopened, (VectorIndex.open embedder).exec ⟨[], committed.dir, [], .blank⟩ =
            (.ok ⟨⟩, reopened) → ∀ id, committed.handle.contains id →
              reopened.handle.contains id) := by
  refine ⟨addBatch_covers_iff covers, fun sheltered calls final run => ?_⟩
  have kept : final.Sheltered embedder :=
    run.invariant (fun _ _ _ sheltered stepped => sheltered.step stepped) sheltered
  refine ⟨kept.covers, fun faults committed returned reopened opened => ?_⟩
  have started : ({ final with faults } : Session).Sheltering embedder [] :=
    kept.sheltering.carry rfl rfl rfl (fun _ => .inr) rfl rfl
  have durable := ((Shelters.commitLocked false _ started).1 _ _ returned).2
  have committing : final.SparingStep (.commit false, faults) committed := by
    refine ⟨?_, by rintro _ ⟨⟩⟩
    have ran := congrArg Prod.snd returned
    exact ran.symm
  exact durable.reopened (kept.step committing) opened

end Runs

/-- Two items. -/
def twoVectors : List Entry := [(⟨7⟩, [1]), (⟨8⟩, [2])]

/-- The first vector fails and nothing is stranded; the first item is added again. -/
def sparedCalls : List (Request × List Bool) :=
  [(.add twoVectors, [false, true]), (.add [(⟨7⟩, [1])], [])]

/-- After a batch that failed at its first vector, what was added again is covered, and there
after a commit and a reopen. -/
theorem added_again_is_covered : ∃ opened final,
    Run Session.SparingStep opened sparedCalls final ∧ final.handle.contains ⟨7⟩ ∧ final.Covers ∧
      ∀ faults committed,
        (VectorIndex.commit false).exec { final with faults } = (.ok ⟨⟩, committed) →
          ∀ reopened, (VectorIndex.open ⟨"", 1⟩).exec ⟨[], committed.dir, [], .blank⟩ =
            (.ok ⟨⟩, reopened) → ∀ id, committed.handle.contains id →
              reopened.handle.contains id := by
  have played : (returned (VectorIndex.open ⟨"", 1⟩) .fresh .blank).any (fun opened =>
      let first : Session := { opened with faults := [false, true] }
      let second : Session := { ((Request.add twoVectors).run.exec first).2 with faults := [] }
      !first.Strands twoVectors && !second.Strands [(⟨7⟩, [1])] &&
        (((Request.add [(⟨7⟩, [1])]).run.exec second).2.handle.contains ⟨7⟩)) = true := by
    decide +kernel
  obtain ⟨opened, ran, facts⟩ := (Option.any_eq_true _ _).mp played
  simp only [Bool.and_eq_true, Bool.not_eq_true', decide_eq_false_iff_not] at facts
  have sheltered : opened.Sheltered ⟨"", 1⟩ := .opened_fresh (exec_of_returned ran)
  have run : Run Session.SparingStep opened sparedCalls _ :=
    .next ⟨rfl, fun _ same => Request.add.inj same ▸ facts.1.1⟩
      (.next ⟨rfl, fun _ same => Request.add.inj same ▸ facts.1.2⟩ (.done _))
  obtain ⟨covers, reopens⟩ := (batches_stay_covered_iff sheltered.covers).2 sheltered _ _ run
  exact ⟨opened, _, run, facts.2, covers, reopens⟩

/-- **A batch that fails at its second vector** strands the first item: a commit that returns
does not store it, and it is gone after a reopen. -/
theorem failed_batch_is_lost : ∃ opened committed reopened,
    (VectorIndex.open ⟨"", 1⟩).exec ⟨[], .fresh, [], .blank⟩ = (.ok ⟨⟩, opened) ∧
      opened.Covers ∧
      let added := ((VectorIndex.addBatch twoVectors).exec
        { opened with faults := [false, false, true] }).2
      ¬ added.Covers ∧
      (VectorIndex.commit false).exec ⟨[], added.dir, [], added.handle⟩ = (.ok ⟨⟩, committed) ∧
      (VectorIndex.open ⟨"", 1⟩).exec ⟨[], committed.dir, [], .blank⟩ = (.ok ⟨⟩, reopened) ∧
      committed.handle.contains ⟨7⟩ ∧ ¬ reopened.handle.contains ⟨7⟩ := by
  have played : (returned (VectorIndex.open ⟨"", 1⟩) .fresh .blank).any (fun opened =>
      let added := ((VectorIndex.addBatch twoVectors).exec
        { opened with faults := [false, false, true] }).2
      (added.handle.contains ⟨7⟩ && !added.Covered ⟨7⟩) &&
        (returned (VectorIndex.commit false) added.dir added.handle).any fun committed =>
          (returned (VectorIndex.open ⟨"", 1⟩) committed.dir .blank).any fun reopened =>
            committed.handle.contains ⟨7⟩ && !reopened.handle.contains ⟨7⟩) = true := by
    decide +kernel
  obtain ⟨opened, ran, facts⟩ := (Option.any_eq_true _ _).mp played
  rw [Bool.and_eq_true, Bool.and_eq_true, Bool.not_eq_true', decide_eq_false_iff_not] at facts
  obtain ⟨⟨contained, uncovered⟩, commits⟩ := facts
  obtain ⟨committed, ranCommit, reopens⟩ := (Option.any_eq_true _ _).mp commits
  obtain ⟨reopened, ranReopen, lost⟩ := (Option.any_eq_true _ _).mp reopens
  rw [Bool.and_eq_true, Bool.not_eq_true'] at lost
  have sheltered : opened.Sheltered ⟨"", 1⟩ := .opened_fresh (exec_of_returned ran)
  refine ⟨opened, committed, reopened, exec_of_returned ran, sheltered.covers,
    fun covers => uncovered (covers ⟨7⟩ contained), exec_of_returned ranCommit,
    exec_of_returned ranReopen, lost.1, ?_⟩
  rw [lost.2]
  decide

end Singularmem.Search
