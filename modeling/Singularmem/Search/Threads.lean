import Singularmem.Search.InterleavedLedger

/-!
# One handle and its threads

Threads share one handle: one of them may be in a commit, holding the file lock, and the
others add between any two of its sections. Where no add falls between the snapshot of the
graph and that of the keymap, the published pair is consistent in every state reached, and
the next open serves every item that a commit covered.
-/

namespace Singularmem.Search

open Library Singularmem.Core

/-- A directory, the handle its threads use, and the commit under way. The entries added,
those there when the commit began and those of the commits that returned are history. -/
structure Threads where
  dir : Directory
  handle : VectorIndex
  committer : Option Phase
  added : List Entry
  promised : List Entry
  covered : List Entry

/-- What a thread does: a batch is added in one section, a commit takes the file lock, or
the commit under way does its next section. -/
inductive ThreadStep
  | add (entries : List Entry)
  | begin (endOfBatch : Bool)
  | proceed

namespace Threads

/-- The entries are new to the handle. -/
def Fresh (threads : Threads) (entries : List Entry) : Prop :=
  (entries.map Prod.fst).Nodup ∧
    ∀ entry ∈ entries, threads.handle.keymap.reverse.lookup entry.1 = none

instance (threads : Threads) (entries : List Entry) : Decidable (threads.Fresh entries) :=
  inferInstanceAs (Decidable (_ ∧ _))

/-- The state after a step. -/
def advance (threads : Threads) : ThreadStep → Option Threads
  | .add entries =>
    if threads.Fresh entries then
      match (VectorIndex.addBatch entries).exec ⟨[], threads.dir, [], threads.handle⟩ with
      | (.ok _, after) =>
        some { threads with
          dir := after.dir, handle := after.handle, added := threads.added ++ entries }
      | (.error _, after) => some { threads with dir := after.dir, handle := after.handle }
    else none
  | .begin endOfBatch =>
    match threads.committer with
    | some _ => none
    | none =>
      some { threads with committer := some (.begun endOfBatch), promised := threads.added }
  | .proceed =>
    match threads.committer with
    | none => none
    | some phase =>
      match phase.run.exec ⟨[], threads.dir, [], threads.handle⟩ with
      | (.ok (some next), after) =>
        some { threads with dir := after.dir, handle := after.handle, committer := some next }
      | (.ok none, after) =>
        some { threads with
          dir := after.dir, handle := after.handle, committer := none
          covered := threads.covered ++ threads.promised }
      | (.error _, after) =>
        some { threads with dir := after.dir, handle := after.handle, committer := none }

/-- No item is added between the two snapshots of a compaction. -/
def Calm (threads : Threads) : ThreadStep → Prop
  | .add entries => entries ≠ [] → ∀ phase ∈ threads.committer, phase.betweenSnapshots = false
  | _ => True

instance (threads : Threads) (step : ThreadStep) : Decidable (threads.Calm step) :=
  match step with
  | .add entries =>
    inferInstanceAs (Decidable (entries ≠ [] → ∀ phase ∈ threads.committer,
      phase.betweenSnapshots = false))
  | .begin _ => inferInstanceAs (Decidable True)
  | .proceed => inferInstanceAs (Decidable True)

/-- A step of the threads. -/
def Step (threads : Threads) (step : ThreadStep) (next : Threads) : Prop :=
  threads.advance step = some next

/-- A step that meets the condition. -/
def CalmStep (threads : Threads) (step : ThreadStep) (next : Threads) : Prop :=
  threads.Calm step ∧ threads.Step step next

/-- The threads of a handle that was just opened on a directory in order. -/
def Opened (embedder : Embedder) (threads : Threads) : Prop :=
  ∃ dir disk after, Shows embedder dir disk ∧ disk.pair.Sound ∧
    (VectorIndex.open embedder).exec ⟨[], dir, [], .blank⟩ = (.ok ⟨⟩, after) ∧
    threads = ⟨after.dir, after.handle, none, [], [], []⟩

/-- Every key of the published keymap is in the published index. -/
def Published (threads : Threads) : Prop :=
  ∀ keymap ∈ threads.dir.keymap, ∀ id key,
    keymap.forward.lookup key = some id ∨ keymap.reverse.lookup id = some key →
      ∃ index ∈ threads.dir.usearch, (index.lookup key).isSome

/-- The next open serves every entry that a commit covered which returned. -/
def Served (embedder : Embedder) (threads : Threads) : Prop :=
  ∀ entry ∈ threads.covered, ∃ after,
    (VectorIndex.open embedder).exec ⟨[], threads.dir, [], .blank⟩ = (.ok ⟨⟩, after) ∧
      after.handle.view entry.1 = some entry.2

/-- What the threads hold, without its files. -/
def progress (threads : Threads) (disk : Disk) : Progress :=
  ⟨disk, threads.handle.live, threads.committer, threads.added, threads.promised, threads.covered⟩

/-- The files carry out a coherent commit. -/
structure Tracks (embedder : Embedder) (threads : Threads) (disk : Disk) : Prop where
  shows : Shows embedder threads.dir disk
  fits : threads.handle.Fits embedder
  drained : ∀ entry ∈ Phase.drained threads.committer, entry.2.length = embedder.dim
  coherent : (threads.progress disk).Coherent

variable {embedder : Embedder} {threads next : Threads} {disk : Disk}

/-- A batch that is refused changes nothing. -/
theorem addBatch_threw {dir : Directory} {steps : List FileStep} {handle : VectorIndex}
    {entries : List Entry} {error : Error} {after : Session}
    (threw : (VectorIndex.addBatch entries).exec ⟨[], dir, steps, handle⟩ = (.error error, after)) :
    after = ⟨[], dir, steps, handle⟩ := by
  rcases checked : entries.find? (fun entry => entry.2.length ≠ handle.meta.dim) with _ | entry
  · have dimensions : ∀ entry ∈ entries, entry.2.length = handle.meta.dim := by
      intro entry member
      simpa using List.find?_eq_none.mp checked entry member
    rw [VectorIndex.addBatch, exec_addEntries dir steps true dimensions] at threw
    cases threw
  · rw [VectorIndex.addBatch, addEntries, Effect.exec_bind_ok (Effect.exec_get _)] at threw
    simp only [checked] at threw
    cases threw
    rfl

/-- A computation that carries out writes, followed by the next phase. -/
theorem proceeds {kind : FileStep → Prop} {action : Op PUnit} {live result : Live}
    {writes : List Write} {dir : Directory} {handle : VectorIndex} (phase : Option Phase)
    (refines : Refines embedder kind action disk live writes result)
    (shows : Shows embedder dir disk) (fits : handle.Fits embedder) (held : handle.live = live) :
    ∃ after, (action >>= fun _ => pure phase : Op (Option Phase)).exec ⟨[], dir, [], handle⟩ =
        (.ok phase, after) ∧
      Shows embedder after.dir (disk.after writes) ∧ after.handle.Fits embedder ∧
      after.handle.live = result := by
  obtain ⟨taken, after, ran, fits, held, carries, _⟩ := refines dir [] handle shows fits held
  exact ⟨_, by rw [Effect.exec_bind_ok ran]; rfl, carries.shows, fits, held⟩

namespace Tracks

/-- What is held in memory tells what is tracked. -/
theorem arrive {dir : Directory} {handle : VectorIndex} {live : Live} {phase : Option Phase}
    {added promised covered : List Entry} (shows : Shows embedder dir disk)
    (fits : handle.Fits embedder) (held : handle.live = live)
    (drained : ∀ entry ∈ Phase.drained phase, entry.2.length = embedder.dim)
    (coherent : Progress.Coherent ⟨disk, live, phase, added, promised, covered⟩) :
    Tracks embedder ⟨dir, handle, phase, added, promised, covered⟩ disk := by
  subst held
  exact ⟨shows, fits, drained, coherent⟩

/-- The published pair is consistent. -/
theorem published (tracks : threads.Tracks embedder disk) : threads.Published := by
  intro keymap present id key named
  have same : keymap = disk.pair.keymap := by
    have shown := tracks.shows.keymap
    rwa [present, Option.getD_some] at shown
  subst same
  have agrees : disk.pair.Agrees threads.handle.pair := tracks.coherent.agrees
  have forward : disk.pair.keymap.forward.lookup key = some id := by
    rcases named with forward | reverse
    · exact forward
    · exact (agrees.wellFormed.inverse id key).mp reverse
  have held := agrees.served tracks.coherent.sound ((agrees.wellFormed.inverse id key).mpr forward)
  have index := tracks.shows.index
  rcases file : threads.dir.usearch with _ | graph
  · rw [tracks.shows.unnamed file] at forward
    cases forward
  · rw [file, Option.getD_some] at index
    exact ⟨graph, rfl, index ▸ held⟩

/-- The next open serves what commits covered. -/
theorem served (tracks : threads.Tracks embedder disk) : threads.Served embedder := by
  intro entry member
  have coherent := tracks.coherent
  have agrees : disk.pair.Agrees threads.handle.pair := coherent.agrees
  obtain ⟨taken, after, opened, _, live, _⟩ :=
    open_carries .blank [] tracks.shows tracks.fits.accepted
  obtain ⟨known, found⟩ := coherent.covered entry member
  refine ⟨_, opened, ?_⟩
  change after.live.view entry.1 = some entry.2
  rw [live, Live.opened_view agrees.wellFormed]
  by_cases named : (disk.pair.keymap.reverse.lookup entry.1).isSome
  · rw [if_pos named, agrees.view named]
    exact coherent.views entry known
  · rw [if_neg named]
    have journalled : entry ∈ disk.journal := found.resolve_right named
    obtain ⟨vector, last⟩ := Option.isSome_iff_exists.mp
      (latest_isSome.mpr (List.mem_map_of_mem journalled))
    have same := coherent.own (entry.1, vector) (List.mem_append_left _ (latest_mem last)) entry
      known rfl
    rw [last, ← same]

/-- A batch is added in one section. -/
theorem add (tracks : threads.Tracks embedder disk) {entries : List Entry}
    (calm : threads.Calm (.add entries)) (stepped : threads.Step (.add entries) next) :
    next.Tracks embedder disk := by
  rw [Step, advance] at stepped
  split at stepped
  case isFalse => cases stepped
  case isTrue fresh =>
    split at stepped
    case h_1 value after ran =>
      cases stepped
      obtain ⟨rfl, fits⟩ := addBatch_returned tracks.fits ran
      refine ⟨tracks.shows, fits, tracks.drained, ?_⟩
      by_cases none : entries = []
      · subst none
        have same : threads.handle.live.add [] = threads.handle.live := by
          rw [Live.add, List.append_nil]
          rfl
        have coherent := tracks.coherent
        simpa only [progress, VectorIndex.live_holding, same, List.append_nil] using coherent
      · exact tracks.coherent.add fresh.1 fresh.2 (calm none)
    case h_2 error after ran =>
      cases stepped
      rw [addBatch_threw ran]
      exact tracks

/-- A commit takes the file lock. -/
theorem begin (tracks : threads.Tracks embedder disk) {endOfBatch : Bool}
    (stepped : threads.Step (.begin endOfBatch) next) : next.Tracks embedder disk := by
  rw [Step, advance] at stepped
  split at stepped
  case h_1 => cases stepped
  case h_2 idle =>
    cases stepped
    refine ⟨tracks.shows, tracks.fits, by simp [Phase.drained], ?_⟩
    have coherent := tracks.coherent
    rw [progress, idle] at coherent
    exact coherent.begin endOfBatch

/-- The commit under way does its next section. -/
theorem proceed (tracks : threads.Tracks embedder disk) (stepped : threads.Step .proceed next) :
    ∃ disk, next.Tracks embedder disk := by
  obtain ⟨dir, handle, committer, added, promised, covered⟩ := threads
  obtain ⟨shows, fits, drained, coherent⟩ := tracks
  rcases committer with _ | phase
  · cases stepped
  rw [Step, advance] at stepped
  simp only [progress] at coherent shows fits drained stepped
  have nothing : ∀ entry ∈ ([] : List Entry), entry.2.length = embedder.dim := by simp
  cases phase with
  | begun endOfBatch =>
    obtain ⟨after, ran, shows, fits, held⟩ := proceeds
      (some (if endOfBatch then .reloading else .draining))
      (writeMetaUpgrade_refines handle.live) shows fits rfl
    rw [Phase.run, ran] at stepped
    cases stepped
    refine ⟨disk, arrive shows fits held ?_ coherent.begun⟩
    cases endOfBatch with
    | true => exact nothing
    | false => exact nothing
  | draining =>
    rw [Phase.run, Effect.exec_bind_ok (exec_takePending _)] at stepped
    cases stepped
    exact ⟨disk, arrive shows ⟨fits.metadata, fits.journal, fits.accepted, nothing⟩ rfl
      fits.pending coherent.draining⟩
  | appending rest =>
    cases rest with
    | nil =>
      cases stepped
      exact ⟨disk, arrive shows fits rfl nothing coherent.appended⟩
    | cons first others =>
      have appends : Refines embedder (fun step => ¬ step.ofCompaction)
          (requeueOnError (first :: others)
            (journalAppend ((first :: others).take journalAppendChunk))) disk handle.live
          [.append ((first :: others).take journalAppendChunk)] handle.live :=
        Refines.handled (journalAppend_refines fun entry member =>
          drained entry (List.mem_of_mem_take member))
      obtain ⟨after, ran, shows, fits, held⟩ := proceeds
        (some (.appending ((first :: others).drop journalAppendChunk))) appends shows fits rfl
      rw [Phase.run, ran] at stepped
      cases stepped
      exact ⟨_, arrive shows fits held (fun entry member =>
        drained entry (List.mem_of_mem_drop member)) (coherent.appending journalAppendChunk)⟩
  | measuring =>
    rw [Phase.run, Effect.exec_bind_ok (Effect.exec_get _)] at stepped
    by_cases long : compactThreshold < Journal.len handle.journal dir.journal
    · simp only [long, if_true] at stepped
      cases stepped
      exact ⟨disk, arrive shows fits rfl nothing coherent.measured⟩
    · simp only [long, if_false] at stepped
      cases stepped
      obtain ⟨accounted, found⟩ := coherent.stage
      exact ⟨disk, arrive shows fits rfl nothing
        (coherent.returned accounted found rfl coherent.generation handle.tombstones)⟩
  | reloading =>
    obtain ⟨same, coherent⟩ := coherent.reloading
    have reloads : Refines embedder (fun _ => True) reloadIfStale disk handle.live []
        (handle.live.reload disk) := reloadIfStale_refines coherent.generation.ge
    obtain ⟨after, ran, shows, fits, held⟩ := proceeds (some .absorbing) reloads shows fits rfl
    rw [Phase.run, ran] at stepped
    cases stepped
    exact ⟨disk, arrive shows fits (held.trans same) nothing coherent⟩
  | absorbing =>
    obtain ⟨none, coherent⟩ := coherent.absorbing
    have missing : handle.missing dir = [] := (shows.missing fits).trans none
    rw [Phase.run, Effect.exec_bind_ok (Effect.exec_get _)] at stepped
    simp only [missing] at stepped
    cases stepped
    exact ⟨disk, arrive shows fits rfl nothing coherent⟩
  | inserting missing => exact coherent.stage.elim
  | snapshotting =>
    have emptied : ({ handle with pending := [] } : VectorIndex).Fits embedder :=
      ⟨fits.metadata, fits.journal, fits.accepted, nothing⟩
    have saves : Refines embedder (Publishes handle.live)
        (requeueOnError handle.pending (saveSnapshot handle.inner)) disk handle.live.drained []
        handle.live.drained :=
      Refines.handled (saveSnapshot_refines handle.live handle.inner)
    obtain ⟨after, ran, shows, fits, held⟩ := proceeds (some (.renamingGraph handle.inner)) saves
      shows emptied rfl
    rw [Phase.run, Effect.exec_bind_ok (Effect.exec_get _),
      Effect.exec_bind_ok (exec_takePending _), ran] at stepped
    cases stepped
    exact ⟨disk, arrive shows fits held nothing coherent.snapshotting⟩
  | renamingGraph snapshot =>
    have saved : snapshot = handle.live.pair.index := coherent.stage
    subst saved
    obtain ⟨after, ran, shows, fits, held⟩ := proceeds (some .serialising)
      (publishGraph_refines fun empty => coherent.agrees.unnamed coherent.sound empty) shows fits rfl
    rw [Phase.run, ran] at stepped
    cases stepped
    exact ⟨_, arrive shows fits held nothing coherent.renamingGraph⟩
  | serialising =>
    cases stepped
    exact ⟨disk, arrive shows ⟨fits.metadata, fits.journal, fits.accepted, fits.pending⟩ rfl nothing
      coherent.serialising⟩
  | renamingKeymap written =>
    obtain ⟨_, _, emptied, _⟩ := coherent.stage
    cases stepped
    have renamed : Shows embedder
        ((FileStep.renameKeymap written).apply ((FileStep.createTemp .keymap).apply dir))
        (disk.apply (.keymap written)) := by
      refine ⟨shows.index, rfl, fun absent => emptied ?_, shows.journal, shows.accepted,
        shows.metadata⟩
      have index := shows.index
      rw [show dir.usearch = none from absent, Option.getD_none] at index
      exact index.symm
    exact ⟨_, arrive renamed fits rfl nothing coherent.renamingKeymap⟩
  | clearing =>
    obtain ⟨after, ran, shows, fits, held⟩ := proceeds (some .finishing)
      (journalClear_refines handle.live) shows fits rfl
    rw [Phase.run, ran] at stepped
    cases stepped
    exact ⟨_, arrive shows fits held nothing coherent.clearing⟩
  | finishing =>
    obtain ⟨accounted, found⟩ := coherent.stage
    cases stepped
    exact ⟨disk, arrive shows ⟨fits.metadata, fits.journal, fits.accepted, fits.pending⟩ rfl nothing
      (coherent.returned accounted found rfl coherent.generation [])⟩

/-- A handle that was just opened holds what the directory stores. -/
theorem «open» (opened : threads.Opened embedder) : ∃ disk, threads.Tracks embedder disk := by
  obtain ⟨dir, disk, after, shows, sound, ran, rfl⟩ := opened
  obtain ⟨taken, handle, loaded, fits, live, carries, _⟩ :=
    open_carries .blank [] shows (accepted_of_open shows ran)
  rw [loaded] at ran
  cases ran
  refine ⟨disk, arrive carries.shows fits live (by simp [Phase.drained]) ?_⟩
  have wellFormed : (Live.loaded disk).pair.keymap.WellFormed := sound.wellFormed
  have named : ∀ record ∈ disk.journal,
      ((Live.opened disk).pair.keymap.reverse.lookup record.1).isSome := by
    intro record member
    refine Live.named_iff.mp ((Live.absorb_named record.1).mpr (.inr ⟨?_, ?_⟩))
    · exact List.mem_map_of_mem member
    · exact List.not_mem_nil
  refine ⟨sound.placeAll _, (Pair.Agrees.refl sound.wellFormed).placeAll sound.wellFormed ?_, ?_,
    by simp, by simp, by simp, by simp, rfl, by simp [Progress.Stage, Progress.Accounted]⟩
  · intro entry member
    have unnamed := (Live.mem_missing.mp member).2.1
    rw [← Bool.not_eq_true, Live.named_iff, Option.not_isSome_iff_eq_none] at unnamed
    exact unnamed
  · intro record member
    rcases List.mem_append.mp member with journalled | queued
    · exact named record journalled
    · cases queued

/-- Every calm step is tracked. -/
theorem step (tracks : threads.Tracks embedder disk) {label : ThreadStep}
    (stepped : threads.CalmStep label next) : ∃ disk, next.Tracks embedder disk := by
  cases label with
  | add entries => exact ⟨disk, tracks.add stepped.1 stepped.2⟩
  | begin endOfBatch => exact ⟨disk, tracks.begin stepped.2⟩
  | proceed => exact tracks.proceed stepped.2

end Tracks

/-- **Where no item is added between the two snapshots of a compaction**, every state that the
threads reach has a consistent published pair, and the next open serves what commits covered. -/
theorem calm_run_serves {labels : List ThreadStep} {start final : Threads}
    (opened : start.Opened embedder) (run : Run CalmStep start labels final) :
    final.Published ∧ final.Served embedder := by
  have kept : ∀ state label next, (∃ disk, state.Tracks embedder disk) →
      CalmStep state label next → ∃ disk, next.Tracks embedder disk := by
    rintro state label next ⟨disk, tracks⟩ stepped
    exact tracks.step stepped
  obtain ⟨disk, tracks⟩ := run.invariant kept (Tracks.open opened)
  exact ⟨tracks.published, tracks.served⟩

/-- The state after several steps that are admitted. -/
def play (admits : Threads → ThreadStep → Bool) (threads : Threads) :
    List ThreadStep → Option Threads
  | [] => some threads
  | label :: rest =>
    if admits threads label then (threads.advance label).bind fun next => next.play admits rest
    else none

/-- Computed steps are a run. -/
theorem play_run {admits : Threads → ThreadStep → Bool} {labels : List ThreadStep}
    {start final : Threads} (played : start.play admits labels = some final) :
    Run (fun state label next => admits state label ∧ Step state label next) start labels
      final := by
  induction labels generalizing start with
  | nil =>
    cases played
    exact .done _
  | cons label rest inductionHypothesis =>
    rw [play] at played
    split at played
    case isTrue admitted =>
      obtain ⟨next, advanced, played⟩ := Option.bind_eq_some_iff.mp played
      exact .next ⟨admitted, advanced⟩ (inductionHypothesis played)
    case isFalse => cases played

/-- The threads of a handle opened on a fresh directory. -/
def fresh (embedder : Embedder) : Option Threads :=
  (returned (VectorIndex.open embedder) .fresh .blank).map fun after =>
    ⟨after.dir, after.handle, none, [], [], []⟩

theorem fresh_opened (opened : fresh embedder = some threads) : threads.Opened embedder := by
  obtain ⟨after, ran, rfl⟩ := Option.map_eq_some_iff.mp opened
  have consistent := World.Consistent.fresh embedder
  exact ⟨.fresh, _, after, consistent.shows, consistent.stores.sound, exec_of_returned ran, rfl⟩

/-- A compaction, with an add after the keymap was serialised, and a plain commit. -/
def addAfterSnapshots : List ThreadStep :=
  [.add [(⟨7⟩, [1])], .begin true, .proceed, .proceed, .proceed, .proceed, .proceed, .proceed,
    .add [(⟨8⟩, [2])], .proceed, .proceed, .proceed,
    .begin false, .proceed, .proceed, .proceed, .proceed, .proceed]

/-- A compaction with an add after its snapshots, then a plain commit: both are served. -/
theorem calm_run_serves_addAfterSnapshots : ∃ start final,
    start.Opened ⟨"", 1⟩ ∧ Run CalmStep start addAfterSnapshots final ∧
      final.covered.map Prod.fst = [⟨7⟩, ⟨7⟩, ⟨8⟩] ∧ final.Published ∧ final.Served ⟨"", 1⟩ := by
  obtain ⟨final, played, listed⟩ : ∃ final, ((fresh ⟨"", 1⟩).bind fun start =>
      start.play (fun state label => decide (state.Calm label)) addAfterSnapshots) = some final ∧
        final.covered.map Prod.fst = [⟨7⟩, ⟨7⟩, ⟨8⟩] :=
    Option.map_eq_some_iff.mp (show Option.map (fun final => final.covered.map Prod.fst)
      ((fresh ⟨"", 1⟩).bind fun start =>
        start.play (fun state label => decide (state.Calm label)) addAfterSnapshots) =
          some [⟨7⟩, ⟨7⟩, ⟨8⟩] by decide +kernel)
  obtain ⟨start, opened, played⟩ := Option.bind_eq_some_iff.mp played
  have run : Run CalmStep start addAfterSnapshots final :=
    (play_run played).mono fun state label next step => ⟨of_decide_eq_true step.1, step.2⟩
  exact ⟨start, final, fresh_opened opened, run, listed,
    calm_run_serves (fresh_opened opened) run⟩

/-- A compaction, with an add between its two snapshots, and a plain commit. -/
def addBetweenSnapshots : List ThreadStep :=
  [.add [(⟨7⟩, [1])], .begin true, .proceed, .proceed, .proceed, .proceed,
    .add [(⟨8⟩, [2])], .proceed, .proceed, .proceed, .proceed, .proceed,
    .begin false, .proceed, .proceed, .proceed, .proceed, .proceed]

/-- **An item added between the two snapshots** is named by the published keymap and absent
from the published index; its commit returns, and the next open does not serve it. -/
theorem added_between_snapshots_is_lost : ∃ start final entry,
    start.Opened ⟨"", 1⟩ ∧ Run Step start addBetweenSnapshots final ∧
      entry ∈ final.covered ∧ ¬ final.Published ∧ ¬ final.Served ⟨"", 1⟩ := by
  have lost : ((fresh ⟨"", 1⟩).bind fun start =>
      start.play (fun _ _ => true) addBetweenSnapshots).any (fun final =>
        (⟨8⟩, [2]) ∈ final.covered ∧
        final.dir.keymap.any (fun keymap => keymap.forward.lookup 1 = some ⟨8⟩) ∧
        final.dir.usearch.all (fun index => index.lookup 1 = none) ∧
        ((VectorIndex.open ⟨"", 1⟩).exec ⟨[], final.dir, [], .blank⟩).2.handle.view ⟨8⟩ = none) =
          true := by
    decide +kernel
  obtain ⟨final, played, facts⟩ := (Option.any_eq_true _ _).mp lost
  obtain ⟨start, opened, played⟩ := Option.bind_eq_some_iff.mp played
  obtain ⟨covered, named, absent, unread⟩ := of_decide_eq_true facts
  refine ⟨start, final, (⟨8⟩, [2]), fresh_opened opened,
    (play_run played).mono fun _ _ _ step => step.2, covered, fun published => ?_, fun served => ?_⟩
  · obtain ⟨keymap, present, forward⟩ := (Option.any_eq_true _ _).mp named
    obtain ⟨index, file, held⟩ := published keymap present ⟨8⟩ 1 (.inl (of_decide_eq_true forward))
    have missing := (Option.all_eq_true _ _).mp absent index file
    rw [of_decide_eq_true missing] at held
    cases held
  · obtain ⟨after, reopened, read⟩ := served (⟨8⟩, [2]) covered
    rw [reopened] at unread
    rw [unread] at read
    cases read

end Threads

end Singularmem.Search
