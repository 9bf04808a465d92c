import Singularmem.Library.LockedSections
import Singularmem.Search.FileAccesses
import Singularmem.Search.KilledRequests

/-!
# Handles under the advisory lock

Any number of processes open one vector directory and commit to it, each under `<dir>/lock`:
a load takes it shared, a commit alone. Their file accesses interleave in any order, a lock
that stays busy is given up, any call of the graph library may fail, and any process may be
killed between two accesses or in the middle of a write.

Every such run on a directory that has its `.meta.json` is one of whole operations.
-/

namespace Singularmem.Search

open Library Singularmem.Core

/-- What a process has of the directory: it is about to open it, for the first or the second
time, it holds a handle, or its open failed. -/
inductive Client
  | closed (second : Bool)
  | holding (handle : VectorIndex)
  | refused (error : Error)

/-- The error of a lock that stayed busy. -/
def lockBusy : Error := .usearch "acquiring vector index lock"

/-- What a load leaves its process with. A first load that failed with a retryable error is
tried once more, under a fresh lock. -/
def Client.opened (second : Bool) : Except Error PUnit × Private → Client
  | (.ok _, own) => holding own.handle
  | (.error error, _) =>
    if second = false ∧ isRetryableLoadError error then closed true else refused error

/-- The sections a process may run under the lock. -/
inductive Client.Begins (embedder : Embedder) :
    Client → LockMode → Access Directory (List TempFile) FileStep Client → Prop
  | «open» (second : Bool) (faults : List Bool) :
      Begins embedder (closed second) .shared
        (Stepwise.start (Stepwise.sweepAndLoad embedder) ⟨faults, .blank⟩ >>= fun ended =>
          pure (opened second ended))
  | commit (handle : VectorIndex) (endOfBatch : Bool) (faults : List Bool) :
      Begins embedder (holding handle) .exclusive
        (Stepwise.start (Stepwise.commitLocked endOfBatch) ⟨faults, handle⟩ >>= fun ended =>
          pure (holding ended.2.handle))

/-- The requests that take no lock. -/
def Request.Unlocked : Request → Prop
  | add _ | remove _ => True
  | commit _ | compact => False

/-- What a process may do without the lock: add and remove in memory, or give up on a busy
lock. -/
inductive Client.Turns : Client → Client → Prop
  | request (handle : VectorIndex) (request : Request) (faults : List Bool)
      (unlocked : request.Unlocked) :
      Turns (holding handle)
        (holding (request.run.exec ⟨faults, .fresh, [], handle⟩).2.handle)
  | busyCommit (handle : VectorIndex) : Turns (holding handle) (holding handle)
  | busyOpen (second : Bool) : Turns (closed second) (refused lockBusy)

/-- The processes of a vector directory. A kill in the middle of a write leaves a part of its
bytes. -/
def vectorLock (embedder : Embedder) : Protocol vectorFiles Client where
  begins := Client.Begins embedder
  turns := Client.Turns
  cut step left := ∃ length, step.cut length = some left
  Ready dir := ∃ found, dir.metaJson = some found
  lasting dir step := by
    rintro ⟨found, present⟩
    cases step
    case renameMeta written => exact ⟨written, rfl⟩
    all_goals exact ⟨found, present⟩
  calm := by
    rintro own program dir begins ⟨found, present⟩
    cases begins with
    | «open» second faults =>
      have loads := Stepwise.sweepAndLoad_calm (show dir.metaJson = some found from present)
        embedder ⟨faults, .blank⟩
      exact ⟨_, loads.bind rfl⟩
  deaf := by
    intro own program begins
    cases begins with
    | commit handle endOfBatch faults =>
      exact .bind (Stepwise.Deaf.commitLocked endOfBatch _) fun _ => .pure _
  cutQuiet := by
    rintro command left ⟨length, cut⟩ quiet
    cases command with
    | writeJournal bytes =>
      cases cut
      have none : bytes = [] := by
        have same := congrArg Directory.journal (quiet ⟨none, none, none, some [], []⟩)
        exact Option.some.inj same
      subst none
      rw [List.take_nil]
      exact quiet
    | _ => cases cut

/-- The whole operations keep up with the sections: the files are the same, and every process
that holds a handle has one of its own, which holds the same. -/
structure Hosts {ι : Type} (sections : Sections Directory Client ι) (world : World)
    (place : ι → Nat) : Prop where
  files : sections.shared.files = world.dir.files
  ready : ∃ found, sections.shared.metaJson = some found
  held : ∀ process handle, sections.own process = some (.holding handle) →
    world.handles[place process]? = some (some handle)
  apart : ∀ process other, (∃ handle, sections.own process = some (.holding handle)) →
    (∃ handle, sections.own other = some (.holding handle)) → place process = place other →
    process = other

namespace Hosts

variable {ι : Type} [DecidableEq ι] {embedder : Embedder} {sections : Sections Directory Client ι}
  {world : World} {place : ι → Nat} {process : ι} {dir shared : Directory} {handle : VectorIndex}

/-- A process with a handle goes on with another one in its place. -/
theorem holds (hosts : Hosts sections world place) {next : VectorIndex}
    (owns : sections.own process = some (.holding handle)) (files : shared.files = dir.files)
    (ready : ∃ found, shared.metaJson = some found) :
    Hosts (sections.moved process shared (some (.holding next)))
      ⟨dir, world.handles.set (place process) (some next)⟩ place where
  files := files
  ready := ready
  held other found := by
    have present := hosts.held process handle owns
    by_cases same : other = process
    · subst same
      simp only [Sections.moved, Function.update_self, Option.some.injEq, Client.holding.injEq]
      rintro rfl
      exact List.getElem?_set_self (List.getElem?_eq_some_iff.mp present).1
    · simp only [Sections.moved, Function.update_of_ne same]
      intro theirs
      have different : place process ≠ place other := fun meet =>
        same (hosts.apart other process ⟨_, theirs⟩ ⟨_, owns⟩ meet.symm)
      rw [List.getElem?_set_ne different]
      exact hosts.held other found theirs
  apart one other := by
    have before : ∀ which, (∃ handle, (sections.moved process shared
        (some (.holding next))).own which = some (.holding handle)) →
        ∃ handle, sections.own which = some (.holding handle) := by
      rintro which ⟨found, theirs⟩
      by_cases same : which = process
      · exact same ▸ ⟨handle, owns⟩
      · exact ⟨found, by simpa only [Sections.moved, Function.update_of_ne same] using theirs⟩
    exact fun first second => hosts.apart one other (before one first) (before other second)

/-- A process is left without a handle, and the world stays. -/
theorem leaves (hosts : Hosts sections world place) {handles : List (Option VectorIndex)}
    {own : Option Client} (empty : ∀ handle, own ≠ some (.holding handle))
    (files : shared.files = dir.files) (ready : ∃ found, shared.metaJson = some found)
    (kept : ∀ other handle, other ≠ process → sections.own other = some (.holding handle) →
      handles[place other]? = some (some handle)) :
    Hosts (sections.moved process shared own) ⟨dir, handles⟩ place where
  files := files
  ready := ready
  held other found := by
    by_cases same : other = process
    · subst same
      simp only [Sections.moved, Function.update_self]
      exact fun theirs => absurd theirs (empty found)
    · simp only [Sections.moved, Function.update_of_ne same]
      exact kept other found same
  apart one other := by
    have before : ∀ which, (∃ handle, (sections.moved process shared own).own which =
        some (.holding handle)) → ∃ handle, sections.own which = some (.holding handle) := by
      rintro which ⟨found, theirs⟩
      by_cases same : which = process
      · subst same
        simp only [Sections.moved, Function.update_self] at theirs
        exact absurd theirs (empty found)
      · exact ⟨found, by simpa only [Sections.moved, Function.update_of_ne same] using theirs⟩
    exact fun first second => hosts.apart one other (before one first) (before other second)

/-- A new handle takes a new place. -/
theorem joins (hosts : Hosts sections world place) (fresh : ∀ handle,
      sections.own process ≠ some (.holding handle)) (files : shared.files = dir.files)
    (ready : ∃ found, shared.metaJson = some found) :
    Hosts (sections.moved process shared (some (.holding handle)))
      ⟨dir, world.handles ++ [some handle]⟩
      (Function.update place process world.handles.length) where
  files := files
  ready := ready
  held other found := by
    by_cases same : other = process
    · subst same
      simp only [Sections.moved, Function.update_self, Option.some.injEq, Client.holding.injEq]
      rintro rfl
      exact List.getElem?_concat_length
    · simp only [Sections.moved, Function.update_of_ne same]
      intro theirs
      have present := hosts.held other found theirs
      rw [List.getElem?_append_left (List.getElem?_eq_some_iff.mp present).1]
      exact present
  apart := by
    have within : ∀ which, which ≠ process → (∃ found, (sections.moved process shared
        (some (.holding handle))).own which = some (.holding found)) →
        (∃ found, sections.own which = some (.holding found)) ∧
          place which < world.handles.length := by
      rintro which different ⟨found, theirs⟩
      simp only [Sections.moved, Function.update_of_ne different] at theirs
      exact ⟨⟨found, theirs⟩, (List.getElem?_eq_some_iff.mp (hosts.held which found theirs)).1⟩
    intro one other first second meet
    by_cases mine : one = process
    · by_cases theirs : other = process
      · rw [mine, theirs]
      · rw [mine, Function.update_self, Function.update_of_ne theirs] at meet
        exact absurd meet.symm (within other theirs second).2.ne
    · by_cases theirs : other = process
      · rw [theirs, Function.update_self, Function.update_of_ne mine] at meet
        exact absurd meet (within one mine first).2.ne
      · rw [Function.update_of_ne mine, Function.update_of_ne theirs] at meet
        exact hosts.apart one other (within one mine first).1 (within other theirs second).1 meet

/-- Some incidents of the world lead to one that hosts these sections. -/
def Reach (embedder : Embedder) (world : World) (next : Sections Directory Client ι) : Prop :=
  ∃ incidents after place, Run (World.Suffers embedder) world incidents after ∧
    Hosts next after place

omit [DecidableEq ι] in
theorem quietly {next : Sections Directory Client ι} {after : ι → Nat}
    (hosts : Hosts next world after) : Reach embedder world next :=
  ⟨[], world, after, .done world, hosts⟩

omit [DecidableEq ι] in
theorem atOnce {next : Sections Directory Client ι} {after : World} {reached : ι → Nat}
    (incident : Incident) (suffered : world.suffer embedder incident = some after)
    (hosts : Hosts next after reached) : Reach embedder world next :=
  ⟨[incident], after, reached, .next suffered (.done after), hosts⟩

/-- Work in memory is a request of the handle. -/
theorem request (hosts : Hosts sections world place) {request : Request}
    (owns : sections.own process = some (.holding handle)) (unlocked : request.Unlocked)
    (faults : List Bool) :
    Reach embedder world (sections.moved process sections.shared
      (some (.holding (request.run.exec ⟨faults, .fresh, [], handle⟩).2.handle))) := by
  have confined : InMemory request.run := by
    cases request with
    | add entries => exact .addEntries entries true
    | remove id => exact .remove id
    | commit _ => exact unlocked.elim
    | compact => exact unlocked.elim
  have ran := confined faults world.dir [] handle
  refine atOnce (.finish (.act (place process) request faults)) ?_
    (hosts.holds owns hosts.files hosts.ready)
  rw [World.suffer, World.attempt, hosts.held process handle owns]
  dsimp only
  rw [ran]
  rfl

/-- What quiet file steps leave is seen as before. -/
theorem files_after_quiet {steps : List FileStep} (quiet : ∀ step ∈ steps, vectorFiles.Quiet step)
    (dir : Directory) : (dir.after steps).files = dir.files :=
  vectorFiles.view_after_quiet quiet dir

/-- A whole load is an open of the world, or nothing when it fails. -/
theorem «open» (hosts : Hosts sections world place) {second : Bool}
    (owns : sections.own process = some (.closed second)) {faults : List Bool}
    {ended : Except Error PUnit × Private} {steps : List FileStep}
    (plays : (Stepwise.start (Stepwise.sweepAndLoad embedder) ⟨faults, .blank⟩).play vectorFiles
      sections.shared = (ended, steps)) :
    Reach embedder world (sections.moved process (sections.shared.after steps)
      (some (Client.opened second ended))) := by
  obtain ⟨found, present⟩ := hosts.ready
  have empty : ∀ handle, sections.own process ≠ some (.holding handle) := by
    rw [owns]
    nofun
  have calm := Stepwise.sweepAndLoad_calm present embedder ⟨faults, .blank⟩
  obtain ⟨value, quiet⟩ := calm.play
  rw [plays] at value quiet
  rw [← value, hosts.files] at calm
  obtain ⟨loaded, unseen⟩ := calm.play
  have files := files_after_quiet quiet sections.shared
  have ready : ∃ found, (sections.shared.after steps).metaJson = some found :=
    ⟨found, (congrArg Directory.metaJson files).trans present⟩
  rcases ended with ⟨error | _, own⟩
  · refine quietly (hosts.leaves ?_ (files.trans hosts.files) ready
      fun other handle _ => hosts.held other handle)
    intro handle
    rw [Client.opened]
    split <;> nofun
  · have ran := Stepwise.exec_collapse (Stepwise.sweepAndLoad embedder)
      ⟨faults, world.dir, [], .blank⟩
    dsimp only at loaded ran
    rw [Stepwise.collapse_sweepAndLoad, loaded] at ran
    have opened := Effect.exec_tryCatch (sweepAndLoad embedder)
      (fun error => if isRetryableLoadError error then sweepAndLoad embedder else throw error)
      ⟨faults, world.dir, [], .blank⟩
    rw [ran] at opened
    refine atOnce (.finish (.open faults)) ?_
      (hosts.joins empty (files.trans (hosts.files.trans
        (files_after_quiet unseen world.dir).symm)) ready)
    rw [World.suffer, World.attempt, VectorIndex.open, opened]
    rfl

/-- A directory with its `.meta.json` keeps one. -/
theorem ready_after {dir : Directory} (ready : ∃ found, dir.metaJson = some found)
    (steps : List FileStep) : ∃ found, (dir.after steps).metaJson = some found :=
  (vectorLock ⟨"", 0⟩).lasts ready steps

omit [DecidableEq ι] in
/-- What a commit does to the files follows from the files. -/
theorem commit_plays (hosts : Hosts sections world place) (endOfBatch : Bool) (own : Private) :
    (Stepwise.start (Stepwise.commitLocked endOfBatch) own).play vectorFiles sections.shared =
      (Stepwise.start (Stepwise.commitLocked endOfBatch) own).play vectorFiles world.dir :=
  (Stepwise.Deaf.commitLocked endOfBatch own).play_eq hosts.files

/-- A whole commit is a commit of the world. -/
theorem commit (hosts : Hosts sections world place)
    (owns : sections.own process = some (.holding handle)) {endOfBatch : Bool} {faults : List Bool}
    {ended : Except Error PUnit × Private} {steps : List FileStep}
    (plays : (Stepwise.start (Stepwise.commitLocked endOfBatch) ⟨faults, handle⟩).play vectorFiles
      sections.shared = (ended, steps)) :
    Reach embedder world (sections.moved process (sections.shared.after steps)
      (some (.holding ended.2.handle))) := by
  have ran := Stepwise.exec_collapse (Stepwise.commitLocked endOfBatch)
    ⟨faults, world.dir, [], handle⟩
  dsimp only at ran
  rw [Stepwise.collapse_commitLocked, ← hosts.commit_plays, plays] at ran
  refine atOnce (.finish (.act (place process) (.commit endOfBatch) faults)) ?_
    (hosts.holds owns (vectorFiles.seen_after hosts.files steps) (ready_after hosts.ready steps))
  rw [World.suffer, World.attempt, hosts.held process handle owns]
  dsimp only [Request.run, VectorIndex.commit]
  rw [ran]
  rfl

/-- Killed between two steps. -/
theorem killed_between (dir : Directory) (done rest : List FileStep) :
    dir.killed (done ++ rest) done.length 0 = dir.after done := by
  rw [Directory.killed, List.take_left]
  cases rest with
  | nil => simp only [List.append_nil, List.getElem?_length, Option.bind_none, Option.toList_none]
  | cons step rest =>
    rw [List.getElem?_append_right (Nat.le_refl _), Nat.sub_self, List.getElem?_cons_zero,
      Option.bind_some, Directory.after_append]
    cases step
    case writeJournal bytes =>
      rcases dir.after done with ⟨metaJson, usearch, keymap, journal, temps⟩
      cases journal <;> simp [FileStep.cut, FileStep.apply]
    all_goals rfl

/-- Killed in the middle of a step. -/
theorem killed_during (dir : Directory) {step left : FileStep} {length : Nat}
    (cut : step.cut length = some left) (done rest : List FileStep) :
    dir.killed (done ++ step :: rest) done.length length = dir.after (done ++ [left]) := by
  rw [Directory.killed, List.take_left, List.getElem?_append_right (Nat.le_refl _), Nat.sub_self,
    List.getElem?_cons_zero, Option.bind_some, cut, Option.toList_some]

/-- A commit that is killed is killed in the world. -/
theorem crash (hosts : Hosts sections world place)
    (owns : sections.own process = some (.holding handle)) {endOfBatch : Bool} {faults : List Bool}
    {left : List FileStep} (leaves : (vectorLock embedder).Leaves
      ((Stepwise.start (Stepwise.commitLocked endOfBatch) ⟨faults, handle⟩).play vectorFiles
        sections.shared).2 left) :
    Reach embedder world (sections.moved process (sections.shared.after left) none) := by
  have ran := Stepwise.exec_collapse (Stepwise.commitLocked endOfBatch)
    ⟨faults, world.dir, [], handle⟩
  dsimp only at ran
  rw [Stepwise.collapse_commitLocked] at ran
  rw [hosts.commit_plays] at leaves
  have files := vectorFiles.seen_after hosts.files left
  have gone : ∀ {dir : Directory}, (sections.shared.after left).files = dir.files →
      Hosts (sections.moved process (sections.shared.after left) none)
        ⟨dir, world.handles.set (place process) none⟩ place := by
    intro dir same
    refine hosts.leaves nofun same (ready_after hosts.ready left) ?_
    intro other found different theirs
    have apart : place process ≠ place other := fun meet =>
      different (hosts.apart other process ⟨_, theirs⟩ ⟨_, owns⟩ meet.symm)
    rw [List.getElem?_set_ne apart]
    exact hosts.held other found theirs
  have killed : ∀ done cut, world.suffer embedder
      (.kill (.act (place process) (.commit endOfBatch) faults) done cut) =
        some ⟨world.dir.killed ((Stepwise.start (Stepwise.commitLocked endOfBatch)
          ⟨faults, handle⟩).play vectorFiles world.dir).2 done cut,
          world.handles.set (place process) none⟩ := by
    intro done cut
    rw [World.suffer, World.launch, hosts.held process handle owns]
    simp only [Option.join_some, Option.map_some, Request.run, VectorIndex.commit, ran,
      List.nil_append, World.mourn]
  revert killed
  generalize ((Stepwise.start (Stepwise.commitLocked endOfBatch) ⟨faults, handle⟩).play vectorFiles
    world.dir).2 = steps at leaves
  intro killed
  cases leaves with
  | between _ rest =>
    refine atOnce _ (killed left.length 0) (gone (files.trans ?_))
    rw [killed_between]
    rfl
  | @during command part done rest cut =>
    obtain ⟨length, cut⟩ := cut
    refine atOnce _ (killed done.length length) (gone (files.trans ?_))
    rw [killed_during _ cut]
    rfl

/-- A step of whole sections is some incidents of the world. -/
theorem step {event : TrafficEvent ι} {next : Sections Directory Client ι}
    (hosts : Hosts sections world place)
    (taken : Sections.Step (vectorLock embedder) sections event next) :
    Reach embedder world next := by
  cases taken with
  | turn rests turns =>
    cases turns with
    | request handle request faults unlocked => exact hosts.request rests unlocked faults
    | busyCommit handle =>
      rw [Sections.moved, ← rests, Function.update_eq_self]
      exact quietly hosts
    | busyOpen second =>
      have empty : ∀ handle, some (Client.refused lockBusy) ≠ some (.holding handle) := by simp
      exact quietly <| hosts.leaves empty hosts.files hosts.ready
        fun other handle _ => hosts.held other handle
  | run rests begins =>
    cases begins with
    | «open» second faults =>
      rw [Access.play_bind_pure]
      exact hosts.open rests rfl
    | commit handle endOfBatch faults =>
      rw [Access.play_bind_pure]
      exact hosts.commit rests rfl
  | vanish =>
    have empty : ∀ handle, none ≠ some (Client.holding handle) := by simp
    exact quietly <| hosts.leaves empty hosts.files hosts.ready
      fun other handle _ => hosts.held other handle
  | crash rests begins leaves =>
    cases begins with
    | commit handle endOfBatch faults =>
      rw [Access.play_bind_pure] at leaves
      exact hosts.crash rests leaves

/-- A run of whole sections is a run of the world. -/
theorem run {events : List (TrafficEvent ι)} {final : Sections Directory Client ι}
    (hosts : Hosts sections world place)
    (run : Run (Sections.Step (vectorLock embedder)) sections events final) :
    Reach embedder world final := by
  induction run generalizing world place with
  | done sections => exact quietly hosts
  | next taken _ inductionHypothesis =>
    obtain ⟨first, middle, reached, begins, hosts⟩ := hosts.step taken
    obtain ⟨second, after, last, ends, hosts⟩ := inductionHypothesis hosts
    exact ⟨first ++ second, after, last, begins.append ends, hosts⟩

end Hosts

/-- Processes that load a vector directory and commit to it. -/
abbrev VectorTraffic := Traffic Directory Directory (List TempFile) FileStep Client

/-- A directory that no process has opened yet. -/
def VectorTraffic.unopened (dir : Directory) (ι : Type) : VectorTraffic ι :=
  ⟨dir, fun _ => .resting (.closed false)⟩

/-- The traffic and a world agree where both can be looked at: on the files while no commit is
under way, and on every handle whose process is not at work on the files. -/
structure VectorTraffic.Agrees {ι : Type} (traffic : VectorTraffic ι) (world : World)
    (place : ι → Nat) : Prop where
  files : (∀ process, ¬ (traffic.activity process).Writes) → traffic.shared.files = world.dir.files
  handles : ∀ process handle, traffic.activity process = .resting (.holding handle) →
    world.handles[place process]? = some (some handle)
  apart : ∀ process other handle otherHandle,
    traffic.activity process = .resting (.holding handle) →
    traffic.activity other = .resting (.holding otherHandle) →
    place process = place other → process = other

/-- **Interleaved file accesses under the lock are whole operations.** On a directory with its
`.meta.json`, whatever loads and commits of any number of processes interleave, fail, give up
on the lock or are killed, some run of whole opens, requests, commits and kills agrees. -/
theorem locked_traffic_serializes {ι : Type} [DecidableEq ι] {embedder : Embedder}
    {dir : Directory} {found : VectorIndexMeta} (present : dir.metaJson = some found)
    {events : List (TrafficEvent ι)} {final : VectorTraffic ι}
    (run : Run (Traffic.Step (vectorLock embedder)) (VectorTraffic.unopened dir ι) events final) :
    ∃ incidents world place, Run (World.Suffers embedder) ⟨dir, []⟩ incidents world ∧
      VectorTraffic.Agrees final world place := by
  have begin : Traffic.Follows (vectorLock embedder) (VectorTraffic.unopened dir ι)
      ⟨dir, fun _ => some (.closed false)⟩ := .begin ⟨found, present⟩
  obtain ⟨sections, whole, follows⟩ := begin.run run
  have hosts : Hosts (⟨dir, fun _ => some (.closed false)⟩ : Sections Directory Client ι)
      ⟨dir, []⟩ (fun _ => 0) := by
    refine ⟨rfl, ⟨found, present⟩, nofun, ?_⟩
    rintro process other ⟨handle, holds⟩
    cases holds
  obtain ⟨incidents, world, place, suffered, hosts⟩ := hosts.run whole
  have owns : ∀ process handle, final.activity process = .resting (.holding handle) →
      sections.own process = some (.holding handle) := by
    intro process handle rests
    have mine := follows.each process
    rwa [rests] at mine
  refine ⟨incidents, world, place, suffered, ?_, ?_, ?_⟩
  · exact fun nobody => (follows.settled nobody).trans hosts.files
  · exact fun process handle rests => hosts.held process handle (owns process handle rests)
  · intro process other handle otherHandle rests otherRests
    exact hosts.apart process other ⟨handle, owns process handle rests⟩
      ⟨otherHandle, owns other otherHandle otherRests⟩

/-- Two loads are under way at once, and one of them is killed after it listed the directory. -/
theorem two_loads_serialize : ∃ (final : VectorTraffic Bool) (incidents : List Incident)
    (world : World) (place : Bool → Nat),
    Run (Traffic.Step (vectorLock ⟨"", 2⟩))
      (VectorTraffic.unopened ⟨some ⟨formatVersion, "", 2⟩, none, none, none, []⟩ Bool)
      [.enter true, .enter false, .access true, .die true] final ∧
    Run (World.Suffers ⟨"", 2⟩) ⟨⟨some ⟨formatVersion, "", 2⟩, none, none, none, []⟩, []⟩
      incidents world ∧ VectorTraffic.Agrees final world place := by
  have ran : ∃ final : VectorTraffic Bool, Run (Traffic.Step (vectorLock ⟨"", 2⟩))
      (VectorTraffic.unopened ⟨some ⟨formatVersion, "", 2⟩, none, none, none, []⟩ Bool)
      [.enter true, .enter false, .access true, .die true] final := by
    refine ⟨_, .next (.enter rfl (.open false []) ?_) (.next (.enter rfl (.open false []) ?_)
      (.next (.list rfl) (.next (.die ?_) (.done _))))⟩
    · exact fun process => id
    · rintro (_ | _) <;> exact id
    · nofun
  obtain ⟨final, run⟩ := ran
  obtain ⟨incidents, world, place, suffered, agrees⟩ := locked_traffic_serializes rfl run
  exact ⟨final, incidents, world, place, run, suffered, agrees⟩

end Singularmem.Search
