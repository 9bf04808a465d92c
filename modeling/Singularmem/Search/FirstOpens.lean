import Singularmem.Search.Openable
import Mathlib.Data.Finset.Sort
import Mathlib.Data.Prod.Lex

/-!
# Concurrent first opens of one directory

Any number of handles open a directory that has no `.meta.json`. All hold the shared lock, so
none excludes another and their file steps interleave. Each lists the temporary files and
removes them one by one, looks for `.meta.json`, and where there is none writes one: a
temporary file of its own, filled, opened again by name to be synced, and renamed.

A sweep does not tell a leftover from the file of a writer at work. A temporary file that is
swept before its writer has synced it fails that writer's open; swept later it fails the
rename, which is forgiven where another document is in place by then. Where no sweep removes
such a file every open returns, and the document is whole.
-/

namespace Singularmem.Search

open Library Effect Singularmem.Core

/-- What a file that holds metadata contains. -/
inductive MetaFile
  /-- Created, and not written to its end. -/
  | unfinished
  | complete (written : VectorIndexMeta)
deriving DecidableEq

/-- Why an open of a directory shared with other opens fails. -/
inductive OpenFailure
  /-- No file has the name of a temporary file, or of `.meta.json`. -/
  | notFound (temp : Option Nat)
  /-- `.meta.json` is not a whole document. -/
  | unparsable
  | search (error : Error)
deriving DecidableEq

/-- What an open does next. Temporary files are known by their unique number. -/
inductive OpenPhase
  /-- List the directory, to sweep it. -/
  | starting
  | sweeping (left : List Nat)
  /-- Look whether `.meta.json` exists. -/
  | probing
  | creating
  | filling (temp : Nat)
  | syncing (temp : Nat)
  | replacing (temp : Nat)
  /-- The rename failed: remove the temporary file. -/
  | discarding (temp : Nat)
  /-- The rename failed: look whether `.meta.json` exists all the same. -/
  | excusing (temp : Nat)
  | syncingDir
  | reading
  | loading (written : VectorIndexMeta) (diskFormat : Option String)
  | finished (outcome : Except OpenFailure PUnit)
deriving DecidableEq

/-- An open, and whether it is in its second attempt. -/
structure FirstOpen where
  retried : Bool
  phase : OpenPhase

/-- The files in which metadata is written, and the opens at work on them. -/
structure Race where
  metaJson : Option MetaFile
  temps : Finmap (fun _ : Nat => MetaFile)
  /-- The number of the next temporary file. -/
  nextTemp : Nat
  openers : Nat → FirstOpen

/-- A directory with nothing but a document of metadata. -/
def Directory.withMeta (written : VectorIndexMeta) : Directory :=
  { Directory.fresh with metaJson := some written }

namespace Race

variable (listing : Finset Nat → List Nat) (embedder : Embedder)

/-- Move an open to its next phase. -/
def moved (race : Race) (opener : Nat) (phase : OpenPhase) : Race :=
  { race with
    openers := Function.update race.openers opener { race.openers opener with phase } }

/-- Read `.meta.json` where it exists, and check it against the embedder. -/
def read (race : Race) : OpenPhase :=
  match race.metaJson with
  | none => .finished (.error (.notFound none))
  | some .unfinished => .finished (.error .unparsable)
  | some (.complete found) =>
    match ((loadMeta embedder).exec ⟨[], .withMeta found, [], .blank⟩).1 with
    | .ok (written, diskFormat) => .loading written diskFormat
    | .error error => .finished (.error (.search error))

/-- Load the rest of the directory. A retryable failure of the first attempt starts the
second one. -/
def load (race : Race) (opener : Nat) (written : VectorIndexMeta) (diskFormat : Option String) :
    Race :=
  match ((loadFrom written diskFormat).exec ⟨[], .withMeta written, [], .blank⟩).1 with
  | .ok _ => race.moved opener (.finished (.ok ⟨⟩))
  | .error error =>
    if isRetryableLoadError error ∧ ¬ (race.openers opener).retried then
      { race with openers := Function.update race.openers opener ⟨true, .starting⟩ }
    else race.moved opener (.finished (.error (.search error)))

/-- The next step of one open. A directory is listed in the order that `listing` gives. -/
def advance (race : Race) (opener : Nat) : Race :=
  match (race.openers opener).phase with
  | .starting => race.moved opener (.sweeping (listing race.temps.keys))
  | .sweeping [] => race.moved opener .probing
  | .sweeping (temp :: left) =>
    { race with temps := race.temps.erase temp }.moved opener (.sweeping left)
  | .probing => race.moved opener (if race.metaJson.isSome then .reading else .creating)
  | .creating =>
    { race with
      temps := race.temps.insert race.nextTemp .unfinished
      nextTemp := race.nextTemp + 1 }.moved opener (.filling race.nextTemp)
  | .filling temp =>
    { race with
      temps :=
        if temp ∈ race.temps then race.temps.insert temp (.complete embedder.metadata)
        else race.temps }.moved opener (.syncing temp)
  | .syncing temp =>
    race.moved opener
      (if temp ∈ race.temps then .replacing temp else .finished (.error (.notFound (some temp))))
  | .replacing temp =>
    match race.temps.lookup temp with
    | some document =>
      { race with metaJson := some document, temps := race.temps.erase temp }.moved opener
        .syncingDir
    | none => race.moved opener (.discarding temp)
  | .discarding temp =>
    { race with temps := race.temps.erase temp }.moved opener (.excusing temp)
  | .excusing temp =>
    race.moved opener
      (if race.metaJson.isSome then .syncingDir else .finished (.error (.notFound (some temp))))
  | .syncingDir => race.moved opener (.loading embedder.metadata none)
  | .reading => race.moved opener (race.read embedder)
  | .loading written diskFormat => race.load opener written diskFormat
  | .finished _ => race

/-- Opens that have not begun, beside temporary files left by others. -/
def initial (leftovers : Finmap (fun _ : Nat => MetaFile)) (nextTemp : Nat) : Race :=
  ⟨none, leftovers, nextTemp, fun _ => ⟨false, .starting⟩⟩

/-- The race after the first steps of a schedule. -/
def after (start : Race) (schedule : Nat → Nat) : Nat → Race
  | 0 => start
  | time + 1 => (after start schedule time).advance listing embedder (schedule time)

/-- The step does not sweep a temporary file whose writer has yet to sync it, or to rename it
where no document is in place. -/
def Spares (race : Race) (opener : Nat) : Prop :=
  ∀ temp left, (race.openers opener).phase = .sweeping (temp :: left) → ∀ writer,
    (race.openers writer).phase ≠ .filling temp ∧ (race.openers writer).phase ≠ .syncing temp ∧
      ((race.openers writer).phase = .replacing temp → race.metaJson.isSome)

end Race

/-- The temporary file that an open is at work on. -/
def OpenPhase.temp : OpenPhase → Option Nat
  | .filling temp | .syncing temp | .replacing temp | .discarding temp => some temp
  | _ => none

/-- What holds of the files while an open is in a phase. -/
def Race.Right (embedder : Embedder) (race : Race) : OpenPhase → Prop
  | .starting | .sweeping _ | .probing | .creating => True
  | .filling temp => temp ∈ race.temps
  | .syncing temp => race.temps.lookup temp = some (.complete embedder.metadata)
  | .replacing temp =>
    race.temps.lookup temp = some (.complete embedder.metadata) ∨
      race.temps.lookup temp = none ∧ race.metaJson.isSome
  | .discarding _ | .excusing _ | .syncingDir | .reading => race.metaJson.isSome
  | .loading written _ => written = embedder.metadata ∧ race.metaJson.isSome
  | .finished outcome => outcome = .ok ⟨⟩ ∧ race.metaJson.isSome

/-- No open has failed or is bound to, and no two work on one temporary file. -/
structure Race.Sound (embedder : Embedder) (race : Race) : Prop where
  document : ∀ document, race.metaJson = some document → document = .complete embedder.metadata
  phases : ∀ opener, race.Right embedder (race.openers opener).phase
  apart : ∀ first second temp, (race.openers first).phase.temp = some temp →
    (race.openers second).phase.temp = some temp → first = second
  issued : ∀ opener temp, (race.openers opener).phase.temp = some temp → temp < race.nextTemp

namespace Race

variable {embedder : Embedder} {race next : Race} {opener : Nat}

/-- A phase stays right while its temporary file stays as it is and no document is removed. -/
theorem Right.mono {phase : OpenPhase} (right : race.Right embedder phase)
    (document : race.metaJson.isSome → next.metaJson.isSome)
    (kept : ∀ temp, phase.temp = some temp → next.temps.lookup temp = race.temps.lookup temp) :
    next.Right embedder phase := by
  cases phase with
  | filling temp =>
    have same := kept temp rfl
    rw [Right, ← Finmap.lookup_isSome] at right ⊢
    rwa [same]
  | syncing temp =>
    have same := kept temp rfl
    rw [Right] at right ⊢
    rwa [same]
  | replacing temp =>
    have same := kept temp rfl
    rw [Right] at right ⊢
    rw [same]
    exact right.imp_right fun swept => ⟨swept.1, document swept.2⟩
  | loading written diskFormat => exact ⟨right.1, document right.2⟩
  | finished outcome => exact ⟨right.1, document right.2⟩
  | discarding temp => exact document right
  | excusing temp => exact document right
  | syncingDir => exact document right
  | reading => exact document right
  | starting => trivial
  | sweeping left => trivial
  | probing => trivial
  | creating => trivial

/-- A step that is right for its own open and for the others. -/
theorem Sound.moved (sound : race.Sound embedder) (openers : next.openers = race.openers)
    (document : ∀ document, next.metaJson = some document → document = .complete embedder.metadata)
    (others : ∀ other, other ≠ opener → next.Right embedder (race.openers other).phase)
    {phase : OpenPhase} (own : next.Right embedder phase) (issued : race.nextTemp ≤ next.nextTemp)
    (named : ∀ temp, phase.temp = some temp → (race.openers opener).phase.temp = some temp ∨
      race.nextTemp ≤ temp ∧ temp < next.nextTemp) :
    (next.moved opener phase).Sound embedder := by
  have self : ((next.moved opener phase).openers opener).phase = phase := by
    simp [Race.moved]
  have other : ∀ other, other ≠ opener →
      ((next.moved opener phase).openers other).phase = (race.openers other).phase := by
    intro other different
    simp [Race.moved, Function.update_of_ne different, openers]
  have fresh : ∀ other temp, other ≠ opener → (race.openers other).phase.temp = some temp →
      phase.temp ≠ some temp := by
    intro second temp different held same
    rcases named temp same with before | ⟨above, _⟩
    · exact different (sound.apart second opener temp held before)
    · exact absurd (sound.issued second temp held) (by omega)
  constructor
  · exact document
  · intro anyone
    by_cases same : anyone = opener
    · rw [same, self]
      exact own
    · rw [other anyone same]
      exact others anyone same
  · intro first second temp left right
    by_cases atFirst : first = opener
    · by_cases atSecond : second = opener
      · rw [atFirst, atSecond]
      · rw [atFirst, self] at left
        rw [other second atSecond] at right
        exact absurd left (fresh second temp atSecond right)
    · rw [other first atFirst] at left
      by_cases atSecond : second = opener
      · rw [atSecond, self] at right
        exact absurd right (fresh first temp atFirst left)
      · rw [other second atSecond] at right
        exact sound.apart first second temp left right
  · intro anyone temp held
    by_cases same : anyone = opener
    · rw [same, self] at held
      rcases named temp held with before | ⟨_, below⟩
      · exact (sound.issued opener temp before).trans_le issued
      · exact below
    · rw [other anyone same] at held
      exact (sound.issued anyone temp held).trans_le issued

/-- A step that changes no file. -/
theorem Sound.stay (sound : race.Sound embedder) {phase : OpenPhase}
    (own : race.Right embedder phase)
    (named : ∀ temp, phase.temp = some temp → (race.openers opener).phase.temp = some temp) :
    (race.moved opener phase).Sound embedder :=
  sound.moved rfl sound.document (fun other _ => sound.phases other) own le_rfl
    fun temp held => .inl (named temp held)

/-- A step that changes no temporary file but its own is right for the others. -/
theorem Sound.beside (sound : race.Sound embedder) {temp : Nat}
    (mine : (race.openers opener).phase.temp = some temp)
    (document : race.metaJson.isSome → next.metaJson.isSome)
    (kept : ∀ other, other ≠ temp → next.temps.lookup other = race.temps.lookup other) :
    ∀ other, other ≠ opener → next.Right embedder (race.openers other).phase := by
  intro other different
  apply (sound.phases other).mono document
  intro held same
  apply kept
  rintro rfl
  exact different (sound.apart other opener held same mine)

/-- Sweeping a file that no writer needs is right for every writer. -/
theorem Sound.swept (sound : race.Sound embedder) {temp : Nat} {left : List Nat}
    (sweeping : (race.openers opener).phase = .sweeping (temp :: left))
    (spares : race.Spares opener) :
    ({ race with temps := race.temps.erase temp }.moved opener
      (.sweeping left)).Sound embedder := by
  refine sound.moved (by rfl) (by exact sound.document) ?_ (by trivial) (by exact le_rfl)
    (by rintro _ ⟨⟩)
  intro writer _
  have right := sound.phases writer
  obtain ⟨unfilled, synced, settled⟩ := spares temp left sweeping writer
  by_cases works : (race.openers writer).phase.temp = some temp
  · generalize (race.openers writer).phase = phase at *
    cases phase with
    | filling own =>
      cases works
      exact absurd rfl unfilled
    | syncing own =>
      cases works
      exact absurd rfl synced
    | replacing own =>
      cases works
      exact .inr ⟨Finmap.lookup_erase _ _, settled rfl⟩
    | discarding own => exact right
    | _ => cases works
  · refine right.mono (fun present => present) ?_
    intro own held
    apply Finmap.lookup_erase_ne
    rintro rfl
    exact works held

/-- Reading a document that is in place finds the embedder's metadata. -/
theorem read_present (present : race.metaJson = some (.complete embedder.metadata)) :
    race.read embedder = .loading embedder.metadata (some formatVersion) := by
  have found : (loadMeta embedder).exec ⟨[], .withMeta embedder.metadata, [], .blank⟩ =
      (.ok (embedder.metadata, some formatVersion),
        ⟨[], .withMeta embedder.metadata, [], .blank⟩) := by
    rw [loadMeta, exec_bind_ok (exec_get _)]
    simp [Directory.withMeta, Embedder.metadata]
  rw [read, present]
  simp only [found]

/-- A load of the rest of a fresh directory finishes its open. -/
theorem load_present (accepted : embedder.header.Accepted) (diskFormat : Option String) :
    race.load opener embedder.metadata diskFormat = race.moved opener (.finished (.ok ⟨⟩)) := by
  obtain ⟨after, returned⟩ := @loadFrom_returns embedder (.withMeta embedder.metadata) [] .blank
    (Journal.open_absent accepted) diskFormat
  rw [load, returned]

/-- **A step that spares the files of writers at work** keeps the race sound. -/
theorem Sound.advance (sound : race.Sound embedder) (accepted : embedder.header.Accepted)
    (listing : Finset Nat → List Nat) (spares : race.Spares opener) :
    (race.advance listing embedder opener).Sound embedder := by
  have right := sound.phases opener
  have mine := sound.issued opener
  unfold Race.advance
  cases phase : (race.openers opener).phase with
  | starting => exact sound.stay trivial (by rintro _ ⟨⟩)
  | sweeping left =>
    cases left with
    | nil => exact sound.stay trivial (by rintro _ ⟨⟩)
    | cons temp left => exact sound.swept phase spares
  | probing =>
    by_cases present : race.metaJson.isSome
    · simp only [present, if_true]
      exact sound.stay present (by rintro _ ⟨⟩)
    · simp only [present, Bool.false_eq_true, if_false]
      exact sound.stay trivial (by rintro _ ⟨⟩)
  | creating =>
    refine sound.moved (by rfl) (by exact sound.document) ?_ ?_ (by exact Nat.le_succ _) ?_
    · intro other _
      refine (sound.phases other).mono (fun present => present) ?_
      intro temp held
      exact Finmap.lookup_insert_of_ne _ (Nat.ne_of_lt (sound.issued other temp held))
    · exact Finmap.mem_insert.mpr (.inl rfl)
    · rintro _ ⟨⟩
      exact .inr ⟨le_rfl, Nat.lt_succ_self _⟩
  | filling temp =>
    rw [phase] at right
    have there : temp ∈ race.temps := right
    have works : (race.openers opener).phase.temp = some temp := by rw [phase]; rfl
    simp only [there, if_true]
    refine sound.moved (by rfl) (by exact sound.document) ?_ ?_ (by exact le_rfl) ?_
    · exact sound.beside works (fun present => present) fun other different =>
        Finmap.lookup_insert_of_ne _ different
    · exact Finmap.lookup_insert _
    · exact fun _ same => .inl (works.trans same)
  | syncing temp =>
    rw [phase] at right
    have held : race.temps.lookup temp = some (.complete embedder.metadata) := right
    have there : temp ∈ race.temps := by
      rw [← Finmap.lookup_isSome, held]
      rfl
    simp only [there, if_true]
    have own : race.Right embedder (.replacing temp) := Or.inl held
    exact sound.stay own fun _ same => by rwa [phase]
  | replacing temp =>
    rw [phase] at right
    have works : (race.openers opener).phase.temp = some temp := by rw [phase]; rfl
    rcases right with whole | ⟨gone, present⟩
    · simp only [whole]
      refine sound.moved (by rfl) ?_ ?_ (by rfl) (by exact le_rfl) (by rintro _ ⟨⟩)
      · rintro document ⟨⟩
        rfl
      · exact sound.beside works (fun _ => rfl) fun other different =>
          Finmap.lookup_erase_ne different
    · simp only [gone]
      exact sound.stay present fun _ same => works.trans same
  | discarding temp =>
    rw [phase] at right
    have works : (race.openers opener).phase.temp = some temp := by rw [phase]; rfl
    refine sound.moved (by rfl) (by exact sound.document) ?_ (by exact right) (by exact le_rfl)
      (by rintro _ ⟨⟩)
    exact sound.beside works (fun present => present) fun other different =>
      Finmap.lookup_erase_ne different
  | excusing temp =>
    rw [phase] at right
    have present : race.metaJson.isSome := right
    simp only [present, if_true]
    exact sound.stay present (by rintro _ ⟨⟩)
  | syncingDir =>
    rw [phase] at right
    exact sound.stay ⟨rfl, right⟩ (by rintro _ ⟨⟩)
  | reading =>
    rw [phase] at right
    obtain ⟨document, present⟩ := Option.isSome_iff_exists.mp right
    have whole := sound.document document present
    simp only [read_present (present.trans (congrArg some whole))]
    exact sound.stay ⟨rfl, right⟩ (by rintro _ ⟨⟩)
  | loading written diskFormat =>
    rw [phase] at right
    obtain ⟨rfl, present⟩ := right
    simp only [load_present accepted]
    exact sound.stay ⟨rfl, present⟩ (by rintro _ ⟨⟩)
  | finished outcome => exact sound

/-- No open has begun. -/
theorem Sound.initial (leftovers : Finmap (fun _ : Nat => MetaFile)) (nextTemp : Nat) :
    (Race.initial leftovers nextTemp).Sound embedder := by
  constructor
  · rintro document ⟨⟩
  · exact fun _ => trivial
  · rintro first second temp ⟨⟩
  · rintro opener temp ⟨⟩

/-- Moving one open leaves the others. -/
theorem moved_others (race : Race) (phase : OpenPhase) {other : Nat} (different : other ≠ opener) :
    (race.moved opener phase).openers other = race.openers other := by
  simp [Race.moved, Function.update_of_ne different]

/-- A step of one open leaves the others. -/
theorem advance_others (listing : Finset Nat → List Nat) {other : Nat}
    (different : other ≠ opener) :
    (race.advance listing embedder opener).openers other = race.openers other := by
  have loaded : ∀ written diskFormat,
      (race.load opener written diskFormat).openers other = race.openers other := by
    intro written diskFormat
    unfold Race.load
    split
    case h_1 => exact moved_others race _ different
    case h_2 =>
      split
      · simp [Function.update_of_ne different]
      · exact moved_others race _ different
  unfold Race.advance
  cases (race.openers opener).phase with
  | loading written diskFormat => exact loaded written diskFormat
  | finished outcome => rfl
  | replacing temp =>
    cases held : race.temps.lookup temp with
    | some document =>
      simp only [held]
      exact moved_others _ _ different
    | none =>
      simp only [held]
      exact moved_others _ _ different
  | sweeping left =>
    cases left with
    | nil => exact moved_others _ _ different
    | cons temp left => exact moved_others _ _ different
  | _ => exact moved_others _ _ different

end Race

/-- How far an open still is from its end: the steps, and within a sweep the files. -/
def OpenPhase.rank : OpenPhase → ℕ ×ₗ ℕ
  | .starting => toLex (12, 0)
  | .sweeping left => toLex (11, left.length)
  | .probing => toLex (10, 0)
  | .creating => toLex (9, 0)
  | .filling _ => toLex (8, 0)
  | .syncing _ => toLex (7, 0)
  | .replacing _ => toLex (6, 0)
  | .discarding _ => toLex (5, 0)
  | .excusing _ => toLex (4, 0)
  | .syncingDir | .reading => toLex (3, 0)
  | .loading _ _ => toLex (2, 0)
  | .finished _ => toLex (0, 0)

namespace Race

variable {embedder : Embedder} {race : Race} {opener : Nat}

/-- The phase an open was moved to. -/
@[simp] theorem moved_phase (race : Race) (opener : Nat) (phase : OpenPhase) :
    ((race.moved opener phase).openers opener).phase = phase := by
  simp [Race.moved]

/-- **A step brings its open nearer to its end.** -/
theorem Sound.advance_rank (sound : race.Sound embedder) (accepted : embedder.header.Accepted)
    (listing : Finset Nat → List Nat)
    (unfinished : ∀ outcome, (race.openers opener).phase ≠ .finished outcome) :
    ((race.advance listing embedder opener).openers opener).phase.rank <
      (race.openers opener).phase.rank := by
  have right := sound.phases opener
  have earlier : ∀ {before after : ℕ}, after < before → toLex (after, 0) < toLex (before, 0) :=
    fun below => Prod.Lex.toLex_lt_toLex.mpr (.inl below)
  unfold Race.advance
  cases phase : (race.openers opener).phase with
  | starting =>
    simp only [moved_phase]
    exact Prod.Lex.toLex_lt_toLex.mpr (.inl (Nat.lt_succ_self _))
  | sweeping left =>
    cases left with
    | nil =>
      simp only [moved_phase]
      exact earlier (by decide)
    | cons temp left =>
      simp only [moved_phase]
      exact Prod.Lex.toLex_lt_toLex.mpr (.inr ⟨rfl, Nat.lt_succ_self _⟩)
  | probing =>
    simp only [moved_phase]
    split <;> exact earlier (by decide)
  | syncing temp =>
    simp only [moved_phase]
    split <;> exact earlier (by decide)
  | excusing temp =>
    simp only [moved_phase]
    split <;> exact earlier (by decide)
  | replacing temp =>
    cases held : race.temps.lookup temp with
    | some document =>
      simp only [held, moved_phase]
      exact earlier (by decide)
    | none =>
      simp only [held, moved_phase]
      exact earlier (by decide)
  | reading =>
    rw [phase] at right
    obtain ⟨document, present⟩ := Option.isSome_iff_exists.mp right
    have whole := sound.document document present
    simp only [moved_phase, read_present (present.trans (congrArg some whole))]
    exact earlier (by decide)
  | loading written diskFormat =>
    rw [phase] at right
    obtain ⟨rfl, _⟩ := right
    simp only [load_present accepted, moved_phase]
    exact earlier (by decide)
  | finished outcome => exact absurd phase (unfinished outcome)
  | _ =>
    simp only [moved_phase]
    exact earlier (by decide)

section Schedules

variable {listing : Finset Nat → List Nat} {start : Race} {schedule : Nat → Nat}

/-- Where every step spares the files of writers at work, the race stays sound. -/
theorem Sound.after (sound : start.Sound embedder) (accepted : embedder.header.Accepted)
    (spares : ∀ time, (start.after listing embedder schedule time).Spares (schedule time))
    (time : Nat) : (start.after listing embedder schedule time).Sound embedder := by
  induction time with
  | zero => exact sound
  | succ time inductionHypothesis =>
    exact inductionHypothesis.advance accepted listing (spares time)

/-- An open that is not scheduled for a while keeps its phase. -/
theorem after_idle {time turn : Nat} (later : time ≤ turn)
    (idle : ∀ between, time ≤ between → between < turn → schedule between ≠ opener) :
    (start.after listing embedder schedule turn).openers opener =
      (start.after listing embedder schedule time).openers opener := by
  induction turn, later using Nat.le_induction with
  | base => rfl
  | succ turn later inductionHypothesis =>
    have other := idle turn later (Nat.lt_succ_self turn)
    rw [Race.after, advance_others listing (Ne.symm other)]
    exact inductionHypothesis fun between above below =>
      idle between above (below.trans (Nat.lt_succ_self turn))

/-- An open that is scheduled again keeps its phase until its next turn. -/
theorem next_turn {time : Nat} (scheduled : ∃ turn, time ≤ turn ∧ schedule turn = opener) :
    ∃ turn, time ≤ turn ∧ schedule turn = opener ∧
      (start.after listing embedder schedule turn).openers opener =
        (start.after listing embedder schedule time).openers opener := by
  obtain ⟨later, mine⟩ := Nat.find_spec scheduled
  refine ⟨Nat.find scheduled, later, mine, after_idle later ?_⟩
  intro between above below same
  exact Nat.find_min scheduled below ⟨above, same⟩

/-- An open that is scheduled again and again comes to its end. -/
theorem Sound.finishes (accepted : embedder.header.Accepted)
    (sound : ∀ time, (start.after listing embedder schedule time).Sound embedder)
    (scheduled : ∀ time, ∃ turn, time ≤ turn ∧ schedule turn = opener) (time : Nat) :
    ∃ later outcome,
      ((start.after listing embedder schedule later).openers opener).phase = .finished outcome := by
  induction rank : ((start.after listing embedder schedule time).openers opener).phase.rank
    using WellFoundedLT.induction generalizing time with
  | ind _ inductionHypothesis =>
    subst rank
    by_cases finished : ∃ outcome,
        ((start.after listing embedder schedule time).openers opener).phase = .finished outcome
    · exact ⟨time, finished⟩
    · obtain ⟨turn, _, mine, kept⟩ := @next_turn _ _ listing start schedule _ (scheduled time)
      have nearer := (sound turn).advance_rank accepted listing fun outcome ended =>
        finished ⟨outcome, by rw [← kept]; exact ended⟩
      rw [kept] at nearer
      subst mine
      exact inductionHypothesis _ nearer (turn + 1) rfl

/-- The names that were given out are never given out again, and a name that is gone stays
gone. -/
theorem advance_absent (listing : Finset Nat → List Nat) {temp : Nat} (gone : temp ∉ race.temps)
    (issued : temp < race.nextTemp) :
    temp ∉ (race.advance listing embedder opener).temps ∧
      temp < (race.advance listing embedder opener).nextTemp := by
  have erased : ∀ other, temp ∉ race.temps.erase other := fun other member =>
    gone (Finmap.mem_erase.mp member).2
  unfold Race.advance
  cases (race.openers opener).phase with
  | sweeping left =>
    cases left with
    | nil => exact ⟨gone, issued⟩
    | cons other left => exact ⟨erased other, issued⟩
  | creating =>
    constructor
    · intro member
      rcases Finmap.mem_insert.mp member with same | before
      · exact absurd same (Nat.ne_of_lt issued)
      · exact gone before
    · exact issued.trans (Nat.lt_succ_self _)
  | filling other =>
    refine ⟨?_, issued⟩
    by_cases there : other ∈ race.temps
    · simp only [Race.moved, there, if_true]
      intro member
      rcases Finmap.mem_insert.mp member with rfl | before
      · exact gone there
      · exact gone before
    · simpa only [Race.moved, there, if_false] using gone
  | replacing other =>
    cases held : race.temps.lookup other with
    | some document =>
      simp only [held]
      exact ⟨erased other, issued⟩
    | none =>
      simp only [held]
      exact ⟨gone, issued⟩
  | discarding other => exact ⟨erased other, issued⟩
  | loading written diskFormat =>
    simp only [Race.load]
    split
    case h_1 => exact ⟨gone, issued⟩
    case h_2 => split <;> exact ⟨gone, issued⟩
  | _ => exact ⟨gone, issued⟩

/-- The temporary file of a writer that has yet to sync it is gone. -/
structure Doomed (race : Race) (writer temp : Nat) : Prop where
  gone : temp ∉ race.temps
  issued : temp < race.nextTemp
  due : (race.openers writer).phase = .filling temp ∨ (race.openers writer).phase = .syncing temp

/-- A name that is gone stays gone whatever the steps. -/
theorem after_absent {temp time turn : Nat} (later : time ≤ turn)
    (gone : temp ∉ (start.after listing embedder schedule time).temps)
    (issued : temp < (start.after listing embedder schedule time).nextTemp) :
    temp ∉ (start.after listing embedder schedule turn).temps ∧
      temp < (start.after listing embedder schedule turn).nextTemp := by
  induction turn, later using Nat.le_induction with
  | base => exact ⟨gone, issued⟩
  | succ turn later inductionHypothesis =>
    exact advance_absent listing inductionHypothesis.1 inductionHypothesis.2

/-- **A writer whose temporary file is gone before it is synced** fails, whatever the others
do. -/
theorem Doomed.fails {writer temp time : Nat}
    (doomed : (start.after listing embedder schedule time).Doomed writer temp)
    (scheduled : ∀ time, ∃ turn, time ≤ turn ∧ schedule turn = writer) :
    ∃ later, ((start.after listing embedder schedule later).openers writer).phase =
      .finished (.error (.notFound (some temp))) := by
  have last : ∀ time, (start.after listing embedder schedule time).Doomed writer temp →
      ((start.after listing embedder schedule time).openers writer).phase = .syncing temp →
      ∃ later, ((start.after listing embedder schedule later).openers writer).phase =
        .finished (.error (.notFound (some temp))) := by
    intro time doomed syncing
    obtain ⟨turn, later, mine, kept⟩ := @next_turn _ _ listing start schedule _ (scheduled time)
    have absent := (after_absent later doomed.gone doomed.issued).1
    rw [← kept] at syncing
    refine ⟨turn + 1, ?_⟩
    rw [Race.after, mine]
    unfold Race.advance
    simp only [syncing, absent, if_false, moved_phase]
  rcases doomed.due with filling | syncing
  · obtain ⟨turn, later, mine, kept⟩ := @next_turn _ _ listing start schedule _ (scheduled time)
    have filled : ((start.after listing embedder schedule (turn + 1)).openers writer).phase =
        .syncing temp := by
      rw [← kept] at filling
      rw [Race.after, mine]
      unfold Race.advance
      simp only [filling, moved_phase]
    have absent := after_absent (Nat.le_succ_of_le later) doomed.gone doomed.issued
    exact last (turn + 1) ⟨absent.1, absent.2, .inr filled⟩ filled
  · exact last time doomed syncing

end Schedules

end Race

section Names

variable {embedder : Embedder} {race next : Race} {opener : Nat}

/-- Every temporary file that is worked on has a name that was given out. -/
def Race.Issued (race : Race) : Prop :=
  ∀ opener temp, (race.openers opener).phase.temp = some temp → temp < race.nextTemp

/-- A step to a phase that works on the same file, on none, or on a new one. -/
theorem Race.Issued.moved (issued : race.Issued) (openers : next.openers = race.openers)
    (grown : race.nextTemp ≤ next.nextTemp) {phase : OpenPhase}
    (named : ∀ temp, phase.temp = some temp →
      (race.openers opener).phase.temp = some temp ∨ temp < next.nextTemp) :
    (next.moved opener phase).Issued := by
  intro anyone temp held
  by_cases same : anyone = opener
  · rw [same, moved_phase] at held
    rcases named temp held with before | below
    · exact (issued opener temp before).trans_le grown
    · exact below
  · rw [moved_others next phase same, openers] at held
    exact (issued anyone temp held).trans_le grown

/-- Names are given out before they are worked on, whatever the steps. -/
theorem Race.Issued.advance (issued : race.Issued) (embedder : Embedder)
    (listing : Finset Nat → List Nat) : (race.advance listing embedder opener).Issued := by
  unfold Race.advance
  cases phase : (race.openers opener).phase with
  | starting => exact issued.moved rfl le_rfl (by rintro _ ⟨⟩)
  | sweeping left =>
    cases left with
    | nil => exact issued.moved rfl le_rfl (by rintro _ ⟨⟩)
    | cons temp left => exact issued.moved (by rfl) (by exact le_rfl) (by rintro _ ⟨⟩)
  | probing =>
    simp only
    split <;> exact issued.moved rfl le_rfl (by rintro _ ⟨⟩)
  | creating =>
    refine issued.moved (by rfl) (by exact Nat.le_succ _) ?_
    rintro _ ⟨⟩
    exact .inr (Nat.lt_succ_self _)
  | filling temp =>
    refine issued.moved (by rfl) (by exact le_rfl) fun _ same => .inl ?_
    rwa [phase]
  | syncing temp =>
    simp only
    split
    · exact issued.moved rfl le_rfl fun _ same => .inl (by rwa [phase])
    · exact issued.moved rfl le_rfl (by rintro _ ⟨⟩)
  | replacing temp =>
    cases held : race.temps.lookup temp with
    | some document =>
      simp only [held]
      exact issued.moved (by rfl) (by exact le_rfl) (by rintro _ ⟨⟩)
    | none =>
      simp only [held]
      exact issued.moved rfl le_rfl fun _ same => .inl (by rwa [phase])
  | discarding temp => exact issued.moved (by rfl) (by exact le_rfl) (by rintro _ ⟨⟩)
  | excusing temp =>
    simp only
    split <;> exact issued.moved rfl le_rfl (by rintro _ ⟨⟩)
  | syncingDir => exact issued.moved rfl le_rfl (by rintro _ ⟨⟩)
  | reading =>
    refine issued.moved rfl le_rfl fun temp works => ?_
    simp only [Race.read] at works
    split at works <;> try split at works
    all_goals cases works
  | loading written diskFormat =>
    simp only [Race.load]
    split
    case h_1 => exact issued.moved rfl le_rfl (by rintro _ ⟨⟩)
    case h_2 =>
      split
      · intro anyone temp held
        by_cases same : anyone = opener
        · rw [same] at held
          simp only [Function.update_self] at held
          cases held
        · simp only [Function.update_of_ne same] at held
          exact issued anyone temp held
      · exact issued.moved rfl le_rfl (by rintro _ ⟨⟩)
  | finished outcome => exact issued

end Names

/-- **A sweep that removes a file its writer has yet to sync** fails that writer's open, in
every run in which the writer goes on. -/
theorem swept_writer_fails (listing : Finset Nat → List Nat) (embedder : Embedder)
    (leftovers : Finmap (fun _ : Nat => MetaFile)) (nextTemp : Nat) (schedule : Nat → Nat)
    {time temp writer : Nat} {left : List Nat}
    (sweeping : (((Race.initial leftovers nextTemp).after listing embedder schedule time).openers
      (schedule time)).phase = .sweeping (temp :: left))
    (works : (((Race.initial leftovers nextTemp).after listing embedder schedule time).openers
        writer).phase = .filling temp ∨
      (((Race.initial leftovers nextTemp).after listing embedder schedule time).openers
        writer).phase = .syncing temp)
    (scheduled : ∀ time, ∃ turn, time ≤ turn ∧ schedule turn = writer) :
    ∃ later, (((Race.initial leftovers nextTemp).after listing embedder schedule later).openers
      writer).phase = .finished (.error (.notFound (some temp))) := by
  have issued : ∀ time,
      ((Race.initial leftovers nextTemp).after listing embedder schedule time).Issued := by
    intro time
    induction time with
    | zero => rintro opener temp ⟨⟩
    | succ time inductionHypothesis => exact inductionHypothesis.advance embedder listing
  have other : writer ≠ schedule time := by
    rintro rfl
    rw [sweeping] at works
    rcases works with filling | syncing
    · cases filling
    · cases syncing
  have named : temp <
      ((Race.initial leftovers nextTemp).after listing embedder schedule time).nextTemp := by
    apply issued time writer
    rcases works with filling | syncing
    · rw [filling]
      rfl
    · rw [syncing]
      rfl
  have doomed : ((Race.initial leftovers nextTemp).after listing embedder schedule
      (time + 1)).Doomed writer temp := by
    constructor
    · rw [Race.after]
      unfold Race.advance
      simp only [sweeping]
      exact Finmap.notMem_erase_self
    · rw [Race.after]
      unfold Race.advance
      simp only [sweeping]
      exact named
    · rw [Race.after, Race.advance_others listing other]
      exact works
  exact doomed.fails scheduled

/-- A directory with the embedder's metadata is opened. -/
theorem withMeta_opens {embedder : Embedder} (accepted : embedder.header.Accepted) :
    (Directory.withMeta embedder.metadata).Opens embedder := by
  apply Directory.Sane.opens _ accepted
  constructor
  · rintro found ⟨⟩
    rfl
  · rintro bytes ⟨⟩

/-- **Concurrent first opens return** where no sweep removes the temporary file of a writer at
work. With a journal header that can carry the embedder's model and dimension, any number of
opens of one directory that holds no document, and whatever temporary files: at any time, an
open that ended has returned, `.meta.json` is a whole document with the embedder's metadata,
and a further open accepts it; and an open that is scheduled again and again ends. -/
theorem sparing_first_opens_return (listing : Finset Nat → List Nat) {embedder : Embedder}
    (accepted : embedder.header.Accepted) (leftovers : Finmap (fun _ : Nat => MetaFile))
    (nextTemp : Nat) (schedule : Nat → Nat)
    (spares : ∀ time, ((Race.initial leftovers nextTemp).after listing embedder schedule
      time).Spares (schedule time)) :
    let race := (Race.initial leftovers nextTemp).after listing embedder schedule
    (∀ time opener outcome, ((race time).openers opener).phase = .finished outcome →
      outcome = .ok ⟨⟩ ∧ (race time).metaJson = some (.complete embedder.metadata) ∧
        (Directory.withMeta embedder.metadata).Opens embedder) ∧
    ∀ opener, (∀ time, ∃ turn, time ≤ turn ∧ schedule turn = opener) →
      ∃ time, ((race time).openers opener).phase = .finished (.ok ⟨⟩) := by
  intro race
  have sound : ∀ time, (race time).Sound embedder :=
    (Race.Sound.initial leftovers nextTemp).after accepted spares
  constructor
  · intro time opener outcome finished
    have right := (sound time).phases opener
    rw [finished] at right
    obtain ⟨returned, present⟩ := right
    obtain ⟨document, held⟩ := Option.isSome_iff_exists.mp present
    have whole := (sound time).document document held
    exact ⟨returned, held.trans (congrArg some whole), withMeta_opens accepted⟩
  · intro opener scheduled
    obtain ⟨later, outcome, finished⟩ := Race.Sound.finishes accepted sound scheduled 0
    have right := (sound later).phases opener
    rw [finished] at right
    exact ⟨later, by rw [finished, right.1]⟩

/-- A directory listed in the order of its temporary files' numbers. -/
def inOrder (names : Finset Nat) : List Nat := names.sort (· ≤ ·)

/-- One open begins while another has written its temporary file and not synced it. -/
def crossing (time : Nat) : Nat := if time < 5 then 0 else if time < 7 then 1 else 0

/-- **A first open fails** because another one swept its temporary file. -/
theorem swept_first_open_fails :
    (((Race.initial ∅ 0).after inOrder ⟨"", 2⟩ crossing 8).openers 0).phase =
      .finished (.error (.notFound (some 0))) := by
  decide +kernel

/-- A step spares every file while no other open is past its beginning and short of its end. -/
theorem spares_of_alone {race : Race} {opener : Nat}
    (alone : ∀ other, other ≠ opener → (race.openers other).phase = .starting ∨
      ∃ outcome, (race.openers other).phase = .finished outcome) : race.Spares opener := by
  intro temp left sweeping writer
  by_cases same : writer = opener
  · rw [same, sweeping]
    exact ⟨nofun, nofun, nofun⟩
  · rcases alone writer same with starting | ⟨outcome, finished⟩
    · rw [starting]
      exact ⟨nofun, nofun, nofun⟩
    · rw [finished]
      exact ⟨nofun, nofun, nofun⟩

/-- One open after another. -/
def inTurn (time : Nat) : Nat := if time < 20 then 0 else 1

/-- The first of two opens in turn is done when the second begins. -/
theorem inTurn_first : (((Race.initial ∅ 0).after inOrder ⟨"", 2⟩ inTurn 20).openers 0).phase =
    .finished (.ok ⟨⟩) := by
  decide +kernel

/-- Opens in turn spare each other's files. -/
theorem inTurn_spares (time : Nat) :
    ((Race.initial ∅ 0).after inOrder ⟨"", 2⟩ inTurn time).Spares (inTurn time) := by
  apply spares_of_alone
  intro other different
  have unscheduled : (∀ between, between < time → inTurn between ≠ other) →
      (((Race.initial ∅ 0).after inOrder ⟨"", 2⟩ inTurn time).openers other).phase = .starting := by
    intro never
    rw [Race.after_idle (Nat.zero_le time) fun between _ below => never between below]
    rfl
  by_cases first : time < 20
  · rw [inTurn, if_pos first] at different
    apply Or.inl
    apply unscheduled
    intro between below
    rw [inTurn, if_pos (below.trans first)]
    exact Ne.symm different
  · rw [inTurn, if_neg first] at different
    by_cases zero : other = 0
    · refine .inr ⟨.ok ⟨⟩, ?_⟩
      rw [zero, Race.after_idle (Nat.not_lt.mp first), inTurn_first]
      intro between above _
      rw [inTurn, if_neg (Nat.not_lt.mpr above)]
      decide
    · apply Or.inl
      apply unscheduled
      intro between _
      rw [inTurn]
      split
      · exact Ne.symm zero
      · exact Ne.symm different

/-- Both of two opens in turn return. -/
theorem inTurn_return : ∃ time,
    (((Race.initial ∅ 0).after inOrder ⟨"", 2⟩ inTurn time).openers 1).phase =
      .finished (.ok ⟨⟩) := by
  apply (sparing_first_opens_return inOrder (by decide) ∅ 0 inTurn inTurn_spares).2
  intro time
  refine ⟨time + 20, Nat.le_add_right time 20, ?_⟩
  rw [inTurn, if_neg (by omega)]

end Singularmem.Search
