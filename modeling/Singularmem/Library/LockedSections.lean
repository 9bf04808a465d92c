import Mathlib.Logic.Function.Basic
import Singularmem.Library.Accesses
import Singularmem.Library.Runs

/-!
# Sections under a readers–writer lock

Any number of processes share a state. A process works on it in sections, each under a lock
that several readers may share and a writer has alone. The accesses of the sections that run
at one time interleave in any order, and a process may die between any two of them, or in
the middle of a command.

Where sections under the shared lock are calm and those under the exclusive lock deaf, every
such run serializes: each section takes effect at once when it ends, and the interleaved run
and the run of whole sections agree on what is seen of the state and on every process that
is not in a section.
-/

namespace Singularmem.Library

variable {σ ν τ κ π ι : Type}

/-- How a section takes the lock. -/
inductive LockMode
  | shared
  | exclusive
deriving DecidableEq

/-- What processes may do: run a section under a lock, change without the state, and leave a
part of a command when they die. `Ready` is asked of what is seen; no command undoes it. -/
structure Protocol (medium : Medium σ ν τ κ) (π : Type) where
  begins : π → LockMode → Access ν τ κ π → Prop
  turns : π → π → Prop
  cut : κ → κ → Prop
  Ready : ν → Prop
  lasting : ∀ state command, Ready (medium.view state) → Ready (medium.view (medium.apply state command))
  calm : ∀ {own program state}, begins own .shared program → Ready (medium.view state) →
    ∃ value, program.Calm medium (medium.view state) value
  deaf : ∀ {own program}, begins own .exclusive program → program.Deaf
  cutQuiet : ∀ {command left}, cut command left → medium.Quiet command → medium.Quiet left

/-- Readiness lasts through commands. -/
theorem Protocol.lasts {medium : Medium σ ν τ κ} (protocol : Protocol medium π) {state : σ}
    (ready : protocol.Ready (medium.view state)) (commands : List κ) :
    protocol.Ready (medium.view (medium.after state commands)) := by
  induction commands generalizing state with
  | nil => exact ready
  | cons command rest inductionHypothesis =>
    exact inductionHypothesis (protocol.lasting state command ready)

/-- What a process is doing. -/
inductive Activity (ν τ κ π : Type)
  | resting (own : π)
  | inside (mode : LockMode) (rest : Access ν τ κ π)
  | gone

/-- The process runs a section. -/
def Activity.Inside : Activity ν τ κ π → Prop
  | inside _ _ => True
  | _ => False

/-- The process runs a section that has the lock alone. -/
def Activity.Writes : Activity ν τ κ π → Prop
  | inside .exclusive _ => True
  | _ => False

/-- A shared state and the processes that work on it. -/
structure Traffic (σ ν τ κ π ι : Type) where
  shared : σ
  activity : ι → Activity ν τ κ π

/-- A step of the traffic, by the process that takes it. -/
inductive TrafficEvent (ι : Type)
  | turn (process : ι)
  | enter (process : ι)
  | access (process : ι)
  | leave (process : ι)
  | die (process : ι)
deriving DecidableEq

/-- The events at which something takes effect. -/
def TrafficEvent.settles : TrafficEvent ι → Bool
  | turn _ | leave _ | die _ => true
  | enter _ | access _ => false

/-- The lock can be taken. -/
def Traffic.Grants (traffic : Traffic σ ν τ κ π ι) : LockMode → Prop
  | .shared => ∀ process, ¬ (traffic.activity process).Writes
  | .exclusive => ∀ process, ¬ (traffic.activity process).Inside

section Systems

variable [DecidableEq ι] {medium : Medium σ ν τ κ}

/-- The traffic where one process does something else. -/
def Traffic.moved (traffic : Traffic σ ν τ κ π ι) (process : ι) (shared : σ)
    (activity : Activity ν τ κ π) : Traffic σ ν τ κ π ι :=
  ⟨shared, Function.update traffic.activity process activity⟩

/-- One step of interleaved sections. -/
inductive Traffic.Step (protocol : Protocol medium π) :
    Traffic σ ν τ κ π ι → TrafficEvent ι → Traffic σ ν τ κ π ι → Prop
  | turn {traffic process own next} (rests : traffic.activity process = .resting own)
      (turns : protocol.turns own next) :
      Step protocol traffic (.turn process) (traffic.moved process traffic.shared (.resting next))
  | enter {traffic process own mode program} (rests : traffic.activity process = .resting own)
      (begins : protocol.begins own mode program) (grants : traffic.Grants mode) :
      Step protocol traffic (.enter process)
        (traffic.moved process traffic.shared (.inside mode program))
  | observe {traffic process mode next}
      (inside : traffic.activity process = .inside mode (.observe next)) :
      Step protocol traffic (.access process) (traffic.moved process traffic.shared
        (.inside mode (next (medium.view traffic.shared))))
  | list {traffic process mode next}
      (inside : traffic.activity process = .inside mode (.list next)) :
      Step protocol traffic (.access process) (traffic.moved process traffic.shared
        (.inside mode (next (medium.listing traffic.shared))))
  | write {traffic process mode command next}
      (inside : traffic.activity process = .inside mode (.write command next)) :
      Step protocol traffic (.access process)
        (traffic.moved process (medium.apply traffic.shared command) (.inside mode next))
  | leave {traffic process mode own} (inside : traffic.activity process = .inside mode (.done own)) :
      Step protocol traffic (.leave process) (traffic.moved process traffic.shared (.resting own))
  | die {traffic process} (alive : traffic.activity process ≠ .gone) :
      Step protocol traffic (.die process) (traffic.moved process traffic.shared .gone)
  | dieWriting {traffic process mode command left next}
      (inside : traffic.activity process = .inside mode (.write command next))
      (cut : protocol.cut command left) :
      Step protocol traffic (.die process)
        (traffic.moved process (medium.apply traffic.shared left) .gone)

/-- A shared state and processes that run whole sections on it. A process that died has no
state. -/
structure Sections (σ π ι : Type) where
  shared : σ
  own : ι → Option π

/-- Whole sections where one process has another state. -/
def Sections.moved (sections : Sections σ π ι) (process : ι) (shared : σ) (own : Option π) :
    Sections σ π ι :=
  ⟨shared, Function.update sections.own process own⟩

/-- What a crash leaves of commands: the first of them, and perhaps a part of the next. -/
inductive Protocol.Leaves (protocol : Protocol medium π) : List κ → List κ → Prop
  | between (done rest : List κ) : Leaves protocol (done ++ rest) done
  | during {command left : κ} (done rest : List κ) (cut : protocol.cut command left) :
      Leaves protocol (done ++ command :: rest) (done ++ [left])

/-- One step of whole sections. -/
inductive Sections.Step (protocol : Protocol medium π) :
    Sections σ π ι → TrafficEvent ι → Sections σ π ι → Prop
  | turn {sections process own next} (rests : sections.own process = some own)
      (turns : protocol.turns own next) :
      Step protocol sections (.turn process) (sections.moved process sections.shared (some next))
  | run {sections process own mode program} (rests : sections.own process = some own)
      (begins : protocol.begins own mode program) :
      Step protocol sections (.leave process) (sections.moved process
        (medium.after sections.shared (program.play medium sections.shared).2)
        (some (program.play medium sections.shared).1))
  | vanish {sections process} :
      Step protocol sections (.die process) (sections.moved process sections.shared none)
  | crash {sections process own program left} (rests : sections.own process = some own)
      (begins : protocol.begins own .exclusive program)
      (leaves : protocol.Leaves (program.play medium sections.shared).2 left) :
      Step protocol sections (.die process)
        (sections.moved process (medium.after sections.shared left) none)

/-- What a process in the traffic owes to the whole sections: outside a section it has the
same state. A section under way is one the process could begin; a reader's will end as it
would have from `base`, and a writer's has issued the first commands of its run from there. -/
def Activity.Follows (protocol : Protocol medium π) (shared base : σ) (own : Option π) :
    Activity ν τ κ π → Prop
  | resting state => own = some state
  | gone => True
  | inside .shared rest => ∃ state program value, own = some state ∧
      protocol.begins state .shared program ∧ program.Calm medium (medium.view base) value ∧
      rest.Calm medium (medium.view base) value
  | inside .exclusive rest => ∃ state program taken, own = some state ∧
      protocol.begins state .exclusive program ∧ rest.Deaf ∧
      medium.view shared = medium.view (medium.after base taken) ∧
      program.play medium base =
        ((rest.play medium shared).1, taken ++ (rest.play medium shared).2)

/-- The traffic follows the whole sections. While nobody writes, both states are seen alike;
who writes is alone. -/
structure Traffic.Follows (protocol : Protocol medium π) (traffic : Traffic σ ν τ κ π ι)
    (sections : Sections σ π ι) : Prop where
  ready : protocol.Ready (medium.view sections.shared)
  each : ∀ process, (traffic.activity process).Follows protocol traffic.shared sections.shared
    (sections.own process)
  settled : (∀ process, ¬ (traffic.activity process).Writes) →
    medium.view traffic.shared = medium.view sections.shared
  alone : ∀ process other, (traffic.activity process).Writes →
    (traffic.activity other).Inside → other = process

namespace Activity

variable {protocol : Protocol medium π} {shared base other nextBase : σ} {own : Option π}
  {activity : Activity ν τ κ π}

/-- Who writes is in a section. -/
theorem Writes.inside (writes : activity.Writes) : activity.Inside := by
  rcases activity with state | ⟨mode, rest⟩ | _
  · exact writes.elim
  · exact True.intro
  · exact writes.elim

/-- What a process that does not write owes follows from what is seen of the base. -/
theorem Follows.reader (follows : activity.Follows protocol shared base own)
    (reads : ¬ activity.Writes) (same : medium.view base = medium.view nextBase) :
    activity.Follows protocol other nextBase own := by
  rcases activity with state | ⟨mode, rest⟩ | _
  · exact follows
  · cases mode with
    | shared =>
      obtain ⟨state, program, value, rests, begins, calm, restCalm⟩ := follows
      rw [same] at calm restCalm
      exact ⟨state, program, value, rests, begins, calm, restCalm⟩
    | exclusive => exact absurd True.intro reads
  · exact True.intro

/-- What a process outside a section owes does not depend on the states. -/
theorem Follows.outside (follows : activity.Follows protocol shared base own)
    (outside : ¬ activity.Inside) : activity.Follows protocol other nextBase own := by
  rcases activity with state | ⟨mode, rest⟩ | _
  · exact follows
  · exact absurd True.intro outside
  · exact True.intro

end Activity

namespace Traffic.Follows

variable {protocol : Protocol medium π} {traffic next : Traffic σ ν τ κ π ι}
  {sections : Sections σ π ι} {process : ι} {shared base : σ} {own : Option π}
  {activity : Activity ν τ κ π}

/-- One process moves: it keeps what it owes, and so do the others. -/
theorem moved (follows : traffic.Follows protocol sections)
    (ready : protocol.Ready (medium.view base))
    (mine : activity.Follows protocol shared base own)
    (others : ∀ other, other ≠ process →
      (traffic.activity other).Follows protocol shared base (sections.own other))
    (settled : ¬ activity.Writes →
      (∀ other, other ≠ process → ¬ (traffic.activity other).Writes) →
      medium.view shared = medium.view base)
    (writes : activity.Writes → ∀ other, other ≠ process → ¬ (traffic.activity other).Inside)
    (reads : activity.Inside → ∀ other, other ≠ process → ¬ (traffic.activity other).Writes) :
    (traffic.moved process shared activity).Follows protocol (sections.moved process base own) where
  ready := ready
  each other := by
    by_cases same : other = process
    · subst same
      simpa only [Traffic.moved, Sections.moved, Function.update_self] using mine
    · simpa only [Traffic.moved, Sections.moved, Function.update_of_ne same] using others other same
  settled nobody := by
    apply settled
    · have mine := nobody process
      simpa only [Traffic.moved, Function.update_self] using mine
    · intro other different
      have theirs := nobody other
      simpa only [Traffic.moved, Function.update_of_ne different] using theirs
  alone one other := by
    simp only [Traffic.moved]
    by_cases first : one = process
    · subst first
      by_cases second : other = one
      · exact fun _ _ => second
      · rw [Function.update_self, Function.update_of_ne second]
        exact fun writing inside => absurd inside (writes writing other second)
    · rw [Function.update_of_ne first]
      by_cases second : other = process
      · subst second
        rw [Function.update_self]
        exact fun writing inside => absurd writing (reads inside one first)
      · rw [Function.update_of_ne second]
        exact follows.alone one other

/-- One process moves and the whole sections stay. -/
theorem stays (follows : traffic.Follows protocol sections)
    (mine : activity.Follows protocol shared sections.shared (sections.own process))
    (others : ∀ other, other ≠ process →
      (traffic.activity other).Follows protocol shared sections.shared (sections.own other))
    (settled : ¬ activity.Writes →
      (∀ other, other ≠ process → ¬ (traffic.activity other).Writes) →
      medium.view shared = medium.view sections.shared)
    (writes : activity.Writes → ∀ other, other ≠ process → ¬ (traffic.activity other).Inside)
    (reads : activity.Inside → ∀ other, other ≠ process → ¬ (traffic.activity other).Writes) :
    (traffic.moved process shared activity).Follows protocol sections := by
  have moved := follows.moved follows.ready mine others settled writes reads
  rwa [Sections.moved, Function.update_eq_self] at moved

omit [DecidableEq ι] in
/-- While a process that does not write is in a section, nobody writes. -/
theorem nobody_writes (follows : traffic.Follows protocol sections)
    (inside : (traffic.activity process).Inside) (reads : ¬ (traffic.activity process).Writes)
    (other : ι) : ¬ (traffic.activity other).Writes := by
  intro writes
  have same := follows.alone other process writes inside
  rw [same] at reads
  exact reads writes

omit [DecidableEq ι] in
/-- While a process reads, nobody writes. -/
theorem reader_bars {rest : Access ν τ κ π} (follows : traffic.Follows protocol sections)
    (inside : traffic.activity process = .inside .shared rest) (other : ι) :
    ¬ (traffic.activity other).Writes := by
  refine follows.nobody_writes (show (traffic.activity process).Inside from ?_) ?_ other
  · rw [inside]
    exact True.intro
  · rw [inside]
    exact id

omit [DecidableEq ι] in
/-- While a process writes, the others are outside. -/
theorem writer_bars {rest : Access ν τ κ π} (follows : traffic.Follows protocol sections)
    (inside : traffic.activity process = .inside .exclusive rest) (other : ι)
    (different : other ≠ process) : ¬ (traffic.activity other).Inside := by
  intro within
  have writes : (traffic.activity process).Writes := by
    rw [inside]
    exact True.intro
  exact different (follows.alone process other writes within)

/-- While nobody else writes and this process does not, both states are seen alike. -/
theorem settled_of_others (follows : traffic.Follows protocol sections)
    (reads : ¬ (traffic.activity process).Writes)
    (nobody : ∀ other, other ≠ process → ¬ (traffic.activity other).Writes) :
    medium.view traffic.shared = medium.view sections.shared := by
  apply follows.settled
  intro other
  by_cases same : other = process
  · exact same ▸ reads
  · exact nobody other same

variable {state : π} {mode : LockMode} {program rest : Access ν τ κ π}

/-- A process outside a section changes. -/
theorem turn {changed : π} (follows : traffic.Follows protocol sections)
    (rests : traffic.activity process = .resting state) :
    (traffic.moved process traffic.shared (.resting changed)).Follows protocol
      (sections.moved process sections.shared (some changed)) := by
  apply follows.moved follows.ready
  · exact rfl
  · exact fun other _ => follows.each other
  · exact fun _ => follows.settled_of_others (by rw [rests]; exact id)
  · exact False.elim
  · exact False.elim

/-- A section begins. -/
theorem enter (follows : traffic.Follows protocol sections)
    (rests : traffic.activity process = .resting state) (begins : protocol.begins state mode program)
    (grants : traffic.Grants mode) :
    (traffic.moved process traffic.shared (.inside mode program)).Follows protocol sections := by
  have owns : sections.own process = some state := by
    have mine := follows.each process
    rwa [rests] at mine
  cases mode with
  | shared =>
    obtain ⟨value, calm⟩ := protocol.calm begins follows.ready
    apply follows.stays
    · exact ⟨state, program, value, owns, begins, calm, calm⟩
    · exact fun other _ => follows.each other
    · exact fun _ _ => follows.settled grants
    · exact False.elim
    · exact fun _ other _ => grants other
  | exclusive =>
    have same := follows.settled fun other writes => grants other writes.inside
    have deaf := protocol.deaf begins
    apply follows.stays
    · exact ⟨state, program, [], owns, begins, deaf, same, deaf.play_eq same.symm⟩
    · exact fun other _ => follows.each other
    · exact fun reads => absurd True.intro reads
    · exact fun _ other _ => grants other
    · exact fun _ other _ writes => grants other writes.inside

/-- A reader makes an access that is not seen. -/
theorem readerAccess (follows : traffic.Follows protocol sections)
    (inside : traffic.activity process = .inside .shared program)
    (unseen : medium.view shared = medium.view traffic.shared)
    (calm : ∀ value, program.Calm medium (medium.view sections.shared) value →
      rest.Calm medium (medium.view sections.shared) value) :
    (traffic.moved process shared (.inside .shared rest)).Follows protocol sections := by
  have nobody := follows.reader_bars inside
  have mine := follows.each process
  rw [inside] at mine
  obtain ⟨state, begun, value, owns, begins, calmBegun, calmRest⟩ := mine
  apply follows.stays
  · exact ⟨state, begun, value, owns, begins, calmBegun, calm value calmRest⟩
  · exact fun other _ => (follows.each other).reader (nobody other) rfl
  · exact fun _ _ => unseen.trans (follows.settled nobody)
  · exact False.elim
  · exact fun _ other _ => nobody other

/-- The writer makes an access, which is the next of its run. -/
theorem writerAccess (follows : traffic.Follows protocol sections) (issued : List κ)
    (inside : traffic.activity process = .inside .exclusive program)
    (deaf : program.Deaf → rest.Deaf) (reached : shared = medium.after traffic.shared issued)
    (plays : program.play medium traffic.shared =
      ((rest.play medium shared).1, issued ++ (rest.play medium shared).2)) :
    (traffic.moved process shared (.inside .exclusive rest)).Follows protocol sections := by
  have outside := follows.writer_bars inside
  have mine := follows.each process
  rw [inside] at mine
  obtain ⟨state, begun, taken, owns, begins, deafRest, seen, run⟩ := mine
  apply follows.stays
  · refine ⟨state, begun, taken ++ issued, owns, begins, deaf deafRest, ?_, ?_⟩
    · rw [reached, Medium.after_append]
      exact medium.seen_after seen issued
    · rw [run, plays, List.append_assoc]
  · exact fun other different => (follows.each other).outside (outside other different)
  · exact fun reads => absurd True.intro reads
  · exact fun _ => outside
  · exact fun _ other different writes => outside other different writes.inside

/-- A reader ends as its whole section does from the base. -/
theorem readerLeaves (follows : traffic.Follows protocol sections)
    (inside : traffic.activity process = .inside .shared (.done state)) :
    ∃ after, Sections.Step protocol sections (.leave process) after ∧
      (traffic.moved process traffic.shared (.resting state)).Follows protocol after := by
  have nobody := follows.reader_bars inside
  have mine := follows.each process
  rw [inside] at mine
  obtain ⟨before, begun, value, owns, begins, calm, ended⟩ := mine
  obtain rfl : state = value := ended
  obtain ⟨same, quiet⟩ := calm.play
  have unseen := medium.view_after_quiet quiet sections.shared
  refine ⟨_, .run owns begins, ?_⟩
  apply follows.moved
  · rw [unseen]
    exact follows.ready
  · exact congrArg some same
  · exact fun other _ => (follows.each other).reader (nobody other) unseen.symm
  · exact fun _ _ => (follows.settled nobody).trans unseen.symm
  · exact False.elim
  · exact False.elim

/-- The writer ends as its whole section does from the base. -/
theorem writerLeaves (follows : traffic.Follows protocol sections)
    (inside : traffic.activity process = .inside .exclusive (.done state)) :
    ∃ after, Sections.Step protocol sections (.leave process) after ∧
      (traffic.moved process traffic.shared (.resting state)).Follows protocol after := by
  have outside := follows.writer_bars inside
  have mine := follows.each process
  rw [inside] at mine
  obtain ⟨before, begun, taken, owns, begins, _, seen, run⟩ := mine
  rw [Access.play_done, List.append_nil] at run
  refine ⟨_, .run owns begins, ?_⟩
  rw [run]
  apply follows.moved
  · exact protocol.lasts follows.ready taken
  · exact rfl
  · exact fun other different => (follows.each other).outside (outside other different)
  · exact fun _ _ => seen
  · exact False.elim
  · exact False.elim

/-- A process that does not write dies without a trace. -/
theorem vanishes (follows : traffic.Follows protocol sections)
    (reads : ¬ (traffic.activity process).Writes)
    (unseen : medium.view shared = medium.view traffic.shared)
    (kept : (traffic.activity process).Inside ∨ shared = traffic.shared) :
    ∃ after, Sections.Step protocol sections (.die process) after ∧
      (traffic.moved process shared .gone).Follows protocol after := by
  refine ⟨_, .vanish, ?_⟩
  apply follows.moved follows.ready
  · exact True.intro
  · intro other _
    rcases kept with inside | rfl
    · exact (follows.each other).reader (follows.nobody_writes inside reads other) rfl
    · exact follows.each other
  · exact fun _ nobody => unseen.trans (follows.settled_of_others reads nobody)
  · exact False.elim
  · exact False.elim

/-- The writer dies and leaves the commands it issued, and what it left of one more. -/
theorem writerDies (follows : traffic.Follows protocol sections) (more : List κ)
    (inside : traffic.activity process = .inside .exclusive rest)
    (leaves : ∀ taken, protocol.Leaves (taken ++ (rest.play medium traffic.shared).2)
      (taken ++ more)) :
    ∃ after, Sections.Step protocol sections (.die process) after ∧
      (traffic.moved process (medium.after traffic.shared more) .gone).Follows protocol after := by
  have outside := follows.writer_bars inside
  have mine := follows.each process
  rw [inside] at mine
  obtain ⟨before, begun, taken, owns, begins, _, seen, run⟩ := mine
  have left := leaves taken
  rw [show taken ++ (rest.play medium traffic.shared).2 =
    (begun.play medium sections.shared).2 by rw [run]] at left
  refine ⟨_, .crash owns begins left, ?_⟩
  apply follows.moved
  · exact protocol.lasts follows.ready _
  · exact True.intro
  · exact fun other different => (follows.each other).outside (outside other different)
  · intro _ _
    rw [Medium.after_append]
    exact medium.seen_after seen more
  · exact False.elim
  · exact False.elim

/-- A step of the traffic is followed at the events that settle, and by nothing at the
others. -/
theorem step {event : TrafficEvent ι} (follows : traffic.Follows protocol sections)
    (taken : Traffic.Step protocol traffic event next) :
    ∃ after, Run (Sections.Step protocol) sections ([event].filter TrafficEvent.settles) after ∧
      next.Follows protocol after := by
  have quietly : ∀ {next : Traffic σ ν τ κ π ι}, next.Follows protocol sections →
      ∃ after, Run (Sections.Step protocol) sections [] after ∧ next.Follows protocol after :=
    fun follows => ⟨sections, .done sections, follows⟩
  have atOnce : ∀ {next : Traffic σ ν τ κ π ι} {event : TrafficEvent ι},
      (∃ after, Sections.Step protocol sections event after ∧ next.Follows protocol after) →
      ∃ after, Run (Sections.Step protocol) sections [event] after ∧
        next.Follows protocol after := by
    rintro next event ⟨after, step, follows⟩
    exact ⟨after, .next step (.done after), follows⟩
  cases taken with
  | @turn process own changed rests turns =>
    have mine := follows.each process
    rw [rests] at mine
    exact atOnce ⟨_, .turn mine turns, follows.turn rests⟩
  | enter rests begins grants => exact quietly (follows.enter rests begins grants)
  | @observe process mode next inside =>
    apply quietly
    cases mode with
    | shared =>
      have same := follows.settled (follows.reader_bars inside)
      rw [same]
      exact follows.readerAccess inside rfl fun _ calm => calm
    | exclusive => exact follows.writerAccess [] inside (fun deaf => deaf _) rfl rfl
  | @list process mode next inside =>
    apply quietly
    cases mode with
    | shared => exact follows.readerAccess inside rfl fun _ calm => calm _
    | exclusive =>
      have mine := follows.each process
      rw [inside] at mine
      obtain ⟨_, _, _, _, _, deaf, _⟩ := mine
      exact deaf.elim
  | @write process mode command next inside =>
    apply quietly
    cases mode with
    | shared =>
      have mine := follows.each process
      rw [inside] at mine
      obtain ⟨_, _, value, _, _, _, quiet, _⟩ := mine
      exact follows.readerAccess inside (quiet _) fun _ calm => calm.2
    | exclusive => exact follows.writerAccess [command] inside id rfl rfl
  | @leave process mode own inside =>
    apply atOnce
    cases mode with
    | shared => exact follows.readerLeaves inside
    | exclusive => exact follows.writerLeaves inside
  | @die process alive =>
    apply atOnce
    rcases doing : traffic.activity process with state | ⟨mode, rest⟩ | _
    · exact follows.vanishes (by rw [doing]; exact id) rfl (.inr rfl)
    · cases mode with
      | shared => exact follows.vanishes (by rw [doing]; exact id) rfl (.inr rfl)
      | exclusive =>
        exact follows.writerDies [] doing fun taken => by
          rw [List.append_nil]
          exact .between taken _
    · exact absurd doing alive
  | @dieWriting process mode command left next inside cut =>
    apply atOnce
    cases mode with
    | shared =>
      have mine := follows.each process
      rw [inside] at mine
      obtain ⟨_, _, value, _, _, _, quiet, _⟩ := mine
      exact follows.vanishes (by rw [inside]; exact id) (protocol.cutQuiet cut quiet _)
        (.inl (by rw [inside]; exact True.intro))
    | exclusive =>
      exact follows.writerDies [left] inside fun taken => .during taken _ cut

end Traffic.Follows

omit [DecidableEq ι] in
/-- Processes that are all outside sections follow themselves. -/
theorem Traffic.Follows.begin {protocol : Protocol medium π} {shared : σ} {own : ι → π}
    (ready : protocol.Ready (medium.view shared)) :
    Traffic.Follows protocol ⟨shared, fun process => .resting (own process)⟩
      ⟨shared, fun process => some (own process)⟩ where
  ready := ready
  each _ := rfl
  settled _ := rfl
  alone _ _ := False.elim

/-- **Sections under the lock serialize.** The whole sections run in the order in which the
interleaved ones end. -/
theorem Traffic.Follows.run {protocol : Protocol medium π} {traffic final : Traffic σ ν τ κ π ι}
    {sections : Sections σ π ι} {events : List (TrafficEvent ι)}
    (follows : traffic.Follows protocol sections)
    (run : Run (Traffic.Step protocol) traffic events final) :
    ∃ after, Run (Sections.Step protocol) sections (events.filter TrafficEvent.settles) after ∧
      final.Follows protocol after := by
  induction run generalizing sections with
  | done traffic => exact ⟨sections, .done sections, follows⟩
  | @next traffic middle final event events taken _ inductionHypothesis =>
    obtain ⟨between, first, follows⟩ := follows.step taken
    obtain ⟨after, rest, follows⟩ := inductionHypothesis follows
    refine ⟨after, ?_, follows⟩
    rw [← List.singleton_append, List.filter_append]
    exact first.append rest

end Systems

end Singularmem.Library
