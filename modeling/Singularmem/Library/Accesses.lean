import Mathlib.Tactic.Common

/-!
# Programs by their accesses to a shared state

A program over a state it shares with others works access by access, and between any two of
its accesses the others may work. What it sees of the state is the state's view. A listing
tells it more, and a program that is deaf never asks for one: what it does from a state
follows from the state's view.

A command is quiet when it keeps the view. A program is calm where every command it will
issue is quiet, whatever the listings tell: others that see the same view do not notice it,
and it does not notice them.
-/

namespace Singularmem.Library

variable {σ ν τ κ α β : Type}

/-- A program: it ends with a value, or makes an access and goes on. -/
inductive Access (ν τ κ α : Type) : Type
  | done (value : α)
  | observe (next : ν → Access ν τ κ α)
  | list (next : τ → Access ν τ κ α)
  | write (command : κ) (next : Access ν τ κ α)

/-- A shared state: what is seen of it, what is listed of it, and what a command makes of it.
What is seen after a command follows from what was seen before. -/
structure Medium (σ ν τ κ : Type) where
  view : σ → ν
  listing : σ → τ
  apply : σ → κ → σ
  seen : ∀ {state other : σ} (command : κ), view state = view other →
    view (apply state command) = view (apply other command)

namespace Medium

variable (medium : Medium σ ν τ κ)

/-- The state after several commands. -/
def after (state : σ) (commands : List κ) : σ := commands.foldl medium.apply state

@[simp] theorem after_nil (state : σ) : medium.after state [] = state := rfl

@[simp] theorem after_cons (state : σ) (command : κ) (rest : List κ) :
    medium.after state (command :: rest) = medium.after (medium.apply state command) rest := rfl

@[simp] theorem after_append (state : σ) (first second : List κ) :
    medium.after state (first ++ second) = medium.after (medium.after state first) second :=
  List.foldl_append

/-- What is seen after several commands follows from what was seen before. -/
theorem seen_after {state other : σ} (same : medium.view state = medium.view other)
    (commands : List κ) :
    medium.view (medium.after state commands) = medium.view (medium.after other commands) := by
  induction commands generalizing state other with
  | nil => exact same
  | cons command rest inductionHypothesis => exact inductionHypothesis (medium.seen command same)

/-- A command that is never seen. -/
def Quiet (command : κ) : Prop := ∀ state, medium.view (medium.apply state command) = medium.view state

/-- Quiet commands together are not seen. -/
theorem view_after_quiet {commands : List κ} (quiet : ∀ command ∈ commands, medium.Quiet command)
    (state : σ) : medium.view (medium.after state commands) = medium.view state := by
  induction commands generalizing state with
  | nil => rfl
  | cons command rest inductionHypothesis =>
    rw [after_cons, inductionHypothesis fun later member => quiet later (.tail _ member)]
    exact quiet command List.mem_cons_self state

end Medium

namespace Access

/-- One program after another. -/
def bind : Access ν τ κ α → (α → Access ν τ κ β) → Access ν τ κ β
  | done value, rest => rest value
  | observe next, rest => observe fun seen => (next seen).bind rest
  | list next, rest => list fun listed => (next listed).bind rest
  | write command next, rest => write command (next.bind rest)

instance : Monad (Access ν τ κ) where
  pure := done
  bind := bind

/-- Look at a part of what is seen. -/
def look (part : ν → α) : Access ν τ κ α := observe fun seen => done (part seen)

/-- Issue a command. -/
def command (issued : κ) : Access ν τ κ Unit := write issued (done ⟨⟩)

/-- The value of an undisturbed run from a state, and the commands it issues. -/
def play (medium : Medium σ ν τ κ) : Access ν τ κ α → σ → α × List κ
  | done value, _ => (value, [])
  | observe next, state => (next (medium.view state)).play medium state
  | list next, state => (next (medium.listing state)).play medium state
  | write command next, state =>
    let (value, commands) := next.play medium (medium.apply state command)
    (value, command :: commands)

/-- The program never asks for a listing. -/
def Deaf : Access ν τ κ α → Prop
  | done _ => True
  | observe next => ∀ seen, (next seen).Deaf
  | list _ => False
  | write _ next => next.Deaf

/-- From a state that is seen like this the program ends with the value and issues quiet
commands, whatever the listings tell. -/
def Calm (medium : Medium σ ν τ κ) (seen : ν) (value : α) : Access ν τ κ α → Prop
  | done final => final = value
  | observe next => (next seen).Calm medium seen value
  | list next => ∀ listed, (next listed).Calm medium seen value
  | write command next => medium.Quiet command ∧ next.Calm medium seen value

section Plays

variable {medium : Medium σ ν τ κ}

@[simp] theorem play_done (value : α) (state : σ) :
    (done value : Access ν τ κ α).play medium state = (value, []) := rfl

@[simp] theorem play_pure (value : α) (state : σ) :
    (pure value : Access ν τ κ α).play medium state = (value, []) := rfl

@[simp] theorem play_look (part : ν → α) (state : σ) :
    (look part : Access ν τ κ α).play medium state = (part (medium.view state), []) := rfl

@[simp] theorem play_command (issued : κ) (state : σ) :
    (command issued : Access ν τ κ Unit).play medium state = (⟨⟩, [issued]) := rfl

/-- The second program runs in the state the first one's commands leave. -/
theorem play_bind (program : Access ν τ κ α) (rest : α → Access ν τ κ β) (state : σ) :
    (program >>= rest).play medium state =
      let first := program.play medium state
      let second := (rest first.1).play medium (medium.after state first.2)
      (second.1, first.2 ++ second.2) := by
  change (program.bind rest).play medium state = _
  induction program generalizing state with
  | done value => rfl
  | observe next inductionHypothesis => exact inductionHypothesis _ state
  | list next inductionHypothesis => exact inductionHypothesis _ state
  | write command next inductionHypothesis =>
    simp only [bind, play, inductionHypothesis, Medium.after_cons, List.cons_append]

/-- A value that is worked on at the end takes no access. -/
theorem play_bind_pure (program : Access ν τ κ α) (finish : α → β) (state : σ) :
    (program >>= fun value => pure (finish value)).play medium state =
      (finish (program.play medium state).1, (program.play medium state).2) := by
  rw [play_bind]
  dsimp only
  rw [play_pure, List.append_nil]

end Plays

namespace Deaf

theorem pure (value : α) : (Pure.pure value : Access ν τ κ α).Deaf := True.intro

theorem look (part : ν → α) : (Access.look part : Access ν τ κ α).Deaf := fun _ => True.intro

theorem command (issued : κ) : (Access.command issued : Access ν τ κ Unit).Deaf := True.intro

theorem bind {program : Access ν τ κ α} {rest : α → Access ν τ κ β} (first : program.Deaf)
    (second : ∀ value, (rest value).Deaf) : (program >>= rest).Deaf := by
  change (program.bind rest).Deaf
  induction program with
  | done value => exact second value
  | observe next inductionHypothesis => exact fun seen => inductionHypothesis seen (first seen)
  | list next => exact first.elim
  | write command next inductionHypothesis => exact inductionHypothesis first

variable {medium : Medium σ ν τ κ} {program : Access ν τ κ α}

/-- A deaf program runs alike from states that are seen alike. -/
theorem play_eq (deaf : program.Deaf) {state other : σ}
    (same : medium.view state = medium.view other) :
    program.play medium state = program.play medium other := by
  induction program generalizing state other with
  | done value => rfl
  | observe next inductionHypothesis =>
    simp only [play, same]
    exact inductionHypothesis _ (deaf _) same
  | list next => exact deaf.elim
  | write command next inductionHypothesis =>
    simp only [play, inductionHypothesis deaf (medium.seen command same)]

/-- A deaf program whose run issues quiet commands is calm. -/
theorem calm (deaf : program.Deaf) {state : σ}
    (quiet : ∀ command ∈ (program.play medium state).2, medium.Quiet command) :
    program.Calm medium (medium.view state) (program.play medium state).1 := by
  induction program generalizing state with
  | done value => rfl
  | observe next inductionHypothesis => exact inductionHypothesis _ (deaf _) quiet
  | list next => exact deaf.elim
  | write command next inductionHypothesis =>
    have unseen := quiet command List.mem_cons_self
    refine ⟨unseen, ?_⟩
    rw [← unseen state]
    exact inductionHypothesis deaf fun later member => quiet later (.tail _ member)

end Deaf

namespace Calm

variable {medium : Medium σ ν τ κ} {seen : ν} {program : Access ν τ κ α} {value : α}

/-- A calm program ends with its value, and nothing it does is seen. -/
theorem play {state : σ} (calm : program.Calm medium (medium.view state) value) :
    (program.play medium state).1 = value ∧
      ∀ command ∈ (program.play medium state).2, medium.Quiet command := by
  induction program generalizing state with
  | done final => exact ⟨calm, nofun⟩
  | observe next inductionHypothesis => exact inductionHypothesis _ calm
  | list next inductionHypothesis => exact inductionHypothesis _ (calm _)
  | write command next inductionHypothesis =>
    obtain ⟨unseen, calm⟩ := calm
    rw [← unseen state] at calm
    obtain ⟨same, quiet⟩ := inductionHypothesis calm
    refine ⟨same, ?_⟩
    intro later member
    rcases List.mem_cons.mp member with rfl | member
    · exact unseen
    · exact quiet later member

theorem bind {rest : α → Access ν τ κ β} {final : β} (first : program.Calm medium seen value)
    (second : (rest value).Calm medium seen final) : (program >>= rest).Calm medium seen final := by
  change (program.bind rest).Calm medium seen final
  induction program with
  | done ended =>
    obtain rfl : ended = value := first
    exact second
  | observe next inductionHypothesis => exact inductionHypothesis _ first
  | list next inductionHypothesis => exact fun listed => inductionHypothesis listed (first listed)
  | write command next inductionHypothesis => exact ⟨first.1, inductionHypothesis first.2⟩

end Calm

end Access

end Singularmem.Library
