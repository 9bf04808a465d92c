import Mathlib.Data.List.Infix
import Mathlib.Tactic.Common

/-!
# Lines of a growing text

A text is cut after each separator; what follows the last one is a line of its own. Where
a text grows, its lines stay, but for an unterminated last one, which the lines of the
longer text complete. Lines are numbered and read one after the other, with a state that
is passed along.
-/

namespace Singularmem.Library

universe u v w
variable {α : Type u} {σ : Type v} {β : Type w}

/-- The lines of a text, each with its separator. -/
def rawLines [DecidableEq α] (separator : α) : List α → List (List α)
  | [] => []
  | element :: rest =>
    if element = separator then [element] :: rawLines separator rest
    else
      match rawLines separator rest with
      | [] => [[element]]
      | line :: others => (element :: line) :: others

/-- One list of lines goes on where another ends, and may complete its last line. -/
def Continues (short long : List (List α)) : Prop :=
  short <+: long ∨ ∃ before torn more others,
    short = before ++ [torn] ∧ long = before ++ (torn ++ more) :: others

/-- The same first line on both sides. -/
theorem Continues.cons {short long : List (List α)} (continues : Continues short long)
    (line : List α) : Continues (line :: short) (line :: long) := by
  rcases continues with initial | ⟨before, torn, more, others, rfl, rfl⟩
  · exact .inl ((List.prefix_cons_inj line).mpr initial)
  · exact .inr ⟨line :: before, torn, more, others, rfl, rfl⟩

/-- Every line of the shorter list begins a line of the longer one. -/
theorem Continues.begins {short long : List (List α)} (continues : Continues short long)
    {line : List α} (member : line ∈ short) : ∃ more, line ++ more ∈ long := by
  rcases continues with ⟨after, rfl⟩ | ⟨before, torn, more, others, rfl, rfl⟩
  · exact ⟨[], by simpa using .inl member⟩
  · rcases List.mem_append.mp member with early | last
    · exact ⟨[], by simpa using .inl early⟩
    · rw [List.mem_singleton.mp last]
      exact ⟨more, List.mem_append_right before List.mem_cons_self⟩

/-- **The lines of a longer text** go on where those of the shorter one end. -/
theorem rawLines_continues [DecidableEq α] (separator : α) (front rest : List α) :
    Continues (rawLines separator front) (rawLines separator (front ++ rest)) := by
  induction front with
  | nil => exact .inl List.nil_prefix
  | cons element front inductionHypothesis =>
    rw [List.cons_append, rawLines, rawLines]
    split
    case isTrue => exact inductionHypothesis.cons [element]
    case isFalse =>
      rcases inductionHypothesis with ⟨after, long⟩ | ⟨before, torn, more, others, short, long⟩
      · rw [← long]
        cases rawLines separator front with
        | nil =>
          refine .inr ⟨[], [element], ?_⟩
          cases after with
          | nil => exact ⟨[], [], rfl, rfl⟩
          | cons line others => exact ⟨line, others, rfl, rfl⟩
        | cons line others =>
          exact .inl ⟨after, rfl⟩
      · rw [short, long]
        cases before with
        | nil => exact .inr ⟨[], element :: torn, more, others, rfl, rfl⟩
        | cons line before => exact .inr ⟨(element :: line) :: before, torn, more, others, rfl, rfl⟩

/-- Read numbered lines with a state. -/
def readLines (step : σ → Nat → α → β × σ) : σ → Nat → List α → List β
  | _, _, [] => []
  | state, number, line :: rest =>
    (step state number line).1 :: readLines step (step state number line).2 (number + 1) rest

/-- The state after reading lines. -/
def stateAfter (step : σ → Nat → α → β × σ) : σ → Nat → List α → σ
  | state, _, [] => state
  | state, number, line :: rest =>
    stateAfter step (step state number line).2 (number + 1) rest

/-- Reading more lines goes on from the state and the number reached. -/
theorem readLines_append (step : σ → Nat → α → β × σ) (state : σ) (number : Nat)
    (first second : List α) :
    readLines step state number (first ++ second) =
      readLines step state number first ++
        readLines step (stateAfter step state number first) (number + first.length) second := by
  induction first generalizing state number with
  | nil => rfl
  | cons line rest inductionHypothesis =>
    rw [List.cons_append, readLines, readLines, inductionHypothesis, stateAfter, List.cons_append,
      List.length_cons, Nat.add_right_comm, Nat.add_assoc]

/-- What holds of the outcome of every step holds of every outcome. -/
theorem forall_readLines {step : σ → Nat → α → β × σ} {holds : β → Prop}
    (each : ∀ state number line, holds (step state number line).1) (state : σ) (number : Nat)
    (lines : List α) : ∀ outcome ∈ readLines step state number lines, holds outcome := by
  induction lines generalizing state number with
  | nil => simp [readLines]
  | cons line rest inductionHypothesis =>
    rw [readLines]
    exact List.forall_mem_cons.mpr ⟨each state number line, inductionHypothesis _ _⟩

/-- **Reading a growing text.** Where a torn line yields nothing, or what its completion
yields, what the shorter text yields is where what the longer one yields begins. -/
theorem readLines_continues {γ : Type w} {step : σ → Nat → List α → β × σ} {yields : β → List γ}
    {short long : List (List α)} (continues : Continues short long)
    (tears : ∀ before torn more others, short = before ++ [torn] →
      long = before ++ (torn ++ more) :: others → ∀ state number,
        yields (step state number torn).1 = [] ∨
          yields (step state number torn).1 = yields (step state number (torn ++ more)).1)
    (state : σ) (number : Nat) :
    (readLines step state number short).flatMap yields <+:
      (readLines step state number long).flatMap yields := by
  rcases continues with ⟨after, rfl⟩ | ⟨before, torn, more, others, rfl, rfl⟩
  · rw [readLines_append, List.flatMap_append]
    exact List.prefix_append _ _
  · rw [readLines_append, readLines_append, List.flatMap_append, List.flatMap_append]
    refine (List.prefix_append_right_inj _).mpr ?_
    rw [readLines, readLines, readLines, List.flatMap_cons, List.flatMap_cons, List.flatMap_nil,
      List.append_nil]
    rcases tears before torn more others rfl rfl (stateAfter step state number before)
      (number + before.length) with none | same
    · rw [none]
      exact List.nil_prefix
    · rw [same]
      exact List.prefix_append _ _

end Singularmem.Library
