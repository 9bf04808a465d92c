import Mathlib.Data.List.Infix

/-!
# Crash points of a sequence of steps

An operation changes a persistent state by atomic steps. A crash leaves the
state after some of its first steps. `Throughout` says what holds at every such
point; it is established step by step, one operation part after the other.
-/

namespace Singularmem.Library

universe u v
variable {State : Type u} {Step : Type v} (apply : State → Step → State)

/-- The property holds in every state a crash can leave: after each of the
first steps, none and all of them included. -/
def Throughout (holds : State → Prop) (state : State) (steps : List Step) : Prop :=
  ∀ done, done <+: steps → holds (done.foldl apply state)

namespace Throughout

variable {apply} {holds weaker : State → Prop} {state : State}

/-- The property holds before the first step. -/
theorem start {steps : List Step} (all : Throughout apply holds state steps) : holds state :=
  all [] List.nil_prefix

/-- The property holds when no step is left. -/
theorem finish {steps : List Step} (all : Throughout apply holds state steps) :
    holds (steps.foldl apply state) :=
  all steps (List.prefix_refl steps)

/-- Without steps there is a single crash point. -/
@[simp] theorem nil_iff : Throughout apply holds state [] ↔ holds state := by
  constructor
  · exact start
  · intro held done isPrefix
    rw [List.prefix_nil.mp isPrefix]
    exact held

/-- The crash points of a first step and the rest. -/
theorem cons_iff {step : Step} {steps : List Step} :
    Throughout apply holds state (step :: steps) ↔
      holds state ∧ Throughout apply holds (apply state step) steps := by
  constructor
  · intro all
    refine ⟨all.start, ?_⟩
    intro done isPrefix
    exact all (step :: done) (List.cons_prefix_cons.mpr ⟨rfl, isPrefix⟩)
  · rintro ⟨held, rest⟩ done isPrefix
    cases done with
    | nil => exact held
    | cons other done =>
      obtain ⟨same, tail⟩ := List.cons_prefix_cons.mp isPrefix
      subst same
      exact rest done tail

/-- The crash points of two parts in sequence. -/
theorem append_iff {first second : List Step} :
    Throughout apply holds state (first ++ second) ↔
      Throughout apply holds state first ∧
        Throughout apply holds (first.foldl apply state) second := by
  induction first generalizing state with
  | nil =>
    simp only [List.nil_append, List.foldl_nil, nil_iff]
    exact ⟨fun all => ⟨all.start, all⟩, And.right⟩
  | cons step rest inductionHypothesis =>
    rw [List.cons_append, cons_iff, cons_iff, inductionHypothesis, List.foldl_cons, and_assoc]

/-- What follows from the property also holds throughout. -/
theorem imp {steps : List Step} (weaken : ∀ state, holds state → weaker state)
    (all : Throughout apply holds state steps) : Throughout apply weaker state steps :=
  fun done isPrefix => weaken _ (all done isPrefix)

end Throughout

end Singularmem.Library
