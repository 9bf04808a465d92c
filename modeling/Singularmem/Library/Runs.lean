import Mathlib.Data.List.Basic

/-!
# Runs of a labelled transition system

A run follows finitely many labelled steps. Two rules carry a property along a
run: an invariant of the states, and a relation between the labels taken so far
and the state they lead to. The second admits steps by a condition on the whole
past, which is how a run is restricted to fresh names or a nondecreasing clock.
-/

namespace Singularmem.Library

universe u v
variable {State : Type u} {Label : Type v} {step : State → Label → State → Prop}

/-- The states a run leads to, with its labels in the order they were taken. -/
inductive Run (step : State → Label → State → Prop) : State → List Label → State → Prop
  | done (state : State) : Run step state [] state
  | next {state middle final : State} {label : Label} {labels : List Label}
      (taken : step state label middle) (rest : Run step middle labels final) :
      Run step state (label :: labels) final

namespace Run

/-- A run of a system is a run of one with more steps. -/
theorem mono {other : State → Label → State → Prop}
    (weaker : ∀ state label next, step state label next → other state label next)
    {start final : State} {labels : List Label} (run : Run step start labels final) :
    Run other start labels final := by
  induction run with
  | done state => exact .done state
  | next taken _ inductionHypothesis => exact .next (weaker _ _ _ taken) inductionHypothesis

/-- Two runs that meet make one run. -/
theorem append {start middle final : State} {labels others : List Label}
    (first : Run step start labels middle) (second : Run step middle others final) :
    Run step start (labels ++ others) final := by
  induction first with
  | done state => exact second
  | next taken _ inductionHypothesis => exact .next taken (inductionHypothesis second)

/-- One more step extends a run at its end. -/
theorem snoc {start middle final : State} {labels : List Label} {label : Label}
    (past : Run step start labels middle) (taken : step middle label final) :
    Run step start (labels ++ [label]) final :=
  past.append (.next taken (.done final))

/-- A run over concatenated labels passes through a state between them. -/
theorem split {start final : State} {labels others : List Label}
    (run : Run step start (labels ++ others) final) :
    ∃ middle, Run step start labels middle ∧ Run step middle others final := by
  induction labels generalizing start with
  | nil => exact ⟨start, .done start, run⟩
  | cons label rest inductionHypothesis =>
    obtain ⟨_, taken, tail⟩ : ∃ middle, step start label middle ∧
        Run step middle (rest ++ others) final := by
      cases run with
      | next taken tail => exact ⟨_, taken, tail⟩
    obtain ⟨middle, before, after⟩ := inductionHypothesis tail
    exact ⟨middle, .next taken before, after⟩

/-- A single label is a single step. -/
theorem single {start final : State} {label : Label}
    (run : Run step start [label] final) : step start label final := by
  cases run with
  | next taken rest =>
    cases rest
    exact taken

/-- A property every step preserves holds wherever a run that starts in it ends. -/
theorem invariant {holds : State → Prop}
    (preserved : ∀ state label next, holds state → step state label next → holds next)
    {start final : State} {labels : List Label} (run : Run step start labels final)
    (initially : holds start) : holds final := by
  induction run with
  | done _ => exact initially
  | next taken _ inductionHypothesis =>
    exact inductionHypothesis (preserved _ _ _ initially taken)

/-- A run of a system whose steps another system can follow is followed by a run of that
system. -/
theorem simulated {Other : Type u} {relates : State → Other → Prop}
    {follows : Other → Label → Other → Prop}
    (simulates : ∀ state other label next, relates state other → step state label next →
      ∃ after, follows other label after ∧ relates next after)
    {start final : State} {labels : List Label} (run : Run step start labels final)
    {other : Other} (initially : relates start other) :
    ∃ reached, Run follows other labels reached ∧ relates final reached := by
  induction run generalizing other with
  | done _ => exact ⟨other, .done other, initially⟩
  | next taken _ inductionHypothesis =>
    obtain ⟨after, followed, related⟩ := simulates _ _ _ _ initially taken
    obtain ⟨reached, rest, ending⟩ := inductionHypothesis related
    exact ⟨reached, .next followed rest, ending⟩

/-- A relation between the labels so far and the state they lead to is carried
along every run all of whose prefixes are admitted. -/
theorem history (holds : List Label → State → Prop) (admitted : List Label → Prop)
    (preserved : ∀ past state label next, holds past state → step state label next →
      admitted (past ++ [label]) → holds (past ++ [label]) next)
    {start final : State} {labels : List Label} (run : Run step start labels final)
    (initially : holds [] start) (allowed : ∀ before, before <+: labels → admitted before) :
    holds labels final := by
  suffices extended : ∀ past, holds past start →
      (∀ before, before <+: past ++ labels → admitted before) → holds (past ++ labels) final from
    extended [] initially allowed
  clear allowed initially
  induction run with
  | done _ =>
    intro past established _
    simpa using established
  | @next state middle final label labels taken _ inductionHypothesis =>
    intro past established allowed
    have joined : past ++ label :: labels = past ++ [label] ++ labels := by simp
    rw [joined] at allowed ⊢
    have step := preserved past state label middle established taken
      (allowed (past ++ [label]) (List.prefix_append _ _))
    exact inductionHypothesis (past ++ [label]) step allowed

/-- Take computed steps one after the other. -/
def play (advance : State → Label → Option State) (start : State) : List Label → Option State
  | [] => some start
  | label :: rest => (advance start label).bind fun next => play advance next rest

/-- Computed steps are a run. -/
theorem of_play {advance : State → Label → Option State} {start final : State}
    {labels : List Label} (played : play advance start labels = some final) :
    Run (fun state label next => advance state label = some next) start labels final := by
  induction labels generalizing start with
  | nil =>
    cases played
    exact .done _
  | cons label rest inductionHypothesis =>
    obtain ⟨next, advanced, played⟩ := Option.bind_eq_some_iff.mp played
    exact .next advanced (inductionHypothesis played)

end Run

end Singularmem.Library
