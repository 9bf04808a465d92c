import Singularmem.Library.Effects

/-!
# Computations that write at most once

A computation may read its state, leave early and write at the end. Where it only reads, the
state is as before whatever it returned; where one step writes and nothing may throw after it,
the state has made one move if the computation returned, or none. The rules compose by the
sequence of the computation.
-/

namespace Singularmem.Library.Effect

universe u
variable {ε ε' σ α β : Type u}

/-- Run a computation under other errors. -/
theorem exec_adapt (change : ε → ε') (action : Effect ε σ α) (state : σ) :
    exec (ExceptT.adapt change action : Effect ε' σ α) state =
      ((exec action state).1.mapError change, (exec action state).2) := rfl

/-- A computation that leaves the state as it is. -/
def Reads (action : Effect ε σ α) : Prop := ∀ state, (exec action state).2 = state

namespace Reads

theorem pure (value : α) : Reads (Pure.pure value : Effect ε σ α) := fun _ => rfl

theorem throw (error : ε) : Reads (MonadExcept.throw error : Effect ε σ α) := fun _ => rfl

theorem get : Reads (MonadState.get : Effect ε σ σ) := fun _ => rfl

theorem ofExcept (outcome : Except ε α) : Reads (Effect.ofExcept outcome : Effect ε σ α) :=
  fun state => by rw [exec_ofExcept]

theorem throwIf (condition : Prop) [Decidable condition] (error : ε) :
    Reads (Effect.throwIf condition error : Effect ε σ PUnit) :=
  fun state => by rw [exec_throwIf]

/-- The state a reading computation left. -/
theorem after {action : Effect ε σ α} {state final : σ} {outcome : Except ε α}
    (reads : Reads action) (ran : exec action state = (outcome, final)) : final = state := by
  have kept := reads state
  rwa [ran] at kept

theorem bind {action : Effect ε σ α} {next : α → Effect ε σ β} (first : Reads action)
    (second : ∀ value, Reads (next value)) : Reads (action >>= next) := by
  intro state
  rw [exec_bind]
  rcases ran : exec action state with ⟨error | value, middle⟩
  · exact first.after ran
  · rw [first.after ran]
    exact second value state

theorem map (update : α → β) {action : Effect ε σ α} (reads : Reads action) :
    Reads (update <$> action) := by
  intro state
  rw [exec_map]
  exact reads state

theorem adapt (change : ε → ε') {action : Effect ε σ α} (reads : Reads action) :
    Reads (ExceptT.adapt change action : Effect ε' σ α) := reads

/-- A computation whose first step throws reads. -/
theorem bind_of_throws {action : Effect ε σ α} {next : α → Effect ε σ β} {error : ε}
    (throws : ∀ state, exec action state = (.error error, state)) : Reads (action >>= next) := by
  intro state
  rw [exec_bind, throws]

end Reads

/-- A computation that leaves the state as it is, or returns and has made one move. -/
def MovesOnce (move : σ → σ → Prop) (action : Effect ε σ α) : Prop :=
  ∀ state outcome after, exec action state = (outcome, after) →
    after = state ∨ (∃ value, outcome = .ok value) ∧ move state after

namespace MovesOnce

variable {move : σ → σ → Prop}

theorem of_reads {action : Effect ε σ α} (reads : Reads action) : MovesOnce move action :=
  fun _ _ _ ran => .inl (reads.after ran)

/-- A sequence moves once where its first part reads. -/
theorem bind {action : Effect ε σ α} {next : α → Effect ε σ β} (first : Reads action)
    (second : ∀ value, MovesOnce move (next value)) : MovesOnce move (action >>= next) := by
  intro state outcome after ran
  rw [exec_bind] at ran
  rcases began : exec action state with ⟨error | value, middle⟩
  · rw [began] at ran
    cases ran
    exact .inl (first.after began)
  · rw [began] at ran
    obtain rfl := first.after began
    exact second value middle outcome after ran

theorem map (update : α → β) {action : Effect ε σ α} (moves : MovesOnce move action) :
    MovesOnce move (update <$> action) := by
  intro state outcome after ran
  rw [exec_map] at ran
  rcases began : exec action state with ⟨result, middle⟩
  rw [began] at ran
  cases ran
  rcases moves state result middle began with same | ⟨⟨value, rfl⟩, moved⟩
  · exact .inl same
  · exact .inr ⟨⟨_, rfl⟩, moved⟩

/-- What is returned after the move may be computed from its value. -/
theorem bind_pure {action : Effect ε σ α} (moves : MovesOnce move action) (value : α → β) :
    MovesOnce move (action >>= fun result => Pure.pure (value result)) := by
  intro state outcome after ran
  rw [exec_bind] at ran
  rcases began : exec action state with ⟨error | result, middle⟩
  · rw [began] at ran
    cases ran
    rcases moves state _ _ began with same | ⟨⟨_, ⟨⟩⟩, _⟩
    exact .inl same
  · rw [began] at ran
    cases ran
    exact (moves state _ _ began).imp_right fun moved => ⟨⟨_, rfl⟩, moved.2⟩

theorem adapt (change : ε → ε') {action : Effect ε σ α} (moves : MovesOnce move action) :
    MovesOnce move (ExceptT.adapt change action : Effect ε' σ α) := by
  intro state outcome after ran
  rw [exec_adapt] at ran
  rcases began : exec action state with ⟨result, middle⟩
  rw [began] at ran
  cases ran
  rcases moves state result middle began with same | ⟨⟨value, rfl⟩, moved⟩
  · exact .inl same
  · exact .inr ⟨⟨value, rfl⟩, moved⟩

end MovesOnce

end Singularmem.Library.Effect
