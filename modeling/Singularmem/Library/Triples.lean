import Singularmem.Library.Effects

/-!
# What a computation establishes

A triple says what holds of the state after a computation, when it returns and when it
throws, wherever a condition held before. It is proved along the computation, one rule for
each way of building one.
-/

namespace Singularmem.Library

universe u
variable {ε σ α β : Type u}

namespace Effect

/-- Started where `before` holds, the computation returns a value `after` holds for, or
throws an error `thrown` holds for, with the state it leaves. -/
def Triple (before : σ → Prop) (action : Effect ε σ α) (after : α → σ → Prop)
    (thrown : ε → σ → Prop) : Prop :=
  ∀ state, before state →
    (∀ value final, exec action state = (.ok value, final) → after value final) ∧
      ∀ error final, exec action state = (.error error, final) → thrown error final

namespace Triple

variable {before : σ → Prop} {after : α → σ → Prop} {thrown : ε → σ → Prop}

/-- Less may be asked before, and more granted afterwards. -/
theorem weaken {action : Effect ε σ α} {earlier : σ → Prop} {later : α → σ → Prop}
    {failed : ε → σ → Prop} (triple : Triple before action after thrown)
    (asked : ∀ state, earlier state → before state)
    (granted : ∀ value state, after value state → later value state)
    (refused : ∀ error state, thrown error state → failed error state) :
    Triple earlier action later failed := by
  intro state held
  obtain ⟨returns, throws⟩ := triple state (asked state held)
  constructor
  · intro value final ran
    exact granted value final (returns value final ran)
  · intro error final ran
    exact refused error final (throws error final ran)

/-- What is established however the computation ends. -/
theorem ending {action : Effect ε σ α} {final : σ → Prop}
    (triple : Triple before action (fun _ => final) fun _ => final) {state : σ}
    (held : before state) : final (exec action state).2 := by
  obtain ⟨returns, throws⟩ := triple state held
  rcases outcome : exec action state with ⟨error | value, reached⟩
  · exact throws error reached outcome
  · exact returns value reached outcome

/-- A fact that holds before is at hand throughout. -/
theorem fact {action : Effect ε σ α} {known : Prop}
    (rest : known → Triple before action after thrown) :
    Triple (fun state => known ∧ before state) action after thrown :=
  fun state held => rest held.1 state held.2

theorem pure {value : α} (established : ∀ state, before state → after value state) :
    Triple before (Pure.pure value : Effect ε σ α) after thrown := by
  intro state held
  constructor
  · rintro _ _ ⟨⟩
    exact established state held
  · rintro _ _ ⟨⟩

theorem throw {error : ε} (established : ∀ state, before state → thrown error state) :
    Triple before (MonadExcept.throw error : Effect ε σ α) after thrown := by
  intro state held
  constructor
  · rintro _ _ ⟨⟩
  · rintro _ _ ⟨⟩
    exact established state held

theorem modify {update : σ → σ} {after : PUnit → σ → Prop}
    (established : ∀ state, before state → after ⟨⟩ (update state)) :
    Triple before (modify update : Effect ε σ PUnit) after thrown := by
  intro state held
  constructor
  · rintro _ _ ⟨⟩
    exact established state held
  · rintro _ _ ⟨⟩

theorem ofExcept {outcome : Except ε α}
    (returns : ∀ value, outcome = .ok value → ∀ state, before state → after value state)
    (throws : ∀ error, outcome = .error error → ∀ state, before state → thrown error state) :
    Triple before (Effect.ofExcept outcome : Effect ε σ α) after thrown := by
  intro state held
  rw [exec_ofExcept]
  constructor
  · rintro value _ ⟨⟩
    exact returns value rfl state held
  · rintro error _ ⟨⟩
    exact throws error rfl state held

/-- What the first half establishes is what the second half starts from. -/
theorem bind {action : Effect ε σ α} {next : α → Effect ε σ β} {final : β → σ → Prop}
    (first : Triple before action after thrown)
    (second : ∀ value, Triple (after value) (next value) final thrown) :
    Triple before (action >>= next) final thrown := by
  intro state held
  obtain ⟨returns, throws⟩ := first state held
  rcases outcome : exec action state with ⟨error | value, middle⟩
  · rw [exec_bind_error outcome]
    constructor
    · rintro _ _ ⟨⟩
    · rintro _ _ ⟨⟩
      exact throws error middle outcome
  · rw [exec_bind_ok outcome]
    exact second value middle (returns value middle outcome)

/-- After reading the state, what follows starts from the state that was read. -/
theorem get_bind {next : σ → Effect ε σ α}
    (rest : ∀ state, before state → Triple (· = state) (next state) after thrown) :
    Triple before (MonadState.get >>= next) after thrown := by
  intro state held
  rw [exec_bind_ok (exec_get state)]
  exact rest state held state rfl

/-- A handler starts from what a throw establishes. -/
theorem tryCatch {action : Effect ε σ α} {handler : ε → Effect ε σ α} {failed : ε → σ → Prop}
    (first : Triple before action after failed)
    (second : ∀ error, Triple (failed error) (handler error) after thrown) :
    Triple before (MonadExcept.tryCatch action handler) after thrown := by
  intro state held
  obtain ⟨returns, throws⟩ := first state held
  rw [exec_tryCatch]
  rcases outcome : exec action state with ⟨error | value, middle⟩
  · exact second error middle (throws error middle outcome)
  · constructor
    · rintro _ _ ⟨⟩
      exact returns value middle outcome
    · rintro _ _ ⟨⟩

/-- Work on a part establishes of the whole what it establishes of the part. -/
theorem zoom {τ : Type u} {part : τ → σ} {replace : σ → τ → τ} {action : Effect ε σ α}
    {whole : τ → Prop} {settled : α → τ → Prop} {failed : ε → τ → Prop}
    (each : ∀ state, whole state → Triple (· = part state) action
      (fun value final => settled value (replace final state))
      (fun error final => failed error (replace final state))) :
    Triple whole (Effect.zoom part replace action) settled failed := by
  intro state held
  obtain ⟨returns, throws⟩ := each state held (part state) rfl
  rw [exec_zoom]
  constructor
  · rintro value _ ran
    obtain ⟨outcome, rfl⟩ := Prod.mk.inj ran
    exact returns value _ (Prod.ext outcome rfl)
  · rintro error _ ran
    obtain ⟨outcome, rfl⟩ := Prod.mk.inj ran
    exact throws error _ (Prod.ext outcome rfl)

end Triple

end Effect

end Singularmem.Library
