import Mathlib.Tactic.Common

/-!
# Fallible state updates

A computation over a state either returns a value or throws, and keeps the state
it reached in both cases. This is the meaning of code that mutates through a
reference and leaves early on an error: nothing done before the error is undone.

`exec` runs a computation from a state. The equations below compute it through
every primitive, so that no proof opens the transformer stack.
-/

namespace Singularmem.Library

universe u
variable {ε σ α β : Type u}

/-- A sequence of fallible steps that returned ran through both. -/
theorem except_bind_returned {first : Except ε α} {next : α → Except ε β} {result : β}
    (returned : (first >>= next) = .ok result) :
    ∃ value, first = .ok value ∧ next value = .ok result := by
  rcases first with error | value
  · cases returned
  · exact ⟨value, rfl, returned⟩

/-- A traversal that returned computed every value from an element. -/
theorem exists_of_mem_mapM {compute : α → Except ε β} {inputs : List α} {outputs : List β}
    (returned : inputs.mapM compute = .ok outputs) {output : β} (member : output ∈ outputs) :
    ∃ input ∈ inputs, compute input = .ok output := by
  induction inputs generalizing outputs with
  | nil =>
    cases returned
    cases member
  | cons input rest inductionHypothesis =>
    rw [List.mapM_cons] at returned
    rcases first : compute input with error | value
    · rw [first] at returned
      cases returned
    · rcases others : rest.mapM compute with error | values
      · rw [first, others] at returned
        cases returned
      · rw [first, others] at returned
        cases returned
        rcases List.mem_cons.mp member with rfl | later
        · exact ⟨input, List.mem_cons_self, first⟩
        · obtain ⟨found, foundIn, computed⟩ := inductionHypothesis others later
          exact ⟨found, List.mem_cons_of_mem input foundIn, computed⟩

/-- A traversal that returned has a value for each element. -/
theorem mapM_returned_length {compute : α → Except ε β} {inputs : List α} {outputs : List β}
    (returned : inputs.mapM compute = .ok outputs) : outputs.length = inputs.length := by
  induction inputs generalizing outputs with
  | nil =>
    cases returned
    rfl
  | cons input rest inductionHypothesis =>
    rw [List.mapM_cons] at returned
    obtain ⟨value, _, returned⟩ := except_bind_returned returned
    obtain ⟨values, others, returned⟩ := except_bind_returned returned
    cases returned
    rw [List.length_cons, List.length_cons, inductionHypothesis others]

/-- A sequence of fallible steps that failed failed in one of them. -/
theorem except_bind_threw {first : Except ε α} {next : α → Except ε β} {error : ε}
    (threw : (first >>= next) = .error error) :
    first = .error error ∨ ∃ value, first = .ok value ∧ next value = .error error := by
  rcases first with failure | value
  · cases threw
    exact .inl rfl
  · exact .inr ⟨value, rfl, threw⟩

/-- A traversal that failed failed at an element. -/
theorem mapM_threw {compute : α → Except ε β} {inputs : List α} {error : ε}
    (threw : inputs.mapM compute = .error error) : ∃ input ∈ inputs, compute input = .error error := by
  induction inputs with
  | nil => cases threw
  | cons input rest inductionHypothesis =>
    rw [List.mapM_cons] at threw
    rcases except_bind_threw threw with failed | ⟨value, _, threw⟩
    · exact ⟨input, List.mem_cons_self, failed⟩
    · rcases except_bind_threw threw with failed | ⟨values, _, threw⟩
      · obtain ⟨found, member, failed⟩ := inductionHypothesis failed
        exact ⟨found, List.mem_cons_of_mem input member, failed⟩
      · cases threw

/-- A traversal returns where every element does. -/
theorem mapM_succeeds {compute : α → Except ε β} {inputs : List α}
    (each : ∀ input ∈ inputs, ∃ output, compute input = .ok output) :
    ∃ outputs, inputs.mapM compute = .ok outputs := by
  rcases ran : inputs.mapM compute with error | outputs
  · obtain ⟨input, member, failed⟩ := mapM_threw ran
    obtain ⟨output, returned⟩ := each input member
    rw [returned] at failed
    cases failed
  · exact ⟨outputs, rfl⟩

/-- A traversal returns the values of the elements. -/
theorem mapM_of_each {compute : α → Except ε β} {value : α → β} {inputs : List α}
    (each : ∀ input ∈ inputs, compute input = .ok (value input)) :
    inputs.mapM compute = .ok (inputs.map value) := by
  induction inputs with
  | nil => rfl
  | cons input rest inductionHypothesis =>
    rw [List.mapM_cons, each input List.mem_cons_self,
      inductionHypothesis fun other member => each other (List.mem_cons_of_mem input member)]
    rfl

/-- A traversal that returned has at each place what the element computed. -/
theorem mapM_returned_zip {compute : α → Except ε β} {inputs : List α} {outputs : List β}
    (returned : inputs.mapM compute = .ok outputs) :
    ∀ pair ∈ inputs.zip outputs, compute pair.1 = .ok pair.2 := by
  induction inputs generalizing outputs with
  | nil =>
    rintro pair member
    rw [List.zip_nil_left] at member
    cases member
  | cons input rest inductionHypothesis =>
    rw [List.mapM_cons] at returned
    obtain ⟨value, first, returned⟩ := except_bind_returned returned
    obtain ⟨values, others, returned⟩ := except_bind_returned returned
    cases returned
    intro pair member
    rcases List.mem_cons.mp member with rfl | later
    · exact first
    · exact inductionHypothesis others pair later

/-- A traversal that returned computed a value from every element. -/
theorem mapM_returned_each {compute : α → Except ε β} {inputs : List α} {outputs : List β}
    (returned : inputs.mapM compute = .ok outputs) {input : α} (member : input ∈ inputs) :
    ∃ output, (input, output) ∈ inputs.zip outputs ∧ compute input = .ok output := by
  have firsts : (inputs.zip outputs).map Prod.fst = inputs :=
    List.map_fst_zip (Nat.le_of_eq (mapM_returned_length returned).symm)
  rw [← firsts] at member
  obtain ⟨⟨_, output⟩, paired, rfl⟩ := List.mem_map.mp member
  exact ⟨output, paired, mapM_returned_zip returned _ paired⟩

/-- A traversal whose values tell which element they come from. -/
theorem mapM_returned_map {γ : Type u} {compute : α → Except ε β} {name : α → γ} {named : β → γ}
    {inputs : List α} {outputs : List β} (returned : inputs.mapM compute = .ok outputs)
    (tells : ∀ input output, compute input = .ok output → named output = name input) :
    outputs.map named = inputs.map name := by
  have length := mapM_returned_length returned
  have firsts : (inputs.zip outputs).map Prod.fst = inputs := List.map_fst_zip (Nat.le_of_eq length.symm)
  have seconds : (inputs.zip outputs).map Prod.snd = outputs := List.map_snd_zip (Nat.le_of_eq length)
  calc outputs.map named
      _ = (inputs.zip outputs).map (named ∘ Prod.snd) := by rw [← List.map_map, seconds]
      _ = (inputs.zip outputs).map (name ∘ Prod.fst) :=
        List.map_congr_left fun pair member => tells _ _ (mapM_returned_zip returned pair member)
      _ = inputs.map name := by rw [← List.map_map, firsts]

/-- A computation over `σ` that may throw `ε`; its state survives the throw. -/
abbrev Effect (ε σ : Type u) := ExceptT ε (StateM σ)

namespace Effect

/-- Run a computation: its outcome and the state it leaves. -/
def exec (action : Effect ε σ α) (state : σ) : Except ε α × σ :=
  StateT.run (ExceptT.run action) state

@[simp] theorem exec_pure (value : α) (state : σ) :
    exec (pure value : Effect ε σ α) state = (.ok value, state) := rfl

@[simp] theorem exec_throw (error : ε) (state : σ) :
    exec (throw error : Effect ε σ α) state = (.error error, state) := rfl

@[simp] theorem exec_get (state : σ) :
    exec (get : Effect ε σ σ) state = (.ok state, state) := rfl

@[simp] theorem exec_set (next state : σ) :
    exec (set next : Effect ε σ PUnit) state = (.ok ⟨⟩, next) := rfl

@[simp] theorem exec_modify (update : σ → σ) (state : σ) :
    exec (modify update : Effect ε σ PUnit) state = (.ok ⟨⟩, update state) := rfl

/-- The second computation runs in the state the first one left, unless the
first threw. -/
theorem exec_bind (action : Effect ε σ α) (next : α → Effect ε σ β) (state : σ) :
    exec (action >>= next) state =
      match exec action state with
      | (.ok value, after) => exec (next value) after
      | (.error error, after) => (.error error, after) := by
  change StateT.run (ExceptT.run action >>= fun outcome => match outcome with
    | .ok value => ExceptT.run (next value)
    | .error error => pure (.error error)) state = _
  rw [StateT.run_bind, exec]
  rcases StateT.run (ExceptT.run action) state with ⟨outcome, after⟩
  cases outcome <;> rfl

/-- A first computation that returns hands its value and state on. -/
theorem exec_bind_ok {action : Effect ε σ α} {next : α → Effect ε σ β} {state after : σ}
    {value : α} (returned : exec action state = (.ok value, after)) :
    exec (action >>= next) state = exec (next value) after := by
  rw [exec_bind, returned]

/-- A first computation that throws ends the whole. -/
theorem exec_bind_error {action : Effect ε σ α} {next : α → Effect ε σ β} {state after : σ}
    {error : ε} (threw : exec action state = (.error error, after)) :
    exec (action >>= next) state = (.error error, after) := by
  rw [exec_bind, threw]

/-- A sequence that returned ran through both of its halves. -/
theorem exec_bind_returned {action : Effect ε σ α} {next : α → Effect ε σ β} {state after : σ}
    {result : β} (returned : exec (action >>= next) state = (.ok result, after)) :
    ∃ value middle, exec action state = (.ok value, middle) ∧
      exec (next value) middle = (.ok result, after) := by
  rw [exec_bind] at returned
  rcases outcome : exec action state with ⟨error | value, middle⟩
  · rw [outcome] at returned
    simp at returned
  · rw [outcome] at returned
    exact ⟨value, middle, rfl, returned⟩

/-- Mapping the value keeps the state. -/
@[simp] theorem exec_map (update : α → β) (action : Effect ε σ α) (state : σ) :
    exec (update <$> action) state =
      ((exec action state).1.map update, (exec action state).2) := by
  rw [map_eq_pure_bind, exec_bind]
  rcases exec action state with ⟨outcome, after⟩
  cases outcome <;> rfl

/-- A handler runs only after a throw, in the state the throw left. -/
theorem exec_tryCatch (action : Effect ε σ α) (handler : ε → Effect ε σ α) (state : σ) :
    exec (tryCatch action handler) state =
      match exec action state with
      | (.ok value, after) => (.ok value, after)
      | (.error error, after) => exec (handler error) after := by
  change StateT.run (ExceptT.run action >>= fun outcome => match outcome with
    | .ok value => pure (.ok value)
    | .error error => ExceptT.run (handler error)) state = _
  rw [StateT.run_bind, exec]
  rcases StateT.run (ExceptT.run action) state with ⟨outcome, after⟩
  cases outcome <;> rfl

/-- A mapped computation that returned mapped a value. -/
theorem map_returned {update : α → β} {action : Effect ε σ α} {state after : σ} {value : β}
    (returned : exec (update <$> action) state = (.ok value, after)) :
    ∃ input, exec action state = (.ok input, after) ∧ value = update input := by
  rw [exec_map] at returned
  rcases outcome : exec action state with ⟨error | input, final⟩
  · rw [outcome] at returned
    cases returned
  · rw [outcome] at returned
    cases returned
    exact ⟨input, rfl, rfl⟩

/-- A mapped computation that threw threw before the mapping. -/
theorem map_threw {update : α → β} {action : Effect ε σ α} {state after : σ} {error : ε}
    (threw : exec (update <$> action) state = (.error error, after)) :
    exec action state = (.error error, after) := by
  rw [exec_map] at threw
  rcases outcome : exec action state with ⟨failure | input, final⟩
  · rw [outcome] at threw
    cases threw
    rfl
  · rw [outcome] at threw
    cases threw

/-- A handled computation that returned returned itself, or its handler did. -/
theorem tryCatch_returned {action : Effect ε σ α} {handler : ε → Effect ε σ α} {state after : σ}
    {value : α} (returned : exec (tryCatch action handler) state = (.ok value, after)) :
    exec action state = (.ok value, after) ∨ ∃ error middle,
      exec action state = (.error error, middle) ∧
        exec (handler error) middle = (.ok value, after) := by
  rw [exec_tryCatch] at returned
  rcases outcome : exec action state with ⟨error | input, final⟩
  · rw [outcome] at returned
    exact .inr ⟨error, final, rfl, returned⟩
  · rw [outcome] at returned
    exact .inl returned

/-- Run a computation on a part of a larger state, and put the part back. -/
def zoom {τ : Type u} (part : τ → σ) (replace : σ → τ → τ) (action : Effect ε σ α) :
    Effect ε τ α :=
  ExceptT.mk fun state =>
    let (outcome, after) := action.exec (part state)
    (outcome, replace after state)

@[simp] theorem exec_zoom {τ : Type u} (part : τ → σ) (replace : σ → τ → τ)
    (action : Effect ε σ α) (state : τ) :
    exec (zoom part replace action) state =
      ((exec action (part state)).1, replace (exec action (part state)).2 state) := rfl

/-- Return a value or throw, without touching the state. -/
def ofExcept : Except ε α → Effect ε σ α
  | .ok value => pure value
  | .error error => throw error

@[simp] theorem exec_ofExcept (outcome : Except ε α) (state : σ) :
    exec (ofExcept outcome : Effect ε σ α) state = (outcome, state) := by
  cases outcome <;> rfl

/-- After a fallible value that was there, the rest runs in the same state. -/
theorem ofExcept_bind_returned {outcome : Except ε α} {next : α → Effect ε σ β} {state after : σ}
    {result : β} (returned : exec (ofExcept outcome >>= next) state = (.ok result, after)) :
    ∃ value, outcome = .ok value ∧ exec (next value) state = (.ok result, after) := by
  obtain ⟨value, middle, first, rest⟩ := exec_bind_returned returned
  rw [exec_ofExcept] at first
  cases first
  exact ⟨value, rfl, rest⟩

/-- Throw if a condition holds. -/
def throwIf (condition : Prop) [Decidable condition] (error : ε) : Effect ε σ PUnit :=
  if condition then throw error else pure ⟨⟩

theorem exec_throwIf (condition : Prop) [Decidable condition] (error : ε) (state : σ) :
    exec (throwIf condition error : Effect ε σ PUnit) state =
      (if condition then .error error else .ok ⟨⟩, state) := by
  unfold throwIf
  split <;> rfl

/-- After a refusal that did not happen, the rest runs in the same state. -/
theorem throwIf_bind_returned {condition : Prop} [Decidable condition] {error : ε}
    {next : PUnit → Effect ε σ β} {state after : σ} {result : β}
    (returned : exec (throwIf condition error >>= next) state = (.ok result, after)) :
    ¬ condition ∧ exec (next ⟨⟩) state = (.ok result, after) := by
  obtain ⟨_, middle, first, rest⟩ := exec_bind_returned returned
  rw [exec_throwIf] at first
  split at first
  · cases first
  · cases first
    exact ⟨‹_›, rest⟩

/-- A property of the state holds after a computation wherever it held before,
whether the computation returned or threw. -/
def Preserves (holds : σ → Prop) (action : Effect ε σ α) : Prop :=
  ∀ state, holds state → holds (exec action state).2

namespace Preserves

variable {holds : σ → Prop}

/-- What was preserved holds in the state a computation left. -/
theorem after {action : Effect ε σ α} {state final : σ} {outcome : Except ε α}
    (preserves : Preserves holds action) (ran : exec action state = (outcome, final))
    (held : holds state) : holds final := by
  have kept := preserves state held
  rw [ran] at kept
  exact kept

/-- A computation that leaves the state alone preserves everything. -/
theorem of_unchanged {action : Effect ε σ α}
    (unchanged : ∀ state, (exec action state).2 = state) : Preserves holds action := by
  intro state held
  rw [unchanged]
  exact held

theorem pure (value : α) : Preserves holds (Pure.pure value : Effect ε σ α) :=
  of_unchanged fun _ => rfl

theorem throw (error : ε) : Preserves holds (MonadExcept.throw error : Effect ε σ α) :=
  of_unchanged fun _ => rfl

theorem get : Preserves holds (MonadState.get : Effect ε σ σ) :=
  of_unchanged fun _ => rfl

theorem ofExcept (outcome : Except ε α) :
    Preserves holds (Effect.ofExcept outcome : Effect ε σ α) :=
  of_unchanged fun state => by rw [exec_ofExcept]

theorem modify {update : σ → σ} (kept : ∀ state, holds state → holds (update state)) :
    Preserves holds (modify update : Effect ε σ PUnit) := kept

theorem throwIf (condition : Prop) [Decidable condition] (error : ε) :
    Preserves holds (Effect.throwIf condition error : Effect ε σ PUnit) :=
  of_unchanged fun state => by rw [exec_throwIf]

/-- Both halves of a sequence preserve, so the sequence does. -/
theorem bind {action : Effect ε σ α} {next : α → Effect ε σ β}
    (first : Preserves holds action) (second : ∀ value, Preserves holds (next value)) :
    Preserves holds (action >>= next) := by
  intro state held
  have after := first state held
  rw [exec_bind]
  rcases outcome : exec action state with ⟨value | value, middle⟩
  · simpa [outcome] using after
  · rw [outcome] at after
    exact second value middle after

/-- After a fallible value, what follows may rely on how it came about. -/
theorem ofExcept_bind {outcome : Except ε α} {next : α → Effect ε σ β}
    (kept : ∀ value, outcome = .ok value → Preserves holds (next value)) :
    Preserves holds (Effect.ofExcept outcome >>= next) := by
  intro state held
  rw [exec_bind, exec_ofExcept]
  rcases outcome with error | value
  · exact held
  · exact kept value rfl state held

/-- After reading the state, what follows may rely on what was read. -/
theorem get_bind {next : σ → Effect ε σ β}
    (kept : ∀ state, holds state → holds (exec (next state) state).2) :
    Preserves holds (MonadState.get >>= next) := by
  intro state held
  rw [exec_bind_ok (exec_get state)]
  exact kept state held

/-- Mapping the value changes nothing more. -/
theorem map (update : α → β) {action : Effect ε σ α} (kept : Preserves holds action) :
    Preserves holds (update <$> action) := by
  intro state held
  rw [exec_map]
  exact kept state held

/-- A handler that preserves what the handled computation preserves. -/
theorem tryCatch {action : Effect ε σ α} {handler : ε → Effect ε σ α}
    (first : Preserves holds action) (second : ∀ error, Preserves holds (handler error)) :
    Preserves holds (MonadExcept.tryCatch action handler) := by
  intro state held
  have after := first state held
  rw [exec_tryCatch]
  rcases outcome : exec action state with ⟨error | value, middle⟩
  · rw [outcome] at after
    exact second error middle after
  · simpa [outcome] using after

/-- Work on a part preserves what no replacement of the part can break. -/
theorem zoom {τ : Type u} {whole : τ → Prop} {part : τ → σ} {replace : σ → τ → τ}
    {action : Effect ε σ α} (kept : ∀ after state, whole state → whole (replace after state)) :
    Preserves whole (Effect.zoom part replace action) :=
  fun state held => kept _ state held

end Preserves

/-- A property of the state holds also where a computation threw. -/
def PreservesOnThrow (holds : σ → Prop) (action : Effect ε σ α) : Prop :=
  ∀ state error after, holds state → exec action state = (.error error, after) → holds after

namespace PreservesOnThrow

variable {holds : σ → Prop}

theorem of_preserves {action : Effect ε σ α} (preserves : Preserves holds action) :
    PreservesOnThrow holds action := by
  intro state error after held threw
  exact preserves.after threw held

/-- The last computation of a sequence may break what it does not break by throwing. -/
theorem bind {action : Effect ε σ α} {next : α → Effect ε σ β} (first : Preserves holds action)
    (second : ∀ value, PreservesOnThrow holds (next value)) :
    PreservesOnThrow holds (action >>= next) := by
  intro state error after held threw
  rw [exec_bind] at threw
  rcases outcome : exec action state with ⟨failure | value, middle⟩
  · rw [outcome] at threw
    cases threw
    exact first.after outcome held
  · rw [outcome] at threw
    exact second value middle error after (first.after outcome held) threw

/-- After reading the state, what follows may rely on what was read. -/
theorem get_bind {next : σ → Effect ε σ β}
    (kept : ∀ state, PreservesOnThrow holds (next state)) :
    PreservesOnThrow holds (MonadState.get >>= next) :=
  bind .get kept

theorem map {action : Effect ε σ α} (update : α → β) (kept : PreservesOnThrow holds action) :
    PreservesOnThrow holds (update <$> action) := by
  intro state error after held threw
  exact kept state error after held (map_threw threw)

end PreservesOnThrow

/-- Every error a computation throws is of a kind. -/
def ThrowsOnly (kind : ε → Prop) (action : Effect ε σ α) : Prop :=
  ∀ state error after, exec action state = (.error error, after) → kind error

namespace ThrowsOnly

variable {kind : ε → Prop}

theorem pure (value : α) : ThrowsOnly kind (Pure.pure value : Effect ε σ α) := by
  rintro state error after ⟨⟩

theorem throw {error : ε} (known : kind error) :
    ThrowsOnly kind (MonadExcept.throw error : Effect ε σ α) := by
  rintro state _ after ⟨⟩
  exact known

theorem ofExcept {outcome : Except ε α} (known : ∀ error, outcome = .error error → kind error) :
    ThrowsOnly kind (Effect.ofExcept outcome : Effect ε σ α) := by
  intro state error after threw
  rw [exec_ofExcept] at threw
  cases threw
  exact known error rfl

theorem throwIf {condition : Prop} [Decidable condition] {error : ε} (known : condition → kind error) :
    ThrowsOnly kind (Effect.throwIf condition error : Effect ε σ PUnit) := by
  intro state failure after threw
  rw [exec_throwIf] at threw
  split at threw
  case isTrue held =>
    cases threw
    exact known held
  case isFalse => cases threw

theorem bind {action : Effect ε σ α} {next : α → Effect ε σ β} (first : ThrowsOnly kind action)
    (second : ∀ value, ThrowsOnly kind (next value)) : ThrowsOnly kind (action >>= next) := by
  intro state error after threw
  rw [exec_bind] at threw
  rcases outcome : exec action state with ⟨failure | value, middle⟩
  · rw [outcome] at threw
    cases threw
    exact first state error after outcome
  · rw [outcome] at threw
    exact second value middle error after threw

/-- After reading the state, what follows may rely on what was read. -/
theorem get_bind {next : σ → Effect ε σ β}
    (known : ∀ state error after, exec (next state) state = (.error error, after) → kind error) :
    ThrowsOnly kind (MonadState.get >>= next) := by
  intro state error after threw
  rw [exec_bind_ok (exec_get state)] at threw
  exact known state error after threw

/-- After a fallible value that was there, what follows may rely on how it came about. -/
theorem ofExcept_bind {outcome : Except ε α} {next : α → Effect ε σ β}
    (known : ∀ error, outcome = .error error → kind error)
    (second : ∀ value, outcome = .ok value → ThrowsOnly kind (next value)) :
    ThrowsOnly kind (Effect.ofExcept outcome >>= next) := by
  rcases outcome with error | value
  · rintro state _ after ⟨⟩
    exact known error rfl
  · exact second value rfl

end ThrowsOnly

end Effect

end Singularmem.Library
