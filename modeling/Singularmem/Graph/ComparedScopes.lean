import Singularmem.Core.ScopeGrammar
import Singularmem.Graph.StoredRows

/-!
# Compared scopes

Stored scopes and the paths of filters were returned by validation. So they are normal forms,
and an exact filter admits a scope where both were given in texts of one normal form.
-/

namespace Singularmem.Graph

open Library Singularmem.Core

variable {platform : Platform} {env : Env}

/-- Every call stores only validated scopes. -/
theorem kept_validatedScopes (call : GraphCall) :
    Kept platform env (call.Opens env) (call.Ends env)
      fun row => Scope.Validated platform row.scope where
  opened _ _ _ _ _ _ _ _ validated _ := Scope.validated_of_mapM validated
  closed _ _ raw head _ held parsed _ := by
    change Scope.Validated platform head.scope
    rw [(RawFact.parsesAs parsed).scope]
    exact held

/-- Every stored scope of a fact was returned by validation, after any calls. -/
theorem runCalls_scopesValidated (calls : List (Env × GraphCall)) {start : Store}
    (empty : start.database.tables.facts.rows = []) :
    ∀ row ∈ (runCalls platform calls start).database.tables.facts.rows,
      Scope.Validated platform row.scope :=
  runCalls_keeps (fun call _ => kept_validatedScopes call.2) (by simp [empty])

/-- A validated scope validates as itself. -/
theorem validated_again {scope : Option String} (validated : Scope.Validated platform scope) :
    ∀ path ∈ scope, Scope.validate platform path = .ok path := by
  intro path held
  obtain ⟨raw, accepted⟩ := validated path held
  exact Scope.validate_again accepted

/-- The path of a filter was returned by validation. -/
theorem filter_validated {path : String} {filter : ScopeFilter}
    (built : ScopeFilter.descendants platform path = .ok filter ∨
      ScopeFilter.exactly platform path = .ok filter) :
    Scope.validate platform path = .ok filter.path := by
  rcases built with returned | returned
  · obtain ⟨validated, accepted, returned⟩ := except_bind_returned returned
    cases returned
    exact accepted
  · obtain ⟨validated, accepted, returned⟩ := except_bind_returned returned
    cases returned
    exact accepted

/-- An exact filter admits a scope where both were given in texts of one normal form. -/
theorem exactly_admits_iff {given path scope : String} {filter : ScopeFilter}
    (validated : Scope.validate platform given = .ok scope)
    (built : ScopeFilter.exactly platform path = .ok filter) :
    filter.admits (some scope) = true ↔ Scope.normalForm given = Scope.normalForm path := by
  have form := Scope.validate_normalForm (filter_validated (.inr built))
  have exact : filter.exact = true := by
    obtain ⟨_, _, returned⟩ := except_bind_returned built
    cases returned
    rfl
  rw [ScopeFilter.admits, exact, if_pos rfl, decide_eq_true_eq, form,
    Scope.validate_normalForm validated]

/-- **The grammar of scopes.** A text of at most 514 bytes validates exactly where its normal
form is one to eight segments of the grammar; the result is that form, and validates as itself;
longer texts are rejected. So every stored scope and every path of a filter validates as itself,
and an exact filter admits a scope where both were given in texts of one normal form. -/
theorem scopes_have_one_form (platform : Platform) :
    (∀ raw : String, raw.utf8ByteSize ≤ 514 →
      ((∃ scope, Scope.validate platform raw = .ok scope) ↔
        ∃ segments, Scope.Grammatical (Scope.normalForm raw) segments)) ∧
    (∀ raw scope, Scope.validate platform raw = .ok scope →
      scope = Scope.normalForm raw ∧ Scope.validate platform scope = .ok scope) ∧
    (∀ raw : String, 514 < raw.utf8ByteSize →
      ∃ reason, Scope.validate platform raw = .error (.validation "scope" reason)) ∧
    (∀ calls start, start.database.tables.items.rows = [] →
      ∀ row ∈ (runItemCalls platform calls start).database.tables.items.rows,
        ∀ path ∈ row.scope, Scope.validate platform path = .ok path) ∧
    (∀ calls start, start.database.tables.facts.rows = [] →
      ∀ row ∈ (runCalls platform calls start).database.tables.facts.rows,
        ∀ path ∈ row.scope, Scope.validate platform path = .ok path) ∧
    (∀ path filter, ScopeFilter.descendants platform path = .ok filter ∨
        ScopeFilter.exactly platform path = .ok filter →
      Scope.validate platform filter.path = .ok filter.path) ∧
    ∀ given path scope filter, Scope.validate platform given = .ok scope →
      ScopeFilter.exactly platform path = .ok filter →
        (filter.admits (some scope) = true ↔
          Scope.normalForm given = Scope.normalForm path) := by
  refine ⟨?_, ?_, ?_, ?_, ?_, ?_, fun _ _ _ _ => exactly_admits_iff⟩
  · intro raw small
    constructor
    · rintro ⟨scope, returned⟩
      exact (Scope.validate_iff.mp returned).2.2
    · intro grammar
      exact ⟨_, Scope.validate_iff.mpr ⟨small, rfl, grammar⟩⟩
  · intro raw scope returned
    exact ⟨Scope.validate_normalForm returned, Scope.validate_again returned⟩
  · intro raw large
    have refused : raw.utf8ByteSize > maxScopeBytes + 2 := large
    rw [Scope.validate, if_pos refused]
    exact ⟨_, rfl⟩
  · intro calls start empty row member
    apply validated_again
    have held : start.ScopesValidated platform := by
      intro stored storedIn
      rw [empty] at storedIn
      cases storedIn
    exact runItemCalls_scopesValidated calls held row member
  · intro calls start empty row member
    exact validated_again (runCalls_scopesValidated calls empty row member)
  · intro path filter built
    exact Scope.validate_again (filter_validated built)

end Singularmem.Graph
