import Singularmem.Core.Items
import Singularmem.Core.ScopeFilters

/-!
# Documents of the text index

The index hook writes one document for each item: its text fields and its instant. A
scoped item has a term for its own scope and one for each prefix of it, so that a filter
is a single term. A term query matches the documents that have the term.
-/

namespace Singularmem.Search

open Library Singularmem.Core

variable {platform : Platform}

/-- The text fields of the index schema. -/
inductive Field
  | content | tags | source | id | supersedes | scope | scopeAncestors
deriving DecidableEq

/-- A document of the index: its texts by field, and its instant. -/
structure Document where
  texts : List (Field × String)
  createdAt : Timestamp

/-- The texts of an optional field. -/
def optionalText (field : Field) (text : Option String) : List (Field × String) :=
  text.toList.map fun value => (field, value)

/-- The terms of a scope. A missing scope has none. -/
def scopeTerms : Option String → List (Field × String)
  | none => []
  | some scope =>
    (.scope, scope) :: (Scope.ancestors scope).map fun ancestor => (.scopeAncestors, ancestor)

/-- The document that the hook writes for an item. -/
def indexItem (item : Item) : Document where
  texts :=
    [(.id, item.id.ulid.display), (.content, item.content)] ++
      optionalText .source item.source ++
      optionalText .supersedes (item.supersedes.map fun id => id.ulid.display) ++
      item.tags.map (fun tag => (.tags, tag)) ++ scopeTerms item.scope
  createdAt := item.createdAt

/-- The term that restricts a query to a filter. -/
def scopeClause (filter : ScopeFilter) : Field × String :=
  (if filter.exact then .scope else .scopeAncestors, filter.path)

/-- Whether a term query matches a document, for the fields that are not tokenised. -/
def Document.hasTerm (document : Document) (term : Field × String) : Bool := term ∈ document.texts

/-- The scope fields of a document are the terms of the item's scope. -/
theorem indexItem_hasTerm (item : Item) (filter : ScopeFilter) :
    (indexItem item).hasTerm (scopeClause filter) ↔ scopeClause filter ∈ scopeTerms item.scope := by
  cases kind : filter.exact with
  | true => simp [Document.hasTerm, indexItem, optionalText, scopeClause, kind]
  | false => simp [Document.hasTerm, indexItem, optionalText, scopeClause, kind]

/-- The term of a filter is among those of a normalised scope exactly when the filter
admits the scope. -/
theorem scopeClause_mem_iff (filter : ScopeFilter) {scope : Option String}
    (normalised : ∀ stored ∈ scope, Scope.Normalised stored) :
    scopeClause filter ∈ scopeTerms scope ↔ filter.admits scope := by
  cases scope with
  | none => simp [scopeTerms, ScopeFilter.admits]
  | some scope =>
    cases kind : filter.exact with
    | true => simp [scopeClause, scopeTerms, kind, ScopeFilter.admits_exact kind, eq_comm]
    | false =>
      rw [ScopeFilter.admits_above kind, ← Scope.mem_ancestors_iff (normalised scope rfl)]
      simp [scopeClause, scopeTerms, kind]

/-- **The three implementations of scope filtering agree**: the clause of the database, the
test in memory and the term query on what the hook indexes. -/
theorem scope_filters_agree {raw : String} {filter : ScopeFilter}
    (built : ScopeFilter.descendants platform raw = .ok filter ∨
      ScopeFilter.exactly platform raw = .ok filter)
    {item : Item} (validated : ∀ stored ∈ item.scope, ∃ given, Scope.validate platform given = .ok stored) :
    (filter.sqlClause item.scope ↔ filter.admits item.scope) ∧
      (filter.admits item.scope ↔ (indexItem item).hasTerm (scopeClause filter)) := by
  have normalised : ∀ stored ∈ item.scope, Scope.Normalised stored := by
    intro stored present
    obtain ⟨_, returned⟩ := validated stored present
    exact Scope.validate_normalised returned
  have pathNormalised : Scope.Normalised filter.path := by
    rcases built with descends | exact
    · exact (ScopeFilter.descendants_returned descends).1
    · exact (ScopeFilter.exactly_returned exact).1
  rw [ScopeFilter.sqlClause_eq_admits pathNormalised normalised, indexItem_hasTerm,
    scopeClause_mem_iff filter normalised]
  exact ⟨Iff.rfl, Iff.rfl⟩

/-- An item in a scope, for runs. -/
def noteIn (scope : Option String) : Item where
  id := ⟨1⟩
  content := "note"
  createdAt := .epoch
  supersedes := none
  tags := []
  source := none
  metadata := .object []
  externalId := none
  scope := scope

/-- A sibling whose name differs at an underscore lies outside the filter. -/
theorem underscore_is_no_wildcard :
    (({ path := "a/b_c", exact := false } : ScopeFilter).sqlClause (some "a/bxc/d") ↔
      ({ path := "a/b_c", exact := false } : ScopeFilter).admits (some "a/bxc/d")) ∧
      (({ path := "a/b_c", exact := false } : ScopeFilter).admits (some "a/bxc/d") ↔
        (indexItem (noteIn (some "a/bxc/d"))).hasTerm (scopeClause { path := "a/b_c", exact := false })) :=
  @scope_filters_agree .ascii "A/b_c/" _ (.inl (by decide +kernel)) (noteIn (some "a/bxc/d")) (by
    intro stored present
    cases present
    exact ⟨"a/bxc/d", by decide +kernel⟩)

end Singularmem.Search
