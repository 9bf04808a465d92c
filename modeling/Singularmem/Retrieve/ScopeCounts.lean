import Singularmem.Graph.MixedRuns
import Singularmem.Retrieve.Wakeup
import Mathlib.Algebra.BigOperators.Group.List.Lemmas
import Mathlib.Data.String.Basic

/-!
# Counting by scope

The store lists its scopes with the number of items in each, counts the items of a filter and
of a union of filters, and lists them. These are statements of their own. All of them count by
the same scopes: what a filter or a union matches is the sum over the listed scopes it admits.
-/

namespace Singularmem.Retrieve

open Library Singularmem.Core Singularmem.Graph

variable (tables : Tables)

/-- The scopes of the items, each as often as it occurs. -/
def scopeColumn : List String := tables.items.rows.filterMap ItemRow.scope

/-- Distinct scopes with item counts, sorted by path. -/
def scopes : List (String × Nat) :=
  ((scopeColumn tables).dedup.insertionSort (· ≤ ·)).map fun path =>
    (path, (scopeColumn tables).count path)

/-- The number of items that match a filter. -/
def countScoped (filter : Option ScopeFilter) : Nat :=
  (tables.items.rows.filter fun row => filter.all (·.sqlClause row.scope)).length

/-- The number of items in the listed scopes of a kind. -/
def countListed (kind : String → Bool) : Nat :=
  (((scopes tables).filter fun entry => kind entry.1).map Prod.snd).sum

variable {platform : Platform} {tables}

/-- The counts of the listed scopes of a kind add up to the items in them. -/
theorem countListed_eq (kind : String → Bool) :
    countListed tables kind = (tables.items.rows.filter fun row => row.scope.any kind).length := by
  have sorted := List.perm_insertionSort (· ≤ · : String → String → Prop) (scopeColumn tables).dedup
  have column : (scopeColumn tables).countP kind =
      tables.items.rows.countP fun row => row.scope.any kind := by
    rw [scopeColumn, List.countP_filterMap]
    exact List.countP_congr fun row _ => by cases row.scope <;> simp
  calc countListed tables kind
      _ = ((((scopeColumn tables).dedup.insertionSort (· ≤ ·)).filter kind).map
            fun path => (scopeColumn tables).count path).sum := by
        rw [countListed, scopes, List.filter_map, List.map_map]
        rfl
      _ = (((scopeColumn tables).dedup.filter kind).map
            fun path => (scopeColumn tables).count path).sum :=
        ((sorted.filter kind).map _).sum_eq
      _ = (scopeColumn tables).countP kind := List.sum_map_count_dedup_filter_eq_countP kind _
      _ = (tables.items.rows.filter fun row => row.scope.any kind).length := by
        rw [column, List.countP_eq_length_filter]

/-- The listed scopes are those of the items, each with its number. -/
theorem mem_scopes {path : String} {count : Nat} :
    (path, count) ∈ scopes tables ↔ 0 < count ∧ count = countListed tables (· = path) := by
  have total : (scopeColumn tables).count path = countListed tables (· = path) := by
    rw [countListed_eq, ← List.countP_eq_length_filter, List.count, scopeColumn,
      List.countP_filterMap]
    refine List.countP_congr fun row _ => ?_
    cases row.scope <;> simp
  rw [← total]
  simp only [scopes, List.mem_map, List.mem_insertionSort, List.mem_dedup, Prod.mk.injEq]
  constructor
  · rintro ⟨_, listed, rfl, rfl⟩
    exact ⟨List.count_pos_iff.mpr listed, rfl⟩
  · rintro ⟨some, rfl⟩
    exact ⟨path, List.count_pos_iff.mp some, rfl, rfl⟩

/-- The listed scopes are strictly sorted. -/
theorem scopes_sorted : ((scopes tables).map Prod.fst).Pairwise (· < ·) := by
  have paths : (scopes tables).map Prod.fst =
      (scopeColumn tables).dedup.insertionSort (· ≤ ·) := by
    rw [scopes, List.map_map]
    exact List.map_id _
  have distinct : ((scopeColumn tables).dedup.insertionSort (· ≤ ·)).Nodup :=
    (List.perm_insertionSort _ _).nodup_iff.mpr (List.nodup_dedup _)
  rw [paths]
  exact ((List.pairwise_insertionSort (· ≤ · : String → String → Prop) _).and distinct).imp
    fun ordered => lt_of_le_of_ne ordered.1 ordered.2

/-- What a scope list admits, on stored rows. -/
theorem sqlClause_row (validated : tables.ScopesValidated platform) {filter : ScopeFilter}
    (built : filter.Built platform) {row : ItemRow} (stored : row ∈ tables.items.rows) :
    filter.sqlClause row.scope = row.scope.any fun path => filter.admits (some path) := by
  have same : filter.sqlClause row.scope = filter.admits row.scope :=
    @Tables.ScopesValidated.sqlClause_eq platform tables (some filter) validated
      (by rintro _ ⟨⟩; exact built) row stored
  rw [same]
  cases row.scope <;> rfl

/-- The count of a union is that of the listed scopes that one of its filters admits. -/
theorem countScopedAny_listed (validated : tables.ScopesValidated platform)
    {filters : List ScopeFilter} (built : ∀ filter ∈ filters, filter.Built platform) :
    countScopedAny tables filters =
      countListed tables fun path => filters.any (·.admits (some path)) := by
  have each : ∀ row ∈ tables.items.rows, (filters.any (·.sqlClause row.scope)) =
      row.scope.any fun path => filters.any (·.admits (some path)) := by
    intro row stored
    have admitted : filters.any (·.sqlClause row.scope) =
        filters.any fun filter => row.scope.any fun path => filter.admits (some path) := by
      refine Bool.eq_iff_iff.mpr ?_
      rw [List.any_eq_true, List.any_eq_true]
      exact exists_congr fun filter => and_congr_right fun given => by
        rw [sqlClause_row validated (built filter given) stored]
    rw [admitted]
    cases row.scope <;> simp
  rw [countListed_eq, countScopedAny]
  split
  case isTrue empty =>
    rw [List.isEmpty_iff.mp empty]
    simp
  case isFalse => rw [List.filter_congr each]

/-- The count of one filter. -/
theorem countScoped_listed (validated : tables.ScopesValidated platform) {filter : ScopeFilter}
    (built : filter.Built platform) : countScoped tables (some filter) =
      countListed tables fun path => filter.admits (some path) := by
  rw [countListed_eq, countScoped]
  exact congrArg List.length (List.filter_congr fun row stored =>
    sqlClause_row validated built stored)

/-- The listing of a filter is as long as its count. -/
theorem listed_length (filter : Option ScopeFilter) :
    (listByTagsScoped platform tables [] filter).length = countScoped tables filter := by
  rw [listByTagsScoped, listedIds, byCreation, List.length_map, List.length_map,
    List.length_insertionSort, countScoped]
  simp [carriesTags]

/-- Three notes, of which two are deeper than the third. -/
def scopedNotes : List (Env × WriteCall) :=
  [("a/b", 1), ("a", 2), ("A/b", 3)].map fun note => (⟨.epoch, fun _ => note.2⟩,
    .item (.ingest ⟨"note", none, [], none, .object [], none, some note.1⟩))

end Singularmem.Retrieve
