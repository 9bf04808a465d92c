import Singularmem.Core.ItemStore
import Singularmem.Core.Listings
import Singularmem.Core.StoredScopes
import Mathlib.Data.List.Perm.Subperm

/-!
# Listings by tag and scope

The database counts the tags of an item that are among those asked for, and compares the
count with how many were asked for. The two agree where the item carries them all and none
was named twice.
-/

namespace Singularmem.Core

open Library

/-- So many of these items are wanted as there are wanted ones: all of them are there and
none is wanted twice. -/
theorem filter_length_eq_iff {items wanted : List String} (once : items.Nodup) :
    (items.filter (· ∈ wanted)).length = wanted.length ↔
      wanted.Nodup ∧ ∀ item ∈ wanted, item ∈ items := by
  have present : ∀ item, item ∈ items.filter (· ∈ wanted) ↔ item ∈ items ∧ item ∈ wanted := by
    intro item
    rw [List.mem_filter, decide_eq_true_eq]
  have distinct : (items.filter (· ∈ wanted)).Nodup := once.filter _
  constructor
  · intro equal
    have part : (items.filter (· ∈ wanted)).Subperm wanted :=
      distinct.subperm fun item member => ((present item).mp member).2
    have same : (items.filter (· ∈ wanted)).Perm wanted :=
      part.perm_of_length_le (Nat.le_of_eq equal.symm)
    constructor
    · exact same.nodup_iff.mp distinct
    · intro item member
      exact ((present item).mp (same.mem_iff.mpr member)).1
  · rintro ⟨wantedOnce, all⟩
    refine List.Perm.length_eq ((List.perm_ext_iff_of_nodup distinct wantedOnce).mpr fun item => ?_)
    rw [present]
    exact and_iff_right_of_imp (all item)

variable {platform : Platform} {tables : Tables} {tags : List String} {filter : Option ScopeFilter}

/-- An item carries no tag twice. -/
theorem tagsOf_nodup (tables : Tables) (id : ItemId) : (tagsOf tables id).Nodup := by
  have rows : tables.itemTags.rows.Nodup := by
    have distinct := @Table.nodup_filterMap _ _ _ tables.itemTags _ (fun row => some row) (fun row => row) ?_
    · rwa [List.filterMap_some] at distinct
    · rintro row given ⟨⟩
      exact List.mem_singleton_self row
  rw [tagsOf, (List.perm_insertionSort _ _).nodup_iff]
  apply List.Nodup.map_on _ (rows.filter _)
  intro first firstIn second secondIn same
  have owner := of_decide_eq_true (List.mem_filter.mp firstIn).2
  have other := of_decide_eq_true (List.mem_filter.mp secondIn).2
  cases first
  cases second
  simp_all

/-- **What the database counts**: the item carries every tag, and none was named twice. -/
theorem carriesTags_iff (row : ItemRow) :
    carriesTags tables tags row = true ↔ tags.Nodup ∧ ∀ tag ∈ tags, tag ∈ tagsOf tables row.id := by
  rw [carriesTags, Bool.or_eq_true, decide_eq_true_eq,
    filter_length_eq_iff (tagsOf_nodup tables row.id)]
  refine or_iff_right_of_imp fun empty => ?_
  rw [List.isEmpty_iff.mp empty]
  simp

/-- A filter as the constructors build it. -/
def ScopeFilter.Built (platform : Platform) (filter : ScopeFilter) : Prop :=
  ∃ raw, ScopeFilter.descendants platform raw = .ok filter ∨
    ScopeFilter.exactly platform raw = .ok filter

/-- The path of a built filter is normalised. -/
theorem ScopeFilter.Built.normalised {filter : ScopeFilter} (built : filter.Built platform) :
    Scope.Normalised filter.path := by
  obtain ⟨raw, descends | exact⟩ := built
  · exact (ScopeFilter.descendants_returned descends).1
  · exact (ScopeFilter.exactly_returned exact).1

/-- The clause of the database says what the filter says, on stored scopes. -/
theorem Tables.ScopesValidated.sqlClause_eq (scopes : tables.ScopesValidated platform)
    (built : ∀ given ∈ filter, given.Built platform) {row : ItemRow}
    (stored : row ∈ tables.items.rows) :
    filter.all (·.sqlClause row.scope) = filter.all (·.admits row.scope) := by
  cases filter with
  | none => rfl
  | some given =>
    refine ScopeFilter.sqlClause_eq_admits (built given rfl).normalised fun scope held => ?_
    obtain ⟨raw, validated⟩ := scopes row stored scope held
    exact Scope.validate_normalised validated

/-- The item carries every named tag, and its scope satisfies the filter. -/
def Selected (tables : Tables) (tags : List String) (filter : Option ScopeFilter) (row : ItemRow) :
    Prop :=
  (∀ tag ∈ tags, tag ∈ tagsOf tables row.id) ∧ filter.all (·.admits row.scope) = true

instance (tables : Tables) (tags : List String) (filter : Option ScopeFilter) (row : ItemRow) :
    Decidable (Selected tables tags filter row) :=
  inferInstanceAs (Decidable (_ ∧ _))

/-- The rows of a listing. -/
theorem mem_listedIds (scopes : tables.ScopesValidated platform)
    (built : ∀ given ∈ filter, given.Built platform) (id : ItemId) :
    id ∈ listedIds tables tags filter ↔
      tags.Nodup ∧ ∃ row ∈ tables.items.rows, row.id = id ∧ Selected tables tags filter row := by
  simp only [listedIds, byCreation, List.mem_map, List.mem_insertionSort, List.mem_filter,
    Bool.and_eq_true, carriesTags_iff]
  constructor
  · rintro ⟨row, ⟨stored, ⟨once, carried⟩, inScope⟩, rfl⟩
    rw [scopes.sqlClause_eq built stored] at inScope
    exact ⟨once, row, stored, rfl, carried, inScope⟩
  · rintro ⟨once, row, stored, rfl, carried, inScope⟩
    refine ⟨row, ⟨stored, ⟨once, carried⟩, ?_⟩, rfl⟩
    rwa [scopes.sqlClause_eq built stored]

/-- No item is listed twice. -/
theorem listedIds_nodup (tables : Tables) (tags : List String) (filter : Option ScopeFilter) :
    (listedIds tables tags filter).Nodup := by
  have distinct : (tables.items.rows.map ItemRow.id).Nodup := itemIds_nodup tables
  rw [listedIds, byCreation, ((List.perm_insertionSort _ _).map _).nodup_iff]
  exact distinct.sublist (List.filter_sublist.map _)

/-- The rows that a listing takes depend on the set of tags. -/
theorem listedIds_congr {other : List String} (once : tags.Nodup) (otherOnce : other.Nodup)
    (same : ∀ tag, tag ∈ other ↔ tag ∈ tags) :
    listedIds tables other filter = listedIds tables tags filter := by
  have carried : carriesTags tables other = carriesTags tables tags := by
    funext row
    rw [Bool.eq_iff_iff, carriesTags_iff, carriesTags_iff]
    simp [once, otherOnce, same]
  rw [listedIds, carried, ← listedIds]

/-- Two notes, of which one is tagged and lies in a scope. -/
def taggedNotes : Store :=
  let note (tags : List String) (scope : Option String) : NewItem :=
    ⟨"note", none, tags, none, .object [], none, scope⟩
  let env (draw : Nat) : Env := ⟨.epoch, fun _ => draw⟩
  runItemCalls .ascii [(env 1, .ingest (note ["rust", "sql"] (some "a/b"))),
    (env 2, .ingest (note ["rust"] none))] ⟨false, .fresh⟩

/-- Their scopes are validated. -/
theorem taggedNotes_scopes : taggedNotes.database.tables.ScopesValidated .ascii :=
  runItemCalls_scopesValidated _ fun row member => by cases member

/-- The filter for a path and what is beneath it. -/
theorem beneath_built : ∀ given ∈ some (ScopeFilter.mk "a" false), given.Built .ascii := by
  rintro given ⟨⟩
  exact ⟨"A/", .inl (by decide +kernel)⟩

end Singularmem.Core
