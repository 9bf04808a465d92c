import Singularmem.Core.ItemStore

/-!
# The shelf

The shelf of a database is the list of its item rows, each with its tags in order. Reads
of items are functions of the shelf, and a write that returned says exactly what it did to
it.
-/

namespace Singularmem.Core

open Library
open Effect hiding ofExcept

variable {platform : Platform} {env : Env}

/-- A row with its tags. -/
abbrev Shelved := ItemRow × List String

/-- The item rows, each with its tags. -/
def Tables.shelf (tables : Tables) : List Shelved :=
  tables.items.rows.map fun row => (row, tagsOf tables row.id)

/-- Every tag belongs to a stored item. -/
def Tables.TagsOwned (tables : Tables) : Prop :=
  ∀ row ∈ tables.itemTags.rows, tables.hasItem row.itemId

/-- A row and its tags as they are put on the shelf. -/
def shelve (row : ItemRow) (tags : List String) : Shelved := (row, tags.insertionSort (· ≤ ·))

/-- A row that gives up its `external_id` if it is the replaced one. -/
def forget (replaced : ItemId) (shelved : Shelved) : Shelved :=
  (if shelved.1.id = replaced then { shelved.1 with externalId := none } else shelved.1, shelved.2)

/-- A stored item is on the shelf. -/
theorem hasItem_iff_shelf {tables : Tables} {id : ItemId} :
    tables.hasItem id ↔ ∃ shelved ∈ tables.shelf, shelved.1.id = id := by
  rw [hasItem_iff]
  constructor
  · rintro ⟨row, member, same⟩
    exact ⟨_, List.mem_map_of_mem member, same⟩
  · rintro ⟨_, member, same⟩
    obtain ⟨row, stored, rfl⟩ := List.mem_map.mp member
    exact ⟨row, stored, same⟩

/-- Tags of other items do not matter. -/
theorem tagsOf_append {before after : Tables} {id other : ItemId} {tags : List String}
    (itemTags : after.itemTags.rows = before.itemTags.rows ++ tags.map (TagRow.mk id))
    (different : other ≠ id) : tagsOf after other = tagsOf before other := by
  have none : (tags.map (TagRow.mk id)).filter (fun row => row.itemId = other) = [] := by
    rw [List.filter_eq_nil_iff]
    intro row member
    obtain ⟨tag, _, rfl⟩ := List.mem_map.mp member
    simpa using different.symm
  rw [tagsOf, tagsOf, itemTags, List.filter_append, none, List.append_nil]

/-- The tags of an item that had none. -/
theorem tagsOf_new {before after : Tables} {id : ItemId} {tags : List String}
    (owned : before.TagsOwned) (new : ¬ before.hasItem id)
    (itemTags : after.itemTags.rows = before.itemTags.rows ++ tags.map (TagRow.mk id)) :
    tagsOf after id = tags.insertionSort (· ≤ ·) := by
  have none : before.itemTags.rows.filter (fun row => row.itemId = id) = [] := by
    rw [List.filter_eq_nil_iff]
    intro row member same
    exact new (by simpa [of_decide_eq_true same] using owned row member)
  have all : (tags.map (TagRow.mk id)).filter (fun row => row.itemId = id) =
      tags.map (TagRow.mk id) := by
    rw [List.filter_eq_self]
    intro row member
    obtain ⟨tag, _, rfl⟩ := List.mem_map.mp member
    simp
  rw [tagsOf, itemTags, List.filter_append, none, List.nil_append, all, List.map_map]
  congr 1
  exact List.map_id tags

/-- **A row and its tags put on the shelf.** -/
theorem shelf_append {before after : Tables} {row : ItemRow} {tags : List String}
    (owned : before.TagsOwned) (new : ¬ before.hasItem row.id)
    (items : after.items.rows = before.items.rows ++ [row])
    (itemTags : after.itemTags.rows = before.itemTags.rows ++ tags.map (TagRow.mk row.id)) :
    after.shelf = before.shelf ++ [shelve row tags] ∧ after.TagsOwned := by
  constructor
  · rw [Tables.shelf, items, List.map_append, List.map_singleton, tagsOf_new owned new itemTags]
    congr 1
    refine List.map_congr_left fun other member => ?_
    have different : other.id ≠ row.id := fun same => new (hasItem_iff.mpr ⟨other, member, same⟩)
    rw [tagsOf_append itemTags different]
  · intro tag member
    rw [itemTags] at member
    rw [hasItem_iff, items]
    rcases List.mem_append.mp member with old | added
    · obtain ⟨owner, stored, same⟩ := hasItem_iff.mp (owned tag old)
      exact ⟨owner, List.mem_append_left _ stored, same⟩
    · obtain ⟨_, _, rfl⟩ := List.mem_map.mp added
      exact ⟨row, List.mem_append_right _ (List.mem_singleton.mpr rfl), rfl⟩

/-- The tables after a row gave up its `external_id`. -/
def Tables.cleared (tables : Tables) (replaced : ItemId) : Tables :=
  { tables with items := clearExternalId tables.items replaced }

@[simp] theorem forget_id (replaced : ItemId) (shelved : Shelved) :
    (forget replaced shelved).1.id = shelved.1.id := by
  simp only [forget]
  split <;> rfl

/-- A replaced row gives up its `external_id` on the shelf. -/
theorem shelf_cleared (tables : Tables) (replaced : ItemId) :
    (tables.cleared replaced).shelf = tables.shelf.map (forget replaced) := by
  simp only [Tables.shelf, Tables.cleared, clearExternalId, Table.update, List.map_map]
  refine List.map_congr_left fun row _ => ?_
  simp only [Function.comp_apply, forget]
  split <;> rfl

/-- It stays stored, as all others do. -/
theorem hasItem_cleared {tables : Tables} {replaced id : ItemId} :
    (tables.cleared replaced).hasItem id ↔ tables.hasItem id := by
  rw [hasItem_iff_shelf, hasItem_iff_shelf, shelf_cleared]
  constructor
  · rintro ⟨_, member, same⟩
    obtain ⟨shelved, stored, rfl⟩ := List.mem_map.mp member
    exact ⟨shelved, stored, forget_id replaced shelved ▸ same⟩
  · rintro ⟨shelved, stored, same⟩
    exact ⟨_, List.mem_map_of_mem stored, (forget_id replaced shelved).trans same⟩

/-- References still hold. -/
theorem Tables.References.cleared {tables : Tables} (held : tables.References) (replaced : ItemId) :
    (tables.cleared replaced).References := by
  refine ⟨?_, fun tag member => hasItem_cleared.mpr (held.tagItem tag member), held.subject,
    held.object, fun fact member id linked => hasItem_cleared.mpr (held.sourceItem fact member id linked),
    held.supersedes⟩
  intro row member prior linked
  obtain ⟨source, stored, rfl⟩ := List.mem_map.mp member
  have linked : prior ∈ source.supersedes := by
    split at linked <;> exact linked
  exact hasItem_cleared.mpr (held.itemSupersedes source stored prior linked)

end Singularmem.Core
