import Singularmem.Core.Shelf

/-!
# Reading the shelf

What a lookup by `external_id` gives is decided by the one item on the shelf that carries
the key. Reading it fails where its metadata nests too deep or its creation time does not
parse.
-/

namespace Singularmem.Core

open Library

variable {platform : Platform} {tables : Tables} {key : String}

/-- Read an item from the shelf. -/
def readShelved (platform : Platform) (shelved : Shelved) : Except Error Item := do
  let createdAt ← parseCreatedAt platform shelved.1.createdAt
  let metadata ← shelved.1.metadata.parse platform
  return ⟨shelved.1.id, shelved.1.content, createdAt, shelved.1.supersedes, shelved.2,
    shelved.1.source, metadata, shelved.1.externalId, shelved.1.scope⟩

/-- An item on the shelf carries a key. -/
def Tables.carries (tables : Tables) (key : String) : Prop :=
  ∃ shelved ∈ tables.shelf, shelved.1.externalId = some key

/-- Looking a key up in the index. -/
theorem find_externalId {row : ItemRow} :
    tables.items.find (.externalId key) = some row ↔
      row ∈ tables.items.rows ∧ row.externalId = some key := by
  rw [Table.find_eq_some]
  simp [itemSchema]

/-- **A lookup reads the item that carries the key.** -/
theorem getByExternalId_carried {shelved : Shelved} (member : shelved ∈ tables.shelf)
    (carried : shelved.1.externalId = some key) :
    getByExternalId platform tables key = some <$> readShelved platform shelved := by
  obtain ⟨row, stored, rfl⟩ := List.mem_map.mp member
  have indexed : tables.items.find (.externalId key) = some row := find_externalId.mpr ⟨stored, carried⟩
  have known : tables.items.find (.id row.id) = some row :=
    Table.find_eq_some.mpr ⟨stored, by simp [itemSchema]⟩
  rw [getByExternalId, indexed]
  change some <$> loadItem platform tables row.id = _
  rw [loadItem, known]
  rfl

/-- A lookup of a key that no item carries finds nothing. -/
theorem getByExternalId_absent (absent : ¬ tables.carries key) :
    getByExternalId platform tables key = .ok none := by
  have missing : tables.items.find (.externalId key) = none := by
    rw [Option.eq_none_iff_forall_ne_some]
    intro row found
    obtain ⟨stored, carried⟩ := find_externalId.mp found
    exact absent ⟨_, List.mem_map_of_mem stored, carried⟩
  rw [getByExternalId, missing]

/-- The keys among these that the store has. -/
theorem mem_existingExternalIds {ids : List String} :
    key ∈ existingExternalIds tables ids ↔ key ∈ ids ∧ tables.carries key := by
  rw [existingExternalIds, List.mem_filter, Option.isSome_iff_exists]
  refine and_congr_right fun _ => ?_
  constructor
  · rintro ⟨row, found⟩
    obtain ⟨stored, carried⟩ := find_externalId.mp found
    exact ⟨_, List.mem_map_of_mem stored, carried⟩
  · rintro ⟨shelved, member, carried⟩
    obtain ⟨row, stored, rfl⟩ := List.mem_map.mp member
    exact ⟨row, find_externalId.mpr ⟨stored, carried⟩⟩

/-- One item carries a key. -/
theorem carried_unique {left right : Shelved} (leftIn : left ∈ tables.shelf)
    (rightIn : right ∈ tables.shelf) (leftKey : left.1.externalId = some key)
    (rightKey : right.1.externalId = some key) : left = right := by
  obtain ⟨leftRow, leftStored, rfl⟩ := List.mem_map.mp leftIn
  obtain ⟨rightRow, rightStored, rfl⟩ := List.mem_map.mp rightIn
  have found := @find_externalId tables key leftRow |>.mpr ⟨leftStored, leftKey⟩
  have again := @find_externalId tables key rightRow |>.mpr ⟨rightStored, rightKey⟩
  rw [found] at again
  cases again
  rfl

/-- One item has an identifier. -/
theorem shelf_id_unique {left right : Shelved} (leftIn : left ∈ tables.shelf)
    (rightIn : right ∈ tables.shelf) (same : left.1.id = right.1.id) : left = right := by
  obtain ⟨leftRow, leftStored, rfl⟩ := List.mem_map.mp leftIn
  obtain ⟨rightRow, rightStored, rfl⟩ := List.mem_map.mp rightIn
  have equal : leftRow = rightRow := tables.items.row_unique leftStored rightStored
    (by simp [itemSchema] : ItemKey.id leftRow.id ∈ itemSchema.entries leftRow)
    (by simp [itemSchema, show leftRow.id = rightRow.id from same])
  rw [equal]

end Singularmem.Core
