import Singularmem.Search.Ledger
import Singularmem.Search.Placement

/-!
# Replaying the journal

Replay gives an item its last journalled vector exactly when the live index does
not know the item: what is already named, or was removed, keeps what it reads.
-/

namespace Singularmem.Search

open Library Singularmem.Core

namespace Live

variable {live : Live} {disk : Disk}

/-- An item the live index knows. -/
def named (live : Live) (id : ItemId) : Bool := (live.pair.keymap.reverse.lookup id).isSome

theorem named_iff {id : ItemId} :
    live.named id = true ↔ (live.pair.keymap.reverse.lookup id).isSome := Iff.rfl

/-- A record is missing when it is journalled, not named and not removed. -/
theorem mem_missing {entry : Entry} :
    entry ∈ live.missing disk ↔
      entry ∈ disk.journal ∧ live.named entry.1 = false ∧ entry.1 ∉ live.tombstones := by
  rw [missing, List.mem_filter]
  simp [named]

/-- An unnamed item that was not removed reads its last journalled vector after
replay; every other item reads what it did. -/
theorem absorb_view (wellFormed : live.pair.keymap.WellFormed) (id : ItemId) :
    (live.absorb disk).view id =
      if live.named id = false ∧ id ∉ live.tombstones then latest disk.journal id
      else live.view id := by
  have kept : latest (live.missing disk) id =
      if decide (live.named id = false ∧ id ∉ live.tombstones) then latest disk.journal id
      else none := by
    rw [← latest_filter (fun id => decide (live.named id = false ∧ id ∉ live.tombstones))]
    simp [missing, named]
  have placed : (live.absorb disk).view id = (latest (live.missing disk) id).or (live.view id) :=
    Pair.placeAll_view wellFormed _ id
  rw [placed, kept]
  by_cases absent : live.named id = false ∧ id ∉ live.tombstones
  · have unnamed : live.pair.keymap.reverse.lookup id = none := by
      simpa [named] using absent.1
    have nothing : live.view id = none := Pair.view_unnamed unnamed
    simp [absent, nothing]
  · simp [absent]

/-- After replay exactly the named and the missing items are named. -/
theorem absorb_named (id : ItemId) :
    (live.absorb disk).named id = true ↔
      live.named id = true ∨ (id ∈ disk.journal.map Prod.fst ∧ id ∉ live.tombstones) := by
  rw [named_iff]
  change ((live.pair.placeAll (live.missing disk)).keymap.reverse.lookup id).isSome ↔ _
  rw [Pair.placeAll_named, ← named_iff]
  constructor
  · rintro (member | held)
    · obtain ⟨entry, present, rfl⟩ := List.mem_map.mp member
      obtain ⟨journalled, _, kept⟩ := mem_missing.mp present
      exact .inr ⟨List.mem_map_of_mem journalled, kept⟩
    · exact .inl held
  · rintro (held | ⟨member, kept⟩)
    · exact .inr held
    · cases held : live.named id with
      | true => exact .inr rfl
      | false =>
        obtain ⟨entry, present, rfl⟩ := List.mem_map.mp member
        exact .inl (List.mem_map_of_mem (mem_missing.mpr ⟨present, held, kept⟩))

/-- Replay takes in nothing when every journalled item is known. -/
theorem absorb_known (known : ∀ entry ∈ disk.journal, live.named entry.1 = true) :
    live.absorb disk = live := by
  have nothing : live.missing disk = [] := by
    rw [List.eq_nil_iff_forall_not_mem]
    intro entry member
    obtain ⟨journalled, unnamed, _⟩ := mem_missing.mp member
    simp [known entry journalled] at unnamed
  simp [absorb, nothing, Pair.placeAll]

/-- A second replay of the same journal takes in nothing. -/
theorem absorb_absorb : (live.absorb disk).absorb disk = live.absorb disk := by
  have nothing : (live.absorb disk).missing disk = [] := by
    rw [List.eq_nil_iff_forall_not_mem]
    intro entry member
    obtain ⟨journalled, unnamed, kept⟩ := mem_missing.mp member
    have named := (@absorb_named live disk entry.1).mpr
      (.inr ⟨List.mem_map_of_mem journalled, kept⟩)
    rw [named] at unnamed
    exact absurd unnamed (by simp)
  rw [absorb, nothing]
  rfl

/-- A fresh open reads the compacted pair for the items it names, and the
journal for the others. -/
theorem opened_view (wellFormed : disk.pair.keymap.WellFormed) (id : ItemId) :
    (opened disk).view id =
      if (disk.pair.keymap.reverse.lookup id).isSome then disk.pair.view id
      else latest disk.journal id := by
  rw [opened, @absorb_view (loaded disk) disk wellFormed]
  cases held : disk.pair.keymap.reverse.lookup id with
  | none => simp [loaded, named, held]
  | some key =>
    simp only [loaded, named, held, Option.isSome_some]
    rfl

end Live

end Singularmem.Search
