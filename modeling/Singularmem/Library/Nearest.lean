import Mathlib.Data.Finset.Card
import Mathlib.Data.Finset.Image
import Mathlib.Data.List.Sort

/-!
# Nearest candidates

Among finitely many candidates with ranks, the nearest so many are distinct, come in the
order of their ranks, and no other candidate ranks before one of them. Renaming candidates
renames the nearest ones; without ties there is one such list, and a sort finds one.
-/

namespace Singularmem.Library

universe u v w
variable {α : Type u} {β : Type v} {γ : Type w} [LinearOrder β]

/-- The found candidates are the nearest, as many as are asked for or all of them, nearest
first. -/
structure Nearest (rank : α → β) (candidates : Finset α) (count : Nat) (found : List α) :
    Prop where
  distinct : found.Nodup
  within : ∀ candidate ∈ found, candidate ∈ candidates
  length : found.length = min count candidates.card
  sorted : found.Pairwise fun first second => rank first ≤ rank second
  nearest : ∀ candidate ∈ found, ∀ other ∈ candidates, other ∉ found →
    rank candidate ≤ rank other

namespace Nearest

variable {rank : α → β} {candidates : Finset α} {count : Nat} {found : List α}

/-- The nearest candidates under other names. -/
theorem map [DecidableEq γ] {name : α → γ} {named : γ → β} (nearest : Nearest rank candidates count found)
    (injective : ∀ first ∈ candidates, ∀ second ∈ candidates, name first = name second →
      first = second)
    (same : ∀ candidate ∈ candidates, named (name candidate) = rank candidate) :
    Nearest named (candidates.image name) count (found.map name) := by
  refine ⟨?_, ?_, ?_, ?_, ?_⟩
  · refine List.Nodup.map_on (fun first firstIn second secondIn => ?_) nearest.distinct
    exact injective first (nearest.within first firstIn) second (nearest.within second secondIn)
  · intro candidate member
    obtain ⟨original, present, rfl⟩ := List.mem_map.mp member
    exact Finset.mem_image_of_mem name (nearest.within original present)
  · have unmerged : (candidates.image name).card = candidates.card :=
      Finset.card_image_of_injOn fun first firstIn second secondIn =>
        injective first firstIn second secondIn
    rw [List.length_map, nearest.length, unmerged]
  · rw [List.pairwise_map]
    refine nearest.sorted.imp_of_mem fun {first second} firstIn secondIn ordered => ?_
    rw [same first (nearest.within first firstIn), same second (nearest.within second secondIn)]
    exact ordered
  · intro candidate member other present absent
    obtain ⟨original, inFound, rfl⟩ := List.mem_map.mp member
    obtain ⟨outside, inCandidates, rfl⟩ := Finset.mem_image.mp present
    rw [same original (nearest.within original inFound), same outside inCandidates]
    exact nearest.nearest original inFound outside inCandidates fun inside =>
      absent (List.mem_map_of_mem inside)

/-- Of two lists of nearest candidates without ties, one holds what the other does. -/
theorem subset {other : List α} (nearest : Nearest rank candidates count found)
    (again : Nearest rank candidates count other)
    (untied : ∀ first ∈ candidates, ∀ second ∈ candidates, rank first = rank second →
      first = second) : ∀ candidate ∈ found, candidate ∈ other := by
  intro candidate member
  by_contra missing
  obtain ⟨spare, inOther, outside⟩ : ∃ spare ∈ other, spare ∉ found := by
    by_contra covered
    have included : other ⊆ found := fun spare inOther => by
      by_contra outside
      exact covered ⟨spare, inOther, outside⟩
    have equal : found.length ≤ other.length := by rw [nearest.length, again.length]
    have full := (again.distinct.subperm included).perm_of_length_le equal
    exact missing (full.mem_iff.mpr member)
  have below := nearest.nearest candidate member spare (again.within spare inOther) outside
  have above := again.nearest spare inOther candidate (nearest.within candidate member) missing
  have same := untied candidate (nearest.within candidate member) spare
    (again.within spare inOther) (le_antisymm below above)
  exact outside (same ▸ member)

/-- **Without ties** the nearest candidates are one list. -/
theorem unique {other : List α} (nearest : Nearest rank candidates count found)
    (again : Nearest rank candidates count other)
    (untied : ∀ first ∈ candidates, ∀ second ∈ candidates, rank first = rank second →
      first = second) : found = other := by
  have permuted : found.Perm other :=
    (List.perm_ext_iff_of_nodup nearest.distinct again.distinct).mpr fun candidate =>
      ⟨nearest.subset again untied candidate, again.subset nearest untied candidate⟩
  refine permuted.eq_of_pairwise (fun first second firstIn secondIn ordered reversed => ?_)
    nearest.sorted again.sorted
  exact untied first (nearest.within first firstIn) second (again.within second secondIn)
    (le_antisymm ordered reversed)

/-- The first of the sorted candidates are the nearest. -/
theorem of_sort (rank : α → β) (candidates : Finset α) (count : Nat) {sorted : List α}
    (permuted : sorted.Perm candidates.toList)
    (ordered : sorted.Pairwise fun first second => rank first ≤ rank second) :
    Nearest rank candidates count (sorted.take count) := by
  have distinct : sorted.Nodup := permuted.nodup_iff.mpr candidates.nodup_toList
  have members : ∀ candidate, candidate ∈ sorted ↔ candidate ∈ candidates := fun candidate =>
    permuted.mem_iff.trans Finset.mem_toList
  refine ⟨distinct.sublist (List.take_sublist count sorted), fun candidate member => ?_, ?_,
    ordered.sublist (List.take_sublist count sorted), fun candidate member other present absent => ?_⟩
  · exact (members candidate).mp (List.mem_of_mem_take member)
  · rw [List.length_take, permuted.length_eq, Finset.length_toList]
  · have split := List.take_append_drop count sorted
    have rest : other ∈ sorted.drop count := by
      have whole := (members other).mpr present
      rw [← split] at whole
      exact (List.mem_append.mp whole).resolve_left absent
    rw [← split] at ordered
    exact (List.pairwise_append.mp ordered).2.2 candidate member other rest

/-- The first of the nearest are the nearest of a smaller count. -/
theorem take (nearest : Nearest rank candidates count found) {fewer : Nat}
    (within : fewer ≤ found.length) : Nearest rank candidates fewer (found.take fewer) := by
  have part := List.take_sublist fewer found
  refine ⟨nearest.distinct.sublist part, fun candidate member => ?_, ?_,
    nearest.sorted.sublist part, fun candidate member other present absent => ?_⟩
  · exact nearest.within candidate (List.mem_of_mem_take member)
  · have length := nearest.length
    rw [List.length_take]
    omega
  · by_cases later : other ∈ found
    · have sorted := nearest.sorted
      rw [← List.take_append_drop fewer found] at sorted later
      exact (List.pairwise_append.mp sorted).2.2 candidate member other
        ((List.mem_append.mp later).resolve_left absent)
    · exact nearest.nearest candidate (List.mem_of_mem_take member) other present later

end Nearest

end Singularmem.Library
