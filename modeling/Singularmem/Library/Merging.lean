import Singularmem.Library.Nearest

/-!
# Merging the nearest candidates

Candidates come in parts that may overlap. Where the nearest so many of each part are known,
the nearest so many of all candidates are among them: a candidate that its part leaves out
comes after as many others as are asked for. A list with repetitions is reduced to the first
element of each key.
-/

namespace Singularmem.Library

universe u v w

section KeepFirst

variable {α : Type u} {κ : Type v} [DecidableEq κ] {key : α → κ}

/-- The first element of each key, but for the keys that were seen before. -/
def keepFirst (key : α → κ) : List κ → List α → List α
  | _, [] => []
  | seen, item :: rest =>
    if key item ∈ seen then keepFirst key seen rest
    else item :: keepFirst key (key item :: seen) rest

/-- The kept elements are some of the elements, in their order. -/
theorem keepFirst_sublist (seen : List κ) (items : List α) :
    (keepFirst key seen items).Sublist items := by
  induction items generalizing seen with
  | nil => exact List.Sublist.refl []
  | cons item rest remaining =>
    unfold keepFirst
    split
    case isTrue => exact (remaining seen).cons item
    case isFalse => exact (remaining (key item :: seen)).cons_cons item

/-- The keys that are kept are those not seen before. -/
theorem mem_keepFirst_keys {name : κ} (seen : List κ) (items : List α) :
    name ∈ (keepFirst key seen items).map key ↔ name ∉ seen ∧ name ∈ items.map key := by
  induction items generalizing seen with
  | nil => simp [keepFirst]
  | cons item rest remaining =>
    rw [keepFirst, List.map_cons, List.mem_cons]
    split
    case isTrue known =>
      rw [remaining]
      refine and_congr_right fun new => (or_iff_right ?_).symm
      rintro rfl
      exact new known
    case isFalse new =>
      rw [List.map_cons, List.mem_cons, remaining, List.mem_cons]
      by_cases same : name = key item
      · simp [same, new]
      · simp [same]

/-- No key is kept twice. -/
theorem keepFirst_nodup (seen : List κ) (items : List α) :
    ((keepFirst key seen items).map key).Nodup := by
  induction items generalizing seen with
  | nil => exact List.nodup_nil
  | cons item rest remaining =>
    unfold keepFirst
    split
    case isTrue => exact remaining seen
    case isFalse =>
      rw [List.map_cons, List.nodup_cons]
      constructor
      · intro again
        exact ((mem_keepFirst_keys _ rest).mp again).1 List.mem_cons_self
      · exact remaining (key item :: seen)

end KeepFirst

namespace Nearest

variable {α : Type u} {β : Type v} {ι : Type w} [LinearOrder β] {rank : α → β} {count : Nat}
  {parts : List ι} {candidates : ι → Finset α} {found : ι → List α} {union : Finset α}
  {merged : List α}

/-- A candidate that its part leaves out is preceded by as many as are asked for. -/
theorem full {part : Finset α} {shown : List α} (nearest : Nearest rank part count shown)
    {omitted : α} (candidate : omitted ∈ part) (absent : omitted ∉ shown) :
    shown.length = count := by
  classical
  have within : insert omitted shown.toFinset ⊆ part := by
    intro other member
    rcases Finset.mem_insert.mp member with rfl | inside
    · exact candidate
    · exact nearest.within other (List.mem_toFinset.mp inside)
  have larger := Finset.card_le_card within
  rw [Finset.card_insert_of_notMem (fun inside => absent (List.mem_toFinset.mp inside)),
    List.toFinset_card_of_nodup nearest.distinct] at larger
  have length := nearest.length
  omega

/-- **The nearest of all candidates** are the first of the sorted nearest ones of the parts. -/
theorem merge (each : ∀ part ∈ parts, Nearest rank (candidates part) count (found part))
    (whole : ∀ candidate, candidate ∈ union ↔ ∃ part ∈ parts, candidate ∈ candidates part)
    (distinct : merged.Nodup)
    (gathered : ∀ candidate, candidate ∈ merged ↔ ∃ part ∈ parts, candidate ∈ found part)
    (sorted : merged.Pairwise fun first second => rank first ≤ rank second) :
    Nearest rank union count (merged.take count) := by
  classical
  have within : ∀ candidate ∈ merged, candidate ∈ union := by
    intro candidate member
    obtain ⟨part, given, shown⟩ := (gathered candidate).mp member
    exact (whole candidate).mpr ⟨part, given, (each part given).within candidate shown⟩
  have covered : ∀ part ∈ parts, ∀ shown ∈ found part, shown ∈ merged :=
    fun part given shown member => (gathered shown).mpr ⟨part, given, member⟩
  have split : ∀ first ∈ merged.take count, ∀ second ∈ merged, second ∉ merged.take count →
      rank first ≤ rank second := by
    intro first taken second member left
    rw [← List.take_append_drop count merged] at sorted member
    exact (List.pairwise_append.mp sorted).2.2 first taken second
      ((List.mem_append.mp member).resolve_left left)
  constructor
  · exact distinct.sublist (List.take_sublist count merged)
  · intro candidate member
    exact within candidate (List.mem_of_mem_take member)
  · rw [List.length_take]
    have below : merged.length ≤ union.card := by
      rw [← List.toFinset_card_of_nodup distinct]
      refine Finset.card_le_card fun candidate member => ?_
      exact within candidate (List.mem_toFinset.mp member)
    by_cases all : ∀ candidate ∈ union, candidate ∈ merged
    · have above : union.card ≤ merged.length := by
        rw [← List.toFinset_card_of_nodup distinct]
        refine Finset.card_le_card fun candidate member => ?_
        exact List.mem_toFinset.mpr (all candidate member)
      rw [le_antisymm below above]
    · push Not at all
      obtain ⟨omitted, candidate, absent⟩ := all
      obtain ⟨part, given, inPart⟩ := (whole omitted).mp candidate
      have many := (each part given).full inPart fun shown =>
        absent (covered part given omitted shown)
      have fewer : (found part).length ≤ merged.length :=
        ((each part given).distinct.subperm (covered part given)).length_le
      omega
  · exact sorted.sublist (List.take_sublist count merged)
  · intro candidate taken other inUnion left
    by_cases member : other ∈ merged
    · exact split candidate taken other member left
    · by_contra reversed
      have before : rank other < rank candidate := not_le.mp reversed
      obtain ⟨part, given, inPart⟩ := (whole other).mp inUnion
      have absent : other ∉ found part := fun shown => member (covered part given other shown)
      have nearer : ∀ shown ∈ found part, rank shown < rank candidate := fun shown inFound =>
        ((each part given).nearest shown inFound other inPart absent).trans_lt before
      have first : candidate :: found part ⊆ merged.take count := by
        intro shown inside
        rcases List.mem_cons.mp inside with rfl | inFound
        · exact taken
        · by_contra late
          exact absurd (split candidate taken shown (covered part given shown inFound) late)
            (not_le.mpr (nearer shown inFound))
      have alone : (candidate :: found part).Nodup :=
        List.nodup_cons.mpr ⟨fun inFound => lt_irrefl _ (nearer candidate inFound),
          (each part given).distinct⟩
      have many := (alone.subperm first).length_le
      rw [List.length_cons, (each part given).full inPart absent, List.length_take] at many
      omega

end Nearest

end Singularmem.Library
