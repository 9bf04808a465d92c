import Singularmem.Search.HybridQuery
import Mathlib.Algebra.Order.Field.Rat
import Mathlib.Tactic.Linarith
import Mathlib.Tactic.Positivity
import Mathlib.Tactic.Ring

/-!
# Reciprocal rank fusion

Over exact rationals the fused list has every item of two rankings once, with the sum of its
reciprocal ranks, in an order that neither the iteration of the score map nor the order of the
two rankings changes.
-/

namespace Singularmem.Search

open Singularmem.Core

/-- Exact arithmetic on rational numbers. -/
def exactArithmetic : Arithmetic ℚ where
  ofNat number := number
  add := (· + ·)
  sub := (· - ·)
  div := (· / ·)
  compare left right := some (Ord.compare left right)

/-- What one ranking gives an item: the reciprocal of its 1-based rank above the constant. -/
def reciprocal (k : Nat) (ranked : List ItemId) (id : ItemId) : ℚ :=
  if id ∈ ranked then 1 / (k + (ranked.idxOf id + 1)) else 0

/-- A score map has the items with a positive value, each once and with its value. -/
structure Scored (scores : List (ItemId × ℚ)) (value : ItemId → ℚ) : Prop where
  distinct : (scores.map Prod.fst).Nodup
  values : ∀ entry ∈ scores, entry.2 = value entry.1
  held : ∀ id, id ∈ scores.map Prod.fst ↔ 0 < value id
  nonneg : ∀ id, 0 ≤ value id

/-- No items, no values. -/
theorem Scored.nil : Scored [] fun _ => 0 :=
  ⟨List.nodup_nil, by rintro _ ⟨⟩, by simp, fun _ => le_rfl⟩

/-- The items of a score map after an addition. -/
theorem map_fst_addScore (scores : List (ItemId × ℚ)) (id : ItemId) (amount : ℚ) :
    (addScore exactArithmetic scores id amount).map Prod.fst =
      if id ∈ scores.map Prod.fst then scores.map Prod.fst else scores.map Prod.fst ++ [id] := by
  unfold addScore
  split
  · rw [List.map_map]
    refine List.map_congr_left fun entry _ => ?_
    dsimp only [Function.comp]
    split
    case isTrue same => exact same.symm
    case isFalse => rfl
  · simp

/-- **Adding to a score** changes the value of one item. -/
theorem Scored.addScore {scores : List (ItemId × ℚ)} {value : ItemId → ℚ}
    (scored : Scored scores value) (id : ItemId) {amount : ℚ} (positive : 0 < amount) :
    Scored (addScore exactArithmetic scores id amount)
      fun other => value other + if other = id then amount else 0 := by
  have keys := map_fst_addScore scores id amount
  refine ⟨?_, ?_, ?_, ?_⟩
  · rw [keys]
    split
    · exact scored.distinct
    case isFalse fresh =>
      exact List.nodup_append.mpr ⟨scored.distinct, List.nodup_singleton id, by
        rintro other member _ last rfl
        rw [List.mem_singleton.mp last] at member
        exact fresh member⟩
  · intro entry member
    unfold Search.addScore at member
    split at member
    case isTrue present =>
      obtain ⟨source, sourceIn, rfl⟩ := List.mem_map.mp member
      have before := scored.values source sourceIn
      split
      case isTrue same =>
        rw [if_pos rfl, ← same, ← before]
        rfl
      case isFalse other =>
        rw [add_zero]
        exact before
    case isFalse fresh =>
      rcases List.mem_append.mp member with earlier | last
      · have other : entry.1 ≠ id := by
          rintro rfl
          exact fresh (List.mem_map_of_mem earlier)
        rw [if_neg other, scored.values entry earlier, add_zero]
      · have absent : value id = 0 :=
          le_antisymm (not_lt.mp fun above => fresh ((scored.held id).mpr above)) (scored.nonneg id)
        rw [List.mem_singleton.mp last, if_pos rfl, absent]
        simp [exactArithmetic]
  · intro other
    rw [keys]
    split_ifs with present same same
    · rw [same]
      exact ⟨fun _ => add_pos_of_nonneg_of_pos (scored.nonneg id) positive, fun _ => present⟩
    · rw [add_zero]
      exact scored.held other
    · rw [same]
      exact ⟨fun _ => add_pos_of_nonneg_of_pos (scored.nonneg id) positive, fun _ => by simp⟩
    · rw [add_zero, ← scored.held other]
      simp [same]
  · intro other
    split_ifs
    · exact add_nonneg (scored.nonneg other) positive.le
    · rw [add_zero]
      exact scored.nonneg other

/-- The reciprocal rank of an item in a ranking with another item in front. -/
theorem reciprocal_cons (k : Nat) {first : ItemId} {rest : List ItemId} (fresh : first ∉ rest)
    (id : ItemId) :
    reciprocal k (first :: rest) id =
      (if id = first then 1 / ((k : ℚ) + 1) else 0) + reciprocal (k + 1) rest id := by
  unfold reciprocal
  by_cases same : id = first
  · rw [same, if_pos List.mem_cons_self, if_pos rfl, if_neg fresh, List.idxOf_cons_self]
    simp
  · rw [if_neg same, zero_add, List.idxOf_cons_ne rest (Ne.symm same)]
    simp only [List.mem_cons, same, false_or]
    split
    · congr 1
      push_cast
      ring
    · rfl

/-- **Adding a whole ranking** adds its reciprocal ranks. -/
theorem Scored.addReciprocals {ranked : List ItemId} (once : ranked.Nodup) (k : Nat)
    {scores : List (ItemId × ℚ)} {value : ItemId → ℚ} (scored : Scored scores value) :
    Scored (addReciprocals exactArithmetic k ranked scores)
      fun id => value id + reciprocal k ranked id := by
  have shifted : ∀ (ranked : List ItemId) (offset : Nat) (scores : List (ItemId × ℚ))
      (value : ItemId → ℚ), ranked.Nodup → Scored scores value →
      Scored ((ranked.zipIdx offset).foldl (fun scores entry =>
        Search.addScore exactArithmetic scores entry.1 (exactArithmetic.div (exactArithmetic.ofNat 1)
          (exactArithmetic.add (exactArithmetic.ofNat k) (exactArithmetic.ofNat (entry.2 + 1)))))
        scores) fun id => value id + reciprocal (k + offset) ranked id := by
    intro ranked
    induction ranked with
    | nil =>
      intro offset scores value _ scored
      simpa [reciprocal] using scored
    | cons first rest later =>
      intro offset scores value once scored
      obtain ⟨fresh, once⟩ := List.nodup_cons.mp once
      let amount := exactArithmetic.div (exactArithmetic.ofNat 1)
        (exactArithmetic.add (exactArithmetic.ofNat k) (exactArithmetic.ofNat (offset + 1)))
      have computed : amount = 1 / (((k + offset : Nat) : ℚ) + 1) := by
        simp only [amount, exactArithmetic]
        push_cast
        rw [add_assoc]
      have positive : 0 < amount := by
        rw [computed]
        positivity
      have values : (fun id => value id + reciprocal (k + offset) (first :: rest) id) =
          fun id => (value id + if id = first then amount else 0) +
            reciprocal (k + (offset + 1)) rest id := by
        funext id
        rw [reciprocal_cons (k + offset) fresh, computed, ← add_assoc, ← add_assoc]
      rw [values]
      exact later (offset + 1) _ _ once (scored.addScore first positive)
  exact shifted ranked 0 scores value once scored

/-- What the fused score of an item should be. -/
def fusedScore (k : Nat) (lexical semantic : List ItemId) (id : ItemId) : ℚ :=
  reciprocal k lexical id + reciprocal k semantic id

/-- The scores of two rankings before they are sorted. -/
def fusedScores (k : Nat) (lexical semantic : List ItemId) : List (ItemId × ℚ) :=
  addReciprocals exactArithmetic k semantic (addReciprocals exactArithmetic k lexical [])

/-- The scores before the sort are the sums of the reciprocal ranks. -/
theorem fusedScores_scored (k : Nat) {lexical semantic : List ItemId} (once : lexical.Nodup)
    (onceSemantic : semantic.Nodup) :
    Scored (fusedScores k lexical semantic) (fusedScore k lexical semantic) := by
  have both := (Scored.nil.addReciprocals once k).addReciprocals onceSemantic k
  refine cast (congrArg _ (funext fun id => ?_)) both
  rw [zero_add]
  rfl

/-- An item of a ranking has a positive reciprocal rank, and only such an item does. -/
theorem reciprocal_pos_iff (k : Nat) (ranked : List ItemId) (id : ItemId) :
    0 < reciprocal k ranked id ↔ id ∈ ranked := by
  unfold reciprocal
  split
  case isTrue present => exact ⟨fun _ => present, fun _ => by positivity⟩
  case isFalse absent =>
    exact ⟨fun above => absurd above (lt_irrefl 0), fun present => absurd present absent⟩

/-- Reciprocal ranks are not negative. -/
theorem reciprocal_nonneg (k : Nat) (ranked : List ItemId) (id : ItemId) :
    0 ≤ reciprocal k ranked id := by
  unfold reciprocal
  split
  · positivity
  · exact le_rfl

/-- An item is ahead of another in a list; an item that the list lacks is behind all its
items. -/
def Ahead (ranked : List ItemId) (first second : ItemId) : Prop :=
  ranked.idxOf first < ranked.idxOf second

instance (ranked : List ItemId) (first second : ItemId) : Decidable (Ahead ranked first second) :=
  inferInstanceAs (Decidable (_ < _))

/-- The item ahead has the greater reciprocal rank. -/
theorem reciprocal_lt_of_ahead (k : Nat) {ranked : List ItemId} {first second : ItemId}
    (ahead : Ahead ranked first second) :
    reciprocal k ranked second < reciprocal k ranked first := by
  have present : first ∈ ranked := List.idxOf_lt_length_iff.mp (ahead.trans_le List.idxOf_le_length)
  by_cases other : second ∈ ranked
  · unfold reciprocal
    rw [if_pos present, if_pos other]
    have ranks : (ranked.idxOf first : ℚ) < ranked.idxOf second := by exact_mod_cast ahead
    apply one_div_lt_one_div_of_lt
    · positivity
    · linarith
  · have none : reciprocal k ranked second = 0 := if_neg other
    rw [none]
    exact (reciprocal_pos_iff k ranked first).mpr present

/-- Whether an entry may stand before another in the fused list. -/
abbrev InOrder (left right : ItemId × ℚ) : Prop :=
  (fusedOrder exactArithmetic left right).isLE

/-- Higher scores come first, then lower identifiers. -/
theorem inOrder_iff (left right : ItemId × ℚ) :
    InOrder left right ↔
      right.2 < left.2 ∨ right.2 = left.2 ∧ left.1.ulid.toNat ≤ right.1.ulid.toNat := by
  unfold InOrder fusedOrder exactArithmetic
  rcases lt_trichotomy right.2 left.2 with above | same | below
  · simp [compare_lt_iff_lt.mpr above, above]
  · simp [same, Nat.isLE_compare]
  · simp [compare_gt_iff_gt.mpr below, below.ne', below.not_gt]

instance : Std.Total InOrder where
  total left right := by
    rw [inOrder_iff, inOrder_iff]
    rcases lt_trichotomy right.2 left.2 with above | same | below
    · exact .inl (.inl above)
    · rcases Nat.le_total left.1.ulid.toNat right.1.ulid.toNat with earlier | later
      · exact .inl (.inr ⟨same, earlier⟩)
      · exact .inr (.inr ⟨same.symm, later⟩)
    · exact .inr (.inl below)

instance : IsTrans (ItemId × ℚ) InOrder where
  trans first second third before after := by
    rw [inOrder_iff] at before after ⊢
    rcases before with above | ⟨same, earlier⟩ <;> rcases after with higher | ⟨equal, sooner⟩
    · exact .inl (higher.trans above)
    · exact .inl (equal.trans_lt above)
    · exact .inl (higher.trans_eq same)
    · exact .inr ⟨equal.trans same, earlier.trans sooner⟩

/-- Two entries that may stand in either order are one entry. -/
theorem InOrder.antisymm {left right : ItemId × ℚ} (before : InOrder left right)
    (after : InOrder right left) : left = right := by
  rw [inOrder_iff] at before after
  obtain ⟨scores, ids⟩ : right.2 = left.2 ∧ left.1.ulid.toNat = right.1.ulid.toNat := by
    rcases before with above | ⟨same, earlier⟩ <;> rcases after with higher | ⟨equal, sooner⟩
    · exact absurd higher above.not_gt
    · exact absurd equal above.ne'
    · exact absurd same higher.ne'
    · exact ⟨same, Nat.le_antisymm earlier sooner⟩
  have sameId : left.1 = right.1 := by
    rcases left with ⟨⟨left⟩, score⟩
    rcases right with ⟨⟨right⟩, other⟩
    exact congrArg ItemId.mk (BitVec.eq_of_toNat_eq ids)
  exact Prod.ext sameId scores.symm

/-- **Sorting forgets the order of the entries.** -/
theorem sorted_eq_of_perm {scores others : List (ItemId × ℚ)} (same : scores.Perm others) :
    scores.insertionSort InOrder = others.insertionSort InOrder :=
  List.Perm.eq_of_pairwise (fun _ _ _ _ before after => InOrder.antisymm before after)
    (List.pairwise_insertionSort InOrder scores) (List.pairwise_insertionSort InOrder others)
    (((List.perm_insertionSort InOrder scores).trans same).trans
      (List.perm_insertionSort InOrder others).symm)

/-- Two score maps with the same values have the same entries. -/
theorem Scored.perm {scores others : List (ItemId × ℚ)} {value : ItemId → ℚ}
    (scored : Scored scores value) (other : Scored others value) : scores.Perm others := by
  refine (List.perm_ext_iff_of_nodup scored.distinct.of_map other.distinct.of_map).mpr ?_
  have included : ∀ {scores others : List (ItemId × ℚ)}, Scored scores value →
      Scored others value → ∀ entry ∈ scores, entry ∈ others := by
    intro scores others scored other entry member
    have positive := (scored.held entry.1).mp (List.mem_map_of_mem member)
    obtain ⟨twin, twinIn, same⟩ := List.mem_map.mp ((other.held entry.1).mpr positive)
    have equal : twin = entry :=
      Prod.ext same (by rw [other.values twin twinIn, scored.values entry member, same])
    rwa [equal] at twinIn
  exact fun entry => ⟨included scored other entry, included other scored entry⟩

/-- An entry of the fused list stands before another: it has the higher score, or the same
score and the lower identifier. -/
def Precedes (left right : ItemId × ℚ) : Prop :=
  right.2 < left.2 ∨ left.2 = right.2 ∧ left.1.ulid.toNat < right.1.ulid.toNat

/-- The entries of a sorted score map stand in strict order. -/
theorem Scored.precedes {scores : List (ItemId × ℚ)} {value : ItemId → ℚ}
    (scored : Scored scores value) : (scores.insertionSort InOrder).Pairwise Precedes := by
  have once : ((scores.insertionSort InOrder).map Prod.fst).Nodup :=
    (((List.perm_insertionSort InOrder scores).map Prod.fst).nodup_iff).mpr scored.distinct
  refine ((List.pairwise_insertionSort InOrder scores).and (List.pairwise_map.mp once)).imp ?_
  rintro left right ⟨ordered, different⟩
  rcases (inOrder_iff left right).mp ordered with above | ⟨same, earlier⟩
  · exact .inl above
  · refine .inr ⟨same.symm, lt_of_le_of_ne earlier fun equal => different ?_⟩
    rcases left with ⟨⟨left⟩, score⟩
    rcases right with ⟨⟨right⟩, other⟩
    exact congrArg ItemId.mk (BitVec.eq_of_toNat_eq equal)

/-- In a list in strict order, the item with the higher score is ahead. -/
theorem ahead_of_precedes {entries : List (ItemId × ℚ)} (sorted : entries.Pairwise Precedes)
    (once : (entries.map Prod.fst).Nodup) {first second : ItemId × ℚ} (firstIn : first ∈ entries)
    (secondIn : second ∈ entries) (above : second.2 < first.2) :
    Ahead (entries.map Prod.fst) first.1 second.1 := by
  have different : first.1 ≠ second.1 := by
    intro same
    have equal := List.inj_on_of_nodup_map once firstIn secondIn same
    exact above.ne (congrArg Prod.snd equal).symm
  induction entries with
  | nil => cases firstIn
  | cons head rest later =>
    obtain ⟨headFirst, sorted⟩ := List.pairwise_cons.mp sorted
    obtain ⟨fresh, once⟩ := List.nodup_cons.mp once
    unfold Ahead
    rw [List.map_cons]
    rcases List.mem_cons.mp firstIn with rfl | firstLater
    · rw [List.idxOf_cons_self, List.idxOf_cons_ne _ different]
      exact Nat.succ_pos _
    · have firstOther : head.1 ≠ first.1 := fun same =>
        fresh (same ▸ List.mem_map_of_mem firstLater)
      rcases List.mem_cons.mp secondIn with rfl | secondLater
      · rcases headFirst first firstLater with higher | ⟨same, _⟩
        · exact absurd higher above.not_gt
        · exact absurd same above.ne
      · have secondOther : head.1 ≠ second.1 := fun same =>
          fresh (same ▸ List.mem_map_of_mem secondLater)
        rw [List.idxOf_cons_ne _ firstOther, List.idxOf_cons_ne _ secondOther]
        exact Nat.succ_lt_succ (later sorted once firstLater secondLater)

/-- **Reciprocal rank fusion.** Over exact rationals the fused list of two rankings without
repetitions has every item of either once, with the sum of its reciprocal ranks, in strict
order. Neither the order in which the score map is read nor the order of the rankings
matters, and an item ahead of another in both rankings is ahead in the fused list. -/
theorem rrf_fuses_rankings (k : Nat) {lexical semantic : List ItemId} (once : lexical.Nodup)
    (onceSemantic : semantic.Nodup) :
    let fused := rrfFuse exactArithmetic lexical semantic k
    (fused.map Prod.fst).Nodup ∧
    (∀ id, id ∈ fused.map Prod.fst ↔ id ∈ lexical ∨ id ∈ semantic) ∧
    (∀ entry ∈ fused, entry.2 = reciprocal k lexical entry.1 + reciprocal k semantic entry.1) ∧
    fused.Pairwise Precedes ∧
    (∀ scores : List (ItemId × ℚ), scores.Perm (fusedScores k lexical semantic) →
      scores.insertionSort InOrder = fused) ∧
    rrfFuse exactArithmetic semantic lexical k = fused ∧
    ∀ first second, Ahead lexical first second → Ahead semantic first second →
      Ahead (fused.map Prod.fst) first second := by
  intro fused
  have scored := fusedScores_scored k once onceSemantic
  have reordered : fused.Perm (fusedScores k lexical semantic) := List.perm_insertionSort InOrder _
  have distinct : (fused.map Prod.fst).Nodup :=
    ((reordered.map Prod.fst).nodup_iff).mpr scored.distinct
  have values : ∀ entry ∈ fused, entry.2 = fusedScore k lexical semantic entry.1 :=
    fun entry member => scored.values entry (reordered.mem_iff.mp member)
  have held : ∀ id, id ∈ fused.map Prod.fst ↔ 0 < fusedScore k lexical semantic id :=
    fun id => ((reordered.map Prod.fst).mem_iff).trans (scored.held id)
  have sorted : fused.Pairwise Precedes := scored.precedes
  refine ⟨distinct, ?_, values, sorted, ?_, ?_, ?_⟩
  · intro id
    rw [held id, ← reciprocal_pos_iff k lexical, ← reciprocal_pos_iff k semantic, fusedScore]
    have lexicalScore := reciprocal_nonneg k lexical id
    have semanticScore := reciprocal_nonneg k semantic id
    constructor
    · intro above
      by_contra neither
      rw [not_or, not_lt, not_lt] at neither
      linarith [neither.1, neither.2]
    · rintro (above | above) <;> linarith
  · exact fun scores same => sorted_eq_of_perm same
  · have exchanged : fusedScore k semantic lexical = fusedScore k lexical semantic :=
      funext fun id => add_comm _ _
    have other := fusedScores_scored k onceSemantic once
    rw [exchanged] at other
    exact sorted_eq_of_perm (other.perm scored)
  · intro first second ahead aheadSemantic
    have higher : fusedScore k lexical semantic second < fusedScore k lexical semantic first :=
      add_lt_add (reciprocal_lt_of_ahead k ahead) (reciprocal_lt_of_ahead k aheadSemantic)
    have positive : 0 < fusedScore k lexical semantic first :=
      (scored.nonneg second).trans_lt higher
    have firstIn := (held first).mpr positive
    by_cases secondIn : second ∈ fused.map Prod.fst
    · obtain ⟨entry, entryIn, rfl⟩ := List.mem_map.mp firstIn
      obtain ⟨other, otherIn, rfl⟩ := List.mem_map.mp secondIn
      rw [← values entry entryIn, ← values other otherIn] at higher
      exact ahead_of_precedes sorted distinct entryIn otherIn higher
    · unfold Ahead
      rw [List.idxOf_eq_length secondIn]
      exact List.idxOf_lt_length_of_mem firstIn

/-- Two rankings that agree about one pair of items. -/
theorem rrf_fuses_three_items :
    Ahead ((rrfFuse exactArithmetic [⟨1⟩, ⟨2⟩, ⟨3⟩] [⟨2⟩, ⟨3⟩] 60).map Prod.fst) ⟨2⟩ ⟨3⟩ ∧
    (rrfFuse exactArithmetic [⟨1⟩, ⟨2⟩, ⟨3⟩] [⟨2⟩, ⟨3⟩] 60).map Prod.fst = [⟨2⟩, ⟨3⟩, ⟨1⟩] :=
  ⟨(rrf_fuses_rankings 60 (by decide) (by decide)).2.2.2.2.2.2 ⟨2⟩ ⟨3⟩ (by decide) (by decide),
    by decide +kernel⟩

end Singularmem.Search
