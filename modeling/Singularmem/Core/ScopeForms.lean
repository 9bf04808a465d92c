import Singularmem.Core.Constraints
import Singularmem.Core.Ids
import Singularmem.Core.ScopeFilters
import Singularmem.Library.Trimming

/-!
# Validated scopes

Validation trims slashes and lowercases the segments. What it returns has no slashes at its
ends and is in lowercase, so that it validates as itself.
-/

namespace Singularmem.Core.Scope

open Library

variable {platform : Platform}

/-- What is lowercased to no lowercase letter is not changed. -/
theorem eq_of_toLower {char other : Char} (same : char.toLower = other)
    (noLetter : other.isLower = false) : char = other := by
  unfold Char.toLower at same
  split at same
  case isTrue upper =>
    subst same
    have low := upper.1
    have high := upper.2
    simp only [ge_iff_le, UInt32.le_iff_toNat_le] at low high
    delta Char.isLower at noLetter
    simp only [Bool.and_eq_false_iff, decide_eq_false_iff_not, ge_iff_le,
      UInt32.le_iff_toNat_le] at noLetter
    simp at noLetter low high
    omega
  case isFalse => exact same

/-- Dots only are lowercased to dots. -/
theorem dots_of_toLower {letters : List Char} (count : Nat)
    (dots : letters.map Char.toLower = List.replicate count '.') :
    letters = List.replicate count '.' := by
  obtain ⟨length, each⟩ := List.eq_replicate_iff.mp dots
  refine List.eq_replicate_iff.mpr ⟨by rwa [List.length_map] at length, fun char member => ?_⟩
  exact eq_of_toLower (each char.toLower (List.mem_map_of_mem member)) (by decide)

/-- A scope character takes one byte. -/
theorem isScopeChar_size {char : Char} (valid : isScopeChar char) : char.utf8Size = 1 := by
  delta isScopeChar Char.isLower Char.isDigit at valid
  simp only [Bool.or_eq_true, Bool.and_eq_true, decide_eq_true_eq, ge_iff_le,
    UInt32.le_iff_toNat_le] at valid
  rw [Char.utf8Size_eq_one_iff, UInt32.le_iff_toNat_le]
  rcases valid with (((lower | digit) | rfl) | rfl) | rfl
  · exact lower.2.trans (by decide)
  · exact digit.2.trans (by decide)
  · decide
  · decide
  · decide

/-- **When a segment validates**: it is not empty, no dot name and short, and its lowercase has
scope characters only. -/
theorem validateSegment_iff {segment lower : String} :
    validateSegment platform segment = .ok lower ↔
      segment ≠ "" ∧ ¬ (segment = "." ∨ segment = "..") ∧ segment.utf8ByteSize ≤ maxSegmentBytes ∧
        (∀ char ∈ lower.toList, isScopeChar char) ∧
          lower = String.ofList (segment.toList.map Char.toLower) := by
  constructor
  · intro returned
    have valid := (validateSegment_returned returned).2
    unfold validateSegment at returned
    split at returned
    case isTrue => cases returned
    case isFalse nonempty =>
      split at returned
      case isTrue => cases returned
      case isFalse named =>
        split at returned
        case isTrue => cases returned
        case isFalse short =>
          dsimp only at returned
          split at returned
          case isTrue => cases returned
          case isFalse =>
            cases returned
            exact ⟨nonempty, named, Nat.not_lt.mp short, valid, rfl⟩
  · rintro ⟨nonempty, named, short, valid, rfl⟩
    rw [validateSegment, if_neg nonempty, if_neg named, if_neg (Nat.not_lt.mpr short)]
    have all : (String.ofList (segment.toList.map Char.toLower)).toList.all isScopeChar = true :=
      List.all_eq_true.mpr valid
    rw [all]
    rfl

/-- **A validated segment** validates as itself. -/
theorem validateSegment_again {segment lower : String}
    (returned : validateSegment platform segment = .ok lower) :
    validateSegment platform lower = .ok lower := by
  obtain ⟨nonempty, named, short, valid, same⟩ := validateSegment_iff.mp returned
  have letters : lower.toList = segment.toList.map Char.toLower := by
    rw [same, String.toList_ofList]
  have plain : lower.toList.map Char.toLower = lower.toList :=
    (List.map_congr_left fun char member => (isScopeChar_plain (valid char member)).2.2).trans
      (List.map_id' _)
  refine validateSegment_iff.mpr ⟨?_, ?_, ?_, valid, ?_⟩
  · intro empty
    rw [empty] at letters
    exact nonempty (String.toList_inj.mp (List.map_eq_nil_iff.mp letters.symm))
  · intro dots
    apply named
    rw [← String.toList_inj, ← @String.toList_inj segment]
    rw [← String.toList_inj, ← @String.toList_inj lower, letters] at dots
    refine dots.imp (fun one => ?_) fun two => ?_
    · exact dots_of_toLower 1 one
    · exact dots_of_toLower 2 two
  · have counted := length_le_utf8ByteSize segment.toList
    have small := utf8ByteSize_ofList fun char member => isScopeChar_size (valid char member)
    rw [String.ofList_toList] at counted small
    rw [small, letters, List.length_map]
    exact counted.trans short
  · rw [plain, String.ofList_toList]

/-- A path of segments without slashes is trimmed of slashes. -/
theorem trimmed_path {segments : List (List Char)} (nonempty : ∀ segment ∈ segments, segment ≠ [])
    (plain : ∀ segment ∈ segments, '/' ∉ segment) :
    Trimmed (fun char => decide (char = '/')) (['/'].intercalate segments) := by
  have alone {segment : List Char} (plain : '/' ∉ segment) :
      Trimmed (fun char => decide (char = '/')) segment := by
    constructor
    · intro char first
      exact decide_eq_false fun same => plain (same ▸ List.mem_of_mem_head? first)
    · intro char last
      exact decide_eq_false fun same => plain (same ▸ List.mem_of_mem_getLast? last)
  induction segments with
  | nil => exact alone List.not_mem_nil
  | cons segment rest inductionHypothesis =>
    have head := alone (plain segment List.mem_cons_self)
    cases rest with
    | nil =>
      rw [List.intercalate_singleton]
      exact head
    | cons next more =>
      have tail := inductionHypothesis
        (fun other member => nonempty other (List.mem_cons_of_mem segment member))
        fun other member => plain other (List.mem_cons_of_mem segment member)
      rw [List.intercalate_cons_cons]
      refine head.append ['/'] tail (nonempty segment List.mem_cons_self) fun empty => ?_
      have first := nonempty next (List.mem_cons_of_mem _ List.mem_cons_self)
      cases more with
      | nil => exact first (by rwa [List.intercalate_singleton] at empty)
      | cons => simp [List.intercalate_cons_cons] at empty

/-- What a validated scope is made of. -/
structure Parts (platform : Platform) (segments : List String) : Prop where
  some : segments ≠ []
  valid : ∀ segment ∈ segments, validateSegment platform segment = .ok segment
  few : segments.length ≤ maxSegments
  short : ("/".intercalate segments).utf8ByteSize ≤ maxScopeBytes

/-- Validation returns such segments between slashes. -/
theorem validate_parts {raw scope : String} (returned : validate platform raw = .ok scope) :
    ∃ segments, Parts platform segments ∧ scope = "/".intercalate segments := by
  unfold validate at returned
  split at returned
  case isTrue => cases returned
  case isFalse =>
    dsimp only at returned
    split at returned
    case isTrue => cases returned
    case isFalse =>
      obtain ⟨segments, traversed, returned⟩ := except_bind_returned returned
      split at returned
      case isTrue => cases returned
      case isFalse few =>
        split at returned
        case isTrue => cases returned
        case isFalse short =>
          cases returned
          refine ⟨segments, ⟨?_, ?_, Nat.not_lt.mp few, Nat.not_lt.mp short⟩, rfl⟩
          · intro none
            have count := mapM_returned_length traversed
            rw [none, split, List.length_map, List.length_nil] at count
            exact List.splitOn_ne_nil _ _ (List.length_eq_zero_iff.mp count.symm)
          · intro segment member
            obtain ⟨_, _, computed⟩ := exists_of_mem_mapM traversed member
            exact validateSegment_again computed

namespace Parts

variable {segments : List String}

/-- The segments hold no slash. -/
theorem plain (parts : Parts platform segments) :
    ∀ segment ∈ segments.map String.toList, segment ≠ [] ∧ '/' ∉ segment := by
  intro chars member
  obtain ⟨segment, inside, rfl⟩ := List.mem_map.mp member
  obtain ⟨nonempty, valid⟩ := validateSegment_returned (parts.valid segment inside)
  refine ⟨nonempty, fun slash => ?_⟩
  exact (isScopeChar_plain (valid '/' slash)).1 rfl

/-- The path is not trimmed. -/
theorem trimmed (parts : Parts platform segments) :
    trimMatches (fun char => decide (char = '/')) ("/".intercalate segments) =
      "/".intercalate segments := by
  have ends := trimmed_path (fun segment member => (parts.plain segment member).1)
    fun segment member => (parts.plain segment member).2
  have same := ends.trimEnds_eq
  rw [trimEnds] at same
  rw [trimMatches, String.toList_intercalate]
  exact (congrArg String.ofList same).trans (by rw [← String.toList_inj]; simp)

/-- The path is split at its slashes. -/
theorem split (parts : Parts platform segments) :
    Core.split '/' ("/".intercalate segments) = segments := by
  have apart := List.splitOn_intercalate '/' (fun segment member => (parts.plain segment member).2)
    (by simpa using parts.some)
  rw [Core.split, String.toList_intercalate]
  exact (congrArg (List.map String.ofList) apart).trans (by simp)

end Parts

/-- **A validated scope** validates as itself. -/
theorem validate_again {raw scope : String} (returned : validate platform raw = .ok scope) :
    validate platform scope = .ok scope := by
  obtain ⟨segments, parts, rfl⟩ := validate_parts returned
  have nonempty : "/".intercalate segments ≠ "" := by
    intro empty
    have apart := parts.split
    rw [empty] at apart
    have single : segments = [""] := apart.symm
    have first := parts.valid "" (single ▸ List.mem_singleton_self "")
    exact (validateSegment_iff.mp first).1 rfl
  have traversed : segments.mapM (validateSegment platform) = .ok segments := by
    have each := @mapM_of_each _ _ _ _ id _ parts.valid
    rwa [List.map_id] at each
  have short := parts.short
  rw [validate, if_neg (by omega), parts.trimmed, if_neg nonempty, parts.split, traversed]
  change (if segments.length > maxSegments then _ else _) = _
  rw [if_neg (Nat.not_lt.mpr parts.few)]
  rw [if_neg (Nat.not_lt.mpr short)]
  rfl

end Singularmem.Core.Scope
