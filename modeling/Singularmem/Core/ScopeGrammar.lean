import Singularmem.Core.ScopeForms
import Singularmem.Library.Splitting

/-!
# The grammar of scopes

A text of at most 514 bytes validates exactly where it is, without slashes at its ends and in
lowercase, one to eight segments between single slashes. Validation returns that form of it.
-/

namespace Singularmem.Core.Scope

open Library

variable {platform : Platform}

/-- The normal form of a text: without slashes at its ends, and in lowercase. -/
def normalForm (raw : String) : String :=
  String.ofList ((trimMatches (· = '/') raw).toList.map Char.toLower)

/-- A segment: 1 to 64 characters of `[a-z0-9._-]`, and neither `.` nor `..`. -/
structure GrammarSegment (segment : List Char) : Prop where
  some : segment ≠ []
  short : segment.length ≤ 64
  chars : ∀ char ∈ segment, isScopeChar char
  named : ¬ (segment = ['.'] ∨ segment = ['.', '.'])

/-- A scope: 1 to 8 segments between single slashes, with 512 characters at most. -/
structure Grammatical (scope : String) (segments : List (List Char)) : Prop where
  written : scope.toList = ['/'].intercalate segments
  some : 1 ≤ segments.length
  few : segments.length ≤ 8
  each : ∀ segment ∈ segments, GrammarSegment segment
  short : scope.toList.length ≤ 512

/-- Only a slash is lowercased to a slash. -/
theorem toLower_slash (char : Char) : (char.toLower == '/') = (char == '/') := by
  rw [Bool.eq_iff_iff, beq_iff_eq, beq_iff_eq]
  constructor
  · intro lowered
    exact eq_of_toLower lowered (by decide)
  · rintro rfl
    rfl

/-- What is lowercased to a scope character takes one byte. -/
theorem isScopeChar_size_of_toLower {char : Char} (valid : isScopeChar char.toLower) :
    char.utf8Size = 1 := by
  by_cases upper : char.val ≥ 'A'.val ∧ char.val ≤ 'Z'.val
  · rw [Char.utf8Size_eq_one_iff, UInt32.le_iff_toNat_le]
    exact (UInt32.le_iff_toNat_le.mp upper.2).trans (by decide)
  · have same : char.toLower = char := dif_neg upper
    rw [same] at valid
    exact isScopeChar_size valid

/-- A valid segment is one of the grammar. -/
theorem validateSegment_grammar {segment : String}
    (valid : validateSegment platform segment = .ok segment) : GrammarSegment segment.toList := by
  obtain ⟨nonempty, named, short, chars, _⟩ := validateSegment_iff.mp valid
  have size := utf8ByteSize_ofList fun char member => isScopeChar_size (chars char member)
  rw [String.ofList_toList] at size
  constructor
  · intro empty
    exact nonempty (String.toList_inj.mp empty)
  · exact size ▸ short
  · exact chars
  · intro dots
    apply named
    rw [← String.toList_inj, ← @String.toList_inj segment]
    exact dots

/-- A segment validates where its lowercase is one of the grammar. -/
theorem validateSegment_of_grammar {segment : String}
    (grammar : GrammarSegment (segment.toList.map Char.toLower)) :
    validateSegment platform segment = .ok (String.ofList (segment.toList.map Char.toLower)) := by
  apply validateSegment_iff.mpr
  refine ⟨?_, ?_, ?_, ?_, rfl⟩
  · rintro rfl
    exact grammar.some rfl
  · rintro (rfl | rfl)
    · exact grammar.named (.inl rfl)
    · exact grammar.named (.inr rfl)
  · have small : ∀ char ∈ segment.toList, char.utf8Size = 1 := fun char member =>
      isScopeChar_size_of_toLower (grammar.chars char.toLower (List.mem_map_of_mem member))
    have size := utf8ByteSize_ofList small
    rw [String.ofList_toList] at size
    rw [size]
    simpa [maxSegmentBytes] using grammar.short
  · rw [String.toList_ofList]
    exact grammar.chars

/-- The segments of a text in lowercase are those of the lowercase text. -/
theorem split_lowered (text : String) :
    (split '/' text).map (fun segment => segment.toList.map Char.toLower) =
      (text.toList.map Char.toLower).splitOn '/' := by
  have commutes : (text.toList.map Char.toLower).splitOn '/' =
      (text.toList.splitOn '/').map (List.map Char.toLower) :=
    @splitOnP_map _ _ _ _ (fun char => char == '/') toLower_slash text.toList
  rw [commutes, split, List.map_map]
  apply List.map_congr_left
  intro part _
  exact congrArg (List.map Char.toLower) String.toList_ofList

/-- The characters of a grammatical scope take one byte each. -/
theorem Grammatical.size {scope : String} {segments : List (List Char)}
    (grammar : Grammatical scope segments) : scope.utf8ByteSize = scope.toList.length := by
  have small : ∀ char ∈ scope.toList, char.utf8Size = 1 := by
    intro char member
    rw [grammar.written] at member
    rcases mem_intercalate member with rfl | ⟨segment, segmentIn, inside⟩
    · decide
    · exact isScopeChar_size ((grammar.each segment segmentIn).chars char inside)
  have counted := utf8ByteSize_ofList small
  rwa [String.ofList_toList] at counted

/-- Validation returns the normal form. -/
theorem validate_normalForm {raw scope : String} (returned : validate platform raw = .ok scope) :
    scope = normalForm raw := by
  unfold validate at returned
  unfold normalForm
  generalize trimMatches (· = '/') raw = trimmed at returned ⊢
  split at returned
  case isTrue => cases returned
  case isFalse =>
    dsimp only at returned
    split at returned
    case isTrue => cases returned
    case isFalse =>
      obtain ⟨segments, traversed, returned⟩ := except_bind_returned returned
      split at returned
      case isTrue => cases returned
      case isFalse =>
        split at returned
        case isTrue => cases returned
        case isFalse =>
          cases returned
          have lowered : segments.map String.toList =
              (split '/' trimmed).map fun segment => segment.toList.map Char.toLower := by
            apply mapM_returned_map traversed
            intro segment lower computed
            rw [(validateSegment_iff.mp computed).2.2.2.2, String.toList_ofList]
          rw [← String.toList_inj, String.toList_intercalate, lowered, split_lowered]
          exact (List.intercalate_splitOn '/').trans String.toList_ofList.symm

/-- What validates is grammatical. -/
theorem validate_grammatical {raw scope : String} (returned : validate platform raw = .ok scope) :
    ∃ segments, Grammatical scope segments := by
  obtain ⟨segments, parts, rfl⟩ := validate_parts returned
  have each : ∀ segment ∈ segments.map String.toList, GrammarSegment segment := by
    intro chars member
    obtain ⟨segment, inside, rfl⟩ := List.mem_map.mp member
    exact validateSegment_grammar (parts.valid segment inside)
  have written : ("/".intercalate segments).toList =
      ['/'].intercalate (segments.map String.toList) := String.toList_intercalate
  refine ⟨segments.map String.toList, written, ?_, ?_, each, ?_⟩
  · rw [List.length_map]
    exact List.length_pos_iff.mpr parts.some
  · rw [List.length_map]
    exact parts.few
  · have counted := length_le_utf8ByteSize ("/".intercalate segments).toList
    rw [String.ofList_toList] at counted
    exact counted.trans parts.short

/-- The segments of a grammatical path in lowercase. -/
theorem split_of_written {trimmed : String} {segments : List (List Char)}
    (some : segments ≠ []) (plain : ∀ segment ∈ segments, '/' ∉ segment)
    (written : trimmed.toList.map Char.toLower = ['/'].intercalate segments) :
    (split '/' trimmed).map (fun segment => segment.toList.map Char.toLower) = segments := by
  rw [split_lowered, written, List.splitOn_intercalate '/' plain some]

/-- A text of a bounded size validates where its normal form is grammatical. -/
theorem validate_of_grammatical {raw : String} {segments : List (List Char)}
    (small : raw.utf8ByteSize ≤ maxScopeBytes + 2)
    (grammar : Grammatical (normalForm raw) segments) :
    validate platform raw = .ok (normalForm raw) := by
  have short : (normalForm raw).utf8ByteSize ≤ maxScopeBytes := by
    rw [grammar.size]
    exact grammar.short
  have joined : "/".intercalate (segments.map String.ofList) = normalForm raw := by
    rw [← String.toList_inj, String.toList_intercalate, grammar.written, List.map_map]
    exact congrArg (['/'].intercalate ·)
      ((List.map_congr_left fun letters _ => String.toList_ofList).trans (List.map_id _))
  have written := grammar.written
  rw [← joined] at short ⊢
  rw [normalForm, String.toList_ofList] at written
  have plain : ∀ segment ∈ segments, '/' ∉ segment := by
    intro segment member slash
    exact (isScopeChar_plain ((grammar.each segment member).chars '/' slash)).1 rfl
  rw [validate, if_neg (Nat.not_lt.mpr small)]
  generalize trimMatches (· = '/') raw = trimmed at written ⊢
  have apart := split_of_written (List.length_pos_iff.mp grammar.some) plain written
  have filled : trimmed ≠ "" := by
    rintro rfl
    have first := grammar.each [] (by rw [← apart]; simp [split])
    exact first.some rfl
  have each : ∀ segment ∈ split '/' trimmed, validateSegment platform segment =
      .ok (String.ofList (segment.toList.map Char.toLower)) := by
    intro segment member
    apply validateSegment_of_grammar
    apply grammar.each
    rw [← apart]
    exact List.mem_map_of_mem member
  have lowered : (split '/' trimmed).map
      (fun segment => String.ofList (segment.toList.map Char.toLower)) =
        segments.map String.ofList := by
    rw [← apart, List.map_map]
    rfl
  have few : (segments.map String.ofList).length ≤ maxSegments := by
    rw [List.length_map]
    exact grammar.few
  dsimp only
  rw [if_neg filled, mapM_of_each each, lowered]
  change (if (segments.map String.ofList).length > maxSegments then _ else _) = _
  rw [if_neg (Nat.not_lt.mpr few)]
  rw [if_neg (Nat.not_lt.mpr short)]
  rfl

/-- **The accepted texts**: those of a bounded size whose normal form is grammatical. -/
theorem validate_iff {raw scope : String} :
    validate platform raw = .ok scope ↔ raw.utf8ByteSize ≤ maxScopeBytes + 2 ∧
      scope = normalForm raw ∧ ∃ segments, Grammatical (normalForm raw) segments := by
  constructor
  · intro returned
    have same := validate_normalForm returned
    refine ⟨?_, same, same ▸ validate_grammatical returned⟩
    by_contra large
    rw [validate, if_pos (Nat.not_le.mp large)] at returned
    cases returned
  · rintro ⟨small, rfl, segments, grammar⟩
    exact validate_of_grammatical small grammar

end Singularmem.Core.Scope
