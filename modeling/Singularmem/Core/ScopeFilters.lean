import Singularmem.Core.Scope
import Singularmem.Library.Effects
import Singularmem.Library.Paths
import Mathlib.Data.List.TakeWhile

/-!
# Scope filters in memory and in the database

A filter is built from a validated path. In memory it admits its own path and, unless it
is exact, every scope that continues the path with a slash. The `LIKE` pattern of the
database says the same of validated scopes, because its wildcards are escaped and
validated scopes have only lowercase letters.
-/

namespace Singularmem.Core

open Library

variable {platform : Platform}

namespace Scope

/-- The prefixes of a scope, from the joined segments read so far. -/
def ancestorsFrom (acc : String) : List String → List String
  | [] => []
  | segment :: rest =>
    let next := (if acc = "" then acc else acc ++ "/") ++ segment
    next :: ancestorsFrom next rest

/-- Every prefix of a normalised scope, shortest first, ending with the scope itself. -/
def ancestors (scope : String) : List String := ancestorsFrom "" (split '/' scope)

/-- Non-empty segments of scope characters between slashes. -/
def Normalised (scope : String) : Prop :=
  ∃ segments : List (List Char), segments ≠ [] ∧ scope.toList = ['/'].intercalate segments ∧
    ∀ segment ∈ segments, segment ≠ [] ∧ ∀ char ∈ segment, isScopeChar char

end Scope

namespace ScopeFilter

/-- A filter that includes descendants. -/
def descendants (platform : Platform) (path : String) : Except Error ScopeFilter :=
  return { path := ← Scope.validate platform path, exact := false }

/-- A filter for one path, the source's `exact`. -/
def exactly (platform : Platform) (path : String) : Except Error ScopeFilter :=
  return { path := ← Scope.validate platform path, exact := true }

/-- The text that follows a prefix. -/
def stripPrefix (text path : String) : Option (List Char) :=
  if path.toList <+: text.toList then some (text.toList.drop path.toList.length) else none

/-- Whether a stored scope satisfies a filter, the source's `matches`. -/
def admits (filter : ScopeFilter) : Option String → Bool
  | none => false
  | some scope =>
    if filter.exact then scope = filter.path
    else scope = filter.path ||
      (stripPrefix scope filter.path).any fun rest => rest.head? = some '/'

end ScopeFilter

/-- A scope character is no separator, no NUL and no escape character, and is its own
lowercase letter. -/
theorem isScopeChar_plain {char : Char} (valid : isScopeChar char) :
    char ≠ '/' ∧ char ≠ Char.ofNat 0 ∧ char.toLower = char := by
  refine ⟨?_, ?_, ?_⟩
  · rintro rfl
    cases valid
  · rintro rfl
    cases valid
  · refine dif_neg ?_
    rintro ⟨low, high⟩
    delta isScopeChar Char.isLower Char.isDigit at valid
    simp only [Bool.or_eq_true, Bool.and_eq_true, decide_eq_true_eq, ge_iff_le,
      UInt32.le_iff_toNat_le] at valid low high
    rcases valid with (((lower | digit) | rfl) | rfl) | rfl
    · exact absurd (lower.1.trans high) (by decide)
    · exact absurd (low.trans digit.2) (by decide)
    · exact absurd low (by decide)
    · exact absurd high (by decide)
    · exact absurd low (by decide)

namespace Scope

/-- A valid segment is lowercased to scope characters. -/
theorem validateSegment_returned {segment lower : String}
    (returned : validateSegment platform segment = .ok lower) :
    lower.toList ≠ [] ∧ ∀ char ∈ lower.toList, isScopeChar char := by
  unfold validateSegment at returned
  split at returned
  case isTrue => cases returned
  case isFalse nonempty =>
    split at returned
    case isTrue => cases returned
    case isFalse =>
      split at returned
      case isTrue => cases returned
      case isFalse =>
        dsimp only at returned
        split at returned
        case isTrue => cases returned
        case isFalse valid =>
          cases returned
          constructor
          · simpa using nonempty
          · simpa using valid

/-- **Validation returns normalised scopes.** -/
theorem validate_normalised {raw scope : String} (returned : validate platform raw = .ok scope) :
    Normalised scope := by
  unfold validate at returned
  split at returned
  case isTrue => cases returned
  case isFalse =>
    dsimp only at returned
    split at returned
    case isTrue => cases returned
    case isFalse =>
      obtain ⟨segments, traversed, returned⟩ := except_bind_returned returned
      have shape : scope = "/".intercalate segments := by
        split at returned
        case isTrue => cases returned
        case isFalse =>
          split at returned
          case isTrue => cases returned
          case isFalse =>
            cases returned
            rfl
      refine ⟨segments.map String.toList, ?_, ?_, ?_⟩
      · intro none
        have count := mapM_returned_length traversed
        rw [List.map_eq_nil_iff.mp none, split, List.length_map, List.length_nil] at count
        exact List.splitOn_ne_nil _ _ (List.length_eq_zero_iff.mp count.symm)
      · rw [shape, String.toList_intercalate]
        rfl
      · intro chars member
        obtain ⟨segment, segmentIn, rfl⟩ := List.mem_map.mp member
        obtain ⟨input, _, computed⟩ := exists_of_mem_mapM traversed segmentIn
        exact validateSegment_returned computed

/-- A normalised scope has only slashes and scope characters. -/
theorem Normalised.chars {scope : String} (normalised : Normalised scope) :
    ∀ char ∈ scope.toList, char = '/' ∨ isScopeChar char := by
  obtain ⟨segments, _, written, valid⟩ := normalised
  intro char member
  rw [written] at member
  exact (mem_intercalate member).imp_right fun ⟨segment, segmentIn, inside⟩ =>
    (valid segment segmentIn).2 char inside

/-- It has no NUL. -/
theorem Normalised.noNul {scope : String} (normalised : Normalised scope) :
    ∀ char ∈ scope.toList, char ≠ Char.ofNat 0 := by
  intro char member
  rcases normalised.chars char member with rfl | valid
  · decide
  · exact (isScopeChar_plain valid).2.1

/-- It is in lowercase. -/
theorem Normalised.lower {scope : String} (normalised : Normalised scope) :
    scope.toList.map Char.toLower = scope.toList := by
  refine (List.map_congr_left fun char member => ?_).trans (List.map_id' _)
  rcases normalised.chars char member with rfl | valid
  · rfl
  · exact (isScopeChar_plain valid).2.2

/-- Prefixes from joined segments continue them. -/
theorem ancestorsFrom_toList {acc : String} (started : acc ≠ "") (segments : List String) :
    (ancestorsFrom acc segments).map String.toList =
      (leadingPaths '/' (segments.map String.toList)).map fun path => acc.toList ++ '/' :: path := by
  induction segments generalizing acc with
  | nil => rfl
  | cons segment rest inductionHypothesis =>
    have next : acc ++ "/" ++ segment ≠ "" := by simp [started]
    rw [ancestorsFrom, if_neg started, List.map_cons, inductionHypothesis next]
    simp [leadingPaths, Function.comp_def]

/-- The prefixes of a normalised scope are its leading paths. -/
theorem ancestors_toList {scope : String} (normalised : Normalised scope) :
    (ancestors scope).map String.toList = leadingPaths '/' (scope.toList.splitOn '/') := by
  obtain ⟨segments, nonempty, written, valid⟩ := normalised
  have plain : ∀ segment ∈ segments, '/' ∉ segment := fun segment segmentIn slash =>
    (isScopeChar_plain ((valid segment segmentIn).2 '/' slash)).1 rfl
  rw [ancestors, split, written, List.splitOn_intercalate '/' plain nonempty]
  cases segments with
  | nil => exact absurd rfl nonempty
  | cons segment rest =>
    have started : String.ofList segment ≠ "" := by
      simpa using (valid segment List.mem_cons_self).1
    rw [List.map_cons, ancestorsFrom, if_pos rfl]
    simp [ancestorsFrom_toList started, leadingPaths, Function.comp_def]

/-- **The prefixes of a normalised scope** are itself and the paths it continues with a
slash. -/
theorem mem_ancestors_iff {scope path : String} (normalised : Normalised scope) :
    path ∈ ancestors scope ↔ Above '/' path.toList scope.toList := by
  have listed : path ∈ ancestors scope ↔
      path.toList ∈ leadingPaths '/' (scope.toList.splitOn '/') := by
    rw [← ancestors_toList normalised, List.mem_map]
    constructor
    · intro member
      exact ⟨path, member, rfl⟩
    · rintro ⟨other, member, same⟩
      rwa [← String.toList_inj.mp same]
  obtain ⟨segments, nonempty, written, valid⟩ := normalised
  have plain : ∀ segment ∈ segments, '/' ∉ segment := fun segment segmentIn slash =>
    (isScopeChar_plain ((valid segment segmentIn).2 '/' slash)).1 rfl
  rw [listed, written, List.splitOn_intercalate '/' plain nonempty]
  exact mem_leadingPaths_iff nonempty plain

end Scope

/-- An escaped character matches itself, without regard to case. -/
theorem like_escaped_char (char : Char) (pattern text : List Char) :
    like ((if char ∈ ['\\', '%', '_'] then ['\\', char] else [char]) ++ pattern) text ↔
      ∃ other rest, text = other :: rest ∧ other.toLower = char.toLower ∧ like pattern rest := by
  have unescaped : char ∉ ['\\', '%', '_'] → (char ≠ '%') ∧ (char ≠ '_') ∧ (char ≠ '\\') := by
    simp +contextual
  cases text with
  | nil =>
    by_cases special : char ∈ ['\\', '%', '_']
    · rw [if_pos special, List.cons_append, List.cons_append, List.nil_append, like]
      simp
    · obtain ⟨notPercent, notUnderscore, notEscape⟩ := unescaped special
      rw [if_neg special, List.cons_append, List.nil_append, like]
      · simp
      all_goals simp [notEscape, notPercent, notUnderscore]
  | cons other rest =>
    have shape : (decide (char.toLower = other.toLower) && like pattern rest) = true ↔
        ∃ first later, other :: rest = first :: later ∧ first.toLower = char.toLower ∧
          like pattern later := by
      rw [Bool.and_eq_true, decide_eq_true_eq]
      constructor
      · rintro ⟨same, matched⟩
        exact ⟨other, rest, rfl, same.symm, matched⟩
      · rintro ⟨first, later, listed, same, matched⟩
        cases listed
        exact ⟨same.symm, matched⟩
    by_cases special : char ∈ ['\\', '%', '_']
    · rw [if_pos special, List.cons_append, List.cons_append, List.nil_append, like]
      exact shape
    · obtain ⟨notPercent, notUnderscore, notEscape⟩ := unescaped special
      rw [if_neg special, List.cons_append, List.nil_append, like]
      · exact shape
      all_goals simp [notEscape, notPercent, notUnderscore]

/-- A pattern that begins with an escaped text matches what begins with that text, without
regard to case. -/
theorem like_escaped (path pattern text : List Char) :
    like (path.flatMap (fun char => if char ∈ ['\\', '%', '_'] then ['\\', char] else [char]) ++
      pattern) text ↔
    ∃ first rest, text = first ++ rest ∧ first.map Char.toLower = path.map Char.toLower ∧
      like pattern rest := by
  induction path generalizing text with
  | nil => simp
  | cons char path inductionHypothesis =>
    rw [List.flatMap_cons, List.append_assoc, like_escaped_char]
    constructor
    · rintro ⟨other, later, rfl, same, matched⟩
      obtain ⟨first, rest, rfl, agree, ends⟩ := (inductionHypothesis later).mp matched
      exact ⟨other :: first, rest, rfl, by rw [List.map_cons, List.map_cons, same, agree], ends⟩
    · rintro ⟨first, rest, rfl, agree, ends⟩
      cases first with
      | nil => cases agree
      | cons other first =>
        obtain ⟨same, agree⟩ := List.cons.inj agree
        exact ⟨other, first ++ rest, rfl, same,
          (inductionHypothesis _).mpr ⟨first, rest, rfl, agree, ends⟩⟩

/-- A slash and a percent sign match a slash and any text. -/
theorem like_slash_percent {text : List Char} (lower : text.map Char.toLower = text) :
    like ['/', '%'] text ↔ ∃ rest, text = '/' :: rest := by
  cases text with
  | nil => simp [like]
  | cons char rest =>
    obtain ⟨same, _⟩ := List.cons.inj lower
    have anything : like ['%'] rest := by
      rw [like, List.any_eq_true]
      exact ⟨[], by simp, rfl⟩
    rw [like, anything, same]
    · simp only [Bool.and_true, decide_eq_true_eq]
      constructor
      · rintro slash
        exact ⟨rest, by rw [← slash]; rfl⟩
      · rintro ⟨_, listed⟩
        rw [(List.cons.inj listed).1]
        rfl
    all_goals simp

/-- The pattern of a normalised path matches the normalised scopes that continue it with a
slash. -/
theorem like_escape_iff {path scope : String} (pathNormalised : Scope.Normalised path)
    (scopeNormalised : Scope.Normalised scope) :
    like (ScopeFilter.escape path ++ ['/', '%']) scope.toList ↔
      ∃ rest, scope.toList = path.toList ++ '/' :: rest := by
  have lower := scopeNormalised.lower
  rw [ScopeFilter.escape, like_escaped, pathNormalised.lower]
  constructor
  · rintro ⟨first, later, parts, same, ends⟩
    rw [parts, List.map_append] at lower
    obtain ⟨firstLower, laterLower⟩ := List.append_inj lower (by simp)
    obtain ⟨rest, rfl⟩ := (like_slash_percent laterLower).mp ends
    exact ⟨rest, by rw [parts, ← same, firstLower]⟩
  · rintro ⟨rest, parts⟩
    rw [parts, List.map_append] at lower
    obtain ⟨pathLower, restLower⟩ := List.append_inj lower (by simp)
    exact ⟨path.toList, '/' :: rest, parts, pathLower, (like_slash_percent restLower).mpr ⟨rest, rfl⟩⟩

namespace ScopeFilter

/-- Both constructors keep a validated path. -/
theorem descendants_returned {path : String} {filter : ScopeFilter}
    (built : descendants platform path = .ok filter) :
    Scope.Normalised filter.path ∧ filter.exact = false := by
  obtain ⟨validated, returned, rest⟩ := except_bind_returned built
  cases rest
  exact ⟨Scope.validate_normalised returned, rfl⟩

/-- An exact filter as well. -/
theorem exactly_returned {path : String} {filter : ScopeFilter}
    (built : exactly platform path = .ok filter) :
    Scope.Normalised filter.path ∧ filter.exact = true := by
  obtain ⟨validated, returned, rest⟩ := except_bind_returned built
  cases rest
  exact ⟨Scope.validate_normalised returned, rfl⟩

/-- An exact filter admits its path. -/
theorem admits_exact {filter : ScopeFilter} (exact : filter.exact) (scope : String) :
    filter.admits (some scope) ↔ scope = filter.path := by
  simp [admits, exact]

/-- A filter with descendants admits the scopes that its path lies above. -/
theorem admits_above {filter : ScopeFilter} (descends : filter.exact = false) (scope : String) :
    filter.admits (some scope) ↔ Above '/' filter.path.toList scope.toList := by
  have stripped : (stripPrefix scope filter.path).any (fun rest => rest.head? = some '/') ↔
      ∃ rest, scope.toList = filter.path.toList ++ '/' :: rest := by
    rw [stripPrefix]
    split
    case isTrue begins =>
      obtain ⟨rest, parts⟩ := begins
      rw [← parts, List.drop_left]
      cases rest <;> simp
    case isFalse differs =>
      constructor
      · rintro ⟨⟩
      · rintro ⟨rest, parts⟩
        exact absurd ⟨_, parts.symm⟩ differs
  simp [admits, descends, Above, stripped, String.toList_inj]

/-- **The database and memory evaluate a filter alike** on normalised scopes. -/
theorem sqlClause_eq_admits {filter : ScopeFilter} (pathNormalised : Scope.Normalised filter.path)
    {scope : Option String} (normalised : ∀ stored ∈ scope, Scope.Normalised stored) :
    filter.sqlClause scope = filter.admits scope := by
  cases scope with
  | none => rfl
  | some scope =>
    have scopeNormalised := normalised scope rfl
    cases kind : filter.exact with
    | true => simp [sqlClause, admits, kind]
    | false =>
      have patternVisible : (escape filter.path ++ ['/', '%']).takeWhile (· ≠ Char.ofNat 0) =
          escape filter.path ++ ['/', '%'] := by
        refine List.takeWhile_eq_self_iff.mpr ?_
        intro char member
        suffices char ≠ Char.ofNat 0 by simpa
        rcases List.mem_append.mp member with escaped | ending
        · obtain ⟨source, sourceIn, written⟩ := List.mem_flatMap.mp escaped
          have sourceVisible := pathNormalised.noNul source sourceIn
          split at written
          · simp only [List.mem_cons, List.not_mem_nil, or_false] at written
            rcases written with rfl | rfl
            · decide
            · exact sourceVisible
          · rwa [List.mem_singleton.mp written]
        · simp only [List.mem_cons, List.not_mem_nil, or_false] at ending
          rcases ending with rfl | rfl <;> decide
      have scopeVisible : scope.toList.takeWhile (· ≠ Char.ofNat 0) = scope.toList :=
        List.takeWhile_eq_self_iff.mpr fun char member => by simpa using scopeNormalised.noNul char member
      rw [Bool.eq_iff_iff, admits_above kind, sqlClause]
      simp only [kind, patternVisible, scopeVisible]
      simp [like_escape_iff pathNormalised scopeNormalised, Above, String.toList_inj]

end ScopeFilter

end Singularmem.Core
