import Singularmem.Core.Text

/-!
# Scope paths

Validation and normalisation of scope paths, and the filter every read surface takes.
The database evaluates a filter as an equality or a `LIKE` pattern, whose letters match
without regard to ASCII case.
-/

namespace Singularmem.Core

variable (platform : Platform)

/-- Maximum number of `/`-separated segments. -/
def maxSegments : Nat := 8

/-- Maximum bytes per segment. -/
def maxSegmentBytes : Nat := 64

/-- Maximum bytes for the whole normalised path. -/
def maxScopeBytes : Nat := 512

/-- The characters of a lowercased segment. -/
def isScopeChar (char : Char) : Bool :=
  char.isLower || char.isDigit || char = '.' || char = '_' || char = '-'

namespace Scope

/-- `Error::Validation` for the scope. -/
def reject (reason : String) : Error := .validation "scope" reason

/-- Check one segment and lowercase it. -/
def validateSegment (segment : String) : Except Error String :=
  let lower := String.ofList (segment.toList.map Char.toLower)
  if segment = "" then .error (reject "empty segment (double slash)")
  else if segment = "." ∨ segment = ".." then
    .error (reject ("segment " ++ platform.debug segment ++ " is not allowed"))
  else if segment.utf8ByteSize > maxSegmentBytes then
    .error (reject ("segment exceeds " ++ toString maxSegmentBytes ++ " bytes"))
  else if !lower.toList.all isScopeChar then
    .error (reject ("segment " ++ platform.debug segment ++
      " contains characters outside [A-Za-z0-9._-]"))
  else .ok lower

/-- Validate and normalise a scope path. -/
def validate (raw : String) : Except Error String :=
  let trimmed := trimMatches (· = '/') raw
  if raw.utf8ByteSize > maxScopeBytes + 2 then
    .error (reject ("exceeds " ++ toString maxScopeBytes ++ " bytes (got " ++
      toString raw.utf8ByteSize ++ " bytes before normalisation)"))
  else if trimmed = "" then .error (reject "must contain at least one segment")
  else do
    let segments ← (split '/' trimmed).mapM (validateSegment platform)
    if segments.length > maxSegments then
      throw (reject ("more than " ++ toString maxSegments ++ " segments"))
    let joined := "/".intercalate segments
    if joined.utf8ByteSize > maxScopeBytes then
      throw (reject ("exceeds " ++ toString maxScopeBytes ++ " bytes"))
    return joined

end Scope

/-- A scope filter: a path, and whether only that path matches or also everything
beneath it. -/
structure ScopeFilter where
  path : String
  exact : Bool
deriving DecidableEq

/-- `LIKE` with the escape character `\`: `%` stands for any text and `_` for any
character; other characters match without regard to ASCII case. -/
def like : List Char → List Char → Bool
  | [], text => text.isEmpty
  | '%' :: pattern, text => text.tails.any (like pattern)
  | '_' :: pattern, text =>
    match text with
    | [] => false
    | _ :: rest => like pattern rest
  | ['\\'], _ => false
  | '\\' :: char :: pattern, text =>
    match text with
    | [] => false
    | other :: rest => char.toLower = other.toLower && like pattern rest
  | char :: pattern, text =>
    match text with
    | [] => false
    | other :: rest => char.toLower = other.toLower && like pattern rest

namespace ScopeFilter

/-- Escape the wildcards of a pattern. -/
def escape (path : String) : List Char :=
  path.toList.flatMap fun char => if char ∈ ['\\', '%', '_'] then ['\\', char] else [char]

/-- The clause of a filter on a stored scope: a missing scope satisfies none. Patterns
and texts end at their first NUL. -/
def sqlClause (filter : ScopeFilter) : Option String → Bool
  | none => false
  | some scope =>
    let visible := List.takeWhile (· ≠ Char.ofNat 0)
    if filter.exact then scope = filter.path
    else scope = filter.path ||
      like (visible (escape filter.path ++ ['/', '%'])) (visible scope.toList)

end ScopeFilter

end Singularmem.Core
