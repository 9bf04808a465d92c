import Singularmem.Core.Store

/-!
# Facts and their names

The types of the knowledge graph and the normalisation of entity names and predicates.
A fact revision states a subject, a predicate and an object, which is an entity or a
literal value, with a validity window and the instant it was recorded.
-/

namespace Singularmem.Graph

open Library Singularmem.Core

variable (platform : Platform)

/-- A reference to an entity. -/
structure EntityRef where
  id : EntityId
  name : String
deriving DecidableEq

/-- The object side of a fact. -/
inductive FactObject
  | entity (ref : EntityRef)
  | value (text : String)
deriving DecidableEq

/-- The object as text. -/
def FactObject.text : FactObject → String
  | .entity ref => ref.name
  | .value text => text

/-- One revision of a fact. -/
structure Fact where
  id : FactId
  subject : EntityRef
  predicate : String
  object : FactObject
  validFrom : Option Timestamp
  validTo : Option Timestamp
  confidence : Confidence
  sourceItemId : Option ItemId
  scope : Option String
  supersedes : Option FactId
  recordedAt : Timestamp
deriving DecidableEq

/-- The object side of a submitted fact. -/
inductive NewObject
  | entity (name : String) (kind : Option String)
  | value (text : String)
deriving DecidableEq

/-- The submitted object as text. -/
def NewObject.text : NewObject → String
  | .entity name _ => name
  | .value text => text

/-- A fact submitted for persistence. -/
structure NewFact where
  subject : String
  subjectKind : Option String
  predicate : String
  object : NewObject
  validFrom : Option Timestamp
  validTo : Option Timestamp
  confidence : Confidence
  sourceItemId : Option ItemId
  scope : Option String
deriving DecidableEq

/-- Which side of a fact an entity query matches. -/
inductive Direction
  | outgoing
  | incoming
  | both
deriving DecidableEq

/-- Filters shared by the read operations. -/
structure GraphQuery where
  scope : Option ScopeFilter
  asOf : Option Timestamp
  recordedAt : Option Timestamp
  direction : Direction
deriving DecidableEq

namespace Normalise

/-- Maximum length in bytes of a normalised entity name. -/
def maxEntityBytes : Nat := 256

/-- Maximum length in bytes of a normalised predicate. -/
def maxPredicateBytes : Nat := 64

/-- Normalise, trim, lowercase, drop apostrophes and join what lies between whitespace
by `_`. -/
def base (raw : String) : String :=
  let lowered := (platform.toLowercase (trim (platform.nfc raw))).toList.filter (· ≠ '\'')
  "_".intercalate (splitWhitespace (String.ofList lowered))

/-- Normalise an entity name. -/
def entityName (raw : String) : Except Error String :=
  let name := base platform raw
  if name = "" then .error (.validation "entity" "must be non-empty")
  else if name.utf8ByteSize > maxEntityBytes then
    .error (.validation "entity"
      ("exceeds " ++ toString maxEntityBytes ++ " bytes after normalisation"))
  else .ok name

/-- The characters of a predicate. -/
def isPredicateChar (char : Char) : Bool := char.isLower || char.isDigit || char = '_'

/-- Normalise a predicate. -/
def predicate (raw : String) : Except Error String :=
  let name := base platform raw
  if name = "" then .error (.validation "predicate" "must be non-empty")
  else if name.utf8ByteSize > maxPredicateBytes then
    .error (.validation "predicate" ("exceeds " ++ toString maxPredicateBytes ++ " bytes"))
  else if !name.toList.all isPredicateChar then
    .error (.validation "predicate" "must match [a-z0-9_]+ after normalisation")
  else .ok name

end Normalise

end Singularmem.Graph
