import Singularmem.Core.Scope
import Mathlib.Data.List.Destutter
import Mathlib.Data.List.Sort

/-!
# Items

Memory items, the form in which they are submitted, and the checks a submission passes
before the store is touched. Metadata is a JSON value; tags are kept sorted and without
duplicates.
-/

namespace Singularmem.Core

variable (platform : Platform)

/-- A JSON value. Numbers keep their digits; objects keep the order of their members. -/
inductive Json
  | null
  | bool (value : Bool)
  | number (digits : String)
  | string (value : String)
  | array (elements : List Json)
  | object (members : List (String × Json))

namespace Json

mutual

/-- How deep arrays and objects nest. -/
def depth : Json → Nat
  | .array elements => depthElements elements + 1
  | .object members => depthMembers members + 1
  | _ => 0

/-- The depth of the deepest element. -/
def depthElements : List Json → Nat
  | [] => 0
  | element :: elements => max (depth element) (depthElements elements)

/-- The depth of the deepest member. -/
def depthMembers : List (String × Json) → Nat
  | [] => 0
  | (_, member) :: members => max (depth member) (depthMembers members)

end

mutual

/-- What parsing the serialised value gives: only numbers can change. -/
def reread : Json → Json
  | .number digits => .number (platform.readNumber digits)
  | .array elements => .array (rereadElements elements)
  | .object members => .object (rereadMembers members)
  | value => value

/-- Reread the elements of an array. -/
def rereadElements : List Json → List Json
  | [] => []
  | element :: elements => reread element :: rereadElements elements

/-- Reread the members of an object. -/
def rereadMembers : List (String × Json) → List (String × Json)
  | [] => []
  | (name, member) :: members => (name, reread member) :: rereadMembers members

end

/-- Nesting at which the parser gives up. -/
def recursionLimit : Nat := 128

/-- Parse the serialised form of a value. -/
def parse (value : Json) : Except Error Json :=
  if value.depth < recursionLimit then .ok (value.reread platform)
  else .error (.json "parsing stored metadata JSON" "recursion limit exceeded")

/-- A member of an object, by name. -/
def get : Json → String → Option Json
  | .object members, name => (members.find? (·.1 = name)).map Prod.snd
  | _, _ => none

/-- The text of a string value. -/
def asStr : Json → Option String
  | .string value => some value
  | _ => none

/-- The elements of an array. -/
def asArray : Json → Option (List Json)
  | .array elements => some elements
  | _ => none

/-- A text, or null. -/
def ofOption : Option String → Json
  | some text => .string text
  | none => .null

/-- Whether the value is an object. -/
def isObject : Json → Bool
  | .object _ => true
  | _ => false

/-- What the database checks of a metadata column: well-formed JSON, nested no deeper
than its parser goes, and an object. -/
def sqlValid (value : Json) : Bool := value.depth ≤ 1000 && value.isObject

/-- The name of a value's type. -/
def typeName : Json → String
  | .null => "null"
  | .bool _ => "boolean"
  | .number _ => "number"
  | .string _ => "string"
  | .array _ => "array"
  | .object _ => "object"

end Json

/-- A persisted memory item. -/
structure Item where
  id : ItemId
  content : String
  createdAt : Timestamp
  supersedes : Option ItemId
  tags : List String
  source : Option String
  metadata : Json
  externalId : Option String
  scope : Option String

/-- The form of an item that is submitted. -/
structure NewItem where
  content : String
  supersedes : Option ItemId
  tags : List String
  source : Option String
  metadata : Json
  externalId : Option String
  scope : Option String

/-- Maximum content length in bytes. -/
def maxContentBytes : Nat := 1048576

/-- Maximum tag length in bytes. -/
def maxTagBytes : Nat := 64

/-- Maximum source length in bytes. -/
def maxSourceBytes : Nat := 256

/-- Maximum `external_id` length in bytes. -/
def maxExternalIdBytes : Nat := 512

/-- The normalised tags and scope of a submission. -/
structure Validated where
  tags : List String
  scope : Option String

/-- The message for a text over its cap. -/
def exceedsCap (subject : String) (cap : Nat) (text : String) : String :=
  subject ++ "exceeds " ++ toString cap ++ "-byte cap (got " ++ toString text.utf8ByteSize ++ " bytes)"

/-- A text contains a NUL. -/
def hasNul (text : String) : Bool := text.toList.any (· = Char.ofNat 0)

/-- Check one tag. -/
def validateTag (tag : String) : Except Error String :=
  if tag = "" then .error (.validation "tags" "tag must be non-empty")
  else if tag.utf8ByteSize > maxTagBytes then
    .error (.validation "tags" (exceedsCap "tag " maxTagBytes tag))
  else if hasNul tag then .error (.validation "tags" "tag must not contain NUL bytes")
  else .ok tag

/-- Validate a tag list, then sort it and drop duplicates. -/
def normaliseTags (tags : List String) : Except Error (List String) := do
  let normalised ← tags.mapM validateTag
  return (normalised.insertionSort (· ≤ ·)).destutter (· ≠ ·)

/-- Check the content of a submission. -/
def validateContent (content : String) : Except Error Unit :=
  if content = "" then .error (.validation "content" "must be non-empty")
  else if content.utf8ByteSize > maxContentBytes then
    .error (.validation "content" (exceedsCap "" maxContentBytes content))
  else .ok ()

/-- Check the source label of a submission. -/
def validateSource : Option String → Except Error Unit
  | none => .ok ()
  | some source =>
    if source.utf8ByteSize > maxSourceBytes then
      .error (.validation "source" (exceedsCap "" maxSourceBytes source))
    else .ok ()

/-- Check the `external_id` of a submission. -/
def validateExternalId : Option String → Except Error Unit
  | none => .ok ()
  | some externalId =>
    if externalId = "" then .error (.validation "external_id" "must be non-empty when present")
    else if externalId.utf8ByteSize > maxExternalIdBytes then
      .error (.validation "external_id" (exceedsCap "" maxExternalIdBytes externalId))
    else if hasNul externalId then
      .error (.validation "external_id" "must not contain NUL bytes")
    else .ok ()

/-- Check that the metadata of a submission is an object. -/
def validateMetadata (metadata : Json) : Except Error Unit :=
  if metadata.isObject then .ok ()
  else .error (.validation "metadata"
    ("must be a JSON object (got " ++ metadata.typeName ++ ")"))

/-- Validate a submission. Does not touch the store. -/
def validate (item : NewItem) : Except Error Validated := do
  validateContent item.content
  validateSource item.source
  validateExternalId item.externalId
  validateMetadata item.metadata
  let tags ← normaliseTags item.tags
  let scope ← item.scope.mapM (Scope.validate platform)
  return ⟨tags, scope⟩

end Singularmem.Core
