import Singularmem.Ingest.Chunk
import Singularmem.Ingest.Driver
import Singularmem.Library.Lines

/-!
# Transcript files

What the sources of Claude Code and of Codex share: a transcript is a file of lines, each a
JSON object; a line is read as text, skipped if blank, and parsed. The parser is a parameter
that reads one value from the front of a text.
-/

namespace Singularmem.Ingest

open Library Singularmem.Core

variable (platform : Platform)

/-- Whitespace between the tokens of JSON. -/
def isJsonSpace (char : Char) : Bool := char ∈ [' ', '\n', '\t', '\r']

/-- What the parser reads from the front of a text: a line, and what follows it. Lines are
read from objects and arrays. These end at their closing bracket, and are read the same
whatever follows it. -/
structure LineReader (Line : Type) where
  readValue : List Char → Except String (Line × List Char)
  selfDelineating : ∀ {text line rest}, readValue text = .ok (line, rest) →
    ∃ value bracket, text = value ++ bracket :: rest ∧ (bracket = '}' ∨ bracket = ']') ∧
      ∀ more, readValue (value ++ bracket :: more) = .ok (line, more)

/-- Parse a text: one value, and nothing but whitespace after it. -/
def LineReader.fromStr {Line : Type} (reader : LineReader Line) (text : List Char) :
    Except String Line :=
  match reader.readValue text with
  | .ok (line, rest) => if rest.all isJsonSpace then .ok line else .error "trailing characters"
  | .error error => .error error

/-- Nothing but whitespace follows the first value of a text: so it is for JSON. -/
def LineReader.Whole {Line : Type} (reader : LineReader Line) (text : List Char) : Prop :=
  ∀ line rest, reader.readValue text = .ok (line, rest) → rest.all isJsonSpace

/-- Drop a line feed at the end, and a carriage return before it. -/
def stripEol (text : List Char) : List Char :=
  match text.reverse with
  | '\n' :: '\r' :: rest => rest.reverse
  | '\n' :: rest => rest.reverse
  | _ => text

/-- Decode a line of a file. -/
def lineText (raw : List UInt8) : Except String (List Char) :=
  match String.fromUTF8? ⟨raw.toArray⟩ with
  | some text => .ok (stripEol text.toList)
  | none => .error "stream did not contain valid UTF-8"

/-- What a line contributes: what it yields, and whether it was deliberately filtered. -/
structure LineOutcome where
  yields : List (Except String NewItem)
  filtered : Bool

/-- A line that contributes nothing. -/
def LineOutcome.none : LineOutcome := ⟨[], false⟩

/-- A line that could not be read. -/
def LineOutcome.failed (error : String) : LineOutcome := ⟨[.error error], false⟩

/-- The items of a message. `none` is a structural line and not counted; an empty list is a
message deliberately filtered. -/
def LineOutcome.message : Option (List NewItem) → LineOutcome
  | .none => .none
  | some items => ⟨items.map .ok, items.isEmpty⟩

/-- Read a line of a file: decode it, skip it if it is blank, parse it, and go on. -/
def readLine {Line σ : Type} (reader : LineReader Line) (state : σ)
    (parsed : Line → LineOutcome × σ) (raw : List UInt8) : LineOutcome × σ :=
  match lineText raw with
  | .error error => (.failed error, state)
  | .ok text =>
    if trimChars text = [] then (.none, state)
    else
      match reader.fromStr text with
      | .error error => (.failed error, state)
      | .ok line => parsed line

/-- What the file system says about paths. -/
structure FileSystem where
  /-- The absolute form of a path with all links resolved, if it exists. -/
  canonicalize : String → Option String

/-- The components of a path, and whether it is absolute. -/
def components (path : String) : Bool × List String :=
  let rooted := path.toList.head? = some '/'
  let parts := (split '/' path).filter (· ≠ "")
  (rooted, match parts with
    | "." :: rest =>
      if rooted then rest.filter (· ≠ ".") else "." :: rest.filter (· ≠ ".")
    | parts => parts.filter (· ≠ "."))

/-- The last component of a path, if it is a name. -/
def fileName (path : String) : Option String :=
  (components path).2.getLast?.filter fun name => name ≠ "." ∧ name ≠ ".."

/-- True when a directory is the one of the filter: as raw paths, or once both resolve. -/
def filterMatches (fs : FileSystem) (filter : String) (cwd : Option String) : Bool :=
  match cwd with
  | none => false
  | some cwd => components filter = components cwd ||
      match fs.canonicalize filter, fs.canonicalize cwd with
      | some left, some right => components left = components right
      | _, _ => false

/-- `<prefix>/<basename of dir>` validated as a scope. -/
def deriveScope (agent dir : String) : Option String :=
  match fileName dir with
  | none => none
  | some base => (Scope.validate platform (agent ++ "/" ++ base)).toOption

/-- The scope of an item by the `cwd` of its metadata. -/
def derivedScope (agent : String) (item : NewItem) : Option String :=
  ((item.metadata.get "cwd").bind Json.asStr).bind (deriveScope platform agent)

/-- The explicit scope if it validates, else the derived one. -/
def defaultScope (agent : String) (scopeOverride : Option String) (item : NewItem) : Option String :=
  match scopeOverride with
  | none => derivedScope platform agent item
  | some explicit =>
    match Scope.validate platform explicit with
    | .ok scope => some scope
    | .error _ => derivedScope platform agent item

/-- The instant of a line, in its short form. -/
def occurredAt (timestamp : Option String) : Option String :=
  (timestamp.bind platform.parseTimestamp).map platform.displayTime

end Singularmem.Ingest
