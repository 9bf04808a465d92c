import Singularmem.Search.Journal
import Singularmem.Search.ScopeTerms
import Mathlib.Data.List.Sort

/-!
# The text index

Parsing of query strings, and search over the documents of the index. The query parser,
the relevance of a document and the snippets come from the text search library and are
parameters; what the index composes from them is the source's.
-/

namespace Singularmem.Search

open Library Singularmem.Core

/-- The arithmetic of scores, which are single-precision numbers. -/
structure Arithmetic (Number : Type := F32) where
  ofNat : Nat → Number
  add : Number → Number → Number
  sub : Number → Number → Number
  div : Number → Number → Number
  /-- `partial_cmp`: a number that is not one compares with nothing. -/
  compare : Number → Number → Option Ordering

/-- Whether a score reaches a minimum. -/
def Arithmetic.atLeast (arithmetic : Arithmetic) (score least : F32) : Bool :=
  arithmetic.compare score least = some .gt || arithmetic.compare score least = some .eq

/-- What the strict query parser objects to. -/
inductive ParserError
  | syntaxError (message : String)
  | fieldDoesNotExist (name message : String)
  | other (message : String)

/-- Its text. -/
def ParserError.message : ParserError → String
  | .syntaxError message => message
  | .fieldDoesNotExist _ message => message
  | .other message => message

/-- A query: what the parser built, one term, or two clauses that must both match. -/
inductive TextQuery (Parsed : Type)
  | parsed (query : Parsed)
  | term (term : Field × String)
  | must (first second : TextQuery Parsed)

/-- The text search library. -/
structure TextEngine (Parsed : Type) where
  parseStrict : String → Except ParserError Parsed
  /-- Lenient parsing keeps what it can read; the number is how many terms it kept. -/
  parseLenient : String → Parsed × Nat
  /-- Whether a parsed query matches a document. -/
  satisfied : Parsed → Document → Bool
  relevance : TextQuery Parsed → Document → F32
  snippet : TextQuery Parsed → Document → String

variable {Parsed : Type} (engine : TextEngine Parsed) (arithmetic : Arithmetic)

/-- Whether a name could be a field that the caller meant. -/
def looksLikeIdentifier (name : String) : Bool :=
  match name.toList with
  | [] => false
  | first :: rest =>
    (first.isAlpha || first = '_') && rest.all fun char => char.isAlphanum || char = '_'

/-- Whether a parser error is one of prose: a stray operator, or a field prefix that is
no identifier. -/
def ParserError.ofProse : ParserError → Bool
  | .syntaxError _ => true
  | .fieldDoesNotExist name _ => !looksLikeIdentifier name
  | .other _ => false

/-- Parse a query string; prose falls back to the lenient parser. -/
def parseQuery (text : String) : Except Error Parsed :=
  match engine.parseStrict text with
  | .ok query => .ok query
  | .error error =>
    if error.ofProse then
      let (lenient, terms) := engine.parseLenient text
      if terms = 0 then .error (.queryParse error.message) else .ok lenient
    else .error (.queryParse error.message)

/-- Whether a query matches a document. -/
def TextEngine.matchesQuery : TextQuery Parsed → Document → Bool
  | .parsed query, document => engine.satisfied query document
  | .term term, document => document.hasTerm term
  | .must first second, document =>
    matchesQuery first document && matchesQuery second document

/-- One ranked hit. -/
structure Hit where
  id : ItemId
  score : F32
  snippet : Option String

/-- The hits of a text search, and how many documents matched. -/
structure SearchResults where
  hits : List Hit
  totalMatched : Nat

/-- Options of a text search. -/
structure SearchOptions where
  limit : Nat
  offset : Nat
  includeSnippets : Bool
  scope : Option ScopeFilter

/-- The matching documents with the best scores, best first. The collector panics on a
limit of zero. -/
def topDocs (query : TextQuery Parsed) (limit : Nat) (documents : List Document) :
    Except Error (List (F32 × Document)) :=
  if limit = 0 then .error .collectorPanic
  else
    let scored := (documents.filter (engine.matchesQuery query)).map fun document =>
      (engine.relevance query document, document)
    .ok ((scored.insertionSort fun left right => arithmetic.atLeast left.1 right.1).take limit)

/-- The identifier a document stores. -/
def readDocumentId (document : Document) : Except Error ItemId :=
  match document.texts.lookup .id with
  | none => .error (.indexCorrupted "document has no id field")
  | some text =>
    match ItemId.fromStr text with
    | none => .error (.indexCorrupted "invalid ULID stored")
    | some id => .ok id

/-- The query restricted to a filter. -/
def effectiveQuery (query : Parsed) : Option ScopeFilter → TextQuery Parsed
  | none => .parsed query
  | some filter => .must (.parsed query) (.term (scopeClause filter))

/-- The hit of a document. -/
def hitOf (query : TextQuery Parsed) (includeSnippets : Bool) (scored : F32 × Document) :
    Except Error Hit := do
  let id ← readDocumentId scored.2
  return ⟨id, scored.1, if includeSnippets then some (engine.snippet query scored.2) else none⟩

/-- A sum of 64-bit sizes. -/
def addSizes (left right : Nat) : Except Error Nat :=
  if left + right < 2 ^ 64 then .ok (left + right) else .error .sizeOverflow

/-- Execute a query and return ranked hits, the source's `Index::search`. -/
def searchText (documents : List Document) (query : Parsed) (options : SearchOptions) :
    Except Error SearchResults := do
  let effective := effectiveQuery query options.scope
  let room ← addSizes options.limit options.offset
  let ranked ← topDocs engine arithmetic effective room documents
  let hits ← ((ranked.drop options.offset).take options.limit).mapM
    (hitOf engine effective options.includeSnippets)
  return ⟨hits, (documents.filter (engine.matchesQuery effective)).length⟩

variable {engine arithmetic}

/-- The collector returns matching documents, no more than its limit. -/
theorem topDocs_returned {query : TextQuery Parsed} {limit : Nat} {documents : List Document}
    {ranked : List (F32 × Document)}
    (returned : topDocs engine arithmetic query limit documents = .ok ranked) :
    ranked.length ≤ limit ∧
      ∀ scored ∈ ranked, scored.2 ∈ documents ∧ engine.matchesQuery query scored.2 := by
  unfold topDocs at returned
  split at returned
  case isTrue => cases returned
  case isFalse =>
    cases returned
    refine ⟨List.length_take_le _ _, ?_⟩
    intro scored member
    obtain ⟨document, matching, rfl⟩ := List.mem_map.mp
      ((List.mem_insertionSort _).mp (List.mem_of_mem_take member))
    exact List.mem_filter.mp matching

/-- **A text search** returns at most its limit, and each hit is the identifier of a
document that has the term of the filter. -/
theorem searchText_returned {documents : List Document} {query : Parsed} {options : SearchOptions}
    {results : SearchResults}
    (returned : searchText engine arithmetic documents query options = .ok results) :
    results.hits.length ≤ options.limit ∧
      ∀ hit ∈ results.hits, ∃ document ∈ documents, readDocumentId document = .ok hit.id ∧
        ∀ filter ∈ options.scope, document.hasTerm (scopeClause filter) := by
  obtain ⟨room, _, returned⟩ := except_bind_returned returned
  obtain ⟨ranked, collected, returned⟩ := except_bind_returned returned
  obtain ⟨hits, read, returned⟩ := except_bind_returned returned
  cases returned
  obtain ⟨_, matching⟩ := topDocs_returned collected
  constructor
  · rw [mapM_returned_length read]
    exact List.length_take_le _ _
  · intro hit member
    obtain ⟨scored, scoredIn, computed⟩ := exists_of_mem_mapM read member
    obtain ⟨id, identified, rest⟩ := except_bind_returned computed
    cases rest
    obtain ⟨stored, matched⟩ := matching scored (List.mem_of_mem_drop (List.mem_of_mem_take scoredIn))
    refine ⟨scored.2, stored, identified, ?_⟩
    intro filter given
    rw [given, effectiveQuery, TextEngine.matchesQuery, Bool.and_eq_true] at matched
    exact matched.2

end Singularmem.Search
