import Singularmem.Search.TextIndex
import Singularmem.Search.VectorIndex

/-!
# Hybrid search

A searcher holds a text index, a vector index or both, and perhaps a lookup of scopes.
The text index filters by scope itself; the nearest neighbours that the vector index finds
are filtered afterwards, through the lookup. Both lists are fused by reciprocal ranks. The
embedding of a text and the neighbours of a vector come from libraries and are parameters:
the keys they return may be any.
-/

namespace Singularmem.Search

open Library Singularmem.Core

/-- The embedding model and the neighbour search. -/
structure SemanticEngine where
  embed : String → Except Error (List F32)
  /-- At most so many keys near a vector, with their distances. -/
  neighbours : Graph → List F32 → Nat → Except Error (List (Nat × F32))

/-- One semantic hit. -/
structure SemanticHit where
  id : ItemId
  score : F32

/-- Options of a semantic search. -/
structure SemanticSearchOptions where
  limit : Nat
  minScore : F32

/-- The hits of a semantic search, and how many vectors are indexed. -/
structure SemanticSearchResults where
  hits : List SemanticHit
  totalIndexed : Nat

/-- Options of a hybrid search. -/
structure HybridSearchOptions where
  limit : Nat
  fetchMultiplier : Nat
  rrfK : Nat
  includeSnippets : Bool
  scope : Option ScopeFilter

/-- The default options. -/
def HybridSearchOptions.default : HybridSearchOptions := ⟨20, 3, 60, true, none⟩

/-- What the score of a hit is. -/
inductive ScoreKind
  | rrf | bm25 | cosine
deriving DecidableEq

/-- One hit of a hybrid search, with its 1-based ranks. -/
structure HybridHit where
  id : ItemId
  score : F32
  scoreKind : ScoreKind
  lexicalRank : Option Nat
  semanticRank : Option Nat
  snippet : Option String

/-- The hits of a hybrid search, and how many each ranker considered. -/
structure HybridSearchResults where
  hits : List HybridHit
  totalFused : Nat
  lexicalHits : Option Nat
  semanticHits : Option Nat

/-- A searcher over the rankers at hand. -/
structure HybridSearcher where
  lexical : Option (List Document)
  semantic : Option VectorIndex
  /-- The scope of an item, if it is known and scoped. -/
  scopeLookup : Option (ItemId → Option String)

section Fusion

variable {Number : Type} (arithmetic : Arithmetic Number)

/-- Add to the score of an item, which starts at zero. -/
def addScore (scores : List (ItemId × Number)) (id : ItemId) (amount : Number) :
    List (ItemId × Number) :=
  if id ∈ scores.map Prod.fst then
    scores.map fun entry => if entry.1 = id then (id, arithmetic.add entry.2 amount) else entry
  else scores ++ [(id, arithmetic.add (arithmetic.ofNat 0) amount)]

/-- Add the reciprocal rank of every item of a list. -/
def addReciprocals (k : Nat) (ranked : List ItemId) (scores : List (ItemId × Number)) :
    List (ItemId × Number) :=
  ranked.zipIdx.foldl (fun scores (id, rank) => addScore arithmetic scores id
    (arithmetic.div (arithmetic.ofNat 1)
      (arithmetic.add (arithmetic.ofNat k) (arithmetic.ofNat (rank + 1))))) scores

/-- Higher scores first, then lower identifiers. -/
def fusedOrder (left right : ItemId × Number) : Ordering :=
  ((arithmetic.compare right.2 left.2).getD .eq).then (compare left.1.ulid.toNat right.1.ulid.toNat)

/-- Reciprocal rank fusion of two ranked lists. -/
def rrfFuse (lexical semantic : List ItemId) (k : Nat) : List (ItemId × Number) :=
  (addReciprocals arithmetic k semantic (addReciprocals arithmetic k lexical [])).insertionSort
    fun left right => (fusedOrder arithmetic left right).isLE

end Fusion

variable {Parsed : Type} (engine : TextEngine Parsed) (neural : SemanticEngine)
  (arithmetic : Arithmetic)

/-- The indexed items nearest to a vector. Keys that the keymap does not name are
dropped. -/
def VectorIndex.search (handle : VectorIndex) (vector : List F32) (count : Nat) :
    Except Error (List SemanticHit) :=
  if vector.length ≠ handle.meta.dim then
    .error (.dimMismatch handle.meta.dim vector.length)
  else do
    let found ← neural.neighbours handle.inner vector count
    return found.filterMap fun (key, distance) =>
      (handle.keymap.forward.lookup key).map fun id =>
        ⟨id, arithmetic.sub (arithmetic.ofNat 1) distance⟩

/-- Embed a query and search near it. -/
def semanticSearch (handle : VectorIndex) (query : String) (options : SemanticSearchOptions) :
    Except Error SemanticSearchResults := do
  let vector ← neural.embed query
  let found ← handle.search neural arithmetic vector options.limit
  return ⟨found.filter fun hit => arithmetic.atLeast hit.score options.minScore,
    handle.keymap.forward.keys.card⟩

/-- Drop semantic hits whose scope does not satisfy the filter. -/
def scopeFilterHits (hits : List SemanticHit) (filter : Option ScopeFilter)
    (lookup : Option (ItemId → Option String)) : Except Error (List SemanticHit) :=
  match filter, lookup with
  | none, _ => .ok hits
  | some _, none => .error .scopeLookupMissing
  | some filter, some lookup => .ok (hits.filter fun hit => filter.admits (lookup hit.id))

/-- Multiplication of 64-bit sizes that stops at the largest. -/
def saturatingMul (left right : Nat) : Nat := min (left * right) (2 ^ 64 - 1)

/-- The last rank of an item in a list, from 1 on. -/
def rankOf (ids : List ItemId) (id : ItemId) : Option Nat :=
  ((ids.zipIdx.filter fun entry => entry.1 = id).getLast?).map fun entry => entry.2 + 1

/-- The snippet of the last text hit of an item. -/
def snippetOf (hits : List Hit) (id : ItemId) : Option String :=
  ((hits.filter fun hit => hit.id = id).getLast?).bind Hit.snippet

/-- Search the text index only. -/
def searchLexicalOnly (documents : List Document) (query : String) (options : HybridSearchOptions) :
    Except Error HybridSearchResults := do
  let parsed ← parseQuery engine query
  let found ← searchText engine arithmetic documents parsed
    ⟨options.limit, 0, options.includeSnippets, options.scope⟩
  let hits := found.hits.zipIdx.map fun (hit, rank) =>
    HybridHit.mk hit.id hit.score .bm25 (some (rank + 1)) none hit.snippet
  return ⟨hits, hits.length, some found.totalMatched, none⟩

/-- How many semantic candidates to fetch: twice as many when a filter will drop some. -/
def semanticLimit (options : HybridSearchOptions) (fetch unfiltered : Nat) : Nat :=
  if options.scope.isSome then saturatingMul fetch 2 else unfiltered

/-- A filter without a lookup cannot be evaluated on semantic hits. -/
def checkLookup (options : HybridSearchOptions) (lookup : Option (ItemId → Option String)) :
    Except Error PUnit :=
  if options.scope.isSome ∧ lookup.isNone then .error .scopeLookupMissing else .ok ⟨⟩

/-- Search the vector index only. -/
def searchSemanticOnly (handle : VectorIndex) (lookup : Option (ItemId → Option String))
    (query : String) (options : HybridSearchOptions) (fetch : Nat) :
    Except Error HybridSearchResults := do
  checkLookup options lookup
  let found ← semanticSearch neural arithmetic handle query
    ⟨semanticLimit options fetch options.limit, arithmetic.ofNat 0⟩
  let filtered ← scopeFilterHits found.hits options.scope lookup
  let hits := (filtered.take options.limit).zipIdx.map fun (hit, rank) =>
    HybridHit.mk hit.id hit.score .cosine none (some (rank + 1)) none
  return ⟨hits, hits.length, none, some found.totalIndexed⟩

/-- Search both indexes and fuse what they find. -/
def searchHybrid (documents : List Document) (handle : VectorIndex)
    (lookup : Option (ItemId → Option String)) (query : String) (options : HybridSearchOptions)
    (fetch : Nat) : Except Error HybridSearchResults := do
  checkLookup options lookup
  let parsed ← parseQuery engine query
  let lexical ← searchText engine arithmetic documents parsed
    ⟨fetch, 0, options.includeSnippets, options.scope⟩
  let found ← semanticSearch neural arithmetic handle query
    ⟨semanticLimit options fetch fetch, arithmetic.ofNat 0⟩
  let filtered ← scopeFilterHits found.hits options.scope lookup
  let lexicalIds := lexical.hits.map Hit.id
  let semanticIds := (filtered.take fetch).map SemanticHit.id
  let fused := rrfFuse arithmetic lexicalIds semanticIds options.rrfK
  let hits := (fused.take options.limit).map fun (id, score) =>
    HybridHit.mk id score .rrf (rankOf lexicalIds id) (rankOf semanticIds id)
      (snippetOf lexical.hits id)
  return ⟨hits, fused.length, some lexical.totalMatched, some found.totalIndexed⟩

/-- Run a search against whichever rankers the searcher holds. -/
def HybridSearcher.search (searcher : HybridSearcher) (query : String)
    (options : HybridSearchOptions) : Except Error HybridSearchResults :=
  let fetch := max (saturatingMul options.limit options.fetchMultiplier) 1
  match searcher.lexical, searcher.semantic with
  | some documents, none => searchLexicalOnly engine arithmetic documents query options
  | none, some handle =>
    searchSemanticOnly neural arithmetic handle searcher.scopeLookup query options fetch
  | some documents, some handle =>
    searchHybrid engine neural arithmetic documents handle searcher.scopeLookup query options fetch
  | none, none => .error .noIndexes

end Singularmem.Search
