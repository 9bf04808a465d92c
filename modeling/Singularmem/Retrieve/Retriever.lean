import Singularmem.Search.ScopeIsolation

/-!
# Retrieval

A retriever runs a hybrid search with its own filter, drops weak hits, and reads the full
items from the store. Where a filter is given and the searcher has no lookup, the store
becomes the lookup.
-/

namespace Singularmem.Retrieve

open Library Singularmem.Core Singularmem.Search

/-- The errors of the retrieve crate. -/
inductive Error
  | search (error : Search.Error)
  | core (error : Core.Error)
  | emptyQuery

/-- Options of a retrieval. The filter overrides that of the search options. -/
structure RetrieveOptions where
  maxBlocks : Nat
  minScore : F32
  search : HybridSearchOptions
  scope : Option ScopeFilter

/-- One block of a retrieved context. -/
structure MemoryBlock where
  id : ItemId
  content : String
  score : F32
  scoreKind : ScoreKind
  source : Option String
  tags : List String
  createdAt : Timestamp
  scope : Option String

/-- The result of a retrieval. -/
structure RetrievedContext where
  blocks : List MemoryBlock
  query : String
  totalConsidered : Nat

variable {Parsed : Type} (engine : TextEngine Parsed) (neural : SemanticEngine)
  (arithmetic : Arithmetic) (platform : Platform) (tables : Tables)

/-- The block of a hit. -/
def blockOf (hit : HybridHit) : Except Error MemoryBlock := do
  let item ← (loadItem platform tables hit.id).mapError .core
  return ⟨hit.id, item.content, hit.score, hit.scoreKind, item.source, item.tags, item.createdAt,
    item.scope⟩

/-- The searcher a retrieval uses: the store is the lookup where one is needed. -/
def effectiveSearcher (searcher : HybridSearcher) (options : RetrieveOptions) : HybridSearcher :=
  if options.scope.isSome ∧ searcher.scopeLookup.isNone then
    { searcher with scopeLookup := some (storeLookup tables) }
  else searcher

/-- Retrieve memory blocks for a query. -/
def retrieve (searcher : HybridSearcher) (query : String) (options : RetrieveOptions) :
    Except Error RetrievedContext :=
  if trim query = "" then .error .emptyQuery
  else do
    let results ← ((effectiveSearcher tables searcher options).search engine neural arithmetic query
      { options.search with scope := options.scope }).mapError .search
    let blocks ← ((results.hits.filter fun hit =>
      arithmetic.atLeast hit.score options.minScore).take options.maxBlocks).mapM
        (blockOf platform tables)
    return ⟨blocks, query, results.totalFused⟩

variable {engine neural arithmetic platform tables}

/-- A mapped error is an error. -/
theorem mapError_returned {α ε δ : Type} {change : ε → δ} {outcome : Except ε α} {value : α}
    (returned : outcome.mapError change = .ok value) : outcome = .ok value := by
  rcases outcome with error | result
  · cases returned
  · cases returned
    rfl

/-- A block has the scope of its item. -/
theorem blockOf_returned {hit : HybridHit} {block : MemoryBlock}
    (returned : blockOf platform tables hit = .ok block) :
    block.id = hit.id ∧ block.scope = storeLookup tables block.id := by
  obtain ⟨item, loaded, rest⟩ := except_bind_returned returned
  cases rest
  refine ⟨rfl, ?_⟩
  have found := mapError_returned loaded
  unfold loadItem at found
  unfold storeLookup scopeOf
  rcases stored : tables.items.find (.id hit.id) with _ | row
  · rw [stored] at found
    cases found
  · rw [stored] at found
    obtain ⟨createdAt, _, found⟩ := except_bind_returned found
    obtain ⟨metadata, _, found⟩ := except_bind_returned found
    cases found
    rfl

/-- The store agrees with itself. -/
theorem effectiveSearcher_agree {searcher : HybridSearcher} (options : RetrieveOptions)
    (agree : ScopesAgree platform searcher tables) :
    ScopesAgree platform (effectiveSearcher tables searcher options) tables := by
  unfold effectiveSearcher
  split
  · refine ⟨agree.documents, ?_, agree.validated⟩
    rintro lookup ⟨⟩ id scope present
    exact present
  · exact agree

/-- **A retrieval is isolated.** -/
theorem retrieve_isolated {searcher : HybridSearcher}
    (agree : ScopesAgree platform searcher tables) {query : String} {options : RetrieveOptions}
    {context : RetrievedContext}
    (returned : retrieve engine neural arithmetic platform tables searcher query options = .ok context) :
    context.blocks.length ≤ min options.search.limit options.maxBlocks ∧
      ∀ filter ∈ options.scope, ∀ block ∈ context.blocks,
        InScope tables filter block.id ∧ filter.admits block.scope := by
  unfold retrieve at returned
  split at returned
  case isTrue => cases returned
  case isFalse =>
    obtain ⟨results, searched, returned⟩ := except_bind_returned returned
    obtain ⟨blocks, read, returned⟩ := except_bind_returned returned
    cases returned
    obtain ⟨limited, inScope⟩ :=
      search_isolated (effectiveSearcher_agree options agree) (mapError_returned searched)
    constructor
    · rw [mapM_returned_length read]
      have few := List.length_filter_le (fun hit : HybridHit =>
        arithmetic.atLeast hit.score options.minScore) results.hits
      rw [List.length_take]
      exact le_min ((min_le_right _ _).trans (few.trans limited)) (min_le_left _ _)
    · intro filter given block member
      obtain ⟨hit, hitIn, built⟩ := exists_of_mem_mapM read member
      obtain ⟨sameId, sameScope⟩ := blockOf_returned built
      have within : InScope tables filter block.id := by
        rw [sameId]
        exact inScope filter given hit (List.mem_filter.mp (List.mem_of_mem_take hitIn)).1
      refine ⟨within, ?_⟩
      obtain ⟨row, rowIn, same, admitted⟩ := within
      rw [sameScope, ← same, storeLookup_of_row rowIn]
      exact admitted

/-- **Scope isolation.** Searches and retrievals return no more than their limits, and only
items whose scope satisfies the filter; a filter that semantic hits cannot be checked
against is refused. -/
theorem scope_isolation {searcher : HybridSearcher}
    (agree : ScopesAgree platform searcher tables) (query : String)
    (options : HybridSearchOptions) (retrieveOptions : RetrieveOptions) :
    (∀ results, searcher.search engine neural arithmetic query options = .ok results →
      results.hits.length ≤ options.limit ∧
        ∀ filter ∈ options.scope, ∀ hit ∈ results.hits, InScope tables filter hit.id) ∧
    (options.scope.isSome → searcher.semantic.isSome → searcher.scopeLookup = none →
      searcher.search engine neural arithmetic query options = .error .scopeLookupMissing) ∧
    ∀ context,
      retrieve engine neural arithmetic platform tables searcher query retrieveOptions = .ok context →
      context.blocks.length ≤ min retrieveOptions.search.limit retrieveOptions.maxBlocks ∧
        ∀ filter ∈ retrieveOptions.scope, ∀ block ∈ context.blocks,
          InScope tables filter block.id ∧ filter.admits block.scope := by
  refine ⟨?_, search_without_lookup, ?_⟩
  · intro results returned
    exact search_isolated agree returned
  · intro context returned
    exact retrieve_isolated agree returned

/-- A text engine that looks for one word in the content. -/
def wordEngine : TextEngine String where
  parseStrict := .ok
  parseLenient text := (text, 1)
  satisfied word document :=
    document.texts.any fun text => text.1 = .content ∧ word ∈ splitWhitespace text.2
  relevance _ document := BitVec.ofNat 32 document.texts.length
  snippet _ _ := ""

/-- Whole numbers as scores. -/
def wholeNumbers : Arithmetic where
  ofNat := BitVec.ofNat 32
  add := (· + ·)
  sub := (· - ·)
  div left right := if right = 0 then 0 else left / right
  compare left right := some (compare left.toNat right.toNat)

/-- Neighbours under the first three keys, whatever the vector. -/
def threeNeighbours : SemanticEngine where
  embed _ := .ok []
  neighbours _ _ count := .ok ([(0, 0), (1, 0), (2, 0)].take count)

/-- Two notes, each in a scope of its own. -/
def twoProjects : Store :=
  let note (scope : String) : NewItem :=
    ⟨"zebra inside", none, [], none, .object [], none, some scope⟩
  let env (draw : Nat) : Env := ⟨.epoch, fun _ => draw⟩
  runItemCalls .ascii [(env 1, .ingest (note "a/b")), (env 2, .ingest (note "a/bx"))]
    ⟨false, .fresh⟩

/-- A searcher over both notes, whose neighbours include an item the store does not know. -/
def twoProjectsSearcher : HybridSearcher where
  lexical := some (twoProjects.database.tables.items.rows.filterMap fun row =>
    (loadItem .ascii twoProjects.database.tables row.id).toOption.map indexItem)
  semantic :=
    let keymap := (Keymap.default.record ⟨1⟩ 0).record ⟨2⟩ 1
    some ⟨∅, ⟨"2", "", 0⟩, keymap.record ⟨7⟩ 2, ⟨0, ""⟩, [], 0, false, []⟩
  scopeLookup := none

/-- What the searcher indexes and what the store holds agree about scopes. -/
theorem twoProjects_agree : ScopesAgree .ascii twoProjectsSearcher twoProjects.database.tables := by
  refine ⟨?_, by rintro _ ⟨⟩, ?_⟩
  · rintro documents ⟨⟩ document member id identified
    have every : ∀ document ∈ twoProjectsSearcher.lexical.getD [],
        ∀ id ∈ (readDocumentId document).toOption, document.scopeTerms =
          Search.scopeTerms (storeLookup twoProjects.database.tables id) := by
      decide +kernel
    exact every document member id (by rw [identified]; rfl)
  · exact runItemCalls_scopesValidated _ fun row member => by cases member

/-- A retrieval for one project leaves out the sibling and the unknown neighbour. -/
theorem retrieval_leaves_out_siblings :
    ((retrieve wordEngine threeNeighbours wholeNumbers .ascii twoProjects.database.tables
      twoProjectsSearcher "zebra" ⟨5, 0, ⟨5, 3, 60, true, none⟩, some ⟨"a/b", false⟩⟩).toOption.map
        fun context => context.blocks.map fun block => block.scope) = some [some "a/b"] ∧
    ∀ context, retrieve wordEngine threeNeighbours wholeNumbers .ascii twoProjects.database.tables
      twoProjectsSearcher "zebra" ⟨5, 0, ⟨5, 3, 60, true, none⟩, some ⟨"a/b", false⟩⟩ = .ok context →
      context.blocks.length ≤ min 5 5 ∧ ∀ filter ∈ some (ScopeFilter.mk "a/b" false),
        ∀ block ∈ context.blocks, InScope twoProjects.database.tables filter block.id ∧
          filter.admits block.scope :=
  ⟨by decide +kernel, (scope_isolation twoProjects_agree "zebra" ⟨5, 3, 60, true, none⟩ _).2.2⟩

end Singularmem.Retrieve
