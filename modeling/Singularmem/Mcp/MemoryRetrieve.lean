import Singularmem.Library.Ranking
import Singularmem.Retrieve.Claude

/-!
# The retrieval tool

The tool clamps the limit of a request and hands it to the retriever as the number of blocks.
The search below it keeps its own default limit. Over a store with a text index only, the tool
shows as many of the best documents as were asked for exactly where that limit suffices and
what is shown can be read.
-/

namespace Singularmem.Mcp

open Library Singularmem.Core Singularmem.Search Singularmem.Retrieve

/-- The errors of the reading tools. -/
inductive Error
  | retrieve (error : Retrieve.Error)
  | search (error : Search.Error)
  | core (error : Core.Error)
  | unknownAdapter (name : String)

/-- The configuration of a server. -/
structure Config where
  /-- The adapter of requests that name none. -/
  defaultAdapter : String
  knownAdapters : List Adapter
  /-- Whether the store is opened for reading only. -/
  readOnly : Bool

/-- The arguments of a retrieval. -/
structure MemoryRetrieveArgs where
  query : String
  limit : Option Nat
  adapter : Option String
  scope : Option String
  scopeExact : Option Bool

/-- What opening the files of a server gives: the store, and the indexes that exist. -/
structure StoreFiles where
  openStore : Bool → Except Core.Error Tables
  lexical : Option (Except Search.Error (List Document))
  semantic : Option (Except Search.Error VectorIndex)

/-- The text that the tool returns. -/
structure MemoryRetrieveOutput where
  text : String

/-- The adapter of a name, or the default one. -/
def findAdapter (config : Config) (name : Option String) : Except Error Adapter :=
  let wanted := name.getD config.defaultAdapter
  match config.knownAdapters.find? fun adapter => adapter.name = wanted with
  | some adapter => .ok adapter
  | none => .error (.unknownAdapter wanted)

variable {Parsed : Type} (engine : TextEngine Parsed) (neural : SemanticEngine)
  (arithmetic : Arithmetic) (platform : Platform)

/-- The filter that the arguments of a tool ask for. -/
def scopeFilter (scope : Option String) (isExact : Option Bool) :
    Except Error (Option ScopeFilter) :=
  match scope with
  | none => .ok none
  | some path =>
    if isExact.getD false then some <$> (ScopeFilter.exactly platform path).mapError .core
    else some <$> (ScopeFilter.descendants platform path).mapError .core

/-- The limit of a request, between 1 and 50. -/
def clampLimit (limit : Option Nat) : Nat := min (max (limit.getD 10) 1) 50

/-- The context that the tool renders. -/
def memoryContext (args : MemoryRetrieveArgs) (config : Config) (files : StoreFiles) :
    Except Error RetrievedContext := do
  let scope ← scopeFilter platform args.scope args.scopeExact
  let options : RetrieveOptions :=
    ⟨clampLimit args.limit, arithmetic.ofNat 0, .default, scope⟩
  let tables ← (files.openStore config.readOnly).mapError .core
  if files.lexical.isNone && files.semantic.isNone then throw (.search .noIndexes)
  else
    let lexical ← files.lexical.mapM fun opened => opened.mapError Error.search
    let semantic ← files.semantic.mapM fun opened => opened.mapError Error.search
    (retrieve engine neural arithmetic platform tables ⟨lexical, semantic, none⟩ args.query
      options).mapError .retrieve

/-- Handle a call of the retrieval tool. -/
def handleMemoryRetrieve (args : MemoryRetrieveArgs) (config : Config) (files : StoreFiles) :
    Except Error MemoryRetrieveOutput := do
  let adapter ← findAdapter config args.adapter
  let context ← memoryContext engine neural arithmetic platform args config files
  return ⟨adapter.format context⟩

/-- Scores are compared as their ranks are, and none is below zero: the ranking is exact. -/
structure ExactRanking {Rank : Type} [LinearOrder Rank] (rank : F32 → Rank) : Prop where
  compares : ∀ query document other,
    arithmetic.atLeast (engine.relevance query document) (engine.relevance query other) ↔
      rank (engine.relevance query other) ≤ rank (engine.relevance query document)
  nonnegative : ∀ query document,
    arithmetic.atLeast (engine.relevance query document) (arithmetic.ofNat 0)

variable {engine neural arithmetic platform}

section Ranked

variable {Rank : Type} [LinearOrder Rank] {rank : F32 → Rank}

/-- The matching documents. -/
def matching (engine : TextEngine Parsed) (query : TextQuery Parsed) (documents : List Document) :
    List Document := documents.filter (engine.matchesQuery query)

/-- The rank of a document. -/
def rankOfDocument (engine : TextEngine Parsed) (rank : F32 → Rank) (query : TextQuery Parsed)
    (document : Document) : Rank := rank (engine.relevance query document)

/-- The matching documents, best first. -/
def ranked (engine : TextEngine Parsed) (rank : F32 → Rank) (query : TextQuery Parsed)
    (documents : List Document) : List Document :=
  bestFirst (rankOfDocument engine rank query) (matching engine query documents)

/-- **The collector** gives the best documents. -/
theorem topDocs_ranked (exactly : ExactRanking engine arithmetic rank) (query : TextQuery Parsed)
    {limit : Nat} (some : limit ≠ 0) (documents : List Document) :
    topDocs engine arithmetic query limit documents =
      .ok (((ranked engine rank query documents).take limit).map fun document =>
        (engine.relevance query document, document)) := by
  have sorted : (ranked engine rank query documents).map
      (fun document => (engine.relevance query document, document)) =
      ((documents.filter (engine.matchesQuery query)).map fun document =>
        (engine.relevance query document, document)).insertionSort fun left right =>
          arithmetic.atLeast left.1 right.1 := by
    apply List.map_insertionSort
    intro document _ other _
    exact (exactly.compares query document other).symm
  unfold topDocs
  rw [if_neg some, List.map_take, sorted]

/-- The hit of a document. -/
structure Found (engine : TextEngine Parsed) (query : TextQuery Parsed) (document : Document)
    (hit : HybridHit) : Prop where
  id : readDocumentId document = .ok hit.id
  score : hit.score = engine.relevance query document
  kind : hit.scoreKind = .bm25

variable {documents : List Document} {parsed : Parsed} {text : String}
  {options : HybridSearchOptions} {lookup : Option (ItemId → Option String)}

/-- The hits of a text search. -/
theorem searchText_ranked (exactly : ExactRanking engine arithmetic rank)
    (some : options.limit ≠ 0) (fits : options.limit < 2 ^ 64) :
    (searchText engine arithmetic documents parsed
      ⟨options.limit, 0, options.includeSnippets, options.scope⟩).map SearchResults.hits =
      (((ranked engine rank (effectiveQuery parsed options.scope) documents).take
        options.limit).map fun document =>
          (engine.relevance (effectiveQuery parsed options.scope) document, document)).mapM
            (hitOf engine (effectiveQuery parsed options.scope) options.includeSnippets) := by
  unfold searchText addSizes
  rw [Nat.add_zero, if_pos fits]
  change Except.map _ (topDocs engine arithmetic _ _ _ >>= _) = _
  rw [topDocs_ranked exactly _ some]
  change Except.map _ (List.mapM _ (List.take _ (List.drop 0 _)) >>= _) = _
  rw [List.drop_zero, List.take_of_length_le (by
    rw [List.length_map]
    exact List.length_take_le _ _)]
  cases List.mapM (hitOf engine (effectiveQuery parsed options.scope) options.includeSnippets)
      _ with
  | error error => rfl
  | ok hits => rfl

/-- The hit that a search of the text index makes of a document. -/
theorem found_of_hit {query : TextQuery Parsed} {includeSnippets : Bool} {document : Document}
    {hit : Hit} (made : hitOf engine query includeSnippets
      (engine.relevance query document, document) = .ok hit) (rank : Nat) :
    Found engine query document
      ⟨hit.id, hit.score, .bm25, .some (rank + 1), none, hit.snippet⟩ := by
  obtain ⟨id, read, made⟩ := except_bind_returned made
  cases made
  exact ⟨read, rfl, rfl⟩

/-- **The hits of a search of the text index** are those of the best documents. -/
theorem search_returned (exactly : ExactRanking engine arithmetic rank)
    (some : options.limit ≠ 0) (fits : options.limit < 2 ^ 64)
    (accepted : parseQuery engine text = .ok parsed) {results : HybridSearchResults}
    (returned : HybridSearcher.search engine neural arithmetic ⟨.some documents, none, lookup⟩ text
      options = .ok results) :
    ((ranked engine rank (effectiveQuery parsed options.scope) documents).take
      options.limit).Forall₂ (Found engine (effectiveQuery parsed options.scope))
        results.hits := by
  change searchLexicalOnly engine arithmetic documents text options = _ at returned
  unfold searchLexicalOnly at returned
  obtain ⟨query, read, returned⟩ := except_bind_returned returned
  rw [accepted] at read
  cases read
  obtain ⟨found, searched, returned⟩ := except_bind_returned returned
  cases returned
  have hits := @searchText_ranked _ engine arithmetic _ _ rank documents parsed options exactly
    some fits
  rw [searched] at hits
  have aligned := mapM_aligned hits.symm
  rw [List.forall₂_map_left_iff] at aligned
  apply List.forall₂_map_right_iff.mpr
  apply forall₂_trans _ aligned (forall₂_zipIdx found.hits 0)
  rintro document hit ⟨_, rank⟩ made rfl
  exact found_of_hit made rank

/-- **A search of the text index returns** where the identifiers can be read. -/
theorem search_succeeds (exactly : ExactRanking engine arithmetic rank)
    (some : options.limit ≠ 0) (fits : options.limit < 2 ^ 64)
    (accepted : parseQuery engine text = .ok parsed)
    (readable : ∀ document ∈ (ranked engine rank (effectiveQuery parsed options.scope)
      documents).take options.limit, ∃ id, readDocumentId document = .ok id) :
    ∃ results, HybridSearcher.search engine neural arithmetic ⟨.some documents, none, lookup⟩ text
      options = .ok results := by
  obtain ⟨hits, read⟩ : ∃ hits, (((ranked engine rank (effectiveQuery parsed options.scope)
      documents).take options.limit).map fun document =>
        (engine.relevance (effectiveQuery parsed options.scope) document, document)).mapM
          (hitOf engine (effectiveQuery parsed options.scope) options.includeSnippets) =
      .ok hits := by
    apply mapM_succeeds
    intro scored member
    obtain ⟨document, inRanked, rfl⟩ := List.mem_map.mp member
    obtain ⟨id, identified⟩ := readable document inRanked
    unfold hitOf
    rw [identified]
    exact ⟨_, rfl⟩
  have searched := @searchText_ranked _ engine arithmetic _ _ rank documents parsed options exactly
    some fits
  rw [read] at searched
  change ∃ results, searchLexicalOnly engine arithmetic documents text options = .ok results
  unfold searchLexicalOnly
  rw [accepted]
  cases found : searchText engine arithmetic documents parsed
      ⟨options.limit, 0, options.includeSnippets, options.scope⟩ with
  | error error =>
    rw [found] at searched
    cases searched
  | ok results =>
    change ∃ outcome, (searchText engine arithmetic documents parsed
      ⟨options.limit, 0, options.includeSnippets, options.scope⟩ >>= _) = .ok outcome
    rw [found]
    exact ⟨_, rfl⟩

end Ranked

section Retrievals

variable {Rank : Type} [LinearOrder Rank] {rank : F32 → Rank} {tables : Tables}
  {documents : List Document} {parsed : Parsed}

/-- The block shows the stored item of a document, with its score. -/
def Shows (engine : TextEngine Parsed) (platform : Platform) (tables : Tables)
    (query : TextQuery Parsed) (document : Document) (block : MemoryBlock) : Prop :=
  ∃ id item, readDocumentId document = .ok id ∧ loadItem platform tables id = .ok item ∧
    block = ⟨id, item.content, engine.relevance query document, .bm25, item.source, item.tags,
      item.createdAt, item.scope⟩

/-- A block made of the hit of a document shows it. -/
theorem shows_of_block {query : TextQuery Parsed} {document : Document} {hit : HybridHit}
    {block : MemoryBlock} (found : Found engine query document hit)
    (made : blockOf platform tables hit = .ok block) :
    Shows engine platform tables query document block := by
  obtain ⟨item, loaded, made⟩ := except_bind_returned made
  cases made
  refine ⟨hit.id, item, found.id, mapError_returned loaded, ?_⟩
  rw [found.score, found.kind]

/-- The rankers that a retrieval uses are those it was given. -/
theorem effectiveSearcher_text (options : RetrieveOptions) : ∃ lookup,
    effectiveSearcher tables ⟨some documents, none, none⟩ options =
      ⟨some documents, none, lookup⟩ := by
  unfold effectiveSearcher
  split
  · exact ⟨_, rfl⟩
  · exact ⟨_, rfl⟩

/-- No hit of a document is too weak. -/
theorem filter_found (exactly : ExactRanking engine arithmetic rank) {query : TextQuery Parsed}
    {chosen : List Document} {hits : List HybridHit}
    (found : chosen.Forall₂ (Found engine query) hits) :
    (hits.filter fun hit => arithmetic.atLeast hit.score (arithmetic.ofNat 0)) = hits := by
  apply List.filter_eq_self.mpr
  intro hit member
  obtain ⟨document, _, made⟩ := forall₂_right found member
  rw [made.score]
  exact exactly.nonnegative query document

/-- **What a retrieval over a text index reads**: the identifiers of the best documents of the
search, and the items of those it shows. -/
theorem retrieve_reads (exactly : ExactRanking engine arithmetic rank) {query : String}
    {options : RetrieveOptions} (some : options.search.limit ≠ 0)
    (fits : options.search.limit < 2 ^ 64) (least : options.minScore = arithmetic.ofNat 0)
    (accepted : parseQuery engine query = .ok parsed) {context : RetrievedContext}
    (returned : retrieve engine neural arithmetic platform tables ⟨.some documents, none, none⟩
      query options = .ok context) :
    trim query ≠ "" ∧ ∃ hits,
      ((ranked engine rank (effectiveQuery parsed options.scope) documents).take
        options.search.limit).Forall₂ (Found engine (effectiveQuery parsed options.scope)) hits ∧
      (hits.take options.maxBlocks).Forall₂
        (fun hit block => blockOf platform tables hit = .ok block) context.blocks := by
  unfold retrieve at returned
  split at returned
  case isTrue => cases returned
  case isFalse asked =>
    obtain ⟨results, searched, returned⟩ := except_bind_returned returned
    obtain ⟨blocks, read, returned⟩ := except_bind_returned returned
    cases returned
    obtain ⟨lookup, same⟩ := @effectiveSearcher_text tables documents options
    rw [same] at searched
    have found := @search_returned _ engine neural arithmetic _ _ rank documents parsed query
      { options.search with scope := options.scope } lookup exactly some fits accepted results
      (mapError_returned searched)
    rw [least, filter_found exactly found] at read
    exact ⟨asked, results.hits, found, mapM_aligned read⟩

/-- **The blocks of a retrieval** over a text index show the best documents of the search. -/
theorem shows_of_reads {query : TextQuery Parsed} {count : Nat} {chosen : List Document}
    {hits : List HybridHit} {blocks : List MemoryBlock}
    (found : chosen.Forall₂ (Found engine query) hits)
    (read : (hits.take count).Forall₂
      (fun hit block => blockOf platform tables hit = .ok block) blocks) :
    (chosen.take count).Forall₂ (Shows engine platform tables query) blocks := by
  apply forall₂_trans _ (List.forall₂_take count found) read
  intro document hit block made built
  exact shows_of_block made built

/-- **A retrieval over a text index returns** where the identifiers of the best documents can
be read, and the items of those it shows loaded. -/
theorem retrieve_succeeds (exactly : ExactRanking engine arithmetic rank) {query : String}
    {options : RetrieveOptions} (some : options.search.limit ≠ 0)
    (fits : options.search.limit < 2 ^ 64) (least : options.minScore = arithmetic.ofNat 0)
    (asked : trim query ≠ "") (accepted : parseQuery engine query = .ok parsed)
    (readable : ∀ document ∈ (ranked engine rank (effectiveQuery parsed options.scope)
      documents).take options.search.limit, ∃ id, readDocumentId document = .ok id)
    (loads : ∀ document ∈ ((ranked engine rank (effectiveQuery parsed options.scope)
      documents).take options.search.limit).take options.maxBlocks, ∀ id,
        readDocumentId document = .ok id → ∃ item, loadItem platform tables id = .ok item) :
    ∃ context, retrieve engine neural arithmetic platform tables ⟨.some documents, none, none⟩
      query options = .ok context := by
  obtain ⟨lookup, same⟩ := @effectiveSearcher_text tables documents options
  obtain ⟨results, searched⟩ := @search_succeeds _ engine neural arithmetic _ _ rank documents
    parsed query { options.search with scope := options.scope } lookup exactly some fits accepted
    readable
  have found := @search_returned _ engine neural arithmetic _ _ rank documents parsed query
    { options.search with scope := options.scope } lookup exactly some fits accepted results
    searched
  obtain ⟨blocks, read⟩ : ∃ blocks, ((results.hits.filter fun hit =>
      arithmetic.atLeast hit.score options.minScore).take options.maxBlocks).mapM
        (blockOf platform tables) = .ok blocks := by
    rw [least, filter_found exactly found]
    apply mapM_succeeds
    intro hit member
    obtain ⟨document, chosen, made⟩ :=
      forall₂_right (List.forall₂_take options.maxBlocks found) member
    obtain ⟨item, loaded⟩ := loads document chosen hit.id made.id
    unfold blockOf
    rw [loaded]
    exact ⟨_, rfl⟩
  unfold retrieve
  rw [if_neg asked, same, searched]
  change ∃ context, ((List.mapM (blockOf platform tables) _ : Except Retrieve.Error _) >>= _) =
    Except.ok context
  rw [read]
  exact ⟨_, rfl⟩

end Retrievals

section Calls

variable {Rank : Type} [LinearOrder Rank] {rank : F32 → Rank} {tables : Tables}
  {documents : List Document} {args : MemoryRetrieveArgs} {config : Config} {files : StoreFiles}

/-- A store that can be opened, next to a text index and no other. -/
structure TextOnly (config : Config) (files : StoreFiles) (tables : Tables)
    (documents : List Document) : Prop where
  store : files.openStore config.readOnly = .ok tables
  lexical : files.lexical = some (.ok documents)
  semantic : files.semantic = none

/-- What a request asks for: an adapter, a filter and a query. -/
structure Understood (engine : TextEngine Parsed) (platform : Platform) (args : MemoryRetrieveArgs)
    (config : Config) (adapter : Adapter) (filter : Option ScopeFilter) (parsed : Parsed) :
    Prop where
  adapter : findAdapter config args.adapter = .ok adapter
  scope : scopeFilter platform args.scope args.scopeExact = .ok filter
  query : parseQuery engine args.query = .ok parsed

/-- The tool honours its limit: the text is a rendering of the best of the documents that match
the query and the filter, as many as the clamped limit asks for or as there are. -/
def Honours (engine : TextEngine Parsed) (neural : SemanticEngine) (arithmetic : Arithmetic)
    (platform : Platform) (rank : F32 → Rank) (args : MemoryRetrieveArgs) (config : Config)
    (files : StoreFiles) (tables : Tables) (documents : List Document) : Prop :=
  ∃ adapter filter parsed context shown,
    Understood engine platform args config adapter filter parsed ∧
    handleMemoryRetrieve engine neural arithmetic platform args config files =
      .ok ⟨adapter.format context⟩ ∧
    memoryContext engine neural arithmetic platform args config files = .ok context ∧
    Best (rankOfDocument engine rank (effectiveQuery parsed filter))
      (matching engine (effectiveQuery parsed filter) documents) (clampLimit args.limit) shown ∧
    shown.Forall₂ (Shows engine platform tables (effectiveQuery parsed filter)) context.blocks

/-- The default limit of the search suffices for a request that is understood, and what the
search finds and the tool shows can be read. -/
def Answerable (engine : TextEngine Parsed) (platform : Platform) (rank : F32 → Rank)
    (args : MemoryRetrieveArgs) (config : Config) (tables : Tables) (documents : List Document) :
    Prop :=
  trim args.query ≠ "" ∧ ∃ adapter filter parsed,
    Understood engine platform args config adapter filter parsed ∧
    min (clampLimit args.limit) (matching engine (effectiveQuery parsed filter) documents).length ≤
      HybridSearchOptions.default.limit ∧
    (∀ document ∈ (ranked engine rank (effectiveQuery parsed filter) documents).take
      HybridSearchOptions.default.limit, ∃ id, readDocumentId document = .ok id) ∧
    ∀ document ∈ (ranked engine rank (effectiveQuery parsed filter) documents).take
      (clampLimit args.limit), ∀ id, readDocumentId document = .ok id →
        ∃ item, loadItem platform tables id = .ok item

/-- Over a text index alone the tool retrieves with that index. -/
theorem memoryContext_text (text : TextOnly config files tables documents)
    {filter : Option ScopeFilter}
    (built : scopeFilter platform args.scope args.scopeExact = .ok filter) :
    memoryContext engine neural arithmetic platform args config files =
      (retrieve engine neural arithmetic platform tables ⟨some documents, none, none⟩ args.query
        ⟨clampLimit args.limit, arithmetic.ofNat 0, .default, filter⟩).mapError .retrieve := by
  unfold memoryContext
  rw [built, text.lexical, text.semantic]
  change (Except.mapError Error.core (files.openStore config.readOnly) >>= _) = _
  rw [text.store]
  generalize retrieve engine neural arithmetic platform = retrieved
  rfl

/-- Cutting a list twice. -/
theorem take_take_of_le {α : Type} {elements : List α} {outer inner : Nat}
    (enough : min outer elements.length ≤ inner) :
    (elements.take inner).take outer = elements.take outer := by
  rw [List.take_take]
  apply List.take_eq_take_iff.mpr
  omega

/-- The default limit of a search is one that the collector takes. -/
theorem default_limit_fits :
    HybridSearchOptions.default.limit ≠ 0 ∧ HybridSearchOptions.default.limit < 2 ^ 64 := by
  decide

/-- Where the default limit of a search suffices, what is shown is not cut before. -/
theorem shown_uncut {query : TextQuery Parsed}
    (room : min (clampLimit args.limit) (matching engine query documents).length ≤
      HybridSearchOptions.default.limit) :
    ((ranked engine rank query documents).take HybridSearchOptions.default.limit).take
      (clampLimit args.limit) = (ranked engine rank query documents).take
        (clampLimit args.limit) := by
  apply take_take_of_le
  rw [ranked, bestFirst_perm.length_eq]
  exact room

/-- A request that is answered as it should be was answerable. -/
theorem answerable_of_honours (exactly : ExactRanking engine arithmetic rank)
    (text : TextOnly config files tables documents)
    (honours : Honours engine neural arithmetic platform rank args config files tables documents) :
    Answerable engine platform rank args config tables documents := by
  obtain ⟨adapter, filter, parsed, context, shown, understood, _, returned, best, shows⟩ := honours
  rw [memoryContext_text text understood.scope] at returned
  obtain ⟨asked, hits, found, read⟩ := retrieve_reads exactly default_limit_fits.1
    default_limit_fits.2 rfl understood.query (mapError_returned returned)
  have total : (ranked engine rank (effectiveQuery parsed filter) documents).length =
      (matching engine (effectiveQuery parsed filter) documents).length :=
    bestFirst_perm.length_eq
  have counted := (shows_of_reads found read).length_eq
  rw [← shows.length_eq, best.length, List.length_take, List.length_take, total] at counted
  have room : min (clampLimit args.limit)
      (matching engine (effectiveQuery parsed filter) documents).length ≤
        HybridSearchOptions.default.limit := by
    dsimp only at counted
    omega
  refine ⟨asked, adapter, filter, parsed, understood, room, ?_, ?_⟩
  · intro document chosen
    obtain ⟨hit, _, made⟩ := forall₂_left found chosen
    exact ⟨hit.id, made.id⟩
  · intro document chosen id identified
    rw [← shown_uncut room] at chosen
    obtain ⟨block, _, otherId, item, otherwise, loaded, _⟩ :=
      forall₂_left (shows_of_reads found read) chosen
    rw [identified] at otherwise
    cases otherwise
    exact ⟨item, loaded⟩

/-- **An answerable request** is answered as it should be. -/
theorem honours_of_answerable (exactly : ExactRanking engine arithmetic rank)
    (text : TextOnly config files tables documents)
    (answerable : Answerable engine platform rank args config tables documents) :
    Honours engine neural arithmetic platform rank args config files tables documents := by
  obtain ⟨asked, adapter, filter, parsed, understood, room, readable, loads⟩ := answerable
  obtain ⟨context, retrieved⟩ := @retrieve_succeeds _ engine neural arithmetic platform _ _ rank
    tables documents parsed exactly args.query
    ⟨clampLimit args.limit, arithmetic.ofNat 0, .default, filter⟩ default_limit_fits.1
    default_limit_fits.2 rfl asked understood.query readable (by
      dsimp only
      rw [shown_uncut room]
      exact loads)
  obtain ⟨_, hits, found, read⟩ := retrieve_reads exactly default_limit_fits.1
    default_limit_fits.2 rfl understood.query retrieved
  have returned : memoryContext engine neural arithmetic platform args config files =
      .ok context := by
    rw [memoryContext_text text understood.scope, retrieved]
    rfl
  refine ⟨adapter, filter, parsed, context, _, understood, ?_, returned, Best.of_sort, ?_⟩
  · unfold handleMemoryRetrieve
    rw [understood.adapter, returned]
    rfl
  · have shows := shows_of_reads found read
    dsimp only at shows
    rw [shown_uncut room] at shows
    exact shows

/-- **The tool honours its limit** exactly where the default limit of the search below
suffices, for requests that are understood and items that can be read. -/
theorem honours_iff (exactly : ExactRanking engine arithmetic rank)
    (text : TextOnly config files tables documents) :
    Honours engine neural arithmetic platform rank args config files tables documents ↔
      Answerable engine platform rank args config tables documents :=
  ⟨answerable_of_honours exactly text, honours_of_answerable exactly text⟩

end Calls

/-- Whole numbers rank as they are. -/
theorem wholeNumbers_exact : ExactRanking wordEngine wholeNumbers BitVec.toNat := by
  have atLeast : ∀ left right : F32, wholeNumbers.atLeast left right ↔
      right.toNat ≤ left.toNat := by
    intro left right
    unfold Arithmetic.atLeast wholeNumbers
    simp only [Option.some.injEq, Bool.or_eq_true, decide_eq_true_eq, compare_gt_iff_gt,
      compare_eq_iff_eq]
    omega
  constructor
  · exact fun query document other => atLeast _ _
  · exact fun query document => (atLeast _ _).mpr (Nat.zero_le _)

/-- The readings of the call that stores a note. -/
def zebraEnv (draw : Nat) : Env := ⟨.epoch, fun _ => draw⟩

/-- A store with so many notes about one word. -/
def zebraStore (count : Nat) : Store :=
  let note : NewItem := ⟨"zebra", none, [], none, .object [], none, none⟩
  runItemCalls .ascii ((List.range count).map fun draw => (zebraEnv draw, .ingest note))
    ⟨false, .fresh⟩

/-- The documents of its notes. -/
def zebraDocuments (count : Nat) : List Document :=
  (List.range count).map fun draw =>
    indexItem ⟨⟨.fromParts 0 draw⟩, "zebra", .epoch, none, [], none, .object [], none, none⟩

/-- The store, and a text index of its notes. -/
def zebraFiles (count : Nat) : StoreFiles :=
  ⟨fun _ => .ok (zebraStore count).database.tables, some (.ok (zebraDocuments count)), none⟩

/-- A server that renders for Claude. -/
def claudeServer : Config := ⟨"claude", [claudeAdapter], true⟩

/-- A request for at most so many notes. -/
def askZebras (limit : Nat) : MemoryRetrieveArgs := ⟨"zebra", some limit, none, none, none⟩

theorem zebraFiles_text (count : Nat) :
    TextOnly claudeServer (zebraFiles count) (zebraStore count).database.tables
      (zebraDocuments count) := ⟨rfl, rfl, rfl⟩

/-- A request for notes is understood as one query. -/
theorem askZebras_understood (limit : Nat) :
    Understood wordEngine .ascii (askZebras limit) claudeServer claudeAdapter none "zebra" :=
  ⟨rfl, rfl, rfl⟩

/-- An outcome with a value. -/
theorem toOption_some {ε α : Type} {outcome : Except ε α} {value : α}
    (present : outcome.toOption = some value) : outcome = .ok value := by
  cases outcome with
  | error error => cases present
  | ok found =>
    cases present
    rfl

/-- Two of three notes are shown as asked. -/
theorem two_of_three_are_shown :
    Honours wordEngine threeNeighbours wholeNumbers .ascii BitVec.toNat (askZebras 2) claudeServer
      (zebraFiles 3) (zebraStore 3).database.tables (zebraDocuments 3) := by
  have every : ∀ document ∈ zebraDocuments 3, ∃ id, readDocumentId document = .ok id ∧
      ∃ item, loadItem .ascii (zebraStore 3).database.tables id = .ok item := by
    have checked : ∀ document ∈ zebraDocuments 3, ((readDocumentId document).toOption.bind
        fun id => (loadItem .ascii (zebraStore 3).database.tables id).toOption).isSome := by
      decide +kernel
    intro document member
    obtain ⟨item, found⟩ := Option.isSome_iff_exists.mp (checked document member)
    obtain ⟨id, read, loaded⟩ := Option.bind_eq_some_iff.mp found
    exact ⟨id, toOption_some read, item, toOption_some loaded⟩
  have stored : ∀ document, document ∈ ranked wordEngine BitVec.toNat (.parsed "zebra")
      (zebraDocuments 3) → document ∈ zebraDocuments 3 := fun document member =>
    List.mem_of_mem_filter (bestFirst_perm.mem_iff.mp member)
  refine (honours_iff wholeNumbers_exact (zebraFiles_text 3)).mpr ⟨by decide, claudeAdapter, none,
    "zebra", askZebras_understood 2, by decide +kernel, ?_, ?_⟩
  · intro document chosen
    obtain ⟨id, read, _⟩ := every document (stored document (List.mem_of_mem_take chosen))
    exact ⟨id, read⟩
  · intro document chosen id identified
    obtain ⟨other, read, loaded⟩ := every document (stored document (List.mem_of_mem_take chosen))
    rw [identified] at read
    cases read
    exact loaded

/-- Of 21 notes a request for 50 does not show all. -/
theorem search_default_cuts_request :
    ¬ Honours wordEngine threeNeighbours wholeNumbers .ascii BitVec.toNat (askZebras 50)
      claudeServer (zebraFiles 21) (zebraStore 21).database.tables (zebraDocuments 21) := by
  have matched : (matching wordEngine (.parsed "zebra") (zebraDocuments 21)).length = 21 := by
    decide +kernel
  intro honours
  obtain ⟨_, adapter, filter, parsed, understood, room, _⟩ :=
    answerable_of_honours wholeNumbers_exact (zebraFiles_text 21) honours
  obtain rfl : "zebra" = parsed := Except.ok.inj understood.query
  obtain rfl : none = filter := Except.ok.inj understood.scope
  change min 50 (matching wordEngine (.parsed "zebra") (zebraDocuments 21)).length ≤ 20 at room
  rw [matched] at room
  omega

end Singularmem.Mcp
