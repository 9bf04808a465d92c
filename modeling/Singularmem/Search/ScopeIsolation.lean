import Singularmem.Search.HybridQuery
import Singularmem.Core.StoredScopes

/-!
# Scope isolation of search

Where the documents and the lookup of a searcher agree with the store about scopes, a
search with a filter returns only items whose scope satisfies it. Text hits have the term
of the filter, semantic hits passed the lookup, and fusion adds no item.
-/

namespace Singularmem.Search

open Library Singularmem.Core

variable {Parsed : Type} {engine : TextEngine Parsed} {neural : SemanticEngine}
  {arithmetic : Arithmetic} {platform : Platform} {tables : Tables}

/-- The lookup of a store: an item that cannot be read counts as unscoped. -/
def storeLookup (tables : Tables) (id : ItemId) : Option String :=
  match scopeOf tables id with
  | .ok scope => scope
  | .error _ => none

/-- The scope terms of a document. -/
def Document.scopeTerms (document : Document) : List (Field × String) :=
  document.texts.filter fun text => text.1 = .scope ∨ text.1 = .scopeAncestors

/-- The documents and the lookup of a searcher know the scopes of the store, which are
validated. -/
structure ScopesAgree (platform : Platform) (searcher : HybridSearcher) (tables : Tables) : Prop where
  documents : ∀ documents ∈ searcher.lexical, ∀ document ∈ documents, ∀ id,
    readDocumentId document = .ok id →
      document.scopeTerms = Search.scopeTerms (storeLookup tables id)
  lookup : ∀ lookup ∈ searcher.scopeLookup, ∀ id, ∀ scope ∈ lookup id,
    storeLookup tables id = some scope
  validated : tables.ScopesValidated platform

/-- An item of the store whose scope satisfies a filter. -/
def InScope (tables : Tables) (filter : ScopeFilter) (id : ItemId) : Prop :=
  ∃ row ∈ tables.items.rows, row.id = id ∧ filter.admits row.scope

/-- The scope terms of what the hook indexes are those of the item's scope. -/
theorem indexItem_scopeTerms (item : Item) :
    (indexItem item).scopeTerms = Search.scopeTerms item.scope := by
  have kept : (Search.scopeTerms item.scope).filter
      (fun text => text.1 = .scope ∨ text.1 = .scopeAncestors) = Search.scopeTerms item.scope := by
    refine List.filter_eq_self.mpr ?_
    intro text member
    cases scope : item.scope with
    | none =>
      rw [scope] at member
      cases member
    | some path =>
      rw [scope, Search.scopeTerms] at member
      rcases List.mem_cons.mp member with rfl | later
      · rfl
      · obtain ⟨_, _, rfl⟩ := List.mem_map.mp later
        rfl
  have dropped : ∀ texts : List (Field × String), (∀ text ∈ texts, text.1 ≠ .scope ∧ text.1 ≠ .scopeAncestors) →
      texts.filter (fun text => text.1 = .scope ∨ text.1 = .scopeAncestors) = [] := by
    intro texts other
    refine List.filter_eq_nil_iff.mpr ?_
    intro text member
    simpa using other text member
  rw [Document.scopeTerms, indexItem, List.filter_append, kept, dropped, List.nil_append]
  intro text member
  simp only [optionalText, List.mem_append, List.mem_cons, List.mem_map, List.not_mem_nil,
    or_false] at member
  rcases member with (((rfl | rfl) | ⟨_, _, rfl⟩) | ⟨_, _, rfl⟩) | ⟨_, _, rfl⟩ <;> simp

/-- **The hook and the store agree**: documents written for the stored items know their
scopes. -/
theorem scopesAgree_of_indexed {items : List Item} {searcher : HybridSearcher}
    (indexed : searcher.lexical = some (items.map indexItem))
    (stored : ∀ item ∈ items, storeLookup tables item.id = item.scope)
    (attached : ∀ lookup ∈ searcher.scopeLookup, lookup = storeLookup tables)
    (validated : tables.ScopesValidated platform) :
    ScopesAgree platform searcher tables := by
  refine ⟨?_, ?_, validated⟩
  · rintro documents same document member id identified
    obtain rfl : documents = items.map indexItem := by simpa [indexed, eq_comm] using same
    obtain ⟨item, itemIn, rfl⟩ := List.mem_map.mp member
    have own : readDocumentId (indexItem item) = .ok item.id := by
      simp [readDocumentId, indexItem, ItemId.fromStr_display]
    obtain rfl : item.id = id := by simpa [own] using identified
    rw [indexItem_scopeTerms, stored item itemIn]
  · rintro lookup given id scope known
    rwa [attached lookup given] at known

/-- A filter that admits what the lookup of the store says admits an item. -/
theorem inScope_of_lookup {filter : ScopeFilter} {id : ItemId}
    (admitted : filter.admits (storeLookup tables id)) : InScope tables filter id := by
  unfold storeLookup scopeOf at admitted
  rcases found : tables.items.find (.id id) with _ | row
  · rw [found] at admitted
    cases admitted
  · rw [found] at admitted
    obtain ⟨member, entry⟩ := Table.find_eq_some.mp found
    exact ⟨row, member, by simpa [itemSchema, eq_comm] using entry, admitted⟩

/-- The scope of a stored item is that of its row. -/
theorem storeLookup_of_row {row : ItemRow} (member : row ∈ tables.items.rows) :
    storeLookup tables row.id = row.scope := by
  have found : tables.items.find (.id row.id) = some row :=
    Table.find_eq_some.mpr ⟨member, by simp [itemSchema]⟩
  rw [storeLookup, scopeOf, found]

/-- What the lookup of the store says is normalised. -/
theorem storeLookup_normalised (validated : tables.ScopesValidated platform) (id : ItemId) :
    ∀ scope ∈ storeLookup tables id, Scope.Normalised scope := by
  intro scope present
  unfold storeLookup scopeOf at present
  rcases found : tables.items.find (.id id) with _ | row
  · rw [found] at present
    cases present
  · rw [found] at present
    obtain ⟨raw, returned⟩ := validated row (Table.find_eq_some.mp found).1 scope present
    exact Scope.validate_normalised returned

/-- A document that has the term of a filter is that of an item in its scope. -/
theorem inScope_of_hasTerm {searcher : HybridSearcher}
    (agree : ScopesAgree platform searcher tables) {documents : List Document}
    (indexed : searcher.lexical = some documents) {document : Document} (stored : document ∈ documents)
    {id : ItemId} (identified : readDocumentId document = .ok id) {filter : ScopeFilter}
    (matched : document.hasTerm (scopeClause filter)) : InScope tables filter id := by
  refine inScope_of_lookup ((scopeClause_mem_iff filter
    (storeLookup_normalised agree.validated id)).mp ?_)
  rw [← agree.documents documents indexed document stored id identified, Document.scopeTerms,
    List.mem_filter]
  refine ⟨of_decide_eq_true matched, ?_⟩
  unfold scopeClause
  split <;> simp

/-- Text hits are in scope. -/
theorem searchText_inScope {searcher : HybridSearcher}
    (agree : ScopesAgree platform searcher tables) {documents : List Document}
    (indexed : searcher.lexical = some documents) {query : Parsed} {options : SearchOptions}
    {results : SearchResults}
    (returned : searchText engine arithmetic documents query options = .ok results) :
    ∀ filter ∈ options.scope, ∀ hit ∈ results.hits, InScope tables filter hit.id := by
  intro filter given hit member
  obtain ⟨document, stored, identified, matched⟩ := (searchText_returned returned).2 hit member
  exact inScope_of_hasTerm agree indexed stored identified (matched filter given)

/-- Semantic hits that passed the lookup are in scope. -/
theorem scopeFilterHits_inScope {searcher : HybridSearcher}
    (agree : ScopesAgree platform searcher tables) {hits kept : List SemanticHit}
    {given : Option ScopeFilter}
    (returned : scopeFilterHits hits given searcher.scopeLookup = .ok kept) :
    ∀ filter ∈ given, ∀ hit ∈ kept, InScope tables filter hit.id := by
  rintro filter ⟨⟩ hit member
  rcases attached : searcher.scopeLookup with _ | lookup
  · rw [attached] at returned
    cases returned
  · rw [attached] at returned
    cases returned
    have admitted := (List.mem_filter.mp member).2
    rcases known : lookup hit.id with _ | scope
    · rw [known] at admitted
      cases admitted
    · rw [known, ← agree.lookup lookup attached hit.id scope known] at admitted
      exact inScope_of_lookup admitted

/-- Adding a score adds no other item. -/
theorem mem_addScore {scores : List (ItemId × F32)} {id : ItemId} {amount : F32}
    {entry : ItemId × F32} (member : entry ∈ addScore arithmetic scores id amount) :
    entry.1 = id ∨ entry.1 ∈ scores.map Prod.fst := by
  unfold addScore at member
  split at member
  · obtain ⟨source, sourceIn, rfl⟩ := List.mem_map.mp member
    split
    · exact .inl rfl
    · exact .inr (List.mem_map_of_mem sourceIn)
  · rcases List.mem_append.mp member with old | new
    · exact .inr (List.mem_map_of_mem old)
    · exact .inl (congrArg Prod.fst (List.mem_singleton.mp new))

/-- Adding a score for each pair adds no item but those of the pairs. -/
theorem mem_foldl_addScore (amount : Nat → F32) {pairs : List (ItemId × Nat)}
    {scores : List (ItemId × F32)} {id : ItemId}
    (member : id ∈ (pairs.foldl (fun scores pair => addScore arithmetic scores pair.1 (amount pair.2))
      scores).map Prod.fst) : id ∈ pairs.map Prod.fst ∨ id ∈ scores.map Prod.fst := by
  induction pairs generalizing scores with
  | nil => exact .inr member
  | cons pair rest inductionHypothesis =>
    rcases inductionHypothesis member with later | added
    · exact .inl (List.mem_cons_of_mem _ later)
    · obtain ⟨entry, entryIn, rfl⟩ := List.mem_map.mp added
      rcases mem_addScore entryIn with same | before
      · exact .inl (by simp [same])
      · exact .inr before

/-- Adding reciprocal ranks adds no item but those of the list. -/
theorem mem_addReciprocals {k : Nat} {ranked : List ItemId} {scores : List (ItemId × F32)} {id : ItemId}
    (member : id ∈ (addReciprocals arithmetic k ranked scores).map Prod.fst) :
    id ∈ ranked ∨ id ∈ scores.map Prod.fst := by
  unfold addReciprocals at member
  have added := mem_foldl_addScore (fun rank => arithmetic.div (arithmetic.ofNat 1)
    (arithmetic.add (arithmetic.ofNat k) (arithmetic.ofNat (rank + 1)))) member
  rwa [List.zipIdx_map_fst] at added

/-- **Fusion adds no item.** -/
theorem mem_rrfFuse {lexical semantic : List ItemId} {k : Nat} {entry : ItemId × F32}
    (member : entry ∈ rrfFuse arithmetic lexical semantic k) :
    entry.1 ∈ lexical ∨ entry.1 ∈ semantic := by
  have added := List.mem_map_of_mem (f := Prod.fst) ((List.mem_insertionSort _).mp member)
  rcases mem_addReciprocals added with inSemantic | before
  · exact .inr inSemantic
  · rcases mem_addReciprocals before with inLexical | none
    · exact .inl inLexical
    · cases none

/-- What a search returns with a limit: no more hits, each in scope. -/
def Isolated (tables : Tables) (options : HybridSearchOptions) (results : HybridSearchResults) : Prop :=
  results.hits.length ≤ options.limit ∧
    ∀ filter ∈ options.scope, ∀ hit ∈ results.hits, InScope tables filter hit.id

section Searches

variable {searcher : HybridSearcher} (agree : ScopesAgree platform searcher tables)
  {query : String} {options : HybridSearchOptions} {results : HybridSearchResults}
include agree

/-- A search of the text index alone is isolated. -/
theorem searchLexicalOnly_isolated {documents : List Document} (indexed : searcher.lexical = some documents)
    (returned : searchLexicalOnly engine arithmetic documents query options = .ok results) :
    Isolated tables options results := by
  obtain ⟨parsed, _, returned⟩ := except_bind_returned returned
  obtain ⟨found, searched, returned⟩ := except_bind_returned returned
  cases returned
  constructor
  · rw [List.length_map, List.length_zipIdx]
    exact (searchText_returned searched).1
  · intro filter given hit member
    obtain ⟨⟨source, rank⟩, sourceIn, rfl⟩ := List.mem_map.mp member
    exact searchText_inScope agree indexed searched filter given source (List.fst_mem_of_mem_zipIdx sourceIn)

/-- A search of the vector index alone is isolated. -/
theorem searchSemanticOnly_isolated {handle : VectorIndex} {fetch : Nat}
    (returned : searchSemanticOnly neural arithmetic handle searcher.scopeLookup query options fetch =
      .ok results) : Isolated tables options results := by
  obtain ⟨_, _, returned⟩ := except_bind_returned returned
  obtain ⟨found, _, returned⟩ := except_bind_returned returned
  obtain ⟨filtered, passed, returned⟩ := except_bind_returned returned
  cases returned
  constructor
  · rw [List.length_map, List.length_zipIdx]
    exact List.length_take_le _ _
  · intro filter given hit member
    obtain ⟨⟨source, rank⟩, sourceIn, rfl⟩ := List.mem_map.mp member
    exact scopeFilterHits_inScope agree passed filter given source
      (List.mem_of_mem_take (List.fst_mem_of_mem_zipIdx sourceIn))

/-- A search of both is isolated. -/
theorem searchHybrid_isolated {documents : List Document} (indexed : searcher.lexical = some documents)
    {handle : VectorIndex} {fetch : Nat}
    (returned : searchHybrid engine neural arithmetic documents handle searcher.scopeLookup query options
      fetch = .ok results) : Isolated tables options results := by
  obtain ⟨_, _, returned⟩ := except_bind_returned returned
  obtain ⟨parsed, _, returned⟩ := except_bind_returned returned
  obtain ⟨lexical, searched, returned⟩ := except_bind_returned returned
  obtain ⟨found, _, returned⟩ := except_bind_returned returned
  obtain ⟨filtered, passed, returned⟩ := except_bind_returned returned
  cases returned
  constructor
  · rw [List.length_map]
    exact List.length_take_le _ _
  · intro filter given hit member
    obtain ⟨⟨id, score⟩, entryIn, rfl⟩ := List.mem_map.mp member
    rcases mem_rrfFuse (List.mem_of_mem_take entryIn) with fromText | fromVectors
    · obtain ⟨source, sourceIn, rfl⟩ := List.mem_map.mp fromText
      exact searchText_inScope agree indexed searched filter given source sourceIn
    · obtain ⟨source, sourceIn, rfl⟩ := List.mem_map.mp fromVectors
      exact scopeFilterHits_inScope agree passed filter given source (List.mem_of_mem_take sourceIn)

/-- **Every search is isolated**, whichever rankers are at hand. -/
theorem search_isolated
    (returned : searcher.search engine neural arithmetic query options = .ok results) :
    Isolated tables options results := by
  unfold HybridSearcher.search at returned
  rcases lexical : searcher.lexical with _ | documents <;>
    rcases semantic : searcher.semantic with _ | handle <;> rw [lexical, semantic] at returned
  · cases returned
  · exact searchSemanticOnly_isolated agree returned
  · exact searchLexicalOnly_isolated agree lexical returned
  · exact searchHybrid_isolated agree lexical returned

end Searches

/-- **A filter without a lookup is refused** where the vector index is in play. -/
theorem search_without_lookup {searcher : HybridSearcher} {query : String}
    {options : HybridSearchOptions} (filtered : options.scope.isSome)
    (semantic : searcher.semantic.isSome) (detached : searcher.scopeLookup = none) :
    searcher.search engine neural arithmetic query options = .error .scopeLookupMissing := by
  have refused : checkLookup options searcher.scopeLookup = .error .scopeLookupMissing := by
    rw [checkLookup, if_pos ⟨filtered, by simp [detached]⟩]
  obtain ⟨handle, present⟩ := Option.isSome_iff_exists.mp semantic
  unfold HybridSearcher.search
  rw [present]
  rcases searcher.lexical with _ | documents
  · change checkLookup _ _ >>= _ = _
    rw [refused]
    rfl
  · change checkLookup _ _ >>= _ = _
    rw [refused]
    rfl

end Singularmem.Search
