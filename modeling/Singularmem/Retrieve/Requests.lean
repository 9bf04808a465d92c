import Singularmem.Retrieve.Retriever

/-!
# Requests that crash

The collector of best documents panics when it is given no room, and so does a sum of sizes
that overflows. A request that runs the vector index clamps what it fetches; one that runs
the text index alone hands its limit on as it is.
-/

namespace Singularmem.Search

open Library Singularmem.Core

/-- Whether an outcome is a panic. -/
def Crashed {α : Type} (outcome : Except Error α) : Prop :=
  outcome = .error .collectorPanic ∨ outcome = .error .sizeOverflow

/-- The failures of the embedding model and of the neighbour search are no panics of the
collector. -/
structure SemanticEngine.Quiet (neural : SemanticEngine) : Prop where
  embed : ∀ text, ¬Crashed (neural.embed text)
  neighbours : ∀ graph vector count, ¬Crashed (neural.neighbours graph vector count)

/-- A value is no panic. -/
theorem not_crashed_ok {α : Type} (value : α) : ¬Crashed (.ok value) := by
  rintro (crash | crash) <;> cases crash

/-- Most errors are no panic. -/
theorem not_crashed_error {α : Type} {error : Error} (room : error ≠ .collectorPanic)
    (fits : error ≠ .sizeOverflow) : ¬Crashed (.error error : Except Error α) := by
  rintro (crash | crash) <;> cases crash
  · exact room rfl
  · exact fits rfl

/-- A sequence crashes where its first crash is. -/
theorem crashed_bind {α β : Type} {outcome : Except Error α} {next : α → Except Error β} :
    Crashed (outcome >>= next) ↔
      Crashed outcome ∨ ∃ value, outcome = .ok value ∧ Crashed (next value) := by
  constructor
  · rintro (crash | crash)
    · rcases except_bind_threw crash with first | ⟨value, finished, later⟩
      · exact .inl (.inl first)
      · exact .inr ⟨value, finished, .inl later⟩
    · rcases except_bind_threw crash with first | ⟨value, finished, later⟩
      · exact .inl (.inr first)
      · exact .inr ⟨value, finished, .inr later⟩
  · rintro ((crash | crash) | ⟨value, finished, crash⟩)
    · exact .inl (by rw [crash]; rfl)
    · exact .inr (by rw [crash]; rfl)
    · rwa [finished]

/-- After a value the rest decides. -/
theorem crashed_ok_bind {α β : Type} (value : α) (next : α → Except Error β) :
    Crashed (.ok value >>= next) ↔ Crashed (next value) := Iff.rfl

/-- A calm rest leaves the decision to the first part. -/
theorem crashed_bind_of_calm {α β : Type} {outcome : Except Error α} {next : α → Except Error β}
    (calm : ∀ value, ¬Crashed (next value)) : Crashed (outcome >>= next) ↔ Crashed outcome := by
  rw [crashed_bind]
  exact or_iff_left fun ⟨value, _, crash⟩ => calm value crash

/-- A sequence of calm parts is calm. -/
theorem not_crashed_bind {α β : Type} {outcome : Except Error α} {next : α → Except Error β}
    (calm : ¬Crashed outcome) (later : ∀ value, outcome = .ok value → ¬Crashed (next value)) :
    ¬Crashed (outcome >>= next) := by
  rw [crashed_bind]
  rintro (crash | ⟨value, finished, crash⟩)
  · exact calm crash
  · exact later value finished crash

/-- A calm call for every member of a list is calm. -/
theorem not_crashed_mapM {α β : Type} {call : α → Except Error β}
    (calm : ∀ value, ¬Crashed (call value)) (values : List α) : ¬Crashed (values.mapM call) := by
  rintro (crash | crash)
  · obtain ⟨value, _, failed⟩ := mapM_threw crash
    exact calm value (.inl failed)
  · obtain ⟨value, _, failed⟩ := mapM_threw crash
    exact calm value (.inr failed)

variable {Parsed : Type} {engine : TextEngine Parsed} {neural : SemanticEngine}
  {arithmetic : Arithmetic}

/-- Reading a hit is calm. -/
theorem hitOf_calm (query : TextQuery Parsed) (includeSnippets : Bool)
    (scored : F32 × Document) : ¬Crashed (hitOf engine query includeSnippets scored) := by
  refine not_crashed_bind ?_ fun _ _ => not_crashed_ok _
  unfold readDocumentId
  split
  · exact not_crashed_error (by rintro ⟨⟩) (by rintro ⟨⟩)
  · split
    · exact not_crashed_error (by rintro ⟨⟩) (by rintro ⟨⟩)
    · exact not_crashed_ok _

/-- **A text search crashes** when its limit and its offset leave the collector no room, or
more than a size can hold. -/
theorem searchText_calm_iff (documents : List Document) (query : Parsed)
    (options : SearchOptions) :
    ¬Crashed (searchText engine arithmetic documents query options) ↔
      0 < options.limit + options.offset ∧ options.limit + options.offset < 2 ^ 64 := by
  unfold searchText addSizes
  split
  case isFalse large => exact ⟨fun calm => absurd (.inr rfl) calm, fun fits => absurd fits.2 large⟩
  case isTrue fits =>
    rw [crashed_ok_bind]
    unfold topDocs
    split
    case isTrue none =>
      exact ⟨fun calm => absurd (.inl rfl) calm, fun room => absurd none room.1.ne'⟩
    case isFalse room =>
      refine ⟨fun _ => ⟨Nat.pos_of_ne_zero room, fits⟩, fun _ => ?_⟩
      rw [crashed_ok_bind]
      exact not_crashed_bind (not_crashed_mapM (hitOf_calm _ _) _) fun _ _ => not_crashed_ok _

/-- Parsing is calm. -/
theorem parseQuery_calm (text : String) : ¬Crashed (parseQuery engine text) := by
  have refused : ∀ message, ¬Crashed (.error (.queryParse message) : Except Error Parsed) :=
    fun _ => not_crashed_error (by rintro ⟨⟩) (by rintro ⟨⟩)
  unfold parseQuery
  split
  · exact not_crashed_ok _
  · split
    · dsimp only
      split
      · exact refused _
      · exact not_crashed_ok _
    · exact refused _

/-- A semantic search is calm. -/
theorem semanticSearch_calm (quiet : neural.Quiet) (handle : VectorIndex) (query : String)
    (options : SemanticSearchOptions) :
    ¬Crashed (semanticSearch neural arithmetic handle query options) := by
  refine not_crashed_bind (quiet.embed query) fun vector _ => ?_
  refine not_crashed_bind ?_ fun _ _ => not_crashed_ok _
  unfold VectorIndex.search
  split
  · exact not_crashed_error (by rintro ⟨⟩) (by rintro ⟨⟩)
  · exact not_crashed_bind (quiet.neighbours _ _ _) fun _ _ => not_crashed_ok _

/-- Filtering semantic hits is calm. -/
theorem scopeFilterHits_calm (hits : List SemanticHit) (filter : Option ScopeFilter)
    (lookup : Option (ItemId → Option String)) : ¬Crashed (scopeFilterHits hits filter lookup) := by
  unfold scopeFilterHits
  split
  · exact not_crashed_ok _
  · exact not_crashed_error (by rintro ⟨⟩) (by rintro ⟨⟩)
  · exact not_crashed_ok _

/-- Looking for the lookup is calm. -/
theorem checkLookup_calm (options : HybridSearchOptions)
    (lookup : Option (ItemId → Option String)) : ¬Crashed (checkLookup options lookup) := by
  unfold checkLookup
  split
  · exact not_crashed_error (by rintro ⟨⟩) (by rintro ⟨⟩)
  · exact not_crashed_ok _

/-- A search of the vector index alone is calm. -/
theorem searchSemanticOnly_calm (quiet : neural.Quiet) (handle : VectorIndex)
    (lookup : Option (ItemId → Option String)) (query : String) (options : HybridSearchOptions)
    (fetch : Nat) :
    ¬Crashed (searchSemanticOnly neural arithmetic handle lookup query options fetch) := by
  refine not_crashed_bind (checkLookup_calm options lookup) fun _ _ => ?_
  refine not_crashed_bind (semanticSearch_calm quiet _ _ _) fun _ _ => ?_
  exact not_crashed_bind (scopeFilterHits_calm _ _ _) fun _ _ => not_crashed_ok _

/-- **A search of both indexes is calm** when it fetches something that a size can hold. -/
theorem searchHybrid_calm (quiet : neural.Quiet) (documents : List Document)
    (handle : VectorIndex) (lookup : Option (ItemId → Option String)) (query : String)
    (options : HybridSearchOptions) {fetch : Nat} (some : 0 < fetch) (fits : fetch < 2 ^ 64) :
    ¬Crashed (searchHybrid engine neural arithmetic documents handle lookup query options
      fetch) := by
  refine not_crashed_bind (checkLookup_calm options lookup) fun _ _ => ?_
  refine not_crashed_bind (parseQuery_calm query) fun _ _ => ?_
  refine not_crashed_bind ((searchText_calm_iff _ _ _).mpr ⟨some, fits⟩) fun _ _ => ?_
  refine not_crashed_bind (semanticSearch_calm quiet _ _ _) fun _ _ => ?_
  exact not_crashed_bind (scopeFilterHits_calm _ _ _) fun _ _ => not_crashed_ok _

/-- A search of the text index alone crashes when a query that it can parse asks for
nothing. -/
theorem searchLexicalOnly_calm_iff (documents : List Document) (query : String)
    {options : HybridSearchOptions} (fits : options.limit < 2 ^ 64) :
    ¬Crashed (searchLexicalOnly engine arithmetic documents query options) ↔
      ((parseQuery engine query).isOk → 0 < options.limit) := by
  unfold searchLexicalOnly
  cases parsed : parseQuery engine query with
  | error error =>
    have calm : ¬Crashed (parseQuery engine query) := parseQuery_calm query
    rw [parsed] at calm
    exact ⟨fun _ => by rintro ⟨⟩, fun _ => not_crashed_bind calm (by rintro _ ⟨⟩)⟩
  | ok value =>
    rw [crashed_ok_bind]
    refine (not_congr (crashed_bind_of_calm fun _ => not_crashed_ok _)).trans
      ((searchText_calm_iff documents value
        ⟨options.limit, 0, options.includeSnippets, options.scope⟩).trans ?_)
    exact ⟨fun room _ => room.1, fun room => ⟨room rfl, fits⟩⟩

/-- What the searches fetch: something, and no more than a size can hold. -/
theorem fetch_fits (limit multiplier : Nat) :
    0 < max (saturatingMul limit multiplier) 1 ∧ max (saturatingMul limit multiplier) 1 < 2 ^ 64 := by
  unfold saturatingMul
  omega

/-- Whether a search will run the text index alone on a query that it can parse. -/
def RunsTextAlone (engine : TextEngine Parsed) (searcher : HybridSearcher) (query : String) :
    Prop :=
  searcher.lexical.isSome ∧ searcher.semantic = none ∧ (parseQuery engine query).isOk

/-- **A search crashes** when it runs the text index alone and asks for nothing. -/
theorem search_calm_iff (quiet : neural.Quiet) (searcher : HybridSearcher) (query : String)
    (options : HybridSearchOptions) (fits : options.limit < 2 ^ 64) :
    ¬Crashed (searcher.search engine neural arithmetic query options) ↔
      (RunsTextAlone engine searcher query → 0 < options.limit) := by
  rcases searcher with ⟨lexical, semantic, lookup⟩
  unfold HybridSearcher.search RunsTextAlone
  rcases lexical with _ | documents <;> rcases semantic with _ | handle
  · exact ⟨fun _ runs => (Bool.false_ne_true runs.1).elim,
      fun _ => not_crashed_error (by rintro ⟨⟩) (by rintro ⟨⟩)⟩
  · exact ⟨fun _ runs => (Bool.false_ne_true runs.1).elim,
      fun _ => searchSemanticOnly_calm quiet handle lookup query options _⟩
  · exact (searchLexicalOnly_calm_iff documents query fits).trans
      ⟨fun room runs => room runs.2.2, fun room parsed => room ⟨rfl, rfl, parsed⟩⟩
  · exact ⟨fun _ runs => (Option.some_ne_none handle runs.2.1).elim,
      fun _ => searchHybrid_calm quiet documents handle lookup query options
        (fetch_fits _ _).1 (fetch_fits _ _).2⟩

end Singularmem.Search

namespace Singularmem.Retrieve

open Library Singularmem.Core Singularmem.Search

variable {Parsed : Type} {engine : TextEngine Parsed} {neural : SemanticEngine}
  {arithmetic : Arithmetic} {platform : Platform} {tables : Tables}

/-- Whether a retrieval panicked. -/
def RetrievalCrashed {α : Type} (outcome : Except Error α) : Prop :=
  outcome = .error (.search .collectorPanic) ∨ outcome = .error (.search .sizeOverflow)

/-- The blocks of a retrieval fail with errors of the store. -/
theorem blocks_calm (hits : List HybridHit) :
    ¬RetrievalCrashed (hits.mapM (blockOf platform tables)) := by
  have stored : ∀ error, hits.mapM (blockOf platform tables) = .error error →
      ∃ source, error = .core source := by
    intro error failed
    obtain ⟨hit, _, failed⟩ := mapM_threw failed
    rcases except_bind_threw failed with unread | ⟨_, _, ⟨⟩⟩
    cases loaded : loadItem platform tables hit.id with
    | error source =>
      rw [loaded] at unread
      exact ⟨source, (Except.error.inj unread).symm⟩
    | ok item =>
      rw [loaded] at unread
      cases unread
  rintro (crash | crash)
  · obtain ⟨source, ⟨⟩⟩ := stored _ crash
  · obtain ⟨source, ⟨⟩⟩ := stored _ crash

/-- **A retrieval crashes** when its search does. -/
theorem retrieve_calm_iff (searcher : HybridSearcher) (query : String) (options : RetrieveOptions) :
    ¬RetrievalCrashed (retrieve engine neural arithmetic platform tables searcher query options) ↔
      trim query = "" ∨ ¬Crashed ((effectiveSearcher tables searcher options).search engine neural
        arithmetic query { options.search with scope := options.scope }) := by
  unfold retrieve
  split
  case isTrue blank =>
    exact ⟨fun _ => .inl blank, fun _ => by rintro (crash | crash) <;> cases crash⟩
  case isFalse given =>
    cases searched : (effectiveSearcher tables searcher options).search engine neural
        arithmetic query { options.search with scope := options.scope } with
    | error error =>
      constructor
      · rintro calm
        refine .inr ?_
        rintro (crash | crash) <;> cases crash
        · exact calm (.inl rfl)
        · exact calm (.inr rfl)
      · rintro (blank | calm)
        · exact absurd blank given
        · rintro (crash | crash) <;> cases crash
          · exact calm (.inl rfl)
          · exact calm (.inr rfl)
    | ok results =>
      refine ⟨fun _ => .inr (not_crashed_ok results), fun _ => ?_⟩
      have read : ¬RetrievalCrashed (((results.hits.filter fun hit =>
          arithmetic.atLeast hit.score options.minScore).take options.maxBlocks).mapM
            (blockOf platform tables)) := blocks_calm _
      rintro (crash | crash)
      · rcases except_bind_threw crash with ⟨⟨⟩⟩ | ⟨_, ⟨⟩, crash⟩
        rcases except_bind_threw crash with failed | ⟨_, _, ⟨⟩⟩
        exact read (.inl failed)
      · rcases except_bind_threw crash with ⟨⟨⟩⟩ | ⟨_, ⟨⟩, crash⟩
        rcases except_bind_threw crash with failed | ⟨_, _, ⟨⟩⟩
        exact read (.inr failed)

/-- A searcher over an empty text index. -/
def emptyTextIndex : HybridSearcher := ⟨some [], none, none⟩

end Singularmem.Retrieve
