import Singularmem.Search.IndexRuns

/-!
# Searching a store with its index

What a search of the text index says about the store. Whatever happened to the index, its
hits are stored items and none comes twice. After a reindex, and while nothing fails and all
new items are told, every readable item has one document, and a search that is not cut off
finds exactly the items that satisfy the query and lie in its scope; only an item moved
since may be found by its old scope.
-/

namespace Singularmem.Search

open Library Singularmem.Core
open Effect hiding ofExcept

variable {platform : Platform} {exempt : ItemId → Prop} {Parsed : Type} {engine : TextEngine Parsed}
  {arithmetic : Arithmetic}

section Searches

variable {documents : List Document} {query : Parsed} {options : SearchOptions}
  {results : SearchResults}

/-- The collector returns the first of the matching documents, ranked. -/
theorem topDocs_ranks {effective : TextQuery Parsed} {limit : Nat} {collected : List (F32 × Document)}
    (returned : topDocs engine arithmetic effective limit documents = .ok collected) :
    ∃ ranked : List (F32 × Document), collected = ranked.take limit ∧
      (ranked.map Prod.snd).Perm (documents.filter (engine.matchesQuery effective)) := by
  unfold topDocs at returned
  split at returned <;> cases returned
  refine ⟨_, rfl, ((List.perm_insertionSort _ _).map Prod.snd).trans ?_⟩
  rw [List.map_map]
  exact .of_eq (List.map_id _)

/-- **What a search shows**: hits of some of the matching documents, and of all where they fit. -/
theorem searchText_shows (returned : searchText engine arithmetic documents query options = .ok results) :
    ∃ ranked shown : List (F32 × Document),
      (ranked.map Prod.snd).Perm
        (documents.filter (engine.matchesQuery (effectiveQuery query options.scope))) ∧
      shown.Sublist ranked ∧
      shown.mapM (hitOf engine (effectiveQuery query options.scope) options.includeSnippets) =
        .ok results.hits ∧
      results.totalMatched = ranked.length ∧
      (options.offset = 0 → ranked.length ≤ options.limit → shown = ranked) := by
  obtain ⟨room, sized, returned⟩ := except_bind_returned returned
  obtain ⟨collected, taken, returned⟩ := except_bind_returned returned
  obtain ⟨hits, read, returned⟩ := except_bind_returned returned
  cases returned
  unfold addSizes at sized
  split at sized <;> cases sized
  obtain ⟨ranked, rfl, permuted⟩ := topDocs_ranks taken
  refine ⟨ranked, _, permuted, ?_, read, ?_, ?_⟩
  · exact ((List.take_sublist _ _).trans (List.drop_sublist _ _)).trans (List.take_sublist _ _)
  · rw [← List.length_map Prod.snd, permuted.length_eq]
  · intro first fits
    rw [first, List.drop_zero, Nat.add_zero, List.take_take, Nat.min_self, List.take_of_length_le fits]

/-- Hits are identified by their documents. -/
theorem hitOf_id {effective : TextQuery Parsed} {snippets : Bool} (scored : F32 × Document) (hit : Hit)
    (read : hitOf engine effective snippets scored = .ok hit) :
    (Except.ok hit.id : Except Error ItemId) = readDocumentId scored.2 := by
  obtain ⟨id, identified, rest⟩ := except_bind_returned read
  cases rest
  exact identified.symm

/-- **No hit comes twice** where no two documents have one identifier. -/
theorem searchText_distinct (distinct : (documents.map readDocumentId).Nodup)
    (returned : searchText engine arithmetic documents query options = .ok results) :
    (results.hits.map Hit.id).Nodup := by
  obtain ⟨ranked, shown, permuted, fewer, read, -, -⟩ := searchText_shows returned
  have identified : (results.hits.map fun hit => (Except.ok hit.id : Except Error ItemId)) =
      shown.map fun scored => readDocumentId scored.2 := mapM_returned_map read hitOf_id
  have matching := (permuted.map readDocumentId).nodup_iff.mpr
    (distinct.sublist (List.filter_sublist.map readDocumentId))
  rw [List.map_map] at matching
  have some := matching.sublist (fewer.map (readDocumentId ∘ Prod.snd))
  refine List.Nodup.of_map (Except.ok : ItemId → Except Error ItemId) ?_
  rw [List.map_map]
  exact identified ▸ some

/-- A hit is found through a matching document. -/
theorem searchText_matching
    (returned : searchText engine arithmetic documents query options = .ok results) {hit : Hit}
    (member : hit ∈ results.hits) : ∃ document ∈ documents, readDocumentId document = .ok hit.id ∧
      engine.matchesQuery (effectiveQuery query options.scope) document := by
  obtain ⟨ranked, shown, permuted, fewer, read, -, -⟩ := searchText_shows returned
  obtain ⟨scored, shownIn, computed⟩ := exists_of_mem_mapM read member
  obtain ⟨stored, matching⟩ := List.mem_filter.mp
    (permuted.subset (List.mem_map_of_mem (fewer.subset shownIn)))
  exact ⟨scored.2, stored, (hitOf_id scored hit computed).symm, matching⟩

/-- **A matching document is found** by a search that is not cut off. -/
theorem searchText_finds (returned : searchText engine arithmetic documents query options = .ok results)
    (first : options.offset = 0) (fits : results.totalMatched ≤ options.limit) {document : Document}
    (stored : document ∈ documents)
    (matching : engine.matchesQuery (effectiveQuery query options.scope) document) :
    ∃ hit ∈ results.hits, readDocumentId document = .ok hit.id := by
  obtain ⟨ranked, shown, permuted, -, read, total, all⟩ := searchText_shows returned
  obtain rfl := all first (total ▸ fits)
  obtain ⟨scored, shownIn, rfl⟩ := List.mem_map.mp
    (permuted.symm.subset (List.mem_filter.mpr ⟨stored, matching⟩))
  obtain ⟨hit, paired, computed⟩ := mapM_returned_each read shownIn
  exact ⟨hit, (List.of_mem_zip paired).2, (hitOf_id scored hit computed).symm⟩

/-- No more documents match than there are. -/
theorem searchText_total (returned : searchText engine arithmetic documents query options = .ok results) :
    results.totalMatched ≤ documents.length := by
  obtain ⟨ranked, _, permuted, -, -, total, -⟩ := searchText_shows returned
  rw [total, ← List.length_map Prod.snd, permuted.length_eq]
  exact List.length_filter_le _ _

end Searches

/-- Copies are no more than entries. -/
theorem sound_length {documents : List Document} {shelf : List Shelved}
    (sound : (documentMirror platform exempt).Sound documents shelf) :
    documents.length ≤ shelf.length := by
  have within : documents.map readDocumentId ⊆ shelf.map fun known => Except.ok known.1.id := by
    intro key member
    obtain ⟨document, stored, rfl⟩ := List.mem_map.mp member
    obtain ⟨known, shelved, described⟩ := sound.each document stored
    exact List.mem_map.mpr ⟨known, shelved, ((documentMirror platform exempt).sameKey described).symm⟩
  have counted := (sound.distinct.subperm within).length_le
  simpa using counted

/-- **The index never misleads.** Whatever happened to a store and an index made for it, each
document that the reader shows describes a stored item, its scope aside, and no two describe
one; the hits of a search are distinct stored items, and no more match than are stored. -/
theorem index_never_misleads (keeps : platform.KeepsTimes) (store : Store) (fates : List Fate)
    (events : List IndexEvent) :
    let state := (IndexedStore.mk store (.fresh fates)).run platform events
    (state.index.visible.map readDocumentId).Nodup ∧
    (∀ document ∈ state.index.visible, ∃ known ∈ state.shelf, ∃ item : Item,
      item.Portrays platform known ∧ document = indexItem item) ∧
    ∀ (Parsed : Type) (engine : TextEngine Parsed) (arithmetic : Arithmetic) (query : Parsed)
      (options : SearchOptions) (results : SearchResults),
      searchText engine arithmetic state.index.visible query options = .ok results →
      (results.hits.map Hit.id).Nodup ∧
      (∀ hit ∈ results.hits, state.store.database.tables.hasItem hit.id) ∧
      results.totalMatched ≤ state.store.database.tables.items.rows.length := by
  intro state
  have held : state.Sound platform fun _ => True :=
    sound_run keeps (fun _ _ _ _ => trivial) (sound_fresh store fates)
  have sound := held.visible
  refine ⟨sound.distinct, fun document member => ?_, fun Parsed engine arithmetic query options results returned => ?_⟩
  · obtain ⟨known, stored, item, portrays, _, described⟩ := sound.each document member
    exact ⟨known, stored, item, portrays, described⟩
  · refine ⟨searchText_distinct sound.distinct returned, fun hit member => ?_, ?_⟩
    · obtain ⟨document, stored, identified, _⟩ := searchText_matching returned member
      obtain ⟨known, shelved, described⟩ := sound.each document stored
      have same := (documentMirror platform _).sameKey described
      exact hasItem_iff_shelf.mpr ⟨known, shelved, Except.ok.inj (same.symm.trans identified)⟩
    · refine (searchText_total returned).trans ((sound_length sound).trans ?_)
      exact Nat.le_of_eq (List.length_map _)

/-- A note in a scope, ingested with a draw. -/
def tellNote (draw : Nat) (scope : String) : IndexEvent :=
  .hooked ⟨.epoch, fun _ => draw⟩
    (.ingest ⟨"zebra", none, [], none, .object [], none, some scope⟩)

/-- A note that is lost with its commit, one that is not told, and one that is. -/
def lostNotes : List IndexEvent :=
  [tellNote 1 "a", .opened false [],
    .unhooked ⟨.epoch, fun _ => 2⟩
      (.ingest ⟨"zebra", none, [], none, .object [], none, some "a/b"⟩), tellNote 3 "a/c"]

/-- A new store whose index fails at its first commit. -/
def faultyStart : IndexedStore := ⟨⟨false, .fresh⟩, .fresh [.done, .failed "disk full" fun _ => false]⟩

/-- Of the three notes the reader shows one, and as it is. -/
theorem lost_notes_do_not_mislead :
    (faultyStart.run .ascii lostNotes).index.visible.length = 1 ∧
      (faultyStart.run .ascii lostNotes).store.database.tables.items.rows.length = 3 ∧
      ((faultyStart.run .ascii lostNotes).index.visible.map readDocumentId).Nodup :=
  ⟨by decide +kernel, by decide +kernel, (index_never_misleads Platform.ascii_keepsTimes ⟨false, .fresh⟩
    [.done, .failed "disk full" fun _ => false] lostNotes).1⟩

/-- An item was moved in a run. -/
def MovedIn (events : List IndexEvent) (id : ItemId) : Prop :=
  ∃ event ∈ events, event.movedRow = some id

/-- The documents of an item that can be read differ from it at most in the scope. -/
theorem described_loaded {document : Document} {known : Shelved} {item : Item}
    (described : (documentMirror platform exempt).describes document known)
    (read : readShelved platform known = .ok item) :
    ∃ scope, document = indexItem { item with scope } ∧ (¬ exempt known.1.id → scope = item.scope) := by
  obtain ⟨told, portrays, inScope, rfl⟩ := described
  obtain ⟨again, sameScope⟩ := readShelved_portrays read
  refine ⟨told.scope, ?_, fun bound => (inScope bound).trans sameScope.symm⟩
  have time : told.createdAt = item.createdAt :=
    Option.some.inj (portrays.createdAt.symm.trans again.createdAt)
  simp only [indexItem, portrays.id.trans again.id.symm, portrays.content.trans again.content.symm,
    portrays.source.trans again.source.symm, portrays.supersedes.trans again.supersedes.symm,
    portrays.tags.trans again.tags.symm, time]

section Recovery

variable (keeps : platform.KeepsTimes) {start : IndexedStore} {before after : List IndexEvent}
  {rebuilt : Bool} (quiet : ∀ event ∈ after, event.Quiet)
include keeps quiet

/-- After a reindex and quiet events the index is whole and sound, the moved items exempt. -/
theorem recovered :
    (start.run platform (before ++ .reindexed rebuilt [] :: after)).Whole platform (MovedIn after) ∧
      (start.run platform (before ++ .reindexed rebuilt [] :: after)).Sound platform (MovedIn after) := by
  have covered : ∀ event ∈ after, ∀ id ∈ event.movedRow, MovedIn after id :=
    fun event member id moved => ⟨event, member, moved⟩
  have split : start.run platform (before ++ .reindexed rebuilt [] :: after) =
      ((start.run platform before).reindex platform rebuilt []).run platform after := by
    rw [IndexedStore.run, List.foldl_append]
    rfl
  rw [split]
  exact ⟨whole_run keeps quiet covered (whole_reindexed _ rebuilt),
    sound_run keeps covered (sound_renewed _ rebuilt)⟩

/-- The one document of an item that can be read. -/
theorem document_of_loaded {id : ItemId} {item : Item}
    (loaded : loadItem platform (start.run platform
      (before ++ .reindexed rebuilt [] :: after)).store.database.tables id = .ok item) :
    ∃ scope, (¬ MovedIn after id → scope = item.scope) ∧
      ∀ document, document ∈ (start.run platform
          (before ++ .reindexed rebuilt [] :: after)).index.visible ∧
        readDocumentId document = .ok id ↔ document = indexItem { item with scope } := by
  obtain ⟨whole, sound⟩ := @recovered platform keeps start before after rebuilt quiet
  obtain ⟨known, shelved, rfl, read⟩ := loadItem_from_shelf loaded
  obtain ⟨document, stored, described⟩ := whole.covers known shelved ⟨item, read⟩
  obtain ⟨scope, rfl, unmoved⟩ := described_loaded described read
  rw [← whole.settled.2.2.1] at stored
  have key := (documentMirror platform (MovedIn after)).sameKey described
  refine ⟨scope, unmoved, fun other => ⟨fun found => ?_, ?_⟩⟩
  · exact sound.visible.unique found.1 stored (found.2.trans key.symm)
  · rintro rfl
    exact ⟨stored, key⟩

end Recovery

/-- **A reindex recovers the index.** Whatever happened before, and as long as nothing fails
and every new item is told after, each item that can be read has exactly one document, which
holds what the item holds; its scope is that of the item, unless the item was moved since. -/
theorem reindex_recovers (keeps : platform.KeepsTimes) (start : IndexedStore)
    (before after : List IndexEvent) (rebuilt : Bool) (quiet : ∀ event ∈ after, event.Quiet) :
    let state := start.run platform (before ++ .reindexed rebuilt [] :: after)
    ∀ id item, loadItem platform state.store.database.tables id = .ok item →
      ∃ scope, (¬ MovedIn after id → scope = item.scope) ∧
        ∀ document, document ∈ state.index.visible ∧ readDocumentId document = .ok id ↔
          document = indexItem { item with scope } :=
  fun _ _ loaded => document_of_loaded keeps quiet loaded

/-- A note told and another moved after a reindex. -/
def movedSince : List IndexEvent :=
  [tellNote 4 "a/d", .unhooked ⟨.epoch, id⟩ (.setScope ⟨2⟩ (some "b"))]

/-- Nothing fails there. -/
theorem movedSince_quiet : ∀ event ∈ movedSince, event.Quiet := by
  rintro event (_ | ⟨_, _ | ⟨_, none⟩⟩)
  · trivial
  · exact ⟨_, _, rfl⟩
  · cases none

/-- The lost note has its document. -/
theorem lost_note_recovered :
    ∃ item, loadItem .ascii (faultyStart.run .ascii
        (lostNotes ++ .reindexed false [] :: movedSince)).store.database.tables ⟨1⟩ = .ok item ∧
      ∃ scope, (¬ MovedIn movedSince ⟨1⟩ → scope = item.scope) ∧
        ∀ document, document ∈ (faultyStart.run .ascii
            (lostNotes ++ .reindexed false [] :: movedSince)).index.visible ∧
          readDocumentId document = .ok ⟨1⟩ ↔ document = indexItem { item with scope } := by
  have present : (loadItem .ascii (faultyStart.run .ascii
      (lostNotes ++ .reindexed false [] :: movedSince)).store.database.tables ⟨1⟩).toOption.isSome := by
    decide +kernel
  rcases loaded : loadItem .ascii (faultyStart.run .ascii
    (lostNotes ++ .reindexed false [] :: movedSince)).store.database.tables ⟨1⟩ with error | item
  · rw [loaded] at present
    cases present
  · exact ⟨item, rfl, reindex_recovers Platform.ascii_keepsTimes faultyStart lostNotes movedSince false
      movedSince_quiet ⟨1⟩ item loaded⟩

/-- Every event keeps the scopes of the store validated. -/
theorem step_scopesValidated {state : IndexedStore} (event : IndexEvent)
    (held : state.store.ScopesValidated platform) :
    (state.step platform event).store.ScopesValidated platform := by
  cases event with
  | hooked env request =>
    rw [IndexedStore.step, HookedStore.step_store]
    exact perform_scopesValidated env request.call state.store held
  | unhooked env call => exact perform_scopesValidated env call state.store held
  | opened rebuilt fates => exact held
  | reloaded => exact held
  | reindexed rebuilt fates => exact held

/-- So does every run. -/
theorem run_scopesValidated {state : IndexedStore} (events : List IndexEvent)
    (held : state.store.ScopesValidated platform) :
    (state.run platform events).store.ScopesValidated platform := by
  induction events generalizing state with
  | nil => exact held
  | cons event rest inductionHypothesis => exact inductionHypothesis (step_scopesValidated event held)

/-- A query restricted to a filter matches what an item in the scope of the filter is indexed
as, where the query alone does. -/
theorem matches_indexItem {item : Item} (normalised : ∀ scope ∈ item.scope, Scope.Normalised scope)
    (query : Parsed) (given : Option ScopeFilter) :
    engine.matchesQuery (effectiveQuery query given) (indexItem item) ↔
      engine.satisfied query (indexItem item) ∧ ∀ filter ∈ given, filter.admits item.scope := by
  cases given with
  | none => simp [effectiveQuery, TextEngine.matchesQuery]
  | some filter =>
    rw [effectiveQuery, TextEngine.matchesQuery, Bool.and_eq_true]
    refine and_congr Iff.rfl ?_
    rw [TextEngine.matchesQuery, indexItem_hasTerm, scopeClause_mem_iff filter normalised]
    simp

/-- **A search after a reindex is exact.** Whatever happened before, and as long as nothing
fails and every new item is told after, a search that is not cut off finds an item that can be
read and was not moved since exactly when it satisfies the query and lies in the scope. -/
theorem search_after_reindex (keeps : platform.KeepsTimes) (start : IndexedStore)
    (validated : start.store.ScopesValidated platform) (before after : List IndexEvent)
    (rebuilt : Bool) (quiet : ∀ event ∈ after, event.Quiet) (query : Parsed) (options : SearchOptions)
    (first : options.offset = 0) :
    let state := start.run platform (before ++ .reindexed rebuilt [] :: after)
    ∀ results, searchText engine arithmetic state.index.visible query options = .ok results →
      results.totalMatched ≤ options.limit →
      ∀ id item, loadItem platform state.store.database.tables id = .ok item → ¬ MovedIn after id →
        ((∃ hit ∈ results.hits, hit.id = id) ↔
          engine.satisfied query (indexItem item) ∧
            ∀ filter ∈ options.scope, filter.admits item.scope) := by
  intro state results returned fits id item loaded unmoved
  obtain ⟨scope, same, only⟩ := document_of_loaded keeps quiet loaded
  obtain rfl : scope = item.scope := same unmoved
  have scopes := run_scopesValidated (before ++ .reindexed rebuilt [] :: after) validated
  have normalised : ∀ scope ∈ item.scope, Scope.Normalised scope := by
    intro scope present
    obtain ⟨known, shelved, _, read⟩ := loadItem_from_shelf loaded
    obtain ⟨row, stored, rfl⟩ := List.mem_map.mp shelved
    rw [(readShelved_portrays read).2] at present
    obtain ⟨raw, returned⟩ := scopes row stored scope present
    exact Scope.validate_normalised returned
  rw [← matches_indexItem normalised query options.scope]
  have document := (only (indexItem item)).mpr rfl
  constructor
  · rintro ⟨hit, member, rfl⟩
    obtain ⟨found, stored, identified, matching⟩ := searchText_matching returned member
    rwa [(only found).mp ⟨stored, identified⟩] at matching
  · intro matching
    obtain ⟨hit, member, identified⟩ := searchText_finds returned first fits document.1 matching
    exact ⟨hit, member, Except.ok.inj (identified.symm.trans document.2)⟩

/-- A text engine that compares whole contents, for runs. -/
def contentEngine : TextEngine String where
  parseStrict := .ok
  parseLenient text := (text, 1)
  satisfied text document := document.hasTerm (.content, text)
  relevance _ _ := 0
  snippet _ _ := ""

/-- Scores that are all alike, for runs. -/
def equalScores : Arithmetic where
  ofNat _ := 0
  add _ _ := 0
  sub _ _ := 0
  div _ _ := 0
  compare _ _ := some .eq

/-- The lost note is found in its scope. -/
theorem lost_note_found :
    ∃ results, searchText contentEngine equalScores (faultyStart.run .ascii
        (lostNotes ++ .reindexed false [] :: movedSince)).index.visible "zebra"
        ⟨10, 0, false, some ⟨"a", false⟩⟩ = .ok results ∧ results.totalMatched ≤ 10 ∧
      ∃ item, loadItem .ascii (faultyStart.run .ascii
          (lostNotes ++ .reindexed false [] :: movedSince)).store.database.tables ⟨1⟩ = .ok item ∧
        ((∃ hit ∈ results.hits, hit.id = ⟨1⟩) ↔
          contentEngine.satisfied "zebra" (indexItem item) ∧
            ∀ filter ∈ some (ScopeFilter.mk "a" false), filter.admits item.scope) := by
  have evaluated : (match searchText contentEngine equalScores (faultyStart.run .ascii
        (lostNotes ++ .reindexed false [] :: movedSince)).index.visible "zebra"
        ⟨10, 0, false, some ⟨"a", false⟩⟩, loadItem .ascii (faultyStart.run .ascii
          (lostNotes ++ .reindexed false [] :: movedSince)).store.database.tables ⟨1⟩ with
      | .ok results, .ok _ => decide (results.totalMatched ≤ 10)
      | _, _ => false) = true := by decide +kernel
  split at evaluated
  case h_1 results item searched loaded =>
    have unmoved : ¬ MovedIn movedSince ⟨1⟩ := by
      rintro ⟨event, _ | ⟨_, _ | ⟨_, none⟩⟩, moved⟩
      · cases moved
      · cases moved
      · cases none
    exact ⟨results, searched, of_decide_eq_true evaluated, item, loaded,
      search_after_reindex Platform.ascii_keepsTimes faultyStart (fun _ => nofun) lostNotes movedSince
        false movedSince_quiet "zebra" ⟨10, 0, false, some ⟨"a", false⟩⟩ rfl results searched
        (of_decide_eq_true evaluated) ⟨1⟩ item loaded unmoved⟩
  case h_2 => cases evaluated

end Singularmem.Search
