import Singularmem.Core.TagFilters
import Singularmem.Search.IndexedStore

/-!
# Runs of a store with its text index

Whatever happens, each document describes a stored item and no item has two. What the index
lacks, a reindex supplies: it writes the documents of all items that can be read, whatever
the index held. From then on the index stays whole as long as every write goes through the
hook and nothing fails, and its scopes are those of the store but for the items moved since.
-/

namespace Singularmem.Search

open Library Singularmem.Core
open Effect hiding ofExcept

variable {platform : Platform} {exempt : ItemId → Prop}

/-- The items that can be read are read from the shelf. -/
theorem mem_readable {store : Store} {item : Item} :
    item ∈ IndexedStore.readable platform store ↔
      ∃ known ∈ store.database.tables.shelf, readShelved platform known = .ok item := by
  have listed : ∀ id, id ∈ listedIds store.database.tables [] none ↔
      store.database.tables.hasItem id := by
    intro id
    simp [listedIds, byCreation, carriesTags, hasItem_iff]
  rw [IndexedStore.readable, list, listByTagsScoped, List.filterMap_map, List.mem_filterMap]
  constructor
  · rintro ⟨id, selected, read⟩
    obtain ⟨known, stored, rfl⟩ := hasItem_iff_shelf.mp ((listed id).mp selected)
    rw [Function.comp_apply, loadItem_shelved stored] at read
    rcases given : readShelved platform known with error | found
    · rw [given] at read
      cases read
    · rw [given] at read
      cases read
      exact ⟨known, stored, given⟩
  · rintro ⟨known, stored, read⟩
    refine ⟨known.1.id, (listed _).mpr (hasItem_iff_shelf.mpr ⟨known, stored, rfl⟩), ?_⟩
    rw [Function.comp_apply, loadItem_shelved stored, read]
    rfl

/-- No item is read twice. -/
theorem readable_nodup (store : Store) :
    ((IndexedStore.readable platform store).map Item.id).Nodup := by
  have fewer : ∀ ids : List ItemId, ((ids.filterMap fun id =>
      (loadItem platform store.database.tables id).toOption).map Item.id).Sublist ids := by
    intro ids
    induction ids with
    | nil => exact .slnil
    | cons id rest inductionHypothesis =>
      rcases loaded : loadItem platform store.database.tables id with error | item
      · rw [List.filterMap_cons_none (by rw [loaded]; rfl)]
        exact inductionHypothesis.cons id
      · rw [List.filterMap_cons_some (by rw [loaded]; rfl), List.map_cons, loadItem_id loaded]
        exact inductionHypothesis.cons_cons id
  rw [IndexedStore.readable, list, listByTagsScoped, List.filterMap_map]
  exact (listedIds_nodup store.database.tables [] none).sublist (fewer _)

/-- The documents of a reindex are sound. -/
theorem readable_sound (store : Store) :
    (documentMirror platform exempt).Sound ((IndexedStore.readable platform store).map indexItem)
      store.database.tables.shelf := by
  constructor
  · have ids : ((IndexedStore.readable platform store).map indexItem).map readDocumentId =
        ((IndexedStore.readable platform store).map Item.id).map Except.ok := by
      simp [readDocumentId, indexItem, ItemId.fromStr_display]
    exact ids ▸ (readable_nodup store).map fun _ _ same => Except.ok.inj same
  · intro document member
    obtain ⟨item, read, rfl⟩ := List.mem_map.mp member
    obtain ⟨known, stored, found⟩ := mem_readable.mp read
    obtain ⟨portrays, inScope⟩ := readShelved_portrays found
    exact ⟨known, stored, item, portrays, fun _ => inScope, rfl⟩

/-- Wrapping an error changes nothing else. -/
theorem exec_during (context : String) (call : Effect HookError TextIndex PUnit)
    (index : TextIndex) : exec (TextIndex.during context call) index =
      match exec call index with
      | (.ok value, after) => (.ok value, after)
      | (.error error, after) =>
        (.error (TextIndex.tantivyError context (TextIndex.systemError error)), after) := rfl

/-- Returning a value after a call changes nothing else. -/
theorem exec_during_returning {α : Type} (context : String) (call : Effect HookError TextIndex PUnit)
    (value : α) (index : TextIndex) :
    (exec (TextIndex.during context call >>= fun _ => pure value) index).2 = (exec call index).2 := by
  rw [exec_bind, exec_during]
  rcases exec call index with ⟨_ | _, _⟩ <;> rfl

/-- The documents are deleted with the next commit, or nothing happens. -/
theorem exec_deleteAllDocuments (index : TextIndex) :
    ∃ fates, exec TextIndex.deleteAllDocuments index = (.ok ⟨⟩, { index with emptied := true, fates }) ∧
          (index.fates = [] → fates = []) ∨
      ∃ error, exec TextIndex.deleteAllDocuments index = (.error error, { index with fates }) ∧
        index.fates ≠ [] := by
  rcases given : index.fates with _ | ⟨fate, rest⟩
  · refine ⟨[], .inl ⟨?_, fun _ => rfl⟩⟩
    rw [TextIndex.deleteAllDocuments, exec_bind, TextIndex.exec_nextFate, given]
    change (_, _) = (_, _)
    rw [← given]
  · refine ⟨rest, ?_⟩
    rw [TextIndex.deleteAllDocuments, exec_bind, TextIndex.exec_nextFate, given]
    cases fate with
    | done => exact .inl ⟨rfl, fun none => absurd none (List.cons_ne_nil _ _)⟩
    | failed reason kept => exact .inr ⟨_, rfl, List.cons_ne_nil _ _⟩
    | unreloaded reason => exact .inr ⟨_, rfl, List.cons_ne_nil _ _⟩

/-- What a commit leaves on disk: what there was, or all that was pending. -/
theorem commit_committed (index : TextIndex) :
    (exec TextIndex.commit index).2.committed = index.committed ∨
      (exec TextIndex.commit index).2.committed = index.pending := by
  rw [TextIndex.commit, exec_bind, TextIndex.exec_nextFate]
  rcases index.fates with _ | ⟨_ | ⟨reason, kept⟩ | reason, rest⟩
  · exact .inr rfl
  · exact .inr rfl
  · exact .inl rfl
  · exact .inr rfl

/-- **What a reindex commits**: what there was, or the documents of the items. The latter if
nothing failed. -/
theorem reindexFrom_law (items : List Item) (index : TextIndex) (nothing : index.staged = []) :
    let after := (exec (TextIndex.reindexFrom items) index).2
    (after.committed = index.committed ∨ after.committed = items.map indexItem) ∧
      (index.fates = [] → after.committed = items.map indexItem ∧ after.fates = []) := by
  obtain ⟨fates, ⟨emptied, quiet⟩ | ⟨error, refused, noisy⟩⟩ := exec_deleteAllDocuments index
  case inr =>
    rw [TextIndex.reindexFrom, exec_bind_error refused]
    exact ⟨.inl rfl, fun still => absurd still noisy⟩
  rw [TextIndex.reindexFrom, exec_bind_ok emptied]
  rcases added : exec (TextIndex.addEach items) { index with emptied := true, fates }
    with ⟨outcome, staged⟩
  obtain ⟨some, final, -, rfl, all, calm⟩ := TextIndex.addEach_law added
  have during := exec_during "on_reindex call during reindex_from" (TextIndex.addEach items)
    { index with emptied := true, fates }
  rw [added] at during
  rcases outcome with error | value
  · rw [exec_bind_error during]
    refine ⟨.inl rfl, fun still => ?_⟩
    cases (calm (quiet still)).1
  · obtain rfl := all rfl
    rw [exec_bind_ok during, exec_during_returning]
    have whole : TextIndex.pending { index with
        emptied := true, staged := index.staged ++ some.map indexItem, fates := final } =
        some.map indexItem := by
      simp [TextIndex.pending, nothing]
    have left := commit_committed { index with
      emptied := true, staged := index.staged ++ some.map indexItem, fates := final }
    rw [whole] at left
    refine ⟨left, fun still => ?_⟩
    have settled := TextIndex.settled_committed { index with
      emptied := true, staged := index.staged ++ some.map indexItem, fates := final }
        (calm (quiet still)).2
    rw [whole] at settled
    exact ⟨settled.2, settled.1.2.2.2⟩

/-- An index opened on what was committed is sound. -/
theorem sound_opened {state : IndexedStore} (sound : state.Sound platform exempt) (rebuilt : Bool)
    (fates : List Fate) :
    IndexedStore.Sound platform exempt { state with index := state.index.opened rebuilt fates } := by
  have fewer : (state.index.opened rebuilt fates).committed.Sublist state.index.pending := by
    rw [TextIndex.pending, sound.whole, TextIndex.opened]
    cases rebuilt with
    | true => exact List.nil_sublist _
    | false => exact List.sublist_append_left _ _
  refine ⟨rfl, ?_, sound.pending.sublist fewer⟩
  have pending : (state.index.opened rebuilt fates).pending =
      (state.index.opened rebuilt fates).committed := List.append_nil _
  exact pending ▸ sound.pending.sublist fewer

/-- So is one that a reindex left. -/
theorem sound_reindexed {state : IndexedStore} (sound : state.Sound platform exempt) (rebuilt : Bool)
    (fates : List Fate) : (state.reindex platform rebuilt fates).Sound platform exempt := by
  have start := sound_opened sound rebuilt fates
  obtain ⟨left, -⟩ := reindexFrom_law (IndexedStore.readable platform state.store)
    (state.index.opened rebuilt fates) rfl
  have committed : (documentMirror platform exempt).Sound
      (exec (TextIndex.reindexFrom (IndexedStore.readable platform state.store))
        (state.index.opened rebuilt fates)).2.committed state.shelf := by
    rcases left with same | replaced
    · rw [same]
      exact start.visible
    · rw [replaced]
      exact readable_sound state.store
  refine ⟨rfl, ?_, committed⟩
  change (documentMirror platform exempt).Sound (_ ++ []) state.shelf
  rw [List.append_nil]
  exact committed

/-- Documents of a store stay sound when it changes, and those of the told items join them. -/
theorem sound_announced {documents : List Document} {before after : Store} {items : List Item}
    (sound : (documentMirror platform exempt).Sound documents before.database.tables.shelf)
    (announced : Announces platform before after items) :
    (documentMirror platform exempt).Sound (documents ++ items.map indexItem)
      after.database.tables.shelf := by
  obtain ⟨added, ⟨kept, shelf, keeps⟩, told⟩ := announced
  have injective : Function.Injective (Except.ok : ItemId → Except Error ItemId) :=
    fun _ _ same => Except.ok.inj same
  have distinct := (shelf_ids_nodup after.database.tables).map injective
  rw [List.map_map, shelf] at distinct
  rw [shelf]
  have covered : ∀ id ∈ (none : Option ItemId), exempt id := nofun
  exact (sound.follow (follows_kept covered keeps)).grow (indexItem_describes told) distinct

/-- Documents of a store stay sound where it changes and they are not told. -/
theorem sound_unannounced {documents : List Document} {moved : Option ItemId} {before after : Tables}
    {added : List Shelved} (covered : ∀ id ∈ moved, exempt id)
    (sound : (documentMirror platform exempt).Sound documents before.shelf)
    (extended : Extends moved before after added) :
    (documentMirror platform exempt).Sound documents after.shelf := by
  obtain ⟨kept, shelf, keeps⟩ := extended
  rw [shelf]
  refine (sound.follow (follows_kept covered keeps)).follow fun known member => ?_
  exact ⟨known, List.mem_append_left _ member, fun _ => id⟩

/-- **Every event keeps the index sound**, where the row it moves is exempt. -/
theorem sound_step (keeps : platform.KeepsTimes) {state : IndexedStore} {event : IndexEvent}
    (covered : ∀ id ∈ event.movedRow, exempt id) (sound : state.Sound platform exempt) :
    (state.step platform event).Sound platform exempt := by
  cases event with
  | hooked env request =>
    rcases HookedStore.step_cases keeps ⟨state.store, some ⟨TextIndex.hook, state.index⟩⟩ env request
      with same | ⟨telling, after, announced, told⟩
    · rw [IndexedStore.step, same]
      exact sound
    · rw [IndexedStore.step, told]
      have within := TextIndex.fire_within telling state.index
      have grown := sound_announced sound.pending announced
      refine ⟨within.whole sound.whole, grown.sublist within.pending, ?_⟩
      rcases within.visible with same | fewer
      · obtain ⟨added, extended, _⟩ := announced
        have kept := sound_unannounced nofun sound.visible extended
        rwa [← same] at kept
      · exact grown.sublist fewer
  | unhooked env call =>
    obtain ⟨added, extended⟩ := itemCall_extends keeps env call state.store
    exact ⟨sound.whole, sound_unannounced covered sound.pending extended,
      sound_unannounced covered sound.visible extended⟩
  | opened rebuilt fates => exact sound_opened sound rebuilt fates
  | reloaded =>
    refine ⟨sound.whole, sound.pending, sound.pending.sublist ?_⟩
    rw [TextIndex.pending, sound.whole]
    exact List.sublist_append_left _ _
  | reindexed rebuilt fates => exact sound_reindexed sound rebuilt fates

/-- Every run does. -/
theorem sound_run (keeps : platform.KeepsTimes) {events : List IndexEvent} {state : IndexedStore}
    (covered : ∀ event ∈ events, ∀ id ∈ event.movedRow, exempt id)
    (sound : state.Sound platform exempt) : (state.run platform events).Sound platform exempt := by
  induction events generalizing state with
  | nil => exact sound
  | cons event rest inductionHypothesis =>
    exact inductionHypothesis (fun other member => covered other (List.mem_cons_of_mem event member))
      (sound_step keeps (covered event List.mem_cons_self) sound)

/-- A new index is sound. -/
theorem sound_fresh (store : Store) (fates : List Fate) :
    IndexedStore.Sound platform exempt ⟨store, .fresh fates⟩ :=
  ⟨rfl, .nil, .nil⟩

/-- A row that can be read. -/
def Readable (platform : Platform) (known : Shelved) : Prop :=
  ∃ item, readShelved platform known = .ok item

/-- A row that can be read could be read before. -/
theorem Readable.before {moved : Option ItemId} {before after : Shelved}
    (kept : KeepsShelved moved before after) (readable : Readable platform after) :
    Readable platform before := by
  obtain ⟨_, _, rfl, _⟩ := kept
  obtain ⟨item, read⟩ := readable
  obtain ⟨createdAt, parsed, rest⟩ := except_bind_returned read
  obtain ⟨metadata, reread, _⟩ := except_bind_returned rest
  refine ⟨⟨before.1.id, before.1.content, createdAt, before.1.supersedes, before.2, before.1.source,
    metadata, before.1.externalId, before.1.scope⟩, ?_⟩
  rw [readShelved, parsed, reread]
  rfl

/-- An index that shows all it holds and fails at nothing to come, and has a document of each
item that can be read. -/
structure IndexedStore.Whole (platform : Platform) (exempt : ItemId → Prop) (state : IndexedStore) :
    Prop where
  settled : state.index.Settled
  covers : (documentMirror platform exempt).Covers (Readable platform) state.index.committed state.shelf

/-- An event in which nothing fails and every new item is told. -/
def IndexEvent.Quiet : IndexEvent → Prop
  | .hooked _ _ | .reloaded => True
  | .unhooked _ call => ∃ id scope, call = .setScope id scope
  | .opened rebuilt fates => rebuilt = false ∧ fates = []
  | .reindexed _ fates => fates = []

/-- Rows that are kept stay covered. -/
theorem covers_kept {documents : List Document} {moved : Option ItemId}
    (covered : ∀ id ∈ moved, exempt id) {before after : List Shelved}
    (covers : (documentMirror platform exempt).Covers (Readable platform) documents before)
    (keeps : List.Forall₂ (KeepsShelved moved) before after) :
    (documentMirror platform exempt).Covers (Readable platform) documents after := by
  refine covers.follow fun known member => ?_
  obtain ⟨was, stored, kept⟩ := forall₂_source keeps known member
  exact ⟨was, stored, Readable.before kept, describes_kept covered kept⟩

/-- What is pending in a settled index is committed. -/
theorem TextIndex.Settled.pending {index : TextIndex} (settled : index.Settled) :
    index.pending = index.committed := by
  obtain ⟨staged, whole, _, _⟩ := settled
  rw [TextIndex.pending, staged, whole]
  exact List.append_nil _

/-- **A reindex makes the index whole.** -/
theorem whole_reindexed (state : IndexedStore) (rebuilt : Bool) :
    (state.reindex platform rebuilt []).Whole platform exempt := by
  obtain ⟨committed, quiet⟩ := (reindexFrom_law (IndexedStore.readable platform state.store)
    (state.index.opened rebuilt []) rfl).2 rfl
  refine ⟨⟨rfl, rfl, rfl, quiet⟩, fun known member readable => ?_⟩
  obtain ⟨item, read⟩ := readable
  obtain ⟨portrays, inScope⟩ := readShelved_portrays read
  refine ⟨indexItem item, ?_, item, portrays, fun _ => inScope, rfl⟩
  change indexItem item ∈ (exec (TextIndex.reindexFrom (IndexedStore.readable platform state.store))
    (state.index.opened rebuilt [])).2.committed
  rw [committed]
  exact List.mem_map_of_mem (mem_readable.mpr ⟨known, member, read⟩)

/-- It makes the index sound, whatever the index held. -/
theorem sound_renewed (state : IndexedStore) (rebuilt : Bool) :
    (state.reindex platform rebuilt []).Sound platform exempt := by
  obtain ⟨committed, -⟩ := (reindexFrom_law (IndexedStore.readable platform state.store)
    (state.index.opened rebuilt []) rfl).2 rfl
  have sound := @readable_sound platform exempt state.store
  rw [← committed] at sound
  refine ⟨rfl, ?_, sound⟩
  change (documentMirror platform exempt).Sound (_ ++ []) state.shelf
  rw [List.append_nil]
  exact sound

/-- **A quiet event keeps the index whole.** -/
theorem whole_step (keeps : platform.KeepsTimes) {state : IndexedStore} {event : IndexEvent}
    (quiet : event.Quiet) (covered : ∀ id ∈ event.movedRow, exempt id)
    (whole : state.Whole platform exempt) : (state.step platform event).Whole platform exempt := by
  cases event with
  | hooked env request =>
    rcases HookedStore.step_cases keeps ⟨state.store, some ⟨TextIndex.hook, state.index⟩⟩ env request
      with same | ⟨telling, after, ⟨added, ⟨kept, shelf, keeps⟩, announced⟩, told⟩
    · rw [IndexedStore.step, same]
      exact whole
    · rw [IndexedStore.step, told]
      obtain ⟨settled, committed⟩ := TextIndex.fire_settled telling state.index whole.settled.2.2.2
      have unmoved : ∀ id ∈ (none : Option ItemId), exempt id := nofun
      have grown := (covers_kept unmoved whole.covers keeps).grow (indexItem_describes announced)
      rw [← shelf, ← whole.settled.pending, ← committed] at grown
      exact ⟨settled, grown⟩
  | unhooked env call =>
    obtain ⟨id, scope, rfl⟩ := quiet
    rcases ran : exec (setScope platform id scope) state.store with ⟨outcome, after⟩
    obtain ⟨kept, shelf, keeps⟩ := setScope_extends ran
    have stepped : state.step platform (.unhooked env (.setScope id scope)) = ⟨after, state.index⟩ := by
      rw [IndexedStore.step, ItemCall.perform, exec_map, ran]
    rw [stepped]
    refine ⟨whole.settled, ?_⟩
    rw [IndexedStore.shelf, shelf, List.append_nil]
    exact covers_kept covered whole.covers keeps
  | opened rebuilt fates =>
    obtain ⟨rfl, rfl⟩ := quiet
    exact ⟨⟨rfl, rfl, rfl, rfl⟩, whole.covers⟩
  | reloaded =>
    obtain ⟨staged, emptied, _, fates⟩ := whole.settled
    exact ⟨⟨staged, emptied, rfl, fates⟩, whole.covers⟩
  | reindexed rebuilt fates =>
    obtain rfl := quiet
    exact whole_reindexed state rebuilt

/-- Quiet runs do. -/
theorem whole_run (keeps : platform.KeepsTimes) {events : List IndexEvent} {state : IndexedStore}
    (quiet : ∀ event ∈ events, event.Quiet)
    (covered : ∀ event ∈ events, ∀ id ∈ event.movedRow, exempt id)
    (whole : state.Whole platform exempt) : (state.run platform events).Whole platform exempt := by
  induction events generalizing state with
  | nil => exact whole
  | cons event rest inductionHypothesis =>
    exact inductionHypothesis (fun other member => quiet other (List.mem_cons_of_mem event member))
      (fun other member => covered other (List.mem_cons_of_mem event member))
      (whole_step keeps (quiet event List.mem_cons_self) (covered event List.mem_cons_self) whole)

end Singularmem.Search
