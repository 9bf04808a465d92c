import Singularmem.Core.Announcements
import Singularmem.Search.TextIndex
import Singularmem.Search.ScopeIsolation

/-!
# A store with its text index

The hook of the text index adds one document for each item it is told and commits; it never
replaces a document. The index may fail at any call of its writer, lose what it staged when
its process ends, show its reader an older commit, or be deleted with its schema; other
processes write to the store without the hook, and a moved scope is told to nobody. All the
same a document always describes a stored item, and no item has two.
-/

namespace Singularmem.Search

open Library Singularmem.Core
open Effect hiding ofExcept

variable {platform : Platform}

/-- How a call of the index writer ends. A commit that fails keeps some of the staged
documents; one whose reader is not reloaded has committed. -/
inductive Fate
  | done
  | failed (reason : String) (kept : Document → Bool)
  | unreloaded (reason : String)

/-- A text index: the last commit, the documents staged since, whether the commit is to be
emptied first, what the reader shows, and how the next calls of the writer end. -/
structure TextIndex where
  committed : List Document
  staged : List Document
  emptied : Bool
  visible : List Document
  fates : List Fate

namespace TextIndex

/-- A new index. -/
def fresh (fates : List Fate) : TextIndex := ⟨[], [], false, [], fates⟩

/-- What the next commit holds. -/
def pending (index : TextIndex) : List Document :=
  (if index.emptied then [] else index.committed) ++ index.staged

/-- The index once its staged documents are committed. -/
def published (index : TextIndex) : TextIndex :=
  { index with committed := index.pending, staged := [], emptied := false }

/-- The index whose reader shows the last commit. -/
def reloaded (index : TextIndex) : TextIndex := { index with visible := index.committed }

/-- The index opened by another process, `Index::open`: what was staged is lost. An index of an
older schema is deleted first. -/
def opened (rebuilt : Bool) (fates : List Fate) (index : TextIndex) : TextIndex :=
  let committed := if rebuilt then [] else index.committed
  ⟨committed, [], false, committed, fates⟩

/-- The error of a call of the writer. -/
def tantivyError (context reason : String) : HookError :=
  ⟨"Tantivy error during " ++ context ++ ": " ++ reason⟩

/-- How the next call of the writer ends. -/
def nextFate : Effect HookError TextIndex Fate := do
  let index ← get
  match index.fates with
  | [] => pure .done
  | fate :: rest => do
    set { index with fates := rest }
    pure fate

/-- `index_item`: add the document of an item. -/
def addItem (item : Item) : Effect HookError TextIndex PUnit := do
  match ← nextFate with
  | .done => modify fun index => { index with staged := index.staged ++ [indexItem item] }
  | .failed reason _ | .unreloaded reason =>
    throw (tantivyError "adding document to Tantivy writer" reason)

/-- Add the documents of several items, up to the first error. -/
def addEach : List Item → Effect HookError TextIndex PUnit
  | [] => pure ⟨⟩
  | item :: rest => do
    addItem item
    addEach rest

/-- Commit, and reload the reader. -/
def commit : Effect HookError TextIndex PUnit := do
  match ← nextFate with
  | .done => modify fun index => index.published.reloaded
  | .unreloaded reason => do
    modify published
    throw (tantivyError "reloading reader after commit" reason)
  | .failed reason kept => do
    modify fun index => { index with staged := index.staged.filter kept }
    throw (tantivyError "committing Tantivy writer" reason)

/-- The index as a hook: `onReindex` does what `onIngest` does. -/
def hook : IndexHook TextIndex where
  onIngest := addItem
  onReindex := addItem
  commit := commit
  onIngestBatch := addEach

/-- Delete every document with the next commit. It is called on an index just opened, where
nothing is staged. -/
def deleteAllDocuments : Effect HookError TextIndex PUnit := do
  match ← nextFate with
  | .done => modify fun index => { index with emptied := true }
  | .failed reason _ | .unreloaded reason =>
    throw (tantivyError "delete_all_documents during reindex" reason)

/-- The text of the library's error that wraps a message of the store. -/
def systemError (error : HookError) : String :=
  "System error.'I/O error: " ++ error.message ++ "'"

/-- Run a call of the hook, with its error wrapped. -/
def during (context : String) (call : Effect HookError TextIndex PUnit) :
    Effect HookError TextIndex PUnit :=
  ExceptT.mk fun index =>
    match exec call index with
    | (.ok value, after) => (.ok value, after)
    | (.error error, after) => (.error (tantivyError context (systemError error)), after)

/-- `Index::reindex_from`: write the documents of the items in place of all there are, and how
many they are. -/
def reindexFrom (items : List Item) : Effect HookError TextIndex Nat := do
  deleteAllDocuments
  during "on_reindex call during reindex_from" (addEach items)
  during "commit during reindex_from" commit
  return items.length

end TextIndex

/-- A store with its text index. -/
structure IndexedStore where
  store : Store
  index : TextIndex

/-- What happens to a store and its index. -/
inductive IndexEvent
  /-- A call of a process that has the index as its hook. -/
  | hooked (env : Env) (request : IngestRequest)
  /-- A call whose items reach no hook: of a process without it, or killed before it told. -/
  | unhooked (env : Env) (call : ItemCall)
  /-- The index is closed, or its process killed, and opened again. -/
  | opened (rebuilt : Bool) (fates : List Fate)
  /-- The reader reloads by itself. -/
  | reloaded
  /-- The command `reindex`, which opens the index and ends with its process. -/
  | reindexed (rebuilt : Bool) (fates : List Fate)

/-- The row an event may move. -/
def IndexEvent.movedRow : IndexEvent → Option ItemId
  | .unhooked _ call => call.movedRow
  | _ => none

namespace IndexedStore

variable (platform) in
/-- The items of the store that can be read, in the order of listings. -/
def readable (store : Store) : List Item :=
  (list platform store.database.tables).filterMap Except.toOption

variable (platform) in
/-- The command `reindex`, up to the end of its process. -/
def reindex (rebuilt : Bool) (fates : List Fate) (state : IndexedStore) : IndexedStore :=
  let ran := (exec (TextIndex.reindexFrom (readable platform state.store))
    (state.index.opened rebuilt fates)).2
  { state with index := ran.opened false ran.fates }

variable (platform) in
/-- The state after an event. -/
def step (state : IndexedStore) : IndexEvent → IndexedStore
  | .hooked env request =>
    let hooked := (HookedStore.mk state.store (some ⟨TextIndex.hook, state.index⟩)).step platform
      (env, request)
    ⟨hooked.store, hooked.hook.elim state.index HookBox.state⟩
  | .unhooked env call => { state with store := (exec (call.perform platform env) state.store).2 }
  | .opened rebuilt fates => { state with index := state.index.opened rebuilt fates }
  | .reloaded => { state with index := state.index.reloaded }
  | .reindexed rebuilt fates => state.reindex platform rebuilt fates

variable (platform) in
/-- The state after several events. -/
def run (state : IndexedStore) (events : List IndexEvent) : IndexedStore :=
  events.foldl (step platform) state

/-- The shelf of the store. -/
def shelf (state : IndexedStore) : List Shelved := state.store.database.tables.shelf

end IndexedStore

/-- Documents describe rows by the items they were written for. The scope they were written
with is that of the row, unless the row is exempt. -/
def documentMirror (platform : Platform) (exempt : ItemId → Prop) :
    Mirror Document Shelved (Except Error ItemId) where
  copyKey := readDocumentId
  entryKey known := .ok known.1.id
  describes document known := ∃ item : Item, item.Portrays platform known ∧
    (¬ exempt known.1.id → item.scope = known.1.scope) ∧ document = indexItem item
  sameKey := by
    rintro _ known ⟨item, portrays, _, rfl⟩
    simp [readDocumentId, indexItem, ItemId.fromStr_display, portrays.id]

variable {exempt : ItemId → Prop}

/-- The documents of told items describe their rows. -/
theorem indexItem_describes {items : List Item} {added : List Shelved}
    (told : List.Forall₂ (Item.PortraysScoped platform) items added) :
    List.Forall₂ (documentMirror platform exempt).describes (items.map indexItem) added := by
  rw [List.forall₂_map_left_iff]
  exact told.imp fun item known portrays => ⟨item, portrays.1, fun _ => portrays.2, rfl⟩

/-- What described a row describes what it became, where the moved row is exempt. -/
theorem describes_kept {moved : Option ItemId} (covered : ∀ id ∈ moved, exempt id)
    {before after : Shelved} (kept : KeepsShelved moved before after) (document : Document)
    (described : (documentMirror platform exempt).describes document before) :
    (documentMirror platform exempt).describes document after := by
  obtain ⟨item, portrays, inScope, rfl⟩ := described
  refine ⟨item, portrays.kept kept, ?_, rfl⟩
  obtain ⟨_, scope, rfl, same | isMoved⟩ := kept
  · exact fun bound => (inScope bound).trans same.symm
  · exact fun bound => absurd (covered _ isMoved) bound

/-- Rows that are kept are followed. -/
theorem follows_kept {moved : Option ItemId} (covered : ∀ id ∈ moved, exempt id)
    {before after : List Shelved} (kept : List.Forall₂ (KeepsShelved moved) before after) :
    (documentMirror platform exempt).Follows before after := by
  intro known member
  obtain ⟨became, there, keeps⟩ := forall₂_partner kept known member
  exact ⟨became, there, describes_kept covered keeps⟩

namespace TextIndex

/-- What a call of the writer left: no more than some documents, of which the reader shows
some if it reloaded. -/
structure Within (documents : List Document) (before after : TextIndex) : Prop where
  pending : after.pending.Sublist documents
  visible : after.visible = before.visible ∨ after.visible.Sublist documents
  whole : before.emptied = false → after.emptied = false

/-- Reading a fate changes nothing else. -/
theorem exec_nextFate (index : TextIndex) :
    exec nextFate index = match index.fates with
      | [] => (.ok .done, index)
      | fate :: rest => (.ok fate, { index with fates := rest }) := by
  rw [nextFate, exec_bind_ok (exec_get index)]
  rcases index.fates with _ | ⟨fate, rest⟩ <;> rfl

/-- The document of an item is added, or the call fails. -/
theorem exec_addItem (item : Item) (index : TextIndex) :
    ∃ fates, exec (addItem item) index =
        (.ok ⟨⟩, { index with staged := index.staged ++ [indexItem item], fates }) ∧
          (index.fates = [] → fates = []) ∨
      ∃ error, exec (addItem item) index = (.error error, { index with fates }) ∧
        index.fates ≠ [] := by
  rcases given : index.fates with _ | ⟨fate, rest⟩
  · refine ⟨[], .inl ⟨?_, fun _ => rfl⟩⟩
    rw [addItem, exec_bind, exec_nextFate, given]
    change (_, _) = (_, _)
    rw [← given]
  · refine ⟨rest, ?_⟩
    rw [addItem, exec_bind, exec_nextFate, given]
    cases fate with
    | done => exact .inl ⟨rfl, fun none => absurd none (List.cons_ne_nil _ _)⟩
    | failed reason kept => exact .inr ⟨_, rfl, List.cons_ne_nil _ _⟩
    | unreloaded reason => exact .inr ⟨_, rfl, List.cons_ne_nil _ _⟩

/-- **Adding several documents** adds those of the first so many items, and of all where it
returns, which it does if nothing fails. -/
theorem addEach_law {items : List Item} {index after : TextIndex}
    {outcome : Except HookError PUnit} (ran : exec (addEach items) index = (outcome, after)) :
    ∃ added fates, added <+: items ∧
      after = { index with staged := index.staged ++ added.map indexItem, fates } ∧
      (outcome = .ok ⟨⟩ → added = items) ∧
      (index.fates = [] → outcome = .ok ⟨⟩ ∧ fates = []) := by
  induction items generalizing index with
  | nil =>
    cases ran
    exact ⟨[], after.fates, List.prefix_refl _, by simp, fun _ => rfl, fun quiet => ⟨rfl, quiet⟩⟩
  | cons item rest inductionHypothesis =>
    obtain ⟨fates, ⟨stepped, quiet⟩ | ⟨error, stepped, noisy⟩⟩ := exec_addItem item index
    · rw [addEach, exec_bind_ok stepped] at ran
      obtain ⟨added, final, shorter, rfl, all, calm⟩ := inductionHypothesis ran
      exact ⟨item :: added, final, List.prefix_cons_inj item |>.mpr shorter, by simp,
        fun returned => by rw [all returned], fun still => calm (quiet still)⟩
    · rw [addEach, exec_bind_error stepped] at ran
      cases ran
      exact ⟨[], fates, List.nil_prefix, by simp, nofun, fun still => absurd still noisy⟩

/-- Staged documents follow what was pending. -/
theorem pending_staged (index : TextIndex) (documents : List Document) (fates : List Fate) :
    { index with staged := index.staged ++ documents, fates : TextIndex }.pending =
      index.pending ++ documents := by
  simp [pending]

/-- **What a commit leaves**, whatever it returned; without a failure, all that was pending. -/
theorem commit_law (index : TextIndex) :
    Within index.pending index (exec commit index).2 ∧
      (index.fates = [] → exec commit index = (.ok ⟨⟩, index.published.reloaded)) := by
  have base : (if index.emptied then [] else index.committed).Sublist index.pending :=
    List.sublist_append_left _ _
  rcases given : index.fates with _ | ⟨fate, rest⟩
  · have ran : exec commit index = (.ok ⟨⟩, index.published.reloaded) := by
      rw [commit, exec_bind, exec_nextFate, given]
      rfl
    rw [ran]
    refine ⟨⟨?_, .inr (List.Sublist.refl _), fun _ => rfl⟩, fun _ => rfl⟩
    simp [pending, published, reloaded]
  · refine ⟨?_, fun none => absurd none (List.cons_ne_nil _ _)⟩
    have ran : exec commit index = exec (match fate with
        | .done => modify fun index => index.published.reloaded
        | .unreloaded reason => do
          modify published
          throw (tantivyError "reloading reader after commit" reason)
        | .failed reason kept => do
          modify fun index => { index with staged := index.staged.filter kept }
          throw (tantivyError "committing Tantivy writer" reason)) { index with fates := rest } := by
      rw [commit, exec_bind, exec_nextFate, given]
    rw [ran]
    cases fate with
    | done =>
      refine ⟨?_, .inr (List.Sublist.refl _), fun _ => rfl⟩
      simp [pending, published, reloaded]
    | unreloaded reason =>
      refine ⟨?_, .inl rfl, fun _ => rfl⟩
      simp [pending, published, exec_bind]
    | failed reason kept =>
      exact ⟨(List.Sublist.refl _).append List.filter_sublist, .inl rfl, id⟩

/-- **What telling the index leaves**: no more than what was pending and the documents of the
told items. -/
theorem fire_within (telling : Telling) (index : TextIndex) :
    Within (index.pending ++ telling.items.map indexItem) index
      (telling.fire ⟨hook, index⟩).state := by
  have step : ∀ items outcome after, exec (addEach items) index = (outcome, after) →
      Within (index.pending ++ items.map indexItem) index after ∧
        Within (index.pending ++ items.map indexItem) index (exec commit after).2 := by
    intro items outcome after ran
    obtain ⟨added, fates, shorter, rfl, -, -⟩ := addEach_law ran
    have fewer : (index.pending ++ added.map indexItem).Sublist
        (index.pending ++ items.map indexItem) :=
      (List.Sublist.refl _).append (shorter.sublist.map _)
    have pending := pending_staged index (added.map indexItem) fates
    obtain ⟨left, shown, whole⟩ := (commit_law
      { index with staged := index.staged ++ added.map indexItem, fates }).1
    rw [pending] at left shown
    refine ⟨⟨pending ▸ fewer, .inl rfl, id⟩, left.trans fewer, ?_, whole⟩
    exact shown.imp id fun some => some.trans fewer
  cases telling with
  | batch items =>
    rcases ran : exec (addEach items) index with ⟨outcome, after⟩
    have held := (step items outcome after ran).2
    simpa only [Telling.fire, Telling.items, fireBatch, hook, ran] using held
  | alone item =>
    rcases ran : exec (addItem item) index with ⟨error | value, after⟩
    · have alone : exec (addEach [item]) index = (.error error, after) := by
        rw [addEach, exec_bind_error ran]
      have held := (step [item] _ after alone).1
      simpa only [Telling.fire, Telling.items, fireHook, hook, ran] using held
    · have alone : exec (addEach [item]) index = (.ok ⟨⟩, after) := by
        rw [addEach, exec_bind_ok ran]
        rfl
      have held := (step [item] _ after alone).2
      simpa only [Telling.fire, Telling.items, fireHook, hook, ran] using held

/-- An index that shows all it holds, and fails at nothing to come. -/
def Settled (index : TextIndex) : Prop :=
  index.staged = [] ∧ index.emptied = false ∧ index.visible = index.committed ∧ index.fates = []

/-- An index that commits without a failure is settled. -/
theorem settled_committed (index : TextIndex) (quiet : index.fates = []) :
    Settled (exec commit index).2 ∧ (exec commit index).2.committed = index.pending := by
  rw [(commit_law index).2 quiet]
  exact ⟨⟨rfl, rfl, rfl, quiet⟩, rfl⟩

/-- **Telling an index that does not fail** adds every document and shows it. -/
theorem fire_settled (telling : Telling) (index : TextIndex) (quiet : index.fates = []) :
    Settled (telling.fire ⟨hook, index⟩).state ∧
      (telling.fire ⟨hook, index⟩).state.committed =
        index.pending ++ telling.items.map indexItem := by
  have step : ∀ items, ∃ after, exec (addEach items) index = (.ok ⟨⟩, after) ∧
      Settled (exec commit after).2 ∧
      (exec commit after).2.committed = index.pending ++ items.map indexItem := by
    intro items
    rcases ran : exec (addEach items) index with ⟨outcome, after⟩
    obtain ⟨added, fates, _, rfl, all, calm⟩ := addEach_law ran
    obtain ⟨rfl, rfl⟩ := calm quiet
    obtain rfl := all rfl
    obtain ⟨settled, committed⟩ := settled_committed
      { index with staged := index.staged ++ added.map indexItem, fates := [] } rfl
    exact ⟨_, rfl, settled, committed.trans (pending_staged _ _ _)⟩
  cases telling with
  | batch items =>
    obtain ⟨after, ran, held⟩ := step items
    simpa only [Telling.fire, Telling.items, fireBatch, hook, ran] using held
  | alone item =>
    obtain ⟨after, ran, held⟩ := step [item]
    have alone : exec (addItem item) index = (.ok ⟨⟩, after) := by
      rw [addEach] at ran
      obtain ⟨_, middle, added, rest⟩ := exec_bind_returned ran
      cases rest
      exact added
    simpa only [Telling.fire, Telling.items, fireHook, hook, alone] using held

end TextIndex

/-- What an index holds is sound: what it will commit, and what its reader shows. -/
structure IndexedStore.Sound (platform : Platform) (exempt : ItemId → Prop) (state : IndexedStore) :
    Prop where
  whole : state.index.emptied = false
  pending : (documentMirror platform exempt).Sound state.index.pending state.shelf
  visible : (documentMirror platform exempt).Sound state.index.visible state.shelf

end Singularmem.Search
