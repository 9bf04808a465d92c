import Singularmem.Core.DisplayedTimes
import Singularmem.Core.Hooks
import Singularmem.Core.HookTraces
import Singularmem.Core.Readback
import Singularmem.Core.StoredScopes
import Singularmem.Library.Mirrors

/-!
# What a hook is told

A call that writes items keeps every row on the shelf, but for a key given up or a scope
moved, puts new rows after them, and tells the hook one item for each new row. The item
says what its row does. A call that failed tells nothing and leaves the shelf alone; a
moved scope is told to nobody.
-/

namespace Singularmem.Core

open Library
open Effect hiding ofExcept

variable {platform : Platform} {env : Env}

/-- The time library reads back what it displays, in years without a sign. -/
def Platform.KeepsTimes (platform : Platform) : Prop :=
  ∀ instant : Timestamp, instant.Unsigned →
    platform.parseTimestamp (platform.displayTime instant) = some instant

/-- The platform for ASCII texts does. -/
theorem Platform.ascii_keepsTimes : Platform.ascii.KeepsTimes :=
  fun _ unsigned => readSql_trimFraction unsigned

/-- An item says what its row on the shelf does. The scope of the row may be another, and
the key and the metadata are not compared. -/
structure Item.Portrays (platform : Platform) (item : Item) (known : Shelved) : Prop where
  id : item.id = known.1.id
  content : item.content = known.1.content
  createdAt : platform.parseTimestamp known.1.createdAt = some item.createdAt
  supersedes : item.supersedes = known.1.supersedes
  tags : item.tags = known.2
  source : item.source = known.1.source

/-- An item that also has the scope of its row. -/
def Item.PortraysScoped (platform : Platform) (item : Item) (known : Shelved) : Prop :=
  item.Portrays platform known ∧ item.scope = known.1.scope

/-- An item read from the shelf says what its row does. -/
theorem readShelved_portrays {known : Shelved} {item : Item}
    (read : readShelved platform known = .ok item) : item.PortraysScoped platform known := by
  obtain ⟨createdAt, parsed, rest⟩ := except_bind_returned read
  obtain ⟨metadata, _, rest⟩ := except_bind_returned rest
  cases rest
  refine ⟨⟨rfl, rfl, ?_, rfl, rfl, rfl⟩, rfl⟩
  unfold parseCreatedAt at parsed
  split at parsed <;> cases parsed
  assumption

/-- A loaded item is read from the shelf. -/
theorem loadItem_from_shelf {tables : Tables} {id : ItemId} {item : Item}
    (loaded : loadItem platform tables id = .ok item) :
    ∃ known ∈ tables.shelf, known.1.id = id ∧ readShelved platform known = .ok item := by
  have present : tables.hasItem id := by
    unfold loadItem at loaded
    split at loaded
    case h_1 => cases loaded
    case h_2 found => rw [Tables.hasItem, found, Option.isSome_some]
  obtain ⟨known, shelved, rfl⟩ := hasItem_iff_shelf.mp present
  exact ⟨known, shelved, rfl, (loadItem_shelved shelved).symm.trans loaded⟩

/-- A row on the shelf stays as it is, but may give up its key, and its scope may change if
it is the moved one. -/
def KeepsShelved (moved : Option ItemId) (before after : Shelved) : Prop :=
  ∃ externalId scope, after = ({ before.1 with externalId, scope }, before.2) ∧
    (scope = before.1.scope ∨ moved = some before.1.id)

/-- What was on the shelf stays, and new rows follow. -/
def Extends (moved : Option ItemId) (before after : Tables) (added : List Shelved) : Prop :=
  ∃ kept, after.shelf = kept ++ added ∧ List.Forall₂ (KeepsShelved moved) before.shelf kept

/-- A row that is moved to a scope. -/
def relocate (id : ItemId) (scope : Option String) (known : Shelved) : Shelved :=
  (if known.1.id = id then { known.1 with scope } else known.1, known.2)

/-- An item says of a row what it says of what the row became. -/
theorem Item.Portrays.kept {item : Item} {moved : Option ItemId} {before after : Shelved}
    (portrays : item.Portrays platform before) (kept : KeepsShelved moved before after) :
    item.Portrays platform after := by
  obtain ⟨_, _, rfl, _⟩ := kept
  exact ⟨portrays.id, portrays.content, portrays.createdAt, portrays.supersedes, portrays.tags,
    portrays.source⟩

/-- So it does of the scope, where the row was not moved. -/
theorem Item.PortraysScoped.kept {item : Item} {before after : Shelved}
    (portrays : item.PortraysScoped platform before) (kept : KeepsShelved none before after) :
    item.PortraysScoped platform after := by
  refine ⟨portrays.1.kept kept, ?_⟩
  obtain ⟨_, scope, rfl, same | moved⟩ := kept
  · exact portrays.2.trans same.symm
  · cases moved

theorem KeepsShelved.refl {moved : Option ItemId} (known : Shelved) : KeepsShelved moved known known :=
  ⟨known.1.externalId, known.1.scope, rfl, .inl rfl⟩

/-- A row keeps its identifier. -/
theorem KeepsShelved.id {moved : Option ItemId} {before after : Shelved}
    (kept : KeepsShelved moved before after) : after.1.id = before.1.id := by
  obtain ⟨_, _, rfl, _⟩ := kept
  rfl

/-- Every row kept in place. -/
theorem keeps_map {moved : Option ItemId} {change : Shelved → Shelved}
    (keeps : ∀ known, KeepsShelved moved known (change known)) (shelf : List Shelved) :
    List.Forall₂ (KeepsShelved moved) shelf (shelf.map change) := by
  rw [List.forall₂_map_right_iff]
  exact List.forall₂_same.mpr fun known _ => keeps known

theorem Extends.refl {moved : Option ItemId} (tables : Tables) : Extends moved tables tables [] :=
  ⟨tables.shelf, (List.append_nil _).symm, List.forall₂_same.mpr fun known _ => .refl known⟩

/-- The replaced row gives up its key. -/
theorem keeps_forget {moved : Option ItemId} (replaced : ItemId) (known : Shelved) :
    KeepsShelved moved known (forget replaced known) := by
  unfold forget
  split
  · exact ⟨none, known.1.scope, rfl, .inl rfl⟩
  · exact .refl known

/-- The moved row changes its scope. -/
theorem keeps_relocate (id : ItemId) (scope : Option String) (known : Shelved) :
    KeepsShelved (some id) known (relocate id scope known) := by
  unfold relocate
  split
  case isTrue same => exact ⟨known.1.externalId, scope, rfl, .inr (congrArg some same.symm)⟩
  case isFalse => exact .refl known

/-- A row moved on the shelf. -/
theorem shelf_moved (tables : Tables) (id : ItemId) (scope : Option String) :
    { tables with items := moveToScope tables.items id scope : Tables }.shelf =
      tables.shelf.map (relocate id scope) := by
  simp only [Tables.shelf, moveToScope, Table.update, List.map_map]
  refine List.map_congr_left fun row _ => ?_
  simp only [Function.comp_apply, relocate]
  split <;> rfl

/-- **What `setScope` did**, whatever it returned. -/
theorem setScope_extends {id : ItemId} {scope : Option String} {store after : Store}
    {outcome : Except Error Item}
    (ran : exec (setScope platform id scope) store = (outcome, after)) :
    Extends (some id) store.database.tables after.database.tables [] := by
  rw [setScope, exec_bind, exec_assertWritable] at ran
  by_cases readOnly : store.readOnly
  · rw [if_pos readOnly] at ran
    cases ran
    exact .refl _
  rw [if_neg readOnly] at ran
  change exec (Effect.ofExcept _ >>= _) store = _ at ran
  rw [exec_bind, exec_ofExcept] at ran
  rcases validated : scope.mapM (Scope.validate platform) with error | normalised
  · rw [validated] at ran
    cases ran
    exact .refl _
  rw [validated] at ran
  change exec (transaction _ _ >>= _) store = _ at ran
  rw [exec_bind] at ran
  rcases committed : exec (transaction "updating scope" (updateScope id normalised)) store
    with ⟨error | value, middle⟩
  · rw [committed] at ran
    cases ran
    rw [transaction_threw committed]
    exact .refl _
  rw [committed] at ran
  change exec (get >>= _) middle = _ at ran
  rw [exec_bind_ok (exec_get middle), exec_ofExcept] at ran
  cases ran
  obtain ⟨_, pending, updated, tables⟩ := transaction_returned committed
  rw [updateScope, exec_bind_ok (exec_get _)] at updated
  obtain ⟨_, moved⟩ := throwIf_bind_returned updated
  cases moved
  refine ⟨_, ?_, keeps_map (keeps_relocate id normalised) _⟩
  rw [tables, List.append_nil]
  exact shelf_moved _ _ _

/-- Identifiers on the shelf are distinct. -/
theorem shelf_ids_nodup (tables : Tables) : (tables.shelf.map fun known => known.1.id).Nodup := by
  rw [Tables.shelf, List.map_map]
  exact itemIds_nodup tables

/-- **A stored submission says what its row does.** -/
theorem storedItem_portrays (keeps : platform.KeepsTimes) (recent : env.Recent) {draw : Nat}
    {item : NewItem} {validated : Validated} (accepted : validate platform item = .ok validated) :
    (storedItem env (env.mint draw) item validated).PortraysScoped platform
      (shelved platform env draw item validated) :=
  ⟨⟨rfl, rfl, keeps _ (Timestamp.unsigned_of_recent recent), rfl,
    (validate_tags_sorted accepted).symm, rfl⟩, rfl⟩

/-- The items of submissions stored one after the other. -/
def storedEach (env : Env) : Nat → List (NewItem × Validated) → List Item
  | _, [] => []
  | draw, (item, validated) :: rest =>
    storedItem env (env.mint draw) item validated :: storedEach env (draw + 1) rest

/-- What the loop of `ingestMany` returns. -/
theorem insertEach_stored {pairs : List (NewItem × Validated)} {pending after : Pending}
    {stored : List Item} (references : pending.tables.References)
    (returned : exec (insertEach platform env pairs) pending = (.ok stored, after)) :
    stored = storedEach env pending.drawn pairs := by
  induction pairs generalizing pending stored with
  | nil =>
    cases returned
    rfl
  | cons pair rest inductionHypothesis =>
    obtain ⟨item, validated⟩ := pair
    obtain ⟨_, checked, found, steps⟩ := exec_bind_returned returned
    obtain ⟨target, unchanged⟩ := checkSupersedes_returned found
    rw [unchanged] at steps
    obtain ⟨ulid, middle, minted, steps⟩ := exec_bind_returned steps
    rw [exec_mintRawUlid] at minted
    split at minted
    case isFalse => cases minted
    case isTrue recent =>
      cases minted
      obtain ⟨_, grown, inserted, steps⟩ := exec_bind_returned steps
      obtain ⟨others, final, loop, steps⟩ := exec_bind_returned steps
      cases steps
      obtain ⟨_, grownReferences, drawn, _⟩ :=
        @insertItemRow_shelves _ _ _ _ _ { pending with drawn := pending.drawn + 1 } _ _ references
          target inserted
      have drawn : grown.drawn = pending.drawn + 1 := drawn
      rw [inductionHypothesis grownReferences loop, drawn]
      rfl

/-- Each of them says what its row does. -/
theorem storedEach_portrays (keeps : platform.KeepsTimes) {draw : Nat}
    {pairs : List (NewItem × Validated)} (recent : pairs ≠ [] → env.Recent)
    (accepted : ∀ pair ∈ pairs, validate platform pair.1 = .ok pair.2) :
    List.Forall₂ (Item.PortraysScoped platform) (storedEach env draw pairs)
      (shelvedEach platform env draw pairs) := by
  induction pairs generalizing draw with
  | nil => exact .nil
  | cons pair rest inductionHypothesis =>
    refine .cons (storedItem_portrays keeps (recent (List.cons_ne_nil _ _))
      (accepted pair List.mem_cons_self)) (inductionHypothesis (fun _ => recent (List.cons_ne_nil _ _))
        fun other member => accepted other (List.mem_cons_of_mem _ member))

/-- What `ingestReplacing` returned. -/
theorem ingestReplacing_stored {item : NewItem} {replaces : ItemId} {stored : Item}
    {store after : Store}
    (returned : exec (ingestReplacing platform env item replaces) store = (.ok stored, after)) :
    ∃ validated, validate platform item = .ok validated ∧
      stored = storedItem env (env.mint 0) { item with supersedes := some replaces } validated := by
  obtain ⟨-, -, pending, ran, -⟩ := writing_returned returned
  obtain ⟨validated, accepted, rest⟩ := ofExcept_bind_returned ran
  obtain ⟨ulid, middle, minted, rest⟩ := exec_bind_returned rest
  rw [exec_mintRawUlid] at minted
  split at minted
  case isFalse => cases minted
  case isTrue recent =>
    cases minted
    rw [exec_bind_ok (exec_get _)] at rest
    obtain ⟨_, rest⟩ := throwIf_bind_returned rest
    obtain ⟨_, cleared, written, rest⟩ := exec_bind_returned rest
    cases written
    obtain ⟨_, final, inserted, rest⟩ := exec_bind_returned rest
    cases rest
    exact ⟨validated, accepted, rfl⟩

/-- What `ingestMany` returned. -/
theorem ingestMany_stored {items : List NewItem} {stored : List Item} {store after : Store}
    (returned : exec (ingestMany platform env items) store = (.ok stored, after)) :
    ∃ validated, items.mapM (validate platform) = .ok validated ∧
      stored = storedEach env 0 (items.zip validated) := by
  obtain ⟨-, -, pending, ran, -⟩ := writing_returned returned
  obtain ⟨validated, accepted, rest⟩ := ofExcept_bind_returned ran
  exact ⟨validated, accepted, insertEach_stored store.database.references rest⟩

/-- New rows, each told as it is. -/
def Announces (platform : Platform) (before after : Store) (items : List Item) : Prop :=
  ∃ added, Extends none before.database.tables after.database.tables added ∧
    List.Forall₂ (Item.PortraysScoped platform) items added

/-- What `ingest` returned is its new row. -/
theorem ingest_announces (keeps : platform.KeepsTimes) {item : NewItem} {stored : Item}
    {store after : Store}
    (returned : exec (ingest platform env item) store = (.ok stored, after)) :
    Announces platform store after [stored] := by
  obtain ⟨validated, accepted, rfl⟩ := ingest_stored returned
  obtain ⟨-, -, recent, -, again, acceptedAgain, shelf⟩ := ingest_shelves returned
  cases accepted.symm.trans acceptedAgain
  exact ⟨_, ⟨_, shelf, List.forall₂_same.mpr fun known _ => .refl known⟩,
    .cons (storedItem_portrays keeps recent accepted) .nil⟩

/-- What `ingestMany` returned are its new rows. -/
theorem ingestMany_announces (keeps : platform.KeepsTimes) {items : List NewItem}
    {stored : List Item} {store after : Store}
    (returned : exec (ingestMany platform env items) store = (.ok stored, after)) :
    Announces platform store after stored := by
  obtain ⟨validated, accepted, rfl⟩ := ingestMany_stored returned
  obtain ⟨-, -, recent, -, again, acceptedAgain, shelf, -⟩ := ingestMany_shelves returned
  cases accepted.symm.trans acceptedAgain
  refine ⟨_, ⟨_, shelf, List.forall₂_same.mpr fun known _ => .refl known⟩,
    storedEach_portrays keeps (fun some => recent fun none => some ?_) (mapM_returned_zip accepted)⟩
  rw [none, List.zip_nil_left]

/-- What `ingestReplacing` returned is its new row. -/
theorem ingestReplacing_announces (keeps : platform.KeepsTimes) {item : NewItem}
    {replaces : ItemId} {stored : Item} {store after : Store}
    (returned : exec (ingestReplacing platform env item replaces) store = (.ok stored, after)) :
    Announces platform store after [stored] := by
  obtain ⟨validated, accepted, rfl⟩ := ingestReplacing_stored returned
  obtain ⟨-, -, recent, -, -, again, acceptedAgain, shelf⟩ := ingestReplacing_shelves returned
  cases accepted.symm.trans acceptedAgain
  exact ⟨_, ⟨_, shelf, keeps_map (keeps_forget replaces) _⟩,
    .cons (@storedItem_portrays platform env keeps recent 0 { item with supersedes := some replaces }
      validated accepted) .nil⟩

/-- The items a call told the hook, and how: one alone, or a batch. -/
inductive Telling
  | alone (item : Item)
  | batch (items : List Item)

/-- The items told. -/
def Telling.items : Telling → List Item
  | .alone item => [item]
  | .batch items => items

/-- Tell the hook. -/
def Telling.fire {σ : Type} : Telling → HookBox σ → HookBox σ
  | .alone item => fireHook item
  | .batch items => fireBatch items

/-- **What a call did to a hooked store**: nothing, or it put rows on the shelf and told the
hook the items they hold. -/
theorem HookedStore.step_cases {σ : Type} (keeps : platform.KeepsTimes) (hooked : HookedStore σ)
    (env : Env) (request : IngestRequest) :
    hooked.step platform (env, request) = hooked ∨
      ∃ (telling : Telling) (after : Store), Announces platform hooked.store after telling.items ∧
        hooked.step platform (env, request) = ⟨after, hooked.hook.map telling.fire⟩ := by
  cases request with
  | ingest item =>
    rcases ran : exec (Core.ingest platform env item) hooked.store with ⟨error | stored, after⟩
    · left
      rw [HookedStore.step, HookedStore.ingest, exec_notifying, ran, writing_error ran]
    · refine .inr ⟨.alone stored, after, ingest_announces keeps ran, ?_⟩
      rw [HookedStore.step, HookedStore.ingest, exec_notifying, ran]
      rfl
  | ingestMany items =>
    rcases ran : exec (Core.ingestMany platform env items) hooked.store with ⟨error | stored, after⟩
    · left
      rw [HookedStore.step, HookedStore.ingestMany, exec_notifying, ran, writing_error ran]
    · refine .inr ⟨.batch stored, after, ingestMany_announces keeps ran, ?_⟩
      rw [HookedStore.step, HookedStore.ingestMany, exec_notifying, ran]
      rfl
  | ingestReplacing item replaces =>
    rcases ran : exec (Core.ingestReplacing platform env item replaces) hooked.store
      with ⟨error | stored, after⟩
    · left
      rw [HookedStore.step, HookedStore.ingestReplacing, exec_notifying, ran, writing_error ran]
    · refine .inr ⟨.alone stored, after, ingestReplacing_announces keeps ran, ?_⟩
      rw [HookedStore.step, HookedStore.ingestReplacing, exec_notifying, ran]
      rfl

/-- The call of the store that a request makes. -/
def IngestRequest.call : IngestRequest → ItemCall
  | .ingest item => .ingest item
  | .ingestMany items => .ingestMany items
  | .ingestReplacing item replaces => .ingestReplacing item replaces

/-- Telling the hook does not touch the store. -/
theorem notifying_store {σ α : Type} (write : StoreCall α) (tell : α → HookBox σ → HookBox σ)
    (hooked : HookedStore σ) :
    (exec (HookedStore.notifying write tell) hooked).2.store = (exec write hooked.store).2 := by
  rw [exec_notifying]
  rcases exec write hooked.store with ⟨_ | _, _⟩ <;> rfl

/-- **The hook has no say in the store.** -/
theorem HookedStore.step_store {σ : Type} (hooked : HookedStore σ) (env : Env)
    (request : IngestRequest) : (hooked.step platform (env, request)).store =
      (exec (request.call.perform platform env) hooked.store).2 := by
  cases request with
  | ingest item =>
    rw [IngestRequest.call, ItemCall.perform, exec_map]
    exact notifying_store _ _ _
  | ingestMany items =>
    rw [IngestRequest.call, ItemCall.perform, exec_map]
    exact notifying_store _ _ _
  | ingestReplacing item replaces =>
    rw [IngestRequest.call, ItemCall.perform, exec_map]
    exact notifying_store _ _ _

/-- A write that returned or not, of a call that returns what it stored. -/
theorem extends_of_writing {α : Type} {operation committing : String} {body : Tx α}
    {items : α → List Item} {store : Store}
    (announced : ∀ value after, exec (writing operation committing body) store = (.ok value, after) →
      Announces platform store after (items value)) :
    ∃ added, Extends none store.database.tables
      (exec (writing operation committing body) store).2.database.tables added := by
  rcases ran : exec (writing operation committing body) store with ⟨error | value, after⟩
  · rw [writing_error ran]
    exact ⟨[], .refl _⟩
  · obtain ⟨added, extended, _⟩ := announced value after ran
    exact ⟨added, extended⟩

/-- **What a call did to the shelf**, whatever it returned. -/
theorem itemCall_extends (keeps : platform.KeepsTimes) (env : Env) (call : ItemCall) (store : Store) :
    ∃ added, Extends call.movedRow store.database.tables
      (exec (call.perform platform env) store).2.database.tables added := by
  cases call with
  | ingest item =>
    rw [ItemCall.perform, exec_map]
    exact extends_of_writing fun _ _ returned => ingest_announces keeps returned
  | ingestMany items =>
    rw [ItemCall.perform, exec_map]
    exact extends_of_writing fun _ _ returned => ingestMany_announces keeps returned
  | ingestReplacing item replaces =>
    rw [ItemCall.perform, exec_map]
    exact extends_of_writing fun _ _ returned => ingestReplacing_announces keeps returned
  | setScope id scope =>
    rw [ItemCall.perform, exec_map]
    exact ⟨[], setScope_extends rfl⟩

end Singularmem.Core
