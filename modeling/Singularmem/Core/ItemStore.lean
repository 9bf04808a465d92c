import Singularmem.Core.Ingest
import Singularmem.Library.Links

/-!
# What an item write does to the tables

A write that returns appends rows whose links point back, and changes no stored row but
for an `external_id` given up or a scope moved. A write that fails because of its data
changes nothing. The laws of calls and of runs rest on one law for each function.
-/

namespace Singularmem.Core

open Library
open Effect hiding ofExcept

variable {platform : Platform} {env : Env}

/-- The `supersedes` links of items. -/
def itemLinks : Linkage ItemRow ItemId := ⟨ItemRow.id, ItemRow.supersedes⟩

/-- A row keeps everything, except that the replaced item may give up its `external_id`
and the moved one may change its scope. -/
def KeepsItem (replaced moved : Option ItemId) (before after : ItemRow) : Prop :=
  ∃ externalId scope, after = { before with externalId, scope } ∧
    (externalId = before.externalId ∨ (externalId = none ∧ replaced = some before.id)) ∧
    (scope = before.scope ∨ moved = some before.id)

/-- What an item write may do to the tables. -/
structure ItemsExtend (replaced moved : Option ItemId) (before after : Tables) : Prop where
  entities : after.entities = before.entities
  facts : after.facts = before.facts
  items : Grown (KeepsItem replaced moved) before.items.rows after.items.rows
  itemTags : before.itemTags.rows <+: after.itemTags.rows
  links : itemLinks.Backward before.items.rows → itemLinks.Backward after.items.rows

variable {replaced moved : Option ItemId}

theorem KeepsItem.refl (row : ItemRow) : KeepsItem replaced moved row row :=
  ⟨row.externalId, row.scope, rfl, .inl rfl, .inl rfl⟩

theorem KeepsItem.trans (first second third : ItemRow) (early : KeepsItem replaced moved first second)
    (late : KeepsItem replaced moved second third) : KeepsItem replaced moved first third := by
  obtain ⟨externalId, scope, rfl, keptId, keptScope⟩ := early
  obtain ⟨finalId, finalScope, rfl, stillId, stillScope⟩ := late
  refine ⟨finalId, finalScope, rfl, ?_, ?_⟩
  · rcases stillId with rfl | given
    · exact keptId
    · exact .inr given
  · rcases stillScope with rfl | given
    · exact keptScope
    · exact .inr given

theorem ItemsExtend.refl (tables : Tables) : ItemsExtend replaced moved tables tables :=
  ⟨rfl, rfl, .refl KeepsItem.refl _, List.prefix_refl _, id⟩

theorem ItemsExtend.trans {before middle after : Tables}
    (first : ItemsExtend replaced moved before middle)
    (second : ItemsExtend replaced moved middle after) : ItemsExtend replaced moved before after :=
  ⟨second.entities.trans first.entities, second.facts.trans first.facts,
    first.items.trans KeepsItem.trans second.items, first.itemTags.trans second.itemTags,
    second.links ∘ first.links⟩

/-- A stored item has a row. -/
theorem hasItem_iff {tables : Tables} {id : ItemId} :
    tables.hasItem id ↔ ∃ row ∈ tables.items.rows, row.id = id := by
  rw [Tables.hasItem, Option.isSome_iff_exists]
  constructor
  · rintro ⟨row, found⟩
    obtain ⟨member, entry⟩ := Table.find_eq_some.mp found
    exact ⟨row, member, by simpa [itemSchema, eq_comm] using entry⟩
  · rintro ⟨row, member, rfl⟩
    exact ⟨row, Table.find_eq_some.mpr ⟨member, by simp [itemSchema]⟩⟩

/-- Changing the rows of one item in place. -/
theorem ItemsExtend.of_update {tables : Tables} {items : Table itemSchema} {id : ItemId}
    {change : ItemRow → ItemRow}
    (rows : items.rows = tables.items.rows.map fun row => if row.id = id then change row else row)
    (sameId : ∀ row, (change row).id = row.id)
    (samePrior : ∀ row, (change row).supersedes = row.supersedes)
    (keeps : ∀ row, row.id = id → KeepsItem replaced moved row (change row)) :
    ItemsExtend replaced moved tables { tables with items } := by
  refine ⟨rfl, rfl, ?_, List.prefix_refl _, ?_⟩
  · have grown := @Grown.map_append _ (KeepsItem replaced moved)
      (fun row => if row.id = id then change row else row) tables.items.rows [] ?_
    · rwa [List.append_nil, ← rows] at grown
    · intro row _
      split
      case isTrue same => exact keeps row same
      case isFalse => exact .refl row
  · intro backward
    rw [rows]
    refine backward.map ?_ ?_
    · intro row
      split
      · exact sameId row
      · rfl
    · intro row
      split
      · exact samePrior row
      · rfl

/-- Tags are only appended. -/
theorem insertTags_returned {id : ItemId} {tags : List String} {pending after : Pending}
    {value : PUnit} (returned : exec (insertTags id tags) pending = (.ok value, after)) :
    ItemsExtend replaced moved pending.tables after.tables := by
  induction tags generalizing pending with
  | nil =>
    cases returned
    exact .refl _
  | cons tag rest inductionHypothesis =>
    rw [insertTags, exec_bind_ok (exec_get pending)] at returned
    split at returned
    · cases returned
    case h_2 itemTags inserted =>
      obtain ⟨_, _, rows⟩ := Table.insert_eq_ok.mp inserted
      obtain ⟨_, middle, written, others⟩ := exec_bind_returned returned
      cases written
      have appended : ItemsExtend replaced moved pending.tables { pending.tables with itemTags } := by
        refine ⟨rfl, rfl, .refl KeepsItem.refl _, ?_, fun backward => backward⟩
        rw [rows]
        exact List.prefix_append _ _
      exact appended.trans (inductionHypothesis others)

/-- **Inserting an item** appends a row whose link points back. -/
theorem insertItemRow_returned {id : ItemId} {item : NewItem} {validated : Validated}
    {pending after : Pending} {value : PUnit}
    (target : ∀ prior ∈ item.supersedes, pending.tables.hasItem prior)
    (returned : exec (insertItemRow platform env id item validated) pending = (.ok value, after)) :
    ItemsExtend replaced moved pending.tables after.tables := by
  rw [insertItemRow, exec_bind_ok (exec_get pending)] at returned
  split at returned
  · cases returned
  case h_2 items inserted =>
    obtain ⟨_, _, rows⟩ := Table.insert_eq_ok.mp inserted
    obtain ⟨_, middle, written, tagged⟩ := exec_bind_returned returned
    cases written
    have appended : ItemsExtend replaced moved pending.tables { pending.tables with items } := by
      refine ⟨rfl, rfl, ?_, List.prefix_refl _, ?_⟩
      · rw [rows]
        exact .append KeepsItem.refl _ _
      · intro backward
        rw [rows]
        refine .snoc backward ?_
        intro prior linked
        exact hasItem_iff.mp (target prior linked)
    exact appended.trans (insertTags_returned tagged)

/-- An accepted `supersedes` target is stored. -/
theorem checkSupersedes_returned {supersedes : Option ItemId} {pending after : Pending}
    {value : PUnit} (returned : exec (checkSupersedes supersedes) pending = (.ok value, after)) :
    (∀ prior ∈ supersedes, pending.tables.hasItem prior) ∧ after = pending := by
  rw [checkSupersedes, exec_bind_ok (exec_get pending)] at returned
  rcases supersedes with _ | target
  · cases returned
    exact ⟨by simp, rfl⟩
  · change exec (throwIf _ _) pending = _ at returned
    rw [exec_throwIf] at returned
    split at returned
    · cases returned
    case isFalse present =>
      cases returned
      exact ⟨by simpa using present, rfl⟩

/-- The law of the transaction of `ingest`. -/
theorem ingestInTx_returned {item : NewItem} {pending after : Pending} {stored : Item}
    (returned : exec (ingestInTx platform env item) pending = (.ok stored, after)) :
    ItemsExtend replaced moved pending.tables after.tables := by
  obtain ⟨validated, _, rest⟩ := ofExcept_bind_returned returned
  obtain ⟨ulid, middle, minted, rest⟩ := exec_bind_returned rest
  obtain ⟨_, same⟩ := mintRawUlid_returned minted
  obtain ⟨_, checked, accepted, rest⟩ := exec_bind_returned rest
  obtain ⟨target, unchanged⟩ := checkSupersedes_returned accepted
  obtain ⟨_, final, inserted, rest⟩ := exec_bind_returned rest
  cases rest
  rw [← same, ← unchanged]
  rw [← unchanged] at target
  exact insertItemRow_returned target inserted

/-- The law of the loop of `ingestMany`. -/
theorem insertEach_returned {items : List (NewItem × Validated)} {pending after : Pending}
    {stored : List Item}
    (returned : exec (insertEach platform env items) pending = (.ok stored, after)) :
    ItemsExtend replaced moved pending.tables after.tables := by
  induction items generalizing pending stored with
  | nil =>
    cases returned
    exact .refl _
  | cons head tail inductionHypothesis =>
    obtain ⟨_, checked, accepted, rest⟩ := exec_bind_returned returned
    obtain ⟨target, unchanged⟩ := checkSupersedes_returned accepted
    rw [unchanged] at rest
    obtain ⟨ulid, middle, minted, rest⟩ := exec_bind_returned rest
    obtain ⟨_, same⟩ := mintRawUlid_returned minted
    obtain ⟨_, grown, inserted, rest⟩ := exec_bind_returned rest
    obtain ⟨others, final, loop, rest⟩ := exec_bind_returned rest
    cases rest
    rw [← same] at target ⊢
    exact (insertItemRow_returned target inserted).trans (inductionHypothesis loop)

/-- The law of the transaction of `ingestMany`. -/
theorem ingestManyInTx_returned {items : List NewItem} {pending after : Pending}
    {stored : List Item}
    (returned : exec (ingestManyInTx platform env items) pending = (.ok stored, after)) :
    ItemsExtend replaced moved pending.tables after.tables := by
  obtain ⟨validated, _, rest⟩ := ofExcept_bind_returned returned
  exact insertEach_returned rest

/-- The law of the transaction of `ingestReplacing`: the replaced row gives up its
`external_id`. -/
theorem ingestReplacingInTx_returned {item : NewItem} {replaces : ItemId}
    {pending after : Pending} {stored : Item}
    (returned : exec (ingestReplacingInTx platform env item replaces) pending = (.ok stored, after)) :
    ItemsExtend (some replaces) moved pending.tables after.tables := by
  obtain ⟨validated, _, rest⟩ := ofExcept_bind_returned returned
  obtain ⟨ulid, middle, minted, rest⟩ := exec_bind_returned rest
  obtain ⟨_, same⟩ := mintRawUlid_returned minted
  rw [exec_bind_ok (exec_get middle)] at rest
  obtain ⟨present, rest⟩ := throwIf_bind_returned rest
  obtain ⟨_, cleared, written, rest⟩ := exec_bind_returned rest
  cases written
  obtain ⟨_, final, inserted, rest⟩ := exec_bind_returned rest
  cases rest
  rw [← same]
  have clears : ItemsExtend (some replaces) moved middle.tables
      { middle.tables with items := clearExternalId middle.tables.items replaces } := by
    refine .of_update rfl (fun _ => rfl) (fun _ => rfl) ?_
    rintro row rfl
    exact ⟨none, row.scope, rfl, .inr ⟨rfl, rfl⟩, .inl rfl⟩
  refine clears.trans (insertItemRow_returned ?_ inserted)
  rintro prior ⟨⟩
  obtain ⟨row, member, rfl⟩ := hasItem_iff.mp (by simpa using present)
  refine hasItem_iff.mpr ⟨_, List.mem_map_of_mem member, ?_⟩
  split <;> rfl

/-- An item stays stored. -/
theorem ItemsExtend.hasItem {before after : Tables} (extended : ItemsExtend replaced moved before after)
    {id : ItemId} (present : before.hasItem id) : after.hasItem id := by
  obtain ⟨row, member, rfl⟩ := hasItem_iff.mp present
  obtain ⟨became, becameIn, externalId, scope, rfl, _⟩ := extended.items.mem member
  exact hasItem_iff.mpr ⟨_, becameIn, rfl⟩

/-- The law of the statement of `setScope`. -/
theorem updateScope_returned {id : ItemId} {scope : Option String} {pending after : Pending}
    {value : PUnit} (returned : exec (updateScope id scope) pending = (.ok value, after)) :
    pending.tables.hasItem id ∧ ItemsExtend replaced (some id) pending.tables after.tables := by
  rw [updateScope, exec_bind_ok (exec_get pending)] at returned
  obtain ⟨present, rest⟩ := throwIf_bind_returned returned
  cases rest
  refine ⟨by simpa using present, .of_update rfl (fun _ => rfl) (fun _ => rfl) ?_⟩
  rintro row rfl
  exact ⟨row.externalId, scope, rfl, .inl rfl, .inr rfl⟩

/-- A transaction that extends the items makes a call that does. -/
theorem itemsExtend_of_writing {α : Type} {operation committing : String} {body : Tx α}
    {store after : Store} {value : α}
    (extended : ∀ pending, exec body ⟨store.database.tables, 0⟩ = (.ok value, pending) →
      ItemsExtend replaced moved store.database.tables pending.tables)
    (returned : exec (writing operation committing body) store = (.ok value, after)) :
    ItemsExtend replaced moved store.database.tables after.database.tables := by
  obtain ⟨_, _, pending, ran, tables⟩ := writing_returned returned
  rw [tables]
  exact extended pending ran

variable (platform)

/-- A call that writes items, with its arguments. -/
inductive ItemCall
  | ingest (item : NewItem)
  | ingestMany (items : List NewItem)
  | ingestReplacing (item : NewItem) (replaces : ItemId)
  | setScope (id : ItemId) (scope : Option String)

namespace ItemCall

/-- Make a call; its result is dropped. -/
def perform (env : Env) : ItemCall → StoreCall PUnit
  | .ingest item => (fun _ => ⟨⟩) <$> Core.ingest platform env item
  | .ingestMany items => (fun _ => ⟨⟩) <$> Core.ingestMany platform env items
  | .ingestReplacing item replaces => (fun _ => ⟨⟩) <$> Core.ingestReplacing platform env item replaces
  | .setScope id scope => (fun _ => ⟨⟩) <$> Core.setScope platform id scope

/-- The row whose `external_id` the call may clear. -/
def replacedRow : ItemCall → Option ItemId
  | .ingestReplacing _ replaces => some replaces
  | _ => none

/-- The row whose scope the call may change. -/
def movedRow : ItemCall → Option ItemId
  | .setScope id _ => some id
  | _ => none

end ItemCall

/-- The error is about the data of the call, not about the database or a stored value. -/
def Error.ofData : Error → Bool
  | .validation .. | .supersedesNotFound _ | .notFound _ | .externalIdConflict _ => true
  | _ => false

variable {platform}

/-- An item has the identifier it was loaded by. -/
theorem loadItem_id {tables : Tables} {id : ItemId} {item : Item}
    (loaded : loadItem platform tables id = .ok item) : item.id = id := by
  rw [loadItem] at loaded
  split at loaded
  · cases loaded
  case h_2 row found =>
    obtain ⟨_, entry⟩ := Table.find_eq_some.mp found
    obtain ⟨_, _, rest⟩ := except_bind_returned loaded
    obtain ⟨_, _, rest⟩ := except_bind_returned rest
    cases rest
    simpa [itemSchema, eq_comm] using entry

/-- A scope move that changed the row fails, if at all, on a stored value. -/
theorem loadItem_threw {tables : Tables} {id : ItemId} {error : Error} (present : tables.hasItem id)
    (threw : loadItem platform tables id = .error error) : ¬ error.ofData := by
  obtain ⟨row, found⟩ := Option.isSome_iff_exists.mp present
  rw [loadItem, found] at threw
  change parseCreatedAt platform row.createdAt >>= _ = _ at threw
  rcases created : parseCreatedAt platform row.createdAt with failure | instant
  · rw [created] at threw
    cases threw
    unfold parseCreatedAt at created
    split at created <;> cases created
    simp [Error.ofData]
  · rw [created] at threw
    change row.metadata.parse platform >>= _ = _ at threw
    unfold Json.parse at threw
    split at threw <;> cases threw
    simp [Error.ofData]

/-- The law of `setScope`: it extends the items when it returns, and when it fails either
it did nothing or the moved row could not be read back. -/
theorem setScope_law {id : ItemId} {scope : Option String} {store after : Store}
    {outcome : Except Error Item}
    (ran : exec (setScope platform id scope) store = (outcome, after)) :
    ItemsExtend replaced (some id) store.database.tables after.database.tables ∧
      ∀ error, outcome = .error error → error.ofData → after = store := by
  have nothing : ItemsExtend replaced (some id) store.database.tables store.database.tables :=
    .refl _
  rw [setScope, exec_bind, exec_assertWritable] at ran
  by_cases readOnly : store.readOnly
  · rw [if_pos readOnly] at ran
    cases ran
    exact ⟨nothing, fun _ _ _ => rfl⟩
  rw [if_neg readOnly] at ran
  change exec (Effect.ofExcept _ >>= _) store = _ at ran
  rw [exec_bind, exec_ofExcept] at ran
  rcases validated : scope.mapM (Scope.validate platform) with error | normalised
  · rw [validated] at ran
    cases ran
    exact ⟨nothing, fun _ _ _ => rfl⟩
  rw [validated] at ran
  change exec (transaction _ _ >>= _) store = _ at ran
  rw [exec_bind] at ran
  rcases committed : exec (transaction "updating scope" (updateScope id normalised)) store
    with ⟨error | value, middle⟩
  · rw [committed] at ran
    cases ran
    rw [transaction_threw committed]
    exact ⟨nothing, fun _ _ _ => rfl⟩
  rw [committed] at ran
  change exec (get >>= _) middle = _ at ran
  rw [exec_bind_ok (exec_get middle), exec_ofExcept] at ran
  cases ran
  obtain ⟨_, pending, updated, tables⟩ := transaction_returned committed
  obtain ⟨present, extended⟩ := @updateScope_returned replaced _ _ _ _ _ updated
  rw [← tables] at extended
  refine ⟨extended, ?_⟩
  intro error threw ofData
  exact absurd ofData (loadItem_threw (extended.hasItem present) threw)

/-- **The law of every call.** It extends the items; where it fails because of its data,
the store is as it was. -/
theorem itemCall_law (env : Env) (call : ItemCall) {store after : Store}
    {outcome : Except Error PUnit} (ran : exec (call.perform platform env) store = (outcome, after)) :
    ItemsExtend call.replacedRow call.movedRow store.database.tables after.database.tables ∧
      ∀ error, outcome = .error error →
        (error.ofData ∨ call.movedRow = none) → after = store := by
  rcases outcome with error | value
  · cases call with
    | setScope id scope =>
      obtain ⟨extended, unchanged⟩ := setScope_law (map_threw ran)
      refine ⟨extended, ?_⟩
      rintro _ ⟨⟩ (ofData | never)
      · exact unchanged error rfl ofData
      · cases never
    | _ =>
      obtain rfl := writing_error (map_threw ran)
      exact ⟨.refl _, fun _ _ _ => rfl⟩
  · refine ⟨?_, by rintro _ ⟨⟩⟩
    cases call with
    | ingest item =>
      obtain ⟨_, returned, _⟩ := map_returned ran
      exact itemsExtend_of_writing (fun _ => ingestInTx_returned) returned
    | ingestMany items =>
      obtain ⟨_, returned, _⟩ := map_returned ran
      exact itemsExtend_of_writing (fun _ => ingestManyInTx_returned) returned
    | ingestReplacing item replaces =>
      obtain ⟨_, returned, _⟩ := map_returned ran
      exact itemsExtend_of_writing (fun _ => ingestReplacingInTx_returned) returned
    | setScope id scope =>
      obtain ⟨_, returned, _⟩ := map_returned ran
      exact (setScope_law returned).1

variable (platform) in
/-- The store after a sequence of calls, each with its clock reading and draws. -/
def runItemCalls (calls : List (Env × ItemCall)) (store : Store) : Store :=
  calls.foldl (fun store call => (exec (call.2.perform platform call.1) store).2) store

/-- Calls keep the links backward. -/
theorem runItemCalls_backward (calls : List (Env × ItemCall)) {start : Store}
    (linked : itemLinks.Backward start.database.tables.items.rows) :
    itemLinks.Backward (runItemCalls platform calls start).database.tables.items.rows := by
  induction calls generalizing start with
  | nil => exact linked
  | cons call rest inductionHypothesis =>
    exact inductionHypothesis ((itemCall_law call.1 call.2 rfl).1.links linked)

/-- No two items have one id. -/
theorem itemIds_nodup (tables : Tables) : (tables.items.rows.map itemLinks.id).Nodup := by
  have distinct := @Table.nodup_filterMap _ _ _ tables.items _
    (fun row => some row.id) ItemKey.id ?_
  · rwa [List.filterMap_eq_map'] at distinct
  · rintro row given ⟨⟩
    simp [itemSchema]

/-- No two items have one `external_id`. -/
theorem externalIds_nodup (tables : Tables) :
    (tables.items.rows.filterMap ItemRow.externalId).Nodup := by
  refine @Table.nodup_filterMap _ _ _ tables.items _ ItemRow.externalId ItemKey.externalId ?_
  intro row given held
  simp [itemSchema, held]

/-- **The item store.** After any calls, `external_id` values are unique, links point to
items inserted before, and no item reaches itself along them. Any further call keeps every
row but for the `external_id` of a replaced row and the scope of a moved one, and changes
neither items nor tags when it fails because of its data. -/
theorem item_store_laws (calls : List (Env × ItemCall)) (start : Store)
    (linked : itemLinks.Backward start.database.tables.items.rows) :
    let store := runItemCalls platform calls start
    let rows := store.database.tables.items.rows
    (rows.filterMap ItemRow.externalId).Nodup ∧
    (∀ before row after, rows = before ++ row :: after →
      ∀ target ∈ row.supersedes, ∃ older ∈ before, older.id = target) ∧
    (∀ id, ¬ Relation.TransGen (fun newer older => ∃ row ∈ rows,
      row.id = newer ∧ row.supersedes = some older) id id) ∧
    ∀ (env : Env) (call : ItemCall),
      let after := (exec (call.perform platform env) store).2.database.tables
      Grown (KeepsItem call.replacedRow call.movedRow) rows after.items.rows ∧
      store.database.tables.itemTags.rows <+: after.itemTags.rows ∧
      ∀ error, (exec (call.perform platform env) store).1 = .error error → error.ofData →
        after.items = store.database.tables.items ∧
          after.itemTags = store.database.tables.itemTags := by
  have backward := @runItemCalls_backward platform calls start linked
  refine ⟨externalIds_nodup _, fun before row after shape => backward.before shape,
    backward.acyclic (itemIds_nodup _), ?_⟩
  intro env call
  rcases ran : exec (call.perform platform env) (runItemCalls platform calls start)
    with ⟨outcome, after⟩
  obtain ⟨extended, unchanged⟩ := itemCall_law env call ran
  refine ⟨extended.items, extended.itemTags, ?_⟩
  intro error threw ofData
  rw [unchanged error threw (.inl ofData)]
  exact ⟨rfl, rfl⟩

/-- A note, replaced under one `external_id`, and a batch whose second item repeats it. -/
def replacedAndRepeated (now : Timestamp) : List (Env × ItemCall) :=
  let note (content : String) : NewItem :=
    ⟨content, none, ["b", "a", "b"], none, .object [], some "note", none⟩
  [(⟨now, fun draw => draw⟩, .ingest (note "first")),
    (⟨now, fun draw => 10 + draw⟩,
      .ingestReplacing (note "second") ⟨.fromParts now.asMillisecond.toNat 0⟩),
    (⟨now, fun draw => 20 + draw⟩, .ingestMany [NewItem.mk "x" none [] none (.object []) none none,
      note "third"])]

/-- The replaced row gave up its `external_id`, and the failing batch left no row. -/
theorem replaced_and_repeated_keeps_laws :
    ((runItemCalls .ascii (replacedAndRepeated ⟨0, by decide⟩)
        ⟨false, .fresh⟩).database.tables.items.rows.map fun row => (row.content, row.externalId)) =
      [("first", none), ("second", some "note")] ∧
    ((runItemCalls .ascii (replacedAndRepeated ⟨0, by decide⟩)
      ⟨false, .fresh⟩).database.tables.items.rows.filterMap ItemRow.externalId).Nodup :=
  ⟨by decide +kernel,
    (item_store_laws (replacedAndRepeated ⟨0, by decide⟩) ⟨false, .fresh⟩ .nil).1⟩

end Singularmem.Core
