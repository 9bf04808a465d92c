import Singularmem.Core.Shelf

/-!
# What item writes leave

For each write: what it put on the shelf when it returned, and when it returns. A write
returns where the store is writable, the submission validates, the clock does not read
before 1970, the row passes its check, its keys are free and the superseded item is stored.
-/

namespace Singularmem.Core

open Library
open Effect hiding ofExcept

variable {platform : Platform} {env : Env}

/-- The identifier a draw makes. -/
def Env.mint (env : Env) (draw : Nat) : ItemId :=
  ⟨.fromParts env.now.asMillisecond.toNat (env.random draw)⟩

/-- The clock does not read before 1970. -/
def Env.Recent (env : Env) : Prop := 0 ≤ env.now.asMillisecond

instance (env : Env) : Decidable env.Recent := inferInstanceAs (Decidable (0 ≤ _))

/-- The check of `items`, of a submission. -/
def NewItem.passesCheck (item : NewItem) : Bool :=
  0 < sqlLength item.content && sqlLength item.content ≤ 1048576 && item.metadata.sqlValid

/-- What the database demands of a submission under an identifier. -/
structure Fits (tables : Tables) (id : ItemId) (item : NewItem) : Prop where
  check : item.passesCheck
  target : ∀ prior ∈ item.supersedes, tables.hasItem prior
  keyFree : ∀ key ∈ item.externalId, ∀ shelved ∈ tables.shelf, shelved.1.externalId ≠ some key
  idFree : ∀ shelved ∈ tables.shelf, shelved.1.id ≠ id

/-- A submission on the shelf. -/
def shelved (platform : Platform) (env : Env) (draw : Nat) (item : NewItem)
    (validated : Validated) : Shelved :=
  shelve (itemRowOf platform env (env.mint draw) item validated.scope) validated.tags

/-- Minting draws once, and fails exactly where the clock reads before 1970. -/
theorem exec_mintRawUlid (pending : Pending) :
    exec (mintRawUlid env) pending =
      if env.Recent then (.ok (env.mint pending.drawn).ulid, { pending with drawn := pending.drawn + 1 })
      else (.error (.validation "internal:timestamp" "current wall-clock predates 1970-01-01"),
        pending) := by
  rw [mintRawUlid, exec_bind, exec_throwIf]
  by_cases recent : env.Recent
  · rw [if_neg (Int.not_lt.mpr recent), if_pos recent]
    rfl
  · rw [if_pos (Int.not_le.mp recent), if_neg recent]

/-- What inserting tags leaves. -/
theorem insertTags_appends {id : ItemId} {tags : List String} {pending after : Pending}
    {value : PUnit} (returned : exec (insertTags id tags) pending = (.ok value, after)) :
    after.tables = { pending.tables with itemTags := after.tables.itemTags } ∧
      after.tables.itemTags.rows = pending.tables.itemTags.rows ++ tags.map (TagRow.mk id) ∧
      after.drawn = pending.drawn := by
  induction tags generalizing pending with
  | nil =>
    cases returned
    exact ⟨rfl, (List.append_nil _).symm, rfl⟩
  | cons tag rest inductionHypothesis =>
    rw [insertTags, exec_bind_ok (exec_get pending)] at returned
    split at returned
    · cases returned
    case h_2 itemTags inserted =>
      obtain ⟨_, _, rows⟩ := Table.insert_eq_ok.mp inserted
      obtain ⟨_, middle, written, others⟩ := exec_bind_returned returned
      cases written
      obtain ⟨tables, appended, drawn⟩ := inductionHypothesis others
      refine ⟨tables, ?_, drawn⟩
      rw [appended, rows, List.append_assoc]
      rfl

/-- Distinct tags that the item does not have are inserted. -/
theorem insertTags_succeeds {id : ItemId} {tags : List String} {pending : Pending}
    (distinct : tags.Nodup) (new : ∀ tag ∈ tags, TagRow.mk id tag ∉ pending.tables.itemTags.rows) :
    ∃ after, exec (insertTags id tags) pending = (.ok ⟨⟩, after) := by
  induction tags generalizing pending with
  | nil => exact ⟨pending, rfl⟩
  | cons tag rest inductionHypothesis =>
    obtain ⟨missing, others⟩ := List.nodup_cons.mp distinct
    have free : pending.tables.itemTags.find ⟨id, tag⟩ = none := by
      rw [Table.find_eq_none]
      intro row stored entry
      obtain rfl := List.mem_singleton.mp entry
      exact new tag List.mem_cons_self stored
    obtain ⟨itemTags, inserted, rows⟩ := Table.insert_succeeds
      (rfl : tagSchema.check ⟨id, tag⟩) (fun key entry => List.mem_singleton.mp entry ▸ free)
    have stillNew : ∀ other ∈ rest, TagRow.mk id other ∉ itemTags.rows := by
      intro other member stored
      rw [rows] at stored
      rcases List.mem_append.mp stored with old | added
      · exact new other (List.mem_cons_of_mem tag member) old
      · cases List.mem_singleton.mp added
        exact missing member
    obtain ⟨after, ran⟩ := @inductionHypothesis
      { pending with tables := { pending.tables with itemTags } } others stillNew
    refine ⟨after, ?_⟩
    rw [insertTags, exec_bind_ok (exec_get pending), inserted]
    exact ran

/-- References still hold after a row was added whose target is stored. -/
theorem References.of_added {tables : Tables} (held : tables.References) {row : ItemRow}
    {items : Table itemSchema} {itemTags : Table tagSchema}
    (rows : items.rows = tables.items.rows ++ [row])
    (target : ∀ prior ∈ row.supersedes, tables.hasItem prior)
    (owned : Tables.TagsOwned { tables with items, itemTags }) :
    Tables.References { tables with items, itemTags } := by
  have stays : ∀ id, tables.hasItem id → Tables.hasItem { tables with items, itemTags } id := by
    intro id present
    obtain ⟨stored, member, rfl⟩ := hasItem_iff.mp present
    refine hasItem_iff.mpr ⟨stored, ?_, rfl⟩
    change stored ∈ items.rows
    rw [rows]
    exact List.mem_append_left _ member
  refine ⟨?_, owned, held.subject, held.object, ?_, held.supersedes⟩
  · intro stored member prior linked
    change stored ∈ items.rows at member
    rw [rows] at member
    rcases List.mem_append.mp member with old | added
    · exact stays prior (held.itemSupersedes stored old prior linked)
    · rw [List.mem_singleton.mp added] at linked
      exact stays prior (target prior linked)
  · intro fact member id linked
    exact stays id (held.sourceItem fact member id linked)

/-- **Inserting an item** puts its row and its tags on the shelf. -/
theorem insertItemRow_shelves {id : ItemId} {item : NewItem} {validated : Validated}
    {pending after : Pending} {value : PUnit} (references : pending.tables.References)
    (target : ∀ prior ∈ item.supersedes, pending.tables.hasItem prior)
    (returned : exec (insertItemRow platform env id item validated) pending = (.ok value, after)) :
    Fits pending.tables id item ∧ after.tables.References ∧ after.drawn = pending.drawn ∧
      after.tables.shelf = pending.tables.shelf ++
        [shelve (itemRowOf platform env id item validated.scope) validated.tags] := by
  rw [insertItemRow, exec_bind_ok (exec_get pending)] at returned
  split at returned
  · cases returned
  case h_2 items inserted =>
    obtain ⟨check, free, rows⟩ := Table.insert_eq_ok.mp inserted
    obtain ⟨_, middle, written, tagged⟩ := exec_bind_returned returned
    cases written
    obtain ⟨tables, itemTags, drawn⟩ := insertTags_appends tagged
    have same : after.tables.items = items := by rw [tables]
    have idFree := Table.find_eq_none.mp (free (.id id) (by simp [itemSchema, itemRowOf]))
    have keyFree : ∀ key ∈ item.externalId,
        ∀ row ∈ pending.tables.items.rows, row.externalId ≠ some key := by
      intro key given row stored held
      have absent := Table.find_eq_none.mp
        (free (.externalId key) (by simp [itemSchema, itemRowOf, Option.mem_def.mp given]))
      exact absent row stored (by simp [itemSchema, held])
    have new : ¬ pending.tables.hasItem id := by
      rw [hasItem_iff]
      rintro ⟨row, stored, rfl⟩
      exact idFree row stored (by simp [itemSchema])
    obtain ⟨shelf, owned⟩ := @shelf_append pending.tables after.tables
      (itemRowOf platform env id item validated.scope) validated.tags references.tagItem new
      (by rw [same, rows]) itemTags
    refine ⟨⟨check, target, ?_, ?_⟩, ?_, drawn, shelf⟩
    · intro key given shelved member
      obtain ⟨row, stored, rfl⟩ := List.mem_map.mp member
      exact keyFree key given row stored
    · intro shelved member
      obtain ⟨row, stored, rfl⟩ := List.mem_map.mp member
      intro held
      exact new (hasItem_iff.mpr ⟨row, stored, held⟩)
    · rw [tables] at owned ⊢
      exact References.of_added references rows target owned

/-- **A submission that fits is inserted.** -/
theorem insertItemRow_succeeds {id : ItemId} {item : NewItem} {validated : Validated}
    {pending : Pending} (references : pending.tables.References) (fits : Fits pending.tables id item)
    (distinct : validated.tags.Nodup) :
    ∃ after, exec (insertItemRow platform env id item validated) pending = (.ok ⟨⟩, after) := by
  obtain ⟨items, inserted, rows⟩ := @Table.insert_succeeds _ _ _ _ pending.tables.items
    (itemRowOf platform env id item validated.scope) fits.check (by
      intro key entry
      rw [Table.find_eq_none]
      intro row stored held
      have shelved := List.mem_map_of_mem (f := fun row => (row, tagsOf pending.tables row.id)) stored
      cases key with
      | externalId key =>
        exact fits.keyFree key (by simpa [itemSchema, itemRowOf] using entry) _ shelved
          (by simpa [itemSchema] using held)
      | id other =>
        have same : other = id := by simpa [itemSchema, itemRowOf] using entry
        exact fits.idFree _ shelved (by simpa [itemSchema, same, eq_comm] using held))
  obtain ⟨after, tagged⟩ := @insertTags_succeeds id validated.tags
    { pending with tables := { pending.tables with items } } distinct (by
      intro tag _ stored
      obtain ⟨shelved, member, same⟩ := hasItem_iff_shelf.mp (references.tagItem _ stored)
      exact fits.idFree shelved member same)
  refine ⟨after, ?_⟩
  rw [insertItemRow, exec_bind_ok (exec_get pending), inserted]
  exact tagged

/-- Why inserting tags fails. -/
theorem insertTags_threw {id : ItemId} {tags : List String} {pending after : Pending}
    {error : Error} (threw : exec (insertTags id tags) pending = (.error error, after)) :
    ∃ context source, error = .sqlite context source := by
  induction tags generalizing pending with
  | nil => cases threw
  | cons tag rest inductionHypothesis =>
    rw [insertTags, exec_bind_ok (exec_get pending)] at threw
    split at threw
    · cases threw
      exact ⟨_, _, rfl⟩
    · change exec (setTables _ >>= _) pending = _ at threw
      rw [exec_bind] at threw
      exact inductionHypothesis threw

/-- Why inserting an item fails. -/
theorem insertItemRow_threw {id : ItemId} {item : NewItem} {validated : Validated}
    {pending after : Pending} {error : Error}
    (threw : exec (insertItemRow platform env id item validated) pending = (.error error, after)) :
    (∃ context source, error = .sqlite context source) ∨
      ∃ key ∈ item.externalId, error = .externalIdConflict key ∧
        ∃ shelved ∈ pending.tables.shelf, shelved.1.externalId = some key := by
  rw [insertItemRow, exec_bind_ok (exec_get pending)] at threw
  split at threw
  case h_1 violation refused =>
    cases threw
    cases violation with
    | check => exact .inl ⟨_, _, rfl⟩
    | taken key =>
      cases key with
      | id taken => exact .inl ⟨_, _, rfl⟩
      | externalId key =>
        obtain ⟨entry, row, stored, held⟩ := Table.insert_taken refused
        have given : item.externalId = some key := by simpa [itemSchema, itemRowOf] using entry
        refine .inr ⟨key, given, ?_, _, List.mem_map_of_mem stored, by simpa [itemSchema] using held⟩
        rw [mapInsertErr, given, Option.getD_some]
  case h_2 items inserted =>
    change exec (setTables _ >>= _) pending = _ at threw
    rw [exec_bind] at threw
    exact .inl (insertTags_threw threw)

/-- An accepted target changes nothing; a refused one is named. -/
theorem exec_checkSupersedes (supersedes : Option ItemId) (pending : Pending) :
    exec (checkSupersedes supersedes) pending =
      (match supersedes with
        | none => .ok ⟨⟩
        | some target =>
          if pending.tables.hasItem target then .ok ⟨⟩ else .error (.supersedesNotFound target),
        pending) := by
  rw [checkSupersedes, exec_bind_ok (exec_get pending)]
  rcases supersedes with _ | target
  · rfl
  · change exec (throwIf _ _) pending = _
    rw [exec_throwIf]
    rcases stored : pending.tables.hasItem target with _ | _ <;> simp [stored]

/-- A stored target is accepted. -/
theorem checkSupersedes_succeeds {supersedes : Option ItemId} {pending : Pending}
    (target : ∀ prior ∈ supersedes, pending.tables.hasItem prior) :
    exec (checkSupersedes supersedes) pending = (.ok ⟨⟩, pending) := by
  rw [exec_checkSupersedes]
  rcases supersedes with _ | prior
  · rfl
  · simp [target prior rfl]

/-- The database or a missing target is to blame, no field and no key. -/
def Error.OfDatabase (error : Error) : Prop :=
  (∃ target, error = .supersedesNotFound target) ∨ ∃ context source, error = .sqlite context source

/-- A missing target is named. -/
theorem checkSupersedes_threw {supersedes : Option ItemId} {pending after : Pending} {error : Error}
    (threw : exec (checkSupersedes supersedes) pending = (.error error, after)) :
    error.OfDatabase := by
  rw [exec_checkSupersedes] at threw
  rcases supersedes with _ | target
  · cases threw
  · by_cases stored : pending.tables.hasItem target
    · simp [stored] at threw
    · simp only [stored, Bool.false_eq_true, if_false, Prod.mk.injEq, Except.error.injEq] at threw
      exact .inl ⟨target, threw.1.symm⟩

/-- No field is refused. -/
def Error.NoField (error : Error) : Prop := ∀ field reason, error ≠ .validation field reason

theorem Error.OfDatabase.noField {error : Error} (ofDatabase : error.OfDatabase) : error.NoField := by
  rintro field reason rfl
  rcases ofDatabase with ⟨_, same⟩ | ⟨_, _, same⟩ <;> cases same

/-- Nor is a key. -/
theorem Error.OfDatabase.noConflict {error : Error} (ofDatabase : error.OfDatabase) (key : String) :
    error ≠ .externalIdConflict key := by
  rintro rfl
  rcases ofDatabase with ⟨_, same⟩ | ⟨_, _, same⟩ <;> cases same

theorem checkSupersedes_noField (supersedes : Option ItemId) :
    ThrowsOnly Error.NoField (checkSupersedes supersedes) :=
  fun _ _ _ threw => (checkSupersedes_threw threw).noField

theorem insertItemRow_noField (id : ItemId) (item : NewItem) (validated : Validated) :
    ThrowsOnly Error.NoField (insertItemRow platform env id item validated) := by
  intro pending error after threw
  rcases insertItemRow_threw threw with database | ⟨key, _, rfl, _⟩
  · exact Error.OfDatabase.noField (.inr database)
  · intro field reason same
    cases same

/-- Where the clock reads 1970 or later, minting does not fail. -/
theorem mintRawUlid_noField (recent : env.Recent) : ThrowsOnly Error.NoField (mintRawUlid env) := by
  intro pending error after threw
  rw [exec_mintRawUlid, if_pos recent] at threw
  cases threw

end Singularmem.Core
