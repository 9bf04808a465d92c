import Singularmem.Graph.Counting
import Singularmem.Graph.ExportLines
import Singularmem.Graph.MixedRuns
import Singularmem.Graph.Partition
import Singularmem.Graph.TimeTravel
import Singularmem.Library.Ranking

/-!
# Exports of reachable stores

A store that was written by calls whose values an export can write is exported whole, and a
loader reads every item, every entity and every fact revision back. Where other writers come
in between the reads of an export, nothing that was there when it began is missing, and what
it names is there too.
-/

namespace Singularmem.Graph

open Library Singularmem.Core
open Effect hiding ofExcept

variable {platform : Platform} {decimals : Decimals}

/-- What an export relies on: times and numbers are read back, and numbers stay numerals. -/
structure ReadsExports (platform : Platform) (decimals : Decimals) : Prop where
  times : platform.KeepsTimes
  stored : platform.ReadsStored
  numerals : ∀ digits, Json.Numeral digits → Json.Numeral (platform.readNumber digits)
  decimals : decimals.Faithful

/-- An export can read a row of `items`: it is dated, and the reader can parse its metadata. -/
structure RowExportable (platform : Platform) (row : ItemRow) : Prop where
  created : ∃ instant : Timestamp, instant.Unsigned ∧ row.createdAt = platform.displayTime instant
  shallow : row.metadata.depth < Json.recursionLimit
  numeric : row.metadata.Numeric

/-- The row an entity was read from. -/
def Entity.toRow (entity : Entity) : EntityRow :=
  ⟨entity.id, entity.name, entity.normalisedName, entity.kind, toSql entity.createdAt⟩

/-- An item says what its row on the shelf did, and has its metadata; its key and its scope may
be others. -/
structure Recalls (platform : Platform) (item : Item) (known : Shelved) : Prop where
  portrays : item.Portrays platform known
  metadata : item.metadata = known.1.metadata.reread platform

/-- An archive has the items that were there at the first moment, and the entities and the fact
revisions that were there when they were read. -/
structure Archive.Holds (platform : Platform) (moments : Nat → Tables) (archive : Archive) :
    Prop where
  loaded : itemsAt platform moments = archive.items.map .ok
  items : List.Forall₂ (fun row item => Recalls platform item (row, tagsOf (moments 0) row.id))
    (byCreation (moments 0).items.rows) archive.items
  entities : (archive.entities.map Entity.toRow).Perm
    (moments (archive.items.length + 1)).entities.rows
  facts : List.Forall₂ (Reads platform (moments (archive.items.length + 2)))
    (chronological (moments (archive.items.length + 2)).facts.rows) archive.facts

/-- The part of an archive that a loader knows. -/
def Archive.only (knows : String → Bool) (archive : Archive) : Archive where
  items := if knows "item" then archive.items else []
  entities := if knows "entity" then archive.entities else []
  facts := if knows "fact" then archive.facts else []

/-- The entities that a fact names. -/
def Fact.named (fact : Fact) : List EntityRef :=
  fact.subject :: match fact.object with
    | .entity ref => [ref]
    | .value _ => []

/-- An export can read the tables. -/
structure Exportable (platform : Platform) (tables : Tables) : Prop where
  items : ∀ row ∈ tables.items.rows, RowExportable platform row
  entities : EntitiesDated tables
  facts : ∀ row ∈ tables.facts.rows, RowDated row

/-- A call whose values an export can write: items are dated by a clock that shows year 0 or
later, and have metadata that the reader can parse; facts have instants of year 0 or later. -/
def Writable (call : Env × WriteCall) : Prop :=
  match call.2 with
  | .item request => call.1.now.Unsigned ∧ ∀ item ∈ request.submissions,
      item.metadata.depth < Json.recursionLimit ∧ item.metadata.Numeric
  | .graph request => request.Unsigned

/-- Other writers work while the reads of an export follow one another. -/
def Meanwhile (platform : Platform) (stores : Nat → Store) : Prop :=
  ∀ moment, ∃ calls, (∀ call ∈ calls, Writable call) ∧
    stores (moment + 1) = runWrites platform calls (stores moment)

/-- **One call** leaves tables that can be exported. -/
theorem perform_exportable (stored : platform.ReadsStored) {env : Env} {call : WriteCall}
    (writable : Writable (env, call)) {store : Store}
    (exportable : Exportable platform store.database.tables) :
    Exportable platform (exec (call.perform platform env) store).2.database.tables := by
  cases call with
  | item call =>
    have law : ItemsExtend call.replacedRow call.movedRow store.database.tables
        (exec (call.perform platform env) store).2.database.tables := (itemCall_law env call rfl).1
    refine ⟨?_, ?_, ?_⟩
    · refine shelf_rows.mp (perform_lasting ?_ env call ?_ (shelf_rows.mpr exportable.items))
      · rintro moved before _ ⟨externalId, scope, rfl, -⟩ held
        exact ⟨held.created, held.shallow, held.numeric⟩
      · intro item submitted draw validated
        obtain ⟨shallow, numeric⟩ := writable.2 item submitted
        exact ⟨⟨env.now, writable.1, rfl⟩, shallow, numeric⟩
    · rw [EntitiesDated, WriteCall.perform, law.entities]
      exact exportable.entities
    · rw [WriteCall.perform, law.facts]
      exact exportable.facts
  | graph call =>
    have extended := perform_extends platform env call store
    refine ⟨?_, ?_, ?_⟩
    · rw [WriteCall.perform, extended.items]
      exact exportable.items
    · exact (keptEntity_dated platform env).perform call exportable.entities
    · exact (GraphCall.Unsigned.kept stored writable).perform exportable.facts

/-- **A run** leaves tables that can be exported. -/
theorem runWrites_exportable (stored : platform.ReadsStored) {calls : List (Env × WriteCall)}
    (writable : ∀ call ∈ calls, Writable call) {store : Store}
    (exportable : Exportable platform store.database.tables) :
    Exportable platform (runWrites platform calls store).database.tables := by
  induction calls generalizing store with
  | nil => exact exportable
  | cons call rest inductionHypothesis =>
    exact inductionHypothesis (fun other later => writable other (List.mem_cons_of_mem call later))
      (perform_exportable stored (writable call List.mem_cons_self) exportable)

/-- At every moment the tables can be exported, and have grown since the first. -/
theorem Meanwhile.each (stored : platform.ReadsStored) {stores : Nat → Store}
    (meanwhile : Meanwhile platform stores) (first : Exportable platform (stores 0).database.tables)
    (moment : Nat) : Exportable platform (stores moment).database.tables ∧
      Grows (stores 0).database.tables (stores moment).database.tables := by
  induction moment with
  | zero => exact ⟨first, .refl _⟩
  | succ moment inductionHypothesis =>
    obtain ⟨calls, writable, next⟩ := meanwhile moment
    rw [next]
    exact ⟨runWrites_exportable stored writable inductionHypothesis.1,
      inductionHypothesis.2.trans (runWrites_grows calls _)⟩

/-- An entity that was there at the first moment is in the archive, under its name. -/
theorem Archive.Holds.names {moments : Nat → Tables} {archive : Archive}
    (holds : archive.Holds platform moments) (each : ∀ moment,
      Exportable platform (moments moment) ∧ Grows (moments 0) (moments moment)) {id : EntityId}
    {name : String} (stored : (moments 0).hasEntity id)
    (named : entityNameOf (moments (archive.items.length + 2)) id = some name) :
    ∃ entity ∈ archive.entities, entity.id = id ∧ entity.name = name := by
  rw [entityNameOf_grown (each _).2.entities stored,
    ← entityNameOf_grown (each (archive.items.length + 1)).2.entities stored] at named
  obtain ⟨row, found, rfl⟩ := Option.map_eq_some_iff.mp named
  obtain ⟨there, entry⟩ := Table.find_eq_some.mp found
  obtain ⟨entity, shown, rfl⟩ := List.mem_map.mp (holds.entities.mem_iff.mpr there)
  simp only [entitySchema, List.mem_cons, reduceCtorEq, List.not_mem_nil, or_false, false_or,
    EntityKey.id.injEq] at entry
  exact ⟨entity, shown, entry.symm, rfl⟩

section Reading

variable (laws : ReadsExports platform decimals)

include laws

/-- The item of a row that can be exported. -/
theorem readShelved_exportable {known : Shelved} (exportable : RowExportable platform known.1) :
    ∃ item, readShelved platform known = .ok item ∧ item.createdAt.Unsigned ∧
      item.metadata.Numeric := by
  obtain ⟨instant, unsigned, created⟩ := exportable.created
  have time : parseCreatedAt platform known.1.createdAt = .ok instant := by
    rw [parseCreatedAt, created, laws.times instant unsigned]
  refine ⟨⟨known.1.id, known.1.content, instant, known.1.supersedes, known.2, known.1.source,
    known.1.metadata.reread platform, known.1.externalId, known.1.scope⟩, ?_, unsigned,
    Json.reread_numeric laws.numerals known.1.metadata exportable.numeric⟩
  simp only [readShelved, time, Json.parse, if_pos exportable.shallow]
  rfl

/-- The summary of an entity keeps its row. -/
theorem entities_read {tables : Tables} (dated : EntitiesDated tables) :
    ∃ summaries, entities platform tables none none = .ok summaries ∧
      (summaries.map fun summary => summary.entity.toRow) =
        tables.entities.rows.insertionSort (fun left right =>
          left.normalisedName ≤ right.normalisedName) ∧
      ∀ summary ∈ summaries, summary.entity.createdAt.Unsigned := by
  set filter := factWhere tables (scopeOnly none) .anyHead
  set summarise : EntityRow → Except Error EntitySummary := fun row => do
    let entity ← intoEntity platform row
    return ⟨entity, factCountSubquery tables filter row.id⟩ with summariseDef
  have all : tables.entities.rows.filter (fun entity => (none : Option String).all
      (entity.kind = some ·) && ((none : Option ScopeFilter).isNone ||
        tables.facts.rows.any (touches entity.id filter))) = tables.entities.rows :=
    List.filter_eq_self.mpr fun _ _ => rfl
  have each : ∀ row ∈ tables.entities.rows, ∃ summary, summarise row = .ok summary ∧
      summary.entity.toRow = row ∧ summary.entity.createdAt.Unsigned := by
    intro row stored
    obtain ⟨time, unsigned, created⟩ := dated row stored
    refine ⟨⟨⟨row.id, row.name, row.normalisedName, row.kind, time⟩,
      factCountSubquery tables filter row.id⟩, ?_, ?_, unsigned⟩
    · rw [summariseDef]
      simp only [intoEntity, created, laws.stored.parsePoint_unsigned unsigned]
      rfl
    · rw [Entity.toRow, ← created]
  set ordered := tables.entities.rows.insertionSort fun left right =>
    left.normalisedName ≤ right.normalisedName
  have member : ∀ row ∈ ordered, row ∈ tables.entities.rows := fun row =>
    (List.mem_insertionSort _).mp
  obtain ⟨summaries, returned⟩ := @mapM_succeeds _ _ _ summarise ordered fun row place => by
    obtain ⟨summary, computed, _⟩ := each row (member row place)
    exact ⟨summary, computed⟩
  have aligned := mapM_aligned returned
  have paired : List.Forall₂ (fun row summary => row = summary.entity.toRow) ordered summaries := by
    refine ((List.forall₂_and_left _ _).mpr ⟨member, aligned⟩).imp ?_
    rintro row summary ⟨stored, computed⟩
    obtain ⟨_, again, rendered, -⟩ := each row stored
    rw [again] at computed
    cases computed
    exact rendered.symm
  have same : summaries.map (fun summary => summary.entity.toRow) = ordered := by
    have equal := List.forall₂_map_right_iff.mpr paired
    rw [List.forall₂_eq_eq_eq] at equal
    exact equal.symm
  refine ⟨summaries, ?_, same, fun summary listed => ?_⟩
  · rw [entities, all]
    exact returned
  · obtain ⟨row, place, computed⟩ := exists_of_mem_mapM returned listed
    obtain ⟨_, again, -, unsigned⟩ := each row (member row place)
    rw [again] at computed
    cases computed
    exact unsigned

/-- **The entities of an export** are those of the table. -/
theorem exportedEntities_read {tables : Tables} (dated : EntitiesDated tables) :
    ∃ listed, exportedEntities platform tables = .ok listed ∧
      (listed.map Entity.toRow).Perm tables.entities.rows ∧
      ∀ entity ∈ listed, entity.createdAt.Unsigned := by
  obtain ⟨summaries, returned, rows, unsigned⟩ := entities_read laws dated
  refine ⟨byEntityCreation (summaries.map EntitySummary.entity), ?_, ?_, ?_⟩
  · rw [exportedEntities, returned]
    rfl
  · have sorted := (List.perm_insertionSort (fun left right : Entity =>
      left.createdAt < right.createdAt ∨ (left.createdAt = right.createdAt ∧
        left.id.ulid ≤ right.id.ulid)) (summaries.map EntitySummary.entity)).map Entity.toRow
    rw [List.map_map] at sorted
    refine sorted.trans ?_
    change (summaries.map fun summary => summary.entity.toRow).Perm _
    rw [rows]
    exact List.perm_insertionSort _ _
  · intro entity member
    obtain ⟨summary, listed, rfl⟩ := List.mem_map.mp ((List.mem_insertionSort _).mp member)
    exact unsigned summary listed

/-- **The fact revisions of an export** are those of the table. -/
theorem allFacts_read {tables : Tables} (references : tables.References)
    (dated : ∀ row ∈ tables.facts.rows, RowDated row) :
    ∃ facts, allFactsChronological platform tables = .ok facts ∧
      List.Forall₂ (Reads platform tables) (chronological tables.facts.rows) facts ∧
      ∀ fact ∈ facts, fact.Dated ∧ fact.confidence.inUnit := by
  have stored : ∀ row ∈ chronological tables.facts.rows, row ∈ tables.facts.rows := fun row =>
    (List.mem_insertionSort _).mp
  obtain ⟨facts, selected, all⟩ := selectFacts_reads fun row member =>
    reads_of_dated laws.stored (tables.facts.checked row (stored row member))
      (references.subject row (stored row member)) (dated row (stored row member))
  refine ⟨facts, selected, all, fun fact member => ?_⟩
  obtain ⟨row, place, reads⟩ := forall₂_source all fact member
  refine ⟨reads.dated laws.stored (dated row (stored row place)), ?_⟩
  have checked := tables.facts.checked row (stored row place)
  simp only [factSchema, Bool.and_eq_true] at checked
  obtain ⟨raw, joined, parsed⟩ := reads
  obtain rfl := joinNames_row joined
  rw [(RawFact.parsesAs parsed).confidence]
  exact checked.1.2

/-- An item that is loaded later says what its row did. -/
theorem loadItem_later {before after : Tables} (grows : Grows before after)
    (exportable : Exportable platform after) {known : Shelved} (shown : known ∈ before.shelf) :
    ∃ item, loadItem platform after known.1.id = .ok item ∧ Recalls platform item known ∧
      item.createdAt.Unsigned ∧ item.metadata.Numeric := by
  obtain ⟨still, shownStill, stays⟩ := grows.shelf.mem shown
  obtain ⟨item, read, unsigned, numeric⟩ :=
    readShelved_exportable laws (shelf_rows.mpr exportable.items still shownStill)
  have loaded : loadItem platform after known.1.id = .ok item := by
    rw [← stays.id, loadItem_shelved shownStill, read]
  have portrays := (readShelved_portrays read).1
  have metadata : item.metadata = still.1.metadata.reread platform := by
    obtain ⟨createdAt, _, rest⟩ := except_bind_returned read
    obtain ⟨metadata, parsed, rest⟩ := except_bind_returned rest
    cases rest
    unfold Json.parse at parsed
    split at parsed <;> cases parsed
    rfl
  obtain ⟨externalId, scope, rfl⟩ := stays
  exact ⟨item, loaded, ⟨⟨portrays.id, portrays.content, portrays.createdAt, portrays.supersedes,
    portrays.tags, portrays.source⟩, metadata⟩, unsigned, numeric⟩

/-- **The items of an export** are those that were there when it began. -/
theorem itemsAt_read {moments : Nat → Tables} (each : ∀ moment,
      Exportable platform (moments moment) ∧ Grows (moments 0) (moments moment)) :
    ∃ items, itemsAt platform moments = items.map .ok ∧
      List.Forall₂ (fun row item => Recalls platform item (row, tagsOf (moments 0) row.id) ∧
        item.createdAt.Unsigned ∧ item.metadata.Numeric)
        (byCreation (moments 0).items.rows) items := by
  have listed : listedIds (moments 0) [] none =
      (byCreation (moments 0).items.rows).map ItemRow.id := by
    rw [listedIds, List.filter_eq_self.mpr fun row _ => by rfl]
  have walk : ∀ (rows : List ItemRow) (start : Nat), (∀ row ∈ rows, row ∈ (moments 0).items.rows) →
      ∃ items, ((rows.map ItemRow.id).zipIdx start).map
          (fun entry => loadItem platform (moments (entry.2 + 1)) entry.1) = items.map .ok ∧
        List.Forall₂ (fun row item => Recalls platform item (row, tagsOf (moments 0) row.id) ∧
          item.createdAt.Unsigned ∧ item.metadata.Numeric) rows items := by
    intro rows
    induction rows with
    | nil => exact fun _ _ => ⟨[], rfl, .nil⟩
    | cons row rows inductionHypothesis =>
      intro start stored
      obtain ⟨items, rest, all⟩ := inductionHypothesis (start + 1) fun other member =>
        stored other (List.mem_cons_of_mem row member)
      have shown : (row, tagsOf (moments 0) row.id) ∈ (moments 0).shelf :=
        List.mem_map_of_mem (stored row List.mem_cons_self)
      obtain ⟨item, loaded, holds⟩ :=
        loadItem_later laws (each (start + 1)).2 (each (start + 1)).1 shown
      refine ⟨item :: items, ?_, .cons holds all⟩
      rw [List.map_cons, List.zipIdx_cons, List.map_cons, List.map_cons, rest]
      exact congrArg (· :: _) loaded
  rw [itemsAt, listed]
  exact walk _ 0 fun row => (List.mem_insertionSort _).mp

/-- **An export is loaded**, whatever the loader knows. -/
theorem export_loads (now : Timestamp) (knows : String → Bool) {moments : Nat → Tables}
    (each : ∀ moment, Exportable platform (moments moment) ∧ Grows (moments 0) (moments moment))
    (references : ∀ moment, (moments moment).References) :
    ∃ (text : String) (archive : Archive),
      exportStore platform decimals now moments = (text, .ok ()) ∧
      load platform decimals knows text = some (archive.only knows) ∧
      archive.Holds platform moments := by
  obtain ⟨items, loaded, recalled⟩ := itemsAt_read laws each
  obtain ⟨listed, entitiesRead, rows, unsigned⟩ :=
    exportedEntities_read laws (each (items.length + 1)).1.entities
  obtain ⟨facts, factsRead, reads, dated⟩ :=
    allFacts_read laws (references (items.length + 2)) (each (items.length + 2)).1.facts
  set values := exportMeta platform now :: (items.map (exportItem platform) ++
    (listed.map (exportEntity platform) ++ facts.map (exportFact platform decimals))) with valuesDef
  have lines : exportLines platform decimals now moments = values.map .ok := by
    simp only [exportLines, loaded, List.length_map, entitiesRead, factsRead, sectionLines,
      valuesDef, List.map_cons, List.map_append, List.map_map, List.cons_append, List.append_assoc]
    rfl
  have records : List.Forall₂ (fun value record => value.Numeric ∧
      recordOf platform decimals knows value = some record) values
      (.unknown :: (items.map (fun item => known knows "item" (.item item)) ++
        (listed.map (fun entity => known knows "entity" (.entity entity)) ++
          facts.map fun fact => known knows "fact" (.fact fact)))) := by
    refine .cons ⟨exportMeta_numeric now, recordOf_meta now⟩
      (List.rel_append ?_ (List.rel_append ?_ ?_))
    · rw [List.forall₂_map_left_iff, List.forall₂_map_right_iff, List.forall₂_same]
      intro item member
      obtain ⟨row, -, -, created, numeric⟩ := forall₂_source recalled item member
      exact ⟨exportItem_numeric numeric, recordOf_item laws.times created⟩
    · rw [List.forall₂_map_left_iff, List.forall₂_map_right_iff, List.forall₂_same]
      intro entity member
      exact ⟨exportEntity_numeric entity, recordOf_entity laws.times (unsigned entity member)⟩
    · rw [List.forall₂_map_left_iff, List.forall₂_map_right_iff, List.forall₂_same]
      intro fact member
      obtain ⟨times, unit⟩ := dated fact member
      exact ⟨exportFact_numeric laws.decimals unit,
        recordOf_fact laws.times laws.decimals times unit⟩
  refine ⟨String.ofList (values.flatMap fun value => value.write ++ ['\n']),
    ⟨items, listed, facts⟩, ?_, ?_, ⟨loaded, recalled.imp fun _ _ holds => holds.1, rows, reads⟩⟩
  · rw [exportStore, lines, writeLines_ok]
  · rw [load_lines records, filterMap_records]
    rfl

end Reading

/-- Whole confidence as it is written, other numbers by their bits. -/
def wholeDecimals : Decimals where
  write confidence :=
    if confidence = .one then "1.0" else String.ofList (Nat.toDigits 10 confidence.bits.toNat)
  read text :=
    if text = "1.0" then some .one
    else some ⟨BitVec.ofNat 32 (Nat.ofDigitChars 10 text.toList 0)⟩

theorem wholeDecimals_faithful : wholeDecimals.Faithful := by
  intro confidence _
  by_cases whole : confidence = .one
  · subst whole
    exact ⟨by decide, rfl⟩
  have digits : ∀ char ∈ Nat.toDigits 10 confidence.bits.toNat, char.isDigit = true :=
    fun char => Nat.isDigit_of_mem_toDigits (by decide) (by decide)
  have other : String.ofList (Nat.toDigits 10 confidence.bits.toNat) ≠ "1.0" := by
    intro same
    have chars := congrArg String.toList same
    rw [String.toList_ofList] at chars
    rw [chars] at digits
    exact absurd (digits '.' (by decide)) (by decide)
  refine ⟨⟨?_, ?_⟩, ?_⟩
  · simp only [wholeDecimals, if_neg whole]
    intro empty
    have chars := congrArg String.toList empty
    rw [String.toList_ofList] at chars
    exact Nat.toDigits_ne_nil chars
  · simp only [wholeDecimals, if_neg whole, String.toList_ofList]
    refine List.all_eq_true.mpr fun char member => ?_
    rw [Json.isNumberChar, digits char member, Bool.true_or]
  · simp only [wholeDecimals, if_neg whole, if_neg other, String.toList_ofList,
      Nat.ofDigitChars_ten_toDigits, BitVec.ofNat_toNat]
    rfl

/-- Exports can be read on the platform for ASCII texts and times without a sign. -/
theorem unsignedYears_readsExports : ReadsExports .unsignedYears wholeDecimals where
  times := by
    intro instant unsigned
    change (Platform.readSql (Platform.trimFraction instant)).filter _ = some instant
    rw [Platform.readSql_trimFraction unsigned]
    simpa using unsigned
  stored := Platform.unsignedYears_readsStored
  numerals _ numeral := numeral
  decimals := wholeDecimals_faithful

/-- A fresh store can be exported. -/
theorem fresh_exportable (platform : Platform) :
    Exportable platform (⟨false, .fresh⟩ : Store).database.tables := ⟨nofun, nofun, nofun⟩

theorem notedFact_writable : ∀ call ∈ notedFact, Writable call := by
  intro call member
  rcases List.mem_cons.mp member with rfl | later
  · refine ⟨by decide, fun item submitted => ?_⟩
    obtain rfl := List.mem_singleton.mp submitted
    exact ⟨by decide, trivial⟩
  · obtain rfl := List.mem_singleton.mp later
    rintro instant stated
    cases stated

theorem noteReplaced_writable : ∀ call ∈ noteReplaced, Writable call := by
  intro call member
  obtain rfl := List.mem_singleton.mp member
  refine ⟨by decide, fun item submitted => ?_⟩
  obtain rfl := List.mem_singleton.mp submitted
  exact ⟨by decide, trivial⟩

/-- A note is replaced between the first two reads of an export. -/
def replacedMeanwhile : Nat → Store
  | 0 => runWrites .unsignedYears notedFact ⟨false, .fresh⟩
  | _ + 1 => runWrites .unsignedYears noteReplaced
      (runWrites .unsignedYears notedFact ⟨false, .fresh⟩)

theorem replacedMeanwhile_writable : Meanwhile .unsignedYears replacedMeanwhile := by
  intro moment
  cases moment with
  | zero => exact ⟨noteReplaced, noteReplaced_writable, rfl⟩
  | succ moment =>
    refine ⟨[], List.forall_mem_nil _, ?_⟩
    rw [runWrites, List.foldl_nil, replacedMeanwhile, replacedMeanwhile]

section Exports

variable (laws : ReadsExports platform decimals)

include laws

/-- **A reachable store is exported whole.** The text of the export is loaded as the items, the
entities and the fact revisions of the store: the items as they are listed, every row of the
graph once, the fact revisions in the order of their record times. A loader that knows some
kinds of lines only reads those alike. -/
theorem exported_store_is_loaded {calls : List (Env × WriteCall)}
    (writable : ∀ call ∈ calls, Writable call) {start : Store}
    (exportable : Exportable platform start.database.tables) (now : Timestamp)
    (knows : String → Bool) :
    let tables := (runWrites platform calls start).database.tables
    ∃ (text : String) (archive : Archive),
      exportStore platform decimals now (fun _ => tables) = (text, .ok ()) ∧
      load platform decimals knows text = some (archive.only knows) ∧
      list platform tables = archive.items.map .ok ∧
      (archive.entities.map Entity.toRow).Perm tables.entities.rows ∧
      archive.facts.map Fact.toRow = chronological tables.facts.rows := by
  intro tables
  have reached : Exportable platform tables := runWrites_exportable laws.stored writable exportable
  obtain ⟨text, archive, written, loaded, holds⟩ := @export_loads platform decimals laws now knows
    (fun _ => tables) (fun _ => ⟨reached, .refl tables⟩) fun _ => Database.references _
  refine ⟨text, archive, written, loaded, ?_, holds.entities, ?_⟩
  · rw [← holds.loaded, itemsAt, list, listByTagsScoped]
    change _ = List.map (loadItem platform tables ∘ Prod.fst) _
    rw [← List.map_map, List.zipIdx_map_fst]
  · have rows : List.Forall₂ (fun row fact => row = fact.toRow) (chronological tables.facts.rows)
        archive.facts := by
      refine ((List.forall₂_and_left _ _).mpr ⟨fun row => (List.mem_insertionSort _).mp,
        holds.facts⟩).imp ?_
      rintro row fact ⟨stored, reads⟩
      have checked := tables.facts.checked row stored
      exact (reads.toRow laws.stored checked (reached.facts row stored)).symm
    have equal := List.forall₂_map_right_iff.mpr rows
    rw [List.forall₂_eq_eq_eq] at equal
    exact equal.symm

omit laws in
/-- The export of a note and a fact is loaded as that fact. -/
theorem noted_fact_is_loaded :
    let tables := (runWrites .unsignedYears notedFact ⟨false, .fresh⟩).database.tables
    tables.facts.rows.length = 1 ∧ ∃ (text : String) (archive : Archive),
      exportStore .unsignedYears wholeDecimals (instantAfter 2) (fun _ => tables) =
        (text, .ok ()) ∧
      load .unsignedYears wholeDecimals (fun kind => kind = "fact") text =
        some (archive.only fun kind => kind = "fact") ∧
      list .unsignedYears tables = archive.items.map .ok ∧
      (archive.entities.map Entity.toRow).Perm tables.entities.rows ∧
      archive.facts.map Fact.toRow = chronological tables.facts.rows :=
  ⟨by decide +kernel, exported_store_is_loaded unsignedYears_readsExports notedFact_writable
    (fresh_exportable .unsignedYears) (instantAfter 2) fun kind => kind = "fact"⟩

end Exports

end Singularmem.Graph
