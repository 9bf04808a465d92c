import Singularmem.Core.Migration

/-!
# The stages of a database

A database goes through stages: a new file, then the format versions. Each transaction of an
open starts from one stage and leads to another. On a database at its stage, with any rows,
its statements succeed, lead to the schema and version of the next stage, and keep all
values. The schema that the migrations end in is the one a new file gets.
-/

namespace Singularmem.Core.Migration

open Library.Sql

/-- The schema of a stage: stage 0 is a new file, the others are the format versions. -/
def schemaAt : Nat → Schema SqlValue
  | 0 => ⟨[], []⟩
  | 1 => schemaV1
  | 2 => migrate1To2Ddl.foldl Schema.apply schemaV1
  | 3 => (migrate1To2Ddl ++ migrate2To3Ddl).foldl Schema.apply schemaV1
  | _ => (migrate1To2Ddl ++ migrate2To3Ddl ++ migrate3To4Ddl).foldl Schema.apply schemaV1

/-- The format version of a stage. -/
def versionAt : Nat → Option String
  | 0 => none
  | 1 => some "1"
  | 2 => some "2"
  | 3 => some "3"
  | _ => some formatVersion

/-- A database at a stage, with any rows. -/
structure AtStage (stage : Nat) (catalog : Catalog) : Prop where
  schema : catalog.schema = schemaAt stage
  version : readFormatVersion catalog = versionAt stage
  formed : catalog.WellFormed

/-- **The migrated schema is the fresh one.** -/
theorem schemaAt_current : schemaAt 4 = (Catalog.empty.run ddlV4).schema := by decide +kernel

namespace Upgrade

/-- The stage a transaction starts from. -/
def source : Upgrade → Nat
  | fresh => 0
  | oneToTwo => 1
  | twoToThree => 2
  | threeToFour => 3

/-- The stage it leads to. -/
def target : Upgrade → Nat
  | fresh => 4
  | oneToTwo => 2
  | twoToThree => 3
  | threeToFour => 4

/-- Its statements. -/
def work (now : String) : Upgrade → List (Statement SqlValue)
  | fresh => bootstrap now
  | oneToTwo => migrate1To2Ddl ++ [setFormatVersion "2"]
  | twoToThree => migrate2To3Ddl ++ [setFormatVersion "3"]
  | threeToFour => migrate3To4Ddl ++ [setFormatVersion "4"]

/-- How it reports a failed SQL call. -/
def fail : Upgrade → Phase → Refusal → OpenError
  | fresh => fun phase => .sqlite (bootstrapContext phase)
  | oneToTwo => fun _ => .migration "1" "2"
  | twoToThree => fun _ => .migration "2" "3"
  | threeToFour => fun _ => .migration "3" "4"

/-- Every transaction of an open is a guarded one. -/
theorem run_eq (upgrade : Upgrade) (interruptions : Interruptions) (now : String) (catalog : Catalog) :
    upgrade.run interruptions now catalog =
      guarded interruptions (versionAt upgrade.source) (upgrade.work now) upgrade.fail catalog := by
  cases upgrade <;> rfl

/-- A transaction leads further. -/
theorem source_lt_target (upgrade : Upgrade) : upgrade.source < upgrade.target := by
  cases upgrade <;> decide

end Upgrade

/-- The schema of its stage accepts the statements of a transaction. -/
theorem schemaAt_accepts (upgrade : Upgrade) (now : String) :
    (schemaAt upgrade.source).accepts (upgrade.work now) := by
  cases upgrade <;> rfl

/-- The statements lead to the schema of the next stage. -/
theorem schemaAt_target (upgrade : Upgrade) (now : String) :
    (upgrade.work now).foldl Schema.apply (schemaAt upgrade.source) = schemaAt upgrade.target := by
  cases upgrade with
  | fresh => exact schemaAt_current.symm
  | oneToTwo => rfl
  | twoToThree => rfl
  | threeToFour => rfl

/-- A database without tables has no rows. -/
theorem eq_empty_of_stage {catalog : Catalog} (staged : AtStage 0 catalog) : catalog = .empty := by
  obtain ⟨schema, rows⟩ := catalog
  obtain rfl : schema = ⟨[], []⟩ := staged.schema
  have none : rows = fun _ => [] := funext fun name => staged.formed.absent name rfl
  rw [none]
  rfl

/-- The rows refuse no statement of a transaction that starts from its stage. -/
theorem fits_of_stage (upgrade : Upgrade) (now : String) {catalog : Catalog}
    (staged : AtStage upgrade.source catalog) : catalog.fits (upgrade.work now) := by
  cases upgrade with
  | fresh =>
    rw [eq_empty_of_stage staged]
    rfl
  | oneToTwo =>
    obtain ⟨schema, rows⟩ := catalog
    obtain rfl : schema = schemaV1 := staged.schema
    have widths : ∀ row ∈ rows "items", row.length = 6 := staged.formed.widths "items" (itemsTable []) rfl
    have unique : ((⟨schemaV1, rows⟩ : Catalog).next (.addColumn "items" (text "external_id"))).violation
        (.createIndex ⟨"idx_items_external_id", "items", ["external_id"], true, some "external_id"⟩) =
          none := by
      refine Catalog.violation_of_no_entries ?_
      rintro table ⟨⟩ row member
      change row ∈ Function.update rows "items" _ "items" at member
      rw [Function.update_self] at member
      obtain ⟨old, oldIn, rfl⟩ := List.mem_map.mp member
      have missing : (old ++ [none])[6]? = some none := by
        rw [List.getElem?_append_right (widths old oldIn).le, widths old oldIn]
        rfl
      refine if_pos ?_
      change ((old ++ [none])[6]?.join).isNone
      rw [missing]
      rfl
    change ((_ : Option Refusal).isNone && ((_ : Option Refusal).isNone && _)) = true
    rw [unique]
    rfl
  | twoToThree => exact Catalog.fits_of_quiet rfl
  | threeToFour =>
    have unique : (catalog.next (.createTable entitiesTable)).violation
        (.createIndex ⟨"idx_entities_identity", "entities", ["normalised_name"], true, none⟩) = none := by
      refine Catalog.violation_of_no_entries ?_
      intro table _ row member
      change row ∈ Function.update catalog.rows "entities" [] "entities" at member
      rw [Function.update_self] at member
      cases member
    change ((_ : Option Refusal).isNone && ((_ : Option Refusal).isNone && _)) = true
    rw [unique]
    exact Catalog.fits_of_quiet rfl

/-- Every stage after the first has the meta table. -/
theorem metaTable_of_stage {stage : Nat} (old : stage ≠ 0) :
    (schemaAt stage).table "singularmem_meta" = some metaTable := by
  match stage with
  | 0 => exact absurd rfl old
  | 1 => rfl
  | 2 => rfl
  | 3 => rfl
  | _ + 4 => rfl

/-- What the version is read from: the value of a row, where the row has the right key. -/
def versionOf (row : Row SqlValue) : Option String :=
  if metaTable.value row "key" = some (.text "format_version") then
    match metaTable.value row "value" with
    | some (.text version) => some version
    | _ => none
  else none

/-- Reading the version goes through the rows of the meta table. -/
theorem readFormatVersion_eq {catalog : Catalog}
    (found : catalog.schema.table "singularmem_meta" = some metaTable) :
    readFormatVersion catalog = (catalog.rows "singularmem_meta").findSome? versionOf := by
  rw [readFormatVersion, found]
  rfl

/-- Set the version of a meta row. -/
def setVersion (version : String) (row : Row SqlValue) : Row SqlValue :=
  if metaTable.value row "key" = some (.text "format_version") then
    metaTable.setValue row "value" (.text version)
  else row

/-- A row whose version was set has that version. -/
theorem versionOf_setVersion {row : Row SqlValue} (width : row.length = 2) (version : String) :
    versionOf (setVersion version row) =
      if metaTable.value row "key" = some (.text "format_version") then some version else none := by
  obtain ⟨key, value, rfl⟩ := List.length_eq_two.mp width
  have key_eq : ∀ value, metaTable.value [key, value] "key" = key := fun _ => rfl
  have value_eq : ∀ value, metaTable.value [key, value] "value" = value := fun _ => rfl
  have set_eq : metaTable.setValue [key, value] "value" (.text version) = [key, some (.text version)] :=
    rfl
  rw [setVersion, key_eq]
  by_cases marked : key = some (.text "format_version")
  · rw [if_pos marked, if_pos marked, set_eq, versionOf, key_eq, if_pos marked, value_eq]
  · rw [if_neg marked, if_neg marked, versionOf, key_eq, if_neg marked]

/-- Writing the version where there is one makes it the version. -/
theorem findSome_setVersion {rows : List (Row SqlValue)} (widths : ∀ row ∈ rows, row.length = 2)
    {old : String} (reads : rows.findSome? versionOf = some old) (version : String) :
    (rows.map (setVersion version)).findSome? versionOf = some version := by
  induction rows with
  | nil => cases reads
  | cons row rest inductionHypothesis =>
    rw [List.map_cons, List.findSome?_cons, versionOf_setVersion (widths row List.mem_cons_self)]
    by_cases marked : metaTable.value row "key" = some (.text "format_version")
    · rw [if_pos marked]
    · rw [if_neg marked]
      refine inductionHypothesis (fun other otherIn => widths other (List.mem_cons_of_mem row otherIn)) ?_
      have unversioned : versionOf row = none := if_neg marked
      rwa [List.findSome?_cons, unversioned] at reads

/-- Writing the version maps the meta rows, and keeps the others. -/
theorem next_setFormatVersion_rows {catalog : Catalog}
    (found : catalog.schema.table "singularmem_meta" = some metaTable) (version : String) :
    (catalog.next (setFormatVersion version)).rows = Function.update catalog.rows "singularmem_meta"
      ((catalog.rows "singularmem_meta").map (setVersion version)) := by
  change catalog.applyRows (.update "singularmem_meta" _ _ _ _) = _
  rw [Catalog.applyRows, found]
  rfl

/-- What becomes of a row of a table: it keeps its values, but for the version. -/
def KeepsValues (name : String) (old new : Row SqlValue) : Prop :=
  if name = "singularmem_meta" then new = old ∨ old.head? = some (some (.text "format_version"))
  else old <+: new

/-- The rows of a database keep their values in another one. -/
def RowsKept (before after : Catalog) : Prop :=
  ∀ name, before.rows name ≠ [] →
    List.Forall₂ (KeepsValues name) (before.rows name) (after.rows name)

theorem KeepsValues.refl (name : String) (row : Row SqlValue) : KeepsValues name row row := by
  unfold KeepsValues
  split
  · exact .inl rfl
  · exact List.prefix_refl row

theorem KeepsValues.trans {name : String} (first second third : Row SqlValue)
    (early : KeepsValues name first second) (late : KeepsValues name second third) :
    KeepsValues name first third := by
  by_cases own : name = "singularmem_meta"
  · simp only [KeepsValues, if_pos own] at *
    rcases early with rfl | marked
    · exact late
    · exact .inr marked
  · simp only [KeepsValues, if_neg own] at *
    exact early.trans late

theorem RowsKept.refl (catalog : Catalog) : RowsKept catalog catalog :=
  fun name _ => List.forall₂_same.mpr fun row _ => KeepsValues.refl name row

theorem RowsKept.trans {first second third : Catalog} (early : RowsKept first second)
    (late : RowsKept second third) : RowsKept first third := by
  intro name occupied
  have kept := early name occupied
  refine forall₂_trans KeepsValues.trans kept (late name ?_)
  intro vanished
  rw [vanished] at kept
  exact occupied (List.forall₂_nil_right_iff.mp kept)

/-- Writing the version keeps all other values. -/
theorem setFormatVersion_kept {catalog : Catalog}
    (found : catalog.schema.table "singularmem_meta" = some metaTable) (version : String) :
    RowsKept catalog (catalog.next (setFormatVersion version)) := by
  intro name _
  rw [next_setFormatVersion_rows found]
  by_cases own : name = "singularmem_meta"
  · subst own
    rw [Function.update_self, List.forall₂_map_right_iff]
    refine List.forall₂_same.mpr fun row _ => ?_
    rw [KeepsValues, if_pos rfl, setVersion]
    split
    case isTrue marked =>
      right
      rcases row with _ | ⟨key, rest⟩
      · cases marked
      · exact congrArg some marked
    case isFalse => exact .inl rfl
  · rw [Function.update_of_ne own]
    exact List.forall₂_same.mpr fun row _ => KeepsValues.refl name row

/-- The statements of a migration before it writes the version. -/
theorem ddl_kept {catalog : Catalog} {ddl : List (Statement SqlValue)} (formed : catalog.WellFormed)
    (accepted : catalog.schema.accepts ddl) (grows : ddl.all Statement.grows)
    (unwritten : ddl.all fun statement => statement.writes ≠ some "singularmem_meta") :
    RowsKept catalog (catalog.run ddl) := by
  intro name _
  by_cases own : name = "singularmem_meta"
  · subst own
    rw [Catalog.run_rows_of_unwritten (by simpa using unwritten)]
    exact List.forall₂_same.mpr fun row _ => KeepsValues.refl _ row
  · refine (Catalog.run_grows formed accepted (by simpa using grows) name).imp ?_
    intro old new begins
    rwa [KeepsValues, if_neg own]

/-- **A migration leads to the next stage and keeps all values.** -/
theorem migration_run {catalog : Catalog} {source target : Nat} {ddl : List (Statement SqlValue)}
    {version : String} (staged : AtStage source catalog) (old : source ≠ 0) {read : String}
    (versioned : versionAt source = some read)
    (accepted : (schemaAt source).accepts (ddl ++ [setFormatVersion version]))
    (grows : ddl.all Statement.grows)
    (unwritten : ddl.all fun statement => statement.writes ≠ some "singularmem_meta")
    (schema : (ddl ++ [setFormatVersion version]).foldl Schema.apply (schemaAt source) = schemaAt target)
    (written : versionAt target = some version) (newer : target ≠ 0) :
    AtStage target (catalog.run (ddl ++ [setFormatVersion version])) ∧
      RowsKept catalog (catalog.run (ddl ++ [setFormatVersion version])) := by
  have oldMeta : catalog.schema.table "singularmem_meta" = some metaTable := by
    rw [staged.schema]
    exact metaTable_of_stage old
  have accepts : catalog.schema.accepts (ddl ++ [setFormatVersion version]) := by
    rw [staged.schema]
    exact accepted
  have finalSchema : (catalog.run (ddl ++ [setFormatVersion version])).schema = schemaAt target := by
    rw [Catalog.run_schema, staged.schema, schema]
  have newMeta : (catalog.run (ddl ++ [setFormatVersion version])).schema.table "singularmem_meta" =
      some metaTable := by
    rw [finalSchema]
    exact metaTable_of_stage newer
  have parts := accepts
  rw [Schema.accepts_append, Bool.and_eq_true] at parts
  have untouched : (catalog.run ddl).rows "singularmem_meta" = catalog.rows "singularmem_meta" :=
    Catalog.run_rows_of_unwritten (by simpa using unwritten)
  have last : catalog.run (ddl ++ [setFormatVersion version]) =
      (catalog.run ddl).next (setFormatVersion version) := by
    rw [Catalog.run_append]
    rfl
  have middleMeta : (catalog.run ddl).schema.table "singularmem_meta" = some metaTable := by
    rw [last] at newMeta
    exact newMeta
  refine ⟨⟨finalSchema, ?_, staged.formed.run accepts⟩, ?_⟩
  · have widths : ∀ row ∈ catalog.rows "singularmem_meta", row.length = 2 :=
      staged.formed.widths "singularmem_meta" metaTable oldMeta
    have reads := staged.version
    rw [readFormatVersion_eq oldMeta, versioned] at reads
    rw [readFormatVersion_eq newMeta, last, next_setFormatVersion_rows middleMeta, Function.update_self,
      untouched, findSome_setVersion widths reads, written]
  · rw [last]
    exact (ddl_kept staged.formed parts.1 grows unwritten).trans (setFormatVersion_kept middleMeta version)

/-- **A transaction that starts from its stage** leads to the next one and keeps all values. -/
theorem upgrade_run (upgrade : Upgrade) (now : String) {catalog : Catalog}
    (staged : AtStage upgrade.source catalog) :
    AtStage upgrade.target (catalog.run (upgrade.work now)) ∧
      RowsKept catalog (catalog.run (upgrade.work now)) := by
  have accepted := schemaAt_accepts upgrade now
  have schema := schemaAt_target upgrade now
  cases upgrade with
  | fresh =>
    have new := eq_empty_of_stage staged
    refine ⟨⟨?_, ?_, ?_⟩, ?_⟩
    · rw [Catalog.run_schema, staged.schema, schema]
    · rw [new]
      rfl
    · refine staged.formed.run ?_
      rw [staged.schema]
      exact accepted
    · rw [new]
      intro name occupied
      exact absurd rfl occupied
  | oneToTwo => exact migration_run staged (by decide) rfl accepted rfl rfl schema rfl (by decide)
  | twoToThree => exact migration_run staged (by decide) rfl accepted rfl rfl schema rfl (by decide)
  | threeToFour => exact migration_run staged (by decide) rfl accepted rfl rfl schema rfl (by decide)

end Singularmem.Core.Migration
