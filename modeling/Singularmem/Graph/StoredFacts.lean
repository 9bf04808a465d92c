import Singularmem.Core.StoredTimes
import Singularmem.Graph.Revisions
import Mathlib.Data.List.Forall2

/-!
# Facts as they are read back

A row whose instants lie in year 0 or later is read back as the fact it was written from,
and its validity window is compared as the instants are. A year before 0 breaks both: its
text is longer, sorts the other way, and is not parsed.
-/

namespace Singularmem.Graph

open Library Singularmem.Core

variable {platform : Platform} {tables : Tables}

/-- A column that holds no instant, or one from year 0 on. -/
def Dated (column : Option String) : Prop :=
  ∃ instant : Option Timestamp, (∀ time ∈ instant, time.Unsigned) ∧ column = instant.map toSql

/-- The instants of a row lie in year 0 or later. -/
structure RowDated (row : FactRow) : Prop where
  validFrom : Dated row.validFrom
  validTo : Dated row.validTo
  recordedAt : Dated (some row.recordedAt)

/-- The instants of a fact lie in year 0 or later. -/
structure Fact.Dated (fact : Fact) : Prop where
  validFrom : ∀ time ∈ fact.validFrom, time.Unsigned
  validTo : ∀ time ∈ fact.validTo, time.Unsigned
  recordedAt : fact.recordedAt.Unsigned

theorem Fact.Dated.toRow {fact : Fact} (dated : fact.Dated) : RowDated fact.toRow where
  validFrom := ⟨fact.validFrom, dated.validFrom, rfl⟩
  validTo := ⟨fact.validTo, dated.validTo, rfl⟩
  recordedAt := ⟨some fact.recordedAt, by rintro _ ⟨⟩; exact dated.recordedAt, rfl⟩

/-- A row of the table is read as this fact. -/
def Reads (platform : Platform) (tables : Tables) (row : FactRow) (fact : Fact) : Prop :=
  ∃ raw, joinNames tables row = some raw ∧ raw.intoFact platform = .ok fact

/-- A row is read as one fact only. -/
theorem Reads.unique {row : FactRow} {left right : Fact} (first : Reads platform tables row left)
    (second : Reads platform tables row right) : left = right := by
  obtain ⟨raw, joined, parsed⟩ := first
  obtain ⟨other, joinedAgain, parsedAgain⟩ := second
  obtain rfl : raw = other := Option.some.inj (joined.symm.trans joinedAgain)
  exact Except.ok.inj (parsed.symm.trans parsedAgain)

/-- An optional instant from year 0 on is read back. -/
theorem mapM_parsePoint (reads : platform.ReadsStored) {instant : Option Timestamp}
    (unsigned : ∀ time ∈ instant, time.Unsigned) :
    (instant.map toSql).mapM (parsePoint platform) = .ok instant := by
  cases instant with
  | none => rfl
  | some time =>
    rw [Option.map_some, Option.mapM_some, reads.parsePoint_unsigned (unsigned time rfl)]
    rfl

/-- **A dated row is parsed** into a fact that has its instants. -/
theorem intoFact_dated (reads : platform.ReadsStored) {raw : RawFact} {object : FactObject}
    {validFrom validTo : Option Timestamp} {recordedAt : Timestamp}
    (resolved : raw.object = .ok object) (start : raw.row.validFrom = validFrom.map toSql)
    (stop : raw.row.validTo = validTo.map toSql) (stamp : raw.row.recordedAt = toSql recordedAt)
    (startUnsigned : ∀ time ∈ validFrom, time.Unsigned)
    (stopUnsigned : ∀ time ∈ validTo, time.Unsigned) (stampUnsigned : recordedAt.Unsigned) :
    raw.intoFact platform = .ok ⟨raw.row.id, ⟨raw.row.subjectId, raw.subjectName⟩,
      raw.row.predicate, object, validFrom, validTo, raw.row.confidence.value,
      raw.row.sourceItemId, raw.row.scope, raw.row.supersedes, recordedAt⟩ := by
  rw [RawFact.intoFact, resolved, start, stop, stamp, mapM_parsePoint reads startUnsigned,
    mapM_parsePoint reads stopUnsigned, reads.parsePoint_unsigned stampUnsigned]
  rfl

/-- The object of a row that passed its check is there. -/
theorem object_resolves {raw : RawFact} (checked : factSchema.check raw.row) :
    ∃ object, raw.object = .ok object := by
  simp only [factSchema, Bool.and_eq_true] at checked
  obtain ⟨⟨one, _⟩, _⟩ := checked
  rw [RawFact.object]
  cases idCase : raw.row.objectId with
  | some id => exact ⟨_, rfl⟩
  | none =>
    cases valueCase : raw.row.objectValue with
    | some text => exact ⟨_, rfl⟩
    | none =>
      rw [idCase, valueCase] at one
      cases one

/-- A stored row is joined with the name of its subject. -/
theorem joinNames_stored {row : FactRow} (subject : tables.hasEntity row.subjectId) :
    ∃ raw, joinNames tables row = some raw ∧ raw.row = row := by
  obtain ⟨entity, found⟩ := Option.isSome_iff_exists.mp subject
  exact ⟨_, by rw [joinNames, entityNameOf, found]; rfl, rfl⟩

/-- The columns of a row that was read. -/
theorem joinNames_row {row : FactRow} {raw : RawFact} (joined : joinNames tables row = some raw) :
    raw.row = row := by
  obtain ⟨_, _, rfl⟩ := Option.map_eq_some_iff.mp joined
  rfl

/-- **A dated row is read back.** -/
theorem reads_of_dated (reads : platform.ReadsStored) {row : FactRow}
    (checked : factSchema.check row) (subject : tables.hasEntity row.subjectId)
    (dated : RowDated row) : ∃ fact, Reads platform tables row fact := by
  obtain ⟨raw, joined, rfl⟩ := joinNames_stored subject
  obtain ⟨object, resolved⟩ := object_resolves checked
  obtain ⟨validFrom, startUnsigned, start⟩ := dated.validFrom
  obtain ⟨validTo, stopUnsigned, stop⟩ := dated.validTo
  obtain ⟨recordedAt, stampUnsigned, stamp⟩ := dated.recordedAt
  cases recordedAt with
  | none => cases stamp
  | some recordedAt =>
    exact ⟨_, raw, joined, intoFact_dated reads resolved start stop (Option.some.inj stamp)
      startUnsigned stopUnsigned (stampUnsigned recordedAt rfl)⟩

/-- What is read has the row it was read from. -/
theorem Reads.toRow (readsStored : platform.ReadsStored) {row : FactRow} {fact : Fact}
    (checked : factSchema.check row) (dated : RowDated row)
    (reads : Reads platform tables row fact) : fact.toRow = row := by
  obtain ⟨raw, joined, parsed⟩ := reads
  obtain rfl := joinNames_row joined
  obtain ⟨object, resolved⟩ := object_resolves checked
  obtain ⟨validFrom, startUnsigned, start⟩ := dated.validFrom
  obtain ⟨validTo, stopUnsigned, stop⟩ := dated.validTo
  obtain ⟨recordedAt, stampUnsigned, stamp⟩ := dated.recordedAt
  have columns := (intoFact_returned checked parsed).2
  cases recordedAt with
  | none => cases stamp
  | some recordedAt =>
    have stamped := Option.some.inj stamp
    rw [intoFact_dated readsStored resolved start stop stamped startUnsigned stopUnsigned
      (stampUnsigned recordedAt rfl)] at parsed
    obtain rfl := Except.ok.inj parsed
    rw [← columns]
    simp only [Fact.toRow, FactRow.mk.injEq, true_and]
    exact ⟨start.symm, stop.symm, by rw [RealColumn.real_value], stamped.symm⟩

/-- Rows that can be read are selected, each as the fact it is read as. -/
theorem selectFacts_reads {rows : List FactRow}
    (each : ∀ row ∈ rows, ∃ fact, Reads platform tables row fact) :
    ∃ facts, selectFacts platform tables rows = .ok facts ∧
      List.Forall₂ (Reads platform tables) rows facts := by
  induction rows with
  | nil => exact ⟨[], rfl, .nil⟩
  | cons row rest inductionHypothesis =>
    obtain ⟨fact, reads⟩ := each row List.mem_cons_self
    obtain ⟨facts, selected, all⟩ :=
      inductionHypothesis fun other member => each other (List.mem_cons_of_mem row member)
    have first := reads
    obtain ⟨raw, joined, parsed⟩ := reads
    refine ⟨fact :: facts, ?_, .cons first all⟩
    rw [selectFacts] at selected ⊢
    rw [List.filterMap_cons_some joined, List.mapM_cons, parsed, selected]
    rfl

section Windows

variable {validFrom validTo : Option Timestamp} {row : FactRow}

/-- **The window of a dated row** is compared as its instants are, also with an instant before
year 0. -/
theorem windowWhere_dated (start : row.validFrom = validFrom.map toSql)
    (stop : row.validTo = validTo.map toSql) (startUnsigned : ∀ time ∈ validFrom, time.Unsigned)
    (stopUnsigned : ∀ time ∈ validTo, time.Unsigned) (time : Timestamp) :
    windowWhere (some time) row = true ↔
      (∀ first ∈ validFrom, first ≤ time) ∧ ∀ last ∈ validTo, time < last := by
  rw [windowWhere, Bool.and_eq_true, start, stop]
  refine and_congr ?_ ?_
  · cases validFrom with
    | none => simp
    | some first =>
      have order := (Timestamp.toSql_lt_iff time first).mpr (.inr (.inl (startUnsigned first rfl)))
      have bound : toSql first ≤ toSql time ↔ first ≤ time :=
        String.not_lt.symm.trans ((not_congr order).trans Int.not_lt)
      simpa using bound
  · cases validTo with
    | none => simp
    | some last =>
      simpa using (Timestamp.toSql_lt_iff time last).mpr (.inr (.inl (stopUnsigned last rfl)))

end Windows

/-- **Stored instants.** The text of an instant has thirty characters, sorts before exactly
the texts of later instants and is read back, exactly where its year is 0 or later. Where all
instants are, every window is compared as they are and every fact is read back. -/
theorem stored_instants_iff (reads : platform.ReadsStored) :
    (∀ left right : Timestamp,
      ((toSql left < toSql right ↔ left < right) ∧ (toSql left).length = 30 ∧
        parsePoint platform (toSql left) = .ok left) ↔ left.Unsigned) ∧
    ∀ fact : Fact, fact.Dated →
      (∀ time : Timestamp, time.Unsigned → (windowWhere (some time) fact.toRow = true ↔
        (∀ first ∈ fact.validFrom, first ≤ time) ∧ ∀ last ∈ fact.validTo, time < last)) ∧
      ∀ subjectName objectName, ∃ found,
        RawFact.intoFact platform ⟨fact.toRow, subjectName, objectName⟩ = .ok found ∧
          found.validFrom = fact.validFrom ∧ found.validTo = fact.validTo ∧
            found.recordedAt = fact.recordedAt := by
  refine ⟨fun left right => ⟨fun ⟨_, _, read⟩ => (reads.parsePoint_iff left).mp read, ?_⟩, ?_⟩
  · intro unsigned
    refine ⟨(Timestamp.toSql_lt_iff left right).mpr (.inl unsigned), ?_,
      reads.parsePoint_unsigned unsigned⟩
    rw [Timestamp.toSql_length, if_pos unsigned]
  · intro fact dated
    refine ⟨fun time _ => windowWhere_dated rfl rfl dated.validFrom dated.validTo time,
      fun subjectName objectName => ?_⟩
    obtain ⟨object, resolved⟩ : ∃ object,
        RawFact.object ⟨fact.toRow, subjectName, objectName⟩ = .ok object := by
      cases given : fact.object with
      | entity ref => exact ⟨.entity ⟨ref.id, objectName.getD ""⟩, by
          simp [RawFact.object, Fact.toRow, given, ObjectColumns.of]⟩
      | value text => exact ⟨.value text, by
          simp [RawFact.object, Fact.toRow, given, ObjectColumns.of]⟩
    exact ⟨_, intoFact_dated reads resolved rfl rfl rfl dated.validFrom dated.validTo
      dated.recordedAt, rfl, rfl, rfl⟩

theorem yearMinusFour_inRange : -377705023201000000000 ≤ (-62293000000000000000 : Int) ∧
    (-62293000000000000000 : Int) ≤ 253402207200999999999 := by decide

theorem yearMinusFive_inRange : -377705023201000000000 ≤ (-62325000000000000000 : Int) ∧
    (-62325000000000000000 : Int) ≤ 253402207200999999999 := by decide

/-- An instant of the year -5, and one of the year after. -/
def earlyInstant (later : Bool) : Timestamp :=
  if later then ⟨-62293000000000000000, yearMinusFour_inRange⟩
  else ⟨-62325000000000000000, yearMinusFive_inRange⟩

/-- A fact that is valid from the epoch on. -/
def epochFact : Fact :=
  ⟨⟨⟨0⟩⟩, ⟨⟨⟨1⟩⟩, "a"⟩, "is", .value "b", some .epoch, none, .one, none, none, none, .epoch⟩

/-- The epoch is stored faithfully, and the fact is valid there. -/
theorem epoch_is_stored_faithfully :
    (toSql .epoch).length = 30 ∧ parsePoint .unsignedYears (toSql .epoch) = .ok .epoch ∧
      windowWhere (some .epoch) epochFact.toRow = true := by
  obtain ⟨texts, facts⟩ := stored_instants_iff Platform.unsignedYears_readsStored
  have unsigned : Timestamp.epoch.Unsigned := by decide +kernel
  have stored := (texts .epoch .epoch).mpr unsigned
  have dated : epochFact.Dated := by
    refine ⟨?_, ?_, unsigned⟩
    · rintro _ ⟨⟩
      exact unsigned
    · rintro _ ⟨⟩
  refine ⟨stored.2.1, stored.2.2, ((facts epochFact dated).1 .epoch unsigned).mpr ⟨?_, ?_⟩⟩
  · rintro _ ⟨⟩
    exact Int.le_refl _
  · rintro _ ⟨⟩

/-- Before year 0 the text order is reversed, the text is longer and it is not read back. -/
theorem early_instants_are_stored_unfaithfully :
    earlyInstant false < earlyInstant true ∧
      ¬ toSql (earlyInstant false) < toSql (earlyInstant true) ∧
      (toSql (earlyInstant false)).length = 31 ∧
      ¬ ∀ left right : Timestamp,
        (toSql left < toSql right ↔ left < right) ∧ (toSql left).length = 30 ∧
          parsePoint .unsignedYears (toSql left) = .ok left := by
  refine ⟨by decide +kernel, by decide +kernel, by decide +kernel, fun all => ?_⟩
  have length := (all (earlyInstant false) (earlyInstant true)).2.1
  exact absurd length (by decide +kernel)

end Singularmem.Graph
