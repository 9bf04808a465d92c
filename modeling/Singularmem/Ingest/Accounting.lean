import Singularmem.Ingest.Batches
import Singularmem.Ingest.SharedStore

/-!
# What a run among other writers accounts for

Every result the source yields is counted once, on every path; the rows the run inserted are
as many as it reports; and a candidate that was neither rejected nor repeated in the run is
stored under its `external_id`, whoever wrote it.
-/

namespace Singularmem.Ingest

open Library Singularmem.Core
open Effect hiding ofExcept

variable {platform : Platform} {readings : Readings}

namespace Inserted

variable {before middle after : Tables}

theorem refl (tables : Tables) : Inserted tables tables :=
  ⟨fun row member => ⟨row, member, rfl, .inl rfl⟩, fun _ => id⟩

theorem trans (first : Inserted before middle) (second : Inserted middle after) :
    Inserted before after := by
  refine ⟨fun row member => ?_, fun key held => second.keys key (first.keys key held)⟩
  obtain ⟨later, laterIn, sameId, kept⟩ := first.rows row member
  obtain ⟨last, lastIn, stillId, still⟩ := second.rows later laterIn
  refine ⟨last, lastIn, stillId.trans sameId, ?_⟩
  rcases still with same | gone
  · rw [same]
    exact kept
  · exact .inr gone

/-- Rows put on the shelf. -/
theorem of_append {added : List Shelved} (shelf : after.shelf = before.shelf ++ added) :
    Inserted before after := by
  refine ⟨fun row member => ?_, ?_⟩
  · have shelved : (row, tagsOf before row.id) ∈ after.shelf := by
      rw [shelf]
      exact List.mem_append_left _ (List.mem_map_of_mem member)
    obtain ⟨later, laterIn, same⟩ := List.mem_map.mp shelved
    exact ⟨later, laterIn, congrArg (fun known => known.1.id) same,
      .inl (congrArg (fun known => known.1.externalId) same)⟩
  · rintro key ⟨shelved, member, carried⟩
    exact ⟨shelved, shelf ▸ List.mem_append_left _ member, carried⟩

end Inserted

/-- A row with this id carries the key, or none any more. -/
def Held (key : String) (id : ItemId) (tables : Tables) : Prop :=
  ∃ row ∈ tables.items.rows, row.id = id ∧ (row.externalId = some key ∨ row.externalId = none)

/-- It still does after insertions. -/
theorem Held.later {key : String} {id : ItemId} {before after : Tables} (held : Held key id before)
    (inserted : Inserted before after) : Held key id after := by
  obtain ⟨row, member, sameId, carried⟩ := held
  obtain ⟨later, laterIn, stillId, kept⟩ := inserted.rows row member
  refine ⟨later, laterIn, stillId.trans sameId, ?_⟩
  rcases kept with same | gone
  · rw [same]
    exact carried
  · exact .inr gone

/-- A row put on the shelf in place of one that carried its key. -/
theorem Inserted.of_replaced {before after : Tables} {replaced : ItemId} {key : String}
    {new : Shelved} (held : Held key replaced before) (given : new.1.externalId = some key)
    (shelf : after.shelf = before.shelf.map (forget replaced) ++ [new]) :
    Inserted before after ∧ after.carries key := by
  have last : new ∈ after.shelf := by
    rw [shelf]
    exact List.mem_append_right _ (List.mem_singleton.mpr rfl)
  refine ⟨⟨fun row member => ?_, ?_⟩, new, last, given⟩
  · have shelved : forget replaced (row, tagsOf before row.id) ∈ after.shelf := by
      rw [shelf]
      exact List.mem_append_left _ (List.mem_map_of_mem (List.mem_map_of_mem member))
    obtain ⟨later, laterIn, same⟩ := List.mem_map.mp shelved
    obtain rfl : later = (forget replaced (row, tagsOf before row.id)).1 := congrArg Prod.fst same
    refine ⟨_, laterIn, by simp, ?_⟩
    simp only [forget]
    split
    · exact .inr rfl
    · exact .inl rfl
  · rintro other ⟨shelved, member, carried⟩
    by_cases same : shelved.1.id = replaced
    · obtain ⟨row, rowIn, rowId, keyed⟩ := held
      have known : (row, tagsOf before row.id) ∈ before.shelf := List.mem_map_of_mem rowIn
      have unique : (row, tagsOf before row.id) = shelved :=
        shelf_id_unique known member (rowId.trans same.symm)
      rw [← unique] at carried
      have carried : row.externalId = some other := carried
      rcases keyed with some | none
      · rw [carried] at some
        obtain rfl : other = key := Option.some.inj some
        exact ⟨new, last, given⟩
      · rw [carried] at none
        cases none
    · have kept : shelved ∈ after.shelf := by
        rw [shelf]
        refine List.mem_append_left _ (List.mem_map.mpr ⟨shelved, member, ?_⟩)
        rw [forget, if_neg same]
      exact ⟨shelved, kept, carried⟩

/-- Statements of the run and insertions of others, with the number of rows the run
inserted. -/
structure Advance (before after : SharedStore) (rows : Nat) : Prop where
  inserted : Inserted before.tables after.tables
  written : after.written.length = before.written.length + rows

theorem Advance.refl (shared : SharedStore) : Advance shared shared 0 := ⟨.refl _, rfl⟩

theorem Advance.trans {before middle after : SharedStore} {first second : Nat}
    (early : Advance before middle first) (late : Advance middle after second) :
    Advance before after (first + second) :=
  ⟨early.inserted.trans late.inserted, by rw [late.written, early.written, Nat.add_assoc]⟩

/-- The turn of the others. -/
theorem interrupted_advance (shared : SharedStore) : Advance shared shared.interrupted 0 := by
  rw [SharedStore.interrupted]
  split
  · exact .refl shared
  case h_2 insertion _ _ => exact ⟨insertion.inserted _, rfl⟩

/-- A statement is the turn of the others and a call. -/
theorem exec_statement {α : Type} (call : StoreCall α) (shared : SharedStore) :
    exec (statement call) shared =
      ((exec call shared.interrupted.store).1,
        shared.interrupted.record (exec call shared.interrupted.store).2) := by
  rw [statement, exec_bind_ok (exec_modify _ _), exec_zoom]

/-- A statement that put something on the shelf. -/
theorem recorded_advance {shared : SharedStore} {store : Store} {count : Nat}
    (inserted : Inserted shared.interrupted.tables store.database.tables)
    (grown : store.database.tables.shelf.length = shared.interrupted.tables.shelf.length + count) :
    Advance shared (shared.interrupted.record store) count := by
  have recorded : Advance shared.interrupted (shared.interrupted.record store) count := by
    refine ⟨inserted, ?_⟩
    simp only [Tables.shelf, List.length_map] at grown
    simp [SharedStore.record, grown]
  have advance := (interrupted_advance shared).trans recorded
  rwa [Nat.zero_add] at advance

/-- A statement that changed nothing. -/
theorem recorded_nothing {shared : SharedStore} {store : Store}
    (same : store = shared.interrupted.store) :
    Advance shared (shared.interrupted.record store) 0 := by
  subst same
  exact recorded_advance (.refl _) rfl

/-- A statement that read. -/
theorem reading_returned {α : Type} {read : Tables → Except Error α} {shared after : SharedStore}
    {value : α} (returned : exec (reading read) shared = (.ok value, after)) :
    Advance shared after 0 ∧ read after.tables = .ok value := by
  have ran : exec (do
      let store ← get
      Effect.ofExcept (read store.database.tables)) shared.interrupted.store =
      (read shared.interrupted.tables, shared.interrupted.store) := by
    rw [exec_bind_ok (exec_get _), exec_ofExcept]
  rw [reading, exec_statement, ran] at returned
  obtain ⟨found, rfl⟩ := Prod.mk.inj returned
  exact ⟨recorded_nothing rfl, found⟩

/-- The keys that were found to exist. -/
theorem existingExternalIds_returned {ids found : List String} {shared after : SharedStore}
    (returned : exec (Shared.existingExternalIds ids) shared = (.ok found, after)) :
    Advance shared after 0 ∧ ∀ key ∈ found, after.tables.carries key := by
  induction ids generalizing shared found with
  | nil =>
    cases returned
    exact ⟨.refl _, by simp⟩
  | cons id rest inductionHypothesis =>
    obtain ⟨hit, middle, asked, returned⟩ := exec_bind_returned returned
    obtain ⟨first, answered⟩ := reading_returned asked
    obtain ⟨others, final, askedRest, returned⟩ := exec_bind_returned returned
    cases returned
    obtain ⟨later, present⟩ := inductionHypothesis askedRest
    refine ⟨first.trans later, fun key member => ?_⟩
    cases hit with
    | false => exact present key member
    | true =>
      rcases List.mem_cons.mp member with rfl | inRest
      · obtain ⟨row, indexed⟩ := Option.isSome_iff_exists.mp (Except.ok.inj answered)
        obtain ⟨stored, carried⟩ := find_externalId.mp indexed
        exact later.inserted.keys key ⟨_, List.mem_map_of_mem stored, carried⟩
      · exact present key inRest

/-- The item that was found held the key. -/
theorem getByExternalId_returned {key : String} {old : Option Item} {shared after : SharedStore}
    (returned : exec (Shared.getByExternalId platform key) shared = (.ok old, after)) :
    Advance shared after 0 ∧ ∀ item ∈ old, Held key item.id after.tables := by
  obtain ⟨found, middle, asked, returned⟩ := exec_bind_returned returned
  obtain ⟨first, answered⟩ := reading_returned asked
  cases found with
  | none =>
    cases returned
    exact ⟨first, by simp⟩
  | some row =>
    obtain ⟨stored, carried⟩ := find_externalId.mp (Except.ok.inj answered)
    obtain ⟨item, loaded, rfl⟩ := map_returned returned
    obtain ⟨second, read⟩ := reading_returned loaded
    refine ⟨first.trans second, fun _ given => ?_⟩
    cases given
    rw [loadItem_id read]
    exact Held.later ⟨row, stored, rfl, .inl carried⟩ second.inserted

/-- A replacement that returned. -/
theorem replacing_returned {env : Env} {stored : Item} {submitted : NewItem} {key : String}
    {replaced : ItemId} {shared after : SharedStore} (given : submitted.externalId = some key)
    (held : Held key replaced shared.tables)
    (returned : exec (statement (ingestReplacing platform env submitted replaced)) shared =
      (.ok stored, after)) :
    Advance shared after 1 ∧ after.tables.carries key := by
  rw [exec_statement] at returned
  obtain ⟨outcome, rfl⟩ := Prod.mk.inj returned
  obtain ⟨_, _, _, _, _, validated, _, shelf⟩ := ingestReplacing_shelves (Prod.ext outcome rfl)
  have held := held.later (interrupted_advance shared).inserted
  obtain ⟨inserted, carries⟩ := Inserted.of_replaced held given shelf
  refine ⟨recorded_advance inserted ?_, carries⟩
  rw [shelf, List.length_append, List.length_map, List.length_singleton]

/-- Each submission of a bulk call is put on the shelf. -/
theorem shelvedEach_length {env : Env} (draw : Nat) (pairs : List (NewItem × Validated)) :
    (shelvedEach platform env draw pairs).length = pairs.length := by
  induction pairs generalizing draw with
  | nil => rfl
  | cons pair rest inductionHypothesis =>
    rw [shelvedEach, List.length_cons, List.length_cons, inductionHypothesis]

/-- A call that threw leaves the store as it was. -/
theorem attempted {α : Type} (call : StoreCall α) (shared : SharedStore) :
    exec (statement (attempt call)) shared =
      (.ok (exec call shared.interrupted.store).1,
        shared.interrupted.record (exec call shared.interrupted.store).2) := by
  rw [exec_statement, exec_attempt]

/-- A candidate that was written alone is stored. -/
theorem written_alone {env : Env} {item : NewItem} {stored : Item} {shared after : SharedStore}
    (returned : exec (statement (attempt (ingest platform env item))) shared =
      (.ok (.ok stored), after)) :
    Advance shared after 1 ∧ ∀ key ∈ item.externalId, after.tables.carries key := by
  rw [attempted] at returned
  obtain ⟨outcome, rfl⟩ := Prod.mk.inj returned
  obtain ⟨_, _, _, _, validated, _, shelf⟩ :=
    ingest_shelves (Prod.ext (Except.ok.inj outcome) rfl)
  refine ⟨recorded_advance (.of_append shelf) ?_, fun key given => ?_⟩
  · rw [shelf, List.length_append, List.length_singleton]
  · exact ⟨_, shelf ▸ List.mem_append_right _ (List.mem_singleton.mpr rfl), given⟩

/-- A candidate that was rejected alone does not validate, or the clock reads a time before
1970. -/
theorem rejected_alone {env : Env} {item : NewItem} {field reason : String}
    {shared after : SharedStore}
    (returned : exec (statement (attempt (ingest platform env item))) shared =
      (.ok (.error (.validation field reason)), after)) :
    Advance shared after 0 ∧ (¬ valid platform item ∨ ¬ env.Recent) := by
  rw [attempted] at returned
  obtain ⟨outcome, rfl⟩ := Prod.mk.inj returned
  have threw : exec (ingest platform env item) shared.interrupted.store =
      (.error (.validation field reason), (exec (ingest platform env item)
        shared.interrupted.store).2) := Prod.ext (Except.ok.inj outcome) rfl
  refine ⟨recorded_nothing (writing_error threw), ?_⟩
  cases writable : shared.interrupted.store.readOnly with
  | true =>
    have locked := @writing_readOnly _ "ingest" "committing ingest transaction"
      (ingestInTx platform env item) _ writable
    rw [ingest, locked] at outcome
    cases outcome
  | false =>
    rw [invalid_iff]
    exact ingest_threw_validation writable threw

/-- A batch that was written is stored. -/
theorem written_batch {env : Env} {batch : List Candidate} {stored : List Item}
    {store : Store} {shared : SharedStore}
    (returned : exec (ingestMany platform env (batch.map Prod.fst)) shared.interrupted.store =
      (.ok stored, store)) :
    Advance shared (shared.interrupted.record store) batch.length ∧ stored.length = batch.length ∧
      ∀ candidate ∈ batch, ∀ key ∈ candidate.1.externalId, store.database.tables.carries key := by
  obtain ⟨_, _, _, count, validated, accepted, shelf, _⟩ := ingestMany_shelves returned
  rw [List.length_map] at count
  have length := mapM_returned_length accepted
  rw [List.length_map] at length
  refine ⟨recorded_advance (.of_append shelf) ?_, count, fun candidate member key given => ?_⟩
  · rw [shelf, List.length_append, shelvedEach_length, List.length_zip, List.length_map, length,
      Nat.min_self]
  · obtain ⟨found, pairIn, _⟩ := mapM_returned_each accepted (List.mem_map_of_mem member)
    obtain ⟨made, inShelf⟩ := @shelvedEach_mem platform env 0 _ _ pairIn
    exact ⟨_, shelf ▸ List.mem_append_right _ inShelf, given⟩

/-- How many results a report has counted. -/
def Report.counted (report : Report) : Nat :=
  report.ingested + report.skippedExisting + report.failed

/-- What writing candidates accounts for. Those that were rejected could not be written. -/
structure Handled (platform : Platform) (readings : Readings) (before after : SharedStore)
    (report final : Report) (handled rejected : List Candidate) : Prop where
  inserted : Inserted before.tables after.tables
  written : after.written.length + report.ingested = before.written.length + final.ingested
  counted : final.counted = report.counted + handled.length
  failed : final.failed = report.failed + rejected.length
  sublist : rejected.Sublist handled
  refused : ∀ candidate ∈ rejected,
    ¬ valid platform candidate.1 ∨ ¬ (readings.alone candidate.2).Recent
  present : ∀ candidate ∈ handled, candidate ∉ rejected → ∀ key ∈ candidate.1.externalId,
    after.tables.carries key

namespace Handled

variable {before middle after : SharedStore} {report between final : Report}

theorem nil (shared : SharedStore) : Handled platform readings shared shared report report [] [] :=
  ⟨.refl _, rfl, rfl, rfl, .slnil, by simp, by simp⟩

/-- One batch after another. -/
theorem append {first second rejected others : List Candidate}
    (early : Handled platform readings before middle report between first rejected)
    (late : Handled platform readings middle after between final second others) :
    Handled platform readings before after report final (first ++ second) (rejected ++ others) := by
  refine ⟨early.inserted.trans late.inserted, ?_, ?_, ?_, early.sublist.append late.sublist, ?_, ?_⟩
  · have first := early.written
    have second := late.written
    omega
  · rw [late.counted, early.counted, List.length_append, Nat.add_assoc]
  · rw [late.failed, early.failed, List.length_append, Nat.add_assoc]
  · exact fun candidate member => (List.mem_append.mp member).elim (early.refused candidate)
      (late.refused candidate)
  · intro candidate member kept key given
    rw [List.mem_append, not_or] at kept
    rcases List.mem_append.mp member with inFirst | inSecond
    · exact late.inserted.keys key (early.present candidate inFirst kept.1 key given)
    · exact late.present candidate inSecond kept.2 key given

/-- Candidates that were all written. -/
theorem of_written {batch : List Candidate} {count : Nat} (same : count = batch.length)
    (advance : Advance before after batch.length)
    (present : ∀ candidate ∈ batch, ∀ key ∈ candidate.1.externalId, after.tables.carries key) :
    Handled platform readings before after report
      { report with ingested := report.ingested + count } batch [] := by
  refine ⟨advance.inserted, ?_, ?_, rfl, List.nil_sublist _, by simp, fun candidate member _ =>
    present candidate member⟩
  · dsimp only
    rw [advance.written, same, Nat.add_assoc, Nat.add_comm batch.length]
  · dsimp only [Report.counted]
    omega

/-- A candidate that was rejected. -/
theorem of_rejected {candidate : Candidate} (advance : Advance before after 0)
    (refused : ¬ valid platform candidate.1 ∨ ¬ (readings.alone candidate.2).Recent) :
    Handled platform readings before after report
      { report with failed := report.failed + 1 } [candidate] [candidate] := by
  refine ⟨advance.inserted, ?_, ?_, rfl, List.Sublist.refl _, ?_, fun other member kept =>
    absurd member kept⟩
  · rw [advance.written, Nat.add_zero]
  · simp only [Report.counted, List.length_singleton]
    omega
  · intro other member
    rw [List.mem_singleton.mp member]
    exact refused

/-- Nothing was inserted before. -/
theorem since {batch rejected : List Candidate}
    (handled : Handled platform readings middle after report final batch rejected)
    (nothing : Advance before middle 0) :
    Handled platform readings before after report final batch rejected := by
  have written := handled.written
  rw [nothing.written] at written
  exact ⟨nothing.inserted.trans handled.inserted, written, handled.counted, handled.failed,
    handled.sublist, handled.refused, handled.present⟩

end Handled

/-- Writing candidates one by one accounts for them. -/
theorem writeSingly_handled {batch : List Candidate} {report final : Report}
    {shared after : SharedStore}
    (returned : exec (Shared.writeSingly platform readings batch report) shared = (.ok final, after)) :
    ∃ rejected, Handled platform readings shared after report final batch rejected := by
  induction batch generalizing report shared with
  | nil =>
    cases returned
    exact ⟨[], .nil _⟩
  | cons candidate rest inductionHypothesis =>
    obtain ⟨outcome, middle, attempted, returned⟩ := exec_bind_returned returned
    split at returned
    case h_1 stored =>
      obtain ⟨advance, present⟩ := written_alone attempted
      obtain ⟨rejected, later⟩ := inductionHypothesis returned
      have first : Handled platform readings shared middle report _ [candidate] [] :=
        .of_written rfl advance fun other member => List.mem_singleton.mp member ▸ present
      exact ⟨_, first.append later⟩
    case h_2 field reason =>
      obtain ⟨advance, refused⟩ := rejected_alone attempted
      obtain ⟨rejected, later⟩ := inductionHypothesis returned
      have first : Handled platform readings shared middle report _ [candidate] [candidate] :=
        .of_rejected advance refused
      exact ⟨_, first.append later⟩
    case h_3 => cases returned

/-- A second attempt without the keys that others took accounts for a batch. -/
theorem retryBatch_handled {number : Nat} {batch : List Candidate} {report final : Report}
    {shared after : SharedStore}
    (returned : exec (Shared.retryBatch platform readings number batch report) shared =
      (.ok final, after)) :
    Handled platform readings shared after report final batch [] := by
  obtain ⟨nowExisting, middle, asked, returned⟩ := exec_bind_returned returned
  obtain ⟨first, taken⟩ := existingExternalIds_returned asked
  obtain ⟨written, last, wrote, returned⟩ := exec_bind_returned returned
  cases returned
  rw [exec_statement] at wrote
  obtain ⟨outcome, rfl⟩ := Prod.mk.inj wrote
  obtain ⟨advance, count, present⟩ := written_batch (Prod.ext outcome rfl)
  have fewer := List.length_filter_le (fun candidate : Candidate =>
    !(candidate.1.externalId.any fun key => key ∈ nowExisting)) batch
  refine ⟨first.inserted.trans advance.inserted, ?_, ?_, rfl, List.nil_sublist _, by simp, ?_⟩
  · dsimp only
    rw [advance.written, first.written, count]
    omega
  · dsimp only [Report.counted]
    omega
  · intro candidate member _ key given
    by_cases known : key ∈ nowExisting
    · exact advance.inserted.keys key (taken key known)
    · refine present candidate (List.mem_filter.mpr ⟨member, ?_⟩) key given
      have given : candidate.1.externalId = some key := given
      simp [given, known]

/-- Writing a batch accounts for it. -/
theorem writeBatch_handled {number : Nat} {batch : List Candidate} {report final : Report}
    {shared after : SharedStore}
    (returned : exec (Shared.writeBatch platform readings number batch report) shared =
      (.ok final, after)) :
    ∃ rejected, Handled platform readings shared after report final batch rejected := by
  obtain ⟨outcome, middle, wrote, returned⟩ := exec_bind_returned returned
  rw [attempted] at wrote
  obtain ⟨same, rfl⟩ := Prod.mk.inj wrote
  have same := Except.ok.inj same
  cases outcome with
  | ok stored =>
    cases returned
    obtain ⟨advance, count, present⟩ := written_batch (Prod.ext same rfl)
    exact ⟨[], .of_written count advance present⟩
  | error error =>
    have threw : exec (ingestMany platform (readings.batch number) (batch.map Prod.fst))
      shared.interrupted.store = (.error error, _) := Prod.ext same rfl
    have nothing := recorded_nothing (writing_error threw)
    split at returned
    case h_1 succeeded => cases succeeded
    case h_2 => exact ⟨[], (retryBatch_handled returned).since nothing⟩
    case h_3 =>
      obtain ⟨rejected, handled⟩ := writeSingly_handled returned
      exact ⟨rejected, handled.since nothing⟩
    case h_4 => cases returned

/-- Writing batches accounts for them. -/
theorem writeEach_handled {numbered : List (List Candidate × Nat)} {report final : Report}
    {shared after : SharedStore}
    (returned : exec (Shared.writeEach platform readings numbered report) shared = (.ok final, after)) :
    ∃ rejected, Handled platform readings shared after report final (numbered.flatMap Prod.fst)
      rejected := by
  induction numbered generalizing report shared with
  | nil =>
    cases returned
    exact ⟨[], .nil _⟩
  | cons pair rest inductionHypothesis =>
    obtain ⟨between, middle, wrote, returned⟩ := exec_bind_returned returned
    obtain ⟨rejected, first⟩ := writeBatch_handled wrote
    obtain ⟨others, later⟩ := inductionHypothesis returned
    exact ⟨_, first.append later⟩

/-- What deciding about the candidates accounts for. -/
structure Weighed (before after : SharedStore) (report final : Report) (candidates : List Candidate)
    (seen : List String) (fresh : List Candidate) : Prop where
  inserted : Inserted before.tables after.tables
  written : after.written.length + report.ingested = before.written.length + final.ingested
  counted : final.counted + fresh.length = report.counted + candidates.length
  failed : final.failed = report.failed
  sublist : fresh.Sublist (firsts seen candidates)
  present : ∀ candidate ∈ firsts seen candidates, candidate ∉ fresh →
    ∀ key ∈ candidate.1.externalId, after.tables.carries key

namespace Weighed

variable {before middle after : SharedStore} {report between final : Report} {candidate : Candidate}
  {rest fresh : List Candidate} {seen : List String} {key : String}

/-- A candidate without a key is new. -/
theorem keyless (given : candidate.1.externalId = none)
    (later : Weighed before after report final rest seen fresh) :
    Weighed before after report final (candidate :: rest) seen (candidate :: fresh) := by
  refine ⟨later.inserted, later.written, ?_, later.failed, ?_, ?_⟩
  · rw [List.length_cons, List.length_cons, ← Nat.add_assoc, later.counted, Nat.add_assoc]
  · rw [firsts_keyless given]
    exact later.sublist.cons_cons candidate
  · rw [firsts_keyless given]
    intro other member kept
    rw [List.mem_cons, not_or] at kept
    exact later.present other ((List.mem_cons.mp member).resolve_left kept.1) kept.2

/-- A candidate whose key occurred before is skipped. -/
theorem repeated (given : candidate.1.externalId = some key) (duplicate : key ∈ seen)
    (later : Weighed before after
      { report with skippedExisting := report.skippedExisting + 1 } final rest seen fresh) :
    Weighed before after report final (candidate :: rest) seen fresh := by
  refine ⟨later.inserted, later.written, ?_, later.failed, ?_, ?_⟩
  · rw [later.counted, List.length_cons]
    dsimp only [Report.counted]
    omega
  · rw [firsts_seen given duplicate]
    exact later.sublist
  · rw [firsts_seen given duplicate]
    exact later.present

/-- A candidate with a new key is new. -/
theorem new (given : candidate.1.externalId = some key) (unseen : key ∉ seen)
    (later : Weighed before after report final rest (key :: seen) fresh) :
    Weighed before after report final (candidate :: rest) seen (candidate :: fresh) := by
  refine ⟨later.inserted, later.written, ?_, later.failed, ?_, ?_⟩
  · rw [List.length_cons, List.length_cons, ← Nat.add_assoc, later.counted, Nat.add_assoc]
  · rw [firsts_new given unseen]
    exact later.sublist.cons_cons candidate
  · rw [firsts_new given unseen]
    intro other member kept
    rw [List.mem_cons, not_or] at kept
    exact later.present other ((List.mem_cons.mp member).resolve_left kept.1) kept.2

/-- A candidate whose key is stored is skipped, or replaces what is stored. -/
theorem stored {rows : Nat} (given : candidate.1.externalId = some key) (unseen : key ∉ seen)
    (advance : Advance before middle rows) (carried : middle.tables.carries key)
    (ingested : between.ingested = report.ingested + rows)
    (counted : between.counted = report.counted + 1) (failed : between.failed = report.failed)
    (later : Weighed middle after between final rest (key :: seen) fresh) :
    Weighed before after report final (candidate :: rest) seen fresh := by
  refine ⟨advance.inserted.trans later.inserted, ?_, ?_, later.failed.trans failed, ?_, ?_⟩
  · have first := advance.written
    have second := later.written
    omega
  · rw [later.counted, counted, List.length_cons]
    omega
  · rw [firsts_new given unseen]
    exact later.sublist.cons candidate
  · rw [firsts_new given unseen]
    intro other member kept otherKey otherGiven
    rcases List.mem_cons.mp member with rfl | inRest
    · rw [given] at otherGiven
      cases otherGiven
      exact later.inserted.keys key carried
    · exact later.present other inRest kept otherKey otherGiven

end Weighed

/-- Deciding about the candidates accounts for them, where the keys that were found to exist
are stored. -/
theorem sift_weighed {existing : List String} {considered : List Candidate} {seen : List String}
    {report final : Report} {fresh : List Candidate} {shared after : SharedStore}
    (known : ∀ key ∈ existing, shared.tables.carries key)
    (returned : exec (Shared.sift platform readings existing false considered seen report) shared =
      (.ok (fresh, final), after)) :
    Weighed shared after report final considered seen fresh := by
  induction considered generalizing seen report fresh final shared with
  | nil =>
    cases returned
    exact ⟨.refl _, rfl, rfl, rfl, .slnil, by simp [firsts]⟩
  | cons candidate rest inductionHypothesis =>
    rw [Shared.sift] at returned
    split at returned
    case h_1 given =>
      obtain ⟨⟨others, last⟩, final, sifted, returned⟩ := exec_bind_returned returned
      cases returned
      exact .keyless given (inductionHypothesis known sifted)
    case h_2 key given =>
      split at returned
      case isTrue duplicate => exact .repeated given duplicate (inductionHypothesis known returned)
      case isFalse unseen =>
        split at returned
        case isTrue absent =>
          obtain ⟨⟨others, last⟩, final, sifted, returned⟩ := exec_bind_returned returned
          cases returned
          exact .new given unseen (inductionHypothesis known sifted)
        case isFalse present =>
          obtain ⟨old, middle, read, returned⟩ := exec_bind_returned returned
          obtain ⟨advance, held⟩ := getByExternalId_returned read
          have carried := advance.inserted.keys key (known key (by simpa using present))
          have still := fun other member => advance.inserted.keys other (known other member)
          split at returned
          case h_1 item chosen =>
            obtain ⟨_, last, replaced, returned⟩ := exec_bind_returned returned
            obtain ⟨stored, replaced, _⟩ := map_returned replaced
            have held := held item (Option.filter_eq_some_iff.mp chosen).1
            obtain ⟨second, carried⟩ := replacing_returned given held replaced
            have later := inductionHypothesis
              (fun other member => second.inserted.keys other (still other member)) returned
            refine .stored given unseen (advance.trans second) carried ?_ ?_ ?_ later
            · rfl
            · dsimp only [Report.counted]
              omega
            · rfl
          case h_2 =>
            have later := inductionHypothesis still returned
            refine .stored given unseen advance carried ?_ ?_ ?_ later
            · rfl
            · dsimp only [Report.counted]
              omega
            · rfl

/-- Every result is a candidate or an error. -/
theorem candidates_and_errors (source : Source) :
    (candidates source).length + sourceErrors source = source.items.length := by
  rw [candidates, List.length_zipIdx, sourceErrors]
  induction source.items with
  | nil => rfl
  | cons yielded rest inductionHypothesis =>
    cases yielded with
    | error text =>
      simp only [Except.toOption] at inductionHypothesis
      simp only [List.filterMap_cons, List.filter_cons, Except.toOption, Option.map_none,
        Option.isNone_none, if_true, List.length_cons]
      omega
    | ok item =>
      simp only [Except.toOption] at inductionHypothesis
      simp only [List.filterMap_cons, List.filter_cons, Except.toOption, Option.map_some,
        Option.isNone_some, Bool.false_eq_true, if_false, List.length_cons]
      omega

/-- **Ingest accounting.** Whatever others insert between the statements of a run that
returns: its counters add up to the results the source yielded, it has inserted as many rows
as it reports, and there are candidates that it rejected and counted as failed, all others
with an `external_id` being stored but for repetitions within the run. -/
theorem run_accounts {source : Source} {report : Report} {store : Store} {others : List Insertion}
    {after : SharedStore}
    (returned : exec (Shared.ingestSource platform readings source false) ⟨store, others, []⟩ =
      (.ok report, after)) :
    report.ingested + report.skippedExisting + report.failed = source.items.length ∧
      after.written.length = report.ingested ∧
      ∃ rejected : List Candidate, rejected.Sublist (firsts [] (candidates source)) ∧
        report.failed = sourceErrors source + rejected.length ∧
        (∀ candidate ∈ rejected,
          ¬ valid platform candidate.1 ∨ ¬ (readings.alone candidate.2).Recent) ∧
        ∀ candidate ∈ firsts [] (candidates source), candidate ∉ rejected →
          ∀ key ∈ candidate.1.externalId, after.tables.carries key := by
  obtain ⟨existing, first, asked, returned⟩ := exec_bind_returned returned
  obtain ⟨advance, known⟩ := existingExternalIds_returned asked
  obtain ⟨⟨fresh, between⟩, middle, sifted, returned⟩ := exec_bind_returned returned
  have weighed := sift_weighed known sifted
  obtain ⟨rejected, handled⟩ := writeEach_handled returned
  rw [show (batches fresh.length fresh).zipIdx = numberedBatches fresh from rfl,
    numberedBatches_flat] at handled
  have start := advance.written
  refine ⟨?_, ?_, rejected, handled.sublist.trans weighed.sublist, ?_, handled.refused, ?_⟩
  · have total := candidates_and_errors source
    have sifting := weighed.counted
    have writing := handled.counted
    simp only [Report.counted] at sifting writing
    omega
  · have sifting := weighed.written
    have writing := handled.written
    simp only [List.length_nil] at start
    simp only at sifting
    omega
  · rw [handled.failed, weighed.failed]
  · intro candidate member kept key given
    by_cases new : candidate ∈ fresh
    · exact handled.present candidate new kept key given
    · exact handled.inserted.keys key (weighed.present candidate member new key given)

/-- Another writer that ingests an item inserts. -/
theorem ingest_inserts (env : Env) (item : NewItem) (store : Store) :
    Inserted store.database.tables (exec (ingest platform env item) store).2.database.tables := by
  cases ran : exec (ingest platform env item) store with
  | mk outcome after =>
    cases outcome with
    | error error =>
      rw [writing_error ran]
      exact .refl _
    | ok stored =>
      obtain ⟨_, _, _, _, _, _, shelf⟩ := ingest_shelves ran
      exact .of_append shelf

/-- Another writer that ingests an item. -/
def Insertion.ingest (platform : Platform) (env : Env) (item : NewItem) : Insertion where
  change database := (exec (Core.ingest platform env item) ⟨false, database⟩).2.database
  inserted database := ingest_inserts env item ⟨false, database⟩

/-- Another writer that does nothing. -/
def Insertion.idle : Insertion := ⟨id, fun _ => .refl _⟩

/-- A source of two items. -/
def pairSource : Source :=
  ⟨[.ok ⟨"one", none, [], none, .object [], some "a", none⟩,
    .ok ⟨"two", none, [], none, .object [], some "b", none⟩], 0, fun _ => none⟩

/-- A run of that source during which another writer takes the second key, after the keys
were looked up and before the batch is written. -/
def racedRun : Except Error Report × SharedStore :=
  exec (Shared.ingestSource .ascii ⟨fun place => ⟨.epoch, (place + ·)⟩, fun _ => ⟨.epoch, id⟩,
      fun _ => ⟨.epoch, id⟩⟩ pairSource false)
    ⟨⟨false, .fresh⟩, [.idle, .idle, .ingest .ascii ⟨.epoch, (50 + ·)⟩
      ⟨"theirs", none, [], none, .object [], some "b", none⟩], []⟩

/-- The run writes the first item and finds the second. -/
theorem racedRun_accounts : racedRun.1 = .ok ⟨1, 1, 0, 0⟩ ∧ racedRun.2.written.length = 1 ∧
    racedRun.2.tables.items.rows.length = 2 := by
  have returned : racedRun.1 = .ok ⟨1, 1, 0, 0⟩ := by decide +kernel
  have accounts := @run_accounts _ _ pairSource _ _ _ _ (Prod.ext returned rfl : racedRun = _)
  exact ⟨returned, accounts.2.1, by decide +kernel⟩

end Singularmem.Ingest
