import Singularmem.Core.Rejections
import Singularmem.Core.ShelvedWrites

/-!
# When item calls return

Each call that writes items: what it put on the shelf when it returned, that it returns
where the submission fits, and what an error about a field or a key says.
-/

namespace Singularmem.Core

open Library
open Effect hiding ofExcept

variable {platform : Platform} {env : Env}

/-- A write whose body returns with every reference intact commits what the body left. -/
theorem writing_succeeds {α : Type} {operation committing : String} {body : Tx α} {store : Store}
    {value : α} {pending : Pending} (writable : store.readOnly = false)
    (ran : exec body ⟨store.database.tables, 0⟩ = (.ok value, pending))
    (references : pending.tables.References) :
    exec (writing operation committing body) store =
      (.ok value, { store with database := ⟨pending.tables, references⟩ }) := by
  have accepted : exec (assertWritable operation) store = (.ok ⟨⟩, store) := by
    rw [exec_assertWritable, writable]
    rfl
  rw [writing, exec_bind_ok accepted, exec_transaction, ran]
  exact dif_pos references

/-- A write that its body refuses. -/
theorem writing_refused {α : Type} {operation committing : String} {body : Tx α} {store : Store}
    {error : Error} {pending : Pending} (writable : store.readOnly = false)
    (ran : exec body ⟨store.database.tables, 0⟩ = (.error error, pending)) :
    exec (writing operation committing body) store = (.error error, store) := by
  have accepted : exec (assertWritable operation) store = (.ok ⟨⟩, store) := by
    rw [exec_assertWritable, writable]
    rfl
  rw [writing, exec_bind_ok accepted, exec_transaction, ran]

/-- A write to a read-only store. -/
theorem writing_readOnly {α : Type} {operation committing : String} {body : Tx α} {store : Store}
    (readOnly : store.readOnly = true) :
    exec (writing operation committing body) store = (.error (.readOnly operation), store) := by
  have refused : exec (assertWritable operation) store = (.error (.readOnly operation), store) := by
    rw [exec_assertWritable, readOnly]
    rfl
  rw [writing, exec_bind_error refused]

/-- Why a write to a writable store failed: its body did, or a reference was broken. -/
theorem writing_threw {α : Type} {operation committing : String} {body : Tx α} {store after : Store}
    {error : Error} (writable : store.readOnly = false)
    (threw : exec (writing operation committing body) store = (.error error, after)) :
    (∃ pending, exec body ⟨store.database.tables, 0⟩ = (.error error, pending)) ∨
      error = .sqlite committing .foreignKey := by
  have accepted : exec (assertWritable operation) store = (.ok ⟨⟩, store) := by
    rw [exec_assertWritable, writable]
    rfl
  rw [writing, exec_bind_ok accepted, exec_transaction] at threw
  split at threw
  case h_1 value pending ran =>
    split at threw
    · cases threw
    · cases threw
      exact .inr rfl
  case h_2 failure pending ran =>
    cases threw
    exact .inl ⟨pending, ran⟩

section Ingest

variable {item : NewItem} {store after : Store}

/-- **What `ingest` did.** -/
theorem ingest_shelves {stored : Item}
    (returned : exec (ingest platform env item) store = (.ok stored, after)) :
    store.readOnly = false ∧ after.readOnly = false ∧ env.Recent ∧
      Fits store.database.tables (env.mint 0) item ∧
      ∃ validated, validate platform item = .ok validated ∧
        after.database.tables.shelf =
          store.database.tables.shelf ++ [shelved platform env 0 item validated] := by
  obtain ⟨writable, still, pending, ran, tables⟩ := writing_returned returned
  obtain ⟨validated, accepted, rest⟩ := ofExcept_bind_returned ran
  obtain ⟨ulid, middle, minted, rest⟩ := exec_bind_returned rest
  rw [exec_mintRawUlid] at minted
  split at minted
  case isFalse => cases minted
  case isTrue recent =>
    cases minted
    obtain ⟨_, checked, found, rest⟩ := exec_bind_returned rest
    obtain ⟨target, rfl⟩ := checkSupersedes_returned found
    obtain ⟨_, final, inserted, rest⟩ := exec_bind_returned rest
    cases rest
    obtain ⟨fits, _, _, shelf⟩ := insertItemRow_shelves store.database.references target inserted
    exact ⟨writable, still, recent, fits, validated, accepted, tables ▸ shelf⟩

/-- **`ingest` returns where the submission fits.** -/
theorem ingest_succeeds {validated : Validated} (writable : store.readOnly = false)
    (recent : env.Recent) (accepted : validate platform item = .ok validated)
    (fits : Fits store.database.tables (env.mint 0) item) :
    ∃ stored after, exec (ingest platform env item) store = (.ok stored, after) := by
  obtain ⟨pending, inserted⟩ := @insertItemRow_succeeds platform env (env.mint 0) item validated
    ⟨store.database.tables, 1⟩ store.database.references fits (validate_tags accepted)
  have references := (insertItemRow_shelves store.database.references fits.target inserted).2.1
  have minted : exec (mintRawUlid env) ⟨store.database.tables, 0⟩ =
      (.ok (env.mint 0).ulid, ⟨store.database.tables, 1⟩) := by
    rw [exec_mintRawUlid, if_pos recent]
  have ran : exec (ingestInTx platform env item) ⟨store.database.tables, 0⟩ =
      (.ok (storedItem env (env.mint 0) item validated), pending) := by
    rw [ingestInTx, accepted, exec_bind_ok (exec_ofExcept _ _), exec_bind_ok minted,
      exec_bind_ok (checkSupersedes_succeeds fits.target), exec_bind_ok inserted]
    rfl
  exact ⟨_, _, writing_succeeds writable ran references⟩

/-- A submission that does not validate is refused for that. -/
theorem ingest_invalid {error : Error} (writable : store.readOnly = false)
    (refused : validate platform item = .error error) :
    exec (ingest platform env item) store = (.error error, store) := by
  have ran : exec (ingestInTx platform env item) ⟨store.database.tables, 0⟩ =
      (.error error, ⟨store.database.tables, 0⟩) := by
    rw [ingestInTx, refused, exec_bind_error (exec_ofExcept _ _)]
  exact writing_refused writable ran

/-- **Why `ingest` refuses a field.** The submission does not validate, or the clock reads
before 1970. -/
theorem ingest_threw_validation {field reason : String} (writable : store.readOnly = false)
    (threw : exec (ingest platform env item) store = (.error (.validation field reason), after)) :
    (∃ error, validate platform item = .error error) ∨ ¬ env.Recent := by
  rcases writing_threw writable threw with ⟨pending, ran⟩ | foreign
  case inr => cases foreign
  rcases accepted : validate platform item with error | validated
  · exact .inl ⟨error, rfl⟩
  refine .inr fun recent => ?_
  rw [ingestInTx, accepted, exec_bind_ok (exec_ofExcept _ _)] at ran
  refine (show ThrowsOnly Error.NoField _ from ?_) _ _ _ ran field reason rfl
  exact .bind (mintRawUlid_noField recent) fun ulid => .bind (checkSupersedes_noField _) fun _ =>
    .bind (insertItemRow_noField _ _ _) fun _ => .pure _

end Ingest

section IngestMany

/-- Submissions put on the shelf one after the other. -/
def shelvedEach (platform : Platform) (env : Env) : Nat → List (NewItem × Validated) → List Shelved
  | _, [] => []
  | draw, (item, validated) :: rest =>
    shelved platform env draw item validated :: shelvedEach platform env (draw + 1) rest

/-- Each item put on the shelf comes from a submission and a draw of the call. -/
theorem mem_shelvedEach {draw : Nat} {pairs : List (NewItem × Validated)} {known : Shelved}
    (member : known ∈ shelvedEach platform env draw pairs) :
    ∃ pair ∈ pairs, ∃ made < draw + pairs.length, known = shelved platform env made pair.1 pair.2 := by
  induction pairs generalizing draw with
  | nil => cases member
  | cons pair rest inductionHypothesis =>
    rcases List.mem_cons.mp member with rfl | later
    · exact ⟨pair, List.mem_cons_self, draw, by simp, rfl⟩
    · obtain ⟨found, foundIn, made, below, rfl⟩ := inductionHypothesis later
      exact ⟨found, List.mem_cons_of_mem pair foundIn, made, by simp only [List.length_cons]; omega, rfl⟩

/-- Each submission is put on the shelf. -/
theorem shelvedEach_mem {draw : Nat} {pairs : List (NewItem × Validated)}
    {pair : NewItem × Validated} (member : pair ∈ pairs) :
    ∃ made, shelved platform env made pair.1 pair.2 ∈ shelvedEach platform env draw pairs := by
  induction pairs generalizing draw with
  | nil => cases member
  | cons head rest inductionHypothesis =>
    rcases List.mem_cons.mp member with rfl | later
    · exact ⟨draw, List.mem_cons_self⟩
    · obtain ⟨made, found⟩ := @inductionHypothesis (draw + 1) later
      exact ⟨made, List.mem_cons_of_mem _ found⟩

/-- What the loop of `ingestMany` did. -/
theorem insertEach_shelves {pairs : List (NewItem × Validated)} {pending after : Pending}
    {stored : List Item} (references : pending.tables.References)
    (returned : exec (insertEach platform env pairs) pending = (.ok stored, after)) :
    after.tables.References ∧ (pairs ≠ [] → env.Recent) ∧ stored.length = pairs.length ∧
      after.tables.shelf = pending.tables.shelf ++ shelvedEach platform env pending.drawn pairs ∧
      ∀ pair ∈ pairs, pair.1.passesCheck ∧
        ∀ prior ∈ pair.1.supersedes, pending.tables.hasItem prior ∨
          ∃ draw < pending.drawn + pairs.length, prior = env.mint draw := by
  induction pairs generalizing pending stored with
  | nil =>
    cases returned
    exact ⟨references, by simp, rfl, (List.append_nil _).symm, by simp⟩
  | cons pair rest inductionHypothesis =>
    obtain ⟨item, validated⟩ := pair
    obtain ⟨_, checked, found, steps⟩ := exec_bind_returned returned
    obtain ⟨target, unchanged⟩ := checkSupersedes_returned found
    rw [unchanged] at steps
    obtain ⟨ulid, middle, minted, steps⟩ := exec_bind_returned steps
    rw [exec_mintRawUlid] at minted
    split at minted
    case isFalse => cases minted
    case isTrue recent =>
      cases minted
      obtain ⟨_, grown, inserted, steps⟩ := exec_bind_returned steps
      obtain ⟨others, final, loop, steps⟩ := exec_bind_returned steps
      cases steps
      obtain ⟨fits, grownReferences, drawn, shelf⟩ :=
        @insertItemRow_shelves _ _ _ _ _ { pending with drawn := pending.drawn + 1 } _ _ references
          target inserted
      obtain ⟨finalReferences, _, count, finalShelf, each⟩ := inductionHypothesis grownReferences loop
      have drawn : grown.drawn = pending.drawn + 1 := drawn
      refine ⟨finalReferences, fun _ => recent, by simp [count], ?_, ?_⟩
      · rw [finalShelf, shelf, drawn, List.append_assoc]
        rfl
      · intro pair member
        rcases List.mem_cons.mp member with rfl | later
        · exact ⟨fits.check, fun prior linked => .inl (target prior linked)⟩
        · obtain ⟨check, links⟩ := each pair later
          refine ⟨check, fun prior linked => ?_⟩
          rcases links prior linked with present | ⟨draw, below, minted⟩
          · obtain ⟨known, member, same⟩ := hasItem_iff_shelf.mp present
            rw [shelf] at member
            rcases List.mem_append.mp member with old | new
            · exact .inl (hasItem_iff_shelf.mpr ⟨known, old, same⟩)
            · rw [List.mem_singleton.mp new] at same
              exact .inr ⟨pending.drawn, by simp, same.symm⟩
          · rw [drawn] at below
            exact .inr ⟨draw, by simp only [List.length_cons]; omega, minted⟩

/-- The other keys are distinct too. -/
theorem keys_rest {pair : NewItem × Validated} {rest : List (NewItem × Validated)}
    (distinct : ((pair :: rest).filterMap fun pair => pair.1.externalId).Nodup) :
    (rest.filterMap fun pair => pair.1.externalId).Nodup :=
  distinct.sublist ((List.sublist_cons_self pair rest).filterMap _)

/-- A later submission has another key. -/
theorem key_apart {pair other : NewItem × Validated} {rest : List (NewItem × Validated)}
    (distinct : ((pair :: rest).filterMap fun pair => pair.1.externalId).Nodup)
    (member : other ∈ rest) {key : String} (given : key ∈ other.1.externalId) :
    pair.1.externalId ≠ some key := by
  intro same
  rw [List.filterMap_cons, same] at distinct
  exact (List.nodup_cons.mp distinct).1 (List.mem_filterMap.mpr ⟨other, member, given⟩)

/-- The loop of `ingestMany` refuses no key, where the keys are distinct and free, and no
field but for an early clock. -/
theorem insertEach_threw {pairs : List (NewItem × Validated)} {pending after : Pending} {error : Error}
    (references : pending.tables.References)
    (distinct : (pairs.filterMap fun pair => pair.1.externalId).Nodup)
    (free : ∀ pair ∈ pairs, ∀ key ∈ pair.1.externalId, ∀ shelved ∈ pending.tables.shelf,
      shelved.1.externalId ≠ some key)
    (threw : exec (insertEach platform env pairs) pending = (.error error, after)) :
    error.OfDatabase ∨ (¬ env.Recent ∧ ∃ field reason, error = .validation field reason) := by
  induction pairs generalizing pending with
  | nil => cases threw
  | cons pair rest inductionHypothesis =>
    obtain ⟨item, validated⟩ := pair
    rw [insertEach, exec_bind] at threw
    rcases found : exec (checkSupersedes item.supersedes) pending with ⟨failure | value, checked⟩
    · rw [found] at threw
      cases threw
      exact .inl (checkSupersedes_threw found)
    rw [found] at threw
    obtain ⟨target, unchanged⟩ := checkSupersedes_returned found
    change exec (mintRawUlid env >>= _) checked = _ at threw
    by_cases recent : env.Recent
    case neg =>
      rw [exec_bind, exec_mintRawUlid, if_neg recent] at threw
      cases threw
      exact .inr ⟨recent, _, _, rfl⟩
    have minted : exec (mintRawUlid env) pending =
        (.ok (env.mint pending.drawn).ulid, { pending with drawn := pending.drawn + 1 }) := by
      rw [exec_mintRawUlid, if_pos recent]
    rw [unchanged, exec_bind_ok minted, exec_bind] at threw
    rcases inserted : exec (insertItemRow platform env ⟨(env.mint pending.drawn).ulid⟩ item validated)
      { pending with drawn := pending.drawn + 1 } with ⟨failure | value, grown⟩
    · rw [inserted] at threw
      cases threw
      rcases insertItemRow_threw inserted with database | ⟨key, given, _, known, stored, taken⟩
      · exact .inl (.inr database)
      · exact absurd taken (free _ List.mem_cons_self key given known stored)
    rw [inserted] at threw
    obtain ⟨_, grownReferences, _, shelf⟩ :=
      @insertItemRow_shelves _ _ _ _ _ { pending with drawn := pending.drawn + 1 } _ _ references
        target inserted
    have stillFree : ∀ other ∈ rest, ∀ key ∈ other.1.externalId,
        ∀ shelved ∈ grown.tables.shelf, shelved.1.externalId ≠ some key := by
      intro other member key given known stored
      rw [shelf] at stored
      rcases List.mem_append.mp stored with old | added
      · exact free other (List.mem_cons_of_mem _ member) key given known old
      · rw [List.mem_singleton.mp added]
        exact key_apart distinct member given
    change exec (insertEach platform env rest >>= _) grown = _ at threw
    rw [exec_bind] at threw
    rcases loop : exec (insertEach platform env rest) grown with ⟨failure | others, final⟩
    · rw [loop] at threw
      cases threw
      exact inductionHypothesis grownReferences (keys_rest distinct) stillFree loop
    · rw [loop] at threw
      cases threw

/-- The loop of `ingestMany` returns where every submission fits and the keys and the
identifiers are distinct. -/
theorem insertEach_succeeds {pairs : List (NewItem × Validated)} {pending : Pending}
    (recent : env.Recent) (references : pending.tables.References)
    (each : ∀ pair ∈ pairs, pair.1.passesCheck ∧ pair.2.tags.Nodup ∧
      ∀ prior ∈ pair.1.supersedes, pending.tables.hasItem prior)
    (distinct : (pairs.filterMap fun pair => pair.1.externalId).Nodup)
    (free : ∀ pair ∈ pairs, ∀ key ∈ pair.1.externalId, ∀ shelved ∈ pending.tables.shelf,
      shelved.1.externalId ≠ some key)
    (new : ∀ draw, pending.drawn ≤ draw → draw < pending.drawn + pairs.length →
      (∀ shelved ∈ pending.tables.shelf, shelved.1.id ≠ env.mint draw) ∧
        ∀ earlier, pending.drawn ≤ earlier → earlier < draw → env.mint earlier ≠ env.mint draw) :
    ∃ stored after, exec (insertEach platform env pairs) pending = (.ok stored, after) := by
  induction pairs generalizing pending with
  | nil => exact ⟨[], pending, rfl⟩
  | cons pair rest inductionHypothesis =>
    obtain ⟨item, validated⟩ := pair
    obtain ⟨check, tags, target⟩ := each _ List.mem_cons_self
    have fits : Fits pending.tables (env.mint pending.drawn) item :=
      ⟨check, target, free _ List.mem_cons_self, (new _ le_rfl (by simp)).1⟩
    obtain ⟨grown, inserted⟩ := @insertItemRow_succeeds platform env (env.mint pending.drawn) item
      validated { pending with drawn := pending.drawn + 1 } references fits tags
    obtain ⟨_, grownReferences, drawn, shelf⟩ :=
      @insertItemRow_shelves _ _ _ _ _ { pending with drawn := pending.drawn + 1 } _ _ references
        target inserted
    have minted : exec (mintRawUlid env) pending =
        (.ok (env.mint pending.drawn).ulid, { pending with drawn := pending.drawn + 1 }) := by
      rw [exec_mintRawUlid, if_pos recent]
    have drawn : grown.drawn = pending.drawn + 1 := drawn
    have stays : ∀ id, pending.tables.hasItem id → grown.tables.hasItem id := by
      intro id present
      obtain ⟨known, member, same⟩ := hasItem_iff_shelf.mp present
      rw [hasItem_iff_shelf, shelf]
      exact ⟨known, List.mem_append_left _ member, same⟩
    obtain ⟨others, final, loop⟩ := @inductionHypothesis grown grownReferences
      (fun pair member => by
        obtain ⟨check, tags, target⟩ := each pair (List.mem_cons_of_mem _ member)
        exact ⟨check, tags, fun prior linked => stays prior (target prior linked)⟩)
      (keys_rest distinct)
      (fun other member key given known stored => by
        rw [shelf] at stored
        rcases List.mem_append.mp stored with old | added
        · exact free other (List.mem_cons_of_mem _ member) key given known old
        · rw [List.mem_singleton.mp added]
          exact key_apart distinct member given)
      (fun draw low high => by
        rw [drawn] at low high
        have within : draw < pending.drawn + (rest.length + 1) := by omega
        obtain ⟨stored, apart⟩ := new draw (by omega) within
        refine ⟨fun known member => ?_, fun earlier lower below => apart earlier (by omega) below⟩
        rw [shelf] at member
        rcases List.mem_append.mp member with old | added
        · exact stored known old
        · rw [List.mem_singleton.mp added]
          exact apart pending.drawn le_rfl (by omega))
    refine ⟨storedItem env (env.mint pending.drawn) item validated :: others, final, ?_⟩
    rw [insertEach, exec_bind_ok (checkSupersedes_succeeds target), exec_bind_ok minted,
      exec_bind_ok inserted, exec_bind_ok loop]
    rfl

variable {items : List NewItem} {store after : Store}

/-- The validated forms of submissions. -/
theorem keys_zip {items : List NewItem} {validated : List Validated}
    (same : validated.length = items.length) :
    ((items.zip validated).filterMap fun pair => pair.1.externalId) =
      items.filterMap NewItem.externalId := by
  rw [show (fun pair : NewItem × Validated => pair.1.externalId) = NewItem.externalId ∘ Prod.fst from rfl,
    ← List.filterMap_map, List.map_fst_zip (by omega)]

/-- **What `ingestMany` did.** -/
theorem ingestMany_shelves {stored : List Item}
    (returned : exec (ingestMany platform env items) store = (.ok stored, after)) :
    store.readOnly = false ∧ after.readOnly = false ∧ (items ≠ [] → env.Recent) ∧
      stored.length = items.length ∧
      ∃ validated, items.mapM (validate platform) = .ok validated ∧
        after.database.tables.shelf =
          store.database.tables.shelf ++ shelvedEach platform env 0 (items.zip validated) ∧
        ∀ item ∈ items, item.passesCheck ∧ ∀ prior ∈ item.supersedes,
          store.database.tables.hasItem prior ∨ ∃ draw < items.length, prior = env.mint draw := by
  obtain ⟨writable, still, pending, ran, tables⟩ := writing_returned returned
  obtain ⟨validated, accepted, rest⟩ := ofExcept_bind_returned ran
  have same := mapM_returned_length accepted
  obtain ⟨_, recent, count, shelf, each⟩ := insertEach_shelves store.database.references rest
  have length : (items.zip validated).length = items.length := by simp [same]
  refine ⟨writable, still, ?_, count.trans length, validated, accepted, tables ▸ shelf, ?_⟩
  · intro some
    refine recent fun none => some (List.eq_nil_iff_length_eq_zero.mpr ?_)
    rw [← length, none, List.length_nil]
  · intro item member
    rw [length, Nat.zero_add] at each
    have firsts : (items.zip validated).map Prod.fst = items := List.map_fst_zip (by omega)
    rw [← firsts] at member
    obtain ⟨pair, zipped, rfl⟩ := List.mem_map.mp member
    exact each pair zipped

/-- **`ingestMany` returns where every submission fits**, and keys and identifiers are
distinct. -/
theorem ingestMany_succeeds {validated : List Validated} (writable : store.readOnly = false)
    (recent : env.Recent) (accepted : items.mapM (validate platform) = .ok validated)
    (each : ∀ item ∈ items, item.passesCheck ∧
      ∀ prior ∈ item.supersedes, store.database.tables.hasItem prior)
    (distinct : (items.filterMap NewItem.externalId).Nodup)
    (free : ∀ item ∈ items, ∀ key ∈ item.externalId, ∀ shelved ∈ store.database.tables.shelf,
      shelved.1.externalId ≠ some key)
    (new : ∀ draw < items.length,
      (∀ shelved ∈ store.database.tables.shelf, shelved.1.id ≠ env.mint draw) ∧
        ∀ earlier < draw, env.mint earlier ≠ env.mint draw) :
    ∃ stored after, exec (ingestMany platform env items) store = (.ok stored, after) := by
  have same := mapM_returned_length accepted
  have length : (items.zip validated).length = items.length := by simp [same]
  obtain ⟨stored, pending, loop⟩ := @insertEach_succeeds platform env (items.zip validated)
    ⟨store.database.tables, 0⟩ recent store.database.references
    (fun pair member => by
      obtain ⟨check, target⟩ := each pair.1 (List.of_mem_zip member).1
      exact ⟨check, validate_tags (mapM_returned_zip accepted pair member), target⟩)
    ((keys_zip same).symm ▸ distinct)
    (fun pair member => free pair.1 (List.of_mem_zip member).1)
    (fun draw _ below => by
      rw [length, Nat.zero_add] at below
      exact ⟨(new draw below).1, fun earlier _ => (new draw below).2 earlier⟩)
  have references := (insertEach_shelves store.database.references loop).1
  have ran : exec (ingestManyInTx platform env items) ⟨store.database.tables, 0⟩ =
      (.ok stored, pending) := by
    rw [ingestManyInTx, accepted, exec_bind_ok (exec_ofExcept _ _), loop]
  exact ⟨_, _, writing_succeeds writable ran references⟩

/-- A submission that does not validate refuses the whole call. -/
theorem ingestMany_invalid {error : Error} (writable : store.readOnly = false)
    (refused : items.mapM (validate platform) = .error error) :
    exec (ingestMany platform env items) store = (.error error, store) := by
  have ran : exec (ingestManyInTx platform env items) ⟨store.database.tables, 0⟩ =
      (.error error, ⟨store.database.tables, 0⟩) := by
    rw [ingestManyInTx, refused, exec_bind_error (exec_ofExcept _ _)]
  exact writing_refused writable ran

/-- A clock that reads before 1970 refuses the whole call at the first submission. -/
theorem ingestMany_early {item : NewItem} {validated : List Validated}
    (writable : store.readOnly = false) (early : ¬ env.Recent)
    (accepted : (item :: items).mapM (validate platform) = .ok validated)
    (target : ∀ prior ∈ item.supersedes, store.database.tables.hasItem prior) :
    ∃ field reason, exec (ingestMany platform env (item :: items)) store =
      (.error (.validation field reason), store) := by
  obtain ⟨first, rest, rfl⟩ : ∃ first rest, validated = first :: rest :=
    List.exists_cons_of_length_eq_add_one (mapM_returned_length accepted)
  have ran : exec (ingestManyInTx platform env (item :: items)) ⟨store.database.tables, 0⟩ =
      (.error (.validation "internal:timestamp" "current wall-clock predates 1970-01-01"),
        ⟨store.database.tables, 0⟩) := by
    rw [ingestManyInTx, accepted, exec_bind_ok (exec_ofExcept _ _), List.zip_cons_cons, insertEach,
      exec_bind_ok (checkSupersedes_succeeds target)]
    apply exec_bind_error
    rw [exec_mintRawUlid, if_neg early]
  exact ⟨_, _, writing_refused writable ran⟩

/-- **Why `ingestMany` fails** where the keys are distinct and free: a submission does not
validate, the clock reads before 1970, or the database is to blame. -/
theorem ingestMany_threw {error : Error} (writable : store.readOnly = false)
    (distinct : (items.filterMap NewItem.externalId).Nodup)
    (free : ∀ item ∈ items, ∀ key ∈ item.externalId, ∀ shelved ∈ store.database.tables.shelf,
      shelved.1.externalId ≠ some key)
    (threw : exec (ingestMany platform env items) store = (.error error, after)) :
    error.OfDatabase ∨ ((∃ field reason, error = .validation field reason) ∧
      ((∃ item ∈ items, ∃ error, validate platform item = .error error) ∨ ¬ env.Recent)) := by
  rcases writing_threw writable threw with ⟨pending, ran⟩ | rfl
  case inr => exact .inl (.inr ⟨_, _, rfl⟩)
  rcases accepted : items.mapM (validate platform) with failure | validated
  · obtain ⟨item, member, refused⟩ := mapM_threw accepted
    rw [ingestManyInTx, accepted, exec_bind_error (exec_ofExcept _ _)] at ran
    cases ran
    exact .inr ⟨validate_rejecting item _ refused, .inl ⟨item, member, _, refused⟩⟩
  rw [ingestManyInTx, accepted, exec_bind_ok (exec_ofExcept _ _)] at ran
  have keys := (keys_zip (mapM_returned_length accepted)).symm ▸ distinct
  rcases insertEach_threw store.database.references keys
    (fun pair member => free pair.1 (List.of_mem_zip member).1) ran with database | ⟨early, field⟩
  · exact .inl database
  · exact .inr ⟨field, .inr early⟩

end IngestMany

section IngestReplacing

variable {item : NewItem} {replaces : ItemId} {store after : Store}

/-- **What `ingestReplacing` did.** -/
theorem ingestReplacing_shelves {stored : Item}
    (returned : exec (ingestReplacing platform env item replaces) store = (.ok stored, after)) :
    store.readOnly = false ∧ after.readOnly = false ∧ env.Recent ∧ item.passesCheck ∧
      (∀ shelved ∈ store.database.tables.shelf, shelved.1.id ≠ env.mint 0) ∧
      ∃ validated, validate platform item = .ok validated ∧
        after.database.tables.shelf = store.database.tables.shelf.map (forget replaces) ++
          [shelved platform env 0 { item with supersedes := some replaces } validated] := by
  obtain ⟨writable, still, pending, ran, tables⟩ := writing_returned returned
  obtain ⟨validated, accepted, steps⟩ := ofExcept_bind_returned ran
  obtain ⟨ulid, middle, minted, steps⟩ := exec_bind_returned steps
  rw [exec_mintRawUlid] at minted
  split at minted
  case isFalse => cases minted
  case isTrue recent =>
    cases minted
    rw [exec_bind_ok (exec_get _)] at steps
    obtain ⟨present, steps⟩ := throwIf_bind_returned steps
    obtain ⟨_, cleared, written, steps⟩ := exec_bind_returned steps
    cases written
    obtain ⟨_, final, inserted, steps⟩ := exec_bind_returned steps
    cases steps
    have target : ∀ prior ∈ some replaces, (store.database.tables.cleared replaces).hasItem prior := by
      rintro _ ⟨⟩
      exact hasItem_cleared.mpr (by simpa using present)
    obtain ⟨fits, _, _, shelf⟩ := @insertItemRow_shelves _ _ _ _ _
      ⟨store.database.tables.cleared replaces, 1⟩ _ _ (store.database.references.cleared replaces)
      target inserted
    rw [shelf_cleared] at shelf
    refine ⟨writable, still, recent, fits.check, ?_, validated, accepted, tables ▸ shelf⟩
    intro known member same
    have stillThere : forget replaces known ∈ (store.database.tables.cleared replaces).shelf := by
      rw [shelf_cleared]
      exact List.mem_map_of_mem member
    exact fits.idFree _ stillThere (by rw [forget_id, same])

/-- **`ingestReplacing` returns where the submission fits** once the replaced row gave up its
key. -/
theorem ingestReplacing_succeeds {validated : Validated} (writable : store.readOnly = false)
    (recent : env.Recent) (accepted : validate platform item = .ok validated)
    (check : item.passesCheck) (stored : store.database.tables.hasItem replaces)
    (keyFree : ∀ key ∈ item.externalId, ∀ shelved ∈ store.database.tables.shelf,
      shelved.1.externalId = some key → shelved.1.id = replaces)
    (idFree : ∀ shelved ∈ store.database.tables.shelf, shelved.1.id ≠ env.mint 0) :
    ∃ stored after, exec (ingestReplacing platform env item replaces) store = (.ok stored, after) := by
  have references := store.database.references.cleared replaces
  have fits : Fits (store.database.tables.cleared replaces) (env.mint 0)
      { item with supersedes := some replaces } := by
    refine ⟨check, ?_, ?_, ?_⟩
    · rintro _ ⟨⟩
      exact hasItem_cleared.mpr stored
    · intro key given shelved member held
      rw [shelf_cleared] at member
      obtain ⟨known, memberBefore, rfl⟩ := List.mem_map.mp member
      simp only [forget] at held
      split at held
      case isTrue => cases held
      case isFalse other => exact other (keyFree key given known memberBefore held)
    · intro shelved member
      rw [shelf_cleared] at member
      obtain ⟨known, memberBefore, rfl⟩ := List.mem_map.mp member
      rw [forget_id]
      exact idFree known memberBefore
  obtain ⟨pending, inserted⟩ := @insertItemRow_succeeds platform env (env.mint 0)
    { item with supersedes := some replaces } validated
    ⟨store.database.tables.cleared replaces, 1⟩ references fits (validate_tags accepted)
  have finalReferences := (@insertItemRow_shelves _ _ _ _ _
    ⟨store.database.tables.cleared replaces, 1⟩ _ _ references fits.target inserted).2.1
  have minted : exec (mintRawUlid env) ⟨store.database.tables, 0⟩ =
      (.ok (env.mint 0).ulid, ⟨store.database.tables, 1⟩) := by
    rw [exec_mintRawUlid, if_pos recent]
  have present : exec (throwIf (!store.database.tables.hasItem replaces)
      (Error.supersedesNotFound replaces)) (Pending.mk store.database.tables 1) =
      (.ok ⟨⟩, ⟨store.database.tables, 1⟩) := by
    rw [exec_throwIf, stored]
    rfl
  have ran : exec (ingestReplacingInTx platform env item replaces) ⟨store.database.tables, 0⟩ =
      (.ok (storedItem env (env.mint 0) { item with supersedes := some replaces } validated),
        pending) := by
    change exec (Effect.ofExcept (validate platform item) >>= _) _ = _
    rw [accepted, exec_bind_ok (exec_ofExcept _ _), exec_bind_ok minted, exec_bind_ok (exec_get _),
      exec_bind_ok present]
    change exec (setTables _ >>= _) _ = _
    rw [setTables, exec_bind_ok (exec_modify _ _)]
    change exec (insertItemRow platform env (env.mint 0) _ _ >>= _)
      ⟨store.database.tables.cleared replaces, 1⟩ = _
    rw [exec_bind_ok inserted]
    rfl
  exact ⟨_, _, writing_succeeds writable ran finalReferences⟩

end IngestReplacing

end Singularmem.Core
