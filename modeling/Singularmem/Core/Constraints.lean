import Singularmem.Core.Rejections
import Singularmem.Core.ShelvedCalls

/-!
# Validation and the checks of the tables

The database counts the characters of a text up to the first NUL, and reads JSON up to a
depth. A submission that validates passes the check of `items` unless its content starts
with a NUL or its metadata nests too deep; `item_tags` checks nothing.
-/

namespace Singularmem.Core

open Library
open Effect hiding ofExcept

variable {platform : Platform} {env : Env}

/-- The database sees a character of a text: the first one is no NUL. -/
def Visible (text : String) : Prop :=
  ∃ char, text.toList.head? = some char ∧ char ≠ Char.ofNat 0

/-- A text has a length where a character is seen. -/
theorem sqlLength_pos {text : String} : 0 < sqlLength text ↔ Visible text := by
  rw [sqlLength, Visible]
  cases text.toList with
  | nil => simp
  | cons char rest =>
    by_cases nul : char = Char.ofNat 0
    · simp [nul]
    · simp [nul]

/-- A text has no more characters than bytes. -/
theorem length_le_utf8ByteSize (chars : List Char) :
    chars.length ≤ (String.ofList chars).utf8ByteSize := by
  induction chars with
  | nil => exact Nat.zero_le _
  | cons char rest inductionHypothesis =>
    have some := char.utf8Size_pos
    rw [String.ofList_cons, String.utf8ByteSize_append, String.utf8ByteSize_singleton,
      List.length_cons]
    omega

/-- The length the database reports does not exceed the bytes. -/
theorem sqlLength_le (text : String) : sqlLength text ≤ text.utf8ByteSize := by
  have counted := length_le_utf8ByteSize text.toList
  rw [String.ofList_toList] at counted
  exact (List.takeWhile_sublist _).length_le.trans counted

/-- The database takes a submission: its content does not start with a NUL, and its
metadata nests at most 1000 levels. -/
def NewItem.Storable (item : NewItem) : Prop :=
  item.content.toList.head? ≠ some (Char.ofNat 0) ∧ item.metadata.depth ≤ 1000

/-- Accepted content is not empty and within the cap. -/
theorem validateContent_ok {content : String} {value : Unit}
    (accepted : validateContent content = .ok value) :
    content ≠ "" ∧ content.utf8ByteSize ≤ maxContentBytes := by
  rw [validateContent] at accepted
  split at accepted
  case isTrue => cases accepted
  case isFalse nonempty =>
    split at accepted
    case isTrue => cases accepted
    case isFalse within => exact ⟨nonempty, Nat.not_lt.mp within⟩

/-- **Which accepted submissions pass the check.** -/
theorem passesCheck_iff {item : NewItem} {validated : Validated}
    (accepted : validate platform item = .ok validated) :
    item.passesCheck ↔ item.Storable := by
  have passed := validatesAs accepted
  obtain ⟨nonempty, within⟩ := validateContent_ok passed.content
  have object : item.metadata.isObject = true := by
    by_contra other
    have metadata := passed.metadata
    rw [validateMetadata, if_neg other] at metadata
    cases metadata
  have short : sqlLength item.content ≤ 1048576 := (sqlLength_le item.content).trans within
  have seen : Visible item.content ↔ item.content.toList.head? ≠ some (Char.ofNat 0) := by
    cases chars : item.content.toList with
    | nil => exact absurd (String.toList_inj.mp (chars.trans rfl)) nonempty
    | cons char rest => simp [Visible, chars]
  simp only [NewItem.passesCheck, NewItem.Storable, Json.sqlValid, Bool.and_eq_true,
    decide_eq_true_iff, sqlLength_pos, short, object, and_true, seen]

/-- The complaint is not about the check of a table. -/
def Error.NoCheck (error : Error) : Prop := ∀ context table, error ≠ .sqlite context (.check table)

/-- A rejection is not. -/
theorem Rejecting.noCheck {α : Type} {outcome : Except Error α} (rejecting : Rejecting outcome)
    (error : Error) (refused : outcome = .error error) : error.NoCheck := by
  obtain ⟨field, reason, rfl⟩ := rejecting error refused
  rintro context table ⟨⟩

/-- A row that passes the check is refused only for a key. -/
theorem insert_refused {Row Key : Type} [DecidableEq Key] {schema : Schema Row Key}
    {table : Table schema} {row : Row} {violation : Violation Key} (check : schema.check row)
    (refused : table.insert row = .error violation) : ∃ key, violation = .taken key := by
  cases violation with
  | taken key => exact ⟨key, rfl⟩
  | check =>
    rw [Table.insert, dif_pos check] at refused
    split at refused
    · cases refused
    · cases refused

/-- Inserting tags fails on a repeated tag only. -/
theorem insertTags_noCheck (id : ItemId) (tags : List String) :
    ThrowsOnly Error.NoCheck (insertTags id tags) := by
  induction tags with
  | nil => exact .pure _
  | cons tag rest inductionHypothesis =>
    refine .get_bind fun pending error after threw => ?_
    split at threw
    · cases threw
      rintro context table ⟨⟩
    · change exec (setTables _ >>= _) pending = _ at threw
      rw [exec_bind] at threw
      exact inductionHypothesis _ _ _ threw

/-- An item that passes the check is refused for another reason, if at all. -/
theorem insertItemRow_noCheck (id : ItemId) {item : NewItem} (check : item.passesCheck)
    (validated : Validated) :
    ThrowsOnly Error.NoCheck (insertItemRow platform env id item validated) := by
  refine .get_bind fun pending error after threw => ?_
  split at threw
  case h_1 violation refused =>
    cases threw
    obtain ⟨key, rfl⟩ := insert_refused check refused
    cases key <;> rintro context table ⟨⟩
  case h_2 =>
    change exec (setTables _ >>= _) pending = _ at threw
    rw [exec_bind] at threw
    exact insertTags_noCheck _ _ _ _ _ threw

/-- Minting fails for the clock only. -/
theorem mintRawUlid_noCheck : ThrowsOnly Error.NoCheck (mintRawUlid env) := by
  intro pending error after threw
  rw [exec_mintRawUlid] at threw
  split at threw
  · cases threw
  · cases threw
    rintro context table ⟨⟩

/-- A missing target is no check. -/
theorem checkSupersedes_noCheck (supersedes : Option ItemId) :
    ThrowsOnly Error.NoCheck (checkSupersedes supersedes) := by
  intro pending error after threw
  rw [exec_checkSupersedes] at threw
  rcases supersedes with _ | target
  · cases threw
  · by_cases stored : pending.tables.hasItem target
    · simp [stored] at threw
    · simp only [stored, Bool.false_eq_true, if_false, Prod.mk.injEq, Except.error.injEq] at threw
      rw [← threw.1]
      rintro context table ⟨⟩

/-- A write fails as its body does, or for another reason than a check. -/
theorem writing_noCheck {α : Type} {operation committing : String} {body : Tx α}
    (known : ThrowsOnly Error.NoCheck body) :
    ThrowsOnly Error.NoCheck (writing operation committing body) := by
  intro store error after threw
  cases readOnly : store.readOnly with
  | true =>
    rw [writing_readOnly readOnly] at threw
    cases threw
    rintro context table ⟨⟩
  | false =>
    rcases writing_threw readOnly threw with ⟨pending, ran⟩ | rfl
    · exact known _ _ _ ran
    · rintro context table ⟨⟩

/-- **No ingest of a storable item fails on a check.** -/
theorem ingest_noCheck {item : NewItem} (storable : item.Storable) :
    ThrowsOnly Error.NoCheck (ingest platform env item) := by
  refine writing_noCheck (.ofExcept_bind (validate_rejecting item).noCheck
    fun validated accepted => .bind mintRawUlid_noCheck fun ulid =>
      .bind (checkSupersedes_noCheck _) fun _ => .bind ?_ fun _ => .pure _)
  exact insertItemRow_noCheck _ ((passesCheck_iff accepted).mpr storable) validated

/-- Nor does any of a batch. -/
theorem insertEach_noCheck {pairs : List (NewItem × Validated)}
    (checks : ∀ pair ∈ pairs, pair.1.passesCheck) :
    ThrowsOnly Error.NoCheck (insertEach platform env pairs) := by
  induction pairs with
  | nil => exact .pure _
  | cons pair rest inductionHypothesis =>
    obtain ⟨first, others⟩ := List.forall_mem_cons.mp checks
    exact .bind (checkSupersedes_noCheck _) fun _ => .bind mintRawUlid_noCheck fun ulid =>
      .bind (insertItemRow_noCheck _ first _) fun _ =>
        .bind (inductionHypothesis others) fun _ => .pure _

/-- **No batch of storable items fails on a check.** -/
theorem ingestMany_noCheck {items : List NewItem} (storable : ∀ item ∈ items, item.Storable) :
    ThrowsOnly Error.NoCheck (ingestMany platform env items) := by
  refine writing_noCheck (.ofExcept_bind (Rejecting.mapM validate_rejecting).noCheck
    fun validated accepted => insertEach_noCheck fun pair member => ?_)
  exact (passesCheck_iff (mapM_returned_zip accepted pair member)).mpr
    (storable _ (List.of_mem_zip member).1)

/-- **No replacement by a storable item fails on a check.** -/
theorem ingestReplacing_noCheck {item : NewItem} (storable : item.Storable) (replaces : ItemId) :
    ThrowsOnly Error.NoCheck (ingestReplacing platform env item replaces) := by
  refine writing_noCheck (.ofExcept_bind (validate_rejecting _).noCheck
    fun validated accepted => .bind mintRawUlid_noCheck fun ulid =>
      .get_bind fun pending error after threw => ?_)
  have check : NewItem.passesCheck { item with supersedes := some replaces } :=
    (passesCheck_iff accepted).mpr storable
  have rest : ThrowsOnly Error.NoCheck (do
      throwIf (!pending.tables.hasItem replaces) (.supersedesNotFound replaces)
      setTables { pending.tables with items := clearExternalId pending.tables.items replaces }
      insertItemRow platform env ⟨ulid⟩ { item with supersedes := some replaces } validated
      return storedItem env ⟨ulid⟩ { item with supersedes := some replaces } validated) := by
    refine .bind (.throwIf fun _ => ?_) fun _ => .bind ?_ fun _ =>
      .bind (insertItemRow_noCheck _ check _) fun _ => .pure _
    · rintro context table ⟨⟩
    · rintro state error final ⟨⟩
  exact rest _ _ _ threw

end Singularmem.Core
