import Singularmem.Core.Listings
import Singularmem.Core.ShelvedCalls
import Singularmem.Core.ShelvedReads

/-!
# Reading back what was ingested

An item is split over two tables and parsed again when it is loaded. What `ingest` returned
is what `get` returns, as long as the metadata does not nest deeper than the parser goes.
The database takes metadata that nests deeper: such an item is accepted and cannot be read.
-/

namespace Singularmem.Core

open Library
open Effect hiding ofExcept

variable {platform : Platform} {env : Env}

namespace Json

mutual

/-- Every number is an integer that the parser keeps. -/
def Integral : Json → Prop
  | .number digits => ∃ value : Int, -2 ^ 63 ≤ value ∧ value < 2 ^ 64 ∧ digits = toString value
  | .array elements => IntegralElements elements
  | .object members => IntegralMembers members
  | _ => True

/-- Every number among the elements is. -/
def IntegralElements : List Json → Prop
  | [] => True
  | element :: elements => Integral element ∧ IntegralElements elements

/-- Every number among the members is. -/
def IntegralMembers : List (String × Json) → Prop
  | [] => True
  | (_, member) :: members => Integral member ∧ IntegralMembers members

end

end Json

/-- Integers are read back as they were written. -/
def Platform.KeepsIntegers (platform : Platform) : Prop :=
  ∀ value : Int, -2 ^ 63 ≤ value → value < 2 ^ 64 →
    platform.readNumber (toString value) = toString value

namespace Json

mutual

/-- **A value of integers is read back as it is.** -/
theorem reread_integral (keeps : platform.KeepsIntegers) :
    ∀ value : Json, value.Integral → value.reread platform = value
  | .null, _ | .bool _, _ | .string _, _ => by simp [reread]
  | .number digits, integral => by
    obtain ⟨value, least, most, rfl⟩ := integral
    rw [reread, keeps value least most]
  | .array elements, integral => by
    rw [reread, rereadElements_integral keeps elements integral]
  | .object members, integral => by
    rw [reread, rereadMembers_integral keeps members integral]

/-- So are elements of integers. -/
theorem rereadElements_integral (keeps : platform.KeepsIntegers) :
    ∀ elements : List Json, IntegralElements elements →
      rereadElements platform elements = elements
  | [], _ => rfl
  | element :: elements, ⟨head, tail⟩ => by
    rw [rereadElements, reread_integral keeps element head,
      rereadElements_integral keeps elements tail]

/-- So are members of integers. -/
theorem rereadMembers_integral (keeps : platform.KeepsIntegers) :
    ∀ members : List (String × Json), IntegralMembers members →
      rereadMembers platform members = members
  | [], _ => rfl
  | (name, member) :: members, ⟨head, tail⟩ => by
    rw [rereadMembers, reread_integral keeps member head,
      rereadMembers_integral keeps members tail]

end

end Json

/-- Validated tags are in order. -/
theorem validate_tags_sorted {item : NewItem} {validated : Validated}
    (returned : validate platform item = .ok validated) :
    validated.tags.insertionSort (· ≤ ·) = validated.tags := by
  obtain ⟨tags, ordered, normalised⟩ := normaliseTags_returned (validatesAs returned).tags
  rw [normalised]
  exact (ordered.sublist (List.destutter_sublist _ _)).insertionSort_eq

/-- An item on the shelf is loaded from there. -/
theorem loadItem_shelved {tables : Tables} {shelved : Shelved} (member : shelved ∈ tables.shelf) :
    loadItem platform tables shelved.1.id = readShelved platform shelved := by
  obtain ⟨row, stored, rfl⟩ := List.mem_map.mp member
  have known : tables.items.find (.id row.id) = some row :=
    Table.find_eq_some.mpr ⟨stored, by simp [itemSchema]⟩
  rw [loadItem]
  simp only [known]
  rfl

/-- What `ingest` returned is the submission under the identifier that was minted. -/
theorem ingest_stored {item : NewItem} {stored : Item} {store after : Store}
    (returned : exec (ingest platform env item) store = (.ok stored, after)) :
    ∃ validated, validate platform item = .ok validated ∧
      stored = storedItem env (env.mint 0) item validated := by
  obtain ⟨-, -, pending, ran, -⟩ := writing_returned returned
  obtain ⟨validated, accepted, rest⟩ := ofExcept_bind_returned ran
  obtain ⟨ulid, middle, minted, rest⟩ := exec_bind_returned rest
  rw [exec_mintRawUlid] at minted
  split at minted
  case isFalse => cases minted
  case isTrue recent =>
    cases minted
    obtain ⟨_, checked, found, rest⟩ := exec_bind_returned rest
    obtain ⟨_, final, inserted, rest⟩ := exec_bind_returned rest
    cases rest
    exact ⟨validated, accepted, rfl⟩

/-- What reading a submission from the shelf gives. -/
theorem readShelved_shelved {draw : Nat} {item : NewItem} {validated : Validated}
    (accepted : validate platform item = .ok validated)
    (time : platform.parseTimestamp (platform.displayTime env.now) = some env.now)
    (keeps : platform.KeepsIntegers) (integral : item.metadata.Integral) :
    readShelved platform (shelved platform env draw item validated) =
      if item.metadata.depth < Json.recursionLimit then
        .ok (storedItem env (env.mint draw) item validated)
      else .error (.json "parsing stored metadata JSON" "recursion limit exceeded") := by
  have created : parseCreatedAt platform (platform.displayTime env.now) = .ok env.now := by
    rw [parseCreatedAt, time]
  have metadata : item.metadata.parse platform =
      if item.metadata.depth < Json.recursionLimit then .ok item.metadata
      else .error (.json "parsing stored metadata JSON" "recursion limit exceeded") := by
    rw [Json.parse, Json.reread_integral keeps item.metadata integral]
  simp only [readShelved, shelved, shelve, itemRowOf, created, metadata,
    validate_tags_sorted accepted]
  split <;> rfl

/-- An item is retrievable: `get` returns it as it was returned, every listing that selects it
yields it, and no listing fails on it. -/
structure Retrievable (platform : Platform) (tables : Tables) (stored : Item) : Prop where
  get : loadItem platform tables stored.id = .ok stored
  listed : ∀ tags filter, stored.id ∈ listedIds tables tags filter →
    .ok stored ∈ listByTagsScoped platform tables tags filter
  recent : ∀ filter limit, (∀ id ∈ recentIds tables filter limit, id ≠ stored.id →
    ∃ item, loadItem platform tables id = .ok item) →
    ∃ items, recent platform tables filter limit = .ok items

/-- What `get` returns is retrievable. -/
theorem retrievable_of_get {tables : Tables} {stored : Item}
    (get : loadItem platform tables stored.id = .ok stored) :
    Retrievable platform tables stored := by
  refine ⟨get, fun tags filter listed => ?_, fun filter limit others => ?_⟩
  · exact get ▸ List.mem_map_of_mem listed
  · refine mapM_succeeds fun id listed => ?_
    by_cases same : id = stored.id
    · exact ⟨stored, same ▸ get⟩
    · exact others id listed same

/-- **An ingested item is retrievable** exactly where its metadata nests less deep than the
parser goes. -/
theorem ingest_retrievable_iff {item : NewItem} {stored : Item} {store after : Store}
    (time : platform.parseTimestamp (platform.displayTime env.now) = some env.now)
    (keeps : platform.KeepsIntegers) (integral : item.metadata.Integral)
    (returned : exec (ingest platform env item) store = (.ok stored, after)) :
    Retrievable platform after.database.tables stored ↔
      item.metadata.depth < Json.recursionLimit := by
  obtain ⟨validated, accepted, rfl⟩ := ingest_stored returned
  obtain ⟨-, -, -, -, again, acceptedAgain, shelf⟩ := ingest_shelves returned
  cases accepted.symm.trans acceptedAgain
  have there : shelved platform env 0 item validated ∈ after.database.tables.shelf := by
    rw [shelf]
    exact List.mem_append_right _ (List.mem_singleton_self _)
  have loaded : loadItem platform after.database.tables (env.mint 0) =
      if item.metadata.depth < Json.recursionLimit then
        .ok (storedItem env (env.mint 0) item validated)
      else .error (.json "parsing stored metadata JSON" "recursion limit exceeded") :=
    (loadItem_shelved there).trans (readShelved_shelved accepted time keeps integral)
  constructor
  · intro retrievable
    by_contra deep
    rw [if_neg deep] at loaded
    cases loaded.symm.trans retrievable.get
  · intro shallow
    rw [if_pos shallow] at loaded
    exact retrievable_of_get loaded

/-- A submission whose metadata nests objects to a depth. -/
def nestedItem (depth : Nat) : NewItem :=
  ⟨"text", none, ["b", "a", "b"], none,
    (fun inner => .object [("inner", inner), ("level", .number "1")])^[depth - 1] (.object []),
    some "key", none⟩

/-- The ingest of such a submission into a fresh store. -/
def nestedIngest (depth : Nat) : Except Error Item × Store :=
  exec (ingest .ascii ⟨.epoch, id⟩ (nestedItem depth)) ⟨false, .fresh⟩

/-- Metadata of two levels is accepted and read back. -/
theorem nested_metadata_retrievable : ∃ stored after, nestedIngest 2 = (.ok stored, after) ∧
    Retrievable .ascii after.database.tables stored := by
  have integral : (nestedItem 2).metadata.Integral :=
    ⟨trivial, ⟨1, by decide, by decide, rfl⟩, trivial⟩
  have accepted : (nestedIngest 2).1.toOption.isSome := by decide +kernel
  rcases returned : nestedIngest 2 with ⟨error | stored, after⟩
  · rw [returned] at accepted
    cases accepted
  · exact ⟨stored, after, rfl, (ingest_retrievable_iff (by decide +kernel) (fun _ _ _ => rfl)
      integral returned).mpr (by decide +kernel)⟩

/-- Metadata of 128 levels is accepted, and neither `get` nor a listing reads it. -/
theorem deep_metadata_not_retrievable :
    ∃ stored after, nestedIngest 128 = (.ok stored, after) ∧
      (loadItem .ascii after.database.tables stored.id).toOption.isNone ∧
      ((list .ascii after.database.tables).map (·.toOption.isNone)) = [true] ∧
      (recent .ascii after.database.tables none 10).toOption.isNone ∧
      ¬ Retrievable .ascii after.database.tables stored := by
  have evaluated : (match nestedIngest 128 with
      | (.ok stored, after) =>
        (loadItem .ascii after.database.tables stored.id).toOption.isNone &&
        ((list .ascii after.database.tables).map (·.toOption.isNone)) = [true] &&
        (recent .ascii after.database.tables none 10).toOption.isNone
      | (.error _, _) => false) = true := by decide +kernel
  split at evaluated
  case h_1 stored after returned =>
    rw [Bool.and_eq_true, Bool.and_eq_true, decide_eq_true_iff] at evaluated
    obtain ⟨⟨unread, listed⟩, newest⟩ := evaluated
    refine ⟨stored, after, returned, unread, listed, newest, fun retrievable => ?_⟩
    rw [retrievable.get] at unread
    cases unread
  case h_2 => cases evaluated

end Singularmem.Core
