import Singularmem.Core.ShelvedCalls
import Singularmem.Core.ShelvedReads
import Singularmem.Ingest.Driver

/-!
# What the driver decides about each candidate

Of the candidates with one `external_id` the first is considered. It is new, it replaces the
stored item, or it is skipped. The decisions depend on the tables at the start of the run
alone: a replacement changes what is stored under its own key only.
-/

namespace Singularmem.Ingest

open Library Singularmem.Core
open Effect hiding ofExcept

variable {platform : Platform} {readings : Readings} {existing : List String}

/-- The first candidate with each key, and those without a key. -/
def firsts : List String → List Candidate → List Candidate
  | _, [] => []
  | seen, candidate :: rest =>
    match candidate.1.externalId with
    | none => candidate :: firsts seen rest
    | some key =>
      if key ∈ seen then firsts seen rest else candidate :: firsts (key :: seen) rest

section Firsts

variable {seen : List String} {candidate : Candidate} {rest : List Candidate} {key : String}

theorem firsts_keyless (keyless : candidate.1.externalId = none) :
    firsts seen (candidate :: rest) = candidate :: firsts seen rest := by
  rw [firsts, keyless]

theorem firsts_seen (given : candidate.1.externalId = some key) (duplicate : key ∈ seen) :
    firsts seen (candidate :: rest) = firsts seen rest := by
  rw [firsts, given]
  exact if_pos duplicate

theorem firsts_new (given : candidate.1.externalId = some key) (new : key ∉ seen) :
    firsts seen (candidate :: rest) = candidate :: firsts (key :: seen) rest := by
  rw [firsts, given]
  exact if_neg new

end Firsts

/-- The store has nothing under the key of a candidate. -/
def isNew (existing : List String) (candidate : Candidate) : Bool :=
  candidate.1.externalId.all fun key => key ∉ existing

/-- The stored item that a candidate replaces. -/
def replacement (platform : Platform) (tables : Tables) (candidate : Candidate) : Option Item := do
  let key ← candidate.1.externalId
  let old ← (getByExternalId platform tables key).toOption.join
  if differs (contentHash candidate.1.metadata) (contentHash old.metadata) then some old else none

/-- The apparent outcome of a call is its outcome. -/
theorem exec_attempt {α : Type} (call : StoreCall α) (store : Store) :
    exec (attempt call) store = (.ok (exec call store).1, (exec call store).2) := by
  rw [attempt, exec_tryCatch, exec_map]
  rcases exec call store with ⟨error | value, after⟩ <;> rfl

/-- A first occurrence has a key that was not seen. -/
theorem not_seen {seen : List String} {candidates : List Candidate} {candidate : Candidate}
    (member : candidate ∈ firsts seen candidates) {key : String}
    (given : candidate.1.externalId = some key) : key ∉ seen := by
  induction candidates generalizing seen with
  | nil => cases member
  | cons head rest inductionHypothesis =>
    rw [firsts] at member
    split at member
    case h_1 none =>
      rcases List.mem_cons.mp member with rfl | later
      · rw [none] at given
        cases given
      · exact inductionHypothesis later
    case h_2 headKey headGiven =>
      split at member
      case isTrue => exact inductionHypothesis member
      case isFalse new =>
        rcases List.mem_cons.mp member with rfl | later
        · rw [headGiven] at given
          cases given
          exact new
        · exact fun seenBefore => inductionHypothesis later (List.mem_cons_of_mem headKey seenBefore)

/-- First occurrences have distinct keys. -/
theorem firsts_nodup (seen : List String) (candidates : List Candidate) :
    ((firsts seen candidates).filterMap fun candidate => candidate.1.externalId).Nodup := by
  induction candidates generalizing seen with
  | nil => exact .nil
  | cons head rest inductionHypothesis =>
    rw [firsts]
    split
    case h_1 none =>
      rw [List.filterMap_cons, none]
      exact inductionHypothesis seen
    case h_2 key given =>
      split
      · exact inductionHypothesis seen
      · rw [List.filterMap_cons, given]
        refine List.nodup_cons.mpr ⟨?_, inductionHypothesis (key :: seen)⟩
        intro member
        obtain ⟨other, otherIn, same⟩ := List.mem_filterMap.mp member
        exact not_seen otherIn same List.mem_cons_self

/-- First occurrences are candidates. -/
theorem firsts_sublist (seen : List String) (candidates : List Candidate) :
    (firsts seen candidates).Sublist candidates := by
  induction candidates generalizing seen with
  | nil => exact .slnil
  | cons head rest inductionHypothesis =>
    rw [firsts]
    split
    · exact (inductionHypothesis seen).cons_cons head
    · split
      · exact (inductionHypothesis seen).cons head
      · exact (inductionHypothesis _).cons_cons head

section Lookups

variable {before middle after : Tables} {key : String}

/-- The same is stored under a key. -/
def SameUnder (key : String) (before after : Tables) : Prop :=
  ∀ shelved : Shelved, shelved.1.externalId = some key →
    (shelved ∈ after.shelf ↔ shelved ∈ before.shelf)

namespace SameUnder

theorem refl : SameUnder key before before := fun _ _ => .rfl

theorem trans (first : SameUnder key before middle) (second : SameUnder key middle after) :
    SameUnder key before after :=
  fun shelved carried => (second shelved carried).trans (first shelved carried)

theorem carries (same : SameUnder key before after) : after.carries key ↔ before.carries key := by
  constructor
  · rintro ⟨shelved, member, carried⟩
    exact ⟨shelved, (same shelved carried).mp member, carried⟩
  · rintro ⟨shelved, member, carried⟩
    exact ⟨shelved, (same shelved carried).mpr member, carried⟩

theorem lookup (same : SameUnder key before after) :
    getByExternalId platform after key = getByExternalId platform before key := by
  by_cases present : before.carries key
  · obtain ⟨shelved, member, carried⟩ := present
    rw [getByExternalId_carried member carried,
      getByExternalId_carried ((same shelved carried).mpr member) carried]
  · rw [getByExternalId_absent present,
      getByExternalId_absent (fun held => present (same.carries.mp held))]

end SameUnder

/-- Items put on the shelf under other keys. -/
theorem sameUnder_append {added : List Shelved} (shelf : after.shelf = before.shelf ++ added)
    (others : ∀ shelved ∈ added, shelved.1.externalId ≠ some key) : SameUnder key before after := by
  intro shelved carried
  rw [shelf, List.mem_append]
  refine ⟨?_, .inl⟩
  rintro (old | new)
  · exact old
  · exact absurd carried (others shelved new)

/-- A replacement under another key. -/
theorem sameUnder_replaced {old new : Shelved} {replacedKey : String}
    (member : old ∈ before.shelf) (held : old.1.externalId = some replacedKey)
    (shelf : after.shelf = before.shelf.map (forget old.1.id) ++ [new])
    (same : new.1.externalId = some replacedKey) (different : key ≠ replacedKey) :
    SameUnder key before after := by
  intro shelved carried
  rw [shelf, List.mem_append, List.mem_map]
  constructor
  · rintro (⟨source, sourceIn, rfl⟩ | added)
    · simp only [forget] at carried ⊢
      split at carried
      case isTrue => cases carried
      case isFalse other => rwa [if_neg other]
    · rw [List.mem_singleton.mp added, same] at carried
      exact absurd (Option.some.inj carried).symm different
  · intro stored
    refine .inl ⟨shelved, stored, ?_⟩
    rw [forget, if_neg]
    intro sameId
    rw [shelf_id_unique stored member sameId, held] at carried
    exact different (Option.some.inj carried).symm

/-- Whether a key was known is asked of candidates whose key is unseen; it was where the tables
carry it. -/
def Knows (existing : List String) (tables : Tables) (candidates : List Candidate)
    (seen : List String) : Prop :=
  ∀ candidate ∈ candidates, ∀ key ∈ candidate.1.externalId, key ∉ seen →
    (key ∈ existing ↔ tables.carries key)

namespace Knows

variable {candidate : Candidate} {others : List Candidate} {seen : List String}

theorem rest (knows : Knows existing before (candidate :: others) seen) :
    Knows existing before others seen :=
  fun other member => knows other (List.mem_cons_of_mem candidate member)

theorem later (knows : Knows existing before (candidate :: others) seen) (key : String) :
    Knows existing before others (key :: seen) :=
  fun other member held given unseen => knows.rest other member held given
    fun seenBefore => unseen (List.mem_cons_of_mem key seenBefore)

/-- Tables that differ under a seen key carry the same keys otherwise. -/
theorem moved (knows : Knows existing before others (key :: seen))
    (same : ∀ other, other ≠ key → SameUnder other before after) :
    Knows existing after others (key :: seen) := by
  intro other member held given unseen
  rw [knows other member held given unseen]
  exact (same held fun equal => unseen (equal ▸ List.mem_cons_self)).carries.symm

end Knows

end Lookups

/-- What is stored of an item, apart from its identifier and its time. -/
structure Contents where
  content : String
  supersedes : Option ItemId
  tags : List String
  source : Option String
  metadata : Json
  externalId : Option String
  scope : Option String

/-- The contents of an item on the shelf. -/
def contentsOf (shelved : Shelved) : Contents :=
  ⟨shelved.1.content, shelved.1.supersedes, shelved.2, shelved.1.source, shelved.1.metadata,
    shelved.1.externalId, shelved.1.scope⟩

/-- The contents of a store, in the order of insertion. -/
def contents (tables : Tables) : List Contents := tables.shelf.map contentsOf

/-- The contents a submission gets. -/
def submitted (platform : Platform) (item : NewItem) : Contents :=
  let validated := (validate platform item).toOption
  ⟨item.content, item.supersedes,
    ((validated.map Validated.tags).getD []).insertionSort (· ≤ ·), item.source, item.metadata,
    item.externalId, validated.bind Validated.scope⟩

/-- Give up a key. -/
def Contents.forget (key : Option String) (contents : Contents) : Contents :=
  if contents.externalId = key then { contents with externalId := none } else contents

/-- The contents after a submission replaced an item. -/
def renew (platform : Platform) (contents : List Contents) (replaced : NewItem × ItemId) :
    List Contents :=
  contents.map (Contents.forget replaced.1.externalId) ++
    [submitted platform { replaced.1 with supersedes := some replaced.2 }]

/-- The submissions among candidates that replace an item, with what they replace. -/
def replacements (platform : Platform) (tables : Tables) (candidates : List Candidate) :
    List (NewItem × ItemId) :=
  candidates.filterMap fun candidate =>
    (replacement platform tables candidate).map fun old => (candidate.1, old.id)

/-- A validated submission on the shelf has the contents it gets. -/
theorem contentsOf_shelved {env : Env} {draw : Nat} {item : NewItem} {validated : Validated}
    (accepted : validate platform item = .ok validated) :
    contentsOf (shelved platform env draw item validated) = submitted platform item := by
  rw [submitted, accepted]
  rfl

/-- Giving up the key of the one item that carries it. -/
theorem contents_forget {tables : Tables} {old : Shelved} {key : String} (member : old ∈ tables.shelf)
    (carried : old.1.externalId = some key) :
    (tables.shelf.map (forget old.1.id)).map contentsOf =
      (contents tables).map (Contents.forget (some key)) := by
  rw [contents, List.map_map, List.map_map]
  refine List.map_congr_left fun shelved stored => ?_
  rw [Function.comp_apply, Function.comp_apply]
  by_cases same : shelved.1.id = old.1.id
  · have held : (contentsOf shelved).externalId = some key := by
      rw [shelf_id_unique stored member same]
      exact carried
    rw [Contents.forget, if_pos held, forget, if_pos same]
    rfl
  · have apart : (contentsOf shelved).externalId ≠ some key :=
      fun held => same (congrArg (fun known => known.1.id) (carried_unique stored member held carried))
    rw [Contents.forget, if_neg apart, forget, if_neg same]

/-- A submission is stored under its key, written from 1970 on. -/
def Holds (platform : Platform) (tables : Tables) (item : NewItem) : Prop :=
  ∀ key ∈ item.externalId, ∃ shelved ∈ tables.shelf, shelved.1.externalId = some key ∧
    shelved.1.metadata = item.metadata ∧
    ∃ instant : Timestamp, 0 ≤ instant.asMillisecond ∧
      shelved.1.createdAt = platform.displayTime instant

/-- It stays stored where the same is stored under its key. -/
theorem Holds.frame {before after : Tables} {item : NewItem} (held : Holds platform before item)
    (same : ∀ key ∈ item.externalId, SameUnder key before after) : Holds platform after item := by
  intro key given
  obtain ⟨shelved, member, carried, rest⟩ := held key given
  exact ⟨shelved, (same key given shelved carried).mpr member, carried, rest⟩

/-- What considering the candidates did. -/
structure Sifted (platform : Platform) (readings : Readings) (existing : List String)
    (before after : Tables) (considered fresh : List Candidate) (report final : Report) : Prop where
  fresh : fresh = considered.filter (isNew existing)
  /-- Every stored item that a candidate meets was read. -/
  reads : ∀ candidate ∈ considered, ∀ key ∈ candidate.1.externalId, before.carries key →
    ∃ old, getByExternalId platform before key = .ok (some old)
  /-- A candidate that replaces an item is acceptable and stored. -/
  replaces : ∀ candidate ∈ considered, replacement platform before candidate ≠ none →
    (readings.alone candidate.2).Recent ∧ candidate.1.passesCheck ∧
      (∃ validated, validate platform candidate.1 = .ok validated) ∧ Holds platform after candidate.1
  /-- Keys that no replacement has keep what is stored under them. -/
  frame : ∀ key, (∀ candidate ∈ considered, candidate.1.externalId = some key →
    replacement platform before candidate = none) → SameUnder key before after
  carries : ∀ key, after.carries key ↔ before.carries key
  contents : contents after =
    (replacements platform before considered).foldl (renew platform) (contents before)
  ingested : final.ingested = report.ingested + (replacements platform before considered).length
  failed : final.failed = report.failed
  stays : ∀ id, before.hasItem id → after.hasItem id
  ids : ∀ id, after.hasItem id → before.hasItem id ∨ ∃ candidate ∈ considered,
    replacement platform before candidate ≠ none ∧ id = (readings.alone candidate.2).mint 0

/-- The replacement of a candidate whose key is looked up alike. -/
theorem replacement_congr {before after : Tables} {candidate : Candidate}
    (same : ∀ key ∈ candidate.1.externalId, SameUnder key before after) :
    replacement platform after candidate = replacement platform before candidate := by
  rcases given : candidate.1.externalId with _ | key
  · rw [replacement, replacement, given]
    rfl
  · have lookup : getByExternalId platform after key = getByExternalId platform before key :=
      (same key given).lookup
    rw [replacement, replacement, given]
    change (getByExternalId platform after key).toOption.join >>= _ = _
    rw [lookup]
    rfl

end Singularmem.Ingest
