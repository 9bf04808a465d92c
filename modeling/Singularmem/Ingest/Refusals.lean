import Singularmem.Ingest.Rerun
import Singularmem.Ingest.Successes

/-!
# Candidates the store refuses

Whether the store takes the data of a candidate is known from the tables at the start of
the run. A candidate that is refused may hide a later one with its key: the driver
remembers the keys of all candidates it considered, not of those it accepted.
-/

namespace Singularmem.Ingest

open Library Singularmem.Core
open Effect hiding ofExcept

variable {platform : Platform} {readings : Readings} {tables : Tables}

/-- The store has the key of a candidate. -/
def isStored (tables : Tables) (candidate : Candidate) : Bool :=
  candidate.1.externalId.any fun key => (tables.items.find (.externalId key)).isSome

/-- Validation or constraints refuse the data of a candidate, where it would be written. -/
def refused (platform : Platform) (tables : Tables) (candidate : Candidate) : Bool :=
  if isStored tables candidate then
    (replacement platform tables candidate).isSome &&
      !(valid platform candidate.1 && candidate.1.passesCheck)
  else !(valid platform candidate.1 && admissible tables candidate.1)

/-- The candidates the store refuses when it is offered each candidate but the repetitions of
an accepted one. -/
def rejections (platform : Platform) (tables : Tables) : List String → List Candidate → List Candidate
  | _, [] => []
  | accepted, candidate :: rest =>
    if candidate.1.externalId.any (· ∈ accepted) then rejections platform tables accepted rest
    else if refused platform tables candidate then
      candidate :: rejections platform tables accepted rest
    else rejections platform tables (candidate.1.externalId.toList ++ accepted) rest

/-- No candidate that is considered and refused is followed by one with its key. -/
def Unrepeated (platform : Platform) (tables : Tables) : List String → List Candidate → Prop
  | _, [] => True
  | seen, candidate :: rest =>
    if candidate.1.externalId.any (· ∈ seen) then Unrepeated platform tables seen rest
    else (refused platform tables candidate → ∀ key ∈ candidate.1.externalId,
        ∀ later ∈ rest, later.1.externalId ≠ some key) ∧
      Unrepeated platform tables (candidate.1.externalId.toList ++ seen) rest

/-- A stored key is carried. -/
theorem isStored_iff {candidate : Candidate} :
    isStored tables candidate ↔ ∃ key, candidate.1.externalId = some key ∧ tables.carries key := by
  rw [isStored, Option.any_eq_true]
  refine exists_congr fun key => and_congr_right fun _ => ?_
  rw [Option.isSome_iff_exists]
  constructor
  · rintro ⟨row, found⟩
    obtain ⟨stored, carried⟩ := find_externalId.mp found
    exact ⟨_, List.mem_map_of_mem stored, carried⟩
  · rintro ⟨shelved, member, carried⟩
    obtain ⟨row, stored, rfl⟩ := List.mem_map.mp member
    exact ⟨row, find_externalId.mpr ⟨stored, carried⟩⟩

/-- What replaces an item has a stored key. -/
theorem isStored_of_replacement {candidate : Candidate}
    (replaces : replacement platform tables candidate ≠ none) : isStored tables candidate := by
  rcases given : candidate.1.externalId with _ | key
  · rw [replacement, given] at replaces
    exact absurd rfl replaces
  · refine isStored_iff.mpr ⟨key, given, ?_⟩
    by_contra absent
    exact replaces (replacement_read given (getByExternalId_absent absent))

/-- What is new has none. -/
theorem not_isStored_of_new {source : Source} {candidate : Candidate}
    (member : candidate ∈ newCandidates tables source) : ¬ isStored tables candidate := by
  rw [isStored_iff]
  rintro ⟨key, given, held⟩
  exact (mem_newCandidates.mp member).2 key given held

/-- Refused replacements. -/
theorem refused_replacing {candidate : Candidate}
    (replaces : replacement platform tables candidate ≠ none) :
    refused platform tables candidate = false ↔
      valid platform candidate.1 ∧ candidate.1.passesCheck := by
  rw [refused, if_pos (isStored_of_replacement replaces), Option.isSome_iff_ne_none.mpr replaces,
    Bool.true_and, Bool.not_eq_false', Bool.and_eq_true]

/-- Refused new candidates. -/
theorem refused_new {source : Source} {candidate : Candidate}
    (member : candidate ∈ newCandidates tables source) :
    refused platform tables candidate = false ↔
      valid platform candidate.1 ∧ admissible tables candidate.1 := by
  rw [refused, if_neg (not_isStored_of_new member), Bool.not_eq_false', Bool.and_eq_true]

section Lists

variable {seen accepted : List String} {candidates : List Candidate}

/-- Keys of the head that were seen. -/
theorem any_seen {candidate : Candidate} :
    candidate.1.externalId.any (· ∈ seen) ↔ ∃ key, candidate.1.externalId = some key ∧ key ∈ seen := by
  rw [Option.any_eq_true]
  simp

/-- The first occurrences, in one equation. -/
theorem firsts_cons (candidate : Candidate) (rest : List Candidate) :
    firsts seen (candidate :: rest) =
      if candidate.1.externalId.any (· ∈ seen) then firsts seen rest
      else candidate :: firsts (candidate.1.externalId.toList ++ seen) rest := by
  rw [firsts]
  split
  case h_1 keyless => simp [keyless]
  case h_2 key given =>
    by_cases duplicate : key ∈ seen
    · simp [given, duplicate]
    · simp [given, duplicate]

/-- Where two lists of keys agree on the candidates. -/
def Agree (seen accepted : List String) (candidates : List Candidate) : Prop :=
  ∀ candidate ∈ candidates, ∀ key ∈ candidate.1.externalId, key ∈ seen ↔ key ∈ accepted

theorem Agree.head {candidate : Candidate} {rest : List Candidate}
    (agree : Agree seen accepted (candidate :: rest)) :
    candidate.1.externalId.any (· ∈ seen) = candidate.1.externalId.any (· ∈ accepted) := by
  rw [Bool.eq_iff_iff, any_seen, any_seen]
  exact exists_congr fun key => and_congr_right fun given =>
    agree candidate List.mem_cons_self key given

theorem Agree.rest {candidate : Candidate} {rest : List Candidate}
    (agree : Agree seen accepted (candidate :: rest)) : Agree seen accepted rest :=
  fun other member => agree other (List.mem_cons_of_mem candidate member)

theorem Agree.both {rest : List Candidate} (agree : Agree seen accepted rest) (keys : List String) :
    Agree (keys ++ seen) (keys ++ accepted) rest := by
  intro other member key given
  rw [List.mem_append, List.mem_append, agree other member key given]

/-- A key that does not come again may be seen without being accepted. -/
theorem Agree.once {rest : List Candidate} (agree : Agree seen accepted rest) {added : Option String}
    (once : ∀ key ∈ added, ∀ later ∈ rest, later.1.externalId ≠ some key) :
    Agree (added.toList ++ seen) accepted rest := by
  intro other member key given
  rw [List.mem_append, agree other member key given]
  refine or_iff_right fun inAdded => ?_
  exact once key (by simpa using inAdded) other member given

/-- **Without repetitions of refused candidates, leaving out the refused is leaving them out
of the first occurrences.** -/
theorem firsts_filter (unrepeated : Unrepeated platform tables seen candidates)
    (agree : Agree seen accepted candidates) :
    firsts accepted (candidates.filter fun candidate => !refused platform tables candidate) =
      (firsts seen candidates).filter fun candidate => !refused platform tables candidate := by
  induction candidates generalizing seen accepted with
  | nil => rfl
  | cons candidate rest inductionHypothesis =>
    rw [Unrepeated] at unrepeated
    rw [firsts_cons]
    by_cases duplicate : candidate.1.externalId.any (· ∈ seen)
    · rw [if_pos duplicate] at unrepeated
      rw [if_pos duplicate, List.filter_cons]
      split
      · rw [firsts_cons, if_pos (agree.head ▸ duplicate)]
        exact inductionHypothesis unrepeated agree.rest
      · exact inductionHypothesis unrepeated agree.rest
    · rw [if_neg duplicate] at unrepeated
      rw [if_neg duplicate, List.filter_cons, List.filter_cons]
      split
      · rw [firsts_cons, if_neg (agree.head ▸ duplicate),
          inductionHypothesis unrepeated.2 (agree.rest.both _)]
      case isFalse refuses =>
        have refuses : refused platform tables candidate := by simpa using refuses
        exact inductionHypothesis unrepeated.2 (agree.rest.once (unrepeated.1 refuses))

/-- Without repetitions of refused candidates, the rejections are the refused first
occurrences. -/
theorem rejections_eq (unrepeated : Unrepeated platform tables seen candidates)
    (agree : Agree seen accepted candidates) :
    rejections platform tables accepted candidates =
      (firsts seen candidates).filter (refused platform tables) := by
  induction candidates generalizing seen accepted with
  | nil => rfl
  | cons candidate rest inductionHypothesis =>
    rw [Unrepeated] at unrepeated
    rw [rejections, firsts_cons, ← agree.head]
    by_cases duplicate : candidate.1.externalId.any (· ∈ seen)
    · rw [if_pos duplicate] at unrepeated ⊢
      rw [if_pos duplicate]
      exact inductionHypothesis unrepeated agree.rest
    · rw [if_neg duplicate] at unrepeated ⊢
      rw [if_neg duplicate, List.filter_cons]
      split
      case isTrue refuses =>
        rw [inductionHypothesis unrepeated.2 (agree.rest.once (unrepeated.1 refuses))]
      case isFalse => exact inductionHypothesis unrepeated.2 (agree.rest.both _)

/-- A refused first occurrence is rejected. -/
theorem firsts_rejected {candidate : Candidate} (covered : accepted ⊆ seen)
    (member : candidate ∈ firsts seen candidates) (refuses : refused platform tables candidate) :
    candidate ∈ rejections platform tables accepted candidates := by
  induction candidates generalizing seen accepted with
  | nil => cases member
  | cons head rest inductionHypothesis =>
    rw [firsts_cons] at member
    rw [rejections]
    have weaken : ∀ keys : List String, accepted ⊆ keys ++ seen :=
      fun keys key inAccepted => List.mem_append_right keys (covered inAccepted)
    by_cases duplicate : head.1.externalId.any (· ∈ seen)
    · rw [if_pos duplicate] at member
      split
      · exact inductionHypothesis covered member
      split
      · exact List.mem_cons_of_mem head (inductionHypothesis covered member)
      · obtain ⟨key, given, inSeen⟩ := any_seen.mp duplicate
        refine inductionHypothesis ?_ member
        rw [given]
        exact List.cons_subset.mpr ⟨inSeen, covered⟩
    · have fresh : ¬ head.1.externalId.any (· ∈ accepted) := by
        rw [any_seen] at duplicate ⊢
        rintro ⟨key, given, inAccepted⟩
        exact duplicate ⟨key, given, covered inAccepted⟩
      rw [if_neg duplicate] at member
      rw [if_neg fresh]
      rcases List.mem_cons.mp member with rfl | later
      · rw [if_pos refuses]
        exact List.mem_cons_self
      · split
        · exact List.mem_cons_of_mem head (inductionHypothesis (weaken _) later)
        · refine inductionHypothesis ?_ later
          exact List.append_subset.mpr ⟨List.subset_append_left _ _, weaken _⟩

/-- A candidate is rejected where every candidate with its key is refused. -/
theorem all_rejected {candidate : Candidate} {key : String} (member : candidate ∈ candidates)
    (given : candidate.1.externalId = some key) (unaccepted : key ∉ accepted)
    (refuses : ∀ other ∈ candidates, other.1.externalId = some key → refused platform tables other) :
    candidate ∈ rejections platform tables accepted candidates := by
  induction candidates generalizing accepted with
  | nil => cases member
  | cons head rest inductionHypothesis =>
    have refusesRest := fun other otherIn => refuses other (List.mem_cons_of_mem head otherIn)
    rw [rejections]
    rcases List.mem_cons.mp member with rfl | later
    · have fresh : ¬ candidate.1.externalId.any (· ∈ accepted) := by simp [given, unaccepted]
      rw [if_neg fresh, if_pos (refuses candidate List.mem_cons_self given)]
      exact List.mem_cons_self
    · split
      · exact inductionHypothesis later unaccepted refusesRest
      split
      · exact List.mem_cons_of_mem head (inductionHypothesis later unaccepted refusesRest)
      case isFalse taken =>
        refine inductionHypothesis later ?_ refusesRest
        rw [List.mem_append]
        rintro (added | already)
        · exact taken (refuses head List.mem_cons_self (by simpa using added))
        · exact unaccepted already

/-- A refused candidate is repeated only by itself, so it is not repeated. -/
theorem unrepeated_of_unique (distinct : candidates.Nodup)
    (unique : ∀ candidate ∈ firsts seen candidates, refused platform tables candidate →
      ∀ key ∈ candidate.1.externalId, ∀ other ∈ candidates, other.1.externalId = some key →
        other = candidate) :
    Unrepeated platform tables seen candidates := by
  induction candidates generalizing seen with
  | nil => trivial
  | cons head rest inductionHypothesis =>
    obtain ⟨apart, distinctRest⟩ := List.nodup_cons.mp distinct
    rw [Unrepeated]
    rw [firsts_cons] at unique
    split
    case isTrue duplicate =>
      rw [if_pos duplicate] at unique
      exact inductionHypothesis distinctRest fun candidate member refuses key given other otherIn =>
        unique candidate member refuses key given other (List.mem_cons_of_mem head otherIn)
    case isFalse new =>
      rw [if_neg new] at unique
      refine ⟨fun refuses key given later laterIn same => apart ?_,
        inductionHypothesis distinctRest fun candidate member refuses key given other otherIn =>
          unique candidate (List.mem_cons_of_mem head member) refuses key given other
            (List.mem_cons_of_mem head otherIn)⟩
      rw [← unique head List.mem_cons_self refuses key given later (List.mem_cons_of_mem head laterIn) same]
      exact laterIn

end Lists

end Singularmem.Ingest
