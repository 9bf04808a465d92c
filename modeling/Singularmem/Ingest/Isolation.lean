import Singularmem.Ingest.LockedRuns

/-!
# Failures of single items

A run isolates the items the store refuses where it fails for the store alone, counts each
refused item once, and leaves the contents that it leaves without them. The condition
under which it does is exact.
-/

namespace Singularmem.Ingest

open Library Singularmem.Core
open Effect hiding ofExcept

variable {platform : Platform} {readings other : Readings} {tables : Tables} {source : Source}

/-- The source without the items that the store refuses. -/
def withoutRefused (platform : Platform) (tables : Tables) (source : Source) : Source :=
  { source with
    items := source.items.filter fun yielded => yielded.toOption.all fun item =>
      !refused platform tables (withDefaultScope source item, 0) }

/-- A run fails only because the store is read-only; it counts every rejection, and it
leaves the contents of a run over the source without the refused items. -/
structure Isolated (platform : Platform) (readings other : Readings) (store : Store)
    (source : Source) : Prop where
  failure : ∀ error after,
    exec (ingestSource platform readings source false) store = (.error error, after) →
      store.readOnly ∧ ForReadOnly error
  success : ∀ report after,
    exec (ingestSource platform readings source false) store = (.ok report, after) →
      report.failed = sourceErrors source +
        (rejections platform store.database.tables [] (candidates source)).length ∧
      ∃ clean afterClean, exec (ingestSource platform other
          (withoutRefused platform store.database.tables source) false) store =
            (.ok clean, afterClean) ∧
        contents after.database.tables = contents afterClean.database.tables

/-- What a run tolerates: the stored items it meets can be read, no refused item replaces a
stored one, what is new is refused by validation alone, and refused items are not repeated. -/
structure Tolerable (platform : Platform) (tables : Tables) (source : Source) : Prop where
  reads : ∀ candidate ∈ considered source, readable platform tables candidate
  replacing : ∀ candidate ∈ considered source, replacement platform tables candidate ≠ none →
    refused platform tables candidate = false
  fresh : ∀ candidate ∈ newCandidates tables source, valid platform candidate.1 →
    admissible tables candidate.1
  unrepeated : Unrepeated platform tables [] (candidates source)

section SameItems

variable {left right : List Candidate}

/-- First occurrences depend on the items alone. -/
theorem firsts_fst {seen : List String} (same : left.map Prod.fst = right.map Prod.fst) :
    (firsts seen left).map Prod.fst = (firsts seen right).map Prod.fst := by
  induction left generalizing right seen with
  | nil =>
    rw [List.map_nil, eq_comm, List.map_eq_nil_iff] at same
    rw [same]
  | cons head rest inductionHypothesis =>
    cases right with
    | nil => cases same
    | cons other others =>
      obtain ⟨first, later⟩ := List.cons.inj same
      rw [firsts_cons, firsts_cons, ← first]
      split
      · exact inductionHypothesis later
      · rw [List.map_cons, List.map_cons, inductionHypothesis later, first]

/-- So do the contents a run leaves. -/
theorem settledContents_congr (same : left.map Prod.fst = right.map Prod.fst) :
    settledContents platform tables left = settledContents platform tables right := by
  have onItems : ∀ list : List Candidate, settledContents platform tables list =
      ((list.map Prod.fst).filterMap fun item => (replacement platform tables (item, 0)).map
        fun old => (item, old.id)).foldl (renew platform) (contents tables) ++
      (((list.map Prod.fst).filter fun item =>
        !isStored tables (item, 0) && valid platform item).map (submitted platform)) := by
    intro list
    rw [List.filterMap_map, List.filter_map, List.map_map]
    rfl
  rw [onItems, onItems, same]

end SameItems

/-- The candidates of the source without the refused items. -/
theorem candidates_withoutRefused :
    (candidates (withoutRefused platform tables source)).map Prod.fst =
      ((candidates source).filter fun candidate =>
        !refused platform tables candidate).map Prod.fst := by
  have items : ∀ list : List Candidate,
      (list.filter fun candidate => !refused platform tables candidate).map Prod.fst =
        (list.map Prod.fst).filter fun item => !refused platform tables (item, 0) := by
    intro list
    rw [List.filter_map]
    rfl
  rw [items, candidates, candidates, List.zipIdx_map_fst, List.zipIdx_map_fst, withoutRefused]
  rw [List.filterMap_filter, List.filter_filterMap]
  refine List.filterMap_congr fun yielded _ => ?_
  rcases yielded with error | item
  · rfl
  · change _ = Option.filter _ (some (withDefaultScope source item))
    rw [Option.filter_some]
    rfl

/-- Candidates have distinct places. -/
theorem candidates_nodup (source : Source) : (candidates source).Nodup := by
  refine List.Nodup.of_map Prod.snd ?_
  rw [candidates, List.zipIdx_map_snd]
  exact List.nodup_range'

/-- A key among the candidates is among the first occurrences. -/
theorem firsts_covers {seen : List String} {candidates : List Candidate} {candidate : Candidate}
    {key : String} (member : candidate ∈ candidates) (given : candidate.1.externalId = some key)
    (unseen : key ∉ seen) :
    ∃ first ∈ firsts seen candidates, first.1.externalId = some key := by
  induction candidates generalizing seen with
  | nil => cases member
  | cons head rest inductionHypothesis =>
    rw [firsts_cons]
    split
    case isTrue duplicate =>
      obtain ⟨headKey, headGiven, inSeen⟩ := any_seen.mp duplicate
      rcases List.mem_cons.mp member with rfl | later
      · rw [Option.some.inj (given.symm.trans headGiven)] at unseen
        exact absurd inSeen unseen
      · exact inductionHypothesis later unseen
    case isFalse =>
      by_cases same : head.1.externalId = some key
      · exact ⟨head, List.mem_cons_self, same⟩
      · rcases List.mem_cons.mp member with rfl | later
        · exact absurd given same
        · obtain ⟨first, firstIn, firstGiven⟩ := @inductionHypothesis
            (head.1.externalId.toList ++ seen) later (by simp [same, unseen])
          exact ⟨first, List.mem_cons_of_mem head firstIn, firstGiven⟩

section Tolerated

variable (replacing : ∀ candidate ∈ considered source,
    replacement platform tables candidate ≠ none → refused platform tables candidate = false)
  (fresh : ∀ candidate ∈ newCandidates tables source, valid platform candidate.1 →
    admissible tables candidate.1)

include replacing fresh

/-- What is refused of the considered candidates is what is new and invalid. -/
theorem refused_considered :
    (considered source).filter (refused platform tables) =
      (newCandidates tables source).filter fun candidate => !valid platform candidate.1 := by
  rw [newCandidates_eq, List.filter_filter]
  refine List.filter_congr fun candidate member => ?_
  by_cases stored : isStored tables candidate
  · rw [stored, Bool.not_true, Bool.and_false]
    by_cases replaces : replacement platform tables candidate = none
    · rw [refused, if_pos stored, replaces]
      rfl
    · exact replacing candidate member replaces
  · have new : candidate ∈ newCandidates tables source := by
      rw [newCandidates_eq]
      exact List.mem_filter.mpr ⟨member, by simp [stored]⟩
    rw [refused, if_neg stored, Bool.eq_false_iff.mpr stored, Bool.not_false, Bool.and_true]
    by_cases validated : valid platform candidate.1
    · rw [validated, fresh candidate new validated]
      rfl
    · rw [Bool.eq_false_iff.mpr validated]
      rfl

/-- They do not change what a run leaves. -/
theorem settledContents_accepted :
    settledContents platform tables
        ((considered source).filter fun candidate => !refused platform tables candidate) =
      settledContents platform tables (considered source) := by
  rw [settledContents, settledContents, replacements, replacements, List.filterMap_filter,
    List.filter_filter]
  congr 2
  · refine List.filterMap_congr fun candidate member => ?_
    by_cases replaces : replacement platform tables candidate = none
    · rw [replaces, Option.map_none, ite_self]
    · rw [replacing candidate member replaces]
      rfl
  · refine List.filter_congr fun candidate member => ?_
    rw [Bool.eq_iff_iff, Bool.and_eq_true]
    refine and_iff_left_of_imp fun kept => ?_
    obtain ⟨unstored, validated⟩ := (Bool.and_eq_true _ _).mp kept
    have new : candidate ∈ newCandidates tables source := by
      rw [newCandidates_eq]
      exact List.mem_filter.mpr ⟨member, unstored⟩
    rw [Bool.not_eq_true']
    exact (refused_new new).mpr ⟨validated, fresh candidate new validated⟩

end Tolerated

section Clean

/-- The candidates considered without the refused items. -/
theorem considered_withoutRefused (unrepeated : Unrepeated platform tables [] (candidates source)) :
    (considered (withoutRefused platform tables source)).map Prod.fst =
      ((considered source).filter fun candidate => !refused platform tables candidate).map Prod.fst := by
  rw [considered, firsts_fst candidates_withoutRefused, considered,
    firsts_filter unrepeated fun _ _ _ _ => .rfl]

/-- Each is considered in the whole source. -/
theorem mem_considered_withoutRefused (unrepeated : Unrepeated platform tables [] (candidates source))
    {candidate : Candidate} (member : candidate ∈ considered (withoutRefused platform tables source)) :
    ∃ place, (candidate.1, place) ∈ considered source ∧
      refused platform tables candidate = false := by
  have inItems := List.mem_map_of_mem (f := Prod.fst) member
  rw [considered_withoutRefused unrepeated] at inItems
  obtain ⟨⟨item, place⟩, kept, rfl⟩ := List.mem_map.mp inItems
  obtain ⟨inSource, accepted⟩ := List.mem_filter.mp kept
  exact ⟨place, inSource, (Bool.not_eq_true' _).mp accepted⟩

/-- What is new without the refused items is new in the whole source. -/
theorem mem_new_withoutRefused (unrepeated : Unrepeated platform tables [] (candidates source))
    {candidate : Candidate}
    (member : candidate ∈ newCandidates tables (withoutRefused platform tables source)) :
    ∃ place, (candidate.1, place) ∈ newCandidates tables source := by
  rw [newCandidates_eq, List.mem_filter] at member
  obtain ⟨place, inSource, _⟩ := mem_considered_withoutRefused unrepeated member.1
  refine ⟨place, ?_⟩
  rw [newCandidates_eq]
  exact List.mem_filter.mpr ⟨inSource, member.2⟩

end Clean

section Stores

variable {store : Store}

/-- In a store that takes writes, a run that isolates failures tolerated its source. -/
theorem tolerable_of_isolated (sane : Sane platform readings store.database.tables source)
    (saneClean : Sane platform other store.database.tables
      (withoutRefused platform store.database.tables source))
    (writable : store.readOnly = false)
    (isolated : Isolated platform readings other store source) :
    Tolerable platform store.database.tables source := by
  rcases returned : exec (ingestSource platform readings source false) store with
    ⟨error | report, after⟩
  · have locked := (isolated.failure error after returned).1
    rw [writable] at locked
    exact absurd locked Bool.false_ne_true
  obtain ⟨counted, clean, afterClean, returnedClean, same⟩ :=
    isolated.success report after returned
  obtain ⟨_, failed, reads, replacing, fresh⟩ := run_closed sane returned
  refine ⟨reads, replacing, fresh, unrepeated_of_unique (candidates_nodup source) ?_⟩
  intro candidate member refuses key given twin twinIn twinGiven
  by_contra different
  have known : (considered source).filter (refused platform store.database.tables) = _ :=
    refused_considered replacing fresh
  have rejected : candidate ∈ newCandidates store.database.tables source ∧
      ¬ valid platform candidate.1 := by
    have inFilter := List.mem_filter.mpr ⟨member, refuses⟩
    rw [← considered, known, List.mem_filter] at inFilter
    exact ⟨inFilter.1, by simpa using inFilter.2⟩
  by_cases hidden : ∀ other ∈ candidates source, other.1.externalId = some key →
      refused platform store.database.tables other
  · -- Every candidate with the key is rejected, but only one of them is counted.
    have distinct : (twin :: (considered source).filter
        (refused platform store.database.tables)).Nodup := by
      refine List.nodup_cons.mpr ⟨fun inFilter => different ?_,
        ((candidates_nodup source).sublist (firsts_sublist [] _)).filter _⟩
      exact considered_unique (List.mem_filter.mp inFilter).1 member twinGiven given
    have covered : twin :: (considered source).filter (refused platform store.database.tables) ⊆
        rejections platform store.database.tables [] (candidates source) := by
      refine List.cons_subset.mpr ⟨all_rejected twinIn twinGiven List.not_mem_nil hidden, ?_⟩
      intro other otherIn
      obtain ⟨inConsidered, refusesOther⟩ := List.mem_filter.mp otherIn
      exact firsts_rejected (List.Subset.refl []) inConsidered refusesOther
    have more := (List.subperm_of_subset distinct covered).length_le
    rw [List.length_cons, known] at more
    omega
  · -- Without the refused item, one that it hides is stored.
    push Not at hidden
    obtain ⟨accepted, acceptedIn, acceptedGiven, accepts⟩ := hidden
    have kept : accepted.1 ∈ (candidates
        (withoutRefused platform store.database.tables source)).map Prod.fst := by
      rw [candidates_withoutRefused]
      exact List.mem_map_of_mem (List.mem_filter.mpr ⟨acceptedIn, by simpa using accepts⟩)
    obtain ⟨cleanCandidate, cleanIn, sameItem⟩ := List.mem_map.mp kept
    obtain ⟨first, firstIn, firstGiven⟩ := firsts_covers cleanIn
      (show cleanCandidate.1.externalId = some key by rw [sameItem, acceptedGiven]) List.not_mem_nil
    have unstored := (mem_newCandidates.mp rejected.1).2 key given
    have firstNew : first ∈ newCandidates store.database.tables
        (withoutRefused platform store.database.tables source) := by
      refine mem_newCandidates.mpr ⟨firstIn, fun other otherGiven => ?_⟩
      rwa [← Option.some.inj (firstGiven.symm.trans otherGiven)]
    have firstAccepted : refused platform store.database.tables first = false := by
      have inClean := List.mem_map_of_mem (f := Prod.fst) ((firsts_sublist [] _).subset firstIn)
      rw [candidates_withoutRefused] at inClean
      obtain ⟨⟨item, place⟩, inFilter, same⟩ := List.mem_map.mp inClean
      have accepts := (List.mem_filter.mp inFilter).2
      rw [Bool.not_eq_true'] at accepts
      change refused platform store.database.tables (first.1, place) = false
      rwa [← same]
    have carried : afterClean.database.tables.carries key := by
      rw [run_carries saneClean returnedClean]
      exact .inr ⟨first, firstNew, ((refused_new firstNew).mp firstAccepted).1, firstGiven⟩
    rw [carries_contents, ← same, ← carries_contents, run_carries sane returned] at carried
    rcases carried with stored | ⟨other, otherIn, validated, otherGiven⟩
    · exact unstored stored
    · rw [considered_unique (mem_newCandidates.mp otherIn).1 member otherGiven given] at validated
      exact rejected.2 validated

/-- In a store that takes writes, a run over a tolerable source isolates failures. -/
theorem isolated_of_tolerable (sane : Sane platform readings store.database.tables source)
    (saneClean : Sane platform other store.database.tables
      (withoutRefused platform store.database.tables source))
    (writable : store.readOnly = false)
    (tolerable : Tolerable platform store.database.tables source) :
    Isolated platform readings other store source := by
  obtain ⟨reads, replacing, fresh, unrepeated⟩ := tolerable
  obtain ⟨report, after, returned⟩ := run_succeeds sane writable reads replacing fresh
  obtain ⟨clean, afterClean, returnedClean⟩ := run_succeeds saneClean writable
    (fun candidate member => by
      obtain ⟨place, inSource, _⟩ := mem_considered_withoutRefused unrepeated member
      exact reads (candidate.1, place) inSource)
    (fun candidate member _ => by
      obtain ⟨_, _, accepted⟩ := mem_considered_withoutRefused unrepeated member
      exact accepted)
    (fun candidate member validated => by
      obtain ⟨place, inSource⟩ := mem_new_withoutRefused unrepeated member
      exact fresh (candidate.1, place) inSource validated)
  obtain ⟨settled, failed, _⟩ := run_closed sane returned
  obtain ⟨settledClean, _⟩ := run_closed saneClean returnedClean
  refine ⟨fun error final threw => ?_, fun report' final ran => ?_⟩
  · rw [returned] at threw
    cases threw
  rw [returned] at ran
  cases ran
  refine ⟨?_, clean, afterClean, returnedClean, ?_⟩
  · rw [failed, rejections_eq unrepeated fun _ _ _ _ => .rfl, ← considered,
      refused_considered replacing fresh]
  · rw [settled, settledClean, settledContents_congr (considered_withoutRefused unrepeated),
      settledContents_accepted replacing fresh]

/-- In a read-only store, a run isolates failures where a write is refused before an item is met
that cannot be read. -/
theorem isolated_locked_iff (locked : store.readOnly = true) :
    Isolated platform readings other store source ↔
      readsFirst platform store.database.tables (considered source) := by
  have told := @run_locked platform readings source store locked
  rcases returned : exec (ingestSource platform readings source false) store with
    ⟨error | report, after⟩
  · rw [returned] at told
    rw [← show ForReadOnly error ↔ _ from told]
    refine ⟨fun isolated => (isolated.failure error after returned).2, fun forReadOnly => ?_⟩
    refine ⟨fun other final threw => ?_, fun report final ran => ?_⟩
    · rw [returned] at threw
      cases threw
      exact ⟨locked, forReadOnly⟩
    · rw [returned] at ran
      cases ran
  · rw [returned] at told
    obtain ⟨reads, keeps, nothing⟩ := told
    refine iff_of_true ?_ (readsFirst_of_readable reads)
    have replacing : ∀ candidate ∈ considered source,
        replacement platform store.database.tables candidate ≠ none →
          refused platform store.database.tables candidate = false :=
      fun candidate member replaces => absurd (keeps candidate member) replaces
    have unrefused := refused_considered replacing (nothing ▸ by simp)
    rw [nothing, List.filter_nil, List.filter_eq_nil_iff] at unrefused
    have unrepeated : Unrepeated platform store.database.tables [] (candidates source) :=
      unrepeated_of_unique (candidates_nodup source) fun candidate member refuses =>
        absurd refuses (unrefused candidate member)
    obtain ⟨report', ran, failed⟩ := @run_idle platform readings source store reads keeps nothing
    obtain ⟨clean, ranClean, _⟩ := @run_idle platform other
      (withoutRefused platform store.database.tables source) store
      (fun candidate member => by
        obtain ⟨place, inSource, _⟩ := mem_considered_withoutRefused unrepeated member
        exact reads (candidate.1, place) inSource)
      (fun candidate member => by
        obtain ⟨place, inSource, _⟩ := mem_considered_withoutRefused unrepeated member
        exact keeps (candidate.1, place) inSource)
      (List.eq_nil_iff_forall_not_mem.mpr fun candidate member => by
        obtain ⟨place, inSource⟩ := mem_new_withoutRefused unrepeated member
        rw [nothing] at inSource
        cases inSource)
    rw [returned] at ran
    cases ran
    refine ⟨fun error final threw => ?_, fun told final again => ?_⟩
    · rw [returned] at threw
      cases threw
    rw [returned] at again
    cases again
    refine ⟨?_, clean, store, ranClean, rfl⟩
    rw [failed, rejections_eq unrepeated fun _ _ _ _ => .rfl, ← considered,
      List.filter_eq_nil_iff.mpr unrefused]
    rfl

/-- **A run isolates the failures of single items exactly where the condition holds**: over a
store that takes writes, the source is tolerable; over a read-only store, a write is refused
before an item is met that cannot be read. -/
theorem isolated_iff (sane : Sane platform readings store.database.tables source)
    (saneClean : Sane platform other store.database.tables
      (withoutRefused platform store.database.tables source)) :
    Isolated platform readings other store source ↔
      if store.readOnly then readsFirst platform store.database.tables (considered source) = true
      else Tolerable platform store.database.tables source := by
  split
  case isTrue locked => exact isolated_locked_iff locked
  case isFalse unlocked =>
    have writable : store.readOnly = false := Bool.eq_false_iff.mpr unlocked
    exact ⟨tolerable_of_isolated sane saneClean writable, isolated_of_tolerable sane saneClean writable⟩

end Stores

/-- Readings of a clock that stands still and a generator that counts. -/
def counting (start : Nat) : Readings :=
  let env (start : Nat) : Env := ⟨.epoch, fun draw => start + draw⟩
  ⟨fun place => env (start + 10000 * place), fun number => env (start + 10000 * number + 1000),
    fun number => env (start + 10000 * number + 5000)⟩

/-- The ASCII platform with a time for every text. -/
def epochPlatform : Platform := lenient .epoch

/-- A file of a source. -/
def file (content digest key : String) : NewItem :=
  ⟨content, none, ["file"], some "walk", .object [("sha256", .string digest)], some key, none⟩

/-- A stored file that changed, one without content, a new one and an error. -/
def nextSource : Source :=
  ⟨[.ok (file "changed" "04" "a"), .ok (file "" "05" "b"), .ok (file "new" "06" "c"),
    .error "unreadable"], 0, fun _ => some "Notes"⟩

/-- Identifiers of both runs are new. -/
theorem nextSource_sane : Sane epochPlatform (counting 100) mixedRun.2.database.tables nextSource where
  alone := by decide +kernel
  batch := by decide +kernel
  apart := by decide +kernel
  unused := by
    unfold Unused
    decide +kernel
  unnamed := by decide +kernel

theorem nextSource_clean : Sane epochPlatform (counting 200) mixedRun.2.database.tables
    (withoutRefused epochPlatform mixedRun.2.database.tables nextSource) where
  alone := by decide +kernel
  batch := by decide +kernel
  apart := by decide +kernel
  unused := by
    unfold Unused
    decide +kernel
  unnamed := by decide +kernel

/-- Its items have distinct keys. -/
theorem nextSource_unrepeated :
    Unrepeated epochPlatform mixedRun.2.database.tables [] (candidates nextSource) := by
  have distinct : ((candidates nextSource).map fun candidate => candidate.1.externalId).Nodup := by
    decide +kernel
  refine unrepeated_of_unique (candidates_nodup nextSource) ?_
  intro candidate member _ key given other otherIn otherGiven
  exact List.inj_on_of_nodup_map distinct otherIn ((firsts_sublist [] _).subset member)
    (otherGiven.trans given.symm)

theorem nextSource_tolerable : Tolerable epochPlatform mixedRun.2.database.tables nextSource where
  reads := by decide +kernel
  replacing := by decide +kernel
  fresh := by decide +kernel
  unrepeated := nextSource_unrepeated

/-- The file without content is isolated. -/
theorem nextSource_isolated :
    Isolated epochPlatform (counting 100) (counting 200) mixedRun.2 nextSource := by
  have writable : mixedRun.2.readOnly = false := by decide +kernel
  refine (isolated_iff nextSource_sane nextSource_clean).mpr ?_
  rw [writable]
  exact nextSource_tolerable

/-- A stored file that lost its content, and a new one. -/
def emptiedSource : Source :=
  ⟨[.ok (file "" "04" "a"), .ok (file "new" "06" "c")], 0, fun _ => none⟩

/-- The file that lost its content ends the run. -/
theorem emptiedSource_not_isolated :
    ¬ Isolated epochPlatform (counting 100) (counting 200) mixedRun.2 emptiedSource := by
  have failed : (exec (ingestSource epochPlatform (counting 100) emptiedSource false) mixedRun.2).1 =
      .error (.validation "content" "must be non-empty") := by decide +kernel
  intro isolated
  obtain ⟨_, _, ⟨⟩⟩ := isolated.failure _ _ (pair_of_fst failed)

end Singularmem.Ingest
