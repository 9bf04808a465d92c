import Singularmem.Ingest.Sifting

/-!
# Runs of the driver's first loop

What the loop that considers the candidates did when it returned, by induction on the
candidates.
-/

namespace Singularmem.Ingest

open Library Singularmem.Core
open Effect hiding ofExcept

variable {platform : Platform} {readings : Readings} {existing : List String}

section Sifted

variable {before middle after : Tables} {considered fresh : List Candidate}
  {report next final : Report} {candidate : Candidate}

/-- Nothing to consider. -/
theorem Sifted.nil : Sifted platform readings existing before before [] [] report report :=
  ⟨rfl, by simp, by simp, fun _ _ => .refl, fun _ => .rfl, rfl, rfl, rfl, fun _ => id, fun _ => .inl⟩

/-- A candidate that is passed over. -/
theorem Sifted.passed
    (sifted : Sifted platform readings existing before after considered fresh next final)
    (ingested : next.ingested = report.ingested) (failed : next.failed = report.failed) :
    Sifted platform readings existing before after considered fresh report final :=
  ⟨sifted.fresh, sifted.reads, sifted.replaces, sifted.frame, sifted.carries, sifted.contents,
    ingested ▸ sifted.ingested, failed ▸ sifted.failed, sifted.stays, sifted.ids⟩

/-- A candidate that is considered and replaces nothing. -/
theorem Sifted.kept
    (sifted : Sifted platform readings existing before after considered fresh next final)
    (ingested : next.ingested = report.ingested) (failed : next.failed = report.failed)
    (none : replacement platform before candidate = none)
    (reads : ∀ key ∈ candidate.1.externalId, before.carries key →
      ∃ old, getByExternalId platform before key = .ok (some old)) :
    Sifted platform readings existing before after (candidate :: considered)
      (if isNew existing candidate then candidate :: fresh else fresh) report final := by
  have passed := @Sifted.passed _ _ _ _ _ _ _ report next final sifted ingested failed
  have same : replacements platform before (candidate :: considered) =
      replacements platform before considered := by
    rw [replacements, List.filterMap_cons, none]
    rfl
  refine ⟨?_, ?_, ?_, ?_, passed.carries, same ▸ passed.contents, same ▸ passed.ingested,
    passed.failed, passed.stays, ?_⟩
  · rw [List.filter_cons, sifted.fresh]
  · intro other member
    rcases List.mem_cons.mp member with rfl | later
    · exact reads
    · exact passed.reads other later
  · intro other member replacing
    rcases List.mem_cons.mp member with rfl | later
    · exact absurd none replacing
    · exact passed.replaces other later replacing
  · intro key untouched
    exact passed.frame key fun other member => untouched other (List.mem_cons_of_mem candidate member)
  · intro id stored
    rcases passed.ids id stored with old | ⟨other, member, minted⟩
    · exact .inl old
    · exact .inr ⟨other, List.mem_cons_of_mem candidate member, minted⟩

/-- A candidate that replaced an item, before others were considered. -/
theorem Sifted.replaced {key : String} {old : Shelved} {item : Item} {validated : Validated}
    (sifted : Sifted platform readings existing middle after considered fresh next final)
    (apart : ∀ other ∈ considered, other.1.externalId ≠ some key)
    (ingested : next.ingested = report.ingested + 1) (failed : next.failed = report.failed)
    (given : candidate.1.externalId = some key) (stored : key ∈ existing)
    (read : getByExternalId platform before key = .ok (some item))
    (replacing : replacement platform before candidate = some item)
    (member : old ∈ before.shelf) (carried : old.1.externalId = some key) (sameId : item.id = old.1.id)
    (recent : (readings.alone candidate.2).Recent) (check : candidate.1.passesCheck)
    (accepted : validate platform candidate.1 = .ok validated)
    (shelf : middle.shelf = before.shelf.map (forget old.1.id) ++
      [shelved platform (readings.alone candidate.2) 0
        { candidate.1 with supersedes := some old.1.id } validated]) :
    Sifted platform readings existing before after (candidate :: considered) fresh report final := by
  have newKey : (shelved platform (readings.alone candidate.2) 0
      { candidate.1 with supersedes := some old.1.id } validated).1.externalId = some key := given
  have sameUnder : ∀ other, other ≠ key → SameUnder other before middle := fun other different =>
    sameUnder_replaced member carried shelf newKey different
  have congr : ∀ other ∈ considered, replacement platform middle other =
      replacement platform before other := by
    intro other otherIn
    refine replacement_congr fun otherKey otherGiven => sameUnder otherKey ?_
    rintro rfl
    exact apart other otherIn otherGiven
  have carries : ∀ other, middle.carries other ↔ before.carries other := by
    intro other
    by_cases same : other = key
    · subst same
      refine ⟨fun _ => ⟨old, member, carried⟩, fun _ => ⟨_, ?_, newKey⟩⟩
      rw [shelf]
      exact List.mem_append_right _ (List.mem_singleton.mpr rfl)
    · exact (sameUnder other same).carries
  have later : replacements platform middle considered = replacements platform before considered := by
    refine List.filterMap_congr fun other otherIn => ?_
    rw [congr other otherIn]
  have all : replacements platform before (candidate :: considered) =
      (candidate.1, old.1.id) :: replacements platform before considered := by
    rw [replacements, List.filterMap_cons, replacing, Option.map_some, sameId]
    rfl
  have holds : Holds platform middle candidate.1 := by
    intro other otherGiven
    obtain rfl : key = other := Option.some.inj (given.symm.trans otherGiven)
    refine ⟨_, ?_, newKey, rfl, (readings.alone candidate.2).now, recent, rfl⟩
    rw [shelf]
    exact List.mem_append_right _ (List.mem_singleton.mpr rfl)
  have untouched : ∀ other ∈ considered, other.1.externalId = some key →
      replacement platform middle other = none :=
    fun other otherIn otherGiven => absurd otherGiven (apart other otherIn)
  refine ⟨?_, ?_, ?_, ?_, fun other => (sifted.carries other).trans (carries other), ?_, ?_,
    sifted.failed.trans failed, ?_, ?_⟩
  · have notNew : ¬ isNew existing candidate := by simp [isNew, given, stored]
    rw [List.filter_cons, if_neg notNew, sifted.fresh]
  · intro other otherIn otherKey otherGiven held
    rcases List.mem_cons.mp otherIn with rfl | inRest
    · obtain rfl : key = otherKey := Option.some.inj (given.symm.trans otherGiven)
      exact ⟨item, read⟩
    · have different : otherKey ≠ key := by
        rintro rfl
        exact apart other inRest otherGiven
      rw [← (sameUnder otherKey different).lookup]
      exact sifted.reads other inRest otherKey otherGiven ((carries otherKey).mpr held)
  · intro other otherIn otherReplacing
    rcases List.mem_cons.mp otherIn with rfl | inRest
    · refine ⟨recent, check, ⟨validated, accepted⟩, holds.frame fun otherKey otherGiven => ?_⟩
      obtain rfl : key = otherKey := Option.some.inj (given.symm.trans otherGiven)
      exact sifted.frame key untouched
    · rw [← congr other inRest] at otherReplacing
      exact sifted.replaces other inRest otherReplacing
  · intro otherKey none
    have different : otherKey ≠ key := by
      rintro rfl
      rw [none candidate List.mem_cons_self given] at replacing
      cases replacing
    refine (sameUnder otherKey different).trans (sifted.frame otherKey fun other inRest otherGiven => ?_)
    rw [congr other inRest]
    exact none other (List.mem_cons_of_mem candidate inRest) otherGiven
  · rw [sifted.contents, later, all, List.foldl_cons]
    congr 1
    rw [Ingest.contents, shelf, List.map_append, contents_forget member carried, List.map_singleton]
    have newContents : contentsOf (shelved platform (readings.alone candidate.2) 0
        { candidate.1 with supersedes := some old.1.id } validated) =
        submitted platform { candidate.1 with supersedes := some old.1.id } :=
      contentsOf_shelved accepted
    rw [newContents, renew, given]
  · rw [sifted.ingested, ingested, later, all, List.length_cons]
    omega
  · intro id present
    refine sifted.stays id ?_
    obtain ⟨known, knownIn, rfl⟩ := hasItem_iff_shelf.mp present
    rw [hasItem_iff_shelf, shelf]
    exact ⟨_, List.mem_append_left _ (List.mem_map_of_mem knownIn), forget_id _ _⟩
  · intro id present
    rcases sifted.ids id present with present | ⟨other, otherIn, otherReplacing, minted⟩
    · obtain ⟨known, knownIn, rfl⟩ := hasItem_iff_shelf.mp present
      rw [shelf] at knownIn
      rcases List.mem_append.mp knownIn with earlier | added
      · obtain ⟨source, sourceIn, rfl⟩ := List.mem_map.mp earlier
        exact .inl (hasItem_iff_shelf.mpr ⟨source, sourceIn, (forget_id _ _).symm⟩)
      · rw [List.mem_singleton.mp added]
        exact .inr ⟨candidate, List.mem_cons_self, by simp [replacing], rfl⟩
    · rw [congr other otherIn] at otherReplacing
      exact .inr ⟨other, List.mem_cons_of_mem candidate otherIn, otherReplacing, minted⟩

end Sifted

/-- The item that a lookup read is on the shelf under the key. -/
theorem read_carried {tables : Tables} {key : String} {item : Item}
    (read : getByExternalId platform tables key = .ok (some item)) :
    ∃ shelved ∈ tables.shelf, shelved.1.externalId = some key ∧ item.id = shelved.1.id := by
  by_cases present : tables.carries key
  · obtain ⟨shelved, member, carried⟩ := present
    rw [getByExternalId_carried member carried] at read
    refine ⟨shelved, member, carried, ?_⟩
    rcases parsed : readShelved platform shelved with error | found
    · rw [parsed] at read
      cases read
    · rw [parsed] at read
      cases read
      obtain ⟨_, _, parsed⟩ := except_bind_returned parsed
      obtain ⟨_, _, parsed⟩ := except_bind_returned parsed
      cases parsed
      rfl
  · rw [getByExternalId_absent present] at read
    cases read

/-- A lookup of a key that an item carries reads an item. -/
theorem read_some {tables : Tables} {key : String} {old : Option Item} (held : tables.carries key)
    (read : getByExternalId platform tables key = .ok old) : ∃ item, old = some item := by
  obtain ⟨shelved, member, carried⟩ := held
  rw [getByExternalId_carried member carried] at read
  rcases parsed : readShelved platform shelved with error | item
  · rw [parsed] at read
    cases read
  · rw [parsed] at read
    cases read
    exact ⟨item, rfl⟩

/-- The replacement of a candidate whose stored item was read. -/
theorem replacement_read {tables : Tables} {candidate : Candidate} {key : String} {old : Option Item}
    (given : candidate.1.externalId = some key)
    (read : getByExternalId platform tables key = .ok old) :
    replacement platform tables candidate =
      old.filter fun old => differs (contentHash candidate.1.metadata) (contentHash old.metadata) := by
  rw [replacement, given]
  change (getByExternalId platform tables key).toOption.join >>= _ = _
  rw [read]
  rcases old with _ | old
  · rfl
  · rw [Option.filter_some]
    rfl

/-- **What considering the candidates did.** -/
theorem sift_returned {candidates : List Candidate} {seen : List String} {report final : Report}
    {store after : Store} {fresh : List Candidate}
    (knows : Knows existing store.database.tables candidates seen)
    (returned : exec (sift platform readings existing false candidates seen report) store =
      (.ok (fresh, final), after)) :
    Sifted platform readings existing store.database.tables after.database.tables
      (firsts seen candidates) fresh report final ∧ after.readOnly = store.readOnly := by
  induction candidates generalizing seen report store fresh with
  | nil =>
    cases returned
    exact ⟨.nil, rfl⟩
  | cons candidate rest inductionHypothesis =>
    obtain ⟨item, place⟩ := candidate
    rw [sift] at returned
    split at returned
    case h_1 bare =>
      have keyless : (item, place).1.externalId = none := bare
      obtain ⟨⟨others, between⟩, middle, loop, returned⟩ := exec_bind_returned returned
      cases returned
      obtain ⟨sifted, same⟩ := inductionHypothesis knows.rest loop
      have nothing : replacement platform store.database.tables (item, place) = none := by
        rw [replacement, keyless]
        rfl
      have kept : Sifted platform readings existing _ _ ((item, place) :: firsts seen rest) _ report
          final := sifted.kept rfl rfl nothing (by simp [bare])
      rw [if_pos (by simp [isNew, bare])] at kept
      rw [firsts_keyless keyless]
      exact ⟨kept, same⟩
    case h_2 key named =>
      have given : (item, place).1.externalId = some key := named
      split at returned
      case isTrue duplicate =>
        obtain ⟨sifted, same⟩ := inductionHypothesis knows.rest returned
        rw [firsts_seen given duplicate]
        exact ⟨sifted.passed rfl rfl, same⟩
      case isFalse new =>
        rw [firsts_new given new]
        have stored := knows (item, place) List.mem_cons_self key given new
        split at returned
        case isTrue absent =>
          obtain ⟨⟨others, between⟩, middle, loop, returned⟩ := exec_bind_returned returned
          cases returned
          obtain ⟨sifted, same⟩ := inductionHypothesis (knows.later key) loop
          have nothing := @getByExternalId_absent platform _ key fun held => absent (stored.mpr held)
          have kept := @Sifted.kept _ _ _ _ _ _ _ report _ _ (item, place) sifted rfl rfl
            (replacement_read given nothing) fun other otherGiven held => by
              obtain rfl : key = other := Option.some.inj (given.symm.trans otherGiven)
              exact absurd (stored.mpr held) absent
          rw [if_pos (by simp [isNew, named, absent])] at kept
          exact ⟨kept, same⟩
        case isFalse present =>
          have present : key ∈ existing := not_not.mp present
          rw [exec_bind_ok (exec_get store)] at returned
          obtain ⟨old, read, returned⟩ := ofExcept_bind_returned returned
          have decision := replacement_read given read
          split at returned
          case h_1 _ found chosen =>
            obtain ⟨_, middle, written, loop⟩ := exec_bind_returned returned
            obtain ⟨written, replaced, _⟩ := map_returned written
            obtain ⟨writable, still, recent, check, _, validated, accepted, shelf⟩ :=
              ingestReplacing_shelves replaced
            rw [chosen] at decision
            obtain ⟨rfl, _⟩ := Option.filter_eq_some_iff.mp chosen
            obtain ⟨shelved, member, carried, sameId⟩ := read_carried read
            rw [sameId] at shelf
            have sameUnder : ∀ other, other ≠ key →
                SameUnder other store.database.tables middle.database.tables :=
              fun other different => sameUnder_replaced member carried shelf given different
            obtain ⟨sifted, same⟩ := inductionHypothesis ((knows.later key).moved sameUnder) loop
            refine ⟨sifted.replaced ?_ rfl rfl given present read decision member carried sameId recent
              check accepted shelf, ?_⟩
            · exact fun other inFirsts otherGiven => not_seen inFirsts otherGiven List.mem_cons_self
            · exact (same.trans still).trans writable.symm
          case h_2 _ nothing =>
            obtain ⟨sifted, same⟩ := inductionHypothesis (knows.later key) returned
            have kept := @Sifted.kept _ _ _ _ _ _ _ report _ _ (item, place) sifted rfl rfl
              (decision.trans nothing) fun other otherGiven held => by
                obtain rfl : key = other := Option.some.inj (given.symm.trans otherGiven)
                obtain ⟨found, rfl⟩ := read_some held read
                exact ⟨found, read⟩
            rw [if_neg (by simp [isNew, named, present])] at kept
            exact ⟨kept, same⟩

/-- **Where no candidate replaces an item, nothing is written.** -/
theorem sift_idle {candidates : List Candidate} {seen : List String} (report : Report) {store : Store}
    (knows : Knows existing store.database.tables candidates seen)
    (reads : ∀ candidate ∈ firsts seen candidates, ∀ key ∈ candidate.1.externalId,
      store.database.tables.carries key →
        ∃ old, getByExternalId platform store.database.tables key = .ok old)
    (keeps : ∀ candidate ∈ firsts seen candidates,
      replacement platform store.database.tables candidate = none) :
    ∃ result, exec (sift platform readings existing false candidates seen report) store =
      (.ok result, store) := by
  induction candidates generalizing seen report with
  | nil => exact ⟨_, rfl⟩
  | cons candidate rest inductionHypothesis =>
    obtain ⟨item, place⟩ := candidate
    rw [sift]
    split
    case h_1 bare =>
      have keyless : (item, place).1.externalId = none := bare
      rw [firsts_keyless keyless] at reads keeps
      obtain ⟨result, ran⟩ := inductionHypothesis report knows.rest
        (fun other member => reads other (List.mem_cons_of_mem _ member))
        (fun other member => keeps other (List.mem_cons_of_mem _ member))
      rw [exec_bind_ok ran]
      exact ⟨_, rfl⟩
    case h_2 key named =>
      have given : (item, place).1.externalId = some key := named
      split
      case isTrue duplicate =>
        rw [firsts_seen given duplicate] at reads keeps
        exact inductionHypothesis _ knows.rest reads keeps
      case isFalse new =>
        rw [firsts_new given new] at reads keeps
        have later := fun report => inductionHypothesis report (knows.later key)
          (fun other member => reads other (List.mem_cons_of_mem _ member))
          (fun other member => keeps other (List.mem_cons_of_mem _ member))
        split
        case isTrue absent =>
          obtain ⟨result, ran⟩ := later report
          rw [exec_bind_ok ran]
          exact ⟨_, rfl⟩
        case isFalse present =>
          have held := (knows (item, place) List.mem_cons_self key given new).mp (not_not.mp present)
          obtain ⟨old, read⟩ := reads (item, place) List.mem_cons_self key given held
          have nothing := keeps (item, place) List.mem_cons_self
          rw [replacement_read given read] at nothing
          rw [exec_bind_ok (exec_get store), read, exec_bind_ok (exec_ofExcept _ _), nothing]
          exact later _

/-- A candidate can replace an item: the store takes writes, and the submission and its
identifier are acceptable. -/
structure Replaceable (platform : Platform) (readings : Readings) (store : Store)
    (candidate : Candidate) : Prop where
  writable : store.readOnly = false
  recent : (readings.alone candidate.2).Recent
  valid : ∃ validated, validate platform candidate.1 = .ok validated
  check : candidate.1.passesCheck
  new : ¬ store.database.tables.hasItem ((readings.alone candidate.2).mint 0)

/-- The identifiers that the replacements mint. -/
def replacingMints (platform : Platform) (readings : Readings) (tables : Tables)
    (considered : List Candidate) : List ItemId :=
  (considered.filter fun candidate => (replacement platform tables candidate).isSome).map
    fun candidate => (readings.alone candidate.2).mint 0

/-- Candidates with the same items under their keys mint the same identifiers. -/
theorem replacingMints_congr {before after : Tables} {considered : List Candidate}
    (same : ∀ candidate ∈ considered, ∀ key ∈ candidate.1.externalId, SameUnder key before after) :
    replacingMints platform readings after considered =
      replacingMints platform readings before considered := by
  rw [replacingMints, replacingMints]
  congr 1
  refine List.filter_congr fun candidate member => ?_
  rw [replacement_congr (same candidate member)]

/-- A candidate can still replace an item after the replacement of another, which took another
identifier. -/
theorem Replaceable.moved {store middle : Store} {candidate : Candidate} {new : Shelved}
    {replaced : ItemId} (replaceable : Replaceable platform readings store candidate)
    (writable : middle.readOnly = false)
    (shelf : middle.database.tables.shelf =
      store.database.tables.shelf.map (forget replaced) ++ [new])
    (apart : new.1.id ≠ (readings.alone candidate.2).mint 0) :
    Replaceable platform readings middle candidate := by
  refine ⟨writable, replaceable.recent, replaceable.valid, replaceable.check, ?_⟩
  rw [hasItem_iff_shelf, shelf]
  rintro ⟨known, knownIn, minted⟩
  rcases List.mem_append.mp knownIn with earlier | added
  · obtain ⟨source, sourceIn, rfl⟩ := List.mem_map.mp earlier
    rw [forget_id] at minted
    exact replaceable.new (hasItem_iff_shelf.mpr ⟨source, sourceIn, minted⟩)
  · rw [List.mem_singleton.mp added] at minted
    exact apart minted

/-- **Considering returns where every replacement is acceptable.** -/
theorem sift_succeeds {candidates : List Candidate} {seen : List String} (report : Report)
    {store : Store}
    (knows : Knows existing store.database.tables candidates seen)
    (reads : ∀ candidate ∈ firsts seen candidates, ∀ key ∈ candidate.1.externalId,
      store.database.tables.carries key →
        ∃ old, getByExternalId platform store.database.tables key = .ok old)
    (replaceable : ∀ candidate ∈ firsts seen candidates,
      replacement platform store.database.tables candidate ≠ none →
        Replaceable platform readings store candidate)
    (apart : (replacingMints platform readings store.database.tables (firsts seen candidates)).Nodup) :
    ∃ result after, exec (sift platform readings existing false candidates seen report) store =
      (.ok result, after) := by
  induction candidates generalizing seen report store with
  | nil => exact ⟨_, _, rfl⟩
  | cons candidate rest inductionHypothesis =>
    obtain ⟨item, place⟩ := candidate
    have apartRest : ∀ others, (replacingMints platform readings store.database.tables
        ((item, place) :: others)).Nodup →
        (replacingMints platform readings store.database.tables others).Nodup :=
      fun others nodup => nodup.sublist
        (((List.sublist_cons_self _ others).filter _).map _)
    rw [sift]
    split
    case h_1 bare =>
      have keyless : (item, place).1.externalId = none := bare
      rw [firsts_keyless keyless] at reads replaceable apart
      obtain ⟨result, after, ran⟩ := inductionHypothesis report knows.rest
        (fun other member => reads other (List.mem_cons_of_mem _ member))
        (fun other member => replaceable other (List.mem_cons_of_mem _ member)) (apartRest _ apart)
      rw [exec_bind_ok ran]
      exact ⟨_, _, rfl⟩
    case h_2 key named =>
      have given : (item, place).1.externalId = some key := named
      split
      case isTrue duplicate =>
        rw [firsts_seen given duplicate] at reads replaceable apart
        exact inductionHypothesis _ knows.rest reads replaceable apart
      case isFalse new =>
        rw [firsts_new given new] at reads replaceable apart
        have readsLater := fun other member => reads other (List.mem_cons_of_mem _ member)
        have replaceableLater := fun other member => replaceable other (List.mem_cons_of_mem _ member)
        split
        case isTrue absent =>
          obtain ⟨result, after, ran⟩ :=
            inductionHypothesis report (knows.later key) readsLater replaceableLater (apartRest _ apart)
          rw [exec_bind_ok ran]
          exact ⟨_, _, rfl⟩
        case isFalse present =>
          have held := (knows (item, place) List.mem_cons_self key given new).mp (not_not.mp present)
          obtain ⟨old, read⟩ := reads (item, place) List.mem_cons_self key given held
          have decision := replacement_read given read
          rw [exec_bind_ok (exec_get store), read, exec_bind_ok (exec_ofExcept _ _)]
          split
          case h_1 _ found chosen =>
            rw [chosen] at decision
            obtain ⟨rfl, _⟩ := Option.filter_eq_some_iff.mp chosen
            obtain ⟨shelved, member, carried, sameId⟩ := read_carried read
            obtain ⟨writable, recent, ⟨validated, accepted⟩, check, unused⟩ :=
              replaceable (item, place) List.mem_cons_self (by rw [decision]; simp)
            obtain ⟨stored, middle, ran⟩ := @ingestReplacing_succeeds platform
              (readings.alone place) item found.id store validated writable recent accepted check
              (by rw [hasItem_iff_shelf, sameId]; exact ⟨shelved, member, rfl⟩)
              (by
                intro other otherGiven known knownIn otherCarried
                obtain rfl : key = other := Option.some.inj (given.symm.trans otherGiven)
                rw [carried_unique knownIn member otherCarried carried, sameId])
              (fun known knownIn same => unused (hasItem_iff_shelf.mpr ⟨known, knownIn, same⟩))
            obtain ⟨_, still, _, _, _, _, _, shelf⟩ := ingestReplacing_shelves ran
            rw [sameId] at shelf
            have sameUnder : ∀ other, other ≠ key →
                SameUnder other store.database.tables middle.database.tables :=
              fun other apart => sameUnder_replaced member carried shelf given apart
            have same : ∀ candidate ∈ firsts (key :: seen) rest,
                ∀ other ∈ candidate.1.externalId,
                  SameUnder other store.database.tables middle.database.tables :=
              fun candidate inRest other otherGiven => sameUnder other fun equal =>
                not_seen inRest otherGiven (equal ▸ List.mem_cons_self)
            rw [replacingMints, List.filter_cons_of_pos (by rw [decision]; rfl), List.map_cons,
              ← replacingMints] at apart
            obtain ⟨own, apartMints⟩ := List.nodup_cons.mp apart
            obtain ⟨result, after, loop⟩ := @inductionHypothesis (key :: seen)
              { report with ingested := report.ingested + 1 } middle
              ((knows.later key).moved sameUnder)
              (by
                intro candidate inRest other otherGiven held
                have same := same candidate inRest other otherGiven
                rw [same.lookup]
                exact readsLater candidate inRest other otherGiven (same.carries.mp held))
              (by
                intro candidate inRest replacing
                rw [replacement_congr (same candidate inRest)] at replacing
                refine (replaceableLater candidate inRest replacing).moved still shelf ?_
                intro minted
                have replaces := Option.isSome_iff_ne_none.mpr replacing
                exact own (List.mem_map.mpr ⟨candidate, List.mem_filter.mpr ⟨inRest, replaces⟩,
                  minted.symm⟩))
              (by rwa [replacingMints_congr same])
            have wrote : exec ((fun _ => ()) <$>
                ingestReplacing platform (readings.alone place) item found.id) store =
                (.ok (), middle) := by
              rw [exec_map, ran]
              rfl
            refine ⟨result, after, ?_⟩
            change exec ((fun _ => ()) <$> _ >>= _) store = _
            rw [exec_bind_ok wrote]
            exact loop
          case h_2 _ nothing =>
            exact inductionHypothesis _ (knows.later key) readsLater replaceableLater (apartRest _ apart)

end Singularmem.Ingest
