import Singularmem.Search.HybridQuery
import Singularmem.Search.Readded

/-!
# Removals that are compacted

A removal lives in the memory of its handle until that handle compacts. A stale handle takes
its graph and keymap from the disk first, and what it removed comes back with them if the
keymap on disk still names it.

Along runs in which no compaction of the removing handle meets this, an item that was removed
and compacted away is in no handle that is opened afterwards.
-/

namespace Singularmem.Search

open Library Singularmem.Core

/-- The visit adds the item. -/
def Visit.adds (id : ItemId) : Visit → Bool
  | .ask _ (.add entries) => id ∈ ids entries
  | .ask _ (.remove _) | .ask _ (.commit _) | .ask _ .compact | .open => false

/-- A commit that compacts on a stale handle does not find the item that the handle removed
in the keymap on disk. -/
def VectorIndex.Erases (handle : VectorIndex) (dir : Directory) (endOfBatch : Bool)
    (id : ItemId) : Prop :=
  handle.compacts dir endOfBatch = true → handle.Stale dir → id ∈ handle.tombstones →
    dir.pair.keymap.reverse.lookup id = none

instance (handle : VectorIndex) (dir : Directory) (endOfBatch : Bool) (id : ItemId) :
    Decidable (handle.Erases dir endOfBatch id) :=
  inferInstanceAs (Decidable (_ → _ ≠ _ → _ ∈ _ → _))

/-- The condition on commits of the handle that removed the item. -/
def Erasing (owner : Nat) (id : ItemId) : CommitCondition := fun i handle dir endOfBatch =>
  i = owner → handle.Erases dir endOfBatch id

instance (owner : Nat) (id : ItemId) (i : Nat) (handle : VectorIndex) (dir : Directory)
    (endOfBatch : Bool) : Decidable (Erasing owner id i handle dir endOfBatch) :=
  inferInstanceAs (Decidable (_ → _))

/-- The condition on a live index. -/
def Live.Erases (live : Live) (disk : Disk) (endOfBatch : Bool) (id : ItemId) : Prop :=
  live.compacts disk endOfBatch = true → disk.pair.keymap.generation ≠ live.generation →
    id ∈ live.tombstones → disk.named id = false

/-- The condition on a step of a hub. -/
def Hub.Erases (owner : Nat) (id : ItemId) (hub : Hub) : Visit → Prop
  | .ask i request => i = owner → ∀ live endOfBatch, hub.lives[owner]? = some live →
      request.endOfBatch = some endOfBatch → live.Erases hub.disk endOfBatch id
  | .open => True

/-- A live index that removed an item: it does not hold it, and its replay skips it. -/
structure Live.Buries (live : Live) (id : ItemId) : Prop where
  unnamed : live.named id = false
  removed : id ∈ live.tombstones

/-- An item was removed by a handle that has not compacted since, and nobody queues it. -/
structure Hub.Buries (hub : Hub) (owner : Nat) (id : ItemId) : Prop where
  sound : hub.Sound
  unqueued : ∀ live ∈ hub.lives, id ∉ ids live.pending
  buried : ∃ live, hub.lives[owner]? = some live ∧ live.Buries id

/-- A disk without an item, neither compacted nor journalled. -/
structure Disk.Lacks (disk : Disk) (id : ItemId) : Prop where
  unnamed : disk.named id = false
  unjournalled : id ∉ ids disk.journal

/-- An item is gone: the disk lacks it, nobody queues it, and neither the handles that are
not stale nor those from some number on hold it. -/
structure Hub.Lacks (hub : Hub) (since : Nat) (id : ItemId) : Prop where
  sound : hub.Sound
  unqueued : ∀ live ∈ hub.lives, id ∉ ids live.pending
  disk : hub.disk.Lacks id
  current : ∀ live ∈ hub.lives, hub.disk.pair.keymap.generation = live.generation →
    live.named id = false
  late : ∀ (j : Nat) (live : Live), since ≤ j → hub.lives[j]? = some live → live.named id = false

variable {live : Live} {disk : Disk} {id : ItemId}

/-- What a request queues: nothing that it does not add. -/
theorem Live.serve_unqueued {request : Request} {i : Nat} (unqueued : id ∉ ids live.pending)
    (unadded : (Visit.ask i request).adds id = false) :
    id ∉ ids (live.serve disk request).1.pending := by
  have commits : ∀ endOfBatch, id ∉ ids (live.committed disk endOfBatch).pending := by
    intro endOfBatch
    rw [Live.committed]
    split <;> exact List.not_mem_nil
  cases request with
  | add entries =>
    have others : id ∉ ids entries := by simpa [Visit.adds] using unadded
    have queued : ids (live.add entries).pending = ids live.pending ++ ids entries :=
      List.map_append
    exact queued ▸ List.not_mem_append unqueued others
  | remove removed =>
    intro member
    obtain ⟨entry, kept, rfl⟩ := List.mem_map.mp member
    exact unqueued (List.mem_map_of_mem (List.mem_of_mem_filter kept))
  | commit endOfBatch => exact commits endOfBatch
  | compact => exact commits true

/-- A compaction of the handle that removed the item leaves it out. -/
theorem Live.Buries.compacted (buries : live.Buries id) (behind : live.Behind disk)
    (compacted : disk.pair.Sound) (unqueued : id ∉ ids live.pending) {endOfBatch : Bool}
    (erases : disk.pair.keymap.generation ≠ live.generation → disk.named id = false) :
    (live.compacted disk endOfBatch).named id = false := by
  rw [Bool.eq_false_iff, ne_eq, behind.compacted_named compacted]
  rintro (restored | ⟨_, unremoved⟩)
  · split at restored
    case isTrue => simp [buries.unnamed] at restored
    case isFalse stale =>
      rcases restored with named | ⟨_, queued⟩
      · simp [erases stale] at named
      · exact unqueued queued
  · exact unremoved buries.removed

/-- Where the disk lacks the item, every compaction leaves it out. -/
theorem Disk.Lacks.compacted (lacks : disk.Lacks id) (behind : live.Behind disk)
    (compacted : disk.pair.Sound) (unqueued : id ∉ ids live.pending)
    (current : disk.pair.keymap.generation = live.generation → live.named id = false)
    (endOfBatch : Bool) : (live.compacted disk endOfBatch).named id = false := by
  rw [Bool.eq_false_iff, ne_eq, behind.compacted_named compacted]
  rintro (named | ⟨journalled | ⟨_, queued⟩, _⟩)
  · split at named
    case isTrue same => simp [current same] at named
    case isFalse =>
      rcases named with named | ⟨_, queued⟩
      · simp [lacks.unnamed] at named
      · exact unqueued queued
  · exact lacks.unjournalled journalled
  · exact unqueued queued

/-- A commit that compacts the item away leaves a disk without it. -/
theorem Disk.Lacks.published {endOfBatch : Bool} (compacts : live.compacts disk endOfBatch = true)
    (left : (live.compacted disk endOfBatch).named id = false) :
    (disk.after (live.commitWrites disk endOfBatch)).Lacks id := by
  rw [Disk.after_commitWrites, if_pos compacts]
  exact ⟨left, List.not_mem_nil⟩

/-- A commit of the removing handle leaves the item buried or, if it compacts, a disk
without it. -/
theorem Live.Buries.commit {endOfBatch : Bool} (buries : live.Buries id)
    (behind : live.Behind disk) (compacted : disk.pair.Sound) (unqueued : id ∉ ids live.pending)
    (erases : live.Erases disk endOfBatch id) :
    if live.compacts disk endOfBatch then
      (disk.after (live.commitWrites disk endOfBatch)).Lacks id ∧
        (live.committed disk endOfBatch).named id = false
    else (live.committed disk endOfBatch).Buries id := by
  rw [Live.committed]
  split
  case isTrue compacts =>
    have left := @Live.Buries.compacted _ _ _ buries behind compacted unqueued endOfBatch
      fun stale => erases compacts stale buries.removed
    exact ⟨.published compacts left, left⟩
  case isFalse => exact ⟨buries.unnamed, buries.removed⟩

/-- A compaction moves the disk past every live index. -/
theorem Live.Behind.outdated {other : Live} (behind : other.Behind disk) {endOfBatch : Bool}
    (compacts : live.compacts disk endOfBatch = true) :
    (disk.after (live.commitWrites disk endOfBatch)).pair.keymap.generation ≠ other.generation := by
  rw [Disk.after_commitWrites, if_pos compacts]
  change (live.compacted disk endOfBatch).generation + 1 ≠ _
  rw [live.compacted_generation]
  exact (Nat.lt_succ_of_le behind.current).ne'

/-- A commit that does not compact journals the queue. -/
theorem Disk.Lacks.journalled {endOfBatch : Bool} (lacks : disk.Lacks id)
    (unqueued : id ∉ ids live.pending) (plain : ¬live.compacts disk endOfBatch = true) :
    (disk.after (live.commitWrites disk endOfBatch)).Lacks id := by
  rw [Disk.after_commitWrites, if_neg plain]
  have appended : ids (disk.journal ++ live.pending) = ids disk.journal ++ ids live.pending :=
    List.map_append
  exact ⟨lacks.unnamed, appended ▸ List.not_mem_append lacks.unjournalled unqueued⟩

/-- Adding other items does not name this one. -/
theorem Live.add_unnamed {entries : List Entry} (others : id ∉ ids entries)
    (unnamed : live.named id = false) :
    (live.add entries).named id = false := by
  rw [Bool.eq_false_iff, ne_eq, Live.add_named]
  rintro (added | named)
  · exact others added
  · exact absurd (unnamed.symm.trans named) (by decide)

/-- Neither does a removal. -/
theorem Live.Behind.remove_unnamed (behind : live.Behind disk) (removed : ItemId)
    (unnamed : live.named id = false) : (live.remove removed).named id = false := by
  rw [Bool.eq_false_iff, ne_eq, Live.remove_named behind.sound.wellFormed]
  rintro ⟨named, _⟩
  exact absurd (unnamed.symm.trans named) (by decide)

/-- What a request does on a disk that lacks the item, to the disk and to the handle. -/
theorem Disk.Lacks.serve {request : Request} {i : Nat} (lacks : disk.Lacks id)
    (behind : live.Behind disk) (compacted : disk.pair.Sound) (unqueued : id ∉ ids live.pending)
    (current : disk.pair.keymap.generation = live.generation → live.named id = false)
    (unadded : (Visit.ask i request).adds id = false) :
    (live.serve disk request).2.Lacks id ∧
      ((live.serve disk request).2.pair.keymap.generation = (live.serve disk request).1.generation →
        (live.serve disk request).1.named id = false) ∧
      (live.named id = false → (live.serve disk request).1.named id = false) := by
  have commits : ∀ endOfBatch, (disk.after (live.commitWrites disk endOfBatch)).Lacks id ∧
      ((disk.after (live.commitWrites disk endOfBatch)).pair.keymap.generation =
        (live.committed disk endOfBatch).generation →
        (live.committed disk endOfBatch).named id = false) ∧
      (live.named id = false → (live.committed disk endOfBatch).named id = false) := by
    intro endOfBatch
    rw [Live.committed]
    split
    case isTrue compacts =>
      have left := lacks.compacted behind compacted unqueued current endOfBatch
      exact ⟨.published compacts left, fun _ => left, fun _ => left⟩
    case isFalse plain =>
      refine ⟨lacks.journalled unqueued plain, fun same => current ?_, fun unnamed => unnamed⟩
      rw [Disk.after_commitWrites, if_neg plain] at same
      exact same
  cases request with
  | add entries =>
    have others : id ∉ ids entries := by simpa [Visit.adds] using unadded
    have still := @Live.add_unnamed live id entries others
    exact ⟨lacks, fun same => still (current same), still⟩
  | remove removed =>
    have still := @Live.Behind.remove_unnamed _ _ id behind removed
    exact ⟨lacks, fun same => still (current same), still⟩
  | commit endOfBatch => exact commits endOfBatch
  | compact => exact commits true

/-- What a request does to the other handles. -/
theorem Live.Behind.beside_unnamed {other : Live} (behind : other.Behind disk)
    (current : disk.pair.keymap.generation = other.generation → other.named id = false)
    (live : Live) (request : Request) :
    (live.serve disk request).2.pair.keymap.generation = other.generation →
      other.named id = false := by
  have commits : ∀ endOfBatch, (disk.after (live.commitWrites disk endOfBatch)).pair.keymap.generation =
      other.generation → other.named id = false := by
    intro endOfBatch same
    by_cases compacts : live.compacts disk endOfBatch = true
    · exact absurd same (behind.outdated compacts)
    · rw [Disk.after_commitWrites, if_neg compacts] at same
      exact current same
  cases request with
  | add | remove => exact current
  | commit endOfBatch => exact commits endOfBatch
  | compact => exact commits true

/-- A fresh open of a disk that lacks the item does not hold it. -/
theorem Disk.Lacks.opened (lacks : disk.Lacks id) :
    (Live.opened disk).named id = false := by
  rw [Bool.eq_false_iff, ne_eq, Live.opened,
    @Live.absorb_named (Live.loaded disk)]
  rintro (named | ⟨journalled, _⟩)
  · exact absurd (lacks.unnamed.symm.trans named) (by decide)
  · exact lacks.unjournalled journalled

section Hubs

variable {hub next : Hub} {owner since : Nat} {visit : Visit}

/-- Nobody queues what nobody adds. -/
theorem Hub.unqueued_step (unqueued : ∀ live ∈ hub.lives, id ∉ ids live.pending)
    (unadded : visit.adds id = false) (stepped : hub.Step visit next) :
    ∀ live ∈ next.lives, id ∉ ids live.pending := by
  cases visit with
  | «open» =>
    cases stepped
    intro live member
    rcases List.mem_append.mp member with old | new
    · exact unqueued live old
    · exact List.mem_singleton.mp new ▸ List.not_mem_nil
  | ask i request =>
    obtain ⟨live, held, rfl⟩ := Option.map_eq_some_iff.mp stepped
    intro other member
    rcases List.mem_or_eq_of_mem_set member with old | rfl
    · exact unqueued other old
    · exact Live.serve_unqueued (unqueued live (List.mem_of_getElem? held)) unadded

/-- **Where an item is gone, every step keeps it away.** -/
theorem Hub.Lacks.step (lacks : hub.Lacks since id) (unadded : visit.adds id = false)
    (stepped : hub.Step visit next) : next.Lacks since id := by
  have sound := lacks.sound.after stepped
  have unqueued := Hub.unqueued_step lacks.unqueued unadded stepped
  cases visit with
  | «open» =>
    cases stepped
    have fresh := lacks.disk.opened
    refine ⟨sound, unqueued, lacks.disk, fun live member => ?_, fun j live late held => ?_⟩
    · rcases List.mem_append.mp member with old | new
      · exact lacks.current live old
      · exact fun _ => List.mem_singleton.mp new ▸ fresh
    · rcases World.Consistent.concat_split held with old | ⟨_, rfl⟩
      · exact lacks.late j live late old
      · exact fresh
  | ask i request =>
    obtain ⟨live, held, rfl⟩ := Option.map_eq_some_iff.mp stepped
    have member := List.mem_of_getElem? held
    obtain ⟨disk, current, still⟩ := lacks.disk.serve (lacks.sound.lives live member)
      lacks.sound.disk (lacks.unqueued live member) (lacks.current live member) unadded
    refine ⟨sound, unqueued, disk, fun other present => ?_, fun j other late present => ?_⟩
    · rcases List.mem_or_eq_of_mem_set present with old | rfl
      · exact (lacks.sound.lives other old).beside_unnamed (lacks.current other old) live request
      · exact current
    · by_cases same : i = j
      · subst same
        rw [List.getElem?_set_self (List.getElem?_eq_some_iff.mp held).1] at present
        exact Option.some.inj present ▸ still (lacks.late i live late held)
      · rw [List.getElem?_set_ne same] at present
        exact lacks.late j other late present

theorem Hub.Lacks.mono {later : Nat} (lacks : hub.Lacks since id) (le : since ≤ later) :
    hub.Lacks later id :=
  { lacks with late := fun j live late => lacks.late j live (le.trans late) }

/-- Handles are numbered once and for all. -/
theorem Hub.Step.length_le (stepped : hub.Step visit next) : hub.lives.length ≤ next.lives.length := by
  cases visit with
  | «open» =>
    cases stepped
    simp
  | ask i request =>
    obtain ⟨live, _, rfl⟩ := Option.map_eq_some_iff.mp stepped
    simp

/-- What a commit does. -/
theorem Request.serve_commit {endOfBatch : Bool} {request : Request}
    (commits : request.endOfBatch = some endOfBatch) (live : Live) (disk : Disk) :
    live.serve disk request =
      (live.committed disk endOfBatch, disk.after (live.commitWrites disk endOfBatch)) := by
  cases request with
  | add | remove => cases commits
  | commit | compact =>
    cases commits
    rfl

/-- **A commit of the handle that removed the item** makes the item gone if it compacts. -/
theorem Hub.Buries.commit {endOfBatch : Bool} {request : Request} (buries : hub.Buries owner id)
    (commits : request.endOfBatch = some endOfBatch)
    (erases : hub.Erases owner id (.ask owner request))
    (stepped : hub.Step (.ask owner request) next) :
    next.Lacks next.lives.length id ∨ (endOfBatch = false ∧ next.Buries owner id) := by
  have unadded : (Visit.ask owner request).adds id = false := by
    cases request with
    | add => cases commits
    | remove | commit | compact => rfl
  have sound := buries.sound.after stepped
  have unqueued := Hub.unqueued_step buries.unqueued unadded stepped
  obtain ⟨live, held, buried⟩ := buries.buried
  have behind := buries.sound.lives live (List.mem_of_getElem? held)
  have result := buried.commit behind buries.sound.disk
    (buries.unqueued live (List.mem_of_getElem? held)) (erases rfl live endOfBatch held commits)
  obtain ⟨found, same, rfl⟩ := Option.map_eq_some_iff.mp stepped
  obtain rfl : found = live := Option.some.inj (same.symm.trans held)
  have inside : owner < hub.lives.length := (List.getElem?_eq_some_iff.mp held).1
  rw [Request.serve_commit commits] at sound unqueued ⊢
  split at result
  case isTrue compacts =>
    refine .inl ⟨sound, unqueued, result.1, fun other present => ?_, fun j other late present => ?_⟩
    · rcases List.mem_or_eq_of_mem_set present with old | rfl
      · exact fun current => absurd current ((buries.sound.lives other old).outdated compacts)
      · exact fun _ => result.2
    · exact absurd (List.getElem?_eq_some_iff.mp present).1 (Nat.not_lt.mpr late)
  case isFalse plain =>
    refine .inr ⟨?_, sound, unqueued, _, List.getElem?_set_self inside, result⟩
    cases endOfBatch with
    | false => rfl
    | true => exact absurd rfl plain

/-- **One step after a removal**: the item stays buried, or it is gone. -/
theorem Hub.Buries.step (buries : hub.Buries owner id) (unadded : visit.adds id = false)
    (erases : hub.Erases owner id visit) (stepped : hub.Step visit next) :
    next.Buries owner id ∨ next.Lacks next.lives.length id := by
  have sound := buries.sound.after stepped
  have unqueued := Hub.unqueued_step buries.unqueued unadded stepped
  obtain ⟨live, held, buried⟩ := buries.buried
  have inside : owner < hub.lives.length := (List.getElem?_eq_some_iff.mp held).1
  cases visit with
  | «open» =>
    cases stepped
    refine .inl ⟨sound, unqueued, live, ?_, buried⟩
    rw [List.getElem?_append_left inside, held]
  | ask i request =>
    by_cases own : i = owner
    · subst own
      cases commits : request.endOfBatch with
      | some endOfBatch =>
        exact (buries.commit commits erases stepped).symm.imp_left And.right
      | none =>
        have behind := buries.sound.lives live (List.mem_of_getElem? held)
        obtain ⟨found, same, rfl⟩ := Option.map_eq_some_iff.mp stepped
        obtain rfl : found = live := Option.some.inj (same.symm.trans held)
        refine .inl ⟨sound, unqueued, _, List.getElem?_set_self inside, ?_⟩
        cases request with
        | commit | compact => cases commits
        | add entries =>
          have others : id ∉ ids entries := by simpa [Visit.adds] using unadded
          exact ⟨Live.add_unnamed others buried.unnamed, buried.removed⟩
        | remove removed =>
          refine ⟨behind.remove_unnamed removed buried.unnamed, ?_⟩
          change id ∈ if found.named removed then removed :: found.tombstones else found.tombstones
          split
          · exact List.mem_cons_of_mem removed buried.removed
          · exact buried.removed
    · obtain ⟨served, _, rfl⟩ := Option.map_eq_some_iff.mp stepped
      refine .inl ⟨sound, unqueued, live, ?_, buried⟩
      rw [List.getElem?_set_ne own, held]

/-- A removal buries the item. -/
theorem Hub.Buries.removed (sound : hub.Sound) {live : Live} (held : hub.lives[owner]? = some live)
    (named : live.named id = true)
    (others : ∀ (j : Nat) (other : Live), j ≠ owner → hub.lives[j]? = some other →
      id ∉ ids other.pending)
    (stepped : hub.Step (.ask owner (.remove id)) next) : next.Buries owner id := by
  have after := sound.after stepped
  have behind := sound.lives live (List.mem_of_getElem? held)
  obtain ⟨found, same, rfl⟩ := Option.map_eq_some_iff.mp stepped
  obtain rfl : found = live := Option.some.inj (same.symm.trans held)
  refine ⟨after, fun other present => ?_, _,
    List.getElem?_set_self (List.getElem?_eq_some_iff.mp held).1, ?_, ?_⟩
  · obtain ⟨j, present⟩ := List.getElem?_of_mem present
    by_cases own : owner = j
    · subst own
      rw [List.getElem?_set_self (List.getElem?_eq_some_iff.mp held).1] at present
      obtain rfl := Option.some.inj present
      intro queued
      obtain ⟨entry, kept, rfl⟩ := List.mem_map.mp queued
      simpa using (List.mem_filter.mp kept).2
    · rw [List.getElem?_set_ne own] at present
      exact others j other (Ne.symm own) present
  · rw [Bool.eq_false_iff, ne_eq]
    intro still
    exact ((Live.remove_named behind.sound.wellFormed id id).mp still).2 rfl
  · change id ∈ if found.named id then id :: found.tombstones else found.tombstones
    rw [if_pos named]
    exact List.mem_cons_self

end Hubs

section Runs

variable {embedder : Embedder} {world : World} {hub : Hub} {owner : Nat}

/-- The condition on the files is the one on the hub. -/
theorem erases_onHub {visit : Visit}
    (erases : world.AtCommits (Erasing owner id) visit)
    (reads : world.Reads embedder hub) : hub.Erases owner id visit := by
  cases visit with
  | «open» => exact ⟨⟩
  | ask i request =>
    rintro own live endOfBatch present commits compacts stale removed
    obtain ⟨handle, found, rfl⟩ := reads.opened present
    have keymap : world.dir.pair.keymap = hub.disk.pair.keymap := reads.shows.keymap
    have erased := erases handle endOfBatch (own ▸ found) commits own
      ((reads.compacts_eq found endOfBatch).trans compacts)
    rw [VectorIndex.Stale, keymap] at erased
    simpa [Disk.named] using erased stale removed

/-- **After a removal** the item is buried or gone, however the handles go on. -/
theorem buried_or_gone {labels : List Visit} {final : World}
    (run : Run (World.StepWith embedder (Erasing owner id)) world labels final)
    (unadded : ∀ visit ∈ labels, visit.adds id = false) (reads : world.Reads embedder hub)
    (buries : hub.Buries owner id) :
    ∃ reached, final.Reads embedder reached ∧
      (reached.Buries owner id ∨ reached.Lacks reached.lives.length id) := by
  refine Run.history
    (fun _ world => ∃ reached, world.Reads embedder reached ∧
      (reached.Buries owner id ∨ reached.Lacks reached.lives.length id))
    (fun labels => ∀ visit ∈ labels, visit.adds id = false)
    ?_ run ⟨hub, reads, .inl buries⟩
    (fun before ⟨later, joined⟩ visit member =>
      unadded visit (joined ▸ List.mem_append_left later member))
  rintro past world visit next ⟨reached, reads, state⟩ ⟨visited, erases⟩ unadded
  have others := unadded visit (List.mem_append_right past List.mem_cons_self)
  obtain ⟨after, stepped, readsNext⟩ := reads.visit visited
  refine ⟨after, readsNext, ?_⟩
  rcases state with buries | lacks
  · exact buries.step others (erases_onHub erases reads) stepped
  · exact .inr ((lacks.step others stepped).mono (Hub.Step.length_le stepped))

/-- **Where an item is gone** it stays gone. -/
theorem stays_gone {labels : List Visit} {final : World} {since : Nat}
    (run : Run (World.VisitStep embedder) world labels final)
    (unadded : ∀ visit ∈ labels, visit.adds id = false) (reads : world.Reads embedder hub)
    (lacks : hub.Lacks since id) :
    ∃ reached, final.Reads embedder reached ∧ reached.Lacks since id := by
  refine Run.history (fun _ world => ∃ reached, world.Reads embedder reached ∧ reached.Lacks since id)
    (fun labels => ∀ visit ∈ labels, visit.adds id = false) ?_ run ⟨hub, reads, lacks⟩
    (fun before ⟨later, joined⟩ visit member =>
      unadded visit (joined ▸ List.mem_append_left later member))
  rintro past world visit next ⟨reached, reads, lacks⟩ visited unadded
  obtain ⟨after, stepped, readsNext⟩ := reads.visit visited
  exact ⟨after, readsNext,
    lacks.step (unadded visit (List.mem_append_right past List.mem_cons_self)) stepped⟩

/-- A directory that no process has opened yet. -/
theorem World.Reads.unopened {start : Directory} (shows : Shows embedder start disk)
    (sound : disk.pair.Sound) : World.Reads embedder ⟨start, []⟩ ⟨disk, []⟩ :=
  ⟨shows, rfl, fun _ member => absurd member List.not_mem_nil, sound,
    fun _ member => absurd member List.not_mem_nil⟩

/-- A search finds only what the keymap names. -/
theorem VectorIndex.search_named {handle : VectorIndex} {neural : SemanticEngine}
    {arithmetic : Arithmetic} {vector : List F32} {count : Nat} {hits : List SemanticHit}
    (wellFormed : handle.keymap.WellFormed)
    (found : handle.search neural arithmetic vector count = .ok hits) :
    ∀ hit ∈ hits, (handle.keymap.reverse.lookup hit.id).isSome := by
  unfold VectorIndex.search at found
  split at found
  · cases found
  · cases near : neural.neighbours handle.inner vector count with
    | error =>
      rw [near] at found
      cases found
    | ok neighbours =>
      rw [near] at found
      cases found
      intro hit member
      obtain ⟨⟨key, distance⟩, _, translated⟩ := List.mem_filterMap.mp member
      obtain ⟨id, named, rfl⟩ := Option.map_eq_some_iff.mp translated
      exact Option.isSome_iff_exists.mpr ⟨key, (wellFormed.inverse id key).mpr named⟩

/-- **A removal that was compacted stays.** Whatever a directory holds: if a handle removes an
item that it held and that no other handle has queued, nobody adds it again, the removing
handle meets the condition and at last closes a batch or compacts, then no handle that is
opened afterwards ever holds the item or finds it. -/
theorem compacted_removals_stay {start : Directory} {past middle later : List Visit}
    {request : Request} {removing compacted final : World} {handle reader : VectorIndex} {j : Nat}
    (shows : Shows embedder start disk) (sound : disk.pair.Sound)
    (history : Run (World.VisitStep embedder) ⟨start, []⟩ past removing)
    (held : removing.handles[owner]? = some (some handle))
    (contains : (handle.keymap.reverse.lookup id).isSome)
    (others : ∀ (i : Nat) (other : VectorIndex), i ≠ owner →
      removing.handles[i]? = some (some other) → id ∉ ids other.pending)
    (removed : Run (World.StepWith embedder (Erasing owner id)) removing
      (.ask owner (.remove id) :: (middle ++ [.ask owner request])) compacted)
    (commits : request.endOfBatch = some true)
    (continued : Run (World.VisitStep embedder) compacted later final)
    (unadded : ∀ visit ∈ middle ++ later, visit.adds id = false)
    (late : compacted.handles.length ≤ j)
    (present : final.handles[j]? = some (some reader)) :
    reader.keymap.reverse.lookup id = none ∧
      ∀ neural arithmetic vector count hits,
        reader.search neural arithmetic vector count = .ok hits → ∀ hit ∈ hits, hit.id ≠ id := by
  simp only [List.mem_append, or_imp, forall_and] at unadded
  obtain ⟨hub, _, reads⟩ := (World.Reads.unopened shows sound).visits history
  cases removed with
  | @next _ cleared _ _ _ taken rest =>
    obtain ⟨after, stepped, readsAfter⟩ := reads.visit taken.1
    have buries : after.Buries owner id := by
      refine .removed reads.sound (reads.live held) contains (fun i other different present => ?_)
        stepped
      obtain ⟨found, there, rfl⟩ := reads.opened present
      exact others i found different there
    obtain ⟨beforeLast, before, last⟩ := rest.split
    obtain ⟨reached, readsReached, state⟩ := buried_or_gone before unadded.1 readsAfter buries
    obtain ⟨settled, steppedLast, readsSettled⟩ := readsReached.visit last.single.1
    have gone : settled.Lacks settled.lives.length id := by
      rcases state with buries | lacks
      · rcases buries.commit commits (erases_onHub last.single.2 readsReached) steppedLast with
          lacks | ⟨impossible, _⟩
        · exact lacks
        · cases impossible
      · refine (lacks.step ?_ steppedLast).mono (Hub.Step.length_le steppedLast)
        cases request with
        | add => cases commits
        | remove | commit | compact => rfl
    obtain ⟨ending, readsFinal, lacks⟩ := stays_gone continued unadded.2 readsSettled gone
    have count : compacted.handles.length = settled.lives.length := by
      simpa using congrArg List.length readsSettled.lives
    have unnamed : reader.live.named id = false :=
      lacks.late j reader.live (count ▸ late) (readsFinal.live present)
    have behind := lacks.sound.lives _ (List.mem_of_getElem? (readsFinal.live present))
    have absent : (reader.keymap.reverse.lookup id).isSome = false := unnamed
    refine ⟨by simpa using absent, fun neural arithmetic vector count hits found hit member same => ?_⟩
    have named := VectorIndex.search_named behind.sound.wellFormed found hit member
    rw [same, absent] at named
    cases named

/-- A journalled item is removed while another process commits, and compacted away; what the
other process does next does not bring it back. -/
theorem compacted_removal_stays : ∃ removing compacted final reader,
    Run (World.VisitStep ⟨"", 1⟩) .fresh
        [.open, .open, .ask 0 (.add [(⟨7⟩, [1])]), .ask 0 (.commit false),
          .ask 1 (.add [(⟨8⟩, [2])])] removing ∧
      Run (World.StepWith ⟨"", 1⟩ (Erasing 0 ⟨7⟩)) removing
        [.ask 0 (.remove ⟨7⟩), .ask 1 (.commit false), .ask 0 .compact] compacted ∧
      Run (World.VisitStep ⟨"", 1⟩) compacted [.ask 1 .compact, .open] final ∧
      final.handles[2]? = some (some reader) ∧ reader.keymap.reverse.lookup ⟨7⟩ = none := by
  obtain ⟨reader, computed⟩ := Option.isSome_iff_exists.mp (show ((Run.play
      (World.visited ⟨"", 1⟩) .fresh
      [.open, .open, .ask 0 (.add [(⟨7⟩, [1])]), .ask 0 (.commit false),
        .ask 1 (.add [(⟨8⟩, [2])])]).bind fun removing =>
      (removing.handles[0]?).join.bind fun handle =>
      if (handle.keymap.reverse.lookup ⟨7⟩).isSome ∧ removing.handles.length ≤ 2 ∧
        ∀ other ∈ (removing.handles[1]?).join, (⟨7⟩ : ItemId) ∉ ids other.pending then
      (Run.play (World.visitedWith ⟨"", 1⟩ (Erasing 0 ⟨7⟩)) removing
        [.ask 0 (.remove ⟨7⟩), .ask 1 (.commit false), .ask 0 .compact]).bind fun compacted =>
      if compacted.handles.length ≤ 2 then
      (Run.play (World.visited ⟨"", 1⟩) compacted [.ask 1 .compact, .open]).bind fun final =>
        (final.handles[2]?).join else none else none).isSome by decide +kernel)
  obtain ⟨removing, history, computed⟩ := Option.bind_eq_some_iff.mp computed
  obtain ⟨handle, held, computed⟩ := Option.bind_eq_some_iff.mp computed
  obtain ⟨⟨contains, few, unqueued⟩, computed⟩ := Option.ite_none_right_eq_some.mp computed
  obtain ⟨compacted, removed, computed⟩ := Option.bind_eq_some_iff.mp computed
  obtain ⟨late, computed⟩ := Option.ite_none_right_eq_some.mp computed
  obtain ⟨final, continued, computed⟩ := Option.bind_eq_some_iff.mp computed
  have pastRun := (Run.of_play history).mono fun _ _ _ => World.visited_step
  have removedRun := (Run.of_play removed).mono fun _ _ _ => World.visitedWith_step
  have laterRun := (Run.of_play continued).mono fun _ _ _ => World.visited_step
  have present := Option.join_eq_some_iff.mp computed
  have others : ∀ (i : Nat) (other : VectorIndex), i ≠ 0 →
      removing.handles[i]? = some (some other) → (⟨7⟩ : ItemId) ∉ ids other.pending := by
    intro i other different found
    have inside := (List.getElem?_eq_some_iff.mp found).1
    obtain rfl : i = 1 := by omega
    exact unqueued other (Option.join_eq_some_iff.mpr found)
  have fresh := World.Reads.fresh ⟨"", 1⟩
  refine ⟨removing, compacted, final, reader, pastRun, removedRun, laterRun, present, ?_⟩
  exact (@compacted_removals_stay _ ⟨7⟩ ⟨"", 1⟩ 0 .fresh _ [.ask 1 (.commit false)]
    [.ask 1 .compact, .open] .compact removing compacted final handle reader 2 fresh.shows
    fresh.sound.disk pastRun (Option.join_eq_some_iff.mp held) contains others removedRun rfl
    laterRun (by decide) late present).1

/-- Two processes hold a compacted item. One removes it, the other one adds another item and
compacts, and then the first compacts: the item is back, and a third process finds it. -/
theorem compacted_removal_returns : ∃ removing handle compacted final reader,
    Run (World.VisitStep ⟨"", 1⟩) .fresh
        [.open, .ask 0 (.add [(⟨7⟩, [1])]), .ask 0 .compact, .open] removing ∧
      removing.handles[0]? = some (some handle) ∧ (handle.keymap.reverse.lookup ⟨7⟩).isSome ∧
      Run (World.VisitStep ⟨"", 1⟩) removing
        [.ask 0 (.remove ⟨7⟩), .ask 1 (.add [(⟨8⟩, [2])]), .ask 1 .compact, .ask 0 .compact]
        compacted ∧
      Run (World.VisitStep ⟨"", 1⟩) compacted [.open] final ∧
      final.handles[2]? = some (some reader) ∧ (reader.keymap.reverse.lookup ⟨7⟩).isSome ∧
      reader.view ⟨7⟩ = some [1] := by
  obtain ⟨reader, computed⟩ := Option.isSome_iff_exists.mp (show ((Run.play
      (World.visited ⟨"", 1⟩) .fresh
      [.open, .ask 0 (.add [(⟨7⟩, [1])]), .ask 0 .compact, .open]).bind fun removing =>
      (removing.handles[0]?).join.bind fun handle =>
      if (handle.keymap.reverse.lookup ⟨7⟩).isSome then
      (Run.play (World.visited ⟨"", 1⟩) removing
        [.ask 0 (.remove ⟨7⟩), .ask 1 (.add [(⟨8⟩, [2])]), .ask 1 .compact,
          .ask 0 .compact]).bind fun compacted =>
      (Run.play (World.visited ⟨"", 1⟩) compacted [.open]).bind fun final =>
      (final.handles[2]?).join.bind fun reader =>
        if (reader.keymap.reverse.lookup ⟨7⟩).isSome ∧ reader.view ⟨7⟩ = some [1] then some reader
        else none else none).isSome by decide +kernel)
  obtain ⟨removing, history, computed⟩ := Option.bind_eq_some_iff.mp computed
  obtain ⟨handle, held, computed⟩ := Option.bind_eq_some_iff.mp computed
  obtain ⟨contains, computed⟩ := Option.ite_none_right_eq_some.mp computed
  obtain ⟨compacted, removed, computed⟩ := Option.bind_eq_some_iff.mp computed
  obtain ⟨final, continued, computed⟩ := Option.bind_eq_some_iff.mp computed
  obtain ⟨found, present, computed⟩ := Option.bind_eq_some_iff.mp computed
  obtain ⟨returned, _⟩ := Option.ite_none_right_eq_some.mp computed
  exact ⟨removing, handle, compacted, final, found,
    (Run.of_play history).mono fun _ _ _ => World.visited_step,
    Option.join_eq_some_iff.mp held, contains,
    (Run.of_play removed).mono fun _ _ _ => World.visited_step,
    (Run.of_play continued).mono fun _ _ _ => World.visited_step,
    Option.join_eq_some_iff.mp present, returned⟩

end Runs

end Singularmem.Search
