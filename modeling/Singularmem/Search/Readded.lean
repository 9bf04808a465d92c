import Singularmem.Search.Visits

/-!
# Items that are added again

A handle that removes an item remembers the removal until its next compaction, also when it
adds the item again meanwhile. Its replay of the journal then skips the item; where a reload
has thrown away the graph that held it, the compaction publishes a directory without it and
truncates the journal.

Along runs in which no compaction meets this, an item whose handle added it and committed
stays in the directory until that handle removes it, and every handle opened later holds it.
-/

namespace Singularmem.Search

open Library Singularmem.Core

/-- The items that a visit adds or removes, with its handle. -/
def Visit.touched : Visit → List (Nat × ItemId)
  | .ask handle (.add entries) => entries.map fun entry => (handle, entry.1)
  | .ask handle (.remove id) => [(handle, id)]
  | .ask _ (.commit _) | .ask _ .compact | .open => []

/-- Each item is added and removed by one handle only. -/
def TouchedByOne (visits : List Visit) : Prop :=
  ∀ first ∈ visits.flatMap Visit.touched, ∀ second ∈ visits.flatMap Visit.touched,
    first.2 = second.2 → first.1 = second.1

instance (visits : List Visit) : Decidable (TouchedByOne visits) :=
  inferInstanceAs (Decidable (∀ _ ∈ _, _))

/-- The handle removes the item. -/
def Visit.removes (handle : Nat) (id : ItemId) : Visit → Bool
  | .ask other (.remove removed) => other = handle && removed = id
  | _ => false

/-- The items of a list of entries. -/
def ids (entries : List Entry) : List ItemId := entries.map Prod.fst

/-- A commit that compacts on a stale handle finds every item that the handle removed and
holds again on disk or, if it closes a batch, in the queue. -/
def VectorIndex.Recalls (handle : VectorIndex) (dir : Directory) (endOfBatch : Bool) : Prop :=
  handle.compacts dir endOfBatch = true → handle.Stale dir →
    ∀ id ∈ handle.tombstones, (handle.keymap.reverse.lookup id).isSome →
      (dir.pair.keymap.reverse.lookup id).isSome ∨
        (endOfBatch = true ∧ id ∈ ids handle.pending)

instance (handle : VectorIndex) (dir : Directory) (endOfBatch : Bool) :
    Decidable (handle.Recalls dir endOfBatch) :=
  inferInstanceAs (Decidable (_ → _ ≠ _ → ∀ _ ∈ _, _ → _ ∨ (_ ∧ _)))

/-- A step that meets the condition, if it commits. -/
def World.RecallingStep (embedder : Embedder) : World → Visit → World → Prop :=
  World.StepWith embedder fun _ => VectorIndex.Recalls

/-- What is known of an item and its handle: it is not held, it was added, or a commit has
followed. -/
inductive Standing
  | out | added | kept
deriving DecidableEq

/-- How a visit changes that. -/
def Standing.after (owner : Nat) (id : ItemId) (standing : Standing) : Visit → Standing
  | .open => standing
  | .ask handle request =>
    if handle ≠ owner then standing
    else match request with
      | .add entries => if id ∈ ids entries ∧ standing = .out then .added else standing
      | .remove removed => if removed = id then .out else standing
      | .commit _ | .compact => if standing = .added then .kept else standing

/-- The standing of an item after visits. -/
def standing (owner : Nat) (id : ItemId) (visits : List Visit) : Standing :=
  visits.foldl (Standing.after owner id) .out

/-- The disk has the item: the compacted keymap names it, or it is journalled. -/
def Disk.Keeps (disk : Disk) (id : ItemId) : Prop :=
  disk.named id = true ∨ id ∈ ids disk.journal

/-- A live index of another handle: it never removed the item, and unless it is stale it
holds the item if the compacted keymap names it. -/
structure Live.Attends (live : Live) (disk : Disk) (id : ItemId) : Prop where
  unremoved : id ∉ live.tombstones
  holds : disk.pair.keymap.generation = live.generation → disk.named id = true →
    live.named id = true

/-- The live index of the item's handle: it holds the item, and the item is queued or the
disk has it. -/
structure Live.Owns (live : Live) (disk : Disk) (id : ItemId) : Prop where
  holds : live.named id = true
  secured : id ∈ ids live.pending ∨ disk.Keeps id

/-- What holds of an item, its handle and the others between calls. -/
structure Hub.Shares (hub : Hub) (owner : Nat) (id : ItemId) (standing : Standing) : Prop where
  sound : hub.Sound
  others : ∀ j live, j ≠ owner → hub.lives[j]? = some live → live.Attends hub.disk id
  owned : standing ≠ .out → ∃ live, hub.lives[owner]? = some live ∧ live.Owns hub.disk id
  kept : standing = .kept → hub.disk.Keeps id

variable {live : Live} {disk : Disk} {id : ItemId}

/-- A commit keeps what the disk has, unless a compaction leaves it out. -/
theorem Disk.Keeps.committed {endOfBatch : Bool}
    (secured : id ∈ ids live.pending ∨ disk.Keeps id)
    (included : live.compacts disk endOfBatch = true →
      (live.compacted disk endOfBatch).named id = true) :
    (disk.after (live.commitWrites disk endOfBatch)).Keeps id := by
  rw [Disk.after_commitWrites]
  split
  case isTrue compacts => exact .inl (included compacts)
  case isFalse plain =>
    rcases secured with queued | named | journalled
    · exact .inr (by simpa [ids] using .inr (by simpa [ids] using queued))
    · exact .inl named
    · exact .inr (by simpa [ids] using .inl (by simpa [ids] using journalled))

/-- A compaction of another handle includes what the disk has. -/
theorem Live.Attends.includes (attends : live.Attends disk id) (behind : live.Behind disk)
    (compacted : disk.pair.Sound) (endOfBatch : Bool) (keeps : disk.Keeps id) :
    (live.compacted disk endOfBatch).named id = true := by
  rw [behind.compacted_named compacted]
  rcases keeps with named | journalled
  · left
    split
    case isTrue current => exact attends.holds current named
    case isFalse => exact .inl named
  · exact .inr ⟨.inl journalled, attends.unremoved⟩

/-- A compaction of the item's own handle includes it, unless it was removed before and only
the journal has it. -/
theorem Live.Owns.includes (owns : live.Owns disk id) (behind : live.Behind disk)
    (compacted : disk.pair.Sound) (endOfBatch : Bool)
    (recalls : disk.pair.keymap.generation ≠ live.generation → id ∈ live.tombstones →
      disk.named id = true ∨ (endOfBatch = true ∧ id ∈ ids live.pending)) :
    (live.compacted disk endOfBatch).named id = true := by
  rw [behind.compacted_named compacted]
  split
  case isTrue => exact .inl owns.holds
  case isFalse stale =>
    by_cases found : disk.named id = true ∨ (endOfBatch = true ∧ id ∈ ids live.pending)
    · exact .inl found
    · have unremoved : id ∉ live.tombstones := fun removed => found (recalls stale removed)
      refine .inr ⟨?_, unremoved⟩
      rcases owns.secured with queued | named | journalled
      · cases endOfBatch with
        | true => exact absurd (.inr ⟨rfl, queued⟩) found
        | false => exact .inr ⟨rfl, queued⟩
      · exact absurd (.inl named) found
      · exact .inl journalled

/-- A fresh open holds what the compacted keymap names. -/
theorem Live.Attends.opened (disk : Disk) (id : ItemId) :
    (Live.opened disk).Attends disk id where
  unremoved := List.not_mem_nil
  holds _ named := (@Live.absorb_named (Live.loaded disk) disk id).mpr
    (.inl named)

/-- What other handles do. -/
theorem Live.Attends.beside {other : Live} (attends : other.Attends disk id)
    (behind : other.Behind disk) (live : Live) (request : Request) :
    other.Attends (live.serve disk request).2 id := by
  have commits : ∀ endOfBatch, other.Attends (disk.after (live.commitWrites disk endOfBatch)) id := by
    intro endOfBatch
    refine ⟨attends.unremoved, ?_⟩
    rw [Disk.after_commitWrites]
    split
    · intro current
      have later : (live.compacted disk endOfBatch).generation + 1 = other.generation := current
      rw [live.compacted_generation] at later
      exact absurd behind.current (by omega)
    · exact attends.holds
  cases request with
  | add | remove => exact attends
  | commit endOfBatch => exact commits endOfBatch
  | compact => exact commits true

/-- What the handle does itself, if it leaves the item alone. -/
theorem Live.Attends.serve (attends : live.Attends disk id) (behind : live.Behind disk)
    {request : Request} (other : request ≠ .remove id) :
    (live.serve disk request).1.Attends (live.serve disk request).2 id := by
  have commits : ∀ endOfBatch, (live.committed disk endOfBatch).Attends
      (disk.after (live.commitWrites disk endOfBatch)) id := by
    intro endOfBatch
    rw [Disk.after_commitWrites, Live.committed]
    split
    · exact ⟨List.not_mem_nil, fun _ named => named⟩
    · exact ⟨attends.unremoved, attends.holds⟩
  cases request with
  | add entries =>
    exact ⟨attends.unremoved, fun current named =>
      (Live.add_named entries id).mpr (.inr (attends.holds current named))⟩
  | remove removed =>
    have different : id ≠ removed := fun same => other (same ▸ rfl)
    refine ⟨?_, fun current named => ?_⟩
    · intro member
      change id ∈ (if live.named removed then removed :: live.tombstones else live.tombstones) at member
      split at member
      · rcases List.mem_cons.mp member with same | earlier
        · exact different same
        · exact attends.unremoved earlier
      · exact attends.unremoved member
    · exact (Live.remove_named behind.sound.wellFormed removed id).mpr
        ⟨attends.holds current named, different⟩
  | commit endOfBatch => exact commits endOfBatch
  | compact => exact commits true

/-- A request of another handle keeps what the disk has. -/
theorem Disk.Keeps.serve (keeps : disk.Keeps id) (attends : live.Attends disk id)
    (behind : live.Behind disk) (compacted : disk.pair.Sound) (request : Request) :
    (live.serve disk request).2.Keeps id := by
  cases request with
  | add | remove => exact keeps
  | commit endOfBatch =>
    exact .committed (.inr keeps) fun _ => attends.includes behind compacted endOfBatch keeps
  | compact => exact .committed (.inr keeps) fun _ => attends.includes behind compacted true keeps

/-- What is known of an item on its own handle. -/
structure Live.Stands (live : Live) (disk : Disk) (id : ItemId) (standing : Standing) : Prop where
  owned : standing ≠ .out → live.Owns disk id
  kept : standing = .kept → disk.Keeps id

/-- A commit of the item's own handle, compacting or not. -/
theorem Live.Stands.commit {standing : Standing} (stands : live.Stands disk id standing)
    (behind : live.Behind disk) (compacted : disk.pair.Sound) (endOfBatch : Bool)
    (recalls : live.compacts disk endOfBatch = true →
      disk.pair.keymap.generation ≠ live.generation → id ∈ live.tombstones →
      live.named id = true → disk.named id = true ∨ (endOfBatch = true ∧ id ∈ ids live.pending)) :
    (live.committed disk endOfBatch).Stands (disk.after (live.commitWrites disk endOfBatch)) id
      (if standing = .added then .kept else standing) := by
  have done : standing ≠ .out →
      (live.committed disk endOfBatch).named id = true ∧
        (disk.after (live.commitWrites disk endOfBatch)).Keeps id := by
    intro present
    have owns := stands.owned present
    have included : live.compacts disk endOfBatch = true →
        (live.compacted disk endOfBatch).named id = true := fun compacts =>
      owns.includes behind compacted endOfBatch fun stale removed =>
        recalls compacts stale removed owns.holds
    refine ⟨?_, .committed owns.secured included⟩
    rw [Live.committed]
    split
    case isTrue compacts => exact included compacts
    case isFalse => exact owns.holds
  have before : (if standing = .added then .kept else standing) ≠ Standing.out →
      standing ≠ .out := by
    split
    case isTrue added => exact fun _ => by rw [added]; decide
    case isFalse => exact fun present => present
  refine ⟨fun present => ?_, fun kept => ?_⟩
  · obtain ⟨named, keeps⟩ := done (before present)
    exact ⟨named, .inr keeps⟩
  · exact (done (before (by rw [kept]; decide))).2

/-- What a request of the item's own handle changes. -/
theorem Live.Stands.serve {standing : Standing} (stands : live.Stands disk id standing)
    (behind : live.Behind disk) (compacted : disk.pair.Sound) (owner : Nat) (request : Request)
    (recalls : ∀ endOfBatch, request.endOfBatch = some endOfBatch →
      live.compacts disk endOfBatch = true → disk.pair.keymap.generation ≠ live.generation →
      id ∈ live.tombstones → live.named id = true →
      disk.named id = true ∨ (endOfBatch = true ∧ id ∈ ids live.pending)) :
    (live.serve disk request).1.Stands (live.serve disk request).2 id
      (standing.after owner id (.ask owner request)) := by
  have own : ¬owner ≠ owner := fun different => different rfl
  simp only [Standing.after, if_neg own]
  cases request with
  | add entries =>
    have named := @Live.add_named live entries id
    have queued : id ∈ ids (live.add entries).pending ↔
        id ∈ ids live.pending ∨ id ∈ ids entries := by
      simp only [ids, Live.add, List.map_append, List.mem_append]
    by_cases added : id ∈ ids entries
    · have owns : (live.add entries).Owns disk id :=
        ⟨named.mpr (.inl added), .inl (queued.mpr (.inr added))⟩
      refine ⟨fun _ => owns, fun kept => stands.kept ?_⟩
      dsimp only at kept
      split at kept
      · cases kept
      · exact kept
    · have same : ¬(id ∈ ids entries ∧ standing = .out) := fun both => added both.1
      dsimp only
      rw [if_neg same]
      refine ⟨fun present => ?_, stands.kept⟩
      obtain ⟨holds, secured⟩ := stands.owned present
      exact ⟨named.mpr (.inr holds), secured.imp_left fun earlier => queued.mpr (.inl earlier)⟩
  | remove removed =>
    by_cases same : removed = id
    · dsimp only
      rw [if_pos same]
      exact ⟨fun present => absurd rfl present, by rintro ⟨⟩⟩
    · dsimp only
      rw [if_neg same]
      refine ⟨fun present => ?_, stands.kept⟩
      obtain ⟨holds, secured⟩ := stands.owned present
      refine ⟨(Live.remove_named behind.sound.wellFormed removed id).mpr ⟨holds, Ne.symm same⟩,
        secured.imp_left fun queued => ?_⟩
      obtain ⟨entry, member, rfl⟩ := List.mem_map.mp queued
      exact List.mem_map_of_mem (List.mem_filter.mpr ⟨member, by simpa using Ne.symm same⟩)
  | commit endOfBatch => exact stands.commit behind compacted endOfBatch (recalls endOfBatch rfl)
  | compact => exact stands.commit behind compacted true (recalls true rfl)

/-- The condition on a step of a hub, for one item and its handle. -/
def Hub.Recalls (hub : Hub) (owner : Nat) (id : ItemId) : Visit → Prop
  | .ask i request => i = owner → ∀ live endOfBatch, hub.lives[owner]? = some live →
      request.endOfBatch = some endOfBatch → live.compacts hub.disk endOfBatch = true →
      hub.disk.pair.keymap.generation ≠ live.generation → id ∈ live.tombstones →
      live.named id = true →
      hub.disk.named id = true ∨ (endOfBatch = true ∧ id ∈ ids live.pending)
  | .open => True

/-- **One step.** What is known of an item, its handle and the others is kept. -/
theorem Hub.Shares.step {hub next : Hub} {owner : Nat} {standing : Standing} {visit : Visit}
    (shares : hub.Shares owner id standing)
    (alone : ∀ pair ∈ visit.touched, pair.2 = id → pair.1 = owner)
    (recalls : hub.Recalls owner id visit) (stepped : hub.Step visit next) :
    next.Shares owner id (standing.after owner id visit) := by
  have sound := shares.sound.after stepped
  cases visit with
  | «open» =>
    cases stepped
    refine ⟨sound, fun j live different held => ?_, fun present => ?_, shares.kept⟩
    · rcases World.Consistent.concat_split held with old | ⟨_, rfl⟩
      · exact shares.others j live different old
      · exact .opened hub.disk id
    · obtain ⟨live, held, owns⟩ := shares.owned present
      refine ⟨live, ?_, owns⟩
      rw [List.getElem?_append_left (List.getElem?_eq_some_iff.mp held).1, held]
  | ask i request =>
    obtain ⟨live, held, rfl⟩ := Option.map_eq_some_iff.mp stepped
    have behind := shares.sound.lives live (List.mem_of_getElem? held)
    have inside : i < hub.lives.length := (List.getElem?_eq_some_iff.mp held).1
    have beside : ∀ j other, j ≠ owner → j ≠ i → hub.lives[j]? = some other →
        other.Attends (live.serve hub.disk request).2 id := fun j other different _ present =>
      (shares.others j other different present).beside
        (shares.sound.lives other (List.mem_of_getElem? present)) live request
    by_cases own : i = owner
    · subst own
      have stands : live.Stands hub.disk id standing := by
        refine ⟨fun present => ?_, shares.kept⟩
        obtain ⟨found, same, owns⟩ := shares.owned present
        exact Option.some.inj (held.symm.trans same) ▸ owns
      have served := stands.serve behind shares.sound.disk i request
        fun endOfBatch commits => recalls rfl live endOfBatch held commits
      refine ⟨sound, fun j other different present => ?_, fun present => ?_, served.kept⟩
      · rw [List.getElem?_set_ne (Ne.symm different)] at present
        exact beside j other different different present
      · exact ⟨_, List.getElem?_set_self inside, served.owned present⟩
    · have unmoved : standing.after owner id (.ask i request) = standing := if_pos own
      have attends := shares.others i live own held
      rw [unmoved]
      refine ⟨sound, fun j other different present => ?_, fun present => ?_, fun kept => ?_⟩
      · by_cases same : j = i
        · subst same
          rw [List.getElem?_set_self inside] at present
          obtain rfl := Option.some.inj present
          refine attends.serve behind ?_
          rintro rfl
          exact own (alone (j, id) (List.mem_singleton.mpr rfl) rfl)
        · rw [List.getElem?_set_ne (Ne.symm same)] at present
          exact beside j other different same present
      · obtain ⟨found, same, owns⟩ := shares.owned present
        refine ⟨found, ?_, owns.holds, ?_⟩
        · rw [List.getElem?_set_ne own, same]
        · exact owns.secured.imp_right fun keeps =>
            keeps.serve attends behind shares.sound.disk request
      · exact (shares.kept kept).serve attends behind shares.sound.disk request

/-- **Another handle goes on serving the item** that the disk has, if it leaves the item
alone. -/
theorem Live.Attends.serves (attends : live.Attends disk id) (behind : live.Behind disk)
    (compacted : disk.pair.Sound) (keeps : disk.Keeps id) (holds : live.named id = true)
    {request : Request} (other : request ≠ .remove id) :
    (live.serve disk request).1.named id = true := by
  have commits : ∀ endOfBatch, (live.committed disk endOfBatch).named id = true := by
    intro endOfBatch
    rw [Live.committed]
    split
    · exact attends.includes behind compacted endOfBatch keeps
    · exact holds
  cases request with
  | add entries => exact (Live.add_named entries id).mpr (.inr holds)
  | remove removed =>
    exact (Live.remove_named behind.sound.wellFormed removed id).mpr
      ⟨holds, fun same => other (same ▸ rfl)⟩
  | commit endOfBatch => exact commits endOfBatch
  | compact => exact commits true

/-- A handle that serves a kept item goes on serving it. -/
theorem Hub.Shares.serves {hub next : Hub} {owner reader : Nat} {visit : Visit}
    (shares : hub.Shares owner id .kept) (different : reader ≠ owner)
    (alone : ∀ pair ∈ visit.touched, pair.2 = id → pair.1 = owner)
    (stepped : hub.Step visit next) {live : Live} (reads : hub.lives[reader]? = some live)
    (holds : live.named id = true) :
    ∃ after, next.lives[reader]? = some after ∧ after.named id = true := by
  have inside : reader < hub.lives.length := (List.getElem?_eq_some_iff.mp reads).1
  cases visit with
  | «open» =>
    cases stepped
    refine ⟨live, ?_, holds⟩
    rw [List.getElem?_append_left inside, reads]
  | ask i request =>
    obtain ⟨served, held, rfl⟩ := Option.map_eq_some_iff.mp stepped
    by_cases same : i = reader
    · subst same
      obtain rfl : served = live := Option.some.inj (held.symm.trans reads)
      refine ⟨_, List.getElem?_set_self inside, ?_⟩
      refine (shares.others i served different held).serves
        (shares.sound.lives served (List.mem_of_getElem? held)) shares.sound.disk
        (shares.kept rfl) holds ?_
      rintro rfl
      exact different (alone (i, id) (List.mem_singleton.mpr rfl) rfl)
    · refine ⟨live, ?_, holds⟩
      rw [List.getElem?_set_ne same, reads]

section Standings

variable {owner : Nat} {visits : List Visit} {before : Standing}

/-- Without a removal a held item stays held. -/
theorem Standing.after_present {visit : Visit} (remains : visit.removes owner id = false)
    (present : before ≠ .out) : before.after owner id visit ≠ .out := by
  cases visit with
  | «open» => exact present
  | ask handle request =>
    by_cases own : handle = owner
    · simp only [Standing.after, if_neg (not_not.mpr own)]
      cases request with
      | add entries => simp [present]
      | remove removed =>
        have different : removed ≠ id := by simpa [Visit.removes, own] using remains
        simpa [different] using present
      | commit | compact =>
        dsimp only
        split
        · decide
        · exact present
    · simpa only [Standing.after, if_pos own] using present

/-- Without a removal a kept item stays kept. -/
theorem Standing.after_kept {visit : Visit} (remains : visit.removes owner id = false) :
    Standing.kept.after owner id visit = .kept := by
  cases visit with
  | «open» => rfl
  | ask handle request =>
    by_cases own : handle = owner
    · simp only [Standing.after, if_neg (not_not.mpr own)]
      cases request with
      | add entries => simp
      | remove removed =>
        have different : removed ≠ id := by simpa [Visit.removes, own] using remains
        simp [different]
      | commit | compact => rfl
    · simp only [Standing.after, if_pos own]

theorem Standing.foldl_present (remain : ∀ visit ∈ visits, visit.removes owner id = false)
    (present : before ≠ .out) : visits.foldl (Standing.after owner id) before ≠ .out := by
  induction visits generalizing before with
  | nil => exact present
  | cons visit rest inductionHypothesis =>
    exact inductionHypothesis (fun later member => remain later (List.mem_cons_of_mem _ member))
      (Standing.after_present (remain visit List.mem_cons_self) present)

theorem Standing.foldl_kept (remain : ∀ visit ∈ visits, visit.removes owner id = false) :
    visits.foldl (Standing.after owner id) .kept = .kept := by
  induction visits with
  | nil => rfl
  | cons visit rest inductionHypothesis =>
    rw [List.foldl_cons, Standing.after_kept (remain visit List.mem_cons_self)]
    exact inductionHypothesis fun later member => remain later (List.mem_cons_of_mem _ member)

/-- An item that was added and committed, and not removed since, is kept. -/
theorem standing_kept {past middle between : List Visit} {entries : List Entry}
    {request : Request} (added : id ∈ ids entries) (commits : request.endOfBatch ≠ none)
    (stays : ∀ visit ∈ middle, visit.removes owner id = false)
    (remains : ∀ visit ∈ between, visit.removes owner id = false) :
    standing owner id (past ++ .ask owner (.add entries) :: (middle ++ .ask owner request :: between)) =
      .kept := by
  have held : (standing owner id past).after owner id (.ask owner (.add entries)) ≠ .out := by
    by_cases absent : standing owner id past = .out
    · simp [Standing.after, added, absent]
    · simp [Standing.after, absent]
  have still := Standing.foldl_present stays held
  have committed : (middle.foldl (Standing.after owner id)
      ((standing owner id past).after owner id (.ask owner (.add entries)))).after owner id
        (.ask owner request) = .kept := by
    generalize middle.foldl _ _ = reached at still ⊢
    cases request with
    | add | remove => exact absurd rfl commits
    | commit | compact => cases reached <;> first | exact absurd rfl still | simp [Standing.after]
  rw [standing, List.foldl_append, List.foldl_cons, List.foldl_append, List.foldl_cons]
  change between.foldl _ ((middle.foldl _ ((standing owner id past).after _ _ _)).after _ _ _) = _
  rw [committed]
  exact Standing.foldl_kept remains

end Standings

section Runs

variable {embedder : Embedder} {world next : World} {hub : Hub} {owner : Nat}

/-- The condition on the files is the one on the hub. -/
theorem recalls_onHub {visit : Visit}
    (recalls : world.AtCommits (fun _ => VectorIndex.Recalls) visit)
    (reads : world.Reads embedder hub) (owner : Nat) (id : ItemId) :
    hub.Recalls owner id visit := by
  cases visit with
  | «open» => exact ⟨⟩
  | ask i request =>
    rintro rfl live endOfBatch present commits compacts stale removed held
    obtain ⟨handle, found, rfl⟩ := reads.opened present
    have same := reads.compacts_eq found endOfBatch
    have keymap : world.dir.pair.keymap = hub.disk.pair.keymap := reads.shows.keymap
    have recalled := recalls handle endOfBatch found commits (same ▸ compacts)
    rw [VectorIndex.Stale, keymap] at recalled
    exact recalled stale id removed held

/-- What a run does to one item, to its handle and to the others. -/
theorem shares_of_run {labels : List Visit}
    (run : Run (World.RecallingStep embedder) .fresh labels world)
    (alone : ∀ pair ∈ labels.flatMap Visit.touched, pair.2 = id → pair.1 = owner) :
    ∃ hub, world.Reads embedder hub ∧ hub.Shares owner id (standing owner id labels) := by
  refine Run.history
    (fun past world => ∃ hub, world.Reads embedder hub ∧
      hub.Shares owner id (standing owner id past))
    (fun past => ∀ pair ∈ past.flatMap Visit.touched, pair.2 = id → pair.1 = owner)
    ?_ run ⟨.fresh, .fresh embedder, .fresh, ?_, fun present => absurd rfl present, by rintro ⟨⟩⟩ ?_
  · rintro past world visit next ⟨hub, reads, shares⟩ ⟨visited, recalls⟩ alone
    obtain ⟨after, stepped, readsNext⟩ := reads.visit visited
    refine ⟨after, readsNext, ?_⟩
    rw [standing, List.foldl_append]
    refine shares.step (fun pair member => alone pair ?_) (recalls_onHub recalls reads owner id) stepped
    rw [List.flatMap_append]
    exact List.mem_append_right _ (by simpa using member)
  · rintro before ⟨later, rfl⟩ pair member
    exact alone pair (by rw [List.flatMap_append]; exact List.mem_append_left _ member)
  · intro j live _ present
    cases present

/-- **An item that was added again stays.** In a run whose commits recall what they should,
an item that its handle added, did not remove since and committed is in every handle opened
later, whatever the handles do afterwards, as long as its own does not remove it. -/
theorem readded_items_are_served {past middle between later : List Visit} {entries : List Entry}
    {request : Request} {before opened final : World}
    (history : Run (World.RecallingStep embedder) .fresh
      (past ++ .ask owner (.add entries) :: (middle ++ .ask owner request :: between)) before)
    (opening : World.RecallingStep embedder before .open opened)
    (continued : Run (World.RecallingStep embedder) opened later final)
    (touched : TouchedByOne
      (past ++ .ask owner (.add entries) :: (middle ++ .ask owner request :: between) ++
        .open :: later))
    (id : ItemId) (added : id ∈ ids entries) (commits : request.endOfBatch ≠ none)
    (last : ∀ visit ∈ middle ++ between ++ later, visit.removes owner id = false)
    (handle : VectorIndex)
    (present : final.handles[before.handles.length]? = some (some handle)) :
    (handle.view id).isSome := by
  obtain ⟨entry, member, rfl⟩ := List.mem_map.mp added
  have alone : ∀ pair ∈ (past ++ .ask owner (.add entries) ::
      (middle ++ .ask owner request :: between) ++ .open :: later).flatMap Visit.touched,
      pair.2 = entry.1 → pair.1 = owner := fun pair found same =>
    touched pair found (owner, entry.1) (List.mem_flatMap.mpr
      ⟨.ask owner (.add entries), by simp, List.mem_map.mpr ⟨entry, member, rfl⟩⟩) same
  simp only [List.mem_append, or_imp, forall_and] at last
  rw [List.flatMap_append, List.flatMap_cons] at alone
  simp only [List.mem_append, or_imp, forall_and] at alone
  obtain ⟨hub, reads, shares⟩ := shares_of_run history alone.1
  rw [standing_kept added commits last.1.1 last.1.2] at shares
  obtain ⟨_, stepped, readsOpened⟩ := reads.visit opening.1
  have sharesOpened := shares.step (fun _ none => absurd none List.not_mem_nil)
    (recalls_onHub opening.2 reads owner entry.1) stepped
  cases stepped
  have count : before.handles.length = hub.lives.length := by
    simpa using congrArg List.length reads.lives
  have different : hub.lives.length ≠ owner := by
    obtain ⟨_, held, _⟩ := shares.owned (by decide)
    exact (List.getElem?_eq_some_iff.mp held).1.ne'
  have initially : (Live.opened hub.disk).named entry.1 = true := by
    rw [Live.opened, @Live.absorb_named (Live.loaded hub.disk)]
    exact (shares.kept rfl).imp_right fun journalled => ⟨journalled, List.not_mem_nil⟩
  obtain ⟨final, readsFinal, sharesFinal, live, found, named⟩ := Run.history
    (fun _ world => ∃ reached, world.Reads embedder reached ∧
      reached.Shares owner entry.1 .kept ∧
      ∃ live, reached.lives[hub.lives.length]? = some live ∧ live.named entry.1 = true)
    (fun labels => (∀ visit ∈ labels, visit.removes owner entry.1 = false) ∧
      ∀ pair ∈ labels.flatMap Visit.touched, pair.2 = entry.1 → pair.1 = owner)
    (by
      rintro past world visit next ⟨reached, reads, shares, live, held, named⟩
        ⟨visited, recalls⟩ ⟨remains, alone⟩
      simp only [List.mem_append, List.mem_singleton, forall_eq, or_imp, forall_and,
        List.flatMap_append, List.flatMap_singleton] at remains alone
      obtain ⟨after, stepped, readsNext⟩ := reads.visit visited
      have kept := shares.step alone.2 (recalls_onHub recalls reads owner entry.1) stepped
      rw [Standing.after_kept remains.2] at kept
      exact ⟨after, readsNext, kept, shares.serves different alone.2 stepped held named⟩)
    continued
    ⟨_, readsOpened, sharesOpened, _, List.getElem?_concat_length, initially⟩
    (by
      rintro before ⟨after, rfl⟩
      exact ⟨fun visit member => last.2 visit (List.mem_append_left _ member),
        fun pair member => alone.2.2 pair
          (by rw [List.flatMap_append]; exact List.mem_append_left _ member)⟩)
  rw [count] at present
  have same := found.symm.trans (readsFinal.live present)
  obtain rfl := Option.some.inj same
  have sound := (sharesFinal.sound.lives _ (List.mem_of_getElem? found)).sound
  exact (sound.view_isSome entry.1).mpr named

/-- A process removes an item, another one compacts, and the first adds the item again,
which closes its batch: the item is served. -/
theorem readded_item_is_served :
    ∃ before opened handle, Run (World.RecallingStep ⟨"", 1⟩) .fresh
        [.open, .open, .ask 0 (.add [(⟨7⟩, [1])]), .ask 0 (.remove ⟨7⟩),
          .ask 1 (.add [(⟨8⟩, [2])]), .ask 1 .compact, .ask 0 (.add [(⟨7⟩, [1])]),
          .ask 0 .compact, .ask 1 .compact] before ∧
      World.RecallingStep ⟨"", 1⟩ before .open opened ∧
      opened.handles[before.handles.length]? = some (some handle) ∧
      (handle.view ⟨7⟩).isSome := by
  obtain ⟨handle, computed⟩ := Option.isSome_iff_exists.mp (show ((Run.play
      (World.visitedWith ⟨"", 1⟩ fun _ => VectorIndex.Recalls) .fresh
      [.open, .open, .ask 0 (.add [(⟨7⟩, [1])]), .ask 0 (.remove ⟨7⟩),
        .ask 1 (.add [(⟨8⟩, [2])]), .ask 1 .compact, .ask 0 (.add [(⟨7⟩, [1])]),
        .ask 0 .compact, .ask 1 .compact]).bind fun before =>
      (before.visitedWith ⟨"", 1⟩ (fun _ => VectorIndex.Recalls) .open).bind fun opened =>
        (opened.handles[before.handles.length]?).join).isSome by decide +kernel)
  obtain ⟨before, played, computed⟩ := Option.bind_eq_some_iff.mp computed
  obtain ⟨opened, reopened, computed⟩ := Option.bind_eq_some_iff.mp computed
  have present := Option.join_eq_some_iff.mp computed
  have history := (Run.of_play played).mono fun _ _ _ => World.visitedWith_step
  have opening := World.visitedWith_step reopened
  refine ⟨before, opened, handle, history, opening, present, ?_⟩
  exact @readded_items_are_served ⟨"", 1⟩ 0
    [.open, .open, .ask 0 (.add [(⟨7⟩, [1])]), .ask 0 (.remove ⟨7⟩), .ask 1 (.add [(⟨8⟩, [2])]),
      .ask 1 .compact] [] [.ask 1 .compact] [] [(⟨7⟩, [1])] .compact before opened opened history
    opening (.done opened) (by decide) ⟨7⟩ (by decide) (by decide) (by decide) handle present

/-- A process removes an item, another one compacts, and the first adds the item again and
commits; its next compaction loses the item, although no other process touched it. -/
theorem readded_item_is_lost :
    ∃ world handle, Run (World.VisitStep ⟨"", 1⟩) .fresh
        [.open, .open, .ask 0 (.add [(⟨7⟩, [1])]), .ask 0 (.remove ⟨7⟩),
          .ask 1 (.add [(⟨8⟩, [2])]), .ask 1 .compact, .ask 0 (.add [(⟨7⟩, [1])]),
          .ask 0 (.commit false), .ask 0 .compact, .open] world ∧
      TouchedByOne [.open, .open, .ask 0 (.add [(⟨7⟩, [1])]), .ask 0 (.remove ⟨7⟩),
          .ask 1 (.add [(⟨8⟩, [2])]), .ask 1 .compact, .ask 0 (.add [(⟨7⟩, [1])]),
          .ask 0 (.commit false), .ask 0 .compact, .open] ∧
      world.handles[2]? = some (some handle) ∧ handle.view ⟨7⟩ = none := by
  obtain ⟨handle, computed⟩ := Option.isSome_iff_exists.mp (show ((Run.play
      (World.visited ⟨"", 1⟩) .fresh
      [.open, .open, .ask 0 (.add [(⟨7⟩, [1])]), .ask 0 (.remove ⟨7⟩),
        .ask 1 (.add [(⟨8⟩, [2])]), .ask 1 .compact, .ask 0 (.add [(⟨7⟩, [1])]),
        .ask 0 (.commit false), .ask 0 .compact, .open]).bind fun world =>
      (world.handles[2]?).join.bind fun handle =>
        if handle.view ⟨7⟩ = none then some handle else none).isSome by decide +kernel)
  obtain ⟨world, played, computed⟩ := Option.bind_eq_some_iff.mp computed
  obtain ⟨found, present, computed⟩ := Option.bind_eq_some_iff.mp computed
  obtain ⟨absent, same⟩ := Option.ite_none_right_eq_some.mp computed
  cases same
  exact ⟨world, _, (Run.of_play played).mono fun _ _ _ => World.visited_step, by decide,
    Option.join_eq_some_iff.mp present, absent⟩

end Runs

end Singularmem.Search
