import Singularmem.Search.CommitPhases
import Singularmem.Search.Replay

/-!
# A commit and the adds between its sections

What a directory and a handle hold while a commit is between two of its sections. Records
that were added are queued, drained, journalled or named by the published keymap; between
the snapshot of the graph and that of the keymap they are only known to the handle.

`Progress.Coherent` is kept by every section of a commit, and by an add of new items
outside these two snapshots.
-/

namespace Singularmem.Search

open Library Singularmem.Core

/-- A published pair names items as a live pair does, with the same vectors. -/
structure Pair.Agrees (published live : Pair) : Prop where
  wellFormed : published.keymap.WellFormed
  kept : ∀ id key, published.keymap.reverse.lookup id = some key →
    live.keymap.reverse.lookup id = some key ∧ published.index.lookup key = live.index.lookup key

namespace Pair.Agrees

variable {published live : Pair}

theorem refl (wellFormed : live.keymap.WellFormed) : live.Agrees live :=
  ⟨wellFormed, fun _ _ named => ⟨named, rfl⟩⟩

/-- A key that is named holds a vector. -/
theorem served (agrees : published.Agrees live) (sound : live.Sound) {id : ItemId} {key : Nat}
    (named : published.keymap.reverse.lookup id = some key) :
    (published.index.lookup key).isSome := by
  obtain ⟨known, same⟩ := agrees.kept id key named
  rw [same]
  exact sound.served id key known

/-- Beside a graph that holds nothing, nothing is named. -/
theorem unnamed (agrees : published.Agrees live) (sound : live.Sound) (empty : live.index = ∅) :
    published.keymap.forward = ∅ := by
  refine Finmap.ext_lookup fun key => ?_
  rw [Finmap.lookup_empty, Option.eq_none_iff_forall_ne_some]
  intro id named
  have known := (agrees.kept id key ((agrees.wellFormed.inverse id key).mpr named)).1
  have held := sound.served id key known
  rw [empty, Finmap.lookup_empty] at held
  cases held

/-- A named item reads the same. -/
theorem view (agrees : published.Agrees live) {id : ItemId}
    (named : (published.keymap.reverse.lookup id).isSome) : published.view id = live.view id := by
  obtain ⟨key, named⟩ := Option.isSome_iff_exists.mp named
  obtain ⟨known, same⟩ := agrees.kept id key named
  rw [Pair.view, Pair.view, named, known]
  exact same

/-- Placing new items changes no named one. -/
theorem placeAll (agrees : published.Agrees live) (wellFormed : live.keymap.WellFormed)
    {entries : List Entry}
    (unnamed : ∀ entry ∈ entries, live.keymap.reverse.lookup entry.1 = none) :
    published.Agrees (live.placeAll entries) := by
  refine ⟨agrees.wellFormed, fun id key named => ?_⟩
  obtain ⟨known, same⟩ := agrees.kept id key named
  have absent : id ∉ entries.map Prod.fst := by
    rintro member
    obtain ⟨entry, entryIn, rfl⟩ := List.mem_map.mp member
    rw [unnamed entry entryIn] at known
    cases known
  have still := placeAll_reverse_of_notMem wellFormed absent
  have view := placeAll_view wellFormed entries id
  rw [latest_eq_none.mpr absent, Option.none_or, Pair.view, Pair.view, still, known] at view
  exact ⟨still.trans known, same.trans view.symm⟩

end Pair.Agrees

/-- An entry a reopen finds: journalled, or named by the published keymap. -/
def Disk.Finds (disk : Disk) (entry : Entry) : Prop :=
  entry ∈ disk.journal ∨ (disk.pair.keymap.reverse.lookup entry.1).isSome

/-- A commit under way: what the directory and the handle hold, what comes next, and the
entries that were added, that were there when the commit began, and that commits covered
which returned. -/
structure Progress where
  disk : Disk
  live : Live
  phase : Option Phase
  added : List Entry
  promised : List Entry
  covered : List Entry

/-- The graph was saved and the keymap was not serialised yet. -/
def Phase.betweenSnapshots : Phase → Bool
  | renamingGraph _ | serialising => true
  | _ => false

/-- Records that a commit drained and has not journalled. -/
def Phase.drained : Option Phase → List Entry
  | some (appending rest) => rest
  | _ => []

/-- The generation on disk is ahead of the handle's by this much. -/
def Phase.ahead : Option Phase → Nat
  | some clearing | some finishing => 1
  | _ => 0

namespace Progress

/-- Records on their way to the disk. -/
def queued (progress : Progress) : List Entry :=
  Phase.drained progress.phase ++ progress.live.pending

/-- What was added is queued or stored. -/
def Accounted (progress : Progress) : Prop :=
  ∀ entry ∈ progress.added, entry ∈ progress.queued ∨ progress.disk.Finds entry

/-- What each phase of a commit may rely on. -/
def Stage (progress : Progress) : Prop :=
  match progress.phase with
  | some (.inserting _) => False
  | some (.renamingGraph snapshot) => snapshot = progress.live.pair.index
  | some .serialising => progress.disk.pair.index = progress.live.pair.index
  | some (.renamingKeymap written) =>
    (⟨progress.disk.pair.index, written⟩ : Pair).Agrees progress.live.pair ∧
      written.generation = progress.live.generation + 1 ∧
      (progress.disk.pair.index = ∅ → written.forward = ∅) ∧
      (∀ record ∈ progress.disk.journal ++ (progress.promised ++ progress.covered),
        (written.reverse.lookup record.1).isSome) ∧
      ∀ entry ∈ progress.added,
        entry ∈ progress.queued ∨ (written.reverse.lookup entry.1).isSome
  | some .clearing => progress.Accounted ∧
    ∀ record ∈ progress.disk.journal ++ progress.promised,
      (progress.disk.pair.keymap.reverse.lookup record.1).isSome
  | some .finishing => progress.Accounted ∧ ∀ entry ∈ progress.promised, progress.disk.Finds entry
  | some (.appending rest) => progress.Accounted ∧
    (∀ entry ∈ progress.promised, entry ∈ rest ∨ progress.disk.Finds entry)
  | some .measuring => progress.Accounted ∧ ∀ entry ∈ progress.promised, progress.disk.Finds entry
  | some .draining => progress.Accounted ∧
    ∀ entry ∈ progress.promised, entry ∈ progress.live.pending ∨ progress.disk.Finds entry
  | some (.begun _) => progress.Accounted ∧
    ∀ entry ∈ progress.promised, entry ∈ progress.live.pending ∨ progress.disk.Finds entry
  | some .reloading | some .absorbing | some .snapshotting | none => progress.Accounted

/-- What holds between any two sections. -/
structure Coherent (progress : Progress) : Prop where
  sound : progress.live.pair.Sound
  agrees : progress.disk.pair.Agrees progress.live.pair
  named : ∀ record ∈ progress.disk.journal ++ progress.queued,
    (progress.live.pair.keymap.reverse.lookup record.1).isSome
  views : ∀ entry ∈ progress.added, progress.live.view entry.1 = some entry.2
  own : ∀ record ∈ progress.disk.journal ++ progress.queued, ∀ entry ∈ progress.added,
    record.1 = entry.1 → record = entry
  promised : ∀ entry ∈ progress.promised, entry ∈ progress.added
  covered : ∀ entry ∈ progress.covered, entry ∈ progress.added ∧ progress.disk.Finds entry
  generation : progress.disk.pair.keymap.generation =
    progress.live.generation + Phase.ahead progress.phase
  stage : progress.Stage

/-- An add. -/
def add (progress : Progress) (entries : List Entry) : Progress :=
  { progress with live := progress.live.add entries, added := progress.added ++ entries }

namespace Coherent

variable {progress : Progress}

/-- Known items are read back by name. -/
theorem added_named (coherent : progress.Coherent) {entry : Entry} (member : entry ∈ progress.added) :
    (progress.live.pair.keymap.reverse.lookup entry.1).isSome := by
  rw [← coherent.sound.view_isSome]
  change (progress.live.view entry.1).isSome
  rw [coherent.views entry member]
  rfl

/-- Adding new items outside the two snapshots of a compaction. -/
theorem add (coherent : progress.Coherent) {entries : List Entry}
    (distinct : (entries.map Prod.fst).Nodup)
    (unnamed : ∀ entry ∈ entries, progress.live.pair.keymap.reverse.lookup entry.1 = none)
    (calm : ∀ phase ∈ progress.phase, phase.betweenSnapshots = false) :
    (progress.add entries).Coherent := by
  have wellFormed := coherent.sound.wellFormed
  have names : ∀ id, ((progress.live.pair.placeAll entries).keymap.reverse.lookup id).isSome ↔
      id ∈ entries.map Prod.fst ∨ (progress.live.pair.keymap.reverse.lookup id).isSome :=
    fun id => Pair.placeAll_named entries id
  have apart : ∀ id, (progress.live.pair.keymap.reverse.lookup id).isSome →
      id ∉ entries.map Prod.fst := by
    intro id known member
    obtain ⟨entry, entryIn, rfl⟩ := List.mem_map.mp member
    rw [unnamed entry entryIn] at known
    cases known
  have queued : (progress.add entries).queued = progress.queued ++ entries := by
    rw [Progress.queued, Progress.queued, List.append_assoc]
    rfl
  have accounted : progress.Accounted → (progress.add entries).Accounted := by
    intro before entry member
    rw [queued, List.mem_append]
    rcases List.mem_append.mp member with old | new
    · exact (before entry old).imp_left .inl
    · exact .inl (.inr new)
  refine ⟨coherent.sound.placeAll entries, coherent.agrees.placeAll wellFormed unnamed, ?_, ?_, ?_,
    ?_, ?_, coherent.generation, ?_⟩
  · intro record member
    rw [queued, ← List.append_assoc] at member
    refine (names record.1).mpr ?_
    rcases List.mem_append.mp member with old | new
    · exact .inr (coherent.named record old)
    · exact .inl (List.mem_map_of_mem new)
  · intro entry member
    have placed : (progress.add entries).live.view entry.1 =
        (latest entries entry.1).or (progress.live.view entry.1) :=
      Pair.placeAll_view wellFormed entries entry.1
    rw [placed]
    rcases List.mem_append.mp member with old | new
    · rw [latest_eq_none.mpr (apart _ (coherent.added_named old)), Option.none_or]
      exact coherent.views entry old
    · rw [latest_of_mem distinct new, Option.some_or]
  · intro record recordIn entry member same
    rw [queued, ← List.append_assoc] at recordIn
    rcases List.mem_append.mp recordIn with oldRecord | newRecord
    · rcases List.mem_append.mp member with old | new
      · exact coherent.own record oldRecord entry old same
      · have known := coherent.named record oldRecord
        rw [same] at known
        exact absurd (List.mem_map_of_mem new) (apart _ known)
    · rcases List.mem_append.mp member with old | new
      · have known := coherent.added_named old
        rw [← same] at known
        exact absurd (List.mem_map_of_mem newRecord) (apart _ known)
      · exact List.inj_on_of_nodup_map distinct newRecord new same
  · exact fun entry member => List.mem_append_left entries (coherent.promised entry member)
  · exact fun entry member =>
      ⟨List.mem_append_left entries (coherent.covered entry member).1,
        (coherent.covered entry member).2⟩
  · have stage := coherent.stage
    obtain ⟨disk, live, phase, added, promised, covered⟩ := progress
    rcases phase with _ | phase
    · exact accounted stage
    · have quiet := calm phase rfl
      cases phase with
      | begun | draining =>
        refine ⟨accounted stage.1, fun entry member => ?_⟩
        exact (stage.2 entry member).imp_left fun waiting => List.mem_append_left entries waiting
      | appending | measuring | clearing | finishing => exact ⟨accounted stage.1, stage.2⟩
      | reloading | absorbing | snapshotting => exact accounted stage
      | inserting => exact stage.elim
      | renamingGraph | serialising => cases quiet
      | renamingKeymap written =>
        obtain ⟨agrees, generation, emptied, names, accounts⟩ := stage
        refine ⟨agrees.placeAll wellFormed unnamed, generation, emptied, names, ?_⟩
        intro entry member
        rw [queued, List.mem_append]
        rcases List.mem_append.mp member with old | new
        · exact (accounts entry old).imp_left .inl
        · exact .inl (.inr new)

/-- A section that leaves the live pair as it was, and queues and journals nothing new. -/
theorem move {next : Progress} (coherent : progress.Coherent) (pair : next.live.pair = progress.live.pair)
    (added : next.added = progress.added)
    (records : ∀ record ∈ next.disk.journal ++ next.queued,
      record ∈ progress.disk.journal ++ progress.queued)
    (promised : ∀ entry ∈ next.promised, entry ∈ progress.added)
    (covered : ∀ entry ∈ next.covered, entry ∈ progress.added ∧ next.disk.Finds entry)
    (agrees : next.disk.pair.Agrees progress.live.pair)
    (generation : next.disk.pair.keymap.generation = next.live.generation + Phase.ahead next.phase)
    (stage : next.Stage) : next.Coherent where
  sound := pair ▸ coherent.sound
  agrees := pair ▸ agrees
  named record member := pair ▸ coherent.named record (records record member)
  views entry member := by
    rw [Live.view, pair]
    exact coherent.views entry (added ▸ member)
  own record recordIn entry member :=
    coherent.own record (records record recordIn) entry (added ▸ member)
  promised := added ▸ promised
  covered := added ▸ covered
  generation := generation
  stage := stage

section Sections

variable {disk : Disk} {live : Live} {added promised covered : List Entry}

/-- A commit begins. -/
theorem begin (endOfBatch : Bool) (coherent : Coherent ⟨disk, live, none, added, promised, covered⟩) :
    Coherent ⟨disk, live, some (.begun endOfBatch), added, added, covered⟩ :=
  coherent.move rfl rfl (fun _ member => member) (fun _ member => member) coherent.covered
    coherent.agrees coherent.generation ⟨coherent.stage, coherent.stage⟩

theorem begun {endOfBatch : Bool}
    (coherent : Coherent ⟨disk, live, some (.begun endOfBatch), added, promised, covered⟩) :
    Coherent ⟨disk, live, some (if endOfBatch then .reloading else .draining), added, promised,
      covered⟩ := by
  cases endOfBatch with
  | true =>
    exact coherent.move rfl rfl (fun _ member => member) coherent.promised coherent.covered
      coherent.agrees coherent.generation coherent.stage.1
  | false =>
    exact coherent.move rfl rfl (fun _ member => member) coherent.promised coherent.covered
      coherent.agrees coherent.generation coherent.stage

theorem draining (coherent : Coherent ⟨disk, live, some .draining, added, promised, covered⟩) :
    Coherent ⟨disk, live.drained, some (.appending live.pending), added, promised, covered⟩ := by
  have queued : ∀ entry, entry ∈ live.pending ++ [] ↔ entry ∈ [] ++ live.pending := by simp
  refine coherent.move rfl rfl ?_ coherent.promised coherent.covered coherent.agrees
    coherent.generation ⟨fun entry member => ?_, coherent.stage.2⟩
  · intro record member
    rcases List.mem_append.mp member with journalled | waiting
    · exact List.mem_append_left _ journalled
    · exact List.mem_append_right _ ((queued record).mp waiting)
  · exact (coherent.stage.1 entry member).imp_left (queued entry).mpr

theorem appended (coherent : Coherent ⟨disk, live, some (.appending []), added, promised, covered⟩) :
    Coherent ⟨disk, live, some .measuring, added, promised, covered⟩ := by
  refine coherent.move rfl rfl (fun _ member => member) coherent.promised coherent.covered
    coherent.agrees coherent.generation ⟨coherent.stage.1, fun entry member => ?_⟩
  exact (coherent.stage.2 entry member).resolve_left List.not_mem_nil

/-- A chunk is journalled. -/
theorem appending {rest : List Entry} (count : Nat)
    (coherent : Coherent ⟨disk, live, some (.appending rest), added, promised, covered⟩) :
    Coherent ⟨disk.apply (.append (rest.take count)), live, some (.appending (rest.drop count)),
      added, promised, covered⟩ := by
  have parts : ∀ record, record ∈ rest ↔ record ∈ rest.take count ∨ record ∈ rest.drop count := by
    intro record
    rw [← List.mem_append, List.take_append_drop]
  have finds : ∀ entry, disk.Finds entry → (disk.apply (.append (rest.take count))).Finds entry :=
    fun entry found => found.imp_left (List.mem_append_left _)
  have moved : ∀ entry, entry ∈ rest →
      entry ∈ rest.drop count ∨ (disk.apply (.append (rest.take count))).Finds entry := by
    intro entry member
    rcases (parts entry).mp member with written | left
    · exact .inr (.inl (List.mem_append_right _ written))
    · exact .inl left
  refine coherent.move rfl rfl ?_ coherent.promised ?_ coherent.agrees coherent.generation ⟨?_, ?_⟩
  · intro record member
    change record ∈ (disk.journal ++ rest.take count) ++ (rest.drop count ++ live.pending) at member
    change record ∈ disk.journal ++ (rest ++ live.pending)
    simp only [List.mem_append, parts] at member ⊢
    tauto
  · exact fun entry member => (coherent.covered entry member).imp_right (finds entry)
  · intro entry member
    rcases coherent.stage.1 entry member with waiting | found
    · rcases List.mem_append.mp waiting with drained | pending
      · exact (moved entry drained).imp_left (List.mem_append_left _)
      · exact .inl (List.mem_append_right _ pending)
    · exact .inr (finds entry found)
  · intro entry member
    rcases coherent.stage.2 entry member with drained | found
    · exact moved entry drained
    · exact .inr (finds entry found)

theorem measured (coherent : Coherent ⟨disk, live, some .measuring, added, promised, covered⟩) :
    Coherent ⟨disk, live, some .reloading, added, promised, covered⟩ :=
  coherent.move rfl rfl (fun _ member => member) coherent.promised coherent.covered
    coherent.agrees coherent.generation coherent.stage.1

/-- What was there when the commit began is found once it returns. -/
theorem returned {phase : Phase} (coherent : Coherent ⟨disk, live, some phase, added, promised, covered⟩)
    (accounted : Progress.Accounted ⟨disk, live, none, added, promised, covered ++ promised⟩)
    (found : ∀ entry ∈ promised, disk.Finds entry) (quiet : Phase.drained (some phase) = [])
    {generation : Nat} (current : disk.pair.keymap.generation = generation)
    (tombstones : List ItemId) :
    Coherent ⟨disk, { live with generation, tombstones }, none, added, promised, covered ++ promised⟩ := by
  refine coherent.move rfl rfl ?_ coherent.promised ?_ coherent.agrees current accounted
  · intro record member
    rw [Progress.queued, quiet]
    exact member
  · intro entry member
    rcases List.mem_append.mp member with old | new
    · exact coherent.covered entry old
    · exact ⟨coherent.promised entry new, found entry new⟩

theorem reloading (coherent : Coherent ⟨disk, live, some .reloading, added, promised, covered⟩) :
    live.reload disk = live ∧ Coherent ⟨disk, live, some .absorbing, added, promised, covered⟩ :=
  ⟨Live.reload_current coherent.generation,
    coherent.move rfl rfl (fun _ member => member) coherent.promised coherent.covered
      coherent.agrees coherent.generation coherent.stage⟩

/-- Every journalled record is known. -/
theorem absorbing (coherent : Coherent ⟨disk, live, some .absorbing, added, promised, covered⟩) :
    live.missing disk = [] ∧
      Coherent ⟨disk, live, some .snapshotting, added, promised, covered⟩ := by
  refine ⟨?_, coherent.move rfl rfl (fun _ member => member) coherent.promised coherent.covered
    coherent.agrees coherent.generation coherent.stage⟩
  rw [List.eq_nil_iff_forall_not_mem]
  intro record member
  obtain ⟨journalled, unnamed, _⟩ := Live.mem_missing.mp member
  have known := coherent.named record (List.mem_append_left _ journalled)
  rw [← Live.named_iff] at known
  change live.named record.1 = true at known
  rw [known] at unnamed
  cases unnamed

theorem snapshotting (coherent : Coherent ⟨disk, live, some .snapshotting, added, promised, covered⟩) :
    Coherent ⟨disk, live.drained, some (.renamingGraph live.pair.index), added, promised, covered⟩ := by
  refine coherent.move rfl rfl ?_ coherent.promised coherent.covered coherent.agrees
    coherent.generation rfl
  intro record member
  rcases List.mem_append.mp member with journalled | none
  · exact List.mem_append_left _ journalled
  · cases none

theorem renamingGraph {snapshot : Graph}
    (coherent : Coherent ⟨disk, live, some (.renamingGraph snapshot), added, promised, covered⟩) :
    Coherent ⟨disk.apply (.graph snapshot), live, some .serialising, added, promised, covered⟩ := by
  have same : snapshot = live.pair.index := coherent.stage
  refine coherent.move rfl rfl (fun _ member => member) coherent.promised coherent.covered
    ⟨coherent.agrees.wellFormed, fun id key named => ?_⟩ coherent.generation same
  exact ⟨(coherent.agrees.kept id key named).1, congrArg (Finmap.lookup key) same⟩

/-- The keymap that is serialised names what the saved graph holds. -/
theorem serialising (coherent : Coherent ⟨disk, live, some .serialising, added, promised, covered⟩) :
    Coherent ⟨disk, live.stamp, some (.renamingKeymap live.stamped), added, promised, covered⟩ := by
  have same : disk.pair.index = live.pair.index := coherent.stage
  have wellFormed : live.stamped.WellFormed :=
    ⟨coherent.sound.wellFormed.inverse, coherent.sound.wellFormed.issued⟩
  refine ⟨⟨wellFormed, coherent.sound.served⟩, ⟨coherent.agrees.wellFormed, coherent.agrees.kept⟩,
    coherent.named, coherent.views, coherent.own, coherent.promised, coherent.covered,
    coherent.generation, ?_, rfl, ?_, ?_, ?_⟩
  · exact ⟨wellFormed, fun id key named => ⟨named, congrArg (Finmap.lookup key) same⟩⟩
  · intro empty
    rw [same] at empty
    exact (Pair.Agrees.refl coherent.sound.wellFormed).unnamed coherent.sound empty
  · intro record member
    rcases List.mem_append.mp member with journalled | known
    · exact coherent.named record (List.mem_append_left _ journalled)
    · refine coherent.added_named ?_
      rcases List.mem_append.mp known with begun | found
      · exact coherent.promised record begun
      · exact (coherent.covered record found).1
  · exact fun entry member => .inr (coherent.added_named member)

theorem renamingKeymap {written : Keymap}
    (coherent : Coherent ⟨disk, live, some (.renamingKeymap written), added, promised, covered⟩) :
    Coherent ⟨disk.apply (.keymap written), live, some .clearing, added, promised, covered⟩ := by
  obtain ⟨agrees, generation, _, names, accounts⟩ := coherent.stage
  refine coherent.move rfl rfl (fun _ member => member) coherent.promised ?_ agrees generation
    ⟨?_, ?_⟩
  · intro entry member
    exact ⟨(coherent.covered entry member).1,
      .inr (names entry (List.mem_append_right _ (List.mem_append_right _ member)))⟩
  · exact fun entry member => (accounts entry member).imp_right .inr
  · intro record member
    rcases List.mem_append.mp member with journalled | begun
    · exact names record (List.mem_append_left _ journalled)
    · exact names record (List.mem_append_right _ (List.mem_append_left _ begun))

theorem clearing (coherent : Coherent ⟨disk, live, some .clearing, added, promised, covered⟩) :
    Coherent ⟨disk.apply .clear, live, some .finishing, added, promised, covered⟩ := by
  obtain ⟨accounted, names⟩ := coherent.stage
  have finds : ∀ entry, disk.Finds entry → (disk.apply .clear).Finds entry := by
    rintro entry (journalled | named)
    · exact .inr (names entry (List.mem_append_left _ journalled))
    · exact .inr named
  refine coherent.move rfl rfl ?_ coherent.promised ?_ coherent.agrees coherent.generation ⟨?_, ?_⟩
  · exact fun record member => List.mem_append_right disk.journal member
  · exact fun entry member => (coherent.covered entry member).imp_right (finds entry)
  · exact fun entry member => (accounted entry member).imp_right (finds entry)
  · exact fun entry member => .inr (names entry (List.mem_append_right _ member))

end Sections

end Coherent

end Progress

end Singularmem.Search
