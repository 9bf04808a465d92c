import Singularmem.Search.Replay

/-!
# Handles that share a directory, each item added once

When no item is added twice, the disk and every live index agree on one vector
for each item. `Disk.Stores` says which entries a disk keeps: those its pair names
and those its journal holds, with the torn pair of an interrupted compaction
loose by exactly as many keys as replay will issue. `Live.Tracks` relates a
handle, stale or not, to that disk. The lemmas say what each part of a commit
preserves, the writes of an interrupted compaction included.
-/

namespace Singularmem.Search

open Library Singularmem.Core

/-- The disk keeps exactly these entries. -/
structure Disk.Stores (disk : Disk) (durable : Entry → Prop) : Prop where
  sound : disk.pair.Sound
  loose : disk.pair.Loose ((Live.loaded disk).missing disk).length
  known : ∀ id vector, disk.pair.view id = some vector → durable (id, vector)
  journalled : ∀ entry ∈ disk.journal, durable entry
  distinct : (disk.journal.map Prod.fst).Nodup
  complete : ∀ entry, durable entry →
    (Live.loaded disk).named entry.1 = true ∨ entry ∈ disk.journal
  unique : ∀ id first second, durable (id, first) → durable (id, second) → first = second

/-- A live index of a directory that keeps the durable entries: it reads only
durable and queued entries, its queue is not durable, and everything its handle
added is durable or queued. Unless it is stale, it extends the compacted keymap. -/
structure Live.Tracks (live : Live) (disk : Disk) (durable owned : Entry → Prop) : Prop where
  sound : live.pair.Sound
  tight : live.pair.Loose 0
  kept : live.tombstones = []
  known : ∀ id vector, live.view id = some vector →
    durable (id, vector) ∨ (id, vector) ∈ live.pending
  queued : ∀ entry ∈ live.pending, live.view entry.1 = some entry.2
  queue : ∀ entry ∈ live.pending, owned entry
  fresh : ∀ entry ∈ live.pending, ∀ vector, ¬ durable (entry.1, vector)
  distinct : (live.pending.map Prod.fst).Nodup
  owns : ∀ entry, owned entry → durable entry ∨ entry ∈ live.pending
  behind : live.generation ≤ disk.pair.keymap.generation
  extension : disk.pair.keymap.generation = live.generation →
    disk.pair.keymap.Extends live.pair.keymap

/-- A live index that starts from the compacted pair, of its own or just adopted,
and still has to replay the journal. -/
structure Live.Adopts (live : Live) (disk : Disk) (contents : Entry → Prop) : Prop where
  sound : live.pair.Sound
  loose : live.pair.Loose (live.missing disk).length
  kept : live.tombstones = []
  known : ∀ id vector, live.view id = some vector → contents (id, vector)
  covers : ∀ entry, contents entry → live.named entry.1 = true ∨ entry ∈ disk.journal
  generation : live.generation = disk.pair.keymap.generation
  extension : disk.pair.keymap.Extends live.pair.keymap

/-- What a compaction is about to write: every durable and queued entry and no
other, under keys that extend the compacted ones. -/
structure Live.Folds (live : Live) (disk : Disk) (contents : Entry → Prop) : Prop where
  sound : live.pair.Sound
  tight : live.pair.Loose 0
  reads : ∀ id vector, live.view id = some vector ↔ contents (id, vector)
  generation : live.generation = disk.pair.keymap.generation
  extension : disk.pair.keymap.Extends live.pair.keymap

/-- A queue of distinct items holds one vector for each. -/
theorem queue_unique {entries : List Entry} (distinct : (entries.map Prod.fst).Nodup)
    {id : ItemId} {first second : List F32} (left : (id, first) ∈ entries)
    (right : (id, second) ∈ entries) : first = second := by
  have read := latest_of_mem distinct left
  rw [latest_of_mem distinct right] at read
  exact (Option.some.inj read).symm

namespace Live

variable {live : Live} {disk : Disk} {durable owned contents : Entry → Prop}

/-- A named item reads something. -/
theorem view_of_named (sound : live.pair.Sound) {id : ItemId} (held : live.named id = true) :
    ∃ vector, live.view id = some vector :=
  Option.isSome_iff_exists.mp ((sound.view_isSome id).mpr held)

/-- An item that reads something is named. -/
theorem named_of_view (sound : live.pair.Sound) {id : ItemId} {vector : List F32}
    (read : live.view id = some vector) : live.named id = true :=
  (sound.view_isSome id).mp (Option.isSome_iff_exists.mpr ⟨vector, read⟩)

namespace Tracks

/-- A handle keeps tracking a disk whose compacted keymap moved on or stayed, and
which keeps more entries, none of them queued by this handle. -/
theorem move {after : Disk} {more : Entry → Prop} (tracks : live.Tracks disk durable owned)
    (grows : ∀ entry, durable entry → more entry)
    (apart : ∀ entry ∈ live.pending, ∀ vector, ¬ more (entry.1, vector))
    (moved : after.pair.keymap = disk.pair.keymap ∨
      disk.pair.keymap.generation < after.pair.keymap.generation) :
    live.Tracks after more owned := by
  have behind := tracks.behind
  refine { tracks with
    known := fun id vector read => (tracks.known id vector read).imp_left (grows _)
    fresh := apart
    owns := fun entry mine => (tracks.owns entry mine).imp_left (grows _)
    behind := ?_
    extension := ?_ }
  · rcases moved with same | later
    · rw [same]
      exact behind
    · omega
  · rcases moved with same | later
    · rw [same]
      exact tracks.extension
    · intro same
      omega

/-- Adding fresh entries queues them. -/
theorem add {entries : List Entry} (tracks : live.Tracks disk durable owned)
    (distinct : (entries.map Prod.fst).Nodup)
    (unstored : ∀ entry ∈ entries, ∀ vector, ¬ durable (entry.1, vector))
    (unowned : ∀ entry ∈ entries, ∀ vector, ¬ owned (entry.1, vector)) :
    (live.add entries).Tracks disk durable (fun entry => owned entry ∨ entry ∈ entries) := by
  have wellFormed := tracks.sound.wellFormed
  have view : ∀ id, (live.add entries).view id = (latest entries id).or (live.view id) :=
    Pair.placeAll_view wellFormed entries
  have unqueued : ∀ entry ∈ entries, ∀ vector, (entry.1, vector) ∉ live.pending :=
    fun entry member vector queued => unowned entry member vector (tracks.queue _ queued)
  have unnamed : ∀ entry ∈ entries, live.pair.keymap.reverse.lookup entry.1 = none := by
    intro entry member
    cases held : live.named entry.1 with
    | false => simpa [named] using held
    | true =>
      obtain ⟨vector, read⟩ := view_of_named tracks.sound held
      rcases tracks.known _ _ read with stored | queued
      · exact absurd stored (unstored entry member vector)
      · exact absurd queued (unqueued entry member vector)
  refine ⟨tracks.sound.placeAll entries, ?_, tracks.kept, ?_, ?_, ?_, ?_, ?_, ?_, ?_, ?_⟩
  · exact (tracks.tight.placeAll wellFormed entries).mono (Nat.sub_le _ _)
  · intro id vector read
    rw [view] at read
    cases placed : latest entries id with
    | some other =>
      rw [placed] at read
      have same : other = vector := by simpa using read
      exact .inr (List.mem_append_right _ (latest_mem (same ▸ placed)))
    | none =>
      rw [placed] at read
      exact (tracks.known id vector (by simpa using read)).imp_right (List.mem_append_left _)
  · intro entry member
    rw [view]
    rcases List.mem_append.mp member with old | new
    · have other : latest entries entry.1 = none := by
        rw [latest_eq_none]
        intro placed
        obtain ⟨added, present, same⟩ := List.mem_map.mp placed
        exact unqueued added present entry.2 (same ▸ old)
      rw [other, Option.none_or]
      exact tracks.queued entry old
    · rw [latest_of_mem distinct new, Option.some_or]
  · intro entry member
    exact (List.mem_append.mp member).imp_left (tracks.queue entry)
  · intro entry member
    rcases List.mem_append.mp member with old | new
    · exact tracks.fresh entry old
    · exact unstored entry new
  · change ((live.pending ++ entries).map Prod.fst).Nodup
    rw [List.map_append, List.nodup_append]
    refine ⟨tracks.distinct, distinct, ?_⟩
    intro first old second new same
    obtain ⟨queued, present, rfl⟩ := List.mem_map.mp old
    obtain ⟨added, member, rfl⟩ := List.mem_map.mp new
    exact unqueued added member queued.2 (same ▸ present)
  · intro entry mine
    rcases mine with old | new
    · exact (tracks.owns entry old).imp_right (List.mem_append_left _)
    · exact .inr (List.mem_append_right _ new)
  · exact tracks.behind
  · intro same
    exact (tracks.extension same).placeAll wellFormed distinct unnamed

end Tracks

end Live

namespace Disk.Stores

variable {live : Live} {disk : Disk} {durable owned : Entry → Prop}

/-- An empty disk keeps nothing. -/
theorem fresh : (⟨⟨∅, .default⟩, []⟩ : Disk).Stores (fun _ => False) := by
  refine ⟨.empty, ?_, ?_, by simp, by simp, by simp, by simp⟩
  · intro key held
    simp at held
  · intro id vector read
    simp [Pair.view, Keymap.default] at read

/-- No compacted item is queued. -/
theorem unnamed_of_fresh (stores : disk.Stores durable) {entries : List Entry}
    (fresh : ∀ entry ∈ entries, ∀ vector, ¬ durable (entry.1, vector)) :
    ∀ entry ∈ entries, disk.pair.keymap.reverse.lookup entry.1 = none := by
  intro entry member
  cases held : (Live.loaded disk).named entry.1 with
  | false => simpa [Live.named, Live.loaded] using held
  | true =>
    obtain ⟨vector, read⟩ := @Live.view_of_named (Live.loaded disk) stores.sound _ held
    exact absurd (stores.known _ _ read) (fresh entry member vector)

/-- Replaying the journal completes what was adopted. -/
theorem absorb (stores : disk.Stores durable) {contents : Entry → Prop}
    (adopts : live.Adopts disk contents) (grows : ∀ entry, durable entry → contents entry)
    (unique : ∀ id first second, contents (id, first) → contents (id, second) → first = second) :
    (live.absorb disk).Folds disk contents := by
  have wellFormed := adopts.sound.wellFormed
  have sound : (live.absorb disk).pair.Sound := adopts.sound.placeAll _
  have known : ∀ id vector, (live.absorb disk).view id = some vector → contents (id, vector) := by
    intro id vector read
    rw [Live.absorb_view wellFormed] at read
    by_cases missing : live.named id = false ∧ id ∉ live.tombstones
    · rw [if_pos missing] at read
      exact grows _ (stores.journalled _ (latest_mem read))
    · rw [if_neg missing] at read
      exact adopts.known id vector read
  refine ⟨sound, ?_, ?_, adopts.generation, ?_⟩
  · have placed := adopts.loose.placeAll wellFormed (live.missing disk)
    rwa [Nat.sub_self] at placed
  · intro id vector
    refine ⟨known id vector, ?_⟩
    intro stored
    have named : (live.absorb disk).named id = true := by
      rw [Live.absorb_named]
      rcases adopts.covers _ stored with held | journalled
      · exact .inl held
      · exact .inr ⟨List.mem_map_of_mem journalled, by simp [adopts.kept]⟩
    obtain ⟨other, read⟩ := Live.view_of_named sound named
    rw [read, unique id vector other stored (known id other read)]
  · refine adopts.extension.placeAll wellFormed ?_ ?_
    · exact stores.distinct.sublist (List.filter_sublist.map _)
    · intro entry member
      simpa [Live.named] using (Live.mem_missing.mp member).2.1

/-- A freshly loaded pair is adopted. -/
theorem loaded (stores : disk.Stores durable) : (Live.loaded disk).Adopts disk durable :=
  ⟨stores.sound, stores.loose, rfl, stores.known, stores.complete, rfl, .refl _⟩

/-- A fresh open reads exactly the durable entries. -/
theorem opened (stores : disk.Stores durable) : (Live.opened disk).Folds disk durable :=
  stores.absorb stores.loaded (fun _ stored => stored) stores.unique

/-- Durable and queued entries agree on one vector for each item. -/
theorem unique_queued (stores : disk.Stores durable) (tracks : live.Tracks disk durable owned)
    (id : ItemId) (first second : List F32)
    (left : durable (id, first) ∨ (id, first) ∈ live.pending)
    (right : durable (id, second) ∨ (id, second) ∈ live.pending) : first = second := by
  rcases left with stored | queued
  · rcases right with other | other
    · exact stores.unique id first second stored other
    · exact absurd stored (tracks.fresh _ other first)
  · rcases right with other | other
    · exact absurd other (tracks.fresh _ queued second)
    · exact queue_unique tracks.distinct queued other

/-- A handle adopts the compacted pair before it compacts: it never left it, or
it reloads it and inserts its queue again. -/
theorem reload (stores : disk.Stores durable) (tracks : live.Tracks disk durable owned) :
    (live.reload disk).Adopts disk (fun entry => durable entry ∨ entry ∈ live.pending) := by
  by_cases current : disk.pair.keymap.generation = live.generation
  · rw [Live.reload_current current]
    have extension := tracks.extension current
    refine ⟨tracks.sound, tracks.tight.mono (Nat.zero_le _), tracks.kept, tracks.known, ?_,
      current.symm, extension⟩
    rintro entry (stored | queued)
    · rcases stores.complete entry stored with held | journalled
      · obtain ⟨key, named⟩ := Option.isSome_iff_exists.mp held
        exact .inl (Live.named_iff.mpr
          (Option.isSome_iff_exists.mpr ⟨key, extension.kept _ _ named⟩))
      · exact .inr journalled
    · exact .inl (Live.named_of_view tracks.sound (tracks.queued entry queued))
  · rw [Live.reload_stale current]
    have wellFormed := stores.sound.wellFormed
    have unnamed := stores.unnamed_of_fresh tracks.fresh
    have named : ∀ id, ((disk.pair.placeAll live.pending).keymap.reverse.lookup id).isSome ↔
        id ∈ live.pending.map Prod.fst ∨ (disk.pair.keymap.reverse.lookup id).isSome :=
      Pair.placeAll_named live.pending
    refine ⟨stores.sound.placeAll _, ?_, tracks.kept, ?_, ?_, rfl,
      (Keymap.Extends.refl _).placeAll wellFormed tracks.distinct unnamed⟩
    · refine (stores.loose.placeAll wellFormed live.pending).mono
        (Nat.le_trans (Nat.sub_le _ _) (Nat.le_of_eq (congrArg List.length ?_)))
      refine List.filter_congr fun record journalled => ?_
      have unqueued : record.1 ∉ live.pending.map Prod.fst := by
        intro queued
        obtain ⟨entry, member, same⟩ := List.mem_map.mp queued
        exact tracks.fresh entry member record.2 (same ▸ stores.journalled record journalled)
      have same := named record.1
      simp only [unqueued, false_or] at same
      have flags : ((disk.pair.placeAll live.pending).keymap.reverse.lookup record.1).isNone =
          (disk.pair.keymap.reverse.lookup record.1).isNone := by
        rw [← Option.not_isSome, ← Option.not_isSome, Bool.eq_iff_iff.mpr same]
      simp [Live.loaded, tracks.kept, flags]
    · intro id vector read
      have placed : (latest live.pending id).or (disk.pair.view id) = some vector := by
        rw [← Pair.placeAll_view wellFormed]
        exact read
      cases queued : latest live.pending id with
      | some other =>
        rw [queued, Option.some_or] at placed
        exact .inr (latest_mem (Option.some.inj placed ▸ queued))
      | none =>
        rw [queued, Option.none_or] at placed
        exact .inl (stores.known id vector placed)
    · rintro entry (stored | queued)
      · refine (stores.complete entry stored).imp_left fun held => ?_
        exact (named entry.1).mpr (.inr held)
      · exact .inl ((named entry.1).mpr (.inl (List.mem_map_of_mem queued)))

/-- A live index that is folded over the journal reads what is durable and what
is queued, whether it was reloaded or not. -/
theorem folds (stores : disk.Stores durable) (tracks : live.Tracks disk durable owned) :
    (live.folded disk).Folds disk (fun entry => durable entry ∨ entry ∈ live.pending) :=
  stores.absorb (stores.reload tracks) (fun _ => .inl) (stores.unique_queued tracks)

/-- Journalling a queue makes it durable. -/
theorem journal (stores : disk.Stores durable) (tracks : live.Tracks disk durable owned) :
    ({ disk with journal := disk.journal ++ live.pending } : Disk).Stores
      (fun entry => durable entry ∨ entry ∈ live.pending) := by
  refine ⟨stores.sound, stores.loose.mono ?_, fun id vector read => .inl (stores.known id vector read),
    ?_, ?_, ?_, stores.unique_queued tracks⟩
  · simp only [Live.missing, List.filter_append, List.length_append]
    exact Nat.le_add_right _ _
  · intro entry member
    exact (List.mem_append.mp member).imp_left (stores.journalled entry)
  · rw [List.map_append, List.nodup_append]
    refine ⟨stores.distinct, tracks.distinct, ?_⟩
    intro first old second new same
    obtain ⟨stored, present, rfl⟩ := List.mem_map.mp old
    obtain ⟨queued, member, rfl⟩ := List.mem_map.mp new
    exact tracks.fresh queued member stored.2 (same ▸ stores.journalled stored present)
  · rintro entry (stored | queued)
    · exact (stores.complete entry stored).imp_right (List.mem_append_left _)
    · exact .inr (List.mem_append_right _ queued)

end Disk.Stores

namespace Live.Tracks

variable {live : Live} {disk : Disk} {durable owned : Entry → Prop}

/-- A handle whose queue was just journalled. -/
theorem drained (tracks : live.Tracks disk durable owned) :
    live.drained.Tracks { disk with journal := disk.journal ++ live.pending }
      (fun entry => durable entry ∨ entry ∈ live.pending) owned :=
  { tracks with
    known := fun id vector read => .inl (tracks.known id vector read)
    queued := by simp [Live.drained]
    queue := by simp [Live.drained]
    fresh := by simp [Live.drained]
    distinct := by simp [Live.drained]
    owns := fun entry mine => .inl (tracks.owns entry mine) }

end Live.Tracks

/-- A keymap that names nothing backwards names nothing forwards. -/
theorem Keymap.WellFormed.forward_empty {keymap : Keymap} (wellFormed : keymap.WellFormed)
    (nothing : ∀ id, keymap.reverse.lookup id = none) : keymap.forward = ∅ := by
  apply Finmap.ext_lookup
  intro key
  cases named : keymap.forward.lookup key with
  | none => rfl
  | some id =>
    have held := (wellFormed.inverse id key).mpr named
    rw [nothing] at held
    exact absurd held (by simp)

/-- A sound pair without vectors names nothing. -/
theorem Pair.Sound.unnamed_of_empty {pair : Pair} (sound : pair.Sound) (empty : pair.index = ∅)
    (id : ItemId) : pair.keymap.reverse.lookup id = none := by
  cases named : pair.keymap.reverse.lookup id with
  | none => rfl
  | some key =>
    have held := sound.served id key named
    rw [empty] at held
    simp at held

/-- The stamp of a generation does not touch what a pair holds. -/
theorem Pair.Sound.stamp {pair : Pair} (sound : pair.Sound) (generation : Nat) :
    (⟨pair.index, { pair.keymap with generation }⟩ : Pair).Sound :=
  ⟨⟨sound.wellFormed.inverse, sound.wellFormed.issued⟩, sound.served⟩

namespace Live.Folds

variable {live : Live} {disk : Disk} {contents durable owned : Entry → Prop}

/-- A folded index without vectors leaves nothing named, on disk or in memory. -/
theorem covers (folds : live.Folds disk contents) (wellFormed : disk.pair.keymap.WellFormed) :
    live.pair.index = ∅ → disk.pair.keymap.forward = ∅ ∧ live.pair.keymap.forward = ∅ := by
  intro empty
  have nothing := folds.sound.unnamed_of_empty empty
  refine ⟨wellFormed.forward_empty ?_, folds.sound.wellFormed.forward_empty nothing⟩
  intro id
  cases named : disk.pair.keymap.reverse.lookup id with
  | none => rfl
  | some key =>
    have held := folds.extension.kept id key named
    rw [nothing] at held
    exact absurd held (by simp)

/-- Contents that a folded index reads are one vector for each item. -/
theorem unique (folds : live.Folds disk contents) (id : ItemId) (first second : List F32)
    (left : contents (id, first)) (right : contents (id, second)) : first = second := by
  have read := (folds.reads id first).mpr left
  rw [(folds.reads id second).mpr right] at read
  exact (Option.some.inj read).symm

/-- A disk that holds the folded pair, whatever part of the contents its journal
still holds. -/
theorem stores_with (folds : live.Folds disk contents) {journal : List Entry}
    (journalled : ∀ entry ∈ journal, contents entry) (distinct : (journal.map Prod.fst).Nodup) :
    (⟨live.published.pair, journal⟩ : Disk).Stores contents := by
  have view : ∀ id, live.published.pair.view id = live.view id := fun _ => rfl
  refine ⟨folds.sound.stamp _, ?_, ?_, journalled, distinct, ?_, folds.unique⟩
  · exact Pair.Loose.mono folds.tight (Nat.zero_le _)
  · intro id vector read
    exact (folds.reads id vector).mp (view id ▸ read)
  · intro entry stored
    exact .inl (Live.named_of_view folds.sound ((folds.reads entry.1 entry.2).mpr stored))

/-- A published compaction leaves a disk that keeps the contents. -/
theorem stores (folds : live.Folds disk contents) :
    (⟨live.published.pair, []⟩ : Disk).Stores contents :=
  folds.stores_with (by simp) (by simp)

/-- The handle that published a compaction tracks what it wrote. -/
theorem tracks (folds : live.Folds disk contents) (mine : ∀ entry, owned entry → contents entry)
    (journal : List Entry) :
    live.published.Tracks ⟨live.published.pair, journal⟩ contents owned where
  sound := folds.sound.stamp _
  tight := folds.tight
  kept := rfl
  known := fun id vector read => .inl ((folds.reads id vector).mp read)
  queued := by simp [published]
  queue := by simp [published]
  fresh := by simp [published]
  distinct := by simp [published]
  owns := fun entry owned => .inl (mine entry owned)
  behind := Nat.le_refl _
  extension := fun _ => .refl _

/-- A compaction interrupted between its two renames leaves the folded graph
beside the old keymap: the old names still read their vectors, and the journal
covers every further key of the graph. -/
theorem torn (folds : live.Folds disk durable) (stores : disk.Stores durable) :
    (disk.apply (.graph live.pair.index)).Stores durable := by
  have extension := folds.extension
  have served : ∀ id key, disk.pair.keymap.reverse.lookup id = some key →
      live.pair.index.lookup key = live.view id := by
    intro id key named
    have held := extension.kept id key named
    simp [Live.view, Pair.view, held]
  have within : live.pair.keymap.names \ disk.pair.keymap.names ⊆
      (((Live.loaded disk).missing disk).map Prod.fst).toFinset := by
    intro id member
    obtain ⟨held, absent⟩ := Finset.mem_sdiff.mp member
    rw [Keymap.mem_names] at held absent
    obtain ⟨vector, read⟩ := Live.view_of_named folds.sound held
    have missing : (id, vector) ∈ (Live.loaded disk).missing disk := by
      rcases stores.complete _ ((folds.reads id vector).mp read) with named | journalled
      · exact absurd named absent
      · exact Live.mem_missing.mpr
          ⟨journalled, by simpa [Live.named, Live.loaded] using absent, List.not_mem_nil⟩
    exact List.mem_toFinset.mpr (List.mem_map_of_mem missing)
  have count : (live.pair.keymap.names \ disk.pair.keymap.names).card ≤
      ((Live.loaded disk).missing disk).length :=
    Nat.le_trans (Finset.card_le_card within)
      (Nat.le_trans (List.toFinset_card_le _) (by rw [List.length_map]))
  refine ⟨⟨stores.sound.wellFormed, ?_⟩, ?_, ?_, stores.journalled, stores.distinct,
    stores.complete, stores.unique⟩
  · intro id key named
    change (live.pair.index.lookup key).isSome
    rw [served id key named, Live.view, folds.sound.view_isSome, extension.kept id key named]
    rfl
  · intro key held
    rcases folds.tight key held with ⟨id, named⟩ | ⟨above, below⟩
    · refine (extension.beyond id key named).imp (fun old => ⟨id, old⟩) fun above => ⟨above, ?_⟩
      have issued := folds.sound.wellFormed.issued id key named
      have bound := extension.issued
      change key < disk.pair.keymap.nextKey + ((Live.loaded disk).missing disk).length
      omega
    · omega
  · intro id vector read
    cases named : disk.pair.keymap.reverse.lookup id with
    | none =>
      have nothing : (disk.apply (.graph live.pair.index)).pair.view id = none :=
        Pair.view_unnamed named
      rw [nothing] at read
      exact absurd read (by simp)
    | some key =>
      refine (folds.reads id vector).mp ?_
      rw [← served id key named, ← read]
      change _ = (disk.pair.keymap.reverse.lookup id).bind live.pair.index.lookup
      rw [named]
      rfl

end Live.Folds

/-- What a commit compacts from keeps its pair: journalling does not touch it. -/
theorem Live.beforeCompaction_pair (live : Live) (disk : Disk) (endOfBatch : Bool) :
    (live.beforeCompaction disk endOfBatch).2.pair = disk.pair := by
  cases endOfBatch with
  | true => rfl
  | false =>
    change (disk.after live.appendWrites).pair = disk.pair
    rw [disk.after_appendWrites]

/-- A compacting commit folds together what was durable and what was queued,
whether it journals the queue first or not. -/
theorem Disk.Stores.compacted {live : Live} {disk : Disk} {durable owned : Entry → Prop}
    (stores : disk.Stores durable) (tracks : live.Tracks disk durable owned) (endOfBatch : Bool) :
    (live.compacted disk endOfBatch).Folds (live.beforeCompaction disk endOfBatch).2
      (fun entry => durable entry ∨ entry ∈ live.pending) := by
  cases endOfBatch with
  | true => exact stores.folds tracks
  | false =>
    have journalled : live.beforeCompaction disk false =
        (live.drained, { disk with journal := disk.journal ++ live.pending }) := by
      simp [Live.beforeCompaction, disk.after_appendWrites]
    have folds := (stores.journal tracks).folds tracks.drained
    have same : (fun entry => (durable entry ∨ entry ∈ live.pending) ∨ entry ∈ live.drained.pending) =
        fun entry => durable entry ∨ entry ∈ live.pending := by
      funext entry
      simp [Live.drained]
    rw [same] at folds
    rw [Live.compacted, journalled]
    exact folds

end Singularmem.Search
