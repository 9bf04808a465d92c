import Singularmem.Search.Stops
import Singularmem.Search.VectorIndex

/-!
# What covers the items of a handle

An item is covered when a later open finds it: the queue, the journal or the keymap on disk
knows it. A batch is inserted entry by entry and queued as a whole at its end, so a call of the
graph library that fails in between leaves the entries before it in the handle, and in none
of the three.
-/

namespace Singularmem.Search

open Library Singularmem.Core Effect

/-- Whether an item is present in the index. -/
def VectorIndex.contains (handle : VectorIndex) (id : ItemId) : Bool :=
  (handle.keymap.reverse.lookup id).isSome

/-- The item's id is in the journal or in the keymap on disk. -/
def Session.Stored (session : Session) (id : ItemId) : Prop :=
  id ∈ (Journal.replay session.handle.journal session.dir.journal).map Prod.fst ∨
    ((session.dir.keymap.getD .default).reverse.lookup id).isSome

/-- The item's id is in the queue, in the journal or in the keymap on disk. -/
def Session.Covered (session : Session) (id : ItemId) : Prop :=
  id ∈ session.handle.pending.map Prod.fst ∨ session.Stored id

/-- Every item that the handle contains is covered. -/
def Session.Covers (session : Session) : Prop :=
  ∀ id, session.handle.contains id → session.Covered id

/-- The batch stops at an entry after it inserted one of another item, which nothing else
covers. -/
def Session.Strands (session : Session) (entries : List Entry) : Prop :=
  (∀ entry ∈ entries, entry.2.length = session.handle.meta.dim) ∧
    session.faults.head? ≠ some true ∧
    ∃ stop ∈ session.handle.pair.stop session.faults.tail entries,
      ∃ entry ∈ stop.1, entry.1 ≠ stop.2.1 ∧ ¬ session.Covered entry.1

instance (session : Session) (id : ItemId) : Decidable (session.Stored id) :=
  inferInstanceAs (Decidable (_ ∨ _))

instance (session : Session) (id : ItemId) : Decidable (session.Covered id) :=
  inferInstanceAs (Decidable (_ ∨ _))

instance (session : Session) (entries : List Entry) : Decidable (session.Strands entries) :=
  inferInstanceAs (Decidable ((∀ _ ∈ _, _) ∧ _ ∧ ∃ _ ∈ _, ∃ _ ∈ _, _ ∧ _))

section Batches

variable {session : Session} {entries : List Entry}

theorem VectorIndex.contains_iff {handle : VectorIndex} {id : ItemId} :
    handle.contains id ↔ (handle.keymap.reverse.lookup id).isSome :=
  Iff.rfl

/-- A batch of another dimension is refused. -/
theorem addEntries_refused {entry : Entry} {queue : Bool}
    (refused : entries.find? (fun entry => entry.2.length ≠ session.handle.meta.dim) = some entry) :
    (addEntries entries queue).exec session =
      (.error (.dimMismatch session.handle.meta.dim entry.2.length), session) := by
  rw [addEntries, exec_bind_ok (exec_get _)]
  simp only [refused]
  rfl

/-- A batch that is inserted is queued. -/
theorem addBatch_inserted {after : IndexState}
    (dimensions : ∀ entry ∈ entries, entry.2.length = session.handle.meta.dim)
    (inserted : (insertEntries entries).exec
      ⟨session.faults, session.handle.inner, session.handle.keymap⟩ = (.ok ⟨⟩, after)) :
    (VectorIndex.addBatch entries).exec session =
      (.ok ⟨⟩, { session with
        faults := after.faults
        handle := { session.handle.withPair after.pair with
          pending := session.handle.pending ++ entries } }) := by
  have accepted : entries.find? (fun entry => entry.2.length ≠ session.handle.meta.dim) = none := by
    simpa using dimensions
  rw [VectorIndex.addBatch, addEntries, exec_bind_ok (exec_get _)]
  simp only [accepted]
  rw [onIndex, exec_bind, exec_zoom, inserted]
  rfl

/-- A batch whose insertion fails is not queued. -/
theorem addBatch_threw {error : Error} {after : IndexState}
    (dimensions : ∀ entry ∈ entries, entry.2.length = session.handle.meta.dim)
    (failed : (insertEntries entries).exec
      ⟨session.faults, session.handle.inner, session.handle.keymap⟩ = (.error error, after)) :
    (VectorIndex.addBatch entries).exec session =
      (.error error, { session with
        faults := after.faults
        handle := session.handle.withPair after.pair }) := by
  have accepted : entries.find? (fun entry => entry.2.length ≠ session.handle.meta.dim) = none := by
    simpa using dimensions
  rw [VectorIndex.addBatch, addEntries, exec_bind_ok (exec_get _)]
  simp only [accepted]
  rw [onIndex, exec_bind, exec_zoom, failed]

/-- What a batch that stops leaves in the handle. -/
theorem stopped_names {pair : Pair} {before : List Entry} {stopped : ItemId} {keymap : Keymap}
    (left : keymap = ((pair.placeAll before).evict stopped).keymap ∨
      keymap = ((pair.placeAll before).evict stopped).keymap.advance) (id : ItemId) :
    (keymap.reverse.lookup id).isSome ↔ id ≠ stopped ∧
      (id ∈ before.map Prod.fst ∨ (pair.keymap.reverse.lookup id).isSome) := by
  rw [← Pair.placeAll_named, ← Pair.evict_named]
  obtain rfl | rfl := left
  · exact Iff.rfl
  · exact Iff.rfl

/-- **A batch keeps everything covered** exactly where it strands nothing. -/
theorem addBatch_covers_iff (covers : session.Covers) (entries : List Entry) :
    ((VectorIndex.addBatch entries).exec session).2.Covers ↔ ¬ session.Strands entries := by
  rcases checked : entries.find? (fun entry => entry.2.length ≠ session.handle.meta.dim)
    with _ | wrong
  case some =>
    rw [VectorIndex.addBatch, addEntries_refused checked]
    refine iff_of_true covers fun strands => ?_
    have same := strands.1 wrong (List.mem_of_find?_eq_some checked)
    simpa [same] using List.find?_some checked
  have dimensions : ∀ entry ∈ entries, entry.2.length = session.handle.meta.dim := by
    simpa using checked
  cases entries with
  | nil =>
    rw [addBatch_inserted dimensions rfl]
    refine iff_of_true (fun id named => ?_) fun ⟨_, _, stop, stops, _⟩ => by cases stops
    exact (covers id named).imp_left fun queued => List.map_append ▸ List.mem_append_left _ queued
  | cons first others =>
    by_cases reserved : session.faults.head? = some true
    · obtain ⟨error, failed⟩ := @insertEntries_refused session.handle.pair session.faults
        (first :: others) reserved (by simp)
      rw [addBatch_threw dimensions failed]
      exact iff_of_true covers fun strands => strands.2.1 reserved
    have reserves := @insertEntries_reserves session.handle.pair session.faults
      (first :: others) reserved (by simp)
    cases stops : session.handle.pair.stop session.faults.tail (first :: others) with
    | none =>
      obtain ⟨rest, inserted⟩ := insertLoop_returns stops
      rw [addBatch_inserted dimensions (reserves.trans inserted)]
      refine iff_of_true (fun id named => ?_) fun ⟨_, _, stop, found, _⟩ => by
        rw [stops] at found
        cases found
      rcases (Pair.placeAll_named _ id).mp named with added | old
      · exact .inl (List.map_append ▸ List.mem_append_right _ added)
      · exact (covers id old).imp_left fun queued =>
          List.map_append ▸ List.mem_append_left _ queued
    | some stop =>
      obtain ⟨before, stopped⟩ := stop
      obtain ⟨error, after, failed, left⟩ := insertLoop_stops stops
      rw [addBatch_threw dimensions (reserves.trans failed)]
      have names := stopped_names left
      constructor
      · rintro kept ⟨_, _, stop, found, entry, member, other, uncovered⟩
        obtain rfl := Option.some.inj (stops.symm.trans found)
        exact uncovered (kept entry.1 ((names entry.1).mpr
          ⟨other, .inl (List.mem_map_of_mem member)⟩))
      · intro spares id named
        obtain ⟨other, placed | old⟩ := (names id).mp named
        · obtain ⟨entry, member, rfl⟩ := List.mem_map.mp placed
          by_contra uncovered
          exact spares ⟨dimensions, reserved, _, stops, entry, member, other, uncovered⟩
        · exact covers id old

/-- A batch names no item but its own. -/
theorem insertEntries_names {faults : List Bool} {pair : Pair} {outcome : Except Error PUnit}
    {after : IndexState}
    (ran : (insertEntries entries).exec ⟨faults, pair.index, pair.keymap⟩ = (outcome, after))
    {id : ItemId} (named : (after.keymap.reverse.lookup id).isSome) :
    id ∈ entries.map Prod.fst ∨ (pair.keymap.reverse.lookup id).isSome := by
  rcases insertEntries_leaves ran with same | placed | ⟨before, later, stopped, rfl, left⟩
  · exact .inr (same ▸ named)
  · rw [placed] at named
    exact (Pair.placeAll_named entries id).mp named
  · obtain ⟨_, placed | old⟩ := (stopped_names left id).mp named
    · rw [List.map_append]
      exact .inl (List.mem_append_left _ placed)
    · exact .inr old

end Batches

end Singularmem.Search
