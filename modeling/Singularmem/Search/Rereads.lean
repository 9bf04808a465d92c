import Singularmem.Search.FaultyRuns
import Singularmem.Search.Stops
import Singularmem.Search.TornPairs

/-!
# Two readers of the same files

A fresh open and the reload of a stale handle read the same graph, keymap and journal. They
build the same vectors, unless the graph is absent beside a keymap that names an item of the
journal: a compaction that is killed between removing an emptied graph and renaming its
keymap leaves this. An open resets such a keymap and replays the item's record; a reload
keeps it, and so takes the item for compacted.

Any number of handles open, add, remove, commit and compact, any call of the graph library
may fail, and any operation may be killed at any file step.
-/

namespace Singularmem.Search

open Library Singularmem.Core Effect

/-- The graph is absent beside a keymap that names an item of the journal. -/
def Directory.Emptied (embedder : Embedder) (dir : Directory) : Prop :=
  dir.usearch = none ∧ ∃ record ∈ Journal.replay embedder.header dir.journal,
    ((dir.keymap.getD .default).reverse.lookup record.1).isSome

instance (embedder : Embedder) (dir : Directory) : Decidable (dir.Emptied embedder) :=
  decidable_of_iff (dir.usearch.isNone ∧
    ∃ record ∈ Journal.replay embedder.header dir.journal,
      ((dir.keymap.getD .default).reverse.lookup record.1).isSome)
    (and_congr_left' Option.isNone_iff_eq_none)

section Readers

variable {embedder : Embedder} {dir : Directory} {steps : List FileStep} {handle : VectorIndex}
  {keymap : Keymap}

/-- **The reload** of an idle handle, followed by a replay, starts from the pair on disk. -/
theorem exec_reread (agrees : handle.Agrees embedder) (idle : handle.pending = [])
    (unburied : handle.tombstones = []) (present : dir.keymap = some keymap)
    (stale : keymap.generation ≠ handle.loadedGeneration) :
    ∃ reloaded, (do reloadIfStale; absorbJournal).exec ⟨[], dir, [], handle⟩ =
        (.ok ⟨⟩, ⟨[], dir, [], reloaded⟩) ∧
      reloaded.pair = dir.pair.placeAll
        ((Journal.replay embedder.header dir.journal).filter fun record =>
          (keymap.reverse.lookup record.1).isNone) := by
  have read : dir.pair = ⟨dir.usearch.getD ∅, keymap⟩ := by rw [Directory.pair, present]; rfl
  rw [exec_bind_ok (exec_reload_stale present stale), idle, read]
  have adopted : VectorIndex.Agrees embedder
      { handle.withPair ⟨dir.usearch.getD ∅, keymap⟩ with
        loadedGeneration := keymap.generation } :=
    ⟨agrees.metadata, agrees.journal, agrees.pending⟩
  refine ⟨_, adopted.exec_absorb, ?_⟩
  exact congrArg (Pair.placeAll _) (VectorIndex.missing_unburied agrees.journal unburied)

/-- Of a keymap whose graph is absent nothing is read but what is replayed. -/
theorem view_without_graph (wellFormed : keymap.WellFormed) (records : List Entry) (id : ItemId) :
    ((Pair.mk ∅ keymap).placeAll (records.filter fun record =>
        (keymap.reverse.lookup record.1).isNone)).view id =
      if (keymap.reverse.lookup id).isNone then latest records id else none := by
  have nothing : (Pair.mk ∅ keymap).view id = none := by
    rw [Pair.view]
    cases keymap.reverse.lookup id <;> simp
  rw [Pair.placeAll_view wellFormed, nothing, Option.or_none,
    latest_filter fun id => (keymap.reverse.lookup id).isNone]

/-- What a load reads of a keymap whose graph is absent. -/
theorem missing_reset (emptied : dir.loadedKeymap = keymap.clear) :
    dir.missing embedder = (Journal.replay embedder.header dir.journal).filter fun record =>
      (keymap.clear.reverse.lookup record.1).isNone := by
  rw [Directory.missing, emptied]

/-- **The two readers agree** exactly where the graph is there, or the keymap names no item of
the journal. -/
theorem reread_agrees_iff (wellFormed : keymap.WellFormed)
    (agrees : handle.Agrees embedder) (idle : handle.pending = [])
    (unburied : handle.tombstones = []) (present : dir.keymap = some keymap)
    (stale : keymap.generation ≠ handle.loadedGeneration) {opened : Session}
    (returned : (VectorIndex.open embedder).exec ⟨[], dir, [], .blank⟩ = (.ok ⟨⟩, opened)) :
    ∃ reloaded, (do reloadIfStale; absorbJournal).exec ⟨[], dir, [], handle⟩ =
        (.ok ⟨⟩, ⟨[], dir, [], reloaded⟩) ∧
      ((∀ id, reloaded.view id = opened.handle.view id) ↔ ¬ dir.Emptied embedder) := by
  obtain ⟨reloaded, ran, pair⟩ := exec_reread agrees idle unburied present stale
  obtain ⟨loaded, usearch, sameKeymap, journal⟩ := opened_loaded returned
  have started : opened.dir.loadedKeymap = dir.loadedKeymap := by
    rw [Directory.loadedKeymap, Directory.loadedKeymap, usearch, sameKeymap]
  have served : opened.handle.pair = (Pair.mk (dir.usearch.getD ∅) dir.loadedKeymap).placeAll
      (dir.missing embedder) := by
    rw [loaded.pair, Directory.loadedPair, Directory.missing, Directory.missing, started, usearch,
      journal]
  have read : dir.pair = ⟨dir.usearch.getD ∅, keymap⟩ := by rw [Directory.pair, present]; rfl
  refine ⟨reloaded, ran, ?_⟩
  simp only [VectorIndex.view, pair, served, read, Directory.Emptied, present, Option.getD_some]
  by_cases reset : dir.usearch = none ∧ keymap.forward ≠ ∅
  · obtain ⟨absent, names⟩ := reset
    have emptied : dir.loadedKeymap = keymap.clear := by
      rw [Directory.loadedKeymap, present]
      exact if_pos ⟨Option.isNone_iff_eq_none.mpr absent, names⟩
    rw [missing_reset emptied, emptied, absent, Option.getD_none]
    simp only [view_without_graph wellFormed, view_without_graph (Keymap.WellFormed.clear keymap)]
    constructor
    · rintro same ⟨_, record, member, named⟩
      have both := same record.1
      have held : ¬ (keymap.reverse.lookup record.1).isNone := by
        rw [Option.isNone_iff_eq_none]
        exact Option.isSome_iff_ne_none.mp named
      rw [if_neg held, if_pos (by simp [Keymap.clear])] at both
      exact latest_eq_none.mp both.symm (List.mem_map_of_mem member)
    · intro unnamed id
      rw [if_pos (show (keymap.clear.reverse.lookup id).isNone by simp [Keymap.clear])]
      split
      case isTrue => rfl
      case isFalse named =>
        symm
        refine latest_eq_none.mpr fun journalled => unnamed ⟨trivial, ?_⟩
        obtain ⟨record, member, rfl⟩ := List.mem_map.mp journalled
        rw [Option.isNone_iff_eq_none] at named
        exact ⟨record, member, Option.isSome_iff_ne_none.mpr named⟩
  · have kept : dir.loadedKeymap = keymap := by
      rw [Directory.loadedKeymap, present]
      exact if_neg fun both => reset ⟨Option.isNone_iff_eq_none.mp both.1, both.2⟩
    rw [Directory.missing, kept]
    refine iff_of_true (fun _ => rfl) ?_
    rintro ⟨absent, record, _, named⟩
    obtain ⟨key, held⟩ := Option.isSome_iff_exists.mp named
    refine reset ⟨absent, fun empty => ?_⟩
    have forward := (wellFormed.inverse record.1 key).mp held
    rw [empty, Finmap.lookup_empty] at forward
    cases forward

end Readers

end Singularmem.Search
