import Singularmem.Library.Runs
import Singularmem.Search.FreshIds
import Singularmem.Search.Refinement

/-!
# Many handles on one directory

A world is a directory with the handles opened on it. Its steps open a handle,
let a handle add, commit or compact, or interrupt the compaction of a plain
commit between two of its file steps. Every operation is one step; the steps of
different handles interleave in any order.

Along every run in which no item is added twice, the directory keeps exactly the
entries that some commit has covered, whichever handles committed or compacted in
between and however often a compaction was interrupted.
-/

namespace Singularmem.Search

open Library Singularmem.Core

/-- What a handle does. -/
inductive Action
  | add (entries : List Entry)
  | commit (endOfBatch : Bool)
  | compact

/-- The code an action runs. -/
def Action.run : Action → Op PUnit
  | add entries => VectorIndex.addBatch entries
  | commit endOfBatch => VectorIndex.commit endOfBatch
  | compact => VectorIndex.compact

/-- The handle that is about to be constructed. -/
def VectorIndex.blank : VectorIndex :=
  ⟨∅, ⟨"", "", 0⟩, .default, ⟨0, ""⟩, [], 0, false, []⟩

/-- A directory and the handles opened on it, in that order. A handle that
crashed is gone. -/
structure World where
  dir : Directory
  handles : List (Option VectorIndex)

/-- A fresh directory that nobody opened. -/
def World.fresh : World := ⟨.fresh, []⟩

/-- The steps of a world, each naming its handle. A crash says how many file
steps its commit had done. -/
inductive Operation
  | «open»
  | act (handle : Nat) (action : Action)
  | crash (handle done : Nat)

/-- One step of a world. Every operation returns without an error; a crash
interrupts the compaction of a plain commit, when no other step is left. -/
inductive World.Step (embedder : Embedder) : World → Operation → World → Prop
  | «open» {world : World} {after : Session}
      (opened : (VectorIndex.open embedder).exec ⟨[], world.dir, [], .blank⟩ = (.ok ⟨⟩, after)) :
      Step embedder world .open ⟨after.dir, world.handles ++ [some after.handle]⟩
  | act {world : World} {after : Session} {i : Nat} {handle : VectorIndex} {action : Action}
      (held : world.handles[i]? = some (some handle))
      (returned : action.run.exec ⟨[], world.dir, [], handle⟩ = (.ok ⟨⟩, after)) :
      Step embedder world (.act i action) ⟨after.dir, world.handles.set i (some after.handle)⟩
  | crash {world : World} {after : Session} {i done : Nat} {handle : VectorIndex}
      (held : world.handles[i]? = some (some handle))
      (interrupted : (VectorIndex.commit false).exec ⟨[], world.dir, [], handle⟩ = (.ok ⟨⟩, after))
      (compacting : ∀ step ∈ after.steps.drop done, step.ofCompaction) :
      Step embedder world (.crash i done)
        ⟨world.dir.after (after.steps.take done), world.handles.set i none⟩

/-- What a computation leaves, when it returns. -/
def returned (action : Op PUnit) (dir : Directory) (handle : VectorIndex) : Option Session :=
  match action.exec ⟨[], dir, [], handle⟩ with
  | (.ok _, after) => some after
  | (.error _, _) => none

theorem exec_of_returned {action : Op PUnit} {dir : Directory} {handle : VectorIndex}
    {after : Session} (ran : returned action dir handle = some after) :
    action.exec ⟨[], dir, [], handle⟩ = (.ok ⟨⟩, after) := by
  unfold returned at ran
  rcases outcome : action.exec ⟨[], dir, [], handle⟩ with ⟨error | value, final⟩
  · simp [outcome] at ran
  · rw [outcome] at ran
    rw [Option.some.inj ran]

/-- The world after a step, computed. -/
def World.advance (embedder : Embedder) (world : World) : Operation → Option World
  | .open =>
    (returned (VectorIndex.open embedder) world.dir .blank).map fun after =>
      ⟨after.dir, world.handles ++ [some after.handle]⟩
  | .act i action =>
    match world.handles[i]? with
    | some (some handle) =>
      (returned action.run world.dir handle).map fun after =>
        ⟨after.dir, world.handles.set i (some after.handle)⟩
    | _ => none
  | .crash i done =>
    match world.handles[i]? with
    | some (some handle) =>
      (returned (VectorIndex.commit false) world.dir handle).bind fun after =>
        if ∀ step ∈ after.steps.drop done, step.ofCompaction then
          some ⟨world.dir.after (after.steps.take done), world.handles.set i none⟩
        else none
    | _ => none

/-- The world after several steps, computed. -/
def World.play (embedder : Embedder) (world : World) : List Operation → Option World
  | [] => some world
  | operation :: rest => (world.advance embedder operation).bind fun next => next.play embedder rest

/-- A computed step is a step. -/
theorem World.advance_step {embedder : Embedder} {world next : World} {operation : Operation}
    (advanced : world.advance embedder operation = some next) :
    World.Step embedder world operation next := by
  cases operation with
  | «open» =>
    obtain ⟨after, ran, rfl⟩ := Option.map_eq_some_iff.mp advanced
    exact .open (exec_of_returned ran)
  | act i action =>
    rw [advance] at advanced
    split at advanced
    · rename_i handle held
      obtain ⟨after, ran, rfl⟩ := Option.map_eq_some_iff.mp advanced
      exact .act held (exec_of_returned ran)
    · simp at advanced
  | crash i done =>
    rw [advance] at advanced
    split at advanced
    · rename_i handle held
      obtain ⟨after, ran, interrupted⟩ := Option.bind_eq_some_iff.mp advanced
      split at interrupted
      · rename_i compacting
        obtain rfl := Option.some.inj interrupted
        exact .crash held (exec_of_returned ran) compacting
      · simp at interrupted
    · simp at advanced

/-- A computed run is a run. -/
theorem World.play_run {embedder : Embedder} {labels : List Operation} {world final : World}
    (played : world.play embedder labels = some final) :
    Run (World.Step embedder) world labels final := by
  induction labels generalizing world with
  | nil =>
    obtain rfl : world = final := Option.some.inj played
    exact .done world
  | cons operation rest inductionHypothesis =>
    obtain ⟨next, advanced, rest⟩ := Option.bind_eq_some_iff.mp played
    exact .next (advance_step advanced) (inductionHypothesis rest)

/-- The entries a step adds, with the handle that adds them. -/
def Operation.added : Operation → List (Nat × Entry)
  | act handle (.add entries) => entries.map (handle, ·)
  | _ => []

/-- The entries added along a run. -/
def added (past : List Operation) : List (Nat × Entry) := past.flatMap Operation.added

/-- No item is added twice. -/
def AddedOnce (past : List Operation) : Prop := ((added past).map fun claim => claim.2.1).Nodup

/-- The handle added this entry. -/
def Owned (past : List Operation) (handle : Nat) (entry : Entry) : Prop :=
  (handle, entry) ∈ added past

instance (past : List Operation) : Decidable (AddedOnce past) :=
  inferInstanceAs (Decidable (List.Nodup _))

instance (past : List Operation) (handle : Nat) (entry : Entry) :
    Decidable (Owned past handle entry) :=
  inferInstanceAs (Decidable (_ ∈ _))

/-- The step makes durable what its handle had added: a commit that returned, or
one interrupted after its journal append. -/
def Operation.Persists (handle : Nat) : Operation → Prop
  | act other (.commit _) => other = handle
  | act other .compact => other = handle
  | crash other _ => other = handle
  | _ => False

/-- Some handle added this entry and committed afterwards. -/
def Durable (past : List Operation) (entry : Entry) : Prop :=
  ∃ before operation later handle, past = before ++ operation :: later ∧
    operation.Persists handle ∧ Owned before handle entry

section History

variable {past : List Operation} {operation : Operation} {handle : Nat} {entry : Entry}

theorem added_append (first second : List Operation) :
    added (first ++ second) = added first ++ added second := List.flatMap_append

theorem owned_snoc :
    Owned (past ++ [operation]) handle entry ↔
      Owned past handle entry ∨ (handle, entry) ∈ operation.added := by
  simp [Owned, added]

theorem durable_snoc :
    Durable (past ++ [operation]) entry ↔
      Durable past entry ∨ ∃ handle, operation.Persists handle ∧ Owned past handle entry := by
  constructor
  · rintro ⟨before, persisting, later, handle, split, persists, owned⟩
    rcases List.eq_nil_or_concat later with rfl | ⟨rest, last, rfl⟩
    · obtain ⟨same, final⟩ := List.append_inj' split rfl
      rw [List.singleton_inj] at final
      subst same final
      exact .inr ⟨handle, persists, owned⟩
    · rw [List.concat_eq_append, ← List.cons_append, ← List.append_assoc] at split
      obtain ⟨same, _⟩ := List.append_inj' split rfl
      exact .inl ⟨before, persisting, rest, handle, same, persists, owned⟩
  · rintro (⟨before, persisting, later, handle, rfl, persists, owned⟩ | ⟨handle, persists, owned⟩)
    · exact ⟨before, persisting, later ++ [operation], handle, by simp, persists, owned⟩
    · exact ⟨past, operation, [], handle, rfl, persists, owned⟩

/-- What is durable was added by some handle. -/
theorem Durable.owned (durable : Durable past entry) : ∃ handle, Owned past handle entry := by
  obtain ⟨before, operation, later, handle, rfl, _, owned⟩ := durable
  refine ⟨handle, ?_⟩
  rw [Owned, added_append]
  exact List.mem_append_left _ owned

/-- An item has one handle and one vector. -/
theorem AddedOnce.unique (once : AddedOnce past) {first second : Nat} {id : ItemId}
    {left right : List F32} (one : Owned past first (id, left))
    (other : Owned past second (id, right)) : first = second ∧ left = right := by
  have same := List.inj_on_of_nodup_map once one other rfl
  simpa using same

end History

/-- The invariant of a world: its files show a disk that keeps the durable
entries, and every handle tracks that disk. -/
structure World.Consistent (embedder : Embedder) (past : List Operation) (world : World)
    (disk : Disk) : Prop where
  shows : Shows embedder world.dir disk
  stores : disk.Stores (Durable past)
  fits : ∀ (i : Nat) (handle : VectorIndex), world.handles[i]? = some (some handle) →
    handle.Fits embedder
  tracks : ∀ (i : Nat) (handle : VectorIndex), world.handles[i]? = some (some handle) →
    handle.live.Tracks disk (Durable past) (Owned past i)
  opened : ∀ (i : Nat) entry, Owned past i entry → i < world.handles.length

/-- The writes an interrupted publication has done: none, the graph, the graph
and the keymap, or all. -/
theorem publishWrites_prefix {live : Live} {done : List Write}
    (isPrefix : done <+: live.publishWrites) :
    done = [] ∨ done = [.graph live.pair.index] ∨
      done = [.graph live.pair.index, .keymap live.stamped] ∨ done = live.publishWrites := by
  rcases List.prefix_cons_iff.mp isPrefix with none | ⟨afterGraph, rfl, keymapFirst⟩
  · exact .inl none
  · rcases List.prefix_cons_iff.mp keymapFirst with rfl | ⟨afterKeymap, rfl, clearFirst⟩
    · exact .inr (.inl rfl)
    · rcases List.prefix_cons_iff.mp clearFirst with rfl | ⟨afterClear, rfl, finished⟩
      · exact .inr (.inr (.inl rfl))
      · rw [List.prefix_nil.mp finished]
        exact .inr (.inr (.inr rfl))

namespace World.Consistent

variable {embedder : Embedder} {past : List Operation} {world : World} {disk : Disk}

/-- A fresh directory shows an empty disk. -/
theorem fresh (embedder : Embedder) :
    World.fresh.Consistent embedder [] ⟨⟨∅, .default⟩, []⟩ := by
  have nothing : Durable [] = fun _ => False := by
    funext entry
    simp [Durable]
  refine ⟨?_, ?_, by simp [World.fresh], by simp [World.fresh], by simp [Owned, added]⟩
  · exact ⟨rfl, rfl, fun _ => rfl, Holds.absent _, fun present => absurd rfl present, by
      simp [World.fresh, Directory.fresh]⟩
  · rw [nothing]
    exact .fresh

/-- A step that adds nothing and persists nothing leaves the history's entries as
they are. -/
theorem silent (past : List Operation) {operation : Operation} (adds : operation.added = [])
    (persists : ∀ handle, ¬ operation.Persists handle) :
    Durable (past ++ [operation]) = Durable past ∧
      ∀ handle, Owned (past ++ [operation]) handle = Owned past handle := by
  constructor
  · funext entry
    rw [eq_iff_iff, durable_snoc]
    simp [persists]
  · intro handle
    funext entry
    rw [eq_iff_iff, owned_snoc]
    simp [adds]

/-- What is found in a list extended at its end. -/
theorem concat_split {Member : Type} {members : List Member} {last found : Member} {i : Nat}
    (present : (members ++ [last])[i]? = some found) :
    members[i]? = some found ∨ (i = members.length ∧ last = found) := by
  rcases Nat.lt_or_ge i members.length with inside | outside
  · rw [List.getElem?_append_left inside] at present
    exact .inl present
  · obtain ⟨atEnd, same⟩ : i - members.length = 0 ∧ last = found := by
      rw [List.getElem?_append_right outside, List.getElem?_singleton] at present
      split at present
      case isTrue first => exact ⟨first, Option.some.inj present⟩
      case isFalse => cases present
    exact .inr ⟨Nat.le_antisymm (Nat.sub_eq_zero_iff_le.mp atEnd) outside, same⟩

/-- Opening adds a handle that owns nothing and reads what is durable. -/
theorem open_step {after : Session} (consistent : world.Consistent embedder past disk)
    (opened : (VectorIndex.open embedder).exec ⟨[], world.dir, [], .blank⟩ = (.ok ⟨⟩, after)) :
    World.Consistent embedder (past ++ [.open])
      ⟨after.dir, world.handles ++ [some after.handle]⟩ disk := by
  obtain ⟨durable, owned⟩ := @silent past .open rfl (fun _ => id)
  have accepted := accepted_of_open consistent.shows opened
  obtain ⟨taken, handle, ran, fits, live, carries, _⟩ :=
    open_carries .blank [] consistent.shows accepted
  obtain rfl : (⟨[], world.dir.after taken, [] ++ taken, handle⟩ : Session) = after := by
    rw [ran] at opened
    exact (Prod.mk.inj opened).2
  have folds := consistent.stores.opened
  have tracks : handle.live.Tracks disk (Durable past) (fun _ => False) := by
    rw [live]
    exact
      { sound := folds.sound
        tight := folds.tight
        kept := rfl
        known := fun id vector read => .inl ((folds.reads id vector).mp read)
        queued := by simp [Live.opened, Live.absorb, Live.loaded]
        queue := by simp [Live.opened, Live.absorb, Live.loaded]
        fresh := by simp [Live.opened, Live.absorb, Live.loaded]
        distinct := by simp [Live.opened, Live.absorb, Live.loaded]
        owns := fun _ owned => owned.elim
        behind := Nat.le_refl _
        extension := fun _ => folds.extension }
  have unowned : Owned past world.handles.length = fun _ => False := by
    funext entry
    rw [eq_iff_iff, iff_false]
    exact fun owned => Nat.lt_irrefl _ (consistent.opened _ entry owned)
  have split : ∀ i found, (world.handles ++ [some handle])[i]? = some (some found) →
      world.handles[i]? = some (some found) ∨ (i = world.handles.length ∧ found = handle) := by
    intro i found present
    rcases concat_split present with old | ⟨last, same⟩
    · exact .inl old
    · exact .inr ⟨last, (Option.some.inj same).symm⟩
  refine ⟨carries.shows, durable ▸ consistent.stores, ?_, ?_, ?_⟩
  · intro i found present
    rcases split i found present with old | ⟨_, rfl⟩
    · exact consistent.fits i found old
    · exact fits
  · intro i found present
    rw [durable, owned]
    rcases split i found present with old | ⟨rfl, rfl⟩
    · exact consistent.tracks i found old
    · rw [unowned]
      exact tracks
  · intro i entry mine
    rw [owned] at mine
    have inside := consistent.opened i entry mine
    simp only [List.length_append]
    omega

/-- What one handle holds after a step, and what the others keep. -/
theorem set_split {handles : List (Option VectorIndex)} {i j : Nat} {slot : Option VectorIndex}
    {found : VectorIndex} (present : (handles.set i slot)[j]? = some (some found)) :
    (j = i ∧ slot = some found) ∨ (j ≠ i ∧ handles[j]? = some (some found)) := by
  by_cases same : i = j
  · subst same
    rw [List.getElem?_set_self'] at present
    left
    cases held : handles[i]? with
    | none => simp [held] at present
    | some old => exact ⟨rfl, by simpa [held] using present⟩
  · rw [List.getElem?_set_ne same] at present
    exact .inr ⟨Ne.symm same, present⟩

/-- Adding fresh entries queues them with their handle, which goes on reading
what is durable. -/
theorem add_step {i : Nat} {handle : VectorIndex} {entries : List Entry} {after : Session}
    (consistent : world.Consistent embedder past disk)
    (once : AddedOnce (past ++ [.act i (.add entries)]))
    (held : world.handles[i]? = some (some handle))
    (returned : (VectorIndex.addBatch entries).exec ⟨[], world.dir, [], handle⟩ =
      (.ok ⟨⟩, after)) :
    World.Consistent embedder (past ++ [.act i (.add entries)])
        ⟨after.dir, world.handles.set i (some after.handle)⟩ disk ∧
      ∀ entry, Durable past entry → handle.view entry.1 = some entry.2 →
        after.handle.view entry.1 = some entry.2 := by
  obtain ⟨rfl, fits⟩ := addBatch_returned (consistent.fits i handle held) returned
  have durable : Durable (past ++ [.act i (.add entries)]) = Durable past := by
    funext entry
    rw [eq_iff_iff, durable_snoc]
    simp [Operation.Persists]
  have owned : ∀ j entry, Owned (past ++ [.act i (.add entries)]) j entry ↔
      Owned past j entry ∨ (j = i ∧ entry ∈ entries) := by
    intro j entry
    rw [owned_snoc, Operation.added, List.mem_map]
    constructor
    · rintro (old | ⟨other, member, same⟩)
      · exact .inl old
      · obtain ⟨rfl, rfl⟩ := Prod.mk.inj same
        exact .inr ⟨rfl, member⟩
    · rintro (old | ⟨rfl, member⟩)
      · exact .inl old
      · exact .inr ⟨entry, member, rfl⟩
  have claims : (added (past ++ [.act i (.add entries)])).map (fun claim => claim.2.1) =
      (added past).map (fun claim => claim.2.1) ++ entries.map Prod.fst := by
    simp [added, Operation.added, Function.comp_def]
  rw [AddedOnce, claims] at once
  obtain ⟨_, distinct, disjoint⟩ := List.nodup_append.mp once
  have unowned : ∀ j, ∀ entry ∈ entries, ∀ vector, ¬ Owned past j (entry.1, vector) := by
    intro j entry member vector mine
    exact disjoint entry.1 (List.mem_map.mpr ⟨_, mine, rfl⟩) entry.1
      (List.mem_map_of_mem member) rfl
  refine ⟨⟨consistent.shows, durable ▸ consistent.stores, ?_, ?_, ?_⟩, ?_⟩
  · intro j found present
    rcases set_split present with ⟨rfl, same⟩ | ⟨_, old⟩
    · exact Option.some.inj same ▸ fits
    · exact consistent.fits j found old
  · intro j found present
    rw [durable]
    rcases set_split present with ⟨rfl, same⟩ | ⟨different, old⟩
    · have mine : Owned (past ++ [.act j (.add entries)]) j =
          fun entry => Owned past j entry ∨ entry ∈ entries := by
        funext entry
        rw [eq_iff_iff, owned]
        simp
      rw [← Option.some.inj same, mine]
      refine (consistent.tracks j handle held).add distinct ?_ (unowned j)
      intro entry member vector stored
      obtain ⟨owner, claimed⟩ := stored.owned
      exact unowned owner entry member vector claimed
    · have same : Owned (past ++ [.act i (.add entries)]) j = Owned past j := by
        funext entry
        rw [eq_iff_iff, owned]
        simp [different]
      rw [same]
      exact consistent.tracks j found old
  · intro j entry mine
    rw [List.length_set]
    rcases (owned j entry).mp mine with old | ⟨rfl, _⟩
    · exact consistent.opened j entry old
    · exact (List.getElem?_eq_some_iff.mp held).1
  · intro entry stored read
    obtain ⟨owner, claimed⟩ := stored.owned
    have unplaced : latest entries entry.1 = none := by
      rw [latest_eq_none]
      intro placed
      obtain ⟨other, member, same⟩ := List.mem_map.mp placed
      exact unowned owner other member entry.2 (same ▸ claimed)
    have view : (handle.live.add entries).view entry.1 =
        (latest entries entry.1).or (handle.live.view entry.1) :=
      Pair.placeAll_view (consistent.tracks i handle held).sound.wellFormed entries entry.1
    rw [unplaced, Option.none_or] at view
    exact view.trans read

/-- Persisting what a handle added makes its queue durable and nothing else. -/
theorem persisted {i : Nat} {handle : VectorIndex} {operation : Operation}
    (consistent : world.Consistent embedder past disk)
    (held : world.handles[i]? = some (some handle))
    (persists : ∀ j, operation.Persists j ↔ i = j) :
    Durable (past ++ [operation]) = fun entry => Durable past entry ∨ entry ∈ handle.pending := by
  have tracks := consistent.tracks i handle held
  funext entry
  rw [eq_iff_iff, durable_snoc]
  constructor
  · rintro (old | ⟨j, mine, owned⟩)
    · exact .inl old
    · obtain rfl := (persists j).mp mine
      exact tracks.owns entry owned
  · rintro (old | queued)
    · exact .inl old
    · exact .inr ⟨i, (persists i).mpr rfl, tracks.queue entry queued⟩

/-- No other handle queues an item that this one queues. -/
theorem apart {i j : Nat} {handle other : VectorIndex} (once : AddedOnce past)
    (consistent : world.Consistent embedder past disk)
    (held : world.handles[i]? = some (some handle))
    (present : world.handles[j]? = some (some other)) (different : j ≠ i) :
    ∀ entry ∈ other.live.pending, ∀ vector,
      ¬ (Durable past (entry.1, vector) ∨ (entry.1, vector) ∈ handle.pending) := by
  have tracks := consistent.tracks j other present
  rintro entry member vector (stored | queued)
  · exact tracks.fresh entry member vector stored
  · have mine := (consistent.tracks i handle held).queue _ queued
    exact different (once.unique (tracks.queue entry member) mine).1

/-- The entries of a step that persists, written to the directory, are kept by
every handle. -/
theorem persist_step {i : Nat} {handle : VectorIndex} {operation : Operation}
    {slot : Option VectorIndex} {after : Disk} {dir : Directory}
    (consistent : world.Consistent embedder past disk) (once : AddedOnce past)
    (held : world.handles[i]? = some (some handle)) (adds : operation.added = [])
    (persists : ∀ j, operation.Persists j ↔ i = j)
    (shows : Shows embedder dir after)
    (stores : after.Stores fun entry => Durable past entry ∨ entry ∈ handle.pending)
    (moved : after.pair.keymap = disk.pair.keymap ∨
      disk.pair.keymap.generation < after.pair.keymap.generation)
    (own : ∀ found, slot = some found → found.Fits embedder ∧
      found.live.Tracks after (fun entry => Durable past entry ∨ entry ∈ handle.pending)
        (Owned past i)) :
    World.Consistent embedder (past ++ [operation]) ⟨dir, world.handles.set i slot⟩ after := by
  have owned : ∀ j, Owned (past ++ [operation]) j = Owned past j := by
    intro j
    funext entry
    rw [eq_iff_iff, owned_snoc]
    simp [adds]
  have durable := consistent.persisted held persists
  refine ⟨shows, durable ▸ stores, ?_, ?_, ?_⟩
  · intro j found present
    rcases set_split present with ⟨rfl, same⟩ | ⟨_, old⟩
    · exact (own found same).1
    · exact consistent.fits j found old
  · intro j found present
    rw [durable, owned]
    rcases set_split present with ⟨rfl, same⟩ | ⟨different, old⟩
    · exact (own found same).2
    · exact (consistent.tracks j found old).move (fun _ => .inl)
        (consistent.apart once held old different) moved
  · intro j entry mine
    rw [owned] at mine
    rw [List.length_set]
    exact consistent.opened j entry mine

/-- A commit that returned moves the world to the disk after its writes, and its
handle goes on reading what is durable. -/
theorem commit_step (operation : Operation) {i : Nat} {handle : VectorIndex} {endOfBatch : Bool}
    {after : Session} (consistent : world.Consistent embedder past disk) (once : AddedOnce past)
    (held : world.handles[i]? = some (some handle)) (adds : operation.added = [])
    (persists : ∀ j, operation.Persists j ↔ i = j)
    (returned : (commitLocked endOfBatch).exec ⟨[], world.dir, [], handle⟩ = (.ok ⟨⟩, after)) :
    World.Consistent embedder (past ++ [operation])
        ⟨after.dir, world.handles.set i (some after.handle)⟩
        (disk.after (handle.live.commitWrites disk endOfBatch)) ∧
      ∀ entry, Durable past entry → handle.view entry.1 = some entry.2 →
        after.handle.view entry.1 = some entry.2 := by
  have tracks := consistent.tracks i handle held
  have folds := consistent.stores.compacted tracks endOfBatch
  have sameKeymap : (handle.live.beforeCompaction disk endOfBatch).2.pair.keymap =
      disk.pair.keymap := congrArg Pair.keymap (handle.live.beforeCompaction_pair disk endOfBatch)
  obtain ⟨appended, published, final, ran, fits, live, journalled, compacted, _, _⟩ :=
    commitLocked_carries [] endOfBatch consistent.shows
      (consistent.fits i handle held) rfl tracks.behind
      (fun _ => folds.covers (sameKeymap ▸ consistent.stores.sound.wellFormed))
  obtain rfl : _ = after := (Prod.mk.inj (ran.symm.trans returned)).2
  have shows : Shows embedder (world.dir.after (appended ++ published))
      (disk.after (handle.live.commitWrites disk endOfBatch)) := by
    have shown := compacted.shows
    rw [← Directory.after_append] at shown
    rw [Live.commitWrites, Disk.after_append]
    cases endOfBatch <;> exact shown
  rw [Disk.after_commitWrites] at shows ⊢
  by_cases compacts : handle.live.compacts disk endOfBatch = true
  · rw [if_pos compacts] at shows ⊢
    rw [Live.committed, if_pos compacts] at live
    refine ⟨consistent.persist_step once held adds persists shows folds.stores (.inr ?_) ?_, ?_⟩
    · have generation := folds.generation
      rw [sameKeymap] at generation
      change _ < (handle.live.compacted disk endOfBatch).generation + 1
      omega
    · intro found same
      obtain rfl : final = found := Option.some.inj same
      refine ⟨fits, ?_⟩
      rw [live]
      exact folds.tracks tracks.owns []
    · intro entry stored _
      rw [VectorIndex.view_eq, live]
      exact (folds.reads entry.1 entry.2).mpr (.inl stored)
  · rw [if_neg compacts] at shows ⊢
    rw [Live.committed, if_neg compacts] at live
    refine ⟨consistent.persist_step once held adds persists shows
      (consistent.stores.journal tracks) (.inl rfl) ?_, ?_⟩
    · intro found same
      obtain rfl : final = found := Option.some.inj same
      refine ⟨fits, ?_⟩
      rw [live]
      exact tracks.drained
    · intro entry _ read
      rw [VectorIndex.view_eq, live]
      exact read

/-- The steps left by a crash in a compaction contain every append. -/
theorem crash_split {appended published done rest : List FileStep}
    (split : appended ++ published = done ++ rest)
    (appends : ∀ step ∈ appended, ¬ step.ofCompaction)
    (compacting : ∀ step ∈ rest, step.ofCompaction) :
    ∃ begun, done = appended ++ begun ∧ published = begun ++ rest := by
  rcases List.append_eq_append_iff.mp split with ⟨begun, same, left⟩ | ⟨missing, same, left⟩
  · exact ⟨begun, same, left⟩
  · cases missing with
    | nil => exact ⟨[], by simpa using same.symm, by simpa using left.symm⟩
    | cons step others =>
      have early := appends step (by simp [same])
      exact absurd (compacting step (by simp [left])) early

/-- A compaction interrupted at any file step leaves a disk that keeps what the
commit had journalled. -/
theorem crash_step {i done : Nat} {handle : VectorIndex} {after : Session}
    (consistent : world.Consistent embedder past disk) (once : AddedOnce past)
    (held : world.handles[i]? = some (some handle))
    (interrupted : (commitLocked false).exec ⟨[], world.dir, [], handle⟩ = (.ok ⟨⟩, after))
    (compacting : ∀ step ∈ after.steps.drop done, step.ofCompaction) :
    ∃ reached, World.Consistent embedder (past ++ [.crash i done])
      ⟨world.dir.after (after.steps.take done), world.handles.set i none⟩ reached := by
  have tracks := consistent.tracks i handle held
  have folds := consistent.stores.compacted tracks false
  have journal : (handle.live.beforeCompaction disk false).2 =
      { disk with journal := disk.journal ++ handle.live.pending } :=
    disk.after_appendWrites handle.live
  obtain ⟨appended, published, final, ran, _, _, _, compacted, appends, _⟩ :=
    commitLocked_carries [] false consistent.shows
      (consistent.fits i handle held) rfl tracks.behind
      (fun _ => folds.covers (by rw [journal]; exact consistent.stores.sound.wellFormed))
  obtain rfl : _ = after := (Prod.mk.inj (ran.symm.trans interrupted)).2
  obtain ⟨begun, taken, rest⟩ :=
    crash_split (List.take_append_drop done _).symm appends compacting
  change ∃ reached, World.Consistent embedder (past ++ [.crash i done])
    ⟨world.dir.after ((appended ++ published).take done), world.handles.set i none⟩ reached
  rw [taken]
  rw [journal] at compacted folds
  have stores := consistent.stores.journal tracks
  have crashed : ∀ {reached : Disk}, Shows embedder (world.dir.after (appended ++ begun)) reached →
      reached.Stores (fun entry => Durable past entry ∨ entry ∈ handle.pending) →
      (reached.pair.keymap = disk.pair.keymap ∨
        disk.pair.keymap.generation < reached.pair.keymap.generation) →
      World.Consistent embedder (past ++ [.crash i done])
        ⟨world.dir.after (appended ++ begun), world.handles.set i none⟩ reached :=
    fun shows kept moved => consistent.persist_step once held rfl (fun j => Iff.rfl) shows kept
      moved (fun found absent => absurd absent (by simp))
  obtain ⟨created, _⟩ | ⟨writes, isPrefix, shows⟩ := compacted.crash begun ⟨_, rest.symm⟩
  · exact created.elim
  · change Shows embedder ((world.dir.after appended).after begun) _ at shows
    rw [← Directory.after_append] at shows
    by_cases compacts : handle.live.compacts disk false = true
    · rw [if_pos compacts] at isPrefix
      have later : disk.pair.keymap.generation <
          (handle.live.compacted disk false).published.pair.keymap.generation := by
        have generation := folds.generation
        change _ < (handle.live.compacted disk false).generation + 1
        change _ = disk.pair.keymap.generation at generation
        omega
      rcases publishWrites_prefix isPrefix with rfl | rfl | rfl | rfl
      · exact ⟨_, crashed shows stores (.inl rfl)⟩
      · exact ⟨_, crashed shows (folds.torn stores) (.inl rfl)⟩
      · exact ⟨_, crashed shows (folds.stores_with stores.journalled stores.distinct)
          (.inr later)⟩
      · exact ⟨_, crashed shows folds.stores (.inr later)⟩
    · rw [if_neg compacts, List.prefix_nil] at isPrefix
      subst isPrefix
      exact ⟨_, crashed shows stores (.inl rfl)⟩

/-- What every step preserves. -/
theorem step {operation : Operation} {next : World}
    (consistent : world.Consistent embedder past disk) (once : AddedOnce (past ++ [operation]))
    (taken : World.Step embedder world operation next) :
    ∃ reached, next.Consistent embedder (past ++ [operation]) reached := by
  have earlier : AddedOnce past := by
    rw [AddedOnce, added_append, List.map_append] at once
    exact (List.nodup_append.mp once).1
  cases taken with
  | «open» opened => exact ⟨disk, consistent.open_step opened⟩
  | @act after i handle action held returned =>
    cases action with
    | add entries => exact ⟨disk, (consistent.add_step once held returned).1⟩
    | commit endOfBatch =>
      exact ⟨_, (consistent.commit_step _ earlier held rfl (fun _ => Iff.rfl) returned).1⟩
    | compact => exact ⟨_, (consistent.commit_step _ earlier held rfl (fun _ => Iff.rfl) returned).1⟩
  | crash held interrupted compacting =>
    exact consistent.crash_step earlier held interrupted compacting

/-- A handle goes on reading what was durable when it was opened. -/
theorem step_reads {operation : Operation} {next : World} {i : Nat} {entry : Entry}
    (consistent : world.Consistent embedder past disk) (once : AddedOnce (past ++ [operation]))
    (taken : World.Step embedder world operation next) (durable : Durable past entry)
    (inside : i < world.handles.length)
    (reads : ∀ handle : VectorIndex, world.handles[i]? = some (some handle) →
      handle.view entry.1 = some entry.2) :
    ∀ handle : VectorIndex, next.handles[i]? = some (some handle) →
      handle.view entry.1 = some entry.2 := by
  have earlier : AddedOnce past := by
    rw [AddedOnce, added_append, List.map_append] at once
    exact (List.nodup_append.mp once).1
  intro found present
  cases taken with
  | «open» opened =>
    rw [List.getElem?_append_left inside] at present
    exact reads found present
  | @act after j handle action held returned =>
    rcases set_split present with ⟨rfl, same⟩ | ⟨_, old⟩
    · obtain rfl : after.handle = found := Option.some.inj same
      cases action with
      | add entries =>
        exact (consistent.add_step once held returned).2 entry durable (reads handle held)
      | commit endOfBatch =>
        exact (consistent.commit_step (.act i (.commit endOfBatch)) earlier held rfl
          (fun _ => Iff.rfl) returned).2 entry durable (reads handle held)
      | compact =>
        exact (consistent.commit_step (.act i .compact) earlier held rfl
          (fun _ => Iff.rfl) returned).2 entry durable (reads handle held)
    · exact reads found old
  | crash held interrupted compacting =>
    rcases set_split present with ⟨_, gone⟩ | ⟨_, old⟩
    · exact absurd gone (by simp)
    · exact reads found old

/-- Handles are numbered once and for all. -/
theorem length_le {operation : Operation} {next : World}
    (taken : World.Step embedder world operation next) :
    world.handles.length ≤ next.handles.length := by
  cases taken with
  | «open» opened => simp
  | act held returned => simp
  | crash held interrupted compacting => simp

end World.Consistent

section Runs

variable {embedder : Embedder} {labels : List Operation} {world : World}

/-- A history in which no item is added twice has no such prefix either. -/
theorem AddedOnce.of_prefix {before : List Operation} (once : AddedOnce labels)
    (isPrefix : before <+: labels) : AddedOnce before := by
  obtain ⟨later, rfl⟩ := isPrefix
  rw [AddedOnce, added_append, List.map_append] at once
  exact (List.nodup_append.mp once).1

/-- Every run that adds each item once ends in a consistent world. -/
theorem run_consistent (run : Run (World.Step embedder) .fresh labels world)
    (once : AddedOnce labels) : ∃ disk, world.Consistent embedder labels disk :=
  Run.history (fun past world => ∃ disk, world.Consistent embedder past disk) AddedOnce
    (fun _ _ _ _ ⟨_, consistent⟩ taken once => consistent.step once taken) run
    ⟨_, .fresh embedder⟩ (fun _ isPrefix => once.of_prefix isPrefix)

/-- A handle opened on a consistent directory reads exactly the durable entries,
holds them under one key each and no other vector, and knows its journal. -/
theorem open_exact {disk : Disk} (consistent : world.Consistent embedder labels disk)
    {after : Session}
    (opened : (VectorIndex.open embedder).exec ⟨[], world.dir, [], .blank⟩ = (.ok ⟨⟩, after)) :
    after.handle.live = Live.opened disk ∧ after.handle.Fits embedder ∧
      Shows embedder after.dir disk := by
  obtain ⟨taken, handle, ran, fits, live, carries, _⟩ :=
    open_carries .blank [] consistent.shows
      (accepted_of_open consistent.shows opened)
  obtain rfl : _ = after := (Prod.mk.inj (ran.symm.trans opened)).2
  exact ⟨live, fits, carries.shows⟩

/-- A handle opened after an entry became durable reads it from then on. -/
theorem durable_entries_are_served {past later : List Operation} {before opened final : World}
    (history : Run (World.Step embedder) .fresh past before)
    (opening : World.Step embedder before .open opened)
    (continued : Run (World.Step embedder) opened later final)
    (once : AddedOnce (past ++ [.open] ++ later)) (entry : Entry) (durable : Durable past entry)
    (handle : VectorIndex)
    (present : final.handles[before.handles.length]? = some (some handle)) :
    handle.view entry.1 = some entry.2 := by
  have reopened : Durable (past ++ [.open]) entry := durable_snoc.mpr (.inl durable)
  obtain ⟨disk, consistent⟩ := run_consistent history
    (once.of_prefix ⟨[.open] ++ later, by simp⟩)
  obtain ⟨next, consistentNext⟩ := consistent.step (once.of_prefix ⟨later, rfl⟩) opening
  have initially : ∀ found : VectorIndex,
      opened.handles[before.handles.length]? = some (some found) →
      found.view entry.1 = some entry.2 := by
    cases opening with
    | @«open» after ran =>
      intro found present
      obtain rfl : after.handle = found := by simpa using present
      rw [VectorIndex.view_eq, (open_exact consistent ran).1]
      exact (consistent.stores.opened.reads entry.1 entry.2).mpr durable
  have inside : before.handles.length < opened.handles.length := by
    cases opening with
    | «open» ran => simp
  have carried := Run.history
    (fun labels world =>
      (∃ disk, world.Consistent embedder (past ++ [.open] ++ labels) disk) ∧
        Durable (past ++ [.open] ++ labels) entry ∧
        before.handles.length < world.handles.length ∧
        ∀ found : VectorIndex, world.handles[before.handles.length]? = some (some found) →
          found.view entry.1 = some entry.2)
    (fun labels => AddedOnce (past ++ [.open] ++ labels))
    (by
      rintro labels world operation next ⟨⟨_, consistent⟩, stored, inside, reads⟩ taken once
      rw [← List.append_assoc] at once ⊢
      exact ⟨consistent.step once taken, durable_snoc.mpr (.inl stored),
        Nat.lt_of_lt_of_le inside (World.Consistent.length_le taken),
        consistent.step_reads once taken stored inside reads⟩)
    continued ⟨⟨next, by simpa using consistentNext⟩, by simpa using reopened, inside, initially⟩
    (fun _ isPrefix => once.of_prefix ((List.prefix_append_right_inj _).mpr isPrefix))
  exact carried.2.2.2 handle present

/-- **No lost update.** Once a commit of a handle has returned, everything that
handle had added before it is read, with the vector it was added with, by every
handle opened later, from its opening on, whatever the handles do in between. -/
theorem committed_entries_are_served {past between later : List Operation} {i : Nat}
    {action : Action} {before opened final : World}
    (history : Run (World.Step embedder) .fresh (past ++ .act i action :: between) before)
    (opening : World.Step embedder before .open opened)
    (continued : Run (World.Step embedder) opened later final)
    (commits : action = .compact ∨ ∃ endOfBatch, action = .commit endOfBatch)
    (once : AddedOnce (past ++ .act i action :: between ++ [.open] ++ later))
    (entry : Entry) (owned : Owned past i entry) (handle : VectorIndex)
    (present : final.handles[before.handles.length]? = some (some handle)) :
    handle.view entry.1 = some entry.2 := by
  have persists : Operation.Persists i (.act i action) := by
    rcases commits with rfl | ⟨endOfBatch, rfl⟩ <;> exact rfl
  exact durable_entries_are_served history opening continued once entry
    ⟨past, .act i action, between, i, rfl, persists, owned⟩ handle present

/-- A first handle commits two vectors, a second one compacts, and a third reads
what the first had added. -/
theorem committed_entries_are_served_across_compaction :
    ∃ before opened handle, Run (World.Step ⟨"", 1⟩) .fresh
        [.open, .open, .act 0 (.add [(⟨7⟩, [1]), (⟨8⟩, [2])]), .act 0 (.commit false),
          .act 1 .compact] before ∧
      World.Step ⟨"", 1⟩ before .open opened ∧
      opened.handles[before.handles.length]? = some (some handle) ∧
      handle.view ⟨7⟩ = some [1] := by
  obtain ⟨before, played⟩ := Option.isSome_iff_exists.mp (show (World.fresh.play ⟨"", 1⟩
      [.open, .open, .act 0 (.add [(⟨7⟩, [1]), (⟨8⟩, [2])]), .act 0 (.commit false),
        .act 1 .compact]).isSome by decide +kernel)
  obtain ⟨opened, reopened⟩ := Option.isSome_iff_exists.mp (show ((World.fresh.play ⟨"", 1⟩
      [.open, .open, .act 0 (.add [(⟨7⟩, [1]), (⟨8⟩, [2])]), .act 0 (.commit false),
        .act 1 .compact]).bind fun world => world.advance ⟨"", 1⟩ .open).isSome by decide +kernel)
  rw [played, Option.bind_some] at reopened
  have opening := World.advance_step reopened
  obtain ⟨handle, present⟩ : ∃ handle : VectorIndex,
      opened.handles[before.handles.length]? = some (some handle) := by
    cases opening with
    | @«open» after ran => exact ⟨after.handle, by simp⟩
  refine ⟨before, opened, handle, World.play_run played, opening, present, ?_⟩
  exact @committed_entries_are_served _ [.open, .open, .act 0 (.add [(⟨7⟩, [1]), (⟨8⟩, [2])])]
    [.act 1 .compact] [] 0 (.commit false) before opened opened (World.play_run played)
    opening (.done opened) (.inr ⟨false, rfl⟩) (by decide) (⟨7⟩, [1]) (by decide) handle present

/-- The first step of a directory opens it, so its embedder is accepted. -/
theorem accepted_of_run (run : Run (World.Step embedder) .fresh labels world)
    (used : labels ≠ []) : embedder.header.Accepted := by
  cases run with
  | done => exact absurd rfl used
  | next taken rest =>
    cases taken with
    | «open» opened => exact accepted_of_open (World.Consistent.fresh embedder).shows opened
    | act held returned => simp [World.fresh] at held
    | crash held interrupted compacting => simp [World.fresh] at held

/-- **Exact recovery.** Whatever compactions of a directory were interrupted, and
however often, the next open succeeds and reads exactly the durable entries:
every item under a key of its own, every held vector under a named key, and a
second replay of the journal changes nothing. -/
theorem recovery_is_exact (run : Run (World.Step embedder) .fresh labels world)
    (used : labels ≠ []) (once : AddedOnce labels) :
    ∃ after, (VectorIndex.open embedder).exec ⟨[], world.dir, [], .blank⟩ = (.ok ⟨⟩, after) ∧
      (∀ id vector, after.handle.view id = some vector ↔ Durable labels (id, vector)) ∧
      (∀ first second key, after.handle.keymap.reverse.lookup first = some key →
        after.handle.keymap.reverse.lookup second = some key → first = second) ∧
      (∀ key, (after.handle.inner.lookup key).isSome ↔
        ∃ id, after.handle.keymap.reverse.lookup id = some key) ∧
      absorbJournal.exec after = (.ok ⟨⟩, after) := by
  obtain ⟨disk, consistent⟩ := run_consistent run once
  obtain ⟨taken, handle, ran, fits, live, carries, _⟩ :=
    open_carries .blank [] consistent.shows (accepted_of_run run used)
  have folds := consistent.stores.opened
  rw [← live] at folds
  refine ⟨_, ran, folds.reads, ?_, ?_, ?_⟩
  · intro first second key
    exact folds.sound.wellFormed.injective
  · intro key
    constructor
    · intro held
      rcases folds.tight key held with named | ⟨above, below⟩
      · exact named
      · exact absurd below (Nat.not_lt.mpr above)
    · rintro ⟨id, named⟩
      exact folds.sound.served id key named
  · have again : handle.live.absorb disk = handle.live := by
      rw [live]
      exact @Live.absorb_absorb (Live.loaded disk) disk
    rw [exec_absorbJournal carries.shows fits]
    change (_, (⟨[], _, _, handle.holding (handle.live.absorb disk)⟩ : Session)) = _
    rw [again, VectorIndex.holding_live]

/-- A process crashes right after its journal append; the next one adds another
vector and commits, and a third open reads both. -/
theorem recovery_is_exact_after_append :
    ∃ world after, Run (World.Step ⟨"", 1⟩) .fresh
        [.open, .act 0 (.add [(⟨7⟩, [1])]), .crash 0 3, .open, .act 1 (.add [(⟨8⟩, [2])]),
          .act 1 (.commit false)] world ∧
      (VectorIndex.open ⟨"", 1⟩).exec ⟨[], world.dir, [], .blank⟩ = (.ok ⟨⟩, after) ∧
      after.handle.view ⟨7⟩ = some [1] ∧ after.handle.view ⟨8⟩ = some [2] := by
  obtain ⟨world, played⟩ := Option.isSome_iff_exists.mp (show (World.fresh.play ⟨"", 1⟩
      [.open, .act 0 (.add [(⟨7⟩, [1])]), .crash 0 3, .open, .act 1 (.add [(⟨8⟩, [2])]),
        .act 1 (.commit false)]).isSome by decide +kernel)
  obtain ⟨after, opened, reads, _⟩ :=
    recovery_is_exact (World.play_run played) (by decide) (by decide)
  refine ⟨world, after, World.play_run played, opened, (reads ⟨7⟩ [1]).mpr ?_,
    (reads ⟨8⟩ [2]).mpr ?_⟩
  · exact ⟨[.open, .act 0 (.add [(⟨7⟩, [1])])], .crash 0 3,
      [.open, .act 1 (.add [(⟨8⟩, [2])]), .act 1 (.commit false)], 0, rfl, rfl, by decide⟩
  · exact ⟨[.open, .act 0 (.add [(⟨7⟩, [1])]), .crash 0 3, .open, .act 1 (.add [(⟨8⟩, [2])])],
      .act 1 (.commit false), [], 1, rfl, rfl, by decide⟩

end Runs

end Singularmem.Search
