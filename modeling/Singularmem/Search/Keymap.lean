import Singularmem.Library.Effects
import Singularmem.Library.Records
import Singularmem.Search.Journal
import Mathlib.Data.Finmap

/-!
# The graph, the keymap and insertion

The graph maps numeric keys to vectors and refuses a duplicate key. The keymap
names each item by one sequential key, in both directions. `insertEntries` gives
every entry the next key, after evicting the item's previous key and any stale
occupant of the key it is about to issue.

Any call into the graph library may fail; a schedule says which ones do. What a
failed call leaves behind stays, in the graph and in the keymap. Without faults,
insertion is the fold of `place`, and the vector an item reads afterwards is its
last inserted one, or else the one it read before.
-/

namespace Singularmem.Search

open Library Singularmem.Core

/-- The vectors a graph holds, one per key. -/
abbrev Graph := Finmap (fun _ : Nat => List F32)

/-- Bidirectional mapping between sequential keys and items. -/
structure Keymap where
  /-- Bumped by one on every successful compaction. -/
  generation : Nat
  /-- Next free sequential key; never reused. -/
  nextKey : Nat
  forward : Finmap (fun _ : Nat => ItemId)
  reverse : Finmap (fun _ : ItemId => Nat)
deriving DecidableEq

/-- A keymap that has issued no key. -/
def Keymap.default : Keymap := ⟨0, 0, ∅, ∅⟩

/-- What insertion mutates: the graph, the keymap, and the schedule that says
for each coming graph call whether it fails. An exhausted schedule never fails. -/
structure IndexState where
  faults : List Bool
  index : Graph
  keymap : Keymap

/-- A computation on graph and keymap. -/
abbrev Usearch := Effect Error IndexState

/-- One call into the graph library, under the context its error would carry. -/
def usearchCall (context : String) : Usearch PUnit := do
  match (← get).faults with
  | [] => pure ⟨⟩
  | fails :: rest =>
    modify fun state => { state with faults := rest }
    if fails then throw (.usearch context)

/-- Remove a key from the graph when the graph holds it. -/
def usearchEvict (context : String) (key : Nat) : Usearch PUnit := do
  if key ∈ (← get).index then do
    usearchCall context
    modify fun state => { state with index := state.index.erase key }
  else pure ⟨⟩

/-- Add a vector under a key the graph does not hold. -/
def usearchAdd (key : Nat) (vector : List F32) : Usearch PUnit := do
  usearchCall "usearch add"
  if key ∈ (← get).index then throw (.usearch "usearch add")
  else modify fun state => { state with index := state.index.insert key vector }

/-- Drop an item's key from both directions. -/
def Keymap.forget (keymap : Keymap) (id : ItemId) (key : Nat) : Keymap :=
  { keymap with reverse := keymap.reverse.erase id, forward := keymap.forward.erase key }

/-- Record an item under a key in both directions. -/
def Keymap.record (keymap : Keymap) (id : ItemId) (key : Nat) : Keymap :=
  { keymap with forward := keymap.forward.insert key id, reverse := keymap.reverse.insert id key }

/-- Move past the key about to be issued. -/
def Keymap.advance (keymap : Keymap) : Keymap := { keymap with nextKey := keymap.nextKey + 1 }

/-- Drop whatever key an item already holds, from the keymap and the graph. -/
def evictPrevious (id : ItemId) : Usearch PUnit := do
  match (← get).keymap.reverse.lookup id with
  | some oldKey => do
    modify fun state => { state with keymap := state.keymap.forget id oldKey }
    usearchEvict "evicting the previous vector of a re-added id" oldKey
  | none => pure ⟨⟩

/-- Issue the next key to an entry, evicting a stale occupant first. -/
def issueNext (entry : Entry) : Usearch PUnit := do
  let key := (← get).keymap.nextKey
  modify fun state => { state with keymap := state.keymap.advance }
  usearchEvict "evicting an orphan usearch key during replay" key
  usearchAdd key entry.2
  modify fun state => { state with keymap := state.keymap.record entry.1 key }

/-- One iteration of `insertEntries`. -/
def insertEntry (entry : Entry) : Usearch PUnit := do
  evictPrevious entry.1
  issueNext entry

/-- The loop of `insertEntries`, in order, stopping at the first error. -/
def insertLoop : List Entry → Usearch PUnit
  | [] => pure ⟨⟩
  | entry :: rest => do
    insertEntry entry
    insertLoop rest

/-- Assign the next sequential keys to the entries, insert the vectors and
record the mappings. Reserving capacity has no effect on what the graph holds. -/
def insertEntries (entries : List Entry) : Usearch PUnit :=
  match entries with
  | [] => pure ⟨⟩
  | entries => do
    usearchCall "auto-reserving usearch capacity before add_batch"
    insertLoop entries

/-- A graph beside the keymap that names its keys. -/
structure Pair where
  index : Graph
  keymap : Keymap

namespace Pair

/-- The vector an item reads: its key through the keymap, then the graph. -/
def view (pair : Pair) (id : ItemId) : Option (List F32) :=
  (pair.keymap.reverse.lookup id).bind pair.index.lookup

/-- Forget the key an item holds, if any, in the keymap and in the graph. -/
def evict (pair : Pair) (id : ItemId) : Pair :=
  match pair.keymap.reverse.lookup id with
  | some key => ⟨pair.index.erase key, pair.keymap.forget id key⟩
  | none => pair

/-- Issue the next key to an item that holds none. -/
def issue (pair : Pair) (entry : Entry) : Pair :=
  ⟨(pair.index.erase pair.keymap.nextKey).insert pair.keymap.nextKey entry.2,
    pair.keymap.advance.record entry.1 pair.keymap.nextKey⟩

/-- Insert one entry, replacing what its item held. -/
def place (pair : Pair) (entry : Entry) : Pair := (pair.evict entry.1).issue entry

/-- Insert entries in order. -/
def placeAll (pair : Pair) (entries : List Entry) : Pair := entries.foldl place pair

end Pair

/-- The pair a computation works on. -/
def IndexState.pair (state : IndexState) : Pair := ⟨state.index, state.keymap⟩

/-- A state that works on a pair and never fails. -/
def Pair.faultless (pair : Pair) : IndexState := ⟨[], pair.index, pair.keymap⟩

theorem exec_usearchCall (context : String) (pair : Pair) :
    (usearchCall context).exec pair.faultless = (.ok ⟨⟩, pair.faultless) := by
  simp [usearchCall, Effect.exec_bind, Pair.faultless]

/-- Erasing an absent key changes nothing. -/
theorem erase_absent {graph : Graph} {key : Nat} (absent : key ∉ graph) :
    graph.erase key = graph := by
  apply Finmap.ext_lookup
  intro other
  by_cases equal : other = key
  · rw [equal, Finmap.lookup_erase, Finmap.lookup_eq_none.mpr absent]
  · rw [Finmap.lookup_erase_ne equal]

/-- Evicting removes the key, whether or not the graph held it. -/
theorem exec_usearchEvict (context : String) (key : Nat) (pair : Pair) :
    (usearchEvict context key).exec pair.faultless =
      (.ok ⟨⟩, { pair with index := pair.index.erase key : Pair }.faultless) := by
  rw [usearchEvict, Effect.exec_bind_ok (Effect.exec_get _)]
  by_cases held : key ∈ pair.faultless.index
  · rw [if_pos held, Effect.exec_bind_ok (exec_usearchCall context pair)]
    rfl
  · have absent : key ∉ pair.index := held
    rw [if_neg held, erase_absent absent]
    rfl

/-- A fresh key is added. -/
theorem exec_usearchAdd (key : Nat) (vector : List F32) (pair : Pair)
    (fresh : key ∉ pair.index) :
    (usearchAdd key vector).exec pair.faultless =
      (.ok ⟨⟩, { pair with index := pair.index.insert key vector : Pair }.faultless) := by
  rw [usearchAdd, Effect.exec_bind_ok (exec_usearchCall _ pair),
    Effect.exec_bind_ok (Effect.exec_get _), if_neg (show key ∉ pair.faultless.index from fresh)]
  rfl

theorem exec_evictPrevious (id : ItemId) (pair : Pair) :
    (evictPrevious id).exec pair.faultless = (.ok ⟨⟩, (pair.evict id).faultless) := by
  rw [evictPrevious, Effect.exec_bind_ok (Effect.exec_get _)]
  cases held : pair.keymap.reverse.lookup id with
  | none => simp [Pair.faultless, Pair.evict, held]
  | some oldKey =>
    simp only [Pair.evict, held, Pair.faultless]
    rw [Effect.exec_bind_ok (Effect.exec_modify _ _)]
    exact exec_usearchEvict _ oldKey ⟨pair.index, pair.keymap.forget id oldKey⟩

theorem exec_issueNext (entry : Entry) (pair : Pair) :
    (issueNext entry).exec pair.faultless = (.ok ⟨⟩, (pair.issue entry).faultless) := by
  have evicted := exec_usearchEvict "evicting an orphan usearch key during replay"
    pair.keymap.nextKey ⟨pair.index, pair.keymap.advance⟩
  have added := exec_usearchAdd pair.keymap.nextKey entry.2
    ⟨pair.index.erase pair.keymap.nextKey, pair.keymap.advance⟩ Finmap.notMem_erase_self
  rw [issueNext, Effect.exec_bind_ok (Effect.exec_get _),
    Effect.exec_bind_ok (Effect.exec_modify _ _)]
  erw [Effect.exec_bind_ok evicted, Effect.exec_bind_ok added]
  rfl

/-- Without faults, one iteration replaces whatever the item held. -/
theorem exec_insertEntry (entry : Entry) (pair : Pair) :
    (insertEntry entry).exec pair.faultless = (.ok ⟨⟩, (pair.place entry).faultless) := by
  rw [insertEntry, Effect.exec_bind_ok (exec_evictPrevious entry.1 pair), exec_issueNext]
  rfl

theorem exec_insertLoop (entries : List Entry) (pair : Pair) :
    (insertLoop entries).exec pair.faultless = (.ok ⟨⟩, (pair.placeAll entries).faultless) := by
  induction entries generalizing pair with
  | nil => rfl
  | cons entry rest inductionHypothesis =>
    rw [insertLoop, Effect.exec_bind_ok (exec_insertEntry entry pair), inductionHypothesis]
    rfl

/-- Without faults, insertion succeeds and places every entry in order. -/
theorem exec_insertEntries (entries : List Entry) (pair : Pair) :
    (insertEntries entries).exec pair.faultless =
      (.ok ⟨⟩, (pair.placeAll entries).faultless) := by
  cases entries with
  | nil => rfl
  | cons entry rest =>
    rw [insertEntries, Effect.exec_bind_ok (exec_usearchCall _ pair), exec_insertLoop]
    simp

/-- The two directions of a keymap name the same pairs, under keys already
issued. -/
structure Keymap.WellFormed (keymap : Keymap) : Prop where
  inverse : ∀ id key, keymap.reverse.lookup id = some key ↔ keymap.forward.lookup key = some id
  issued : ∀ id key, keymap.reverse.lookup id = some key → key < keymap.nextKey

namespace Keymap.WellFormed

variable {keymap : Keymap}

theorem default : Keymap.default.WellFormed :=
  ⟨by simp [Keymap.default], by simp [Keymap.default]⟩

/-- No two items hold one key. -/
theorem injective (wellFormed : keymap.WellFormed) {first second : ItemId} {key : Nat}
    (left : keymap.reverse.lookup first = some key)
    (right : keymap.reverse.lookup second = some key) : first = second := by
  have same := (wellFormed.inverse first key).mp left
  rw [(wellFormed.inverse second key).mp right] at same
  exact (Option.some.inj same).symm

theorem forget (wellFormed : keymap.WellFormed) {id : ItemId} {key : Nat}
    (held : keymap.reverse.lookup id = some key) : (keymap.forget id key).WellFormed := by
  constructor
  · intro other issued
    by_cases sameId : other = id
    · subst other
      have absent : (keymap.forward.erase key).lookup issued ≠ some id := by
        by_cases sameKey : issued = key
        · subst issued
          simp
        · rw [Finmap.lookup_erase_ne sameKey]
          intro named
          have twice := (wellFormed.inverse id issued).mpr named
          rw [held] at twice
          exact sameKey (Option.some.inj twice).symm
      simp [Keymap.forget, absent]
    · by_cases sameKey : issued = key
      · subst issued
        have absent : keymap.reverse.lookup other ≠ some key := fun named =>
          sameId (wellFormed.injective named held)
        simp [Keymap.forget, Finmap.lookup_erase_ne sameId, absent]
      · simp [Keymap.forget, Finmap.lookup_erase_ne sameId, Finmap.lookup_erase_ne sameKey,
          wellFormed.inverse]
  · intro other issued named
    by_cases sameId : other = id
    · subst other
      simp [Keymap.forget] at named
    · simp only [Keymap.forget, Finmap.lookup_erase_ne sameId] at named
      exact wellFormed.issued other issued named

/-- Issuing the next key to an unnamed item keeps the directions inverse. -/
theorem issue (wellFormed : keymap.WellFormed) {id : ItemId}
    (unnamed : keymap.reverse.lookup id = none) :
    (keymap.advance.record id keymap.nextKey).WellFormed := by
  constructor
  · intro other key
    simp only [Keymap.record, Keymap.advance]
    by_cases sameId : other = id
    · subst other
      rw [Finmap.lookup_insert]
      by_cases sameKey : key = keymap.nextKey
      · subst key
        simp
      · rw [Finmap.lookup_insert_of_ne _ sameKey, ← wellFormed.inverse, unnamed]
        simp [Ne.symm sameKey]
    · rw [Finmap.lookup_insert_of_ne _ sameId]
      by_cases sameKey : key = keymap.nextKey
      · subst key
        rw [Finmap.lookup_insert]
        have absent : keymap.reverse.lookup other ≠ some keymap.nextKey := fun named =>
          Nat.lt_irrefl _ (wellFormed.issued other _ named)
        simp [absent, Ne.symm sameId]
      · rw [Finmap.lookup_insert_of_ne _ sameKey, wellFormed.inverse]
  · intro other key named
    simp only [Keymap.record, Keymap.advance] at named ⊢
    by_cases sameId : other = id
    · subst other
      rw [Finmap.lookup_insert] at named
      have same := Option.some.inj named
      omega
    · rw [Finmap.lookup_insert_of_ne _ sameId] at named
      have earlier := wellFormed.issued other key named
      omega

end Keymap.WellFormed

namespace Pair

variable {pair : Pair}

/-- After eviction the item is unnamed and the keymap stays well formed; every
other item keeps its key. -/
theorem evict_keymap (wellFormed : pair.keymap.WellFormed) (id : ItemId) :
    (pair.evict id).keymap.WellFormed ∧ (pair.evict id).keymap.reverse.lookup id = none ∧
      (pair.evict id).keymap.nextKey = pair.keymap.nextKey ∧
      (pair.evict id).keymap.generation = pair.keymap.generation ∧
      ∀ other, other ≠ id →
        (pair.evict id).keymap.reverse.lookup other = pair.keymap.reverse.lookup other := by
  cases held : pair.keymap.reverse.lookup id with
  | none =>
    simp only [evict, held]
    exact ⟨wellFormed, trivial, trivial, trivial, fun _ _ => trivial⟩
  | some key =>
    simp only [evict, held]
    refine ⟨wellFormed.forget held, by simp [Keymap.forget], rfl, rfl, ?_⟩
    intro other different
    simp [Keymap.forget, Finmap.lookup_erase_ne different]

/-- Eviction leaves the graph untouched at every key but the evicted one. -/
theorem evict_index (id : ItemId) (key : Nat)
    (different : pair.keymap.reverse.lookup id ≠ some key) :
    (pair.evict id).index.lookup key = pair.index.lookup key := by
  cases held : pair.keymap.reverse.lookup id with
  | none => simp [evict, held]
  | some old =>
    have distinct : key ≠ old := fun same => different (same ▸ held)
    simp [evict, held, Finmap.lookup_erase_ne distinct]

/-- Placing an entry keeps the keymap well formed. -/
theorem place_wellFormed (wellFormed : pair.keymap.WellFormed) (entry : Entry) :
    (pair.place entry).keymap.WellFormed := by
  obtain ⟨kept, unnamed, _⟩ := evict_keymap wellFormed entry.1
  exact kept.issue unnamed

/-- The placed item holds the next key; every other item keeps its own. -/
theorem place_reverse (wellFormed : pair.keymap.WellFormed) (entry : Entry) (id : ItemId) :
    (pair.place entry).keymap.reverse.lookup id =
      if id = entry.1 then some pair.keymap.nextKey else pair.keymap.reverse.lookup id := by
  obtain ⟨_, _, next, _, others⟩ := evict_keymap wellFormed entry.1
  simp only [place, issue, Keymap.record, Keymap.advance, next]
  by_cases same : id = entry.1
  · subst id
    simp
  · rw [Finmap.lookup_insert_of_ne _ same, others id same, if_neg same]

@[simp] theorem place_nextKey (wellFormed : pair.keymap.WellFormed) (entry : Entry) :
    (pair.place entry).keymap.nextKey = pair.keymap.nextKey + 1 := by
  obtain ⟨_, _, next, _⟩ := evict_keymap wellFormed entry.1
  simp [place, issue, Keymap.record, Keymap.advance, next]

/-- Placing an entry holds its vector under the key issued, drops the key its
item held, and leaves every other key. -/
theorem place_index (wellFormed : pair.keymap.WellFormed) (entry : Entry) (key : Nat) :
    (pair.place entry).index.lookup key =
      if key = pair.keymap.nextKey then some entry.2
      else if pair.keymap.reverse.lookup entry.1 = some key then none
      else pair.index.lookup key := by
  obtain ⟨_, _, next, _⟩ := evict_keymap wellFormed entry.1
  simp only [place, issue, next]
  by_cases issued : key = pair.keymap.nextKey
  · subst key
    simp
  · rw [Finmap.lookup_insert_of_ne _ issued, Finmap.lookup_erase_ne issued, if_neg issued]
    by_cases held : pair.keymap.reverse.lookup entry.1 = some key
    · simp [evict, held]
    · rw [if_neg held, evict_index _ _ held]

/-- An item reads its newly placed vector; every other item reads what it did. -/
theorem place_view (wellFormed : pair.keymap.WellFormed) (entry : Entry) (id : ItemId) :
    (pair.place entry).view id = if id = entry.1 then some entry.2 else pair.view id := by
  simp only [view, place_reverse wellFormed]
  by_cases same : id = entry.1
  · subst id
    simp [place_index wellFormed]
  · rw [if_neg same, if_neg same]
    cases named : pair.keymap.reverse.lookup id with
    | none => rfl
    | some key =>
      have issued : key ≠ pair.keymap.nextKey := Nat.ne_of_lt (wellFormed.issued id key named)
      have own : pair.keymap.reverse.lookup entry.1 ≠ some key := fun held =>
        same (wellFormed.injective named held)
      simp [place_index wellFormed, issued, own]

/-- Placing entries keeps the keymap well formed. -/
theorem placeAll_wellFormed (wellFormed : pair.keymap.WellFormed) (entries : List Entry) :
    (pair.placeAll entries).keymap.WellFormed := by
  induction entries generalizing pair with
  | nil => exact wellFormed
  | cons entry rest inductionHypothesis =>
    exact inductionHypothesis (place_wellFormed wellFormed entry)

/-- After inserting entries an item reads its last inserted vector, or else the
vector it read before. -/
theorem placeAll_view (wellFormed : pair.keymap.WellFormed) (entries : List Entry) (id : ItemId) :
    (pair.placeAll entries).view id = (latest entries id).or (pair.view id) := by
  induction entries generalizing pair with
  | nil => rfl
  | cons entry rest inductionHypothesis =>
    have step : pair.placeAll (entry :: rest) = (pair.place entry).placeAll rest := rfl
    rw [step, inductionHypothesis (place_wellFormed wellFormed entry), place_view wellFormed]
    by_cases same : id = entry.1
    · simp [latest, same]
    · simp [latest, same, Ne.symm same]

end Pair

end Singularmem.Search
