import Singularmem.Search.Keymap

/-!
# What placing entries preserves

A sound pair holds a vector under every key its keymap names. A loose pair may
hold further vectors, under keys that are about to be issued; placing an entry
issues one of them and takes its stale occupant out. So a pair that is loose by
as many keys as there are entries to place ends up holding named vectors only.

A keymap extends another when it names more items and gave them fresh keys.
-/

namespace Singularmem.Search

open Library Singularmem.Core

namespace Pair

/-- The keymap is well formed and every key it names holds a vector. -/
structure Sound (pair : Pair) : Prop where
  wellFormed : pair.keymap.WellFormed
  served : ∀ id key, pair.keymap.reverse.lookup id = some key → (pair.index.lookup key).isSome

/-- Every vector is held under a named key or under one of the next `spare` keys
to be issued. -/
def Loose (pair : Pair) (spare : Nat) : Prop :=
  ∀ key, (pair.index.lookup key).isSome → (∃ id, pair.keymap.reverse.lookup id = some key) ∨
    (pair.keymap.nextKey ≤ key ∧ key < pair.keymap.nextKey + spare)

variable {pair : Pair}

/-- An empty pair is sound. -/
theorem Sound.empty : (⟨∅, .default⟩ : Pair).Sound :=
  ⟨.default, by simp [Keymap.default]⟩

/-- An item reads a vector exactly when it is named. -/
theorem Sound.view_isSome (sound : pair.Sound) (id : ItemId) :
    (pair.view id).isSome ↔ (pair.keymap.reverse.lookup id).isSome := by
  cases named : pair.keymap.reverse.lookup id with
  | none => simp [view, named]
  | some key => simp [view, named, sound.served id key named]

/-- An unnamed item reads nothing. -/
theorem view_unnamed {id : ItemId} (unnamed : pair.keymap.reverse.lookup id = none) :
    pair.view id = none := by
  simp [view, unnamed]

/-- Placing keeps a pair sound. -/
theorem Sound.place (sound : pair.Sound) (entry : Entry) : (pair.place entry).Sound := by
  refine ⟨place_wellFormed sound.wellFormed entry, ?_⟩
  intro id key named
  rw [place_reverse sound.wellFormed] at named
  rw [place_index sound.wellFormed]
  by_cases issued : key = pair.keymap.nextKey
  · simp [issued]
  · by_cases same : id = entry.1
    · rw [if_pos same] at named
      exact absurd (Option.some.inj named).symm issued
    · rw [if_neg same] at named
      have other : pair.keymap.reverse.lookup entry.1 ≠ some key := fun held =>
        same (sound.wellFormed.injective named held)
      rw [if_neg issued, if_neg other]
      exact sound.served id key named

/-- Placing an entry uses up one spare key. -/
theorem Loose.place {spare : Nat} (wellFormed : pair.keymap.WellFormed)
    (loose : pair.Loose spare) (entry : Entry) : (pair.place entry).Loose (spare - 1) := by
  intro key held
  rw [place_index wellFormed] at held
  rw [place_nextKey wellFormed]
  by_cases issued : key = pair.keymap.nextKey
  · exact .inl ⟨entry.1, by rw [place_reverse wellFormed, if_pos rfl, issued]⟩
  · rw [if_neg issued] at held
    by_cases evicted : pair.keymap.reverse.lookup entry.1 = some key
    · simp [evicted] at held
    · rw [if_neg evicted] at held
      rcases loose key held with ⟨id, named⟩ | ⟨above, below⟩
      · have other : id ≠ entry.1 := fun same => evicted (same ▸ named)
        exact .inl ⟨id, by rw [place_reverse wellFormed, if_neg other, named]⟩
      · right
        omega

/-- More spare keys make a pair no less loose. -/
theorem Loose.mono {spare more : Nat} (loose : pair.Loose spare) (enough : spare ≤ more) :
    pair.Loose more := by
  intro key held
  rcases loose key held with named | ⟨above, below⟩
  · exact .inl named
  · exact .inr ⟨above, by omega⟩

/-- A rule for placing entries in order: what one placement preserves, all do. -/
theorem placeAll_induction (holds : Pair → List Entry → Prop) {entries : List Entry}
    (start : holds pair entries)
    (step : ∀ pair entry rest, holds pair (entry :: rest) → holds (pair.place entry) rest) :
    holds (pair.placeAll entries) [] := by
  induction entries generalizing pair with
  | nil => exact start
  | cons entry rest inductionHypothesis => exact inductionHypothesis (step pair entry rest start)

theorem Sound.placeAll (sound : pair.Sound) (entries : List Entry) :
    (pair.placeAll entries).Sound :=
  placeAll_induction (fun pair _ => pair.Sound) sound fun _ entry _ sound =>
    sound.place entry

/-- Placing as many entries as there are spare keys leaves named vectors only. -/
theorem Loose.placeAll {spare : Nat} (wellFormed : pair.keymap.WellFormed)
    (loose : pair.Loose spare) (entries : List Entry) :
    (pair.placeAll entries).Loose (spare - entries.length) := by
  have placed := @placeAll_induction pair
    (fun pair rest => pair.keymap.WellFormed ∧
      pair.Loose (spare - entries.length + rest.length))
    entries ⟨wellFormed, loose.mono (by omega)⟩ fun pair entry rest ⟨wellFormed, loose⟩ =>
      ⟨place_wellFormed wellFormed entry, (loose.place wellFormed entry).mono (by
        simp only [List.length_cons]
        omega)⟩
  simpa using placed.2

/-- Eviction takes one name away. -/
theorem evict_named (id other : ItemId) :
    ((pair.evict id).keymap.reverse.lookup other).isSome ↔
      other ≠ id ∧ (pair.keymap.reverse.lookup other).isSome := by
  by_cases same : other = id
  · subst other
    cases held : pair.keymap.reverse.lookup id with
    | none => simp [evict, held]
    | some key => simp [evict, held, Keymap.forget]
  · cases held : pair.keymap.reverse.lookup id with
    | none => simp [evict, held, same]
    | some key => simp [evict, held, Keymap.forget, Finmap.lookup_erase_ne same, same]

/-- Placing an entry names its item. -/
theorem place_named (entry : Entry) (id : ItemId) :
    ((pair.place entry).keymap.reverse.lookup id).isSome ↔
      id = entry.1 ∨ (pair.keymap.reverse.lookup id).isSome := by
  by_cases same : id = entry.1
  · subst id
    simp [place, issue, Keymap.record]
  · simp only [place, issue, Keymap.record, Keymap.advance, Finmap.lookup_insert_of_ne _ same,
      evict_named, same, false_or, ne_eq, not_false_eq_true, true_and]

/-- After placing entries exactly the placed and the already named items are
named. -/
theorem placeAll_named (entries : List Entry) (id : ItemId) :
    ((pair.placeAll entries).keymap.reverse.lookup id).isSome ↔
      id ∈ entries.map Prod.fst ∨ (pair.keymap.reverse.lookup id).isSome := by
  induction entries generalizing pair with
  | nil => simp [Pair.placeAll]
  | cons entry rest inductionHypothesis =>
    have step : pair.placeAll (entry :: rest) = (pair.place entry).placeAll rest := rfl
    rw [step, inductionHypothesis, place_named]
    by_cases same : id = entry.1
    · simp [same]
    · simp [same]

/-- An item that is not placed keeps its key. -/
theorem placeAll_reverse_of_notMem (wellFormed : pair.keymap.WellFormed) {entries : List Entry}
    {id : ItemId} (absent : id ∉ entries.map Prod.fst) :
    (pair.placeAll entries).keymap.reverse.lookup id = pair.keymap.reverse.lookup id := by
  induction entries generalizing pair with
  | nil => rfl
  | cons entry rest inductionHypothesis =>
    rw [List.map_cons, List.mem_cons, not_or] at absent
    have step : pair.placeAll (entry :: rest) = (pair.place entry).placeAll rest := rfl
    rw [step, inductionHypothesis (place_wellFormed wellFormed entry) absent.2,
      place_reverse wellFormed, if_neg absent.1]

/-- Keys are issued upwards. -/
theorem placeAll_nextKey (wellFormed : pair.keymap.WellFormed) (entries : List Entry) :
    (pair.placeAll entries).keymap.nextKey = pair.keymap.nextKey + entries.length := by
  induction entries generalizing pair with
  | nil => rfl
  | cons entry rest inductionHypothesis =>
    have step : pair.placeAll (entry :: rest) = (pair.place entry).placeAll rest := rfl
    rw [step, inductionHypothesis (place_wellFormed wellFormed entry), place_nextKey wellFormed,
      List.length_cons]
    omega

end Pair

namespace Keymap

/-- The items a keymap names. -/
def names (keymap : Keymap) : Finset ItemId := keymap.reverse.keys

theorem mem_names {keymap : Keymap} {id : ItemId} :
    id ∈ keymap.names ↔ (keymap.reverse.lookup id).isSome := by
  rw [names, Finmap.mem_keys, Finmap.lookup_isSome]

/-- A keymap that names what another names, under the same keys, and gave what
it names beyond that keys the other had not issued, one for each item. -/
structure Extends (base keymap : Keymap) : Prop where
  kept : ∀ id key, base.reverse.lookup id = some key → keymap.reverse.lookup id = some key
  beyond : ∀ id key, keymap.reverse.lookup id = some key →
    base.reverse.lookup id = some key ∨ base.nextKey ≤ key
  past : base.nextKey ≤ keymap.nextKey
  issued : keymap.nextKey ≤ base.nextKey + (keymap.names \ base.names).card

/-- Every keymap extends itself. -/
theorem Extends.refl (keymap : Keymap) : Extends keymap keymap :=
  ⟨fun _ _ held => held, fun _ _ held => .inl held, Nat.le_refl _, by simp⟩

/-- Only the names and the next key matter. -/
theorem Extends.stamp {base keymap : Keymap} (extension : Extends base keymap) (generation : Nat) :
    Extends base { keymap with generation } :=
  ⟨extension.kept, extension.beyond, extension.past, extension.issued⟩

end Keymap

/-- Placing an entry whose item is not named extends the keymap further. -/
theorem Keymap.Extends.place {base : Keymap} {pair : Pair}
    (wellFormed : pair.keymap.WellFormed) (extension : base.Extends pair.keymap) {entry : Entry}
    (unnamed : pair.keymap.reverse.lookup entry.1 = none) :
    base.Extends (pair.place entry).keymap := by
  have unnamedBase : base.reverse.lookup entry.1 = none := by
    cases named : base.reverse.lookup entry.1 with
    | none => rfl
    | some key =>
      have held := extension.kept entry.1 key named
      rw [unnamed] at held
      exact absurd held (by simp)
  refine ⟨?_, ?_, ?_, ?_⟩
  · intro id key named
    rw [Pair.place_reverse wellFormed]
    by_cases same : id = entry.1
    · rw [same, unnamedBase] at named
      exact absurd named (by simp)
    · rw [if_neg same]
      exact extension.kept id key named
  · intro id key named
    rw [Pair.place_reverse wellFormed] at named
    by_cases same : id = entry.1
    · rw [if_pos same] at named
      exact .inr (Option.some.inj named ▸ extension.past)
    · rw [if_neg same] at named
      exact extension.beyond id key named
  · rw [Pair.place_nextKey wellFormed]
    exact Nat.le_succ_of_le extension.past
  · rw [Pair.place_nextKey wellFormed]
    have names : (pair.place entry).keymap.names = insert entry.1 pair.keymap.names := by
      ext id
      rw [Finset.mem_insert, Keymap.mem_names, Keymap.mem_names, Pair.place_reverse wellFormed]
      by_cases same : id = entry.1 <;> simp [same]
    have outside : entry.1 ∉ base.names := by
      rw [Keymap.mem_names, unnamedBase]
      simp
    have fresh : entry.1 ∉ pair.keymap.names \ base.names := by
      rw [Finset.mem_sdiff, Keymap.mem_names, unnamed]
      simp
    rw [names, Finset.insert_sdiff_of_notMem _ outside, Finset.card_insert_of_notMem fresh]
    have issued := extension.issued
    omega

/-- Placing entries of distinct items that are not named extends the keymap
further. -/
theorem Keymap.Extends.placeAll {base : Keymap} {pair : Pair}
    (wellFormed : pair.keymap.WellFormed) (extension : base.Extends pair.keymap)
    {entries : List Entry} (distinct : (entries.map Prod.fst).Nodup)
    (unnamed : ∀ entry ∈ entries, pair.keymap.reverse.lookup entry.1 = none) :
    base.Extends (pair.placeAll entries).keymap := by
  induction entries generalizing pair with
  | nil => exact extension
  | cons entry rest inductionHypothesis =>
    obtain ⟨absent, distinct⟩ := List.nodup_cons.mp distinct
    refine inductionHypothesis (Pair.place_wellFormed wellFormed entry)
      (extension.place wellFormed (unnamed entry List.mem_cons_self)) distinct ?_
    intro other member
    have different : other.1 ≠ entry.1 := fun same =>
      absent (same ▸ List.mem_map_of_mem member)
    rw [Pair.place_reverse wellFormed, if_neg different]
    exact unnamed other (List.mem_cons_of_mem _ member)

end Singularmem.Search
