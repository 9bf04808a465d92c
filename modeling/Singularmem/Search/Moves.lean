import Singularmem.Library.Triples
import Singularmem.Search.Placement
import Mathlib.Logic.Relation

/-!
# What insertion and removal do

Insertion and removal take a graph and its keymap through a few moves, and a failing call
of the graph library stops them between two of these. So an invariant of pairs that every
move keeps holds wherever they stop.

Keys are issued upwards and never again: while a pair moves, a key that was issued before
names only the item it named, or nothing.
-/

namespace Singularmem.Search

open Library Singularmem.Core Effect

/-- The context of an error in the branch for a key that the graph already holds. -/
def orphanContext : String := "evicting an orphan usearch key during replay"

namespace Pair

/-- One thing that is done to a graph and its keymap. -/
inductive Move : Pair → Pair → Prop
  | forget {pair : Pair} {id : ItemId} {key : Nat}
      (named : pair.keymap.reverse.lookup id = some key) :
      Move pair ⟨pair.index, pair.keymap.forget id key⟩
  | erase {pair : Pair} {key : Nat} (issued : key < pair.keymap.nextKey)
      (unnamed : ∀ id, pair.keymap.reverse.lookup id ≠ some key) :
      Move pair ⟨pair.index.erase key, pair.keymap⟩
  | skip {pair : Pair} : Move pair ⟨pair.index, pair.keymap.advance⟩
  | issue {pair : Pair} {entry : Entry}
      (unnamed : pair.keymap.reverse.lookup entry.1 = none) : Move pair (pair.issue entry)
  | stamp {pair : Pair} (generation : Nat) :
      Move pair ⟨pair.index, { pair.keymap with generation }⟩

/-- Several moves. -/
abbrev Moves : Pair → Pair → Prop := Relation.ReflTransGen Move

/-- The keymap is well formed and every key of the graph was issued. -/
structure Ordered (pair : Pair) : Prop where
  wellFormed : pair.keymap.WellFormed
  below : ∀ key ∈ pair.index, key < pair.keymap.nextKey

variable {pair next : Pair}

/-- The next key is free. -/
theorem Ordered.free (ordered : pair.Ordered) : pair.keymap.nextKey ∉ pair.index :=
  fun held => Nat.lt_irrefl _ (ordered.below _ held)

namespace Move

theorem wellFormed (move : Move pair next) (wellFormed : pair.keymap.WellFormed) :
    next.keymap.WellFormed := by
  cases move with
  | forget named => exact wellFormed.forget named
  | erase => exact wellFormed
  | skip => exact ⟨wellFormed.inverse, fun id key named => Nat.lt_succ_of_lt (wellFormed.issued id key named)⟩
  | issue unnamed => exact wellFormed.issue unnamed
  | stamp => exact ⟨wellFormed.inverse, wellFormed.issued⟩

theorem ordered (move : Move pair next) (ordered : pair.Ordered) : next.Ordered := by
  refine ⟨move.wellFormed ordered.wellFormed, fun key held => ?_⟩
  cases move with
  | forget | stamp => exact ordered.below key held
  | erase => exact ordered.below key (Finmap.mem_erase.mp held).2
  | skip => exact Nat.lt_succ_of_lt (ordered.below key held)
  | issue =>
    rcases Finmap.mem_insert.mp held with rfl | old
    · exact Nat.lt_succ_self _
    · exact Nat.lt_succ_of_lt (ordered.below key (Finmap.mem_erase.mp old).2)

/-- A key that is named is held. -/
theorem sound (move : Move pair next) (sound : pair.Sound) : next.Sound := by
  refine ⟨move.wellFormed sound.wellFormed, fun id key named => ?_⟩
  cases move with
  | @forget other _ _ =>
    by_cases same : id = other
    · subst same
      simp [Keymap.forget] at named
    · simp only [Keymap.forget, Finmap.lookup_erase_ne same] at named
      exact sound.served id key named
  | @erase other _ unnamed =>
    have different : key ≠ other := fun same => unnamed id (same ▸ named)
    change ((pair.index.erase other).lookup key).isSome
    rw [Finmap.lookup_erase_ne different]
    exact sound.served id key named
  | skip | stamp => exact sound.served id key named
  | @issue entry unnamed =>
    rw [Pair.issue]
    by_cases issued : key = pair.keymap.nextKey
    · rw [issued, Finmap.lookup_insert]
      rfl
    · rw [Finmap.lookup_insert_of_ne _ issued, Finmap.lookup_erase_ne issued]
      by_cases same : id = entry.1
      · subst same
        change (pair.keymap.reverse.insert _ _).lookup _ = _ at named
        rw [Finmap.lookup_insert] at named
        exact absurd (Option.some.inj named).symm issued
      · change (pair.keymap.reverse.insert _ _).lookup _ = _ at named
        rw [Finmap.lookup_insert_of_ne _ same] at named
        exact sound.served id key named

end Move

/-- What every move keeps, several moves keep. -/
theorem Moves.keeps {holds : Pair → Prop}
    (kept : ∀ {pair next}, Move pair next → holds pair → holds next) (moves : Moves pair next)
    (held : holds pair) : holds next := by
  induction moves with
  | refl => exact held
  | tail _ move inductionHypothesis => exact kept move inductionHypothesis

theorem Moves.ordered (moves : Moves pair next) (ordered : pair.Ordered) : next.Ordered :=
  moves.keeps Move.ordered ordered

theorem Moves.sound (moves : Moves pair next) (sound : pair.Sound) : next.Sound :=
  moves.keeps Move.sound sound

/-- Nothing is named by a key that was forgotten. -/
theorem forget_unnamed {keymap : Keymap} (wellFormed : keymap.WellFormed) {id : ItemId} {key : Nat}
    (named : keymap.reverse.lookup id = some key) (other : ItemId) :
    (keymap.forget id key).reverse.lookup other ≠ some key := by
  intro still
  by_cases same : other = id
  · subst same
    simp [Keymap.forget] at still
  · simp only [Keymap.forget, Finmap.lookup_erase_ne same] at still
    exact same (wellFormed.injective still named)

/-- Evicting an item forgets its key and erases it. -/
theorem evict_moves (wellFormed : pair.keymap.WellFormed) (id : ItemId) :
    Moves pair (pair.evict id) := by
  rw [evict]
  split
  case h_1 key named =>
    exact .tail (.single (.forget named))
      (.erase (wellFormed.issued id key named) (forget_unnamed wellFormed named))
  case h_2 => exact .refl

/-- Placing an entry evicts and issues. -/
theorem place_moves (wellFormed : pair.keymap.WellFormed) (entry : Entry) :
    Moves pair (pair.place entry) := by
  obtain ⟨_, unnamed, _⟩ := evict_keymap wellFormed entry.1
  exact .tail (evict_moves wellFormed entry.1) (.issue unnamed)

end Pair

/-- Since an earlier keymap, a key it had issued names what it named, or nothing. -/
structure Keymap.Descends (earlier later : Keymap) : Prop where
  past : earlier.nextKey ≤ later.nextKey
  names : ∀ key id, key < earlier.nextKey → later.forward.lookup key = some id →
    earlier.forward.lookup key = some id

namespace Keymap.Descends

theorem refl (keymap : Keymap) : Descends keymap keymap :=
  ⟨Nat.le_refl _, fun _ _ _ named => named⟩

theorem trans {first second third : Keymap} (early : Descends first second)
    (late : Descends second third) : Descends first third :=
  ⟨early.past.trans late.past, fun key id issued named =>
    early.names key id issued (late.names key id (issued.trans_le early.past) named)⟩

end Keymap.Descends

namespace Pair

variable {pair next : Pair}

theorem Move.descends (move : Move pair next) : pair.keymap.Descends next.keymap := by
  cases move with
  | @forget _ forgotten _ =>
    refine ⟨Nat.le_refl _, fun key id _ named => ?_⟩
    by_cases same : key = forgotten
    · subst same
      simp [Keymap.forget] at named
    · simpa only [Keymap.forget, Finmap.lookup_erase_ne same] using named
  | erase | stamp => exact ⟨Nat.le_refl _, fun _ _ _ named => named⟩
  | skip => exact ⟨Nat.le_succ _, fun _ _ _ named => named⟩
  | issue =>
    refine ⟨Nat.le_succ _, fun key id issued named => ?_⟩
    change (pair.keymap.forward.insert _ _).lookup _ = _ at named
    rwa [Finmap.lookup_insert_of_ne _ (Nat.ne_of_lt issued)] at named

theorem Moves.descends (moves : Moves pair next) : pair.keymap.Descends next.keymap := by
  induction moves with
  | refl => exact .refl _
  | tail _ move inductionHypothesis => exact inductionHypothesis.trans move.descends

end Pair

section Calls

variable {pair : Pair} {context : String}

/-- A call of the graph library returns or fails with its context. -/
theorem usearchCall_triple : Triple (·.pair = pair) (usearchCall context)
    (fun _ state => state.pair = pair)
    (fun error state => error = .usearch context ∧ state.pair = pair) := by
  refine .get_bind fun state held => ?_
  cases schedule : state.faults with
  | nil => exact .pure fun _ same => same ▸ held
  | cons fails rest =>
    refine .bind (.modify fun _ same => same ▸ held : Triple _ _ (fun _ state => state.pair = pair) _)
      fun _ => ?_
    cases fails with
    | false => exact .pure fun _ same => same
    | true => exact .throw fun _ same => ⟨rfl, same⟩

/-- Evicting a key erases it, or fails while the graph holds it. -/
theorem usearchEvict_triple {key : Nat} : Triple (·.pair = pair) (usearchEvict context key)
    (fun _ state => state.pair = ⟨pair.index.erase key, pair.keymap⟩)
    (fun error state => key ∈ pair.index ∧ error = .usearch context ∧ state.pair = pair) := by
  refine .get_bind fun state held => ?_
  have same : state.index = pair.index := congrArg Pair.index held
  by_cases present : key ∈ state.index
  · rw [if_pos present]
    refine .bind ((@usearchCall_triple pair context).weaken (fun _ same => same ▸ held)
      (fun _ _ same => same) fun _ _ threw => ⟨same ▸ present, threw⟩) fun _ => ?_
    exact .modify fun state same => by rw [← same]; rfl
  · rw [if_neg present]
    refine .pure fun final unchanged => ?_
    rw [unchanged, held, erase_absent (same ▸ present)]

/-- Adding a vector under a free key. -/
theorem usearchAdd_triple {key : Nat} {vector : List F32} (free : key ∉ pair.index) :
    Triple (·.pair = pair) (usearchAdd key vector)
      (fun _ state => state.pair = ⟨pair.index.insert key vector, pair.keymap⟩)
      (fun error state => error = .usearch "usearch add" ∧ state.pair = pair) := by
  refine .bind usearchCall_triple fun _ => .get_bind fun state held => ?_
  have same : state.index = pair.index := congrArg Pair.index held
  rw [if_neg (same ▸ free)]
  refine .modify fun final unchanged => ?_
  rw [unchanged, ← held]
  rfl

/-- Evicting an item drops its key from both directions, and then from the graph. -/
theorem evictPrevious_triple {id : ItemId} : Triple (·.pair = pair) (evictPrevious id)
    (fun _ state => state.pair = pair.evict id)
    (fun error state => error ≠ .usearch orphanContext ∧
      ∃ key, pair.keymap.reverse.lookup id = some key ∧
        state.pair = ⟨pair.index, pair.keymap.forget id key⟩) := by
  refine .get_bind fun state held => ?_
  have same : state.keymap = pair.keymap := congrArg Pair.keymap held
  rw [same, Pair.evict]
  cases named : pair.keymap.reverse.lookup id with
  | none => exact .pure fun final unchanged => unchanged ▸ held
  | some key =>
    refine .bind (.modify fun final unchanged => ?_) fun _ =>
      (@usearchEvict_triple ⟨pair.index, pair.keymap.forget id key⟩ _ key).weaken
        (fun _ same => same) (fun _ _ same => same) ?_
    · rw [unchanged, ← held]
      rfl
    · rintro error final ⟨_, rfl, same⟩
      exact ⟨by decide, key, rfl, same⟩

/-- Issuing a key to an entry, when the next key is free. -/
theorem issueNext_triple {entry : Entry} (free : pair.keymap.nextKey ∉ pair.index) :
    Triple (·.pair = pair) (issueNext entry) (fun _ state => state.pair = pair.issue entry)
      (fun error state => error = .usearch "usearch add" ∧
        state.pair = ⟨pair.index, pair.keymap.advance⟩) := by
  refine .get_bind fun state held => ?_
  have same : state.keymap.nextKey = pair.keymap.nextKey := by rw [← held]; rfl
  rw [same]
  refine .bind (.modify fun final unchanged => ?_) fun _ => .bind
    ((@usearchEvict_triple ⟨pair.index, pair.keymap.advance⟩ _ pair.keymap.nextKey).weaken
      (fun _ same => same) (fun _ _ same => same) fun _ _ threw => absurd threw.1 free) fun _ =>
    .bind (@usearchAdd_triple ⟨pair.index.erase pair.keymap.nextKey, pair.keymap.advance⟩ _ _
      Finmap.notMem_erase_self |>.weaken (fun _ same => same) (fun _ _ same => same) ?_) fun _ => ?_
  · rw [unchanged, ← held]
    rfl
  · rintro error final ⟨rfl, same⟩
    refine ⟨rfl, same.trans ?_⟩
    rw [erase_absent free]
  · exact .modify fun final same => congrArg
      (fun placed : Pair => Pair.mk placed.index (placed.keymap.record entry.1 pair.keymap.nextKey)) same

/-- Inserting an entry places it, or stops somewhere on the way. -/
theorem insertEntry_triple {entry : Entry} (ordered : pair.Ordered) :
    Triple (·.pair = pair) (insertEntry entry) (fun _ state => state.pair = pair.place entry)
      (fun error state => error ≠ .usearch orphanContext ∧ pair.Moves state.pair) := by
  refine .bind (evictPrevious_triple.weaken (fun _ same => same) (fun _ _ same => same) ?_)
    fun _ => issueNext_triple ?_ |>.weaken (fun _ same => same) (fun _ _ same => same) ?_
  · rintro error state ⟨other, key, named, same⟩
    exact ⟨other, same ▸ .single (.forget named)⟩
  · exact ((Pair.evict_moves ordered.wellFormed entry.1).ordered ordered).free
  · rintro error state ⟨rfl, same⟩
    exact ⟨by decide, same ▸ (Pair.evict_moves ordered.wellFormed entry.1).tail .skip⟩

/-- Inserting entries moves the graph and the keymap, and finds no orphan. -/
theorem insertLoop_triple (entries : List Entry) (ordered : pair.Ordered) :
    Triple (·.pair = pair) (insertLoop entries) (fun _ state => pair.Moves state.pair)
      (fun error state => error ≠ .usearch orphanContext ∧ pair.Moves state.pair) := by
  induction entries generalizing pair with
  | nil => exact .pure fun state same => same ▸ .refl
  | cons entry rest inductionHypothesis =>
    have placed := Pair.place_moves ordered.wellFormed entry
    refine .bind (insertEntry_triple ordered) fun _ =>
      (inductionHypothesis (placed.ordered ordered)).weaken (fun _ same => same)
        (fun _ _ moves => placed.trans moves) fun _ _ threw => ⟨threw.1, placed.trans threw.2⟩

/-- Inserting a batch does, whatever call of the graph library fails. -/
theorem insertEntries_triple (entries : List Entry) (ordered : pair.Ordered) :
    Triple (·.pair = pair) (insertEntries entries) (fun _ state => pair.Moves state.pair)
      (fun error state => error ≠ .usearch orphanContext ∧ pair.Moves state.pair) := by
  cases entries with
  | nil => exact .pure fun state same => same ▸ .refl
  | cons entry rest =>
    refine .bind (usearchCall_triple.weaken (fun _ same => same) (fun _ _ same => same) ?_)
      fun _ => insertLoop_triple (entry :: rest) ordered
    rintro error state ⟨rfl, same⟩
    exact ⟨by decide, same ▸ .refl⟩

end Calls

end Singularmem.Search
