import Singularmem.Search.Placement

/-!
# Where insertion stops

Every call of the graph library takes one item of the schedule of failures. So the schedule,
the graph and the keymap tell beforehand at which entry a batch stops: the entries before it
are placed, and the item of that entry has lost its name.
-/

namespace Singularmem.Search

open Library Singularmem.Core Effect

/-- Started on a pair, the computation makes some calls of the graph library. When none of
them fails it leaves the next pair; otherwise it throws, and leaves a keymap that is
`stopped`. -/
structure Metered (action : Usearch PUnit) (pair : Pair) (calls : Nat) (next : Pair)
    (stopped : Keymap → Prop) : Prop where
  returns : ∀ faults, true ∉ faults.take calls →
    action.exec ⟨faults, pair.index, pair.keymap⟩ =
      (.ok ⟨⟩, ⟨faults.drop calls, next.index, next.keymap⟩)
  throws : ∀ faults, true ∈ faults.take calls →
    ∃ error after, action.exec ⟨faults, pair.index, pair.keymap⟩ = (.error error, after) ∧
      stopped after.keymap

namespace Metered

variable {action : Usearch PUnit} {pair middle next : Pair} {calls more : Nat}
  {stopped : Keymap → Prop}

/-- More may be said of the keymap that is left. -/
theorem weaken {weaker : Keymap → Prop} (metered : Metered action pair calls next stopped)
    (weakens : ∀ keymap, stopped keymap → weaker keymap) :
    Metered action pair calls next weaker where
  returns := metered.returns
  throws faults fails := by
    obtain ⟨error, after, threw, left⟩ := metered.throws faults fails
    exact ⟨error, after, threw, weakens _ left⟩

/-- The calls of two parts add up. -/
theorem bind {rest : PUnit → Usearch PUnit} (first : Metered action pair calls middle stopped)
    (second : Metered (rest ⟨⟩) middle more next stopped) :
    Metered (action >>= rest) pair (calls + more) next stopped where
  returns faults none := by
    rw [List.take_add, List.mem_append, not_or] at none
    rw [exec_bind_ok (first.returns faults none.1), second.returns _ none.2, List.drop_drop]
  throws faults fails := by
    rw [List.take_add, List.mem_append] at fails
    by_cases early : true ∈ faults.take calls
    · obtain ⟨error, after, threw, left⟩ := first.throws faults early
      exact ⟨error, after, exec_bind_error threw, left⟩
    · rw [exec_bind_ok (first.returns faults early)]
      exact second.throws _ (fails.resolve_left early)

/-- After reading the state. -/
theorem get_bind {rest : IndexState → Usearch PUnit}
    (each : ∀ faults, Metered (rest ⟨faults, pair.index, pair.keymap⟩) pair calls next stopped) :
    Metered (MonadState.get >>= rest) pair calls next stopped where
  returns faults none := by
    rw [exec_bind_ok (exec_get _)]
    exact (each faults).returns faults none
  throws faults fails := by
    rw [exec_bind_ok (exec_get _)]
    exact (each faults).throws faults fails

/-- What calls nothing. -/
theorem silent
    (ran : ∀ faults, action.exec ⟨faults, pair.index, pair.keymap⟩ =
      (.ok ⟨⟩, ⟨faults, next.index, next.keymap⟩)) :
    Metered action pair 0 next stopped where
  returns faults _ := ran faults
  throws faults fails := by
    rw [List.take_zero] at fails
    cases fails

theorem usearchCall {context : String} :
    Metered (usearchCall context) pair 1 pair (· = pair.keymap) where
  returns faults none := by
    cases faults with
    | nil => rfl
    | cons fails rest =>
      cases fails with
      | false => rfl
      | true => exact absurd List.mem_cons_self none
  throws faults fails := by
    cases faults with
    | nil => cases fails
    | cons first rest =>
      rw [List.take_succ_cons, List.take_zero, List.mem_singleton] at fails
      subst fails
      exact ⟨_, _, rfl, rfl⟩

theorem usearchEvict {context : String} {key : Nat} :
    Metered (usearchEvict context key) pair (if key ∈ pair.index then 1 else 0)
      ⟨pair.index.erase key, pair.keymap⟩ (· = pair.keymap) := by
  apply get_bind
  intro faults
  by_cases held : key ∈ pair.index
  · rw [if_pos held, if_pos held, ← Nat.add_zero 1]
    apply bind usearchCall
    exact silent fun _ => rfl
  · rw [if_neg held, if_neg held, erase_absent held]
    exact silent fun _ => rfl

theorem usearchAdd {key : Nat} {vector : List F32} (free : key ∉ pair.index) :
    Metered (usearchAdd key vector) pair 1 ⟨pair.index.insert key vector, pair.keymap⟩
      (· = pair.keymap) := by
  rw [← Nat.add_zero 1]
  apply bind usearchCall
  apply get_bind
  intro faults
  rw [if_neg free]
  exact silent fun _ => rfl

end Metered

namespace Pair

/-- The calls that taking out what an item holds makes. -/
def evictCalls (pair : Pair) (id : ItemId) : Nat :=
  match pair.keymap.reverse.lookup id with
  | some key => if key ∈ pair.index then 1 else 0
  | none => 0

/-- The calls that issuing the next key makes. -/
def issueCalls (pair : Pair) : Nat := (if pair.keymap.nextKey ∈ pair.index then 1 else 0) + 1

/-- The calls that inserting an entry makes. -/
def calls (pair : Pair) (entry : Entry) : Nat :=
  pair.evictCalls entry.1 + (pair.evict entry.1).issueCalls

/-- Where a batch stops: the entries before the first one that a call fails for, and that
entry. -/
def stop (pair : Pair) (faults : List Bool) : List Entry → Option (List Entry × Entry)
  | [] => none
  | entry :: rest =>
    if true ∈ faults.take (pair.calls entry) then some ([], entry)
    else ((pair.place entry).stop (faults.drop (pair.calls entry)) rest).map
      (Prod.map (entry :: ·) id)

end Pair

namespace Metered

variable {pair : Pair}

theorem evictPrevious (id : ItemId) :
    Metered (evictPrevious id) pair (pair.evictCalls id) (pair.evict id)
      (· = (pair.evict id).keymap) := by
  apply get_bind
  intro faults
  unfold Pair.evictCalls Pair.evict
  cases pair.keymap.reverse.lookup id with
  | none => exact silent fun _ => rfl
  | some key =>
    have forgotten : Metered (modify fun state : IndexState =>
        { state with keymap := state.keymap.forget id key }) pair 0
        ⟨pair.index, pair.keymap.forget id key⟩ (· = pair.keymap.forget id key) :=
      silent fun _ => rfl
    dsimp only
    rw [← Nat.zero_add (if key ∈ pair.index then 1 else 0)]
    exact forgotten.bind usearchEvict

theorem issueNext (entry : Entry) :
    Metered (issueNext entry) pair pair.issueCalls (pair.issue entry)
      (· = pair.keymap.advance) := by
  apply get_bind
  intro faults
  have advanced : Metered (modify fun state : IndexState =>
      { state with keymap := state.keymap.advance }) pair 0 ⟨pair.index, pair.keymap.advance⟩
      (· = pair.keymap.advance) :=
    silent fun _ => rfl
  rw [Pair.issueCalls, ← Nat.zero_add (_ + 1), ← Nat.add_zero 1]
  apply advanced.bind
  apply usearchEvict.bind
  apply (usearchAdd Finmap.notMem_erase_self).bind
  exact silent fun _ => rfl

/-- Inserting an entry places it, or stops with its item forgotten. -/
theorem insertEntry (entry : Entry) :
    Metered (insertEntry entry) pair (pair.calls entry) (pair.place entry) fun keymap =>
      keymap = (pair.evict entry.1).keymap ∨ keymap = (pair.evict entry.1).keymap.advance :=
  bind ((evictPrevious entry.1).weaken fun _ => .inl) ((issueNext entry).weaken fun _ => .inr)

end Metered

section Batches

variable {pair : Pair} {faults : List Bool} {entries before : List Entry} {stopped : Entry}

/-- The entries before the one that stops come first in the batch. -/
theorem Pair.stop_prefix (stops : pair.stop faults entries = some (before, stopped)) :
    ∃ later, entries = before ++ later := by
  induction entries generalizing pair faults before with
  | nil => cases stops
  | cons entry rest inductionHypothesis =>
    rw [Pair.stop] at stops
    split at stops
    case isTrue =>
      cases stops
      exact ⟨_, rfl⟩
    case isFalse =>
      obtain ⟨⟨earlier, last⟩, stopsLater, same⟩ := Option.map_eq_some_iff.mp stops
      cases same
      obtain ⟨later, split⟩ := inductionHypothesis stopsLater
      exact ⟨later, congrArg (List.cons entry) split⟩

/-- A batch that does not stop places its entries. -/
theorem insertLoop_returns (goesOn : pair.stop faults entries = none) :
    ∃ rest, (insertLoop entries).exec ⟨faults, pair.index, pair.keymap⟩ =
      (.ok ⟨⟩, ⟨rest, (pair.placeAll entries).index, (pair.placeAll entries).keymap⟩) := by
  induction entries generalizing pair faults with
  | nil => exact ⟨faults, rfl⟩
  | cons entry rest inductionHypothesis =>
    rw [Pair.stop] at goesOn
    split at goesOn
    case isTrue => cases goesOn
    case isFalse none =>
      rw [insertLoop, exec_bind_ok ((Metered.insertEntry entry).returns faults none)]
      exact inductionHypothesis (Option.map_eq_none_iff.mp goesOn)

/-- A batch that stops has placed the entries before, and its item is forgotten. -/
theorem insertLoop_stops (stops : pair.stop faults entries = some (before, stopped)) :
    ∃ error after, (insertLoop entries).exec ⟨faults, pair.index, pair.keymap⟩ =
        (.error error, after) ∧
      (after.keymap = ((pair.placeAll before).evict stopped.1).keymap ∨
        after.keymap = ((pair.placeAll before).evict stopped.1).keymap.advance) := by
  induction entries generalizing pair faults before with
  | nil => cases stops
  | cons entry rest inductionHypothesis =>
    rw [Pair.stop] at stops
    split at stops
    case isTrue fails =>
      obtain ⟨error, after, threw, left⟩ := (Metered.insertEntry entry).throws faults fails
      cases stops
      rw [insertLoop, exec_bind_error threw]
      exact ⟨error, after, rfl, left⟩
    case isFalse none =>
      obtain ⟨⟨earlier, last⟩, later, same⟩ := Option.map_eq_some_iff.mp stops
      cases same
      rw [insertLoop, exec_bind_ok ((Metered.insertEntry entry).returns faults none)]
      exact inductionHypothesis later

/-- Reserving room comes first, for a batch with entries. -/
theorem insertEntries_reserves (reserved : faults.head? ≠ some true) (some : entries ≠ []) :
    (insertEntries entries).exec ⟨faults, pair.index, pair.keymap⟩ =
      (insertLoop entries).exec ⟨faults.tail, pair.index, pair.keymap⟩ := by
  cases entries with
  | nil => exact absurd rfl some
  | cons entry rest =>
    cases faults with
    | nil => rfl
    | cons fails others =>
      cases fails with
      | false => rfl
      | true => exact absurd rfl reserved

/-- A reservation that fails leaves graph and keymap. -/
theorem insertEntries_refused (refused : faults.head? = some true) (some : entries ≠ []) :
    ∃ error, (insertEntries entries).exec ⟨faults, pair.index, pair.keymap⟩ =
      (.error error, ⟨faults.tail, pair.index, pair.keymap⟩) := by
  cases entries with
  | nil => exact absurd rfl some
  | cons entry rest =>
    cases faults with
    | nil => cases refused
    | cons fails others =>
      cases refused
      exact ⟨_, rfl⟩

/-- The keymaps that a batch can leave: the one before, the one with all entries placed, or one
that lost the item of an entry after those before it were placed. -/
theorem insertEntries_leaves {outcome : Except Error PUnit} {after : IndexState}
    (ran : (insertEntries entries).exec ⟨faults, pair.index, pair.keymap⟩ = (outcome, after)) :
    after.keymap = pair.keymap ∨ after.keymap = (pair.placeAll entries).keymap ∨
      ∃ before later stopped, entries = before ++ later ∧
        (after.keymap = ((pair.placeAll before).evict stopped).keymap ∨
          after.keymap = ((pair.placeAll before).evict stopped).keymap.advance) := by
  by_cases some : entries = []
  · subst some
    cases ran
    exact .inl rfl
  by_cases reserved : faults.head? = Option.some true
  · obtain ⟨error, failed⟩ := insertEntries_refused reserved some
    cases failed.symm.trans ran
    exact .inl rfl
  rw [insertEntries_reserves reserved some] at ran
  cases stops : pair.stop faults.tail entries with
  | none =>
    obtain ⟨rest, inserted⟩ := insertLoop_returns stops
    cases inserted.symm.trans ran
    exact .inr (.inl rfl)
  | some stop =>
    obtain ⟨before, stopped⟩ := stop
    obtain ⟨error, reached, failed, left⟩ := insertLoop_stops stops
    cases failed.symm.trans ran
    obtain ⟨later, split⟩ := Pair.stop_prefix stops
    exact .inr (.inr ⟨before, later, stopped.1, split, left⟩)

/-- A batch keeps the keymap well formed. -/
theorem insertEntries_wellFormed {outcome : Except Error PUnit} {after : IndexState}
    (ran : (insertEntries entries).exec ⟨faults, pair.index, pair.keymap⟩ = (outcome, after))
    (wellFormed : pair.keymap.WellFormed) : after.keymap.WellFormed := by
  rcases insertEntries_leaves ran with same | placed | ⟨before, later, stopped, _, left⟩
  · exact same ▸ wellFormed
  · exact placed ▸ Pair.placeAll_wellFormed wellFormed entries
  · obtain ⟨evicted, _⟩ := Pair.evict_keymap (Pair.placeAll_wellFormed wellFormed before) stopped
    rcases left with same | advanced
    · exact same ▸ evicted
    · rw [advanced]
      exact ⟨evicted.inverse, fun id key named => Nat.lt_succ_of_lt (evicted.issued id key named)⟩

end Batches

end Singularmem.Search
