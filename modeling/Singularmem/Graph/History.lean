import Singularmem.Graph.Partition

/-!
# The history of a fact

`factHistory` walks back along `supersedes` to the root of a chain, then forward along the
rows that supersede. A list of what was seen stops it at a cycle, and it refuses to pick a
branch of a fork, so it ends on every table. In a reachable store every member of a chain
gives the same list, as long as the rows of the chain can be read back.
-/

namespace Singularmem.Graph

open Library Singularmem.Core

section Definitions

variable (platform : Platform)

/-- Every revision that supersedes one, oldest recorded first. -/
def successorsOf (tables : Tables) (id : FactId) : List FactId :=
  (chronological (tables.facts.rows.filter fun row => row.supersedes = some id)).map FactRow.id

/-- One fact revision by id. -/
def getFact (tables : Tables) (id : FactId) : Except Error Fact :=
  match loadFact platform tables id with
  | .error error => .error error
  | .ok none => .error (.factIdNotFound id)
  | .ok (some fact) => .ok fact

/-- The walk back: what was seen, and the revisions passed, oldest first. `none` is a walk
that has not ended within the fuel. -/
def walkBack (tables : Tables) : Nat → List FactId → Option FactId → List Fact →
    Option (Except Error (List FactId × List Fact))
  | _, seen, none, older => some (.ok (seen, older))
  | 0, _, some _, _ => none
  | fuel + 1, seen, some prior, older =>
    if prior ∈ seen then some (.ok (seen, older))
    else
      match getFact platform tables prior with
      | .error error => some (.error error)
      | .ok fact => walkBack tables fuel (seen ++ [fact.id]) fact.supersedes (fact :: older)

/-- The walk forward from the last revision of a chain. -/
def walkOn (tables : Tables) : Nat → List FactId → FactId → List Fact →
    Option (Except Error (List Fact))
  | 0, _, _, _ => none
  | fuel + 1, seen, last, chain =>
    match successorsOf tables last with
    | [] => some (.ok chain)
    | [next] =>
      if next ∈ seen then some (.ok chain)
      else
        match getFact platform tables next with
        | .error error => some (.error error)
        | .ok fact => walkOn tables fuel (seen ++ [next]) fact.id (chain ++ [fact])
    | candidates => some (.error (.ambiguousFactRevision candidates))

/-- Every revision of the chain of a fact, oldest first. Each of its loops runs on the fuel. -/
def factHistory (tables : Tables) (fuel : Nat) (id : FactId) : Option (Except Error (List Fact)) :=
  match getFact platform tables id with
  | .error error => some (.error error)
  | .ok start =>
    match walkBack platform tables fuel [start.id] start.supersedes [] with
    | none => none
    | some (.error error) => some (.error error)
    | some (.ok (seen, older)) => walkOn platform tables fuel seen start.id (older ++ [start])

end Definitions

variable {platform : Platform} {tables : Tables}

/-- The rows that were not seen. -/
def unseen (tables : Tables) (seen : List FactId) : Nat :=
  (tables.facts.rows.filter fun row => row.id ∉ seen).length

/-- Seeing a row leaves fewer unseen. -/
theorem unseen_falls {seen : List FactId} {row : FactRow} (stored : row ∈ tables.facts.rows)
    (fresh : row.id ∉ seen) : unseen tables (seen ++ [row.id]) < unseen tables seen := by
  have fewer : (tables.facts.rows.filter fun other => other.id ∉ seen ++ [row.id]) =
      (tables.facts.rows.filter fun other => other.id ∉ seen).filter
        fun other => other.id ≠ row.id := by
    rw [List.filter_filter]
    refine List.filter_congr fun other _ => ?_
    simp [and_comm]
  rw [unseen, unseen, fewer]
  exact List.length_filter_lt_length_iff_exists.mpr
    ⟨row, List.mem_filter.mpr ⟨stored, by simpa using fresh⟩, by simp⟩

/-- A fact that was found is read from the row with its id. -/
theorem getFact_stored {id : FactId} {fact : Fact} (found : getFact platform tables id = .ok fact) :
    ∃ row ∈ tables.facts.rows, row.id = id ∧ Reads platform tables row fact := by
  unfold getFact at found
  split at found
  case h_1 => cases found
  case h_2 => cases found
  case h_3 _ loaded =>
    cases found
    exact loadFact_reads loaded

/-- **The walk back ends**: the fuel need only exceed the number of unseen rows. -/
theorem walkBack_ends (bound : Nat) (seen : List FactId) (cursor : Option FactId)
    (older : List Fact) (few : unseen tables seen < bound) :
    ∃ outcome, ∀ fuel, bound ≤ fuel →
      walkBack platform tables fuel seen cursor older = some outcome := by
  induction bound generalizing seen cursor older with
  | zero => cases few
  | succ bound inductionHypothesis =>
    rcases cursor with _ | prior
    · refine ⟨.ok (seen, older), fun fuel _ => ?_⟩
      cases fuel <;> rfl
    by_cases again : prior ∈ seen
    · refine ⟨.ok (seen, older), fun fuel enough => ?_⟩
      obtain ⟨rest, rfl⟩ : ∃ rest, fuel = rest + 1 := ⟨fuel - 1, by omega⟩
      rw [walkBack, if_pos again]
    rcases loaded : getFact platform tables prior with error | fact
    · refine ⟨.error error, fun fuel enough => ?_⟩
      obtain ⟨rest, rfl⟩ : ∃ rest, fuel = rest + 1 := ⟨fuel - 1, by omega⟩
      rw [walkBack, if_neg again, loaded]
    · obtain ⟨row, stored, rfl, reads⟩ := getFact_stored loaded
      have falls := unseen_falls stored again
      rw [← reads.id] at falls
      obtain ⟨outcome, ends⟩ :=
        inductionHypothesis (seen ++ [fact.id]) fact.supersedes (fact :: older) (by omega)
      refine ⟨outcome, fun fuel enough => ?_⟩
      obtain ⟨rest, rfl⟩ : ∃ rest, fuel = rest + 1 := ⟨fuel - 1, by omega⟩
      rw [walkBack, if_neg again, loaded]
      exact ends rest (by omega)

/-- **The walk forward ends**, in the same way. -/
theorem walkOn_ends (bound : Nat) (seen : List FactId) (last : FactId) (chain : List Fact)
    (few : unseen tables seen < bound) :
    ∃ outcome, ∀ fuel, bound ≤ fuel →
      walkOn platform tables fuel seen last chain = some outcome := by
  induction bound generalizing seen last chain with
  | zero => cases few
  | succ bound inductionHypothesis =>
    have stops : ∀ outcome : Except Error (List Fact),
        (∀ rest, walkOn platform tables (rest + 1) seen last chain = some outcome) →
        ∃ outcome, ∀ fuel, bound + 1 ≤ fuel →
          walkOn platform tables fuel seen last chain = some outcome := by
      intro outcome returns
      refine ⟨outcome, fun fuel enough => ?_⟩
      obtain ⟨rest, rfl⟩ : ∃ rest, fuel = rest + 1 := ⟨fuel - 1, by omega⟩
      exact returns rest
    rcases following : successorsOf tables last with _ | ⟨next, _ | ⟨second, others⟩⟩
    · exact stops (.ok chain) fun rest => by rw [walkOn, following]
    · by_cases again : next ∈ seen
      · exact stops (.ok chain) fun rest => by
          rw [walkOn, following]
          exact if_pos again
      rcases loaded : getFact platform tables next with error | fact
      · refine stops (.error error) fun rest => ?_
        rw [walkOn, following]
        dsimp only
        rw [if_neg again, loaded]
      · obtain ⟨row, stored, rfl, _⟩ := getFact_stored loaded
        have falls := unseen_falls stored again
        obtain ⟨outcome, ends⟩ :=
          inductionHypothesis (seen ++ [row.id]) fact.id (chain ++ [fact]) (by omega)
        refine ⟨outcome, fun fuel enough => ?_⟩
        obtain ⟨rest, rfl⟩ : ∃ rest, fuel = rest + 1 := ⟨fuel - 1, by omega⟩
        rw [walkOn, following]
        dsimp only
        rw [if_neg again, loaded]
        exact ends rest (by omega)
    · exact stops (.error (.ambiguousFactRevision (next :: second :: others))) fun rest => by
        rw [walkOn, following]

/-- **A history ends** on every table, whatever its links. -/
theorem factHistory_ends (tables : Tables) (id : FactId) :
    ∃ outcome, ∀ fuel, tables.facts.rows.length < fuel →
      factHistory platform tables fuel id = some outcome := by
  rcases loaded : getFact platform tables id with error | start
  · exact ⟨.error error, fun fuel _ => by rw [factHistory, loaded]⟩
  have few : ∀ seen, unseen tables seen < tables.facts.rows.length + 1 := by
    intro seen
    have bound : unseen tables seen ≤ tables.facts.rows.length := List.length_filter_le _ _
    omega
  obtain ⟨back, backEnds⟩ := @walkBack_ends platform tables (tables.facts.rows.length + 1)
    [start.id] start.supersedes [] (few _)
  rcases back with error | ⟨seen, older⟩
  · refine ⟨.error error, fun fuel enough => ?_⟩
    rw [factHistory, loaded]
    dsimp only
    rw [backEnds fuel enough]
  · obtain ⟨outcome, ends⟩ := @walkOn_ends platform tables (tables.facts.rows.length + 1)
      seen start.id (older ++ [start]) (few _)
    refine ⟨outcome, fun fuel enough => ?_⟩
    rw [factHistory, loaded]
    dsimp only
    rw [backEnds fuel enough]
    exact ends fuel enough

/-- Rows of one chain of revisions. -/
def Linked (platform : Platform) (tables : Tables) : FactRow → FactRow → Prop :=
  Relation.EqvGen ((factLog platform).Supersedes tables.facts.rows)

/-- The successors of a revision are the ids of the rows that supersede it. -/
theorem mem_successorsOf {older newer : FactId} : newer ∈ successorsOf tables older ↔
    ∃ row ∈ tables.facts.rows, row.id = newer ∧ row.supersedes = some older := by
  simp only [successorsOf, chronological, List.mem_map, List.mem_insertionSort, List.mem_filter,
    decide_eq_true_eq]
  constructor
  · rintro ⟨row, ⟨stored, points⟩, same⟩
    exact ⟨row, stored, same, points⟩
  · rintro ⟨row, stored, same, points⟩
    exact ⟨row, ⟨stored, points⟩, same⟩

/-- A head has no successor. -/
theorem successorsOf_head {row : FactRow}
    (head : ¬ (factLog platform).Superseded tables.facts.rows row) :
    successorsOf tables row.id = [] := by
  refine List.eq_nil_iff_forall_not_mem.mpr fun newer member => ?_
  obtain ⟨other, stored, _, points⟩ := mem_successorsOf.mp member
  exact head ⟨other, stored, points⟩

/-- The only revision that supersedes another is its only successor. -/
theorem successorsOf_pair (sound : (factLog platform).Sound tables.facts.rows)
    {older newer : FactRow} (link : (factLog platform).Supersedes tables.facts.rows newer older) :
    successorsOf tables older.id = [newer.id] := by
  have only : (tables.facts.rows.filter fun row => row.supersedes = some older.id) = [newer] := by
    have distinct : tables.facts.rows.Nodup :=
      sound.ids.imp fun apart same => apart (congrArg FactRow.id same)
    have once := List.count_eq_one_of_mem distinct link.1
    have same : ∀ row ∈ tables.facts.rows,
        decide (row.supersedes = some older.id) = decide (row = newer) := by
      intro row stored
      rw [decide_eq_decide]
      constructor
      · intro points
        exact sound.unforked row stored newer link.1 older.id points link.2.2
      · rintro rfl
        exact link.2.2
    rw [List.filter_congr same, List.filter_eq, once, List.replicate_one]
  rw [successorsOf, only]
  rfl

/-- A row that is read is the fact with its id. -/
theorem getFact_of_reads {row : FactRow} {fact : Fact} (stored : row ∈ tables.facts.rows)
    (reads : Reads platform tables row fact) : getFact platform tables row.id = .ok fact := by
  rw [getFact, loadFact_of_reads stored reads]

/-- A chain of revisions, oldest first: a fact that was not ended, or one and its end. -/
inductive Chain (platform : Platform) (tables : Tables) : List FactRow → Prop
  | standing {row : FactRow} (stored : row ∈ tables.facts.rows) (root : row.supersedes = none)
      (head : ¬ (factLog platform).Superseded tables.facts.rows row) : Chain platform tables [row]
  | ended {older newer : FactRow}
      (link : (factLog platform).Supersedes tables.facts.rows newer older)
      (root : older.supersedes = none)
      (head : ¬ (factLog platform).Superseded tables.facts.rows newer) :
      Chain platform tables [older, newer]

/-- An ended revision supersedes a root, and is a head. -/
theorem chain_of_link (sound : (factLog platform).Sound tables.facts.rows) {older newer : FactRow}
    (link : (factLog platform).Supersedes tables.facts.rows newer older) :
    Chain platform tables [older, newer] := by
  obtain ⟨isEnded, found, foundIn, same, notEnded, _⟩ := sound.closing newer link.1 _ link.2.2
  obtain rfl := sound.id_injective foundIn link.2.1 same
  refine .ended link ?_ (sound.ended_head link.1 isEnded)
  rcases points : found.supersedes with _ | id
  · rfl
  · exact absurd (sound.closing found link.2.1 id points).1 notEnded

/-- **Every stored row lies in a chain**, which holds exactly the rows linked to it. -/
theorem exists_chain (sound : (factLog platform).Sound tables.facts.rows) {row : FactRow}
    (stored : row ∈ tables.facts.rows) :
    ∃ chain, Chain platform tables chain ∧
      ∀ member, Linked platform tables row member ↔ member ∈ chain := by
  have linked : ∀ {older newer : FactRow},
      (factLog platform).Supersedes tables.facts.rows newer older → row = older ∨ row = newer →
      ∀ member, Linked platform tables row member ↔ member ∈ [older, newer] := by
    intro older newer link own member
    simp only [List.mem_cons, List.not_mem_nil, or_false]
    constructor
    · intro path
      rcases own with rfl | rfl
      · rcases sound.chain path with rfl | forward | backward
        · exact .inl rfl
        · exact absurd forward (sound.no_third link)
        · exact .inr (sound.unforked member backward.1 newer link.1 _ backward.2.2 link.2.2)
      · rcases sound.chain path with rfl | forward | backward
        · exact .inr rfl
        · have same := Option.some.inj (forward.2.2.symm.trans link.2.2)
          exact .inl (sound.id_injective forward.2.1 link.2.1 same)
        · exact absurd link (sound.no_third backward)
    · rcases own with rfl | rfl
      · rintro (rfl | rfl)
        · exact .refl _
        · exact .symm _ _ (.rel _ _ link)
      · rintro (rfl | rfl)
        · exact .rel _ _ link
        · exact .refl _
  by_cases superseded : (factLog platform).Superseded tables.facts.rows row
  · obtain ⟨newer, newerIn, points⟩ := superseded
    have link : (factLog platform).Supersedes tables.facts.rows newer row :=
      ⟨newerIn, stored, points⟩
    exact ⟨[row, newer], chain_of_link sound link, linked link (.inl rfl)⟩
  rcases points : row.supersedes with _ | id
  · refine ⟨[row], .standing stored points superseded, fun member => ?_⟩
    rw [List.mem_singleton]
    constructor
    · intro path
      rcases sound.chain path with rfl | forward | backward
      · rfl
      · exact absurd (points.symm.trans forward.2.2) (by simp)
      · exact absurd ⟨member, backward.1, backward.2.2⟩ superseded
    · rintro rfl
      exact .refl _
  · obtain ⟨_, older, olderIn, rfl, _⟩ := sound.closing row stored id points
    have link : (factLog platform).Supersedes tables.facts.rows row older :=
      ⟨stored, olderIn, points⟩
    exact ⟨[older, row], chain_of_link sound link, linked link (.inr rfl)⟩

/-- Rows linked to a stored row are stored. -/
theorem Linked.stored (sound : (factLog platform).Sound tables.facts.rows) {row member : FactRow}
    (linked : Linked platform tables row member) (stored : row ∈ tables.facts.rows) :
    member ∈ tables.facts.rows := by
  rcases sound.chain linked with rfl | forward | backward
  · exact stored
  · exact forward.2.1
  · exact backward.1

/-- A revision and its end have different ids. -/
theorem ended_apart (sound : (factLog platform).Sound tables.facts.rows) {older newer : FactRow}
    (link : (factLog platform).Supersedes tables.facts.rows newer older)
    (root : older.supersedes = none) : newer.id ≠ older.id := by
  intro same
  have points : newer.supersedes = some older.id := link.2.2
  rw [sound.id_injective link.1 link.2.1 same, root] at points
  cases points

/-- **The history of a chain** that can be read is the same from each of its rows. -/
theorem Chain.history (sound : (factLog platform).Sound tables.facts.rows)
    {chain : List FactRow} {facts : List Fact} (isChain : Chain platform tables chain)
    (all : List.Forall₂ (Reads platform tables) chain facts) :
    ∀ row ∈ chain, ∀ fuel, tables.facts.rows.length < fuel →
      factHistory platform tables fuel row.id = some (.ok facts) := by
  have twice : ∀ {row : FactRow}, row ∈ tables.facts.rows → ∀ {fuel},
      tables.facts.rows.length < fuel → ∃ rest, fuel = rest + 2 := by
    intro row stored fuel enough
    have filled := List.length_pos_of_mem stored
    exact ⟨fuel - 2, by omega⟩
  cases isChain with
  | @standing row stored root head =>
    obtain ⟨fact, _, reads, nothing, rfl⟩ := List.forall₂_cons_left_iff.mp all
    obtain rfl := List.forall₂_nil_left_iff.mp nothing
    intro other member fuel enough
    obtain rfl := List.mem_singleton.mp member
    obtain ⟨rest, rfl⟩ := twice stored enough
    obtain ⟨sameId, samePrior⟩ := reads.links
    rw [factHistory, getFact_of_reads stored reads]
    simp only [samePrior, root, walkBack, walkOn, sameId, successorsOf_head head, List.nil_append]
  | @ended older newer link root head =>
    obtain ⟨first, _, firstReads, others, rfl⟩ := List.forall₂_cons_left_iff.mp all
    obtain ⟨second, _, secondReads, nothing, rfl⟩ := List.forall₂_cons_left_iff.mp others
    obtain rfl := List.forall₂_nil_left_iff.mp nothing
    obtain ⟨firstId, firstPrior⟩ := firstReads.links
    obtain ⟨secondId, secondPrior⟩ := secondReads.links
    have points : newer.supersedes = some older.id := link.2.2
    have apart := ended_apart sound link root
    intro other member fuel enough
    obtain ⟨rest, rfl⟩ := twice link.1 enough
    have next := successorsOf_pair sound link
    have last := successorsOf_head head
    rcases List.mem_cons.mp member with rfl | member
    · rw [factHistory, getFact_of_reads link.2.1 firstReads]
      simp only [firstPrior, root, walkBack, walkOn, firstId, next, List.mem_singleton, apart,
        if_false, getFact_of_reads link.1 secondReads, secondId, last, List.nil_append,
        List.singleton_append]
    · obtain rfl := List.mem_singleton.mp member
      rw [factHistory, getFact_of_reads link.1 secondReads]
      simp only [secondPrior, points, walkBack, List.mem_singleton, secondId, apart.symm, if_false,
        getFact_of_reads link.2.1 firstReads, firstPrior, root, walkOn, last,
        List.singleton_append]

/-- What the history of a chain lists: each of its revisions once, oldest first. -/
structure Lists (platform : Platform) (tables : Tables) (row : FactRow) (history : List Fact) :
    Prop where
  distinct : (history.map Fact.id).Nodup
  ordered : history.IsChain fun older newer => newer.supersedes = some older.id
  listed : ∀ fact ∈ history, ∃ member, Linked platform tables row member ∧
    Reads platform tables member fact
  complete : ∀ member, Linked platform tables row member →
    ∃ fact ∈ history, Reads platform tables member fact

/-- The facts read from a chain list it. -/
theorem Chain.lists (sound : (factLog platform).Sound tables.facts.rows)
    {chain : List FactRow} {facts : List Fact} (isChain : Chain platform tables chain)
    (all : List.Forall₂ (Reads platform tables) chain facts) {row : FactRow}
    (linked : ∀ member, Linked platform tables row member ↔ member ∈ chain) :
    Lists platform tables row facts := by
  have listed : ∀ fact ∈ facts, ∃ member ∈ chain, Reads platform tables member fact := by
    intro fact member
    obtain ⟨index, bound, rfl⟩ := List.getElem_of_mem member
    have length := all.length_eq
    exact ⟨_, List.getElem_mem (by omega), all.get (by omega) bound⟩
  have complete : ∀ member ∈ chain, ∃ fact ∈ facts, Reads platform tables member fact := by
    intro row member
    obtain ⟨index, bound, rfl⟩ := List.getElem_of_mem member
    have length := all.length_eq
    exact ⟨_, List.getElem_mem (by omega), all.get bound (by omega)⟩
  have ordered : (facts.map Fact.id).Nodup ∧
      facts.IsChain fun older newer => newer.supersedes = some older.id := by
    cases isChain with
    | @standing row stored root head =>
      obtain ⟨fact, _, _, nothing, rfl⟩ := List.forall₂_cons_left_iff.mp all
      obtain rfl := List.forall₂_nil_left_iff.mp nothing
      simp
    | @ended older newer link root head =>
      obtain ⟨first, _, firstReads, others, rfl⟩ := List.forall₂_cons_left_iff.mp all
      obtain ⟨second, _, secondReads, nothing, rfl⟩ := List.forall₂_cons_left_iff.mp others
      obtain rfl := List.forall₂_nil_left_iff.mp nothing
      have apart := ended_apart sound link root
      have points : newer.supersedes = some older.id := link.2.2
      obtain ⟨secondId, secondPrior⟩ := secondReads.links
      simp [firstReads.id, secondId, secondPrior, points, apart.symm]
  refine ⟨ordered.1, ordered.2, fun fact member => ?_, fun member path => ?_⟩
  · obtain ⟨other, otherIn, reads⟩ := listed fact member
    exact ⟨other, (linked other).mpr otherIn, reads⟩
  · exact complete member ((linked member).mp path)

/-- **Histories of facts.** A history ends on every table. In a reachable store every member of
a chain has one and the same history, which lists the revisions of the chain once each, oldest
first, exactly where all their instants lie in year 0 or later. -/
theorem fact_history_iff (platform : Platform) :
    (∀ (tables : Tables) (id : FactId), ∃ outcome, ∀ fuel, tables.facts.rows.length < fuel →
      factHistory platform tables fuel id = some outcome) ∧
    ∀ (calls : List (Env × GraphCall)) (start : Store), platform.ReadsStored →
      start.database.tables.facts.rows = [] →
      ∀ row ∈ (runCalls platform calls start).database.tables.facts.rows,
        ((∃ history, Lists platform (runCalls platform calls start).database.tables row history ∧
            ∀ member, Linked platform (runCalls platform calls start).database.tables row member →
              ∀ fuel, (runCalls platform calls start).database.tables.facts.rows.length < fuel →
                factHistory platform (runCalls platform calls start).database.tables fuel
                  member.id = some (.ok history)) ↔
          ∀ member, Linked platform (runCalls platform calls start).database.tables row member →
            RowDated member) := by
  refine ⟨factHistory_ends, fun calls start readsStored empty => ?_⟩
  have kept : FactsKept platform (runCalls platform calls start).database.tables :=
    reachable_factsKept calls empty
  generalize (runCalls platform calls start).database.tables = tables at kept
  intro row stored
  obtain ⟨chain, isChain, linked⟩ := exists_chain kept.sound stored
  constructor
  · rintro ⟨history, lists, _⟩ member path
    obtain ⟨fact, _, reads⟩ := lists.complete member path
    exact dated_of_reads readsStored
      (kept.rendered member (path.stored kept.sound stored)) reads
  · intro dated
    have each : ∀ member ∈ chain, ∃ fact, Reads platform tables member fact := by
      intro member memberIn
      have path := (linked member).mpr memberIn
      have memberStored := path.stored kept.sound stored
      exact reads_of_dated readsStored (tables.facts.checked member memberStored)
        (kept.references.subject member memberStored) (dated member path)
    obtain ⟨history, _, all⟩ := selectFacts_reads each
    refine ⟨history, isChain.lists kept.sound all linked, fun member path => ?_⟩
    exact isChain.history kept.sound all member ((linked member).mp path)

/-- A fact of the year -5. -/
def earlyFact : List (Env × GraphCall) :=
  [(⟨instantAfter 0, fun draw => draw⟩, .add ⟨"Rome", none, "rules", .value "Gaul",
    some (earlyInstant false), none, .one, none, none⟩)]

/-- A fact that was stated and ended has a history of two revisions. -/
theorem ended_fact_has_a_history :
    ∃ row ∈ (runCalls .unsignedYears statedAndReplaced ⟨false, .fresh⟩).database.tables.facts.rows,
      row.supersedes.isSome ∧ ∃ history,
        Lists .unsignedYears
          (runCalls .unsignedYears statedAndReplaced ⟨false, .fresh⟩).database.tables row history ∧
        factHistory .unsignedYears
          (runCalls .unsignedYears statedAndReplaced ⟨false, .fresh⟩).database.tables 4 row.id =
            some (.ok history) := by
  have ended : ((runCalls .unsignedYears statedAndReplaced
      ⟨false, .fresh⟩).database.tables.facts.rows.any fun row => row.supersedes.isSome) = true := by
    decide +kernel
  have few : (runCalls .unsignedYears statedAndReplaced
      ⟨false, .fresh⟩).database.tables.facts.rows.length = 3 := by decide +kernel
  obtain ⟨row, stored, points⟩ := List.any_eq_true.mp ended
  have sound : (factLog .unsignedYears).Sound (runCalls .unsignedYears statedAndReplaced
      ⟨false, .fresh⟩).database.tables.facts.rows := (runCalls_sound statedAndReplaced rfl).1
  have unsigned : ∀ call ∈ statedAndReplaced, call.2.Unsigned := by
    simp [statedAndReplaced, GraphCall.Unsigned, GraphCall.instants]
  have empty : (⟨false, .fresh⟩ : Store).database.tables.facts.rows = [] := rfl
  have dated := reachable_dated Platform.unsignedYears_readsStored unsigned empty
  obtain ⟨history, lists, same⟩ := ((fact_history_iff .unsignedYears).2 statedAndReplaced
    ⟨false, .fresh⟩ Platform.unsignedYears_readsStored rfl row stored).mpr fun member linked =>
      dated member (linked.stored sound stored)
  exact ⟨row, stored, points, history, lists, same row (.refl _) 4 (by rw [few]; decide)⟩

/-- A fact that lies before year 0 has no history. -/
theorem early_fact_has_no_history :
    ¬ ∀ (calls : List (Env × GraphCall)) (start : Store),
      start.database.tables.facts.rows = [] →
      ∀ row ∈ (runCalls .unsignedYears calls start).database.tables.facts.rows,
        ∃ history, ∀ member,
          Linked .unsignedYears (runCalls .unsignedYears calls start).database.tables row member →
            ∀ fuel, (runCalls .unsignedYears calls start).database.tables.facts.rows.length < fuel →
              factHistory .unsignedYears (runCalls .unsignedYears calls start).database.tables fuel
                member.id = some (.ok history) := by
  intro all
  have failed : ((runCalls .unsignedYears earlyFact
      ⟨false, .fresh⟩).database.tables.facts.rows.map fun row => (factHistory .unsignedYears
        (runCalls .unsignedYears earlyFact ⟨false, .fresh⟩).database.tables 2 row.id).map
          Except.isOk) = [some false] := by decide +kernel
  obtain ⟨row, rows, error⟩ := List.map_eq_singleton_iff.mp failed
  obtain ⟨history, same⟩ := all earlyFact ⟨false, .fresh⟩ rfl row (by rw [rows]; simp)
  rw [same row (.refl _) 2 (by simp [rows])] at error
  cases error

end Singularmem.Graph
