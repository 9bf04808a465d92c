import Singularmem.Core.ItemStore

/-!
# Walks over the revisions of items

Both walks over the `supersedes` links end, because links point back in the table. The
walk back lists a chain of distinct items; the walk forward ends at an item that nothing
supersedes, or where several items supersede one.
-/

namespace Singularmem.Core

open Library

variable {platform : Platform} {tables : Tables}

/-- Every stored row can be parsed. -/
def Readable (platform : Platform) (tables : Tables) : Prop :=
  ∀ row ∈ tables.items.rows, (itemOfRow platform tables row).isOk

instance (platform : Platform) (tables : Tables) : Decidable (Readable platform tables) :=
  inferInstanceAs (Decidable (∀ row ∈ tables.items.rows, _))

/-- The position of an item in its table. -/
def itemPosition (tables : Tables) (id : ItemId) : Nat := itemLinks.position tables.items.rows id

/-- A stored item that can be read, with its row. -/
theorem loadItem_ok (readable : Readable platform tables) {id : ItemId} (present : tables.hasItem id) :
    ∃ row item, row ∈ tables.items.rows ∧ row.id = id ∧ loadItem platform tables id = .ok item ∧
      item.id = id ∧ item.supersedes = row.supersedes := by
  obtain ⟨row, found⟩ := Option.isSome_iff_exists.mp present
  obtain ⟨member, entry⟩ := Table.find_eq_some.mp found
  obtain rfl : row.id = id := by simpa [itemSchema, eq_comm] using entry
  obtain ⟨item, parsed⟩ : ∃ item, itemOfRow platform tables row = .ok item := by
    have parses := readable row member
    rcases outcome : itemOfRow platform tables row with error | item
    · rw [outcome] at parses
      cases parses
    · exact ⟨item, rfl⟩
  refine ⟨row, item, member, rfl, by rw [loadItem, found]; exact parsed, ?_⟩
  unfold itemOfRow at parsed
  obtain ⟨createdAt, _, parsed⟩ := except_bind_returned parsed
  obtain ⟨metadata, _, parsed⟩ := except_bind_returned parsed
  cases parsed
  exact ⟨rfl, rfl⟩

/-- One item directly supersedes another. -/
def DirectlySupersedes (tables : Tables) (newer older : ItemId) : Prop :=
  ∃ row ∈ tables.items.rows, row.id = newer ∧ row.supersedes = some older

/-- The link of an item is that of its row. -/
theorem directlySupersedes_iff {row : ItemRow} (member : row ∈ tables.items.rows) {newer older : ItemId}
    (same : row.id = newer) : DirectlySupersedes tables newer older ↔ row.supersedes = some older := by
  constructor
  · rintro ⟨other, otherIn, otherId, linked⟩
    obtain rfl : other = row := @Table.row_unique _ _ _ tables.items _ _ otherIn member
      (.id newer) (by simp [itemSchema, otherId]) (by simp [itemSchema, same])
    exact linked
  · intro linked
    exact ⟨row, member, same, linked⟩

/-- A link leads to a stored item further up the table. -/
theorem directlySupersedes_falls (backward : itemLinks.Backward tables.items.rows)
    {newer older : ItemId} (link : DirectlySupersedes tables newer older) :
    tables.hasItem older ∧ itemPosition tables older < itemPosition tables newer := by
  obtain ⟨row, member, rfl, linked⟩ := link
  refine ⟨?_, backward.position_falls (itemIds_nodup tables) member linked⟩
  obtain ⟨before, after, shape⟩ := List.append_of_mem member
  obtain ⟨found, foundIn, same⟩ := backward.before shape older linked
  refine hasItem_iff.mpr ⟨found, ?_, same⟩
  rw [shape]
  exact List.mem_append_left _ foundIn

/-- What the walk back from an item lists. -/
structure HistoryOf (platform : Platform) (tables : Tables) (id : ItemId) (history : List Item) :
    Prop where
  /-- More fuel than the position of the item is enough. -/
  walked : ∀ fuel, itemPosition tables id < fuel →
    revisionHistory platform tables fuel id = some (.ok history)
  starts : history.head?.map Item.id = some id
  distinct : (history.map Item.id).Nodup
  chained : history.IsChain fun newer older => newer.supersedes = some older.id
  ends : ∀ last, history.getLast? = some last → last.supersedes = none
  /-- The items listed lie no further down the table. -/
  above : ∀ item ∈ history, itemPosition tables item.id ≤ itemPosition tables id
  /-- The walk passes every item reached along links. -/
  passes : ∀ older, Relation.ReflTransGen (DirectlySupersedes tables) id older →
    older ∈ history.map Item.id

/-- **The walk back ends** for every stored item. -/
theorem exists_historyOf (backward : itemLinks.Backward tables.items.rows)
    (readable : Readable platform tables) {id : ItemId} (present : tables.hasItem id) :
    ∃ history, HistoryOf platform tables id history := by
  induction position : itemPosition tables id using Nat.strong_induction_on generalizing id with
  | _ bound inductionHypothesis =>
    obtain ⟨row, item, member, sameRow, loaded, sameId, samePrior⟩ := loadItem_ok readable present
    rcases linked : row.supersedes with _ | prior
    · refine ⟨[item], ?_, by simp [sameId], by simp, by simp, ?_, by simp [sameId], ?_⟩
      · intro fuel enough
        obtain ⟨rest, rfl⟩ : ∃ rest, fuel = rest + 1 := ⟨fuel - 1, by omega⟩
        rw [revisionHistory, loaded]
        simp only [samePrior, linked]
      · intro last isLast
        obtain rfl : item = last := by simpa using isLast
        rw [samePrior, linked]
      · intro older path
        rcases Relation.ReflTransGen.cases_head path with rfl | ⟨next, step, _⟩
        · simp [sameId]
        · have impossible := (directlySupersedes_iff member sameRow).mp step
          rw [linked] at impossible
          cases impossible
    · have link : DirectlySupersedes tables id prior := ⟨row, member, sameRow, linked⟩
      obtain ⟨priorPresent, falls⟩ := directlySupersedes_falls backward link
      obtain ⟨history, walk⟩ :=
        inductionHypothesis _ (position ▸ falls) priorPresent rfl
      have pointed : item.supersedes = some prior := by rw [samePrior, linked]
      refine ⟨item :: history, ?_, by simp [sameId], ?_, ?_, ?_, ?_, ?_⟩
      · intro fuel enough
        obtain ⟨rest, rfl⟩ : ∃ rest, fuel = rest + 1 := ⟨fuel - 1, by omega⟩
        rw [revisionHistory, loaded]
        simp only [pointed]
        rw [walk.walked rest (by omega)]
        rfl
      · rw [List.map_cons, List.nodup_cons]
        refine ⟨?_, walk.distinct⟩
        intro again
        obtain ⟨other, otherIn, same⟩ := List.mem_map.mp again
        have low := walk.above other otherIn
        rw [same, sameId] at low
        omega
      · rcases shape : history with _ | ⟨next, others⟩
        · exact List.isChain_singleton item
        · have starts := walk.starts
          rw [shape] at starts
          have first : next.id = prior := by simpa using starts
          refine List.isChain_cons_cons.mpr ⟨by rw [pointed, first], ?_⟩
          rw [← shape]
          exact walk.chained
      · intro last isLast
        rcases shape : history with _ | ⟨next, others⟩
        · have starts := walk.starts
          rw [shape] at starts
          cases starts
        · refine walk.ends last ?_
          rw [shape] at isLast ⊢
          simpa using isLast
      · intro listed listedIn
        rcases List.mem_cons.mp listedIn with rfl | later
        · rw [sameId]
        · exact (walk.above listed later).trans falls.le
      · intro older path
        rcases Relation.ReflTransGen.cases_head path with rfl | ⟨next, step, rest⟩
        · simp [sameId]
        · have pointsTo := (directlySupersedes_iff member sameRow).mp step
          rw [linked] at pointsTo
          cases pointsTo
          exact List.mem_cons_of_mem _ (walk.passes older rest)

/-- The successors of an item are those that directly supersede it. -/
theorem mem_successors {newer older : ItemId} :
    newer ∈ successors tables older ↔ DirectlySupersedes tables newer older := by
  simp only [successors, List.mem_map, List.mem_filter, DirectlySupersedes]
  constructor
  · rintro ⟨row, ⟨member, linked⟩, same⟩
    exact ⟨row, member, same, by simpa using linked⟩
  · rintro ⟨row, member, same, linked⟩
    exact ⟨row, ⟨member, by simpa using linked⟩, same⟩

/-- The walk forward: each item has one successor, the next. -/
def WalksTo (tables : Tables) : ItemId → ItemId → Prop :=
  Relation.ReflTransGen fun older newer => successors tables older = [newer]

/-- Where the walk forward from an item ends. -/
structure LatestOf (platform : Platform) (tables : Tables) (id : ItemId)
    (outcome : Except Error Item) : Prop where
  /-- More fuel than the items below is enough. -/
  walked : ∀ fuel, tables.items.rows.length - itemPosition tables id ≤ fuel →
    walkForward platform tables fuel id = some outcome
  /-- A result is superseded by nothing, and reached from the item. -/
  latest : ∀ item, outcome = .ok item →
    successors tables item.id = [] ∧ tables.hasItem item.id ∧ WalksTo tables id item.id
  ambiguous : (∃ candidates, outcome = .error (.ambiguousLatest candidates)) ↔
    ∃ fork, WalksTo tables id fork ∧ 2 ≤ (successors tables fork).length

/-- **The walk forward ends** for every stored item. -/
theorem exists_latestOf (backward : itemLinks.Backward tables.items.rows)
    (readable : Readable platform tables) {id : ItemId} (present : tables.hasItem id) :
    ∃ outcome, LatestOf platform tables id outcome := by
  induction remaining : tables.items.rows.length - itemPosition tables id
    using Nat.strong_induction_on generalizing id with
  | _ bound inductionHypothesis =>
    obtain ⟨row, item, member, sameRow, loaded, sameId, _⟩ := loadItem_ok readable present
    have inside : itemPosition tables id < tables.items.rows.length := by
      have found := @Linkage.position_lt _ _ itemLinks _ _ row member
      rwa [show itemLinks.id row = id from sameRow] at found
    rcases following : successors tables id with _ | ⟨next, others⟩
    · refine ⟨.ok item, ?_, ?_, ?_⟩
      · intro fuel enough
        obtain ⟨rest, rfl⟩ : ∃ rest, fuel = rest + 1 := ⟨fuel - 1, by omega⟩
        rw [walkForward, following, ← loaded]
      · rintro _ ⟨⟩
        rw [sameId]
        exact ⟨following, present, .refl⟩
      · constructor
        · rintro ⟨candidates, ⟨⟩⟩
        · rintro ⟨fork, path, forks⟩
          rcases Relation.ReflTransGen.cases_head path with rfl | ⟨_, step, _⟩
          · rw [following] at forks
            simp at forks
          · rw [following] at step
            cases step
    · rcases others with _ | ⟨second, rest⟩
      · have link := mem_successors.mp (following ▸ List.mem_singleton_self next)
        obtain ⟨_, falls⟩ := directlySupersedes_falls backward link
        obtain ⟨nextRow, nextIn, sameNext, _⟩ := link
        obtain ⟨outcome, walk⟩ := inductionHypothesis _ (by omega)
          (hasItem_iff.mpr ⟨nextRow, nextIn, sameNext⟩) rfl
        refine ⟨outcome, ?_, ?_, ?_⟩
        · intro fuel enough
          obtain ⟨rest, rfl⟩ : ∃ rest, fuel = rest + 1 := ⟨fuel - 1, by omega⟩
          rw [walkForward, following]
          exact walk.walked rest (by omega)
        · intro found returned
          obtain ⟨last, stored, path⟩ := walk.latest found returned
          exact ⟨last, stored, .head following path⟩
        · rw [walk.ambiguous]
          constructor
          · rintro ⟨fork, path, forks⟩
            exact ⟨fork, .head following path, forks⟩
          · rintro ⟨fork, path, forks⟩
            rcases Relation.ReflTransGen.cases_head path with rfl | ⟨_, step, path⟩
            · rw [following] at forks
              simp at forks
            · rw [following] at step
              cases step
              exact ⟨fork, path, forks⟩
      · refine ⟨.error (.ambiguousLatest (next :: second :: rest)), ?_, by rintro _ ⟨⟩, ?_⟩
        · intro fuel enough
          obtain ⟨less, rfl⟩ : ∃ less, fuel = less + 1 := ⟨fuel - 1, by omega⟩
          rw [walkForward, following]
        · refine ⟨fun _ => ⟨id, .refl, by simp [following]⟩, fun _ => ⟨_, rfl⟩⟩

/-- A walk forward is a path along links, seen from its end. -/
theorem WalksTo.linked {older newer : ItemId} (walks : WalksTo tables older newer) :
    Relation.ReflTransGen (DirectlySupersedes tables) newer older := by
  induction walks with
  | refl => exact .refl
  | tail _ step inductionHypothesis =>
    exact .head (mem_successors.mp (step ▸ List.mem_singleton_self _)) inductionHypothesis

/-- **Revision chains of items.** In every reachable store whose rows can be read, the
history of a stored item is a chain of distinct items from it to an original, and the
latest revision is an item that nothing supersedes and whose history has the item, unless
the walk forward meets a fork. Both walks end. -/
theorem revision_walks_end (calls : List (Env × ItemCall)) (start : Store)
    (linked : itemLinks.Backward start.database.tables.items.rows)
    (readable : Readable platform (runItemCalls platform calls start).database.tables)
    (id : ItemId) (present : (runItemCalls platform calls start).database.tables.hasItem id) :
    let tables := (runItemCalls platform calls start).database.tables
    (∃ history, (∀ fuel, tables.items.rows.length ≤ fuel →
        revisionHistory platform tables fuel id = some (.ok history)) ∧
      (history.map Item.id).Nodup ∧ history.head?.map Item.id = some id ∧
      (history.IsChain fun newer older => newer.supersedes = some older.id) ∧
      ∀ last, history.getLast? = some last → last.supersedes = none) ∧
    ∃ outcome, (∀ fuel, tables.items.rows.length ≤ fuel →
        latestRevision platform tables fuel id = some outcome) ∧
      (∀ item, outcome = .ok item → successors tables item.id = [] ∧
        ∃ history, (∀ fuel, tables.items.rows.length ≤ fuel →
          revisionHistory platform tables fuel item.id = some (.ok history)) ∧
          id ∈ history.map Item.id) ∧
      ((∃ candidates, outcome = .error (.ambiguousLatest candidates)) ↔
        ∃ fork, WalksTo tables id fork ∧ 2 ≤ (successors tables fork).length) := by
  intro tables
  have backward : itemLinks.Backward tables.items.rows :=
    @runItemCalls_backward platform calls start linked
  have histories : ∀ id, tables.hasItem id → ∃ history, HistoryOf platform tables id history ∧
      ∀ fuel, tables.items.rows.length ≤ fuel →
        revisionHistory platform tables fuel id = some (.ok history) := by
    intro id present
    obtain ⟨history, walk⟩ := exists_historyOf backward readable present
    refine ⟨history, walk, ?_⟩
    intro fuel enough
    obtain ⟨row, member, rfl⟩ := hasItem_iff.mp present
    have inside : itemPosition tables row.id < tables.items.rows.length :=
      @Linkage.position_lt _ _ itemLinks _ _ row member
    exact walk.walked fuel (by omega)
  obtain ⟨history, walk, returns⟩ := histories id present
  refine ⟨⟨history, returns, walk.distinct, walk.starts, walk.chained, walk.ends⟩, ?_⟩
  obtain ⟨outcome, latest⟩ := exists_latestOf backward readable present
  obtain ⟨_, item, _, _, loaded, _⟩ := loadItem_ok readable present
  refine ⟨outcome, ?_, ?_, latest.ambiguous⟩
  · intro fuel enough
    rw [latestRevision, loaded]
    exact latest.walked fuel (by omega)
  · intro found returned
    obtain ⟨last, stored, path⟩ := latest.latest found returned
    obtain ⟨past, pastWalk, pastReturns⟩ := histories found.id stored
    exact ⟨last, past, pastReturns, pastWalk.passes id path.linked⟩

/-- The history of a replacement is the replacement and what it replaced. -/
theorem replacement_has_its_history :
    (runItemCalls .ascii (replacedAndRepeated ⟨0, by decide⟩)
      ⟨false, .fresh⟩).database.tables.items.rows.map ItemRow.id =
        [⟨.fromParts 0 0⟩, ⟨.fromParts 0 10⟩] ∧
    ∃ history, (∀ fuel, (runItemCalls .ascii (replacedAndRepeated ⟨0, by decide⟩)
        ⟨false, .fresh⟩).database.tables.items.rows.length ≤ fuel →
        revisionHistory .ascii (runItemCalls .ascii (replacedAndRepeated ⟨0, by decide⟩)
          ⟨false, .fresh⟩).database.tables fuel ⟨.fromParts 0 10⟩ = some (.ok history)) ∧
      (history.map Item.id).Nodup := by
  refine ⟨by decide +kernel, ?_⟩
  obtain ⟨history, returns, distinct, _⟩ :=
    (@revision_walks_end .ascii (replacedAndRepeated ⟨0, by decide⟩) ⟨false, .fresh⟩ .nil
      (by decide +kernel) ⟨.fromParts 0 10⟩ (by decide +kernel)).1
  exact ⟨history, returns, distinct⟩

end Singularmem.Core
