import Singularmem.Core.Chronology
import Singularmem.Core.RevisionWalks
import Singularmem.Library.Merging
import Singularmem.Retrieve.Retriever
import Mathlib.Data.Int.ConditionallyCompleteOrder
import Mathlib.Order.WithBot

/-!
# Wake-up digests

A digest gathers the newest items of each scope filter, sorts them, keeps each item once, cuts
the list to the limit and shows it in chronological order. Filters may overlap. Where the
store returns the newest items of each filter, the digest has the newest of all.
-/

namespace Singularmem.Retrieve

open Library Singularmem.Core Singularmem.Search

/-- One or more scope filters, of which one is to match. -/
abbrev ScopeSet := List ScopeFilter

/-- The scope paths, in order. -/
def ScopeSet.names (scopes : ScopeSet) : List String := scopes.map ScopeFilter.path

/-- Options of a digest. -/
structure WakeupOptions where
  /-- How many items to show. -/
  limit : Nat
  /-- The byte budget of callers that render the digest. -/
  maxBytes : Nat

/-- The default options. -/
def WakeupOptions.default : WakeupOptions := ⟨20, 8192⟩

/-- A built wake-up context. -/
structure Wakeup where
  /-- The blocks, oldest first. -/
  context : RetrievedContext
  /-- How many items match the scope set. -/
  total : Nat
  /-- The scope paths that were queried. -/
  scopes : List String
  /-- How many blocks the context has. -/
  shown : Nat

variable (platform : Platform) (tables : Tables)

/-- How many items match one of the filters at least. -/
def countScopedAny (filters : List ScopeFilter) : Nat :=
  if filters.isEmpty then 0
  else (tables.items.rows.filter fun row => filters.any (·.sqlClause row.scope)).length

/-- Items by creation time, newest first. -/
def sortNewestFirst (items : List Item) : List Item :=
  items.insertionSort fun first second => second.createdAt.nanos ≤ first.createdAt.nanos

/-- The block of an item in a digest, which has no score. -/
def digestBlock (item : Item) : MemoryBlock :=
  ⟨item.id, item.content, 0, .rrf, item.source, item.tags, item.createdAt, item.scope⟩

/-- Gather the newest items of the scopes. -/
def build (scopes : ScopeSet) (options : WakeupOptions) : Except Error Wakeup := do
  let total := countScopedAny tables scopes
  let found ← (scopes.mapM fun filter =>
    recent platform tables (some filter) options.limit).mapError .core
  let distinct := keepFirst Item.id [] (sortNewestFirst found.flatten)
  let items := (distinct.take options.limit).reverse
  let query := "wake-up:" ++ ",".intercalate scopes.names
  return ⟨⟨items.map digestBlock, query, total⟩, total, scopes.names, items.length⟩

/-- When the item of an id was created. -/
def creationOf (id : ItemId) : Option Timestamp :=
  (tables.items.find (.id id)).bind fun row => platform.parseTimestamp row.createdAt

/-- The items that match a filter. -/
def matchingIds (filter : ScopeFilter) : Finset ItemId :=
  ((tables.items.rows.filter fun row => filter.sqlClause row.scope).map ItemRow.id).toFinset

/-- The items that match one of the filters at least. -/
def unionIds (scopes : ScopeSet) : Finset ItemId :=
  scopes.foldr (fun filter rest => matchingIds tables filter ∪ rest) ∅

/-- The newest of the candidates, as many as asked for or as there are, newest first. -/
structure NewestOf (candidates : Finset ItemId) (count : Nat) (items : List Item) : Prop where
  loaded : ∀ item ∈ items, loadItem platform tables item.id = .ok item
  within : ∀ item ∈ items, item.id ∈ candidates
  distinct : (items.map Item.id).Nodup
  length : items.length = min count candidates.card
  sorted : items.Pairwise fun earlier later => later.createdAt.nanos ≤ earlier.createdAt.nanos
  newest : ∀ item ∈ items, ∀ id ∈ candidates, id ∉ items.map Item.id →
    ∀ instant ∈ creationOf platform tables id, instant.nanos ≤ item.createdAt.nanos

/-- What a digest has to be: distinct items of the union in chronological order, as many as
the limit allows, and none newer left out. -/
structure Digest (scopes : ScopeSet) (limit : Nat) (wakeup : Wakeup) : Prop where
  loaded : ∀ block ∈ wakeup.context.blocks, ∃ item,
    loadItem platform tables block.id = .ok item ∧ block = digestBlock item
  within : ∀ block ∈ wakeup.context.blocks, block.id ∈ unionIds tables scopes
  distinct : (wakeup.context.blocks.map MemoryBlock.id).Nodup
  length : wakeup.context.blocks.length = min limit wakeup.total
  sorted : wakeup.context.blocks.Pairwise fun earlier later =>
    earlier.createdAt.nanos ≤ later.createdAt.nanos
  newest : ∀ block ∈ wakeup.context.blocks, ∀ id ∈ unionIds tables scopes,
    id ∉ wakeup.context.blocks.map MemoryBlock.id →
      ∀ instant ∈ creationOf platform tables id, instant.nanos ≤ block.createdAt.nanos
  total : wakeup.total = (unionIds tables scopes).card

variable {platform tables}

theorem mem_matchingIds {filter : ScopeFilter} {id : ItemId} :
    id ∈ matchingIds tables filter ↔
      ∃ row ∈ tables.items.rows, filter.sqlClause row.scope = true ∧ row.id = id := by
  simp [matchingIds, and_assoc]

/-- Built filters match what they admit. -/
theorem mem_matchingIds_iff_admits (scopes : tables.ScopesValidated platform)
    {filter : ScopeFilter} (built : filter.Built platform) {id : ItemId} :
    id ∈ matchingIds tables filter ↔
      ∃ row ∈ tables.items.rows, filter.admits row.scope = true ∧ row.id = id := by
  rw [mem_matchingIds]
  refine exists_congr fun row => and_congr_right fun stored => ?_
  have same : filter.sqlClause row.scope = filter.admits row.scope :=
    @Tables.ScopesValidated.sqlClause_eq platform tables (some filter) scopes
      (by rintro _ ⟨⟩; exact built) row stored
  rw [same]

theorem mem_unionIds {scopes : ScopeSet} {id : ItemId} :
    id ∈ unionIds tables scopes ↔ ∃ filter ∈ scopes, id ∈ matchingIds tables filter := by
  induction scopes with
  | nil => simp [unionIds]
  | cons filter rest remaining =>
    rw [unionIds, List.foldr_cons, Finset.mem_union, ← unionIds, remaining]
    simp

/-- **The count is that of the union**: an item that several filters match counts once. -/
theorem countScopedAny_eq (scopes : ScopeSet) :
    countScopedAny tables scopes = (unionIds tables scopes).card := by
  have distinct : (tables.items.rows.map ItemRow.id).Nodup := itemIds_nodup tables
  have listed : unionIds tables scopes = ((tables.items.rows.filter fun row =>
      scopes.any (·.sqlClause row.scope)).map ItemRow.id).toFinset := by
    ext id
    rw [mem_unionIds, List.mem_toFinset]
    simp only [mem_matchingIds, List.mem_map, List.mem_filter, List.any_eq_true]
    constructor
    · rintro ⟨filter, given, row, stored, admitted, same⟩
      exact ⟨row, ⟨stored, filter, given, admitted⟩, same⟩
    · rintro ⟨row, ⟨stored, filter, given, admitted⟩, same⟩
      exact ⟨filter, given, row, stored, admitted, same⟩
  rw [listed, List.toFinset_card_of_nodup (distinct.sublist (List.filter_sublist.map _)),
    List.length_map, countScopedAny]
  split
  case isTrue empty =>
    rw [List.isEmpty_iff.mp empty]
    simp
  case isFalse => rfl

section Selection

/-- How recent an item is: the newest first, and those without a creation time last. -/
def recency (platform : Platform) (tables : Tables) (id : ItemId) : (WithBot Int)ᵒᵈ :=
  OrderDual.toDual ((creationOf platform tables id).elim ⊥
    fun instant => (instant.nanos : WithBot Int))

/-- A loaded item was created when its row says. -/
theorem creationOf_loaded {id : ItemId} {item : Item}
    (load : loadItem platform tables id = .ok item) :
    creationOf platform tables id = some item.createdAt := by
  unfold loadItem at load
  split at load
  case h_1 => cases load
  case h_2 row found =>
    rw [creationOf, found, Option.bind_some]
    obtain ⟨instant, parsed, rest⟩ := except_bind_returned load
    obtain ⟨metadata, _, rest⟩ := except_bind_returned rest
    cases rest
    unfold parseCreatedAt at parsed
    split at parsed
    case h_1 read =>
      cases parsed
      exact read
    case h_2 => cases parsed

theorem recency_loaded {id : ItemId} {item : Item} (load : loadItem platform tables id = .ok item) :
    recency platform tables id = OrderDual.toDual (item.createdAt.nanos : WithBot Int) := by
  rw [recency, creationOf_loaded load, Option.elim_some]

/-- Of two loaded items the newer one is the more recent. -/
theorem recency_le_iff {first second : ItemId} {newer older : Item}
    (loadFirst : loadItem platform tables first = .ok newer)
    (loadSecond : loadItem platform tables second = .ok older) :
    recency platform tables first ≤ recency platform tables second ↔
      older.createdAt.nanos ≤ newer.createdAt.nanos := by
  rw [recency_loaded loadFirst, recency_loaded loadSecond, OrderDual.toDual_le_toDual,
    WithBot.coe_le_coe]

/-- An item without a creation time is less recent than any loaded one. -/
theorem recency_le_of {first second : ItemId} {item : Item}
    (load : loadItem platform tables first = .ok item)
    (older : ∀ instant ∈ creationOf platform tables second,
      instant.nanos ≤ item.createdAt.nanos) :
    recency platform tables first ≤ recency platform tables second := by
  rw [recency_loaded load, recency, OrderDual.toDual_le_toDual]
  cases created : creationOf platform tables second with
  | none => exact bot_le
  | some instant => exact WithBot.coe_le_coe.mpr (older instant created)

theorem le_of_recency {first second : ItemId} {item : Item}
    (load : loadItem platform tables first = .ok item)
    (ordered : recency platform tables first ≤ recency platform tables second)
    {instant : Timestamp} (created : instant ∈ creationOf platform tables second) :
    instant.nanos ≤ item.createdAt.nanos := by
  rw [recency_loaded load, recency, Option.mem_def.mp created, OrderDual.toDual_le_toDual]
    at ordered
  exact WithBot.coe_le_coe.mp ordered

/-- **The newest candidates** are the most recent ones, and loaded. -/
theorem newestOf_iff {candidates : Finset ItemId} {count : Nat} {items : List Item} :
    NewestOf platform tables candidates count items ↔
      (∀ item ∈ items, loadItem platform tables item.id = .ok item) ∧
        Nearest (recency platform tables) candidates count (items.map Item.id) := by
  constructor
  · intro newest
    have load := newest.loaded
    refine ⟨load, newest.distinct, fun id member => ?_, ?_, ?_,
      fun id member other present left => ?_⟩
    · obtain ⟨item, listed, rfl⟩ := List.mem_map.mp member
      exact newest.within item listed
    · rw [List.length_map]
      exact newest.length
    · rw [List.pairwise_map]
      refine newest.sorted.imp_of_mem fun {earlier later} earlierIn laterIn ordered => ?_
      exact (recency_le_iff (load earlier earlierIn) (load later laterIn)).mpr ordered
    · obtain ⟨item, listed, rfl⟩ := List.mem_map.mp member
      exact recency_le_of (load item listed) (newest.newest item listed other present left)
  · rintro ⟨load, nearest⟩
    refine ⟨load, fun item member => ?_, nearest.distinct, ?_, ?_,
      fun item member id present left instant created => ?_⟩
    · exact nearest.within item.id (List.mem_map_of_mem member)
    · rw [← nearest.length, List.length_map]
    · refine (List.pairwise_map.mp nearest.sorted).imp_of_mem
        fun {earlier later} earlierIn laterIn ordered => ?_
      exact (recency_le_iff (load earlier earlierIn) (load later laterIn)).mp ordered
    · exact le_of_recency (load item member)
        (nearest.nearest item.id (List.mem_map_of_mem member) id present left) created

/-- The sort puts the newest first. -/
theorem sortNewestFirst_sorted (items : List Item) : (sortNewestFirst items).Pairwise
    fun earlier later => later.createdAt.nanos ≤ earlier.createdAt.nanos := by
  have total : Std.Total fun first second : Item =>
      second.createdAt.nanos ≤ first.createdAt.nanos :=
    ⟨fun first second => Int.le_total second.createdAt.nanos first.createdAt.nanos⟩
  have transitive : IsTrans Item fun first second =>
      second.createdAt.nanos ≤ first.createdAt.nanos :=
    ⟨fun _ _ _ earlier later => later.trans earlier⟩
  exact List.pairwise_insertionSort _ items

variable {scopes : ScopeSet} {limit : Nat} {found : List (List Item)}

/-- The items that a digest selects, newest first. -/
def selected (found : List (List Item)) (limit : Nat) : List Item :=
  (keepFirst Item.id [] (sortNewestFirst found.flatten)).take limit

/-- **The selection** has the newest items of the union. -/
theorem selected_newest {shown : ScopeFilter → List Item} (newest : ∀ filter ∈ scopes,
      NewestOf platform tables (matchingIds tables filter) limit (shown filter)) :
    NewestOf platform tables (unionIds tables scopes) limit
      (selected (scopes.map shown) limit) := by
  have kept : (keepFirst Item.id [] (sortNewestFirst (scopes.map shown).flatten)).Sublist _ :=
    keepFirst_sublist [] _
  have load : ∀ item ∈ keepFirst Item.id [] (sortNewestFirst (scopes.map shown).flatten),
      loadItem platform tables item.id = .ok item := by
    intro item member
    have inFound := (List.mem_insertionSort _).mp (kept.subset member)
    obtain ⟨_, part, inside⟩ := List.mem_flatten.mp inFound
    obtain ⟨filter, given, rfl⟩ := List.mem_map.mp part
    exact (newest filter given).loaded item inside
  refine newestOf_iff.mpr ⟨fun item member => load item (List.mem_of_mem_take member), ?_⟩
  rw [selected, List.map_take]
  refine @Nearest.merge _ _ _ _ _ limit scopes (matchingIds tables)
    (fun filter => (shown filter).map Item.id) _ _ (fun filter given => ?_) (fun id => mem_unionIds)
    (keepFirst_nodup [] _) (fun id => ?_) ?_
  · exact (newestOf_iff.mp (newest filter given)).2
  · rw [mem_keepFirst_keys, and_iff_right List.not_mem_nil, List.mem_map]
    simp only [sortNewestFirst, List.mem_insertionSort, List.mem_flatten, List.mem_map]
    constructor
    · rintro ⟨item, ⟨_, ⟨filter, given, rfl⟩, member⟩, same⟩
      exact ⟨filter, given, item, member, same⟩
    · rintro ⟨filter, given, item, member, same⟩
      exact ⟨item, ⟨_, ⟨filter, given, rfl⟩, member⟩, same⟩
  · rw [List.pairwise_map]
    refine ((sortNewestFirst_sorted _).sublist kept).imp_of_mem
      fun {earlier later} earlierIn laterIn ordered => ?_
    exact (recency_le_iff (load earlier earlierIn) (load later laterIn)).mpr ordered

end Selection

section Build

variable {scopes : ScopeSet} {options : WakeupOptions}

/-- The blocks of the newest items, oldest first, are a digest. -/
theorem digest_of_newest {items : List Item} {limit : Nat}
    (newest : NewestOf platform tables (unionIds tables scopes) limit items) (query : String) :
    Digest platform tables scopes limit ⟨⟨items.reverse.map digestBlock, query,
      countScopedAny tables scopes⟩, countScopedAny tables scopes, scopes.names,
        items.reverse.length⟩ := by
  have named :
      (items.reverse.map digestBlock).map MemoryBlock.id = (items.map Item.id).reverse := by
    rw [List.map_map, List.map_reverse]
    rfl
  constructor
  · intro block member
    obtain ⟨item, shown, rfl⟩ := List.mem_map.mp member
    exact ⟨item, newest.loaded item (List.mem_reverse.mp shown), rfl⟩
  · intro block member
    obtain ⟨item, shown, rfl⟩ := List.mem_map.mp member
    exact newest.within item (List.mem_reverse.mp shown)
  · rw [named, List.nodup_reverse]
    exact newest.distinct
  · rw [List.length_map, List.length_reverse, newest.length, countScopedAny_eq]
  · rw [List.pairwise_map, List.pairwise_reverse]
    exact newest.sorted
  · intro block member id matching omitted
    obtain ⟨item, shown, rfl⟩ := List.mem_map.mp member
    rw [named, List.mem_reverse] at omitted
    exact newest.newest item (List.mem_reverse.mp shown) id matching omitted
  · exact countScopedAny_eq scopes

/-- **What the store returns** are the newest items where the texts of the creation times are
in the order of the times, and every item can be loaded. -/
theorem recent_newestOf {filter : ScopeFilter} {count : Nat}
    (readable : Readable platform tables) (ordered : ∀ first ∈ tables.items.rows,
      ∀ second ∈ tables.items.rows, first.createdAt ≤ second.createdAt →
        ∀ earlier ∈ creationOf platform tables first.id,
          ∀ later ∈ creationOf platform tables second.id, earlier.nanos ≤ later.nanos) :
    ∃ items, recent platform tables (some filter) count = .ok items ∧
      NewestOf platform tables (matchingIds tables filter) count items := by
  have member {row : ItemRow} : row ∈ newestRows tables (some filter) ↔
      row ∈ tables.items.rows ∧ filter.sqlClause row.scope = true := by
    rw [newestRows, List.mem_reverse, byCreation, List.mem_insertionSort, List.mem_filter]
    rfl
  have loads {row : ItemRow} (stored : row ∈ tables.items.rows) :
      ∃ item, loadItem platform tables row.id = .ok item := by
    have present : tables.items.find (.id row.id) = some row :=
      Table.find_eq_some.mpr ⟨stored, by simp [itemSchema]⟩
    obtain ⟨_, item, _, _, load, _⟩ := loadItem_ok readable (Option.isSome_of_eq_some present)
    exact ⟨item, load⟩
  obtain ⟨items, returned⟩ : ∃ items, recent platform tables (some filter) count = .ok items := by
    refine mapM_succeeds fun id listed => ?_
    obtain ⟨row, taken, rfl⟩ := List.mem_map.mp listed
    exact loads (member.mp (List.mem_of_mem_take taken)).1
  have named : items.map Item.id = recentIds tables (some filter) count := by
    have same := @mapM_returned_map _ _ _ _ _ id Item.id _ _ returned fun _ _ => loadItem_id
    rwa [List.map_id] at same
  refine ⟨items, returned, newestOf_iff.mpr ⟨fun item shown => ?_, ?_⟩⟩
  · obtain ⟨id, -, load⟩ := exists_of_mem_mapM returned shown
    rwa [loadItem_id load]
  · rw [named, recentIds, List.map_take]
    refine Nearest.of_sort _ _ _ ?_ ?_
    · refine (List.perm_ext_iff_of_nodup (newestRows_nodup tables (some filter))
        (Finset.nodup_toList _)).mpr fun id => ?_
      rw [Finset.mem_toList, mem_matchingIds, List.mem_map]
      simp only [member, and_assoc]
    · rw [List.pairwise_map]
      refine (List.pairwise_reverse.mpr (byCreation_sorted _)).imp_of_mem
        fun {newer older} newerIn olderIn below => ?_
      have newerStored := (member.mp newerIn).1
      have olderStored := (member.mp olderIn).1
      obtain ⟨_, newerLoad⟩ := loads newerStored
      obtain ⟨_, olderLoad⟩ := loads olderStored
      exact (recency_le_iff newerLoad olderLoad).mpr (ordered older olderStored newer newerStored
        below _ (creationOf_loaded olderLoad) _ (creationOf_loaded newerLoad))

end Build

theorem oneSecond_inRange : -377705023201000000000 ≤ (1000000000 : Int) ∧
    (1000000000 : Int) ≤ 253402207200999999999 := by decide

/-- A second after the epoch. -/
def oneSecond : Timestamp := ⟨1000000000, oneSecond_inRange⟩

/-- Notes of two seconds, the second one beneath the scope of the first. -/
def nestedScopes : Store :=
  let note (scope : String) : NewItem := ⟨"note", none, [], none, .object [], none, some scope⟩
  runItemCalls .ascii [(⟨.epoch, fun _ => 1⟩, .ingest (note "a")),
    (⟨oneSecond, fun _ => 2⟩, .ingest (note "a/b")), (⟨oneSecond, fun _ => 3⟩, .ingest (note "c"))]
    ⟨false, .fresh⟩

end Singularmem.Retrieve
