import Singularmem.Core.DisplayedTimes
import Singularmem.Core.Readback
import Singularmem.Core.TagFilters

/-!
# Chronological listings

Listings order their rows by the stored text of the creation time. With the displayed form
that is chronological between different seconds, for the whole listing and for the newest so
many items. The newest items are loaded together, and loading fails on metadata that nests
too deep.
-/

namespace Singularmem.Core

open Library

/-- What the time library does with instants from 1970 on: it displays them with the
fractional digits they need, and reads that back. -/
structure Platform.DisplaysTimes (platform : Platform) : Prop where
  display : ∀ instant : Timestamp, 0 ≤ instant.nanos →
    platform.displayTime instant = Platform.trimFraction instant
  parse : ∀ instant : Timestamp, 0 ≤ instant.nanos →
    platform.parseTimestamp (Platform.trimFraction instant) = some instant

/-- The creation time of a row is an instant from 1970 on, in the form the store writes. -/
def ItemRow.CreatedAt (platform : Platform) (row : ItemRow) (instant : Timestamp) : Prop :=
  0 ≤ instant.nanos ∧ row.createdAt = platform.displayTime instant

/-- Every row has such a creation time. -/
def Tables.Dated (platform : Platform) (tables : Tables) : Prop :=
  ∀ row ∈ tables.items.rows, ∃ instant, row.CreatedAt platform instant

/-- The items of a listing, where they can be loaded, come second by second. -/
def Chronological (listing : List (Except Error Item)) : Prop :=
  listing.Pairwise fun earlier later => ∀ first second, earlier = .ok first →
    later = .ok second → first.createdAt.second ≤ second.createdAt.second

/-- The newest items by second: as many as asked for or as match, all of them matching and
none twice, and no other matching item lies in a later second. -/
structure NewestBySecond (platform : Platform) (tables : Tables) (filter : Option ScopeFilter)
    (count : Nat) (items : List Item) : Prop where
  length : items.length =
    min count (tables.items.rows.filter fun row => filter.all (·.admits row.scope)).length
  distinct : (items.map Item.id).Nodup
  matching : ∀ item ∈ items, ∃ row ∈ tables.items.rows, row.id = item.id ∧
    filter.all (·.admits row.scope) = true
  newest : ∀ item ∈ items, ∀ row ∈ tables.items.rows, filter.all (·.admits row.scope) = true →
    row.id ∉ items.map Item.id → ∀ instant, row.CreatedAt platform instant →
      instant.second ≤ item.createdAt.second

variable {platform : Platform} {tables : Tables} {filter : Option ScopeFilter}

/-- From 1970 on years have no sign. -/
theorem Timestamp.unsigned_of_nonneg {instant : Timestamp} (after : 0 ≤ instant.nanos) :
    instant.Unsigned :=
  unsigned_of_recent (Int.tdiv_nonneg after (by decide))

/-- Rows in the order of their texts lie in the order of their seconds. -/
theorem second_le_of_text (displays : platform.DisplaysTimes) {first second : ItemRow}
    {earlier later : Timestamp} (firstAt : first.CreatedAt platform earlier)
    (secondAt : second.CreatedAt platform later) (ordered : first.createdAt ≤ second.createdAt) :
    earlier.second ≤ later.second := by
  by_contra reversed
  have below := Platform.trimFraction_lt (Timestamp.unsigned_of_nonneg secondAt.1)
    (Timestamp.unsigned_of_nonneg firstAt.1) (Int.not_le.mp reversed)
  rw [firstAt.2, secondAt.2, displays.display earlier firstAt.1, displays.display later secondAt.1]
    at ordered
  exact String.not_lt.mpr ordered below

/-- What loading a dated row gives. -/
theorem loadItem_dated (displays : platform.DisplaysTimes) {row : ItemRow} {instant : Timestamp}
    (stored : row ∈ tables.items.rows) (created : row.CreatedAt platform instant) :
    loadItem platform tables row.id =
      if row.metadata.depth < Json.recursionLimit then
        .ok ⟨row.id, row.content, instant, row.supersedes, tagsOf tables row.id, row.source,
          row.metadata.reread platform, row.externalId, row.scope⟩
      else .error (.json "parsing stored metadata JSON" "recursion limit exceeded") := by
  have found : tables.items.find (.id row.id) = some row :=
    Table.find_eq_some.mpr ⟨stored, by simp [itemSchema]⟩
  have time : parseCreatedAt platform row.createdAt = .ok instant := by
    rw [parseCreatedAt, created.2, displays.display instant created.1,
      displays.parse instant created.1]
  simp only [loadItem, found, itemOfRow, time, Json.parse]
  split <;> rfl

/-- A loaded item is that of the id, with the creation time of its row. -/
theorem loadItem_created (displays : platform.DisplaysTimes) {row : ItemRow} {instant : Timestamp}
    {item : Item} (stored : row ∈ tables.items.rows) (created : row.CreatedAt platform instant)
    (loaded : loadItem platform tables row.id = .ok item) :
    item.id = row.id ∧ item.createdAt = instant ∧ row.metadata.depth < Json.recursionLimit := by
  rw [loadItem_dated displays stored created] at loaded
  split at loaded
  case isTrue shallow =>
    cases loaded
    exact ⟨rfl, rfl, shallow⟩
  case isFalse => cases loaded

/-- Sorted rows are in the order of their texts. -/
theorem byCreation_sorted (rows : List ItemRow) :
    (byCreation rows).Pairwise fun earlier later => earlier.createdAt ≤ later.createdAt := by
  have total : Std.Total fun earlier later : ItemRow => earlier.createdAt ≤ later.createdAt :=
    ⟨fun earlier later => String.le_total earlier.createdAt later.createdAt⟩
  have transitive : IsTrans ItemRow fun earlier later => earlier.createdAt ≤ later.createdAt :=
    ⟨fun _ _ _ => String.le_trans⟩
  exact List.pairwise_insertionSort _ rows

/-- **A listing is chronological** to the second. -/
theorem listing_chronological (displays : platform.DisplaysTimes) (dated : tables.Dated platform)
    (tags : List String) (filter : Option ScopeFilter) :
    Chronological (listByTagsScoped platform tables tags filter) := by
  unfold Chronological listByTagsScoped listedIds
  rw [List.pairwise_map, List.pairwise_map]
  refine (byCreation_sorted _).imp_of_mem fun {earlier later} earlierIn laterIn ordered => ?_
  intro first second loadedFirst loadedSecond
  have stored {row : ItemRow} (member : row ∈ byCreation (tables.items.rows.filter fun row =>
      carriesTags tables tags row && filter.all (·.sqlClause row.scope))) :
      row ∈ tables.items.rows :=
    (List.mem_filter.mp ((List.mem_insertionSort _).mp member)).1
  obtain ⟨early, earlierAt⟩ := dated earlier (stored earlierIn)
  obtain ⟨late, laterAt⟩ := dated later (stored laterIn)
  obtain ⟨-, firstTime, -⟩ := loadItem_created displays (stored earlierIn) earlierAt loadedFirst
  obtain ⟨-, secondTime, -⟩ := loadItem_created displays (stored laterIn) laterAt loadedSecond
  rw [firstTime, secondTime]
  exact second_le_of_text displays earlierAt laterAt ordered

section Recent

variable (tables filter)

/-- The rows that match a filter, newest first. -/
def newestRows : List ItemRow :=
  (byCreation (tables.items.rows.filter fun row => filter.all (·.sqlClause row.scope))).reverse

variable {tables filter}

theorem mem_newestRows (scopes : tables.ScopesValidated platform)
    (built : ∀ given ∈ filter, given.Built platform) {row : ItemRow} :
    row ∈ newestRows tables filter ↔
      row ∈ tables.items.rows ∧ filter.all (·.admits row.scope) = true := by
  rw [newestRows, List.mem_reverse, byCreation, List.mem_insertionSort, List.mem_filter]
  refine and_congr_right fun stored => ?_
  rw [scopes.sqlClause_eq built stored]

/-- There are as many as match. -/
theorem newestRows_length (scopes : tables.ScopesValidated platform)
    (built : ∀ given ∈ filter, given.Built platform) : (newestRows tables filter).length =
      (tables.items.rows.filter fun row => filter.all (·.admits row.scope)).length := by
  rw [newestRows, List.length_reverse, byCreation, List.length_insertionSort]
  congr 1
  apply List.filter_congr
  intro row stored
  rw [scopes.sqlClause_eq built stored]

/-- No row comes twice. -/
theorem newestRows_nodup (tables : Tables) (filter : Option ScopeFilter) :
    ((newestRows tables filter).map ItemRow.id).Nodup := by
  have distinct : (tables.items.rows.map ItemRow.id).Nodup := itemIds_nodup tables
  rw [newestRows, byCreation, List.map_reverse, List.nodup_reverse,
    ((List.perm_insertionSort _ _).map _).nodup_iff]
  exact distinct.sublist (List.filter_sublist.map _)

/-- **The newest items**, where they can be loaded, are the newest by second. -/
theorem recent_newest (displays : platform.DisplaysTimes) (dated : tables.Dated platform)
    (scopes : tables.ScopesValidated platform) (built : ∀ given ∈ filter, given.Built platform)
    {count : Nat} {items : List Item} (returned : recent platform tables filter count = .ok items) :
    NewestBySecond platform tables filter count items := by
  have stored {row : ItemRow} (member : row ∈ newestRows tables filter) :
      row ∈ tables.items.rows := ((mem_newestRows scopes built).mp member).1
  have loaded : ((newestRows tables filter).take count).mapM
      (fun row => loadItem platform tables row.id) = .ok items := by
    exact List.mapM_map.symm.trans returned
  have named : items.map Item.id = ((newestRows tables filter).take count).map ItemRow.id := by
    refine mapM_returned_map loaded fun row item load => ?_
    exact loadItem_id load
  constructor
  · have lengths := congrArg List.length named
    rw [List.length_map, List.length_map, List.length_take] at lengths
    rw [lengths, newestRows_length scopes built]
  · rw [named]
    exact (newestRows_nodup tables filter).sublist ((List.take_sublist _ _).map _)
  · intro item member
    obtain ⟨row, taken, load⟩ := exists_of_mem_mapM loaded member
    obtain ⟨rowStored, admitted⟩ := (mem_newestRows scopes built).mp (List.mem_of_mem_take taken)
    exact ⟨row, rowStored, (loadItem_id load).symm, admitted⟩
  · intro item member row rowStored admitted omitted instant rowAt
    obtain ⟨shown, taken, load⟩ := exists_of_mem_mapM loaded member
    obtain ⟨created, shownAt⟩ := dated shown (stored (List.mem_of_mem_take taken))
    obtain ⟨-, time, -⟩ :=
      loadItem_created displays (stored (List.mem_of_mem_take taken)) shownAt load
    have left : row ∈ (newestRows tables filter).drop count := by
      have present := (mem_newestRows scopes built).mpr ⟨rowStored, admitted⟩
      rw [← List.take_append_drop count (newestRows tables filter)] at present
      refine (List.mem_append.mp present).resolve_left fun inside => omitted ?_
      rw [named]
      exact List.mem_map_of_mem inside
    have sorted : (newestRows tables filter).Pairwise
        fun earlier later => later.createdAt ≤ earlier.createdAt :=
      List.pairwise_reverse.mpr (byCreation_sorted _)
    rw [← List.take_append_drop count (newestRows tables filter)] at sorted
    rw [time]
    exact second_le_of_text displays rowAt shownAt
      ((List.pairwise_append.mp sorted).2.2 shown taken row left)

end Recent

/-- **Listings are chronological to the second** in every store: every listing yields its
items second by second, and the newest items are the newest by second, for every count
exactly where no matching item has metadata that nests too deep to be loaded. -/
theorem listings_chronological_iff (displays : platform.DisplaysTimes)
    (dated : tables.Dated platform) (scopes : tables.ScopesValidated platform)
    (built : ∀ given ∈ filter, given.Built platform) :
    ((∀ tags, Chronological (listByTagsScoped platform tables tags filter)) ∧
      ∀ count, ∃ items, recent platform tables filter count = .ok items ∧
        NewestBySecond platform tables filter count items) ↔
      ∀ row ∈ tables.items.rows, filter.all (·.admits row.scope) = true →
        row.metadata.depth < Json.recursionLimit := by
  constructor
  · rintro ⟨-, newest⟩ row stored admitted
    obtain ⟨items, returned, -⟩ := newest (newestRows tables filter).length
    have present := (mem_newestRows scopes built).mpr ⟨stored, admitted⟩
    rw [recent, recentIds, show (byCreation _).reverse = newestRows tables filter from rfl,
      List.take_length] at returned
    obtain ⟨item, -, load⟩ := mapM_returned_each returned (List.mem_map_of_mem present)
    obtain ⟨instant, created⟩ := dated row stored
    exact (loadItem_created displays stored created load).2.2
  · intro shallow
    refine ⟨fun tags => listing_chronological displays dated tags filter, fun count => ?_⟩
    obtain ⟨items, returned⟩ : ∃ items, recent platform tables filter count = .ok items := by
      refine mapM_succeeds fun id listed => ?_
      obtain ⟨row, taken, rfl⟩ := List.mem_map.mp listed
      obtain ⟨stored, admitted⟩ := (mem_newestRows scopes built).mp (List.mem_of_mem_take taken)
      obtain ⟨instant, created⟩ := dated row stored
      rw [loadItem_dated displays stored created, if_pos (shallow row stored admitted)]
      exact ⟨_, rfl⟩
    exact ⟨items, returned, recent_newest displays dated scopes built returned⟩

/-- The platform for ASCII texts displays instants so. -/
theorem ascii_displaysTimes : Platform.ascii.DisplaysTimes := by
  constructor
  · intro instant _
    rfl
  · intro instant after
    exact Platform.readSql_trimFraction (Timestamp.unsigned_of_nonneg after)

theorem halfSecond_inRange : -377705023201000000000 ≤ (500000000 : Int) ∧
    (500000000 : Int) ≤ 253402207200999999999 := by decide

/-- Half a second after the epoch. -/
def halfSecond : Timestamp := ⟨500000000, halfSecond_inRange⟩

/-- Two notes of one second; the text of the earlier one sorts after that of the later one. -/
def sameSecond : Store :=
  let note : NewItem := ⟨"note", none, [], none, .object [], none, none⟩
  runItemCalls .ascii
    [(⟨.epoch, fun _ => 1⟩, .ingest note), (⟨halfSecond, fun _ => 2⟩, .ingest note)]
    ⟨false, .fresh⟩

/-- The creation times that a run of calls wrote, from a list that has them. -/
theorem dated_of_times {times : List Timestamp} (after : ∀ instant ∈ times, 0 ≤ instant.nanos)
    (written : ∀ row ∈ tables.items.rows, row.createdAt ∈ times.map platform.displayTime) :
    tables.Dated platform := by
  intro row stored
  obtain ⟨instant, member, same⟩ := List.mem_map.mp (written row stored)
  exact ⟨instant, after instant member, same.symm⟩

/-- Within a second the listing is not chronological, and nothing more is promised. -/
theorem same_second_is_chronological :
    ((list .ascii sameSecond.database.tables).filterMap fun item =>
      item.toOption.map Item.createdAt) = [halfSecond, .epoch] ∧
    (∀ tags, Chronological (listByTagsScoped .ascii sameSecond.database.tables tags none)) ∧
      ∀ count, ∃ items, recent .ascii sameSecond.database.tables none count = .ok items ∧
        NewestBySecond .ascii sameSecond.database.tables none count items := by
  have dated : sameSecond.database.tables.Dated .ascii :=
    @dated_of_times _ _ [.epoch, halfSecond] (by decide) (by decide +kernel)
  have scopes : sameSecond.database.tables.ScopesValidated .ascii :=
    runItemCalls_scopesValidated _ fun row member => by cases member
  exact ⟨by decide +kernel,
    (listings_chronological_iff ascii_displaysTimes dated scopes (by rintro _ ⟨⟩)).mpr
      (by decide +kernel)⟩

/-- **An item with metadata of 128 levels** is stored, and the newest items cannot be had. -/
theorem deep_item_blocks_recent : ∃ stored after, nestedIngest 128 = (.ok stored, after) ∧
    after.database.tables.Dated .ascii ∧ after.database.tables.items.rows.length = 1 ∧
      ¬ ∃ items, recent .ascii after.database.tables none 1 = .ok items ∧
        NewestBySecond .ascii after.database.tables none 1 items := by
  have evaluated : (match nestedIngest 128 with
      | (.ok _, after) =>
        decide (after.database.tables.items.rows.length = 1) &&
        decide (∀ row ∈ after.database.tables.items.rows,
          row.createdAt ∈ [Timestamp.epoch].map Platform.ascii.displayTime) &&
        (recent .ascii after.database.tables none 1).toOption.isNone
      | (.error _, _) => false) = true := by decide +kernel
  split at evaluated
  case h_1 stored after returned =>
    rw [Bool.and_eq_true, Bool.and_eq_true, decide_eq_true_iff, decide_eq_true_iff] at evaluated
    obtain ⟨⟨single, written⟩, none⟩ := evaluated
    refine ⟨stored, after, returned, dated_of_times (by decide) written, single, ?_⟩
    rintro ⟨items, newest, -⟩
    rw [newest] at none
    cases none
  case h_2 => cases evaluated

end Singularmem.Core
