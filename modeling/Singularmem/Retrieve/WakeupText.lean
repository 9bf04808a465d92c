import Singularmem.Retrieve.Claude
import Singularmem.Retrieve.Wakeup

/-!
# The text of a wake-up

A digest is shown beneath a header, in a number of bytes. The oldest blocks are dropped until
the whole text fits, and the header tells how many are left. What is shown are the newest notes
of the scopes, and one note more would not fit.
-/

namespace Singularmem.Retrieve

open Library Singularmem.Core Singularmem.Search

/-- How the standard library shows a text between quotes, and a score to four digits. -/
structure Formatting where
  debug : String → String
  score : F32 → String

/-- The lines of one block of the plain adapter. -/
def plainBlock (formatting : Formatting) (platform : Platform) (block : MemoryBlock) (i : Nat) :
    String :=
  "\n## memory " ++ toString (i + 1) ++ " (score=" ++ formatting.score block.score ++ ")\n" ++
  "id: " ++ block.id.ulid.display ++ "\n" ++
  "created: " ++ platform.displayTime block.createdAt ++ "\n" ++
  (match block.source with
    | some source => "source: " ++ source ++ "\n"
    | none => "") ++
  (if block.tags.isEmpty then "" else "tags: " ++ ", ".intercalate block.tags ++ "\n") ++
  "\n" ++ block.content ++ "\n" ++ "---\n"

/-- The plain rendering of a context. -/
def plainFormat (formatting : Formatting) (platform : Platform) (context : RetrievedContext) :
    String :=
  if context.blocks.isEmpty then
    "[no memories matched query: " ++ formatting.debug context.query ++ "]\n"
  else "# " ++ toString context.blocks.length ++ " memor" ++
    (if context.blocks.length = 1 then "y" else "ies") ++ " for query: " ++
    formatting.debug context.query ++ "\n" ++
    .join (context.blocks.zipIdx.map fun entry => plainBlock formatting platform entry.1 entry.2)

/-- The default adapter. -/
def plainAdapter (formatting : Formatting) (platform : Platform) : Adapter :=
  ⟨"plain", plainFormat formatting platform⟩

/-- The line that precedes the blocks, with the number of blocks that are shown. -/
def headerFor (wakeup : Wakeup) (kept : Nat) : String :=
  "# Singularmem wake-up — " ++ ", ".intercalate wakeup.scopes ++ " — " ++ toString wakeup.total ++
    " items, showing last " ++ toString kept ++ "\n"

/-- The header of a digest that is shown whole. -/
def header (wakeup : Wakeup) : String := headerFor wakeup wakeup.shown

/-- The text with some of the blocks: where there are none, the header alone. -/
def textOf (wakeup : Wakeup) (adapter : Adapter) (blocks : List MemoryBlock) : String :=
  if blocks.isEmpty then headerFor wakeup blocks.length
  else headerFor wakeup blocks.length ++ adapter.format { wakeup.context with blocks }

/-- The loop of `render`: drop the oldest block until the text fits. -/
def renderFrom (wakeup : Wakeup) (adapter : Adapter) (maxBytes : Nat) : List MemoryBlock → String
  | [] => textOf wakeup adapter []
  | block :: rest =>
    let out := textOf wakeup adapter (block :: rest)
    if out.utf8ByteSize ≤ maxBytes then out else renderFrom wakeup adapter maxBytes rest

/-- Header and adapter output in a number of bytes. -/
def render (wakeup : Wakeup) (adapter : Adapter) (maxBytes : Nat) : String :=
  renderFrom wakeup adapter maxBytes wakeup.context.blocks

/-- The blocks that a text shows: the last ones, as many as fit. -/
structure ShowsLast (wakeup : Wakeup) (adapter : Adapter) (maxBytes : Nat)
    (blocks kept : List MemoryBlock) (text : String) : Prop where
  last : kept <:+ blocks
  shown : text = textOf wakeup adapter kept
  fits : kept ≠ [] → text.utf8ByteSize ≤ maxBytes
  full : ∀ more, more <:+ blocks → kept.length < more.length →
    maxBytes < (textOf wakeup adapter more).utf8ByteSize

/-- **What is shown** are the last blocks, and no more of them would fit. -/
theorem renderFrom_shows (wakeup : Wakeup) (adapter : Adapter) (maxBytes : Nat)
    (blocks : List MemoryBlock) :
    ∃ kept, ShowsLast wakeup adapter maxBytes blocks kept
      (renderFrom wakeup adapter maxBytes blocks) := by
  induction blocks with
  | nil =>
    refine ⟨[], List.suffix_refl [], rfl, fun some => absurd rfl some, fun more part longer => ?_⟩
    rw [List.suffix_nil.mp part] at longer
    exact absurd longer (Nat.lt_irrefl 0)
  | cons block rest inductionHypothesis =>
    by_cases fits : (textOf wakeup adapter (block :: rest)).utf8ByteSize ≤ maxBytes
    · have whole : renderFrom wakeup adapter maxBytes (block :: rest) =
          textOf wakeup adapter (block :: rest) := if_pos fits
      refine ⟨block :: rest, List.suffix_refl _, whole, fun _ => whole ▸ fits,
        fun more part longer => ?_⟩
      exact absurd part.length_le (Nat.not_le.mpr longer)
    · have dropped : renderFrom wakeup adapter maxBytes (block :: rest) =
          renderFrom wakeup adapter maxBytes rest := if_neg fits
      obtain ⟨kept, last, shown, size, full⟩ := inductionHypothesis
      rw [dropped]
      refine ⟨kept, last.trans (List.suffix_cons block rest), shown, size,
        fun more part longer => ?_⟩
      rcases List.suffix_cons_iff.mp part with rfl | later
      · exact Nat.not_le.mp fits
      · exact full more later longer

section Recent

variable (platform : Platform) (tables : Tables)

/-- How late an item was made, to the second: the latest first. -/
def lateness (id : ItemId) : (WithBot Int)ᵒᵈ :=
  OrderDual.toDual ((creationOf platform tables id).elim ⊥
    fun instant => (instant.second : WithBot Int))

/-- The newest items of the scopes to the second, oldest first: distinct items as they are
stored, as many as asked for or as there are, and none that is left out was made in a later
second. -/
structure Gathers (scopes : ScopeSet) (count : Nat) (items : List Item) : Prop where
  loaded : ∀ item ∈ items, loadItem platform tables item.id = .ok item
  newest : Nearest (lateness platform tables) (unionIds tables scopes) count
    (items.map Item.id).reverse
  chronological : items.Pairwise fun earlier later =>
    earlier.createdAt.nanos ≤ later.createdAt.nanos

variable {platform tables}

/-- The last of the newest items are the newest of a smaller count. -/
theorem Gathers.suffix {scopes : ScopeSet} {count : Nat} {items kept : List Item}
    (gathers : Gathers platform tables scopes count items) (last : kept <:+ items) :
    Gathers platform tables scopes kept.length kept := by
  refine ⟨fun item member => gathers.loaded item (last.subset member), ?_,
    gathers.chronological.sublist last.sublist⟩
  obtain ⟨front, rfl⟩ := last
  have fewer := @Nearest.take _ _ _ _ _ _ _ gathers.newest kept.length (by simp)
  simpa using fewer

/-- The lateness of a dated row. -/
theorem lateness_dated (displays : platform.DisplaysTimes) {row : ItemRow} {instant : Timestamp}
    (stored : row ∈ tables.items.rows) (created : row.CreatedAt platform instant) :
    lateness platform tables row.id = OrderDual.toDual (instant.second : WithBot Int) := by
  have found : tables.items.find (.id row.id) = some row :=
    Table.find_eq_some.mpr ⟨stored, by simp [itemSchema]⟩
  have read : creationOf platform tables row.id = some instant := by
    rw [creationOf, found, Option.bind_some, created.2, displays.display instant created.1,
      displays.parse instant created.1]
  rw [lateness, read, Option.elim_some]

/-- The lateness of a loaded item. -/
theorem lateness_loaded {id : ItemId} {item : Item}
    (load : loadItem platform tables id = .ok item) :
    lateness platform tables id = OrderDual.toDual (item.createdAt.second : WithBot Int) := by
  rw [lateness, creationOf_loaded load, Option.elim_some]

/-- Of two loaded items the one that was made no earlier is no less late. -/
theorem lateness_le_of_nanos {first second : ItemId} {newer older : Item}
    (loadFirst : loadItem platform tables first = .ok newer)
    (loadSecond : loadItem platform tables second = .ok older)
    (ordered : older.createdAt.nanos ≤ newer.createdAt.nanos) :
    lateness platform tables first ≤ lateness platform tables second := by
  rw [lateness_loaded loadFirst, lateness_loaded loadSecond, OrderDual.toDual_le_toDual,
    WithBot.coe_le_coe]
  exact Int.ediv_le_ediv (by decide) ordered

/-- **The newest items of one scope**, where the matching ones can be loaded. -/
theorem recent_latest (displays : platform.DisplaysTimes) (dated : tables.Dated platform)
    {filter : ScopeFilter} (shallow : ∀ row ∈ tables.items.rows,
      filter.sqlClause row.scope = true → row.metadata.depth < Json.recursionLimit) (count : Nat) :
    ∃ items, recent platform tables (some filter) count = .ok items ∧
      (∀ item ∈ items, loadItem platform tables item.id = .ok item) ∧
      Nearest (lateness platform tables) (matchingIds tables filter) count
        (items.map Item.id) := by
  have member {row : ItemRow} : row ∈ newestRows tables (some filter) ↔
      row ∈ tables.items.rows ∧ filter.sqlClause row.scope = true := by
    rw [newestRows, List.mem_reverse, byCreation, List.mem_insertionSort, List.mem_filter]
    rfl
  obtain ⟨items, returned⟩ : ∃ items, recent platform tables (some filter) count = .ok items := by
    refine mapM_succeeds fun id listed => ?_
    obtain ⟨row, taken, rfl⟩ := List.mem_map.mp listed
    obtain ⟨stored, matching⟩ := member.mp (List.mem_of_mem_take taken)
    obtain ⟨instant, created⟩ := dated row stored
    rw [loadItem_dated displays stored created, if_pos (shallow row stored matching)]
    exact ⟨_, rfl⟩
  have named : items.map Item.id = recentIds tables (some filter) count := by
    have same := @mapM_returned_map _ _ _ _ _ id Item.id _ _ returned fun _ _ => loadItem_id
    rwa [List.map_id] at same
  refine ⟨items, returned, fun item shown => ?_, ?_⟩
  · obtain ⟨id, -, load⟩ := exists_of_mem_mapM returned shown
    rwa [loadItem_id load]
  · rw [named, recentIds, List.map_take]
    refine Nearest.of_sort _ _ _ ?_ ?_
    · refine (List.perm_ext_iff_of_nodup (newestRows_nodup tables (some filter))
        (Finset.nodup_toList _)).mpr fun id => ?_
      rw [Finset.mem_toList, mem_matchingIds, List.mem_map]
      simp only [member, and_assoc]
    · rw [List.pairwise_map]
      refine (List.pairwise_reverse.mpr (byCreation_sorted _)).imp_of_mem
        fun {newer older} newerIn olderIn below => ?_
      have newerStored := (member.mp newerIn).1
      have olderStored := (member.mp olderIn).1
      obtain ⟨late, newerAt⟩ := dated newer newerStored
      obtain ⟨early, olderAt⟩ := dated older olderStored
      rw [lateness_dated displays newerStored newerAt, lateness_dated displays olderStored olderAt,
        OrderDual.toDual_le_toDual, WithBot.coe_le_coe]
      exact second_le_of_text displays olderAt newerAt below

/-- The selection of a digest has the newest items of the union to the second. -/
theorem selected_latest {scopes : ScopeSet} {limit : Nat} {shown : ScopeFilter → List Item}
    (latest : ∀ filter ∈ scopes, (∀ item ∈ shown filter,
        loadItem platform tables item.id = .ok item) ∧
      Nearest (lateness platform tables) (matchingIds tables filter) limit
        ((shown filter).map Item.id)) :
    Gathers platform tables scopes limit (selected (scopes.map shown) limit).reverse := by
  have kept : (keepFirst Item.id [] (sortNewestFirst (scopes.map shown).flatten)).Sublist _ :=
    keepFirst_sublist [] _
  have load : ∀ item ∈ keepFirst Item.id [] (sortNewestFirst (scopes.map shown).flatten),
      loadItem platform tables item.id = .ok item := by
    intro item member
    have inFound := (List.mem_insertionSort _).mp (kept.subset member)
    obtain ⟨_, part, inside⟩ := List.mem_flatten.mp inFound
    obtain ⟨filter, given, rfl⟩ := List.mem_map.mp part
    exact (latest filter given).1 item inside
  have sorted := (sortNewestFirst_sorted (scopes.map shown).flatten).sublist kept
  refine ⟨fun item member => ?_, ?_, ?_⟩
  · exact load item (List.mem_of_mem_take (List.mem_reverse.mp member))
  · rw [List.map_reverse, List.reverse_reverse, selected, List.map_take]
    refine @Nearest.merge _ _ _ _ _ limit scopes (matchingIds tables)
      (fun filter => (shown filter).map Item.id) _ _ (fun filter given => (latest filter given).2)
      (fun id => mem_unionIds) (keepFirst_nodup [] _) (fun id => ?_) ?_
    · rw [mem_keepFirst_keys, and_iff_right List.not_mem_nil, List.mem_map]
      simp only [sortNewestFirst, List.mem_insertionSort, List.mem_flatten, List.mem_map]
      constructor
      · rintro ⟨item, ⟨_, ⟨filter, given, rfl⟩, member⟩, same⟩
        exact ⟨filter, given, item, member, same⟩
      · rintro ⟨filter, given, item, member, same⟩
        exact ⟨item, ⟨_, ⟨filter, given, rfl⟩, member⟩, same⟩
    · rw [List.pairwise_map]
      refine sorted.imp_of_mem fun {earlier later} earlierIn laterIn ordered => ?_
      exact lateness_le_of_nanos (load earlier earlierIn) (load later laterIn) ordered
  · rw [List.pairwise_reverse]
    exact sorted.sublist (List.take_sublist limit _)

/-- **A digest gathers the newest items** of its scopes to the second, where the matching
ones can be loaded. -/
theorem build_gathers (displays : platform.DisplaysTimes) (dated : tables.Dated platform)
    {scopes : ScopeSet} (shallow : ∀ filter ∈ scopes, ∀ row ∈ tables.items.rows,
      filter.sqlClause row.scope = true → row.metadata.depth < Json.recursionLimit)
    (options : WakeupOptions) :
    ∃ wakeup items, build platform tables scopes options = .ok wakeup ∧
      wakeup.context.blocks = items.map digestBlock ∧
      wakeup.total = (unionIds tables scopes).card ∧
      Gathers platform tables scopes options.limit items := by
  let shown (filter : ScopeFilter) : List Item :=
    (recent platform tables (some filter) options.limit).toOption.getD []
  have told {filter : ScopeFilter} {items : List Item}
      (returned : recent platform tables (some filter) options.limit = .ok items) :
      items = shown filter := by
    simp only [shown, returned]
    rfl
  obtain ⟨found, gathered⟩ := mapM_succeeds fun filter given =>
    (recent_latest displays dated (shallow filter given) options.limit).imp fun _ => And.left
  have each : found = scopes.map shown := by
    have same := @mapM_returned_map _ _ _ _ _ shown id _ _ gathered fun _ _ => told
    rwa [List.map_id] at same
  rw [build, gathered, each]
  refine ⟨_, (selected (scopes.map shown) options.limit).reverse, rfl, rfl,
    countScopedAny_eq scopes, selected_latest fun filter given => ?_⟩
  obtain ⟨items, returned, latest⟩ :=
    recent_latest displays dated (shallow filter given) options.limit
  exact told returned ▸ latest

end Recent

end Singularmem.Retrieve
