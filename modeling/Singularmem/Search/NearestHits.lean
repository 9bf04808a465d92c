import Mathlib.Data.Finset.Lattice.Fold
import Mathlib.Order.Lattice.Nat
import Singularmem.Library.Nearest
import Singularmem.Search.HybridQuery
import Singularmem.Search.TornPairs

/-!
# The nearest items

A search takes the nearest keys of the graph and then drops those that the keymap does not
name. Where the keymap names the keys of the graph it drops none, and an exact neighbour
search makes it find the nearest items. After a kill that tore the pair a key that no item
has can take the place of one that an item has.
-/

namespace Singularmem.Search

open Library Singularmem.Core

/-- The distance of a query to the vector under a key. -/
def Graph.distanceTo (distance : List F32 → List F32 → F32) (graph : Graph) (vector : List F32)
    (key : Nat) : F32 :=
  distance vector ((graph.lookup key).getD [])

/-- The neighbour search finds the nearest keys of the graph, with their distances. -/
def SemanticEngine.Exact {Rank : Type} [LinearOrder Rank] (neural : SemanticEngine)
    (distance : List F32 → List F32 → F32) (rank : F32 → Rank) : Prop :=
  ∀ graph vector count, ∃ found, neural.neighbours graph vector count = .ok found ∧
    Nearest (fun key => rank (Graph.distanceTo distance graph vector key)) graph.keys count
      (found.map Prod.fst) ∧
    ∀ near ∈ found, near.2 = Graph.distanceTo distance graph vector near.1

/-- How many items are indexed. -/
def VectorIndex.docCount (handle : VectorIndex) : Nat := handle.keymap.forward.keys.card

section Search

variable {Rank : Type} [LinearOrder Rank] {neural : SemanticEngine} {arithmetic : Arithmetic}
  {distance : List F32 → List F32 → F32} {rank : F32 → Rank}

/-- The item under a key. -/
def Keymap.itemOf (keymap : Keymap) (key : Nat) : ItemId := (keymap.forward.lookup key).getD ⟨0⟩

/-- The keymap of a matched pair names the keys of its graph. -/
theorem Pair.Matched.keys {pair : Pair} (matched : pair.Matched) :
    pair.index.keys = pair.keymap.forward.keys := by
  have inverse := matched.sound.wellFormed.inverse
  ext key
  rw [Finmap.mem_keys, Finmap.mem_keys, ← Finmap.lookup_isSome, ← Finmap.lookup_isSome]
  constructor
  · intro held
    rcases matched.tight key held with ⟨id, named⟩ | ⟨above, below⟩
    · rw [(inverse id key).mp named]
      rfl
    · omega
  · intro named
    obtain ⟨id, named⟩ := Option.isSome_iff_exists.mp named
    exact matched.sound.served id key ((inverse id key).mpr named)

/-- Every key of a matched pair is the key of its item. -/
theorem Pair.Matched.itemOf {pair : Pair} (matched : pair.Matched) {key : Nat}
    (held : key ∈ pair.index.keys) :
    pair.keymap.forward.lookup key = some (pair.keymap.itemOf key) ∧
      pair.keymap.reverse.lookup (pair.keymap.itemOf key) = some key := by
  rw [matched.keys, Finmap.mem_keys, ← Finmap.lookup_isSome] at held
  obtain ⟨id, named⟩ := Option.isSome_iff_exists.mp held
  have same : pair.keymap.itemOf key = id := by rw [Keymap.itemOf, named, Option.getD_some]
  rw [same]
  exact ⟨named, (matched.sound.wellFormed.inverse id key).mpr named⟩

/-- The named items are those of the keys. -/
theorem Pair.Matched.items {pair : Pair} (matched : pair.Matched) :
    pair.index.keys.image pair.keymap.itemOf = pair.keymap.reverse.keys := by
  ext id
  rw [Finset.mem_image, Finmap.mem_keys, ← Finmap.lookup_isSome]
  constructor
  · rintro ⟨key, held, rfl⟩
    rw [(matched.itemOf held).2]
    rfl
  · intro named
    obtain ⟨key, named⟩ := Option.isSome_iff_exists.mp named
    have held := matched.sound.served id key named
    rw [Finmap.lookup_isSome, ← Finmap.mem_keys] at held
    exact ⟨key, held, matched.sound.wellFormed.injective (matched.itemOf held).2 named⟩

/-- **A search of a matched pair** finds the nearest items, and as many as there are. -/
theorem VectorIndex.search_matched (exact : neural.Exact distance rank) {handle : VectorIndex}
    (matched : handle.pair.Matched) {vector : List F32} (fits : vector.length = handle.meta.dim)
    (count : Nat) :
    ∃ hits, handle.search neural arithmetic vector count = .ok hits ∧
      hits.length = min count handle.docCount ∧
      Nearest (fun id => rank (distance vector ((handle.view id).getD [])))
        handle.keymap.reverse.keys count (hits.map SemanticHit.id) ∧
      ∀ hit ∈ hits, ∃ stored, handle.view hit.id = some stored ∧
        hit.score = arithmetic.sub (arithmetic.ofNat 1) (distance vector stored) := by
  obtain ⟨found, near, nearest, measured⟩ := exact handle.inner vector count
  have inside : ∀ entry ∈ found, entry.1 ∈ handle.pair.index.keys := fun entry member =>
    nearest.within entry.1 (List.mem_map_of_mem member)
  have view : ∀ key ∈ handle.pair.index.keys,
      handle.view (handle.keymap.itemOf key) = handle.inner.lookup key := by
    intro key held
    have named : handle.keymap.reverse.lookup (handle.keymap.itemOf key) = some key :=
      (matched.itemOf held).2
    rw [VectorIndex.view, Pair.view]
    simp [VectorIndex.pair, named]
  have translated : found.filterMap (fun entry => (handle.keymap.forward.lookup entry.1).map
        fun id => (⟨id, arithmetic.sub (arithmetic.ofNat 1) entry.2⟩ : SemanticHit)) =
      found.map fun entry =>
        ⟨handle.keymap.itemOf entry.1, arithmetic.sub (arithmetic.ofNat 1) entry.2⟩ := by
    rw [← List.filterMap_eq_map']
    refine List.filterMap_congr fun entry member => ?_
    have named : handle.keymap.forward.lookup entry.1 = some (handle.keymap.itemOf entry.1) :=
      (matched.itemOf (inside entry member)).1
    simp only [named, Option.map_some]
  have counted : handle.docCount = handle.pair.index.keys.card := by
    rw [matched.keys]
    rfl
  have sameItem : ∀ first ∈ handle.pair.index.keys, ∀ second ∈ handle.pair.index.keys,
      handle.keymap.itemOf first = handle.keymap.itemOf second → first = second := by
    intro first firstIn second secondIn same
    have named := (matched.itemOf firstIn).2
    rw [show handle.pair.keymap.itemOf first = handle.pair.keymap.itemOf second from same,
      (matched.itemOf secondIn).2] at named
    exact (Option.some.inj named).symm
  have renamed : Nearest (fun id => rank (distance vector ((handle.view id).getD [])))
      (handle.pair.index.keys.image handle.keymap.itemOf) count
      ((found.map Prod.fst).map handle.keymap.itemOf) := by
    refine nearest.map sameItem fun key held => ?_
    rw [view key held, Graph.distanceTo]
  refine ⟨found.map fun entry =>
    ⟨handle.keymap.itemOf entry.1, arithmetic.sub (arithmetic.ofNat 1) entry.2⟩, ?_, ?_, ?_, ?_⟩
  · rw [VectorIndex.search, if_neg (not_not_intro fits), near]
    exact congrArg Except.ok translated
  · have fetched := nearest.length
    rw [List.length_map] at fetched
    rw [List.length_map, counted]
    exact fetched
  · have items : handle.pair.index.keys.image handle.keymap.itemOf =
        handle.keymap.reverse.keys := matched.items
    rw [items, List.map_map] at renamed
    rw [List.map_map]
    exact renamed
  · intro hit member
    obtain ⟨entry, entryIn, rfl⟩ := List.mem_map.mp member
    have held := inside entry entryIn
    obtain ⟨stored, present⟩ : ∃ stored, handle.inner.lookup entry.1 = some stored :=
      Option.isSome_iff_exists.mp (Finmap.lookup_isSome.mpr (Finmap.mem_keys.mp held))
    refine ⟨stored, (view entry.1 held).trans present, ?_⟩
    rw [measured entry entryIn, Graph.distanceTo, present, Option.getD_some]


/-- **While kills spare the pair**, a search finds the nearest items, as many as are asked for
or indexed, nearest first. -/
theorem searches_find_the_nearest {embedder : Embedder} (exact : neural.Exact distance rank)
    {deeds : List Deed} {desk : Desk} (run : Run (Desk.SparingStep embedder) .fresh deeds desk)
    {handle : VectorIndex} (held : desk.handle = some handle) {vector : List F32}
    (fits : vector.length = embedder.dim) (count : Nat) :
    ∃ hits, handle.search neural arithmetic vector count = .ok hits ∧
      hits.length = min count handle.docCount ∧
      Nearest (fun id => rank (distance vector ((handle.view id).getD [])))
        handle.keymap.reverse.keys count (hits.map SemanticHit.id) ∧
      ∀ hit ∈ hits, ∃ stored, handle.view hit.id = some stored ∧
        hit.score = arithmetic.sub (arithmetic.ofNat 1) (distance vector stored) := by
  have tidy := sparing_run_tidy run
  have agrees := tidy.agrees handle held
  refine VectorIndex.search_matched exact (tidy.matched handle held) ?_ count
  rw [fits, agrees.metadata]
  rfl

end Search

section Engines

variable {Rank : Type} [LinearOrder Rank]

/-- The keys of a graph, in order. -/
def Graph.keyList (graph : Graph) : List Nat :=
  (List.range (graph.keys.sup Nat.succ)).filter fun key => key ∈ graph.keys

theorem Graph.keyList_perm (graph : Graph) : (Graph.keyList graph).Perm graph.keys.toList := by
  have distinct : (Graph.keyList graph).Nodup := List.nodup_range.filter _
  refine (List.perm_ext_iff_of_nodup distinct graph.keys.nodup_toList).mpr fun key => ?_
  rw [Graph.keyList, List.mem_filter, List.mem_range, Finset.mem_toList, decide_eq_true_eq]
  have below (held : key ∈ graph.keys) : key < graph.keys.sup Nat.succ :=
    Nat.lt_of_succ_le (@Finset.le_sup _ _ _ _ _ Nat.succ _ held)
  exact ⟨And.right, fun held => ⟨below held, held⟩⟩

/-- A neighbour search that sorts all the keys of the graph. -/
def SemanticEngine.sorting (distance : List F32 → List F32 → F32) (rank : F32 → Rank) :
    SemanticEngine where
  embed _ := .ok []
  neighbours graph vector count :=
    let keys := (Graph.keyList graph).insertionSort fun first second =>
      rank (Graph.distanceTo distance graph vector first) ≤
        rank (Graph.distanceTo distance graph vector second)
    .ok ((keys.take count).map fun key => (key, Graph.distanceTo distance graph vector key))

theorem SemanticEngine.sorting_exact (distance : List F32 → List F32 → F32) (rank : F32 → Rank) :
    (SemanticEngine.sorting distance rank).Exact distance rank := by
  intro graph vector count
  let away (key : Nat) : Rank := rank (Graph.distanceTo distance graph vector key)
  have total : Std.Total fun first second => away first ≤ away second :=
    ⟨fun first second => le_total (away first) (away second)⟩
  have transitive : IsTrans Nat fun first second => away first ≤ away second :=
    ⟨fun _ _ _ => le_trans⟩
  have permuted : ((Graph.keyList graph).insertionSort fun first second =>
      away first ≤ away second).Perm graph.keys.toList :=
    (List.perm_insertionSort _ _).trans (Graph.keyList_perm graph)
  refine ⟨_, rfl, ?_, ?_⟩
  · rw [List.map_map]
    have named (keys : List Nat) : keys.map (Prod.fst ∘ fun key =>
        (key, Graph.distanceTo distance graph vector key)) = keys := List.map_id' keys
    rw [named]
    exact Nearest.of_sort away graph.keys count permuted (List.pairwise_insertionSort _ _)
  · intro near member
    obtain ⟨key, _, rfl⟩ := List.mem_map.mp member
    rfl

/-- How far the first number of a query is above that of a stored vector. -/
def gap (query stored : List F32) : F32 := query.headD 0 - stored.headD 0

instance (embedder : Embedder) (desk : Desk) : (deed : Deed) → Decidable (desk.Spares embedder deed)
  | .finish _ => isTrue trivial
  | .kill request done cut =>
    match ran : desk.run embedder request with
    | none => isTrue fun _ _ same => nomatch ran.symm.trans same
    | some (_, session) =>
      decidable_of_iff (Torn (session.steps.take done) = true →
          (desk.dir.killed session.steps done cut).Mendable embedder)
        ⟨fun spares _ _ same => (Prod.mk.inj (Option.some.inj (ran.symm.trans same))).2 ▸ spares,
          fun spares => spares _ session ran⟩

/-- The desk after a deed that meets the condition. -/
def Desk.sparing (embedder : Embedder) (desk : Desk) (deed : Deed) : Option Desk :=
  if desk.Spares embedder deed then desk.after embedder deed else none

theorem Desk.sparing_step {embedder : Embedder} {desk next : Desk} {deed : Deed}
    (spared : desk.sparing embedder deed = some next) : desk.SparingStep embedder deed next := by
  obtain ⟨spares, stepped⟩ := Option.ite_none_right_eq_some.mp spared
  exact ⟨stepped, spares⟩

/-- A compaction of a journalled item is killed between its renames; the replay mends that,
and the item is found. -/
theorem mended_pair_is_searched : ∃ desk handle,
    Run (Desk.SparingStep ⟨"", 1⟩) .fresh [.finish none, .finish (some (.add [(⟨7⟩, [1])])),
        .finish (some (.commit false)), .kill (some .compact) 2 0, .finish none] desk ∧
      desk.handle = some handle ∧ handle.docCount = 1 ∧
      ∀ arithmetic, ∃ hits,
        handle.search (.sorting gap BitVec.toNat) arithmetic [2] 1 = .ok hits ∧
          hits.length = min 1 handle.docCount ∧
          Nearest (fun id => (gap [2] ((handle.view id).getD [])).toNat)
            handle.keymap.reverse.keys 1 (hits.map SemanticHit.id) ∧
          ∀ hit ∈ hits, ∃ stored, handle.view hit.id = some stored ∧
            hit.score = arithmetic.sub (arithmetic.ofNat 1) (gap [2] stored) := by
  obtain ⟨⟨desk, handle⟩, computed⟩ := Option.isSome_iff_exists.mp (show ((Run.play
      (Desk.sparing ⟨"", 1⟩) .fresh [.finish none, .finish (some (.add [(⟨7⟩, [1])])),
        .finish (some (.commit false)), .kill (some .compact) 2 0, .finish none]).bind fun desk =>
      desk.handle.bind fun handle =>
        if handle.docCount = 1 then some (desk, handle) else none).isSome by decide +kernel)
  obtain ⟨reached, played, computed⟩ := Option.bind_eq_some_iff.mp computed
  obtain ⟨found, held, computed⟩ := Option.bind_eq_some_iff.mp computed
  obtain ⟨counted, same⟩ := Option.ite_none_right_eq_some.mp computed
  cases same
  have run := (Run.of_play played).mono fun _ _ _ => Desk.sparing_step
  exact ⟨_, _, run, held, counted, fun arithmetic =>
    searches_find_the_nearest (SemanticEngine.sorting_exact gap BitVec.toNat) run held rfl 1⟩

/-- **A compaction at the end of a batch** is killed between its renames: the vector of the
item whose name is lost comes before that of the item that has one. -/
theorem torn_pair_displaces_the_nearest : ∃ desk handle,
    Run (Desk.Step ⟨"", 1⟩) .fresh [.finish none, .finish (some (.add [(⟨7⟩, [1])])),
        .finish (some .compact), .finish (some (.add [(⟨8⟩, [2])])),
        .kill (some .compact) 2 0, .finish none] desk ∧
      desk.handle = some handle ∧ handle.docCount = 1 ∧
      (∀ first ∈ handle.inner.keys, ∀ second ∈ handle.inner.keys,
        gap [2] ((handle.inner.lookup first).getD []) =
          gap [2] ((handle.inner.lookup second).getD []) → first = second) ∧
      (SemanticEngine.sorting gap BitVec.toNat).Exact gap BitVec.toNat ∧
      ∀ arithmetic, handle.search (.sorting gap BitVec.toNat) arithmetic [2] 1 = .ok [] := by
  obtain ⟨⟨desk, handle⟩, computed⟩ := Option.isSome_iff_exists.mp (show ((Run.play
      (Desk.after ⟨"", 1⟩) .fresh [.finish none, .finish (some (.add [(⟨7⟩, [1])])),
        .finish (some .compact), .finish (some (.add [(⟨8⟩, [2])])),
        .kill (some .compact) 2 0, .finish none]).bind fun desk =>
      desk.handle.bind fun handle =>
        if handle.docCount = 1 ∧
          (∀ first ∈ handle.inner.keys, ∀ second ∈ handle.inner.keys,
            gap [2] ((handle.inner.lookup first).getD []) =
              gap [2] ((handle.inner.lookup second).getD []) → first = second) ∧
          handle.meta.dim = 1 ∧ handle.keymap.forward.lookup 1 = none ∧
          ((SemanticEngine.sorting gap BitVec.toNat).neighbours handle.inner [2] 1).toOption =
            some [(1, 0)]
        then some (desk, handle) else none).isSome by decide +kernel)
  obtain ⟨reached, played, computed⟩ := Option.bind_eq_some_iff.mp computed
  obtain ⟨found, held, computed⟩ := Option.bind_eq_some_iff.mp computed
  obtain ⟨⟨counted, distinct, dimension, unnamed, near⟩, same⟩ :=
    Option.ite_none_right_eq_some.mp computed
  cases same
  refine ⟨_, _, Run.of_play played, held, counted, distinct,
    SemanticEngine.sorting_exact gap BitVec.toNat, fun arithmetic => ?_⟩
  have neighbours : (SemanticEngine.sorting gap BitVec.toNat).neighbours handle.inner [2] 1 =
      .ok [(1, 0)] := congrArg Except.ok (Option.some.inj near)
  have fits : ([2] : List F32).length = handle.meta.dim := dimension.symm
  rw [VectorIndex.search, if_neg (not_not_intro fits), neighbours]
  change Except.ok ([(1, 0)].filterMap _) = _
  rw [List.filterMap_cons_none (by simp only [unnamed, Option.map_none]), List.filterMap_nil]

end Engines

end Singularmem.Search
