import Singularmem.Ingest.WalkedIds

/-!
# Runs over walks

Into an empty store the driver writes the first item of each id, where the store takes it. A
walk is stored whole where the ids tell its chunks apart, the root fits the source label, and
every chunk is within the cap and does not start with a NUL.
-/

namespace Singularmem.Ingest

open Library Singularmem.Core
open Effect hiding ofExcept

variable {platform : Platform} {digest : String → String} {walker : DirectoryWalker}
  {tree : DirectoryTree}

section Runs

variable {readings : Readings} {store : Store}

/-- Two candidates of a walk with one id are one item, where the ids are distinct. -/
theorem walked_unique (distinct : walker.Distinct tree) {file other : WalkedFile}
    {text otherText : String} (inTree : file ∈ tree.files) (accepts : walker.Accepts file text)
    {chunk otherChunk : String × Nat}
    (member : chunk ∈ (chunkText text walker.chunkBytes).zipIdx)
    (otherIn : other ∈ tree.files) (otherAccepts : walker.Accepts other otherText)
    (otherMember : otherChunk ∈ (chunkText otherText walker.chunkBytes).zipIdx)
    (same : (walker.scopedItem platform digest file text chunk).externalId =
      (walker.scopedItem platform digest other otherText otherChunk).externalId) :
    walker.scopedItem platform digest file text chunk =
      walker.scopedItem platform digest other otherText otherChunk := by
  obtain ⟨rfl, placed⟩ := distinct file inTree text accepts chunk.2 (List.mem_zipIdx' member).1
    other otherIn otherText otherAccepts otherChunk.2 (List.mem_zipIdx' otherMember).1
    (Option.some.inj same)
  obtain rfl := accepts.unique otherAccepts
  have found := List.mem_zipIdx_iff_getElem?.mp member
  rw [placed, List.mem_zipIdx_iff_getElem?.mp otherMember] at found
  rw [Prod.ext (Option.some.inj found).symm placed]

/-- An empty store has no key. -/
theorem carries_nothing (empty : store.database.tables.items.rows = []) (key : String) :
    ¬ store.database.tables.carries key := by
  rintro ⟨shelved, member, -⟩
  rw [Tables.shelf, empty] at member
  exact List.not_mem_nil member

/-- Nothing is replaced in an empty store. -/
theorem replacement_nothing (empty : store.database.tables.items.rows = [])
    (candidate : Candidate) :
    replacement platform store.database.tables candidate = none := by
  by_contra replaces
  obtain ⟨key, -, held⟩ := isStored_iff.mp (isStored_of_replacement replaces)
  exact carries_nothing empty key held

/-- **What a run leaves in an empty store**: the valid items among the first of each id. -/
theorem run_into_empty {source : Source}
    (sane : Sane platform readings store.database.tables source)
    (empty : store.database.tables.items.rows = []) {report : Report} {after : Store}
    (returned : exec (ingestSource platform readings source false) store = (.ok report, after)) :
    contents after.database.tables =
        ((considered source).filter fun candidate => valid platform candidate.1).map
          (fun candidate => submitted platform candidate.1) ∧
      ∀ candidate ∈ considered source, valid platform candidate.1 → candidate.1.passesCheck := by
  obtain ⟨left, -, -, -, admitted⟩ := run_closed sane returned
  have unstored (candidate : Candidate) : isStored store.database.tables candidate = false := by
    rw [Bool.eq_false_iff, ne_eq, isStored_iff]
    rintro ⟨key, -, held⟩
    exact carries_nothing empty key held
  have nothing : contents store.database.tables = [] := by
    rw [contents, Tables.shelf, empty]
    rfl
  have none : replacements platform store.database.tables (considered source) = [] := by
    rw [replacements, List.filterMap_eq_nil_iff]
    intro candidate _
    rw [replacement_nothing empty]
    rfl
  constructor
  · rw [left, settledContents, none, nothing]
    simp only [unstored]
    rfl
  · intro candidate member validated
    have new : candidate ∈ newCandidates store.database.tables source :=
      mem_newCandidates.mpr ⟨member, fun key _ => carries_nothing empty key⟩
    exact (admissible_iff.mp (admitted candidate new validated)).1

/-- A run over a walk loses nothing: the ids tell all chunks of accepted files apart, and the
store has every one of them afterwards. -/
structure LosesNothing (platform : Platform) (digest : String → String) (walker : DirectoryWalker)
    (tree : DirectoryTree) (readings : Readings) (store : Store) : Prop where
  distinct : walker.Distinct tree
  stored : ∃ report after,
    exec (ingestSource platform readings (walker.source platform digest tree) false) store =
        (.ok report, after) ∧
      ∀ file ∈ tree.files, ∀ text, walker.Accepts file text →
        ∀ chunk ∈ (chunkText text walker.chunkBytes).zipIdx,
          ∃ row ∈ after.database.tables.items.rows, row.content = chunk.1 ∧
            row.externalId = some (DirectoryWalker.externalIdOf (walker.display file)
              (walker.chunkCount text) chunk.2)

/-- The store has a row of some contents where it has the contents. -/
theorem mem_contents_row {tables : Tables} {stored : Contents}
    (member : stored ∈ contents tables) : ∃ row ∈ tables.items.rows,
      row.content = stored.content ∧ row.externalId = stored.externalId := by
  obtain ⟨shelved, onShelf, rfl⟩ := List.mem_map.mp member
  obtain ⟨row, inRows, rfl⟩ := List.mem_map.mp onShelf
  exact ⟨row, inRows, rfl, rfl⟩

/-- **A walk loses nothing** exactly where its files are separated, the root fits the source
label and the store can take every chunk. -/
theorem loses_nothing_iff (lowers : LowersVisibly platform)
    (sane : Sane platform readings store.database.tables (walker.source platform digest tree))
    (writable : store.readOnly = false) (empty : store.database.tables.items.rows = []) :
    LosesNothing platform digest walker tree readings store ↔
      walker.Separated tree ∧ ∀ file ∈ tree.files, ∀ text, walker.Accepts file text →
        walker.RootFits ∧ ∀ chunk ∈ chunkText text walker.chunkBytes, ChunkFits chunk := by
  constructor
  · rintro ⟨distinct, report, after, returned, stored⟩
    refine ⟨DirectoryWalker.distinct_iff.mp distinct, fun file inTree text accepts => ?_⟩
    obtain ⟨left, admitted⟩ := run_into_empty sane empty returned
    have taken : ∀ chunk ∈ (chunkText text walker.chunkBytes).zipIdx,
        walker.RootFits ∧ ChunkFits chunk.1 := by
      intro chunk member
      refine (@scopedItem_taken_iff platform digest _ _ _ _ lowers inTree accepts _ member).mp ?_
      obtain ⟨row, inRows, -, named⟩ := stored file inTree text accepts chunk member
      have present : contentsOf (row, tagsOf after.database.tables row.id) ∈
          contents after.database.tables :=
        List.mem_map_of_mem (List.mem_map_of_mem inRows)
      rw [left] at present
      obtain ⟨candidate, kept, same⟩ := List.mem_map.mp present
      obtain ⟨inConsidered, validated⟩ := List.mem_filter.mp kept
      have key : candidate.1.externalId = row.externalId := congrArg Contents.externalId same
      obtain ⟨other, otherIn, otherText, otherAccepts, otherChunk, otherMember, item⟩ :=
        mem_walked.mp ⟨candidate.2, (firsts_sublist [] _).subset inConsidered⟩
      rw [walked_unique distinct inTree accepts member otherIn otherAccepts otherMember
        (named.symm.trans (key.symm.trans (congrArg NewItem.externalId item))), ← item]
      exact ⟨validated, admitted candidate inConsidered validated⟩
    obtain ⟨first, rest, chunks⟩ := List.exists_cons_of_ne_nil accepts.some
    constructor
    · exact (taken (first, 0) (by rw [chunks]; exact List.mem_cons_self)).1
    · intro chunk member
      rw [← List.zipIdx_map_fst 0 (chunkText text walker.chunkBytes)] at member
      obtain ⟨placed, inside, rfl⟩ := List.mem_map.mp member
      exact (taken placed inside).2
  · rintro ⟨separated, fits⟩
    have distinct := DirectoryWalker.distinct_iff.mpr separated
    have taken {item : NewItem} {place : Nat}
        (member : (item, place) ∈ candidates (walker.source platform digest tree)) :
        valid platform item ∧ item.passesCheck ∧ item.supersedes = none := by
      obtain ⟨file, inTree, text, accepts, chunk, inChunks, rfl⟩ := mem_walked.mp ⟨place, member⟩
      obtain ⟨root, chunks⟩ := fits file inTree text accepts
      have listed : chunk.1 ∈ chunkText text walker.chunkBytes := by
        have first := List.mem_map_of_mem (f := Prod.fst) inChunks
        rwa [List.zipIdx_map_fst] at first
      obtain ⟨validated, check⟩ :=
        (scopedItem_taken_iff lowers inTree accepts inChunks).mpr ⟨root, chunks chunk.1 listed⟩
      exact ⟨validated, check, rfl⟩
    refine ⟨distinct, ?_⟩
    obtain ⟨report, after, returned⟩ := run_succeeds sane writable
      (fun candidate _ => readable_iff.mpr fun key _ held =>
        absurd held (carries_nothing empty key))
      (fun candidate _ replaces => absurd (replacement_nothing empty candidate) replaces)
      fun candidate member _ => by
        have considered := (mem_newCandidates.mp member).1
        obtain ⟨-, check, unlinked⟩ := taken ((firsts_sublist [] _).subset considered)
        exact admissible_iff.mpr ⟨check, by simp [unlinked]⟩
    refine ⟨report, after, returned, fun file inTree text accepts chunk member => ?_⟩
    obtain ⟨place, inSource⟩ := (@mem_walked platform digest walker tree _).mpr
      ⟨file, inTree, text, accepts, chunk, member, rfl⟩
    obtain ⟨first, inConsidered, key⟩ := firsts_covers inSource rfl List.not_mem_nil
    have firstIn := (firsts_sublist [] _).subset inConsidered
    obtain ⟨other, otherIn, otherText, otherAccepts, otherChunk, otherMember, item⟩ :=
      mem_walked.mp ⟨first.2, firstIn⟩
    have same : walker.scopedItem platform digest file text chunk = first.1 :=
      (walked_unique distinct inTree accepts member otherIn otherAccepts otherMember
        (key.symm.trans (congrArg NewItem.externalId item))).trans item.symm
    have present : submitted platform first.1 ∈ contents after.database.tables := by
      rw [(run_into_empty sane empty returned).1]
      exact List.mem_map.mpr ⟨first, List.mem_filter.mpr ⟨inConsidered, (taken firstIn).1⟩, rfl⟩
    rw [← same] at present
    exact mem_contents_row present

end Runs

/-- Lowercasing ASCII makes no NUL. -/
theorem epochPlatform_lowers : LowersVisibly epochPlatform := by
  intro text plain
  rw [hasNul, List.any_eq_false] at plain ⊢
  intro char member nul
  change char ∈ (String.ofList (text.toList.map Char.toLower)).toList at member
  rw [String.toList_ofList] at member
  obtain ⟨letter, inText, rfl⟩ := List.mem_map.mp member
  have same := Scope.eq_of_toLower (of_decide_eq_true nul) (by decide)
  exact plain letter inText (decide_eq_true same)

/-- A file with a text, beneath the root. -/
def textFile (name text : String) : WalkedFile :=
  ⟨encodeUtf8 name.toList, .ok text.utf8ByteSize, .ok (encodeUtf8 text.toList)⟩

theorem noteRoot_legal : 0 ∉ encodeUtf8 "/notes".toList := by decide

/-- A walker that cuts texts after four bytes. -/
def noteWalker : DirectoryWalker :=
  ⟨encodeUtf8 "/notes".toList, defaultMaxFileBytes, 4, none, noteRoot_legal⟩

/-- A file of two chunks, and one of one. -/
def twoFiles : List WalkEntry := [.file (textFile "p" "aaaa\n\nbbbb"), .file (textFile "q.txt" "x")]

theorem twoFiles_distinct : ((WalkEntry.files twoFiles).map WalkedFile.rel).Nodup := by
  decide +kernel

theorem twoFiles_legal : ∀ file ∈ WalkEntry.files twoFiles, 0 ∉ file.rel := by decide +kernel

/-- A tree of both. -/
def twoFileTree : DirectoryTree := ⟨twoFiles, twoFiles_distinct, twoFiles_legal⟩

/-- Identifiers of a run over it are new. -/
theorem twoFileTree_sane : Sane epochPlatform (counting 100)
    (Store.database ⟨false, .fresh⟩).tables
    (noteWalker.source epochPlatform (fun _ => "00") twoFileTree) where
  alone := by decide +kernel
  batch := by decide +kernel
  apart := by decide +kernel
  unused := by
    unfold Unused
    decide +kernel
  unnamed := by decide +kernel

/-- The tree is stored whole. -/
theorem twoFileTree_stored :
    LosesNothing epochPlatform (fun _ => "00") noteWalker twoFileTree (counting 100)
      ⟨false, .fresh⟩ := by
  have accepted {file : WalkedFile} {text : String} (accepts : noteWalker.Accepts file text) :=
    DirectoryWalker.accepts_iff.mp accepts
  refine (loses_nothing_iff epochPlatform_lowers twoFileTree_sane rfl rfl).mpr ⟨⟨?_, ?_⟩, ?_⟩
  · intro file inTree text accepts other otherIn otherText otherAccepts
    have apart : ∀ file ∈ twoFileTree.files, ∀ text ∈ noteWalker.acceptedText file,
        ∀ other ∈ twoFileTree.files, ∀ otherText ∈ noteWalker.acceptedText other, file ≠ other →
          (noteWalker.chunkCount text = 1 ↔ noteWalker.chunkCount otherText = 1) →
            noteWalker.display file ≠ noteWalker.display other := by decide +kernel
    exact apart file inTree text (accepted accepts) other otherIn otherText (accepted otherAccepts)
  · intro file inTree text accepts one other otherIn otherText otherAccepts
    have apart : ∀ file ∈ twoFileTree.files, ∀ text ∈ noteWalker.acceptedText file,
        noteWalker.chunkCount text = 1 → ∀ other ∈ twoFileTree.files,
          ∀ otherText ∈ noteWalker.acceptedText other, noteWalker.chunkCount otherText ≠ 1 →
            ∀ index < noteWalker.chunkCount otherText,
              noteWalker.display file ≠ noteWalker.display other ++ "#" ++ toString index := by
      decide +kernel
    exact apart file inTree text (accepted accepts) one other otherIn otherText
      (accepted otherAccepts)
  · intro file inTree text accepts
    have fits : ∀ file ∈ twoFileTree.files, ∀ text ∈ noteWalker.acceptedText file,
        ∀ chunk ∈ chunkText text noteWalker.chunkBytes, chunk.utf8ByteSize ≤ maxContentBytes ∧
          chunk.toList.head? ≠ some (Char.ofNat 0) := by
      decide +kernel
    refine ⟨?_, fits file inTree text (accepted accepts)⟩
    unfold DirectoryWalker.RootFits
    decide +kernel

/-- A file of two chunks, and one that is named like the first of them. -/
def markedFiles : List WalkEntry :=
  [.file (textFile "p" "aaaa\n\nbbbb"), .file (textFile "p#0" "x")]

theorem markedFiles_distinct : ((WalkEntry.files markedFiles).map WalkedFile.rel).Nodup := by
  decide +kernel

theorem markedFiles_legal : ∀ file ∈ WalkEntry.files markedFiles, 0 ∉ file.rel := by decide +kernel

/-- A tree of both. -/
def markedTree : DirectoryTree := ⟨markedFiles, markedFiles_distinct, markedFiles_legal⟩

/-- **The file that is named like a chunk is lost**: the run tells of two items and of one that
was skipped, and the text of the second file is not in the store. -/
theorem marked_file_is_lost :
    (exec (ingestSource epochPlatform (counting 100)
      (noteWalker.source epochPlatform (fun _ => "00") markedTree) false) ⟨false, .fresh⟩).1 =
        .ok ⟨2, 1, 0, 0⟩ ∧
      ¬ LosesNothing epochPlatform (fun _ => "00") noteWalker markedTree (counting 100)
        ⟨false, .fresh⟩ := by
  constructor
  · decide +kernel
  · rintro ⟨distinct, -⟩
    have chunked : noteWalker.Accepts (textFile "p" "aaaa\n\nbbbb") "aaaa\n\nbbbb" :=
      DirectoryWalker.accepts_iff.mpr (by decide +kernel)
    have named : noteWalker.Accepts (textFile "p#0" "x") "x" :=
      DirectoryWalker.accepts_iff.mpr (by decide +kernel)
    obtain ⟨same, -⟩ := distinct _ List.mem_cons_self _ chunked 0 chunked.count _
      (List.mem_cons_of_mem _ List.mem_cons_self) _ named 0 named.count (by decide +kernel)
    exact absurd same (by decide +kernel)

end Singularmem.Ingest
