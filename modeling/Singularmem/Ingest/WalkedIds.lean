import Singularmem.Core.ScopeForms
import Singularmem.Ingest.ChunkBounds
import Singularmem.Ingest.Isolation
import Singularmem.Ingest.Walker
import Singularmem.Library.Delimited

/-!
# The ids of walked files

The `external_id` of a chunk is the shown path of its file, followed by the number of the chunk
where the file has several. Two chunks have one id where two paths are shown alike, or where a
file of one chunk is named like a chunk of another file. Apart from ids, validation refuses the
item of a chunk only for a long root or a long chunk.
-/

namespace Singularmem.Ingest

open Library Singularmem.Core
open Effect hiding ofExcept

variable {platform : Platform} {digest : String → String} {walker : DirectoryWalker}
  {tree : DirectoryTree}

section Ids

/-- Digits hold no mark. -/
theorem mark_notMem_toString (number : Nat) : '#' ∉ (toString number).toList := by
  rw [Nat.toString_eq_repr, Nat.toList_repr]
  intro member
  exact absurd (Nat.isDigit_of_mem_toDigits (by decide) (by decide) member) (by decide)

/-- Numbers have different digits. -/
theorem toString_injective {first second : Nat} (same : toString first = toString second) :
    first = second := by
  have digits : Nat.toDigits 10 first = Nat.toDigits 10 second := by
    rw [← Nat.toList_repr, ← Nat.toList_repr, ← Nat.toString_eq_repr, ← Nat.toString_eq_repr, same]
  have value := congrArg (fun digits => Nat.ofDigitChars 10 digits 0) digits
  rwa [Nat.ofDigitChars_ten_toDigits, Nat.ofDigitChars_ten_toDigits] at value

/-- A path and a number after a mark are told apart. -/
theorem marked_inj {path other : String} {first second : Nat} :
    path ++ "#" ++ toString first = other ++ "#" ++ toString second ↔
      path = other ∧ first = second := by
  have letters (path : String) (number : Nat) : (path ++ "#" ++ toString number).toList =
      path.toList ++ '#' :: (toString number).toList := by
    simp
  rw [← String.toList_inj, letters, letters,
    mark_append_inj (mark_notMem_toString first) (mark_notMem_toString second), String.toList_inj,
    String.toList_inj]
  refine and_congr_right fun _ => ⟨toString_injective, ?_⟩
  rintro rfl
  rfl

/-- **Which chunks share an id**: chunks of several, of paths that are shown alike and with one
number; files of one chunk that are shown alike; and a file of one chunk that is shown as a
chunk of several. -/
theorem externalIdOf_inj {path other : String} {count otherCount first second : Nat} :
    DirectoryWalker.externalIdOf path count first =
        DirectoryWalker.externalIdOf other otherCount second ↔
      if count = 1 then
        if otherCount = 1 then path = other else path = other ++ "#" ++ toString second
      else if otherCount = 1 then path ++ "#" ++ toString first = other
      else path = other ∧ first = second := by
  have cancel {text more : String} : "file:" ++ text = "file:" ++ more ↔ text = more := by
    rw [← String.toList_inj, String.toList_append, String.toList_append,
      List.append_cancel_left_eq, String.toList_inj]
  simp only [DirectoryWalker.externalIdOf, String.append_assoc]
  split
  · split
    · exact cancel
    · exact cancel
  · split
    · exact cancel
    · rw [cancel, ← String.append_assoc, ← String.append_assoc, marked_inj]

end Ids

section Items

/-- A file is accepted with its text: it is not filtered, has something but whitespace, and its
path fits an id. -/
structure DirectoryWalker.Accepts (walker : DirectoryWalker) (file : WalkedFile) (text : String) :
    Prop where
  read : walker.readText file = .ok (some text)
  some : chunkText text walker.chunkBytes ≠ []
  short : DirectoryWalker.longestIdLength (walker.display file)
    (chunkText text walker.chunkBytes).length ≤ maxExternalIdBytes

/-- A file is accepted with one text. -/
theorem DirectoryWalker.Accepts.unique {file : WalkedFile} {text other : String}
    (accepts : walker.Accepts file text) (again : walker.Accepts file other) : text = other := by
  have same := accepts.read.symm.trans again.read
  cases same
  rfl

/-- The text of a file that is accepted. -/
def DirectoryWalker.acceptedText (walker : DirectoryWalker) (file : WalkedFile) : Option String :=
  (walker.readText file).toOption.join.filter fun text =>
    chunkText text walker.chunkBytes ≠ [] ∧ DirectoryWalker.longestIdLength (walker.display file)
      (chunkText text walker.chunkBytes).length ≤ maxExternalIdBytes

theorem DirectoryWalker.accepts_iff {file : WalkedFile} {text : String} :
    walker.Accepts file text ↔ text ∈ walker.acceptedText file := by
  rw [DirectoryWalker.acceptedText, Option.mem_def, Option.filter_eq_some_iff, decide_eq_true_iff]
  constructor
  · rintro ⟨read, some, short⟩
    rw [read]
    exact ⟨rfl, some, short⟩
  · rintro ⟨read, some, short⟩
    refine ⟨?_, some, short⟩
    cases outcome : walker.readText file with
    | error error =>
      rw [outcome] at read
      cases read
    | ok found =>
      rw [outcome] at read
      exact congrArg Except.ok read

/-- **The items of a file** are those of the chunks of an accepted one. -/
theorem fileToItems_iff {file : WalkedFile} {items : List NewItem} :
    walker.fileToItems platform digest file = .ok (some items) ↔
      ∃ text, walker.Accepts file text ∧ items = (chunkText text walker.chunkBytes).zipIdx.map
        (walker.chunkItem platform digest file text (chunkText text walker.chunkBytes).length) := by
  constructor
  · intro returned
    obtain ⟨_ | text, read, returned⟩ := except_bind_returned returned
    · cases returned
    · dsimp only at returned
      split at returned
      case isTrue => cases returned
      case isFalse some =>
        split at returned
        case isTrue => cases returned
        case isFalse short =>
          cases returned
          exact ⟨text, ⟨read, some, Nat.not_lt.mp short⟩, rfl⟩
  · rintro ⟨text, accepts, rfl⟩
    rw [DirectoryWalker.fileToItems, accepts.read]
    change (if chunkText text walker.chunkBytes = [] then _ else _) = _
    rw [if_neg accepts.some]
    rw [if_neg (Nat.not_lt.mpr accepts.short)]
    rfl

/-- The item of a chunk of an accepted file, in the scope of the walker. -/
def DirectoryWalker.scopedItem (platform : Platform) (digest : String → String)
    (walker : DirectoryWalker) (file : WalkedFile) (text : String) (chunk : String × Nat) :
    NewItem :=
  { walker.chunkItem platform digest file text (chunkText text walker.chunkBytes).length chunk with
    scope := walker.defaultScope platform }

/-- What the entries of a file yield. -/
theorem mem_entryItems {file : WalkedFile} {item : NewItem} :
    .ok item ∈ walker.entryItems platform digest (.file file) ↔ ∃ text, walker.Accepts file text ∧
      ∃ chunk ∈ (chunkText text walker.chunkBytes).zipIdx, item =
        walker.chunkItem platform digest file text (chunkText text walker.chunkBytes).length
          chunk := by
  have found := @fileToItems_iff platform digest walker file
  rw [DirectoryWalker.entryItems]
  split
  case h_1 error failed =>
    simp only [List.mem_singleton, reduceCtorEq, false_iff]
    rintro ⟨text, accepts, _⟩
    have returned := found.mpr ⟨text, accepts, rfl⟩
    rw [failed] at returned
    cases returned
  case h_2 items returned =>
    cases items with
    | none =>
      simp only [Option.getD_none, List.map_nil, List.not_mem_nil, false_iff]
      rintro ⟨text, accepts, _⟩
      have taken := found.mpr ⟨text, accepts, rfl⟩
      rw [returned] at taken
      cases taken
    | some items =>
      obtain ⟨text, accepts, rfl⟩ := found.mp returned
      simp only [Option.getD_some, List.mem_map, Except.ok.injEq]
      constructor
      · rintro ⟨_, ⟨chunk, member, rfl⟩, rfl⟩
        exact ⟨text, accepts, chunk, member, rfl⟩
      · rintro ⟨other, again, chunk, member, rfl⟩
        obtain rfl := accepts.unique again
        exact ⟨_, ⟨chunk, member, rfl⟩, rfl⟩

/-- The files of a tree are those of its entries. -/
theorem mem_files {file : WalkedFile} : file ∈ tree.files ↔ .file file ∈ tree.entries := by
  rw [DirectoryTree.files, WalkEntry.files, List.mem_filterMap]
  constructor
  · rintro ⟨entry, member, same⟩
    cases entry with
    | failed message => cases same
    | other => cases same
    | file found =>
      cases same
      exact member
  · intro member
    exact ⟨_, member, rfl⟩

/-- **The candidates** of a walk are the chunks of its accepted files. -/
theorem mem_walked {item : NewItem} :
    (∃ place, (item, place) ∈ candidates (walker.source platform digest tree)) ↔
      ∃ file ∈ tree.files, ∃ text, walker.Accepts file text ∧
        ∃ chunk ∈ (chunkText text walker.chunkBytes).zipIdx,
          item = walker.scopedItem platform digest file text chunk := by
  have placed {items : List NewItem} : (∃ place, (item, place) ∈ items.zipIdx) ↔ item ∈ items := by
    constructor
    · rintro ⟨place, member⟩
      have first := List.mem_map_of_mem (f := Prod.fst) member
      rwa [List.zipIdx_map_fst] at first
    · intro member
      rw [← List.zipIdx_map_fst 0 items] at member
      obtain ⟨⟨_, place⟩, inside, rfl⟩ := List.mem_map.mp member
      exact ⟨place, inside⟩
  rw [candidates, placed, List.mem_filterMap]
  constructor
  · rintro ⟨yielded, member, given⟩
    cases yielded with
    | error => cases given
    | ok raw =>
      cases given
      obtain ⟨entry, inTree, inside⟩ := List.mem_flatMap.mp member
      cases entry with
      | failed message => simp [DirectoryWalker.entryItems] at inside
      | other => cases inside
      | file file =>
        obtain ⟨text, accepts, chunk, inChunks, rfl⟩ := mem_entryItems.mp inside
        exact ⟨file, mem_files.mpr inTree, text, accepts, chunk, inChunks, rfl⟩
  · rintro ⟨file, inTree, text, accepts, chunk, inChunks, rfl⟩
    refine ⟨.ok (walker.chunkItem platform digest file text _ chunk), ?_, rfl⟩
    exact List.mem_flatMap.mpr ⟨_, mem_files.mp inTree,
      mem_entryItems.mpr ⟨text, accepts, chunk, inChunks, rfl⟩⟩

end Items

section Validity

/-- Lowercasing makes no NUL. -/
def LowersVisibly (platform : Platform) : Prop :=
  ∀ text, hasNul text = false → hasNul (platform.toLowercase text) = false

@[simp] theorem hasNul_append (front back : String) :
    hasNul (front ++ back) = (hasNul front || hasNul back) := by
  simp [hasNul]

/-- A path without NUL is shown without NUL. -/
theorem OsPath.toStringLossy_noNul {path : OsPath} (plain : 0 ∉ path) :
    hasNul path.toStringLossy = false := by
  rw [hasNul, OsPath.toStringLossy, String.toList_ofList, List.any_eq_false]
  intro char member nul
  rw [decide_eq_true_eq] at nul
  exact lossyFrom_noNul plain (nul ▸ member)

/-- Paths of a walk hold no NUL. -/
theorem OsPath.join_noNul {root rel : OsPath} (rootPlain : 0 ∉ root) (plain : 0 ∉ rel) :
    0 ∉ root.join rel := by
  rw [OsPath.join]
  split
  · simp [rootPlain, plain]
  · simp [rootPlain, plain, OsPath.slash]

/-- Neither do extensions. -/
theorem OsPath.extension_noNul {path ending : OsPath} (plain : 0 ∉ path)
    (ends : path.extension = some ending) : 0 ∉ ending := by
  obtain ⟨name, named, ends⟩ := Option.bind_eq_some_iff.mp ends
  have part : name <:+ path := by
    rw [OsPath.fileName] at named
    split at named
    case isTrue => cases named
    case isFalse =>
      cases named
      exact List.rtakeWhile_suffix _ _
  dsimp only at ends
  split at ends
  case isTrue =>
    cases ends
    exact fun member => plain (part.subset ((List.rtakeWhile_suffix _ _).subset member))
  case isFalse => cases ends

/-- Digits take one byte each. -/
theorem toString_utf8ByteSize (number : Nat) :
    (toString number).utf8ByteSize = (Nat.toDigits 10 number).length := by
  have small : ∀ char ∈ Nat.toDigits 10 number, char.utf8Size = 1 := by
    intro char member
    apply Scope.isScopeChar_size
    simp [isScopeChar, Nat.isDigit_of_mem_toDigits (by decide) (by decide) member]
  rw [Nat.toString_eq_ofList_toDigits, utf8ByteSize_ofList small]

theorem toString_noNul (number : Nat) : hasNul (toString number) = false := by
  rw [hasNul, List.any_eq_false, Nat.toString_eq_repr, Nat.toList_repr]
  intro char member nul
  rw [decide_eq_true_eq] at nul
  rw [nul] at member
  exact absurd (Nat.isDigit_of_mem_toDigits (by decide) (by decide) member) (by decide)

/-- A smaller number has no more digits. -/
theorem toString_mono {first second : Nat} (below : first ≤ second) :
    (toString first).utf8ByteSize ≤ (toString second).utf8ByteSize := by
  have bound := (Nat.length_toDigits_le_iff (b := 10) (by decide) Nat.length_toDigits_pos).mp
    (Nat.le_refl (Nat.toDigits 10 second).length)
  rw [toString_utf8ByteSize, toString_utf8ByteSize]
  exact (Nat.length_toDigits_le_iff (by decide) Nat.length_toDigits_pos).mpr (below.trans_lt bound)

/-- No id of a file is longer than its longest. -/
theorem externalIdOf_utf8ByteSize {path : String} {count index : Nat} (within : index < count) :
    (DirectoryWalker.externalIdOf path count index).utf8ByteSize ≤
      DirectoryWalker.longestIdLength path count := by
  rw [DirectoryWalker.externalIdOf, DirectoryWalker.longestIdLength]
  split
  · rw [String.utf8ByteSize_append]
  · have digits := toString_mono (Nat.le_sub_one_of_lt within)
    have mark : "#".utf8ByteSize = 1 := by decide
    rw [String.utf8ByteSize_append, String.utf8ByteSize_append, String.utf8ByteSize_append, mark]
    omega

variable {file : WalkedFile} {text : String}

/-- The tags of a file are valid. -/
theorem tags_valid (lowers : LowersVisibly platform) (inTree : file ∈ tree.files) :
    ∃ normalised, normaliseTags (walker.tags platform file) = .ok normalised := by
  have valid {tag : String} (some : tag ≠ "") (short : tag.utf8ByteSize ≤ maxTagBytes)
      (plain : hasNul tag = false) : ∃ value, validateTag tag = .ok value := by
    refine ⟨tag, ?_⟩
    rw [validateTag, if_neg some, if_neg (Nat.not_lt.mpr short), plain]
    rfl
  obtain ⟨normalised, traversed⟩ : ∃ normalised,
      (walker.tags platform file).mapM validateTag = .ok normalised := by
    refine mapM_succeeds fun tag member => ?_
    rw [DirectoryWalker.tags, List.mem_insertionSort, List.mem_append] at member
    rcases member with kind | extended
    · rw [List.mem_singleton.mp kind]
      exact valid (by decide) (by decide) (by decide)
    · obtain ⟨lowered, fits, rfl⟩ := List.mem_map.mp extended
      rw [Option.mem_toList, Option.filter_eq_some_iff] at fits
      obtain ⟨named, short⟩ := fits
      obtain ⟨ending, ends, rfl⟩ := Option.map_eq_some_iff.mp named
      refine valid ?_ ?_ ?_
      · simp [← String.toList_inj]
      · rw [String.utf8ByteSize_append]
        exact of_decide_eq_true short
      · rw [hasNul_append, lowers _ (OsPath.toStringLossy_noNul (OsPath.extension_noNul
          (OsPath.join_noNul walker.legal (tree.legal file inTree)) ends))]
        decide
  exact ⟨_, by rw [normaliseTags, traversed]; rfl⟩

/-- The scope of a walker is valid. -/
theorem scope_valid : ∃ scope,
    (walker.defaultScope platform).mapM (Scope.validate platform) = .ok scope := by
  have again {raw : String} {scope : String}
      (validated : (Scope.validate platform raw).toOption = some scope) :
      Scope.validate platform scope = .ok scope := by
    cases returned : Scope.validate platform raw with
    | error error =>
      rw [returned] at validated
      cases validated
    | ok value =>
      rw [returned] at validated
      cases validated
      exact Scope.validate_again returned
  cases chosen : walker.defaultScope platform with
  | none => exact ⟨none, rfl⟩
  | some scope =>
    have valid : Scope.validate platform scope = .ok scope := by
      rw [DirectoryWalker.defaultScope, Option.or_eq_some_iff] at chosen
      rcases chosen with given | ⟨-, derived⟩
      · obtain ⟨raw, -, validated⟩ := Option.bind_eq_some_iff.mp given
        exact again validated
      · obtain ⟨_, -, derived⟩ := Option.bind_eq_some_iff.mp derived
        obtain ⟨_, -, validated⟩ := Option.bind_eq_some_iff.mp derived
        exact again validated
    refine ⟨some scope, ?_⟩
    change (some <$> Scope.validate platform scope : Except Error (Option String)) = _
    rw [valid]
    rfl

/-- The store can take a chunk: it is within the cap, and the database sees that it is not
empty. -/
def ChunkFits (chunk : String) : Prop :=
  chunk.utf8ByteSize ≤ maxContentBytes ∧ chunk.toList.head? ≠ some (Char.ofNat 0)

/-- The root fits the source label of an item. -/
def DirectoryWalker.RootFits (walker : DirectoryWalker) : Prop :=
  ("dir:" ++ walker.root.toStringLossy).utf8ByteSize ≤ maxSourceBytes

/-- The `external_id` of a chunk is valid. -/
theorem externalId_valid (inTree : file ∈ tree.files) (accepts : walker.Accepts file text)
    {index : Nat} (within : index < (chunkText text walker.chunkBytes).length) :
    validateExternalId (some (DirectoryWalker.externalIdOf (walker.display file)
      (chunkText text walker.chunkBytes).length index)) = .ok () := by
  have shown : hasNul (walker.display file) = false :=
    OsPath.toStringLossy_noNul (OsPath.join_noNul walker.legal (tree.legal file inTree))
  have short := (externalIdOf_utf8ByteSize within).trans accepts.short
  have plain : hasNul (DirectoryWalker.externalIdOf (walker.display file)
      (chunkText text walker.chunkBytes).length index) = false := by
    have start : hasNul "file:" = false := by decide
    have mark : hasNul "#" = false := by decide
    rw [DirectoryWalker.externalIdOf]
    split <;> simp only [hasNul_append, shown, toString_noNul, start, mark, Bool.or_false]
  have some : DirectoryWalker.externalIdOf (walker.display file)
      (chunkText text walker.chunkBytes).length index ≠ "" := by
    rw [DirectoryWalker.externalIdOf, ← String.toList_inj.ne]
    split <;> simp
  rw [validateExternalId, if_neg some, if_neg (Nat.not_lt.mpr short), plain]
  rfl

/-- **When the store takes the item of a chunk.** -/
theorem scopedItem_taken_iff (lowers : LowersVisibly platform) (inTree : file ∈ tree.files)
    (accepts : walker.Accepts file text) {chunk : String × Nat}
    (member : chunk ∈ (chunkText text walker.chunkBytes).zipIdx) :
    (valid platform (walker.scopedItem platform digest file text chunk) ∧
        (walker.scopedItem platform digest file text chunk).passesCheck) ↔
      walker.RootFits ∧ ChunkFits chunk.1 := by
  have listed : chunk.1 ∈ chunkText text walker.chunkBytes := by
    have first := List.mem_map_of_mem (f := Prod.fst) member
    rwa [List.zipIdx_map_fst] at first
  have within : chunk.2 < (chunkText text walker.chunkBytes).length := by
    have placed := List.mem_zipIdx' member
    exact placed.1
  have nonempty : chunk.1 ≠ "" := by
    have isChunk := chunkText_isChunk text walker.chunkBytes chunk.1 listed
    exact fun empty => isChunk.nonempty (by rw [empty]; rfl)
  constructor
  · rintro ⟨validated, check⟩
    obtain ⟨normal, accepted⟩ := valid_iff.mp validated
    have stored := ((passesCheck_iff accepted).mp check).1
    obtain ⟨_, content, rest⟩ := except_bind_returned accepted
    obtain ⟨_, label, _⟩ := except_bind_returned rest
    refine ⟨?_, (validateContent_ok content).2, stored⟩
    by_contra long
    change validateSource (some ("dir:" ++ walker.root.toStringLossy)) = _ at label
    rw [validateSource, if_pos (Nat.not_le.mp long)] at label
    cases label
  · rintro ⟨rootFits, short, seen⟩
    obtain ⟨normalised, tagged⟩ := @tags_valid platform walker tree file lowers inTree
    obtain ⟨scope, inScope⟩ := @scope_valid platform walker
    have content : validateContent chunk.1 = .ok () := by
      rw [validateContent, if_neg nonempty, if_neg (Nat.not_lt.mpr short)]
    have label : validateSource (some ("dir:" ++ walker.root.toStringLossy)) = .ok () := by
      rw [validateSource, if_neg (Nat.not_lt.mpr rootFits)]
    have accepted : validate platform (walker.scopedItem platform digest file text chunk) =
        .ok ⟨normalised, scope⟩ := by
      simp only [validate, DirectoryWalker.scopedItem, DirectoryWalker.chunkItem, content, label,
        externalId_valid inTree accepts within, tagged, inScope]
      rfl
    refine ⟨valid_iff.mpr ⟨_, accepted⟩, (passesCheck_iff accepted).mpr ⟨seen, ?_⟩⟩
    simp [DirectoryWalker.scopedItem, DirectoryWalker.chunkItem, Json.depth, Json.depthMembers]

end Validity

section Distinct

namespace DirectoryWalker

/-- How many chunks a text has. -/
def chunkCount (walker : DirectoryWalker) (text : String) : Nat :=
  (chunkText text walker.chunkBytes).length

/-- The ids of a walk tell the chunks of its accepted files apart. -/
def Distinct (walker : DirectoryWalker) (tree : DirectoryTree) : Prop :=
  ∀ file ∈ tree.files, ∀ text, walker.Accepts file text → ∀ index < walker.chunkCount text,
    ∀ other ∈ tree.files, ∀ otherText, walker.Accepts other otherText →
      ∀ place < walker.chunkCount otherText,
        externalIdOf (walker.display file) (walker.chunkCount text) index =
            externalIdOf (walker.display other) (walker.chunkCount otherText) place →
          file = other ∧ index = place

/-- Accepted files that both have one chunk, or both have several, are not shown alike, and no
file of one chunk is shown as a chunk of another file. -/
structure Separated (walker : DirectoryWalker) (tree : DirectoryTree) : Prop where
  alike : ∀ file ∈ tree.files, ∀ text, walker.Accepts file text →
    ∀ other ∈ tree.files, ∀ otherText, walker.Accepts other otherText → file ≠ other →
      (walker.chunkCount text = 1 ↔ walker.chunkCount otherText = 1) →
        walker.display file ≠ walker.display other
  numbered : ∀ file ∈ tree.files, ∀ text, walker.Accepts file text → walker.chunkCount text = 1 →
    ∀ other ∈ tree.files, ∀ otherText, walker.Accepts other otherText →
      walker.chunkCount otherText ≠ 1 → ∀ index < walker.chunkCount otherText,
        walker.display file ≠ walker.display other ++ "#" ++ toString index

/-- An accepted file has a chunk. -/
theorem Accepts.count {file : WalkedFile} {text : String} (accepts : walker.Accepts file text) :
    0 < walker.chunkCount text :=
  List.length_pos_iff.mpr accepts.some

/-- **The ids are distinct** exactly where the files are separated. -/
theorem distinct_iff : walker.Distinct tree ↔ walker.Separated tree := by
  constructor
  · intro distinct
    constructor
    · intro file inTree text accepts other otherIn otherText otherAccepts different alike shown
      refine different (distinct file inTree text accepts 0 accepts.count other otherIn otherText
        otherAccepts 0 otherAccepts.count (externalIdOf_inj.mpr ?_)).1
      split
      case isTrue one =>
        rw [if_pos (alike.mp one)]
        exact shown
      case isFalse several =>
        rw [if_neg (fun one => several (alike.mpr one))]
        exact ⟨shown, rfl⟩
    · intro file inTree text accepts one other otherIn otherText otherAccepts several index within
        shown
      obtain ⟨rfl, -⟩ := distinct file inTree text accepts 0 accepts.count other otherIn otherText
        otherAccepts index within
        (externalIdOf_inj.mpr (by rw [if_pos one, if_neg several]; exact shown))
      obtain rfl := accepts.unique otherAccepts
      exact several one
  · intro separated file inTree text accepts index within other otherIn otherText otherAccepts place
      placed same
    by_cases sameFile : file = other
    · subst sameFile
      obtain rfl := accepts.unique otherAccepts
      refine ⟨rfl, ?_⟩
      have told := externalIdOf_inj.mp same
      split at told
      case isTrue one => omega
      case isFalse => exact told.2
    · have told := externalIdOf_inj.mp same
      have apart := separated.alike file inTree text accepts other otherIn otherText otherAccepts
        sameFile
      split at told
      case isTrue one =>
        split at told
        case isTrue otherOne => exact absurd told (apart ⟨fun _ => otherOne, fun _ => one⟩)
        case isFalse several =>
          exact absurd told (separated.numbered file inTree text accepts one other otherIn
            otherText otherAccepts several place placed)
      case isFalse several =>
        split at told
        case isTrue otherOne =>
          exact absurd told.symm (separated.numbered other otherIn otherText otherAccepts otherOne
            file inTree text accepts several index within)
        case isFalse otherSeveral =>
          exact absurd told.1 (apart ⟨fun one => absurd one several,
            fun one => absurd one otherSeveral⟩)

end DirectoryWalker

end Distinct

end Singularmem.Ingest
