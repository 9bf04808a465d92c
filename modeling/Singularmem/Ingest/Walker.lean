import Mathlib.Data.List.DropRight
import Singularmem.Ingest.Chunk
import Singularmem.Ingest.Driver
import Singularmem.Ingest.TornLines

/-!
# The directory walker

A walk yields one item for each chunk of each text file. Files that are large, binary or
blank are filtered, and a file whose path does not fit an `external_id` is refused. Paths are
bytes; they are shown as text, where what is not UTF-8 is replaced. The walk itself and the
digest are parameters.
-/

namespace Singularmem.Ingest

open Library Singularmem.Core

/-- A byte that continues a character. -/
def isContinuation (byte : UInt8) : Bool := 0x80 ≤ byte && byte ≤ 0xBF

/-- A second byte that may follow the first one of a character of three bytes or four. -/
def secondAllowed (first second : UInt8) : Bool :=
  if first = 0xE0 then 0xA0 ≤ second && second ≤ 0xBF
  else if first = 0xED then 0x80 ≤ second && second ≤ 0x9F
  else if first = 0xF0 then 0x90 ≤ second && second ≤ 0xBF
  else if first = 0xF4 then 0x80 ≤ second && second ≤ 0x8F
  else 0xE0 ≤ first && first ≤ 0xF4 && isContinuation second

/-- How many bytes one replacement character stands for. -/
def brokenLength : List UInt8 → Nat
  | first :: second :: rest =>
    if secondAllowed first second then
      if 0xF0 ≤ first && rest.head?.any isContinuation then 3 else 2
    else 1
  | _ => 1

/-- Decode UTF-8 in so many rounds, and replace what is none. -/
def lossyFrom : Nat → List UInt8 → List Char
  | 0, _ => []
  | _ + 1, [] => []
  | rounds + 1, bytes =>
    match ByteArray.utf8DecodeChar? ⟨bytes.toArray⟩ 0 with
    | some char => char :: lossyFrom rounds (bytes.drop char.utf8Size)
    | none => Char.ofNat 0xFFFD :: lossyFrom rounds (bytes.drop (brokenLength bytes))

/-- A decoded character stands for its bytes. -/
theorem decoded_bytes {bytes : List UInt8} {char : Char}
    (decoded : ByteArray.utf8DecodeChar? ⟨bytes.toArray⟩ 0 = some char) :
    String.utf8EncodeChar char <+: bytes := by
  obtain ⟨rest, same⟩ := ByteArray.exists_of_utf8DecodeChar?_eq_some decoded
  refine ⟨rest.data.toList, ?_⟩
  have listed := congrArg (fun bytes => bytes.data.toList) same
  simpa using listed.symm

/-- Decoding makes no NUL of other bytes. -/
theorem lossyFrom_noNul {rounds : Nat} {bytes : List UInt8} (plain : 0 ∉ bytes) :
    Char.ofNat 0 ∉ lossyFrom rounds bytes := by
  induction rounds generalizing bytes with
  | zero => exact List.not_mem_nil
  | succ rounds inductionHypothesis =>
    cases bytes with
    | nil => exact List.not_mem_nil
    | cons first others =>
      rw [lossyFrom]
      · have later (count : Nat) := @inductionHypothesis ((first :: others).drop count)
          fun member => plain (List.mem_of_mem_drop member)
        split
        case h_1 char decoded =>
          rw [List.mem_cons, not_or]
          refine ⟨?_, later char.utf8Size⟩
          rintro rfl
          exact plain ((decoded_bytes decoded).subset (by decide))
        case h_2 =>
          rw [List.mem_cons, not_or]
          exact ⟨by decide, later _⟩
      · exact List.cons_ne_nil first others

/-- **UTF-8 is shown as it is.** -/
theorem lossyFrom_encodeUtf8 {rounds : Nat} {text : List Char}
    (enough : (encodeUtf8 text).length ≤ rounds) : lossyFrom rounds (encodeUtf8 text) = text := by
  induction text generalizing rounds with
  | nil => cases rounds <;> rfl
  | cons char rest inductionHypothesis =>
    have whole : encodeUtf8 (char :: rest) = String.utf8EncodeChar char ++ encodeUtf8 rest := by
      simp [encodeUtf8]
    have size := String.length_utf8EncodeChar char
    have positive := char.utf8Size_pos
    rw [whole, List.length_append, size] at enough
    obtain ⟨fewer, rfl⟩ : ∃ fewer, rounds = fewer + 1 := ⟨rounds - 1, by omega⟩
    have decoded : ByteArray.utf8DecodeChar?
        ⟨(String.utf8EncodeChar char ++ encodeUtf8 rest).toArray⟩ 0 = some char := by
      have joined : (⟨(String.utf8EncodeChar char ++ encodeUtf8 rest).toArray⟩ : ByteArray) =
          (String.utf8EncodeChar char).toByteArray ++ (encodeUtf8 rest).toByteArray := by
        apply ByteArray.ext
        simp
      rw [joined, ByteArray.utf8DecodeChar?_utf8EncodeChar_append]
    rw [whole, lossyFrom, decoded]
    · dsimp only
      rw [← size, List.drop_left, inductionHypothesis (by omega)]
    · intro empty
      rw [List.append_eq_nil_iff] at empty
      rw [empty.1, List.length_nil] at size
      omega

/-- A path of the operating system: bytes. -/
abbrev OsPath := List UInt8

namespace OsPath

/-- The text of a path, the source's `to_string_lossy` and `display`. -/
def toStringLossy (path : OsPath) : String := String.ofList (lossyFrom path.length path)

/-- The separator of paths. -/
def slash : UInt8 := 47

/-- A path beneath another. -/
def join (root rel : OsPath) : OsPath :=
  if root.getLast? = some slash then root ++ rel else root ++ slash :: rel

/-- The last component of a path. -/
def fileName (path : OsPath) : Option OsPath :=
  let name := path.rtakeWhile (· ≠ slash)
  if name = [] then none else some name

/-- What follows the last dot of the last component, unless nothing is before it. -/
def extension (path : OsPath) : Option OsPath := do
  let name ← fileName path
  let ending := name.rtakeWhile (· ≠ 46)
  if ending.length + 1 < name.length then some ending else none

end OsPath

/-- A regular file of a walk: its path beneath the root, and what asking for its size and
reading it give. -/
structure WalkedFile where
  rel : OsPath
  size : Except String Nat
  bytes : Except String (List UInt8)
deriving DecidableEq

/-- What the walk yields, in the order of paths. -/
inductive WalkEntry
  | failed (message : String)
  /-- A directory, a link or a special file. -/
  | other
  | file (file : WalkedFile)

/-- The files of a walk. -/
def WalkEntry.files (entries : List WalkEntry) : List WalkedFile :=
  entries.filterMap fun entry =>
    match entry with
    | .file found => some found
    | _ => none

/-- A walk of a directory tree: no path comes twice, and none holds a NUL. -/
structure DirectoryTree where
  entries : List WalkEntry
  distinct : ((WalkEntry.files entries).map WalkedFile.rel).Nodup
  legal : ∀ file ∈ WalkEntry.files entries, 0 ∉ file.rel

/-- The files of a tree. -/
def DirectoryTree.files (tree : DirectoryTree) : List WalkedFile := WalkEntry.files tree.entries

/-- The default size cap of files. -/
def defaultMaxFileBytes : Nat := 1048576

/-- A walker, with its canonical root. -/
structure DirectoryWalker where
  root : OsPath
  /-- Larger files are filtered. -/
  maxFileBytes : Nat
  /-- The cap of chunks. -/
  chunkBytes : Nat
  /-- The scope that wins over the derived one. -/
  scopeOverride : Option String
  legal : 0 ∉ root

namespace DirectoryWalker

variable (platform : Platform) (digest : String → String) (walker : DirectoryWalker)

/-- The scope after the name of the root. -/
def computeDerivedScope : Option String := do
  let base ← walker.root.fileName
  let base ← String.fromUTF8? ⟨base.toArray⟩
  (Scope.validate platform ("files/" ++ base)).toOption

/-- The scope of items: the override where it is valid. -/
def defaultScope : Option String :=
  ((walker.scopeOverride.bind fun scope => (Scope.validate platform scope).toOption)).or
    (walker.computeDerivedScope platform)

/-- The absolute path of a file, as it is shown. -/
def display (file : WalkedFile) : String := (walker.root.join file.rel).toStringLossy

/-- The text of a file, unless it is filtered. -/
def readText (file : WalkedFile) : Except String (Option String) := do
  let size ← file.size
  if size > walker.maxFileBytes then return none
  let bytes ← file.bytes
  if 0 ∈ bytes.take 8192 then return none
  return String.fromUTF8? ⟨bytes.toArray⟩

/-- The `external_id` of a chunk of a path. -/
def externalIdOf (path : String) (chunkCount index : Nat) : String :=
  if chunkCount = 1 then "file:" ++ path else "file:" ++ path ++ "#" ++ toString index

/-- The bytes of the longest `external_id` of a file. -/
def longestIdLength (path : String) (chunkCount : Nat) : Nat :=
  if chunkCount = 1 then "file:".utf8ByteSize + path.utf8ByteSize
  else "file:".utf8ByteSize + path.utf8ByteSize + 1 + (toString (chunkCount - 1)).utf8ByteSize

/-- The tags of a file. An extension too long for a tag is dropped. -/
def tags (file : WalkedFile) : List String :=
  let ext := (walker.root.join file.rel).extension.map fun ext =>
    platform.toLowercase ext.toStringLossy
  let fitting := ext.filter fun ext => "ext:".utf8ByteSize + ext.utf8ByteSize ≤ maxTagBytes
  (["file"] ++ fitting.toList.map ("ext:" ++ ·)).insertionSort (· ≤ ·)

/-- A relative path with forward slashes. -/
def forwardSlashes (path : String) : String :=
  String.ofList (path.toList.map fun char => if char = '\\' then '/' else char)

/-- The item of a chunk. -/
def chunkItem (file : WalkedFile) (text : String) (chunkCount : Nat) (chunk : String × Nat) :
    NewItem :=
  let path := walker.display file
  { content := chunk.1
    supersedes := none
    tags := walker.tags platform file
    source := some ("dir:" ++ walker.root.toStringLossy)
    metadata := .object [("path", .string path),
      ("rel_path", .string (forwardSlashes file.rel.toStringLossy)),
      ("sha256", .string (digest text)), ("size_bytes", .number (toString text.utf8ByteSize)),
      ("chunk_index", .number (toString chunk.2)),
      ("chunk_count", .number (toString chunkCount))]
    externalId := some (externalIdOf path chunkCount chunk.2)
    scope := none }

/-- The items of a file; none where it is filtered. -/
def fileToItems (file : WalkedFile) : Except String (Option (List NewItem)) := do
  match ← walker.readText file with
  | none => return none
  | some text =>
    let chunks := chunkText text walker.chunkBytes
    if chunks = [] then return none
    if longestIdLength (walker.display file) chunks.length > maxExternalIdBytes then
      throw ("path too long for external_id (max " ++ toString maxExternalIdBytes ++ " bytes)")
    return some (chunks.zipIdx.map
      (walker.chunkItem platform digest file text chunks.length))

/-- What an entry yields. -/
def entryItems : WalkEntry → List (Except String NewItem)
  | .failed message => [.error message]
  | .other => []
  | .file file =>
    match walker.fileToItems platform digest file with
    | .error error => [.error error]
    | .ok items => (items.getD []).map .ok

/-- Whether an entry is filtered. -/
def isFiltered : WalkEntry → Bool
  | .file file => (walker.fileToItems platform digest file).toOption.any Option.isNone
  | _ => false

/-- The walker as a source of items. -/
def source (tree : DirectoryTree) : Source where
  items := tree.entries.flatMap (walker.entryItems platform digest)
  filteredCount := (tree.entries.filter (walker.isFiltered platform digest)).length
  defaultScope _ := walker.defaultScope platform

end DirectoryWalker

end Singularmem.Ingest
