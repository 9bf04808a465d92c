import Singularmem.Library.Markup
import Singularmem.Retrieve.Retriever

/-!
# The Claude adapter

A retrieved context becomes marked-up text. What a block says stands between tags of the
adapter alone, since its brackets are escaped, ampersands first. A reader of the tags recovers
the documents, in order, and what each of them says.
-/

namespace Singularmem.Retrieve

open Library Singularmem.Core Singularmem.Search

/-- How a provider renders a retrieved context. -/
structure Adapter where
  /-- The name in flags and requests. -/
  name : String
  format : RetrievedContext → String

namespace Claude

/-- Escape the characters that have a meaning in text content, ampersands first. -/
def escapeXml (text : String) : String :=
  .ofList (replaceChar '>' "&gt;".toList
    (replaceChar '<' "&lt;".toList (replaceChar '&' "&amp;".toList text.toList)))

/-- The lines of one block. -/
def formatBlock (block : MemoryBlock) (i : Nat) : String :=
  "<document index=\"" ++ toString (i + 1) ++ "\">\n" ++
  (match block.source with
    | some source => "<source>" ++ escapeXml source ++ "</source>\n"
    | none => "") ++
  (if block.tags.isEmpty then ""
    else "<tags>" ++ escapeXml (", ".intercalate block.tags) ++ "</tags>\n") ++
  "<document_content>\n" ++ escapeXml block.content ++ "\n" ++
  "</document_content>\n" ++ "</document>\n"

/-- Render a context. -/
def format (context : RetrievedContext) : String :=
  if context.blocks.isEmpty then "<documents></documents>\n"
  else "<documents>\n" ++
    .join (context.blocks.zipIdx.map fun entry => formatBlock entry.1 entry.2) ++ "</documents>\n"

end Claude

/-- The adapter for Anthropic Claude. -/
def claudeAdapter : Adapter := ⟨"claude", Claude.format⟩

namespace Claude

section Escapes

/-- What stands for a character in escaped text. -/
def entity (char : Char) : List Char :=
  if char = '&' then "&amp;".toList
  else if char = '<' then "&lt;".toList
  else if char = '>' then "&gt;".toList
  else [char]

/-- Read escaped characters back. The number tells how many of them belong to an entity that
was read already. -/
def unescapeFrom : Nat → List Char → List Char
  | _, [] => []
  | skip + 1, _ :: rest => unescapeFrom skip rest
  | 0, char :: rest =>
    if char = '&' ∧ "amp;".toList <+: rest then '&' :: unescapeFrom 4 rest
    else if char = '&' ∧ "lt;".toList <+: rest then '<' :: unescapeFrom 3 rest
    else if char = '&' ∧ "gt;".toList <+: rest then '>' :: unescapeFrom 3 rest
    else char :: unescapeFrom 0 rest

/-- Read escaped text back. -/
def unescapeXml (text : String) : String := .ofList (unescapeFrom 0 text.toList)

/-- The passes put an entity for each character. -/
theorem escapeXml_toList (text : String) :
    (escapeXml text).toList = text.toList.flatMap entity := by
  unfold escapeXml replaceChar
  rw [String.toList_ofList, List.flatMap_assoc, List.flatMap_assoc]
  apply List.flatMap_congr
  intro char _
  unfold entity
  split
  case isTrue same =>
    subst same
    decide
  case isFalse notAmpersand =>
    split
    case isTrue same =>
      subst same
      decide
    case isFalse notOpening =>
      rw [List.flatMap_singleton, if_neg notOpening, List.flatMap_singleton]

/-- Entities hold no brackets. -/
theorem entity_plain (char : Char) : '<' ∉ entity char ∧ '>' ∉ entity char := by
  unfold entity
  split
  case isTrue => decide
  case isFalse =>
    split
    case isTrue => decide
    case isFalse notOpening =>
      split
      case isTrue => decide
      case isFalse notClosing => simp [Ne.symm notOpening, Ne.symm notClosing]

/-- An entity is read back as its character. -/
theorem unescapeFrom_entity (char : Char) (rest : List Char) :
    unescapeFrom 0 (entity char ++ rest) = char :: unescapeFrom 0 rest := by
  unfold entity
  split
  case isTrue same => simp [unescapeFrom, same]
  case isFalse notAmpersand =>
    split
    case isTrue same => simp [unescapeFrom, same]
    case isFalse notOpening =>
      split
      case isTrue same => simp [unescapeFrom, same]
      case isFalse notClosing => simp [unescapeFrom, notAmpersand]

/-- **Escaped text is read back.** -/
theorem unescapeXml_escapeXml (text : String) : unescapeXml (escapeXml text) = text := by
  have chars : ∀ chars : List Char, unescapeFrom 0 (chars.flatMap entity) = chars := by
    intro chars
    induction chars with
    | nil => rfl
    | cons char rest inductionHypothesis =>
      rw [List.flatMap_cons, unescapeFrom_entity, inductionHypothesis]
  unfold unescapeXml
  rw [escapeXml_toList, chars, String.ofList_toList]

/-- Escaped text holds no brackets. -/
theorem escapeXml_plain (text : String) :
    '<' ∉ (escapeXml text).toList ∧ '>' ∉ (escapeXml text).toList := by
  rw [escapeXml_toList]
  constructor
  · intro member
    obtain ⟨char, _, inEntity⟩ := List.mem_flatMap.mp member
    exact (entity_plain char).1 inEntity
  · intro member
    obtain ⟨char, _, inEntity⟩ := List.mem_flatMap.mp member
    exact (entity_plain char).2 inEntity

end Escapes

section Reading

/-- What a document of the text says. -/
structure ShownDocument where
  source : Option String
  tags : Option String
  content : String
deriving DecidableEq

/-- What the document of a block is to say. -/
def shown (block : MemoryBlock) : ShownDocument :=
  ⟨block.source, if block.tags.isEmpty then none else some (", ".intercalate block.tags),
    block.content⟩

/-- A tag that ends its line. -/
def lineTag (name : String) : Piece Char := ⟨name.toList, ['\n']⟩

/-- The tag that opens a document. -/
def documentTag (number : Nat) : String := "document index=\"" ++ toString number ++ "\""

/-- Read a piece that has to come next. -/
def expect (piece : Piece Char) : List (Piece Char) → Option (List (Piece Char))
  | [] => none
  | next :: rest => if next = piece then some rest else none

/-- Read an element if it comes next. -/
def readElement (name : String) : List (Piece Char) → Option (List Char) × List (Piece Char)
  | opened :: closed :: rest =>
    if opened.tag = name.toList ∧ closed = lineTag ("/" ++ name) then (some opened.text, rest)
    else (none, opened :: closed :: rest)
  | pieces => (none, pieces)

/-- Content stands on lines of its own. -/
def readContent : List Char → Option (List Char)
  | '\n' :: rest => if rest.getLast? = some '\n' then some rest.dropLast else none
  | _ => none

/-- Read one document. -/
def readDocument (number : Nat) (pieces : List (Piece Char)) :
    Option (ShownDocument × List (Piece Char)) := do
  let rest ← expect (lineTag (documentTag number)) pieces
  let (source, rest) := readElement "source" rest
  let (tags, rest) := readElement "tags" rest
  let (content, rest) := readElement "document_content" rest
  let content ← content.bind readContent
  let rest ← expect (lineTag "/document") rest
  let text (chars : List Char) := unescapeXml (.ofList chars)
  return (⟨source.map text, tags.map text, text content⟩, rest)

/-- Read documents up to the end, with at least as many rounds as there are pieces. -/
def readDocuments : Nat → Nat → List (Piece Char) → Option (List ShownDocument)
  | 0, _, _ => none
  | rounds + 1, number, pieces =>
    if pieces = [lineTag "/documents"] then some []
    else do
      let (document, rest) ← readDocument number pieces
      let others ← readDocuments rounds (number + 1) rest
      return document :: others

/-- Read a rendered context. -/
def readContext (text : String) : Option (List ShownDocument) := do
  let pieces ← readPieces '<' '>' text.toList
  if pieces = [⟨"documents".toList, []⟩, lineTag "/documents"] then return []
  else
    let rest ← expect (lineTag "documents") pieces
    readDocuments rest.length 1 rest

/-- The pieces of an element. -/
def elementPieces (name : String) (text : List Char) : List (Piece Char) :=
  [⟨name.toList, text⟩, lineTag ("/" ++ name)]

/-- The pieces of a block. -/
def blockPieces (block : MemoryBlock) (i : Nat) : List (Piece Char) :=
  lineTag (documentTag (i + 1)) ::
    (match block.source with
      | some source => elementPieces "source" (escapeXml source).toList
      | none => []) ++
    (if block.tags.isEmpty then []
      else elementPieces "tags" (escapeXml (", ".intercalate block.tags)).toList) ++
    elementPieces "document_content" ('\n' :: (escapeXml block.content).toList ++ ['\n']) ++
    [lineTag "/document"]

/-- The pieces of a context. -/
def contextPieces (context : RetrievedContext) : List (Piece Char) :=
  if context.blocks.isEmpty then [⟨"documents".toList, []⟩, lineTag "/documents"]
  else lineTag "documents" ::
    (context.blocks.zipIdx.flatMap fun entry => blockPieces entry.1 entry.2) ++
    [lineTag "/documents"]

/-- The characters of an element. -/
theorem spell_element (name : String) (text : List Char) :
    spell '<' '>' (elementPieces name text) =
      '<' :: name.toList ++ '>' :: text ++ '<' :: '/' :: name.toList ++ ['>', '\n'] := by
  simp [spell, Piece.body, elementPieces, lineTag]

/-- The characters of a block. -/
theorem formatBlock_toList (block : MemoryBlock) (i : Nat) :
    (formatBlock block i).toList = spell '<' '>' (blockPieces block i) := by
  have source : (match block.source with
      | some source => "<source>" ++ escapeXml source ++ "</source>\n"
      | none => "").toList =
      spell '<' '>' (match block.source with
        | some source => elementPieces "source" (escapeXml source).toList
        | none => []) := by
    cases block.source with
    | none => rfl
    | some source => simp [spell_element]
  have tags : (if block.tags.isEmpty then ""
      else "<tags>" ++ escapeXml (", ".intercalate block.tags) ++ "</tags>\n").toList =
      spell '<' '>' (if block.tags.isEmpty then []
        else elementPieces "tags" (escapeXml (", ".intercalate block.tags)).toList) := by
    cases block.tags.isEmpty with
    | true => rfl
    | false => simp [spell_element]
  have opened : "<document index=\"".toList ++ (toString (i + 1)).toList ++ "\">\n".toList =
      spell '<' '>' [lineTag (documentTag (i + 1))] := by
    unfold lineTag documentTag
    simp [spell, Piece.body]
  have content : "<document_content>\n".toList ++ ((escapeXml block.content).toList ++
      ("\n".toList ++ "</document_content>\n".toList)) =
      spell '<' '>' (elementPieces "document_content"
        ('\n' :: (escapeXml block.content).toList ++ ['\n'])) := by
    simp [spell_element]
  have closed : "</document>\n".toList = spell '<' '>' [lineTag "/document"] := rfl
  unfold formatBlock blockPieces
  rw [← List.singleton_append, List.append_assoc, List.append_assoc, List.append_assoc,
    spell_append, spell_append, spell_append, spell_append, ← source, ← tags, ← opened, ← content,
    ← closed]
  simp only [String.toList_append, List.append_assoc]

/-- **The characters of a context.** -/
theorem format_toList (context : RetrievedContext) :
    (format context).toList = spell '<' '>' (contextPieces context) := by
  have blocks : (String.join (context.blocks.zipIdx.map fun entry =>
      formatBlock entry.1 entry.2)).toList =
      spell '<' '>' (context.blocks.zipIdx.flatMap fun entry => blockPieces entry.1 entry.2) := by
    rw [String.toList_join, List.flatMap_map, spell, List.flatMap_assoc]
    exact List.flatMap_congr fun entry _ => formatBlock_toList entry.1 entry.2
  unfold format contextPieces
  split
  case isTrue => rfl
  case isFalse =>
    rw [List.cons_append, spell_cons, spell_append, ← blocks]
    simp [spell, Piece.body, lineTag]

/-- A name without brackets. -/
def PlainText (chars : List Char) : Prop := '<' ∉ chars ∧ '>' ∉ chars

theorem PlainText.append {first second : List Char} (left : PlainText first)
    (right : PlainText second) : PlainText (first ++ second) := by
  constructor
  · exact fun member => (List.mem_append.mp member).elim left.1 right.1
  · exact fun member => (List.mem_append.mp member).elim left.2 right.2

/-- A tag with a plain name is plain. -/
theorem lineTag_plain {name : String} (plain : PlainText name.toList) :
    (lineTag name).Plain '<' '>' := by
  have line : PlainText ['\n'] := ⟨by decide, by decide⟩
  exact ⟨plain.1, plain.2, line.1, line.2⟩

/-- An element with a plain name and plain text is plain. -/
theorem elementPieces_plain {name : String} {text : List Char} (tag : PlainText name.toList)
    (plain : PlainText text) : ∀ piece ∈ elementPieces name text, piece.Plain '<' '>' := by
  have slash : PlainText "/".toList := ⟨by decide, by decide⟩
  unfold elementPieces
  rw [List.forall_mem_cons, List.forall_mem_singleton]
  constructor
  · exact ⟨tag.1, tag.2, plain.1, plain.2⟩
  · apply lineTag_plain
    rw [String.toList_append]
    exact slash.append tag

/-- A number holds no brackets. -/
theorem documentTag_plain (number : Nat) : PlainText (documentTag number).toList := by
  have digits : PlainText (toString number).toList := by
    constructor
    all_goals
      intro member
      rw [Nat.toString_eq_repr, Nat.toList_repr] at member
      exact absurd (Nat.isDigit_of_mem_toDigits (by decide) (by decide) member) (by decide)
  have front : PlainText "document index=\"".toList := ⟨by decide, by decide⟩
  have back : PlainText "\"".toList := ⟨by decide, by decide⟩
  unfold documentTag
  rw [String.toList_append, String.toList_append]
  exact (front.append digits).append back

/-- **What a block says stays between the tags.** -/
theorem blockPieces_plain (block : MemoryBlock) (i : Nat) :
    ∀ piece ∈ blockPieces block i, piece.Plain '<' '>' := by
  have line : PlainText ['\n'] := ⟨by decide, by decide⟩
  unfold blockPieces
  simp only [List.forall_mem_append, List.forall_mem_cons]
  refine ⟨⟨⟨⟨lineTag_plain (documentTag_plain _), ?_⟩, ?_⟩, ?_⟩, ?_, by simp⟩
  · cases block.source with
    | none => simp
    | some source =>
      exact elementPieces_plain ⟨by decide, by decide⟩ (escapeXml_plain source)
  · split
    · simp
    · exact elementPieces_plain ⟨by decide, by decide⟩ (escapeXml_plain _)
  · apply elementPieces_plain ⟨by decide, by decide⟩
    rw [← List.singleton_append]
    exact (line.append (escapeXml_plain _)).append line
  · exact lineTag_plain ⟨by decide, by decide⟩

/-- So does what a context says. -/
theorem contextPieces_plain (context : RetrievedContext) :
    ∀ piece ∈ contextPieces context, piece.Plain '<' '>' := by
  have last : (lineTag "/documents").Plain '<' '>' := lineTag_plain ⟨by decide, by decide⟩
  unfold contextPieces
  split
  · rw [List.forall_mem_cons, List.forall_mem_singleton]
    exact ⟨⟨by decide, by decide, by decide, by decide⟩, last⟩
  · simp only [List.forall_mem_append, List.forall_mem_cons]
    refine ⟨⟨lineTag_plain ⟨by decide, by decide⟩, ?_⟩, last, by simp⟩
    intro piece member
    obtain ⟨entry, _, inBlock⟩ := List.mem_flatMap.mp member
    exact blockPieces_plain entry.1 entry.2 piece inBlock

/-- The next piece is met. -/
theorem expect_head (piece : Piece Char) (rest : List (Piece Char)) :
    expect piece (piece :: rest) = some rest := if_pos rfl

/-- An element that comes next is read. -/
theorem readElement_present (name : String) (text : List Char) (rest : List (Piece Char)) :
    readElement name (elementPieces name text ++ rest) = (some text, rest) := if_pos ⟨rfl, rfl⟩

/-- Another one is left. -/
theorem readElement_absent {name other : String} (different : other.toList ≠ name.toList)
    (text : List Char) (rest : List (Piece Char)) :
    readElement name (elementPieces other text ++ rest) =
      (none, elementPieces other text ++ rest) := if_neg fun same => different same.1

/-- Content is read from its lines. -/
theorem readContent_lines (chars : List Char) :
    readContent ('\n' :: (chars ++ ['\n'])) = some chars := by
  simp [readContent]

/-- **A document is read back.** -/
theorem readDocument_block (block : MemoryBlock) (i : Nat) (rest : List (Piece Char)) :
    readDocument (i + 1) (blockPieces block i ++ rest) = some (shown block, rest) := by
  have tagsApart : "tags".toList ≠ "source".toList := by decide
  have contentOfSource : "document_content".toList ≠ "source".toList := by decide
  have contentOfTags : "document_content".toList ≠ "tags".toList := by decide
  unfold readDocument blockPieces shown
  simp only [List.cons_append, List.append_assoc, expect_head]
  cases block.source with
  | none =>
    cases block.tags.isEmpty with
    | true =>
      simp [readElement_absent contentOfSource, readElement_absent contentOfTags,
        readElement_present, readContent_lines, expect_head, unescapeXml_escapeXml]
    | false =>
      simp [readElement_absent tagsApart, readElement_present, readContent_lines, expect_head,
        unescapeXml_escapeXml]
  | some source =>
    cases block.tags.isEmpty with
    | true =>
      simp [readElement_absent contentOfTags, readElement_present, readContent_lines, expect_head,
        unescapeXml_escapeXml]
    | false =>
      simp [readElement_present, readContent_lines, expect_head, unescapeXml_escapeXml]

/-- A document is not the end. -/
theorem blockPieces_ne_end (block : MemoryBlock) (i : Nat) (rest : List (Piece Char)) :
    blockPieces block i ++ rest ≠ [lineTag "/documents"] := by
  intro same
  have few := congrArg List.length same
  simp only [blockPieces, elementPieces, List.length_append, List.length_cons,
    List.length_nil] at few
  omega

/-- **The documents are read back**, up to the end. -/
theorem readDocuments_blocks {blocks : List MemoryBlock} {rounds start : Nat}
    (enough : blocks.length < rounds) :
    readDocuments rounds (start + 1)
      (((blocks.zipIdx start).flatMap fun entry => blockPieces entry.1 entry.2) ++
        [lineTag "/documents"]) = some (blocks.map shown) := by
  induction blocks generalizing rounds start with
  | nil =>
    obtain ⟨before, rfl⟩ := Nat.exists_eq_succ_of_ne_zero (Nat.ne_zero_of_lt enough)
    exact if_pos rfl
  | cons block rest inductionHypothesis =>
    obtain ⟨before, rfl⟩ := Nat.exists_eq_succ_of_ne_zero (Nat.ne_zero_of_lt enough)
    rw [List.zipIdx_cons, List.flatMap_cons, List.append_assoc, readDocuments,
      if_neg (blockPieces_ne_end _ _ _), readDocument_block]
    change (readDocuments before (start + 1 + 1) _ >>= _) = _
    rw [inductionHypothesis (by rw [List.length_cons] at enough; omega)]
    rfl

/-- Each document takes a piece at least. -/
theorem length_le_pieces (blocks : List MemoryBlock) (start : Nat) :
    blocks.length ≤
      ((blocks.zipIdx start).flatMap fun entry => blockPieces entry.1 entry.2).length := by
  induction blocks generalizing start with
  | nil => exact Nat.zero_le _
  | cons block rest inductionHypothesis =>
    have later := inductionHypothesis (start + 1)
    rw [List.zipIdx_cons, List.flatMap_cons, List.length_append, List.length_cons]
    have one : 1 ≤ (blockPieces block start).length := by
      simp [blockPieces]
    dsimp only
    omega

/-- **A rendered context is read back.** -/
theorem readContext_format (context : RetrievedContext) :
    readContext (format context) = some (context.blocks.map shown) := by
  unfold readContext
  rw [format_toList, readPieces_spell (by decide) (contextPieces_plain context)]
  change (if contextPieces context = _ then _ else _) = _
  by_cases empty : context.blocks.isEmpty
  · rw [contextPieces, if_pos empty, if_pos rfl, List.isEmpty_iff.mp empty]
    rfl
  · have other : lineTag "documents" ≠ ⟨"documents".toList, []⟩ := by decide
    rw [contextPieces, if_neg empty, List.cons_append,
      if_neg fun same => other (List.cons.inj same).1, expect_head]
    apply readDocuments_blocks
    rw [List.length_append, List.length_singleton]
    exact Nat.lt_succ_of_le (length_le_pieces _ _)

/-- The tags that the adapter puts around a block. They depend on what the block has, not on
what it says. -/
def documentTags (block : MemoryBlock) (i : Nat) : List String :=
  documentTag (i + 1) :: (if block.source.isSome then ["source", "/source"] else []) ++
    (if block.tags.isEmpty then [] else ["tags", "/tags"]) ++
    ["document_content", "/document_content", "/document"]

/-- The tags that the adapter generates. -/
def generatedTags (context : RetrievedContext) : List String :=
  "documents" :: (context.blocks.zipIdx.flatMap fun entry => documentTags entry.1 entry.2) ++
    ["/documents"]

/-- The pieces of a block are its tags. -/
theorem blockPieces_tags (block : MemoryBlock) (i : Nat) :
    (blockPieces block i).map Piece.tag = (documentTags block i).map String.toList := by
  unfold blockPieces documentTags elementPieces lineTag
  cases block.source with
  | none =>
    cases block.tags.isEmpty with
    | true => rfl
    | false => rfl
  | some source =>
    cases block.tags.isEmpty with
    | true => rfl
    | false => rfl

/-- The pieces of a context are the generated tags. -/
theorem contextPieces_tags (context : RetrievedContext) :
    (contextPieces context).map Piece.tag = (generatedTags context).map String.toList := by
  unfold contextPieces generatedTags
  by_cases empty : context.blocks.isEmpty
  · rw [if_pos empty, List.isEmpty_iff.mp empty]
    rfl
  · rw [if_neg empty]
    simp only [List.map_append, List.map_cons, List.map_flatMap, blockPieces_tags]
    rfl

/-- **A rendering cannot be forged.** Its brackets are those of the generated tags; the
documents are read back from it, in order, with the source, the tags and the content of each
block; and contexts that render alike have the same sources and contents. -/
theorem rendering_is_unforgeable (context : RetrievedContext) :
    (∃ pieces, readPieces '<' '>' (format context).toList = some pieces ∧
      spell '<' '>' pieces = (format context).toList ∧
      pieces.map Piece.tag = (generatedTags context).map String.toList ∧
      (format context).toList.count '<' = (generatedTags context).length) ∧
    readContext (format context) = some (context.blocks.map shown) ∧
    (∀ text, unescapeXml (escapeXml text) = text) ∧
    ∀ other, format other = format context →
      other.blocks.map MemoryBlock.source = context.blocks.map MemoryBlock.source ∧
        other.blocks.map MemoryBlock.content = context.blocks.map MemoryBlock.content := by
  have plain := contextPieces_plain context
  refine ⟨⟨contextPieces context, ?_, (format_toList context).symm, contextPieces_tags context, ?_⟩,
    readContext_format context, unescapeXml_escapeXml, ?_⟩
  · rw [format_toList]
    exact readPieces_spell (by decide) plain
  · rw [format_toList, count_opening (by decide) plain]
    have lengths := congrArg List.length (contextPieces_tags context)
    rwa [List.length_map, List.length_map] at lengths
  · intro other same
    have read := readContext_format other
    rw [same, readContext_format context] at read
    have documents : context.blocks.map shown = other.blocks.map shown := Option.some.inj read
    constructor
    · have sources := congrArg (List.map ShownDocument.source) documents
      rw [List.map_map, List.map_map] at sources
      exact sources.symm
    · have contents := congrArg (List.map ShownDocument.content) documents
      rw [List.map_map, List.map_map] at contents
      exact contents.symm

end Reading

end Claude

end Singularmem.Retrieve
