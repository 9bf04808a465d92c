import Singularmem.Ingest.Chunk
import Singularmem.Library.Trimming

/-!
# Chunks keep the text

Cutting, trimming and packing drop whitespace only: the other characters of the chunks, in
order, are those of the text. Every chunk is trimmed, not empty and within the bound, and a
paragraph above the bound is cut in at most as many rounds as it has characters.
-/

namespace Singularmem.Ingest

open Library Singularmem.Core

/-- The characters that are no whitespace. -/
def ink (chars : List Char) : List Char := chars.filter fun char => !isWhitespace char

@[simp] theorem ink_append (front back : List Char) : ink (front ++ back) = ink front ++ ink back :=
  List.filter_append ..

@[simp] theorem byteLength_append (front back : List Char) :
    byteLength (front ++ back) = byteLength front + byteLength back := by
  simp [byteLength]

/-- The bytes of a text are those of its characters. -/
theorem utf8ByteSize_eq (chars : List Char) :
    (String.ofList chars).utf8ByteSize = byteLength chars := by
  induction chars with
  | nil => rfl
  | cons char rest inductionHypothesis =>
    rw [String.ofList_cons, String.utf8ByteSize_append, String.utf8ByteSize_singleton,
      inductionHypothesis]
    rfl

theorem trimChars_eq (chars : List Char) : trimChars chars = trimEnds isWhitespace chars := by
  rw [trimChars, trim, trimMatches, String.toList_ofList, String.toList_ofList, trimEnds]

@[simp] theorem ink_trimChars (chars : List Char) : ink (trimChars chars) = ink chars := by
  rw [trimChars_eq]
  exact filter_trimEnds chars

theorem byteLength_trimChars (chars : List Char) : byteLength (trimChars chars) ≤ byteLength chars := by
  obtain ⟨front, back, cut, _⟩ := @trimEnds_cut _ isWhitespace chars
  have whole := congrArg byteLength cut
  rw [byteLength_append, byteLength_append, ← trimChars_eq] at whole
  omega

/-- A chunk: trimmed, not empty and within a bound. -/
structure IsChunk (bound : Nat) (chunk : List Char) : Prop where
  nonempty : chunk ≠ []
  trimmed : Trimmed isWhitespace chunk
  bounded : byteLength chunk ≤ bound

/-- A trimmed text within the bound is a chunk, if something is left. -/
theorem IsChunk.of_trim {bound : Nat} {chars : List Char} (some : trimChars chars ≠ [])
    (bounded : byteLength chars ≤ bound) : IsChunk bound (trimChars chars) := by
  constructor
  · exact some
  · rw [trimChars_eq]
    exact trimEnds_trimmed chars
  · exact (byteLength_trimChars chars).trans bounded

section Paragraphs

/-- Splitting at blank lines drops whitespace only. -/
theorem paragraphs_ink (chars : List Char) : (paragraphs chars).flatMap ink = ink chars := by
  induction chars using paragraphs.induct with
  | case1 => rfl
  | case2 rest inductionHypothesis =>
    rw [paragraphs, List.flatMap_cons, inductionHypothesis]
    rfl
  | case3 char rest apart none inductionHypothesis =>
    rw [none] at inductionHypothesis
    rw [paragraphs.eq_3 _ _ apart, none]
    change ink [char] ++ [] = ink ([char] ++ rest)
    rw [ink_append, ← inductionHypothesis]
    rfl
  | case4 char rest apart part parts some inductionHypothesis =>
    rw [some, List.flatMap_cons] at inductionHypothesis
    rw [paragraphs.eq_3 _ _ apart, some]
    change ink ([char] ++ part) ++ parts.flatMap ink = ink ([char] ++ rest)
    rw [ink_append, ink_append, List.append_assoc, inductionHypothesis]

/-- The paragraphs of a text that are not blank, trimmed. -/
theorem trimmed_paragraphs_ink (chars : List Char) :
    (((paragraphs chars).map trimChars).filter (· ≠ [])).flatMap ink = ink chars := by
  have dropped : ∀ parts : List (List Char),
      ((parts.map trimChars).filter (· ≠ [])).flatMap ink = parts.flatMap ink := by
    intro parts
    induction parts with
    | nil => rfl
    | cons part parts inductionHypothesis =>
      rw [List.map_cons, List.flatMap_cons, ← inductionHypothesis, ← ink_trimChars part]
      by_cases blank : trimChars part = []
      · simp [blank, ink]
      · simp [blank]
  rw [dropped, paragraphs_ink]

end Paragraphs

section HardSplit

/-- The front and the rest are the text. -/
theorem cutFront_append (maxBytes : Nat) (chars : List Char) :
    (cutFront maxBytes chars).1 ++ (cutFront maxBytes chars).2 = chars := by
  induction chars generalizing maxBytes with
  | nil => rfl
  | cons char rest inductionHypothesis =>
    rw [cutFront]
    split
    · simp [inductionHypothesis]
    · rfl

/-- The front is within the bound. -/
theorem cutFront_bounded (maxBytes : Nat) (chars : List Char) :
    byteLength (cutFront maxBytes chars).1 ≤ maxBytes := by
  induction chars generalizing maxBytes with
  | nil => exact Nat.zero_le _
  | cons char rest inductionHypothesis =>
    rw [cutFront]
    split
    case isTrue fits =>
      have others := inductionHypothesis (maxBytes - char.utf8Size)
      simp only [byteLength, List.map_cons, List.sum_cons] at others ⊢
      omega
    case isFalse => exact Nat.zero_le _

/-- A piece and the rest are the text; the piece is within the bound, or one character. -/
theorem cutPiece_spec (maxBytes : Nat) {chars : List Char} (some : chars ≠ []) :
    (cutPiece maxBytes chars).1 ++ (cutPiece maxBytes chars).2 = chars ∧
      (cutPiece maxBytes chars).1 ≠ [] ∧
        byteLength (cutPiece maxBytes chars).1 ≤ max maxBytes 4 := by
  have whole := cutFront_append maxBytes chars
  have bounded := cutFront_bounded maxBytes chars
  rw [cutPiece]
  split
  case h_1 rest none =>
    rw [none, List.nil_append] at whole
    obtain ⟨char, others, rfl⟩ := List.exists_cons_of_ne_nil some
    obtain rfl : rest = char :: others := whole
    have wide := char.utf8Size_le_four
    refine ⟨rfl, List.cons_ne_nil _ _, ?_⟩
    change byteLength [char] ≤ _
    simp only [byteLength, List.map_cons, List.map_nil, List.sum_cons, List.sum_nil]
    omega
  case h_2 cut other =>
    refine ⟨whole, ?_, bounded.trans (Nat.le_max_left _ _)⟩
    intro empty
    exact other _ (Prod.ext empty rfl)

/-- Each round takes at least one character, so that more rounds than characters change
nothing. -/
theorem hardSplitFrom_more (maxBytes : Nat) {rounds : Nat} {chars : List Char}
    (enough : chars.length ≤ rounds) :
    hardSplitFrom maxBytes rounds chars = hardSplit maxBytes chars := by
  have settled : ∀ (rounds more : Nat) (chars : List Char), chars.length ≤ rounds →
      chars.length ≤ more → hardSplitFrom maxBytes rounds chars = hardSplitFrom maxBytes more chars := by
    intro rounds
    induction rounds with
    | zero =>
      intro more chars enough _
      obtain rfl : chars = [] := List.length_eq_zero_iff.mp (by omega)
      cases more <;> rfl
    | succ rounds inductionHypothesis =>
      intro more chars enough moreEnough
      cases chars with
      | nil => cases more <;> rfl
      | cons char rest =>
        obtain ⟨more, rfl⟩ := Nat.exists_eq_add_one_of_ne_zero (show more ≠ 0 by
          rintro rfl
          simp at moreEnough)
        obtain ⟨whole, nonempty, _⟩ := cutPiece_spec maxBytes (List.cons_ne_nil char rest)
        have length := congrArg List.length whole
        have positive := List.length_pos_iff.mpr nonempty
        rw [List.length_append] at length
        simp only [hardSplitFrom]
        rw [inductionHypothesis more _ (by omega) (by omega)]
  exact settled rounds chars.length chars enough (Nat.le_refl _)

/-- The pieces of a text are chunks, and keep its characters. -/
theorem hardSplitFrom_spec (maxBytes : Nat) {rounds : Nat} {chars : List Char}
    (enough : chars.length ≤ rounds) :
    (∀ piece ∈ hardSplitFrom maxBytes rounds chars, IsChunk (max maxBytes 4) piece) ∧
      (hardSplitFrom maxBytes rounds chars).flatMap ink = ink chars := by
  induction rounds generalizing chars with
  | zero =>
    obtain rfl : chars = [] := List.length_eq_zero_iff.mp (by omega)
    exact ⟨fun piece member => absurd member List.not_mem_nil, rfl⟩
  | succ rounds inductionHypothesis =>
    cases chars with
    | nil => exact ⟨fun piece member => absurd member List.not_mem_nil, rfl⟩
    | cons char rest =>
      obtain ⟨whole, nonempty, bounded⟩ := cutPiece_spec maxBytes (List.cons_ne_nil char rest)
      have length := congrArg List.length whole
      have positive := List.length_pos_iff.mpr nonempty
      rw [List.length_append] at length
      obtain ⟨chunks, kept⟩ := @inductionHypothesis (cutPiece maxBytes (char :: rest)).2 (by omega)
      simp only [hardSplitFrom]
      split
      case isTrue blank =>
        refine ⟨chunks, ?_⟩
        have none : ink (cutPiece maxBytes (char :: rest)).1 = [] := by
          rw [← ink_trimChars, blank]
          rfl
        rw [kept, ← whole, ink_append, whole, none, List.nil_append]
      case isFalse some =>
        constructor
        · intro piece member
          obtain first | later := List.mem_cons.mp member
          · rw [first]
            exact .of_trim some bounded
          · exact chunks piece later
        · rw [List.flatMap_cons, kept, ink_trimChars, ← ink_append, whole]

end HardSplit

section Packing

/-- Closing the current chunk. -/
theorem flush_spec {bound : Nat} {current : List Char} {chunks : List (List Char)}
    (bounded : byteLength current ≤ bound) (all : ∀ chunk ∈ chunks, IsChunk bound chunk) :
    (∀ chunk ∈ flush current chunks, IsChunk bound chunk) ∧
      (flush current chunks).flatMap ink = chunks.flatMap ink ++ ink current := by
  by_cases blank : trimChars current = []
  · have same : flush current chunks = chunks := by rw [flush, if_pos blank]
    refine ⟨by rwa [same], ?_⟩
    rw [same, ← ink_trimChars current, blank]
    exact (List.append_nil _).symm
  · have more : flush current chunks = chunks ++ [trimChars current] := by rw [flush, if_neg blank]
    rw [more]
    constructor
    · intro chunk member
      rcases List.mem_append.mp member with earlier | last
      · exact all chunk earlier
      · rw [List.mem_singleton.mp last]
        exact .of_trim blank bounded
    · rw [List.flatMap_append, List.flatMap_singleton, ink_trimChars]

/-- A paragraph within the bound joins the current chunk, where both fit into one, or starts
another. -/
theorem packParagraphs_fits {bound : Nat} {para : List Char} (fits : byteLength para ≤ bound)
    (rest : List (List Char)) (current : List Char) (chunks : List (List Char)) :
    packParagraphs bound (para :: rest) current chunks =
      if current = [] then packParagraphs bound rest para chunks
      else if byteLength current + 2 + byteLength para > bound then
        packParagraphs bound rest para (flush current chunks)
      else packParagraphs bound rest (current ++ ['\n', '\n'] ++ para) chunks := by
  rw [packParagraphs, if_neg (Nat.not_lt.mpr fits)]
  by_cases first : current = []
  · simp [first, Nat.not_lt.mpr fits]
  · by_cases full : byteLength current + 2 + byteLength para > bound
    · simp [first, full]
    · simp [first, full]

/-- **Packing** makes chunks of the paragraphs and keeps their characters. -/
theorem packParagraphs_spec {bound : Nat} (four : 4 ≤ bound) {paras : List (List Char)}
    {current : List Char} {chunks : List (List Char)} (bounded : byteLength current ≤ bound)
    (all : ∀ chunk ∈ chunks, IsChunk bound chunk) :
    (∀ chunk ∈ packParagraphs bound paras current chunks, IsChunk bound chunk) ∧
      (packParagraphs bound paras current chunks).flatMap ink =
        chunks.flatMap ink ++ ink current ++ paras.flatMap ink := by
  induction paras generalizing current chunks with
  | nil =>
    obtain ⟨closed, kept⟩ := flush_spec bounded all
    refine ⟨closed, ?_⟩
    rw [packParagraphs, kept, List.flatMap_nil, List.append_nil]
  | cons para rest inductionHypothesis =>
    obtain ⟨closed, kept⟩ := flush_spec bounded all
    by_cases fits : byteLength para ≤ bound
    · rw [packParagraphs_fits fits]
      split
      case isTrue first =>
        obtain ⟨packed, whole⟩ := inductionHypothesis fits all
        refine ⟨packed, ?_⟩
        rw [whole, first, List.flatMap_cons]
        simp [ink]
      case isFalse more =>
        split
        case isTrue full =>
          obtain ⟨packed, whole⟩ := inductionHypothesis fits closed
          refine ⟨packed, ?_⟩
          rw [whole, kept, List.flatMap_cons]
          simp
        case isFalse room =>
          have joined : byteLength (current ++ ['\n', '\n'] ++ para) ≤ bound := by
            have breaks : byteLength ['\n', '\n'] = 2 := by decide
            rw [byteLength_append, byteLength_append, breaks]
            omega
          have blank : ink ['\n', '\n'] = [] := by decide
          obtain ⟨packed, whole⟩ := inductionHypothesis joined all
          refine ⟨packed, ?_⟩
          rw [whole, ink_append, ink_append, blank, List.flatMap_cons]
          simp
    · obtain ⟨pieces, split⟩ := hardSplitFrom_spec bound (Nat.le_refl para.length)
      rw [Nat.max_eq_left four] at pieces
      have both : ∀ chunk ∈ flush current chunks ++ hardSplit bound para, IsChunk bound chunk := by
        intro chunk member
        rcases List.mem_append.mp member with earlier | piece
        · exact closed chunk earlier
        · exact pieces chunk piece
      obtain ⟨packed, whole⟩ := @inductionHypothesis [] _ (Nat.zero_le _) both
      rw [packParagraphs, if_pos (Nat.not_le.mp fits)]
      refine ⟨packed, ?_⟩
      rw [whole, List.flatMap_append, kept, hardSplit, split, List.flatMap_cons]
      simp [ink]

end Packing

/-- Every chunk is trimmed, not empty and within the bound. -/
theorem chunkText_isChunk (text : String) (maxBytes : Nat) :
    ∀ chunk ∈ chunkText text maxBytes, IsChunk (max maxBytes 4) chunk.toList := by
  obtain ⟨chunks, -⟩ := @packParagraphs_spec _ (Nat.le_max_right maxBytes 4)
    (((paragraphs text.toList).map trimChars).filter (· ≠ [])) [] [] (Nat.zero_le _)
    fun chunk member => absurd member List.not_mem_nil
  intro chunk member
  obtain ⟨chars, packed, rfl⟩ := List.mem_map.mp member
  rw [String.toList_ofList]
  exact chunks chars packed

/-- **Chunking keeps all text within bounds**: it needs no more rounds than a paragraph has
characters, every chunk is trimmed, not empty and within the bound, and the chunks hold the
characters of the text that are no whitespace, in order. -/
theorem chunkText_keeps_text (text : String) (maxBytes : Nat) :
    (∀ rounds chars, chars.length ≤ rounds →
      hardSplitFrom (max maxBytes 4) rounds chars = hardSplit (max maxBytes 4) chars) ∧
    (∀ chunk ∈ chunkText text maxBytes,
      chunk ≠ "" ∧ trim chunk = chunk ∧ chunk.utf8ByteSize ≤ max maxBytes 4) ∧
    (chunkText text maxBytes).flatMap (fun chunk => ink chunk.toList) = ink text.toList := by
  obtain ⟨-, kept⟩ := @packParagraphs_spec _ (Nat.le_max_right maxBytes 4)
    (((paragraphs text.toList).map trimChars).filter (· ≠ [])) [] [] (Nat.zero_le _)
    fun chunk member => absurd member List.not_mem_nil
  refine ⟨fun rounds chars enough => hardSplitFrom_more _ enough, ?_, ?_⟩
  · intro chunk member
    have isChunk := chunkText_isChunk text maxBytes chunk member
    refine ⟨?_, ?_, ?_⟩
    · simpa using isChunk.nonempty
    · rw [trim, trimMatches]
      exact (congrArg String.ofList isChunk.trimmed.trimEnds_eq).trans String.ofList_toList
    · have bounded := isChunk.bounded
      rwa [← utf8ByteSize_eq, String.ofList_toList] at bounded
  · rw [chunkText, List.flatMap_map]
    simp only [String.toList_ofList]
    rw [kept, trimmed_paragraphs_ink]
    rfl

end Singularmem.Ingest
