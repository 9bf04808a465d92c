import Singularmem.Ingest.ChunkBounds
import Singularmem.Ingest.Claude
import Singularmem.Library.Splices

/-!
# Stripped reminders

The scanner joins what stands outside the reminders. No part of that holds an opening tag,
but the parts together may spell one across a reminder that was removed. Where they do not,
no opening tag is left, stripping again changes nothing, and no item of a user message holds
an opening tag.
-/

namespace Singularmem.Ingest

open Library Singularmem.Core

section Cutting

variable {pattern text before after : List Char}

/-- Nothing is cut where the pattern does not occur. -/
theorem cutAt_none (some : pattern ≠ []) : cutAt pattern text = none ↔ ¬ pattern <:+: text := by
  induction text with
  | nil => simp [cutAt, some]
  | cons char rest inductionHypothesis =>
    rw [cutAt, List.infix_cons_iff, not_or, ← inductionHypothesis, ← List.isPrefixOf_iff_prefix]
    by_cases starts : pattern.isPrefixOf (char :: rest) = true
    · simp [starts]
    · simp [starts]

/-- A text is cut at the first occurrence. -/
theorem cutAt_first (some : pattern ≠ []) (first : FirstAt pattern before) :
    cutAt pattern (before ++ pattern ++ after) = .some (before, after) := by
  induction before with
  | nil =>
    obtain ⟨char, rest, rfl⟩ := List.exists_cons_of_ne_nil some
    have starts : (char :: rest).isPrefixOf (char :: (rest ++ after)) = true := by
      rw [List.isPrefixOf_iff_prefix]
      exact ⟨after, rfl⟩
    simp [cutAt, starts]
  | cons char before inductionHypothesis =>
    obtain ⟨apart, later⟩ := FirstAt.cons_iff.mp first
    have starts : ¬ pattern.isPrefixOf (char :: (before ++ pattern ++ after)) = true := by
      rw [List.isPrefixOf_iff_prefix, begins_iff]
      exact apart
    rw [List.cons_append, List.cons_append, cutAt, if_neg starts, inductionHypothesis later]
    rfl

/-- What is cut is cut at the first occurrence. -/
theorem cutAt_some (some : pattern ≠ []) (cut : cutAt pattern text = .some (before, after)) :
    text = before ++ pattern ++ after ∧ FirstAt pattern before := by
  induction text generalizing before with
  | nil => simp [cutAt, some] at cut
  | cons char rest inductionHypothesis =>
    rw [cutAt] at cut
    split at cut
    case isTrue starts =>
      obtain ⟨more, same⟩ := List.isPrefixOf_iff_prefix.mp starts
      cases cut
      rw [← same, List.drop_left]
      exact ⟨rfl, FirstAt.nil some⟩
    case isFalse apart =>
      obtain ⟨⟨front, back⟩, found, same⟩ := Option.map_eq_some_iff.mp cut
      cases same
      obtain ⟨rfl, first⟩ := inductionHypothesis found
      refine ⟨rfl, FirstAt.cons_iff.mpr ⟨fun starts => apart ?_, first⟩⟩
      rw [List.isPrefixOf_iff_prefix, begins_iff]
      exact starts

end Cutting

/-- The parts of a text outside its reminders: a reminder goes from an opening tag to the
next closing tag, or to the end of the text. -/
inductive Outside : List Char → List (List Char) → Prop
  | plain {text : List Char} : ¬ reminderOpen <:+: text → Outside text [text]
  | unterminated {before after : List Char} : FirstAt reminderOpen before →
      ¬ reminderClose <:+: after → Outside (before ++ reminderOpen ++ after) [before]
  | reminder {before body rest : List Char} {parts : List (List Char)} :
      FirstAt reminderOpen before → FirstAt reminderClose body → Outside rest parts →
        Outside (before ++ reminderOpen ++ (body ++ reminderClose ++ rest)) (before :: parts)

/-- The parts outside the reminders of a text spell an opening tag across their borders. -/
def SpellsReminder (text : String) : Prop :=
  ∃ parts, Outside text.toList parts ∧ Straddles reminderOpen parts

section Scanner

theorem reminderOpen_ne_nil : reminderOpen ≠ [] := by decide

/-- An opening tag holds no whitespace. -/
theorem reminderOpen_visible : ∀ char ∈ reminderOpen, isWhitespace char = false := by
  have checked : reminderOpen.all (fun char => isWhitespace char = false) = true := by
    decide +kernel
  simpa using checked

theorem reminderClose_ne_nil : reminderClose ≠ [] := by decide

/-- Every text has parts outside its reminders. -/
theorem outside_exists (text : List Char) : ∃ parts, Outside text parts := by
  induction size : text.length using Nat.strong_induction_on generalizing text with
  | _ count inductionHypothesis =>
    cases opened : cutAt reminderOpen text with
    | none => exact ⟨[text], .plain ((cutAt_none reminderOpen_ne_nil).mp opened)⟩
    | some cut =>
      obtain ⟨rfl, first⟩ := cutAt_some reminderOpen_ne_nil opened
      cases closed : cutAt reminderClose cut.2 with
      | none =>
        exact ⟨[cut.1], .unterminated first ((cutAt_none reminderClose_ne_nil).mp closed)⟩
      | some rest =>
        obtain ⟨same, firstClose⟩ := cutAt_some reminderClose_ne_nil closed
        have length := congrArg List.length same
        simp only [List.length_append] at length size
        have opening : 0 < reminderOpen.length := by decide
        obtain ⟨parts, outside⟩ := inductionHypothesis rest.2.length (by omega) rest.2 rfl
        refine ⟨cut.1 :: parts, ?_⟩
        rw [same]
        exact .reminder first firstClose outside

/-- **The scanner joins** the parts outside the reminders. -/
theorem Outside.strip {text : List Char} {parts : List (List Char)} (outside : Outside text parts)
    {rounds : Nat} (enough : text.length ≤ rounds) : stripFrom rounds text = parts.flatten := by
  induction outside generalizing rounds with
  | plain absent =>
    cases rounds with
    | zero => simp [stripFrom]
    | succ rounds =>
      rw [stripFrom, (cutAt_none reminderOpen_ne_nil).mpr absent]
      simp
  | unterminated first unclosed =>
    obtain ⟨rounds, rfl⟩ : ∃ fewer, rounds = fewer + 1 := by
      refine ⟨rounds - 1, ?_⟩
      have opening : 0 < reminderOpen.length := by decide
      simp only [List.length_append] at enough
      omega
    rw [stripFrom, cutAt_first reminderOpen_ne_nil first]
    simp [(cutAt_none reminderClose_ne_nil).mpr unclosed]
  | reminder first firstClose outside inductionHypothesis =>
    have opening : 0 < reminderOpen.length := by decide
    simp only [List.length_append] at enough
    obtain ⟨rounds, rfl⟩ : ∃ fewer, rounds = fewer + 1 := ⟨rounds - 1, by omega⟩
    rw [stripFrom, cutAt_first reminderOpen_ne_nil first]
    simp only [cutAt_first reminderClose_ne_nil firstClose, List.flatten_cons]
    rw [inductionHypothesis (by omega)]

/-- No part holds an opening tag. -/
theorem Outside.absent {text : List Char} {parts : List (List Char)} (outside : Outside text parts) :
    ∀ part ∈ parts, ¬ reminderOpen <:+: part := by
  induction outside with
  | plain absent =>
    intro part member
    rwa [List.mem_singleton.mp member]
  | unterminated first _ =>
    intro part member
    rw [List.mem_singleton.mp member]
    exact first.absent
  | reminder first _ _ inductionHypothesis =>
    intro part member
    rcases List.mem_cons.mp member with rfl | later
    · exact first.absent
    · exact inductionHypothesis part later

/-- **What is left holds an opening tag** exactly where the parts spell one. -/
theorem stripped_holds_iff (text : String) :
    reminderOpen <:+: (stripSystemReminders text).toList ↔ SpellsReminder text := by
  have read {parts : List (List Char)} (outside : Outside text.toList parts) :
      reminderOpen <:+: (stripSystemReminders text).toList ↔ Straddles reminderOpen parts := by
    rw [stripSystemReminders, trim, trimMatches, String.toList_ofList, String.toList_ofList,
      outside.strip (Nat.le_refl _)]
    refine (infix_trimEnds_iff reminderOpen_ne_nil reminderOpen_visible).trans ?_
    rw [infix_flatten_iff reminderOpen_ne_nil]
    refine or_iff_right ?_
    rintro ⟨part, member, occurs⟩
    exact outside.absent part member occurs
  constructor
  · intro holds
    obtain ⟨parts, outside⟩ := outside_exists text.toList
    exact ⟨parts, outside, (read outside).mp holds⟩
  · rintro ⟨parts, outside, straddles⟩
    exact (read outside).mpr straddles

/-- A text without an opening tag is only trimmed. -/
theorem stripFrom_plain {text : List Char} (absent : ¬ reminderOpen <:+: text) :
    stripFrom text.length text = text := by
  rw [(Outside.plain absent).strip (Nat.le_refl _)]
  simp

/-- Stripping again changes nothing where no opening tag was left. -/
theorem strip_again {text : String} (absent : ¬ reminderOpen <:+: (stripSystemReminders text).toList) :
    stripSystemReminders (stripSystemReminders text) = stripSystemReminders text := by
  have trimmed : trim (stripSystemReminders text) = stripSystemReminders text := by
    rw [stripSystemReminders, trim, trimMatches, trimMatches, String.toList_ofList]
    exact congrArg String.ofList (trimEnds_idempotent _)
  rw [show stripSystemReminders (stripSystemReminders text) =
    trim (String.ofList (stripFrom _ (stripSystemReminders text).toList)) from rfl,
    stripFrom_plain absent, String.ofList_toList, trimmed]

end Scanner

section Words

/-- The paragraphs are parts of the text, and it begins with the first. -/
theorem paragraphs_parts (chars : List Char) : (∀ part ∈ paragraphs chars, part <:+: chars) ∧
    ∀ part ∈ (paragraphs chars).head?, part <+: chars := by
  induction chars using paragraphs.induct with
  | case1 => simp [paragraphs]
  | case2 rest inductionHypothesis =>
    rw [paragraphs]
    constructor
    · intro part member
      rcases List.mem_cons.mp member with rfl | later
      · exact List.nil_infix
      · have inRest := inductionHypothesis.1 part later
        exact inRest.trans (List.suffix_append ['\n', '\n'] rest).isInfix
    · rintro part ⟨⟩
      exact List.nil_prefix
  | case3 char rest apart none inductionHypothesis =>
    rw [paragraphs.eq_3 _ _ apart, none]
    constructor
    · intro part member
      rw [List.mem_singleton.mp member]
      exact (List.prefix_append [char] rest).isInfix
    · rintro part ⟨⟩
      exact List.prefix_append [char] rest
  | case4 char rest apart part parts some inductionHypothesis =>
    rw [some] at inductionHypothesis
    rw [paragraphs.eq_3 _ _ apart, some]
    have starts : char :: part <+: char :: rest :=
      (List.prefix_cons_inj char).mpr (inductionHypothesis.2 part rfl)
    constructor
    · intro other member
      rcases List.mem_cons.mp member with rfl | later
      · exact starts.isInfix
      · exact (inductionHypothesis.1 other (List.mem_cons_of_mem part later)).trans
          (List.suffix_cons char rest).isInfix
    · rintro other ⟨⟩
      exact starts

/-- The pieces of a paragraph are parts of it. -/
theorem hardSplitFrom_parts {maxBytes rounds : Nat} {chars : List Char} :
    ∀ piece ∈ hardSplitFrom maxBytes rounds chars, piece <:+: chars := by
  induction rounds generalizing chars with
  | zero => exact fun piece member => absurd member List.not_mem_nil
  | succ rounds inductionHypothesis =>
    cases chars with
    | nil => exact fun piece member => absurd member List.not_mem_nil
    | cons char rest =>
      intro piece member
      obtain ⟨whole, _, _⟩ := cutPiece_spec maxBytes (List.cons_ne_nil char rest)
      have front := (List.prefix_append (cutPiece maxBytes (char :: rest)).1
        (cutPiece maxBytes (char :: rest)).2).isInfix
      have back := (List.suffix_append (cutPiece maxBytes (char :: rest)).1
        (cutPiece maxBytes (char :: rest)).2).isInfix
      rw [whole] at front back
      have first : trimChars (cutPiece maxBytes (char :: rest)).1 <:+: char :: rest := by
        rw [trimChars_eq]
        exact (infix_of_trimEnds (List.infix_refl _)).trans front
      simp only [hardSplitFrom] at member
      split at member
      case isTrue => exact (inductionHypothesis piece member).trans back
      case isFalse =>
        obtain same | later := List.mem_cons.mp member
        · rw [same]
          exact first
        · exact (inductionHypothesis piece later).trans back

/-- What stands between two packed paragraphs is whitespace. -/
theorem paragraphBreak_blank : ∀ char ∈ ['\n', '\n'], isWhitespace char = true := by
  simp [isWhitespace]

variable {word : List Char} (some : word ≠ []) (solid : ∀ char ∈ word, isWhitespace char = false)

/-- A closed chunk holds the words of the current one. -/
theorem flush_words {current : List Char} {chunks : List (List Char)} :
    ∀ chunk ∈ flush current chunks, chunk ∈ chunks ∨ chunk <:+: current := by
  intro chunk member
  by_cases blank : trimChars current = []
  · rw [flush, if_pos blank] at member
    exact .inl member
  · rw [flush, if_neg blank] at member
    rcases List.mem_append.mp member with earlier | last
    · exact .inl earlier
    · rw [List.mem_singleton.mp last, trimChars_eq]
      exact .inr (infix_of_trimEnds (List.infix_refl _))

include some solid

/-- A word of a chunk is a word of what was packed. -/
theorem packParagraphs_words {bound : Nat} {paras : List (List Char)} {current : List Char}
    {chunks : List (List Char)} (absentChunks : ∀ chunk ∈ chunks, ¬ word <:+: chunk)
    (absent : ¬ word <:+: current) (absentParas : ∀ para ∈ paras, ¬ word <:+: para) :
    ∀ chunk ∈ packParagraphs bound paras current chunks, ¬ word <:+: chunk := by
  have closed : ∀ chunk ∈ flush current chunks, ¬ word <:+: chunk := by
    intro chunk member occurs
    rcases flush_words chunk member with earlier | part
    · exact absentChunks chunk earlier occurs
    · exact absent (occurs.trans part)
  induction paras generalizing current chunks with
  | nil => exact closed
  | cons para rest inductionHypothesis =>
    have here := absentParas para List.mem_cons_self
    have later : ∀ other ∈ rest, ¬ word <:+: other := fun other member =>
      absentParas other (List.mem_cons_of_mem para member)
    have next {current : List Char} {chunks : List (List Char)}
        (absentChunks : ∀ chunk ∈ chunks, ¬ word <:+: chunk) (absent : ¬ word <:+: current) :
        ∀ chunk ∈ packParagraphs bound rest current chunks, ¬ word <:+: chunk := by
      apply inductionHypothesis absentChunks absent later
      intro chunk member occurs
      rcases flush_words chunk member with earlier | part
      · exact absentChunks chunk earlier occurs
      · exact absent (occurs.trans part)
    by_cases fits : byteLength para ≤ bound
    · rw [packParagraphs_fits fits]
      split
      case isTrue => exact next absentChunks here
      case isFalse =>
        split
        case isTrue => exact next closed here
        case isFalse =>
          apply next absentChunks
          intro occurs
          have apart := infix_of_separated some solid (by decide) paragraphBreak_blank occurs
          rcases apart with front | back
          · exact absent front
          · exact here back
    · rw [packParagraphs, if_pos (Nat.not_le.mp fits)]
      apply next
      · intro chunk member occurs
        rcases List.mem_append.mp member with earlier | piece
        · exact closed chunk earlier occurs
        · exact here (occurs.trans (hardSplitFrom_parts chunk piece))
      · exact fun occurs => some (List.infix_nil.mp occurs)

/-- **A word of a chunk** is a word of the text. -/
theorem infix_of_chunkText {text : String} {maxBytes : Nat} (absent : ¬ word <:+: text.toList) :
    ∀ chunk ∈ chunkText text maxBytes, ¬ word <:+: chunk.toList := by
  intro chunk member
  obtain ⟨chars, packed, rfl⟩ := List.mem_map.mp member
  rw [String.toList_ofList]
  refine packParagraphs_words some solid (fun chunk member => absurd member List.not_mem_nil)
    (fun occurs => some (List.infix_nil.mp occurs)) ?_ chars packed
  intro para kept occurs
  obtain ⟨part, present, rfl⟩ := List.mem_map.mp (List.mem_filter.mp kept).1
  rw [trimChars_eq] at occurs
  exact absent ((infix_of_trimEnds occurs).trans ((paragraphs_parts text.toList).1 part present))

end Words

/-- An item of a user message holds a chunk of the stripped text. -/
theorem user_items_chunks {platform : Platform} {fs : FileSystem} {transcript : ClaudeTranscript}
    {line : ClaudeLine} {content : Json} {items : List NewItem} (user : line.kind = "user")
    (message : line.message = some (some content))
    (read : transcript.lineToItems platform fs line = some items) :
    ∀ item ∈ items, item.content ∈
      chunkText (stripSystemReminders (extractText content).1) transcript.chunkBytes := by
  intro item member
  unfold ClaudeTranscript.lineToItems at read
  split at read
  case isTrue => cases read
  case isFalse =>
    split at read
    case isTrue =>
      cases read
      cases member
    case isFalse =>
      split at read
      case isTrue =>
        cases read
        cases member
      case isFalse =>
        split at read
        case isTrue =>
          cases read
          cases member
        case isFalse =>
          rw [message] at read
          cases identified : line.uuid with
          | none =>
            rw [identified] at read
            cases read
            cases member
          | some uuid =>
            rw [identified] at read
            rw [← Option.some.inj read] at member
            obtain ⟨chunk, present, rfl⟩ := List.mem_map.mp member
            exact List.fst_mem_of_mem_zipIdx present

/-- **Stripping is complete** exactly where the parts outside the reminders spell no opening
tag: then none is left, stripping again changes nothing, and no item of a user message
holds one. -/
theorem reminders_stripped_iff (text : String) :
    (¬ reminderOpen <:+: (stripSystemReminders text).toList ∧
      stripSystemReminders (stripSystemReminders text) = stripSystemReminders text ∧
      ∀ (platform : Platform) (fs : FileSystem) (transcript : ClaudeTranscript) (line : ClaudeLine)
        (content : Json) (items : List NewItem), line.kind = "user" →
        line.message = some (some content) → (extractText content).1 = text →
        transcript.lineToItems platform fs line = some items →
        ∀ item ∈ items, ¬ reminderOpen <:+: item.content.toList) ↔
      ¬ SpellsReminder text := by
  rw [← stripped_holds_iff]
  constructor
  · exact And.left
  · intro absent
    refine ⟨absent, strip_again absent, ?_⟩
    rintro platform fs transcript line content items user message rfl read item member
    exact infix_of_chunkText reminderOpen_ne_nil reminderOpen_visible absent item.content
      (user_items_chunks user message read item member)

/-- **A reminder inside an opening tag** leaves an opening tag, and stripping again removes
it. -/
theorem reminder_is_spelled :
    stripSystemReminders "<system-<system-reminder></system-reminder>reminder>" = "<system-reminder>" ∧
      stripSystemReminders "<system-reminder>" = "" := by
  decide +kernel

end Singularmem.Ingest
