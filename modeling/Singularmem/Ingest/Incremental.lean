import Singularmem.Ingest.Claude
import Singularmem.Ingest.ClosedForm
import Singularmem.Ingest.Codex
import Singularmem.Ingest.TornLines

/-!
# Incremental ingestion of transcripts

A source that grows at its end, whose items carry an `external_id` and no content hash, may
be ingested while it grows: the runs leave together what one run over the final source
leaves. Transcripts are such sources, wherever the agent was interrupted in writing.
-/

namespace Singularmem.Ingest

open Library Singularmem.Core
open Effect hiding ofExcept

variable {platform : Platform} {readings : Readings}

/-- The clock of the calls for one item does not read before 1970. -/
def Readings.Recent (readings : Readings) : Prop := ∀ place, (readings.alone place).Recent

/-- Items of such sources are stored under a key and never replaced. -/
structure KeyedItem (item : NewItem) : Prop where
  keyed : item.externalId.isSome
  unhashed : contentHash item.metadata = none

/-- The candidates of a list that are stored. -/
def storable (platform : Platform) (considered : List Candidate) : List Candidate :=
  considered.filter fun candidate => valid platform candidate.1

/-- A candidate without a hash replaces nothing. -/
theorem replacement_unhashed {tables : Tables} {candidate : Candidate}
    (unhashed : contentHash candidate.1.metadata = none) :
    replacement platform tables candidate = none := by
  cases given : candidate.1.externalId with
  | none => rw [replacement, given]; rfl
  | some key =>
    rw [replacement, given]
    cases found : (getByExternalId platform tables key).toOption.join with
    | none =>
      change (getByExternalId platform tables key).toOption.join >>= _ = none
      rw [found]
      rfl
    | some old =>
      change (getByExternalId platform tables key).toOption.join >>= _ = none
      rw [found, unhashed]
      rfl

/-- What a run over keyed items leaves: what was there, and the valid new candidates. -/
theorem run_appends {source : Source} {report : Report} {store after : Store}
    (recent : readings.Recent) (keyed : ∀ candidate ∈ candidates source, KeyedItem candidate.1)
    (returned : exec (ingestSource platform readings source false) store = (.ok report, after)) :
    contents after.database.tables = contents store.database.tables ++
      (storable platform (newCandidates store.database.tables source)).map fun candidate =>
        submitted platform candidate.1 := by
  obtain ⟨middle, between, sifted, landed, _⟩ := @ingestSource_returned platform readings
    (fun _ => True) source report store after (fun _ _ => trivial) (fun _ _ _ _ => trivial) returned
  have nothing : replacements platform store.database.tables (considered source) = [] := by
    rw [replacements, List.filterMap_eq_nil_iff]
    intro candidate member
    have inSource := (firsts_sublist [] _).subset member
    rw [replacement_unhashed (keyed candidate inSource).unhashed]
    rfl
  rw [landed.contents, sifted.contents, nothing, landings_valid fun candidate _ => recent candidate.2]
  rfl

/-- The first occurrences in a longer list begin with those in its front. -/
theorem firsts_append (seen : List String) (front rest : List Candidate) :
    ∃ known, firsts seen (front ++ rest) = firsts seen front ++ firsts known rest := by
  induction front generalizing seen with
  | nil => exact ⟨seen, rfl⟩
  | cons candidate front inductionHypothesis =>
    rw [List.cons_append, firsts, firsts]
    split
    case h_1 =>
      obtain ⟨known, same⟩ := inductionHypothesis seen
      exact ⟨known, by rw [same, List.cons_append]⟩
    case h_2 key _ =>
      split
      · exact inductionHypothesis seen
      · obtain ⟨known, same⟩ := inductionHypothesis (key :: seen)
        exact ⟨known, by rw [same, List.cons_append]⟩

/-- The store has no item of a source. -/
def Unknown (tables : Tables) (source : Source) : Prop :=
  ∀ candidate ∈ candidates source, ∀ key ∈ candidate.1.externalId, ¬ tables.carries key

/-- Every candidate of an unknown source is new. -/
theorem newCandidates_unknown {tables : Tables} {source : Source} (unknown : Unknown tables source) :
    newCandidates tables source = considered source := by
  refine List.filter_eq_self.mpr fun candidate member => ?_
  have inSource := (firsts_sublist [] _).subset member
  have new := mem_newCandidates.mpr ⟨member, unknown candidate inSource⟩
  exact (List.mem_filter.mp new).2

/-- Of a source whose front is stored, the valid new candidates are those after the front. -/
theorem storable_after {start tables : Tables} {source : Source} {front later : List Candidate}
    (keyed : ∀ candidate ∈ candidates source, KeyedItem candidate.1)
    (unknown : Unknown start source) (split : considered source = front ++ later)
    (carried : ∀ key, tables.carries key ↔ start.carries key ∨
      ∃ candidate ∈ storable platform front, candidate.1.externalId = some key) :
    storable platform (newCandidates tables source) = storable platform later := by
  have inSource : ∀ candidate ∈ considered source, candidate ∈ candidates source :=
    fun candidate member => (firsts_sublist [] _).subset member
  have apart := firsts_nodup [] (candidates source)
  rw [show firsts [] (candidates source) = front ++ later from split, List.filterMap_append,
    List.nodup_append] at apart
  have stored : ∀ candidate ∈ front, valid platform candidate.1 → isStored tables candidate := by
    intro candidate member validated
    obtain ⟨key, given⟩ := Option.isSome_iff_exists.mp
      (keyed candidate (inSource candidate (split ▸ List.mem_append_left _ member))).keyed
    exact isStored_iff.mpr ⟨key, given, (carried key).mpr
      (.inr ⟨candidate, List.mem_filter.mpr ⟨member, validated⟩, given⟩)⟩
  have fresh : ∀ candidate ∈ later, ¬ isStored tables candidate := by
    intro candidate member known
    have inAll := inSource candidate (split ▸ List.mem_append_right _ member)
    obtain ⟨key, given, held⟩ := isStored_iff.mp known
    rcases (carried key).mp held with before | ⟨other, otherIn, same⟩
    · exact unknown candidate inAll key given before
    · exact apart.2.2 key (List.mem_filterMap.mpr ⟨other, List.mem_of_mem_filter otherIn, same⟩) key
        (List.mem_filterMap.mpr ⟨candidate, member, given⟩) rfl
  rw [newCandidates_eq, split, storable, List.filter_filter, List.filter_append]
  have none : front.filter (fun candidate =>
      valid platform candidate.1 && !isStored tables candidate) = [] := by
    rw [List.filter_eq_nil_iff]
    intro candidate member both
    rw [Bool.and_eq_true, Bool.not_eq_true'] at both
    rw [stored candidate member both.1] at both
    cases both.2
  rw [none, List.nil_append]
  refine List.filter_congr fun candidate member => ?_
  rw [Bool.eq_false_iff.mpr (fresh candidate member), Bool.not_false, Bool.and_true]

/-- **Incremental ingestion.** A source that continues another one, over keyed items, leaves
after the run over the other what it leaves alone. -/
theorem incremental_contents {first second : Source} {early late once : Readings}
    {reportFirst reportSecond reportOnce : Report} {start middle after alone : Store}
    (clocks : early.Recent ∧ late.Recent ∧ once.Recent)
    (keyed : ∀ candidate ∈ candidates second, KeyedItem candidate.1)
    (continues : candidates first <+: candidates second)
    (unknown : Unknown start.database.tables second)
    (ranFirst : exec (ingestSource platform early first false) start = (.ok reportFirst, middle))
    (ranSecond : exec (ingestSource platform late second false) middle = (.ok reportSecond, after))
    (ranOnce : exec (ingestSource platform once second false) start = (.ok reportOnce, alone)) :
    contents after.database.tables = contents start.database.tables ++
        (storable platform (considered second)).map (fun candidate => submitted platform candidate.1) ∧
      contents alone.database.tables = contents after.database.tables := by
  obtain ⟨recentFirst, recentSecond, recentOnce⟩ := clocks
  obtain ⟨more, longer⟩ := continues
  obtain ⟨known, split⟩ := firsts_append [] (candidates first) more
  rw [longer] at split
  have firstIn : ∀ candidate ∈ candidates first, candidate ∈ candidates second :=
    fun candidate member => longer ▸ List.mem_append_left more member
  have ranAlone := run_appends recentOnce keyed ranOnce
  have begun := run_appends recentFirst (fun candidate member =>
    keyed candidate (firstIn candidate member)) ranFirst
  have ended := run_appends recentSecond keyed ranSecond
  rw [newCandidates_unknown unknown] at ranAlone
  rw [newCandidates_unknown fun candidate member => unknown candidate (firstIn candidate member)]
    at begun
  have carried : ∀ key, middle.database.tables.carries key ↔ start.database.tables.carries key ∨
      ∃ candidate ∈ storable platform (considered first), candidate.1.externalId = some key := by
    intro key
    rw [carries_contents, carries_contents, begun]
    simp only [List.mem_append, List.mem_map]
    constructor
    · rintro ⟨_, old | ⟨candidate, member, rfl⟩, same⟩
      · exact .inl ⟨_, old, same⟩
      · exact .inr ⟨candidate, member, same⟩
    · rintro (⟨stored, old, same⟩ | ⟨candidate, member, same⟩)
      · exact ⟨stored, .inl old, same⟩
      · exact ⟨_, .inr ⟨candidate, member, rfl⟩, same⟩
  rw [storable_after keyed unknown split carried, begun, List.append_assoc, ← List.map_append,
    storable, storable, ← List.filter_append] at ended
  have whole : considered second = considered first ++ firsts known more := split
  rw [whole]
  exact ⟨ended, by rw [ranAlone, ended, whole]; rfl⟩

/-- The items a line yields. -/
def LineOutcome.items (outcome : LineOutcome) : List NewItem :=
  outcome.yields.filterMap Except.toOption

/-- The candidates of a source that reads lines. -/
theorem candidates_of_lines {source : Source} {outcomes : List LineOutcome}
    (reads : source.items = outcomes.flatMap LineOutcome.yields) :
    candidates source =
      ((outcomes.flatMap LineOutcome.items).map (withDefaultScope source)).zipIdx := by
  rw [candidates, reads, List.filterMap_flatMap, List.map_flatMap]
  congr 1
  refine List.flatMap_congr fun outcome _ => ?_
  rw [LineOutcome.items, List.map_filterMap]

/-- More lines yield more candidates. -/
theorem candidates_continue {first second : Source} {short long : List LineOutcome}
    (readsFirst : first.items = short.flatMap LineOutcome.yields)
    (readsSecond : second.items = long.flatMap LineOutcome.yields)
    (sameScope : first.defaultScope = second.defaultScope)
    (continues : short.flatMap LineOutcome.items <+: long.flatMap LineOutcome.items) :
    candidates first <+: candidates second := by
  have same : withDefaultScope first = withDefaultScope second := by
    funext item
    rw [withDefaultScope, withDefaultScope, sameScope]
  obtain ⟨more, longer⟩ := continues
  rw [candidates_of_lines readsFirst, candidates_of_lines readsSecond, same, ← longer, List.map_append,
    List.zipIdx_append]
  exact List.prefix_append _ _

/-- The candidates are keyed where the items of every line are. -/
theorem lines_keyed {source : Source} {outcomes : List LineOutcome}
    (reads : source.items = outcomes.flatMap LineOutcome.yields)
    (keyed : ∀ outcome ∈ outcomes, ∀ item ∈ outcome.items, KeyedItem item) :
    ∀ candidate ∈ candidates source, KeyedItem candidate.1 := by
  intro candidate member
  rw [candidates_of_lines reads] at member
  obtain ⟨item, itemIn, same⟩ := List.mem_map.mp (List.fst_mem_of_mem_zipIdx member)
  obtain ⟨outcome, outcomeIn, inside⟩ := List.mem_flatMap.mp itemIn
  have known := keyed outcome outcomeIn item inside
  rw [← same, withDefaultScope]
  split
  · exact ⟨known.keyed, known.unhashed⟩
  · exact known

/-- The items of a message. -/
theorem items_message (message : Option (List NewItem)) :
    (LineOutcome.message message).items = message.getD [] := by
  cases message with
  | none => rfl
  | some items =>
    rw [LineOutcome.message, LineOutcome.items, List.filterMap_map]
    exact List.filterMap_some

/-- Reading a line gives items of the parsed line, if any. -/
theorem readLine_items {Line σ : Type} {reader : LineReader Line} {state : σ}
    {parsed : Line → LineOutcome × σ} {raw : List UInt8} {holds : NewItem → Prop}
    (each : ∀ line, ∀ item ∈ (parsed line).1.items, holds item) :
    ∀ item ∈ (readLine reader state parsed raw).1.items, holds item := by
  rw [readLine]
  split
  · simp [LineOutcome.failed, LineOutcome.items, Except.toOption]
  · split
    · simp [LineOutcome.none, LineOutcome.items]
    · split
      · simp [LineOutcome.failed, LineOutcome.items, Except.toOption]
      case h_2 line _ => exact each line

/-- Items of Claude Code have a key and no hash. -/
theorem claudeItem_keyed (line : ClaudeLine) (sessionId uuid : String) (toolNames : List String)
    (chunkCount : Nat) (chunk : String × Nat) :
    KeyedItem (claudeItem platform line sessionId uuid toolNames chunkCount chunk) :=
  ⟨rfl, rfl⟩

/-- Items of Codex have a key and no hash. -/
theorem codexItem_keyed (line : CodexLine) (number : Nat) (session : Session) (role : String)
    (chunkCount : Nat) (chunk : String × Nat) :
    KeyedItem (codexItem platform line number session role chunkCount chunk) :=
  ⟨rfl, rfl⟩

variable {fs : FileSystem}

/-- The items of a line of Claude Code. -/
theorem ClaudeTranscript.lineToItems_keyed (transcript : ClaudeTranscript) (line : ClaudeLine) :
    ∀ item ∈ (transcript.lineToItems platform fs line).getD [], KeyedItem item := by
  rw [ClaudeTranscript.lineToItems]
  split
  · simp
  · split
    · simp
    · split
      · simp
      · split
        · simp
        · split
          · intro item member
            obtain ⟨chunk, _, rfl⟩ := List.mem_map.mp member
            exact claudeItem_keyed line _ _ _ _ chunk
          · simp

/-- The items of a line of Codex. -/
theorem CodexRollout.lineToItems_keyed (rollout : CodexRollout) (number : Nat) (line : CodexLine)
    (session : Session) :
    ∀ item ∈ (rollout.lineToItems platform fs number line session).getD [], KeyedItem item := by
  rw [CodexRollout.lineToItems]
  split
  · simp
  · split
    · simp
    · split
      · simp
      · split
        · simp
        · split
          · simp
          · split
            · simp
            · intro item member
              obtain ⟨chunk, _, rfl⟩ := List.mem_map.mp member
              exact codexItem_keyed line _ _ _ _ chunk

/-- What is written so far is the front of a file whose lines are JSON. -/
def JsonFront {Line : Type} (reader : LineReader Line) (written : List UInt8) : Prop :=
  ∃ tail, ∀ raw ∈ rawLines 10 (written ++ tail), reader.JsonLine raw

/-- The last line of the shorter file, if it is torn, is completed by a line that begins a
line of JSON. -/
theorem JsonFront.tears {Line : Type} {reader : LineReader Line} {front rest : List UInt8}
    (json : JsonFront reader (front ++ rest)) {before : List (List UInt8)} {torn more : List UInt8}
    {others : List (List UInt8)} (long : rawLines 10 (front ++ rest) = before ++ (torn ++ more) :: others) :
    ∃ tail, reader.JsonLine (torn ++ more ++ tail) := by
  obtain ⟨unwritten, lines⟩ := json
  have member : torn ++ more ∈ rawLines 10 (front ++ rest) := by
    rw [long]
    exact List.mem_append_right before List.mem_cons_self
  obtain ⟨tail, complete⟩ := (rawLines_continues 10 (front ++ rest) unwritten).begins member
  exact ⟨tail, lines _ complete⟩

/-- A file of Claude Code that grows yields more items. -/
theorem ClaudeTranscript.readFile_continues (transcript : ClaudeTranscript)
    {reader : LineReader ClaudeLine} {front rest : List UInt8} (json : JsonFront reader (front ++ rest)) :
    (transcript.readFile platform fs reader front).flatMap LineOutcome.items <+:
      (transcript.readFile platform fs reader (front ++ rest)).flatMap LineOutcome.items := by
  refine readLines_continues (rawLines_continues 10 front rest) ?_ () 1
  intro before torn more others _ long state number
  obtain ⟨tail, complete⟩ := json.tears long
  exact (readLine_torn complete).imp_right fun same => by rw [same]

/-- A file of Codex that grows yields more items. -/
theorem CodexRollout.readFile_continues (rollout : CodexRollout)
    {reader : LineReader CodexLine} {front rest : List UInt8} (json : JsonFront reader (front ++ rest)) :
    (rollout.readFile platform fs reader front).flatMap LineOutcome.items <+:
      (rollout.readFile platform fs reader (front ++ rest)).flatMap LineOutcome.items := by
  refine readLines_continues (rawLines_continues 10 front rest) ?_ (Session.mk rollout.fileStem none) 1
  intro before torn more others _ long state number
  obtain ⟨tail, complete⟩ := json.tears long
  exact (readLine_torn complete).imp_right fun same => by rw [same]

/-- A transcript file of one of the agents. -/
inductive Transcript
  | claude (transcript : ClaudeTranscript)
  | codex (rollout : CodexRollout)

/-- The parsers of the lines. -/
structure LineReaders where
  claude : LineReader ClaudeLine
  codex : LineReader CodexLine

namespace Transcript

/-- The source that reads a transcript of these bytes. -/
def source (platform : Platform) (fs : FileSystem) (readers : LineReaders) (bytes : List UInt8) :
    Transcript → Source
  | .claude transcript => transcript.source platform fs readers.claude bytes
  | .codex rollout => rollout.source platform fs readers.codex bytes

/-- What is written so far of the transcript is the front of a file of JSON lines. -/
def JsonLines (readers : LineReaders) (written : List UInt8) : Transcript → Prop
  | .claude _ => JsonFront readers.claude written
  | .codex _ => JsonFront readers.codex written

/-- Every item of a transcript has a key and no hash. -/
theorem keyed (transcript : Transcript) (readers : LineReaders) (bytes : List UInt8) :
    ∀ candidate ∈ candidates (transcript.source platform fs readers bytes), KeyedItem candidate.1 := by
  cases transcript with
  | claude transcript =>
    refine lines_keyed rfl (forall_readLines (fun _ _ _ => ?_) () 1 _)
    refine readLine_items fun line => ?_
    rw [items_message]
    exact transcript.lineToItems_keyed line
  | codex rollout =>
    refine lines_keyed rfl (forall_readLines (fun session number _ => ?_)
      (Session.mk rollout.fileStem none) 1 _)
    refine readLine_items fun line => ?_
    rw [CodexRollout.parsedLine]
    split
    · simp [LineOutcome.none, LineOutcome.items]
    · rw [items_message]
      exact rollout.lineToItems_keyed number line session

/-- A transcript that grows has more candidates. -/
theorem continues (transcript : Transcript) {readers : LineReaders} {front rest : List UInt8}
    (json : transcript.JsonLines readers (front ++ rest)) :
    candidates (transcript.source platform fs readers front) <+:
      candidates (transcript.source platform fs readers (front ++ rest)) := by
  cases transcript with
  | claude transcript =>
    exact candidates_continue rfl rfl rfl (transcript.readFile_continues json)
  | codex rollout => exact candidates_continue rfl rfl rfl (rollout.readFile_continues json)

end Transcript

/-- A fresh store has no item. -/
theorem unknown_fresh (source : Source) : Unknown Database.fresh.tables source := by
  rintro _ _ key _ ⟨shelved, member, _⟩
  cases member

/-- **Incremental transcript ingestion.** Wherever the bytes of a transcript are cut, a run
over the front and one over the whole file leave together what one run over the whole file
leaves in an empty store: the contents of the valid items, in order and each once. -/
theorem incremental_transcript {fs : FileSystem} {readers : LineReaders} (transcript : Transcript)
    {front rest : List UInt8} (json : transcript.JsonLines readers (front ++ rest))
    {early late once : Readings} (clocks : early.Recent ∧ late.Recent ∧ once.Recent)
    {reportFirst reportSecond reportOnce : Report} {middle after alone : Store}
    (ranFirst : exec (ingestSource platform early (transcript.source platform fs readers front) false)
      ⟨false, .fresh⟩ = (.ok reportFirst, middle))
    (ranSecond : exec (ingestSource platform late
      (transcript.source platform fs readers (front ++ rest)) false) middle = (.ok reportSecond, after))
    (ranOnce : exec (ingestSource platform once
      (transcript.source platform fs readers (front ++ rest)) false) ⟨false, .fresh⟩ =
        (.ok reportOnce, alone)) :
    contents after.database.tables = contents alone.database.tables ∧
      contents after.database.tables = (storable platform
        (considered (transcript.source platform fs readers (front ++ rest)))).map
          fun candidate => submitted platform candidate.1 := by
  obtain ⟨whole, same⟩ := incremental_contents clocks (transcript.keyed readers (front ++ rest))
    (transcript.continues json) (unknown_fresh _) ranFirst ranSecond ranOnce
  exact ⟨same.symm, whole⟩

/-- A parser that knows one object. -/
def literalReader {Line : Type} (value : List Char) (line : Line) : LineReader Line where
  readValue text :=
    if (value ++ ['}']).isPrefixOf text then .ok (line, text.drop (value ++ ['}']).length)
    else .error "EOF while parsing an object"
  selfDelineating := by
    intro text found rest read
    split at read
    case isTrue known =>
      cases read
      obtain ⟨more, rfl⟩ := List.isPrefixOf_iff_prefix.mp known
      refine ⟨value, '}', by simp, .inl rfl, fun other => ?_⟩
      have follows : (value ++ ['}']).isPrefixOf (value ++ '}' :: other) :=
        List.isPrefixOf_iff_prefix.mpr ⟨other, by simp⟩
      have dropped : (value ++ '}' :: other).drop (value ++ ['}']).length = other := by simp
      exact (if_pos follows).trans (congrArg (fun rest => Except.ok (line, rest)) dropped)
    case isFalse => cases read

/-- The text of a message. -/
def noteText : String := "\x7b\"type\":\"user\",\"uuid\":\"u\",\"message\":\x7b\"content\":\"é\"\x7d\x7d"

/-- The message. -/
def noteLine : ClaudeLine :=
  ⟨"user", some "u", none, none, none, none, none, none, none, some (some (.string "é"))⟩

/-- Parsers that know the message. -/
def noteReaders : LineReaders :=
  ⟨literalReader (noteText.toList.take (noteText.toList.length - 1)) noteLine,
    literalReader [] ⟨none, "", none⟩⟩

/-- A session file. -/
def noteFile : Transcript := .claude ⟨"session", false, none, defaultChunkBytes, none⟩

/-- Its bytes up to the middle of the character in the message. -/
def noteFront : List UInt8 := (encodeUtf8 noteText.toList).take 49

/-- The other bytes. -/
def noteRest : List UInt8 := (encodeUtf8 noteText.toList).drop 49 ++ [10]

/-- A run over what is written of it. -/
def noteRun (written : List UInt8) (store : Store) : Except Error Report × Store :=
  exec (ingestSource .ascii (standing .epoch)
    (noteFile.source .ascii ⟨fun _ => none⟩ noteReaders written) false) store

/-- The file is a line of JSON. -/
theorem noteFile_json : noteFile.JsonLines noteReaders (noteFront ++ noteRest) := by
  refine ⟨[], fun raw member => ?_⟩
  have only : rawLines 10 (noteFront ++ noteRest ++ []) = [encodeUtf8 (noteText.toList ++ ['\n'])] := by
    decide +kernel
  rw [only, List.mem_singleton] at member
  refine ⟨noteText.toList, lineText_iff.mpr ⟨_, member, by decide +kernel⟩, ?_⟩
  intro line rest read
  have front : noteReaders.claude.readValue noteText.toList = .ok (noteLine, []) := by rfl
  rw [front] at read
  cases read
  rfl

/-- The message is stored once, though the first run met it torn. -/
theorem noteFile_incremental :
    contents (noteRun (noteFront ++ noteRest) (noteRun noteFront ⟨false, .fresh⟩).2).2.database.tables =
      contents (noteRun (noteFront ++ noteRest) ⟨false, .fresh⟩).2.database.tables ∧
    (noteRun noteFront ⟨false, .fresh⟩).1 = .ok ⟨0, 0, 0, 1⟩ ∧
    (noteRun (noteFront ++ noteRest) ⟨false, .fresh⟩).1 = .ok ⟨1, 0, 0, 0⟩ := by
  have torn : (noteRun noteFront ⟨false, .fresh⟩).1 = .ok ⟨0, 0, 0, 1⟩ := by decide +kernel
  have later : (noteRun (noteFront ++ noteRest) (noteRun noteFront ⟨false, .fresh⟩).2).1 =
    .ok ⟨1, 0, 0, 0⟩ := by decide +kernel
  have once : (noteRun (noteFront ++ noteRest) ⟨false, .fresh⟩).1 = .ok ⟨1, 0, 0, 0⟩ := by
    decide +kernel
  have epoch : 0 ≤ Timestamp.epoch.asMillisecond := by decide
  have recent : (standing .epoch).Recent := fun _ => epoch
  have all := (incremental_transcript noteFile noteFile_json ⟨recent, recent, recent⟩
    (pair_of_fst torn) (pair_of_fst later) (pair_of_fst once)).1
  have run (written : List UInt8) (store : Store) : exec (ingestSource .ascii (standing .epoch)
      (noteFile.source .ascii ⟨fun _ => none⟩ noteReaders written) false) store =
    noteRun written store := rfl
  rw [run, run, run] at all
  exact ⟨all, torn, once⟩

end Singularmem.Ingest
