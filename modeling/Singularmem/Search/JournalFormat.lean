import Singularmem.Search.TornAppend

/-!
# The journal's format

The header's length, the length of a record and the offsets are computed where a journal is
opened, appended to, replayed, measured and cleared. They agree: a file is accepted exactly
where it starts with the header, replay gives back what was appended since the last clear,
and what it reads of a body is the longest part of it that is whole records.
-/

namespace Singularmem.Search

open Library Singularmem.Core

namespace Journal

variable {header : JournalHeader} {bytes : List UInt8} {dim : Nat} {modelId : String}

/-- A journal that is accepted was asked for with its own header. -/
theorem open_asked {file : Option (List UInt8)}
    (opened : Journal.open file dim modelId = .ok header) :
    dim < 2 ^ 32 ∧ header = ⟨dim, modelId⟩ := by
  rw [Journal.open.eq_def] at opened
  split at opened
  case isTrue => cases opened
  case isFalse narrow =>
    have fits : dim < 2 ^ 32 := Nat.not_le.mp narrow
    cases file with
    | none =>
      simp only at opened
      split at opened
      · cases opened
      · cases opened
        exact ⟨fits, rfl⟩
    | some bytes =>
      simp only at opened
      split at opened
      · cases opened
      split at opened
      · cases opened
      split at opened
      · cases opened
      case h_2 found decoded =>
        split at opened
        · cases opened
        case isFalse sameModel =>
          split at opened
          · cases opened
          case isFalse sameDim =>
            cases opened
            refine ⟨fits, ?_⟩
            rw [← not_not.mp sameModel, ← not_not.mp sameDim]

/-- An existing file is accepted exactly where it starts with the header. -/
theorem open_iff (within : (utf8Bytes modelId).length ≤ maxModelIdLen) :
    (∃ found, Journal.open (some bytes) dim modelId = .ok found) ↔
      dim < 2 ^ 32 ∧ JournalHeader.encoded ⟨dim, modelId⟩ <+: bytes := by
  constructor
  · rintro ⟨found, opened⟩
    obtain ⟨fits, rfl⟩ := open_asked opened
    exact ⟨fits, open_prefix opened⟩
  · rintro ⟨fits, body, rfl⟩
    have accepted : JournalHeader.Accepted ⟨dim, modelId⟩ := ⟨fits, within⟩
    exact ⟨_, open_present accepted body⟩

/-- As many records are decoded as were asked for. -/
theorem decodeRecords_length (count : Nat) :
    (decodeRecords header count bytes).length = count := by
  induction count generalizing bytes with
  | zero => rfl
  | succ count inductionHypothesis => rw [decodeRecords, List.length_cons, inductionHypothesis]

/-- The length counts what replay returns, whatever the file holds. -/
theorem len_eq (header : JournalHeader) (file : Option (List UInt8)) :
    len header file = (replay header file).length := by
  cases file with
  | none => rfl
  | some bytes => rw [len, replay, decodeRecords_length, List.length_drop]

/-- The replayed records have the bytes of the whole records of the body. -/
theorem encoded_replay (header : JournalHeader) (body : List UInt8) :
    (replay header (some (header.encoded ++ body))).flatMap encodeRecord =
      body.take (body.length / header.recordLen * header.recordLen) := by
  have cut : (header.encoded ++ body).drop header.headerLen = body := List.drop_left' rfl
  rw [replay, cut]
  exact encodeRecords_decodeRecords (Nat.div_mul_le_self _ _)

/-- A part of the body that is whole records is within the bytes of the replayed ones. -/
theorem whole_records_prefix {body front : List UInt8} (starts : front <+: body)
    (whole : header.recordLen ∣ front.length) :
    front <+: (replay header (some (header.encoded ++ body))).flatMap encodeRecord := by
  rw [encoded_replay]
  apply List.prefix_take_iff.mpr
  constructor
  · exact starts
  · obtain ⟨count, length⟩ := whole
    have fits : count * header.recordLen ≤ body.length := by
      rw [Nat.mul_comm, ← length]
      exact starts.length_le
    have fewer : count ≤ body.length / header.recordLen :=
      (Nat.le_div_iff_mul_le (recordLen_pos header)).mpr fits
    calc front.length
        _ = count * header.recordLen := by rw [length, Nat.mul_comm]
        _ ≤ body.length / header.recordLen * header.recordLen := Nat.mul_le_mul_right _ fewer

end Journal

/-- The longest part at the start of a body that is a whole number of records. -/
def LongestWhole (recordLen : Nat) (body whole : List UInt8) : Prop :=
  whole <+: body ∧ recordLen ∣ whole.length ∧
    ∀ front, front <+: body → recordLen ∣ front.length → front <+: whole

/-- The replayed records have the bytes of the longest part of the body that is whole records. -/
theorem Journal.encoded_replay_longest (header : JournalHeader) (body : List UInt8) :
    LongestWhole header.recordLen body
      ((Journal.replay header (some (header.encoded ++ body))).flatMap encodeRecord) := by
  refine ⟨?_, ?_, fun front => Journal.whole_records_prefix⟩
  · rw [Journal.encoded_replay]
    exact List.take_prefix _ _
  · rw [Journal.encoded_replay, List.length_take, Nat.min_eq_left (Nat.div_mul_le_self _ _)]
    exact Nat.dvd_mul_left _ _

/-- A call on an open journal that may change its file. -/
inductive JournalCall
  | append (records : List Entry)
  | clear

/-- What a call does. -/
def JournalCall.perform : JournalCall → Op PUnit
  | .append records => journalAppend records
  | .clear => journalClear

/-- The records a journal holds after a call that returned. -/
def JournalCall.leaves (records : List Entry) : JournalCall → List Entry
  | .append added => records ++ added
  | .clear => []

/-- The records appended since the last clear, in order. -/
def sinceLastClear (calls : List JournalCall) : List Entry := calls.foldl JournalCall.leaves []

/-- Successive calls, all of which returned. -/
inductive JournalRun : Session → List JournalCall → Session → Prop
  | start (session : Session) : JournalRun session [] session
  | call {session middle after : Session} {call : JournalCall} {rest : List JournalCall} :
      call.perform.exec session = (.ok ⟨⟩, middle) → JournalRun middle rest after →
        JournalRun session (call :: rest) after

/-- Batches appended after a clear are what was appended since. -/
theorem sinceLastClear_batches (before : List JournalCall) (batches : List (List Entry)) :
    sinceLastClear (before ++ .clear :: batches.map .append) = batches.flatten := by
  have appended : ∀ records : List Entry,
      (batches.map JournalCall.append).foldl JournalCall.leaves records =
        records ++ batches.flatten := by
    induction batches with
    | nil => simp
    | cons batch rest inductionHypothesis =>
      intro records
      rw [List.map_cons, List.foldl_cons, inductionHypothesis, List.flatten_cons,
        JournalCall.leaves, List.append_assoc]
  rw [sinceLastClear, List.foldl_append, List.foldl_cons, JournalCall.leaves, appended,
    List.nil_append]

section Calls

variable {session after : Session} {records added : List Entry}

/-- An append returns exactly where all its records have the journal's dimension. -/
theorem journalAppend_returns_iff :
    (∃ after, (journalAppend added).exec session = (.ok ⟨⟩, after)) ↔
      ∀ entry ∈ added, entry.2.length = session.handle.journal.dim := by
  rw [journalAppend, Effect.exec_bind_ok (Effect.exec_get session)]
  rcases checked : added.find? (fun entry => entry.2.length ≠ session.handle.journal.dim)
    with _ | entry
  · have dimensions : ∀ entry ∈ added, entry.2.length = session.handle.journal.dim := by
      intro entry member
      simpa using List.find?_eq_none.mp checked entry member
    refine ⟨fun _ => dimensions, fun _ => ?_⟩
    cases added with
    | nil => exact ⟨_, rfl⟩
    | cons first others =>
      simp only [checked]
      cases absent : session.dir.journal.isNone with
      | false =>
        rw [createIfAbsent, bind_assoc, Effect.exec_bind_ok (Effect.exec_get session), absent]
        exact ⟨_, rfl⟩
      | true =>
        rw [createIfAbsent, bind_assoc, Effect.exec_bind_ok (Effect.exec_get session), absent]
        exact ⟨_, rfl⟩
  · have wrong : entry.2.length ≠ session.handle.journal.dim := by
      simpa using List.find?_some checked
    constructor
    · rintro ⟨after, returned⟩
      cases added with
      | nil => cases checked
      | cons first others =>
        simp only [checked] at returned
        cases returned
    · intro dimensions
      exact absurd (dimensions entry (List.mem_of_find?_eq_some checked)) wrong

/-- An append that returned added its records. -/
theorem journalAppend_holds (held : Holds session.handle.journal session.dir.journal records)
    (returned : (journalAppend added).exec session = (.ok ⟨⟩, after)) :
    after.handle = session.handle ∧
      Holds session.handle.journal after.dir.journal (records ++ added) := by
  have dimensions := journalAppend_returns_iff.mp ⟨after, returned⟩
  cases present : session.dir.journal with
  | some file =>
    obtain ⟨written, same, _⟩ := journalAppend_returned present returned
    have grown := held.append dimensions
    rw [present] at grown
    rw [written]
    exact ⟨same, grown⟩
  | none =>
    have grown := held.append dimensions
    rw [present] at grown held
    have checked :
        added.find? (fun entry => entry.2.length ≠ session.handle.journal.dim) = none := by
      apply List.find?_eq_none.mpr
      intro entry member
      simp [dimensions entry member]
    have absent : session.dir.journal.isNone = true := by simp [present]
    rw [journalAppend, Effect.exec_bind_ok (Effect.exec_get session)] at returned
    cases added with
    | nil =>
      cases returned
      rw [present, List.append_nil]
      exact ⟨rfl, held⟩
    | cons first others =>
      simp only [checked] at returned
      rw [createIfAbsent, bind_assoc, Effect.exec_bind_ok (Effect.exec_get session), absent]
        at returned
      cases returned
      constructor
      · rfl
      · exact grown

/-- A clear returns and removes every record. -/
theorem journalClear_holds (held : Holds session.handle.journal session.dir.journal records)
    (returned : journalClear.exec session = (.ok ⟨⟩, after)) :
    after.handle = session.handle ∧ Holds session.handle.journal after.dir.journal [] := by
  have cleared := held.clear
  rw [journalClear, Effect.exec_bind_ok (Effect.exec_get session),
    Effect.exec_bind_ok (Effect.exec_get session)] at returned
  cases present : session.dir.journal with
  | none =>
    simp only [present] at returned cleared
    cases returned
    rw [present]
    exact ⟨rfl, cleared⟩
  | some file =>
    simp only [present] at returned cleared
    cases returned
    constructor
    · rfl
    · rw [present] at held
      simpa [FileStep.apply, present, setLen_of_le held.header_le] using cleared

/-- **What successive calls leave.** The handle stays on its journal, which holds the records
appended since the last clear. -/
theorem JournalRun.holds {calls : List JournalCall}
    (held : Holds session.handle.journal session.dir.journal records)
    (ran : JournalRun session calls after) :
    after.handle = session.handle ∧
      Holds session.handle.journal after.dir.journal (calls.foldl JournalCall.leaves records) := by
  induction ran generalizing records with
  | start => exact ⟨rfl, held⟩
  | @call session middle after call rest returned _ inductionHypothesis =>
    have step : middle.handle = session.handle ∧
        Holds session.handle.journal middle.dir.journal (call.leaves records) := by
      cases call with
      | append added => exact journalAppend_holds held returned
      | clear => exact journalClear_holds held returned
    obtain ⟨same, next⟩ := step
    rw [← same] at next
    obtain ⟨still, last⟩ := inductionHypothesis next
    rw [same] at still last
    exact ⟨still, last⟩

end Calls

/-- A journal that holds records is accepted again. -/
theorem Holds.reopened {header : JournalHeader} {file : Option (List UInt8)}
    {records : List Entry} (held : Holds header file records) (accepted : header.Accepted) :
    Journal.open file header.dim header.modelId = .ok header := by
  obtain ⟨_, ⟨rfl, _⟩ | rfl⟩ := held
  · exact Journal.open_absent accepted
  · exact Journal.open_present accepted _

/-- **The journal reads back what was written.** For every dimension and every model id within
its bound: an existing file is accepted exactly where it starts with the encoded header; calls
that returned, from an absent file on, leave a file that is accepted again and whose replay is
the records appended since the last clear; the replayed records of any body have the bytes of
its longest part that is whole records; and the length counts what replay returns. -/
theorem journal_reads_back (dim : Nat) (modelId : String)
    (within : (utf8Bytes modelId).length ≤ maxModelIdLen) :
    (∀ bytes, (∃ found, Journal.open (some bytes) dim modelId = .ok found) ↔
      dim < 2 ^ 32 ∧ JournalHeader.encoded ⟨dim, modelId⟩ <+: bytes) ∧
    (∀ session calls after, session.dir.journal = none →
      Journal.open none dim modelId = .ok session.handle.journal →
      JournalRun session calls after →
        Journal.open after.dir.journal dim modelId = .ok ⟨dim, modelId⟩ ∧
          Journal.replay ⟨dim, modelId⟩ after.dir.journal = sinceLastClear calls) ∧
    (∀ body, LongestWhole (16 + 4 * dim) body
      ((Journal.replay ⟨dim, modelId⟩
        (some (JournalHeader.encoded ⟨dim, modelId⟩ ++ body))).flatMap encodeRecord)) ∧
    ∀ file, Journal.len ⟨dim, modelId⟩ file = (Journal.replay ⟨dim, modelId⟩ file).length := by
  have recordLen : JournalHeader.recordLen ⟨dim, modelId⟩ = 16 + 4 * dim := by
    rw [JournalHeader.recordLen, idBytes, Nat.mul_comm]
  refine ⟨fun bytes => Journal.open_iff within, ?_, ?_, Journal.len_eq _⟩
  · intro session calls after absent opened ran
    obtain ⟨fits, header⟩ := Journal.open_asked opened
    have held : Holds session.handle.journal session.dir.journal [] := by
      rw [absent]
      exact Holds.absent _
    obtain ⟨_, left⟩ := ran.holds held
    rw [header] at left
    have accepted : JournalHeader.Accepted ⟨dim, modelId⟩ := ⟨fits, within⟩
    exact ⟨left.reopened accepted, left.replay⟩
  · intro body
    rw [← recordLen]
    exact Journal.encoded_replay_longest ⟨dim, modelId⟩ body

/-- A record appended, cleared and another one appended, on a journal of one component. -/
def oneComponentCalls : List JournalCall :=
  [.append [(⟨7⟩, [2])], .clear, .append [(⟨5⟩, [3]), (⟨6⟩, [4])]]

/-- Two records appended after a clear are read back. -/
theorem appended_after_clear_reads_back :
    ∃ after, JournalRun ⟨[], Directory.fresh, [], oneComponent⟩ oneComponentCalls after ∧
      Journal.open after.dir.journal 1 "" = .ok ⟨1, ""⟩ ∧
        Journal.replay ⟨1, ""⟩ after.dir.journal = [(⟨5⟩, [3]), (⟨6⟩, [4])] := by
  have ran : ∃ after, JournalRun ⟨[], Directory.fresh, [], oneComponent⟩ oneComponentCalls after :=
    ⟨_, .call rfl (.call rfl (.call rfl (.start _)))⟩
  obtain ⟨after, ran⟩ := ran
  have opened : Journal.open none 1 "" = .ok oneComponent.journal := by decide +kernel
  have left := (journal_reads_back 1 "" (by decide)).2.1 _ _ _ rfl opened ran
  exact ⟨after, ran, left⟩

end Singularmem.Search
