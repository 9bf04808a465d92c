import Singularmem.Search.Openable

/-!
# Appending after a torn tail

A crash or a failed write leaves a part of a record at the end of the journal. Replay cuts
the file into records from the header on and drops such a tail; an append writes behind it.
The records of the append are read back exactly where the tail and what follows it look
alike.
-/

namespace Singularmem.Search

open Library Singularmem.Core

/-- A decoded text has the bytes it was decoded from. -/
theorem utf8Bytes_utf8Decode {bytes : List UInt8} {text : String}
    (decoded : utf8Decode bytes = some text) : utf8Bytes text = bytes := by
  rw [utf8Decode, String.fromUTF8?] at decoded
  split at decoded
  · cases decoded
    rfl
  · cases decoded

section Decoding

variable {header : JournalHeader}

/-- A decoded vector has the bytes it was decoded from. -/
theorem encodeVector_decodeVector {count : Nat} {bytes : List UInt8}
    (whole : bytes.length = count * 4) : encodeVector (decodeVector count bytes) = bytes := by
  induction count generalizing bytes with
  | zero =>
    rw [List.length_eq_zero_iff.mp (by omega : bytes.length = 0)]
    rfl
  | succ count inductionHypothesis =>
    have first : (bytes.take 4).length = 4 := by
      rw [List.length_take]
      omega
    have component : leNat (bytes.take 4) < 2 ^ 32 := by
      have bound := leNat_lt (bytes.take 4)
      rwa [first] at bound
    have written := leBytes_leNat (bytes.take 4)
    rw [first] at written
    have later : encodeVector (decodeVector count (bytes.drop 4)) = bytes.drop 4 :=
      inductionHypothesis (by
        rw [List.length_drop]
        omega)
    change leBytes 4 (BitVec.ofNat 32 (leNat (bytes.take 4))).toNat ++
      encodeVector (decodeVector count (bytes.drop 4)) = bytes
    rw [BitVec.toNat_ofNat, Nat.mod_eq_of_lt component, written, later, List.take_append_drop]

/-- A decoded record has the bytes it was decoded from. -/
theorem encodeRecord_decodeRecord {bytes : List UInt8} (whole : bytes.length = header.recordLen) :
    encodeRecord (decodeRecord header.dim bytes) = bytes := by
  have long : bytes.length = 16 + header.dim * 4 := whole
  have first : (bytes.take idBytes).length = 16 := by
    rw [List.length_take, idBytes]
    omega
  have fits : beNat (bytes.take idBytes) < 2 ^ 128 := by
    have bound := beNat_lt (bytes.take idBytes)
    rwa [first] at bound
  have written := beBytes_beNat (bytes.take idBytes)
  rw [first] at written
  have vector : encodeVector (decodeVector header.dim (bytes.drop idBytes)) = bytes.drop idBytes :=
    encodeVector_decodeVector (by
      rw [List.length_drop, idBytes]
      omega)
  rw [encodeRecord, decodeRecord, vector, ItemId.toBytes, ItemId.fromBytes, BitVec.toNat_ofNat,
    Nat.mod_eq_of_lt fits, written, List.take_append_drop]

/-- Decoded records have the bytes they were decoded from. -/
theorem encodeRecords_decodeRecords {count : Nat} {bytes : List UInt8}
    (enough : count * header.recordLen ≤ bytes.length) :
    (decodeRecords header count bytes).flatMap encodeRecord =
      bytes.take (count * header.recordLen) := by
  induction count generalizing bytes with
  | zero => simp [decodeRecords]
  | succ count inductionHypothesis =>
    rw [Nat.succ_mul] at enough ⊢
    have first : (bytes.take header.recordLen).length = header.recordLen := by
      rw [List.length_take]
      omega
    have later : (decodeRecords header count (bytes.drop header.recordLen)).flatMap encodeRecord =
        (bytes.drop header.recordLen).take (count * header.recordLen) :=
      inductionHypothesis (by
        rw [List.length_drop]
        omega)
    rw [decodeRecords, List.flatMap_cons, encodeRecord_decodeRecord first, later,
      Nat.add_comm, List.take_add]

/-- Records are decoded one stretch after the other. -/
theorem decodeRecords_add (header : JournalHeader) (first second : Nat) (bytes : List UInt8) :
    decodeRecords header (first + second) bytes = decodeRecords header first bytes ++
      decodeRecords header second (bytes.drop (first * header.recordLen)) := by
  induction first generalizing bytes with
  | zero => simp [decodeRecords]
  | succ first inductionHypothesis =>
    rw [Nat.succ_add, decodeRecords, inductionHypothesis, decodeRecords, List.drop_drop,
      Nat.succ_mul, Nat.add_comm header.recordLen, List.cons_append]

/-- Records that are there do not depend on what follows. -/
theorem decodeRecords_append {count : Nat} {bytes : List UInt8}
    (enough : count * header.recordLen ≤ bytes.length) (tail : List UInt8) :
    decodeRecords header count (bytes ++ tail) = decodeRecords header count bytes := by
  induction count generalizing bytes with
  | zero => rfl
  | succ count inductionHypothesis =>
    rw [Nat.succ_mul] at enough
    have within : header.recordLen ≤ bytes.length := by omega
    rw [decodeRecords, decodeRecords, List.take_append_of_le_length within,
      List.drop_append_of_le_length within, inductionHypothesis]
    rw [List.length_drop]
    omega

/-- Records are read from bytes exactly where the bytes start with theirs. -/
theorem decodeRecords_eq_iff {records : List Entry} {bytes : List UInt8}
    (dimensions : ∀ entry ∈ records, entry.2.length = header.dim)
    (enough : records.length * header.recordLen ≤ bytes.length) :
    decodeRecords header records.length bytes = records ↔ records.flatMap encodeRecord <+: bytes := by
  constructor
  · intro decoded
    have written := encodeRecords_decodeRecords enough
    rw [decoded] at written
    rw [written]
    exact List.take_prefix _ bytes
  · rintro ⟨tail, rfl⟩
    exact decodeRecords_encodeRecords dimensions tail

end Decoding

section Files

variable {header : JournalHeader} {bytes : List UInt8}

/-- A header that was decoded from the whole of some bytes has these bytes. -/
theorem JournalHeader.decode_returned
    (whole : bytes.length = headerPrefixLen + leNat ((bytes.drop 10).take 2))
    (decoded : JournalHeader.decode bytes = .ok header) : header.encoded = bytes := by
  rw [JournalHeader.decode] at decoded
  split at decoded
  · cases decoded
  case isFalse started =>
    split at decoded
    · cases decoded
    case isFalse versioned =>
      have long : 12 ≤ bytes.length := by
        rw [whole, headerPrefixLen]
        omega
      have magic : bytes.take 4 = journalMagic := by
        by_contra other
        exact started (.inr other)
      have field : ∀ offset width : Nat, offset + width ≤ 12 →
          leBytes width (leNat ((bytes.drop offset).take width)) = (bytes.drop offset).take width := by
        intro offset width inside
        have length : ((bytes.drop offset).take width).length = width := by
          rw [List.length_take, List.length_drop]
          omega
        have written := leBytes_leNat ((bytes.drop offset).take width)
        rwa [length] at written
      have version := field 4 2 (by omega)
      rw [not_not.mp versioned] at version
      have rest : (bytes.drop headerPrefixLen).take (leNat ((bytes.drop 10).take 2)) =
          bytes.drop headerPrefixLen := by
        refine List.take_of_length_le ?_
        rw [List.length_drop, whole]
        omega
      simp only at decoded
      rw [if_neg (by omega), rest] at decoded
      split at decoded
      · cases decoded
      case h_2 modelId text =>
        cases decoded
        have id := utf8Bytes_utf8Decode text
        have idLength : (bytes.drop headerPrefixLen).length = leNat ((bytes.drop 10).take 2) := by
          rw [List.length_drop, whole]
          omega
        rw [JournalHeader.encoded, id, idLength, version, field 6 4 (by omega),
          field 10 2 (by omega), ← magic]
        have split : ∀ offset width : Nat, (bytes.drop offset).take width ++
            bytes.drop (offset + width) = bytes.drop offset := by
          intro offset width
          rw [← List.drop_drop, List.take_append_drop]
        have fromIdLength : (bytes.drop 10).take 2 ++ bytes.drop headerPrefixLen = bytes.drop 10 :=
          split 10 2
        have fromDim : (bytes.drop 6).take 4 ++ bytes.drop 10 = bytes.drop 6 := split 6 4
        have fromVersion : (bytes.drop 4).take 2 ++ bytes.drop 6 = bytes.drop 4 := split 4 2
        simp only [List.append_assoc]
        rw [fromIdLength, fromDim, fromVersion, List.take_append_drop]

/-- A journal that is accepted starts with its header. -/
theorem Journal.open_prefix {dim : Nat} {modelId : String}
    (opened : Journal.open (some bytes) dim modelId = .ok header) : header.encoded <+: bytes := by
  rw [Journal.open] at opened
  split at opened
  · cases opened
  simp only at opened
  split at opened
  · cases opened
  split at opened
  · cases opened
  case isFalse announced =>
    split at opened
    · cases opened
    case h_2 found decoded =>
      split at opened
      · cases opened
      split at opened
      · cases opened
      cases opened
      have fields : ((bytes.take (headerPrefixLen + leNat ((bytes.drop 10).take 2))).drop 10).take 2 =
          (bytes.drop 10).take 2 := by
        rw [List.drop_take, List.take_take, Nat.min_eq_left]
        rw [headerPrefixLen]
        omega
      rw [JournalHeader.decode_returned ?_ decoded]
      · exact List.take_prefix _ bytes
      · rw [fields, List.length_take]
        omega

/-- The part of a record at the end of a journal. -/
def Journal.tornTail (header : JournalHeader) (file : List UInt8) : List UInt8 :=
  let body := file.drop header.headerLen
  body.drop (body.length / header.recordLen * header.recordLen)

/-- **What replay returns after an append**: the records before, then what the tail and the
written bytes together decode to. -/
theorem Journal.replay_appended (started : header.encoded <+: bytes) {records : List Entry}
    (dimensions : ∀ entry ∈ records, entry.2.length = header.dim) :
    Journal.replay header (some (bytes ++ records.flatMap encodeRecord)) =
      Journal.replay header (some bytes) ++ decodeRecords header records.length
        (Journal.tornTail header bytes ++ records.flatMap encodeRecord) := by
  obtain ⟨body, rfl⟩ := started
  have cut : (header.encoded ++ body).drop header.headerLen = body := List.drop_left' rfl
  have longer : (header.encoded ++ body ++ records.flatMap encodeRecord).drop header.headerLen =
      body ++ records.flatMap encodeRecord := by
    rw [List.append_assoc]
    exact List.drop_left' rfl
  have count : (body ++ records.flatMap encodeRecord).length / header.recordLen =
      body.length / header.recordLen + records.length := by
    rw [List.length_append, encodeRecords_length dimensions,
      Nat.add_mul_div_right _ _ (recordLen_pos header)]
  have complete : body.length / header.recordLen * header.recordLen ≤ body.length :=
    Nat.div_mul_le_self _ _
  simp only [Journal.replay, Journal.tornTail, cut, longer, count]
  rw [decodeRecords_add, decodeRecords_append complete, List.drop_append_of_le_length complete]

end Files

variable {session after : Session} {records : List Entry} {file : List UInt8}

/-- An append that returned wrote its records, all of the journal's dimension, at the end of
the file. -/
theorem journalAppend_returned (present : session.dir.journal = some file)
    (returned : (journalAppend records).exec session = (.ok ⟨⟩, after)) :
    after.dir.journal = some (file ++ records.flatMap encodeRecord) ∧
      after.handle = session.handle ∧
      ∀ entry ∈ records, entry.2.length = session.handle.journal.dim := by
  rw [journalAppend, Effect.exec_bind_ok (Effect.exec_get session)] at returned
  cases records with
  | nil =>
    cases returned
    simp [present]
  | cons first others =>
    rcases checked : (first :: others).find?
      (fun entry => entry.2.length ≠ session.handle.journal.dim) with _ | entry
    · have dimensions : ∀ entry ∈ first :: others,
          entry.2.length = session.handle.journal.dim := by
        intro entry member
        simpa using List.find?_eq_none.mp checked entry member
      have there : session.dir.journal.isNone = false := by
        rw [present]
        rfl
      simp only [checked] at returned
      rw [createIfAbsent, bind_assoc, Effect.exec_bind_ok (Effect.exec_get session), there] at returned
      cases returned
      exact ⟨by simp [FileStep.apply, present], rfl, dimensions⟩
    · simp only [checked] at returned
      cases returned

/-- So did an append in chunks. -/
theorem appendChunks_returned {fuel : Nat} (enough : records.length ≤ fuel)
    (present : session.dir.journal = some file)
    (returned : (appendChunks fuel records).exec session = (.ok ⟨⟩, after)) :
    after.dir.journal = some (file ++ records.flatMap encodeRecord) ∧
      after.handle = session.handle ∧
      ∀ entry ∈ records, entry.2.length = session.handle.journal.dim := by
  induction fuel generalizing records session file with
  | zero =>
    have none : records = [] := List.eq_nil_of_length_eq_zero (by omega)
    subst none
    cases returned
    simp [present]
  | succ fuel inductionHypothesis =>
    cases records with
    | nil =>
      cases returned
      simp [present]
    | cons first others =>
      obtain ⟨_, middle, attempted, rest⟩ := Effect.exec_bind_returned returned
      have appended : (journalAppend ((first :: others).take journalAppendChunk)).exec session =
          (.ok ⟨⟩, middle) := by
        rcases Effect.tryCatch_returned attempted with done | ⟨_, _, _, handled⟩
        · exact done
        · cases handled
      obtain ⟨written, same, dimensions⟩ := journalAppend_returned present appended
      have shorter : ((first :: others).drop journalAppendChunk).length ≤ fuel := by
        rw [List.length_drop, journalAppendChunk]
        rw [List.length_cons] at enough ⊢
        omega
      obtain ⟨all, still, others'⟩ := inductionHypothesis shorter written rest
      rw [same] at still others'
      refine ⟨?_, still, ?_⟩
      · rw [all, List.append_assoc, ← List.flatMap_append, List.take_append_drop]
      · rw [← List.take_append_drop journalAppendChunk (first :: others)]
        intro entry member
        rcases List.mem_append.mp member with early | late
        · exact dimensions entry early
        · exact others' entry late

/-- What an accepted journal replays once records were written at its end. -/
theorem written_replayed_iff {header : JournalHeader} {dim : Nat} {modelId : String}
    (opened : Journal.open (some file) dim modelId = .ok header)
    (dimensions : ∀ entry ∈ records, entry.2.length = header.dim) :
    Journal.replay header (some (file ++ records.flatMap encodeRecord)) =
        Journal.replay header (some file) ++ records ↔
      records.flatMap encodeRecord <+:
        Journal.tornTail header file ++ records.flatMap encodeRecord := by
  have enough : records.length * header.recordLen ≤
      (Journal.tornTail header file ++ records.flatMap encodeRecord).length := by
    rw [List.length_append, encodeRecords_length dimensions]
    omega
  rw [Journal.replay_appended (Journal.open_prefix opened) dimensions, List.append_right_inj,
    decodeRecords_eq_iff dimensions enough]

/-- **Records appended to an accepted journal are read back exactly where the bytes behind the
complete records start with theirs**: where there is no torn tail, and where the tail and the
written bytes look alike. -/
theorem append_replayed_iff {dim : Nat} {modelId : String}
    (present : session.dir.journal = some file)
    (opened : Journal.open (some file) dim modelId = .ok session.handle.journal)
    (returned : (journalAppend records).exec session = (.ok ⟨⟩, after)) :
    Journal.replay session.handle.journal after.dir.journal =
        Journal.replay session.handle.journal session.dir.journal ++ records ↔
      records.flatMap encodeRecord <+:
        Journal.tornTail session.handle.journal file ++ records.flatMap encodeRecord := by
  obtain ⟨written, _, dimensions⟩ := journalAppend_returned present returned
  rw [written, present]
  exact written_replayed_iff opened dimensions

/-- A handle on a journal of one component for each vector. -/
def oneComponent : VectorIndex := { VectorIndex.blank with journal := ⟨1, ""⟩ }

/-- A directory whose journal ends within a record. -/
def tornDirectory (tail : List UInt8) : Directory :=
  { Directory.fresh with
    metaJson := some (Embedder.metadata ⟨"", 1⟩)
    journal := some ((⟨1, ""⟩ : JournalHeader).encoded ++ encodeRecord (⟨7⟩, [2]) ++ tail) }

/-- A record of zero bytes is read back behind a tail of zero bytes. -/
theorem zero_record_read_back :
    Journal.replay ⟨1, ""⟩ ((journalAppend [(⟨0⟩, [0])]).exec
        ⟨[], tornDirectory [0, 0, 0], [], oneComponent⟩).2.dir.journal =
      Journal.replay ⟨1, ""⟩ (tornDirectory [0, 0, 0]).journal ++ [(⟨0⟩, [0])] := by
  refine (@append_replayed_iff ⟨[], tornDirectory [0, 0, 0], [], oneComponent⟩ _ [(⟨0⟩, [0])]
    ((⟨1, ""⟩ : JournalHeader).encoded ++ encodeRecord (⟨7⟩, [2]) ++ [0, 0, 0]) 1 "" rfl ?_ rfl).mpr ?_
  · decide +kernel
  · decide +kernel

/-- **An item that a commit made durable is not read back behind a torn tail**, and one that was
never added is. -/
theorem torn_append_serves_another_item :
    let opened := (VectorIndex.open ⟨"", 1⟩).exec ⟨[], tornDirectory [1, 2, 3], [], .blank⟩
    let committed := (do VectorIndex.add ⟨5⟩ [1]; VectorIndex.commit false : Op PUnit).exec opened.2
    let reopened := (VectorIndex.open ⟨"", 1⟩).exec ⟨[], committed.2.dir, [], .blank⟩
    opened.1 = .ok ⟨⟩ ∧ committed.1 = .ok ⟨⟩ ∧ reopened.1 = .ok ⟨⟩ ∧
      Journal.replay ⟨1, ""⟩ committed.2.dir.journal ≠
        Journal.replay ⟨1, ""⟩ (tornDirectory [1, 2, 3]).journal ++ [(⟨5⟩, [1])] ∧
      reopened.2.handle.view ⟨5⟩ = none ∧
      reopened.2.handle.view ⟨0x01020300000000000000000000000000⟩ = some [0x01050000] := by
  decide +kernel

/-- The queue of a commit is read back under the same condition. -/
theorem queue_replayed_iff {dim : Nat} {modelId : String}
    (present : session.dir.journal = some file)
    (opened : Journal.open (some file) dim modelId = .ok session.handle.journal)
    (returned : (appendChunks records.length records).exec session = (.ok ⟨⟩, after)) :
    Journal.replay after.handle.journal after.dir.journal =
        Journal.replay session.handle.journal session.dir.journal ++ records ↔
      records.flatMap encodeRecord <+:
        Journal.tornTail session.handle.journal file ++ records.flatMap encodeRecord := by
  obtain ⟨written, same, dimensions⟩ := appendChunks_returned le_rfl present returned
  rw [written, present, same]
  exact written_replayed_iff opened dimensions

end Singularmem.Search
