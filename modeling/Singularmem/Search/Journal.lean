import Singularmem.Core.Ids

/-!
# The append-only journal of vectors

`journal.bin` is a header naming the embedding dimension and the model, followed
by fixed-width records. The functions here read and write its bytes: an absent
file is an empty journal, a trailing partial record is dropped, and the file is
created by the first append.

`Holds` says which records a file holds. Replay returns exactly those records;
appending and truncating keep the relation.
-/

namespace Singularmem.Search

open Library Singularmem.Core

/-- One `f32`, as its 32-bit pattern. -/
abbrev F32 := BitVec 32

/-- An item together with its embedding vector. -/
abbrev Entry := ItemId × List F32

/-- The errors of the search crate that the modelled functions return. -/
inductive Error
  | queryParse (message : String)
  | scopeLookupMissing
  | noIndexes
  /-- The panic of the collector of best documents on a limit of zero. -/
  | collectorPanic
  /-- The panic of an addition of sizes that overflows, where the build checks it. -/
  | sizeOverflow
  | modelMismatch (found expected : String)
  | dimMismatch (expected got : Nat)
  | usearch (context : String)
  | embedding (context reason : String)
  | indexCorrupted (reason : String)
deriving DecidableEq

/-- Magic bytes identifying a `journal.bin` file: `SMVJ`. -/
def journalMagic : List UInt8 := [0x53, 0x4D, 0x56, 0x4A]

/-- Current on-disk format version of the journal header. -/
def journalVersion : Nat := 1

/-- Size in bytes of a record's ULID prefix. -/
def idBytes : Nat := 16

/-- Bytes of fixed-size header fields before the model id: magic, version,
dimension and model-id length. -/
def headerPrefixLen : Nat := 4 + 2 + 4 + 2

/-- Maximum length in bytes of an on-disk model id. -/
def maxModelIdLen : Nat := 512

/-- The UTF-8 bytes of a string. -/
def utf8Bytes (text : String) : List UInt8 := text.toByteArray.data.toList

/-- Decode UTF-8, rejecting invalid bytes. -/
def utf8Decode (bytes : List UInt8) : Option String := String.fromUTF8? ⟨⟨bytes⟩⟩

/-- Decoded `journal.bin` header: the embedding dimension and model id the
records were written under. -/
structure JournalHeader where
  dim : Nat
  modelId : String
deriving DecidableEq

namespace JournalHeader

/-- The header's bytes. -/
def encoded (header : JournalHeader) : List UInt8 :=
  journalMagic ++ leBytes 2 journalVersion ++ leBytes 4 header.dim ++
    leBytes 2 (utf8Bytes header.modelId).length ++ utf8Bytes header.modelId

/-- Decode the header at the start of `bytes`. -/
def decode (bytes : List UInt8) : Except Error JournalHeader :=
  if bytes.length < headerPrefixLen ∨ bytes.take 4 ≠ journalMagic then
    .error (.indexCorrupted "journal header magic missing or truncated")
  else if leNat ((bytes.drop 4).take 2) ≠ journalVersion then
    .error (.indexCorrupted
      ("unsupported journal version " ++ toString (leNat ((bytes.drop 4).take 2))))
  else
    let dim := leNat ((bytes.drop 6).take 4)
    let idLen := leNat ((bytes.drop 10).take 2)
    if bytes.length < headerPrefixLen + idLen then
      .error (.indexCorrupted "journal header model id truncated")
    else
      match utf8Decode ((bytes.drop headerPrefixLen).take idLen) with
      | none => .error (.indexCorrupted "journal header model id is not valid UTF-8")
      | some modelId => .ok ⟨dim, modelId⟩

/-- Byte length of the encoded header: the offset of the first record. -/
def headerLen (header : JournalHeader) : Nat := header.encoded.length

/-- Size in bytes of one record. -/
def recordLen (header : JournalHeader) : Nat := idBytes + header.dim * 4

end JournalHeader

/-- The bytes of one vector, component by component. -/
def encodeVector (vector : List F32) : List UInt8 :=
  vector.flatMap fun component => leBytes 4 component.toNat

/-- The bytes of one record. -/
def encodeRecord (entry : Entry) : List UInt8 := entry.1.toBytes ++ encodeVector entry.2

/-- Read `count` components. -/
def decodeVector : Nat → List UInt8 → List F32
  | 0, _ => []
  | count + 1, bytes => BitVec.ofNat 32 (leNat (bytes.take 4)) :: decodeVector count (bytes.drop 4)

/-- Read one record of a vector with `dim` components. -/
def decodeRecord (dim : Nat) (bytes : List UInt8) : Entry :=
  (ItemId.fromBytes (bytes.take idBytes), decodeVector dim (bytes.drop idBytes))

/-- Read `count` consecutive records. -/
def decodeRecords (header : JournalHeader) : Nat → List UInt8 → List Entry
  | 0, _ => []
  | count + 1, bytes =>
    decodeRecord header.dim (bytes.take header.recordLen) ::
      decodeRecords header count (bytes.drop header.recordLen)

namespace Journal

/-- Open the journal, validating an existing header against `dim` and
`modelId`. An absent file is not created; its header is derived instead. -/
def «open» (file : Option (List UInt8)) (dim : Nat) (modelId : String) :
    Except Error JournalHeader :=
  if 2 ^ 32 ≤ dim then .error (.dimMismatch dim (2 ^ 64 - 1))
  else
    match file with
    | some bytes =>
      if bytes.length < headerPrefixLen then
        .error (.indexCorrupted "journal header truncated")
      else
        let idLen := leNat ((bytes.drop 10).take 2)
        if bytes.length < headerPrefixLen + idLen then
          .error (.indexCorrupted "journal header model id truncated")
        else
          match JournalHeader.decode (bytes.take (headerPrefixLen + idLen)) with
          | .error failure => .error failure
          | .ok found =>
            if found.modelId ≠ modelId then .error (.modelMismatch found.modelId modelId)
            else if found.dim ≠ dim then .error (.dimMismatch found.dim dim)
            else .ok found
    | none =>
      if maxModelIdLen < (utf8Bytes modelId).length then
        .error (.embedding "journal model id" "model id longer than 512 bytes")
      else .ok ⟨dim, modelId⟩

/-- Every complete record after the header; a trailing partial record is
dropped, and an absent file is an empty journal. -/
def replay (header : JournalHeader) : Option (List UInt8) → List Entry
  | none => []
  | some bytes =>
    let body := bytes.drop header.headerLen
    decodeRecords header (body.length / header.recordLen) body

/-- Number of complete records currently in the file. -/
def len (header : JournalHeader) : Option (List UInt8) → Nat
  | none => 0
  | some bytes => (bytes.length - header.headerLen) / header.recordLen

end Journal

/-- UTF-8 round trips. -/
@[simp] theorem utf8Decode_utf8Bytes (text : String) : utf8Decode (utf8Bytes text) = some text := by
  have same : (⟨⟨utf8Bytes text⟩⟩ : ByteArray) = text.toByteArray := rfl
  rw [utf8Decode, same, String.fromUTF8?, dif_pos text.isValidUTF8]
  rfl

namespace JournalHeader

/-- A header the fixed-width fields can carry: the dimension fits four bytes and
the model id is within its bound. -/
def Accepted (header : JournalHeader) : Prop :=
  header.dim < 2 ^ 32 ∧ (utf8Bytes header.modelId).length ≤ maxModelIdLen

instance (header : JournalHeader) : Decidable header.Accepted :=
  inferInstanceAs (Decidable (_ ∧ _))

variable {header : JournalHeader}

/-- The fixed-size fields of an encoded header. -/
def fixedFields (header : JournalHeader) : List UInt8 :=
  journalMagic ++ leBytes 2 journalVersion ++ leBytes 4 header.dim ++
    leBytes 2 (utf8Bytes header.modelId).length

theorem encoded_eq (header : JournalHeader) :
    header.encoded = header.fixedFields ++ utf8Bytes header.modelId := rfl

@[simp] theorem fixedFields_length (header : JournalHeader) :
    header.fixedFields.length = headerPrefixLen := by
  simp [fixedFields, headerPrefixLen, journalMagic]

@[simp] theorem encoded_length (header : JournalHeader) :
    header.encoded.length = headerPrefixLen + (utf8Bytes header.modelId).length := by
  rw [encoded_eq, List.length_append, fixedFields_length]

/-- The fields of an encoded header, whatever bytes follow. -/
theorem fields_encoded (accepted : header.Accepted) (tail : List UInt8) :
    (header.encoded ++ tail).take 4 = journalMagic ∧
      leNat (((header.encoded ++ tail).drop 4).take 2) = journalVersion ∧
      leNat (((header.encoded ++ tail).drop 6).take 4) = header.dim ∧
      leNat (((header.encoded ++ tail).drop 10).take 2) = (utf8Bytes header.modelId).length := by
  have dimension : header.dim < 256 ^ 4 := accepted.1
  have idLength : (utf8Bytes header.modelId).length < 256 ^ 2 :=
    Nat.lt_of_le_of_lt accepted.2 (by decide)
  have version : journalVersion < 256 ^ 2 := by decide
  have fields : header.encoded ++ tail = journalMagic ++ (leBytes 2 journalVersion ++
      (leBytes 4 header.dim ++ (leBytes 2 (utf8Bytes header.modelId).length ++
        (utf8Bytes header.modelId ++ tail)))) := by
    simp [encoded]
  have magic : journalMagic.length = 4 := rfl
  rw [fields]
  refine ⟨List.take_left' magic, ?_, ?_, ?_⟩
  · rw [List.drop_left' magic, List.take_left' (leBytes_length 2 _), leNat_leBytes version]
  · rw [show 6 = 4 + 2 from rfl, ← List.drop_drop, List.drop_left' magic,
      List.drop_left' (leBytes_length 2 _), List.take_left' (leBytes_length 4 _),
      leNat_leBytes dimension]
  · rw [show 10 = 4 + 2 + 4 from rfl, ← List.drop_drop, ← List.drop_drop, List.drop_left' magic,
      List.drop_left' (leBytes_length 2 _), List.drop_left' (leBytes_length 4 _),
      List.take_left' (leBytes_length 2 _), leNat_leBytes idLength]

/-- An accepted header is read back. -/
theorem decode_encoded (accepted : header.Accepted) : decode header.encoded = .ok header := by
  obtain ⟨magic, version, dimension, idLength⟩ := fields_encoded accepted []
  rw [List.append_nil] at magic version dimension idLength
  have modelId : (header.encoded.drop headerPrefixLen).take (utf8Bytes header.modelId).length =
      utf8Bytes header.modelId := by
    rw [encoded_eq, List.drop_left' (fixedFields_length header), List.take_length]
  rw [decode, if_neg (by simp [magic]), if_neg (by simp [version])]
  simp only [idLength, dimension, encoded_length, Nat.lt_irrefl, if_false, modelId,
    utf8Decode_utf8Bytes]

end JournalHeader

namespace Journal

variable {header : JournalHeader}

/-- An absent journal is accepted under an accepted header. -/
theorem open_absent (accepted : header.Accepted) :
    Journal.open none header.dim header.modelId = .ok header := by
  rw [Journal.open, if_neg (Nat.not_le.mpr accepted.1)]
  simp [Nat.not_lt.mpr accepted.2]

/-- A journal that starts with an accepted header is accepted, whatever bytes
follow. -/
theorem open_present (accepted : header.Accepted) (tail : List UInt8) :
    Journal.open (some (header.encoded ++ tail)) header.dim header.modelId = .ok header := by
  obtain ⟨_, _, _, idLength⟩ := JournalHeader.fields_encoded accepted tail
  have decoded : JournalHeader.decode ((header.encoded ++ tail).take
      (headerPrefixLen + (utf8Bytes header.modelId).length)) = .ok header := by
    rw [List.take_left' (JournalHeader.encoded_length header), JournalHeader.decode_encoded accepted]
  rw [Journal.open, if_neg (Nat.not_le.mpr accepted.1)]
  simp only [idLength, List.length_append, JournalHeader.encoded_length]
  rw [if_neg (by omega), if_neg (by omega), decoded]
  simp

/-- Without a file only an accepted header is accepted, and the refusal is not
one a load retries. -/
theorem open_refused (refused : ¬ header.Accepted) :
    ∃ error, Journal.open none header.dim header.modelId = .error error ∧
      ((∃ expected got, error = .dimMismatch expected got) ∨
        ∃ reason, error = .embedding "journal model id" reason) := by
  by_cases tooWide : 2 ^ 32 ≤ header.dim
  · exact ⟨_, by rw [Journal.open, if_pos tooWide], .inl ⟨_, _, rfl⟩⟩
  · have tooLong : maxModelIdLen < (utf8Bytes header.modelId).length := by
      by_contra within
      exact refused ⟨Nat.not_le.mp tooWide, Nat.not_lt.mp within⟩
    exact ⟨_, by rw [Journal.open, if_neg tooWide]; simp [tooLong]; rfl, .inr ⟨_, rfl⟩⟩

/-- Every replayed record has the header's dimension, whatever the file holds. -/
theorem replay_dimension (header : JournalHeader) (file : Option (List UInt8)) :
    ∀ entry ∈ replay header file, entry.2.length = header.dim := by
  have vector : ∀ count bytes, (decodeVector count bytes).length = count := by
    intro count
    induction count with
    | zero => simp [decodeVector]
    | succ count inductionHypothesis => simp [decodeVector, inductionHypothesis]
  have records : ∀ count bytes, ∀ entry ∈ decodeRecords header count bytes,
      entry.2.length = header.dim := by
    intro count
    induction count with
    | zero => simp [decodeRecords]
    | succ count inductionHypothesis =>
      intro bytes entry member
      rcases List.mem_cons.mp member with rfl | later
      · exact vector _ _
      · exact inductionHypothesis _ entry later
  cases file with
  | none => simp [replay]
  | some bytes => exact records _ _

end Journal

/-- The file holds exactly these records: it is absent and there are none, or
it is the header followed by their bytes. Every vector has the header's
dimension. -/
def Holds (header : JournalHeader) (file : Option (List UInt8)) (records : List Entry) : Prop :=
  (∀ entry ∈ records, entry.2.length = header.dim) ∧
    ((file = none ∧ records = []) ∨
      file = some (header.encoded ++ records.flatMap encodeRecord))

@[simp] theorem encodeVector_length (vector : List F32) :
    (encodeVector vector).length = vector.length * 4 := by
  induction vector with
  | nil => rfl
  | cons component rest inductionHypothesis =>
    have tail : (encodeVector rest).length = rest.length * 4 := inductionHypothesis
    change (leBytes 4 component.toNat ++ encodeVector rest).length = (rest.length + 1) * 4
    rw [List.length_append, leBytes_length, tail]
    omega

/-- Reading as many components as were written gives the vector back, whatever
bytes follow. -/
theorem decodeVector_encodeVector (vector : List F32) (tail : List UInt8) :
    decodeVector vector.length (encodeVector vector ++ tail) = vector := by
  induction vector with
  | nil => rfl
  | cons component rest inductionHypothesis =>
    have fits : component.toNat < 256 ^ 4 := component.isLt
    have split : encodeVector (component :: rest) ++ tail =
        leBytes 4 component.toNat ++ (encodeVector rest ++ tail) := by
      simp [encodeVector]
    rw [split, List.length_cons, decodeVector, List.take_left' (leBytes_length 4 _),
      List.drop_left' (leBytes_length 4 _), inductionHypothesis, leNat_leBytes fits]
    simp

/-- A record occupies exactly the journal's record length. -/
theorem encodeRecord_length {header : JournalHeader} {entry : Entry}
    (dimension : entry.2.length = header.dim) :
    (encodeRecord entry).length = header.recordLen := by
  simp [encodeRecord, JournalHeader.recordLen, idBytes, dimension]

/-- A written record is read back. -/
theorem decodeRecord_encodeRecord (entry : Entry) :
    decodeRecord entry.2.length (encodeRecord entry) = entry := by
  have prefixLength : entry.1.toBytes.length = idBytes := ItemId.toBytes_length entry.1
  have vector := decodeVector_encodeVector entry.2 []
  rw [List.append_nil] at vector
  rw [decodeRecord, encodeRecord, List.take_left' prefixLength, List.drop_left' prefixLength,
    ItemId.fromBytes_toBytes, vector]

/-- Records of the right dimension occupy a whole number of record lengths. -/
theorem encodeRecords_length {header : JournalHeader} {records : List Entry}
    (dimensions : ∀ entry ∈ records, entry.2.length = header.dim) :
    (records.flatMap encodeRecord).length = records.length * header.recordLen := by
  induction records with
  | nil => simp
  | cons entry rest inductionHypothesis =>
    have head := encodeRecord_length (dimensions entry List.mem_cons_self)
    have tail := inductionHypothesis fun other member =>
      dimensions other (List.mem_cons_of_mem _ member)
    rw [List.flatMap_cons, List.length_append, head, tail, List.length_cons, Nat.succ_mul,
      Nat.add_comm]

/-- Written records are read back in order, whatever bytes follow. -/
theorem decodeRecords_encodeRecords {header : JournalHeader} {records : List Entry}
    (dimensions : ∀ entry ∈ records, entry.2.length = header.dim) (tail : List UInt8) :
    decodeRecords header records.length (records.flatMap encodeRecord ++ tail) = records := by
  induction records with
  | nil => rfl
  | cons entry rest inductionHypothesis =>
    have dimension : entry.2.length = header.dim := dimensions entry List.mem_cons_self
    have head : (encodeRecord entry).length = header.recordLen := encodeRecord_length dimension
    rw [List.flatMap_cons, List.append_assoc, List.length_cons, decodeRecords,
      List.take_left' head, List.drop_left' head, ← dimension, decodeRecord_encodeRecord,
      inductionHypothesis fun other member => dimensions other (List.mem_cons_of_mem _ member)]

theorem recordLen_pos (header : JournalHeader) : 0 < header.recordLen := by
  unfold JournalHeader.recordLen idBytes
  omega

/-- The body of a journal file that holds records. -/
theorem body_of_records (header : JournalHeader) (records : List Entry) :
    (header.encoded ++ records.flatMap encodeRecord).drop header.headerLen =
      records.flatMap encodeRecord :=
  List.drop_left' rfl

namespace Holds

variable {header : JournalHeader} {file : Option (List UInt8)} {records : List Entry}

/-- An absent file holds no records. -/
theorem absent (header : JournalHeader) : Holds header none [] :=
  ⟨by simp, .inl ⟨rfl, rfl⟩⟩

/-- Replay returns exactly the records a file holds. -/
theorem replay (held : Holds header file records) : Journal.replay header file = records := by
  obtain ⟨dimensions, ⟨rfl, rfl⟩ | rfl⟩ := held
  · rfl
  · have count : (records.flatMap encodeRecord).length / header.recordLen = records.length := by
      rw [encodeRecords_length dimensions, Nat.mul_div_cancel _ (recordLen_pos header)]
    simp only [Journal.replay, body_of_records, count]
    simpa using decodeRecords_encodeRecords dimensions []

/-- The file's length counts exactly the records it holds. -/
theorem len (held : Holds header file records) : Journal.len header file = records.length := by
  obtain ⟨dimensions, ⟨rfl, rfl⟩ | rfl⟩ := held
  · rfl
  · simp only [Journal.len, List.length_append, JournalHeader.headerLen, Nat.add_sub_cancel_left]
    rw [encodeRecords_length dimensions, Nat.mul_div_cancel _ (recordLen_pos header)]

/-- Writing whole records at the end of the file, or after a fresh header when
the file is absent, adds exactly those records. -/
theorem append (held : Holds header file records) {added : List Entry}
    (dimensions : ∀ entry ∈ added, entry.2.length = header.dim) :
    Holds header (some (file.getD header.encoded ++ added.flatMap encodeRecord))
      (records ++ added) := by
  obtain ⟨before, shape⟩ := held
  refine ⟨?_, .inr ?_⟩
  · intro entry member
    rcases List.mem_append.mp member with old | new
    · exact before entry old
    · exact dimensions entry new
  · obtain ⟨rfl, rfl⟩ | rfl := shape <;> simp

/-- Truncating the file to its header removes every record. -/
theorem clear (held : Holds header file records) :
    Holds header (file.map (List.take header.headerLen)) [] := by
  obtain ⟨_, ⟨rfl, rfl⟩ | rfl⟩ := held
  · exact absent header
  · have cut : (header.encoded ++ records.flatMap encodeRecord).take header.headerLen =
        header.encoded := List.take_left' rfl
    exact ⟨by simp, .inr (by simp [cut])⟩

end Holds

end Singularmem.Search
