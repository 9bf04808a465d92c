import Singularmem.Library.Codecs
import Singularmem.Search.TornAppend
import Singularmem.Search.VectorIndex

/-!
# The two layouts of the keymap file

`keymap.bin` holds the fields of the keymap one after another: numbers in eight
bytes, identifiers as the text of their ULID behind its length, and maps behind
their count. The older layout lacks the leading generation, and nothing in the
file tells the two apart. `readKeymap` tries the layout that the format version
names and then the other.

A file of the older layout is never read as the newer one. Shifted by one number,
some identifier's length is read as a key and the first eight digits of its text
as a length. Every digit is a byte far above 26, and no text of that length is an
identifier. Where no identifier is there to be misread, the file is too short.
-/

namespace Singularmem.Search

open Library Singularmem.Core

/-- The keymap file of the pre-journal format: the same fields without the
generation. -/
structure KeymapV1 where
  nextKey : Nat
  forward : Finmap (fun _ : Nat => ItemId)
  reverse : Finmap (fun _ : ItemId => Nat)

/-- A keymap of the pre-journal format has never been compacted. -/
def KeymapV1.toKeymap (keymap : KeymapV1) : Keymap :=
  ⟨0, keymap.nextKey, keymap.forward, keymap.reverse⟩

/-- Read a text behind its length. -/
def decodeText : Decoder String := do
  let bytes ← Decoder.sized
  match utf8Decode bytes with
  | some text => pure text
  | none => throw (.invalid bytes)

/-- Read an identifier from the text of its ULID. -/
def decodeId : Decoder ItemId := do
  let text ← decodeText
  match ItemId.fromStr text with
  | some id => pure id
  | none => throw (.invalid (utf8Bytes text))

/-- Read the fields of the pre-journal layout. -/
def KeymapV1.decoder : Decoder KeymapV1 := do
  let nextKey ← Decoder.number 8
  let forward ← Decoder.map (Decoder.number 8) decodeId
  let reverse ← Decoder.map decodeId (Decoder.number 8)
  pure ⟨nextKey, forward, reverse⟩

/-- Read the fields of the current layout. -/
def Keymap.decoder : Decoder Keymap := do
  let generation ← Decoder.number 8
  let nextKey ← Decoder.number 8
  let forward ← Decoder.map (Decoder.number 8) decodeId
  let reverse ← Decoder.map decodeId (Decoder.number 8)
  pure ⟨generation, nextKey, forward, reverse⟩

/-- Deserialise `keymap.bin`, by the layout that the format version names and
then by the other. The reason given is why the named layout failed, as the
decoder describes it. -/
def readKeymap (describe : DecodeError → String) (bytes : List UInt8) (version : String) :
    Except Error Keymap :=
  let corrupt := fun error => Error.embedding "deserializing keymap.bin" (describe error)
  if version = formatVersionV1 then
    match KeymapV1.decoder.front bytes with
    | .ok keymap => .ok keymap.toKeymap
    | .error error =>
      match Keymap.decoder.front bytes with
      | .ok keymap => .ok keymap
      | .error _ => .error (corrupt error)
  else
    match Keymap.decoder.front bytes with
    | .ok keymap => .ok keymap
    | .error error =>
      match KeymapV1.decoder.front bytes with
      | .ok keymap => .ok keymap.toKeymap
      | .error _ => .error (corrupt error)

/-- The bytes of a number. -/
def encodeNumber (number : Nat) : List UInt8 := leBytes 8 number

/-- The bytes of an identifier: its text behind the length of the text. -/
def encodeId (id : ItemId) : List UInt8 :=
  leBytes 8 (utf8Bytes id.ulid.display).length ++ utf8Bytes id.ulid.display

/-- The order in which the entries of both directions are written: ascending keys
forward, and any order in reverse. -/
structure Listing (forward : Finmap (fun _ : Nat => ItemId))
    (reverse : Finmap (fun _ : ItemId => Nat)) where
  forwardEntries : List (Nat × ItemId)
  reverseEntries : List (ItemId × Nat)
  ascending : (forwardEntries.map Prod.fst).Pairwise (· < ·)
  listsForward : Lists forwardEntries forward
  listsReverse : Lists reverseEntries reverse

/-- The bytes of both directions. -/
def Listing.bytes {forward : Finmap (fun _ : Nat => ItemId)}
    {reverse : Finmap (fun _ : ItemId => Nat)} (listing : Listing forward reverse) : List UInt8 :=
  (leBytes 8 listing.forwardEntries.length ++
    listing.forwardEntries.flatMap fun entry => encodeNumber entry.1 ++ encodeId entry.2) ++
  (leBytes 8 listing.reverseEntries.length ++
    listing.reverseEntries.flatMap fun entry => encodeId entry.1 ++ encodeNumber entry.2)

/-- The file a build of the pre-journal format writes. -/
def KeymapV1.serialize (keymap : KeymapV1) (listing : Listing keymap.forward keymap.reverse) :
    List UInt8 :=
  encodeNumber keymap.nextKey ++ listing.bytes

/-- The file this build writes. -/
def Keymap.serialize (keymap : Keymap) (listing : Listing keymap.forward keymap.reverse) :
    List UInt8 :=
  encodeNumber keymap.generation ++ (encodeNumber keymap.nextKey ++ listing.bytes)

/-- Keys are 64-bit numbers, and so are the sizes of the maps. -/
structure DirectionsFit (forward : Finmap (fun _ : Nat => ItemId))
    (reverse : Finmap (fun _ : ItemId => Nat)) : Prop where
  keys : ∀ key id, forward.lookup key = some id → key < 2 ^ 64
  issued : ∀ id key, reverse.lookup id = some key → key < 2 ^ 64
  forwardCounted : forward.keys.card < 2 ^ 64
  reverseCounted : reverse.keys.card < 2 ^ 64

/-- Every number of a keymap of the pre-journal format has 64 bits. -/
structure KeymapV1.Fits (keymap : KeymapV1) : Prop where
  nextKey : keymap.nextKey < 2 ^ 64
  directions : DirectionsFit keymap.forward keymap.reverse

/-- Every number of a keymap has 64 bits. -/
structure Keymap.Fits (keymap : Keymap) : Prop where
  generation : keymap.generation < 2 ^ 64
  nextKey : keymap.nextKey < 2 ^ 64
  directions : DirectionsFit keymap.forward keymap.reverse

/-- Every digit is one byte, above the count of digits. -/
theorem digit_byte : ∀ digit < 32, ∃ byte ∈ String.utf8EncodeChar (crockford.getD digit '0'),
    String.utf8EncodeChar (crockford.getD digit '0') = [byte] ∧ 26 < byte.toNat := by
  decide

/-- The text of an identifier has 26 bytes. -/
theorem display_length (id : ItemId) : (utf8Bytes id.ulid.display).length = 26 := by
  have size : id.ulid.display.utf8ByteSize = 26 := by
    rw [Ulid.display, utf8ByteSize_ofList, List.length_map, List.length_range]
    intro char member
    obtain ⟨place, _, rfl⟩ := List.mem_map.mp member
    exact (crockford_digit _ (Nat.mod_lt _ (by decide))).2.2
  rw [← size]
  rfl

/-- The text of an identifier begins with a byte above its length. -/
theorem display_first (id : ItemId) :
    ∃ first rest, utf8Bytes id.ulid.display = first :: rest ∧ 26 < first.toNat := by
  obtain ⟨first, _, single, above⟩ :=
    digit_byte (id.ulid.toNat / 32 ^ 25 % 32) (Nat.mod_lt _ (by decide))
  have spelled : utf8Bytes id.ulid.display =
      (((List.range 26).map fun place =>
        crockford.getD (id.ulid.toNat / 32 ^ (25 - place) % 32) '0').flatMap
          String.utf8EncodeChar) := by
    rw [utf8Bytes, Ulid.display, String.toByteArray_ofList, List.utf8Encode]
    simp
  rw [List.range_succ_eq_map, List.map_cons, List.flatMap_cons, Nat.sub_zero, single] at spelled
  exact ⟨first, _, spelled, above⟩

/-- An identifier is read back. -/
theorem reads_decodeId (id : ItemId) : Reads decodeId (encodeId id) id := by
  have size := display_length id
  have text : Reads decodeText (encodeId id) id.ulid.display := by
    apply (Reads.sized (by omega)).bind_pure
    rw [utf8Decode_utf8Bytes]
    exact Reads.pure _
  apply text.bind_pure
  rw [ItemId.fromStr_display]
  exact Reads.pure _

/-- Bytes that begin with a length above that of an identifier hold none. -/
theorem rejects_decodeId {bytes : List UInt8} (measured : 8 ≤ bytes.length)
    (long : 26 < leNat (bytes.take 8)) : Rejects decodeId bytes := by
  have width : (bytes.take 8).length = 8 := by
    rw [List.length_take]
    omega
  have fits := leNat_lt (bytes.take 8)
  have prefixed := leBytes_leNat (bytes.take 8)
  rw [width] at fits prefixed
  have split : bytes = leBytes 8 (leNat (bytes.take 8)) ++ bytes.drop 8 := by
    rw [prefixed, List.take_append_drop]
  generalize leNat (bytes.take 8) = count at long fits split
  generalize bytes.drop 8 = remaining at split
  subst split
  by_cases short : remaining.length < count
  · have unsized : Rejects Decoder.sized (leBytes 8 count ++ remaining) :=
      Rejects.bind_later (Reads.number fits) (Rejects.take short)
    exact (unsized.bind_first _).bind_first _
  · have full : (remaining.take count).length = count := by
      rw [List.length_take]
      omega
    rw [← List.take_append_drop count remaining, ← List.append_assoc]
    generalize remaining.take count = field at full
    subst full
    have sized := Reads.sized fits
    cases decoded : utf8Decode field with
    | none =>
      apply Rejects.bind_first
      apply Rejects.bind_later sized
      rw [decoded]
      exact Rejects.throw _ _
    | some text =>
      have read : Reads decodeText (leBytes 8 field.length ++ field) text := by
        apply sized.bind_pure
        rw [decoded]
        exact Reads.pure text
      have unfit : text.utf8ByteSize ≠ 26 := by
        have size : (utf8Bytes text).length = text.utf8ByteSize := rfl
        rw [← size, utf8Bytes_utf8Decode decoded]
        omega
      have unknown : ItemId.fromStr text = none := by
        rw [ItemId.fromStr, Ulid.fromString, if_neg fun ulid => unfit ulid.1]
        rfl
      apply Rejects.bind_later read
      rw [unknown]
      exact Rejects.throw _ _

/-- The text of an identifier, taken for an identifier behind a length, is none. -/
theorem rejects_text (id : ItemId) (rest : List UInt8) :
    Rejects decodeId (utf8Bytes id.ulid.display ++ rest) := by
  have size := display_length id
  obtain ⟨first, others, spelled, above⟩ := display_first id
  apply rejects_decodeId
  · rw [List.length_append]
    omega
  · rw [spelled, List.cons_append, List.take_succ_cons, leNat]
    omega

/-- An identifier is written as the number 26 and a text that holds none. -/
theorem encodeId_eq (id : ItemId) :
    encodeId id = leBytes 8 26 ++ utf8Bytes id.ulid.display := by
  rw [encodeId, display_length]

section Directions

variable {forward : Finmap (fun _ : Nat => ItemId)} {reverse : Finmap (fun _ : ItemId => Nat)}
  (listing : Listing forward reverse)

/-- Every keymap can be written. -/
theorem Listing.nonempty (forward : Finmap (fun _ : Nat => ItemId))
    (reverse : Finmap (fun _ : ItemId => Nat)) : Nonempty (Listing forward reverse) := by
  obtain ⟨forwardEntries, listsForward⟩ := Lists.exists_listing forward
  obtain ⟨reverseEntries, listsReverse⟩ := Lists.exists_listing reverse
  let sorted := forwardEntries.mergeSort fun left right => left.1 ≤ right.1
  have listsSorted : Lists sorted forward := listsForward.perm (List.mergeSort_perm _ _)
  have increasing : sorted.Pairwise fun left right => left.1 ≤ right.1 := by
    have decided := @List.pairwise_mergeSort _ (fun left right : Nat × ItemId => left.1 ≤ right.1)
      (by simp; omega) (by simp; omega) forwardEntries
    simpa using decided
  have ascending : (sorted.map Prod.fst).Pairwise (· < ·) := by
    rw [List.pairwise_map]
    have distinct := List.pairwise_map.mp listsSorted.once
    exact increasing.imp₂ (fun _ _ below different => Nat.lt_of_le_of_ne below different) distinct
  exact ⟨⟨sorted, reverseEntries, ascending, listsSorted, listsReverse⟩⟩

/-- The forward direction is read back. -/
theorem Listing.reads_forward (fits : DirectionsFit forward reverse) :
    Reads (Decoder.map (Decoder.number 8) decodeId)
      (leBytes 8 listing.forwardEntries.length ++
        listing.forwardEntries.flatMap fun entry => encodeNumber entry.1 ++ encodeId entry.2)
      forward := by
  have counted : listing.forwardEntries.length < 256 ^ 8 := by
    rw [listing.listsForward.length_eq]
    exact fits.forwardCounted
  have keys : ∀ entry ∈ listing.forwardEntries,
      Reads (Decoder.number 8) (encodeNumber entry.1) entry.1 := by
    intro entry member
    exact Reads.number (fits.keys _ _ ((listing.listsForward.holds entry).mp member))
  have read := Reads.map counted keys fun entry _ => reads_decodeId entry.2
  rwa [listing.listsForward.foldl_insert] at read

/-- The reverse direction is read back. -/
theorem Listing.reads_reverse (fits : DirectionsFit forward reverse) :
    Reads (Decoder.map decodeId (Decoder.number 8))
      (leBytes 8 listing.reverseEntries.length ++
        listing.reverseEntries.flatMap fun entry => encodeId entry.1 ++ encodeNumber entry.2)
      reverse := by
  have counted : listing.reverseEntries.length < 256 ^ 8 := by
    rw [listing.listsReverse.length_eq]
    exact fits.reverseCounted
  have values : ∀ entry ∈ listing.reverseEntries,
      Reads (Decoder.number 8) (encodeNumber entry.2) entry.2 := by
    intro entry member
    exact Reads.number (fits.issued _ _ ((listing.listsReverse.holds entry).mp member))
  have read := Reads.map counted (fun entry _ => reads_decodeId entry.1) values
  rwa [listing.listsReverse.foldl_insert] at read

/-- An identifier where a map is expected, its text following, is no map from
identifiers: its length is taken for a count. -/
theorem rejects_map_of_id (id : ItemId) (rest : List UInt8) :
    Rejects (Decoder.map decodeId (Decoder.number 8)) (encodeId id ++ rest) := by
  rw [encodeId_eq, List.append_assoc]
  exact Rejects.map_key (by decide) (rejects_text id rest)

/-- An identifier where a map has its first entry is no key followed by an
identifier: its length is taken for the key. -/
theorem rejects_map_at_id {count : Nat} (counted : count + 1 < 256 ^ 8) (id : ItemId)
    (rest : List UInt8) :
    Rejects (Decoder.map (Decoder.number 8) decodeId)
      (leBytes 8 (count + 1) ++ (encodeId id ++ rest)) := by
  rw [encodeId_eq, List.append_assoc]
  exact Rejects.map_value counted (Reads.number (by decide)) (rejects_text id rest)

/-- What follows the count of the forward direction holds no two directions. -/
theorem Listing.rejects_shifted (fits : DirectionsFit forward reverse)
    (next : Finmap (fun _ : Nat => ItemId) → Finmap (fun _ : ItemId => Nat) → Decoder Keymap) :
    Rejects (do
      let forward ← Decoder.map (Decoder.number 8) decodeId
      let reverse ← Decoder.map decodeId (Decoder.number 8)
      next forward reverse)
      ((listing.forwardEntries.flatMap fun entry => encodeNumber entry.1 ++ encodeId entry.2) ++
        (leBytes 8 listing.reverseEntries.length ++
          listing.reverseEntries.flatMap fun entry =>
            encodeId entry.1 ++ encodeNumber entry.2)) := by
  have counted : listing.reverseEntries.length < 256 ^ 8 := by
    rw [listing.listsReverse.length_eq]
    exact fits.reverseCounted
  cases forwardEntries : listing.forwardEntries with
  | nil =>
    rw [List.flatMap_nil, List.nil_append]
    cases reverseEntries : listing.reverseEntries with
    | nil =>
      apply Rejects.bind_later Reads.map_empty
      exact ((Rejects.number (by decide)).bind_first _).bind_first _
    | cons entry rest =>
      rw [reverseEntries, List.length_cons] at counted
      rw [List.flatMap_cons, List.length_cons, List.append_assoc]
      exact (rejects_map_at_id counted entry.1 _).bind_first _
  | cons entry rest =>
    have small : entry.1 < 256 ^ 8 := by
      apply fits.keys entry.1 entry.2
      rw [← listing.listsForward.holds entry, forwardEntries]
      exact List.mem_cons_self
    rw [List.flatMap_cons, List.append_assoc, List.append_assoc, encodeNumber]
    cases number : entry.1 with
    | zero =>
      apply Rejects.bind_later Reads.map_empty
      exact (rejects_map_of_id entry.2 _).bind_first _
    | succ count =>
      rw [number] at small
      exact (rejects_map_at_id small entry.2 _).bind_first _

end Directions

/-- A written keymap of the current format is read back by its layout. -/
theorem Keymap.reads_serialize (keymap : Keymap) (fits : keymap.Fits)
    (listing : Listing keymap.forward keymap.reverse) :
    Reads Keymap.decoder (keymap.serialize listing) keymap := by
  apply (Reads.number fits.generation).bind
  apply (Reads.number fits.nextKey).bind
  apply (listing.reads_forward fits.directions).bind
  exact (listing.reads_reverse fits.directions).bind_pure (Reads.pure keymap)

/-- A written keymap of the pre-journal format is read back by its layout. -/
theorem KeymapV1.reads_serialize (keymap : KeymapV1) (fits : keymap.Fits)
    (listing : Listing keymap.forward keymap.reverse) :
    Reads KeymapV1.decoder (keymap.serialize listing) keymap := by
  apply (Reads.number fits.nextKey).bind
  apply (listing.reads_forward fits.directions).bind
  exact (listing.reads_reverse fits.directions).bind_pure (Reads.pure keymap)

/-- A written keymap of the pre-journal format is none of the current one. -/
theorem KeymapV1.rejects_serialize (keymap : KeymapV1) (fits : keymap.Fits)
    (listing : Listing keymap.forward keymap.reverse) :
    Rejects Keymap.decoder (keymap.serialize listing) := by
  have counted : listing.forwardEntries.length < 256 ^ 8 := by
    rw [listing.listsForward.length_eq]
    exact fits.directions.forwardCounted
  apply Rejects.bind_later (Reads.number fits.nextKey)
  rw [Listing.bytes, List.append_assoc]
  apply Rejects.bind_later (Reads.number counted)
  exact listing.rejects_shifted fits.directions _

/-- **A written keymap is read back across format versions.** A file of the
pre-journal format gives its keymap under generation zero, whatever version the
metadata names, because it never decodes as a file of the current format; and a
file of the current format gives its keymap under the current version. -/
theorem keymap_reads_back (describe : DecodeError → String) :
    (∀ (keymap : KeymapV1) (listing : Listing keymap.forward keymap.reverse), keymap.Fits →
      (∀ version, readKeymap describe (keymap.serialize listing) version =
        .ok ⟨0, keymap.nextKey, keymap.forward, keymap.reverse⟩) ∧
      ∀ other, Keymap.decoder.front (keymap.serialize listing) ≠ .ok other) ∧
    ∀ (keymap : Keymap) (listing : Listing keymap.forward keymap.reverse), keymap.Fits →
      readKeymap describe (keymap.serialize listing) formatVersion = .ok keymap := by
  constructor
  · intro keymap listing fits
    have read := (keymap.reads_serialize fits listing).front
    obtain ⟨error, rejected⟩ := (keymap.rejects_serialize fits listing).front
    constructor
    · intro version
      by_cases first : version = formatVersionV1
      · simp [readKeymap, first, read, KeymapV1.toKeymap]
      · simp [readKeymap, first, read, rejected, KeymapV1.toKeymap]
    · intro other decoded
      rw [rejected] at decoded
      cases decoded
  · intro keymap listing fits
    have read := (keymap.reads_serialize fits listing).front
    have second : formatVersion ≠ formatVersionV1 := by decide
    simp [readKeymap, second, read]

/-- A keymap of the pre-journal format that names one item by key zero. -/
def oneItem : KeymapV1 := ⟨1, Finmap.singleton 0 ⟨5⟩, Finmap.singleton ⟨5⟩ 0⟩

/-- The one order in which its entries are written. -/
def oneItemListing : Listing oneItem.forward oneItem.reverse where
  forwardEntries := [(0, ⟨5⟩)]
  reverseEntries := [(⟨5⟩, 0)]
  ascending := List.pairwise_singleton _ _
  listsForward := Lists.singleton 0 (ItemId.mk 5)
  listsReverse := Lists.singleton (ItemId.mk 5) 0

theorem oneItem_fits : oneItem.Fits where
  nextKey := by decide
  directions := by
    constructor
    · intro key id named
      cases List.mem_singleton.mp ((oneItemListing.listsForward.holds (key, id)).mpr named)
      decide
    · intro id key named
      cases List.mem_singleton.mp ((oneItemListing.listsReverse.holds (id, key)).mpr named)
      decide
    · decide
    · decide

/-- Its file is read back where the metadata already names the current version,
and so is the file that this build writes for the same keymap after a compaction. -/
theorem oneItem_reads_back :
    readKeymap (fun _ => "io error: unexpected end of file") (oneItem.serialize oneItemListing)
        formatVersion = .ok oneItem.toKeymap ∧
      readKeymap (fun _ => "io error: unexpected end of file")
        (Keymap.serialize { oneItem.toKeymap with generation := 3 } oneItemListing)
        formatVersion = .ok { oneItem.toKeymap with generation := 3 } := by
  constructor
  · exact ((keymap_reads_back _).1 oneItem oneItemListing oneItem_fits).1 formatVersion
  · exact (keymap_reads_back _).2 { oneItem.toKeymap with generation := 3 } oneItemListing
      ⟨by decide, oneItem_fits.nextKey, oneItem_fits.directions⟩

end Singularmem.Search
