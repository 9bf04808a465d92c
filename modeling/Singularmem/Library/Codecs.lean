import Singularmem.Library.Bytes
import Singularmem.Library.Effects
import Mathlib.Data.Finmap

/-!
# Decoders of concatenated fields

A decoder consumes bytes from the front of its input. Numbers have a fixed
width, texts and sequences begin with their length, and a map is a sequence of
keys and values that are inserted in turn.

`Reads` says that a decoder takes exactly the given bytes whatever follows them.
It composes: decoders that run one after another read the concatenation of what
each reads. `Rejects` says that a decoder fails on an input, and a decoder fails
when an earlier field is read and a later one fails.
-/

namespace Singularmem.Library

variable {α β κ ν : Type}

/-- Why an input is not the encoding of a value. -/
inductive DecodeError
  | unexpectedEnd
  /-- The bytes of a field are there and denote nothing. -/
  | invalid (field : List UInt8)
deriving DecidableEq

/-- A computation that consumes bytes. -/
abbrev Decoder := Effect DecodeError (List UInt8)

namespace Decoder

/-- Consume a count of bytes. -/
def take (count : Nat) : Decoder (List UInt8) := do
  let bytes ← get
  if bytes.length < count then throw .unexpectedEnd
  else
    set (bytes.drop count)
    pure (bytes.take count)

/-- Read a number of a given width, least significant byte first. -/
def number (width : Nat) : Decoder Nat := do
  pure (leNat (← take width))

/-- Read as many bytes as an eight-byte length says. -/
def sized : Decoder (List UInt8) := do
  take (← number 8)

/-- Insert a count of entries into a map, reading each key before its value. -/
def insertions [DecidableEq κ] (key : Decoder κ) (value : Decoder ν) :
    Nat → Finmap (fun _ : κ => ν) → Decoder (Finmap (fun _ : κ => ν))
  | 0, map => pure map
  | count + 1, map => do
    let name ← key
    let held ← value
    insertions key value count (map.insert name held)

/-- Read a map: its eight-byte length and its entries. -/
def map [DecidableEq κ] (key : Decoder κ) (value : Decoder ν) :
    Decoder (Finmap (fun _ : κ => ν)) := do
  insertions key value (← number 8) ∅

/-- Decode a value at the front of an input, whatever follows it. -/
def front (decoder : Decoder α) (bytes : List UInt8) : Except DecodeError α :=
  (decoder.exec bytes).1

end Decoder

/-- The decoder takes exactly these bytes, whatever follows, and returns the
value. -/
def Reads (decoder : Decoder α) (bytes : List UInt8) (value : α) : Prop :=
  ∀ rest, decoder.exec (bytes ++ rest) = (.ok value, rest)

/-- The decoder fails on an input. -/
def Rejects (decoder : Decoder α) (bytes : List UInt8) : Prop :=
  ∃ error rest, decoder.exec bytes = (.error error, rest)

namespace Reads

/-- A decoder that consumes nothing. -/
theorem pure (value : α) : Reads (Pure.pure value) [] value := fun _ => rfl

/-- Decoders that run one after another read the concatenation. -/
theorem bind {decoder : Decoder α} {next : α → Decoder β} {bytes more : List UInt8} {value : α}
    {result : β} (first : Reads decoder bytes value) (second : Reads (next value) more result) :
    Reads (decoder >>= next) (bytes ++ more) result := by
  intro rest
  rw [List.append_assoc, Effect.exec_bind_ok (first (more ++ rest))]
  exact second rest

/-- A decoder whose value is passed on unchanged in the bytes it takes. -/
theorem bind_pure {decoder : Decoder α} {next : α → Decoder β} {bytes : List UInt8} {value : α}
    {result : β} (first : Reads decoder bytes value) (second : Reads (next value) [] result) :
    Reads (decoder >>= next) bytes result := by
  have both := first.bind second
  rwa [List.append_nil] at both

/-- What was written is decoded from the front of an input. -/
theorem front {decoder : Decoder α} {bytes : List UInt8} {value : α}
    (reads : Reads decoder bytes value) : decoder.front bytes = .ok value := by
  have alone := reads []
  rw [List.append_nil] at alone
  rw [Decoder.front, alone]

/-- As many bytes as are asked for. -/
theorem take (bytes : List UInt8) : Reads (Decoder.take bytes.length) bytes bytes := by
  intro rest
  have enough : ¬ (bytes ++ rest).length < bytes.length := by
    rw [List.length_append]
    omega
  rw [Decoder.take, Effect.exec_bind_ok (Effect.exec_get _), if_neg enough,
    Effect.exec_bind_ok (Effect.exec_set _ _)]
  simp

/-- A number that fits its width. -/
theorem number {width value : Nat} (fits : value < 256 ^ width) :
    Reads (Decoder.number width) (leBytes width value) value := by
  have taken := take (leBytes width value)
  rw [leBytes_length] at taken
  apply taken.bind_pure
  rw [leNat_leBytes fits]
  exact pure value

/-- Bytes behind their length. -/
theorem sized {bytes : List UInt8} (fits : bytes.length < 256 ^ 8) :
    Reads Decoder.sized (leBytes 8 bytes.length ++ bytes) bytes :=
  (number fits).bind (take bytes)

variable [DecidableEq κ] {key : Decoder κ} {value : Decoder ν} {writeKey : κ → List UInt8}
  {writeValue : ν → List UInt8} {entries : List (κ × ν)}

/-- Entries one after another are inserted in turn. -/
theorem insertions
    (keys : ∀ entry ∈ entries, Reads key (writeKey entry.1) entry.1)
    (values : ∀ entry ∈ entries, Reads value (writeValue entry.2) entry.2)
    (map : Finmap (fun _ : κ => ν)) :
    Reads (Decoder.insertions key value entries.length map)
      (entries.flatMap fun entry => writeKey entry.1 ++ writeValue entry.2)
      (entries.foldl (fun map entry => map.insert entry.1 entry.2) map) := by
  induction entries generalizing map with
  | nil => exact pure map
  | cons entry rest inductionHypothesis =>
    have name := keys entry List.mem_cons_self
    have held := values entry List.mem_cons_self
    have others := inductionHypothesis
      (fun other member => keys other (List.mem_cons_of_mem _ member))
      (fun other member => values other (List.mem_cons_of_mem _ member))
      (map.insert entry.1 entry.2)
    rw [List.flatMap_cons, List.append_assoc]
    exact name.bind (held.bind others)

/-- A count and the entries it counts make up a map. -/
theorem map (counted : entries.length < 256 ^ 8)
    (keys : ∀ entry ∈ entries, Reads key (writeKey entry.1) entry.1)
    (values : ∀ entry ∈ entries, Reads value (writeValue entry.2) entry.2) :
    Reads (Decoder.map key value)
      (leBytes 8 entries.length ++
        entries.flatMap fun entry => writeKey entry.1 ++ writeValue entry.2)
      (entries.foldl (fun map entry => map.insert entry.1 entry.2) ∅) :=
  (number counted).bind (insertions keys values ∅)

/-- No entries make up the empty map. -/
theorem map_empty : Reads (Decoder.map key value) (leBytes 8 0) ∅ :=
  (number (by decide)).bind_pure (pure ∅)

end Reads

namespace Rejects

/-- A decoder that rejects an input does not decode it. -/
theorem front {decoder : Decoder α} {bytes : List UInt8} (rejects : Rejects decoder bytes) :
    ∃ error, decoder.front bytes = .error error := by
  obtain ⟨error, rest, threw⟩ := rejects
  exact ⟨error, by rw [Decoder.front, threw]⟩

/-- A decoder fails where its first field does. -/
theorem bind_first {decoder : Decoder α} {bytes : List UInt8} (rejects : Rejects decoder bytes)
    (next : α → Decoder β) : Rejects (decoder >>= next) bytes := by
  obtain ⟨error, rest, threw⟩ := rejects
  exact ⟨error, rest, Effect.exec_bind_error threw⟩

/-- A decoder fails where it reads its first field and fails on what follows. -/
theorem bind_later {decoder : Decoder α} {next : α → Decoder β} {bytes rest : List UInt8}
    {value : α} (reads : Reads decoder bytes value) (rejects : Rejects (next value) rest) :
    Rejects (decoder >>= next) (bytes ++ rest) := by
  obtain ⟨error, final, threw⟩ := rejects
  exact ⟨error, final, by rw [Effect.exec_bind_ok (reads rest), threw]⟩

/-- A decoder that gives up. -/
theorem throw (error : DecodeError) (bytes : List UInt8) :
    Rejects (MonadExcept.throw error : Decoder α) bytes := ⟨error, bytes, rfl⟩

/-- Too few bytes are left. -/
theorem take {count : Nat} {bytes : List UInt8} (short : bytes.length < count) :
    Rejects (Decoder.take count) bytes := by
  refine ⟨.unexpectedEnd, bytes, ?_⟩
  rw [Decoder.take, Effect.exec_bind_ok (Effect.exec_get _), if_pos short]
  rfl

/-- Nothing is left of a number. -/
theorem number {width : Nat} (positive : 0 < width) : Rejects (Decoder.number width) [] :=
  (take positive).bind_first _

variable [DecidableEq κ] {key : Decoder κ} {value : Decoder ν} {bytes rest : List UInt8}

/-- A map with an entry fails where its first key does. -/
theorem map_key {count : Nat} (counted : count + 1 < 256 ^ 8) (rejects : Rejects key bytes) :
    Rejects (Decoder.map key value) (leBytes 8 (count + 1) ++ bytes) :=
  bind_later (Reads.number counted) (rejects.bind_first _)

/-- A map with an entry fails where its first value does. -/
theorem map_value {count : Nat} {name : κ} (counted : count + 1 < 256 ^ 8)
    (reads : Reads key bytes name) (rejects : Rejects value rest) :
    Rejects (Decoder.map key value) (leBytes 8 (count + 1) ++ (bytes ++ rest)) :=
  bind_later (Reads.number counted) (bind_later reads (rejects.bind_first _))

end Rejects

/-- The entries of a map in some order, each key once. -/
structure Lists [DecidableEq κ] (entries : List (κ × ν)) (map : Finmap (fun _ : κ => ν)) :
    Prop where
  once : (entries.map Prod.fst).Nodup
  holds : ∀ entry, entry ∈ entries ↔ map.lookup entry.1 = some entry.2

namespace Lists

variable [DecidableEq κ]

/-- Inserting entries with distinct keys gives the key of each its value and
leaves every other key. -/
theorem lookup_foldl_insert (entries : List (κ × ν)) (once : (entries.map Prod.fst).Nodup)
    (map : Finmap (fun _ : κ => ν)) (name : κ) :
    (entries.foldl (fun map entry => map.insert entry.1 entry.2) map).lookup name =
      ((entries.find? (·.1 = name)).map Prod.snd).or (map.lookup name) := by
  induction entries generalizing map with
  | nil => rfl
  | cons entry rest inductionHypothesis =>
    rw [List.map_cons, List.nodup_cons] at once
    rw [List.foldl_cons, inductionHypothesis once.2]
    by_cases same : entry.1 = name
    · have absent : rest.find? (·.1 = name) = none := by
        rw [List.find?_eq_none]
        intro other member equal
        apply once.1
        rw [same, ← of_decide_eq_true equal]
        exact List.mem_map_of_mem member
      rw [absent, List.find?_cons_of_pos (by simpa using same), ← same]
      simp
    · rw [List.find?_cons_of_neg (by simpa using same),
        Finmap.lookup_insert_of_ne _ (Ne.symm same)]

/-- Inserting the entries of a map makes it up again, in whatever order. -/
theorem foldl_insert {entries : List (κ × ν)} {map : Finmap (fun _ : κ => ν)}
    (lists : Lists entries map) :
    entries.foldl (fun map entry => map.insert entry.1 entry.2) ∅ = map := by
  apply Finmap.ext_lookup
  intro name
  rw [lookup_foldl_insert entries lists.once]
  cases found : entries.find? (·.1 = name) with
  | some entry =>
    have named : entry.1 = name := by simpa using List.find?_some found
    have held := (lists.holds entry).mp (List.mem_of_find?_eq_some found)
    rw [named] at held
    simp [held]
  | none =>
    cases held : map.lookup name with
    | none => simp
    | some value =>
      have member := (lists.holds (name, value)).mpr held
      have absent := List.find?_eq_none.mp found (name, value) member
      simp at absent

/-- A map of one entry. -/
theorem singleton (name : κ) (value : ν) :
    Lists [(name, value)] (Finmap.singleton name value : Finmap fun _ : κ => ν) := by
  constructor
  · simp
  · rintro ⟨other, held⟩
    by_cases same : other = name
    · subst same
      simp [Finmap.lookup_singleton_eq, eq_comm]
    · have absent : (Finmap.singleton name value : Finmap fun _ : κ => ν).lookup other = none := by
        rw [Finmap.lookup_eq_none, Finmap.mem_singleton]
        exact same
      simp [same, absent]

/-- Every map has a listing. -/
theorem exists_listing (map : Finmap (fun _ : κ => ν)) : ∃ entries, Lists entries map := by
  induction map using Finmap.induction_on with
  | _ listing =>
    refine ⟨listing.entries.map fun entry => (entry.1, entry.2), ?_, ?_⟩
    · rw [List.map_map]
      exact listing.nodupKeys
    · rintro ⟨name, value⟩
      rw [Finmap.lookup_toFinmap, ← Option.mem_def, AList.mem_lookup_iff]
      simp

/-- The order of a listing does not matter. -/
theorem perm {entries others : List (κ × ν)} {map : Finmap (fun _ : κ => ν)}
    (lists : Lists entries map) (same : others.Perm entries) : Lists others map := by
  constructor
  · exact (same.map Prod.fst).nodup_iff.mpr lists.once
  · intro entry
    rw [same.mem_iff]
    exact lists.holds entry

/-- A listing has as many entries as the map has keys. -/
theorem length_eq {entries : List (κ × ν)} {map : Finmap (fun _ : κ => ν)}
    (lists : Lists entries map) : entries.length = map.keys.card := by
  have keys : (entries.map Prod.fst).toFinset = map.keys := by
    ext name
    rw [List.mem_toFinset, Finmap.mem_keys, ← Finmap.lookup_isSome, Option.isSome_iff_exists]
    constructor
    · intro member
      obtain ⟨entry, listed, rfl⟩ := List.mem_map.mp member
      exact ⟨entry.2, (lists.holds entry).mp listed⟩
    · rintro ⟨value, held⟩
      exact List.mem_map_of_mem ((lists.holds (name, value)).mpr held)
  rw [← keys, List.toFinset_card_of_nodup lists.once, List.length_map]

end Lists

end Singularmem.Library
