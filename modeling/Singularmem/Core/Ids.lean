import Singularmem.Library.Bytes
import Mathlib.Data.BitVec

/-!
# Identifiers

Every identifier is a ULID: 48 bits of milliseconds above 80 random bits. Items,
entities and facts have distinct types, so that none stands in for another. The
text form is 26 digits of fixed-width base 32, whose order is the order of the
numbers, so tables keep the number itself.
-/

namespace Singularmem.Core

open Library

/-- A ULID as the 128-bit number it denotes. -/
abbrev Ulid := BitVec 128

/-- Assemble a ULID. Only the low 48 bits of the milliseconds and the low 80
bits of the random number are kept. -/
def Ulid.fromParts (timestampMs random : Nat) : Ulid :=
  BitVec.ofNat 128 ((timestampMs % 2 ^ 48) * 2 ^ 80 + random % 2 ^ 80)

/-- The digits of base 32, without letters that read as others. -/
def crockford : List Char := "0123456789ABCDEFGHJKMNPQRSTVWXYZ".toList

/-- The text form of a ULID. -/
def Ulid.display (ulid : Ulid) : String :=
  String.ofList ((List.range 26).map fun place =>
    crockford.getD (ulid.toNat / 32 ^ (25 - place) % 32) '0')

/-- Read the text form of a ULID, in either case. -/
def Ulid.fromString (text : String) : Option Ulid :=
  let digits := text.toList.map Char.toUpper
  if text.utf8ByteSize = 26 ∧ digits.all (· ∈ crockford) then
    some (BitVec.ofNat 128 (digits.foldl (fun value digit => value * 32 + crockford.idxOf digit) 0))
  else none

/-- Stable, opaque identifier for a memory item. -/
structure ItemId where
  ulid : Ulid
deriving DecidableEq, Inhabited

/-- Stable identifier of a graph entity. -/
structure EntityId where
  ulid : Ulid
deriving DecidableEq, Inhabited

/-- Stable identifier of one fact revision. -/
structure FactId where
  ulid : Ulid
deriving DecidableEq, Inhabited

/-- Read the text form of an item identifier. -/
def ItemId.fromStr (text : String) : Option ItemId := (Ulid.fromString text).map ItemId.mk

/-- Big-endian 16-byte encoding of the underlying ULID. -/
def ItemId.toBytes (id : ItemId) : List UInt8 := beBytes 16 id.ulid.toNat

/-- Reconstruct from a big-endian 16-byte ULID encoding. -/
def ItemId.fromBytes (bytes : List UInt8) : ItemId := ⟨BitVec.ofNat 128 (beNat bytes)⟩

@[simp] theorem ItemId.toBytes_length (id : ItemId) : id.toBytes.length = 16 := by
  simp [toBytes]

@[simp] theorem ItemId.fromBytes_toBytes (id : ItemId) : fromBytes id.toBytes = id := by
  have fits : id.ulid.toNat < 256 ^ 16 := id.ulid.isLt
  simp [fromBytes, toBytes, beNat_beBytes fits]

/-- The digits of a number in base 32, most significant first, make it up again. -/
theorem foldl_digits (width number : Nat) :
    ((List.range width).map fun place => number / 32 ^ (width - 1 - place) % 32).foldl
      (fun value digit => value * 32 + digit) 0 = number % 32 ^ width := by
  induction width generalizing number with
  | zero => simp [Nat.mod_one]
  | succ width inductionHypothesis =>
    have shifted : (List.range width).map (fun place => number / 32 ^ (width + 1 - 1 - place) % 32) =
        (List.range width).map fun place => number / 32 / 32 ^ (width - 1 - place) % 32 := by
      refine List.map_congr_left fun place member => ?_
      have within := List.mem_range.mp member
      rw [Nat.div_div_eq_div_mul, ← Nat.pow_succ', show width + 1 - 1 - place = width - 1 - place + 1 by omega]
    rw [List.range_succ, List.map_append, List.foldl_append, shifted, inductionHypothesis]
    simp only [List.map_cons, List.map_nil, List.foldl_cons, List.foldl_nil]
    rw [show width + 1 - 1 - width = 0 by omega, Nat.pow_zero, Nat.div_one, Nat.pow_succ',
      Nat.mod_mul]
    omega

/-- A digit is read back. -/
theorem crockford_digit : ∀ digit < 32, (crockford.getD digit '0').toUpper ∈ crockford ∧
    crockford.idxOf (crockford.getD digit '0').toUpper = digit ∧
    (crockford.getD digit '0').utf8Size = 1 := by
  decide

/-- A text of one-byte characters has as many bytes as characters. -/
theorem utf8ByteSize_ofList {chars : List Char} (small : ∀ char ∈ chars, char.utf8Size = 1) :
    (String.ofList chars).utf8ByteSize = chars.length := by
  induction chars with
  | nil => rfl
  | cons char rest inductionHypothesis =>
    have single := small char List.mem_cons_self
    have others := inductionHypothesis fun other otherIn => small other (List.mem_cons_of_mem char otherIn)
    rw [String.ofList_cons, String.utf8ByteSize_append, String.utf8ByteSize_singleton, single, others,
      List.length_cons, Nat.add_comm]

/-- **The text form of an identifier is read back.** -/
theorem ItemId.fromStr_display (id : ItemId) : ItemId.fromStr id.ulid.display = some id := by
  have digit : ∀ place, id.ulid.toNat / 32 ^ (25 - place) % 32 < 32 := fun place =>
    Nat.mod_lt _ (by decide)
  have size : id.ulid.display.utf8ByteSize = 26 := by
    rw [Ulid.display, utf8ByteSize_ofList, List.length_map, List.length_range]
    intro char member
    obtain ⟨place, _, rfl⟩ := List.mem_map.mp member
    exact (crockford_digit _ (digit place)).2.2
  have known : (id.ulid.display.toList.map Char.toUpper).all (· ∈ crockford) := by
    rw [List.all_eq_true]
    intro char member
    rw [Ulid.display, String.toList_ofList, List.map_map] at member
    obtain ⟨place, _, rfl⟩ := List.mem_map.mp member
    exact decide_eq_true (crockford_digit _ (digit place)).1
  have value : (id.ulid.display.toList.map Char.toUpper).foldl
      (fun value digit => value * 32 + crockford.idxOf digit) 0 = id.ulid.toNat := by
    have read := foldl_digits 26 id.ulid.toNat
    rw [Nat.mod_eq_of_lt (id.ulid.isLt.trans (by decide))] at read
    rw [← read, Ulid.display, String.toList_ofList, List.map_map, List.foldl_map, List.foldl_map]
    refine List.foldl_ext _ _ _ ?_
    intro total place _
    rw [Function.comp_apply, (crockford_digit _ (digit place)).2.1]
  rw [fromStr, Ulid.fromString, if_pos ⟨size, known⟩, value]
  simp

end Singularmem.Core
