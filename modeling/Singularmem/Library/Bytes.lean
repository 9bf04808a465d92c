import Mathlib.Algebra.Group.Nat.Defs
import Mathlib.Data.List.Basic
import Mathlib.Tactic.Common

/-!
# Fixed-width byte encodings of natural numbers

A number is written in a given count of bytes, least significant first; the
big-endian form is its reversal. Reading inverts writing for every number that
fits the width.
-/

namespace Singularmem.Library

/-- The `width` low-order bytes of a number, least significant first. -/
def leBytes : Nat → Nat → List UInt8
  | 0, _ => []
  | width + 1, number => UInt8.ofNat (number % 256) :: leBytes width (number / 256)

/-- The number that bytes denote, least significant first. -/
def leNat : List UInt8 → Nat
  | [] => 0
  | byte :: rest => byte.toNat + 256 * leNat rest

/-- The `width` low-order bytes of a number, most significant first. -/
def beBytes (width number : Nat) : List UInt8 := (leBytes width number).reverse

/-- The number that bytes denote, most significant first. -/
def beNat (bytes : List UInt8) : Nat := leNat bytes.reverse

@[simp] theorem leBytes_length (width number : Nat) : (leBytes width number).length = width := by
  induction width generalizing number with
  | zero => rfl
  | succ width inductionHypothesis => simp [leBytes, inductionHypothesis]

@[simp] theorem beBytes_length (width number : Nat) : (beBytes width number).length = width := by
  simp [beBytes]

/-- Writing keeps a number modulo the range of its width. -/
theorem leNat_leBytes_mod (width number : Nat) :
    leNat (leBytes width number) = number % 256 ^ width := by
  induction width generalizing number with
  | zero => simp [leBytes, leNat, Nat.mod_one]
  | succ width inductionHypothesis =>
    have low : (UInt8.ofNat (number % 256)).toNat = number % 256 := by
      simp [UInt8.toNat_ofNat']
    rw [leBytes, leNat, low, inductionHypothesis, Nat.pow_succ, Nat.mul_comm (256 ^ width) 256,
      Nat.mod_mul]

/-- A number that fits its width is read back. -/
theorem leNat_leBytes {width number : Nat} (fits : number < 256 ^ width) :
    leNat (leBytes width number) = number := by
  rw [leNat_leBytes_mod, Nat.mod_eq_of_lt fits]

/-- The big-endian form is read back under the same bound. -/
theorem beNat_beBytes {width number : Nat} (fits : number < 256 ^ width) :
    beNat (beBytes width number) = number := by
  rw [beNat, beBytes, List.reverse_reverse, leNat_leBytes fits]

/-- What bytes denote fits their width. -/
theorem leNat_lt (bytes : List UInt8) : leNat bytes < 256 ^ bytes.length := by
  induction bytes with
  | nil => simp [leNat]
  | cons byte rest inductionHypothesis =>
    have small : byte.toNat < 256 := byte.toNat_lt
    rw [leNat, List.length_cons, Nat.pow_succ]
    omega

/-- Bytes that were read are written back. -/
theorem leBytes_leNat (bytes : List UInt8) : leBytes bytes.length (leNat bytes) = bytes := by
  induction bytes with
  | nil => rfl
  | cons byte rest inductionHypothesis =>
    have small : byte.toNat < 256 := byte.toNat_lt
    have low : (byte.toNat + 256 * leNat rest) % 256 = byte.toNat := by omega
    have high : (byte.toNat + 256 * leNat rest) / 256 = leNat rest := by omega
    rw [leNat, List.length_cons, leBytes, low, high, inductionHypothesis, UInt8.ofNat_toNat]

theorem beNat_lt (bytes : List UInt8) : beNat bytes < 256 ^ bytes.length := by
  have bound := leNat_lt bytes.reverse
  rwa [List.length_reverse] at bound

theorem beBytes_beNat (bytes : List UInt8) : beBytes bytes.length (beNat bytes) = bytes := by
  have written := leBytes_leNat bytes.reverse
  rw [List.length_reverse] at written
  rw [beBytes, beNat, written, List.reverse_reverse]

end Singularmem.Library
