/-
This file rounds addresses down and up to a unit, over numbers and over machine
words. On words the unit is a power of two and the rounding is a mask.
-/

import Mathlib.Data.Nat.Bitwise
import Mathlib.Algebra.Order.Group.Nat

namespace Alignment

/-- The last multiple of the unit at or below an address. -/
def alignDown (unit address : Nat) : Nat := address / unit * unit

/-- The first multiple of the unit at or above an address. -/
def alignUp (unit address : Nat) : Nat := (address + (unit - 1)) / unit * unit

theorem dvd_alignDown (unit address : Nat) : unit ∣ alignDown unit address :=
  Nat.dvd_mul_left unit _

theorem dvd_alignUp (unit address : Nat) : unit ∣ alignUp unit address :=
  Nat.dvd_mul_left unit _

theorem alignDown_le (unit address : Nat) : alignDown unit address ≤ address :=
  Nat.div_mul_le_self address unit

theorem le_alignUp (unit address : Nat) (positive : 0 < unit) : address ≤ alignUp unit address := by
  have split := Nat.div_add_mod (address + (unit - 1)) unit
  have remainder := Nat.mod_lt (address + (unit - 1)) positive
  rw [alignUp, Nat.mul_comm]
  omega

theorem alignUp_le (unit address : Nat) : alignUp unit address ≤ address + (unit - 1) :=
  Nat.div_mul_le_self _ unit

theorem alignUp_of_dvd (unit address : Nat) (positive : 0 < unit) (aligned : unit ∣ address) :
    alignUp unit address = address := by
  obtain ⟨count, rfl⟩ := aligned
  rw [alignUp, Nat.mul_add_div positive, Nat.div_eq_of_lt (by omega), Nat.add_zero, Nat.mul_comm]

theorem alignUp_eq_self_iff (unit address : Nat) (positive : 0 < unit) :
    alignUp unit address = address ↔ unit ∣ address := by
  constructor
  · intro same
    rw [← same]
    exact dvd_alignUp unit address
  · exact alignUp_of_dvd unit address positive

/-- A word shifted down and up again is rounded down. -/
theorem toNat_shift_shift {width : Nat} (word : BitVec width) (bits : Nat) :
    (word >>> bits <<< bits).toNat = alignDown (2 ^ bits) word.toNat := by
  rw [BitVec.toNat_shiftLeft, BitVec.toNat_ushiftRight, Nat.shiftLeft_eq,
    Nat.shiftRight_eq_div_pow]
  exact Nat.mod_eq_of_lt (Nat.lt_of_le_of_lt (alignDown_le (2 ^ bits) word.toNat) word.isLt)

theorem and_not_mask {width : Nat} (word : BitVec width) (bits : Nat) :
    word &&& ~~~BitVec.ofNat width (2 ^ bits - 1) = word >>> bits <<< bits := by
  refine BitVec.eq_of_getLsbD_eq fun index bound => ?_
  rw [BitVec.getLsbD_and, BitVec.getLsbD_not, BitVec.getLsbD_ofNat, Nat.testBit_two_pow_sub_one,
    BitVec.getLsbD_shiftLeft, BitVec.getLsbD_ushiftRight, decide_eq_true bound]
  by_cases low : index < bits
  · simp [low]
  · simp [low, show bits + (index - bits) = index by omega]

/-- Clearing the low bits of a word rounds it down. -/
theorem toNat_and_not_mask {width : Nat} (word : BitVec width) (bits : Nat) :
    (word &&& ~~~BitVec.ofNat width (2 ^ bits - 1)).toNat = alignDown (2 ^ bits) word.toNat := by
  rw [and_not_mask, toNat_shift_shift]

end Alignment
