/-
This file reads a shift register as a polynomial over GF(2): the bit at an index
is the coefficient of that power.

One step of the register is a multiplication by `X` modulo the polynomial whose
lower coefficients are the taps and whose leading one is the bit that falls out.
Feeding a register some bits is therefore one division: what it holds at the end
is the remainder of its start, moved up by the bits, and of the polynomial of
the bits, moved up by the register.
-/

import McubootPort.Library.ShiftRegister
import Mathlib.Algebra.Polynomial.Div
import Mathlib.Algebra.CharP.Two
import Mathlib.Algebra.Field.ZMod
import Mathlib.Tactic.LinearCombination

namespace RegisterPolynomial

open Polynomial
open ShiftRegister (shift feed feedAll top)

noncomputable section

variable {width : Nat} (taps : BitVec width)

/-! ### Registers and bits as polynomials -/

/-- A bit as a coefficient. -/
def coefficient (bit : Bool) : ZMod 2 := if bit then 1 else 0

/-- The polynomial of a register. -/
def toPolynomial (register : BitVec width) : (ZMod 2)[X] :=
  ∑ index ∈ Finset.range width, C (coefficient (register.getLsbD index)) * X ^ index

/-- The polynomial of some bits, the first one leading. -/
def bitsPolynomial : List Bool → (ZMod 2)[X]
  | [] => 0
  | bit :: rest => C (coefficient bit) * X ^ rest.length + bitsPolynomial rest

/-- The polynomial that the register divides by: the taps, and the bit that falls out. -/
def divisor : (ZMod 2)[X] := X ^ width + toPolynomial taps

theorem coefficient_xor (first second : Bool) :
    coefficient (first ^^ second) = coefficient first + coefficient second := by
  cases first <;> cases second <;> decide

theorem coefficient_false : coefficient false = 0 := rfl

theorem coeff_toPolynomial (register : BitVec width) (index : Nat) :
    (toPolynomial register).coeff index = coefficient (register.getLsbD index) := by
  simp only [toPolynomial, finsetSum_coeff, coeff_C_mul, coeff_X_pow, mul_ite, mul_zero,
    Finset.sum_ite_eq, Finset.mem_range]
  by_cases inside : index < width
  · rw [if_pos inside, mul_one]
  · rw [if_neg inside, BitVec.getLsbD_of_ge _ _ (Nat.le_of_not_lt inside), coefficient_false]

theorem toPolynomial_xor (first second : BitVec width) :
    toPolynomial (first ^^^ second) = toPolynomial first + toPolynomial second := by
  ext index
  rw [coeff_add, coeff_toPolynomial, coeff_toPolynomial, coeff_toPolynomial, BitVec.getLsbD_xor,
    coefficient_xor]

theorem degree_toPolynomial_lt (register : BitVec width) :
    (toPolynomial register).degree < width := by
  refine (degree_lt_iff_coeff_zero _ _).mpr fun index above => ?_
  rw [coeff_toPolynomial, BitVec.getLsbD_of_ge _ _ above, coefficient_false]

theorem divisor_monic : (divisor taps).Monic :=
  monic_X_pow_add (degree_toPolynomial_lt taps)

theorem degree_divisor : (divisor taps).degree = width := by
  rw [divisor, degree_add_eq_left_of_degree_lt, degree_X_pow]
  rw [degree_X_pow]
  exact degree_toPolynomial_lt taps

/-! ### One step -/

/-- A register moved up by one place loses its top bit. -/
theorem toPolynomial_shiftLeft (positive : 0 < width) (register : BitVec width) :
    toPolynomial (register <<< 1) + C (coefficient register.msb) * X ^ width =
      X * toPolynomial register := by
  ext index
  rw [coeff_add, coeff_toPolynomial, coeff_C_mul, coeff_X_pow, BitVec.getLsbD_shiftLeft]
  cases index with
  | zero =>
    rw [if_neg (Nat.ne_of_lt positive), mul_zero, add_zero, coeff_X_mul_zero]
    simp [coefficient_false]
  | succ index =>
    rw [coeff_X_mul, coeff_toPolynomial, BitVec.msb_eq_getLsbD_last]
    rcases Nat.lt_trichotomy (index + 1) width with below | here | above
    · rw [if_neg (Nat.ne_of_lt below), mul_zero, add_zero]
      simp [below]
    · rw [if_pos here, mul_one, show width - 1 = index by omega]
      simp [coefficient_false, show ¬ index + 1 < width by omega]
    · rw [if_neg (Nat.ne_of_gt above), mul_zero, add_zero,
        BitVec.getLsbD_of_ge register index (by omega)]
      simp [show ¬ index + 1 < width by omega]

/-- A step multiplies by `X`, and takes the divisor off when a bit falls out. -/
theorem toPolynomial_shift (positive : 0 < width) (register : BitVec width) :
    toPolynomial (shift taps register) + C (coefficient register.msb) * divisor taps =
      X * toPolynomial register := by
  rw [← toPolynomial_shiftLeft positive, shift, divisor]
  cases register.msb
  · simp [coefficient]
  · simp only [if_true, toPolynomial_xor, coefficient, map_one, one_mul]
    rw [add_assoc, ← add_assoc (toPolynomial taps), add_comm (toPolynomial taps), add_assoc,
      CharTwo.add_self_eq_zero, add_zero]

theorem toPolynomial_top (positive : 0 < width) (bit : Bool) :
    toPolynomial (top bit : BitVec width) = C (coefficient bit) * X ^ (width - 1) := by
  ext index
  rw [coeff_toPolynomial, coeff_C_mul, coeff_X_pow]
  cases bit
  · simp [top, coefficient]
  · rw [top, if_pos rfl, BitVec.getLsbD_twoPow]
    by_cases here : index = width - 1
    · simp [here, positive, coefficient]
    · simp [here, Ne.symm here, coefficient]

/-- Taking a bit multiplies by `X` and adds the bit above the register, modulo the divisor. -/
theorem divisor_dvd_feed (positive : 0 < width) (register : BitVec width) (bit : Bool) :
    divisor taps ∣ X * toPolynomial register + C (coefficient bit) * X ^ width -
      toPolynomial (feed taps register bit) := by
  have step := toPolynomial_shift taps positive (register ^^^ top bit)
  have power : (X : (ZMod 2)[X]) ^ width = X * X ^ (width - 1) := by
    rw [← pow_succ', Nat.sub_add_cancel positive]
  rw [toPolynomial_xor, toPolynomial_top positive] at step
  refine ⟨C (coefficient (register ^^^ top bit).msb), ?_⟩
  rw [feed, power]
  linear_combination -step

/-! ### Runs -/

/-- Feeding some bits is congruent to moving the register up by them and adding them above it. -/
theorem divisor_dvd_feedAll (positive : 0 < width) (register : BitVec width) (bits : List Bool) :
    divisor taps ∣ toPolynomial register * X ^ bits.length + bitsPolynomial bits * X ^ width -
      toPolynomial (feedAll taps register bits) := by
  induction bits generalizing register with
  | nil =>
    rw [bitsPolynomial, List.length_nil, pow_zero, mul_one, zero_mul, add_zero]
    exact (sub_self (toPolynomial register)).symm ▸ dvd_zero _
  | cons bit rest inductionHypothesis =>
    obtain ⟨stepQuotient, step⟩ := divisor_dvd_feed taps positive register bit
    obtain ⟨restQuotient, others⟩ := inductionHypothesis (feed taps register bit)
    refine ⟨stepQuotient * X ^ rest.length + restQuotient, ?_⟩
    rw [bitsPolynomial, List.length_cons, pow_succ, feedAll, List.foldl_cons, ← feedAll]
    linear_combination X ^ rest.length * step + others

/-- What a register holds is a remainder: of its start moved up by the bits, and of the bits moved
up by the register. -/
theorem toPolynomial_feedAll (positive : 0 < width) (register : BitVec width)
    (bits : List Bool) :
    toPolynomial (feedAll taps register bits) =
      (toPolynomial register * X ^ bits.length + bitsPolynomial bits * X ^ width) %ₘ
        divisor taps := by
  obtain ⟨quotient, division⟩ := divisor_dvd_feedAll taps positive register bits
  refine ((div_modByMonic_unique quotient _ (divisor_monic taps) ⟨?_, ?_⟩).2).symm
  · linear_combination -division
  · rw [degree_divisor]
    exact degree_toPolynomial_lt _

end

end RegisterPolynomial
