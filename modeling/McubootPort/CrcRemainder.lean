/-
This file proves that `crc16_port_ccitt` is a division of polynomials over
GF(2): the checksum is the remainder of the seed and the message, read as
polynomials, modulo x^16 + x^12 + x^5 + 1.
-/

import McubootPort.Crc16
import McubootPort.Library.RegisterPolynomial

namespace McubootPort

open Polynomial RegisterPolynomial

/-- The taps are those of x^16 + x^12 + x^5 + 1. -/
theorem divisor_ccittTaps : divisor ccittTaps = X ^ 16 + X ^ 12 + X ^ 5 + 1 := by
  have low : ∀ place : Fin 16, coefficient (ccittTaps.getLsbD place) =
      (if place.val = 12 then 1 else 0) + (if place.val = 5 then 1 else 0) +
        if place.val = 0 then 1 else 0 := by
    decide
  have taps : toPolynomial ccittTaps = X ^ 12 + X ^ 5 + 1 := by
    ext index
    rw [coeff_toPolynomial, coeff_add, coeff_add, coeff_X_pow, coeff_X_pow, coeff_one]
    by_cases inside : index < 16
    · exact low ⟨index, inside⟩
    · rw [BitVec.getLsbD_of_ge _ _ (Nat.le_of_not_lt inside), coefficient_false,
        if_neg (by omega), if_neg (by omega), if_neg (by omega), add_zero, add_zero]
  rw [divisor, taps]
  ring

/-- The checksum of a message is the remainder of the seed, moved up by the message, and of the
message, moved up by the checksum, whether `char` is signed or not. -/
theorem crc16PortCcitt_remainder (signed : Bool) (seed : BitVec 16) (message : List UInt8) :
    toPolynomial (crc16PortCcitt signed seed message message.length) =
      (toPolynomial seed * X ^ (8 * message.length) +
        bitsPolynomial (bitString message) * X ^ 16) %ₘ (X ^ 16 + X ^ 12 + X ^ 5 + 1) := by
  have division := toPolynomial_feedAll ccittTaps (by decide) seed (bitString message)
  rw [crc16PortCcitt_eq, ← divisor_ccittTaps, ← bitString_length]
  exact division

end McubootPort
