/-
This file is about the bytes of a number in memory, in either byte order.

A number has base-256 digits, and a byte order says which of them stands at
which index. Scanning for the highest byte that is not zero, from whichever end
it stands at, finds how many digits the number has, and that is how many bytes
are needed for it.
-/

import Mathlib.Data.Nat.Digits.Lemmas
import Mathlib.Data.List.GetD

/-- Where the least significant byte of a number stands. -/
inductive ByteOrder
  | little
  | big
deriving DecidableEq

namespace ByteOrder

/-- The index of a digit among `width` bytes, and the digit at an index. -/
def place (order : ByteOrder) (width index : Nat) : Nat :=
  match order with
  | .little => index
  | .big => width - 1 - index

/-- A digit of a number. -/
def digit (value place : Nat) : UInt8 := UInt8.ofNat (value / 256 ^ place)

/-- The bytes of a number in memory. -/
def bytes (order : ByteOrder) (width value : Nat) : List UInt8 :=
  (List.range width).map fun index => digit value (order.place width index)

/-- How many bytes a number takes. -/
def byteLength (value : Nat) : Nat := (Nat.digits 256 value).length

/-- Going down from `len`, the first number of digits whose last one is not zero. -/
def significant (digits : Nat → UInt8) : Nat → Nat
  | 0 => 0
  | len + 1 => if digits len ≠ 0 then len + 1 else significant digits len

theorem place_lt (order : ByteOrder) (width index : Nat) (inside : index < width) :
    order.place width index < width := by
  cases order
  · exact inside
  · exact Nat.lt_of_le_of_lt (Nat.sub_le _ _) (by omega)

theorem place_place (order : ByteOrder) (width index : Nat) (inside : index < width) :
    order.place width (order.place width index) = index := by
  cases order
  · rfl
  · show width - 1 - (width - 1 - index) = index
    omega

@[simp] theorem length_bytes (order : ByteOrder) (width value : Nat) :
    (order.bytes width value).length = width := by
  rw [bytes, List.length_map, List.length_range]

theorem bytes_getD (order : ByteOrder) (width value index : Nat) (inside : index < width) :
    (order.bytes width value).getD index 0 = digit value (order.place width index) := by
  rw [List.getD_eq_getElem _ _ (by rwa [length_bytes])]
  simp only [bytes, List.getElem_map, List.getElem_range]

/-- The byte that holds a digit. -/
theorem bytes_getD_place (order : ByteOrder) (width value index : Nat) (inside : index < width) :
    (order.bytes width value).getD (order.place width index) 0 = digit value index := by
  rw [bytes_getD order width value _ (order.place_lt width index inside),
    order.place_place width index inside]

theorem digit_toNat (value place : Nat) (fits : value < 256 ^ (place + 1)) :
    (digit value place).toNat = value / 256 ^ place := by
  rw [digit, UInt8.toNat_ofNat']
  refine Nat.mod_eq_of_lt (Nat.div_lt_of_lt_mul ?_)
  rwa [pow_succ] at fits

/-- The top digit is not zero when the number reaches it. -/
theorem digit_ne_zero_iff (value place : Nat) (fits : value < 256 ^ (place + 1)) :
    digit value place ≠ 0 ↔ 256 ^ place ≤ value := by
  rw [ne_eq, ← UInt8.toNat_inj, digit_toNat value place fits]
  show ¬ value / 256 ^ place = 0 ↔ _
  rw [Nat.div_eq_zero_iff, not_or]
  have positive : 0 < 256 ^ place := Nat.pow_pos (by decide)
  omega

theorem byteLength_le_iff (value len : Nat) : byteLength value ≤ len ↔ value < 256 ^ len :=
  Nat.digits_length_le_iff (by decide) value

/-- The scan finds the length of the number. -/
theorem significant_digit (value len : Nat) (fits : value < 256 ^ len) :
    significant (digit value) len = byteLength value := by
  induction len with
  | zero =>
    have none := (byteLength_le_iff value 0).mpr fits
    exact (Nat.le_zero.mp none).symm
  | succ len inductionHypothesis =>
    rw [significant]
    by_cases reaches : 256 ^ len ≤ value
    · rw [if_pos ((digit_ne_zero_iff value len fits).mpr reaches)]
      have above := (byteLength_le_iff value len).not.mpr (Nat.not_lt.mpr reaches)
      have below := (byteLength_le_iff value (len + 1)).mpr fits
      omega
    · rw [if_neg ((digit_ne_zero_iff value len fits).not.mpr reaches)]
      exact inductionHypothesis (Nat.lt_of_not_le reaches)

/-- A scan looks at the digits below its start alone. -/
theorem significant_congr (first second : Nat → UInt8) (len : Nat)
    (same : ∀ index, index < len → first index = second index) :
    significant first len = significant second len := by
  induction len with
  | zero => rfl
  | succ len inductionHypothesis =>
    rw [significant, significant, same len (Nat.lt_succ_self len),
      inductionHypothesis fun index inside => same index (Nat.lt_succ_of_lt inside)]

end ByteOrder
