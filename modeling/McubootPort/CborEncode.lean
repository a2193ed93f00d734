/-
This file models how the patched `cbor_encode.c` chooses the head of an item: how
many argument bytes `get_result_len` takes for a number that lies in memory, and
the additional information that `get_additional` puts into the header byte.

The scan for the highest byte that is not zero follows the byte order. The
special case behind it, for a number that fits the header byte, looks at the
first byte in memory in either order, and in big-endian order that is the highest
byte and not the one that was found.
-/

import McubootPort.Library.ByteOrder

namespace McubootPort

open ByteOrder

/-! ### The functions -/

/-- `VALUE_IN_HEADER`, the largest argument that the header byte itself holds. -/
def valueInHeader : UInt8 := 23

/-- `log2ceil`, or nothing when its assertion fails. -/
def log2ceil (val : Nat) : Option Nat :=
  match val with
  | 1 => some 0
  | 2 => some 1
  | 3 => some 2
  | 4 => some 2
  | _ => none

/-- `get_additional`. -/
def getAdditional (len : Nat) (value0 : UInt8) : Option Nat :=
  if len = 0 then some value0.toNat else (log2ceil len).map (24 + ·)

/-- The index that the loop of `get_result_len` looks at, with `CONFIG_BIG_ENDIAN` and without. -/
def loopIndex (order : ByteOrder) (maxResultLen len : Nat) : Nat :=
  match order with
  | .big => maxResultLen - len
  | .little => len - 1

/-- The loop of `get_result_len`, from `len` on. -/
def highestByte (order : ByteOrder) (u8Result : List UInt8) (maxResultLen : Nat) : Nat → Nat
  | 0 => 0
  | len + 1 =>
    if u8Result.getD (loopIndex order maxResultLen (len + 1)) 0 ≠ 0 then len + 1
    else highestByte order u8Result maxResultLen len

/-- The special case of `get_result_len` for a number in the header byte. -/
def inHeaderLen (u8Result : List UInt8) (len : Nat) : Nat :=
  if len = 1 ∧ u8Result.getD 0 0 ≤ valueInHeader then 0 else len

/-- The rounding up to a power of two at the end of `get_result_len`. -/
def roundedLen (len : Nat) : Option Nat :=
  if len ≤ 2 then some len else (log2ceil len).map (1 <<< ·)

/-- `get_result_len`. -/
def getResultLen (order : ByteOrder) (input : List UInt8) (maxResultLen : Nat) : Option Nat :=
  roundedLen (inHeaderLen input (highestByte order input maxResultLen maxResultLen))

/-! ### The shortest head -/

/-- The number of argument bytes of the shortest head for a number below 2 ^ 32. -/
def argumentLen (value : Nat) : Nat :=
  if value ≤ 23 then 0 else if value ≤ 0xFF then 1 else if value ≤ 0xFFFF then 2 else 4

/-- The additional information of that head. -/
def additionalInfo (value : Nat) : Nat :=
  if value ≤ 23 then value else if value ≤ 0xFF then 24 else if value ≤ 0xFFFF then 25 else 26

/-- The shortest head is chosen for a number in memory, and no assertion fails. -/
def ShortestHead (order : ByteOrder) (width value : Nat) : Prop :=
  getResultLen order (order.bytes width value) width = some (argumentLen value) ∧
    getAdditional (argumentLen value) (UInt8.ofNat value) = some (additionalInfo value)

instance (order : ByteOrder) (width value : Nat) : Decidable (ShortestHead order width value) :=
  inferInstanceAs (Decidable (_ ∧ _))

/-- The scan finds how many bytes the number takes. -/
theorem highestByte_bytes (order : ByteOrder) (width value : Nat) (fits : value < 256 ^ width) :
    highestByte order (order.bytes width value) width width = byteLength value := by
  have scan : ∀ len, highestByte order (order.bytes width value) width len =
      significant (fun index => (order.bytes width value).getD (order.place width index) 0)
        len := by
    intro len
    induction len with
    | zero => rfl
    | succ len inductionHypothesis =>
      have index : loopIndex order width (len + 1) = order.place width len := by
        cases order
        · rfl
        · show width - (len + 1) = width - 1 - len
          omega
      rw [highestByte, significant, index, inductionHypothesis]
  rw [scan, ← significant_digit value width fits]
  exact significant_congr _ _ width fun index inside =>
    bytes_getD_place order width value index inside

/-- The lengths that a number of at most four bytes has. -/
theorem byteLength_cases (value : Nat) (fits : value < 256 ^ 4) :
    (value = 0 ∧ byteLength value = 0) ∨ (0 < value ∧ value ≤ 0xFF ∧ byteLength value = 1) ∨
      (0xFF < value ∧ value ≤ 0xFFFF ∧ byteLength value = 2) ∨
        (0xFFFF < value ∧ (byteLength value = 3 ∨ byteLength value = 4)) := by
  have none := byteLength_le_iff value 0
  have one := byteLength_le_iff value 1
  have two := byteLength_le_iff value 2
  have four := byteLength_le_iff value 4
  norm_num at none one two four fits
  omega

/-- The first byte in memory of a number that takes one byte: the number itself, unless higher
bytes stand before it. -/
theorem bytes_first (order : ByteOrder) (width value : Nat) (positive : 0 < width)
    (fits : value ≤ 0xFF) :
    (order.bytes width value).getD 0 0 =
      if order = .little ∨ width = 1 then UInt8.ofNat value else 0 := by
  rw [bytes_getD order width value 0 positive]
  by_cases first : order = .little ∨ width = 1
  · have place : order.place width 0 = 0 := by
      rcases first with rfl | rfl
      · rfl
      · cases order <;> rfl
    rw [if_pos first, place, digit, pow_zero, Nat.div_one]
  · rw [if_neg first]
    rw [not_or] at first
    have big : order = .big := by
      cases order
      · exact absurd rfl first.1
      · rfl
    have small : value < 256 ^ (width - 1) :=
      Nat.lt_of_lt_of_le (by omega) (Nat.pow_le_pow_right (by decide) (by omega : 1 ≤ width - 1))
    rw [big]
    show digit value (width - 1 - 0) = 0
    rw [Nat.sub_zero, digit, Nat.div_eq_of_lt small]
    rfl

/-- The special case is taken for a number that fits the header byte, and in big-endian order for
every number whose first byte in memory is a higher one. -/
theorem first_le_valueInHeader_iff (order : ByteOrder) (width value : Nat) (positive : 0 < width)
    (fits : value ≤ 0xFF) :
    (order.bytes width value).getD 0 0 ≤ valueInHeader ↔
      value ≤ 23 ∨ (order = .big ∧ width ≠ 1) := by
  rw [bytes_first order width value positive fits]
  by_cases first : order = .little ∨ width = 1
  · rw [if_pos first, UInt8.le_iff_toNat_le, UInt8.toNat_ofNat', Nat.mod_eq_of_lt (by omega)]
    refine (or_iff_left ?_).symm
    rintro ⟨rfl, wide⟩
    exact first.elim (by decide) wide
  · rw [if_neg first]
    rw [not_or] at first
    refine iff_of_true (by decide) (Or.inr ⟨?_, first.2⟩)
    cases order
    · exact absurd rfl first.1
    · rfl

theorem inHeaderLen_of_ne (u8Result : List UInt8) (len : Nat) (other : len ≠ 1) :
    inHeaderLen u8Result len = len :=
  if_neg fun both => other both.1

/-- What `get_result_len` returns: the argument length of the shortest head, except where the
first byte in memory is not the one that the scan found. -/
theorem getResultLen_bytes (order : ByteOrder) (width value : Nat) (positive : 0 < width)
    (most : width ≤ 4) (fits : value < 256 ^ width) :
    getResultLen order (order.bytes width value) width =
      some (if order = .big ∧ width ≠ 1 ∧ 23 < value ∧ value ≤ 0xFF then 0
        else argumentLen value) := by
  have fits4 : value < 256 ^ 4 :=
    Nat.lt_of_lt_of_le fits (Nat.pow_le_pow_right (by decide) most)
  rw [getResultLen, highestByte_bytes order width value fits]
  rcases byteLength_cases value fits4 with
    ⟨zero, len⟩ | ⟨nonzero, small, len⟩ | ⟨above, small, len⟩ | ⟨above, len⟩
  · rw [len, inHeaderLen_of_ne _ 0 (by decide), if_neg (by omega), argumentLen,
      if_pos (by omega)]
    rfl
  · have special := first_le_valueInHeader_iff order width value positive small
    rw [len, inHeaderLen]
    by_cases header : value ≤ 23
    · rw [if_pos ⟨rfl, special.mpr (Or.inl header)⟩, if_neg (by omega), argumentLen,
        if_pos header]
      rfl
    · by_cases wrong : order = .big ∧ width ≠ 1
      · rw [if_pos ⟨rfl, special.mpr (Or.inr wrong)⟩,
          if_pos ⟨wrong.1, wrong.2, by omega, small⟩]
        rfl
      · rw [if_neg fun both => (special.mp both.2).elim header wrong,
          if_neg fun all => wrong ⟨all.1, all.2.1⟩, argumentLen, if_neg header, if_pos small]
        rfl
  · rw [len, inHeaderLen_of_ne _ 2 (by decide), if_neg (by omega), argumentLen,
      if_neg (by omega), if_neg (by omega), if_pos small]
    rfl
  · rw [inHeaderLen_of_ne _ _ (by omega), if_neg (by omega), argumentLen, if_neg (by omega),
      if_neg (by omega), if_neg (by omega)]
    rcases len with len | len <;> rw [len] <;> rfl

theorem getAdditional_argumentLen (value : Nat) :
    getAdditional (argumentLen value) (UInt8.ofNat value) = some (additionalInfo value) := by
  rw [argumentLen, additionalInfo]
  by_cases header : value ≤ 23
  · rw [if_pos header, if_pos header, getAdditional, if_pos rfl, UInt8.toNat_ofNat',
      Nat.mod_eq_of_lt (by omega)]
  · rw [if_neg header, if_neg header]
    split_ifs <;> rfl

/-- The encoder picks the shortest head exactly when the number is in little-endian order, or one
byte wide, or is not one of those from 24 to 255. No assertion fails in any case. -/
theorem shortestHead_iff (order : ByteOrder) (width value : Nat)
    (legal : width = 1 ∨ width = 2 ∨ width = 4) (fits : value < 256 ^ width) :
    (ShortestHead order width value ↔
        order = .little ∨ width = 1 ∨ value ≤ 23 ∨ 0xFF < value) ∧
      ∃ len, getResultLen order (order.bytes width value) width = some len ∧
        (getAdditional len (UInt8.ofNat value)).isSome = true := by
  have returns := getResultLen_bytes order width value (by omega) (by omega) fits
  have additional := getAdditional_argumentLen value
  by_cases wrong : order = .big ∧ width ≠ 1 ∧ 23 < value ∧ value ≤ 0xFF
  · rw [if_pos wrong] at returns
    refine ⟨iff_of_false ?_ ?_, 0, returns, rfl⟩
    · rintro ⟨shortest, _⟩
      rw [returns, argumentLen, if_neg (by omega), if_pos wrong.2.2.2] at shortest
      cases shortest
    · rintro (little | one | header | above)
      · rw [wrong.1] at little
        cases little
      · exact wrong.2.1 one
      · omega
      · omega
  · rw [if_neg wrong] at returns
    refine ⟨iff_of_true ⟨returns, additional⟩ ?_, _, returns, by rw [additional]; rfl⟩
    cases order
    · exact Or.inl rfl
    · refine Or.inr ?_
      by_contra other
      simp only [not_or] at other
      exact wrong ⟨rfl, other.1, by omega, by omega⟩

/-- The number 500 in four bytes, in big-endian order. -/
theorem shortestHead_iff_wide :
    getResultLen .big (ByteOrder.big.bytes 4 500) 4 = some 2 ∧
      getAdditional 2 (UInt8.ofNat 500) = some 25 :=
  (shortestHead_iff .big 4 500 (by decide) (by decide)).1.mpr (by decide)

/-- The number 100 in four bytes, in big-endian order: no argument byte at all. -/
theorem shortestHead_big :
    getResultLen .big (ByteOrder.big.bytes 4 100) 4 = some 0 ∧ argumentLen 100 = 1 ∧
      ¬ ShortestHead .big 4 100 := by
  decide

end McubootPort
