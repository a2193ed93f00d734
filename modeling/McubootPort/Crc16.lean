/-
This file models `crc16_port_ccitt` and proves what the frame checksum detects.

The function works on a 16-bit register in 32-bit arithmetic, on bytes that may
be sign-extended when `char` is signed. Neither is visible in the result: one
byte is eight steps of the shift register of x^16 + x^12 + x^5 + 1, and a run
over some bytes is the register fed with their bits, the most significant first.
What the code detects is then a matter of the polynomial: its lowest tap is set,
it has an odd number of taps below the top one, and x has order 32767.
-/

import McubootPort.Library.ShiftRegister
import Mathlib.Data.List.GetD
import Mathlib.Tactic.NormNum.Prime

namespace McubootPort

open ShiftRegister

/-! ### The function -/

/-- The integer promotion of a `char`, which the compiler may take as signed or unsigned. -/
def promoteChar (signed : Bool) (char : UInt8) : BitVec 32 :=
  if signed then char.toBitVec.signExtend 32 else char.toBitVec.setWidth 32

/-- One pass of the inner loop, in `int` arithmetic with the result cut to 16 bits. -/
def crcBit (crc : BitVec 16) : BitVec 16 :=
  if crc &&& 0x8000#16 ≠ 0 then (crc.setWidth 32 <<< 1 ^^^ 0x1021#32).setWidth 16
  else (crc.setWidth 32 <<< 1).setWidth 16

/-- One pass of the outer loop. -/
def crcByte (signed : Bool) (crc : BitVec 16) (char : UInt8) : BitVec 16 :=
  let inter := (promoteChar signed char <<< 8).setWidth 16
  crcBit^[8] (crc ^^^ inter)

def crc16PortCcitt (signed : Bool) (crc : BitVec 16) (data : List UInt8) (len : Nat) :
    BitVec 16 :=
  (data.take len).foldl (crcByte signed) crc

/-! ### The shift register under it -/

/-- The taps of the CCITT polynomial. -/
def ccittTaps : BitVec 16 := 0x1021#16

/-- The bits of a byte, the most significant first. -/
def byteBits (char : UInt8) : List Bool :=
  [7, 6, 5, 4, 3, 2, 1, 0].map fun index => char.toBitVec.getLsbD index

/-- The bits of some bytes. -/
def bitString (bytes : List UInt8) : List Bool := bytes.flatMap byteBits

theorem bitString_nil : bitString [] = [] := rfl

theorem bitString_cons (char : UInt8) (rest : List UInt8) :
    bitString (char :: rest) = byteBits char ++ bitString rest :=
  List.flatMap_cons

theorem crcBit_eq (crc : BitVec 16) : crcBit crc = shift ccittTaps crc := by
  have top : (crc &&& 0x8000#16 ≠ 0) = (crc.msb = true) := by
    rw [show (0x8000#16) = BitVec.twoPow 16 15 from rfl, BitVec.and_twoPow,
      BitVec.msb_eq_getLsbD_last]
    cases crc.getLsbD 15 <;> simp
  have narrow : (crc.setWidth 32 <<< 1).setWidth 16 = crc <<< 1 := by
    refine BitVec.eq_of_getLsbD_eq fun index bound => ?_
    simp only [BitVec.getLsbD_setWidth, BitVec.getLsbD_shiftLeft]
    simp [bound, show index < 32 by omega, show index - 1 < 32 by omega]
  rw [crcBit, shift, BitVec.setWidth_xor, narrow]
  simp only [top]
  rfl

theorem byteBits_length (char : UInt8) : (byteBits char).length = 8 := rfl

theorem byteBits_getD (char : UInt8) (index : Nat) (inside : index < 8) :
    (byteBits char).getD index false = char.toBitVec.getLsbD (7 - index) := by
  have positions : ∀ place : Fin 8, [7, 6, 5, 4, 3, 2, 1, 0].getD place 0 = 7 - place.val := by
    decide
  rw [← positions ⟨index, inside⟩, byteBits, List.getD_eq_getElem _ _ (by simpa using inside),
    List.getElem_map, List.getD_eq_getElem _ _ (by simpa using inside)]

/-- Sign extension is lost in the shift: the byte stands in the upper half. -/
theorem promoteChar_eq_load (signed : Bool) (char : UInt8) :
    (promoteChar signed char <<< 8).setWidth 16 = load (byteBits char) := by
  refine BitVec.eq_of_getLsbD_eq fun index bound => ?_
  rw [load_getLsbD _ index bound, BitVec.getLsbD_setWidth, BitVec.getLsbD_shiftLeft]
  by_cases low : index < 8
  · rw [List.getD_eq_default _ _ (by rw [byteBits_length]; omega)]
    simp [low]
  · have promoted : (promoteChar signed char).getLsbD (index - 8) =
        char.toBitVec.getLsbD (index - 8) := by
      unfold promoteChar
      split
      · rw [BitVec.getLsbD_signExtend, if_pos (by omega)]
        simp [show index - 8 < 32 by omega]
      · rw [BitVec.getLsbD_setWidth]
        simp [show index - 8 < 32 by omega]
    rw [promoted, byteBits_getD char _ (by omega),
      show 7 - (16 - 1 - index) = index - 8 by omega]
    simp [bound, low, show index < 32 by omega]

theorem crcByte_eq (signed : Bool) (crc : BitVec 16) (char : UInt8) :
    crcByte signed crc char = feedAll ccittTaps crc (byteBits char) := by
  have steps : crcBit = shift ccittTaps := funext crcBit_eq
  rw [feedAll_eq_load ccittTaps crc _ (by rw [byteBits_length]; omega), byteBits_length,
    ← promoteChar_eq_load signed, ← steps]
  rfl

/-- The checksum of some bytes is what the register holds after their bits. -/
theorem foldl_crcByte (signed : Bool) (crc : BitVec 16) (bytes : List UInt8) :
    bytes.foldl (crcByte signed) crc = feedAll ccittTaps crc (bitString bytes) := by
  induction bytes generalizing crc with
  | nil => rfl
  | cons char rest inductionHypothesis =>
    rw [List.foldl_cons, inductionHypothesis, crcByte_eq, ← feedAll_append, bitString_cons]

theorem crc16PortCcitt_eq (signed : Bool) (crc : BitVec 16) (data : List UInt8) :
    crc16PortCcitt signed crc data data.length = feedAll ccittTaps crc (bitString data) := by
  rw [crc16PortCcitt, List.take_length, foldl_crcByte]

/-- Checksums are chained by the seed. -/
theorem crc16PortCcitt_append (signed : Bool) (crc : BitVec 16) (first second : List UInt8) :
    crc16PortCcitt signed crc (first ++ second) (first ++ second).length =
      crc16PortCcitt signed (crc16PortCcitt signed crc first first.length) second
        second.length := by
  rw [crc16PortCcitt, crc16PortCcitt, crc16PortCcitt, List.take_length, List.take_length,
    List.take_length, List.foldl_append]

/-! ### The order of the polynomial -/

theorem ccittTaps_lowest : ccittTaps.getLsbD 0 = true := by decide

theorem ccittTaps_odd : parity ccittTaps = true := by decide

/-- After 32767 steps the register is back at one. -/
theorem ccitt_period : (shift ccittTaps)^[32767] 1#16 = 1#16 := by
  have digits : 32767 = value (List.replicate 15 true) := by decide
  rw [digits, ← power_eq]
  decide +kernel

/-- The register is not back at one after a proper divisor of 32767 steps. -/
theorem ccitt_quotients (prime : Nat) (isPrime : prime.Prime) (divides : prime ∣ 32767) :
    (shift ccittTaps)^[32767 / prime] 1#16 ≠ 1#16 := by
  have factors : prime = 7 ∨ prime = 31 ∨ prime = 151 := by
    rw [show 32767 = 7 * (31 * 151) by norm_num, isPrime.dvd_mul, isPrime.dvd_mul,
      Nat.prime_dvd_prime_iff_eq isPrime (by norm_num),
      Nat.prime_dvd_prime_iff_eq isPrime (by norm_num),
      Nat.prime_dvd_prime_iff_eq isPrime (by norm_num)] at divides
    exact divides
  rcases factors with rfl | rfl | rfl
  · have digits : 32767 / 7 = value [true, false, false, true, false, false, true, false, false,
        true, false, false, true] := by decide
    rw [digits, ← power_eq]
    decide +kernel
  · have digits : 32767 / 31 = value [true, false, false, false, false, true, false, false, false,
        false, true] := by decide
    rw [digits, ← power_eq]
    decide +kernel
  · have digits : 32767 / 151 = value [true, true, false, true, true, false, false, true] := by
      decide
    rw [digits, ← power_eq]
    decide +kernel

/-- Two input places fewer than 32767 steps apart are told apart. -/
theorem ccitt_top_ne (count : Nat) (moved : 0 < count) (below : count < 32767) :
    (shift ccittTaps)^[count] (top true) ≠ top true := by
  have start : (top true : BitVec 16) = (shift ccittTaps)^[15] 1#16 :=
    (iterate_one ccittTaps 15 (by decide)).symm
  rw [start, ← Function.iterate_add_apply, Nat.add_comm, Function.iterate_add_apply]
  intro same
  have back := (shift_injective ccittTaps (by decide) ccittTaps_lowest).iterate 15 same
  exact iterate_ne_of_lt_period (shift ccittTaps) 1#16 32767 ccitt_period ccitt_quotients count
    moved below back

/-! ### Errors in a valid message -/

/-- The error patterns a checksum of 16 bits is chosen for: an odd number of bits, a burst of at
most 16, or two bits fewer than 32767 apart. -/
inductive Detectable (pattern : List Bool) : Prop where
  | odd (weight : pattern.count true % 2 = 1)
  | burst (start : Nat) (set : true ∈ pattern)
      (within : ∀ index : Nat, pattern[index]? = some true → start ≤ index ∧ index < start + 16)
  | two (first second : Nat) (ordered : first < second) (near : second - first < 32767)
      (set : ∀ index : Nat, pattern[index]? = some true ↔ index = first ∨ index = second)

theorem feedAll_detectable (pattern : List Bool) (detectable : Detectable pattern) :
    feedAll ccittTaps 0#16 pattern ≠ 0#16 := by
  cases detectable with
  | odd weight =>
    intro zero
    have sum := parity_feedAll ccittTaps (by decide) ccittTaps_odd 0#16 pattern
    rw [zero, parity_zero, Bool.false_xor, decide_eq_true weight] at sum
    cases sum
  | burst start set within =>
    exact feedAll_burst_ne_zero ccittTaps (by decide) ccittTaps_lowest pattern start set within
  | two first second ordered near set =>
    exact feedAll_two_ne_zero ccittTaps (by decide) ccittTaps_lowest pattern first second ordered
      set (ccitt_top_ne (second - first) (by omega) near)

/-- Exclusive or of two byte strings of one length. -/
def xorBytes (first second : List UInt8) : List UInt8 := List.zipWith (· ^^^ ·) first second

theorem byteBits_xor (first second : UInt8) :
    byteBits (first ^^^ second) = List.zipWith xor (byteBits first) (byteBits second) := by
  simp [byteBits]

theorem bitString_xorBytes (first second : List UInt8) (lengths : first.length = second.length) :
    bitString (xorBytes first second) =
      List.zipWith xor (bitString first) (bitString second) := by
  induction first generalizing second with
  | nil => rfl
  | cons head rest inductionHypothesis =>
    cases second with
    | nil => cases lengths
    | cons other others =>
      rw [xorBytes, List.zipWith_cons_cons, bitString_cons, ← xorBytes,
        inductionHypothesis others (Nat.succ.inj lengths), byteBits_xor, bitString_cons,
        bitString_cons, List.zipWith_append]
      rfl

theorem bitString_length (bytes : List UInt8) : (bitString bytes).length = 8 * bytes.length := by
  induction bytes with
  | nil => rfl
  | cons char rest inductionHypothesis =>
    rw [bitString_cons, List.length_append, inductionHypothesis, byteBits_length,
      List.length_cons]
    omega

/-- A valid message with a detectable error is no longer valid. -/
theorem crc16PortCcitt_detects (signed : Bool) (message error : List UInt8)
    (lengths : error.length = message.length)
    (valid : crc16PortCcitt signed 0 message message.length = 0)
    (detectable : Detectable (bitString error)) :
    crc16PortCcitt signed 0 (xorBytes message error) (xorBytes message error).length ≠ 0 := by
  have sum := feedAll_xor ccittTaps 0#16 0#16 (bitString message) (bitString error)
    (by rw [bitString_length, bitString_length, lengths])
  rw [crc16PortCcitt_eq] at valid ⊢
  rw [bitString_xorBytes _ _ lengths.symm]
  rw [BitVec.xor_self] at sum
  intro zero
  refine feedAll_detectable _ detectable ?_
  rw [← BitVec.zero_xor (x := feedAll ccittTaps 0#16 (bitString error))]
  exact (congrArg (· ^^^ _) valid).symm.trans (sum.symm.trans zero)

/-- The byte `61` with its checksum, and one flipped bit. -/
theorem crc16PortCcitt_detects_flip :
    crc16PortCcitt true 0 (xorBytes [0x61, 0x7C, 0x87] [0, 1, 0])
      (xorBytes [0x61, 0x7C, 0x87] [0, 1, 0]).length ≠ 0 :=
  crc16PortCcitt_detects true [0x61, 0x7C, 0x87] [0, 1, 0] rfl (by decide +kernel)
    (.odd (by decide))

end McubootPort
