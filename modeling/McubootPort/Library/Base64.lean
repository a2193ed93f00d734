/-
This file is the base64 encoding of byte strings: three bytes are four
characters, and a last group of one or two bytes is padded. Decoding undoes
encoding.
-/

import Mathlib.Data.List.Basic

namespace Base64

/-- The character of six bits. -/
def character (sextet : BitVec 6) : UInt8 :=
  let value := UInt8.ofNat sextet.toNat
  if value < 26 then value + 65
  else if value < 52 then value + 71
  else if value < 62 then value - 4
  else if value = 62 then 43
  else 47

/-- The six bits of a character, if it is one of the alphabet. -/
def sextet (char : UInt8) : Option (BitVec 6) :=
  if 65 ≤ char ∧ char ≤ 90 then some (BitVec.ofNat 6 (char - 65).toNat)
  else if 97 ≤ char ∧ char ≤ 122 then some (BitVec.ofNat 6 (char - 71).toNat)
  else if 48 ≤ char ∧ char ≤ 57 then some (BitVec.ofNat 6 (char + 4).toNat)
  else if char = 43 then some 62
  else if char = 47 then some 63
  else none

/-- The padding character. -/
def pad : UInt8 := 61

/-- The first six bits of a byte. -/
def head (first : UInt8) : UInt8 := character (first.toBitVec.extractLsb' 2 6)

/-- The last two bits of a byte and the first four of the next. -/
def second (first next : UInt8) : UInt8 :=
  character (first.toBitVec.extractLsb' 0 2 ++ next.toBitVec.extractLsb' 4 4)

/-- The last four bits of a byte and the first two of the next. -/
def third (first next : UInt8) : UInt8 :=
  character (first.toBitVec.extractLsb' 0 4 ++ next.toBitVec.extractLsb' 6 2)

/-- The last six bits of a byte. -/
def tail (first : UInt8) : UInt8 := character (first.toBitVec.extractLsb' 0 6)

def encode : List UInt8 → List UInt8
  | [] => []
  | [first] => [head first, second first 0, pad, pad]
  | [first, next] => [head first, second first next, third next 0, pad]
  | first :: next :: last :: rest =>
    head first :: second first next :: third next last :: tail last :: encode rest

/-- The byte of six bits and the first two of six more. -/
def firstByte (one two : BitVec 6) : UInt8 := ⟨one ++ two.extractLsb' 4 2⟩

/-- The byte of the last four of six bits and the first four of six more. -/
def secondByte (two three : BitVec 6) : UInt8 :=
  ⟨two.extractLsb' 0 4 ++ three.extractLsb' 2 4⟩

/-- The byte of the last two of six bits and six more. -/
def thirdByte (three four : BitVec 6) : UInt8 := ⟨three.extractLsb' 0 2 ++ four⟩

/-- The bytes of a group of four characters that is the last one or not. -/
def decodeGroup (final : Bool) (one two three four : UInt8) : Option (List UInt8) := do
  let a ← sextet one
  let b ← sextet two
  if final ∧ three = pad ∧ four = pad then
    return [firstByte a b]
  let c ← sextet three
  if final ∧ four = pad then
    return [firstByte a b, secondByte b c]
  let d ← sextet four
  return [firstByte a b, secondByte b c, thirdByte c d]

def decode : List UInt8 → Option (List UInt8)
  | [] => some []
  | one :: two :: three :: four :: rest => do
    let group ← decodeGroup rest.isEmpty one two three four
    let others ← decode rest
    return group ++ others
  | _ => none

theorem sextet_character (bits : BitVec 6) : sextet (character bits) = some bits := by
  revert bits
  decide

theorem character_ne_pad (bits : BitVec 6) : character bits ≠ pad := by
  revert bits
  decide

theorem firstByte_extract (first : UInt8) (next : BitVec 4) :
    firstByte (first.toBitVec.extractLsb' 2 6) (first.toBitVec.extractLsb' 0 2 ++ next) =
      first := by
  refine UInt8.toBitVec_inj.mp (BitVec.eq_of_getLsbD_eq fun index bound => ?_)
  simp only [firstByte, BitVec.getLsbD_append, BitVec.getLsbD_extractLsb']
  by_cases low : index < 2
  · simp [low]
  · simp [low, show index - 2 < 6 by omega, show 2 + (index - 2) = index by omega]

theorem secondByte_extract (front : BitVec 2) (next : UInt8) (back : BitVec 2) :
    secondByte (front ++ next.toBitVec.extractLsb' 4 4)
      (next.toBitVec.extractLsb' 0 4 ++ back) = next := by
  refine UInt8.toBitVec_inj.mp (BitVec.eq_of_getLsbD_eq fun index bound => ?_)
  simp only [secondByte, BitVec.getLsbD_append, BitVec.getLsbD_extractLsb']
  by_cases low : index < 4
  · simp [low, show ¬ 2 + index < 2 by omega]
  · simp [low, show index - 4 < 4 by omega, show 4 + (index - 4) = index by omega]

theorem thirdByte_extract (front : BitVec 4) (last : UInt8) :
    thirdByte (front ++ last.toBitVec.extractLsb' 6 2) (last.toBitVec.extractLsb' 0 6) =
      last := by
  refine UInt8.toBitVec_inj.mp (BitVec.eq_of_getLsbD_eq fun index bound => ?_)
  simp only [thirdByte, BitVec.getLsbD_append, BitVec.getLsbD_extractLsb']
  by_cases low : index < 6
  · simp [low]
  · simp [low, show index - 6 < 2 by omega, show 6 + (index - 6) = index by omega]

theorem decodeGroup_one (first : UInt8) :
    decodeGroup true (head first) (second first 0) pad pad = some [first] := by
  simp [decodeGroup, head, second, sextet_character, firstByte_extract]

theorem decodeGroup_two (first next : UInt8) :
    decodeGroup true (head first) (second first next) (third next 0) pad =
      some [first, next] := by
  simp [decodeGroup, head, second, third, sextet_character, character_ne_pad, firstByte_extract,
    secondByte_extract]

theorem decodeGroup_three (final : Bool) (first next last : UInt8) :
    decodeGroup final (head first) (second first next) (third next last) (tail last) =
      some [first, next, last] := by
  simp [decodeGroup, head, second, third, tail, sextet_character, character_ne_pad,
    firstByte_extract, secondByte_extract, thirdByte_extract]

/-- Decoding undoes encoding. -/
theorem decode_encode (bytes : List UInt8) : decode (encode bytes) = some bytes := by
  induction bytes using encode.induct with
  | case1 => rfl
  | case2 first =>
    rw [encode, decode, List.isEmpty_nil, decodeGroup_one]
    rfl
  | case3 first next =>
    rw [encode, decode, List.isEmpty_nil, decodeGroup_two]
    rfl
  | case4 first next last rest inductionHypothesis =>
    rw [encode, decode, decodeGroup_three, inductionHypothesis]
    rfl

end Base64
