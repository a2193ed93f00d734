/-
This file is a memory with a fixed width of address, such as a flash chip: ranges
of it are read and programmed, and an address that runs over the end of the
address space goes on at its start.
-/

import Mathlib.Algebra.Ring.Nat
import Mathlib.Data.List.Basic

namespace FlashMemory

variable {width : Nat} {Cell : Type*}

/-- The cells from an address on. -/
def slice (flash : BitVec width → Cell) (start : BitVec width) (count : Nat) : List Cell :=
  (List.range count).map fun index => flash (start + BitVec.ofNat width index)

/-- Put some cells at an address and behind it. -/
def program (flash : BitVec width → Cell) (start : BitVec width) (cells : List Cell) :
    BitVec width → Cell :=
  fun address => cells[(address - start).toNat]?.getD (flash address)

@[simp] theorem length_slice (flash : BitVec width → Cell) (start : BitVec width) (count : Nat) :
    (slice flash start count).length = count := by
  rw [slice, List.length_map, List.length_range]

/-- A shorter read is the first part of a longer one. -/
theorem take_slice (flash : BitVec width → Cell) (start : BitVec width) (short long : Nat)
    (le : short ≤ long) : (slice flash start long).take short = slice flash start short := by
  rw [slice, ← List.map_take, List.take_range, Nat.min_eq_left le, slice]

/-- A read that starts later is the later part of a longer one. -/
theorem take_drop_slice (flash : BitVec width → Cell) (start : BitVec width)
    (shift count total : Nat) (inside : shift + count ≤ total) :
    ((slice flash start total).drop shift).take count =
      slice flash (start + BitVec.ofNat width shift) count := by
  refine List.ext_getElem ?_ fun index _ _ => ?_
  · rw [List.length_take, List.length_drop, length_slice, length_slice]
    omega
  · simp only [slice, List.getElem_take, List.getElem_drop, List.getElem_map, List.getElem_range,
      BitVec.add_assoc, ← BitVec.ofNat_add]

theorem offset_toNat (start : BitVec width) (index : Nat) (inside : index < 2 ^ width) :
    (start + BitVec.ofNat width index - start).toNat = index := by
  rw [BitVec.add_comm, BitVec.add_sub_cancel, BitVec.toNat_ofNat, Nat.mod_eq_of_lt inside]

/-- What was programmed is what is read. -/
theorem slice_program (flash : BitVec width → Cell) (start : BitVec width) (cells : List Cell)
    (fits : cells.length ≤ 2 ^ width) :
    slice (program flash start cells) start cells.length = cells := by
  refine List.ext_getElem (length_slice _ _ _) fun index _ inside => ?_
  simp only [slice, List.getElem_map, List.getElem_range, program]
  rw [offset_toNat start index (Nat.lt_of_lt_of_le inside fits),
    List.getElem?_eq_getElem inside, Option.getD_some]

/-- Programming keeps the cells behind its range. -/
theorem program_of_outside (flash : BitVec width → Cell) (start address : BitVec width)
    (cells : List Cell) (outside : cells.length ≤ (address - start).toNat) :
    program flash start cells address = flash address := by
  rw [program, List.getElem?_eq_none outside, Option.getD_none]

end FlashMemory
