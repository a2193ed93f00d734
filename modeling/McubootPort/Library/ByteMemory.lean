/-
This file is a byte-addressed memory that remembers where it was stored to.

The contents are a total function of the address. The log of stored addresses
is what a footprint statement is about: a store of the value that was already
there changes no byte and still lies outside the buffer it was meant for.
-/

import Mathlib.Logic.Function.Basic
import Mathlib.Data.List.Basic

namespace ByteMemory

/-- A memory and the addresses stored to so far, the latest first. -/
structure Memory where
  byte : Nat → UInt8
  stored : List Nat

namespace Memory

/-- A memory with the given contents and nothing stored to it yet. -/
def fresh (byte : Nat → UInt8) : Memory := { byte, stored := [] }

/-- Store one byte. -/
def store (memory : Memory) (address : Nat) (value : UInt8) : Memory where
  byte := Function.update memory.byte address value
  stored := address :: memory.stored

/-- Store some bytes at consecutive addresses. -/
def storeBytes : Memory → Nat → List UInt8 → Memory
  | memory, _, [] => memory
  | memory, address, value :: rest => (memory.store address value).storeBytes (address + 1) rest

/-- The bytes at `count` consecutive addresses. -/
def loadBytes (memory : Memory) (address count : Nat) : List UInt8 :=
  (List.range count).map fun offset => memory.byte (address + offset)

/-- Every address stored to lies in the `size` bytes from `start`. -/
def StoresWithin (memory : Memory) (start size : Nat) : Prop :=
  ∀ address ∈ memory.stored, start ≤ address ∧ address < start + size

@[simp] theorem store_byte_self (memory : Memory) (address : Nat) (value : UInt8) :
    (memory.store address value).byte address = value :=
  Function.update_self ..

theorem store_byte_of_ne (memory : Memory) (address other : Nat) (value : UInt8)
    (different : other ≠ address) : (memory.store address value).byte other = memory.byte other :=
  Function.update_of_ne different ..

@[simp] theorem storeBytes_nil (memory : Memory) (address : Nat) :
    memory.storeBytes address [] = memory := rfl

theorem storeBytes_cons (memory : Memory) (address : Nat) (value : UInt8) (rest : List UInt8) :
    memory.storeBytes address (value :: rest) =
      (memory.store address value).storeBytes (address + 1) rest := rfl

/-- Storing two runs of bytes one behind the other is storing them at once. -/
theorem storeBytes_append (memory : Memory) (address : Nat) (first second : List UInt8) :
    memory.storeBytes address (first ++ second) =
      (memory.storeBytes address first).storeBytes (address + first.length) second := by
  induction first generalizing memory address with
  | nil => rfl
  | cons value rest inductionHypothesis =>
    rw [List.cons_append, storeBytes_cons, inductionHypothesis, storeBytes_cons, List.length_cons,
      Nat.add_right_comm, Nat.add_assoc]

/-- The bytes outside the stored range are unchanged. -/
theorem storeBytes_byte_of_outside (memory : Memory) (address other : Nat) (bytes : List UInt8)
    (outside : other < address ∨ address + bytes.length ≤ other) :
    (memory.storeBytes address bytes).byte other = memory.byte other := by
  induction bytes generalizing memory address with
  | nil => rfl
  | cons value rest inductionHypothesis =>
    rw [List.length_cons] at outside
    rw [storeBytes_cons, inductionHypothesis _ _ (by omega)]
    exact store_byte_of_ne memory address other value (by omega)

theorem storeBytes_byte (memory : Memory) (address offset : Nat) (bytes : List UInt8)
    (inside : offset < bytes.length) :
    (memory.storeBytes address bytes).byte (address + offset) = bytes[offset] := by
  induction bytes generalizing memory address offset with
  | nil => cases inside
  | cons value rest inductionHypothesis =>
    rw [storeBytes_cons]
    cases offset with
    | zero =>
      rw [storeBytes_byte_of_outside _ _ _ _ (Or.inl (by omega)), Nat.add_zero, store_byte_self]
      rfl
    | succ offset =>
      rw [List.length_cons] at inside
      rw [show address + (offset + 1) = address + 1 + offset by omega,
        inductionHypothesis _ _ offset (by omega)]
      rfl

/-- What was stored is what is loaded back. -/
theorem loadBytes_storeBytes (memory : Memory) (address : Nat) (bytes : List UInt8) :
    (memory.storeBytes address bytes).loadBytes address bytes.length = bytes := by
  refine List.ext_getElem (by simp [loadBytes]) fun offset _ inside => ?_
  simp only [loadBytes, List.getElem_map, List.getElem_range]
  exact storeBytes_byte memory address offset bytes inside

/-- A shorter load sees the first of the stored bytes. -/
theorem loadBytes_storeBytes_take (memory : Memory) (address count : Nat) (bytes : List UInt8)
    (short : count ≤ bytes.length) :
    (memory.storeBytes address bytes).loadBytes address count = bytes.take count := by
  refine List.ext_getElem (by simp [loadBytes, short]) fun offset inside _ => ?_
  rw [loadBytes, List.length_map, List.length_range] at inside
  simp only [loadBytes, List.getElem_map, List.getElem_range, List.getElem_take]
  exact storeBytes_byte memory address offset bytes (Nat.lt_of_lt_of_le inside short)

/-- A load that misses the stored range sees the old bytes. -/
theorem loadBytes_storeBytes_of_disjoint (memory : Memory) (address other count : Nat)
    (bytes : List UInt8) (apart : other + count ≤ address ∨ address + bytes.length ≤ other) :
    (memory.storeBytes address bytes).loadBytes other count = memory.loadBytes other count := by
  refine List.map_congr_left fun offset member => ?_
  rw [List.mem_range] at member
  exact storeBytes_byte_of_outside memory address _ bytes (by omega)

theorem loadBytes_add (memory : Memory) (address first second : Nat) :
    memory.loadBytes address (first + second) =
      memory.loadBytes address first ++ memory.loadBytes (address + first) second := by
  simp only [loadBytes, List.range_add, List.map_append, List.map_map, Function.comp_def,
    Nat.add_assoc]

@[simp] theorem loadBytes_length (memory : Memory) (address count : Nat) :
    (memory.loadBytes address count).length = count := by
  rw [loadBytes, List.length_map, List.length_range]

/-- The addresses stored to grow by the stored range. -/
theorem mem_stored_storeBytes (memory : Memory) (address other : Nat) (bytes : List UInt8) :
    other ∈ (memory.storeBytes address bytes).stored ↔
      other ∈ memory.stored ∨ (address ≤ other ∧ other < address + bytes.length) := by
  induction bytes generalizing memory address with
  | nil =>
    simp only [storeBytes_nil, List.length_nil, Nat.add_zero, iff_self_or]
    omega
  | cons value rest inductionHypothesis =>
    rw [storeBytes_cons, inductionHypothesis, store, List.mem_cons, List.length_cons]
    constructor
    · rintro ((here | before) | behind)
      · exact Or.inr (by omega)
      · exact Or.inl before
      · exact Or.inr (by omega)
    · rintro (before | inside)
      · exact Or.inl (Or.inr before)
      · by_cases here : other = address
        · exact Or.inl (Or.inl here)
        · exact Or.inr (by omega)

/-- Bytes stored inside a range keep the stores within the range. -/
theorem storesWithin_storeBytes (memory : Memory) (start size address : Nat) (bytes : List UInt8)
    (before : memory.StoresWithin start size) (low : start ≤ address)
    (high : address + bytes.length ≤ start + size) :
    (memory.storeBytes address bytes).StoresWithin start size := by
  intro other member
  rcases (mem_stored_storeBytes memory address other bytes).mp member with old | new
  · exact before other old
  · exact ⟨by omega, by omega⟩

/-- The stores of some bytes into a fresh memory lie in a range exactly when the bytes do. -/
theorem storesWithin_storeBytes_fresh_iff (byte : Nat → UInt8) (start size : Nat)
    (bytes : List UInt8) :
    ((fresh byte).storeBytes start bytes).StoresWithin start size ↔ bytes.length ≤ size := by
  constructor
  · intro within
    by_contra long
    have last := within (start + size)
      ((mem_stored_storeBytes _ _ _ _).mpr (Or.inr ⟨by omega, by omega⟩))
    omega
  · intro short
    exact storesWithin_storeBytes _ start size start bytes (fun _ member => by cases member)
      (Nat.le_refl start) (by omega)

end Memory

end ByteMemory
