/-
This file follows a store of cells through a run of programming.

A cell that is programmed puts the new value on top of the old one, in whatever
way the store does that: a plain memory takes the new value, a flash chip only
clears bits. A programming that fails may leave anything in its own range. So a
cell holds what was programmed into it, one value on top of the other, as long
as no failed programming had it in its range.
-/

import McubootPort.Library.FlashMemory

namespace ProgrammedStore

open FlashMemory

variable {width : Nat} {Cell : Type}

/-- What happens to a store. -/
inductive Event (width : Nat) (Cell : Type)
  | programmed (start : BitVec width) (cells : List Cell)
  | spoiled (start : BitVec width) (count : Nat)

namespace Event

/-- The value that is put on top of the one at an address. -/
def cellAt (address : BitVec width) : Event width Cell → Option Cell
  | programmed start cells => cells[(address - start).toNat]?
  | spoiled _ _ => none

@[simp] theorem cellAt_programmed (address start : BitVec width) (cells : List Cell) :
    (programmed start cells).cellAt address = cells[(address - start).toNat]? := rfl

/-- Anything may be at an address afterwards. -/
def Spoils (address : BitVec width) : Event width Cell → Prop
  | programmed _ _ => False
  | spoiled start count => (address - start).toNat < count

/-- An event that has nothing to do with an address. -/
def Misses (event : Event width Cell) (address : BitVec width) : Prop :=
  event.cellAt address = none ∧ ¬ event.Spoils address

end Event

variable (combine : Cell → Cell → Cell)

/-- A store after an event. -/
def Follows (event : Event width Cell) (before after : BitVec width → Cell) : Prop :=
  ∀ address, ¬ event.Spoils address →
    after address = ((event.cellAt address).map (combine (before address))).getD (before address)

/-- A programming that fails may leave everything as it was. -/
theorem follows_spoiled (start : BitVec width) (count : Nat) (store : BitVec width → Cell) :
    Follows combine (.spoiled start count) store store := fun _ _ => rfl

/-- A store after some events. -/
inductive Run : (BitVec width → Cell) → List (Event width Cell) → (BitVec width → Cell) → Prop
  | nil (store : BitVec width → Cell) : Run store [] store
  | cons {before middle after : BitVec width → Cell} {event : Event width Cell}
    {events : List (Event width Cell)} (follows : Follows combine event before middle)
    (rest : Run middle events after) : Run before (event :: events) after

section Run

variable {combine : Cell → Cell → Cell} {before middle after : BitVec width → Cell}
  {events others : List (Event width Cell)}

theorem Run.append (first : Run combine before events middle)
    (second : Run combine middle others after) : Run combine before (events ++ others) after := by
  induction first with
  | nil store => exact second
  | cons follows rest inductionHypothesis => exact .cons follows (inductionHypothesis second)

/-- A cell that no failed programming had in its range holds what was programmed into it, in the
order of the events. -/
theorem Run.cell (run : Run combine before events after) (address : BitVec width)
    (whole : ∀ event ∈ events, ¬ event.Spoils address) :
    after address = (events.filterMap (Event.cellAt address)).foldl combine (before address) := by
  induction run with
  | nil store => rfl
  | @cons before middle after event events follows rest inductionHypothesis =>
    have here := follows address (whole event List.mem_cons_self)
    have later := inductionHypothesis fun other member =>
      whole other (List.mem_cons_of_mem _ member)
    rw [later, here]
    cases put : event.cellAt address with
    | none => rw [List.filterMap_cons_none put, Option.map_none, Option.getD_none]
    | some cell =>
      rw [List.filterMap_cons_some put, List.foldl_cons, Option.map_some, Option.getD_some]

/-- Events that miss a cell leave it as it is. -/
theorem Run.cell_of_misses (run : Run combine before events after) (address : BitVec width)
    (miss : ∀ event ∈ events, event.Misses address) : after address = before address := by
  have none : events.filterMap (Event.cellAt address) = [] :=
    List.filterMap_eq_nil_iff.mpr fun event member => (miss event member).1
  rw [run.cell address fun event member => (miss event member).2, none, List.foldl_nil]

/-- Cells that are programmed once, and that take the new value, are read back. -/
theorem Run.slice_of_once {start : BitVec width} {cells : List Cell}
    {programmed : BitVec width → Cell} (first : Run combine before events middle)
    (program : Follows combine (.programmed start cells) middle programmed)
    (second : Run combine programmed others after) (fits : cells.length ≤ 2 ^ width)
    (takes : ∀ index, index < cells.length → ∀ cell,
      combine (before (start + BitVec.ofNat width index)) cell = cell)
    (missFirst : ∀ event ∈ events, ∀ index, index < cells.length →
      event.Misses (start + BitVec.ofNat width index))
    (missSecond : ∀ event ∈ others, ∀ index, index < cells.length →
      event.Misses (start + BitVec.ofNat width index)) :
    slice after start cells.length = cells := by
  refine List.ext_getElem (length_slice _ _ _) fun index _ inside => ?_
  simp only [slice, List.getElem_map, List.getElem_range]
  have put : (Event.programmed start cells).cellAt (start + BitVec.ofNat width index) =
      some cells[index] := by
    rw [Event.cellAt_programmed, offset_toNat start index (Nat.lt_of_lt_of_le inside fits),
      List.getElem?_eq_getElem inside]
  rw [second.cell_of_misses _ fun event member => missSecond event member index inside,
    program _ id, put, Option.map_some, Option.getD_some,
    first.cell_of_misses _ fun event member => missFirst event member index inside,
    takes index inside]

end Run

end ProgrammedStore
