/-
This file places the output sections of a linker script.

A section has a run address in one memory region and may have a load address in
another. Each region has a cursor of its own; a section is put at the cursor,
rounded up, and moves it to its end. The run address is rounded up to the larger
of the section's own alignment and the one the script asks for, the load address
to the latter only. So two sections that follow each other without a gap in the
one region may have a gap in the other. A section without contents to load has a
load address, but leaves the cursor there where it is.
-/

import McubootPort.Library.Alignment
import Mathlib.Data.Nat.Log

namespace SectionLayout

open Alignment

/-- An output section: where it runs, where it is loaded from if that is another region, whether it
has contents to load, the exponents of its alignment in the script and of its natural one, and its
size. -/
structure OutputSection (Region : Type*) where
  region : Region
  loadRegion : Option Region
  loaded : Bool
  clausePower : Nat
  naturalPower : Nat
  size : Nat

/-- The exponent that a linker takes for an alignment clause: the first power of two that is not
smaller. -/
def clauseExponent (clause : Nat) : Nat := Nat.clog 2 clause

section Script

variable {Name Region : Type*} (sections : Name → OutputSection Region)

/-! ### One section -/

/-- The run address of a section at a cursor. -/
def runStart (name : Name) (cursor : Nat) : Nat :=
  alignUp (2 ^ max (sections name).clausePower (sections name).naturalPower) cursor

/-- The load address of a section at a cursor. -/
def loadStart (name : Name) (cursor : Nat) : Nat :=
  alignUp (2 ^ (sections name).clausePower) cursor

theorem le_runStart (name : Name) (cursor : Nat) : cursor ≤ runStart sections name cursor :=
  le_alignUp _ _ (Nat.two_pow_pos _)

theorem le_loadStart (name : Name) (cursor : Nat) : cursor ≤ loadStart sections name cursor :=
  le_alignUp _ _ (Nat.two_pow_pos _)

/-- Without an alignment in the script the load address is the cursor. -/
theorem loadStart_of_clausePower (name : Name) (cursor : Nat)
    (none : (sections name).clausePower = 0) : loadStart sections name cursor = cursor := by
  rw [loadStart, none, Nat.pow_zero]
  exact alignUp_of_dvd 1 cursor Nat.one_pos (Nat.one_dvd cursor)

/-! ### Cursors -/

variable [DecidableEq Region] (origin : Region → Nat)

/-- What a section does to the cursor of a region. -/
def advance (region : Region) (cursor : Nat) (name : Name) : Nat :=
  if (sections name).region = region then runStart sections name cursor + (sections name).size
  else if (sections name).loaded = true ∧ (sections name).loadRegion = some region then
    loadStart sections name cursor + (sections name).size
  else cursor

/-- The cursor of a region after some sections. -/
def cursorAfter (region : Region) (names : List Name) : Nat :=
  names.foldl (advance sections region) (origin region)

theorem advance_of_runs (region : Region) (cursor : Nat) (name : Name)
    (runs : (sections name).region = region) :
    advance sections region cursor name =
      runStart sections name cursor + (sections name).size :=
  if_pos runs

theorem advance_of_loads (region : Region) (cursor : Nat) (name : Name)
    (runsElsewhere : (sections name).region ≠ region) (loaded : (sections name).loaded = true)
    (loads : (sections name).loadRegion = some region) :
    advance sections region cursor name =
      loadStart sections name cursor + (sections name).size := by
  rw [advance, if_neg runsElsewhere, if_pos ⟨loaded, loads⟩]

theorem advance_of_untouched (region : Region) (cursor : Nat) (name : Name)
    (runsElsewhere : (sections name).region ≠ region)
    (loadsElsewhere : (sections name).loadRegion ≠ some region) :
    advance sections region cursor name = cursor := by
  rw [advance, if_neg runsElsewhere, if_neg fun loads => loadsElsewhere loads.2]

/-- Cursors only move up. -/
theorem le_advance (region : Region) (cursor : Nat) (name : Name) :
    cursor ≤ advance sections region cursor name := by
  have run := le_runStart sections name cursor
  have load := le_loadStart sections name cursor
  rw [advance]
  split_ifs <;> omega

theorem le_foldl_advance (region : Region) (names : List Name) (cursor : Nat) :
    cursor ≤ names.foldl (advance sections region) cursor := by
  induction names generalizing cursor with
  | nil => exact Nat.le_refl cursor
  | cons name rest inductionHypothesis =>
    exact (le_advance sections region cursor name).trans
      (inductionHypothesis (advance sections region cursor name))

/-- A cursor goes no further than the sections that are loaded there, with their alignments. -/
theorem foldl_advance_le (region : Region) (room : Name → Nat) (names : List Name) (cursor : Nat)
    (runElsewhere : ∀ name ∈ names, (sections name).region ≠ region)
    (fits : ∀ name ∈ names, (sections name).loaded = true →
      (sections name).loadRegion = some region →
      2 ^ (sections name).clausePower + (sections name).size ≤ room name) :
    names.foldl (advance sections region) cursor ≤ cursor + (names.map room).sum := by
  induction names generalizing cursor with
  | nil => exact Nat.le_add_right cursor _
  | cons name rest inductionHypothesis =>
    have later := inductionHypothesis (advance sections region cursor name)
      (fun other member => runElsewhere other (List.mem_cons_of_mem _ member))
      fun other member => fits other (List.mem_cons_of_mem _ member)
    have here : advance sections region cursor name ≤ cursor + room name := by
      have padding := alignUp_le (2 ^ (sections name).clausePower) cursor
      have positive := Nat.two_pow_pos (sections name).clausePower
      rw [advance, if_neg (runElsewhere name List.mem_cons_self), loadStart]
      split
      · rename_i loads
        have bound := fits name List.mem_cons_self loads.1 loads.2
        omega
      · exact Nat.le_add_right cursor _
    rw [List.foldl_cons, List.map_cons, List.sum_cons]
    omega

theorem foldl_advance_of_untouched (region : Region) (names : List Name) (cursor : Nat)
    (untouched : ∀ name ∈ names, (sections name).region ≠ region ∧
      (sections name).loadRegion ≠ some region) :
    names.foldl (advance sections region) cursor = cursor := by
  induction names with
  | nil => rfl
  | cons name rest inductionHypothesis =>
    obtain ⟨runsElsewhere, loadsElsewhere⟩ := untouched name List.mem_cons_self
    rw [List.foldl_cons, advance_of_untouched sections region cursor name runsElsewhere
      loadsElsewhere]
    exact inductionHypothesis fun other member => untouched other (List.mem_cons_of_mem _ member)

theorem cursorAfter_append_singleton (region : Region) (names : List Name) (name : Name) :
    cursorAfter sections origin region (names ++ [name]) =
      advance sections region (cursorAfter sections origin region names) name := by
  rw [cursorAfter, List.foldl_append]
  rfl

theorem cursorAfter_le_of_prefix (region : Region) (front names : List Name)
    (leads : front <+: names) :
    cursorAfter sections origin region front ≤ cursorAfter sections origin region names := by
  obtain ⟨rest, rfl⟩ := leads
  rw [cursorAfter, cursorAfter, List.foldl_append]
  exact le_foldl_advance sections region rest _

/-! ### Addresses -/

variable [DecidableEq Name] (script : List Name)

/-- The sections of a script that stand before one of them. -/
def before (script : List Name) (name : Name) : List Name :=
  script.takeWhile fun other => other ≠ name

/-- The run address of a section of the script. -/
def addr (name : Name) : Nat :=
  runStart sections name
    (cursorAfter sections origin (sections name).region (before script name))

/-- The load address of a section of the script. -/
def loadAddr (name : Name) : Nat :=
  match (sections name).loadRegion with
  | some region =>
    loadStart sections name (cursorAfter sections origin region (before script name))
  | none => addr sections origin script name

theorem loadAddr_of_loads (name : Name) (region : Region)
    (loads : (sections name).loadRegion = some region) :
    loadAddr sections origin script name =
      loadStart sections name (cursorAfter sections origin region (before script name)) := by
  rw [loadAddr, loads]

omit [DecidableEq Region] in
/-- What stands before an earlier section, and that section, stand before a later one. -/
theorem prefix_before (first second : Name) (earlier : first ∈ before script second) :
    before script first ++ [first] <+: before script second := by
  induction script with
  | nil => cases earlier
  | cons name rest inductionHypothesis =>
    by_cases last : name = second
    · rw [before, List.takeWhile_cons_of_neg (by simpa using last)] at earlier
      cases earlier
    · have step : before (name :: rest) second = name :: before rest second :=
        List.takeWhile_cons_of_pos (by simpa using last)
      rw [step] at earlier ⊢
      by_cases here : name = first
      · have none : before (name :: rest) first = [] :=
          List.takeWhile_cons_of_neg (by simpa using here)
        rw [none, here]
        exact ⟨_, rfl⟩
      · have some : before (name :: rest) first = name :: before rest first :=
          List.takeWhile_cons_of_pos (by simpa using here)
        rw [some, List.cons_append]
        refine List.cons_prefix_cons.mpr ⟨rfl, inductionHypothesis ?_⟩
        rcases List.mem_cons.mp earlier with same | later
        · exact absurd same.symm here
        · exact later

/-- Sections that run in one region do not overlap there: the later one starts behind. -/
theorem addr_add_size_le (first second : Name) (earlier : first ∈ before script second)
    (same : (sections first).region = (sections second).region) :
    addr sections origin script first + (sections first).size ≤
      addr sections origin script second := by
  have moved := cursorAfter_le_of_prefix sections origin (sections first).region _ _
    (prefix_before script first second earlier)
  rw [cursorAfter_append_singleton, advance_of_runs _ _ _ _ rfl] at moved
  refine moved.trans ?_
  rw [same]
  exact le_runStart sections second _

/-- The same for load addresses, behind a section that has contents to load. -/
theorem loadAddr_add_size_le (first second : Name) (region : Region)
    (earlier : first ∈ before script second) (runsElsewhere : (sections first).region ≠ region)
    (loaded : (sections first).loaded = true)
    (firstLoads : (sections first).loadRegion = some region)
    (secondLoads : (sections second).loadRegion = some region) :
    loadAddr sections origin script first + (sections first).size ≤
      loadAddr sections origin script second := by
  have moved := cursorAfter_le_of_prefix sections origin region _ _
    (prefix_before script first second earlier)
  rw [cursorAfter_append_singleton, advance_of_loads _ _ _ _ runsElsewhere loaded firstLoads]
    at moved
  rw [loadAddr_of_loads _ _ _ _ region firstLoads, loadAddr_of_loads _ _ _ _ region secondLoads]
  exact moved.trans (le_loadStart sections second _)

/-- The first section of a region starts at its origin, rounded up. -/
theorem addr_of_first (name : Name)
    (untouched : ∀ other ∈ before script name,
      (sections other).region ≠ (sections name).region ∧
        (sections other).loadRegion ≠ some (sections name).region) :
    addr sections origin script name =
      runStart sections name (origin (sections name).region) := by
  rw [addr, cursorAfter, foldl_advance_of_untouched sections _ _ _ untouched]

/-- A section that follows another one in the script and in the region starts at its end, rounded
up. -/
theorem addr_of_next (first second : Name)
    (next : before script second = before script first ++ [first])
    (same : (sections first).region = (sections second).region) :
    addr sections origin script second =
      runStart sections second (addr sections origin script first + (sections first).size) := by
  rw [addr, next, cursorAfter_append_singleton, ← same, advance_of_runs _ _ _ _ rfl]
  rfl

/-- The same for load addresses. -/
theorem loadAddr_of_next (first second : Name) (region : Region)
    (next : before script second = before script first ++ [first])
    (runsElsewhere : (sections first).region ≠ region) (loaded : (sections first).loaded = true)
    (firstLoads : (sections first).loadRegion = some region)
    (secondLoads : (sections second).loadRegion = some region) :
    loadAddr sections origin script second =
      loadStart sections second
        (loadAddr sections origin script first + (sections first).size) := by
  rw [loadAddr_of_loads _ _ _ _ region firstLoads, loadAddr_of_loads _ _ _ _ region secondLoads,
    next, cursorAfter_append_singleton, advance_of_loads _ _ _ _ runsElsewhere loaded firstLoads]

end Script

end SectionLayout
