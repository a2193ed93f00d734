/-
This file compares the two flash MMU tables after `map_rom_segments`.

The entries of the mapped pages are set for both CPUs. The invalidation loop
before that goes over the table of the PRO CPU only, so everywhere else the APP
CPU still sees what the bootloader left. The tables agree, and hold nothing but
the image, exactly when the bootloader left nothing there.
-/

import McubootPort.RomSegments

namespace McubootPort

/-- As many pages as the size of a segment takes, rounded up in 32 bits, from the page of its run
address. -/
def RomSegment.TakesPage (segment : RomSegment) (page : Nat) : Prop :=
  segment.vma.toNat / mmuBlockSize ≤ page ∧
    page < segment.vma.toNat / mmuBlockSize +
      (segment.size.toNat + (mmuBlockSize - 1)) % 2 ^ 32 / mmuBlockSize

/-- An entry of a page that is mapped for one of the two segments. -/
def MappedEntry (mmu : FlashMmu) (irom drom : RomSegment) (index : Nat) : Prop :=
  ∃ page, (irom.TakesPage page ∨ drom.TakesPage page) ∧ mmu.entryOf page = some index

/-- An entry of a page that holds a byte of one of the two segments. -/
def ImageEntry (mmu : FlashMmu) (irom drom : RomSegment) (index : Nat) : Prop :=
  ∃ address, (irom.Holds address ∨ drom.Holds address) ∧
    mmu.entryOf (address / mmuBlockSize) = some index

/-- Both CPUs see the same mapping, and nothing but the image is mapped. -/
structure SameView (mmu : FlashMmu) (irom drom : RomSegment) (tables : MmuTables) : Prop where
  same : ∀ index, index < mmu.tableSize → tables.entry .pro index = tables.entry .app index
  fresh : ∀ cpu index, index < mmu.tableSize → ¬ ImageEntry mmu irom drom index →
    tables.entry cpu index = none

/-- The pages that the calls for a segment are given. -/
theorem takesPage_iff (segment : RomSegment) (page : Nat) :
    segment.TakesPage page ↔
      ∃ count, count < segment.pageCount ∧ segment.firstPage + count = page := by
  rw [RomSegment.pageCount_wraps]
  constructor
  · rintro ⟨low, high⟩
    exact ⟨page - segment.firstPage, by rw [RomSegment.firstPage]; omega,
      Nat.add_sub_cancel' low⟩
  · rintro ⟨count, inside, rfl⟩
    exact ⟨Nat.le_add_right _ _, Nat.add_lt_add_left inside _⟩

theorem mappedEntry_iff (mmu : FlashMmu) (irom drom : RomSegment) (index : Nat) :
    MappedEntry mmu irom drom index ↔
      (∃ count, count < irom.pageCount ∧ mmu.entryOf (irom.firstPage + count) = some index) ∨
        ∃ count, count < drom.pageCount ∧ mmu.entryOf (drom.firstPage + count) = some index := by
  simp only [MappedEntry, takesPage_iff]
  constructor
  · rintro ⟨page, ⟨count, inside, rfl⟩ | ⟨count, inside, rfl⟩, entry⟩
    · exact Or.inl ⟨count, inside, entry⟩
    · exact Or.inr ⟨count, inside, entry⟩
  · rintro (⟨count, inside, entry⟩ | ⟨count, inside, entry⟩)
    · exact ⟨_, Or.inl ⟨count, inside, rfl⟩, entry⟩
    · exact ⟨_, Or.inr ⟨count, inside, rfl⟩, entry⟩

theorem imageEntry_of_mapped (mmu : FlashMmu) (irom drom : RomSegment) (index : Nat)
    (mapped : MappedEntry mmu irom drom index) : ImageEntry mmu irom drom index := by
  rcases (mappedEntry_iff mmu irom drom index).mp mapped with
    ⟨count, inside, entry⟩ | ⟨count, inside, entry⟩
  · obtain ⟨address, holds, page⟩ := irom.holds_of_mapped count inside
    exact ⟨address, Or.inl holds, by rw [page]; exact entry⟩
  · obtain ⟨address, holds, page⟩ := drom.holds_of_mapped count inside
    exact ⟨address, Or.inr holds, by rw [page]; exact entry⟩

/-- The loop leaves the table of the APP CPU alone. -/
theorem invalidateProTable_entry_app (tables : MmuTables) (count index : Nat) :
    (invalidateProTable tables count).entry .app index = tables.entry .app index := by
  induction count with
  | zero => rfl
  | succ count inductionHypothesis =>
    have apart : Cpu.app ≠ Cpu.pro := by decide
    rw [invalidateProTable, ← inductionHypothesis]
    simp only [MmuTables.invalidate, Function.update_of_ne apart]

section Tables

variable {mmu : FlashMmu} (irom drom : RomSegment) (tables : MmuTables)

/-- The entries of a segment are the same for both CPUs. -/
theorem mapSegment_same (lawful : mmu.Lawful) (segment : RomSegment) (before : MmuTables)
    (success : (mapSegment mmu segment before).1 = 0) (count : Nat)
    (inside : count < segment.pageCount) (index : Nat)
    (entry : mmu.entryOf (segment.firstPage + count) = some index) :
    (mapSegment mmu segment before).2.entry .pro index =
      (mapSegment mmu segment before).2.entry .app index := by
  obtain ⟨pro, proEntry, proSet⟩ := mapSegment_sets segment before lawful success .pro count inside
  obtain ⟨app, appEntry, appSet⟩ := mapSegment_sets segment before lawful success .app count inside
  rw [entry] at proEntry appEntry
  cases proEntry
  cases appEntry
  rw [proSet, appSet]

/-- The entries of the mapped pages are the same for both CPUs. -/
theorem mapRomSegments_same (lawful : mmu.Lawful)
    (success : (mapRomSegments mmu irom drom tables).1 = 0) (index : Nat)
    (mapped : MappedEntry mmu irom drom index) :
    (mapRomSegments mmu irom drom tables).2.entry .pro index =
      (mapRomSegments mmu irom drom tables).2.entry .app index := by
  obtain ⟨dromSuccess, iromSuccess⟩ := BitVec.or_eq_zero_iff.mp success
  by_cases code : ∃ count, count < irom.pageCount ∧
      mmu.entryOf (irom.firstPage + count) = some index
  · obtain ⟨count, inside, entry⟩ := code
    exact mapSegment_same lawful irom _ iromSuccess count inside index entry
  · have kept (cpu : Cpu) := mapSegment_keeps irom _ lawful iromSuccess cpu index
      fun count inside entry => code ⟨count, inside, entry⟩
    obtain ⟨count, inside, entry⟩ :=
      ((mappedEntry_iff mmu irom drom index).mp mapped).resolve_left code
    exact (kept .pro).trans
      ((mapSegment_same lawful drom _ dromSuccess count inside index entry).trans (kept .app).symm)

/-- The other entries are those the loop left. -/
theorem mapRomSegments_other (lawful : mmu.Lawful)
    (success : (mapRomSegments mmu irom drom tables).1 = 0) (cpu : Cpu) (index : Nat)
    (other : ¬ MappedEntry mmu irom drom index) :
    (mapRomSegments mmu irom drom tables).2.entry cpu index =
      (invalidateProTable tables mmu.tableSize).entry cpu index := by
  rw [mappedEntry_iff, not_or] at other
  exact mapRomSegments_keeps tables lawful irom drom success cpu index
    (fun count inside entry => other.2 ⟨count, inside, entry⟩)
    (fun count inside entry => other.1 ⟨count, inside, entry⟩)

theorem mapRomSegments_pro (lawful : mmu.Lawful)
    (success : (mapRomSegments mmu irom drom tables).1 = 0) (index : Nat)
    (inside : index < mmu.tableSize) (other : ¬ MappedEntry mmu irom drom index) :
    (mapRomSegments mmu irom drom tables).2.entry .pro index = none := by
  rw [mapRomSegments_other irom drom tables lawful success .pro index other,
    invalidateProTable_entry, if_pos inside]

theorem mapRomSegments_app (lawful : mmu.Lawful)
    (success : (mapRomSegments mmu irom drom tables).1 = 0) (index : Nat)
    (other : ¬ MappedEntry mmu irom drom index) :
    (mapRomSegments mmu irom drom tables).2.entry .app index = tables.entry .app index := by
  rw [mapRomSegments_other irom drom tables lawful success .app index other,
    invalidateProTable_entry_app]

end Tables

/-- The two CPUs see the same mapping and nothing stale exactly when the table of the APP CPU was
invalid before in every entry that is not one of the mapped pages. -/
theorem mapRomSegments_sameView_iff (mmu : FlashMmu) (lawful : mmu.Lawful)
    (irom drom : RomSegment) (tables : MmuTables)
    (success : (mapRomSegments mmu irom drom tables).1 = 0) :
    SameView mmu irom drom (mapRomSegments mmu irom drom tables).2 ↔
      ∀ index, index < mmu.tableSize → ¬ MappedEntry mmu irom drom index →
        tables.entry .app index = none := by
  have pro := mapRomSegments_pro irom drom tables lawful success
  have app := mapRomSegments_app irom drom tables lawful success
  constructor
  · intro view index inside other
    rw [← app index other, ← view.same index inside]
    exact pro index inside other
  · intro invalid
    refine ⟨fun index inside => ?_, fun cpu index inside outside => ?_⟩
    · by_cases mapped : MappedEntry mmu irom drom index
      · exact mapRomSegments_same irom drom tables lawful success index mapped
      · rw [pro index inside mapped, app index mapped, invalid index inside mapped]
    · have other : ¬ MappedEntry mmu irom drom index :=
        fun mapped => outside (imageEntry_of_mapped mmu irom drom index mapped)
      cases cpu with
      | pro => exact pro index inside other
      | app =>
        rw [app index other]
        exact invalid index inside other

/-- The tables that a bootloader leaves when it mapped two pages for the PRO CPU and the page of the
data segment for the APP CPU. -/
def bootedTables : MmuTables where
  entry cpu index :=
    if cpu = .pro ∧ (index = 3 ∨ index = 100) then some 9
    else if cpu = .app ∧ index = 0 then some 5
    else none

/-- What was left is gone: the entries of the PRO CPU were made invalid, and that of the APP CPU is
set again for the data segment. -/
theorem mapRomSegments_sameView_booted :
    let outcome := (mapRomSegments esp32Mmu (iromExample 0x8000) dromExample bootedTables).2
    bootedTables.entry .app 0 = some 5 ∧ outcome.entry .app 0 = some 2 ∧
      SameView esp32Mmu (iromExample 0x8000) dromExample outcome := by
  have mapped : MappedEntry esp32Mmu (iromExample 0x8000) dromExample 0 :=
    ⟨0x3F40, Or.inr ⟨by decide, by decide⟩, rfl⟩
  refine ⟨rfl, by decide +kernel, (mapRomSegments_sameView_iff esp32Mmu esp32Mmu_lawful
    (iromExample 0x8000) dromExample bootedTables (by decide)).mpr fun index _ other => ?_⟩
  have later : index ≠ 0 := fun first => other (first ▸ mapped)
  exact if_neg fun data => later data.2

/-- The tables that a bootloader leaves when it mapped one page for the APP CPU. -/
def staleTables : MmuTables where
  entry cpu index := if cpu = .app ∧ index = 100 then some 7 else none

/-- A page that the bootloader mapped for the APP CPU is still mapped, for that CPU alone. -/
theorem mapRomSegments_stale :
    let outcome := mapRomSegments esp32Mmu (iromExample 0x8000) dromExample staleTables
    outcome.1 = 0 ∧ outcome.2.entry .pro 100 = none ∧ outcome.2.entry .app 100 = some 7 ∧
      ¬ SameView esp32Mmu (iromExample 0x8000) dromExample outcome.2 := by
  have pro : (mapRomSegments esp32Mmu (iromExample 0x8000) dromExample
    staleTables).2.entry .pro 100 = none := by decide +kernel
  have app : (mapRomSegments esp32Mmu (iromExample 0x8000) dromExample
    staleTables).2.entry .app 100 = some 7 := by decide +kernel
  refine ⟨by decide, pro, app, fun view => ?_⟩
  have same := view.same 100 (by decide)
  rw [pro, app] at same
  cases same

end McubootPort
