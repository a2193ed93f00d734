/-
This file models `map_rom_segments`, which maps the two flash segments of the
application before it is started.

The load and run addresses are rounded down to pages and the number of pages is
left to `count_mmu_pages`, which adds what the run address has over its page. It
is given the rounded address, so that nothing is added: the pages counted are
those of the size alone. A segment is mapped as a whole exactly when its offset
in the page does not push its end into one page more.
-/

import McubootPort.Library.Alignment
import Mathlib.Logic.Function.Basic

namespace McubootPort

open Alignment

/-! ### The flash mapping -/

inductive Cpu
  | pro
  | app
deriving DecidableEq

/-- The flash page in each entry of the tables of the two CPUs, if the entry is valid. -/
structure MmuTables where
  entry : Cpu → Nat → Option Nat

/-- `MMU_BLOCK_SIZE`. -/
def mmuBlockSize : Nat := 0x00010000

/-- `MMU_FLASH_MASK`. -/
def mmuFlashMask : BitVec 32 := ~~~(BitVec.ofNat 32 (mmuBlockSize - 1))

/-- `CONFIG_ESP_APPLICATION_PRIMARY_START_ADDRESS`. -/
def primaryStartAddress : BitVec 32 := 0x00020000

/-- The parts of the chip that the code drives: the number of entries of a table
(`DPORT_FLASH_MMU_TABLE_SIZE`), the entry of a virtual page, and the ROM routine
`cache_flash_mmu_set` with its arguments `cpu_no`, `pid`, `vaddr`, `paddr`, `psize` and `num`. -/
structure FlashMmu where
  tableSize : Nat
  entryOf : Nat → Option Nat
  cacheFlashMmuSet : Cpu → BitVec 32 → BitVec 32 → BitVec 32 → BitVec 32 → BitVec 32 →
    MmuTables → BitVec 32 × MmuTables

/-- A segment of the image: `_image_drom_vma` and its like. -/
structure RomSegment where
  vma : BitVec 32
  lma : BitVec 32
  size : BitVec 32
deriving DecidableEq

def MmuTables.invalidate (tables : MmuTables) (cpu : Cpu) (index : Nat) : MmuTables where
  entry := Function.update tables.entry cpu (Function.update (tables.entry cpu) index none)

/-- The loop over `DPORT_PRO_FLASH_MMU_TABLE`. -/
def invalidateProTable (tables : MmuTables) : Nat → MmuTables
  | 0 => tables
  | index + 1 => (invalidateProTable tables index).invalidate .pro index

/-- `count_mmu_pages`. -/
def countMmuPages (size vaddr : BitVec 32) : BitVec 32 :=
  (size + (vaddr - (vaddr &&& mmuFlashMask)) + BitVec.ofNat 32 mmuBlockSize - 1) /
    BitVec.ofNat 32 mmuBlockSize

/-- `abs_lma` of a segment. -/
def RomSegment.absLma (segment : RomSegment) : BitVec 32 := primaryStartAddress + segment.lma

/-- The two calls that map a segment, one for each CPU, and what is or-ed into `rc`. -/
def mapSegment (mmu : FlashMmu) (segment : RomSegment) (tables : MmuTables) :
    BitVec 32 × MmuTables :=
  let alignedLma := segment.absLma &&& mmuFlashMask
  let alignedVma := segment.vma &&& mmuFlashMask
  let pageCount := countMmuPages segment.size alignedVma
  let pro := mmu.cacheFlashMmuSet .pro 0 alignedVma alignedLma 64 pageCount tables
  let app := mmu.cacheFlashMmuSet .app 0 alignedVma alignedLma 64 pageCount pro.2
  (pro.1 ||| app.1, app.2)

/-- `map_rom_segments`. -/
def mapRomSegments (mmu : FlashMmu) (irom drom : RomSegment) (tables : MmuTables) :
    BitVec 32 × MmuTables :=
  let tables := invalidateProTable tables mmu.tableSize
  let droms := mapSegment mmu drom tables
  let iroms := mapSegment mmu irom droms.2
  (droms.1 ||| iroms.1, iroms.2)

/-! ### What the chip does -/

/-- The flash address that a CPU sees at a virtual address. -/
def FlashMmu.translate (mmu : FlashMmu) (tables : MmuTables) (cpu : Cpu) (address : Nat) :
    Option Nat :=
  ((mmu.entryOf (address / mmuBlockSize)).bind (tables.entry cpu)).map fun page =>
    page * mmuBlockSize + address % mmuBlockSize

/-- What the chip guarantees: every virtual page has an entry of its own in the table, and a call
of the routine that succeeds on whole pages of 64 KB sets the entries of the pages it was given, of
that CPU, and no other. -/
structure FlashMmu.Lawful (mmu : FlashMmu) : Prop where
  bounded : ∀ page index, mmu.entryOf page = some index → index < mmu.tableSize
  injective : ∀ page other index, mmu.entryOf page = some index → mmu.entryOf other = some index →
    page = other
  sets : ∀ cpu vaddr paddr num tables, mmuBlockSize ∣ vaddr.toNat → mmuBlockSize ∣ paddr.toNat →
    (mmu.cacheFlashMmuSet cpu 0 vaddr paddr 64 num tables).1 = 0 → ∀ count, count < num.toNat →
    ∃ index, mmu.entryOf (vaddr.toNat / mmuBlockSize + count) = some index ∧
      (mmu.cacheFlashMmuSet cpu 0 vaddr paddr 64 num tables).2.entry cpu index =
        some (paddr.toNat / mmuBlockSize + count)
  keeps : ∀ cpu vaddr paddr num tables, mmuBlockSize ∣ vaddr.toNat → mmuBlockSize ∣ paddr.toNat →
    (mmu.cacheFlashMmuSet cpu 0 vaddr paddr 64 num tables).1 = 0 → ∀ other index,
    (other = cpu → ∀ count, count < num.toNat →
      mmu.entryOf (vaddr.toNat / mmuBlockSize + count) ≠ some index) →
    (mmu.cacheFlashMmuSet cpu 0 vaddr paddr 64 num tables).2.entry other index =
      tables.entry other index

/-- A segment as the linker lays it out: its load address is congruent to its run address modulo
the page size, and neither range wraps. -/
structure RomSegment.WellPlaced (segment : RomSegment) : Prop where
  congruent : segment.absLma.toNat % mmuBlockSize = segment.vma.toNat % mmuBlockSize
  vmaBound : segment.vma.toNat + segment.size.toNat ≤ 2 ^ 32
  lmaBound : primaryStartAddress.toNat + segment.lma.toNat + segment.size.toNat ≤ 2 ^ 32

/-- An address of a segment. -/
def RomSegment.Holds (segment : RomSegment) (address : Nat) : Prop :=
  segment.vma.toNat ≤ address ∧ address < segment.vma.toNat + segment.size.toNat

/-- No page holds bytes of both segments. -/
def RomSegment.Apart (first second : RomSegment) : Prop :=
  ∀ address other, first.Holds address → second.Holds other →
    address / mmuBlockSize ≠ other / mmuBlockSize

/-- Every byte of a segment is seen by both CPUs where the image holds it. -/
def RomSegment.Mapped (segment : RomSegment) (mmu : FlashMmu) (tables : MmuTables) : Prop :=
  ∀ cpu address, segment.Holds address → mmu.translate tables cpu address =
    some (primaryStartAddress.toNat + segment.lma.toNat + (address - segment.vma.toNat))

/-- The offset of a segment in its first page does not push its end into one page more. -/
def RomSegment.PageFits (segment : RomSegment) : Prop :=
  segment.size = 0 ∨
    segment.vma.toNat % mmuBlockSize + (segment.size.toNat - 1) % mmuBlockSize < mmuBlockSize

/-! ### Pages -/

theorem toNat_and_mmuFlashMask (address : BitVec 32) :
    (address &&& mmuFlashMask).toNat = alignDown mmuBlockSize address.toNat :=
  toNat_and_not_mask address 16

/-- The rounded address has nothing over its page: what is counted is the size, rounded up in 32
bits. -/
theorem countMmuPages_aligned (size vaddr : BitVec 32) :
    (countMmuPages size (vaddr &&& mmuFlashMask)).toNat =
      (size.toNat + (mmuBlockSize - 1)) % 2 ^ 32 / mmuBlockSize := by
  rw [countMmuPages, BitVec.and_assoc, BitVec.and_self, BitVec.sub_self, BitVec.add_zero,
    BitVec.toNat_udiv]
  have numerator : (size + BitVec.ofNat 32 mmuBlockSize - 1).toNat =
      (size.toNat + (mmuBlockSize - 1)) % 2 ^ 32 := by
    rw [BitVec.toNat_sub, BitVec.toNat_add]
    show (2 ^ 32 - 1 + (size.toNat + 0x10000) % 2 ^ 32) % 2 ^ 32 =
      (size.toNat + (0x10000 - 1)) % 2 ^ 32
    omega
  rw [numerator]
  rfl

namespace RomSegment

/-- The first virtual page of a segment. -/
def firstPage (segment : RomSegment) : Nat := segment.vma.toNat / mmuBlockSize

/-- The number of pages that are mapped for a segment. -/
def pageCount (segment : RomSegment) : Nat :=
  (countMmuPages segment.size (segment.vma &&& mmuFlashMask)).toNat

theorem absLma_toNat (segment : RomSegment) (placed : segment.WellPlaced)
    (nonempty : 0 < segment.size.toNat) :
    segment.absLma.toNat = primaryStartAddress.toNat + segment.lma.toNat := by
  have bound := placed.lmaBound
  rw [absLma, BitVec.toNat_add]
  omega

theorem pageCount_wraps (segment : RomSegment) :
    segment.pageCount = (segment.size.toNat + (mmuBlockSize - 1)) % 2 ^ 32 / mmuBlockSize :=
  countMmuPages_aligned segment.size segment.vma

theorem pageCount_eq (segment : RomSegment) (placed : segment.WellPlaced) :
    segment.pageCount = (segment.size.toNat + 0xFFFF) / 0x10000 := by
  have bound := placed.lmaBound
  have start : primaryStartAddress.toNat = 0x20000 := rfl
  rw [pageCount_wraps, mmuBlockSize, Nat.mod_eq_of_lt (by omega)]

/-- No more pages are mapped than the size takes, also where the sum in the count wraps. -/
theorem pageCount_le (segment : RomSegment) :
    segment.pageCount ≤ (segment.size.toNat + 0xFFFF) / 0x10000 := by
  rw [pageCount_wraps, mmuBlockSize]
  exact Nat.div_le_div_right (Nat.mod_le _ _)

/-- A page that is mapped for a segment holds one of its bytes. -/
theorem holds_of_mapped (segment : RomSegment) (count : Nat)
    (mapped : count < segment.pageCount) :
    ∃ address, segment.Holds address ∧ address / mmuBlockSize = segment.firstPage + count := by
  have bound := segment.pageCount_le
  refine ⟨max segment.vma.toNat ((segment.firstPage + count) * mmuBlockSize), ?_, ?_⟩ <;>
    simp only [Holds, firstPage, mmuBlockSize] <;> omega

/-- All bytes of a segment are in the mapped pages exactly when the offset in the first page does
not matter. -/
theorem pageFits_iff (segment : RomSegment) (placed : segment.WellPlaced) :
    segment.PageFits ↔ ∀ address, segment.Holds address →
      address / mmuBlockSize < segment.firstPage + segment.pageCount := by
  have none : segment.size = 0 ↔ segment.size.toNat = 0 := by
    rw [← BitVec.toNat_inj]
    rfl
  rw [PageFits, none, pageCount_eq segment placed]
  simp only [Holds, firstPage, mmuBlockSize]
  constructor
  · rintro fits address ⟨low, high⟩
    omega
  · intro inside
    by_cases empty : segment.size.toNat = 0
    · exact Or.inl empty
    · have last := inside (segment.vma.toNat + segment.size.toNat - 1) (by omega)
      exact Or.inr (by omega)

end RomSegment

/-! ### Mapping one segment -/

section Map

variable {mmu : FlashMmu} (segment : RomSegment) (tables : MmuTables)

theorem invalidateProTable_entry (count index : Nat) :
    (invalidateProTable tables count).entry .pro index =
      if index < count then none else tables.entry .pro index := by
  induction count with
  | zero => rfl
  | succ count inductionHypothesis =>
    rw [invalidateProTable, MmuTables.invalidate]
    simp only [Function.update_self, Function.update_apply, inductionHypothesis]
    by_cases last : index = count
    · rw [if_pos last, if_pos (by omega)]
    · rw [if_neg last]
      by_cases before : index < count
      · rw [if_pos before, if_pos (by omega)]
      · rw [if_neg before, if_neg (by omega)]

/-- The page of an address that is rounded down. -/
theorem mmuFlashMask_page (address : BitVec 32) :
    mmuBlockSize ∣ (address &&& mmuFlashMask).toNat ∧
      (address &&& mmuFlashMask).toNat / mmuBlockSize = address.toNat / mmuBlockSize := by
  rw [toNat_and_mmuFlashMask]
  exact ⟨dvd_alignDown _ _, Nat.mul_div_cancel _ (by decide)⟩

/-- A segment that is mapped with success: the entries of its pages, for either CPU. -/
theorem mapSegment_sets (lawful : mmu.Lawful)
    (success : (mapSegment mmu segment tables).1 = 0) (cpu : Cpu) (count : Nat)
    (mapped : count < segment.pageCount) :
    ∃ index, mmu.entryOf (segment.firstPage + count) = some index ∧
      (mapSegment mmu segment tables).2.entry cpu index =
        some (segment.absLma.toNat / mmuBlockSize + count) := by
  obtain ⟨proSuccess, appSuccess⟩ := BitVec.or_eq_zero_iff.mp success
  obtain ⟨vmaAligned, vmaPage⟩ := mmuFlashMask_page segment.vma
  obtain ⟨lmaAligned, lmaPage⟩ := mmuFlashMask_page segment.absLma
  cases cpu with
  | pro =>
    obtain ⟨index, entry, set⟩ :=
      lawful.sets .pro _ _ _ tables vmaAligned lmaAligned proSuccess count mapped
    rw [vmaPage] at entry
    rw [lmaPage] at set
    refine ⟨index, entry, ?_⟩
    rw [← set]
    exact lawful.keeps .app _ _ _ _ vmaAligned lmaAligned appSuccess .pro index
      fun same => by cases same
  | app =>
    obtain ⟨index, entry, set⟩ :=
      lawful.sets .app _ _ _ _ vmaAligned lmaAligned appSuccess count mapped
    rw [vmaPage] at entry
    rw [lmaPage] at set
    exact ⟨index, entry, set⟩

/-- A segment that is mapped with success leaves the other entries alone. -/
theorem mapSegment_keeps (lawful : mmu.Lawful)
    (success : (mapSegment mmu segment tables).1 = 0) (cpu : Cpu) (index : Nat)
    (other : ∀ count, count < segment.pageCount →
      mmu.entryOf (segment.firstPage + count) ≠ some index) :
    (mapSegment mmu segment tables).2.entry cpu index = tables.entry cpu index := by
  obtain ⟨proSuccess, appSuccess⟩ := BitVec.or_eq_zero_iff.mp success
  obtain ⟨vmaAligned, vmaPage⟩ := mmuFlashMask_page segment.vma
  obtain ⟨lmaAligned, _⟩ := mmuFlashMask_page segment.absLma
  have apart (count : Nat) (mapped : count < segment.pageCount) :
      mmu.entryOf ((segment.vma &&& mmuFlashMask).toNat / mmuBlockSize + count) ≠ some index := by
    rw [vmaPage]
    exact other count mapped
  have pro := lawful.keeps .pro _ _ _ tables vmaAligned lmaAligned proSuccess cpu index
    fun _ => apart
  have app := lawful.keeps .app _ _ _ _ vmaAligned lmaAligned appSuccess cpu index fun _ => apart
  exact app.trans pro

end Map

/-! ### Mapping both segments -/

section Both

variable {mmu : FlashMmu} (tables : MmuTables)

/-- A page of one segment is not mapped for another one. -/
theorem entryOf_ne_of_apart (lawful : mmu.Lawful) (first second : RomSegment)
    (apart : first.Apart second) (address : Nat) (holds : first.Holds address) (index : Nat)
    (entry : mmu.entryOf (address / mmuBlockSize) = some index) (count : Nat)
    (mapped : count < second.pageCount) :
    mmu.entryOf (second.firstPage + count) ≠ some index := by
  intro same
  obtain ⟨other, otherHolds, page⟩ := second.holds_of_mapped count mapped
  refine apart address other holds otherHolds ?_
  rw [page]
  exact lawful.injective _ _ index entry same

/-- The flash address of a mapped page and an offset in it. -/
theorem translate_of_entry (segment : RomSegment) (placed : segment.WellPlaced) (cpu : Cpu)
    (address : Nat) (holds : segment.Holds address) (index : Nat)
    (entry : mmu.entryOf (address / mmuBlockSize) = some index)
    (set : tables.entry cpu index = some (segment.absLma.toNat / mmuBlockSize +
      (address / mmuBlockSize - segment.firstPage))) :
    mmu.translate tables cpu address =
      some (primaryStartAddress.toNat + segment.lma.toNat + (address - segment.vma.toNat)) := by
  rw [FlashMmu.translate, entry, Option.bind_some, set, Option.map_some]
  have congruent := placed.congruent
  have start := segment.absLma_toNat placed (by have := holds.1; have := holds.2; omega)
  rw [start] at congruent ⊢
  have low := holds.1
  simp only [RomSegment.firstPage, mmuBlockSize] at congruent ⊢
  congr 1
  omega

/-- The bytes of a segment that are in mapped pages are seen, whatever is mapped afterwards. -/
theorem mapped_of_pageFits (lawful : mmu.Lawful) (segment : RomSegment)
    (placed : segment.WellPlaced) (fits : segment.PageFits) (before after : MmuTables)
    (success : (mapSegment mmu segment before).1 = 0)
    (kept : ∀ cpu address index, segment.Holds address →
      mmu.entryOf (address / mmuBlockSize) = some index →
      after.entry cpu index = (mapSegment mmu segment before).2.entry cpu index) :
    segment.Mapped mmu after := by
  intro cpu address holds
  have inside := (segment.pageFits_iff placed).mp fits address holds
  have low : segment.firstPage ≤ address / mmuBlockSize := Nat.div_le_div_right holds.1
  have page : segment.firstPage + (address / mmuBlockSize - segment.firstPage) =
      address / mmuBlockSize := by omega
  obtain ⟨index, entry, set⟩ := mapSegment_sets segment before lawful success cpu
    (address / mmuBlockSize - segment.firstPage) (by omega)
  rw [page] at entry
  refine translate_of_entry after segment placed cpu address holds index entry ?_
  rw [kept cpu address index holds entry]
  exact set

/-- The entries of no mapped page are those that the loop left. -/
theorem mapRomSegments_keeps (lawful : mmu.Lawful) (irom drom : RomSegment)
    (success : (mapRomSegments mmu irom drom tables).1 = 0) (cpu : Cpu) (index : Nat)
    (outsideDrom : ∀ count, count < drom.pageCount →
      mmu.entryOf (drom.firstPage + count) ≠ some index)
    (outsideIrom : ∀ count, count < irom.pageCount →
      mmu.entryOf (irom.firstPage + count) ≠ some index) :
    (mapRomSegments mmu irom drom tables).2.entry cpu index =
      (invalidateProTable tables mmu.tableSize).entry cpu index := by
  obtain ⟨dromSuccess, iromSuccess⟩ := BitVec.or_eq_zero_iff.mp success
  have code := mapSegment_keeps irom _ lawful iromSuccess cpu index outsideIrom
  have data := mapSegment_keeps drom _ lawful dromSuccess cpu index outsideDrom
  exact code.trans data

/-- A byte beyond the mapped pages of its own segment is seen by the PRO CPU nowhere: its entry was
made invalid and not set again. -/
theorem translate_pro_none (lawful : mmu.Lawful) (irom drom : RomSegment)
    (success : (mapRomSegments mmu irom drom tables).1 = 0) (address : Nat)
    (outsideDrom : ∀ index, mmu.entryOf (address / mmuBlockSize) = some index →
      ∀ count, count < drom.pageCount → mmu.entryOf (drom.firstPage + count) ≠ some index)
    (outsideIrom : ∀ index, mmu.entryOf (address / mmuBlockSize) = some index →
      ∀ count, count < irom.pageCount → mmu.entryOf (irom.firstPage + count) ≠ some index) :
    mmu.translate (mapRomSegments mmu irom drom tables).2 .pro address = none := by
  cases entry : mmu.entryOf (address / mmuBlockSize) with
  | none => rw [FlashMmu.translate, entry, Option.bind_none, Option.map_none]
  | some index =>
    have invalid : (mapRomSegments mmu irom drom tables).2.entry .pro index = none := by
      rw [mapRomSegments_keeps tables lawful irom drom success .pro index
        (outsideDrom index entry) (outsideIrom index entry), invalidateProTable_entry,
        if_pos (lawful.bounded _ index entry)]
    rw [FlashMmu.translate, entry, Option.bind_some, invalid, Option.map_none]

/-- An address beyond the mapped pages has none of their entries. -/
theorem entryOf_ne_of_beyond (lawful : mmu.Lawful) (segment : RomSegment) (address : Nat)
    (beyond : ¬ address / mmuBlockSize < segment.firstPage + segment.pageCount) (index : Nat)
    (entry : mmu.entryOf (address / mmuBlockSize) = some index) (count : Nat)
    (mapped : count < segment.pageCount) :
    mmu.entryOf (segment.firstPage + count) ≠ some index := by
  intro same
  have page := lawful.injective _ _ index entry same
  omega

end Both

theorem RomSegment.Apart.symm {first second : RomSegment} (apart : first.Apart second) :
    second.Apart first :=
  fun address other holds otherHolds same => apart other address otherHolds holds same.symm

/-- Both segments are mapped as a whole, for both CPUs, exactly when neither has an offset in its
first page that pushes its end into one page more than its size takes. -/
theorem mapRomSegments_mapped_iff (mmu : FlashMmu) (lawful : mmu.Lawful) (irom drom : RomSegment)
    (tables : MmuTables) (iromPlaced : irom.WellPlaced) (dromPlaced : drom.WellPlaced)
    (apart : drom.Apart irom) (success : (mapRomSegments mmu irom drom tables).1 = 0) :
    (irom.Mapped mmu (mapRomSegments mmu irom drom tables).2 ∧
        drom.Mapped mmu (mapRomSegments mmu irom drom tables).2) ↔
      irom.PageFits ∧ drom.PageFits := by
  obtain ⟨dromSuccess, iromSuccess⟩ := BitVec.or_eq_zero_iff.mp success
  constructor
  · rintro ⟨iromMapped, dromMapped⟩
    refine ⟨(irom.pageFits_iff iromPlaced).mpr fun address holds => ?_,
      (drom.pageFits_iff dromPlaced).mpr fun address holds => ?_⟩
    · by_contra beyond
      have unseen := translate_pro_none tables lawful irom drom success address
        (entryOf_ne_of_apart lawful irom drom apart.symm address holds)
        (entryOf_ne_of_beyond lawful irom address beyond)
      rw [iromMapped .pro address holds] at unseen
      cases unseen
    · by_contra beyond
      have unseen := translate_pro_none tables lawful irom drom success address
        (entryOf_ne_of_beyond lawful drom address beyond)
        (entryOf_ne_of_apart lawful drom irom apart address holds)
      rw [dromMapped .pro address holds] at unseen
      cases unseen
  · rintro ⟨iromFits, dromFits⟩
    refine ⟨mapped_of_pageFits lawful irom iromPlaced iromFits _ _ iromSuccess
      fun _ _ _ _ _ => rfl, ?_⟩
    refine mapped_of_pageFits lawful drom dromPlaced dromFits _ _ dromSuccess
      fun cpu address index holds entry => ?_
    exact mapSegment_keeps irom _ lawful iromSuccess cpu index
      (entryOf_ne_of_apart lawful drom irom apart address holds index entry)

/-! ### The ESP32 -/

/-- The entry of a virtual page on the ESP32: 64 entries for the data bus and 192 for the
instruction bus. -/
def esp32EntryOf (page : Nat) : Option Nat :=
  if 0x3F40 ≤ page ∧ page < 0x3F80 then some (page - 0x3F40)
  else if 0x4000 ≤ page ∧ page < 0x40C0 then some (64 + (page - 0x4000))
  else none

/-- The virtual page of an entry. -/
def esp32PageOf (index : Nat) : Nat :=
  if index < 64 then 0x3F40 + index else 0x4000 + (index - 64)

/-- A routine in the place of the one in the ROM, to run the code on. It refuses what is not a range
of whole pages of one of the buses. -/
def esp32CacheFlashMmuSet (cpu : Cpu) (_pid vaddr paddr psize num : BitVec 32)
    (tables : MmuTables) : BitVec 32 × MmuTables :=
  let page := vaddr.toNat / mmuBlockSize
  if psize = 64 ∧ vaddr.toNat % mmuBlockSize = 0 ∧ paddr.toNat % mmuBlockSize = 0 ∧
      ((0x3F40 ≤ page ∧ page + num.toNat ≤ 0x3F80) ∨
        (0x4000 ≤ page ∧ page + num.toNat ≤ 0x40C0)) then
    (0, ⟨fun other index =>
      if other = cpu ∧ index < 256 ∧ page ≤ esp32PageOf index ∧
          esp32PageOf index < page + num.toNat then
        some (paddr.toNat / mmuBlockSize + (esp32PageOf index - page))
      else tables.entry other index⟩)
  else (1, tables)

def esp32Mmu : FlashMmu where
  tableSize := 256
  entryOf := esp32EntryOf
  cacheFlashMmuSet := esp32CacheFlashMmuSet

theorem esp32EntryOf_eq_iff (page index : Nat) :
    esp32EntryOf page = some index ↔ index < 256 ∧ esp32PageOf index = page := by
  unfold esp32EntryOf esp32PageOf
  split_ifs <;> simp only [Option.some.injEq, false_iff] <;> omega

/-- A call that succeeds was given pages of one bus, and sets their entries. -/
theorem esp32CacheFlashMmuSet_success (cpu : Cpu) (pid vaddr paddr psize num : BitVec 32)
    (tables : MmuTables)
    (success : (esp32CacheFlashMmuSet cpu pid vaddr paddr psize num tables).1 = 0) :
    ((0x3F40 ≤ vaddr.toNat / mmuBlockSize ∧
          vaddr.toNat / mmuBlockSize + num.toNat ≤ 0x3F80) ∨
        (0x4000 ≤ vaddr.toNat / mmuBlockSize ∧
          vaddr.toNat / mmuBlockSize + num.toNat ≤ 0x40C0)) ∧
      ∀ other index,
        (esp32CacheFlashMmuSet cpu pid vaddr paddr psize num tables).2.entry other index =
          if other = cpu ∧ index < 256 ∧ vaddr.toNat / mmuBlockSize ≤ esp32PageOf index ∧
              esp32PageOf index < vaddr.toNat / mmuBlockSize + num.toNat then
            some (paddr.toNat / mmuBlockSize +
              (esp32PageOf index - vaddr.toNat / mmuBlockSize))
          else tables.entry other index := by
  unfold esp32CacheFlashMmuSet at success ⊢
  simp only at success ⊢
  split_ifs at success ⊢ with legal
  · exact ⟨legal.2.2.2, fun _ _ => rfl⟩
  · cases success

theorem esp32Mmu_lawful : esp32Mmu.Lawful where
  bounded page index entry := ((esp32EntryOf_eq_iff page index).mp entry).1
  injective page other index entry otherEntry := by
    rw [← ((esp32EntryOf_eq_iff page index).mp entry).2]
    exact ((esp32EntryOf_eq_iff other index).mp otherEntry).2
  sets cpu vaddr paddr num tables _ _ success count inside := by
    obtain ⟨legal, entries⟩ := esp32CacheFlashMmuSet_success cpu 0 vaddr paddr 64 num tables success
    have listed : ∃ index, esp32EntryOf (vaddr.toNat / mmuBlockSize + count) = some index := by
      unfold esp32EntryOf
      split_ifs
      · exact ⟨_, rfl⟩
      · exact ⟨_, rfl⟩
      · omega
    obtain ⟨index, entry⟩ := listed
    obtain ⟨bound, page⟩ := (esp32EntryOf_eq_iff _ index).mp entry
    refine ⟨index, entry, (entries cpu index).trans ?_⟩
    rw [if_pos ⟨rfl, bound, by omega, by omega⟩, page, Nat.add_sub_cancel_left]
  keeps cpu vaddr paddr num tables _ _ success other index apart := by
    obtain ⟨_, entries⟩ := esp32CacheFlashMmuSet_success cpu 0 vaddr paddr 64 num tables success
    refine (entries other index).trans (if_neg ?_)
    rintro ⟨same, bound, low, high⟩
    refine apart same (esp32PageOf index - vaddr.toNat / mmuBlockSize) (by omega) ?_
    exact (esp32EntryOf_eq_iff _ index).mpr ⟨bound, by omega⟩

/-- A data segment with the offset that the image header leaves. -/
def dromExample : RomSegment where
  vma := 0x3F400020
  lma := 0x20
  size := 0x1000

/-- A code segment with the same offset. -/
def iromExample (size : BitVec 32) : RomSegment where
  vma := 0x400D0020
  lma := 0x10020
  size := size

theorem dromExample_wellPlaced : dromExample.WellPlaced := ⟨by decide, by decide, by decide⟩

theorem dromExample_apart (size : BitVec 32) : dromExample.Apart (iromExample size) := by
  rintro address other ⟨_, high⟩ ⟨low, _⟩
  change address < 0x3F400020 + 0x1000 at high
  change 0x400D0020 ≤ other at low
  simp only [mmuBlockSize]
  omega

/-- A code segment of 32 KB is mapped. -/
theorem mapRomSegments_mapped_short :
    (iromExample 0x8000).Mapped esp32Mmu
        (mapRomSegments esp32Mmu (iromExample 0x8000) dromExample ⟨fun _ _ => none⟩).2 ∧
      dromExample.Mapped esp32Mmu
        (mapRomSegments esp32Mmu (iromExample 0x8000) dromExample ⟨fun _ _ => none⟩).2 :=
  (mapRomSegments_mapped_iff esp32Mmu esp32Mmu_lawful (iromExample 0x8000) dromExample
    ⟨fun _ _ => none⟩ ⟨by decide, by decide, by decide⟩ dromExample_wellPlaced
    (dromExample_apart 0x8000) (by decide)).mpr ⟨Or.inr (by decide), Or.inr (by decide)⟩

/-- A code segment of 64 KB: its last 32 bytes are not mapped. -/
theorem mapRomSegments_unmapped :
    (iromExample 0x10000).WellPlaced ∧ dromExample.WellPlaced ∧
      dromExample.Apart (iromExample 0x10000) ∧
      (mapRomSegments esp32Mmu (iromExample 0x10000) dromExample ⟨fun _ _ => none⟩).1 = 0 ∧
      (iromExample 0x10000).Holds 0x400E0000 ∧
      esp32Mmu.translate
        (mapRomSegments esp32Mmu (iromExample 0x10000) dromExample ⟨fun _ _ => none⟩).2 .pro
        0x400E0000 = none := by
  have placed : (iromExample 0x10000).WellPlaced := ⟨by decide, by decide, by decide⟩
  have holds : (iromExample 0x10000).Holds 0x400E0000 := ⟨by decide, by decide⟩
  have success : (mapRomSegments esp32Mmu (iromExample 0x10000) dromExample
    ⟨fun _ _ => none⟩).1 = 0 := by decide
  refine ⟨placed, dromExample_wellPlaced, dromExample_apart 0x10000, success, holds, ?_⟩
  exact translate_pro_none _ esp32Mmu_lawful _ _ success 0x400E0000
    (entryOf_ne_of_apart esp32Mmu_lawful _ _ (dromExample_apart 0x10000).symm _ holds)
    (entryOf_ne_of_beyond esp32Mmu_lawful _ _ (by decide))

end McubootPort
