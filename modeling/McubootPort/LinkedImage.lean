/-
This file joins the linker script and the start of the application: where the
bytes of a linked image are once the loader has copied its two ranges and
`map_rom_segments` has mapped the two flash segments.

The script puts both flash sections on pages of 64 KB, in the address space and
in the image, so that nothing of them is left unmapped, however large they are.
What is copied or mapped is then the whole image, except for the sections in the
memory of the real-time clock: they are stored in the image, but nothing takes
them from there.
-/

import McubootPort.LoadHeader
import McubootPort.RomSegments
import Mathlib.Algebra.Order.BigOperators.Group.List

namespace McubootPort

open Alignment SectionLayout

section Image

variable (config : LinkConfig) (contents : SectionContents)

/-- The symbols that the script sets for a section: `ADDR`, `LOADADDR` and `SIZEOF`. -/
def imageSegment (name : SectionName) : RomSegment where
  vma := BitVec.ofNat 32 (addrOf config contents name)
  lma := BitVec.ofNat 32 (loadAddrOf config contents name)
  size := BitVec.ofNat 32 (contents.size name)

/-- `_image_drom_vma`, `_image_drom_lma` and `_image_drom_size`. -/
def imageDrom : RomSegment := imageSegment config contents .flashRodata

/-- `_image_irom_vma`, `_image_irom_lma` and `_image_irom_size`. -/
def imageIrom : RomSegment := imageSegment config contents .flashText

/-! ### Where the sections of a linked image are -/

theorem clauseExponent_page : clauseExponent 0xFFFF = 16 := by decide +kernel

/-- A section that the script aligns to pages is at the start of one. -/
theorem dvd_addrOf (name : SectionName) (clause : alignClause name = 0xFFFF) :
    mmuBlockSize ∣ addrOf config contents name := by
  have coarse : 16 ≤ max (clauseExponent (alignClause name)) (contents.naturalPower name) := by
    rw [clause, clauseExponent_page]
    exact Nat.le_max_left _ _
  exact (Nat.pow_dvd_pow 2 coarse).trans (dvd_alignUp _ _)

/-- And in the image as well. -/
theorem dvd_loadAddrOf (name : SectionName) (clause : alignClause name = 0xFFFF)
    (loads : loadRegionOf config name = some .rom) :
    mmuBlockSize ∣ loadAddrOf config contents name := by
  have place := loadAddr_of_loads (outputSections config contents) config.origin script name .rom
    loads
  have coarse : 16 ≤ clauseExponent (alignClause name) := by rw [clause, clauseExponent_page]
  rw [loadAddrOf, place]
  exact (Nat.pow_dvd_pow 2 coarse).trans (dvd_alignUp _ _)

theorem origin_le_addrOf (name : SectionName) :
    config.origin (regionOf config name) ≤ addrOf config contents name :=
  (le_foldl_advance (outputSections config contents) _ _ _).trans (le_runStart _ name _)

/-- A section of a layout that links is no larger than its region. -/
theorem size_le_length (links : Links config contents) (name : SectionName) :
    contents.size name ≤ config.length (regionOf config name) := by
  have fits := links.runFits name
  have start := origin_le_addrOf config contents name
  rw [endOf] at fits
  omega

theorem dram0_0SegLen_le (links : Links config contents) : config.dram0_0SegLen ≤ 0x2c200 := by
  have fixed := links.fixedStaticRam
  rw [LinkConfig.dram0_0SegLen]
  cases size : config.fixedStaticRamSize with
  | none => exact Nat.le_refl _
  | some size' => rwa [size] at fixed

/-- No region but the image has more than 4 MB, or ends beyond half of the address space. -/
theorem region_le (links : Links config contents) (region : Region) (runs : region ≠ .rom) :
    config.length region ≤ 0x400000 ∧ config.origin region + config.length region ≤ 2 ^ 31 := by
  have dram := dram0_0SegLen_le config contents links
  have reserved := config.btReserveDram_le
  have coprocessor := config.ulpCoprocReserveMem_le
  change config.btReserveDram ≤ config.dram0_0SegLen at reserved
  cases region <;> simp only [LinkConfig.length, LinkConfig.origin] <;>
    first | omega | exact absurd rfl runs

theorem clauseExponent_le (name : SectionName) : clauseExponent (alignClause name) ≤ 16 := by
  rw [← clauseExponent_page]
  refine Nat.clog_mono_right 2 ?_
  cases name <;> decide

/-- What a section takes of the image at most, with its alignment. -/
def imageRoom : SectionName → Nat
  | .flashRodata => 0x410000
  | .flashText => 0x410000
  | _ => 0x2c204

theorem size_le_imageRoom (links : Links config contents) (name : SectionName)
    (loaded : isLoaded name = true) (loads : loadRegionOf config name = some .rom) :
    2 ^ clauseExponent (alignClause name) + contents.size name ≤ imageRoom name := by
  have room := size_le_length config contents links name
  have short := (region_le config contents links _ (regionOf_ne_rom config name)).1
  have dram := dram0_0SegLen_le config contents links
  have clock : config.length config.rtcDataLocation ≤ 0x2000 := by
    rw [LinkConfig.rtcDataLocation]
    split <;> exact Nat.sub_le _ _
  cases name <;>
    simp only [isLoaded, noload, loadRegionOf, reduceCtorEq, alignClause, clauseExponent_one,
      clauseExponent_four, clauseExponent_page, imageRoom, regionOf]
      at loaded loads room short ⊢ <;>
    first
      | omega
      | (simp only [LinkConfig.length] at room; omega)

/-- The image of a layout that links is smaller than 12 MB, whatever the size of the flash is said
to be. -/
theorem loadAddrOf_le (links : Links config contents) (name : SectionName)
    (loads : loadRegionOf config name = some .rom) :
    loadAddrOf config contents name ≤ 0xB50000 := by
  have place := loadAddr_of_loads (outputSections config contents) config.origin script name .rom
    loads
  have cursor := foldl_advance_le (outputSections config contents) .rom imageRoom
    (before script name) (config.origin .rom) (fun other _ => regionOf_ne_rom config other)
    fun other _ loaded => size_le_imageRoom config contents links other loaded
  have total : ((before script name).map imageRoom).sum ≤ (script.map imageRoom).sum :=
    ((List.takeWhile_sublist _).map imageRoom).sum_le_sum fun _ _ => Nat.zero_le _
  have all : (script.map imageRoom).sum ≤ 0xB3F000 := by decide
  have start : config.origin .rom = 0x40 := rfl
  have last := alignUp_le (2 ^ clauseExponent (alignClause name))
    (cursorAfter (outputSections config contents) config.origin .rom (before script name))
  have power : 2 ^ clauseExponent (alignClause name) ≤ 2 ^ 16 :=
    Nat.pow_le_pow_right (by decide) (clauseExponent_le name)
  rw [loadAddrOf, place]
  change alignUp (2 ^ clauseExponent (alignClause name)) _ ≤ _
  rw [cursorAfter] at last ⊢
  omega

/-- Where the two flash sections run, if there are flash sections. -/
theorem flashSections_range (links : Links config contents)
    (flash : config.appBuildUseFlashSections = true) :
    (0x3F400000 ≤ addrOf config contents .flashRodata ∧
        addrOf config contents .flashRodata + contents.size .flashRodata ≤
          0x3F400000 + 0x400000) ∧
      0x400D0000 ≤ addrOf config contents .flashText ∧
        addrOf config contents .flashText + contents.size .flashText ≤ 0x400D0000 + 0x330000 := by
  have dromStart := origin_le_addrOf config contents .flashRodata
  have dromEnd := links.runFits .flashRodata
  have iromStart := origin_le_addrOf config contents .flashText
  have iromEnd := links.runFits .flashText
  rw [regionOf_flashRodata, if_pos flash] at dromStart dromEnd
  rw [regionOf_flashText, if_pos flash] at iromStart iromEnd
  exact ⟨⟨dromStart, dromEnd⟩, iromStart, iromEnd⟩

/-! ### The flash segments -/

/-- The symbols of a section that is in the image do not wrap. -/
theorem imageSegment_toNat (links : Links config contents) (name : SectionName)
    (loads : loadRegionOf config name = some .rom) :
    (imageSegment config contents name).vma.toNat = addrOf config contents name ∧
      (imageSegment config contents name).lma.toNat = loadAddrOf config contents name ∧
      (imageSegment config contents name).size.toNat = contents.size name := by
  have ends := (region_le config contents links _ (regionOf_ne_rom config name)).2
  have fits := links.runFits name
  have place := loadAddrOf_le config contents links name loads
  rw [endOf] at fits
  refine ⟨?_, ?_, ?_⟩ <;> refine Nat.mod_eq_of_lt ?_ <;> omega

/-- A section that the script aligns to pages is well placed, and the number of its pages is that of
its size. -/
theorem imageSegment_wellPlaced (links : Links config contents) (name : SectionName)
    (loads : loadRegionOf config name = some .rom) (clause : alignClause name = 0xFFFF) :
    (imageSegment config contents name).WellPlaced ∧
      (imageSegment config contents name).PageFits := by
  obtain ⟨vma, lma, size⟩ := imageSegment_toNat config contents links name loads
  have run := Nat.mod_eq_zero_of_dvd (dvd_addrOf config contents name clause)
  have load := Nat.mod_eq_zero_of_dvd (dvd_loadAddrOf config contents name clause loads)
  obtain ⟨short, ends⟩ := region_le config contents links _ (regionOf_ne_rom config name)
  have fits := links.runFits name
  have room := size_le_length config contents links name
  have place := loadAddrOf_le config contents links name loads
  have start : primaryStartAddress.toNat = 0x20000 := rfl
  have pages : mmuBlockSize = 0x10000 := rfl
  rw [endOf] at fits
  rw [pages] at run load
  refine ⟨⟨?_, ?_, ?_⟩, Or.inr ?_⟩
  · rw [RomSegment.absLma, BitVec.toNat_add, vma, lma, start, pages]
    omega
  · rw [vma, size]
    omega
  · rw [lma, size, start]
    omega
  · rw [vma, size, pages]
    omega

/-- The two segments share no page, if there are flash sections. -/
theorem imageDrom_apart (links : Links config contents)
    (flash : config.appBuildUseFlashSections = true) :
    (imageDrom config contents).Apart (imageIrom config contents) := by
  rintro address other ⟨_, high⟩ ⟨low, _⟩
  obtain ⟨droms, _, dromSize⟩ := imageSegment_toNat config contents links .flashRodata rfl
  obtain ⟨iroms, _, _⟩ := imageSegment_toNat config contents links .flashText rfl
  obtain ⟨⟨_, dromEnd⟩, iromStart, _⟩ := flashSections_range config contents links flash
  rw [imageDrom, droms, dromSize] at high
  rw [imageIrom, iroms] at low
  simp only [mmuBlockSize]
  omega

/-- In every layout that links, with flash sections, both flash segments are mapped as a whole when
the calls of the ROM succeed: neither is at an offset in a page, whatever its size. -/
theorem linkedImage_mapped (links : Links config contents)
    (flash : config.appBuildUseFlashSections = true) (mmu : FlashMmu) (lawful : mmu.Lawful)
    (tables : MmuTables)
    (success : (mapRomSegments mmu (imageIrom config contents) (imageDrom config contents)
      tables).1 = 0) :
    (imageIrom config contents).Mapped mmu
        (mapRomSegments mmu (imageIrom config contents) (imageDrom config contents) tables).2 ∧
      (imageDrom config contents).Mapped mmu
        (mapRomSegments mmu (imageIrom config contents) (imageDrom config contents) tables).2 := by
  obtain ⟨dromSuccess, iromSuccess⟩ := BitVec.or_eq_zero_iff.mp success
  obtain ⟨iromPlaced, iromFits⟩ := imageSegment_wellPlaced config contents links .flashText rfl rfl
  obtain ⟨dromPlaced, dromFits⟩ :=
    imageSegment_wellPlaced config contents links .flashRodata rfl rfl
  have apart := imageDrom_apart config contents links flash
  constructor
  · exact mapped_of_pageFits lawful _ iromPlaced iromFits _ _ iromSuccess fun _ _ _ _ _ => rfl
  · refine mapped_of_pageFits lawful _ dromPlaced dromFits _ _ dromSuccess
      fun cpu address index holds entry => ?_
    exact mapSegment_keeps _ _ lawful iromSuccess cpu index
      (entryOf_ne_of_apart lawful _ _ apart address holds index entry)

/-! ### The whole image -/

/-- A section with contents, behind the two headers. -/
def HasContents (name : SectionName) : Prop :=
  isLoaded name = true ∧ name ≠ .mcubootHdr ∧ name ≠ .espMcubootLoadHdr

instance : DecidablePred HasContents := fun name =>
  inferInstanceAs (Decidable (isLoaded name = true ∧ name ≠ .mcubootHdr ∧
    name ≠ .espMcubootLoadHdr))

/-- Every byte of a section is where it runs: the loader has copied it there, or both CPUs see it
through the flash mapping. -/
def InPlace (mmu : FlashMmu) (tables : MmuTables) (name : SectionName) : Prop :=
  ∀ offset, offset < contents.size name →
    (∃ range ∈ loadHdrRanges config contents,
      range.Puts (loadAddrOf config contents name + offset)
        (addrOf config contents name + offset)) ∨
      ∀ cpu, mmu.translate tables cpu (addrOf config contents name + offset) =
        some (primaryStartAddress.toNat + (loadAddrOf config contents name + offset))

/-- The regions that are seen through the flash mapping. -/
def Region.IsFlash (region : Region) : Prop := region = .drom0_0Seg ∨ region = .iram0_2Seg

theorem not_isFlash (region : Region) (data : region ≠ .drom0_0Seg) (code : region ≠ .iram0_2Seg) :
    ¬ region.IsFlash := fun flash => flash.elim data code

section Place

variable {mmu : FlashMmu} {tables : MmuTables}

/-- An address on a page of neither segment is not mapped for the PRO CPU. -/
theorem translate_none_of_pages (lawful : mmu.Lawful) (irom drom : RomSegment)
    (success : (mapRomSegments mmu irom drom tables).1 = 0) (address : Nat)
    (outsideDrom : ∀ other, drom.Holds other → address / mmuBlockSize ≠ other / mmuBlockSize)
    (outsideIrom : ∀ other, irom.Holds other → address / mmuBlockSize ≠ other / mmuBlockSize) :
    mmu.translate (mapRomSegments mmu irom drom tables).2 .pro address = none := by
  have apart (segment : RomSegment)
      (outside : ∀ other, segment.Holds other → address / mmuBlockSize ≠ other / mmuBlockSize)
      (index : Nat) (entry : mmu.entryOf (address / mmuBlockSize) = some index) (count : Nat)
      (mapped : count < segment.pageCount) :
      mmu.entryOf (segment.firstPage + count) ≠ some index := by
    intro same
    obtain ⟨other, holds, page⟩ := segment.holds_of_mapped count mapped
    refine outside other holds ?_
    rw [page]
    exact lawful.injective _ _ index entry same
  exact translate_pro_none tables lawful irom drom success address (apart drom outsideDrom)
    (apart irom outsideIrom)

/-- No byte of a section in memory is seen through the flash mapping. -/
theorem translate_none_of_memory (links : Links config contents)
    (flash : config.appBuildUseFlashSections = true) (lawful : mmu.Lawful)
    (success : (mapRomSegments mmu (imageIrom config contents) (imageDrom config contents)
      tables).1 = 0) (name : SectionName) (memory : ¬ (regionOf config name).IsFlash) (offset : Nat)
    (inside : offset < contents.size name) :
    mmu.translate
      (mapRomSegments mmu (imageIrom config contents) (imageDrom config contents) tables).2 .pro
      (addrOf config contents name + offset) = none := by
  obtain ⟨droms, _, dromSize⟩ := imageSegment_toNat config contents links .flashRodata rfl
  obtain ⟨iroms, _, iromSize⟩ := imageSegment_toNat config contents links .flashText rfl
  obtain ⟨⟨dromStart, dromEnd⟩, iromStart, iromEnd⟩ :=
    flashSections_range config contents links flash
  have start := origin_le_addrOf config contents name
  have fits := links.runFits name
  have dram := dram0_0SegLen_le config contents links
  have reserved := config.btReserveDram_le
  change config.btReserveDram ≤ config.dram0_0SegLen at reserved
  rw [endOf] at fits
  have outside : (addrOf config contents name + offset) / 0x10000 < 0x3F40 ∨
      (0x3F80 ≤ (addrOf config contents name + offset) / 0x10000 ∧
        (addrOf config contents name + offset) / 0x10000 < 0x400D) ∨
      0x4040 ≤ (addrOf config contents name + offset) / 0x10000 := by
    have notRom := regionOf_ne_rom config name
    generalize regionOf config name = region at start fits memory notRom
    cases region <;> simp only [LinkConfig.origin, LinkConfig.length] at start fits <;>
      first
        | omega
        | exact absurd (Or.inl rfl) memory
        | exact absurd (Or.inr rfl) memory
        | exact absurd rfl notRom
  refine translate_none_of_pages lawful _ _ success _ (fun other holds => ?_) fun other holds => ?_
  · obtain ⟨low, high⟩ := holds
    rw [imageDrom, droms] at low
    rw [imageDrom, droms, dromSize] at high
    simp only [mmuBlockSize]
    omega
  · obtain ⟨low, high⟩ := holds
    rw [imageIrom, iroms] at low
    rw [imageIrom, iroms, iromSize] at high
    simp only [mmuBlockSize]
    omega

/-- What the loader is to copy has contents. -/
theorem hasContents_of_loadedToRam (name : SectionName) (loaded : LoadedToRam config name) :
    HasContents name := by
  rcases loadedToRam_cases config name loaded with
    rfl | rfl | rfl | rfl | ⟨_, rfl | rfl⟩ <;> decide

/-- The sections with contents. -/
theorem hasContents_cases (name : SectionName) (contained : HasContents name) :
    name = .flashRodata ∨ name = .dram0Data ∨ name = .iram0Vectors ∨ name = .iram0Text ∨
      name = .iram0Data ∨ name = .rtcText ∨ name = .rtcForceFast ∨ name = .rtcData ∨
      name = .rtcForceSlow ∨ name = .flashText := by
  revert contained
  cases name <;> decide

/-- A segment that is mapped is in place. -/
theorem inPlace_of_mapped (links : Links config contents) (name : SectionName)
    (loads : loadRegionOf config name = some .rom)
    (mapped : (imageSegment config contents name).Mapped mmu tables) :
    InPlace config contents mmu tables name := by
  obtain ⟨vma, lma, size⟩ := imageSegment_toNat config contents links name loads
  refine fun offset inside => Or.inr fun cpu => ?_
  have seen := mapped cpu (addrOf config contents name + offset)
    ⟨by rw [vma]; omega, by rw [vma, size]; omega⟩
  rw [seen, vma, lma, Nat.add_sub_cancel_left, Nat.add_assoc]

/-- The contents of the slow memory of the real-time clock are behind those of RAM, in the image or,
without a load address, at the run address. -/
theorem loadAddrOf_le_rtcForceSlow (links : Links config contents) :
    loadAddrOf config contents .iram0Data ≤ loadAddrOf config contents .rtcForceSlow := by
  by_cases slow : config.rtcDataLocation = .rtcSlowSeg
  · have order := loadAddrOf_add_size_le config contents .iram0Data .rtcForceSlow (by decide) rfl
      rfl (if_pos slow)
    omega
  · have own : loadAddrOf config contents .rtcForceSlow = addrOf config contents .rtcForceSlow := by
      have none : (outputSections config contents .rtcForceSlow).loadRegion = none := if_neg slow
      rw [loadAddrOf, loadAddr, none]
      rfl
    have image := loadAddrOf_le config contents links .iram0Data rfl
    have start := origin_le_addrOf config contents .rtcForceSlow
    change 0x50000000 + config.ulpCoprocReserveMem ≤ _ at start
    omega

/-- A section in the memory of the real-time clock is in place only if it is empty. -/
theorem empty_of_inPlace (links : Links config contents)
    (flash : config.appBuildUseFlashSections = true) (lawful : mmu.Lawful)
    (success : (mapRomSegments mmu (imageIrom config contents) (imageDrom config contents)
      tables).1 = 0) (name : SectionName) (memory : ¬ (regionOf config name).IsFlash)
    (later : loadAddrOf config contents .iram0Data ≤ loadAddrOf config contents name)
    (inPlace : InPlace config contents mmu
      (mapRomSegments mmu (imageIrom config contents) (imageDrom config contents) tables).2 name) :
    contents.size name = 0 := by
  by_contra some
  have inside := Nat.pos_of_ne_zero some
  rcases inPlace 0 inside with ⟨range, member, puts⟩ | seen
  · exact not_puts_of_outside config contents _ _ (Or.inr (by omega)) range member puts
  · have unseen := translate_none_of_memory config contents links flash lawful success name memory 0
      inside
    rw [seen .pro] at unseen
    cases unseen

end Place

/-- What the routine of the ROM is documented to take from the first process: some whole pages of
64 KB in one of the flash regions, from a flash of at most 16 MB. -/
def FlashMmu.AcceptsPages (mmu : FlashMmu) : Prop :=
  ∀ cpu vaddr paddr num tables region, mmuBlockSize ∣ vaddr.toNat → mmuBlockSize ∣ paddr.toNat →
    0 < num.toNat → Region.IsFlash region → config.origin region ≤ vaddr.toNat →
    vaddr.toNat + num.toNat * mmuBlockSize ≤ config.origin region + config.length region →
    paddr.toNat + num.toNat * mmuBlockSize ≤ 0x1000000 →
    (mmu.cacheFlashMmuSet cpu 0 vaddr paddr 64 num tables).1 = 0

/-- Both calls for a flash section that is not empty succeed. -/
theorem mapSegment_accepted (links : Links config contents) (mmu : FlashMmu)
    (accepts : mmu.AcceptsPages config) (name : SectionName)
    (loads : loadRegionOf config name = some .rom) (clause : alignClause name = 0xFFFF)
    (flash : (regionOf config name).IsFlash) (some : 0 < contents.size name)
    (tables : MmuTables) :
    (mapSegment mmu (imageSegment config contents name) tables).1 = 0 := by
  obtain ⟨vma, _, size⟩ := imageSegment_toNat config contents links name loads
  obtain ⟨placed, _⟩ := imageSegment_wellPlaced config contents links name loads clause
  have count := (imageSegment config contents name).pageCount_eq placed
  have lma := (imageSegment config contents name).absLma_toNat placed (by omega)
  have image := loadAddrOf_le config contents links name loads
  have room := (region_le config contents links _ (regionOf_ne_rom config name)).1
  have short := size_le_length config contents links name
  have fits := links.runFits name
  have start := origin_le_addrOf config contents name
  have page := dvd_addrOf config contents name clause
  have pageEnd : 0x10000 ∣
      config.origin (regionOf config name) + config.length (regionOf config name) := by
    rcases flash with data | code
    · exact data ▸ (by decide : 0x10000 ∣ 0x3F400000 + 0x400000)
    · exact code ▸ (by decide : 0x10000 ∣ 0x400D0000 + 0x330000)
  have aligned := toNat_and_mmuFlashMask (imageSegment config contents name).vma
  have alignedLma := toNat_and_mmuFlashMask (imageSegment config contents name).absLma
  have primary : primaryStartAddress.toNat = 0x20000 := rfl
  rw [RomSegment.pageCount, size] at count
  simp only [alignDown, mmuBlockSize, endOf, vma] at aligned alignedLma page fits
  have call (cpu : Cpu) (before : MmuTables) : (mmu.cacheFlashMmuSet cpu 0
      ((imageSegment config contents name).vma &&& mmuFlashMask)
      ((imageSegment config contents name).absLma &&& mmuFlashMask) 64
      (countMmuPages (imageSegment config contents name).size
        ((imageSegment config contents name).vma &&& mmuFlashMask)) before).1 = 0 := by
    refine accepts cpu _ _ _ before (regionOf config name) (mmuFlashMask_page _).1
      (mmuFlashMask_page _).1 ?_ flash ?_ ?_ ?_
    · omega
    · omega
    · rw [mmuBlockSize]
      omega
    · rw [mmuBlockSize]
      omega
  exact BitVec.or_eq_zero_iff.mpr ⟨call .pro _, call .app _⟩

/-- Every layout that links with flash sections is mapped, with all calls of the ROM, whose results
the caller does not look at, succeeding. -/
theorem linkedImage_accepted (links : Links config contents)
    (flash : config.appBuildUseFlashSections = true) (rodata : 0 < contents.size .flashRodata)
    (text : 0 < contents.size .flashText) (mmu : FlashMmu) (lawful : mmu.Lawful)
    (accepts : mmu.AcceptsPages config) (tables : MmuTables) :
    (mapRomSegments mmu (imageIrom config contents) (imageDrom config contents) tables).1 = 0 ∧
      (imageIrom config contents).Mapped mmu
        (mapRomSegments mmu (imageIrom config contents) (imageDrom config contents) tables).2 ∧
      (imageDrom config contents).Mapped mmu
        (mapRomSegments mmu (imageIrom config contents) (imageDrom config contents)
          tables).2 := by
  have data : (regionOf config .flashRodata).IsFlash := by
    rw [regionOf_flashRodata, if_pos flash]
    exact Or.inl rfl
  have code : (regionOf config .flashText).IsFlash := by
    rw [regionOf_flashText, if_pos flash]
    exact Or.inr rfl
  have success : (mapRomSegments mmu (imageIrom config contents) (imageDrom config contents)
      tables).1 = 0 :=
    BitVec.or_eq_zero_iff.mpr
      ⟨mapSegment_accepted config contents links mmu accepts .flashRodata rfl rfl data rodata _,
        mapSegment_accepted config contents links mmu accepts .flashText rfl rfl code text _⟩
  exact ⟨success, linkedImage_mapped config contents links flash mmu lawful tables success⟩

end Image

/-- Contents with constant data and code in flash, and some data in the slow memory of the real-time
clock. -/
def flashContents (rtcForceSlow : Nat) : SectionContents where
  size
    | .mcubootHdr => 0x20
    | .espMcubootLoadHdr => 0x20
    | .flashRodata => 0x5004
    | .iram0Vectors => 0x400
    | .iram0Text => 0x1000
    | .rtcForceSlow => rtcForceSlow
    | .flashText => 0x20010
    | _ => 0
  naturalPower _ := 4

/-- The table of the ESP32 has entries for the pages of both flash regions. -/
theorem esp32Mmu_acceptsPages (config : LinkConfig) : esp32Mmu.AcceptsPages config := by
  intro cpu vaddr paddr num tables region vaddrAligned paddrAligned some flash low high _
  have legal : (0x3F40 ≤ vaddr.toNat / mmuBlockSize ∧
        vaddr.toNat / mmuBlockSize + num.toNat ≤ 0x3F80) ∨
      (0x4000 ≤ vaddr.toNat / mmuBlockSize ∧
        vaddr.toNat / mmuBlockSize + num.toNat ≤ 0x40C0) := by
    rcases flash with rfl | rfl <;>
      simp only [LinkConfig.origin, LinkConfig.length, mmuBlockSize] at low high ⊢ <;> omega
  show (esp32CacheFlashMmuSet cpu 0 vaddr paddr 64 num tables).1 = 0
  unfold esp32CacheFlashMmuSet
  rw [if_pos ⟨rfl, Nat.mod_eq_zero_of_dvd vaddrAligned, Nat.mod_eq_zero_of_dvd paddrAligned,
    legal⟩]

theorem linkedImage_accepted_flash :
    (mapRomSegments esp32Mmu (imageIrom defaultLinkConfig (flashContents 0))
      (imageDrom defaultLinkConfig (flashContents 0)) ⟨fun _ _ => none⟩).1 = 0 :=
  (linkedImage_accepted defaultLinkConfig (flashContents 0) (by decide +kernel) rfl (by decide)
    (by decide) esp32Mmu esp32Mmu_lawful (esp32Mmu_acceptsPages _) ⟨fun _ _ => none⟩).1

end McubootPort
