/-
This file is about the two ranges of RAM that the load header asks the loader to
copy.

They describe the RAM image exactly when nothing comes behind `.iram0.text` and
nothing is lost between it and the vectors: the size word of the IRAM range ends
with `.iram0.text`, and a gap that its alignment opens in IRAM is not in the
image. They leave the loader alone exactly when the IRAM range ends below the
loader's segment, of which the application's linker script knows nothing.
-/

import McubootPort.LinkerScript

namespace McubootPort

open Alignment SectionLayout

section Header

variable (config : LinkConfig) (contents : SectionContents)

/-- The ranges that the loader copies. -/
def loadHdrRanges : List CopyRange :=
  [loadHdrIram config contents, loadHdrDram config contents]

/-- A section that has contents to load, runs in IRAM or DRAM and is stored in the image. -/
def LoadedToRam (name : SectionName) : Prop :=
  noload name = false ∧ loadRegionOf config name = some .rom ∧
    (regionOf config name = .iram0_0Seg ∨ regionOf config name = .dram0_0Seg)

/-- The copy of a range puts the byte at `lma` of the image to `vma`. -/
def CopyRange.Puts (range : CopyRange) (lma vma : Nat) : Prop :=
  range.lma ≤ lma ∧ lma < range.lma + range.size ∧ range.vma + (lma - range.lma) = vma

/-- The header describes the whole RAM image: every byte that is to be loaded to RAM is in a range
whose copy puts it where it runs. -/
def DescribesRamImage : Prop :=
  ∀ name, LoadedToRam config name → ∀ offset, offset < contents.size name →
    ∃ range ∈ loadHdrRanges config contents,
      range.Puts (loadAddrOf config contents name + offset) (addrOf config contents name + offset)

/-! ### The sections of the header -/

theorem clauseExponent_one : clauseExponent 1 = 0 := by decide +kernel

theorem clauseExponent_four : clauseExponent 4 = 2 := by decide +kernel

/-- No section runs from the image. -/
theorem regionOf_ne_rom (name : SectionName) : regionOf config name ≠ .rom := by
  cases name <;>
    simp only [regionOf, LinkConfig.defaultRodataSeg, LinkConfig.defaultCodeSeg,
      LinkConfig.rtcDataLocation] <;>
    (try split) <;> exact Region.noConfusion

/-- No section is loaded from elsewhere than the image. -/
theorem loadRegionOf_ne (name : SectionName) (region : Region) (memory : region ≠ .rom) :
    loadRegionOf config name ≠ some region := by
  intro loads
  refine memory ?_
  cases name <;>
    simp only [loadRegionOf, reduceCtorEq, Option.some.injEq, Option.ite_none_right_eq_some]
      at loads <;>
    first
      | exact loads.symm
      | exact loads.2.symm

/-- The constant data runs in flash, or in DRAM if there are no flash sections. -/
theorem regionOf_flashRodata :
    regionOf config .flashRodata = if config.appBuildUseFlashSections then .drom0_0Seg
      else .dram0_0Seg := rfl

theorem regionOf_flashText :
    regionOf config .flashText = if config.appBuildUseFlashSections then .iram0_2Seg
      else .iram0_0Seg := rfl

/-- Real-time clock memory is not RAM of the image. -/
theorem rtcDataLocation_ne : config.rtcDataLocation ≠ .iram0_0Seg ∧
    config.rtcDataLocation ≠ .dram0_0Seg := by
  rw [LinkConfig.rtcDataLocation]
  split <;> exact ⟨Region.noConfusion, Region.noConfusion⟩

/-- The sections that are loaded to RAM. -/
theorem loadedToRam_cases (name : SectionName) (loaded : LoadedToRam config name) :
    name = .dram0Data ∨ name = .iram0Vectors ∨ name = .iram0Text ∨ name = .iram0Data ∨
      (config.appBuildUseFlashSections = false ∧ (name = .flashRodata ∨ name = .flashText)) := by
  obtain ⟨contained, stored, inRam⟩ := loaded
  have rtc := rtcDataLocation_ne config
  cases name <;> simp [noload, loadRegionOf, regionOf, rtc, LinkConfig.defaultRodataSeg,
    LinkConfig.defaultCodeSeg] at contained stored inRam ⊢
  · cases flash : config.appBuildUseFlashSections
    · rfl
    · rw [flash] at inRam
      exact absurd inRam (by decide)
  · cases flash : config.appBuildUseFlashSections
    · rfl
    · rw [flash] at inRam
      exact absurd inRam (by decide)

/-- Where the vectors run. -/
theorem addrOf_iram0Vectors :
    addrOf config contents .iram0Vectors =
      alignUp (2 ^ max 2 (contents.naturalPower .iram0Vectors)) 0x40080000 := by
  rw [← clauseExponent_four]
  refine addr_of_first _ _ script SectionName.iram0Vectors fun other earlier => ?_
  have names : before script SectionName.iram0Vectors =
      [.mcubootHdr, .espMcubootLoadHdr, .flashRodata, .dram0Data] := rfl
  rw [names] at earlier
  have elsewhere : regionOf config .flashRodata ≠ .iram0_0Seg := by
    rw [regionOf_flashRodata]
    split <;> exact Region.noConfusion
  simp only [List.mem_cons, List.not_mem_nil, or_false] at earlier
  refine ⟨?_, loadRegionOf_ne config other _ Region.noConfusion⟩
  rcases earlier with rfl | rfl | rfl | rfl
  · exact Region.noConfusion
  · exact Region.noConfusion
  · exact elsewhere
  · exact Region.noConfusion

/-- The code follows the vectors, rounded up to its own alignment. -/
theorem addrOf_iram0Text :
    addrOf config contents .iram0Text = alignUp (2 ^ contents.naturalPower .iram0Text)
      (addrOf config contents .iram0Vectors + contents.size .iram0Vectors) := by
  rw [← Nat.zero_max (contents.naturalPower .iram0Text), ← clauseExponent_one]
  exact addr_of_next (outputSections config contents) config.origin script .iram0Vectors
    .iram0Text rfl rfl

/-- In the image the code follows the vectors without a gap. -/
theorem loadAddrOf_iram0Text :
    loadAddrOf config contents .iram0Text =
      loadAddrOf config contents .iram0Vectors + contents.size .iram0Vectors :=
  (loadAddr_of_next (outputSections config contents) _ script SectionName.iram0Vectors .iram0Text
    .rom rfl (regionOf_ne_rom config .iram0Vectors) rfl rfl rfl).trans
      (loadStart_of_clausePower _ _ _ clauseExponent_one)

theorem loadAddrOf_iram0Data :
    loadAddrOf config contents .iram0Data =
      loadAddrOf config contents .iram0Text + contents.size .iram0Text :=
  (loadAddr_of_next (outputSections config contents) _ script SectionName.iram0Text .iram0Data
    .rom rfl (regionOf_ne_rom config .iram0Text) rfl rfl rfl).trans
      (loadStart_of_clausePower _ _ _ clauseExponent_one)

/-- Sections of the image do not overlap in it. -/
theorem loadAddrOf_add_size_le (first second : SectionName)
    (earlier : first ∈ before script second) (loaded : isLoaded first = true)
    (firstLoads : loadRegionOf config first = some .rom)
    (secondLoads : loadRegionOf config second = some .rom) :
    loadAddrOf config contents first + contents.size first ≤ loadAddrOf config contents second :=
  loadAddr_add_size_le (outputSections config contents) _ script first second .rom earlier
    (regionOf_ne_rom config first) loaded firstLoads secondLoads

/-- The size word of the IRAM range. -/
theorem loadHdrIram_size :
    (loadHdrIram config contents).size =
      contents.size .iram0Vectors + contents.size .iram0Text := by
  rw [loadHdrIram]
  simp only [loadAddrOf_iram0Text]
  omega

/-! ### The RAM image -/

/-- The bytes at an address of the image that a section before the DRAM range, or behind the IRAM
range, has there are in no range. -/
theorem not_puts_of_outside (lma vma : Nat)
    (outside : lma < loadAddrOf config contents .dram0Data ∨
      loadAddrOf config contents .iram0Data ≤ lma)
    (range : CopyRange) (member : range ∈ loadHdrRanges config contents) :
    ¬ range.Puts lma vma := by
  rintro ⟨low, high, _⟩
  have order := loadAddrOf_add_size_le config contents .dram0Data .iram0Vectors (by decide) rfl rfl
    rfl
  have text := loadAddrOf_iram0Text config contents
  have data := loadAddrOf_iram0Data config contents
  have size := loadHdrIram_size config contents
  rcases List.mem_cons.mp member with rfl | second
  · rw [size] at high
    change loadAddrOf config contents .iram0Vectors ≤ lma at low
    change lma < loadAddrOf config contents .iram0Vectors + _ at high
    omega
  · rw [List.mem_singleton.mp second] at low high
    change loadAddrOf config contents .dram0Data ≤ lma at low
    change lma < loadAddrOf config contents .dram0Data + contents.size .dram0Data at high
    omega

/-- A section outside the ranges is described only if it is empty. -/
theorem empty_of_describes (describes : DescribesRamImage config contents) (name : SectionName)
    (loaded : LoadedToRam config name)
    (outside : loadAddrOf config contents name + contents.size name ≤
        loadAddrOf config contents .dram0Data ∨
      loadAddrOf config contents .iram0Data ≤ loadAddrOf config contents name) :
    contents.size name = 0 := by
  by_contra some
  obtain ⟨range, member, puts⟩ := describes name loaded 0 (Nat.pos_of_ne_zero some)
  exact not_puts_of_outside config contents _ _ (by omega) range member puts

/-- The code is described only if it is empty or follows the vectors without a gap. -/
theorem text_of_describes (describes : DescribesRamImage config contents)
    (some : contents.size .iram0Text ≠ 0) :
    addrOf config contents .iram0Text =
      addrOf config contents .iram0Vectors + contents.size .iram0Vectors := by
  obtain ⟨range, member, low, high, same⟩ :=
    describes .iram0Text ⟨rfl, rfl, Or.inl rfl⟩ 0 (Nat.pos_of_ne_zero some)
  have order := loadAddrOf_add_size_le config contents .dram0Data .iram0Vectors (by decide) rfl rfl
    rfl
  have text := loadAddrOf_iram0Text config contents
  rcases List.mem_cons.mp member with rfl | second
  · change addrOf config contents .iram0Vectors + (loadAddrOf config contents .iram0Text + 0 -
      loadAddrOf config contents .iram0Vectors) = _ at same
    omega
  · rw [List.mem_singleton.mp second] at high
    change _ < loadAddrOf config contents .dram0Data + contents.size .dram0Data at high
    omega

theorem puts_dram0Data (offset : Nat) (inside : offset < contents.size .dram0Data) :
    (loadHdrDram config contents).Puts (loadAddrOf config contents .dram0Data + offset)
      (addrOf config contents .dram0Data + offset) := by
  refine ⟨Nat.le_add_right _ _, Nat.add_lt_add_left inside _, ?_⟩
  show addrOf config contents .dram0Data + (loadAddrOf config contents .dram0Data + offset -
    loadAddrOf config contents .dram0Data) = _
  rw [Nat.add_sub_cancel_left]

theorem puts_iram0Vectors (offset : Nat) (inside : offset < contents.size .iram0Vectors) :
    (loadHdrIram config contents).Puts (loadAddrOf config contents .iram0Vectors + offset)
      (addrOf config contents .iram0Vectors + offset) := by
  refine ⟨Nat.le_add_right _ _, ?_, ?_⟩
  · rw [loadHdrIram_size]
    exact Nat.add_lt_add_left (Nat.lt_add_right _ inside) _
  · show addrOf config contents .iram0Vectors + (loadAddrOf config contents .iram0Vectors +
      offset - loadAddrOf config contents .iram0Vectors) = _
    rw [Nat.add_sub_cancel_left]

/-- The code is put where it runs if it follows the vectors without a gap. -/
theorem puts_iram0Text (next : addrOf config contents .iram0Text =
      addrOf config contents .iram0Vectors + contents.size .iram0Vectors)
    (offset : Nat) (inside : offset < contents.size .iram0Text) :
    (loadHdrIram config contents).Puts (loadAddrOf config contents .iram0Text + offset)
      (addrOf config contents .iram0Text + offset) := by
  rw [loadAddrOf_iram0Text, next]
  refine ⟨?_, ?_, ?_⟩
  · show loadAddrOf config contents .iram0Vectors ≤ _
    omega
  · rw [loadHdrIram_size]
    show _ < loadAddrOf config contents .iram0Vectors + _
    omega
  · show addrOf config contents .iram0Vectors + (loadAddrOf config contents .iram0Vectors +
      contents.size .iram0Vectors + offset - loadAddrOf config contents .iram0Vectors) = _
    omega

/-- The header describes the whole RAM image exactly when there is no `.iram0.data`, the code needs
no padding behind the vectors, and, if flash sections are not used, there is neither constant data
nor code outside the RAM sections. -/
theorem loadHdr_describesRamImage_iff :
    DescribesRamImage config contents ↔
      contents.size .iram0Data = 0 ∧
      (contents.size .iram0Text = 0 ∨ 2 ^ contents.naturalPower .iram0Text ∣
        alignUp (2 ^ max 2 (contents.naturalPower .iram0Vectors)) 0x40080000 +
          contents.size .iram0Vectors) ∧
      (config.appBuildUseFlashSections = true ∨
        (contents.size .flashRodata = 0 ∧ contents.size .flashText = 0)) := by
  rw [← addrOf_iram0Vectors config contents,
    ← alignUp_eq_self_iff _ _ (Nat.two_pow_pos _), ← addrOf_iram0Text]
  constructor
  · intro describes
    refine ⟨empty_of_describes config contents describes .iram0Data ⟨rfl, rfl, Or.inl rfl⟩
      (Or.inr (Nat.le_refl _)), ?_, ?_⟩
    · by_cases none : contents.size .iram0Text = 0
      · exact Or.inl none
      · exact Or.inr (text_of_describes config contents describes none)
    · by_cases flash : config.appBuildUseFlashSections = true
      · exact Or.inl flash
      · have rodata : regionOf config .flashRodata = .dram0_0Seg := by
          rw [regionOf_flashRodata, if_neg flash]
        have text : regionOf config .flashText = .iram0_0Seg := by
          rw [regionOf_flashText, if_neg flash]
        refine Or.inr ⟨empty_of_describes config contents describes .flashRodata
          ⟨rfl, rfl, Or.inr rodata⟩ (Or.inl ?_), empty_of_describes config contents describes
          .flashText ⟨rfl, rfl, Or.inl text⟩ (Or.inr ?_)⟩
        · exact loadAddrOf_add_size_le config contents _ _ (by decide) rfl rfl rfl
        · exact (Nat.le_add_right _ _).trans
            (loadAddrOf_add_size_le config contents _ _ (by decide) rfl rfl rfl)
  · rintro ⟨noData, text, flash⟩ name loaded offset inside
    have some : contents.size name ≠ 0 := Nat.ne_of_gt (Nat.zero_lt_of_lt inside)
    rcases loadedToRam_cases config name loaded with rfl | rfl | rfl | rfl | ⟨unused, rfl | rfl⟩
    · exact ⟨_, List.mem_cons_of_mem _ (List.mem_singleton_self _),
        puts_dram0Data config contents offset inside⟩
    · exact ⟨_, List.mem_cons_self, puts_iram0Vectors config contents offset inside⟩
    · have next := text.resolve_left some
      exact ⟨_, List.mem_cons_self, puts_iram0Text config contents next offset inside⟩
    · exact absurd noData some
    · rw [unused] at flash
      exact absurd (flash.resolve_left Bool.noConfusion).1 some
    · rw [unused] at flash
      exact absurd (flash.resolve_left Bool.noConfusion).2 some

end Header

/-- The default options, with flash sections. -/
def defaultLinkConfig : LinkConfig where
  appBuildUseFlashSections := true
  fixedStaticRamSize := none
  flashSize := none
  btReserveDram := 0
  bootloaderReserveRtc := 0
  ulpCoprocReserveMem := 0
  rtcdataInFastMem := false
  btReserveDram_le := Nat.zero_le _
  bootloaderReserveRtc_le := Nat.zero_le _
  ulpCoprocReserveMem_le := Nat.zero_le _
  header_le := by decide

/-- Contents with some code and data in IRAM, aligned to words. -/
def iramContents (text data : Nat) : SectionContents where
  size
    | .mcubootHdr => 0x20
    | .espMcubootLoadHdr => 0x20
    | .iram0Vectors => 0x400
    | .iram0Text => text
    | .iram0Data => data
    | .flashText => 0x10
    | _ => 0
  naturalPower _ := 2

/-- Four bytes of `.iram0.data` are not copied. -/
theorem loadHdr_misses_iram0Data :
    ¬ DescribesRamImage defaultLinkConfig (iramContents 0x100 4) := by
  intro describes
  have empty := empty_of_describes defaultLinkConfig (iramContents 0x100 4) describes .iram0Data
    ⟨rfl, rfl, Or.inl rfl⟩ (Or.inr (Nat.le_refl _))
  exact absurd empty (by decide)

/-! ### The loader -/

/-- A region of the bootloader's linker script. -/
structure BootloaderSegment where
  org : Nat
  len : Nat

def iramLoaderSeg : BootloaderSegment where
  org := 0x4009D000
  len := 0x3000

def dramSeg : BootloaderSegment where
  org := 0x3FFF4000
  len := 0xC000

/-- The copy of a range writes nothing in a segment. -/
def CopyRange.Misses (range : CopyRange) (segment : BootloaderSegment) : Prop :=
  ∀ address, range.vma ≤ address → address < range.vma + range.size →
    ¬ (segment.org ≤ address ∧ address < segment.org + segment.len)

section Loader

variable (config : LinkConfig) (contents : SectionContents)

/-- The copy of the ranges leaves the loader and its data alone. -/
def KeepsLoader : Prop :=
  ∀ range ∈ loadHdrRanges config contents, range.Misses iramLoaderSeg ∧ range.Misses dramSeg

/-- In a layout that links the vectors are at the start of IRAM. -/
theorem addrOf_iram0Vectors_of_links (links : Links config contents) :
    addrOf config contents .iram0Vectors = 0x40080000 := by
  have fits := links.runFits .iram0Vectors
  rw [endOf] at fits
  change _ + _ ≤ 0x40080000 + 0x20000 at fits
  rw [addrOf_iram0Vectors] at fits ⊢
  by_cases coarse : 20 ≤ max 2 (contents.naturalPower .iram0Vectors)
  · have above := le_alignUp (2 ^ max 2 (contents.naturalPower .iram0Vectors)) 0x40080000
      (Nat.two_pow_pos _)
    obtain ⟨count, multiple⟩ := (Nat.pow_dvd_pow 2 coarse).trans
      (dvd_alignUp (2 ^ max 2 (contents.naturalPower .iram0Vectors)) 0x40080000)
    omega
  · refine alignUp_of_dvd _ _ (Nat.two_pow_pos _) ?_
    exact (Nat.pow_dvd_pow 2 (show _ ≤ 19 by omega)).trans (by decide)

/-- The DRAM range of a layout that links is below the bootloader's data. -/
theorem loadHdrDram_misses (links : Links config contents) (segment : BootloaderSegment)
    (above : 0x3FFDC200 ≤ segment.org) : (loadHdrDram config contents).Misses segment := by
  intro address _ high inside
  have fits := links.runFits .dram0Data
  have reserved := config.btReserveDram_le
  have bound : config.fixedStaticRamSize.getD 0x2c200 ≤ 0x2c200 := by
    have asserted := links.fixedStaticRam
    cases size : config.fixedStaticRamSize with
    | none => exact Nat.le_refl _
    | some size' => rwa [size] at asserted
  change addrOf config contents .dram0Data + contents.size .dram0Data ≤ 0x3FFB0000 +
    config.btReserveDram + (config.fixedStaticRamSize.getD 0x2c200 - config.btReserveDram) at fits
  change address < addrOf config contents .dram0Data + contents.size .dram0Data at high
  omega

/-- The loader is never overwritten by a layout that links exactly when the vectors and the code
end below its segment. -/
theorem loadHdr_keepsLoader_iff (links : Links config contents) :
    KeepsLoader config contents ↔
      contents.size .iram0Vectors + contents.size .iram0Text ≤ 0x1D000 := by
  have start := addrOf_iram0Vectors_of_links config contents links
  have size := loadHdrIram_size config contents
  have vma : (loadHdrIram config contents).vma = 0x40080000 := start
  constructor
  · intro keeps
    by_contra long
    refine (keeps _ List.mem_cons_self).1 0x4009D000 (by omega) ?_ ⟨Nat.le_refl _, by decide⟩
    rw [vma, size]
    omega
  · intro short range member
    rcases List.mem_cons.mp member with rfl | second
    · refine ⟨fun address low high inside => ?_, fun address low high inside => ?_⟩
      · rw [vma, size] at high
        have above : 0x4009D000 ≤ address := inside.1
        omega
      · rw [vma] at low
        have below : address < 0x3FFF4000 + 0xC000 := inside.2
        omega
    · rw [List.mem_singleton.mp second]
      exact ⟨loadHdrDram_misses config contents links iramLoaderSeg (by decide),
        loadHdrDram_misses config contents links dramSeg (by decide)⟩

end Loader

/-- An application with 4 KB of code in IRAM. -/
theorem loadHdr_keepsLoader_small : KeepsLoader defaultLinkConfig (iramContents 0x1000 0) :=
  (loadHdr_keepsLoader_iff defaultLinkConfig (iramContents 0x1000 0) (by decide +kernel)).mpr
    (by decide)

/-- An application with 120 KB of vectors and code links, and its copy writes to the loader. -/
theorem loadHdr_overwritesLoader :
    Links defaultLinkConfig (iramContents 0x1DC00 0) ∧
      ¬ KeepsLoader defaultLinkConfig (iramContents 0x1DC00 0) := by
  refine ⟨by decide +kernel, fun keeps => ?_⟩
  exact (keeps _ List.mem_cons_self).1 0x4009D000 (by decide +kernel) (by decide +kernel)
    ⟨Nat.le_refl _, by decide⟩

end McubootPort
