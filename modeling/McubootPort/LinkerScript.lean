/-
This file models the linker scripts of an application for MCUboot: the memory
map `esp32.mcuboot.ld`, the sections of `esp32.mcuboot.project.ld.in` in their
order, the load header that the second one writes in front of the image, and
what the linker checks before it accepts a layout. The sizes and the natural
alignments of the sections are whatever the application makes of them.
-/

import McubootPort.Library.SectionLayout

namespace McubootPort

open Alignment SectionLayout

/-! ### The memory map -/

/-- The options that the scripts read: `CONFIG_APP_BUILD_USE_FLASH_SECTIONS`,
`CONFIG_ESP32_FIXED_STATIC_RAM_SIZE` if it is used, `CONFIG_FLASH_SIZE` if it is set,
`CONFIG_BT_RESERVE_DRAM`, `ESP_BOOTLOADER_RESERVE_RTC`, `CONFIG_ESP32_ULP_COPROC_RESERVE_MEM` and
`CONFIG_ESP32_RTCDATA_IN_FAST_MEM`. What is reserved of a segment is no more than the segment. -/
structure LinkConfig where
  appBuildUseFlashSections : Bool
  fixedStaticRamSize : Option Nat
  flashSize : Option Nat
  btReserveDram : Nat
  bootloaderReserveRtc : Nat
  ulpCoprocReserveMem : Nat
  rtcdataInFastMem : Bool
  btReserveDram_le : btReserveDram ≤ fixedStaticRamSize.getD 0x2c200
  bootloaderReserveRtc_le : bootloaderReserveRtc ≤ 0x2000
  ulpCoprocReserveMem_le : ulpCoprocReserveMem ≤ 0x2000
  header_le : 0x40 ≤ flashSize.getD 0x400000

inductive Region
  | mcubootHdr
  | loaderHdr
  | rom
  | iram0_0Seg
  | iram0_2Seg
  | dram0_0Seg
  | drom0_0Seg
  | rtcIramSeg
  | rtcDataSeg
  | rtcSlowSeg
  | externRamSeg
deriving DecidableEq

namespace LinkConfig

/-- `DRAM0_0_SEG_LEN`. -/
def dram0_0SegLen (config : LinkConfig) : Nat := config.fixedStaticRamSize.getD 0x2c200

/-- `ROM_SIZE`. -/
def romSize (config : LinkConfig) : Nat := config.flashSize.getD 0x400000

/-- `ORIGIN` of a region. -/
def origin (config : LinkConfig) : Region → Nat
  | .mcubootHdr => 0x0
  | .loaderHdr => 0x20
  | .rom => 0x40
  | .iram0_0Seg => 0x40080000
  | .iram0_2Seg => 0x400D0000
  | .dram0_0Seg => 0x3FFB0000 + config.btReserveDram
  | .drom0_0Seg => 0x3F400000
  | .rtcIramSeg => 0x400C0000
  | .rtcDataSeg => 0x3ff80000
  | .rtcSlowSeg => 0x50000000 + config.ulpCoprocReserveMem
  | .externRamSeg => 0x3F800000

/-- `LENGTH` of a region. -/
def length (config : LinkConfig) : Region → Nat
  | .mcubootHdr => 0x20
  | .loaderHdr => 0x20
  | .rom => config.romSize - 0x40
  | .iram0_0Seg => 0x20000
  | .iram0_2Seg => 0x330000
  | .dram0_0Seg => config.dram0_0SegLen - config.btReserveDram
  | .drom0_0Seg => 0x400000
  | .rtcIramSeg => 0x2000
  | .rtcDataSeg => 0x2000 - config.bootloaderReserveRtc
  | .rtcSlowSeg => 0x2000 - config.ulpCoprocReserveMem
  | .externRamSeg => 0x400000

/-- `rtc_data_location`. -/
def rtcDataLocation (config : LinkConfig) : Region :=
  if config.rtcdataInFastMem then .rtcDataSeg else .rtcSlowSeg

/-- `default_code_seg`. -/
def defaultCodeSeg (config : LinkConfig) : Region :=
  if config.appBuildUseFlashSections then .iram0_2Seg else .iram0_0Seg

/-- `default_rodata_seg`. -/
def defaultRodataSeg (config : LinkConfig) : Region :=
  if config.appBuildUseFlashSections then .drom0_0Seg else .dram0_0Seg

end LinkConfig

/-! ### The sections -/

inductive SectionName
  | mcubootHdr
  | espMcubootLoadHdr
  | flashRodata
  | dram0Data
  | iram0Vectors
  | iram0Text
  | iram0Data
  | iram0Bss
  | rtcText
  | rtcDummy
  | rtcForceFast
  | rtcData
  | rtcBss
  | rtcNoinit
  | rtcForceSlow
  | dram0Bss
  | noinit
  | extRamBss
  | flashText
  | dram0HeapStart
deriving DecidableEq

/-- The sections in the order of the script. -/
def script : List SectionName :=
  [.mcubootHdr, .espMcubootLoadHdr, .flashRodata, .dram0Data, .iram0Vectors, .iram0Text,
    .iram0Data, .iram0Bss, .rtcText, .rtcDummy, .rtcForceFast, .rtcData, .rtcBss, .rtcNoinit,
    .rtcForceSlow, .dram0Bss, .noinit, .extRamBss, .flashText, .dram0HeapStart]

theorem mem_script (name : SectionName) : name ∈ script := by
  cases name <;> decide

/-- Where a section runs (`>`). -/
def regionOf (config : LinkConfig) : SectionName → Region
  | .mcubootHdr => .mcubootHdr
  | .espMcubootLoadHdr => .loaderHdr
  | .flashRodata => config.defaultRodataSeg
  | .dram0Data => .dram0_0Seg
  | .iram0Vectors => .iram0_0Seg
  | .iram0Text => .iram0_0Seg
  | .iram0Data => .iram0_0Seg
  | .iram0Bss => .iram0_0Seg
  | .rtcText => .rtcIramSeg
  | .rtcDummy => .rtcDataSeg
  | .rtcForceFast => .rtcDataSeg
  | .rtcData => config.rtcDataLocation
  | .rtcBss => config.rtcDataLocation
  | .rtcNoinit => config.rtcDataLocation
  | .rtcForceSlow => .rtcSlowSeg
  | .dram0Bss => .dram0_0Seg
  | .noinit => .dram0_0Seg
  | .extRamBss => .externRamSeg
  | .flashText => config.defaultCodeSeg
  | .dram0HeapStart => .dram0_0Seg

/-- Where a section is loaded from: what its `AT>` says, or else what holds for the section before
it if both run in the same region. -/
def loadRegionOf (config : LinkConfig) : SectionName → Option Region
  | .flashRodata => some .rom
  | .dram0Data => some .rom
  | .iram0Vectors => some .rom
  | .iram0Text => some .rom
  | .iram0Data => some .rom
  | .iram0Bss => some .rom
  | .rtcText => some .rom
  | .rtcDummy => some .rom
  | .rtcForceFast => some .rom
  | .rtcData => some .rom
  | .rtcBss => some .rom
  | .rtcNoinit => some .rom
  | .rtcForceSlow => if config.rtcDataLocation = .rtcSlowSeg then some .rom else none
  | .flashText => some .rom
  | _ => none

/-- The `ALIGN` clause of a section; 1 stands for none. -/
def alignClause : SectionName → Nat
  | .flashRodata => 0xFFFF
  | .iram0Vectors => 4
  | .flashText => 0xFFFF
  | _ => 1

/-- Whether a section has no contents to load (`NOLOAD`). -/
def noload : SectionName → Bool
  | .iram0Bss => true
  | .rtcBss => true
  | .rtcNoinit => true
  | .dram0Bss => true
  | .noinit => true
  | .extRamBss => true
  | .dram0HeapStart => true
  | _ => false

/-- Whether a section has contents that the image stores: `.rtc.dummy` is only a gap, and the linker
moves no load address for it. -/
def isLoaded (name : SectionName) : Bool := !noload name && name != .rtcDummy

/-- What an application makes of the sections: their sizes and natural alignments. What it puts into
a section that is loaded are contents to load. The script itself moves on in `.flash.rodata`, so
that it is never empty. -/
structure SectionContents where
  size : SectionName → Nat
  naturalPower : SectionName → Nat

def outputSections (config : LinkConfig) (contents : SectionContents) (name : SectionName) :
    OutputSection Region where
  region := regionOf config name
  loadRegion := loadRegionOf config name
  loaded := isLoaded name
  clausePower := clauseExponent (alignClause name)
  naturalPower := contents.naturalPower name
  size := contents.size name

section Layout

variable (config : LinkConfig) (contents : SectionContents)

/-- `ADDR` of a section. -/
def addrOf (name : SectionName) : Nat :=
  addr (outputSections config contents) config.origin script name

/-- `LOADADDR` of a section. -/
def loadAddrOf (name : SectionName) : Nat :=
  loadAddr (outputSections config contents) config.origin script name

/-- The end of a section. -/
def endOf (name : SectionName) : Nat := addrOf config contents name + contents.size name

/-- Sections that run in one region do not overlap. -/
theorem endOf_le_addrOf (first second : SectionName) (earlier : first ∈ before script second)
    (same : regionOf config first = regionOf config second) :
    endOf config contents first ≤ addrOf config contents second :=
  addr_add_size_le (outputSections config contents) config.origin script first second earlier same

/-! ### The load header -/

/-- A range that the loader copies: from `lma` in the image to `vma`. -/
structure CopyRange where
  vma : Nat
  lma : Nat
  size : Nat
deriving DecidableEq

/-- The IRAM words of `.esp_mcuboot_load_hdr`. -/
def loadHdrIram : CopyRange where
  vma := addrOf config contents .iram0Vectors
  lma := loadAddrOf config contents .iram0Vectors
  size := loadAddrOf config contents .iram0Text + contents.size .iram0Text -
    loadAddrOf config contents .iram0Vectors

/-- The DRAM words of `.esp_mcuboot_load_hdr`. -/
def loadHdrDram : CopyRange where
  vma := addrOf config contents .dram0Data
  lma := loadAddrOf config contents .dram0Data
  size := contents.size .dram0Data

/-! ### What the linker checks -/

/-- `_rtc_slow_length`. -/
def rtcSlowLength : Nat :=
  if config.origin .rtcSlowSeg = config.origin config.rtcDataLocation then
    endOf config contents .rtcForceSlow - addrOf config contents .rtcData
  else endOf config contents .rtcForceSlow - alignUp 4 (addrOf config contents .rtcForceSlow)

/-- `_rtc_fast_length`. -/
def rtcFastLength : Nat :=
  if config.origin .rtcSlowSeg = config.origin config.rtcDataLocation then
    endOf config contents .rtcForceFast - addrOf config contents .rtcDummy
  else endOf config contents .rtcNoinit - addrOf config contents .rtcDummy

/-- A layout that links: no section leaves its region, and the assertions of both scripts hold. -/
structure Links : Prop where
  runFits : ∀ name, endOf config contents name ≤
    config.origin (regionOf config name) + config.length (regionOf config name)
  loadFits : ∀ name, isLoaded name = true → loadRegionOf config name = some .rom →
    loadAddrOf config contents name + contents.size name ≤
      config.origin .rom + config.length .rom
  fixedStaticRam : config.fixedStaticRamSize.getD 0 ≤ 0x2c200
  rtcSlow : rtcSlowLength config contents ≤ config.length .rtcSlowSeg
  rtcFast : rtcFastLength config contents ≤ config.length .rtcDataSeg
  bss : endOf config contents .dram0Bss - config.origin .dram0_0Seg ≤ config.length .dram0_0Seg
  iram : endOf config contents .iram0Bss - config.origin .iram0_0Seg ≤ config.length .iram0_0Seg
  heapStart : endOf config contents .dram0HeapStart - config.origin .dram0_0Seg ≤
    config.length .dram0_0Seg

instance : Decidable (Links config contents) :=
  decidable_of_iff
    ((∀ name ∈ script, endOf config contents name ≤
        config.origin (regionOf config name) + config.length (regionOf config name)) ∧
      (∀ name ∈ script, isLoaded name = true → loadRegionOf config name = some .rom →
        loadAddrOf config contents name + contents.size name ≤
          config.origin .rom + config.length .rom) ∧
      config.fixedStaticRamSize.getD 0 ≤ 0x2c200 ∧
      rtcSlowLength config contents ≤ config.length .rtcSlowSeg ∧
      rtcFastLength config contents ≤ config.length .rtcDataSeg ∧
      endOf config contents .dram0Bss - config.origin .dram0_0Seg ≤ config.length .dram0_0Seg ∧
      endOf config contents .iram0Bss - config.origin .iram0_0Seg ≤ config.length .iram0_0Seg ∧
      endOf config contents .dram0HeapStart - config.origin .dram0_0Seg ≤
        config.length .dram0_0Seg)
    ⟨fun ⟨run, load, fixedStaticRam, rtcSlow, rtcFast, bss, iram, heapStart⟩ =>
      ⟨fun name => run name (mem_script name), fun name => load name (mem_script name),
        fixedStaticRam, rtcSlow, rtcFast, bss, iram, heapStart⟩,
    fun links => ⟨fun name _ => links.runFits name, fun name _ => links.loadFits name,
      links.fixedStaticRam, links.rtcSlow, links.rtcFast, links.bss, links.iram,
      links.heapStart⟩⟩

end Layout

end McubootPort
