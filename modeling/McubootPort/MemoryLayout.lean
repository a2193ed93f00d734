/-
This file is about what the linker scripts keep apart: the sections in memory,
what the bootloader has reserved, the heap, and the sections in the image.

The two regions of the fast memory of the real-time clock are one memory, seen
over the instruction bus and over the data bus. The linker does not know that.
It is `.rtc.dummy` that makes the sections on the data bus start behind the code
on the instruction bus, and that keeps this code out of the reserved part.
-/

import McubootPort.LinkedImage

namespace McubootPort

open Alignment SectionLayout

/-! ### Memory and buses -/

/-- The memory that an address reaches, named by its address on the data bus: `rtc_iram_seg` is the
block of `rtc_data_seg`. -/
def LinkConfig.memoryCell (config : LinkConfig) (address : Nat) : Nat :=
  if config.origin .rtcIramSeg ≤ address ∧
      address < config.origin .rtcIramSeg + config.length .rtcIramSeg then
    address - config.origin .rtcIramSeg + config.origin .rtcDataSeg
  else address

theorem memoryCell_cases (config : LinkConfig) (address : Nat) :
    (0x400C0000 ≤ address ∧ address < 0x400C2000 ∧
        config.memoryCell address + 0x400C0000 = address + 0x3ff80000) ∨
      ((address < 0x400C0000 ∨ 0x400C2000 ≤ address) ∧ config.memoryCell address = address) := by
  have code : config.origin .rtcIramSeg = 0x400C0000 := rfl
  have size : config.length .rtcIramSeg = 0x2000 := rfl
  have data : config.origin .rtcDataSeg = 0x3ff80000 := rfl
  rw [LinkConfig.memoryCell, code, size, data]
  by_cases fast : 0x400C0000 ≤ address ∧ address < 0x400C0000 + 0x2000
  · rw [if_pos fast]
    omega
  · rw [if_neg fast]
    omega

/-- The memory behind a region: where it starts and ends at most. No section runs in the image. -/
def Region.bank : Region → Nat × Nat
  | .mcubootHdr => (0x0, 0x20)
  | .loaderHdr => (0x20, 0x40)
  | .rom => (0x40, 0x40)
  | .iram0_0Seg => (0x40080000, 0x400A0000)
  | .iram0_2Seg => (0x400D0000, 0x40400000)
  | .dram0_0Seg => (0x3FFB0000, 0x3FFDC200)
  | .drom0_0Seg => (0x3F400000, 0x3F800000)
  | .rtcIramSeg => (0x3ff80000, 0x3ff82000)
  | .rtcDataSeg => (0x3ff80000, 0x3ff82000)
  | .rtcSlowSeg => (0x50000000, 0x50002000)
  | .externRamSeg => (0x3F800000, 0x3FC00000)

/-- The banks of two regions are the same only for one region and for the two views of the fast
memory, and they do not overlap otherwise. -/
theorem bank_apart (first second : Region) :
    first = second ∨ (first = .rtcIramSeg ∧ second = .rtcDataSeg) ∨
      (first = .rtcDataSeg ∧ second = .rtcIramSeg) ∨
      first.bank.2 ≤ second.bank.1 ∨ second.bank.2 ≤ first.bank.1 := by
  cases first <;> cases second <;> decide

section Layout

variable (config : LinkConfig) (contents : SectionContents)

/-- A section has a byte at an address. `.rtc.dummy` only skips addresses. -/
def Occupies (name : SectionName) (address : Nat) : Prop :=
  name ≠ .rtcDummy ∧ addrOf config contents name ≤ address ∧
    address < endOf config contents name

/-- What `. = SIZEOF(.rtc.text)` makes of `.rtc.dummy`. -/
def SkipsRtcText : Prop := contents.size .rtcText ≤ contents.size .rtcDummy

/-- What the options keep free: the start of the data memory for Bluetooth, the start of the slow
memory for the coprocessor, and the end of the fast memory for the bootloader. -/
inductive LinkConfig.Reserved (config : LinkConfig) (cell : Nat) : Prop where
  | bluetooth (low : 0x3FFB0000 ≤ cell) (high : cell < 0x3FFB0000 + config.btReserveDram)
  | coprocessor (low : 0x50000000 ≤ cell) (high : cell < 0x50000000 + config.ulpCoprocReserveMem)
  | bootloader (low : 0x3ff82000 - config.bootloaderReserveRtc ≤ cell) (high : cell < 0x3ff82000)

/-- The image stores a byte of a section at an offset. -/
def Stores (name : SectionName) (offset : Nat) : Prop :=
  isLoaded name = true ∧ loadRegionOf config name = some .rom ∧
    loadAddrOf config contents name ≤ offset ∧
    offset < loadAddrOf config contents name + contents.size name

theorem memoryCell_mem_bank (links : Links config contents) (name : SectionName) (address : Nat)
    (occupies : Occupies config contents name address) :
    (regionOf config name).bank.1 ≤ config.memoryCell address ∧
      config.memoryCell address < (regionOf config name).bank.2 ∧
      (regionOf config name ≠ .rtcIramSeg → config.memoryCell address = address) := by
  obtain ⟨_, low, high⟩ := occupies
  have start := origin_le_addrOf config contents name
  have fits := links.runFits name
  have dram := dram0_0SegLen_le config contents links
  have reserved := config.btReserveDram_le
  change config.btReserveDram ≤ config.dram0_0SegLen at reserved
  have coprocessor := config.ulpCoprocReserveMem_le
  have cell := memoryCell_cases config address
  have notRom := regionOf_ne_rom config name
  generalize regionOf config name = region at start fits notRom
  cases region <;>
    simp only [LinkConfig.origin, LinkConfig.length, Region.bank, ne_eq, reduceCtorEq,
      not_false_eq_true, not_true_eq_false, true_implies, false_implies, and_true]
      at start fits notRom ⊢ <;>
    omega

/-- Of two sections of a script one stands before the other. -/
theorem before_or_before (first second : SectionName) (different : first ≠ second) :
    first ∈ before script second ∨ second ∈ before script first := by
  revert different
  cases first <;> cases second <;> decide

/-- Sections that run in one region share no address. -/
theorem ne_of_same_region (first second : SectionName) (different : first ≠ second)
    (same : regionOf config first = regionOf config second) (address other : Nat)
    (here : Occupies config contents first address)
    (there : Occupies config contents second other) : address ≠ other := by
  obtain ⟨_, low, high⟩ := here
  obtain ⟨_, otherLow, otherHigh⟩ := there
  rcases before_or_before first second different with earlier | later
  · have order := endOf_le_addrOf config contents first second earlier same
    omega
  · have order := endOf_le_addrOf config contents second first later same.symm
    omega

/-! ### The fast memory of the real-time clock -/

/-- Only `.rtc.text` runs in the fast memory on the instruction bus. -/
theorem regionOf_eq_rtcIramSeg (name : SectionName) :
    regionOf config name = .rtcIramSeg ↔ name = .rtcText := by
  constructor
  · cases name <;>
      simp only [regionOf, LinkConfig.defaultRodataSeg, LinkConfig.defaultCodeSeg,
        LinkConfig.rtcDataLocation, reduceCtorEq, false_implies, implies_true] <;>
      split <;> exact fun other => Region.noConfusion other
  · rintro rfl
    rfl

/-- The code in the fast memory starts at its first byte: the next address with an alignment that
moves it is behind the region. -/
theorem addrOf_rtcText (links : Links config contents) :
    addrOf config contents .rtcText = 0x400C0000 := by
  have first : addrOf config contents .rtcText =
      alignUp (2 ^ max (clauseExponent 1) (contents.naturalPower .rtcText)) 0x400C0000 := by
    refine addr_of_first _ _ script SectionName.rtcText fun other earlier => ⟨fun same => ?_, ?_⟩
    · rw [(regionOf_eq_rtcIramSeg config other).mp same] at earlier
      exact absurd earlier (by decide)
    · exact loadRegionOf_ne config other _ Region.noConfusion
  have start := le_alignUp (2 ^ max (clauseExponent 1) (contents.naturalPower .rtcText)) 0x400C0000
    (Nat.two_pow_pos _)
  have fits := links.runFits .rtcText
  change endOf config contents .rtcText ≤ 0x400C0000 + 0x2000 at fits
  rw [endOf, first] at fits
  rw [first]
  by_cases small : max (clauseExponent 1) (contents.naturalPower .rtcText) ≤ 18
  · exact alignUp_of_dvd _ _ (Nat.two_pow_pos _)
      ((Nat.pow_dvd_pow 2 small).trans (by decide : 2 ^ 18 ∣ 0x400C0000))
  · have coarse : 2 ^ 19 ∣ alignUp
        (2 ^ max (clauseExponent 1) (contents.naturalPower .rtcText)) 0x400C0000 :=
      (Nat.pow_dvd_pow 2 (Nat.not_le.mp small)).trans (dvd_alignUp _ _)
    omega

/-- What is in the fast memory on the data bus stands behind `.rtc.dummy`. -/
theorem rtcDummy_before (name : SectionName) (fast : regionOf config name = .rtcDataSeg)
    (noDummy : name ≠ .rtcDummy) : .rtcDummy ∈ before script name := by
  revert fast noDummy
  cases name <;>
    simp only [regionOf, LinkConfig.defaultRodataSeg, LinkConfig.defaultCodeSeg,
      LinkConfig.rtcDataLocation, reduceCtorEq, false_implies]
  all_goals
    first
      | exact fun _ _ => by decide
      | exact fun _ noDummy => absurd rfl noDummy
      | split <;> exact fun other => Region.noConfusion other

theorem rtcText_cell_lt (links : Links config contents) (address : Nat)
    (occupies : Occupies config contents .rtcText address) :
    config.memoryCell address < 0x3ff80000 + contents.size .rtcText := by
  obtain ⟨_, low, high⟩ := occupies
  have start := addrOf_rtcText config contents links
  have cell := memoryCell_cases config address
  have fits := size_le_length config contents links .rtcText
  change contents.size .rtcText ≤ 0x2000 at fits
  rw [endOf, start] at high
  rw [start] at low
  omega

theorem rtcText_le_cell (links : Links config contents) (skips : SkipsRtcText contents)
    (name : SectionName) (fast : regionOf config name = .rtcDataSeg) (address : Nat)
    (occupies : Occupies config contents name address) :
    0x3ff80000 + contents.size .rtcText ≤ config.memoryCell address := by
  obtain ⟨noDummy, low, high⟩ := occupies
  have dummy := origin_le_addrOf config contents .rtcDummy
  have order := endOf_le_addrOf config contents .rtcDummy name
    (rtcDummy_before config name fast noDummy) fast.symm
  have fits := links.runFits name
  have cell := memoryCell_cases config address
  rw [fast] at fits
  change 0x3ff80000 ≤ addrOf config contents .rtcDummy at dummy
  change endOf config contents name ≤ 0x3ff80000 + (0x2000 - config.bootloaderReserveRtc) at fits
  rw [SkipsRtcText] at skips
  rw [endOf] at order
  omega

/-- Two sections share no byte of memory, over whichever bus they run. -/
theorem memoryCell_ne (links : Links config contents) (skips : SkipsRtcText contents)
    (first second : SectionName) (different : first ≠ second) (address other : Nat)
    (here : Occupies config contents first address)
    (there : Occupies config contents second other) :
    config.memoryCell address ≠ config.memoryCell other := by
  obtain ⟨_, _, plain⟩ := memoryCell_mem_bank config contents links first address here
  obtain ⟨_, _, otherPlain⟩ := memoryCell_mem_bank config contents links second other there
  rcases bank_apart (regionOf config first) (regionOf config second) with
    same | ⟨code, data⟩ | ⟨data, code⟩ | apart | apart
  · have bus : regionOf config first ≠ .rtcIramSeg := by
      intro code
      refine different (((regionOf_eq_rtcIramSeg config first).mp code).trans ?_)
      exact ((regionOf_eq_rtcIramSeg config second).mp (same ▸ code)).symm
    rw [plain bus, otherPlain (same ▸ bus)]
    exact ne_of_same_region config contents first second different same address other here there
  · rw [regionOf_eq_rtcIramSeg] at code
    subst code
    have below := rtcText_cell_lt config contents links address here
    have above := rtcText_le_cell config contents links skips second data other there
    omega
  · rw [regionOf_eq_rtcIramSeg] at code
    subst code
    have below := rtcText_cell_lt config contents links other there
    have above := rtcText_le_cell config contents links skips first data address here
    omega
  · omega
  · omega

/-- The regions leave out what is reserved, apart from that of the code in the fast memory. -/
theorem not_reserved_of_region (links : Links config contents) (region : Region)
    (notRom : region ≠ .rom) (notCode : region ≠ .rtcIramSeg) (cell : Nat)
    (low : config.origin region ≤ cell)
    (high : cell < config.origin region + config.length region) : ¬ config.Reserved cell := by
  have dram := dram0_0SegLen_le config contents links
  have bluetooth := config.btReserveDram_le
  change config.btReserveDram ≤ config.dram0_0SegLen at bluetooth
  have bootloader := config.bootloaderReserveRtc_le
  have coprocessor := config.ulpCoprocReserveMem_le
  rintro (⟨above, below⟩ | ⟨above, below⟩ | ⟨above, below⟩) <;> cases region <;>
    simp only [LinkConfig.origin, LinkConfig.length] at low high <;>
    first
      | exact absurd rfl notRom
      | exact absurd rfl notCode
      | omega

/-- No section reaches into what is reserved. The code in the fast memory does not because
`.rtc.dummy` fits `rtc_data_seg`, which ends before the reserved part. -/
theorem not_reserved (links : Links config contents) (skips : SkipsRtcText contents)
    (name : SectionName) (address : Nat) (occupies : Occupies config contents name address) :
    ¬ config.Reserved (config.memoryCell address) := by
  intro reserved
  by_cases code : regionOf config name = .rtcIramSeg
  · rw [regionOf_eq_rtcIramSeg] at code
    subst code
    have below := rtcText_cell_lt config contents links address occupies
    have fits := size_le_length config contents links .rtcDummy
    change contents.size .rtcDummy ≤ 0x2000 - config.bootloaderReserveRtc at fits
    have bank := memoryCell_mem_bank config contents links .rtcText address occupies
    simp only [regionOf, Region.bank] at bank
    rw [SkipsRtcText] at skips
    have part := config.bootloaderReserveRtc_le
    cases reserved with
    | bluetooth low high => omega
    | coprocessor low high => omega
    | bootloader low high => omega
  · have plain := (memoryCell_mem_bank config contents links name address occupies).2.2 code
    have start := origin_le_addrOf config contents name
    have fits := links.runFits name
    obtain ⟨_, low, high⟩ := occupies
    rw [plain] at reserved
    exact not_reserved_of_region config contents links (regionOf config name)
      (regionOf_ne_rom config name) code address (by omega) (by omega) reserved

/-! ### The image and the heap -/

/-- The image stores no byte twice. -/
theorem stores_unique (first second : SectionName) (different : first ≠ second) (offset : Nat)
    (stores : Stores config contents first offset) : ¬ Stores config contents second offset := by
  obtain ⟨loaded, loads, low, high⟩ := stores
  rintro ⟨otherLoaded, otherLoads, otherLow, otherHigh⟩
  rcases before_or_before first second different with earlier | later
  · have order := loadAddrOf_add_size_le config contents first second earlier loaded loads
      otherLoads
    omega
  · have order := loadAddrOf_add_size_le config contents second first later otherLoaded otherLoads
      loads
    omega

/-- The image stores its sections behind the two headers and inside the flash. -/
theorem stores_between (links : Links config contents) (name : SectionName) (offset : Nat)
    (stores : Stores config contents name offset) : 0x40 ≤ offset ∧ offset < config.romSize := by
  obtain ⟨loaded, loads, low, high⟩ := stores
  have place := loadAddr_of_loads (outputSections config contents) config.origin script name .rom
    loads
  have start : 0x40 ≤ loadAddrOf config contents name := by
    rw [loadAddrOf, place]
    exact (le_foldl_advance (outputSections config contents) .rom _ (config.origin .rom)).trans
      (le_loadStart _ name _)
  have fits := links.loadFits name loaded loads
  have header := config.header_le
  change 0x40 ≤ config.romSize at header
  change _ ≤ 0x40 + (config.romSize - 0x40) at fits
  omega

/-- The heap starts behind all sections of the data memory. -/
theorem endOf_le_heapStart (name : SectionName) (ram : regionOf config name = .dram0_0Seg) :
    endOf config contents name ≤ endOf config contents .dram0HeapStart := by
  by_cases same : name = .dram0HeapStart
  · rw [same]
  · have earlier : name ∈ before script .dram0HeapStart := by
      revert same
      cases name <;> decide
    exact (endOf_le_addrOf config contents name .dram0HeapStart earlier ram).trans
      (Nat.le_add_right _ _)

end Layout

/-- Contents with a wake stub, data beside it in the fast memory, and `.rtc.dummy` of some
size. -/
def wakeStubContents (rtcDummy : Nat) : SectionContents where
  size
    | .mcubootHdr => 0x20
    | .espMcubootLoadHdr => 0x20
    | .rtcText => 0x80
    | .rtcDummy => rtcDummy
    | .rtcForceFast => 0x10
    | .flashText => 0x20
    | _ => 0
  naturalPower _ := 2

/-- Without `.rtc.dummy` the layout links all the same, and the data lies on the code. -/
example : Links defaultLinkConfig (wakeStubContents 0) ∧
    Occupies defaultLinkConfig (wakeStubContents 0) .rtcText 0x400C0000 ∧
    Occupies defaultLinkConfig (wakeStubContents 0) .rtcForceFast 0x3ff80000 ∧
    defaultLinkConfig.memoryCell 0x400C0000 = defaultLinkConfig.memoryCell 0x3ff80000 := by
  unfold Occupies
  decide +kernel

end McubootPort
