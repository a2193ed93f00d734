/-
This file models the patched `flash_area_write` from the point where the patch
sets in: a source that is not aligned to words is staged through `align_buf`,
when it fits, and refused when it does not.

The lines before that are a parameter. For four bytes or more they leave the
source and the length as they are, so that a call either programs exactly the
bytes of its source or nothing, and a source that is staged is written as an
aligned copy of it would be.
-/

import McubootPort.FlashAreaRead

namespace McubootPort

open ByteMemory FlashMemory

/-! ### The function -/

/-- The arguments of a call of `bootloader_flash_write`. -/
structure FlashWriteRequest where
  destAddr : BitVec 32
  src : Nat
  size : BitVec 32
  writeEncrypted : Bool
deriving DecidableEq

/-- `bootloader_flash_write` on the bytes at its source: whether it returns `ESP_OK`, and the
flash after it. -/
abbrev BootloaderFlashWrite := FlashWriteRequest → List UInt8 → Flash → Bool × Flash

/-- What the lines before the patch leave: `start_addr`, `write_ptr` and `write_len`. -/
structure WriteStart where
  startAddr : BitVec 32
  writePtr : Nat
  writeLen : BitVec 32
deriving DecidableEq

/-- The lines of `flash_area_write` before the patch, or nothing where they return -1. -/
abbrev WriteLines := FlashArea → BitVec 32 → Nat → BitVec 32 → Option WriteStart

/-- A call that has returned, with the addresses that were loaded from, by the call itself or by
the driver. -/
structure FlashWritten where
  result : Int
  flash : Flash
  memory : Memory
  loaded : List Nat

/-- The addresses of some bytes. -/
def addresses (start count : Nat) : List Nat := (List.range count).map (start + ·)

/-- The call of the driver at the end of `flash_area_write`. -/
def programFlash (bootloaderFlashWrite : BootloaderFlashWrite) (start : WriteStart)
    (memory : Memory) (loaded : List Nat) (flash : Flash) : FlashWritten :=
  let request : FlashWriteRequest :=
    { destAddr := start.startAddr, src := start.writePtr, size := start.writeLen,
      writeEncrypted := false }
  let (ok, after) :=
    bootloaderFlashWrite request (memory.loadBytes request.src request.size.toNat) flash
  { result := if ok then 0 else -1
    flash := after
    memory
    loaded := loaded ++ addresses request.src request.size.toNat }

/-- The patched `flash_area_write`, with `align_buf` at the address `alignBuf`. -/
def flashAreaWrite (writeLines : WriteLines) (bootloaderFlashWrite : BootloaderFlashWrite)
    (alignBuf : Nat) (fa : FlashArea) (off : BitVec 32) (src : Nat) (len : BitVec 32)
    (memory : Memory) (flash : Flash) : FlashWritten :=
  match writeLines fa off src len with
  | none => { result := -1, flash, memory, loaded := [] }
  | some start =>
    if start.writePtr % 4 ≠ 0 then
      if start.writeLen.toNat ≤ alignBufSize then
        programFlash bootloaderFlashWrite { start with writePtr := alignBuf }
          (memory.storeBytes alignBuf (memory.loadBytes src start.writeLen.toNat))
          (addresses src start.writeLen.toNat) flash
      else { result := -1, flash, memory, loaded := [] }
    else programFlash bootloaderFlashWrite start memory [] flash

/-- A call that returns before it calls the driver: in the lines before the patch, or because its
source would have to be staged and does not fit. -/
def WriteReturns (writeLines : WriteLines) (fa : FlashArea) (off : BitVec 32) (src : Nat)
    (len : BitVec 32) : Prop :=
  writeLines fa off src len = none ∨ (src % 4 ≠ 0 ∧ alignBufSize < len.toNat)

instance (writeLines : WriteLines) (fa : FlashArea) (off : BitVec 32) (src : Nat)
    (len : BitVec 32) : Decidable (WriteReturns writeLines fa off src len) :=
  inferInstanceAs (Decidable (_ ∨ _))

/-- `write_ptr`, as the driver is given it. -/
def writePtr (alignBuf src : Nat) : Nat := if src % 4 ≠ 0 then alignBuf else src

/-! ### What is assumed -/

/-- From four bytes on, the lines before the patch return or not, whatever the source, and leave
the arguments as they are. -/
def PlainFromFour (writeLines : WriteLines) : Prop :=
  ∀ fa off len, 4 ≤ len.toNat →
    (∀ src, writeLines fa off src len = some ⟨fa.faOff + off, src, len⟩) ∨
      ∀ src, writeLines fa off src len = none

/-- Address, source and size are multiples of four. -/
def FlashWriteRequest.Aligned (request : FlashWriteRequest) : Prop :=
  request.destAddr % 4 = 0 ∧ request.src % 4 = 0 ∧ request.size % 4 = 0

/-- What is assumed of `bootloader_flash_write`: it fails without effect when the request is not
aligned, it programs exactly the given bytes or fails without effect when it is, and of an aligned
source it sees the bytes alone. -/
structure FlashWriteDriver (bootloaderFlashWrite : BootloaderFlashWrite) : Prop where
  refuses : ∀ request bytes flash, ¬ request.Aligned →
    bootloaderFlashWrite request bytes flash = (false, flash)
  programs : ∀ request bytes flash, request.Aligned →
    bootloaderFlashWrite request bytes flash = (true, program flash request.destAddr bytes) ∨
      bootloaderFlashWrite request bytes flash = (false, flash)
  source : ∀ request bytes flash other, request.src % 4 = 0 → other % 4 = 0 →
    bootloaderFlashWrite { request with src := other } bytes flash =
      bootloaderFlashWrite request bytes flash

/-- Exactly the given bytes were programmed. -/
structure Programmed (before after : Flash) (start : BitVec 32) (bytes : List UInt8) : Prop where
  written : slice after start bytes.length = bytes
  kept : ∀ address, bytes.length ≤ (address - start).toNat → after address = before address

/-- All or nothing: the bytes were programmed and 0 returned, or the flash is as it was and -1
returned. -/
def AllOrNothing (before : Flash) (start : BitVec 32) (bytes : List UInt8)
    (outcome : FlashWritten) : Prop :=
  (outcome.result = 0 ∧ Programmed before outcome.flash start bytes) ∨
    (outcome.result = -1 ∧ outcome.flash = before)

theorem programmed_program (flash : Flash) (start : BitVec 32) (bytes : List UInt8)
    (fits : bytes.length ≤ 2 ^ 32) : Programmed flash (program flash start bytes) start bytes where
  written := slice_program flash start bytes fits
  kept address outside := program_of_outside flash start address bytes outside

theorem mem_addresses (start count address : Nat) :
    address ∈ addresses start count ↔ start ≤ address ∧ address < start + count := by
  simp only [addresses, List.mem_map, List.mem_range]
  constructor
  · rintro ⟨index, inside, rfl⟩
    omega
  · rintro ⟨low, high⟩
    exact ⟨address - start, by omega, by omega⟩

/-! ### One call of the driver -/

section Program

variable {bootloaderFlashWrite : BootloaderFlashWrite} (start : WriteStart) (memory : Memory)
  (loaded : List Nat) (flash : Flash)

theorem programFlash_allOrNothing (driver : FlashWriteDriver bootloaderFlashWrite) :
    AllOrNothing flash start.startAddr
      (memory.loadBytes start.writePtr start.writeLen.toNat)
      (programFlash bootloaderFlashWrite start memory loaded flash) := by
  have bound := start.writeLen.isLt
  by_cases aligned : FlashWriteRequest.Aligned
      ⟨start.startAddr, start.writePtr, start.writeLen, false⟩
  · rcases driver.programs _ (memory.loadBytes start.writePtr start.writeLen.toNat) flash
      aligned with programs | fails
    · refine Or.inl ⟨?_, ?_⟩
      · simp only [programFlash, programs, if_true]
      · simp only [programFlash, programs]
        exact programmed_program flash _ _ (by rw [Memory.loadBytes_length]; omega)
    · exact Or.inr (by simp [programFlash, fails])
  · have fails := driver.refuses _ (memory.loadBytes start.writePtr start.writeLen.toNat) flash
      aligned
    exact Or.inr (by simp [programFlash, fails])

/-- Calls that differ in an aligned source with the same bytes have the same outcome. -/
theorem programFlash_source (driver : FlashWriteDriver bootloaderFlashWrite) (other : Nat)
    (otherMemory : Memory) (others : List Nat) (aligned : start.writePtr % 4 = 0)
    (otherAligned : other % 4 = 0)
    (same : otherMemory.loadBytes other start.writeLen.toNat =
      memory.loadBytes start.writePtr start.writeLen.toNat) :
    (programFlash bootloaderFlashWrite { start with writePtr := other } otherMemory others
        flash).result = (programFlash bootloaderFlashWrite start memory loaded flash).result ∧
      (programFlash bootloaderFlashWrite { start with writePtr := other } otherMemory others
        flash).flash = (programFlash bootloaderFlashWrite start memory loaded flash).flash := by
  have calls := driver.source ⟨start.startAddr, start.writePtr, start.writeLen, false⟩
    (memory.loadBytes start.writePtr start.writeLen.toNat) flash other aligned otherAligned
  simp only at calls
  simp only [programFlash, same, calls, and_self]

end Program

/-! ### One call -/

section Write

variable {writeLines : WriteLines} (bootloaderFlashWrite : BootloaderFlashWrite)
  (alignBuf : Nat) (fa : FlashArea) (off : BitVec 32) (src : Nat) (len : BitVec 32)
  (memory : Memory) (flash : Flash)

theorem flashAreaWrite_none (returns : writeLines fa off src len = none) :
    flashAreaWrite writeLines bootloaderFlashWrite alignBuf fa off src len memory flash =
      { result := -1, flash, memory, loaded := [] } := by
  rw [flashAreaWrite, returns]

theorem flashAreaWrite_direct
    (goes : writeLines fa off src len = some ⟨fa.faOff + off, src, len⟩) (aligned : src % 4 = 0) :
    flashAreaWrite writeLines bootloaderFlashWrite alignBuf fa off src len memory flash =
      programFlash bootloaderFlashWrite ⟨fa.faOff + off, src, len⟩ memory [] flash := by
  rw [flashAreaWrite, goes]
  exact if_neg (not_not.mpr aligned)

theorem flashAreaWrite_staged
    (goes : writeLines fa off src len = some ⟨fa.faOff + off, src, len⟩) (odd : src % 4 ≠ 0)
    (short : len.toNat ≤ alignBufSize) :
    flashAreaWrite writeLines bootloaderFlashWrite alignBuf fa off src len memory flash =
      programFlash bootloaderFlashWrite ⟨fa.faOff + off, alignBuf, len⟩
        (memory.storeBytes alignBuf (memory.loadBytes src len.toNat)) (addresses src len.toNat)
        flash := by
  rw [flashAreaWrite, goes]
  exact (if_pos odd).trans (if_pos short)

theorem flashAreaWrite_long
    (goes : writeLines fa off src len = some ⟨fa.faOff + off, src, len⟩) (odd : src % 4 ≠ 0)
    (long : alignBufSize < len.toNat) :
    flashAreaWrite writeLines bootloaderFlashWrite alignBuf fa off src len memory flash =
      { result := -1, flash, memory, loaded := [] } := by
  rw [flashAreaWrite, goes]
  exact (if_pos odd).trans (if_neg (Nat.not_le.mpr long))

/-- The staged bytes are those of the source. -/
theorem loadBytes_staged (memory : Memory) (alignBuf src count : Nat) :
    (memory.storeBytes alignBuf (memory.loadBytes src count)).loadBytes alignBuf count =
      memory.loadBytes src count := by
  have loaded := Memory.loadBytes_storeBytes memory alignBuf (memory.loadBytes src count)
  rwa [Memory.loadBytes_length] at loaded

/-- Everything that a call can do: it returns before the driver, or calls it with the bytes of its
source, which may have been copied into the buffer. -/
theorem flashAreaWrite_cases (plain : PlainFromFour writeLines) (four : 4 ≤ len.toNat) :
    (WriteReturns writeLines fa off src len ∧
        flashAreaWrite writeLines bootloaderFlashWrite alignBuf fa off src len memory flash =
          { result := -1, flash, memory, loaded := [] }) ∨
      (¬ WriteReturns writeLines fa off src len ∧ ∃ staged loaded,
        flashAreaWrite writeLines bootloaderFlashWrite alignBuf fa off src len memory flash =
          programFlash bootloaderFlashWrite ⟨fa.faOff + off, writePtr alignBuf src, len⟩ staged
            loaded flash ∧
        staged.loadBytes (writePtr alignBuf src) len.toNat = memory.loadBytes src len.toNat ∧
        ∀ address, (address < alignBuf ∨ alignBuf + alignBufSize ≤ address) →
          staged.byte address = memory.byte address) := by
  rcases plain fa off len four with goes | returns
  · have some : writeLines fa off src len ≠ none := by
      rw [goes src]
      exact Option.some_ne_none _
    by_cases aligned : src % 4 = 0
    · refine Or.inr ⟨fun returns => returns.elim some fun long => long.1 aligned, memory, [], ?_⟩
      rw [writePtr, if_neg (not_not.mpr aligned)]
      exact ⟨flashAreaWrite_direct _ _ _ _ _ _ _ _ (goes src) aligned, rfl, fun _ _ => rfl⟩
    · by_cases short : len.toNat ≤ alignBufSize
      · refine Or.inr ⟨fun returns => returns.elim some fun long => absurd long.2 (by omega),
          memory.storeBytes alignBuf (memory.loadBytes src len.toNat), addresses src len.toNat, ?_⟩
        rw [writePtr, if_pos aligned]
        refine ⟨flashAreaWrite_staged _ _ _ _ _ _ _ _ (goes src) aligned short,
          loadBytes_staged memory alignBuf src len.toNat, fun address outside => ?_⟩
        refine Memory.storeBytes_byte_of_outside _ _ _ _ ?_
        rw [Memory.loadBytes_length]
        omega
      · have long := Nat.not_le.mp short
        exact Or.inl ⟨Or.inr ⟨aligned, long⟩,
          flashAreaWrite_long _ _ _ _ _ _ _ _ (goes src) aligned long⟩
  · exact Or.inl ⟨Or.inl (returns src), flashAreaWrite_none _ _ _ _ _ _ _ _ (returns src)⟩

/-- A call succeeds exactly when it comes to the driver, and the driver programs. -/
theorem flashAreaWrite_succeeds_iff (plain : PlainFromFour writeLines) (four : 4 ≤ len.toNat) :
    (flashAreaWrite writeLines bootloaderFlashWrite alignBuf fa off src len memory flash).result =
        0 ↔
      ¬ WriteReturns writeLines fa off src len ∧
        (bootloaderFlashWrite ⟨fa.faOff + off, writePtr alignBuf src, len, false⟩
          (memory.loadBytes src len.toNat) flash).1 = true := by
  rcases flashAreaWrite_cases bootloaderFlashWrite alignBuf fa off src len memory flash plain four
    with ⟨returns, runs⟩ | ⟨goes, staged, loaded, runs, same, _⟩
  · rw [runs]
    exact iff_of_false (by simp) fun both => both.1 returns
  · rw [runs, and_iff_right goes]
    simp only [programFlash, same]
    split
    · rename_i programs
      exact iff_of_true rfl programs
    · rename_i fails
      exact iff_of_false (by decide) fails

/-- A call keeps to the bytes of its source and to the staging buffer. -/
def Confined (alignBuf src : Nat) (len : BitVec 32) (outcome : FlashWritten) : Prop :=
  (∀ address ∈ outcome.loaded, (src ≤ address ∧ address < src + len.toNat) ∨
      (alignBuf ≤ address ∧ address < alignBuf + alignBufSize)) ∧
    outcome.memory.StoresWithin alignBuf alignBufSize

theorem flashAreaWrite_confined (plain : PlainFromFour writeLines) (four : 4 ≤ len.toNat)
    (byte : Nat → UInt8) :
    Confined alignBuf src len (flashAreaWrite writeLines bootloaderFlashWrite alignBuf fa off src
      len (Memory.fresh byte) flash) := by
  have nothing : Confined alignBuf src len
      { result := -1, flash, memory := Memory.fresh byte, loaded := [] } :=
    ⟨fun _ member => (List.not_mem_nil member).elim,
      fun _ member => (List.not_mem_nil member).elim⟩
  rcases plain fa off len four with goes | returns
  · by_cases aligned : src % 4 = 0
    · rw [flashAreaWrite_direct _ _ _ _ _ _ _ _ (goes src) aligned]
      refine ⟨fun address member => Or.inl ?_, fun _ member => by cases member⟩
      exact (mem_addresses src len.toNat address).mp member
    · by_cases short : len.toNat ≤ alignBufSize
      · rw [flashAreaWrite_staged _ _ _ _ _ _ _ _ (goes src) aligned short]
        refine ⟨fun address member => ?_, ?_⟩
        · rcases List.mem_append.mp member with copied | driver
          · exact Or.inl ((mem_addresses src len.toNat address).mp copied)
          · have range := (mem_addresses alignBuf len.toNat address).mp driver
            exact Or.inr ⟨range.1, by omega⟩
        · refine Memory.storesWithin_storeBytes _ _ _ _ _ (fun _ member => by cases member)
            (Nat.le_refl _) ?_
          rw [Memory.loadBytes_length]
          omega
      · rw [flashAreaWrite_long _ _ _ _ _ _ _ _ (goes src) aligned (Nat.not_le.mp short)]
        exact nothing
  · rw [flashAreaWrite_none _ _ _ _ _ _ _ _ (returns src)]
    exact nothing

theorem flashAreaWrite_programs (plain : PlainFromFour writeLines)
    (driver : FlashWriteDriver bootloaderFlashWrite) (four : 4 ≤ len.toNat) :
    AllOrNothing flash (fa.faOff + off) (memory.loadBytes src len.toNat)
      (flashAreaWrite writeLines bootloaderFlashWrite alignBuf fa off src len memory flash) := by
  rcases flashAreaWrite_cases bootloaderFlashWrite alignBuf fa off src len memory flash plain four
    with ⟨_, runs⟩ | ⟨_, staged, loaded, runs, same, _⟩
  · rw [runs]
    exact Or.inr ⟨rfl, rfl⟩
  · rw [runs, ← same]
    exact programFlash_allOrNothing ⟨fa.faOff + off, writePtr alignBuf src, len⟩ staged loaded
      flash driver

/-- A source that is staged is written as an aligned copy of it. -/
theorem flashAreaWrite_copy (plain : PlainFromFour writeLines)
    (driver : FlashWriteDriver bootloaderFlashWrite) (bufAligned : alignBuf % 4 = 0)
    (four : 4 ≤ len.toNat) (odd : src % 4 ≠ 0) (short : len.toNat ≤ alignBufSize) (copy : Nat)
    (copyMemory : Memory) (aligned : copy % 4 = 0)
    (same : copyMemory.loadBytes copy len.toNat = memory.loadBytes src len.toNat) :
    (flashAreaWrite writeLines bootloaderFlashWrite alignBuf fa off src len memory flash).result =
        (flashAreaWrite writeLines bootloaderFlashWrite alignBuf fa off copy len copyMemory
          flash).result ∧
      (flashAreaWrite writeLines bootloaderFlashWrite alignBuf fa off src len memory flash).flash =
        (flashAreaWrite writeLines bootloaderFlashWrite alignBuf fa off copy len copyMemory
          flash).flash := by
  rcases plain fa off len four with goes | returns
  · rw [flashAreaWrite_staged _ _ _ _ _ _ _ _ (goes src) odd short,
      flashAreaWrite_direct _ _ _ _ _ _ _ _ (goes copy) aligned]
    refine programFlash_source ⟨fa.faOff + off, copy, len⟩ copyMemory [] flash driver alignBuf _ _
      aligned bufAligned ?_
    rw [loadBytes_staged, same]
  · rw [flashAreaWrite_none _ _ _ _ _ _ _ _ (returns src),
      flashAreaWrite_none _ _ _ _ _ _ _ _ (returns copy)]
    exact ⟨rfl, rfl⟩

/-- A source that would have to be staged and does not fit is refused. -/
theorem flashAreaWrite_refuses (plain : PlainFromFour writeLines) (four : 4 ≤ len.toNat)
    (odd : src % 4 ≠ 0) (long : alignBufSize < len.toNat) :
    (flashAreaWrite writeLines bootloaderFlashWrite alignBuf fa off src len memory flash).result =
        -1 ∧
      (flashAreaWrite writeLines bootloaderFlashWrite alignBuf fa off src len memory flash).flash =
        flash := by
  rcases plain fa off len four with goes | returns
  · rw [flashAreaWrite_long _ _ _ _ _ _ _ _ (goes src) odd long]
    exact ⟨rfl, rfl⟩
  · rw [flashAreaWrite_none _ _ _ _ _ _ _ _ (returns src)]
    exact ⟨rfl, rfl⟩

end Write

/-- A write of four bytes or more programs exactly the bytes of its source and returns 0, or
nothing and returns -1. It keeps to its source and to the staging buffer. A source that is not
aligned is written as an aligned copy of it up to the size of the buffer, and refused beyond. The
call succeeds whenever it comes to the driver and the driver programs. -/
theorem flashAreaWrite_allOrNothing (writeLines : WriteLines) (plain : PlainFromFour writeLines)
    (bootloaderFlashWrite : BootloaderFlashWrite) (driver : FlashWriteDriver bootloaderFlashWrite)
    (alignBuf : Nat) (bufAligned : alignBuf % 4 = 0) (fa : FlashArea) (off len : BitVec 32)
    (four : 4 ≤ len.toNat) (src : Nat) (byte : Nat → UInt8) (flash : Flash) :
    let write := fun src byte => flashAreaWrite writeLines bootloaderFlashWrite alignBuf fa off src
      len (Memory.fresh byte) flash
    let bytes := fun src byte => (Memory.fresh byte).loadBytes src len.toNat
    AllOrNothing flash (fa.faOff + off) (bytes src byte) (write src byte) ∧
      Confined alignBuf src len (write src byte) ∧
      (src % 4 ≠ 0 → len.toNat ≤ 512 → ∀ copy copyByte, copy % 4 = 0 →
        bytes copy copyByte = bytes src byte →
        (write src byte).result = (write copy copyByte).result ∧
          (write src byte).flash = (write copy copyByte).flash) ∧
      (src % 4 ≠ 0 → 512 < len.toNat →
        (write src byte).result = -1 ∧ (write src byte).flash = flash) ∧
      ((write src byte).result = 0 ↔ ¬ WriteReturns writeLines fa off src len ∧
        (bootloaderFlashWrite ⟨fa.faOff + off, writePtr alignBuf src, len, false⟩ (bytes src byte)
          flash).1 = true) := by
  refine ⟨flashAreaWrite_programs _ _ _ _ _ _ _ _ plain driver four,
    flashAreaWrite_confined _ _ _ _ _ _ _ plain four byte, ?_, ?_,
    flashAreaWrite_succeeds_iff _ _ _ _ _ _ _ _ plain four⟩
  · intro odd short copy copyByte aligned same
    exact flashAreaWrite_copy _ _ _ _ _ _ _ _ plain driver bufAligned four odd short copy _
      aligned same
  · exact flashAreaWrite_refuses _ _ _ _ _ _ _ _ plain four

/-- A driver that programs every aligned request. -/
def wordFlashWrite : BootloaderFlashWrite := fun request bytes flash =>
  if request.destAddr % 4 = 0 ∧ request.src % 4 = 0 ∧ request.size % 4 = 0 then
    (true, program flash request.destAddr bytes)
  else (false, flash)

theorem wordFlashWrite_driver : FlashWriteDriver wordFlashWrite where
  refuses request bytes flash odd := by
    rw [FlashWriteRequest.Aligned] at odd
    rw [wordFlashWrite, if_neg odd]
  programs request bytes flash aligned := by
    rw [FlashWriteRequest.Aligned] at aligned
    rw [wordFlashWrite, if_pos aligned]
    exact Or.inl rfl
  source request bytes flash other aligned otherAligned := by
    simp only [wordFlashWrite, aligned, otherAligned]

/-- Eight bytes from an unaligned source, into the primary slot: they are programmed. -/
theorem flashAreaWrite_allOrNothing_eight :
    let outcome := flashAreaWrite (fun fa off src len => some ⟨fa.faOff + off, src, len⟩)
      wordFlashWrite 0x3FFC0000 primarySlot 0x10 0x3FFB0001 8
      (Memory.fresh fun address => UInt8.ofNat address) fun _ => 0xFF
    AllOrNothing (fun _ => 0xFF) (primarySlot.faOff + 0x10)
        ((Memory.fresh fun address => UInt8.ofNat address).loadBytes 0x3FFB0001 8) outcome ∧
      outcome.result = 0 := by
  have write := flashAreaWrite_allOrNothing
    (fun fa off src len => some ⟨fa.faOff + off, src, len⟩) (fun _ _ _ _ => Or.inl fun _ => rfl)
    wordFlashWrite wordFlashWrite_driver 0x3FFC0000 (by decide) primarySlot 0x10 8 (by decide)
    0x3FFB0001 (fun address => UInt8.ofNat address) fun _ => 0xFF
  exact ⟨write.1, write.2.2.2.2.mpr ⟨by decide, by decide⟩⟩

end McubootPort
