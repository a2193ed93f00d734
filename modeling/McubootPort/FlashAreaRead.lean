/-
This file compares the two paths of the patched `flash_area_read`: the direct one
and the one that is staged through `align_buf`.

Over a driver that moves whole words between word addresses, a read that starts
at a word of the area succeeds on either path, delivers the bytes of the flash
and writes nothing else that the caller can see. The rounded length stays inside
the area, because the area itself is made of whole words.
-/

import McubootPort.FlashArea
import McubootPort.Library.FlashMemory

namespace McubootPort

open Alignment ByteMemory FlashMemory

/-- The flash as a memory of bytes with 32-bit addresses. -/
abbrev Flash := BitVec 32 → UInt8

/-- Address, destination and size are multiples of four. -/
def FlashReadRequest.Aligned (request : FlashReadRequest) : Prop :=
  request.srcAddr % 4 = 0 ∧ request.dest % 4 = 0 ∧ request.size % 4 = 0

/-- What is assumed of `bootloader_flash_read`: it refuses a request that is not aligned, copies
exactly the requested bytes of one that is, and stores no more than the request in any case. -/
structure FlashReadDriver (flash : Flash) (bootloaderFlashRead : BootloaderFlashRead) : Prop where
  refuses : ∀ request, ¬ request.Aligned → (bootloaderFlashRead request).1 = false
  copies : ∀ request, request.Aligned →
    bootloaderFlashRead request = (true, slice flash request.srcAddr request.size.toNat)
  storesAtMost : StoresAtMost bootloaderFlashRead

/-- An address of an area. -/
def FlashArea.Contains (fa : FlashArea) (address : BitVec 32) : Prop :=
  (address - fa.faOff).toNat < fa.faSize.toNat

/-- The caller's bytes: neither in the destination nor in the staging buffer. -/
def Elsewhere (alignBuf dst : Nat) (len : BitVec 32) (address : Nat) : Prop :=
  (address < dst ∨ dst + len.toNat ≤ address) ∧
    (address < alignBuf ∨ alignBuf + alignBufSize ≤ address)

/-- What a read inside an area is to do when the driver takes it: return 0, deliver the bytes of
the flash, leave the caller's other bytes alone and ask for nothing outside the area. -/
structure Delivers (flash : Flash) (alignBuf : Nat) (fa : FlashArea) (off : BitVec 32)
    (dst : Nat) (len : BitVec 32) (memory : Memory)
    (outcome : Int × Memory × List FlashReadRequest) : Prop where
  result : outcome.1 = 0
  bytes : outcome.2.1.loadBytes dst len.toNat = slice flash (fa.faOff + off) len.toNat
  elsewhere : ∀ address, Elsewhere alignBuf dst len address →
    outcome.2.1.byte address = memory.byte address
  inArea : ∀ request ∈ outcome.2.2, ∀ index, index < request.size.toNat →
    fa.Contains (request.srcAddr + BitVec.ofNat 32 index)

/-- The conditions of a read: the destination is not the staging buffer, and the rounded length
fits the buffer when the read is staged. -/
structure Destination (alignBuf dst : Nat) (len : BitVec 32) : Prop where
  apart : dst + len.toNat ≤ alignBuf ∨ alignBuf + alignBufSize ≤ dst
  short : Staged dst len → alignUp 4 len.toNat ≤ alignBufSize

/-- An area of whole words on the internal flash. -/
structure FlashArea.Words (fa : FlashArea) : Prop where
  internal : fa.faDeviceId = flashDeviceInternalFlash
  start : fa.faOff % 4 = 0
  size : fa.faSize % 4 = 0

theorem mod_four_eq_zero_iff (word : BitVec 32) : word % 4 = 0 ↔ word.toNat % 4 = 0 := by
  rw [← BitVec.toNat_inj, BitVec.toNat_umod]
  rfl

/-! ### One call -/

section Call

variable (bootloaderFlashRead : BootloaderFlashRead) (alignBuf : Nat) (fa : FlashArea)
  (off : BitVec 32) (dst : Nat) (len : BitVec 32)

/-- The memory after the driver was called. -/
def driverStores (memory : Memory) : Memory :=
  memory.storeBytes (readPtr alignBuf dst len)
    (bootloaderFlashRead (readRequest alignBuf fa off dst len)).2

/-- A read that the driver refuses. -/
theorem flashAreaRead_of_refused (internal : fa.faDeviceId = flashDeviceInternalFlash)
    (inside : off.toNat + len.toNat ≤ fa.faSize.toNat) (memory : Memory)
    (refused : (bootloaderFlashRead (readRequest alignBuf fa off dst len)).1 = false) :
    flashAreaRead bootloaderFlashRead alignBuf fa off dst len memory =
      (-1, driverStores bootloaderFlashRead alignBuf fa off dst len memory,
        [readRequest alignBuf fa off dst len]) := by
  rw [flashAreaRead, if_neg (not_not.mpr internal), if_neg (endOffset_toNat fa off len inside)]
  exact if_pos (congrArg (! ·) refused)

/-- A read that the driver takes. -/
theorem flashAreaRead_of_taken (internal : fa.faDeviceId = flashDeviceInternalFlash)
    (inside : off.toNat + len.toNat ≤ fa.faSize.toNat) (memory : Memory)
    (taken : (bootloaderFlashRead (readRequest alignBuf fa off dst len)).1 = true) :
    flashAreaRead bootloaderFlashRead alignBuf fa off dst len memory =
      if dst ≠ readPtr alignBuf dst len then
        (0, (driverStores bootloaderFlashRead alignBuf fa off dst len memory).storeBytes dst
          ((driverStores bootloaderFlashRead alignBuf fa off dst len memory).loadBytes
            (readPtr alignBuf dst len) len.toNat), [readRequest alignBuf fa off dst len])
      else (0, driverStores bootloaderFlashRead alignBuf fa off dst len memory,
        [readRequest alignBuf fa off dst len]) := by
  rw [flashAreaRead, if_neg (not_not.mpr internal), if_neg (endOffset_toNat fa off len inside)]
  exact if_neg fun refused =>
    absurd (taken.symm.trans ((Bool.not_eq_true' _).mp refused)) (by decide)

/-- The rounded length, where nothing wraps. -/
theorem readLen_toNat_eq (short : len.toNat + 3 < 2 ^ 32) :
    (readLen len).toNat = alignUp 4 len.toNat := by
  rw [readLen_toNat, Nat.mod_eq_of_lt short]
  rfl

/-- A length that is asked for inside an area of whole words is rounded inside the area. -/
theorem readLen_inside (size : fa.faSize % 4 = 0)
    (inside : off.toNat + len.toNat ≤ fa.faSize.toNat) (word : off % 4 = 0) :
    (readLen len).toNat = alignUp 4 len.toNat ∧
      off.toNat + alignUp 4 len.toNat ≤ fa.faSize.toNat := by
  have bound := fa.faSize.isLt
  rw [mod_four_eq_zero_iff] at size word
  have below : off.toNat + alignUp 4 len.toNat ≤ fa.faSize.toNat := by
    rw [alignUp]
    omega
  refine ⟨readLen_toNat_eq len ?_, below⟩
  have above := le_alignUp 4 len.toNat (by decide)
  omega

/-- What the driver is asked for is in the area, in spite of the rounding. -/
theorem readRequest_inArea (size : fa.faSize % 4 = 0)
    (inside : off.toNat + len.toNat ≤ fa.faSize.toNat) (word : off % 4 = 0) (index : Nat)
    (asked : index < (readRequest alignBuf fa off dst len).size.toNat) :
    fa.Contains ((readRequest alignBuf fa off dst len).srcAddr + BitVec.ofNat 32 index) := by
  have bound := fa.faSize.isLt
  obtain ⟨rounded, below⟩ := readLen_inside fa off len size inside word
  have first : index < (readLen len).toNat := asked
  have offset : fa.faOff + off + BitVec.ofNat 32 index - fa.faOff =
      off + BitVec.ofNat 32 index := by
    rw [BitVec.add_assoc, BitVec.add_comm fa.faOff, BitVec.add_sub_cancel]
  show (fa.faOff + off + BitVec.ofNat 32 index - fa.faOff).toNat < fa.faSize.toNat
  rw [offset, BitVec.toNat_add, BitVec.toNat_ofNat]
  omega

theorem readPtr_mod_four (bufAligned : alignBuf % 4 = 0) : readPtr alignBuf dst len % 4 = 0 := by
  rw [readPtr]
  by_cases staged : Staged dst len
  · rw [if_pos staged]
    exact bufAligned
  · rw [if_neg staged]
    rw [Staged, not_or, not_not, not_not] at staged
    exact staged.1

/-- The driver is asked for whole words into an aligned buffer, and at an aligned address exactly
when the offset is a word of the area. -/
theorem readRequest_aligned_iff (bufAligned : alignBuf % 4 = 0) (words : fa.Words) :
    (readRequest alignBuf fa off dst len).Aligned ↔ off % 4 = 0 := by
  have start := words.start
  have buffer := readPtr_mod_four alignBuf dst len bufAligned
  have size : readLen len % 4 = 0 := by
    rw [mod_four_eq_zero_iff, readLen_toNat]
    omega
  have address : (fa.faOff + off) % 4 = 0 ↔ off % 4 = 0 := by
    rw [mod_four_eq_zero_iff] at start ⊢
    rw [mod_four_eq_zero_iff, BitVec.toNat_add]
    omega
  exact ⟨fun aligned => address.mp aligned.1, fun word => ⟨address.mpr word, buffer, size⟩⟩

end Call

/-! ### Both paths -/

section Paths

variable {flash : Flash} {bootloaderFlashRead : BootloaderFlashRead} {alignBuf : Nat}
  {fa : FlashArea} {off : BitVec 32} {dst : Nat} {len : BitVec 32}

/-- The direct path stores the flash bytes at the destination. -/
theorem direct_bytes (direct : ¬ Staged dst len) (memory : Memory) (answer : Bool × List UInt8)
    (taken : answer = (true, slice flash (fa.faOff + off) (readLen len).toNat)) :
    (memory.storeBytes (readPtr alignBuf dst len) answer.2).loadBytes dst len.toNat =
        slice flash (fa.faOff + off) len.toNat ∧
      ∀ address, Elsewhere alignBuf dst len address →
        (memory.storeBytes (readPtr alignBuf dst len) answer.2).byte address =
          memory.byte address := by
  have whole : readLen len = len := if_neg fun odd => direct (Or.inr odd)
  rw [readPtr, if_neg direct, taken, whole]
  constructor
  · have loaded := Memory.loadBytes_storeBytes memory dst (slice flash (fa.faOff + off) len.toNat)
    rwa [length_slice] at loaded
  · intro address elsewhere
    refine Memory.storeBytes_byte_of_outside _ _ _ _ ?_
    rw [length_slice]
    exact elsewhere.1

/-- The staged path copies as many bytes as were asked for out of the buffer. -/
theorem staged_bytes (staged : Staged dst len) (destination : Destination alignBuf dst len)
    (memory : Memory) (answer : Bool × List UInt8)
    (size : (readLen len).toNat = alignUp 4 len.toNat)
    (taken : answer = (true, slice flash (fa.faOff + off) (readLen len).toNat)) :
    (memory.storeBytes (readPtr alignBuf dst len) answer.2).loadBytes (readPtr alignBuf dst len)
          len.toNat = slice flash (fa.faOff + off) len.toNat ∧
      ∀ address, Elsewhere alignBuf dst len address →
        (memory.storeBytes (readPtr alignBuf dst len) answer.2).byte address =
          memory.byte address := by
  have above := le_alignUp 4 len.toNat (by decide)
  have fits := destination.short staged
  rw [readPtr, if_pos staged, taken]
  constructor
  · rw [Memory.loadBytes_storeBytes_take _ _ _ _ (by rw [length_slice]; omega),
      take_slice _ _ _ _ (by omega)]
  · intro address elsewhere
    refine Memory.storeBytes_byte_of_outside _ _ _ _ ?_
    have outside := elsewhere.2
    rw [length_slice]
    omega

/-- A read at a word of the area delivers, on either path. -/
theorem flashAreaRead_delivers (driver : FlashReadDriver flash bootloaderFlashRead)
    (bufAligned : alignBuf % 4 = 0) (words : fa.Words)
    (inside : off.toNat + len.toNat ≤ fa.faSize.toNat)
    (destination : Destination alignBuf dst len) (word : off % 4 = 0) (memory : Memory) :
    Delivers flash alignBuf fa off dst len memory
      (flashAreaRead bootloaderFlashRead alignBuf fa off dst len memory) := by
  have taken := driver.copies _
    ((readRequest_aligned_iff alignBuf fa off dst len bufAligned words).mpr word)
  obtain ⟨size, _⟩ := readLen_inside fa off len words.size inside word
  have ask : ∀ request ∈ [readRequest alignBuf fa off dst len], ∀ index,
      index < request.size.toNat → fa.Contains (request.srcAddr + BitVec.ofNat 32 index) := by
    intro request member index asked
    rw [List.mem_singleton.mp member] at asked ⊢
    exact readRequest_inArea alignBuf fa off dst len words.size inside word index asked
  rw [flashAreaRead_of_taken _ _ _ _ _ _ words.internal inside memory (congrArg Prod.fst taken)]
  by_cases staged : Staged dst len
  · obtain ⟨loaded, kept⟩ := staged_bytes staged destination memory _ size taken
    by_cases other : dst ≠ readPtr alignBuf dst len
    · rw [if_pos other]
      refine ⟨rfl, ?_, ?_, ask⟩
      · have copied := Memory.loadBytes_storeBytes
          (driverStores bootloaderFlashRead alignBuf fa off dst len memory) dst
          (slice flash (fa.faOff + off) len.toNat)
        rw [length_slice] at copied
        rw [← copied, driverStores, loaded]
      · intro address elsewhere
        rw [← kept address elsewhere, driverStores]
        refine Memory.storeBytes_byte_of_outside _ _ _ _ ?_
        rw [Memory.loadBytes_length]
        exact elsewhere.1
    · rw [if_neg other]
      refine ⟨rfl, ?_, kept, ask⟩
      rw [not_not] at other
      rw [← loaded, driverStores, ← other]
  · obtain ⟨loaded, kept⟩ := direct_bytes staged memory _ taken
    have same : readPtr alignBuf dst len = dst := if_neg staged
    rw [if_neg (by rw [same]; exact not_not.mpr rfl)]
    exact ⟨rfl, loaded, kept, ask⟩

/-- A refused read returns -1, and when it is staged the destination is as it was. -/
theorem flashAreaRead_refuses (refusing : BootloaderFlashRead) (most : StoresAtMost refusing)
    (words : fa.Words) (inside : off.toNat + len.toNat ≤ fa.faSize.toNat)
    (destination : Destination alignBuf dst len)
    (refused : (refusing (readRequest alignBuf fa off dst len)).1 = false) (memory : Memory) :
    (flashAreaRead refusing alignBuf fa off dst len memory).1 = -1 ∧
      (Staged dst len →
        (flashAreaRead refusing alignBuf fa off dst len memory).2.1.loadBytes dst len.toNat =
          memory.loadBytes dst len.toNat) := by
  rw [flashAreaRead_of_refused _ _ _ _ _ _ words.internal inside memory refused]
  refine ⟨rfl, fun staged => ?_⟩
  have stored := most (readRequest alignBuf fa off dst len)
  have fits := destination.short staged
  have above := le_alignUp 4 len.toNat (by decide)
  have asked : (readRequest alignBuf fa off dst len).size.toNat ≤ alignBufSize := by
    refine le_trans (le_of_eq (readLen_toNat_eq len ?_)) fits
    rw [alignBufSize] at fits
    omega
  show (driverStores refusing alignBuf fa off dst len memory).loadBytes dst len.toNat = _
  rw [driverStores, readPtr, if_pos staged]
  refine Memory.loadBytes_storeBytes_of_disjoint _ _ _ _ _ ?_
  have apart := destination.apart
  omega

end Paths

/-- The staged and the direct path agree, for an area of whole words on the internal flash and a
driver of whole words. A read at a word of the area delivers the flash bytes and touches nothing
else; a read that a driver refuses, for whatever reason, returns -1 and leaves the destination
alone when it is staged; and the destination makes no difference to the outcome. -/
theorem flashAreaRead_agrees (flash : Flash) (bootloaderFlashRead : BootloaderFlashRead)
    (driver : FlashReadDriver flash bootloaderFlashRead) (alignBuf : Nat)
    (bufAligned : alignBuf % 4 = 0) (fa : FlashArea) (words : fa.Words) (off len : BitVec 32)
    (inside : off.toNat + len.toNat ≤ fa.faSize.toNat) (dst : Nat)
    (destination : Destination alignBuf dst len) (memory : Memory) :
    (off % 4 = 0 → Delivers flash alignBuf fa off dst len memory
        (flashAreaRead bootloaderFlashRead alignBuf fa off dst len memory)) ∧
      (∀ refusing, StoresAtMost refusing →
        (refusing (readRequest alignBuf fa off dst len)).1 = false →
        (flashAreaRead refusing alignBuf fa off dst len memory).1 = -1 ∧
          (Staged dst len →
            (flashAreaRead refusing alignBuf fa off dst len memory).2.1.loadBytes dst len.toNat =
              memory.loadBytes dst len.toNat)) ∧
      ∀ other, Destination alignBuf other len →
        (flashAreaRead bootloaderFlashRead alignBuf fa off other len memory).1 =
            (flashAreaRead bootloaderFlashRead alignBuf fa off dst len memory).1 ∧
          ((flashAreaRead bootloaderFlashRead alignBuf fa off dst len memory).1 = 0 →
            (flashAreaRead bootloaderFlashRead alignBuf fa off other len memory).2.1.loadBytes
                other len.toNat =
              (flashAreaRead bootloaderFlashRead alignBuf fa off dst len memory).2.1.loadBytes
                dst len.toNat) := by
  have delivers (place : Nat) (good : Destination alignBuf place len) (word : off % 4 = 0) :=
    flashAreaRead_delivers driver bufAligned words inside good word memory
  have refuses (place : Nat) (good : Destination alignBuf place len) (odd : ¬ off % 4 = 0) :=
    (flashAreaRead_refuses bootloaderFlashRead driver.storesAtMost words inside good
      (driver.refuses _ ((readRequest_aligned_iff alignBuf fa off place len bufAligned
        words).not.mpr odd)) memory).1
  refine ⟨delivers dst destination, fun refusing most refused =>
    flashAreaRead_refuses refusing most words inside destination refused memory,
    fun other good => ?_⟩
  by_cases word : off % 4 = 0
  · have first := delivers dst destination word
    have second := delivers other good word
    exact ⟨second.result.trans first.result.symm, fun _ => second.bytes.trans first.bytes.symm⟩
  · have first := refuses dst destination word
    refine ⟨(refuses other good word).trans first.symm, fun zero => ?_⟩
    rw [first] at zero
    cases zero

/-- The driver over some flash contents is such a driver. -/
theorem wordFlashRead_driver (flash : Flash) :
    FlashReadDriver flash (wordFlashRead fun address => flash (BitVec.ofNat 32 address)) where
  refuses request odd := by
    rw [FlashReadRequest.Aligned] at odd
    rw [wordFlashRead, if_neg odd]
  copies request aligned := by
    rw [FlashReadRequest.Aligned] at aligned
    rw [wordFlashRead, if_pos aligned, slice]
    simp only [BitVec.ofNat_add, BitVec.ofNat_toNat, BitVec.setWidth_eq]
  storesAtMost := wordFlashRead_storesAtMost _

/-- An image header of 33 bytes, read to an unaligned and to an aligned destination. -/
theorem flashAreaRead_agrees_header :
    (flashAreaRead (wordFlashRead fun address => UInt8.ofNat (address % 2 ^ 32)) 0x3FFC0000
      primarySlot 0x100 0x3FFB0001 33 (Memory.fresh fun _ => 0)).1 =
    (flashAreaRead (wordFlashRead fun address => UInt8.ofNat (address % 2 ^ 32)) 0x3FFC0000
      primarySlot 0x100 0x3FFB0000 33 (Memory.fresh fun _ => 0)).1 :=
  ((flashAreaRead_agrees (fun address => UInt8.ofNat address.toNat)
    (wordFlashRead fun address => UInt8.ofNat (address % 2 ^ 32))
    (wordFlashRead_driver fun address => UInt8.ofNat address.toNat) 0x3FFC0000 (by decide)
    primarySlot ⟨rfl, by decide, by decide⟩ 0x100 33 (by decide) 0x3FFB0000
    ⟨Or.inl (by decide), fun _ => by decide⟩ (Memory.fresh fun _ => 0)).2.2 0x3FFB0001
      ⟨Or.inl (by decide), fun _ => by decide⟩).1

/-- An area of whole words on another device: the read is refused before the driver is called. -/
theorem flashAreaRead_otherDevice :
    ({ primarySlot with faDeviceId := 1 } : FlashArea).faOff % 4 = 0 ∧
      ({ primarySlot with faDeviceId := 1 } : FlashArea).faSize % 4 = 0 ∧
      (flashAreaRead (wordFlashRead fun _ => 0) 0x3FFC0000 { primarySlot with faDeviceId := 1 } 0
        0x3FFB0000 4 (Memory.fresh fun _ => 0)).1 = -1 := by
  refine ⟨by decide, by decide, ?_⟩
  rw [flashAreaRead_refused _ _ _ _ _ _ (by decide)]

end McubootPort
