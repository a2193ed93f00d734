/-
This file models the patched `flash_area_read` and its staging buffer.

The flash driver moves whole words between word addresses, so a read to an
unaligned destination or of an odd length is staged through `align_buf`. What
the driver is asked to store there is the length rounded up to words, and no
bound is put on it. The stores of a call stay inside the destination and the
buffer exactly when the read is not staged, or is short, or is so long that the
rounding wraps.
-/

import McubootPort.Library.Alignment
import McubootPort.Library.ByteMemory

namespace McubootPort

open Alignment ByteMemory

/-! ### The function -/

/-- `struct flash_area`. -/
structure FlashArea where
  faId : UInt8
  faDeviceId : UInt8
  faOff : BitVec 32
  faSize : BitVec 32
deriving DecidableEq

/-- `FLASH_DEVICE_INTERNAL_FLASH`. -/
def flashDeviceInternalFlash : UInt8 := 0

/-- `sizeof(align_buf)`. -/
def alignBufSize : Nat := 512

/-- The arguments of a call of `bootloader_flash_read`. -/
structure FlashReadRequest where
  srcAddr : BitVec 32
  dest : Nat
  size : BitVec 32
  allowDecrypt : Bool
deriving DecidableEq

/-- `bootloader_flash_read`: whether it returns `ESP_OK`, and the bytes it stores from the
destination on. -/
abbrev BootloaderFlashRead := FlashReadRequest → Bool × List UInt8

/-- A read is staged when the destination or the length is not a multiple of four. -/
def Staged (dst : Nat) (len : BitVec 32) : Prop := dst % 4 ≠ 0 ∨ len % 4 ≠ 0

instance (dst : Nat) (len : BitVec 32) : Decidable (Staged dst len) :=
  inferInstanceAs (Decidable (_ ∨ _))

/-- `read_len`. -/
def readLen (len : BitVec 32) : BitVec 32 :=
  if len % 4 ≠ 0 then (len + 3) &&& ~~~3#32 else len

/-- `read_ptr`. -/
def readPtr (alignBuf dst : Nat) (len : BitVec 32) : Nat :=
  if Staged dst len then alignBuf else dst

/-- The patched `flash_area_read`, with `align_buf` at the address `alignBuf`. The result is the
return value, the memory and the calls made of the driver. -/
def flashAreaRead (bootloaderFlashRead : BootloaderFlashRead) (alignBuf : Nat) (fa : FlashArea)
    (off : BitVec 32) (dst : Nat) (len : BitVec 32) (memory : Memory) :
    Int × Memory × List FlashReadRequest :=
  if fa.faDeviceId ≠ flashDeviceInternalFlash then (-1, memory, [])
  else
    let endOffset := off + len
    if endOffset > fa.faSize then (-1, memory, [])
    else
      let request : FlashReadRequest :=
        { srcAddr := fa.faOff + off, dest := readPtr alignBuf dst len, size := readLen len,
          allowDecrypt := true }
      let (ok, bytes) := bootloaderFlashRead request
      let memory := memory.storeBytes request.dest bytes
      if !ok then (-1, memory, [request])
      else if dst ≠ request.dest then
        (0, memory.storeBytes dst (memory.loadBytes request.dest len.toNat), [request])
      else (0, memory, [request])

/-! ### The rounding -/

/-- Rounding up to words, which wraps for the last three lengths. -/
theorem readLen_toNat (len : BitVec 32) :
    (readLen len).toNat = (len.toNat + 3) % 2 ^ 32 / 4 * 4 := by
  have bound := len.isLt
  have remainder : (len % 4 ≠ 0) = (len.toNat % 4 ≠ 0) := by
    rw [ne_eq, ← BitVec.toNat_inj, BitVec.toNat_umod]
    rfl
  rw [readLen]
  by_cases odd : len % 4 ≠ 0
  · rw [if_pos odd]
    exact toNat_and_not_mask (len + 3) 2
  · rw [if_neg odd]
    rw [remainder] at odd
    omega

/-- The rounded length fits the staging buffer exactly for a short read, or when it wraps. -/
theorem readLen_le_iff (len : BitVec 32) :
    (readLen len).toNat ≤ alignBufSize ↔ len.toNat ≤ 512 ∨ 2 ^ 32 - 4 < len.toNat := by
  have bound := len.isLt
  rw [readLen_toNat, alignBufSize]
  omega

/-! ### What is written -/

/-- The driver over some flash contents: it refuses what is not aligned to words. -/
def wordFlashRead (flash : Nat → UInt8) : BootloaderFlashRead := fun request =>
  if request.srcAddr % 4 = 0 ∧ request.dest % 4 = 0 ∧ request.size % 4 = 0 then
    (true, (List.range request.size.toNat).map fun index => flash (request.srcAddr.toNat + index))
  else (false, [])

/-- A driver that stores no more than it was asked for. -/
def StoresAtMost (bootloaderFlashRead : BootloaderFlashRead) : Prop :=
  ∀ request, (bootloaderFlashRead request).2.length ≤ request.size.toNat

theorem wordFlashRead_storesAtMost (flash : Nat → UInt8) : StoresAtMost (wordFlashRead flash) := by
  intro request
  rw [wordFlashRead]
  split
  · rw [List.length_map, List.length_range]
  · exact Nat.zero_le _

/-- What a call stores lies in the destination or in the staging buffer. -/
def StoresContained (alignBuf dst : Nat) (len : BitVec 32) (memory : Memory) : Prop :=
  ∀ address ∈ memory.stored, (dst ≤ address ∧ address < dst + len.toNat) ∨
    (alignBuf ≤ address ∧ address < alignBuf + alignBufSize)

/-- A call asks for no more than the staging buffer holds when it stages, and stores nothing
outside the destination and the buffer. -/
def ReadContained (alignBuf dst : Nat) (len : BitVec 32)
    (outcome : Int × Memory × List FlashReadRequest) : Prop :=
  (Staged dst len → ∀ request ∈ outcome.2.2, request.size.toNat ≤ alignBufSize) ∧
    StoresContained alignBuf dst len outcome.2.1

section Read

variable (bootloaderFlashRead : BootloaderFlashRead) (alignBuf : Nat) (fa : FlashArea)
  (off : BitVec 32) (dst : Nat) (len : BitVec 32)

/-- The call that a read makes of the driver. -/
def readRequest : FlashReadRequest where
  srcAddr := fa.faOff + off
  dest := readPtr alignBuf dst len
  size := readLen len
  allowDecrypt := true

theorem flashAreaRead_refused (foreign : fa.faDeviceId ≠ flashDeviceInternalFlash)
    (memory : Memory) :
    flashAreaRead bootloaderFlashRead alignBuf fa off dst len memory = (-1, memory, []) :=
  if_pos foreign

theorem endOffset_toNat (inside : off.toNat + len.toNat ≤ fa.faSize.toNat) :
    ¬ off + len > fa.faSize := by
  have bound := fa.faSize.isLt
  rw [gt_iff_lt, BitVec.lt_def, BitVec.toNat_add]
  omega

/-- A read inside the area makes one call of the driver. -/
theorem flashAreaRead_requests (internal : fa.faDeviceId = flashDeviceInternalFlash)
    (inside : off.toNat + len.toNat ≤ fa.faSize.toNat) (memory : Memory) :
    (flashAreaRead bootloaderFlashRead alignBuf fa off dst len memory).2.2 =
      [readRequest alignBuf fa off dst len] := by
  rw [flashAreaRead, if_neg (not_not.mpr internal), if_neg (endOffset_toNat fa off len inside)]
  simp only
  split_ifs <;> rfl

/-- The addresses that a read inside the area stores to. -/
theorem mem_stored_flashAreaRead (internal : fa.faDeviceId = flashDeviceInternalFlash)
    (inside : off.toNat + len.toNat ≤ fa.faSize.toNat) (memory : Memory) (address : Nat)
    (member : address ∈
      (flashAreaRead bootloaderFlashRead alignBuf fa off dst len memory).2.1.stored) :
    address ∈ memory.stored ∨ (dst ≤ address ∧ address < dst + len.toNat) ∨
      (readPtr alignBuf dst len ≤ address ∧ address < readPtr alignBuf dst len +
        (bootloaderFlashRead (readRequest alignBuf fa off dst len)).2.length) := by
  rw [flashAreaRead, if_neg (not_not.mpr internal), if_neg (endOffset_toNat fa off len inside)]
    at member
  simp only at member
  have direct (held : address ∈ (memory.storeBytes (readPtr alignBuf dst len)
      (bootloaderFlashRead (readRequest alignBuf fa off dst len)).2).stored) :
      address ∈ memory.stored ∨ (dst ≤ address ∧ address < dst + len.toNat) ∨
        (readPtr alignBuf dst len ≤ address ∧ address < readPtr alignBuf dst len +
          (bootloaderFlashRead (readRequest alignBuf fa off dst len)).2.length) := by
    rcases (Memory.mem_stored_storeBytes _ _ _ _).mp held with before | driver
    · exact Or.inl before
    · exact Or.inr (Or.inr driver)
  split_ifs at member with refused copied
  · exact direct member
  · rcases (Memory.mem_stored_storeBytes _ _ _ _).mp member with before | copy
    · exact direct before
    · rw [Memory.loadBytes_length] at copy
      exact Or.inr (Or.inl copy)
  · exact direct member

/-- What the driver stores stays stored. -/
theorem flashAreaRead_stores (internal : fa.faDeviceId = flashDeviceInternalFlash)
    (inside : off.toNat + len.toNat ≤ fa.faSize.toNat) (memory : Memory) (address : Nat)
    (low : readPtr alignBuf dst len ≤ address)
    (high : address < readPtr alignBuf dst len +
      (bootloaderFlashRead (readRequest alignBuf fa off dst len)).2.length) :
    address ∈
      (flashAreaRead bootloaderFlashRead alignBuf fa off dst len memory).2.1.stored := by
  have driver : address ∈ (memory.storeBytes (readPtr alignBuf dst len)
      (bootloaderFlashRead (readRequest alignBuf fa off dst len)).2).stored :=
    (Memory.mem_stored_storeBytes _ _ _ _).mpr (Or.inr ⟨low, high⟩)
  rw [flashAreaRead, if_neg (not_not.mpr internal), if_neg (endOffset_toNat fa off len inside)]
  simp only
  split_ifs
  · exact driver
  · exact (Memory.mem_stored_storeBytes _ _ _ _).mpr (Or.inl driver)
  · exact driver

theorem readContained_of_refused (foreign : fa.faDeviceId ≠ flashDeviceInternalFlash)
    (byte : Nat → UInt8) :
    ReadContained alignBuf dst len
      (flashAreaRead bootloaderFlashRead alignBuf fa off dst len (Memory.fresh byte)) := by
  rw [flashAreaRead_refused _ _ _ _ _ _ foreign]
  exact ⟨fun _ _ member => (List.not_mem_nil member).elim,
    fun _ member => (List.not_mem_nil member).elim⟩

theorem readContained_of_fits (internal : fa.faDeviceId = flashDeviceInternalFlash)
    (inside : off.toNat + len.toNat ≤ fa.faSize.toNat)
    (driver : StoresAtMost bootloaderFlashRead)
    (fits : Staged dst len → (readLen len).toNat ≤ alignBufSize) (byte : Nat → UInt8) :
    ReadContained alignBuf dst len
      (flashAreaRead bootloaderFlashRead alignBuf fa off dst len (Memory.fresh byte)) := by
  have asked := driver (readRequest alignBuf fa off dst len)
  refine ⟨fun staged request member => ?_, fun address member => ?_⟩
  · rw [flashAreaRead_requests _ _ _ _ _ _ internal inside, List.mem_singleton] at member
    rw [member]
    exact fits staged
  · rcases mem_stored_flashAreaRead _ _ _ _ _ _ internal inside _ _ member with
      before | copy | stored
    · exact (List.not_mem_nil before).elim
    · exact Or.inl copy
    · have size : (readRequest alignBuf fa off dst len).size = readLen len := rfl
      rw [size] at asked
      by_cases staged : Staged dst len
      · have short := fits staged
        rw [readPtr, if_pos staged] at stored
        exact Or.inr ⟨stored.1, by omega⟩
      · rw [readPtr, if_neg staged] at stored
        have whole : readLen len = len := if_neg fun odd => staged (Or.inr odd)
        rw [whole] at asked
        exact Or.inl ⟨stored.1, by omega⟩

/-- A staged read of more than the buffer holds asks for more than the buffer holds. -/
theorem not_readContained_of_long (internal : fa.faDeviceId = flashDeviceInternalFlash)
    (inside : off.toNat + len.toNat ≤ fa.faSize.toNat) (staged : Staged dst len)
    (long : ¬ (readLen len).toNat ≤ alignBufSize) (memory : Memory) :
    ¬ ReadContained alignBuf dst len
      (flashAreaRead bootloaderFlashRead alignBuf fa off dst len memory) := by
  intro contained
  refine long (contained.1 staged (readRequest alignBuf fa off dst len) ?_)
  rw [flashAreaRead_requests _ _ _ _ _ _ internal inside]
  exact List.mem_singleton_self _

/-- The staging buffer is not overrun exactly when the area is on another device, or the read is
not staged, or it is no longer than the buffer, or the rounding wraps to nothing. -/
theorem flashAreaRead_contained_iff (driver : StoresAtMost bootloaderFlashRead)
    (inside : off.toNat + len.toNat ≤ fa.faSize.toNat) (byte : Nat → UInt8) :
    ReadContained alignBuf dst len
        (flashAreaRead bootloaderFlashRead alignBuf fa off dst len (Memory.fresh byte)) ↔
      fa.faDeviceId ≠ flashDeviceInternalFlash ∨ (dst % 4 = 0 ∧ len % 4 = 0) ∨
        len.toNat ≤ 512 ∨ 2 ^ 32 - 4 < len.toNat := by
  rw [← readLen_le_iff]
  by_cases foreign : fa.faDeviceId ≠ flashDeviceInternalFlash
  · exact iff_of_true (readContained_of_refused _ _ _ _ _ _ foreign byte) (Or.inl foreign)
  · have internal := not_not.mp foreign
    by_cases fits : Staged dst len → (readLen len).toNat ≤ alignBufSize
    · refine iff_of_true (readContained_of_fits _ _ _ _ _ _ internal inside driver fits byte) ?_
      by_cases staged : Staged dst len
      · exact Or.inr (Or.inr (fits staged))
      · rw [Staged, not_or, not_not, not_not] at staged
        exact Or.inr (Or.inl staged)
    · obtain ⟨staged, long⟩ := Classical.not_imp.mp fits
      refine iff_of_false
        (not_readContained_of_long _ _ _ _ _ _ internal inside staged long _) ?_
      rintro (other | aligned | short)
      · exact foreign other
      · exact staged.elim (fun odd => odd aligned.1) fun odd => odd aligned.2
      · exact long short

end Read

/-- The primary image slot. -/
def primarySlot : FlashArea where
  faId := 1
  faDeviceId := 0
  faOff := 0x20000
  faSize := 0x100000

/-- An image header read to an unaligned destination. -/
theorem flashAreaRead_contained_header :
    ReadContained 0x3FFC0000 0x3FFB0001 32 (flashAreaRead (wordFlashRead fun _ => 0) 0x3FFC0000
      primarySlot 0 0x3FFB0001 32 (Memory.fresh fun _ => 0)) :=
  (flashAreaRead_contained_iff (wordFlashRead fun _ => 0) 0x3FFC0000 primarySlot 0 0x3FFB0001 32
    (wordFlashRead_storesAtMost _) (by decide) fun _ => 0).mpr
      (Or.inr (Or.inr (Or.inl (by decide))))

/-- A read of 514 bytes to an aligned destination stores 516 bytes into the staging buffer. -/
theorem flashAreaRead_overrun :
    let outcome := flashAreaRead (wordFlashRead fun _ => 0) 0x3FFC0000 primarySlot 0 0x3FFB0000 514
      (Memory.fresh fun _ => 0)
    0x3FFC0000 + 515 ∈ outcome.2.1.stored ∧ ¬ ReadContained 0x3FFC0000 0x3FFB0000 514 outcome := by
  refine ⟨flashAreaRead_stores _ _ _ _ _ _ rfl (by decide) _ _ (by decide) ?_,
    not_readContained_of_long _ _ _ _ _ _ rfl (by decide) (by decide) (by decide) _⟩
  have aligned : wordFlashRead (fun _ => 0) (readRequest 0x3FFC0000 primarySlot 0 0x3FFB0000 514) =
      (true, (List.range 516).map fun _ => 0) := rfl
  rw [aligned, List.length_map, List.length_range]
  decide

end McubootPort
