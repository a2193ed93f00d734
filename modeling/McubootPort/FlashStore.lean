/-
This file is about whole runs of `flash_area_read` and `flash_area_write`, with
whatever the caller does to its memory between the calls.

Both functions stage through one buffer, which keeps bytes of one call while the
next one starts. To the caller the two are a store of bytes without a buffer and
without words: the run of the code is, call by call, a run of that store. The
flash then holds what was programmed, and what was written to an erased range is
read back by any later read, whatever the alignment of either.
-/

import McubootPort.FlashAreaWrite
import McubootPort.Library.ProgrammedStore

namespace McubootPort

open Alignment ByteMemory FlashMemory ProgrammedStore

/-! ### The calls -/

/-- What the code calls: the two functions of the driver at a moment, at which the chip works or
not, and the lines of `flash_area_write` before the patch. Programming a byte puts it on top of the
old one. -/
structure FlashChip where
  works : Nat → Bool
  bootloaderFlashRead : Nat → Flash → BootloaderFlashRead
  bootloaderFlashWrite : Nat → BootloaderFlashWrite
  writeLines : WriteLines
  programByte : UInt8 → UInt8 → UInt8

/-- What is assumed of the driver. It refuses what is not aligned, without effect. A read that is
aligned stores the bytes of the flash when the chip works, and no more than was asked for when it
does not. A write that is aligned programs its bytes when the chip works, and may leave anything in
its range when it does not, and nothing outside of it. -/
structure FlashChip.Lawful (chip : FlashChip) : Prop where
  plain : PlainFromFour chip.writeLines
  refusesRead : ∀ moment flash request, ¬ request.Aligned →
    chip.bootloaderFlashRead moment flash request = (false, [])
  reads : ∀ moment flash request, request.Aligned → chip.works moment = true →
    chip.bootloaderFlashRead moment flash request =
      (true, slice flash request.srcAddr request.size.toNat)
  failsRead : ∀ moment flash request, request.Aligned → chip.works moment = false →
    (chip.bootloaderFlashRead moment flash request).1 = false ∧
      (chip.bootloaderFlashRead moment flash request).2.length ≤ request.size.toNat
  refusesWrite : ∀ moment request bytes flash, ¬ request.Aligned →
    chip.bootloaderFlashWrite moment request bytes flash = (false, flash)
  writes : ∀ moment request bytes flash, request.Aligned → chip.works moment = true →
    (chip.bootloaderFlashWrite moment request bytes flash).1 = true ∧
      Follows chip.programByte (.programmed request.destAddr bytes) flash
        (chip.bootloaderFlashWrite moment request bytes flash).2
  failsWrite : ∀ moment request bytes flash, request.Aligned → chip.works moment = false →
    (chip.bootloaderFlashWrite moment request bytes flash).1 = false ∧
      Follows chip.programByte (.spoiled request.destAddr request.size.toNat) flash
        (chip.bootloaderFlashWrite moment request bytes flash).2

theorem FlashChip.Lawful.storesAtMost {chip : FlashChip} (lawful : chip.Lawful) (moment : Nat)
    (flash : Flash) : StoresAtMost (chip.bootloaderFlashRead moment flash) := by
  intro request
  by_cases aligned : request.Aligned
  · cases works : chip.works moment with
    | true => rw [lawful.reads moment flash request aligned works, length_slice]
    | false => exact (lawful.failsRead moment flash request aligned works).2
  · rw [lawful.refusesRead moment flash request aligned]
    exact Nat.zero_le _

/-- The flash, and the memory of the program. -/
structure FlashWorld where
  flash : Flash
  memory : Memory

/-- A call of one of the two functions, or a store of the caller. -/
inductive FlashCall
  | read (fa : FlashArea) (off : BitVec 32) (dst : Nat) (len : BitVec 32)
  | write (fa : FlashArea) (off : BitVec 32) (src : Nat) (len : BitVec 32)
  | store (address : Nat) (bytes : List UInt8)

section Calls

variable (chip : FlashChip) (alignBuf : Nat)

/-- The result of a call and the world after it. -/
def runCall (moment : Nat) (world : FlashWorld) : FlashCall → Int × FlashWorld
  | .read fa off dst len =>
    let outcome := flashAreaRead (chip.bootloaderFlashRead moment world.flash) alignBuf fa off dst
      len world.memory
    (outcome.1, { world with memory := outcome.2.1 })
  | .write fa off src len =>
    let outcome := flashAreaWrite chip.writeLines (chip.bootloaderFlashWrite moment) alignBuf fa off
      src len world.memory world.flash
    (outcome.result, { flash := outcome.flash, memory := outcome.memory })
  | .store address bytes => (0, { world with memory := world.memory.storeBytes address bytes })

/-- The results of some calls, of which the first is made at a moment, and the world after them. -/
def runFlashCalls : Nat → FlashWorld → List FlashCall → List Int × FlashWorld
  | _, world, [] => ([], world)
  | moment, world, call :: calls =>
    let outcome := runCall chip alignBuf moment world call
    let rest := runFlashCalls (moment + 1) outcome.2 calls
    (outcome.1 :: rest.1, rest.2)

end Calls

/-- Some bytes of the caller are not in the staging buffer. -/
def ApartFromBuffer (alignBuf address count : Nat) : Prop :=
  address + count ≤ alignBuf ∨ alignBuf + alignBufSize ≤ address

/-- The calls that a caller may make: no buffer of its own is the staging buffer, a read that is
staged fits it, and a write has four bytes or more. -/
def FlashCall.Allowed (alignBuf : Nat) : FlashCall → Prop
  | .read _ _ dst len => Destination alignBuf dst len
  | .write _ _ src len => 4 ≤ len.toNat ∧ ApartFromBuffer alignBuf src len.toNat
  | .store address bytes => ApartFromBuffer alignBuf address bytes.length

/-- A call that is refused, whether the chip works or not: for another device, past the end of the
area, before the driver is called, or because the driver would move no whole words. -/
def FlashCall.Refused (writeLines : WriteLines) : FlashCall → Prop
  | .read fa off _ len => fa.faDeviceId ≠ flashDeviceInternalFlash ∨ off + len > fa.faSize ∨
      (fa.faOff + off) % 4 ≠ 0
  | .write fa off src len => WriteReturns writeLines fa off src len ∨ (fa.faOff + off) % 4 ≠ 0 ∨
      len % 4 ≠ 0
  | .store _ _ => False

instance (writeLines : WriteLines) : DecidablePred (FlashCall.Refused writeLines)
  | .read _ _ _ _ => inferInstanceAs (Decidable (_ ∨ _ ∨ _))
  | .write _ _ _ _ => inferInstanceAs (Decidable (_ ∨ _ ∨ _))
  | .store _ _ => inferInstanceAs (Decidable False)

/-! ### The store that the caller sees -/

/-- A flash and a memory that no call uses for itself. -/
structure IdealWorld where
  flash : Flash
  ram : Nat → UInt8

/-- Bytes of the memory. -/
def IdealWorld.bytes (world : IdealWorld) (address count : Nat) : List UInt8 :=
  (List.range count).map fun index => world.ram (address + index)

/-- Only some bytes of the memory may differ. -/
def IdealWorld.SameOutside (before after : IdealWorld) (start count : Nat) : Prop :=
  ∀ address, address < start ∨ start + count ≤ address → after.ram address = before.ram address

/-- What a call does at a moment when bytes are moved as they are asked for. One that is refused
changes nothing. Any other moves its bytes when the chip works, and when it does not it may leave
anything where it was to put bytes, and nothing else. -/
inductive IdealStep (chip : FlashChip) (moment : Nat) (before after : IdealWorld) :
    FlashCall → Int → Prop
  | refused (call : FlashCall) (refused : call.Refused chip.writeLines)
    (flash : after.flash = before.flash) (kept : after.ram = before.ram) :
    IdealStep chip moment before after call (-1)
  | read (fa : FlashArea) (off : BitVec 32) (dst : Nat) (len : BitVec 32)
    (accepted : ¬ FlashCall.Refused chip.writeLines (.read fa off dst len))
    (works : chip.works moment = true) (flash : after.flash = before.flash)
    (delivered : after.bytes dst len.toNat = slice before.flash (fa.faOff + off) len.toNat)
    (kept : before.SameOutside after dst len.toNat) :
    IdealStep chip moment before after (.read fa off dst len) 0
  | readFails (fa : FlashArea) (off : BitVec 32) (dst : Nat) (len : BitVec 32)
    (accepted : ¬ FlashCall.Refused chip.writeLines (.read fa off dst len))
    (fails : chip.works moment = false) (flash : after.flash = before.flash)
    (kept : before.SameOutside after dst len.toNat) :
    IdealStep chip moment before after (.read fa off dst len) (-1)
  | write (fa : FlashArea) (off : BitVec 32) (src : Nat) (len : BitVec 32)
    (accepted : ¬ FlashCall.Refused chip.writeLines (.write fa off src len))
    (works : chip.works moment = true)
    (programmed : Follows chip.programByte
      (.programmed (fa.faOff + off) (before.bytes src len.toNat)) before.flash after.flash)
    (kept : after.ram = before.ram) :
    IdealStep chip moment before after (.write fa off src len) 0
  | writeFails (fa : FlashArea) (off : BitVec 32) (src : Nat) (len : BitVec 32)
    (accepted : ¬ FlashCall.Refused chip.writeLines (.write fa off src len))
    (fails : chip.works moment = false)
    (spoiled : Follows chip.programByte (.spoiled (fa.faOff + off) len.toNat) before.flash
      after.flash)
    (kept : after.ram = before.ram) :
    IdealStep chip moment before after (.write fa off src len) (-1)
  | store (address : Nat) (bytes : List UInt8) (flash : after.flash = before.flash)
    (stored : after.bytes address bytes.length = bytes)
    (kept : before.SameOutside after address bytes.length) :
    IdealStep chip moment before after (.store address bytes) 0

/-- A run of such calls, of which the first is made at a moment, with their results. -/
inductive IdealRun (chip : FlashChip) :
    Nat → IdealWorld → List FlashCall → List Int → IdealWorld → Prop
  | nil (moment : Nat) (world : IdealWorld) : IdealRun chip moment world [] [] world
  | cons {moment : Nat} {before middle after : IdealWorld} {call : FlashCall}
    {calls : List FlashCall} {result : Int} {results : List Int}
    (step : IdealStep chip moment before middle call result)
    (rest : IdealRun chip (moment + 1) middle calls results after) :
    IdealRun chip moment before (call :: calls) (result :: results) after

/-- An address of the staging buffer. -/
def InBuffer (alignBuf address : Nat) : Prop :=
  alignBuf ≤ address ∧ address < alignBuf + alignBufSize

instance (alignBuf address : Nat) : Decidable (InBuffer alignBuf address) :=
  inferInstanceAs (Decidable (_ ∧ _))

/-- The world without the staging buffer. -/
def FlashWorld.view (alignBuf : Nat) (world : FlashWorld) : IdealWorld where
  flash := world.flash
  ram address := if InBuffer alignBuf address then 0 else world.memory.byte address

section View

variable {alignBuf : Nat} {world after : FlashWorld} {start count : Nat}

theorem view_ram (address : Nat) (outside : ¬ InBuffer alignBuf address) :
    (world.view alignBuf).ram address = world.memory.byte address := if_neg outside

theorem view_bytes (apart : ApartFromBuffer alignBuf start count) :
    (world.view alignBuf).bytes start count = world.memory.loadBytes start count := by
  refine List.map_congr_left fun index member => view_ram _ ?_
  rw [List.mem_range] at member
  unfold InBuffer
  unfold ApartFromBuffer at apart
  omega

theorem view_sameOutside (kept : ∀ address, (address < start ∨ start + count ≤ address) →
    ¬ InBuffer alignBuf address → after.memory.byte address = world.memory.byte address) :
    (world.view alignBuf).SameOutside (after.view alignBuf) start count := by
  intro address outside
  by_cases staged : InBuffer alignBuf address
  · simp only [FlashWorld.view, if_pos staged]
  · rw [view_ram address staged, view_ram address staged]
    exact kept address outside staged

/-- Stores into the staging buffer are not seen. -/
theorem view_ram_eq (kept : ∀ address, ¬ InBuffer alignBuf address →
    after.memory.byte address = world.memory.byte address) :
    (after.view alignBuf).ram = (world.view alignBuf).ram := by
  funext address
  by_cases staged : InBuffer alignBuf address
  · simp only [FlashWorld.view, if_pos staged]
  · rw [view_ram address staged, view_ram address staged]
    exact kept address staged

end View

/-! ### One read -/

/-- Everything that a read can do. -/
theorem flashAreaRead_cases (bootloaderFlashRead : BootloaderFlashRead) (alignBuf : Nat)
    (fa : FlashArea) (off : BitVec 32) (dst : Nat) (len : BitVec 32) (memory : Memory) :
    ((fa.faDeviceId ≠ flashDeviceInternalFlash ∨ off + len > fa.faSize) ∧
        flashAreaRead bootloaderFlashRead alignBuf fa off dst len memory = (-1, memory, [])) ∨
      (¬ (fa.faDeviceId ≠ flashDeviceInternalFlash ∨ off + len > fa.faSize) ∧
        flashAreaRead bootloaderFlashRead alignBuf fa off dst len memory =
          if (bootloaderFlashRead (readRequest alignBuf fa off dst len)).1 = false then
            (-1, driverStores bootloaderFlashRead alignBuf fa off dst len memory,
              [readRequest alignBuf fa off dst len])
          else if dst ≠ readPtr alignBuf dst len then
            (0, (driverStores bootloaderFlashRead alignBuf fa off dst len memory).storeBytes dst
              ((driverStores bootloaderFlashRead alignBuf fa off dst len memory).loadBytes
                (readPtr alignBuf dst len) len.toNat), [readRequest alignBuf fa off dst len])
          else (0, driverStores bootloaderFlashRead alignBuf fa off dst len memory,
            [readRequest alignBuf fa off dst len])) := by
  by_cases foreign : fa.faDeviceId ≠ flashDeviceInternalFlash
  · exact Or.inl ⟨Or.inl foreign, if_pos foreign⟩
  · by_cases past : off + len > fa.faSize
    · refine Or.inl ⟨Or.inr past, ?_⟩
      rw [flashAreaRead, if_neg foreign]
      exact if_pos past
    · refine Or.inr ⟨fun either => either.elim foreign past, ?_⟩
      rw [flashAreaRead, if_neg foreign, if_neg past]
      cases ok : (bootloaderFlashRead (readRequest alignBuf fa off dst len)).1 with
      | false => exact if_pos (congrArg (! ·) ok)
      | true =>
        refine if_neg fun refused => ?_
        exact absurd (ok.symm.trans ((Bool.not_eq_true' _).mp refused)) (by decide)

/-- The driver is asked for whole words into an aligned buffer, so only the address can be wrong. -/
theorem readRequest_aligned (alignBuf : Nat) (bufAligned : alignBuf % 4 = 0) (fa : FlashArea)
    (off : BitVec 32) (dst : Nat) (len : BitVec 32) :
    (readRequest alignBuf fa off dst len).Aligned ↔ (fa.faOff + off) % 4 = 0 := by
  have buffer := readPtr_mod_four alignBuf dst len bufAligned
  have size : readLen len % 4 = 0 := by
    rw [mod_four_eq_zero_iff, readLen_toNat]
    omega
  exact ⟨fun aligned => aligned.1, fun word => ⟨word, buffer, size⟩⟩

section Read

variable {bootloaderFlashRead : BootloaderFlashRead} {flash : Flash} {alignBuf : Nat}
  {fa : FlashArea} {off : BitVec 32} {dst : Nat} {len : BitVec 32}

/-- What the driver stores is seen in the destination only. -/
theorem driverStores_elsewhere (most : StoresAtMost bootloaderFlashRead)
    (destination : Destination alignBuf dst len) (memory : Memory) (address : Nat)
    (elsewhere : Elsewhere alignBuf dst len address) :
    (driverStores bootloaderFlashRead alignBuf fa off dst len memory).byte address =
      memory.byte address := by
  have stored := most (readRequest alignBuf fa off dst len)
  have size : (readRequest alignBuf fa off dst len).size = readLen len := rfl
  obtain ⟨outsideDst, outsideBuf⟩ := elsewhere
  rw [size] at stored
  refine Memory.storeBytes_byte_of_outside _ _ _ _ ?_
  by_cases staged : Staged dst len
  · have fits := destination.short staged
    have above := le_alignUp 4 len.toNat (by decide)
    have rounded := readLen_toNat_eq len (by rw [alignBufSize] at fits; omega)
    rw [readPtr, if_pos staged]
    omega
  · have whole : readLen len = len := if_neg fun odd => staged (Or.inr odd)
    rw [whole] at stored
    rw [readPtr, if_neg staged]
    omega

/-- The destination after a read that the driver takes, on either path. -/
theorem driverStores_delivers
    (answer : (bootloaderFlashRead (readRequest alignBuf fa off dst len)).2 =
      slice flash (fa.faOff + off) (readLen len).toNat)
    (destination : Destination alignBuf dst len) (memory : Memory) :
    (driverStores bootloaderFlashRead alignBuf fa off dst len memory).loadBytes
      (readPtr alignBuf dst len) len.toNat = slice flash (fa.faOff + off) len.toNat := by
  by_cases staged : Staged dst len
  · have fits := destination.short staged
    have above := le_alignUp 4 len.toNat (by decide)
    have rounded := readLen_toNat_eq len (by rw [alignBufSize] at fits; omega)
    exact (staged_bytes staged destination memory _ rounded (congrArg (Prod.mk true) answer)).1
  · have same : readPtr alignBuf dst len = dst := if_neg staged
    have direct : (driverStores bootloaderFlashRead alignBuf fa off dst len memory).loadBytes dst
        len.toNat = slice flash (fa.faOff + off) len.toNat :=
      (direct_bytes staged memory _ (congrArg (Prod.mk true) answer)).1
    rwa [same]

/-- A read that the driver takes delivers the bytes of the flash and returns 0. -/
theorem flashAreaRead_taken (most : StoresAtMost bootloaderFlashRead)
    (destination : Destination alignBuf dst len) (memory : Memory)
    (accepted : ¬ (fa.faDeviceId ≠ flashDeviceInternalFlash ∨ off + len > fa.faSize))
    (taken : bootloaderFlashRead (readRequest alignBuf fa off dst len) =
      (true, slice flash (fa.faOff + off) (readLen len).toNat))
    (outcome : Int × Memory × List FlashReadRequest)
    (runs : flashAreaRead bootloaderFlashRead alignBuf fa off dst len memory = outcome) :
    outcome.1 = 0 ∧
      outcome.2.1.loadBytes dst len.toNat = slice flash (fa.faOff + off) len.toNat ∧
      ∀ address, Elsewhere alignBuf dst len address →
        outcome.2.1.byte address = memory.byte address := by
  subst runs
  have kept : ∀ address, Elsewhere alignBuf dst len address →
      (driverStores bootloaderFlashRead alignBuf fa off dst len memory).byte address =
        memory.byte address := driverStores_elsewhere most destination memory
  have delivers := driverStores_delivers (congrArg Prod.snd taken) destination memory
  have ok : ¬ (bootloaderFlashRead (readRequest alignBuf fa off dst len)).1 = false := by
    rw [taken]
    nofun
  rcases flashAreaRead_cases bootloaderFlashRead alignBuf fa off dst len memory with
    ⟨refused, _⟩ | ⟨_, runs⟩
  · exact absurd refused accepted
  · rw [runs, if_neg ok]
    by_cases other : dst ≠ readPtr alignBuf dst len
    · rw [if_pos other, delivers]
      have copied := Memory.loadBytes_storeBytes
        (driverStores bootloaderFlashRead alignBuf fa off dst len memory) dst
        (slice flash (fa.faOff + off) len.toNat)
      rw [length_slice] at copied
      refine ⟨rfl, copied, fun address elsewhere => ?_⟩
      rw [← kept address elsewhere]
      refine Memory.storeBytes_byte_of_outside _ _ _ _ ?_
      rw [length_slice]
      exact elsewhere.1
    · rw [if_neg other]
      rw [not_not] at other
      rw [← other] at delivers
      exact ⟨rfl, delivers, kept⟩

/-- A read that the driver fails returns -1 and leaves the caller's other bytes as they are. -/
theorem flashAreaRead_failed (most : StoresAtMost bootloaderFlashRead)
    (destination : Destination alignBuf dst len) (memory : Memory)
    (accepted : ¬ (fa.faDeviceId ≠ flashDeviceInternalFlash ∨ off + len > fa.faSize))
    (fails : (bootloaderFlashRead (readRequest alignBuf fa off dst len)).1 = false)
    (outcome : Int × Memory × List FlashReadRequest)
    (runs : flashAreaRead bootloaderFlashRead alignBuf fa off dst len memory = outcome) :
    outcome.1 = -1 ∧ ∀ address, Elsewhere alignBuf dst len address →
      outcome.2.1.byte address = memory.byte address := by
  subst runs
  rcases flashAreaRead_cases bootloaderFlashRead alignBuf fa off dst len memory with
    ⟨refused, _⟩ | ⟨_, runs⟩
  · exact absurd refused accepted
  · rw [runs, if_pos fails]
    exact ⟨rfl, driverStores_elsewhere most destination memory⟩

/-- A read that is refused returns -1 and changes no byte. -/
theorem flashAreaRead_refusedCall (writeLines : WriteLines)
    (refused : FlashCall.Refused writeLines (.read fa off dst len))
    (refuses : (fa.faOff + off) % 4 ≠ 0 →
      bootloaderFlashRead (readRequest alignBuf fa off dst len) = (false, [])) (memory : Memory)
    (outcome : Int × Memory × List FlashReadRequest)
    (runs : flashAreaRead bootloaderFlashRead alignBuf fa off dst len memory = outcome) :
    outcome.1 = -1 ∧ ∀ address, outcome.2.1.byte address = memory.byte address := by
  subst runs
  rcases flashAreaRead_cases bootloaderFlashRead alignBuf fa off dst len memory with
    ⟨_, runs⟩ | ⟨accepted, runs⟩
  · rw [runs]
    exact ⟨rfl, fun _ => rfl⟩
  · have answer := refuses ((or_assoc.mpr refused).resolve_left accepted)
    rw [runs, if_pos (congrArg Prod.fst answer)]
    refine ⟨rfl, fun address => ?_⟩
    rw [driverStores, answer]
    exact Memory.storeBytes_byte_of_outside _ _ _ _ (Nat.lt_or_ge _ _)

end Read

/-! ### One write -/

section Write

variable {writeLines : WriteLines} (bootloaderFlashWrite : BootloaderFlashWrite)
  (alignBuf : Nat) (fa : FlashArea) (off : BitVec 32) (src : Nat) (len : BitVec 32)
  (memory : Memory) (flash : Flash)

/-- The driver is given an aligned source, so only the address and the length can be wrong. -/
theorem writeRequest_aligned (bufAligned : alignBuf % 4 = 0) :
    FlashWriteRequest.Aligned ⟨fa.faOff + off, writePtr alignBuf src, len, false⟩ ↔
      ¬ ((fa.faOff + off) % 4 ≠ 0 ∨ len % 4 ≠ 0) := by
  have source : writePtr alignBuf src % 4 = 0 := by
    rw [writePtr]
    split
    · exact bufAligned
    · rename_i aligned
      exact not_not.mp aligned
  rw [not_or, not_not, not_not]
  exact ⟨fun aligned => ⟨aligned.1, aligned.2.2⟩, fun both => ⟨both.1, source, both.2⟩⟩

/-- A write that is refused returns -1 and changes neither the flash nor a byte of the caller. -/
theorem flashAreaWrite_refusedCall (plain : PlainFromFour writeLines) (four : 4 ≤ len.toNat)
    (refused : FlashCall.Refused writeLines (.write fa off src len))
    (refuses : ((fa.faOff + off) % 4 ≠ 0 ∨ len % 4 ≠ 0) → ∀ bytes,
      bootloaderFlashWrite ⟨fa.faOff + off, writePtr alignBuf src, len, false⟩ bytes flash =
        (false, flash)) (outcome : FlashWritten)
    (runs : flashAreaWrite writeLines bootloaderFlashWrite alignBuf fa off src len memory flash =
      outcome) :
    outcome.result = -1 ∧ outcome.flash = flash ∧
      ∀ address, (address < alignBuf ∨ alignBuf + alignBufSize ≤ address) →
        outcome.memory.byte address = memory.byte address := by
  subst runs
  rcases flashAreaWrite_cases bootloaderFlashWrite alignBuf fa off src len memory flash plain four
    with ⟨_, runs⟩ | ⟨goes, staged, loaded, runs, same, kept⟩
  · rw [runs]
    exact ⟨rfl, rfl, fun _ _ => rfl⟩
  · have answer := refuses (refused.resolve_left goes)
    rw [runs]
    simp only [programFlash, answer, Bool.false_eq_true, if_false, true_and]
    exact kept

/-- A write that comes to the driver is what the driver does with the bytes of its source. -/
theorem flashAreaWrite_accepted (plain : PlainFromFour writeLines) (four : 4 ≤ len.toNat)
    (goes : ¬ WriteReturns writeLines fa off src len) (outcome : FlashWritten)
    (runs : flashAreaWrite writeLines bootloaderFlashWrite alignBuf fa off src len memory flash =
      outcome) :
    let answer := bootloaderFlashWrite ⟨fa.faOff + off, writePtr alignBuf src, len, false⟩
      (memory.loadBytes src len.toNat) flash
    (outcome.result = if answer.1 then 0 else -1) ∧ outcome.flash = answer.2 ∧
      ∀ address, (address < alignBuf ∨ alignBuf + alignBufSize ≤ address) →
        outcome.memory.byte address = memory.byte address := by
  subst runs
  rcases flashAreaWrite_cases bootloaderFlashWrite alignBuf fa off src len memory flash plain four
    with ⟨returns, _⟩ | ⟨_, staged, loaded, runs, same, kept⟩
  · exact absurd returns goes
  · rw [runs]
    simp only [programFlash, same, true_and]
    exact kept

end Write

/-! ### Runs -/

section Runs

variable {chip : FlashChip} {alignBuf : Nat}

theorem outside_of_not_inBuffer {address : Nat} (outside : ¬ InBuffer alignBuf address) :
    address < alignBuf ∨ alignBuf + alignBufSize ≤ address := by
  unfold InBuffer at outside
  omega

/-- A read of the code is one of the store that the caller sees. -/
theorem runRead_ideal (lawful : chip.Lawful) (bufAligned : alignBuf % 4 = 0) (moment : Nat)
    (world : FlashWorld) (fa : FlashArea) (off : BitVec 32) (dst : Nat) (len : BitVec 32)
    (allowed : FlashCall.Allowed alignBuf (.read fa off dst len)) :
    IdealStep chip moment (world.view alignBuf)
      ((runCall chip alignBuf moment world (.read fa off dst len)).2.view alignBuf)
      (.read fa off dst len) (runCall chip alignBuf moment world (.read fa off dst len)).1 := by
  have most := lawful.storesAtMost moment world.flash
  have word := readRequest_aligned alignBuf bufAligned fa off dst len
  have outside (kept : ∀ address, Elsewhere alignBuf dst len address →
      (runCall chip alignBuf moment world (.read fa off dst len)).2.memory.byte address =
        world.memory.byte address) :
      (world.view alignBuf).SameOutside
        ((runCall chip alignBuf moment world (.read fa off dst len)).2.view alignBuf) dst
        len.toNat :=
    view_sameOutside fun address outsideDst outsideBuf =>
      kept address ⟨outsideDst, outside_of_not_inBuffer outsideBuf⟩
  by_cases refused : FlashCall.Refused chip.writeLines (.read fa off dst len)
  · obtain ⟨result, kept⟩ := flashAreaRead_refusedCall chip.writeLines refused
      (fun odd => lawful.refusesRead moment world.flash _ (word.not.mpr odd)) world.memory _ rfl
    rw [runCall, result]
    exact .refused _ refused rfl (view_ram_eq fun address _ => kept address)
  · have accepted := refused
    rw [FlashCall.Refused, ← or_assoc, not_or, not_not] at accepted
    obtain ⟨inside, start⟩ := accepted
    have aligned := word.mpr start
    cases works : chip.works moment with
    | true =>
      obtain ⟨result, delivered, kept⟩ := flashAreaRead_taken most allowed world.memory inside
        (lawful.reads moment world.flash _ aligned works) _ rfl
      rw [runCall, result]
      refine .read fa off dst len refused works rfl ?_ (outside kept)
      rw [view_bytes allowed.apart]
      exact delivered
    | false =>
      obtain ⟨result, kept⟩ := flashAreaRead_failed most allowed world.memory inside
        (lawful.failsRead moment world.flash _ aligned works).1 _ rfl
      rw [runCall, result]
      exact .readFails fa off dst len refused works rfl (outside kept)

/-- A write of the code is one of the store that the caller sees. -/
theorem runWrite_ideal (lawful : chip.Lawful) (bufAligned : alignBuf % 4 = 0) (moment : Nat)
    (world : FlashWorld) (fa : FlashArea) (off : BitVec 32) (src : Nat) (len : BitVec 32)
    (allowed : FlashCall.Allowed alignBuf (.write fa off src len)) :
    IdealStep chip moment (world.view alignBuf)
      ((runCall chip alignBuf moment world (.write fa off src len)).2.view alignBuf)
      (.write fa off src len) (runCall chip alignBuf moment world (.write fa off src len)).1 := by
  obtain ⟨four, apart⟩ := allowed
  have word := writeRequest_aligned alignBuf fa off src len bufAligned
  by_cases refused : FlashCall.Refused chip.writeLines (.write fa off src len)
  · obtain ⟨result, flash, kept⟩ := flashAreaWrite_refusedCall
      (chip.bootloaderFlashWrite moment) alignBuf fa off src len world.memory world.flash
      lawful.plain four refused
      (fun odd bytes => lawful.refusesWrite moment _ bytes world.flash
        (word.not.mpr (not_not.mpr odd))) _ rfl
    rw [runCall, result]
    exact .refused _ refused flash
      (view_ram_eq fun address outside => kept address (outside_of_not_inBuffer outside))
  · have accepted := refused
    rw [FlashCall.Refused, not_or] at accepted
    obtain ⟨goes, words⟩ := accepted
    have aligned := word.mpr words
    obtain ⟨result, flash, kept⟩ := flashAreaWrite_accepted (chip.bootloaderFlashWrite moment)
      alignBuf fa off src len world.memory world.flash lawful.plain four goes _ rfl
    have ram : ((runCall chip alignBuf moment world (.write fa off src len)).2.view alignBuf).ram =
        (world.view alignBuf).ram :=
      view_ram_eq fun address outside => kept address (outside_of_not_inBuffer outside)
    cases works : chip.works moment with
    | true =>
      obtain ⟨ok, programmed⟩ := lawful.writes moment _
        (world.memory.loadBytes src len.toNat) world.flash aligned works
      rw [ok, if_pos rfl] at result
      rw [runCall, result]
      refine .write fa off src len refused works ?_ ram
      rw [view_bytes apart]
      exact flash ▸ programmed
    | false =>
      obtain ⟨failed, spoiled⟩ := lawful.failsWrite moment _
        (world.memory.loadBytes src len.toNat) world.flash aligned works
      rw [failed, if_neg Bool.false_ne_true] at result
      rw [runCall, result]
      exact .writeFails fa off src len refused works (flash ▸ spoiled) ram

/-- A call of the code is one of the store that the caller sees. -/
theorem runCall_ideal (lawful : chip.Lawful) (bufAligned : alignBuf % 4 = 0) (moment : Nat)
    (world : FlashWorld) (call : FlashCall) (allowed : call.Allowed alignBuf) :
    IdealStep chip moment (world.view alignBuf)
      ((runCall chip alignBuf moment world call).2.view alignBuf) call
      (runCall chip alignBuf moment world call).1 := by
  cases call with
  | read fa off dst len => exact runRead_ideal lawful bufAligned moment world fa off dst len allowed
  | write fa off src len =>
    exact runWrite_ideal lawful bufAligned moment world fa off src len allowed
  | store address bytes =>
    refine .store address bytes rfl ?_ ?_
    · rw [view_bytes allowed]
      exact Memory.loadBytes_storeBytes world.memory address bytes
    · exact view_sameOutside fun other outside _ =>
        Memory.storeBytes_byte_of_outside world.memory address other bytes outside

end Runs

/-! ### What the flash holds -/

/-- What a call does to the flash: nothing when it is refused. -/
def FlashCall.events (writeLines : WriteLines) (world : IdealWorld) (result : Int) :
    FlashCall → List (Event 32 UInt8)
  | .write fa off src len =>
    if FlashCall.Refused writeLines (.write fa off src len) then []
    else if result = 0 then [.programmed (fa.faOff + off) (world.bytes src len.toNat)]
    else [.spoiled (fa.faOff + off) len.toNat]
  | _ => []

/-- What some calls do to the flash. -/
def flashEvents (chip : FlashChip) (alignBuf : Nat) :
    Nat → FlashWorld → List FlashCall → List (Event 32 UInt8)
  | _, _, [] => []
  | moment, world, call :: calls =>
    call.events chip.writeLines (world.view alignBuf) (runCall chip alignBuf moment world call).1 ++
      flashEvents chip alignBuf (moment + 1) (runCall chip alignBuf moment world call).2 calls

/-- A call that writes to none of some addresses. -/
def FlashCall.Avoids (start : BitVec 32) (count : Nat) : FlashCall → Prop
  | .write fa off _ len =>
    ∀ index, index < count → len.toNat ≤ (start + BitVec.ofNat 32 index - (fa.faOff + off)).toNat
  | _ => True

section Step

variable {chip : FlashChip} {moment : Nat} {before after : IdealWorld}

theorem IdealStep.run {call : FlashCall} {result : Int}
    (step : IdealStep chip moment before after call result) :
    Run chip.programByte before.flash (call.events chip.writeLines before result) after.flash := by
  cases step with
  | refused call refused flash kept =>
    rw [flash]
    cases call with
    | read fa off dst len => exact .nil _
    | write fa off src len =>
      rw [FlashCall.events, if_pos refused]
      exact .nil _
    | store address bytes => exact .nil _
  | read fa off dst len accepted works flash delivered kept =>
    rw [flash]
    exact .nil _
  | readFails fa off dst len accepted fails flash kept =>
    rw [flash]
    exact .nil _
  | write fa off src len accepted works programmed kept =>
    rw [FlashCall.events, if_neg accepted, if_pos rfl]
    exact .cons programmed (.nil _)
  | writeFails fa off src len accepted fails spoiled kept =>
    rw [FlashCall.events, if_neg accepted, if_neg (by decide)]
    exact .cons spoiled (.nil _)
  | store address bytes flash stored kept =>
    rw [flash]
    exact .nil _

/-- A read that returns 0 has delivered. -/
theorem IdealStep.delivers {fa : FlashArea} {off : BitVec 32} {dst : Nat} {len : BitVec 32}
    {result : Int} (step : IdealStep chip moment before after (.read fa off dst len) result)
    (zero : result = 0) :
    after.bytes dst len.toNat = slice before.flash (fa.faOff + off) len.toNat := by
  cases step with
  | refused _ refused flash kept => exact absurd zero (by decide)
  | read _ _ _ _ accepted works flash delivered kept => exact delivered
  | readFails _ _ _ _ accepted fails flash kept => exact absurd zero (by decide)

/-- A write that returns 0 has programmed. -/
theorem IdealStep.programs {fa : FlashArea} {off : BitVec 32} {src : Nat} {len : BitVec 32}
    {result : Int} (step : IdealStep chip moment before after (.write fa off src len) result)
    (zero : result = 0) :
    Follows chip.programByte (.programmed (fa.faOff + off) (before.bytes src len.toNat))
      before.flash after.flash := by
  cases step with
  | refused _ refused flash kept => exact absurd zero (by decide)
  | write _ _ _ _ accepted works programmed kept => exact programmed
  | writeFails _ _ _ _ accepted fails spoiled kept => exact absurd zero (by decide)

end Step

theorem FlashCall.Avoids.misses {start : BitVec 32} {count : Nat} {call : FlashCall}
    (avoids : call.Avoids start count) (writeLines : WriteLines) (world : IdealWorld)
    (result : Int) (event : Event 32 UInt8) (member : event ∈ call.events writeLines world result)
    (index : Nat) (inside : index < count) : event.Misses (start + BitVec.ofNat 32 index) := by
  cases call with
  | read fa off dst len => exact absurd member List.not_mem_nil
  | store address bytes => exact absurd member List.not_mem_nil
  | write fa off src len =>
    have outside := avoids index inside
    rw [FlashCall.events] at member
    split_ifs at member with refused zero
    · exact absurd member List.not_mem_nil
    · rw [List.mem_singleton.mp member]
      refine ⟨List.getElem?_eq_none ?_, id⟩
      rw [IdealWorld.bytes, List.length_map, List.length_range]
      exact outside
    · rw [List.mem_singleton.mp member]
      exact ⟨rfl, Nat.not_lt.mpr outside⟩

section Holds

variable {chip : FlashChip} {alignBuf : Nat}

theorem flashEvents_misses {start : BitVec 32} {count : Nat} (calls : List FlashCall)
    (avoid : ∀ call ∈ calls, call.Avoids start count) (moment : Nat) (world : FlashWorld)
    (event : Event 32 UInt8) (member : event ∈ flashEvents chip alignBuf moment world calls)
    (index : Nat) (inside : index < count) : event.Misses (start + BitVec.ofNat 32 index) := by
  induction calls generalizing moment world with
  | nil => exact absurd member List.not_mem_nil
  | cons call calls inductionHypothesis =>
    rcases List.mem_append.mp member with here | later
    · exact (avoid call List.mem_cons_self).misses _ _ _ event here index inside
    · exact inductionHypothesis (fun other rest => avoid other (List.mem_cons_of_mem _ rest))
        (moment + 1) _ later

/-- The flash after a run is the flash before it, with the events of the run. -/
theorem flashEvents_run (lawful : chip.Lawful) (bufAligned : alignBuf % 4 = 0)
    (calls : List FlashCall) (allowed : ∀ call ∈ calls, call.Allowed alignBuf) (moment : Nat)
    (world : FlashWorld) :
    Run chip.programByte world.flash (flashEvents chip alignBuf moment world calls)
      (runFlashCalls chip alignBuf moment world calls).2.flash := by
  induction calls generalizing moment world with
  | nil => exact .nil _
  | cons call calls inductionHypothesis =>
    have step := (runCall_ideal lawful bufAligned moment world call
      (allowed call List.mem_cons_self)).run
    exact step.append (inductionHypothesis
      (fun other member => allowed other (List.mem_cons_of_mem _ member)) (moment + 1)
      (runCall chip alignBuf moment world call).2)

/-- After any run a byte of the flash holds what the successful writes over it have programmed, one
on top of the other in their order, unless a write over it has failed. -/
theorem runFlashCalls_byte (lawful : chip.Lawful) (bufAligned : alignBuf % 4 = 0)
    (calls : List FlashCall) (allowed : ∀ call ∈ calls, call.Allowed alignBuf) (moment : Nat)
    (world : FlashWorld) (address : BitVec 32)
    (whole : ∀ event ∈ flashEvents chip alignBuf moment world calls, ¬ event.Spoils address) :
    (runFlashCalls chip alignBuf moment world calls).2.flash address =
      ((flashEvents chip alignBuf moment world calls).filterMap (Event.cellAt address)).foldl
        chip.programByte (world.flash address) :=
  (flashEvents_run lawful bufAligned calls allowed moment world).cell address whole

/-- What was written to an erased range is read back. Between the two calls and before them there
may be any calls that write elsewhere, and the read may be of any part of the range. -/
theorem runFlashCalls_readsBack (lawful : chip.Lawful) (bufAligned : alignBuf % 4 = 0)
    (first second : List FlashCall)
    (fa other : FlashArea) (off otherOff len count : BitVec 32) (src dst shift : Nat)
    (moment : Nat) (world before written after read : FlashWorld)
    (allowed : ∀ call ∈ first ++ .write fa off src len :: second ++
      [.read other otherOff dst count], call.Allowed alignBuf)
    (runFirst : before = (runFlashCalls chip alignBuf moment world first).2)
    (write : runCall chip alignBuf (moment + first.length) before (.write fa off src len) =
      (0, written))
    (runSecond : after =
      (runFlashCalls chip alignBuf (moment + first.length + 1) written second).2)
    (reads : runCall chip alignBuf (moment + first.length + 1 + second.length) after
      (.read other otherOff dst count) = (0, read))
    (erased : ∀ index, index < len.toNat → ∀ value,
      chip.programByte (world.flash (fa.faOff + off + BitVec.ofNat 32 index)) value = value)
    (avoidFirst : ∀ call ∈ first, call.Avoids (fa.faOff + off) len.toNat)
    (avoidSecond : ∀ call ∈ second, call.Avoids (fa.faOff + off) len.toNat)
    (inside : shift + count.toNat ≤ len.toNat)
    (place : other.faOff + otherOff = fa.faOff + off + BitVec.ofNat 32 shift) :
    read.memory.loadBytes dst count.toNat =
      ((before.memory.loadBytes src len.toNat).drop shift).take count.toNat := by
  have bound := len.isLt
  have allowedFirst : ∀ call ∈ first, call.Allowed alignBuf := fun call member =>
    allowed call (List.mem_append_left _ (List.mem_append_left _ member))
  have allowedWrite : FlashCall.Allowed alignBuf (.write fa off src len) :=
    allowed _ (List.mem_append_left _ (List.mem_append_right _ List.mem_cons_self))
  have allowedSecond : ∀ call ∈ second, call.Allowed alignBuf := fun call member =>
    allowed call (List.mem_append_left _ (List.mem_append_right _
      (List.mem_cons_of_mem _ member)))
  have allowedRead : FlashCall.Allowed alignBuf (.read other otherOff dst count) :=
    allowed _ (List.mem_append_right _ List.mem_cons_self)
  have writeStep := runCall_ideal lawful bufAligned (moment + first.length) before _ allowedWrite
  have readStep := runCall_ideal lawful bufAligned (moment + first.length + 1 + second.length)
    after _ allowedRead
  rw [write] at writeStep
  rw [reads] at readStep
  have source : (before.view alignBuf).bytes src len.toNat =
      before.memory.loadBytes src len.toNat := view_bytes allowedWrite.2
  have length : ((before.view alignBuf).bytes src len.toNat).length = len.toNat := by
    rw [source, Memory.loadBytes_length]
  have firstRun := flashEvents_run lawful bufAligned first allowedFirst moment world
  have secondRun := flashEvents_run lawful bufAligned second allowedSecond
    (moment + first.length + 1) written
  rw [← runFirst] at firstRun
  rw [← runSecond] at secondRun
  have held := firstRun.slice_of_once (writeStep.programs rfl) secondRun (by omega)
    (fun index small => erased index (by omega))
    (fun event member index small => flashEvents_misses first avoidFirst _ _ event member index
      (by omega))
    (fun event member index small => flashEvents_misses second avoidSecond _ _ event member index
      (by omega))
  rw [length, source] at held
  have delivered := readStep.delivers rfl
  rw [view_bytes allowedRead.apart, place] at delivered
  rw [delivered, ← held]
  exact (take_drop_slice after.flash _ shift count.toNat len.toNat inside).symm

end Holds

/-! ### A chip -/

instance : DecidablePred FlashReadRequest.Aligned := fun _ =>
  inferInstanceAs (Decidable (_ ∧ _ ∧ _))

instance : DecidablePred FlashWriteRequest.Aligned := fun _ =>
  inferInstanceAs (Decidable (_ ∧ _ ∧ _))

/-- A flash chip whose programming only clears bits, behind drivers of whole words. -/
def clearingChip (works : Nat → Bool) : FlashChip where
  works := works
  bootloaderFlashRead moment flash request :=
    if request.Aligned ∧ works moment = true then
      (true, slice flash request.srcAddr request.size.toNat)
    else (false, [])
  bootloaderFlashWrite moment request bytes flash :=
    if request.Aligned ∧ works moment = true then
      (true, fun address =>
        (bytes[(address - request.destAddr).toNat]?.map (flash address &&& ·)).getD
          (flash address))
    else (false, flash)
  writeLines fa off src len := some ⟨fa.faOff + off, src, len⟩
  programByte := (· &&& ·)

theorem clearingChip_lawful (works : Nat → Bool) : (clearingChip works).Lawful where
  plain _ _ _ _ := Or.inl fun _ => rfl
  refusesRead moment flash request odd := if_neg fun both => odd both.1
  reads moment flash request aligned now := if_pos ⟨aligned, now⟩
  failsRead moment flash request aligned now := by
    have fails : (clearingChip works).bootloaderFlashRead moment flash request = (false, []) :=
      if_neg fun both => absurd (now.symm.trans both.2) Bool.false_ne_true
    rw [fails]
    exact ⟨rfl, Nat.zero_le _⟩
  refusesWrite moment request bytes flash odd := if_neg fun both => odd both.1
  writes moment request bytes flash aligned now := by
    simp only [clearingChip] at now ⊢
    rw [if_pos ⟨aligned, now⟩]
    exact ⟨rfl, fun address _ => rfl⟩
  failsWrite moment request bytes flash aligned now := by
    have fails : (clearingChip works).bootloaderFlashWrite moment request bytes flash =
        (false, flash) := if_neg fun both => absurd (now.symm.trans both.2) Bool.false_ne_true
    rw [fails]
    exact ⟨rfl, follows_spoiled _ _ _ _⟩

/-- An erased flash, and a memory whose bytes are their addresses. -/
def erasedWorld : FlashWorld where
  flash _ := 0xFF
  memory := Memory.fresh fun address => UInt8.ofNat address

/-- Eight bytes are written from an unaligned source, which is then overwritten. -/
def writeCalls : List FlashCall :=
  [.write primarySlot 0x10 0x3FFB0001 8, .store 0x3FFB0001 [0, 0, 0, 0]]

/-- Then three of them are read, a length of six bytes is refused, and at last the chip fails. -/
def mixedCalls : List FlashCall :=
  writeCalls ++ [.read primarySlot 0x14 0x3FFB0101 3, .write primarySlot 0x10 0x3FFB0200 6,
    .write primarySlot 0x20 0x3FFB0200 8]

theorem allowed_mixedCalls : ∀ call ∈ mixedCalls, call.Allowed 0x3FFC0000 := by
  simp only [mixedCalls, writeCalls, List.cons_append, List.nil_append, List.mem_cons,
    List.not_mem_nil, or_false, forall_eq_or_imp, forall_eq]
  exact ⟨⟨by decide, Or.inl (by decide)⟩, Or.inl (by decide),
    ⟨Or.inl (by decide), fun _ => by decide⟩, ⟨by decide, Or.inl (by decide)⟩,
    ⟨by decide, Or.inl (by decide)⟩⟩

/-- The refused write over a byte leaves what was programmed into it. -/
theorem runFlashCalls_byte_mixed :
    (runFlashCalls (clearingChip (· != 4)) 0x3FFC0000 0 erasedWorld mixedCalls).2.flash 0x20013 =
      4 := by
  have events : flashEvents (clearingChip (· != 4)) 0x3FFC0000 0 erasedWorld mixedCalls =
      [.programmed 0x20010 [1, 2, 3, 4, 5, 6, 7, 8], .spoiled 0x20020 8] := by rfl
  have byte := runFlashCalls_byte (clearingChip_lawful (· != 4)) (by decide) mixedCalls
    allowed_mixedCalls 0 erasedWorld 0x20013 fun event member => by
      rw [events] at member
      rcases List.mem_cons.mp member with first | last
      · rw [first]
        exact id
      · rw [List.mem_singleton.mp last]
        exact (by decide : ¬ (0x20013#32 - 0x20020#32).toNat < 8)
  rw [events] at byte
  exact byte.trans (by decide)

/-- The last bytes of the eight, read to an unaligned destination. -/
theorem runFlashCalls_readsBack_three :
    ∃ read, runCall (clearingChip (· != 4)) 0x3FFC0000 2
        (runFlashCalls (clearingChip (· != 4)) 0x3FFC0000 0 erasedWorld writeCalls).2
        (.read primarySlot 0x14 0x3FFB0101 3) = (0, read) ∧
      read.memory.loadBytes 0x3FFB0101 3 = [5, 6, 7] := by
  refine ⟨_, rfl, ?_⟩
  have allowed : ∀ call ∈ [] ++ .write primarySlot 0x10 0x3FFB0001 8 ::
      [.store 0x3FFB0001 [0, 0, 0, 0]] ++ [.read primarySlot 0x14 0x3FFB0101 3],
      FlashCall.Allowed 0x3FFC0000 call :=
    fun call member => allowed_mixedCalls call (List.mem_append_left
      ([.write primarySlot 0x10 0x3FFB0200 6, .write primarySlot 0x20 0x3FFB0200 8] :
        List FlashCall) member)
  have read := runFlashCalls_readsBack (clearingChip_lawful (· != 4)) (by decide) []
    [.store 0x3FFB0001 [0, 0, 0, 0]] primarySlot primarySlot 0x10 0x14 8 3 0x3FFB0001 0x3FFB0101 4
    0 erasedWorld erasedWorld _ _ _ allowed rfl rfl rfl rfl (fun _ _ _ => UInt8.neg_one_and)
    (fun _ member => by cases member)
    (fun call member => by rw [List.mem_singleton.mp member]; trivial) (by decide) (by decide)
  exact read.trans (by decide)

end McubootPort
