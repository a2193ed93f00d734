/-
This file models the receiving half of `boot_serial_port.c`: `readline`, which
polls the UART and drains its receive FIFO into the caller's buffer, and
`boot_port_serial_read`, which adds the newline flag.

Time is the list of arrivals: one entry for each poll, with the bytes that came
in since the poll before. A call that has used up the list without stopping is
still polling. The counters are natural numbers: a call counts fewer than its
capacity, below 2 ^ 31, before its last poll, and one poll adds what the FIFO
holds, so the 32-bit counter of the source does not wrap.

The drain loop latches `stop` but goes on to the end of the batch, so one call
is a reader in whole batches. What it returns is `Framing.gather`, and the two
questions asked of it, whether it stays inside the buffer and whether it returns
lines, are answered by the batches.
-/

import McubootPort.Library.ByteMemory
import McubootPort.Library.Framing
import Mathlib.Algebra.Ring.Int.Defs
import Mathlib.Algebra.Ring.Nat
import Mathlib.Logic.Relation

namespace McubootPort

open ByteMemory Framing

/-! ### The UART and the drain loop -/

/-- The receive side of the UART: the bytes in its FIFO, oldest first. -/
structure RxUart where
  rxfifo : List UInt8

/-- The FIFO after `uart_ll_rxfifo_rst`. -/
def RxUart.reset : RxUart := { rxfifo := [] }

/-- Bytes arrive on the line. -/
def RxUart.receive (uart : RxUart) (arrived : List UInt8) : RxUart :=
  { rxfifo := uart.rxfifo ++ arrived }

def uartLlGetRxfifoLen (uart : RxUart) : Nat := uart.rxfifo.length

/-- `uart_ll_read_rxfifo` for one byte: the oldest byte of the FIFO goes to memory. -/
def uartLlReadRxfifo (uart : RxUart) (memory : Memory) (address : Nat) : RxUart × Memory :=
  ({ rxfifo := uart.rxfifo.tail }, memory.store address (uart.rxfifo.headD 0))

/-- The character `'\n'`. -/
def newline : UInt8 := 10

/-- Whether a byte ends a line. -/
def isNewline (byte : UInt8) : Bool := byte == newline

/-- The C conversion of an `int` to `uint32_t`. -/
def toUint32 (value : Int) : Nat := (value % 2 ^ 32).toNat

/-- The variables of `readline`, with the UART and the memory they act on. -/
structure ReadState where
  uart : RxUart
  memory : Memory
  nRead : Nat
  stop : Bool

/-- One turn of the drain loop: a byte goes to `buf[n_read]`, and `stop` is latched at the
capacity or at a newline, which is read back from the buffer. -/
def readByte (buf cap : Nat) (state : ReadState) : ReadState :=
  let (uart, memory) := uartLlReadRxfifo state.uart state.memory (buf + state.nRead)
  let nRead := state.nRead + 1
  { uart, memory, nRead,
    stop := state.stop || (nRead == cap || memory.byte (buf + nRead - 1) == newline) }

/-- The drain loop over the `len` bytes that the FIFO held when the poll looked at it. It does
not test `stop`. -/
def drain (buf cap : Nat) : Nat → ReadState → ReadState
  | 0, state => state
  | len + 1, state => drain buf cap len (readByte buf cap state)

/-- One pass of the outer loop, after `arrived` came in. -/
def poll (buf cap : Nat) (arrived : List UInt8) (state : ReadState) : ReadState :=
  let uart := state.uart.receive arrived
  drain buf cap (uartLlGetRxfifoLen uart) { state with uart }

/-- The outer loop: `do poll while (!stop)`. The result has the arrivals that were not used. -/
def readlineLoop (buf cap : Nat) : ReadState → List (List UInt8) →
    ReadState × List (List UInt8)
  | state, [] => (state, [])
  | state, arrived :: later =>
    let next := poll buf cap arrived state
    if next.stop then (next, later) else readlineLoop buf cap next later

def readline (uart : RxUart) (memory : Memory) (buf cap : Nat) (arrivals : List (List UInt8)) :
    ReadState × List (List UInt8) :=
  readlineLoop buf cap { uart, memory, nRead := 0, stop := false } arrivals

/-- What a call of `boot_port_serial_read` did: the count it returns and the value it puts in
`*newline`, when it has returned, and what it left behind. -/
structure SerialRead where
  outcome : Option (Nat × Nat)
  uart : RxUart
  memory : Memory
  later : List (List UInt8)

def bootPortSerialRead (uart : RxUart) (memory : Memory) (str : Nat) (cnt : Int)
    (arrivals : List (List UInt8)) : SerialRead :=
  let (state, later) := readline uart memory str (toUint32 cnt) arrivals
  let flag := if state.memory.byte (str + state.nRead - 1) == newline then 1 else 0
  { outcome := if state.stop then some (state.nRead, flag) else none
    uart := state.uart
    memory := state.memory
    later }

/-! ### One call is a batch reader -/

theorem toUint32_of_int (cnt : Int) (positive : 1 ≤ cnt) (fits : cnt < 2 ^ 31) :
    toUint32 cnt = cnt.toNat := by
  unfold toUint32
  omega

theorem drain_eq (buf cap : Nat) (bytes : List UInt8) (state : ReadState)
    (holds : state.uart.rxfifo = bytes) :
    drain buf cap bytes.length state =
      { uart := RxUart.reset
        memory := state.memory.storeBytes (buf + state.nRead) bytes
        nRead := state.nRead + bytes.length
        stop := state.stop || (decide (state.nRead < cap ∧ cap ≤ state.nRead + bytes.length) ||
          bytes.any isNewline) } := by
  induction bytes generalizing state with
  | nil =>
    obtain ⟨⟨rxfifo⟩, memory, nRead, stop⟩ := state
    have never : ¬ (nRead < cap ∧ cap ≤ nRead) := by omega
    simp only at holds
    simp [drain, RxUart.reset, holds, never]
  | cons byte rest inductionHypothesis =>
    have next : (readByte buf cap state).uart.rxfifo = rest := by
      simp only [readByte, uartLlReadRxfifo, holds, List.tail_cons]
    rw [List.length_cons, drain, inductionHypothesis _ next]
    have back : buf + (state.nRead + 1) - 1 = buf + state.nRead := by omega
    simp only [readByte, uartLlReadRxfifo, holds, List.headD_cons, back, Memory.store_byte_self,
      ReadState.mk.injEq, true_and, Memory.storeBytes_cons, List.any_cons]
    refine ⟨by rw [Nat.add_assoc], by omega, ?_⟩
    have reached : decide (state.nRead < cap ∧ cap ≤ state.nRead + (rest.length + 1)) =
        ((state.nRead + 1 == cap) ||
          decide (state.nRead + 1 < cap ∧ cap ≤ state.nRead + 1 + rest.length)) := by
      rw [Bool.eq_iff_iff]
      simp only [decide_eq_true_eq, Bool.or_eq_true, beq_iff_eq]
      omega
    rw [reached, isNewline]
    cases state.stop <;> cases (state.nRead + 1 == cap) <;> cases (byte == newline) <;> simp

/-- The state of a call that has taken the bytes `held` so far. -/
def holding (memory : Memory) (buf cap : Nat) (held : List UInt8) : ReadState where
  uart := RxUart.reset
  memory := memory.storeBytes buf held
  nRead := held.length
  stop := complete isNewline cap held

theorem poll_holding (memory : Memory) (buf cap : Nat) (held arrived : List UInt8)
    (waiting : complete isNewline cap held = false) :
    poll buf cap arrived (holding memory buf cap held) =
      holding memory buf cap (held ++ arrived) := by
  have open' := waiting
  simp only [complete, Bool.or_eq_false_iff, decide_eq_false_iff_not, Nat.not_le] at open'
  have drained := drain_eq buf cap arrived
    { holding memory buf cap held with uart := RxUart.reset.receive arrived } rfl
  refine drained.trans ?_
  simp only [holding, waiting, Bool.false_or, open'.1, true_and]
  simp only [Memory.storeBytes_append, List.length_append, complete, List.any_append, open'.2,
    Bool.false_or]

/-- The outer loop takes whole batches until what it holds is complete. -/
theorem readlineLoop_holding (memory : Memory) (buf cap : Nat) (held : List UInt8)
    (arrivals : List (List UInt8)) (waiting : complete isNewline cap held = false) :
    readlineLoop buf cap (holding memory buf cap held) arrivals =
      match gather isNewline cap held arrivals with
      | some (gathered, later) => (holding memory buf cap gathered, later)
      | none => (holding memory buf cap (held ++ arrivals.flatten), []) := by
  induction arrivals generalizing held with
  | nil => simp [readlineLoop, gather]
  | cons arrived later inductionHypothesis =>
    rw [readlineLoop, poll_holding memory buf cap held arrived waiting, gather]
    cases done : complete isNewline cap (held ++ arrived) with
    | true => simp [holding, done]
    | false =>
      have stopped : (holding memory buf cap (held ++ arrived)).stop = false := done
      simp only [stopped, Bool.false_eq_true, if_false, List.flatten_cons, ← List.append_assoc]
      exact inductionHypothesis (held ++ arrived) done

/-- The value `*newline` gets for the bytes returned: it looks at the last one only. -/
def newlineFlag (bytes : List UInt8) : Nat :=
  if bytes.getLast? = some newline then 1 else 0

theorem newlineFlag_storeBytes (memory : Memory) (str : Nat) (bytes : List UInt8)
    (nonempty : 1 ≤ bytes.length) :
    (if (memory.storeBytes str bytes).byte (str + bytes.length - 1) == newline then 1 else 0) =
      newlineFlag bytes := by
  have last : bytes.length - 1 < bytes.length := by omega
  rw [show str + bytes.length - 1 = str + (bytes.length - 1) by omega,
    Memory.storeBytes_byte memory str _ bytes last, newlineFlag, List.getLast?_eq_getElem?,
    List.getElem?_eq_getElem last]
  simp

/-- A call of `boot_port_serial_read` on an empty FIFO gathers whole batches into the buffer. -/
theorem bootPortSerialRead_eq (memory : Memory) (str : Nat) (cnt : Int) (positive : 1 ≤ cnt)
    (fits : cnt < 2 ^ 31) (arrivals : List (List UInt8)) :
    bootPortSerialRead RxUart.reset memory str cnt arrivals =
      match gather isNewline cnt.toNat [] arrivals with
      | some (gathered, later) =>
        { outcome := some (gathered.length, newlineFlag gathered)
          uart := RxUart.reset
          memory := memory.storeBytes str gathered
          later }
      | none =>
        { outcome := none
          uart := RxUart.reset
          memory := memory.storeBytes str arrivals.flatten
          later := [] } := by
  have large : 1 ≤ cnt.toNat := by omega
  have empty := complete_nil isNewline cnt.toNat large
  have start : holding memory str cnt.toNat [] =
      { uart := RxUart.reset, memory, nRead := 0, stop := false } := by
    simp [holding, empty]
  simp only [bootPortSerialRead, readline, toUint32_of_int cnt positive fits, ← start,
    readlineLoop_holding memory str cnt.toNat [] arrivals empty]
  cases result : gather isNewline cnt.toNat [] arrivals with
  | none =>
    have waiting := gather_none isNewline cnt.toNat [] arrivals empty result
    simp [holding, List.nil_append, (List.nil_append arrivals.flatten) ▸ waiting]
  | some pair =>
    obtain ⟨used, spec⟩ := gather_some isNewline cnt.toNat [] arrivals pair.1 pair.2 empty result
    have nonempty := length_of_complete isNewline cnt.toNat large pair.1 spec.done
    have flag := newlineFlag_storeBytes memory str pair.1 nonempty
    simp only [holding, spec.done, if_true, flag]

/-! ### Staying inside the buffer -/

/-- What a buffer of `cnt` bytes at `str` asks of a call: it stores only inside the buffer, and
the count it returns is one of `1 .. cnt`. -/
def SerialRead.InBounds (read : SerialRead) (str cnt : Nat) : Prop :=
  read.memory.StoresWithin str cnt ∧
    ∀ count flag, read.outcome = some (count, flag) → 1 ≤ count ∧ count ≤ cnt

theorem inBounds_iff_fits (byte : Nat → UInt8) (str : Nat) (cnt : Int) (positive : 1 ≤ cnt)
    (int : cnt < 2 ^ 31) (arrivals : List (List UInt8)) :
    (bootPortSerialRead RxUart.reset (Memory.fresh byte) str cnt arrivals).InBounds str cnt.toNat ↔
      Fits isNewline cnt.toNat arrivals := by
  have large : 1 ≤ cnt.toNat := by omega
  have empty := complete_nil isNewline cnt.toNat large
  rw [← gather_length_le_iff isNewline cnt.toNat large, bootPortSerialRead_eq _ _ _ positive int]
  cases result : gather isNewline cnt.toNat [] arrivals with
  | none =>
    have waiting := gather_none isNewline cnt.toNat [] arrivals empty result
    simp only [List.nil_append, complete, Bool.or_eq_false_iff, decide_eq_false_iff_not] at waiting
    simp only [SerialRead.InBounds, Memory.storesWithin_storeBytes_fresh_iff, reduceCtorEq,
      false_implies, implies_true, and_true, iff_true]
    omega
  | some pair =>
    obtain ⟨used, spec⟩ := gather_some isNewline cnt.toNat [] arrivals pair.1 pair.2 empty result
    have nonempty := length_of_complete isNewline cnt.toNat large pair.1 spec.done
    simp only [SerialRead.InBounds, Memory.storesWithin_storeBytes_fresh_iff, Option.some.injEq,
      Prod.mk.injEq]
    constructor
    · rintro ⟨short, _⟩ gathered later rfl
      exact short
    · intro bounded
      refine ⟨bounded pair.1 pair.2 rfl, ?_⟩
      rintro count flag ⟨rfl, _⟩
      exact ⟨nonempty, bounded pair.1 pair.2 rfl⟩

/-- A call returns as soon as the arrivals hold a newline or fill the buffer. -/
theorem bootPortSerialRead_returns_iff (memory : Memory) (str : Nat) (cnt : Int)
    (positive : 1 ≤ cnt) (int : cnt < 2 ^ 31) (arrivals : List (List UInt8)) :
    (bootPortSerialRead RxUart.reset memory str cnt arrivals).outcome.isSome = true ↔
      complete isNewline cnt.toNat arrivals.flatten = true := by
  have empty := complete_nil isNewline cnt.toNat (by omega)
  rw [bootPortSerialRead_eq _ _ _ positive int]
  cases result : gather isNewline cnt.toNat [] arrivals with
  | none =>
    have waiting := gather_none isNewline cnt.toNat [] arrivals empty result
    rw [List.nil_append] at waiting
    simp [waiting]
  | some pair =>
    obtain ⟨used, spec⟩ := gather_some isNewline cnt.toNat [] arrivals pair.1 pair.2 empty result
    simp [← spec.flatten_eq, complete_append isNewline cnt.toNat pair.1 pair.2.flatten spec.done]

/-- The reading loop of the caller, which is `boot_serial_start` of the MCUBoot submodule: its
place in the buffer after the last call, whether that call ended a line, and what is still to
arrive. -/
structure Caller where
  uart : RxUart
  memory : Memory
  off : Nat
  fullLine : Bool
  later : List (List UInt8)

def Caller.start (byte : Nat → UInt8) (arrivals : List (List UInt8)) : Caller where
  uart := RxUart.reset
  memory := Memory.fresh byte
  off := 0
  fullLine := false
  later := arrivals

/-- The place of the next call: back to the start after a full line or when the buffer is full. -/
def Caller.place (size : Nat) (caller : Caller) : Nat :=
  if caller.fullLine || caller.off == size then 0 else caller.off

/-- The caller reads into the rest of its buffer and adds the count to its place. -/
def callerStep (buf size : Nat) (caller : Caller) : Option Caller :=
  let off := caller.place size
  let read := bootPortSerialRead caller.uart caller.memory (buf + off) ((size : Int) - off)
    caller.later
  read.outcome.map fun pair =>
    { uart := read.uart
      memory := read.memory
      off := off + pair.1
      fullLine := pair.2 == 1
      later := read.later }

/-- A step of the caller whose call finds every batch within the room it offers. -/
def FittingCall (buf size : Nat) (caller next : Caller) : Prop :=
  Fits isNewline (size - caller.place size) caller.later ∧
    callerStep buf size caller = some next

/-- What a run of the caller keeps: its place and its stores are inside the buffer. -/
structure Caller.InBuffer (buf size : Nat) (caller : Caller) : Prop where
  drained : caller.uart = RxUart.reset
  place : caller.off ≤ size
  stores : caller.memory.StoresWithin buf size

theorem inBuffer_start (buf size : Nat) (byte : Nat → UInt8) (arrivals : List (List UInt8)) :
    (Caller.start byte arrivals).InBuffer buf size where
  drained := rfl
  place := Nat.zero_le size
  stores := fun _ member => by cases member

theorem inBuffer_step (buf size : Nat) (positive : 1 ≤ size) (int : size < 2 ^ 31)
    (caller next : Caller) (inside : caller.InBuffer buf size)
    (step : FittingCall buf size caller next) : next.InBuffer buf size := by
  obtain ⟨fits, stepped⟩ := step
  have below : caller.place size < size := by
    have place := inside.place
    unfold Caller.place
    split
    · exact positive
    · rename_i ongoing
      simp only [Bool.or_eq_true, beq_iff_eq, not_or] at ongoing
      omega
  have room : ((size : Int) - caller.place size).toNat = size - caller.place size := by omega
  have empty := complete_nil isNewline (size - caller.place size) (by omega)
  rw [callerStep, inside.drained, bootPortSerialRead_eq _ _ _ (by omega) (by omega), room]
    at stepped
  cases result : gather isNewline (size - caller.place size) [] caller.later with
  | none =>
    rw [result] at stepped
    cases stepped
  | some pair =>
    rw [result, Option.map_some, Option.some.injEq] at stepped
    have bound := (gather_length_le_iff isNewline _ (by omega) caller.later).mpr fits _ _ result
    subst stepped
    refine ⟨rfl, by simp only; omega, ?_⟩
    exact Memory.storesWithin_storeBytes _ buf size _ _ inside.stores (by omega) (by omega)

theorem inBuffer_run (buf size : Nat) (positive : 1 ≤ size) (int : size < 2 ^ 31)
    (caller next : Caller) (inside : caller.InBuffer buf size)
    (run : Relation.ReflTransGen (FittingCall buf size) caller next) :
    next.InBuffer buf size := by
  induction run with
  | refl => exact inside
  | tail _ step inductionHypothesis =>
    exact inBuffer_step buf size positive int _ _ inductionHypothesis step

/-- `boot_port_serial_read` stays inside its buffer exactly when no poll finds more bytes in the
FIFO than the call still has room for, and it returns as soon as a newline has arrived or the
buffer is full. In a run of the caller whose calls all meet the condition, the offset never
exceeds the size of the buffer. -/
theorem bootPortSerialRead_inBounds_iff (byte : Nat → UInt8) (str : Nat) (cnt : Int)
    (positive : 1 ≤ cnt) (int : cnt < 2 ^ 31) (arrivals : List (List UInt8)) :
    ((bootPortSerialRead RxUart.reset (Memory.fresh byte) str cnt arrivals).InBounds str
        cnt.toNat ↔ Fits isNewline cnt.toNat arrivals) ∧
      ((bootPortSerialRead RxUart.reset (Memory.fresh byte) str cnt arrivals).outcome.isSome =
          true ↔ complete isNewline cnt.toNat arrivals.flatten = true) ∧
      ∀ caller, Relation.ReflTransGen (FittingCall str cnt.toNat) (Caller.start byte arrivals)
          caller → caller.off ≤ cnt.toNat ∧ caller.memory.StoresWithin str cnt.toNat := by
  refine ⟨inBounds_iff_fits byte str cnt positive int arrivals,
    bootPortSerialRead_returns_iff _ str cnt positive int arrivals, fun caller run => ?_⟩
  have inside := inBuffer_run str cnt.toNat (by omega) (by omega) _ caller
    (inBuffer_start str cnt.toNat byte arrivals) run
  exact ⟨inside.place, inside.stores⟩

/-- Two polls of two bytes, with room for both. The first call of the caller ends behind a newline
and another byte, so that the second one reads into the two bytes that are left. -/
theorem bootPortSerialRead_inBounds_two :
    (bootPortSerialRead RxUart.reset (Memory.fresh fun _ => 0) 0x100 4
        [[10, 0x61], [0x62, 10]]).InBounds 0x100 4 ∧
      ∃ first last, callerStep 0x100 4 (Caller.start (fun _ => 0) [[10, 0x61], [0x62, 10]]) =
          some first ∧ first.off = 2 ∧ callerStep 0x100 4 first = some last ∧
        last.off ≤ 4 ∧ last.memory.StoresWithin 0x100 4 := by
  obtain ⟨inBounds, _, runs⟩ := bootPortSerialRead_inBounds_iff (fun _ => 0) 0x100 4 (by decide)
    (by decide) [[10, 0x61], [0x62, 10]]
  have fits : Fits isNewline 4 [[10, 0x61], [0x62, 10]] :=
    fits_of_flatten_length_le isNewline 4 _ (by decide)
  have rest : Fits isNewline 2 [[0x62, 10]] := fits_of_flatten_length_le isNewline 2 _ (by decide)
  obtain ⟨first, last, one, off, place, later, two⟩ : ∃ first last,
      callerStep 0x100 4 (Caller.start (fun _ => 0) [[10, 0x61], [0x62, 10]]) = some first ∧
        first.off = 2 ∧ first.place 4 = 2 ∧ first.later = [[0x62, 10]] ∧
        callerStep 0x100 4 first = some last := ⟨_, _, rfl, rfl, rfl, rfl, rfl⟩
  refine ⟨inBounds.mpr fits, first, last, one, off, two, runs last ?_⟩
  refine (Relation.ReflTransGen.single ⟨fits, one⟩).tail ⟨?_, two⟩
  show Fits isNewline (4 - first.place 4) first.later
  rw [place, later]
  exact rest

/-- One byte, and then two bytes in one poll, overrun a buffer of two: the call returns three, a
byte lands behind the buffer, and the offset of the caller passes the size. -/
theorem bootPortSerialRead_overrun :
    ¬ (bootPortSerialRead RxUart.reset (Memory.fresh fun _ => 0) 0x100 2
        [[0x61], [0x62, 0x63]]).InBounds 0x100 2 ∧
      0x102 ∈ (bootPortSerialRead RxUart.reset (Memory.fresh fun _ => 0) 0x100 2
        [[0x61], [0x62, 0x63]]).memory.stored ∧
      (callerStep 0x100 2 (Caller.start (fun _ => 0) [[0x61], [0x62, 0x63]])).map Caller.off =
        some 3 := by
  have stored : 0x102 ∈ (bootPortSerialRead RxUart.reset (Memory.fresh fun _ => 0) 0x100 2
      [[0x61], [0x62, 0x63]]).memory.stored := by decide
  refine ⟨fun inside => ?_, stored, by decide⟩
  exact absurd (inside.1 _ stored).2 (by decide)

/-! ### Returning lines -/

/-- The results of successive calls, each with its own buffer and capacity: the bytes in the
buffer and the newline flag. A call that is still polling ends the list. -/
def serialReads (uart : RxUart) (memory : Memory) : List (Nat × Int) → List (List UInt8) →
    List (List UInt8 × Nat)
  | [], _ => []
  | (str, cnt) :: calls, arrivals =>
    let read := bootPortSerialRead uart memory str cnt arrivals
    match read.outcome with
    | none => []
    | some (count, flag) =>
      (read.memory.loadBytes str count, flag) ::
        serialReads read.uart read.memory calls read.later

/-- The capacities of successive calls. -/
def capacities (calls : List (Nat × Int)) : List Nat := calls.map fun call => call.2.toNat

/-- What the calls are to return: the frames of the stream, flagged when they hold a newline. -/
def lines (calls : List (Nat × Int)) (stream : List UInt8) : List (List UInt8 × Nat) :=
  (frames isNewline (capacities calls) stream).map fun frame =>
    (frame, if newline ∈ frame then 1 else 0)

/-- Every line of the stream ends where a batch ends: no poll finds bytes of two lines. -/
def LineAligned (calls : List (Nat × Int)) (arrivals : List (List UInt8)) : Prop :=
  ends 0 (frames isNewline (capacities calls) arrivals.flatten) ⊆ ends 0 arrivals

theorem serialReads_eq_gatherAll (memory : Memory) (calls : List (Nat × Int))
    (valid : ∀ call ∈ calls, 1 ≤ call.2 ∧ call.2 < 2 ^ 31) (arrivals : List (List UInt8)) :
    serialReads RxUart.reset memory calls arrivals =
      (gatherAll isNewline (capacities calls) arrivals).map fun gathered =>
        (gathered, newlineFlag gathered) := by
  induction calls generalizing memory arrivals with
  | nil => rfl
  | cons call calls inductionHypothesis =>
    obtain ⟨str, cnt⟩ := call
    obtain ⟨positive, int⟩ := valid _ List.mem_cons_self
    have rest := fun memory => inductionHypothesis memory
      fun other member => valid other (List.mem_cons_of_mem _ member)
    simp only [serialReads, bootPortSerialRead_eq memory str cnt positive int, capacities,
      List.map_cons, gatherAll]
    cases gather isNewline cnt.toNat [] arrivals with
    | none => rfl
    | some pair =>
      simp only [Memory.loadBytes_storeBytes, List.map_cons, List.cons.injEq, true_and]
      exact rest _ pair.2

/-- In a first frame a newline can only be the last byte, so the flag is right. -/
theorem newlineFlag_frame (capacity : Nat) (stream frame rest : List UInt8)
    (first : FirstFrame isNewline capacity stream frame rest) :
    newlineFlag frame = if newline ∈ frame then 1 else 0 := by
  have same : frame.getLast? = some newline ↔ newline ∈ frame := by
    constructor
    · exact List.mem_of_getLast?
    · intro member
      obtain ⟨before, behind, split⟩ := List.append_of_mem member
      have done : complete isNewline capacity (before ++ [newline]) = true := by
        simp [complete, isNewline]
      have short := first.shortest (before ++ [newline]) (behind ++ rest)
        (by rw [← first.split, split]; simp) done
      have none : behind = [] := by
        rw [split, List.length_append, List.length_cons, List.length_append,
          List.length_singleton] at short
        exact List.eq_nil_of_length_eq_zero (by omega)
      rw [split, none, List.getLast?_append, List.getLast?_singleton, Option.some_or]
  simp only [newlineFlag, same]

theorem frames_flagged (capacities : List Nat) (positive : ∀ capacity ∈ capacities, 1 ≤ capacity)
    (stream : List UInt8) :
    ((frames isNewline capacities stream).map fun frame => (frame, newlineFlag frame)) =
      (frames isNewline capacities stream).map fun frame =>
        (frame, if newline ∈ frame then 1 else 0) := by
  induction capacities generalizing stream with
  | nil => rfl
  | cons capacity rest inductionHypothesis =>
    rw [frames]
    cases taken : takeFrame isNewline capacity stream with
    | none => rfl
    | some pair =>
      have first := takeFrame_some isNewline capacity (positive _ List.mem_cons_self) _ _ _ taken
      simp only [List.map_cons, newlineFlag_frame capacity stream pair.1 pair.2 first]
      rw [inductionHypothesis (fun other member => positive other (List.mem_cons_of_mem _ member))]

theorem serialReads_eq_lines (memory : Memory) (calls : List (Nat × Int))
    (valid : ∀ call ∈ calls, 1 ≤ call.2 ∧ call.2 < 2 ^ 31) (arrivals : List (List UInt8)) :
    serialReads RxUart.reset memory calls arrivals = lines calls arrivals.flatten ↔
      LineAligned calls arrivals := by
  have positive : ∀ capacity ∈ capacities calls, 1 ≤ capacity := by
    intro capacity member
    obtain ⟨call, inside, rfl⟩ := List.mem_map.mp member
    have bounds := valid call inside
    omega
  rw [LineAligned, ← gatherAll_eq_frames_iff isNewline _ positive, lines,
    serialReads_eq_gatherAll memory calls valid, ← frames_flagged _ positive]
  constructor
  · intro equal
    have bytes := congrArg (List.map Prod.fst) equal
    simpa only [List.map_map, Function.comp_def, List.map_id'] using bytes
  · intro equal
    rw [equal]

/-- Successive calls return the lines of the stream, each with its newline flag, exactly when no
poll finds bytes of two lines in the FIFO. Two schedules of one stream that both meet the
condition give the same results. -/
theorem serialReads_eq_lines_iff (memory : Memory) (calls : List (Nat × Int))
    (valid : ∀ call ∈ calls, 1 ≤ call.2 ∧ call.2 < 2 ^ 31) (arrivals : List (List UInt8)) :
    (serialReads RxUart.reset memory calls arrivals = lines calls arrivals.flatten ↔
        LineAligned calls arrivals) ∧
      ∀ other, other.flatten = arrivals.flatten → LineAligned calls arrivals →
        LineAligned calls other → serialReads RxUart.reset memory calls arrivals =
          serialReads RxUart.reset memory calls other := by
  refine ⟨serialReads_eq_lines memory calls valid arrivals, fun other same aligned otherAligned =>
    ?_⟩
  rw [(serialReads_eq_lines memory calls valid arrivals).mpr aligned,
    (serialReads_eq_lines memory calls valid other).mpr otherAligned, same]

/-- A line in two polls, and a line that fills the capacity. -/
theorem serialReads_eq_lines_two :
    serialReads RxUart.reset (Memory.fresh fun _ => 0) [(0x100, 8), (0x200, 2)]
        [[0x61], [10], [0x62, 0x63]] = [([0x61, 10], 1), ([0x62, 0x63], 0)] :=
  (serialReads_eq_lines_iff _ [(0x100, 8), (0x200, 2)] (by decide)
    [[0x61], [10], [0x62, 0x63]]).1.mpr (by unfold LineAligned; decide)

/-- Two lines in one poll come back as one result, which is not the first line; with a poll for
each byte they come back as two. -/
theorem serialReads_merged :
    serialReads RxUart.reset (Memory.fresh fun _ => 0) [(0x100, 8), (0x200, 8)]
        [[0x61, 10, 0x62, 10]] ≠ lines [(0x100, 8), (0x200, 8)] [0x61, 10, 0x62, 10] ∧
      serialReads RxUart.reset (Memory.fresh fun _ => 0) [(0x100, 8), (0x200, 8)]
        [[0x61, 10, 0x62, 10]] = [([0x61, 10, 0x62, 10], 1)] ∧
      serialReads RxUart.reset (Memory.fresh fun _ => 0) [(0x100, 8), (0x200, 8)]
        [[0x61], [10], [0x62], [10]] = [([0x61, 10], 1), ([0x62, 10], 1)] := by
  decide

end McubootPort
