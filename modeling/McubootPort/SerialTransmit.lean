/-
This file models the sending half of `boot_serial_port.c`:
`boot_port_serial_write` pushes a message into the transmit FIFO of the UART.

The FIFO holds 128 bytes, and a push into a full FIFO is dropped. The UART
shifts bytes out on its own; a schedule says how many bytes leave before each
call and before each byte pushed during a call. The function looks at the free
space, reports a message that is too long for it, and then pushes the message
all the same. So a byte is lost exactly when it is pushed at a moment the FIFO
is full.
-/

import McubootPort.Library.LossyQueue

namespace McubootPort

open LossyQueue

/-- The length of the UART's hardware FIFO. -/
def uartFifoLen : Nat := 128

/-- A message of the boot log. -/
inductive BootLog where
  | error (text : String)
  | debug (text : String) (cnt : Nat) (message : List UInt8)

/-- The transmit side of the UART, and the boot log. -/
structure TxUart where
  txfifo : LossyQueue UInt8 uartFifoLen
  log : List BootLog

/-- The state after `uart_ll_txfifo_rst`. -/
def TxUart.reset : TxUart := { txfifo := LossyQueue.empty, log := [] }

/-- `uart_ll_get_txfifo_len` is the free space of the FIFO. -/
def uartLlGetTxfifoLen (uart : TxUart) : Nat := uartFifoLen - uart.txfifo.queued.length

/-- The pushes of some bytes, each after the number of bytes that `during` lets out before it. -/
def pushes : List UInt8 → List Nat → List (Event UInt8)
  | [], _ => []
  | byte :: rest, during =>
    .drain (during.headD 0) :: .push byte :: pushes rest during.tail

/-- `uart_ll_write_txfifo` pushes all the bytes and does not wait. -/
def uartLlWriteTxfifo (uart : TxUart) (bytes : List UInt8) (during : List Nat) : TxUart :=
  { uart with txfifo := uart.txfifo.run (pushes bytes during) }

def bootPortSerialWrite (uart : TxUart) (prt : List UInt8) (cnt : Nat) (during : List Nat) :
    TxUart :=
  let space := uartLlGetTxfifoLen uart
  let uart :=
    if cnt > space then
      { uart with
        log := uart.log ++ [.error "Unable to send full message. TX fifo would overflow"] }
    else uart
  let uart := uartLlWriteTxfifo uart (prt.take cnt) during
  { uart with log := uart.log ++ [.debug "Response[%d]: %s" cnt prt] }

/-- A call: the bytes the UART shifts out before it, the message, and the bytes the UART shifts
out before each push. -/
structure WriteCall where
  idle : Nat
  prt : List UInt8
  during : List Nat

/-- One call, after the UART has shifted out some bytes. -/
def WriteCall.perform (uart : TxUart) (call : WriteCall) : TxUart :=
  bootPortSerialWrite { uart with txfifo := uart.txfifo.drain call.idle } call.prt
    call.prt.length call.during

/-- Successive calls. -/
def serialWrites (uart : TxUart) (calls : List WriteCall) : TxUart :=
  calls.foldl WriteCall.perform uart

/-- The bytes that have left the UART when it has emptied its FIFO. -/
def TxUart.transmitted (uart : TxUart) : List UInt8 := (uart.txfifo.drain uartFifoLen).sent

/-- What a call does to the FIFO. -/
def WriteCall.events (call : WriteCall) : List (Event UInt8) :=
  .drain call.idle :: pushes call.prt call.during

/-! ### Every byte is sent -/

theorem items_pushes (bytes : List UInt8) (during : List Nat) :
    items (pushes bytes during) = bytes := by
  induction bytes generalizing during with
  | nil => rfl
  | cons byte rest inductionHypothesis =>
    exact congrArg (byte :: ·) (inductionHypothesis during.tail)

/-- The free-space test only writes to the log. -/
theorem txfifo_bootPortSerialWrite (uart : TxUart) (prt : List UInt8) (cnt : Nat)
    (during : List Nat) :
    (bootPortSerialWrite uart prt cnt during).txfifo =
      uart.txfifo.run (pushes (prt.take cnt) during) := by
  simp only [bootPortSerialWrite, uartLlWriteTxfifo]
  split <;> rfl

/-- A message within the free space that the test sees is kept whole on every schedule. -/
theorem kept_bootPortSerialWrite (uart : TxUart) (prt : List UInt8) (during : List Nat)
    (space : prt.length ≤ uartLlGetTxfifoLen uart) :
    (bootPortSerialWrite uart prt prt.length during).txfifo.kept = uart.txfifo.kept ++ prt := by
  have fits := uart.txfifo.fits
  rw [uartLlGetTxfifoLen] at space
  have kept := (kept_run_iff uart.txfifo (pushes prt during)).mpr
    (keepsUp_of_room _ _ (by rw [items_pushes]; omega))
  rwa [items_pushes, ← List.take_length (l := prt), ← txfifo_bootPortSerialWrite,
    List.take_length] at kept

theorem txfifo_perform (uart : TxUart) (call : WriteCall) :
    (WriteCall.perform uart call).txfifo = uart.txfifo.run call.events := by
  rw [WriteCall.perform, txfifo_bootPortSerialWrite, List.take_length]
  rfl

theorem txfifo_serialWrites (uart : TxUart) (calls : List WriteCall) :
    (serialWrites uart calls).txfifo = uart.txfifo.run (calls.flatMap WriteCall.events) := by
  induction calls generalizing uart with
  | nil => rfl
  | cons call rest inductionHypothesis =>
    rw [List.flatMap_cons, run_append, ← txfifo_perform]
    exact inductionHypothesis (WriteCall.perform uart call)

theorem items_calls (calls : List WriteCall) :
    items (calls.flatMap WriteCall.events) = (calls.map WriteCall.prt).flatten := by
  induction calls with
  | nil => rfl
  | cons call rest inductionHypothesis =>
    rw [List.flatMap_cons, items_append, inductionHypothesis, List.map_cons, List.flatten_cons]
    exact congrArg (· ++ _) (items_pushes call.prt call.during)

theorem transmitted_serialWrites (calls : List WriteCall) :
    (serialWrites TxUart.reset calls).transmitted =
      (LossyQueue.empty.run (calls.flatMap WriteCall.events) :
        LossyQueue UInt8 uartFifoLen).kept := by
  rw [TxUart.transmitted, sent_drain_capacity, txfifo_serialWrites]
  rfl

/-- The bytes that leave the UART are the messages in order exactly when fewer than 128 bytes
are in the FIFO at every push, which depends on the lengths of the messages and on the
schedule of the UART alone. -/
theorem serialWrites_transmitted_iff (calls : List WriteCall) :
    (serialWrites TxUart.reset calls).transmitted = (calls.map WriteCall.prt).flatten ↔
      keepsUp uartFifoLen 0 (calls.flatMap WriteCall.events) = true := by
  rw [transmitted_serialWrites, ← items_calls calls]
  exact kept_run_iff LossyQueue.empty (calls.flatMap WriteCall.events)

/-- A message of 129 bytes, and a UART that shifts nothing out meanwhile: the last byte is
lost. -/
theorem serialWrites_dropped :
    (serialWrites TxUart.reset
        [{ idle := 0, prt := List.replicate 129 0x61, during := [] }]).transmitted =
      List.replicate 128 0x61 ∧
    (serialWrites TxUart.reset
        [{ idle := 0, prt := List.replicate 129 0x61, during := [] }]).transmitted ≠
      List.replicate 129 0x61 := by
  decide +kernel

/-! ### The log -/

/-- Whether the entry reports an error. -/
def BootLog.isError : BootLog → Bool
  | .error _ => true
  | .debug .. => false

/-- The entries a call adds to the log. -/
theorem log_perform (uart : TxUart) (call : WriteCall) :
    ∃ entries, (WriteCall.perform uart call).log = uart.log ++ entries ∧
      ((∀ entry ∈ entries, entry.isError = false) →
        call.prt.length ≤ uartLlGetTxfifoLen
          { uart with txfifo := uart.txfifo.drain call.idle }) := by
  rw [WriteCall.perform, bootPortSerialWrite]
  by_cases space : call.prt.length > uartLlGetTxfifoLen
      { uart with txfifo := uart.txfifo.drain call.idle }
  · simp only [uartLlWriteTxfifo, if_pos space, List.append_assoc]
    refine ⟨_, rfl, fun silent => ?_⟩
    cases silent _ List.mem_cons_self
  · simp only [uartLlWriteTxfifo, if_neg space]
    exact ⟨_, rfl, fun _ => Nat.not_lt.mp space⟩

/-- A run that logs no error keeps all its messages. -/
theorem kept_serialWrites (uart : TxUart) (calls : List WriteCall) :
    ∃ entries, (serialWrites uart calls).log = uart.log ++ entries ∧
      ((∀ entry ∈ entries, entry.isError = false) →
        (serialWrites uart calls).txfifo.kept =
          uart.txfifo.kept ++ (calls.map WriteCall.prt).flatten) := by
  induction calls generalizing uart with
  | nil => exact ⟨[], (List.append_nil _).symm, fun _ => (List.append_nil _).symm⟩
  | cons call rest inductionHypothesis =>
    obtain ⟨added, logged, roomy⟩ := log_perform uart call
    obtain ⟨later, others, keeps⟩ := inductionHypothesis (WriteCall.perform uart call)
    refine ⟨added ++ later, ?_, fun silent => ?_⟩
    · rw [← List.append_assoc, ← logged]
      exact others
    · have space := roomy fun entry member => silent entry (List.mem_append_left _ member)
      have whole := kept_bootPortSerialWrite _ call.prt call.during space
      rw [LossyQueue.kept_drain] at whole
      rw [List.map_cons, List.flatten_cons, ← List.append_assoc, ← whole]
      exact keeps fun entry member => silent entry (List.mem_append_right _ member)

/-- What leaves the UART is what was written with some bytes left out, whatever the calls and the
schedule of the UART, and when no error was logged then none is left out. -/
theorem serialWrites_silent (calls : List WriteCall) :
    (serialWrites TxUart.reset calls).transmitted.Sublist (calls.map WriteCall.prt).flatten ∧
      ((∀ entry ∈ (serialWrites TxUart.reset calls).log, entry.isError = false) →
        (serialWrites TxUart.reset calls).transmitted = (calls.map WriteCall.prt).flatten) := by
  constructor
  · rw [transmitted_serialWrites, ← items_calls calls]
    exact LossyQueue.empty.kept_run_sublist (calls.flatMap WriteCall.events)
  · intro silent
    obtain ⟨entries, logged, keeps⟩ := kept_serialWrites TxUart.reset calls
    rw [TxUart.transmitted, sent_drain_capacity]
    refine keeps fun entry member => silent entry ?_
    rw [logged]
    exact List.mem_append_right _ member

/-- Two messages, the second after one byte of the first has left, and no entry of an error. -/
theorem serialWrites_silent_two :
    (serialWrites TxUart.reset
        [{ idle := 0, prt := [6, 9], during := [] },
          { idle := 1, prt := [0x41, 10], during := [1] }]).transmitted = [6, 9, 0x41, 10] :=
  (serialWrites_silent [{ idle := 0, prt := [6, 9], during := [] },
    { idle := 1, prt := [0x41, 10], during := [1] }]).2 (by decide)

end McubootPort
