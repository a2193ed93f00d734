/-
This file is about the bytes that successive calls of `readline` take out of the
received stream, whatever buffers and capacities they are given.

The drain loop empties the FIFO at every poll, so between two calls nothing is
left in it. A call holds what its own polls found, in order, and what it holds is
complete after its last poll and after no earlier one. The buffers of the calls
that have returned, one behind the other, are therefore the stream up to the last
poll.
-/

import McubootPort.SerialReceive

namespace McubootPort

open ByteMemory Framing

/-- Successive calls of `readline`, each with its own buffer and capacity, when all of them have
returned: the bytes each one has in its buffer, and the UART, the memory and the arrivals that
are left. -/
def readlines (uart : RxUart) (memory : Memory) : List (Nat × Nat) → List (List UInt8) →
    Option (List (List UInt8) × RxUart × Memory × List (List UInt8))
  | [], arrivals => some ([], uart, memory, arrivals)
  | (buf, cap) :: calls, arrivals =>
    let (state, later) := readline uart memory buf cap arrivals
    if state.stop then
      (readlines state.uart state.memory calls later).map fun rest =>
        (state.memory.loadBytes buf state.nRead :: rest.1, rest.2)
    else none

/-- What lets a call return: it has as many bytes as its capacity, or a newline among them. -/
def Done (cap : Nat) (bytes : List UInt8) : Prop := cap ≤ bytes.length ∨ newline ∈ bytes

/-- What a call has done with the arrivals, when it made the polls of `polls`: it holds the bytes
they found, it could not have returned after an earlier one, and it has returned exactly when it
could after the last. A call that has not returned has used up the arrivals. -/
structure Prompt (buf cap : Nat) (arrivals polls : List (List UInt8))
    (outcome : ReadState × List (List UInt8)) : Prop where
  split : polls ++ outcome.2 = arrivals
  holds : outcome.1.memory.loadBytes buf outcome.1.nRead = polls.flatten
  earlier : ∀ before behind, before ++ behind = polls → behind ≠ [] → ¬ Done cap before.flatten
  returned : outcome.1.stop = true ↔ Done cap polls.flatten
  waiting : outcome.1.stop = false → outcome.2 = []

theorem complete_iff_done (cap : Nat) (bytes : List UInt8) :
    complete isNewline cap bytes = true ↔ Done cap bytes := by
  simp [complete, Done, isNewline]

/-! ### One call -/

/-- A call on an empty FIFO gathers whole batches. -/
theorem readline_eq (memory : Memory) (buf cap : Nat) (positive : 1 ≤ cap)
    (arrivals : List (List UInt8)) :
    readline RxUart.reset memory buf cap arrivals =
      match gather isNewline cap [] arrivals with
      | some (gathered, later) => (holding memory buf cap gathered, later)
      | none => (holding memory buf cap arrivals.flatten, []) := by
  have empty := complete_nil isNewline cap positive
  have start : holding memory buf cap [] =
      { uart := RxUart.reset, memory, nRead := 0, stop := false } := by
    simp [holding, empty]
  rw [readline, ← start]
  exact readlineLoop_holding memory buf cap [] arrivals empty

theorem loadBytes_holding (memory : Memory) (buf cap : Nat) (held : List UInt8) :
    (holding memory buf cap held).memory.loadBytes buf (holding memory buf cap held).nRead = held :=
  Memory.loadBytes_storeBytes memory buf held

theorem readline_prompt (memory : Memory) (buf cap : Nat) (positive : 1 ≤ cap)
    (arrivals : List (List UInt8)) :
    (readline RxUart.reset memory buf cap arrivals).1.uart = RxUart.reset ∧
      ∃ polls, Prompt buf cap arrivals polls (readline RxUart.reset memory buf cap arrivals) := by
  have empty := complete_nil isNewline cap positive
  rw [readline_eq memory buf cap positive]
  cases result : gather isNewline cap [] arrivals with
  | none =>
    have never := gather_none isNewline cap [] arrivals empty result
    rw [List.nil_append] at never
    refine ⟨rfl, arrivals, List.append_nil arrivals, loadBytes_holding .., ?_, ?_, fun _ => rfl⟩
    · intro before behind split _ done
      have whole := complete_append isNewline cap _ behind.flatten
        ((complete_iff_done cap _).mpr done)
      rw [← List.flatten_append, split, never] at whole
      cases whole
    · exact complete_iff_done cap _
  | some pair =>
    obtain ⟨used, spec⟩ := gather_some isNewline cap [] arrivals pair.1 pair.2 empty result
    have symbols := spec.flatten_used
    refine ⟨rfl, used, spec.split, ?_, ?_, ?_, ?_⟩
    · rw [symbols]
      exact loadBytes_holding memory buf cap pair.1
    · intro before behind split more done
      have same := spec.earliest before behind split
        (by rw [List.nil_append]; exact (complete_iff_done cap _).mpr done)
      rw [same] at split
      exact more (List.append_cancel_left (split.trans (List.append_nil used).symm))
    · rw [symbols]
      exact complete_iff_done cap pair.1
    · intro waits
      have stopped : (holding memory buf cap pair.1).stop = true := spec.done
      rw [stopped] at waits
      cases waits

/-! ### Runs of calls -/

/-- The calls of a run leave the FIFO empty and lose, repeat and reorder nothing. -/
theorem readlines_flatten (memory : Memory) (calls : List (Nat × Nat))
    (positive : ∀ call ∈ calls, 1 ≤ call.2) (arrivals returned : List (List UInt8))
    (uart : RxUart) (after : Memory) (later : List (List UInt8))
    (run : readlines RxUart.reset memory calls arrivals = some (returned, uart, after, later)) :
    uart = RxUart.reset ∧ returned.flatten ++ later.flatten = arrivals.flatten := by
  induction calls generalizing memory arrivals returned with
  | nil =>
    cases run
    exact ⟨rfl, rfl⟩
  | cons call calls inductionHypothesis =>
    obtain ⟨buf, cap⟩ := call
    obtain ⟨drained, polls, prompt⟩ :=
      readline_prompt memory buf cap (positive _ List.mem_cons_self) arrivals
    simp only [readlines] at run
    split at run
    · obtain ⟨⟨buffers, final⟩, others, equal⟩ := Option.map_eq_some_iff.mp run
      obtain ⟨rfl, rfl⟩ := Prod.mk.inj equal
      rw [drained] at others
      obtain ⟨idle, streams⟩ := inductionHypothesis _
        (fun other member => positive other (List.mem_cons_of_mem _ member)) _ _ others
      refine ⟨idle, ?_⟩
      rw [List.flatten_cons, List.append_assoc, streams, prompt.holds, ← List.flatten_append,
        prompt.split]
    · cases run

/-- On an empty FIFO `boot_port_serial_read` returns exactly when its `readline` does, with the
count of `readline` and the flag of the last byte that `readline` has put in the buffer. -/
theorem bootPortSerialRead_readline (memory : Memory) (str : Nat) (cnt : Int) (positive : 1 ≤ cnt)
    (int : cnt < 2 ^ 31) (arrivals : List (List UInt8)) (count flag : Nat) :
    (bootPortSerialRead RxUart.reset memory str cnt arrivals).outcome = some (count, flag) ↔
      (readline RxUart.reset memory str cnt.toNat arrivals).1.stop = true ∧
        count = (readline RxUart.reset memory str cnt.toNat arrivals).1.nRead ∧ 1 ≤ count ∧
        flag = if ((readline RxUart.reset memory str cnt.toNat arrivals).1.memory.loadBytes str
          count).getLast? = some newline then 1 else 0 := by
  have large : 1 ≤ cnt.toNat := by omega
  have empty := complete_nil isNewline cnt.toNat large
  rw [bootPortSerialRead_eq memory str cnt positive int, readline_eq memory str cnt.toNat large]
  cases result : gather isNewline cnt.toNat [] arrivals with
  | none =>
    have never := gather_none isNewline cnt.toNat [] arrivals empty result
    rw [List.nil_append] at never
    constructor
    · intro waits
      cases waits
    · rintro ⟨stopped, _⟩
      exact absurd (never.symm.trans stopped) Bool.false_ne_true
  | some pair =>
    obtain ⟨used, spec⟩ := gather_some isNewline cnt.toNat [] arrivals pair.1 pair.2 empty result
    have nonempty := length_of_complete isNewline cnt.toNat large pair.1 spec.done
    have held := loadBytes_holding memory str cnt.toNat pair.1
    constructor
    · intro outcome
      cases outcome
      refine ⟨spec.done, rfl, nonempty, ?_⟩
      show newlineFlag pair.1 = if ((holding memory str cnt.toNat pair.1).memory.loadBytes str
        (holding memory str cnt.toNat pair.1).nRead).getLast? = some newline then 1 else 0
      rw [held, newlineFlag]
    · rintro ⟨_, rfl, _, rfl⟩
      rw [held]
      rfl

/-- The buffer of `boot_port_serial_read` is the one that its `readline` leaves. -/
theorem bootPortSerialRead_memory (uart : RxUart) (memory : Memory) (str : Nat) (cnt : Int)
    (positive : 1 ≤ cnt) (int : cnt < 2 ^ 31) (arrivals : List (List UInt8)) :
    (bootPortSerialRead uart memory str cnt arrivals).memory =
      (readline uart memory str cnt.toNat arrivals).1.memory := by
  rw [bootPortSerialRead, toUint32_of_int cnt positive int]

/-- After any number of calls that have returned, their buffers are the part of the stream that
was taken out of the FIFO. The next call returns at the end of the first poll that lets it, and
the newline flag is that of the last byte it returns. -/
theorem readlines_lossless (memory : Memory) (calls : List (Nat × Nat))
    (positive : ∀ call ∈ calls, 1 ≤ call.2) (arrivals returned : List (List UInt8))
    (uart : RxUart) (after : Memory) (later : List (List UInt8))
    (run : readlines RxUart.reset memory calls arrivals = some (returned, uart, after, later)) :
    returned.flatten ++ uart.rxfifo ++ later.flatten = arrivals.flatten ∧
      uart.rxfifo = [] ∧
      (∀ buf cap, 1 ≤ cap →
        ∃ polls, Prompt buf cap later polls (readline uart after buf cap later)) ∧
      ∀ str cnt, 1 ≤ cnt → cnt < 2 ^ 31 →
        (bootPortSerialRead uart after str cnt later).memory =
            (readline uart after str cnt.toNat later).1.memory ∧
          ∀ count flag,
            (bootPortSerialRead uart after str cnt later).outcome = some (count, flag) ↔
              (readline uart after str cnt.toNat later).1.stop = true ∧
                count = (readline uart after str cnt.toNat later).1.nRead ∧ 1 ≤ count ∧
                flag = if ((bootPortSerialRead uart after str cnt later).memory.loadBytes str
                  count).getLast? = some newline then 1 else 0 := by
  obtain ⟨rfl, streams⟩ :=
    readlines_flatten memory calls positive arrivals returned uart after later run
  refine ⟨?_, rfl, fun buf cap large => (readline_prompt after buf cap large later).2, ?_⟩
  · rw [RxUart.reset, List.append_nil]
    exact streams
  · intro str cnt large int
    have same := bootPortSerialRead_memory RxUart.reset after str cnt large int later
    refine ⟨same, fun count flag => ?_⟩
    rw [same]
    exact bootPortSerialRead_readline after str cnt large int later count flag

/-- Two calls: a line in two polls, one of them empty, and two bytes that fill the capacity. The
call behind them returns the line that comes in one poll, with the flag set. -/
theorem readlines_lossless_two :
    [[0x61, 10], [0x62, 0x63]].flatten ++ [] ++ [[0x64, 10]].flatten =
        [[0x61], [], [10], [0x62, 0x63], [0x64, (10 : UInt8)]].flatten ∧
      (∃ polls, Prompt 0x300 8 [[0x64, 10]] polls (readline RxUart.reset
        (((Memory.fresh fun _ => 0).storeBytes 0x100 [0x61, 10]).storeBytes 0x200 [0x62, 0x63])
        0x300 8 [[0x64, 10]])) ∧
      (bootPortSerialRead RxUart.reset
        (((Memory.fresh fun _ => 0).storeBytes 0x100 [0x61, 10]).storeBytes 0x200 [0x62, 0x63])
        0x300 8 [[0x64, 10]]).outcome = some (2, 1) := by
  obtain ⟨streams, _, prompt, reads⟩ := readlines_lossless (Memory.fresh fun _ => 0)
    [(0x100, 8), (0x200, 2)] (by decide) [[0x61], [], [10], [0x62, 0x63], [0x64, 10]]
    [[0x61, 10], [0x62, 0x63]] RxUart.reset _ [[0x64, 10]] rfl
  refine ⟨streams, prompt 0x300 8 (by decide), ?_⟩
  exact ((reads 0x300 8 (by decide) (by decide)).2 2 1).mpr (by decide)

end McubootPort
