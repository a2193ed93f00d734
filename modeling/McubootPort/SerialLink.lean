/-
This file is about the serial link as a whole: the bytes on the line, the calls of
`boot_port_serial_read` that cut them into lines, and the patched
`boot_serial_in_dec` that puts packets together from the lines.

What the receiver accepts is a format of its own: a length in network order, a
message, and the checksum of the message. The receiver is an assembler of such
packets, whatever lines it is given. So a packet that lost some of its bytes, or
that has an error of one of the standard classes, is not accepted on any line,
and a packet that arrives a line at a time is accepted on the last, with or
without lines in between that are not base64.
-/

import McubootPort.Library.Reassembly
import McubootPort.SerialFrame

namespace McubootPort

open ShiftRegister ByteMemory Framing Reassembly

/-! ### What is accepted -/

/-- The bytes are a sealed message: its length with its checksum, the message, and the checksum. -/
def Sealed (signed : Bool) (bytes : List UInt8) : Prop :=
  ∃ message, message ≠ [] ∧ (frameBody signed message []).length < 2 ^ 16 ∧
    bytes = frame signed message []

theorem frameBody_message (signed : Bool) (header payload : List UInt8) :
    frameBody signed (header ++ payload) [] = frameBody signed header payload := by
  rw [frameBody, frameBody, bootSerialOutputCrc_eq, bootSerialOutputCrc_eq, List.append_nil]

/-- A frame is the sealed message of header and payload. -/
theorem frame_message (signed : Bool) (header payload : List UInt8) :
    frame signed (header ++ payload) [] = frame signed header payload := by
  simp only [frame, frameBody_message]

/-- The length that the receiver reads from the first two bytes it holds. -/
theorem systemPortNtohs_loadUint16 (memory : Memory) (address : Nat) :
    systemPortNtohs (loadUint16 memory address) =
      (memory.byte address).toBitVec ++ (memory.byte (address + 1)).toBitVec := by
  refine BitVec.eq_of_getLsbD_eq fun index bound => ?_
  simp only [systemPortNtohs, be16toh, loadUint16, BitVec.getLsbD_append, BitVec.getLsbD_setWidth,
    BitVec.getLsbD_ushiftRight]
  by_cases lower : index < 8
  · simp [lower, show 8 + index - 8 = index by omega]
  · simp [lower, show index - 8 < 8 by omega]

/-- The two bytes of a number in network order make the number. -/
theorem append_bytes (x : BitVec 16) : (x >>> 8).setWidth 8 ++ x.setWidth 8 = x := by
  refine BitVec.eq_of_getLsbD_eq fun index bound => ?_
  simp only [BitVec.getLsbD_append, BitVec.getLsbD_setWidth, BitVec.getLsbD_ushiftRight]
  by_cases lower : index < 8
  · simp [lower]
  · simp [lower, show index - 8 < 8 by omega, show 8 + (index - 8) = index by omega]

/-- What the last tests of `boot_serial_in_dec` ask of the bytes held. -/
def Passes (signed : Bool) (high low : UInt8) (body : List UInt8) : Prop :=
  (high.toBitVec ++ low.toBitVec).toNat = body.length ∧ 2 < body.length ∧
    crc16PortCcitt signed 0 body body.length = 0

theorem acceptFrame_eq (signed : Bool) (memory : Memory) (out : Nat) (high low : UInt8)
    (body : List UInt8)
    (loaded : memory.loadBytes out (high :: low :: body).length = high :: low :: body) :
    acceptFrame signed memory out (high :: low :: body).length =
      if (high.toBitVec ++ low.toBitVec).toNat ≠ body.length then (0, body.length + 2)
      else if crc16PortCcitt signed 0 body body.length ≠ 0 ∨ body.length ≤ 2 then
        (0, body.length + 2)
      else (1, body.length) := by
  have count : (high :: low :: body).length = 2 + body.length := by
    rw [List.length_cons, List.length_cons]
    omega
  rw [count, Memory.loadBytes_add] at loaded
  obtain ⟨front, behind⟩ :=
    List.append_inj (show _ = [high, low] ++ body from loaded) (Memory.loadBytes_length _ _ _)
  obtain ⟨first, second⟩ : memory.byte out = high ∧ memory.byte (out + 1) = low := by
    simpa [Memory.loadBytes, List.range_succ] using front
  rw [acceptFrame, systemPortNtohs_loadUint16, first, second, count]
  rw [Nat.add_comm 2 body.length, Nat.add_sub_cancel]
  by_cases len : (high.toBitVec ++ low.toBitVec).toNat = body.length
  · simp only [len, behind, ne_eq, not_true_eq_false, if_false]
    by_cases few : body.length + 2 ≤ 2
    · rw [if_pos few, if_pos (Or.inr (by omega))]
    · rw [if_neg few]
  · simp only [ne_eq, len, not_false_eq_true, if_true, ite_self]

theorem acceptFrame_of_passes (signed : Bool) (memory : Memory) (out : Nat) (high low : UInt8)
    (body : List UInt8)
    (loaded : memory.loadBytes out (high :: low :: body).length = high :: low :: body)
    (passes : Passes signed high low body) :
    acceptFrame signed memory out (high :: low :: body).length = (1, body.length) := by
  obtain ⟨len, long, valid⟩ := passes
  rw [acceptFrame_eq signed memory out high low body loaded, if_neg (not_not.mpr len), if_neg]
  rintro (wrong | few)
  · exact wrong valid
  · omega

theorem acceptFrame_of_not_passes (signed : Bool) (memory : Memory) (out : Nat) (high low : UInt8)
    (body : List UInt8)
    (loaded : memory.loadBytes out (high :: low :: body).length = high :: low :: body)
    (fails : ¬ Passes signed high low body) :
    acceptFrame signed memory out (high :: low :: body).length = (0, body.length + 2) := by
  rw [acceptFrame_eq signed memory out high low body loaded]
  split_ifs with len refused
  · rfl
  · rfl
  · rw [not_not] at len
    rw [not_or, not_not, Nat.not_le] at refused
    exact absurd ⟨len, refused.2, refused.1⟩ fails

/-- A body passes the tests exactly when it is sealed. -/
theorem sealed_iff_passes (signed : Bool) (high low : UInt8) (body : List UInt8) :
    Sealed signed (high :: low :: body) ↔ Passes signed high low body := by
  constructor
  · rintro ⟨message, nonempty, short, equal⟩
    have count := frameBody_length signed message []
    have some := List.length_pos_iff.mpr nonempty
    rw [frame, systemPortHtons, htobe16_bytes] at equal
    obtain ⟨front, rfl⟩ := List.append_inj (show [high, low] ++ body = _ from equal) rfl
    cases front
    refine ⟨?_, by omega, crc16PortCcitt_frameBody signed message []⟩
    simp only [append_bytes, BitVec.toNat_ofNat, Nat.mod_eq_of_lt short]
  · rintro ⟨len, long, valid⟩
    have split : body = body.take (body.length - 2) ++ body.drop (body.length - 2) := by simp
    obtain ⟨x, y, trailer⟩ : ∃ x y, body.drop (body.length - 2) = [x, y] :=
      List.length_eq_two.mp (by rw [List.length_drop]; omega)
    have sealing : body = frameBody signed (body.take (body.length - 2)) [] := by
      rw [trailer] at split
      rw [split] at valid
      have unique := trailer_unique signed (body.take (body.length - 2)) [] x y
        (by rwa [List.append_nil])
      rw [frameBody, List.append_nil, ← unique]
      exact split
    refine ⟨body.take (body.length - 2), ?_, ?_, ?_⟩
    · rw [← List.length_pos_iff, List.length_take]
      omega
    · rw [← sealing, ← len]
      exact BitVec.isLt _
    · rw [frame, ← sealing, ← len, BitVec.ofNat_toNat, BitVec.setWidth_eq, bytes_of_pair]
      rfl

/-- `boot_serial_in_dec` accepts what it holds exactly when that is a sealed message, and then it
cuts the checksum off. -/
theorem acceptFrame_sealed (signed : Bool) (memory : Memory) (out : Nat) (held : List UInt8)
    (loaded : memory.loadBytes out held.length = held) (whole : Sealed signed held) :
    acceptFrame signed memory out held.length = (1, held.length - 2) := by
  obtain ⟨high, low, body, rfl⟩ : ∃ high low body, held = high :: low :: body := by
    obtain ⟨message, _, _, equal⟩ := whole
    exact ⟨_, _, _, equal⟩
  exact acceptFrame_of_passes signed memory out high low body loaded
    ((sealed_iff_passes signed high low body).mp whole)

theorem acceptFrame_not_sealed (signed : Bool) (memory : Memory) (out : Nat) (held : List UInt8)
    (loaded : memory.loadBytes out held.length = held) (part : ¬ Sealed signed held) :
    acceptFrame signed memory out held.length = (0, held.length) := by
  match held with
  | [] => rfl
  | [_] => rfl
  | high :: low :: body =>
    exact acceptFrame_of_not_passes signed memory out high low body loaded
      fun passes => part ((sealed_iff_passes signed high low body).mpr passes)

/-! ### The receiver is an assembler -/

section Receive

variable (mbedtlsBase64Decode : Nat → List UInt8 → Except Int (List UInt8))

/-- The assembler of sealed messages: a line gives the bytes it decodes to, if they fit the room
that is left, and of a whole message everything but its checksum is kept. -/
def frameAssembler (signed : Bool) (maxout : Nat) : Assembler UInt8 (List UInt8) where
  piece held content := (mbedtlsBase64Decode (maxout - held.length) content).toOption
  Whole := Sealed signed
  kept held := held.take (held.length - 2)

/-- The return value of `boot_serial_in_dec` for an answer. -/
def answerValue : Answer → Int
  | .refused => -1
  | .waiting => 0
  | .accepted => 1

/-- What `boot_serial_in_dec` keeps: the bytes held are in its buffer, within its size. -/
structure Holds (memory : Memory) (out maxout : Nat) (held : List UInt8) : Prop where
  loaded : memory.loadBytes out held.length = held
  fits : held.length ≤ maxout

/-- The decoder of mbedtls writes no more than it has room for. -/
def WithinRoom : Prop :=
  ∀ room content bytes, mbedtlsBase64Decode room content = .ok bytes → bytes.length ≤ room

theorem base64DecodeInto_withinRoom : WithinRoom base64DecodeInto := by
  intro room content bytes decoded
  rw [base64DecodeInto] at decoded
  split at decoded
  · split at decoded
    · cases decoded
      assumption
    · cases decoded
  · cases decoded

theorem Holds.append {memory : Memory} {out maxout : Nat} {held : List UInt8}
    (holds : Holds memory out maxout held) (bytes : List UInt8)
    (room : bytes.length ≤ maxout - held.length) :
    Holds (memory.storeBytes (out + held.length) bytes) out maxout (held ++ bytes) := by
  have fits := holds.fits
  refine ⟨loadBytes_piece memory out held bytes holds.loaded, ?_⟩
  rw [List.length_append]
  omega

theorem Holds.take {memory : Memory} {out maxout : Nat} {held : List UInt8}
    (holds : Holds memory out maxout held) (count : Nat) :
    Holds memory out maxout (held.take count) := by
  refine ⟨?_, ?_⟩
  · have split := holds.loaded
    have lengths : held.length = (held.take count).length + (held.drop count).length := by
      rw [← List.length_append, List.take_append_drop]
    rw [lengths, Memory.loadBytes_add] at split
    exact (List.append_inj (split.trans (List.take_append_drop count held).symm)
      (Memory.loadBytes_length _ _ _)).1
  · exact (List.length_take_le' count held).trans holds.fits

theorem bootSerialInDec_refused (signed : Bool) (memory : Memory) (out maxout : Nat)
    (held content : List UInt8)
    (nothing : (frameAssembler mbedtlsBase64Decode signed maxout).piece held content = none) :
    bootSerialInDec mbedtlsBase64Decode signed (content ++ [newline]) (content ++ [newline]).length
      memory out held.length maxout = (-1, memory, held.length) := by
  simp only [frameAssembler] at nothing
  simp only [bootSerialInDec, base64PortDecode, List.length_append, List.length_singleton,
    Nat.add_sub_cancel, List.take_left]
  cases decoded : mbedtlsBase64Decode (maxout - held.length) content with
  | error code => rfl
  | ok bytes =>
    rw [decoded] at nothing
    cases nothing

theorem bootSerialInDec_gives (signed : Bool) (memory : Memory) (out maxout : Nat)
    (held content bytes : List UInt8)
    (gives : (frameAssembler mbedtlsBase64Decode signed maxout).piece held content = some bytes) :
    mbedtlsBase64Decode (maxout - held.length) content = .ok bytes ∧
      bootSerialInDec mbedtlsBase64Decode signed (content ++ [newline])
          (content ++ [newline]).length memory out held.length maxout =
        let accepted := acceptFrame signed (memory.storeBytes (out + held.length) bytes) out
          (held ++ bytes).length
        (accepted.1, memory.storeBytes (out + held.length) bytes, accepted.2) := by
  simp only [frameAssembler] at gives
  cases decoded : mbedtlsBase64Decode (maxout - held.length) content with
  | error code =>
    rw [decoded] at gives
    cases gives
  | ok other =>
    rw [decoded] at gives
    cases gives
    refine ⟨rfl, ?_⟩
    simp only [bootSerialInDec, base64PortDecode, List.length_append, List.length_singleton,
      Nat.add_sub_cancel, List.take_left, decoded]

/-- Whatever the lines are, the receiver answers as the assembler of sealed messages does, and what
the assembler holds is what lies in the buffer, never more than its size. -/
theorem receiveLines_assembles (bounded : WithinRoom mbedtlsBase64Decode) (signed : Bool)
    (out maxout : Nat) (contents : List (List UInt8)) (memory : Memory) (held : List UInt8)
    (holds : Holds memory out maxout held) :
    ∃ answers final left,
      receiveLines mbedtlsBase64Decode signed out maxout memory held.length
          (contents.map (· ++ [newline])) = (answers.map answerValue, final, left.length) ∧
        Assembles (frameAssembler mbedtlsBase64Decode signed maxout) held contents answers left ∧
        Holds final out maxout left := by
  induction contents generalizing memory held with
  | nil => exact ⟨[], memory, held, rfl, .done held, holds⟩
  | cons content contents inductionHypothesis =>
    rw [List.map_cons, receiveLines]
    cases gives : (frameAssembler mbedtlsBase64Decode signed maxout).piece held content with
    | none =>
      obtain ⟨answers, final, left, received, assembles, after⟩ :=
        inductionHypothesis memory held holds
      refine ⟨.refused :: answers, final, left, ?_, .refuses gives assembles, after⟩
      simp only [bootSerialInDec_refused mbedtlsBase64Decode signed memory out maxout held content
        gives, received]
      rfl
    | some bytes =>
      obtain ⟨decoded, step⟩ := bootSerialInDec_gives mbedtlsBase64Decode signed memory out maxout
        held content bytes gives
      have grown := holds.append bytes (bounded _ _ _ decoded)
      by_cases whole : Sealed signed (held ++ bytes)
      · have kept : ((held ++ bytes).take ((held ++ bytes).length - 2)).length =
            (held ++ bytes).length - 2 := List.length_take_of_le (Nat.sub_le _ _)
        obtain ⟨answers, final, left, received, assembles, after⟩ :=
          inductionHypothesis _ _ (grown.take ((held ++ bytes).length - 2))
        refine ⟨.accepted :: answers, final, left, ?_, .accepts gives whole assembles, after⟩
        rw [kept] at received
        simp only [step, acceptFrame_sealed signed _ out _ grown.loaded whole, received]
        rfl
      · obtain ⟨answers, final, left, received, assembles, after⟩ :=
          inductionHypothesis _ _ grown
        refine ⟨.waiting :: answers, final, left, ?_, .waits gives whole assembles, after⟩
        simp only [step, acceptFrame_not_sealed signed _ out _ grown.loaded whole, received]
        rfl

/-- The return values tell the answers apart. -/
theorem answerValue_injective : Function.Injective answerValue := by
  intro first second same
  cases first <;> cases second <;> first | rfl | cases same

/-- A packet in two lines, with a line between them that is not base64. -/
theorem receiveLines_assembles_packet :
    ∃ final left,
      receiveLines base64DecodeInto true 100 512 (Memory.fresh fun _ => 0) 0
          [[65, 65, 115, 67, 65, 65, 65, 66, 10], [0x21, 10],
            [65, 65, 65, 65, 66, 113, 67, 99, 105, 119, 61, 61, 10]] =
        ([0, -1, 1], final, left.length) ∧
      Assembles (frameAssembler base64DecodeInto true 512) []
        [[65, 65, 115, 67, 65, 65, 65, 66], [0x21],
          [65, 65, 65, 65, 66, 113, 67, 99, 105, 119, 61, 61]]
        [.waiting, .refused, .accepted] left ∧
      left.length = 11 ∧ Holds final 100 512 left := by
  obtain ⟨answers, final, left, run, assembles, holds⟩ :=
    receiveLines_assembles base64DecodeInto base64DecodeInto_withinRoom true 100 512
      [[65, 65, 115, 67, 65, 65, 65, 66], [0x21],
        [65, 65, 65, 65, 66, 113, 67, 99, 105, 119, 61, 61]] (Memory.fresh fun _ => 0) []
      ⟨rfl, by decide⟩
  have values : answers.map answerValue = [Answer.waiting, .refused, .accepted].map answerValue :=
    (congrArg Prod.fst run).symm.trans (by decide +kernel)
  cases (List.map_injective_iff.mpr answerValue_injective) values
  have length : left.length = 11 :=
    (congrArg (fun result => result.2.2) run).symm.trans (by decide +kernel)
  exact ⟨final, left, run, assembles, length, holds⟩

/-! ### Damaged packets -/

/-- What can become of the body of a frame on the line: bytes of it are lost, whatever the others
are then, or it has an error of one of the standard classes. -/
inductive Damaged (body : List UInt8) : List UInt8 → Prop where
  | lost (received : List UInt8) (short : received.length < body.length) : Damaged body received
  | flipped (error : List UInt8) (lengths : error.length = body.length)
      (detectable : Detectable (bitString error)) : Damaged body (xorBytes body error)

/-- An error adds its own checksum to that of the message. -/
theorem crc16PortCcitt_xorBytes (signed : Bool) (message error : List UInt8)
    (lengths : error.length = message.length) :
    crc16PortCcitt signed 0 (xorBytes message error) (xorBytes message error).length =
      crc16PortCcitt signed 0 message message.length ^^^
        feedAll ccittTaps 0#16 (bitString error) := by
  have sum := feedAll_xor ccittTaps 0#16 0#16 (bitString message) (bitString error)
    (by rw [bitString_length, bitString_length, lengths])
  rw [BitVec.xor_self] at sum
  rw [crc16PortCcitt_eq, crc16PortCcitt_eq, bitString_xorBytes _ _ lengths.symm]
  exact sum

/-- A sealed message in front of some bytes has the length that these bytes start with. -/
theorem length_of_prefix (signed : Bool) (message rest received : List UInt8) (length : Nat)
    (small : (frameBody signed message []).length < 2 ^ 16) (short : length < 2 ^ 16)
    (split : frame signed message [] ++ rest =
      uint16Bytes (systemPortHtons (BitVec.ofNat 16 length)) ++ received) :
    (frameBody signed message []).length = length ∧
      frameBody signed message [] ++ rest = received := by
  rw [frame, List.append_assoc] at split
  obtain ⟨front, behind⟩ := List.append_inj split rfl
  refine ⟨?_, behind⟩
  rw [systemPortHtons, systemPortHtons, htobe16_bytes, htobe16_bytes, List.cons.injEq,
    List.cons.injEq, UInt8.ofBitVec.injEq, UInt8.ofBitVec.injEq] at front
  have number := congrArg₂ (fun (high low : BitVec 8) => (high ++ low).toNat) front.1 front.2.1
  simpa only [append_bytes, BitVec.toNat_ofNat, Nat.mod_eq_of_lt small,
    Nat.mod_eq_of_lt short] using number

/-- No frame is the beginning of another. -/
theorem not_sealed_of_part (signed : Bool) (header payload : List UInt8)
    (short : (frameBody signed header payload).length < 2 ^ 16) (part rest : List UInt8)
    (split : part ++ rest = frame signed header payload) (more : rest ≠ []) :
    ¬ Sealed signed part := by
  rintro ⟨message, _, small, rfl⟩
  obtain ⟨same, behind⟩ := length_of_prefix signed message rest _ _ small short split
  have count := congrArg List.length behind
  have some := List.length_pos_iff.mpr more
  rw [List.length_append] at count
  omega

/-- No part of a damaged frame is a sealed message. -/
theorem not_sealed_of_damaged (signed : Bool) (header payload : List UInt8)
    (short : (frameBody signed header payload).length < 2 ^ 16) (received : List UInt8)
    (damaged : Damaged (frameBody signed header payload) received) (part rest : List UInt8)
    (split : part ++ rest = uint16Bytes (systemPortHtons
      (BitVec.ofNat 16 (frameBody signed header payload).length)) ++ received) :
    ¬ Sealed signed part := by
  rintro ⟨message, _, small, rfl⟩
  obtain ⟨same, behind⟩ := length_of_prefix signed message rest _ _ small short split
  have count := congrArg List.length behind
  rw [List.length_append] at count
  cases damaged with
  | lost received fewer => omega
  | flipped error lengths detectable =>
    have none : rest = [] := by
      rw [xorBytes, List.length_zipWith, lengths, Nat.min_self, same] at count
      exact List.length_eq_zero_iff.mp (by omega)
    rw [none, List.append_nil] at behind
    have valid := crc16PortCcitt_frameBody signed message []
    rw [behind, crc16PortCcitt_xorBytes signed _ error lengths, crc16PortCcitt_frameBody] at valid
    exact feedAll_detectable _ detectable (BitVec.zero_xor.symm.trans valid)

/-- What a line means to the decoder: its bytes wherever they fit, or nothing at all. -/
def Means (meaning : List UInt8 → Option (List UInt8)) (content : List UInt8) : Prop :=
  match meaning content with
  | some bytes => ∀ room, bytes.length ≤ room → mbedtlsBase64Decode room content = .ok bytes
  | none => ∀ room, ∃ code, mbedtlsBase64Decode room content = .error code

theorem base64DecodeInto_means (content : List UInt8) :
    Means base64DecodeInto Base64.decode content := by
  rw [Means]
  cases meant : Base64.decode content with
  | none => exact fun room => ⟨-0x2C, by rw [base64DecodeInto, meant]⟩
  | some bytes =>
    intro room fits
    rw [base64DecodeInto, meant]
    exact if_pos fits

/-- A line gives the assembler what it means when that fits the room. -/
theorem piece_of_means (signed : Bool) (maxout : Nat) (meaning : List UInt8 → Option (List UInt8))
    (held content : List UInt8) (means : Means mbedtlsBase64Decode meaning content)
    (room : held.length + ((meaning content).getD []).length ≤ maxout) :
    (frameAssembler mbedtlsBase64Decode signed maxout).piece held content = meaning content := by
  rw [Means] at means
  rw [frameAssembler]
  cases meant : meaning content with
  | none =>
    rw [meant] at means
    obtain ⟨code, refused⟩ := means (maxout - held.length)
    simp only [refused]
    rfl
  | some bytes =>
    rw [meant] at means room
    rw [Option.getD_some] at room
    simp only [means (maxout - held.length) (by omega)]
    rfl

/-- The answers to lines that do not complete a packet. -/
theorem assembles_part (signed : Bool) (maxout : Nat) (meaning : List UInt8 → Option (List UInt8))
    (contents : List (List UInt8))
    (means : ∀ content ∈ contents, Means mbedtlsBase64Decode meaning content)
    (fits : (symbols meaning contents).length ≤ maxout)
    (part : ∀ front behind, front ++ behind = contents →
      ¬ Sealed signed (symbols meaning front)) :
    Assembles (frameAssembler mbedtlsBase64Decode signed maxout) [] contents
      (contents.map (notYet meaning)) (symbols meaning contents) := by
  refine assembles_notYet meaning contents [] ?_ part
  intro front content behind position
  refine piece_of_means mbedtlsBase64Decode signed maxout meaning _ content
    (means content (by rw [← position]; simp)) ?_
  rw [← position, symbols_append, symbols_cons, List.length_append, List.length_append] at fits
  rw [List.nil_append]
  omega

/-- A frame that was damaged behind its length is not accepted, on whatever lines it arrives: every
line is answered with "not yet", or refused. -/
theorem receiveLines_damaged (bounded : WithinRoom mbedtlsBase64Decode)
    (meaning : List UInt8 → Option (List UInt8)) (signed : Bool) (header payload : List UInt8)
    (short : (frameBody signed header payload).length < 2 ^ 16) (received : List UInt8)
    (damaged : Damaged (frameBody signed header payload) received) (contents : List (List UInt8))
    (means : ∀ content ∈ contents, Means mbedtlsBase64Decode meaning content)
    (split : symbols meaning contents = uint16Bytes (systemPortHtons
      (BitVec.ofNat 16 (frameBody signed header payload).length)) ++ received)
    (memory : Memory) (out maxout : Nat) (fits : (symbols meaning contents).length ≤ maxout) :
    ∃ final, receiveLines mbedtlsBase64Decode signed out maxout memory 0
        (contents.map (· ++ [newline])) =
          (contents.map fun content => answerValue (notYet meaning content), final,
            (symbols meaning contents).length) ∧
      Holds final out maxout (symbols meaning contents) := by
  obtain ⟨answers, final, left, run, assembles, holds⟩ :=
    receiveLines_assembles mbedtlsBase64Decode bounded signed out maxout contents memory []
      ⟨rfl, Nat.zero_le _⟩
  have waiting := assembles_part mbedtlsBase64Decode signed maxout meaning contents means fits
    fun front behind position => not_sealed_of_damaged signed header payload short received damaged
      _ (symbols meaning behind) (by rw [← symbols_append, position, split])
  obtain ⟨rfl, rfl⟩ := assembles.unique waiting
  rw [List.map_map] at run
  exact ⟨final, run, holds⟩

/-- One flipped bit in the second line of a packet. -/
theorem receiveLines_damaged_flip :
    ∃ final, receiveLines base64DecodeInto true 100 512 (Memory.fresh fun _ => 0) 0
        [[65, 65, 115, 67, 65, 65, 65, 66, 10],
          [65, 65, 65, 65, 66, 113, 71, 99, 105, 119, 61, 61, 10]] = ([0, 0], final, 13) ∧
      Holds final 100 512 [0, 11, 2, 0, 0, 1, 0, 0, 0, 6, 0xA1, 156, 139] :=
  receiveLines_damaged base64DecodeInto base64DecodeInto_withinRoom Base64.decode true
    [2, 0, 0, 1, 0, 0, 0, 6] [0xA0] (by decide +kernel)
    (xorBytes (frameBody true [2, 0, 0, 1, 0, 0, 0, 6] [0xA0]) [0, 0, 0, 0, 0, 0, 0, 0, 1, 0, 0])
    (.flipped _ (by decide +kernel) (.odd (by decide)))
    [[65, 65, 115, 67, 65, 65, 65, 66], [65, 65, 65, 65, 66, 113, 71, 99, 105, 119, 61, 61]]
    (fun content _ => base64DecodeInto_means content) (by decide +kernel)
    (Memory.fresh fun _ => 0) 100 512 (by decide +kernel)

/-! ### From the line to the packet -/

/-- A line of characters other than the newline has its newline at the end and nowhere else. -/
theorem isLine_append_newline (content : List UInt8) (inner : newline ∉ content) :
    IsLine isNewline (content ++ [newline]) := by
  refine ⟨content, newline, rfl, rfl, fun symbol member => ?_⟩
  rw [isNewline, beq_eq_false_iff_ne]
  rintro rfl
  exact inner member

/-- Calls with room for the lines return the lines when no poll finds bytes of two of them. -/
theorem serialReads_lines (contents : List (List UInt8))
    (inner : ∀ content ∈ contents, newline ∉ content) (memory : Memory)
    (calls : List (Nat × Int)) (valid : ∀ call ∈ calls, 1 ≤ call.2 ∧ call.2 < 2 ^ 31)
    (rooms : List.Forall₂ (fun call content => content.length + 1 ≤ call.2.toNat) calls contents)
    (groups : List (List (List UInt8)))
    (polled : groups.map List.flatten = contents.map (· ++ [newline])) :
    serialReads RxUart.reset memory calls groups.flatten =
      contents.map fun content => (content ++ [newline], 1) := by
  have isLine : ∀ line ∈ contents.map (· ++ [newline]), IsLine isNewline line := by
    intro line member
    obtain ⟨content, inside, rfl⟩ := List.mem_map.mp member
    exact isLine_append_newline content (inner content inside)
  have stream : groups.flatten.flatten = (contents.map (· ++ [newline])).flatten := by
    rw [← polled, List.flatten_flatten]
  have cut : frames isNewline (capacities calls) groups.flatten.flatten =
      contents.map (· ++ [newline]) := by
    rw [stream]
    refine frames_lines isNewline ?_ isLine
    rw [capacities, List.forall₂_map_left_iff, List.forall₂_map_right_iff]
    simpa only [List.length_append, List.length_singleton] using rooms
  have aligned : LineAligned calls groups.flatten := by
    rw [LineAligned, cut, ← polled]
    refine ends_flatten_subset 0 groups fun group member none => ?_
    have line : [] ∈ contents.map (· ++ [newline]) := by
      rw [← polled]
      exact List.mem_map.mpr ⟨group, member, by rw [none, List.flatten_nil]⟩
    obtain ⟨content, last, empty, _⟩ := isLine [] line
    exact absurd empty.symm (List.append_ne_nil_of_right_ne_nil _ (List.cons_ne_nil _ _))
  rw [(serialReads_eq_lines memory calls valid groups.flatten).mpr aligned, lines, cut,
    List.map_map]
  refine List.map_congr_left fun content _ => ?_
  simp

/-- What is kept of a frame: the length, the header and the payload. -/
theorem take_frame (signed : Bool) (header payload : List UInt8) :
    (frame signed header payload).take ((frame signed header payload).length - 2) =
      uint16Bytes (systemPortHtons (BitVec.ofNat 16 (frameBody signed header payload).length)) ++
        (header ++ payload) := by
  have count : (frame signed header payload).length - 2 =
      (uint16Bytes (systemPortHtons (BitVec.ofNat 16 (frameBody signed header payload).length)) ++
        (header ++ payload)).length := by
    rw [frame_length, frameBody_length, List.length_append, List.length_append]
    simp only [uint16Bytes, List.length_cons, List.length_nil]
    omega
  rw [count]
  conv => lhs; arg 2; rw [frame, frameBody, ← List.append_assoc]
  exact List.take_left

/-- A packet that arrives a line at a time, in whatever polls, comes out of the calls line by line
and is accepted on its last line, which leaves header and payload behind the length. Lines in
between that are not base64 are refused and do no harm. -/
theorem serialLink_delivers (bounded : WithinRoom mbedtlsBase64Decode)
    (meaning : List UInt8 → Option (List UInt8)) (signed : Bool) (header payload : List UInt8)
    (full : header ≠ []) (short : (frameBody signed header payload).length < 2 ^ 16)
    (before : List (List UInt8)) (last piece : List UInt8)
    (means : ∀ content ∈ before ++ [last], Means mbedtlsBase64Decode meaning content)
    (meant : meaning last = some piece) (nonempty : piece ≠ [])
    (split : symbols meaning before ++ piece = frame signed header payload)
    (inner : ∀ content ∈ before ++ [last], newline ∉ content) (lineMemory : Memory)
    (calls : List (Nat × Int)) (valid : ∀ call ∈ calls, 1 ≤ call.2 ∧ call.2 < 2 ^ 31)
    (rooms : List.Forall₂ (fun call content => content.length + 1 ≤ call.2.toNat) calls
      (before ++ [last]))
    (groups : List (List (List UInt8)))
    (polled : groups.map List.flatten = (before ++ [last]).map (· ++ [newline])) (memory : Memory)
    (out maxout : Nat) (fits : (frame signed header payload).length ≤ maxout) :
    ∃ final outOff,
      receiveLines mbedtlsBase64Decode signed out maxout memory 0
          ((serialReads RxUart.reset lineMemory calls groups.flatten).map Prod.fst) =
        ((before.map fun content => answerValue (notYet meaning content)) ++ [1], final, outOff) ∧
      final.loadBytes (out + 2) (outOff - 2) = header ++ payload := by
  have lined : (serialReads RxUart.reset lineMemory calls groups.flatten).map Prod.fst =
      (before ++ [last]).map (· ++ [newline]) := by
    rw [serialReads_lines _ inner lineMemory calls valid rooms groups polled, List.map_map]
    rfl
  have lengths := congrArg List.length split
  rw [List.length_append] at lengths
  have waiting := assembles_part mbedtlsBase64Decode signed maxout meaning before
    (fun content member => means content (List.mem_append_left _ member)) (by omega)
    fun front behind position => not_sealed_of_part signed header payload short _
      (symbols meaning behind ++ piece)
      (by rw [← List.append_assoc, ← symbols_append, position, split])
      (List.append_ne_nil_of_right_ne_nil _ nonempty)
  have gives := piece_of_means mbedtlsBase64Decode signed maxout meaning
    (symbols meaning before) last (means last (by simp)) (by rw [meant, Option.getD_some]; omega)
  have whole : Sealed signed (symbols meaning before ++ piece) :=
    ⟨header ++ payload, List.append_ne_nil_of_left_ne_nil full _,
      by rw [frameBody_message]; exact short, by rw [split, frame_message]⟩
  have kept : (frameAssembler mbedtlsBase64Decode signed maxout).kept
      (symbols meaning before ++ piece) = uint16Bytes (systemPortHtons
        (BitVec.ofNat 16 (frameBody signed header payload).length)) ++ (header ++ payload) := by
    rw [split]
    exact take_frame signed header payload
  have accepted := waiting.append (.accepts (gives.trans meant) whole (.done _))
  rw [kept] at accepted
  obtain ⟨answers, final, left, run, assembles, holds⟩ :=
    receiveLines_assembles mbedtlsBase64Decode bounded signed out maxout (before ++ [last]) memory
      [] ⟨rfl, Nat.zero_le _⟩
  obtain ⟨rfl, rfl⟩ := assembles.unique accepted
  rw [lined]
  refine ⟨final, 2 + (header ++ payload).length, ?_, ?_⟩
  · have values : (before.map (notYet meaning) ++ [Answer.accepted]).map answerValue =
        (before.map fun content => answerValue (notYet meaning content)) ++ [1] := by
      rw [List.map_append, List.map_map]
      rfl
    rw [values, List.length_append] at run
    exact run
  · have loaded := holds.loaded
    rw [List.length_append, Memory.loadBytes_add] at loaded
    rw [Nat.add_sub_cancel_left]
    exact (List.append_inj loaded (Memory.loadBytes_length _ _ _)).2

/-- A packet in two lines. The first arrives in three polls, and a line behind it is not base64. -/
theorem serialLink_delivers_two :
    ∃ final outOff,
      receiveLines base64DecodeInto true 100 512 (Memory.fresh fun _ => 0) 0
          ((serialReads RxUart.reset (Memory.fresh fun _ => 0)
            [(0x600, 128), (0x600, 128), (0x600, 128)]
            [[65, 65, 115], [], [67, 65, 65, 65, 66, 10], [0x21, 10],
              [65, 65, 65, 65, 66, 113, 67, 99, 105, 119, 61, 61, 10]]).map Prod.fst) =
        ([0, -1, 1], final, outOff) ∧
      final.loadBytes 102 (outOff - 2) = [2, 0, 0, 1, 0, 0, 0, 6, 0xA0] :=
  serialLink_delivers base64DecodeInto base64DecodeInto_withinRoom Base64.decode true
    [2, 0, 0, 1, 0, 0, 0, 6] [0xA0] (by decide) (by decide +kernel)
    [[65, 65, 115, 67, 65, 65, 65, 66], [0x21]] [65, 65, 65, 65, 66, 113, 67, 99, 105, 119, 61, 61]
    [0, 0, 0, 6, 0xA0, 156, 139] (fun content _ => base64DecodeInto_means content)
    (by decide +kernel) (by decide) (by decide +kernel) (by decide) (Memory.fresh fun _ => 0)
    [(0x600, 128), (0x600, 128), (0x600, 128)] (by decide)
    (.cons (by decide) (.cons (by decide) (.cons (by decide) .nil)))
    [[[65, 65, 115], [], [67, 65, 65, 65, 66, 10]], [[0x21, 10]],
      [[65, 65, 65, 65, 66, 113, 67, 99, 105, 119, 61, 61, 10]]] (by decide)
    (Memory.fresh fun _ => 0) 100 512 (by decide +kernel)

end Receive

end McubootPort
