/-
This file is about the frames of the serial protocol: how the patched
`boot_serial_output` seals a response and how the patched `boot_serial_in_dec`
accepts a request.

The sender chains the checksum over the header and the payload and appends it
with its high byte first; the receiver runs one checksum over the whole body,
trailer included, and asks for zero. Feeding the shift register its own bits
clears it, and no other two bytes do, so the two sides agree. The receiver sees
the frame line by line; it accepts when the length prefix equals what it holds,
which is on the last line and on no line before.
-/

import McubootPort.Crc16
import McubootPort.Library.Base64
import McubootPort.Library.ByteMemory
import McubootPort.SerialReceive

namespace McubootPort

open ShiftRegister ByteMemory

/-! ### Byte order -/

/-- `htobe16` on a little-endian processor: the two bytes change places. -/
def htobe16 (x : BitVec 16) : BitVec 16 := x.setWidth 8 ++ (x >>> 8).setWidth 8

/-- `be16toh` on a little-endian processor. -/
def be16toh (x : BitVec 16) : BitVec 16 := x.setWidth 8 ++ (x >>> 8).setWidth 8

def systemPortHtons (x : BitVec 16) : BitVec 16 := htobe16 x

def systemPortNtohs (x : BitVec 16) : BitVec 16 := be16toh x

/-- The bytes of a `uint16_t` in memory, the low one first. -/
def uint16Bytes (x : BitVec 16) : List UInt8 := [⟨x.setWidth 8⟩, ⟨(x >>> 8).setWidth 8⟩]

/-- The `uint16_t` at an address. -/
def loadUint16 (memory : Memory) (address : Nat) : BitVec 16 :=
  (memory.byte (address + 1)).toBitVec ++ (memory.byte address).toBitVec

/-! ### The sender -/

/-- The trailer of a response: the checksum is seeded with zero over the header, then with the
result over the payload, and then brought into network order. -/
def bootSerialOutputCrc (signed : Bool) (header payload : List UInt8) : BitVec 16 :=
  let crc := crc16PortCcitt signed 0 header header.length
  let crc := crc16PortCcitt signed crc payload payload.length
  systemPortHtons crc

/-- The body of a frame: header, payload and trailer. -/
def frameBody (signed : Bool) (header payload : List UInt8) : List UInt8 :=
  header ++ payload ++ uint16Bytes (bootSerialOutputCrc signed header payload)

/-- A frame: the body with its length in front, in network order. -/
def frame (signed : Bool) (header payload : List UInt8) : List UInt8 :=
  let body := frameBody signed header payload
  uint16Bytes (systemPortHtons (BitVec.ofNat 16 body.length)) ++ body

/-! ### The receiver -/

/-- `base64_port_decode`, over the decoder of mbedtls: the decoded bytes are at most `dlen`, and
every error is `-1`. -/
def base64PortDecode (mbedtlsBase64Decode : Nat → List UInt8 → Except Int (List UInt8))
    (dlen : Nat) (src : List UInt8) (slen : Nat) : Except Int (List UInt8) :=
  match mbedtlsBase64Decode dlen (src.take slen) with
  | .ok bytes => .ok bytes
  | .error _ => .error (-1)

/-- The end of `boot_serial_in_dec`: whether the bytes held at `out` are a whole frame, and what
is left of them when they are. Only the call of the checksum is patched. -/
def acceptFrame (signed : Bool) (memory : Memory) (out outOff : Nat) : Int × Nat :=
  if outOff ≤ 2 then (0, outOff)
  else
    let len := (systemPortNtohs (loadUint16 memory out)).toNat
    if len ≠ outOff - 2 then (0, outOff)
    else
      let crc := crc16PortCcitt signed 0 (memory.loadBytes (out + 2) len) len
      if crc ≠ 0 ∨ len ≤ 2 then (0, outOff) else (1, outOff - 2)

/-- The patched `boot_serial_in_dec`: the line without its end is decoded behind the bytes held
so far. The result is the return value, the memory and `*out_off`. -/
def bootSerialInDec (mbedtlsBase64Decode : Nat → List UInt8 → Except Int (List UInt8))
    (signed : Bool) (input : List UInt8) (inlen : Nat) (memory : Memory)
    (out outOff maxout : Nat) : Int × Memory × Nat :=
  match base64PortDecode mbedtlsBase64Decode (maxout - outOff) input (inlen - 1) with
  | .error _ => (-1, memory, outOff)
  | .ok bytes =>
    let memory := memory.storeBytes (out + outOff) bytes
    let (result, outOff) := acceptFrame signed memory out (outOff + bytes.length)
    (result, memory, outOff)

/-- Successive lines of one packet: the return values, and what is left at the end. -/
def receiveLines (mbedtlsBase64Decode : Nat → List UInt8 → Except Int (List UInt8))
    (signed : Bool) (out maxout : Nat) : Memory → Nat → List (List UInt8) →
    List Int × Memory × Nat
  | memory, outOff, [] => ([], memory, outOff)
  | memory, outOff, line :: rest =>
    let (result, memory, outOff) :=
      bootSerialInDec mbedtlsBase64Decode signed line line.length memory out outOff maxout
    let (results, memory, outOff) :=
      receiveLines mbedtlsBase64Decode signed out maxout memory outOff rest
    (result :: results, memory, outOff)

/-- The line that carries a piece of a frame. -/
def pieceLine (base64Encode : List UInt8 → List UInt8) (piece : List UInt8) : List UInt8 :=
  base64Encode piece ++ [newline]

/-! ### The trailer -/

theorem htobe16_bytes (x : BitVec 16) :
    uint16Bytes (htobe16 x) = [⟨(x >>> 8).setWidth 8⟩, ⟨x.setWidth 8⟩] := by
  have low : (htobe16 x).setWidth 8 = (x >>> 8).setWidth 8 := by
    rw [htobe16, BitVec.setWidth_append_eq_right]
  have high : (htobe16 x >>> 8).setWidth 8 = x.setWidth 8 := by
    refine BitVec.eq_of_getLsbD_eq fun index bound => ?_
    rw [htobe16, BitVec.getLsbD_setWidth, BitVec.getLsbD_ushiftRight, BitVec.getLsbD_append,
      if_neg (by omega), Nat.add_sub_cancel_left]
    simp [bound]
  rw [uint16Bytes, low, high]

theorem load_bitString_bytes (x : BitVec 16) :
    load (bitString (uint16Bytes (systemPortHtons x))) = x := by
  refine BitVec.eq_of_getLsbD_eq fun index bound => ?_
  rw [load_getLsbD _ index bound, systemPortHtons, htobe16_bytes, bitString_cons, bitString_cons,
    bitString_nil, List.append_nil]
  by_cases low : index < 8
  · rw [List.getD_append_right _ _ _ _ (by rw [byteBits_length]; omega), byteBits_length,
      byteBits_getD _ _ (by omega), show 7 - (16 - 1 - index - 8) = index by omega]
    simp [low]
  · rw [List.getD_append _ _ _ _ (by rw [byteBits_length]; omega),
      byteBits_getD _ _ (by omega), show 7 - (16 - 1 - index) = index - 8 by omega]
    simp [show index - 8 < 8 by omega, show 8 + (index - 8) = index by omega]

/-- Two bytes are the bytes of the number they make in network order. -/
theorem bytes_of_pair (high low : UInt8) :
    uint16Bytes (systemPortHtons (high.toBitVec ++ low.toBitVec)) = [high, low] := by
  have upper : ((high.toBitVec ++ low.toBitVec) >>> 8).setWidth 8 = high.toBitVec := by
    refine BitVec.eq_of_getLsbD_eq fun index bound => ?_
    rw [BitVec.getLsbD_setWidth, BitVec.getLsbD_ushiftRight, BitVec.getLsbD_append,
      if_neg (by omega), Nat.add_sub_cancel_left]
    simp [bound]
  rw [systemPortHtons, htobe16_bytes, upper, BitVec.setWidth_append_eq_right]

theorem bootSerialOutputCrc_eq (signed : Bool) (header payload : List UInt8) :
    bootSerialOutputCrc signed header payload =
      systemPortHtons (crc16PortCcitt signed 0 (header ++ payload) (header ++ payload).length) := by
  rw [bootSerialOutputCrc, crc16PortCcitt_append]

theorem crc16PortCcitt_trailer (signed : Bool) (message trailer : List UInt8) :
    crc16PortCcitt signed 0 (message ++ trailer) (message ++ trailer).length =
      feedAll ccittTaps (crc16PortCcitt signed 0 message message.length) (bitString trailer) := by
  rw [crc16PortCcitt_append, crc16PortCcitt_eq signed _ trailer]

/-- The receiver's checksum over a body is zero. -/
theorem crc16PortCcitt_frameBody (signed : Bool) (header payload : List UInt8) :
    crc16PortCcitt signed 0 (frameBody signed header payload)
      (frameBody signed header payload).length = 0 := by
  rw [frameBody, crc16PortCcitt_trailer, bootSerialOutputCrc_eq]
  exact feedAll_self ccittTaps _ _ (bitString_length _) (load_bitString_bytes _)

/-- A trailer that makes the receiver's checksum zero is the sender's. -/
theorem trailer_unique (signed : Bool) (header payload : List UInt8) (high low : UInt8)
    (zero : crc16PortCcitt signed 0 (header ++ payload ++ [high, low])
      (header ++ payload ++ [high, low]).length = 0) :
    [high, low] = uint16Bytes (bootSerialOutputCrc signed header payload) := by
  rw [crc16PortCcitt_trailer] at zero
  have same : load (bitString [high, low]) =
      crc16PortCcitt signed 0 (header ++ payload) (header ++ payload).length := by
    by_contra different
    exact feedAll_ne_zero ccittTaps (by decide) ccittTaps_lowest _ _ (bitString_length _)
      different zero
  rw [← bytes_of_pair, load_bitString_bytes] at same
  rw [bootSerialOutputCrc_eq, ← same, bytes_of_pair]

/-! ### Accepting a frame -/

theorem systemPortNtohs_load (memory : Memory) (address : Nat) (x : BitVec 16)
    (high : memory.byte address = ⟨(x >>> 8).setWidth 8⟩)
    (low : memory.byte (address + 1) = ⟨x.setWidth 8⟩) :
    systemPortNtohs (loadUint16 memory address) = x := by
  rw [systemPortNtohs, be16toh, loadUint16, high, low]
  refine BitVec.eq_of_getLsbD_eq fun index bound => ?_
  simp only [BitVec.getLsbD_append, BitVec.getLsbD_setWidth, BitVec.getLsbD_ushiftRight]
  by_cases lower : index < 8
  · simp [lower, show 8 + index - 8 = index by omega]
  · simp [lower, show index - 8 < 8 by omega, show 8 + (index - 8) = index by omega]

/-- The length prefix of a frame whose first bytes are in memory. -/
theorem prefix_of_frame (signed : Bool) (header payload : List UInt8)
    (short : (frameBody signed header payload).length < 2 ^ 16) (memory : Memory) (out : Nat)
    (held rest : List UInt8) (split : held ++ rest = frame signed header payload)
    (loaded : memory.loadBytes out held.length = held) (two : 2 < held.length) :
    (systemPortNtohs (loadUint16 memory out)).toNat = (frameBody signed header payload).length := by
  have byte (index : Nat) (inside : index < held.length) :
      memory.byte (out + index) = held[index] := by
    have read := List.getElem_of_eq loaded (i := index) (by rwa [Memory.loadBytes_length])
    rw [← read]
    simp [Memory.loadBytes]
  have front (index : Nat) (inside : index < held.length) :
      (frame signed header payload)[index]? = some held[index] := by
    rw [← split, List.getElem?_append_left inside, List.getElem?_eq_getElem inside]
  have prefixBytes := htobe16_bytes (BitVec.ofNat 16 (frameBody signed header payload).length)
  have first := front 0 (by omega)
  have second := front 1 (by omega)
  rw [frame, systemPortHtons, prefixBytes] at first second
  rw [systemPortNtohs_load memory out
    (BitVec.ofNat 16 (frameBody signed header payload).length), BitVec.toNat_ofNat,
    Nat.mod_eq_of_lt short]
  · rw [← Nat.add_zero out, byte 0 (by omega)]
    exact (Option.some.inj first).symm
  · rw [byte 1 (by omega)]
    exact (Option.some.inj second).symm

theorem frame_length (signed : Bool) (header payload : List UInt8) :
    (frame signed header payload).length = 2 + (frameBody signed header payload).length := by
  rw [frame, List.length_append]
  rfl

theorem frameBody_length (signed : Bool) (header payload : List UInt8) :
    (frameBody signed header payload).length = header.length + payload.length + 2 := by
  rw [frameBody, List.length_append, List.length_append]
  rfl

/-- A part of a frame is not accepted. -/
theorem acceptFrame_part (signed : Bool) (header payload : List UInt8)
    (short : (frameBody signed header payload).length < 2 ^ 16) (memory : Memory) (out : Nat)
    (held rest : List UInt8) (split : held ++ rest = frame signed header payload)
    (loaded : memory.loadBytes out held.length = held) (more : rest ≠ []) :
    acceptFrame signed memory out held.length = (0, held.length) := by
  rw [acceptFrame]
  split_ifs with few
  · rfl
  · have lengths := congrArg List.length split
    have some := List.length_pos_iff.mpr more
    rw [List.length_append, frame_length] at lengths
    rw [prefix_of_frame signed header payload short memory out held rest split loaded (by omega)]
    simp only [ite_eq_left_iff]
    intro equal
    omega

/-- A whole frame is accepted, and its trailer is cut off. -/
theorem acceptFrame_whole (signed : Bool) (header payload : List UInt8)
    (full : header.length = 8)
    (short : (frameBody signed header payload).length < 2 ^ 16) (memory : Memory) (out : Nat)
    (loaded : memory.loadBytes out (frame signed header payload).length =
      frame signed header payload) :
    acceptFrame signed memory out (frame signed header payload).length =
      (1, (frame signed header payload).length - 2) := by
  have lengths := frameBody_length signed header payload
  have whole := frame_length signed header payload
  have len := prefix_of_frame signed header payload short memory out
    (frame signed header payload) [] (List.append_nil _) loaded (by omega)
  have body : memory.loadBytes (out + 2) (frameBody signed header payload).length =
      frameBody signed header payload := by
    rw [whole, Memory.loadBytes_add] at loaded
    exact (List.append_inj loaded (by simp [uint16Bytes])).2
  have whole' : ¬ (frame signed header payload).length ≤ 2 := by omega
  have equal : (frameBody signed header payload).length =
      (frame signed header payload).length - 2 := by omega
  have zero : ¬ ((0 : BitVec 16) ≠ 0 ∨ (frameBody signed header payload).length ≤ 2) := by
    rintro (nonzero | few)
    · exact nonzero rfl
    · omega
  rw [acceptFrame, if_neg whole']
  simp only [len, body, crc16PortCcitt_frameBody]
  rw [if_neg (not_not.mpr equal), if_neg zero]

/-! ### Receiving the lines of a frame -/

theorem loadBytes_frame (signed : Bool) (header payload : List UInt8) (final : Memory) (out : Nat)
    (whole : final.loadBytes out (frame signed header payload).length =
      frame signed header payload) :
    final.loadBytes (out + 2) ((frame signed header payload).length - 2 - 2) =
      header ++ payload := by
  have total : (frame signed header payload).length =
      2 + ((header ++ payload).length + 2) := by
    rw [frame_length, frameBody_length, List.length_append]
  have count : (frame signed header payload).length - 2 - 2 = (header ++ payload).length := by
    omega
  rw [total, Memory.loadBytes_add, Memory.loadBytes_add] at whole
  rw [count]
  have body := (List.append_inj whole (by simp [uint16Bytes])).2
  exact (List.append_inj body (by simp)).1

section Receive

variable (mbedtlsBase64Decode : Nat → List UInt8 → Except Int (List UInt8))
  (base64Encode : List UInt8 → List UInt8)

/-- The decoder undoes the encoder on a piece wherever the piece fits. -/
def DecodesPiece (piece : List UInt8) : Prop :=
  ∀ room, piece.length ≤ room → mbedtlsBase64Decode room (base64Encode piece) = .ok piece

theorem bootSerialInDec_piece (signed : Bool) (memory : Memory) (out maxout : Nat)
    (held piece : List UInt8) (decodes : DecodesPiece mbedtlsBase64Decode base64Encode piece)
    (room : held.length + piece.length ≤ maxout) :
    bootSerialInDec mbedtlsBase64Decode signed (pieceLine base64Encode piece)
        (pieceLine base64Encode piece).length memory out held.length maxout =
      let accepted := acceptFrame signed (memory.storeBytes (out + held.length) piece) out
        (held ++ piece).length
      (accepted.1, memory.storeBytes (out + held.length) piece, accepted.2) := by
  have content : (pieceLine base64Encode piece).take
      ((pieceLine base64Encode piece).length - 1) = base64Encode piece := by
    rw [pieceLine, List.length_append, List.length_singleton, Nat.add_sub_cancel,
      List.take_left]
  rw [bootSerialInDec, base64PortDecode, content, decodes _ (by omega)]
  simp only [List.length_append]

theorem loadBytes_piece (memory : Memory) (out : Nat) (held piece : List UInt8)
    (loaded : memory.loadBytes out held.length = held) :
    (memory.storeBytes (out + held.length) piece).loadBytes out (held ++ piece).length =
      held ++ piece := by
  rw [List.length_append, Memory.loadBytes_add, Memory.loadBytes_storeBytes,
    Memory.loadBytes_storeBytes_of_disjoint _ _ _ _ _ (Or.inl (Nat.le_refl _)), loaded]

theorem receiveLines_pieces (signed : Bool) (header payload : List UInt8)
    (full : header.length = 8) (short : (frameBody signed header payload).length < 2 ^ 16)
    (out maxout : Nat) (fits : (frame signed header payload).length ≤ maxout)
    (pieces : List (List UInt8)) (piece : List UInt8)
    (nonempty : ∀ other ∈ pieces, other ≠ [])
    (decodes : ∀ other ∈ piece :: pieces, DecodesPiece mbedtlsBase64Decode base64Encode other)
    (memory : Memory) (held : List UInt8)
    (split : held ++ (piece :: pieces).flatten = frame signed header payload)
    (loaded : memory.loadBytes out held.length = held) :
    ∃ final, receiveLines mbedtlsBase64Decode signed out maxout memory held.length
        ((piece :: pieces).map (pieceLine base64Encode)) =
          (List.replicate pieces.length 0 ++ [1], final,
            (frame signed header payload).length - 2) ∧
      final.loadBytes out (frame signed header payload).length =
        frame signed header payload := by
  induction pieces generalizing piece memory held with
  | nil =>
    rw [List.flatten_cons, List.flatten_nil, List.append_nil] at split
    have stored := loadBytes_piece memory out held piece loaded
    refine ⟨memory.storeBytes (out + held.length) piece, ?_, by rw [← split, stored]⟩
    have room : held.length + piece.length ≤ maxout := by
      rw [← List.length_append, split]
      exact fits
    rw [split] at stored
    rw [List.map_singleton, receiveLines, bootSerialInDec_piece _ _ signed memory out maxout held
      piece (decodes piece List.mem_cons_self) room, split]
    simp only [acceptFrame_whole signed header payload full short _ out stored, receiveLines,
      List.length_nil, List.replicate_zero, List.nil_append]
  | cons next pieces inductionHypothesis =>
    rw [List.flatten_cons, ← List.append_assoc] at split
    have stored := loadBytes_piece memory out held piece loaded
    have more : (next :: pieces).flatten ≠ [] := by
      rw [List.flatten_cons]
      exact List.append_ne_nil_of_left_ne_nil (nonempty next List.mem_cons_self) _
    have room : held.length + piece.length ≤ maxout := by
      have lengths := congrArg List.length split
      rw [List.length_append, List.length_append] at lengths
      omega
    obtain ⟨final, received, whole⟩ := inductionHypothesis next
      (fun other member => nonempty other (List.mem_cons_of_mem _ member))
      (fun other member => decodes other (List.mem_cons_of_mem _ member))
      (memory.storeBytes (out + held.length) piece) (held ++ piece) split stored
    refine ⟨final, ?_, whole⟩
    rw [List.map_cons, receiveLines, bootSerialInDec_piece _ _ signed memory out maxout held
      piece (decodes piece List.mem_cons_self) room]
    simp only [acceptFrame_part signed header payload short _ out (held ++ piece) _ split stored
      more, received, List.length_cons, List.replicate_succ, List.cons_append]

end Receive

/-- The two ends agree on frames. The checksum of a body is zero, the sender's trailer is the only
one for which it is, and a frame sent in pieces is accepted on its last line and on no earlier
one, which leaves header and payload behind the length prefix. -/
theorem serialFrame_agrees (signed : Bool) (header payload : List UInt8) :
    crc16PortCcitt signed 0 (frameBody signed header payload)
        (frameBody signed header payload).length = 0 ∧
      (∀ high low : UInt8,
        [high, low] ≠ uint16Bytes (bootSerialOutputCrc signed header payload) →
        crc16PortCcitt signed 0 (header ++ payload ++ [high, low])
          (header ++ payload ++ [high, low]).length ≠ 0) ∧
      ∀ (mbedtlsBase64Decode : Nat → List UInt8 → Except Int (List UInt8))
        (base64Encode : List UInt8 → List UInt8) (pieces : List (List UInt8)) (memory : Memory)
        (out maxout : Nat), header.length = 8 →
        (frameBody signed header payload).length < 2 ^ 16 →
        pieces.flatten = frame signed header payload → (∀ piece ∈ pieces, piece ≠ []) →
        (frame signed header payload).length ≤ maxout →
        (∀ piece ∈ pieces, DecodesPiece mbedtlsBase64Decode base64Encode piece) →
        ∃ final outOff,
          receiveLines mbedtlsBase64Decode signed out maxout memory 0
              (pieces.map (pieceLine base64Encode)) =
            (List.replicate (pieces.length - 1) 0 ++ [1], final, outOff) ∧
          final.loadBytes (out + 2) (outOff - 2) = header ++ payload := by
  refine ⟨crc16PortCcitt_frameBody signed header payload, fun high low other zero =>
    other (trailer_unique signed header payload high low zero), ?_⟩
  intro mbedtlsBase64Decode base64Encode pieces memory out maxout full short split nonempty fits
    decodes
  cases pieces with
  | nil =>
    have lengths := congrArg List.length split
    rw [List.flatten_nil, List.length_nil, frame_length] at lengths
    omega
  | cons piece pieces =>
    obtain ⟨final, received, whole⟩ := receiveLines_pieces mbedtlsBase64Decode base64Encode signed
      header payload full short out maxout fits pieces piece
      (fun other member => nonempty other (List.mem_cons_of_mem _ member)) decodes memory [] split
      rfl
    exact ⟨final, _, received, loadBytes_frame signed header payload final out whole⟩

/-- `mbedtls_base64_decode`: the decoded bytes if they fit, and the error codes of the library. -/
def base64DecodeInto (dlen : Nat) (src : List UInt8) : Except Int (List UInt8) :=
  match Base64.decode src with
  | some bytes => if bytes.length ≤ dlen then .ok bytes else .error (-0x2A)
  | none => .error (-0x2C)

theorem base64DecodeInto_encode (piece : List UInt8) :
    DecodesPiece base64DecodeInto Base64.encode piece := by
  intro room fits
  rw [base64DecodeInto, Base64.decode_encode]
  exact if_pos fits

/-- A frame in two lines. -/
theorem serialFrame_agrees_two :
    crc16PortCcitt true 0 [2, 0, 0, 1, 0, 0, 0, 6, 0xA0, 0, 0] 11 ≠ 0 ∧
      ∃ final outOff, receiveLines base64DecodeInto true 100 512 (Memory.fresh fun _ => 0) 0
          [pieceLine Base64.encode [0, 11, 2, 0, 0, 1],
            pieceLine Base64.encode [0, 0, 0, 6, 0xA0, 156, 139]] =
        ([0, 1], final, outOff) ∧
      final.loadBytes 102 (outOff - 2) = [2, 0, 0, 1, 0, 0, 0, 6, 0xA0] := by
  have agrees := serialFrame_agrees true [2, 0, 0, 1, 0, 0, 0, 6] [0xA0]
  refine ⟨agrees.2.1 0 0 (by decide +kernel), ?_⟩
  exact agrees.2.2 base64DecodeInto Base64.encode
    [[0, 11, 2, 0, 0, 1], [0, 0, 0, 6, 0xA0, 156, 139]] (Memory.fresh fun _ => 0) 100 512 rfl
    (by decide +kernel) (by decide +kernel) (by decide) (by decide +kernel)
    fun piece _ => base64DecodeInto_encode piece

end McubootPort
