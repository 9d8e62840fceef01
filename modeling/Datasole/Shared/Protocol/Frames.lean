import Mathlib.Algebra.Order.Ring.Int
import Datasole.Common.Bytes

/-!
# Frames

`shared/protocol/frames.ts` and the opcodes of `shared/protocol/opcodes.ts`. A frame is a header of
nine bytes (the opcode, the correlation id and the length of the payload) and the payload.
-/

namespace Datasole

inductive Opcode where
  | rpcReq | rpcRes | eventC2s | eventS2c | statePatch | stateSnapshot | ping | pong | error
  | crdtOp | crdtState
deriving DecidableEq, Repr

namespace Opcode

/-- The values of the enum. -/
def toByte : Opcode → UInt8
  | rpcReq => 0x01
  | rpcRes => 0x02
  | eventC2s => 0x03
  | eventS2c => 0x04
  | statePatch => 0x05
  | stateSnapshot => 0x06
  | ping => 0x07
  | pong => 0x08
  | error => 0x09
  | crdtOp => 0x0a
  | crdtState => 0x0b

/-- All opcodes, `VALID_OPCODES` as the set of their bytes. -/
def all : List Opcode :=
  [rpcReq, rpcRes, eventC2s, eventS2c, statePatch, stateSnapshot, ping, pong, error, crdtOp,
    crdtState]

/-- The opcode with a byte, if the byte is valid. -/
def ofByte (b : UInt8) : Option Opcode := all.find? (·.toByte = b)

theorem ofByte_toByte (opcode : Opcode) : ofByte opcode.toByte = some opcode := by
  cases opcode <;> rfl

end Opcode

/-- `correlationId` is any integer; the wire carries it modulo `2 ^ 32`. -/
structure Frame where
  opcode : Opcode
  correlationId : ℤ
  payload : Bytes
deriving DecidableEq

def frameHeaderSize : ℕ := 9

/-- 1 MB. -/
def maxFramePayload : ℕ := 1024 * 1024

/-- `b.toString(16).padStart(2, '0')`. -/
def hexByte (b : UInt8) : String :=
  String.ofList ((Nat.toDigits 16 b.toNat).leftpad 2 '0')

/-- The bytes of a frame whose payload is not too large. -/
def Frame.bytes (frame : Frame) : Bytes :=
  frame.opcode.toByte :: (Bytes.uint32 (frame.correlationId % 2 ^ 32).toNat ++
    Bytes.uint32 frame.payload.length ++ frame.payload)

def encodeFrame (frame : Frame) : Except String Bytes :=
  if maxFramePayload < frame.payload.length then
    .error s!"Payload too large: {frame.payload.length} bytes (max {maxFramePayload})"
  else .ok frame.bytes

def decodeFrame (data : Bytes) : Except String Frame :=
  if data.length < frameHeaderSize then
    .error s!"Frame too short: {data.length} bytes (minimum {frameHeaderSize})"
  else
    match Opcode.ofByte (data.getUint8 0) with
    | none => .error s!"Unknown opcode: 0x{hexByte (data.getUint8 0)}"
    | some opcode =>
      let correlationId := data.getUint32 1
      let payloadLength := data.getUint32 5
      if maxFramePayload < payloadLength then
        .error s!"Payload length {payloadLength} exceeds max {maxFramePayload}"
      else if data.length < frameHeaderSize + payloadLength then
        .error s!"Frame truncated: expected {frameHeaderSize + payloadLength} bytes, got {data.length}"
      else
        .ok { opcode, correlationId, payload := (data.drop frameHeaderSize).take payloadLength }

/-- What a receiver can get: a correlation id of 32 bits and a payload that is not too large. -/
structure Frame.Valid (frame : Frame) : Prop where
  id_nonneg : 0 ≤ frame.correlationId
  id_lt : frame.correlationId < 2 ^ 32
  payload_le : frame.payload.length ≤ maxFramePayload

/-- The length of a frame is that of its header and its payload. -/
theorem Frame.length_bytes (frame : Frame) :
    frame.bytes.length = frameHeaderSize + frame.payload.length := by
  simp [Frame.bytes, frameHeaderSize]
  omega

theorem encodeFrame_eq {frame : Frame} (h : frame.payload.length ≤ maxFramePayload) :
    encodeFrame frame = .ok frame.bytes :=
  if_neg (not_lt.mpr h)

/-- A frame is read off the front of its input, the correlation id modulo `2 ^ 32`; bytes behind it
are ignored. -/
theorem decodeFrame_bytes_append {frame : Frame} (h : frame.payload.length ≤ maxFramePayload)
    (rest : Bytes) :
    decodeFrame (frame.bytes ++ rest) =
      .ok { frame with correlationId := frame.correlationId % 2 ^ 32 } := by
  have hlen :
      (frame.bytes ++ rest).length = frameHeaderSize + frame.payload.length + rest.length := by
    rw [List.length_append, frame.length_bytes]
  have hop : (frame.bytes ++ rest).getUint8 0 = frame.opcode.toByte := rfl
  have hid : (((frame.bytes ++ rest).getUint32 1 : ℕ) : ℤ) = frame.correlationId % 2 ^ 32 := by
    have hread : (frame.bytes ++ rest).getUint32 1 =
        (frame.correlationId % 2 ^ 32).toNat % 2 ^ 32 := Bytes.ofUint32_uint32 _
    omega
  have hpayload : (frame.bytes ++ rest).getUint32 5 = frame.payload.length := by
    have hread : (frame.bytes ++ rest).getUint32 5 = frame.payload.length % 2 ^ 32 :=
      Bytes.ofUint32_uint32 _
    unfold maxFramePayload at h
    omega
  have hdrop : ((frame.bytes ++ rest).drop frameHeaderSize).take frame.payload.length =
      frame.payload := by
    change (frame.payload ++ rest).take frame.payload.length = frame.payload
    exact List.take_left
  have hlong : ¬ (frame.bytes ++ rest).length < frameHeaderSize := by omega
  have hfits : ¬ (frame.bytes ++ rest).length < frameHeaderSize + frame.payload.length := by omega
  rw [decodeFrame, if_neg hlong, hop, Opcode.ofByte_toByte]
  simp only [hpayload, hid, hdrop, if_neg (not_lt.mpr h), if_neg hfits]

/-- It is decoded to the same, with the correlation id that is on the wire. -/
theorem decodeFrame_bytes {frame : Frame} (h : frame.payload.length ≤ maxFramePayload) :
    decodeFrame frame.bytes =
      .ok { frame with correlationId := frame.correlationId % 2 ^ 32 } := by
  have hdecode := decodeFrame_bytes_append h []
  rwa [List.append_nil] at hdecode

theorem Frame.Valid.decodeFrame_bytes {frame : Frame} (h : frame.Valid) :
    decodeFrame frame.bytes = .ok frame := by
  rw [Datasole.decodeFrame_bytes h.payload_le, Int.emod_eq_of_lt h.id_nonneg h.id_lt]

/-- Whatever is decoded is a valid frame. -/
theorem valid_of_decodeFrame {data : Bytes} {frame : Frame} (h : decodeFrame data = .ok frame) :
    frame.Valid := by
  unfold decodeFrame at h
  split at h
  · cases h
  cases hop : Opcode.ofByte (data.getUint8 0) with
  | none => rw [hop] at h; cases h
  | some opcode =>
    simp only [hop] at h
    split at h
    · cases h
    split at h
    · cases h
    cases h
    have hid : ((data.getUint32 1 : ℕ) : ℤ) < 2 ^ 32 := by exact_mod_cast data.getUint32_lt 1
    refine ⟨Int.natCast_nonneg _, hid, ?_⟩
    exact (List.length_take_le _ _).trans (not_lt.mp ‹_›)

end Datasole
