import Datasole.Common.PrefixCode
import Datasole.Shared.Protocol.Frames

/-!
# What `decodeFrame` accepts

The bytes of valid frames form a prefix code that `decodeFrame` reads: bytes behind the payload are
ignored. The array that it is given may be a view on a part of a larger buffer, whose header it
reads through a `DataView` on the same part.
-/

namespace Datasole

/-- A `Uint8Array`, on a part of its buffer. -/
structure Uint8Array where
  buffer : Bytes
  byteOffset : ℕ
  byteLength : ℕ
  inBounds : byteOffset + byteLength ≤ buffer.length

namespace Uint8Array

/-- The bytes of the array. -/
def toBytes (data : Uint8Array) : Bytes := (data.buffer.drop data.byteOffset).take data.byteLength

/-- `data.slice(start, stop)`, for `start ≤ stop ≤ data.length`. -/
def slice (data : Uint8Array) (start stop : ℕ) : Bytes :=
  (data.buffer.drop (data.byteOffset + start)).take (stop - start)

/-- An array has as many bytes as its length says. -/
theorem length_toBytes (data : Uint8Array) : data.toBytes.length = data.byteLength := by
  have h := data.inBounds
  rw [toBytes, List.length_take, List.length_drop]
  omega

/-- A slice is a part of the bytes. -/
theorem slice_eq (data : Uint8Array) {start stop : ℕ} (hstop : stop ≤ data.byteLength) :
    data.slice start stop = (data.toBytes.drop start).take (stop - start) := by
  rw [slice, toBytes, List.drop_take, List.take_take, List.drop_drop]
  congr 1
  omega

end Uint8Array

/-- A `DataView`, on a part of its buffer. -/
structure DataView where
  buffer : Bytes
  byteOffset : ℕ
  byteLength : ℕ

namespace DataView

/-- `getUint8(i)`, for `i` inside the view. -/
def getUint8 (view : DataView) (i : ℕ) : UInt8 := view.buffer.getUint8 (view.byteOffset + i)

/-- `getUint32(i, false)`. -/
def getUint32 (view : DataView) (i : ℕ) : ℕ :=
  Bytes.ofUint32 (view.getUint8 i) (view.getUint8 (i + 1)) (view.getUint8 (i + 2))
    (view.getUint8 (i + 3))

/-- `new DataView(data.buffer, data.byteOffset, data.byteLength)`. -/
def of (data : Uint8Array) : DataView := ⟨data.buffer, data.byteOffset, data.byteLength⟩

theorem getUint8_of (data : Uint8Array) {i : ℕ} (hi : i < data.byteLength) :
    (of data).getUint8 i = data.toBytes.getUint8 i := by
  simp only [getUint8, of, Bytes.getUint8, Uint8Array.toBytes]
  rw [List.getElem?_take_of_lt hi, List.getElem?_drop]

theorem getUint32_of (data : Uint8Array) {i : ℕ} (hi : i + 3 < data.byteLength) :
    (of data).getUint32 i = data.toBytes.getUint32 i := by
  rw [getUint32, Bytes.getUint32, getUint8_of data (by omega), getUint8_of data (by omega),
    getUint8_of data (by omega), getUint8_of data hi]

end DataView

/-- `decodeFrame` on an array. -/
def decodeFrameOf (data : Uint8Array) : Except String Frame :=
  if data.byteLength < frameHeaderSize then
    .error s!"Frame too short: {data.byteLength} bytes (minimum {frameHeaderSize})"
  else
    let view := DataView.of data
    match Opcode.ofByte (view.getUint8 0) with
    | none => .error s!"Unknown opcode: 0x{hexByte (view.getUint8 0)}"
    | some opcode =>
      let correlationId := view.getUint32 1
      let payloadLength := view.getUint32 5
      if maxFramePayload < payloadLength then
        .error s!"Payload length {payloadLength} exceeds max {maxFramePayload}"
      else if data.byteLength < frameHeaderSize + payloadLength then
        .error s!"Frame truncated: expected {frameHeaderSize + payloadLength} bytes, got {data.byteLength}"
      else
        let payload := data.slice frameHeaderSize (frameHeaderSize + payloadLength)
        .ok { opcode, correlationId, payload }

/-- Where the array lies makes no difference. -/
theorem decodeFrameOf_eq (data : Uint8Array) : decodeFrameOf data = decodeFrame data.toBytes := by
  unfold decodeFrameOf decodeFrame
  rw [data.length_toBytes]
  by_cases hshort : data.byteLength < frameHeaderSize
  · rw [if_pos hshort, if_pos hshort]
  have hlen : 9 ≤ data.byteLength := not_lt.mp hshort
  rw [if_neg hshort, if_neg hshort]
  dsimp only
  rw [DataView.getUint8_of data (by omega), DataView.getUint32_of data (by omega),
    DataView.getUint32_of data (by omega)]
  cases Opcode.ofByte (data.toBytes.getUint8 0) with
  | none => rfl
  | some opcode =>
    by_cases hlarge : maxFramePayload < data.toBytes.getUint32 5
    · simp only [if_pos hlarge]
    by_cases hfits : data.byteLength < frameHeaderSize + data.toBytes.getUint32 5
    · simp only [if_neg hlarge, if_pos hfits]
    have hslice : data.slice frameHeaderSize (frameHeaderSize + data.toBytes.getUint32 5) =
        (data.toBytes.drop frameHeaderSize).take (data.toBytes.getUint32 5) := by
      rw [data.slice_eq (not_lt.mp hfits), Nat.add_sub_cancel_left]
    simp only [if_neg hlarge, if_neg hfits, hslice]

/-! ## The code -/

/-- An opcode that was read from a byte is written as that byte. -/
theorem Opcode.toByte_of_ofByte {b : UInt8} {opcode : Opcode} (h : ofByte b = some opcode) :
    opcode.toByte = b := by
  have hfound := List.find?_some h
  exact of_decide_eq_true hfound

/-- Four bytes are those of the number they form. -/
theorem Bytes.uint32_ofUint32 (b₀ b₁ b₂ b₃ : UInt8) :
    uint32 (ofUint32 b₀ b₁ b₂ b₃) = [b₀, b₁, b₂, b₃] := by
  have h₀ := b₀.toNat_lt
  have h₁ := b₁.toNat_lt
  have h₂ := b₂.toNat_lt
  have h₃ := b₃.toNat_lt
  simp only [uint32, List.cons.injEq, and_true, ← UInt8.toNat_inj, UInt8.toNat_ofNat', ofUint32]
  omega

/-- A string of at least nine bytes starts with the bytes of its header. -/
theorem Bytes.eq_header_append {d : Bytes} (hlen : frameHeaderSize ≤ d.length) :
    d = d.getUint8 0 :: (uint32 (d.getUint32 1) ++ uint32 (d.getUint32 5) ++ d.drop frameHeaderSize) := by
  match d with
  | b₀ :: b₁ :: b₂ :: b₃ :: b₄ :: b₅ :: b₆ :: b₇ :: b₈ :: rest =>
    change _ = b₀ :: (uint32 (ofUint32 b₁ b₂ b₃ b₄) ++ uint32 (ofUint32 b₅ b₆ b₇ b₈) ++ rest)
    rw [uint32_ofUint32, uint32_ofUint32]
    rfl

/-- What is decoded is in front of the input. -/
theorem bytes_prefix_of_decodeFrame {d : Bytes} {frame : Frame} (h : decodeFrame d = .ok frame) :
    ∃ rest, d = frame.bytes ++ rest := by
  unfold decodeFrame at h
  split at h
  · cases h
  next hlong =>
  cases hop : Opcode.ofByte (d.getUint8 0) with
  | none => rw [hop] at h; cases h
  | some opcode =>
    simp only [hop] at h
    split at h
    · cases h
    split at h
    · cases h
    next hfits =>
    cases h
    refine ⟨(d.drop frameHeaderSize).drop (d.getUint32 5), ?_⟩
    have hpayload : ((d.drop frameHeaderSize).take (d.getUint32 5)).length = d.getUint32 5 := by
      rw [List.length_take, List.length_drop]
      omega
    have hid : ((d.getUint32 1 : ℕ) : ℤ) % 2 ^ 32 = (d.getUint32 1 : ℕ) :=
      Int.emod_eq_of_lt (Int.natCast_nonneg _) (by exact_mod_cast d.getUint32_lt 1)
    simp only [Frame.bytes, hpayload, hid, Int.toNat_natCast, Opcode.toByte_of_ofByte hop]
    rw [List.cons_append, List.append_assoc, List.append_assoc, List.take_append_drop,
      ← List.append_assoc]
    exact Bytes.eq_header_append (not_lt.mp hlong)

/-- Frames decode to what they were made of, whatever comes after them. -/
theorem frame_isPrefixCode : IsPrefixCode Frame.Valid Frame.bytes decodeFrame where
  complete frame hframe rest := by
    rw [decodeFrame_bytes_append hframe.payload_le,
      Int.emod_eq_of_lt hframe.id_nonneg hframe.id_lt]
  sound _ _ h := ⟨valid_of_decodeFrame h, bytes_prefix_of_decodeFrame h⟩

/-- An array decodes to a frame exactly if the frame is valid and the array starts with its
encoding; it is the only such frame. With any integer as its correlation id a frame comes back from
its encoding, wherever that lies in a buffer, with the id modulo `2 ^ 32`. -/
theorem decodeFrame_exact :
    (∀ (data : Uint8Array) (frame : Frame), decodeFrameOf data = .ok frame ↔
        frame.Valid ∧ ∃ encoded rest, encodeFrame frame = .ok encoded ∧ data.toBytes = encoded ++ rest) ∧
      (∀ (frame frame' : Frame), frame.Valid → frame'.Valid → ∀ encoded encoded' rest rest',
        encodeFrame frame = .ok encoded → encodeFrame frame' = .ok encoded' →
          encoded ++ rest = encoded' ++ rest' → frame = frame') ∧
      ∀ (opcode : Opcode) (id : ℤ) (payload : Bytes), payload.length ≤ maxFramePayload →
        ∃ encoded, encodeFrame ⟨opcode, id, payload⟩ = .ok encoded ∧
          ∀ data : Uint8Array, data.toBytes = encoded →
            decodeFrameOf data = .ok ⟨opcode, id % 2 ^ 32, payload⟩ := by
  refine ⟨fun data frame => ?_, ?_, fun opcode id payload hlen => ?_⟩
  · rw [decodeFrameOf_eq, frame_isPrefixCode.ok_iff]
    constructor
    · rintro ⟨hvalid, rest, hdata⟩
      exact ⟨hvalid, frame.bytes, rest, encodeFrame_eq hvalid.payload_le, hdata⟩
    · rintro ⟨hvalid, encoded, rest, hencoded, hdata⟩
      obtain rfl := Except.ok.inj ((encodeFrame_eq hvalid.payload_le).symm.trans hencoded)
      exact ⟨hvalid, rest, hdata⟩
  · intro frame frame' hvalid hvalid' encoded encoded' rest rest' hencoded hencoded' heq
    obtain rfl := Except.ok.inj ((encodeFrame_eq hvalid.payload_le).symm.trans hencoded)
    obtain rfl := Except.ok.inj ((encodeFrame_eq hvalid'.payload_le).symm.trans hencoded')
    exact (frame_isPrefixCode.eq_of_prefix hvalid hvalid' heq).1
  · refine ⟨_, encodeFrame_eq hlen, fun data hdata => ?_⟩
    rw [decodeFrameOf_eq, hdata]
    exact decodeFrame_bytes hlen

end Datasole
