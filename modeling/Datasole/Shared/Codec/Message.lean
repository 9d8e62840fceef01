import Datasole.Shared.Codec.Compression
import Datasole.Shared.Protocol.Frames

/-!
# Messages

What every sender does with an encoded frame and every receiver with the bytes of a message: a frame
of more than `COMPRESSION_THRESHOLD` bytes is compressed, and a message that looks compressed is
inflated before it is decoded.

`Pako.Lawful` is what is relied on of pako. Then `decodeMessage_pack` is the round trip: an encoded
frame never looks compressed, because no opcode is the first byte of a zlib stream, and none of the
limits of `decompress` is reached.
-/

namespace Datasole

/-- `COMPRESSION_THRESHOLD`. -/
def compressionThreshold : ℕ := 256

/-- The two functions of pako in use. -/
structure Pako where
  deflate : Bytes → Bytes
  inflate : Bytes → Except String Bytes

/-- Inflating undoes deflating; a stream starts with the two bytes of a zlib header, of which the
first is `0x78`, and is less than 1 MiB longer than what was deflated. -/
structure Pako.Lawful (pako : Pako) : Prop where
  inflate_deflate : ∀ data, pako.inflate (pako.deflate data) = .ok data
  header : ∀ data, ∃ flags rest, pako.deflate data = zlibMagic :: flags :: rest
  overhead : ∀ data, (pako.deflate data).length < data.length + 1024 * 1024

/-- `if (encoded.length > COMPRESSION_THRESHOLD) encoded = compress(encoded)`. -/
def Pako.compressLarge (pako : Pako) (encoded : Bytes) : Bytes :=
  if compressionThreshold < encoded.length then pako.deflate encoded else encoded

/-- `encodeFrame`, then `compress` if needed. -/
def Pako.pack (pako : Pako) (frame : Frame) : Except String Bytes :=
  (encodeFrame frame).map pako.compressLarge

/-- `decompress` if needed, then `decodeFrame`. -/
def decodeMessage (inflate : Bytes → Except String Bytes) (raw : Bytes) : Except String Frame :=
  if isCompressed raw then
    match decompress inflate raw with
    | .error e => .error e
    | .ok data => decodeFrame data
  else decodeFrame raw

/-- Whatever a message is decoded to is a frame that fits. -/
theorem valid_of_decodeMessage {inflate : Bytes → Except String Bytes} {raw : Bytes} {frame : Frame}
    (h : decodeMessage inflate raw = .ok frame) : frame.Valid := by
  unfold decodeMessage at h
  split at h
  · split at h
    · cases h
    · exact valid_of_decodeFrame h
  · exact valid_of_decodeFrame h

/-- No frame looks compressed. -/
theorem isCompressed_bytes (frame : Frame) : isCompressed frame.bytes = false := by
  obtain ⟨opcode, id, payload⟩ := frame
  cases opcode <;> simp [isCompressed, Frame.bytes, Opcode.toByte, Bytes.getUint8, zlibMagic]

section

variable {pako : Pako} {frame : Frame}

/-- What was deflated is taken for compressed. -/
theorem Pako.Lawful.isCompressed_deflate (h : pako.Lawful) (data : Bytes) :
    isCompressed (pako.deflate data) = true := by
  obtain ⟨flags, rest, heq⟩ := h.header data
  rw [heq]
  simp [isCompressed, Bytes.getUint8]

/-- What was deflated from a frame is within both limits of `decompress`. -/
theorem Pako.Lawful.decompress_deflate (h : pako.Lawful)
    (hframe : frame.payload.length ≤ maxFramePayload) :
    decompress pako.inflate (pako.deflate frame.bytes) = .ok frame.bytes := by
  have hlen : frame.bytes.length ≤ frameHeaderSize + maxFramePayload := by
    rw [frame.length_bytes]
    omega
  have hinput : ¬ maxCompressedInput < (pako.deflate frame.bytes).length := by
    have hover := h.overhead frame.bytes
    simp only [maxCompressedInput, frameHeaderSize, maxFramePayload] at hlen ⊢
    omega
  have houtput : ¬ maxDecompressedSize < frame.bytes.length := by
    simp only [maxDecompressedSize, frameHeaderSize, maxFramePayload] at hlen ⊢
    omega
  simp only [decompress, if_neg hinput, h.inflate_deflate, if_neg houtput]

theorem Pako.pack_eq (pako : Pako) (hframe : frame.payload.length ≤ maxFramePayload) :
    pako.pack frame = .ok (pako.compressLarge frame.bytes) := by
  rw [Pako.pack, encodeFrame_eq hframe]
  rfl

/-- A frame that can be packed fits. -/
theorem Pako.eq_of_pack {data : Bytes} (h : pako.pack frame = .ok data) :
    frame.payload.length ≤ maxFramePayload ∧ data = pako.compressLarge frame.bytes := by
  by_cases hlen : frame.payload.length ≤ maxFramePayload
  · rw [pako.pack_eq hlen] at h
    cases h
    exact ⟨hlen, rfl⟩
  · rw [Pako.pack, encodeFrame, if_pos (not_le.mp hlen)] at h
    cases h

/-- A message looks compressed exactly if it is. -/
theorem Pako.Lawful.isCompressed_compressLarge (h : pako.Lawful) (frame : Frame) :
    isCompressed (pako.compressLarge frame.bytes) =
      decide (compressionThreshold < frame.bytes.length) := by
  unfold Pako.compressLarge
  split
  · next hlarge => rw [h.isCompressed_deflate, decide_eq_true hlarge]
  · next hsmall => rw [isCompressed_bytes, decide_eq_false hsmall]

/-- A receiver decodes from a message what `decodeFrame` decodes from the frame's bytes. -/
theorem Pako.Lawful.decodeMessage_compressLarge (h : pako.Lawful)
    (hframe : frame.payload.length ≤ maxFramePayload) :
    decodeMessage pako.inflate (pako.compressLarge frame.bytes) = decodeFrame frame.bytes := by
  unfold Pako.compressLarge
  split
  · rw [decodeMessage, if_pos (h.isCompressed_deflate _), h.decompress_deflate hframe]
  · rw [decodeMessage, isCompressed_bytes]
    rfl

/-- The round trip of a valid frame, compressed or not. -/
theorem Pako.Lawful.decodeMessage_pack (h : pako.Lawful) (hframe : frame.Valid) :
    decodeMessage pako.inflate (pako.compressLarge frame.bytes) = .ok frame := by
  rw [h.decodeMessage_compressLarge hframe.payload_le, hframe.decodeFrame_bytes]

end

/-- A stand-in for pako where nothing is compressed: a header in front of the data as they are. -/
def plainPako : Pako where
  deflate data := zlibMagic :: 0x01 :: data
  inflate data := .ok (data.drop 2)

/-- A compression that only adds the header is lawful. -/
theorem plainPako_lawful : plainPako.Lawful where
  inflate_deflate _ := rfl
  header _ := ⟨_, _, rfl⟩
  overhead data := by
    simp only [plainPako, List.length_cons]
    omega

end Datasole
