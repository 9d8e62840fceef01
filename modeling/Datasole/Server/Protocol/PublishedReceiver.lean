import Datasole.Server.Protocol.WireRoundTrip

/-!
# The receiver of the published protocol

Section 4.2 of `docs/protocol.md` has a receiver that inflates the messages of more than 256 bytes.
What the server compresses are the frames of more than 256 bytes, and a frame with a long repetitive
payload is compressed to less. The receivers of the code look at the first byte instead, which is
why they are not mistaken (`shared/codec/compression.ts`).
-/

namespace Datasole

/-- The receiver side of section 4.2. -/
def publishedReceiver (inflate : Bytes → Except String Bytes) (wire : Bytes) :
    Except String Frame :=
  if compressionThreshold < wire.length then (inflate wire).bind decodeFrame else decodeFrame wire

/-- A frame that the server sends, and the message on the wire. -/
inductive OnWire (pako : Pako) : Frame → Bytes → Prop
  | sendToConnection {conn : Connection} {opcode : Opcode} {correlationId : ℤ} {payload message : Bytes} :
      message ∈ Datasole.sendToConnection pako conn opcode correlationId (.ok payload) →
      OnWire pako ⟨opcode, correlationId, payload⟩ message
  | broadcastEncoded {connections : List Connection} {opcode : Opcode} {payload message : Bytes}
      {messages : List Bytes} :
      ProtocolBroadcastSink.broadcastEncoded pako connections opcode payload = .ok messages →
      message ∈ messages → OnWire pako ⟨opcode, 0, payload⟩ message

/-- The frame is compressed to a message that does not look so by its length. -/
def Shrinks (pako : Pako) (frame : Frame) : Prop :=
  compressionThreshold < frame.bytes.length ∧
    (pako.deflate frame.bytes).length ≤ compressionThreshold

instance (pako : Pako) (frame : Frame) : Decidable (Shrinks pako frame) :=
  inferInstanceAs (Decidable (_ ∧ _))

variable {pako : Pako} {frame : Frame} {message : Bytes}

/-- A message on the wire is a frame that fits, compressed where it is large. -/
theorem OnWire.eq (h : OnWire pako frame message) :
    frame.payload.length ≤ maxFramePayload ∧ message = pako.compressLarge frame.bytes := by
  cases h with
  | sendToConnection hsent =>
    obtain ⟨bytes, hbytes, hlen, hmessage⟩ := mem_sendToConnection hsent
    obtain rfl := Except.ok.inj hbytes
    exact ⟨hlen, hmessage⟩
  | @broadcastEncoded connections opcode payload message messages hsent hmem =>
    by_cases hlen : payload.length ≤ maxFramePayload
    · refine ⟨hlen, ?_⟩
      have hpack : pako.pack ⟨opcode, 0, payload⟩ =
          .ok (pako.compressLarge (Frame.bytes ⟨opcode, 0, payload⟩)) := pako.pack_eq hlen
      rw [ProtocolBroadcastSink.broadcastEncoded, hpack] at hsent
      obtain rfl := Except.ok.inj hsent
      obtain ⟨conn, -, hmem⟩ := List.mem_flatMap.mp hmem
      unfold Connection.send at hmem
      split at hmem
      · exact List.mem_singleton.mp hmem
      · cases hmem
    · have herror : ∃ e, pako.pack ⟨opcode, 0, payload⟩ = .error e := by
        rw [Pako.pack, encodeFrame, if_pos (not_le.mp hlen)]
        exact ⟨_, rfl⟩
      obtain ⟨e, herror⟩ := herror
      rw [ProtocolBroadcastSink.broadcastEncoded, herror] at hsent
      cases hsent

/-- A broadcast to an open connection puts every frame with id 0 that can be encoded on the wire. -/
theorem OnWire.of_length_le (hid : frame.correlationId = 0)
    (hlen : frame.payload.length ≤ maxFramePayload) :
    OnWire pako frame (pako.compressLarge frame.bytes) := by
  obtain ⟨opcode, id, payload⟩ := frame
  obtain rfl : id = 0 := hid
  have hsent : ProtocolBroadcastSink.broadcastEncoded pako [⟨true⟩] opcode payload =
      .ok [pako.compressLarge (Frame.bytes ⟨opcode, 0, payload⟩)] := by
    rw [ProtocolBroadcastSink.broadcastEncoded, pako.pack_eq hlen]
    rfl
  exact .broadcastEncoded hsent List.mem_cons_self

/-- No frame starts like a compressed message. -/
theorem decodeFrame_of_zlib (flags : UInt8) (rest : Bytes) :
    ∃ e, decodeFrame (zlibMagic :: flags :: rest) = .error e := by
  unfold decodeFrame
  split
  · exact ⟨_, rfl⟩
  · exact ⟨_, rfl⟩

/-- A message below the receiver's threshold is read as a frame, and what was compressed is none. -/
theorem publishedReceiver_of_shrinks (hpako : pako.Lawful) (hshrinks : Shrinks pako frame) :
    ∃ e, publishedReceiver pako.inflate (pako.compressLarge frame.bytes) = .error e := by
  obtain ⟨hlarge, hsmall⟩ := hshrinks
  obtain ⟨flags, rest, hstream⟩ := hpako.header frame.bytes
  rw [Pako.compressLarge, if_pos hlarge, publishedReceiver, if_neg (not_lt.mpr hsmall), hstream]
  exact decodeFrame_of_zlib flags rest

/-- Any other message is read by the published receiver too. -/
theorem publishedReceiver_of_not_shrinks (hpako : pako.Lawful) (hnot : ¬ Shrinks pako frame) :
    publishedReceiver pako.inflate (pako.compressLarge frame.bytes) = decodeFrame frame.bytes := by
  unfold Pako.compressLarge publishedReceiver
  by_cases hlarge : compressionThreshold < frame.bytes.length
  · have hlong : compressionThreshold < (pako.deflate frame.bytes).length :=
      not_le.mp fun hsmall => hnot ⟨hlarge, hsmall⟩
    rw [if_pos hlarge, if_pos hlong, hpako.inflate_deflate]
    rfl
  · rw [if_neg hlarge, if_neg hlarge]

/-- For what the server sends the receivers of the code recover the frame, and the published
receiver recovers the same exactly if the frame is not compressed to 256 bytes or less; otherwise it
fails. -/
theorem published_receiver_iff (hpako : pako.Lawful) (hsent : OnWire pako frame message) :
    decodeMessage pako.inflate message =
        .ok { frame with correlationId := frame.correlationId % 2 ^ 32 } ∧
      (publishedReceiver pako.inflate message = decodeMessage pako.inflate message ↔
        ¬ Shrinks pako frame) ∧
      (Shrinks pako frame → ∃ e, publishedReceiver pako.inflate message = .error e) := by
  obtain ⟨hlen, rfl⟩ := hsent.eq
  have hcode : decodeMessage pako.inflate (pako.compressLarge frame.bytes) =
      .ok { frame with correlationId := frame.correlationId % 2 ^ 32 } := by
    rw [hpako.decodeMessage_compressLarge hlen, decodeFrame_bytes hlen]
  refine ⟨hcode, ⟨fun hsame hshrinks => ?_, fun hnot => ?_⟩, publishedReceiver_of_shrinks hpako⟩
  · obtain ⟨e, herror⟩ := publishedReceiver_of_shrinks hpako hshrinks
    rw [hcode, herror] at hsame
    cases hsame
  · rw [publishedReceiver_of_not_shrinks hpako hnot, hcode, decodeFrame_bytes hlen]

/-! ## A repetitive event -/

namespace RepetitiveEvent

/-- `{"event":"tick","data":"aaa…","timestamp":1700000000000}`, with 300 times the letter. -/
def payload : Bytes :=
  Bytes.ofAscii "\x7b\"event\":\"tick\",\"data\":\"" ++ List.replicate 300 0x61 ++
    Bytes.ofAscii "\",\"timestamp\":1700000000000\x7d"

def tickFrame : Frame := ⟨.eventS2c, 0, payload⟩

/-- What zlib makes of the bytes of the frame, at its default level. -/
def stream : Bytes :=
  [0x78, 0x9c, 0x63, 0x61, 0x00, 0x03, 0xc6, 0x84, 0x6a, 0xa5, 0xd4, 0xb2, 0xd4, 0xbc, 0x12, 0x25, 0x2b,
    0xa5, 0x92, 0xcc, 0xe4, 0x6c, 0x25, 0x1d, 0xa5, 0x94, 0xc4, 0x92, 0x44, 0x20, 0x2f, 0x71, 0x14, 0x10,
    0x0d, 0x80, 0xa1, 0x56, 0x92, 0x99, 0x9b, 0x5a, 0x5c, 0x92, 0x98, 0x5b, 0xa0, 0x64, 0x65, 0x68, 0x6e,
    0x80, 0x00, 0xb5, 0x00, 0x35, 0xd8, 0x81, 0x17]

/-- As zlib on the bytes of the frame, and as `plainPako` on all others. -/
def zlibOnTick : Pako where
  deflate data := if data = tickFrame.bytes then stream else plainPako.deflate data
  inflate data := if data = stream then .ok tickFrame.bytes else plainPako.inflate data

/-- A compression that differs from `plainPako` in one stream is lawful. -/
theorem zlibOnTick_lawful : zlibOnTick.Lawful where
  inflate_deflate data := by
    by_cases hdata : data = tickFrame.bytes
    · simp only [zlibOnTick, hdata, if_true]
    · have hne : plainPako.deflate data ≠ stream := by
        intro heq
        have hsecond : some (0x01 : UInt8) = some 0x9c := congrArg (fun bytes => bytes[1]?) heq
        cases hsecond
      simp only [zlibOnTick, if_neg hdata, if_neg hne]
      exact plainPako_lawful.inflate_deflate data
  header data := by
    by_cases hdata : data = tickFrame.bytes
    · simp only [zlibOnTick, if_pos hdata]
      exact ⟨_, _, rfl⟩
    · simp only [zlibOnTick, if_neg hdata]
      exact plainPako_lawful.header data
  overhead data := by
    by_cases hdata : data = tickFrame.bytes
    · simp only [zlibOnTick, if_pos hdata]
      exact Nat.lt_add_left _ (by decide)
    · simp only [zlibOnTick, if_neg hdata]
      exact plainPako_lawful.overhead data

theorem deflate_tickFrame : zlibOnTick.deflate tickFrame.bytes = stream := by
  simp only [zlibOnTick, if_true]

theorem payload_le : tickFrame.payload.length ≤ maxFramePayload := by decide +kernel

theorem compressLarge_tickFrame : zlibOnTick.compressLarge tickFrame.bytes = stream := by
  have hlarge : compressionThreshold < tickFrame.bytes.length := by decide +kernel
  rw [Pako.compressLarge, if_pos hlarge, deflate_tickFrame]

theorem onWire : OnWire zlibOnTick tickFrame stream := by
  rw [← compressLarge_tickFrame]
  exact .of_length_le rfl payload_le

/-- The stream is too short for the published receiver to inflate. -/
theorem shrinks : Shrinks zlibOnTick tickFrame := by
  refine ⟨by decide +kernel, ?_⟩
  rw [deflate_tickFrame]
  decide

end RepetitiveEvent

/-- The event is sent, the client recovers it, and the published receiver does not. -/
theorem tick_is_not_inflated :
    RepetitiveEvent.zlibOnTick.Lawful ∧
      OnWire RepetitiveEvent.zlibOnTick RepetitiveEvent.tickFrame RepetitiveEvent.stream ∧
      decodeMessage RepetitiveEvent.zlibOnTick.inflate RepetitiveEvent.stream =
        .ok RepetitiveEvent.tickFrame ∧
      publishedReceiver RepetitiveEvent.zlibOnTick.inflate RepetitiveEvent.stream ≠
        decodeMessage RepetitiveEvent.zlibOnTick.inflate RepetitiveEvent.stream := by
  have hvalid : RepetitiveEvent.tickFrame.Valid :=
    ⟨by decide, by decide, RepetitiveEvent.payload_le⟩
  have hcode := RepetitiveEvent.zlibOnTick_lawful.decodeMessage_pack hvalid
  rw [RepetitiveEvent.compressLarge_tickFrame] at hcode
  refine ⟨RepetitiveEvent.zlibOnTick_lawful, RepetitiveEvent.onWire, hcode, fun hsame => ?_⟩
  obtain ⟨e, herror⟩ := publishedReceiver_of_shrinks RepetitiveEvent.zlibOnTick_lawful
    RepetitiveEvent.shrinks
  rw [RepetitiveEvent.compressLarge_tickFrame] at herror
  rw [hcode, herror] at hsame
  cases hsame

/-- For the same event. -/
theorem tick_fails_with_an_error :
    ∃ e, publishedReceiver RepetitiveEvent.zlibOnTick.inflate RepetitiveEvent.stream = .error e :=
  (published_receiver_iff RepetitiveEvent.zlibOnTick_lawful RepetitiveEvent.onWire).2.2
    RepetitiveEvent.shrinks

end Datasole
