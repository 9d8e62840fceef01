import Datasole.Client.Transport
import Datasole.Server.Pipeline.RateLimitInterceptor

/-!
# Every sender to every receiver

The places that encode a frame and compress it if it is large, and the places that detect, inflate
and decode. `wire_round_trip`: whichever of the senders a frame goes through, each of the receivers
gets it back, and only the frames above the threshold are compressed.
-/

namespace Datasole

/-- `broadcastEncoded` and `broadcastRaw`: one message for all connections. `payload` is what
`serialize(data)` gives. -/
def ProtocolBroadcastSink.broadcastEncoded (pako : Pako) (connections : List Connection)
    (opcode : Opcode) (payload : Bytes) : Except String (List Bytes) :=
  (pako.pack ⟨opcode, 0, payload⟩).map fun frameData => connections.flatMap (·.send frameData)

/-- The sending paths. The last is the ERROR of the rate limiter for a refused message. -/
inductive SendPath (V : Type*) where
  | rpcDirect
  | rpcViaWorker
  | emitDirect
  | emitViaWorker
  | sendFrame
  | sendToConnection
  | broadcastEncoded
  | rateLimitError (text : JsonText V) (raw : Bytes) (result : RateLimitResult)

namespace SendPath

variable {V : Type*}

def directLink : DatasoleClient.Link := { transport := some ⟨true⟩ }

def workerLink : DatasoleClient.Link := { workerProxy := some ⟨true⟩ }

/-- The frames that go through a path. -/
def Sends (pako : Pako) : SendPath V → Frame → Prop
  | rpcDirect, frame | rpcViaWorker, frame => frame.opcode = .rpcReq
  | emitDirect, frame | emitViaWorker, frame => frame.opcode = .eventC2s ∧ frame.correlationId = 0
  | sendFrame, _ | sendToConnection, _ => True
  | broadcastEncoded, frame => frame.correlationId = 0
  | rateLimitError text raw result, frame =>
    frame.opcode = .error ∧ text.encode (rateLimitExceeded result) = .ok frame.payload ∧
      frame.correlationId = match decodeMessage pako.inflate raw with
        | .ok request => request.correlationId
        | .error _ => 0

/-- What goes out for a frame when the socket is open. -/
def wire (pako : Pako) : SendPath V → Frame → Except String (List Bytes)
  | rpcDirect, frame => (encodeFrame frame).bind (DatasoleClient.sendDirect pako directLink)
  | rpcViaWorker, frame => (encodeFrame frame).bind (DatasoleClient.sendViaWorker pako workerLink)
  | emitDirect, frame => DatasoleClient.emit pako directLink frame.payload
  | emitViaWorker, frame => DatasoleClient.emit pako workerLink frame.payload
  | sendFrame, frame => FallbackTransport.sendFrame pako ⟨true⟩ frame
  | sendToConnection, frame =>
    .ok (Datasole.sendToConnection pako ⟨true⟩ frame.opcode frame.correlationId (.ok frame.payload))
  | broadcastEncoded, frame =>
    ProtocolBroadcastSink.broadcastEncoded pako [⟨true⟩] frame.opcode frame.payload
  | rateLimitError text raw result, _ => .ok (sendRateLimitError pako text (some ⟨true⟩) raw result)

/-- A path puts its frames on the wire as `pack` does. -/
theorem wire_eq {pako : Pako} {path : SendPath V} {frame : Frame} (hsends : path.Sends pako frame)
    (hlen : frame.payload.length ≤ maxFramePayload) :
    path.wire pako frame = .ok [pako.compressLarge frame.bytes] := by
  have hencode := encodeFrame_eq hlen
  have hpack := pako.pack_eq hlen
  obtain ⟨opcode, id, payload⟩ := frame
  cases path with
  | rpcDirect | rpcViaWorker =>
    simp only [wire, hencode]
    rfl
  | emitDirect | emitViaWorker =>
    obtain ⟨rfl, rfl⟩ := hsends
    simp only [wire, DatasoleClient.emit, directLink, workerLink, FallbackTransport.sendFrame,
      hpack]
    rfl
  | sendFrame =>
    simp only [wire, FallbackTransport.sendFrame, hpack]
    rfl
  | sendToConnection => rw [wire, sendToConnection_of_writable rfl opcode id hlen]
  | broadcastEncoded =>
    obtain rfl := hsends
    simp only [wire, ProtocolBroadcastSink.broadcastEncoded, hpack]
    rfl
  | rateLimitError text raw result =>
    obtain ⟨rfl, hpayload, hid⟩ := hsends
    have hbind : (text.encode (rateLimitExceeded result)).bind (fun payload =>
        pako.pack ⟨.error, id, payload⟩) =
          .ok (pako.compressLarge (Frame.bytes ⟨.error, id, payload⟩)) := by
      rw [hpayload]
      exact hpack
    -- the id is that of the refused message, or 0
    cases hraw : decodeMessage pako.inflate raw with
    | ok _ | error _ =>
      simp only [hraw] at hid
      subst hid
      simp only [wire, sendRateLimitError, hraw, hbind]
      rfl

end SendPath

/-- Every receiver gets this frame from the message. -/
structure ReceivedAs (pako : Pako) (message : Bytes) (frame : Frame) : Prop where
  frameRouter : ∀ handlers conn, dispatchMessage pako handlers conn message =
    (handlers frame.opcode).elim [] fun handler => handler conn frame
  fallbackTransport : ∀ (σ : Type) (handler : Frame → σ → σ) (s : σ),
    FallbackTransport.onmessage pako (some handler) message s = handler frame s
  worker : TransportWorker.onmessage pako none message = some (.message frame, none)
  /-- With a shared buffer the frame is posted, or its bytes are appended to the unread ones. -/
  sharedBuffer : ∀ (ring : Ring) (msgs : List Bytes), ring.Holds msgs →
    TransportWorker.onmessage pako (some ring) message = some (.message frame, some ring) ∨
      ∃ (fullFrame : Bytes) (ring' : Ring), decodeFrame fullFrame = .ok frame ∧
        TransportWorker.onmessage pako (some ring) message =
          some (.sabFrame fullFrame.length, some ring') ∧ ring'.Holds (msgs ++ [fullFrame])

/-- What decodes to a valid frame reaches every receiver as this frame. -/
theorem receivedAs_of_decodeMessage {pako : Pako} {message : Bytes} {frame : Frame}
    (h : decodeMessage pako.inflate message = .ok frame) : ReceivedAs pako message frame where
  frameRouter handlers conn := by
    simp only [dispatchMessage, h]
    cases handlers frame.opcode <;> rfl
  fallbackTransport σ handler s := by
    simp only [FallbackTransport.onmessage, h]
    rfl
  worker := by simp only [TransportWorker.onmessage, h]
  sharedBuffer ring msgs hring := by
    have hvalid := valid_of_decodeMessage h
    have hencode := encodeFrame_eq hvalid.payload_le
    cases hwrite : ring.write frame.bytes with
    | none => exact .inl (by simp only [TransportWorker.onmessage, h, hencode, hwrite])
    | some ring' =>
      refine .inr ⟨frame.bytes, ring', hvalid.decodeFrame_bytes, ?_, hring.write hwrite⟩
      simp only [TransportWorker.onmessage, h, hencode, hwrite]

/-- A valid frame that goes through any of the paths is one message, which looks compressed exactly
if the frame is larger than the threshold, and which every receiver decodes to the same frame. -/
theorem wire_round_trip {V : Type*} {pako : Pako} (hpako : pako.Lawful) (path : SendPath V)
    (frame : Frame) (hframe : frame.Valid) (hsends : path.Sends pako frame) :
    ∃ message, path.wire pako frame = .ok [message] ∧
      isCompressed message = decide (compressionThreshold < frame.bytes.length) ∧
      ReceivedAs pako message frame :=
  ⟨_, SendPath.wire_eq hsends hframe.payload_le, hpako.isCompressed_compressLarge frame,
    receivedAs_of_decodeMessage (hpako.decodeMessage_pack hframe)⟩

/-- A frame of 1000 bytes of payload, which is compressed. -/
theorem large_event_round_trip : ∃ message,
    (SendPath.emitViaWorker : SendPath Unit).wire plainPako ⟨.eventC2s, 0, List.replicate 1000 0x20⟩ =
        .ok [message] ∧ isCompressed message = true ∧
      ReceivedAs plainPako message ⟨.eventC2s, 0, List.replicate 1000 0x20⟩ := by
  have hlarge :
      compressionThreshold < (Frame.bytes ⟨.eventC2s, 0, List.replicate 1000 0x20⟩).length := by
    decide +kernel
  obtain ⟨message, hwire, hcompressed, hreceived⟩ := wire_round_trip plainPako_lawful
    (SendPath.emitViaWorker : SendPath Unit) ⟨.eventC2s, 0, List.replicate 1000 0x20⟩
    ⟨le_rfl, by decide, by decide +kernel⟩ ⟨rfl, rfl⟩
  exact ⟨message, hwire, hcompressed.trans (decide_eq_true hlarge), hreceived⟩

end Datasole
