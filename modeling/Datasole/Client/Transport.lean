import Datasole.Client.Rpc.Answers
import Datasole.Client.WorkerLink

/-!
# Messages of a client

What a client sends and receives over its two transports: `client/transport/fallback-transport.ts`,
a WebSocket in the main thread, and `client/transport/worker-proxy.ts` with `ws.onmessage` of
`client/worker/transport-worker.ts`, a WebSocket in a worker. A sender gives the messages that go
out on the socket, or the exception that its caller sees.
-/

namespace Datasole

structure FallbackTransport where
  /-- `this.ws.readyState === WebSocket.OPEN`. -/
  isConnected : Bool

def FallbackTransport.send (transport : FallbackTransport) (data : Bytes) :
    Except String (List Bytes) :=
  if transport.isConnected then .ok [data] else .error "WebSocket not connected"

/-- Encode/compress a frame and send it over WebSocket. -/
def FallbackTransport.sendFrame (pako : Pako) (transport : FallbackTransport) (frame : Frame) :
    Except String (List Bytes) :=
  (pako.pack frame).bind transport.send

/-- A malformed frame is dropped; so is one without a handler. -/
def FallbackTransport.onmessage {σ : Type*} (pako : Pako)
    (onMessageHandler : Option (Frame → σ → σ))
    (raw : Bytes) (s : σ) : σ :=
  match decodeMessage pako.inflate raw with
  | .error _ => s
  | .ok frame => onMessageHandler.elim s (· frame s)

structure WorkerProxy where
  /-- The worker is there, and its socket is open. -/
  isConnected : Bool

/-- The bytes are posted to the worker, which sends them; a rejection is ignored. -/
def WorkerProxy.send (proxy : WorkerProxy) (data : Bytes) : List Bytes :=
  if proxy.isConnected then [data] else []

/-- What the worker posts for a frame. -/
inductive WorkerPost where
  /-- The bytes are in the shared buffer. -/
  | sabFrame (length : ℕ)
  | message (frame : Frame)

/-- `ws.onmessage` of the worker, with the shared buffer if there is one: what is posted, and the
buffer after it. -/
def TransportWorker.onmessage (pako : Pako) (sharedBuffer : Option Ring) (raw : Bytes) :
    Option (WorkerPost × Option Ring) :=
  match decodeMessage pako.inflate raw with
  | .error _ => none
  | .ok frame =>
    match sharedBuffer with
    | none => some (.message frame, none)
    | some ring =>
      match encodeFrame frame with
      | .error _ => none
      | .ok fullFrame =>
        match ring.write fullFrame with
        | some ring => some (.sabFrame fullFrame.length, some ring)
        | none => some (.message frame, some ring)

namespace DatasoleClient

/-- How a client is connected. -/
structure Link where
  transport : Option FallbackTransport := none
  workerProxy : Option WorkerProxy := none

/-- `sendFn` of `connectDirect`, for the bytes of an encoded frame. -/
def sendDirect (pako : Pako) (link : Link) (data : Bytes) : Except String (List Bytes) :=
  link.transport.elim (.ok []) (·.send (pako.compressLarge data))

/-- `sendFn` of `connectViaWorker`. -/
def sendViaWorker (pako : Pako) (link : Link) (data : Bytes) : Except String (List Bytes) :=
  .ok (link.workerProxy.elim [] (·.send (pako.compressLarge data)))

/-- `payload` is what `serialize({ event, data })` gives. -/
def emit (pako : Pako) (link : Link) (payload : Bytes) : Except String (List Bytes) :=
  match link.transport, link.workerProxy with
  | some transport, _ => transport.sendFrame pako ⟨.eventC2s, 0, payload⟩
  | none, some proxy => (pako.pack ⟨.eventC2s, 0, payload⟩).map proxy.send
  | none, none => .error "Not connected"

end DatasoleClient

end Datasole
