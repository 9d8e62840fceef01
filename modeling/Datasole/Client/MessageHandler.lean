import Datasole.Common.Json
import Datasole.Shared.Protocol.Frames

/-!
# Dispatch of a client's frames

`dispatchFrame` of `client/worker/message-handler.ts`. The callbacks of a router act on a state `σ`;
one that is missing is not called. `parse` is `JSON.parse(decoder.decode(payload))`, `none` where it
throws.
-/

namespace Datasole

/-- The callbacks, with the fields of the payload that they are given. -/
structure FrameRouter (σ : Type*) where
  onRpcResponse : Option (ℤ → Json → σ → σ) := none
  onEvent : Option ((event data timestamp : Option Json) → σ → σ) := none
  onStatePatch : Option ((key patches : Option Json) → σ → σ) := none
  onStateSnapshot : Option ((key data : Option Json) → σ → σ) := none
  onPong : Option (ℤ → σ → σ) := none
  onError : Option ((message : Option Json) → σ → σ) := none
  onCrdtOp : Option ((key op : Option Json) → σ → σ) := none
  onCrdtState : Option ((key state : Option Json) → σ → σ) := none

variable {σ : Type*}

/-- `callback?.(…)` with fields of `parsed` as arguments; reading a field of `null` throws. -/
def withFields {α : Type*} (callback : Option α) (parsed : Json) (call : α → σ → σ) (s : σ) : σ :=
  match callback with
  | none => s
  | some callback => if parsed = .null then s else call callback s

def dispatchFrame (parse : Bytes → Option Json) (frame : Frame) (router : FrameRouter σ)
    (s : σ) : σ :=
  match parse frame.payload with
  | none => s
  | some parsed =>
    match frame.opcode with
    | .rpcRes =>
      match router.onRpcResponse with
      | none => s
      | some callback => callback frame.correlationId parsed s
    | .eventS2c => withFields router.onEvent parsed
        (· (parsed.property "event") (parsed.property "data") (parsed.property "timestamp")) s
    | .statePatch => withFields router.onStatePatch parsed
        (· (parsed.property "key") (parsed.property "patches")) s
    | .stateSnapshot => withFields router.onStateSnapshot parsed
        (· (parsed.property "key") (parsed.property "data")) s
    | .pong =>
      match router.onPong with
      | none => s
      | some callback => callback frame.correlationId s
    | .error => withFields router.onError parsed (· (parsed.property "message")) s
    | .crdtOp => withFields router.onCrdtOp parsed
        (· (parsed.property "key") (parsed.property "op")) s
    | .crdtState => withFields router.onCrdtState parsed
        (· (parsed.property "key") (parsed.property "state")) s
    | .rpcReq | .eventC2s | .ping => s

end Datasole
