import Datasole.Common.JsMap
import Datasole.Shared.Codec.Message
import Datasole.Shared.Types.Rpc

/-!
# Answers to remote calls

The RPC_REQ handler and `sendToConnection` of `server/protocol/protocol-adapter.ts`, `dispatch` of
`server/primitives/rpc/rpc-dispatcher.ts`, and `FrameRouter.dispatch`. A handler gives a JavaScript
value of any kind `V`. What `JSON.stringify` makes of such a value is the parameter `stringify`: it
throws, leaves the value out, or writes a JSON value; `encode` writes the text of a JSON value as
bytes.

`sendToConnection` catches everything, so a response that cannot be written, or is too large for a
frame, is dropped without a word. `one_answer_iff` says that nothing else can go wrong.
-/

namespace Datasole

variable {V : Type*}

/-- What a handler does: it throws or rejects, with an error that has a message or with something
that is no error, or it resolves. -/
inductive HandlerOutcome (V : Type*) where
  | fails (message : Option String)
  | resolves (value : V)

/-- The handlers by method; a handler is given the `params` of the request. -/
structure RpcDispatcher (V : Type*) where
  handlers : JsMap String (Option Json → HandlerOutcome V)

/-- What `dispatch` returns: the response before it is written. -/
structure Dispatched (V : Type*) where
  correlationId : Option Json
  outcome : Except RpcError V

def RpcDispatcher.dispatch (rpc : RpcDispatcher V) (request : RpcRequest) : Dispatched V where
  correlationId := request.correlationId
  outcome :=
    match rpc.handlers.get request.method with
    | none => .error { code := -32601, message := s!"Method not found: {request.method}" }
    | some handler =>
      match handler request.params with
      | .resolves value => .ok value
      | .fails message => .error { code := -32000, message := message.getD "Internal error" }

/-- Sending on a connection that is not open rejects, which is ignored. -/
structure Connection where
  isOpen : Bool

/-- The messages that go out on a connection. -/
def Connection.send (conn : Connection) (data : Bytes) : List Bytes :=
  if conn.isOpen then [data] else []

/-- `payload` is what `serialize(data ?? null)` returns or throws. -/
def sendToConnection (pako : Pako) (conn : Connection) (opcode : Opcode) (correlationId : ℤ)
    (payload : Except String Bytes) : List Bytes :=
  match payload.bind fun payload => pako.pack ⟨opcode, correlationId, payload⟩ with
  | .ok frameData => conn.send frameData
  -- "Send failure — connection may be closing"
  | .error _ => []

/-- The language's JSON functions. -/
structure JsonText (V : Type*) where
  /-- `JSON.stringify` on a value inside an object. -/
  stringify : V → Except String (Option Json)
  /-- The text of a JSON value, encoded. -/
  encode : Json → Except String Bytes
  /-- `JSON.parse(decoder.decode(data))`; `none` where it throws. -/
  parse : Bytes → Option Json

section

variable (pako : Pako) (text : JsonText V)

/-- The response as it is written. -/
def Dispatched.toResponse (response : Dispatched V) : Except String RpcResponse :=
  match response.outcome with
  | .error error => .ok { correlationId := response.correlationId, error := some error }
  | .ok value => (text.stringify value).map fun result =>
      { correlationId := response.correlationId, result }

/-- `serialize(response)`. -/
def Dispatched.serialize (response : Dispatched V) : Except String Bytes :=
  (response.toResponse text).bind fun response => text.encode response.toJson

/-- The RPC_REQ handler, for a request whose `method` is a string. -/
def handleRpcReq (rpc : RpcDispatcher V) (conn : Connection) (frame : Frame) : List Bytes :=
  match (text.parse frame.payload).bind RpcRequest.ofJson with
  | none => []
  | some request =>
    sendToConnection pako conn .rpcRes frame.correlationId ((rpc.dispatch request).serialize text)

/-- The PING handler. -/
def handlePing (conn : Connection) (frame : Frame) : List Bytes :=
  sendToConnection pako conn .pong frame.correlationId (text.encode .null)

/-- The handlers that answer on the connection of the frame. -/
def registerProtocolHandlers (rpc : RpcDispatcher V) :
    Opcode → Option (Connection → Frame → List Bytes)
  | .rpcReq => some (handleRpcReq pako text rpc)
  | .ping => some (handlePing pako text)
  | _ => none

/-- `FrameRouter.dispatch`: what goes out on the connection while the message is handled. An
exception goes to the caller, which ignores it. -/
def dispatchMessage (handlers : Opcode → Option (Connection → Frame → List Bytes))
    (conn : Connection)
    (raw : Bytes) : List Bytes :=
  match decodeMessage pako.inflate raw with
  | .error _ => []
  | .ok frame =>
    match handlers frame.opcode with
    | none => []
    | some handler => handler conn frame

/-- The message is an RPC_RES with this correlation id. -/
def IsAnswer (correlationId : ℤ) (message : Bytes) : Prop :=
  ∃ payload, decodeMessage pako.inflate message = .ok ⟨.rpcRes, correlationId, payload⟩

/-- The response can be written, and fits into a frame. -/
def Writable (payload : Except String Bytes) : Prop :=
  ∃ bytes, payload = .ok bytes ∧ bytes.length ≤ maxFramePayload

variable {pako text}

/-- One message goes out if the payload can be written, and none otherwise. -/
theorem sendToConnection_of_writable {conn : Connection} (hopen : conn.isOpen = true)
    (opcode : Opcode)
    (correlationId : ℤ) {bytes : Bytes} (hlen : bytes.length ≤ maxFramePayload) :
    sendToConnection pako conn opcode correlationId (.ok bytes) =
      [pako.compressLarge (Frame.bytes ⟨opcode, correlationId, bytes⟩)] := by
  have hpack : (Except.ok bytes : Except String Bytes).bind
      (fun payload => pako.pack ⟨opcode, correlationId, payload⟩) =
        .ok (pako.compressLarge (Frame.bytes ⟨opcode, correlationId, bytes⟩)) := pako.pack_eq hlen
  simp only [sendToConnection, hpack, Connection.send, hopen, if_true]

/-- What cannot be written is not sent. -/
theorem sendToConnection_of_not_writable (conn : Connection) (opcode : Opcode) (correlationId : ℤ)
    {payload : Except String Bytes} (hnot : ¬ Writable payload) :
    sendToConnection pako conn opcode correlationId payload = [] := by
  cases payload with
  | error e => rfl
  | ok bytes =>
    have hlarge : maxFramePayload < bytes.length := not_le.mp fun hlen => hnot ⟨bytes, rfl, hlen⟩
    have hpack : ∃ e, pako.pack ⟨opcode, correlationId, bytes⟩ = .error e := by
      rw [Pako.pack, encodeFrame, if_pos hlarge]
      exact ⟨_, rfl⟩
    obtain ⟨e, hpack⟩ := hpack
    simp only [sendToConnection, Except.bind, hpack]

/-- What goes out is the one frame that was to be sent. -/
theorem mem_sendToConnection {conn : Connection} {opcode : Opcode} {correlationId : ℤ}
    {payload : Except String Bytes} {message : Bytes}
    (hsent : message ∈ sendToConnection pako conn opcode correlationId payload) :
    ∃ bytes, payload = .ok bytes ∧ bytes.length ≤ maxFramePayload ∧
      message = pako.compressLarge (Frame.bytes ⟨opcode, correlationId, bytes⟩) := by
  by_cases hwritable : Writable payload
  · obtain ⟨bytes, rfl, hlen⟩ := hwritable
    refine ⟨bytes, rfl, hlen, ?_⟩
    obtain ⟨isOpen⟩ := conn
    cases isOpen with
    | true => exact List.mem_singleton.mp (sendToConnection_of_writable rfl opcode _ hlen ▸ hsent)
    | false =>
      unfold sendToConnection at hsent
      split at hsent <;> cases hsent
  · rw [sendToConnection_of_not_writable conn opcode correlationId hwritable] at hsent
    cases hsent

/-- On an open connection the answer to a request is one RPC_RES with the request's correlation id
exactly if the response, the handler's value or the error made of what it threw, can be written by
`JSON.stringify` and its text takes at most `MAX_FRAME_PAYLOAD` bytes. -/
theorem one_answer_iff (hpako : pako.Lawful) (rpc : RpcDispatcher V) (conn : Connection)
    (hopen : conn.isOpen = true) (raw : Bytes) (frame : Frame)
    (hraw : decodeMessage pako.inflate raw = .ok frame) (hopcode : frame.opcode = .rpcReq)
    (value : Json) (hparse : text.parse frame.payload = some value) (request : RpcRequest)
    (hrequest : RpcRequest.ofJson value = some request) :
    (∃ message, dispatchMessage pako (registerProtocolHandlers pako text rpc) conn raw = [message] ∧
        IsAnswer pako frame.correlationId message) ↔
      Writable ((rpc.dispatch request).serialize text) := by
  have hvalid := valid_of_decodeMessage hraw
  have hdispatch : dispatchMessage pako (registerProtocolHandlers pako text rpc) conn raw =
      sendToConnection pako conn .rpcRes frame.correlationId
        ((rpc.dispatch request).serialize text) := by
    simp only [dispatchMessage, hraw, hopcode, registerProtocolHandlers, handleRpcReq, hparse,
      Option.bind_some, hrequest]
  rw [hdispatch]
  constructor
  · rintro ⟨message, hsent, -⟩
    by_contra hnot
    rw [sendToConnection_of_not_writable conn .rpcRes frame.correlationId hnot] at hsent
    cases hsent
  · rintro ⟨bytes, hbytes, hlen⟩
    rw [hbytes, sendToConnection_of_writable hopen _ _ hlen]
    refine ⟨_, rfl, bytes, hpako.decodeMessage_pack ?_⟩
    exact ⟨hvalid.id_nonneg, hvalid.id_lt, hlen⟩

end

/-! ## A handler with numbers -/

namespace NumberHandler

inductive JsNumber where
  | number (n : ℚ)
  | bigint (n : ℤ)

def request : Json := .obj [("correlationId", .num 1), ("method", .str "x"), ("params", .null)]

def requestText : Bytes :=
  Bytes.ofAscii "\x7b\"method\":\"x\",\"params\":null,\"correlationId\":1\x7d"

def response : Json := .obj [("correlationId", .num 1), ("result", .num 42)]

def responseText : Bytes := Bytes.ofAscii "\x7b\"correlationId\":1,\"result\":42\x7d"

/-- The JSON functions on the values above; a BigInt has no JSON text. -/
def text : JsonText JsNumber where
  stringify
    | .number n => .ok (some (.num n))
    | .bigint _ => .error "Do not know how to serialize a BigInt"
  encode value := if value = response then .ok responseText else .error "another value"
  parse data := if data = requestText then some request else none

/-- A server whose method `x` resolves with a value. -/
def rpc (value : JsNumber) : RpcDispatcher JsNumber :=
  ⟨JsMap.empty.set "x" fun _ => .resolves value⟩

def frame : Frame := ⟨.rpcReq, 1, requestText⟩

theorem decodeMessage_frame : decodeMessage plainPako.inflate frame.bytes = .ok frame := by
  decide +kernel

end NumberHandler

open NumberHandler in
/-- The request of the example is answered once. -/
theorem number_is_answered :
    ∃ message, dispatchMessage plainPako (registerProtocolHandlers plainPako text (rpc (.number 42)))
        ⟨true⟩ frame.bytes = [message] ∧ IsAnswer plainPako 1 message := by
  refine (one_answer_iff plainPako_lawful (rpc (.number 42)) ⟨true⟩ rfl frame.bytes frame
    decodeMessage_frame rfl request (by decide +kernel) ⟨"x", some .null, some (.num 1)⟩
    (by decide +kernel)).mpr ?_
  exact ⟨responseText, by decide +kernel, by decide +kernel⟩

open NumberHandler in
/-- A handler that resolves with a BigInt is never answered. -/
theorem bigint_is_not_answered :
    dispatchMessage plainPako (registerProtocolHandlers plainPako text (rpc (.bigint 10))) ⟨true⟩
        frame.bytes = [] ∧
      ¬ ∃ message, dispatchMessage plainPako (registerProtocolHandlers plainPako text (rpc (.bigint 10)))
        ⟨true⟩ frame.bytes = [message] ∧ IsAnswer plainPako 1 message := by
  have hnone : dispatchMessage plainPako (registerProtocolHandlers plainPako text (rpc (.bigint 10)))
      ⟨true⟩ frame.bytes = [] := by decide +kernel
  refine ⟨hnone, ?_⟩
  rintro ⟨message, hsent, -⟩
  rw [hnone] at hsent
  cases hsent

end Datasole
