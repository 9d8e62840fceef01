import Mathlib.Data.Multiset.Filter
import Datasole.Server.ConnectionRun
import Datasole.Server.Protocol.BroadcastDelivery

/-!
# Remote calls between a client and a server

A client with its `RpcClient`, the messages on their way, and a server with the handlers of
`server/protocol/protocol-adapter.ts` behind its pipeline. The client may have any number of
connections one after the other; the other connections of the server belong to anybody, who may send
anything. The limiter's verdicts and the handlers take their time, connections come and go, calls
run into their timeouts.
-/

namespace Datasole

open FramePipeline (connectionId Inbound)

variable {V τ : Type*}

/-- The object that `RpcClient.call` serializes. -/
def RpcRequest.toJson (request : RpcRequest) : Json :=
  .obj (field "correlationId" request.correlationId ++
    ([("method", .str request.method)] ++ field "params" request.params))

/-- A request can be read back from its object. -/
theorem RpcRequest.ofJson_toJson (request : RpcRequest) : ofJson request.toJson = some request := by
  obtain ⟨method, params, correlationId⟩ := request
  have hmethod :
      (toJson ⟨method, params, correlationId⟩).property "method" = some (.str method) := by
    simp [toJson, Json.property, List.lookup_append, lookup_field]
  have hparams : (toJson ⟨method, params, correlationId⟩).property "params" = params := by
    simp [toJson, Json.property, List.lookup_append, lookup_field, List.lookup_cons]
  have hid : (toJson ⟨method, params, correlationId⟩).property "correlationId" = correlationId := by
    simp [toJson, Json.property, List.lookup_append, lookup_field, List.lookup_cons]
  unfold ofJson
  rw [hmethod, hparams, hid]

/-- What `dispatch` returns for a request, by what the handler of the method does; `none` if there
is no handler. -/
def RpcRequest.dispatched (request : RpcRequest) (outcome : Option (HandlerOutcome V)) :
    Dispatched V where
  correlationId := request.correlationId
  outcome :=
    match outcome with
    | none => .error { code := -32601, message := s!"Method not found: {request.method}" }
    | some (.resolves value) => .ok value
    | some (.fails message) => .error { code := -32000, message := message.getD "Internal error" }

/-- `dispatch` looks the handler up by the method, and gives it the parameters. -/
theorem RpcDispatcher.dispatch_eq (rpc : RpcDispatcher V) (request : RpcRequest) :
    rpc.dispatch request =
      request.dispatched ((rpc.handlers.get request.method).map (· request.params)) := by
  unfold dispatch RpcRequest.dispatched
  cases rpc.handlers.get request.method with
  | none => rfl
  | some handler =>
    simp only [Option.map_some]
    cases handler request.params <;> rfl

namespace RemoteCalls

/-- A call of `rpc.dispatch`, with the connection and the correlation id of its frame. -/
structure Handling where
  connection : ℕ
  correlationId : ℤ
  request : RpcRequest

/-- The response is the one that the handling ends with. -/
def Handling.Gives (text : JsonText V) (h : Handling) (outcome : Option (HandlerOutcome V))
    (response : RpcResponse) : Prop :=
  (h.request.dispatched outcome).toResponse text = .ok response

structure Sys (V τ : Type*) where
  server : DatasoleServer
  /-- The client, with its stores. -/
  client : RpcClient.Sys × τ
  /-- The requests that the client has sent, with what it sent them for. -/
  requests : List (RpcClient.Request × RpcRequest)
  /-- What those ask for that went out on a connection. -/
  asks : List Handling
  /-- What the client has sent and has not come in, with the connections. -/
  outgoing : List (ℕ × Bytes)
  /-- What has come in at the client, with the connections. -/
  heard : List (ℕ × Bytes)
  running : List Handling
  /-- The calls of `rpc.dispatch` that have settled, with what the handler did. -/
  finished : List (Handling × Option (HandlerOutcome V))

def init (server : DatasoleServer) (others : τ) : Sys V τ where
  server := server
  client := (RpcClient.init, others)
  requests := []
  asks := []
  outgoing := []
  heard := []
  running := []
  finished := []

inductive Act (V : Type*) where
  /-- Connections and upgrades come and go. -/
  | server (a : DatasoleServer.Act)
  | broadcast (b : Broadcast)
  /-- A message from somebody else. -/
  | receive (n : ℕ) (raw : Bytes)
  /-- The next message of the client on a connection. -/
  | arrives (n : ℕ)
  /-- The limiter's promise settles; `none` if it is rejected. -/
  | limited (message : Inbound) (result : Option RateLimitResult)
  | settles (i : ℕ) (outcome : Option (HandlerOutcome V))
  /-- `rpc`, while the client's socket leads to this connection, if it leads anywhere. -/
  | call (method : String) (params : Option Json) (timeout : Option ℚ)
      (sending : Except (Option String) Unit) (via : Option ℕ)
  | emit (event : String) (data : Option Json) (via : ℕ)
  /-- The next message on a connection of the client comes in. -/
  | hears (n : ℕ)
  | client (a : RpcClient.Act)

/-- Neither a message that comes in nor one that is sent. -/
def isOuter : DatasoleServer.Act → Bool
  | .receive _ _ | .limited _ _ | .send _ _ | .sendRaw _ _ | .broadcastRaw _ => false
  | _ => true

/-- No call and no answer. -/
def isOwn : RpcClient.Act → Bool
  | .call _ _ _ _ | .handleResponse _ _ => false
  | .setSendFn | .elapse _ | .clearPending => true

/-- What a protocol handler sends on the connection of its frame. -/
def sendAll (server : DatasoleServer) (n : ℕ) (messages : List Bytes) : Option DatasoleServer :=
  Machine.exec DatasoleServer.step server (messages.map (.send n))

section

variable (pako : Pako) (text : JsonText V) (stores : ClientStores τ) (mine : ℕ → Bool)

/-- The call of `rpc.dispatch` that a message leads to, if its `method` is a string. -/
def handlingOf (n : ℕ) (raw : Bytes) : Option Handling :=
  match decodeMessage pako.inflate raw with
  | .error _ => none
  | .ok frame =>
    if frame.opcode = .rpcReq then
      ((text.parse frame.payload).bind RpcRequest.ofJson).map (⟨n, frame.correlationId, ·⟩)
    else none

/-- What is sent at once when a message has been handed over. -/
def answeredAtOnce (raw : Bytes) : List Bytes :=
  match decodeMessage pako.inflate raw with
  | .error _ => []
  | .ok frame => if frame.opcode = .ping then handlePing pako text ⟨true⟩ frame else []

/-- `FrameRouter.dispatch`, up to where the handler waits. What the handlers of EVENT_C2S and
CRDT_OP lead to are broadcasts, which may come at any time. -/
def Sys.dispatch (s : Sys V τ) (n : ℕ) (raw : Bytes) : Option (Sys V τ) :=
  (sendAll s.server n (answeredAtOnce pako text raw)).map fun server =>
    { s with server, running := s.running ++ (handlingOf pako text n raw).toList }

/-- The verdict, with the ERROR message if there is one. -/
def verdict (raw : Bytes) : Option RateLimitResult → Verdict
  | none => .failed
  | some result =>
    if result.allowed then .allowed
    else .refused (sendRateLimitError pako text (some ⟨true⟩) raw result).head?

def Sys.limited (s : Sys V τ) (message : Inbound) (result : Option RateLimitResult) :
    Option (Sys V τ) :=
  (s.server.step (.limited message (verdict pako text message.raw result))).bind fun server =>
    match verdict pako text message.raw result,
      s.server.executor.dispatch (connectionId message.connection) with
    | .allowed, some n => { s with server }.dispatch pako text n message.raw
    | _, _ => some { s with server }

/-- The rest of the RPC_REQ handler. -/
def Sys.settles (s : Sys V τ) (i : ℕ) (outcome : Option (HandlerOutcome V)) : Option (Sys V τ) :=
  match s.running[i]? with
  | none => none
  | some h =>
    (sendAll s.server h.connection (sendToConnection pako ⟨true⟩ .rpcRes h.correlationId
      ((h.request.dispatched outcome).serialize text))).map fun server =>
        { s with
          server
          running := s.running.eraseIdx i
          finished := s.finished ++ [(h, outcome)] }

/-- The requests that the client has sent by a call. -/
def Sys.withSent (s : Sys V τ) (client : RpcClient.Sys) (request : RpcRequest)
    (sent : List RpcClient.Request) (via : Option ℕ) : Sys V τ :=
  { s with
    client := (client, s.client.2)
    requests := s.requests ++ sent.map (·, request)
    asks := s.asks ++ sent.flatMap fun q => via.toList.map (⟨·, q.number, request⟩)
    outgoing := s.outgoing ++ sent.flatMap fun q => via.toList.map (·, pako.compressLarge q.frame) }

def Sys.call (s : Sys V τ) (method : String) (params : Option Json) (timeout : Option ℚ)
    (sending : Except (Option String) Unit) (via : Option ℕ) : Sys V τ :=
  let request : RpcRequest :=
    { method, params := some (params.getD .null)
      correlationId := some (.num s.client.1.client.nextCorrelationId) }
  let client := RpcClient.call s.client.1 method timeout (text.encode request.toJson) sending
  s.withSent pako client request (client.requests.drop s.client.1.requests.length) via

/-- `emit`, up to the socket. -/
def Sys.emit (s : Sys V τ) (event : String) (data : Option Json) (via : ℕ) : Sys V τ :=
  match (text.encode (.obj (field "data" data ++ [("event", .str event)]))).bind fun payload =>
      pako.pack ⟨.eventC2s, 0, payload⟩ with
  | .ok message => { s with outgoing := s.outgoing ++ [(via, message)] }
  | .error _ => s

def Sys.hears (s : Sys V τ) (n : ℕ) : Option (Sys V τ) :=
  match (s.server.transport.sent n)[s.heard.countP (·.1 = n)]? with
  | none => none
  | some message => some
      { s with
        client := DatasoleClient.receive pako text.parse stores message s.client
        heard := s.heard ++ [(n, message)] }

def step (s : Sys V τ) : Act V → Option (Sys V τ)
  | .server a => if isOuter a then (s.server.step a).map fun server => { s with server } else none
  | .broadcast b =>
    (ServiceAct.step pako text s.server (.broadcast b)).map fun server => { s with server }
  | .receive n raw =>
    if mine n then none else (s.server.step (.receive n raw)).map fun server => { s with server }
  | .arrives n =>
    match s.outgoing.find? (·.1 = n) with
    | none => none
    | some e => (s.server.step (.receive n e.2)).map fun server =>
        { s with server, outgoing := s.outgoing.erase e }
  | .limited message result => s.limited pako text message result
  | .settles i outcome => s.settles pako text i outcome
  | .call method params timeout sending via =>
    if via.all mine then some (s.call pako text method params timeout sending via) else none
  | .emit event data via => if mine via then some (s.emit pako text event data via) else none
  | .hears n =>
    if mine n ∧ (s.server.transport.conns n).isSome then s.hears pako text stores n else none
  | .client a =>
    if isOwn a then
      (RpcClient.step s.client.1 a).map fun client => { s with client := (client, s.client.2) }
    else none

end

end RemoteCalls

/-! ## What a client does by itself -/

namespace RpcClient

variable {s t : Sys}

/-- A failure that no answer is needed for. -/
def IsLocal : Settlement → Prop
  | .resolved _ | .rejected (.remote _) => False
  | .rejected _ => True

/-- A call sends nothing, or the frame of its payload under the next number. -/
theorem requests_call (s : Sys) (method : String) (timeout : Option ℚ)
    (payload : Except String Bytes)
    (sending : Except (Option String) Unit) :
    (call s method timeout payload sending).requests = s.requests ∨
      ∃ p, payload = .ok p ∧ p.length ≤ maxFramePayload ∧
        (call s method timeout payload sending).requests = s.requests ++
          [⟨s.callCount, s.idsTaken + 1, Frame.bytes ⟨.rpcReq, s.client.nextCorrelationId, p⟩⟩] ∧
        (call s method timeout payload sending).idsTaken = s.idsTaken + 1 := by
  by_cases hsend : s.client.sendFn = true ∧ ∃ p, payload = .ok p ∧ p.length ≤ maxFramePayload
  · obtain ⟨hfn, p, rfl, hlen⟩ := hsend
    rw [call_of_encodes hfn method timeout hlen sending]
    cases sending with
    | ok u => exact .inr ⟨p, rfl, hlen, rfl, rfl⟩
    | error error => exact .inl rfl
  · obtain ⟨failure, heq | heq⟩ := call_of_not_encodes method timeout sending hsend
    · rw [heq]
      exact .inl rfl
    · rw [heq]
      exact .inl rfl

/-- A call takes one id or none. -/
theorem idsTaken_le_call (s : Sys) (method : String) (timeout : Option ℚ)
    (payload : Except String Bytes)
    (sending : Except (Option String) Unit) :
    s.idsTaken ≤ (call s method timeout payload sending).idsTaken := by
  cases hfn : s.client.sendFn with
  | false => exact (show (call s method timeout payload sending).idsTaken = s.idsTaken by
      simp [call, hfn, Sys.settle]).ge
  | true => exact (idsTaken_call hfn method timeout payload sending).1 ▸ Nat.le_succ _

/-- A call may fail at once, for a reason of its own. -/
theorem settled_call (s : Sys) (method : String) (timeout : Option ℚ)
    (payload : Except String Bytes)
    (sending : Except (Option String) Unit) :
    ∀ x ∈ (call s method timeout payload sending).settled, x ∈ s.settled ∨ IsLocal x.2 := by
  intro x hx
  have hsettle (s' : Sys) (k : ℕ) (failure : RpcFailure) (hlocal : IsLocal (.rejected failure))
      (hsame : s'.settled = s.settled) (hx : x ∈ (s'.settle k (.rejected failure)).settled) :
      x ∈ s.settled ∨ IsLocal x.2 := by
    rcases List.mem_append.mp hx with hx | hx
    · exact .inl (hsame ▸ hx)
    · rw [List.mem_singleton.mp hx]
      exact .inr hlocal
  unfold call at hx
  split at hx
  · dsimp only at hx
    split at hx
    · exact hsettle _ _ (.notEncoded _) trivial rfl hx
    · unfold execute at hx
      split at hx
      · exact .inl hx
      · exact hsettle _ _ (.sendFailed _) trivial rfl hx
  · exact hsettle _ _ .notConnected trivial rfl hx

/-- Under an id that no call has taken yet, or that is done with, nothing is entered by a call. -/
theorem get_call (h : Inv s) (method : String) (timeout : Option ℚ) (payload : Except String Bytes)
    (sending : Except (Option String) Unit)
    (hfresh : KeepsTrack s (.call method timeout payload sending)) {id : ℤ}
    (hne : id ≠ s.client.nextCorrelationId) :
    (call s method timeout payload sending).client.pending.get id = s.client.pending.get id := by
  rcases call_cases h method timeout payload sending hfresh with hrej | ⟨-, frame, heq⟩
  · exact hrej.get id
  · rw [heq]
    exact (JsMap.get_set _ _ _ _).trans (if_neg hne)

theorem get_delete_eq_none {κ ν : Type*} [DecidableEq κ] {m : JsMap κ ν} {k k' : κ}
    (h : m.get k' = none) : (m.delete k).get k' = none := by
  rw [JsMap.get_delete, h, ite_self]

/-- A response sends nothing, and leaves no entry under its id. -/
theorem handleResponse_keeps (s : Sys) (id : ℤ) (response : Json) :
    (handleResponse s id response).requests = s.requests ∧
      (handleResponse s id response).idsTaken = s.idsTaken ∧
      ∀ id', id' = id ∨ s.client.pending.get id' = none →
        (handleResponse s id response).client.pending.get id' = none := by
  unfold handleResponse
  cases hget : s.client.pending.get id with
  | none =>
    refine ⟨rfl, rfl, ?_⟩
    rintro id' (rfl | hnone)
    · exact hget
    · exact hnone
  | some entry =>
    have hdelete : ∀ id', id' = id ∨ s.client.pending.get id' = none →
        (s.client.pending.delete id).get id' = none := by
      rintro id' (rfl | hnone)
      · exact (JsMap.get_delete _ _ _).trans (if_pos rfl)
      · exact get_delete_eq_none hnone
    cases settlementOf response <;> exact ⟨rfl, rfl, hdelete⟩

/-- What the client does by itself sends nothing and settles only with failures of its own. -/
structure Keeps (s t : Sys) : Prop where
  requests : t.requests = s.requests
  idsTaken : t.idsTaken = s.idsTaken
  settled : ∀ x ∈ t.settled, x ∈ s.settled ∨ IsLocal x.2
  get : ∀ id, s.client.pending.get id = none → t.client.pending.get id = none

/-- What the client does by itself keeps this, action by action. -/
theorem keeps_step {a : Act} (hown : RemoteCalls.isOwn a = true) (hs : step s a = some t) :
    Keeps s t := by
  cases a with
  | call | handleResponse => cases hown
  | setSendFn =>
    cases hs
    exact ⟨rfl, rfl, fun x hx => .inl hx, fun _ hid => hid⟩
  | elapse k =>
    obtain ⟨timer, -, rfl⟩ := step_elapse hs
    by_cases harmed : timer.call ∈ s.armed
    · rw [show elapse s timer = _ from if_pos harmed]
      refine ⟨rfl, rfl, fun x hx => ?_, fun id hid => get_delete_eq_none hid⟩
      rcases List.mem_append.mp hx with hx | hx
      · exact .inl hx
      · rw [List.mem_singleton.mp hx]
        exact .inr trivial
    · rw [show elapse s timer = _ from if_neg harmed]
      exact ⟨rfl, rfl, fun x hx => .inl hx, fun _ hid => hid⟩
  | clearPending =>
    cases hs
    refine ⟨rfl, rfl, fun x hx => ?_, fun _ _ => rfl⟩
    rcases List.mem_append.mp hx with hx | hx
    · exact .inl hx
    · obtain ⟨e, -, rfl⟩ := List.mem_map.mp hx
      exact .inr trivial

end RpcClient

namespace RemoteCalls

section

variable {pako : Pako} {text : JsonText V} {stores : ClientStores τ} {mine : ℕ → Bool} {s t : Sys V τ}

/-! ## What the server sends -/

/-- What `FrameRouter.dispatch` sends in the end is what goes out at once and, once the handler of
the method has settled, the response. -/
theorem dispatchMessage_eq (rpc : RpcDispatcher V) (n : ℕ) (raw : Bytes) :
    dispatchMessage pako (registerProtocolHandlers pako text rpc) ⟨true⟩ raw =
      answeredAtOnce pako text raw ++ (handlingOf pako text n raw).toList.flatMap fun h =>
        sendToConnection pako ⟨true⟩ .rpcRes h.correlationId ((h.request.dispatched
          ((rpc.handlers.get h.request.method).map (· h.request.params))).serialize text) := by
  unfold dispatchMessage answeredAtOnce handlingOf
  cases decodeMessage pako.inflate raw with
  | error e => rfl
  | ok frame =>
    obtain ⟨opcode, id, payload⟩ := frame
    cases opcode with
    | rpcReq =>
      simp only [registerProtocolHandlers, handleRpcReq]
      cases (text.parse payload).bind RpcRequest.ofJson with
      | none => rfl
      | some request => simp [rpc.dispatch_eq request]
    | ping => exact (List.append_nil _).symm
    | rpcRes | eventS2c | statePatch | stateSnapshot | crdtState | eventC2s | pong | error | crdtOp => rfl

/-- The message answers no call. -/
def IsQuiet (pako : Pako) (message : Bytes) : Prop :=
  ∀ id payload, decodeMessage pako.inflate message ≠ .ok ⟨.rpcRes, id, payload⟩

/-- A message that is not quiet is an RPC_RES frame. -/
theorem exists_of_not_isQuiet {message : Bytes} (h : ¬ IsQuiet pako message) :
    ∃ id payload, decodeMessage pako.inflate message = .ok ⟨.rpcRes, id, payload⟩ := by
  unfold IsQuiet at h
  push Not at h
  exact h

/-- A frame of another kind is quiet. -/
theorem isQuiet_pack (hpako : pako.Lawful) {frame : Frame} (hvalid : frame.Valid)
    (hopcode : frame.opcode ≠ .rpcRes) : IsQuiet pako (pako.compressLarge frame.bytes) := by
  intro id payload hdecode
  rw [hpako.decodeMessage_pack hvalid] at hdecode
  cases hdecode
  exact hopcode rfl

/-- What is answered at once is a pong. -/
theorem isQuiet_answeredAtOnce (hpako : pako.Lawful) {raw message : Bytes}
    (hmem : message ∈ answeredAtOnce pako text raw) : IsQuiet pako message := by
  unfold answeredAtOnce at hmem
  cases hdecode : decodeMessage pako.inflate raw with
  | error e =>
    rw [hdecode] at hmem
    cases hmem
  | ok frame =>
    simp only [hdecode] at hmem
    split at hmem
    · obtain ⟨payload, -, hlen, rfl⟩ := mem_sendToConnection hmem
      have hvalid := valid_of_decodeMessage hdecode
      exact isQuiet_pack hpako ⟨hvalid.id_nonneg, hvalid.id_lt, hlen⟩ Opcode.noConfusion
    · cases hmem

/-- A refusal is told by an ERROR frame. -/
theorem isQuiet_error (hpako : pako.Lawful) {raw error : Bytes} {result : Option RateLimitResult}
    (hverdict : verdict pako text raw result = .refused (some error)) : IsQuiet pako error := by
  cases result with
  | none => cases hverdict
  | some result =>
    simp only [verdict] at hverdict
    split at hverdict
    · cases hverdict
    · -- the correlation id is that of a frame, or 0
      have hmem := List.mem_of_mem_head? (Verdict.refused.inj hverdict)
      obtain ⟨id, hnonneg, hlt, hsame⟩ : ∃ id : ℤ, 0 ≤ id ∧ id < 2 ^ 32 ∧
          sendRateLimitError pako text (some ⟨true⟩) raw result =
            sendToConnection pako ⟨true⟩ .error id (text.encode (rateLimitExceeded result)) := by
        unfold sendRateLimitError
        cases hdecode : decodeMessage pako.inflate raw with
        | error e => exact ⟨0, le_rfl, by norm_num, rfl⟩
        | ok frame =>
          have hvalid := valid_of_decodeMessage hdecode
          exact ⟨frame.correlationId, hvalid.id_nonneg, hvalid.id_lt, rfl⟩
      rw [hsame] at hmem
      obtain ⟨payload, -, hlen, rfl⟩ := mem_sendToConnection hmem
      exact isQuiet_pack hpako ⟨hnonneg, hlt, hlen⟩ Opcode.noConfusion

/-- A broadcast answers no call. -/
theorem isQuiet_frameData (hpako : pako.Lawful) {b : Broadcast} {data : Bytes}
    (hdata : b.frameData pako text = .ok data) : IsQuiet pako data := by
  obtain ⟨payload, -, hvalid, rfl⟩ := Broadcast.eq_of_frameData hdata
  refine isQuiet_pack hpako hvalid ?_
  cases b <;> exact Opcode.noConfusion

/-- If the message is an answer, it is the response of a handling on this connection that has
settled. -/
def Accounted (pako : Pako) (text : JsonText V) (s : Sys V τ) (n : ℕ) (message : Bytes) : Prop :=
  ∀ id payload, decodeMessage pako.inflate message = .ok ⟨.rpcRes, id, payload⟩ →
    ∃ f ∈ s.finished, f.1.connection = n ∧ f.1.correlationId = id ∧
      ∃ response, f.1.Gives text f.2 response ∧ text.parse payload = some response.toJson

theorem IsQuiet.accounted {n : ℕ} {message : Bytes} (h : IsQuiet pako message) :
    Accounted pako text s n message :=
  fun id payload hdecode => absurd hdecode (h id payload)

/-- What the RPC_REQ handler sends in the end. -/
theorem accounted_response (hpako : pako.Lawful) (hreads : text.Reads) {h : Handling}
    {outcome : Option (HandlerOutcome V)} (hmem : (h, outcome) ∈ s.finished)
    (hnonneg : 0 ≤ h.correlationId) (hlt : h.correlationId < 2 ^ 32) {message : Bytes}
    (hsent : message ∈ sendToConnection pako ⟨true⟩ .rpcRes h.correlationId
      ((h.request.dispatched outcome).serialize text)) :
    Accounted pako text s h.connection message := by
  intro id payload hdecode
  obtain ⟨bytes, hbytes, hlen, rfl⟩ := mem_sendToConnection hsent
  rw [hpako.decodeMessage_pack ⟨hnonneg, hlt, hlen⟩] at hdecode
  cases hdecode
  unfold Dispatched.serialize at hbytes
  cases hresponse : (h.request.dispatched outcome).toResponse text with
  | error e =>
    rw [hresponse] at hbytes
    cases hbytes
  | ok response =>
    rw [hresponse] at hbytes
    exact ⟨_, hmem, rfl, rfl, response, hresponse, hreads _ _ hbytes⟩

/-! ## The frames of the server -/

/-- A broadcast cannot be written, or is sent to all connections. -/
theorem broadcast_cases {u v : DatasoleServer} {b : Broadcast}
    (hs : ServiceAct.step pako text u (.broadcast b) = some v) :
    v = u ∨ ∃ data, b.frameData pako text = .ok data ∧ u.step (.broadcastRaw data) = some v := by
  unfold ServiceAct.step at hs
  cases hdata : b.frameData pako text with
  | error e =>
    simp only [hdata, Option.some.injEq] at hs
    exact .inl hs.symm
  | ok data =>
    simp only [hdata] at hs
    exact .inr ⟨data, rfl, hs⟩

/-- Only the pipeline changes what waits in it. -/
theorem waiting_step {u v : DatasoleServer} {a : DatasoleServer.Act} (hs : u.step a = some v)
    (hreceive : ∀ n raw, a ≠ .receive n raw) (hlimited : ∀ message x, a ≠ .limited message x) :
    v.waiting = u.waiting := by
  rcases DatasoleServer.frames_step hs with ⟨n, raw, rfl, -⟩ | ⟨message, x, rfl, -⟩ | ⟨hw, -⟩
  · exact absurd rfl (hreceive n raw)
  · exact absurd rfl (hlimited message x)
  · exact hw

/-- What comes in waits last. -/
theorem waiting_receive {u v : DatasoleServer} {n : ℕ} {raw : Bytes}
    (hs : u.step (.receive n raw) = some v) : v.waiting = u.waiting ++ [⟨u.receivedCount, n, raw⟩] := by
  simp only [DatasoleServer.step, Option.ite_none_right_eq_some, Option.some.injEq] at hs
  obtain ⟨-, rfl⟩ := hs
  rfl

/-- Sending leaves what waits as it was. -/
theorem waiting_sendAll {u v : DatasoleServer} {n : ℕ} {messages : List Bytes}
    (hs : sendAll u n messages = some v) : v.waiting = u.waiting := by
  unfold sendAll at hs
  induction messages generalizing u with
  | nil =>
    cases hs
    rfl
  | cons message messages ih =>
    obtain ⟨w, hw, hs⟩ := Machine.exec_cons_eq_some.mp hs
    rw [ih hs, waiting_step hw (fun _ _ => DatasoleServer.Act.noConfusion)
      fun _ _ => DatasoleServer.Act.noConfusion]

/-- Sending messages is a run of the server. -/
theorem exec_sendAll {u v w : DatasoleServer} {a : DatasoleServer.Act} {n : ℕ}
    {messages : List Bytes}
    (ha : u.step a = some v) (hs : sendAll v n messages = some w) :
    Machine.exec DatasoleServer.step u (a :: messages.map (.send n)) = some w :=
  Machine.exec_cons_eq_some.mpr ⟨v, ha, hs⟩

/-! ## What is on its way to the handlers -/

/-- The handling that a message leads to if it is one of the client's. -/
def token (pako : Pako) (text : JsonText V) (mine : ℕ → Bool) (n : ℕ) (raw : Bytes) :
    Option Handling :=
  if mine n then handlingOf pako text n raw else none

/-- A token is the handling that the message asks for. -/
theorem handlingOf_of_token {n : ℕ} {raw : Bytes} {h : Handling}
    (htoken : token pako text mine n raw = some h) : handlingOf pako text n raw = some h := by
  unfold token at htoken
  split at htoken
  · exact htoken
  · cases htoken

/-- What the requests of the client lead to that are on their way, and what those have led to that
were handed over. -/
def Sys.tokens (pako : Pako) (text : JsonText V) (mine : ℕ → Bool) (s : Sys V τ) :
    Multiset Handling :=
  Multiset.filterMap (fun e => token pako text mine e.1 e.2) (s.outgoing : Multiset (ℕ × Bytes)) +
    Multiset.filterMap (fun m => token pako text mine m.connection m.raw)
      (s.server.waiting : Multiset Inbound) +
    Multiset.filter (fun h => mine h.connection) (s.running ++ s.finished.map Prod.fst : List Handling)

/-- A message that has come in is the one that was on its way. -/
theorem tokens_arrives {n : ℕ} {e : ℕ × Bytes} {server : DatasoleServer}
    (hfind : s.outgoing.find? (·.1 = n) = some e) (hs : s.server.step (.receive n e.2) = some server) :
    Sys.tokens pako text mine { s with server, outgoing := s.outgoing.erase e } =
      s.tokens pako text mine := by
  have hn : e.1 = n := by simpa using List.find?_some hfind
  have houtgoing :
      (s.outgoing : Multiset (ℕ × Bytes)) = e ::ₘ (s.outgoing.erase e : List (ℕ × Bytes)) :=
    Multiset.coe_eq_coe.mpr (List.perm_cons_erase (List.mem_of_find?_eq_some hfind))
  have hw := waiting_receive hs
  unfold Sys.tokens
  rw [hw, houtgoing, ← Multiset.coe_add, Multiset.filterMap_add, Multiset.coe_singleton,
    ← Multiset.cons_zero, Multiset.filterMap_cons, Multiset.filterMap_cons, Multiset.filterMap_zero, hn]
  abel

/-- A handling has the connection of its message, and an id of 32 bits. -/
theorem handlingOf_eq_some {n : ℕ} {raw : Bytes} {h : Handling}
    (hh : handlingOf pako text n raw = some h) :
    h.connection = n ∧ 0 ≤ h.correlationId ∧ h.correlationId < 2 ^ 32 := by
  unfold handlingOf at hh
  cases hdecode : decodeMessage pako.inflate raw with
  | error e =>
    rw [hdecode] at hh
    cases hh
  | ok frame =>
    simp only [hdecode, Option.ite_none_right_eq_some] at hh
    obtain ⟨request, -, rfl⟩ := Option.map_eq_some_iff.mp hh.2
    have hvalid := valid_of_decodeMessage hdecode
    exact ⟨rfl, hvalid.id_nonneg, hvalid.id_lt⟩

/-- The tokens of a message are its handlings on connections of the client. -/
theorem filter_handlingOf (n : ℕ) (raw : Bytes) :
    Multiset.filter (fun h : Handling => mine h.connection)
        ((handlingOf pako text n raw).toList : List Handling) =
      ((token pako text mine n raw).toList : List Handling) := by
  unfold token
  cases hh : handlingOf pako text n raw with
  | none => split <;> rfl
  | some h =>
    obtain ⟨rfl, -⟩ := handlingOf_eq_some hh
    rw [Multiset.filter_coe]
    split
    · next hmine => simp [hmine]
    · next hmine => simp [hmine]

theorem getD_map_singleton {α : Type*} (o : Option α) :
    (o.map singleton).getD (0 : Multiset α) = (o.toList : List α) := by
  cases o <;> rfl

/-- A message that leaves the pipeline. -/
theorem tokens_erase {server : DatasoleServer} {message : Inbound}
    (hmem : message ∈ s.server.waiting)
    (hw : server.waiting = s.server.waiting.erase message) :
    s.tokens pako text mine = Sys.tokens pako text mine { s with server } +
      ((token pako text mine message.connection message.raw).toList : List Handling) := by
  have hwaiting :
      (s.server.waiting : Multiset Inbound) = message ::ₘ (server.waiting : Multiset Inbound) :=
    Multiset.coe_eq_coe.mpr (hw ▸ List.perm_cons_erase hmem)
  unfold Sys.tokens
  rw [hwaiting, Multiset.filterMap_cons, getD_map_singleton]
  abel

/-- A message that is handed over. -/
theorem tokens_handed {server : DatasoleServer} {message : Inbound}
    (hmem : message ∈ s.server.waiting)
    (hw : server.waiting = s.server.waiting.erase message) :
    Sys.tokens pako text mine
        { s with
          server
          running := s.running ++ (handlingOf pako text message.connection message.raw).toList } =
      s.tokens pako text mine := by
  rw [tokens_erase hmem hw]
  unfold Sys.tokens
  simp only [← Multiset.coe_add, Multiset.filter_add]
  rw [filter_handlingOf]
  abel

/-- A handling that settles. -/
theorem tokens_settled {server : DatasoleServer} {i : ℕ} {h : Handling}
    {outcome : Option (HandlerOutcome V)} (hget : s.running[i]? = some h)
    (hw : server.waiting = s.server.waiting) :
    Sys.tokens pako text mine
        { s with
          server
          running := s.running.eraseIdx i
          finished := s.finished ++ [(h, outcome)] } =
      s.tokens pako text mine := by
  obtain ⟨hi, rfl⟩ := List.getElem?_eq_some_iff.mp hget
  have hperm : (s.running.eraseIdx i ++ (s.finished ++ [(s.running[i], outcome)]).map Prod.fst).Perm
      (s.running ++ s.finished.map Prod.fst) := by
    rw [List.map_append, ← List.append_assoc]
    refine (List.perm_append_singleton _ _).trans ?_
    exact (List.getElem_cons_eraseIdx_perm hi).append_right _
  unfold Sys.tokens
  rw [hw, Multiset.coe_eq_coe.mpr hperm]

/-- The tokens in the pipeline are all that the server has of them. -/
theorem tokens_server {server : DatasoleServer} (hw : server.waiting = s.server.waiting) :
    Sys.tokens pako text mine { s with server } = s.tokens pako text mine := by
  unfold Sys.tokens
  rw [hw]

/-- A message from somebody else. -/
theorem tokens_receive {n : ℕ} {raw : Bytes} {server : DatasoleServer} (hmine : ¬ mine n = true)
    (hs : s.server.step (.receive n raw) = some server) :
    Sys.tokens pako text mine { s with server } = s.tokens pako text mine := by
  have hnone : token pako text mine n raw = none := if_neg hmine
  unfold Sys.tokens
  rw [waiting_receive hs, ← Multiset.coe_add, Multiset.filterMap_add, Multiset.coe_singleton,
    ← Multiset.cons_zero, Multiset.filterMap_cons, Multiset.filterMap_zero, hnone]
  abel

/-- What the client has sent on a connection. -/
theorem tokens_outgoing (pako : Pako) (text : JsonText V) (mine : ℕ → Bool) (s : Sys V τ) (n : ℕ)
    (message : Bytes) (client : RpcClient.Sys × τ) (requests : List (RpcClient.Request × RpcRequest)) :
    Sys.tokens pako text mine
        { s with client, requests, outgoing := s.outgoing ++ [(n, message)] } =
      s.tokens pako text mine + ((token pako text mine n message).toList : List Handling) := by
  unfold Sys.tokens
  rw [← Multiset.coe_add, Multiset.filterMap_add, Multiset.coe_singleton, ← Multiset.cons_zero,
    Multiset.filterMap_cons, Multiset.filterMap_zero, getD_map_singleton]
  abel

/-- What a call of the client sends leads to its handling. -/
theorem tokens_withSent (s : Sys V τ) (client : RpcClient.Sys) {q : RpcClient.Request}
    {request : RpcRequest}
    (hhandling : ∀ n, handlingOf pako text n (pako.compressLarge q.frame) = some ⟨n, q.number, request⟩)
    {via : Option ℕ} (hvia : via.all mine = true) :
    (s.withSent pako client request [q] via).tokens pako text mine =
      s.tokens pako text mine + (via.toList.map (⟨·, q.number, request⟩) : List Handling) := by
  cases via with
  | none =>
    have hsame : (s.withSent pako client request [q] none).outgoing = s.outgoing :=
      List.append_nil _
    unfold Sys.tokens
    rw [hsame]
    exact (add_zero _).symm
  | some n =>
    have htokens := tokens_outgoing pako text mine s n (pako.compressLarge q.frame) (client, s.client.2)
      (s.requests ++ [(q, request)])
    rw [token, if_pos (by simpa using hvia), hhandling] at htokens
    exact htokens

end

end RemoteCalls

end Datasole
