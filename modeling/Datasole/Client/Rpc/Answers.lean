import Datasole.Client.Rpc.CorrelationIds
import Datasole.Server.Pipeline.RateLimitInterceptor

/-!
# The way of an answer

A request of a client from its bytes through the server's pipeline and back. The server answers with
an RPC_RES, or with an ERROR if the limiter refuses the request; both carry the request's
correlation id. The router of the client has no callback for errors, so only the first settles the
call: `answers_settle_iff`.
-/

namespace Datasole

/-- What a client does with a message. -/
def DatasoleClient.receive {τ : Type*} (pako : Pako) (parse : Bytes → Option Json)
    (stores : ClientStores τ) (message : Bytes) (s : RpcClient.Sys × τ) : RpcClient.Sys × τ :=
  match decodeMessage pako.inflate message with
  | .error _ => s
  | .ok frame => dispatchFrame parse frame (DatasoleClient.buildRouter stores) s

/-- A server, as far as requests are concerned, and the connection of the client to it. -/
structure RpcServer (V : Type*) where
  config : RateLimitConfig
  limiter : String → RateLimitRule → RateLimitResult
  rpc : RpcDispatcher V
  conn : Connection
  connectionId : String

/-- What the server sends on the connection when a message has come. -/
def RpcServer.answers {V : Type*} (pako : Pako) (text : JsonText V) (server : RpcServer V)
    (raw : Bytes) : List Bytes :=
  rateLimitInterceptor pako text server.config server.limiter (some server.conn) server.connectionId raw
    (dispatchMessage pako (registerProtocolHandlers pako text server.rpc) server.conn raw)

/-- `JSON.parse` reads what `JSON.stringify` has written. -/
def JsonText.Reads {V : Type*} (text : JsonText V) : Prop :=
  ∀ value bytes, text.encode value = .ok bytes → text.parse bytes = some value

namespace RpcClient

/-- The settlement is what an answer says: that of its response, or a rejection on an ERROR. -/
def Reports {V : Type*} (pako : Pako) (text : JsonText V) (message : Bytes)
    (settlement : Settlement) :
    Prop :=
  (∃ correlationId payload, ∃ response : RpcResponse, text.parse payload = some response.toJson ∧
    decodeMessage pako.inflate message = .ok ⟨.rpcRes, correlationId, payload⟩ ∧
      settlement = response.settlement) ∨
  (∃ correlationId payload failure,
    decodeMessage pako.inflate message = .ok ⟨.error, correlationId, payload⟩ ∧
      settlement = .rejected failure)

variable {V : Type*} {pako : Pako} {text : JsonText V} {s : Sys}

/-- The RPC handler answers a request by an RPC_RES with a response object. -/
theorem mem_dispatchMessage (hpako : pako.Lawful) (hreads : text.Reads) {rpc : RpcDispatcher V}
    {conn : Connection} {raw : Bytes} {request : Frame}
    (hraw : decodeMessage pako.inflate raw = .ok request) (hopcode : request.opcode = .rpcReq)
    {message : Bytes}
    (hsent : message ∈ dispatchMessage pako (registerProtocolHandlers pako text rpc) conn raw) :
    ∃ payload, ∃ response : RpcResponse, text.parse payload = some response.toJson ∧
      decodeMessage pako.inflate message = .ok ⟨.rpcRes, request.correlationId, payload⟩ := by
  have hvalid := valid_of_decodeMessage hraw
  simp only [dispatchMessage, hraw, hopcode, registerProtocolHandlers, handleRpcReq] at hsent
  split at hsent
  · cases hsent
  next parsed _ =>
  obtain ⟨payload, hpayload, hlen, rfl⟩ := mem_sendToConnection hsent
  obtain ⟨response, hencode⟩ :
      ∃ response : RpcResponse, text.encode response.toJson = .ok payload := by
    rw [Dispatched.serialize] at hpayload
    cases hresponse : (rpc.dispatch parsed).toResponse text with
    | error e => rw [hresponse] at hpayload; cases hpayload
    | ok response => rw [hresponse] at hpayload; exact ⟨response, hpayload⟩
  refine ⟨payload, response, hreads _ _ hencode, hpako.decodeMessage_pack ?_⟩
  exact ⟨hvalid.id_nonneg, hvalid.id_lt, hlen⟩

/-- In every run, for every request whose call is pending and every message that a server sends in
answer to it: the message settles this call and no other exactly if the limiter lets the request
pass, so that the answer is an RPC_RES, and the call is one of the first `2 ^ 32 - 1` of its
client. -/
theorem answers_settle_iff {τ : Type*} (hpako : pako.Lawful) (hreads : text.Reads)
    (stores : ClientStores τ) (acts : List Act) (hrun : Machine.exec step init acts = some s)
    (q : Request) (hq : q ∈ s.requests) (hpending : IsPending s q.call) (server : RpcServer V)
    (message : Bytes) (hmessage : message ∈ server.answers pako text (pako.compressLarge q.frame))
    (others : τ) :
    (∃ settlement, Reports pako text message settlement ∧
        SettlesOnly s (DatasoleClient.receive pako text.parse stores message (s, others)).1 q.call
          settlement) ↔
      server.config.Allows pako text server.limiter server.connectionId (pako.compressLarge q.frame) ∧
        q.number < 2 ^ 32 := by
  have hids := ids_exec hrun
  obtain ⟨request, hrequest, hopcode, hid⟩ := hids.decode_request hq
  have hraw : decodeMessage pako.inflate (pako.compressLarge q.frame) = .ok request := by
    obtain ⟨-, -, p, hlen, hframe⟩ := hids.request q hq
    rw [hframe] at hrequest ⊢
    rw [hpako.decodeMessage_compressLarge hlen, hrequest]
  have hvalid := valid_of_decodeMessage hraw
  by_cases hallows : server.config.Allows pako text server.limiter server.connectionId
      (pako.compressLarge q.frame)
  · rw [RpcServer.answers, rateLimitInterceptor_of_allows hallows] at hmessage
    obtain ⟨payload, response, hparse, hdecode⟩ :=
      mem_dispatchMessage hpako hreads hraw hopcode hmessage
    have hreceive : (DatasoleClient.receive pako text.parse stores message (s, others)).1 =
        handleResponse s (idOf q.number % 2 ^ 32) response.toJson := by
      simp only [DatasoleClient.receive, hdecode, dispatchFrame_rpcRes stores hparse, hid]
    have hread := settlementOf_toJson response
    have hreports : Reports pako text message response.settlement :=
      .inl ⟨_, payload, response, hparse, hdecode, rfl⟩
    rw [hreceive, and_iff_right hallows, ← hids.settlesOnly_iff hq hpending hread]
    refine ⟨?_, fun hsettles => ⟨_, hreports, hsettles⟩⟩
    rintro ⟨settlement, -, hsettles⟩
    -- whatever is settled is settled by this response
    have happend : (handleResponse s (idOf q.number % 2 ^ 32) response.toJson).settled = _ :=
      settled_handleResponse hread
    rw [SettlesOnly, happend, List.append_cancel_left_eq] at hsettles ⊢
    cases hget : s.client.pending.get (idOf q.number % 2 ^ 32) with
    | none => rw [hget] at hsettles; cases hsettles
    | some e =>
      rw [hget] at hsettles
      have hcall := congrArg Prod.fst (List.singleton_inj.mp hsettles)
      exact congrArg (fun k => [(k, response.settlement)]) hcall
  · obtain ⟨payload, hlen, rfl⟩ := rateLimitInterceptor_of_not_allows hallows hraw hmessage
    have hdecode : decodeMessage pako.inflate (pako.compressLarge
        (Frame.bytes ⟨.error, request.correlationId, payload⟩)) =
          .ok ⟨.error, request.correlationId, payload⟩ :=
      hpako.decodeMessage_pack ⟨hvalid.id_nonneg, hvalid.id_lt, hlen⟩
    refine ⟨?_, fun h => absurd h.1 hallows⟩
    rintro ⟨settlement, -, hsettles⟩
    simp only [DatasoleClient.receive, hdecode] at hsettles
    rw [SettlesOnly, fst_dispatchFrame stores (by decide)] at hsettles
    have hlength := congrArg List.length hsettles
    rw [List.length_append] at hlength
    exact absurd hlength (by simp)

/-- A server with the method `x`, and what its limiter gives for every request. -/
def oneMethodServer (result : RateLimitResult) : RpcServer NumberHandler.JsNumber where
  config := {}
  limiter _ _ := result
  rpc := NumberHandler.rpc (.number 42)
  conn := ⟨true⟩
  connectionId := "c1"

/-- What the limiter says to a request in a window that has room, and in one that has none. -/
def roomLeft : RateLimitResult :=
  { allowed := true, remaining := 99, resetAt := 60000, retryAfter := none }

def noRoomLeft : RateLimitResult :=
  { allowed := false, remaining := 0, resetAt := 60000, retryAfter := some 60000 }

def refusedText : Bytes :=
  Bytes.ofAscii "\x7b\"message\":\"Rate limit exceeded\",\"retryAfter\":60000\x7d"

/-- The JSON functions on the request of the first call and on what is sent in answer to it. -/
def answerText : JsonText NumberHandler.JsNumber where
  stringify := NumberHandler.text.stringify
  encode value :=
    if value = NumberHandler.response then .ok NumberHandler.responseText
    else if value = rateLimitExceeded noRoomLeft then .ok refusedText
    else .error "another value"
  parse data :=
    if data = NumberHandler.responseText then some NumberHandler.response
    else if data = refusedText then some (rateLimitExceeded noRoomLeft)
    else if data = requestText "x" 1 then some NumberHandler.request
    else none

/-- The texts of the example are read back as they were written. -/
theorem answerText_reads : answerText.Reads := by
  intro value bytes hencode
  simp only [answerText] at hencode
  split at hencode
  · next h => cases hencode; rw [h]; rfl
  · split at hencode
    · next h => cases hencode; rw [h]; decide +kernel
    · cases hencode

/-- The first call of a client, and its request. -/
def firstCall : List Act := [.setSendFn, .call "x" none (.ok (requestText "x" 1)) (.ok ())]

def firstRequest : Request := ⟨0, 1, Frame.bytes ⟨.rpcReq, 1, requestText "x" 1⟩⟩

def answerOfFirst : Bytes :=
  plainPako.compressLarge (Frame.bytes ⟨.rpcRes, 1, NumberHandler.responseText⟩)

/-- The first call of the example has sent its request and waits. -/
theorem exec_firstCall :
    ∃ s, Machine.exec step init firstCall = some s ∧ firstRequest ∈ s.requests ∧
    IsPending s 0 ∧ s.settled = [] := by
  obtain ⟨s, hrun, hend⟩ := Machine.exists_exec_of_test
    (show (Machine.exec step init firstCall).map (fun s => decide (firstRequest ∈ s.requests ∧
      s.client.pending.get 1 = some ⟨0, 0⟩ ∧ s.settled = [])) = some true by decide +kernel)
  obtain ⟨hrequest, hget, hsettled⟩ := of_decide_eq_true hend
  exact ⟨s, hrun, hrequest, ⟨1, _, hget, rfl⟩, hsettled⟩

/-- The answer of the example settles the call that asked, and no other. -/
theorem allowed_answer_settles : ∃ s settlement, Machine.exec step init firstCall = some s ∧
    SettlesOnly s (DatasoleClient.receive plainPako answerText.parse noStores answerOfFirst (s, ())).1 0
      settlement := by
  obtain ⟨s, hrun, hrequest, hpending, -⟩ := exec_firstCall
  have hanswer : answerOfFirst ∈ (oneMethodServer roomLeft).answers plainPako answerText
      (plainPako.compressLarge firstRequest.frame) := by decide +kernel
  have hallows : (oneMethodServer roomLeft).config.Allows plainPako answerText
      (oneMethodServer roomLeft).limiter (oneMethodServer roomLeft).connectionId
        (plainPako.compressLarge firstRequest.frame) := ⟨_, rfl, rfl⟩
  obtain ⟨settlement, -, hsettles⟩ := (answers_settle_iff plainPako_lawful answerText_reads noStores
    firstCall hrun firstRequest hrequest hpending (oneMethodServer roomLeft) answerOfFirst hanswer ()).mpr
      ⟨hallows, by decide⟩
  exact ⟨s, settlement, hrun, hsettles⟩

/-- A refused request: the client drops the ERROR with the call's id, and the call stays pending. -/
theorem refused_call_is_not_settled : ∃ s message, Machine.exec step init firstCall = some s ∧
    (oneMethodServer noRoomLeft).answers plainPako answerText
      (plainPako.compressLarge firstRequest.frame) = [message] ∧
    decodeMessage plainPako.inflate message = .ok ⟨.error, 1, refusedText⟩ ∧ IsPending s 0 ∧
    (DatasoleClient.receive plainPako answerText.parse noStores message (s, ())).1 = s ∧
    ¬ ∃ settlement, Reports plainPako answerText message settlement ∧
      SettlesOnly s (DatasoleClient.receive plainPako answerText.parse noStores message (s, ())).1 0
        settlement := by
  obtain ⟨s, hrun, -, hpending, hsettled⟩ := exec_firstCall
  have hdecode : decodeMessage plainPako.inflate (plainPako.compressLarge
      (Frame.bytes ⟨.error, 1, refusedText⟩)) = .ok ⟨.error, 1, refusedText⟩ := by decide +kernel
  have hsame : (DatasoleClient.receive plainPako answerText.parse noStores (plainPako.compressLarge
      (Frame.bytes ⟨.error, 1, refusedText⟩)) (s, ())).1 = s := by
    simp only [DatasoleClient.receive, hdecode]
    exact fst_dispatchFrame noStores (by decide) _
  refine ⟨s, _, hrun, by decide +kernel, hdecode, hpending, hsame, ?_⟩
  rintro ⟨settlement, -, hsettles⟩
  rw [hsame, SettlesOnly, hsettled] at hsettles
  cases hsettles

end RpcClient

end Datasole
