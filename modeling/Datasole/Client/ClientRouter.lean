import Datasole.Client.MessageHandler
import Datasole.Client.Rpc.RpcClient
import Datasole.Shared.Types.Rpc

/-!
# The router of a client

`buildRouter` of `client/client.ts`. The event emitter, the state stores and the CRDT store are a
state `τ` beside the remote calls; what they do with what they are told is a parameter.
-/

namespace Datasole

/-- What the client's stores do with the fields of a frame. -/
structure ClientStores (τ : Type*) where
  emit : (event data : Option Json) → τ → τ
  /-- Patches for the state store of a key, which is created if need be. -/
  applyPatches : (key patches : Option Json) → τ → τ
  mergeRemoteState : (key state : Option Json) → τ → τ

/-- `[{ op: 'replace', path: '', value: data }]`. -/
def replacement (data : Option Json) : Json :=
  .arr [.obj ([("op", .str "replace"), ("path", .str "")] ++ field "value" data)]

variable {τ : Type*}

def DatasoleClient.buildRouter (stores : ClientStores τ) : FrameRouter (RpcClient.Sys × τ) where
  onRpcResponse := some fun correlationId payload s =>
    (RpcClient.handleResponse s.1 correlationId payload, s.2)
  onEvent := some fun event data _ s => (s.1, stores.emit event data s.2)
  onStatePatch := some fun key patches s => (s.1, stores.applyPatches key patches s.2)
  onStateSnapshot := some fun key data s =>
    (s.1, stores.applyPatches key (some (replacement data)) s.2)
  onCrdtState := some fun key state s => (s.1, stores.mergeRemoteState key state s.2)

open DatasoleClient

variable (stores : ClientStores τ) {parse : Bytes → Option Json} {correlationId : ℤ} {payload : Bytes}

/-- A response that parses is handed to the RPC client, and to nothing else. -/
theorem dispatchFrame_rpcRes {response : Json} (h : parse payload = some response)
    (s : RpcClient.Sys × τ) :
    dispatchFrame parse ⟨.rpcRes, correlationId, payload⟩ (buildRouter stores) s =
      (RpcClient.handleResponse s.1 correlationId response, s.2) := by
  simp only [dispatchFrame, h]
  rfl

/-- A frame that is no RPC_RES does not touch the remote calls: in particular an ERROR is
dropped. -/
theorem fst_dispatchFrame {opcode : Opcode} (h : opcode ≠ .rpcRes) (s : RpcClient.Sys × τ) :
    (dispatchFrame parse ⟨opcode, correlationId, payload⟩ (buildRouter stores) s).1 = s.1 := by
  unfold dispatchFrame
  cases parse payload with
  | none => rfl
  | some parsed =>
    cases opcode with
    | rpcRes => exact absurd rfl h
    | eventS2c | statePatch | stateSnapshot | crdtState =>
      simp only [withFields, buildRouter]
      split <;> rfl
    | rpcReq | eventC2s | ping | pong | error | crdtOp => rfl

/-- How a response settles the promise of its call. -/
def RpcResponse.settlement (response : RpcResponse) : Settlement :=
  match response.error with
  | some error => .rejected (.remote (some (.str error.message)))
  | none => .resolved response.result

/-- A response object can be read. -/
theorem settlementOf_toJson (response : RpcResponse) :
    RpcClient.settlementOf response.toJson = some response.settlement := by
  have hnull : response.toJson ≠ .null := nofun
  rw [RpcClient.settlementOf, if_neg hnull, response.property_error, response.property_result,
    RpcResponse.settlement]
  cases response.error with
  | none => rfl
  | some error =>
    have htruthy : error.toJson.truthy = true := rfl
    simp only [Option.map_some, Option.filter_some, htruthy, if_true, error.property_message]
    rfl

end Datasole
