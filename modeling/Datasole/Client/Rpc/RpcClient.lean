import Datasole.Common.JsMap
import Datasole.Common.Json
import Datasole.Common.Machine
import Datasole.Shared.Protocol.Frames

/-!
# Remote calls of a client

`RpcClient` of `client/rpc/rpc-client.ts`, with the promises and timers of its calls. A call is
known by its place among the calls made, and so are its promise and its timer. A response, a timeout
and `clearPending` may come at any time and in any order; each of them is one step, as nothing in
the class waits.

`Sys` records the run beside the code's own state: which requests were sent, what `resolve` and
`reject` were called with, and of which timers the time has passed, whether they were still armed or
not.
-/

namespace Datasole

/-- What `reject` is called with. -/
inductive RpcFailure where
  /-- `Transport not connected`. -/
  | notConnected
  /-- What `serialize` or `encodeFrame` threw. -/
  | notEncoded (error : String)
  /-- `RPC timeout: ${method} (${timeout}ms)`. -/
  | timeout (method : String) (ms : ℚ)
  | sendFailed (error : String)
  /-- `Connection closed`. -/
  | closed
  /-- `new Error(response.error.message)`. -/
  | remote (message : Option Json)
deriving DecidableEq

/-- A call of `resolve` or `reject`. -/
inductive Settlement where
  | resolved (result : Option Json)
  | rejected (failure : RpcFailure)
deriving DecidableEq

/-- An entry of the pending map: whose `resolve` and `reject` it has, and its timer. -/
structure RpcEntry where
  call : ℕ
  timer : ℕ
deriving DecidableEq

/-- What the callback of a timer refers to. -/
structure RpcTimer where
  call : ℕ
  correlationId : ℤ
  method : String
  ms : ℚ

structure RpcClient where
  correlationCounter : ℤ
  pending : JsMap ℤ RpcEntry
  /-- `sendFn` is set. -/
  sendFn : Bool

namespace RpcClient

def new : RpcClient where
  correlationCounter := 0
  pending := JsMap.empty
  sendFn := false

/-- `++this.correlationCounter`. The counter is a double: `2 ^ 53` is its own successor. -/
def nextCorrelationId (c : RpcClient) : ℤ :=
  if c.correlationCounter < 2 ^ 53 then c.correlationCounter + 1 else c.correlationCounter

/-- A request that was sent: whose it is, the how manieth to take a correlation id, and its
bytes. -/
structure Request where
  call : ℕ
  number : ℕ
  frame : Bytes
deriving DecidableEq

structure Sys where
  client : RpcClient
  timers : ℕ → Option RpcTimer
  armed : List ℕ
  callCount : ℕ
  idsTaken : ℕ
  requests : List Request
  settled : List (ℕ × Settlement)
  elapsed : List ℕ

def init : Sys where
  client := new
  timers _ := none
  armed := []
  callCount := 0
  idsTaken := 0
  requests := []
  settled := []
  elapsed := []

namespace Sys

def setPending (s : Sys) (correlationId : ℤ) (entry : RpcEntry) : Sys :=
  { s with client := { s.client with pending := s.client.pending.set correlationId entry } }

def deletePending (s : Sys) (correlationId : ℤ) : Sys :=
  { s with client := { s.client with pending := s.client.pending.delete correlationId } }

def setTimeout (s : Sys) (timer : RpcTimer) : Sys :=
  { s with timers := Function.update s.timers timer.call (some timer), armed := s.armed ++ [timer.call] }

def clearTimeout (s : Sys) (timer : ℕ) : Sys := { s with armed := s.armed.filter (· ≠ timer) }

def settle (s : Sys) (call : ℕ) (settlement : Settlement) : Sys :=
  { s with settled := s.settled ++ [(call, settlement)] }

/-- A call gets its number and the next correlation id. -/
def takeId (s : Sys) : Sys :=
  { s with
    client := { s.client with correlationCounter := s.client.nextCorrelationId }
    callCount := s.callCount + 1
    idsTaken := s.idsTaken + 1 }

/-- The calls whose request was sent. -/
def sent (s : Sys) : List ℕ := s.requests.map (·.call)

/-- The calls whose promise was settled, once for each time. -/
def settledCalls (s : Sys) : List ℕ := s.settled.map Prod.fst

end Sys

/-- The executor of a call's promise. `sending` is what `sendFn` does: it returns, or throws an
error with a message or something that is no error. -/
def execute (s : Sys) (timer : RpcTimer) (frame : Bytes)
    (sending : Except (Option String) Unit) : Sys :=
  let s := (s.setTimeout timer).setPending timer.correlationId ⟨timer.call, timer.call⟩
  match sending with
  | .ok () => { s with requests := s.requests ++ [⟨timer.call, s.idsTaken, frame⟩] }
  | .error err =>
    ((s.clearTimeout timer.call).deletePending timer.correlationId).settle timer.call
      (.rejected (.sendFailed (err.getD "Send failed")))

/-- `payload` is what `serialize(request)` returns or throws. -/
def call (s : Sys) (method : String) (timeout : Option ℚ) (payload : Except String Bytes)
    (sending : Except (Option String) Unit) : Sys :=
  let k := s.callCount
  if s.client.sendFn then
    let correlationId := s.client.nextCorrelationId
    match payload.bind fun payload => encodeFrame ⟨.rpcReq, correlationId, payload⟩ with
    | .error e => s.takeId.settle k (.rejected (.notEncoded e))
    | .ok frame => execute s.takeId ⟨k, correlationId, method, timeout.getD 30000⟩ frame sending
  else { s with callCount := k + 1 }.settle k (.rejected .notConnected)

/-- How a response settles the promise of its call; `none` if an exception comes first, as a
response `null` has no property and not every value can be the message of an error. -/
def settlementOf (response : Json) : Option Settlement :=
  if response = .null then none
  else
    match (response.property "error").filter Json.truthy with
    | none => some (.resolved (response.property "result"))
    | some error =>
      let message := error.property "message"
      if message.any Json.stringThrows then none else some (.rejected (.remote message))

def handleResponse (s : Sys) (correlationId : ℤ) (response : Json) : Sys :=
  match s.client.pending.get correlationId with
  | none => s
  | some entry =>
    -- a timer handle is never falsy
    let s := (s.deletePending correlationId).clearTimeout entry.timer
    match settlementOf response with
    | none => s
    | some settlement => s.settle entry.call settlement

def clearPending (s : Sys) : Sys :=
  let entries := s.client.pending.values
  { s with
    client := { s.client with pending := JsMap.empty }
    armed := s.armed.filter fun timer => timer ∉ entries.map (·.timer)
    settled := s.settled ++ entries.map fun entry => (entry.call, .rejected .closed) }

/-- The time of a timer has passed: its callback runs if it is still armed. -/
def elapse (s : Sys) (timer : RpcTimer) : Sys :=
  let k := timer.call
  let s := { s with elapsed := s.elapsed ++ [k] }
  if k ∈ s.armed then
    ((s.clearTimeout k).deletePending timer.correlationId).settle k
      (.rejected (.timeout timer.method timer.ms))
  else s

inductive Act where
  | setSendFn
  | call (method : String) (timeout : Option ℚ) (payload : Except String Bytes)
      (sending : Except (Option String) Unit)
  | handleResponse (correlationId : ℤ) (response : Json)
  | elapse (timer : ℕ)
  | clearPending

def step (s : Sys) : Act → Option Sys
  | .setSendFn => some { s with client := { s.client with sendFn := true } }
  | .call method timeout payload sending => some (call s method timeout payload sending)
  | .handleResponse correlationId response => some (handleResponse s correlationId response)
  | .elapse k =>
    match s.timers k with
    | none => none
    | some timer => if k ∈ s.elapsed then none else some (elapse s timer)
  | .clearPending => some (clearPending s)

/-- What is wanted of the bookkeeping: a promise is settled at most once; the pending map has an
entry for exactly the calls that were sent and are not settled, one each, whose timer is armed; a
call is settled unless it was sent, and once the time of its timer has passed. -/
structure Sound (s : Sys) : Prop where
  settled_once : s.settledCalls.Nodup
  pending_iff : ∀ k, (∃ id entry, s.client.pending.get id = some entry ∧ entry.call = k) ↔
    k ∈ s.sent ∧ k ∉ s.settledCalls
  one_entry : (s.client.pending.values.map (·.call)).Nodup
  armed : ∀ id entry, s.client.pending.get id = some entry → entry.timer ∈ s.armed ∧
    ∃ timer, s.timers entry.timer = some timer ∧ timer.call = entry.call ∧ timer.correlationId = id
  settled_or_sent : ∀ k < s.callCount, k ∈ s.settledCalls ∨ k ∈ s.sent
  settled_of_elapsed : ∀ k ∈ s.elapsed, k ∈ s.settledCalls

/-- No exception keeps a response from settling a pending call, and no call takes the id of one that
is pending. -/
def KeepsTrack (s : Sys) : Act → Prop
  | .handleResponse correlationId response =>
    s.client.pending.get correlationId ≠ none → settlementOf response ≠ none
  | .call _ _ payload _ =>
    s.client.sendFn = true → (∃ p, payload = .ok p ∧ p.length ≤ maxFramePayload) →
      s.client.pending.get s.client.nextCorrelationId = none
  | .setSendFn | .elapse _ | .clearPending => True

instance : ∀ payload : Except String Bytes,
    Decidable (∃ p, payload = .ok p ∧ p.length ≤ maxFramePayload)
  | .error _ => .isFalse (by simp)
  | .ok p => decidable_of_iff (p.length ≤ maxFramePayload) (by simp)

instance (s : Sys) : DecidablePred (KeepsTrack s)
  | .handleResponse _ _ => inferInstanceAs (Decidable (_ → _))
  | .call _ _ _ _ => inferInstanceAs (Decidable (_ → _ → _))
  | .setSendFn | .elapse _ | .clearPending => .isTrue trivial

/-- What `serialize` makes of a request without parameters, for a method name that needs no
escapes. -/
def requestText (method : String) (correlationId : ℕ) : Bytes :=
  Bytes.ofAscii ("\x7b\"method\":\"" ++ method ++ "\",\"params\":null,\"correlationId\":" ++
    toString correlationId ++ "\x7d")

end RpcClient

end Datasole
