import Mathlib.Logic.Function.Basic
import Mathlib.Order.Basic
import Datasole.Common.Machine

/-!
# The connection of a client

`connect`, `disconnect` and `disposeTransport` of `client/client.ts`, with the transports they open
(`client/transport/fallback-transport.ts`, `client/transport/worker-proxy.ts`), the reconnect timer,
and the pending calls of `client/rpc/rpc-client.ts`.

A call of `connect` or `disconnect` runs from one `await` to the next in one step, and any number of
calls may be under way. Each call keeps the place where it waits; `resume` takes it to its next
`await`. Sockets and timers act by themselves: a socket opens, fails or closes, and a timer that is
armed may fire at any time. A socket is counted under the number of the transport that opened it.
-/

namespace Datasole

inductive ConnectionState
  | disconnected
  | connecting
  | connected
  | reconnecting
  deriving DecidableEq

/-- The options of a client and of the platform that matter here. -/
structure ClientOptions where
  /-- `useWorker`, and `Worker` is defined. -/
  useWorker : Bool
  /-- `useSharedArrayBuffer`, and `SharedArrayBuffer` is defined. -/
  useSharedArrayBuffer : Bool
  reconnect : Bool
  /-- `none` is `Infinity`. -/
  maxReconnectAttempts : Option ℕ

/-- A client without a worker, with the default reconnect options. -/
def directOptions : ClientOptions where
  useWorker := false
  useSharedArrayBuffer := false
  reconnect := true
  maxReconnectAttempts := some 10

/-- A client with a worker and the shared buffer, with the default reconnect options. -/
def workerOptions : ClientOptions :=
  { directOptions with useWorker := true, useSharedArrayBuffer := true }

namespace DatasoleClient

inductive Promise
  | pending
  | resolved
  | rejected
  deriving DecidableEq

/-- The socket of a transport, in a worker or not. -/
structure Socket where
  /-- The client opened it and has neither closed it nor terminated its worker. -/
  live : Bool
  opened : Bool
  /-- Its close event is still to come. -/
  closeDue : Bool
  /-- What the `connect` of its transport waits for. -/
  promise : Promise

/-- Where a call waits. -/
inductive Phase
  /-- For `workerProxy.disconnect()`. -/
  | disposingProxy
  /-- For `transport.disconnect()`. -/
  | disposingTransport
  /-- For `disposeTransport()`, which has returned. -/
  | disposed
  /-- For the transport to open. -/
  | opening (transport : ℕ)
  /-- For `connectDirect` or `connectViaWorker`, which has returned. -/
  | opened
  | settled
  deriving DecidableEq

/-- The call has not come further than `disposeTransport`. -/
def Phase.Disposing : Phase → Prop
  | .disposingProxy | .disposingTransport | .disposed => True
  | _ => False

inductive CallKind
  | connect
  | disconnect
  deriving DecidableEq

structure Call where
  kind : CallKind
  phase : Phase
  deriving DecidableEq

end DatasoleClient

open DatasoleClient in
structure DatasoleClient where
  options : ClientOptions
  state : ConnectionState
  transport : Option ℕ
  workerProxy : Option ℕ
  sharedBuffer : Bool
  reconnectAttempts : ℕ
  reconnectTimer : Option ℕ
  /-- `setSendFn` was called. -/
  sendFn : Bool
  pending : List ℕ
  correlationCounter : ℕ
  sockets : ℕ → Socket
  socketCount : ℕ
  /-- The timers that are armed. -/
  timers : List ℕ
  timerCount : ℕ
  calls : ℕ → Call
  callCount : ℕ
  /-- A call of `disconnect` has resolved, and the application has not called `connect` since. -/
  off : Bool

namespace DatasoleClient

def new (options : ClientOptions) : DatasoleClient where
  options := options
  state := .disconnected
  transport := none
  workerProxy := none
  sharedBuffer := false
  reconnectAttempts := 0
  reconnectTimer := none
  sendFn := false
  pending := []
  correlationCounter := 0
  sockets := fun _ => { live := false, opened := false, closeDue := false, promise := .rejected }
  socketCount := 0
  timers := []
  timerCount := 0
  calls := fun _ => { kind := .disconnect, phase := .settled }
  callCount := 0
  off := false

def setSocket (s : DatasoleClient) (i : ℕ) (socket : Socket) : DatasoleClient :=
  { s with sockets := Function.update s.sockets i socket }

/-- The call goes on to wait for something else. -/
def setPhase (s : DatasoleClient) (i : ℕ) (phase : Phase) : DatasoleClient :=
  { s with calls := Function.update s.calls i { (s.calls i) with phase } }

/-- `ws.close()` or `worker.terminate()`. -/
def close (s : DatasoleClient) (i : ℕ) : DatasoleClient :=
  s.setSocket i { (s.sockets i) with live := false }

/-- `disposeTransport` from where it looks at `transport`, up to its next `await`. -/
def disposeDirect (s : DatasoleClient) : DatasoleClient × Phase :=
  match s.transport with
  | some i => (s.close i, .disposingTransport)
  | none => (s, .disposed)

/-- `disposeTransport` up to its first `await`. -/
def disposeTransport (s : DatasoleClient) : DatasoleClient × Phase :=
  let s := { s with pending := [] }
  match s.workerProxy with
  | some i => (s.close i, .disposingProxy)
  | none => s.disposeDirect

/-- `clearTimeout(this.reconnectTimer)`. -/
def clearTimer (s : DatasoleClient) : DatasoleClient :=
  match s.reconnectTimer with
  | some timer => { s with timers := s.timers.filter (· ≠ timer), reconnectTimer := none }
  | none => s

/-- `connect()` or `disconnect()` up to its first `await`. -/
def call (s : DatasoleClient) (kind : CallKind) : DatasoleClient :=
  let (s, phase) := s.clearTimer.disposeTransport
  { s with
    calls := Function.update s.calls s.callCount { kind, phase }
    callCount := s.callCount + 1 }

/-- `connectDirect` or `connectViaWorker` up to its `await`. Where the platform cannot create the
socket or the worker, the promise is rejected at once. -/
def openTransport (s : DatasoleClient) (created : Bool) : DatasoleClient :=
  let socket : Socket :=
    { live := created, opened := false, closeDue := created,
      promise := if created then .pending else .rejected }
  let opened := { s.setSocket s.socketCount socket with
    state := .connecting
    socketCount := s.socketCount + 1
    sendFn := true }
  if s.options.useWorker then
    { opened with
      workerProxy := some s.socketCount
      sharedBuffer := s.sharedBuffer || s.options.useSharedArrayBuffer }
  else { opened with transport := some s.socketCount }

/-- `connectViaWorker` after its `await`: `initSharedBuffer` throws if the proxy has no worker. -/
def sharedBufferFails (s : DatasoleClient) : Bool :=
  s.options.useWorker && s.sharedBuffer && !s.workerProxy.any fun i => (s.sockets i).live

/-- The call goes on from where it waits to its next `await`. -/
def resume (s : DatasoleClient) (i : ℕ) (created : Bool) : Option DatasoleClient :=
  match (s.calls i).phase with
  | .disposingProxy =>
    let (t, phase) := { s with workerProxy := none, sharedBuffer := false }.disposeDirect
    some (t.setPhase i phase)
  | .disposingTransport => some ({ s with transport := none }.setPhase i .disposed)
  | .disposed =>
    match (s.calls i).kind with
    | .connect => some ((s.openTransport created).setPhase i (.opening s.socketCount))
    | .disconnect => some ({ s with state := .disconnected, off := true }.setPhase i .settled)
  | .opening transport =>
    match (s.sockets transport).promise with
    | .pending => none
    | .rejected => some (s.setPhase i .settled)
    | .resolved => some (s.setPhase i (if s.sharedBufferFails then .settled else .opened))
  | .opened => some ({ s with state := .connected, reconnectAttempts := 0 }.setPhase i .settled)
  | .settled => none

/-- The condition of the close handlers. -/
def canReconnect (s : DatasoleClient) : Bool :=
  s.options.reconnect && s.options.maxReconnectAttempts.all (s.reconnectAttempts < ·)

/-- The handle of a timer set earlier is overwritten. -/
def scheduleReconnect (s : DatasoleClient) : DatasoleClient :=
  { s with
    state := .reconnecting
    reconnectAttempts := s.reconnectAttempts + 1
    reconnectTimer := some s.timerCount
    timers := s.timers ++ [s.timerCount]
    timerCount := s.timerCount + 1 }

/-- The handler that `connectDirect` and `connectViaWorker` register. -/
def onClose (s : DatasoleClient) : DatasoleClient :=
  let s := { s with state := .disconnected, pending := [] }
  if s.canReconnect then s.scheduleReconnect else s

/-- An event of the socket reaches its handlers: nothing comes from a terminated worker. -/
def hears (s : DatasoleClient) (i : ℕ) : Prop :=
  i < s.socketCount ∧ (s.sockets i).closeDue ∧ (s.options.useWorker → (s.sockets i).live)

instance (s : DatasoleClient) (i : ℕ) : Decidable (s.hears i) := inferInstanceAs (Decidable (_ ∧ _))

/-- `rpcClient.call`: a direct transport throws when its socket is not open, and the call is
dropped. -/
def sends (s : DatasoleClient) : Bool :=
  s.options.useWorker ||
    s.transport.all fun i => (s.sockets i).live && (s.sockets i).opened && (s.sockets i).closeDue

inductive Act
  /-- The application calls `connect()`. -/
  | connect
  | disconnect
  | resume (call : ℕ) (created : Bool)
  /-- A timer fires and calls `connect()`. -/
  | fire (timer : ℕ)
  | opened (socket : ℕ)
  | error (socket : ℕ)
  | closed (socket : ℕ)
  /-- The application makes a remote call. -/
  | rpc
  /-- A response or a timeout ends a remote call. -/
  | rpcEnds (correlationId : ℕ)

def step (s : DatasoleClient) : Act → Option DatasoleClient
  | .connect => some { s.call .connect with off := false }
  | .disconnect => some (s.call .disconnect)
  | .resume i created => if i < s.callCount then s.resume i created else none
  | .fire timer =>
    if timer ∈ s.timers then
      some ({ s with timers := s.timers.filter (· ≠ timer) }.call .connect)
    else none
  | .opened i =>
    let socket := s.sockets i
    if s.hears i ∧ socket.live ∧ !socket.opened then
      let promise := if socket.promise = .pending then .resolved else socket.promise
      some (s.setSocket i { socket with opened := true, promise })
    else none
  | .error i =>
    let socket := s.sockets i
    if s.hears i then
      let promise := if socket.promise = .pending then .rejected else socket.promise
      some (s.setSocket i { socket with promise })
    else none
  | .closed i =>
    if s.hears i then some (s.setSocket i { (s.sockets i) with closeDue := false }).onClose else none
  | .rpc =>
    if s.sendFn then
      let correlationId := s.correlationCounter + 1
      some { s with
        correlationCounter := correlationId
        pending := if s.sends then s.pending ++ [correlationId] else s.pending }
    else none
  | .rpcEnds correlationId => some { s with pending := s.pending.erase correlationId }

/-! ## What a call does up to its first `await` -/

variable {s t : DatasoleClient}

/-- Two states that differ in what closing sockets changes, and in timers that are cleared. -/
structure Closes (s t : DatasoleClient) : Prop where
  options : t.options = s.options
  state : t.state = s.state
  transport : t.transport = s.transport
  workerProxy : t.workerProxy = s.workerProxy
  socketCount : t.socketCount = s.socketCount
  sockets : ∀ i, t.sockets i = s.sockets i ∨ t.sockets i = { (s.sockets i) with live := false }
  timers : t.timers ⊆ s.timers
  calls : t.calls = s.calls
  callCount : t.callCount = s.callCount
  off : t.off = s.off

theorem Closes.refl (s : DatasoleClient) : s.Closes s :=
  ⟨rfl, rfl, rfl, rfl, rfl, fun _ => Or.inl rfl, List.Subset.refl _, rfl, rfl, rfl⟩

/-- Closing sockets makes none live. -/
theorem Closes.live (h : s.Closes t) {i : ℕ} (hlive : (t.sockets i).live) : (s.sockets i).live := by
  rcases h.sockets i with heq | heq
  · exact heq ▸ hlive
  · rw [heq] at hlive
    cases hlive

theorem Closes.closeDue (h : s.Closes t) (i : ℕ) :
    (t.sockets i).closeDue = (s.sockets i).closeDue := by
  rcases h.sockets i with heq | heq <;> rw [heq]

theorem Closes.promise (h : s.Closes t) (i : ℕ) :
    (t.sockets i).promise = (s.sockets i).promise := by
  rcases h.sockets i with heq | heq <;> rw [heq]

/-- `close` is one of the changes that `Closes` allows. -/
theorem closes_close (s : DatasoleClient) (i : ℕ) : s.Closes (s.close i) := by
  refine ⟨rfl, rfl, rfl, rfl, rfl, fun j => ?_, List.Subset.refl _, rfl, rfl, rfl⟩
  by_cases hij : j = i
  · subst hij
    exact Or.inr (Function.update_self _ _ _)
  · exact Or.inl (Function.update_of_ne hij _ _)

theorem close_not_live (s : DatasoleClient) (i : ℕ) : ¬ ((s.close i).sockets i).live := by
  simp [close, setSocket]

/-- `disposeDirect` closes at most the socket in use. -/
theorem closes_disposeDirect (s : DatasoleClient) : s.Closes s.disposeDirect.1 := by
  rw [disposeDirect]
  split
  · exact s.closes_close _
  · exact Closes.refl s

/-- What `disposeDirect` finds stored is closed. -/
theorem disposeDirect_not_live {i : ℕ} (hi : s.transport = some i) :
    ¬ (s.disposeDirect.1.sockets i).live := by
  rw [disposeDirect, hi]
  exact s.close_not_live i

/-- A call that has disposed of a direct transport has not gone further. -/
theorem disposing_disposeDirect (s : DatasoleClient) : s.disposeDirect.2.Disposing := by
  cases h : s.transport <;> simp only [disposeDirect, h, Phase.Disposing]

/-- A timer that is cleared closes nothing. -/
theorem closes_clearTimer (s : DatasoleClient) : s.Closes s.clearTimer := by
  rw [clearTimer]
  split
  · exact ⟨rfl, rfl, rfl, rfl, rfl, fun _ => Or.inl rfl, List.filter_subset_self _, rfl, rfl, rfl⟩
  · exact Closes.refl s

/-- Two such changes, one after the other, are one. -/
theorem Closes.trans {u : DatasoleClient} (h : s.Closes t) (h' : t.Closes u) : s.Closes u := by
  refine ⟨h'.options.trans h.options, h'.state.trans h.state, h'.transport.trans h.transport,
    h'.workerProxy.trans h.workerProxy, h'.socketCount.trans h.socketCount, fun i => ?_,
    List.Subset.trans h'.timers h.timers, h'.calls.trans h.calls, h'.callCount.trans h.callCount,
    h'.off.trans h.off⟩
  rcases h.sockets i with heq | heq <;> rcases h'.sockets i with heq' | heq' <;> rw [heq', heq]
  · exact Or.inl rfl
  · exact Or.inr rfl
  · exact Or.inr rfl
  · exact Or.inr rfl

/-- `disposeTransport` closes sockets, in a worker or not, and does nothing else to the
connection. -/
theorem closes_disposeTransport (s : DatasoleClient) : s.Closes s.disposeTransport.1 := by
  have hpending : s.Closes { s with pending := [] } :=
    ⟨rfl, rfl, rfl, rfl, rfl, fun _ => Or.inl rfl, List.Subset.refl _, rfl, rfl, rfl⟩
  rw [disposeTransport]
  dsimp only
  split
  · exact hpending.trans (closes_close _ _)
  · exact hpending.trans (closes_disposeDirect _)

/-- A call is not further than `disposeTransport` when it returns from there. -/
theorem disposing_disposeTransport (s : DatasoleClient) : s.disposeTransport.2.Disposing := by
  rw [disposeTransport]
  dsimp only
  split
  · trivial
  · exact disposing_disposeDirect _

/-- What `disposeTransport` finds stored is closed. -/
theorem disposeTransport_not_live {i : ℕ}
    (hi : s.workerProxy = some i ∨ s.workerProxy = none ∧ s.transport = some i) :
    ¬ (s.disposeTransport.1.sockets i).live := by
  rw [disposeTransport]
  dsimp only
  rcases hi with hi | ⟨hproxy, hi⟩
  · split
    · rename_i j hj
      obtain rfl : i = j := Option.some.inj (hi.symm.trans hj)
      exact close_not_live _ _
    · rename_i hnone
      cases hi.symm.trans hnone
  · split
    · rename_i j hj
      cases hproxy.symm.trans hj
    · exact disposeDirect_not_live hi

/-- A call begins by closing what is stored, and waits in `disposeTransport`. -/
theorem call_spec (s : DatasoleClient) (kind : CallKind) :
    ∃ t phase, s.Closes t ∧ phase.Disposing ∧
      (∀ i, s.workerProxy = some i ∨ s.workerProxy = none ∧ s.transport = some i →
        ¬ (t.sockets i).live) ∧
      s.call kind = { t with
        calls := Function.update s.calls s.callCount { kind, phase }
        callCount := s.callCount + 1 } := by
  have hclear := s.closes_clearTimer
  have hall := hclear.trans (closes_disposeTransport s.clearTimer)
  refine ⟨_, _, hall, disposing_disposeTransport s.clearTimer, fun i hi => ?_, ?_⟩
  · rw [← hclear.workerProxy, ← hclear.transport] at hi
    exact disposeTransport_not_live hi
  · rw [call, ← hall.calls, ← hall.callCount]

end DatasoleClient

end Datasole
