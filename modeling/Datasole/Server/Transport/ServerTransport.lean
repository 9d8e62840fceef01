import Datasole.Common.JsString
import Datasole.Server.Metrics.OpenTelemetry
import Datasole.Server.Pipeline.FramePipeline
import Datasole.Server.Transport.WsServer

/-!
# The transport of the server

`Connection` of `server/transport/connection.ts` and `ServerTransport` of
`server/transport/server-transport.ts`, with one HTTP server attached. A connection and its
WebSocket have one number; the transport finds a connection through its id.

A message on a socket that is not open is lost: `Connection.send` rejects, which every caller
ignores.
-/

namespace Datasole

structure ConnectionInfo where
  id : String
  remoteAddress : String
  connectedAt : ℤ
  auth : Option AuthContext

/-- `Connection`, as the transport has it. -/
structure ServerTransport.Connection where
  info : ConnectionInfo
  /-- `this.ws` is not null: it is the WebSocket of the same number. -/
  ws : Bool

structure ServerTransport where
  maxConnections : ℕ
  wsServer : WsServer
  /-- The `Connection` objects made, by number. -/
  conns : ℕ → Option ServerTransport.Connection
  /-- The connections by id. -/
  connections : JsMap String ℕ
  metrics : MetricsCollector

open FramePipeline (connectionId)

theorem FramePipeline.connectionId_inj {m n : ℕ} (h : connectionId m = connectionId n) : m = n :=
  JsString.repr_inj ((String.append_right_inj _).mp h)

namespace ServerTransport

/-- After `attach`. -/
def attached (maxConnections : ℕ) (now : ℤ) : ServerTransport where
  maxConnections := maxConnections
  wsServer := WsServer.started
  conns := fun _ => none
  connections := JsMap.empty
  metrics := MetricsCollector.new now

/-- The connection of an accepted WebSocket. -/
def Connection.new (info : WsServer.Info) (now : ℤ) : Connection where
  info :=
    { id := connectionId info.number
      remoteAddress := info.remoteAddress
      connectedAt := now
      auth :=
        if info.auth.authenticated then
          some {
            userId := info.auth.userId.getD (connectionId info.number)
            roles := info.auth.roles.getD []
            metadata := info.auth.metadata.getD JsMap.empty }
        else none }
  ws := true

/-- The handler that `attach` gives to `WsServer.onConnection`, and the connection that it tells
`lifecycle.onConnect` about. -/
def onConnection (t : ServerTransport) (info : WsServer.Info) (now : ℤ) :
    ServerTransport × Option Connection :=
  if t.maxConnections ≤ t.connections.size then
    ({ t with wsServer := t.wsServer.modifyClient info.number (.close 1013 "Max connections reached") },
      none)
  else
    ({ t with
        conns := Function.update t.conns info.number (some (Connection.new info now))
        connections := t.connections.set (connectionId info.number) info.number
        metrics := t.metrics.increment .connections 1 },
      some (Connection.new info now))

/-- The `close` event of a WebSocket; `attach` listens to those with a connection. The second
component is the id that `lifecycle.onDisconnect` is told. -/
def onClose (t : ServerTransport) (number : ℕ) : ServerTransport × Option String :=
  let t := { t with wsServer := t.wsServer.modifyClient number fun w => { w with readyState := .closed } }
  match t.conns number with
  | none => (t, none)
  | some conn =>
    ({ t with
        connections := t.connections.delete conn.info.id
        metrics := t.metrics.decrement .connections 1 },
      some conn.info.id)

/-- `Connection.send`. -/
def send (data : Bytes) (t : ServerTransport) (number : ℕ) : ServerTransport :=
  match t.conns number with
  | none => t
  | some conn =>
    if conn.ws then { t with wsServer := t.wsServer.modifyClient number (.send data) } else t

/-- `Connection.close`. -/
def closeConnection (t : ServerTransport) (number : ℕ) (code : ℕ) (reason : String) :
    ServerTransport :=
  match t.conns number with
  | none => t
  | some conn =>
    if conn.ws then
      { t with
        wsServer := t.wsServer.modifyClient number (.close code reason)
        conns := Function.update t.conns number (some { conn with ws := false }) }
    else t

def countOut (t : ServerTransport) (bytes : ℕ) : ServerTransport :=
  { t with metrics := (t.metrics.increment .messagesOut 1).increment .bytesOut bytes }

def sendRaw (t : ServerTransport) (connectionId : String) (data : Bytes) : ServerTransport :=
  match t.connections.get connectionId with
  | none => t
  | some number => (t.send data number).countOut data.length

def broadcastRaw (t : ServerTransport) (data : Bytes) : ServerTransport :=
  (t.connections.values.foldl (send data) t).countOut (data.length * t.connections.size)

/-- `close` up to its `await`. -/
def beginClose (t : ServerTransport) : ServerTransport := { t with wsServer := t.wsServer.stop }

/-- `close` after its `await`. -/
def endClose (t : ServerTransport) : ServerTransport :=
  { t with wsServer := { t.wsServer with wss := none }, connections := JsMap.empty }

/-! ## What a message to connections changes -/

variable (t : ServerTransport) (data : Bytes)

/-- A message through a `Connection` object, as its WebSocket sees it. -/
def sendOn (conn : Option Connection) (w : WebSocket) : WebSocket :=
  if conn.any Connection.ws then w.send data else w

/-- Nothing is sent on a closed WebSocket. -/
theorem sendOn_of_closed (conn : Option Connection) {w : WebSocket} (hw : w.readyState = .closed) :
    sendOn data conn w = w := by
  have hsend : w.send data = w := if_neg (by rw [hw]; exact ReadyState.noConfusion)
  unfold sendOn
  rw [hsend, ite_self]

/-- A connection sends on its own WebSocket, and leaves the rest of the transport alone. -/
theorem send_eq (number : ℕ) : t.send data number =
    { t with wsServer := t.wsServer.modifyClient number (sendOn data (t.conns number)) } := by
  have hkeep : t = { t with wsServer := t.wsServer.modifyClient number id } := by
    unfold WsServer.modifyClient
    rw [id, Function.update_eq_self]
  unfold send
  cases hconn : t.conns number with
  | none => exact hkeep
  | some conn =>
    dsimp only
    cases hws : conn.ws with
    | true =>
      rw [if_pos rfl]
      have hsend : sendOn data (some conn) = WebSocket.send data := funext fun w => if_pos hws
      rw [hsend]
    | false =>
      have hid : sendOn data (some conn) = id := funext fun w => if_neg (by simp [hws])
      rw [hid]
      exact hkeep

/-- So do several connections. -/
theorem foldl_send (l : List ℕ) : l.foldl (send data) t =
    { t with
      wsServer := l.foldl (fun s n => s.modifyClient n (sendOn data (t.conns n))) t.wsServer } := by
  induction l generalizing t with
  | nil => rfl
  | cons n l ih => rw [List.foldl_cons, ih, send_eq, List.foldl_cons]

/-- What a broadcast does to a WebSocket, where no connection has two ids. -/
theorem clients_broadcastRaw (hvalues : t.connections.values.Nodup) (n : ℕ) :
    (t.broadcastRaw data).wsServer.clients n =
      if n ∈ t.connections.values then sendOn data (t.conns n) (t.wsServer.clients n)
      else t.wsServer.clients n := by
  have h :=
    WsServer.clients_foldl_modifyClient t.wsServer (fun n => sendOn data (t.conns n)) hvalues n
  simp only [broadcastRaw, foldl_send, countOut]
  exact h

/-! ## What the operations keep -/

/-- The gauge of the metrics. -/
def gauge (t : ServerTransport) : ℤ := t.metrics.counters .connections

def Closed (t : ServerTransport) (n : ℕ) : Prop := (t.wsServer.clients n).readyState = .closed

/-- The WebSocket got a connection, and is not closed. -/
def Live (t : ServerTransport) (n : ℕ) : Prop := (t.conns n).isSome ∧ ¬ t.Closed n

/-- No connection comes or goes from the one to the other. -/
structure Keeps (t t' : ServerTransport) : Prop where
  maxConnections : t'.maxConnections = t.maxConnections
  connections : t'.connections = t.connections
  gauge : t'.gauge = t.gauge
  counter : t'.wsServer.connectionCounter = t.wsServer.connectionCounter
  wss : t'.wsServer.wss = none ↔ t.wsServer.wss = none
  info : ∀ n, (t'.conns n).map Connection.info = (t.conns n).map Connection.info
  closed : ∀ n, t'.Closed n ↔ t.Closed n

variable {t} {data}

/-- No connection comes or goes in two changes, one after the other. -/
theorem Keeps.trans {t' t'' : ServerTransport} (h : t.Keeps t') (h' : t'.Keeps t'') :
    t.Keeps t'' where
  maxConnections := h'.maxConnections.trans h.maxConnections
  connections := h'.connections.trans h.connections
  gauge := h'.gauge.trans h.gauge
  counter := h'.counter.trans h.counter
  wss := h'.wss.trans h.wss
  info n := (h'.info n).trans (h.info n)
  closed n := (h'.closed n).trans (h.closed n)

theorem Keeps.isSome {t' : ServerTransport} (h : t.Keeps t') (n : ℕ) :
    (t'.conns n).isSome = (t.conns n).isSome := by
  have hinfo := congrArg Option.isSome (h.info n)
  rwa [Option.isSome_map, Option.isSome_map] at hinfo

theorem Keeps.live {t' : ServerTransport} (h : t.Keeps t') (n : ℕ) : t'.Live n ↔ t.Live n := by
  unfold Live
  rw [h.isSome, h.closed]

/-- The metrics may change, but for the gauge of the connections. -/
theorem keeps_metrics {metrics : MetricsCollector}
    (h : metrics.counters .connections = t.metrics.counters .connections) :
    t.Keeps { t with metrics } :=
  ⟨rfl, rfl, h, rfl, Iff.rfl, fun _ => rfl, fun _ => Iff.rfl⟩

theorem keeps_upgrades (upgrades : ℕ → Upgrade) (upgradeCount : ℕ) :
    t.Keeps { t with wsServer := { t.wsServer with upgrades, upgradeCount } } :=
  ⟨rfl, rfl, rfl, rfl, Iff.rfl, fun _ => rfl, fun _ => Iff.rfl⟩

/-- A WebSocket may change, as long as it does not become closed. -/
theorem keeps_modifyClient (n : ℕ) {f : WebSocket → WebSocket}
    (hf : ∀ w, (f w).readyState = .closed ↔ w.readyState = .closed) :
    t.Keeps { t with wsServer := t.wsServer.modifyClient n f } := by
  refine ⟨rfl, rfl, rfl, rfl, Iff.rfl, fun _ => rfl, fun m => ?_⟩
  unfold Closed
  rw [WsServer.clients_modifyClient]
  split
  · exact hf _
  · exact Iff.rfl

/-- A WebSocket may begin to close. -/
theorem keeps_closing {n : ℕ}
    (hopen : (t.wsServer.clients n).readyState = .open) : t.Keeps
      { t with wsServer := t.wsServer.modifyClient n fun w => { w with readyState := .closing } } := by
  refine ⟨rfl, rfl, rfl, rfl, Iff.rfl, fun _ => rfl, fun m => ?_⟩
  unfold Closed
  rw [WsServer.clients_modifyClient]
  split
  · next hm => simp [hm, hopen]
  · exact Iff.rfl

/-- A connection may send. -/
theorem keeps_send (n : ℕ) : t.Keeps (t.send data n) := by
  rw [send_eq]
  refine keeps_modifyClient n fun w => ?_
  unfold sendOn
  split
  · exact WebSocket.closed_send
  · exact Iff.rfl

theorem keeps_foldl_send (l : List ℕ) : t.Keeps (l.foldl (send data) t) := by
  induction l generalizing t with
  | nil => exact keeps_metrics rfl
  | cons n l ih => exact (keeps_send n).trans ih

theorem keeps_broadcastRaw : t.Keeps (t.broadcastRaw data) :=
  (keeps_foldl_send _).trans (keeps_metrics rfl)

/-- Bytes are sent to a connection by its id. -/
theorem keeps_sendRaw (id : String) : t.Keeps (t.sendRaw id data) := by
  unfold sendRaw
  split
  · exact keeps_metrics rfl
  · exact (keeps_send _).trans (keeps_metrics rfl)

/-- A connection may be told to close: its WebSocket is closing from then on, not closed. -/
theorem keeps_closeConnection (n code : ℕ) (reason : String) :
    t.Keeps (t.closeConnection n code reason) := by
  unfold closeConnection
  cases hconn : t.conns n with
  | none => exact keeps_metrics rfl
  | some conn =>
    dsimp only
    split
    · have hclose : t.Keeps { t with wsServer := t.wsServer.modifyClient n (.close code reason) } :=
        keeps_modifyClient n fun _ => WebSocket.closed_close
      refine hclose.trans ⟨rfl, rfl, rfl, rfl, Iff.rfl, fun m => ?_, fun _ => Iff.rfl⟩
      -- only the reference to the WebSocket goes
      by_cases hm : m = n
      · subst hm
        simp [hconn]
      · simp [Function.update_of_ne hm]
    · exact keeps_metrics rfl

/-- `close` begins with closing the WebSockets of all clients, none of which is closed by that. -/
theorem keeps_beginClose : t.Keeps t.beginClose := by
  have hstop := t.wsServer.stop_eq
  refine ⟨rfl, rfl, rfl, ?_, ?_, fun _ => rfl, fun n => ?_⟩
  · rw [beginClose, hstop]
  · rw [beginClose, WsServer.wss_stop, Option.map_eq_none_iff]
  · unfold Closed beginClose
    rw [WsServer.clients_stop]
    split
    · exact WebSocket.closed_close
    · exact Iff.rfl

end ServerTransport

end Datasole
