import Datasole.Common.Machine
import Datasole.Server.Transport.ServerTransport

/-!
# The connections of a server

The wiring of `server/server.ts` around the connections: the transport, the pipeline of inbound
frames up to the executor, and `close`. Everything that the code awaits may come at any time: the
answer of an auth handler, the timer of an upgrade, the limiter's verdict on a frame, the events of
a socket, and the promises that `close` waits for. So a run is any interleaving of all this over any
number of connections.

Three tables are kept in step by callbacks: the connections of the transport, the entries of the
executor and the gauge `connections` of the metrics. `Inv` says what they have to do with the
sockets.
-/

namespace Datasole

open FramePipeline (connectionId Inbound)

/-- How `consume` ends for a frame. -/
inductive Verdict
  | allowed
  /-- With the ERROR message, if it can be written. -/
  | refused (error : Option Bytes)
  | failed

structure DatasoleServer where
  transport : ServerTransport
  executor : ConnectionExecutor
  /-- The frames whose verdict is not known. -/
  waiting : List Inbound
  receivedCount : ℕ
  /-- The frames handed to the router, each with the connection that it is handed over with. -/
  dispatched : List (ℕ × Inbound)
  /-- The calls of `close` that wait for the transport. -/
  stopping : ℕ
  /-- The calls of `close` that wait for the sessions. -/
  destroying : ℕ

namespace DatasoleServer

def new (maxConnections : ℕ) (executor : ConnectionExecutor) (now : ℤ) : DatasoleServer where
  transport := ServerTransport.attached maxConnections now
  executor := executor
  waiting := []
  receivedCount := 0
  dispatched := []
  stopping := 0
  destroying := 0

inductive Act
  /-- An upgrade request for the server's path. -/
  | upgrade (remoteAddress : Option String)
  | authTimeout (upgrade : ℕ)
  /-- The peer goes away while the auth handler works. -/
  | peerLeaves (upgrade : ℕ)
  | authSettles (upgrade : ℕ) (result : Option AuthResult) (handshake : Handshake) (now : ℤ)
  | receive (number : ℕ) (raw : Bytes)
  | limited (message : Inbound) (verdict : Verdict)
  /-- A protocol handler sends a frame on its connection. -/
  | send (number : ℕ) (data : Bytes)
  /-- Whoever holds the connection closes it. -/
  | closeConnection (number code : ℕ) (reason : String)
  | sendRaw (connectionId : String) (data : Bytes)
  | broadcastRaw (data : Bytes)
  /-- A close frame or an error comes in, and the socket is no longer open. -/
  | closing (number : ℕ)
  /-- The `close` event of a socket. -/
  | closed (number : ℕ)
  | resetMetrics
  | close
  /-- `stop` has resolved for a call of `close`. -/
  | transportClosed
  /-- `sessions.destroy()` has resolved for a call of `close`. -/
  | sessionsDestroyed

def withTransport (s : DatasoleServer) (transport : ServerTransport) : DatasoleServer :=
  { s with transport }

def withWsServer (s : DatasoleServer) (wsServer : WsServer) : DatasoleServer :=
  s.withTransport { s.transport with wsServer }

/-- `lifecycle.onConnect`. -/
def onConnect (s : DatasoleServer) (number : ℕ) (conn : ServerTransport.Connection) :
    DatasoleServer :=
  { s with
    executor :=
      (s.executor.addConnection conn.info.id ⟨conn.info.remoteAddress, conn.info.auth⟩).setConnection
        conn.info.id number }

/-- `lifecycle.onDisconnect`. -/
def onDisconnect (s : DatasoleServer) (id : String) : DatasoleServer :=
  { s with executor := s.executor.removeConnection id }

/-- The connection handler, for a WebSocket that `wss` has accepted. -/
def onConnection (s : DatasoleServer) (info : WsServer.Info) (now : ℤ) : DatasoleServer :=
  let (transport, conn) := s.transport.onConnection info now
  match conn with
  | none => s.withTransport transport
  | some conn => (s.withTransport transport).onConnect info.number conn

def authSettles (s : DatasoleServer) (i : ℕ) (result : Option AuthResult) (handshake : Handshake)
    (now : ℤ) : DatasoleServer :=
  let (wsServer, info) := s.transport.wsServer.authSettles i result handshake
  match info with
  | none => s.withWsServer wsServer
  | some info => (s.withWsServer wsServer).onConnection info now

/-- `lifecycle.onFrame` up to the limiter's promise. -/
def onFrame (s : DatasoleServer) (number : ℕ) (raw : Bytes) : DatasoleServer :=
  let metrics := (s.transport.metrics.increment .messagesIn 1).increment .bytesIn raw.length
  { s.withTransport { s.transport with metrics } with
    waiting := s.waiting ++ [⟨s.receivedCount, number, raw⟩]
    receivedCount := s.receivedCount + 1 }

/-- The rest of the pipeline for a frame. -/
def limited (s : DatasoleServer) (message : Inbound) (verdict : Verdict) : DatasoleServer :=
  let s := { s with waiting := s.waiting.erase message }
  match verdict with
  | .failed | .refused none => s
  | .refused (some error) =>
    match s.transport.connections.get (connectionId message.connection) with
    | none => s
    | some number =>
      let transport := s.transport.send error number
      s.withTransport { transport with metrics := transport.metrics.increment .messagesOut 1 }
  | .allowed =>
    match s.executor.dispatch (connectionId message.connection) with
    | none => s
    | some conn => { s with dispatched := s.dispatched ++ [(conn, message)] }

def onClose (s : DatasoleServer) (number : ℕ) : DatasoleServer :=
  let (transport, id) := s.transport.onClose number
  id.elim (s.withTransport transport) (s.withTransport transport).onDisconnect

def step (s : DatasoleServer) : Act → Option DatasoleServer
  | .upgrade remoteAddress => some (s.withWsServer (s.transport.wsServer.handleUpgrade remoteAddress))
  | .authTimeout i =>
    let wsServer := s.transport.wsServer
    if i < wsServer.upgradeCount ∧ (wsServer.upgrades i).authTimer then
      some (s.withWsServer (wsServer.setUpgrade i (wsServer.upgrades i).timeout))
    else none
  | .peerLeaves i =>
    let wsServer := s.transport.wsServer
    if i < wsServer.upgradeCount ∧ (wsServer.upgrades i).authenticating ∧
        !(wsServer.upgrades i).destroyed then
      some (s.withWsServer (wsServer.setUpgrade i (wsServer.upgrades i).destroy))
    else none
  | .authSettles i result handshake now =>
    let wsServer := s.transport.wsServer
    if i < wsServer.upgradeCount ∧ (wsServer.upgrades i).authenticating then
      some (s.authSettles i result handshake now)
    else none
  | .receive number raw =>
    if (s.transport.conns number).isSome ∧
        (s.transport.wsServer.clients number).readyState ≠ .closed then
      some (s.onFrame number raw)
    else none
  | .limited message verdict => if message ∈ s.waiting then some (s.limited message verdict) else none
  | .send number data =>
    if (s.transport.conns number).isSome then
      let transport := s.transport.send data number
      some (s.withTransport { transport with metrics := transport.metrics.increment .messagesOut 1 })
    else none
  | .closeConnection number code reason =>
    if (s.transport.conns number).isSome then
      some (s.withTransport (s.transport.closeConnection number code reason))
    else none
  | .sendRaw connectionId data => some (s.withTransport (s.transport.sendRaw connectionId data))
  | .broadcastRaw data => some (s.withTransport (s.transport.broadcastRaw data))
  | .closing number =>
    if (s.transport.wsServer.clients number).readyState = .open then
      some (s.withWsServer
        (s.transport.wsServer.modifyClient number fun w => { w with readyState := .closing }))
    else none
  | .closed number =>
    if (s.transport.wsServer.clients number).readyState ≠ .closed then some (s.onClose number) else none
  | .resetMetrics =>
    some (s.withTransport { s.transport with metrics := s.transport.metrics.reset })
  | .close => some { s.withTransport s.transport.beginClose with stopping := s.stopping + 1 }
  | .transportClosed =>
    if 0 < s.stopping ∧ s.transport.wsServer.Drained then
      some { s.withTransport s.transport.endClose with
        stopping := s.stopping - 1
        destroying := s.destroying + 1 }
    else none
  | .sessionsDestroyed =>
    if 0 < s.destroying then
      some { s with executor := s.executor.shutdown, destroying := s.destroying - 1 }
    else none

/-! ## The tables -/

/-- The tables have one entry for each live WebSocket, under its own id. The gauge is `precise` as
long as nobody resets the metrics. -/
structure Inv (limit : ℕ) (precise : Prop) (s : DatasoleServer) : Prop where
  maxConnections : s.transport.maxConnections = limit
  number_le : ∀ n, (s.transport.conns n).isSome → n ≤ s.transport.wsServer.connectionCounter
  id : ∀ n conn, s.transport.conns n = some conn → conn.info.id = connectionId n
  auth : ∀ n conn, s.transport.conns n = some conn → conn.info.auth.isSome
  fresh : ∀ n, s.transport.wsServer.connectionCounter < n → s.transport.Closed n
  stopped : s.transport.wsServer.wss = none → ∀ n, s.transport.Closed n
  entries : ∀ id n, s.transport.connections.get id = some n ↔ id = connectionId n ∧ s.transport.Live n
  dispatch : ∀ id, s.executor.dispatch id = s.transport.connections.get id
  size_le : s.transport.connections.size ≤ limit
  gauge_nonneg : 0 ≤ s.transport.gauge
  gauge_le : s.transport.gauge ≤ s.transport.connections.size
  gauge_eq : precise → s.transport.gauge = s.transport.connections.size
  destroying : 0 < s.destroying → s.transport.wsServer.wss = none
  waiting : ∀ message ∈ s.waiting, (s.transport.conns message.connection).isSome
  dispatched : ∀ d ∈ s.dispatched, d.1 = d.2.connection

/-- What a change of the transport has to keep for the tables not to notice. -/
structure Quiet (t t' : ServerTransport) : Prop where
  maxConnections : t'.maxConnections = t.maxConnections
  connections : t'.connections = t.connections
  gauge : t'.gauge = t.gauge
  counter_le : t.wsServer.connectionCounter ≤ t'.wsServer.connectionCounter
  info : ∀ n, (t'.conns n).map ServerTransport.Connection.info =
    (t.conns n).map ServerTransport.Connection.info
  closed : ∀ n, (t.conns n).isSome → (t'.Closed n ↔ t.Closed n)
  fresh : ∀ n, t'.wsServer.connectionCounter < n → t'.Closed n
  stopped : t'.wsServer.wss = none → ∀ n, t'.Closed n
  wss : t.wsServer.wss = none → t'.wsServer.wss = none

variable {limit : ℕ} {precise : Prop} {s : DatasoleServer} {t : ServerTransport}

theorem Inv.imprecise (h : s.Inv limit precise) : s.Inv limit False :=
  { h with gauge_eq := fun hfalse => hfalse.elim }

theorem Quiet.isSome (h : Quiet s.transport t) (n : ℕ) :
    (t.conns n).isSome = (s.transport.conns n).isSome := by
  have hinfo := congrArg Option.isSome (h.info n)
  rwa [Option.isSome_map, Option.isSome_map] at hinfo

theorem Quiet.live (h : Quiet s.transport t) (n : ℕ) : t.Live n ↔ s.transport.Live n := by
  unfold ServerTransport.Live
  rw [h.isSome]
  exact and_congr_right fun hsome => not_congr (h.closed n hsome)

/-- A connection has been there before, with the same id and the same user. -/
theorem Quiet.exists_conn (h : Quiet s.transport t) {n : ℕ} {conn : ServerTransport.Connection}
    (hconn : t.conns n = some conn) :
    ∃ conn', s.transport.conns n = some conn' ∧ conn'.info = conn.info := by
  have hinfo := h.info n
  rw [hconn] at hinfo
  exact Option.map_eq_some_iff.mp hinfo.symm

/-- What the tables do not notice keeps the invariant. -/
theorem Inv.quiet (h : s.Inv limit precise) (hquiet : Quiet s.transport t) :
    (s.withTransport t).Inv limit precise where
  maxConnections := hquiet.maxConnections.trans h.maxConnections
  number_le n hsome := (h.number_le n (hquiet.isSome n ▸ hsome)).trans hquiet.counter_le
  id n conn hconn := by
    obtain ⟨conn', hconn', heq⟩ := hquiet.exists_conn hconn
    exact heq ▸ h.id n conn' hconn'
  auth n conn hconn := by
    obtain ⟨conn', hconn', heq⟩ := hquiet.exists_conn hconn
    exact heq ▸ h.auth n conn' hconn'
  fresh := hquiet.fresh
  stopped := hquiet.stopped
  entries id n := by
    change t.connections.get id = some n ↔ id = connectionId n ∧ t.Live n
    rw [hquiet.connections, h.entries id n, hquiet.live n]
  dispatch id := (h.dispatch id).trans (congrArg (·.get id) hquiet.connections.symm)
  size_le := by
    change t.connections.size ≤ limit
    rw [hquiet.connections]
    exact h.size_le
  gauge_nonneg := h.gauge_nonneg.trans_eq hquiet.gauge.symm
  gauge_le := by
    change t.gauge ≤ t.connections.size
    rw [hquiet.gauge, hquiet.connections]
    exact h.gauge_le
  gauge_eq hprecise := by
    change t.gauge = t.connections.size
    rw [hquiet.gauge, hquiet.connections]
    exact h.gauge_eq hprecise
  destroying hpos := hquiet.wss (h.destroying hpos)
  waiting message hmem := (hquiet.isSome _).trans (h.waiting message hmem)
  dispatched := h.dispatched

/-- So does a call that only sends. -/
theorem Inv.keeps (h : s.Inv limit precise) (hkeeps : s.transport.Keeps t) :
    (s.withTransport t).Inv limit precise :=
  h.quiet
    { maxConnections := hkeeps.maxConnections
      connections := hkeeps.connections
      gauge := hkeeps.gauge
      counter_le := hkeeps.counter.ge
      info := hkeeps.info
      closed := fun n _ => hkeeps.closed n
      fresh := fun n hn => (hkeeps.closed n).mpr (h.fresh n (hkeeps.counter ▸ hn))
      stopped := fun hnone n => (hkeeps.closed n).mpr (h.stopped (hkeeps.wss.mp hnone) n)
      wss := hkeeps.wss.mpr }

/-- What the pipeline does with its frames has no part in the tables. -/
theorem Inv.withFrames (h : s.Inv limit precise) {waiting : List Inbound} {receivedCount : ℕ}
    {dispatched : List (ℕ × Inbound)}
    (hwaiting : ∀ message ∈ waiting, (s.transport.conns message.connection).isSome)
    (hdispatched : ∀ d ∈ dispatched, d.1 = d.2.connection) :
    Inv limit precise { s with waiting, receivedCount, dispatched } :=
  { h with waiting := hwaiting, dispatched := hdispatched }

/-- The limiter's verdict touches the executor, the waiting frames and the metrics, and none of the
tables. -/
theorem Inv.limited (h : s.Inv limit precise) (message : Inbound) (verdict : Verdict) :
    (s.limited message verdict).Inv limit precise := by
  have herase : Inv limit precise { s with waiting := s.waiting.erase message } :=
    h.withFrames (fun message' hmem => h.waiting message' (List.mem_of_mem_erase hmem)) h.dispatched
  unfold DatasoleServer.limited
  cases verdict with
  | failed => exact herase
  | refused error =>
    cases error with
    | none => exact herase
    | some error =>
      dsimp only
      split
      · exact herase
      · exact herase.keeps ((ServerTransport.keeps_send _).trans (ServerTransport.keeps_metrics rfl))
  | allowed =>
    dsimp only
    split
    · exact herase
    · next conn hconn =>
      -- the entry under the id of the connection is the connection's
      have hown : conn = message.connection := by
        rw [h.dispatch] at hconn
        exact (FramePipeline.connectionId_inj ((h.entries _ _).mp hconn).1).symm
      refine herase.withFrames herase.waiting fun d hd => ?_
      rcases List.mem_append.mp hd with hd | hd
      · exact h.dispatched d hd
      · obtain rfl := List.mem_singleton.mp hd
        exact hown

/-! ### Connections that come -/

/-- A WebSocket that was just accepted, in the hands of the connection handler. -/
theorem Inv.onConnection (h : s.Inv limit precise) {info : WsServer.Info}
    (hauth : info.auth.authenticated = true)
    (hle : info.number ≤ s.transport.wsServer.connectionCounter)
    (hnew : s.transport.conns info.number = none) (hopen : ¬ s.transport.Closed info.number) (now : ℤ) :
    (s.onConnection info now).Inv limit precise := by
  unfold DatasoleServer.onConnection ServerTransport.onConnection
  by_cases hroom : s.transport.maxConnections ≤ s.transport.connections.size
  · rw [if_pos hroom]
    exact h.keeps (ServerTransport.keeps_modifyClient _ fun _ => WebSocket.closed_close)
  · rw [if_neg hroom]
    have hfree : s.transport.connections.get (connectionId info.number) = none := by
      refine Option.eq_none_iff_forall_ne_some.mpr fun n hn => ?_
      obtain ⟨hid, hlive⟩ := (h.entries _ _).mp hn
      obtain rfl := FramePipeline.connectionId_inj hid
      rw [ServerTransport.Live, hnew] at hlive
      exact absurd hlive.1 Bool.false_ne_true
    have hconns {n : ℕ} (hn : n ≠ info.number) :
        Function.update s.transport.conns info.number (some (.new info now)) n = s.transport.conns n :=
      Function.update_of_ne hn ..
    have hself : Function.update s.transport.conns info.number (some (.new info now)) info.number =
        some (.new info now) := Function.update_self ..
    have hsize := JsMap.size_set_of_get_eq_none hfree info.number
    constructor
    case maxConnections => exact h.maxConnections
    case number_le =>
      intro n hsome
      by_cases hn : n = info.number
      · exact hn ▸ hle
      · exact h.number_le n (hconns hn ▸ hsome)
    case id =>
      intro n conn hconn
      by_cases hn : n = info.number
      · subst hn
        obtain rfl := Option.some.inj (hself.symm.trans hconn)
        rfl
      · exact h.id n conn ((hconns hn).symm.trans hconn)
    case auth =>
      intro n conn hconn
      by_cases hn : n = info.number
      · subst hn
        obtain rfl := Option.some.inj (hself.symm.trans hconn)
        simp [ServerTransport.Connection.new, hauth]
      · exact h.auth n conn ((hconns hn).symm.trans hconn)
    case fresh => exact h.fresh
    case stopped => exact h.stopped
    case entries =>
      intro id n
      change (s.transport.connections.set (connectionId info.number) info.number).get id = some n ↔
        id = connectionId n ∧ (Function.update s.transport.conns info.number
          (some (.new info now)) n).isSome ∧ ¬ s.transport.Closed n
      rw [JsMap.get_set]
      by_cases hn : n = info.number
      · subst hn
        rw [hself]
        split
        · next hid => simp [hid, hopen]
        · next hid =>
          rw [h.entries]
          simp [hid]
      · rw [hconns hn]
        split
        · next hid =>
          -- the id is taken by the new connection
          refine iff_of_false (fun heq => hn (Option.some.inj heq).symm) ?_
          rintro ⟨hid', -⟩
          exact hn (FramePipeline.connectionId_inj (hid'.symm.trans hid))
        · exact h.entries id n
    case dispatch =>
      intro id
      change ((s.executor.addConnection _ _).setConnection _ _).dispatch id = _
      rw [ConnectionExecutor.dispatch_eq, ConnectionExecutor.core_setConnection,
        ConnectionExecutor.core_addConnection, AsyncExecutor.dispatch_set,
        ← ConnectionExecutor.dispatch_eq, h.dispatch]
      exact (JsMap.get_set ..).symm
    case size_le =>
      change (s.transport.connections.set (connectionId info.number) info.number).size ≤ _
      rw [hsize, ← h.maxConnections]
      exact not_le.mp hroom
    case gauge_nonneg =>
      have hgauge := h.gauge_nonneg
      change 0 ≤ s.transport.gauge + 1
      omega
    case gauge_le =>
      have hgauge := h.gauge_le
      change s.transport.gauge + 1 ≤
        (s.transport.connections.set (connectionId info.number) info.number).size
      rw [hsize]
      omega
    case gauge_eq =>
      intro hprecise
      have hgauge := h.gauge_eq hprecise
      change s.transport.gauge + 1 =
        (s.transport.connections.set (connectionId info.number) info.number).size
      rw [hsize]
      omega
    case destroying => exact h.destroying
    case waiting =>
      intro message hmem
      have hsome := h.waiting message hmem
      have hne : message.connection ≠ info.number := by
        rintro heq
        rw [heq, hnew] at hsome
        exact absurd hsome Bool.false_ne_true
      exact (congrArg Option.isSome (hconns hne)).trans hsome
    case dispatched => exact h.dispatched

/-- A WebSocket that has no connection yet. -/
theorem Inv.accepted (h : s.Inv limit precise) (hwss : s.transport.wsServer.wss = some .running)
    (upgrades : ℕ → Upgrade) :
    (s.withWsServer (s.transport.wsServer.accepted upgrades)).Inv limit precise := by
  refine h.quiet ⟨rfl, rfl, rfl, Nat.le_succ _, fun _ => rfl, fun n hsome => ?_, fun n hn => ?_,
    fun hnone => ?_, fun hnone => hnone⟩
  · have hle := h.number_le n hsome
    unfold ServerTransport.Closed
    rw [WsServer.clients_accepted, if_neg (by omega)]
  · change s.transport.wsServer.connectionCounter + 1 < n at hn
    unfold ServerTransport.Closed
    rw [WsServer.clients_accepted, if_neg (by omega)]
    exact h.fresh n (by omega)
  · rw [WsServer.accepted, hwss] at hnone
    cases hnone

/-- An upgrade is refused, given up, or makes a connection under the next number, in all tables. -/
theorem Inv.authSettles (h : s.Inv limit precise) (i : ℕ) (result : Option AuthResult)
    (handshake : Handshake) (now : ℤ) : (s.authSettles i result handshake now).Inv limit precise := by
  unfold DatasoleServer.authSettles
  rcases s.transport.wsServer.authSettles_cases i result handshake with
    ⟨hnone, hw⟩ | ⟨auth, -, hauth, -, hwss, -, hinfo, hw⟩
  · dsimp only
    rw [hnone, hw]
    exact h.keeps (ServerTransport.keeps_upgrades _ _)
  · dsimp only
    rw [hinfo, hw]
    have hnew : s.transport.conns (s.transport.wsServer.connectionCounter + 1) = none := by
      refine Option.not_isSome_iff_eq_none.mp fun hsome => ?_
      have hle := h.number_le _ hsome
      omega
    refine (h.accepted hwss _).onConnection ?_ ?_ ?_ ?_ now
    · exact hauth
    · exact le_refl _
    · exact hnew
    · unfold withWsServer withTransport ServerTransport.Closed
      rw [WsServer.clients_accepted, if_pos rfl]
      exact ReadyState.noConfusion

/-! ### Connections that go -/

/-- The transport with the WebSocket closed, before anyone is told. -/
def withClosed (s : DatasoleServer) (number : ℕ) : ServerTransport :=
  { s.transport with
    wsServer := s.transport.wsServer.modifyClient number fun w => { w with readyState := .closed } }

/-- One WebSocket more is closed. -/
theorem closed_withClosed (number n : ℕ) :
    (s.withClosed number).Closed n ↔ n = number ∨ s.transport.Closed n := by
  unfold withClosed ServerTransport.Closed
  rw [WsServer.clients_modifyClient]
  split
  · next hn => exact iff_of_true rfl (.inl hn)
  · next hn => exact ⟨.inr, fun hclosed => hclosed.resolve_left hn⟩

/-- Nobody is told of a WebSocket that never became a connection. -/
theorem onClose_of_none {number : ℕ} (hconn : s.transport.conns number = none) :
    s.onClose number = s.withTransport (s.withClosed number) := by
  simp only [onClose, ServerTransport.onClose, hconn]
  rfl

/-- A connection leaves the transport's table, the executor's and the gauge. -/
theorem onClose_of_some {number : ℕ} {conn : ServerTransport.Connection}
    (hconn : s.transport.conns number = some conn) :
    s.onClose number =
      { s.withTransport { s.withClosed number with
          connections := s.transport.connections.delete conn.info.id
          metrics := s.transport.metrics.decrement .connections 1 } with
        executor := s.executor.removeConnection conn.info.id } := by
  simp only [onClose, ServerTransport.onClose, hconn]
  rfl

/-- Where a WebSocket closes its connection, if it has one, leaves all tables at once. -/
theorem Inv.onClose (h : s.Inv limit precise) {number : ℕ} (hopen : ¬ s.transport.Closed number) :
    (s.onClose number).Inv limit precise := by
  have hclosed := closed_withClosed (s := s) number
  cases hconn : s.transport.conns number with
  | none =>
    -- the WebSocket never became a connection, so no table has it
    rw [onClose_of_none hconn]
    refine h.quiet ⟨rfl, rfl, rfl, le_rfl, fun _ => rfl, fun n hsome => ?_, fun n hn => ?_,
      fun hnone n => ?_, fun hnone => hnone⟩
    · refine (hclosed n).trans ⟨fun hn => hn.resolve_left ?_, .inr⟩
      rintro rfl
      rw [hconn] at hsome
      exact absurd hsome Bool.false_ne_true
    · exact (hclosed n).mpr (.inr (h.fresh n hn))
    · exact (hclosed n).mpr (.inr (h.stopped hnone n))
  | some conn =>
    rw [onClose_of_some hconn]
    -- the connection is the one entry that goes from both tables
    have hid := h.id number conn hconn
    have hlive : s.transport.Live number := ⟨by rw [hconn]; rfl, hopen⟩
    have hentry : s.transport.connections.get conn.info.id = some number :=
      (h.entries _ _).mpr ⟨hid, hlive⟩
    have hsize := JsMap.size_delete_of_get_eq_some hentry
    constructor
    case maxConnections => exact h.maxConnections
    case number_le => exact h.number_le
    case id => exact h.id
    case auth => exact h.auth
    case fresh => exact fun n hn => (hclosed n).mpr (.inr (h.fresh n hn))
    case stopped => exact fun hnone n => (hclosed n).mpr (.inr (h.stopped hnone n))
    case entries =>
      intro id n
      change (s.transport.connections.delete conn.info.id).get id = some n ↔
        id = connectionId n ∧ (s.transport.conns n).isSome ∧ ¬ (s.withClosed number).Closed n
      rw [JsMap.get_delete, hclosed, not_or]
      split
      · -- no other number has the id of the connection
        next heq =>
        refine iff_of_false (fun hnone => by cases hnone) ?_
        rintro ⟨hn, -, hne, -⟩
        exact hne (FramePipeline.connectionId_inj ((hn.symm.trans heq).trans hid))
      · next hne =>
        rw [h.entries]
        refine and_congr_right fun hn => ?_
        have hnumber : n ≠ number := by
          rintro rfl
          exact hne (hn.trans hid.symm)
        exact ⟨fun hlive => ⟨hlive.1, hnumber, hlive.2⟩, fun hlive => ⟨hlive.1, hlive.2.2⟩⟩
    case dispatch =>
      intro id
      change (s.executor.removeConnection _).dispatch id = (s.transport.connections.delete _).get id
      rw [ConnectionExecutor.dispatch_eq, ConnectionExecutor.core_removeConnection,
        AsyncExecutor.dispatch_removeConnection, ← ConnectionExecutor.dispatch_eq, h.dispatch,
        JsMap.get_delete]
    case size_le =>
      have hle := h.size_le
      change (s.transport.connections.delete conn.info.id).size ≤ limit
      omega
    -- `decrement` stops at zero
    case gauge_nonneg => exact le_max_left ..
    case gauge_le =>
      have hle := h.gauge_le
      change max 0 (s.transport.gauge - 1) ≤ ((s.transport.connections.delete conn.info.id).size : ℤ)
      omega
    case gauge_eq =>
      intro hprecise
      have hgauge := h.gauge_eq hprecise
      change max 0 (s.transport.gauge - 1) = ((s.transport.connections.delete conn.info.id).size : ℤ)
      omega
    case destroying => exact h.destroying
    case waiting => exact h.waiting
    case dispatched => exact h.dispatched

/-- Once `wss` is gone the tables are empty. -/
theorem Inv.get_of_stopped (h : s.Inv limit precise) (hnone : s.transport.wsServer.wss = none)
    (id : String) : s.transport.connections.get id = none := by
  refine Option.eq_none_iff_forall_ne_some.mpr fun n hn => ?_
  exact ((h.entries id n).mp hn).2.2 (h.stopped hnone n)

/-- After the transport has closed there is no connection left for the executor to lose. -/
theorem Inv.shutdown (h : s.Inv limit precise) (hnone : s.transport.wsServer.wss = none)
    (destroying : ℕ) : Inv limit precise { s with executor := s.executor.shutdown, destroying } :=
  { h with
    dispatch := fun id => by
      rw [h.get_of_stopped hnone, ConnectionExecutor.dispatch_eq, ConnectionExecutor.core_shutdown]
      rfl
    destroying := fun _ => hnone }

/-- `stop` has resolved, so every WebSocket is closed and every table empty already. -/
theorem Inv.endClose (h : s.Inv limit precise) (hdrained : s.transport.wsServer.Drained)
    (stopping destroying : ℕ) :
    Inv limit precise { s.withTransport s.transport.endClose with stopping, destroying } := by
  have hclosed (n : ℕ) : s.transport.Closed n := by
    by_cases hn : n < s.transport.wsServer.connectionCounter + 1
    · exact hdrained n hn
    · exact h.fresh n (by omega)
  have hget (id : String) : s.transport.connections.get id = none := by
    refine Option.eq_none_iff_forall_ne_some.mpr fun n hn => ?_
    exact ((h.entries id n).mp hn).2.2 (hclosed n)
  have hempty : s.transport.connections = JsMap.empty := JsMap.eq_empty hget
  have hsame : s.transport.endClose =
      { s.transport with wsServer := { s.transport.wsServer with wss := none } } := by
    simp only [ServerTransport.endClose, hempty]
  rw [hsame]
  exact
    { h with
      stopped := fun _ => hclosed
      destroying := fun _ => rfl }

/-- Every step keeps the invariant, one that resets the metrics only if the gauge need not be
right. -/
theorem Inv.step (h : s.Inv limit precise) {a : Act} {t : DatasoleServer}
    (hreset : precise → a ≠ .resetMetrics) (hs : s.step a = some t) : t.Inv limit precise := by
  cases a with
  | upgrade remoteAddress =>
    cases hs
    exact h.keeps (ServerTransport.keeps_upgrades _ _)
  | authTimeout i | peerLeaves i =>
    simp only [DatasoleServer.step, Option.ite_none_right_eq_some, Option.some.injEq] at hs
    obtain ⟨-, rfl⟩ := hs
    exact h.keeps (ServerTransport.keeps_upgrades _ _)
  | authSettles i result handshake now =>
    simp only [DatasoleServer.step, Option.ite_none_right_eq_some, Option.some.injEq] at hs
    obtain ⟨-, rfl⟩ := hs
    exact h.authSettles i result handshake now
  | receive number raw =>
    simp only [DatasoleServer.step, Option.ite_none_right_eq_some, Option.some.injEq] at hs
    obtain ⟨⟨hsome, -⟩, rfl⟩ := hs
    -- the frame is counted before it waits
    have hmetrics : (s.withTransport { s.transport with
        metrics := (s.transport.metrics.increment .messagesIn 1).increment .bytesIn raw.length }).Inv
          limit precise :=
      h.keeps (ServerTransport.keeps_metrics rfl)
    refine hmetrics.withFrames (fun message hmem => ?_) h.dispatched
    rcases List.mem_append.mp hmem with hmem | hmem
    · exact h.waiting message hmem
    · obtain rfl := List.mem_singleton.mp hmem
      exact hsome
  | limited message verdict =>
    simp only [DatasoleServer.step, Option.ite_none_right_eq_some, Option.some.injEq] at hs
    obtain ⟨-, rfl⟩ := hs
    exact h.limited message verdict
  | send number data =>
    simp only [DatasoleServer.step, Option.ite_none_right_eq_some, Option.some.injEq] at hs
    obtain ⟨-, rfl⟩ := hs
    exact h.keeps ((ServerTransport.keeps_send number).trans (ServerTransport.keeps_metrics rfl))
  | closeConnection number code reason =>
    simp only [DatasoleServer.step, Option.ite_none_right_eq_some, Option.some.injEq] at hs
    obtain ⟨-, rfl⟩ := hs
    exact h.keeps (ServerTransport.keeps_closeConnection number code reason)
  | sendRaw id data =>
    cases hs
    exact h.keeps (ServerTransport.keeps_sendRaw id)
  | broadcastRaw data =>
    cases hs
    exact h.keeps ServerTransport.keeps_broadcastRaw
  | closing number =>
    simp only [DatasoleServer.step, Option.ite_none_right_eq_some, Option.some.injEq] at hs
    obtain ⟨hopen, rfl⟩ := hs
    exact h.keeps (ServerTransport.keeps_closing hopen)
  | closed number =>
    simp only [DatasoleServer.step, Option.ite_none_right_eq_some, Option.some.injEq] at hs
    obtain ⟨hopen, rfl⟩ := hs
    exact h.onClose hopen
  | resetMetrics =>
    cases hs
    -- a reset takes the gauge to zero whatever the tables hold
    exact { h with
      gauge_nonneg := le_refl 0
      gauge_le := Int.natCast_nonneg _
      gauge_eq := fun hprecise => absurd rfl (hreset hprecise) }
  | close =>
    cases hs
    -- the WebSockets are told to close, and none is closed yet
    exact { h.keeps ServerTransport.keeps_beginClose with }
  | transportClosed =>
    simp only [DatasoleServer.step, Option.ite_none_right_eq_some, Option.some.injEq] at hs
    obtain ⟨⟨-, hdrained⟩, rfl⟩ := hs
    exact h.endClose hdrained _ _
  | sessionsDestroyed =>
    simp only [DatasoleServer.step, Option.ite_none_right_eq_some, Option.some.injEq] at hs
    obtain ⟨hpos, rfl⟩ := hs
    exact h.shutdown (h.destroying hpos) _

/-- Any step keeps what does not depend on resets. -/
theorem Inv.any_step (h : s.Inv limit precise) {a : Act} {t : DatasoleServer}
    (hs : s.step a = some t) :
    t.Inv limit False :=
  h.imprecise.step (fun hfalse => hfalse.elim) hs

/-- A new server has empty tables. -/
theorem inv_new {model : Option String} {executor : ConnectionExecutor}
    (hmodel : ConnectionExecutor.create model = .ok executor) (limit : ℕ) (precise : Prop) (now : ℤ) :
    (new limit executor now).Inv limit precise where
  maxConnections := rfl
  number_le n hsome := by cases hsome
  id n conn hconn := by cases hconn
  auth n conn hconn := by cases hconn
  fresh _ _ := rfl
  stopped _ _ := rfl
  entries id n := by
    refine iff_of_false (fun heq => by cases heq) ?_
    rintro ⟨-, hsome, -⟩
    cases hsome
  dispatch id := by
    rw [ConnectionExecutor.dispatch_eq]
    change executor.core.dispatch id = none
    rw [ConnectionExecutor.core_of_create hmodel]
    rfl
  size_le := Nat.zero_le limit
  gauge_nonneg := le_refl 0
  gauge_le := le_refl 0
  gauge_eq _ := rfl
  destroying hpos := absurd hpos (Nat.lt_irrefl 0)
  waiting message hmem := by cases hmem
  dispatched d hd := by cases hd

/-- The invariant holds of every run; the gauge is precise if the run resets no metrics. -/
theorem inv_exec {model : Option String} {executor : ConnectionExecutor}
    (hmodel : ConnectionExecutor.create model = .ok executor) {now : ℤ} {acts : List Act}
    (hrun : Machine.exec step (new limit executor now) acts = some s) :
    s.Inv limit (∀ a ∈ acts, a ≠ .resetMetrics) := by
  have hguard : Machine.Guarded step (fun _ a => (∀ b ∈ acts, b ≠ .resetMetrics) → a ≠ .resetMetrics)
      (new limit executor now) acts :=
    Machine.guarded_of_mem (fun a ha hreset => hreset a ha) _
  exact Machine.exec_invariant_guarded (fun s a t hinv ha hs => hinv.step ha hs)
    (inv_new hmodel limit _ now) hguard hrun

/-- At every moment of every run, whichever executor is configured: a WebSocket has an entry in the
transport's table and in the executor's exactly while it is live, under its own id and none else;
every connection is authenticated and the table never exceeds its limit. The gauge `connections`
counts the entries, and after a reset of the metrics no more than these. -/
theorem tables_agree {model : Option String} {executor : ConnectionExecutor}
    (hmodel : ConnectionExecutor.create model = .ok executor) (maxConnections : ℕ) (now : ℤ)
    (acts : List Act) (s : DatasoleServer)
    (hrun : Machine.exec step (new maxConnections executor now) acts = some s) :
    (∀ id n, s.transport.connections.get id = some n ↔ id = connectionId n ∧ s.transport.Live n) ∧
      (∀ id, s.executor.dispatch id = s.transport.connections.get id) ∧
      (∀ n conn, s.transport.conns n = some conn →
        conn.info.id = connectionId n ∧ conn.info.auth.isSome) ∧
      s.transport.connections.size ≤ maxConnections ∧
      0 ≤ s.transport.gauge ∧ s.transport.gauge ≤ s.transport.connections.size ∧
      ((∀ a ∈ acts, a ≠ .resetMetrics) → s.transport.gauge = s.transport.connections.size) := by
  have h := inv_exec hmodel hrun
  refine ⟨h.entries, h.dispatch, ?_, h.size_le, h.gauge_nonneg, h.gauge_le, h.gauge_eq⟩
  exact fun n conn hconn => ⟨h.id n conn hconn, h.auth n conn hconn⟩

/-- Two requests, the second while the first is being authenticated, at a server for one
connection. -/
def twoUpgrades : List Act :=
  [.upgrade none, .upgrade (some "10.0.0.1"),
    .authSettles 1 (some { authenticated := true }) .completes 5,
    .authSettles 0 (some { authenticated := true }) .completes 6]

/-- With room for one, the second of two clients is closed with 1013. -/
theorem one_of_two_is_let_in :
    ∃ s, Machine.exec step (new 1 ConnectionExecutor.pool 0) twoUpgrades = some s ∧
      s.transport.connections.size = 1 ∧ s.transport.gauge = 1 ∧
      (s.transport.wsServer.clients 2).closeFrame = some (1013, "Max connections reached") := by
  have hmodel : ConnectionExecutor.create (some "thread-pool") = .ok ConnectionExecutor.pool := rfl
  obtain ⟨s, hrun, hsize, hclose⟩ : ∃ s,
      Machine.exec step (new 1 ConnectionExecutor.pool 0) twoUpgrades = some s ∧
        s.transport.connections.size = 1 ∧
        (s.transport.wsServer.clients 2).closeFrame = some (1013, "Max connections reached") :=
    ⟨_, rfl, rfl, rfl⟩
  obtain ⟨-, -, -, -, -, -, hgauge⟩ := tables_agree hmodel 1 0 twoUpgrades s hrun
  refine ⟨s, hrun, hsize, ?_, hclose⟩
  rw [hgauge (by simp [twoUpgrades]), hsize]
  rfl

end DatasoleServer

end Datasole
