import Datasole.Server.DatasoleServer

/-!
# What a connection is sent

A broadcast goes to whoever is in the transport's table, a message for an id to whom the table
names, and `Connection.send` drops what comes when the socket is not open. `sent_in_window` says
what this amounts to: a connection is sent every broadcast and every message of its own, once and in
order, from the moment it is let in to the first thing that closes it, and nothing else.
-/

namespace Datasole

open FramePipeline (connectionId Inbound)

namespace ServerTransport

/-- Messages to the connection go out. -/
def Open (t : ServerTransport) (n : ℕ) : Prop :=
  (t.conns n).any Connection.ws = true ∧ (t.wsServer.clients n).readyState = .open

def sent (t : ServerTransport) (n : ℕ) : List Bytes := (t.wsServer.clients n).sent

/-- What an operation does to a connection: whether it stays open, and what it is sent. -/
structure Moves (n : ℕ) (t t' : ServerTransport) (stays : Bool) (messages : List Bytes) : Prop where
  isSome : (t'.conns n).isSome
  isOpen : t'.Open n ↔ t.Open n ∧ stays = true
  sent_of_open : t.Open n → t'.sent n = t.sent n ++ messages
  sent_of_not_open : ¬ t.Open n → t'.sent n = t.sent n

variable {n : ℕ} {t t' : ServerTransport} {data : Bytes}

/-- An operation that leaves the connection and its WebSocket sends nothing. -/
theorem moves_same (hsome : (t.conns n).isSome) (hconns : t'.conns n = t.conns n)
    (hclients : t'.wsServer.clients n = t.wsServer.clients n) : Moves n t t' true [] := by
  have hsent : t'.sent n = t.sent n := congrArg WebSocket.sent hclients
  refine ⟨hconns ▸ hsome, ?_, fun _ => by rw [hsent, List.append_nil], fun _ => hsent⟩
  unfold Open
  rw [hconns, hclients, eq_self, and_true]

/-- The connection gets a message, and the rest of it stays. -/
theorem moves_sendOn (hsome : (t.conns n).isSome) (hconns : t'.conns n = t.conns n)
    (hclients : t'.wsServer.clients n = sendOn data (t.conns n) (t.wsServer.clients n)) :
    Moves n t t' true [data] := by
  by_cases hopen : t.Open n
  · have hsend : t'.wsServer.clients n =
        { t.wsServer.clients n with sent := t.sent n ++ [data] } := by
      rw [hclients, sendOn, if_pos hopen.1, WebSocket.send, if_pos hopen.2]
      rfl
    refine ⟨hconns ▸ hsome, ?_, fun _ => congrArg WebSocket.sent hsend,
      fun hnot => absurd hopen hnot⟩
    rw [eq_self, and_true]
    refine iff_of_true ⟨?_, ?_⟩ hopen
    · rw [hconns]
      exact hopen.1
    · rw [hsend]
      exact hopen.2
  · have hsame : t'.wsServer.clients n = t.wsServer.clients n := by
      rw [hclients, sendOn]
      split
      · next hws => exact if_neg fun hstate => hopen ⟨hws, hstate⟩
      · rfl
    have h := moves_same hsome hconns hsame
    exact ⟨h.isSome, h.isOpen, fun hopen' => absurd hopen' hopen, h.sent_of_not_open⟩

/-- A message goes out on its connection, and on no other. -/
theorem moves_send (hsome : (t.conns n).isSome) (data : Bytes) (m : ℕ) :
    Moves n t (t.send data m) true (if m = n then [data] else []) := by
  rw [send_eq]
  split
  · next hm =>
    subst hm
    refine moves_sendOn hsome rfl ?_
    rw [WsServer.clients_modifyClient, if_pos rfl]
  · next hm =>
    refine moves_same hsome rfl ?_
    rw [WsServer.clients_modifyClient, if_neg (Ne.symm hm)]

/-- Something closes the socket, if it was open. -/
theorem moves_closed (hsome : (t'.conns n).isSome)
    (hstate : (t'.wsServer.clients n).readyState ≠ .open)
    (hsent : (t'.wsServer.clients n).sent = (t.wsServer.clients n).sent) : Moves n t t' false [] := by
  refine ⟨hsome, ?_, fun _ => hsent.trans (List.append_nil _).symm, fun _ => hsent⟩
  exact iff_of_false (fun hopen => hstate hopen.2) fun hopen => Bool.false_ne_true hopen.2

/-- What closes one WebSocket, and sends nothing, closes its connection alone. -/
theorem moves_modify (hsome : (t.conns n).isSome) (m : ℕ) {f : WebSocket → WebSocket}
    (hstate : ∀ w, (f w).readyState ≠ .open) (hsent : ∀ w, (f w).sent = w.sent) :
    Moves n t { t with wsServer := t.wsServer.modifyClient m f } (!decide (m = n)) [] := by
  have hclients := t.wsServer.clients_modifyClient m n f
  by_cases hm : m = n
  · rw [decide_eq_true hm]
    rw [if_pos hm.symm] at hclients
    exact moves_closed hsome (hclients ▸ hstate _) ((congrArg WebSocket.sent hclients).trans (hsent _))
  · rw [decide_eq_false hm]
    rw [if_neg (Ne.symm hm)] at hclients
    exact moves_same hsome rfl hclients

/-- A connection that is closed is sent nothing more by it, and the others stay. -/
theorem moves_closeConnection (hsome : (t.conns n).isSome) (m code : ℕ) (reason : String) :
    Moves n t (t.closeConnection m code reason) (!decide (m = n)) [] := by
  have hclients := t.wsServer.clients_modifyClient m n (.close code reason)
  unfold closeConnection
  by_cases hm : m = n
  · subst hm
    rw [decide_eq_true rfl]
    rw [if_pos rfl] at hclients
    obtain ⟨conn, hconn⟩ := Option.isSome_iff_exists.mp hsome
    simp only [hconn]
    split
    · obtain ⟨hstate, hsent⟩ := (t.wsServer.clients m).not_open_close code reason
      refine moves_closed ?_ (hclients ▸ hstate) ((congrArg WebSocket.sent hclients).trans hsent)
      change (Function.update t.conns m (some { conn with ws := false }) m).isSome
      rw [Function.update_self]
      rfl
    · next hws =>
      -- its socket has been closed through it before
      have hnot : ¬ t.Open m := fun hopen => hws (by simpa [hconn] using hopen.1)
      refine ⟨hsome, iff_of_false hnot fun hopen => hnot hopen.1, fun hopen => absurd hopen hnot,
        fun _ => rfl⟩
  · rw [decide_eq_false hm]
    rw [if_neg (Ne.symm hm)] at hclients
    split
    · exact moves_same hsome rfl rfl
    · split
      · exact moves_same hsome (Function.update_of_ne (Ne.symm hm) ..) hclients
      · exact moves_same hsome rfl rfl

/-- The connection handler touches no other connection. -/
theorem onConnection_other (t : ServerTransport) (info : WsServer.Info) (hn : n ≠ info.number)
    (now : ℤ) :
    (t.onConnection info now).1.conns n = t.conns n ∧
      (t.onConnection info now).1.wsServer.clients n = t.wsServer.clients n := by
  unfold onConnection
  split
  · exact ⟨rfl, (WsServer.clients_modifyClient ..).trans (if_neg hn)⟩
  · exact ⟨Function.update_of_ne hn .., rfl⟩

/-- The connection handler makes the connection of its WebSocket, if any. -/
theorem onConnection_new {info : WsServer.Info} {now : ℤ} (hnew : t.conns n = none)
    (hsome : ((t.onConnection info now).1.conns n).isSome) :
    n = info.number ∧ (t.onConnection info now).1.conns n = some (.new info now) ∧
      (t.onConnection info now).1.wsServer = t.wsServer := by
  unfold onConnection at hsome ⊢
  by_cases hroom : t.maxConnections ≤ t.connections.size
  · rw [if_pos hroom] at hsome
    change (t.conns n).isSome at hsome
    rw [hnew] at hsome
    cases hsome
  · rw [if_neg hroom] at hsome ⊢
    change (Function.update t.conns info.number (some (.new info now)) n).isSome at hsome
    by_cases hn : n = info.number
    · subst hn
      exact ⟨rfl, Function.update_self .., rfl⟩
    · rw [Function.update_of_ne hn, hnew] at hsome
      cases hsome

end ServerTransport

namespace DatasoleServer

/-- The action closes the connection, if it is open. -/
def closes (n : ℕ) : Act → Bool
  | .closing m | .closed m | .closeConnection m _ _ => m = n
  | .close => true
  | _ => false

/-- What the action has for the connection. -/
def messageFor (n : ℕ) : Act → List Bytes
  | .send m data => if m = n then [data] else []
  | .sendRaw id data => if id = connectionId n then [data] else []
  | .broadcastRaw data => [data]
  | .limited message (.refused (some error)) => if message.connection = n then [error] else []
  | _ => []

variable {limit : ℕ} {precise : Prop} {s t : DatasoleServer} {a : Act} {n : ℕ}

open ServerTransport (Moves moves_same moves_send moves_sendOn moves_closed moves_modify
  moves_closeConnection)

/-- An id leads to the connection exactly while it is live. -/
theorem Inv.get_connectionId (h : s.Inv limit precise) (n : ℕ) :
    s.transport.connections.get (connectionId n) = some n ↔ s.transport.Live n :=
  (h.entries _ _).trans (and_iff_right rfl)

/-- A message for an id goes to the connection with the id, which drops it if it is not open. -/
theorem Inv.moves_id (h : s.Inv limit precise) (hsome : (s.transport.conns n).isSome) (id : String)
    (data : Bytes) : Moves n s.transport
      ((s.transport.connections.get id).elim s.transport (s.transport.send data)) true
      (if id = connectionId n then [data] else []) := by
  cases hget : s.transport.connections.get id with
  | none =>
    split
    · next hid =>
      -- the connection is not live, so it drops what it is sent
      have hclosed : s.transport.Closed n := by
        by_contra hopen
        rw [hid, (h.get_connectionId n).mpr ⟨hsome, hopen⟩] at hget
        cases hget
      exact moves_sendOn hsome rfl (ServerTransport.sendOn_of_closed data _ hclosed).symm
    · exact moves_same hsome rfl rfl
  | some m =>
    obtain ⟨rfl, -⟩ := (h.entries _ _).mp hget
    have hiff : connectionId m = connectionId n ↔ m = n :=
      ⟨FramePipeline.connectionId_inj, congrArg connectionId⟩
    rw [if_congr hiff rfl rfl]
    exact moves_send hsome _ m

/-- A broadcast reaches each connection with one message. -/
theorem Inv.moves_broadcastRaw (h : s.Inv limit precise) (hsome : (s.transport.conns n).isSome)
    (data : Bytes) : Moves n s.transport (s.transport.broadcastRaw data) true [data] := by
  have hvalues : s.transport.connections.values.Nodup :=
    JsMap.nodup_values fun k k' m hk hk' =>
      (((h.entries _ _).mp hk).1).trans ((h.entries _ _).mp hk').1.symm
  have hclients := s.transport.clients_broadcastRaw data hvalues n
  have hconns : (s.transport.broadcastRaw data).conns n = s.transport.conns n := by
    simp only [ServerTransport.broadcastRaw, ServerTransport.countOut, ServerTransport.foldl_send]
  refine moves_sendOn hsome hconns ?_
  rw [hclients]
  split
  · rfl
  · next hmem =>
    have hclosed : s.transport.Closed n := by
      by_contra hopen
      exact hmem (JsMap.mem_values.mpr ⟨_, (h.get_connectionId n).mpr ⟨hsome, hopen⟩⟩)
    exact (ServerTransport.sendOn_of_closed data _ hclosed).symm

/-- The transport does its part, whatever the executor does. -/
theorem transport_onConnection (info : WsServer.Info) (now : ℤ) :
    (s.onConnection info now).transport = (s.transport.onConnection info now).1 := by
  unfold onConnection
  dsimp only
  split <;> rfl

/-- A WebSocket that is let in sends nothing to those that are there. -/
theorem Inv.moves_authSettles (h : s.Inv limit precise) (hsome : (s.transport.conns n).isSome)
    (i : ℕ)
    (result : Option AuthResult) (handshake : Handshake) (now : ℤ) :
    Moves n s.transport (s.authSettles i result handshake now).transport true [] := by
  have hle := h.number_le n hsome
  unfold DatasoleServer.authSettles
  rcases s.transport.wsServer.authSettles_cases i result handshake with
    ⟨hnone, hw⟩ | ⟨auth, -, -, -, -, -, hinfo, hw⟩
  · dsimp only
    rw [hnone, hw]
    exact moves_same hsome rfl rfl
  · -- the new WebSocket has another number
    dsimp only
    rw [hinfo, hw]
    have hne : n ≠ s.transport.wsServer.connectionCounter + 1 := by omega
    have hclients (upgrades : ℕ → Upgrade) :
        (s.transport.wsServer.accepted upgrades).clients n = s.transport.wsServer.clients n := by
      rw [WsServer.clients_accepted, if_neg hne]
    change Moves n s.transport (DatasoleServer.onConnection _ _ now).transport true []
    rw [transport_onConnection]
    obtain ⟨hconns, hclient⟩ := ServerTransport.onConnection_other
      (s.withWsServer (s.transport.wsServer.accepted
        (s.transport.wsServer.authSettles i result handshake).1.upgrades)).transport
      ⟨_, (s.transport.wsServer.upgrades i).remoteAddress.getD "unknown", auth⟩ hne now
    exact moves_same hsome hconns (hclient.trans (hclients _))

/-- One step, as a connection sees it. -/
theorem Inv.moves_step (h : s.Inv limit precise) (hsome : (s.transport.conns n).isSome)
    (hs : s.step a = some t) :
    Moves n s.transport t.transport (!closes n a) (messageFor n a) := by
  cases a with
  | upgrade | resetMetrics =>
    cases hs
    exact moves_same hsome rfl rfl
  | authTimeout | peerLeaves | receive | sessionsDestroyed =>
    simp only [DatasoleServer.step, Option.ite_none_right_eq_some, Option.some.injEq] at hs
    obtain ⟨-, rfl⟩ := hs
    exact moves_same hsome rfl rfl
  | authSettles i result handshake now =>
    simp only [DatasoleServer.step, Option.ite_none_right_eq_some, Option.some.injEq] at hs
    obtain ⟨-, rfl⟩ := hs
    exact h.moves_authSettles hsome i result handshake now
  | limited message verdict =>
    simp only [DatasoleServer.step, Option.ite_none_right_eq_some, Option.some.injEq] at hs
    obtain ⟨-, rfl⟩ := hs
    unfold DatasoleServer.limited
    cases verdict with
    | failed => exact moves_same hsome rfl rfl
    | refused error =>
      cases error with
      | none => exact moves_same hsome rfl rfl
      | some error =>
        -- the ERROR frame goes to `n` if the message came on it
        have hmoves := h.moves_id hsome (connectionId message.connection) error
        have hiff : connectionId message.connection = connectionId n ↔ message.connection = n :=
          ⟨FramePipeline.connectionId_inj, congrArg connectionId⟩
        rw [if_congr hiff rfl rfl] at hmoves
        dsimp only
        cases hget : s.transport.connections.get (connectionId message.connection) with
        | none | some _ =>
          rw [hget] at hmoves
          exact ⟨hmoves.isSome, hmoves.isOpen, hmoves.sent_of_open, hmoves.sent_of_not_open⟩
    | allowed =>
      dsimp only
      split <;> exact moves_same hsome rfl rfl
  | send m data =>
    simp only [DatasoleServer.step, Option.ite_none_right_eq_some, Option.some.injEq] at hs
    obtain ⟨-, rfl⟩ := hs
    have hmoves := moves_send hsome data m
    exact ⟨hmoves.isSome, hmoves.isOpen, hmoves.sent_of_open, hmoves.sent_of_not_open⟩
  | sendRaw id data =>
    cases hs
    have hmoves := h.moves_id hsome id data
    unfold ServerTransport.sendRaw
    cases hget : s.transport.connections.get id with
    | none | some _ =>
      rw [hget] at hmoves
      exact ⟨hmoves.isSome, hmoves.isOpen, hmoves.sent_of_open, hmoves.sent_of_not_open⟩
  | broadcastRaw data =>
    cases hs
    exact h.moves_broadcastRaw hsome data
  | closeConnection m code reason =>
    simp only [DatasoleServer.step, Option.ite_none_right_eq_some, Option.some.injEq] at hs
    obtain ⟨-, rfl⟩ := hs
    exact moves_closeConnection hsome m code reason
  | closing m =>
    simp only [DatasoleServer.step, Option.ite_none_right_eq_some, Option.some.injEq] at hs
    obtain ⟨-, rfl⟩ := hs
    exact moves_modify hsome m (fun w => ReadyState.noConfusion) fun w => rfl
  | closed m =>
    simp only [DatasoleServer.step, Option.ite_none_right_eq_some, Option.some.injEq] at hs
    obtain ⟨-, rfl⟩ := hs
    -- the WebSocket of `n` closes if `m` is `n`
    have hmoves : Moves n s.transport (s.withClosed m) (!decide (m = n)) [] :=
      moves_modify hsome m (fun w => ReadyState.noConfusion) fun w => rfl
    cases hconn : s.transport.conns m with
    | none =>
      rw [onClose_of_none hconn]
      exact hmoves
    | some conn =>
      rw [onClose_of_some hconn]
      exact ⟨hmoves.isSome, hmoves.isOpen, hmoves.sent_of_open, hmoves.sent_of_not_open⟩
  | close =>
    cases hs
    have hclients := s.transport.wsServer.clients_stop n
    -- without `wss` everything is closed already
    by_cases hwss : s.transport.wsServer.wss = none
    · rw [if_neg fun hand => hand.1 hwss] at hclients
      have hclosed : (s.transport.wsServer.stop.clients n).readyState = .closed :=
        hclients ▸ h.stopped hwss n
      refine moves_closed hsome ?_ (congrArg WebSocket.sent hclients)
      exact hclosed ▸ ReadyState.noConfusion
    · rw [if_pos ⟨hwss, h.number_le n hsome⟩] at hclients
      obtain ⟨hstate, hsent⟩ :=
        (s.transport.wsServer.clients n).not_open_close 1001 "Server shutting down"
      exact moves_closed hsome (hclients ▸ hstate) ((congrArg WebSocket.sent hclients).trans hsent)
  | transportClosed =>
    simp only [DatasoleServer.step, Option.ite_none_right_eq_some, Option.some.injEq] at hs
    obtain ⟨⟨-, hdrained⟩, rfl⟩ := hs
    exact moves_same hsome rfl rfl

/-- An action that closes a connection has nothing for it. -/
theorem messageFor_of_closes (h : closes n a = true) : messageFor n a = [] := by
  cases a with
  | closing | closed | closeConnection | close => rfl
  | _ => cases h

/-- A connection that is not open stays so and is sent nothing. -/
theorem sent_of_not_open (hinv : s.Inv limit precise) (hsome : (s.transport.conns n).isSome)
    (hnot : ¬ s.transport.Open n) {acts : List Act} (hrun : Machine.exec step s acts = some t) :
    t.transport.sent n = s.transport.sent n := by
  induction acts generalizing s precise with
  | nil => cases hrun; rfl
  | cons a acts ih =>
    obtain ⟨u, hu, hrun⟩ := Machine.exec_cons_eq_some.mp hrun
    have hmoves := hinv.moves_step hsome hu
    have hinv' := hinv.any_step hu
    have hrest := ih hinv' hmoves.isSome (fun hopen => hnot (hmoves.isOpen.mp hopen).1) hrun
    exact hrest.trans (hmoves.sent_of_not_open hnot)

/-- An open connection is sent what the run has for it, up to the first action that closes it. -/
theorem sent_of_open (hinv : s.Inv limit precise) (hsome : (s.transport.conns n).isSome)
    (hopen : s.transport.Open n) {acts : List Act} (hrun : Machine.exec step s acts = some t) :
    t.transport.sent n = s.transport.sent n ++
      (acts.takeWhile fun a => !closes n a).flatMap (messageFor n) := by
  induction acts generalizing s precise with
  | nil =>
    cases hrun
    exact (List.append_nil _).symm
  | cons a acts ih =>
    obtain ⟨u, hu, hrun⟩ := Machine.exec_cons_eq_some.mp hrun
    have hmoves := hinv.moves_step hsome hu
    have hinv' := hinv.any_step hu
    have hsent := hmoves.sent_of_open hopen
    cases hcloses : closes n a with
    | false =>
      have hrest := ih hinv' hmoves.isSome (hmoves.isOpen.mpr ⟨hopen, by rw [hcloses]; rfl⟩) hrun
      rw [List.takeWhile_cons_of_pos (by rw [hcloses]; rfl), List.flatMap_cons, hrest, hsent,
        List.append_assoc]
    | true =>
      have hnot : ¬ u.transport.Open n := fun hopen' => by
        have hstays := (hmoves.isOpen.mp hopen').2
        rw [hcloses] at hstays
        cases hstays
      rw [List.takeWhile_cons_of_neg (by rw [hcloses]; exact Bool.false_ne_true),
        sent_of_not_open hinv' hmoves.isSome hnot hrun, hsent, messageFor_of_closes hcloses]
      rfl

/-- A connection that comes is open, and was sent nothing. -/
theorem open_of_authSettles {i : ℕ} {result : Option AuthResult} {handshake : Handshake} {now : ℤ}
    (hnew : s.transport.conns n = none)
    (hsome : ((s.authSettles i result handshake now).transport.conns n).isSome) :
    (s.authSettles i result handshake now).transport.Open n ∧
      (s.authSettles i result handshake now).transport.sent n = [] := by
  unfold authSettles at hsome ⊢
  dsimp only at hsome ⊢
  rcases s.transport.wsServer.authSettles_cases i result handshake with
    ⟨hnone, hw⟩ | ⟨auth, -, -, -, -, -, hinfo, hw⟩
  · rw [hnone] at hsome
    change (s.transport.conns n).isSome at hsome
    rw [hnew] at hsome
    cases hsome
  · rw [hinfo, hw] at hsome ⊢
    change ((DatasoleServer.onConnection _ _ now).transport.conns n).isSome at hsome
    change (DatasoleServer.onConnection _ _ now).transport.Open n ∧
      (DatasoleServer.onConnection _ _ now).transport.sent n = []
    rw [transport_onConnection] at hsome ⊢
    obtain ⟨hn, hconn, hsame⟩ := ServerTransport.onConnection_new (by exact hnew) hsome
    have hclient := (s.transport.wsServer.clients_accepted
      (s.transport.wsServer.authSettles i result handshake).1.upgrades n).trans (if_pos hn)
    unfold ServerTransport.Open ServerTransport.sent
    rw [hconn, hsame]
    exact ⟨⟨rfl, congrArg WebSocket.readyState hclient⟩, congrArg WebSocket.sent hclient⟩

/-- A connection that a step makes is open and has been sent nothing. -/
theorem open_of_new (hs : s.step a = some t) (hnew : s.transport.conns n = none)
    (hsome : (t.transport.conns n).isSome) : t.transport.Open n ∧ t.transport.sent n = [] := by
  -- no other step makes one
  have hold (h : (t.transport.conns n).isSome = (s.transport.conns n).isSome) :
      t.transport.Open n ∧ t.transport.sent n = [] := by
    rw [h, hnew] at hsome
    cases hsome
  cases a with
  | authSettles i result handshake now =>
    simp only [step, Option.ite_none_right_eq_some, Option.some.injEq] at hs
    obtain ⟨-, rfl⟩ := hs
    exact open_of_authSettles hnew hsome
  | upgrade | resetMetrics | close =>
    cases hs
    exact hold rfl
  | sendRaw id data =>
    cases hs
    exact hold ((ServerTransport.keeps_sendRaw id).isSome n)
  | broadcastRaw data =>
    cases hs
    exact hold (ServerTransport.keeps_broadcastRaw.isSome n)
  | authTimeout | peerLeaves | receive | closing | transportClosed | sessionsDestroyed =>
    simp only [step, Option.ite_none_right_eq_some, Option.some.injEq] at hs
    obtain ⟨-, rfl⟩ := hs
    exact hold rfl
  | send m data =>
    simp only [step, Option.ite_none_right_eq_some, Option.some.injEq] at hs
    obtain ⟨-, rfl⟩ := hs
    exact hold ((ServerTransport.keeps_send m).isSome n)
  | closeConnection m code reason =>
    simp only [step, Option.ite_none_right_eq_some, Option.some.injEq] at hs
    obtain ⟨-, rfl⟩ := hs
    exact hold ((ServerTransport.keeps_closeConnection m code reason).isSome n)
  | limited message verdict =>
    simp only [step, Option.ite_none_right_eq_some, Option.some.injEq] at hs
    obtain ⟨-, rfl⟩ := hs
    refine hold ?_
    unfold limited
    cases verdict with
    | failed => rfl
    | refused error =>
      cases error with
      | none => rfl
      | some error =>
        dsimp only
        split
        · rfl
        · exact (ServerTransport.keeps_send _).isSome n
    | allowed =>
      dsimp only
      split <;> rfl
  | closed m =>
    simp only [step, Option.ite_none_right_eq_some, Option.some.injEq] at hs
    obtain ⟨-, rfl⟩ := hs
    refine hold ?_
    cases hconn : s.transport.conns m with
    | none => rw [onClose_of_none hconn]; rfl
    | some conn => rw [onClose_of_some hconn]; rfl

/-- What is on a connection was there before the step, or the step has it for the connection. -/
theorem Inv.mem_sent_step (hinv : s.Inv limit precise) (hs : s.step a = some t)
    (hsome : (t.transport.conns n).isSome) {message : Bytes} (hmem : message ∈ t.transport.sent n) :
    (s.transport.conns n).isSome ∧ message ∈ s.transport.sent n ∨ message ∈ messageFor n a := by
  by_cases hold : (s.transport.conns n).isSome
  · have hmoves := hinv.moves_step hold hs
    by_cases hopen : s.transport.Open n
    · rw [hmoves.sent_of_open hopen] at hmem
      exact (List.mem_append.mp hmem).imp_left fun hmem => ⟨hold, hmem⟩
    · rw [hmoves.sent_of_not_open hopen] at hmem
      exact .inl ⟨hold, hmem⟩
  · rw [(open_of_new hs (Option.not_isSome_iff_eq_none.mp hold) hsome).2] at hmem
    cases hmem

/-- So it is over a run. -/
theorem Inv.mem_sent_exec (hinv : s.Inv limit precise) {acts : List Act}
    (hrun : Machine.exec DatasoleServer.step s acts = some t) (hsome : (t.transport.conns n).isSome)
    {message : Bytes} (hmem : message ∈ t.transport.sent n) :
    (s.transport.conns n).isSome ∧ message ∈ s.transport.sent n ∨
      ∃ a ∈ acts, message ∈ messageFor n a := by
  induction acts generalizing s precise with
  | nil =>
    cases hrun
    exact .inl ⟨hsome, hmem⟩
  | cons a acts ih =>
    obtain ⟨u, hu, hrun⟩ := Machine.exec_cons_eq_some.mp hrun
    rcases ih (hinv.any_step hu) hrun with ⟨hsome', hmem'⟩ | ⟨b, hb, hmem'⟩
    · exact (hinv.mem_sent_step hu hsome' hmem').imp_right fun hmem => ⟨a, List.mem_cons_self, hmem⟩
    · exact .inr ⟨b, List.mem_cons_of_mem _ hb, hmem'⟩

/-- What a run does to a connection that is there already. -/
theorem Inv.onward (hinv : s.Inv limit precise) (hsome : (s.transport.conns n).isSome)
    {acts : List Act}
    (hrun : Machine.exec DatasoleServer.step s acts = some t) : (t.transport.conns n).isSome ∧
      (t.transport.Open n → s.transport.Open n) ∧ s.transport.sent n <+: t.transport.sent n := by
  induction acts generalizing s precise with
  | nil =>
    cases hrun
    exact ⟨hsome, fun h => h, List.prefix_refl _⟩
  | cons a acts ih =>
    obtain ⟨u, hu, hrun⟩ := Machine.exec_cons_eq_some.mp hrun
    have hmoves := hinv.moves_step hsome hu
    obtain ⟨hsome', hopen, hsent⟩ := ih (hinv.any_step hu) hmoves.isSome hrun
    refine ⟨hsome', fun h => (hmoves.isOpen.mp (hopen h)).1, List.IsPrefix.trans ?_ hsent⟩
    by_cases h : s.transport.Open n
    · rw [hmoves.sent_of_open h]
      exact List.prefix_append _ _
    · rw [hmoves.sent_of_not_open h]

/-- The connection is not there yet, or it is open. -/
def NotClosed (s : DatasoleServer) (n : ℕ) : Prop :=
  s.transport.conns n = none ∨ s.transport.Open n

/-- What is not closed after a run was not closed before. -/
theorem Inv.notClosed_of_exec (hinv : s.Inv limit precise) {acts : List Act}
    (hrun : Machine.exec DatasoleServer.step s acts = some t) (h : t.NotClosed n) : s.NotClosed n := by
  cases hconn : s.transport.conns n with
  | none => exact .inl hconn
  | some conn =>
    obtain ⟨hsome, hopen, -⟩ := hinv.onward (Option.isSome_of_eq_some hconn) hrun
    rcases h with hnone | h
    · rw [hnone] at hsome
      cases hsome
    · exact .inr (hopen h)

/-- A connection that messages reach is live. -/
theorem live_of_open (h : s.transport.Open n) : s.transport.Live n := by
  refine ⟨?_, fun hclosed => ?_⟩
  · obtain ⟨hws, -⟩ := h
    cases hconn : s.transport.conns n with
    | none =>
      rw [hconn] at hws
      cases hws
    | some conn => rfl
  · have hstate := h.2
    rw [hclosed] at hstate
    cases hstate

/-- In every run, whichever executor is configured: a connection that a step makes is sent, from
then on, what the broadcasts and the messages for it are, each once and in order, up to the first
action that closes it, and nothing after that. -/
theorem sent_in_window {model : Option String} {executor : ConnectionExecutor}
    (hmodel : ConnectionExecutor.create model = .ok executor) (maxConnections : ℕ) (now : ℤ)
    (before : List Act) (a : Act) (after : List Act) (s u t : DatasoleServer) (n : ℕ)
    (hbefore : Machine.exec step (new maxConnections executor now) before = some s)
    (hs : s.step a = some u) (hafter : Machine.exec step u after = some t)
    (hnew : s.transport.conns n = none) (hsome : (u.transport.conns n).isSome) :
    t.transport.sent n = (after.takeWhile fun a => !closes n a).flatMap (messageFor n) := by
  obtain ⟨hopen, hsent⟩ := open_of_new hs hnew hsome
  have hinv := (inv_exec hmodel hbefore).any_step hs
  rw [sent_of_open hinv hsome hopen hafter, hsent, List.nil_append]

/-- A connection that comes between two broadcasts, and one that is closed before the last. -/
def broadcasts : List Act :=
  [.broadcastRaw [1], .upgrade none, .authSettles 1 (some { authenticated := true }) .completes 2,
    .broadcastRaw [2], .sendRaw "conn-1" [3], .sendRaw "conn-2" [4], .closing 1, .broadcastRaw [5]]

/-- A connection that is there for a broadcast is sent it. -/
theorem first_connection_is_sent :
    ∃ s u t, Machine.exec step (new 10 (.async .new) 0) [.upgrade none] = some s ∧
      s.step (.authSettles 0 (some { authenticated := true }) .completes 1) = some u ∧
      Machine.exec step u broadcasts = some t ∧ t.transport.sent 1 = [[1], [2], [3]] := by
  have hmodel : ConnectionExecutor.create none = .ok (.async .new) := rfl
  obtain ⟨s, u, t, hbefore, hs, hafter, hnew, hsome⟩ : ∃ s u t,
      Machine.exec step (new 10 (.async .new) 0) [.upgrade none] = some s ∧
        s.step (.authSettles 0 (some { authenticated := true }) .completes 1) = some u ∧
        Machine.exec step u broadcasts = some t ∧ s.transport.conns 1 = none ∧
        (u.transport.conns 1).isSome := ⟨_, _, _, rfl, rfl, rfl, rfl, rfl⟩
  refine ⟨s, u, t, hbefore, hs, hafter, ?_⟩
  rw [sent_in_window hmodel 10 0 _ _ broadcasts s u t 1 hbefore hs hafter hnew hsome]
  decide

end DatasoleServer

end Datasole
