import Datasole.Server.DatasoleServer

/-!
# Frames and shutdown

Two facts about runs of the server that rest on its tables. `frames_stay_with_connection`: the id
under which the pipeline passes a frame on leads back to the connection that the frame came in on,
or to none. `closed_for_good`: once the transport is closed, nothing that is still under way gets
anywhere.
-/

namespace Datasole

open FramePipeline (connectionId Inbound)

namespace DatasoleServer

variable {limit : ℕ} {precise : Prop} {s t : DatasoleServer} {a : Act}

/-! ## Frames -/

/-- The connection handler leaves the frames. -/
theorem frames_onConnection (info : WsServer.Info) (now : ℤ) :
    (s.onConnection info now).waiting = s.waiting ∧
      (s.onConnection info now).receivedCount = s.receivedCount ∧
      (s.onConnection info now).dispatched = s.dispatched := by
  unfold onConnection
  dsimp only
  split <;> exact ⟨rfl, rfl, rfl⟩

/-- Only its own arrival and its own verdict move a frame. -/
theorem frames_step (hs : s.step a = some t) :
    (∃ number raw, a = .receive number raw ∧ (s.transport.conns number).isSome ∧
        t.waiting = s.waiting ++ [⟨s.receivedCount, number, raw⟩] ∧
        t.receivedCount = s.receivedCount + 1 ∧ t.dispatched = s.dispatched) ∨
      (∃ message verdict, a = .limited message verdict ∧ message ∈ s.waiting ∧
        t.waiting = s.waiting.erase message ∧ t.receivedCount = s.receivedCount ∧
        (t.dispatched = s.dispatched ∨ ∃ conn, verdict = .allowed ∧
          s.executor.dispatch (connectionId message.connection) = some conn ∧
          t.dispatched = s.dispatched ++ [(conn, message)])) ∨
      t.waiting = s.waiting ∧ t.receivedCount = s.receivedCount ∧ t.dispatched = s.dispatched := by
  cases a with
  | receive number raw =>
    simp only [step, Option.ite_none_right_eq_some, Option.some.injEq] at hs
    obtain ⟨⟨hsome, -⟩, rfl⟩ := hs
    exact .inl ⟨number, raw, rfl, hsome, rfl, rfl, rfl⟩
  | limited message verdict =>
    simp only [step, Option.ite_none_right_eq_some, Option.some.injEq] at hs
    obtain ⟨hmem, rfl⟩ := hs
    refine .inr (.inl ⟨message, verdict, rfl, hmem, ?_⟩)
    unfold limited
    cases verdict with
    | failed => exact ⟨rfl, rfl, .inl rfl⟩
    | refused error =>
      cases error with
      | none => exact ⟨rfl, rfl, .inl rfl⟩
      | some error =>
        dsimp only
        split <;> exact ⟨rfl, rfl, .inl rfl⟩
    | allowed =>
      dsimp only
      split
      · exact ⟨rfl, rfl, .inl rfl⟩
      · next conn hconn => exact ⟨rfl, rfl, .inr ⟨conn, rfl, hconn, rfl⟩⟩
  | upgrade | sendRaw | broadcastRaw | resetMetrics | close =>
    cases hs
    exact .inr (.inr ⟨rfl, rfl, rfl⟩)
  | authTimeout | peerLeaves | send | closeConnection | closing | transportClosed | sessionsDestroyed =>
    simp only [step, Option.ite_none_right_eq_some, Option.some.injEq] at hs
    obtain ⟨-, rfl⟩ := hs
    exact .inr (.inr ⟨rfl, rfl, rfl⟩)
  | authSettles i result handshake now =>
    simp only [step, Option.ite_none_right_eq_some, Option.some.injEq] at hs
    obtain ⟨-, rfl⟩ := hs
    -- a connection may come, but no frame on it yet
    refine .inr (.inr ?_)
    unfold authSettles
    dsimp only
    split
    · exact ⟨rfl, rfl, rfl⟩
    · exact frames_onConnection _ now
  | closed number =>
    simp only [step, Option.ite_none_right_eq_some, Option.some.injEq] at hs
    obtain ⟨-, rfl⟩ := hs
    refine .inr (.inr ?_)
    cases hconn : s.transport.conns number with
    | none =>
      rw [onClose_of_none hconn]
      exact ⟨rfl, rfl, rfl⟩
    | some conn =>
      rw [onClose_of_some hconn]
      exact ⟨rfl, rfl, rfl⟩

/-- The frame came in on its connection in this run. -/
def Received (start : DatasoleServer) (acts : List Act) (message : Inbound) : Prop :=
  ∃ before after u, acts = before ++ .receive message.connection message.raw :: after ∧
    Machine.exec step start before = some u ∧ u.receivedCount = message.number

/-- The frame came in, and later the limiter allowed it while its connection was live. -/
def HandedOver (start : DatasoleServer) (acts : List Act) (message : Inbound) : Prop :=
  ∃ before after u, acts = before ++ .limited message .allowed :: after ∧
    Machine.exec step start before = some u ∧ u.transport.Live message.connection ∧
    Received start before message

variable {start : DatasoleServer} {acts : List Act} {message : Inbound}

theorem Received.concat (h : Received start acts message) (a : Act) :
    Received start (acts ++ [a]) message := by
  obtain ⟨before, after, u, rfl, hu⟩ := h
  exact ⟨before, after ++ [a], u, by simp, hu⟩

theorem HandedOver.concat (h : HandedOver start acts message) (a : Act) :
    HandedOver start (acts ++ [a]) message := by
  obtain ⟨before, after, u, rfl, hu⟩ := h
  exact ⟨before, after ++ [a], u, by simp, hu⟩

/-- Where the frames come from that are in the pipeline or were handed over. -/
structure FrameLog (limit : ℕ) (start : DatasoleServer) (acts : List Act)
    (s : DatasoleServer) : Prop where
  run : Machine.exec step start acts = some s
  inv : s.Inv limit False
  waiting : ∀ message ∈ s.waiting, Received start acts message
  dispatched : ∀ d ∈ s.dispatched, d.1 = d.2.connection ∧ HandedOver start acts d.2
  number_lt : ∀ n ∈ s.waiting.map Inbound.number ++ s.dispatched.map (·.2.number), n < s.receivedCount
  nodup : (s.waiting.map Inbound.number ++ s.dispatched.map (·.2.number)).Nodup

/-- Every step keeps where the frames come from: those in the pipeline came in, and those handed
over were allowed while their connection was live. -/
theorem FrameLog.step (h : FrameLog limit start acts s) (hs : s.step a = some t) :
    FrameLog limit start (acts ++ [a]) t := by
  have hrun := Machine.exec_concat_eq_some.mpr ⟨s, h.run, hs⟩
  have hinv := h.inv.any_step hs
  have hwaiting : ∀ message ∈ s.waiting, Received start (acts ++ [a]) message :=
    fun message hmem => (h.waiting message hmem).concat a
  have hdispatched :
      ∀ d ∈ s.dispatched, d.1 = d.2.connection ∧ HandedOver start (acts ++ [a]) d.2 :=
    fun d hd => ⟨(h.dispatched d hd).1, (h.dispatched d hd).2.concat a⟩
  rcases frames_step hs with ⟨number, raw, rfl, -, hw, hc, hd⟩ | ⟨message, verdict, rfl, hmem, hw,
    hc, hd⟩ |
    ⟨hw, hc, hd⟩
  · -- the new frame has the next number
    have hnew : s.receivedCount ∉ s.waiting.map Inbound.number ++ s.dispatched.map (·.2.number) :=
      fun hmem => Nat.lt_irrefl _ (h.number_lt _ hmem)
    have hperm : (t.waiting.map Inbound.number ++ t.dispatched.map (·.2.number)).Perm
        (s.receivedCount :: (s.waiting.map Inbound.number ++ s.dispatched.map (·.2.number))) := by
      rw [hw, hd, List.map_append, List.append_assoc]
      exact List.perm_middle
    refine ⟨hrun, hinv, fun message hmem => ?_, hd ▸ hdispatched, fun n hn => ?_, ?_⟩
    · rw [hw] at hmem
      rcases List.mem_append.mp hmem with hmem | hmem
      · exact hwaiting message hmem
      · obtain rfl := List.mem_singleton.mp hmem
        exact ⟨acts, [], s, rfl, h.run, rfl⟩
    · rw [hc]
      rcases List.mem_cons.mp (hperm.mem_iff.mp hn) with rfl | hn
      · exact Nat.lt_succ_self _
      · exact (h.number_lt n hn).trans (Nat.lt_succ_self _)
    · exact hperm.nodup_iff.mpr (List.nodup_cons.mpr ⟨hnew, h.nodup⟩)
  · -- what waited is dropped, refused or dispatched
    have herase :
        ∀ message' ∈ t.waiting, Received start (acts ++ [.limited message verdict]) message' :=
      fun message' hmem' => hwaiting message' (List.mem_of_mem_erase (hw ▸ hmem'))
    rcases hd with hd | ⟨conn, rfl, hconn, hd⟩
    · have hsub : (t.waiting.map Inbound.number ++ t.dispatched.map (·.2.number)).Sublist
          (s.waiting.map Inbound.number ++ s.dispatched.map (·.2.number)) := by
        rw [hw, hd]
        exact (List.erase_sublist.map _).append_right _
      refine ⟨hrun, hinv, herase, hd ▸ hdispatched, fun n hn => ?_, h.nodup.sublist hsub⟩
      exact hc ▸ h.number_lt n (hsub.subset hn)
    · -- the entry under the id of the connection is the connection's
      rw [h.inv.dispatch] at hconn
      obtain ⟨hid, hlive⟩ := (h.inv.entries _ _).mp hconn
      obtain rfl := FramePipeline.connectionId_inj hid
      have hperm : (t.waiting.map Inbound.number ++ t.dispatched.map (·.2.number)).Perm
          (s.waiting.map Inbound.number ++ s.dispatched.map (·.2.number)) := by
        rw [hw, hd, List.map_append, ← List.append_assoc]
        refine (List.perm_append_comm).trans ?_
        rw [List.map_singleton, List.singleton_append, ← List.cons_append, ← List.map_cons]
        exact ((List.perm_cons_erase hmem).symm.map _).append_right _
      refine ⟨hrun, hinv, herase, fun d hmem' => ?_, fun n hn => ?_, hperm.nodup_iff.mpr h.nodup⟩
      · rw [hd] at hmem'
        rcases List.mem_append.mp hmem' with hmem' | hmem'
        · exact hdispatched d hmem'
        · obtain rfl := List.mem_singleton.mp hmem'
          exact ⟨rfl, acts, [], s, rfl, h.run, hlive, h.waiting message hmem⟩
      · exact hc ▸ h.number_lt n (hperm.subset hn)
  · -- no other action touches the frames
    exact ⟨hrun, hinv, hw ▸ hwaiting, hd ▸ hdispatched, by rw [hw, hd, hc]; exact h.number_lt,
      by rw [hw, hd]; exact h.nodup⟩

/-- A new server has no frames. -/
theorem frameLog_new {model : Option String} {executor : ConnectionExecutor}
    (hmodel : ConnectionExecutor.create model = .ok executor) (limit : ℕ) (now : ℤ) :
    FrameLog limit (new limit executor now) [] (new limit executor now) where
  run := rfl
  inv := inv_new hmodel _ _ now
  waiting _ hmem := absurd hmem List.not_mem_nil
  dispatched _ hd := absurd hd List.not_mem_nil
  number_lt _ hn := absurd hn List.not_mem_nil
  nodup := List.nodup_nil

/-- In every run, whichever executor is configured: a frame reaches the router at most once, only
after the limiter has allowed it, with the connection that it came in on, and only while that
connection is live. -/
theorem frames_stay_with_connection {model : Option String} {executor : ConnectionExecutor}
    (hmodel : ConnectionExecutor.create model = .ok executor) (maxConnections : ℕ) (now : ℤ)
    (acts : List Act) (s : DatasoleServer)
    (hrun : Machine.exec DatasoleServer.step (new maxConnections executor now) acts = some s) :
    (∀ d ∈ s.dispatched,
        d.1 = d.2.connection ∧ HandedOver (new maxConnections executor now) acts d.2) ∧
      (s.dispatched.map (·.2.number)).Nodup := by
  have h : FrameLog maxConnections (new maxConnections executor now) acts s :=
    Machine.exec_history (fun acts s a t h hs => h.step hs) (frameLog_new hmodel _ now) hrun
  exact ⟨h.dispatched, h.nodup.of_append_right⟩

/-- The frame of a connection that closes before the verdict goes nowhere, though the next
connection is there; the frame of the next one goes to it. -/
def lateVerdicts : List Act :=
  [.upgrade none, .authSettles 0 (some { authenticated := true }) .completes 1, .receive 1 [7],
    .upgrade none, .authSettles 1 (some { authenticated := true }) .completes 2, .receive 2 [8],
    .closed 1, .limited ⟨1, 2, [8]⟩ .allowed, .limited ⟨0, 1, [7]⟩ .allowed]

/-- A verdict for a connection that has gone hands nothing over. -/
theorem late_verdict_goes_nowhere :
    ∃ s, Machine.exec DatasoleServer.step (new 10 ConnectionExecutor.thread 0) lateVerdicts = some s ∧
      s.dispatched.map Prod.fst = [2] ∧
      ∀ d ∈ s.dispatched, HandedOver (new 10 ConnectionExecutor.thread 0) lateVerdicts d.2 := by
  have hmodel : ConnectionExecutor.create (some "thread") = .ok ConnectionExecutor.thread := rfl
  obtain ⟨s, hrun, hdispatched⟩ : ∃ s,
      Machine.exec DatasoleServer.step (new 10 ConnectionExecutor.thread 0) lateVerdicts = some s ∧
        s.dispatched.map Prod.fst = [2] := ⟨_, rfl, rfl⟩
  obtain ⟨hown, -⟩ := frames_stay_with_connection hmodel 10 0 lateVerdicts s hrun
  exact ⟨s, hrun, hdispatched, fun d hd => (hown d hd).2⟩

/-! ## Shutdown -/

/-- No connection comes, nothing more is sent and no frame is handed over from the one to the
other. -/
structure Ended (s t : DatasoleServer) : Prop where
  wss : t.transport.wsServer.wss = none
  connectionCounter : t.transport.wsServer.connectionCounter = s.transport.wsServer.connectionCounter
  clients : t.transport.wsServer.clients = s.transport.wsServer.clients
  dispatched : t.dispatched = s.dispatched

/-- What has ended in two runs, one after the other, has ended. -/
theorem Ended.trans {u : DatasoleServer} (h : s.Ended t) (h' : t.Ended u) : s.Ended u where
  wss := h'.wss
  connectionCounter := h'.connectionCounter.trans h.connectionCounter
  clients := h'.clients.trans h.clients
  dispatched := h'.dispatched.trans h.dispatched

/-- Where every WebSocket is closed, none of them can be changed. -/
theorem Inv.modifyClient_of_stopped (h : s.Inv limit precise)
    (hnone : s.transport.wsServer.wss = none) (n : ℕ) {f : WebSocket → WebSocket}
    (hf : ∀ w, w.readyState = .closed → f w = w) :
    s.transport.wsServer.modifyClient n f = s.transport.wsServer := by
  unfold WsServer.modifyClient
  rw [hf _ (h.stopped hnone n), Function.update_eq_self]

/-- Without a running `wss` a message goes nowhere. -/
theorem Inv.send_of_stopped (h : s.Inv limit precise) (hnone : s.transport.wsServer.wss = none)
    (data : Bytes) (n : ℕ) : s.transport.send data n = s.transport := by
  rw [ServerTransport.send_eq, h.modifyClient_of_stopped hnone n fun w hw => ?_]
  exact ServerTransport.sendOn_of_closed data _ hw

/-- Without `wss` no step lets anybody in or sends anything. -/
theorem Inv.ended_step (h : s.Inv limit precise) (hnone : s.transport.wsServer.wss = none)
    (hs : s.step a = some t) : s.Ended t := by
  -- without `wss` no connection is in the table, and every WebSocket is closed
  have hempty : s.transport.connections = JsMap.empty := JsMap.eq_empty (h.get_of_stopped hnone)
  have hclosed (n : ℕ) : (s.transport.wsServer.clients n).readyState = .closed := h.stopped hnone n
  cases a with
  | upgrade remoteAddress | resetMetrics =>
    cases hs
    exact ⟨hnone, rfl, rfl, rfl⟩
  | authTimeout | peerLeaves | receive | sessionsDestroyed =>
    simp only [DatasoleServer.step, Option.ite_none_right_eq_some, Option.some.injEq] at hs
    obtain ⟨-, rfl⟩ := hs
    exact ⟨hnone, rfl, rfl, rfl⟩
  | authSettles i result handshake now =>
    simp only [DatasoleServer.step, Option.ite_none_right_eq_some, Option.some.injEq] at hs
    obtain ⟨-, rfl⟩ := hs
    unfold DatasoleServer.authSettles
    rcases s.transport.wsServer.authSettles_cases i result handshake with
    ⟨hinfo, hw⟩ | ⟨auth, -, -, -, hrunning, -⟩
    · dsimp only
      rw [hinfo, hw]
      exact ⟨hnone, rfl, rfl, rfl⟩
    · -- an upgrade is accepted while `wss` runs only
      rw [hnone] at hrunning
      cases hrunning
  | limited message verdict =>
    simp only [DatasoleServer.step, Option.ite_none_right_eq_some, Option.some.injEq] at hs
    obtain ⟨-, rfl⟩ := hs
    have hdispatch :=
      (h.dispatch (connectionId message.connection)).trans (h.get_of_stopped hnone _)
    unfold DatasoleServer.limited
    cases verdict with
    | failed => exact ⟨hnone, rfl, rfl, rfl⟩
    | refused error =>
      cases error with
      | none => exact ⟨hnone, rfl, rfl, rfl⟩
      | some error =>
        simp only [h.get_of_stopped hnone]
        exact ⟨hnone, rfl, rfl, rfl⟩
    | allowed =>
      simp only [hdispatch]
      exact ⟨hnone, rfl, rfl, rfl⟩
  | send number data =>
    simp only [DatasoleServer.step, Option.ite_none_right_eq_some, Option.some.injEq] at hs
    obtain ⟨-, rfl⟩ := hs
    rw [h.send_of_stopped hnone]
    exact ⟨hnone, rfl, rfl, rfl⟩
  | closeConnection number code reason =>
    simp only [DatasoleServer.step, Option.ite_none_right_eq_some, Option.some.injEq] at hs
    obtain ⟨-, rfl⟩ := hs
    have hclose :
        s.transport.wsServer.modifyClient number (.close code reason) = s.transport.wsServer :=
      h.modifyClient_of_stopped hnone number fun w hw =>
        if_neg (by rw [hw]; exact ReadyState.noConfusion)
    -- `close` does nothing to a closed WebSocket
    unfold ServerTransport.closeConnection
    split
    · exact ⟨hnone, rfl, rfl, rfl⟩
    · split
      · rw [hclose]
        exact ⟨hnone, rfl, rfl, rfl⟩
      · exact ⟨hnone, rfl, rfl, rfl⟩
  | sendRaw id data =>
    cases hs
    unfold ServerTransport.sendRaw
    rw [h.get_of_stopped hnone]
    exact ⟨hnone, rfl, rfl, rfl⟩
  | broadcastRaw data =>
    cases hs
    unfold ServerTransport.broadcastRaw
    rw [hempty]
    exact ⟨hnone, rfl, rfl, rfl⟩
  | closing number =>
    -- no WebSocket is open, so none can begin to close or close
    simp only [DatasoleServer.step, hclosed, reduceCtorEq, if_false] at hs
  | closed number =>
    simp only [DatasoleServer.step, hclosed, ne_eq, not_true_eq_false, if_false, reduceCtorEq] at hs
  | close =>
    cases hs
    unfold ServerTransport.beginClose WsServer.stop
    rw [hnone]
    exact ⟨hnone, rfl, rfl, rfl⟩
  | transportClosed =>
    simp only [DatasoleServer.step, Option.ite_none_right_eq_some, Option.some.injEq] at hs
    obtain ⟨-, rfl⟩ := hs
    exact ⟨rfl, rfl, rfl, rfl⟩

/-- Once `stop` has resolved for a call of `close`, whatever was under way and whatever comes: no
WebSocket is accepted any more, every one is closed and is sent nothing, no frame reaches the
router, both tables are empty and the gauge reads 0. -/
theorem closed_for_good {model : Option String} {executor : ConnectionExecutor}
    (hmodel : ConnectionExecutor.create model = .ok executor) (maxConnections : ℕ) (now : ℤ)
    (before after : List Act) (u t : DatasoleServer)
    (hbefore : Machine.exec step (new maxConnections executor now) (before ++ [.transportClosed]) = some u)
    (hafter : Machine.exec step u after = some t) :
    t.transport.wsServer.connectionCounter = u.transport.wsServer.connectionCounter ∧
      (∀ n, (t.transport.wsServer.clients n).readyState = .closed ∧
        (t.transport.wsServer.clients n).sent = (u.transport.wsServer.clients n).sent) ∧
      t.dispatched = u.dispatched ∧
      (∀ id, t.transport.connections.get id = none ∧ t.executor.dispatch id = none) ∧
      t.transport.gauge = 0 := by
  have hinv := inv_exec hmodel hbefore
  have hnone : u.transport.wsServer.wss = none := by
    obtain ⟨v, -, hv⟩ := Machine.exec_concat_eq_some.mp hbefore
    simp only [step, Option.ite_none_right_eq_some, Option.some.injEq] at hv
    obtain ⟨-, rfl⟩ := hv
    rfl
  have hended : t.Inv maxConnections False ∧ u.Ended t := by
    have hstart : u.Inv maxConnections False ∧ u.Ended u :=
      ⟨hinv.imprecise, hnone, rfl, rfl, rfl⟩
    have hkeep (s : DatasoleServer) (a : Act) (t : DatasoleServer)
        (hI : s.Inv maxConnections False ∧ u.Ended s) (hs : s.step a = some t) :
        t.Inv maxConnections False ∧ u.Ended t :=
      ⟨hI.1.any_step hs, hI.2.trans (hI.1.ended_step hI.2.wss hs)⟩
    exact Machine.exec_invariant hkeep hstart hafter
  obtain ⟨hinv, hended⟩ := hended
  have hget := hinv.get_of_stopped hended.wss
  have hsize : t.transport.connections.size = 0 := by
    rw [JsMap.eq_empty hget]
    rfl
  refine ⟨hended.connectionCounter, fun n => ⟨hinv.stopped hended.wss n, ?_⟩, hended.dispatched,
    fun id => ⟨hget id, (hinv.dispatch id).trans (hget id)⟩, ?_⟩
  · rw [hended.clients]
  · have hnonneg := hinv.gauge_nonneg
    have hle := hinv.gauge_le
    omega

/-- `close` with a connection open and a request being authenticated. -/
def closing : List Act :=
  [.upgrade none, .authSettles 0 (some { authenticated := true }) .completes 1, .upgrade none, .close,
    .closed 1]

/-- What is under way then comes too late. -/
def tooLate : List Act :=
  [.authSettles 1 (some { authenticated := true }) .completes 2, .broadcastRaw [1], .sessionsDestroyed,
    .sendRaw "conn-1" [2]]

/-- After `close` an upgrade, a frame and a message come to nothing. -/
theorem too_late_after_close :
    ∃ u t, Machine.exec step (new 10 (.async .new) 0) (closing ++ [.transportClosed]) = some u ∧
      Machine.exec step u tooLate = some t ∧ t.transport.wsServer.connectionCounter = 1 ∧
      (t.transport.wsServer.clients 1).sent = [] ∧ t.transport.gauge = 0 := by
  have hmodel : ConnectionExecutor.create none = .ok (.async .new) := rfl
  obtain ⟨u, hbefore, hcounter, hsent⟩ : ∃ u,
      Machine.exec step (new 10 (.async .new) 0) (closing ++ [.transportClosed]) = some u ∧
        u.transport.wsServer.connectionCounter = 1 ∧ (u.transport.wsServer.clients 1).sent = [] :=
    ⟨_, rfl, rfl, rfl⟩
  obtain ⟨t, hafter⟩ : ∃ t, Machine.exec step u tooLate = some t := by
    cases hbefore
    exact ⟨_, rfl⟩
  obtain ⟨hsame, hclients, -, -, hgauge⟩ :=
    closed_for_good hmodel 10 0 closing tooLate u t hbefore hafter
  exact ⟨u, t, hbefore, hafter, hsame.trans hcounter, (hclients 1).2.trans hsent, hgauge⟩

end DatasoleServer

end Datasole
