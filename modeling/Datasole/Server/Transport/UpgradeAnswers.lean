import Datasole.Server.DatasoleServer

/-!
# Answers to upgrade requests

While an upgrade request is authenticated three things race: the auth handler settles, the timer of
`handleUpgrade` fires, or the peer goes away. What comes first decides the answer, and what comes
later finds the socket destroyed or the call over: `upgrade_answered_once` gives the answer of every
request in every run, and says that a request that has none can still be timed out.
-/

namespace Datasole

/-! ## What happens to one request -/

namespace Upgrade

/-- Nothing has happened to the request. -/
structure Fresh (u : Upgrade) : Prop where
  authenticating : u.authenticating = true
  authTimer : u.authTimer = true
  destroyed : u.destroyed = false
  responses : u.responses = []

/-- Nothing can be written any more, or the request has been answered. -/
def Spent (u : Upgrade) : Prop :=
  u.destroyed = true ∨ u.authenticating = false ∧ u.authTimer = false ∧ u.responses ≠ []

/-- `handleUpgrade` from its `await` on, as the request sees it. -/
def settle (u : Upgrade) (wss : Option WebSocketServer) (result : Option AuthResult)
    (handshake : Handshake) : Upgrade :=
  let u := u.settled
  match result with
  | none => u.fail
  | some result =>
    if u.destroyed then u
    else if result.authenticated then
      match wss, handshake with
      | none, _ | some .running, .throws => u.fail
      | some .closing, _ | some .running, .refuses => (u.write .refused).destroy
      | some .running, .completes => u.write .switchingProtocols
    else (u.write .unauthorized).destroy

end Upgrade

/-- Only the request of the call is touched. -/
theorem WsServer.upgrades_authSettles (s : WsServer) (i : ℕ) (result : Option AuthResult)
    (handshake : Handshake) : (s.authSettles i result handshake).1.upgrades =
      Function.update s.upgrades i ((s.upgrades i).settle s.wss result handshake) ∧
    (s.authSettles i result handshake).1.upgradeCount = s.upgradeCount ∧
    (s.authSettles i result handshake).1.wss = s.wss := by
  unfold authSettles Upgrade.settle
  simp only [setUpgrade, Function.update_self]
  cases result with
  | none => simp
  | some result =>
    dsimp only
    split
    · exact ⟨rfl, rfl, rfl⟩
    · split
      · unfold completeUpgrade
        dsimp only
        split <;> simp_all [setUpgrade, modifyClient]
      · simp

namespace DatasoleServer

/-! ## The answer -/

/-- The action is about the request. -/
def concerns (i : ℕ) : Act → Bool
  | .authTimeout j | .peerLeaves j | .authSettles j _ _ _ => j = i
  | _ => false

def Act.isClose : Act → Bool
  | .close => true
  | _ => false

def Act.isTransportClosed : Act → Bool
  | .transportClosed => true
  | _ => false

/-- What `close` has done with `wss` after these actions. -/
def wssAfter (acts : List Act) : Option WebSocketServer :=
  if acts.any Act.isTransportClosed then none
  else if acts.any Act.isClose then some .closing
  else some .running

/-- The answer to a request to which nothing has happened before the action. -/
def respond (wss : Option WebSocketServer) : Act → List UpgradeResponse
  | .authTimeout _ => [.requestTimeout]
  | .authSettles _ none _ _ => [.internalServerError]
  | .authSettles _ (some result) handshake _ =>
    if result.authenticated then
      match wss, handshake with
      | none, _ | some .running, .throws => [.internalServerError]
      | some .closing, _ | some .running, .refuses => [.refused]
      | some .running, .completes => [.switchingProtocols]
    else [.unauthorized]
  | _ => []

/-- The answer to a request after a run. -/
def answer (i : ℕ) (acts : List Act) : List UpgradeResponse :=
  (Machine.first (concerns i) acts).elim [] fun x => respond (wssAfter x.1) x.2

/-! ## One step -/

/-- What an action does to the request that it is about. -/
def react (wss : Option WebSocketServer) (u : Upgrade) : Act → Upgrade
  | .authTimeout _ => u.timeout
  | .peerLeaves _ => u.destroy
  | .authSettles _ result handshake _ => u.settle wss result handshake
  | _ => u

/-- What has to be so of a request for the action to be possible. -/
def Possible (u : Upgrade) : Act → Prop
  | .authTimeout _ => u.authTimer = true
  | _ => u.authenticating = true

/-- What happens first to a request answers it, or nothing can be written any more. -/
theorem react_fresh {u : Upgrade} (h : u.Fresh) {i : ℕ} {a : Act} (ha : concerns i a = true)
    (wss : Option WebSocketServer) :
    (react wss u a).responses = respond wss a ∧ (react wss u a).Spent := by
  obtain ⟨hauth, htimer, hdestroyed, hresponses⟩ := h
  cases a with
  | authTimeout j =>
    have htimeout : u.timeout =
        { u with authTimer := false, destroyed := true, responses := [.requestTimeout] } := by
      simp [Upgrade.timeout, Upgrade.write, Upgrade.destroy, hdestroyed, hresponses]
    exact ⟨congrArg Upgrade.responses htimeout, .inl rfl⟩
  | peerLeaves j => exact ⟨hresponses, .inl rfl⟩
  | authSettles j result handshake now =>
    cases result with
    | none => simp [react, respond, Upgrade.settle, Upgrade.settled, Upgrade.fail, Upgrade.write,
        Upgrade.destroy, Upgrade.Spent, hdestroyed, hresponses]
    | some result =>
      by_cases hauthenticated : result.authenticated = true
      · simp only [react, respond, Upgrade.settle, Upgrade.settled, hdestroyed, hauthenticated,
          if_true, Bool.false_eq_true, if_false]
        split <;>
          simp [Upgrade.fail, Upgrade.write, Upgrade.destroy, Upgrade.Spent, hresponses]
      · simp [react, respond, Upgrade.settle, Upgrade.settled, Upgrade.write, Upgrade.destroy,
          Upgrade.Spent, hdestroyed, hresponses, hauthenticated]
  | _ => cases ha

/-- A spent request that something can still happen to has its socket destroyed. -/
theorem react_spent {u : Upgrade} (h : u.Spent) {a : Act} (hpossible : Possible u a)
    (wss : Option WebSocketServer) :
    (react wss u a).responses = u.responses ∧ (react wss u a).Spent := by
  have hdestroyed : u.destroyed = true := by
    rcases h with h | ⟨hauth, htimer, -⟩
    · exact h
    · cases a <;> simp_all [Possible]
  cases a with
  | authTimeout j =>
    simp [react, Upgrade.timeout, Upgrade.write, Upgrade.destroy, Upgrade.Spent, hdestroyed]
  | peerLeaves j => exact ⟨rfl, .inl rfl⟩
  | authSettles j result handshake now =>
    cases result <;>
      simp [react, Upgrade.settle, Upgrade.settled, Upgrade.fail, Upgrade.Spent, hdestroyed]
  | _ => exact ⟨rfl, h⟩

variable {s t : DatasoleServer} {a : Act}

/-- The part of the WebSocket server that is about requests. -/
def requests (s : DatasoleServer) : (ℕ → Upgrade) × ℕ :=
  (s.transport.wsServer.upgrades, s.transport.wsServer.upgradeCount)

/-- What becomes of `wss`. -/
def nextWss (wss : Option WebSocketServer) (a : Act) : Option WebSocketServer :=
  if a.isTransportClosed then none else if a.isClose then wss.map fun _ => .closing else wss

/-- A connection sends on its own WebSocket. -/
theorem wsServer_send (t : ServerTransport) (data : Bytes) (n : ℕ) :
    (t.send data n).wsServer =
      t.wsServer.modifyClient n (ServerTransport.sendOn data (t.conns n)) := by
  rw [ServerTransport.send_eq]

/-- A broadcast changes WebSockets only. -/
theorem wsServer_broadcastRaw (t : ServerTransport) (data : Bytes) :
    (t.broadcastRaw data).wsServer =
      { t.wsServer with clients := (t.broadcastRaw data).wsServer.clients } := by
  unfold ServerTransport.broadcastRaw ServerTransport.countOut
  rw [ServerTransport.foldl_send]
  exact WsServer.foldl_modifyClient ..

/-- A connection handler leaves the requests and `wss` alone. -/
theorem onConnection_wsServer (info : WsServer.Info) (now : ℤ) :
    (s.onConnection info now).requests = s.requests ∧
      (s.onConnection info now).transport.wsServer.wss = s.transport.wsServer.wss := by
  unfold onConnection ServerTransport.onConnection
  by_cases hroom : s.transport.maxConnections ≤ s.transport.connections.size
  · rw [if_pos hroom]
    exact ⟨rfl, rfl⟩
  · rw [if_neg hroom]
    exact ⟨rfl, rfl⟩

/-- A step makes a request, or acts on one that it is about, or leaves all alone. -/
theorem requests_step (hs : s.step a = some t) :
    t.transport.wsServer.wss = nextWss s.transport.wsServer.wss a ∧
    ((∃ remoteAddress, a = .upgrade remoteAddress ∧
        t.requests = (Function.update s.requests.1 s.requests.2 (.new remoteAddress), s.requests.2 + 1)) ∨
      (∃ i, (∀ j, concerns j a = decide (i = j)) ∧ i < s.requests.2 ∧ Possible (s.requests.1 i) a ∧
        t.requests = (Function.update s.requests.1 i
          (react s.transport.wsServer.wss (s.requests.1 i) a), s.requests.2)) ∨
      (∀ j, concerns j a = false) ∧ t.requests = s.requests) := by
  cases a with
  | upgrade remoteAddress =>
    cases hs
    exact ⟨rfl, .inl ⟨remoteAddress, rfl, rfl⟩⟩
  | authTimeout i =>
    simp only [step, Option.ite_none_right_eq_some, Option.some.injEq] at hs
    obtain ⟨⟨hlt, htimer⟩, rfl⟩ := hs
    exact ⟨rfl, .inr (.inl ⟨i, fun _ => rfl, hlt, htimer, rfl⟩)⟩
  | peerLeaves i =>
    simp only [step, Option.ite_none_right_eq_some, Option.some.injEq] at hs
    obtain ⟨⟨hlt, hauth, -⟩, rfl⟩ := hs
    exact ⟨rfl, .inr (.inl ⟨i, fun _ => rfl, hlt, hauth, rfl⟩)⟩
  | authSettles i result handshake now =>
    simp only [step, Option.ite_none_right_eq_some, Option.some.injEq] at hs
    obtain ⟨⟨hlt, hauth⟩, rfl⟩ := hs
    obtain ⟨hupgrades, hcount, hwss⟩ :=
      s.transport.wsServer.upgrades_authSettles i result handshake
    have hrequests : (s.authSettles i result handshake now).requests =
          ((s.transport.wsServer.authSettles i result handshake).1.upgrades,
            (s.transport.wsServer.authSettles i result handshake).1.upgradeCount) ∧
        (s.authSettles i result handshake now).transport.wsServer.wss =
          (s.transport.wsServer.authSettles i result handshake).1.wss := by
      -- whether or not it becomes a connection, the answer is the one of the WebSocket server
      unfold authSettles
      dsimp only
      split
      · exact ⟨rfl, rfl⟩
      · exact onConnection_wsServer _ now
    rw [hupgrades, hcount, hwss] at hrequests
    exact ⟨hrequests.2, .inr (.inl ⟨i, fun _ => rfl, hlt, hauth, hrequests.1⟩)⟩
  | receive | closing | sessionsDestroyed =>
    simp only [step, Option.ite_none_right_eq_some, Option.some.injEq] at hs
    obtain ⟨-, rfl⟩ := hs
    exact ⟨rfl, .inr (.inr ⟨fun _ => rfl, rfl⟩)⟩
  | limited message verdict =>
    simp only [step, Option.ite_none_right_eq_some, Option.some.injEq] at hs
    obtain ⟨-, rfl⟩ := hs
    suffices hw : (s.limited message verdict).requests = s.requests ∧
        (s.limited message verdict).transport.wsServer.wss = s.transport.wsServer.wss from
      ⟨hw.2, .inr (.inr ⟨fun _ => rfl, hw.1⟩)⟩
    unfold limited
    cases verdict with
    | failed => exact ⟨rfl, rfl⟩
    | refused error =>
      cases error with
      | none => exact ⟨rfl, rfl⟩
      | some error =>
        -- an ERROR frame is sent on the connection, if it is there
        dsimp only
        split
        · exact ⟨rfl, rfl⟩
        · simp only [withTransport, requests, wsServer_send]
          exact ⟨rfl, rfl⟩
    | allowed =>
      dsimp only
      split <;> exact ⟨rfl, rfl⟩
  | send number data =>
    simp only [step, Option.ite_none_right_eq_some, Option.some.injEq] at hs
    obtain ⟨-, rfl⟩ := hs
    simp only [withTransport, requests, wsServer_send]
    exact ⟨rfl, .inr (.inr ⟨fun _ => rfl, rfl⟩)⟩
  | closeConnection number code reason =>
    simp only [step, Option.ite_none_right_eq_some, Option.some.injEq] at hs
    obtain ⟨-, rfl⟩ := hs
    suffices hw : (s.transport.closeConnection number code reason).wsServer =
        { s.transport.wsServer with
          clients := (s.transport.closeConnection number code reason).wsServer.clients } by
      simp only [withTransport, requests]
      rw [hw]
      exact ⟨rfl, .inr (.inr ⟨fun _ => rfl, rfl⟩)⟩
    unfold ServerTransport.closeConnection
    split
    · rfl
    · split <;> rfl
  | sendRaw id data =>
    cases hs
    suffices hw : (s.transport.sendRaw id data).wsServer =
        { s.transport.wsServer with clients := (s.transport.sendRaw id data).wsServer.clients } by
      simp only [withTransport, requests]
      rw [hw]
      exact ⟨rfl, .inr (.inr ⟨fun _ => rfl, rfl⟩)⟩
    unfold ServerTransport.sendRaw
    split
    · rfl
    · simp only [ServerTransport.countOut, wsServer_send]
      rfl
  | broadcastRaw data =>
    cases hs
    simp only [withTransport, requests]
    rw [wsServer_broadcastRaw]
    exact ⟨rfl, .inr (.inr ⟨fun _ => rfl, rfl⟩)⟩
  | closed number =>
    simp only [step, Option.ite_none_right_eq_some, Option.some.injEq] at hs
    obtain ⟨-, rfl⟩ := hs
    -- a WebSocket closes after its request was answered
    cases hconn : s.transport.conns number with
    | none =>
      rw [onClose_of_none hconn]
      exact ⟨rfl, .inr (.inr ⟨fun _ => rfl, rfl⟩)⟩
    | some conn =>
      rw [onClose_of_some hconn]
      exact ⟨rfl, .inr (.inr ⟨fun _ => rfl, rfl⟩)⟩
  | resetMetrics =>
    cases hs
    exact ⟨rfl, .inr (.inr ⟨fun _ => rfl, rfl⟩)⟩
  | close =>
    cases hs
    simp only [withTransport, requests, ServerTransport.beginClose]
    refine ⟨s.transport.wsServer.wss_stop, .inr (.inr ⟨fun _ => rfl, ?_⟩)⟩
    rw [s.transport.wsServer.stop_eq]
  | transportClosed =>
    simp only [step, Option.ite_none_right_eq_some, Option.some.injEq] at hs
    obtain ⟨-, rfl⟩ := hs
    exact ⟨rfl, .inr (.inr ⟨fun _ => rfl, rfl⟩)⟩

/-! ## The run -/

/-- What one more action does to `wss`. -/
theorem wssAfter_concat (acts : List Act) (a : Act) :
    wssAfter (acts ++ [a]) = nextWss (wssAfter acts) a := by
  unfold wssAfter nextWss
  rw [List.any_append, List.any_append, List.any_cons, List.any_nil, List.any_cons, List.any_nil]
  cases acts.any Act.isTransportClosed <;> cases acts.any Act.isClose <;> cases a <;> rfl

/-- Every request has the answer that the first action about it gave. -/
structure Answers (acts : List Act) (s : DatasoleServer) : Prop where
  wss : s.transport.wsServer.wss = wssAfter acts
  unmade : ∀ i, s.requests.2 ≤ i → Machine.first (concerns i) acts = none
  fresh : ∀ i < s.requests.2, Machine.first (concerns i) acts = none → (s.requests.1 i).Fresh
  answered : ∀ i < s.requests.2, ∀ x, Machine.first (concerns i) acts = some x →
    (s.requests.1 i).responses = respond (wssAfter x.1) x.2 ∧ (s.requests.1 i).Spent

/-- Every step keeps the answers: the action is about one request, or about none. -/
theorem Answers.step {acts : List Act} (h : Answers acts s) (hs : s.step a = some t) :
    Answers (acts ++ [a]) t := by
  obtain ⟨hwss, hcases⟩ := requests_step hs
  have hnext : t.transport.wsServer.wss = wssAfter (acts ++ [a]) := by
    rw [hwss, h.wss, wssAfter_concat]
  -- an action that is not about a request changes nothing for it
  have hfirst {i : ℕ} (hi : concerns i a = false) :
      Machine.first (concerns i) (acts ++ [a]) = Machine.first (concerns i) acts := by
    rw [Machine.first_concat, if_neg (by rw [hi]; exact Bool.false_ne_true), Option.or_none]
  rcases hcases with ⟨remoteAddress, rfl, hrequests⟩ | ⟨j, hj, hlt, hpossible, hrequests⟩ |
    ⟨hnone, hrequests⟩
  · have hcount : t.requests.2 = s.requests.2 + 1 := by rw [hrequests]
    have hother {i : ℕ} (hi : i ≠ s.requests.2) : t.requests.1 i = s.requests.1 i := by
      rw [hrequests]
      exact Function.update_of_ne hi ..
    refine ⟨hnext, fun i hi => ?_, fun i hi hi' => ?_, fun i hi x hx => ?_⟩
    · rw [hfirst rfl]
      exact h.unmade i (by omega)
    · rw [hfirst rfl] at hi'
      by_cases hnew : i = s.requests.2
      · have hself : t.requests.1 i = .new remoteAddress := by
          rw [hrequests, hnew]
          exact Function.update_self ..
        rw [hself]
        exact ⟨rfl, rfl, rfl, rfl⟩
      · rw [hother hnew]
        exact h.fresh i (by omega) hi'
    · rw [hfirst rfl] at hx
      have hne : i ≠ s.requests.2 := by
        rintro rfl
        rw [h.unmade _ (le_refl _)] at hx
        cases hx
      rw [hother hne]
      exact h.answered i (by omega) x hx
  · have hcount : t.requests.2 = s.requests.2 := by rw [hrequests]
    have hother {i : ℕ} (hi : i ≠ j) : t.requests.1 i = s.requests.1 i := by
      rw [hrequests]
      exact Function.update_of_ne hi ..
    have hself : t.requests.1 j = react s.transport.wsServer.wss (s.requests.1 j) a := by
      rw [hrequests]
      exact Function.update_self ..
    have hconcerns : concerns j a = true := by rw [hj, decide_eq_true rfl]
    have hquiet {i : ℕ} (hi : i ≠ j) : concerns i a = false := by
      rw [hj, decide_eq_false (Ne.symm hi)]
    refine ⟨hnext, fun i hi => ?_, fun i hi hi' => ?_, fun i hi x hx => ?_⟩
    · rw [hfirst (hquiet (by omega))]
      exact h.unmade i (by omega)
    · have hne : i ≠ j := by
        rintro rfl
        rw [Machine.first_concat, if_pos hconcerns] at hi'
        cases hfst : Machine.first (concerns i) acts <;> rw [hfst] at hi' <;> cases hi'
      rw [hfirst (hquiet hne)] at hi'
      rw [hother hne]
      exact h.fresh i (by omega) hi'
    · by_cases hij : i = j
      · subst hij
        rw [Machine.first_concat, if_pos hconcerns] at hx
        rw [hself]
        cases hfst : Machine.first (concerns i) acts with
        | none =>
          rw [hfst] at hx
          cases hx
          rw [← h.wss]
          exact react_fresh (h.fresh i hlt hfst) hconcerns _
        | some y =>
          rw [hfst] at hx
          obtain rfl : y = x := Option.some.inj hx
          obtain ⟨hresponses, hspent⟩ := h.answered i hlt y hfst
          obtain ⟨hsame, hspent⟩ := react_spent hspent hpossible s.transport.wsServer.wss
          exact ⟨hsame.trans hresponses, hspent⟩
      · rw [hfirst (hquiet hij)] at hx
        rw [hother hij]
        exact h.answered i (by omega) x hx
  · refine ⟨hnext, fun i hi => ?_, fun i hi hi' => ?_, fun i hi x hx => ?_⟩
    · rw [hfirst (hnone i)]
      exact h.unmade i (hrequests ▸ hi)
    · rw [hfirst (hnone i)] at hi'
      rw [hrequests]
      exact h.fresh i (hrequests ▸ hi) hi'
    · rw [hfirst (hnone i)] at hx
      rw [hrequests]
      exact h.answered i (hrequests ▸ hi) x hx

end DatasoleServer

end Datasole
