import Mathlib.Data.List.Nodup
import Mathlib.Logic.Function.Basic
import Datasole.Server.Executor.ConnectionExecutor
import Datasole.Shared.Protocol.Frames

/-!
# The WebSocket server

`WsServer` of `server/transport/ws-server.ts`. A call of `handleUpgrade` waits for the auth handler,
while its timer runs and the peer may go away; the socket that it answers on is the one of its
upgrade request. The handshake itself is done by `ws`, which then has the socket.

The WebSockets are numbered as `connectionCounter` counts them. `stop` closes those that are not
closed yet, and `ws` refuses handshakes from then on.
-/

namespace Datasole

structure AuthResult where
  authenticated : Bool
  userId : Option String := none
  roles : Option (List String) := none
  metadata : Option (JsMap String Json) := none

/-- What is answered to an upgrade request. -/
inductive UpgradeResponse
  | http (text : String)
  /-- By `ws`, with the handshake done. -/
  | switchingProtocols
  /-- By `ws`, which does not accept the handshake. -/
  | refused
  deriving DecidableEq

namespace UpgradeResponse

def requestTimeout : UpgradeResponse := .http "HTTP/1.1 408 Request Timeout\r\n\r\n"

def unauthorized : UpgradeResponse := .http "HTTP/1.1 401 Unauthorized\r\n\r\n"

def internalServerError : UpgradeResponse := .http "HTTP/1.1 500 Internal Server Error\r\n\r\n"

end UpgradeResponse

/-- An upgrade request: its call of `handleUpgrade` and its socket. -/
structure Upgrade where
  remoteAddress : Option String
  /-- The promise of the auth handler has not settled. -/
  authenticating : Bool
  /-- `authTimer` is armed. -/
  authTimer : Bool
  /-- `socket.destroyed`. -/
  destroyed : Bool
  responses : List UpgradeResponse

namespace Upgrade

def new (remoteAddress : Option String) : Upgrade where
  remoteAddress := remoteAddress
  authenticating := true
  authTimer := true
  destroyed := false
  responses := []

/-- `socket.write`, without effect on a socket that is destroyed. -/
def write (u : Upgrade) (response : UpgradeResponse) : Upgrade :=
  if u.destroyed then u else { u with responses := u.responses ++ [response] }

def destroy (u : Upgrade) : Upgrade := { u with destroyed := true }

/-- The promise has settled, and the timer is cleared. -/
def settled (u : Upgrade) : Upgrade := { u with authenticating := false, authTimer := false }

/-- What the timer does when it fires. -/
def timeout (u : Upgrade) : Upgrade :=
  ({ u with authTimer := false }.write .requestTimeout).destroy

/-- The `catch` of `handleUpgrade`. -/
def fail (u : Upgrade) : Upgrade :=
  if u.destroyed then u else (u.write .internalServerError).destroy

end Upgrade

/-- `ws.readyState`, from the handshake on. -/
inductive ReadyState
  | open
  | closing
  | closed
  deriving DecidableEq

structure WebSocket where
  readyState : ReadyState
  sent : List Bytes
  /-- The code and the reason of the close frame sent. -/
  closeFrame : Option (ℕ × String)

namespace WebSocket

/-- After the handshake. -/
def opened : WebSocket := ⟨.open, [], none⟩

def send (data : Bytes) (w : WebSocket) : WebSocket :=
  if w.readyState = .open then { w with sent := w.sent ++ [data] } else w

def close (code : ℕ) (reason : String) (w : WebSocket) : WebSocket :=
  if w.readyState = .open then { w with readyState := .closing, closeFrame := some (code, reason) } else w

theorem closed_send {data : Bytes} {w : WebSocket} :
    (w.send data).readyState = .closed ↔ w.readyState = .closed := by
  unfold send
  split <;> exact Iff.rfl

/-- `close` only begins to close a WebSocket. -/
theorem closed_close {code : ℕ} {reason : String} {w : WebSocket} :
    (w.close code reason).readyState = .closed ↔ w.readyState = .closed := by
  unfold close
  split
  · next hopen => simp [hopen]
  · exact Iff.rfl

/-- After `close` a WebSocket is not open, and nothing was sent. -/
theorem not_open_close (code : ℕ) (reason : String) (w : WebSocket) :
    (w.close code reason).readyState ≠ .open ∧ (w.close code reason).sent = w.sent := by
  unfold close
  split
  · exact ⟨ReadyState.noConfusion, rfl⟩
  · next hnot => exact ⟨hnot, rfl⟩

end WebSocket

/-- `wss` while it is there. -/
inductive WebSocketServer
  | running
  /-- `wss.close()` was called. -/
  | closing
  deriving DecidableEq

/-- What `ws` does with a handshake while it runs. -/
inductive Handshake
  | completes
  | refuses
  | throws
  deriving DecidableEq

structure WsServer where
  wss : Option WebSocketServer
  connectionCounter : ℕ
  upgrades : ℕ → Upgrade
  upgradeCount : ℕ
  clients : ℕ → WebSocket

/-- What the connection handler is given, with the number of the WebSocket instead of the id made of
it. -/
structure WsServer.Info where
  number : ℕ
  remoteAddress : String
  auth : AuthResult

namespace WsServer

/-- After `start`. -/
def started : WsServer where
  wss := some .running
  connectionCounter := 0
  upgrades := fun _ => { Upgrade.new none with authenticating := false, authTimer := false }
  upgradeCount := 0
  clients := fun _ => ⟨.closed, [], none⟩

def setUpgrade (s : WsServer) (i : ℕ) (u : Upgrade) : WsServer :=
  { s with upgrades := Function.update s.upgrades i u }

def modifyClient (s : WsServer) (n : ℕ) (f : WebSocket → WebSocket) : WsServer :=
  { s with clients := Function.update s.clients n (f (s.clients n)) }

/-- `handleUpgrade` up to its `await`, for a request whose path is the server's. -/
def handleUpgrade (s : WsServer) (remoteAddress : Option String) : WsServer :=
  { s.setUpgrade s.upgradeCount (Upgrade.new remoteAddress) with upgradeCount := s.upgradeCount + 1 }

/-- `wss.handleUpgrade`, which calls back with a WebSocket at once if it accepts the handshake. -/
def completeUpgrade (s : WsServer) (i : ℕ) (auth : AuthResult) (handshake : Handshake) :
    WsServer × Option Info :=
  let u := s.upgrades i
  match s.wss, handshake with
  -- `this.wss!` is null, and reading its method throws
  | none, _ | some .running, .throws => (s.setUpgrade i u.fail, none)
  | some .closing, _ | some .running, .refuses => (s.setUpgrade i (u.write .refused).destroy, none)
  | some .running, .completes =>
    let number := s.connectionCounter + 1
    ({ (s.setUpgrade i (u.write .switchingProtocols)).modifyClient number fun _ => .opened with
        connectionCounter := number },
      some ⟨number, u.remoteAddress.getD "unknown", auth⟩)

/-- `handleUpgrade` from its `await` on; `none` is a rejection by the auth handler. -/
def authSettles (s : WsServer) (i : ℕ) (result : Option AuthResult) (handshake : Handshake) :
    WsServer × Option Info :=
  let s := s.setUpgrade i (s.upgrades i).settled
  let u := s.upgrades i
  match result with
  | none => (s.setUpgrade i u.fail, none)
  | some result =>
    if u.destroyed then (s, none)
    else if result.authenticated then s.completeUpgrade i result handshake
    else (s.setUpgrade i (u.write .unauthorized).destroy, none)

/-- `stop` up to its `await`. -/
def stop (s : WsServer) : WsServer :=
  match s.wss with
  | none => s
  | some _ =>
    { (List.range (s.connectionCounter + 1)).foldl
        (fun s n => s.modifyClient n (.close 1001 "Server shutting down")) s with wss := some .closing }

/-- `wss.clients` is empty, so that `wss` emits `close` once it is closing. -/
def Drained (s : WsServer) : Prop :=
  ∀ n < s.connectionCounter + 1, (s.clients n).readyState = .closed

instance (s : WsServer) : Decidable s.Drained := inferInstanceAs (Decidable (∀ n < _, _))

/-! ## What the operations change -/

variable (s : WsServer)

/-- One WebSocket changes. -/
theorem clients_modifyClient (n m : ℕ) (f : WebSocket → WebSocket) :
    (s.modifyClient n f).clients m = if m = n then f (s.clients m) else s.clients m := by
  by_cases h : m = n
  · subst h
    rw [if_pos rfl]
    exact Function.update_self ..
  · rw [if_neg h]
    exact Function.update_of_ne h ..

/-- A loop that changes clients leaves the rest alone. -/
theorem foldl_modifyClient (f : ℕ → WebSocket → WebSocket) (l : List ℕ) :
    l.foldl (fun s n => s.modifyClient n (f n)) s =
      { s with clients := (l.foldl (fun s n => s.modifyClient n (f n)) s).clients } := by
  induction l generalizing s with
  | nil => rfl
  | cons n l ih =>
    rw [List.foldl_cons]
    exact ih (s.modifyClient n (f n))

/-- A loop over different clients changes each of them once. -/
theorem clients_foldl_modifyClient (f : ℕ → WebSocket → WebSocket) {l : List ℕ} (hl : l.Nodup)
    (m : ℕ) :
    (l.foldl (fun s n => s.modifyClient n (f n)) s).clients m =
      if m ∈ l then f m (s.clients m) else s.clients m := by
  induction l generalizing s with
  | nil => rfl
  | cons n l ih =>
    obtain ⟨hn, hl⟩ := List.nodup_cons.mp hl
    rw [List.foldl_cons, ih (s.modifyClient n (f n)) hl, clients_modifyClient]
    by_cases hm : m = n
    · subst hm
      rw [if_neg hn, if_pos rfl, if_pos List.mem_cons_self]
    · simp only [List.mem_cons, hm, false_or, if_false]

/-- `stop` closes the open clients and has `wss` refuse handshakes. -/
theorem stop_eq : s.stop = { s with wss := s.stop.wss, clients := s.stop.clients } := by
  unfold stop
  cases s.wss with
  | none => rfl
  | some wss =>
    dsimp only
    rw [foldl_modifyClient]

/-- `stop` begins to close `wss`, if there is one. -/
theorem wss_stop : s.stop.wss = s.wss.map fun _ => .closing := by
  unfold stop
  cases hwss : s.wss with
  | none => exact hwss
  | some wss => rfl

/-- Every WebSocket there has been is closed with 1001, unless there is no `wss`. -/
theorem clients_stop (n : ℕ) : s.stop.clients n =
    if s.wss ≠ none ∧ n ≤ s.connectionCounter then (s.clients n).close 1001 "Server shutting down"
    else s.clients n := by
  unfold stop
  cases s.wss with
  | none => rfl
  | some wss =>
    dsimp only
    rw [clients_foldl_modifyClient _ _ List.nodup_range]
    simp only [List.mem_range, Nat.lt_add_one_iff, ne_eq, reduceCtorEq, not_false_eq_true, true_and]

/-- With one more WebSocket. -/
def accepted (upgrades : ℕ → Upgrade) : WsServer :=
  { s with
    upgrades
    clients := Function.update s.clients (s.connectionCounter + 1) .opened
    connectionCounter := s.connectionCounter + 1 }

theorem clients_accepted (upgrades : ℕ → Upgrade) (n : ℕ) : (s.accepted upgrades).clients n =
    if n = s.connectionCounter + 1 then .opened else s.clients n :=
  Function.update_apply ..

/-- The auth handler's answer lets at most one new WebSocket in, numbered by the counter, while the
server runs and the request is authenticated; otherwise nothing but the request is touched. -/
theorem authSettles_cases (i : ℕ) (result : Option AuthResult) (handshake : Handshake) :
    (s.authSettles i result handshake).2 = none ∧
        (s.authSettles i result handshake).1 =
          { s with upgrades := (s.authSettles i result handshake).1.upgrades } ∨
      ∃ auth, result = some auth ∧ auth.authenticated = true ∧ handshake = .completes ∧
        s.wss = some .running ∧ (s.upgrades i).destroyed = false ∧
        (s.authSettles i result handshake).2 =
          some ⟨s.connectionCounter + 1, (s.upgrades i).remoteAddress.getD "unknown", auth⟩ ∧
        (s.authSettles i result handshake).1 =
          s.accepted (s.authSettles i result handshake).1.upgrades := by
  unfold authSettles
  cases result with
  | none => exact .inl ⟨rfl, rfl⟩
  | some auth =>
    dsimp only
    split
    · exact .inl ⟨rfl, rfl⟩
    · next hdestroyed =>
      split
      · next hauth =>
        unfold completeUpgrade
        dsimp only
        split
        · exact .inl ⟨rfl, rfl⟩
        · exact .inl ⟨rfl, rfl⟩
        · exact .inl ⟨rfl, rfl⟩
        · exact .inl ⟨rfl, rfl⟩
        · next hwss =>
          refine .inr ⟨auth, rfl, hauth, rfl, hwss, ?_, ?_, rfl⟩
          · simpa [setUpgrade, Upgrade.settled] using hdestroyed
          · simp [setUpgrade, Upgrade.settled]
      · exact .inl ⟨rfl, rfl⟩

end WsServer

end Datasole
