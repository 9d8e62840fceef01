import Datasole.Client.Connection
import Datasole.Client.Rpc.RpcRun
import Datasole.Client.Transport

/-!
# Remote calls without a transport

A client together with its `rpcClient`. `connectDirect` and `connectViaWorker` set the send function
and nothing takes it away, so the function outlives the transport that it looks up.
`this.transport?.send` and `this.workerProxy?.send` do nothing when the field is null, and the
promise of the worker's `send` is not looked at: only `FallbackTransport.send` throws, when a
transport is stored whose socket is not open. In all other cases the call of a request that nobody
sends stays in the pending map.
-/

namespace Datasole

namespace DatasoleClient

/-- The socket's `readyState` is `OPEN`. Those in `closing` have left that state before their close
event comes. -/
def isOpen (s : DatasoleClient) (closing : List ℕ) (i : ℕ) : Bool :=
  (s.sockets i).live && (s.sockets i).opened && (s.sockets i).closeDue && decide (i ∉ closing)

def NoneOpen (s : DatasoleClient) (closing : List ℕ) : Prop :=
  ∀ i < s.socketCount, s.isOpen closing i = false

instance (s : DatasoleClient) (closing : List ℕ) : Decidable (s.NoneOpen closing) :=
  inferInstanceAs (Decidable (∀ _ < _, _))

/-- What the send function finds in the fields of the client. -/
def link (s : DatasoleClient) (closing : List ℕ) : Link where
  transport := s.transport.map fun i => ⟨s.isOpen closing i⟩
  workerProxy := s.workerProxy.map fun i => ⟨s.isOpen closing i⟩

/-- What `rpcClient.call` sees of the send function that was set. -/
def sending (s : DatasoleClient) (closing : List ℕ) : Except (Option String) Unit :=
  if s.options.useWorker then .ok ()
  else
    match s.transport with
    | none => .ok ()
    | some i => if s.isOpen closing i then .ok () else .error (some "WebSocket not connected")

/-- Whatever the bytes are, it is what the two send functions do. -/
theorem sending_eq (s : DatasoleClient) (closing : List ℕ) (pako : Pako) (data : Bytes) :
    s.sending closing =
      (((if s.options.useWorker then sendViaWorker pako (s.link closing) data
        else sendDirect pako (s.link closing) data).map fun _ => ()).mapError some) := by
  unfold sending
  split
  · rfl
  · cases htransport : s.transport with
    | none => simp only [sendDirect, link, htransport]; rfl
    | some i =>
      simp only [sendDirect, link, htransport, Option.map_some, Option.elim_some,
        FallbackTransport.send]
      split <;> rfl

/-- The step comes to `connectDirect` or `connectViaWorker`. -/
def Opens (s : DatasoleClient) : Act → Prop
  | .resume k _ => s.calls k = { kind := .connect, phase := .disposed }
  | _ => False

instance (s : DatasoleClient) : ∀ a, Decidable (s.Opens a)
  | .resume _ _ => inferInstanceAs (Decidable (_ = _))
  | .connect | .disconnect | .fire _ | .opened _ | .error _ | .closed _ | .rpc | .rpcEnds _ =>
    .isFalse not_false

/-- What a step of the connection does to the RPC client. Remote calls are not among the steps
here. -/
def rpcActs (s : DatasoleClient) : Act → Option (List RpcClient.Act)
  | .connect | .disconnect | .fire _ | .closed _ => some [.clearPending]
  | .resume k created => some (if s.Opens (.resume k created) then [.setSendFn] else [])
  | .opened _ | .error _ => some []
  | .rpc | .rpcEnds _ => none

end DatasoleClient

/-- A client and its `rpcClient`. -/
structure CallingClient where
  connection : DatasoleClient
  rpcClient : RpcClient.Sys

namespace CallingClient

def new (options : ClientOptions) : CallingClient where
  connection := .new options
  rpcClient := RpcClient.init

inductive Act where
  | connection (act : DatasoleClient.Act)
  /-- The application calls `rpc(method, params, { timeout })`, while some sockets are closing.
  `payload` is what `serialize(request)` returns or throws. -/
  | rpc (method : String) (timeout : Option ℚ) (payload : Except String Bytes) (closing : List ℕ)
  | handleResponse (correlationId : ℤ) (response : Json)
  /-- The time of a call's timer has passed. -/
  | elapse (timer : ℕ)

def step (s : CallingClient) : Act → Option CallingClient
  | .connection act => do
    let acts ← s.connection.rpcActs act
    let connection ← s.connection.step act
    let rpcClient ← Machine.exec RpcClient.step s.rpcClient acts
    some ⟨connection, rpcClient⟩
  | .rpc method timeout payload closing => do
    let rpcClient ← RpcClient.step s.rpcClient
      (.call method timeout payload (s.connection.sending closing))
    some { s with rpcClient }
  | .handleResponse correlationId response => do
    let rpcClient ← RpcClient.step s.rpcClient (.handleResponse correlationId response)
    some { s with rpcClient }
  | .elapse timer => do
    let rpcClient ← RpcClient.step s.rpcClient (.elapse timer)
    some { s with rpcClient }

end CallingClient

/-! ## What the steps of a connection do -/

namespace DatasoleClient

variable {s t : DatasoleClient}

/-- The step opens no transport. -/
structure Keeps (s t : DatasoleClient) : Prop where
  options : t.options = s.options
  sendFn : t.sendFn = s.sendFn
  socketCount : t.socketCount = s.socketCount
  transport : t.transport = s.transport ∨ t.transport = none

/-- Closing sockets opens no transport, if the send function is left alone. -/
theorem Closes.keeps (h : s.Closes t) (hsendFn : t.sendFn = s.sendFn) : s.Keeps t :=
  ⟨h.options, hsendFn, h.socketCount, Or.inl h.transport⟩

theorem sendFn_disposeDirect (s : DatasoleClient) : s.disposeDirect.1.sendFn = s.sendFn := by
  rw [disposeDirect]
  split <;> rfl

/-- `disposeTransport` leaves the send function. -/
theorem sendFn_disposeTransport (s : DatasoleClient) : s.disposeTransport.1.sendFn = s.sendFn := by
  rw [disposeTransport]
  dsimp only
  split
  · rfl
  · exact sendFn_disposeDirect _

theorem sendFn_clearTimer (s : DatasoleClient) : s.clearTimer.sendFn = s.sendFn := by
  rw [clearTimer]
  split <;> rfl

theorem keeps_call (s : DatasoleClient) (kind : CallKind) : s.Keeps (s.call kind) := by
  have hcloses := s.closes_clearTimer.trans (closes_disposeTransport s.clearTimer)
  have hsendFn := (sendFn_disposeTransport s.clearTimer).trans s.sendFn_clearTimer
  exact ⟨hcloses.options, hsendFn, hcloses.socketCount, Or.inl hcloses.transport⟩

theorem keeps_onClose (s : DatasoleClient) : s.Keeps s.onClose := by
  rw [onClose]
  split <;> exact ⟨rfl, rfl, rfl, Or.inl rfl⟩

/-- Two steps that open no transport open none together. -/
theorem Keeps.trans {u : DatasoleClient} (h : s.Keeps t) (h' : t.Keeps u) : s.Keeps u where
  options := h'.options.trans h.options
  sendFn := h'.sendFn.trans h.sendFn
  socketCount := h'.socketCount.trans h.socketCount
  transport := h'.transport.elim (fun heq => heq ▸ h.transport) Or.inr

theorem keeps_setPhase (s : DatasoleClient) (k : ℕ) (phase : Phase) :
    s.Keeps (s.setPhase k phase) :=
  ⟨rfl, rfl, rfl, Or.inl rfl⟩

/-- A call opens a transport or keeps what is there. -/
theorem opens_or_keeps_resume {k : ℕ} {created : Bool} (hs : s.resume k created = some t) :
    s.calls k = { kind := .connect, phase := .disposed } ∧
        t = (s.openTransport created).setPhase k (.opening s.socketCount) ∨
      s.calls k ≠ { kind := .connect, phase := .disposed } ∧ s.Keeps t := by
  have hother : (s.calls k).phase ≠ .disposed →
      s.calls k ≠ { kind := .connect, phase := .disposed } := fun hne heq => hne (by rw [heq])
  cases hphase : (s.calls k).phase with
  | disposingProxy =>
    simp only [resume, hphase, Option.some.injEq] at hs
    have hcleared : s.Keeps { s with workerProxy := none, sharedBuffer := false } :=
      ⟨rfl, rfl, rfl, Or.inl rfl⟩
    have hdispose := (closes_disposeDirect { s with workerProxy := none, sharedBuffer := false }).keeps
      (sendFn_disposeDirect _)
    exact Or.inr ⟨hother (by rw [hphase]; nofun),
      hs ▸ (hcleared.trans hdispose).trans (keeps_setPhase _ k _)⟩
  | disposingTransport =>
    simp only [resume, hphase, Option.some.injEq] at hs
    exact Or.inr ⟨hother (by rw [hphase]; nofun), hs ▸ ⟨rfl, rfl, rfl, Or.inr rfl⟩⟩
  | disposed =>
    cases hkind : (s.calls k).kind with
    | connect =>
      simp only [resume, hphase, hkind, Option.some.injEq] at hs
      exact Or.inl ⟨by rw [← hphase, ← hkind], hs.symm⟩
    | disconnect =>
      simp only [resume, hphase, hkind, Option.some.injEq] at hs
      refine Or.inr ⟨fun heq => ?_, hs ▸ ⟨rfl, rfl, rfl, Or.inl rfl⟩⟩
      rw [heq] at hkind
      cases hkind
  | opening i =>
    simp only [resume, hphase] at hs
    refine Or.inr ⟨hother (by rw [hphase]; nofun), ?_⟩
    split at hs <;> cases hs <;> exact keeps_setPhase s k _
  | opened =>
    simp only [resume, hphase, Option.some.injEq] at hs
    exact Or.inr ⟨hother (by rw [hphase]; nofun), hs ▸ ⟨rfl, rfl, rfl, Or.inl rfl⟩⟩
  | settled => simp only [resume, hphase, reduceCtorEq] at hs

/-- A step opens a transport or keeps what is there. -/
theorem opens_or_keeps_step {a : Act} (hs : s.step a = some t) :
    s.Opens a ∧ (∃ created u k phase, u = s.openTransport created ∧ t = u.setPhase k phase) ∨
      ¬ s.Opens a ∧ s.Keeps t := by
  cases a with
  | resume k created =>
    simp only [step, Option.ite_none_right_eq_some] at hs
    exact (opens_or_keeps_resume hs.2).imp (And.imp_right fun ht => ⟨created, _, k, _, rfl, ht⟩) id
  | connect =>
    simp only [step, Option.some.injEq] at hs
    have hoff : (s.call .connect).Keeps { s.call .connect with off := false } :=
      ⟨rfl, rfl, rfl, Or.inl rfl⟩
    exact Or.inr ⟨not_false, hs ▸ (s.keeps_call .connect).trans hoff⟩
  | disconnect =>
    simp only [step, Option.some.injEq] at hs
    exact Or.inr ⟨not_false, hs ▸ s.keeps_call .disconnect⟩
  | fire timer =>
    simp only [step, Option.ite_none_right_eq_some, Option.some.injEq] at hs
    have htimer : s.Keeps { s with timers := s.timers.filter (· ≠ timer) } :=
      ⟨rfl, rfl, rfl, Or.inl rfl⟩
    exact Or.inr ⟨not_false, hs.2 ▸ htimer.trans (keeps_call _ .connect)⟩
  | opened i =>
    simp only [step, Option.ite_none_right_eq_some, Option.some.injEq] at hs
    exact Or.inr ⟨not_false, hs.2 ▸ ⟨rfl, rfl, rfl, Or.inl rfl⟩⟩
  | error i =>
    simp only [step, Option.ite_none_right_eq_some, Option.some.injEq] at hs
    exact Or.inr ⟨not_false, hs.2 ▸ ⟨rfl, rfl, rfl, Or.inl rfl⟩⟩
  | closed i =>
    simp only [step, Option.ite_none_right_eq_some, Option.some.injEq] at hs
    have hsocket : s.Keeps (s.setSocket i { (s.sockets i) with closeDue := false }) :=
      ⟨rfl, rfl, rfl, Or.inl rfl⟩
    exact Or.inr ⟨not_false, hs.2 ▸ hsocket.trans (keeps_onClose _)⟩
  | rpc =>
    simp only [step, Option.ite_none_right_eq_some, Option.some.injEq] at hs
    exact Or.inr ⟨not_false, hs.2 ▸ ⟨rfl, rfl, rfl, Or.inl rfl⟩⟩
  | rpcEnds correlationId =>
    simp only [step, Option.some.injEq] at hs
    exact Or.inr ⟨not_false, hs ▸ ⟨rfl, rfl, rfl, Or.inl rfl⟩⟩

/-- A transport that is opened sets the send function, takes the next socket, and may be stored. -/
theorem openTransport_transport (s : DatasoleClient) (created : Bool) :
    (s.openTransport created).sendFn = true ∧ (s.openTransport created).socketCount = s.socketCount + 1 ∧
      ((s.openTransport created).transport = s.transport ∨
        (s.openTransport created).transport = some s.socketCount) := by
  rw [openTransport]
  dsimp only
  split
  · exact ⟨rfl, rfl, Or.inl rfl⟩
  · exact ⟨rfl, rfl, Or.inr rfl⟩

/-- The stored transport is one of those opened. -/
def TransportOpened (s : DatasoleClient) : Prop := ∀ i ∈ s.transport, i < s.socketCount

/-- Every step keeps the stored transport one of those opened. -/
theorem TransportOpened.step (h : s.TransportOpened) {a : Act} (hs : s.step a = some t) :
    t.TransportOpened := by
  intro i hi
  rcases opens_or_keeps_step hs with ⟨-, created, u, k, phase, rfl, rfl⟩ | ⟨-, hkeeps⟩
  · obtain ⟨-, hcount, htransport⟩ := s.openTransport_transport created
    change i ∈ (s.openTransport created).transport at hi
    change i < (s.openTransport created).socketCount
    rw [hcount]
    rcases htransport with heq | heq <;> rw [heq] at hi
    · exact Nat.lt_succ_of_lt (h i hi)
    · obtain rfl := Option.some.inj hi
      exact Nat.lt_succ_self _
  · rw [hkeeps.socketCount]
    rcases hkeeps.transport with heq | heq <;> rw [heq] at hi
    · exact h i hi
    · cases hi

/-- The send function is set by the first step that opens a transport, and stays. -/
theorem sendFn_step {a : Act} (hs : s.step a = some t) :
    t.sendFn = true ↔ s.sendFn = true ∨ s.Opens a := by
  rcases opens_or_keeps_step hs with ⟨hopens, created, u, k, phase, rfl, rfl⟩ | ⟨hnot, hkeeps⟩
  · exact iff_of_true (s.openTransport_transport created).1 (Or.inr hopens)
  · rw [hkeeps.sendFn]
    exact ⟨Or.inl, fun h => h.resolve_right hnot⟩

/-- Where no socket is open, the send function throws only for a stored transport. -/
theorem NoneOpen.sending {closing : List ℕ} (hnone : s.NoneOpen closing) (h : s.TransportOpened) :
    s.sending closing = .ok () ↔ s.options.useWorker = true ∨ s.transport = none := by
  unfold DatasoleClient.sending
  split
  · next hworker => exact iff_of_true rfl (Or.inl hworker)
  · next hworker =>
    cases htransport : s.transport with
    | none => exact iff_of_true rfl (Or.inr rfl)
    | some i =>
      have hclosed := hnone i (h i htransport)
      simp only [hclosed, Bool.false_eq_true, if_false]
      exact iff_of_false nofun (not_or.mpr ⟨hworker, nofun⟩)

end DatasoleClient

/-! ## What the steps of the RPC client do -/

namespace RpcClient

variable {s t : Sys}

/-- The entries of the pending map are of calls that were made. -/
def EntriesMade (s : Sys) : Prop :=
  ∀ id entry, s.client.pending.get id = some entry → entry.call < s.callCount

/-- An entry less. -/
theorem EntriesMade.delete (h : EntriesMade s) (correlationId : ℤ) :
    EntriesMade (s.deletePending correlationId) := by
  intro id entry hentry
  change (s.client.pending.delete correlationId).get id = some entry at hentry
  rw [JsMap.get_delete] at hentry
  split at hentry
  · cases hentry
  · exact h id entry hentry

theorem EntriesMade.takeId (h : EntriesMade s) : EntriesMade s.takeId :=
  fun id entry hentry => Nat.lt_succ_of_lt (h id entry hentry)

/-- An entry for a call that was made. -/
theorem EntriesMade.set (h : EntriesMade s) (correlationId : ℤ) {entry : RpcEntry}
    (hcall : entry.call < s.callCount) : EntriesMade (s.setPending correlationId entry) := by
  intro id entry' hentry
  change (s.client.pending.set correlationId entry).get id = some entry' at hentry
  rw [JsMap.get_set] at hentry
  split at hentry
  · cases hentry
    exact hcall
  · exact h id entry' hentry

/-- The executor of a call that was made registers an entry for that call, or none. -/
theorem EntriesMade.execute (h : EntriesMade s) (timer : RpcTimer)
    (hcall : timer.call < s.callCount)
    (frame : Bytes) (sending : Except (Option String) Unit) :
    EntriesMade (execute s timer frame sending) := by
  have hset :
      EntriesMade ((s.setTimeout timer).setPending timer.correlationId ⟨timer.call, timer.call⟩) :=
    EntriesMade.set (s := s.setTimeout timer) h _ hcall
  unfold RpcClient.execute
  dsimp only
  split
  · exact hset
  · exact hset.delete timer.correlationId

/-- A call that is made has at most an entry of its own. -/
theorem EntriesMade.call (h : EntriesMade s) (method : String) (timeout : Option ℚ)
    (payload : Except String Bytes) (sending : Except (Option String) Unit) :
    EntriesMade (call s method timeout payload sending) := by
  unfold RpcClient.call
  dsimp only
  split
  · split
    · exact h.takeId
    · exact h.takeId.execute _ (Nat.lt_succ_self _) _ _
  · exact fun id entry hentry => Nat.lt_succ_of_lt (h id entry hentry)

/-- Every step of the RPC client keeps its entries those of calls that were made. -/
theorem EntriesMade.step (h : EntriesMade s) {a : Act} (hs : RpcClient.step s a = some t) :
    EntriesMade t := by
  cases a with
  | setSendFn =>
    simp only [RpcClient.step, Option.some.injEq] at hs
    exact hs ▸ h
  | call method timeout payload sending =>
    simp only [RpcClient.step, Option.some.injEq] at hs
    exact hs ▸ h.call method timeout payload sending
  | handleResponse correlationId response =>
    simp only [RpcClient.step, Option.some.injEq] at hs
    subst hs
    unfold RpcClient.handleResponse
    split
    · exact h
    · dsimp only
      split <;> exact h.delete correlationId
  | elapse k =>
    simp only [RpcClient.step] at hs
    split at hs
    · cases hs
    · split at hs <;> cases hs
      unfold RpcClient.elapse
      dsimp only
      split
      · exact h.delete _
      · exact h
  | clearPending =>
    simp only [RpcClient.step, Option.some.injEq] at hs
    subst hs
    exact fun id entry hentry => by cases hentry

/-- Sending a request leaves the send function. -/
theorem sendFn_execute (s : Sys) (timer : RpcTimer) (frame : Bytes)
    (sending : Except (Option String) Unit) :
    (execute s timer frame sending).client.sendFn = s.client.sendFn := by
  unfold execute
  dsimp only
  split <;> rfl

/-- No step but `setSendFn` sets the send function. -/
theorem sendFn_step {a : Act} (hs : RpcClient.step s a = some t) (ha : a ≠ .setSendFn) :
    t.client.sendFn = s.client.sendFn := by
  cases a with
  | setSendFn => exact absurd rfl ha
  | call method timeout payload sending =>
    simp only [RpcClient.step, Option.some.injEq] at hs
    subst hs
    unfold RpcClient.call
    dsimp only
    split
    · split
      · rfl
      · exact sendFn_execute _ _ _ _
    · rfl
  | handleResponse correlationId response =>
    simp only [RpcClient.step, Option.some.injEq] at hs
    subst hs
    unfold RpcClient.handleResponse
    split
    · rfl
    · dsimp only
      split <;> rfl
  | elapse k =>
    simp only [RpcClient.step] at hs
    split at hs
    · cases hs
    · split at hs <;> cases hs
      unfold RpcClient.elapse
      dsimp only
      split <;> rfl
  | clearPending =>
    simp only [RpcClient.step, Option.some.injEq] at hs
    exact hs ▸ rfl

/-- The payload is there and fits into a frame. -/
def Encodes (payload : Except String Bytes) : Prop :=
  ∃ p, payload = .ok p ∧ p.length ≤ maxFramePayload

instance (payload : Except String Bytes) : Decidable (Encodes payload) :=
  inferInstanceAs (Decidable (∃ p, payload = .ok p ∧ p.length ≤ maxFramePayload))

/-- A call whose request was given to a send function that returned waits. -/
theorem call_waits (hfn : s.client.sendFn = true) (method : String) (timeout : Option ℚ)
    {payload : Except String Bytes} (hencodes : Encodes payload) :
    (call s method timeout payload (.ok ())).client.pending.get s.client.nextCorrelationId =
      some ⟨s.callCount, s.callCount⟩ := by
  obtain ⟨p, rfl, hlen⟩ := hencodes
  rw [call_of_encodes hfn method timeout hlen]
  change (s.client.pending.set s.client.nextCorrelationId ⟨s.callCount, s.callCount⟩).get _ = _
  rw [JsMap.get_set, if_pos rfl]

/-- The call is rejected by the time its promise is returned, and has no entry. -/
def RejectsAtOnce (s t : Sys) : Prop :=
  (∃ failure, (s.callCount, .rejected failure) ∈ t.settled) ∧
    ∀ id entry, t.client.pending.get id = some entry → entry.call ≠ s.callCount

/-- A call whose frame cannot be sent is rejected at once, and leaves no entry. -/
theorem call_throws (h : EntriesMade s) (hfn : s.client.sendFn = true) (method : String)
    (timeout : Option ℚ) {payload : Except String Bytes} (hencodes : Encodes payload)
    (error : Option String) :
    RejectsAtOnce s (call s method timeout payload (.error error)) := by
  obtain ⟨p, rfl, hlen⟩ := hencodes
  rw [call_of_encodes hfn method timeout hlen]
  refine ⟨⟨_, List.mem_append_right _ (List.mem_singleton_self _)⟩, fun id entry hentry => ?_⟩
  change ((s.client.pending.set s.client.nextCorrelationId _).delete _).get id = some entry at hentry
  rw [JsMap.get_delete, JsMap.get_set] at hentry
  split at hentry
  · cases hentry
  · exact (h id entry hentry).ne

/-- A call is rejected at once unless there is a send function, the request can be encoded, and the
function returns. -/
theorem rejectsAtOnce_call_iff (h : EntriesMade s) (method : String) (timeout : Option ℚ)
    (payload : Except String Bytes) (sending : Except (Option String) Unit) :
    RejectsAtOnce s (call s method timeout payload sending) ↔
      ¬ (s.client.sendFn = true ∧ Encodes payload ∧ sending = .ok ()) := by
  by_cases hsend : s.client.sendFn = true ∧ Encodes payload
  · obtain ⟨hfn, hencodes⟩ := hsend
    cases sending with
    | ok =>
      refine iff_of_false (fun hrejects => ?_) (not_not_intro ⟨hfn, hencodes, rfl⟩)
      exact hrejects.2 _ _ (call_waits hfn method timeout hencodes) rfl
    | error error =>
      exact iff_of_true (call_throws h hfn method timeout hencodes error) fun hok => nomatch hok.2.2
  · have hrejects := rejects_call method timeout sending hsend
    obtain ⟨failure, hsettled⟩ := hrejects.settled
    refine iff_of_true ⟨⟨failure, ?_⟩, fun id entry hentry => ?_⟩ fun hok => hsend ⟨hok.1, hok.2.1⟩
    · rw [hsettled]
      exact List.mem_append_right _ (List.mem_singleton_self _)
    · rw [hrejects.get] at hentry
      exact (h id entry hentry).ne

end RpcClient

/-! ## Runs -/

namespace CallingClient

variable {s t : CallingClient}

/-- The two parts agree on whether the send function is set. -/
structure Coherent (s : CallingClient) : Prop where
  sendFn : s.rpcClient.client.sendFn = s.connection.sendFn
  entries : RpcClient.EntriesMade s.rpcClient
  transport : s.connection.TransportOpened

/-- A new client has no send function, in both parts. -/
theorem coherent_new (options : ClientOptions) : (new options).Coherent where
  sendFn := rfl
  entries _ _ hentry := by cases hentry
  transport _ hi := by cases hi

/-- What a step of the connection does to `rpcClient`: `clearPending`, `setSendFn` or nothing. -/
theorem connection_step {act : DatasoleClient.Act} (hs : s.step (.connection act) = some t) :
    s.connection.step act = some t.connection ∧
      (s.connection.Opens act ∧ RpcClient.step s.rpcClient .setSendFn = some t.rpcClient ∨
        ¬ s.connection.Opens act ∧
          (t.rpcClient = s.rpcClient ∨ RpcClient.step s.rpcClient .clearPending = some t.rpcClient)) := by
  simp only [step, Option.bind_eq_bind, Option.bind_eq_some_iff, Option.some.injEq] at hs
  obtain ⟨acts, hacts, connection, hconnection, rpcClient, hexec, rfl⟩ := hs
  refine ⟨hconnection, ?_⟩
  have hclear :
      acts = [.clearPending] → RpcClient.step s.rpcClient .clearPending = some rpcClient := by
    rintro rfl
    exact hexec
  have hnothing : acts = [] → rpcClient = s.rpcClient := by
    rintro rfl
    exact (Option.some.inj hexec).symm
  cases act with
  | resume k created =>
    simp only [DatasoleClient.rpcActs, Option.some.injEq] at hacts
    by_cases hopens : s.connection.Opens (.resume k created)
    · rw [if_pos hopens] at hacts
      subst hacts
      exact Or.inl ⟨hopens, hexec⟩
    · rw [if_neg hopens] at hacts
      exact Or.inr ⟨hopens, Or.inl (hnothing hacts.symm)⟩
  | connect | disconnect | fire timer | closed i =>
    exact Or.inr ⟨not_false, Or.inr (hclear (Option.some.inj hacts).symm)⟩
  | opened i | error i => exact Or.inr ⟨not_false, Or.inl (hnothing (Option.some.inj hacts).symm)⟩
  | rpc | rpcEnds id => cases hacts

/-- What `rpcClient` does by itself. -/
theorem Coherent.rpcStep (h : s.Coherent) {a : RpcClient.Act} {rpcClient : RpcClient.Sys}
    (hs : RpcClient.step s.rpcClient a = some rpcClient) (ha : a ≠ .setSendFn) :
    Coherent { s with rpcClient } where
  sendFn := (RpcClient.sendFn_step hs ha).trans h.sendFn
  entries := h.entries.step hs
  transport := h.transport

/-- Every step keeps the two parts agreed on the send function. -/
theorem Coherent.step (h : s.Coherent) {a : Act} (hs : s.step a = some t) : t.Coherent := by
  cases a with
  | connection act =>
    obtain ⟨hconnection, hrpc⟩ := connection_step hs
    have htransport := h.transport.step hconnection
    have hsendFn := DatasoleClient.sendFn_step hconnection
    have hsame : ¬ s.connection.Opens act → t.connection.sendFn = s.connection.sendFn := fun hnot =>
      Bool.eq_iff_iff.mpr (hsendFn.trans (or_iff_left hnot))
    rcases hrpc with ⟨hopens, hset⟩ | ⟨hnot, heq | hclear⟩
    · have hentries := h.entries.step hset
      refine ⟨?_, hentries, htransport⟩
      rw [hsendFn.mpr (Or.inr hopens), ← Option.some.inj hset]
    · refine ⟨?_, heq ▸ h.entries, htransport⟩
      rw [hsame hnot, heq, h.sendFn]
    · refine ⟨?_, h.entries.step hclear, htransport⟩
      rw [hsame hnot, RpcClient.sendFn_step hclear nofun, h.sendFn]
  | rpc method timeout payload closing =>
    simp only [CallingClient.step, Option.bind_eq_bind, Option.bind_eq_some_iff,
      Option.some.injEq] at hs
    obtain ⟨rpcClient, hrpc, rfl⟩ := hs
    exact h.rpcStep hrpc nofun
  | handleResponse correlationId response =>
    simp only [CallingClient.step, Option.bind_eq_bind, Option.bind_eq_some_iff,
      Option.some.injEq] at hs
    obtain ⟨rpcClient, hrpc, rfl⟩ := hs
    exact h.rpcStep hrpc nofun
  | elapse timer =>
    simp only [CallingClient.step, Option.bind_eq_bind, Option.bind_eq_some_iff,
      Option.some.injEq] at hs
    obtain ⟨rpcClient, hrpc, rfl⟩ := hs
    exact h.rpcStep hrpc nofun

/-- After any history, a remote call made while no transport is open is rejected at once exactly if
no `connect()` has opened a transport yet, or the request cannot be encoded, or the client has no
worker and a transport is still stored. -/
theorem rpc_rejected_iff (options : ClientOptions) (acts : List Act)
    (hrun : Machine.exec step (new options) acts = some s) (closing : List ℕ)
    (hnone : s.connection.NoneOpen closing) (method : String) (timeout : Option ℚ)
    (payload : Except String Bytes)
    (hcall : s.step (.rpc method timeout payload closing) = some t) :
    RpcClient.RejectsAtOnce s.rpcClient t.rpcClient ↔
      s.connection.sendFn = false ∨ ¬ RpcClient.Encodes payload ∨
        (s.connection.options.useWorker = false ∧ s.connection.transport ≠ none) := by
  have h : s.Coherent :=
    Machine.exec_invariant (fun _ _ _ hI hs => hI.step hs) (coherent_new options) hrun
  simp only [step, RpcClient.step, Option.bind_eq_bind, Option.bind_some,
    Option.some.injEq] at hcall
  subst hcall
  rw [RpcClient.rejectsAtOnce_call_iff h.entries, h.sendFn, hnone.sending h.transport]
  simp only [not_and_or, not_or, Bool.not_eq_true, ne_eq]

/-- Connected without a worker, and disconnected again. -/
def connectThenDisconnect : List Act :=
  [.connect, .resume 0 true, .opened 0, .resume 0 true, .resume 0 true, .disconnect, .resume 1 true,
    .resume 1 true].map .connection

/-- The same up to where `disconnect()` waits for the transport. -/
def connectThenDisconnecting : List Act :=
  [.connect, .resume 0 true, .opened 0, .resume 0 true, .resume 0 true, .disconnect].map .connection

/-- A call made after `disconnect()` has resolved waits for its timeout. -/
theorem call_after_disconnect_waits : ∃ s t,
    Machine.exec step (new directOptions) connectThenDisconnect = some s ∧
      s.connection.state = .disconnected ∧ s.connection.NoneOpen [] ∧
      s.step (.rpc "echo" none (.ok (RpcClient.requestText "echo" 1)) []) = some t ∧
      ¬ RpcClient.RejectsAtOnce s.rpcClient t.rpcClient ∧
      t.rpcClient.client.pending.get 1 = some ⟨0, 0⟩ ∧ t.rpcClient.settled = [] := by
  obtain ⟨s, hrun, htest⟩ := Machine.exists_exec_of_test
    (show (Machine.exec step (new directOptions) connectThenDisconnect).map (fun s =>
      decide (s.connection.state = .disconnected ∧ s.connection.NoneOpen [] ∧
          s.rpcClient.callCount = 0) &&
        (s.step (.rpc "echo" none (.ok (RpcClient.requestText "echo" 1)) [])).any fun t =>
          decide (t.rpcClient.client.pending.get 1 = some ⟨0, 0⟩ ∧ t.rpcClient.settled = [])) =
      some true by decide +kernel)
  simp only [Bool.and_eq_true, decide_eq_true_eq, Option.any_eq_true] at htest
  obtain ⟨⟨hstate, hnone, hcount⟩, t, ht, hpending, hsettled⟩ := htest
  refine ⟨s, t, hrun, hstate, hnone, ht, fun hrejects => ?_, hpending, hsettled⟩
  exact hrejects.2 1 ⟨0, 0⟩ hpending hcount.symm

/-- One made while it waits is rejected. -/
theorem call_while_disconnecting_is_rejected : ∃ s t,
    Machine.exec step (new directOptions) connectThenDisconnecting = some s ∧
      s.step (.rpc "echo" none (.ok (RpcClient.requestText "echo" 1)) []) = some t ∧
      RpcClient.RejectsAtOnce s.rpcClient t.rpcClient := by
  obtain ⟨s, hrun, htest⟩ := Machine.exists_exec_of_test
    (show (Machine.exec step (new directOptions) connectThenDisconnecting).map (fun s =>
      decide (s.connection.NoneOpen [] ∧ s.connection.options.useWorker = false ∧
        s.connection.transport ≠ none)) = some true by decide +kernel)
  obtain ⟨hnone, hdirect, hstored⟩ := of_decide_eq_true htest
  exact ⟨s, _, hrun, rfl, (rpc_rejected_iff _ _ hrun [] hnone "echo" none _ rfl).mpr
    (Or.inr (Or.inr ⟨hdirect, hstored⟩))⟩

end CallingClient

end Datasole
