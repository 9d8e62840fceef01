import Datasole.Client.Connection

/-!
# Overlapping calls of connect and disconnect

Between two `await`s of a call another call may run, and both work on the same fields. A call that
has disposed of the stored transport opens its own without looking again, and a call that waits for
`transport.disconnect()` clears the field whatever it holds by then.

`Apart` is what keeps overlapping calls apart: a call opens a transport only when no socket is live
and the call made last is not a `disconnect`; it clears a field only when what is stored there is
closed; and after the `disconnect` made last has resolved neither a call nor a close event sets the
state. In the runs in which it is always so, at most one socket is live, it is the stored one, and a
`disconnect` made last has the last word.

Calls that do not overlap are among them (`guarded_of_alone`): only the call made last is under way,
and it has disposed of everything when it opens a transport.
-/

namespace Datasole

namespace DatasoleClient

variable {s t : DatasoleClient}

/-- The call made last is one of `disconnect`. -/
def LeavesLast (s : DatasoleClient) : Prop :=
  0 < s.callCount ∧ (s.calls (s.callCount - 1)).kind = .disconnect

/-- The call made last is one of `disconnect`, and it has resolved. -/
def LeftLast (s : DatasoleClient) : Prop :=
  s.LeavesLast ∧ (s.calls (s.callCount - 1)).phase = .settled

instance (s : DatasoleClient) : Decidable s.LeavesLast := inferInstanceAs (Decidable (_ ∧ _))

instance (s : DatasoleClient) : Decidable s.LeftLast := inferInstanceAs (Decidable (_ ∧ _))

/-- What a call has to find when it goes on from where it waits. -/
def ApartAt (s : DatasoleClient) (kind : CallKind) : Phase → Prop
  | .disposingProxy => ∀ i ∈ s.workerProxy, ¬ (s.sockets i).live
  | .disposingTransport => ∀ i ∈ s.transport, ¬ (s.sockets i).live
  | .disposed => kind = .connect → (∀ i < s.socketCount, ¬ (s.sockets i).live) ∧ ¬ s.LeavesLast
  | .opened => ¬ s.LeftLast
  | .opening _ | .settled => True

instance (s : DatasoleClient) (kind : CallKind) : ∀ phase, Decidable (s.ApartAt kind phase)
  | .disposingProxy | .disposingTransport => inferInstanceAs (Decidable (∀ i ∈ _, _))
  | .disposed => inferInstanceAs (Decidable (_ → _))
  | .opened => inferInstanceAs (Decidable (¬ _))
  | .opening _ | .settled => .isTrue trivial

/-- What keeps overlapping calls apart. -/
def Apart (s : DatasoleClient) : Act → Prop
  | .resume k _ => s.ApartAt (s.calls k).kind (s.calls k).phase
  | .closed _ => s.canReconnect → ¬ s.LeftLast
  | _ => True

instance (s : DatasoleClient) : ∀ a, Decidable (s.Apart a)
  | .resume k _ => inferInstanceAs (Decidable (s.ApartAt (s.calls k).kind (s.calls k).phase))
  | .closed _ => inferInstanceAs (Decidable (_ → _))
  | .connect | .disconnect | .fire _ | .opened _ | .error _ | .rpc | .rpcEnds _ => .isTrue trivial

/-- The transport in use. -/
def Stored (s : DatasoleClient) (i : ℕ) : Prop :=
  if s.options.useWorker then s.workerProxy = some i else s.transport = some i

structure Inv (s : DatasoleClient) : Prop where
  /-- A client uses one kind of transport. -/
  mode : if s.options.useWorker then s.transport = none else s.workerProxy = none
  stored : ∀ i < s.socketCount, (s.sockets i).live → s.Stored i
  left : s.LeavesLast → ∀ i < s.socketCount, ¬ (s.sockets i).live
  state : s.LeftLast → s.state = .disconnected
  phases : ∀ k < s.callCount, (s.calls k).kind = .disconnect →
    (s.calls k).phase.Disposing ∨ (s.calls k).phase = .settled

/-- A client without calls and sockets keeps the invariant. -/
theorem inv_new (options : ClientOptions) : (new options).Inv where
  mode := by split <;> rfl
  stored _ h := absurd h (Nat.not_lt_zero _)
  left h := absurd h.1 (Nat.lt_irrefl 0)
  state h := absurd h.1.1 (Nat.lt_irrefl 0)
  phases _ h := absurd h (Nat.not_lt_zero _)

/-- Two live sockets are one. -/
theorem Inv.unique (h : s.Inv) {i j : ℕ} (hi : i < s.socketCount) (hj : j < s.socketCount)
    (hlive : (s.sockets i).live) (hlive' : (s.sockets j).live) : i = j := by
  have hs := h.stored i hi hlive
  have hs' := h.stored j hj hlive'
  unfold Stored at hs hs'
  split at hs
  · rw [if_pos ‹_›] at hs'
    exact Option.some.inj (hs.symm.trans hs')
  · rw [if_neg ‹_›] at hs'
    exact Option.some.inj (hs.symm.trans hs')

/-! ## What the steps preserve -/

/-- Two states whose connections are the same, but that sockets may be closed. -/
structure SameCalls (s t : DatasoleClient) : Prop where
  options : t.options = s.options
  transport : t.transport = s.transport
  workerProxy : t.workerProxy = s.workerProxy
  socketCount : t.socketCount = s.socketCount
  live : ∀ i, (t.sockets i).live → (s.sockets i).live
  calls : t.calls = s.calls
  callCount : t.callCount = s.callCount

/-- Closing sockets leaves the calls and the transport in use as they are. -/
theorem Closes.sameCalls (h : s.Closes t) : s.SameCalls t :=
  ⟨h.options, h.transport, h.workerProxy, h.socketCount, fun _ => h.live, h.calls, h.callCount⟩

theorem SameCalls.leavesLast (h : s.SameCalls t) : t.LeavesLast ↔ s.LeavesLast := by
  rw [LeavesLast, LeavesLast, h.calls, h.callCount]

theorem SameCalls.leftLast (h : s.SameCalls t) : t.LeftLast ↔ s.LeftLast := by
  rw [LeftLast, LeftLast, h.leavesLast, h.calls, h.callCount]

theorem SameCalls.stored (h : s.SameCalls t) {i : ℕ} : t.Stored i ↔ s.Stored i := by
  rw [Stored, Stored, h.options, h.transport, h.workerProxy]

/-- The invariant does not notice that sockets are closed, nor a change of the state that fits a
`disconnect` made last. -/
theorem Inv.sameCalls (h : s.Inv) (hst : s.SameCalls t)
    (hstate : t.LeftLast → t.state = .disconnected) :
    t.Inv where
  mode := by
    rw [hst.options, hst.transport, hst.workerProxy]
    exact h.mode
  stored i hi hlive := hst.stored.mpr (h.stored i (hst.socketCount ▸ hi) (hst.live i hlive))
  left hleaves i hi hlive :=
    h.left (hst.leavesLast.mp hleaves) i (hst.socketCount ▸ hi) (hst.live i hlive)
  state := hstate
  phases := by
    rw [hst.calls, hst.callCount]
    exact h.phases

/-- A call that goes on leaves which call was made last. -/
theorem leavesLast_setPhase (s : DatasoleClient) (k : ℕ) (phase : Phase) :
    (s.setPhase k phase).LeavesLast ↔ s.LeavesLast := by
  simp only [LeavesLast, setPhase]
  by_cases hk : s.callCount - 1 = k
  · rw [hk, Function.update_self]
  · rw [Function.update_of_ne hk]

/-- Moving a call of `disconnect` does not settle it, unless it is moved there. -/
theorem LeftLast.of_setPhase {k : ℕ} {phase : Phase} (h : (s.setPhase k phase).LeftLast)
    (hphase : (s.calls k).kind = .disconnect → phase ≠ .settled) : s.LeftLast := by
  refine ⟨(leavesLast_setPhase s k phase).mp h.1, ?_⟩
  have hkind := ((leavesLast_setPhase s k phase).mp h.1).2
  have hsettled := h.2
  simp only [setPhase] at hsettled
  by_cases hk : s.callCount - 1 = k
  · rw [hk, Function.update_self] at hsettled
    exact absurd hsettled (hphase (hk ▸ hkind))
  · rwa [Function.update_of_ne hk] at hsettled

/-- A call goes on to a phase that its kind allows. -/
theorem Inv.setPhase (h : s.Inv) {k : ℕ} {phase : Phase}
    (hphase : (s.calls k).kind = .disconnect → phase.Disposing ∨ phase = .settled)
    (hstate : (s.setPhase k phase).LeftLast → s.state = .disconnected) :
    (s.setPhase k phase).Inv where
  mode := h.mode
  stored := h.stored
  left hleaves := h.left ((leavesLast_setPhase s k phase).mp hleaves)
  state := hstate
  phases j hj hkind := by
    simp only [DatasoleClient.setPhase] at hkind ⊢
    by_cases hjk : j = k
    · subst hjk
      rw [Function.update_self] at hkind ⊢
      exact hphase hkind
    · rw [Function.update_of_ne hjk] at hkind ⊢
      exact h.phases j hj hkind

/-- A new call becomes the last one, and waits where it begins. -/
theorem Inv.call (h : s.Inv) (kind : CallKind) : (s.call kind).Inv := by
  obtain ⟨t, phase, hc, hphase, hclosed, hcall⟩ := s.call_spec kind
  have hst := hc.sameCalls
  rw [hcall]
  refine ⟨?_, fun i hi hlive => ?_, fun hleaves i hi hlive => ?_, fun hleft => ?_,
    fun k hk hkind => ?_⟩
  · dsimp only
    rw [hst.options, hst.transport, hst.workerProxy]
    exact h.mode
  · exact hst.stored.mpr (h.stored i (hst.socketCount ▸ hi) (hst.live i hlive))
  · -- the only socket that may be live is the stored one, and the call has closed it
    have hs := h.stored i (hst.socketCount ▸ hi) (hst.live i hlive)
    have hmode := h.mode
    unfold Stored at hs
    split at hs
    · exact hclosed i (Or.inl hs) hlive
    · rw [if_neg ‹_›] at hmode
      exact hclosed i (Or.inr ⟨hmode, hs⟩) hlive
  · have hsettled := hleft.2
    dsimp only at hsettled
    rw [Nat.add_sub_cancel, Function.update_self] at hsettled
    subst hsettled
    exact hphase.elim
  · dsimp only at hk hkind ⊢
    by_cases hlast : k = s.callCount
    · rw [hlast, Function.update_self]
      exact Or.inl hphase
    · rw [Function.update_of_ne hlast] at hkind ⊢
      exact h.phases k (by omega) hkind

/-- A transport that is opened takes the next socket, and no call notices. -/
theorem openTransport_calls (s : DatasoleClient) (created : Bool) :
    (s.openTransport created).calls = s.calls ∧
      (s.openTransport created).callCount = s.callCount ∧
      (s.openTransport created).socketCount = s.socketCount + 1 := by
  rw [DatasoleClient.openTransport]
  split <;> exact ⟨rfl, rfl, rfl⟩

/-- A transport that is opened leaves which call was made last. -/
theorem leavesLast_openTransport (s : DatasoleClient) (created : Bool) :
    (s.openTransport created).LeavesLast ↔ s.LeavesLast := by
  obtain ⟨hcalls, hcount, -⟩ := s.openTransport_calls created
  rw [LeavesLast, LeavesLast, hcalls, hcount]

/-- A transport that is opened touches its own socket alone. -/
theorem openTransport_sockets (s : DatasoleClient) (created : Bool) {i : ℕ}
    (hi : i ≠ s.socketCount) :
    (s.openTransport created).sockets i = s.sockets i := by
  rw [DatasoleClient.openTransport]
  split <;> exact Function.update_of_ne hi _ _

/-- Opening a transport where no socket is live, for a call after which none of `disconnect`
came. -/
theorem Inv.openTransport (h : s.Inv) (hdead : ∀ i < s.socketCount, ¬ (s.sockets i).live)
    (hlast : ¬ s.LeavesLast) (created : Bool) : (s.openTransport created).Inv := by
  have hmode := h.mode
  obtain ⟨hcalls, hcallCount, hcount⟩ := s.openTransport_calls created
  have hleaves := leavesLast_openTransport s created
  refine ⟨?_, fun i hi hlive => ?_, fun hl => absurd (hleaves.mp hl) hlast,
    fun hl => absurd (hleaves.mp hl.1) hlast, ?_⟩
  · rw [DatasoleClient.openTransport]
    split <;> simpa [*, setSocket] using hmode
  · obtain rfl : i = s.socketCount := by
      by_contra hne
      rw [s.openTransport_sockets created hne] at hlive
      exact hdead i (by omega) hlive
    rw [DatasoleClient.openTransport]
    split <;> simp [*, Stored, setSocket]
  · rw [hcalls, hcallCount]
    exact h.phases

/-- The field is cleared where what it holds is closed. -/
theorem Inv.clearProxy (h : s.Inv) (hdead : ∀ i ∈ s.workerProxy, ¬ (s.sockets i).live) :
    { s with workerProxy := none, sharedBuffer := false }.Inv := by
  refine ⟨?_, fun i hi hlive => ?_, h.left, h.state, h.phases⟩
  · have hmode := h.mode
    dsimp only
    split
    · rwa [if_pos ‹_›] at hmode
    · rfl
  · have hs := h.stored i hi hlive
    unfold Stored at hs ⊢
    dsimp only
    split
    · rw [if_pos ‹_›] at hs
      exact absurd hlive (hdead i hs)
    · rwa [if_neg ‹_›] at hs

/-- The transport in use is forgotten, and its socket is closed. -/
theorem Inv.clearTransport (h : s.Inv) (hdead : ∀ i ∈ s.transport, ¬ (s.sockets i).live) :
    { s with transport := none }.Inv := by
  refine ⟨?_, fun i hi hlive => ?_, h.left, h.state, h.phases⟩
  · have hmode := h.mode
    dsimp only
    split
    · rfl
    · rwa [if_neg ‹_›] at hmode
  · have hs := h.stored i hi hlive
    unfold Stored at hs ⊢
    dsimp only
    split
    · rwa [if_pos ‹_›] at hs
    · rw [if_neg ‹_›] at hs
      exact absurd hlive (hdead i hs)

/-- A call goes on in `disposeTransport`. -/
theorem Inv.moveDisposing (h : s.Inv) {k : ℕ} {phase : Phase} (hphase : phase.Disposing) :
    (s.setPhase k phase).Inv :=
  h.setPhase (fun _ => Or.inl hphase) fun hl => h.state
    (hl.of_setPhase fun _ hsettled => by rw [hsettled] at hphase; exact hphase)

/-- A call that has come further than `disposeTransport`, and not to its end, is one of
`connect`. -/
theorem Inv.kind_ne (h : s.Inv) {k : ℕ} (hk : k < s.callCount)
    (hdisposing : ¬ (s.calls k).phase.Disposing) (hsettled : (s.calls k).phase ≠ .settled) :
    (s.calls k).kind ≠ .disconnect := by
  intro hkind
  rcases h.phases k hk hkind with hd | hd
  · exact hdisposing hd
  · exact hsettled hd

/-- One call goes on from its await. The cases are the places where a call waits; the guard is used
where it opens a transport or forgets the one in use. -/
theorem Inv.resume (h : s.Inv) {k : ℕ} {created : Bool} (hk : k < s.callCount)
    (hg : s.ApartAt (s.calls k).kind (s.calls k).phase) (hs : s.resume k created = some t) :
    t.Inv := by
  cases hphase : (s.calls k).phase with
  | disposingProxy =>
    rw [hphase] at hg
    simp only [DatasoleClient.resume, hphase, Option.some.injEq] at hs
    subst hs
    -- the proxy is cleared, and then `disposeDirect` closes what is left
    have hu := h.clearProxy hg
    have hc := closes_disposeDirect { s with workerProxy := none, sharedBuffer := false }
    have hv := hu.sameCalls hc.sameCalls fun hl =>
      hc.state.trans (hu.state (hc.sameCalls.leftLast.mp hl))
    exact hv.moveDisposing (disposing_disposeDirect _)
  | disposingTransport =>
    rw [hphase] at hg
    simp only [DatasoleClient.resume, hphase, Option.some.injEq] at hs
    subst hs
    exact (h.clearTransport hg).moveDisposing trivial
  | disposed =>
    rw [hphase] at hg
    cases hkind : (s.calls k).kind with
    | connect =>
      -- what is stored is dead, so a new transport may take its place
      simp only [DatasoleClient.resume, hphase, hkind, Option.some.injEq] at hs
      subst hs
      obtain ⟨hdead, hlast⟩ := hg hkind
      have hu := h.openTransport hdead hlast created
      refine hu.setPhase (fun hd => ?_) fun hl => ?_
      · rw [(s.openTransport_calls created).1, hkind] at hd
        cases hd
      · have hleaves := (leavesLast_setPhase _ k _).mp hl.1
        exact absurd ((leavesLast_openTransport s created).mp hleaves) hlast
    | disconnect =>
      simp only [DatasoleClient.resume, hphase, hkind, Option.some.injEq] at hs
      -- a `disconnect` leaves the client off, as is right if it was the last call
      subst hs
      have hu : { s with state := .disconnected, off := true }.Inv :=
        h.sameCalls ⟨rfl, rfl, rfl, rfl, fun _ => id, rfl, rfl⟩ fun _ => rfl
      exact hu.setPhase (fun _ => Or.inr rfl) fun _ => rfl
  | opening i =>
    -- a call that opens is no `disconnect`
    have hkind := h.kind_ne hk (by rw [hphase]; exact id) (by rw [hphase]; nofun)
    have hmove : ∀ phase, (s.setPhase k phase).Inv := fun phase =>
      h.setPhase (absurd · hkind) fun hl => h.state (hl.of_setPhase (absurd · hkind))
    simp only [DatasoleClient.resume, hphase] at hs
    split at hs <;> cases hs <;> exact hmove _
  | opened =>
    rw [hphase] at hg
    have hkind := h.kind_ne hk (by rw [hphase]; exact id) (by rw [hphase]; nofun)
    simp only [DatasoleClient.resume, hphase, Option.some.injEq] at hs
    subst hs
    -- the last call has not left, so the client may be connected
    have hu : { s with state := .connected, reconnectAttempts := 0 }.Inv :=
      h.sameCalls ⟨rfl, rfl, rfl, rfl, fun _ => id, rfl, rfl⟩ fun hl => absurd hl hg
    exact hu.setPhase (absurd · hkind) fun hl => absurd (hl.of_setPhase (absurd · hkind)) hg
  | settled => simp only [DatasoleClient.resume, hphase, reduceCtorEq] at hs

/-- An event of a socket leaves the calls alone unless it makes the socket live. -/
theorem sameCalls_setSocket {i : ℕ} {socket : Socket} (hlive : socket.live → (s.sockets i).live) :
    s.SameCalls (s.setSocket i socket) := by
  refine ⟨rfl, rfl, rfl, rfl, fun j hj => ?_, rfl, rfl⟩
  rw [setSocket] at hj
  dsimp only at hj
  by_cases hji : j = i
  · rw [hji, Function.update_self] at hj
    exact hji ▸ hlive hj
  · rwa [Function.update_of_ne hji] at hj

/-- Every step that meets the guard keeps the invariant. -/
theorem Inv.step (h : s.Inv) {a : Act} (hg : s.Apart a) (hs : s.step a = some t) : t.Inv := by
  cases a with
  | connect =>
    simp only [DatasoleClient.step, Option.some.injEq] at hs
    subst hs
    have hcall := h.call .connect
    exact ⟨hcall.mode, hcall.stored, hcall.left, hcall.state, hcall.phases⟩
  | disconnect =>
    simp only [DatasoleClient.step, Option.some.injEq] at hs
    exact hs ▸ h.call .disconnect
  | resume k created =>
    simp only [DatasoleClient.step, Option.ite_none_right_eq_some] at hs
    exact h.resume hs.1 hg hs.2
  | fire timer =>
    simp only [DatasoleClient.step, Option.ite_none_right_eq_some, Option.some.injEq] at hs
    obtain ⟨-, rfl⟩ := hs
    have hu : { s with timers := s.timers.filter (· ≠ timer) }.Inv :=
      h.sameCalls ⟨rfl, rfl, rfl, rfl, fun _ => id, rfl, rfl⟩ h.state
    exact hu.call .connect
  | opened i =>
    simp only [DatasoleClient.step, Option.ite_none_right_eq_some, Option.some.injEq] at hs
    obtain ⟨-, rfl⟩ := hs
    exact h.sameCalls (sameCalls_setSocket id) h.state
  | error i =>
    simp only [DatasoleClient.step, Option.ite_none_right_eq_some, Option.some.injEq] at hs
    obtain ⟨-, rfl⟩ := hs
    exact h.sameCalls (sameCalls_setSocket id) h.state
  | closed i =>
    simp only [DatasoleClient.step, Option.ite_none_right_eq_some, Option.some.injEq] at hs
    obtain ⟨-, rfl⟩ := hs
    have hu : (s.setSocket i { (s.sockets i) with closeDue := false }).Inv :=
      h.sameCalls (sameCalls_setSocket id) h.state
    rw [onClose]
    split
    · refine hu.sameCalls ⟨rfl, rfl, rfl, rfl, fun _ => id, rfl, rfl⟩ fun hl => ?_
      -- the guard says that nothing reconnects after a call that has left
      exact absurd hl (hg ‹_›)
    · exact hu.sameCalls ⟨rfl, rfl, rfl, rfl, fun _ => id, rfl, rfl⟩ fun _ => rfl
  | rpc =>
    simp only [DatasoleClient.step, Option.ite_none_right_eq_some, Option.some.injEq] at hs
    obtain ⟨-, rfl⟩ := hs
    exact h.sameCalls ⟨rfl, rfl, rfl, rfl, fun _ => id, rfl, rfl⟩ h.state
  | rpcEnds correlationId =>
    simp only [DatasoleClient.step, Option.some.injEq] at hs
    subst hs
    exact h.sameCalls ⟨rfl, rfl, rfl, rfl, fun _ => id, rfl, rfl⟩ h.state

/-! ## Calls that do not overlap -/

/-- A call is made when all others have settled; and no close event comes that would reconnect after
the `disconnect` made last. -/
def Alone (s : DatasoleClient) : Act → Prop
  | .connect | .disconnect | .fire _ => ∀ k < s.callCount, (s.calls k).phase = .settled
  | .closed _ => s.canReconnect → ¬ s.LeftLast
  | _ => True

/-- What a call has disposed of by the time it waits here. -/
def DisposedAt (s : DatasoleClient) : Phase → Prop
  | .disposingProxy => ∀ i ∈ s.workerProxy, ¬ (s.sockets i).live
  | .disposingTransport => s.workerProxy = none ∧ ∀ i ∈ s.transport, ¬ (s.sockets i).live
  | .disposed => s.workerProxy = none ∧ s.transport = none
  | .opening _ | .opened | .settled => True

/-- Only the call made last may be under way, and what it has disposed of stays so. -/
structure OneCall (s : DatasoleClient) : Prop where
  last : ∀ k < s.callCount, (s.calls k).phase ≠ .settled → k + 1 = s.callCount
  disposed : ∀ k < s.callCount, s.DisposedAt (s.calls k).phase

theorem oneCall_new (options : ClientOptions) : (new options).OneCall where
  last _ hk := absurd hk (Nat.not_lt_zero _)
  disposed _ hk := absurd hk (Nat.not_lt_zero _)

/-- What a call has disposed of stays so where no socket becomes live and no other transport is
stored. -/
theorem DisposedAt.mono {phase : Phase} (h : s.DisposedAt phase)
    (hproxy : t.workerProxy = s.workerProxy)
    (htransport : t.transport = s.transport) (hlive : ∀ i, (t.sockets i).live → (s.sockets i).live) :
    t.DisposedAt phase := by
  cases phase with
  | disposingProxy => exact fun i hi hlive' => h i (hproxy ▸ hi) (hlive i hlive')
  | disposingTransport =>
    exact ⟨hproxy.trans h.1, fun i hi hlive' => h.2 i (htransport ▸ hi) (hlive i hlive')⟩
  | disposed => exact ⟨hproxy.trans h.1, htransport.trans h.2⟩
  | opening | opened | settled => trivial

/-- Closing sockets disturbs no call. -/
theorem OneCall.sameCalls (h : s.OneCall) (hst : s.SameCalls t) : t.OneCall where
  last := by
    rw [hst.calls, hst.callCount]
    exact h.last
  disposed k hk := by
    rw [hst.calls]
    exact (h.disposed k (hst.callCount ▸ hk)).mono hst.workerProxy hst.transport hst.live

/-- `disposeDirect` leaves no live socket behind, or waits for its worker. -/
theorem disposedAt_disposeDirect (hproxy : s.workerProxy = none) :
    s.disposeDirect.1.DisposedAt s.disposeDirect.2 := by
  cases htransport : s.transport with
  | none =>
    rw [disposeDirect, htransport]
    exact ⟨hproxy, htransport⟩
  | some i =>
    rw [disposeDirect, htransport]
    refine ⟨hproxy, fun j hj => ?_⟩
    obtain rfl : i = j := Option.some.inj (htransport.symm.trans hj)
    exact s.close_not_live i

/-- `disposeTransport` has disposed of what its caller relies on where it waits. -/
theorem disposedAt_disposeTransport (s : DatasoleClient) :
    s.disposeTransport.1.DisposedAt s.disposeTransport.2 := by
  rw [disposeTransport]
  dsimp only
  split
  · next i hproxy =>
    intro j hj
    obtain rfl : i = j := Option.some.inj (hproxy.symm.trans hj)
    exact close_not_live _ i
  · next hproxy => exact disposedAt_disposeDirect hproxy

/-- A call that is made when all others have settled. -/
theorem OneCall.call (hsettled : ∀ k < s.callCount, (s.calls k).phase = .settled)
    (kind : CallKind) :
    (s.call kind).OneCall := by
  have hall := s.closes_clearTimer.trans (closes_disposeTransport s.clearTimer)
  have hcalls : (s.call kind).calls = Function.update s.calls s.callCount
      { kind, phase := s.clearTimer.disposeTransport.2 } := by
    rw [DatasoleClient.call, ← hall.calls, ← hall.callCount]
  have hcount : (s.call kind).callCount = s.callCount + 1 := congrArg (· + 1) hall.callCount
  refine ⟨fun k hk hphase => ?_, fun k hk => ?_⟩
  · rw [hcount] at hk ⊢
    rw [hcalls] at hphase
    by_cases hlast : k = s.callCount
    · rw [hlast]
    · rw [Function.update_of_ne hlast] at hphase
      exact absurd (hsettled k (by omega)) hphase
  · rw [hcount] at hk
    rw [hcalls]
    by_cases hlast : k = s.callCount
    · rw [hlast, Function.update_self]
      exact (disposedAt_disposeTransport s.clearTimer).mono rfl rfl fun _ => id
    · rw [Function.update_of_ne hlast, hsettled k (by omega)]
      trivial

/-- The call under way goes on, where it has disposed of what it meets there. -/
theorem OneCall.setPhase {k : ℕ} (hk : k + 1 = s.callCount)
    (hothers : ∀ j < s.callCount, (s.calls j).phase ≠ .settled → j + 1 = s.callCount)
    {phase : Phase} (hphase : s.DisposedAt phase) : (s.setPhase k phase).OneCall := by
  refine ⟨fun j hj hne => ?_, fun j hj => ?_⟩
  · by_cases hjk : j = k
    · rw [hjk]
      exact hk
    · simp only [DatasoleClient.setPhase, Function.update_of_ne hjk] at hne
      exact hothers j hj hne
  · have hst : s.DisposedAt = (s.setPhase k phase).DisposedAt := by
      funext phase'
      cases phase' <;> rfl
    rw [← hst]
    by_cases hjk : j = k
    · rw [hjk]
      simpa only [DatasoleClient.setPhase, Function.update_self] using hphase
    · have hsettled : (s.calls j).phase = .settled := by
        by_contra hne
        have hlast := hothers j hj hne
        omega
      simp only [DatasoleClient.setPhase, Function.update_of_ne hjk, hsettled]
      trivial

/-- The call that is under way goes on, and has disposed of what it relies on at its next await. -/
theorem OneCall.resume (h : s.OneCall) {k : ℕ} {created : Bool} (hk : k < s.callCount)
    (hs : s.resume k created = some t) : t.OneCall := by
  have hdisposed := h.disposed k hk
  cases hphase : (s.calls k).phase with
  | disposingProxy =>
    -- a call that has not settled is the last one made
    have hlast := h.last k hk (by rw [hphase]; nofun)
    simp only [DatasoleClient.resume, hphase, Option.some.injEq] at hs
    subst hs
    have hc := closes_disposeDirect { s with workerProxy := none, sharedBuffer := false }
    -- nothing is stored after `disposeDirect`
    refine OneCall.setPhase (hlast.trans hc.callCount.symm) ?_ (disposedAt_disposeDirect rfl)
    rw [hc.calls, hc.callCount]
    exact h.last
  | disposingTransport =>
    have hlast := h.last k hk (by rw [hphase]; nofun)
    rw [hphase] at hdisposed
    simp only [DatasoleClient.resume, hphase, Option.some.injEq] at hs
    subst hs
    exact OneCall.setPhase (s := { s with transport := none }) hlast h.last ⟨hdisposed.1, rfl⟩
  | disposed =>
    have hlast := h.last k hk (by rw [hphase]; nofun)
    cases hkind : (s.calls k).kind with
    | connect =>
      simp only [DatasoleClient.resume, hphase, hkind, Option.some.injEq] at hs
      subst hs
      obtain ⟨hcalls, hcount, -⟩ := s.openTransport_calls created
      refine OneCall.setPhase (hlast.trans hcount.symm) ?_ trivial
      rw [hcalls, hcount]
      exact h.last
    | disconnect =>
      simp only [DatasoleClient.resume, hphase, hkind, Option.some.injEq] at hs
      subst hs
      exact OneCall.setPhase (s := { s with state := .disconnected, off := true }) hlast h.last trivial
  | opening i =>
    have hlast := h.last k hk (by rw [hphase]; nofun)
    simp only [DatasoleClient.resume, hphase] at hs
    split at hs <;> cases hs
    · exact OneCall.setPhase hlast h.last trivial
    · refine OneCall.setPhase hlast h.last ?_
      split <;> trivial
  | opened =>
    have hlast := h.last k hk (by rw [hphase]; nofun)
    simp only [DatasoleClient.resume, hphase, Option.some.injEq] at hs
    subst hs
    exact OneCall.setPhase (s := { s with state := .connected, reconnectAttempts := 0 }) hlast h.last
      trivial
  | settled => simp only [DatasoleClient.resume, hphase, reduceCtorEq] at hs

/-- A call that alone is under way is kept apart from all others: it was made last, and has not
settled. -/
theorem OneCall.apartAt (h : s.OneCall) (hinv : s.Inv) {k : ℕ} (hk : k < s.callCount) :
    s.ApartAt (s.calls k).kind (s.calls k).phase := by
  have hdisposed := h.disposed k hk
  have hlast (hne : (s.calls k).phase ≠ .settled) : s.callCount - 1 = k := by
    have heq := h.last k hk hne
    omega
  cases hphase : (s.calls k).phase with
  | disposingProxy =>
    rw [hphase] at hdisposed
    exact hdisposed
  | disposingTransport =>
    rw [hphase] at hdisposed
    exact hdisposed.2
  | disposed =>
    rw [hphase] at hdisposed
    refine fun hkind => ⟨fun i hi hlive => ?_, fun hleaves => ?_⟩
    · -- a live socket is stored, and both fields are empty
      have hstored := hinv.stored i hi hlive
      unfold Stored at hstored
      rw [hdisposed.1, hdisposed.2] at hstored
      split at hstored <;> cases hstored
    · have hleft := hleaves.2
      rw [hlast (by rw [hphase]; nofun), hkind] at hleft
      cases hleft
  | opened =>
    intro hleft
    have hsettled := hleft.2
    rw [hlast (by rw [hphase]; nofun), hphase] at hsettled
    cases hsettled
  | opening i | settled => trivial

/-- Every step that begins no second call keeps one call under way. -/
theorem OneCall.step (h : s.OneCall) {a : Act} (ha : s.Alone a) (hs : s.step a = some t) :
    t.OneCall := by
  cases a with
  | connect =>
    simp only [DatasoleClient.step, Option.some.injEq] at hs
    subst hs
    exact (OneCall.call ha .connect).sameCalls ⟨rfl, rfl, rfl, rfl, fun _ => id, rfl, rfl⟩
  | disconnect =>
    simp only [DatasoleClient.step, Option.some.injEq] at hs
    exact hs ▸ OneCall.call ha .disconnect
  | resume k created =>
    simp only [DatasoleClient.step, Option.ite_none_right_eq_some] at hs
    exact h.resume hs.1 hs.2
  | fire timer =>
    simp only [DatasoleClient.step, Option.ite_none_right_eq_some, Option.some.injEq] at hs
    obtain ⟨-, rfl⟩ := hs
    exact OneCall.call (s := { s with timers := s.timers.filter (· ≠ timer) }) ha .connect
  | opened i | error i =>
    simp only [DatasoleClient.step, Option.ite_none_right_eq_some, Option.some.injEq] at hs
    obtain ⟨-, rfl⟩ := hs
    exact h.sameCalls (sameCalls_setSocket id)
  | closed i =>
    simp only [DatasoleClient.step, Option.ite_none_right_eq_some, Option.some.injEq] at hs
    obtain ⟨-, rfl⟩ := hs
    have hu : (s.setSocket i { (s.sockets i) with closeDue := false }).OneCall :=
      h.sameCalls (sameCalls_setSocket id)
    rw [onClose]
    split <;> exact hu.sameCalls ⟨rfl, rfl, rfl, rfl, fun _ => id, rfl, rfl⟩
  | rpc =>
    simp only [DatasoleClient.step, Option.ite_none_right_eq_some, Option.some.injEq] at hs
    obtain ⟨-, rfl⟩ := hs
    exact h.sameCalls ⟨rfl, rfl, rfl, rfl, fun _ => id, rfl, rfl⟩
  | rpcEnds correlationId =>
    simp only [DatasoleClient.step, Option.some.injEq] at hs
    subst hs
    exact h.sameCalls ⟨rfl, rfl, rfl, rfl, fun _ => id, rfl, rfl⟩

/-- Calls that are made one after the other are kept apart all along, by the application or a timer,
with or without a worker. -/
theorem guarded_of_alone {options : ClientOptions} {acts : List Act}
    (hg : Machine.Guarded step Alone (new options) acts)
    (hrun : Machine.exec step (new options) acts = some s) :
    Machine.Guarded step Apart (new options) acts := by
  refine Machine.Guarded.of_exec (I := fun s => s.Inv ∧ s.OneCall) ?_
    ⟨inv_new options, oneCall_new options⟩ hg hrun
  rintro s a t ⟨hinv, hone⟩ ha hs
  have hapart : s.Apart a := by
    cases a with
    | resume k created =>
      simp only [DatasoleClient.step, Option.ite_none_right_eq_some] at hs
      exact hone.apartAt hinv hs.1
    | closed i => exact ha
    | connect | disconnect | fire | opened | error | rpc | rpcEnds => trivial
  exact ⟨hapart, hinv.step hapart hs, hone.step ha hs⟩

/-- In every run that keeps overlapping calls apart at most one socket is live at a time. When all
calls have settled and the one made last is a `disconnect`, none is live and the client is
disconnected. -/
theorem one_live_transport (options : ClientOptions) (acts : List Act)
    (hrun : Machine.exec step (new options) acts = some s)
    (hg : Machine.Guarded step Apart (new options) acts) :
    (∀ i < s.socketCount, ∀ j < s.socketCount,
      (s.sockets i).live → (s.sockets j).live → i = j) ∧
    ((∀ k < s.callCount, (s.calls k).phase = .settled) → s.LeavesLast →
      (∀ i < s.socketCount, ¬ (s.sockets i).live) ∧ s.state = .disconnected) := by
  have hI : s.Inv :=
    Machine.exec_invariant_guarded (fun _ _ _ hI ha hs => hI.step ha hs) (inv_new options) hg hrun
  refine ⟨fun i hi j hj => hI.unique hi hj, fun hsettled hleaves => ?_⟩
  have hlast := hsettled (s.callCount - 1) (Nat.sub_lt hleaves.1 Nat.one_pos)
  exact ⟨hI.left hleaves, hI.state ⟨hleaves, hlast⟩⟩

/-- In a worker, while `disconnect` waits the application calls `connect` and `disconnect` again. -/
def overlappingCalls : List Act :=
  [.connect, .resume 0 true, .opened 0, .resume 0 true, .resume 0 true, .disconnect, .connect,
    .resume 1 true, .resume 2 true, .resume 1 true, .resume 2 true, .opened 1, .disconnect,
    .resume 2 true, .resume 3 true, .resume 3 true]

/-- The same calls with a worker: both sockets are closed in the end. -/
theorem one_live_transport_in_worker :
    ∃ s, Machine.exec step (new workerOptions) overlappingCalls = some s ∧
      s.socketCount = 2 ∧ (∀ i < s.socketCount, ¬ (s.sockets i).live) ∧ s.state = .disconnected := by
  obtain ⟨s, hrun, htest⟩ := Machine.exists_exec_of_test
    (show (Machine.exec step (new workerOptions) overlappingCalls).map (fun s =>
      decide ((∀ k < s.callCount, (s.calls k).phase = .settled) ∧ s.LeavesLast ∧
        s.socketCount = 2)) = some true by decide +kernel)
  obtain ⟨hsettled, hleaves, hcount⟩ := of_decide_eq_true htest
  obtain ⟨-, hend⟩ := one_live_transport _ _ hrun (by decide +kernel)
  exact ⟨s, hrun, hcount, hend hsettled hleaves⟩

/-- Two calls of `connect` made in one tick, until both have resolved. -/
def twoConnects : List Act :=
  [.connect, .connect, .resume 0 true, .resume 1 true, .opened 0, .opened 1, .resume 0 true,
    .resume 0 true, .resume 1 true, .resume 1 true]

/-- Both open a socket, and a `disconnect` that follows closes only one of them. -/
theorem two_connects_two_sockets :
    ∃ s t, Machine.exec step (new directOptions) twoConnects = some s ∧
      s.socketCount = 2 ∧ (s.sockets 0).live ∧ (s.sockets 1).live ∧
      Machine.exec step s [.disconnect, .resume 2 true, .resume 2 true] = some t ∧
      (∀ k < t.callCount, (t.calls k).phase = .settled) ∧ t.LeavesLast ∧
      t.socketCount = 2 ∧ (t.sockets 0).live := by
  obtain ⟨s, hrun, htest⟩ := Machine.exists_exec_of_test
    (show (Machine.exec step (new directOptions) twoConnects).map (fun s =>
      decide (s.socketCount = 2 ∧ (s.sockets 0).live ∧ (s.sockets 1).live) &&
        (Machine.exec step s [.disconnect, .resume 2 true, .resume 2 true]).any fun t =>
          decide ((∀ k < t.callCount, (t.calls k).phase = .settled) ∧ t.LeavesLast ∧
            t.socketCount = 2 ∧ (t.sockets 0).live)) = some true by decide +kernel)
  simp only [Bool.and_eq_true, decide_eq_true_eq, Option.any_eq_true] at htest
  obtain ⟨⟨hcount, hlive, hlive'⟩, t, ht, hend⟩ := htest
  exact ⟨s, t, hrun, hcount, hlive, hlive', ht, hend⟩

end DatasoleClient

end Datasole
