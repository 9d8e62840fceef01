import Datasole.Client.Connection

/-!
# Close events of discarded sockets

The close handler of a direct transport does not ask whether its transport is still the one in use.
So the close event of a socket that the client has closed itself does to the client what the loss of
its connection would do: the state becomes `disconnected`, the pending calls are rejected, and a
reconnect may be scheduled.

`Heeded` is what has to be so for such an event to find nothing to change, and for a resolved
`disconnect` to leave nothing behind that goes on by itself: no armed timer, no open socket, and no
call of `connect` that has still something to do. In the runs in which it is always so, a close
event of a discarded socket changes nothing, and a client that is off stays off.
-/

namespace Datasole

namespace DatasoleClient

variable {s t : DatasoleClient}

/-- A call that waits there has nothing to do any more but to fail or, for `disconnect`, to end. -/
def Harmless (s : DatasoleClient) (kind : CallKind) : Phase → Prop
  | .settled => True
  | .opening i => (s.sockets i).promise ≠ .resolved
  | .opened => False
  | .disposingProxy | .disposingTransport | .disposed => kind = .disconnect

instance (s : DatasoleClient) (kind : CallKind) : ∀ phase, Decidable (s.Harmless kind phase)
  | .settled => .isTrue trivial
  | .opening _ => inferInstanceAs (Decidable (_ ≠ _))
  | .opened => .isFalse not_false
  | .disposingProxy | .disposingTransport | .disposed => inferInstanceAs (Decidable (_ = _))

/-- Nothing goes on by itself. -/
structure AtRest (s : DatasoleClient) : Prop where
  timers : s.timers = []
  sockets : ∀ i < s.socketCount, (s.sockets i).closeDue → ¬ (s.sockets i).live
  calls : ∀ k < s.callCount, s.Harmless (s.calls k).kind (s.calls k).phase

instance (s : DatasoleClient) : Decidable s.AtRest :=
  decidable_of_iff
    (s.timers = [] ∧ (∀ i < s.socketCount, (s.sockets i).closeDue → ¬ (s.sockets i).live) ∧
      ∀ k < s.callCount, s.Harmless (s.calls k).kind (s.calls k).phase)
    ⟨fun ⟨ht, hs, hc⟩ => ⟨ht, hs, hc⟩, fun ⟨ht, hs, hc⟩ => ⟨ht, hs, hc⟩⟩

/-- What a close event of a discarded socket and the end of `disconnect` have to find. -/
def Heeded (s : DatasoleClient) : Act → Prop
  | .closed i =>
    (s.sockets i).live ∨ s.state = .disconnected ∧ s.pending = [] ∧ s.canReconnect = false
  | .resume k _ => s.calls k = { kind := .disconnect, phase := .disposed } → s.AtRest
  | _ => True

instance (s : DatasoleClient) : ∀ a, Decidable (s.Heeded a)
  | .closed _ => inferInstanceAs (Decidable (_ ∨ _))
  | .resume _ _ => inferInstanceAs (Decidable (_ → _))
  | .connect | .disconnect | .fire _ | .opened _ | .error _ | .rpc | .rpcEnds _ => .isTrue trivial

/-- A client that is off. -/
structure Quiet (s : DatasoleClient) : Prop extends s.AtRest where
  state : s.state = .disconnected

/-- A call that can only fail or end stays so where no promise of an opening resolves. -/
theorem Harmless.of_promise {kind : CallKind} {phase : Phase} (h : s.Harmless kind phase)
    (hpromise : ∀ i, (t.sockets i).promise = .resolved → (s.sockets i).promise = .resolved) :
    t.Harmless kind phase := by
  cases phase with
  | opening i => exact mt (hpromise i) h
  | settled => trivial
  | opened => exact h
  | disposingProxy => exact h
  | disposingTransport => exact h
  | disposed => exact h

theorem Harmless.of_disposing {phase : Phase} (h : phase.Disposing) :
    s.Harmless .disconnect phase := by
  cases phase <;> first | rfl | exact h.elim

/-- A call that waits in `disposeTransport` and is harmless is one of `disconnect`. -/
theorem Harmless.disconnect {kind : CallKind} {phase : Phase} (h : s.Harmless kind phase)
    (hphase : phase.Disposing) : kind = .disconnect := by
  cases phase <;> first | exact h | exact hphase.elim

/-! ## A client that is off stays off -/

/-- Closing more sockets leaves a client off. -/
theorem Quiet.closes (h : s.Quiet) (hc : s.Closes t) : t.Quiet where
  timers := List.subset_nil.mp (h.timers ▸ hc.timers)
  sockets i hi hdue hlive := by
    rw [hc.socketCount] at hi
    rw [hc.closeDue] at hdue
    exact h.sockets i hi hdue (hc.live hlive)
  calls k hk := by
    rw [hc.callCount] at hk
    rw [hc.calls]
    exact (h.calls k hk).of_promise fun i hi => hc.promise i ▸ hi
  state := hc.state.trans h.state

/-- A call goes on and stays harmless. -/
theorem Quiet.setPhase (h : s.Quiet) {k : ℕ} {phase : Phase}
    (hphase : s.Harmless (s.calls k).kind phase) : (s.setPhase k phase).Quiet where
  timers := h.timers
  sockets := h.sockets
  calls j hj := by
    rw [DatasoleClient.setPhase]
    dsimp only
    by_cases hjk : j = k
    · subst hjk
      rw [Function.update_self]
      exact hphase.of_promise fun _ hi => hi
    · rw [Function.update_of_ne hjk]
      exact (h.calls j hj).of_promise fun _ hi => hi
  state := h.state

/-- A client that is off may be told to disconnect again. -/
theorem Quiet.call (h : s.Quiet) : (s.call .disconnect).Quiet := by
  obtain ⟨t, phase, hc, hphase, -, hcall⟩ := s.call_spec .disconnect
  have ht := h.closes hc
  rw [hcall]
  refine ⟨⟨ht.timers, ht.sockets, fun k hk => ?_⟩, ht.state⟩
  dsimp only at hk ⊢
  by_cases hlast : k = s.callCount
  · rw [hlast, Function.update_self]
    exact Harmless.of_disposing hphase
  · rw [Function.update_of_ne hlast, ← hc.calls]
    exact (ht.calls k (by rw [hc.callCount]; omega)).of_promise fun _ hi => hi

/-- A call that goes on opens nothing on a client that is off. -/
theorem Quiet.resume (h : s.Quiet) {k : ℕ} {created : Bool} (hk : k < s.callCount)
    (hs : s.resume k created = some t) : t.Quiet ∧ t.socketCount = s.socketCount := by
  have hharmless := h.calls k hk
  cases hphase : (s.calls k).phase with
  | disposingProxy =>
    have hkind := hharmless.disconnect (by rw [hphase]; trivial)
    simp only [DatasoleClient.resume, hphase, Option.some.injEq] at hs
    subst hs
    have hu : { s with workerProxy := none, sharedBuffer := false }.Quiet :=
      ⟨⟨h.timers, h.sockets, h.calls⟩, h.state⟩
    have hc := closes_disposeDirect { s with workerProxy := none, sharedBuffer := false }
    refine ⟨(hu.closes hc).setPhase ?_, hc.socketCount⟩
    rw [hc.calls]
    exact hkind ▸ Harmless.of_disposing (disposing_disposeDirect _)
  | disposingTransport =>
    have hkind := hharmless.disconnect (by rw [hphase]; trivial)
    simp only [DatasoleClient.resume, hphase, Option.some.injEq] at hs
    subst hs
    have hu : { s with transport := none }.Quiet := ⟨⟨h.timers, h.sockets, h.calls⟩, h.state⟩
    exact ⟨hu.setPhase hkind, rfl⟩
  | disposed =>
    have hkind := hharmless.disconnect (by rw [hphase]; trivial)
    simp only [DatasoleClient.resume, hphase, hkind, Option.some.injEq] at hs
    subst hs
    have hu : { s with state := .disconnected, off := true }.Quiet :=
      ⟨⟨h.timers, h.sockets, h.calls⟩, rfl⟩
    exact ⟨hu.setPhase trivial, rfl⟩
  | opening i =>
    rw [hphase] at hharmless
    simp only [DatasoleClient.resume, hphase] at hs
    split at hs
    · cases hs
    · cases hs
      exact ⟨h.setPhase trivial, rfl⟩
    · -- the promise of a closed socket was not resolved before, and is not now
      exact absurd ‹_› hharmless
  | opened =>
    rw [hphase] at hharmless
    exact hharmless.elim
  | settled =>
    simp only [DatasoleClient.resume, hphase, reduceCtorEq] at hs

/-- A close handler that finds nothing to change. -/
theorem onClose_eq (hstate : s.state = .disconnected) (hpending : s.pending = [])
    (hcannot : s.canReconnect = false) : s.onClose = s := by
  have hsame : { s with state := .disconnected, pending := [] } = s := by
    cases s
    cases hstate
    cases hpending
    rfl
  rw [onClose, hsame, hcannot]
  rfl

/-- An event of a socket leaves a client off unless it resolves the promise of an opening. -/
theorem Quiet.setSocket (h : s.Quiet) {i : ℕ} {socket : Socket}
    (hdue : socket.closeDue → ¬ socket.live)
    (hpromise : socket.promise = .resolved → (s.sockets i).promise = .resolved) :
    (s.setSocket i socket).Quiet where
  timers := h.timers
  sockets j hj := by
    rw [DatasoleClient.setSocket]
    dsimp only
    by_cases hji : j = i
    · rw [hji, Function.update_self]
      exact hdue
    · rw [Function.update_of_ne hji]
      exact h.sockets j hj
  calls k hk := by
    refine (h.calls k hk).of_promise fun j hj => ?_
    rw [DatasoleClient.setSocket] at hj
    dsimp only at hj
    by_cases hji : j = i
    · rw [hji, Function.update_self] at hj
      rw [hji]
      exact hpromise hj
    · rwa [Function.update_of_ne hji] at hj
  state := h.state

/-- While the application does not call `connect`, a quiet client stays quiet and opens nothing. -/
theorem Quiet.step (h : s.Quiet) {a : Act} (hg : s.Heeded a) (ha : a ≠ .connect)
    (hs : s.step a = some t) : t.Quiet ∧ t.socketCount = s.socketCount := by
  cases a with
  | connect => exact absurd rfl ha
  | disconnect =>
    obtain ⟨u, phase, hc, -, -, hcall⟩ := s.call_spec .disconnect
    simp only [DatasoleClient.step, Option.some.injEq] at hs
    subst hs
    exact ⟨h.call, by rw [hcall]; exact hc.socketCount⟩
  | resume k created =>
    simp only [DatasoleClient.step, Option.ite_none_right_eq_some] at hs
    exact h.resume hs.1 hs.2
  | fire timer =>
    simp only [DatasoleClient.step, h.timers, List.not_mem_nil, if_false, reduceCtorEq] at hs
  | opened i =>
    simp only [DatasoleClient.step, Option.ite_none_right_eq_some] at hs
    obtain ⟨⟨⟨hi, hdue, -⟩, hlive, -⟩, -⟩ := hs
    exact absurd hlive (h.sockets i hi hdue)
  | error i =>
    simp only [DatasoleClient.step, Option.ite_none_right_eq_some, Option.some.injEq] at hs
    obtain ⟨⟨hi, hdue, -⟩, rfl⟩ := hs
    refine ⟨h.setSocket (fun _ => h.sockets i hi hdue) fun hpromise => ?_, rfl⟩
    dsimp only at hpromise
    split at hpromise
    · cases hpromise
    · exact hpromise
  | closed i =>
    simp only [DatasoleClient.step, Option.ite_none_right_eq_some, Option.some.injEq] at hs
    obtain ⟨⟨hi, hdue, -⟩, rfl⟩ := hs
    obtain ⟨hstate, hpending, hcannot⟩ := hg.resolve_left (h.sockets i hi hdue)
    rw [onClose_eq (s := s.setSocket i _) hstate hpending hcannot]
    exact ⟨h.setSocket nofun id, rfl⟩
  | rpc =>
    simp only [DatasoleClient.step, Option.ite_none_right_eq_some, Option.some.injEq] at hs
    obtain ⟨-, rfl⟩ := hs
    exact ⟨⟨⟨h.timers, h.sockets, h.calls⟩, h.state⟩, rfl⟩
  | rpcEnds correlationId =>
    simp only [DatasoleClient.step, Option.some.injEq] at hs
    subst hs
    exact ⟨⟨⟨h.timers, h.sockets, h.calls⟩, h.state⟩, rfl⟩

/-- A call that begins turns nothing on or off. -/
theorem off_call (s : DatasoleClient) (kind : CallKind) : (s.call kind).off = s.off := by
  obtain ⟨t, phase, hc, -, -, hcall⟩ := s.call_spec kind
  rw [hcall]
  exact hc.off

theorem off_onClose (s : DatasoleClient) : s.onClose.off = s.off := by
  rw [onClose]
  split <;> rfl

/-- Opening a transport turns nothing on or off. -/
theorem off_openTransport (s : DatasoleClient) (created : Bool) :
    (s.openTransport created).off = s.off := by
  rw [openTransport]
  dsimp only
  split <;> rfl

/-- A call gets its client off only at its end. -/
theorem off_resume {k : ℕ} {created : Bool} (hs : s.resume k created = some t) :
    t.off = s.off ∨ s.calls k = { kind := .disconnect, phase := .disposed } ∧
      t = { s with state := .disconnected, off := true }.setPhase k .settled := by
  cases hphase : (s.calls k).phase with
  | disposingProxy =>
    simp only [DatasoleClient.resume, hphase, Option.some.injEq] at hs
    subst hs
    exact Or.inl (closes_disposeDirect _).off
  | disposingTransport =>
    simp only [DatasoleClient.resume, hphase, Option.some.injEq] at hs
    exact Or.inl (hs ▸ rfl)
  | disposed =>
    cases hkind : (s.calls k).kind with
    | connect =>
      simp only [DatasoleClient.resume, hphase, hkind, Option.some.injEq] at hs
      subst hs
      exact Or.inl (off_openTransport s created)
    | disconnect =>
      simp only [DatasoleClient.resume, hphase, hkind, Option.some.injEq] at hs
      exact Or.inr ⟨by rw [← hphase, ← hkind], hs.symm⟩
  | opening i =>
    simp only [DatasoleClient.resume, hphase] at hs
    split at hs <;> cases hs <;> exact Or.inl rfl
  | opened =>
    simp only [DatasoleClient.resume, hphase, Option.some.injEq] at hs
    exact Or.inl (hs ▸ rfl)
  | settled => simp only [DatasoleClient.resume, hphase, reduceCtorEq] at hs

/-- Only `connect` and a call that goes on may turn a client on. -/
theorem off_step {a : Act} (hs : s.step a = some t) (ha : a ≠ .connect)
    (hr : ∀ k c, a ≠ .resume k c) :
    t.off = s.off := by
  cases a with
  | connect => exact absurd rfl ha
  | resume k created => exact absurd rfl (hr k created)
  | disconnect =>
    simp only [DatasoleClient.step, Option.some.injEq] at hs
    exact hs ▸ s.off_call _
  | fire timer =>
    simp only [DatasoleClient.step, Option.ite_none_right_eq_some, Option.some.injEq] at hs
    exact hs.2 ▸ off_call _ _
  | opened i =>
    simp only [DatasoleClient.step, Option.ite_none_right_eq_some, Option.some.injEq] at hs
    exact hs.2 ▸ rfl
  | error i =>
    simp only [DatasoleClient.step, Option.ite_none_right_eq_some, Option.some.injEq] at hs
    exact hs.2 ▸ rfl
  | closed i =>
    simp only [DatasoleClient.step, Option.ite_none_right_eq_some, Option.some.injEq] at hs
    exact hs.2 ▸ off_onClose _
  | rpc =>
    simp only [DatasoleClient.step, Option.ite_none_right_eq_some, Option.some.injEq] at hs
    exact hs.2 ▸ rfl
  | rpcEnds correlationId =>
    simp only [DatasoleClient.step, Option.some.injEq] at hs
    exact hs ▸ rfl

/-- Step lemma: a client that is off is quiet. -/
theorem quiet_step (h : s.off → s.Quiet) {a : Act} (hg : s.Heeded a) (hs : s.step a = some t)
    (hoff : t.off) : t.Quiet := by
  by_cases ha : a = .connect
  · subst ha
    simp only [DatasoleClient.step, Option.some.injEq] at hs
    subst hs
    cases hoff
  by_cases hr : ∃ k created, a = .resume k created
  · obtain ⟨k, created, rfl⟩ := hr
    simp only [DatasoleClient.step, Option.ite_none_right_eq_some] at hs
    rcases off_resume hs.2 with hsame | ⟨hcall, rfl⟩
    · exact ((h (hsame ▸ hoff)).resume hs.1 hs.2).1
    · -- `disconnect` resolves, and finds the client at rest
      have hrest := hg hcall
      have hu : { s with state := .disconnected, off := true }.Quiet :=
        ⟨⟨hrest.timers, hrest.sockets, hrest.calls⟩, rfl⟩
      exact hu.setPhase trivial
  · have hsame := off_step hs ha fun k created hk => hr ⟨k, created, hk⟩
    exact ((h (hsame ▸ hoff)).step hg ha hs).1

/-- In every run in which close events of discarded sockets and ends of `disconnect` find what they
need, such an event changes nothing. Between the end of a `disconnect` and the next call of
`connect` by the application the client stays disconnected and opens no socket. -/
theorem discarded_sockets_change_nothing (options : ClientOptions) (acts : List Act)
    (hrun : Machine.exec step (new options) acts = some s)
    (hg : Machine.Guarded step Heeded (new options) acts) :
    (s.off → s.state = .disconnected) ∧ ∀ a t, s.Heeded a → s.step a = some t →
      (∀ i, a = .closed i → ¬ (s.sockets i).live →
        t.state = s.state ∧ t.pending = s.pending ∧ t.timers = s.timers) ∧
      (s.off → a ≠ .connect → t.off ∧ t.state = .disconnected ∧ t.socketCount = s.socketCount) := by
  have hquiet : s.off → s.Quiet :=
    Machine.exec_invariant_guarded (I := fun s => s.off → s.Quiet)
      (fun _ _ _ hI ha hs => quiet_step hI ha hs) nofun hg hrun
  refine ⟨fun hoff => (hquiet hoff).state, fun a t ha hs => ⟨?_, fun hoff hconnect => ?_⟩⟩
  · rintro i rfl hdead
    obtain ⟨hstate, hpending, hcannot⟩ := ha.resolve_left hdead
    simp only [DatasoleClient.step, Option.ite_none_right_eq_some, Option.some.injEq] at hs
    obtain ⟨-, rfl⟩ := hs
    rw [onClose_eq (s := s.setSocket i _) hstate hpending hcannot]
    exact ⟨rfl, rfl, rfl⟩
  · obtain ⟨hq, hcount⟩ := (hquiet hoff).step ha hconnect hs
    refine ⟨?_, hq.state, hcount⟩
    by_cases hr : ∃ k created, a = .resume k created
    · obtain ⟨k, created, rfl⟩ := hr
      simp only [DatasoleClient.step, Option.ite_none_right_eq_some] at hs
      rcases off_resume hs.2 with hsame | ⟨-, rfl⟩
      · exact hsame ▸ hoff
      · rfl
    · exact off_step hs hconnect (fun k created hk => hr ⟨k, created, hk⟩) ▸ hoff

/-- `connect()` until it resolves, then `disconnect()` until it resolves. -/
def connectThenDisconnect : List Act :=
  [.connect, .resume 0 true, .opened 0, .resume 0 true, .resume 0 true, .disconnect, .resume 1 true,
    .resume 1 true]

/-- A client without reconnect, whose socket delivers its close event after `disconnect`. -/
theorem discarded_sockets_change_nothing_without_reconnect :
    ∃ s t, Machine.exec step (new { directOptions with reconnect := false }) connectThenDisconnect =
      some s ∧ s.off ∧ ¬ (s.sockets 0).live ∧ s.step (.closed 0) = some t ∧
      (t.state = s.state ∧ t.pending = s.pending ∧ t.timers = s.timers) ∧
      t.off ∧ t.state = .disconnected ∧ t.socketCount = s.socketCount := by
  obtain ⟨s, hrun, htest⟩ := Machine.exists_exec_of_test
    (show (Machine.exec step (new { directOptions with reconnect := false })
      connectThenDisconnect).map (fun s => decide (s.off ∧ ¬ (s.sockets 0).live ∧
        s.Heeded (.closed 0) ∧ (s.step (.closed 0)).isSome)) = some true by decide +kernel)
  obtain ⟨hoff, hdead, hheeded, hsome⟩ := of_decide_eq_true htest
  obtain ⟨t, ht⟩ := Option.isSome_iff_exists.mp hsome
  obtain ⟨-, hstep⟩ := discarded_sockets_change_nothing _ _ hrun (by decide +kernel)
  obtain ⟨hsame, hstays⟩ := hstep _ t hheeded ht
  exact ⟨s, t, hrun, hoff, hdead, ht, hsame 0 rfl hdead, hstays hoff nofun⟩

/-- With reconnect on, the close event that arrives after `disconnect` has resolved schedules a
reconnect, and the timer opens a new socket. -/
theorem late_close_reconnects : ∃ s t u,
    Machine.exec step (new directOptions) connectThenDisconnect = some s ∧ s.off ∧
    s.state = .disconnected ∧ ¬ (s.sockets 0).live ∧
    s.step (.closed 0) = some t ∧ t.state = .reconnecting ∧ s.timers = [] ∧ t.timers = [0] ∧
    Machine.exec step t [.fire 0, .resume 2 true] = some u ∧ u.off ∧ u.state = .connecting ∧
    s.socketCount < u.socketCount := by
  obtain ⟨s, hrun, htest⟩ := Machine.exists_exec_of_test
    (show (Machine.exec step (new directOptions) connectThenDisconnect).map (fun s =>
      decide (s.off ∧ s.state = .disconnected ∧ ¬ (s.sockets 0).live ∧ s.timers = []) &&
        (s.step (.closed 0)).any fun t => decide (t.state = .reconnecting ∧ t.timers = [0]) &&
          (Machine.exec step t [.fire 0, .resume 2 true]).any fun u =>
            decide (u.off ∧ u.state = .connecting ∧ s.socketCount < u.socketCount)) = some true by
      decide +kernel)
  simp only [Bool.and_eq_true, decide_eq_true_eq, Option.any_eq_true] at htest
  obtain ⟨⟨hoff, hstate, hdead, htimers⟩, t, ht, ⟨hreconnecting, harmed⟩, u, hu, hend⟩ := htest
  exact ⟨s, t, u, hrun, hoff, hstate, hdead, ht, hreconnecting, htimers, harmed, hu, hend⟩

end DatasoleClient

end Datasole
