import Mathlib.Algebra.Order.Ring.Rat
import Mathlib.Data.Finset.Card
import Mathlib.Data.Finset.Range
import Mathlib.Tactic.Linarith
import Datasole.Client.Connection

/-!
# How often a client tries again

`scheduleReconnect` of `client/client.ts` and its delays: they double with each attempt, up to a
cap, and a random part is added. The attempts are counted from the last connection that came about.

`gives_up` is about a client that gets no connection, whatever calls, timers and sockets do: it sets
as many timers as it has attempts left, with these delays, and opens no more sockets than the timers
and the calls of the application ask for.
-/

namespace Datasole

namespace DatasoleClient

variable {s t : DatasoleClient}

/-- `base * Math.min(2 ** attempts, 64) + Math.random() * base`. -/
def reconnectDelay (base : ℚ) (reconnectAttempts : ℕ) (random : ℚ) : ℚ :=
  base * (min (2 ^ reconnectAttempts) 64 : ℕ) + random * base

/-- The call is one of `connect` that has not opened its transport yet. -/
def Call.willOpen : Call → Bool
  | ⟨.connect, .disposingProxy⟩ | ⟨.connect, .disposingTransport⟩ | ⟨.connect, .disposed⟩ => true
  | _ => false

/-- A call may still open a socket exactly if it is a `connect` that has not come further than
`disposeTransport`. -/
theorem Call.willOpen_iff {call : Call} :
    call.willOpen = true ↔ call.kind = .connect ∧ call.phase.Disposing := by
  obtain ⟨kind, phase⟩ := call
  cases kind <;> cases phase <;> simp [willOpen, Phase.Disposing]

def waiting (s : DatasoleClient) : Finset ℕ :=
  (Finset.range s.callCount).filter fun k => (s.calls k).willOpen

/-- The sockets opened, and those that the calls under way and the armed timers may open. -/
def demand (s : DatasoleClient) : ℕ := s.socketCount + s.waiting.card + s.timers.length

/-- The action resolves a `connect`. -/
def Connects (s : DatasoleClient) : Act → Prop
  | .resume k _ => (s.calls k).phase = .opened
  | _ => False

instance (s : DatasoleClient) : ∀ a, Decidable (s.Connects a)
  | .resume k _ => inferInstanceAs (Decidable ((s.calls k).phase = .opened))
  | .connect | .disconnect | .fire _ | .opened _ | .error _ | .closed _ | .rpc | .rpcEnds _ => .isFalse id

/-! ## What the operations cost -/

/-- An operation that sets no timer, with the calls of `connect` that it makes. -/
structure Costs (s t : DatasoleClient) (calls : ℕ) : Prop where
  options : t.options = s.options
  timerCount : t.timerCount = s.timerCount
  reconnectAttempts : t.reconnectAttempts = s.reconnectAttempts
  demand_le : t.demand ≤ s.demand + calls

/-- What leaves the calls alone is free. -/
theorem costs_of_calls (hoptions : t.options = s.options)
    (htimerCount : t.timerCount = s.timerCount)
    (hattempts : t.reconnectAttempts = s.reconnectAttempts) (hsockets : t.socketCount = s.socketCount)
    (hcalls : t.calls = s.calls) (hcallCount : t.callCount = s.callCount)
    (htimers : t.timers.length ≤ s.timers.length) : Costs s t 0 := by
  refine ⟨hoptions, htimerCount, hattempts, ?_⟩
  unfold demand waiting
  rw [hsockets, hcalls, hcallCount]
  omega

/-- A call that goes on, and does not go back. -/
theorem costs_setPhase {k : ℕ} {phase : Phase} (h : phase.Disposing → (s.calls k).phase.Disposing) :
    Costs s (s.setPhase k phase) 0 := by
  have hsubset : (s.setPhase k phase).waiting ⊆ s.waiting := by
    intro j hj
    obtain ⟨hlt, hopen⟩ := Finset.mem_filter.mp hj
    refine Finset.mem_filter.mpr ⟨hlt, ?_⟩
    dsimp only [setPhase] at hopen
    by_cases hjk : j = k
    · subst hjk
      rw [Function.update_self] at hopen
      obtain ⟨hkind, hphase⟩ := Call.willOpen_iff.mp hopen
      exact Call.willOpen_iff.mpr ⟨hkind, h hphase⟩
    · rwa [Function.update_of_ne hjk] at hopen
  have hcard := Finset.card_le_card hsubset
  refine ⟨rfl, rfl, rfl, ?_⟩
  change s.socketCount + (s.setPhase k phase).waiting.card + s.timers.length ≤ s.demand
  unfold demand
  omega

/-- The costs of two operations add up. -/
theorem Costs.trans {u : DatasoleClient} {m n : ℕ} (h : Costs s t m) (h' : Costs t u n) :
    Costs s u (m + n) where
  options := h'.options.trans h.options
  timerCount := h'.timerCount.trans h.timerCount
  reconnectAttempts := h'.reconnectAttempts.trans h.reconnectAttempts
  demand_le := by
    have hle := h.demand_le
    have hle' := h'.demand_le
    omega

/-- Clearing the timer costs nothing. -/
theorem costs_clearTimer (s : DatasoleClient) : Costs s s.clearTimer 0 := by
  unfold clearTimer
  split
  · exact costs_of_calls rfl rfl rfl rfl rfl rfl (List.length_filter_le ..)
  · exact costs_of_calls rfl rfl rfl rfl rfl rfl le_rfl

theorem costs_disposeDirect (s : DatasoleClient) : Costs s s.disposeDirect.1 0 := by
  unfold disposeDirect
  split <;> exact costs_of_calls rfl rfl rfl rfl rfl rfl le_rfl

/-- `disposeTransport` costs nothing. -/
theorem costs_disposeTransport (s : DatasoleClient) : Costs s s.disposeTransport.1 0 := by
  have hpending : Costs s { s with pending := [] } 0 :=
    costs_of_calls rfl rfl rfl rfl rfl rfl le_rfl
  unfold disposeTransport
  dsimp only
  split
  · exact costs_of_calls rfl rfl rfl rfl rfl rfl le_rfl
  · exact hpending.trans (costs_disposeDirect _)

/-- A further call. -/
theorem costs_addCall (call : Call) :
    Costs s { s with
      calls := Function.update s.calls s.callCount call
      callCount := s.callCount + 1 } call.willOpen.toNat := by
  refine ⟨rfl, rfl, rfl, ?_⟩
  have hsubset : waiting { s with
      calls := Function.update s.calls s.callCount call
      callCount := s.callCount + 1 } ⊆
        if call.willOpen then insert s.callCount s.waiting else s.waiting := by
    intro k hk
    obtain ⟨hlt, hopen⟩ := Finset.mem_filter.mp hk
    have hlt' : k < s.callCount + 1 := Finset.mem_range.mp hlt
    by_cases hlast : k = s.callCount
    · subst hlast
      dsimp only at hopen
      rw [Function.update_self] at hopen
      rw [if_pos hopen]
      exact Finset.mem_insert_self ..
    · dsimp only at hopen
      rw [Function.update_of_ne hlast] at hopen
      have hmem : k ∈ s.waiting :=
        Finset.mem_filter.mpr ⟨Finset.mem_range.mpr (by omega), hopen⟩
      split
      · exact Finset.mem_insert_of_mem hmem
      · exact hmem
  have hcard := Finset.card_le_card hsubset
  have hle : (if call.willOpen then insert s.callCount s.waiting else s.waiting).card ≤
      s.waiting.card + call.willOpen.toNat := by
    cases call.willOpen with
    | true => exact Finset.card_insert_le ..
    | false => exact le_rfl
  unfold demand
  dsimp only
  omega

/-- A call that begins costs one socket if it is a `connect`, and none otherwise. -/
theorem costs_call (s : DatasoleClient) (kind : CallKind) :
    Costs s (s.call kind) (decide (kind = .connect)).toNat := by
  have hdispose := s.costs_clearTimer.trans (costs_disposeTransport s.clearTimer)
  have hadd := hdispose.trans (costs_addCall ⟨kind, s.clearTimer.disposeTransport.2⟩)
  refine ⟨hadd.options, hadd.timerCount, hadd.reconnectAttempts, hadd.demand_le.trans ?_⟩
  have hle : (Call.willOpen ⟨kind, s.clearTimer.disposeTransport.2⟩).toNat ≤
      (decide (kind = .connect)).toNat := by
    cases kind with
    | connect => exact Bool.toNat_le _
    | disconnect => exact le_rfl
  omega

/-- A call that opens its transport does what was to be expected of it. -/
theorem costs_openTransport {k : ℕ} (hk : k < s.callCount)
    (hcall : s.calls k = ⟨.connect, .disposed⟩) (created : Bool) (transport : ℕ) :
    Costs s ((s.openTransport created).setPhase k (.opening transport)) 0 := by
  have hcalls : (s.openTransport created).calls = s.calls := by
    unfold openTransport
    dsimp only
    -- whichever transport is opened
    split <;> rfl
  have hfields : (s.openTransport created).options = s.options ∧
      (s.openTransport created).timerCount = s.timerCount ∧
      (s.openTransport created).reconnectAttempts = s.reconnectAttempts ∧
      (s.openTransport created).socketCount = s.socketCount + 1 ∧
      (s.openTransport created).callCount = s.callCount ∧
      (s.openTransport created).timers = s.timers := by
    unfold openTransport
    dsimp only
    split <;> exact ⟨rfl, rfl, rfl, rfl, rfl, rfl⟩
  -- one socket more, and one call less that will open one
  obtain ⟨hoptions, htimerCount, hattempts, hsockets, hcallCount, htimers⟩ := hfields
  refine ⟨hoptions, htimerCount, hattempts, ?_⟩
  have hmem : k ∈ s.waiting :=
    Finset.mem_filter.mpr ⟨Finset.mem_range.mpr hk, by rw [hcall]; rfl⟩
  have hsubset :
      ((s.openTransport created).setPhase k (.opening transport)).waiting ⊆ s.waiting.erase k := by
    intro j hj
    obtain ⟨hlt, hopen⟩ := Finset.mem_filter.mp hj
    dsimp only [setPhase] at hlt hopen
    rw [hcalls] at hopen
    rw [hcallCount] at hlt
    by_cases hjk : j = k
    · -- the call has its socket now
      subst hjk
      rw [Function.update_self] at hopen
      exact (Call.willOpen_iff.mp hopen).2.elim
    · rw [Function.update_of_ne hjk] at hopen
      exact Finset.mem_erase.mpr ⟨hjk, Finset.mem_filter.mpr ⟨hlt, hopen⟩⟩
  have hcard := Finset.card_le_card hsubset
  have hpos : 0 < s.waiting.card := Finset.card_pos.mpr ⟨k, hmem⟩
  rw [Finset.card_erase_of_mem hmem] at hcard
  change (s.openTransport created).socketCount +
    ((s.openTransport created).setPhase k (.opening transport)).waiting.card +
      (s.openTransport created).timers.length ≤ s.demand
  unfold demand
  rw [hsockets, htimers]
  omega

/-- A call that goes on costs nothing but where it resolves a `connect`: a socket that it opens was
counted when it began. -/
theorem costs_resume {k : ℕ} {created : Bool} (hk : k < s.callCount)
    (hphase : (s.calls k).phase ≠ .opened) (hs : s.resume k created = some t) : Costs s t 0 := by
  cases hold : (s.calls k).phase with
  | disposingProxy =>
    simp only [resume, hold, Option.some.injEq] at hs
    subst hs
    have hcleared : Costs s { s with workerProxy := none, sharedBuffer := false } 0 :=
      costs_of_calls rfl rfl rfl rfl rfl rfl le_rfl
    have hcalls : (disposeDirect { s with workerProxy := none, sharedBuffer := false }).1.calls =
        s.calls := by
      unfold disposeDirect
      dsimp only
      split <;> rfl
    refine (hcleared.trans (costs_disposeDirect _)).trans (costs_setPhase fun _ => ?_)
    rw [hcalls, hold]
    trivial
  | disposingTransport =>
    simp only [resume, hold, Option.some.injEq] at hs
    subst hs
    have hcleared : Costs s { s with transport := none } 0 :=
      costs_of_calls rfl rfl rfl rfl rfl rfl le_rfl
    refine hcleared.trans (costs_setPhase fun _ => ?_)
    change (s.calls k).phase.Disposing
    rw [hold]
    trivial
  | disposed =>
    cases hkind : (s.calls k).kind with
    | connect =>
      simp only [resume, hold, hkind, Option.some.injEq] at hs
      subst hs
      exact costs_openTransport hk (by rw [← hold, ← hkind]) created _
    | disconnect =>
      simp only [resume, hold, hkind, Option.some.injEq] at hs
      subst hs
      have hoff : Costs s { s with state := .disconnected, off := true } 0 :=
        costs_of_calls rfl rfl rfl rfl rfl rfl le_rfl
      exact hoff.trans (costs_setPhase False.elim)
  | opening i =>
    simp only [resume, hold] at hs
    split at hs
    · cases hs
    · cases hs
      exact costs_setPhase False.elim
    · cases hs
      refine costs_setPhase fun hdisposing => ?_
      split at hdisposing <;> exact hdisposing.elim
  | opened => exact absurd hold hphase
  | settled => simp only [resume, hold, reduceCtorEq] at hs

/-- A timer is set: one attempt more, and one socket that may come. -/
structure Retries (s t : DatasoleClient) : Prop where
  canReconnect : s.canReconnect = true
  options : t.options = s.options
  timerCount : t.timerCount = s.timerCount + 1
  reconnectAttempts : t.reconnectAttempts = s.reconnectAttempts + 1
  demand_le : t.demand ≤ s.demand + 1

/-- The application calls `connect()`. -/
def asks : Act → Bool
  | .connect => true
  | _ => false

/-- A step that resolves no `connect` sets a timer, or costs at most the call that it makes. -/
theorem costs_or_retries {a : Act} (hs : s.step a = some t) (ha : ¬ s.Connects a) :
    Costs s t (asks a).toNat ∨ Retries s t ∧ asks a = false := by
  cases a with
  | connect =>
    cases hs
    have hoff : Costs (s.call .connect) { s.call .connect with off := false } 0 :=
      costs_of_calls rfl rfl rfl rfl rfl rfl le_rfl
    exact Or.inl ((s.costs_call .connect).trans hoff)
  | disconnect =>
    cases hs
    exact Or.inl (s.costs_call .disconnect)
  | resume k created =>
    simp only [step, Option.ite_none_right_eq_some] at hs
    exact Or.inl (costs_resume hs.1 ha hs.2)
  | fire timer =>
    simp only [step, Option.ite_none_right_eq_some, Option.some.injEq] at hs
    obtain ⟨hmem, rfl⟩ := hs
    have hcall := costs_call { s with timers := s.timers.filter (· ≠ timer) } .connect
    refine Or.inl ⟨hcall.options, hcall.timerCount, hcall.reconnectAttempts,
      hcall.demand_le.trans ?_⟩
    -- the timer that fires pays for the call
    have hshorter : (s.timers.filter (· ≠ timer)).length < s.timers.length :=
      List.length_filter_lt_length_iff_exists.mpr ⟨timer, hmem, by simp⟩
    change s.socketCount + s.waiting.card + (s.timers.filter (· ≠ timer)).length + 1 ≤ s.demand + 0
    unfold demand
    omega
  | closed i =>
    simp only [step, Option.ite_none_right_eq_some, Option.some.injEq] at hs
    obtain ⟨-, rfl⟩ := hs
    unfold onClose
    dsimp only
    split
    · next hcan =>
      refine Or.inr ⟨⟨hcan, rfl, rfl, rfl, ?_⟩, rfl⟩
      change s.socketCount + s.waiting.card + (s.timers ++ [s.timerCount]).length ≤ s.demand + 1
      rw [List.length_append, List.length_singleton]
      unfold demand
      omega
    · exact Or.inl (costs_of_calls rfl rfl rfl rfl rfl rfl le_rfl)
  | opened i =>
    simp only [step, Option.ite_none_right_eq_some, Option.some.injEq] at hs
    obtain ⟨-, rfl⟩ := hs
    exact Or.inl (costs_of_calls rfl rfl rfl rfl rfl rfl le_rfl)
  | error i =>
    simp only [step, Option.ite_none_right_eq_some, Option.some.injEq] at hs
    obtain ⟨-, rfl⟩ := hs
    exact Or.inl (costs_of_calls rfl rfl rfl rfl rfl rfl le_rfl)
  | rpc =>
    simp only [step, Option.ite_none_right_eq_some, Option.some.injEq] at hs
    obtain ⟨-, rfl⟩ := hs
    exact Or.inl (costs_of_calls rfl rfl rfl rfl rfl rfl le_rfl)
  | rpcEnds correlationId =>
    cases hs
    exact Or.inl (costs_of_calls rfl rfl rfl rfl rfl rfl le_rfl)

/-! ## Runs without a connection -/

/-- A client, and the delays with which it has set timers, in order. -/
structure Timed where
  client : DatasoleClient
  delays : List ℚ

/-- The second is what `Math.random()` gives, if it is called. -/
def Timed.step (base : ℚ) (s : Timed) (a : Act × ℚ) : Option Timed :=
  (s.client.step a.1).map fun client =>
    { client
      delays :=
        if client.timerCount = s.client.timerCount then s.delays
        else s.delays ++ [reconnectDelay base client.reconnectAttempts a.2] }

/-- The attempts stay within the limit. -/
structure Limited (options : ClientOptions) (s : DatasoleClient) : Prop where
  options_eq : s.options = options
  attempts_le : ∀ limit ∈ options.maxReconnectAttempts, s.reconnectAttempts ≤ limit

/-- A timer is set only where the options ask for it. -/
theorem Retries.reconnect (h : Retries s t) : s.options.reconnect = true := by
  have hcan := h.canReconnect
  rw [DatasoleClient.canReconnect, Bool.and_eq_true] at hcan
  exact hcan.1

/-- One attempt more stays within the limit. -/
theorem Limited.retries {options : ClientOptions} (h : Limited options s) (hretries : Retries s t) :
    Limited options t where
  options_eq := hretries.options.trans h.options_eq
  attempts_le := by
    intro limit hlimit
    have hcan := hretries.canReconnect
    rw [canReconnect, Bool.and_eq_true, h.options_eq, Option.mem_def.mp hlimit] at hcan
    have hlt : s.reconnectAttempts < limit := of_decide_eq_true hcan.2
    rw [hretries.reconnectAttempts]
    exact hlt

/-- An operation that sets no timer leaves the attempts or starts them afresh. -/
theorem Limited.costs {options : ClientOptions} {calls : ℕ} (h : Limited options s)
    (hcosts : Costs s t calls) : Limited options t where
  options_eq := hcosts.options.trans h.options_eq
  attempts_le := hcosts.reconnectAttempts ▸ h.attempts_le

/-- Every step keeps the attempts within the limit. -/
theorem Limited.step {options : ClientOptions} (h : Limited options s) {a : Act}
    (hs : s.step a = some t) : Limited options t := by
  by_cases ha : s.Connects a
  · cases a with
    | resume k created =>
      simp only [DatasoleClient.step, Option.ite_none_right_eq_some] at hs
      obtain ⟨-, hs⟩ := hs
      have hphase : (s.calls k).phase = .opened := ha
      simp only [resume, hphase, Option.some.injEq] at hs
      subst hs
      exact ⟨h.options_eq, fun limit _ => Nat.zero_le limit⟩
    | connect | disconnect | fire | opened | error | closed | rpc | rpcEnds => exact ha.elim
  · rcases costs_or_retries hs ha with hcosts | ⟨hretries, -⟩
    · exact h.costs hcosts
    · exact h.retries hretries

/-- In every run the attempts stay within the limit. -/
theorem limited_exec {base : ℚ} {options : ClientOptions} {acts : List (Act × ℚ)} {s : Timed}
    (hrun : Machine.exec (Timed.step base) ⟨new options, []⟩ acts = some s) :
    Limited options s.client := by
  refine Machine.exec_invariant (I := fun s : Timed => Limited options s.client) ?_ ?_ hrun
  · intro s a t h hs
    obtain ⟨client, hclient, rfl⟩ := Option.map_eq_some_iff.mp hs
    exact h.step hclient
  · exact ⟨rfl, fun limit _ => Nat.zero_le limit⟩

/-- The delay of an attempt, up to the random part. -/
def InTime (base : ℚ) (attempt : ℕ) (delay : ℚ) : Prop :=
  base * (min (2 ^ attempt) 64 : ℕ) ≤ delay ∧ delay < base * (min (2 ^ attempt) 64 : ℕ) + base

/-- The delay that `scheduleReconnect` computes is that of its attempt. -/
theorem inTime_reconnectDelay {base random : ℚ} (hbase : 0 < base)
    (hrandom : 0 ≤ random ∧ random < 1)
    (attempt : ℕ) : InTime base attempt (reconnectDelay base attempt random) := by
  have hnonneg : 0 ≤ random * base := mul_nonneg hrandom.1 hbase.le
  have hlt : random * base < base := (mul_lt_iff_lt_one_left hbase).mpr hrandom.2
  unfold InTime reconnectDelay
  constructor <;> linarith

/-- What a client without a connection has come to: the delays it has added, and the sockets. -/
structure GivesUp (base : ℚ) (options : ClientOptions) (asked : ℕ) (s t : Timed)
    (delays : List ℚ) : Prop where
  delays_eq : t.delays = s.delays ++ delays
  none : options.reconnect = false → delays = []
  length_le : ∀ limit ∈ options.maxReconnectAttempts,
    s.client.reconnectAttempts + delays.length ≤ limit
  inTime : ∀ k delay, delays[k]? = some delay → InTime base (s.client.reconnectAttempts + k + 1) delay
  demand_le : t.client.demand ≤ s.client.demand + asked + delays.length

/-- Without a `connect` that resolves, each attempt of a run has the next delay, and the sockets are
no more than the attempts and the calls of `connect`. The induction is on the run; the limit bounds
the attempts that are left. -/
theorem givesUp_exec {base : ℚ} (hbase : 0 < base) {options : ClientOptions} {s t : Timed}
    (hlimited : Limited options s.client) {acts : List (Act × ℚ)}
    (hrun : Machine.exec (Timed.step base) s acts = some t)
    (hnone : Machine.Guarded (Timed.step base) (fun s a => ¬ s.client.Connects a.1) s acts)
    (hrandom : ∀ a ∈ acts, 0 ≤ a.2 ∧ a.2 < 1) :
    ∃ delays, GivesUp base options (acts.countP fun a => asks a.1) s t delays := by
  induction acts generalizing s with
  | nil =>
    cases hrun
    refine ⟨[], (List.append_nil _).symm, fun _ => rfl, hlimited.attempts_le, ?_, le_rfl⟩
    intro k delay hk
    cases hk
  | cons a acts ih =>
    obtain ⟨u, hu, hrun⟩ := Machine.exec_cons_eq_some.mp hrun
    have hrest := hnone.2 u hu
    obtain ⟨client, hclient, rfl⟩ := Option.map_eq_some_iff.mp hu
    have hrandom' : ∀ b ∈ acts, 0 ≤ b.2 ∧ b.2 < 1 :=
      fun b hb => hrandom b (List.mem_cons_of_mem _ hb)
    rw [List.countP_cons]
    -- a step has its costs, or it is the one that sets a timer
    rcases costs_or_retries hclient hnone.1 with hcosts | ⟨hretries, hasks⟩
    · obtain ⟨delays, h⟩ := ih (hlimited.costs hcosts) hrun hrest hrandom'
      refine ⟨delays, h.delays_eq.trans ?_, h.none, ?_, ?_, ?_⟩
      · -- no timer is set, so no delay is drawn
        rw [if_pos hcosts.timerCount]
      · exact hcosts.reconnectAttempts ▸ h.length_le
      · exact hcosts.reconnectAttempts ▸ h.inTime
      · have hle := h.demand_le
        have hcost := hcosts.demand_le
        have hnat : (asks a.1).toNat = if asks a.1 = true then 1 else 0 := by cases asks a.1 <;> rfl
        dsimp only at hle
        omega
    · obtain ⟨delays, h⟩ := ih (hlimited.retries hretries) hrun hrest hrandom'
      have hattempts := hretries.reconnectAttempts
      have hne : client.timerCount ≠ s.client.timerCount := by
        have hcount := hretries.timerCount
        omega
      -- the delay of this attempt is the first
      refine ⟨reconnectDelay base client.reconnectAttempts a.2 :: delays, ?_, fun hno => ?_, ?_, ?_,
        ?_⟩
      · rw [h.delays_eq, if_neg hne, List.append_assoc]
        rfl
      · have hreconnect := hretries.reconnect
        rw [hlimited.options_eq, hno] at hreconnect
        cases hreconnect
      · intro limit hlimit
        have hle := h.length_le limit hlimit
        dsimp only at hle
        rw [List.length_cons]
        omega
      · intro k delay hk
        cases k with
        -- the first delay is in time for this attempt, and the others for the later ones
        | zero =>
          obtain rfl := Option.some.inj hk
          rw [hattempts]
          exact inTime_reconnectDelay hbase (hrandom a List.mem_cons_self) _
        | succ k =>
          have hin := h.inTime k delay hk
          have hindex :
              s.client.reconnectAttempts + (k + 1) + 1 = client.reconnectAttempts + k + 1 := by omega
          rw [hindex]
          exact hin
      · have hle := h.demand_le
        have hcost := hretries.demand_le
        dsimp only at hle
        rw [hasks, if_neg Bool.false_ne_true, List.length_cons]
        omega

/-- In every run, from any moment on and as long as no connection comes about: a client sets at most
as many timers as its limit leaves it attempts, none without `reconnect`; the one for attempt number
`n` since the last connection waits `base * min (2 ^ n) 64`, and up to `base` longer; and it opens
no more sockets than the calls under way, the armed timers, the application's calls of `connect` and
these timers ask for. -/
theorem gives_up {base : ℚ} (hbase : 0 < base) (options : ClientOptions)
    (before after : List (Act × ℚ)) (s t : Timed)
    (hbefore : Machine.exec (Timed.step base) ⟨new options, []⟩ before = some s)
    (hafter : Machine.exec (Timed.step base) s after = some t)
    (hnone : Machine.Guarded (Timed.step base) (fun s a => ¬ s.client.Connects a.1) s after)
    (hrandom : ∀ a ∈ after, 0 ≤ a.2 ∧ a.2 < 1) :
    ∃ delays, t.delays = s.delays ++ delays ∧ (options.reconnect = false → delays = []) ∧
      (∀ limit ∈ options.maxReconnectAttempts,
        s.client.reconnectAttempts + delays.length ≤ limit) ∧
      (∀ k delay, delays[k]? = some delay →
        InTime base (s.client.reconnectAttempts + k + 1) delay) ∧
      t.client.socketCount ≤ s.client.socketCount + s.client.waiting.card + s.client.timers.length +
        (after.countP fun a => asks a.1) + delays.length := by
  obtain ⟨delays, h⟩ := givesUp_exec hbase (limited_exec hbefore) hafter hnone hrandom
  refine ⟨delays, h.delays_eq, h.none, h.length_le, h.inTime, ?_⟩
  have hle := h.demand_le
  unfold demand at hle
  omega

/-- A connection comes about. -/
def connecting : List (Act × ℚ) :=
  [(.connect, 0), (.resume 0 true, 0), (.opened 0, 0), (.resume 0 true, 0), (.resume 0 true, 0)]

/-- It is lost, and the next does not come about. -/
def losing : List (Act × ℚ) :=
  [(.closed 0, 1 / 2), (.fire 0, 0), (.resume 1 true, 0), (.resume 1 true, 0), (.closed 1, 1 / 4)]

/-- Two losses in a row: the second attempt waits longer, and there is a socket for each. -/
theorem two_attempts : ∃ s t,
    Machine.exec (Timed.step 1000) ⟨new directOptions, []⟩ connecting = some s ∧
      Machine.exec (Timed.step 1000) s losing = some t ∧ t.delays = [2500, 4250] ∧
      t.client.socketCount ≤ 3 ∧ ∀ k delay, t.delays[k]? = some delay → InTime 1000 (k + 1) delay := by
  have hrun : (Machine.exec (Timed.step 1000) ⟨new directOptions, []⟩ connecting).bind (fun s =>
      (Machine.exec (Timed.step 1000) s losing).map fun t =>
        (s.delays, s.client.reconnectAttempts, s.client.demand,
          decide (Machine.Guarded (Timed.step 1000) (fun s a => ¬ s.client.Connects a.1) s losing),
          t.delays)) = some ([], 0, 1, true, [2500, 4250]) := by decide +kernel
  obtain ⟨s, hs, hrun⟩ := Option.bind_eq_some_iff.mp hrun
  obtain ⟨t, ht, hend⟩ := Option.map_eq_some_iff.mp hrun
  simp only [Prod.mk.injEq, decide_eq_true_eq] at hend
  obtain ⟨hdelays, hattempts, hdemand, hnone, htdelays⟩ := hend
  refine ⟨s, t, hs, ht, htdelays, ?_⟩
  obtain ⟨delays, hadded, -, -, htime, hsockets⟩ := gives_up (by norm_num) directOptions connecting losing
    s t hs ht hnone (by simp [losing]; norm_num)
  rw [hdelays, List.nil_append] at hadded
  subst hadded
  unfold demand at hdemand
  rw [htdelays] at hsockets
  refine ⟨hsockets.trans (by rw [hdemand]; decide), ?_⟩
  rw [hattempts] at htime
  intro k delay hk
  have hin := htime k delay hk
  rwa [Nat.zero_add] at hin

end DatasoleClient

end Datasole
