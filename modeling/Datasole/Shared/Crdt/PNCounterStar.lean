import Mathlib.Logic.Function.Basic
import Datasole.Common.Machine
import Datasole.Shared.Crdt.PNCounter

/-!
# The counter in the star protocol

A hub counter of node `server` and one counter for each client id. A client's increment or decrement
updates its own counter and queues the operation for the hub; the hub applies the operations of each
queue in order and, after each, sends its state to every client. A client may merge any state that
was sent, in any order and as often as it likes.

The hub counts operations and the clients take maxima. Neither counts anything twice because the
entry of a client is written by that client alone: the hub's copy lags behind it by exactly the
operations in flight, and the states that come back never exceed the hub's copy.
-/

namespace Datasole

namespace CounterStar

open PNCounter

/-- The counters, the queues to the hub, and every state that the hub has sent to the clients. -/
structure Star where
  hub : PNCounter ℤ
  clients : String → PNCounter ℤ
  toHub : String → List (CrdtOperation ℤ)
  sent : List (CrdtState ℤ)

inductive Act where
  /-- A client increments or decrements its counter. -/
  | bump (client : String) (side : Side) (amount : ℕ) (now : Timestamp)
  /-- The hub takes the first operation that a client has queued. -/
  | hubApply (client : String) (now : Timestamp)
  /-- A client merges the `i`-th state that the hub has sent. -/
  | merge (client : String) (i : ℕ)
deriving DecidableEq

def init : Star where
  hub := PNCounter.new "server"
  clients := PNCounter.new
  toHub := fun _ => []
  sent := []

def step (ids : Finset String) (s : Star) : Act → Option Star
  | .bump client side amount now =>
    if client ∈ ids then
      let (counter, op) := (s.clients client).bump side amount now
      some { s with
        clients := Function.update s.clients client counter
        toHub := Function.update s.toHub client (s.toHub client ++ [op]) }
    else none
  | .hubApply client now =>
    match s.toHub client with
    | [] => none
    | op :: rest =>
      let hub := s.hub.apply op
      some { s with
        hub := hub
        toHub := Function.update s.toHub client rest
        sent := s.sent ++ [hub.state now] }
  | .merge client i =>
    if client ∈ ids then
      s.sent[i]?.map fun state =>
        { s with clients := Function.update s.clients client ((s.clients client).merge state) }
    else none

/-- The operation that an action issues. -/
def Act.issued : Act → Option (CrdtOperation ℤ)
  | .bump client side amount now => some (bumpOp client side amount now)
  | .hubApply _ _ | .merge _ _ => none

/-- The operations that a run issues, in order. -/
def ops (acts : List Act) : List (CrdtOperation ℤ) := acts.filterMap Act.issued

/-- No operation is in flight. -/
def NoneInFlight (ids : Finset String) (s : Star) : Prop := ∀ c ∈ ids, s.toHub c = []

/-- Every client has merged the last state that the hub sent. -/
def MergedLast (ids : Finset String) (acts : List Act) (s : Star) : Prop :=
  ∀ c ∈ ids, s.sent = [] ∨ Act.merge c (s.sent.length - 1) ∈ acts

instance (ids : Finset String) : DecidablePred (NoneInFlight ids) :=
  fun s => inferInstanceAs (Decidable (∀ c ∈ ids, s.toHub c = []))

instance (ids : Finset String) (acts : List Act) : DecidablePred (MergedLast ids acts) :=
  fun s => inferInstanceAs
    (Decidable (∀ c ∈ ids, s.sent = [] ∨ Act.merge c (s.sent.length - 1) ∈ acts))

/-! ## The invariant -/

/-- A client's own entry is what it has issued, and the hub's entry for it lags by the operations in
flight. -/
structure Ledger (ids : Finset String) (acts : List Act) (s : Star) : Prop where
  issuer : ∀ op ∈ ops acts, op.nodeId ∈ ids
  client_id : ∀ c, (s.clients c).nodeId = c
  queued : ∀ c, ∀ op ∈ s.toHub c, c ∈ ids ∧ op.nodeId = c ∧ 0 ≤ op.value.getD 1
  own : ∀ c ∈ ids, ∀ side, (s.clients c).entry side c = paid (ops acts) side c
  in_flight : ∀ c ∈ ids, ∀ side,
    s.hub.entry side c + paid (s.toHub c) side c = (s.clients c).entry side c

/-- What clients know of each other comes from the hub: entries of others never exceed the hub's,
and a state that was merged is a lower bound. -/
structure Bounds (ids : Finset String) (acts : List Act) (s : Star) : Prop where
  hub_nonneg : s.hub.Nonneg
  hub_zero : ∀ side n, n ∉ ids → s.hub.entry side n = 0
  client_nonneg : ∀ c, (s.clients c).Nonneg
  client_le : ∀ c, ∀ side n, n ≠ c → (s.clients c).entry side n ≤ s.hub.entry side n
  sent_le : ∀ st ∈ s.sent, ∀ side n, shown st side n ≤ s.hub.entry side n
  sent_last : ∀ side n, s.hub.entry side n = s.sent.getLast?.elim 0 (shown · side n)
  merged : ∀ c i, Act.merge c i ∈ acts → ∃ st, s.sent[i]? = some st ∧
    ∀ side n, shown st side n ≤ (s.clients c).entry side n

variable {ids : Finset String} {acts : List Act} {s t : Star}

theorem ops_concat (acts : List Act) (a : Act) :
    ops (acts ++ [a]) = ops acts ++ a.issued.toList := by
  cases h : a.issued <;> simp [ops, h]

/-- Nobody has issued anything. -/
theorem ledger_init : Ledger ids [] init where
  issuer _ h := by cases h
  client_id _ := rfl
  queued _ _ h := by cases h
  own c _ side := entry_new c side c
  in_flight c _ side := by
    rw [show init.toHub c = [] from rfl, paid_nil, add_zero]
    exact (entry_new "server" side c).trans (entry_new c side c).symm

/-- Nothing is known of anyone. -/
theorem bounds_init : Bounds ids [] init where
  hub_nonneg := nonneg_new "server"
  hub_zero side n _ := entry_new "server" side n
  client_nonneg c := nonneg_new c
  client_le c side n _ := ((entry_new c side n).trans (entry_new "server" side n).symm).le
  sent_le _ h := by cases h
  sent_last side n := entry_new "server" side n
  merged _ _ h := by cases h

/-- A local operation adds the same amount to the client's own entry and to its queue. -/
theorem ledger_bump (h : Ledger ids acts s) {client : String} {side : Side} {amount : ℕ}
    {now : Timestamp} (hs : step ids s (.bump client side amount now) = some t) :
    Ledger ids (acts ++ [.bump client side amount now]) t := by
  simp only [step, Option.ite_none_right_eq_some, Option.some.injEq] at hs
  obtain ⟨hc, rfl⟩ := hs
  have hops := ops_concat acts (.bump client side amount now)
  simp only [Act.issued, Option.toList_some] at hops
  refine ⟨fun op hop => ?_, nodeId_update h.client_id (by simpa using h.client_id client),
    fun c op hop => ?_, fun c hcin side' => ?_, fun c hcin side' => ?_⟩
  · rw [hops] at hop
    rcases List.mem_append.mp hop with hop | hop
    · exact h.issuer op hop
    · rw [List.mem_singleton.mp hop]
      exact hc
  · by_cases hcc : c = client
    · subst hcc
      simp only [Function.update_self, bump_snd, h.client_id c] at hop
      rcases List.mem_append.mp hop with hop | hop
      · exact h.queued c op hop
      · rw [List.mem_singleton.mp hop]
        exact ⟨hc, rfl, Int.natCast_nonneg amount⟩
    · simp only [Function.update_of_ne hcc] at hop
      exact h.queued c op hop
  · rw [hops, paid_concat, ← h.own c hcin side']
    by_cases hcc : c = client
    · subst hcc
      simp only [Function.update_self]
      rw [entry_bump, h.client_id c]
    · simp only [Function.update_of_ne hcc]
      rw [contribution_bumpOp, if_neg fun hcl => hcc hcl.2.symm, add_zero]
  · by_cases hcc : c = client
    · subst hcc
      simp only [Function.update_self, bump_snd, h.client_id c]
      rw [entry_bump, h.client_id c, paid_concat, ← add_assoc, h.in_flight c hcin side']
    · simp only [Function.update_of_ne hcc]
      exact h.in_flight c hcin side'

/-- The hub moves the amount of an operation from the queue to its own entry for the client. -/
theorem ledger_hubApply (h : Ledger ids acts s) {client : String} {now : Timestamp}
    (hs : step ids s (.hubApply client now) = some t) :
    Ledger ids (acts ++ [.hubApply client now]) t := by
  cases hq : s.toHub client with
  | nil => simp [step, hq] at hs
  | cons op rest =>
    simp only [step, hq, Option.some.injEq] at hs
    subst hs
    have hops : ops (acts ++ [.hubApply client now]) = ops acts :=
      (ops_concat acts _).trans (List.append_nil _)
    obtain ⟨hc, hid, hnonneg⟩ := h.queued client op (by rw [hq]; exact List.mem_cons_self)
    refine ⟨by rw [hops]; exact h.issuer, h.client_id, fun c o ho => ?_, by rw [hops]; exact h.own,
      fun c hcin side => ?_⟩
    · by_cases hcc : c = client
      · subst hcc
        simp only [Function.update_self] at ho
        exact h.queued c o (by rw [hq]; exact List.mem_cons_of_mem _ ho)
      · simp only [Function.update_of_ne hcc] at ho
        exact h.queued c o ho
    · dsimp only
      rw [entry_apply, ← h.in_flight c hcin side]
      by_cases hcc : c = client
      · subst hcc
        rw [Function.update_self, hq, paid_cons, add_assoc]
      · have hzero : contribution op side c = 0 := by
          rw [contribution, if_neg fun hcl => hcc (hcl.2.symm.trans hid)]
        rw [Function.update_of_ne hcc, hzero, add_zero]

/-- A merge leaves the client's own entry alone: the hub's copy of it is never larger. -/
theorem ledger_merge (h : Ledger ids acts s) (hb : Bounds ids acts s) {client : String} {i : ℕ}
    (hs : step ids s (.merge client i) = some t) : Ledger ids (acts ++ [.merge client i]) t := by
  simp only [step, Option.ite_none_right_eq_some, Option.map_eq_some_iff] at hs
  obtain ⟨hc, st, hst, rfl⟩ := hs
  have hops : ops (acts ++ [.merge client i]) = ops acts :=
    (ops_concat acts _).trans (List.append_nil _)
  have hown : ∀ c ∈ ids, ∀ side,
      (Function.update s.clients client ((s.clients client).merge st) c).entry side c =
        (s.clients c).entry side c := by
    intro c hcin side
    by_cases hcc : c = client
    · -- what comes back from the hub lags behind by the operations in flight
      subst hcc
      have hqueue : 0 ≤ paid (s.toHub c) side c :=
        paid_nonneg (fun op hop => (h.queued c op hop).2.2) side c
      have hle : shown st side c ≤ (s.clients c).entry side c := by
        rw [← h.in_flight c hcin side]
        exact (hb.sent_le st (List.mem_of_getElem? hst) side c).trans (le_add_of_nonneg_right hqueue)
      rw [Function.update_self, entry_merge st side c (hb.client_nonneg c side c), max_eq_left hle]
    · rw [Function.update_of_ne hcc]
  refine ⟨by rw [hops]; exact h.issuer,
    nodeId_update h.client_id (by simpa using h.client_id client), h.queued,
    fun c hcin side => ?_, fun c hcin side => ?_⟩
  · rw [hops, ← h.own c hcin side]
    exact hown c hcin side
  · exact (h.in_flight c hcin side).trans (hown c hcin side).symm

/-- A local operation raises no entry but the client's own. -/
theorem bounds_bump (h : Bounds ids acts s) (hl : Ledger ids acts s) {client : String} {side : Side}
    {amount : ℕ} {now : Timestamp} (hs : step ids s (.bump client side amount now) = some t) :
    Bounds ids (acts ++ [.bump client side amount now]) t := by
  simp only [step, Option.ite_none_right_eq_some, Option.some.injEq] at hs
  obtain ⟨hc, rfl⟩ := hs
  have hentry : ∀ c side' n,
      (Function.update s.clients client ((s.clients client).bump side amount now).1 c).entry side' n =
        (s.clients c).entry side' n +
          if c = client then contribution (bumpOp client side amount now) side' n else 0 := by
    intro c side' n
    by_cases hcc : c = client
    · subst hcc
      rw [Function.update_self, entry_bump, hl.client_id c, if_pos rfl]
    · rw [Function.update_of_ne hcc, if_neg hcc, add_zero]
  have hgrow : ∀ c side' n, (s.clients c).entry side' n ≤
      (Function.update s.clients client ((s.clients client).bump side amount now).1 c).entry side' n := by
    intro c side' n
    have hop : 0 ≤ (bumpOp client side amount now).value.getD 1 := Int.natCast_nonneg amount
    rw [hentry]
    refine le_add_of_nonneg_right ?_
    split
    · exact contribution_nonneg hop side' n
    · exact le_rfl
  refine ⟨h.hub_nonneg, h.hub_zero, fun c side' n => (h.client_nonneg c side' n).trans (hgrow c side' n),
    fun c side' n hn => ?_, h.sent_le, h.sent_last, fun c i hi => ?_⟩
  · dsimp only
    rw [hentry, contribution_bumpOp]
    split
    · next hcc =>
      rw [if_neg fun hcl => hn (hcl.2.symm.trans hcc.symm), add_zero]
      exact h.client_le c side' n hn
    · rw [add_zero]
      exact h.client_le c side' n hn
  · obtain ⟨st, hst, hle⟩ := h.merged c i (by simpa using hi)
    exact ⟨st, hst, fun side' n => (hle side' n).trans (hgrow c side' n)⟩

/-- The hub's entries only grow, and the state it sends shows them. -/
theorem bounds_hubApply (hproto : "__proto__" ∉ ids) (h : Bounds ids acts s)
    (hl : Ledger ids acts s) {client : String} {now : Timestamp}
    (hs : step ids s (.hubApply client now) = some t) :
    Bounds ids (acts ++ [.hubApply client now]) t := by
  cases hq : s.toHub client with
  | nil => simp [step, hq] at hs
  | cons op rest =>
    simp only [step, hq, Option.some.injEq] at hs
    subst hs
    obtain ⟨hc, hid, hnonneg⟩ := hl.queued client op (by rw [hq]; exact List.mem_cons_self)
    have hgrow : ∀ side n, s.hub.entry side n ≤ (s.hub.apply op).entry side n := fun side n => by
      rw [entry_apply]
      exact le_add_of_nonneg_right (contribution_nonneg hnonneg side n)
    have hzero : ∀ side n, n ∉ ids → (s.hub.apply op).entry side n = 0 := fun side n hn => by
      rw [entry_apply, h.hub_zero side n hn, contribution, if_neg, add_zero]
      rintro ⟨-, hop⟩
      exact hn (hop.symm.trans hid ▸ hc)
    -- a state leaves out the key `__proto__`, where the hub has nothing to show
    have hstate :
        ∀ side n, shown ((s.hub.apply op).state now) side n = (s.hub.apply op).entry side n :=
      fun side n => by
        rw [shown_state]
        split
        · next hn => rw [hn, hzero side _ hproto]
        · rfl
    refine ⟨h.hub_nonneg.apply hnonneg, hzero, h.client_nonneg,
      fun c side n hn => (h.client_le c side n hn).trans (hgrow side n), fun st hst side n => ?_,
      fun side n => ?_, fun c i hi => ?_⟩
    · rcases List.mem_append.mp hst with hst | hst
      · exact (h.sent_le st hst side n).trans (hgrow side n)
      · rw [List.mem_singleton.mp hst]
        exact (hstate side n).le
    · dsimp only
      rw [List.getLast?_concat, Option.elim_some, hstate]
    · obtain ⟨st, hst, hle⟩ := h.merged c i (by simpa using hi)
      have hlt : i < s.sent.length := (List.getElem?_eq_some_iff.mp hst).1
      exact ⟨st, (List.getElem?_append_left hlt).trans hst, hle⟩

/-- A merge raises a client's entries to what the state shows, which the hub bounds. -/
theorem bounds_merge (h : Bounds ids acts s) {client : String} {i : ℕ}
    (hs : step ids s (.merge client i) = some t) : Bounds ids (acts ++ [.merge client i]) t := by
  simp only [step, Option.ite_none_right_eq_some, Option.map_eq_some_iff] at hs
  obtain ⟨hc, st, hst, rfl⟩ := hs
  have hentry : ∀ c side n,
      (Function.update s.clients client ((s.clients client).merge st) c).entry side n =
        if c = client then max ((s.clients c).entry side n) (shown st side n)
        else (s.clients c).entry side n := by
    intro c side n
    by_cases hcc : c = client
    · subst hcc
      rw [Function.update_self, entry_merge st side n (h.client_nonneg c side n), if_pos rfl]
    · rw [Function.update_of_ne hcc, if_neg hcc]
  have hgrow : ∀ c side n, (s.clients c).entry side n ≤
      (Function.update s.clients client ((s.clients client).merge st) c).entry side n := by
    intro c side n
    rw [hentry]
    split
    · exact le_max_left _ _
    · exact le_rfl
  refine ⟨h.hub_nonneg, h.hub_zero, fun c side n => (h.client_nonneg c side n).trans (hgrow c side n),
    fun c side n hn => ?_, h.sent_le, h.sent_last, fun c j hj => ?_⟩
  · dsimp only
    rw [hentry]
    split
    · exact max_le (h.client_le c side n hn) (h.sent_le st (List.mem_of_getElem? hst) side n)
    · exact h.client_le c side n hn
  · rcases List.mem_append.mp hj with hj | hj
    · obtain ⟨st', hst', hle⟩ := h.merged c j hj
      exact ⟨st', hst', fun side n => (hle side n).trans (hgrow c side n)⟩
    · obtain ⟨rfl, rfl⟩ : c = client ∧ j = i := by simpa using hj
      refine ⟨st, hst, fun side n => ?_⟩
      dsimp only
      rw [hentry, if_pos rfl]
      exact le_max_right _ _

/-- Every step keeps the ledger and the bounds. -/
theorem ledger_and_bounds_step (hproto : "__proto__" ∉ ids) {a : Act}
    (h : Ledger ids acts s ∧ Bounds ids acts s) (hs : step ids s a = some t) :
    Ledger ids (acts ++ [a]) t ∧ Bounds ids (acts ++ [a]) t := by
  obtain ⟨hl, hb⟩ := h
  cases a with
  | bump client side amount now => exact ⟨ledger_bump hl hs, bounds_bump hb hl hs⟩
  | hubApply client now => exact ⟨ledger_hubApply hl hs, bounds_hubApply hproto hb hl hs⟩
  | merge client i => exact ⟨ledger_merge hl hb hs, bounds_merge hb hs⟩

/-- So does every run. -/
theorem ledger_and_bounds (hproto : "__proto__" ∉ ids)
    (hrun : Machine.exec (step ids) init acts = some s) :
    Ledger ids acts s ∧ Bounds ids acts s :=
  Machine.exec_history (I := fun acts s => Ledger ids acts s ∧ Bounds ids acts s)
    (fun _ _ _ _ h hs => ledger_and_bounds_step hproto h hs) ⟨ledger_init, bounds_init⟩ hrun

/-! ## Convergence -/

/-- With nothing in flight, the hub's entries are what the clients have issued. -/
theorem Ledger.hub_entry (h : Ledger ids acts s) (hflight : NoneInFlight ids s) (side : Side)
    {c : String} (hc : c ∈ ids) : s.hub.entry side c = paid (ops acts) side c := by
  have hin := h.in_flight c hc side
  rw [hflight c hc, paid_nil, add_zero] at hin
  exact hin.trans (h.own c hc side)

/-- A client that has merged the last state holds the hub's entry of every other node. -/
theorem Bounds.client_entry (h : Bounds ids acts s) {c : String}
    (hlast : s.sent = [] ∨ Act.merge c (s.sent.length - 1) ∈ acts) (side : Side) {n : String}
    (hn : n ≠ c) : (s.clients c).entry side n = s.hub.entry side n := by
  refine le_antisymm (h.client_le c side n hn) ?_
  rw [h.sent_last side n]
  rcases hlast with hnil | hmem
  · rw [hnil]
    exact h.client_nonneg c side n
  · obtain ⟨st, hst, hle⟩ := h.merged c _ hmem
    rw [← List.getLast?_eq_getElem?] at hst
    rw [hst]
    exact hle side n

/-- Every client operation is counted exactly once: at every moment the hub lacks just what is in
flight, and in the end all counters have the same value, all increments minus all decrements. -/
theorem star_counts_once (ids : Finset String) (hproto : "__proto__" ∉ ids) (acts : List Act)
    (hrun : Machine.exec (step ids) init acts = some s) :
    (∀ c ∈ ids, ∀ side,
      s.hub.entry side c + paid (s.toHub c) side c = (s.clients c).entry side c) ∧
    (NoneInFlight ids s → MergedLast ids acts s →
      s.hub.value = total (ops acts) ∧ ∀ c ∈ ids, (s.clients c).value = total (ops acts)) := by
  obtain ⟨hl, hb⟩ := ledger_and_bounds hproto hrun
  refine ⟨hl.in_flight, fun hflight hlast => ⟨?_, fun c hc => ?_⟩⟩
  · exact value_eq_total hl.issuer hb.hub_zero fun side n hn => hl.hub_entry hflight side hn
  · refine value_eq_total hl.issuer (fun side n hn => ?_) fun side n hn => ?_
    · have hne : n ≠ c := fun hnc => hn (hnc ▸ hc)
      rw [hb.client_entry (hlast c hc) side hne, hb.hub_zero side n hn]
    · by_cases hnc : n = c
      · subst hnc
        exact hl.own n hn side
      · rw [hb.client_entry (hlast c hc) side hnc, hl.hub_entry hflight side hn]

/-- Two clients, an old state merged late and twice, the last state merged by both. -/
def twoClients : List Act :=
  [.bump "alice" .increments 5 1, .bump "bob" .decrements 2 1, .hubApply "alice" 2, .merge "bob" 0,
    .hubApply "bob" 3, .merge "alice" 1, .merge "bob" 1, .merge "bob" 0, .merge "alice" 0]

/-- Both clients of the example have the hub's total. -/
theorem twoClients_counts_once :
    ∃ s, Machine.exec (step {"alice", "bob"}) init twoClients = some s ∧
      s.hub.value = total (ops twoClients) ∧
      ∀ c ∈ ({"alice", "bob"} : Finset String), (s.clients c).value = total (ops twoClients) := by
  obtain ⟨s, hrun, hend⟩ := Machine.exists_exec_of_test
    (show (Machine.exec (step {"alice", "bob"}) init twoClients).map (fun s => decide
      (NoneInFlight {"alice", "bob"} s ∧ MergedLast {"alice", "bob"} twoClients s)) = some true by
        decide)
  obtain ⟨hflight, hlast⟩ := of_decide_eq_true hend
  exact ⟨s, hrun, (star_counts_once {"alice", "bob"} (by decide) twoClients hrun).2 hflight hlast⟩

end CounterStar

end Datasole
