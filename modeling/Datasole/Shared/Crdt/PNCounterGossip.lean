import Mathlib.Data.Int.ConditionallyCompleteOrder
import Mathlib.Logic.Function.Basic
import Mathlib.Order.ConditionallyCompleteLattice.Basic
import Datasole.Common.Machine
import Datasole.Shared.Crdt.PNCounter

/-!
# Gossip between counters

Any number of counters, one for each node id, exchange their states in no particular order: a state
may be merged late, more than once, by any replica, or never.

What a replica can know is tracked beside the run by a `Knowledge` of it: how many of each node's
operations have reached the replica, directly or in a state that passed through others. The
invariant is that the entries of a replica are exactly what the operations it knows paid.
-/

namespace Datasole

namespace CounterGossip

open PNCounter

/-- The replicas and every state that one of them has published. -/
structure Gossip where
  replicas : String → PNCounter ℤ
  snapshots : List (CrdtState ℤ)

inductive Act where
  /-- A replica increments or decrements its own count. -/
  | bump (replica : String) (side : Side) (amount : ℕ) (now : Timestamp)
  /-- A replica publishes its state. -/
  | snapshot (replica : String) (now : Timestamp)
  /-- A replica merges the `i`-th published state. -/
  | merge (replica : String) (i : ℕ)
deriving DecidableEq

def init : Gossip where
  replicas := PNCounter.new
  snapshots := []

def step (ids : Finset String) (s : Gossip) : Act → Option Gossip
  | .bump r side amount now =>
    if r ∈ ids then
      some { s with
        replicas := Function.update s.replicas r ((s.replicas r).bump side amount now).1 }
    else none
  | .snapshot r now =>
    if r ∈ ids then some { s with snapshots := s.snapshots ++ [(s.replicas r).state now] } else none
  | .merge r i =>
    if r ∈ ids then
      s.snapshots[i]?.map fun st =>
        { s with replicas := Function.update s.replicas r ((s.replicas r).merge st) }
    else none

/-- The operation that an action issues. -/
def Act.issued : Act → Option (CrdtOperation ℤ)
  | .bump r side amount now => some (bumpOp r side amount now)
  | .snapshot _ _ | .merge _ _ => none

/-- The operations that a run issues, in order. -/
def ops (acts : List Act) : List (CrdtOperation ℤ) := acts.filterMap Act.issued

/-- The operations that one node issues. -/
def opsOf (acts : List Act) (node : String) : List (CrdtOperation ℤ) :=
  (ops acts).filter (·.nodeId = node)

/-! ## Knowledge -/

/-- How many operations of each node are known to each replica and in each published state. -/
structure Knowledge where
  replica : String → String → ℕ
  snapshot : List (String → ℕ)

/-- A local operation is known to its replica, a published state carries what its replica knows,
and a merge adds what the state carries. -/
def Knowledge.learn (k : Knowledge) : Act → Knowledge
  | .bump r _ _ _ =>
    { k with
      replica := Function.update k.replica r
        (Function.update (k.replica r) r (k.replica r r + 1)) }
  | .snapshot r _ => { k with snapshot := k.snapshot ++ [k.replica r] }
  | .merge r i =>
    { k with
      replica := Function.update k.replica r
        (k.snapshot[i]?.elim (k.replica r) fun v n => max (k.replica r n) (v n)) }

/-- What is known after a run. -/
def knowledge (acts : List Act) : Knowledge := acts.foldl Knowledge.learn ⟨fun _ _ => 0, []⟩

/-- The replica has merged, directly or through others, the latest state of every replica. -/
def KnowsAll (ids : Finset String) (acts : List Act) (r : String) : Prop :=
  ∀ n ∈ ids, (knowledge acts).replica r n = (knowledge acts).replica n n

instance (ids : Finset String) (acts : List Act) : DecidablePred (KnowsAll ids acts) :=
  fun r => inferInstanceAs
    (Decidable (∀ n ∈ ids, (knowledge acts).replica r n = (knowledge acts).replica n n))

theorem knowledge_concat (acts : List Act) (a : Act) :
    knowledge (acts ++ [a]) = (knowledge acts).learn a :=
  List.foldl_concat ..

/-- What the first `known n` operations of each node `n` pay into its entry. -/
def covered (acts : List Act) (known : String → ℕ) (side : Side) (n : String) : ℤ :=
  paid ((opsOf acts n).take (known n)) side n

/-- More operations pay more. -/
theorem paid_take_mono {l : List (CrdtOperation ℤ)} (h : ∀ op ∈ l, 0 ≤ op.value.getD 1)
    (side : Side)
    (n : String) : Monotone fun k => paid (l.take k) side n := by
  intro i j hij
  have hsplit : l.take j = l.take i ++ (l.take j).drop i := by
    have hparts := List.take_append_drop i (l.take j)
    rw [List.take_take, min_eq_left hij] at hparts
    exact hparts.symm
  have hrest : 0 ≤ paid ((l.take j).drop i) side n :=
    paid_nonneg (fun op hop => h op (List.mem_of_mem_take (List.mem_of_mem_drop hop))) side n
  dsimp only
  rw [hsplit, paid_append]
  exact le_add_of_nonneg_right hrest

/-- The operations of other nodes pay nothing into the entry of a node. -/
theorem paid_opsOf (acts : List Act) (side : Side) (n : String) :
    paid (opsOf acts n) side n = paid (ops acts) side n := by
  rw [opsOf]
  induction ops acts with
  | nil => rfl
  | cons op l ih =>
    by_cases h : op.nodeId = n
    · rw [List.filter_cons_of_pos (by simpa using h), paid_cons, paid_cons, ih]
    · rw [List.filter_cons_of_neg (by simpa using h), paid_cons, ih, contribution,
        if_neg fun hop => h hop.2, zero_add]

/-! ## The invariant -/

/-- The entries of every replica and every published state are what the known operations paid. -/
structure Tracks (ids : Finset String) (acts : List Act) (s : Gossip) : Prop where
  issuer : ∀ op ∈ ops acts, op.nodeId ∈ ids ∧ 0 ≤ op.value.getD 1
  replica_id : ∀ r, (s.replicas r).nodeId = r
  own_known : ∀ n, (knowledge acts).replica n n = (opsOf acts n).length
  replica_known : ∀ r n, (knowledge acts).replica r n ≤ (opsOf acts n).length
  snapshot_known : ∀ v ∈ (knowledge acts).snapshot, ∀ n, v n ≤ (opsOf acts n).length
  entries : ∀ r, (s.replicas r).entry = covered acts ((knowledge acts).replica r)
  shows : s.snapshots.map shown = (knowledge acts).snapshot.map (covered acts)

variable {ids : Finset String} {acts : List Act} {s t : Gossip}

theorem ops_concat (acts : List Act) (a : Act) :
    ops (acts ++ [a]) = ops acts ++ a.issued.toList := by
  cases h : a.issued <;> simp [ops, h]

theorem opsOf_concat (acts : List Act) (a : Act) (n : String) :
    opsOf (acts ++ [a]) n = opsOf acts n ++ a.issued.toList.filter (·.nodeId = n) := by
  rw [opsOf, ops_concat, List.filter_append, opsOf]

/-- A longer run has no fewer operations of a node. -/
theorem length_opsOf_le (acts : List Act) (a : Act) (n : String) :
    (opsOf acts n).length ≤ (opsOf (acts ++ [a]) n).length := by
  rw [opsOf_concat, List.length_append]
  exact Nat.le_add_right _ _

/-- A later operation does not change what the known ones paid. -/
theorem covered_concat (a : Act) {known : String → ℕ} (h : ∀ n, known n ≤ (opsOf acts n).length) :
    covered (acts ++ [a]) known = covered acts known := by
  funext side n
  rw [covered, opsOf_concat, List.take_append_of_le_length (h n), covered]

/-- More is covered by knowing more. -/
theorem Tracks.covered_mono (h : Tracks ids acts s) {u v : String → ℕ} (side : Side) {n : String}
    (huv : u n ≤ v n) : covered acts u side n ≤ covered acts v side n := by
  have hnonneg : ∀ op ∈ opsOf acts n, 0 ≤ op.value.getD 1 :=
    fun op hop => (h.issuer op (List.mem_of_mem_filter hop)).2
  exact paid_take_mono hnonneg side n huv

/-- What two know together covers the larger of what they cover. -/
theorem Tracks.covered_max (h : Tracks ids acts s) (u v : String → ℕ) (side : Side) (n : String) :
    covered acts (fun m => max (u m) (v m)) side n =
      max (covered acts u side n) (covered acts v side n) := by
  have hnonneg : ∀ op ∈ opsOf acts n, 0 ≤ op.value.getD 1 :=
    fun op hop => (h.issuer op (List.mem_of_mem_filter hop)).2
  exact (paid_take_mono hnonneg side n).map_max

/-- No entry of a replica is negative. -/
theorem Tracks.nonneg (h : Tracks ids acts s) (r : String) : (s.replicas r).Nonneg := by
  intro side n
  rw [h.entries r]
  exact paid_nonneg (fun op hop =>
    (h.issuer op (List.mem_of_mem_filter (List.mem_of_mem_take hop))).2) side n

theorem Tracks.opsOf_eq_nil (h : Tracks ids acts s) {n : String} (hn : n ∉ ids) :
    opsOf acts n = [] := by
  refine List.filter_eq_nil_iff.mpr fun op hop hid => hn ?_
  exact (of_decide_eq_true hid : op.nodeId = n) ▸ (h.issuer op hop).1

/-- Nodes that take no part have no entry. -/
theorem Tracks.entry_eq_zero (h : Tracks ids acts s) (r : String) (side : Side) {n : String}
    (hn : n ∉ ids) : (s.replicas r).entry side n = 0 := by
  rw [h.entries r, covered, h.opsOf_eq_nil hn, List.take_nil, paid_nil]

/-- Nobody has issued anything. -/
theorem tracks_init : Tracks ids [] init where
  issuer _ h := by cases h
  replica_id _ := rfl
  own_known _ := rfl
  replica_known _ _ := le_rfl
  snapshot_known _ h := by cases h
  entries r := funext fun side => funext fun n => entry_new r side n
  shows := rfl

/-- An increment or decrement is known to its replica at once, and to no other. -/
theorem tracks_bump (h : Tracks ids acts s) {r : String} {side : Side} {amount : ℕ}
    {now : Timestamp} (hs : step ids s (.bump r side amount now) = some t) :
    Tracks ids (acts ++ [.bump r side amount now]) t := by
  simp only [step, Option.ite_none_right_eq_some, Option.some.injEq] at hs
  obtain ⟨hr, rfl⟩ := hs
  -- the operation is known to `r` itself and in no published state
  have hissued : (Act.bump r side amount now).issued = some (bumpOp r side amount now) := rfl
  have hk : (knowledge (acts ++ [.bump r side amount now])).replica =
      Function.update (knowledge acts).replica r (Function.update ((knowledge acts).replica r) r
        ((knowledge acts).replica r r + 1)) := by
    rw [knowledge_concat]; rfl
  have hsnap : (knowledge (acts ++ [.bump r side amount now])).snapshot =
      (knowledge acts).snapshot := by
    rw [knowledge_concat]; rfl
  have hlen : ∀ n, (opsOf (acts ++ [.bump r side amount now]) n).length =
      (opsOf acts n).length + if r = n then 1 else 0 := by
    intro n
    rw [opsOf_concat, hissued, Option.toList_some, List.length_append]
    by_cases hn : r = n <;> simp [bumpOp, hn]
  have hle := length_opsOf_le acts (.bump r side amount now)
  refine ⟨fun op hop => ?_, nodeId_update h.replica_id (by simpa using h.replica_id r),
    fun n => ?_, fun q n => ?_, fun v hv n => ?_, fun q => ?_, ?_⟩
  · rw [ops_concat, hissued] at hop
    rcases List.mem_append.mp hop with hop | hop
    · exact h.issuer op hop
    · rw [List.mem_singleton.mp hop]
      exact ⟨hr, Int.natCast_nonneg amount⟩
  · -- `r` knows one more operation of its own
    rw [hk, hlen]
    by_cases hn : n = r
    · subst hn
      rw [Function.update_self, Function.update_self, h.own_known, if_pos rfl]
    · rw [Function.update_of_ne hn, h.own_known, if_neg (Ne.symm hn), add_zero]
  · rw [hk]
    by_cases hq : q = r
    · subst hq
      rw [Function.update_self]
      by_cases hn : n = q
      · subst hn
        rw [Function.update_self, h.own_known, hlen, if_pos rfl]
      · rw [Function.update_of_ne hn]
        exact (h.replica_known q n).trans (hle n)
    · rw [Function.update_of_ne hq]
      exact (h.replica_known q n).trans (hle n)
  · rw [hsnap] at hv
    exact (h.snapshot_known v hv n).trans (hle n)
  · -- the entries of `r` grow by the operation, and no other replica's do
    rw [hk]
    by_cases hq : q = r
    · subst hq
      simp only [Function.update_self]
      funext side' n
      rw [entry_bump, h.replica_id q, h.entries q]
      by_cases hn : n = q
      · -- the new operation is the next one of the replica itself
        subst hn
        rw [covered, covered, Function.update_self, opsOf_concat, hissued, h.own_known,
          List.take_length, Option.toList_some, List.filter_singleton]
        have hself : decide ((bumpOp n side amount now).nodeId = n) = true := decide_eq_true rfl
        rw [hself, cond_true, List.take_of_length_le (by simp), paid_concat]
      · rw [contribution_bumpOp, if_neg fun hcl => hn hcl.2.symm, add_zero, covered, covered,
          Function.update_of_ne hn, opsOf_concat,
          List.take_append_of_le_length (h.replica_known q n)]
    · simp only [Function.update_of_ne hq]
      rw [h.entries q, covered_concat _ (h.replica_known q)]
  · rw [hsnap, h.shows]
    exact List.map_congr_left fun v hv => (covered_concat _ (h.snapshot_known v hv)).symm

/-- A published state knows what its replica knows. -/
theorem tracks_snapshot (hproto : "__proto__" ∉ ids) (h : Tracks ids acts s) {r : String}
    {now : Timestamp} (hs : step ids s (.snapshot r now) = some t) :
    Tracks ids (acts ++ [.snapshot r now]) t := by
  simp only [step, Option.ite_none_right_eq_some, Option.some.injEq] at hs
  obtain ⟨-, rfl⟩ := hs
  -- nothing is issued
  have hops : opsOf (acts ++ [.snapshot r now]) = opsOf acts :=
    funext fun n => (opsOf_concat acts _ n).trans (List.append_nil _)
  have hall : ops (acts ++ [.snapshot r now]) = ops acts :=
    (ops_concat acts _).trans (List.append_nil _)
  have hcov : covered (acts ++ [.snapshot r now]) = covered acts := by
    funext known side n
    rw [covered, hops, covered]
  have hshown : shown ((s.replicas r).state now) = (s.replicas r).entry := by
    funext side n
    rw [shown_state]
    -- the vectors of a state do not show `__proto__`, whose entry is zero anyway
    split
    · next hn => rw [hn, h.entry_eq_zero r side hproto]
    · rfl
  refine ⟨by rw [hall]; exact h.issuer, h.replica_id, ?_, ?_, ?_, ?_, ?_⟩
  all_goals simp only [knowledge_concat, Knowledge.learn, hops, hcov]
  · exact h.own_known
  · exact h.replica_known
  · intro v hv n
    rcases List.mem_append.mp hv with hv | hv
    · exact h.snapshot_known v hv n
    · -- the state knows what its replica knows
      rw [List.mem_singleton.mp hv]
      exact h.replica_known r n
  · exact h.entries
  · rw [List.map_append, List.map_append, h.shows, List.map_singleton, List.map_singleton, hshown,
      h.entries r]

/-- A replica that merges a state knows what it knew and what the state knows. -/
theorem tracks_merge (h : Tracks ids acts s) {r : String} {i : ℕ}
    (hs : step ids s (.merge r i) = some t) : Tracks ids (acts ++ [.merge r i]) t := by
  simp only [step, Option.ite_none_right_eq_some, Option.map_eq_some_iff] at hs
  obtain ⟨-, st, hst, rfl⟩ := hs
  have hops : opsOf (acts ++ [.merge r i]) = opsOf acts :=
    funext fun n => (opsOf_concat acts _ n).trans (List.append_nil _)
  have hall : ops (acts ++ [.merge r i]) = ops acts :=
    (ops_concat acts _).trans (List.append_nil _)
  have hcov : covered (acts ++ [.merge r i]) = covered acts := by
    funext known side n
    rw [covered, hops, covered]
  -- `v` is what was known to the replica that published the state
  obtain ⟨v, hv, hvst⟩ :
      ∃ v, (knowledge acts).snapshot[i]? = some v ∧ covered acts v = shown st := by
    have hi := congrArg (·[i]?) h.shows
    simp only [List.getElem?_map, hst, Option.map_some] at hi
    exact Option.map_eq_some_iff.mp hi.symm
  refine ⟨by rw [hall]; exact h.issuer,
    nodeId_update h.replica_id (by simpa using h.replica_id r), fun n => ?_, fun q n => ?_, ?_,
    fun q => ?_, ?_⟩
  all_goals simp only [knowledge_concat, Knowledge.learn, hv, Option.elim_some, hops, hcov]
  · -- nobody knows more of a replica than the replica itself
    by_cases hn : n = r
    · subst hn
      rw [Function.update_self, h.own_known,
        max_eq_left (h.snapshot_known v (List.mem_of_getElem? hv) n)]
    · rw [Function.update_of_ne hn, h.own_known]
  · by_cases hq : q = r
    · subst hq
      rw [Function.update_self]
      exact max_le (h.replica_known q n) (h.snapshot_known v (List.mem_of_getElem? hv) n)
    · rw [Function.update_of_ne hq]
      exact h.replica_known q n
  · exact h.snapshot_known
  · by_cases hq : q = r
    · -- both sides take the larger entry, and the larger of what is known
      subst hq
      funext side n
      rw [Function.update_self, Function.update_self, entry_merge st side n (h.nonneg q side n),
        h.covered_max, h.entries q, hvst]
    · rw [Function.update_of_ne hq, Function.update_of_ne hq]
      exact h.entries q
  · exact h.shows

/-- Every step keeps what is known in step with the entries. -/
theorem tracks_step (hproto : "__proto__" ∉ ids) {a : Act} (h : Tracks ids acts s)
    (hs : step ids s a = some t) : Tracks ids (acts ++ [a]) t := by
  cases a with
  | bump r side amount now => exact tracks_bump h hs
  | snapshot r now => exact tracks_snapshot hproto h hs
  | merge r i => exact tracks_merge h hs

theorem tracks (hproto : "__proto__" ∉ ids) (hrun : Machine.exec (step ids) init acts = some s) :
    Tracks ids acts s :=
  Machine.exec_history (I := fun acts s => Tracks ids acts s)
    (fun _ _ _ _ h hs => tracks_step hproto h hs) tracks_init hrun

/-! ## Convergence -/

/-- The counter is a replica in some state of some run. -/
def Reached (ids : Finset String) (c : PNCounter ℤ) : Prop :=
  ∃ acts s, Machine.exec (step ids) init acts = some s ∧ ∃ r ∈ ids, s.replicas r = c

/-- No entry of a counter that is reached is negative. -/
theorem Reached.nonneg (hproto : "__proto__" ∉ ids) {c : PNCounter ℤ}
    (h : Reached ids c) : c.Nonneg := by
  obtain ⟨acts, s, hrun, r, -, rfl⟩ := h
  exact (tracks hproto hrun).nonneg r

/-- No replica knows more operations of a node than the node itself. -/
theorem Tracks.entry_le (h : Tracks ids acts s) (r : String) (side : Side) (n : String) :
    (s.replicas r).entry side n ≤ (s.replicas n).entry side n := by
  rw [h.entries r, h.entries n]
  refine h.covered_mono side ?_
  rw [h.own_known n]
  exact h.replica_known r n

/-- A replica that knows all operations has the total. -/
theorem Tracks.value_eq (h : Tracks ids acts s) {r : String} (hall : KnowsAll ids acts r) :
    (s.replicas r).value = total (ops acts) := by
  refine value_eq_total (fun op hop => (h.issuer op hop).1)
    (fun side n hn => h.entry_eq_zero r side hn) fun side n hn => ?_
  rw [h.entries r, covered, hall n hn, h.own_known n, List.take_length, paid_opsOf]

/-- Gossip converges: merging is a join on the vectors that replicas can reach, no replica is ahead
of a node's own entry, and a replica that has merged everyone's latest state, directly or through
others, has all increments minus all decrements as its value. -/
theorem gossip_converges (ids : Finset String) (hproto : "__proto__" ∉ ids) :
    (∀ c d e, Reached ids c → Reached ids d → Reached ids e → ∀ now now' now'',
      SameVectors (c.merge (c.state now)) c ∧
      SameVectors (c.merge (d.state now)) (d.merge (c.state now')) ∧
      SameVectors ((c.merge (d.state now)).merge (e.state now'))
        (c.merge ((d.merge (e.state now')).state now''))) ∧
    ∀ acts s, Machine.exec (step ids) init acts = some s → ∀ r ∈ ids,
      (∀ side n, (s.replicas r).entry side n ≤ (s.replicas n).entry side n) ∧
      (KnowsAll ids acts r → (s.replicas r).value = total (ops acts)) := by
  refine ⟨fun c d e hc hd he now now' now'' => ⟨merge_idempotent c now, ?_, ?_⟩,
    fun acts s hrun r _ => ⟨(tracks hproto hrun).entry_le r, (tracks hproto hrun).value_eq⟩⟩
  · exact (hc.nonneg hproto).merge_comm (hd.nonneg hproto) now now'
  · exact (hc.nonneg hproto).merge_assoc now now' now''

/-- A state that reaches the last replica through another one, and again late. -/
def relay : List Act :=
  [.bump "ann" .increments 3 1, .snapshot "ann" 2, .bump "bob" .decrements 1 2, .merge "bob" 0,
    .snapshot "bob" 3, .bump "cyd" .increments 4 3, .merge "cyd" 1, .merge "cyd" 0]

/-- What is relayed through `bob` reaches `cyd`. -/
theorem relay_converges :
    ∃ s, Machine.exec (step {"ann", "bob", "cyd"}) init relay = some s ∧
      (s.replicas "cyd").value = total (ops relay) := by
  obtain ⟨s, hrun, -⟩ := Machine.exists_exec_of_test
    (show (Machine.exec (step {"ann", "bob", "cyd"}) init relay).map (fun _ => true) = some true by
      decide)
  have hconv :=
    (gossip_converges {"ann", "bob", "cyd"} (by decide)).2 relay s hrun "cyd" (by decide)
  exact ⟨s, hrun, hconv.2 (by decide)⟩

end CounterGossip

end Datasole
