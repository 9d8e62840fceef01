import Datasole.Server.Crdt.CrdtCluster

/-!
# The persisted state of a counter

Instances over one backend that come and go: an instance that is restarted is a fresh `CrdtManager`,
and an instance registers the key when it first applies an operation or when it is told to. Each
`apply` overwrites the state under `crdt:<key>` with the view of the instance that applies.

No instance reads that state back. So an entry goes down whenever the instance that applies has
counted less than the state says: after a restart, or when it has not yet been delivered, or never
will be, what the others published. `neverDecreases_iff` says that nothing else can make an entry go
down.
-/

namespace Datasole

namespace PersistedCounter

open CrdtCluster (IsCount)
open PNCounter (shown contribution Side)

/-- A published operation on its way to one subscriber. -/
structure Message where
  dest : ℕ
  op : CrdtOperation ℤ

/-- The managers, what the backend holds under the key, and the messages in flight. -/
structure Cluster where
  managers : ℕ → CrdtManager ℤ
  persisted : Option (AnyState ℤ)
  inFlight : List Message

inductive Act where
  | submit (i : ℕ) (connectionId : String) (op : CrdtOperation ℤ) (now : Timestamp)
  /-- `register` with a new counter. -/
  | register (i : ℕ) (nodeId : String)
  | registerByType (i : ℕ)
  /-- The instance is destroyed and replaced by a fresh one. -/
  | restart (i : ℕ)
  /-- The `k`-th message in flight arrives at whichever manager the instance has then. -/
  | deliver (k : ℕ)
  /-- It was sent to an instance that is gone. -/
  | lose (k : ℕ)

def init (maxKeys : ℕ) : Cluster where
  managers _ := CrdtManager.new maxKeys
  persisted := none
  inFlight := []

/-- The messages for the instances that have subscribed to the key. -/
def publish (n : ℕ) (key : String) (managers : ℕ → CrdtManager ℤ) (op : CrdtOperation ℤ) :
    List Message :=
  ((List.range n).filter fun j => key ∈ (managers j).subscribed).map (Message.mk · op)

def setManager (s : Cluster) (i : ℕ) (m : CrdtManager ℤ) : Cluster :=
  { s with managers := Function.update s.managers i m }

/-- What the result of `apply` does to the cluster: the state is set, then the operation
published. -/
def store (n : ℕ) (key : String) (s : Cluster) (i : ℕ) (op : CrdtOperation ℤ) :
    CrdtManager ℤ × Option (Applied ℤ) → Cluster
  | (m, none) => setManager s i m
  | (m, some applied) =>
    { managers := Function.update s.managers i m
      persisted := some applied.state
      inFlight := s.inFlight ++ publish n key (Function.update s.managers i m) op }

def step (n : ℕ) (key : String) (maxKeys : ℕ) (s : Cluster) : Act → Option Cluster
  | .submit i connectionId op now =>
    if i < n ∧ op.type = .pnCounter ∧ IsCount key connectionId op then
      some (store n key s i op ((s.managers i).apply connectionId op now))
    else none
  | .register i nodeId =>
    some (setManager s i ((s.managers i).register key (.pnCounter (PNCounter.new nodeId))))
  | .registerByType i => some (setManager s i ((s.managers i).registerByType key .pnCounter))
  | .restart i => some (setManager s i (CrdtManager.new maxKeys))
  | .deliver k =>
    s.inFlight[k]?.map fun message =>
      { setManager s message.dest ((s.managers message.dest).deliver key message.op) with
        inFlight := s.inFlight.eraseIdx k }
  | .lose k => some { s with inFlight := s.inFlight.eraseIdx k }

/-- An entry of the persisted vector; without a state there is nothing. -/
def persistedEntry (s : Cluster) (side : Side) (node : String) : ℤ :=
  match s.persisted with
  | some (.pnCounter state) => shown state side node
  | _ => 0

/-- The counter to which a manager applies an operation on the key: a fresh one if the key is not
registered and there is room for it. -/
def ownCounter (m : CrdtManager ℤ) (key : String) : Option (PNCounter ℤ) :=
  match m.registry.get key with
  | some (.pnCounter c) => some c
  | some _ => none
  | none => if m.maxKeys ≤ m.registry.size then none else some (PNCounter.new "server")

/-- The instance that applies an operation has counted as much as the persisted state, the operation
included. No state can list the node `__proto__`. -/
def IsUpToDate (key : String) (s : Cluster) : Act → Prop
  | .submit i _ op _ => ∀ c ∈ ownCounter (s.managers i) key, ∀ side node, node ≠ "__proto__" →
      persistedEntry s side node ≤ c.entry side node + contribution op side node
  | .register _ _ | .registerByType _ | .restart _ | .deliver _ | .lose _ => True

/-- Between any two moments of the run no entry of the persisted vector goes down. -/
def NeverDecreases (n : ℕ) (key : String) (maxKeys : ℕ) (acts : List Act) : Prop :=
  ∀ bs cs ds u v, acts = bs ++ (cs ++ ds) →
    Machine.exec (step n key maxKeys) (init maxKeys) bs = some u →
    Machine.exec (step n key maxKeys) u cs = some v →
    ∀ side node, persistedEntry u side node ≤ persistedEntry v side node

/-! ## What every run keeps -/

/-- Only counters are registered under the key. -/
def Counts (m : CrdtManager ℤ) (key : String) : Prop :=
  ∀ crdt, m.registry.get key = some crdt → ∃ c, crdt = .pnCounter c

/-- Only counters are registered; what is persisted never lists `__proto__`, and what is published
has no negative amount. -/
structure Inv (key : String) (s : Cluster) : Prop where
  counts : ∀ i, Counts (s.managers i) key
  inFlight : ∀ message ∈ s.inFlight, 0 ≤ message.op.value.getD 1
  persisted_proto : ∀ side, persistedEntry s side "__proto__" = 0

variable {n : ℕ} {key : String} {maxKeys : ℕ} {s t : Cluster} {m : CrdtManager ℤ}

theorem counts_new : Counts (CrdtManager.new maxKeys) key := fun _ h => by cases h

/-- A key that holds a counter holds no other type. -/
theorem counts_of_get {c : PNCounter ℤ} (h : m.registry.get key = some (.pnCounter c)) :
    Counts m key := by
  intro crdt hget
  rw [h] at hget
  cases hget
  exact ⟨c, rfl⟩

theorem ownCounter_of_get {c : PNCounter ℤ} (h : m.registry.get key = some (.pnCounter c)) :
    ownCounter m key = some c := by
  simp only [ownCounter, h]

/-- Registering a counter keeps the key to counters. -/
theorem Counts.registerByType (h : Counts m key) :
    Counts (m.registerByType key .pnCounter) key := by
  unfold CrdtManager.registerByType
  split
  · exact h
  · exact counts_of_get (JsMap.get_set_self ..)

/-- What is published changes only a registered counter, and raises it by the operation. -/
theorem deliver_cases (h : Counts m key) (op : CrdtOperation ℤ) (hop : 0 ≤ op.value.getD 1) :
    m.deliver key op = m ∨ ∃ c c', m.registry.get key = some (.pnCounter c) ∧
      (m.deliver key op).registry.get key = some (.pnCounter c') ∧
        ∀ side node, c.entry side node ≤ c'.entry side node := by
  cases hget : m.registry.get key with
  | none =>
    left
    refine CrdtManager.deliver_invariant (P := fun m' => m' = m) (fun m' heq => ?_) rfl
    simp only [CrdtManager.onPublished, heq, hget]
  | some crdt =>
    right
    obtain ⟨c, rfl⟩ := h crdt hget
    obtain ⟨c', hget', hle⟩ : ∃ c', (m.deliver key op).registry.get key = some (.pnCounter c') ∧
        ∀ side node, c.entry side node ≤ c'.entry side node := by
      refine CrdtManager.deliver_invariant (P := fun m' => ∃ c',
        m'.registry.get key = some (.pnCounter c') ∧
          ∀ side node, c.entry side node ≤ c'.entry side node) ?_ ⟨c, hget, fun _ _ => le_rfl⟩
      rintro m' ⟨c', hget', hle⟩
      refine ⟨c'.apply op, ?_, fun side node => ?_⟩
      · simp only [CrdtManager.onPublished, hget']
        exact JsMap.get_set_self ..
      · rw [PNCounter.entry_apply]
        exact (hle side node).trans
          (le_add_of_nonneg_right (PNCounter.contribution_nonneg hop side node))
    exact ⟨c, c', rfl, hget', hle⟩

/-- Where a manager has a counter for the key, `apply` returns its state with the operation. -/
theorem apply_of_ownCounter {c : PNCounter ℤ} (hc : ownCounter m key = some c)
    {connectionId : String}
    {op : CrdtOperation ℤ} (hkey : op.key.getD connectionId = key) (htype : op.type = .pnCounter)
    (now : Timestamp) :
    ∃ m', m.apply connectionId op now =
        (m', some ⟨key, .pnCounter ((c.apply op).state now), op⟩) ∧
      m'.registry.get key = some (.pnCounter (c.apply op)) := by
  unfold ownCounter at hc
  split at hc
  · next c' hget =>
    cases hc
    exact ⟨_, CrdtManager.apply_registered hget hkey now, JsMap.get_set_self ..⟩
  · cases hc
  · next hget =>
    split at hc
    · cases hc
    next hroom =>
    cases hc
    have hnew :
        Crdt.ofType op.type = some (Crdt.pnCounter (PNCounter.new "server" : PNCounter ℤ)) := by
      rw [htype]
      rfl
    have happly := (CrdtManager.apply_unregistered hkey hget (not_le.mp hroom) hnew now).trans
      (CrdtManager.apply_registered (JsMap.get_set_self ..) hkey now)
    exact ⟨_, happly, JsMap.get_set_self ..⟩

/-- Where there is none, and no room for one, nothing happens. -/
theorem apply_of_no_ownCounter (h : Counts m key) (hc : ownCounter m key = none)
    {connectionId : String}
    {op : CrdtOperation ℤ} (hkey : op.key.getD connectionId = key) (now : Timestamp) :
    m.apply connectionId op now = (m, none) := by
  unfold ownCounter at hc
  split at hc
  · cases hc
  · next crdt hnot hget =>
    obtain ⟨c, hcrdt⟩ := h _ hget
    exact absurd hcrdt (hnot c)
  · next hget =>
    split at hc
    · next hfull => exact CrdtManager.apply_full hkey hget hfull now
    · cases hc

/-- In the beginning nothing is registered or persisted. -/
theorem inv_init : Inv key (init maxKeys) where
  counts _ := counts_new
  inFlight _ h := by cases h
  persisted_proto _ := rfl

/-- Replacing one manager by another that only counts. -/
theorem Inv.setManager (h : Inv key s) (i : ℕ) (hm : Counts m key) :
    Inv key (setManager s i m) where
  persisted_proto := h.persisted_proto
  inFlight := h.inFlight
  counts := (Function.forall_update_iff s.managers fun _ m => Counts m key).mpr
    ⟨hm, fun j _ => h.counts j⟩

/-- `apply` at an instance with a counter: what is persisted afterwards shows the counter with the
operation. -/
theorem store_of_ownCounter (h : Inv key s) {i : ℕ} {c : PNCounter ℤ}
    (hc : ownCounter (s.managers i) key = some c) {connectionId : String} {op : CrdtOperation ℤ}
    (htype : op.type = .pnCounter) (hop : IsCount key connectionId op) (now : Timestamp) :
    ∃ m, store n key s i op ((s.managers i).apply connectionId op now) =
        { managers := Function.update s.managers i m
          persisted := some (.pnCounter ((c.apply op).state now))
          inFlight := s.inFlight ++ publish n key (Function.update s.managers i m) op } ∧
      m.registry.get key = some (.pnCounter (c.apply op)) ∧
      Inv key (store n key s i op ((s.managers i).apply connectionId op now)) ∧
      ∀ side node, persistedEntry (store n key s i op ((s.managers i).apply connectionId op now))
        side node = if node = "__proto__" then 0 else c.entry side node + contribution op side node := by
  obtain ⟨hkey, -, hamount⟩ := hop
  obtain ⟨m, happly, hget⟩ := apply_of_ownCounter hc hkey htype now
  have hstore : store n key s i op ((s.managers i).apply connectionId op now) = _ :=
    congrArg (store n key s i op) happly
  have hentry : ∀ side node, persistedEntry
      (store n key s i op (m, some ⟨key, .pnCounter ((c.apply op).state now), op⟩)) side node =
        if node = "__proto__" then 0 else c.entry side node + contribution op side node := by
    intro side node
    rw [← PNCounter.entry_apply]
    exact PNCounter.shown_state now side node
  rw [hstore]
  refine ⟨m, rfl, hget, ⟨(h.setManager i (counts_of_get hget)).counts, fun message hmem => ?_,
    fun side => ?_⟩, hentry⟩
  · rcases List.mem_append.mp hmem with hmem | hmem
    · exact h.inFlight message hmem
    · obtain ⟨j, -, rfl⟩ := List.mem_map.mp hmem
      exact hamount
  · rw [hentry, if_pos rfl]

/-- The persisted vector does not go down in a step exactly if the instance that applies is up to
date. -/
theorem step_iff {a : Act} (h : Inv key s) (hs : step n key maxKeys s a = some t) :
    Inv key t ∧ ((∀ side node, persistedEntry s side node ≤ persistedEntry t side node) ↔
      IsUpToDate key s a) := by
  cases a with
  | submit i connectionId op now =>
    simp only [step, Option.ite_none_right_eq_some] at hs
    obtain ⟨⟨-, htype, hop⟩, hs⟩ := hs
    cases hs
    cases hc : ownCounter (s.managers i) key with
    -- without a counter there is nothing to persist
    | none =>
      rw [apply_of_no_ownCounter (h.counts i) hc hop.1 now]
      refine ⟨h.setManager i (h.counts i), fun _ => ?_, fun _ _ _ => le_rfl⟩
      intro c hmem
      rw [hc] at hmem
      cases hmem
    | some c =>
      -- with one its entries are persisted as they are then
      obtain ⟨m, -, -, hinv, hentry⟩ := store_of_ownCounter (n := n) h hc htype hop now
      refine ⟨hinv, fun hle c' hmem side node hnode => ?_, fun hdate side node => ?_⟩
      · rw [hc] at hmem
        cases hmem
        -- no entry is lower than the persisted one exactly if the counter was up to date
        have hle := hle side node
        rwa [hentry, if_neg hnode] at hle
      · rw [hentry]
        split
        · next hproto => rw [hproto, h.persisted_proto]
        · next hnode => exact hdate c hc side node hnode
  | register i nodeId =>
    cases hs
    exact ⟨h.setManager i (counts_of_get (JsMap.get_set_self ..)), fun _ => trivial,
      fun _ _ _ => le_rfl⟩
  | registerByType i =>
    cases hs
    exact ⟨h.setManager i (h.counts i).registerByType, fun _ => trivial, fun _ _ _ => le_rfl⟩
  | restart i =>
    cases hs
    exact ⟨h.setManager i counts_new, fun _ => trivial, fun _ _ _ => le_rfl⟩
  | deliver k =>
    -- a delivery changes a counter and persists nothing
    simp only [step, Option.map_eq_some_iff] at hs
    obtain ⟨message, hmessage, rfl⟩ := hs
    have hcounts := h.counts message.dest
    have hdeliver : Counts ((s.managers message.dest).deliver key message.op) key := by
      rcases deliver_cases hcounts message.op
          (h.inFlight message (List.mem_of_getElem? hmessage)) with heq | ⟨c, c', -, hget, -⟩
      · rw [heq]
        exact hcounts
      · exact counts_of_get hget
    have hset := h.setManager message.dest hdeliver
    refine ⟨⟨hset.counts, fun m hm => ?_, h.persisted_proto⟩, fun _ => trivial, fun _ _ _ => le_rfl⟩
    exact h.inFlight m (List.mem_of_mem_eraseIdx hm)
  | lose k =>
    cases hs
    refine ⟨⟨h.counts, fun m hm => ?_, h.persisted_proto⟩, fun _ => trivial, fun _ _ _ => le_rfl⟩
    exact h.inFlight m (List.mem_of_mem_eraseIdx hm)

theorem inv_exec {acts : List Act}
    (hrun : Machine.exec (step n key maxKeys) (init maxKeys) acts = some s) :
    Inv key s :=
  Machine.exec_invariant (fun _ _ _ h hs => (step_iff h hs).1) inv_init hrun

/-- In every run of any number of instances that come and go: no entry of the persisted vector ever
goes down exactly if every instance that applies an operation is up to date when it does. -/
theorem neverDecreases_iff (n : ℕ) (key : String) (maxKeys : ℕ) (acts : List Act)
    (hrun : Machine.exec (step n key maxKeys) (init maxKeys) acts = some s) :
    NeverDecreases n key maxKeys acts ↔
      Machine.Guarded (step n key maxKeys) (IsUpToDate key) (init maxKeys) acts := by
  constructor
  · intro hnever
    refine Machine.guarded_iff_forall.mpr fun bs a cs u hacts hu => ?_
    obtain ⟨v, hv⟩ : ∃ v, step n key maxKeys u a = some v := by
      subst hacts
      obtain ⟨u', hu', hrest⟩ := Machine.exec_append_eq_some.mp hrun
      obtain rfl := Option.some.inj (hu.symm.trans hu')
      obtain ⟨v, hv, -⟩ := Machine.exec_cons_eq_some.mp hrest
      exact ⟨v, hv⟩
    refine (step_iff (inv_exec hu) hv).2.mp (hnever bs [a] cs u v hacts hu ?_)
    exact Machine.exec_cons_eq_some.mpr ⟨v, hv, rfl⟩
  · intro hguarded bs cs ds u v hacts hu hv
    subst hacts
    have hcs := (((hguarded.append hu).2).append hv).1
    -- what has been reached is kept from there on
    have hkeep :
        Inv key v ∧ ∀ side node, persistedEntry u side node ≤ persistedEntry v side node := by
      refine Machine.exec_invariant_guarded (I := fun w => Inv key w ∧ ∀ side node,
        persistedEntry u side node ≤ persistedEntry w side node) ?_ ⟨inv_exec hu, fun _ _ => le_rfl⟩ hcs hv
      rintro w a w' ⟨hinv, hle⟩ hdate hs
      obtain ⟨hinv', hiff⟩ := step_iff hinv hs
      exact ⟨hinv', fun side node => (hle side node).trans (hiff.mpr hdate side node)⟩
    exact hkeep.2

/-! ## One instance -/

/-- Only one instance applies operations, and nothing is registered anew or restarted. -/
def ByInstance (i : ℕ) : Act → Prop
  | .submit j _ op _ => j = i ∧ 0 ≤ op.value.getD 1
  | .deliver _ | .lose _ => True
  | .register _ _ | .registerByType _ | .restart _ => False

instance (i : ℕ) : DecidablePred (ByInstance i)
  | .submit _ _ _ _ => inferInstanceAs (Decidable (_ ∧ _))
  | .deliver _ | .lose _ => .isTrue trivial
  | .register _ _ | .registerByType _ | .restart _ => .isFalse id

/-- The instance has counted what is persisted. -/
def HasCounted (key : String) (i : ℕ) (s : Cluster) : Prop :=
  ∀ c ∈ ownCounter (s.managers i) key, ∀ side node, node ≠ "__proto__" →
    persistedEntry s side node ≤ c.entry side node

/-- A single instance has counted what is persisted, after every step of a run in which it alone
applies operations. -/
theorem hasCounted_step {i : ℕ} {a : Act} (h : Inv key s) (hcounted : HasCounted key i s)
    (ha : ByInstance i a) (hs : step n key maxKeys s a = some t) : HasCounted key i t := by
  cases a with
  | submit j connectionId op now =>
    obtain ⟨rfl, -⟩ := ha
    simp only [step, Option.ite_none_right_eq_some] at hs
    obtain ⟨⟨-, htype, hop⟩, hs⟩ := hs
    cases hs
    cases hc : ownCounter (s.managers j) key with
    | none =>
      -- without a counter the step changes nothing
      rw [apply_of_no_ownCounter (h.counts j) hc hop.1 now]
      have hsame : store n key s j op (s.managers j, none) = s := by
        rw [store, setManager, Function.update_eq_self]
      rw [hsame]
      exact hcounted
    | some c =>
      obtain ⟨m, hstore, hget, -, hentry⟩ := store_of_ownCounter (n := n) h hc htype hop now
      -- the counter is the one whose entries are persisted by this step
      intro c' hc' side node hnode
      rw [hentry, if_neg hnode, ← PNCounter.entry_apply]
      simp only [hstore, Function.update_self, ownCounter_of_get hget] at hc'
      cases hc'
      exact le_rfl
  | deliver k =>
    simp only [step, Option.map_eq_some_iff] at hs
    obtain ⟨message, hmessage, rfl⟩ := hs
    have hamount := h.inFlight message (List.mem_of_getElem? hmessage)
    intro c hc side node hnode
    by_cases hdest : message.dest = i
    · subst hdest
      simp only [setManager, Function.update_self] at hc
      -- a delivery adds to the counter, which keeps what it had counted
      rcases deliver_cases (h.counts message.dest) message.op hamount with heq | ⟨c₀, c', hget,
        hget', hle⟩
      · rw [heq] at hc
        exact hcounted c hc side node hnode
      · rw [ownCounter_of_get hget'] at hc
        cases hc
        exact (hcounted c₀ (ownCounter_of_get hget) side node hnode).trans (hle side node)
    · simp only [setManager, Function.update_of_ne (Ne.symm hdest)] at hc
      exact hcounted c hc side node hnode
  | lose k => cases hs; exact hcounted
  | register j nodeId | registerByType j | restart j => cases ha

/-- An instance that alone applies operations is up to date all along. -/
theorem guarded_of_one_instance (n : ℕ) (key : String) (maxKeys i : ℕ) {acts : List Act}
    (hacts : ∀ a ∈ acts, ByInstance i a) :
    Machine.Guarded (step n key maxKeys) (IsUpToDate key) (init maxKeys) acts := by
  have hassume :
      Machine.Guarded (step n key maxKeys) (fun _ a => ByInstance i a) (init maxKeys) acts :=
    Machine.guarded_of_mem hacts _
  have hinit : HasCounted key i (init maxKeys) := by
    intro c hc side node _
    have hown : ownCounter (CrdtManager.new maxKeys) key =
        if maxKeys ≤ 0 then none else some (PNCounter.new "server") := rfl
    have hfresh := (Option.ite_none_left_eq_some.mp (hown.symm.trans hc)).2
    rw [← Option.some.inj hfresh, PNCounter.entry_new]
    exact le_rfl
  have hdate : ∀ s a, HasCounted key i s → ByInstance i a → IsUpToDate key s a := by
    intro s a hcounted ha
    cases a with
    | submit j connectionId op now =>
      obtain ⟨rfl, hamount⟩ := ha
      intro c hc side node hnode
      exact (hcounted c hc side node hnode).trans
        (le_add_of_nonneg_right (PNCounter.contribution_nonneg hamount side node))
    | register _ _ | registerByType _ | restart _ | deliver _ | lose _ => trivial
  have hall : Machine.Guarded (step n key maxKeys) (fun _ _ => True) (init maxKeys) acts :=
    Machine.guarded_of_forall (fun _ _ => trivial) _ acts
  refine (Machine.guarded_iff_guarded (I := fun s => Inv key s ∧ HasCounted key i s) ?_ ?_
    ⟨inv_init, hinit⟩ hassume).mpr hall
  · rintro s a ⟨-, hcounted⟩ ha
    exact ⟨fun _ => trivial, fun _ => hdate s a hcounted ha⟩
  · rintro s a t ⟨h, hcounted⟩ ha - hs
    exact ⟨(step_iff h hs).1, hasCounted_step h hcounted ha hs⟩

/-! ## A restart -/

/-- Node `a` counts by an amount, through the connection `c1`. -/
def countBy (i : ℕ) (amount : ℤ) : Act :=
  .submit i "c1" { PNCounter.bumpOp "a" .increments amount 0 with key := some "k" } 0

/-- With one instance the persisted vector never goes down. -/
theorem one_instance_never_decreases : ∃ s, Machine.exec (step 1 "k" 1000) (init 1000)
      [countBy 0 5, .deliver 0, countBy 0 1] = some s ∧
    NeverDecreases 1 "k" 1000 [countBy 0 5, .deliver 0, countBy 0 1] := by
  obtain ⟨s, hrun, -⟩ := Machine.exists_exec_of_test
    (show (Machine.exec (step 1 "k" 1000) (init 1000) [countBy 0 5, .deliver 0, countBy 0 1]).map
      (fun s => decide (s.inFlight.length = 1)) = some true by decide +kernel)
  refine ⟨s, hrun, (neverDecreases_iff 1 "k" 1000 [countBy 0 5, .deliver 0, countBy 0 1] hrun).mpr ?_⟩
  exact guarded_of_one_instance 1 "k" 1000 0 (by decide +kernel)

/-- An instance counts 5, is restarted and counts 1: the persisted entry goes from 5 to 1. -/
theorem restart_loses_count :
    (∃ u v, Machine.exec (step 1 "k" 1000) (init 1000) [countBy 0 5] = some u ∧
      Machine.exec (step 1 "k" 1000) u [.restart 0, countBy 0 1] = some v ∧
      persistedEntry u .increments "a" = 5 ∧ persistedEntry v .increments "a" = 1) ∧
    ¬ NeverDecreases 1 "k" 1000 [countBy 0 5, .restart 0, countBy 0 1] := by
  obtain ⟨u, hu, hentry⟩ := Machine.exists_exec_of_test
    (show (Machine.exec (step 1 "k" 1000) (init 1000) [countBy 0 5]).map
      (fun u => decide (persistedEntry u .increments "a" = 5)) = some true by decide +kernel)
  obtain ⟨v, hv, hentry'⟩ := Machine.exists_exec_of_test
    (show (Machine.exec (step 1 "k" 1000) (init 1000) ([countBy 0 5] ++ [.restart 0, countBy 0 1])).map
      (fun v => decide (persistedEntry v .increments "a" = 1)) = some true by decide +kernel)
  obtain ⟨u', hu', hv⟩ := Machine.exec_append_eq_some.mp hv
  obtain rfl := Option.some.inj (hu.symm.trans hu')
  have hfive := of_decide_eq_true hentry
  have hone := of_decide_eq_true hentry'
  refine ⟨⟨u, v, hu, hv, hfive, hone⟩, fun hnever => ?_⟩
  have hle := hnever [countBy 0 5] [.restart 0, countBy 0 1] [] u v rfl hu hv .increments "a"
  rw [hfive, hone] at hle
  exact absurd hle (by decide)

end PersistedCounter

end Datasole
