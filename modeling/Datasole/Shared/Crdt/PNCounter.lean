import Mathlib.Algebra.BigOperators.Group.Finset.Piecewise
import Mathlib.Algebra.BigOperators.Group.List.Basic
import Mathlib.Order.MinMax
import Mathlib.Tactic.Ring
import Datasole.Shared.Crdt.Types

/-!
# The positive-negative counter

`PNCounter` of `shared/crdt/pn-counter.ts`: two vectors, each with one entry a node. The code is
generic in the type `N` its amounts live in, because it never checks what it adds; the results are
about integers, which the double format holds exactly as long as the totals stay below `2 ^ 53`.

An increment and a decrement do the same thing to one vector each, so the lemmas speak of a `Side`
and its `entry` for a node. `entry_bump`, `entry_apply` and `entry_merge` say what the three
operations do to every entry, and `value_eq_sum` reads the value off the entries. What a list of
operations should add up to is `paid` for one entry and `total` for the value.
-/

namespace Datasole

/-- `PNCounterVector`, the vectors as the plain objects that `vector()` builds. -/
structure PNCounterVector (N : Type*) where
  increments : JsMap String N
  decrements : JsMap String N

/-- `readVectorFromMetadata`: the vector payload, when the metadata carries one. -/
def readVectorFromMetadata {N : Type*} (metadata : CrdtMetadata N) : Option (PartialVector N) :=
  metadata.vector

structure PNCounter (N : Type*) where
  nodeId : String
  increments : JsMap String N
  decrements : JsMap String N
  version : ℕ

namespace PNCounter

section Code

variable {N : Type*} [Zero N] [One N] [Add N] [Sub N] [Max N]

/-- The constructor: both vectors hold a zero entry for the counter's own node. -/
def new (nodeId : String) : PNCounter N where
  nodeId := nodeId
  increments := JsMap.empty.set nodeId 0
  decrements := JsMap.empty.set nodeId 0
  version := 0

def value (c : PNCounter N) : N :=
  c.decrements.values.foldl (· - ·) (c.increments.values.foldl (· + ·) 0)

def vector (c : PNCounter N) : PNCounterVector N where
  increments := c.increments.toObject
  decrements := c.decrements.toObject

/-- `m.set(nodeId, (m.get(nodeId) ?? 0) + amount)`. -/
def addTo (m : JsMap String N) (nodeId : String) (amount : N) : JsMap String N :=
  m.set nodeId ((m.get nodeId).getD 0 + amount)

def increment (c : PNCounter N) (amount : N) (now : Timestamp) : PNCounter N × CrdtOperation N :=
  ({ c with increments := addTo c.increments c.nodeId amount, version := c.version + 1 },
    { type := .pnCounter, nodeId := c.nodeId, timestamp := now, op := .increment,
      value := some amount })

def decrement (c : PNCounter N) (amount : N) (now : Timestamp) : PNCounter N × CrdtOperation N :=
  ({ c with decrements := addTo c.decrements c.nodeId amount, version := c.version + 1 },
    { type := .pnCounter, nodeId := c.nodeId, timestamp := now, op := .decrement,
      value := some amount })

/-- An operation that is neither an increment nor a decrement only moves the version. -/
def apply (c : PNCounter N) (op : CrdtOperation N) : PNCounter N :=
  let amount := op.value.getD 1
  match op.op with
  | .increment =>
    { c with increments := addTo c.increments op.nodeId amount, version := c.version + 1 }
  | .decrement =>
    { c with decrements := addTo c.decrements op.nodeId amount, version := c.version + 1 }
  | .add | .remove | .set => { c with version := c.version + 1 }

/-- The merge loop over one vector: every listed node gets the larger of the two counts. The code
skips counts that are no finite numbers; `N` has none. -/
def mergeMax (m counts : JsMap String N) : JsMap String N :=
  m.update (fun own count => max (own.getD 0) count) counts.entries

def merge (c : PNCounter N) (remote : CrdtState N) : PNCounter N :=
  match readVectorFromMetadata remote.metadata with
  | none => c
  | some rv =>
    { c with
      increments := rv.increments.elim c.increments (mergeMax c.increments)
      decrements := rv.decrements.elim c.decrements (mergeMax c.decrements)
      version := c.version + 1 }

def state (c : PNCounter N) (now : Timestamp) : CrdtState N where
  type := .pnCounter
  value := c.value
  metadata :=
    { type := .pnCounter
      nodeId := c.nodeId
      timestamp := now
      version := c.version
      vector := some ⟨some c.vector.increments, some c.vector.decrements⟩ }

end Code

/-! ## Entries -/

/-- One of the two vectors of a counter. -/
inductive Side where
  | increments | decrements
deriving DecidableEq

/-- The vector an operation adds to. -/
def Side.ofOp : OpKind → Option Side
  | .increment => some .increments
  | .decrement => some .decrements
  | .add | .remove | .set => none

/-- The vector of a side. -/
def counts {N : Type*} (c : PNCounter N) : Side → JsMap String N
  | .increments => c.increments
  | .decrements => c.decrements

/-- The local operation on a side: `increment` or `decrement`. -/
def bump (c : PNCounter ℤ) (side : Side) (amount : ℤ) (now : Timestamp) :
    PNCounter ℤ × CrdtOperation ℤ :=
  match side with
  | .increments => c.increment amount now
  | .decrements => c.decrement amount now

/-- What a counter holds for a node, an absent entry counting as zero. -/
def entry (c : PNCounter ℤ) (side : Side) (node : String) : ℤ := ((c.counts side).get node).getD 0

/-- The amount an operation adds to the entry of a node. -/
def contribution (op : CrdtOperation ℤ) (side : Side) (node : String) : ℤ :=
  if Side.ofOp op.op = some side ∧ op.nodeId = node then op.value.getD 1 else 0

/-- The operation that `bump` returns. -/
def bumpOp (nodeId : String) (side : Side) (amount : ℤ) (now : Timestamp) : CrdtOperation ℤ where
  type := .pnCounter
  nodeId := nodeId
  timestamp := now
  op := match side with
    | .increments => .increment
    | .decrements => .decrement
  value := some amount

/-- The vector of a side that a state carries. -/
def listed (st : CrdtState ℤ) (side : Side) : Option (JsMap String ℤ) :=
  (readVectorFromMetadata st.metadata).bind fun rv =>
    match side with
    | .increments => rv.increments
    | .decrements => rv.decrements

/-- What a state shows for a node, an unlisted node counting as zero. -/
def shown (st : CrdtState ℤ) (side : Side) (node : String) : ℤ :=
  ((listed st side).bind (·.get node)).getD 0

/-- No entry is negative. -/
def Nonneg (c : PNCounter ℤ) : Prop := ∀ side node, 0 ≤ c.entry side node

variable {c d : PNCounter ℤ}

@[simp] theorem nodeId_new (n : String) : (new n : PNCounter ℤ).nodeId = n := rfl

@[simp] theorem nodeId_bump (side : Side) (a : ℤ) (now : Timestamp) :
    (c.bump side a now).1.nodeId = c.nodeId := by
  cases side <;> rfl

@[simp] theorem nodeId_apply (op : CrdtOperation ℤ) : (c.apply op).nodeId = c.nodeId := by
  unfold apply
  cases op.op <;> rfl

@[simp] theorem nodeId_merge (r : CrdtState ℤ) : (c.merge r).nodeId = c.nodeId := by
  unfold merge
  cases readVectorFromMetadata r.metadata <;> rfl

/-- Replacing the counter of one node by one with the same id keeps every counter under its id. -/
theorem nodeId_update {counters : String → PNCounter ℤ} (h : ∀ n, (counters n).nodeId = n)
    {node : String} (hc : c.nodeId = node) (n : String) :
    (Function.update counters node c n).nodeId = n :=
  (Function.forall_update_iff counters fun n c => c.nodeId = n).mpr ⟨hc, fun n _ => h n⟩ n

/-- An amount is added to the entry of one node. -/
theorem getD_addTo (m : JsMap String ℤ) (n node : String) (a : ℤ) :
    ((addTo m n a).get node).getD 0 = (m.get node).getD 0 + if n = node then a else 0 := by
  rw [addTo, JsMap.get_set]
  by_cases h : node = n
  · subst h; simp
  · rw [if_neg h, if_neg (Ne.symm h), add_zero]

/-- All entries of a new counter are zero. -/
@[simp] theorem entry_new (n : String) (side : Side) (node : String) :
    (new n).entry side node = 0 := by
  have hget : ((new n : PNCounter ℤ).counts side) = JsMap.empty.set n 0 := by cases side <;> rfl
  rw [entry, hget, JsMap.get_set]
  by_cases h : node = n <;> simp [h, JsMap.get_empty]

/-- The operation of an increment or decrement is in the counter's own name. -/
theorem bump_snd (side : Side) (a : ℤ) (now : Timestamp) :
    (c.bump side a now).2 = bumpOp c.nodeId side a now := by
  cases side <;> rfl

/-- The operation a local call returns adds its amount to the caller's own entry on its side. -/
theorem contribution_bumpOp (n : String) (side side' : Side) (a : ℤ) (now : Timestamp)
    (node : String) :
    contribution (bumpOp n side a now) side' node =
      if side = side' ∧ n = node then a else 0 := by
  cases side <;> cases side' <;> simp [contribution, bumpOp, Side.ofOp]

/-- Applying an operation adds its contribution to each entry and does nothing else. -/
theorem entry_apply (op : CrdtOperation ℤ) (side : Side) (node : String) :
    (c.apply op).entry side node = c.entry side node + contribution op side node := by
  unfold apply entry contribution
  cases op.op <;> cases side <;> simp [counts, Side.ofOp, getD_addTo]

/-- A local call changes the entries as applying the operation it returns would. -/
theorem entry_bump (side side' : Side) (a : ℤ) (now : Timestamp) (node : String) :
    (c.bump side a now).1.entry side' node =
      c.entry side' node + contribution (bumpOp c.nodeId side a now) side' node := by
  rw [← entry_apply]
  cases side <;> cases side' <;> rfl

/-- A merge takes the larger entries of the vectors that are listed. -/
theorem counts_merge (st : CrdtState ℤ) (side : Side) :
    (c.merge st).counts side = (listed st side).elim (c.counts side) (mergeMax (c.counts side)) := by
  unfold merge listed
  cases readVectorFromMetadata st.metadata <;> cases side <;> rfl

/-- A merge raises the counts of the nodes that the state lists and leaves the others alone. -/
theorem get_merge (st : CrdtState ℤ) (side : Side) (node : String) :
    ((c.merge st).counts side).get node =
      ((listed st side).bind (·.get node)).elim ((c.counts side).get node)
        (fun count => some (max (((c.counts side).get node).getD 0) count)) := by
  rw [counts_merge]
  cases listed st side with
  | none => rfl
  | some counts =>
    rw [Option.elim_some, mergeMax, JsMap.get_update _ _ (JsMap.nodup_keys _)]
    rfl

/-- Merging takes the larger of the two counts for every node. -/
theorem entry_merge (st : CrdtState ℤ) (side : Side) (node : String) (hc : 0 ≤ c.entry side node) :
    (c.merge st).entry side node = max (c.entry side node) (shown st side node) := by
  rw [entry, get_merge, shown]
  cases (listed st side).bind (·.get node) with
  | none => exact (max_eq_left hc).symm
  | some count => rfl

theorem listed_state (now : Timestamp) (side : Side) :
    listed (c.state now) side = some (c.counts side).toObject := by
  cases side <;> rfl

/-- A state shows the entries of its counter, but for the key that a plain object cannot carry. -/
theorem shown_state (now : Timestamp) (side : Side) (node : String) :
    shown (c.state now) side node = if node = "__proto__" then 0 else c.entry side node := by
  rw [shown, listed_state, Option.bind_some]
  split
  · next h => rw [h, JsMap.get_toObject_proto]; rfl
  · next h => rw [JsMap.get_toObject _ h]; rfl

theorem nonneg_new (n : String) : (new n : PNCounter ℤ).Nonneg :=
  fun side node => (entry_new n side node).ge

/-- An operation whose amount is not negative pays nothing negative. -/
theorem contribution_nonneg {op : CrdtOperation ℤ} (h : 0 ≤ op.value.getD 1) (side : Side)
    (node : String) : 0 ≤ contribution op side node := by
  unfold contribution
  split
  · exact h
  · exact le_rfl

/-- An operation whose amount is not negative. -/
theorem Nonneg.apply (h : c.Nonneg) {op : CrdtOperation ℤ} (hop : 0 ≤ op.value.getD 1) :
    (c.apply op).Nonneg := by
  intro side node
  rw [entry_apply]
  exact add_nonneg (h side node) (contribution_nonneg hop side node)

/-- An increment or decrement by an amount that is not negative. -/
theorem Nonneg.bump (h : c.Nonneg) (side : Side) {a : ℤ} (ha : 0 ≤ a) (now : Timestamp) :
    (c.bump side a now).1.Nonneg := by
  intro side' node
  have hop : 0 ≤ (bumpOp c.nodeId side a now).value.getD 1 := ha
  rw [entry_bump]
  exact add_nonneg (h side' node) (contribution_nonneg hop side' node)

theorem Nonneg.merge (h : c.Nonneg) (st : CrdtState ℤ) : (c.merge st).Nonneg := by
  intro side node
  rw [entry_merge st side node (h side node)]
  exact le_max_of_le_left (h side node)

/-! ## Merging as a join -/

/-- What a merge makes of a replica's own count and the count that a state lists, if any. -/
def raise (own listed : Option ℤ) : Option ℤ :=
  listed.elim own fun count => some (max (own.getD 0) count)

/-- An entry is raised by nothing less than what it is. -/
theorem raise_self (x : Option ℤ) : raise x x = x := by
  cases x with
  | none => rfl
  | some v => rw [raise, Option.elim_some, Option.getD_some, max_self]

/-- The larger of two entries, in any order. -/
theorem raise_comm {x y : Option ℤ} (hx : 0 ≤ x.getD 0) (hy : 0 ≤ y.getD 0) :
    raise x y = raise y x := by
  cases x with
  | none =>
    cases y with
    | none => rfl
    | some w => exact congrArg some (max_eq_right hy)
  | some v =>
    cases y with
    | none => exact congrArg some (max_eq_right hx).symm
    | some w => exact congrArg some (max_comm v w)

/-- The largest of three entries, in any order. -/
theorem raise_assoc {x : Option ℤ} (hx : 0 ≤ x.getD 0) (y z : Option ℤ) :
    raise (raise x y) z = raise x (raise y z) := by
  cases z with
  | none => rfl
  | some u =>
    cases y with
    | none =>
      have hmax : max (x.getD 0) u = max (x.getD 0) (max 0 u) := by
        rw [← max_assoc, max_eq_left hx]
      exact congrArg some hmax
    | some w => exact congrArg some (max_assoc (x.getD 0) w u)

/-- The two counters show the same vectors. -/
def SameVectors (c d : PNCounter ℤ) : Prop :=
  ∀ node, c.vector.increments.get node = d.vector.increments.get node ∧
    c.vector.decrements.get node = d.vector.decrements.get node

/-- Merging a state raises every entry but `__proto__`. -/
theorem get_merge_state (now : Timestamp) (side : Side) {node : String} (h : node ≠ "__proto__") :
    ((c.merge (d.state now)).counts side).get node =
      raise ((c.counts side).get node) ((d.counts side).get node) := by
  rw [get_merge, listed_state, Option.bind_some, JsMap.get_toObject _ h, raise]

/-- Two counters with the same entries show the same vectors. -/
theorem sameVectors_of_counts (h : ∀ side node, node ≠ "__proto__" →
    (c.counts side).get node = (d.counts side).get node) : SameVectors c d := by
  have hside :
      ∀ side node, (c.counts side).toObject.get node = (d.counts side).toObject.get node := by
    intro side node
    by_cases hn : node = "__proto__"
    · rw [hn, JsMap.get_toObject_proto, JsMap.get_toObject_proto]
    · rw [JsMap.get_toObject _ hn, JsMap.get_toObject _ hn, h side node hn]
  exact fun node => ⟨hside .increments node, hside .decrements node⟩

/-- A counter that merges its own state is unchanged. -/
theorem merge_idempotent (c : PNCounter ℤ) (now : Timestamp) :
    SameVectors (c.merge (c.state now)) c := by
  refine sameVectors_of_counts fun side node h => ?_
  rw [get_merge_state now side h, raise_self]

/-- Two counters that merge each other's state show the same. -/
theorem Nonneg.merge_comm (hc : c.Nonneg) (hd : d.Nonneg) (now now' : Timestamp) :
    SameVectors (c.merge (d.state now)) (d.merge (c.state now')) := by
  refine sameVectors_of_counts fun side node h => ?_
  rw [get_merge_state now side h, get_merge_state now' side h]
  exact raise_comm (hc side node) (hd side node)

/-- Three counters may be merged in any order. -/
theorem Nonneg.merge_assoc {e : PNCounter ℤ} (hc : c.Nonneg) (now now' now'' : Timestamp) :
    SameVectors ((c.merge (d.state now)).merge (e.state now'))
      (c.merge ((d.merge (e.state now')).state now'')) := by
  refine sameVectors_of_counts fun side node h => ?_
  rw [get_merge_state now' side h, get_merge_state now side h, get_merge_state now'' side h,
    get_merge_state now' side h]
  exact raise_assoc (hc side node) _ _

/-! ## The value -/

/-- What is subtracted one by one is subtracted as a sum. -/
theorem foldl_sub_eq_sum (a : ℤ) (l : List ℤ) : l.foldl (· - ·) a = a - l.sum := by
  induction l generalizing a with
  | nil => simp
  | cons x l ih => rw [List.foldl_cons, ih, List.sum_cons, sub_sub]

theorem value_eq_sub : c.value = c.increments.values.sum - c.decrements.values.sum := by
  rw [value, foldl_sub_eq_sum, ← List.sum_eq_foldl]

/-- The value is the sum of the increment entries minus the sum of the decrement entries, over any
set of nodes that covers the non-zero entries. -/
theorem value_eq_sum (S : Finset String) (hS : ∀ side node, node ∉ S → c.entry side node = 0) :
    c.value = ∑ n ∈ S, c.entry .increments n - ∑ n ∈ S, c.entry .decrements n := by
  rw [value_eq_sub, JsMap.sum_values c.increments S (hS .increments),
    JsMap.sum_values c.decrements S (hS .decrements)]
  rfl

/-- The amount an operation adds to the value. -/
def signedAmount (op : CrdtOperation ℤ) : ℤ :=
  match op.op with
  | .increment => op.value.getD 1
  | .decrement => -op.value.getD 1
  | .add | .remove | .set => 0

@[simp] theorem value_new (n : String) : (new n : PNCounter ℤ).value = 0 := by
  rw [value_eq_sum ∅ fun side node _ => entry_new n side node]
  simp

/-- The sum of the entries grows by what is added to one. -/
theorem sum_values_addTo (m : JsMap String ℤ) (n : String) (a : ℤ) :
    (addTo m n a).values.sum = m.values.sum + a := by
  rw [addTo, JsMap.sum_values_set]
  ring

/-- Applying an operation adds its signed amount to the value. -/
theorem value_apply (op : CrdtOperation ℤ) : (c.apply op).value = c.value + signedAmount op := by
  unfold apply signedAmount
  cases op.op <;> simp only [value_eq_sub, sum_values_addTo] <;> ring

/-! ## What operations add up to -/

/-- What a list of operations adds to the entry of a node. -/
def paid (ops : List (CrdtOperation ℤ)) (side : Side) (node : String) : ℤ :=
  (ops.map (contribution · side node)).sum

/-- The sum of all increments minus the sum of all decrements. -/
def total (ops : List (CrdtOperation ℤ)) : ℤ := (ops.map signedAmount).sum

@[simp] theorem paid_nil (side : Side) (node : String) : paid [] side node = 0 := rfl

theorem paid_cons (op : CrdtOperation ℤ) (ops : List (CrdtOperation ℤ)) (side : Side)
    (node : String) : paid (op :: ops) side node = contribution op side node + paid ops side node := by
  rw [paid, List.map_cons, List.sum_cons, paid]

theorem paid_append (ops ops' : List (CrdtOperation ℤ)) (side : Side) (node : String) :
    paid (ops ++ ops') side node = paid ops side node + paid ops' side node := by
  rw [paid, List.map_append, List.sum_append, paid, paid]

theorem paid_concat (ops : List (CrdtOperation ℤ)) (op : CrdtOperation ℤ) (side : Side)
    (node : String) :
    paid (ops ++ [op]) side node = paid ops side node + contribution op side node := by
  rw [paid_append, paid_cons, paid_nil, add_zero]

theorem total_append (ops ops' : List (CrdtOperation ℤ)) :
    total (ops ++ ops') = total ops + total ops' := by
  rw [total, List.map_append, List.sum_append, total, total]

theorem total_concat (ops : List (CrdtOperation ℤ)) (op : CrdtOperation ℤ) :
    total (ops ++ [op]) = total ops + signedAmount op := by
  rw [total_append, total, total, List.map_singleton, List.sum_singleton]

theorem total_perm {ops ops' : List (CrdtOperation ℤ)} (h : ops.Perm ops') :
    total ops = total ops' :=
  (h.map signedAmount).sum_eq

/-- Amounts that are not negative pay nothing negative. -/
theorem paid_nonneg {ops : List (CrdtOperation ℤ)} (h : ∀ op ∈ ops, 0 ≤ op.value.getD 1)
    (side : Side) (node : String) : 0 ≤ paid ops side node := by
  induction ops with
  | nil => exact le_rfl
  | cons op ops ih =>
    rw [paid_cons]
    exact add_nonneg (contribution_nonneg (h op List.mem_cons_self) side node)
      (ih fun o ho => h o (List.mem_cons_of_mem _ ho))

/-- Over nodes that include its own, an operation contributes its signed amount once. -/
theorem sum_contribution {S : Finset String} {op : CrdtOperation ℤ} (h : op.nodeId ∈ S) :
    ∑ n ∈ S, contribution op .increments n - ∑ n ∈ S, contribution op .decrements n =
      signedAmount op := by
  cases hop : op.op <;> simp [contribution, signedAmount, hop, Side.ofOp, h]

/-- What the operations pay into the entries of their nodes is their total. -/
theorem sum_paid {S : Finset String} {ops : List (CrdtOperation ℤ)}
    (h : ∀ op ∈ ops, op.nodeId ∈ S) :
    ∑ n ∈ S, paid ops .increments n - ∑ n ∈ S, paid ops .decrements n = total ops := by
  induction ops with
  | nil => simp [total]
  | cons op ops ih =>
    have hop := sum_contribution (h op List.mem_cons_self)
    have hops := ih fun o ho => h o (List.mem_cons_of_mem _ ho)
    simp only [paid_cons, Finset.sum_add_distrib]
    rw [total, List.map_cons, List.sum_cons, ← hop, ← total, ← hops]
    ring

/-- A counter whose entries are what the operations paid has their total as its value. -/
theorem value_eq_total {S : Finset String} {ops : List (CrdtOperation ℤ)}
    (h : ∀ op ∈ ops, op.nodeId ∈ S) (hzero : ∀ side n, n ∉ S → c.entry side n = 0)
    (hpaid : ∀ side, ∀ n ∈ S, c.entry side n = paid ops side n) : c.value = total ops := by
  rw [value_eq_sum S hzero, Finset.sum_congr rfl (hpaid .increments),
    Finset.sum_congr rfl (hpaid .decrements), sum_paid h]

end PNCounter

end Datasole
