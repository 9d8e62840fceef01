import Mathlib.Data.List.Perm.Basic
import Datasole.Shared.Crdt.LWWRegister

/-!
# Delivery order of register operations

The server instances hear of each other's operations in different orders. On a tie `apply` takes
whichever operation comes last, where `merge` compares node ids, so it depends on the order which of
the newest operations stays. `register_order_independent_iff`: nothing else does.
-/

namespace Datasole

namespace LWWRegister

variable {V : Type*}

/-- These operations, applied one after the other. -/
def applyAll (r : LWWRegister V) (ops : List (CrdtOperation V)) : LWWRegister V :=
  ops.foldl apply r

/-- Any two registers with one initial value, older than all operations, hold one value after the
operations, whatever the orders. -/
def OrderIndependent (ops : List (CrdtOperation V)) : Prop :=
  ∀ a b : LWWRegister V, a.value = b.value → (∀ op ∈ ops, a.timestamp < op.timestamp) →
    (∀ op ∈ ops, b.timestamp < op.timestamp) →
    ∀ as bs, as.Perm ops → bs.Perm ops → (a.applyAll as).value = (b.applyAll bs).value

/-- No operation is newer. -/
def IsNewestOp (ops : List (CrdtOperation V)) (op : CrdtOperation V) : Prop :=
  op ∈ ops ∧ ∀ o ∈ ops, o.timestamp ≤ op.timestamp

variable {r : LWWRegister V} {ops : List (CrdtOperation V)} {op : CrdtOperation V}

/-- After the operations a register holds the newest of what it held and what they write. -/
theorem held_applyAll (r : LWWRegister V) (ops : List (CrdtOperation V)) :
    (r.applyAll ops).held =
      (ops.map fun op => (op.timestamp, op.value)).foldl (Newest.put Prod.fst) r.held := by
  induction ops generalizing r with
  | nil => rfl
  | cons op ops ih => exact (ih (r.apply op)).trans (by rw [held_apply]; rfl)

/-- A register that is older than all operations ends with the value of a newest one. -/
theorem exists_newestOp (hne : ops ≠ []) (hold : ∀ op ∈ ops, r.timestamp < op.timestamp)
    {os : List (CrdtOperation V)} (hos : os.Perm ops) :
    ∃ op, IsNewestOp ops op ∧ (r.applyAll os).value = op.value := by
  have hnewest : Newest.newest Prod.fst (r.held :: os.map fun op => (op.timestamp, op.value)) =
      some (r.applyAll os).held := by
    rw [held_applyAll]
    rfl
  obtain ⟨hmem, hmax⟩ := Newest.newest_spec hnewest
  have hle : ∀ op ∈ ops, op.timestamp ≤ (r.applyAll os).timestamp := fun op hop =>
    hmax _ (List.mem_cons_of_mem _ (List.mem_map_of_mem (hos.mem_iff.mpr hop)))
  rcases List.mem_cons.mp hmem with hheld | hmem
  · -- there is a newer one than the initial write
    obtain ⟨op, hop⟩ := List.exists_mem_of_ne_nil ops hne
    have htimestamp : (r.applyAll os).timestamp = r.timestamp := congrArg Prod.fst hheld
    exact absurd (hold op hop) (not_lt.mpr (htimestamp ▸ hle op hop))
  · obtain ⟨op, hop, hheld⟩ := List.mem_map.mp hmem
    have htimestamp : op.timestamp = (r.applyAll os).timestamp := congrArg Prod.fst hheld
    exact ⟨op, ⟨hos.mem_iff.mp hop, fun o ho => htimestamp ▸ hle o ho⟩,
      (congrArg Prod.snd hheld).symm⟩

/-- A newest operation that comes last is accepted. -/
theorem value_applyAll_concat (hold : r.timestamp ≤ op.timestamp)
    (hnewest : ∀ o ∈ ops, o.timestamp ≤ op.timestamp) :
    (r.applyAll (ops ++ [op])).value = op.value := by
  have hle : (r.applyAll ops).timestamp ≤ op.timestamp := by
    induction ops generalizing r with
    | nil => exact hold
    | cons o ops ih =>
      refine ih ?_ fun o' ho' => hnewest o' (List.mem_cons_of_mem _ ho')
      rw [timestamp_apply]
      exact max_le hold (hnewest o List.mem_cons_self)
  rw [applyAll, List.foldl_append]
  exact congrArg LWWRegister.value (if_pos hle)

/-- There is a time before all operations. -/
theorem exists_older (ops : List (CrdtOperation V)) :
    ∃ t : Timestamp, ∀ op ∈ ops, t < op.timestamp := by
  induction ops with
  | nil => exact ⟨0, fun _ h => absurd h List.not_mem_nil⟩
  | cons op ops ih =>
    obtain ⟨t, ht⟩ := ih
    refine ⟨min t (op.timestamp - 1), fun o ho => ?_⟩
    rcases List.mem_cons.mp ho with rfl | ho
    · exact min_lt_of_right_lt (sub_one_lt _)
    · exact min_lt_of_left_lt (ht o ho)

/-- For every finite set of operations: all orders give one value exactly if the operations with the
greatest timestamp carry one value. -/
theorem register_order_independent_iff (ops : List (CrdtOperation V)) :
    OrderIndependent ops ↔
      ∀ op op', IsNewestOp ops op → IsNewestOp ops op' → op.value = op'.value := by
  constructor
  · intro hindependent op op' hop hop'
    obtain ⟨t, ht⟩ := exists_older ops
    -- each of the two comes last in some order
    have hlast (op : CrdtOperation V) (hop : IsNewestOp ops op) : ∃ os, List.Perm os ops ∧
        ((LWWRegister.new "server" none t).applyAll os).value = op.value := by
      obtain ⟨before, after, hops⟩ := List.append_of_mem hop.1
      have hperm : List.Perm (before ++ after ++ [op]) ops := by
        rw [hops, List.append_assoc]
        exact (List.perm_append_singleton op after).append_left before
      refine ⟨_, hperm, value_applyAll_concat (ht op hop.1).le fun o ho => ?_⟩
      exact hop.2 o (hperm.subset (List.mem_append_left _ ho))
    obtain ⟨as, has, hvalue⟩ := hlast op hop
    obtain ⟨bs, hbs, hvalue'⟩ := hlast op' hop'
    rw [← hvalue, ← hvalue']
    exact hindependent _ _ rfl ht ht as bs has hbs
  · intro hsame a b hinitial ha hb as bs has hbs
    by_cases hne : ops = []
    · subst hne
      rw [has.eq_nil, hbs.eq_nil]
      exact hinitial
    · obtain ⟨op, hop, hvalue⟩ := exists_newestOp hne ha has
      obtain ⟨op', hop', hvalue'⟩ := exists_newestOp hne hb hbs
      rw [hvalue, hvalue', hsame op op' hop hop']

/-- Two operations of one timestamp from two nodes: the one that comes last stays. -/
theorem tied_ops_depend_on_order :
    let fromA : CrdtOperation ℕ := ⟨.lwwRegister, "a", 5, .set, some "k", some 1⟩
    let fromB : CrdtOperation ℕ := ⟨.lwwRegister, "b", 5, .set, some "k", some 2⟩
    ((LWWRegister.new "server" none 0).applyAll [fromA, fromB]).value = some 2 ∧
      ((LWWRegister.new "server" none 0).applyAll [fromB, fromA]).value = some 1 ∧
      ¬ OrderIndependent [fromA, fromB] := by
  intro fromA fromB
  have hfirst : ((LWWRegister.new "server" none 0).applyAll [fromA, fromB]).value = some 2 := by
    decide +kernel
  have hsecond : ((LWWRegister.new "server" none 0).applyAll [fromB, fromA]).value = some 1 := by
    decide +kernel
  refine ⟨hfirst, hsecond, fun hindependent => ?_⟩
  have hold : ∀ op ∈ [fromA, fromB],
      (LWWRegister.new "server" none 0 : LWWRegister ℕ).timestamp < op.timestamp := by decide +kernel
  have hsame := hindependent _ _ rfl hold hold [fromA, fromB] [fromB, fromA] (.refl _) (.swap _ _ _)
  rw [hfirst, hsecond] at hsame
  exact absurd hsame (by decide)

end LWWRegister

end Datasole
