import Datasole.Common.JsString
import Datasole.Common.Newest
import Datasole.Shared.Crdt.Types

/-!
# The last-writer-wins register

`LWWRegister` of `shared/crdt/lww-register.ts`. The register holds `Option V`: the code stores
whatever `op.value` is, `undefined` included.

`set` and `apply` follow the rule of `Newest.put`: they accept a write that is not older than the
one held, so on equal timestamps the later arrival wins. `merge` follows another rule: it accepts a
state with the held timestamp only from a sender with the greater node id.
-/

namespace Datasole

structure LWWRegister (V : Type*) where
  nodeId : String
  value : Option V
  timestamp : Timestamp
  version : ℕ
deriving DecidableEq

namespace LWWRegister

variable {V : Type*}

/-- The constructor. -/
def new (nodeId : String) (initialValue : Option V) (timestamp : Timestamp) : LWWRegister V where
  nodeId := nodeId
  value := initialValue
  timestamp := timestamp
  version := 0

/-- The returned operation is the same whether or not the write was accepted. -/
def set (r : LWWRegister V) (newValue : Option V) (timestamp : Timestamp) :
    LWWRegister V × CrdtOperation V :=
  (if r.timestamp ≤ timestamp then
      { r with value := newValue, timestamp := timestamp, version := r.version + 1 }
    else r,
    { type := .lwwRegister, nodeId := r.nodeId, timestamp := timestamp, op := .set,
      value := newValue })

def apply (r : LWWRegister V) (op : CrdtOperation V) : LWWRegister V :=
  if r.timestamp ≤ op.timestamp then
    { r with value := op.value, timestamp := op.timestamp, version := r.version + 1 }
  else r

def merge (r : LWWRegister V) (remote : CrdtState (Option V)) : LWWRegister V :=
  if r.timestamp < remote.metadata.timestamp ∨
      (remote.metadata.timestamp = r.timestamp ∧ JsString.Lt r.nodeId remote.metadata.nodeId) then
    { r with
      value := remote.value
      timestamp := remote.metadata.timestamp
      version := max r.version remote.metadata.version + 1 }
  else r

def state (r : LWWRegister V) : CrdtState (Option V) where
  type := .lwwRegister
  value := r.value
  metadata :=
    { type := .lwwRegister
      nodeId := r.nodeId
      timestamp := r.timestamp
      version := r.version }

/-- The write a register holds: its timestamp and value. -/
def held (r : LWWRegister V) : Timestamp × Option V := (r.timestamp, r.value)

variable (r : LWWRegister V)

@[simp] theorem nodeId_set (v : Option V) (t : Timestamp) : (r.set v t).1.nodeId = r.nodeId := by
  unfold set; split <;> rfl

@[simp] theorem nodeId_apply (op : CrdtOperation V) : (r.apply op).nodeId = r.nodeId := by
  unfold apply; split <;> rfl

@[simp] theorem nodeId_merge (s : CrdtState (Option V)) : (r.merge s).nodeId = r.nodeId := by
  unfold merge; split <;> rfl

/-- `set` keeps the newer of the held and the new write, the new one on a tie. -/
theorem held_set (v : Option V) (t : Timestamp) :
    (r.set v t).1.held = Newest.put Prod.fst r.held (t, v) := by
  unfold set held Newest.put
  split <;> rfl

/-- `apply` keeps the newer of the held and the applied write, the applied one on a tie. -/
theorem held_apply (op : CrdtOperation V) :
    (r.apply op).held = Newest.put Prod.fst r.held (op.timestamp, op.value) := by
  unfold apply held Newest.put
  split <;> rfl

/-- A timestamp that is set is taken unless it is older. -/
theorem timestamp_set (v : Option V) (t : Timestamp) :
    (r.set v t).1.timestamp = max r.timestamp t := by
  have h : (Newest.put Prod.fst r.held (t, v)).1 = max r.timestamp t :=
    Newest.stamp_put r.held (t, v)
  rwa [← held_set] at h

/-- So it is if it comes with an operation. -/
theorem timestamp_apply (op : CrdtOperation V) :
    (r.apply op).timestamp = max r.timestamp op.timestamp := by
  have h : (Newest.put Prod.fst r.held (op.timestamp, op.value)).1 = max r.timestamp op.timestamp :=
    Newest.stamp_put r.held (op.timestamp, op.value)
  rwa [← held_apply] at h

/-- `merge` takes a newer state, and on a tie the state of a sender with a greater node id. -/
theorem held_merge (s : CrdtState (Option V)) :
    (r.merge s).held =
      if r.timestamp < s.metadata.timestamp ∨
          (s.metadata.timestamp = r.timestamp ∧ JsString.Lt r.nodeId s.metadata.nodeId) then
        (s.metadata.timestamp, s.value)
      else r.held := by
  unfold merge held
  split <;> rfl

end LWWRegister

end Datasole
