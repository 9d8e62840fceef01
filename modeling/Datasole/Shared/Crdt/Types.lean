import Mathlib.Algebra.Order.Ring.Rat
import Datasole.Common.JsMap

/-!
# Operations and states of the CRDTs

The types of `shared/crdt/types.ts` that the three CRDT classes read and write. Numbers that are
compared but never added to (timestamps) are rationals, so every finite number is one of them.
-/

namespace Datasole

/-- Milliseconds, as `Date.now()` or the caller gives them. -/
abbrev Timestamp := ℚ

inductive CrdtType where
  | gCounter | pnCounter | gSet | orSet | lwwRegister | lwwMap
deriving DecidableEq, Repr

/-- The `op` field of an operation. -/
inductive OpKind where
  | increment | decrement | add | remove | set
deriving DecidableEq, Repr

/-- `CrdtOperation<T>`; an absent optional field is `none`. -/
structure CrdtOperation (V : Type*) where
  type : CrdtType
  nodeId : String
  timestamp : Timestamp
  op : OpKind
  key : Option String := none
  value : Option V := none
deriving DecidableEq

/-- `Partial<PNCounterVector>`, the extra payload of a counter's metadata. -/
structure PartialVector (N : Type*) where
  increments : Option (JsMap String N)
  decrements : Option (JsMap String N)

/-- `CrdtMetadata`, with the `vector` that only counters add to it. -/
structure CrdtMetadata (N : Type*) where
  type : CrdtType
  nodeId : String
  timestamp : Timestamp
  version : ℕ
  vector : Option (PartialVector N) := none

/-- `CrdtState<T>`. -/
structure CrdtState (T : Type*) where
  type : CrdtType
  value : T
  metadata : CrdtMetadata T

end Datasole
