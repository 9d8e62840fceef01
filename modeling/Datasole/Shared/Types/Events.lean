import Mathlib.Data.Nat.Notation

/-!
# Event types

`EventPayload` of `shared/types/events.ts`.
-/

namespace Datasole

structure EventPayload (D : Type*) where
  event : String
  data : D
  timestamp : ℕ
  deriving DecidableEq

end Datasole
