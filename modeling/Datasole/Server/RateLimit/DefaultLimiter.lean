import Mathlib.Data.Int.Notation
import Mathlib.Data.List.Perm.Subperm
import Mathlib.Logic.Function.Basic
import Datasole.Common.Machine

/-!
# The default rate limiter

`consume` and `getOrCreate` of `server/primitives/rate-limit/default-limiter.ts`, for the calls on
one key, over a backend that either hands out what it stores (`MemoryBackend`, where all callers
share one object) or copies of it. A call runs from one `await` to the next in one step; the `get`
or `set` it waits for takes effect in a step of its own, and any number of calls may be under way.

The count is read, increased and written back in different steps, so a burst can start several
windows or write one count twice. `Undisturbed` is what has to be so for that not to happen: a `set`
takes effect while the store still holds what the call last read or wrote there, and an entry that
was read has not expired. In the runs in which it is always so, every call is counted and the limit
holds.
-/

namespace Datasole

structure RateLimitRule where
  windowMs : ℤ
  maxRequests : ℕ

structure WindowEntry where
  count : ℕ
  resetAt : ℤ
  deriving DecidableEq

structure RateLimitResult where
  allowed : Bool
  remaining : ℕ
  resetAt : ℤ
  retryAfter : Option ℤ

namespace DefaultRateLimiter

/-- What the backend holds: an object that callers share, or a copy of its own. -/
inductive Stored
  | ref (object : ℕ)
  | copy (entry : WindowEntry)
  deriving DecidableEq

/-- Where a call of `consume` waits. An entry is given by the number of its object. -/
inductive Phase
  /-- For `get`. -/
  | getting (now : ℤ)
  /-- For `get`, which has returned. -/
  | got (now : ℤ) (entry : Option ℕ)
  /-- For the `set` of a fresh entry. -/
  | settingFresh (entry : ℕ)
  /-- For `getOrCreate`, which has returned. -/
  | returned (entry : ℕ)
  /-- For the `set` of the entry with the higher count. -/
  | setting (entry : ℕ)
  /-- For that `set`, which has returned. -/
  | written (entry : ℕ)
  | done (result : RateLimitResult)

/-- A call, and what the store held when the call last read or wrote it. -/
structure Call where
  phase : Phase
  seen : Option Stored

end DefaultRateLimiter

open DefaultRateLimiter in
/-- The backend's value for the key, the calls, and the objects. The object with the number of a
call is the one that call made, as a fresh entry or as the copy it was handed. -/
structure DefaultRateLimiter where
  rule : RateLimitRule
  /-- The backend copies. -/
  copies : Bool
  store : Option Stored
  objects : ℕ → WindowEntry
  calls : ℕ → Call
  callCount : ℕ

namespace DefaultRateLimiter

/-- A fresh key. -/
def init (rule : RateLimitRule) (copies : Bool) : DefaultRateLimiter where
  rule := rule
  copies := copies
  store := none
  objects := fun _ => { count := 0, resetAt := 0 }
  calls := fun _ => { phase := .getting 0, seen := none }
  callCount := 0

def setObject (s : DefaultRateLimiter) (i : ℕ) (entry : WindowEntry) : DefaultRateLimiter :=
  { s with objects := Function.update s.objects i entry }

def setCall (s : DefaultRateLimiter) (k : ℕ) (call : Call) : DefaultRateLimiter :=
  { s with calls := Function.update s.calls k call }

/-- What `set` leaves in the backend. -/
def put (s : DefaultRateLimiter) (i : ℕ) : Stored :=
  if s.copies then .copy (s.objects i) else .ref i

/-- The result of `consume`, from the entry as it is then. -/
def result (s : DefaultRateLimiter) (i : ℕ) (now : ℤ) : RateLimitResult :=
  let entry := s.objects i
  let allowed := decide (entry.count ≤ s.rule.maxRequests)
  { allowed
    remaining := s.rule.maxRequests - entry.count
    resetAt := entry.resetAt
    retryAfter := if allowed then none else some (entry.resetAt - now) }

/-- `getOrCreate` with no entry to use. -/
def create (s : DefaultRateLimiter) (k : ℕ) (now : ℤ) : DefaultRateLimiter :=
  (s.setObject k { count := 0, resetAt := now + s.rule.windowMs }).setCall k
    { (s.calls k) with phase := .settingFresh k }

/-- The call goes on, or what it waits for takes effect. `now` is the time if the call looks at
it. -/
def advance (s : DefaultRateLimiter) (k : ℕ) (now : ℤ) : Option DefaultRateLimiter :=
  match (s.calls k).phase with
  | .getting asked =>
    match s.store with
    | none => some (s.setCall k { phase := .got asked none, seen := none })
    | some (.ref i) => some (s.setCall k { phase := .got asked (some i), seen := s.store })
    | some (.copy entry) =>
      some ((s.setObject k entry).setCall k { phase := .got asked (some k), seen := s.store })
  | .got asked none => some (s.create k asked)
  | .got asked (some i) =>
    if (s.objects i).resetAt ≤ asked then some (s.create k asked)
    else some (s.setCall k { (s.calls k) with phase := .returned i })
  | .settingFresh i =>
    some ({ s with store := some (s.put i) }.setCall k { phase := .returned i, seen := some (s.put i) })
  | .returned i =>
    let entry := s.objects i
    some ((s.setObject i { entry with count := entry.count + 1 }).setCall k
      { (s.calls k) with phase := .setting i })
  | .setting i =>
    some ({ s with store := some (s.put i) }.setCall k { phase := .written i, seen := some (s.put i) })
  | .written i => some (s.setCall k { (s.calls k) with phase := .done (s.result i now) })
  | .done _ => none

inductive Act
  | consume (now : ℤ)
  | advance (call : ℕ) (now : ℤ)

def step (s : DefaultRateLimiter) : Act → Option DefaultRateLimiter
  | .consume now =>
    some { s.setCall s.callCount { phase := .getting now, seen := none } with
      callCount := s.callCount + 1 }
  | .advance k now => if k < s.callCount then s.advance k now else none

/-- The entry that the backend holds. -/
def stored (s : DefaultRateLimiter) : Option WindowEntry :=
  s.store.map fun
    | .ref i => s.objects i
    | .copy entry => entry

def Phase.Allowed : Phase → Bool
  | .done result => result.allowed
  | _ => false

def Phase.Done : Phase → Bool
  | .done _ => true
  | _ => false

/-- The number of calls that were allowed. -/
def allowedCount (s : DefaultRateLimiter) : ℕ :=
  (List.range s.callCount).countP fun k => (s.calls k).phase.Allowed

/-- What a call that waits there, and saw `seen`, has to find when it goes on. -/
def UndisturbedAt (s : DefaultRateLimiter) (seen : Option Stored) : Phase → Prop
  | .got now entry => ∀ i ∈ entry, now < (s.objects i).resetAt
  | .settingFresh _ | .setting _ => s.store = seen
  | .getting _ | .returned _ | .written _ | .done _ => True

instance (s : DefaultRateLimiter) (seen : Option Stored) :
    ∀ phase, Decidable (s.UndisturbedAt seen phase)
  | .got _ _ => inferInstanceAs (Decidable (∀ i ∈ _, _))
  | .settingFresh _ | .setting _ => inferInstanceAs (Decidable (_ = _))
  | .getting _ | .returned _ | .written _ | .done _ => .isTrue trivial

/-- What keeps calls from disturbing each other. -/
def Undisturbed (s : DefaultRateLimiter) : Act → Prop
  | .consume _ => True
  | .advance k _ => s.UndisturbedAt (s.calls k).seen (s.calls k).phase

instance (s : DefaultRateLimiter) : ∀ a, Decidable (s.Undisturbed a)
  | .consume _ => .isTrue trivial
  | .advance k _ => inferInstanceAs (Decidable (s.UndisturbedAt (s.calls k).seen (s.calls k).phase))

end DefaultRateLimiter

end Datasole
