import Datasole.Common.Transducer
import Datasole.Server.Backend.MemoryBackend
import Datasole.Server.RateLimit.DefaultLimiter

/-!
# The default rate limiter, one call after the other

`check`, `consume`, `reset` and `getOrCreate` of `server/primitives/rate-limit/default-limiter.ts`
on a `MemoryBackend`, where each call has ended before the next is made. The backend hands out the
object that it stores, and `consume` changes it in place.

What is in the store under a key is an entry of its own (`Wf`), so a call on one key leaves the
others alone, and `entry_check`, `entry_consume` and `entry_reset` say what it does to its own.
-/

namespace Datasole

/-- The backend holds references to the objects, which are numbered as they are made. -/
structure SequentialLimiter where
  backend : MemoryBackend ℕ
  objects : ℕ → WindowEntry
  allocated : ℕ

/-- A call. `consume` reads the clock again for its result. -/
inductive LimiterCall where
  | check (key : String) (rule : RateLimitRule) (now : ℤ)
  | consume (key : String) (rule : RateLimitRule) (cost : ℕ) (now later : ℤ)
  | reset (key : String) (now : ℤ)

namespace LimiterCall

def key : LimiterCall → String
  | check key _ _ | consume key _ _ _ _ | reset key _ => key

/-- When the call is made. -/
def now : LimiterCall → ℤ
  | check _ _ now | consume _ _ _ now _ | reset _ now => now

end LimiterCall

namespace SequentialLimiter

def new : SequentialLimiter where
  backend := MemoryBackend.new
  objects := fun _ => { count := 0, resetAt := 0 }
  allocated := 0

/-- The key in the backend. -/
def storeKey (key : String) : String := "rl:" ++ key

variable (s : SequentialLimiter)

/-- A fresh entry, which is stored. -/
def create (key : String) (rule : RateLimitRule) (now : ℤ) : ℕ × SequentialLimiter :=
  (s.allocated,
    { backend := s.backend.set (storeKey key) s.allocated
      objects := Function.update s.objects s.allocated { count := 0, resetAt := now + rule.windowMs }
      allocated := s.allocated + 1 })

def getOrCreate (key : String) (rule : RateLimitRule) (now : ℤ) : ℕ × SequentialLimiter :=
  match s.backend.get (storeKey key) with
  | none => s.create key rule now
  | some i => if (s.objects i).resetAt ≤ now then s.create key rule now else (i, s)

def check (key : String) (rule : RateLimitRule) (now : ℤ) : RateLimitResult × SequentialLimiter :=
  let (i, s) := s.getOrCreate key rule now
  let entry := s.objects i
  ({ allowed := decide (entry.count < rule.maxRequests)
     remaining := rule.maxRequests - entry.count
     resetAt := entry.resetAt
     retryAfter := none }, s)

def consume (key : String) (rule : RateLimitRule) (cost : ℕ) (now later : ℤ) :
    RateLimitResult × SequentialLimiter :=
  let (i, s) := s.getOrCreate key rule now
  let entry := { s.objects i with count := (s.objects i).count + cost }
  let allowed := decide (entry.count ≤ rule.maxRequests)
  ({ allowed
     remaining := rule.maxRequests - entry.count
     resetAt := entry.resetAt
     retryAfter := if allowed then none else some (entry.resetAt - later) },
    { s with
      backend := s.backend.set (storeKey key) i
      objects := Function.update s.objects i entry })

def reset (key : String) : SequentialLimiter :=
  { s with backend := s.backend.delete (storeKey key) }

/-- One call, and what it returns. -/
def step : LimiterCall → Option RateLimitResult × SequentialLimiter
  | .check key rule now => ((s.check key rule now).1, (s.check key rule now).2)
  | .consume key rule cost now later =>
    ((s.consume key rule cost now later).1, (s.consume key rule cost now later).2)
  | .reset key _ => (none, s.reset key)

/-- The entry under a key. -/
def entry (key : String) : Option WindowEntry := (s.backend.get (storeKey key)).map s.objects

/-- Each key has an object of its own. -/
structure Wf : Prop where
  lt : ∀ k i, s.backend.get k = some i → i < s.allocated
  inj : ∀ k k' i, s.backend.get k = some i → s.backend.get k' = some i → k = k'

end SequentialLimiter

/-- The entry that a call at `now` goes on with, where `entry` is stored. -/
def WindowEntry.current (entry : Option WindowEntry) (rule : RateLimitRule)
    (now : ℤ) : WindowEntry :=
  match entry with
  | none => { count := 0, resetAt := now + rule.windowMs }
  | some entry => if entry.resetAt ≤ now then { count := 0, resetAt := now + rule.windowMs } else entry

namespace SequentialLimiter

variable {s : SequentialLimiter} {key key' : String} {rule : RateLimitRule} {cost : ℕ} {now later : ℤ}

theorem storeKey_inj : storeKey key = storeKey key' ↔ key = key' := by
  simp [storeKey, String.append_right_inj]

theorem wf_new : new.Wf where
  lt _ _ h := by cases h
  inj _ _ _ h := by cases h

theorem get_set (b : MemoryBackend ℕ) (k k' : String) (i : ℕ) :
    (b.set k i).get k' = if k' = k then some i else b.get k' := by
  rw [MemoryBackend.get, MemoryBackend.set, JsMap.get_set]
  rfl

/-- The object under a key is changed, and no other. -/
theorem Wf.setObject (h : s.Wf) {i : ℕ} (hget : s.backend.get (storeKey key) = some i)
    (entry : WindowEntry) :
    let t : SequentialLimiter := { s with
      backend := s.backend.set (storeKey key) i
      objects := Function.update s.objects i entry }
    t.Wf ∧ ∀ key', t.entry key' = if key' = key then some entry else s.entry key' := by
  have hset (k : String) : (s.backend.set (storeKey key) i).get k = s.backend.get k := by
    rw [get_set]
    split
    · next hk => rw [hk, hget]
    · rfl
  refine ⟨⟨fun k j hk => h.lt k j (hset k ▸ hk), fun k k' j hk hk' => ?_⟩, fun key' => ?_⟩
  · exact h.inj k k' j (hset k ▸ hk) (hset k' ▸ hk')
  · simp only [SequentialLimiter.entry, hset]
    split
    · next hkey => rw [hkey, hget, Option.map_some, Function.update_self]
    · next hkey =>
      cases hget' : s.backend.get (storeKey key') with
      | none => rfl
      | some j =>
        have hne : j ≠ i := by
          rintro rfl
          exact hkey (storeKey_inj.mp (h.inj _ _ j hget' hget))
        rw [Option.map_some, Option.map_some, Function.update_of_ne hne]

/-- What `getOrCreate` returns is the object that is stored then. -/
theorem Wf.create (h : s.Wf) (key : String) (rule : RateLimitRule) (now : ℤ) :
    (s.create key rule now).2.Wf ∧
      (s.create key rule now).2.backend.get (storeKey key) = some (s.create key rule now).1 ∧
      ∀ key', (s.create key rule now).2.entry key' =
        if key' = key then some { count := 0, resetAt := now + rule.windowMs } else s.entry key' := by
  have hlt (k : String) (j : ℕ) (hk : s.backend.get k = some j) : j ≠ s.allocated :=
    Nat.ne_of_lt (h.lt k j hk)
  refine ⟨⟨fun k j hk => ?_, fun k k' j hk hk' => ?_⟩, ?_, fun key' => ?_⟩
  · simp only [SequentialLimiter.create, get_set] at hk ⊢
    split at hk
    · cases hk
      omega
    · exact Nat.lt_succ_of_lt (h.lt k j hk)
  · simp only [SequentialLimiter.create, get_set] at hk hk'
    split at hk <;> split at hk'
    · next hkey hkey' => rw [hkey, hkey']
    · cases hk
      exact absurd rfl (hlt k' _ hk')
    · cases hk'
      exact absurd rfl (hlt k _ hk)
    · exact h.inj k k' j hk hk'
  · simp only [SequentialLimiter.create, get_set, if_pos]
  · simp only [SequentialLimiter.create, SequentialLimiter.entry, get_set, storeKey_inj]
    split
    · rw [Option.map_some, Function.update_self]
    · cases hget : s.backend.get (storeKey key') with
      | none => rfl
      | some j => rw [Option.map_some, Option.map_some, Function.update_of_ne (hlt _ j hget)]

/-- `getOrCreate` finds the window of the key that is not over, or stores a new one. -/
theorem Wf.getOrCreate (h : s.Wf) (key : String) (rule : RateLimitRule) (now : ℤ) :
    (s.getOrCreate key rule now).2.Wf ∧
      (s.getOrCreate key rule now).2.backend.get (storeKey key) =
        some (s.getOrCreate key rule now).1 ∧
      ∀ key', (s.getOrCreate key rule now).2.entry key' =
        if key' = key then some (WindowEntry.current (s.entry key) rule now) else s.entry key' := by
  cases hget : s.backend.get (storeKey key) with
  | none =>
    have hentry : s.entry key = none := by rw [SequentialLimiter.entry, hget]; rfl
    simp only [SequentialLimiter.getOrCreate, hget, hentry, WindowEntry.current]
    exact h.create key rule now
  | some i =>
    have hentry : s.entry key = some (s.objects i) := by rw [SequentialLimiter.entry, hget]; rfl
    simp only [SequentialLimiter.getOrCreate, hget, hentry, WindowEntry.current]
    split
    · exact h.create key rule now
    · refine ⟨h, hget, fun key' => ?_⟩
      split
      · next hkey => rw [hkey, hentry]
      · rfl

/-- The object that `getOrCreate` returns. -/
theorem Wf.objects_getOrCreate (h : s.Wf) (key : String) (rule : RateLimitRule) (now : ℤ) :
    (s.getOrCreate key rule now).2.objects (s.getOrCreate key rule now).1 =
      WindowEntry.current (s.entry key) rule now := by
  obtain ⟨-, hget, hentry⟩ := h.getOrCreate key rule now
  have hown := hentry key
  rw [if_pos rfl, SequentialLimiter.entry, hget, Option.map_some] at hown
  exact Option.some.inj hown

end SequentialLimiter

/-- What a call returns and leaves under its key, where `entry` is stored. -/
def WindowEntry.answer (entry : Option WindowEntry) :
    LimiterCall → Option RateLimitResult × Option WindowEntry
  | .check _ rule now =>
    let entry := current entry rule now
    (some { allowed := decide (entry.count < rule.maxRequests)
            remaining := rule.maxRequests - entry.count
            resetAt := entry.resetAt
            retryAfter := none }, some entry)
  | .consume _ rule cost now later =>
    let old := current entry rule now
    let entry := { old with count := old.count + cost }
    let allowed := decide (entry.count ≤ rule.maxRequests)
    (some { allowed
            remaining := rule.maxRequests - entry.count
            resetAt := entry.resetAt
            retryAfter := if allowed then none else some (entry.resetAt - later) }, some entry)
  | .reset _ _ => (none, none)

namespace SequentialLimiter

variable {s : SequentialLimiter}

/-- A check answers from that window. -/
theorem Wf.check (h : s.Wf) (key : String) (rule : RateLimitRule) (now : ℤ) :
    (s.check key rule now).2.Wf ∧
      some (s.check key rule now).1 = (WindowEntry.answer (s.entry key) (.check key rule now)).1 ∧
      ∀ key', (s.check key rule now).2.entry key' =
        if key' = key then some (WindowEntry.current (s.entry key) rule now) else s.entry key' := by
  obtain ⟨hwf, -, hentry⟩ := h.getOrCreate key rule now
  refine ⟨hwf, ?_, hentry⟩
  simp only [SequentialLimiter.check, h.objects_getOrCreate key rule now, WindowEntry.answer]

/-- A `consume` counts in it. -/
theorem Wf.consume (h : s.Wf) (key : String) (rule : RateLimitRule) (cost : ℕ) (now later : ℤ) :
    (s.consume key rule cost now later).2.Wf ∧
      some (s.consume key rule cost now later).1 =
        (WindowEntry.answer (s.entry key) (.consume key rule cost now later)).1 ∧
      ∀ key', (s.consume key rule cost now later).2.entry key' =
        if key' = key then (WindowEntry.answer (s.entry key) (.consume key rule cost now later)).2
        else s.entry key' := by
  obtain ⟨hwf, hget, hentry⟩ := h.getOrCreate key rule now
  have hobject := h.objects_getOrCreate key rule now
  obtain ⟨hwf', hentry'⟩ := hwf.setObject hget
    { WindowEntry.current (s.entry key) rule now with
      count := (WindowEntry.current (s.entry key) rule now).count + cost }
  simp only [SequentialLimiter.consume, hobject]
  refine ⟨hwf', rfl, fun key' => ?_⟩
  rw [hentry']
  by_cases hkey : key' = key
  · rw [if_pos hkey, if_pos hkey]
    rfl
  · rw [if_neg hkey, if_neg hkey, hentry, if_neg hkey]

/-- A reset deletes it. -/
theorem Wf.reset (h : s.Wf) (key : String) :
    (s.reset key).Wf ∧ ∀ key', (s.reset key).entry key' = if key' = key then none else s.entry key' := by
  have hdelete (k : String) : (s.reset key).backend.get k =
      if k = storeKey key then none else s.backend.get k := by
    simp only [SequentialLimiter.reset, MemoryBackend.get, MemoryBackend.delete]
    exact JsMap.get_delete ..
  refine ⟨⟨fun k i hk => ?_, fun k k' i hk hk' => ?_⟩, fun key' => ?_⟩
  · rw [hdelete] at hk
    split at hk
    · cases hk
    · exact h.lt k i hk
  · rw [hdelete] at hk hk'
    split at hk
    · cases hk
    split at hk'
    · cases hk'
    exact h.inj k k' i hk hk'
  · simp only [SequentialLimiter.entry, hdelete, storeKey_inj]
    split <;> rfl

/-- A call changes the entry under its key alone, and its answer depends on this entry alone. -/
theorem Wf.step (h : s.Wf) (c : LimiterCall) :
    (s.step c).2.Wf ∧ (s.step c).1 = (WindowEntry.answer (s.entry c.key) c).1 ∧
      ∀ key, (s.step c).2.entry key =
        if key = c.key then (WindowEntry.answer (s.entry c.key) c).2 else s.entry key := by
  cases c with
  | check key rule now => exact h.check key rule now
  | consume key rule cost now later => exact h.consume key rule cost now later
  | reset key now =>
    obtain ⟨hwf, hentry⟩ := h.reset key
    exact ⟨hwf, rfl, hentry⟩

end SequentialLimiter

end Datasole
