import Datasole.Server.RateLimit.SequentialLimiter

/-!
# The limiter is a fixed window for each key

What a limiter with fixed windows is for: a key has a window from the first call after none, or
after the last one is over, and what is consumed in a window is compared with the limit of the call
that asks. `outputs_eq_fixedWindow` says that the limiter answers every sequential run in this way.
-/

namespace Datasole

/-- A window that has been started. -/
structure FixedWindow where
  ends : ℤ
  /-- The costs that were consumed in it, call by call. -/
  costs : List ℕ

namespace FixedWindow

def consumed (w : FixedWindow) : ℕ := w.costs.sum

/-- The window of a call: the one that has not ended, or a new one. -/
def ofCall (w : Option FixedWindow) (rule : RateLimitRule) (now : ℤ) : FixedWindow :=
  match w.filter (now < ·.ends) with
  | some w => w
  | none => { ends := now + rule.windowMs, costs := [] }

/-- The answer to a call on a key with this window, and the window afterwards. -/
def answer (w : Option FixedWindow) : LimiterCall → Option RateLimitResult × Option FixedWindow
  | .check _ rule now =>
    let w := ofCall w rule now
    (some { allowed := decide (w.consumed < rule.maxRequests)
            remaining := rule.maxRequests - w.consumed
            resetAt := w.ends
            retryAfter := none }, some w)
  | .consume _ rule cost now later =>
    let old := ofCall w rule now
    let w := { old with costs := old.costs ++ [cost] }
    let allowed := decide (w.consumed ≤ rule.maxRequests)
    (some { allowed
            remaining := rule.maxRequests - w.consumed
            resetAt := w.ends
            retryAfter := if allowed then none else some (w.ends - later) }, some w)
  | .reset _ _ => (none, none)

/-- The stored entry for a window. -/
def toEntry (w : FixedWindow) : WindowEntry := { count := w.consumed, resetAt := w.ends }

variable {w : Option FixedWindow} {rule : RateLimitRule} {now : ℤ}

/-- The entry of the window that a call counts in. -/
theorem current_toEntry (w : Option FixedWindow) (rule : RateLimitRule) (now : ℤ) :
    WindowEntry.current (w.map toEntry) rule now = (ofCall w rule now).toEntry := by
  cases w with
  | none => rfl
  | some w =>
    by_cases hover : w.ends ≤ now
    · simp [WindowEntry.current, ofCall, toEntry, hover, Option.filter, not_lt.mpr hover, consumed]
    · simp [WindowEntry.current, ofCall, toEntry, hover, Option.filter, not_le.mp hover]

theorem consumed_append (w : FixedWindow) (cost : ℕ) :
    consumed { w with costs := w.costs ++ [cost] } = w.consumed + cost := by
  simp [consumed]

/-- On the entry for a window the limiter answers as the window does. -/
theorem answer_toEntry (w : Option FixedWindow) (c : LimiterCall) :
    WindowEntry.answer (w.map toEntry) c = ((answer w c).1, (answer w c).2.map toEntry) := by
  cases c with
  | check key rule now =>
    simp only [WindowEntry.answer, answer, current_toEntry, toEntry, Option.map_some]
  | consume key rule cost now later =>
    simp only [WindowEntry.answer, answer, current_toEntry, toEntry, Option.map_some,
      consumed_append]
  | reset key now => rfl

end FixedWindow

/-- The limiter stores the entries for these windows. -/
structure SequentialLimiter.Simulates (s : SequentialLimiter)
    (w : String → Option FixedWindow) : Prop where
  wf : s.Wf
  entry : ∀ key, s.entry key = (w key).map FixedWindow.toEntry

theorem SequentialLimiter.simulates_new : new.Simulates fun _ => none where
  wf := wf_new
  entry _ := rfl

/-- Every call of the limiter is answered as the windows answer it, and leaves entries for them. -/
theorem SequentialLimiter.Simulates.step {s : SequentialLimiter} {w : String → Option FixedWindow}
    (h : s.Simulates w) (c : LimiterCall) :
    (s.step c).1 = (Transducer.pi LimiterCall.key FixedWindow.answer w c).1 ∧
      (s.step c).2.Simulates (Transducer.pi LimiterCall.key FixedWindow.answer w c).2 := by
  obtain ⟨hwf, hanswer, hentry⟩ := h.wf.step c
  rw [h.entry, FixedWindow.answer_toEntry] at hanswer hentry
  refine ⟨hanswer, hwf, fun key => ?_⟩
  rw [hentry]
  by_cases hkey : key = c.key
  · rw [if_pos hkey, hkey]
    simp only [Transducer.pi, Function.update_self]
  · rw [if_neg hkey, h.entry]
    simp only [Transducer.pi, Function.update_of_ne hkey]

theorem SequentialLimiter.outputs_eq (calls : List LimiterCall) :
    Transducer.outputs step new calls =
      Transducer.outputs (Transducer.pi LimiterCall.key FixedWindow.answer) (fun _ => none) calls :=
  Transducer.outputs_eq (fun c _ _ h => h.step c) simulates_new calls

/-- The calls on a key are answered by its window. -/
theorem SequentialLimiter.outputsAt_eq (calls : List LimiterCall) (key : String) :
    Transducer.outputsAt step (fun c => c.key = key) new calls =
      Transducer.outputs FixedWindow.answer none (calls.filter fun c => c.key = key) := by
  rw [Transducer.outputsAt, outputs_eq]
  exact Transducer.outputs_pi_filter LimiterCall.key (fun _ => none) key calls

/-- With calls on one key alone the limiter is its window. -/
theorem SequentialLimiter.outputs_of_key {calls : List LimiterCall} {key : String}
    (h : ∀ c ∈ calls, c.key = key) :
    Transducer.outputs step new calls = Transducer.outputs FixedWindow.answer none calls := by
  have hkeep : ∀ c ∈ calls, decide (c.key = key) = true := fun c hc => decide_eq_true (h c hc)
  rw [← Transducer.outputsAt_of_forall hkeep, outputsAt_eq, List.filter_eq_self.mpr hkeep]

/-- In every sequential run, with any keys, rules, costs and times, each call is answered as by a
fixed window for its key, and the calls on a key are answered as if there were no others. -/
theorem outputs_eq_fixedWindow (calls : List LimiterCall) :
    Transducer.outputs SequentialLimiter.step .new calls =
        Transducer.outputs (Transducer.pi LimiterCall.key FixedWindow.answer) (fun _ => none) calls ∧
      ∀ key, Transducer.outputsAt SequentialLimiter.step (fun c => c.key = key) .new calls =
        Transducer.outputs SequentialLimiter.step .new (calls.filter fun c => c.key = key) := by
  refine ⟨SequentialLimiter.outputs_eq calls, fun key => ?_⟩
  rw [SequentialLimiter.outputsAt_eq, SequentialLimiter.outputs_of_key]
  intro c hc
  exact of_decide_eq_true (List.mem_filter.mp hc).2

end Datasole
