import Mathlib.Algebra.Order.Ring.Int
import Datasole.Common.Windows
import Datasole.Server.RateLimit.FixedWindow

/-!
# The limit in a sliding window

Calls of `consume` with cost 1 on one key under one rule. The limiter allows the first `maxRequests`
calls of each fixed window (`allowedTimes_eq`), so an interval that straddles the start of a window
may have up to twice as many. `sliding_limit_iff` says for which times that does not happen.
-/

namespace Datasole

/-- The times of the calls that are allowed. -/
def allowedTimes (calls : List LimiterCall) (answers : List (Option RateLimitResult)) : List ℤ :=
  ((calls.zip answers).filter fun x => x.2.any (·.allowed)).map (·.1.now)

/-- `consume(key, rule)` time after time. For each call the clock is read twice. -/
def consumeAll (key : String) (rule : RateLimitRule) (clock : List (ℤ × ℤ)) : List LimiterCall :=
  clock.map fun x => .consume key rule 1 x.1 x.2

variable {key : String} {rule : RateLimitRule}

/-- What a window allows of the calls that come. -/
def FixedWindow.allowedFrom (key : String) (rule : RateLimitRule) (w : Option FixedWindow)
    (clock : List (ℤ × ℤ)) : List ℤ :=
  allowedTimes (consumeAll key rule clock)
    (Transducer.outputs FixedWindow.answer w (consumeAll key rule clock))

namespace FixedWindow

/-- The first call is counted in its window, and the others from there on. -/
theorem allowedFrom_cons (w : Option FixedWindow) (x : ℤ × ℤ) (clock : List (ℤ × ℤ)) :
    allowedFrom key rule w (x :: clock) =
      (if (ofCall w rule x.1).consumed + 1 ≤ rule.maxRequests then [x.1] else []) ++
        allowedFrom key rule
          (some { ofCall w rule x.1 with costs := (ofCall w rule x.1).costs ++ [1] }) clock := by
  simp only [allowedFrom, consumeAll, List.map_cons, Transducer.outputs, allowedTimes,
    List.zip_cons_cons,
    answer, List.filter_cons, Option.any_some, consumed_append, decide_eq_true_eq]
  split
  · rfl
  · rfl

theorem ofCall_running {w : FixedWindow} {now : ℤ} (h : now < w.ends) :
    ofCall (some w) rule now = w := by
  simp [ofCall, Option.filter, h]

/-- After the end of the window a call starts its own. -/
theorem ofCall_over {w : Option FixedWindow} {now : ℤ} (h : ∀ v ∈ w, v.ends ≤ now) :
    ofCall w rule now = { ends := now + rule.windowMs, costs := [] } := by
  cases w with
  | none => rfl
  | some w => simp [ofCall, Option.filter, not_lt.mpr (h w rfl)]

/-- While a window runs, it allows what is left of it. -/
theorem allowedFrom_append (key : String) (rule : RateLimitRule) (w : FixedWindow)
    (xs ys : List (ℤ × ℤ)) (h : ∀ x ∈ xs, x.1 < w.ends) :
    ∃ v : FixedWindow, v.ends = w.ends ∧
      allowedFrom key rule (some w) (xs ++ ys) =
        (xs.map Prod.fst).take (rule.maxRequests - w.consumed) ++ allowedFrom key rule (some v) ys := by
  induction xs generalizing w with
  | nil => exact ⟨w, rfl, by simp⟩
  | cons x xs ih =>
    have hrunning : ofCall (some w) rule x.1 = w := ofCall_running (h x List.mem_cons_self)
    obtain ⟨v, hends, hrest⟩ := ih { w with costs := w.costs ++ [1] }
      fun y hy => h y (List.mem_cons_of_mem _ hy)
    refine ⟨v, hends, ?_⟩
    rw [List.cons_append, allowedFrom_cons, hrunning, hrest, consumed_append, List.map_cons,
      ← List.append_assoc]
    split
    · next hle =>
      rw [show rule.maxRequests - w.consumed = rule.maxRequests - (w.consumed + 1) + 1 by omega]
      rfl
    · next hgt =>
      rw [show rule.maxRequests - w.consumed = 0 by omega,
        show rule.maxRequests - (w.consumed + 1) = 0 by omega]
      rfl

/-- Behind a window that is over, the first calls of each window that follows are allowed. -/
theorem allowedFrom_over {w : Option FixedWindow} {clock : List (ℤ × ℤ)}
    (h : ∀ v ∈ w, ∀ x ∈ clock.head?, v.ends ≤ x.1) :
    allowedFrom key rule w clock =
      (Windows.split rule.windowMs (clock.map Prod.fst)).flatMap (·.take rule.maxRequests) := by
  induction hn : clock.length using Nat.strong_induction_on generalizing w clock with
  | _ n ih =>
  cases clock with
  | nil =>
    rw [List.map_nil, Windows.split]
    rfl
  | cons x xs =>
    have hover : ofCall w rule x.1 = { ends := x.1 + rule.windowMs, costs := [] } :=
      ofCall_over fun v hv => h v hv x rfl
    -- the calls of the window that starts, and those behind it
    set p : ℤ × ℤ → Bool := fun y => decide (y.1 < x.1 + rule.windowMs) with hp
    have hwithin : ∀ y ∈ xs.takeWhile p, y.1 < x.1 + rule.windowMs := by
      intro y hy
      have hpy := List.mem_takeWhile_imp hy
      exact of_decide_eq_true hpy
    obtain ⟨v, hends, hallowed⟩ := allowedFrom_append key rule
      { ends := x.1 + rule.windowMs, costs := [1] } (xs.takeWhile p) (xs.dropWhile p) hwithin
    have hlt : (xs.dropWhile p).length < n := by
      rw [← hn]
      exact Nat.lt_succ_of_le (List.dropWhile_sublist p).length_le
    have hbehind : ∀ u ∈ some v, ∀ y ∈ (xs.dropWhile p).head?, u.ends ≤ y.1 := by
      intro u hu y hy
      have hnot := List.head?_dropWhile_not p xs
      rw [hy] at hnot
      obtain rfl := Option.some.inj hu
      rw [hends]
      exact not_lt.mp (of_decide_eq_false hnot)
    have hrest := ih _ hlt hbehind rfl
    rw [List.takeWhile_append_dropWhile, hrest] at hallowed
    have htimes : Windows.split rule.windowMs ((x :: xs).map Prod.fst) =
        (x.1 :: (xs.takeWhile p).map Prod.fst) ::
          Windows.split rule.windowMs ((xs.dropWhile p).map Prod.fst) := by
      rw [List.map_cons, Windows.split, List.takeWhile_map, List.dropWhile_map]
      rfl
    have htake : (if 0 + 1 ≤ rule.maxRequests then [x.1] else []) ++
        ((xs.takeWhile p).map Prod.fst).take (rule.maxRequests - 1) =
          (x.1 :: (xs.takeWhile p).map Prod.fst).take rule.maxRequests := by
      cases rule.maxRequests <;> simp
    rw [allowedFrom_cons, hover, htimes, List.flatMap_cons, ← htake, List.append_assoc]
    exact congrArg _ hallowed

end FixedWindow

/-- The limiter allows the first `maxRequests` calls of each window. -/
theorem allowedTimes_eq (key : String) (rule : RateLimitRule) (clock : List (ℤ × ℤ)) :
    allowedTimes (consumeAll key rule clock)
        (Transducer.outputs SequentialLimiter.step .new (consumeAll key rule clock)) =
      (Windows.split rule.windowMs (clock.map Prod.fst)).flatMap (·.take rule.maxRequests) := by
  have hkey : ∀ c ∈ consumeAll key rule clock, c.key = key := by
    intro c hc
    obtain ⟨x, -, rfl⟩ := List.mem_map.mp hc
    rfl
  rw [SequentialLimiter.outputs_of_key hkey]
  exact FixedWindow.allowedFrom_over fun v hv => nomatch hv

/-- At most `maxRequests` calls are allowed in every interval of `windowMs`, wherever it starts,
exactly if each two calls that lie on both sides of the start of a window, are among the first
`maxRequests` of their windows and have at least `maxRequests - 1` others of these between them are
at least `windowMs` apart. -/
theorem sliding_limit_iff (key : String) (rule : RateLimitRule) (clock : List (ℤ × ℤ))
    (hsorted : (clock.map Prod.fst).Pairwise (· ≤ ·)) :
    (∀ t, (allowedTimes (consumeAll key rule clock)
        (Transducer.outputs SequentialLimiter.step .new (consumeAll key rule clock))).countP
          (fun now => t ≤ now ∧ now < t + rule.windowMs) ≤ rule.maxRequests) ↔
      (Windows.split rule.windowMs (clock.map Prod.fst)).IsChain
        (Windows.Spaced rule.windowMs rule.maxRequests) := by
  rw [allowedTimes_eq]
  exact (Windows.separated_split hsorted).countFrom_le_iff

/-- Two calls in each window of a second, half a second apart: all are allowed, at most two of them
in a second. -/
theorem even_calls_within_sliding_limit :
    let calls := consumeAll "client" ⟨1000, 2⟩ [(0, 0), (500, 500), (1000, 1000), (1500, 1500)]
    let allowed := allowedTimes calls (Transducer.outputs SequentialLimiter.step .new calls)
    allowed = [0, 500, 1000, 1500] ∧
      ∀ t, allowed.countP (fun now => t ≤ now ∧ now < t + 1000) ≤ 2 := by
  refine ⟨by decide +kernel, (sliding_limit_iff "client" ⟨1000, 2⟩
    [(0, 0), (500, 500), (1000, 1000), (1500, 1500)] (by decide)).mpr ?_⟩
  have hsplit : Windows.split (1000 : ℤ) [0, 500, 1000, 1500] = [[0, 500], [1000, 1500]] := by
    simp [Windows.split]
  change (Windows.split (1000 : ℤ) [0, 500, 1000, 1500]).IsChain _
  rw [hsplit, List.isChain_pair]
  change Windows.Spaced 1000 2 [0, 500] [1000, 1500]
  intro i j x y hx hy hmany
  rcases i with _ | _ | i
  · rcases j with _ | _ | j
    · cases hx; cases hy; decide
    · cases hx; cases hy; decide
    · cases hy
  · rcases j with _ | _ | j
    · exact absurd hmany (by decide)
    · cases hx; cases hy; decide
    · cases hy
  · cases hx

/-- Three calls within eleven milliseconds, one before the start of a window and two after it. -/
theorem burst_over_sliding_limit : ¬ ∀ t, (allowedTimes
    (consumeAll "client" ⟨1000, 2⟩ [(0, 0), (990, 990), (1000, 1000), (1001, 1001)])
    (Transducer.outputs SequentialLimiter.step .new
      (consumeAll "client" ⟨1000, 2⟩ [(0, 0), (990, 990), (1000, 1000), (1001, 1001)]))).countP
        (fun now => t ≤ now ∧ now < t + 1000) ≤ 2 := by
  intro h
  exact absurd (h 990) (by decide +kernel)

end Datasole
