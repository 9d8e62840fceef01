import Datasole.Server.RateLimit.SlidingWindow

/-!
# Calls that do not overlap

`DefaultRateLimiter` takes a call of `consume` from one `await` to the next, so that calls may
overlap, and `SequentialLimiter` takes it in one step. `exec_oneByOne`: in a run of the first in
which each call has ended before the next is made, the calls return what they return in the second,
and the same entry is stored, whether the backend copies or not.
-/

namespace Datasole

namespace DefaultRateLimiter

variable {s : DefaultRateLimiter}

/-- The object that the backend holds is one that a call has made. -/
def Made (s : DefaultRateLimiter) : Prop := ∀ i, s.store = some (.ref i) → i < s.callCount

/-- A call that is made and goes on for some steps, while no other does. -/
def alone (k : ℕ) (now later : ℤ) (steps : ℕ) : List Act :=
  .consume now :: List.replicate steps (.advance k later)

/-- Calls that are made one after the other, with the number of steps that each takes. -/
def oneByOne (calls : List (ℤ × ℤ × ℕ)) : List Act :=
  (calls.mapIdx fun k (now, later, steps) => alone k now later steps).flatten

/-- What a call has returned. -/
def Phase.result : Phase → Option RateLimitResult
  | .done result => some result
  | _ => none

/-- The results of the calls, in the order in which they were made. -/
def results (s : DefaultRateLimiter) : List (Option RateLimitResult) :=
  (List.range s.callCount).map fun k => (s.calls k).phase.result

/-- There is one more call, and the others are where they were. -/
structure OneMore (s t : DefaultRateLimiter) : Prop where
  rule : t.rule = s.rule
  callCount : t.callCount = s.callCount + 1
  calls : ∀ k < s.callCount, t.calls k = s.calls k

/-- The last call is the one that was begun. -/
theorem OneMore.of_update (s : DefaultRateLimiter) (store : Option Stored)
    (objects : ℕ → WindowEntry)
    (call : Call) : OneMore s { s with
      store, objects, calls := Function.update s.calls s.callCount call, callCount := s.callCount + 1 } :=
  ⟨rfl, rfl, fun _ hk => Function.update_of_ne hk.ne ..⟩

/-- `getOrCreate` returns the object with the entry to go on with. -/
theorem exec_getOrCreate (hmade : s.Made) (now later : ℤ) : ∃ steps i t,
    Machine.exec step s (alone s.callCount now later steps) = some t ∧ OneMore s t ∧
      (t.calls s.callCount).phase = .returned i ∧ i ≤ s.callCount ∧
      t.objects i = WindowEntry.current s.stored s.rule now := by
  cases hstore : s.store with
  | none =>
    refine ⟨3, s.callCount, ?_⟩
    simp [alone, Machine.exec, step, advance, hstore, create, setObject, setCall,
      WindowEntry.current, stored, OneMore.of_update]
  | some value =>
    cases value with
    | ref i =>
      by_cases hexpired : (s.objects i).resetAt ≤ now
      · refine ⟨3, s.callCount, ?_⟩
        simp [alone, Machine.exec, step, advance, hstore, create, setObject, setCall,
          WindowEntry.current, stored, hexpired, OneMore.of_update]
      · have hi := (hmade i hstore).le
        refine ⟨2, i, ?_⟩
        simp [alone, Machine.exec, step, advance, hstore, setCall, WindowEntry.current, stored,
          hexpired, hi, OneMore.of_update]
    | copy entry =>
      by_cases hexpired : entry.resetAt ≤ now
      · refine ⟨3, s.callCount, ?_⟩
        simp [alone, Machine.exec, step, advance, hstore, create, setObject, setCall,
          WindowEntry.current, stored, hexpired, OneMore.of_update]
      · refine ⟨2, s.callCount, ?_⟩
        simp [alone, Machine.exec, step, advance, hstore, setObject, setCall, WindowEntry.current,
          stored, hexpired, OneMore.of_update]

/-- The rest of `consume`: the entry is counted and written, and the result is what it says then. -/
theorem exec_returned {k i : ℕ} (hk : k < s.callCount) (hphase : (s.calls k).phase = .returned i)
    (later : ℤ) : ∃ t,
      Machine.exec step s (List.replicate 3 (.advance k later)) = some t ∧ t.rule = s.rule ∧
        t.callCount = s.callCount ∧ (∀ j, j ≠ k → t.calls j = s.calls j) ∧
        (t.store = some (.ref i) ∨ ∃ entry, t.store = some (.copy entry)) ∧
        t.stored = some { s.objects i with count := (s.objects i).count + 1 } ∧
        (t.calls k).phase = .done
          { allowed := decide ((s.objects i).count + 1 ≤ s.rule.maxRequests)
            remaining := s.rule.maxRequests - ((s.objects i).count + 1)
            resetAt := (s.objects i).resetAt
            retryAfter := if (s.objects i).count + 1 ≤ s.rule.maxRequests then none
              else some ((s.objects i).resetAt - later) } := by
  cases hcopies : s.copies with
  | false | true =>
    simp +contextual [Machine.exec, step, advance, hk, hphase, setObject, setCall, put, hcopies,
      stored, result, Function.update_of_ne]

/-- A call by itself returns what it returns in one step, and leaves what it leaves then. -/
theorem exec_alone (hmade : s.Made) (key : String) (now later : ℤ) : ∃ steps t,
    Machine.exec step s (alone s.callCount now later steps) = some t ∧ OneMore s t ∧ t.Made ∧
      ((t.calls s.callCount).phase.result, t.stored) =
        WindowEntry.answer s.stored (.consume key s.rule 1 now later) := by
  obtain ⟨steps, i, u, hu, hmore, hphase, hi, hentry⟩ := exec_getOrCreate hmade now later
  have hlt : s.callCount < u.callCount := hmore.callCount ▸ Nat.lt_succ_self _
  obtain ⟨t, ht, hrule, hcount, hcalls, hstore, hstored, hdone⟩ := exec_returned hlt hphase later
  refine ⟨steps + 3, t, ?_, ⟨hrule.trans hmore.rule, hcount.trans hmore.callCount, fun k hk => ?_⟩,
    fun j hj => ?_, ?_⟩
  · rw [alone, ← List.replicate_append_replicate, ← List.cons_append]
    exact Machine.exec_append_eq_some.mpr ⟨u, hu, ht⟩
  · rw [hcalls k hk.ne, hmore.calls k hk]
  · rcases hstore with hstore | ⟨entry, hstore⟩
    · rw [hstore] at hj
      cases hj
      rw [hcount, hmore.callCount]
      exact Nat.lt_succ_of_le hi
    · rw [hstore] at hj
      cases hj
  · rw [hdone, hstored, hentry, hmore.rule]
    simp [Phase.result, WindowEntry.answer]

/-- The result of the last call comes last. -/
theorem results_of_oneMore {t : DefaultRateLimiter} (h : OneMore s t) :
    t.results = s.results ++ [(t.calls s.callCount).phase.result] := by
  rw [results, results, h.callCount, List.range_succ, List.map_append]
  congr 1
  refine List.map_congr_left fun k hk => ?_
  rw [h.calls k (List.mem_range.mp hk)]

/-- A run in which no call is made before the last has ended: the calls return what they return in
one step each, and the entry is the one that is stored then. -/
theorem exec_oneByOne (rule : RateLimitRule) (copies : Bool) (key : String) (clock : List (ℤ × ℤ)) :
    ∃ calls t, calls.map (fun (now, later, _) => (now, later)) = clock ∧
      Machine.exec step (init rule copies) (oneByOne calls) = some t ∧
      t.results = Transducer.outputs SequentialLimiter.step .new (consumeAll key rule clock) ∧
      t.stored = (Transducer.final SequentialLimiter.step .new (consumeAll key rule clock)).entry key := by
  suffices h : ∃ calls t, calls.map (fun (now, later, _) => (now, later)) = clock ∧
      Machine.exec step (init rule copies) (oneByOne calls) = some t ∧
      t.Made ∧ t.rule = rule ∧ t.callCount = calls.length ∧
      (Transducer.final SequentialLimiter.step .new (consumeAll key rule clock)).Wf ∧
      t.results = Transducer.outputs SequentialLimiter.step .new (consumeAll key rule clock) ∧
      t.stored = (Transducer.final SequentialLimiter.step .new (consumeAll key rule clock)).entry key by
    obtain ⟨calls, t, hclock, hrun, -, -, -, -, hend⟩ := h
    exact ⟨calls, t, hclock, hrun, hend⟩
  induction clock using List.reverseRecOn with
  | nil =>
    exact ⟨[], _, rfl, rfl, nofun, rfl, rfl, SequentialLimiter.wf_new, rfl, rfl⟩
  | append_singleton clock x ih =>
    obtain ⟨calls, s, hclock, hrun, hmade, hrule, hcount, hwf, hresults, hstored⟩ := ih
    obtain ⟨steps, t, ht, hmore, hmade', hanswer⟩ := exec_alone hmade key x.1 x.2
    obtain ⟨hwf', hout, hentry⟩ := hwf.step (.consume key rule 1 x.1 x.2)
    have hcalls : consumeAll key rule (clock ++ [x]) =
        consumeAll key rule clock ++ [.consume key rule 1 x.1 x.2] := List.map_append
    rw [hstored, hrule] at hanswer
    refine ⟨calls ++ [(x.1, x.2, steps)], t, ?_, ?_, hmade', hmore.rule.trans hrule, ?_, ?_, ?_, ?_⟩
    · rw [List.map_append, hclock]
      rfl
    · rw [oneByOne, List.mapIdx_concat, List.flatten_append, ← hcount]
      exact Machine.exec_append_eq_some.mpr ⟨s, hrun, by simpa using ht⟩
    · rw [hmore.callCount, hcount, List.length_append]
      rfl
    · rw [hcalls, Transducer.final_append]
      exact hwf'
    · rw [results_of_oneMore hmore, hresults, hcalls, Transducer.outputs_append]
      exact congrArg _ (congrArg (· :: []) ((congrArg Prod.fst hanswer).trans hout.symm))
    · rw [hcalls, Transducer.final_append]
      exact (congrArg Prod.snd hanswer).trans ((hentry key).trans (if_pos rfl)).symm

end DefaultRateLimiter

end Datasole
