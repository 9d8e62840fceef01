import Datasole.Server.RateLimit.SequentialLimiter

/-!
# Runs with and without checks

`check` consumes nothing, but it goes through `getOrCreate`: where no window runs it starts one,
which ends earlier than the one that a later `consume` would have started. `unaffected_iff` says
when a run of `consume` and `reset` can tell that checks were put in between: as soon as a `consume`
uses a window that a check has started and that ends at another time than its own would.
-/

namespace Datasole

def LimiterCall.isCheck : LimiterCall → Bool
  | .check .. => true
  | _ => false

/-- The call costs something. -/
def LimiterCall.Costs : LimiterCall → Prop
  | .consume _ _ cost _ _ => 0 < cost
  | _ => True

instance : ∀ c : LimiterCall, Decidable c.Costs
  | .consume .. => inferInstanceAs (Decidable (_ < _))
  | .check .. | .reset .. => .isTrue trivial

/-- What is looked at of an answer. -/
def RateLimitResult.quota (result : RateLimitResult) : Bool × ℕ :=
  (result.allowed, result.remaining)

namespace SequentialLimiter

/-- A `consume` that finds a window in which nothing was consumed yet keeps to the end that a window
of its own would have. -/
def KeepsWindow (s : SequentialLimiter) : LimiterCall → Prop
  | .consume key rule _ now _ => ∀ entry ∈ s.entry key, entry.count = 0 → now < entry.resetAt →
      entry.resetAt = now + rule.windowMs
  | _ => True

instance (s : SequentialLimiter) : ∀ c, Decidable (s.KeepsWindow c)
  | .consume .. => inferInstanceAs (Decidable (∀ entry ∈ _, _ → _ → _))
  | .check .. | .reset .. => .isTrue trivial

/-- The answers to the calls that are no checks. -/
def quotas (s : SequentialLimiter) (calls : List LimiterCall) : List (Option (Bool × ℕ)) :=
  (Transducer.outputsAt step (fun c => !c.isCheck) s calls).map fun answer =>
    answer.map RateLimitResult.quota

/-- These answers are the same as without the checks. -/
def Unaffected (calls : List LimiterCall) : Prop :=
  new.quotas calls = new.quotas (calls.filter fun c => !c.isCheck)

/-- The states of the two runs at a time: the entries are the same, or one run has a window in which
nothing was consumed where the other has none, or one that is over. -/
structure Alike (now : ℤ) (s t : SequentialLimiter) : Prop where
  wf : s.Wf
  wf' : t.Wf
  entry : ∀ key, s.entry key = t.entry key ∨
    (∃ ends, s.entry key = some { count := 0, resetAt := ends }) ∧
      ∀ entry ∈ t.entry key, entry.resetAt ≤ now

variable {s t : SequentialLimiter} {now now' later : ℤ} {key : String} {rule : RateLimitRule} {cost : ℕ}

theorem alike_new (now : ℤ) : Alike now new new := ⟨wf_new, wf_new, fun _ => .inl rfl⟩

theorem Alike.mono (h : Alike now s t) (hle : now ≤ now') : Alike now' s t :=
  ⟨h.wf, h.wf', fun key => (h.entry key).imp_right fun hover =>
    ⟨hover.1, fun entry hentry => (hover.2 entry hentry).trans hle⟩⟩

/-- A window that is over counts as a new one. -/
theorem current_over {entry : Option WindowEntry} (h : ∀ e ∈ entry, e.resetAt ≤ now) :
    WindowEntry.current entry rule now = { count := 0, resetAt := now + rule.windowMs } := by
  cases entry with
  | none => rfl
  | some e => rw [WindowEntry.current, if_pos (h e rfl)]

/-- Nothing has been consumed in either of the two windows. -/
theorem current_unused (ends : ℤ) (rule : RateLimitRule) (now : ℤ) :
    ∃ ends', WindowEntry.current (some { count := 0, resetAt := ends }) rule now =
      { count := 0, resetAt := ends' } := by
  rw [WindowEntry.current]
  split
  · exact ⟨_, rfl⟩
  · exact ⟨_, rfl⟩

/-- A check adds at most a window in which nothing was consumed. -/
theorem Alike.check (h : Alike now s t) (key : String) (rule : RateLimitRule) :
    Alike now (s.check key rule now).2 t := by
  obtain ⟨hwf, -, hentry⟩ := h.wf.check key rule now
  refine ⟨hwf, h.wf', fun key' => ?_⟩
  rw [hentry]
  split
  · next hkey =>
    subst hkey
    rcases h.entry key' with hsame | ⟨⟨ends, hs⟩, hover⟩
    · by_cases hover : ∀ entry ∈ t.entry key', entry.resetAt ≤ now
      · rw [hsame, current_over hover]
        exact .inr ⟨⟨_, rfl⟩, hover⟩
      · obtain ⟨entry, hentry', hrun⟩ : ∃ entry ∈ t.entry key', ¬ entry.resetAt ≤ now := by
          simpa using hover
        rw [hsame, hentry', WindowEntry.current, if_neg hrun]
        exact .inl rfl
    · obtain ⟨ends', hcurrent⟩ := current_unused ends rule now
      rw [hs, hcurrent]
      exact .inr ⟨⟨ends', rfl⟩, hover⟩
  · exact h.entry key'

/-- A reset takes the windows of both. -/
theorem Alike.reset (h : Alike now s t) (key : String) : Alike now (s.reset key) (t.reset key) := by
  obtain ⟨hwf, hs⟩ := h.wf.reset key
  obtain ⟨hwf', ht⟩ := h.wf'.reset key
  refine ⟨hwf, hwf', fun key' => ?_⟩
  rw [hs, ht]
  split
  · exact .inl rfl
  · exact h.entry key'

/-- `consume` answers the same. -/
theorem Alike.quota_consume (h : Alike now s t) :
    (some (s.consume key rule cost now later).1).map RateLimitResult.quota =
      (some (t.consume key rule cost now later).1).map RateLimitResult.quota := by
  obtain ⟨-, hs, -⟩ := h.wf.consume key rule cost now later
  obtain ⟨-, ht, -⟩ := h.wf'.consume key rule cost now later
  rw [hs, ht]
  rcases h.entry key with hsame | ⟨⟨ends, hunused⟩, hover⟩
  · rw [hsame]
  · obtain ⟨ends', hcurrent⟩ := current_unused ends rule now
    simp only [WindowEntry.answer, hunused, hcurrent, current_over hover, Option.map_some,
      RateLimitResult.quota]

/-- A `consume` leaves both runs with the same window. -/
theorem Alike.consume (h : Alike now s t)
    (hkeep : s.KeepsWindow (.consume key rule cost now later)) :
    Alike now (s.consume key rule cost now later).2 (t.consume key rule cost now later).2 := by
  obtain ⟨hwf, -, hs⟩ := h.wf.consume key rule cost now later
  obtain ⟨hwf', -, ht⟩ := h.wf'.consume key rule cost now later
  refine ⟨hwf, hwf', fun key' => ?_⟩
  rw [hs, ht]
  split
  · left
    rcases h.entry key with hsame | ⟨⟨ends, hunused⟩, hover⟩
    · rw [hsame]
    · have hcurrent : WindowEntry.current (some { count := 0, resetAt := ends }) rule now =
          { count := 0, resetAt := now + rule.windowMs } := by
        rw [WindowEntry.current]
        split
        · rfl
        · next hrun =>
          have hends := hkeep _ hunused rfl (not_le.mp hrun)
          exact congrArg (WindowEntry.mk 0) hends
      simp only [WindowEntry.answer, hunused, hcurrent, current_over hover]
  · exact h.entry key'

/-- A call of both runs is answered the same, whatever it does to their windows. -/
theorem Alike.answer {c : LimiterCall} (h : Alike c.now s t) (hcheck : c.isCheck = false) :
    (s.step c).1.map RateLimitResult.quota = (t.step c).1.map RateLimitResult.quota := by
  cases c with
  | check => cases hcheck
  | reset => rfl
  | consume key rule cost now later => exact h.quota_consume

/-- A step of both runs, or of the one with checks alone. -/
theorem Alike.step {c : LimiterCall} (h : Alike c.now s t) (hkeep : s.KeepsWindow c) :
    Alike c.now (s.step c).2 (if c.isCheck then t else (t.step c).2) := by
  cases c with
  | check key rule now => exact h.check key rule
  | reset key now => exact h.reset key
  | consume key rule cost now later => exact h.consume hkeep

/-- The answers of a run, but for those of the checks. -/
theorem quotas_cons (s : SequentialLimiter) (c : LimiterCall) (calls : List LimiterCall) :
    s.quotas (c :: calls) =
      if c.isCheck then (s.step c).2.quotas calls
      else (s.step c).1.map RateLimitResult.quota :: (s.step c).2.quotas calls := by
  rw [quotas, Transducer.outputsAt_cons]
  cases c.isCheck <;> rfl

/-- The answers of two runs, one after the other. -/
theorem quotas_append (s : SequentialLimiter) (calls calls' : List LimiterCall) :
    s.quotas (calls ++ calls') =
      s.quotas calls ++ (Transducer.final SequentialLimiter.step s calls).quotas calls' := by
  rw [quotas, Transducer.outputsAt_append, List.map_append]
  rfl

/-- The state of the run without the checks. -/
def withoutChecks (t : SequentialLimiter) (calls : List LimiterCall) : SequentialLimiter :=
  Transducer.final SequentialLimiter.step t (calls.filter fun c => !c.isCheck)

/-- The run without the checks, one call further. -/
theorem withoutChecks_cons (t : SequentialLimiter) (c : LimiterCall) (calls : List LimiterCall) :
    t.withoutChecks (c :: calls) =
      (if c.isCheck then t else (t.step c).2).withoutChecks calls := by
  cases hcheck : c.isCheck <;> simp [withoutChecks, hcheck, Transducer.final]

/-- While the condition is met the two runs stay alike and their answers are the same. -/
theorem Alike.run {calls : List LimiterCall} (h : Alike now s t)
    (hsorted : calls.Pairwise fun c c' => c.now ≤ c'.now) (hle : ∀ c ∈ calls, now ≤ c.now)
    (hkeep : Transducer.Along SequentialLimiter.step KeepsWindow s calls) (hnow : now ≤ now')
    (hlast : ∀ c ∈ calls, c.now ≤ now') :
    Alike now' (Transducer.final SequentialLimiter.step s calls) (t.withoutChecks calls) ∧
      s.quotas calls = t.quotas (calls.filter fun c => !c.isCheck) := by
  induction calls generalizing now s t with
  | nil => exact ⟨h.mono hnow, rfl⟩
  | cons c calls ih =>
    rw [List.pairwise_cons] at hsorted
    have hc := h.mono (hle c List.mem_cons_self)
    obtain ⟨hfinal, hquotas⟩ := ih (hc.step hkeep.1) hsorted.2 hsorted.1 hkeep.2
      (hlast c List.mem_cons_self) fun c' hc' => hlast c' (List.mem_cons_of_mem _ hc')
    rw [withoutChecks_cons]
    refine ⟨hfinal, ?_⟩
    rw [quotas_cons, hquotas]
    cases hcheck : c.isCheck with
    | true => rw [if_pos rfl, if_pos rfl, List.filter_cons_of_neg (by rw [hcheck]; decide)]
    | false =>
      rw [if_neg (by decide), if_neg (by decide), List.filter_cons_of_pos (by rw [hcheck]; decide),
        quotas_cons, hcheck, if_neg (by decide), hc.answer hcheck]

/-- The same from the start on, up to a time when all calls have been made. -/
theorem run_new {calls : List LimiterCall} (hsorted : calls.Pairwise fun c c' => c.now ≤ c'.now)
    (hlast : ∀ c ∈ calls, c.now ≤ now')
    (hkeep : Transducer.Along SequentialLimiter.step KeepsWindow new calls) :
    Alike now' (Transducer.final SequentialLimiter.step new calls) (new.withoutChecks calls) ∧
      Unaffected calls := by
  cases calls with
  | nil => exact ⟨alike_new now', rfl⟩
  | cons c calls =>
    refine (alike_new c.now).run hsorted (fun c' hc' => ?_) hkeep (hlast c List.mem_cons_self) hlast
    rcases List.mem_cons.mp hc' with rfl | hc'
    · exact le_rfl
    · exact (List.pairwise_cons.mp hsorted).1 c' hc'

/-- One more call is answered the same. -/
theorem Unaffected.concat {calls : List LimiterCall} {next : LimiterCall} (h : Unaffected calls)
    (halike : Alike next.now (Transducer.final SequentialLimiter.step new calls)
      (new.withoutChecks calls)) : Unaffected (calls ++ [next]) := by
  rw [Unaffected, List.filter_append, quotas_append, quotas_append]
  refine congr (congrArg _ h) ?_
  cases hcheck : next.isCheck with
  | true =>
    rw [quotas_cons, hcheck, if_pos rfl, List.filter_cons_of_neg (by rw [hcheck]; decide)]
    rfl
  | false =>
    rw [List.filter_cons_of_pos (by rw [hcheck]; decide), quotas_cons, quotas_cons, hcheck,
      if_neg (by decide), if_neg (by decide), halike.answer hcheck]
    rfl

/-- Something was consumed in every window. -/
structure Used (s : SequentialLimiter) : Prop where
  wf : s.Wf
  pos : ∀ key, ∀ entry ∈ s.entry key, 0 < entry.count

/-- A `consume` that costs something leaves something consumed in its window. -/
theorem Used.step {c : LimiterCall} (h : s.Used) (hcheck : c.isCheck = false) (hcost : c.Costs) :
    (s.step c).2.Used := by
  obtain ⟨hwf, -, hentry⟩ := h.wf.step c
  refine ⟨hwf, fun key entry he => ?_⟩
  rw [hentry] at he
  split at he
  · cases c with
    | check => cases hcheck
    | reset => cases he
    | consume key rule cost now later =>
      obtain rfl := Option.some.inj he
      exact Nat.add_pos_right _ hcost
  · exact h.pos key entry he

/-- Without the checks every window is one in which something was consumed. -/
theorem used_withoutChecks {calls : List LimiterCall} (hcost : ∀ c ∈ calls, c.Costs) :
    (new.withoutChecks calls).Used := by
  refine Transducer.final_invariant (fun s c hc h => ?_) ⟨wf_new, fun _ _ he => nomatch he⟩
  obtain ⟨hc, hcheck⟩ := List.mem_filter.mp hc
  exact h.step (by simpa using hcheck) (hcost c hc)

/-- One more call tells whether a window is over. -/
theorem quotas_probe (hwf : s.Wf) {count : ℕ} {ends : ℤ} (hentry : s.entry key = some ⟨count, ends⟩)
    (now : ℤ) :
    s.quotas [.consume key ⟨1, count + 1⟩ 1 now now] = [some (true, if ends ≤ now then count else 0)] := by
  obtain ⟨-, hanswer, -⟩ := hwf.consume key ⟨1, count + 1⟩ 1 now now
  have hstep : (s.step (.consume key ⟨1, count + 1⟩ 1 now now)).1 =
      (WindowEntry.answer (s.entry key) (.consume key ⟨1, count + 1⟩ 1 now now)).1 := hanswer
  rw [quotas_cons, hstep, hentry]
  by_cases hover : ends ≤ now
  · simp [WindowEntry.answer, WindowEntry.current, hover, RateLimitResult.quota,
      LimiterCall.isCheck, quotas, Transducer.outputsAt]
  · simp [WindowEntry.answer, WindowEntry.current, hover, RateLimitResult.quota,
      LimiterCall.isCheck, quotas, Transducer.outputsAt]

/-- After a `consume` that uses a window which ends too early or too late, there is a call that is
answered differently. -/
theorem Alike.exists_quotas_ne (h : Alike now s t) (hused : t.Used) (hcost : 0 < cost)
    (hkeep : ¬ s.KeepsWindow (.consume key rule cost now later)) :
    ∃ next : LimiterCall, now ≤ next.now ∧ next.isCheck = false ∧
      s.quotas [.consume key rule cost now later, next] ≠
        t.quotas [.consume key rule cost now later, next] := by
  obtain ⟨⟨count, ends⟩, hentry, hzero, hrun, hends⟩ : ∃ entry ∈ s.entry key, entry.count = 0 ∧
      now < entry.resetAt ∧ entry.resetAt ≠ now + rule.windowMs := by
    simpa [KeepsWindow] using hkeep
  obtain rfl : count = 0 := hzero
  have hover : ∀ entry ∈ t.entry key, entry.resetAt ≤ now := by
    rcases h.entry key with hsame | ⟨-, hover⟩
    · rw [hsame] at hentry
      exact absurd (hused.pos key _ hentry) (Nat.lt_irrefl 0)
    · exact hover
  obtain ⟨hwf, -, hs⟩ := h.wf.consume key rule cost now later
  obtain ⟨hwf', -, ht⟩ := h.wf'.consume key rule cost now later
  have hleft : (s.consume key rule cost now later).2.entry key = some ⟨cost, ends⟩ := by
    rw [hs, if_pos rfl, hentry]
    simp [WindowEntry.answer, WindowEntry.current, not_le.mpr hrun]
  have hright :
      (t.consume key rule cost now later).2.entry key = some ⟨cost, now + rule.windowMs⟩ := by
    rw [ht, if_pos rfl]
    simp [WindowEntry.answer, current_over hover]
  -- a call at a time when one of the windows is over and the other is not
  have hapart : ∃ now', now ≤ now' ∧ (ends ≤ now' ↔ ¬ now + rule.windowMs ≤ now') := by
    rcases lt_or_gt_of_ne hends with hlt | hgt
    · exact ⟨ends, hrun.le, iff_of_true le_rfl (not_le.mpr hlt)⟩
    · exact ⟨max now (now + rule.windowMs), le_max_left _ _,
        iff_of_false (not_le.mpr (max_lt hrun hgt)) (not_not.mpr (le_max_right _ _))⟩
  obtain ⟨now', hle, hapart⟩ := hapart
  refine ⟨.consume key ⟨1, cost + 1⟩ 1 now' now', hle, rfl, fun heq => ?_⟩
  rw [quotas_cons s, quotas_cons t] at heq
  have htails := (List.cons.inj heq).2
  change (s.consume key rule cost now later).2.quotas _ = (t.consume key rule cost now later).2.quotas _
    at htails
  rw [quotas_probe hwf hleft, quotas_probe hwf' hright] at htails
  by_cases hends' : ends ≤ now'
  · simp [hends', hapart.mp hends'] at htails
    omega
  · simp [hends', not_not.mp (fun h => hends' (hapart.mpr h))] at htails
    omega

/-- What comes before a call comes in order, and no later than it. -/
theorem sorted_before {before after : List LimiterCall} {c : LimiterCall}
    (hsorted : (before ++ c :: after).Pairwise fun c c' => c.now ≤ c'.now) :
    before.Pairwise (fun c c' => c.now ≤ c'.now) ∧ ∀ c' ∈ before, c'.now ≤ c.now := by
  rw [List.pairwise_append] at hsorted
  exact ⟨hsorted.1, fun c' hc' => hsorted.2.2 c' hc' c List.mem_cons_self⟩

/-- Whatever the calls cost: where every `consume` that finds a window which only checks have used
finds it to end when a window of its own would, checks change the answer to no other call. -/
theorem unaffected_of_keepsWindow {calls : List LimiterCall}
    (hsorted : calls.Pairwise fun c c' => c.now ≤ c'.now)
    (hkeep : Transducer.Along SequentialLimiter.step KeepsWindow .new calls) : Unaffected calls := by
  rcases List.eq_nil_or_concat calls with rfl | ⟨before, c, rfl⟩
  · rfl
  · rw [List.concat_eq_append] at hkeep hsorted ⊢
    obtain ⟨hsorted', hlast⟩ := sorted_before hsorted
    obtain ⟨halike, hsame⟩ := run_new hsorted' hlast hkeep.of_append
    exact hsame.concat halike

/-- So it is for every beginning of the calls that goes on with one more call, of any kind. -/
theorem unaffected_next_of_keepsWindow {before after : List LimiterCall} {c next : LimiterCall}
    (hsorted : (before ++ c :: after).Pairwise fun c c' => c.now ≤ c'.now)
    (hkeep : Transducer.Along SequentialLimiter.step KeepsWindow .new (before ++ c :: after))
    (hle : c.now ≤ next.now) : Unaffected (before ++ [c, next]) := by
  have hsplit : before ++ c :: after = (before ++ [c]) ++ after := by rw [List.append_assoc]; rfl
  have hlast : ∀ c' ∈ before ++ [c], c'.now ≤ next.now := by
    intro c' hc'
    rcases List.mem_append.mp hc' with hc' | hc'
    · exact ((sorted_before hsorted).2 c' hc').trans hle
    · exact (List.mem_singleton.mp hc') ▸ hle
  rw [hsplit] at hkeep hsorted
  obtain ⟨halike, hsame⟩ :=
    run_new (hsorted.sublist (List.sublist_append_left _ _)) hlast hkeep.of_append
  have hunaffected := hsame.concat halike
  rwa [List.append_assoc] at hunaffected

end SequentialLimiter

open SequentialLimiter in
/-- Checks change the answer to no other call, neither in the run nor in any beginning of it that
goes on with one more call, exactly if every `consume` that finds a window which only checks have
used finds it to end when a window of its own would. That the calls cost something is needed only to
tell a difference. -/
theorem unaffected_iff (calls : List LimiterCall)
    (hsorted : calls.Pairwise fun c c' => c.now ≤ c'.now)
    (hcost : ∀ c ∈ calls, c.Costs) :
    (Unaffected calls ∧ ∀ before c after, calls = before ++ c :: after → ∀ next : LimiterCall,
        c.now ≤ next.now → Unaffected (before ++ [c, next])) ↔
      Transducer.Along SequentialLimiter.step KeepsWindow .new calls := by
  refine ⟨fun ⟨_, hall⟩ => ?_, fun hkeep => ⟨unaffected_of_keepsWindow hsorted hkeep, ?_⟩⟩
  · rcases Transducer.along_or_exists SequentialLimiter.step KeepsWindow .new calls with
      hkeep | ⟨before, c, after, rfl, hkeep, hc⟩
    · exact hkeep
    obtain ⟨hsorted', hlast⟩ := sorted_before hsorted
    obtain ⟨halike, hquotas⟩ := run_new hsorted' hlast hkeep
    have hused : (new.withoutChecks before).Used :=
      used_withoutChecks fun c' hc' => hcost c' (List.mem_append_left _ hc')
    have hcostc : c.Costs := hcost c (List.mem_append_right _ List.mem_cons_self)
    cases c with
    | check => exact absurd trivial hc
    | reset => exact absurd trivial hc
    | consume key rule cost now later =>
      -- one more call tells the two states apart
      obtain ⟨next, hle, hnext, hne⟩ := halike.exists_quotas_ne hused hcostc hc
      have hsame := hall before _ after rfl next hle
      rw [Unaffected, List.filter_append, quotas_append, quotas_append, hquotas] at hsame
      have hrest := List.append_cancel_left hsame
      rw [List.filter_cons_of_pos rfl, List.filter_cons_of_pos (by rw [hnext]; rfl)] at hrest
      exact absurd hrest hne
  · rintro before c after rfl next hle
    exact unaffected_next_of_keepsWindow hsorted hkeep hle

/-! ## A check between two windows -/

/-- Under this rule: two calls, one in the first window and one behind it. -/
def twoWindows : List LimiterCall :=
  [.consume "client" ⟨1000, 2⟩ 1 0 0, .check "client" ⟨1000, 2⟩ 1000,
    .consume "client" ⟨1000, 2⟩ 1 1000 1000, .check "client" ⟨1000, 2⟩ 1500]

open SequentialLimiter in
theorem twoWindows_unaffected : Unaffected twoWindows :=
  ((unaffected_iff twoWindows (by decide) (by decide)).mpr (by decide +kernel)).1

/-- A check after the first window is over, and three calls that follow it. -/
def checkBetweenWindows : List LimiterCall :=
  [.consume "client" ⟨1000, 2⟩ 1 0 0, .check "client" ⟨1000, 2⟩ 1000,
    .consume "client" ⟨1000, 2⟩ 1 1900 1900, .consume "client" ⟨1000, 2⟩ 1 2000 2000]

open SequentialLimiter in
/-- The check makes the window of the second call end early, so that the third starts a new one. -/
theorem checkBetweenWindows_affected : ¬ Unaffected checkBetweenWindows := by
  unfold Unaffected
  decide +kernel

end Datasole
