import Datasole.Server.Pipeline.RateLimitInterceptor
import Datasole.Server.RateLimit.SequentialLimiter

/-!
# Limits by method

The interceptor with rules for methods and no key extractor, for the messages of one connection, one
after the other. The rule is chosen by the method, the bucket is not: all messages of the connection
are counted together, so the `n`-th message of a window is refused if the limit of its method is
below `n` (`verdicts_of_window`), whatever the other messages are.
-/

namespace Datasole

variable {V : Type*} (pako : Pako) (text : JsonText V) (config : RateLimitConfig)

/-- A message and the times when the limiter looks at the clock for it. -/
structure Received where
  raw : Bytes
  now : ℤ
  later : ℤ

namespace RateLimitConfig

/-- The interceptor on a message: whether it goes on to the router. An exception of the key
extractor goes to the caller. -/
def receive (connectionId : String) (s : SequentialLimiter) (m : Received) :
    Option Bool × SequentialLimiter :=
  match getRateLimitKey pako text connectionId m.raw config with
  | .error _ => (none, s)
  | .ok key =>
    let result := s.consume key (getRateLimitRule pako text m.raw config) 1 m.now m.later
    (some result.1.allowed, result.2)

/-- `config.rules[method]`. -/
def ruleFor (method : Json) : Option RateLimitRule := config.rules.bind (· method)

/-- The limit for a message that calls a method with a rule. No method counts as one that is
empty. -/
def limitFor (method : Json) (rule : RateLimitRule) : ℕ :=
  if method.truthy then rule.maxRequests
  else (config.defaultRule.getD defaultRateLimitRule).maxRequests

variable {pako text config}

/-- The rule for a request is the one of its method. -/
theorem getRateLimitRule_of_method {raw : Bytes} {method : Json} {rule : RateLimitRule}
    (hmethod : requestMethod pako text raw = some method) (hrule : config.ruleFor method = some rule) :
    (getRateLimitRule pako text raw config).maxRequests = config.limitFor method rule := by
  obtain ⟨rules, hrules, hrule⟩ := Option.bind_eq_some_iff.mp hrule
  by_cases htruthy : method.truthy
  · simp [getRateLimitRule, limitFor, hrules, hmethod, htruthy, Option.filter, hrule]
  · simp [getRateLimitRule, limitFor, hrules, hmethod, htruthy, Option.filter]

/-- A message is counted in the bucket of the connection. -/
theorem receive_of_current (hkey : config.keyExtractor = none) {connectionId : String}
    {s : SequentialLimiter} (hwf : s.Wf) {m : Received} {count : ℕ} {ends : ℤ}
    (hcurrent : WindowEntry.current (s.entry (connectionId ++ ":frame"))
      (getRateLimitRule pako text m.raw config) m.now = ⟨count, ends⟩) :
    (config.receive pako text connectionId s m).1 =
        some (decide (count + 1 ≤ (getRateLimitRule pako text m.raw config).maxRequests)) ∧
      (config.receive pako text connectionId s m).2.Wf ∧
      (config.receive pako text connectionId s m).2.entry (connectionId ++ ":frame") =
        some ⟨count + 1, ends⟩ := by
  obtain ⟨hwf', hanswer, hentry⟩ := hwf.consume (connectionId ++ ":frame")
    (getRateLimitRule pako text m.raw config) 1 m.now m.later
  have hown := hentry (connectionId ++ ":frame")
  simp only [WindowEntry.answer, hcurrent, if_pos] at hanswer hown
  have hallowed := congrArg RateLimitResult.allowed (Option.some.inj hanswer)
  simp only [receive, getRateLimitKey, hkey]
  exact ⟨congrArg some hallowed, hwf', hown⟩

/-- While a window runs, a message is allowed if the messages so far are within the limit of its
rule. -/
theorem verdicts_of_running (hkey : config.keyExtractor = none) {connectionId : String}
    {s : SequentialLimiter} (hwf : s.Wf) {count : ℕ} {ends : ℤ}
    (hentry : s.entry (connectionId ++ ":frame") = some ⟨count, ends⟩) {messages : List Received}
    (hrun : ∀ m ∈ messages, m.now < ends) {i : ℕ} {m : Received} (hm : messages[i]? = some m) :
    (Transducer.outputs (config.receive pako text connectionId) s messages)[i]? =
      some (some (decide (count + i + 1 ≤ (getRateLimitRule pako text m.raw config).maxRequests))) := by
  induction messages generalizing s count i with
  | nil => cases hm
  | cons m' messages ih =>
    have hcurrent : WindowEntry.current (s.entry (connectionId ++ ":frame"))
        (getRateLimitRule pako text m'.raw config) m'.now = ⟨count, ends⟩ := by
      rw [hentry, WindowEntry.current, if_neg (not_le.mpr (hrun m' List.mem_cons_self))]
    obtain ⟨hallowed, hwf', hown⟩ := receive_of_current hkey hwf hcurrent
    rw [Transducer.outputs]
    cases i with
    | zero =>
      obtain rfl := Option.some.inj hm
      exact congrArg some hallowed
    | succ i =>
      have hrest := ih hwf' hown (fun m hm => hrun m (List.mem_cons_of_mem _ hm)) hm
      rw [List.getElem?_cons_succ, hrest, show count + 1 + i = count + (i + 1) by omega]

/-- The `n`-th message of a window that the first of them starts is allowed if `n` is within the
limit. -/
theorem verdicts_of_window (hkey : config.keyExtractor = none) {connectionId : String}
    {s : SequentialLimiter} (hwf : s.Wf) {first : Received} {messages : List Received}
    (hstart : ∀ entry ∈ s.entry (connectionId ++ ":frame"), entry.resetAt ≤ first.now)
    (hrun : ∀ m ∈ first :: messages,
      m.now < first.now + (getRateLimitRule pako text first.raw config).windowMs)
    {i : ℕ} {m : Received} (hm : (first :: messages)[i]? = some m) :
    (Transducer.outputs (config.receive pako text connectionId) s (first :: messages))[i]? =
      some (some (decide (i + 1 ≤ (getRateLimitRule pako text m.raw config).maxRequests))) := by
  have hcurrent : WindowEntry.current (s.entry (connectionId ++ ":frame"))
      (getRateLimitRule pako text first.raw config) first.now =
        ⟨0, first.now + (getRateLimitRule pako text first.raw config).windowMs⟩ := by
    cases hentry : s.entry (connectionId ++ ":frame") with
    | none => rfl
    | some entry => rw [WindowEntry.current, if_pos (hstart entry hentry)]
  obtain ⟨hallowed, hwf', hown⟩ := receive_of_current hkey hwf hcurrent
  rw [Transducer.outputs]
  cases i with
  | zero =>
    obtain rfl := Option.some.inj hm
    rw [Nat.zero_add] at hallowed
    exact congrArg some hallowed
  | succ i =>
    have hrest : (Transducer.outputs (config.receive pako text connectionId)
        (config.receive pako text connectionId s first).2 messages)[i]? = _ :=
      verdicts_of_running hkey hwf' hown (fun m hm => hrun m (List.mem_cons_of_mem _ hm)) hm
    rw [List.getElem?_cons_succ, hrest, show 0 + 1 + i = i + 1 by omega]

end RateLimitConfig

/-- In one window of a connection, with rules for methods and no key extractor, a request for a
method with a rule is refused only after more requests for this method than its rule allows, exactly
if this number is exceeded whenever the messages of all kinds are more than the limit for the
method. -/
theorem method_limits_iff (pako : Pako) (text : JsonText V) (config : RateLimitConfig)
    (hkey : config.keyExtractor = none) (connectionId : String) (history : List LimiterCall)
    (first : Received) (messages : List Received)
    (hstart : ∀ entry ∈ (Transducer.final SequentialLimiter.step .new history).entry
      (connectionId ++ ":frame"), entry.resetAt ≤ first.now)
    (hrun : ∀ m ∈ first :: messages,
      m.now < first.now + (getRateLimitRule pako text first.raw config).windowMs) :
    (∀ (i : ℕ) (m : Received) (method : Json) (rule : RateLimitRule),
        (first :: messages)[i]? = some m → requestMethod pako text m.raw = some method →
        config.ruleFor method = some rule →
        (Transducer.outputs (config.receive pako text connectionId)
          (Transducer.final SequentialLimiter.step .new history) (first :: messages))[i]? =
            some (some false) →
        rule.maxRequests < ((first :: messages).take (i + 1)).countP
          fun m => requestMethod pako text m.raw = some method) ↔
      ∀ (i : ℕ) (m : Received) (method : Json) (rule : RateLimitRule),
        (first :: messages)[i]? = some m → requestMethod pako text m.raw = some method →
        config.ruleFor method = some rule → config.limitFor method rule < i + 1 →
        rule.maxRequests < ((first :: messages).take (i + 1)).countP
          fun m => requestMethod pako text m.raw = some method := by
  have hwf : (Transducer.final SequentialLimiter.step .new history).Wf :=
    Transducer.final_invariant (fun _ c _ h => (h.step c).1) SequentialLimiter.wf_new
  have hrefused {i : ℕ} {m : Received} {method : Json} {rule : RateLimitRule}
      (hm : (first :: messages)[i]? = some m) (hmethod : requestMethod pako text m.raw = some method)
      (hrule : config.ruleFor method = some rule) :
      (Transducer.outputs (config.receive pako text connectionId)
        (Transducer.final SequentialLimiter.step .new history) (first :: messages))[i]? =
          some (some false) ↔ config.limitFor method rule < i + 1 := by
    rw [RateLimitConfig.verdicts_of_window hkey hwf hstart hrun hm,
      RateLimitConfig.getRateLimitRule_of_method hmethod hrule]
    simp
  refine forall_congr' fun i => forall_congr' fun m => forall_congr' fun method =>
    forall_congr' fun rule => forall_congr' fun hm => forall_congr' fun hmethod =>
    forall_congr' fun hrule => ?_
  rw [hrefused hm hmethod hrule]

/-! ## A ping in the bucket -/

namespace MethodLimits

/-- One call of `x` a minute. -/
def callsOfX : RateLimitConfig where
  rules := some fun method => if method = .str "x" then some ⟨60000, 1⟩ else none

def call (now : ℤ) : Received := ⟨NumberHandler.frame.bytes, now, now⟩

def ping : Received := ⟨Frame.bytes ⟨.ping, 0, []⟩, 0, 0⟩

theorem requestMethod_call (now : ℤ) :
    requestMethod plainPako NumberHandler.text (call now).raw = some (.str "x") := by
  simp only [requestMethod, call, NumberHandler.decodeMessage_frame]
  decide +kernel

end MethodLimits

open MethodLimits in
/-- A second call within the minute is one too many. -/
theorem second_call_is_refused :
    (Transducer.outputs (callsOfX.receive plainPako NumberHandler.text "conn-1") .new
      [call 0, call 5])[1]? = some (some false) ∧
    ∀ (i : ℕ) (m : Received) (method : Json) (rule : RateLimitRule), [call 0, call 5][i]? = some m →
      requestMethod plainPako NumberHandler.text m.raw = some method →
      callsOfX.ruleFor method = some rule →
      (Transducer.outputs (callsOfX.receive plainPako NumberHandler.text "conn-1") .new
        [call 0, call 5])[i]? = some (some false) →
      rule.maxRequests < ([call 0, call 5].take (i + 1)).countP
        fun m => requestMethod plainPako NumberHandler.text m.raw = some method := by
  refine ⟨by decide +kernel, (method_limits_iff plainPako NumberHandler.text callsOfX rfl "conn-1" []
    (call 0) [call 5] (fun _ h => nomatch h) (by decide +kernel)).mpr ?_⟩
  intro i m method rule hm hmethod hrule hlimit
  match i with
  | 0 =>
    obtain rfl := Option.some.inj hm
    obtain rfl := Option.some.inj ((requestMethod_call 0).symm.trans hmethod)
    obtain rfl : (⟨60000, 1⟩ : RateLimitRule) = rule := Option.some.inj hrule
    exact absurd hlimit (by decide +kernel)
  | 1 =>
    obtain rfl := Option.some.inj hm
    obtain rfl := Option.some.inj ((requestMethod_call 5).symm.trans hmethod)
    obtain rfl : (⟨60000, 1⟩ : RateLimitRule) = rule := Option.some.inj hrule
    simp [requestMethod_call]
  | _ + 2 => cases hm

open MethodLimits in
/-- The first call within the minute is refused, because it comes after a ping. -/
theorem ping_uses_up_the_limit :
    ¬ ∀ (i : ℕ) (m : Received) (method : Json) (rule : RateLimitRule), [ping, call 5][i]? = some m →
      requestMethod plainPako NumberHandler.text m.raw = some method →
      callsOfX.ruleFor method = some rule →
      (Transducer.outputs (callsOfX.receive plainPako NumberHandler.text "conn-1") .new
        [ping, call 5])[i]? = some (some false) →
      rule.maxRequests < ([ping, call 5].take (i + 1)).countP
        fun m => requestMethod plainPako NumberHandler.text m.raw = some method := by
  intro h
  have hcount :=
    h 1 (call 5) (.str "x") ⟨60000, 1⟩ rfl (requestMethod_call 5) rfl (by decide +kernel)
  revert hcount
  decide +kernel

end Datasole
