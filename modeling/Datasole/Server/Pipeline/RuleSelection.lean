import Datasole.Server.Pipeline.RateLimitInterceptor
import Datasole.Server.RateLimit.UntypedLimiter

/-!
# The rule for a message

`getRateLimitRule` of `server/pipeline/rate-limit.interceptor.ts`, with the rules in an object
literal and the method as the client has sent it. `config.rules[req.method]` finds what the literal
inherits from `Object.prototype` too, and looks under the text of a method that is no string; the
name of an event is not looked up. `rule_selection_iff` says for which messages the rule is the one
of the name that was sent.
-/

namespace Datasole

variable {V : Type*}

/-- The names of the properties of `Object.prototype`. All of them have a value that counts as
true. -/
def objectPrototype : List String :=
  ["constructor", "__defineGetter__", "__defineSetter__", "hasOwnProperty", "__lookupGetter__",
    "__lookupSetter__", "isPrototypeOf", "propertyIsEnumerable", "toString", "valueOf", "__proto__",
    "toLocaleString"]

/-- `RateLimitConfig`, with the properties of the object literal `rules`. -/
structure RateLimitOptions where
  defaultRule : Option RateLimitRule := none
  rules : Option (JsMap String RateLimitRule) := none
  keyExtractor : Option ((connectionId : String) → (method : Option Json) → Except String String) := none

namespace RateLimitOptions

/-- `rules[key]`. What is inherited is a function, or `Object.prototype` itself, and has neither
number. -/
def lookup (rules : JsMap String RateLimitRule) (key : String) : Option RuleObject :=
  match rules.get key with
  | some rule => some (.ofRule rule)
  | none => if key ∈ objectPrototype then some ⟨none, none⟩ else none

variable (pako : Pako) (text : JsonText V) (numberText : ℚ → String) (options : RateLimitOptions)

/-- `config.defaultRule ?? DEFAULT_RATE_LIMIT_RULE`. -/
def fallback : RateLimitRule := options.defaultRule.getD defaultRateLimitRule

/-- `numberText` is `String` on numbers. An exception on the way is ignored. -/
def getRateLimitRule (raw : Bytes) : RuleObject :=
  let found := options.rules.bind fun rules =>
    (((requestMethod pako text raw).filter Json.truthy).bind (·.toPropertyKey numberText)).bind
      (lookup rules)
  found.getD (.ofRule options.fallback)

/-- The event of an EVENT_C2S. -/
def eventName (raw : Bytes) : Option Json :=
  match decodeMessage pako.inflate raw with
  | .error _ => none
  | .ok frame =>
    if frame.opcode = .eventC2s then (text.parse frame.payload).bind (·.property "event") else none

/-- The properties of the literal. -/
def own (name : String) : Option RateLimitRule := options.rules.bind (·.get name)

/-- The rule of the method or the event that the client names, if it has one of its own. -/
def selectedRule (raw : Bytes) : RateLimitRule :=
  let name := ((requestMethod pako text raw).or (eventName pako text raw)).bind Json.asString
  (name.bind options.own).getD options.fallback

/-- A method that is looked up under its own name, and under no other. A rule that is the same as
the one without a name makes no difference. -/
def PlainMethod (method : Json) : Prop :=
  match method with
  | .str name =>
    if name = "" then ∀ rule ∈ options.own "", rule = options.fallback
    else options.rules.isSome → options.own name = none → name ∉ objectPrototype
  | method => method.truthy → options.rules.isSome → ∀ key ∈ method.toPropertyKey numberText,
      (∀ rule ∈ options.own key, rule = options.fallback) ∧
        (options.own key = none → key ∉ objectPrototype)

/-- No rule is kept for the event of the message, and its method is plain. -/
structure Plain (raw : Bytes) : Prop where
  event : ∀ name, eventName pako text raw = some (.str name) → ∀ rule ∈ options.own name,
    rule = options.fallback
  method : ∀ method ∈ requestMethod pako text raw, options.PlainMethod numberText method

variable {pako text numberText options} {raw : Bytes}

/-- A request of a method is no event. -/
theorem eventName_eq_none {method : Json} (h : requestMethod pako text raw = some method) :
    eventName pako text raw = none := by
  cases hframe : decodeMessage pako.inflate raw with
  | error e => simp only [eventName, hframe]
  | ok frame =>
    simp only [requestMethod, hframe, Option.ite_none_right_eq_some] at h
    simp only [eventName, hframe]
    exact if_neg (by rw [h.1]; decide)

/-- A rule is told by its object. -/
theorem ofRule_inj {rule rule' : RateLimitRule} :
    RuleObject.ofRule rule = .ofRule rule' ↔ rule = rule' := by
  obtain ⟨ms, max⟩ := rule
  obtain ⟨ms', max'⟩ := rule'
  simp [RuleObject.ofRule]

/-- What is found under a key is as good as the rule without a name. -/
theorem lookup_getD_eq_fallback (rules : JsMap String RateLimitRule) (key : String)
    (rule : RateLimitRule) :
    (lookup rules key).getD (.ofRule rule) = .ofRule rule ↔
      (∀ own ∈ rules.get key, own = rule) ∧ (rules.get key = none → key ∉ objectPrototype) := by
  unfold lookup
  cases rules.get key with
  | none =>
    by_cases hkey : key ∈ objectPrototype
    · simp [hkey, RuleObject.ofRule]
    · simp [hkey]
  | some own => simp [ofRule_inj]

/-- What is found under a name is the rule of this name. -/
theorem lookup_getD_eq_own (rules : JsMap String RateLimitRule) (key : String)
    (rule : RateLimitRule) :
    (lookup rules key).getD (.ofRule rule) = .ofRule ((rules.get key).getD rule) ↔
      (rules.get key = none → key ∉ objectPrototype) := by
  unfold lookup
  cases rules.get key with
  | none =>
    by_cases hkey : key ∈ objectPrototype
    · simp [hkey, RuleObject.ofRule]
    · simp [hkey]
  | some own => simp

/-- A method that is a string is looked up as it is; an inherited property that is found there is no
rule. -/
theorem getRateLimitRule_of_string {rules : JsMap String RateLimitRule}
    (hrules : options.rules = some rules)
    {name : String} (hmethod : requestMethod pako text raw = some (.str name)) :
    options.getRateLimitRule pako text numberText raw = .ofRule (options.selectedRule pako text raw) ↔
      options.PlainMethod numberText (.str name) := by
  have hselected : options.selectedRule pako text raw = (rules.get name).getD options.fallback := by
    simp [selectedRule, hmethod, Json.asString, own, hrules]
  rw [hselected]
  by_cases hname : name = ""
  · subst hname
    have hfound : options.getRateLimitRule pako text numberText raw = .ofRule options.fallback := by
      simp [getRateLimitRule, hrules, hmethod, Json.truthy, Option.filter]
    rw [hfound, ofRule_inj]
    cases hown : rules.get "" with
    | none => simp [PlainMethod, own, hrules, hown]
    | some rule => simp [PlainMethod, own, hrules, hown, eq_comm]
  · have hfound : options.getRateLimitRule pako text numberText raw =
        (lookup rules name).getD (.ofRule options.fallback) := by
      simp [getRateLimitRule, hrules, hmethod, Json.truthy, Option.filter, hname,
        Json.toPropertyKey, Json.stringThrows, Json.text]
    rw [hfound, lookup_getD_eq_own]
    simp [PlainMethod, own, hrules, hname]

/-- Any other method is looked up under its text. -/
theorem getRateLimitRule_of_other {rules : JsMap String RateLimitRule}
    (hrules : options.rules = some rules) {method : Json}
    (hmethod : requestMethod pako text raw = some method) (hother : method.asString = none) :
    options.getRateLimitRule pako text numberText raw = .ofRule (options.selectedRule pako text raw) ↔
      options.PlainMethod numberText method := by
  have hselected : options.selectedRule pako text raw = options.fallback := by
    simp [selectedRule, hmethod, hother]
  have hplain : options.PlainMethod numberText method ↔ (method.truthy → options.rules.isSome →
      ∀ key ∈ method.toPropertyKey numberText, (∀ rule ∈ options.own key, rule = options.fallback) ∧
        (options.own key = none → key ∉ objectPrototype)) := by
    cases method with
    | str name => cases hother
    | null | bool | num | arr | obj => rfl
  rw [hselected, hplain]
  by_cases htruthy : method.truthy
  · cases hkey : method.toPropertyKey numberText with
    | none => simp [getRateLimitRule, hrules, hmethod, htruthy, Option.filter, hkey]
    | some key =>
      have hfound : options.getRateLimitRule pako text numberText raw =
          (lookup rules key).getD (.ofRule options.fallback) := by
        simp [getRateLimitRule, hrules, hmethod, htruthy, Option.filter, hkey]
      rw [hfound, lookup_getD_eq_fallback]
      simp [htruthy, hrules, own]
  · simp [getRateLimitRule, hrules, hmethod, htruthy, Option.filter]

/-- The two cases in one. -/
theorem getRateLimitRule_of_method {method : Json}
    (hmethod : requestMethod pako text raw = some method) :
    options.getRateLimitRule pako text numberText raw = .ofRule (options.selectedRule pako text raw) ↔
      options.PlainMethod numberText method := by
  cases hrules : options.rules with
  | none =>
    have hown : options.own = fun _ => none := by
      funext key
      rw [own, hrules]
      rfl
    refine iff_of_true ?_ ?_
    · simp [getRateLimitRule, selectedRule, hrules, hown]
    · unfold PlainMethod
      split
      · simp [hown, hrules]
      · simp [hrules]
  | some rules =>
    cases method with
    | str name => exact getRateLimitRule_of_string hrules hmethod
    | null | bool | num | arr | obj => exact getRateLimitRule_of_other hrules hmethod rfl

/-- Without a method the rule is the one without a name. -/
theorem getRateLimitRule_of_none (hmethod : requestMethod pako text raw = none) :
    options.getRateLimitRule pako text numberText raw = .ofRule options.fallback := by
  cases hrules : options.rules with
  | none => simp [getRateLimitRule, hrules]
  | some rules => simp [getRateLimitRule, hrules, hmethod]

/-- The rule is the selected one for a plain message, and for no other. -/
theorem getRateLimitRule_eq_iff (raw : Bytes) :
    options.getRateLimitRule pako text numberText raw = .ofRule (options.selectedRule pako text raw) ↔
      options.Plain pako text numberText raw := by
  cases hmethod : requestMethod pako text raw with
  | some method =>
    rw [getRateLimitRule_of_method hmethod]
    refine ⟨fun h => ⟨fun name hname => ?_, fun method' h' => ?_⟩, fun h => h.method method hmethod⟩
    · rw [eventName_eq_none hmethod] at hname
      cases hname
    · obtain rfl := Option.some.inj (hmethod.symm.trans h')
      exact h
  | none =>
    have hplain : options.Plain pako text numberText raw ↔
        ∀ name, eventName pako text raw = some (.str name) → ∀ rule ∈ options.own name,
          rule = options.fallback :=
      ⟨fun h => h.event, fun h => ⟨h, fun method h' => nomatch hmethod.symm.trans h'⟩⟩
    rw [getRateLimitRule_of_none hmethod, ofRule_inj, hplain, selectedRule, hmethod, Option.none_or]
    cases hevent : eventName pako text raw with
    | none => simp
    | some event =>
      cases event with
      | str name =>
        cases hown : options.own name with
        | none => simp [Json.asString, hown]
        | some rule => simp [Json.asString, hown, eq_comm]
      | null | bool | num | arr | obj => simp [Json.asString]

/-! ## The buckets -/

/-- The options as the typed interceptor has them. -/
def toConfig (options : RateLimitOptions) (numberText : ℚ → String) : RateLimitConfig where
  defaultRule := options.defaultRule
  rules := options.rules.map fun rules method => (method.toPropertyKey numberText).bind rules.get
  keyExtractor := options.keyExtractor

/-- Where nothing inherited is found, the rule is that of the typed interceptor. -/
theorem getRateLimitRule_toConfig (h : ∀ method ∈ requestMethod pako text raw,
      ∀ key ∈ method.toPropertyKey numberText, options.own key = none → key ∉ objectPrototype) :
    options.getRateLimitRule pako text numberText raw =
      .ofRule (Datasole.getRateLimitRule pako text raw (options.toConfig numberText)) := by
  cases hrules : options.rules with
  | none => simp [getRateLimitRule, Datasole.getRateLimitRule, toConfig, hrules, fallback]
  | some rules =>
    cases hmethod : requestMethod pako text raw with
    | none => simp [getRateLimitRule, Datasole.getRateLimitRule, toConfig, hrules, hmethod, fallback]
    | some method =>
      by_cases htruthy : method.truthy
      · cases hkey : method.toPropertyKey numberText with
        | none =>
          simp [getRateLimitRule, Datasole.getRateLimitRule, toConfig, hrules, hmethod, fallback,
            htruthy, Option.filter, hkey]
        | some key =>
          have hnone := h method hmethod key hkey
          simp only [own, hrules, Option.bind_some] at hnone
          have hlookup : lookup rules key = (rules.get key).map .ofRule := by
            unfold lookup
            cases hget : rules.get key with
            | none => rw [if_neg (hnone hget), Option.map_none]
            | some rule => rfl
          simp only [getRateLimitRule, Datasole.getRateLimitRule, toConfig, hrules, hmethod,
            fallback,
            htruthy, Option.filter, hkey, if_true, Option.bind_some, hlookup, Option.map_some]
          cases rules.get key <;> rfl
      · simp [getRateLimitRule, Datasole.getRateLimitRule, toConfig, hrules, hmethod, fallback,
          htruthy, Option.filter]

inductive Act where
  /-- A message, with a number that no other has. -/
  | receive (message : ℕ) (connectionId : String) (raw : Bytes) (now : ℤ)
  /-- The limiter's call for a message goes on, or what it waits for takes effect. -/
  | advance (message : ℕ) (now : ℤ)

/-- The interceptor up to the limiter's promise, and the limiter. An exception of the key extractor
goes to the caller. -/
def step (pako : Pako) (text : JsonText V) (numberText : ℚ → String) (options : RateLimitOptions)
    (s : UntypedLimiter) : Act → Option UntypedLimiter
  | .receive message connectionId raw now =>
    if s.asked message = none then
      match getRateLimitKey pako text connectionId raw (options.toConfig numberText) with
      | .error _ => some s
      | .ok key =>
        some (s.consume message ("rl:" ++ key) (options.getRateLimitRule pako text numberText raw) now)
    else none
  | .advance message now => s.advance message now

/-- The rule of the message is the one of the name in it. -/
def Act.Plain (pako : Pako) (text : JsonText V) (numberText : ℚ → String)
    (options : RateLimitOptions) :
    Act → Prop
  | .receive _ _ raw _ => options.Plain pako text numberText raw
  | .advance _ _ => True

/-- With plain messages the limiter is one whose rules have both numbers. -/
theorem exists_ofShared_step {s : SharedLimiter String} {t : UntypedLimiter} {a : Act}
    (ha : a.Plain pako text numberText options)
    (hstep : step pako text numberText options (.ofShared s) a = some t) : ∃ s', t = .ofShared s' := by
  cases a with
  | receive message connectionId raw now =>
    simp only [step] at hstep
    split at hstep
    · split at hstep
      · exact ⟨s, (Option.some.inj hstep).symm⟩
      · next key hkey =>
        rw [(getRateLimitRule_eq_iff raw).mpr ha, ← UntypedLimiter.ofShared_consume] at hstep
        exact ⟨_, (Option.some.inj hstep).symm⟩
    · cases hstep
  | advance message now =>
    have hadvance : (s.advance message now).map UntypedLimiter.ofShared = some t :=
      (UntypedLimiter.advance_ofShared s message now).symm.trans hstep
    obtain ⟨s', -, rfl⟩ := Option.map_eq_some_iff.mp hadvance
    exact ⟨s', rfl⟩

end RateLimitOptions

open RateLimitOptions in
/-- The rule for a message is the one of the method or event that it names, or the one without a
name, exactly if the message is plain; and in every run with plain messages only, every window in
the backend ends at a time. -/
theorem rule_selection_iff (pako : Pako) (text : JsonText V) (numberText : ℚ → String)
    (options : RateLimitOptions) :
    (∀ raw, options.getRateLimitRule pako text numberText raw =
        .ofRule (options.selectedRule pako text raw) ↔ options.Plain pako text numberText raw) ∧
      ∀ (copies : Bool) (acts : List Act) (s : UntypedLimiter),
        (∀ a ∈ acts, a.Plain pako text numberText options) →
        Machine.exec (step pako text numberText options) (.init copies) acts = some s →
        s.EndsAtTimes := by
  refine ⟨getRateLimitRule_eq_iff, fun copies acts s hplain hrun => ?_⟩
  have hshared : ∃ s', s = UntypedLimiter.ofShared s' := by
    refine Machine.exec_invariant_guarded (I := fun s => ∃ s', s = .ofShared s') ?_
      ⟨.init copies, (UntypedLimiter.ofShared_init copies).symm⟩ (Machine.guarded_of_mem hplain _) hrun
    rintro _ a t ⟨s', rfl⟩ ha hstep
    exact exists_ofShared_step ha hstep
  obtain ⟨s', rfl⟩ := hshared
  exact UntypedLimiter.endsAtTimes_ofShared s'

/-! ## A method that has a rule -/

namespace SearchCall

/-- `{"method":"search"}`. -/
def requestText : Bytes := Bytes.ofAscii "\x7b\"method\":\"search\"\x7d"

def text : JsonText Unit where
  stringify _ := .ok none
  encode _ := .error "not used"
  parse data := if data = requestText then some (.obj [("method", .str "search")]) else none

def raw : Bytes := Frame.bytes ⟨.rpcReq, 1, requestText⟩

/-- The method has a rule. -/
def options : RateLimitOptions where
  rules := some (JsMap.empty.set "search" ⟨60000, 30⟩)

/-- The message, until its window is in the backend. -/
def acts : List RateLimitOptions.Act :=
  [.receive 0 "conn-1" raw 0, .advance 0 0, .advance 0 0, .advance 0 0]

end SearchCall

open SearchCall in
/-- The message is plain, and the window that it starts ends at a time. -/
theorem search_has_rule :
    options.Plain plainPako text (fun _ => "") raw ∧
      ∃ s, Machine.exec (RateLimitOptions.step plainPako text (fun _ => "") options) (.init false) acts =
        some s ∧ (s.entries "rl:conn-1:frame").isSome ∧ s.EndsAtTimes := by
  have hselection := rule_selection_iff plainPako text (fun _ => "") options
  have hplain : options.Plain plainPako text (fun _ => "") raw :=
    (hselection.1 raw).mp (by decide +kernel)
  have htested : (Machine.exec (RateLimitOptions.step plainPako text (fun _ => "") options) (.init false)
      acts).map (fun s => (s.entries "rl:conn-1:frame").isSome) = some true := by decide +kernel
  obtain ⟨s, hrun, htest⟩ := Machine.exists_exec_of_test htested
  refine ⟨hplain, s, hrun, htest, hselection.2 false acts s (fun a ha => ?_) hrun⟩
  rcases List.mem_cons.mp ha with rfl | ha
  · exact hplain
  · simp only [List.mem_cons, List.not_mem_nil, or_false, or_self] at ha
    subst ha
    trivial

/-! ## The method `constructor` -/

namespace ConstructorCall

/-- `{"method":"constructor"}`. -/
def requestText : Bytes := Bytes.ofAscii "\x7b\"method\":\"constructor\"\x7d"

def text : JsonText Unit where
  stringify _ := .ok none
  encode _ := .error "not used"
  parse data := if data = requestText then some (.obj [("method", .str "constructor")]) else none

def raw : Bytes := Frame.bytes ⟨.rpcReq, 1, requestText⟩

/-- One method has a rule. -/
def options : RateLimitOptions where
  rules := some (JsMap.empty.set "search" ⟨60000, 30⟩)

/-- The message, until its window is in the backend. -/
def acts : List RateLimitOptions.Act :=
  [.receive 0 "conn-1" raw 0, .advance 0 0, .advance 0 0, .advance 0 0]

/-- The bucket of the connection has a window that ends at `NaN`. -/
def neverEnds (s : UntypedLimiter) : Bool :=
  (s.entries "rl:conn-1:frame").any fun stored => decide ((s.entryOf stored).resetAt = .nan)

end ConstructorCall

open ConstructorCall in
/-- The rule for it is the function `Object`, and the window that it starts never ends. -/
theorem constructor_is_no_rule :
    ¬ (∀ raw, options.getRateLimitRule plainPako text (fun _ => "") raw =
        .ofRule (options.selectedRule plainPako text raw)) ∧
      ¬ ∀ (copies : Bool) (acts : List RateLimitOptions.Act) (s : UntypedLimiter),
        Machine.exec (RateLimitOptions.step plainPako text (fun _ => "") options) (.init copies) acts =
          some s → s.EndsAtTimes := by
  constructor
  · intro h
    exact absurd (h raw) (by decide +kernel)
  · intro h
    have htested : (Machine.exec (RateLimitOptions.step plainPako text (fun _ => "") options) (.init false)
        acts).map neverEnds = some true := by decide +kernel
    obtain ⟨s, hrun, htest⟩ := Machine.exists_exec_of_test htested
    obtain ⟨stored, hstored, hnan⟩ := (Option.any_eq_true _ _).mp htest
    obtain ⟨ms, hms⟩ := h false acts s hrun "rl:conn-1:frame" stored hstored
    rw [of_decide_eq_true hnan] at hms
    cases hms

end Datasole
