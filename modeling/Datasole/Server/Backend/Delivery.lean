import Datasole.Common.Machine
import Datasole.Server.Backend.MemoryBackend
import Datasole.Server.Backend.RedisBackend

/-!
# Delivery by the two backends

Runs of a `RedisBackend`, beside a `MemoryBackend` that gets the same calls and to which a value is
published when Redis delivers it. What Redis keeps of a published value is delivered once and in
order to every channel that was asked for.

`delivers_like_memory_iff` says when the handlers are called alike. The channel is asked for only if
there is a connection when a handler is subscribed, an exception of one handler reaches the `try`
around all of them, and three names of keys mean something to the `EventEmitter`.
-/

namespace Datasole

namespace Delivery

/-- The backends, the channels that each subscriber connection has asked for, and what is under way:
the messages at Redis, and the keys and values they were made of. `keys` has the key of every
subscription. `calls` are the calls of handlers, and `uncaught` counts the exceptions that leave the
listener of messages. -/
structure Backends where
  redis : RedisBackend
  channels : List (ℕ × String)
  messages : List (String × String)
  calls : List (ℕ × Json)
  uncaught : ℕ
  memory : MemoryBackend Json
  memoryCalls : List (ℕ × Json)
  keys : List String
  published : List (String × Json)

def init (keyPrefix : String) : Backends where
  redis := RedisBackend.new keyPrefix
  channels := []
  messages := []
  calls := []
  uncaught := 0
  memory := MemoryBackend.new
  memoryCalls := []
  keys := []
  published := []

inductive Act where
  /-- A call of `connect` completes. -/
  | connect
  | subscribe (key : String)
  /-- What the `n`-th call of `subscribe` has returned is called. -/
  | unsubscribe (n : ℕ)
  | publish (key : String) (value : Json)
  /-- Redis delivers its first message. -/
  | deliver

variable (throws : List (ℕ × Json) → Bool) (json : JsonStrings)

/-- A message arrives at every connection that has asked for its channel. -/
def deliverTo (s : Backends) (channel message : String) : List (ℕ × Json) × ℕ :=
  (s.channels.filter (·.2 = channel)).foldl (fun (calls, uncaught) _ =>
    let (calls, threw) := s.redis.onMessage throws json calls channel message
    (calls, if threw then uncaught + 1 else uncaught)) (s.calls, s.uncaught)

def step (s : Backends) : Act → Option Backends
  | .connect => some { s with redis := s.redis.connect }
  | .subscribe key =>
    let (redis, channel, calls) := s.redis.subscribe throws s.calls key s.keys.length
    some { s with
      redis
      channels := s.channels ++ (channel.map (s.redis.connections, ·)).toList
      calls
      memory := s.memory.subscribe key s.keys.length
      keys := s.keys ++ [key] }
  | .unsubscribe n =>
    s.keys[n]?.map fun key =>
      let (redis, calls) := s.redis.unsubscribe throws s.calls key n
      { s with redis, calls, memory := s.memory.unsubscribe key n }
  | .publish key value =>
    if 0 < s.redis.connections then
      some { s with
        messages := s.messages ++ [(s.redis.prefixed key, json.stringify value)]
        published := s.published ++ [(key, value)] }
    else none
  | .deliver =>
    match s.messages, s.published with
    | (channel, message) :: messages, (key, value) :: published =>
      let (calls, uncaught) := deliverTo throws json s channel message
      let memoryCalls := s.memory.publish s.memoryCalls key value
      some { s with messages, calls, uncaught, memoryCalls, published }
    | _, _ => none

/-- So far every handler was called as on the `MemoryBackend`, and no exception got out. -/
structure Alike (s : Backends) : Prop where
  calls : s.calls = s.memoryCalls
  uncaught : s.uncaught = 0

/-- When a message is delivered: its channel was asked for, no handler throws, and somebody listens
if the key is `error`; or nobody has subscribed to the key or asked for the channel. When a handler
is subscribed or taken away: no other is subscribed to `newListener` or to `removeListener`. -/
def InStep (s : Backends) : Act → Prop
  | .subscribe _ => s.redis.emitter.listeners "newListener" = []
  | .unsubscribe n => ∀ key ∈ s.keys[n]?, (key, n) ∈ s.redis.emitter.entries →
      EventEmitter.listeners ⟨s.redis.emitter.entries.erase (key, n)⟩ "removeListener" = []
  | .deliver => ∀ p ∈ s.published.head?,
      if s.redis.prefixed p.1 ∈ s.redis.subscriptions then
        (s.redis.emitter.emit throws s.calls p.1 p.2).2 = false
      else s.redis.emitter.listeners p.1 = []
  | .connect | .publish _ _ => True

instance (s : Backends) : DecidablePred (InStep throws s)
  | .subscribe _ => inferInstanceAs (Decidable (_ = _))
  | .unsubscribe n => inferInstanceAs (Decidable (∀ key ∈ s.keys[n]?, _ → _))
  | .deliver => inferInstanceAs (Decidable (∀ p ∈ s.published.head?, _))
  | .connect | .publish _ _ => .isTrue trivial

/-- What every run that is in step keeps. -/
structure Inv (s : Backends) : Prop extends Alike s where
  listeners : ∀ key, s.redis.emitter.listeners key = s.memory.listenersOf key
  key_of : ∀ key i, i ∈ s.redis.emitter.listeners key → s.keys[i]? = some key
  nodup : ∀ key, (s.redis.emitter.listeners key).Nodup
  channels : s.channels.map Prod.snd = s.redis.subscriptions
  nodup_channels : s.redis.subscriptions.Nodup
  messages : s.messages = s.published.map fun p => (s.redis.prefixed p.1, json.stringify p.2)
  parses : ∀ p ∈ s.published, json.parse (json.stringify p.2) = some p.2

variable {throws json} {s t : Backends}

/-- Without subscriptions and messages both backends are alike. -/
theorem inv_init (keyPrefix : String) : Inv json (init keyPrefix) where
  calls := rfl
  uncaught := rfl
  listeners _ := rfl
  key_of _ _ h := by cases h
  nodup _ := .nil
  channels := rfl
  nodup_channels := .nil
  messages := rfl
  parses _ h := by cases h

/-- Redis is asked for a channel at most once. -/
theorem Inv.filter_channels (h : Inv json s) (channel : String) :
    (channel ∉ s.redis.subscriptions ∧ s.channels.filter (·.2 = channel) = []) ∨
      (channel ∈ s.redis.subscriptions ∧ ∃ c, s.channels.filter (·.2 = channel) = [c]) := by
  have hmap : (s.channels.filter (·.2 = channel)).map Prod.snd =
      s.redis.subscriptions.filter (· = channel) := by
    rw [← h.channels, List.filter_map]
    rfl
  by_cases hmem : channel ∈ s.redis.subscriptions
  · rw [List.filter_eq, List.count_eq_one_of_mem h.nodup_channels hmem] at hmap
    obtain ⟨c, hc, -⟩ := List.map_eq_singleton_iff.mp hmap
    exact .inr ⟨hmem, c, hc⟩
  · have hnil : s.redis.subscriptions.filter (· = channel) = [] :=
      List.filter_eq_nil_iff.mpr fun c hc heq => hmem (of_decide_eq_true heq ▸ hc)
    rw [hnil] at hmap
    exact .inl ⟨hmem, List.map_eq_nil_iff.mp hmap⟩

/-- A value is published whose text can be parsed. -/
def Act.Parses (json : JsonStrings) : Act → Prop
  | .publish _ value => json.parse (json.stringify value) = some value
  | .connect | .subscribe _ | .unsubscribe _ | .deliver => True

/-! ## Subscriptions -/

/-- Both backends get a listener with a new number. -/
theorem Inv.subscribe (h : Inv json s) (key : String) (channel : Option String)
    (hnew : ∀ c ∈ channel, c ∉ s.redis.subscriptions) :
    Inv json { s with
      redis := { s.redis with
        emitter := ⟨s.redis.emitter.entries ++ [(key, s.keys.length)]⟩
        subscriptions := s.redis.subscriptions ++ channel.toList }
      channels := s.channels ++ (channel.map (s.redis.connections, ·)).toList
      memory := s.memory.subscribe key s.keys.length
      keys := s.keys ++ [key] } := by
  have hlt : ∀ key i, i ∈ s.redis.emitter.listeners key → i < s.keys.length := fun key i hi =>
    (List.getElem?_eq_some_iff.mp (h.key_of key i hi)).1
  have hold : ∀ key' i, i ∈ s.redis.emitter.listeners key' → (s.keys ++ [key])[i]? = some key' :=
    fun key' i hi => (List.getElem?_append_left (hlt key' i hi)).trans (h.key_of key' i hi)
  refine { h with
    listeners := fun key' => ?_
    key_of := fun key' i hi => ?_
    nodup := fun key' => ?_
    channels := ?_
    nodup_channels := ?_ }
  · rw [EventEmitter.listeners_add, MemoryBackend.listenersOf_subscribe, h.listeners]
  · rw [EventEmitter.listeners_add] at hi
    split at hi
    · next heq =>
      rcases List.mem_append.mp hi with hi | hi
      · exact hold key' i hi
      · rw [List.mem_singleton.mp hi, heq]
        exact List.getElem?_concat_length
    · exact hold key' i hi
  · rw [EventEmitter.listeners_add]
    split
    · refine List.nodup_append.mpr ⟨h.nodup key', List.nodup_singleton _, fun i hi j hj => ?_⟩
      rw [List.mem_singleton.mp hj]
      exact (hlt key' i hi).ne
    · exact h.nodup key'
  · rw [List.map_append, h.channels]
    cases channel <;> rfl
  · cases channel with
    | none => simpa using h.nodup_channels
    | some c =>
      rw [Option.toList_some, ← List.concat_eq_append, List.nodup_concat]
      exact ⟨hnew c rfl, h.nodup_channels⟩

/-- A subscription keeps the invariant if it is in step, and is in step if the backends stay
alike. -/
theorem step_subscribe (h : Inv json s) {key : String}
    (hs : step throws json s (.subscribe key) = some t) :
    (InStep throws s (.subscribe key) → Inv json t) ∧ (Alike t → InStep throws s (.subscribe key)) := by
  simp only [step, Option.some.injEq] at hs
  subst hs
  refine ⟨fun hnone => ?_, fun halike => ?_⟩
  · obtain ⟨channel, hsubscribe, hnew⟩ :=
      RedisBackend.subscribe_eq throws s.calls key s.keys.length hnone
    rw [hsubscribe]
    exact h.subscribe key channel hnew
  · have hcalls := halike.calls
    rw [RedisBackend.calls_subscribe, ← h.calls] at hcalls
    exact EventEmitter.callAll_eq_self_iff.mp hcalls

/-- Both backends lose a listener, or neither has it any more. -/
theorem Inv.unsubscribe (h : Inv json s) (key : String) (n : ℕ) :
    Inv json { s with
      redis := { s.redis with emitter := ⟨s.redis.emitter.entries.erase (key, n)⟩ }
      memory := s.memory.unsubscribe key n } := by
  have hsub : ∀ key', (EventEmitter.listeners ⟨s.redis.emitter.entries.erase (key, n)⟩ key').Sublist
      (s.redis.emitter.listeners key') := by
    intro key'
    rw [EventEmitter.listeners_remove]
    split
    · exact List.erase_sublist
    · exact List.Sublist.refl _
  refine { h with
    listeners := fun key' => ?_
    key_of := fun key' i hi => h.key_of key' i ((hsub key').subset hi)
    nodup := fun key' => (h.nodup key').sublist (hsub key') }
  rw [EventEmitter.listeners_remove, MemoryBackend.listenersOf_unsubscribe, h.listeners]

/-- The same of a handler that is taken away. -/
theorem step_unsubscribe (h : Inv json s) {n : ℕ}
    (hs : step throws json s (.unsubscribe n) = some t) :
    (InStep throws s (.unsubscribe n) → Inv json t) ∧ (Alike t → InStep throws s (.unsubscribe n)) := by
  simp only [step, Option.map_eq_some_iff] at hs
  obtain ⟨key, hkey, rfl⟩ := hs
  by_cases hmem : (key, n) ∈ s.redis.emitter.entries
  · rw [RedisBackend.unsubscribe_of_mem hmem]
    refine ⟨fun hnone => ?_, fun halike key' hkey' hmem' => ?_⟩
    · rw [hnone key hkey hmem]
      exact h.unsubscribe key n
    · obtain rfl := Option.some.inj (hkey.symm.trans hkey')
      have hcalls := halike.calls
      rw [← h.calls] at hcalls
      exact EventEmitter.callAll_eq_self_iff.mp hcalls
  · rw [RedisBackend.unsubscribe_of_not_mem hmem]
    have hsame := h.unsubscribe key n
    rw [List.erase_of_not_mem hmem] at hsame
    refine ⟨fun _ => hsame, fun _ key' hkey' hmem' => ?_⟩
    obtain rfl := Option.some.inj (hkey.symm.trans hkey')
    exact absurd hmem' hmem

/-! ## Deliveries -/

/-- A message on a channel that nobody has asked for. -/
theorem deliverTo_of_nil {channel : String} (h : s.channels.filter (·.2 = channel) = [])
    (message : String) : deliverTo throws json s channel message = (s.calls, s.uncaught) := by
  rw [deliverTo, h]
  rfl

/-- A message that is parsed: the handlers are called with the value, and with the text if one
throws. -/
theorem deliverTo_of_singleton {key : String} {value : Json} {c : ℕ × String}
    (h : s.channels.filter (·.2 = s.redis.prefixed key) = [c])
    (hparse : json.parse (json.stringify value) = some value) :
    deliverTo throws json s (s.redis.prefixed key) (json.stringify value) =
      let (calls, threw) := s.redis.emitter.emit throws s.calls key value
      if threw then
        let (calls, threw) := s.redis.emitter.emit throws calls key (.str (json.stringify value))
        (calls, if threw then s.uncaught + 1 else s.uncaught)
      else (calls, s.uncaught) := by
  rw [deliverTo, h]
  simp only [List.foldl_cons, List.foldl_nil, RedisBackend.onMessage, RedisBackend.keyOf_prefixed,
    hparse]
  cases (s.redis.emitter.emit throws s.calls key value).2 <;> rfl

/-- The first message is taken away, and nobody or everybody who listens on the `MemoryBackend` has
been called. -/
theorem Inv.deliver (h : Inv json s) {key : String} {value : Json}
    {published : List (String × Json)}
    (hpublished : s.published = (key, value) :: published) :
    Inv json { s with
      messages := published.map fun p => (s.redis.prefixed p.1, json.stringify p.2)
      published
      calls := s.calls ++ (s.redis.emitter.listeners key).map (·, value)
      memoryCalls := s.memory.publish s.memoryCalls key value } := by
  refine { h with calls := ?_, messages := rfl, parses := fun p hp => ?_ }
  · rw [MemoryBackend.publish, h.calls, h.listeners]
  · exact h.parses p (hpublished ▸ List.mem_cons_of_mem _ hp)

/-- If a handler throws, the first one is called twice, and if nobody listens to `error`, an
exception gets out. -/
theorem emit_of_alike {emitter : EventEmitter ℕ} {key : String}
    (hnodup : (emitter.listeners key).Nodup)
    {calls : List (ℕ × Json)} {value text : Json}
    (hcalls : (emitter.emit throws (emitter.emit throws calls key value).1 key text).1 =
      calls ++ (emitter.listeners key).map (·, value))
    (huncaught : (emitter.emit throws (emitter.emit throws calls key value).1 key text).2 = false) :
    (emitter.emit throws calls key value).2 = false := by
  cases hlisteners : emitter.listeners key with
  | nil =>
    by_cases herror : key = "error"
    · rw [EventEmitter.emit, if_pos ⟨herror, hlisteners⟩] at huncaught
      cases huncaught
    · rw [EventEmitter.emit_eq fun h => absurd h herror, hlisteners]
      rfl
  | cons i is =>
    have hsome : key = "error" → emitter.listeners key ≠ [] := fun _ => by
      rw [hlisteners]
      exact List.cons_ne_nil i is
    rw [EventEmitter.emit_eq hsome, EventEmitter.emit_eq hsome, hlisteners] at hcalls
    obtain ⟨more, hfirst⟩ := EventEmitter.callAll_cons throws calls value i is
    obtain ⟨more', hsecond⟩ := EventEmitter.callAll_cons throws
      (EventEmitter.callAll throws calls (i :: is) value).1 text i is
    rw [hsecond, hfirst, List.append_assoc, List.append_cancel_left_eq, List.map_cons,
      List.cons_append, List.cons_inj_right] at hcalls
    -- the first handler would be among the others
    have hmem : i ∈ is := by
      have hfst := congrArg (List.map Prod.fst) hcalls
      simp only [List.map_append, List.map_cons, List.map_map] at hfst
      have hmem : i ∈ is.map (Prod.fst ∘ fun j => (j, value)) := by
        rw [← hfst]
        exact List.mem_append_right _ List.mem_cons_self
      simpa using hmem
    rw [hlisteners] at hnodup
    exact absurd hmem (List.nodup_cons.mp hnodup).1

/-- The same of a delivery: where one is not in step, the backends call different handlers or an
exception gets out. -/
theorem step_deliver (h : Inv json s) (hs : step throws json s .deliver = some t) :
    (InStep throws s .deliver → Inv json t) ∧ (Alike t → InStep throws s .deliver) := by
  simp only [step, h.messages] at hs
  cases hpublished : s.published with
  | nil => simp [hpublished] at hs
  | cons p published =>
    obtain ⟨key, value⟩ := p
    simp only [hpublished, List.map_cons, Option.some.injEq] at hs
    have hparse := h.parses (key, value) (by rw [hpublished]; exact List.mem_cons_self)
    have hkeep := h.deliver hpublished
    simp only [InStep, hpublished, List.head?_cons, Option.mem_def, Option.some.injEq, forall_eq']
    rcases h.filter_channels (s.redis.prefixed key) with ⟨hmem, hnil⟩ | ⟨hmem, c, hc⟩
    · -- nobody listens in Redis, so the `MemoryBackend` must not have called anyone
      rw [deliverTo_of_nil hnil] at hs
      rw [if_neg hmem]
      subst hs
      refine ⟨fun hnone => ?_, fun halike => ?_⟩
      · rw [hnone, List.map_nil, List.append_nil] at hkeep
        exact hkeep
      · have hcalls := halike.calls
        dsimp only at hcalls
        rw [MemoryBackend.publish, ← h.calls, List.self_eq_append_right, List.map_eq_nil_iff,
          ← h.listeners] at hcalls
        exact hcalls
    · -- one channel listens, and its handlers are called until one throws
      rw [deliverTo_of_singleton hc hparse] at hs
      rw [if_pos hmem]
      cases hthrew : (s.redis.emitter.emit throws s.calls key value).2 with
      | false =>
        have hcalls : (s.redis.emitter.emit throws s.calls key value).1 =
            s.calls ++ (s.redis.emitter.listeners key).map (·, value) :=
          EventEmitter.emit_of_not_throws hthrew
        simp only [hthrew, Bool.false_eq_true, if_false, hcalls] at hs
        subst hs
        exact ⟨fun _ => hkeep, fun _ => rfl⟩
      | true =>
        simp only [hthrew, if_true] at hs
        subst hs
        -- a handler that throws keeps later ones from being called, or the exception gets out
        refine ⟨nofun, fun halike => ?_⟩
        obtain ⟨hcalls, huncaught⟩ := halike
        dsimp only at hcalls huncaught
        rw [MemoryBackend.publish, ← h.calls, ← h.listeners] at hcalls
        rw [h.uncaught] at huncaught
        have hcaught : (s.redis.emitter.emit throws (s.redis.emitter.emit throws s.calls key value).1 key
            (.str (json.stringify value))).2 = false := by
          by_contra hthrows
          rw [Bool.not_eq_false] at hthrows
          rw [if_pos hthrows] at huncaught
          cases huncaught
        exact hthrew.symm.trans (emit_of_alike (h.nodup key) hcalls hcaught)

/-- For every action the guard is what keeps the backends alike. -/
theorem step_iff {a : Act} (ha : a.Parses json) (h : Inv json s)
    (hs : step throws json s a = some t) :
    (InStep throws s a → Inv json t) ∧ (Alike t → InStep throws s a) := by
  cases a with
  | connect =>
    cases hs
    exact ⟨fun _ => { h with }, fun _ => trivial⟩
  | subscribe key => exact step_subscribe h hs
  | unsubscribe n => exact step_unsubscribe h hs
  | publish key value =>
    simp only [step, Option.ite_none_right_eq_some] at hs
    obtain ⟨-, hs⟩ := hs
    cases hs
    refine ⟨fun _ => { h with messages := ?_, parses := fun p hp => ?_ }, fun _ => trivial⟩
    · rw [List.map_append, h.messages]
      rfl
    · rcases List.mem_append.mp hp with hp | hp
      · exact h.parses p hp
      · rw [List.mem_singleton.mp hp]
        exact ha
  | deliver => exact step_deliver h hs

/-- In every run, with handlers that throw or not: at every moment the handlers have been called as
on a `MemoryBackend`, each one that is subscribed to the key at the delivery once and with the
published value, and no exception has got out, exactly if every step of the run is in step. -/
theorem delivers_like_memory_iff (throws : List (ℕ × Json) → Bool) (json : JsonStrings)
    (keyPrefix : String) (acts : List Act) (hjson : ∀ a ∈ acts, a.Parses json)
    (hrun : Machine.exec (step throws json) (init keyPrefix) acts = some s) :
    (∀ before after u, acts = before ++ after →
      Machine.exec (step throws json) (init keyPrefix) before = some u → Alike u) ↔
      Machine.Guarded (step throws json) (InStep throws) (init keyPrefix) acts :=
  Machine.forall_exec_iff_guarded_of_assume (I := Inv json) (P := Alike) (fun _ h => h.toAlike)
    (fun _ _ _ ha h hg hs => (step_iff ha h hs).1 hg) (fun _ _ _ ha h hs ht => (step_iff ha h hs).2 ht)
    hjson (inv_init keyPrefix) hrun

/-- The JSON functions on a number. -/
def sevenJson : JsonStrings where
  stringify value := if value = .num 7 then "7" else "null"
  parse text := if text = "7" then some (.num 7) else none

/-- Two handlers, a value, one handler less and the value again. -/
def twoHandlers : List Act :=
  [.connect, .subscribe "k", .subscribe "k", .publish "k" (.num 7), .deliver, .unsubscribe 0,
    .publish "k" (.num 7), .deliver]

/-- With two handlers and three calls the backends agree. -/
theorem twoHandlers_alike :
    ∃ s, Machine.exec (step (fun _ => false) sevenJson) (init "ds:") twoHandlers =
      some s ∧ s.calls = [(0, .num 7), (1, .num 7), (1, .num 7)] ∧ Alike s := by
  obtain ⟨s, hrun, hend⟩ := Machine.exists_exec_of_test
    (show (Machine.exec (step (fun _ => false) sevenJson) (init "ds:") twoHandlers).map (fun s =>
      decide (s.calls = [(0, .num 7), (1, .num 7), (1, .num 7)])) = some true by decide +kernel)
  refine ⟨s, hrun, of_decide_eq_true hend, ?_⟩
  have hjson : ∀ a ∈ twoHandlers, a.Parses sevenJson := by
    intro a ha
    simp only [twoHandlers, List.mem_cons, List.not_mem_nil, or_false] at ha
    rcases ha with rfl | rfl | rfl | rfl | rfl | rfl | rfl | rfl
    all_goals trivial
  exact (delivers_like_memory_iff (fun _ => false) sevenJson "ds:" twoHandlers hjson hrun).mpr
    (by decide +kernel) twoHandlers [] s (List.append_nil _).symm hrun

/-- The first of two handlers throws: it is called again with the text, and the second is not
called. A handler that was subscribed before the connection is not called at all. -/
theorem throwing_handler_stops_others :
    (∃ s, Machine.exec (step (fun calls => calls.getLast?.any (·.1 = 0)) sevenJson) (init "ds:")
        [.connect, .subscribe "k", .subscribe "k", .publish "k" (.num 7), .deliver] = some s ∧
      s.memoryCalls = [(0, .num 7), (1, .num 7)] ∧ s.calls = [(0, .num 7), (0, .str "7")] ∧
      ¬ Alike s) ∧
    ∃ s, Machine.exec (step (fun _ => false) sevenJson) (init "ds:")
        [.subscribe "k", .connect, .publish "k" (.num 7), .deliver] = some s ∧
      s.memoryCalls = [(0, .num 7)] ∧ s.calls = [] ∧ ¬ Alike s := by
  constructor
  · obtain ⟨s, hrun, hend⟩ := Machine.exists_exec_of_test
      (show (Machine.exec (step (fun calls => calls.getLast?.any (·.1 = 0)) sevenJson) (init "ds:")
        [.connect, .subscribe "k", .subscribe "k", .publish "k" (.num 7), .deliver]).map (fun s => decide
          (s.memoryCalls = [(0, .num 7), (1, .num 7)] ∧ s.calls = [(0, .num 7), (0, .str "7")])) =
            some true by decide +kernel)
    obtain ⟨hmemory, hcalls⟩ := of_decide_eq_true hend
    exact ⟨s, hrun, hmemory, hcalls, fun halike => absurd halike.calls (by rw [hcalls, hmemory]; decide)⟩
  · obtain ⟨s, hrun, hend⟩ := Machine.exists_exec_of_test
      (show (Machine.exec (step (fun _ => false) sevenJson) (init "ds:")
        [.subscribe "k", .connect, .publish "k" (.num 7), .deliver]).map (fun s => decide
          (s.memoryCalls = [(0, .num 7)] ∧ s.calls = [])) = some true by decide +kernel)
    obtain ⟨hmemory, hcalls⟩ := of_decide_eq_true hend
    exact ⟨s, hrun, hmemory, hcalls, fun halike => absurd halike.calls (by rw [hcalls, hmemory]; decide)⟩

end Delivery

end Datasole
