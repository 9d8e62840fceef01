import Datasole.Common.EventEmitter
import Datasole.Common.Json

/-!
# The backend on Redis

Subscriptions of `RedisBackend` of `server/backends/redis.ts`. Redis is asked for a channel when its
first handler is subscribed, if there is a connection by then; what it sends is parsed and emitted,
and emitted as it came if that throws. Handlers are numbered as they are subscribed.
-/

namespace Datasole

structure RedisBackend where
  keyPrefix : String
  /-- How often `connect` has completed; `subscriber` is the last connection of these. -/
  connections : ℕ
  subscriptions : List String
  emitter : EventEmitter ℕ

/-- The JSON functions on strings. -/
structure JsonStrings where
  stringify : Json → String
  parse : String → Option Json

namespace RedisBackend

def new (keyPrefix : String) : RedisBackend where
  keyPrefix := keyPrefix
  connections := 0
  subscriptions := []
  emitter := EventEmitter.empty

def connect (b : RedisBackend) : RedisBackend := { b with connections := b.connections + 1 }

def prefixed (b : RedisBackend) (key : String) : String := b.keyPrefix ++ key

/-- `channel.slice(this.keyPrefix.length)`. -/
def keyOf (b : RedisBackend) (channel : String) : String :=
  String.ofList (channel.toList.drop b.keyPrefix.toList.length)

/-- The calls made, and the channel that the subscriber connection is asked for. -/
def subscribe (throws : List (ℕ × Json) → Bool) (calls : List (ℕ × Json)) (b : RedisBackend)
    (key : String) (listener : ℕ) : RedisBackend × Option String × List (ℕ × Json) :=
  match b.emitter.on throws .str calls key listener with
  | (none, calls) => (b, none, calls)
  | (some emitter, calls) =>
    let channel := b.prefixed key
    if channel ∉ b.subscriptions ∧ 0 < b.connections then
      ({ b with emitter := emitter, subscriptions := b.subscriptions ++ [channel] }, some channel, calls)
    else ({ b with emitter := emitter }, none, calls)

def unsubscribe (throws : List (ℕ × Json) → Bool) (calls : List (ℕ × Json)) (b : RedisBackend)
    (key : String) (listener : ℕ) : RedisBackend × List (ℕ × Json) :=
  let (emitter, calls) := b.emitter.off throws .str calls key listener
  ({ b with emitter := emitter }, calls)

/-- The listener of `message` events: the calls made, and whether an exception leaves it. -/
def onMessage (throws : List (ℕ × Json) → Bool) (json : JsonStrings) (calls : List (ℕ × Json))
    (b : RedisBackend) (channel message : String) : List (ℕ × Json) × Bool :=
  let key := b.keyOf channel
  match json.parse message with
  | none => b.emitter.emit throws calls key (.str message)
  | some value =>
    let (calls, threw) := b.emitter.emit throws calls key value
    -- also what a handler throws is caught here
    if threw then b.emitter.emit throws calls key (.str message) else (calls, false)

theorem keyOf_prefixed (b : RedisBackend) (key : String) : b.keyOf (b.prefixed key) = key := by
  rw [keyOf, prefixed, String.toList_append, List.drop_left, String.ofList_toList]

variable {throws : List (ℕ × Json) → Bool} {json : JsonStrings} {calls : List (ℕ × Json)}
  {b : RedisBackend} {key channel : String} {listener : ℕ}

/-- The calls of a subscription are those of the listeners of `newListener`. -/
theorem calls_subscribe : (b.subscribe throws calls key listener).2.2 =
    (EventEmitter.callAll throws calls (b.emitter.listeners "newListener") (.str key)).1 := by
  unfold subscribe EventEmitter.on
  obtain ⟨calls, threw⟩ :=
    EventEmitter.callAll throws calls (b.emitter.listeners "newListener") (.str key)
  cases threw with
  | true => rfl
  | false =>
    simp only [Bool.false_eq_true, if_false]
    split <;> rfl

/-- Without them the handler is added, and a channel is asked for once. -/
theorem subscribe_eq (throws : List (ℕ × Json) → Bool) (calls : List (ℕ × Json)) (key : String)
    (listener : ℕ) (h : b.emitter.listeners "newListener" = []) :
    ∃ channel : Option String, b.subscribe throws calls key listener =
        ({ b with
          emitter := ⟨b.emitter.entries ++ [(key, listener)]⟩
          subscriptions := b.subscriptions ++ channel.toList }, channel, calls) ∧
      ∀ c ∈ channel, c ∉ b.subscriptions := by
  simp only [subscribe, EventEmitter.on, h, EventEmitter.callAll, Bool.false_eq_true, if_false]
  split
  · next hnew =>
    refine ⟨some (b.prefixed key), rfl, fun c hc => ?_⟩
    obtain rfl := Option.mem_some_iff.mp hc
    exact hnew.1
  · refine ⟨none, ?_, fun c hc => by cases hc⟩
    rw [Option.toList_none, List.append_nil]

theorem unsubscribe_of_not_mem (h : (key, listener) ∉ b.emitter.entries) :
    b.unsubscribe throws calls key listener = (b, calls) := by
  rw [unsubscribe, EventEmitter.off, if_neg h]

/-- Taking away a listener that is there tells `removeListener`. -/
theorem unsubscribe_of_mem (h : (key, listener) ∈ b.emitter.entries) :
    b.unsubscribe throws calls key listener =
      ({ b with emitter := ⟨b.emitter.entries.erase (key, listener)⟩ },
        (EventEmitter.callAll throws calls (EventEmitter.listeners
          ⟨b.emitter.entries.erase (key, listener)⟩ "removeListener") (.str key)).1) := by
  rw [unsubscribe, EventEmitter.off, if_pos h]

end RedisBackend

end Datasole
