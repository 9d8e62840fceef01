import Datasole.Common.Machine
import Datasole.Server.Backend.MemoryBackend
import Datasole.Shared.Types.Events

/-!
# The event bus

`EventBus` of `server/primitives/events/event-bus.ts`. The first handler of an event subscribes one
listener at the backend, which all handlers of the event share. It stays when they are removed,
until `destroy`. An emitted event takes the way through the backend to this listener, and from there
to the handlers that are registered at the time.

`emits_once_to_registered` is about every run of `on`, `off`, `emit` and `destroy` on a
`MemoryBackend`. What is registered is read from the run itself: `Registered` and `Subscribed`. The
invariant `Inv` ties the handler sets, the listeners and what `destroy` will call to it.
-/

namespace Datasole

/-- The bus. What `subscribe` returned is given by the key and the number of the listener. -/
structure EventBus (H : Type*) where
  handlers : JsMap String (List H)
  unsubscribers : List (String × ℕ)

namespace EventBus

variable {H D ρ : Type*}

def new : EventBus H := ⟨JsMap.empty, []⟩

/-- What the backend is asked for. -/
def topic (event : String) : String := "evt:" ++ event

theorem topic_inj {event event' : String} : topic event = topic event' ↔ event = event' :=
  String.append_right_inj _

/-- The handlers of an event, in the order in which they were added. -/
def handlersOf (bus : EventBus H) (event : String) : List H := (bus.handlers.get event).getD []

/-- `Set.prototype.add`. -/
def addTo [DecidableEq H] (set : List H) (handler : H) : List H :=
  if handler ∈ set then set else set ++ [handler]

/-- `on(event, handler)`. The listener that it may subscribe gets the number `listener`. -/
def on [DecidableEq H] (bus : EventBus H) (backend : MemoryBackend ρ) (listener : ℕ)
    (event : String) (handler : H) : EventBus H × MemoryBackend ρ :=
  if bus.handlers.has event then
    ({ bus with handlers := bus.handlers.set event (addTo (bus.handlersOf event) handler) }, backend)
  else
    ({ handlers := bus.handlers.set event (addTo [] handler)
       unsubscribers := bus.unsubscribers ++ [(topic event, listener)] },
      backend.subscribe (topic event) listener)

def off [DecidableEq H] (bus : EventBus H) (event : String) (handler : H) : EventBus H :=
  match bus.handlers.get event with
  | none => bus
  | some set => { bus with handlers := bus.handlers.set event (set.erase handler) }

def destroy (bus : EventBus H) (backend : MemoryBackend ρ) : EventBus H × MemoryBackend ρ :=
  (new, backend.unsubscribeAll bus.unsubscribers)

section Calls

variable (throws : List (H × EventPayload D) → Bool)

/-- A handler is called. The result is the calls made so far, and whether it threw. -/
def call (calls : List (H × EventPayload D)) (handler : H) (payload : EventPayload D) :
    List (H × EventPayload D) × Bool :=
  let calls := calls ++ [(handler, payload)]
  (calls, throws calls)

/-- The loop of the listener, in which what a handler throws is caught. -/
def callHandlers (calls : List (H × EventPayload D)) (handlers : List H)
    (payload : EventPayload D) :
    List (H × EventPayload D) :=
  handlers.foldl (fun calls handler => (call throws calls handler payload).1) calls

/-- The listener that was made for an event. -/
def listen (bus : EventBus H) (event : String) (calls : List (H × EventPayload D))
    (payload : EventPayload D) : List (H × EventPayload D) :=
  match bus.handlers.get event with
  | none => calls
  | some handlers => callHandlers throws calls handlers payload

/-- What a handler throws does not keep the others from being called. -/
theorem callHandlers_eq (calls : List (H × EventPayload D)) (handlers : List H)
    (payload : EventPayload D) :
    callHandlers throws calls handlers payload = calls ++ handlers.map (·, payload) := by
  induction handlers generalizing calls with
  | nil => exact (List.append_nil _).symm
  | cons h handlers ih =>
    rw [callHandlers, List.foldl_cons, ← callHandlers, ih, call, List.append_assoc]
    rfl

/-- The listener calls each handler of its event once, whatever they throw. -/
theorem listen_eq (bus : EventBus H) (event : String) (calls : List (H × EventPayload D))
    (payload : EventPayload D) :
    bus.listen throws event calls payload = calls ++ (bus.handlersOf event).map (·, payload) := by
  unfold listen handlersOf
  cases bus.handlers.get event with
  | none => simp
  | some handlers => exact callHandlers_eq throws calls handlers payload

end Calls

/-! ## Runs -/

/-- The bus and its backend. `listeners` has the event of each listener that was made, by its
number. -/
structure Sys (H D ρ : Type*) where
  bus : EventBus H
  backend : MemoryBackend ρ
  listeners : List String
  calls : List (H × EventPayload D)

def init : Sys H D ρ := ⟨new, MemoryBackend.new, [], []⟩

inductive Act (H D : Type*) where
  | on (event : String) (handler : H)
  | off (event : String) (handler : H)
  | emit (event : String) (data : D) (now : ℕ)
  | destroy

/-- `publish` reaches a listener: the one with this number, if the bus made it. -/
def Sys.reach (throws : List (H × EventPayload D) → Bool) (s : Sys H D ρ)
    (calls : List (H × EventPayload D)) : ℕ × EventPayload D → List (H × EventPayload D)
  | (listener, payload) =>
    (s.listeners[listener]?).elim calls fun event => s.bus.listen throws event calls payload

/-- `emit(event, data)`. -/
def Sys.emit (throws : List (H × EventPayload D) → Bool) (s : Sys H D ρ) (event : String) (data : D)
    (now : ℕ) : Sys H D ρ :=
  let payload : EventPayload D := { event := event, data := data, timestamp := now }
  { s with calls := (s.backend.publish [] (topic event) payload).foldl (s.reach throws) s.calls }

/-- The handler was added to the event, and since then neither removed from it nor destroyed. -/
def Registered (acts : List (Act H D)) (event : String) (handler : H) : Prop :=
  Machine.Since (· = .on event handler) (fun a => a = .off event handler ∨ a = .destroy) acts

/-- Some handler was added to the event, and the bus has not been destroyed since. -/
def Subscribed (acts : List (Act H D)) (event : String) : Prop :=
  Machine.Since (fun a => ∃ handler, a = .on event handler) (· = .destroy) acts

/-- Whether a handler is registered after one more call. -/
theorem registered_concat {acts : List (Act H D)} {a : Act H D} {event : String} {handler : H} :
    Registered (acts ++ [a]) event handler ↔
      a = .on event handler ∨
        Registered acts event handler ∧ a ≠ .off event handler ∧ a ≠ .destroy :=
  Machine.since_concat.trans (or_congr_right (and_congr_right fun _ => not_or))

/-- Whether an event is subscribed to after one more call. -/
theorem subscribed_concat {acts : List (Act H D)} {a : Act H D} {event : String} :
    Subscribed (acts ++ [a]) event ↔
      (∃ handler, a = .on event handler) ∨ Subscribed acts event ∧ a ≠ .destroy :=
  Machine.since_concat

variable [DecidableEq H]

/-- `on(event, handler)`; a listener that is made gets the next number. -/
def Sys.on (s : Sys H D ρ) (event : String) (handler : H) : Sys H D ρ :=
  let (bus, backend) := s.bus.on s.backend s.listeners.length event handler
  { s with bus := bus, backend := backend
           listeners := if s.bus.handlers.has event then s.listeners else s.listeners ++ [event] }

def step (throws : List (H × EventPayload D) → Bool) (s : Sys H D ρ) : Act H D → Sys H D ρ
  | .on event handler => s.on event handler
  | .off event handler => { s with bus := s.bus.off event handler }
  | .emit event data now => s.emit throws event data now
  | .destroy =>
    let (bus, backend) := s.bus.destroy s.backend
    { s with bus := bus, backend := backend }

def run (throws : List (H × EventPayload D) → Bool) (acts : List (Act H D)) : Sys H D ρ :=
  acts.foldl (step throws) init

/-! ## What every call keeps -/

/-- An event with handlers, or that once had some, has one listener, which `destroy` will remove; no
other key has any. -/
structure Wired (s : Sys H D ρ) : Prop where
  listening : ∀ event, s.bus.handlers.has event = true →
    ∃ n, s.backend.listenersOf (topic event) = [n] ∧ s.listeners[n]? = some event ∧
      (topic event, n) ∈ s.bus.unsubscribers
  silent : ∀ key, (∀ event, key = topic event → ¬ s.bus.handlers.has event = true) →
    s.backend.listenersOf key = []

/-- What the bus and the backend hold after these calls. -/
structure Inv (acts : List (Act H D)) (s : Sys H D ρ) : Prop where
  has_iff : ∀ event, s.bus.handlers.has event = true ↔ Subscribed acts event
  nodup : ∀ event, (s.bus.handlersOf event).Nodup
  mem_iff : ∀ event handler, handler ∈ s.bus.handlersOf event ↔ Registered acts event handler
  wired : Wired s

omit [DecidableEq H] in
/-- A new bus has no handlers, and none are due. -/
theorem inv_init : Inv [] (init : Sys H D ρ) where
  has_iff _ := iff_of_false Bool.false_ne_true Machine.not_since_nil
  nodup _ := List.nodup_nil
  mem_iff _ _ := iff_of_false List.not_mem_nil Machine.not_since_nil
  wired := ⟨nofun, fun _ _ => rfl⟩

/-! ### `on` -/

/-- A set has what is added to it. -/
theorem mem_addTo {set : List H} {handler handler' : H} :
    handler' ∈ addTo set handler ↔ handler' = handler ∨ handler' ∈ set := by
  unfold addTo
  split
  · next h => exact ⟨.inr, fun h' => h'.elim (fun heq => heq ▸ h) id⟩
  · rw [List.mem_append, List.mem_singleton, or_comm]

/-- A set has each handler once. -/
theorem nodup_addTo {set : List H} (h : set.Nodup) (handler : H) : (addTo set handler).Nodup := by
  unfold addTo
  split
  · exact h
  · next hmem =>
    refine List.nodup_append.mpr ⟨h, List.nodup_singleton handler, fun x hx y hy => ?_⟩
    rw [List.mem_singleton.mp hy]
    exact ne_of_mem_of_not_mem hx hmem

/-- Whether or not the event has a set already, the handler is added to it. -/
theorem get_on (bus : EventBus H) (backend : MemoryBackend ρ) (listener : ℕ) (event : String)
    (handler : H) (event' : String) :
    (bus.on backend listener event handler).1.handlers.get event' =
      if event' = event then some (addTo (bus.handlersOf event) handler)
      else bus.handlers.get event' := by
  unfold on
  split
  · exact JsMap.get_set ..
  · next hhas =>
    have hnil : bus.handlersOf event = [] := by
      rw [handlersOf, Option.not_isSome_iff_eq_none.mp hhas, Option.getD_none]
    rw [hnil]
    exact JsMap.get_set ..

/-- A set is replaced or added to, the others stay. -/
theorem has_on (bus : EventBus H) (backend : MemoryBackend ρ) (listener : ℕ) (event : String)
    (handler : H) (event' : String) :
    (bus.on backend listener event handler).1.handlers.has event' = true ↔
      event' = event ∨ bus.handlers.has event' = true := by
  rw [JsMap.has, get_on]
  by_cases heq : event' = event
  · simp [heq]
  · simp [heq, JsMap.has]

/-- The first handler of an event brings its listener; a later one finds it there. -/
theorem Wired.on {s : Sys H D ρ} (h : Wired s) (event : String) (handler : H) :
    Wired (s.on event handler) := by
  have hhas (event' : String) : (s.on event handler).bus.handlers.has event' = true ↔
      event' = event ∨ s.bus.handlers.has event' = true :=
    has_on ..
  by_cases hevent : s.bus.handlers.has event = true
  · -- nothing is subscribed
    have hbackend : (s.on event handler).backend = s.backend := by
      simp only [Sys.on, EventBus.on, if_pos hevent]
    have hunsub : (s.on event handler).bus.unsubscribers = s.bus.unsubscribers := by
      simp only [Sys.on, EventBus.on, if_pos hevent]
    have hlisteners : (s.on event handler).listeners = s.listeners := by
      simp only [Sys.on, if_pos hevent]
    refine ⟨fun event' h' => ?_, fun key hkey => ?_⟩
    · rw [hbackend, hunsub, hlisteners]
      exact h.listening event' (((hhas event').mp h').elim (fun heq => heq ▸ hevent) id)
    · rw [hbackend]
      exact h.silent key fun event' heq h' => hkey event' heq ((hhas event').mpr (.inr h'))
  · -- the event gets its listener, which is the last
    have hbackend : (s.on event handler).backend =
        s.backend.subscribe (topic event) s.listeners.length := by
      simp only [Sys.on, EventBus.on, if_neg hevent]
    have hunsub : (s.on event handler).bus.unsubscribers =
        s.bus.unsubscribers ++ [(topic event, s.listeners.length)] := by
      simp only [Sys.on, EventBus.on, if_neg hevent]
    have hlisteners : (s.on event handler).listeners = s.listeners ++ [event] := by
      simp only [Sys.on, if_neg hevent]
    refine ⟨fun event' h' => ?_, fun key hkey => ?_⟩
    · rw [hbackend, hunsub, hlisteners, MemoryBackend.listenersOf_subscribe]
      by_cases heq : event' = event
      · subst heq
        -- without handlers there was no listener
        have hnil : s.backend.listenersOf (topic event') = [] :=
          h.silent _ fun event heq => topic_inj.mp heq ▸ hevent
        exact ⟨s.listeners.length, by rw [if_pos rfl, hnil, List.nil_append],
          List.getElem?_concat_length, List.mem_append_right _ (List.mem_singleton_self _)⟩
      · obtain ⟨n, hn, hlistener, hmem⟩ :=
          h.listening event' (((hhas event').mp h').resolve_left heq)
        -- the listener of another event has kept its number
        have hlt := (List.getElem?_eq_some_iff.mp hlistener).1
        refine ⟨n, ?_, (List.getElem?_append_left hlt).trans hlistener, List.mem_append_left _ hmem⟩
        rw [if_neg fun htopic => heq (topic_inj.mp htopic), hn]
    · have hkey' : key ≠ topic event := fun heq =>
        hkey event heq ((hhas event).mpr (.inl rfl))
      rw [hbackend, MemoryBackend.listenersOf_subscribe, if_neg hkey']
      exact h.silent key fun event' heq h' => hkey event' heq ((hhas event').mpr (.inr h'))

/-- Adding a handler keeps the invariant. -/
theorem Inv.on {acts : List (Act H D)} {s : Sys H D ρ} (h : Inv acts s) (event : String)
    (handler : H) : Inv (acts ++ [.on event handler]) (s.on event handler) := by
  have hget (event' : String) : (s.on event handler).bus.handlers.get event' =
      if event' = event then some (addTo (s.bus.handlersOf event) handler)
      else s.bus.handlers.get event' :=
    get_on ..
  refine ⟨fun event' => ?_, fun event' => ?_, fun event' handler' => ?_, h.wired.on event handler⟩
  · rw [JsMap.has, hget, subscribed_concat]
    by_cases heq : event' = event
    · subst heq
      exact iff_of_true (by rw [if_pos rfl]; rfl) (.inl ⟨handler, rfl⟩)
    · rw [if_neg heq, ← JsMap.has, h.has_iff]
      simp [Ne.symm heq]
  · rw [handlersOf, hget]
    split
    · exact nodup_addTo (h.nodup event) handler
    · exact h.nodup event'
  · rw [handlersOf, hget, registered_concat]
    by_cases heq : event' = event
    · subst heq
      rw [if_pos rfl, Option.getD_some, mem_addTo, h.mem_iff]
      simp [eq_comm]
    · rw [if_neg heq, ← handlersOf, h.mem_iff]
      simp [Ne.symm heq]

/-! ### `off`, `destroy` and `emit` -/

/-- A set loses a handler, and stays. -/
theorem get_off (bus : EventBus H) (event : String) (handler : H) (event' : String) :
    (bus.off event handler).handlers.get event' =
      if event' = event then (bus.handlers.get event').map (·.erase handler)
      else bus.handlers.get event' := by
  cases hget : bus.handlers.get event with
  | none =>
    simp only [off, hget]
    split
    · next heq => rw [heq, hget, Option.map_none]
    · rfl
  | some set =>
    simp only [off, hget, JsMap.get_set]
    split
    · next heq => rw [heq, hget, Option.map_some]
    · rfl

/-- A set stays under its event when its last handler goes. -/
theorem has_off (bus : EventBus H) (event : String) (handler : H) (event' : String) :
    (bus.off event handler).handlers.has event' = bus.handlers.has event' := by
  rw [JsMap.has, get_off]
  split
  · rw [Option.isSome_map, JsMap.has]
  · rfl

/-- The handler is missing from the set of the event, and no other set is touched. -/
theorem handlersOf_off (bus : EventBus H) (event : String) (handler : H) (event' : String) :
    (bus.off event handler).handlersOf event' =
      if event' = event then (bus.handlersOf event').erase handler else bus.handlersOf event' := by
  rw [handlersOf, get_off, handlersOf]
  split
  · cases bus.handlers.get event' <;> rfl
  · rfl

theorem off_unsubscribers (bus : EventBus H) (event : String) (handler : H) :
    (bus.off event handler).unsubscribers = bus.unsubscribers := by
  unfold off
  split <;> rfl

/-- Removing a handler keeps the invariant. -/
theorem Inv.off {acts : List (Act H D)} {s : Sys H D ρ} (h : Inv acts s) (event : String)
    (handler : H) :
    Inv (acts ++ [.off event handler]) { s with bus := s.bus.off event handler } where
  has_iff event' := by
    rw [has_off, h.has_iff, subscribed_concat]
    simp
  nodup event' := by
    rw [handlersOf_off]
    split
    · exact (h.nodup event').erase handler
    · exact h.nodup event'
  mem_iff event' handler' := by
    rw [handlersOf_off, registered_concat]
    by_cases heq : event' = event
    · subst heq
      rw [if_pos rfl, (h.nodup event').mem_erase_iff, h.mem_iff, and_comm]
      simp [eq_comm]
    · rw [if_neg heq, h.mem_iff]
      simp [Ne.symm heq]
  wired := by
    refine ⟨fun event' h' => ?_, fun key hkey => ?_⟩
    · rw [has_off] at h'
      rw [off_unsubscribers]
      exact h.wired.listening event' h'
    · exact h.wired.silent key fun event' heq h' =>
        hkey event' heq ((has_off ..).trans h')

omit [DecidableEq H] in
/-- After `destroy` nothing is left, neither in the bus nor at the backend. -/
theorem Inv.destroy {acts : List (Act H D)} {s : Sys H D ρ} (h : Inv acts s) :
    Inv (acts ++ [.destroy])
      { s with bus := new, backend := s.backend.unsubscribeAll s.bus.unsubscribers } where
  has_iff event := by
    rw [subscribed_concat]
    simp [new, JsMap.has, JsMap.get_empty]
  nodup _ := List.nodup_nil
  mem_iff event handler := by
    rw [registered_concat]
    simp [new, handlersOf, JsMap.get_empty]
  wired := by
    refine ⟨fun event hhas => (by cases hhas), fun key _ => ?_⟩
    rw [MemoryBackend.listenersOf_unsubscribeAll]
    by_cases hkey : ∃ event, key = topic event ∧ s.bus.handlers.has event = true
    · obtain ⟨event, rfl, hhas⟩ := hkey
      obtain ⟨n, hn, -, hmem⟩ := h.wired.listening event hhas
      have hmem' : n ∈ (s.bus.unsubscribers.filter (·.1 = topic event)).map Prod.snd :=
        List.mem_map.mpr ⟨_, List.mem_filter.mpr ⟨hmem, decide_eq_true rfl⟩, rfl⟩
      rw [hn]
      refine List.eq_nil_iff_forall_not_mem.mpr fun m hm => ?_
      obtain ⟨hmn, hnot⟩ := (List.nodup_singleton n).mem_sdiff_iff.mp hm
      rw [List.mem_singleton.mp hmn] at hnot
      exact hnot hmem'
    · rw [h.wired.silent key fun event heq hhas => hkey ⟨event, heq, hhas⟩,
        List.nil_diff]

omit [DecidableEq H] in
/-- An emitted event reaches each handler that is registered for it once. -/
theorem Wired.emit {throws : List (H × EventPayload D) → Bool} {s : Sys H D ρ} (h : Wired s)
    (event : String) (data : D) (now : ℕ) :
    s.emit throws event data now =
      { s with calls := s.calls ++ (s.bus.handlersOf event).map (·, ⟨event, data, now⟩) } := by
  by_cases hhas : s.bus.handlers.has event = true
  · obtain ⟨n, hn, hlistener, -⟩ := h.listening event hhas
    simp only [Sys.emit, MemoryBackend.publish, hn, List.nil_append, List.map_singleton,
      List.foldl_cons, List.foldl_nil, Sys.reach, hlistener, Option.elim_some, listen_eq]
  · have hnil : s.backend.listenersOf (topic event) = [] :=
      h.silent _ fun event' heq => topic_inj.mp heq ▸ hhas
    have hhandlers : s.bus.handlersOf event = [] := by
      rw [handlersOf, Option.not_isSome_iff_eq_none.mp hhas, Option.getD_none]
    simp only [Sys.emit, MemoryBackend.publish, hnil, hhandlers, List.map_nil, List.append_nil,
      List.foldl_nil]

omit [DecidableEq H] in
/-- Emitting an event calls handlers and changes neither the bus nor the backend's listeners. -/
theorem Inv.emit {throws : List (H × EventPayload D) → Bool} {acts : List (Act H D)}
    {s : Sys H D ρ} (h : Inv acts s) (event : String) (data : D) (now : ℕ) :
    Inv (acts ++ [.emit event data now]) (s.emit throws event data now) := by
  rw [h.wired.emit]
  exact {
    has_iff := fun event' => by rw [subscribed_concat]; simpa using h.has_iff event'
    nodup := h.nodup
    mem_iff := fun event' handler => by rw [registered_concat]; simpa using h.mem_iff event' handler
    wired := ⟨h.wired.listening, h.wired.silent⟩ }

/-! ## Every run -/

/-- Every call keeps the invariant. -/
theorem Inv.step {throws : List (H × EventPayload D) → Bool} {acts : List (Act H D)}
    {s : Sys H D ρ} (h : Inv acts s) (a : Act H D) : Inv (acts ++ [a]) (step throws s a) := by
  cases a with
  | on event handler => exact h.on event handler
  | off event handler => exact h.off event handler
  | emit event data now => exact h.emit event data now
  | destroy => exact h.destroy

/-- Every run of calls ends in a bus as the invariant has it. -/
theorem inv_run (throws : List (H × EventPayload D) → Bool) (acts : List (Act H D)) :
    Inv acts (run throws acts : Sys H D ρ) := by
  induction acts using List.reverseRecOn with
  | nil => exact inv_init
  | append_singleton acts a ih =>
    rw [run, List.foldl_append]
    exact ih.step a

/-- After any calls: an emitted event is given, once each and with its data, to exactly the handlers
that are registered for it, and the backend has one listener for each event that handlers were added
to since the last `destroy`, and no other. -/
theorem emits_once_to_registered (throws : List (H × EventPayload D) → Bool)
    (acts : List (Act H D)) :
    let s : Sys H D ρ := run throws acts
    (∀ event data now, ∃ handlers : List H, handlers.Nodup ∧
      (∀ handler, handler ∈ handlers ↔ Registered acts event handler) ∧
      (step throws s (.emit event data now)).calls =
        s.calls ++ handlers.map (·, { event := event, data := data, timestamp := now })) ∧
    (∀ key, (s.backend.listenersOf key).length ≤ 1 ∧
      (s.backend.listenersOf key ≠ [] ↔ ∃ event, key = topic event ∧ Subscribed acts event)) := by
  intro s
  have hinv : Inv acts s := inv_run throws acts
  refine ⟨fun event data now => ?_, fun key => ?_⟩
  · refine ⟨s.bus.handlersOf event, hinv.nodup event, hinv.mem_iff event, ?_⟩
    exact congrArg Sys.calls (hinv.wired.emit event data now)
  · by_cases hkey : ∃ event, key = topic event ∧ s.bus.handlers.has event = true
    · obtain ⟨event, rfl, hhas⟩ := hkey
      obtain ⟨n, hn, -⟩ := hinv.wired.listening event hhas
      rw [hn]
      exact ⟨le_refl 1, iff_of_true (List.cons_ne_nil n []) ⟨event, rfl, (hinv.has_iff event).mp hhas⟩⟩
    · have hnil : s.backend.listenersOf key = [] :=
        hinv.wired.silent key fun event heq hhas => hkey ⟨event, heq, hhas⟩
      rw [hnil]
      refine ⟨Nat.zero_le 1, iff_of_false (fun hne => hne rfl) ?_⟩
      rintro ⟨event, heq, hsub⟩
      exact hkey ⟨event, heq, (hinv.has_iff event).mpr hsub⟩

end EventBus

end Datasole
