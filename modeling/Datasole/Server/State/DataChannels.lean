import Datasole.Server.Crdt.CrdtManager
import Datasole.Server.DataFlow.ChannelManager
import Datasole.Server.Events.EventBus
import Datasole.Server.Sync.SyncChannel

/-!
# What a data channel leaves behind

`ServerLiveState` of `server/primitives/live-state/server-live-state.ts` with what its channels are
made of: the `ChannelManager`, the sync channels with their subscriptions at a `MemoryBackend`, the
`EventBus` on the same backend, and the `CrdtManager`, which has its own list of what it subscribed
to.

`close` takes a channel out of the registry, and nothing else: the sync channel stays in the map and
subscribed, and the handler stays on the bus. `held` counts the two for a key. A channel of any
pattern but `rpc` leaves one more behind (`Fresh.held_cycles`), so that `releases_iff` is exact:
created and closed any number of times, in whatever reachable state, the channels of a key leave
everything as it was if they are all `rpc`, and only then.
-/

namespace Datasole

namespace DataChannels

open ChannelManager (depsCalls syncOptions flushOptions)

/-- The handlers on the bus: those of users, and the `() => {}` of event channels, each of which is
a new one. -/
inductive Handler where
  | user (n : ℕ)
  | noop (n : ℕ)
deriving DecidableEq

/-- The listeners at the backend: the handler of a sync channel, and the one of the bus for an
event. -/
inductive Listener where
  | sync (i : ℕ)
  | event (event : String)
deriving DecidableEq

/-- A `SyncChannel` object: whether the listener that broadcasts is still on it, and the backend
listener that `backendUnsub` removes. -/
structure SyncObject where
  channel : SyncChannel
  broadcasting : Bool
  backendUnsub : Option ℕ

/-- `listeners` and `objects` are numbered as they are made; `syncChannels` has the number of the
object that is stored under a key. -/
structure Sys (V ρ : Type*) where
  manager : ChannelManager
  backend : MemoryBackend ρ
  listeners : List Listener
  objects : List SyncObject
  syncChannels : JsMap String ℕ
  bus : EventBus Handler
  /-- How many event channels have been created. -/
  noops : ℕ
  crdt : CrdtManager V
  /-- The calls of `broadcastStatePatch`. -/
  broadcasts : List (String × List StatePatch)

variable {V ρ : Type*}

def init (maxKeys : ℕ) : Sys V ρ where
  manager := .new
  backend := .new
  listeners := []
  objects := []
  syncChannels := .empty
  bus := .new
  noops := 0
  crdt := .new maxKeys
  broadcasts := []

/-! ## Calls -/

namespace Sys

/-- A call of the `i`-th sync channel gave `r`. Its batches go to the listener that broadcasts. -/
def handOn (s : Sys V ρ) (i : ℕ) (object : SyncObject)
    (r : SyncChannel × List (List StatePatch)) : Sys V ρ :=
  { s with
    objects := s.objects.set i { object with channel := r.1 }
    broadcasts := s.broadcasts ++ if object.broadcasting then r.2.map (object.channel.key, ·) else [] }

/-- `destroy()` of the `i`-th sync channel. -/
def destroy (s : Sys V ρ) (i : ℕ) (object : SyncObject) : Sys V ρ :=
  { s.handOn i object object.channel.destroy with
    objects := s.objects.set i
      { channel := object.channel.destroy.1, broadcasting := false, backendUnsub := none }
    backend := object.backendUnsub.elim s.backend (s.backend.unsubscribe object.channel.topic) }

def createSyncChannel (s : Sys V ρ) (config : SyncChannelConfig V) : Sys V ρ :=
  let channel := SyncChannel.new config.key config.flush
  { s with
    backend := s.backend.subscribe channel.topic s.listeners.length
    listeners := s.listeners ++ [.sync s.objects.length]
    objects := s.objects ++
      [{ channel := channel, broadcasting := true, backendUnsub := some s.listeners.length }]
    syncChannels := s.syncChannels.set config.key s.objects.length }

/-- It is atomic here; a channel's own `destroy` may also come between the awaits of the loop. -/
def destroySyncChannels (s : Sys V ρ) : Sys V ρ :=
  { s.syncChannels.values.foldl (fun s i => s.objects[i]?.elim s (s.destroy i)) s with
    syncChannels := JsMap.empty }

/-- `events.on(event, handler)`. -/
def on (s : Sys V ρ) (event : String) (handler : Handler) : Sys V ρ :=
  let (bus, backend) := s.bus.on s.backend s.listeners.length event handler
  { s with
    bus := bus
    backend := backend
    listeners := if s.bus.handlers.has event then s.listeners else s.listeners ++ [.event event] }

/-- The published patches reach a listener. Those of the bus change nothing here. -/
def hear (s : Sys V ρ) : ℕ × List StatePatch → Sys V ρ
  | (listener, patches) =>
    match s.listeners[listener]? with
    | some (.sync i) =>
      s.objects[i]?.elim s fun object => s.handOn i object (object.channel.onPublish patches)
    | some (.event _) | none => s

/-- Patches are published under a key of the backend, by this instance or another one. -/
def publish (s : Sys V ρ) (key : String) (patches : List StatePatch) : Sys V ρ :=
  (s.backend.publish [] key patches).foldl hear s

/-- `ServerLiveState.setState`, when its `StateManager` has stored the value and published the
patches. -/
def share (s : Sys V ρ) (key : String) (patches : List StatePatch) : Sys V ρ :=
  if patches.isEmpty then s
  else
    match s.syncChannels.get key with
    | none => { s with broadcasts := s.broadcasts ++ [(key, patches)] }
    | some i => s.objects[i]?.elim s fun object => s.handOn i object (object.channel.enqueue patches)

/-- `close()` of the channel with a handle. -/
def close (s : Sys V ρ) (channel : ℕ) : Sys V ρ := { s with manager := s.manager.close channel }

section Create

variable [Zero V]

/-- The types that `registerByType` has a class for. -/
def crdtType : String → Option CrdtType
  | "pn-counter" => some .pnCounter
  | "lww-register" => some .lwwRegister
  | "lww-map" => some .lwwMap
  | _ => none

/-- `channelDeps` of the constructor. -/
def channelDeps (s : Sys V ρ) : DepsCall V → Sys V ρ
  | .createSyncChannel config => s.createSyncChannel config
  | .registerEventHandler event => { s.on event (.noop s.noops) with noops := s.noops + 1 }
  | .registerCrdt key type =>
    { s with crdt := (crdtType type).elim s.crdt (s.crdt.registerByType key) }

/-- `createDataChannel(config)`, which gives the handle of the channel. -/
def createDataChannel (s : Sys V ρ) (config : ChannelConfig V) : Sys V ρ × ℕ :=
  match s.manager.channels.get config.key with
  | some channel => (s, channel)
  | none =>
    let s := (depsCalls config).foldl channelDeps s
    let (manager, channel) := s.manager.addChannel config.pattern config.key
    ({ s with manager := manager }, channel)

/-- A data channel is created and closed. -/
def cycle (s : Sys V ρ) (config : ChannelConfig V) : Sys V ρ :=
  let (s, channel) := s.createDataChannel config
  s.close channel

/-- One after the other. -/
def cycles (s : Sys V ρ) (configs : List (ChannelConfig V)) : Sys V ρ := configs.foldl cycle s

end Create

end Sys

inductive Act (V : Type*) where
  | createDataChannel (config : ChannelConfig V)
  | close (channel : ℕ)
  | closeAllDataChannels
  | createSyncChannel (config : SyncChannelConfig V)
  | destroySyncChannels
  /-- The calls of a sync channel that `createSyncChannel` or `getSyncChannel` gave. -/
  | enqueue (i : ℕ) (patches : List StatePatch)
  | flush (i : ℕ)
  | destroy (i : ℕ)
  /-- Its timer fires. -/
  | fire (i : ℕ)
  | on (event : String) (handler : ℕ)
  | off (event : String) (handler : ℕ)
  | destroyEvents
  | publish (key : String) (patches : List StatePatch)
  | share (key : String) (patches : List StatePatch)
  | applyCrdt (connectionId : String) (op : CrdtOperation V) (now : Timestamp)
  | destroyCrdt

section Step

variable [Zero V] [One V] [Add V] [Sub V]

def step (s : Sys V ρ) : Act V → Option (Sys V ρ)
  | .createDataChannel config => some (s.createDataChannel config).1
  | .close channel => if channel < s.manager.handles.length then some (s.close channel) else none
  | .closeAllDataChannels => some { s with manager := s.manager.closeAll }
  | .createSyncChannel config => some (s.createSyncChannel config)
  | .destroySyncChannels => some s.destroySyncChannels
  | .enqueue i patches =>
    s.objects[i]?.map fun object => s.handOn i object (object.channel.enqueue patches)
  | .flush i => s.objects[i]?.map fun object => s.handOn i object object.channel.flush
  | .destroy i => s.objects[i]?.map (s.destroy i)
  | .fire i => s.objects[i]?.bind fun object => object.channel.fire.map (s.handOn i object)
  | .on event handler => some (s.on event (.user handler))
  | .off event handler => some { s with bus := s.bus.off event (.user handler) }
  | .destroyEvents =>
    let (bus, backend) := s.bus.destroy s.backend
    some { s with bus := bus, backend := backend }
  | .publish key patches => some (s.publish key patches)
  | .share key patches => some (s.share key patches)
  | .applyCrdt connectionId op now => some { s with crdt := (s.crdt.apply connectionId op now).1 }
  | .destroyCrdt => some { s with crdt := s.crdt.destroy }

end Step

/-! ## What closing is to undo -/

/-- The sync channels, the handlers and the subscriptions are as they were. -/
structure Released (s t : Sys V ρ) : Prop where
  syncChannels : t.syncChannels = s.syncChannels
  handlers : t.bus.handlers = s.bus.handlers
  subscriptions : t.backend.listeners = s.backend.listeners

/-- What a key holds: the subscriptions of its sync channels, and the handlers of its event. -/
def Sys.held (s : Sys V ρ) (key : String) : ℕ :=
  (s.backend.listenersOf ("sync:" ++ key)).length + (s.bus.handlersOf key).length

theorem Released.held {s t : Sys V ρ} (h : Released s t) (key : String) :
    t.held key = s.held key := by
  rw [Sys.held, Sys.held, MemoryBackend.listenersOf, MemoryBackend.listenersOf, EventBus.handlersOf,
    EventBus.handlersOf, h.subscriptions, h.handlers]

section Frees

variable [Zero V] [One V] [Add V] [Sub V]

/-- Whatever is called next is broadcast as before. A `close` is left out, as the two runs number
their channels differently. -/
def SameBroadcasts (s t : Sys V ρ) : Prop :=
  ∀ later : List (Act V), (∀ channel, .close channel ∉ later) →
    (Machine.exec step t later).map Sys.broadcasts = (Machine.exec step s later).map Sys.broadcasts

omit [One V] [Add V] [Sub V] in
/-- If nothing listened for patches of the key before, a data channel that hands them on at once
broadcasts them once, whether they are published for it or come from `setState`. -/
def PatchesOnce (key : String) (s t : Sys V ρ) : Prop :=
  s.backend.listenersOf ("sync:" ++ key) = [] →
    ∀ (config : ChannelConfig V) (options : SyncChannelOptions) (patches : List StatePatch),
      config.key = key → syncOptions config.toLiveStateConfig = some options →
      options.flushStrategy = .immediate → patches ≠ [] →
      ((t.createDataChannel config).1.publish ("sync:" ++ key) patches).broadcasts =
          t.broadcasts ++ [(key, patches)] ∧
        ((t.createDataChannel config).1.share key patches).broadcasts = t.broadcasts ++ [(key, patches)]

/-- What creating acquired between `s` and `t` has been released, and can not be told from what is
broadcast later. -/
structure Releases (key : String) (s t : Sys V ρ) : Prop where
  released : Released s t
  sameBroadcasts : SameBroadcasts s t
  patchesOnce : PatchesOnce key s t

end Frees

/-! ## The registry -/

section Registry

variable [Zero V] {s : Sys V ρ} {config : ChannelConfig V}

theorem manager_channelDeps (s : Sys V ρ) (call : DepsCall V) :
    (s.channelDeps call).manager = s.manager := by
  cases call <;> rfl

/-- A key without a channel: what the pattern needs is acquired, and the key gets the next
handle. -/
theorem createDataChannel_none (hkey : s.manager.channels.get config.key = none) :
    s.createDataChannel config =
      ({ (depsCalls config).foldl Sys.channelDeps s with
          manager := (s.manager.addChannel config.pattern config.key).1 }, s.manager.handles.length) := by
  have hmanager : ((depsCalls config).foldl Sys.channelDeps s).manager = s.manager :=
    List.foldlRecOn (motive := fun t : Sys V ρ => t.manager = s.manager) _ _ rfl
      fun t ht call _ => (manager_channelDeps t call).trans ht
  simp only [Sys.createDataChannel, hkey, hmanager]
  rfl

/-- The registry changes as `ChannelManager.create` says, whose calls do not throw. -/
theorem create_eq_ok (s : Sys V ρ) (config : ChannelConfig V) :
    s.manager.create (fun _ => .ok ()) config =
      .ok ((s.createDataChannel config).1.manager, (s.createDataChannel config).2) := by
  have hcalls (calls : List (DepsCall V)) :
      calls.forM (fun _ => Except.ok ()) = (Except.ok () : Except String Unit) := by
    induction calls with
    | nil => rfl
    | cons call calls ih => exact ih
  rw [ChannelManager.create_eq]
  cases hkey : s.manager.channels.get config.key with
  | some channel => simp only [Sys.createDataChannel, hkey]
  | none =>
    rw [createDataChannel_none hkey, hcalls]
    rfl

/-- A channel that is closed right away leaves its key, and every other, as it was. -/
theorem get_cycle (hkey : s.manager.channels.get config.key = none) (key : String) :
    (s.cycle config).manager.channels.get key = s.manager.channels.get key := by
  have hlast : (s.manager.addChannel config.pattern config.key).1.handles[s.manager.handles.length]? =
      some { pattern := config.pattern, key := config.key, active := true } :=
    List.getElem?_concat_length
  rw [Sys.cycle, createDataChannel_none hkey]
  simp only [Sys.close, ChannelManager.get_close hlast]
  split
  · next heq => rw [heq, hkey]
  · next hne => exact JsMap.get_set_ne _ hne _

end Registry

/-! ## What a channel acquires -/

/-- No event listens where a sync channel does. -/
theorem sync_ne_topic (key event : String) : "sync:" ++ key ≠ EventBus.topic event := by
  intro h
  have hlist := congrArg String.toList h
  rw [EventBus.topic, String.toList_append, String.toList_append] at hlist
  cases hlist

/-- The handlers of event channels on the bus are among those that were made. -/
def Fresh (s : Sys V ρ) : Prop := ∀ event n, .noop n ∈ s.bus.handlersOf event → n < s.noops

/-- A sync channel subscribes one more listener under its key. -/
theorem listenersOf_createSyncChannel (s : Sys V ρ) (config : SyncChannelConfig V) :
    (s.createSyncChannel config).backend.listenersOf ("sync:" ++ config.key) =
      s.backend.listenersOf ("sync:" ++ config.key) ++ [s.listeners.length] :=
  (MemoryBackend.listenersOf_subscribe ..).trans (if_pos rfl)

/-- A sync channel holds its key once more. -/
theorem held_createSyncChannel (s : Sys V ρ) (config : SyncChannelConfig V) :
    (s.createSyncChannel config).held config.key = s.held config.key + 1 := by
  rw [Sys.held, listenersOf_createSyncChannel, List.length_append, List.length_singleton, Sys.held]
  exact Nat.add_right_comm ..

/-- The bus subscribes to events only. -/
theorem listenersOf_on (s : Sys V ρ) (event : String) (handler : Handler) (key : String) :
    (s.on event handler).backend.listenersOf ("sync:" ++ key) =
      s.backend.listenersOf ("sync:" ++ key) := by
  simp only [Sys.on, EventBus.on]
  split
  · rfl
  · rw [MemoryBackend.listenersOf_subscribe, if_neg (sync_ne_topic key event)]

/-- A handler is added to its event, and no other. -/
theorem handlersOf_on (s : Sys V ρ) (event : String) (handler : Handler) (event' : String) :
    (s.on event handler).bus.handlersOf event' =
      if event' = event then EventBus.addTo (s.bus.handlersOf event) handler
      else s.bus.handlersOf event' := by
  have hget : (s.on event handler).bus.handlers.get event' =
      if event' = event then some (EventBus.addTo (s.bus.handlersOf event) handler)
      else s.bus.handlers.get event' := EventBus.get_on ..
  rw [EventBus.handlersOf, hget]
  split <;> rfl

section Acquire

variable [Zero V] {s : Sys V ρ}

/-- A new handler is not on the bus yet, and so adds to the event's handlers. -/
theorem Fresh.held_register (h : Fresh s) (event : String) :
    (s.channelDeps (.registerEventHandler event)).held event = s.held event + 1 := by
  have hnew : Handler.noop s.noops ∉ s.bus.handlersOf event := fun hmem =>
    Nat.lt_irrefl _ (h event s.noops hmem)
  have hhandlers := handlersOf_on s event (.noop s.noops) event
  rw [if_pos rfl, EventBus.addTo, if_neg hnew] at hhandlers
  have hlisteners := listenersOf_on s event (.noop s.noops) event
  change ((s.on event _).backend.listenersOf _).length + ((s.on event _).bus.handlersOf event).length = _
  rw [hlisteners, hhandlers, List.length_append, List.length_singleton, Sys.held]
  omega

/-- A pattern acquires something, unless it is `rpc`. -/
theorem Fresh.held_calls (h : Fresh s) (config : ChannelConfig V) :
    ((depsCalls config).foldl Sys.channelDeps s).held config.key =
      s.held config.key + if config.pattern = .rpc then 0 else 1 := by
  cases hpattern : config.pattern with
  | rpc => simp only [depsCalls, hpattern, List.foldl_nil, if_true, Nat.add_zero]
  | serverEvent | clientEvent | bidirectionalEvent =>
    simp only [depsCalls, hpattern]
    exact h.held_register config.key
  | serverLiveState | clientLiveState =>
    simp only [depsCalls, hpattern]
    exact held_createSyncChannel s _
  | bidirectionalCrdt =>
    -- the registry of CRDTs is not counted
    simp only [depsCalls, hpattern]
    exact held_createSyncChannel (s.channelDeps (.registerCrdt config.key "lww-map")) _

/-- A new event channel takes a new handler. -/
theorem Fresh.register (h : Fresh s) (event : String) :
    Fresh (s.channelDeps (.registerEventHandler event)) := by
  intro event' n hmem
  change n < s.noops + 1
  replace hmem : Handler.noop n ∈ (s.on event (.noop s.noops)).bus.handlersOf event' := hmem
  rw [handlersOf_on] at hmem
  split at hmem
  · rcases EventBus.mem_addTo.mp hmem with heq | hmem
    · cases heq
      exact Nat.lt_succ_self _
    · exact (h event n hmem).trans (Nat.lt_succ_self _)
  · exact (h event' n hmem).trans (Nat.lt_succ_self _)

/-- The handlers that are made are among those that were made. -/
theorem Fresh.createDataChannel (h : Fresh s) (config : ChannelConfig V) :
    Fresh (s.createDataChannel config).1 := by
  cases hkey : s.manager.channels.get config.key with
  | some channel => simpa only [Sys.createDataChannel, hkey] using h
  | none =>
    rw [createDataChannel_none hkey]
    -- only the bus and the handlers that were made count
    exact List.foldlRecOn (motive := fun t : Sys V ρ => Fresh t) _ _ h fun t ht call _ => by
      cases call with
      | registerEventHandler event => exact ht.register event
      | createSyncChannel config => exact ht
      | registerCrdt key type => exact ht

/-- A channel that is closed leaves what it acquired. -/
theorem Fresh.held_cycle (h : Fresh s) {config : ChannelConfig V}
    (hkey : s.manager.channels.get config.key = none) :
    (s.cycle config).held config.key =
      s.held config.key + if config.pattern = .rpc then 0 else 1 := by
  rw [Sys.cycle, createDataChannel_none hkey]
  exact h.held_calls config

theorem Fresh.cycle (h : Fresh s) (config : ChannelConfig V) : Fresh (s.cycle config) :=
  h.createDataChannel config

/-- Every cycle on a key adds to what the key holds, unless it is one of an `rpc` channel. -/
theorem Fresh.held_cycles (h : Fresh s) {key : String} (hkey : s.manager.channels.get key = none)
    {configs : List (ChannelConfig V)} (hconfigs : ∀ config ∈ configs, config.key = key) :
    (s.cycles configs).held key = s.held key + configs.countP (·.pattern ≠ .rpc) := by
  induction configs generalizing s with
  | nil => rfl
  | cons config configs ih =>
    obtain rfl := hconfigs config List.mem_cons_self
    have hrest := ih (h.cycle config) ((get_cycle hkey _).trans hkey) fun config' hmem =>
      hconfigs config' (List.mem_cons_of_mem _ hmem)
    rw [Sys.cycles, List.foldl_cons, ← Sys.cycles, hrest, h.held_cycle hkey, List.countP_cons]
    by_cases hrpc : config.pattern = .rpc
    · simp [hrpc]
    · simp only [hrpc, if_false, ne_eq, not_false_eq_true, decide_true, if_true]
      omega

end Acquire

/-! ## Runs -/

variable {s t : Sys V ρ}

/-- The bus is what it was, with as many event channels. -/
def SameBus (s t : Sys V ρ) : Prop := t.bus = s.bus ∧ t.noops = s.noops

/-- What leaves the bus alone leaves this alone. -/
theorem Fresh.of_sameBus (h : Fresh s) (hst : SameBus s t) : Fresh t := by
  intro event n hmem
  rw [hst.1] at hmem
  exact hst.2 ▸ h event n hmem

/-- Several calls leave the bus alone if each does. -/
theorem sameBus_foldl {α : Type*} {f : Sys V ρ → α → Sys V ρ} (hf : ∀ s a, SameBus s (f s a))
    (s : Sys V ρ) (as : List α) : SameBus s (as.foldl f s) :=
  List.foldlRecOn (motive := SameBus s) as f ⟨rfl, rfl⟩ fun t ht a _ =>
    ⟨(hf t a).1.trans ht.1, (hf t a).2.trans ht.2⟩

/-- Hearing of a publication only broadcasts. -/
theorem sameBus_hear (s : Sys V ρ) (call : ℕ × List StatePatch) : SameBus s (s.hear call) := by
  obtain ⟨listener, patches⟩ := call
  simp only [Sys.hear]
  split
  · next i _ => cases s.objects[i]? <;> exact ⟨rfl, rfl⟩
  · exact ⟨rfl, rfl⟩
  · exact ⟨rfl, rfl⟩

/-- Sharing patches publishes them under the key of the sync channel. -/
theorem sameBus_share (s : Sys V ρ) (key : String) (patches : List StatePatch) :
    SameBus s (s.share key patches) := by
  unfold Sys.share
  split
  · exact ⟨rfl, rfl⟩
  · split
    · exact ⟨rfl, rfl⟩
    · next i _ => cases s.objects[i]? <;> exact ⟨rfl, rfl⟩

/-- Destroying the sync channels only unsubscribes their listeners. -/
theorem sameBus_destroySyncChannels (s : Sys V ρ) : SameBus s s.destroySyncChannels :=
  sameBus_foldl (fun t i => by cases t.objects[i]? <;> exact ⟨rfl, rfl⟩) s s.syncChannels.values

/-- A handler of the application is none of an event channel. -/
theorem Fresh.on (h : Fresh s) (event : String) (handler : ℕ) :
    Fresh (s.on event (.user handler)) := by
  intro event' n hmem
  rw [handlersOf_on] at hmem
  split at hmem
  · exact h event n ((EventBus.mem_addTo.mp hmem).resolve_left nofun)
  · exact h event' n hmem

/-- A handler that leaves takes none with it. -/
theorem Fresh.off (h : Fresh s) (event : String) (handler : Handler) :
    Fresh { s with bus := s.bus.off event handler } := by
  intro event' n hmem
  rw [EventBus.handlersOf_off] at hmem
  split at hmem
  · exact h event' n (List.mem_of_mem_erase hmem)
  · exact h event' n hmem

section Step

variable [Zero V] [One V] [Add V] [Sub V]

/-- Every step keeps this. -/
theorem fresh_step {a : Act V} (h : Fresh s) (hstep : step s a = some t) : Fresh t := by
  cases a with
  | createDataChannel config =>
    cases hstep
    exact h.createDataChannel config
  | close channel =>
    simp only [step, Option.ite_none_right_eq_some, Option.some.injEq] at hstep
    exact h.of_sameBus (hstep.2 ▸ ⟨rfl, rfl⟩)
  | closeAllDataChannels | createSyncChannel config | applyCrdt connectionId op now | destroyCrdt =>
    cases hstep
    exact h
  | destroySyncChannels =>
    cases hstep
    exact h.of_sameBus (sameBus_destroySyncChannels s)
  | enqueue i patches | flush i | destroy i =>
    obtain ⟨object, -, rfl⟩ := Option.map_eq_some_iff.mp hstep
    exact h
  | fire i =>
    obtain ⟨object, -, hfire⟩ := Option.bind_eq_some_iff.mp hstep
    obtain ⟨r, -, rfl⟩ := Option.map_eq_some_iff.mp hfire
    exact h
  | on event handler =>
    cases hstep
    exact h.on event handler
  | off event handler =>
    cases hstep
    exact h.off event _
  | destroyEvents =>
    cases hstep
    exact fun event n hmem => absurd hmem List.not_mem_nil
  | publish key patches =>
    cases hstep
    exact h.of_sameBus (sameBus_foldl sameBus_hear s _)
  | share key patches =>
    cases hstep
    exact h.of_sameBus (sameBus_share s key patches)

theorem fresh_run {maxKeys : ℕ} {acts : List (Act V)}
    (hrun : Machine.exec step (init maxKeys) acts = some s) : Fresh s :=
  Machine.exec_invariant (fun _ _ _ => fresh_step)
    (fun _ _ hmem => absurd hmem List.not_mem_nil) hrun

end Step

/-! ## Another registry with the same keys -/

/-- Only `createDataChannel`, `close` and `closeAllDataChannels` look at the registry. -/
def Sys.withManager (m : ChannelManager) (s : Sys V ρ) : Sys V ρ := { s with manager := m }

/-- There are channels for the same keys. -/
def SameKeys (m m' : ChannelManager) : Prop := ∀ key, m.channels.has key = m'.channels.has key

/-- A further channel takes the same key in both. -/
theorem SameKeys.addChannel {m m' : ChannelManager} (h : SameKeys m m') (pattern : DataFlowPattern)
    (key : String) : SameKeys (m.addChannel pattern key).1 (m'.addChannel pattern key).1 := by
  intro key'
  have hkey := h key'
  simp only [JsMap.has, ChannelManager.addChannel, JsMap.get_set] at hkey ⊢
  split
  · rfl
  · exact hkey

variable (m : ChannelManager)

/-- Hearing of a publication does not ask the registry. -/
theorem hear_withManager (s : Sys V ρ) (call : ℕ × List StatePatch) :
    (s.withManager m).hear call = (s.hear call).withManager m := by
  obtain ⟨listener, patches⟩ := call
  change (match s.listeners[listener]? with | some (.sync i) => _ | some (.event _) | none => _) = _
  simp only [Sys.hear]
  split
  · next i _ =>
    change s.objects[i]?.elim _ _ = _
    cases s.objects[i]? <;> rfl
  · rfl
  · rfl

theorem publish_withManager (s : Sys V ρ) (key : String) (patches : List StatePatch) :
    (s.withManager m).publish key patches = (s.publish key patches).withManager m :=
  List.foldl_hom (Sys.withManager m) (hear_withManager m)

/-- Sharing patches does not ask the registry. -/
theorem share_withManager (s : Sys V ρ) (key : String) (patches : List StatePatch) :
    (s.withManager m).share key patches = (s.share key patches).withManager m := by
  simp only [Sys.share]
  split
  · rfl
  · change (match s.syncChannels.get key with | none => _ | some i => _) = _
    split
    · rfl
    · next i _ =>
      change s.objects[i]?.elim _ _ = _
      cases s.objects[i]? <;> rfl

/-- Nor does destroying the sync channels. -/
theorem destroySyncChannels_withManager (s : Sys V ρ) :
    (s.withManager m).destroySyncChannels = s.destroySyncChannels.withManager m := by
  have hloop : s.syncChannels.values.foldl (fun s i => s.objects[i]?.elim s (s.destroy i))
      (s.withManager m) =
      (s.syncChannels.values.foldl (fun s i => s.objects[i]?.elim s (s.destroy i)) s).withManager m := by
    refine List.foldl_hom (Sys.withManager m) fun t i => ?_
    change t.objects[i]?.elim _ _ = _
    cases t.objects[i]? <;> rfl
  exact congrArg (fun t : Sys V ρ => { t with syncChannels := JsMap.empty }) hloop

section Step

variable [Zero V] [One V] [Add V] [Sub V]

omit [One V] [Add V] [Sub V] in
theorem calls_withManager (s : Sys V ρ) (calls : List (DepsCall V)) :
    calls.foldl Sys.channelDeps (s.withManager m) = (calls.foldl Sys.channelDeps s).withManager m :=
  List.foldl_hom (Sys.withManager m) fun t call => by cases call <;> rfl

/-- Apart from `close`, a step asks the registry for the keys only. -/
theorem step_withManager {a : Act V} (hclose : ∀ channel, a ≠ .close channel)
    (hm : SameKeys m s.manager) :
    ∃ m', step (s.withManager m) a = (step s a).map (Sys.withManager m') ∧
      ∀ t ∈ step s a, SameKeys m' t.manager := by
  -- what does not look at the registry does not change it either
  have keep (h : ∀ m, step (s.withManager m) a = (step s a).map (Sys.withManager m)) :
      ∃ m', step (s.withManager m) a = (step s a).map (Sys.withManager m') ∧
        ∀ t ∈ step s a, SameKeys m' t.manager := by
    refine ⟨m, h m, fun t ht => ?_⟩
    have hsame : step s a = (step s a).map (Sys.withManager s.manager) := h s.manager
    rw [Option.mem_def.mp ht, Option.map_some, Option.some.injEq] at hsame
    rw [hsame]
    exact hm
  cases a with
  | createDataChannel config =>
    have hnone : m.channels.get config.key = none ↔ s.manager.channels.get config.key = none := by
      rw [← Option.not_isSome_iff_eq_none, ← Option.not_isSome_iff_eq_none, ← JsMap.has, hm,
        JsMap.has]
    cases hkey : s.manager.channels.get config.key with
    | none =>
      refine ⟨(m.addChannel config.pattern config.key).1, ?_, fun t ht => ?_⟩
      · simp only [step]
        rw [createDataChannel_none hkey, createDataChannel_none (hnone.mpr hkey), calls_withManager]
        rfl
      · simp only [step, createDataChannel_none hkey] at ht
        obtain rfl := Option.some.inj ht
        exact hm.addChannel config.pattern config.key
    | some channel =>
      cases hkey' : m.channels.get config.key with
      | none => exact absurd (hnone.mp hkey') (by rw [hkey]; exact Option.some_ne_none channel)
      | some channel' =>
        refine ⟨m, ?_, fun t ht => ?_⟩
        · simp only [step, Sys.createDataChannel, hkey]
          rw [show (s.withManager m).manager = m from rfl, hkey']
          rfl
        · simp only [step, Sys.createDataChannel, hkey] at ht
          exact Option.some.inj ht ▸ hm
  | close channel => exact absurd rfl (hclose channel)
  | closeAllDataChannels =>
    exact ⟨m.closeAll, rfl, fun t ht => Option.some.inj ht ▸ fun _ => rfl⟩
  | createSyncChannel config | on event handler | off event handler | destroyEvents
  | applyCrdt connectionId op now | destroyCrdt => exact keep fun _ => rfl
  | destroySyncChannels => exact keep fun m => congrArg some (destroySyncChannels_withManager m s)
  | publish key patches => exact keep fun m => congrArg some (publish_withManager m s key patches)
  | share key patches => exact keep fun m => congrArg some (share_withManager m s key patches)
  | enqueue i patches | flush i | destroy i =>
    refine keep fun m => ?_
    change s.objects[i]?.map _ = (s.objects[i]?.map _).map _
    cases s.objects[i]? <;> rfl
  | fire i =>
    refine keep fun m => ?_
    change (s.objects[i]?.bind fun object => object.channel.fire.map _) =
      (s.objects[i]?.bind fun object => object.channel.fire.map _).map _
    cases s.objects[i]? with
    | none => rfl
    | some object =>
      change object.channel.fire.map _ = (object.channel.fire.map _).map _
      cases object.channel.fire <;> rfl

variable {m}

/-- With channels for the same keys the same is broadcast later. -/
theorem sameBroadcasts_withManager (hm : SameKeys m s.manager) :
    SameBroadcasts s (s.withManager m) := by
  intro later hclose
  induction later generalizing s m with
  | nil => rfl
  | cons a later ih =>
    have ha (channel : ℕ) : a ≠ .close channel :=
      fun heq => hclose channel (heq ▸ List.mem_cons_self)
    obtain ⟨m', hstep, hm'⟩ := step_withManager m ha hm
    rw [Machine.exec_cons, Machine.exec_cons, hstep]
    cases ht : step s a with
    | none => rfl
    | some t => exact ih (hm' t ht) fun channel hmem => hclose channel (List.mem_cons_of_mem _ hmem)

end Step

/-! ## A new sync channel -/

section Created

variable {config : SyncChannelConfig V} {patches : List StatePatch}

/-- The object of a new channel is the last one. -/
theorem object_created (s : Sys V ρ) (config : SyncChannelConfig V) :
    (s.createSyncChannel config).objects[s.objects.length]? =
      some ⟨.new config.key config.flush, true, some s.listeners.length⟩ :=
  List.getElem?_concat_length

/-- A new channel that is immediate broadcasts at once what it is given. -/
theorem handOn_created (s : Sys V ρ) (himmediate : config.flush.flushStrategy = .immediate)
    (hne : patches ≠ []) :
    ((s.createSyncChannel config).handOn s.objects.length
      ⟨.new config.key config.flush, true, some s.listeners.length⟩
      ((SyncChannel.new config.key config.flush).enqueue patches)).broadcasts =
      s.broadcasts ++ [(config.key, patches)] := by
  rw [(SyncChannel.immediate_new config.key himmediate).enqueue hne]
  rfl

/-- A key that nobody listened to is broadcast once, at once. -/
theorem publish_created {s : Sys V ρ} (hquiet : s.backend.listenersOf ("sync:" ++ config.key) = [])
    (himmediate : config.flush.flushStrategy = .immediate) (hne : patches ≠ []) :
    ((s.createSyncChannel config).publish ("sync:" ++ config.key) patches).broadcasts =
      s.broadcasts ++ [(config.key, patches)] := by
  have hlistener : (s.createSyncChannel config).listeners[s.listeners.length]? =
      some (.sync s.objects.length) := List.getElem?_concat_length
  rw [Sys.publish, MemoryBackend.publish, listenersOf_createSyncChannel, hquiet]
  simp only [List.map_cons, List.map_nil, List.nil_append, List.foldl_cons, List.foldl_nil,
    Sys.hear, hlistener, object_created, Option.elim_some]
  exact handOn_created s himmediate hne

/-- So it is if it comes from `setState`. -/
theorem share_created (s : Sys V ρ) (himmediate : config.flush.flushStrategy = .immediate)
    (hne : patches ≠ []) :
    ((s.createSyncChannel config).share config.key patches).broadcasts =
      s.broadcasts ++ [(config.key, patches)] := by
  have hget : (s.createSyncChannel config).syncChannels.get config.key = some s.objects.length :=
    JsMap.get_set_self ..
  rw [Sys.share, if_neg (by simpa using hne), hget]
  simp only [object_created, Option.elim_some]
  exact handOn_created s himmediate hne

/-- Where a data channel comes with a sync channel, this is created last. -/
theorem calls_eq_createSyncChannel [Zero V] (s : Sys V ρ) {config : ChannelConfig V}
    {options : SyncChannelOptions} (h : syncOptions config.toLiveStateConfig = some options) :
    ∃ (crdt : CrdtManager V) (syncConfig : SyncChannelConfig V),
      syncConfig.key = config.key ∧ syncConfig.flush = options ∧
        (depsCalls config).foldl Sys.channelDeps s =
          { s with crdt := crdt }.createSyncChannel syncConfig := by
  have hflush := ChannelManager.syncOptions_eq h
  cases hpattern : config.pattern with
  | rpc | serverEvent | clientEvent | bidirectionalEvent => simp [syncOptions, hpattern] at h
  | serverLiveState | clientLiveState | bidirectionalCrdt =>
    simp only [depsCalls, hpattern]
    exact ⟨_, _, rfl, hflush, rfl⟩

/-- If nobody listened, patches are broadcast once whatever the registry has. -/
theorem patchesOnce_withManager [Zero V] {s : Sys V ρ} {key : String} {m : ChannelManager}
    (hkey : m.channels.get key = none) : PatchesOnce key s (s.withManager m) := by
  rintro hquiet config options patches rfl hoptions himmediate hne
  obtain ⟨crdt, syncConfig, hsync, rfl, hcalls⟩ := calls_eq_createSyncChannel s hoptions
  have hcreated : ((s.withManager m).createDataChannel config).1 =
      ({ s with crdt := crdt }.createSyncChannel syncConfig).withManager
        (m.addChannel config.pattern config.key).1 := by
    rw [createDataChannel_none (s := s.withManager m) hkey, calls_withManager, hcalls]
    rfl
  rw [hcreated, publish_withManager, share_withManager, ← hsync]
  rw [← hsync] at hquiet
  exact ⟨publish_created hquiet himmediate hne, share_created _ himmediate hne⟩

end Created

/-! ## Creating and closing -/

section Cycles

variable [Zero V] {s : Sys V ρ}

/-- A cycle of an `rpc` channel changes the registry only. -/
theorem cycle_rpc {config : ChannelConfig V} (hkey : s.manager.channels.get config.key = none)
    (hrpc : config.pattern = .rpc) : s.cycle config = s.withManager (s.cycle config).manager := by
  rw [Sys.cycle, createDataChannel_none hkey]
  simp only [depsCalls, hrpc]
  rfl

/-- Only the registry knows that there were `rpc` channels. -/
theorem cycles_rpc {key : String} (hkey : s.manager.channels.get key = none)
    {configs : List (ChannelConfig V)} (hconfigs : ∀ config ∈ configs, config.key = key)
    (hrpc : ∀ config ∈ configs, config.pattern = .rpc) :
    ∃ m, s.cycles configs = s.withManager m ∧
      ∀ key, m.channels.get key = s.manager.channels.get key := by
  induction configs generalizing s with
  | nil => exact ⟨s.manager, rfl, fun _ => rfl⟩
  | cons config configs ih =>
    obtain rfl := hconfigs config List.mem_cons_self
    obtain ⟨m, hm, hget⟩ := ih ((get_cycle hkey _).trans hkey)
      (fun config' hmem => hconfigs config' (List.mem_cons_of_mem _ hmem))
      fun config' hmem => hrpc config' (List.mem_cons_of_mem _ hmem)
    refine ⟨m, ?_, fun key => (hget key).trans (get_cycle hkey key)⟩
    rw [Sys.cycles, List.foldl_cons, ← Sys.cycles, hm,
      cycle_rpc hkey (hrpc config List.mem_cons_self)]
    rfl

variable [One V] [Add V] [Sub V]

/-- In every reachable state with no channel for a key, creating and closing channels for it any
number of times releases what was acquired exactly if they are all `rpc` channels. -/
theorem releases_iff {maxKeys : ℕ} {acts : List (Act V)}
    (hrun : Machine.exec step (init maxKeys) acts = some s) {key : String}
    (hkey : s.manager.get key = none) {configs : List (ChannelConfig V)}
    (hconfigs : ∀ config ∈ configs, config.key = key) :
    Releases key s (s.cycles configs) ↔ ∀ config ∈ configs, config.pattern = .rpc := by
  constructor
  · intro h
    have hheld := h.released.held key
    rw [(fresh_run hrun).held_cycles hkey hconfigs] at hheld
    have hcount : configs.countP (·.pattern ≠ .rpc) = 0 := by omega
    intro config hmem
    simpa using List.countP_eq_zero.mp hcount config hmem
  · intro hrpc
    obtain ⟨m, hm, hget⟩ := cycles_rpc hkey hconfigs hrpc
    rw [hm]
    refine ⟨⟨rfl, rfl, rfl⟩, sameBroadcasts_withManager fun key => ?_, patchesOnce_withManager ?_⟩
    · rw [JsMap.has, hget, JsMap.has]
    · rw [hget]
      exact hkey

/-! ### Two patterns on one key -/

def configFor (pattern : DataFlowPattern) : ChannelConfig ℤ where
  key := "x"
  pattern := pattern
  granularity := .immediate

/-- A sync channel, and a handler for the event of the same key. -/
def busyRun : List (Act ℤ) :=
  [.createDataChannel (configFor .serverLiveState), .close 0, .on "x" 0]

/-- Two cycles of an `rpc` channel leave the example as it was. -/
theorem rpc_releases : ∃ s : Sys ℤ Unit, Machine.exec step (init 10) busyRun = some s ∧
    s.held "x" = 2 ∧ Releases "x" s (s.cycles [configFor .rpc, configFor .rpc]) :=
  have hrun : Machine.exec step (init 10 : Sys ℤ Unit) busyRun = some _ := rfl
  ⟨_, hrun, by decide +kernel, (releases_iff hrun (by decide +kernel) (by decide)).mpr (by decide)⟩

/-- The sync channel of a closed data channel is still subscribed. When the key is created again,
both broadcast what is published for it. -/
theorem closed_channel_listens :
    let s : Sys ℤ Unit := init 10
    let patches : List StatePatch := [{ op := "add", path := "/a", value := some (.num 1) }]
    let again := ((s.cycle (configFor .serverLiveState)).createDataChannel (configFor .serverLiveState)).1
    s.backend.listenersOf "sync:x" = [] ∧
      (s.cycle (configFor .serverLiveState)).backend.listenersOf "sync:x" = [0] ∧
      (again.publish "sync:x" patches).broadcasts = [("x", patches), ("x", patches)] ∧
      ¬ Releases "x" s (s.cycles [configFor .serverLiveState]) := by
  refine ⟨by decide +kernel, by decide +kernel, by decide +kernel, fun h => ?_⟩
  have hsubscriptions := h.released.subscriptions
  revert hsubscriptions
  decide +kernel

end Cycles

end DataChannels

end Datasole
