import Datasole.Common.JsMap
import Datasole.Common.Machine
import Datasole.Server.State.LiveStateChannels

/-!
# The registry of channels

`ChannelManager` of `server/primitives/data-flow/channel-manager.ts`. A channel is known by its
handle, the how manieth channel it is that the manager made; handles are kept by whoever called
`create`, also after the channel is closed. `close` removes what the registry holds under the
channel's key, without a look at whether it is this channel. So a handle that is closed again after
its key was created again takes the new channel out of the registry, and leaves it active.
-/

namespace Datasole

inductive SyncDirection where
  | serverToClient | clientToServer | bidirectional
deriving DecidableEq

inductive SyncMode where
  | jsonPatch | crdt | snapshot
deriving DecidableEq

/-- A `LiveStateConfig` with its key, for states of type `V`. -/
structure ChannelConfig (V : Type*) extends LiveStateConfig where
  key : String
  initialValue : Option V := none

structure SyncChannelConfig (V : Type*) where
  key : String
  direction : SyncDirection
  mode : SyncMode
  flush : SyncChannelOptions
  initialValue : Option V

def patternToDirection : DataFlowPattern → SyncDirection
  | .serverLiveState | .serverEvent => .serverToClient
  | .clientLiveState | .clientEvent => .clientToServer
  | .bidirectionalEvent | .bidirectionalCrdt => .bidirectional
  | .rpc => .serverToClient

def patternToSyncMode : DataFlowPattern → SyncMode
  | .bidirectionalCrdt => .crdt
  | .serverLiveState | .clientLiveState => .jsonPatch
  | _ => .snapshot

/-- A call of one of the functions in `deps`. -/
inductive DepsCall (V : Type*) where
  | createSyncChannel (config : SyncChannelConfig V)
  | registerEventHandler (event : String)
  | registerCrdt (key type : String)

/-- What the functions do for the manager: they return or throw. -/
abbrev ChannelManagerDeps (V : Type*) := DepsCall V → Except String Unit

structure ManagedChannel where
  pattern : DataFlowPattern
  key : String
  active : Bool
deriving DecidableEq

structure ChannelManager where
  /-- The channels that were made, by their handles. -/
  handles : List ManagedChannel
  channels : JsMap String ℕ
deriving DecidableEq

namespace ChannelManager

variable {V : Type*}

def new : ChannelManager where
  handles := []
  channels := JsMap.empty

def get (m : ChannelManager) (key : String) : Option ℕ := m.channels.get key

def getAll (m : ChannelManager) : List ℕ := m.channels.values

/-- `new ManagedChannel(pattern, key, …)`, which is stored under its key. -/
def addChannel (m : ChannelManager) (pattern : DataFlowPattern) (key : String) :
    ChannelManager × ℕ :=
  ({ handles := m.handles ++ [{ pattern, key, active := true }]
     channels := m.channels.set key m.handles.length },
    m.handles.length)

def createRpcChannel (m : ChannelManager) (config : ChannelConfig V) : ChannelManager × ℕ :=
  m.addChannel .rpc config.key

def createEventChannel (deps : ChannelManagerDeps V) (m : ChannelManager)
    (config : ChannelConfig V) :
    Except String (ChannelManager × ℕ) := do
  deps (.registerEventHandler config.key)
  return m.addChannel config.pattern config.key

/-- The `flush` of both kinds of sync channels. -/
def flushOptions (config : ChannelConfig V) : SyncChannelOptions where
  flushStrategy := granularityToFlushStrategy config.granularity
  batchIntervalMs := some (config.batchIntervalMs.getD 100)
  debounceMs := some (config.debounceMs.getD 50)

/-- They are what a live state's sync channel gets. -/
theorem syncOptions_eq {config : ChannelConfig V} {options : SyncChannelOptions}
    (h : syncOptions config.toLiveStateConfig = some options) : flushOptions config = options := by
  unfold syncOptions at h
  split at h <;> cases h <;> rfl

def createSyncChannel (deps : ChannelManagerDeps V) (m : ChannelManager)
    (config : ChannelConfig V) :
    Except String (ChannelManager × ℕ) := do
  deps (.createSyncChannel
    { key := config.key
      direction := patternToDirection config.pattern
      mode := patternToSyncMode config.pattern
      flush := flushOptions config
      initialValue := config.initialValue })
  return m.addChannel config.pattern config.key

def createCrdtChannel (deps : ChannelManagerDeps V) (m : ChannelManager)
    (config : ChannelConfig V) :
    Except String (ChannelManager × ℕ) := do
  deps (.registerCrdt config.key "lww-map")
  deps (.createSyncChannel
    { key := config.key
      direction := .bidirectional
      mode := .crdt
      flush := flushOptions config
      initialValue := config.initialValue })
  return m.addChannel .bidirectionalCrdt config.key

/-- No pattern is left for the `default` branch. -/
def create (deps : ChannelManagerDeps V) (m : ChannelManager) (config : ChannelConfig V) :
    Except String (ChannelManager × ℕ) :=
  match m.channels.get config.key with
  | some channel => .ok (m, channel)
  | none =>
    match config.pattern with
    | .rpc => .ok (m.createRpcChannel config)
    | .serverEvent | .clientEvent | .bidirectionalEvent => m.createEventChannel deps config
    | .serverLiveState | .clientLiveState => m.createSyncChannel deps config
    | .bidirectionalCrdt => m.createCrdtChannel deps config

/-- The calls of `deps` that a configuration leads to, in order. -/
def depsCalls (config : ChannelConfig V) : List (DepsCall V) :=
  let createSyncChannel : DepsCall V := .createSyncChannel
    { key := config.key
      direction := patternToDirection config.pattern
      mode := patternToSyncMode config.pattern
      flush := flushOptions config
      initialValue := config.initialValue }
  match config.pattern with
  | .rpc => []
  | .serverEvent | .clientEvent | .bidirectionalEvent => [.registerEventHandler config.key]
  | .serverLiveState | .clientLiveState => [createSyncChannel]
  | .bidirectionalCrdt => [.registerCrdt config.key "lww-map", createSyncChannel]

/-- Whatever the pattern, a channel is added after the calls, unless one of them throws. -/
theorem create_eq (deps : ChannelManagerDeps V) (m : ChannelManager) (config : ChannelConfig V) :
    m.create deps config = match m.channels.get config.key with
      | some channel => .ok (m, channel)
      | none => do
        (depsCalls config).forM deps
        return m.addChannel config.pattern config.key := by
  unfold create
  cases m.channels.get config.key with
  | some channel => rfl
  | none =>
    cases hpattern : config.pattern with
    | rpc =>
      simp only [depsCalls, hpattern]
      rfl
    | serverEvent | clientEvent | bidirectionalEvent =>
      simp [createEventChannel, depsCalls, hpattern]
    | serverLiveState | clientLiveState => simp [createSyncChannel, depsCalls, hpattern]
    | bidirectionalCrdt =>
      simp [createCrdtChannel, depsCalls, hpattern, patternToDirection, patternToSyncMode]

/-- `close()` of the channel with a handle. -/
def close (m : ChannelManager) (handle : ℕ) : ChannelManager :=
  match m.handles[handle]? with
  | none => m
  | some channel =>
    { handles := m.handles.set handle { channel with active := false }
      channels := m.channels.delete channel.key }

/-- The loop of `closeAll`: it does not come to an entry that has been removed before. -/
def closeEntries (m : ChannelManager) (entries : List (String × ℕ)) : ChannelManager :=
  entries.foldl (fun m entry => if m.channels.has entry.1 then m.close entry.2 else m) m

def closeAll (m : ChannelManager) : ChannelManager :=
  { m.closeEntries m.channels.entries with channels := JsMap.empty }

inductive Act (V : Type*) where
  /-- Each call finds its own `deps`: what they do may change. -/
  | create (deps : ChannelManagerDeps V) (config : ChannelConfig V)
  | close (handle : ℕ)
  | closeAll

def step (m : ChannelManager) : Act V → Option ChannelManager
  | .create deps config =>
    match m.create deps config with
    | .error _ => some m
    | .ok (m, _) => some m
  | .close handle => if handle < m.handles.length then some (m.close handle) else none
  | .closeAll => some m.closeAll

/-- What is wanted of the registry. -/
structure Sound (m : ChannelManager) : Prop where
  active_iff : ∀ i channel, m.handles[i]? = some channel →
    (channel.active = true ↔ m.get channel.key = some i)
  mem_getAll : ∀ i, i ∈ m.getAll ↔ ∃ channel, m.handles[i]? = some channel ∧ channel.active = true
  nodup_getAll : m.getAll.Nodup
  unique : ∀ (i j : ℕ) (channel channel' : ManagedChannel),
    m.handles[i]? = some channel → m.handles[j]? = some channel' →
    channel.active = true → channel'.active = true → channel.key = channel'.key → i = j

/-- The channel to be closed is the one under its key, if there is one. -/
def OwnKey (m : ChannelManager) : Act V → Prop
  | .close handle => ∀ channel ∈ m.handles[handle]?, ∀ i ∈ m.get channel.key, i = handle
  | .create _ _ | .closeAll => True

instance (m : ChannelManager) : DecidablePred (OwnKey (V := V) m)
  | .close handle => inferInstanceAs (Decidable (∀ channel ∈ m.handles[handle]?, ∀ i ∈ _, i = handle))
  | .create _ _ | .closeAll => .isTrue trivial

/-- A key leads to a channel of this key. -/
def Held (m : ChannelManager) : Prop :=
  ∀ key i, m.channels.get key = some i → ∃ channel, m.handles[i]? = some channel ∧ channel.key = key

/-- A key leads to a channel of this key, and to every active one. -/
structure Inv (m : ChannelManager) : Prop where
  held : m.Held
  active_iff : ∀ i channel, m.handles[i]? = some channel →
    (channel.active = true ↔ m.channels.get channel.key = some i)

variable {m m' : ChannelManager}

/-- A registry with the invariant lists each active channel once, under its own key. -/
theorem Inv.sound (h : m.Inv) : m.Sound where
  active_iff := h.active_iff
  mem_getAll i := by
    constructor
    · intro hi
      obtain ⟨entry, hentry, rfl⟩ := List.mem_map.mp hi
      have hget := JsMap.mem_entries.mp (show (entry.1, entry.2) ∈ m.channels.entries from hentry)
      obtain ⟨channel, hchannel, hkey⟩ := h.held _ _ hget
      exact ⟨channel, hchannel, (h.active_iff _ _ hchannel).mpr (hkey ▸ hget)⟩
    · rintro ⟨channel, hchannel, hactive⟩
      have hget := (h.active_iff _ _ hchannel).mp hactive
      exact List.mem_map.mpr ⟨(channel.key, i), JsMap.mem_entries.mpr hget, rfl⟩
  nodup_getAll := by
    -- a channel is held under its own key only
    refine List.Nodup.map_on (fun x hx y hy hxy => ?_) m.channels.nodup_keys.of_map
    obtain ⟨channel, hchannel, hkey⟩ := h.held x.1 x.2 (JsMap.mem_entries.mp hx)
    obtain ⟨channel', hchannel', hkey'⟩ := h.held y.1 y.2 (JsMap.mem_entries.mp hy)
    rw [hxy, hchannel'] at hchannel
    obtain rfl := Option.some.inj hchannel
    exact Prod.ext (hkey.symm.trans hkey') hxy
  unique i j channel channel' hi hj hactive hactive' hkey := by
    have hget := (h.active_iff _ _ hi).mp hactive
    have hget' := (h.active_iff _ _ hj).mp hactive'
    rw [hkey, hget'] at hget
    exact (Option.some.inj hget).symm

theorem inv_new : new.Inv where
  held _ _ hget := by cases hget
  active_iff i channel hchannel := by simp [new] at hchannel

/-! ## Creating -/

/-- What `create` does, whatever the pattern: it finds a channel, throws, or adds one. -/
theorem create_cases (deps : ChannelManagerDeps V) (m : ChannelManager) (config : ChannelConfig V) :
    (∃ i, m.channels.get config.key = some i ∧ m.create deps config = .ok (m, i)) ∨
      (∃ e, m.create deps config = .error e) ∨
      m.channels.get config.key = none ∧
        m.create deps config = .ok (m.addChannel config.pattern config.key) := by
  rw [create_eq]
  cases m.channels.get config.key with
  | some i => exact Or.inl ⟨i, rfl, rfl⟩
  | none =>
    refine Or.inr ?_
    cases (depsCalls config).forM deps with
    | error e => exact Or.inl ⟨e, rfl⟩
    | ok => exact Or.inr ⟨rfl, rfl⟩

/-- A channel under a free key is listed there, and is the only active one with the key. -/
theorem Inv.addChannel (h : m.Inv) (pattern : DataFlowPattern) {key : String}
    (hkey : m.channels.get key = none) : (m.addChannel pattern key).1.Inv := by
  have hlast : (m.handles ++ [{ pattern, key, active := true }])[m.handles.length]? =
      some { pattern, key, active := true } := by simp
  have hold : ∀ i < m.handles.length,
      (m.handles ++ [{ pattern, key, active := true }])[i]? = m.handles[i]? := fun i hi =>
    List.getElem?_append_left hi
  have hlt : ∀ key' i, m.channels.get key' = some i → i < m.handles.length := fun key' i hget => by
    obtain ⟨channel, hchannel, -⟩ := h.held key' i hget
    exact (List.getElem?_eq_some_iff.mp hchannel).1
  refine ⟨fun key' i hget => ?_, fun i channel hchannel => ?_⟩
  · change (m.channels.set key m.handles.length).get key' = some i at hget
    change ∃ channel, (m.handles ++ [_])[i]? = some channel ∧ channel.key = key'
    rw [JsMap.get_set] at hget
    split at hget
    · next heq =>
      obtain rfl := Option.some.inj hget
      exact ⟨_, hlast, heq.symm⟩
    · rw [hold i (hlt key' i hget)]
      exact h.held key' i hget
  · change (m.handles ++ [_])[i]? = some channel at hchannel
    change channel.active = true ↔ (m.channels.set key m.handles.length).get channel.key = some i
    rw [JsMap.get_set]
    by_cases hi : i < m.handles.length
    · rw [hold i hi] at hchannel
      rw [h.active_iff i channel hchannel]
      split
      · next heq =>
        -- no channel was held under this key
        rw [heq, hkey]
        refine iff_of_false (fun hnone => ?_) fun hnew => hi.ne (Option.some.inj hnew).symm
        cases hnone
      · exact Iff.rfl
    · obtain rfl : i = m.handles.length := by
        have hbound := (List.getElem?_eq_some_iff.mp hchannel).1
        rw [List.length_append, List.length_singleton] at hbound
        omega
      rw [hlast] at hchannel
      obtain rfl := Option.some.inj hchannel
      exact iff_of_true rfl (if_pos rfl)

/-! ## Closing -/

section Close

variable {handle : ℕ} {closed : ManagedChannel}

/-- A channel that is closed is inactive, and the others are what they were. -/
theorem handles_close (hclosed : m.handles[handle]? = some closed) (i : ℕ) :
    (m.close handle).handles[i]? =
      if i = handle then some { closed with active := false } else m.handles[i]? := by
  have hlt := (List.getElem?_eq_some_iff.mp hclosed).1
  rw [close, hclosed, List.getElem?_set]
  by_cases hi : i = handle
  · rw [if_pos hi.symm, if_pos hlt, if_pos hi]
  · rw [if_neg (Ne.symm hi), if_neg hi]

/-- A key of a closed channel is free, and the others lead where they did. -/
theorem get_close (hclosed : m.handles[handle]? = some closed) (key : String) :
    (m.close handle).channels.get key = if key = closed.key then none else m.channels.get key := by
  rw [close, hclosed, JsMap.get_delete]

/-- After a channel is closed every key still leads to a channel of this key. -/
theorem Held.close (h : m.Held) (hclosed : m.handles[handle]? = some closed) :
    (m.close handle).Held := by
  intro key i hget
  rw [get_close hclosed] at hget
  split at hget
  · cases hget
  · next hkey =>
    obtain ⟨channel, hchannel, heq⟩ := h key i hget
    have hne : i ≠ handle := by
      rintro rfl
      rw [hclosed] at hchannel
      exact hkey (heq.symm.trans (congrArg _ (Option.some.inj hchannel).symm))
    exact ⟨channel, by rw [handles_close hclosed, if_neg hne, hchannel], heq⟩

/-- Closing what is under its own key, or was closed before, keeps the registry. -/
theorem Inv.close (h : m.Inv) (hclosed : m.handles[handle]? = some closed)
    (hown : ∀ i, m.channels.get closed.key = some i → i = handle) : (m.close handle).Inv where
  held := h.held.close hclosed
  active_iff i channel hchannel := by
    rw [handles_close hclosed] at hchannel
    rw [get_close hclosed]
    split at hchannel
    · obtain rfl := Option.some.inj hchannel
      exact iff_of_false Bool.false_ne_true (by rw [if_pos rfl]; nofun)
    · next hne =>
      rw [h.active_iff i channel hchannel]
      split
      · next heq =>
        rw [heq]
        exact iff_of_false (fun hget => hne (hown i hget)) nofun
      · exact Iff.rfl

/-- Closing another channel than the one under its key leaves that one active, and not to be
found. -/
theorem Inv.own_of_sound (h : m.Inv) (hclosed : m.handles[handle]? = some closed)
    (hsound : (m.close handle).Sound) {i : ℕ} (hi : m.channels.get closed.key = some i) : i = handle := by
  by_contra hne
  obtain ⟨channel, hchannel, hkey⟩ := h.held _ _ hi
  have hactive : channel.active = true := (h.active_iff i channel hchannel).mpr (hkey ▸ hi)
  have hstill : (m.close handle).handles[i]? = some channel := by
    rw [handles_close hclosed, if_neg hne, hchannel]
  have hget := (hsound.active_iff i channel hstill).mp hactive
  rw [get, get_close hclosed, if_pos hkey] at hget
  cases hget

end Close

/-- The channels of the entries are closed, and no other is touched. -/
theorem closeEntries_spec (entries : List (String × ℕ)) (h : m.Held)
    (hentries : ∀ entry ∈ entries, m.channels.get entry.1 = some entry.2)
    (hkeys : (entries.map Prod.fst).Nodup) {i : ℕ} {channel : ManagedChannel}
    (hchannel : (m.closeEntries entries).handles[i]? = some channel) (hactive : channel.active = true) :
    m.handles[i]? = some channel ∧ i ∉ entries.map Prod.snd := by
  induction entries generalizing m with
  | nil => exact ⟨hchannel, nofun⟩
  | cons entry entries ih =>
    obtain ⟨hhead, htail⟩ := List.nodup_cons.mp hkeys
    have hget := hentries entry List.mem_cons_self
    obtain ⟨closed, hclosed, hkey⟩ := h _ _ hget
    have hstep : m.closeEntries (entry :: entries) = (m.close entry.2).closeEntries entries := by
      have hhas : m.channels.has entry.1 = true := by rw [JsMap.has, hget]; rfl
      rw [closeEntries, List.foldl_cons, if_pos hhas]
      rfl
    rw [hstep] at hchannel
    have hrest : ∀ e ∈ entries, (m.close entry.2).channels.get e.1 = some e.2 := fun e he => by
      have hne : e.1 ≠ closed.key := fun heq =>
        hhead (List.mem_map.mpr ⟨e, he, heq.trans hkey⟩)
      rw [get_close hclosed, if_neg hne, hentries e (List.mem_cons_of_mem _ he)]
    obtain ⟨hbefore, hnot⟩ := ih (h.close hclosed) hrest htail hchannel
    rw [handles_close hclosed] at hbefore
    split at hbefore
    · obtain rfl := Option.some.inj hbefore
      cases hactive
    · next hne => exact ⟨hbefore, fun hmem => (List.mem_cons.mp hmem).elim hne hnot⟩

/-- After `closeAll` no channel is active. -/
theorem Inv.closeAll (h : m.Inv) : m.closeAll.Inv where
  held _ _ hget := by cases hget
  active_iff i channel hchannel := by
    refine iff_of_false (fun hactive => ?_) nofun
    obtain ⟨hbefore, hnot⟩ := closeEntries_spec m.channels.entries h.held
      (fun entry hentry => JsMap.mem_entries.mp hentry) m.channels.nodup_keys hchannel hactive
    have hget := (h.active_iff i channel hbefore).mp hactive
    exact hnot (List.mem_map.mpr ⟨_, JsMap.mem_entries.mpr hget, rfl⟩)

/-! ## Runs -/

/-- Every step that closes only the channel under its key keeps the invariant. -/
theorem inv_step {a : Act V} (h : m.Inv) (hown : m.OwnKey a)
    (hs : m.step a = some m') : m'.Inv := by
  cases a with
  | create deps config =>
    simp only [step] at hs
    rcases create_cases deps m config with ⟨i, -, hcreate⟩ | ⟨e, hcreate⟩ | ⟨hnone, hcreate⟩
    all_goals
      rw [hcreate] at hs
      obtain rfl := Option.some.inj hs
    · exact h
    · exact h
    · exact h.addChannel config.pattern hnone
  | close handle =>
    simp only [step, Option.ite_none_right_eq_some, Option.some.injEq] at hs
    obtain ⟨hlt, rfl⟩ := hs
    have hclosed := List.getElem?_eq_getElem hlt
    exact h.close hclosed fun i hi => hown _ hclosed i hi
  | closeAll =>
    simp only [step, Option.some.injEq] at hs
    exact hs ▸ h.closeAll

/-- A step into a sound registry has closed no channel but the one under its key. -/
theorem ownKey_of_sound {a : Act V} (h : m.Inv) (hs : m.step a = some m') (hsound : m'.Sound) :
    m.OwnKey a := by
  cases a with
  | create deps config => trivial
  | closeAll => trivial
  | close handle =>
    simp only [step, Option.ite_none_right_eq_some, Option.some.injEq] at hs
    obtain ⟨-, rfl⟩ := hs
    intro closed hclosed i hi
    exact h.own_of_sound hclosed hsound hi

/-- In a run of `create`, `close` and `closeAll` the registry is sound all along exactly if every
channel is closed while it is the one under its key, or while there is none. -/
theorem registry_sound_iff (acts : List (Act V)) {m : ChannelManager}
    (hrun : Machine.exec step new acts = some m) :
    (∀ before after m', acts = before ++ after → Machine.exec step new before = some m' → m'.Sound) ↔
      Machine.Guarded step OwnKey new acts :=
  Machine.forall_exec_iff_guarded_of_exec (fun _ h => h.sound) (fun _ _ _ => inv_step)
    (fun _ _ _ => ownKey_of_sound) inv_new hrun

/-! ## A key that is created again -/

/-- A configuration of a remote call. -/
def rpcConfig (key : String) : ChannelConfig Unit where
  key := key
  pattern := .rpc
  granularity := .immediate

/-- Each handle is closed once. -/
def createdAgain : List (Act Unit) :=
  [.create (fun _ => .ok ()) (rpcConfig "x"), .close 0, .create (fun _ => .ok ()) (rpcConfig "x"),
    .closeAll]

/-- The old handle is closed again. -/
def closedAgain : List (Act Unit) :=
  [.create (fun _ => .ok ()) (rpcConfig "x"), .close 0, .create (fun _ => .ok ()) (rpcConfig "x"),
    .close 0]

/-- A key that is created again after a proper `close` leaves the registry sound. -/
theorem createdAgain_sound : ∃ m, Machine.exec step new createdAgain = some m ∧
    ∀ before after m', createdAgain = before ++ after → Machine.exec step new before = some m' →
      m'.Sound :=
  ⟨_, rfl, (registry_sound_iff createdAgain rfl).mpr (by decide +kernel)⟩

/-- The new channel is active, and neither `get` nor `getAll` has it. -/
theorem closedAgain_not_sound : ∃ m, Machine.exec step new closedAgain = some m ∧
    m.handles[1]? = some ⟨.rpc, "x", true⟩ ∧ m.get "x" = none ∧ m.getAll = [] ∧ ¬ m.Sound := by
  have hrun : Machine.exec step new closedAgain =
      some ⟨[⟨.rpc, "x", false⟩, ⟨.rpc, "x", true⟩], JsMap.empty⟩ := by
    decide +kernel
  refine ⟨_, hrun, rfl, rfl, rfl, fun hsound => ?_⟩
  cases (hsound.active_iff 1 ⟨.rpc, "x", true⟩ rfl).mp rfl

end ChannelManager

end Datasole
