import Mathlib.Logic.Function.Basic
import Datasole.Common.Machine
import Datasole.Server.State.LiveStateRun

/-!
# A live state on several server instances

Instances `ι` share a backend, and clients `κ` are connected to them from the start. Calls of
`ServerLiveState.setState` on one key are awaited, so they come one after the other, at any
instances. The backend delivers every publish to every instance, which hands it to the sync channel
there if the channel subscribed to its topic.

`StateManager.setState` publishes under the key, and a `SyncChannel` subscribes to `sync:` and the
key; so no instance hears of a change that another one made. A client follows the stored value if
all changes are made at its own instance (`Local`).
-/

namespace Datasole

namespace LiveStateCluster

open Function (update update_self update_of_ne)

/-- A publish on its way to an instance. -/
structure Message where
  topic : String
  patches : List StatePatch

/-- The shared backend's entry, the sync channel of the key at each instance, the messages on their
way to each instance, and for each client the frames on their way and its state store. -/
structure Sys (ι κ : Type*) where
  stored : Option Json
  channels : ι → Option SyncChannel
  published : ι → List Message
  inFlight : κ → List (List StatePatch)
  mirrors : κ → StateStore

inductive Act (ι κ : Type*) where
  | setState (i : ι) (value : Json)
  /-- The next message reaches instance `i`. -/
  | receive (i : ι)
  /-- The flush timer of the channel at `i` fires. -/
  | fire (i : ι)
  /-- Client `c` processes the next frame. -/
  | deliver (c : κ)

variable {ι κ : Type*}

/-- Every client has what is stored. -/
def init (key : String) (options : ι → Option SyncChannelOptions)
    (stored : Option Json) : Sys ι κ where
  stored := stored
  channels i := (options i).map (SyncChannel.new key)
  published _ := []
  inFlight _ := []
  mirrors _ := ⟨stored⟩

/-- `broadcastStatePatch` at an instance, for each batch. -/
def Sys.broadcast [DecidableEq ι] (place : κ → ι) (s : Sys ι κ) (i : ι)
    (batches : List (List StatePatch)) :
    Sys ι κ :=
  { s with inFlight := fun c => if place c = i then s.inFlight c ++ batches else s.inFlight c }

/-- The channel at `i` goes on to what a call of it gave. -/
def Sys.setChannel [DecidableEq ι] (place : κ → ι) (s : Sys ι κ) (i : ι)
    (r : SyncChannel × List (List StatePatch)) : Sys ι κ :=
  Sys.broadcast place { s with channels := update s.channels i (some r.1) } i r.2

/-- The end of `ServerLiveState.setState`. -/
def Sys.share [DecidableEq ι] (place : κ → ι) (s : Sys ι κ) (i : ι)
    (patches : List StatePatch) : Sys ι κ :=
  if patches.isEmpty then s
  else
    match s.channels i with
    | none => s.broadcast place i [patches]
    | some channel => s.setChannel place i (channel.enqueue patches)

def step [DecidableEq ι] [DecidableEq κ] (lib : FastJsonPatch) (key : String) (place : κ → ι)
    (s : Sys ι κ) :
    Act ι κ → Option (Sys ι κ)
  | .setState i value =>
    let patches := diff lib s.stored (some value)
    some (Sys.share place { s with
      stored := some value
      published := fun j => s.published j ++ [⟨key, patches⟩] } i patches)
  | .receive i =>
    match s.published i with
    | [] => none
    | message :: rest =>
      let s := { s with published := update s.published i rest }
      match s.channels i with
      | none => some s
      | some channel =>
        if channel.topic = message.topic then
          some (s.setChannel place i (channel.onPublish message.patches))
        else some s
  | .fire i => (s.channels i).bind fun channel => channel.fire.map (s.setChannel place i)
  | .deliver c =>
    match s.inFlight c with
    | [] => none
    | patches :: rest =>
      some { s with
        inFlight := update s.inFlight c rest
        mirrors := update s.mirrors c ((s.mirrors c).onStateFrame lib (.statePatch patches)) }

/-- The patches that wait at an instance. -/
def Sys.pendingAt (s : Sys ι κ) (i : ι) : List StatePatch :=
  (s.channels i).elim [] SyncChannel.pendingPatches

/-- A call's patches turn the stored value into the new one. -/
def Turned (lib : FastJsonPatch) (s : Sys ι κ) : Act ι κ → Prop
  | .setState _ value => lib.Turns s.stored value
  | .receive _ | .fire _ | .deliver _ => True

instance (lib : FastJsonPatch) (s : Sys ι κ) : ∀ a, Decidable (Turned lib s a)
  | .setState _ value => inferInstanceAs (Decidable (lib.Turns s.stored value))
  | .receive _ | .fire _ | .deliver _ => .isTrue trivial

/-- A change is made at instance `j`. -/
def Local (lib : FastJsonPatch) (j : ι) (s : Sys ι κ) : Act ι κ → Prop
  | .setState i value => diff lib s.stored (some value) = [] ∨ i = j
  | .receive _ | .fire _ | .deliver _ => True

instance [DecidableEq ι] (lib : FastJsonPatch) (j : ι) (s : Sys ι κ) :
    ∀ a, Decidable (Local lib j s a)
  | .setState _ _ => inferInstanceAs (Decidable (_ ∨ _))
  | .receive _ | .fire _ | .deliver _ => .isTrue trivial

/-- The values that a run sets. -/
def setValues (as : List (Act ι κ)) : List Json :=
  as.filterMap fun
    | .setState _ value => some value
    | _ => none

/-! ## What a client is to get leads to what is stored -/

variable {lib : FastJsonPatch} {key : String} {place : κ → ι} {s t : Sys ι κ} {c : κ}

/-- Frames on their way to `c` and then the patches that wait at its instance lead from what it has
to what is stored. -/
structure Inv (lib : FastJsonPatch) (key : String) (place : κ → ι) (c : κ)
    (s : Sys ι κ) : Prop where
  stored : ∀ a ∈ s.stored, a.IsObject
  channels : ∀ i, ∀ channel ∈ s.channels i, channel.key = key
  published : ∀ i, ∀ message ∈ s.published i, message.topic = key
  leads : (s.mirrors c).applyAll lib (s.inFlight c ++ [s.pendingAt (place c)]) = .ok ⟨s.stored⟩

/-- A client begins with what is stored, and nothing is on its way. -/
theorem inv_init {options : ι → Option SyncChannelOptions} {start : Option Json}
    (hstart : ∀ a ∈ start, a.IsObject) : Inv lib key place c (init key options start) where
  stored := hstart
  channels i channel h := by
    obtain ⟨o, _, rfl⟩ := Option.mem_map.mp h
    rfl
  published _ _ h := nomatch h
  leads := by
    have hpending : (init key options start : Sys ι κ).pendingAt (place c) = [] := by
      cases h : options (place c) <;> simp [Sys.pendingAt, init, h, SyncChannel.new]
    rw [hpending]
    rfl

/-- A batch handed on and the rest that waits come to the same as all of it waiting. -/
theorem applyAll_handsOn {channel : SyncChannel} {patches : List StatePatch}
    {r : SyncChannel × List (List StatePatch)} (h : channel.HandsOn patches r)
    (store : StateStore) (frames : List (List StatePatch)) :
    store.applyAll lib (frames ++ r.2 ++ [r.1.pendingPatches]) =
      store.applyAll lib (frames ++ [patches]) := by
  rcases h.batches with ⟨hbatches, hpending⟩ | ⟨hbatches, hpending⟩
  · rw [hbatches, hpending, List.append_nil]
  · have hnil := @StateStore.applyAll_skip lib store (frames ++ [patches]) [[]] []
      (fun ps hps => List.mem_singleton.mp hps)
    rw [List.append_nil, List.append_nil] at hnil
    rw [hbatches, hpending]
    exact hnil

/-- A call of the channel at `i` that is to hand on `patches` may hand them on or keep them. -/
theorem inv_setChannel [DecidableEq ι] (h : Inv lib key place c s) {i : ι} {channel : SyncChannel}
    (hchannel : s.channels i = some channel) {patches : List StatePatch}
    {r : SyncChannel × List (List StatePatch)} (hr : channel.HandsOn patches r)
    {stored : Option Json} (hstored : ∀ a ∈ stored, a.IsObject)
    {published : ι → List Message} (hpublished : ∀ j, ∀ m ∈ published j, m.topic = key)
    (hown : place c = i →
      (s.mirrors c).applyAll lib (s.inFlight c ++ [patches]) = .ok ⟨stored⟩)
    (hother : place c ≠ i → stored = s.stored) :
    Inv lib key place c
      (Sys.setChannel place { s with stored := stored, published := published } i r) where
  stored := hstored
  channels j := by
    by_cases hj : j = i
    · subst hj
      simp only [Sys.setChannel, Sys.broadcast, update_self]
      rintro _ ⟨⟩
      rw [hr.key]
      exact h.channels j channel hchannel
    · simp only [Sys.setChannel, Sys.broadcast, update_of_ne hj]
      exact h.channels j
  published := hpublished
  leads := by
    by_cases hi : place c = i
    · simp only [Sys.setChannel, Sys.broadcast, Sys.pendingAt, hi, update_self]
      exact (applyAll_handsOn hr _ _).trans (hown hi)
    · simp only [Sys.setChannel, Sys.broadcast, Sys.pendingAt, if_neg hi, update_of_ne hi]
      rw [hother hi]
      exact h.leads

/-- A change at the client's own instance is broadcast there, and one elsewhere that is none does
not matter. -/
theorem inv_setState [DecidableEq ι] (h : Inv lib key place c s) {i : ι} {value : Json}
    (hvalue : value.IsObject) (hturn : lib.Turns s.stored value)
    (hlocal : diff lib s.stored (some value) = [] ∨ i = place c) :
    Inv lib key place c (Sys.share place { s with
      stored := some value
      published := fun j => s.published j ++ [⟨key, diff lib s.stored (some value)⟩] } i
      (diff lib s.stored (some value))) := by
  have hstored : ∀ a ∈ some value, a.IsObject := by
    rintro _ ⟨⟩
    exact hvalue
  have hpublished : ∀ j, ∀ m ∈ s.published j ++ [⟨key, diff lib s.stored (some value)⟩],
      Message.topic m = key := by
    intro j m hm
    rcases List.mem_append.mp hm with hm | hm
    · exact h.published j m hm
    · rw [List.mem_singleton.mp hm]
  -- what matters of the patches is what they turn into what
  generalize hpatches : diff lib s.stored (some value) = patches at *
  rw [FastJsonPatch.Turns, hpatches] at hturn
  unfold Sys.share
  by_cases hne : patches = []
  · -- nothing to share, and what is stored is what was
    subst hne
    obtain hsame : s.stored = some value := Except.ok.inj hturn
    exact ⟨hstored, h.channels, hpublished, hsame ▸ h.leads⟩
  obtain rfl : i = place c := hlocal.resolve_left hne
  rw [if_neg (by simpa using hne)]
  -- what is on its way and waits leads to what is stored, with the patches at its end
  have hleads := StateStore.applyAll_enqueue h.leads (nonNull_of_isObject h.stored) hturn
  cases hchannel : s.channels (place c) with
  | none =>
    -- without a channel they are on their way at once
    have hpending : s.pendingAt (place c) = [] := by simp [Sys.pendingAt, hchannel]
    rw [hpending, List.nil_append] at hleads
    refine ⟨hstored, h.channels, hpublished, ?_⟩
    simp only [hchannel, Sys.broadcast, Sys.pendingAt, if_true, Option.elim_none]
    rw [StateStore.applyAll_append, hleads]
    rfl
  | some channel =>
    -- with one they wait, or what waits is handed on with them
    have hpending : s.pendingAt (place c) = channel.pendingPatches := by
      simp [Sys.pendingAt, hchannel]
    rw [hpending] at hleads
    exact inv_setChannel h hchannel (channel.enqueue_handsOn patches) hstored hpublished
      (fun _ => hleads) fun hother => absurd rfl hother

/-- A message is handed to no channel. -/
theorem inv_receive [DecidableEq ι] (h : Inv lib key place c s) {i : ι} {message : Message}
    {rest : List Message}
    (hreceived : s.published i = message :: rest) :
    Inv lib key place c { s with published := update s.published i rest } where
  stored := h.stored
  channels := h.channels
  published j := by
    by_cases hj : j = i
    · subst hj
      simp only [update_self]
      exact fun m hm => h.published j m (hreceived ▸ List.mem_cons_of_mem _ hm)
    · simp only [update_of_ne hj]
      exact h.published j
  leads := h.leads

/-- A channel hands on what waits, which is on its way from then on. -/
theorem inv_fire [DecidableEq ι] (h : Inv lib key place c s) {i : ι} {channel : SyncChannel}
    (hchannel : s.channels i = some channel) {r : SyncChannel × List (List StatePatch)}
    (hr : channel.fire = some r) : Inv lib key place c (s.setChannel place i r) := by
  refine inv_setChannel h hchannel (SyncChannel.fire_handsOn hr) h.stored h.published ?_
    (fun _ => rfl)
  rintro rfl
  have hleads := h.leads
  rwa [Sys.pendingAt, hchannel] at hleads

/-- A client takes the first frame that is on its way to it. -/
theorem inv_deliver [DecidableEq κ] (h : Inv lib key place c s) {d : κ} {patches : List StatePatch}
    {rest : List (List StatePatch)} (hflight : s.inFlight d = patches :: rest) :
    Inv lib key place c { s with
      inFlight := update s.inFlight d rest
      mirrors := update s.mirrors d ((s.mirrors d).onStateFrame lib (.statePatch patches)) } where
  stored := h.stored
  channels := h.channels
  published := h.published
  leads := by
    by_cases hd : c = d
    · subst hd
      have hleads := h.leads
      rw [hflight, List.cons_append, StateStore.applyAll_cons] at hleads
      cases happly : (s.mirrors c).applyPatches lib patches with
      | error e => rw [happly] at hleads; cases hleads
      | ok store =>
        rw [happly] at hleads
        have hframe : (s.mirrors c).onStateFrame lib (.statePatch patches) = store := by
          simp [StateStore.onStateFrame, happly, Except.toOption]
        simp only [update_self, hframe]
        exact hleads
    · simp only [update_of_ne hd]
      exact h.leads

/-- Every step keeps the invariant of a client whose own instance makes the change. -/
theorem inv_step [DecidableEq ι] [DecidableEq κ] (h : Inv lib key place c s) {a : Act ι κ}
    (hobj : ∀ i value, a = .setState i value → value.IsObject) (hturn : Turned lib s a)
    (hlocal : Local lib (place c) s a) (hstep : step lib key place s a = some t) :
    Inv lib key place c t := by
  cases a with
  | setState i value =>
    cases hstep
    exact inv_setState h (hobj i value rfl) hturn hlocal
  | receive i =>
    cases hreceived : s.published i with
    | nil => simp [step, hreceived] at hstep
    | cons message rest =>
      simp only [step, hreceived] at hstep
      cases hchannel : s.channels i with
      | none =>
        simp only [hchannel, Option.some.injEq] at hstep
        exact hstep ▸ inv_receive h hreceived
      | some channel =>
        -- what is published is under the key, and the channel's topic is another
        have hmessage : message.topic = channel.key := by
          rw [h.channels i channel hchannel]
          exact h.published i message (hreceived ▸ List.mem_cons_self)
        simp only [hchannel, hmessage, if_neg channel.topic_ne_key, Option.some.injEq] at hstep
        exact hstep ▸ inv_receive h hreceived
  | fire i =>
    obtain ⟨channel, hchannel, hfire⟩ := Option.bind_eq_some_iff.mp hstep
    obtain ⟨r, hr, rfl⟩ := Option.map_eq_some_iff.mp hfire
    exact inv_fire h hchannel hr
  | deliver d =>
    cases hflight : s.inFlight d with
    | nil => simp [step, hflight] at hstep
    | cons patches rest =>
      simp only [step, hflight, Option.some.injEq] at hstep
      exact hstep ▸ inv_deliver h hflight

theorem mem_setValues {i : ι} {value : Json} {as : List (Act ι κ)}
    (h : Act.setState i value ∈ as) : value ∈ setValues as :=
  List.mem_filterMap.mpr ⟨_, h, rfl⟩

/-- Once its frames have reached it and nothing waits at its instance, a client has what is stored,
if every change was made at its instance. -/
theorem local_changes_reach_client [DecidableEq ι] [DecidableEq κ]
    {options : ι → Option SyncChannelOptions}
    {start : Option Json} {as : List (Act ι κ)} (c : κ)
    (hobj : ∀ a ∈ start.toList ++ setValues as, a.IsObject)
    (hturn : Machine.Guarded (step lib key place) (Turned lib) (init key options start) as)
    (hlocal : Machine.Guarded (step lib key place) (Local lib (place c)) (init key options start) as)
    (hrun : Machine.exec (step lib key place) (init key options start) as = some s)
    (hflight : s.inFlight c = []) (hpending : s.pendingAt (place c) = []) :
    (s.mirrors c).state = s.stored := by
  have hinv : Inv lib key place c s := by
    refine Machine.exec_invariant_guarded ?_ (inv_init fun a ha => ?_)
      ((Machine.guarded_of_mem (fun _ ha => ha) _).and (hturn.and hlocal)) hrun
    · rintro s a t hI ⟨ha, hturn, hlocal⟩ hstep
      refine inv_step hI ?_ hturn hlocal hstep
      rintro i value rfl
      exact hobj value (List.mem_append_right _ (mem_setValues ha))
    · exact hobj a (List.mem_append_left _ (Option.mem_toList.mpr ha))
  have hleads := hinv.leads
  rw [hflight, hpending, List.nil_append] at hleads
  exact Except.ok.inj (StateStore.applyAll_singleton.mp hleads)

/-! ## Two instances -/

/-- Instance 0 batches; instance 1 has no channel. -/
def options : Fin 2 → Option SyncChannelOptions
  | 0 => some { flushStrategy := .batched }
  | 1 => none

/-- Both changes are made at instance 0, and one batch brings them to client 0. -/
def batchedRun : List (Act (Fin 2) (Fin 2)) :=
  [.setState 0 (.obj [("a", .num 1)]), .receive 1,
    .setState 0 (.obj [("a", .num 1), ("b", .num 2)]), .fire 0, .receive 0, .deliver 0]

/-- With a batched channel the client has both values in the end. -/
theorem local_changes_reach_client_batched : ∃ s,
    Machine.exec (step LiveStateRun.flatLibrary "key" id) (init "key" options none) batchedRun =
      some s ∧
    s.stored = some (.obj [("a", .num 1), ("b", .num 2)]) ∧
    (s.mirrors 0).state = s.stored := by
  obtain ⟨s, hrun, htest⟩ := Machine.exists_exec_of_test
    (show (Machine.exec (step LiveStateRun.flatLibrary "key" id) (init "key" options none)
      batchedRun).map (fun s => decide (s.stored = some (.obj [("a", .num 1), ("b", .num 2)]) ∧
        s.inFlight 0 = [] ∧ s.pendingAt 0 = [])) = some true by decide +kernel)
  obtain ⟨hstored, hflight, hpending⟩ := of_decide_eq_true htest
  exact ⟨s, hrun, hstored, local_changes_reach_client 0 (by decide +kernel) (by decide +kernel)
    (by decide +kernel) hrun hflight hpending⟩

/-- A change at instance 0, and every message and frame delivered. -/
def remoteRun : List (Act (Fin 2) (Fin 2)) :=
  [.setState 0 (.obj [("a", .num 1)]), .receive 0, .receive 1, .deliver 0]

/-- Each instance has a channel that subscribed, and the client of instance 1 hears of nothing. -/
theorem remote_change_not_told : ∃ s : Sys (Fin 2) (Fin 2),
    Machine.exec (step LiveStateRun.flatLibrary "key" id)
      (init "key" (fun _ => some { flushStrategy := .immediate }) none) remoteRun = some s ∧
    Machine.Guarded (step LiveStateRun.flatLibrary "key" id) (Turned LiveStateRun.flatLibrary)
      (init "key" (fun _ => some { flushStrategy := .immediate }) none) remoteRun ∧
    (∀ i, (s.published i).isEmpty = true ∧ s.pendingAt i = []) ∧ (∀ c, s.inFlight c = []) ∧
    s.stored = some (.obj [("a", .num 1)]) ∧ (s.mirrors 0).state = s.stored ∧
    (s.mirrors 1).state = none := by
  obtain ⟨s, hrun, htest⟩ := Machine.exists_exec_of_test
    (show (Machine.exec (step LiveStateRun.flatLibrary "key" id)
      (init "key" (fun _ => some { flushStrategy := .immediate }) none) remoteRun).map
      (fun s : Sys (Fin 2) (Fin 2) => decide ((∀ i, (s.published i).isEmpty = true ∧
        s.pendingAt i = []) ∧ (∀ c, s.inFlight c = []) ∧ s.stored = some (.obj [("a", .num 1)]) ∧
        (s.mirrors 0).state = s.stored ∧ (s.mirrors 1).state = none)) = some true by
      decide +kernel)
  exact ⟨s, hrun, by decide +kernel, of_decide_eq_true htest⟩

end LiveStateCluster

end Datasole
