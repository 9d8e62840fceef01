import Datasole.Common.Machine
import Datasole.Server.Sync.SyncChannel

/-!
# Runs of a sync channel

A channel with a listener that was registered at once. Patches are enqueued or arrive from the
backend, the channel is flushed by hand or by its timer, and at the end it is destroyed.

The three strategies treat `flushTimer` differently: a batched channel sets it to `null` when it
fires and leaves it set when its size makes it flush, a debounced one leaves it set when it fires
and makes a new one for every call. What makes both right is in `Kept`: what is pending has a timer
that is still to fire, and on a batched channel there is no other.
-/

namespace Datasole

namespace SyncChannel

/-- A channel between two calls. -/
structure Kept (c : SyncChannel) : Prop where
  armed : c.pendingPatches ≠ [] → ∃ t, c.flushTimer = some t ∧ t.armed = true
  /-- A batched channel that has a timer does not make one, so it is still to fire. -/
  batchedTimer : c.options.flushStrategy = .batched → ∀ t ∈ c.flushTimer, t.armed = true
  immediate : c.options.flushStrategy = .immediate → c.pendingPatches = []
  batched : c.options.flushStrategy = .batched → c.pendingPatches ≠ [] →
    (c.pendingPatches.length : ℚ) < c.options.maxBatchSize.getD 100

variable {c : SyncChannel} {r : SyncChannel × List (List StatePatch)}

/-- A channel that has nothing pending. -/
theorem kept_of_nil (hnil : c.pendingPatches = [])
    (htimer : c.options.flushStrategy = .batched → ∀ t ∈ c.flushTimer, t.armed = true) : c.Kept where
  armed h := absurd hnil h
  batchedTimer := htimer
  immediate _ := hnil
  batched _ h := absurd hnil h

/-- A flush empties the channel and leaves the timer as it was. -/
theorem flush_fst (c : SyncChannel) : c.flush.1 = { c with pendingPatches := [] } := by
  unfold flush
  split
  · next h => rw [← List.isEmpty_iff.mp h]
  · rfl

/-- A flush broadcasts no empty batch. -/
theorem ne_nil_of_mem_flush {batch : List StatePatch} (h : batch ∈ c.flush.2) : batch ≠ [] := by
  unfold flush at h
  split at h
  · cases h
  · next hne =>
    rw [List.mem_singleton.mp h]
    exact fun hnil => hne (List.isEmpty_iff.mpr hnil)

/-- A flush leaves nothing, and the timer as it is. -/
theorem flush_kept
    (htimer : c.options.flushStrategy = .batched → ∀ t ∈ c.flushTimer, t.armed = true) :
    c.flush.1.Kept := by
  rw [flush_fst]
  exact kept_of_nil rfl htimer

/-- Whatever is pending, it has been flushed or has a timer afterwards. -/
theorem scheduleFlush_kept
    (htimer : c.options.flushStrategy = .batched → ∀ t ∈ c.flushTimer, t.armed = true) :
    c.scheduleFlush.1.Kept := by
  unfold scheduleFlush
  split
  · exact flush_kept htimer
  · next hdebounced =>
    refine ⟨fun _ => ⟨_, rfl, rfl⟩, ?_, ?_, ?_⟩ <;> exact fun h => by cases hdebounced.symm.trans h
  · next hbatched =>
    split
    · exact flush_kept htimer
    · next hfew =>
      have himmediate : c.options.flushStrategy ≠ .immediate :=
        fun h => by cases hbatched.symm.trans h
      split
      · exact ⟨fun _ => ⟨_, rfl, rfl⟩, fun _ t ht => by cases ht; rfl, fun h => absurd h himmediate,
          fun _ _ => lt_of_not_ge hfew⟩
      · next htimed =>
        obtain ⟨t, ht⟩ := Option.ne_none_iff_exists'.mp (mt Option.isNone_iff_eq_none.mpr htimed)
        exact ⟨fun _ => ⟨t, ht, htimer hbatched t ht⟩, htimer, fun h => absurd h himmediate,
          fun _ _ => lt_of_not_ge hfew⟩

/-- Nor does a channel that schedules one. -/
theorem ne_nil_of_mem_scheduleFlush {batch : List StatePatch} (h : batch ∈ c.scheduleFlush.2) :
    batch ≠ [] := by
  unfold scheduleFlush at h
  split at h
  · exact ne_nil_of_mem_flush h
  · cases h
  · split at h
    · exact ne_nil_of_mem_flush h
    · split at h <;> cases h

/-- A timer that fires is a flush of the channel with another timer. -/
theorem fire_eq (h : c.fire = some r) : ∃ timer, r = { c with flushTimer := timer }.flush ∧
    (c.options.flushStrategy = .batched → timer = none) := by
  unfold fire at h
  split at h
  · split at h
    · exact ⟨none, (Option.some.inj h).symm, fun _ => rfl⟩
    all_goals
      next hstrategy =>
        exact ⟨_, (Option.some.inj h).symm, fun hbatched => by cases hstrategy.symm.trans hbatched⟩
  · cases h

/-- The timer is still to fire, and what is pending is what it delivers. -/
def WillDeliver (c : SyncChannel) : Prop :=
  ∃ r, c.fire = some r ∧ r.2 = [c.pendingPatches] ∧ r.1.pendingPatches = []

/-- What is pending between two calls will be delivered. -/
theorem Kept.willDeliver (h : c.Kept) (hne : c.pendingPatches ≠ []) : c.WillDeliver := by
  obtain ⟨⟨delayMs, armed⟩, htimer, rfl⟩ := h.armed hne
  have hflush (timer : Option FlushTimer) : ({ c with flushTimer := timer } : SyncChannel).flush =
      ({ c with flushTimer := timer, pendingPatches := [] }, [c.pendingPatches]) := by
    rw [flush, if_neg fun hnil => hne (List.isEmpty_iff.mp hnil)]
  unfold WillDeliver fire
  rw [htimer]
  cases c.options.flushStrategy
  all_goals exact ⟨_, rfl, by rw [hflush], by rw [hflush]⟩

end SyncChannel

namespace SyncChannelRun

/-- The channel, and the batches that the listener has been given. -/
structure Sys where
  channel : SyncChannel
  batches : List (List StatePatch)
  destroyed : Bool

def init (key : String) (options : SyncChannelOptions) : Sys where
  channel := SyncChannel.new key options
  batches := []
  destroyed := false

inductive Act where
  | enqueue (patches : List StatePatch)
  /-- Something is published on the topic of the channel. `none` is a value that is no array. -/
  | publish (value : Option (List StatePatch))
  | flush
  | fire
  /-- The last call. -/
  | destroy

/-- The patches that the channel receives. -/
def Act.received : Act → List StatePatch
  | .enqueue patches => patches
  | .publish value => value.getD []
  | .flush | .fire | .destroy => []

/-- The channel and the batches that a call of it hands over. -/
def call (c : SyncChannel) : Act → Option (SyncChannel × List (List StatePatch))
  | .enqueue patches => some (c.enqueue patches)
  | .publish none => some (c, [])
  | .publish (some patches) => some (c.onPublish patches)
  | .flush => some c.flush
  | .fire => c.fire
  | .destroy => some c.destroy

def step (s : Sys) (a : Act) : Option Sys :=
  if s.destroyed then none
  else (call s.channel a).map fun (channel, batches) =>
    { channel
      batches := s.batches ++ batches
      destroyed := match a with
        | .destroy => true
        | .enqueue _ | .publish _ | .flush | .fire => false }

/-- What a run with these options promises when it has received `received`. -/
structure Sound (options : SyncChannelOptions) (received : List StatePatch) (s : Sys) : Prop where
  conserved : s.batches.flatten ++ s.channel.pendingPatches = received
  nonempty : ∀ batch ∈ s.batches, batch ≠ []
  willDeliver : s.destroyed = false → s.channel.pendingPatches ≠ [] → s.channel.WillDeliver
  immediate : options.flushStrategy = .immediate → s.channel.pendingPatches = []
  batched : options.flushStrategy = .batched → s.channel.pendingPatches ≠ [] →
    (s.channel.pendingPatches.length : ℚ) < options.maxBatchSize.getD 100
  destroyed : s.destroyed = true → s.channel.pendingPatches = []

variable {options : SyncChannelOptions} {acts : List Act} {s t : Sys}

/-- What every run keeps. -/
structure Inv (options : SyncChannelOptions) (acts : List Act) (s : Sys) : Prop where
  options : s.channel.options = options
  conserved : s.batches.flatten ++ s.channel.pendingPatches = acts.flatMap Act.received
  nonempty : ∀ batch ∈ s.batches, batch ≠ []
  kept : s.channel.Kept
  destroyed : s.destroyed = true → s.channel.pendingPatches = []

/-- A new channel has received nothing. -/
theorem inv_init (key : String) (options : SyncChannelOptions) :
    Inv options [] (init key options) where
  options := rfl
  conserved := rfl
  nonempty _ h := by cases h
  kept := SyncChannel.kept_of_nil rfl fun _ t ht => by cases ht
  destroyed _ := rfl

/-- What a call does. -/
structure Called (c : SyncChannel) (a : Act) (r : SyncChannel × List (List StatePatch)) : Prop where
  handsOn : c.HandsOn (c.pendingPatches ++ a.received) r
  nonempty : ∀ batch ∈ r.2, batch ≠ []
  kept : r.1.Kept
  drained : a = .destroy → r.1.pendingPatches = []

/-- Patches are added and a flush is scheduled, whoever sends them. -/
theorem called_scheduleFlush {c : SyncChannel} (h : c.Kept) {a : Act}
    (ha : a ≠ .destroy) : Called c a
      ({ c with pendingPatches := c.pendingPatches ++ a.received } : SyncChannel).scheduleFlush where
  handsOn := SyncChannel.enqueue_handsOn a.received
  nonempty _ hbatch := SyncChannel.ne_nil_of_mem_scheduleFlush hbatch
  kept := SyncChannel.scheduleFlush_kept h.batchedTimer
  drained h := absurd h ha

/-- A flush of the channel, with a timer that suits the strategy. -/
theorem called_flush {c : SyncChannel} {a : Act} (ha : a.received = []) {timer : Option FlushTimer}
    (htimer : c.options.flushStrategy = .batched → ∀ t ∈ timer, t.armed = true) :
    Called c a ({ c with flushTimer := timer } : SyncChannel).flush where
  handsOn := by
    have hflush := @SyncChannel.flush_handsOn { c with flushTimer := timer }
    rw [ha, List.append_nil]
    exact ⟨hflush.key, hflush.options, hflush.batches⟩
  nonempty _ hbatch := SyncChannel.ne_nil_of_mem_flush hbatch
  kept := SyncChannel.flush_kept htimer
  drained _ := by rw [SyncChannel.flush_fst]

/-- Every call delivers what is pending, in order, or keeps it. -/
theorem call_called {c : SyncChannel} (h : c.Kept) {a : Act}
    {r : SyncChannel × List (List StatePatch)}
    (hcall : call c a = some r) : Called c a r := by
  cases a with
  | enqueue patches =>
    cases hcall
    exact called_scheduleFlush h nofun
  | publish value =>
    cases value with
    | none =>
      cases hcall
      exact ⟨⟨rfl, rfl, .inl ⟨rfl, (List.append_nil _).symm⟩⟩, nofun, h, nofun⟩
    | some patches =>
      cases hcall
      exact called_scheduleFlush h nofun
  | flush =>
    cases hcall
    exact called_flush rfl h.batchedTimer
  | fire =>
    obtain ⟨timer, rfl, hnone⟩ := SyncChannel.fire_eq hcall
    exact called_flush rfl fun hbatched t ht => by rw [hnone hbatched] at ht; cases ht
  | destroy =>
    cases hcall
    exact called_flush rfl fun _ t ht => by cases ht

/-- Every step keeps the invariant. -/
theorem step_inv {a : Act} (h : Inv options acts s) (hs : step s a = some t) :
    Inv options (acts ++ [a]) t := by
  simp only [step, Option.ite_none_left_eq_some, Option.map_eq_some_iff] at hs
  obtain ⟨-, ⟨channel, batches⟩, hcall, rfl⟩ := hs
  have hcalled := call_called h.kept hcall
  refine ⟨hcalled.handsOn.options.trans h.options, ?_, ?_, hcalled.kept, ?_⟩
  · -- what the listener gets follows what it had
    rw [List.flatMap_append, List.flatMap_singleton, ← h.conserved, List.append_assoc,
      List.flatten_append, List.append_assoc, hcalled.handsOn.conserves]
  · intro batch hbatch
    exact (List.mem_append.mp hbatch).elim (h.nonempty batch) (hcalled.nonempty batch)
  · cases a with
    | destroy => exact fun _ => hcalled.drained rfl
    | enqueue _ | publish _ | flush | fire => exact nofun

/-- The invariant has what a run promises. -/
theorem Inv.sound (h : Inv options acts s) : Sound options (acts.flatMap Act.received) s where
  conserved := h.conserved
  nonempty := h.nonempty
  willDeliver _ hne := h.kept.willDeliver hne
  immediate himmediate := h.kept.immediate (h.options ▸ himmediate)
  batched hbatched hne := h.options ▸ h.kept.batched (h.options ▸ hbatched) hne
  destroyed := h.destroyed

/-- Whatever the options and whoever calls when: the listener has been given what the channel has
received, in order, up to what is pending, in batches that are not empty. What is pending has a
timer that is still to fire. -/
theorem channel_sound (key : String) (options : SyncChannelOptions) (acts : List Act)
    (hrun : Machine.exec step (init key options) acts = some s) :
    Sound options (acts.flatMap Act.received) s :=
  (Machine.exec_history (fun _ _ _ _ h hs => step_inv h hs) (inv_init key options) hrun).sound

/-- Batches of two, or every 100 ms. -/
def inTwos : SyncChannelOptions where
  flushStrategy := .batched
  maxBatchSize := some 2

/-- One patch and two more, one that waits for the timer, and one that waits for the end. -/
def fivePatches : List Act :=
  let patch : StatePatch := { op := "remove", path := "/a" }
  [.enqueue [patch], .publish none, .publish (some [patch, patch]), .enqueue [patch], .fire,
    .enqueue [patch], .destroy]

/-- The five patches of the example come in three batches. -/
theorem fivePatches_sound : ∃ s, Machine.exec step (init "k" inTwos) fivePatches = some s ∧
    s.batches.map List.length = [3, 1, 1] ∧ Sound inTwos (fivePatches.flatMap Act.received) s := by
  obtain ⟨s, hrun, hend⟩ := Machine.exists_exec_of_test
    (show (Machine.exec step (init "k" inTwos) fivePatches).map (fun s =>
      decide (s.batches.map List.length = [3, 1, 1])) = some true by decide +kernel)
  exact ⟨s, hrun, of_decide_eq_true hend, channel_sound "k" inTwos fivePatches hrun⟩

end SyncChannelRun

end Datasole
