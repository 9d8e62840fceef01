import Datasole.Shared.Diff.JsonPatch

/-!
# Sync channels

`SyncChannel` of `server/primitives/sync/sync-channel.ts`: patches wait in a channel until its flush
strategy hands them to the listeners. A call gives the channel after it and the batches that every
listener was given, in order.
-/

namespace Datasole

inductive FlushStrategy where
  | immediate | batched | debounced
deriving DecidableEq, Repr

structure SyncChannelOptions where
  flushStrategy : FlushStrategy
  batchIntervalMs : Option ℚ := none
  debounceMs : Option ℚ := none
  maxBatchSize : Option ℚ := none

/-- What `setTimeout` returned: its delay, and whether it is still to fire. -/
structure FlushTimer where
  delayMs : ℚ
  armed : Bool

structure SyncChannel where
  key : String
  options : SyncChannelOptions
  pendingPatches : List StatePatch
  flushTimer : Option FlushTimer

namespace SyncChannel

def new (key : String) (options : SyncChannelOptions) : SyncChannel where
  key := key
  options := options
  pendingPatches := []
  flushTimer := none

def flush (c : SyncChannel) : SyncChannel × List (List StatePatch) :=
  if c.pendingPatches.isEmpty then (c, [])
  else ({ c with pendingPatches := [] }, [c.pendingPatches])

def scheduleFlush (c : SyncChannel) : SyncChannel × List (List StatePatch) :=
  match c.options.flushStrategy with
  | .immediate => c.flush
  | .debounced =>
    -- a timer that was armed before is cleared
    ({ c with flushTimer := some ⟨c.options.debounceMs.getD 50, true⟩ }, [])
  | .batched =>
    if c.options.maxBatchSize.getD 100 ≤ c.pendingPatches.length then c.flush
    else if c.flushTimer.isNone then
      ({ c with flushTimer := some ⟨c.options.batchIntervalMs.getD 100, true⟩ }, [])
    else (c, [])

def enqueue (c : SyncChannel) (patches : List StatePatch) : SyncChannel × List (List StatePatch) :=
  { c with pendingPatches := c.pendingPatches ++ patches }.scheduleFlush

/-- What the backend is asked to deliver to the channel. -/
def topic (c : SyncChannel) : String := "sync:" ++ c.key

/-- The handler that the constructor subscribes. -/
def onPublish (c : SyncChannel) (patches : List StatePatch) :
    SyncChannel × List (List StatePatch) :=
  { c with pendingPatches := c.pendingPatches ++ patches }.scheduleFlush

/-- The callback of a timer that is still to fire. -/
def fire (c : SyncChannel) : Option (SyncChannel × List (List StatePatch)) :=
  match c.flushTimer with
  | some ⟨delayMs, true⟩ =>
    match c.options.flushStrategy with
    | .batched => some { c with flushTimer := none }.flush
    | .immediate | .debounced => some { c with flushTimer := some ⟨delayMs, false⟩ }.flush
  | _ => none

/-- The channel that `destroy` leaves has no listeners and no subscription any more. -/
def destroy (c : SyncChannel) : SyncChannel × List (List StatePatch) :=
  { c with flushTimer := none }.flush

/-- An immediate channel between two calls. -/
structure Immediate (c : SyncChannel) : Prop where
  strategy : c.options.flushStrategy = .immediate
  nothingPending : c.pendingPatches = []

theorem immediate_new (key : String) {options : SyncChannelOptions}
    (h : options.flushStrategy = .immediate) : (new key options).Immediate :=
  ⟨h, rfl⟩

variable {c : SyncChannel}

/-- A call of `c` hands on `patches` as one batch, or keeps them all. -/
structure HandsOn (c : SyncChannel) (patches : List StatePatch)
    (r : SyncChannel × List (List StatePatch)) : Prop where
  key : r.1.key = c.key
  options : r.1.options = c.options
  batches : r.2 = [] ∧ r.1.pendingPatches = patches ∨ r.2 = [patches] ∧ r.1.pendingPatches = []

variable {patches : List StatePatch} {r : SyncChannel × List (List StatePatch)}

/-- No patch is lost, repeated or moved. -/
theorem HandsOn.conserves (h : c.HandsOn patches r) :
    r.2.flatten ++ r.1.pendingPatches = patches := by
  rcases h.batches with ⟨hbatches, hpending⟩ | ⟨hbatches, hpending⟩
  · rw [hbatches, hpending]
    rfl
  · rw [hbatches, hpending, List.flatten_singleton, List.append_nil]

/-- A flush hands on all that is pending. -/
theorem flush_handsOn : c.HandsOn c.pendingPatches c.flush := by
  unfold flush
  split
  · exact ⟨rfl, rfl, .inl ⟨rfl, rfl⟩⟩
  · exact ⟨rfl, rfl, .inr ⟨rfl, rfl⟩⟩

/-- The strategy decides whether it is handed on now or later. -/
theorem scheduleFlush_handsOn : c.HandsOn c.pendingPatches c.scheduleFlush := by
  unfold scheduleFlush
  split
  · exact flush_handsOn
  · exact ⟨rfl, rfl, .inl ⟨rfl, rfl⟩⟩
  · split
    · exact flush_handsOn
    · split <;> exact ⟨rfl, rfl, .inl ⟨rfl, rfl⟩⟩

/-- Whatever the strategy, a call adds its patches behind those that wait. -/
theorem enqueue_handsOn (patches : List StatePatch) :
    c.HandsOn (c.pendingPatches ++ patches) (c.enqueue patches) :=
  have h := @scheduleFlush_handsOn { c with pendingPatches := c.pendingPatches ++ patches }
  ⟨h.key, h.options, h.batches⟩

/-- A timer that fires hands on all that is pending. -/
theorem fire_handsOn (h : c.fire = some r) : c.HandsOn c.pendingPatches r := by
  have hflush (timer : Option FlushTimer) :
      c.HandsOn c.pendingPatches { c with flushTimer := timer }.flush :=
    have h := @flush_handsOn { c with flushTimer := timer }
    ⟨h.key, h.options, h.batches⟩
  unfold fire at h
  split at h
  · split at h <;> cases h <;> exact hflush _
  · cases h

/-- A destroyed channel keeps nothing. -/
theorem destroy_eq : c.destroy.2.flatten = c.pendingPatches ∧ c.destroy.1.pendingPatches = [] := by
  unfold destroy flush
  split
  · next h => exact ⟨(List.isEmpty_iff.mp h).symm, List.isEmpty_iff.mp h⟩
  · exact ⟨List.flatten_singleton, rfl⟩

/-- A channel does not listen to what is published under its own key. -/
theorem topic_ne_key (c : SyncChannel) : c.topic ≠ c.key := by
  intro h
  have hlength := congrArg String.length h
  rw [topic, String.length_append] at hlength
  have : "sync:".length = 5 := rfl
  omega

/-- An immediate channel hands on the patches of a call as one batch and keeps nothing. -/
theorem Immediate.enqueue (h : c.Immediate) {patches : List StatePatch} (hne : patches ≠ []) :
    c.enqueue patches = (c, [patches]) := by
  have hpending : ({ c with pendingPatches := patches } : SyncChannel).pendingPatches.isEmpty =
      false := by
    simpa using hne
  simp only [SyncChannel.enqueue, scheduleFlush, h.strategy, h.nothingPending, List.nil_append,
    flush, hpending, Bool.false_eq_true, if_false]
  rw [← h.nothingPending]

end SyncChannel

end Datasole
