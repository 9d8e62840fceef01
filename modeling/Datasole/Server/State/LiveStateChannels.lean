import Datasole.Common.Machine
import Datasole.Server.State.LiveStateRun

/-!
# A live state whose sync channel is replaced

Awaited calls of `ServerLiveState.setState` on one key, between calls that create sync channels for
it, directly or through the `ChannelManager`, and timers that fire. A timer may fire at any moment
once it is armed; that is at least what its delay allows.

`createSyncChannel` puts a new channel in the place of the old one and does nothing about the old
one: it keeps its patches until its timer fires, while the new one hands on later patches. `InOrder`
says when that does no harm: whatever is handed on is older than all that waits elsewhere, and
nothing waits in a replaced channel when the channels are destroyed.
-/

namespace Datasole

/-! ## Data channels -/

inductive DataFlowPattern where
  | rpc | serverEvent | clientEvent | bidirectionalEvent | serverLiveState | clientLiveState
  | bidirectionalCrdt
deriving DecidableEq, Repr

inductive SyncGranularity where
  | immediate | batched | debounced | manual
deriving DecidableEq, Repr

structure LiveStateConfig where
  pattern : DataFlowPattern
  granularity : SyncGranularity
  batchIntervalMs : Option ℚ := none
  debounceMs : Option ℚ := none

namespace ChannelManager

def granularityToFlushStrategy : SyncGranularity → FlushStrategy
  | .immediate => .immediate
  | .batched => .batched
  | .debounced => .debounced
  | .manual => .immediate

/-- The options of the sync channel that a data channel comes with, if it comes with one. -/
def syncOptions (config : LiveStateConfig) : Option SyncChannelOptions :=
  match config.pattern with
  | .rpc | .serverEvent | .clientEvent | .bidirectionalEvent => none
  | .serverLiveState | .clientLiveState | .bidirectionalCrdt =>
    some {
      flushStrategy := granularityToFlushStrategy config.granularity
      batchIntervalMs := some (config.batchIntervalMs.getD 100)
      debounceMs := some (config.debounceMs.getD 50) }

end ChannelManager

namespace LiveStateChannels

/-- The backend's entry for the key, the channel under it and the ones that were replaced, the
oldest first, whether the key has a data channel, the patch lists that the calls of `setState` gave,
and those handed to `broadcastStatePatch`. -/
structure Sys where
  stored : Option Json
  replaced : List SyncChannel
  current : Option SyncChannel
  dataChannel : Bool
  produced : List (List StatePatch)
  broadcasts : List (List StatePatch)

inductive Act where
  | setState (value : Json)
  | createSyncChannel (options : SyncChannelOptions)
  | createDataChannel (config : LiveStateConfig)
  | closeDataChannel
  /-- The timer of the channel under the key fires. -/
  | fire
  /-- The timer of the `k`-th replaced channel fires. -/
  | fireReplaced (k : ℕ)
  | destroySyncChannels

def init (stored : Option Json) : Sys where
  stored := stored
  replaced := []
  current := none
  dataChannel := false
  produced := []
  broadcasts := []

/-- The new channel takes the old one's place in the map. -/
def Sys.createSyncChannel (key : String) (s : Sys) (options : SyncChannelOptions) : Sys :=
  { s with
    replaced := s.replaced ++ s.current.toList
    current := some (.new key options) }

/-- `ChannelManager.create`; a key that has a data channel keeps it. -/
def Sys.createDataChannel (key : String) (s : Sys) (config : LiveStateConfig) : Sys :=
  if s.dataChannel then s
  else
    match ChannelManager.syncOptions config with
    | none => { s with dataChannel := true }
    | some options => { s.createSyncChannel key options with dataChannel := true }

/-- The end of `ServerLiveState.setState`. -/
def Sys.share (s : Sys) (patches : List StatePatch) : Sys :=
  if patches.isEmpty then s
  else
    match s.current with
    | none => { s with broadcasts := s.broadcasts ++ [patches] }
    | some channel =>
      let (channel, batches) := channel.enqueue patches
      { s with current := some channel, broadcasts := s.broadcasts ++ batches }

def step (lib : FastJsonPatch) (key : String) (s : Sys) : Act → Option Sys
  | .setState value =>
    let patches := diff lib s.stored (some value)
    some (Sys.share { s with
      stored := some value
      produced := s.produced ++ [patches] } patches)
  | .createSyncChannel options => some (s.createSyncChannel key options)
  | .createDataChannel config => some (s.createDataChannel key config)
  | .closeDataChannel => some { s with dataChannel := false }
  | .fire =>
    (s.current.bind SyncChannel.fire).map fun (channel, batches) =>
      { s with current := some channel, broadcasts := s.broadcasts ++ batches }
  | .fireReplaced k =>
    (s.replaced[k]?.bind SyncChannel.fire).map fun (channel, batches) =>
      { s with replaced := s.replaced.set k channel, broadcasts := s.broadcasts ++ batches }
  | .destroySyncChannels =>
    -- only the channel in the map; the others keep their listeners and timers
    match s.current with
    | none => some s
    | some channel =>
      some { s with current := none, broadcasts := s.broadcasts ++ channel.destroy.2 }

/-- Nothing waits in these channels. -/
def Drained (channels : List SyncChannel) : Prop := ∀ c ∈ channels, c.pendingPatches = []

instance (channels : List SyncChannel) : Decidable (Drained channels) :=
  inferInstanceAs (Decidable (∀ c ∈ channels, _ = _))

/-- Patches that are enqueued now are handed on at once, with those that wait in the channel. -/
def Sys.passesOn (s : Sys) (patches : List StatePatch) : Bool :=
  match s.current with
  | none => true
  | some channel => !(channel.enqueue patches).2.isEmpty

/-- What a step hands on is older than whatever waits elsewhere, and `destroySyncChannels` leaves
nothing waiting. -/
def InOrder (lib : FastJsonPatch) (s : Sys) : Act → Prop
  | .setState value =>
    diff lib s.stored (some value) ≠ [] → s.passesOn (diff lib s.stored (some value)) = true →
      Drained s.replaced
  | .fire => ∀ c ∈ s.current, c.pendingPatches ≠ [] → Drained s.replaced
  | .fireReplaced k => ∀ c ∈ s.replaced[k]?, c.pendingPatches ≠ [] → Drained (s.replaced.take k)
  | .destroySyncChannels => Drained s.replaced
  | .createSyncChannel _ | .createDataChannel _ | .closeDataChannel => True

instance (lib : FastJsonPatch) (s : Sys) : ∀ a, Decidable (InOrder lib s a)
  | .setState _ => inferInstanceAs (Decidable (_ → _ → _))
  | .fire | .fireReplaced _ => inferInstanceAs (Decidable (∀ _ ∈ _, _ → _))
  | .destroySyncChannels => inferInstanceAs (Decidable (Drained _))
  | .createSyncChannel _ | .createDataChannel _ | .closeDataChannel => .isTrue trivial

/-! ## What is produced is what was handed on and what waits -/

variable {lib : FastJsonPatch} {key : String} {s t : Sys}

/-- What waits in some channels, the oldest first. -/
def waiting (channels : List SyncChannel) : List StatePatch :=
  channels.flatMap SyncChannel.pendingPatches

theorem waiting_append (as bs : List SyncChannel) : waiting (as ++ bs) = waiting as ++ waiting bs :=
  List.flatMap_append

theorem waiting_cons (c : SyncChannel) (cs : List SyncChannel) :
    waiting (c :: cs) = c.pendingPatches ++ waiting cs :=
  List.flatMap_cons

@[simp] theorem waiting_nil : waiting [] = [] := rfl

theorem Drained.waiting {channels : List SyncChannel} (h : Drained channels) :
    waiting channels = [] :=
  List.flatMap_eq_nil_iff.mpr h

/-- No patch is lost, repeated or moved. -/
def Conserved (s : Sys) : Prop :=
  s.produced.flatten = s.broadcasts.flatten ++ waiting (s.replaced ++ s.current.toList)

/-- A channel that is to hand on `patches` may hand them on if nothing older waits, or keep them. -/
theorem handsOn_conserves {channel : SyncChannel} {patches : List StatePatch}
    {r : SyncChannel × List (List StatePatch)} (hr : channel.HandsOn patches r)
    {older newer : List SyncChannel} (holder : r.2.flatten ≠ [] → Drained older)
    (broadcasts : List (List StatePatch)) :
    (broadcasts ++ r.2).flatten ++ waiting (older ++ r.1 :: newer) =
      broadcasts.flatten ++ (waiting older ++ (patches ++ waiting newer)) := by
  rw [List.flatten_append, waiting_append, waiting_cons, ← hr.conserves]
  by_cases hkept : r.2.flatten = []
  · simp [hkept]
  · simp [(holder hkept).waiting]

/-- Patches are handed on, wait behind all that wait already, or are sent without a channel. -/
theorem share_conserves {patches : List StatePatch}
    (hg : patches ≠ [] → s.passesOn patches = true → Drained s.replaced) (h : Conserved s)
    (stored : Option Json) :
    Conserved (Sys.share { s with
      stored := stored
      produced := s.produced ++ [patches] } patches) := by
  unfold Conserved at h ⊢
  unfold Sys.share
  by_cases hne : patches = []
  · subst hne
    simpa using h
  rw [if_neg (by simpa using hne)]
  cases hcurrent : s.current with
  | none =>
    have hdrained := hg hne (by rw [Sys.passesOn, hcurrent])
    rw [hcurrent, Option.toList_none, List.append_nil, hdrained.waiting, List.append_nil] at h
    simp [h, hdrained.waiting]
  | some channel =>
    rw [hcurrent, Option.toList_some, waiting_append, waiting_cons] at h
    have holder : (channel.enqueue patches).2.flatten ≠ [] → Drained s.replaced := by
      intro hbatches
      refine hg hne ?_
      rw [Sys.passesOn, hcurrent]
      cases hr : (channel.enqueue patches).2 with
      | nil => simp [hr] at hbatches
      | cons batch batches => simp [hr]
    have hconserves := @handsOn_conserves channel _ _ (channel.enqueue_handsOn patches) s.replaced
      [] holder s.broadcasts
    simp only [Option.toList_some]
    rw [hconserves, List.flatten_append, h]
    simp

/-- A replaced channel keeps what waits in it. -/
theorem createSyncChannel_conserves (h : Conserved s) (options : SyncChannelOptions) :
    Conserved (s.createSyncChannel key options) := by
  unfold Conserved at h ⊢
  simp only [Sys.createSyncChannel, Option.toList_some, waiting_append, waiting_cons, waiting_nil,
    SyncChannel.new, List.append_nil] at h ⊢
  exact h

/-- A data channel replaces the key's channel, or leaves it. -/
theorem createDataChannel_conserves (h : Conserved s) (config : LiveStateConfig) :
    Conserved (s.createDataChannel key config) := by
  unfold Sys.createDataChannel
  split
  · exact h
  · split
    · exact h
    · exact createSyncChannel_conserves h _

/-- A batch that a timer hands on is what waited in its channel. -/
theorem pending_of_fire {channel : SyncChannel} {r : SyncChannel × List (List StatePatch)}
    (hr : channel.fire = some r) (hbatches : r.2.flatten ≠ []) : channel.pendingPatches ≠ [] := by
  intro hpending
  have hconserves := (SyncChannel.fire_handsOn hr).conserves
  rw [hpending, List.append_eq_nil_iff] at hconserves
  exact hbatches hconserves.1

/-- The key's channel hands on what waits in it, if nothing older waits. -/
theorem fire_conserves (hg : InOrder lib s .fire) (h : Conserved s)
    (hstep : step lib key s .fire = some t) : Conserved t := by
  obtain ⟨r, hfire, rfl⟩ := Option.map_eq_some_iff.mp hstep
  obtain ⟨channel, hcurrent, hr⟩ := Option.bind_eq_some_iff.mp hfire
  have holder (hbatches : r.2.flatten ≠ []) : Drained s.replaced :=
    hg channel hcurrent (pending_of_fire hr hbatches)
  have hconserves := @handsOn_conserves channel _ _ (SyncChannel.fire_handsOn hr) _ [] holder
    s.broadcasts
  unfold Conserved at h ⊢
  rw [hcurrent, Option.toList_some, waiting_append, waiting_cons] at h
  simp only [Option.toList_some]
  rw [hconserves, h]

/-- So does a channel that was replaced. -/
theorem fireReplaced_conserves {k : ℕ} (hg : InOrder lib s (.fireReplaced k)) (h : Conserved s)
    (hstep : step lib key s (.fireReplaced k) = some t) : Conserved t := by
  obtain ⟨r, hfire, rfl⟩ := Option.map_eq_some_iff.mp hstep
  obtain ⟨channel, hchannel, hr⟩ := Option.bind_eq_some_iff.mp hfire
  have holder (hbatches : r.2.flatten ≠ []) : Drained (s.replaced.take k) :=
    hg channel hchannel (pending_of_fire hr hbatches)
  obtain ⟨hk, hget⟩ := List.getElem?_eq_some_iff.mp hchannel
  -- the channels before the `k`-th are older, and those behind it newer
  have hsplit : s.replaced = s.replaced.take k ++ channel :: s.replaced.drop (k + 1) := by
    rw [← hget, ← List.drop_eq_getElem_cons hk, List.take_append_drop]
  have hset : s.replaced.set k r.1 = s.replaced.take k ++ r.1 :: s.replaced.drop (k + 1) := by
    rw [List.set_eq_take_append_cons_drop, if_pos hk]
  have hconserves := @handsOn_conserves channel _ _ (SyncChannel.fire_handsOn hr) _
    (s.replaced.drop (k + 1) ++ s.current.toList) holder s.broadcasts
  unfold Conserved at h ⊢
  rw [hsplit, List.append_assoc, List.cons_append, waiting_append, waiting_cons] at h
  simp only [hset, List.append_assoc, List.cons_append]
  rw [hconserves, h]

/-- Once the channels are destroyed in order, everything has been handed on. -/
theorem destroy_hands_on (hg : InOrder lib s .destroySyncChannels) (h : Conserved s)
    (hstep : step lib key s .destroySyncChannels = some t) :
    Conserved t ∧ t.broadcasts.flatten = t.produced.flatten := by
  have hdrained : waiting s.replaced = [] := Drained.waiting hg
  unfold Conserved at h ⊢
  cases hcurrent : s.current with
  | none =>
    simp only [step, hcurrent, Option.some.injEq] at hstep
    subst hstep
    rw [hcurrent] at h ⊢
    refine ⟨h, ?_⟩
    rw [h, Option.toList_none, List.append_nil, hdrained, List.append_nil]
  | some channel =>
    simp only [step, hcurrent, Option.some.injEq] at hstep
    subst hstep
    rw [hcurrent, Option.toList_some, waiting_append, waiting_cons, hdrained] at h
    have hall : (s.broadcasts ++ channel.destroy.2).flatten = s.produced.flatten := by
      rw [List.flatten_append, SyncChannel.destroy_eq.1, h, waiting_nil, List.append_nil,
        List.nil_append]
    refine ⟨?_, hall⟩
    rw [hall, Option.toList_none, List.append_nil, hdrained, List.append_nil]

/-- Every step conserves the patches that keeps them in order. -/
theorem conserved_step {a : Act} (hg : InOrder lib s a) (h : Conserved s)
    (hstep : step lib key s a = some t) : Conserved t := by
  cases a with
  | setState value =>
    cases hstep
    exact share_conserves hg h _
  | createSyncChannel options =>
    cases hstep
    exact createSyncChannel_conserves h options
  | createDataChannel config =>
    cases hstep
    exact createDataChannel_conserves h config
  | closeDataChannel =>
    cases hstep
    exact h
  | fire => exact fire_conserves hg h hstep
  | fireReplaced k => exact fireReplaced_conserves hg h hstep
  | destroySyncChannels => exact (destroy_hands_on hg h hstep).1

/-- So does every run. -/
theorem conserved_run {start : Option Json} {as : List Act}
    (hg : Machine.Guarded (step lib key) (InOrder lib) (init start) as)
    (hrun : Machine.exec (step lib key) (init start) as = some s) : Conserved s := by
  refine Machine.exec_invariant_guarded ?_ (show Conserved (init start) from rfl) hg hrun
  exact fun s a t hI ha hstep => conserved_step ha hI hstep

/-- If all steps are in order, what was handed to `broadcastStatePatch` is at any moment the first
part of what the calls gave, and all of it once the sync channels are destroyed. -/
theorem broadcasts_in_call_order {start : Option Json} {as : List Act}
    (hg : Machine.Guarded (step lib key) (InOrder lib) (init start) as)
    (hrun : Machine.exec (step lib key) (init start) as = some s) :
    s.broadcasts.flatten <+: s.produced.flatten ∧
      (as.getLast? = some .destroySyncChannels →
        s.broadcasts.flatten = s.produced.flatten) := by
  refine ⟨⟨_, (conserved_run hg hrun).symm⟩, fun hlast => ?_⟩
  obtain ⟨bs, rfl⟩ := List.getLast?_eq_some_iff.mp hlast
  obtain ⟨u, hu, hstep⟩ := Machine.exec_concat_eq_some.mp hrun
  obtain ⟨hbefore, hdestroy⟩ := (Machine.guarded_concat hu).mp hg
  exact (destroy_hands_on hdestroy (conserved_run hbefore hu) hstep).2

/-! ## A channel that is replaced while patches wait in it -/

/-- The timer of the replaced channel fires before the next change. -/
def replacedInTime : List Act :=
  [.createDataChannel { pattern := .serverLiveState, granularity := .batched },
    .setState (.obj [("a", .num 1)]), .closeDataChannel,
    .createDataChannel { pattern := .serverLiveState, granularity := .debounced }, .fireReplaced 0,
    .setState (.obj [("a", .num 1), ("b", .num 2)]), .destroySyncChannels]

/-- What waits in the replaced channel is broadcast before the next change. -/
theorem broadcasts_in_call_order_replaced : ∃ s,
    Machine.exec (step LiveStateRun.flatLibrary "key") (init none) replacedInTime = some s ∧
    s.broadcasts.flatten = s.produced.flatten := by
  obtain ⟨s, hrun, -⟩ := Machine.exists_exec_of_test
    (show (Machine.exec (step LiveStateRun.flatLibrary "key") (init none) replacedInTime).map
      (fun s => decide (s.produced.length = 2)) = some true by decide +kernel)
  exact ⟨s, hrun, (broadcasts_in_call_order (by decide +kernel) hrun).2 rfl⟩

/-- A batched channel is replaced by an immediate one before its timer fires. -/
def overtakingRun : List Act :=
  [.createSyncChannel { flushStrategy := .batched }, .setState (.obj [("a", .num 1)]),
    .createSyncChannel { flushStrategy := .immediate },
    .setState (.obj [("a", .num 1), ("b", .num 2)])]

/-- The second change is handed on before the first, which waits in the replaced channel even when
the channels have been destroyed. -/
theorem replaced_channel_overtaken :
    (∃ s, Machine.exec (step LiveStateRun.flatLibrary "key") (init none) overtakingRun = some s ∧
      ¬ s.broadcasts.flatten <+: s.produced.flatten) ∧
    ∃ s, Machine.exec (step LiveStateRun.flatLibrary "key") (init none)
        (overtakingRun ++ [.destroySyncChannels]) = some s ∧
      s.produced.flatten = [{ op := "add", path := "/a", value := some (.num 1) },
        { op := "add", path := "/b", value := some (.num 2) }] ∧
      s.broadcasts.flatten = [{ op := "add", path := "/b", value := some (.num 2) }] := by
  constructor
  · obtain ⟨s, hrun, htest⟩ := Machine.exists_exec_of_test
      (show (Machine.exec (step LiveStateRun.flatLibrary "key") (init none) overtakingRun).map
        (fun s => decide (¬ s.broadcasts.flatten <+: s.produced.flatten)) = some true by
        decide +kernel)
    exact ⟨s, hrun, of_decide_eq_true htest⟩
  · obtain ⟨s, hrun, htest⟩ := Machine.exists_exec_of_test
      (show (Machine.exec (step LiveStateRun.flatLibrary "key") (init none)
        (overtakingRun ++ [.destroySyncChannels])).map (fun s => decide (
          s.produced.flatten = [{ op := "add", path := "/a", value := some (.num 1) },
            { op := "add", path := "/b", value := some (.num 2) }] ∧
          s.broadcasts.flatten = [{ op := "add", path := "/b", value := some (.num 2) }])) =
        some true by decide +kernel)
    exact ⟨s, hrun, of_decide_eq_true htest⟩

end LiveStateChannels

end Datasole
