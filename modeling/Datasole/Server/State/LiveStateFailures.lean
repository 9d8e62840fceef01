import Datasole.Server.State.LiveStateRun
import Datasole.Shared.Protocol.Frames

/-!
# A live state whose steps fail

Awaited calls of `ServerLiveState.setState` on one key, in which each step may fail: the backend's
`get`, `set` or `publish` rejects, a patch frame is too large to encode, or sending it throws. A
call then rejects and later steps of it are not taken. The client gets every frame that is sent.

The value is stored before it is published and broadcast, and later patches are computed against
what is stored. So a call that fails after `set` leaves a change that the client is never told of.
`Delivered` is the exact condition under which no call does.
-/

namespace Datasole

namespace LiveStateFailures

/-- What the steps of one call that depend on others reject or throw with. A `set` that rejects
stores nothing. -/
structure Faults where
  get : Option String := none
  set : Option String := none
  publish : Option String := none
  broadcastRaw : Option String := none

/-- The backend's entry for the key, the key's sync channel, and the client's state store. -/
structure Sys where
  stored : Option Json
  channel : Option SyncChannel
  mirror : StateStore

/-- The client has what is stored. -/
def init (channel : Option SyncChannel) (stored : Option Json) : Sys where
  stored := stored
  channel := channel
  mirror := ⟨stored⟩

/-- Code that throws keeps what it changed before. -/
abbrev Server := ExceptT String (StateM Sys)

/-- An awaited step that may reject. -/
def reject : Option String → Server Unit
  | some error => throw error
  | none => pure ()

section

variable (lib : FastJsonPatch) (serialize : String → List StatePatch → Bytes) (key : String)

def StateManager.setState (value : Json) (faults : Faults) : Server (List StatePatch) := do
  reject faults.get
  let patches := diff lib (← get).stored (some value)
  reject faults.set
  modify fun s => { s with stored := some value }
  reject faults.publish
  return patches

/-- `ProtocolBroadcastSink.broadcastStatePatch`; what is sent, the client processes. -/
def broadcastStatePatch (faults : Faults) (patches : List StatePatch) : Server Unit := do
  let _ ← liftExcept (encodeFrame ⟨.statePatch, 0, serialize key patches⟩)
  reject faults.broadcastRaw
  modify fun s => { s with mirror := s.mirror.onStateFrame lib (.statePatch patches) }

/-- The end of `ServerLiveState.setState`. -/
def share (faults : Faults) (patches : List StatePatch) : Server Unit := do
  if !patches.isEmpty then
    match (← get).channel with
    | none => broadcastStatePatch lib serialize key faults patches
    | some channel =>
      let (channel, batches) := channel.enqueue patches
      -- the channel has let go of a batch before its listener is called
      modify fun s => { s with channel := some channel }
      batches.forM (broadcastStatePatch lib serialize key faults)

def setState (value : Json) (faults : Faults) : Server (List StatePatch) := do
  let patches ← StateManager.setState lib value faults
  share lib serialize key faults patches
  return patches

/-! ## What a call leaves -/

/-- One awaited call, and what fails in it. -/
structure Call where
  value : Json
  faults : Faults

/-- What a call gives, and the state it leaves. -/
def run (s : Sys) (call : Call) : Except String (List StatePatch) × Sys :=
  (setState lib serialize key call.value call.faults).run s

def step (s : Sys) (call : Call) : Option Sys := some (run lib serialize key s call).2

/-- The client has what is stored after a call that resolves; a call that rejects leaves what was
stored, or the client has what it stored. -/
def Correct (s : Sys) (call : Call) : Prop :=
  let (result, t) := run lib serialize key s call
  match result with
  | .ok _ => t.mirror.state = t.stored
  | .error _ => t.stored = s.stored ∨ t.mirror.state = t.stored

/-- A call's patches turn the stored value into the new one. -/
def Turned (s : Sys) (call : Call) : Prop := lib.Turns s.stored call.value

def Faults.Stores (faults : Faults) : Prop := faults.get = none ∧ faults.set = none

def Faults.Sends (faults : Faults) (patches : List StatePatch) : Prop :=
  faults.publish = none ∧ (serialize key patches).length ≤ maxFramePayload ∧
    faults.broadcastRaw = none

/-- Once it has stored another value than was stored, a call fails no more. -/
def Delivered (s : Sys) (call : Call) : Prop :=
  call.faults.Stores → s.stored ≠ some call.value →
    call.faults.Sends serialize key (diff lib s.stored (some call.value))

end

variable {lib : FastJsonPatch} {serialize : String → List StatePatch → Bytes} {key : String}
  {s t : Sys} {call : Call}

/-- What follows runs on what came before, unless that has failed. -/
theorem bind_apply {α β : Type} (x : Server α) (f : α → Server β) (s : Sys) :
    (x >>= f) s = match x s with
      | (.ok a, t) => f a t
      | (.error error, t) => (.error error, t) := by
  rcases hx : x s with ⟨result, t⟩
  cases result with
  | ok a => simp [bind, ExceptT.bind, ExceptT.mk, StateT.bind, ExceptT.bindCont, hx]
  | error error =>
    simp only [bind, ExceptT.bind, ExceptT.mk, StateT.bind, ExceptT.bindCont, hx]
    rfl

/-- Without a channel, or with an immediate one, patches are broadcast at once. -/
theorem share_eq (hchannel : ∀ c ∈ s.channel, c.Immediate) {patches : List StatePatch}
    (hne : patches ≠ []) (faults : Faults) :
    share lib serialize key faults patches s =
      broadcastStatePatch lib serialize key faults patches s := by
  have hnonempty : (!patches.isEmpty) = true := by simpa using hne
  obtain ⟨stored, channel, mirror⟩ := s
  cases channel with
  | none =>
    unfold share
    rw [hnonempty]
    rfl
  | some c =>
    have hbroadcast : share lib serialize key faults patches ⟨stored, some c, mirror⟩ =
        ((c.enqueue patches).2.forM (broadcastStatePatch lib serialize key faults))
          ⟨stored, some (c.enqueue patches).1, mirror⟩ := by
      unfold share
      rw [hnonempty]
      rfl
    rw [hbroadcast, (hchannel c rfl).enqueue hne]
    exact congrFun (bind_pure_unit (x := broadcastStatePatch lib serialize key faults patches)) _

/-- A call that stores nothing has failed, and nothing else has changed. -/
theorem run_not_stored (h : ¬ call.faults.Stores) :
    ∃ error, run lib serialize key s call = (.error error, s) := by
  obtain ⟨value, get, set, publish, raw⟩ := call
  cases get with
  | some error => exact ⟨error, rfl⟩
  | none =>
    cases set with
    | some error => exact ⟨error, rfl⟩
    | none => exact absurd ⟨rfl, rfl⟩ h

/-- A call that has stored and published its value ends as its broadcast does. -/
theorem run_published (h : call.faults.Stores) (hpublish : call.faults.publish = none) :
    run lib serialize key s call =
      match share lib serialize key call.faults (diff lib s.stored (some call.value))
        { s with stored := some call.value } with
      | (.ok _, t) => (.ok (diff lib s.stored (some call.value)), t)
      | (.error error, t) => (.error error, t) := by
  obtain ⟨value, get, set, publish, raw⟩ := call
  obtain ⟨rfl, rfl⟩ : get = none ∧ set = none := h
  obtain rfl : publish = none := hpublish
  refine (bind_apply (share lib serialize key ⟨none, none, none, raw⟩
    (diff lib s.stored (some value))) (fun _ => pure _) { s with stored := some value }).trans ?_
  rcases share lib serialize key ⟨none, none, none, raw⟩ (diff lib s.stored (some value))
    { s with stored := some value } with ⟨⟨⟩, t⟩ <;> rfl

/-- A rejected `publish` leaves the value stored and the client without it. -/
theorem run_publish_rejected (h : call.faults.Stores) {error : String}
    (hpublish : call.faults.publish = some error) :
    run lib serialize key s call = (.error error, { s with stored := some call.value }) := by
  obtain ⟨value, get, set, publish, raw⟩ := call
  obtain ⟨rfl, rfl⟩ : get = none ∧ set = none := h
  obtain rfl : publish = some error := hpublish
  rfl

/-- A call that found no difference has nothing to tell. -/
theorem run_unchanged (h : call.faults.Stores) (hsame : diff lib s.stored (some call.value) = []) :
    (run lib serialize key s call).2 = { s with stored := some call.value } := by
  cases hpublish : call.faults.publish with
  | some error => rw [run_publish_rejected h hpublish]
  | none =>
    rw [run_published h hpublish, hsame]
    rfl

/-- A broadcast that is sent reaches the client. -/
theorem broadcast_sent {faults : Faults} {patches : List StatePatch}
    (hsize : (serialize key patches).length ≤ maxFramePayload) (hraw : faults.broadcastRaw = none) :
    broadcastStatePatch lib serialize key faults patches s =
      (.ok (), { s with mirror := s.mirror.onStateFrame lib (.statePatch patches) }) := by
  unfold broadcastStatePatch
  rw [encodeFrame_eq hsize, hraw]
  rfl

/-- A broadcast that is too large or fails reaches nobody. -/
theorem broadcast_failed {faults : Faults} {patches : List StatePatch}
    (h : (serialize key patches).length ≤ maxFramePayload → faults.broadcastRaw ≠ none) :
    ∃ error, broadcastStatePatch lib serialize key faults patches s = (.error error, s) := by
  by_cases hsize : (serialize key patches).length ≤ maxFramePayload
  · obtain ⟨error, hraw⟩ := Option.ne_none_iff_exists'.mp (h hsize)
    refine ⟨error, ?_⟩
    unfold broadcastStatePatch
    rw [encodeFrame_eq hsize, hraw]
    rfl
  · unfold broadcastStatePatch encodeFrame
    rw [if_pos (not_le.mp hsize)]
    exact ⟨_, rfl⟩

/-- A call that found a difference and does not fail tells the client. -/
theorem run_sent (hchannel : ∀ c ∈ s.channel, c.Immediate) (h : call.faults.Stores)
    (hne : diff lib s.stored (some call.value) ≠ [])
    (hsend : call.faults.Sends serialize key (diff lib s.stored (some call.value))) :
    run lib serialize key s call = (.ok (diff lib s.stored (some call.value)), { s with
      stored := some call.value
      mirror := s.mirror.onStateFrame lib (.statePatch (diff lib s.stored (some call.value))) }) := by
  obtain ⟨hpublish, hsize, hraw⟩ := hsend
  have hshare := @share_eq lib serialize key { s with stored := some call.value } hchannel _ hne
    call.faults
  rw [run_published h hpublish, hshare, broadcast_sent hsize hraw]

/-- A call that found a difference and fails after it stored the value leaves the client as it
was. -/
theorem run_unsent (hchannel : ∀ c ∈ s.channel, c.Immediate) (h : call.faults.Stores)
    (hne : diff lib s.stored (some call.value) ≠ [])
    (hsend : ¬ call.faults.Sends serialize key (diff lib s.stored (some call.value))) :
    ∃ error, run lib serialize key s call =
      (.error error, { s with stored := some call.value }) := by
  cases hpublish : call.faults.publish with
  | some error => exact ⟨error, run_publish_rejected h hpublish⟩
  | none =>
    have hshare := @share_eq lib serialize key { s with stored := some call.value } hchannel _ hne
      call.faults
    obtain ⟨error, hfailed⟩ := @broadcast_failed lib serialize key
      { s with stored := some call.value } call.faults _
      fun hsize hraw => hsend ⟨hpublish, hsize, hraw⟩
    exact ⟨error, by rw [run_published h hpublish, hshare, hfailed]⟩

/-! ## The client is told of every change -/

/-- The client has what is stored. -/
structure Inv (s : Sys) : Prop where
  channel : ∀ c ∈ s.channel, c.Immediate
  told : s.mirror.state = s.stored

/-- Where the stored value is another, there is a difference. -/
theorem diff_ne_nil (hturn : Turned lib s call) (hother : s.stored ≠ some call.value) :
    diff lib s.stored (some call.value) ≠ [] := by
  intro hnil
  rw [Turned, FastJsonPatch.Turns, hnil] at hturn
  exact hother (Except.ok.inj hturn)

/-- The client follows from what was stored to what is. -/
theorem inv_sent (h : Inv s)
    (hturn : Turned lib s call) : Inv { s with
      stored := some call.value
      mirror := s.mirror.onStateFrame lib
        (.statePatch (diff lib s.stored (some call.value))) } where
  channel := h.channel
  told := by
    have happly : applyPatch lib s.mirror.state (diff lib s.stored (some call.value)) =
        .ok (some call.value) := by
      rw [h.told]
      exact hturn
    rw [StateStore.onStateFrame_patch happly]

/-- A call that stores what was stored leaves nothing to tell, whether or not it fails. -/
theorem inv_same (h : Inv s) (hstores : call.faults.Stores) (hturn : Turned lib s call)
    (hsame : s.stored = some call.value) : Inv (run lib serialize key s call).2 := by
  have hinv : Inv { s with stored := some call.value } := ⟨h.channel, h.told.trans hsame⟩
  by_cases hnil : diff lib s.stored (some call.value) = []
  · rw [run_unchanged hstores hnil]
    exact hinv
  · by_cases hsend : call.faults.Sends serialize key (diff lib s.stored (some call.value))
    · rw [run_sent h.channel hstores hnil hsend]
      exact inv_sent h hturn
    · obtain ⟨error, hrun⟩ := run_unsent h.channel hstores hnil hsend
      rw [hrun]
      exact hinv

/-- A call that leaves the client with what is stored is correct. -/
theorem correct_of_inv (h : Inv (run lib serialize key s call).2) :
    Correct lib serialize key s call := by
  unfold Correct
  rcases hrun : run lib serialize key s call with ⟨_ | _, t⟩
  · rw [hrun] at h
    exact .inr h.told
  · rw [hrun] at h
    exact h.told

/-- A call is correct exactly if it does not fail between storing a change and telling the
client. -/
theorem correct_iff (h : Inv s) (hturn : Turned lib s call) :
    Correct lib serialize key s call ↔ Delivered lib serialize key s call := by
  by_cases hstores : call.faults.Stores
  swap
  · obtain ⟨error, hrun⟩ := @run_not_stored lib serialize key s call hstores
    refine iff_of_true ?_ fun hs => absurd hs hstores
    rw [Correct, hrun]
    exact .inl rfl
  by_cases hsame : s.stored = some call.value
  · exact iff_of_true (correct_of_inv (inv_same h hstores hturn hsame))
      fun _ hother => absurd hsame hother
  have hne := diff_ne_nil hturn hsame
  by_cases hsend : call.faults.Sends serialize key (diff lib s.stored (some call.value))
  · refine iff_of_true (correct_of_inv ?_) fun _ _ => hsend
    rw [run_sent h.channel hstores hne hsend]
    exact inv_sent h hturn
  · -- the change is stored, and the client still has what was stored before
    obtain ⟨error, hrun⟩ := run_unsent h.channel hstores hne hsend
    refine iff_of_false ?_ fun hdelivered => hsend (hdelivered hstores hsame)
    rw [Correct, hrun]
    rintro (hstored | htold)
    · exact hsame hstored.symm
    · exact hsame (h.told.symm.trans htold)

/-- Every step that fails no more once it has stored keeps the invariant. -/
theorem inv_step (h : Inv s) (hturn : Turned lib s call)
    (hdelivered : Delivered lib serialize key s call)
    (hstep : step lib serialize key s call = some t) : Inv t := by
  obtain rfl : (run lib serialize key s call).2 = t := Option.some.inj hstep
  by_cases hstores : call.faults.Stores
  swap
  · obtain ⟨error, hrun⟩ := @run_not_stored lib serialize key s call hstores
    rw [hrun]
    exact h
  by_cases hsame : s.stored = some call.value
  · exact inv_same h hstores hturn hsame
  · rw [run_sent h.channel hstores (diff_ne_nil hturn hsame) (hdelivered hstores hsame)]
    exact inv_sent h hturn

/-- In any run of awaited calls, all calls are correct exactly if none fails between storing a
change and telling the client. -/
theorem calls_correct_iff {channel : Option SyncChannel} {start : Option Json} {calls : List Call}
    (hchannel : ∀ c ∈ channel, c.Immediate)
    (hturn : Machine.Guarded (step lib serialize key) (Turned lib) (init channel start) calls) :
    Machine.Guarded (step lib serialize key) (Correct lib serialize key) (init channel start)
        calls ↔
      Machine.Guarded (step lib serialize key) (Delivered lib serialize key) (init channel start)
        calls := by
  have hinit : Inv (init channel start) := ⟨hchannel, rfl⟩
  refine Machine.guarded_iff_guarded ?_ ?_ hinit hturn
  · exact fun s call hI ha => correct_iff hI ha
  · exact fun s call t hI ha hd hs => inv_step hI ha hd hs

/-! ## Runs with objects whose members are numbers -/

instance (call : Call) (s : Sys) : Decidable (Turned lib s call) :=
  inferInstanceAs (Decidable (lib.Turns s.stored call.value))

instance (faults : Faults) : Decidable faults.Stores := inferInstanceAs (Decidable (_ ∧ _))

instance (faults : Faults) (patches : List StatePatch) :
    Decidable (faults.Sends serialize key patches) :=
  inferInstanceAs (Decidable (_ ∧ _ ∧ _))

instance (call : Call) (s : Sys) : Decidable (Delivered lib serialize key s call) :=
  inferInstanceAs (Decidable (_ → _ → _))

/-- The text of a patch whose value is an integer, in the order in which `compare` sets the
fields. -/
def patchText (patch : StatePatch) : String :=
  "\x7b\"op\":\"" ++ patch.op ++ "\",\"path\":\"" ++ patch.path ++ "\"" ++
    (match patch.value with
      | some (.num n) => ",\"value\":" ++ toString n.num
      | _ => "") ++ "\x7d"

/-- `serialize` of a key and such patches, with ASCII text. -/
def flatSerialize (key : String) (patches : List StatePatch) : Bytes :=
  ("\x7b\"key\":\"" ++ key ++ "\",\"patches\":[" ++ ",".intercalate (patches.map patchText) ++
    "]\x7d").toList.map fun c => UInt8.ofNat c.toNat

/-- The backend is out of reach for two calls, and then there again. -/
def recoveringCalls : List Call :=
  [⟨.obj [("a", .num 1)], { get := some "ECONNREFUSED" }⟩, ⟨.obj [("a", .num 1)], {}⟩,
    ⟨.obj [("a", .num 2)], { set := some "ECONNRESET" }⟩,
    ⟨.obj [("a", .num 1), ("b", .num 2)], {}⟩]

/-- In the example a call that failed before it stored is followed by one that does not fail. -/
theorem calls_correct_recovering :
    Machine.Guarded (step LiveStateRun.flatLibrary flatSerialize "key")
      (Correct LiveStateRun.flatLibrary flatSerialize "key") (init none none) recoveringCalls :=
  (calls_correct_iff (by simp) (by decide +kernel)).mpr (by decide +kernel)

/-- The first value is stored, and then the backend fails to publish it. -/
def lost : Call := ⟨.obj [("a", .num 1)], { publish := some "ECONNRESET" }⟩

def next : Call := ⟨.obj [("a", .num 1), ("b", .num 2)], {}⟩

/-- The call that rejects leaves a change that the client is not told of; and after the next one,
which does not fail, the client has the second change alone. -/
theorem lost_change_never_told :
    Machine.Guarded (step LiveStateRun.flatLibrary flatSerialize "key")
      (Turned LiveStateRun.flatLibrary) (init none none) [lost, next] ∧
    let first := run LiveStateRun.flatLibrary flatSerialize "key" (init none none) lost
    let second := run LiveStateRun.flatLibrary flatSerialize "key" first.2 next
    (first.1.toOption = none ∧ first.2.stored = some (.obj [("a", .num 1)]) ∧
      first.2.mirror.state = none) ∧
    second.1.toOption.isSome = true ∧
    second.2.stored = some (.obj [("a", .num 1), ("b", .num 2)]) ∧
    second.2.mirror.state = some (.obj [("b", .num 2)]) := by
  decide +kernel

end LiveStateFailures

end Datasole
