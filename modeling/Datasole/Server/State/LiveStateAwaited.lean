import Datasole.Server.State.LiveStateChannels
import Datasole.Server.State.LiveStateCluster
import Datasole.Server.State.LiveStateFailures

/-!
# A call that is awaited

`LiveStateRun` cuts `ServerLiveState.setState` at its awaits, so that calls may overlap. The models
of several instances, of replaced channels and of steps that fail take an awaited call in one step,
each with what it needs besides. Here such a step is a run of `LiveStateRun` with the same value: the
same value is stored, the channel of the key is left the same, and the same patch lists are
broadcast.
-/

namespace Datasole

namespace LiveStateRun

variable {lib : FastJsonPatch} {s : Sys}

/-- The end of `ServerLiveState.setState`: what it leaves of the channel, and what is broadcast. -/
def shared (channel : Option SyncChannel) (patches : List StatePatch) :
    Option SyncChannel × List (List StatePatch) :=
  if patches.isEmpty then (channel, [])
  else
    match channel with
    | none => (none, [patches])
    | some channel => (some (channel.enqueue patches).1, (channel.enqueue patches).2)

/-- A call that nothing happens besides. -/
def awaited (value : Json) : List Act := .setState value :: List.replicate 4 (.advance 0)

/-- What such a call leaves. -/
def Sys.afterCall (lib : FastJsonPatch) (s : Sys) (value : Json) : Sys where
  stored := some value
  writes := s.writes + 1
  channel := (shared s.channel (diff lib s.stored (some value))).1
  calls := []
  broadcasts := s.broadcasts ++ (shared s.channel (diff lib s.stored (some value))).2

/-- A broadcast is what the channel shares, if there is one. -/
theorem broadcast_eq_shared (s : Sys) (patches : List StatePatch) :
    s.broadcast patches = { s with
      channel := (shared s.channel patches).1
      broadcasts := s.broadcasts ++ (shared s.channel patches).2 } := by
  unfold Sys.broadcast shared
  by_cases hempty : patches.isEmpty = true
  · simp [hempty]
  · cases hchannel : s.channel with
    | none | some channel => simp [hempty]

theorem exec_awaited (hidle : s.calls = []) (value : Json) :
    Machine.exec (step lib) s (awaited value) = some (s.afterCall lib value) := by
  simp [awaited, Machine.exec, step, hidle, broadcast_eq_shared, Sys.afterCall]

end LiveStateRun

open LiveStateRun (shared awaited)

namespace LiveStateChannels

variable {lib : FastJsonPatch} {key : String} {s t : Sys}

/-- What `LiveStateRun` has of the state: the channel under the key, and one write for each call. -/
def Sys.live (s : Sys) : LiveStateRun.Sys where
  stored := s.stored
  writes := s.produced.length
  channel := s.current
  calls := []
  broadcasts := s.broadcasts

/-- The same with the channels of a key. -/
theorem share_eq (s : Sys) (patches : List StatePatch) : s.share patches = { s with
    current := (shared s.current patches).1
    broadcasts := s.broadcasts ++ (shared s.current patches).2 } := by
  unfold Sys.share LiveStateRun.shared
  by_cases hempty : patches.isEmpty = true
  · simp [hempty]
  · cases hcurrent : s.current with
    | none | some channel => simp [hempty]

/-- Whatever channels were created before, a call is one of `LiveStateRun` on the channel under the
key, and the replaced ones have no part in it. -/
theorem exec_setState {value : Json} (hs : step lib key s (.setState value) = some t) :
    Machine.exec (LiveStateRun.step lib) s.live (awaited value) = some t.live ∧
      t.replaced = s.replaced := by
  rw [LiveStateRun.exec_awaited rfl]
  cases hs
  rw [share_eq]
  refine ⟨congrArg some ?_, rfl⟩
  simp [LiveStateRun.Sys.afterCall, Sys.live]

end LiveStateChannels

namespace LiveStateCluster

variable {ι κ : Type*} [DecidableEq ι] [DecidableEq κ] {lib : FastJsonPatch} {key : String}
  {place : κ → ι} {s t : Sys ι κ}

/-- What `LiveStateRun` has of instance `i`, from now on. -/
def Sys.live (s : Sys ι κ) (i : ι) : LiveStateRun.Sys where
  stored := s.stored
  writes := 0
  channel := s.channels i
  calls := []
  broadcasts := []

/-- A call at an instance is one of `LiveStateRun` there: the clients of the instance are sent what
is broadcast, and the channels and the clients of the others are left alone. -/
theorem exec_setState {i : ι} {value : Json}
    (hs : step lib key place s (.setState i value) = some t) :
    ∃ u, Machine.exec (LiveStateRun.step lib) (s.live i) (awaited value) = some u ∧
      t.stored = u.stored ∧ t.channels = Function.update s.channels i u.channel ∧
      t.inFlight = fun c => if place c = i then s.inFlight c ++ u.broadcasts else s.inFlight c := by
  refine ⟨_, LiveStateRun.exec_awaited rfl value, ?_⟩
  cases hs
  generalize hpatches : diff lib s.stored (some value) = patches
  unfold Sys.share
  by_cases hempty : patches.isEmpty = true
  · simp [LiveStateRun.Sys.afterCall, Sys.live, hpatches, shared, hempty]
  · cases hchannel : s.channels i with
    | none =>
      simp [LiveStateRun.Sys.afterCall, Sys.live, hpatches, shared, hempty, hchannel, Sys.broadcast]
    | some channel =>
      simp [LiveStateRun.Sys.afterCall, Sys.live, hpatches, shared, hempty, hchannel, Sys.broadcast,
        Sys.setChannel]

end LiveStateCluster

namespace LiveStateFailures

variable {lib : FastJsonPatch} {serialize : String → List StatePatch → Bytes} {key : String}
  {s : Sys}

/-- What `LiveStateRun` has of the state, from now on. -/
def Sys.live (s : Sys) : LiveStateRun.Sys where
  stored := s.stored
  writes := 0
  channel := s.channel
  calls := []
  broadcasts := []

/-- Batches that fit their frames reach the client one after the other. -/
theorem forM_sent {faults : Faults} (hraw : faults.broadcastRaw = none)
    (batches : List (List StatePatch))
    (hfits : ∀ batch ∈ batches, (serialize key batch).length ≤ maxFramePayload) :
    batches.forM (broadcastStatePatch lib serialize key faults) s =
      (.ok (), { s with
        mirror := batches.foldl (fun store batch => store.onStateFrame lib (.statePatch batch))
          s.mirror }) := by
  induction batches generalizing s with
  | nil => rfl
  | cons batch batches ih =>
    refine (bind_apply (broadcastStatePatch lib serialize key faults batch)
      (fun _ => batches.forM (broadcastStatePatch lib serialize key faults)) s).trans ?_
    rw [broadcast_sent (hfits batch List.mem_cons_self) hraw]
    exact ih fun batch hbatch => hfits batch (List.mem_cons_of_mem _ hbatch)

/-- A call in which no step fails is one of `LiveStateRun`, and the client gets what is broadcast. -/
theorem run_of_no_faults (value : Json) : ∃ u,
    Machine.exec (LiveStateRun.step lib) s.live (awaited value) = some u ∧
      ((∀ batch ∈ u.broadcasts, (serialize key batch).length ≤ maxFramePayload) →
        run lib serialize key s ⟨value, {}⟩ = (.ok (diff lib s.stored (some value)),
          { stored := u.stored
            channel := u.channel
            mirror := u.broadcasts.foldl (fun store batch => store.onStateFrame lib (.statePatch batch))
              s.mirror })) := by
  refine ⟨_, LiveStateRun.exec_awaited rfl value, fun hfits => ?_⟩
  rw [run_published ⟨rfl, rfl⟩ rfl]
  obtain ⟨stored, channel, mirror⟩ := s
  simp only [LiveStateRun.Sys.afterCall, Sys.live, List.nil_append] at hfits ⊢
  generalize diff lib stored (some value) = patches at hfits ⊢
  have hshare : share lib serialize key {} patches ⟨some value, channel, mirror⟩ =
      ((shared channel patches).2.forM (broadcastStatePatch lib serialize key {}))
        ⟨some value, (shared channel patches).1, mirror⟩ := by
    unfold share LiveStateRun.shared
    cases hempty : patches.isEmpty with
    | true => rfl
    | false =>
      cases channel with
      | none =>
        have hone : [patches].forM (broadcastStatePatch lib serialize key {}) =
          broadcastStatePatch lib serialize key {} patches := bind_pure_unit
        exact (congrFun hone _).symm
      | some channel => rfl
  rw [hshare, forM_sent rfl _ hfits]

end LiveStateFailures

end Datasole
