import Datasole.Common.JsMap
import Datasole.Common.Rounds
import Datasole.Shared.Types.Events

/-!
# The events of a client

`ClientEventEmitter` of `client/events/event-emitter.ts`. `emit` calls the handlers of an event one
after the other, straight from their set. A handler may add and remove handlers, its own among them,
and emit events; what it throws is caught.

`emission_reaches_registered` is about every run of the emitter and its handlers. The emitter does
the rounds of `Common/Rounds.lean` over its sets (`rounds_step`), and the theorem is what is known
of these.
-/

namespace Datasole

structure ClientEventEmitter (H : Type*) where
  handlers : JsMap String (LiveSet H)

namespace ClientEventEmitter

variable {H D : Type*}

def new : ClientEventEmitter H := ⟨JsMap.empty⟩

/-- The handlers of an event. -/
def registered (e : ClientEventEmitter H) (event : String) : LiveSet H :=
  (e.handlers.get event).getD .empty

variable [DecidableEq H]

def on (e : ClientEventEmitter H) (event : String) (handler : H) : ClientEventEmitter H :=
  let handlers := if e.handlers.has event then e.handlers else e.handlers.set event .empty
  ⟨handlers.set event (((handlers.get event).getD .empty).add handler)⟩

def off (e : ClientEventEmitter H) (event : String) (handler : H) : ClientEventEmitter H :=
  match e.handlers.get event with
  | none => e
  | some set => ⟨e.handlers.set event (set.delete handler)⟩

/-- `on` adds the handler to those of its event, and leaves the other events. -/
theorem registered_on (e : ClientEventEmitter H) (event : String) (handler : H) :
    (e.on event handler).registered =
      Function.update e.registered event ((e.registered event).add handler) := by
  funext event'
  unfold on registered
  rw [JsMap.get_set]
  by_cases hevent : event' = event
  · subst hevent
    rw [if_pos rfl, Function.update_self, Option.getD_some]
    cases hget : e.handlers.get event' with
    | none => simp only [JsMap.has, hget, Option.isSome_none, Bool.false_eq_true, if_false, JsMap.get_set,
        if_true, Option.getD_some, Option.getD_none]
    | some set => simp only [JsMap.has, hget, Option.isSome_some, if_true]
  · rw [if_neg hevent, Function.update_of_ne hevent]
    split
    · rfl
    · rw [JsMap.get_set_ne _ hevent]

/-- `off` removes the handler from those of its event, and leaves the other events. -/
theorem registered_off (e : ClientEventEmitter H) (event : String) (handler : H) :
    (e.off event handler).registered =
      Function.update e.registered event ((e.registered event).delete handler) := by
  funext event'
  unfold off registered
  cases hget : e.handlers.get event with
  | none =>
    by_cases hevent : event' = event
    · subst hevent
      rw [Function.update_self, hget, Option.getD_none, LiveSet.delete_empty]
    · rw [Function.update_of_ne hevent]
  | some set =>
    dsimp only
    rw [JsMap.get_set]
    by_cases hevent : event' = event
    · subst hevent
      rw [if_pos rfl, Function.update_self]
      rfl
    · rw [if_neg hevent, Function.update_of_ne hevent]

/-! ## Runs -/

/-- The emitter, the loops of `emit` in progress, how often `emit` has been called, and the calls of
handlers. -/
structure Sys (H D : Type*) where
  emitter : ClientEventEmitter H
  loops : List (Round String (EventPayload D))
  emits : ℕ
  calls : List (Call H (EventPayload D))

inductive Act (H D : Type*) where
  | on (event : String) (handler : H)
  | off (event : String) (handler : H)
  | emit (event : String) (data : D) (now : ℕ)
  /-- The innermost loop goes on to the next handler, or is left. -/
  | next
  /-- The handler that is being called returns, or throws. -/
  | finish

def init : Sys H D := ⟨new, [], 0, []⟩

/-- Nobody is in a loop, or a handler is. -/
def Sys.Free (s : Sys H D) : Prop := s.loops.head?.all Round.calling = true

instance (s : Sys H D) : Decidable s.Free := inferInstanceAs (Decidable (_ = true))

def step (s : Sys H D) : Act H D → Option (Sys H D)
  | .on event handler => if s.Free then some { s with emitter := s.emitter.on event handler } else none
  | .off event handler => if s.Free then some { s with emitter := s.emitter.off event handler } else none
  | .emit event data now =>
    if s.Free then
      match s.emitter.handlers.get event with
      | none => some { s with emits := s.emits + 1 }
      | some _ =>
        let payload : EventPayload D := { event, data, timestamp := now }
        some { s with loops := ⟨s.emits, event, payload, 0, false⟩ :: s.loops, emits := s.emits + 1 }
    else none
  | .next =>
    match s.loops with
    | [] => none
    | loop :: loops =>
      if loop.calling then none
      else
        match (s.emitter.registered loop.key).next loop.index with
        | none => some { s with loops }
        | some (handler, index) =>
          some { s with
            loops := { loop with index, calling := true } :: loops
            calls := s.calls ++ [⟨loop.number, handler, loop.arg⟩] }
  | .finish =>
    match s.loops with
    | [] => none
    | loop :: loops =>
      if loop.calling then some { s with loops := { loop with calling := false } :: loops } else none

/-- The act registers this handler. -/
def Act.adds (event : String) (handler : H) : Act H D → Bool
  | .on event' handler' => event' = event ∧ handler' = handler
  | .off .. | .emit .. | .next | .finish => false

/-- The act removes this handler. -/
def Act.removes (event : String) (handler : H) : Act H D → Bool
  | .off event' handler' => event' = event ∧ handler' = handler
  | .on .. | .emit .. | .next | .finish => false

/-- The loop of the `n`-th call of `emit` has not been left. -/
def Sys.Emitting (s : Sys H D) (n : ℕ) : Prop := ∃ loop ∈ s.loops, loop.number = n

/-- The state as rounds over the sets of handlers. -/
def Sys.rounds (s : Sys H D) : Rounds String H (EventPayload D) :=
  ⟨s.emitter.registered, s.loops, s.emits, s.calls⟩

/-- What the rounds do. -/
def Sys.roundsAct (s : Sys H D) : Act H D → Rounds.Act String H (EventPayload D)
  | .on event handler => .add event handler
  | .off event handler => .delete event handler
  | .emit event data now =>
    match s.emitter.handlers.get event with
    | none => .skip
    | some _ => .start event { event, data, timestamp := now }
  | .next => .next
  | .finish => .finish

variable {s t : Sys H D} {a : Act H D}

/-- Every step of the emitter is one of the rounds. -/
theorem rounds_step (hs : step s a = some t) : s.rounds.step (s.roundsAct a) = some t.rounds := by
  cases a with
  | on event handler =>
    simp only [step, Option.ite_none_right_eq_some, Option.some.injEq] at hs
    obtain ⟨hfree, rfl⟩ := hs
    refine (if_pos hfree).trans ?_
    -- the events are the keys of the rounds
    unfold Sys.rounds
    rw [registered_on]
  | off event handler =>
    simp only [step, Option.ite_none_right_eq_some, Option.some.injEq] at hs
    obtain ⟨hfree, rfl⟩ := hs
    refine (if_pos hfree).trans ?_
    unfold Sys.rounds
    rw [registered_off]
  | emit event data now =>
    simp only [step, Option.ite_none_right_eq_some] at hs
    obtain ⟨hfree, hs⟩ := hs
    cases hget : s.emitter.handlers.get event with
    | none | some set =>
      rw [hget] at hs
      -- an emission is a round, whether or not anyone was registered
      cases hs
      simp only [Sys.roundsAct, hget]
      exact if_pos hfree
  | next =>
    cases hloops : s.loops with
    | nil => simp only [step, hloops, reduceCtorEq] at hs
    | cons loop loops =>
      simp only [step, hloops, Option.ite_none_left_eq_some] at hs
      obtain ⟨hcalling, hs⟩ := hs
      simp only [Sys.roundsAct, Rounds.step, Sys.rounds, hloops, if_neg hcalling]
      cases hnext : (s.emitter.registered loop.key).next loop.index with
      | none | some x =>
        rw [hnext] at hs
        cases hs
        rfl
  | finish =>
    cases hloops : s.loops with
    | nil => simp only [step, hloops, reduceCtorEq] at hs
    | cons loop loops =>
      simp only [step, hloops, Option.ite_none_right_eq_some, Option.some.injEq] at hs
      obtain ⟨hcalling, rfl⟩ := hs
      simp only [Sys.roundsAct, Rounds.step, Sys.rounds, hloops, if_pos hcalling]

/-- The same handlers are added and removed. -/
theorem adds_roundsAct (s : Sys H D) (a : Act H D) (event : String) (handler : H) :
    (s.roundsAct a).adds event handler = a.adds event handler ∧
      (s.roundsAct a).deletes event handler = a.removes event handler := by
  cases a with
  | emit event data now =>
    cases hget : s.emitter.handlers.get event with
    | none | some set =>
      simp only [Sys.roundsAct, hget]
      exact ⟨rfl, rfl⟩
  | on _ _ | off _ _ | next | finish => exact ⟨rfl, rfl⟩

/-- Every run of the emitter is one of the rounds, in which as many handlers are added and
removed. -/
theorem rounds_exec {as : List (Act H D)} (hrun : Machine.exec step s as = some t) :
    ∃ bs, Machine.exec Rounds.step s.rounds bs = some t.rounds ∧ ∀ event handler,
      bs.countP (Rounds.Act.adds event handler) = as.countP (Act.adds event handler) ∧
        bs.countP (Rounds.Act.deletes event handler) = as.countP (Act.removes event handler) := by
  induction as generalizing s with
  | nil =>
    cases hrun
    exact ⟨[], rfl, fun _ _ => ⟨rfl, rfl⟩⟩
  | cons a as ih =>
    obtain ⟨u, hs, hrun⟩ := Machine.exec_cons_eq_some.mp hrun
    obtain ⟨bs, hbs, hcount⟩ := ih hrun
    refine ⟨_ :: bs, Machine.exec_cons_eq_some.mpr ⟨_, rounds_step hs, hbs⟩,
      fun event handler => ?_⟩
    obtain ⟨hadds, hremoves⟩ := adds_roundsAct s a event handler
    obtain ⟨hadded, hremoved⟩ := hcount event handler
    exact ⟨by rw [List.countP_cons, List.countP_cons, hadds, hadded],
      by rw [List.countP_cons, List.countP_cons, hremoves, hremoved]⟩

/-- Every emission that comes to its end, in every run, whatever the handlers do meanwhile and
whatever happens later: it has called each handler that is registered when it ends, one that was
added during the emission included. It has called a handler at most as often as it was removed
during the emission, and once more if it is registered at the end, and at most as often as it was
added during the emission, and once more if it was registered before. So one that is only
registered, or only added, is called once. Every call has the payload of the emission. -/
theorem emission_reaches_registered (before during after : List (Act H D)) (s u v w t : Sys H D)
    (event : String) (data : D) (now : ℕ)
    (hbefore : Machine.exec step init before = some s) (hemit : step s (.emit event data now) = some u)
    (hduring : Machine.exec step u during = some v) (hemitting : v.Emitting s.emits)
    (hnext : step v .next = some w) (hover : ¬ w.Emitting s.emits)
    (hafter : Machine.exec step w after = some t) :
    (∀ handler,
      (if handler ∈ w.emitter.registered event then 1 else 0) ≤
          Rounds.callsOf t.calls s.emits handler ∧
        Rounds.callsOf t.calls s.emits handler ≤
          (during.countP (Act.removes event handler) +
            if handler ∈ w.emitter.registered event then 1 else 0) ∧
        Rounds.callsOf t.calls s.emits handler ≤
          (if handler ∈ s.emitter.registered event then 1 else 0) +
            during.countP (Act.adds event handler)) ∧
      ∀ c ∈ t.calls, c.round = s.emits → c.arg = ⟨event, data, now⟩ := by
  obtain ⟨bs, hbs, -⟩ := rounds_exec hbefore
  have hu := rounds_step hemit
  obtain ⟨ds, hds, hcount⟩ := rounds_exec hduring
  have hw := rounds_step hnext
  obtain ⟨es, hes, -⟩ := rounds_exec hafter
  cases hget : s.emitter.handlers.get event with
  | none =>
    simp only [Sys.roundsAct, hget] at hu
    exact absurd hemitting (Rounds.not_running_of_skip hbs hu hds)
  | some set =>
    simp only [Sys.roundsAct, hget] at hu
    have hcalls := Rounds.calls_of_completed hbs hu hds hemitting hw hover hes
    refine ⟨fun handler => ?_, fun c hc => ?_⟩
    · obtain ⟨hlower, hremoved, hadded, -⟩ := hcalls handler
      rw [(hcount event handler).2] at hremoved
      rw [(hcount event handler).1] at hadded
      exact ⟨hlower, hremoved, hadded⟩
    · exact fun hround => (hcalls c.callee).2.2.2 c hc hround

/-- Handler 1 removes 2 and adds 4 while it is called; 3 was there before. -/
theorem added_in_emission_is_called :
    ∃ s u v w t : Sys ℕ Bool,
      Machine.exec step init [.on "chat" 1, .on "chat" 2, .on "chat" 3] = some s ∧
      step s (.emit "chat" true 7) = some u ∧
      Machine.exec step u [.next, .off "chat" 2, .on "chat" 4, .finish, .next, .finish, .next, .finish] =
        some v ∧
      step v .next = some w ∧ Machine.exec step w [.off "chat" 3] = some t ∧
      Rounds.callsOf t.calls 0 1 = 1 ∧ Rounds.callsOf t.calls 0 3 = 1 ∧
        Rounds.callsOf t.calls 0 4 = 1 := by
  refine ⟨_, _, _, _, _, rfl, rfl, rfl, rfl, rfl, ?_⟩
  have hcalls := (emission_reaches_registered [.on "chat" 1, .on "chat" 2, .on "chat" 3]
    [.next, .off "chat" 2, .on "chat" 4, .finish, .next, .finish, .next, .finish] [.off "chat" 3]
    _ _ _ _ _ "chat" true 7 rfl rfl rfl ⟨_, List.mem_cons_self, rfl⟩ rfl
    (fun hemitting => absurd hemitting.choose_spec.1 List.not_mem_nil) rfl).1
  exact ⟨Nat.le_antisymm (hcalls 1).2.2 (hcalls 1).1, Nat.le_antisymm (hcalls 3).2.1 (hcalls 3).1,
    Nat.le_antisymm (hcalls 4).2.1 (hcalls 4).1⟩

end ClientEventEmitter

end Datasole
