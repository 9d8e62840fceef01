import Datasole.Common.Rounds
import Datasole.Shared.Crdt.Types

/-!
# Operations that a client has queued

`queueOperation`, `drainPendingOps` and `onOps` of `client/crdt/crdt-store.ts`. A listener is called
with every operation that is queued. It may queue and drain operations, and register and remove
listeners. What it throws is not caught: it ends the loop over the listeners, and goes on to whoever
queued the operation.

`queued_once` is about every run: no operation is lost or drained twice, and one whose loop comes to
its end has been given to the listeners. The loops are rounds over the one set of listeners
(`Sys.rounds`).
-/

namespace Datasole

namespace PendingOps

variable {ι V : Type*}

/-- The queue, the listeners, the loops in progress and the calls of listeners; and the operations
that have been queued and drained so far. -/
structure Sys (ι V : Type*) where
  pendingOps : List (CrdtOperation V)
  listeners : LiveSet ι
  loops : List (Round Unit (CrdtOperation V))
  calls : List (Call ι (CrdtOperation V))
  queued : List (CrdtOperation V)
  drained : List (CrdtOperation V)

inductive Act (ι V : Type*) where
  | queueOperation (op : CrdtOperation V)
  | drainPendingOps
  | onOps (listener : ι)
  /-- What `onOps` has returned is called. -/
  | removeListener (listener : ι)
  /-- The innermost loop goes on to the next listener, or is left. -/
  | next
  /-- The listener that is being called returns. -/
  | finish
  | throw

def init : Sys ι V := ⟨[], .empty, [], [], [], []⟩

/-- Nobody is in a loop, or a listener is. -/
def Sys.Free (s : Sys ι V) : Prop := s.loops.head?.all Round.calling = true

instance (s : Sys ι V) : Decidable s.Free := inferInstanceAs (Decidable (_ = true))

theorem update_unit (set set' : LiveSet ι) :
    Function.update (fun _ : Unit => set) () set' = fun _ => set' :=
  funext fun _ => Function.update_self ..

variable [DecidableEq ι]

def step (s : Sys ι V) : Act ι V → Option (Sys ι V)
  | .queueOperation op =>
    if s.Free then
      some { s with
        pendingOps := s.pendingOps ++ [op]
        loops := ⟨s.queued.length, (), op, 0, false⟩ :: s.loops
        queued := s.queued ++ [op] }
    else none
  | .drainPendingOps =>
    if s.Free then some { s with pendingOps := [], drained := s.drained ++ s.pendingOps } else none
  | .onOps listener =>
    if s.Free then some { s with listeners := s.listeners.add listener } else none
  | .removeListener listener =>
    if s.Free then some { s with listeners := s.listeners.delete listener } else none
  | .next =>
    match s.loops with
    | [] => none
    | loop :: loops =>
      if loop.calling then none
      else
        match s.listeners.next loop.index with
        | none => some { s with loops }
        | some (listener, index) =>
          some { s with
            loops := { loop with index, calling := true } :: loops
            calls := s.calls ++ [⟨loop.number, listener, loop.arg⟩] }
  | .finish =>
    match s.loops with
    | [] => none
    | loop :: loops =>
      if loop.calling then some { s with loops := { loop with calling := false } :: loops } else none
  | .throw =>
    match s.loops with
    | [] => none
    | loop :: loops => if loop.calling then some { s with loops } else none

/-- The operation that the act queues. -/
def Act.operation : Act ι V → Option (CrdtOperation V)
  | .queueOperation op => some op
  | .drainPendingOps | .onOps _ | .removeListener _ | .next | .finish | .throw => none

/-- The act registers this listener. -/
def Act.adds (listener : ι) : Act ι V → Bool
  | .onOps listener' => listener' = listener
  | .queueOperation _ | .drainPendingOps | .removeListener _ | .next | .finish | .throw => false

/-- The act removes this listener. -/
def Act.removes (listener : ι) : Act ι V → Bool
  | .removeListener listener' => listener' = listener
  | .queueOperation _ | .drainPendingOps | .onOps _ | .next | .finish | .throw => false

/-- The loop for the `n`-th operation has not been left. -/
def Sys.Notifying (s : Sys ι V) (n : ℕ) : Prop := ∃ loop ∈ s.loops, loop.number = n

/-- The state as rounds over the one set of listeners. -/
def Sys.rounds (s : Sys ι V) : Rounds Unit ι (CrdtOperation V) :=
  ⟨fun _ => s.listeners, s.loops, s.queued.length, s.calls⟩

/-- What the rounds do, if anything. -/
def Act.toRounds : Act ι V → Option (Rounds.Act Unit ι (CrdtOperation V))
  | .queueOperation op => some (.start () op)
  | .drainPendingOps => none
  | .onOps listener => some (.add () listener)
  | .removeListener listener => some (.delete () listener)
  | .next => some .next
  | .finish => some .finish
  | .throw => some .abort

variable {s t : Sys ι V} {a : Act ι V}

/-- Every step is one of the rounds, or drains the queue. -/
theorem rounds_step (hs : step s a = some t) :
    (a.toRounds = none ∧ s.rounds = t.rounds) ∨
      ∃ b, a.toRounds = some b ∧ s.rounds.step b = some t.rounds := by
  cases a with
  | queueOperation op =>
    simp only [step, Option.ite_none_right_eq_some, Option.some.injEq] at hs
    obtain ⟨hfree, rfl⟩ := hs
    refine .inr ⟨_, rfl, (if_pos hfree).trans ?_⟩
    -- a publication is a round over the listeners of the queue
    unfold Sys.rounds
    rw [List.length_append, List.length_singleton]
  | drainPendingOps =>
    simp only [step, Option.ite_none_right_eq_some, Option.some.injEq] at hs
    -- draining calls nobody
    obtain ⟨-, rfl⟩ := hs
    exact .inl ⟨rfl, rfl⟩
  | onOps listener | removeListener listener =>
    simp only [step, Option.ite_none_right_eq_some, Option.some.injEq] at hs
    obtain ⟨hfree, rfl⟩ := hs
    refine .inr ⟨_, rfl, (if_pos hfree).trans ?_⟩
    unfold Sys.rounds
    rw [update_unit]
  | next =>
    cases hloops : s.loops with
    | nil => simp only [step, hloops, reduceCtorEq] at hs
    | cons loop loops =>
      simp only [step, hloops, Option.ite_none_left_eq_some] at hs
      obtain ⟨hcalling, hs⟩ := hs
      refine .inr ⟨.next, rfl, ?_⟩
      simp only [Rounds.step, Sys.rounds, hloops, if_neg hcalling]
      cases hnext : s.listeners.next loop.index with
      | none | some x =>
        rw [hnext] at hs
        cases hs
        rfl
  | finish =>
    cases hloops : s.loops with
    | nil => simp only [step, hloops, reduceCtorEq] at hs
    | cons loop loops =>
      simp only [step, hloops, Option.ite_none_right_eq_some, Option.some.injEq] at hs
      obtain ⟨hcalling, rfl⟩ := hs
      refine .inr ⟨.finish, rfl, ?_⟩
      simp only [Rounds.step, Sys.rounds, hloops, if_pos hcalling]
  | throw =>
    cases hloops : s.loops with
    | nil => simp only [step, hloops, reduceCtorEq] at hs
    | cons loop loops =>
      simp only [step, hloops, Option.ite_none_right_eq_some, Option.some.injEq] at hs
      obtain ⟨hcalling, rfl⟩ := hs
      refine .inr ⟨.abort, rfl, ?_⟩
      simp only [Rounds.step, Sys.rounds, hloops, if_pos hcalling]

/-- A run of the queue is a run of loops over its listeners. -/
theorem rounds_exec {as : List (Act ι V)} (hrun : Machine.exec step s as = some t) :
    Machine.exec Rounds.step s.rounds (as.filterMap Act.toRounds) = some t.rounds := by
  have hstep : ∀ (s : Sys ι V) (a : Act ι V) (t : Sys ι V) (r : Rounds Unit ι (CrdtOperation V)),
      r = s.rounds → True → step s a = some t → a.toRounds = none ∧ r = t.rounds ∨
        ∃ b w, a.toRounds = some b ∧ r.step b = some w ∧ w = t.rounds := by
    rintro s a t r rfl - hs
    rcases rounds_step hs with hnone | ⟨b, hb, hw⟩
    · exact .inl hnone
    · exact .inr ⟨b, _, hb, hw, rfl⟩
  obtain ⟨w, hw, rfl⟩ := Machine.exists_exec_filterMap hstep rfl
    (Machine.guarded_of_forall (fun _ _ => trivial) s as) hrun
  exact hw

/-- Registrations and removals are the same in the run of loops. -/
theorem countP_toRounds (as : List (Act ι V)) (listener : ι) :
    (as.filterMap Act.toRounds).countP (Rounds.Act.adds () listener) = as.countP (Act.adds listener) ∧
      (as.filterMap Act.toRounds).countP (Rounds.Act.deletes () listener) =
        as.countP (Act.removes listener) := by
  induction as with
  | nil => exact ⟨rfl, rfl⟩
  | cons a as ih =>
    obtain ⟨hadds, hremoves⟩ := ih
    rw [List.countP_cons, List.countP_cons, ← hadds, ← hremoves]
    cases a with
    | drainPendingOps => exact ⟨rfl, rfl⟩
    | queueOperation _ | onOps _ | removeListener _ | next | finish | throw =>
      simp [Act.toRounds, Act.adds, Act.removes, Rounds.Act.adds, Rounds.Act.deletes,
        List.countP_cons]

/-- A step keeps what was queued, and queues its own operation behind it. -/
theorem queued_step {a : Act ι V} (hs : step s a = some t) :
    t.queued = s.queued ++ a.operation.toList := by
  cases a with
  | queueOperation op =>
    simp only [step, Option.ite_none_right_eq_some, Option.some.injEq] at hs
    obtain ⟨-, rfl⟩ := hs
    rfl
  | drainPendingOps | onOps listener | removeListener listener =>
    simp only [step, Option.ite_none_right_eq_some, Option.some.injEq] at hs
    obtain ⟨-, rfl⟩ := hs
    exact (List.append_nil _).symm
  | next =>
    simp only [step] at hs
    split at hs
    · cases hs
    · simp only [Option.ite_none_left_eq_some] at hs
      obtain ⟨-, hs⟩ := hs
      split at hs <;> cases hs <;> exact (List.append_nil _).symm
  | finish | throw =>
    simp only [step] at hs
    split at hs
    · cases hs
    · simp only [Option.ite_none_right_eq_some, Option.some.injEq] at hs
      obtain ⟨-, rfl⟩ := hs
      exact (List.append_nil _).symm

/-- What is drained comes from the front of the queue. -/
theorem queue_step (hqueue : s.drained ++ s.pendingOps = s.queued) (hs : step s a = some t) :
    t.drained ++ t.pendingOps = t.queued := by
  cases a with
  | queueOperation op =>
    simp only [step, Option.ite_none_right_eq_some, Option.some.injEq] at hs
    obtain ⟨-, rfl⟩ := hs
    dsimp only
    rw [← List.append_assoc, hqueue]
  | drainPendingOps =>
    simp only [step, Option.ite_none_right_eq_some, Option.some.injEq] at hs
    obtain ⟨-, rfl⟩ := hs
    exact (List.append_nil _).trans hqueue
  | onOps _ | removeListener _ =>
    simp only [step, Option.ite_none_right_eq_some, Option.some.injEq] at hs
    obtain ⟨-, rfl⟩ := hs
    exact hqueue
  | next =>
    simp only [step] at hs
    split at hs
    · cases hs
    · simp only [Option.ite_none_left_eq_some] at hs
      obtain ⟨-, hs⟩ := hs
      split at hs
      · cases hs
        exact hqueue
      · cases hs
        exact hqueue
  | finish | throw =>
    simp only [step] at hs
    split at hs
    · cases hs
    · simp only [Option.ite_none_right_eq_some, Option.some.injEq] at hs
      obtain ⟨-, rfl⟩ := hs
      exact hqueue

/-- In every run, with loops under way or not: what has been drained and what is still pending are
the operations that were queued, each once and in order. -/
theorem queue_exec {acts : List (Act ι V)} (hrun : Machine.exec step init acts = some t) :
    t.queued = acts.filterMap Act.operation ∧ t.drained ++ t.pendingOps = t.queued := by
  refine Machine.exec_history (I := fun as s => s.queued = as.filterMap Act.operation ∧
    s.drained ++ s.pendingOps = s.queued) (fun as s a t h hs => ⟨?_, queue_step h.2 hs⟩) ⟨rfl, rfl⟩ hrun
  rw [queued_step hs, h.1, List.filterMap_append]
  cases ha : a.operation with
  | none => rw [List.filterMap_cons_none ha]; rfl
  | some op => rw [List.filterMap_cons_some ha]; rfl

/-- Every operation that is queued, and whose loop over the listeners comes to its end, in every
run, whatever the listeners do meanwhile, some throwing included, and whatever happens later. It has
been given to each listener that is registered at the end of the loop; to nobody more often than he
was removed during the loop, and once more if he is registered at its end, nor more often than he
was registered during it, and once more if he was before. What has been drained and what is still
pending are all the operations that were queued, each once and in order. -/
theorem queued_once (before during after : List (Act ι V)) (s u v w t : Sys ι V)
    (op : CrdtOperation V)
    (hbefore : Machine.exec step init before = some s) (hqueue : step s (.queueOperation op) = some u)
    (hduring : Machine.exec step u during = some v) (hnotifying : v.Notifying s.queued.length)
    (hnext : step v .next = some w) (hover : ¬ w.Notifying s.queued.length)
    (hafter : Machine.exec step w after = some t) :
    (∀ listener,
      (if listener ∈ w.listeners then 1 else 0) ≤ Rounds.callsOf t.calls s.queued.length listener ∧
        Rounds.callsOf t.calls s.queued.length listener ≤
          (during.countP (Act.removes listener) + if listener ∈ w.listeners then 1 else 0) ∧
        Rounds.callsOf t.calls s.queued.length listener ≤
          (if listener ∈ s.listeners then 1 else 0) + during.countP (Act.adds listener)) ∧
      (∀ c ∈ t.calls, c.round = s.queued.length → c.arg = op) ∧
      t.drained ++ t.pendingOps = t.queued := by
  have hrun :
      Machine.exec step init (before ++ .queueOperation op :: (during ++ .next :: after)) = some t :=
    Machine.exec_append_eq_some.mpr ⟨s, hbefore, Machine.exec_cons_eq_some.mpr ⟨u, hqueue,
      Machine.exec_append_eq_some.mpr ⟨v, hduring, Machine.exec_cons_eq_some.mpr ⟨w, hnext, hafter⟩⟩⟩⟩
  have hstart : s.rounds.step (.start () op) = some u.rounds := by
    rcases rounds_step hqueue with ⟨hnone, -⟩ | ⟨b, hb, hw⟩
    · cases hnone
    · cases hb
      exact hw
  have hw : v.rounds.step .next = some w.rounds := by
    rcases rounds_step hnext with ⟨hnone, -⟩ | ⟨b, hb, hw⟩
    · cases hnone
    · cases hb
      exact hw
  have hcalls := Rounds.calls_of_completed (rounds_exec hbefore) hstart (rounds_exec hduring) hnotifying hw
    hover (rounds_exec hafter)
  refine ⟨fun listener => ?_, fun c hc => (hcalls c.callee).2.2.2 c hc, ?_⟩
  · obtain ⟨hlower, hremoved, hadded, -⟩ := hcalls listener
    obtain ⟨hadds, hremoves⟩ := countP_toRounds during listener
    rw [hremoves] at hremoved
    rw [hadds] at hadded
    exact ⟨hlower, hremoved, hadded⟩
  · exact (queue_exec hrun).2

/-- A write to the register `name`. -/
def write (value : ℕ) : CrdtOperation ℕ := ⟨.lwwRegister, "a", 1, .set, some "name", some value⟩

/-- Listener 1 drains the queue and queues another operation, at which listener 3 throws. -/
def nestedOperation : List (Act ℕ ℕ) :=
  [.next, .drainPendingOps, .queueOperation (write 2), .next, .finish, .next, .throw, .finish, .next,
    .finish]

/-- The operation that a listener queues is drained with the first, and each listener is called once
for the first. -/
theorem nested_operation_is_drained :
    ∃ s u v w t : Sys ℕ ℕ,
      Machine.exec step init [.onOps 1, .onOps 3] = some s ∧ step s (.queueOperation (write 1)) = some u ∧
      Machine.exec step u nestedOperation = some v ∧ step v .next = some w ∧
      Machine.exec step w [.drainPendingOps] = some t ∧
      Rounds.callsOf t.calls 0 1 = 1 ∧ Rounds.callsOf t.calls 0 3 = 1 ∧
        t.drained ++ t.pendingOps = t.queued := by
  have hrun : ((Machine.exec step init [.onOps 1, .onOps 3]).bind fun s =>
      (step s (.queueOperation (write 1))).bind fun u =>
      (Machine.exec step u nestedOperation).bind fun v => (step v .next).bind fun w =>
      (Machine.exec step w [.drainPendingOps]).map fun _ =>
        (s.queued.length, v.loops.map Round.number, w.loops.length,
          decide (1 ∈ w.listeners), decide (3 ∈ w.listeners))) = some (0, [0], 0, true, true) := by
    decide +kernel
  simp only [Option.bind_eq_some_iff, Option.map_eq_some_iff, Prod.mk.injEq, decide_eq_true_eq,
    List.length_eq_zero_iff] at hrun
  obtain ⟨s, hs, u, hu, v, hv, w, hw, t, ht, hqueued, hloops, hover, hfirst, hthird⟩ := hrun
  have hnotifying : v.Notifying s.queued.length := by
    have hmem : s.queued.length ∈ v.loops.map Round.number := by
      rw [hloops, hqueued]
      exact List.mem_cons_self
    obtain ⟨loop, hloop, hnumber⟩ := List.mem_map.mp hmem
    exact ⟨loop, hloop, hnumber⟩
  have hover' : ¬ w.Notifying s.queued.length := by
    rintro ⟨loop, hloop, -⟩
    rw [hover] at hloop
    exact List.not_mem_nil hloop
  obtain ⟨hcalls, -, hqueue⟩ :=
    queued_once _ _ _ s u v w t (write 1) hs hu hv hnotifying hw hover' ht
  rw [hqueued, List.length_nil] at hcalls
  have hcalled : ∀ listener, listener ∈ w.listeners → nestedOperation.countP (Act.removes listener) = 0 →
      Rounds.callsOf t.calls 0 listener = 1 := by
    intro listener hmem hkept
    obtain ⟨hlower, hupper, -⟩ := hcalls listener
    rw [if_pos hmem] at hlower hupper
    omega
  exact ⟨s, u, v, w, t, hs, hu, hv, hw, ht, hcalled 1 hfirst rfl, hcalled 3 hthird rfl, hqueue⟩

end PendingOps

end Datasole
