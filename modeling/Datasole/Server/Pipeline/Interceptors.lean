import Datasole.Common.Machine
import Mathlib.Data.List.Range
import Mathlib.Data.List.Nodup

/-!
# Chains of interceptors

`FramePipeline` of `server/pipeline/frame-pipeline.ts`. All calls of `next` of one execution share
its `index`: a call takes the interceptor there, moves `index` on and starts it.

Interceptors are arbitrary asynchronous functions: each is a program with local states `Q` that
works on a common `world`, calls `next` when and as often as it likes, waits for the promises of
these calls or for anything else, and may leave something behind that goes on after its own promise
has settled. What runs is on a stack, as calls are synchronous up to the first `await`; what waits
is resumed from the event loop in any order. Frames are executed at any time.

`chain_started`: in every run the interceptors that an execution has started are the first ones, in
order and once each. If none calls `next` twice, an interceptor is started exactly if the one before
it has called `next`.
-/

namespace Datasole

namespace InterceptorChain

/-- What an interceptor does next, with the local state in which it goes on. -/
inductive Instr (A Q : Type*) where
  /-- It calls `next()`; the call returns a promise. -/
  | next (k : Q)
  /-- It awaits the promise of its `n`-th call of `next`, which may be rejected. -/
  | awaitNext (n : ℕ) (k : (rejected : Bool) → Q)
  /-- It awaits something else. -/
  | await (k : A → Q)
  /-- Its own promise settles: it returns or throws. -/
  | settle (threw : Bool) (k : Q)
  | halt

/-- The registered interceptors, by the state in which each begins with a context, and what is done
in a local state. A context is an object, and known by the number of its execution. -/
structure Chain (C W A Q : Type*) where
  interceptors : List (ℕ → C → Q)
  run : W → Q → W × Instr A Q

variable {C W A Q : Type*}

def Chain.use (chain : Chain C W A Q) (interceptor : ℕ → C → Q) : Chain C W A Q :=
  { chain with interceptors := chain.interceptors ++ [interceptor] }

inductive Status (A Q : Type*) where
  | running (q : Q)
  | awaitingNext (n : ℕ) (k : Bool → Q)
  | awaiting (k : A → Q)
  | halted

/-- An interceptor that was started for an execution. `calls` has its calls of `next`: the task that
each has started, if there was an interceptor left. -/
structure Task (A Q : Type*) where
  execution : ℕ
  interceptor : ℕ
  status : Status A Q
  outcome : Option Bool
  calls : List (Option ℕ)

/-- A call of `execute`. `callers` records the interceptors that have called `next`, in order. -/
structure Execution (C : Type*) where
  ctx : C
  index : ℕ
  callers : List ℕ

structure Sys (C W A Q : Type*) where
  world : W
  executions : List (Execution C)
  tasks : List (Task A Q)
  stack : List ℕ

def init (world : W) : Sys C W A Q := ⟨world, [], [], []⟩

/-- The interceptors that an execution has started, in order. -/
def Sys.started (s : Sys C W A Q) (e : ℕ) : List ℕ :=
  (s.tasks.filter (·.execution = e)).map (·.interceptor)

/-- Which execution and which interceptor each task is of. -/
def Sys.ids (s : Sys C W A Q) : List (ℕ × ℕ) :=
  s.tasks.map fun task => (task.execution, task.interceptor)

/-- A call of `next` does this to `index`, where there are `n` interceptors. -/
def Execution.next (n : ℕ) (caller : Option ℕ) (x : Execution C) : Execution C where
  ctx := x.ctx
  index := if x.index < n then x.index + 1 else x.index
  callers := x.callers ++ caller.toList

variable (chain : Chain C W A Q)

/-- The task that a call of `next` would start. -/
def Sys.nextTask (s : Sys C W A Q) (e : ℕ) : Option (Task A Q) :=
  (s.executions[e]?).bind fun x => (chain.interceptors[x.index]?).map fun interceptor =>
    { execution := e, interceptor := x.index, status := .running (interceptor e x.ctx), outcome := none,
      calls := [] }

/-- `next()`, called by an interceptor of the execution or by `execute` itself. -/
def Sys.next (s : Sys C W A Q) (e : ℕ) (caller : Option ℕ) : Sys C W A Q :=
  let executions := s.executions.modify e (·.next chain.interceptors.length caller)
  match s.nextTask chain e with
  | none => { s with executions }
  | some task =>
    { s with executions, tasks := s.tasks ++ [task], stack := s.tasks.length :: s.stack }

def Sys.execute (s : Sys C W A Q) (ctx : C) : Sys C W A Q :=
  let x : Execution C := { ctx := ctx, index := 0, callers := [] }
  { s with executions := s.executions ++ [x] }.next chain s.executions.length none

def Sys.setTask (s : Sys C W A Q) (t : ℕ) (task : Task A Q) : Sys C W A Q :=
  { s with tasks := s.tasks.set t task }

/-- Task `t`, which is on top of `stack`, is in state `q` and does what comes next. -/
def Sys.runTask (s : Sys C W A Q) (t : ℕ) (stack : List ℕ) (task : Task A Q)
    (q : Q) : Sys C W A Q :=
  let (world, instr) := chain.run s.world q
  let s := { s with world := world }
  match instr with
  | .next k =>
    let call := (s.nextTask chain task.execution).map fun _ => s.tasks.length
    (s.setTask t { task with status := .running k, calls := task.calls ++ [call] }).next chain
      task.execution (some task.interceptor)
  | .awaitNext n k => { s.setTask t { task with status := .awaitingNext n k } with stack := stack }
  | .await k => { s.setTask t { task with status := .awaiting k } with stack := stack }
  | .settle threw k =>
    s.setTask t { task with status := .running k, outcome := task.outcome.or (some threw) }
  | .halt => { s.setTask t { task with status := .halted } with stack := stack }

/-- The promise of a call of `next`: it follows the interceptor that was started. -/
def Sys.promise (s : Sys C W A Q) : Option ℕ → Option Bool
  | none => some false
  | some t => (s.tasks[t]?).bind (·.outcome)

/-- The event loop resumes a task. -/
def Sys.resume (s : Sys C W A Q) (t : ℕ) (task : Task A Q) (q : Q) : Sys C W A Q :=
  { s.setTask t { task with status := .running q } with stack := [t] }

inductive Act (C A : Type*) where
  | execute (ctx : C)
  /-- What is on top of the stack goes on. -/
  | run
  /-- A task is told how the promise of `next` that it awaits has settled. -/
  | settled (t : ℕ)
  | answer (t : ℕ) (a : A)

/-- The contexts executed, in order: number `e` is that of execution `e`. -/
def contexts (as : List (Act C A)) : List C :=
  as.filterMap fun
    | .execute ctx => some ctx
    | _ => none

def step (s : Sys C W A Q) : Act C A → Option (Sys C W A Q)
  | .execute ctx => some (s.execute chain ctx)
  | .run =>
    match s.stack with
    | [] => none
    | t :: stack =>
      match s.tasks[t]? with
      | none => none
      | some task =>
        match task.status with
        | .running q => some (s.runTask chain t stack task q)
        | _ => none
  | .settled t =>
    match s.stack, s.tasks[t]? with
    | [], some task =>
      match task.status with
      | .awaitingNext n k =>
        ((task.calls[n]?).bind s.promise).map fun rejected => s.resume t task (k rejected)
      | _ => none
    | _, _ => none
  | .answer t a =>
    match s.stack, s.tasks[t]? with
    | [], some task =>
      match task.status with
      | .awaiting k => some (s.resume t task (k a))
      | _ => none
    | _, _ => none

/-! ## One execution -/

/-- What the calls of `next` have made of an execution, where there are `n` interceptors. -/
structure Execution.Inv (n : ℕ) (x : Execution C) : Prop where
  index_eq : x.index = min n (x.callers.length + 1)
  caller_lt : ∀ i ∈ x.callers, i < x.index
  /-- Where nobody has called twice, they have called one after the other. -/
  order : x.callers.Nodup → x.callers = List.range x.callers.length

/-- The first call of `next` starts the first interceptor. -/
theorem Execution.inv_first (n : ℕ) (ctx : C) :
    (Execution.next n none ({ ctx := ctx, index := 0, callers := [] } : Execution C)).Inv n where
  index_eq := by
    simp only [Execution.next, Option.toList_none, List.append_nil, List.length_nil]
    split <;> omega
  caller_lt i hi := by cases hi
  order _ := rfl

/-- A call of `next` by an interceptor that was started. -/
theorem Execution.Inv.next {n : ℕ} {x : Execution C} (h : x.Inv n) {i : ℕ} (hi : i < x.index) :
    (x.next n (some i)).Inv n where
  index_eq := by
    have hindex := h.index_eq
    simp only [Execution.next, Option.toList_some, List.length_append, List.length_singleton]
    split <;> omega
  caller_lt j hj := by
    have hle : x.index ≤ (x.next n (some i)).index := by
      simp only [Execution.next]
      split <;> omega
    rcases List.mem_append.mp hj with hj | hj
    · exact (h.caller_lt j hj).trans_le hle
    · rw [List.mem_singleton.mp hj]
      exact hi.trans_le hle
  order hnodup := by
    change (x.callers ++ [i]).Nodup at hnodup
    obtain ⟨hcallers, -, hnew⟩ := List.nodup_append.mp hnodup
    have hrange := h.order hcallers
    -- the caller is started, and those before it have all called
    have hge : x.callers.length ≤ i := by
      by_contra hlt
      have hmem : i ∈ x.callers := hrange ▸ List.mem_range.mpr (not_le.mp hlt)
      exact hnew i hmem i (List.mem_singleton_self i) rfl
    have hi' : i = x.callers.length := by
      have hindex := h.index_eq
      omega
    change x.callers ++ [i] = List.range (x.callers ++ [i]).length
    rw [List.length_append, List.length_singleton, List.range_succ, ← hrange, hi']

/-! ## What every run keeps -/

structure Inv (s : Sys C W A Q) : Prop where
  execution : ∀ (e : ℕ) (x : Execution C), s.executions[e]? = some x → x.Inv chain.interceptors.length
  started_eq : ∀ (e : ℕ) (x : Execution C), s.executions[e]? = some x → s.started e = List.range x.index
  task : ∀ task ∈ s.tasks, ∃ x, s.executions[task.execution]? = some x

variable {chain} {s t : Sys C W A Q}

theorem inv_init (world : W) : Inv chain (init world : Sys C W A Q) where
  execution e x hx := by simp [init] at hx
  started_eq e x hx := by simp [init] at hx
  task task htask := by cases htask

/-- A task changes its state, and stays the one it is. -/
theorem ids_setTask {n : ℕ} {old new : Task A Q} (hold : s.tasks[n]? = some old)
    (hexecution : new.execution = old.execution) (hinterceptor : new.interceptor = old.interceptor) :
    (s.setTask n new).ids = s.ids := by
  obtain ⟨hlt, hget⟩ := List.getElem?_eq_some_iff.mp hold
  change (s.tasks.set n new).map _ = s.tasks.map _
  rw [List.map_set, hexecution, hinterceptor, ← hget]
  refine List.ext_getElem? fun m => ?_
  rw [List.getElem?_set]
  split
  · next hm =>
    subst hm
    simp [hlt]
  · rfl

/-- Setting a task keeps the executions of the tasks. -/
theorem ids_prefix_set {n : ℕ} {task : Task A Q} {status : Status A Q} {outcome : Option Bool}
    {calls : List (Option ℕ)} (htask : s.tasks[n]? = some task) (hset : t.tasks = s.tasks.set n
      { task with status := status, outcome := outcome, calls := calls }) : s.ids <+: t.ids := by
  have heq : t.ids = s.ids := by
    rw [Sys.ids, hset]
    exact ids_setTask htask rfl rfl
  exact heq ▸ List.prefix_rfl

/-- What an execution has started can be read from the tasks' identities. -/
theorem started_eq_ids (s : Sys C W A Q) (e : ℕ) :
    s.started e = (s.ids.filter (·.1 = e)).map Prod.snd := by
  rw [Sys.ids, List.filter_map, List.map_map]
  rfl

/-- What an execution has started does not change with the state of a task. -/
theorem started_setTask {n : ℕ} {old new : Task A Q} (hold : s.tasks[n]? = some old)
    (hexecution : new.execution = old.execution) (hinterceptor : new.interceptor = old.interceptor)
    (e : ℕ) : (s.setTask n new).started e = s.started e := by
  rw [started_eq_ids, started_eq_ids, ids_setTask hold hexecution hinterceptor]

theorem mem_setTask {n : ℕ} {new task : Task A Q} (h : task ∈ (s.setTask n new).tasks) :
    task ∈ s.tasks ∨ task = new :=
  List.mem_or_eq_of_mem_set h

/-- A task that goes on without a call of `next` keeps the invariant. -/
theorem Inv.setTask (h : Inv chain s) {n : ℕ} {old new : Task A Q} (hold : s.tasks[n]? = some old)
    (hexecution : new.execution = old.execution) (hinterceptor : new.interceptor = old.interceptor) :
    Inv chain (s.setTask n new) where
  execution := h.execution
  started_eq e x hx := (started_setTask hold hexecution hinterceptor e).trans (h.started_eq e x hx)
  task task htask := by
    rcases mem_setTask htask with htask | rfl
    · exact h.task task htask
    · rw [hexecution]
      exact h.task old (List.mem_of_getElem? hold)

theorem Inv.of_world (h : Inv chain s) (world : W) (stack : List ℕ) :
    Inv chain { s with world := world, stack := stack } :=
  ⟨h.execution, h.started_eq, h.task⟩

/-- A task that was started is one of the interceptors before `index`. -/
theorem Inv.interceptor_lt (h : Inv chain s) {task : Task A Q} (htask : task ∈ s.tasks)
    {x : Execution C} (hx : s.executions[task.execution]? = some x) : task.interceptor < x.index := by
  have hmem : task.interceptor ∈ s.started task.execution :=
    List.mem_map_of_mem (List.mem_filter.mpr ⟨htask, decide_eq_true rfl⟩)
  rw [h.started_eq _ x hx] at hmem
  exact List.mem_range.mp hmem

/-- Pairs are different if those with the same first component are. -/
theorem nodup_of_filter_fst {ids : List (ℕ × ℕ)}
    (h : ∀ e, ((ids.filter (·.1 = e)).map Prod.snd).Nodup) : ids.Nodup := by
  induction ids with
  | nil => exact List.nodup_nil
  | cons id ids ih =>
    refine List.nodup_cons.mpr ⟨fun hmem => ?_, ih fun e => ?_⟩
    · have hnodup := h id.1
      rw [List.filter_cons_of_pos (by simp), List.map_cons, List.nodup_cons] at hnodup
      exact hnodup.1 (List.mem_map_of_mem (List.mem_filter.mpr ⟨hmem, decide_eq_true rfl⟩))
    · exact (h e).sublist (((List.sublist_cons_self id ids).filter _).map _)

/-- No interceptor is started twice for an execution. -/
theorem Inv.nodup_ids (h : Inv chain s) : s.ids.Nodup := by
  have hstarted : ∀ e, (s.started e).Nodup := by
    intro e
    cases hx : s.executions[e]? with
    | some x =>
      rw [h.started_eq e x hx]
      exact List.nodup_range
    | none =>
      have hnil : s.started e = [] := by
        refine List.map_eq_nil_iff.mpr (List.filter_eq_nil_iff.mpr fun task htask he => ?_)
        obtain ⟨x, hx'⟩ := h.task task htask
        rw [of_decide_eq_true he, hx] at hx'
        cases hx'
      rw [hnil]
      exact List.nodup_nil
  exact nodup_of_filter_fst fun e => started_eq_ids s e ▸ hstarted e

/-- The tasks besides the one that is changed are other interceptors, or of another execution. -/
theorem Inv.mem_setTask (h : Inv chain s) {n : ℕ} {old new task : Task A Q}
    (hold : s.tasks[n]? = some old) (hmem : task ∈ (s.setTask n new).tasks) :
    task = new ∨ task ∈ s.tasks ∧
      (task.execution, task.interceptor) ≠ (old.execution, old.interceptor) := by
  obtain ⟨m, hm⟩ := List.getElem?_of_mem hmem
  change (s.tasks.set n new)[m]? = some task at hm
  rw [List.getElem?_set] at hm
  split at hm
  · split at hm
    · exact .inl (Option.some.inj hm).symm
    · cases hm
  · next hne =>
    refine .inr ⟨List.mem_of_getElem? hm, fun heq => hne ?_⟩
    have hids := h.nodup_ids
    obtain ⟨hlt, hget⟩ := List.getElem?_eq_some_iff.mp hold
    obtain ⟨hlt', hget'⟩ := List.getElem?_eq_some_iff.mp hm
    have hlen : n < s.ids.length := by rwa [Sys.ids, List.length_map]
    have hlen' : m < s.ids.length := by rwa [Sys.ids, List.length_map]
    have hsame : s.ids[n] = s.ids[m] := by
      simp only [Sys.ids, List.getElem_map, hget, hget', heq]
    exact hids.getElem_inj_iff.mp hsame

/-! ### Calls of `next` -/

/-- A call of `next` changes its own execution. -/
theorem executions_next (s : Sys C W A Q) (e : ℕ) (caller : Option ℕ) :
    (s.next chain e caller).executions =
      s.executions.modify e (·.next chain.interceptors.length caller) := by
  unfold Sys.next
  split <;> rfl

/-- The execution that a call of `next` is for, and the others. -/
theorem execution_next (s : Sys C W A Q) (e : ℕ) (caller : Option ℕ) (e' : ℕ) :
    (s.next chain e caller).executions[e']? =
      if e = e' then (s.executions[e]?).map (·.next chain.interceptors.length caller)
      else s.executions[e']? := by
  rw [executions_next, List.getElem?_modify]
  split
  · next heq =>
    rw [heq]
    rfl
  · exact id_map _

/-- A call of `next` starts at most one task, which comes last. -/
theorem tasks_next (s : Sys C W A Q) (e : ℕ) (caller : Option ℕ) :
    (s.next chain e caller).tasks = s.tasks ++ (s.nextTask chain e).toList := by
  unfold Sys.next
  split
  · next hnone => rw [hnone, Option.toList_none, List.append_nil]
  · next hsome => rw [hsome, Option.toList_some]

/-- A call of `next` adds at most a task. -/
theorem ids_prefix_next (s : Sys C W A Q) (e : ℕ) (caller : Option ℕ) :
    s.ids <+: (s.next chain e caller).ids := by
  rw [Sys.ids, Sys.ids, tasks_next, List.map_append]
  exact List.prefix_append _ _

/-- A call of `next` does not touch the world by itself. -/
@[simp] theorem world_next (s : Sys C W A Q) (e : ℕ) (caller : Option ℕ) :
    (s.next chain e caller).world = s.world := by
  unfold Sys.next
  split <;> rfl

/-- The task that is started is the interceptor at `index`, if there is one. -/
theorem nextTask_eq (chain : Chain C W A Q) {e : ℕ} {x : Execution C}
    (hx : s.executions[e]? = some x) :
    (x.index < chain.interceptors.length ∧
      ∃ interceptor, chain.interceptors[x.index]? = some interceptor ∧
        s.nextTask chain e = some
          { execution := e, interceptor := x.index, status := .running (interceptor e x.ctx),
            outcome := none, calls := [] }) ∨
      ¬ x.index < chain.interceptors.length ∧ s.nextTask chain e = none := by
  by_cases hlt : x.index < chain.interceptors.length
  · refine .inl ⟨hlt, _, List.getElem?_eq_getElem hlt, ?_⟩
    rw [Sys.nextTask, hx, Option.bind_some, List.getElem?_eq_getElem hlt, Option.map_some]
  · refine .inr ⟨hlt, ?_⟩
    rw [Sys.nextTask, hx, Option.bind_some, List.getElem?_eq_none (not_lt.mp hlt), Option.map_none]

/-- `next` moves one execution on. -/
theorem inv_next {e : ℕ} {x : Execution C} {caller : Option ℕ} (hx : s.executions[e]? = some x)
    (hnext : (x.next chain.interceptors.length caller).Inv chain.interceptors.length)
    (hothers : ∀ (e' : ℕ) (x' : Execution C), e' ≠ e → s.executions[e']? = some x' →
      x'.Inv chain.interceptors.length)
    (hstarted : ∀ (e : ℕ) (x : Execution C), s.executions[e]? = some x → s.started e = List.range x.index)
    (htask : ∀ task ∈ s.tasks, ∃ x, s.executions[task.execution]? = some x) :
    Inv chain (s.next chain e caller) := by
  have hget (e' : ℕ) : (s.next chain e caller).executions[e']? =
      if e = e' then some (x.next chain.interceptors.length caller) else s.executions[e']? := by
    rw [execution_next, hx, Option.map_some]
  have hstarts (e' : ℕ) : (s.next chain e caller).started e' =
      s.started e' ++ ((s.nextTask chain e).toList.filter (·.execution = e')).map (·.interceptor) := by
    rw [Sys.started, tasks_next, List.filter_append, List.map_append]
    rfl
  refine ⟨fun e' x' hx' => ?_, fun e' x' hx' => ?_, fun task hmem => ?_⟩
  · -- the execution has its new index and callers, the others are as they were
    rw [hget] at hx'
    split at hx'
    · exact Option.some.inj hx' ▸ hnext
    · next hne => exact hothers e' x' (Ne.symm hne) hx'
  · rw [hget] at hx'
    rw [hstarts]
    -- what is started is the interceptor at the old index, if there is one
    rcases nextTask_eq chain hx with ⟨hlt, interceptor, -, htask⟩ | ⟨hge, hnone⟩
    · rw [htask]
      split at hx'
      · next heq =>
        subst heq
        rw [← Option.some.inj hx', hstarted e x hx]
        simp [Execution.next, hlt, List.range_succ]
      · next hne =>
        rw [hstarted e' x' hx']
        simp [hne]
    · rw [hnone]
      split at hx'
      · next heq =>
        subst heq
        rw [← Option.some.inj hx', hstarted e x hx]
        simp [Execution.next, hge]
      · rw [hstarted e' x' hx']
        simp
  · rw [tasks_next] at hmem
    rw [hget]
    split
    · exact ⟨_, rfl⟩
    · next hne =>
      rcases List.mem_append.mp hmem with hmem | hmem
      · exact htask task hmem
      · -- the new task is of the execution that it was started for
        rcases nextTask_eq chain hx with ⟨-, interceptor, -, htask⟩ | ⟨-, hnone⟩
        · rw [htask, Option.toList_some, List.mem_singleton] at hmem
          exact absurd (congrArg Task.execution hmem).symm hne
        · rw [hnone] at hmem
          cases hmem

/-- A further execution starts with its first interceptor. -/
theorem Inv.execute (h : Inv chain s) (ctx : C) : Inv chain (s.execute chain ctx) := by
  set x : Execution C := { ctx := ctx, index := 0, callers := [] }
  have hold : ∀ (e : ℕ) (x' : Execution C), e ≠ s.executions.length →
      (s.executions ++ [x])[e]? = some x' → s.executions[e]? = some x' := by
    intro e x' hne hx'
    have hlt := (List.getElem?_eq_some_iff.mp hx').1
    rw [List.length_append, List.length_singleton] at hlt
    rwa [List.getElem?_append_left (by omega)] at hx'
  have hnone : s.started s.executions.length = [] := by
    refine List.map_eq_nil_iff.mpr (List.filter_eq_nil_iff.mpr fun task htask he => ?_)
    obtain ⟨x', hx'⟩ := h.task task htask
    exact (List.getElem?_eq_some_iff.mp hx').1.ne (of_decide_eq_true he)
  have hlast : (s.executions ++ [x])[s.executions.length]? = some x := List.getElem?_concat_length
  refine inv_next (s := { s with executions := s.executions ++ [x] }) hlast
    (Execution.inv_first _ ctx) (fun e x' hne hx' => h.execution e x' (hold e x' hne hx')) ?_ ?_
  · intro e x' hx'
    by_cases he : e = s.executions.length
    · subst he
      obtain rfl := Option.some.inj (hlast.symm.trans hx')
      exact hnone
    · exact h.started_eq e x' (hold e x' he hx')
  · intro task htask
    obtain ⟨x', hx'⟩ := h.task task htask
    have hlt := (List.getElem?_eq_some_iff.mp hx').1
    exact ⟨x', (List.getElem?_append_left hlt).trans hx'⟩

/-- A task calls `next`, which may change its own state. -/
theorem Inv.callNext (h : Inv chain s) {n : ℕ} {task new : Task A Q}
    (htask : s.tasks[n]? = some task)
    (hexecution : new.execution = task.execution) (hinterceptor : new.interceptor = task.interceptor) :
    Inv chain ((s.setTask n new).next chain task.execution (some task.interceptor)) := by
  have hset := h.setTask htask hexecution hinterceptor
  obtain ⟨x, hx⟩ := h.task task (List.mem_of_getElem? htask)
  have hlt := h.interceptor_lt (List.mem_of_getElem? htask) hx
  exact inv_next hx ((h.execution _ x hx).next hlt) (fun e x' _ => hset.execution e x')
    hset.started_eq hset.task

/-- A state in which a task may go on. -/
def Status.Offers (q : Q) : Status A Q → Prop
  | .running q' => q = q'
  | .awaitingNext _ k => ∃ rejected, q = k rejected
  | .awaiting k => ∃ a, q = k a
  | .halted => False

/-- How a task is after doing this. -/
def Instr.status : Instr A Q → Status A Q
  | .next k | .settle _ k => .running k
  | .awaitNext n k => .awaitingNext n k
  | .await k => .awaiting k
  | .halt => .halted

/-- What a step can be: an execution begins, the task on top of the stack goes on, or the event loop
resumes one, whose promise of `next` has settled or which has its answer. -/
theorem step_cases {a : Act C A} (h : step chain s a = some t) :
    (∃ ctx, a = .execute ctx ∧ t = s.execute chain ctx) ∨
    (∃ n stack task q, a = .run ∧ s.stack = n :: stack ∧ s.tasks[n]? = some task ∧
      task.status = .running q ∧ t = s.runTask chain n stack task q) ∨
    (∃ n task m k rejected, a = .settled n ∧ s.stack = [] ∧ s.tasks[n]? = some task ∧
      task.status = .awaitingNext m k ∧ t = s.resume n task (k rejected)) ∨
    (∃ n task k answer, a = .answer n answer ∧ s.stack = [] ∧ s.tasks[n]? = some task ∧
      task.status = .awaiting k ∧ t = s.resume n task (k answer)) := by
  cases a with
  | execute ctx => exact .inl ⟨ctx, rfl, (Option.some.inj h).symm⟩
  | run =>
    refine .inr (.inl ?_)
    simp only [step] at h
    -- `run` needs a task on the stack that is running
    split at h
    · cases h
    · next n stack hstack =>
      split at h
      · cases h
      · next task htask =>
        split at h
        · next q hstatus =>
          exact ⟨n, stack, task, q, rfl, hstack, htask, hstatus, (Option.some.inj h).symm⟩
        · cases h
  | settled n =>
    refine .inr (.inr (.inl ?_))
    simp only [step] at h
    -- a promise is looked at when nothing runs any more
    split at h
    · next task hstack htask =>
      split at h
      · next m k hstatus =>
        obtain ⟨rejected, -, rfl⟩ := Option.map_eq_some_iff.mp h
        exact ⟨n, task, m, k, rejected, rfl, hstack, htask, hstatus, rfl⟩
      · cases h
    · cases h
  | answer n a =>
    refine .inr (.inr (.inr ?_))
    simp only [step] at h
    split at h
    · next task hstack htask =>
      split at h
      · next k hstatus =>
        exact ⟨n, task, k, a, rfl, hstack, htask, hstatus, (Option.some.inj h).symm⟩
      · cases h
    · cases h

/-- A task that runs calls `next`, or it changes nothing but itself, the world and the stack. -/
theorem runTask_cases (chain : Chain C W A Q) (s : Sys C W A Q) (n : ℕ) (stack : List ℕ)
    (task : Task A Q) (q : Q) :
    (∃ k call, (chain.run s.world q).2 = .next k ∧
      s.runTask chain n stack task q =
        ({ s with world := (chain.run s.world q).1 }.setTask n
          { task with status := .running k, calls := task.calls ++ [call] }).next chain task.execution
            (some task.interceptor)) ∨
    (∃ outcome stack', (∀ k, (chain.run s.world q).2 ≠ .next k) ∧
      s.runTask chain n stack task q =
        { s with world := (chain.run s.world q).1, stack := stack' }.setTask n
          { task with status := (chain.run s.world q).2.status, outcome := outcome }) := by
  rcases hrun : chain.run s.world q with ⟨world, instr⟩
  cases instr with
  | next k =>
    refine .inl ⟨k, (s.nextTask chain task.execution).map fun _ => s.tasks.length, rfl, ?_⟩
    simp only [Sys.runTask, hrun]
    rfl
  | awaitNext m k =>
    refine .inr ⟨task.outcome, stack, nofun, ?_⟩
    simp only [Sys.runTask, hrun]
    rfl
  | await k =>
    refine .inr ⟨task.outcome, stack, nofun, ?_⟩
    simp only [Sys.runTask, hrun]
    rfl
  | settle threw k =>
    refine .inr ⟨task.outcome.or (some threw), s.stack, nofun, ?_⟩
    simp only [Sys.runTask, hrun]
    rfl
  | halt =>
    refine .inr ⟨task.outcome, stack, nofun, ?_⟩
    simp only [Sys.runTask, hrun]
    rfl

/-- Every step keeps the invariant. -/
theorem Inv.step {a : Act C A} (h : Inv chain s) (hs : step chain s a = some t) : Inv chain t := by
  rcases step_cases hs with
    ⟨ctx, -, rfl⟩ | ⟨n, stack, task, q, -, -, htask, -, rfl⟩ |
      ⟨n, task, m, k, rejected, -, -, htask, -, rfl⟩ | ⟨n, task, k, answer, -, -, htask, -, rfl⟩
  · exact h.execute ctx
  · rcases runTask_cases chain s n stack task q with ⟨k, call, -, heq⟩ | ⟨outcome, stack', -, heq⟩
    · rw [heq]
      exact (h.of_world (chain.run s.world q).1 s.stack).callNext htask rfl rfl
    · rw [heq]
      exact (h.of_world _ stack').setTask htask rfl rfl
  · exact (h.of_world s.world [n]).setTask htask rfl rfl
  · exact (h.of_world s.world [n]).setTask htask rfl rfl

theorem inv_exec {world : W} {acts : List (Act C A)}
    (hrun : Machine.exec (step chain) (init world) acts = some s) : Inv chain s :=
  Machine.exec_invariant (fun _ _ _ h hs => h.step hs) (inv_init world) hrun

/-- An execution that moves on keeps its context. -/
theorem contexts_modify (executions : List (Execution C)) (e interceptors : ℕ) (caller : Option ℕ) :
    (executions.modify e (·.next interceptors caller)).map (·.ctx) = executions.map (·.ctx) := by
  refine List.ext_getElem? fun m => ?_
  rw [List.getElem?_map, List.getElem?_map, List.getElem?_modify]
  cases executions[m]? with
  | none => simp
  | some x =>
    simp only [Option.map_some]
    split <;> rfl

/-- A call of `next` leaves every execution its context. -/
theorem contexts_next (s : Sys C W A Q) (e : ℕ) (caller : Option ℕ) :
    (s.next chain e caller).executions.map (·.ctx) = s.executions.map (·.ctx) := by
  rw [executions_next, contexts_modify]

/-- The executions of a run have the contexts that were executed. -/
theorem contexts_exec {world : W} {acts : List (Act C A)}
    (hrun : Machine.exec (step chain) (init world) acts = some s) :
    s.executions.map (·.ctx) = contexts acts := by
  refine Machine.exec_history (I := fun as (s : Sys C W A Q) => s.executions.map (·.ctx) = contexts as)
    (fun as s a t h hs => ?_) rfl hrun
  rw [contexts, List.filterMap_append, ← contexts, ← h]
  rcases step_cases hs with
    ⟨ctx, rfl, rfl⟩ | ⟨n, stack, task, q, rfl, -, htask, -, rfl⟩ |
      ⟨n, task, m, k, rejected, rfl, -, htask, -, rfl⟩ | ⟨n, task, k, answer, rfl, -, htask, -, rfl⟩
  · rw [Sys.execute, contexts_next]
    exact List.map_append
  · refine Eq.trans ?_ (List.append_nil _).symm
    rcases runTask_cases chain s n stack task q with ⟨k, call, -, heq⟩ | ⟨outcome, stack', -, heq⟩
    · rw [heq, contexts_next]
      rfl
    · rw [heq]
      rfl
  · exact (List.append_nil _).symm
  · exact (List.append_nil _).symm

/-- In every run, for every execution: the interceptors started are the first ones in the order of
registration, once each. If none of them has called `next` twice, one is started exactly if the one
before it has called `next`. -/
theorem chain_started (chain : Chain C W A Q) (world : W) (acts : List (Act C A)) (s : Sys C W A Q)
    (hrun : Machine.exec (step chain) (init world) acts = some s) (e : ℕ) (x : Execution C)
    (hx : s.executions[e]? = some x) :
    (∃ n ≤ chain.interceptors.length, s.started e = List.range n) ∧
      (x.callers.Nodup → ∀ i, i + 1 < chain.interceptors.length →
        (i + 1 ∈ s.started e ↔ i ∈ x.callers)) := by
  have h := inv_exec hrun
  have hindex := (h.execution e x hx).index_eq
  refine ⟨⟨x.index, by omega, h.started_eq e x hx⟩, fun hnodup i hi => ?_⟩
  rw [h.started_eq e x hx, (h.execution e x hx).order hnodup, List.mem_range, List.mem_range]
  omega

end InterceptorChain

end Datasole
