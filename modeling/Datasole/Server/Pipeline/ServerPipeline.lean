import Datasole.Server.Metrics.OpenTelemetry
import Datasole.Server.Pipeline.Interceptors
import Datasole.Server.Pipeline.RateLimitInterceptor

/-!
# The server's chain of interceptors

The pipeline that `server/server.ts` builds: `server/pipeline/metrics.interceptor.ts`,
`server/pipeline/rate-limit.interceptor.ts`, and the hand-over to the executor. Each is written out
as a program of `InterceptorChain`. The limiter's promise may settle with any result or be rejected,
at any time, and the connection may be gone by then.

`pipeline_sound` has what holds of every chain, and of this one: a frame is handed to the executor
at most once, and only after the limiter's promise for it has settled with a result that allows it.
The invariant `ServerPipeline.Inv` says where the interceptors of an execution are by what the
limiter was asked, by the answers given so far, and by who has called `next`.
-/

namespace Datasole

structure FrameInterceptorContext where
  connectionId : String
  raw : Bytes

namespace ServerPipeline

open InterceptorChain

/-- What is done for an execution that others take part in. -/
inductive Event where
  | consume (e : ℕ) (key : String) (rule : RateLimitRule)
  | dispatch (e : ℕ) (connectionId : String) (raw : Bytes)

/-- What the interceptors work on, and what they have done. -/
structure World where
  metrics : MetricsCollector
  sent : List (String × Bytes)
  log : List Event

/-- How `consume` has settled, and the connection that there is by then. -/
structure Answer where
  result : Option RateLimitResult
  conn : Option Connection

/-- Where an interceptor is. -/
inductive Code where
  | metrics (e : ℕ) (ctx : FrameInterceptorContext)
  | rateLimit (e : ℕ) (ctx : FrameInterceptorContext)
  | consumed (e : ℕ) (ctx : FrameInterceptorContext) (answer : Answer)
  | dispatch (e : ℕ) (ctx : FrameInterceptorContext)
  /-- `next` has been called and is to be awaited. -/
  | called
  | returned (threw : Bool)
  | finished

variable {V : Type*} (pako : Pako) (text : JsonText V) (config : RateLimitConfig)

/-- The metrics interceptor. -/
def countFrame (w : World) (ctx : FrameInterceptorContext) : World :=
  { w with metrics := (w.metrics.increment .messagesIn 1).increment .bytesIn ctx.raw.length }

/-- The answer to a refused frame; nothing if its connection is gone. The Boolean says whether the
interceptor throws. -/
def refuse (w : World) (ctx : FrameInterceptorContext) (conn : Option Connection)
    (result : RateLimitResult) : World × Bool :=
  match conn with
  | none => (w, false)
  | some conn =>
    let correlationId := match decodeMessage pako.inflate ctx.raw with
      | .ok frame => frame.correlationId
      | .error _ => 0
    match (text.encode (rateLimitExceeded result)).bind fun payload =>
        pako.pack ⟨.error, correlationId, payload⟩ with
    | .error _ => (w, true)
    | .ok frameData =>
      ({ w with
        sent := w.sent ++ (conn.send frameData).map (ctx.connectionId, ·)
        metrics := w.metrics.increment .messagesOut 1 }, false)

def run (w : World) : Code → World × Instr Answer Code
  | .metrics _ ctx => (countFrame w ctx, .next .called)
  | .rateLimit e ctx =>
    let rule := getRateLimitRule pako text ctx.raw config
    match getRateLimitKey pako text ctx.connectionId ctx.raw config with
    | .error _ => (w, .settle true .finished)
    | .ok key => ({ w with log := w.log ++ [.consume e key rule] }, .await (.consumed e ctx))
  | .consumed _ ctx answer =>
    match answer.result with
    | none => (w, .settle true .finished)
    | some result =>
      if result.allowed then (w, .next .called)
      else
        let (w, threw) := refuse pako text w ctx answer.conn result
        (w, .settle threw .finished)
  | .dispatch e ctx =>
    ({ w with log := w.log ++ [.dispatch e ctx.connectionId ctx.raw] }, .settle false .finished)
  | .called => (w, .awaitNext 0 .returned)
  | .returned threw => (w, .settle threw .finished)
  | .finished => (w, .halt)

/-- The pipeline as the server builds it. -/
def chain : Chain FrameInterceptorContext World Answer Code :=
  (((⟨[], run pako text config⟩ : Chain _ _ _ _).use .metrics).use .rateLimit).use .dispatch

def empty : World := ⟨MetricsCollector.new 0, [], []⟩

/-- The frame of an execution is handed to the executor. -/
def Event.IsDispatch (e : ℕ) : Event → Prop
  | .dispatch e' _ _ => e' = e
  | _ => False

instance (e : ℕ) : DecidablePred (Event.IsDispatch e)
  | .dispatch e' _ _ => inferInstanceAs (Decidable (e' = e))
  | .consume _ _ _ => .isFalse id

abbrev State := Sys FrameInterceptorContext World Answer Code

/-- In a run of the actions `as` into `s`, the limiter has been asked about the frame of an
execution, with the key and the rule that are its own, and the promise that the execution's second
interceptor awaits has settled with a result that allows it. -/
structure Admitted (as : List (Act FrameInterceptorContext Answer)) (s : State) (e : ℕ)
    (ctx : FrameInterceptorContext) : Prop where
  asked : ∃ key, getRateLimitKey pako text ctx.connectionId ctx.raw config = .ok key ∧
    .consume e key (getRateLimitRule pako text ctx.raw config) ∈ s.world.log
  allowed : ∃ n answer result, s.ids[n]? = some (e, 1) ∧ .answer n answer ∈ as ∧
    answer.result = some result ∧ result.allowed = true

/-! ## What the interceptors of the server keep -/

/-- The interceptors of an execution that have called `next`. -/
def callers (s : State) (e : ℕ) : List ℕ := ((s.executions[e]?).map (·.callers)).getD []

/-- What an execution was begun with. -/
def context (s : State) (e : ℕ) : Option FrameInterceptorContext := (s.executions[e]?).map (·.ctx)

/-- Interceptor `i` of execution `e` may be here. -/
def CodeInv (s : State) (e i : ℕ) : Code → Prop
  | .metrics e' _ => i = 0 ∧ e' = e ∧ i ∉ callers s e
  | .rateLimit e' ctx => i = 1 ∧ e' = e ∧ i ∉ callers s e ∧ context s e = some ctx
  | .consumed e' ctx _ => i = 1 ∧ e' = e ∧ i ∉ callers s e ∧ context s e = some ctx ∧
      ∃ key, getRateLimitKey pako text ctx.connectionId ctx.raw config = .ok key ∧
        .consume e key (getRateLimitRule pako text ctx.raw config) ∈ s.world.log
  | .dispatch e' ctx => i = 2 ∧ e' = e ∧ context s e = some ctx ∧
      ∀ event ∈ s.world.log, ¬ event.IsDispatch e
  | .called | .returned _ | .finished => True

/-- Task `n` goes on with an answer of the limiter only where it was given that answer. -/
def Given (as : List (Act FrameInterceptorContext Answer)) (n : ℕ) : Status Answer Code → Prop
  | .running q => ∀ e ctx answer, q = .consumed e ctx answer → .answer n answer ∈ as
  | .awaitingNext _ k => ∀ rejected e ctx answer, k rejected ≠ .consumed e ctx answer
  | .awaiting k => ∃ e ctx, k = .consumed e ctx
  | .halted => True

structure Inv (as : List (Act FrameInterceptorContext Answer)) (s : State) : Prop where
  base : InterceptorChain.Inv (chain pako text config) s
  code : ∀ task ∈ s.tasks, ∀ q, task.status.Offers q →
    CodeInv pako text config s task.execution task.interceptor q
  given : ∀ n task, s.tasks[n]? = some task → Given as n task.status
  /-- The limiter's interceptor calls `next` where the frame is allowed. -/
  caller : ∀ (e : ℕ) (x : Execution FrameInterceptorContext), s.executions[e]? = some x →
    x.callers.Nodup ∧ (1 ∈ x.callers → Admitted pako text config as s e x.ctx)
  dispatched : ∀ event ∈ s.world.log, ∀ e, event.IsDispatch e →
    ∃ x, s.executions[e]? = some x ∧ 2 < x.index
  once : ∀ e, s.world.log.countP (Event.IsDispatch e ·) ≤ 1

variable {pako text config} {as bs : List (Act FrameInterceptorContext Answer)} {s t : State}

/-- Nothing has been executed and nobody was asked. -/
theorem inv_init : Inv pako text config [] (InterceptorChain.init empty : State) where
  base := InterceptorChain.inv_init empty
  code task htask := by cases htask
  given n task htask := by simp [InterceptorChain.init] at htask
  caller e x hx := by simp [InterceptorChain.init] at hx
  dispatched event hevent := by cases hevent
  once e := Nat.zero_le 1

/-- An answer that was given stays given. -/
theorem Given.mono {n : ℕ} {status : Status Answer Code} (h : Given as n status) (has : as ⊆ bs) :
    Given bs n status := by
  cases status with
  | running q => exact fun e ctx answer hq => has (h e ctx answer hq)
  | awaitingNext m k | awaiting k | halted => exact h

/-- What the limiter has allowed stays allowed, as a run only adds to what there is. -/
theorem Admitted.mono {e : ℕ} {ctx : FrameInterceptorContext}
    (h : Admitted pako text config as s e ctx)
    (has : as ⊆ bs) (hids : s.ids <+: t.ids) (hlog : s.world.log ⊆ t.world.log) :
    Admitted pako text config bs t e ctx := by
  obtain ⟨key, hkey, hasked⟩ := h.asked
  obtain ⟨n, answer, result, hid, hanswer, hresult⟩ := h.allowed
  obtain ⟨hlt, hget⟩ := List.getElem?_eq_some_iff.mp hid
  have hid' : t.ids[n]? = some (e, 1) := hget ▸ List.prefix_iff_getElem?.mp hids n hlt
  exact ⟨⟨key, hkey, hlog hasked⟩, n, answer, result, hid', has hanswer, hresult⟩

/-- An event that is about another execution, or no dispatch at all, dispatches nothing a second
time. -/
theorem once_concat {log : List Event} {event : Event}
    (h : ∀ e, log.countP (Event.IsDispatch e ·) ≤ 1)
    (hevent : ∀ e, event.IsDispatch e → ∀ event' ∈ log, ¬ event'.IsDispatch e) (e : ℕ) :
    (log ++ [event]).countP (Event.IsDispatch e ·) ≤ 1 := by
  rw [List.countP_append, List.countP_singleton]
  by_cases hdispatch : event.IsDispatch e
  · have hnone : log.countP (Event.IsDispatch e ·) = 0 :=
      List.countP_eq_zero.mpr fun event' hmem heq => hevent e hdispatch event' hmem (of_decide_eq_true heq)
    rw [hnone, if_pos (decide_eq_true hdispatch)]
  · rw [if_neg fun heq => hdispatch (of_decide_eq_true heq)]
    exact h e

/-- The state in which the interceptor with a number begins is one where it may be. -/
theorem codeInv_start {i e : ℕ} {interceptor : ℕ → FrameInterceptorContext → Code}
    (hinterceptor : (chain pako text config).interceptors[i]? = some interceptor)
    (ctx : FrameInterceptorContext) (hcallers : i ∉ callers s e) (hcontext : context s e = some ctx)
    (hdispatch : i = 2 → ∀ event ∈ s.world.log, ¬ event.IsDispatch e) :
    CodeInv pako text config s e i (interceptor e ctx) := by
  match i, hinterceptor with
  | 0, hinterceptor => cases hinterceptor; exact ⟨rfl, rfl, hcallers⟩
  | 1, hinterceptor => cases hinterceptor; exact ⟨rfl, rfl, hcallers, hcontext⟩
  | 2, hinterceptor => cases hinterceptor; exact ⟨rfl, rfl, hcontext, hdispatch rfl⟩

/-- No interceptor begins with an answer of the limiter. -/
theorem start_ne_consumed {i e : ℕ} {interceptor : ℕ → FrameInterceptorContext → Code}
    (hinterceptor : (chain pako text config).interceptors[i]? = some interceptor)
    (ctx : FrameInterceptorContext) (e' : ℕ) (ctx' : FrameInterceptorContext) (answer : Answer) :
    interceptor e ctx ≠ .consumed e' ctx' answer := by
  match i, hinterceptor with
  | 0, hinterceptor | 1, hinterceptor | 2, hinterceptor =>
    cases hinterceptor
    intro heq
    cases heq

/-- Where a task may be depends on the callers of its execution, and on whether that is dispatched;
the contexts and what has been asked stay. -/
theorem CodeInv.mono {e i : ℕ} {q : Code} (h : CodeInv pako text config s e i q)
    (hcallers : i ∉ callers s e → i ∉ callers t e)
    (hcontext : ∀ ctx, context s e = some ctx → context t e = some ctx)
    (hlog : s.world.log ⊆ t.world.log)
    (hdispatch : i = 2 → (∀ event ∈ s.world.log, ¬ event.IsDispatch e) →
      ∀ event ∈ t.world.log, ¬ event.IsDispatch e) : CodeInv pako text config t e i q := by
  cases q with
  | metrics e' ctx => exact ⟨h.1, h.2.1, hcallers h.2.2⟩
  | rateLimit e' ctx => exact ⟨h.1, h.2.1, hcallers h.2.2.1, hcontext ctx h.2.2.2⟩
  | consumed e' ctx answer =>
    obtain ⟨hi, he, hcalled, hctx, key, hkey, hasked⟩ := h
    exact ⟨hi, he, hcallers hcalled, hcontext ctx hctx, key, hkey, hlog hasked⟩
  | dispatch e' ctx => exact ⟨h.1, h.2.1, hcontext ctx h.2.2.1, hdispatch h.1 h.2.2.2⟩
  | called | returned threw | finished => trivial

/-- A task goes on without a call of `next`: what it logs is about its own execution, and only the
third interceptor dispatches. -/
theorem Inv.goOn (h : Inv pako text config as s) {n : ℕ} {task : Task Answer Code}
    (htask : s.tasks[n]? = some task) {world : World} {extra : List Event}
    (hlog : world.log = s.world.log ++ extra)
    (hextra : ∀ event ∈ extra, ∀ e, event.IsDispatch e → e = task.execution ∧ task.interceptor = 2)
    (honce : ∀ e, world.log.countP (Event.IsDispatch e ·) ≤ 1)
    (a : Act FrameInterceptorContext Answer) (stack : List ℕ) (status : Status Answer Code)
    (outcome : Option Bool)
    (hcode : ∀ q, status.Offers q →
      CodeInv pako text config { s with world := world } task.execution task.interceptor q)
    (hgiven : Given (as ++ [a]) n status) :
    Inv pako text config (as ++ [a]) ({ s with world := world, stack := stack }.setTask n
      { task with status := status, outcome := outcome }) := by
  have hmem := List.mem_of_getElem? htask
  have hgrows : s.world.log ⊆ world.log := hlog ▸ List.subset_append_left _ _
  refine ⟨(h.base.of_world world stack).setTask htask rfl rfl, fun task' htask' q hq => ?_,
    fun m task' htask' => ?_, fun e x hx => ?_, fun event hevent e hdispatch => ?_, honce⟩
  · rcases (h.base.of_world world stack).mem_setTask htask htask' with rfl | ⟨hold, hne⟩
    · exact hcode q hq
    · refine (h.code task' hold q hq).mono id (fun _ => id) hgrows
        fun hinterceptor hnone event hevent hdispatch => ?_
      change event ∈ world.log at hevent
      rw [hlog] at hevent
      rcases List.mem_append.mp hevent with hevent | hevent
      · exact hnone event hevent hdispatch
      · -- if it is its own event it is the third interceptor, of which an execution has one
        obtain ⟨hexecution, hthird⟩ := hextra event hevent _ hdispatch
        exact hne (Prod.ext hexecution (hinterceptor.trans hthird.symm))
  · change (s.tasks.set n _)[m]? = some task' at htask'
    rw [List.getElem?_set] at htask'
    split at htask'
    · next heq =>
      subst heq
      split at htask'
      · cases htask'
        exact hgiven
      · cases htask'
    · exact (h.given m task' htask').mono (List.subset_append_left _ _)
  · refine ⟨(h.caller e x hx).1, fun hcalled => ((h.caller e x hx).2 hcalled).mono
      (List.subset_append_left _ _) (ids_prefix_set htask rfl) hgrows⟩
  · change event ∈ world.log at hevent
    rw [hlog] at hevent
    rcases List.mem_append.mp hevent with hevent | hevent
    · exact h.dispatched event hevent e hdispatch
    · obtain ⟨rfl, hthird⟩ := hextra event hevent e hdispatch
      obtain ⟨x, hx⟩ := h.base.task task hmem
      exact ⟨x, hx, hthird ▸ h.base.interceptor_lt hmem hx⟩

/-- Whoever calls `next` is added to the callers of its execution. -/
theorem callers_next {e : ℕ} {x : Execution FrameInterceptorContext}
    (hx : s.executions[e]? = some x)
    (caller : Option ℕ) (e' : ℕ) : callers (s.next (chain pako text config) e caller) e' =
      if e = e' then x.callers ++ caller.toList else callers s e' := by
  rw [callers, execution_next, hx]
  split <;> rfl

/-- The context of an execution stays the same object. -/
theorem context_next (e : ℕ) (caller : Option ℕ) (e' : ℕ) :
    context (s.next (chain pako text config) e caller) e' = context s e' := by
  rw [context, ← List.getElem?_map, contexts_next, List.getElem?_map]
  rfl

/-- A call of `next` keeps the invariant if who calls is started and calls for the first time, and
if the limiter's interceptor calls only where the frame is allowed. -/
theorem inv_next {e : ℕ} {x : Execution FrameInterceptorContext} {caller : Option ℕ}
    (hx : s.executions[e]? = some x)
    (hbase : InterceptorChain.Inv (chain pako text config) (s.next (chain pako text config) e caller))
    (htasks : ∀ task ∈ s.tasks, ∀ q, task.status.Offers q →
      CodeInv pako text config (s.next (chain pako text config) e caller) task.execution
        task.interceptor q)
    (hgiven : ∀ n task, s.tasks[n]? = some task → Given as n task.status)
    (hbefore : ∀ i ∈ x.callers ++ caller.toList, i < x.index)
    (hcaller : (x.callers ++ caller.toList).Nodup ∧
      (1 ∈ x.callers ++ caller.toList → Admitted pako text config as s e x.ctx))
    (hothers : ∀ (e' : ℕ) (x' : Execution FrameInterceptorContext), e ≠ e' →
      s.executions[e']? = some x' →
        x'.callers.Nodup ∧ (1 ∈ x'.callers → Admitted pako text config as s e' x'.ctx))
    (hdispatched : ∀ event ∈ s.world.log, ∀ e', event.IsDispatch e' →
      ∃ x', s.executions[e']? = some x' ∧ 2 < x'.index)
    (honce : ∀ e, s.world.log.countP (Event.IsDispatch e ·) ≤ 1) :
    Inv pako text config as (s.next (chain pako text config) e caller) := by
  have hkept {e' : ℕ} {ctx : FrameInterceptorContext} (h : Admitted pako text config as s e' ctx) :
      Admitted pako text config as (s.next (chain pako text config) e caller) e' ctx :=
    h.mono (List.Subset.refl _) (ids_prefix_next s e caller) (by rw [world_next]; exact List.Subset.refl _)
  refine ⟨hbase, fun task htask q hq => ?_, fun n task htask => ?_, fun e' x' hx' => ?_,
    fun event hevent e' hdispatch => ?_, by rwa [world_next]⟩
  · rw [tasks_next] at htask
    rcases List.mem_append.mp htask with htask | htask
    · exact htasks task htask q hq
    · -- the task that begins is the next interceptor, if there is one left
      rcases nextTask_eq (chain pako text config) hx with
        ⟨-, interceptor, hinterceptor, hstart⟩ | ⟨-, hnone⟩
      · rw [hstart, Option.toList_some, List.mem_singleton] at htask
        subst htask
        cases hq
        refine codeInv_start hinterceptor x.ctx ?_ ?_ fun hthird event hevent hdispatch => ?_
        · rw [callers_next hx, if_pos rfl]
          exact fun hmem => lt_irrefl _ (hbefore _ hmem)
        · rw [context_next, context, hx]
          rfl
        · rw [world_next] at hevent
          obtain ⟨x', hx', hlt⟩ := hdispatched event hevent e hdispatch
          obtain rfl := Option.some.inj (hx.symm.trans hx')
          omega
      · rw [hnone] at htask
        cases htask
  · rw [tasks_next, List.getElem?_append] at htask
    split at htask
    · exact hgiven n task htask
    · -- a task that begins has no answer yet
      have hnew := List.mem_of_getElem? htask
      rcases nextTask_eq (chain pako text config) hx with
        ⟨-, interceptor, hinterceptor, hstart⟩ | ⟨-, hnone⟩
      · rw [hstart, Option.toList_some, List.mem_singleton] at hnew
        subst hnew
        exact fun e' ctx answer hq => absurd hq (start_ne_consumed hinterceptor x.ctx e' ctx answer)
      · rw [hnone] at hnew
        cases hnew
  · rw [execution_next, hx] at hx'
    split at hx'
    · next heq =>
      subst heq
      cases hx'
      exact ⟨hcaller.1, fun hcalled => hkept (hcaller.2 hcalled)⟩
    · next hne =>
      have hother := hothers e' x' hne hx'
      exact ⟨hother.1, fun hcalled => hkept (hother.2 hcalled)⟩
  · rw [world_next] at hevent
    obtain ⟨x', hx', hlt⟩ := hdispatched event hevent e' hdispatch
    rw [execution_next, hx]
    split
    · next heq =>
      subst heq
      obtain rfl := Option.some.inj (hx.symm.trans hx')
      refine ⟨_, rfl, hlt.trans_le ?_⟩
      simp only [Execution.next]
      split <;> omega
    · exact ⟨x', hx', hlt⟩

/-- A task calls `next` for the first time. -/
theorem Inv.callNext (h : Inv pako text config as s) {n : ℕ} {task : Task Answer Code}
    (htask : s.tasks[n]? = some task) {world : World} (hlog : world.log = s.world.log)
    (hcaller : task.interceptor ∉ callers s task.execution)
    (hallowed : task.interceptor = 1 → ∀ ctx, context s task.execution = some ctx →
      Admitted pako text config as s task.execution ctx)
    (a : Act FrameInterceptorContext Answer) (call : Option ℕ) :
    Inv pako text config (as ++ [a]) (({ s with world := world }.setTask n
      { task with status := .running .called, calls := task.calls ++ [call] }).next
        (chain pako text config) task.execution (some task.interceptor)) := by
  have hmem := List.mem_of_getElem? htask
  obtain ⟨x, hx⟩ := h.base.task task hmem
  have hlt := h.base.interceptor_lt hmem hx
  have hx' : callers s task.execution = x.callers := by rw [callers, hx]; rfl
  set s₁ : State := { s with world := world }.setTask n
    { task with status := .running .called, calls := task.calls ++ [call] }
  have hids : s.ids <+: s₁.ids := ids_prefix_set htask rfl
  have hkept {e : ℕ} {ctx : FrameInterceptorContext} (h : Admitted pako text config as s e ctx) :
      Admitted pako text config (as ++ [a]) s₁ e ctx :=
    h.mono (List.subset_append_left _ _) hids (hlog ▸ List.Subset.refl _)
  have hbase : InterceptorChain.Inv (chain pako text config)
      (s₁.next (chain pako text config) task.execution (some task.interceptor)) :=
    (h.base.of_world world s.stack).callNext htask rfl rfl
  refine inv_next (s := s₁) hx hbase (fun task' htask' q hq => ?_)
    (fun m task' htask' => ?_) (fun i hi => ?_) ⟨?_, fun hcalled => hkept ?_⟩
    (fun e x hne hx => ⟨(h.caller e x hx).1, fun hcalled => hkept ((h.caller e x hx).2 hcalled)⟩)
    (fun event hevent e hdispatch => h.dispatched event (hlog ▸ hevent) e hdispatch) (hlog ▸ h.once)
  · -- the task itself goes on after `next`, and any other is where it was
    rcases (h.base.of_world world s.stack).mem_setTask htask htask' with rfl | ⟨hother, hne⟩
    · cases hq
      trivial
    · refine (h.code task' hother q hq).mono (fun hnot => ?_) (fun ctx hctx => ?_) ?_
        fun _ hnone event hevent hdispatch => ?_
      · rw [callers_next (s := s₁) hx]
        split
        · next heq =>
          rw [← heq, hx'] at hnot
          refine fun hmem => (List.mem_append.mp hmem).elim hnot fun hsame => ?_
          exact hne (Prod.ext heq.symm (List.mem_singleton.mp hsame))
        · exact hnot
      · rw [context_next]
        exact hctx
      · rw [world_next]
        exact hlog ▸ List.Subset.refl _
      · rw [world_next] at hevent
        exact hnone event (hlog ▸ hevent) hdispatch
  · -- a task that has called `next` goes on without an answer of the limiter
    change (s.tasks.set n _)[m]? = some task' at htask'
    rw [List.getElem?_set] at htask'
    split at htask'
    · split at htask'
      · cases htask'
        exact fun e ctx answer hq => by cases hq
      · cases htask'
    · exact (h.given m task' htask').mono (List.subset_append_left _ _)
  · rcases List.mem_append.mp hi with hi | hi
    · exact (h.base.execution _ x hx).caller_lt i hi
    · exact List.mem_singleton.mp hi ▸ hlt
  · rw [Option.toList_some, ← List.concat_eq_append, List.nodup_concat]
    exact ⟨hx' ▸ hcaller, (h.caller _ x hx).1⟩
  · -- the second interceptor calls `next` only with an answer that allows the frame
    rcases List.mem_append.mp hcalled with hcalled | hcalled
    · exact (h.caller _ x hx).2 hcalled
    · exact hallowed (List.mem_singleton.mp hcalled).symm x.ctx (by rw [context, hx]; rfl)

/-- An execution begins. -/
theorem Inv.execute (h : Inv pako text config as s) (a : Act FrameInterceptorContext Answer)
    (ctx : FrameInterceptorContext) :
    Inv pako text config (as ++ [a]) (s.execute (chain pako text config) ctx) := by
  set x : Execution FrameInterceptorContext := { ctx := ctx, index := 0, callers := [] }
  have hlast : (s.executions ++ [x])[s.executions.length]? = some x := List.getElem?_concat_length
  have hold {e : ℕ} {x' : Execution FrameInterceptorContext} (hne : s.executions.length ≠ e)
      (hx' : (s.executions ++ [x])[e]? = some x') : s.executions[e]? = some x' := by
    have hlt := (List.getElem?_eq_some_iff.mp hx').1
    rw [List.length_append, List.length_singleton] at hlt
    rwa [List.getElem?_append_left (by omega)] at hx'
  have hkept {e : ℕ} {x' : Execution FrameInterceptorContext} (hx' : s.executions[e]? = some x') :
      (s.executions ++ [x])[e]? = some x' :=
    (List.getElem?_append_left (List.getElem?_eq_some_iff.mp hx').1).trans hx'
  refine inv_next (s := { s with executions := s.executions ++ [x] }) hlast (h.base.execute ctx)
    (fun task htask q hq => ?_)
    (fun n task htask => (h.given n task htask).mono (List.subset_append_left _ _))
    (fun i hi => by cases hi) ⟨List.nodup_nil, fun hcalled => by cases hcalled⟩
    (fun e x' hne hx' => ?_) (fun event hevent e hdispatch => ?_) h.once
  · -- every task belongs to an earlier execution
    obtain ⟨x', hx'⟩ := h.base.task task htask
    refine (h.code task htask q hq).mono (fun hnot => ?_) (fun ctx' hctx => ?_)
      (by rw [world_next]; exact List.Subset.refl _) fun _ hnone => by rwa [world_next]
    · rw [callers_next (s := { s with executions := s.executions ++ [x] }) hlast]
      split
      · exact List.not_mem_nil
      · rw [callers, hkept hx']
        rwa [callers, hx'] at hnot
    · rw [context_next, context, hkept hx']
      rwa [context, hx'] at hctx
  · -- an earlier execution keeps its callers
    have hcaller := h.caller e x' (hold hne hx')
    exact ⟨hcaller.1, fun hcalled => (hcaller.2 hcalled).mono (List.subset_append_left _ _)
      List.prefix_rfl (List.Subset.refl _)⟩
  · obtain ⟨x', hx', hlt⟩ := h.dispatched event hevent e hdispatch
    exact ⟨x', hkept hx', hlt⟩

/-! ### What the programs do -/

/-- A refusal hands nothing to the executor. -/
theorem log_refuse (w : World) (ctx : FrameInterceptorContext) (conn : Option Connection)
    (result : RateLimitResult) : (refuse pako text w ctx conn result).1.log = w.log := by
  unfold refuse
  cases conn with
  | none => rfl
  | some conn =>
    dsimp only
    split <;> rfl

/-- What goes out for a refused frame is what `sendRateLimitError` makes for its connection. -/
theorem sent_refuse (w : World) (ctx : FrameInterceptorContext) (conn : Option Connection)
    (result : RateLimitResult) : (refuse pako text w ctx conn result).1.sent =
      w.sent ++ (sendRateLimitError pako text conn ctx.raw result).map (ctx.connectionId, ·) := by
  cases conn with
  | none => exact (List.append_nil _).symm
  | some conn =>
    simp only [refuse, sendRateLimitError]
    cases decodeMessage pako.inflate ctx.raw with
    | error e | ok frame =>
      dsimp only
      cases Except.bind (text.encode (rateLimitExceeded result)) _ with
      | error e => exact (List.append_nil _).symm
      | ok frameData => rfl

/-- `next` is called by the metrics interceptor, and by the limiter's where the answer allows the
frame; neither call leaves anything for others to see. -/
theorem run_next {w : World} {q k : Code} (h : (run pako text config w q).2 = .next k) :
    k = .called ∧ (run pako text config w q).1.log = w.log ∧
      ((∃ e ctx, q = .metrics e ctx) ∨
        ∃ e ctx answer result, q = .consumed e ctx answer ∧ answer.result = some result ∧
          result.allowed = true) := by
  cases q with
  | metrics e ctx =>
    cases h
    exact ⟨rfl, rfl, .inl ⟨e, ctx, rfl⟩⟩
  | rateLimit e ctx =>
    simp only [run] at h
    split at h <;> cases h
  | consumed e ctx answer =>
    simp only [run] at h ⊢
    split at h
    · cases h
    · next result hresult =>
      split at h
      · next hallowed =>
        cases h
        exact ⟨rfl, by simp only [if_pos hallowed],
          .inr ⟨e, ctx, answer, result, rfl, hresult, hallowed⟩⟩
      · cases h
  | dispatch e ctx | called | returned threw | finished => cases h

/-- Without a call of `next`: the limiter is asked with the key and the rule of the frame and its
answer awaited, or the frame is dispatched, or nothing is logged; then the interceptor is at its
end, or awaits the promise of `next`. -/
theorem run_other {w : World} {q : Code} (h : ∀ k, (run pako text config w q).2 ≠ .next k) :
    (∃ e ctx key, q = .rateLimit e ctx ∧
        getRateLimitKey pako text ctx.connectionId ctx.raw config = .ok key ∧
        (run pako text config w q).1.log =
          w.log ++ [.consume e key (getRateLimitRule pako text ctx.raw config)] ∧
        (run pako text config w q).2 = .await (.consumed e ctx)) ∨
      ((run pako text config w q).1.log = w.log ∨
        ∃ e ctx, q = .dispatch e ctx ∧
          (run pako text config w q).1.log = w.log ++ [.dispatch e ctx.connectionId ctx.raw]) ∧
        ((run pako text config w q).2.status = .running .finished ∨
          (run pako text config w q).2.status = .awaitingNext 0 .returned ∨
          (run pako text config w q).2.status = .halted) := by
  cases q with
  | metrics e ctx => exact absurd rfl (h .called)
  | rateLimit e ctx =>
    simp only [run]
    split
    · exact .inr ⟨.inl rfl, .inl rfl⟩
    · next key hkey => exact .inl ⟨e, ctx, key, rfl, hkey, rfl, rfl⟩
  | consumed e ctx answer =>
    refine .inr ?_
    simp only [run] at h ⊢
    split
    · exact ⟨.inl rfl, .inl rfl⟩
    · next result hresult =>
      split
      · next hallowed => exact absurd (by simp only [hresult, if_pos hallowed]) (h .called)
      · exact ⟨.inl (log_refuse w ctx answer.conn result), .inl rfl⟩
  | dispatch e ctx => exact .inr ⟨.inr ⟨e, ctx, rfl, rfl⟩, .inl rfl⟩
  | called => exact .inr ⟨.inl rfl, .inr (.inl rfl)⟩
  | returned threw => exact .inr ⟨.inl rfl, .inl rfl⟩
  | finished => exact .inr ⟨.inl rfl, .inr (.inr rfl)⟩

/-- Where the third interceptor is started, the second has called `next`, and the frame is
allowed. -/
theorem Inv.admitted (h : Inv pako text config as s) {task : Task Answer Code}
    (htask : task ∈ s.tasks)
    (hthird : task.interceptor = 2) {ctx : FrameInterceptorContext}
    (hctx : context s task.execution = some ctx) :
    Admitted pako text config as s task.execution ctx := by
  obtain ⟨x, hx⟩ := h.base.task task htask
  obtain rfl : x.ctx = ctx := by
    rw [context, hx] at hctx
    exact Option.some.inj hctx
  have hlt := h.base.interceptor_lt htask hx
  have hexecution := h.base.execution _ x hx
  obtain ⟨hnodup, hallowed⟩ := h.caller _ x hx
  have hindex := hexecution.index_eq
  refine hallowed ?_
  rw [hexecution.order hnodup, List.mem_range]
  omega

/-- The limiter's interceptor goes on with an answer that it was given. -/
theorem Inv.admitted_of_consumed (h : Inv pako text config as s) {n : ℕ} {task : Task Answer Code}
    (htask : s.tasks[n]? = some task) {e : ℕ} {ctx : FrameInterceptorContext} {answer : Answer}
    (hstatus : task.status = .running (.consumed e ctx answer)) {result : RateLimitResult}
    (hresult : answer.result = some result) (hallowed : result.allowed = true) :
    Admitted pako text config as s task.execution ctx := by
  obtain ⟨hsecond, -, -, -, hasked⟩ :=
    h.code task (List.mem_of_getElem? htask) (.consumed e ctx answer) (by rw [hstatus]; rfl)
  have hid : s.ids[n]? = some (task.execution, 1) := by
    rw [Sys.ids, List.getElem?_map, htask, ← hsecond]
    rfl
  have hgiven := h.given n task htask
  rw [hstatus] at hgiven
  have hanswer := hgiven e ctx answer rfl
  exact ⟨hasked, n, answer, result, hid, hanswer, hresult, hallowed⟩

/-- The task on top of the stack goes on. -/
theorem Inv.runTask (h : Inv pako text config as s) (a : Act FrameInterceptorContext Answer) {n : ℕ}
    {stack : List ℕ} {task : Task Answer Code} {q : Code} (htask : s.tasks[n]? = some task)
    (hstatus : task.status = .running q) :
    Inv pako text config (as ++ [a]) (s.runTask (chain pako text config) n stack task q) := by
  have hmem := List.mem_of_getElem? htask
  have hq := h.code task hmem q (by rw [hstatus]; rfl)
  rcases runTask_cases (chain pako text config) s n stack task q with
    ⟨k, call, hnext, heq⟩ | ⟨outcome, stack', hother, heq⟩
  · rw [heq]
    obtain ⟨rfl, hlog, ⟨e, ctx, rfl⟩ | ⟨e, ctx, answer, result, rfl, hresult, hallowed⟩⟩ :=
      -- the first interceptor needs no permission to call `next`, the second has the answer for it
      run_next hnext
    · refine h.callNext htask hlog hq.2.2 (fun hsecond => ?_) a call
      have hfirst := hq.1
      omega
    · refine h.callNext htask hlog hq.2.2.1 (fun _ ctx' hctx => ?_) a call
      obtain rfl := Option.some.inj (hq.2.2.2.1.symm.trans hctx)
      exact h.admitted_of_consumed htask hstatus hresult hallowed
  · rw [heq]
    -- the second interceptor asks the limiter, and waits
    rcases run_other hother with ⟨e, ctx, key, rfl, hkey, hlog, hinstr⟩ | ⟨hlog, hends⟩
    · have hstatus' : ((chain pako text config).run s.world (.rateLimit e ctx)).2.status =
          .awaiting (.consumed e ctx) := congrArg Instr.status hinstr
      rw [hstatus']
      refine h.goOn htask hlog ?_ ?_ a stack' _ outcome (fun q' hq' => ?_) ⟨e, ctx, rfl⟩
      · intro event hevent e' hdispatch
        rw [List.mem_singleton.mp hevent] at hdispatch
        exact hdispatch.elim
      · rw [hlog]
        exact once_concat h.once fun _ hdispatch => hdispatch.elim
      · obtain ⟨answer, rfl⟩ := hq'
        obtain ⟨hsecond, rfl, hcallers, hctx⟩ := hq
        refine ⟨hsecond, rfl, hcallers, hctx, key, hkey, ?_⟩
        change _ ∈ (run pako text config s.world (.rateLimit task.execution ctx)).1.log
        rw [hlog]
        exact List.mem_append_right _ (List.mem_singleton_self _)
    · have hcode (q' : Code) (hq' : ((chain pako text config).run s.world q).2.status.Offers q') :
          CodeInv pako text config { s with world := (run pako text config s.world q).1 } task.execution
            task.interceptor q' := by
        change (run pako text config s.world q).2.status.Offers q' at hq'
        -- a task that ends offers nothing to go on with
        rcases hends with hend | hend | hend <;> rw [hend] at hq'
        · rw [show q' = .finished from hq']
          trivial
        · obtain ⟨threw, rfl⟩ := hq'
          trivial
        · exact hq'.elim
      have hgiven : Given (as ++ [a]) n ((chain pako text config).run s.world q).2.status := by
        change Given (as ++ [a]) n (run pako text config s.world q).2.status
        rcases hends with hend | hend | hend <;> rw [hend]
        · exact fun e ctx answer hq => by cases hq
        · exact fun rejected e ctx answer hq => by cases hq
        · trivial
      rcases hlog with hlog | ⟨e, ctx, rfl, hlog⟩
      · exact h.goOn htask (hlog.trans (List.append_nil _).symm) nofun (hlog ▸ h.once) a stack' _ outcome
          hcode hgiven
      · -- the third interceptor dispatches: its execution has done so only now
        obtain ⟨hthird, rfl, -, hnone⟩ := hq
        refine h.goOn htask hlog ?_ ?_ a stack' _ outcome hcode hgiven
        · intro event hevent e' hdispatch
          rw [List.mem_singleton.mp hevent] at hdispatch
          exact ⟨hdispatch.symm, hthird⟩
        · rw [hlog]
          refine once_concat h.once fun e' hdispatch => ?_
          obtain rfl : task.execution = e' := hdispatch
          exact hnone

/-- Every step keeps the invariant. -/
theorem Inv.step {a : Act FrameInterceptorContext Answer} (h : Inv pako text config as s)
    (hs : step (chain pako text config) s a = some t) : Inv pako text config (as ++ [a]) t := by
  rcases step_cases hs with
    ⟨ctx, -, rfl⟩ | ⟨n, stack, task, q, -, -, htask, hstatus, rfl⟩ |
      ⟨n, task, m, k, rejected, -, -, htask, hstatus, rfl⟩ |
      ⟨n, task, k, answer, rfl, -, htask, hstatus, rfl⟩
  · exact h.execute a ctx
  · exact h.runTask a htask hstatus
  · have hgiven := h.given n task htask
    rw [hstatus] at hgiven
    refine h.goOn htask (List.append_nil _).symm nofun h.once _ [n] (.running (k rejected)) task.outcome
      (fun q' hq' => ?_) fun e ctx answer hq => absurd hq (hgiven rejected e ctx answer)
    rw [show q' = k rejected from hq']
    exact h.code task (List.mem_of_getElem? htask) _ (by rw [hstatus]; exact ⟨rejected, rfl⟩)
  · -- only the limiter's interceptor awaits an answer, and goes on with the one it is given
    have hgiven := h.given n task htask
    rw [hstatus] at hgiven
    obtain ⟨e, ctx, rfl⟩ := hgiven
    refine h.goOn htask (List.append_nil _).symm nofun h.once _ [n] (.running (.consumed e ctx answer))
      task.outcome (fun q' hq' => ?_) fun e' ctx' answer' hq => ?_
    · rw [show q' = .consumed e ctx answer from hq']
      exact h.code task (List.mem_of_getElem? htask) _ (by rw [hstatus]; exact ⟨answer, rfl⟩)
    · obtain ⟨-, -, rfl⟩ := Code.consumed.inj hq
      exact List.mem_append_right _ (List.mem_singleton_self _)

theorem inv_exec {acts : List (Act FrameInterceptorContext Answer)}
    (hrun : Machine.exec (step (chain pako text config)) (InterceptorChain.init empty) acts = some s) :
    Inv pako text config acts s :=
  Machine.exec_history (fun _ _ _ _ h hs => h.step hs) inv_init hrun

/-- A step that hands a frame over hands over that of the execution, which is allowed by then. -/
theorem Inv.admitted_of_dispatch (h : Inv pako text config as s)
    {a : Act FrameInterceptorContext Answer}
    (hs : InterceptorChain.step (chain pako text config) s a = some t) {e : ℕ}
    {connectionId : String} {raw : Bytes} (hnew : .dispatch e connectionId raw ∈ t.world.log)
    (hold : .dispatch e connectionId raw ∉ s.world.log) :
    context s e = some ⟨connectionId, raw⟩ ∧ Admitted pako text config as s e ⟨connectionId, raw⟩ := by
  rcases step_cases hs with
    ⟨ctx', -, rfl⟩ | ⟨n, stack, task, q, -, -, htask, hstatus, rfl⟩ |
      ⟨n, task, m, k, rejected, -, -, htask, -, rfl⟩ | ⟨n, task, k, answer, -, -, htask, -, rfl⟩
  · -- starting an execution, or calling `next`, adds no event
    rw [Sys.execute, world_next] at hnew
    exact absurd hnew hold
  · have hmem := List.mem_of_getElem? htask
    have hq := h.code task hmem q (by rw [hstatus]; rfl)
    rcases runTask_cases (chain pako text config) s n stack task q with
      ⟨k, call, hnext, heq⟩ | ⟨outcome, stack', hother, heq⟩
    · rw [heq, world_next] at hnew
      exact absurd ((run_next hnext).2.1 ▸ hnew) hold
    · rw [heq] at hnew
      change _ ∈ (run pako text config s.world q).1.log at hnew
      rcases run_other hother with ⟨e', ctx', key, rfl, -, hlog, -⟩ | ⟨hlog | ⟨e', ctx', rfl, hlog⟩,
        -⟩
      · -- what is new in the log is the question to the limiter
        rw [hlog] at hnew
        rcases List.mem_append.mp hnew with hnew | hnew
        · exact absurd hnew hold
        · cases List.mem_singleton.mp hnew
      · exact absurd (hlog ▸ hnew) hold
      · rw [hlog] at hnew
        rcases List.mem_append.mp hnew with hnew | hnew
        · exact absurd hnew hold
        · -- what is new in the log is the dispatch of the third interceptor
          obtain ⟨rfl, rfl, rfl⟩ := Event.dispatch.inj (List.mem_singleton.mp hnew)
          obtain ⟨hthird, rfl, hctx, -⟩ := hq
          exact ⟨hctx, h.admitted hmem hthird hctx⟩
  · exact absurd hnew hold
  · exact absurd hnew hold

/-- In every run of any chain: an execution starts the first interceptors in the order of
registration, once each, and if none calls `next` twice, one is started exactly if the one before it
has called `next`. In every run of the server's chain: a frame is handed to the executor at most
once for each call of `execute`, and in a step before which the limiter was asked about that frame
and has given its interceptor an answer that allows it. -/
theorem pipeline_sound {C W A Q V : Type*} (chain : Chain C W A Q) (pako : Pako) (text : JsonText V)
    (config : RateLimitConfig) :
    (∀ (world : W) (acts : List (Act C A)) (s : Sys C W A Q),
      Machine.exec (step chain) (InterceptorChain.init world) acts = some s →
      ∀ (e : ℕ) (x : Execution C), s.executions[e]? = some x →
        (∃ n ≤ chain.interceptors.length, s.started e = List.range n) ∧
          (x.callers.Nodup → ∀ i, i + 1 < chain.interceptors.length →
            (i + 1 ∈ s.started e ↔ i ∈ x.callers))) ∧
    ∀ (acts : List (Act FrameInterceptorContext Answer)) (s : State),
      Machine.exec (step (ServerPipeline.chain pako text config)) (InterceptorChain.init empty) acts =
        some s →
      (∀ e, s.world.log.countP (Event.IsDispatch e ·) ≤ 1) ∧
      ∀ a t, step (ServerPipeline.chain pako text config) s a = some t → ∀ e connectionId raw,
        .dispatch e connectionId raw ∈ t.world.log → .dispatch e connectionId raw ∉ s.world.log →
          (contexts acts)[e]? = some ⟨connectionId, raw⟩ ∧
            Admitted pako text config acts s e ⟨connectionId, raw⟩ := by
  refine ⟨fun world acts s hrun e x hx => chain_started chain world acts s hrun e x hx,
    fun acts s hrun => ⟨(inv_exec hrun).once, fun a t hs e connectionId raw hnew hold => ?_⟩⟩
  obtain ⟨hctx, hadmitted⟩ := (inv_exec hrun).admitted_of_dispatch hs hnew hold
  rw [context, ← List.getElem?_map, contexts_exec hrun] at hctx
  exact ⟨hctx, hadmitted⟩

/-- A frame that is allowed, and one for which the promise of `consume` is rejected, before the
other. Next the first is handed over. -/
def twoFrames : List (Act FrameInterceptorContext Answer) :=
  let first : FrameInterceptorContext := { connectionId := "conn-1", raw := [] }
  let room : RateLimitResult := { allowed := true, remaining := 9, resetAt := 60000, retryAfter := none }
  -- up to the limiter's promise, for each frame
  [.execute first, .run, .run, .run, .execute first, .run, .run, .run,
    .answer 3 { result := none, conn := none }, .run, .run,
    .answer 1 { result := some room, conn := none }, .run]

/-- The first frame is handed over by the step after these, and the answer of its limiter is among
them. -/
theorem twoFrames_sound : ∃ s t,
    Machine.exec (step (chain plainPako NumberHandler.text {})) (InterceptorChain.init empty) twoFrames =
      some s ∧ step (chain plainPako NumberHandler.text {}) s .run = some t ∧
      t.started 0 = [0, 1, 2] ∧ t.started 1 = [0, 1] ∧ t.world.log.length = 3 ∧
      .dispatch 0 "conn-1" [] ∈ t.world.log ∧
      Admitted plainPako NumberHandler.text {} twoFrames s 0 ⟨"conn-1", []⟩ ∧
      (∀ e, t.world.log.countP (Event.IsDispatch e ·) ≤ 1) ∧ (2 ∈ t.started 0 ↔ 1 ∈ callers t 0) := by
  have hsound := (pipeline_sound (chain plainPako NumberHandler.text {}) plainPako NumberHandler.text
    {}).2 twoFrames _ rfl
  refine ⟨_, _, rfl, rfl, rfl, rfl, rfl, .tail _ (.tail _ (.head _)), ?_, ?_, ?_⟩
  · refine (hsound.2 .run _ rfl 0 "conn-1" [] (.tail _ (.tail _ (.head _))) fun hmem => ?_).2
    rcases List.mem_cons.mp hmem with heq | hmem
    · cases heq
    · cases List.mem_singleton.mp hmem
  · exact ((pipeline_sound (chain plainPako NumberHandler.text {}) plainPako NumberHandler.text {}).2
      (twoFrames ++ [.run]) _ rfl).1
  · exact ((pipeline_sound (chain plainPako NumberHandler.text {}) plainPako NumberHandler.text {}).1
      empty (twoFrames ++ [.run]) _ rfl 0 _ rfl).2 (by decide) 1 (by decide)

end ServerPipeline

end Datasole
