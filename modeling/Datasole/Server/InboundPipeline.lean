import Datasole.Server.DatasoleServer
import Datasole.Server.Pipeline.FramePipeline
import Datasole.Server.Pipeline.ServerPipeline

/-!
# One pipeline at three levels

The way of an inbound frame is modelled three times. `ServerPipeline.chain` has the interceptors of
`server/server.ts` call by call, `FramePipeline` cuts a message's way at the limiter's promise, and
`DatasoleServer` has it among all that happens to the connections, where the limiter is no more than
its verdicts.

`FramePipeline.exists_chain_run` and `DatasoleServer.exists_frame_run` relate them: a run of
`FramePipeline` is one of the chain, and a run of `DatasoleServer` whose verdicts are those of a
limiter is one of `FramePipeline`. Each step of the one is matched by a few steps of the other.
-/

namespace Datasole

namespace ServerPipeline

open InterceptorChain

variable {V : Type*} {pako : Pako} {text : JsonText V} {config : RateLimitConfig} {world : World}
  {executions : List (Execution FrameInterceptorContext)} {tasks : List (Task Answer Code)} {n e : ℕ}
  {ctx : FrameInterceptorContext} {result : RateLimitResult}

/-! ## What the chain does with a frame -/

/-- What was put last is changed at the position after the others. -/
theorem modify_concat {α : Type*} (l : List α) (a : α) (f : α → α) :
    (l ++ [a]).modify l.length f = l ++ [f a] := by
  rw [List.modify_eq_set_getElem?]
  simp

/-- The limiter's interceptor of an execution, which awaits the limiter's promise. -/
def consuming (e : ℕ) (ctx : FrameInterceptorContext) : Task Answer Code where
  execution := e
  interceptor := 1
  status := .awaiting (.consumed e ctx)
  outcome := none
  calls := []

/-- A frame with a key goes through the metrics interceptor up to the limiter's promise. -/
theorem exec_arrive (ctx : FrameInterceptorContext) {key : String}
    (hkey : getRateLimitKey pako text ctx.connectionId ctx.raw config = .ok key) :
    Machine.exec (step (chain pako text config)) ⟨world, executions, tasks, []⟩
        [.execute ctx, .run, .run, .run] =
      some
        { world :=
            { countFrame world ctx with
              log := world.log ++
                [.consume executions.length key (getRateLimitRule pako text ctx.raw config)] }
          executions := executions ++ [⟨ctx, 2, [0]⟩]
          tasks := tasks ++
            [⟨executions.length, 0, .awaitingNext 0 .returned, none, [some (tasks.length + 1)]⟩,
              consuming executions.length ctx]
          stack := [] } := by
  simp [Machine.exec, step, Sys.execute, Sys.next, Sys.nextTask, Execution.next, chain, Chain.use,
    Sys.runTask, run, hkey, Sys.setTask, countFrame, modify_concat, consuming]

/-- A frame without one ends at the limiter's interceptor, which throws. -/
theorem exec_arrive_error (ctx : FrameInterceptorContext) {error : String}
    (hkey : getRateLimitKey pako text ctx.connectionId ctx.raw config = .error error) :
    Machine.exec (step (chain pako text config)) ⟨world, executions, tasks, []⟩
        [.execute ctx, .run, .run, .run, .run] =
      some
        { world := countFrame world ctx
          executions := executions ++ [⟨ctx, 2, [0]⟩]
          tasks := tasks ++
            [⟨executions.length, 0, .awaitingNext 0 .returned, none, [some (tasks.length + 1)]⟩,
              ⟨executions.length, 1, .halted, some true, []⟩]
          stack := [] } := by
  simp [Machine.exec, step, Sys.execute, Sys.next, Sys.nextTask, Execution.next, chain, Chain.use,
    Sys.runTask, run, hkey, Sys.setTask, countFrame, modify_concat]

/-- The promise is rejected, and the frame is dropped. -/
theorem exec_drop (htask : tasks[n]? = some (consuming e ctx)) (conn : Option Connection) :
    Machine.exec (step (chain pako text config)) ⟨world, executions, tasks, []⟩
        [.answer n ⟨none, conn⟩, .run, .run] =
      some ⟨world, executions, tasks.set n ⟨e, 1, .halted, some true, []⟩, []⟩ := by
  obtain ⟨hlt, hget⟩ := List.getElem?_eq_some_iff.mp htask
  simp [Machine.exec, step, chain, Chain.use, Sys.resume, Sys.runTask, run, Sys.setTask, hlt, hget,
    consuming]

/-- A frame that is not allowed is answered. -/
theorem exec_refuse (htask : tasks[n]? = some (consuming e ctx))
    (hrefused : ¬ result.allowed = true)
    (conn : Option Connection) :
    Machine.exec (step (chain pako text config)) ⟨world, executions, tasks, []⟩
        [.answer n ⟨some result, conn⟩, .run, .run] =
      some
        { world := (refuse pako text world ctx conn result).1
          executions := executions
          tasks := tasks.set n
            ⟨e, 1, .halted, some (refuse pako text world ctx conn result).2, []⟩
          stack := [] } := by
  obtain ⟨hlt, hget⟩ := List.getElem?_eq_some_iff.mp htask
  simp [Machine.exec, step, chain, Chain.use, Sys.resume, Sys.runTask, run, Sys.setTask, hlt, hget,
    hrefused, consuming]

/-- A frame that is allowed goes on to the executor. -/
theorem exec_admit (hexecution : executions[e]? = some ⟨ctx, 2, [0]⟩)
    (htask : tasks[n]? = some (consuming e ctx)) (hallowed : result.allowed = true)
    (conn : Option Connection) :
    Machine.exec (step (chain pako text config)) ⟨world, executions, tasks, []⟩
        [.answer n ⟨some result, conn⟩, .run, .run, .run, .run] =
      some
        { world := { world with log := world.log ++ [.dispatch e ctx.connectionId ctx.raw] }
          executions := executions.modify e (·.next 3 (some 1))
          tasks := tasks.set n ⟨e, 1, .awaitingNext 0 .returned, none, [some tasks.length]⟩ ++
            [⟨e, 2, .halted, some false, []⟩]
          stack := [] } := by
  obtain ⟨hlt, hget⟩ := List.getElem?_eq_some_iff.mp htask
  simp [Machine.exec, step, Sys.next, Sys.nextTask, Execution.next, chain, Chain.use, Sys.resume,
    Sys.runTask, run, Sys.setTask, hallowed, hlt, hget, hexecution, consuming, List.getElem?_append]

/-- The frame that an event hands to the executor, with its execution. -/
def Event.dispatched : Event → Option (ℕ × String × Bytes)
  | .dispatch e connectionId raw => some (e, connectionId, raw)
  | .consume _ _ _ => none

end ServerPipeline

namespace FramePipeline

open InterceptorChain ServerPipeline

variable {V σ : Type*} {pipeline : FramePipeline V σ} {world : σ} {as : List Act} {s s' : Server σ}
  {t : State}

/-- The chain that the server builds of the same parts. -/
abbrev interceptors (pipeline : FramePipeline V σ) :
    Chain FrameInterceptorContext World Answer Code :=
  chain pipeline.pako pipeline.text pipeline.config

/-- What the chain is executed with for a message. -/
def Inbound.context (m : Inbound) : FrameInterceptorContext := ⟨connectionId m.connection, m.raw⟩

/-- The chain is where the message waits: its execution has started two interceptors, and the second
is task `n`, which awaits the limiter's promise. -/
structure Awaits (t : State) (n : ℕ) (m : Inbound) : Prop where
  execution : t.executions[m.number]? = some ⟨m.context, 2, [0]⟩
  task : t.tasks[n]? = some (consuming m.number m.context)

/-- The chain between two calls, after a run of the actions `as`: it has executed what arrived, has
dispatched what was allowed, has sent what went out, and awaits the limiter where a message waits. -/
structure Refines (as : List Act) (s : Server σ) (t : State) : Prop where
  stack : t.stack = []
  executions : t.executions.map (·.ctx) = (arrivals as).map Inbound.context
  dispatched : t.world.log.filterMap Event.dispatched =
    (admissions as).map fun m => (m.number, connectionId m.connection, m.raw)
  sent : t.world.sent = s.sent.map fun (connection, data) => (connectionId connection, data)
  waiting : ∀ m ∈ s.waiting, ∃ n, Awaits t n m

/-- The chain goes on awaiting for a message while other executions move on. -/
theorem Awaits.mono {t' : State} {n : ℕ} {m : Inbound} (h : Awaits t n m)
    (hexecution : t'.executions[m.number]? = t.executions[m.number]?)
    (htask : t'.tasks[n]? = t.tasks[n]?) : Awaits t' n m :=
  ⟨hexecution.trans h.execution, htask.trans h.task⟩

/-- A new server and an empty chain. -/
theorem refines_init (world : σ) : Refines [] (init world) (InterceptorChain.init empty) where
  stack := rfl
  executions := rfl
  dispatched := rfl
  sent := rfl
  waiting m hm := by cases hm

/-- A task that has its answer is not the one that awaits for another message. -/
theorem Awaits.set {n k : ℕ} {m message : Inbound} (h : Awaits t n m) (hk : Awaits t k message)
    (hne : m.number ≠ message.number) (task : Task Answer Code) (extra : List (Task Answer Code)) :
    (t.tasks.set k task ++ extra)[n]? = t.tasks[n]? := by
  have hkn : k ≠ n := by
    rintro rfl
    have heq := h.task.symm.trans hk.task
    exact hne (congrArg Task.execution (Option.some.inj heq))
  have hlt : n < (t.tasks.set k task).length := by
    rw [List.length_set]
    exact (List.getElem?_eq_some_iff.mp h.task).1
  rw [List.getElem?_append_left hlt, List.getElem?_set_ne hkn]

/-- A message arrives. -/
theorem Refines.receive (h : Refines as s t) (hhistory : History pipeline world as s)
    (connection : ℕ) (raw : Bytes) :
    ∃ acts t', Machine.exec (InterceptorChain.step pipeline.interceptors) t acts = some t' ∧
      Refines (as ++ [.receive connection raw]) (pipeline.receive s connection raw) t' := by
  obtain ⟨w, executions, tasks, stack⟩ := t
  obtain rfl : stack = [] := h.stack
  set m : Inbound := ⟨s.received.length, connection, raw⟩
  have hlen : executions.length = s.received.length := by
    rw [hhistory.received_eq]
    simpa using congrArg List.length h.executions
  have harrivals : arrivals (as ++ [.receive connection raw]) = arrivals as ++ [m] := by
    rw [arrivals_receive, ← hhistory.received_eq]
  have hadmissions : admissions (as ++ [.receive connection raw]) = admissions as :=
    hhistory.admissions_other rfl
  have hexecutions : (executions ++ [(⟨m.context, 2, [0]⟩ : Execution FrameInterceptorContext)]).map
      (·.ctx) = (arrivals (as ++ [.receive connection raw])).map Inbound.context := by
    rw [harrivals, List.map_append, List.map_append, ← h.executions]
    rfl
  -- what has been there stays where it is
  have hold (extra : List (Task Answer Code)) (w' : World) : ∀ m' ∈ s.waiting, ∃ n,
      Awaits ⟨w', executions ++ [⟨m.context, 2, [0]⟩], tasks ++ extra, []⟩ n m' := by
    intro m' hm'
    obtain ⟨n, hn⟩ := h.waiting m' hm'
    exact ⟨n, hn.mono (List.getElem?_append_left (List.getElem?_eq_some_iff.mp hn.execution).1)
      (List.getElem?_append_left (List.getElem?_eq_some_iff.mp hn.task).1)⟩
  cases hkey : getRateLimitKey pipeline.pako pipeline.text (connectionId connection) raw
      pipeline.config with
  | error error =>
    refine ⟨_, _, exec_arrive_error m.context hkey, rfl, hexecutions, ?_, ?_, ?_⟩
    · rw [hadmissions, ← h.dispatched]
      rfl
    · simp only [FramePipeline.receive, hkey]
      exact h.sent
    · simp only [FramePipeline.receive, hkey]
      exact hold _ _
  | ok key =>
    refine ⟨_, _, exec_arrive m.context hkey, rfl, hexecutions, ?_, ?_, ?_⟩
    · rw [hadmissions, ← h.dispatched, List.filterMap_append]
      exact List.append_nil _
    · simp only [FramePipeline.receive, hkey]
      exact h.sent
    · simp only [FramePipeline.receive, hkey]
      intro m' hm'
      rcases List.mem_append.mp hm' with hm' | hm'
      · exact hold _ _ m' hm'
      · obtain rfl := List.mem_singleton.mp hm'
        refine ⟨tasks.length + 1, ?_, ?_⟩
        · rw [← hlen]
          exact List.getElem?_concat_length
        · rw [hlen]
          exact (List.getElem?_append_right (Nat.le_succ _)).trans (by simp [m])

/-- A promise settles. -/
theorem Refines.settle (h : Refines as s t) (hhistory : History pipeline world as s) {number : ℕ}
    {message : Inbound} (hfind : s.waiting.find? (·.number = number) = some message)
    (result : Option RateLimitResult) :
    ∃ acts t', Machine.exec (InterceptorChain.step pipeline.interceptors) t acts = some t' ∧
      Refines (as ++ [.settle number result])
        (pipeline.resume { s with waiting := s.waiting.erase message } message result) t' := by
  obtain ⟨w, executions, tasks, stack⟩ := t
  obtain rfl : stack = [] := h.stack
  obtain ⟨hmem, -, hget⟩ := hhistory.of_find hfind
  obtain ⟨k, hk⟩ := h.waiting message hmem
  have harrivals : arrivals (as ++ [.settle number result]) = arrivals as := arrivals_other as rfl
  have hnodup : s.waiting.Nodup := (List.nodup_append.mp hhistory.inv.nodup).1
  -- the messages that go on waiting have other numbers
  have hother : ∀ m ∈ s.waiting.erase message, m ∈ s.waiting ∧ m.number ≠ message.number := by
    intro m hm
    obtain ⟨hne, hm⟩ := (hnodup.mem_erase_iff).mp hm
    refine ⟨hm, fun hnumber => hne (Option.some.inj ?_)⟩
    rw [← hhistory.getElem?_waiting hm, hnumber, hhistory.getElem?_waiting hmem]
  have hold (task : Task Answer Code) (extra : List (Task Answer Code)) (w' : World)
      (executions' : List (Execution FrameInterceptorContext))
      (hexecutions : ∀ e, e ≠ message.number → executions'[e]? = executions[e]?) :
      ∀ m ∈ s.waiting.erase message, ∃ n,
        Awaits ⟨w', executions', tasks.set k task ++ extra, []⟩ n m := by
    intro m hm
    obtain ⟨hm, hne⟩ := hother m hm
    obtain ⟨n, hn⟩ := h.waiting m hm
    exact ⟨n, hn.mono (hexecutions m.number hne) (hn.set hk hne task extra)⟩
  have hsame (task : Task Answer Code) (w' : World) : ∀ m ∈ s.waiting.erase message, ∃ n,
      Awaits ⟨w', executions, tasks.set k task, []⟩ n m := by
    have hsame := hold task [] w' executions fun _ _ => rfl
    rwa [List.append_nil] at hsame
  cases result with
  | none =>
    refine ⟨_, _, exec_drop hk.task none, rfl, ?_, ?_, h.sent, hsame _ _⟩
    · rw [harrivals]
      exact h.executions
    · rw [hhistory.admissions_other rfl]
      exact h.dispatched
  | some result =>
    by_cases hallowed : result.allowed = true
    · refine ⟨_, _, exec_admit hk.execution hk.task hallowed none, rfl, ?_, ?_, ?_, ?_⟩
      · rw [harrivals, ← h.executions]
        exact contexts_modify ..
      · rw [hhistory.admissions_settle hfind hallowed, List.filterMap_append, List.map_append,
          ← h.dispatched]
        rfl
      · rw [show pipeline.resume _ message (some result) = _ from if_pos hallowed, sent_hand]
        exact h.sent
      · rw [show pipeline.resume _ message (some result) = _ from if_pos hallowed, waiting_hand]
        exact hold _ _ _ _ fun e he => List.getElem?_modify_ne _ _ (Ne.symm he)
    · have hallows : (Act.settle number (some result)).allows = none := if_neg hallowed
      refine ⟨_, _, exec_refuse hk.task hallowed (if message.connection ∈ s.connections then
        some (Connection.mk true) else none), rfl, ?_, ?_, ?_, ?_⟩
      · rw [harrivals]
        exact h.executions
      · rw [hhistory.admissions_other hallows, log_refuse]
        exact h.dispatched
      · rw [show pipeline.resume _ message (some result) = _ from if_neg hallowed, sent_refuse,
          List.map_append, ← h.sent, List.map_map]
        rfl
      · rw [show pipeline.resume _ message (some result) = _ from if_neg hallowed]
        exact hsame _ _

/-- A step of the pipeline is some steps of the chain. -/
theorem Refines.step (h : Refines as s t) (hhistory : History pipeline world as s) {a : Act}
    (hs : step pipeline s a = some s') :
    ∃ acts t', Machine.exec (InterceptorChain.step pipeline.interceptors) t acts = some t' ∧
      Refines (as ++ [a]) s' t' := by
  cases a with
  | connect | close connection =>
    cases hs
    refine ⟨[], t, rfl, { h with executions := ?_, dispatched := ?_ }⟩
    · rw [arrivals_other as rfl]
      exact h.executions
    · rw [hhistory.admissions_other rfl]
      exact h.dispatched
  | receive connection raw =>
    simp only [FramePipeline.step, Option.ite_none_right_eq_some] at hs
    obtain ⟨-, hs⟩ := hs
    cases hs
    exact h.receive hhistory connection raw
  | settle number result =>
    simp only [FramePipeline.step] at hs
    cases hfind : s.waiting.find? (·.number = number) with
    | none => rw [hfind] at hs; cases hs
    | some message =>
      rw [hfind] at hs
      cases hs
      exact h.settle hhistory hfind result

/-- Every run is one of the server's chain of interceptors, with the same frames in the same order:
the chain is executed with what arrives, dispatches what the limiter allows, and sends what goes out
for the frames that it refuses. -/
theorem exists_chain_run (pipeline : FramePipeline V σ) (world : σ) (acts : List Act) (s : Server σ)
    (hrun : Machine.exec (step pipeline) (init world) acts = some s) :
    ∃ chainActs t,
      Machine.exec (InterceptorChain.step pipeline.interceptors) (InterceptorChain.init empty)
        chainActs = some t ∧
      contexts chainActs = (arrivals acts).map Inbound.context ∧ Refines acts s t := by
  induction acts using List.reverseRecOn generalizing s with
  | nil =>
    cases hrun
    exact ⟨[], _, rfl, rfl, refines_init world⟩
  | append_singleton acts a ih =>
    obtain ⟨u, hu, hs⟩ := Machine.exec_concat_eq_some.mp hrun
    obtain ⟨bs, t, hbs, -, h⟩ := ih u hu
    obtain ⟨cs, t', hcs, h'⟩ := h.step (history_exec hu) hs
    have hchain := Machine.exec_append_eq_some.mpr ⟨t, hbs, hcs⟩
    exact ⟨bs ++ cs, t', hchain, (contexts_exec hchain).symm.trans h'.executions, h'⟩

/-- The key extractor has a key for the message. -/
def Keyed (pipeline : FramePipeline V σ) (m : Inbound) : Prop :=
  (getRateLimitKey pipeline.pako pipeline.text (connectionId m.connection) m.raw
    pipeline.config).isOk = true

instance (pipeline : FramePipeline V σ) : DecidablePred pipeline.Keyed :=
  fun _ => inferInstanceAs (Decidable (_ = true))

/-- The limiter's verdict on a message whose promise settles. -/
def verdict (pipeline : FramePipeline V σ) (m : Inbound) : Option RateLimitResult → Verdict
  | none => .failed
  | some result =>
    if result.allowed then .allowed
    else .refused
      (sendRateLimitError pipeline.pako pipeline.text (some (Connection.mk true)) m.raw result).head?

end FramePipeline

namespace DatasoleServer

open FramePipeline (Server History Inbound connectionId)

variable {V σ : Type*} {pipeline : FramePipeline V σ} {world : σ} {as : List FramePipeline.Act}
  {s s' : DatasoleServer} {t : Server σ} {limit : ℕ} {precise : Prop}

/-- A verdict is the pipeline's: the limiter's on a message with a key, and a failure on one
without. -/
def Act.FromLimiter (pipeline : FramePipeline V σ) : Act → Prop
  | .limited message v =>
    if pipeline.Keyed message then ∃ result, v = pipeline.verdict message result else v = .failed
  | _ => True

/-- The frame that comes in. -/
def Act.arrival : Act → Option (ℕ × Bytes)
  | .receive number raw => some (number, raw)
  | _ => none

/-- `FramePipeline` has the live connections, the frames with a key that wait, and those that were
handed over. -/
structure Refines (pipeline : FramePipeline V σ) (s : DatasoleServer) (t : Server σ) : Prop where
  counter : t.connectionCounter = s.transport.wsServer.connectionCounter
  connections : ∀ n, n ∈ t.connections ↔ s.transport.Live n
  received : t.received.length = s.receivedCount
  waiting : t.waiting = s.waiting.filter fun m => pipeline.Keyed m
  handed : t.handed = s.dispatched.map Prod.snd

/-- A new server with no connection and an empty pipeline. -/
theorem refines_new (pipeline : FramePipeline V σ) (world : σ) (maxConnections : ℕ)
    (executor : ConnectionExecutor) (now : ℤ) :
    Refines pipeline (new maxConnections executor now) (FramePipeline.init world) where
  counter := rfl
  connections _ := iff_of_false List.not_mem_nil fun hlive => Bool.false_ne_true hlive.1
  received := rfl
  waiting := rfl
  handed := rfl

/-- Two states with the same frames. -/
structure SameFrames (s s' : DatasoleServer) : Prop where
  receivedCount : s'.receivedCount = s.receivedCount
  waiting : s'.waiting = s.waiting
  dispatched : s'.dispatched = s.dispatched

/-- Connections come and go, and the frames stay. -/
theorem Refines.of_same (h : Refines pipeline s t) (hsame : SameFrames s s')
    {connectionCounter : ℕ} {connections : List ℕ}
    (hcounter : connectionCounter = s'.transport.wsServer.connectionCounter)
    (hconnections : ∀ n, n ∈ connections ↔ s'.transport.Live n) :
    Refines pipeline s' { t with connectionCounter, connections } where
  counter := hcounter
  connections := hconnections
  received := h.received.trans hsame.receivedCount.symm
  waiting := h.waiting.trans (congrArg _ hsame.waiting.symm)
  handed := h.handed.trans (congrArg (List.map Prod.snd) hsame.dispatched.symm)

/-- No connection comes or goes. -/
theorem Refines.of_live (h : Refines pipeline s t) (hsame : SameFrames s s')
    (hcounter : s'.transport.wsServer.connectionCounter = s.transport.wsServer.connectionCounter)
    (hlive : ∀ n, s'.transport.Live n ↔ s.transport.Live n) : Refines pipeline s' t :=
  h.of_same hsame (h.counter.trans hcounter.symm) fun n => (h.connections n).trans (hlive n).symm

theorem Refines.keeps (h : Refines pipeline s t) {transport : ServerTransport}
    (hkeeps : s.transport.Keeps transport) : Refines pipeline (s.withTransport transport) t :=
  h.of_live ⟨rfl, rfl, rfl⟩ hkeeps.counter hkeeps.live

/-- A WebSocket without a connection does not count. -/
theorem live_accepted (hnew : s.transport.conns (s.transport.wsServer.connectionCounter + 1) = none)
    (upgrades : ℕ → Upgrade) (n : ℕ) :
    (s.withWsServer (s.transport.wsServer.accepted upgrades)).transport.Live n ↔ s.transport.Live n := by
  change (s.transport.conns n).isSome ∧ ¬ ((s.transport.wsServer.accepted upgrades).clients n).readyState =
    .closed ↔ s.transport.Live n
  rw [WsServer.clients_accepted]
  split
  · next hn =>
    have hnone : ¬ (s.transport.conns n).isSome := by rw [hn, hnew]; exact Bool.false_ne_true
    exact iff_of_false (fun hlive => hnone hlive.1) fun hlive => hnone hlive.1
  · exact Iff.rfl

/-- The connection handler makes a connection of the WebSocket, or none where the limit is reached. -/
theorem onConnection_cases {info : WsServer.Info} (hopen : ¬ s.transport.Closed info.number)
    (now : ℤ) :
    SameFrames s (s.onConnection info now) ∧
      (s.onConnection info now).transport.wsServer.connectionCounter =
        s.transport.wsServer.connectionCounter ∧
      ((∀ n, (s.onConnection info now).transport.Live n ↔ s.transport.Live n) ∨
        ∀ n, (s.onConnection info now).transport.Live n ↔ n = info.number ∨ s.transport.Live n) := by
  unfold DatasoleServer.onConnection ServerTransport.onConnection
  by_cases hroom : s.transport.maxConnections ≤ s.transport.connections.size
  · rw [if_pos hroom]
    refine ⟨⟨rfl, rfl, rfl⟩, rfl, .inl ?_⟩
    exact (ServerTransport.keeps_modifyClient _ fun _ => WebSocket.closed_close).live
  · rw [if_neg hroom]
    refine ⟨⟨rfl, rfl, rfl⟩, rfl, .inr fun n => ?_⟩
    change (Function.update s.transport.conns info.number (some (.new info now)) n).isSome ∧
      ¬ s.transport.Closed n ↔ n = info.number ∨ s.transport.Live n
    by_cases hn : n = info.number
    · subst hn
      rw [Function.update_self]
      exact iff_of_true ⟨rfl, hopen⟩ (.inl rfl)
    · rw [Function.update_of_ne hn]
      exact ⟨.inr, fun hlive => hlive.resolve_left hn⟩

/-- A WebSocket that is accepted becomes a connection, or is closed at once. -/
theorem Refines.authSettles (h : Refines pipeline s t) (hinv : s.Inv limit precise) (i : ℕ)
    (result : Option AuthResult) (handshake : Handshake) (now : ℤ) :
    ∃ bs t', Machine.exec (FramePipeline.step pipeline) t bs = some t' ∧
      Refines pipeline (s.authSettles i result handshake now) t' ∧
      bs.filterMap FramePipeline.Act.arrival = [] := by
  unfold DatasoleServer.authSettles
  rcases s.transport.wsServer.authSettles_cases i result handshake with
    ⟨hnone, hw⟩ | ⟨auth, -, -, -, -, -, hinfo, hw⟩
  · -- the request is answered and no connection comes of it
    dsimp only
    rw [hnone, hw]
    exact ⟨[], t, rfl, h.keeps (ServerTransport.keeps_upgrades _ _), rfl⟩
  · dsimp only
    rw [hinfo, hw]
    set upgrades := (s.transport.wsServer.authSettles i result handshake).1.upgrades
    set info : WsServer.Info :=
      ⟨s.transport.wsServer.connectionCounter + 1, (s.transport.wsServer.upgrades i).remoteAddress.getD
        "unknown", auth⟩
    -- no connection has had the number
    have hnew : s.transport.conns info.number = none := by
      refine Option.not_isSome_iff_eq_none.mp fun hsome => ?_
      have hle := hinv.number_le _ hsome
      exact absurd hle (Nat.not_succ_le_self _)
    have hnot : ¬ s.transport.Live info.number := fun hlive => by
      rw [ServerTransport.Live, hnew] at hlive
      exact Bool.false_ne_true hlive.1
    have hopen : ¬ (s.withWsServer (s.transport.wsServer.accepted upgrades)).transport.Closed
        info.number := by
      unfold withWsServer withTransport ServerTransport.Closed
      rw [WsServer.clients_accepted, if_pos rfl]
      exact ReadyState.noConfusion
    have hcounter : t.connectionCounter + 1 = info.number := congrArg (· + 1) h.counter
    have hlast (n : ℕ) : n ∈ t.connections ++ [t.connectionCounter + 1] ↔
        n = info.number ∨ s.transport.Live n := by
      rw [List.mem_append, List.mem_singleton, h.connections, hcounter, or_comm]
    obtain ⟨⟨hreceived, hwaiting, hdispatched⟩, hsame, hlive⟩ := onConnection_cases hopen now
    have hframes : SameFrames s _ := ⟨hreceived, hwaiting, hdispatched⟩
    -- the connection is closed at once where there is no room for it, or it is there
    rcases hlive with hlive | hlive
    · refine ⟨[.connect, .close info.number], _, rfl,
        h.of_same hframes (hcounter.trans hsame.symm) fun n => ?_, rfl⟩
      rw [List.mem_filter, hlast, hlive, live_accepted hnew, decide_eq_true_eq]
      exact ⟨fun hn => hn.1.resolve_left hn.2, fun hn => ⟨.inr hn, fun heq => hnot (heq ▸ hn)⟩⟩
    · refine ⟨[.connect], _, rfl, h.of_same hframes (hcounter.trans hsame.symm) fun n => ?_, rfl⟩
      rw [hlast, hlive, live_accepted hnew]

/-- The `close` event of a WebSocket takes its connection, if it has one. -/
theorem live_onClose (number n : ℕ) :
    (s.onClose number).transport.Live n ↔ s.transport.Live n ∧ n ≠ number := by
  have hclosed := closed_withClosed (s := s) number n
  have hlive : (s.withClosed number).Live n ↔ s.transport.Live n ∧ n ≠ number := by
    rw [ServerTransport.Live, hclosed, not_or, ServerTransport.Live]
    exact ⟨fun hlive => ⟨⟨hlive.1, hlive.2.2⟩, hlive.2.1⟩,
      fun hlive => ⟨hlive.1.1, hlive.2, hlive.1.2⟩⟩
  cases hconn : s.transport.conns number with
  | none =>
    rw [onClose_of_none hconn]
    exact hlive
  | some conn =>
    rw [onClose_of_some hconn]
    exact hlive

/-- Closing a connection drops no frame and gives out no number. -/
theorem sameFrames_onClose (number : ℕ) : SameFrames s (s.onClose number) ∧
    (s.onClose number).transport.wsServer.connectionCounter =
      s.transport.wsServer.connectionCounter := by
  cases hconn : s.transport.conns number with
  | none =>
    rw [onClose_of_none hconn]
    exact ⟨⟨rfl, rfl, rfl⟩, rfl⟩
  | some conn =>
    rw [onClose_of_some hconn]
    exact ⟨⟨rfl, rfl, rfl⟩, rfl⟩

/-- A frame comes in on a live connection. -/
theorem Refines.receive (h : Refines pipeline s t) (number : ℕ) (raw : Bytes) :
    Refines pipeline (s.onFrame number raw) (pipeline.receive t number raw) := by
  have hkeeps : Refines pipeline (s.withTransport { s.transport with
      metrics := (s.transport.metrics.increment .messagesIn 1).increment .bytesIn raw.length }) t :=
    h.keeps (ServerTransport.keeps_metrics rfl)
  have hlen : (t.received ++ [(⟨t.received.length, number, raw⟩ : Inbound)]).length =
      s.receivedCount + 1 := by
    rw [List.length_append, List.length_singleton, h.received]
  have hwaiting : (s.onFrame number raw).waiting.filter (fun m => pipeline.Keyed m) =
      t.waiting ++ [(⟨t.received.length, number, raw⟩ : Inbound)].filter fun m => pipeline.Keyed m := by
    rw [h.received, h.waiting, ← List.filter_append]
    rfl
  unfold FramePipeline.receive
  cases hkey : getRateLimitKey pipeline.pako pipeline.text (connectionId number) raw
      pipeline.config with
  | error error =>
    refine ⟨hkeeps.counter, hkeeps.connections, hlen, ?_, hkeeps.handed⟩
    rw [hwaiting, List.filter_cons_of_neg, List.filter_nil, List.append_nil]
    simp [FramePipeline.Keyed, hkey, Except.isOk, Except.toBool]
  | ok key =>
    refine ⟨hkeeps.counter, hkeeps.connections, hlen, ?_, hkeeps.handed⟩
    rw [hwaiting, List.filter_cons_of_pos, List.filter_nil]
    simp [FramePipeline.Keyed, hkey, Except.isOk, Except.toBool]

/-- A frame leaves the waiting ones on both sides, or has no key and waits on one only. -/
theorem Refines.erase (h : Refines pipeline s t) (message : Inbound) :
    Refines pipeline { s with waiting := s.waiting.erase message }
      { t with waiting := t.waiting.erase message } :=
  { h with
    waiting := by
      change t.waiting.erase message = (s.waiting.erase message).filter _
      rw [h.waiting, List.erase_filter] }

/-- The limiter's verdict on a frame with a key. -/
theorem Refines.limited (h : Refines pipeline s t) (hinv : s.Inv limit precise) (message : Inbound)
    (result : Option RateLimitResult) :
    Refines pipeline (s.limited message (pipeline.verdict message result))
      (pipeline.resume { t with waiting := t.waiting.erase message } message result) := by
  have herase := h.erase message
  unfold DatasoleServer.limited FramePipeline.verdict FramePipeline.resume
  cases result with
  | none => exact herase
  | some result =>
    dsimp only
    by_cases hallowed : result.allowed = true
    · rw [if_pos hallowed, if_pos hallowed]
      dsimp only
      unfold FramePipeline.hand
      dsimp only
      -- the executor has the connection exactly if it is live
      have hentry (n : ℕ) : s.executor.dispatch (connectionId message.connection) = some n ↔
          n = message.connection ∧ message.connection ∈ t.connections := by
        rw [hinv.dispatch, hinv.entries, h.connections]
        refine ⟨fun ⟨hid, hlive⟩ => ?_, fun ⟨hn, hlive⟩ => hn.symm ▸ ⟨rfl, hlive⟩⟩
        obtain rfl := FramePipeline.connectionId_inj hid
        exact ⟨rfl, hlive⟩
      by_cases hopen : message.connection ∈ t.connections
      · rw [if_pos hopen, (hentry message.connection).mpr ⟨rfl, hopen⟩]
        refine { herase with handed := ?_ }
        change t.handed ++ [message] = (s.dispatched ++ [(message.connection, message)]).map Prod.snd
        rw [h.handed, List.map_append]
        rfl
      · have hnone : s.executor.dispatch (connectionId message.connection) = none :=
          Option.eq_none_iff_forall_ne_some.mpr fun n hn => hopen ((hentry n).mp hn).2
        rw [if_neg hopen, hnone]
        exact herase
    · rw [if_neg hallowed, if_neg hallowed]
      have hsent (out : List (ℕ × Bytes)) : Refines pipeline
          { s with waiting := s.waiting.erase message }
          { t with waiting := t.waiting.erase message, sent := out } := { herase with }
      cases (sendRateLimitError pipeline.pako pipeline.text (some (Connection.mk true)) message.raw
          result).head? with
      | none => exact hsent _
      | some error =>
        dsimp only
        split
        · exact hsent _
        · exact (hsent _).keeps ((ServerTransport.keeps_send _).trans (ServerTransport.keeps_metrics rfl))

/-- A step of the server is at most a few steps of the pipeline, with the same arrival. -/
theorem Refines.step (h : Refines pipeline s t) (hinv : s.Inv limit precise)
    (hhistory : History pipeline world as t) {a : Act} (ha : a.FromLimiter pipeline)
    (hs : s.step a = some s') :
    ∃ bs t', Machine.exec (FramePipeline.step pipeline) t bs = some t' ∧ Refines pipeline s' t' ∧
      bs.filterMap FramePipeline.Act.arrival = a.arrival.toList := by
  -- most of what happens is no concern of the pipeline
  have hquiet {transport : ServerTransport} (hkeeps : s.transport.Keeps transport) :
      ∃ bs t', Machine.exec (FramePipeline.step pipeline) t bs = some t' ∧
        Refines pipeline (s.withTransport transport) t' ∧
        bs.filterMap FramePipeline.Act.arrival = [] :=
    ⟨[], t, rfl, h.keeps hkeeps, rfl⟩
  cases a with
  | upgrade remoteAddress =>
    cases hs
    exact hquiet (ServerTransport.keeps_upgrades _ _)
  | authTimeout i | peerLeaves i =>
    simp only [DatasoleServer.step, Option.ite_none_right_eq_some, Option.some.injEq] at hs
    obtain ⟨-, rfl⟩ := hs
    exact hquiet (ServerTransport.keeps_upgrades _ _)
  | authSettles i result handshake now =>
    simp only [DatasoleServer.step, Option.ite_none_right_eq_some, Option.some.injEq] at hs
    obtain ⟨-, rfl⟩ := hs
    exact h.authSettles hinv i result handshake now
  | receive number raw =>
    simp only [DatasoleServer.step, Option.ite_none_right_eq_some, Option.some.injEq] at hs
    obtain ⟨hlive, rfl⟩ := hs
    have hopen : number ∈ t.connections := (h.connections number).mpr hlive
    exact ⟨[.receive number raw], _, Machine.exec_cons_eq_some.mpr ⟨_, if_pos hopen, rfl⟩,
      h.receive number raw, rfl⟩
  | limited message verdict =>
    simp only [DatasoleServer.step, Option.ite_none_right_eq_some, Option.some.injEq] at hs
    obtain ⟨hmem, rfl⟩ := hs
    by_cases hkeyed : pipeline.Keyed message
    · obtain ⟨result, rfl⟩ := (show ∃ result, verdict = pipeline.verdict message result by
        simpa only [Act.FromLimiter, if_pos hkeyed] using ha)
      have hwaits : message ∈ t.waiting := by
        rw [h.waiting]
        exact List.mem_filter.mpr ⟨hmem, decide_eq_true hkeyed⟩
      refine ⟨[.settle message.number result], _, Machine.exec_cons_eq_some.mpr ⟨_, ?_, rfl⟩,
        h.limited hinv message result, rfl⟩
      simp only [FramePipeline.step, hhistory.find_waiting hwaits]
    · obtain rfl : verdict = .failed := by simpa only [Act.FromLimiter, if_neg hkeyed] using ha
      have hnot : message ∉ t.waiting := by
        rw [h.waiting]
        exact fun hwaits => hkeyed (of_decide_eq_true (List.mem_filter.mp hwaits).2)
      have herase := h.erase message
      rw [List.erase_of_not_mem hnot] at herase
      exact ⟨[], t, rfl, herase, rfl⟩
  | send number data =>
    simp only [DatasoleServer.step, Option.ite_none_right_eq_some, Option.some.injEq] at hs
    obtain ⟨-, rfl⟩ := hs
    exact hquiet ((ServerTransport.keeps_send number).trans (ServerTransport.keeps_metrics rfl))
  | closeConnection number code reason =>
    simp only [DatasoleServer.step, Option.ite_none_right_eq_some, Option.some.injEq] at hs
    obtain ⟨-, rfl⟩ := hs
    exact hquiet (ServerTransport.keeps_closeConnection number code reason)
  | sendRaw id data =>
    cases hs
    exact hquiet (ServerTransport.keeps_sendRaw id)
  | broadcastRaw data =>
    cases hs
    exact hquiet ServerTransport.keeps_broadcastRaw
  | closing number =>
    simp only [DatasoleServer.step, Option.ite_none_right_eq_some, Option.some.injEq] at hs
    obtain ⟨hopen, rfl⟩ := hs
    exact hquiet (ServerTransport.keeps_closing hopen)
  | closed number =>
    simp only [DatasoleServer.step, Option.ite_none_right_eq_some, Option.some.injEq] at hs
    obtain ⟨-, rfl⟩ := hs
    obtain ⟨hsame, hcounter⟩ := sameFrames_onClose (s := s) number
    refine ⟨[.close number], _, rfl, h.of_same hsame (h.counter.trans hcounter.symm) fun n => ?_,
      rfl⟩
    rw [List.mem_filter, decide_eq_true_eq, h.connections, live_onClose]
  | resetMetrics =>
    cases hs
    exact ⟨[], t, rfl, h.of_live ⟨rfl, rfl, rfl⟩ rfl fun _ => Iff.rfl, rfl⟩
  | close =>
    cases hs
    exact ⟨[], t, rfl, { h.keeps ServerTransport.keeps_beginClose with }, rfl⟩
  | transportClosed =>
    simp only [DatasoleServer.step, Option.ite_none_right_eq_some, Option.some.injEq] at hs
    obtain ⟨-, rfl⟩ := hs
    exact ⟨[], t, rfl, h.of_live ⟨rfl, rfl, rfl⟩ rfl fun _ => Iff.rfl, rfl⟩
  | sessionsDestroyed =>
    simp only [DatasoleServer.step, Option.ite_none_right_eq_some, Option.some.injEq] at hs
    obtain ⟨-, rfl⟩ := hs
    exact ⟨[], t, rfl, h.of_live ⟨rfl, rfl, rfl⟩ rfl fun _ => Iff.rfl, rfl⟩

/-- Every run whose verdicts are those of a limiter is a run of the pipeline with the same frames:
what it hands over are the frames that the server hands to the router, in the same order. -/
theorem exists_frame_run (pipeline : FramePipeline V σ) (world : σ) {model : Option String}
    {executor : ConnectionExecutor} (hmodel : ConnectionExecutor.create model = .ok executor)
    (maxConnections : ℕ) (now : ℤ) (acts : List Act) (s : DatasoleServer)
    (hrun : Machine.exec step (new maxConnections executor now) acts = some s)
    (hverdicts : ∀ a ∈ acts, a.FromLimiter pipeline) :
    ∃ frameActs t, Machine.exec (FramePipeline.step pipeline) (FramePipeline.init world) frameActs =
        some t ∧
      Refines pipeline s t ∧
      frameActs.filterMap FramePipeline.Act.arrival = acts.filterMap Act.arrival := by
  induction acts using List.reverseRecOn generalizing s with
  | nil =>
    cases hrun
    exact ⟨[], _, rfl, refines_new pipeline world maxConnections executor now, rfl⟩
  | append_singleton acts a ih =>
    obtain ⟨u, hu, hs⟩ := Machine.exec_concat_eq_some.mp hrun
    obtain ⟨as, t, has, h, harrivals⟩ := ih u hu fun a ha => hverdicts a (List.mem_append_left _ ha)
    obtain ⟨bs, t', hbs, h', harrival⟩ := h.step (inv_exec hmodel hu) (FramePipeline.history_exec has)
      (hverdicts a (List.mem_append_right _ List.mem_cons_self)) hs
    refine ⟨as ++ bs, t', Machine.exec_append_eq_some.mpr ⟨t, has, hbs⟩, h', ?_⟩
    rw [List.filterMap_append, List.filterMap_append, harrivals, harrival]
    cases harrival : a.arrival with
    | none => simp [harrival]
    | some arrival => simp [harrival]

end DatasoleServer

end Datasole
