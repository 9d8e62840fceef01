import Datasole.Common.JsMap
import Datasole.Common.Json

/-!
# The executors

`server/executor/async-executor.ts`, the executors that delegate to it (`delegating-executor.ts`,
`thread-executor.ts`, `pool-executor.ts`), and `createExecutor` of `factory.ts`. An executor keeps
an entry for each connection id, and hands a frame to the router with the connection of the entry.

A connection is known by the number under which the transport made it. Every model holds one
`AsyncExecutor`, its `core`, and does with it what that executor would do: so what is shown of a
server holds for each model.
-/

namespace Datasole

structure AuthContext where
  userId : String
  roles : List String
  metadata : JsMap String Json

/-- Metadata about a connection, forwarded to the executor on connect. -/
structure ConnectionMeta where
  remoteAddress : String
  auth : Option AuthContext

namespace AsyncExecutor

structure Entry where
  connectionMeta : ConnectionMeta
  conn : Option ℕ

end AsyncExecutor

structure AsyncExecutor where
  connections : JsMap String AsyncExecutor.Entry

namespace AsyncExecutor

def new : AsyncExecutor := ⟨JsMap.empty⟩

def addConnection (e : AsyncExecutor) (connectionId : String) (connectionMeta : ConnectionMeta) :
    AsyncExecutor :=
  ⟨e.connections.set connectionId ⟨connectionMeta, none⟩⟩

def setConnection (e : AsyncExecutor) (connectionId : String) (conn : ℕ) : AsyncExecutor :=
  match e.connections.get connectionId with
  | some entry => ⟨e.connections.set connectionId { entry with conn := some conn }⟩
  | none => e

/-- The connection with which the frame goes to the router. -/
def dispatch (e : AsyncExecutor) (connectionId : String) : Option ℕ :=
  (e.connections.get connectionId).bind Entry.conn

def removeConnection (e : AsyncExecutor) (connectionId : String) : AsyncExecutor :=
  ⟨e.connections.delete connectionId⟩

def shutdown (_ : AsyncExecutor) : AsyncExecutor := ⟨JsMap.empty⟩

end AsyncExecutor

inductive ExecutorModel
  | async
  | thread
  | threadPool
  deriving DecidableEq

/-- `DelegatingExecutor`, of which `ThreadExecutor` and `PoolExecutor` are instances. -/
structure DelegatingExecutor where
  model : ExecutorModel
  delegate : AsyncExecutor

inductive ConnectionExecutor
  | async (executor : AsyncExecutor)
  | delegating (executor : DelegatingExecutor)

namespace ConnectionExecutor

/-- `new ThreadExecutor()`. -/
def thread : ConnectionExecutor := .delegating ⟨.thread, AsyncExecutor.new⟩

/-- `new PoolExecutor()`. -/
def pool : ConnectionExecutor := .delegating ⟨.threadPool, AsyncExecutor.new⟩

/-- `createExecutor`, by the option `model`, which is `'async'` where it is left out. -/
def create (model : Option String) : Except String ConnectionExecutor :=
  match model.getD "async" with
  | "async" => .ok (.async AsyncExecutor.new)
  | "thread" => .ok thread
  | "thread-pool" => .ok pool
  | model => .error s!"Unknown executor model: {model}"

def addConnection (connectionId : String) (connectionMeta : ConnectionMeta) :
    ConnectionExecutor → ConnectionExecutor
  | .async e => .async (e.addConnection connectionId connectionMeta)
  | .delegating e =>
    .delegating { e with delegate := e.delegate.addConnection connectionId connectionMeta }

def setConnection (connectionId : String) (conn : ℕ) : ConnectionExecutor → ConnectionExecutor
  | .async e => .async (e.setConnection connectionId conn)
  | .delegating e => .delegating { e with delegate := e.delegate.setConnection connectionId conn }

def dispatch (connectionId : String) : ConnectionExecutor → Option ℕ
  | .async e => e.dispatch connectionId
  | .delegating e => e.delegate.dispatch connectionId

def removeConnection (connectionId : String) : ConnectionExecutor → ConnectionExecutor
  | .async e => .async (e.removeConnection connectionId)
  | .delegating e => .delegating { e with delegate := e.delegate.removeConnection connectionId }

def shutdown : ConnectionExecutor → ConnectionExecutor
  | .async e => .async e.shutdown
  | .delegating e => .delegating { e with delegate := e.delegate.shutdown }

/-- The `AsyncExecutor` that does the work. -/
def core : ConnectionExecutor → AsyncExecutor
  | .async e => e
  | .delegating e => e.delegate

variable (e : ConnectionExecutor) (connectionId : String)

@[simp] theorem core_addConnection (connectionMeta : ConnectionMeta) :
    (e.addConnection connectionId connectionMeta).core =
      e.core.addConnection connectionId connectionMeta := by
  cases e <;> rfl

@[simp] theorem core_setConnection (conn : ℕ) :
    (e.setConnection connectionId conn).core = e.core.setConnection connectionId conn := by
  cases e <;> rfl

@[simp] theorem core_removeConnection :
    (e.removeConnection connectionId).core = e.core.removeConnection connectionId := by
  cases e <;> rfl

@[simp] theorem core_shutdown : e.shutdown.core = AsyncExecutor.new := by
  cases e <;> rfl

theorem dispatch_eq : e.dispatch connectionId = e.core.dispatch connectionId := by
  cases e <;> rfl

/-- Whatever model is asked for, the executor starts without connections. -/
theorem core_of_create {model : Option String} {e : ConnectionExecutor} (h : create model = .ok e) :
    e.core = AsyncExecutor.new := by
  unfold create at h
  split at h <;> cases h <;> rfl

end ConnectionExecutor

namespace AsyncExecutor

variable (e : AsyncExecutor) (connectionId id : String)

/-- A connection that is added and set is the one that its frames go to; no other id is touched. -/
theorem dispatch_set (connectionMeta : ConnectionMeta) (conn : ℕ) :
    ((e.addConnection connectionId connectionMeta).setConnection connectionId conn).dispatch id =
      if id = connectionId then some conn else e.dispatch id := by
  simp only [addConnection, setConnection, JsMap.get_set_self, dispatch, JsMap.get_set]
  split
  · rfl
  · rfl

/-- A removed connection is dispatched to no more; the others are. -/
theorem dispatch_removeConnection :
    (e.removeConnection connectionId).dispatch id =
      if id = connectionId then none else e.dispatch id := by
  simp only [removeConnection, dispatch, JsMap.get_delete]
  split
  · rfl
  · rfl

@[simp] theorem dispatch_new : new.dispatch id = none := rfl

end AsyncExecutor

end Datasole
