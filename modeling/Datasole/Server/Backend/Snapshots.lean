import Datasole.Common.Machine
import Datasole.Server.Backend.MemoryBackend
import Datasole.Shared.Diff.DiffRoundTrip

/-!
# Documents that change in place

An application updates its documents in place and hands them to a backend, directly or with
`StateManager.setState`. A `RedisBackend` keeps what a document contains at the call. A
`MemoryBackend` keeps a reference, and `get` returns whatever the document contains by then, so that
`setState` compares a document with itself. `like_redis_iff` says which updates show no difference.
-/

namespace Datasole

namespace Snapshots

/-- The documents of the application, a `MemoryBackend` with references to them, and what a
`RedisBackend` has been given in the same calls. -/
structure App where
  heap : ℕ → Json
  memory : MemoryBackend ℕ
  redis : JsMap String Json

def init (heap : ℕ → Json) : App where
  heap := heap
  memory := MemoryBackend.new
  redis := JsMap.empty

variable (lib : FastJsonPatch)

/-- What the caller of `get` reads in the document that it is given. -/
def App.get (s : App) (key : String) : Option Json := (s.memory.get key).map s.heap

def App.set (s : App) (key : String) (ref : ℕ) : App :=
  { s with memory := s.memory.set key ref, redis := s.redis.set key (s.heap ref) }

/-- `StateManager.setState`, with the patches that it publishes and returns. -/
def App.setState (s : App) (key : String) (ref : ℕ) : App × List StatePatch :=
  let current := s.get key
  let patches := diff lib current (some (s.heap ref))
  (s.set key ref, patches)

inductive Act where
  | set (key : String) (ref : ℕ)
  | setState (key : String) (ref : ℕ)
  /-- The application changes documents, any number of them and in any way. -/
  | update (heap : ℕ → Json)

def step (s : App) : Act → Option App
  | .set key ref => some (s.set key ref)
  | .setState key ref => some (s.setState lib key ref).1
  | .update heap => some { s with heap }

/-- `get` returns what was in the document at the last call for the key. `setState` yields patches
that lead from there to the new content, where those of `diff` do, and some if there is a
difference. -/
structure LikeRedis (s : App) : Prop where
  get : ∀ key, s.get key = s.redis.get key
  setState : ∀ key ref, lib.Turns (s.redis.get key) (s.heap ref) →
    applyPatch lib (s.redis.get key) (s.setState lib key ref).2 = .ok (some (s.heap ref)) ∧
      (s.redis.get key ≠ some (s.heap ref) → (s.setState lib key ref).2 ≠ [])

/-- No update changes what is in a document that the backend holds. -/
def KeepsStored (s : App) : Act → Prop
  | .update heap => ∀ key, ∀ ref ∈ s.memory.get key, heap ref = s.heap ref
  | .set _ _ | .setState _ _ => True

variable {lib} {s : App}

/-- All is well with `setState` as long as `get` is right. -/
theorem likeRedis_of_get (h : ∀ key, s.get key = s.redis.get key) : LikeRedis lib s where
  get := h
  setState key ref hturns := by
    have hpatches :
        (s.setState lib key ref).2 = diff lib (s.redis.get key) (some (s.heap ref)) := by
      rw [App.setState, h key]
    rw [hpatches]
    refine ⟨hturns, fun hne hnil => ?_⟩
    rw [FastJsonPatch.Turns, hnil] at hturns
    exact hne (Except.ok.inj hturns)

theorem likeRedis_init (heap : ℕ → Json) : LikeRedis lib (init heap) :=
  likeRedis_of_get fun _ => rfl

/-- A `set` stores in both what the document has then. -/
theorem LikeRedis.set (h : LikeRedis lib s) (key : String) (ref : ℕ) :
    LikeRedis lib (s.set key ref) := by
  refine likeRedis_of_get fun key' => ?_
  simp only [App.get, App.set, MemoryBackend.get, MemoryBackend.set, JsMap.get_set]
  split
  · rfl
  · exact h.get key'

/-- An update keeps the backends alike exactly if it changes no document that is stored. -/
theorem step_iff (s : App) (a : Act) (h : LikeRedis lib s) :
    KeepsStored s a ↔ ∀ t ∈ step lib s a, LikeRedis lib t := by
  cases a with
  | set key ref => exact iff_of_true trivial fun t ht => Option.some.inj ht ▸ h.set key ref
  | setState key ref => exact iff_of_true trivial fun t ht => Option.some.inj ht ▸ h.set key ref
  | update heap =>
    constructor
    · rintro hkeeps t ht
      cases ht
      refine likeRedis_of_get fun key => ?_
      rw [← h.get key, App.get, App.get]
      exact Option.map_congr fun ref href => hkeeps key ref href
    · intro hall key ref href
      have hget := (hall { s with heap } rfl).get key
      simp only [App.get, ← h.get key, Option.mem_def.mp href, Option.map_some,
        Option.some.injEq] at hget
      exact hget

/-- In every run, whatever the documents and the library: at every moment `get` would return what
was in the document at the last call for its key, and `setState` would yield patches from there,
exactly if no update changes a document that the backend holds. -/
theorem like_redis_iff (lib : FastJsonPatch) (heap : ℕ → Json) (acts : List Act) :
    (∀ before after t, acts = before ++ after →
      Machine.exec (step lib) (init heap) before = some t → LikeRedis lib t) ↔
      Machine.Guarded (step lib) KeepsStored (init heap) acts :=
  Machine.forall_exec_iff_guarded step_iff (likeRedis_init heap)

/-- A list of todos, and the list after `push`. -/
def noTodos : Json := .arr []
def oneTodo : Json := .arr [.obj [("text", .str "write")]]

/-- The list is handed over, gets an entry and is handed over again: there is no patch. -/
theorem pushed_todo_yields_no_patch : ∃ s,
    Machine.exec (step byNameLibrary) (init fun _ => noTodos)
      [.setState "todos" 0, .update fun _ => oneTodo] = some s ∧
    s.redis.get "todos" = some noTodos ∧ s.heap 0 = oneTodo ∧
    (s.setState byNameLibrary "todos" 0).2 = [] ∧
    diff byNameLibrary (s.redis.get "todos") (some (s.heap 0)) ≠ [] ∧
    ¬ LikeRedis byNameLibrary s := by
  refine ⟨_, rfl, by decide +kernel, rfl, by decide +kernel, by decide +kernel, fun hlike => ?_⟩
  exact absurd (hlike.get "todos") (by decide +kernel)

end Snapshots

end Datasole
