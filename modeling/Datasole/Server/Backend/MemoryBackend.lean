import Datasole.Common.JsMap

/-!
# The backend in memory

`MemoryBackend` of `server/backends/memory.ts`. It keeps what it is given: `ρ` are the values that
callers hand over, references where they are objects. Its listeners are numbered as they are made,
and `publish` isolates each call of a listener from the others.
-/

namespace Datasole

structure MemoryBackend (ρ : Type*) where
  store : JsMap String ρ
  listeners : JsMap String (List ℕ)

namespace MemoryBackend

variable {ρ ν : Type*}

def new : MemoryBackend ρ where
  store := JsMap.empty
  listeners := JsMap.empty

def get (b : MemoryBackend ρ) (key : String) : Option ρ := b.store.get key

def set (b : MemoryBackend ρ) (key : String) (value : ρ) : MemoryBackend ρ :=
  { b with store := b.store.set key value }

def delete (b : MemoryBackend ρ) (key : String) : MemoryBackend ρ :=
  { b with store := b.store.delete key }

/-- The listeners of a key, in the order in which they were added. -/
def listenersOf (b : MemoryBackend ρ) (key : String) : List ℕ := (b.listeners.get key).getD []

def subscribe (b : MemoryBackend ρ) (key : String) (listener : ℕ) : MemoryBackend ρ :=
  { b with listeners := b.listeners.set key (b.listenersOf key ++ [listener]) }

/-- What `subscribe` returns; a second call of it finds nothing to delete. -/
def unsubscribe (b : MemoryBackend ρ) (key : String) (listener : ℕ) : MemoryBackend ρ :=
  match b.listeners.get key with
  | none => b
  | some set =>
    let set := set.erase listener
    { b with listeners := if set = [] then b.listeners.delete key else b.listeners.set key set }

/-- Every listener of the key is called once, whether one throws or not. -/
def publish (calls : List (ℕ × ν)) (b : MemoryBackend ρ) (key : String) (value : ν) :
    List (ℕ × ν) :=
  calls ++ (b.listenersOf key).map (·, value)

/-- A listener that subscribes comes last under its key. -/
theorem listenersOf_subscribe (b : MemoryBackend ρ) (key key' : String) (listener : ℕ) :
    (b.subscribe key listener).listenersOf key' =
      if key' = key then b.listenersOf key' ++ [listener] else b.listenersOf key' := by
  simp only [listenersOf, subscribe, JsMap.get_set]
  split
  · next h => rw [h, Option.getD_some]
  · rfl

/-- A listener that leaves is missing from its key, and no other is. -/
theorem listenersOf_unsubscribe (b : MemoryBackend ρ) (key key' : String) (listener : ℕ) :
    (b.unsubscribe key listener).listenersOf key' =
      if key' = key then (b.listenersOf key').erase listener else b.listenersOf key' := by
  cases hget : b.listeners.get key with
  | none =>
    simp only [unsubscribe, hget]
    split
    · next h => rw [h, listenersOf, hget, Option.getD_none, List.erase_nil]
    · rfl
  | some set =>
    simp only [unsubscribe, hget, listenersOf]
    by_cases hnil : set.erase listener = []
    · rw [if_pos hnil, JsMap.get_delete]
      split
      · next h => rw [h, hget, Option.getD_none, Option.getD_some, hnil]
      · rfl
    · rw [if_neg hnil, JsMap.get_set]
      split
      · next h => rw [h, hget, Option.getD_some, Option.getD_some]
      · rfl

/-- A list of what `subscribe` has returned, called one after the other. -/
def unsubscribeAll (b : MemoryBackend ρ) (unsubscribers : List (String × ℕ)) : MemoryBackend ρ :=
  unsubscribers.foldl (fun b u => b.unsubscribe u.1 u.2) b

/-- All listeners of a list leave their keys. -/
theorem listenersOf_unsubscribeAll (b : MemoryBackend ρ) (unsubscribers : List (String × ℕ))
    (key : String) : (b.unsubscribeAll unsubscribers).listenersOf key =
      (b.listenersOf key).diff ((unsubscribers.filter (·.1 = key)).map Prod.snd) := by
  induction unsubscribers generalizing b with
  | nil => rfl
  | cons u unsubscribers ih =>
    rw [unsubscribeAll, List.foldl_cons, ← unsubscribeAll, ih, listenersOf_unsubscribe]
    by_cases hkey : key = u.1
    · subst hkey
      rw [if_pos rfl, List.filter_cons_of_pos (by simp), List.map_cons, List.diff_cons]
    · rw [if_neg hkey, List.filter_cons_of_neg (by simpa using Ne.symm hkey)]

end MemoryBackend

end Datasole
