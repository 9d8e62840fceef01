import Datasole.Shared.Crdt.LWWRegister

/-!
# The last-writer-wins map

`LWWMap` of `shared/crdt/lww-map.ts`: a register for every key that was ever set. A deletion writes
`undefined` into the register of its key, so it leaves a tombstone there; of a key without a
register it leaves no trace.

Calls of `set` and `delete` and operations given to `apply` are all writes of one key, the
`MapWrite`s. `held_writeAll` says what a key holds after any sequence of them: the newest write from
the first `set` of the key on.
-/

namespace Datasole

structure LWWMap (V : Type*) where
  nodeId : String
  fields : JsMap String (LWWRegister V)
  version : ℕ
deriving DecidableEq

namespace LWWMap

variable {V : Type*}

def new (nodeId : String) : LWWMap V where
  nodeId := nodeId
  fields := JsMap.empty
  version := 0

/-- The record of the keys that hold a value. It has no prototype, so every key is its own. -/
def value (m : LWWMap V) : JsMap String V := m.fields.filterMap LWWRegister.value

def get (m : LWWMap V) (key : String) : Option V := (m.fields.get key).bind LWWRegister.value

def set (m : LWWMap V) (key : String) (val : Option V) (timestamp : Timestamp) :
    LWWMap V × CrdtOperation V :=
  let register := match m.fields.get key with
    | none => LWWRegister.new m.nodeId val timestamp
    | some register => (register.set val timestamp).1
  ({ m with fields := m.fields.set key register, version := m.version + 1 },
    { type := .lwwMap, nodeId := m.nodeId, timestamp := timestamp, op := .set, key := some key,
      value := val })

def delete (m : LWWMap V) (key : String) (timestamp : Timestamp) : LWWMap V × CrdtOperation V :=
  let fields := match m.fields.get key with
    | none => m.fields
    | some register => m.fields.set key (register.set none timestamp).1
  ({ m with fields := fields, version := m.version + 1 },
    { type := .lwwMap, nodeId := m.nodeId, timestamp := timestamp, op := .remove,
      key := some key })

/-- An empty key is falsy, so an operation on it is ignored like one without a key. -/
def apply (m : LWWMap V) (op : CrdtOperation V) : LWWMap V :=
  match op.op, op.key with
  | .set, some key => if key = "" then m else (m.set key op.value op.timestamp).1
  | .remove, some key => if key = "" then m else (m.delete key op.timestamp).1
  | _, _ => m

/-- The keys that a merge skips. -/
def forbiddenKeys : List String := ["__proto__", "constructor", "prototype"]

/-- Every entry of the received record is set with the one timestamp of the state. -/
def merge (m : LWWMap V) (remote : CrdtState (JsMap String V)) : Except String (LWWMap V) :=
  if remote.value.size > 10000 then
    .error s!"LWWMap merge too large: {remote.value.size} entries"
  else
    let merged := remote.value.entries.foldl
      (fun m e => if e.1 ∈ forbiddenKeys then m
        else (m.set e.1 (some e.2) remote.metadata.timestamp).1) m
    .ok { merged with version := merged.version + 1 }

def state (m : LWWMap V) (now : Timestamp) : CrdtState (JsMap String V) where
  type := .lwwMap
  value := m.value
  metadata :=
    { type := .lwwMap
      nodeId := m.nodeId
      timestamp := now
      version := m.version }

end LWWMap

/-! ## Writes -/

/-- A `set` or a `remove` of a map entry with a non-empty key. -/
def IsMapOp {V : Type*} (op : CrdtOperation V) : Prop :=
  (op.op = .set ∨ op.op = .remove) ∧ ∃ key, op.key = some key ∧ key ≠ ""

/-- What a write does to its key. -/
inductive WriteKind (V : Type*) where
  | set (val : Option V)
  | delete
deriving DecidableEq

/-- One write of one key, by `set`, by `delete` or by an applied operation. -/
structure MapWrite (V : Type*) where
  key : String
  timestamp : Timestamp
  kind : WriteKind V
deriving DecidableEq

namespace MapWrite

variable {V : Type*}

/-- The value that a write leaves when it is the one in force. -/
def outcome (w : MapWrite V) : Option V :=
  match w.kind with
  | .set val => val
  | .delete => none

/-- Only a `set` makes a register where there is none. -/
def isDelete (w : MapWrite V) : Bool :=
  match w.kind with
  | .set _ => false
  | .delete => true

/-- The write that `apply` performs for an operation. -/
def ofOp (op : CrdtOperation V) : Option (MapWrite V) :=
  match op.op, op.key with
  | .set, some key => if key = "" then none else some ⟨key, op.timestamp, .set op.value⟩
  | .remove, some key => if key = "" then none else some ⟨key, op.timestamp, .delete⟩
  | _, _ => none

/-- The write that the register of a key holds after the writes `ws` of that key: deletions before
the first `set` meet no register. -/
def kept (ws : List (MapWrite V)) : Option (MapWrite V) :=
  Newest.newest timestamp (ws.dropWhile isDelete)

/-- The value that a key has after the writes `ws` of that key. -/
def reading (ws : List (MapWrite V)) : Option V := (kept ws).bind outcome

/-- The writes of one key. -/
def onKey (ws : List (MapWrite V)) (key : String) : List (MapWrite V) :=
  ws.filter (·.key = key)

@[simp] theorem kept_nil : kept ([] : List (MapWrite V)) = none := rfl

/-- The next write of a key replaces the kept one unless it is older; with none kept, only a `set`
is kept. -/
theorem kept_concat (ws : List (MapWrite V)) (w : MapWrite V) :
    kept (ws ++ [w]) = match kept ws with
      | none => if w.isDelete then none else some w
      | some c => some (Newest.put timestamp c w) := by
  unfold kept
  rw [List.dropWhile_append]
  cases hd : ws.dropWhile isDelete with
  | nil =>
    -- nothing but deletions so far
    cases hw : w.isDelete <;> simp [hw, Newest.newest]
  | cons c cs =>
    rw [if_neg (by simp), Newest.newest_concat]
    simp [Newest.newest]

/-- One more write of a key. -/
theorem onKey_concat (ws : List (MapWrite V)) (w : MapWrite V) (key : String) :
    onKey (ws ++ [w]) key = if w.key = key then onKey ws key ++ [w] else onKey ws key := by
  unfold onKey
  rw [List.filter_append]
  by_cases h : w.key = key <;> simp [h]

end MapWrite

namespace LWWMap

open MapWrite

variable {V : Type*}

/-- Perform one write. -/
def write (m : LWWMap V) (w : MapWrite V) : LWWMap V :=
  match w.kind with
  | .set val => (m.set w.key val w.timestamp).1
  | .delete => (m.delete w.key w.timestamp).1

def writeAll (m : LWWMap V) (ws : List (MapWrite V)) : LWWMap V := ws.foldl write m

/-- The write that a key holds, as its timestamp and value. -/
def held (m : LWWMap V) (key : String) : Option (Timestamp × Option V) :=
  (m.fields.get key).map LWWRegister.held

/-- `apply` performs the write of its operation, if there is one. -/
theorem apply_eq_write (m : LWWMap V) (op : CrdtOperation V) :
    m.apply op = (ofOp op).elim m m.write := by
  obtain ⟨type, nodeId, timestamp, kind, key, value⟩ := op
  cases kind <;> cases key <;> simp only [apply, ofOp, Option.elim_none]
  all_goals split <;> rfl

theorem get_eq_held (m : LWWMap V) (key : String) : m.get key = (m.held key).bind Prod.snd := by
  unfold get held
  cases m.fields.get key <;> rfl

/-- The record has exactly the keys that read as a value. -/
theorem get_value (m : LWWMap V) (key : String) : m.value.get key = m.get key := by
  rw [value, JsMap.get_filterMap, get]

/-- A `set` brings its write to the register of its key, making one if needed. -/
theorem held_set (m : LWWMap V) (key key' : String) (val : Option V) (t : Timestamp) :
    (m.set key val t).1.held key' =
      if key' = key then some ((m.held key).elim (t, val) (Newest.put Prod.fst · (t, val)))
      else m.held key' := by
  unfold set held
  simp only [JsMap.get_set]
  split
  · cases m.fields.get key with
    | none => rfl
    | some r => simp [LWWRegister.held_set]
  · rfl

/-- A `delete` brings its write to the register of its key, if there is one. -/
theorem held_delete (m : LWWMap V) (key key' : String) (t : Timestamp) :
    (m.delete key t).1.held key' =
      if key' = key then (m.held key).map (Newest.put Prod.fst · (t, none)) else m.held key' := by
  unfold delete held
  cases hr : m.fields.get key with
  | none => by_cases h : key' = key <;> simp [h, hr]
  | some r =>
    simp only [JsMap.get_set]
    by_cases h : key' = key <;> simp [h, LWWRegister.held_set]

/-- A write touches its own key only. -/
theorem held_write_ne (m : LWWMap V) (w : MapWrite V) {key : String} (h : key ≠ w.key) :
    (m.write w).held key = m.held key := by
  unfold write
  cases w.kind with
  | set val => simp only [held_set, if_neg h]
  | delete => simp only [held_delete, if_neg h]

/-- What a write does to its own key. -/
theorem held_write_self (m : LWWMap V) (w : MapWrite V) :
    (m.write w).held w.key = match m.held w.key with
      | none => if w.isDelete then none else some (w.timestamp, w.outcome)
      | some c => some (Newest.put Prod.fst c (w.timestamp, w.outcome)) := by
  unfold write isDelete outcome
  cases w.kind with
  | set val => simp only [held_set, if_true]; cases m.held w.key <;> rfl
  | delete => simp only [held_delete, if_true]; cases m.held w.key <;> rfl

/-- The newer of what two writes leave is what the newer of them leaves. -/
theorem put_held (c w : MapWrite V) :
    Newest.put Prod.fst (c.timestamp, c.outcome) (w.timestamp, w.outcome) =
      ((Newest.put MapWrite.timestamp c w).timestamp,
        (Newest.put MapWrite.timestamp c w).outcome) := by
  unfold Newest.put
  split <;> rfl

/-- After any writes to a fresh map, a key holds the newest of its writes from its first `set` on,
the later one on a tie. -/
theorem held_writeAll (nodeId : String) (ws : List (MapWrite V)) (key : String) :
    ((new nodeId).writeAll ws).held key =
      (kept (onKey ws key)).map fun w => (w.timestamp, w.outcome) := by
  -- from the right: the last write meets the write that its key holds by then
  induction ws using List.reverseRecOn with
  | nil => rfl
  | append_singleton ws w ih =>
    rw [writeAll, List.foldl_append, List.foldl_cons, List.foldl_nil, ← writeAll, onKey_concat]
    by_cases hk : w.key = key
    · subst hk
      rw [if_pos rfl, held_write_self, ih, kept_concat]
      cases kept (onKey ws w.key) with
      | none => cases w.isDelete <;> rfl
      | some c => exact congrArg some (put_held c w)
    · rw [if_neg hk, held_write_ne _ _ (Ne.symm hk), ih]

/-- After any writes to a fresh map, a key reads as what its kept write leaves. -/
theorem get_writeAll (nodeId : String) (ws : List (MapWrite V)) (key : String) :
    ((new nodeId).writeAll ws).get key = reading (onKey ws key) := by
  rw [get_eq_held, held_writeAll, reading]
  cases kept (onKey ws key) <;> rfl

/-! ## Operations -/

/-- Apply operations one after the other. -/
def applyAll (m : LWWMap V) (ops : List (CrdtOperation V)) : LWWMap V := ops.foldl apply m

/-- Applying operations performs their writes. -/
theorem applyAll_eq_writeAll (m : LWWMap V) (ops : List (CrdtOperation V)) :
    m.applyAll ops = m.writeAll (ops.filterMap ofOp) := by
  unfold applyAll
  induction ops generalizing m with
  | nil => rfl
  | cons op ops ih =>
    rw [List.foldl_cons, apply_eq_write, List.filterMap_cons]
    cases ofOp op with
    | none => exact ih m
    | some w => exact ih (m.write w)

/-- What a key reads as, after operations in some order, depends on the writes of that key only. -/
theorem get_value_applyAll (nodeId : String) (ops : List (CrdtOperation V)) (key : String) :
    ((new nodeId).applyAll ops).value.get key = reading (onKey (ops.filterMap ofOp) key) := by
  rw [get_value, applyAll_eq_writeAll, get_writeAll]

end LWWMap

end Datasole
