import Datasole.Shared.Crdt.LWWMap
import Datasole.Shared.Crdt.PNCounter

/-!
# The CRDT registry of a server

`CrdtManager` of `server/primitives/crdt/crdt-manager.ts`. A manager applies an operation to the
CRDT registered under its key, then sets the new state in the backend and publishes the operation.
Registering a key subscribes the manager to what is published under it, by whichever instance.

Payloads have one type `V`; what a counter does with a payload is the arithmetic of `V`.
-/

namespace Datasole

/-- The classes that implement `Crdt`. -/
inductive Crdt (V : Type*) where
  | lwwRegister (register : LWWRegister V)
  | pnCounter (counter : PNCounter V)
  | lwwMap (map : LWWMap V)

/-- The states of those classes. -/
inductive AnyState (V : Type*) where
  | lwwRegister (state : CrdtState (Option V))
  | pnCounter (state : CrdtState V)
  | lwwMap (state : CrdtState (JsMap String V))

structure CrdtManager (V : Type*) where
  maxKeys : ℕ
  registry : JsMap String (Crdt V)
  /-- The keys subscribed to, once for each call of `register`. -/
  subscribed : List String

/-- What an accepted `apply` does outside: it sets the state under the key, publishes the operation
there, and returns the key with the state. -/
structure Applied (V : Type*) where
  key : String
  state : AnyState V
  published : CrdtOperation V

variable {V : Type*} [Zero V] [One V] [Add V] [Sub V]

namespace Crdt

def apply (crdt : Crdt V) (op : CrdtOperation V) : Crdt V :=
  match crdt with
  | .lwwRegister register => .lwwRegister (register.apply op)
  | .pnCounter counter => .pnCounter (counter.apply op)
  | .lwwMap map => .lwwMap (map.apply op)

def state (crdt : Crdt V) (now : Timestamp) : AnyState V :=
  match crdt with
  | .lwwRegister register => .lwwRegister register.state
  | .pnCounter counter => .pnCounter (counter.state now)
  | .lwwMap map => .lwwMap (map.state now)

/-- The CRDT that `registerByType` makes; the other types have no class. -/
def ofType : CrdtType → Option (Crdt V)
  | .pnCounter => some (.pnCounter (PNCounter.new "server"))
  | .lwwRegister => some (.lwwRegister (LWWRegister.new "server" none 0))
  | .lwwMap => some (.lwwMap (LWWMap.new "server"))
  | .gCounter | .gSet | .orSet => none

end Crdt

namespace CrdtManager

def new (maxKeys : ℕ) : CrdtManager V where
  maxKeys := maxKeys
  registry := JsMap.empty
  subscribed := []

def register (m : CrdtManager V) (key : String) (crdt : Crdt V) : CrdtManager V :=
  { m with registry := m.registry.set key crdt, subscribed := m.subscribed ++ [key] }

def registerByType (m : CrdtManager V) (key : String) (type : CrdtType) : CrdtManager V :=
  if m.registry.has key then m else (Crdt.ofType type).elim m (m.register key)

/-- The part of `apply` behind the lookup of the key. -/
def applyTo (m : CrdtManager V) (key : String) (crdt : Crdt V) (op : CrdtOperation V)
    (now : Timestamp) : CrdtManager V × Applied V :=
  ({ m with registry := m.registry.set key (crdt.apply op) },
    { key := key, state := (crdt.apply op).state now, published := op })

def apply (m : CrdtManager V) (connectionId : String) (op : CrdtOperation V) (now : Timestamp) :
    CrdtManager V × Option (Applied V) :=
  let key := op.key.getD connectionId
  match m.registry.get key with
  | some crdt =>
    let (m, applied) := m.applyTo key crdt op now
    (m, some applied)
  | none =>
    if m.maxKeys ≤ m.registry.size then (m, none)
    else
      let m := m.registerByType key op.type
      match m.registry.get key with
      | some crdt =>
        let (m, applied) := m.applyTo key crdt op now
        (m, some applied)
      -- the type has no class
      | none => (m, none)

/-- One subscription handler of a key: it applies what was published to the CRDT now registered. -/
def onPublished (key : String) (op : CrdtOperation V) (m : CrdtManager V) : CrdtManager V :=
  match m.registry.get key with
  | some crdt => { m with registry := m.registry.set key (crdt.apply op) }
  | none => m

/-- A message reaches every handler of its key. -/
def deliver (m : CrdtManager V) (key : String) (op : CrdtOperation V) : CrdtManager V :=
  (m.subscribed.filter (· = key)).foldl (fun m key => m.onPublished key op) m

def getState (m : CrdtManager V) (key : String) (now : Timestamp) : Option (AnyState V) :=
  (m.registry.get key).map (·.state now)

def destroy (m : CrdtManager V) : CrdtManager V :=
  { m with registry := JsMap.empty, subscribed := [] }

/-! ## Keys with one registered CRDT -/

/-- The key was registered once and now holds this CRDT. -/
structure Holds (m : CrdtManager V) (key : String) (crdt : Crdt V) : Prop where
  registered : m.registry.get key = some crdt
  once : m.subscribed.filter (· = key) = [key]

variable {m : CrdtManager V} {key : String} {crdt : Crdt V}

omit [Zero V] [One V] [Add V] [Sub V] in
/-- A key that is registered for the first time holds its CRDT. -/
theorem holds_register (h : key ∉ m.subscribed) : (m.register key crdt).Holds key crdt where
  registered := by rw [register, JsMap.get_set_self]
  once := by
    have hnil : m.subscribed.filter (· = key) = [] :=
      List.filter_eq_nil_iff.mpr fun k hk hkey => h (of_decide_eq_true hkey ▸ hk)
    rw [register, List.filter_append, hnil, List.nil_append]
    simp

/-- An operation on a registered key is applied, and published as it came. -/
theorem apply_registered (hget : m.registry.get key = some crdt) {connectionId : String}
    {op : CrdtOperation V} (hkey : op.key.getD connectionId = key) (now : Timestamp) :
    m.apply connectionId op now =
      ({ m with registry := m.registry.set key (crdt.apply op) },
        some { key := key, state := (crdt.apply op).state now, published := op }) := by
  simp only [apply, hkey, hget, applyTo]

/-- The first operation on a key registers the class of its type. -/
theorem apply_unregistered {connectionId : String} {op : CrdtOperation V}
    (hkey : op.key.getD connectionId = key) (hnew : m.registry.get key = none)
    (hroom : m.registry.size < m.maxKeys) (htype : Crdt.ofType op.type = some crdt)
    (now : Timestamp) :
    m.apply connectionId op now = (m.register key crdt).apply connectionId op now := by
  have hreg : m.registerByType key op.type = m.register key crdt := by
    rw [registerByType, if_neg (by simp [JsMap.has, hnew]), htype, Option.elim_some]
  have hget : (m.register key crdt).registry.get key = some crdt := JsMap.get_set_self ..
  rw [apply_registered hget hkey]
  simp only [CrdtManager.apply, hkey, hnew, if_neg (not_le.mpr hroom), hreg, hget, applyTo]

/-- A full registry takes no operation on another key. -/
theorem apply_full {connectionId : String} {op : CrdtOperation V}
    (hkey : op.key.getD connectionId = key) (hnew : m.registry.get key = none)
    (hfull : m.maxKeys ≤ m.registry.size) (now : Timestamp) :
    m.apply connectionId op now = (m, none) := by
  simp only [CrdtManager.apply, hkey, hnew, if_pos hfull]

/-- An operation for the key is applied to its CRDT and published. -/
theorem Holds.apply_eq (h : m.Holds key crdt) {connectionId : String} {op : CrdtOperation V}
    (hkey : op.key.getD connectionId = key) (now : Timestamp) :
    m.apply connectionId op now =
      ({ m with registry := m.registry.set key (crdt.apply op) },
        some { key := key, state := (crdt.apply op).state now, published := op }) :=
  apply_registered h.registered hkey now

/-- After an operation the key holds the CRDT with the operation applied. -/
theorem Holds.apply (h : m.Holds key crdt) {connectionId : String} {op : CrdtOperation V}
    (hkey : op.key.getD connectionId = key) (now : Timestamp) :
    (m.apply connectionId op now).1.Holds key (crdt.apply op) := by
  rw [h.apply_eq hkey]
  exact ⟨JsMap.get_set_self .., h.once⟩

omit [Sub V] in
/-- A delivered operation is applied once for the one registration. -/
theorem Holds.deliver (h : m.Holds key crdt) (op : CrdtOperation V) :
    (m.deliver key op).Holds key (crdt.apply op) := by
  have hm : m.deliver key op = { m with registry := m.registry.set key (crdt.apply op) } := by
    simp only [CrdtManager.deliver, h.once, List.foldl_cons, List.foldl_nil, onPublished,
      h.registered]
  rw [hm]
  exact ⟨JsMap.get_set_self .., h.once⟩

omit [Sub V] in
/-- What the callback of the subscription keeps, the delivery of an operation keeps, however often
the key was subscribed. -/
theorem deliver_invariant {P : CrdtManager V → Prop} {op : CrdtOperation V}
    (hstep : ∀ m, P m → P (m.onPublished key op)) (h : P m) : P (m.deliver key op) := by
  refine List.foldlRecOn _ _ h fun m' hm' key' hkey' => ?_
  obtain rfl : key' = key := of_decide_eq_true (List.mem_filter.mp hkey').2
  exact hstep m' hm'

omit [One V] in
theorem Holds.getState (h : m.Holds key crdt) (now : Timestamp) :
    m.getState key now = some (crdt.state now) := by
  rw [CrdtManager.getState, h.registered, Option.map_some]

/-- The first operation on a new key registers the class of its type and is then applied. -/
theorem apply_new {connectionId : String} {op : CrdtOperation V}
    (hkey : op.key.getD connectionId = key) (hnew : m.registry.get key = none)
    (hroom : m.registry.size < m.maxKeys) (htype : Crdt.ofType op.type = some crdt)
    (hsub : key ∉ m.subscribed) (now : Timestamp) :
    (m.apply connectionId op now).1.Holds key (crdt.apply op) ∧
      (m.apply connectionId op now).2 =
        some { key := key, state := (crdt.apply op).state now, published := op } := by
  have hholds : (m.register key crdt).Holds key crdt := holds_register hsub
  have happly := apply_unregistered hkey hnew hroom htype now
  rw [happly]
  exact ⟨hholds.apply hkey now, by rw [hholds.apply_eq hkey]⟩

end CrdtManager

end Datasole
