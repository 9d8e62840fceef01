import Datasole.Shared.Crdt.LWWRegisterOrder

/-!
# Registers of a client

`CrdtStore` of `client/crdt/crdt-store.ts`, as far as its registers go: of a key that is registered
with another type it is only said that it holds no register.

A register is stamped with the client's clock when it is registered, before anybody has written to
it. The server's registry gives timestamp 0 to the registers that it makes. `adopts_iff` says when
the state of the server gets past the stamp.
-/

namespace Datasole

structure CrdtStore (V : Type*) where
  nodeId : String
  registers : JsMap String (LWWRegister V)

namespace CrdtStore

variable {V : Type*}

def new (nodeId : String) : CrdtStore V where
  nodeId := nodeId
  registers := JsMap.empty

/-- `now` is what `Date.now()` reads in the constructor of the register. -/
def register (s : CrdtStore V) (key type : String) (initialValue : Option V) (now : Timestamp) :
    Except String (CrdtStore V) :=
  match type with
  | "lww-register" =>
    .ok { s with registers := s.registers.set key (LWWRegister.new s.nodeId initialValue now) }
  | "pn-counter" | "lww-map" => .ok { s with registers := s.registers.delete key }
  | type => .error s!"Unknown CRDT type: {type}"

def get (s : CrdtStore V) (key : String) : Option (LWWRegister V) := s.registers.get key

/-- With the state of a register. -/
def mergeRemoteState (s : CrdtStore V) (key : String)
    (state : CrdtState (Option V)) : CrdtStore V :=
  match s.registers.get key with
  | none => s
  | some register => { s with registers := s.registers.set key (register.merge state) }

/-- A client registers the key and is sent a state, and has the value of the state then. -/
def Adopts (s : CrdtStore V) (key : String) (initialValue : Option V) (now : Timestamp)
    (state : CrdtState (Option V)) : Prop :=
  ∃ t, s.register key "lww-register" initialValue now = .ok t ∧
    ((t.mergeRemoteState key state).get key).map LWWRegister.value = some state.value

variable {s : CrdtStore V} {key : String} {initialValue : Option V} {now : Timestamp}

/-- The value after the registration and the merge. -/
theorem adopts_iff_value {state : CrdtState (Option V)} : s.Adopts key initialValue now state ↔
    ((LWWRegister.new s.nodeId initialValue now).merge state).value = state.value := by
  have hget : (({ s with registers := s.registers.set key (LWWRegister.new s.nodeId initialValue now) } :
      CrdtStore V).mergeRemoteState key state).get key =
        some ((LWWRegister.new s.nodeId initialValue now).merge state) := by
    simp only [mergeRemoteState, get, JsMap.get_set, if_true]
  constructor
  · rintro ⟨t, ht, hvalue⟩
    cases ht
    rw [hget] at hvalue
    exact Option.some.inj hvalue
  · exact fun hvalue => ⟨_, rfl, by rw [hget, Option.map_some, hvalue]⟩

/-- Whatever the store has been used for, the initial value, the clock at the registration, and the
register of the server with the operations applied to it: the client adopts the value of the state
exactly if it registered before the last write of the state, or at the same time and with a smaller
id than the server's, or with that value. -/
theorem adopts_iff (s : CrdtStore V) (key : String) (initialValue : Option V) (now : Timestamp)
    (server : LWWRegister V) (ops : List (CrdtOperation V)) :
    let state := (server.applyAll ops).state
    s.Adopts key initialValue now state ↔
      now < state.metadata.timestamp ∨
      (state.metadata.timestamp = now ∧ JsString.Lt s.nodeId state.metadata.nodeId) ∨
      initialValue = state.value := by
  intro state
  have hheld := LWWRegister.held_merge (LWWRegister.new s.nodeId initialValue now) state
  have hvalue : ((LWWRegister.new s.nodeId initialValue now).merge state).value =
      ((LWWRegister.new s.nodeId initialValue now).merge state).held.2 := rfl
  rw [adopts_iff_value, hvalue, hheld, ← or_assoc]
  split
  · next haccept => exact iff_of_true rfl (.inl haccept)
  · next hreject => exact ⟨.inr, fun h => h.resolve_left hreject⟩

/-- The server has held 2 since time 5. A client that registers at time 9 keeps its initial
value. -/
theorem late_joiner_keeps_initial :
    let write : CrdtOperation ℕ := ⟨.lwwRegister, "a", 5, .set, some "k", some 2⟩
    let state := ((LWWRegister.new "server" none 0).applyAll [write]).state
    state.value = some 2 ∧ ¬ (new "client" : CrdtStore ℕ).Adopts "k" (some 0) 9 state := by
  intro write state
  refine ⟨by decide +kernel, fun hadopts => ?_⟩
  exact absurd (adopts_iff_value.mp hadopts) (by decide +kernel)

end CrdtStore

end Datasole
