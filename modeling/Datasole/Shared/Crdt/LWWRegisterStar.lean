import Mathlib.Data.Finset.Basic
import Mathlib.Logic.Function.Basic
import Datasole.Common.Machine
import Datasole.Shared.Crdt.LWWRegister

/-!
# The register in the star protocol

A hub register of node `server` and one register for each client id. A client's `set` updates its
own register and queues the operation for the hub; the hub applies the operations of each queue in
order and, after each, queues its state to every client; a client merges those states in order, as
`CrdtStore.mergeRemoteState` does for a registered key.

The hub accepts an operation with the timestamp it holds, a client accepts such a state only if its
own id is smaller than `server`. So a client with another id that holds an equally old write of its
own keeps it when the hub has moved on. `star_converges` shows that this dropped tie is the only
obstacle: every run in which no client drops one ends, when the queues are empty, with all registers
equal.
-/

namespace Datasole

namespace RegisterStar

variable {V : Type*}

/-- The registers and the queues between them. -/
structure Star (V : Type*) where
  hub : LWWRegister V
  clients : String → LWWRegister V
  toHub : String → List (CrdtOperation V)
  toClient : String → List (CrdtState (Option V))

inductive Act (V : Type*) where
  /-- A client writes a value at a timestamp of its clock. -/
  | set (client : String) (val : Option V) (timestamp : Timestamp)
  /-- The hub takes the first operation that a client has queued. -/
  | hubApply (client : String)
  /-- A client takes the first state that the hub has queued for it. -/
  | merge (client : String)

/-- All registers hold the same initial value with timestamp `0`. -/
def init (initialValue : Option V) : Star V where
  hub := LWWRegister.new "server" initialValue 0
  clients := fun client => LWWRegister.new client initialValue 0
  toHub := fun _ => []
  toClient := fun _ => []

def step (ids : Finset String) (s : Star V) : Act V → Option (Star V)
  | .set client val timestamp =>
    if client ∈ ids then
      let (register, op) := (s.clients client).set val timestamp
      some { s with
        clients := Function.update s.clients client register
        toHub := Function.update s.toHub client (s.toHub client ++ [op]) }
    else none
  | .hubApply client =>
    match s.toHub client with
    | [] => none
    | op :: rest =>
      let hub := s.hub.apply op
      some { s with
        hub := hub
        toHub := Function.update s.toHub client rest
        toClient := fun d => if d ∈ ids then s.toClient d ++ [hub.state] else s.toClient d }
  | .merge client =>
    match s.toClient client with
    | [] => none
    | state :: rest =>
      some { s with
        clients := Function.update s.clients client ((s.clients client).merge state)
        toClient := Function.update s.toClient client rest }

/-- No message is on its way. -/
def Quiescent (ids : Finset String) (s : Star V) : Prop :=
  ∀ c ∈ ids, s.toHub c = [] ∧ s.toClient c = []

/-- Every client holds the hub's value. -/
def Agree (ids : Finset String) (s : Star V) : Prop :=
  ∀ c ∈ ids, (s.clients c).value = s.hub.value

/-- The client does not drop a tie: if the state it is about to merge has the timestamp it holds
itself and its id is not smaller than the hub's, the two values are equal. -/
def KeepsTies (ids : Finset String) (s : Star V) : Act V → Prop
  | .merge client => client ∈ ids → ∀ state ∈ (s.toClient client).head?,
      state.metadata.timestamp = (s.clients client).timestamp →
        ¬ JsString.Lt client "server" → state.value = (s.clients client).value
  | .set .. | .hubApply _ => True

instance [DecidableEq V] (ids : Finset String) (s : Star V) :
    DecidablePred (KeepsTies ids s)
  | .merge client => inferInstanceAs (Decidable (client ∈ ids →
      ∀ state ∈ (s.toClient client).head?,
        state.metadata.timestamp = (s.clients client).timestamp →
          ¬ JsString.Lt client "server" → state.value = (s.clients client).value))
  | .set _ _ _ | .hubApply _ => .isTrue trivial

instance (ids : Finset String) : DecidablePred (Quiescent (V := V) ids) :=
  fun s => inferInstanceAs (Decidable (∀ c ∈ ids, s.toHub c = [] ∧ s.toClient c = []))

instance [DecidableEq V] (ids : Finset String) : DecidablePred (Agree (V := V) ids) :=
  fun s => inferInstanceAs (Decidable (∀ c ∈ ids, (s.clients c).value = s.hub.value))

/-- The write that a state carries. -/
def heldBy (state : CrdtState (Option V)) : Timestamp × Option V :=
  (state.metadata.timestamp, state.value)

/-- What every run keeps. The last two fields are the heart: a client is never ahead of both the hub
and its own queued operations, and once its queues are empty it holds what the hub holds. -/
structure Inv (ids : Finset String) (s : Star V) : Prop where
  hub_id : s.hub.nodeId = "server"
  client_id : ∀ c, (s.clients c).nodeId = c
  state_id : ∀ c, ∀ st ∈ s.toClient c, st.metadata.nodeId = "server"
  state_le : ∀ c, ∀ st ∈ s.toClient c, st.metadata.timestamp ≤ s.hub.timestamp
  last_state : ∀ c ∈ ids, ∀ st, (s.toClient c).getLast? = some st → heldBy st = s.hub.held
  client_le : ∀ c ∈ ids, (s.clients c).timestamp ≤ s.hub.timestamp ∨
    ∃ op ∈ s.toHub c, (s.clients c).timestamp ≤ op.timestamp
  settled : ∀ c ∈ ids, s.toHub c = [] → s.toClient c = [] → (s.clients c).held = s.hub.held

variable {ids : Finset String} {s t : Star V}

/-- All hold the initial value. -/
theorem inv_init (initialValue : Option V) : Inv ids (init initialValue) where
  hub_id := rfl
  client_id _ := rfl
  state_id _ _ h := by cases h
  state_le _ _ h := by cases h
  last_state _ _ _ h := by cases h
  client_le _ _ := Or.inl le_rfl
  settled _ _ _ _ := rfl

/-- Replacing the register of a client by one with the same id keeps every register under its id. -/
theorem client_id_update {clients : String → LWWRegister V} (h : ∀ c, (clients c).nodeId = c)
    {client : String} {register : LWWRegister V} (hr : register.nodeId = client) (c : String) :
    (Function.update clients client register c).nodeId = c :=
  (Function.forall_update_iff clients fun c r => r.nodeId = c).mpr ⟨hr, fun c _ => h c⟩ c

/-- A write at a client: it is either refused, or held with the timestamp of the operation
queued. -/
theorem inv_set (h : Inv ids s) {client : String} {val : Option V} {time : Timestamp}
    (hs : step ids s (.set client val time) = some t) : Inv ids t := by
  simp only [step, Option.ite_none_right_eq_some, Option.some.injEq] at hs
  obtain ⟨hc, rfl⟩ := hs
  refine ⟨h.hub_id, client_id_update h.client_id (by simpa using h.client_id client), h.state_id,
    h.state_le, h.last_state, fun c hcin => ?_, fun c hcin hhub hclient => ?_⟩
  · by_cases hcc : c = client
    · subst hcc
      simp only [Function.update_self, LWWRegister.timestamp_set]
      rcases le_total (s.clients c).timestamp time with hle | hle
      · exact Or.inr ⟨((s.clients c).set val time).2, List.mem_append_right _ (by simp),
          by rw [max_eq_right hle]; exact le_rfl⟩
      · rw [max_eq_left hle]
        rcases h.client_le c hcin with hhub | ⟨op, hop, hlt⟩
        · exact Or.inl hhub
        · exact Or.inr ⟨op, List.mem_append_left _ hop, hlt⟩
    · simpa [hcc] using h.client_le c hcin
  · by_cases hcc : c = client
    · subst hcc; simp at hhub
    · simp only [Function.update_of_ne hcc] at hhub ⊢
      exact h.settled c hcin hhub hclient

/-- The hub applies an operation: its timestamp only grows, and its new state is the last one in
every client's queue. -/
theorem inv_hubApply (h : Inv ids s) {client : String}
    (hs : step ids s (.hubApply client) = some t) : Inv ids t := by
  cases hq : s.toHub client with
  | nil => simp [step, hq] at hs
  | cons op rest =>
    simp only [step, hq, Option.some.injEq] at hs
    subst hs
    have hub_le : s.hub.timestamp ≤ (s.hub.apply op).timestamp := by
      rw [LWWRegister.timestamp_apply]; exact le_max_left _ _
    have op_le : op.timestamp ≤ (s.hub.apply op).timestamp := by
      rw [LWWRegister.timestamp_apply]; exact le_max_right _ _
    -- the hub's timestamp only grows, and is at least that of the operation
    refine ⟨by simpa using h.hub_id, h.client_id, fun c st hst => ?_, fun c st hst => ?_,
      fun c hcin st hst => ?_, fun c hcin => ?_, fun c hcin _ hclient => ?_⟩
    · dsimp only at hst
      split at hst
      · rcases List.mem_append.mp hst with hst | hst
        · exact h.state_id c st hst
        · rw [List.mem_singleton.mp hst]
          simpa [LWWRegister.state] using h.hub_id
      · exact h.state_id c st hst
    · dsimp only at hst
      split at hst
      · rcases List.mem_append.mp hst with hst | hst
        · exact (h.state_le c st hst).trans hub_le
        · rw [List.mem_singleton.mp hst]
          exact le_rfl
      · exact (h.state_le c st hst).trans hub_le
    · -- the state sent last is the hub's now
      simp only [if_pos hcin, List.getLast?_concat, Option.some.injEq] at hst
      rw [← hst]
      rfl
    · dsimp only
      -- a client is not ahead of the hub, or of an operation that it has still queued
      rcases h.client_le c hcin with hhub | ⟨op', hop', hle⟩
      · exact Or.inl (hhub.trans hub_le)
      · by_cases hcc : c = client
        · subst hcc
          rw [hq] at hop'
          rw [Function.update_self]
          rcases List.mem_cons.mp hop' with rfl | hop'
          · -- its operation was the one applied, so it is not ahead of the hub any more
            exact Or.inl (hle.trans op_le)
          · exact Or.inr ⟨op', hop', hle⟩
        · rw [Function.update_of_ne hcc]
          exact Or.inr ⟨op', hop', hle⟩
    · -- after this the client has a state to merge
      simp [hcin] at hclient

/-- A client merges a state without dropping a tie: if that was the last message between it and the
hub, it now holds what the hub holds. -/
theorem inv_merge (h : Inv ids s) {client : String} (hties : KeepsTies ids s (.merge client))
    (hs : step ids s (.merge client) = some t) : Inv ids t := by
  cases hq : s.toClient client with
  | nil => simp [step, hq] at hs
  | cons st rest =>
    simp only [step, hq, Option.some.injEq] at hs
    subst hs
    have hst : st ∈ s.toClient client := by rw [hq]; exact List.mem_cons_self
    have hsub : ∀ c, ∀ x ∈ Function.update s.toClient client rest c, x ∈ s.toClient c := by
      intro c x hx
      by_cases hcc : c = client
      · subst hcc
        rw [Function.update_self] at hx
        rw [hq]
        exact List.mem_cons_of_mem _ hx
      · rwa [Function.update_of_ne hcc] at hx
    refine ⟨h.hub_id, client_id_update h.client_id (by simpa using h.client_id client),
      fun c x hx => h.state_id c x (hsub c x hx), fun c x hx => h.state_le c x (hsub c x hx),
      fun c hcin x hx => ?_, fun c hcin => ?_, fun c hcin hhub hclient => ?_⟩
    · by_cases hcc : c = client
      · subst hcc
        simp only [Function.update_self] at hx
        refine h.last_state c hcin x ?_
        rw [hq, List.getLast?_cons_of_ne_nil (by rintro rfl; cases hx)]
        exact hx
      · simp only [Function.update_of_ne hcc] at hx
        exact h.last_state c hcin x hx
    · by_cases hcc : c = client
      · subst hcc
        simp only [Function.update_self]
        have htime := congrArg Prod.fst ((s.clients c).held_merge st)
        change ((s.clients c).merge st).timestamp = _ at htime
        rw [htime]
        split
        · exact Or.inl (h.state_le c st hst)
        · exact h.client_le c hcin
      · simpa [hcc] using h.client_le c hcin
    · by_cases hcc : c = client
      · subst hcc
        simp only [Function.update_self] at hclient ⊢
        subst hclient
        -- the last state on its way is the hub's, and the client holds nothing newer
        have hlast : heldBy st = s.hub.held := h.last_state c hcin st (by rw [hq]; rfl)
        have hle : (s.clients c).timestamp ≤ st.metadata.timestamp := by
          rw [show st.metadata.timestamp = s.hub.timestamp from congrArg Prod.fst hlast]
          rcases h.client_le c hcin with hle | ⟨op, hop, -⟩
          · exact hle
          · dsimp only at hhub; rw [hhub] at hop; cases hop
        rw [LWWRegister.held_merge, h.client_id c, h.state_id c st hst, ← hlast]
        split
        · rfl
        · next hreject =>
          -- a rejected state of the same age: a tie that is not dropped
          obtain ⟨hnlt, hntie⟩ := not_or.mp hreject
          have heq : st.metadata.timestamp = (s.clients c).timestamp :=
            le_antisymm (not_lt.mp hnlt) hle
          have hval : st.value = (s.clients c).value :=
            hties hcin st (by rw [hq]; rfl) heq fun hlt => hntie ⟨heq, hlt⟩
          exact Prod.ext heq.symm hval.symm
      · simp only [Function.update_of_ne hcc] at hclient ⊢
        exact h.settled c hcin hhub hclient

/-- Every step keeps the invariant that drops no tie. -/
theorem inv_step {a : Act V} (h : Inv ids s) (hties : KeepsTies ids s a)
    (hs : step ids s a = some t) : Inv ids t := by
  cases a with
  | set client val time => exact inv_set h hs
  | hubApply client => exact inv_hubApply h hs
  | merge client => exact inv_merge h hties hs

/-- So does every run. -/
theorem inv_exec {initialValue : Option V} {acts : List (Act V)}
    (hties : Machine.Guarded (step ids) (KeepsTies ids) (init initialValue) acts)
    (hrun : Machine.exec (step ids) (init initialValue) acts = some s) : Inv ids s :=
  Machine.exec_invariant_guarded (fun _ _ _ h hg hs => inv_step h hg hs) (inv_init initialValue)
    hties hrun

theorem Inv.agree (h : Inv ids s) (hq : Quiescent ids s) : Agree ids s := by
  intro c hc
  exact congrArg Prod.snd (h.settled c hc (hq c hc).1 (hq c hc).2)

/-- In every run in which no client drops a tie, all registers agree once the queues are empty. -/
theorem star_converges (ids : Finset String) (initialValue : Option V) (acts : List (Act V))
    (hties : Machine.Guarded (step ids) (KeepsTies ids) (init initialValue) acts)
    (hrun : Machine.exec (step ids) (init initialValue) acts = some s) (hq : Quiescent ids s) :
    Agree ids s :=
  (inv_exec hties hrun).agree hq

/-- Two clients write in the same millisecond; the one that writes first also reaches the hub first,
so both take over the later value. -/
def sameMillisecond : List (Act ℤ) :=
  [.set "alice" (some 1) 1, .set "bob" (some 2) 1, .hubApply "alice", .hubApply "bob",
    .merge "alice", .merge "alice", .merge "bob", .merge "bob"]

/-- Two writes in one millisecond, and the clients agree. -/
theorem sameMillisecond_converges :
    ∃ s, Machine.exec (step {"alice", "bob"}) (init (some 0)) sameMillisecond = some s ∧
      Agree {"alice", "bob"} s := by
  obtain ⟨s, hrun, hq⟩ := Machine.exists_exec_of_test
    (show (Machine.exec (step {"alice", "bob"}) (init (some 0)) sameMillisecond).map
      (fun s => decide (Quiescent {"alice", "bob"} s)) = some true by decide)
  exact ⟨s, hrun, star_converges _ _ sameMillisecond (by decide) hrun (of_decide_eq_true hq)⟩

/-- The same run with a client whose id is greater than `server`: it keeps its own value, while the
hub and the other client hold the one that reached the hub last. -/
def sameMillisecondZoe : List (Act ℤ) :=
  [.set "zoe" (some 1) 1, .set "alice" (some 2) 1, .hubApply "zoe", .hubApply "alice",
    .merge "zoe", .merge "zoe", .merge "alice", .merge "alice"]

/-- A tie is dropped, and they do not. -/
theorem dropped_tie_diverges :
    ∃ s, Machine.exec (step {"alice", "zoe"}) (init (some 0)) sameMillisecondZoe = some s ∧
      Quiescent {"alice", "zoe"} s ∧ ¬ Agree {"alice", "zoe"} s := by
  obtain ⟨s, hrun, h⟩ := Machine.exists_exec_of_test
    (show (Machine.exec (step {"alice", "zoe"}) (init (some 0)) sameMillisecondZoe).map
      (fun s => decide (Quiescent {"alice", "zoe"} s ∧ ¬ Agree {"alice", "zoe"} s)) = some true by
        decide)
  exact ⟨s, hrun, of_decide_eq_true h⟩

/-- With client ids smaller than the hub's there is no tie to drop, so every run converges. -/
theorem star_converges_of_ids_lt (ids : Finset String) (hids : ∀ c ∈ ids, JsString.Lt c "server")
    (initialValue : Option V) (acts : List (Act V))
    (hrun : Machine.exec (step ids) (init initialValue) acts = some s) (hq : Quiescent ids s) :
    Agree ids s := by
  have hties : ∀ (s : Star V) (a : Act V), KeepsTies ids s a := by
    intro s a
    cases a with
    | merge client => exact fun hc _ _ _ hnlt => absurd (hids client hc) hnlt
    | set _ _ _ => trivial
    | hubApply _ => trivial
  exact (inv_exec (Machine.guarded_of_forall hties _ _) hrun).agree hq

end RegisterStar

end Datasole
