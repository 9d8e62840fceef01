import Mathlib.Logic.Function.Basic
import Datasole.Common.Machine
import Datasole.Shared.Crdt.LWWRegister

/-!
# Causality of the register

Replicas that write with the time of their own clocks, apply each other's operations and merge each
other's states in any order. A clock never goes back, but may be behind another by any amount.

The timestamp of a `set` is the clock alone, whatever the replica has seen. So a `set` is lost to a
write that the replica has already applied or merged, if that write has come from a clock that is
ahead. `supersedes_iff` says when this does not happen.
-/

namespace Datasole

namespace RegisterCausality

variable {V : Type*}

/-- A write, as a register holds it: the timestamp and the value. -/
abbrev Write (V : Type*) := Timestamp × Option V

/-- The replicas by node id and what their clocks have shown, and the operations and states that
have been sent. `observed` records the writes that a replica has made, applied or merged. -/
structure Cluster (V : Type*) where
  registers : String → LWWRegister V
  clocks : String → Timestamp
  operations : List (CrdtOperation V)
  states : List (CrdtState (Option V))
  observed : String → List (Write V)

inductive Act (V : Type*) where
  /-- `set` without a timestamp, when the replica's clock shows `now`. -/
  | set (replica : String) (newValue : Option V) (now : Timestamp)
  /-- The replica sends its state. -/
  | send (replica : String)
  | apply (replica : String) (operation : ℕ)
  | merge (replica : String) (state : ℕ)

/-- Each replica starts with a value and a timestamp, while its clock shows some time. -/
def init (initialValue : String → Option V) (timestamp clock : String → Timestamp) : Cluster V where
  registers id := LWWRegister.new id (initialValue id) (timestamp id)
  clocks := clock
  operations := []
  states := []
  observed _ := []

def observe (s : Cluster V) (replica : String) (register : LWWRegister V)
    (write : Write V) : Cluster V :=
  { s with
    registers := Function.update s.registers replica register
    observed := Function.update s.observed replica (s.observed replica ++ [write]) }

def step (s : Cluster V) : Act V → Option (Cluster V)
  | .set replica newValue now =>
    if s.clocks replica ≤ now then
      let (register, op) := (s.registers replica).set newValue now
      some { observe s replica register (op.timestamp, op.value) with
        clocks := Function.update s.clocks replica now
        operations := s.operations ++ [op] }
    else none
  | .send replica => some { s with states := s.states ++ [(s.registers replica).state] }
  | .apply replica operation =>
    match s.operations[operation]? with
    | none => none
    | some op => some (observe s replica ((s.registers replica).apply op) (op.timestamp, op.value))
  | .merge replica state =>
    match s.states[state]? with
    | none => none
    | some remote =>
      some (observe s replica ((s.registers replica).merge remote)
        (remote.metadata.timestamp, remote.value))

/-- A replica ends with the value of the write, unless it keeps a newer write of its own. -/
def EndsWith (start final : LWWRegister V) (write : Write V) : Prop :=
  final.value = write.2 ∨ (write.1 < start.timestamp ∧ final.held = start.held)

/-- The later write wins over the earlier one wherever the operations of both are applied. -/
def Supersedes (later earlier : Write V) : Prop :=
  ∀ (start : LWWRegister V) (op op' : CrdtOperation V), (op.timestamp, op.value) = later →
    (op'.timestamp, op'.value) = earlier →
      EndsWith start ((start.apply op').apply op) later ∧
      EndsWith start ((start.apply op).apply op') later

/-- What a replica holds is its initial write, no newer than its clock, or a write it has
observed. -/
def Inv (s : Cluster V) : Prop :=
  ∀ id, (s.registers id).timestamp ≤ s.clocks id ∨ (s.registers id).held ∈ s.observed id

variable {s t : Cluster V}

/-- Observing a write, as long as the register takes it or stays as it was. -/
theorem Inv.observe (h : Inv s) (id : String) {register : LWWRegister V} {write : Write V}
    (hheld : register.held = (s.registers id).held ∨ register.held = write) :
    Inv (observe s id register write) := by
  intro id'
  by_cases heq : id' = id
  · subst heq
    simp only [RegisterCausality.observe, Function.update_self]
    rcases hheld with hheld | hheld
    · rw [hheld, show register.timestamp = (s.registers id').timestamp from congrArg Prod.fst hheld]
      exact (h id').imp_right fun hmem => List.mem_append_left _ hmem
    · exact .inr (hheld ▸ List.mem_append_right _ (List.mem_singleton_self _))
  · simp only [RegisterCausality.observe, Function.update_of_ne heq]
    exact h id'

/-- Every step keeps the invariant. -/
theorem inv_step {a : Act V} (h : Inv s) (hs : step s a = some t) : Inv t := by
  cases a with
  | set replica newValue now =>
    simp only [step, Option.ite_none_right_eq_some] at hs
    obtain ⟨hclock, hs⟩ := hs
    cases hs
    have hheld := (s.registers replica).held_set newValue now
    have hobserve :
        Inv (observe s replica ((s.registers replica).set newValue now).1 (now, newValue)) :=
      h.observe replica ((Newest.put_eq_or _ _).imp hheld.trans hheld.trans)
    intro id
    refine (hobserve id).imp_left fun hle => hle.trans ?_
    -- only the clock of the replica that writes has moved, and forward
    by_cases heq : id = replica
    · subst heq
      simpa [observe] using hclock
    · simp [observe, Function.update_of_ne heq]
  | send replica => cases hs; exact h
  | apply replica operation =>
    simp only [step] at hs
    split at hs
    · cases hs
    next op _ =>
    cases hs
    have hheld := (s.registers replica).held_apply op
    exact h.observe replica ((Newest.put_eq_or _ _).imp hheld.trans hheld.trans)
  | merge replica state =>
    simp only [step] at hs
    split at hs
    · cases hs
    next remote _ =>
    cases hs
    have hheld := (s.registers replica).held_merge remote
    refine h.observe replica ?_
    split at hheld
    · exact .inr hheld
    · exact .inl hheld

/-- Applying two writes to a register. -/
theorem held_apply_apply (start : LWWRegister V) (op op' : CrdtOperation V) :
    ((start.apply op).apply op').held = Newest.put Prod.fst
      (Newest.put Prod.fst start.held (op.timestamp, op.value)) (op'.timestamp, op'.value) := by
  rw [LWWRegister.held_apply, LWWRegister.held_apply]

/-- A write supersedes another exactly if it is newer or has the same value. -/
theorem supersedes_iff_lt_or_eq (later earlier : Write V) :
    Supersedes later earlier ↔ earlier.1 < later.1 ∨ earlier.2 = later.2 := by
  obtain ⟨t, v⟩ := later
  obtain ⟨u, w⟩ := earlier
  constructor
  · intro h
    by_contra hnot
    obtain ⟨hle, hne⟩ := not_or.mp hnot
    have hle : t ≤ u := not_lt.mp hle
    -- a replica with nothing newer, to which the earlier write comes last
    obtain ⟨-, hends⟩ := h (LWWRegister.new "" none t) ⟨.lwwRegister, "", t, .set, none, v⟩
      ⟨.lwwRegister, "", u, .set, none, w⟩ rfl rfl
    have hheld : (((LWWRegister.new "" none t).apply ⟨.lwwRegister, "", t, .set, none, v⟩).apply
        ⟨.lwwRegister, "", u, .set, none, w⟩).held = (u, w) := by
      rw [held_apply_apply, show Newest.put Prod.fst (LWWRegister.new "" none t).held (t, v) = (t, v) from
        if_pos le_rfl]
      exact if_pos hle
    rcases hends with hvalue | ⟨hlt, -⟩
    · exact hne ((congrArg Prod.snd hheld).symm.trans hvalue)
    · exact lt_irrefl t hlt
  · rintro h start op op' hop hop'
    have hfirst := held_apply_apply start op' op
    have hsecond := held_apply_apply start op op'
    rw [hop, hop'] at hfirst hsecond
    have hends : ∀ final : LWWRegister V, (final.held = (t, v) ∨ (w = v ∧ final.held = (u, w)) ∨
        (t < start.timestamp ∧ final.held = start.held)) → EndsWith start final (t, v) := by
      rintro final (hheld | ⟨heq, hheld⟩ | hkept)
      · exact .inl (congrArg Prod.snd hheld)
      · exact .inl ((congrArg Prod.snd hheld).trans heq)
      · exact .inr hkept
    refine ⟨hends _ ?_, hends _ ?_⟩
    · rw [hfirst]
      simp only [Newest.put, LWWRegister.held]
      grind
    · rw [hsecond]
      simp only [Newest.put, LWWRegister.held]
      grind

/-- In every run of any number of replicas with any clocks, whenever a replica executes `set`: its
value is the new one right after the call, and the new write wins over every write that the replica
has observed wherever the operations of both are applied, exactly if each of these is older than
what the replica's clock shows or has the new value. -/
theorem supersedes_iff (initialValue : String → Option V) (timestamp clock : String → Timestamp)
    (hinit : ∀ id, timestamp id ≤ clock id) (acts : List (Act V))
    (hrun : Machine.exec step (init initialValue timestamp clock) acts = some s) (replica : String)
    (newValue : Option V) (now : Timestamp) (hnow : s.clocks replica ≤ now) :
    (∀ w ∈ s.observed replica, ((s.registers replica).set newValue now).1.value = newValue ∧
        Supersedes (now, newValue) w) ↔
      ∀ w ∈ s.observed replica, w.1 < now ∨ w.2 = newValue := by
  have h : Inv s := Machine.exec_invariant (fun _ _ _ h hs => inv_step h hs) (fun id => .inl (hinit id))
    hrun
  refine ⟨fun hall w hw => (supersedes_iff_lt_or_eq _ w).mp (hall w hw).2, fun hall w hw => ?_⟩
  refine ⟨?_, (supersedes_iff_lt_or_eq _ w).mpr (hall w hw)⟩
  have hheld := (s.registers replica).held_set newValue now
  by_cases haccept : (s.registers replica).timestamp ≤ now
  · exact congrArg Prod.snd (hheld.trans (if_pos haccept))
  · -- the write that is kept has the same value
    have hkept : ((s.registers replica).set newValue now).1.value = (s.registers replica).value :=
      congrArg Prod.snd (hheld.trans (if_neg haccept))
    rcases h replica with hle | hmem
    · exact absurd (hle.trans hnow) haccept
    · rcases hall _ hmem with hlt | heq
      · exact absurd hlt.le haccept
      · exact hkept.trans heq

/-- `B`, whose clock is ahead of that of `A`, applies a write of `A` and sets a value of its own. -/
theorem later_set_supersedes : ∃ s, Machine.exec step
      (init (fun _ => none) (fun _ => 0) fun _ => 0) [.set "A" (some 1) 50, .apply "B" 0] = some s ∧
    ∀ w ∈ s.observed "B", ((s.registers "B").set (some 2) 100).1.value = some 2 ∧
      Supersedes (100, some 2) w := by
  obtain ⟨s, hrun, hend⟩ := Machine.exists_exec_of_test
    (show (Machine.exec step (init (fun _ => none) (fun _ => 0) fun _ => 0)
      [.set "A" (some 1) 50, .apply "B" 0]).map (fun s => decide
        (s.clocks "B" ≤ 100 ∧ ∀ w ∈ s.observed "B", w.1 < 100 ∨ w.2 = some 2)) = some true by
      decide +kernel)
  obtain ⟨hclock, hall⟩ := of_decide_eq_true hend
  exact ⟨s, hrun, (supersedes_iff (fun _ => none) (fun _ => 0) (fun _ => 0) (fun _ => le_rfl)
    [.set "A" (some 1) 50, .apply "B" 0] hrun "B" (some 2) 100 hclock).mpr hall⟩

/-- The clock of `A` is ahead: `B` applies its write and then sets a value, which is lost
everywhere. -/
theorem set_behind_is_lost : ∃ s, Machine.exec step
      (init (fun _ => none) (fun _ => 0) fun _ => 0) [.set "A" (some 1) 100, .apply "B" 0] = some s ∧
    s.clocks "B" ≤ 50 ∧ (100, some 1) ∈ s.observed "B" ∧
    ((s.registers "B").set (some 2) 50).1.value = some 1 ∧
    ¬ Supersedes (50, some 2) (100, some 1) := by
  obtain ⟨s, hrun, hend⟩ := Machine.exists_exec_of_test
    (show (Machine.exec step (init (fun _ => none) (fun _ => 0) fun _ => 0)
      [.set "A" (some 1) 100, .apply "B" 0]).map (fun s => decide
        (s.clocks "B" ≤ 50 ∧ (100, some 1) ∈ s.observed "B" ∧
          ((s.registers "B").set (some 2) 50).1.value = some 1)) = some true by decide +kernel)
  obtain ⟨hclock, hobserved, hvalue⟩ := of_decide_eq_true hend
  refine ⟨s, hrun, hclock, hobserved, hvalue, fun h => ?_⟩
  rcases (supersedes_iff_lt_or_eq _ _).mp h with hlt | heq
  · exact absurd hlt (by decide +kernel)
  · exact absurd heq (by decide)

end RegisterCausality

end Datasole
