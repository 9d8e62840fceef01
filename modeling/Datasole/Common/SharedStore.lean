import Mathlib.Data.Set.Lattice
import Mathlib.Order.CompletePartialOrder
import Mathlib.Logic.Function.Basic
import Datasole.Common.Machine

/-!
# Programs over a shared store

Owners `ι` that use one store with keys `κ`, values `ν` and listeners by key. A program makes one
call on the store after the other and may go on by what it reads; any number of programs of any
owners run interleaved.

If each owner stays within keys of its own, no owner notices another: `step_frame` says it of one
step, `exec_alone` of a whole run, which an owner cannot tell from the run of its own programs
alone.
-/

namespace SharedStore

/-- Calls on the store. -/
inductive Program (κ ν : Type*) where
  | done
  | get (k : κ) (next : Option ν → Program κ ν)
  | set (k : κ) (v : ν) (next : Program κ ν)
  | delete (k : κ) (next : Program κ ν)
  | subscribe (k : κ) (next : Program κ ν)
  | unsubscribe (k : κ) (next : Program κ ν)
  | publish (k : κ) (v : ν) (next : Program κ ν)

/-- Every call of the program, whatever it reads, is on a key of a set. -/
def Program.Within {κ ν : Type*} (keys : Set κ) : Program κ ν → Prop
  | done => True
  | get k next => k ∈ keys ∧ ∀ v, (next v).Within keys
  | set k _ next | delete k next | subscribe k next | unsubscribe k next | publish k _ next =>
    k ∈ keys ∧ next.Within keys

/-- What an owner gets to see: a value that it reads, or a value that one of its listeners is
given. -/
inductive Sight (κ ν : Type*) where
  | read (k : κ) (v : Option ν)
  | notified (k : κ) (v : ν)
deriving DecidableEq

/-- The store, the programs of each owner and what each has seen. -/
structure State (ι κ ν : Type*) where
  entries : κ → Option ν
  listeners : List (ι × κ)
  programs : ι → List (Program κ ν)
  seen : ι → List (Sight κ ν)

inductive Act (ι κ ν : Type*) where
  | start (i : ι) (p : Program κ ν)
  /-- The next call of the owner's `n`-th program. -/
  | advance (i : ι) (n : ℕ)

def Act.owner {ι κ ν : Type*} : Act ι κ ν → ι
  | start i _ | advance i _ => i

variable {ι κ ν : Type*}

def init : State ι κ ν where
  entries _ := none
  listeners := []
  programs _ := []
  seen _ := []

section

variable [DecidableEq ι]

namespace State

def addProgram (s : State ι κ ν) (i : ι) (p : Program κ ν) : State ι κ ν :=
  { s with programs := Function.update s.programs i (s.programs i ++ [p]) }

theorem programs_addProgram (s : State ι κ ν) (i : ι) (p : Program κ ν) :
    (s.addProgram i p).programs = Function.update s.programs i (s.programs i ++ [p]) := rfl

def setProgram (s : State ι κ ν) (i : ι) (n : ℕ) (p : Program κ ν) : State ι κ ν :=
  { s with programs := Function.update s.programs i ((s.programs i).set n p) }

theorem programs_setProgram (s : State ι κ ν) (i : ι) (n : ℕ) (p : Program κ ν) :
    (s.setProgram i n p).programs = Function.update s.programs i ((s.programs i).set n p) := rfl

def see (s : State ι κ ν) (i : ι) (sight : Sight κ ν) : State ι κ ν :=
  { s with seen := Function.update s.seen i (s.seen i ++ [sight]) }

variable [DecidableEq κ]

def put (s : State ι κ ν) (k : κ) (v : Option ν) : State ι κ ν :=
  { s with entries := Function.update s.entries k v }

/-- Every listener at the key is given the value. -/
def notify (s : State ι κ ν) (k : κ) (v : ν) : State ι κ ν :=
  { s with seen := fun j => s.seen j ++ List.replicate (s.listeners.count (j, k)) (.notified k v) }

end State

variable [DecidableEq κ]

/-- One call of an owner. -/
def call (s : State ι κ ν) (i : ι) (n : ℕ) : Program κ ν → Option (State ι κ ν)
  | .done => none
  | .get k next => some ((s.see i (.read k (s.entries k))).setProgram i n (next (s.entries k)))
  | .set k v next => some ((s.put k (some v)).setProgram i n next)
  | .delete k next => some ((s.put k none).setProgram i n next)
  | .subscribe k next => some ({ s with listeners := s.listeners ++ [(i, k)] }.setProgram i n next)
  | .unsubscribe k next => some ({ s with listeners := s.listeners.erase (i, k) }.setProgram i n next)
  | .publish k v next => some ((s.notify k v).setProgram i n next)

def step (s : State ι κ ν) : Act ι κ ν → Option (State ι κ ν)
  | .start i p => some (s.addProgram i p)
  | .advance i n =>
    match (s.programs i)[n]? with
    | none => none
    | some p => call s i n p

/-- The step reads the entry of a key. -/
def Reads (s : State ι κ ν) (a : Act ι κ ν) (k : κ) : Prop :=
  match a with
  | .start _ _ => False
  | .advance i n => ∃ next, (s.programs i)[n]? = some (.get k next)

end

/-- Programs and listeners are where they belong. -/
structure Placed (keys : ι → Set κ) (s : State ι κ ν) : Prop where
  programs : ∀ i, ∀ p ∈ s.programs i, p.Within (keys i)
  listeners : ∀ i k, (i, k) ∈ s.listeners → k ∈ keys i

/-- Two states are the same to an owner. -/
structure Agree [DecidableEq ι] (keys : ι → Set κ) (i : ι) (s t : State ι κ ν) : Prop where
  entries : ∀ k ∈ keys i, t.entries k = s.entries k
  listeners : t.listeners.filter (·.1 = i) = s.listeners.filter (·.1 = i)
  programs : t.programs i = s.programs i
  seen : t.seen i = s.seen i

variable {keys : ι → Set κ} {i j : ι} {s t u : State ι κ ν} {n : ℕ} {p : Program κ ν}

/-- In the beginning no program is started and no listener is there. -/
theorem placed_init : Placed keys (init : State ι κ ν) where
  programs _ _ h := by cases h
  listeners _ _ h := by cases h

variable [DecidableEq ι]

@[simp] theorem Agree.refl (s : State ι κ ν) : Agree keys i s s := ⟨fun _ _ => rfl, rfl, rfl, rfl⟩

theorem Agree.symm (h : Agree keys i s t) : Agree keys i t s :=
  ⟨fun k hk => (h.entries k hk).symm, h.listeners.symm, h.programs.symm, h.seen.symm⟩

theorem Agree.trans (h : Agree keys i s t) (h' : Agree keys i t u) : Agree keys i s u :=
  ⟨fun k hk => (h'.entries k hk).trans (h.entries k hk), h'.listeners.trans h.listeners,
    h'.programs.trans h.programs, h'.seen.trans h.seen⟩

/-! ## One call -/

/-- A program that goes on stays within the keys of its owner. -/
theorem Placed.setProgram (h : Placed keys s) (hp : p.Within (keys i)) :
    Placed keys (s.setProgram i n p) where
  listeners := h.listeners
  programs j q hq := by
    by_cases hj : j = i
    · subst hj
      rw [State.programs_setProgram, Function.update_self] at hq
      rcases List.mem_or_eq_of_mem_set hq with hq | rfl
      · exact h.programs j q hq
      · exact hp
    · rw [State.programs_setProgram, Function.update_of_ne hj] at hq
      exact h.programs j q hq

/-- Whatever happens to the owner's own program is not noticed by another owner. -/
theorem Agree.setProgram (h : Agree keys j s t) (hne : j ≠ i) :
    Agree keys j s (t.setProgram i n p) where
  __ := h
  programs := (Function.update_of_ne hne ..).trans h.programs

/-- The same program goes on in the same way in states that agree. -/
theorem Agree.setProgram_both (h : Agree keys i s t) :
    Agree keys i (s.setProgram i n p) (t.setProgram i n p) where
  __ := h
  programs := by
    simp only [State.setProgram, Function.update_self, h.programs]

variable [DecidableEq κ]

/-- A call of a program within the keys of its owner keeps everything in its place. -/
theorem placed_call (h : Placed keys s) (hp : p.Within (keys i)) (hcall : call s i n p = some t) :
    Placed keys t := by
  cases p with
  | done => cases hcall
  | get k next =>
    cases hcall
    exact Placed.setProgram ⟨h.programs, h.listeners⟩ (hp.2 _)
  | set k v next | delete k next | publish k v next =>
    cases hcall
    exact Placed.setProgram ⟨h.programs, h.listeners⟩ hp.2
  | subscribe k next =>
    cases hcall
    refine Placed.setProgram ⟨h.programs, fun i' k' hmem => ?_⟩ hp.2
    rcases List.mem_append.mp hmem with hmem | hmem
    · exact h.listeners i' k' hmem
    · cases List.mem_singleton.mp hmem
      exact hp.1
  | unsubscribe k next =>
    cases hcall
    refine Placed.setProgram ⟨h.programs, fun i' k' hmem => ?_⟩ hp.2
    exact h.listeners i' k' (List.mem_of_mem_erase hmem)

/-- A call on keys of one owner is not noticed by another. -/
theorem agree_call (h : Placed keys s) (hp : p.Within (keys i)) (hne : j ≠ i)
    (hdisjoint : Disjoint (keys i) (keys j)) (hcall : call s i n p = some t) : Agree keys j s t := by
  have hnot : ∀ k ∈ keys i, k ∉ keys j := fun k hi hj => Set.disjoint_left.mp hdisjoint hi hj
  have hput : ∀ k ∈ keys i, ∀ v, Agree keys j s (s.put k v) := by
    refine fun k hk v => ⟨fun k' hk' => Function.update_of_ne ?_ .., rfl, rfl, rfl⟩
    rintro rfl
    exact hnot k' hk hk'
  cases p with
  | done => cases hcall
  | get k next =>
    cases hcall
    have hsee : Agree keys j s (s.see i (.read k (s.entries k))) :=
      ⟨fun _ _ => rfl, rfl, rfl, Function.update_of_ne hne ..⟩
    exact hsee.setProgram hne
  | set k v next => cases hcall; exact (hput k hp.1 _).setProgram hne
  | delete k next => cases hcall; exact (hput k hp.1 _).setProgram hne
  | subscribe k next =>
    cases hcall
    refine Agree.setProgram ⟨fun _ _ => rfl, ?_, rfl, rfl⟩ hne
    rw [List.filter_append, List.filter_cons_of_neg (by simpa using hne.symm), List.filter_nil,
      List.append_nil]
  | unsubscribe k next =>
    cases hcall
    refine Agree.setProgram ⟨fun _ _ => rfl, ?_, rfl, rfl⟩ hne
    have hmem : (i, k) ∉ s.listeners.filter (·.1 = j) := by
      simpa [List.mem_filter] using fun _ => hne.symm
    rw [← List.erase_filter, List.erase_of_not_mem hmem]
  | publish k v next =>
    cases hcall
    refine Agree.setProgram ⟨fun _ _ => rfl, rfl, rfl, ?_⟩ hne
    -- the other owner does not listen at the key
    have hcount : s.listeners.count (j, k) = 0 :=
      List.count_eq_zero.mpr fun hmem => hnot k hp.1 (h.listeners j k hmem)
    simp [State.notify, hcount]

/-- An owner's call goes the same way in states that agree for the owner. -/
theorem exists_call (hagree : Agree keys i s u) (hp : p.Within (keys i))
    (hcall : call s i n p = some t) : ∃ w, call u i n p = some w ∧ Agree keys i t w := by
  cases p with
  | done => cases hcall
  | get k next =>
    cases hcall
    refine ⟨_, rfl, ?_⟩
    rw [hagree.entries k hp.1]
    refine Agree.setProgram_both { hagree with seen := ?_ }
    simp only [State.see, Function.update_self, hagree.seen]
  | set k v next | delete k next =>
    cases hcall
    refine ⟨_, rfl, Agree.setProgram_both { hagree with entries := fun k' hk' => ?_ }⟩
    simp only [State.put, Function.update_apply, hagree.entries k' hk']
  | subscribe k next =>
    cases hcall
    refine ⟨_, rfl, Agree.setProgram_both { hagree with listeners := ?_ }⟩
    rw [List.filter_append, List.filter_append, hagree.listeners]
  | unsubscribe k next =>
    cases hcall
    refine ⟨_, rfl, Agree.setProgram_both { hagree with listeners := ?_ }⟩
    rw [← List.erase_filter, ← List.erase_filter, hagree.listeners]
  | publish k v next =>
    cases hcall
    refine ⟨_, rfl, Agree.setProgram_both { hagree with seen := ?_ }⟩
    have hcount : u.listeners.count (i, k) = s.listeners.count (i, k) := by
      rw [← List.count_filter (p := fun l => l.1 = i) (by simp), hagree.listeners,
        List.count_filter (by simp)]
    simp only [State.notify, hcount, hagree.seen]

/-! ## Steps and runs -/

/-- The program that a step starts is within the keys of its owner. -/
def Act.Within (keys : ι → Set κ) : Act ι κ ν → Prop
  | .start i p => p.Within (keys i)
  | .advance _ _ => True

variable {a : Act ι κ ν}

/-- A step that starts no program out of place keeps everything in its place. -/
theorem placed_step (h : Placed keys s) (ha : a.Within keys) (hs : step s a = some t) :
    Placed keys t := by
  cases a with
  | start i p =>
    cases hs
    refine ⟨fun j q hq => ?_, h.listeners⟩
    by_cases hj : j = i
    · subst hj
      rw [State.programs_addProgram, Function.update_self] at hq
      rcases List.mem_append.mp hq with hq | hq
      · exact h.programs j q hq
      · exact List.mem_singleton.mp hq ▸ ha
    · rw [State.programs_addProgram, Function.update_of_ne hj] at hq
      exact h.programs j q hq
  | advance i n =>
    simp only [step] at hs
    split at hs
    · cases hs
    · next p hp => exact placed_call h (h.programs i p (List.mem_of_getElem? hp)) hs

/-- Frame rule: a step of one owner is not noticed by another, and reads none of its keys. -/
theorem step_frame (hdisjoint : Pairwise fun i j => Disjoint (keys i) (keys j)) (h : Placed keys s)
    (hs : step s a = some t) (hne : j ≠ a.owner) :
    Agree keys j s t ∧ ∀ k ∈ keys j, ¬ Reads s a k := by
  cases a with
  | start i p =>
    cases hs
    exact ⟨⟨fun _ _ => rfl, rfl, Function.update_of_ne hne .., rfl⟩, fun _ _ => id⟩
  | advance i n =>
    have hd : Disjoint (keys i) (keys j) := hdisjoint hne.symm
    simp only [step] at hs
    split at hs
    · cases hs
    · next p hp =>
      have hwithin := h.programs i p (List.mem_of_getElem? hp)
      refine ⟨agree_call h hwithin hne hd hs, ?_⟩
      rintro k hk ⟨next, hget⟩
      rw [hp] at hget
      cases hget
      exact Set.disjoint_left.mp hd hwithin.1 hk

/-- A step of an owner can be taken from any state that agrees for the owner. -/
theorem exists_step (h : Placed keys s) (hagree : Agree keys a.owner s u)
    (hs : step s a = some t) : ∃ w, step u a = some w ∧ Agree keys a.owner t w := by
  cases a with
  | start i p =>
    cases hs
    refine ⟨_, rfl, { hagree with programs := ?_ }⟩
    have hprograms : u.programs i = s.programs i := hagree.programs
    simp only [Act.owner, State.programs_addProgram, Function.update_self, hprograms]
  | advance i n =>
    have hprograms : u.programs i = s.programs i := hagree.programs
    simp only [step, hprograms] at hs ⊢
    split at hs
    · cases hs
    · next p hp =>
      exact exists_call hagree (h.programs i p (List.mem_of_getElem? hp)) hs

/-- In every run that starts programs within the keys of their owners, everything is in its
place. -/
theorem placed_exec {acts : List (Act ι κ ν)} (hacts : ∀ a ∈ acts, a.Within keys)
    (hrun : Machine.exec step init acts = some s) : Placed keys s :=
  Machine.exec_invariant_guarded (fun _ _ _ h ha hs => placed_step h ha hs) placed_init
    (Machine.guarded_of_mem hacts init) hrun

/-- Noninterference: to an owner, every run is like the run of its own actions alone. -/
theorem exec_alone (hdisjoint : Pairwise fun i j => Disjoint (keys i) (keys j))
    {acts : List (Act ι κ ν)} (hacts : ∀ a ∈ acts, a.Within keys)
    (hrun : Machine.exec step init acts = some s) (i : ι) :
    ∃ t, Machine.exec step init (acts.filter (·.owner = i)) = some t ∧ Agree keys i s t := by
  have hwithin : Machine.Guarded step (fun _ a => a.Within keys) init acts :=
    Machine.guarded_of_mem hacts init
  suffices hview : ∃ t, Machine.exec step init (acts.filterMap (Option.guard (·.owner = i))) = some t ∧
      Placed keys s ∧ Agree keys i s t by
    obtain ⟨t, ht, -, hagree⟩ := hview
    exact ⟨t, by rw [← List.filterMap_eq_filter, ht], hagree⟩
  refine Machine.exists_exec_filterMap (R := fun s u => Placed keys s ∧ Agree keys i s u) ?_
    ⟨placed_init, .refl _⟩ hwithin hrun
  intro s a t u ⟨hplaced, hagree⟩ ha hs
  have hplaced' := placed_step hplaced ha hs
  by_cases howner : a.owner = i
  · subst howner
    obtain ⟨w, hw, hagree'⟩ := exists_step hplaced hagree hs
    exact .inr ⟨a, w, Option.guard_eq_some_iff.mpr ⟨rfl, by simp⟩, hw, hplaced', hagree'⟩
  · have hframe := (step_frame hdisjoint hplaced hs (Ne.symm howner)).1
    exact .inl ⟨Option.guard_eq_none_iff.mpr (by simpa using howner), hplaced',
      hframe.symm.trans hagree⟩

end SharedStore
