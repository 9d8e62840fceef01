import Mathlib.Logic.Function.Basic
import Datasole.Common.LiveSet
import Datasole.Common.Machine

/-!
# Rounds of callbacks

Code that lets others register callbacks in sets, and that calls the callbacks of a set one after
the other. What a callback does is not known: it may register and remove callbacks, of its own set
or another one, and start rounds, also of the set that it is called from. The code runs to
completion, so the rounds in progress are a stack, and only the innermost one goes on.

`calls_of_completed` counts the calls of a round that has gone to its end. Whoever is registered at
that moment has been called, and a callback is called a second time only if it has been removed and
registered again.
-/

/-- A call made in a round. -/
structure Call (ι β : Type*) where
  round : ℕ
  callee : ι
  arg : β

/-- A round in progress: where its iterator is, and whether a callback is being called. -/
structure Round (κ β : Type*) where
  number : ℕ
  key : κ
  arg : β
  index : ℕ
  calling : Bool

structure Rounds (κ ι β : Type*) where
  sets : κ → LiveSet ι
  /-- The rounds in progress, innermost first. -/
  stack : List (Round κ β)
  /-- How many rounds there have been. -/
  count : ℕ
  calls : List (Call ι β)

namespace Rounds

variable {κ ι β : Type*}

inductive Act (κ ι β : Type*) where
  | add (key : κ) (i : ι)
  | delete (key : κ) (i : ι)
  | start (key : κ) (arg : β)
  /-- A round over no set: it is over at once. -/
  | skip
  /-- The innermost round goes on: it calls the next callback, or is over. -/
  | next
  /-- The call in progress is over. -/
  | finish
  /-- The call in progress ends with an error, which its round does not catch. -/
  | abort

/-- The code that runs is a callback's, or nobody's who is in a round. -/
def Free (s : Rounds κ ι β) : Prop := s.stack.head?.all Round.calling = true

instance (s : Rounds κ ι β) : Decidable s.Free := inferInstanceAs (Decidable (_ = true))

def init : Rounds κ ι β := ⟨fun _ => .empty, [], 0, []⟩

def Running (s : Rounds κ ι β) (n : ℕ) : Prop := ∃ r ∈ s.stack, r.number = n

/-! ## The stack and the calls -/

variable {s t : Rounds κ ι β}

/-- The rounds have different numbers, smaller than the number of rounds, and iterators within the
sets. -/
structure Inv (s : Rounds κ ι β) : Prop where
  number_lt : ∀ r ∈ s.stack, r.number < s.count
  nodup : (s.stack.map Round.number).Nodup
  index_le : ∀ r ∈ s.stack, r.index ≤ (s.sets r.key).slots.length
  round_lt : ∀ c ∈ s.calls, c.round < s.count

/-- Without rounds there is nothing to keep. -/
theorem inv_init : (init : Rounds κ ι β).Inv where
  number_lt _ h := absurd h List.not_mem_nil
  nodup := List.nodup_nil
  index_le _ h := absurd h List.not_mem_nil
  round_lt _ h := absurd h List.not_mem_nil

/-- Sets that have no fewer slots, and fewer rounds. -/
theorem Inv.of_sublist {stack : List (Round κ β)} {sets : κ → LiveSet ι} (h : s.Inv)
    (hstack : stack.Sublist s.stack)
    (hsets : ∀ key, (s.sets key).slots.length ≤ (sets key).slots.length) :
    Inv { s with sets, stack } where
  number_lt r hr := h.number_lt r (hstack.subset hr)
  nodup := h.nodup.sublist (hstack.map _)
  index_le r hr := Nat.le_trans (h.index_le r (hstack.subset hr)) (hsets r.key)
  round_lt := h.round_lt

/-- The innermost round at another place. -/
theorem Inv.cons_index {r : Round κ β} {rest : List (Round κ β)} (h : s.Inv)
    (hstack : s.stack = r :: rest)
    {index : ℕ} (hindex : index ≤ (s.sets r.key).slots.length) (calling : Bool) :
    Inv { s with stack := { r with index, calling } :: rest } where
  number_lt r' hr' := by
    rcases List.mem_cons.mp hr' with rfl | hr'
    · exact h.number_lt r (hstack ▸ List.mem_cons_self)
    · exact h.number_lt r' (hstack ▸ List.mem_cons_of_mem r hr')
  nodup := by
    have hnodup := h.nodup
    rw [hstack] at hnodup
    exact hnodup
  index_le r' hr' := by
    rcases List.mem_cons.mp hr' with rfl | hr'
    · exact hindex
    · exact h.index_le r' (hstack ▸ List.mem_cons_of_mem r hr')
  round_lt := h.round_lt

/-- Only one round on the stack has a given number. -/
theorem Inv.not_mem_rest (h : s.Inv) {r r' : Round κ β} {rest : List (Round κ β)}
    (hstack : s.stack = r :: rest) (hr' : r' ∈ rest) : r'.number ≠ r.number := by
  have hnodup := h.nodup
  rw [hstack, List.map_cons, List.nodup_cons] at hnodup
  intro heq
  exact hnodup.1 (List.mem_map.mpr ⟨r', hr', heq⟩)

/-- A set that is replaced by one with at least as many slots leaves every iterator within its
set. -/
theorem length_le_update [DecidableEq κ] {sets : κ → LiveSet ι} {key : κ} {set : LiveSet ι}
    (h : (sets key).slots.length ≤ set.slots.length) (key' : κ) :
    (sets key').slots.length ≤ (Function.update sets key set key').slots.length := by
  by_cases hkey : key' = key
  · subst hkey
    rwa [Function.update_self]
  · exact Nat.le_of_eq (by rw [Function.update_of_ne hkey])

variable [DecidableEq ι]

/-- How often a round has called a callback. -/
def callsOf (calls : List (Call ι β)) (n : ℕ) (i : ι) : ℕ :=
  calls.countP fun c => c.round = n ∧ c.callee = i

/-- One more call counts for its own round and callee alone. -/
theorem callsOf_concat (calls : List (Call ι β)) (c : Call ι β) (n : ℕ) (i : ι) :
    callsOf (calls ++ [c]) n i = callsOf calls n i + if c.round = n ∧ c.callee = i then 1 else 0 := by
  simp only [callsOf, List.countP_append, List.countP_cons, List.countP_nil, Nat.zero_add,
    decide_eq_true_eq]

/-- No call of a round is made before it is started. -/
theorem Inv.callsOf_count (h : s.Inv) (i : ι) : callsOf s.calls s.count i = 0 := by
  refine List.countP_eq_zero.mpr fun c hc hround => ?_
  have hlt := h.round_lt c hc
  simp only [decide_eq_true_eq] at hround
  omega

/-! ## Steps -/

variable [DecidableEq κ]

def step (s : Rounds κ ι β) : Act κ ι β → Option (Rounds κ ι β)
  | .add key i =>
    if s.Free then some { s with sets := Function.update s.sets key ((s.sets key).add i) } else none
  | .delete key i =>
    if s.Free then some { s with sets := Function.update s.sets key ((s.sets key).delete i) } else none
  | .start key arg =>
    if s.Free then
      some { s with stack := ⟨s.count, key, arg, 0, false⟩ :: s.stack, count := s.count + 1 }
    else none
  | .skip => if s.Free then some { s with count := s.count + 1 } else none
  | .next =>
    match s.stack with
    | [] => none
    | r :: rest =>
      if r.calling then none
      else
        match (s.sets r.key).next r.index with
        | none => some { s with stack := rest }
        | some (i, index) =>
          some { s with
            stack := { r with index, calling := true } :: rest
            calls := s.calls ++ [⟨r.number, i, r.arg⟩] }
  | .finish =>
    match s.stack with
    | [] => none
    | r :: rest => if r.calling then some { s with stack := { r with calling := false } :: rest } else none
  | .abort =>
    match s.stack with
    | [] => none
    | r :: rest => if r.calling then some { s with stack := rest } else none

/-- The act registers this callback, if it was not registered. -/
def Act.adds (key : κ) (i : ι) : Act κ ι β → Bool
  | .add key' i' => key' = key ∧ i' = i
  | .delete .. | .start .. | .skip | .next | .finish | .abort => false

/-- The act removes this callback. -/
def Act.deletes (key : κ) (i : ι) : Act κ ι β → Bool
  | .delete key' i' => key' = key ∧ i' = i
  | .add .. | .start .. | .skip | .next | .finish | .abort => false

/-- What can happen to the sets, the stack and the calls. -/
inductive Steps (s : Rounds κ ι β) : Act κ ι β → Rounds κ ι β → Prop
  | add (key : κ) (i : ι) :
    Steps s (.add key i) { s with sets := Function.update s.sets key ((s.sets key).add i) }
  | delete (key : κ) (i : ι) :
    Steps s (.delete key i) { s with sets := Function.update s.sets key ((s.sets key).delete i) }
  | skip : Steps s .skip { s with count := s.count + 1 }
  | start (key : κ) (arg : β) :
    Steps s (.start key arg)
      { s with stack := ⟨s.count, key, arg, 0, false⟩ :: s.stack, count := s.count + 1 }
  | complete (r : Round κ β) (rest : List (Round κ β)) (hstack : s.stack = r :: rest)
      (hnext : (s.sets r.key).next r.index = none) : Steps s .next { s with stack := rest }
  | call (r : Round κ β) (rest : List (Round κ β)) (hstack : s.stack = r :: rest) (i : ι) (index : ℕ)
      (hnext : (s.sets r.key).next r.index = some (i, index)) :
    Steps s .next { s with
      stack := { r with index, calling := true } :: rest
      calls := s.calls ++ [⟨r.number, i, r.arg⟩] }
  | finish (r : Round κ β) (rest : List (Round κ β)) (hstack : s.stack = r :: rest) :
    Steps s .finish { s with stack := { r with calling := false } :: rest }
  | abort (r : Round κ β) (rest : List (Round κ β)) (hstack : s.stack = r :: rest) :
    Steps s .abort { s with stack := rest }

variable {a : Act κ ι β}

/-- A step is one of those that `Steps` lists. -/
theorem steps_of_step (hs : s.step a = some t) : s.Steps a t := by
  cases a with
  | add key i | delete key i | start key arg | skip =>
    simp only [step, Option.ite_none_right_eq_some, Option.some.injEq] at hs
    obtain ⟨-, rfl⟩ := hs
    constructor
  | next =>
    cases hstack : s.stack with
    | nil => simp only [step, hstack, reduceCtorEq] at hs
    | cons r rest =>
      simp only [step, hstack, Option.ite_none_left_eq_some] at hs
      obtain ⟨-, hs⟩ := hs
      cases hnext : (s.sets r.key).next r.index with
      | none =>
        rw [hnext] at hs
        cases hs
        exact .complete r rest hstack hnext
      | some x =>
        rw [hnext] at hs
        cases hs
        exact .call r rest hstack x.1 x.2 hnext
  | finish =>
    cases hstack : s.stack with
    | nil => simp only [step, hstack, reduceCtorEq] at hs
    | cons r rest =>
      simp only [step, hstack, Option.ite_none_right_eq_some, Option.some.injEq] at hs
      obtain ⟨-, rfl⟩ := hs
      exact .finish r rest hstack
  | abort =>
    cases hstack : s.stack with
    | nil => simp only [step, hstack, reduceCtorEq] at hs
    | cons r rest =>
      simp only [step, hstack, Option.ite_none_right_eq_some, Option.some.injEq] at hs
      obtain ⟨-, rfl⟩ := hs
      exact .abort r rest hstack

/-- Every step keeps the rounds distinct and their iterators within the sets. -/
theorem Inv.step (h : s.Inv) (hs : s.step a = some t) : t.Inv := by
  cases steps_of_step hs with
  | add key i =>
    -- the set has a slot more, and the rounds keep their places
    exact h.of_sublist (List.Sublist.refl _) (length_le_update (LiveSet.length_le_add _ i))
  | delete key i =>
    exact h.of_sublist (List.Sublist.refl _)
      (length_le_update (Nat.le_of_eq (LiveSet.length_delete _ i).symm))
  | skip =>
    -- the round is over before it calls anyone
    exact {
      number_lt r hr := Nat.lt_succ_of_lt (h.number_lt r hr)
      nodup := h.nodup
      index_le := h.index_le
      round_lt c hc := Nat.lt_succ_of_lt (h.round_lt c hc) }
  | start key arg =>
    -- the new round has the next number, and nothing before its index
    exact {
      number_lt r hr := by
        rcases List.mem_cons.mp hr with rfl | hr
        · exact Nat.lt_succ_self _
        · exact Nat.lt_succ_of_lt (h.number_lt r hr)
      nodup := by
        refine List.nodup_cons.mpr ⟨fun hmem => ?_, h.nodup⟩
        obtain ⟨r, hr, hnumber⟩ := List.mem_map.mp hmem
        exact Nat.ne_of_lt (h.number_lt r hr) hnumber
      index_le r hr := by
        rcases List.mem_cons.mp hr with rfl | hr
        · exact Nat.zero_le _
        · exact h.index_le r hr
      round_lt c hc := Nat.lt_succ_of_lt (h.round_lt c hc) }
  | complete r rest hstack hnext =>
    exact h.of_sublist (hstack ▸ List.sublist_cons_self r rest) fun _ => Nat.le_refl _
  | call r rest hstack i index hnext =>
    have hindex := h.cons_index hstack (LiveSet.le_length_of_next hnext) true
    -- the call is of a round that has been started
    refine ⟨hindex.number_lt, hindex.nodup, hindex.index_le, ?_⟩
    intro c hc
    rcases List.mem_append.mp hc with hc | hc
    · exact h.round_lt c hc
    · rw [List.mem_singleton.mp hc]
      exact h.number_lt r (hstack ▸ List.mem_cons_self)
  | finish r rest hstack =>
    exact h.cons_index hstack (h.index_le r (hstack ▸ List.mem_cons_self)) false
  | abort r rest hstack =>
    exact h.of_sublist (hstack ▸ List.sublist_cons_self r rest) fun _ => Nat.le_refl _

/-! ## The calls of one round -/

/-- What a round still has to do with a callback. -/
inductive Status where
  | absent
  /-- It is registered, and the iterator has not come to it. -/
  | pending
  | met

def status (set : LiveSet ι) (index : ℕ) (i : ι) : Status :=
  if i ∈ set then if set.Reached index i then .met else .pending else .absent

/-- What a step does to a callback's status and to the number of its calls in a round over `key`. -/
inductive Moves (key : κ) (i : ι) (a : Act κ ι β) : Status → ℕ → Status → ℕ → Prop
  | none (status : Status) (calls : ℕ) : Moves key i a status calls status calls
  | added (hadds : a.adds key i = true) (calls : ℕ) : Moves key i a .absent calls .pending calls
  | deleted (hdeletes : a.deletes key i = true) (status : Status) (calls : ℕ) :
    Moves key i a status calls .absent calls
  | called (calls : ℕ) : Moves key i a .pending calls .met (calls + 1)

variable {key : κ} {arg : β} {i : ι} {n index removed added : ℕ} {sets : κ → LiveSet ι}

/-- Nothing has changed about the callback. -/
theorem Moves.of_iff {set set' : LiveSet ι} {index' : ℕ} (hmem : i ∈ set' ↔ i ∈ set)
    (hreached : set'.Reached index' i ↔ set.Reached index i) (calls : ℕ) :
    Moves key i a (status set index i) calls (status set' index' i) calls := by
  have heq : status set' index' i = status set index i := by
    unfold status
    simp only [hmem, hreached]
  rw [heq]
  exact .none _ _

/-- An element that is added to the set of a round comes behind its iterator. -/
theorem moves_add (hindex : index ≤ (sets key).slots.length) (key' : κ) (i' : ι) (calls : ℕ) :
    Moves key i (.add key' i' : Act κ ι β) (status (sets key) index i) calls
      (status (Function.update sets key' ((sets key').add i') key) index i) calls := by
  by_cases hkey : key = key'
  · subst hkey
    rw [Function.update_self]
    have hreached := LiveSet.reached_add (a := i) (b := i') hindex
    by_cases hnew : i' = i ∧ i ∉ sets key
    · obtain ⟨rfl, hnew⟩ := hnew
      have habsent : status (sets key) index i' = .absent := if_neg hnew
      have hpending : status ((sets key).add i') index i' = .pending := by
        unfold status
        rw [if_pos (LiveSet.mem_add.mpr (.inr rfl)), if_neg fun h => hnew (hreached.mp h).mem]
      rw [hpending, habsent]
      exact .added (by simp only [Act.adds, and_self, decide_true]) calls
    · refine .of_iff ?_ hreached calls
      rw [LiveSet.mem_add]
      refine ⟨fun h => h.elim id fun heq => ?_, .inl⟩
      by_contra hnot
      exact hnew ⟨heq.symm, hnot⟩
  · rw [Function.update_of_ne hkey]
    exact .none _ _

/-- An element that is deleted from the set of a round is met no more. -/
theorem moves_delete (key' : κ) (i' : ι) (calls : ℕ) :
    Moves key i (.delete key' i' : Act κ ι β) (status (sets key) index i) calls
      (status (Function.update sets key' ((sets key').delete i') key) index i) calls := by
  by_cases hkey : key = key'
  · subst hkey
    rw [Function.update_self]
    by_cases hi : i' = i
    · subst hi
      have habsent : status ((sets key).delete i') index i' = .absent :=
        if_neg fun hmem => (LiveSet.mem_delete.mp hmem).2 rfl
      rw [habsent]
      exact .deleted (by simp only [Act.deletes, and_self, decide_true]) _ calls
    · refine .of_iff ?_ ?_ calls
      · rw [LiveSet.mem_delete]
        exact and_iff_left (Ne.symm hi)
      · rw [LiveSet.reached_delete]
        exact and_iff_left (Ne.symm hi)
  · rw [Function.update_of_ne hkey]
    exact .none _ _

/-- The round calls the next callback. -/
theorem moves_call {set : LiveSet ι} {i' : ι} {index' : ℕ}
    (hnext : set.next index = some (i', index'))
    (calls : ℕ) : Moves key i a (status set index i) calls (status set index' i)
      (calls + if i' = i then 1 else 0) := by
  have hreached := LiveSet.reached_next (a := i) hnext
  by_cases hi : i' = i
  · subst hi
    have hmem := LiveSet.mem_of_next hnext
    have hpending : status set index i' = .pending := by
      unfold status
      rw [if_pos hmem, if_neg (LiveSet.not_reached_of_next hnext)]
    have hmet : status set index' i' = .met := by
      unfold status
      rw [if_pos hmem, if_pos (hreached.mpr (.inr rfl))]
    rw [hpending, hmet, if_pos rfl]
    exact .called calls
  · rw [if_neg hi, Nat.add_zero]
    exact .of_iff Iff.rfl (hreached.trans (or_iff_left fun heq => hi heq.symm)) calls

/-- What a step does to a round in progress. -/
theorem moves_of_step (h : s.Inv) (hs : s.step a = some t) {r' : Round κ β} (hr' : r' ∈ t.stack)
    (hold : r'.number < s.count) (i : ι) :
    ∃ r ∈ s.stack, r.number = r'.number ∧ r.key = r'.key ∧ r.arg = r'.arg ∧
      Moves r.key i a (status (s.sets r.key) r.index i) (callsOf s.calls r'.number i)
        (status (t.sets r.key) r'.index i) (callsOf t.calls r'.number i) := by
  cases steps_of_step hs with
  | add key' i' => exact ⟨r', hr', rfl, rfl, rfl, moves_add (h.index_le r' hr') key' i' _⟩
  | delete key' i' => exact ⟨r', hr', rfl, rfl, rfl, moves_delete key' i' _⟩
  | skip => exact ⟨r', hr', rfl, rfl, rfl, .none _ _⟩
  | start key' arg' =>
    rcases List.mem_cons.mp hr' with rfl | hr'
    · exact absurd hold (Nat.lt_irrefl _)
    · exact ⟨r', hr', rfl, rfl, rfl, .none _ _⟩
  | complete r rest hstack _ | abort r rest hstack =>
    exact ⟨r', hstack ▸ List.mem_cons_of_mem r hr', rfl, rfl, rfl, .none _ _⟩
  | finish r rest hstack =>
    rcases List.mem_cons.mp hr' with rfl | hr'
    · exact ⟨r, hstack ▸ List.mem_cons_self, rfl, rfl, rfl, .none _ _⟩
    · exact ⟨r', hstack ▸ List.mem_cons_of_mem r hr', rfl, rfl, rfl, .none _ _⟩
  | call r rest hstack i' index hnext =>
    rw [callsOf_concat]
    rcases List.mem_cons.mp hr' with rfl | hr'
    · simp only [true_and]
      exact ⟨r, hstack ▸ List.mem_cons_self, rfl, rfl, rfl, moves_call hnext _⟩
    · rw [if_neg fun hcall => h.not_mem_rest hstack hr' hcall.1.symm, Nat.add_zero]
      exact ⟨r', hstack ▸ List.mem_cons_of_mem r hr', rfl, rfl, rfl, .none _ _⟩

/-- How many calls a callback may have had, with how often it has been removed since the round
started, and how often it has been added, counting that it was there. -/
def Tally (removed added : ℕ) : Status → ℕ → Prop
  | .absent, calls => calls ≤ removed ∧ calls ≤ added
  | .pending, calls => calls ≤ removed ∧ calls + 1 ≤ added
  | .met, calls => 1 ≤ calls ∧ calls ≤ removed + 1 ∧ calls ≤ added

/-- What may happen to a callback keeps its calls in line with how often it was removed and
added. -/
theorem Moves.tally {a : Act κ ι β} {status status' : Status} {calls calls' : ℕ}
    (hmoves : Moves key i a status calls status' calls') (h : Tally removed added status calls) :
    Tally (removed + if a.deletes key i then 1 else 0) (added + if a.adds key i then 1 else 0)
      status' calls' := by
  cases hmoves with
  | none =>
    cases status with
    | absent | pending | met =>
      simp only [Tally] at h ⊢
      omega
  | added hadds =>
    rw [if_pos hadds]
    simp only [Tally] at h ⊢
    omega
  | deleted hdeletes =>
    rw [if_pos hdeletes]
    cases status with
    | absent | pending | met =>
      simp only [Tally] at h ⊢
      omega
  | called =>
    simp only [Tally] at h ⊢
    omega

/-- Round `n` was started over the set `key` with the argument `arg`. -/
structure Counted (key : κ) (arg : β) (i : ι) (n removed added : ℕ) (s : Rounds κ ι β) : Prop where
  inv : s.Inv
  started : n < s.count
  args : ∀ c ∈ s.calls, c.round = n → c.arg = arg
  round : ∀ r ∈ s.stack, r.number = n → r.key = key ∧ r.arg = arg ∧
    Tally removed added (status (s.sets key) r.index i) (callsOf s.calls n i)

/-- A round begins with no calls, and with those to call that are in the set. -/
theorem counted_start (h : s.Inv) (hs : s.step (.start key arg) = some t) (i : ι) :
    Counted key arg i s.count 0 (if i ∈ s.sets key then 1 else 0) t := by
  have hinv := h.step hs
  have hargs : ∀ c ∈ s.calls, c.round = s.count → c.arg = arg := by
    intro c hc hround
    have hlt := h.round_lt c hc
    omega
  have hold : ∀ r ∈ s.stack, r.number ≠ s.count := fun r hr => Nat.ne_of_lt (h.number_lt r hr)
  cases steps_of_step hs with
  | start _ _ =>
    refine ⟨hinv, Nat.lt_succ_self _, hargs, fun r hr hnumber => ?_⟩
    rcases List.mem_cons.mp hr with rfl | hr
    · refine ⟨rfl, rfl, ?_⟩
      rw [h.callsOf_count i]
      unfold status
      rw [if_neg (LiveSet.not_reached_zero _ i)]
      split
      · exact ⟨Nat.le_refl 0, Nat.le_refl 1⟩
      · exact ⟨Nat.le_refl 0, Nat.le_refl 0⟩
    · exact absurd hnumber (hold r hr)

/-- Every step keeps the calls of a round in line with the removals and additions since it began. -/
theorem Counted.step (h : Counted key arg i n removed added s) (hs : s.step a = some t) :
    Counted key arg i n (removed + if a.deletes key i then 1 else 0)
      (added + if a.adds key i then 1 else 0) t where
  inv := h.inv.step hs
  started := by
    cases steps_of_step hs with
    | skip | start _ _ => exact Nat.lt_succ_of_lt h.started
    | add _ _ | delete _ _ | complete _ _ _ _ | call _ _ _ _ _ _ | finish _ _ _ | abort _ _ _ =>
      exact h.started
  args c hc hround := by
    cases steps_of_step hs with
    | call r rest hstack i' index _ =>
      rcases List.mem_append.mp hc with hc | hc
      · exact h.args c hc hround
      · rw [List.mem_singleton.mp hc] at hround ⊢
        exact (h.round r (hstack ▸ List.mem_cons_self) hround).2.1
    | skip | start _ _ | add _ _ | delete _ _ | complete _ _ _ _ | finish _ _ _ | abort _ _ _ =>
      exact h.args c hc hround
  round r' hr' hnumber := by
    obtain ⟨r, hr, hrnumber, hkey, harg, hmoves⟩ :=
      moves_of_step h.inv hs hr' (hnumber ▸ h.started) i
    obtain ⟨hkey', harg', htally⟩ := h.round r hr (hrnumber.trans hnumber)
    rw [hkey', hnumber] at hmoves
    exact ⟨hkey.symm.trans hkey', harg.symm.trans harg', hmoves.tally htally⟩

/-- At any time since a round began, its calls are in line with the removals and additions of the
run. -/
theorem Counted.exec {as : List (Act κ ι β)} (h : Counted key arg i n removed added s)
    (hrun : Machine.exec Rounds.step s as = some t) :
    Counted key arg i n (removed + as.countP (Act.deletes key i))
      (added + as.countP (Act.adds key i)) t := by
  induction as generalizing s removed added with
  | nil =>
    cases hrun
    exact h
  | cons a as ih =>
    obtain ⟨u, hs, hrun⟩ := Machine.exec_cons_eq_some.mp hrun
    rw [List.countP_cons, List.countP_cons, Nat.add_comm (List.countP _ _), ← Nat.add_assoc,
      Nat.add_comm (List.countP _ as) (if a.adds key i then 1 else 0), ← Nat.add_assoc]
    exact ih (h.step hs) hrun

/-- A round that is over makes no more calls. -/
structure Over (n : ℕ) (calls : ι → ℕ) (s : Rounds κ ι β) : Prop where
  started : n < s.count
  not_running : ∀ r ∈ s.stack, r.number ≠ n
  callsOf : ∀ i, callsOf s.calls n i = calls i

/-- A round that is over stays over, as it makes no calls and no other round gets its number. -/
theorem Over.step {calls : ι → ℕ} (h : Over n calls s) (hs : s.step a = some t) :
    Over n calls t := by
  cases steps_of_step hs with
  | add _ _ | delete _ _ => exact ⟨h.started, h.not_running, h.callsOf⟩
  | skip => exact ⟨Nat.lt_succ_of_lt h.started, h.not_running, h.callsOf⟩
  | start _ _ =>
    refine ⟨Nat.lt_succ_of_lt h.started, fun r hr => ?_, h.callsOf⟩
    rcases List.mem_cons.mp hr with rfl | hr
    · exact Nat.ne_of_gt h.started
    · exact h.not_running r hr
  | complete r rest hstack _ =>
    exact ⟨h.started, fun r' hr' => h.not_running r' (hstack ▸ List.mem_cons_of_mem r hr'),
      h.callsOf⟩
  | abort r rest hstack =>
    exact ⟨h.started, fun r' hr' => h.not_running r' (hstack ▸ List.mem_cons_of_mem r hr'),
      h.callsOf⟩
  | finish r rest hstack =>
    refine ⟨h.started, fun r' hr' => ?_, h.callsOf⟩
    rcases List.mem_cons.mp hr' with rfl | hr'
    · exact h.not_running r (hstack ▸ List.mem_cons_self)
    · exact h.not_running r' (hstack ▸ List.mem_cons_of_mem r hr')
  | call r rest hstack i' index _ =>
    have hother : r.number ≠ n := h.not_running r (hstack ▸ List.mem_cons_self)
    refine ⟨h.started, fun r' hr' => ?_, ?_⟩
    · rcases List.mem_cons.mp hr' with rfl | hr'
      · exact hother
      · exact h.not_running r' (hstack ▸ List.mem_cons_of_mem r hr')
    · intro i
      rw [callsOf_concat, if_neg fun hcall => hother hcall.1]
      exact h.callsOf i

/-- A round over no set is never in progress. -/
theorem not_running_of_skip {before during : List (Act κ ι β)} {u : Rounds κ ι β}
    (hbefore : Machine.exec step init before = some s) (hskip : s.step .skip = some u)
    (hduring : Machine.exec step u during = some t) : ¬ t.Running s.count := by
  have hinv := Machine.exec_invariant (fun s a t h hs => Inv.step h hs) inv_init hbefore
  have hover : Over s.count (callsOf s.calls s.count) u := by
    cases steps_of_step hskip with
    | skip => exact ⟨Nat.lt_succ_self _, fun r hr => Nat.ne_of_lt (hinv.number_lt r hr), fun _ => rfl⟩
  have hover := Machine.exec_invariant (fun s a t h hs => Over.step h hs) hover hduring
  rintro ⟨r, hr, hnumber⟩
  exact hover.not_running r hr hnumber

/-- A round that has come to its end, whatever else happens meanwhile and later: it has called
whoever is registered then. It has called nobody more often than he was removed during the round,
and once more if he is registered at the end; nor more often than he was added during the round, and
once more if he was registered at the beginning. All calls have the argument of the round. -/
theorem calls_of_completed {before during after : List (Act κ ι β)} {u v w : Rounds κ ι β}
    (hbefore : Machine.exec step init before = some s) (hstart : s.step (.start key arg) = some u)
    (hduring : Machine.exec step u during = some v) (hrunning : v.Running s.count)
    (hnext : v.step .next = some w) (hover : ¬ w.Running s.count)
    (hafter : Machine.exec step w after = some t) (i : ι) :
    (if i ∈ w.sets key then 1 else 0) ≤ callsOf t.calls s.count i ∧
      callsOf t.calls s.count i ≤
        (during.countP (Act.deletes key i) + if i ∈ w.sets key then 1 else 0) ∧
      callsOf t.calls s.count i ≤
        (if i ∈ s.sets key then 1 else 0) + during.countP (Act.adds key i) ∧
      ∀ c ∈ t.calls, c.round = s.count → c.arg = arg := by
  have hinv := Machine.exec_invariant (fun s a t h hs => Inv.step h hs) inv_init hbefore
  have hstarted := counted_start hinv hstart i
  have hargs : ∀ c ∈ t.calls, c.round = s.count → c.arg = arg :=
    (hstarted.exec (Machine.exec_append_eq_some.mpr
      ⟨v, hduring, Machine.exec_cons_eq_some.mpr ⟨w, hnext, hafter⟩⟩)).args
  have hcounted := hstarted.exec hduring
  rw [Nat.zero_add] at hcounted
  obtain ⟨r, hr, hnumber⟩ := hrunning
  obtain ⟨hkey, -, htally⟩ := hcounted.round r hr hnumber
  -- the round is the one that has no one left to call, so everybody who is there has been met
  have hw : w.calls = v.calls ∧ w.count = v.count ∧
      status (v.sets key) r.index i = if i ∈ w.sets key then .met else .absent := by
    cases steps_of_step hnext with
    | complete r' rest hstack hnone =>
      rcases List.mem_cons.mp (hstack ▸ hr) with rfl | hr
      · refine ⟨rfl, rfl, ?_⟩
        unfold status
        rw [hkey] at hnone
        by_cases hmem : i ∈ v.sets key
        · rw [if_pos hmem, if_pos hmem, if_pos ((LiveSet.reached_of_next_eq_none hnone).mpr hmem)]
        · rw [if_neg hmem, if_neg hmem]
      · exact absurd ⟨r, hr, hnumber⟩ hover
    | call r' rest hstack i' index _ =>
      rcases List.mem_cons.mp (hstack ▸ hr) with rfl | hr
      · exact absurd ⟨_, List.mem_cons_self, hnumber⟩ hover
      · exact absurd ⟨r, List.mem_cons_of_mem _ hr, hnumber⟩ hover
  obtain ⟨hcalls, hcount, hstatus⟩ := hw
  have hover' : Over s.count (callsOf v.calls s.count) w :=
    ⟨hcount ▸ hcounted.started, fun r hr hnumber => hover ⟨r, hr, hnumber⟩, fun _ => hcalls ▸ rfl⟩
  have hover' := Machine.exec_invariant (fun s a t h hs => Over.step h hs) hover' hafter
  rw [hover'.callsOf]
  rw [hstatus] at htally
  by_cases hmem : i ∈ w.sets key
  · rw [if_pos hmem] at htally ⊢
    exact ⟨htally.1, htally.2.1, htally.2.2, hargs⟩
  · rw [if_neg hmem] at htally ⊢
    exact ⟨Nat.zero_le _, htally.1, htally.2, hargs⟩

end Rounds
