import Mathlib.Data.List.Perm.Basic
import Mathlib.Logic.Function.Basic
import Datasole.Common.Machine
import Datasole.Server.Crdt.CrdtManager

/-!
# A counter on several server instances

Instances `0 .. n - 1` share a backend, and each has registered a counter under one key. `apply` at
an instance counts the operation there and publishes it; the backend delivers a published operation
to every subscriber, the publisher included, once and in any order. On a `MemoryBackend` the
deliveries follow the publication at once.

So the instance that applied an operation gets it back and counts it again. `every_op_once_iff` says
for which runs this does not show: an instance must not apply anything after one of its own
operations has come back, and what is submitted at each instance must cancel out.
-/

namespace Datasole

namespace CrdtCluster

open PNCounter (total)
open scoped List

/-- A call of `apply`, by its place among the calls of the run. -/
structure Submission where
  number : ℕ
  origin : ℕ
  op : CrdtOperation ℤ
deriving DecidableEq

/-- A published operation on its way to one subscriber. -/
structure Message where
  dest : ℕ
  submission : Submission
deriving DecidableEq

/-- What a call of `apply` returned, with the submissions its state counts. -/
structure Reply where
  state : AnyState ℤ
  counted : List Submission

/-- The managers and the messages in flight. The other fields record the run: what was submitted and
returned, and the submissions that each instance's counter has applied. -/
structure Cluster where
  managers : ℕ → CrdtManager ℤ
  inFlight : List Message
  submitted : List Submission
  counted : ℕ → List Submission
  replies : List Reply

inductive Act where
  | submit (i : ℕ) (connectionId : String) (op : CrdtOperation ℤ) (now : Timestamp)
  /-- The `k`-th message in flight arrives. -/
  | deliver (k : ℕ)

/-- An increment or decrement of the key by a non-negative amount. -/
def IsCount (key connectionId : String) (op : CrdtOperation ℤ) : Prop :=
  op.key.getD connectionId = key ∧ (op.op = .increment ∨ op.op = .decrement) ∧ 0 ≤ op.value.getD 1

instance (key connectionId : String) (op : CrdtOperation ℤ) :
    Decidable (IsCount key connectionId op) :=
  inferInstanceAs (Decidable (_ ∧ _ ∧ _))

/-- Every instance has registered a fresh counter, of any node id, under the key. -/
def init (key : String) (maxKeys : ℕ) (nodeId : ℕ → String) : Cluster where
  managers i := (CrdtManager.new maxKeys).register key (.pnCounter (PNCounter.new (nodeId i)))
  inFlight := []
  submitted := []
  counted _ := []
  replies := []

def step (n : ℕ) (key : String) (s : Cluster) : Act → Option Cluster
  | .submit i connectionId op now =>
    if i < n ∧ IsCount key connectionId op then
      let submission : Submission := ⟨s.submitted.length, i, op⟩
      match (s.managers i).apply connectionId op now with
      | (_, none) => none
      | (manager, some applied) =>
        some {
          managers := Function.update s.managers i manager
          -- instance `i` is a subscriber like the others
          inFlight := s.inFlight ++ (List.range n).map (Message.mk · submission)
          submitted := s.submitted ++ [submission]
          counted := Function.update s.counted i (s.counted i ++ [submission])
          replies := s.replies ++ [⟨applied.state, s.counted i ++ [submission]⟩] }
    else none
  | .deliver k =>
    s.inFlight[k]?.map fun msg =>
      { s with
        managers := Function.update s.managers msg.dest
          ((s.managers msg.dest).deliver key msg.submission.op)
        inFlight := s.inFlight.eraseIdx k
        counted := Function.update s.counted msg.dest (s.counted msg.dest ++ [msg.submission]) }

/-- The value that `getState` shows for a counter. -/
def counterValue (m : CrdtManager ℤ) (key : String) (now : Timestamp) : Option ℤ :=
  match m.getState key now with
  | some (.pnCounter st) => some st.value
  | _ => none

/-- The operations submitted so far, at all instances. -/
def opsSubmitted (s : Cluster) : List (CrdtOperation ℤ) := s.submitted.map (·.op)

/-- The submissions made at one instance. -/
def submittedAt (s : Cluster) (i : ℕ) : List Submission := s.submitted.filter (·.origin = i)

/-- The submissions on their way to one instance. -/
def flightTo (s : Cluster) (i : ℕ) : List Submission :=
  (s.inFlight.filter (·.dest = i)).map (·.submission)

/-- No returned state counts an operation twice, and once all messages are delivered every instance
shows all increments minus all decrements. -/
def EveryOpOnce (n : ℕ) (key : String) (s : Cluster) : Prop :=
  (∀ reply ∈ s.replies, reply.counted.Nodup) ∧
    (s.inFlight = [] → ∀ i < n, ∀ now,
      counterValue (s.managers i) key now = some (total (opsSubmitted s)))

/-- At a submission, everything the instance has submitted before is still on its way back. -/
def NoneCameBack (s : Cluster) : Act → Prop
  | .submit i _ _ _ => ∀ x ∈ submittedAt s i, x ∈ flightTo s i
  | .deliver _ => True

/-- What was submitted at each instance adds up to zero. -/
def CancelsOut (n : ℕ) (s : Cluster) : Prop :=
  ∀ i < n, total ((submittedAt s i).map (·.op)) = 0

instance (s : Cluster) : DecidablePred (NoneCameBack s)
  | .submit i _ _ _ => inferInstanceAs (Decidable (∀ x ∈ submittedAt s i, x ∈ flightTo s i))
  | .deliver _ => .isTrue trivial

instance (n : ℕ) : DecidablePred (CancelsOut n) :=
  fun s => inferInstanceAs (Decidable (∀ i < n, total ((submittedAt s i).map (·.op)) = 0))

/-! ## What every run keeps -/

/-- The counters show what they have counted, and each instance has counted, or is about to be sent,
every submission once and its own once more. -/
structure Inv (n : ℕ) (key : String) (s : Cluster) : Prop where
  numbers : s.submitted.map (·.number) = List.range s.submitted.length
  holds : ∀ i, ∃ c, (s.managers i).Holds key (.pnCounter c) ∧
    c.value = total ((s.counted i).map (·.op))
  balance : ∀ i < n, (s.counted i ++ flightTo s i).Perm (s.submitted ++ submittedAt s i)
  reply_value : ∀ reply ∈ s.replies, ∃ st, reply.state = .pnCounter st ∧
    st.value = total (reply.counted.map (·.op))

variable {n : ℕ} {key : String} {s t : Cluster}

/-- Without submissions nothing is counted. -/
theorem inv_init (key : String) (maxKeys : ℕ) (nodeId : ℕ → String) :
    Inv n key (init key maxKeys nodeId) where
  numbers := rfl
  holds i := ⟨PNCounter.new (nodeId i), CrdtManager.holds_register (by simp [CrdtManager.new]),
    PNCounter.value_new _⟩
  balance _ _ := List.Perm.refl _
  reply_value _ h := by cases h

/-- The published copies of a submission: one goes to each instance. -/
theorem filter_fanOut {i : ℕ} (hi : i < n) (x : Submission) :
    ((List.range n).map (Message.mk · x)).filter (·.dest = i) = [⟨i, x⟩] := by
  have hone : (List.range n).filter (fun j => decide (j = i)) = [i] := by
    rw [List.filter_eq, List.count_eq_one_of_mem List.nodup_range (List.mem_range.mpr hi),
      List.replicate_one]
  rw [List.filter_map]
  exact congrArg (List.map (Message.mk · x)) hone

/-- The two inner lists may be exchanged. -/
theorem perm_exchange {α : Type*} (a b c d : List α) :
    (a ++ b ++ (c ++ d)) ~ (a ++ c ++ (b ++ d)) := by
  simp only [List.append_assoc]
  refine List.Perm.append_left a ?_
  rw [← List.append_assoc, ← List.append_assoc]
  exact List.perm_append_comm.append_right d

theorem Inv.nodup_submitted (h : Inv n key s) : s.submitted.Nodup := by
  refine List.Nodup.of_map (·.number) ?_
  rw [h.numbers]
  exact List.nodup_range

/-- The number of a submission is its place. -/
theorem Inv.number_lt (h : Inv n key s) {x : Submission} (hx : x ∈ s.submitted) :
    x.number < s.submitted.length := by
  have hmem : x.number ∈ s.submitted.map (·.number) := List.mem_map_of_mem hx
  rw [h.numbers] at hmem
  exact List.mem_range.mp hmem

/-- What an instance has counted was submitted. -/
theorem Inv.counted_subset (h : Inv n key s) {i : ℕ} (hi : i < n) {x : Submission}
    (hx : x ∈ s.counted i) : x ∈ s.submitted := by
  have hmem := (h.balance i hi).mem_iff.mp (List.mem_append_left _ hx)
  rcases List.mem_append.mp hmem with hmem | hmem
  · exact hmem
  · exact List.mem_of_mem_filter hmem

/-- An instance has counted something twice exactly when an operation of its own has come back. -/
theorem Inv.nodup_counted_iff (h : Inv n key s) {i : ℕ} (hi : i < n) :
    (s.counted i).Nodup ↔ ∀ x ∈ submittedAt s i, x ∈ flightTo s i := by
  have hcount : ∀ x, (s.counted i).count x + (flightTo s i).count x =
      s.submitted.count x + (submittedAt s i).count x := fun x => by
    rw [← List.count_append, ← List.count_append, (h.balance i hi).count_eq x]
  -- an own submission counts twice on the right, any other once
  constructor
  · intro hnodup x hx
    have hsub : s.submitted.count x = 1 :=
      List.count_eq_one_of_mem h.nodup_submitted (List.mem_of_mem_filter hx)
    have hown : 0 < (submittedAt s i).count x := List.count_pos_iff.mpr hx
    have honce : (s.counted i).count x ≤ 1 := List.nodup_iff_count_le_one.mp hnodup x
    have hsum := hcount x
    exact List.count_pos_iff.mp (by omega)
  · intro hback
    refine List.nodup_iff_count_le_one.mpr fun x => ?_
    have hsub : s.submitted.count x ≤ 1 := List.nodup_iff_count_le_one.mp h.nodup_submitted x
    have hsum := hcount x
    by_cases hx : x ∈ submittedAt s i
    · have hown : (submittedAt s i).count x ≤ 1 :=
        List.nodup_iff_count_le_one.mp (h.nodup_submitted.filter _) x
      have hflight : 0 < (flightTo s i).count x := List.count_pos_iff.mpr (hback x hx)
      omega
    · have hown : (submittedAt s i).count x = 0 := List.count_eq_zero.mpr hx
      omega

/-- What an enabled submission does. -/
theorem step_submit {i : ℕ} {connectionId : String} {op : CrdtOperation ℤ} {now : Timestamp}
    (h : Inv n key s) (hs : step n key s (.submit i connectionId op now) = some t) :
    i < n ∧ ∃ c manager, (s.managers i).Holds key (.pnCounter c) ∧
      manager.Holds key (.pnCounter (c.apply op)) ∧
      t = {
        managers := Function.update s.managers i manager
        inFlight := s.inFlight ++
          (List.range n).map (Message.mk · ⟨s.submitted.length, i, op⟩)
        submitted := s.submitted ++ [⟨s.submitted.length, i, op⟩]
        counted := Function.update s.counted i
          (s.counted i ++ [⟨s.submitted.length, i, op⟩])
        replies := s.replies ++
          [⟨.pnCounter ((c.apply op).state now),
            s.counted i ++ [⟨s.submitted.length, i, op⟩]⟩] } ∧
      c.value = total ((s.counted i).map (·.op)) := by
  simp only [step, Option.ite_none_right_eq_some] at hs
  obtain ⟨⟨hi, hop⟩, hs⟩ := hs
  obtain ⟨c, hc, hvalue⟩ := h.holds i
  have hnext := hc.apply hop.1 now
  rw [hc.apply_eq hop.1 now] at hs hnext
  exact ⟨hi, c, _, hc, hnext, (Option.some.inj hs).symm, hvalue⟩

/-- A submission is counted at its instance, and is to be counted by everybody else and once more
there. -/
theorem inv_submit {i : ℕ} {connectionId : String} {op : CrdtOperation ℤ} {now : Timestamp}
    (h : Inv n key s) (hs : step n key s (.submit i connectionId op now) = some t) :
    Inv n key t := by
  obtain ⟨hi, c, manager, -, hnext, rfl, hvalue⟩ := step_submit h hs
  set x : Submission := ⟨s.submitted.length, i, op⟩ with hx
  have hcounted : (c.apply op).value = total ((s.counted i ++ [x]).map (·.op)) := by
    rw [PNCounter.value_apply, hvalue, List.map_append, List.map_singleton, PNCounter.total_concat]
  refine ⟨?_, fun j => ?_, fun j hj => ?_, fun reply hreply => ?_⟩
  · -- the submission gets the next number
    rw [List.map_append, h.numbers, List.length_append, List.length_singleton, List.range_succ]
    rfl
  · -- only the instance that was asked counts it now
    by_cases hji : j = i
    · subst hji
      simp only [Function.update_self]
      exact ⟨_, hnext, hcounted⟩
    · simp only [Function.update_of_ne hji]
      exact h.holds j
  · -- one copy is on its way to every instance
    have hflight : flightTo
        { s with inFlight := s.inFlight ++ (List.range n).map (Message.mk · x) } j =
          flightTo s j ++ [x] := by
      rw [flightTo, List.filter_append, filter_fanOut hj, List.map_append, flightTo]
      rfl
    have hbalance := h.balance j hj
    change (Function.update s.counted i (s.counted i ++ [x]) j ++ flightTo
      { s with inFlight := s.inFlight ++ (List.range n).map (Message.mk · x) } j).Perm
      (s.submitted ++ [x] ++ (s.submitted ++ [x]).filter (·.origin = j))
    rw [hflight, List.filter_append]
    by_cases hji : j = i
    · -- counted at once and on its way back: two more on both sides
      subst hji
      rw [Function.update_self, show [x].filter (·.origin = j) = [x] by simp [hx]]
      calc s.counted j ++ [x] ++ (flightTo s j ++ [x])
          _ ~ s.counted j ++ flightTo s j ++ ([x] ++ [x]) := perm_exchange ..
          _ ~ s.submitted ++ submittedAt s j ++ ([x] ++ [x]) := hbalance.append_right _
          _ ~ s.submitted ++ [x] ++ (submittedAt s j ++ [x]) := (perm_exchange ..).symm
    · -- on its way to another instance: one more on both sides
      rw [Function.update_of_ne hji, show [x].filter (·.origin = j) = [] by simp [hx, Ne.symm hji],
        List.append_nil]
      calc s.counted j ++ (flightTo s j ++ [x])
          _ ~ s.submitted ++ submittedAt s j ++ [x] := by
            rw [← List.append_assoc]; exact hbalance.append_right _
          _ ~ s.submitted ++ [x] ++ submittedAt s j := by
            simp only [List.append_assoc]
            exact List.perm_append_comm.append_left _
  · rcases List.mem_append.mp hreply with hreply | hreply
    · exact h.reply_value reply hreply
    · rw [List.mem_singleton.mp hreply]
      exact ⟨_, rfl, hcounted⟩

/-- A delivery moves a submission from the messages in flight to the counter. -/
theorem inv_deliver {k : ℕ} (h : Inv n key s) (hs : step n key s (.deliver k) = some t) :
    Inv n key t := by
  simp only [step, Option.map_eq_some_iff] at hs
  obtain ⟨msg, hk, rfl⟩ := hs
  refine ⟨h.numbers, fun j => ?_, fun j hj => ?_, h.reply_value⟩
  · by_cases hjd : j = msg.dest
    · subst hjd
      obtain ⟨c, hc, hvalue⟩ := h.holds msg.dest
      simp only [Function.update_self]
      refine ⟨_, hc.deliver msg.submission.op, ?_⟩
      rw [PNCounter.value_apply, hvalue, List.map_append, List.map_singleton,
        PNCounter.total_concat]
    · simp only [Function.update_of_ne hjd]
      exact h.holds j
  · have hlt : k < s.inFlight.length := (List.getElem?_eq_some_iff.mp hk).1
    have hmsg : s.inFlight[k] = msg := (List.getElem?_eq_some_iff.mp hk).2
    have herase : (msg :: s.inFlight.eraseIdx k) ~ s.inFlight :=
      hmsg ▸ List.getElem_cons_eraseIdx_perm hlt
    have hflight := (herase.filter (·.dest = j)).map (·.submission)
    refine List.Perm.trans ?_ (h.balance j hj)
    change (Function.update s.counted msg.dest (s.counted msg.dest ++ [msg.submission]) j ++
      flightTo { s with inFlight := s.inFlight.eraseIdx k } j) ~ (s.counted j ++ flightTo s j)
    by_cases hjd : j = msg.dest
    · rw [List.filter_cons_of_pos (by simp [hjd]), List.map_cons] at hflight
      rw [hjd, Function.update_self, ← hjd, List.append_assoc, List.singleton_append]
      exact hflight.append_left _
    · rw [List.filter_cons_of_neg (by simp [Ne.symm hjd])] at hflight
      rw [Function.update_of_ne hjd]
      exact hflight.append_left _

/-- Every step keeps what the counters have counted and what they are still to be sent. -/
theorem inv_step {a : Act} (h : Inv n key s) (hs : step n key s a = some t) : Inv n key t := by
  cases a with
  | submit i connectionId op now => exact inv_submit h hs
  | deliver k => exact inv_deliver h hs

/-- The replies of a step are without repetition if those before were and nothing had come back. -/
theorem nodup_replies_step {a : Act} (h : Inv n key s) (hs : step n key s a = some t) :
    (∀ reply ∈ t.replies, reply.counted.Nodup) ↔
      (∀ reply ∈ s.replies, reply.counted.Nodup) ∧ NoneCameBack s a := by
  cases a with
  | submit i connectionId op now =>
    obtain ⟨hi, c, manager, -, -, rfl, -⟩ := step_submit h hs
    set x : Submission := ⟨s.submitted.length, i, op⟩
    have hfresh : x ∉ s.counted i := fun hmem =>
      lt_irrefl _ (h.number_lt (h.counted_subset hi hmem))
    have hlast : (s.counted i ++ [x]).Nodup ↔ (s.counted i).Nodup := by
      rw [← List.concat_eq_append, List.nodup_concat]
      exact and_iff_right hfresh
    simp only [List.mem_append, List.mem_singleton, or_imp, forall_and, forall_eq, hlast,
      h.nodup_counted_iff hi, NoneCameBack]
  | deliver k =>
    simp only [step, Option.map_eq_some_iff] at hs
    obtain ⟨msg, hk, rfl⟩ := hs
    exact (and_iff_left trivial).symm

/-- No reply of a run repeats a submission exactly when no submission follows a return. -/
theorem nodup_replies_iff {maxKeys : ℕ} {nodeId : ℕ → String} {acts : List Act}
    (hrun : Machine.exec (step n key) (init key maxKeys nodeId) acts = some s) :
    (∀ reply ∈ s.replies, reply.counted.Nodup) ↔
      Machine.Guarded (step n key) NoneCameBack (init key maxKeys nodeId) acts := by
  induction acts using List.reverseRecOn generalizing s with
  | nil =>
    cases hrun
    exact ⟨fun _ => trivial, fun _ reply h => by cases h⟩
  | append_singleton acts a ih =>
    obtain ⟨u, hu, hv⟩ := Machine.exec_concat_eq_some.mp hrun
    have hinv : Inv n key u := Machine.exec_invariant (fun _ _ _ h hs => inv_step h hs)
      (inv_init key maxKeys nodeId) hu
    rw [nodup_replies_step hinv hv, ih hu, Machine.guarded_concat hu]

/-- The value an instance shows is what it has counted. -/
theorem Inv.counterValue_eq (h : Inv n key s) (i : ℕ) (now : Timestamp) :
    counterValue (s.managers i) key now = some (total ((s.counted i).map (·.op))) := by
  obtain ⟨c, hc, hvalue⟩ := h.holds i
  rw [counterValue, hc.getState now, ← hvalue]
  rfl

/-- With nothing in flight, an instance has counted what it submitted once more. -/
theorem Inv.counted_eq (h : Inv n key s) (hflight : s.inFlight = []) {i : ℕ} (hi : i < n) :
    total ((s.counted i).map (·.op)) =
      total (opsSubmitted s) + total ((submittedAt s i).map (·.op)) := by
  have hbalance := h.balance i hi
  rw [flightTo, hflight, List.filter_nil, List.map_nil, List.append_nil] at hbalance
  rw [PNCounter.total_perm (hbalance.map (·.op)), List.map_append, PNCounter.total_append,
    opsSubmitted]

/-- A run counts every operation once exactly when no instance applies anything after one of its own
operations has come back, and, if all messages get delivered, the operations submitted at each
instance cancel out. -/
theorem every_op_once_iff (n : ℕ) (key : String) (maxKeys : ℕ) (nodeId : ℕ → String)
    (acts : List Act) (hrun : Machine.exec (step n key) (init key maxKeys nodeId) acts = some s) :
    EveryOpOnce n key s ↔
      Machine.Guarded (step n key) NoneCameBack (init key maxKeys nodeId) acts ∧
        (s.inFlight = [] → CancelsOut n s) := by
  have hinv : Inv n key s := Machine.exec_invariant (fun _ _ _ h hs => inv_step h hs)
    (inv_init key maxKeys nodeId) hrun
  have hvalue : ∀ i < n, s.inFlight = [] →
      ((∀ now, counterValue (s.managers i) key now = some (total (opsSubmitted s))) ↔
        total ((submittedAt s i).map (·.op)) = 0) := by
    intro i hi hflight
    simp only [hinv.counterValue_eq, hinv.counted_eq hflight hi, Option.some.injEq]
    exact ⟨fun hall => by simpa using hall 0, fun hzero _ => by rw [hzero, add_zero]⟩
  rw [EveryOpOnce, nodup_replies_iff hrun]
  refine and_congr_right fun _ => forall_congr' fun hflight => ?_
  exact forall_congr' fun i => forall_congr' fun hi => hvalue i hi hflight

/-- An increment of the key `counter`. -/
def likes (amount : ℤ) : CrdtOperation ℤ where
  type := .pnCounter
  nodeId := "c1"
  timestamp := 1
  op := .increment
  key := some "counter"
  value := some amount

/-- Two instances, nothing delivered before the last submission; an increment is taken back. -/
def takenBack : List Act :=
  [.submit 0 "conn" (likes 5) 1, .submit 1 "conn" (likes 0) 1,
    .submit 0 "conn" { likes 5 with op := .decrement } 2, .deliver 5, .deliver 0, .deliver 1,
    .deliver 0, .deliver 1, .deliver 0]

/-- What one instance adds and takes back is counted to zero, so the own copies do no harm. -/
theorem takenBack_counts_once :
    ∃ s, Machine.exec (step 2 "counter") (init "counter" 1000 fun _ => "server") takenBack = some s ∧
      s.inFlight = [] ∧ EveryOpOnce 2 "counter" s := by
  obtain ⟨s, hrun, hend⟩ := Machine.exists_exec_of_test
    (show (Machine.exec (step 2 "counter") (init "counter" 1000 fun _ => "server") takenBack).map
      (fun s => decide (s.inFlight = [] ∧ CancelsOut 2 s)) = some true by decide)
  obtain ⟨hflight, hcancel⟩ := of_decide_eq_true hend
  exact ⟨s, hrun, hflight,
    (every_op_once_iff 2 "counter" 1000 (fun _ => "server") takenBack hrun).mpr
      ⟨by decide, fun _ => hcancel⟩⟩

/-- One instance on a `MemoryBackend`: every publication comes back before the next call. The state
returned second counts the first increment twice, and ten likes end as twenty. -/
theorem own_operations_counted_twice :
    ∃ s, Machine.exec (step 1 "counter") (init "counter" 1000 fun _ => "server")
        [.submit 0 "conn" (likes 5) 1, .deliver 0, .submit 0 "conn" (likes 5) 2, .deliver 0] =
          some s ∧
      s.inFlight = [] ∧ total (opsSubmitted s) = 10 ∧
      counterValue (s.managers 0) "counter" 3 = some 20 ∧ ¬ EveryOpOnce 1 "counter" s := by
  obtain ⟨s, hrun, hend⟩ := Machine.exists_exec_of_test
    (show (Machine.exec (step 1 "counter") (init "counter" 1000 fun _ => "server")
        [.submit 0 "conn" (likes 5) 1, .deliver 0, .submit 0 "conn" (likes 5) 2, .deliver 0]).map
      (fun s => decide (s.inFlight = [] ∧ total (opsSubmitted s) = 10 ∧
        counterValue (s.managers 0) "counter" 3 = some 20 ∧
        ¬ ∀ reply ∈ s.replies, reply.counted.Nodup)) = some true by decide)
  obtain ⟨hflight, htotal, hvalue, hnodup⟩ := of_decide_eq_true hend
  exact ⟨s, hrun, hflight, htotal, hvalue, fun h => hnodup h.1⟩

end CrdtCluster

end Datasole
