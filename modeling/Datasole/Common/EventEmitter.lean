import Mathlib.Data.List.Nodup

/-!
# Event emitters

Node's `EventEmitter`. The listeners of an event are called one after the other, and the first one
that throws ends the call. The names `error`, `newListener` and `removeListener` are special: an
`error` that nobody listens for is thrown, and whoever listens for the other two is told the event
of every listener that comes or goes.

What a listener does is given by `throws`: it is asked with all calls made so far, the last of which
is the one in question.
-/

/-- The listeners, in the order of their registration. -/
structure EventEmitter (ι : Type*) where
  entries : List (String × ι)

namespace EventEmitter

variable {ι ν : Type*}

def empty : EventEmitter ι := ⟨[]⟩

def listeners (e : EventEmitter ι) (event : String) : List ι :=
  (e.entries.filter (·.1 = event)).map Prod.snd

/-- Listeners are called up to the first that throws. The result is the calls made and whether one
threw. -/
def callAll (throws : List (ι × ν) → Bool) (calls : List (ι × ν)) : List ι → ν → List (ι × ν) × Bool
  | [], _ => (calls, false)
  | i :: is, arg =>
    if throws (calls ++ [(i, arg)]) then (calls ++ [(i, arg)], true)
    else callAll throws (calls ++ [(i, arg)]) is arg

def emit (throws : List (ι × ν) → Bool) (calls : List (ι × ν)) (e : EventEmitter ι) (event : String)
    (arg : ν) : List (ι × ν) × Bool :=
  if event = "error" ∧ e.listeners event = [] then (calls, true)
  else callAll throws calls (e.listeners event) arg

/-- `name` makes an argument of the name of an event. If a listener that is told throws, so does
`on`, and the new listener is not added. -/
def on (throws : List (ι × ν) → Bool) (name : String → ν) (calls : List (ι × ν))
    (e : EventEmitter ι)
    (event : String) (i : ι) : Option (EventEmitter ι) × List (ι × ν) :=
  let (calls, threw) := callAll throws calls (e.listeners "newListener") (name event)
  (if threw then none else some ⟨e.entries ++ [(event, i)]⟩, calls)

def off [DecidableEq ι] (throws : List (ι × ν) → Bool) (name : String → ν) (calls : List (ι × ν))
    (e : EventEmitter ι) (event : String) (i : ι) : EventEmitter ι × List (ι × ν) :=
  if (event, i) ∈ e.entries then
    let e : EventEmitter ι := ⟨e.entries.erase (event, i)⟩
    (e, (callAll throws calls (e.listeners "removeListener") (name event)).1)
  else (e, calls)

variable {throws : List (ι × ν) → Bool} {name : String → ν} {calls : List (ι × ν)}
  {e : EventEmitter ι} {event : String} {arg : ν} {is : List ι}

/-- The calls made are those of the first listeners, of all of them if none throws. -/
theorem callAll_eq (calls : List (ι × ν)) (is : List ι) (arg : ν) :
    ∃ n, (callAll throws calls is arg).1 = calls ++ (is.take n).map (·, arg) ∧
      (is ≠ [] → n ≠ 0) ∧ ((callAll throws calls is arg).2 = false → is.length ≤ n) := by
  induction is generalizing calls with
  | nil => exact ⟨0, (List.append_nil _).symm, fun h => absurd rfl h, fun _ => Nat.le_refl _⟩
  | cons i is ih =>
    simp only [callAll]
    by_cases hthrows : throws (calls ++ [(i, arg)]) = true
    · rw [if_pos hthrows]
      refine ⟨1, ?_, fun _ => Nat.one_ne_zero, fun h => by cases h⟩
      rw [List.take_succ_cons, List.take_zero]
      rfl
    · rw [if_neg hthrows]
      obtain ⟨n, hcalls, -, hall⟩ := ih (calls ++ [(i, arg)])
      refine ⟨n + 1, ?_, fun _ => Nat.succ_ne_zero n, fun h => Nat.succ_le_succ (hall h)⟩
      rw [hcalls, List.append_assoc]
      rfl

/-- If no listener throws, all are called in order. -/
theorem callAll_of_not_throws (h : (callAll throws calls is arg).2 = false) :
    (callAll throws calls is arg).1 = calls ++ is.map (·, arg) := by
  obtain ⟨n, hcalls, -, hall⟩ := @callAll_eq _ _ throws calls is arg
  rw [hcalls, List.take_of_length_le (hall h)]

/-- With somebody to call, a call is made, to the first of them. -/
theorem callAll_cons (throws : List (ι × ν) → Bool) (calls : List (ι × ν)) (arg : ν) (i : ι)
    (is : List ι) : ∃ more, (callAll throws calls (i :: is) arg).1 = calls ++ (i, arg) :: more := by
  obtain ⟨n, hcalls, hpos, -⟩ := @callAll_eq _ _ throws calls (i :: is) arg
  obtain ⟨n, rfl⟩ := Nat.exists_eq_succ_of_ne_zero (hpos (List.cons_ne_nil i is))
  exact ⟨_, hcalls.trans (by rw [List.take_succ_cons, List.map_cons])⟩

/-- No call is made exactly if there is nobody to call. -/
theorem callAll_eq_self_iff : (callAll throws calls is arg).1 = calls ↔ is = [] := by
  refine ⟨fun h => ?_, fun h => by rw [h]; rfl⟩
  cases is with
  | nil => rfl
  | cons i is =>
    obtain ⟨more, hcalls⟩ := callAll_cons throws calls arg i is
    rw [hcalls, List.append_right_eq_self] at h
    cases h

/-- An event with listeners, or any but `error`, calls its listeners. -/
theorem emit_eq (h : event = "error" → e.listeners event ≠ []) :
    e.emit throws calls event arg = callAll throws calls (e.listeners event) arg := by
  rw [emit, if_neg]
  rintro ⟨herror, hnil⟩
  exact h herror hnil

/-- `emit` calls nobody exactly if the event has no listeners. -/
theorem emit_eq_self_iff : (e.emit throws calls event arg).1 = calls ↔ e.listeners event = [] := by
  unfold emit
  split
  · next h => exact iff_of_true rfl h.2
  · exact callAll_eq_self_iff

/-- If nothing is thrown, every listener has been called once. -/
theorem emit_of_not_throws (h : (e.emit throws calls event arg).2 = false) :
    (e.emit throws calls event arg).1 = calls ++ (e.listeners event).map (·, arg) := by
  by_cases herror : event = "error" ∧ e.listeners event = []
  · rw [emit, if_pos herror] at h
    cases h
  · rw [emit, if_neg herror] at h ⊢
    exact callAll_of_not_throws h

/-- A new listener of an event comes last, and other events keep theirs. -/
theorem listeners_add (e : EventEmitter ι) (event event' : String) (i : ι) :
    listeners ⟨e.entries ++ [(event, i)]⟩ event' =
      if event' = event then e.listeners event' ++ [i] else e.listeners event' := by
  unfold listeners
  rw [List.filter_append, List.map_append]
  by_cases h : event' = event
  · subst h
    simp
  · rw [if_neg h, List.filter_cons_of_neg (by simpa using Ne.symm h), List.filter_nil, List.map_nil,
      List.append_nil]

variable [DecidableEq ι]

/-- A listener that is removed is missing once from its event, and other events keep theirs. -/
theorem listeners_remove (e : EventEmitter ι) (event event' : String) (i : ι) :
    listeners ⟨e.entries.erase (event, i)⟩ event' =
      if event' = event then (e.listeners event').erase i else e.listeners event' := by
  unfold listeners
  by_cases h : event' = event
  · subst h
    rw [if_pos rfl]
    induction e.entries with
    | nil => rfl
    | cons x es ih =>
      obtain ⟨event, j⟩ := x
      by_cases hevent : event = event'
      · subst hevent
        by_cases hj : j = i
        · subst hj
          simp
        · rw [List.erase_cons_tail (by simpa using hj), List.filter_cons_of_pos (by simp),
            List.filter_cons_of_pos (by simp), List.map_cons, List.map_cons,
            List.erase_cons_tail (by simpa using hj), ih]
      · rw [List.erase_cons_tail (by simpa using fun h => absurd h hevent),
          List.filter_cons_of_neg (by simpa using hevent),
          List.filter_cons_of_neg (by simpa using hevent), ih]
  · rw [if_neg h, ← List.erase_filter, List.erase_of_not_mem]
    intro hmem
    exact h (of_decide_eq_true (List.mem_filter.mp hmem).2).symm

end EventEmitter
