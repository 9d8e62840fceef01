import Datasole.Common.Machine
import Datasole.Server.State.SessionManager

/-!
# Sessions read back, one call at a time

Runs in which every call of a session manager, with the flush it starts, is over before the next
one: `set`, `delete`, `flushUser`, `flushAll`, and `snapshot` (which is also `restore`).

A snapshot replaces what is in memory for the user by the persisted record, so it takes back every
change that the record does not have yet. `get_follows_writes_iff` shows that this is all that can
go wrong: `get` returns what the last write left, all along a run, exactly if every record that a
snapshot finds has what the last writes of the user's keys left.
-/

namespace Datasole

namespace SessionCalls

variable {V : Type*}

/-- The manager, what the backend has under `session:<userId>`, and what the last write of each key
left: `some none` if it was a deletion, `none` if there was no write. -/
structure Sys (V : Type*) where
  manager : SessionManager V
  backend : String → Option (JsMap String V)
  last : String → String → Option (Option V)

inductive Call (V : Type*) where
  | set (userId key : String) (value : V) (now : ℚ)
  | delete (userId key : String)
  | flushUser (userId : String)
  | flushAll
  | snapshot (userId : String) (now : ℚ)

/-- A new manager on a backend that may have records already. -/
def init (flushThreshold : ℚ) (backend : String → Option (JsMap String V)) : Sys V where
  manager := SessionManager.new flushThreshold
  backend := backend
  last := fun _ _ => none

/-- A key is written. -/
def Sys.note (s : Sys V) (userId key : String) (left : Option V) : Sys V :=
  { s with last := Function.update s.last userId (Function.update (s.last userId) key (some left)) }

/-- `flushUser` from its first to its last await. -/
def Sys.flushUser (s : Sys V) (userId : String) : Sys V :=
  match s.manager.beginFlush userId with
  | (_, none) => s
  | (manager, some data) =>
    { s with
      manager := manager.endFlush userId
      backend := Function.update s.backend userId (some data) }

def Sys.flushAll (s : Sys V) : Sys V := s.manager.dirtyUsers.foldl Sys.flushUser s

def Sys.call (s : Sys V) : Call V → Sys V
  | .set userId key value now =>
    let (manager, flush) := s.manager.set userId key value now
    let s := { s with manager := manager }.note userId key (some value)
    if flush then s.flushUser userId else s
  | .delete userId key =>
    let s' := { s with manager := s.manager.delete userId key }
    -- a deletion that finds no key is no write
    if s.manager.deletes userId key then s'.note userId key none else s'
  | .flushUser userId => s.flushUser userId
  | .flushAll => s.flushAll
  | .snapshot userId now =>
    { s with manager := s.manager.snapshot userId (s.backend userId) now }

def step (s : Sys V) (c : Call V) : Option (Sys V) := some (s.call c)

/-- Every key that was written reads as its last write left it. -/
def Faithful (s : Sys V) : Prop :=
  ∀ userId key, ∀ left ∈ s.last userId key, s.manager.get userId key = left

/-- The record that a snapshot finds has what the last writes of the user's keys left. -/
def Agrees (s : Sys V) : Call V → Prop
  | .snapshot userId _ =>
    userId ≠ "" → ∀ record ∈ s.backend userId, ∀ key, ∀ left ∈ s.last userId key,
      record.get key = left
  | _ => True

/-! ## Flushes change nothing that is read -/

variable (s : Sys V)

/-- A flush does not change what is in memory. -/
theorem get_flushUser (userId user key : String) :
    (s.flushUser userId).manager.get user key = s.manager.get user key := by
  have hread := s.manager.get_beginFlush userId user key
  unfold Sys.flushUser
  cases hflush : s.manager.beginFlush userId with
  | mk manager data =>
    rw [hflush] at hread
    cases data with
    | none => rfl
    | some data => exact hread

theorem last_flushUser (userId : String) : (s.flushUser userId).last = s.last := by
  unfold Sys.flushUser
  split <;> rfl

/-- A flush of several users does not change what is in memory. -/
theorem get_flushUsers (users : List String) (user key : String) :
    (users.foldl Sys.flushUser s).manager.get user key = s.manager.get user key := by
  induction users generalizing s with
  | nil => rfl
  | cons u users ih => rw [List.foldl_cons, ih, get_flushUser]

theorem last_flushUsers (users : List String) : (users.foldl Sys.flushUser s).last = s.last := by
  induction users generalizing s with
  | nil => rfl
  | cons u users ih => rw [List.foldl_cons, ih, last_flushUser]

variable {s}

/-- What a write leaves is noted under its own key. -/
theorem last_note (userId key user k : String) (left : Option V) :
    (s.note userId key left).last user k =
      if user = userId ∧ k = key then some left else s.last user k := by
  rw [Sys.note]
  dsimp only
  by_cases huser : user = userId
  · subst huser
    rw [Function.update_self]
    by_cases hkey : k = key
    · rw [hkey, Function.update_self, if_pos ⟨rfl, rfl⟩]
    · rw [Function.update_of_ne hkey, if_neg fun h => hkey h.2]
  · rw [Function.update_of_ne huser, if_neg fun h => huser h.1]

/-- A flush keeps a faithful manager faithful. -/
theorem Faithful.flushUser (h : Faithful s) (userId : String) : Faithful (s.flushUser userId) := by
  intro user key left hleft
  rw [last_flushUser] at hleft
  rw [get_flushUser]
  exact h user key left hleft

/-- A write that memory and the record of writes both take. -/
theorem Faithful.note (h : Faithful s) {manager : SessionManager V} {userId key : String}
    {left : Option V}
    (hget : ∀ user k, manager.get user k =
      if user = userId ∧ k = key then left else s.manager.get user k) :
    Faithful ({ s with manager := manager }.note userId key left) := by
  intro user k e he
  rw [last_note] at he
  refine (hget user k).trans ?_
  split at he
  · next hkey => rw [if_pos hkey]; exact Option.some.inj he
  · next hkey => rw [if_neg hkey]; exact h user k e he

/-- A call keeps reads faithful exactly if it meets the condition. -/
theorem faithful_call (h : Faithful s) (c : Call V) : Agrees s c ↔ Faithful (s.call c) := by
  cases c with
  | set userId key value now =>
    have hset : Faithful ({ s with manager := (s.manager.set userId key value now).1 }.note
        userId key (some value)) :=
      h.note (s.manager.get_set userId key · · value now)
    refine iff_of_true trivial ?_
    rw [Sys.call]
    dsimp only
    split
    · -- a flush only resets the counter
      exact hset.flushUser userId
    · exact hset
  | delete userId key =>
    refine iff_of_true trivial ?_
    rw [Sys.call]
    split
    · exact h.note (s.manager.get_delete userId key)
    · next hnot =>
      -- a `delete` of what is not there leaves no trace, and the key has no value
      rw [SessionManager.deletes_iff, Option.not_isSome_iff_eq_none] at hnot
      intro user k left hleft
      refine (s.manager.get_delete userId key user k).trans ?_
      split
      · next hkey => rw [← h user k left hleft, hkey.1, hkey.2, hnot]
      · exact h user k left hleft
  | flushUser userId => exact iff_of_true trivial (h.flushUser userId)
  -- flushing changes neither what is in memory nor what was written last
  | flushAll =>
    refine iff_of_true trivial fun user key left hleft => ?_
    rw [Sys.call, Sys.flushAll, last_flushUsers] at hleft
    rw [Sys.call, Sys.flushAll, get_flushUsers]
    exact h user key left hleft
  | snapshot userId now =>
    rw [Agrees, Sys.call]
    by_cases huser : userId = ""
    · refine iff_of_true (absurd huser) ?_
      rw [huser, SessionManager.snapshot_anonymous]
      exact h
    cases hrecord : s.backend userId with
    | none =>
      refine iff_of_true nofun ?_
      rw [SessionManager.snapshot_none]
      exact h
    | some record =>
      -- a snapshot puts the record in the place of what is in memory
      have hget := s.manager.get_snapshot huser record now
      constructor
      · intro hagrees user key left hleft
        refine (hget user key).trans ?_
        split
        · next heq =>
          subst heq
          exact hagrees huser record rfl key left hleft
        · exact h user key left hleft
      · intro hfaithful _ r hr key left hleft
        obtain rfl := Option.some.inj hr
        rw [← hfaithful userId key left hleft]
        exact ((hget userId key).trans (if_pos rfl)).symm

/-- All along a run `get` returns what the last write of the key left, exactly if the records that
snapshots find have what the last writes of the user's keys left. -/
theorem get_follows_writes_iff (flushThreshold : ℚ) (backend : String → Option (JsMap String V))
    (calls : List (Call V)) :
    (∀ done rest s, calls = done ++ rest →
      Machine.exec step (init flushThreshold backend) done = some s →
        ∀ userId key, ∀ left ∈ s.last userId key, s.manager.get userId key = left) ↔
      Machine.Guarded step Agrees (init flushThreshold backend) calls := by
  have hinit : Faithful (init flushThreshold backend) := fun _ _ _ hleft => nomatch hleft
  refine Machine.forall_exec_iff_guarded (I := Faithful) (fun s c h => ?_) hinit
  simp [step, faithful_call h c]

/-- A key is flushed, set again and, before the next flush, read through a snapshot. -/
def staleSnapshot : List (Call ℕ) :=
  [.set "u" "k" 1 0, .flushUser "u", .set "u" "k" 2 0, .snapshot "u" 0]

/-- The second write is taken back. -/
theorem snapshot_takes_back : ∃ s,
    Machine.exec step (init 10 fun _ => none) staleSnapshot = some s ∧
    s.last "u" "k" = some (some 2) ∧ s.manager.get "u" "k" = some 1 := by
  obtain ⟨s, hrun, htest⟩ := Machine.exists_exec_of_test
    (show (Machine.exec step (init 10 fun _ => none) staleSnapshot).map (fun s =>
      decide (s.last "u" "k" = some (some 2) ∧ s.manager.get "u" "k" = some 1)) = some true by
      decide +kernel)
  exact ⟨s, hrun, of_decide_eq_true htest⟩

end SessionCalls

end Datasole
