import Datasole.Common.Machine
import Datasole.Server.State.SessionManager

/-!
# Sessions that are written back

Runs of a session manager: calls of `set`, `delete` and the flushes at any time, also while a flush
waits for the backend, and at the end `destroy`. The backend takes the writes in the order issued,
each some time after it was issued.

`destroy` flushes the users whose counter is positive, so what keeps a change from being lost is
`Saved`: a counter of zero means that the last write issued for the user holds the user's map.
`run_saves` shows that resetting a counter while the last write is out of date is the only way to
lose a change.
-/

namespace Datasole

namespace SessionRun

variable {V : Type*}

/-- Where a call of `flushUser` waits. -/
inductive FlushPhase where
  | set | publish
deriving DecidableEq

/-- A call of `flushUser` in flight, with the number of its write. -/
structure Flush where
  userId : String
  write : ℕ
  phase : FlushPhase
deriving DecidableEq

/-- The manager, the writes issued so far in order, how many of them have taken effect, the flushes
in flight, and whether `destroy` was called. -/
structure Sys (V : Type*) where
  manager : SessionManager V
  writes : List (String × JsMap String V)
  effective : ℕ
  flushes : List Flush
  destroyed : Bool

/-- The calls that may come at any time before `destroy`; the interval calls `flushAll`. -/
inductive Call (V : Type*) where
  | set (userId key : String) (value : V) (now : ℚ)
  | delete (userId key : String)
  | flushUser (userId : String)
  | flushAll

inductive Act (V : Type*) where
  | call (c : Call V)
  | destroy
  /-- The backend performs the next write. -/
  | takeEffect
  /-- The `k`-th flush in flight goes on to its next await. -/
  | advance (k : ℕ)

def init (flushThreshold : ℚ) : Sys V where
  manager := SessionManager.new flushThreshold
  writes := []
  effective := 0
  flushes := []
  destroyed := false

/-- Start a `flushUser`: it issues its write at once. -/
def Sys.flushUser (s : Sys V) (userId : String) : Sys V :=
  match s.manager.beginFlush userId with
  | (_, none) => s
  | (manager, some data) =>
    { s with
      manager := manager
      writes := s.writes ++ [(userId, data)]
      flushes := s.flushes ++ [⟨userId, s.writes.length, .set⟩] }

def Sys.flushAll (s : Sys V) : Sys V := s.manager.dirtyUsers.foldl Sys.flushUser s

/-- The synchronous part of a call. -/
def Sys.call (s : Sys V) : Call V → Sys V
  | .set userId key value now =>
    let (manager, flush) := s.manager.set userId key value now
    let s := { s with manager := manager }
    if flush then s.flushUser userId else s
  | .delete userId key => { s with manager := s.manager.delete userId key }
  | .flushUser userId => s.flushUser userId
  | .flushAll => s.flushAll

/-- After `destroy` nothing else runs: only what is in flight goes on. -/
def step (s : Sys V) : Act V → Option (Sys V)
  | .call c => if s.destroyed then none else some (s.call c)
  | .destroy => if s.destroyed then none else some { s.flushAll with destroyed := true }
  | .takeEffect =>
    if s.effective < s.writes.length then some { s with effective := s.effective + 1 } else none
  | .advance k =>
    match s.flushes[k]? with
    | none => none
    | some flush =>
      match flush.phase with
      | .set =>
        -- `backend.set` resolves when its write has taken effect
        if flush.write < s.effective then
          some { s with flushes := s.flushes.set k { flush with phase := .publish } }
        else none
      | .publish =>
        some { s with
          manager := s.manager.endFlush flush.userId
          flushes := s.flushes.eraseIdx k }

/-- The last of some writes for a user. -/
def lastFor (writes : List (String × JsMap String V)) (userId : String) : Option (JsMap String V) :=
  ((writes.filter (·.1 = userId)).getLast?).map Prod.snd

/-- What the backend holds under `session:<userId>`. -/
def Sys.stored (s : Sys V) (userId : String) : Option (JsMap String V) :=
  lastFor (s.writes.take s.effective) userId

/-- The last write issued for a user holds the user's map. -/
def Saved (s : Sys V) (userId : String) : Prop :=
  ∀ session ∈ s.manager.sessions.get userId,
    lastFor s.writes userId = some (SessionManager.record session)

/-- A flush that resets a counter does so while the last write issued for its user is up to date. -/
def ResetsSaved (s : Sys V) : Act V → Prop
  | .advance k => ∀ flush ∈ s.flushes[k]?, flush.phase = .publish → Saved s flush.userId
  | _ => True

/-- `destroy` was called and nothing is in flight. -/
def Ended (s : Sys V) : Prop :=
  s.destroyed = true ∧ s.flushes = [] ∧ s.effective = s.writes.length

/-! ## Nothing is lost -/

variable {s t : Sys V}

/-- The last write issued for a user, after one more. -/
theorem lastFor_concat (writes : List (String × JsMap String V)) (userId user : String)
    (data : JsMap String V) :
    lastFor (writes ++ [(userId, data)]) user =
      if user = userId then some data else lastFor writes user := by
  unfold lastFor
  rw [List.filter_append]
  by_cases h : user = userId
  · subst h; simp
  · simp [h, Ne.symm h]

/-- Starting a flush of a user saves that user and leaves every other one as saved as before. -/
theorem saved_flushUser {userId user : String} (h : user = userId ∨ Saved s user) :
    Saved (s.flushUser userId) user := by
  unfold Sys.flushUser SessionManager.beginFlush
  cases hu : s.manager.sessions.get userId with
  | none =>
    rcases h with rfl | h
    · intro session hs
      rw [hu] at hs
      cases hs
    · exact h
  | some session =>
    intro session' hs
    simp only [JsMap.get_set] at hs
    simp only [lastFor_concat]
    by_cases huser : user = userId
    · rw [if_pos huser] at hs
      rw [if_pos huser, ← Option.some.inj hs, SessionManager.record_clear]
    · rw [if_neg huser] at hs ⊢
      exact h.resolve_left huser session' hs

/-- A flush that begins resets no counter and keeps every map. -/
theorem manager_flushUser (userId user : String) :
    (s.flushUser userId).manager.dirty user = s.manager.dirty user ∧
      (s.flushUser userId).destroyed = s.destroyed ∧
      ((s.flushUser userId).manager.sessions.get user).isSome =
        (s.manager.sessions.get user).isSome := by
  unfold Sys.flushUser SessionManager.beginFlush
  cases hu : s.manager.sessions.get userId with
  | none => exact ⟨rfl, rfl, rfl⟩
  | some session =>
    refine ⟨rfl, rfl, ?_⟩
    simp only [JsMap.get_set]
    by_cases huser : user = userId
    · rw [if_pos huser, huser, hu]; rfl
    · rw [if_neg huser]

/-- Flushing several users saves each of them. -/
theorem flushUsers (users : List String) :
    (∀ user, user ∈ users ∨ Saved s user → Saved (users.foldl Sys.flushUser s) user) ∧
      (∀ user, (users.foldl Sys.flushUser s).manager.dirty user = s.manager.dirty user) ∧
      (users.foldl Sys.flushUser s).destroyed = s.destroyed ∧
      ∀ user, ((users.foldl Sys.flushUser s).manager.sessions.get user).isSome =
        (s.manager.sessions.get user).isSome := by
  induction users generalizing s with
  | nil => exact ⟨fun user h => h.resolve_left List.not_mem_nil, fun _ => rfl, rfl, fun _ => rfl⟩
  | cons u users ih =>
    obtain ⟨hsaved, hdirty, hdestroyed, hsome⟩ := @ih (s.flushUser u)
    refine ⟨fun user h => hsaved user ?_, fun user => ?_, ?_, fun user => ?_⟩
    · rcases h with h | h
      · rcases List.mem_cons.mp h with rfl | h
        · exact Or.inr (saved_flushUser (Or.inl rfl))
        · exact Or.inl h
      · exact Or.inr (saved_flushUser (Or.inr h))
    · exact (hdirty user).trans (manager_flushUser u user).1
    · exact hdestroyed.trans (manager_flushUser u u).2.1
    · exact (hsome user).trans (manager_flushUser u user).2.2

/-- Every user is saved, or will be flushed by `destroy`. -/
def Inv (s : Sys V) : Prop :=
  ∀ user, Saved s user ∨ (s.destroyed = false ∧ 0 < s.manager.dirty user)

/-- A flush that begins issues a write of what is in memory. -/
theorem Inv.flushUser (h : Inv s) (userId : String) : Inv (s.flushUser userId) := by
  intro user
  obtain ⟨hdirty, hdestroyed, -⟩ := @manager_flushUser V s userId user
  rw [hdirty, hdestroyed]
  exact (h user).imp_left fun hsaved => saved_flushUser (Or.inr hsaved)

/-- So does `flushAll` for every user that it flushes. -/
theorem Inv.flushAll (h : Inv s) : Inv s.flushAll := by
  intro user
  obtain ⟨hsaved, hdirty, hdestroyed, -⟩ := @flushUsers V s s.manager.dirtyUsers
  rw [Sys.flushAll, hdirty, hdestroyed]
  exact (h user).imp_left fun hs => hsaved user (Or.inr hs)

/-- After `destroy` every user is saved. -/
theorem Inv.saved_flushAll (h : Inv s) (user : String) : Saved s.flushAll user := by
  refine (@flushUsers V s s.manager.dirtyUsers).1 user ?_
  rcases h user with hs | ⟨-, hd⟩
  · exact Or.inr hs
  · exact Or.inl (s.manager.mem_dirtyUsers hd)

/-- A change marks its user as unsaved and touches nobody else. -/
theorem Inv.change (h : Inv s) (hdestroyed : s.destroyed = false) {userId : String}
    {manager : SessionManager V} (hdirty : 0 < manager.dirty userId)
    (hother : ∀ user, user ≠ userId → manager.sessions.get user = s.manager.sessions.get user ∧
      manager.dirty user = s.manager.dirty user) :
    Inv { s with manager := manager } := by
  intro user
  by_cases huser : user = userId
  · subst huser
    exact Or.inr ⟨hdestroyed, hdirty⟩
  · obtain ⟨hsession, hd⟩ := hother user huser
    exact (h user).imp (fun hs session hget => hs session (hsession.symm.trans hget))
      fun hs => ⟨hs.1, hs.2.trans_eq hd.symm⟩

theorem inv_init (flushThreshold : ℚ) : Inv (init flushThreshold : Sys V) :=
  fun _ => Or.inl fun _ h => by cases h

/-- A `set` flushes its user when it reaches the threshold. -/
theorem call_set (userId key : String) (value : V) (now : ℚ) :
    s.call (.set userId key value now) =
      if (s.manager.set userId key value now).2 = true then
        { s with manager := (s.manager.set userId key value now).1 }.flushUser userId
      else { s with manager := (s.manager.set userId key value now).1 } := rfl

/-- A call counts the change that it makes, or flushes it. -/
theorem Inv.call (h : Inv s) (hdestroyed : s.destroyed = false) (c : Call V) : Inv (s.call c) := by
  cases c with
  | set userId key value now =>
    have hpos : 0 < (s.manager.set userId key value now).1.dirty userId := by
      rw [SessionManager.dirty_set, if_pos rfl]
      exact Nat.succ_pos _
    have hchange : Inv { s with manager := (s.manager.set userId key value now).1 } := by
      refine h.change hdestroyed hpos fun user huser => ⟨?_, ?_⟩
      · rw [SessionManager.set, JsMap.get_set_ne _ huser]
      · rw [SessionManager.dirty_set, if_neg huser]
    rw [call_set]
    split
    · exact hchange.flushUser userId
    · exact hchange
  | delete userId key =>
    rcases s.manager.delete_cases userId key with hm | ⟨hpos, hother⟩
    · rw [Sys.call, hm]
      exact h
    · exact h.change hdestroyed hpos hother
  | flushUser userId => exact h.flushUser userId
  | flushAll => exact h.flushAll

/-- What a step does: calls, until the manager is destroyed, a write that takes effect, and a flush
that goes on. -/
theorem step_cases {a : Act V} (hs : step s a = some t) :
    (∃ c, a = .call c ∧ s.destroyed = false ∧ t = s.call c) ∨
      (a = .destroy ∧ t = { s.flushAll with destroyed := true }) ∨
      (a = .takeEffect ∧ t = { s with effective := s.effective + 1 }) ∨
      ∃ k flush, a = .advance k ∧ s.flushes[k]? = some flush ∧
        (flush.phase = .set ∧
            t = { s with flushes := s.flushes.set k { flush with phase := .publish } } ∨
          flush.phase = .publish ∧
            t = { s with
              manager := s.manager.endFlush flush.userId
              flushes := s.flushes.eraseIdx k }) := by
  cases a with
  | call c =>
    simp only [step, Option.ite_none_left_eq_some, Option.some.injEq, Bool.not_eq_true] at hs
    exact .inl ⟨c, rfl, hs.1, hs.2.symm⟩
  | destroy =>
    simp only [step, Option.ite_none_left_eq_some, Option.some.injEq] at hs
    exact .inr (.inl ⟨rfl, hs.2.symm⟩)
  | takeEffect =>
    simp only [step, Option.ite_none_right_eq_some, Option.some.injEq] at hs
    exact .inr (.inr (.inl ⟨rfl, hs.2.symm⟩))
  | advance k =>
    refine .inr (.inr (.inr ?_))
    cases hk : s.flushes[k]? with
    | none => simp [step, hk] at hs
    | some flush =>
      refine ⟨k, flush, rfl, hk, ?_⟩
      cases hphase : flush.phase with
      | set =>
        simp only [step, hk, hphase, Option.ite_none_right_eq_some, Option.some.injEq] at hs
        exact .inl ⟨rfl, hs.2.symm⟩
      | publish =>
        simp only [step, hk, hphase, Option.some.injEq] at hs
        exact .inr ⟨rfl, hs.symm⟩

/-- Every step keeps the invariant that resets only the counters of saved users. -/
theorem inv_step {a : Act V} (h : Inv s) (hg : ResetsSaved s a)
    (hs : step s a = some t) : Inv t := by
  obtain ⟨c, rfl, hd, rfl⟩ | ⟨rfl, rfl⟩ | ⟨rfl, rfl⟩ | ⟨k, flush, rfl, hk, hphase⟩ := step_cases hs
  · exact h.call hd c
  · exact fun user => Or.inl (h.saved_flushAll user)
  · exact h
  · rcases hphase with ⟨-, rfl⟩ | ⟨hphase, rfl⟩
    · exact h
    · -- the counter goes to zero, so the user has to be saved already
      have hsaved : Saved s flush.userId := hg flush hk hphase
      intro user
      by_cases huser : user = flush.userId
      · subst huser
        exact Or.inl hsaved
      · have hdirty : (s.manager.endFlush flush.userId).dirty user = s.manager.dirty user := by
          rw [SessionManager.dirty, SessionManager.endFlush, JsMap.get_set_ne _ huser,
            SessionManager.dirty]
        exact (h user).imp_right fun hd => ⟨hd.1, by rw [hdirty]; exact hd.2⟩

/-- A written user has a session. -/
theorem isSome_set (userId key : String) (value : V) (now : ℚ) :
    ((s.call (.set userId key value now)).manager.sessions.get userId).isSome := by
  have hset : ((s.manager.set userId key value now).1.sessions.get userId).isSome := by
    rw [SessionManager.set, JsMap.get_set_self]
    rfl
  rw [call_set]
  split
  · exact (manager_flushUser userId userId).2.2.trans hset
  · exact hset

/-- No call takes a session away. -/
theorem isSome_call (c : Call V) {user : String} (h : (s.manager.sessions.get user).isSome) :
    ((s.call c).manager.sessions.get user).isSome := by
  cases c with
  | set userId key value now =>
    have hset : ((s.manager.set userId key value now).1.sessions.get user).isSome := by
      rw [SessionManager.set, JsMap.get_set]
      split
      · rfl
      · exact h
    rw [call_set]
    split
    · exact (manager_flushUser userId user).2.2.trans hset
    · exact hset
  | delete userId key => exact s.manager.isSome_delete userId key h
  | flushUser userId => exact (manager_flushUser userId user).2.2.trans h
  | flushAll => exact ((flushUsers _).2.2.2 user).trans h

/-- No step forgets a user. -/
theorem isSome_step {a : Act V} {user : String} (hs : step s a = some t)
    (h : (s.manager.sessions.get user).isSome) : (t.manager.sessions.get user).isSome := by
  obtain ⟨c, -, -, rfl⟩ | ⟨-, rfl⟩ | ⟨-, rfl⟩ | ⟨k, flush, -, -, ⟨-, rfl⟩ | ⟨-, rfl⟩⟩ :=
    step_cases hs
  · exact isSome_call c h
  · exact ((flushUsers _).2.2.2 user).trans h
  · exact h
  · exact h
  · exact h

/-- A user that was ever written has a session from then on. -/
theorem isSome_of_written {flushThreshold : ℚ} {acts : List (Act V)}
    (hrun : Machine.exec step (init flushThreshold) acts = some s) {user key : String} {value : V}
    {now : ℚ} (hset : Act.call (.set user key value now) ∈ acts) :
    (s.manager.sessions.get user).isSome := by
  refine Machine.exec_history (I := fun acts (s : Sys V) => ∀ key value now,
    Act.call (.set user key value now) ∈ acts → (s.manager.sessions.get user).isSome) ?_ ?_ hrun
      key value now hset
  · intro acts s a t ih hs key value now hmem
    rcases List.mem_append.mp hmem with hmem | hmem
    · exact isSome_step hs (ih key value now hmem)
    · rw [← List.mem_singleton.mp hmem] at hs
      simp only [step, Option.ite_none_left_eq_some, Option.some.injEq] at hs
      obtain ⟨-, rfl⟩ := hs
      exact isSome_set user key value now
  · intro key value now hmem
    cases hmem

/-- The backend holds exactly what the user's map holds. -/
def Persisted (s : Sys V) (user : String) : Prop :=
  ∃ session record, s.manager.sessions.get user = some session ∧ s.stored user = some record ∧
    ∀ key, record.get key = (session.get key).map SessionState.data

/-- The user's map has no key that a plain object cannot have. -/
def NoProtoKey (s : Sys V) (user : String) : Prop :=
  ∀ session ∈ s.manager.sessions.get user, session.get "__proto__" = none

/-- In every run in which no counter is reset while the last write issued for its user is out of
date, `destroy` leaves every user that was ever written as it is in memory, as long as no key is
`__proto__`. -/
theorem run_saves (flushThreshold : ℚ) (acts : List (Act V))
    (hg : Machine.Guarded step ResetsSaved (init flushThreshold) acts)
    (hrun : Machine.exec step (init flushThreshold) acts = some s) (hend : Ended s) (user : String)
    (hwritten : ∃ key value now, Act.call (.set user key value now) ∈ acts) :
    Persisted s user ↔ NoProtoKey s user := by
  have hinv : Inv s := Machine.exec_invariant_guarded (fun _ _ _ h hg hs => inv_step h hg hs)
    (inv_init flushThreshold) hg hrun
  obtain ⟨hdestroyed, -, heffective⟩ := hend
  obtain ⟨key, value, now, hset⟩ := hwritten
  obtain ⟨session, hsession⟩ := Option.isSome_iff_exists.mp (isSome_of_written hrun hset)
  have hsaved : Saved s user := by
    refine (hinv user).resolve_right fun hd => ?_
    rw [hdestroyed] at hd
    cases hd.1
  have hstored : s.stored user = some (SessionManager.record session) := by
    rw [Sys.stored, heffective, List.take_length]
    exact hsaved session hsession
  constructor
  · rintro ⟨session', record, hs', hr, hall⟩ session'' hs''
    obtain rfl : session' = session'' := Option.some.inj (hs'.symm.trans hs'')
    obtain rfl : session' = session := Option.some.inj (hs'.symm.trans hsession)
    have hproto := hall "__proto__"
    rw [Option.some.inj (hr.symm.trans hstored), SessionManager.get_record, if_pos rfl] at hproto
    exact Option.map_eq_none_iff.mp hproto.symm
  · intro hproto
    refine ⟨session, _, hsession, hstored, fun k => ?_⟩
    rw [SessionManager.get_record]
    split
    · next hk => rw [hk, hproto session hsession]; rfl
    · rfl

instance [DecidableEq V] (s : Sys V) (user : String) : Decidable (Saved s user) :=
  inferInstanceAs (Decidable (∀ session ∈ s.manager.sessions.get user,
    lastFor s.writes user = some (SessionManager.record session)))

instance [DecidableEq V] (s : Sys V) : DecidablePred (ResetsSaved s)
  | .advance k => inferInstanceAs (Decidable
      (∀ flush ∈ s.flushes[k]?, flush.phase = .publish → Saved s flush.userId))
  | .call _ | .destroy | .takeEffect => .isTrue trivial

instance : DecidablePred (Ended (V := V)) := fun _ => inferInstanceAs (Decidable (_ ∧ _ ∧ _))

/-- A flush by the threshold, one by the interval, and a last change that only `destroy` saves. -/
def savedRun : List (Act ℤ) :=
  [.call (.set "u1" "a" 1 0), .call (.set "u1" "b" 2 0), .takeEffect, .advance 0, .advance 0,
    .call (.delete "u1" "a"), .call .flushAll, .takeEffect, .advance 0, .advance 0,
    .call (.set "u1" "c" 3 1), .destroy, .takeEffect, .advance 0, .advance 0]

/-- In the example everything is persisted in the end. -/
theorem savedRun_persisted :
    ∃ s, Machine.exec step (init 2) savedRun = some s ∧ Persisted s "u1" := by
  obtain ⟨s, hrun, hend⟩ := Machine.exists_exec_of_test
    (show (Machine.exec step (init 2) savedRun).map (fun s => decide (Ended s ∧
      ∀ session ∈ s.manager.sessions.get "u1", session.get "__proto__" = none)) = some true by
        decide)
  obtain ⟨hended, hproto⟩ := of_decide_eq_true hend
  exact ⟨s, hrun, (run_saves 2 savedRun (by decide) hrun hended "u1"
    ⟨"a", 1, 0, List.mem_cons_self⟩).mpr hproto⟩

/-- The key `b` is set while a flush of `a` waits for the backend; the flush resets the counter, and
`destroy` finds nothing to save. -/
def lostRun : List (Act ℤ) :=
  [.call (.set "u1" "a" 1 0), .call .flushAll, .call (.set "u1" "b" 2 1), .takeEffect, .advance 0,
    .advance 0, .destroy]

/-- In this one the key `b` is not. -/
theorem set_during_flush_is_lost :
    ∃ s, Machine.exec step (init 10) lostRun = some s ∧ Ended s ∧ ¬ Persisted s "u1" := by
  obtain ⟨s, hrun, hend⟩ := Machine.exists_exec_of_test
    (show (Machine.exec step (init 10) lostRun).map (fun s => decide (Ended s ∧
      (∀ session ∈ s.manager.sessions.get "u1", (session.get "b").isSome) ∧
      ∀ record ∈ s.stored "u1", record.get "b" = none)) = some true by decide)
  obtain ⟨hended, hmemory, hbackend⟩ := of_decide_eq_true hend
  refine ⟨s, hrun, hended, ?_⟩
  rintro ⟨session, record, hsession, hrecord, hall⟩
  have hb := hmemory session hsession
  rw [Option.map_eq_none_iff.mp ((hall "b").symm.trans (hbackend record hrecord))] at hb
  cases hb

end SessionRun

end Datasole
