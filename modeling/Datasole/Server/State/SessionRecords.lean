import Datasole.Server.State.SessionCalls

/-!
# The persisted record over several managers

Runs of the calls of `SessionCalls`, with `evict`, `destroy` and the start of a new manager on the
same backend. A flush writes the user's map as it is in memory in place of the whole record, so a
key that was persisted and is not in memory, because it was never loaded or was evicted, is erased
by it.

`KeepsKeys` is the condition that no flush does so. `record_changes_iff` shows that it is met all
along a run exactly if every key of every record is changed and removed only by writes of that key.
-/

namespace Datasole

namespace SessionCalls

variable {V : Type*}

inductive Act (V : Type*) where
  | call (c : Call V)
  | evict (userId : String)
  | destroy
  /-- A new manager on the same backend. -/
  | restart (flushThreshold : ℚ)

/-- The state in which the flushes of an action begin. -/
def beforeFlush (s : Sys V) : Act V → Sys V
  | .call (.set userId key value now) =>
    { s with manager := (s.manager.set userId key value now).1 }.note userId key (some value)
  | _ => s

/-- The users that an action flushes. -/
def flushed (s : Sys V) : Act V → List String
  | .call (.set userId key value now) =>
    if (s.manager.set userId key value now).2 then [userId] else []
  | .call (.flushUser userId) | .evict userId => [userId]
  | .call .flushAll | .destroy => s.manager.dirtyUsers
  | .call (.delete ..) | .call (.snapshot ..) | .restart _ => []

def act (s : Sys V) : Act V → Option (Sys V)
  | .call c => some (s.call c)
  | .evict userId =>
    let s := s.flushUser userId
    some { s with manager := s.manager.forget userId }
  | .destroy => some s.flushAll
  | .restart flushThreshold => some { s with manager := SessionManager.new flushThreshold }

/-- The value of a key in the persisted record. -/
def Sys.persisted (s : Sys V) (userId key : String) : Option V :=
  (s.backend userId).bind fun record => record.get key

/-- Every persisted key of the user is in memory, and not the name of the prototype, or was
deleted. -/
def Covered (s : Sys V) (userId : String) : Prop :=
  (s.manager.sessions.get userId).isSome → ∀ key, (s.persisted userId key).isSome →
    (s.manager.get userId key).isSome ∧ key ≠ "__proto__" ∨ s.last userId key = some none

/-- Every flush of the action covers the record that it overwrites. -/
def KeepsKeys (s : Sys V) (a : Act V) : Prop :=
  ∀ userId ∈ flushed s a, Covered (beforeFlush s a) userId

/-- A persisted key keeps its value, or it is as the last write of the key left it. -/
def OnlyWritten (s t : Sys V) : Prop :=
  ∀ userId key, (s.persisted userId key).isSome →
    t.persisted userId key = s.persisted userId key ∨
      t.last userId key = some (t.persisted userId key)

/-! ## What a flush writes -/

variable (s : Sys V)

/-- A flush overwrites the record of its user with what is in memory, but for `__proto__`. -/
theorem persisted_flushUser (userId user key : String) :
    (s.flushUser userId).persisted user key =
      if user = userId ∧ (s.manager.sessions.get userId).isSome then
        if key = "__proto__" then none else s.manager.get user key
      else s.persisted user key := by
  unfold Sys.flushUser SessionManager.beginFlush
  cases hsession : s.manager.sessions.get userId with
  | none => simp
  | some session =>
    simp only [Sys.persisted, Option.isSome_some, and_true]
    by_cases huser : user = userId
    · subst huser
      rw [Function.update_self, if_pos rfl, Option.bind_some, SessionManager.get_record,
        SessionManager.get, hsession, Option.bind_some]
    · rw [Function.update_of_ne huser, if_neg huser]

/-- A flush keeps the map of every user. -/
theorem isSome_flushUser (userId user : String) :
    ((s.flushUser userId).manager.sessions.get user).isSome = (s.manager.sessions.get user).isSome := by
  unfold Sys.flushUser SessionManager.beginFlush
  cases hsession : s.manager.sessions.get userId with
  | none => rfl
  | some session =>
    simp only [SessionManager.endFlush, JsMap.get_set]
    split
    · next h => rw [h, hsession]; rfl
    · rfl

/-- So several flushes overwrite the records of their users. -/
theorem persisted_flushUsers (users : List String) (user key : String) :
    (users.foldl Sys.flushUser s).persisted user key =
      if user ∈ users ∧ (s.manager.sessions.get user).isSome then
        if key = "__proto__" then none else s.manager.get user key
      else s.persisted user key := by
  induction users generalizing s with
  | nil => simp
  | cons u users ih =>
    rw [List.foldl_cons, ih, get_flushUser, isSome_flushUser, persisted_flushUser]
    by_cases huser : user = u
    · subst huser
      by_cases hsome : (s.manager.sessions.get user).isSome <;> simp [hsome]
    · simp [huser]

variable {s} {t : Sys V} {a : Act V}

/-- What is done before a flush persists nothing. -/
theorem persisted_beforeFlush (s : Sys V) (a : Act V) :
    (beforeFlush s a).persisted = s.persisted := by
  unfold beforeFlush
  split <;> rfl

/-- An action leaves in the backend what its flushes write. -/
theorem persisted_act (hs : act s a = some t) :
    t.persisted = ((flushed s a).foldl Sys.flushUser (beforeFlush s a)).persisted := by
  cases a with
  | call c =>
    obtain rfl := Option.some.inj hs
    cases c with
    | set userId key value now =>
      rw [Sys.call, flushed, beforeFlush]
      dsimp only
      split <;> rfl
    | delete userId key =>
      rw [Sys.call]
      split <;> rfl
    | flushUser userId => rfl
    | flushAll => rfl
    | snapshot userId now => rfl
  | evict userId => obtain rfl := Option.some.inj hs; rfl
  | destroy => obtain rfl := Option.some.inj hs; rfl
  | restart flushThreshold => obtain rfl := Option.some.inj hs; rfl

/-- An action that flushes writes no key after its flushes have begun. -/
theorem last_act (hs : act s a = some t) (hflush : flushed s a ≠ []) :
    t.last = (beforeFlush s a).last := by
  cases a with
  | call c =>
    obtain rfl := Option.some.inj hs
    cases c with
    | set userId key value now =>
      rw [Sys.call, beforeFlush]
      dsimp only
      split
      · exact last_flushUser _ _
      · rfl
    | delete userId key => exact absurd rfl hflush
    | flushUser userId => exact last_flushUser _ _
    | flushAll => exact last_flushUsers _ _
    | snapshot userId now => exact absurd rfl hflush
  | evict userId => obtain rfl := Option.some.inj hs; exact last_flushUser _ _
  | destroy => obtain rfl := Option.some.inj hs; exact last_flushUsers _ _
  | restart flushThreshold => exact absurd rfl hflush

/-! ## What is in memory was written or loaded -/

/-- A value in memory is the last one written, or it is persisted. -/
def Known (s : Sys V) : Prop :=
  ∀ userId key, key ≠ "__proto__" → ∀ value ∈ s.manager.get userId key,
    s.last userId key = some (some value) ∨ s.persisted userId key = some value

/-- A flush keeps what is known. -/
theorem Known.flushUser (h : Known s) (userId : String) : Known (s.flushUser userId) := by
  intro user key hkey value hvalue
  rw [get_flushUser] at hvalue
  rw [last_flushUser, persisted_flushUser, if_neg hkey]
  refine (h user key hkey value hvalue).imp_right fun hpersisted => ?_
  split
  · exact hvalue
  · exact hpersisted

/-- So do several flushes. -/
theorem Known.flushUsers (h : Known s) (users : List String) :
    Known (users.foldl Sys.flushUser s) := by
  induction users generalizing s with
  | nil => exact h
  | cons u users ih => exact ih (h.flushUser u)

/-- So does what is done before a flush. -/
theorem Known.beforeFlush (h : Known s) (a : Act V) : Known (beforeFlush s a) := by
  unfold SessionCalls.beforeFlush
  split
  · intro user k hk v hv
    rw [last_note]
    refine (?_ : _ ∨ s.persisted user k = some v)
    have hv' := (SessionManager.get_set _ _ _ user k _ _).symm.trans hv
    split
    · next hkey =>
      rw [if_pos hkey] at hv'
      exact Or.inl (congrArg some hv')
    · next hkey =>
      rw [if_neg hkey] at hv'
      exact h user k hk v hv'
  · exact h

/-- Every call keeps what is known: a value that is read from the backend is persisted there. -/
theorem Known.act (h : Known s) (hs : act s a = some t) : Known t := by
  have hflush := (h.beforeFlush a).flushUsers (flushed s a)
  cases a with
  | call c =>
    obtain rfl := Option.some.inj hs
    cases c with
    | set userId key value now =>
      rw [Sys.call]
      rw [flushed, SessionCalls.beforeFlush] at hflush
      dsimp only
      split
      · next hreached => rwa [if_pos hreached] at hflush
      · next hreached => rwa [if_neg hreached] at hflush
    | delete userId key =>
      intro user k hk v hv
      have hget : ¬(user = userId ∧ k = key) ∧ s.manager.get user k = some v := by
        rw [Sys.call] at hv
        have hv' : (s.manager.delete userId key).get user k = some v := by
          split at hv <;> exact hv
        rw [SessionManager.get_delete] at hv'
        split at hv'
        · cases hv'
        · exact ⟨‹_›, hv'⟩
      rw [Sys.call]
      split
      · rw [last_note, if_neg hget.1]
        exact h user k hk v hget.2
      · exact h user k hk v hget.2
    | flushUser userId => exact hflush
    | flushAll => exact hflush
    | snapshot userId now =>
      rw [Sys.call]
      by_cases huser : userId = ""
      · rw [huser, SessionManager.snapshot_anonymous]
        exact h
      cases hrecord : s.backend userId with
      | none =>
        rw [SessionManager.snapshot_none]
        exact h
      | some record =>
        intro user k hk v hv
        have hv' := (s.manager.get_snapshot huser record now user k).symm.trans hv
        split at hv'
        · next heq =>
          -- what was loaded is what is persisted
          refine Or.inr ?_
          rw [heq]
          show (s.backend userId).bind _ = _
          rw [hrecord]
          exact hv'
        · exact h user k hk v hv'
  | evict userId =>
    obtain rfl := Option.some.inj hs
    intro user k hk v hv
    have hv' := ((s.flushUser userId).manager.get_forget userId user k).symm.trans hv
    split at hv'
    · cases hv'
    · exact hflush user k hk v hv'
  | destroy => obtain rfl := Option.some.inj hs; exact hflush
  | restart flushThreshold =>
    obtain rfl := Option.some.inj hs
    intro user k hk v hv
    cases hv

/-- The flushes keep a record to what was written exactly if they cover it. -/
theorem covered_iff (h : Known s) (users : List String) :
    (∀ userId ∈ users, Covered s userId) ↔ OnlyWritten s (users.foldl Sys.flushUser s) := by
  constructor
  · intro hcovered user key hsome
    rw [persisted_flushUsers, last_flushUsers]
    split
    · next hflush =>
      have hcov := hcovered user hflush.1 hflush.2 key hsome
      by_cases hproto : key = "__proto__"
      · rw [if_pos hproto]
        exact Or.inr (hcov.resolve_left fun hin => hin.2 hproto)
      rw [if_neg hproto]
      cases hget : s.manager.get user key with
      | none => exact Or.inr (hcov.resolve_left fun hin => by rw [hget] at hin; cases hin.1)
      | some value => exact (h user key hproto value hget).symm.imp_left Eq.symm
    · exact Or.inl rfl
  · intro honly user huser hsession key hsome
    have hchange := honly user key hsome
    rw [persisted_flushUsers, last_flushUsers, if_pos ⟨huser, hsession⟩] at hchange
    by_cases hproto : key = "__proto__"
    · rw [if_pos hproto] at hchange
      exact Or.inr (hchange.resolve_left fun heq => by rw [← heq] at hsome; cases hsome)
    rw [if_neg hproto] at hchange
    cases hget : s.manager.get user key with
    | none =>
      rw [hget] at hchange
      exact Or.inr (hchange.resolve_left fun heq => by rw [← heq] at hsome; cases hsome)
    | some value => exact Or.inl ⟨rfl, hproto⟩

/-- A call keeps the keys exactly if it loses none of those that are persisted. -/
theorem keepsKeys_iff (h : Known s) (hs : SessionCalls.act s a = some t) :
    KeepsKeys s a ↔ OnlyWritten s t := by
  have hpersisted := persisted_act hs
  by_cases hflush : flushed s a = []
  · rw [hflush, List.foldl_nil, persisted_beforeFlush] at hpersisted
    refine iff_of_true ?_ fun userId key _ => Or.inl (by rw [hpersisted])
    rw [KeepsKeys, hflush]
    nofun
  · have hlast := last_act hs hflush
    rw [KeepsKeys, covered_iff (h.beforeFlush a)]
    unfold OnlyWritten
    rw [hpersisted, hlast, persisted_beforeFlush, last_flushUsers]

/-- Each action changes and removes persisted keys as the last writes of these keys left them, all
along a run, exactly if every flush covers the record that it overwrites. -/
theorem record_changes_iff (flushThreshold : ℚ) (backend : String → Option (JsMap String V))
    (acts : List (Act V)) :
    (∀ done a rest s t, acts = done ++ a :: rest →
      Machine.exec act (init flushThreshold backend) done = some s → act s a = some t →
        ∀ userId key, (s.persisted userId key).isSome →
          t.persisted userId key = s.persisted userId key ∨
            t.last userId key = some (t.persisted userId key)) ↔
      Machine.Guarded act KeepsKeys (init flushThreshold backend) acts := by
  have hinit : Known (init flushThreshold backend) := fun _ _ _ _ hv => nomatch hv
  have hknown : ∀ done s, Machine.exec act (init flushThreshold backend) done = some s → Known s :=
    fun _ _ hrun => Machine.exec_invariant (fun _ _ _ hI hs => hI.act hs) hinit hrun
  rw [Machine.guarded_iff_forall]
  constructor
  · intro h done a rest s hacts hrun
    obtain ⟨t, ht⟩ : ∃ t, act s a = some t := by cases a <;> exact ⟨_, rfl⟩
    exact (keepsKeys_iff (hknown done s hrun) ht).mpr (h done a rest s t hacts hrun ht)
  · intro h done a rest s t hacts hrun ht
    exact (keepsKeys_iff (hknown done s hrun) ht).mp (h done a rest s hacts hrun)

/-- A user with two persisted keys returns after a restart, and one other key is set and flushed. -/
def partialSession : List (Act ℕ) :=
  [.call (.set "u" "a" 1 0), .call (.set "u" "b" 2 0), .call (.flushUser "u"), .restart 10,
    .call (.set "u" "c" 3 0)]

/-- The flush erases a key that was last written by `set`. -/
theorem partial_flush_erases : ∃ s t,
    Machine.exec act (init 10 fun _ => none) partialSession = some s ∧
    act s (.call (.flushUser "u")) = some t ∧ s.persisted "u" "a" = some 1 ∧
    t.persisted "u" "a" = none ∧ t.last "u" "a" = some (some 1) := by
  obtain ⟨s, hrun, htest⟩ := Machine.exists_exec_of_test
    (show (Machine.exec act (init 10 fun _ => none) partialSession).map (fun s =>
      decide (s.persisted "u" "a" = some 1 ∧ (s.flushUser "u").persisted "u" "a" = none ∧
        (s.flushUser "u").last "u" "a" = some (some 1))) = some true by decide +kernel)
  obtain ⟨hbefore, hafter, hlast⟩ := of_decide_eq_true htest
  exact ⟨s, s.flushUser "u", hrun, rfl, hbefore, hafter, hlast⟩

end SessionCalls

end Datasole
