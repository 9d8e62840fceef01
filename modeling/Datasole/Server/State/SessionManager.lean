import Mathlib.Algebra.Order.Ring.Rat
import Datasole.Common.JsMap

/-!
# Sessions

`SessionManager` of `server/primitives/state/session-manager.ts`. Every user has a map of keys in
memory and a counter of changes that are not yet in the backend. `flushUser` awaits two backend
calls; here it is cut at the first and the last of them, `beginFlush` and `endFlush`.

The object that is written is filled by assignments, so it has every key but `__proto__`.
-/

namespace Datasole

structure SessionState (V : Type*) where
  data : V
  version : ℕ
  lastModified : ℚ
  dirty : Bool

structure SessionManager (V : Type*) where
  sessions : JsMap String (JsMap String (SessionState V))
  dirtyCount : JsMap String ℕ
  flushThreshold : ℚ

namespace SessionManager

variable {V : Type*}

def new (flushThreshold : ℚ) : SessionManager V where
  sessions := JsMap.empty
  dirtyCount := JsMap.empty
  flushThreshold := flushThreshold

/-- The counter of unsaved changes, absent at first. -/
def dirty (m : SessionManager V) (userId : String) : ℕ := (m.dirtyCount.get userId).getD 0

/-- The manager after `set`, and whether the threshold is reached and a flush starts. -/
def set (m : SessionManager V) (userId key : String) (value : V) (now : ℚ) :
    SessionManager V × Bool :=
  let userSession := (m.sessions.get userId).getD JsMap.empty
  let version := ((userSession.get key).elim 0 SessionState.version) + 1
  let dirty := m.dirty userId + 1
  ({ m with
      sessions := m.sessions.set userId
        (userSession.set key { data := value, version, lastModified := now, dirty := true })
      dirtyCount := m.dirtyCount.set userId dirty },
    decide (m.flushThreshold ≤ dirty))

def delete (m : SessionManager V) (userId key : String) : SessionManager V :=
  match m.sessions.get userId with
  | none => m
  | some session =>
    if session.has key then
      { m with
        sessions := m.sessions.set userId (session.delete key)
        dirtyCount := m.dirtyCount.set userId (m.dirty userId + 1) }
    else m

/-- The plain object filled with the data of a session. -/
def record (session : JsMap String (SessionState V)) : JsMap String V :=
  (session.map SessionState.data).toObject

/-- `flushUser` up to its first await: the object it writes, if the user has a session. -/
def beginFlush (m : SessionManager V) (userId : String) :
    SessionManager V × Option (JsMap String V) :=
  match m.sessions.get userId with
  | none => (m, none)
  | some session =>
    ({ m with
        sessions := m.sessions.set userId (session.map fun state => { state with dirty := false }) },
      some (record session))

/-- `flushUser` after its last await. -/
def endFlush (m : SessionManager V) (userId : String) : SessionManager V :=
  { m with dirtyCount := m.dirtyCount.set userId 0 }

/-- The users that `flushAll` flushes. -/
def dirtyUsers (m : SessionManager V) : List String :=
  (m.dirtyCount.entries.filter (0 < ·.2)).map Prod.fst

/-- `get`, from memory. -/
def get (m : SessionManager V) (userId key : String) : Option V :=
  (m.sessions.get userId).bind fun session => (session.get key).map SessionState.data

/-- What `delete` returns. -/
def deletes (m : SessionManager V) (userId key : String) : Bool :=
  (m.sessions.get userId).any fun session => session.has key

/-- `snapshot`, and `restore`, with what the backend has for the user. A user without a name, as a
connection without a user, has no session. -/
def snapshot (m : SessionManager V) (userId : String) (persisted : Option (JsMap String V))
    (now : ℚ) :
    SessionManager V :=
  if userId = "" then m
  else
    match persisted with
    | none => m
    | some record =>
      { m with
        sessions := m.sessions.set userId (record.map fun value =>
          { data := value, version := 0, lastModified := now, dirty := false }) }

/-- `evict` after its flush. -/
def forget (m : SessionManager V) (userId : String) : SessionManager V :=
  { m with sessions := m.sessions.delete userId, dirtyCount := m.dirtyCount.delete userId }

/-! ## What the calls change -/

variable (m : SessionManager V)

/-- A record has no flags. -/
theorem record_clear (session : JsMap String (SessionState V)) :
    record (session.map fun state => { state with dirty := false }) = record session := by
  have hmap : (session.map fun state => { state with dirty := false }).map SessionState.data =
      session.map SessionState.data := by
    apply JsMap.ext_entries
    simp [JsMap.map, Function.comp_def]
  rw [record, hmap, record]

/-- The object has the data of the session, but for the key that names the prototype. -/
theorem get_record (session : JsMap String (SessionState V)) (key : String) :
    (record session).get key =
      if key = "__proto__" then none else (session.get key).map SessionState.data := by
  rw [record]
  split
  · next h => rw [h, JsMap.get_toObject_proto]
  · next h => rw [JsMap.get_toObject _ h, JsMap.get_map]

/-- A `set` counts one more change of its user. -/
theorem dirty_set (userId user key : String) (value : V) (now : ℚ) :
    (m.set userId key value now).1.dirty user =
      if user = userId then m.dirty userId + 1 else m.dirty user := by
  rw [dirty, set, JsMap.get_set]
  split <;> rfl

/-- A deletion either finds nothing to delete or counts as a change of its user. -/
theorem delete_cases (userId key : String) :
    m.delete userId key = m ∨ (0 < (m.delete userId key).dirty userId ∧ ∀ user, user ≠ userId →
      (m.delete userId key).sessions.get user = m.sessions.get user ∧
        (m.delete userId key).dirty user = m.dirty user) := by
  unfold delete
  cases m.sessions.get userId with
  | none => exact Or.inl rfl
  | some session =>
    by_cases hkey : session.has key = true
    · refine Or.inr ?_
      simp only [hkey, if_true]
      refine ⟨?_, fun user huser => ⟨JsMap.get_set_ne _ huser _, ?_⟩⟩
      · rw [dirty, JsMap.get_set_self]
        exact Nat.succ_pos _
      · rw [dirty, JsMap.get_set_ne _ huser, dirty]
    · exact Or.inl (if_neg hkey)

/-- A `delete` keeps the map of every user. -/
theorem isSome_delete (userId key : String) {user : String}
    (h : (m.sessions.get user).isSome) : ((m.delete userId key).sessions.get user).isSome := by
  unfold delete
  cases m.sessions.get userId with
  | none => exact h
  | some session =>
    dsimp only
    split
    · rw [JsMap.get_set]
      split
      · rfl
      · exact h
    · exact h

/-- A user with changes is one that `flushAll` flushes. -/
theorem mem_dirtyUsers {userId : String} (h : 0 < m.dirty userId) : userId ∈ m.dirtyUsers := by
  cases hd : m.dirtyCount.get userId with
  | none => simp [dirty, hd] at h
  | some d =>
    rw [dirty, hd, Option.getD_some] at h
    exact List.mem_map.mpr ⟨(userId, d), List.mem_filter.mpr
      ⟨JsMap.mem_entries.mpr hd, by simpa using h⟩, rfl⟩

/-! ## What the calls do to what is read -/

/-- A `set` changes its own key. -/
theorem get_set (userId key user k : String) (value : V) (now : ℚ) :
    (m.set userId key value now).1.get user k =
      if user = userId ∧ k = key then some value else m.get user k := by
  simp only [get, set, JsMap.get_set]
  by_cases huser : user = userId
  · subst huser
    by_cases hkey : k = key
    · simp [hkey, JsMap.get_set_self]
    · simp only [hkey, and_false, if_true, if_false, Option.bind_some, JsMap.get_set_ne _ hkey]
      cases m.sessions.get user <;> rfl
  · simp [huser]

/-- So does a `delete`. -/
theorem get_delete (userId key user k : String) :
    (m.delete userId key).get user k =
      if user = userId ∧ k = key then none else m.get user k := by
  unfold delete
  cases hsession : m.sessions.get userId with
  | none =>
    dsimp only
    split
    · next h => rw [h.1, get, hsession]; rfl
    · rfl
  | some session =>
    dsimp only
    by_cases hhas : session.has key = true
    · rw [if_pos hhas]
      simp only [get, JsMap.get_set]
      by_cases huser : user = userId
      · subst huser
        by_cases hkey : k = key
        · simp [hkey, JsMap.get_delete]
        · simp [hkey, JsMap.get_delete, hsession]
      · simp [huser]
    · rw [if_neg hhas]
      split
      · next h =>
        rw [JsMap.has, Option.not_isSome_iff_eq_none] at hhas
        rw [h.1, h.2, get, hsession, Option.bind_some, hhas, Option.map_none]
      · rfl

/-- What is read after `set` and before its flush is what is read after the flush. -/
theorem get_beginFlush (userId user k : String) :
    (m.beginFlush userId).1.get user k = m.get user k := by
  unfold beginFlush
  cases hsession : m.sessions.get userId with
  | none => rfl
  | some session =>
    simp only [get, JsMap.get_set]
    by_cases huser : user = userId
    · subst huser
      simp [hsession, JsMap.get_map, Function.comp_def]
    · simp [huser]

theorem snapshot_anonymous (persisted : Option (JsMap String V)) (now : ℚ) :
    m.snapshot "" persisted now = m :=
  if_pos rfl

theorem snapshot_none (userId : String) (now : ℚ) : m.snapshot userId none now = m := by
  unfold snapshot
  split <;> rfl

/-- What is read after a snapshot that finds a record. -/
theorem get_snapshot {userId : String} (huserId : userId ≠ "") (record : JsMap String V) (now : ℚ)
    (user k : String) :
    (m.snapshot userId (some record) now).get user k =
      if user = userId then record.get k else m.get user k := by
  rw [snapshot, if_neg huserId]
  simp only [get, JsMap.get_set]
  by_cases huser : user = userId
  · simp [huser, JsMap.get_map, Function.comp_def]
  · simp [huser]

/-- A user that is forgotten has no keys left. -/
theorem get_forget (userId user k : String) :
    (m.forget userId).get user k = if user = userId then none else m.get user k := by
  simp only [get, forget, JsMap.get_delete]
  by_cases huser : user = userId <;> simp [huser]

/-- A `delete` finds the key if it reads as something. -/
theorem deletes_iff (userId key : String) :
    m.deletes userId key = true ↔ (m.get userId key).isSome := by
  rw [deletes, get]
  cases m.sessions.get userId <;> simp [JsMap.has]

end SessionManager

end Datasole
