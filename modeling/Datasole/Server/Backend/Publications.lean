import Datasole.Common.JsMap
import Datasole.Common.Rounds

/-!
# Publications of the backend in memory

`subscribe` and `publish` of `server/backends/memory.ts`, with listeners that call the backend while
they are being called. `publish` goes through the set of listeners that the key has at the time.
When the last listener of a key is removed the key loses its set, and the next one gets a new set,
which a publication that is still under way does not see. So sets are objects here, with an address
each.

`publication_reaches_subscribed` is about every run. The loops of `publish` are rounds over the sets
(`Simulates`), and listeners are never added to a second set (`Inv.member`).
-/

namespace Datasole

/-- The listeners of a `MemoryBackend`: the address of each key's set, the sets, and the keys for
which one was made. -/
structure MemoryListeners where
  listeners : JsMap String ℕ
  sets : ℕ → LiveSet ℕ
  owners : List String

namespace MemoryListeners

variable {ν : Type*}

def new : MemoryListeners := ⟨JsMap.empty, fun _ => .empty, []⟩

/-- The set that a key has, or is given if it has none. -/
def address (b : MemoryListeners) (key : String) : ℕ := (b.listeners.get key).getD b.owners.length

def subscribers (b : MemoryListeners) (key : String) : LiveSet ℕ :=
  (b.listeners.get key).elim .empty b.sets

def subscribe (b : MemoryListeners) (key : String) (listener : ℕ) : MemoryListeners :=
  match b.listeners.get key with
  | some set => { b with sets := Function.update b.sets set ((b.sets set).add listener) }
  | none =>
    let set := b.owners.length
    { listeners := b.listeners.set key set
      sets := Function.update b.sets set ((b.sets set).add listener)
      owners := b.owners ++ [key] }

/-- What `subscribe` has returned. -/
def unsubscribe (b : MemoryListeners) (key : String) (listener : ℕ) : MemoryListeners :=
  match b.listeners.get key with
  | none => b
  | some set =>
    let rest := (b.sets set).delete listener
    { b with
      listeners := if rest.size = 0 then b.listeners.delete key else b.listeners
      sets := Function.update b.sets set rest }

/-- A listener is added to the set under its key, and no other set changes. -/
theorem sets_subscribe (b : MemoryListeners) (key : String) (listener : ℕ) :
    (b.subscribe key listener).sets =
      Function.update b.sets (b.address key) ((b.sets (b.address key)).add listener) := by
  unfold subscribe address
  cases b.listeners.get key <;> rfl

/-! ## Runs -/

/-- The key of every subscription, the key and the value of every publication, the loops in progress
over the sets at their addresses, and the calls of listeners. -/
structure Sys (ν : Type*) where
  backend : MemoryListeners
  keys : List String
  published : List (String × ν)
  loops : List (Round ℕ ν)
  calls : List (Call ℕ ν)

inductive Act (ν : Type*) where
  | subscribe (key : String)
  /-- What the `n`-th call of `subscribe` has returned is called. -/
  | unsubscribe (n : ℕ)
  | publish (key : String) (value : ν)
  /-- The innermost loop goes on to the next listener, or is left. -/
  | next
  /-- The listener that is being called returns, or throws. -/
  | finish

def init : Sys ν := ⟨new, [], [], [], []⟩

/-- Nobody is in a loop, or a listener is. -/
def Sys.Free (s : Sys ν) : Prop := s.loops.head?.all Round.calling = true

instance (s : Sys ν) : Decidable s.Free := inferInstanceAs (Decidable (_ = true))

def step (s : Sys ν) : Act ν → Option (Sys ν)
  | .subscribe key =>
    if s.Free then
      some { s with backend := s.backend.subscribe key s.keys.length, keys := s.keys ++ [key] }
    else none
  | .unsubscribe n =>
    match s.keys[n]? with
    | none => none
    | some key => if s.Free then some { s with backend := s.backend.unsubscribe key n } else none
  | .publish key value =>
    if s.Free then
      match s.backend.listeners.get key with
      | none => some { s with published := s.published ++ [(key, value)] }
      | some set =>
        some { s with
          loops := ⟨s.published.length, set, value, 0, false⟩ :: s.loops
          published := s.published ++ [(key, value)] }
    else none
  | .next =>
    match s.loops with
    | [] => none
    | loop :: loops =>
      if loop.calling then none
      else
        match (s.backend.sets loop.key).next loop.index with
        | none => some { s with loops }
        | some (listener, index) =>
          some { s with
            loops := { loop with index, calling := true } :: loops
            calls := s.calls ++ [⟨loop.number, listener, loop.arg⟩] }
  | .finish =>
    match s.loops with
    | [] => none
    | loop :: loops =>
      if loop.calling then some { s with loops := { loop with calling := false } :: loops } else none

/-- The loop of the `n`-th publication has not been left. -/
def Sys.Publishing (s : Sys ν) (n : ℕ) : Prop := ∃ loop ∈ s.loops, loop.number = n

structure Inv (s : Sys ν) : Prop where
  fresh : ∀ set, s.backend.owners.length ≤ set → s.backend.sets set = .empty
  /-- A key with a set has a listener. -/
  entry : ∀ key set, s.backend.listeners.get key = some set →
    s.backend.owners[set]? = some key ∧ ∃ n, n ∈ s.backend.sets set
  /-- A listener is in the set that its key has. -/
  member : ∀ set n, n ∈ s.backend.sets set →
    ∃ key, s.keys[n]? = some key ∧ s.backend.listeners.get key = some set
  loops : ∀ loop ∈ s.loops, ∃ key,
    s.published[loop.number]? = some (key, loop.arg) ∧ s.backend.owners[loop.key]? = some key
  calls : ∀ c ∈ s.calls, ∃ key, s.published[c.round]? = some (key, c.arg) ∧ s.keys[c.callee]? = some key

variable {s t : Sys ν} {a : Act ν} {n : ℕ}

/-- A listener in a set is one of those that were numbered. -/
theorem Inv.lt_of_mem (h : Inv s) {set : ℕ} (hmem : n ∈ s.backend.sets set) :
    n < s.keys.length := by
  obtain ⟨key, hkey, -⟩ := h.member set n hmem
  exact (List.getElem?_eq_some_iff.mp hkey).1

/-- A set under a key is one of those that were made. -/
theorem Inv.lt_of_get (h : Inv s) {key : String} {set : ℕ}
    (hget : s.backend.listeners.get key = some set) :
    set < s.backend.owners.length :=
  (List.getElem?_eq_some_iff.mp (h.entry key set hget).1).1

/-- What is in a list stays in its place when others come last. -/
theorem getElem?_append_of_eq_some {α : Type*} {as : List α} {i : ℕ} {a : α} (h : as[i]? = some a)
    (bs : List α) : (as ++ bs)[i]? = some a := by
  rw [List.getElem?_append_left (List.getElem?_eq_some_iff.mp h).1]
  exact h

/-- A subscription puts the next listener into the set of its key, or into a new one. Every set
keeps the listeners of one key. -/
theorem Inv.subscribe (h : Inv s) (key : String) :
    Inv { s with backend := s.backend.subscribe key s.keys.length, keys := s.keys ++ [key] } := by
  have hcalls : ∀ c ∈ s.calls, ∃ key', s.published[c.round]? = some (key', c.arg) ∧
      (s.keys ++ [key])[c.callee]? = some key' := by
    intro c hc
    obtain ⟨key', hpublished, hkey⟩ := h.calls c hc
    exact ⟨key', hpublished, getElem?_append_of_eq_some hkey _⟩
  have hnew : (s.keys ++ [key])[s.keys.length]? = some key := List.getElem?_concat_length
  cases hget : s.backend.listeners.get key with
  | some set =>
    -- the key has a set, and the listener is added to it
    have hlt := h.lt_of_get hget
    have hb : s.backend.subscribe key s.keys.length = { s.backend with
        sets := Function.update s.backend.sets set ((s.backend.sets set).add s.keys.length) } := by
      unfold MemoryListeners.subscribe
      rw [hget]
    rw [hb]
    refine ⟨?_, ?_, ?_, h.loops, hcalls⟩
    · intro set' hset'
      dsimp only at hset' ⊢
      rw [Function.update_of_ne (Nat.ne_of_gt (Nat.lt_of_lt_of_le hlt hset'))]
      exact h.fresh set' hset'
    · intro key' set' hget'
      obtain ⟨howner, n, hn⟩ := h.entry key' set' hget'
      refine ⟨howner, n, ?_⟩
      by_cases hset : set' = set
      · subst hset
        dsimp only
        rw [Function.update_self]
        exact LiveSet.mem_add.mpr (.inl hn)
      · dsimp only
        rwa [Function.update_of_ne hset]
    · -- a member is one that was there, or the new listener
      intro set' n hn
      dsimp only at hn
      by_cases hset : set' = set
      · subst hset
        rw [Function.update_self] at hn
        rcases LiveSet.mem_add.mp hn with hn | rfl
        · obtain ⟨key', hkey, hget'⟩ := h.member set' n hn
          exact ⟨key', getElem?_append_of_eq_some hkey _, hget'⟩
        · exact ⟨key, hnew, hget⟩
      · rw [Function.update_of_ne hset] at hn
        obtain ⟨key', hkey, hget'⟩ := h.member set' n hn
        exact ⟨key', getElem?_append_of_eq_some hkey _, hget'⟩
  | none =>
    -- the key gets a set of its own, the last of all
    have hb : s.backend.subscribe key s.keys.length =
        { listeners := s.backend.listeners.set key s.backend.owners.length
          sets := Function.update s.backend.sets s.backend.owners.length
            ((s.backend.sets s.backend.owners.length).add s.keys.length)
          owners := s.backend.owners ++ [key] } := by
      unfold MemoryListeners.subscribe
      rw [hget]
    rw [hb]
    refine ⟨?_, ?_, ?_, ?_, hcalls⟩
    · intro set' hset'
      dsimp only at hset' ⊢
      rw [List.length_append, List.length_singleton] at hset'
      rw [Function.update_of_ne (by omega)]
      exact h.fresh set' (by omega)
    · intro key' set' hget'
      dsimp only at hget' ⊢
      rw [JsMap.get_set] at hget'
      split at hget'
      · next hkey =>
        cases hget'
        rw [hkey, Function.update_self]
        exact ⟨List.getElem?_concat_length, _, LiveSet.mem_add.mpr (.inr rfl)⟩
      · obtain ⟨howner, n, hn⟩ := h.entry key' set' hget'
        rw [Function.update_of_ne (Nat.ne_of_lt (h.lt_of_get hget'))]
        exact ⟨getElem?_append_of_eq_some howner _, n, hn⟩
    · intro set' n hn
      dsimp only at hn ⊢
      by_cases hset : set' = s.backend.owners.length
      · subst hset
        rw [Function.update_self, h.fresh _ (Nat.le_refl _)] at hn
        rcases LiveSet.mem_add.mp hn with hn | rfl
        · exact absurd hn (LiveSet.not_mem_empty n)
        · exact ⟨key, hnew, by rw [JsMap.get_set, if_pos rfl]⟩
      · rw [Function.update_of_ne hset] at hn
        obtain ⟨key', hkey, hget'⟩ := h.member set' n hn
        -- another key has another set
        have hne : key' ≠ key := by
          rintro rfl
          rw [hget] at hget'
          cases hget'
        exact ⟨key', getElem?_append_of_eq_some hkey _, by rwa [JsMap.get_set_ne _ hne]⟩
    · intro loop hloop
      obtain ⟨key', hpublished, howner⟩ := h.loops loop hloop
      exact ⟨key', hpublished, getElem?_append_of_eq_some howner _⟩

/-- A listener that leaves is taken out of its set; an empty set is given up, and a later
subscription makes another one. -/
theorem Inv.unsubscribe (h : Inv s) {key : String} (hkey : s.keys[n]? = some key) :
    Inv { s with backend := s.backend.unsubscribe key n } := by
  unfold MemoryListeners.unsubscribe
  cases hget : s.backend.listeners.get key with
  | none => exact h
  | some set =>
    have hlt := h.lt_of_get hget
    -- no other set is touched, and no other key
    have hmem : ∀ set' m, m ∈ Function.update s.backend.sets set ((s.backend.sets set).delete n) set' ↔
        m ∈ s.backend.sets set' ∧ (set' = set → m ≠ n) := by
      intro set' m
      by_cases hset : set' = set
      · subst hset
        rw [Function.update_self, LiveSet.mem_delete]
        exact and_congr_right fun _ => ⟨fun hm _ => hm, fun hm => hm rfl⟩
      · rw [Function.update_of_ne hset]
        exact ⟨fun hm => ⟨hm, fun heq => absurd heq hset⟩, And.left⟩
    have hother :
        ∀ key' set', s.backend.listeners.get key' = some set' → set' = set → key' = key := by
      rintro key' set' hget' rfl
      have howner := (h.entry key' set' hget').1
      rw [(h.entry key set' hget).1] at howner
      exact (Option.some.inj howner).symm
    refine ⟨?_, ?_, ?_, h.loops, h.calls⟩
    · intro set' hset'
      dsimp only at hset' ⊢
      rw [Function.update_of_ne (Nat.ne_of_gt (Nat.lt_of_lt_of_le hlt hset'))]
      exact h.fresh set' hset'
    · intro key' set' hget'
      dsimp only at hget' ⊢
      split at hget'
      · next hzero =>
        rw [JsMap.get_delete] at hget'
        split at hget'
        · cases hget'
        · next hne =>
          obtain ⟨howner, m, hm⟩ := h.entry key' set' hget'
          exact ⟨howner, m, (hmem set' m).mpr ⟨hm, fun hset => absurd (hother key' set' hget' hset) hne⟩⟩
      · next hpos =>
        obtain ⟨howner, m, hm⟩ := h.entry key' set' hget'
        refine ⟨howner, ?_⟩
        by_cases hset : set' = set
        · subst hset
          rw [Function.update_self]
          by_contra hnone
          exact hpos (LiveSet.size_eq_zero.mpr (not_exists.mp hnone))
        · exact ⟨m, (hmem set' m).mpr ⟨hm, fun heq => absurd heq hset⟩⟩
    · intro set' m hm
      dsimp only at hm ⊢
      obtain ⟨hold, hne⟩ := (hmem set' m).mp hm
      obtain ⟨key', hkey', hget'⟩ := h.member set' m hold
      refine ⟨key', hkey', ?_⟩
      split
      · next hzero =>
        rw [JsMap.get_delete, if_neg]
        · exact hget'
        · rintro rfl
          rw [hget] at hget'
          cases hget'
          rw [Function.update_self] at hm
          exact LiveSet.size_eq_zero.mp hzero m hm
      · exact hget'

/-- Every step keeps the invariant. A loop goes on over the set that it began with, whichever is
under the key by then. -/
theorem Inv.step (h : Inv s) (hs : step s a = some t) : Inv t := by
  cases a with
  | subscribe key =>
    simp only [MemoryListeners.step, Option.ite_none_right_eq_some, Option.some.injEq] at hs
    obtain ⟨-, rfl⟩ := hs
    exact h.subscribe key
  | unsubscribe n =>
    cases hkey : s.keys[n]? with
    | none => simp only [MemoryListeners.step, hkey, reduceCtorEq] at hs
    | some key =>
      simp only [MemoryListeners.step, hkey, Option.ite_none_right_eq_some, Option.some.injEq] at hs
      obtain ⟨-, rfl⟩ := hs
      exact h.unsubscribe hkey
  | publish key value =>
    simp only [MemoryListeners.step, Option.ite_none_right_eq_some] at hs
    obtain ⟨-, hs⟩ := hs
    -- a publication that is recorded stays recorded
    have hloops : ∀ loop ∈ s.loops, ∃ key', (s.published ++ [(key, value)])[loop.number]? =
        some (key', loop.arg) ∧ s.backend.owners[loop.key]? = some key' := by
      intro loop hloop
      obtain ⟨key', hpublished, howner⟩ := h.loops loop hloop
      exact ⟨key', getElem?_append_of_eq_some hpublished _, howner⟩
    have hcalls : ∀ c ∈ s.calls, ∃ key', (s.published ++ [(key, value)])[c.round]? =
        some (key', c.arg) ∧ s.keys[c.callee]? = some key' := by
      intro c hc
      obtain ⟨key', hpublished, hkey⟩ := h.calls c hc
      exact ⟨key', getElem?_append_of_eq_some hpublished _, hkey⟩
    cases hget : s.backend.listeners.get key with
    | none =>
      rw [hget] at hs
      cases hs
      exact ⟨h.fresh, h.entry, h.member, hloops, hcalls⟩
    | some set =>
      rw [hget] at hs
      cases hs
      refine ⟨h.fresh, h.entry, h.member, ?_, hcalls⟩
      intro loop hloop
      rcases List.mem_cons.mp hloop with rfl | hloop
      · -- the set under the key is the key's
        exact ⟨key, List.getElem?_concat_length, (h.entry key set hget).1⟩
      · exact hloops loop hloop
  | next =>
    cases hloops : s.loops with
    | nil => simp only [MemoryListeners.step, hloops, reduceCtorEq] at hs
    | cons loop loops =>
      simp only [MemoryListeners.step, hloops, Option.ite_none_left_eq_some] at hs
      obtain ⟨-, hs⟩ := hs
      obtain ⟨key, hpublished, howner⟩ := h.loops loop (hloops ▸ List.mem_cons_self)
      have hrest : ∀ l ∈ loops, ∃ key, s.published[l.number]? = some (key, l.arg) ∧
          s.backend.owners[l.key]? = some key :=
        fun l hl => h.loops l (hloops ▸ List.mem_cons_of_mem loop hl)
      cases hnext : (s.backend.sets loop.key).next loop.index with
      | none =>
        rw [hnext] at hs
        cases hs
        exact ⟨h.fresh, h.entry, h.member, hrest, h.calls⟩
      | some x =>
        rw [hnext] at hs
        cases hs
        refine ⟨h.fresh, h.entry, h.member, ?_, ?_⟩
        · intro l hl
          rcases List.mem_cons.mp hl with rfl | hl
          · exact ⟨key, hpublished, howner⟩
          · exact hrest l hl
        · intro c hc
          rcases List.mem_append.mp hc with hc | hc
          · exact h.calls c hc
          · -- a listener in the set listens to the key of the set
            rw [List.mem_singleton.mp hc]
            obtain ⟨key', hkey', hget'⟩ := h.member loop.key x.1 (LiveSet.mem_of_next hnext)
            have howner' := (h.entry key' loop.key hget').1
            rw [howner] at howner'
            cases howner'
            exact ⟨key, hpublished, hkey'⟩
  | finish =>
    cases hloops : s.loops with
    | nil => simp only [MemoryListeners.step, hloops, reduceCtorEq] at hs
    | cons loop loops =>
      simp only [MemoryListeners.step, hloops, Option.ite_none_right_eq_some,
        Option.some.injEq] at hs
      obtain ⟨-, rfl⟩ := hs
      refine ⟨h.fresh, h.entry, h.member, ?_, h.calls⟩
      intro l hl
      rcases List.mem_cons.mp hl with rfl | hl
      · exact h.loops loop (hloops ▸ List.mem_cons_self)
      · exact h.loops l (hloops ▸ List.mem_cons_of_mem loop hl)

/-! ## Publications as rounds -/

/-- What stays of a state: the publications, the keys of the subscriptions, and where the first `n`
listeners are not. -/
structure Extends (s t : Sys ν) : Prop where
  keys : s.keys.length ≤ t.keys.length
  published : ∀ (i : ℕ) x, s.published[i]? = some x → t.published[i]? = some x
  sets : ∀ set n, n < s.keys.length → n ∈ t.backend.sets set → n ∈ s.backend.sets set

theorem Extends.refl (s : Sys ν) : Extends s s := ⟨Nat.le_refl _, fun _ _ h => h, fun _ _ _ h => h⟩

/-- What two runs keep, one after the other, stays. -/
theorem Extends.trans {u : Sys ν} (h : Extends s t) (h' : Extends t u) : Extends s u where
  keys := Nat.le_trans h.keys h'.keys
  published i x hi := h'.published i x (h.published i x hi)
  sets set n hn hmem := h.sets set n hn (h'.sets set n (Nat.lt_of_lt_of_le hn h.keys) hmem)

/-- The state as rounds over the sets. -/
def Sys.rounds (s : Sys ν) : Rounds ℕ ℕ ν := ⟨s.backend.sets, s.loops, s.published.length, s.calls⟩

/-- What the rounds do. A listener of a key without a set is not in the next set either. -/
def Sys.roundsAct (s : Sys ν) : Act ν → Rounds.Act ℕ ℕ ν
  | .subscribe key => .add (s.backend.address key) s.keys.length
  | .unsubscribe n => .delete (s.backend.address (s.keys.getD n "")) n
  | .publish key value =>
    match s.backend.listeners.get key with
    | none => .skip
    | some set => .start set value
  | .next => .next
  | .finish => .finish

/-- Taking a listener away changes the set under its key alone. -/
theorem sets_unsubscribe (h : Inv s) (key : String) (n : ℕ) : (s.backend.unsubscribe key n).sets =
    Function.update s.backend.sets (s.backend.address key)
      ((s.backend.sets (s.backend.address key)).delete n) := by
  unfold MemoryListeners.unsubscribe address
  cases s.backend.listeners.get key with
  | none =>
    rw [Option.getD_none, h.fresh _ (Nat.le_refl _), LiveSet.delete_empty,
      ← h.fresh _ (Nat.le_refl _), Function.update_eq_self]
  | some set => rfl

/-- Every step is one of the rounds. -/
theorem Inv.rounds_step (h : Inv s) (hs : MemoryListeners.step s a = some t) :
    Extends s t ∧ s.rounds.step (s.roundsAct a) = some t.rounds := by
  cases a with
  | subscribe key =>
    simp only [MemoryListeners.step, Option.ite_none_right_eq_some, Option.some.injEq] at hs
    obtain ⟨hfree, rfl⟩ := hs
    refine ⟨⟨?_, fun _ _ hi => hi, ?_⟩, (if_pos hfree).trans ?_⟩
    · rw [List.length_append]
      exact Nat.le_add_right _ _
    · -- no listener of before becomes a member by this
      intro set n hn hmem
      dsimp only at hmem
      rw [sets_subscribe] at hmem
      by_cases hset : set = s.backend.address key
      · subst hset
        rw [Function.update_self] at hmem
        exact (LiveSet.mem_add.mp hmem).resolve_right (Nat.ne_of_lt hn)
      · rwa [Function.update_of_ne hset] at hmem
    · unfold Sys.rounds
      rw [sets_subscribe]
  | unsubscribe n =>
    cases hkey : s.keys[n]? with
    | none => simp only [MemoryListeners.step, hkey, reduceCtorEq] at hs
    | some key =>
      simp only [MemoryListeners.step, hkey, Option.ite_none_right_eq_some, Option.some.injEq] at hs
      obtain ⟨hfree, rfl⟩ := hs
      have hgetD : s.keys.getD n "" = key :=
        by rw [List.getD_eq_getElem?_getD, hkey, Option.getD_some]
      refine ⟨⟨Nat.le_refl _, fun _ _ hi => hi, ?_⟩, (if_pos hfree).trans ?_⟩
      · intro set m _ hmem
        dsimp only at hmem
        rw [sets_unsubscribe h] at hmem
        by_cases hset : set = s.backend.address key
        · subst hset
          rw [Function.update_self] at hmem
          exact (LiveSet.mem_delete.mp hmem).1
        · rwa [Function.update_of_ne hset] at hmem
      · unfold Sys.rounds
        rw [hgetD, sets_unsubscribe h]
  | publish key value =>
    simp only [MemoryListeners.step, Option.ite_none_right_eq_some] at hs
    obtain ⟨hfree, hs⟩ := hs
    have hlength : (s.published ++ [(key, value)]).length = s.published.length + 1 :=
      List.length_append
    cases hget : s.backend.listeners.get key with
    | none | some set =>
      rw [hget] at hs
      cases hs
      -- the loop is set up over the set that the key has now
      simp only [Sys.roundsAct, hget]
      refine ⟨⟨Nat.le_refl _, fun i x hi => getElem?_append_of_eq_some hi _, fun _ _ _ hmem => hmem⟩,
        (if_pos hfree).trans ?_⟩
      unfold Sys.rounds
      rw [hlength]
  | next =>
    cases hloops : s.loops with
    | nil => simp only [MemoryListeners.step, hloops, reduceCtorEq] at hs
    | cons loop loops =>
      simp only [MemoryListeners.step, hloops, Option.ite_none_left_eq_some] at hs
      obtain ⟨hcalling, hs⟩ := hs
      -- the loop calls the next listener in the set, or is over
      simp only [Sys.roundsAct, Rounds.step, Sys.rounds, hloops, if_neg hcalling]
      cases hnext : (s.backend.sets loop.key).next loop.index with
      | none | some x =>
        rw [hnext] at hs
        cases hs
        exact ⟨⟨Nat.le_refl _, fun _ _ hi => hi, fun _ _ _ hmem => hmem⟩, rfl⟩
  | finish =>
    cases hloops : s.loops with
    | nil => simp only [MemoryListeners.step, hloops, reduceCtorEq] at hs
    | cons loop loops =>
      simp only [MemoryListeners.step, hloops, Option.ite_none_right_eq_some,
        Option.some.injEq] at hs
      obtain ⟨hcalling, rfl⟩ := hs
      refine ⟨⟨Nat.le_refl _, fun _ _ hi => hi, fun _ _ _ hmem => hmem⟩, ?_⟩
      simp only [Sys.roundsAct, Rounds.step, Sys.rounds, hloops, if_pos hcalling]

/-- No step adds a listener but the next one. -/
theorem eq_length_of_adds {set n : ℕ} (hs : MemoryListeners.step s a = some t)
    (hadds : (s.roundsAct a).adds set n = true) : n = s.keys.length ∧ n < t.keys.length := by
  cases a with
  | subscribe key =>
    simp only [MemoryListeners.step, Option.ite_none_right_eq_some, Option.some.injEq] at hs
    obtain ⟨-, rfl⟩ := hs
    simp only [Sys.roundsAct, Rounds.Act.adds, decide_eq_true_eq] at hadds
    rw [List.length_append, List.length_singleton]
    omega
  | publish key value =>
    cases hget : s.backend.listeners.get key with
    | none | some set =>
      simp only [Sys.roundsAct, hget] at hadds
      cases hadds
  | unsubscribe _ | next | finish => cases hadds

/-- Every run is one of the rounds. It adds each listener at most once, and none that was there
before. -/
theorem Inv.rounds_exec {as : List (Act ν)} (h : Inv s)
    (hrun : Machine.exec MemoryListeners.step s as = some t) :
    Inv t ∧ Extends s t ∧ ∃ bs, Machine.exec Rounds.step s.rounds bs = some t.rounds ∧
      ∀ set n, bs.countP (Rounds.Act.adds set n) ≤ if n < s.keys.length then 0 else 1 := by
  induction as generalizing s with
  | nil =>
    cases hrun
    exact ⟨h, .refl _, [], rfl, fun _ _ => Nat.zero_le _⟩
  | cons a as ih =>
    obtain ⟨u, hs, hrun⟩ := Machine.exec_cons_eq_some.mp hrun
    obtain ⟨hextends, hb⟩ := h.rounds_step hs
    obtain ⟨hinv, hextends', bs, hbs, hcount⟩ := ih (h.step hs) hrun
    refine ⟨hinv, hextends.trans hextends', s.roundsAct a :: bs,
      Machine.exec_cons_eq_some.mpr ⟨_, hb, hbs⟩, ?_⟩
    intro set n
    have hrest := hcount set n
    have hkeys := hextends.keys
    rw [List.countP_cons]
    by_cases hadd : (s.roundsAct a).adds set n = true
    · obtain ⟨rfl, hlt⟩ := eq_length_of_adds hs hadd
      rw [if_pos hlt] at hrest
      rw [if_pos hadd, if_neg (Nat.lt_irrefl _)]
      omega
    · rw [if_neg hadd]
      split at hrest <;> split <;> omega

/-- The subscribers of a key are the listeners in its set, if it has one. -/
theorem mem_subscribers {b : MemoryListeners} {key : String} :
    n ∈ b.subscribers key ↔ ∃ set, b.listeners.get key = some set ∧ n ∈ b.sets set := by
  unfold subscribers
  cases b.listeners.get key with
  | none =>
    refine iff_of_false (LiveSet.not_mem_empty n) ?_
    rintro ⟨set, hget, -⟩
    cases hget
  | some set =>
    refine ⟨fun hmem => ⟨set, rfl, hmem⟩, ?_⟩
    rintro ⟨set', hget, hmem⟩
    cases hget
    exact hmem

/-- A listener is in one set only. -/
theorem Inv.eq_of_mem (h : Inv s) {set set' : ℕ} (hmem : n ∈ s.backend.sets set)
    (hmem' : n ∈ s.backend.sets set') : set = set' := by
  obtain ⟨key, hkey, hget⟩ := h.member set n hmem
  obtain ⟨key', hkey', hget'⟩ := h.member set' n hmem'
  rw [hkey] at hkey'
  cases hkey'
  rw [hget] at hget'
  exact Option.some.inj hget'

/-- A publication is recorded with its key and value. -/
theorem published_of_publish {key : String} {value : ν}
    (hs : MemoryListeners.step s (.publish key value) = some t) :
    t.published = s.published ++ [(key, value)] := by
  simp only [MemoryListeners.step, Option.ite_none_right_eq_some] at hs
  obtain ⟨-, hs⟩ := hs
  split at hs
  · cases hs
    rfl
  · cases hs
    rfl

/-- Without listeners there is nothing to keep. -/
theorem inv_init : Inv (init : Sys ν) where
  fresh _ _ := rfl
  entry _ _ hget := by cases hget
  member _ n hmem := absurd hmem (LiveSet.not_mem_empty n)
  loops _ hloop := absurd hloop List.not_mem_nil
  calls _ hc := absurd hc List.not_mem_nil

/-- Every publication that comes to its end, in every run, whatever the listeners do meanwhile and
whatever happens later: no listener has been called twice, and a listener of the key at the end has
been called if it was one at the beginning, or if the key has had the same set all along. Every call
is of a listener of the key, with the value. -/
theorem publication_reaches_subscribed (before during after : List (Act ν)) (s u v w t : Sys ν)
    (key : String) (value : ν) (hbefore : Machine.exec step init before = some s)
    (hpublish : step s (.publish key value) = some u) (hduring : Machine.exec step u during = some v)
    (hpublishing : v.Publishing s.published.length) (hnext : step v .next = some w)
    (hover : ¬ w.Publishing s.published.length) (hafter : Machine.exec step w after = some t) :
    (∀ n, Rounds.callsOf t.calls s.published.length n ≤ 1 ∧
      (n ∈ w.backend.subscribers key →
        n ∈ s.backend.subscribers key ∨
          w.backend.listeners.get key = s.backend.listeners.get key →
        Rounds.callsOf t.calls s.published.length n = 1)) ∧
      ∀ c ∈ t.calls, c.round = s.published.length → c.arg = value ∧ t.keys[c.callee]? = some key := by
  obtain ⟨hsinv, -, bs, hbs, -⟩ := inv_init.rounds_exec hbefore
  obtain ⟨hsu, hu⟩ := hsinv.rounds_step hpublish
  obtain ⟨hvinv, huv, ds, hds, hadds⟩ := (hsinv.step hpublish).rounds_exec hduring
  obtain ⟨hvw, hw⟩ := hvinv.rounds_step hnext
  obtain ⟨htinv, hwt, es, hes, -⟩ := (hvinv.step hnext).rounds_exec hafter
  -- the three runs are runs of rounds over the sets
  have hsw := (hsu.trans huv).trans hvw
  refine ⟨fun n => ?_, fun c hc hround => ?_⟩
  · -- a publication that is going on has found a set
    have hstart : ∃ set, s.backend.listeners.get key = some set := by
      cases hget : s.backend.listeners.get key with
      | some set => exact ⟨set, rfl⟩
      | none =>
        simp only [Sys.roundsAct, hget] at hu
        exact absurd hpublishing (Rounds.not_running_of_skip hbs hu hds)
    obtain ⟨set, hget⟩ := hstart
    simp only [Sys.roundsAct, hget] at hu
    have hcalls := Rounds.calls_of_completed hbs hu hds hpublishing hw hover hes
    obtain ⟨hlower, -, hadded, -⟩ := hcalls n
    have hnew := hadds set n
    have hle : Rounds.callsOf t.calls s.published.length n ≤ 1 := by
      by_cases hmem : n ∈ s.rounds.sets set
      · -- a listener of before is not added again, as it is in the set
        rw [if_pos (Nat.lt_of_lt_of_le (hsinv.lt_of_mem hmem) hsu.keys)] at hnew
        rw [if_pos hmem] at hadded
        exact Nat.le_trans hadded (Nat.add_le_add_left hnew 1)
      · rw [if_neg hmem, Nat.zero_add] at hadded
        refine Nat.le_trans hadded (Nat.le_trans hnew ?_)
        split <;> omega
    refine ⟨hle, fun hmem hset => Nat.le_antisymm hle ?_⟩
    obtain ⟨set', hget', hmem⟩ := mem_subscribers.mp hmem
    -- the set that has the listener in the end is the one of the loop
    have heq : set' = set := by
      rcases hset with hold | hsame
      · obtain ⟨set₀, hget₀, hmem₀⟩ := mem_subscribers.mp hold
        rw [hget] at hget₀
        cases hget₀
        exact hsinv.eq_of_mem (hsw.sets set' n (hsinv.lt_of_mem hmem₀) hmem) hmem₀
      · rw [hsame, hget] at hget'
        exact (Option.some.inj hget').symm
    rw [heq] at hmem
    exact Nat.le_trans (Nat.le_of_eq (if_pos hmem).symm) hlower
  · obtain ⟨key', hpublished, hkey'⟩ := htinv.calls c hc
    have hvalue : t.published[s.published.length]? = some (key, value) := by
      refine ((huv.trans hvw).trans hwt).published _ _ ?_
      rw [published_of_publish hpublish]
      exact List.getElem?_concat_length
    rw [hround, hvalue] at hpublished
    cases hpublished
    exact ⟨rfl, hkey'⟩

/-- Listener 0 removes 1 and makes 2 while it is called; the key keeps its set. -/
theorem made_in_publication_is_called :
    ∃ s u v w t : Sys Bool,
      Machine.exec step init [.subscribe "evt:chat", .subscribe "evt:chat"] = some s ∧
      step s (.publish "evt:chat" true) = some u ∧
      Machine.exec step u [.next, .unsubscribe 1, .subscribe "evt:chat", .finish, .next, .finish] =
        some v ∧
      step v .next = some w ∧ Machine.exec step w [.unsubscribe 2] = some t ∧
      Rounds.callsOf t.calls 0 0 = 1 ∧ Rounds.callsOf t.calls 0 2 = 1 := by
  refine ⟨_, _, _, _, _, rfl, rfl, rfl, rfl, rfl, ?_⟩
  have hcalls := (publication_reaches_subscribed [.subscribe "evt:chat", .subscribe "evt:chat"]
    [.next, .unsubscribe 1, .subscribe "evt:chat", .finish, .next, .finish] [.unsubscribe 2]
    _ _ _ _ _ "evt:chat" true rfl rfl rfl ⟨_, List.mem_cons_self, rfl⟩ rfl
    (fun hpublishing => absurd hpublishing.choose_spec.1 List.not_mem_nil) rfl).1
  exact ⟨(hcalls 0).2 (by decide) (.inr rfl), (hcalls 2).2 (by decide) (.inr rfl)⟩

end MemoryListeners

end Datasole
