import Datasole.Client.State.StateStore
import Datasole.Common.JsMap
import Datasole.Common.LiveSet
import Mathlib.Logic.Function.Basic
import Datasole.Common.Machine

/-!
# The subscribers of a client's states

`subscribe`, `applyPatches` and `notify` of `client/state/state-store.ts`, behind `subscribeState`,
`getState` and the frames of `client/client.ts`. A subscriber is called when it subscribes and after
every patch. While it is called it may subscribe and unsubscribe, for any key, and frames may be
applied; what it throws is caught.

`subscribers_hold_current` is about every run: once nobody is being notified of a key, whoever is
subscribed to it has last been told the state that the store has, and nobody is ever told an older
state after a newer one. The invariant is `Inv`: before that, a loop of `notify` has the subscriber
ahead of it.
-/

namespace Datasole

/-- A store of a client and its subscribers. -/
structure SubscribedStore (ι : Type*) where
  store : StateStore
  subscribers : LiveSet ι

/-- A call of a subscriber: the state it was told, and the number of that state in the store's
history. -/
structure Notification (ι : Type*) where
  key : String
  subscriber : ι
  version : ℕ
  state : Option Json
deriving DecidableEq

namespace Subscriptions

variable {ι : Type*}

/-- `new StateStore(undefined)`. -/
def newStore : SubscribedStore ι := ⟨⟨none⟩, .empty⟩

/-- What is on the call stack. -/
inductive Frame where
  /-- The loop of `notify`: where its iterator is, and whether a subscriber is being called. -/
  | notify (key : String) (index : ℕ) (calling : Bool)
  /-- The call in `subscribe`. -/
  | subscribe

/-- A subscriber's code runs in the frame. -/
def Frame.calling : Frame → Bool
  | .notify _ _ calling => calling
  | .subscribe => true

/-- The stores of a client, the call stack, the calls of subscribers, and the states that the store
of a key has had before the present one. -/
structure Sys (ι : Type*) where
  stateStores : JsMap String (SubscribedStore ι)
  stack : List Frame
  calls : List (Notification ι)
  past : String → List (Option Json)

inductive Act (ι : Type*) where
  | subscribeState (key : String) (handler : ι)
  /-- What `subscribeState` has returned is used. -/
  | unsubscribe (key : String) (handler : ι)
  | frame (key : String) (frame : StateFrame)
  /-- The innermost loop goes on to the next subscriber, or is left. -/
  | next
  /-- The subscriber that is being called returns, or throws. -/
  | finish

def init : Sys ι := ⟨JsMap.empty, [], [], fun _ => []⟩

namespace Sys

/-- No loop is running but in the call of a subscriber. -/
def Free (s : Sys ι) : Prop := s.stack.head?.all Frame.calling = true

instance (s : Sys ι) : Decidable s.Free := inferInstanceAs (Decidable (_ = true))

/-- The store of a key, which is made if need be. -/
def storeOf (s : Sys ι) (key : String) : SubscribedStore ι := (s.stateStores.get key).getD newStore

def getState (s : Sys ι) (key : String) : Option Json :=
  (s.stateStores.get key).bind (·.store.state)

def subscribers (s : Sys ι) (key : String) : LiveSet ι := (s.storeOf key).subscribers

/-- The handler is called with the state of the store. -/
def notification (s : Sys ι) (key : String) (handler : ι) : Notification ι :=
  ⟨key, handler, (s.past key).length, (s.storeOf key).store.state⟩

/-- All states of the store, the present one included. -/
def states (s : Sys ι) (key : String) : List (Option Json) :=
  s.past key ++ [(s.storeOf key).store.state]

end Sys

/-- The store under a key is the one that was set there last. -/
theorem storeOf_set (stores : JsMap String (SubscribedStore ι)) (key key' : String)
    (store : SubscribedStore ι) : ((stores.set key store).get key').getD newStore =
      if key' = key then store else (stores.get key').getD newStore := by
  rw [JsMap.get_set]
  split <;> rfl

theorem getState_eq (s : Sys ι) (key : String) : s.getState key = (s.storeOf key).store.state := by
  unfold Sys.getState Sys.storeOf
  cases s.stateStores.get key <;> rfl

/-- The stores hold the same states. -/
def SameStates (s t : Sys ι) : Prop :=
  t.past = s.past ∧ ∀ key, (t.storeOf key).store = (s.storeOf key).store

/-- A subscriber is told the same in two states whose stores hold the same. -/
theorem SameStates.notification {s t : Sys ι} (h : SameStates s t) (key : String) (handler : ι) :
    t.notification key handler = s.notification key handler := by
  unfold Sys.notification
  rw [h.1, h.2]

/-- The history of a key is the same in two states whose stores hold the same. -/
theorem SameStates.states {s t : Sys ι} (h : SameStates s t) (key : String) :
    t.states key = s.states key := by
  unfold Sys.states
  rw [h.1, h.2]

variable [DecidableEq ι] (lib : FastJsonPatch)

/-- The patches of a frame. -/
def patchesOf : StateFrame → List StatePatch
  | .statePatch patches => patches
  | .stateSnapshot data => [{ op := "replace", path := "", value := some data }]

def step (s : Sys ι) : Act ι → Option (Sys ι)
  | .subscribeState key handler =>
    if s.Free then
      let store := s.storeOf key
      some { s with
        stateStores := s.stateStores.set key { store with subscribers := store.subscribers.add handler }
        stack := .subscribe :: s.stack
        calls := s.calls ++ [s.notification key handler] }
    else none
  | .unsubscribe key handler =>
    match s.stateStores.get key with
    | none => none
    | some store =>
      if s.Free then
        some { s with stateStores :=
          s.stateStores.set key { store with subscribers := store.subscribers.delete handler } }
      else none
  | .frame key frame =>
    if s.Free then
      let store := s.storeOf key
      match store.store.applyPatches lib (patchesOf frame) with
      -- thrown to whoever hands over the frame
      | .error _ => some { s with stateStores := s.stateStores.set key store }
      | .ok new =>
        some { s with
          stateStores := s.stateStores.set key { store with store := new }
          stack := .notify key 0 false :: s.stack
          past := Function.update s.past key (s.states key) }
    else none
  | .next =>
    match s.stack with
    | .notify key index false :: stack =>
      match (s.subscribers key).next index with
      | none => some { s with stack }
      | some (handler, index) =>
        some { s with
          stack := .notify key index true :: stack
          calls := s.calls ++ [s.notification key handler] }
    | _ => none
  | .finish =>
    match s.stack with
    | .notify key index true :: stack => some { s with stack := .notify key index false :: stack }
    | .subscribe :: stack => some { s with stack }
    | _ => none

/-- The last call of a subscriber of a key. -/
def Sys.lastCall (s : Sys ι) (key : String) (handler : ι) : Option (Notification ι) :=
  (s.calls.filter fun c => c.key = key ∧ c.subscriber = handler).getLast?

/-- The frame is a loop of `notify` for the key. -/
def Frame.Notifies (key : String) : Frame → Prop
  | .notify key' _ _ => key' = key
  | .subscribe => False

variable {lib} {s t : Sys ι} {key : String} {handler : ι}

/-- The last call of a subscriber is the new one if it is the subscriber's, and the old one
otherwise. -/
theorem lastCall_concat (s : Sys ι) (c : Notification ι) (key : String) (handler : ι) :
    ((s.calls ++ [c]).filter fun c => c.key = key ∧ c.subscriber = handler).getLast? =
      if c.key = key ∧ c.subscriber = handler then some c else s.lastCall key handler := by
  rw [List.filter_append]
  by_cases h : c.key = key ∧ c.subscriber = handler
  · rw [if_pos h, List.filter_cons_of_pos (by simpa using h), List.filter_nil, List.getLast?_concat]
  · rw [if_neg h, List.filter_cons_of_neg (by simpa using h), List.filter_nil, List.append_nil]
    rfl

/-- The subscriber has been told the present state, or a loop of `notify` has it ahead. -/
def Told (s : Sys ι) (key : String) (handler : ι) : Prop :=
  s.lastCall key handler = some (s.notification key handler) ∨
    ∃ index calling, .notify key index calling ∈ s.stack ∧ ¬ (s.subscribers key).Reached index handler

structure Inv (s : Sys ι) : Prop where
  index_le : ∀ key index calling, .notify key index calling ∈ s.stack →
    index ≤ (s.subscribers key).slots.length
  told : ∀ key handler, handler ∈ s.subscribers key → Told s key handler
  calls : ∀ c ∈ s.calls, (s.states c.key)[c.version]? = some c.state
  sorted : s.calls.Pairwise fun c c' => c.key = c'.key → c.version ≤ c'.version

/-- At first there is no subscriber and no loop. -/
theorem inv_init : Inv (init : Sys ι) where
  index_le _ _ _ hframe := absurd hframe List.not_mem_nil
  told _ handler hmem := absurd hmem (LiveSet.not_mem_empty handler)
  calls _ hc := absurd hc List.not_mem_nil
  sorted := .nil

/-- One more call, with the present state. -/
theorem Inv.calls_concat (h : Inv s) (key : String) (handler : ι) :
    (∀ c ∈ s.calls ++ [s.notification key handler], (s.states c.key)[c.version]? = some c.state) ∧
      (s.calls ++ [s.notification key handler]).Pairwise fun c c' =>
        c.key = c'.key → c.version ≤ c'.version := by
  refine ⟨fun c hc => ?_, List.pairwise_append.mpr ⟨h.sorted, List.pairwise_singleton _ _, ?_⟩⟩
  · rcases List.mem_append.mp hc with hc | hc
    · exact h.calls c hc
    · rw [List.mem_singleton.mp hc]
      exact List.getElem?_concat_length
  · intro c hc c' hc' hkey
    rw [List.mem_singleton.mp hc'] at hkey ⊢
    have hlt := (List.getElem?_eq_some_iff.mp (h.calls c hc)).1
    rw [Sys.states, List.length_append, List.length_singleton, hkey] at hlt
    exact Nat.le_of_lt_succ hlt

/-- Another stack, with the same loops at the same places. -/
theorem Told.of_stack {stack : List Frame} (h : Told s key handler)
    (hstack : ∀ index calling, .notify key index calling ∈ s.stack →
      ∃ calling', .notify key index calling' ∈ stack) : Told { s with stack } key handler := by
  refine h.imp id ?_
  rintro ⟨index, calling, hframe, hahead⟩
  obtain ⟨calling', hframe'⟩ := hstack index calling hframe
  exact ⟨index, calling', hframe', hahead⟩

/-- A new subscriber is told the present state at once. -/
theorem Inv.subscribeState (h : Inv s)
    (hs : step lib s (.subscribeState key handler) = some t) : Inv t := by
  simp only [step, Option.ite_none_right_eq_some, Option.some.injEq] at hs
  obtain ⟨-, ht⟩ := hs
  have hstore : ∀ key', t.storeOf key' =
      if key' = key then { s.storeOf key with subscribers := (s.subscribers key).add handler }
      else s.storeOf key' := fun key' => ht ▸ storeOf_set ..
  have hcalls : t.calls = s.calls ++ [s.notification key handler] := ht ▸ rfl
  have hstack : t.stack = .subscribe :: s.stack := ht ▸ rfl
  have hsame : SameStates s t := by
    refine ⟨ht ▸ rfl, fun key' => ?_⟩
    rw [hstore]
    split
    · next heq => rw [heq]
    · rfl
  have hsubs : ∀ key', t.subscribers key' =
      if key' = key then (s.subscribers key).add handler else s.subscribers key' := by
    intro key'
    rw [Sys.subscribers, hstore]
    split <;> rfl
  obtain ⟨hstates, hsorted⟩ := h.calls_concat key handler
  refine ⟨?_, ?_, ?_, hcalls ▸ hsorted⟩
  · -- the iterator of a loop stays within the slots, of which there is one more
    intro key' index calling hframe
    rw [hstack, List.mem_cons, or_iff_right (by rintro ⟨⟩)] at hframe
    have hindex := h.index_le key' index calling hframe
    rw [hsubs]
    split
    · next heq => exact Nat.le_trans (heq ▸ hindex) (LiveSet.length_le_add _ handler)
    · exact hindex
  · intro key' handler' hmem
    rw [Told, hsame.notification, Sys.lastCall, hcalls, lastCall_concat]
    split
    · -- the new subscriber has been told just now
      next heq =>
      obtain ⟨rfl, rfl⟩ := heq
      exact .inl rfl
    · next hother =>
      -- any other was subscribed before
      have hold : handler' ∈ s.subscribers key' := by
        rw [hsubs] at hmem
        split at hmem
        · next heq =>
          subst heq
          exact (LiveSet.mem_add.mp hmem).resolve_right fun heq => hother ⟨rfl, heq.symm⟩
        · exact hmem
      refine (h.told key' handler' hold).imp id ?_
      rintro ⟨index, calling, hframe, hahead⟩
      refine ⟨index, calling, hstack ▸ List.mem_cons_of_mem _ hframe, ?_⟩
      rw [hsubs]
      split
      · next heq =>
        subst heq
        -- an iterator that has not met a subscriber has not met it after one is added
        exact mt (LiveSet.reached_add (h.index_le key' index calling hframe)).mp hahead
      · exact hahead
  · intro c hc
    rw [hsame.states]
    exact hstates c (hcalls ▸ hc)

/-- A subscriber that leaves has to be told nothing more, and the loops go on with the others. -/
theorem Inv.unsubscribe (h : Inv s)
    (hs : step lib s (.unsubscribe key handler) = some t) : Inv t := by
  cases hget : s.stateStores.get key with
  | none => simp only [step, hget, reduceCtorEq] at hs
  | some store =>
    simp only [step, hget, Option.ite_none_right_eq_some, Option.some.injEq] at hs
    obtain ⟨-, ht⟩ := hs
    have hold : s.storeOf key = store := by rw [Sys.storeOf, hget, Option.getD_some]
    have hstore : ∀ key', t.storeOf key' =
        if key' = key then { s.storeOf key with subscribers := (s.subscribers key).delete handler }
        else s.storeOf key' := by
      intro key'
      rw [Sys.subscribers, hold, ← ht]
      exact storeOf_set ..
    have hcalls : t.calls = s.calls := ht ▸ rfl
    have hstack : t.stack = s.stack := ht ▸ rfl
    have hsame : SameStates s t := by
      refine ⟨ht ▸ rfl, fun key' => ?_⟩
      rw [hstore]
      split
      · next heq => rw [heq]
      · rfl
    have hsubs : ∀ key', t.subscribers key' =
        if key' = key then (s.subscribers key).delete handler else s.subscribers key' := by
      intro key'
      rw [Sys.subscribers, hstore]
      split <;> rfl
    refine ⟨?_, ?_, ?_, hcalls ▸ h.sorted⟩
    · -- the iterators keep their place, as deleting leaves the slots
      intro key' index calling hframe
      have hindex := h.index_le key' index calling (hstack ▸ hframe)
      rw [hsubs]
      split
      · next heq =>
        rw [LiveSet.length_delete]
        exact heq ▸ hindex
      · exact hindex
    · intro key' handler' hmem
      rw [Told, hsame.notification, Sys.lastCall, hcalls, hstack]
      rw [hsubs] at hmem ⊢
      split at hmem
      · next heq =>
        subst heq
        rw [if_pos rfl]
        -- who was told is still told; who leaves need not be
        refine (h.told key' handler' (LiveSet.mem_delete.mp hmem).1).imp id ?_
        rintro ⟨index, calling, hframe, hahead⟩
        exact ⟨index, calling, hframe, fun hreached => hahead (LiveSet.reached_delete.mp hreached).1⟩
      · next hne =>
        rw [if_neg hne]
        exact h.told key' handler' hmem
    · intro c hc
      rw [hsame.states]
      exact h.calls c (hcalls ▸ hc)

/-- A frame that changes the state begins a loop that has every subscriber of the key ahead of
it. -/
theorem Inv.frame {frame : StateFrame} (h : Inv s)
    (hs : step lib s (.frame key frame) = some t) : Inv t := by
  simp only [step, Option.ite_none_right_eq_some] at hs
  obtain ⟨-, hs⟩ := hs
  cases happly : (s.storeOf key).store.applyPatches lib (patchesOf frame) with
  | error e =>
    rw [happly] at hs
    obtain rfl := Option.some.inj hs
    -- the store is made, if it was not there
    have hstore : ∀ key', ({ s with stateStores := s.stateStores.set key (s.storeOf key) } : Sys ι).storeOf
        key' = s.storeOf key' := by
      intro key'
      refine (storeOf_set ..).trans ?_
      split
      · next heq => rw [heq]
      · rfl
    have hsame : SameStates s { s with stateStores := s.stateStores.set key (s.storeOf key) } :=
      ⟨rfl, fun key' => congrArg SubscribedStore.store (hstore key')⟩
    have hsubs : ∀ key', ({ s with stateStores := s.stateStores.set key (s.storeOf key) } :
        Sys ι).subscribers key' = s.subscribers key' :=
      fun key' => congrArg SubscribedStore.subscribers (hstore key')
    refine ⟨?_, ?_, ?_, h.sorted⟩
    · intro key' index calling hframe
      rw [hsubs]
      exact h.index_le key' index calling hframe
    · intro key' handler' hmem
      rw [hsubs] at hmem
      rw [Told, hsame.notification, hsubs]
      exact h.told key' handler' hmem
    · intro c hc
      rw [hsame.states]
      exact h.calls c hc
  | ok new =>
    rw [happly] at hs
    have ht := Option.some.inj hs
    have hstore : ∀ key', t.storeOf key' =
        if key' = key then { s.storeOf key with store := new } else s.storeOf key' :=
      fun key' => ht ▸ storeOf_set ..
    have hsubs : ∀ key', t.subscribers key' = s.subscribers key' := by
      intro key'
      rw [Sys.subscribers, hstore]
      split
      · next heq => rw [heq, Sys.subscribers]
      · rfl
    have hstack : t.stack = .notify key 0 false :: s.stack := ht ▸ rfl
    have hcalls : t.calls = s.calls := ht ▸ rfl
    have hpast : ∀ key', t.past key' = if key' = key then s.states key else s.past key' := by
      intro key'
      rw [← ht]
      exact Function.update_apply ..
    refine ⟨?_, ?_, ?_, hcalls ▸ h.sorted⟩
    · intro key' index calling hframe
      rw [hsubs]
      rw [hstack] at hframe
      rcases List.mem_cons.mp hframe with heq | hframe
      · cases heq
        exact Nat.zero_le _
      · exact h.index_le key' index calling hframe
    · intro key' handler' hmem
      rw [hsubs] at hmem
      by_cases hkey : key' = key
      · subst hkey
        exact .inr ⟨0, false, hstack ▸ List.mem_cons_self, LiveSet.not_reached_zero _ _⟩
      · refine (h.told key' handler' hmem).imp ?_ ?_
        · intro hlast
          rw [Sys.lastCall, hcalls, Sys.notification, hpast, if_neg hkey, hstore, if_neg hkey]
          exact hlast
        · rintro ⟨index, calling, hframe, hahead⟩
          rw [hsubs]
          exact ⟨index, calling, hstack ▸ List.mem_cons_of_mem _ hframe, hahead⟩
    · intro c hc
      have hold := h.calls c (hcalls ▸ hc)
      rw [Sys.states, hpast]
      split
      · next heq =>
        rw [← heq]
        exact (List.getElem?_append_left (List.getElem?_eq_some_iff.mp hold).1).trans hold
      · next hne =>
        rw [hstore, if_neg hne]
        exact hold

/-- The loop on top calls the next subscriber with the present state, or is left when it has called
everybody who is subscribed. -/
theorem Inv.next (h : Inv s) (hs : step lib s .next = some t) : Inv t := by
  cases hstack : s.stack with
  | nil => simp only [step, hstack, reduceCtorEq] at hs
  | cons top stack =>
    cases top with
    | subscribe => simp only [step, hstack, reduceCtorEq] at hs
    | notify key index calling =>
      cases calling with
      | true => simp only [step, hstack, reduceCtorEq] at hs
      | false =>
        simp only [step, hstack] at hs
        cases hnext : (s.subscribers key).next index with
        | none =>
          rw [hnext] at hs
          obtain rfl := Option.some.inj hs
          -- the loop is over
          refine ⟨?_, ?_, h.calls, h.sorted⟩
          · intro key' index' calling hframe
            exact h.index_le key' index' calling (hstack ▸ List.mem_cons_of_mem _ hframe)
          · intro key' handler hmem
            refine (h.told key' handler hmem).imp id ?_
            rintro ⟨index', calling, hframe, hahead⟩
            rcases List.mem_cons.mp (hstack ▸ hframe) with heq | hframe
            · -- the loop that is left has called everybody who is subscribed
              cases heq
              exact absurd ((LiveSet.reached_of_next_eq_none hnext).mpr hmem) hahead
            · exact ⟨index', calling, hframe, hahead⟩
        | some x =>
          obtain ⟨handler, index'⟩ := x
          rw [hnext] at hs
          obtain rfl := Option.some.inj hs
          obtain ⟨hstates, hsorted⟩ := h.calls_concat key handler
          -- the next subscriber is called
          refine ⟨?_, ?_, hstates, hsorted⟩
          · intro key' i calling hframe
            rcases List.mem_cons.mp hframe with heq | hframe
            · cases heq
              exact LiveSet.le_length_of_next hnext
            · exact h.index_le key' i calling (hstack ▸ List.mem_cons_of_mem _ hframe)
          · intro key' handler' hmem
            rw [Told, Sys.lastCall, lastCall_concat]
            split
            · next heq =>
              obtain ⟨rfl, rfl⟩ := heq
              exact .inl rfl
            · next hother =>
              refine (h.told key' handler' hmem).imp id ?_
              rintro ⟨i, calling, hframe, hahead⟩
              rcases List.mem_cons.mp (hstack ▸ hframe) with heq | hframe
              · cases heq
                -- who is ahead of the loop is still ahead, unless it is who is called
                refine ⟨index', true, List.mem_cons_self, fun hreached => ?_⟩
                rcases (LiveSet.reached_next hnext).mp hreached with hreached | heq
                · exact hahead hreached
                · exact hother ⟨rfl, heq.symm⟩
              · exact ⟨i, calling, List.mem_cons_of_mem _ hframe, hahead⟩

/-- A subscriber returns, and the loop that called it goes on where it was. -/
theorem Inv.finish (h : Inv s) (hs : step lib s .finish = some t) : Inv t := by
  cases hstack : s.stack with
  | nil => simp only [step, hstack, reduceCtorEq] at hs
  | cons top stack =>
    cases top with
    | subscribe =>
      simp only [step, hstack] at hs
      obtain rfl := Option.some.inj hs
      refine ⟨?_, ?_, h.calls, h.sorted⟩
      · intro key index calling hframe
        exact h.index_le key index calling (hstack ▸ List.mem_cons_of_mem _ hframe)
      · intro key handler hmem
        refine (h.told key handler hmem).of_stack fun index calling hframe => ?_
        rw [hstack, List.mem_cons, or_iff_right (by rintro ⟨⟩)] at hframe
        exact ⟨calling, hframe⟩
    | notify key index calling =>
      cases calling with
      | false => simp only [step, hstack, reduceCtorEq] at hs
      | true =>
        simp only [step, hstack] at hs
        obtain rfl := Option.some.inj hs
        refine ⟨?_, ?_, h.calls, h.sorted⟩
        · intro key' index' calling hframe
          rcases List.mem_cons.mp hframe with heq | hframe
          · cases heq
            exact h.index_le _ _ true (hstack ▸ List.mem_cons_self)
          · exact h.index_le key' index' calling (hstack ▸ List.mem_cons_of_mem _ hframe)
        · intro key' handler hmem
          refine (h.told key' handler hmem).of_stack fun index' calling hframe => ?_
          rcases List.mem_cons.mp (hstack ▸ hframe) with heq | hframe
          · cases heq
            exact ⟨false, List.mem_cons_self⟩
          · exact ⟨calling, List.mem_cons_of_mem _ hframe⟩

/-- Every step keeps the subscribers told, or to be told. -/
theorem Inv.step {a : Act ι} (h : Inv s) (hs : Subscriptions.step lib s a = some t) : Inv t := by
  cases a with
  | subscribeState key handler => exact h.subscribeState hs
  | unsubscribe key handler => exact h.unsubscribe hs
  | frame key frame => exact h.frame hs
  | next => exact h.next hs
  | finish => exact h.finish hs

/-- In every run, whatever the subscribers do while they are called: when no loop of `notify` for a
key is left on the stack, whoever is subscribed to it has been called, the last time with the state
that `getState` gives. Every call is with a state that the store has had, and for no key is a call
with an older state made after one with a newer. -/
theorem subscribers_hold_current (acts : List (Act ι)) (s : Sys ι)
    (hrun : Machine.exec (step lib) init acts = some s) :
    (∀ key, (∀ frame ∈ s.stack, ¬ frame.Notifies key) → ∀ handler ∈ s.subscribers key,
        (s.lastCall key handler).map Notification.state = some (s.getState key)) ∧
      (∀ c ∈ s.calls, (s.states c.key)[c.version]? = some c.state) ∧
      s.calls.Pairwise fun c c' => c.key = c'.key → c.version ≤ c'.version := by
  have h := Machine.exec_invariant (fun s a t h hs => Inv.step h hs) inv_init hrun
  refine ⟨fun key hsettled handler hmem => ?_, h.calls, h.sorted⟩
  rcases h.told key handler hmem with hlast | ⟨index, calling, hframe, -⟩
  · rw [hlast, getState_eq]
    rfl
  · exact absurd rfl (hsettled _ hframe)

/-- A library that knows how to replace the document. -/
def replaceLibrary : FastJsonPatch where
  compare _ new := [{ op := "replace", path := "", value := some new }]
  applyOperation document patch := .ok (patch.value.getD document)

/-- Two subscribers. The first one, while it is told of a state, has the next one applied. -/
def reentrantFrame : List (Act ℕ) :=
  [.subscribeState "score" 1, .finish, .subscribeState "score" 2, .finish,
    .frame "score" (.stateSnapshot (.num 5)), .next, .frame "score" (.stateSnapshot (.num 6)),
    .next, .finish, .next, .finish, .next, .finish, .next, .finish, .next]

/-- Both subscribers hold the newest state, though the first one sets it while it is told the older
one. -/
theorem both_hold_newest : ∃ s, Machine.exec (step replaceLibrary) init reentrantFrame = some s ∧
    s.getState "score" = some (.num 6) ∧
      (s.lastCall "score" 1).map Notification.state = some (some (.num 6)) ∧
      (s.lastCall "score" 2).map Notification.state = some (some (.num 6)) := by
  have hrun : (Machine.exec (step replaceLibrary) init reentrantFrame).map (fun s =>
      (s.getState "score", s.stack.length, decide (1 ∈ s.subscribers "score"),
        decide (2 ∈ s.subscribers "score"))) = some (some (.num 6), 0, true, true) := by
    decide +kernel
  obtain ⟨s, hs, hfacts⟩ := Option.map_eq_some_iff.mp hrun
  simp only [Prod.mk.injEq, decide_eq_true_eq, List.length_eq_zero_iff] at hfacts
  obtain ⟨hstate, hstack, hfirst, hsecond⟩ := hfacts
  have hsettled : ∀ frame ∈ s.stack, ¬ frame.Notifies "score" := by
    rw [hstack]
    exact fun _ hframe => absurd hframe List.not_mem_nil
  obtain ⟨hlast, -, -⟩ := subscribers_hold_current reentrantFrame s hs
  have hlast := hlast "score" hsettled
  rw [hstate] at hlast
  exact ⟨s, hs, hstate, hlast 1 hfirst, hlast 2 hsecond⟩

end Subscriptions

end Datasole
