import Datasole.Shared.Diff.JsonPatch

/-!
# The client's copy of a state

`StateStore` of `client/state/state-store.ts`. Its subscribers are told every new state; an error of
one is caught, so they do not bear on the state.
-/

namespace Datasole

structure StateStore where
  state : Option Json
deriving DecidableEq

/-- What a server can send about one key: `STATE_PATCH` and `STATE_SNAPSHOT`. -/
inductive StateFrame where
  | statePatch (patches : List StatePatch)
  | stateSnapshot (data : Json)
deriving DecidableEq

namespace StateStore

variable (lib : FastJsonPatch)

/-- An error of `applyPatch` leaves the store as it was. -/
def applyPatches (store : StateStore) (patches : List StatePatch) : Except String StateStore := do
  return { store with state := ← applyPatch lib store.state patches }

/-- The store after several patch lists, in order. -/
def applyAll (store : StateStore) (batches : List (List StatePatch)) : Except String StateStore :=
  batches.foldlM (applyPatches lib) store

/-- `onStatePatch` and `onStateSnapshot` of the client's router. An error goes to whoever hands over
the frame, and the store stays as it was. -/
def onStateFrame (store : StateStore) (frame : StateFrame) : StateStore :=
  let patches := match frame with
    | .statePatch patches => patches
    | .stateSnapshot data => [{ op := "replace", path := "", value := some data }]
  (store.applyPatches lib patches).toOption.getD store

variable {lib}

/-- A patch frame that can be applied leaves the patched state. -/
theorem onStateFrame_patch {store : StateStore} {patches : List StatePatch} {a : Option Json}
    (h : applyPatch lib store.state patches = .ok a) :
    store.onStateFrame lib (.statePatch patches) = ⟨a⟩ := by
  simp only [onStateFrame, applyPatches, h]
  rfl

theorem applyPatches_nil (store : StateStore) : store.applyPatches lib [] = .ok store := rfl

theorem applyAll_append (store : StateStore) (as bs : List (List StatePatch)) :
    store.applyAll lib (as ++ bs) = (store.applyAll lib as).bind (applyAll lib · bs) :=
  List.foldlM_append

/-- The first list is applied before the others. -/
theorem applyAll_cons (store : StateStore) (patches : List StatePatch)
    (batches : List (List StatePatch)) :
    store.applyAll lib (patches :: batches) =
      (store.applyPatches lib patches).bind (applyAll lib · batches) :=
  List.foldlM_cons

/-- Applying one list is applying its patches. -/
theorem applyAll_singleton {store : StateStore} {patches : List StatePatch} {a : Option Json} :
    store.applyAll lib [patches] = .ok ⟨a⟩ ↔ applyPatch lib store.state patches = .ok a := by
  rw [applyAll_cons, applyPatches]
  cases applyPatch lib store.state patches with
  | error e => exact ⟨nofun, nofun⟩
  | ok b =>
    refine ⟨fun h => ?_, fun h => ?_⟩
    · cases h
      rfl
    · cases h
      rfl

/-- More patches may be put behind the last ones. -/
theorem applyAll_enqueue {store : StateStore} {batches : List (List StatePatch)}
    {pending patches : List StatePatch} {a b : Option Json}
    (h : store.applyAll lib (batches ++ [pending]) = .ok ⟨a⟩) (ha : nonNull a = a)
    (happly : applyPatch lib a patches = .ok b) :
    store.applyAll lib (batches ++ [pending ++ patches]) = .ok ⟨b⟩ := by
  rw [applyAll_append] at h ⊢
  cases hbatches : store.applyAll lib batches with
  | error e => rw [hbatches] at h; cases h
  | ok mid =>
    rw [hbatches] at h
    have hmid : applyPatch lib mid.state pending = .ok a := applyAll_singleton.mp h
    exact applyAll_singleton.mpr ((applyPatch_append hmid fun _ => ha).trans happly)

/-- Empty lists change nothing. -/
theorem applyAll_of_forall_nil (store : StateStore) {batches : List (List StatePatch)}
    (h : ∀ patches ∈ batches, patches = []) : store.applyAll lib batches = .ok store := by
  induction batches with
  | nil => rfl
  | cons patches batches ih =>
    rw [applyAll_cons, h patches List.mem_cons_self, applyPatches_nil]
    exact ih fun ps hps => h ps (List.mem_cons_of_mem _ hps)

/-- Empty lists may be left out anywhere. -/
theorem applyAll_skip (store : StateStore) {as bs cs : List (List StatePatch)}
    (h : ∀ patches ∈ bs, patches = []) :
    store.applyAll lib (as ++ (bs ++ cs)) = store.applyAll lib (as ++ cs) := by
  rw [applyAll_append, applyAll_append]
  refine congrArg _ (funext fun store => ?_)
  rw [applyAll_append, applyAll_of_forall_nil store h]
  rfl

end StateStore

end Datasole
