import Datasole.Shared.Crdt.LWWMapMerge

/-!
# State transfer to a fresh map

A map sends its state as JSON and a fresh map merges it. What `set`, `delete` and `apply` let into a
map `merge` may refuse: it skips three names of keys and throws if there are too many entries.
`merge_into_fresh` says what arrives.
-/

namespace Datasole

namespace LWWMap

open MapWrite

variable {V : Type*}

/-- `JSON.parse(JSON.stringify(state))`: the entries of the record may come back in another order,
as the names that are array indices come first in an object. -/
structure IsRoundTrip (state received : CrdtState (JsMap String V)) : Prop where
  type : received.type = state.type
  value : received.value.SameEntries state.value
  metadata : received.metadata.timestamp = state.metadata.timestamp

/-- Maps with the same entries have equally many. -/
theorem size_eq_of_sameEntries {m n : JsMap String V} (h : m.SameEntries n) : m.size = n.size := by
  have hperm : m.keys.Perm n.keys :=
    (List.perm_ext_iff_of_nodup m.nodup n.nodup).mpr fun key => by
      rw [JsMap.mem_keys, JsMap.mem_keys, h key]
  have hlength := hperm.length_eq
  rwa [JsMap.keys, JsMap.keys, List.length_map, List.length_map] at hlength

/-- A fresh map sets what it receives, but for the keys it skips. -/
theorem get_setAll_new (nodeId : String) (record : JsMap String V) (timestamp : Timestamp)
    (key : String) :
    ((new nodeId).setAll record.entries timestamp).get key =
      if key ∈ forbiddenKeys then none else record.get key := by
  have hnone : (new nodeId : LWWMap V).held key = none := rfl
  rw [get_eq_held, held_setAll _ timestamp record.nodup_keys, hnone]
  split
  · rfl
  · rw [JsMap.get]
    cases record.entries.lookup key <;> rfl

/-- Whatever calls were made of a map: a fresh map that merges its state has the same record without
the keys that are skipped, or throws, if the record has too many entries. -/
theorem merge_into_fresh (nodeId fresh : String) (calls : List (MapCall V)) (now : Timestamp)
    (received : CrdtState (JsMap String V))
    (hreceived : IsRoundTrip (((new nodeId).runCalls calls).state now) received) :
    let m := (new nodeId).runCalls calls
    if m.value.size ≤ 10000 then
      ∃ t, (new fresh).merge received = .ok t ∧
        ∀ key, t.value.get key = if key ∈ forbiddenKeys then none else m.value.get key
    else (new fresh).merge received = .error s!"LWWMap merge too large: {m.value.size} entries" := by
  intro m
  have hsize : received.value.size = m.value.size := size_eq_of_sameEntries hreceived.value
  split
  · next hle =>
    refine ⟨_, merge_eq_setAll (new fresh) (hsize.trans_le hle), fun key => ?_⟩
    have hget := get_setAll_new fresh received.value received.metadata.timestamp key
    rw [hreceived.value key] at hget
    rw [get_value]
    exact hget
  · next hlt =>
    unfold merge
    rw [if_pos (by omega), hsize]

/-- A set, a deletion and an applied operation. -/
theorem merge_into_fresh_two : let calls : List (MapCall ℕ) := [.set "a" (some 1) 5,
      .set "b" (some 2) 6, .delete "a" 7, .apply ⟨.lwwMap, "x", 8, .set, some "1", some 3⟩]
    ∃ t, (new "fresh").merge (((new "n").runCalls calls).state 9) = .ok t ∧
      t.value.get "a" = none ∧ t.value.get "b" = some 2 ∧ t.value.get "1" = some 3 := by
  intro calls
  have hmerge := merge_into_fresh "n" "fresh" calls 9 _ ⟨rfl, fun _ => rfl, rfl⟩
  rw [if_pos (by decide +kernel)] at hmerge
  obtain ⟨t, ht, hget⟩ := hmerge
  refine ⟨t, ht, ?_, ?_, ?_⟩ <;> rw [hget] <;> decide +kernel

/-- The value under `constructor` does not arrive. -/
theorem constructor_not_transferred : let m := (new "n").runCalls [.set "constructor" (some 1) 5]
    m.value.get "constructor" = some 1 ∧
      ∀ t, (new "fresh").merge (m.state 9) = .ok t → t.value.get "constructor" = none := by
  intro m
  refine ⟨by decide +kernel, fun t ht => ?_⟩
  rw [merge_eq_setAll _ (by decide +kernel)] at ht
  cases ht
  rw [get_value]
  exact get_setAll_new "fresh" m.value 9 "constructor"

end LWWMap

end Datasole
