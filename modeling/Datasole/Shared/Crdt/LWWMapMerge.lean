import Mathlib.Order.Lattice
import Datasole.Shared.Crdt.LWWMap

/-!
# State transfer between map replicas

`LWWMap.state` sends one record of live values and one timestamp, the sender's clock; `merge` writes
every entry of the record with that timestamp. The timestamps of the single keys and the tombstones
stay behind. `merge_reads_newest_iff` gives the exact condition under which a merge still leaves
every key with its newest write.
-/

namespace Datasole

variable {V : Type*}

/-- A call that changes a map replica, with an explicit timestamp. -/
inductive MapCall (V : Type*) where
  | set (key : String) (val : Option V) (timestamp : Timestamp)
  | delete (key : String) (timestamp : Timestamp)
  | apply (op : CrdtOperation V)

namespace MapCall

/-- Make a call. -/
def run (m : LWWMap V) : MapCall V → LWWMap V
  | .set key val timestamp => (m.set key val timestamp).1
  | .delete key timestamp => (m.delete key timestamp).1
  | .apply op => m.apply op

/-- The write that a call executes, if any. -/
def write : MapCall V → Option (MapWrite V)
  | .set key val timestamp => some ⟨key, timestamp, .set val⟩
  | .delete key timestamp => some ⟨key, timestamp, .delete⟩
  | .apply op => MapWrite.ofOp op

end MapCall

namespace LWWMap

open MapWrite

/-- Make calls one after the other. -/
def runCalls (m : LWWMap V) (calls : List (MapCall V)) : LWWMap V := calls.foldl MapCall.run m

/-- Calls perform their writes. -/
theorem runCalls_eq_writeAll (m : LWWMap V) (calls : List (MapCall V)) :
    m.runCalls calls = m.writeAll (calls.filterMap MapCall.write) := by
  unfold runCalls
  induction calls generalizing m with
  | nil => rfl
  | cons c calls ih =>
    rw [List.foldl_cons, List.filterMap_cons]
    cases c with
    | set key val t => exact ih _
    | delete key t => exact ih _
    | apply op =>
      rw [MapCall.run, apply_eq_write, MapCall.write]
      cases ofOp op with
      | none => exact ih m
      | some w => exact ih (m.write w)

/-- The loop of `merge` over the received entries. -/
def setAll (m : LWWMap V) (entries : List (String × V)) (timestamp : Timestamp) : LWWMap V :=
  entries.foldl
    (fun m e => if e.1 ∈ forbiddenKeys then m else (m.set e.1 (some e.2) timestamp).1) m

/-- A merge that is not too large sets the received entries. -/
theorem merge_eq_setAll (m : LWWMap V) {remote : CrdtState (JsMap String V)}
    (h : remote.value.size ≤ 10000) :
    m.merge remote =
      let merged := m.setAll remote.value.entries remote.metadata.timestamp
      .ok { merged with version := merged.version + 1 } := by
  unfold merge
  rw [if_neg (by omega)]
  rfl

/-- The loop leaves the keys it skips and the keys that are not received as they are. Any other key
gets the received value, unless it holds a newer write. -/
theorem held_setAll (m : LWWMap V) {entries : List (String × V)} (timestamp : Timestamp)
    (hnd : (entries.map Prod.fst).Nodup) (key : String) :
    (m.setAll entries timestamp).held key =
      if key ∈ forbiddenKeys then m.held key
      else (entries.lookup key).elim (m.held key) fun v => some
        ((m.held key).elim (timestamp, some v) (Newest.put Prod.fst · (timestamp, some v))) := by
  induction entries generalizing m with
  | nil => simp [setAll]
  | cons e entries ih =>
    obtain ⟨hmem, hnd⟩ := List.nodup_cons.mp hnd
    rw [JsMap.lookup_cons]
    change (setAll (if e.1 ∈ forbiddenKeys then m else (m.set e.1 (some e.2) timestamp).1)
      entries timestamp).held key = _
    rw [ih _ hnd]
    by_cases hk : key = e.1
    · subst hk
      by_cases hforb : e.1 ∈ forbiddenKeys
      · simp only [if_pos hforb]
      · simp only [if_neg hforb, JsMap.lookup_eq_none hmem, held_set, if_true]
        rfl
    · have hother : (if e.1 ∈ forbiddenKeys then m
          else (m.set e.1 (some e.2) timestamp).1).held key = m.held key := by
        split
        · rfl
        · rw [held_set, if_neg hk]
      rw [hother, if_neg hk]

/-- Every key reads as its newest write of `ws` leaves it. -/
def ReadsNewest (m : LWWMap V) (ws : List (MapWrite V)) : Prop :=
  ∀ key, m.get key = (Newest.newest timestamp (onKey ws key)).bind outcome

end LWWMap

open MapWrite LWWMap

/-- The state transfer delivers the newest write of a key. `A` and `B` are the writes of the key at
the receiver and at the sender, `now` is the sender's clock. If the sender still has a value for the
key and its clock is not behind what the receiver holds, the newest write has to leave the sender's
value, otherwise what the receiver reads already. -/
def TransferDelivers (A B : List (MapWrite V)) (now : Timestamp) : Prop :=
  (Newest.newest timestamp (A ++ B)).bind outcome =
    if (reading B).isSome ∧ ∀ w ∈ kept A, w.timestamp ≤ now then reading B else reading A

/-- After a merge, a key whose value the sender transmits reads as that value unless the receiver
skips the key or holds a write newer than the sender's clock; every other key reads as before. -/
theorem get_merge_state (na nb : String) (a b : List (MapWrite V)) (now : Timestamp)
    (hsize : ((new nb).writeAll b).value.size ≤ 10000) :
    ∃ m, ((new na).writeAll a).merge (((new nb).writeAll b).state now) = .ok m ∧
      ∀ key, m.get key =
        if key ∉ forbiddenKeys ∧ (reading (onKey b key)).isSome ∧
          ∀ w ∈ kept (onKey a key), w.timestamp ≤ now
        then reading (onKey b key) else reading (onKey a key) := by
  refine ⟨_, merge_eq_setAll _ hsize, fun key => ?_⟩
  have hsent : (((new nb).writeAll b).state now).value.entries.lookup key =
      reading (onKey b key) := by
    rw [← get_writeAll nb, ← get_value]
    rfl
  have hheld := held_setAll ((new na).writeAll a) now
    (JsMap.nodup_keys (((new nb).writeAll b).state now).value) key
  rw [hsent, held_writeAll] at hheld
  rw [get_eq_held]
  change (LWWMap.held (setAll _ _ now) key).bind Prod.snd = _
  rw [hheld]
  -- what is received is set, unless the key is skipped or the receiver holds a newer write
  by_cases hkey : key ∈ forbiddenKeys
  · rw [if_pos hkey, if_neg (fun h => h.1 hkey), reading]
    cases kept (onKey a key) <;> rfl
  rw [if_neg hkey]
  cases hb : reading (onKey b key) with
  | none =>
    rw [if_neg (by simp), reading]
    cases kept (onKey a key) <;> rfl
  | some v =>
    cases ha : kept (onKey a key) with
    | none => rw [if_pos (by simp [hkey])]; rfl
    | some w =>
      by_cases hw : w.timestamp ≤ now
      · rw [if_pos (by simpa [hkey] using hw)]
        simp [Newest.put, hw]
      · rw [if_neg (by simpa using fun _ => lt_of_not_ge hw)]
        simp [Newest.put, hw, reading, ha]

/-- A key that no call names has no writes. -/
theorem onKey_eq_nil {ws : List (MapWrite V)} {key : String} (h : ∀ w ∈ ws, w.key ≠ key) :
    onKey ws key = [] :=
  List.filter_eq_nil_iff.mpr fun w hw => by simpa using h w hw

/-- After `a.merge(b.state())` every key reads as the newest write that either replica executed
exactly when the transfer delivers the newest write of every key. -/
theorem merge_reads_newest_iff (na nb : String) (callsA callsB : List (MapCall V)) (now : Timestamp)
    (hkeys : ∀ w ∈ callsB.filterMap MapCall.write, w.key ∉ forbiddenKeys)
    (hsize : ((new nb).runCalls callsB).value.size ≤ 10000) :
    let a := callsA.filterMap MapCall.write
    let b := callsB.filterMap MapCall.write
    ∃ m, ((new na).runCalls callsA).merge (((new nb).runCalls callsB).state now) = .ok m ∧
      (m.ReadsNewest (a ++ b) ↔ ∀ key, TransferDelivers (onKey a key) (onKey b key) now) := by
  intro a b
  rw [runCalls_eq_writeAll] at hsize ⊢
  rw [runCalls_eq_writeAll]
  obtain ⟨m, hm, hget⟩ := get_merge_state na nb a b now hsize
  refine ⟨m, hm, forall_congr' fun key => ?_⟩
  have happ : onKey (a ++ b) key = onKey a key ++ onKey b key := List.filter_append ..
  have hskip : key ∈ forbiddenKeys → onKey b key = [] := fun hkey =>
    onKey_eq_nil fun w hw h => hkeys w hw (h ▸ hkey)
  rw [happ, TransferDelivers, hget key, eq_comm]
  by_cases hkey : key ∈ forbiddenKeys
  · rw [hskip hkey]
    simp [reading]
  · simp [hkey]

/-- A receiver that holds an older write and a newer deletion gets the sender's value, and keeps
its own deletion: both newest writes survive. -/
theorem merge_after_older_write_reads_newest :
    let callsA : List (MapCall ℕ) := [.set "a" (some 1) 1, .set "b" (some 2) 2, .delete "b" 6]
    let callsB : List (MapCall ℕ) := [.set "a" (some 3) 5]
    ∃ m, ((new "n1").runCalls callsA).merge (((new "n2").runCalls callsB).state 100) = .ok m ∧
      m.ReadsNewest (callsA.filterMap MapCall.write ++ callsB.filterMap MapCall.write) := by
  intro callsA callsB
  obtain ⟨m, hm, hiff⟩ := merge_reads_newest_iff "n1" "n2" callsA callsB 100 (by decide) (by decide)
  refine ⟨m, hm, hiff.mpr fun key => ?_⟩
  by_cases ha : key = "a"
  · subst ha; unfold TransferDelivers; decide
  by_cases hb : key = "b"
  · subst hb; unfold TransferDelivers; decide
  have hnil : ∀ ws : List (MapWrite ℕ), (∀ w ∈ ws, w.key = "a" ∨ w.key = "b") →
      onKey ws key = [] := fun ws h =>
    onKey_eq_nil fun w hw hk => (h w hw).elim (fun h' => ha (hk ▸ h')) fun h' => hb (hk ▸ h')
  rw [hnil _ (by decide), hnil _ (by decide)]
  unfold TransferDelivers
  decide

/-- A newer local write and a deletion at the sender are both undone by a merge: the receiver wrote
`a` at time 10, the sender wrote `a` at 5; the sender wrote `b` at 3 and deleted it at 4, the
receiver had the write at 2. -/
theorem merge_loses_newer_writes :
    let callsA : List (MapCall ℕ) := [.set "a" (some 1) 10, .set "b" (some 7) 2]
    let callsB : List (MapCall ℕ) := [.set "a" (some 0) 5, .set "b" (some 8) 3, .delete "b" 4]
    (∀ w ∈ (callsA ++ callsB).filterMap MapCall.write,
        w.key ∉ forbiddenKeys ∧ ∀ w' ∈ (callsA ++ callsB).filterMap MapCall.write,
          w.key = w'.key → w.timestamp = w'.timestamp → w = w') ∧
      ((new "n2").runCalls callsB).value.size ≤ 10000 ∧
      (∀ m, ((new "n1").runCalls callsA).merge (((new "n2").runCalls callsB).state 100) = .ok m →
        m.get "a" = some 0 ∧ m.get "b" = some 7 ∧
          ¬ m.ReadsNewest (callsA.filterMap MapCall.write ++ callsB.filterMap MapCall.write)) := by
  intro callsA callsB
  refine ⟨by decide, by decide, ?_⟩
  rintro m hm
  have hgets : m.get "a" = some 0 ∧ m.get "b" = some 7 := by
    have hrun : (((new "n1").runCalls callsA).merge
        (((new "n2").runCalls callsB).state 100)).toOption.map
          (fun m => (m.get "a", m.get "b")) = some (some 0, some 7) := by decide
    rw [hm] at hrun
    simpa [Except.toOption] using hrun
  refine ⟨hgets.1, hgets.2, fun hnewest => ?_⟩
  have ha := hnewest "a"
  rw [hgets.1] at ha
  exact absurd ha (by decide)

end Datasole
