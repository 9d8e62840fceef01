import Datasole.Server.Crdt.UntrustedFrames
import Datasole.Shared.Crdt.LWWMap

/-!
# The types of CRDT messages

Operations and states have a field `type`. `CrdtManager.apply` reads it when a key is new, to make a
CRDT of this type; no class and no registry compares it with the CRDT that a message reaches. So an
operation or a state of one type that gets to a CRDT of another is whatever the fields that the
receiver reads make of it. What keeps a message out are the checks of these fields alone: `Keeps` is
the message that they leave nothing to write.
-/

open Binary64

namespace Datasole

open PNCounter (Side)

namespace Untrusted

/-- `CrdtState`, with any values for its fields. -/
structure CrdtState where
  type : JsValue
  value : JsValue
  metadata : JsValue

variable (texts : NumberTexts)

/-! ## Merging -/

namespace PNCounter

/-- `Math.max(own, count)`. -/
def mathMax (own : JsPrimitive) (count : Double) : JsPrimitive :=
  match own.toNumber texts with
  | .nan => .number .nan
  | n => .number (if n.ge (.finite count) then n else .finite count)

/-- A count, if it is a finite number. -/
def finiteCount : JsValue → Option Double
  | .number (.finite x) => some x
  | _ => none

/-- The loop over the counts of one vector. -/
def mergeCounts (m : JsMap JsKey JsPrimitive) (counts : List (String × JsValue)) :
    JsMap JsKey JsPrimitive :=
  counts.foldl (fun m e =>
    match finiteCount e.2 with
    | none => m
    | some count => m.set (.string e.1) (mathMax texts ((m.get (.string e.1)).getD zero) count)) m

/-- The counts of the vector, if the metadata has one. -/
def readVectorFromMetadata (metadata : JsValue) :
    Option (Side → Option (List (String × JsValue))) :=
  let vector := metadata.property "vector"
  vector.members.map fun _ side =>
    match side with
    | .increments => (vector.property "increments").members
    | .decrements => (vector.property "decrements").members

def merge (c : PNCounter) (remote : CrdtState) : PNCounter :=
  match readVectorFromMetadata remote.metadata with
  | none => c
  | some rv =>
    { c with
      increments := (rv .increments).elim c.increments (mergeCounts texts c.increments)
      decrements := (rv .decrements).elim c.decrements (mergeCounts texts c.decrements)
      version := c.version + 1 }

end PNCounter

namespace LWWRegister

/-- What a merge compares: the timestamps, then the node ids. -/
def newer (r : LWWRegister) (timestamp : Number) (nodeId : String) : Option Bool :=
  (r.timestamp.toPrimitive texts).map fun own =>
    (timestamp.ge (own.toNumber texts) && !(own.toNumber texts).ge timestamp) ||
      match r.timestamp with
      | .number n => decide (timestamp = n ∧ n ≠ .nan ∧ JsString.Lt r.nodeId nodeId)
      | _ => false

/-- `Math.max(version, remote) + 1`, in whole numbers. Only `state()` reads versions. -/
def nextVersion (version : ℕ) : Number → ℕ
  | .finite x => max version (x.units / perOne).toNat + 1
  | .nan | .infinity | .negInfinity => version + 1

def merge (r : LWWRegister) (remote : CrdtState) : Option LWWRegister :=
  match remote.metadata.property "timestamp", remote.metadata.property "nodeId",
    remote.metadata.property "version" with
  | .number timestamp, .string nodeId, .number version =>
    (r.newer texts timestamp nodeId).map fun newer =>
      if newer then
        { r with
          value := remote.value
          timestamp := .number timestamp
          version := nextVersion r.version version }
      else r
  | _, _, _ => some r

end LWWRegister

namespace LWWMap

def value (map : LWWMap) : JsMap JsKey JsValue := map.fields.filterMap (·.value.defined)

/-- The loop of a merge, which ends with the first entry that throws. -/
def mergeEntries (timestamp : JsValue) : LWWMap → List (String × JsValue) → LWWMap
  | map, [] => { map with version := map.version + 1 }
  | map, e :: entries =>
    if e.1 ∈ Datasole.LWWMap.forbiddenKeys then mergeEntries timestamp map entries
    else
      match map.set texts (.string e.1) e.2 timestamp with
      | none => map
      | some map => mergeEntries timestamp map entries

/-- The map after the merge, also after one that throws: too many entries are refused. -/
def merge (map : LWWMap) (remote : CrdtState) : LWWMap :=
  match remote.metadata.property "timestamp", remote.value.entries with
  | .number timestamp, some entries =>
    if 10000 < entries.length then map else map.mergeEntries texts (.number timestamp) entries
  | _, _ => map

end LWWMap

/-- What `value()` gives, by class. The record of a map is by the keys of its fields. -/
inductive CrdtValue where
  | total (total : JsPrimitive)
  | held (value : JsValue)
  | record (record : JsMap JsKey JsValue)

namespace Crdt

/-- The field `type` of the class. -/
def type : Crdt → String
  | .pnCounter _ => "pn-counter"
  | .lwwRegister _ => "lww-register"
  | .lwwMap _ => "lww-map"

def value : Crdt → CrdtValue
  | .pnCounter c => .total (c.value texts)
  | .lwwRegister r => .held r.value
  | .lwwMap map => .record map.value

/-- The CRDT after a merge, also after one that throws. -/
def merge (crdt : Crdt) (remote : CrdtState) : Crdt :=
  match crdt with
  | .pnCounter c => .pnCounter (c.merge texts remote)
  | .lwwRegister r => .lwwRegister ((r.merge texts remote).getD r)
  | .lwwMap map => .lwwMap (map.merge texts remote)

end Crdt

/-- `CrdtStore` of `client/crdt/crdt-store.ts`, as far as remote messages go. -/
structure CrdtStore where
  crdts : JsMap String Crdt

namespace CrdtStore

def applyRemote (s : CrdtStore) (key : String) (op : CrdtOperation) (now : Double) : CrdtStore :=
  match s.crdts.get key with
  | none => s
  | some crdt => { s with crdts := s.crdts.set key (crdt.apply texts op now) }

def mergeRemoteState (s : CrdtStore) (key : String) (state : CrdtState) : CrdtStore :=
  match s.crdts.get key with
  | none => s
  | some crdt => { s with crdts := s.crdts.set key (crdt.merge texts state) }

end CrdtStore

/-! ## Messages that write nothing -/

namespace PNCounter

/-- The operation is no increment or decrement, or throws, or adds nothing to the entry. -/
def KeepsOp (c : PNCounter) (op : CrdtOperation) : Prop :=
  ∀ side, sideOf op.op = some side → ∀ added, (amount op).toPrimitive texts = some added →
    ∃ own, (c.counts side).get op.nodeId.key = some own ∧ own.add texts added = own

/-- The state has no vector, or one without a finite count that is larger than what the counter
has. -/
def KeepsState (c : PNCounter) (state : CrdtState) : Prop :=
  ∀ rv, readVectorFromMetadata state.metadata = some rv → ∀ side counts, rv side = some counts →
    ∀ e ∈ counts, ∀ count, finiteCount e.2 = some count →
      ∃ own, (c.counts side).get (.string e.1) = some own ∧ mathMax texts own count = own

end PNCounter

namespace LWWRegister

/-- The timestamp is older, or cannot be compared, or the value is the one held. -/
def KeepsWrite (r : LWWRegister) (value timestamp : JsValue) : Prop :=
  timestamp.ge texts r.timestamp = some true → value = r.value

/-- The metadata is not well-formed, or not newer, or the value is the one held. -/
def KeepsState (r : LWWRegister) (state : CrdtState) : Prop :=
  ∀ timestamp nodeId version, state.metadata.property "timestamp" = .number timestamp →
    state.metadata.property "nodeId" = .string nodeId →
    state.metadata.property "version" = .number version →
    r.newer texts timestamp nodeId = some true → state.value = r.value

end LWWRegister

namespace LWWMap

/-- A field that is new gets `undefined`, or what is there is kept. -/
def KeepsSet (map : LWWMap) (key : JsKey) (val timestamp : JsValue) : Prop :=
  match map.fields.get key with
  | none => val = .undefined
  | some r => r.KeepsWrite texts val timestamp

def KeepsDelete (map : LWWMap) (key : JsKey) (timestamp : JsValue) : Prop :=
  ∀ r, map.fields.get key = some r → r.KeepsWrite texts .undefined timestamp

/-- The operation is no `set` or `remove` with a key, or writes nothing to the field. -/
structure KeepsOp (map : LWWMap) (op : CrdtOperation) (now : Double) : Prop where
  set : op.op.isString "set" = true → op.key.truthy = true →
    map.KeepsSet texts op.key.key op.value (timestampOr op.timestamp now)
  delete : op.op.isString "remove" = true → op.key.truthy = true →
    map.KeepsDelete texts op.key.key (timestampOr op.timestamp now)

/-- The entry finds a field where it writes nothing. -/
def KeepsEntry (map : LWWMap) (timestamp : JsValue) (e : String × JsValue) : Prop :=
  ∃ r, map.fields.get (.string e.1) = some r ∧ r.KeepsWrite texts e.2 timestamp

/-- The state has no timestamp that is a number, or no entries, or too many, or none that writes to
a field. -/
def KeepsState (map : LWWMap) (state : CrdtState) : Prop :=
  ∀ timestamp entries, state.metadata.property "timestamp" = .number timestamp →
    state.value.entries = some entries → entries.length ≤ 10000 →
    ∀ e ∈ entries, e.1 ∉ Datasole.LWWMap.forbiddenKeys → map.KeepsEntry texts (.number timestamp) e

end LWWMap

namespace Crdt

def KeepsOp (op : CrdtOperation) (now : Double) : Crdt → Prop
  | .pnCounter c => c.KeepsOp texts op
  | .lwwRegister r => r.KeepsWrite texts op.value op.timestamp
  | .lwwMap map => map.KeepsOp texts op now

def KeepsState (state : CrdtState) : Crdt → Prop
  | .pnCounter c => c.KeepsState texts state
  | .lwwRegister r => r.KeepsState texts state
  | .lwwMap map => map.KeepsState texts state

end Crdt

variable {texts}

namespace PNCounter

variable {c : PNCounter}

/-- Writing the count that a node has changes nothing. -/
theorem setEntry_of_get {side : Side} {node : JsKey} {own : JsPrimitive}
    (h : (c.counts side).get node = some own) : c.setEntry side node own = c := by
  cases side with
  | increments =>
    have hset : c.increments.set node own = c.increments := JsMap.set_of_get h
    rw [setEntry, hset]
  | decrements =>
    have hset : c.decrements.set node own = c.decrements := JsMap.set_of_get h
    rw [setEntry, hset]

/-- An operation that writes nothing to the counter leaves its value. -/
theorem KeepsOp.value {op : CrdtOperation} (h : c.KeepsOp texts op) :
    ((c.apply texts op).getD c).value texts = c.value texts := by
  rw [apply_eq]
  cases hside : sideOf op.op with
  | none => rfl
  | some side =>
    cases hadded : (amount op).toPrimitive texts with
    | none => rfl
    | some added =>
      obtain ⟨own, hget, hsum⟩ := h side hside added hadded
      have hentry : c.entry side op.nodeId.key = own := by rw [entry, hget, Option.getD_some]
      simp only [Option.map_some, Option.getD_some, hentry, hsum, setEntry_of_get hget]
      rfl

/-- Counts that are no larger than the counter's own leave these as they are. -/
theorem mergeCounts_of_keeps {m : JsMap JsKey JsPrimitive} {counts : List (String × JsValue)}
    (h : ∀ e ∈ counts, ∀ count, finiteCount e.2 = some count →
      ∃ own, m.get (.string e.1) = some own ∧ mathMax texts own count = own) :
    mergeCounts texts m counts = m := by
  induction counts with
  | nil => rfl
  | cons e counts ih =>
    have hrest := ih fun e' he' => h e' (List.mem_cons_of_mem _ he')
    rw [mergeCounts, List.foldl_cons]
    cases hcount : finiteCount e.2 with
    | none => exact hrest
    | some count =>
      obtain ⟨own, hget, hmax⟩ := h e List.mem_cons_self count hcount
      simp only [hget, Option.getD_some, hmax, JsMap.set_of_get hget]
      exact hrest

/-- A state that brings no larger count leaves the value. -/
theorem KeepsState.value {state : CrdtState} (h : c.KeepsState texts state) :
    (c.merge texts state).value texts = c.value texts := by
  unfold merge
  cases hrv : readVectorFromMetadata state.metadata with
  | none => rfl
  | some rv =>
    have hside (side : Side) :
        (rv side).elim (c.counts side) (mergeCounts texts (c.counts side)) = c.counts side := by
      cases hcounts : rv side with
      | none => rfl
      | some counts => exact mergeCounts_of_keeps fun e => h rv hrv side counts hcounts e
    have hincrements : (rv .increments).elim c.increments (mergeCounts texts c.increments) =
        c.increments := hside .increments
    have hdecrements : (rv .decrements).elim c.decrements (mergeCounts texts c.decrements) =
        c.decrements := hside .decrements
    simp only [hincrements, hdecrements]
    rfl

end PNCounter

namespace LWWRegister

variable {r : LWWRegister}

/-- A write leaves the value of a register exactly if it is kept out or writes what is there. -/
theorem value_write_iff (value timestamp : JsValue) :
    ((r.write texts value timestamp).getD r).value = r.value ↔ r.KeepsWrite texts value timestamp := by
  unfold write KeepsWrite
  cases timestamp.ge texts r.timestamp with
  | none => exact iff_of_true rfl nofun
  | some newer =>
    cases newer with
    | false => exact iff_of_true rfl nofun
    | true => exact ⟨fun h _ => h, fun h => h rfl⟩

/-- Merging a state leaves the value of a register exactly if the state writes nothing to it. -/
theorem value_merge_iff (state : CrdtState) :
    ((r.merge texts state).getD r).value = r.value ↔ r.KeepsState texts state := by
  unfold merge KeepsState
  split
  · next timestamp nodeId version htimestamp hnodeId hversion =>
    constructor
    · intro hvalue timestamp' nodeId' version' htimestamp' hnodeId' hversion' hnewer
      rw [htimestamp] at htimestamp'
      rw [hnodeId] at hnodeId'
      cases htimestamp'
      cases hnodeId'
      rw [hnewer] at hvalue
      exact hvalue
    · intro hkeeps
      cases hnewer : r.newer texts timestamp nodeId with
      | none => rfl
      | some newer =>
        cases newer with
        | false => rfl
        | true => exact hkeeps timestamp nodeId version htimestamp hnodeId hversion hnewer
  · next hnot =>
    refine iff_of_true rfl fun timestamp nodeId version htimestamp hnodeId hversion => ?_
    exact absurd hversion (hnot timestamp nodeId version htimestamp hnodeId)

end LWWRegister

namespace LWWMap

variable {map : LWWMap} {key : JsKey} {val timestamp : JsValue}

/-- Storing a register under a key changes the value exactly if it shows something else. -/
theorem value_setField_iff (r : LWWRegister) (version : ℕ) :
    LWWMap.value { map with fields := map.fields.set key r, version } = map.value ↔
      r.value.defined = (map.fields.get key).bind (·.value.defined) :=
  JsMap.filterMap_set_iff ..

/-- Writing to a field that exists. -/
theorem value_write_iff {r : LWWRegister} (hget : map.fields.get key = some r)
    (val timestamp : JsValue)
    (version : ℕ) : LWWMap.value (((r.write texts val timestamp).map fun r =>
        { map with fields := map.fields.set key r, version }).getD map) = map.value ↔
      r.KeepsWrite texts val timestamp := by
  rw [← LWWRegister.value_write_iff]
  cases r.write texts val timestamp with
  | none => exact iff_of_true rfl rfl
  | some r' =>
    refine (value_setField_iff r' version).trans ?_
    rw [hget, Option.bind_some, JsValue.defined_inj]
    rfl

/-- `set` leaves the value of a map exactly if it finds the field with that value, or keeps the
field. -/
theorem value_set_iff (map : LWWMap) (key : JsKey) (val timestamp : JsValue) :
    ((map.set texts key val timestamp).getD map).value = map.value ↔
      map.KeepsSet texts key val timestamp := by
  unfold LWWMap.set KeepsSet
  cases hget : map.fields.get key with
  | none =>
    refine (value_setField_iff (.new map.nodeId val timestamp) _).trans ?_
    rw [hget]
    exact JsValue.defined_inj (w := .undefined)
  | some r => exact value_write_iff hget val timestamp _

/-- `delete` leaves the value of a map exactly if it finds nothing that it may remove. -/
theorem value_delete_iff (map : LWWMap) (key : JsKey) (timestamp : JsValue) :
    ((map.delete texts key timestamp).getD map).value = map.value ↔
      map.KeepsDelete texts key timestamp := by
  unfold LWWMap.delete KeepsDelete
  cases hget : map.fields.get key with
  | none => exact iff_of_true rfl nofun
  | some r =>
    refine (value_write_iff hget .undefined timestamp _).trans ⟨fun h r' heq => ?_,
      fun h => h r rfl⟩
    exact Option.some.inj heq ▸ h

/-- An operation leaves the value of a map exactly if it writes nothing to a field. -/
theorem value_apply_iff (op : CrdtOperation) (now : Double) :
    ((map.apply texts op now).getD map).value = map.value ↔ map.KeepsOp texts op now := by
  have hnotBoth : op.op.isString "set" = true → ¬ op.op.isString "remove" = true := by
    intro hset hremove
    rw [JsValue.isString_iff] at hset hremove
    exact absurd (hset.symm.trans hremove) (by simp)
  unfold LWWMap.apply
  split
  · next hset =>
    obtain ⟨hset, hkey⟩ := Bool.and_eq_true_iff.mp hset
    rw [value_set_iff]
    exact ⟨fun h => ⟨fun _ _ => h, fun hremove => absurd hremove (hnotBoth hset)⟩,
      fun h => h.set hset hkey⟩
  · next hset =>
    split
    · next hremove =>
      obtain ⟨hremove, hkey⟩ := Bool.and_eq_true_iff.mp hremove
      rw [value_delete_iff]
      exact ⟨fun h => ⟨fun hset => absurd hremove (hnotBoth hset), fun _ _ => h⟩,
        fun h => h.delete hremove hkey⟩
    · next hremove =>
      rw [Bool.and_eq_true_iff] at hset hremove
      exact iff_of_true rfl ⟨fun hop hkey => absurd ⟨hop, hkey⟩ hset,
        fun hop hkey => absurd ⟨hop, hkey⟩ hremove⟩

/-- Step lemma: setting an entry that writes nothing changes no value, and the other entries still
write nothing. -/
theorem KeepsEntry.set {e e' : String × JsValue} (h : map.KeepsEntry texts timestamp e)
    (h' : map.KeepsEntry texts timestamp e') {map' : LWWMap}
    (hset : map.set texts (.string e.1) e.2 timestamp = some map') :
    map'.KeepsEntry texts timestamp e' := by
  obtain ⟨r, hget, hkeeps⟩ := h
  obtain ⟨r', hget', hkeeps'⟩ := h'
  simp only [LWWMap.set, hget, LWWRegister.write, Option.map_map, Option.map_eq_some_iff] at hset
  obtain ⟨newer, hge, rfl⟩ := hset
  by_cases hkey : e'.1 = e.1
  · rw [hkey, hget] at hget'
    obtain rfl := Option.some.inj hget'
    refine ⟨_, by rw [hkey]; exact JsMap.get_set_self .., ?_⟩
    cases newer with
    | false => exact hkeeps'
    | true =>
      -- both entries have the value that was there before
      exact fun _ => (hkeeps' hge).trans (hkeeps hge).symm
  · have hne : JsKey.string e'.1 ≠ .string e.1 := fun heq => hkey (JsKey.string.inj heq)
    exact ⟨r', by rw [← hget']; exact JsMap.get_set_ne _ hne _, hkeeps'⟩

/-- Run lemma: the loop of a merge changes no value if no entry writes anything. -/
theorem value_mergeEntries {entries : List (String × JsValue)}
    (h : ∀ e ∈ entries, e.1 ∉ Datasole.LWWMap.forbiddenKeys → map.KeepsEntry texts timestamp e) :
    (map.mergeEntries texts timestamp entries).value = map.value := by
  induction entries generalizing map with
  | nil => rfl
  | cons e entries ih =>
    have hrest := fun e' he' => h e' (List.mem_cons_of_mem e he')
    unfold mergeEntries
    split
    · exact ih hrest
    · next hallowed =>
      have hentry := h e List.mem_cons_self hallowed
      cases hset : map.set texts (.string e.1) e.2 timestamp with
      | none => rfl
      | some map' =>
        have hkeeps : map.KeepsSet texts (.string e.1) e.2 timestamp := by
          obtain ⟨r, hget, hkeeps⟩ := hentry
          rw [KeepsSet, hget]
          exact hkeeps
        have hvalue : map'.value = map.value := by
          rw [← (value_set_iff map (.string e.1) e.2 timestamp).mpr hkeeps, hset, Option.getD_some]
        refine (ih fun e' he' hallowed' => ?_).trans hvalue
        exact hentry.set (hrest e' he' hallowed') hset

/-- A state whose entries write nothing to a field leaves the value of the map. -/
theorem KeepsState.value {state : CrdtState} (h : map.KeepsState texts state) :
    (map.merge texts state).value = map.value := by
  unfold LWWMap.merge
  split
  · next timestamp entries htimestamp hentries =>
    split
    · rfl
    · next hlength =>
      exact value_mergeEntries (h timestamp entries htimestamp hentries (not_lt.mp hlength))
  · rfl

end LWWMap

namespace Crdt

variable {crdt : Crdt}

/-- Whatever the type, an operation that writes nothing leaves the value. -/
theorem value_of_keepsOp {op : CrdtOperation} {now : Double} (h : crdt.KeepsOp texts op now) :
    (crdt.apply texts op now).value texts = crdt.value texts := by
  cases crdt with
  | pnCounter c => exact congrArg CrdtValue.total (PNCounter.KeepsOp.value h)
  | lwwRegister r => exact congrArg CrdtValue.held ((LWWRegister.value_write_iff _ _).mpr h)
  | lwwMap map => exact congrArg CrdtValue.record ((LWWMap.value_apply_iff op now).mpr h)

/-- Whatever the type, a state that writes nothing leaves the value. -/
theorem value_of_keepsState {state : CrdtState} (h : crdt.KeepsState texts state) :
    (crdt.merge texts state).value texts = crdt.value texts := by
  cases crdt with
  | pnCounter c => exact congrArg CrdtValue.total (PNCounter.KeepsState.value h)
  | lwwRegister r => exact congrArg CrdtValue.held ((LWWRegister.value_merge_iff state).mpr h)
  | lwwMap map => exact congrArg CrdtValue.record (LWWMap.KeepsState.value h)

end Crdt

/-! ## Where messages arrive -/

/-- The three ways by which a message gets to a CRDT. -/
inductive Receipt where
  | managerApply (m : CrdtManager) (connectionId : String) (op : CrdtOperation) (now : Double)
  | applyRemote (s : CrdtStore) (key : String) (op : CrdtOperation) (now : Double)
  | mergeRemoteState (s : CrdtStore) (key : String) (state : CrdtState)

namespace Receipt

/-- The CRDT that is registered under the key of the message. -/
def registered : Receipt → Option Crdt
  | managerApply m connectionId op _ => m.registry.get (CrdtManager.crdtKey connectionId op).key
  | applyRemote s key _ _ | mergeRemoteState s key _ => s.crdts.get key

variable (texts) in
/-- The one that is registered there afterwards. -/
def after : Receipt → Option Crdt
  | managerApply m connectionId op now =>
    (m.apply texts connectionId op now).registry.get (CrdtManager.crdtKey connectionId op).key
  | applyRemote s key op now => (s.applyRemote texts key op now).crdts.get key
  | mergeRemoteState s key state => (s.mergeRemoteState texts key state).crdts.get key

/-- The type of the message. -/
def type : Receipt → JsValue
  | managerApply _ _ op _ | applyRemote _ _ op _ => op.type
  | mergeRemoteState _ _ state => state.type

/-- The same message with another type. -/
def withType (type : JsValue) : Receipt → Receipt
  | managerApply m connectionId op now => managerApply m connectionId { op with type } now
  | applyRemote s key op now => applyRemote s key { op with type } now
  | mergeRemoteState s key state => mergeRemoteState s key { state with type }

variable (texts) in
/-- The fields of the message that the CRDT reads leave nothing to write. -/
def Keeps (crdt : Crdt) : Receipt → Prop
  | managerApply _ _ op now | applyRemote _ _ op now => crdt.KeepsOp texts op now
  | mergeRemoteState _ _ state => crdt.KeepsState texts state

def isOperation : Receipt → Bool
  | managerApply _ _ _ _ | applyRemote _ _ _ _ => true
  | mergeRemoteState _ _ _ => false

variable (texts) in
/-- What the classes make of the message. -/
def receive (crdt : Crdt) : Receipt → Crdt
  | managerApply _ _ op now | applyRemote _ _ op now => crdt.apply texts op now
  | mergeRemoteState _ _ state => crdt.merge texts state

variable (texts) in
/-- The message changes the value of a CRDT that has another type. -/
def Intrudes (crdt : Crdt) (receipt : Receipt) : Prop :=
  receipt.registered = some crdt ∧ receipt.type ≠ .string crdt.type ∧
    ∃ crdt', receipt.after texts = some crdt' ∧ crdt'.value texts ≠ crdt.value texts

variable {crdt : Crdt}

/-- With a CRDT registered under the key of the message, the store applies the message to it. -/
theorem after_eq {receipt : Receipt} (h : receipt.registered = some crdt) :
    receipt.after texts = some (receipt.receive texts crdt) := by
  cases receipt with
  | managerApply m connectionId op now =>
    change m.registry.get _ = some crdt at h
    simp only [after, receive, CrdtManager.apply, CrdtManager.target, h]
    exact CrdtManager.get_put .. |>.trans (if_pos rfl)
  | applyRemote s key op now =>
    change s.crdts.get key = some crdt at h
    simp only [after, receive, CrdtStore.applyRemote, h, JsMap.get_set_self]
  | mergeRemoteState s key state =>
    change s.crdts.get key = some crdt at h
    simp only [after, receive, CrdtStore.mergeRemoteState, h, JsMap.get_set_self]

/-- The type of a message makes no difference to the CRDT that it reaches. -/
theorem receive_withType (receipt : Receipt) (type : JsValue) :
    (receipt.withType type).receive texts crdt = receipt.receive texts crdt := by
  cases receipt with
  | managerApply | applyRemote => cases crdt <;> rfl
  | mergeRemoteState => cases crdt <;> rfl

/-- The type that a message names has no part in which CRDT is meant. -/
theorem registered_withType (receipt : Receipt) (type : JsValue) :
    (receipt.withType type).registered = receipt.registered := by
  cases receipt <;> rfl

/-- A message that leaves nothing to write leaves the value of the CRDT. -/
theorem value_of_keeps {receipt : Receipt} (h : receipt.Keeps texts crdt) :
    (receipt.receive texts crdt).value texts = crdt.value texts := by
  cases receipt with
  | managerApply | applyRemote => exact Crdt.value_of_keepsOp h
  | mergeRemoteState => exact Crdt.value_of_keepsState h

/-- Conversely, a register whose value stays had nothing to write. -/
theorem keeps_of_value_register {r : LWWRegister} {receipt : Receipt}
    (h : (receipt.receive texts (.lwwRegister r)).value texts = Crdt.value texts (.lwwRegister r)) :
    receipt.Keeps texts (.lwwRegister r) := by
  cases receipt with
  | managerApply m connectionId op now | applyRemote s key op now =>
    exact (LWWRegister.value_write_iff op.value op.timestamp).mp (CrdtValue.held.inj h)
  | mergeRemoteState s key state => exact (LWWRegister.value_merge_iff state).mp (CrdtValue.held.inj h)

/-- Conversely, a map whose value an operation leaves had nothing to write. -/
theorem keeps_of_value_map {map : LWWMap} {receipt : Receipt} (hop : receipt.isOperation = true)
    (h : (receipt.receive texts (.lwwMap map)).value texts = Crdt.value texts (.lwwMap map)) :
    receipt.Keeps texts (.lwwMap map) := by
  cases receipt with
  | managerApply m connectionId op now | applyRemote s key op now =>
    exact (LWWMap.value_apply_iff op now).mp (CrdtValue.record.inj h)
  | mergeRemoteState s key state => cases hop

end Receipt

/-- Whichever way a message gets to a registered CRDT, and in whatever state this is: its type makes
no difference, and the value is unchanged if the fields that the CRDT reads leave nothing to write.
A register, and a map that gets an operation, has an unchanged value only then. -/
theorem value_by_fields (texts : NumberTexts) (receipt : Receipt) (crdt : Crdt)
    (h : receipt.registered = some crdt) : ∃ crdt', receipt.after texts = some crdt' ∧
      (∀ type, (receipt.withType type).after texts = some crdt') ∧
      (receipt.Keeps texts crdt → crdt'.value texts = crdt.value texts) ∧
      (crdt.type = "lww-register" ∨ crdt.type = "lww-map" ∧ receipt.isOperation = true →
        crdt'.value texts = crdt.value texts → receipt.Keeps texts crdt) := by
  refine ⟨receipt.receive texts crdt, Receipt.after_eq h, fun type => ?_, Receipt.value_of_keeps,
    fun hclass hvalue => ?_⟩
  · rw [Receipt.after_eq ((receipt.registered_withType type).trans h), Receipt.receive_withType]
  · cases crdt with
    | pnCounter c =>
      refine hclass.elim (fun htype => ?_) fun htype => ?_
      · exact absurd htype (show "pn-counter" ≠ "lww-register" by decide)
      · exact absurd htype.1 (show "pn-counter" ≠ "lww-map" by decide)
    | lwwRegister r => exact Receipt.keeps_of_value_register hvalue
    | lwwMap map =>
      refine Receipt.keeps_of_value_map (hclass.elim (fun htype => ?_) And.right) hvalue
      exact absurd htype (show "lww-map" ≠ "lww-register" by decide)

/-! ## Messages of another type -/

namespace ForeignMessages

/-- An operation of a register, with a timestamp of 1 and the number 1 for its value. -/
def registerOp (op : String) : CrdtOperation where
  type := .string "lww-register"
  nodeId := .string "c1"
  timestamp := .number (.finite .one)
  op := .string op
  key := .string "hits"
  value := .number (.finite .one)

/-- A manager with a counter under `hits`. -/
def counting : CrdtManager where
  registry := JsMap.empty.set (.string "hits") (.pnCounter (.new "server"))
  maxKeys := 1000

def title : Crdt := .lwwRegister (.new "c2" (.string "old") (.number (.finite .zero)))

def fields : Crdt := .lwwMap (.new "c2")

/-- A client with a register and a map. -/
def store : CrdtStore where
  crdts := (JsMap.empty.set "title" title).set "fields" fields

/-- A state of a register that holds an object. -/
def registerState : CrdtState where
  type := .string "lww-register"
  value := .object 0 [("x", .number (.finite .one))]
  metadata := .object 1 [("timestamp", .number (.finite .one))]

end ForeignMessages

open ForeignMessages in
/-- A counter leaves a `set` alone. -/
theorem counter_keeps_out_set : ∃ crdt', (Receipt.managerApply counting "conn-1" (registerOp "set")
    .zero).after CrdtManager.noTexts = some crdt' ∧
      crdt'.value CrdtManager.noTexts = Crdt.value CrdtManager.noTexts (.pnCounter (.new "server")) := by
  obtain ⟨crdt', hafter, -, hkeeps, -⟩ := value_by_fields CrdtManager.noTexts
    (.managerApply counting "conn-1" (registerOp "set") .zero) (.pnCounter (.new "server")) rfl
  refine ⟨crdt', hafter, hkeeps fun side hside => ?_⟩
  cases hside

open ForeignMessages in
/-- A counter adds the amount of an operation of the type of registers, a register takes the value
of one of the type of counters, and a map the entries of the state of a register. -/
theorem foreign_messages_are_taken :
    Receipt.Intrudes CrdtManager.noTexts (.pnCounter (.new "server"))
        (.managerApply counting "conn-1" (registerOp "increment") .zero) ∧
      Receipt.Intrudes CrdtManager.noTexts title
        (.applyRemote store "title" { registerOp "increment" with type := .string "pn-counter" } .zero) ∧
      Receipt.Intrudes CrdtManager.noTexts fields (.mergeRemoteState store "fields" registerState) := by
  refine ⟨⟨rfl, ?_, _, rfl, ?_⟩, ⟨rfl, ?_, _, rfl, ?_⟩, ⟨rfl, ?_, _, rfl, ?_⟩⟩
  · exact fun h => absurd (JsValue.string.inj h) (by decide)
  · exact fun h => absurd (CrdtValue.total.inj h) (by decide +kernel)
  · exact fun h => absurd (JsValue.string.inj h) (by decide)
  · intro h
    have hvalue : JsValue.number (.finite .one) = .string "old" := CrdtValue.held.inj h
    cases hvalue
  · exact fun h => absurd (JsValue.string.inj h) (by decide)
  · intro h
    have hsize : 1 = 0 := congrArg JsMap.size (CrdtValue.record.inj h)
    cases hsize

end Untrusted

end Datasole
