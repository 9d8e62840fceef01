import Datasole.Common.JsMap
import Datasole.Common.JsValue
import Datasole.Shared.Crdt.PNCounter

/-!
# CRDT operations as they come

`apply` of `shared/crdt/pn-counter.ts`, `lww-register.ts` and `lww-map.ts` on operations whose
fields are any JavaScript values, as a client can send them. Nothing is checked: an amount is added
by `+` and a timestamp is compared by `>=`. A result is `none` where the code throws, which leaves
the CRDT as it was.

`Sound` is what a CRDT of numbers should be, and `Harmless` what an operation has to be for it to
stay so. The two meet exactly (`Crdt.harmless_iff`).
-/

open Binary64

namespace Datasole

open PNCounter (Side)

namespace Untrusted

/-- `CrdtOperation`, with any values for its fields. -/
structure CrdtOperation where
  type : JsValue
  nodeId : JsValue
  timestamp : JsValue
  op : JsValue
  key : JsValue
  value : JsValue

variable (texts : NumberTexts)

/-! ## The counter -/

structure PNCounter where
  nodeId : String
  increments : JsMap JsKey JsPrimitive
  decrements : JsMap JsKey JsPrimitive
  version : ℕ

namespace PNCounter

def zero : JsPrimitive := .number (.finite .zero)

def new (nodeId : String) : PNCounter where
  nodeId := nodeId
  increments := JsMap.empty.set (.string nodeId) zero
  decrements := JsMap.empty.set (.string nodeId) zero
  version := 0

def value (c : PNCounter) : JsPrimitive :=
  c.decrements.values.foldl (JsPrimitive.sub texts) (c.increments.values.foldl (JsPrimitive.add texts) zero)

/-- `(op.value as number) ?? 1`. -/
def amount (op : CrdtOperation) : JsValue :=
  if op.value.isNullish then .number (.finite .one) else op.value

/-- `m.set(op.nodeId, (m.get(op.nodeId) ?? 0) + amount)`. -/
def addTo (m : JsMap JsKey JsPrimitive) (op : CrdtOperation) : Option (JsMap JsKey JsPrimitive) :=
  ((amount op).toPrimitive texts).map fun amount =>
    m.set op.nodeId.key (((m.get op.nodeId.key).getD zero).add texts amount)

def apply (c : PNCounter) (op : CrdtOperation) : Option PNCounter :=
  if op.op.isString "increment" then
    (addTo texts c.increments op).map fun m => { c with increments := m, version := c.version + 1 }
  else if op.op.isString "decrement" then
    (addTo texts c.decrements op).map fun m => { c with decrements := m, version := c.version + 1 }
  else some { c with version := c.version + 1 }

def counts (c : PNCounter) : Side → JsMap JsKey JsPrimitive
  | .increments => c.increments
  | .decrements => c.decrements

/-- What the counter holds for a node; an absent entry is read as zero. -/
def entry (c : PNCounter) (side : Side) (node : JsKey) : JsPrimitive :=
  ((c.counts side).get node).getD zero

end PNCounter

/-! ## The register and the map -/

structure LWWRegister where
  nodeId : String
  value : JsValue
  timestamp : JsValue
  version : ℕ

namespace LWWRegister

def new (nodeId : String) (initialValue timestamp : JsValue) : LWWRegister where
  nodeId := nodeId
  value := initialValue
  timestamp := timestamp
  version := 0

/-- What `set` and `apply` have in common. -/
def write (r : LWWRegister) (value timestamp : JsValue) : Option LWWRegister :=
  (timestamp.ge texts r.timestamp).map fun newer =>
    if newer then { r with value := value, timestamp := timestamp, version := r.version + 1 } else r

def apply (r : LWWRegister) (op : CrdtOperation) : Option LWWRegister :=
  write texts r op.value op.timestamp

end LWWRegister

/-- A timestamp parameter with the default `Date.now()`. -/
def timestampOr (timestamp : JsValue) (now : Double) : JsValue :=
  match timestamp with
  | .undefined => .number (.finite now)
  | timestamp => timestamp

structure LWWMap where
  nodeId : String
  fields : JsMap JsKey LWWRegister
  version : ℕ

namespace LWWMap

def new (nodeId : String) : LWWMap where
  nodeId := nodeId
  fields := JsMap.empty
  version := 0

def set (map : LWWMap) (key : JsKey) (val timestamp : JsValue) : Option LWWMap :=
  match map.fields.get key with
  | none =>
    some { map with
      fields := map.fields.set key (.new map.nodeId val timestamp)
      version := map.version + 1 }
  | some register =>
    (register.write texts val timestamp).map fun register =>
      { map with
        fields := map.fields.set key register
        version := map.version + 1 }

def delete (map : LWWMap) (key : JsKey) (timestamp : JsValue) : Option LWWMap :=
  match map.fields.get key with
  | none => some { map with version := map.version + 1 }
  | some register =>
    (register.write texts .undefined timestamp).map fun register =>
      { map with
        fields := map.fields.set key register
        version := map.version + 1 }

def apply (map : LWWMap) (op : CrdtOperation) (now : Double) : Option LWWMap :=
  if op.op.isString "set" && op.key.truthy then
    map.set texts op.key.key op.value (timestampOr op.timestamp now)
  else if op.op.isString "remove" && op.key.truthy then
    map.delete texts op.key.key (timestampOr op.timestamp now)
  else some map

end LWWMap

inductive Crdt where
  | pnCounter (c : PNCounter)
  | lwwRegister (r : LWWRegister)
  | lwwMap (map : LWWMap)

namespace Crdt

/-- The `switch` of `registerByType`. -/
def ofType (type : JsValue) : Option Crdt :=
  if type.isString "pn-counter" then some (.pnCounter (.new "server"))
  else if type.isString "lww-register" then
    some (.lwwRegister (.new "server" .undefined (.number (.finite .zero))))
  else if type.isString "lww-map" then some (.lwwMap (.new "server"))
  else none

/-- The CRDT after an operation, also after one that throws. -/
def apply (crdt : Crdt) (op : CrdtOperation) (now : Double) : Crdt :=
  match crdt with
  | .pnCounter c => .pnCounter ((c.apply texts op).getD c)
  | .lwwRegister r => .lwwRegister ((r.apply texts op).getD r)
  | .lwwMap map => .lwwMap ((map.apply texts op now).getD map)

end Crdt

/-! ## What keeps a counter sound -/

namespace PNCounter

/-- The vector that an operation adds to. -/
def sideOf (op : JsValue) : Option Side :=
  if op.isString "increment" then some .increments
  else if op.isString "decrement" then some .decrements
  else none

/-- The counter with another entry for a node. -/
def setEntry (c : PNCounter) (side : Side) (node : JsKey) (v : JsPrimitive) : PNCounter :=
  match side with
  | .increments => { c with increments := c.increments.set node v }
  | .decrements => { c with decrements := c.decrements.set node v }

def bumpVersion (c : PNCounter) : PNCounter := { c with version := c.version + 1 }

/-- No partial sum of `value()` overflows. -/
def AddsUp (c : PNCounter) : Prop :=
  Number.AddUp (.finite .zero) (c.increments.values.map JsPrimitive.numberOf ++
    c.decrements.values.map fun v => v.numberOf.neg)

instance (c : PNCounter) : Decidable c.AddsUp := inferInstanceAs (Decidable (Number.AddUp _ _))

/-- The entries and the value are finite numbers. -/
structure Sound (c : PNCounter) : Prop where
  entries : ∀ side node v, (c.counts side).get node = some v → v.IsFinite
  value : (c.value texts).IsFinite

/-- No entry decreases. -/
def Grows (c d : PNCounter) : Prop :=
  ∀ side node, (c.entry side node).units ≤ (d.entry side node).units

/-- The amount can be added: it is a finite number, `true` or `false`; it is not negative, or too
small to make a difference to the entry; and neither the entry nor the sum of all entries overflows.
An operation that adds nothing, or throws, is harmless as well. -/
def Harmless (c : PNCounter) (op : CrdtOperation) : Prop :=
  ∀ side, sideOf op.op = some side → ∀ added, (amount op).toPrimitive texts = some added →
    ∃ x y z : Double, c.entry side op.nodeId.key = .number (.finite x) ∧
      added.addend = some (.finite y) ∧ (Number.finite x).add (.finite y) = .finite z ∧
      (0 ≤ y.units ∨ z.units = x.units) ∧
      (c.setEntry side op.nodeId.key (.number (.finite z))).AddsUp

variable {texts} {c d : PNCounter} {side : Side} {node : JsKey} {v : JsPrimitive} {op : CrdtOperation}

theorem Grows.refl (c : PNCounter) : c.Grows c := fun _ _ => le_rfl

@[simp] theorem counts_bumpVersion :
    c.bumpVersion.counts side = c.counts side := by cases side <;> rfl

theorem counts_setEntry_self :
    (c.setEntry side node v).counts side = (c.counts side).set node v := by
  cases side <;> rfl

theorem counts_setEntry_of_ne {side' : Side} (h : side' ≠ side) :
    (c.setEntry side node v).counts side' = c.counts side' := by
  cases side <;> cases side' <;> first | rfl | exact absurd rfl h

/-- An operation adds to one entry, or to none. -/
theorem apply_eq (c : PNCounter) (op : CrdtOperation) : c.apply texts op =
    match sideOf op.op with
    | none => some c.bumpVersion
    | some side => ((amount op).toPrimitive texts).map fun added =>
        (c.setEntry side op.nodeId.key ((c.entry side op.nodeId.key).add texts added)).bumpVersion := by
  unfold apply sideOf
  split
  · rw [addTo, Option.map_map]
    rfl
  · split
    · rw [addTo, Option.map_map]
      rfl
    · rfl

/-- The version is not one of the numbers that have to be finite. -/
theorem sound_bumpVersion : c.bumpVersion.Sound texts ↔ c.Sound texts := by
  refine ⟨fun h => ⟨fun side node v hv => h.entries side node v ?_, h.value⟩,
    fun h => ⟨fun side node v hv => h.entries side node v ?_, h.value⟩⟩
  · rwa [counts_bumpVersion]
  · rwa [counts_bumpVersion] at hv

/-- The entries of a sound counter are finite. -/
theorem isFinite_entry (h : c.Sound texts) (side : Side) (node : JsKey) :
    (c.entry side node).IsFinite := by
  unfold entry
  cases hv : (c.counts side).get node with
  | none => trivial
  | some v => exact h.entries side node v hv

theorem counts_new (nodeId : String) (side : Side) :
    (new nodeId).counts side = JsMap.empty.set (.string nodeId) zero := by
  cases side <;> rfl

theorem entry_new (nodeId : String) (side : Side) (node : JsKey) :
    (new nodeId).entry side node = zero := by
  rw [entry, counts_new, JsMap.get_set]
  split <;> rfl

/-- Among numbers the value is a number, and finite if no sum on the way overflows. -/
theorem isFinite_value_iff (h : ∀ side node v, (c.counts side).get node = some v → v.IsFinite) :
    (c.value texts).IsFinite ↔ c.AddsUp := by
  have hvalues (side : Side) : ∀ v ∈ (c.counts side).values, v.IsFinite := by
    intro v hv
    obtain ⟨⟨node, v⟩, hmem, rfl⟩ := List.mem_map.mp hv
    exact h side node v (JsMap.mem_entries.mp hmem)
  have hvalue : c.value texts = .number (List.foldl Number.add (.finite .zero)
      (c.increments.values.map JsPrimitive.numberOf ++
        c.decrements.values.map fun v => v.numberOf.neg)) := by
    have hincrements : ∀ v ∈ c.increments.values, v.IsFinite := hvalues .increments
    have hdecrements : ∀ v ∈ c.decrements.values, v.IsFinite := hvalues .decrements
    rw [value, zero, JsPrimitive.foldl_add hincrements, JsPrimitive.foldl_sub hdecrements,
      List.foldl_append]
  rw [hvalue]
  exact Number.isFinite_foldl_iff trivial

/-- One entry is changed. -/
theorem entry_setEntry (side' : Side) (node' : JsKey) :
    (c.setEntry side node v).entry side' node' =
      if side' = side ∧ node' = node then v else c.entry side' node' := by
  unfold entry
  by_cases hside : side' = side
  · subst hside
    rw [counts_setEntry_self, JsMap.get_set]
    by_cases hnode : node' = node <;> simp [hnode]
  · rw [counts_setEntry_of_ne hside, if_neg fun h => hside h.1]

/-- No entry decreases if the one that is changed does not. -/
theorem grows_setEntry_iff : c.Grows (c.setEntry side node v).bumpVersion ↔
    (c.entry side node).units ≤ v.units := by
  have hentry (side' : Side) (node' : JsKey) : (c.setEntry side node v).bumpVersion.entry side' node' =
      if side' = side ∧ node' = node then v else c.entry side' node' := by
    rw [← entry_setEntry, entry, counts_bumpVersion, entry]
  refine ⟨fun h => ?_, fun h side' node' => ?_⟩
  · have hle := h side node
    rwa [hentry, if_pos ⟨rfl, rfl⟩] at hle
  · rw [hentry]
    split
    · next heq => rwa [heq.1, heq.2]
    · exact le_rfl

/-- A sound counter stays sound if the new entry is finite and nothing overflows. -/
theorem sound_setEntry_iff (h : c.Sound texts) : (c.setEntry side node v).Sound texts ↔
    v.IsFinite ∧ (c.setEntry side node v).AddsUp := by
  have hget (hv : v.IsFinite) (side' : Side) (node' : JsKey) (w : JsPrimitive)
      (hw : ((c.setEntry side node v).counts side').get node' = some w) : w.IsFinite := by
    by_cases hside : side' = side
    · subst hside
      rw [counts_setEntry_self, JsMap.get_set] at hw
      split at hw
      · exact Option.some.inj hw ▸ hv
      · exact h.entries side' node' w hw
    · rw [counts_setEntry_of_ne hside] at hw
      exact h.entries side' node' w hw
  refine ⟨fun hsound => ?_,
    fun hadd => ⟨hget hadd.1, (isFinite_value_iff (hget hadd.1)).mpr hadd.2⟩⟩
  have hv : v.IsFinite :=
    hsound.entries side node v (by rw [counts_setEntry_self, JsMap.get_set_self])
  exact ⟨hv, (isFinite_value_iff (hget hv)).mp hsound.value⟩

/-- A new counter is sound. -/
theorem sound_new (nodeId : String) : (new nodeId).Sound texts := by
  have hentries (side : Side) (node : JsKey) (v : JsPrimitive)
      (hv : ((new nodeId).counts side).get node = some v) : v.IsFinite := by
    rw [counts_new, JsMap.get_set] at hv
    split at hv
    · exact Option.some.inj hv ▸ trivial
    · cases hv
  refine ⟨hentries, (isFinite_value_iff hentries).mpr ?_⟩
  -- the only sums are of zeros
  have hsum : (Number.finite .zero).add (.finite .zero) = .finite .zero := Number.zero_add_zero
  have hsub : (Number.finite .zero).add (Number.finite .zero).neg = .finite .zero :=
    Number.zero_add_zero
  change Number.AddUp (.finite .zero) [.finite .zero, (Number.finite .zero).neg]
  rw [Number.AddUp, hsum, Number.AddUp, hsub]
  exact ⟨trivial, trivial, trivial⟩

/-- An operation keeps a sound counter sound and its entries from decreasing exactly if it is
harmless. -/
theorem harmless_iff (h : c.Sound texts) (op : CrdtOperation) : c.Harmless texts op ↔
    ((c.apply texts op).getD c).Sound texts ∧ c.Grows ((c.apply texts op).getD c) := by
  rw [apply_eq]
  cases hside : sideOf op.op with
  | none =>
    refine ⟨fun _ => ⟨sound_bumpVersion.mpr h, fun side node => ?_⟩, fun _ side hsome => ?_⟩
    · exact le_of_eq (by simp only [Option.getD_some, entry, counts_bumpVersion])
    · cases hside.symm.trans hsome
  | some side =>
    cases hadded : (amount op).toPrimitive texts with
    | none =>
      refine ⟨fun _ => ⟨h, Grows.refl c⟩, fun _ side' hsome added hsome' => ?_⟩
      cases hadded.symm.trans hsome'
    | some added =>
      obtain ⟨x, hx⟩ := JsPrimitive.isFinite_iff.mp (isFinite_entry h side op.nodeId.key)
      simp only [Option.map_some, Option.getD_some]
      rw [sound_bumpVersion, sound_setEntry_iff h, grows_setEntry_iff, hx]
      constructor
      · intro hharmless
        obtain ⟨x', y, z, hx', hy, hz, hgrows, hadds⟩ := hharmless side hside added hadded
        cases hx.symm.trans hx'
        rw [JsPrimitive.number_add_of_addend hy, hz]
        refine ⟨⟨trivial, hadds⟩, ?_⟩
        rcases hgrows with hnonneg | hsame
        · exact Number.le_add hz hnonneg
        · exact hsame.ge
      · rintro ⟨⟨hfinite, hadds⟩, hgrows⟩ side' hside' added' hadded'
        cases hside.symm.trans hside'
        cases hadded.symm.trans hadded'
        obtain ⟨m, hm, hsum⟩ := JsPrimitive.addend_of_isFinite hfinite
        rw [JsPrimitive.number_add_of_addend hm] at hadds hgrows
        obtain ⟨z, hz⟩ := Number.isFinite_iff.mp hsum
        obtain ⟨y, rfl⟩ : ∃ y, m = .finite y := by
          refine Number.isFinite_iff.mp (by_contra fun hnot => ?_)
          exact Number.not_isFinite_add (.inr hnot) hsum
        rw [hz] at hadds hgrows
        refine ⟨x, y, z, hx, hm, hz, ?_, hadds⟩
        rcases le_total 0 y.units with hy | hy
        · exact .inl hy
        · exact .inr (le_antisymm (Number.add_le hz hy) hgrows)

end PNCounter

/-! ## What keeps a timestamp a number -/

namespace LWWRegister

def Sound (r : LWWRegister) : Prop := r.timestamp.IsFinite

/-- The timestamp, if it passes for one that is not older than the register's, is a finite
number. -/
def Harmless (r : LWWRegister) (timestamp : JsValue) : Prop :=
  timestamp.ge texts r.timestamp = some true → timestamp.IsFinite

variable {texts} {r : LWWRegister}

/-- A register stays sound exactly if the timestamp is harmless. -/
theorem harmless_iff (h : r.Sound) (value timestamp : JsValue) :
    r.Harmless texts timestamp ↔ ((r.write texts value timestamp).getD r).Sound := by
  unfold Harmless write
  cases timestamp.ge texts r.timestamp with
  | none => exact ⟨fun _ => h, fun _ => nofun⟩
  | some newer =>
    cases newer with
    | false => exact ⟨fun _ => h, fun _ => nofun⟩
    | true => exact ⟨fun hharmless => hharmless rfl, fun hsound _ => hsound⟩

end LWWRegister

namespace LWWMap

def Sound (map : LWWMap) : Prop := ∀ key r, map.fields.get key = some r → r.Sound

/-- A new field takes the timestamp as it is; another one compares it. -/
def HarmlessSet (map : LWWMap) (key : JsKey) (timestamp : JsValue) : Prop :=
  match map.fields.get key with
  | none => timestamp.IsFinite
  | some r => r.Harmless texts timestamp

def HarmlessDelete (map : LWWMap) (key : JsKey) (timestamp : JsValue) : Prop :=
  ∀ r, map.fields.get key = some r → r.Harmless texts timestamp

structure Harmless (map : LWWMap) (op : CrdtOperation) (now : Double) : Prop where
  set : op.op.isString "set" = true → op.key.truthy = true →
    map.HarmlessSet texts op.key.key (timestampOr op.timestamp now)
  delete : op.op.isString "remove" = true → op.key.truthy = true →
    map.HarmlessDelete texts op.key.key (timestampOr op.timestamp now)

variable {texts} {map : LWWMap} {key : JsKey} {r : LWWRegister}

/-- A sound map stays sound exactly if the new field is. -/
theorem sound_setField_iff (h : map.Sound) (version : ℕ) :
    Sound { map with fields := map.fields.set key r, version } ↔ r.Sound := by
  refine ⟨fun hsound => hsound key r (JsMap.get_set_self ..), fun hr key' r' hget => ?_⟩
  rw [JsMap.get_set] at hget
  split at hget
  · exact Option.some.inj hget ▸ hr
  · exact h key' r' hget

/-- Writing a field that exists. -/
theorem sound_write_iff (h : map.Sound) (hget : map.fields.get key = some r)
    (value timestamp : JsValue)
    (version : ℕ) : (((r.write texts value timestamp).map fun r =>
        { map with fields := map.fields.set key r, version }).getD map).Sound ↔
      r.Harmless texts timestamp := by
  rw [LWWRegister.harmless_iff (h key r hget) value]
  cases r.write texts value timestamp with
  | none => exact ⟨fun _ => h key r hget, fun _ => h⟩
  | some r' => exact sound_setField_iff h version

/-- A `set` leaves a sound map sound exactly if its timestamp is harmless. -/
theorem harmlessSet_iff (h : map.Sound) (val timestamp : JsValue) :
    map.HarmlessSet texts key timestamp ↔ ((map.set texts key val timestamp).getD map).Sound := by
  unfold HarmlessSet set
  cases hget : map.fields.get key with
  | none => exact (sound_setField_iff (r := .new map.nodeId val timestamp) h _).symm
  | some r => exact (sound_write_iff h hget _ _ _).symm

/-- So it is with `delete`. -/
theorem harmlessDelete_iff (h : map.Sound) (timestamp : JsValue) :
    map.HarmlessDelete texts key timestamp ↔ ((map.delete texts key timestamp).getD map).Sound := by
  unfold HarmlessDelete delete
  cases hget : map.fields.get key with
  | none => exact ⟨fun _ => h, fun _ => nofun⟩
  | some r =>
    refine Iff.trans ⟨fun hr => hr r rfl, fun hr r' heq => ?_⟩ (sound_write_iff h hget _ _ _).symm
    exact Option.some.inj heq ▸ hr

/-- And with an operation, which is one of the two or nothing. -/
theorem harmless_iff (h : map.Sound) (op : CrdtOperation) (now : Double) :
    map.Harmless texts op now ↔ ((map.apply texts op now).getD map).Sound := by
  have hnotBoth : op.op.isString "set" = true → ¬ op.op.isString "remove" = true := by
    intro hset hremove
    rw [JsValue.isString_iff] at hset hremove
    exact absurd (hset.symm.trans hremove) (by simp)
  unfold apply
  split
  · next hset =>
    obtain ⟨hset, hkey⟩ := Bool.and_eq_true_iff.mp hset
    rw [← harmlessSet_iff h]
    exact ⟨fun hharmless => hharmless.set hset hkey,
      fun hharmless => ⟨fun _ _ => hharmless, fun hremove => absurd hremove (hnotBoth hset)⟩⟩
  · next hset =>
    split
    · next hremove =>
      obtain ⟨hremove, hkey⟩ := Bool.and_eq_true_iff.mp hremove
      rw [← harmlessDelete_iff h]
      exact ⟨fun hharmless => hharmless.delete hremove hkey,
        fun hharmless => ⟨fun hset => absurd hremove (hnotBoth hset), fun _ _ => hharmless⟩⟩
    · next hremove =>
      rw [Bool.and_eq_true_iff] at hset hremove
      exact ⟨fun _ => h, fun _ => ⟨fun hop hkey => absurd ⟨hop, hkey⟩ hset,
        fun hop hkey => absurd ⟨hop, hkey⟩ hremove⟩⟩

end LWWMap

namespace Crdt

/-- What a counter holds for a node; other CRDTs hold nothing. -/
def entry : Crdt → Side → JsKey → JsPrimitive
  | .pnCounter c => c.entry
  | .lwwRegister _ | .lwwMap _ => fun _ _ => PNCounter.zero

def Sound : Crdt → Prop
  | .pnCounter c => c.Sound texts
  | .lwwRegister r => r.Sound
  | .lwwMap map => map.Sound

def Grows (crdt crdt' : Crdt) : Prop :=
  ∀ side node, (crdt.entry side node).units ≤ (crdt'.entry side node).units

def Harmless (op : CrdtOperation) (now : Double) : Crdt → Prop
  | .pnCounter c => c.Harmless texts op
  | .lwwRegister r => r.Harmless texts op.timestamp
  | .lwwMap map => map.Harmless texts op now

variable {texts}

/-- An operation keeps a sound CRDT sound, and its entries from decreasing, exactly if it is
harmless. -/
theorem harmless_iff {crdt : Crdt} (h : crdt.Sound texts) (op : CrdtOperation) (now : Double) :
    crdt.Harmless texts op now ↔
      (crdt.apply texts op now).Sound texts ∧ crdt.Grows (crdt.apply texts op now) := by
  cases crdt with
  | pnCounter c => exact PNCounter.harmless_iff h op
  | lwwRegister r =>
    have hgrows : Crdt.Grows (.lwwRegister r) (.lwwRegister ((r.apply texts op).getD r)) :=
      fun _ _ => le_rfl
    exact (LWWRegister.harmless_iff h op.value op.timestamp).trans (and_iff_left hgrows).symm
  | lwwMap map =>
    have hgrows : Crdt.Grows (.lwwMap map) (.lwwMap ((map.apply texts op now).getD map)) :=
      fun _ _ => le_rfl
    exact (LWWMap.harmless_iff h op now).trans (and_iff_left hgrows).symm

/-- What the server registers for a type is sound, with no entry but zero. -/
theorem sound_ofType {type : JsValue} {crdt : Crdt} (h : ofType type = some crdt) :
    crdt.Sound texts ∧ ∀ side node, crdt.entry side node = PNCounter.zero := by
  unfold ofType at h
  split at h
  · cases h
    exact ⟨PNCounter.sound_new _, PNCounter.entry_new _⟩
  · split at h
    · cases h
      exact ⟨trivial, fun _ _ => rfl⟩
    · split at h
      · cases h
        exact ⟨nofun, fun _ _ => rfl⟩
      · cases h

end Crdt

end Untrusted

end Datasole
