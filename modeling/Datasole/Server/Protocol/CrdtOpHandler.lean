import Datasole.Server.Crdt.CrdtManager

/-!
# The handler of CRDT_OP frames

The handler of `server/protocol/protocol-adapter.ts` passes `{ ...payload.op, key: payload.key }` to
the manager, so the key of the CRDT replaces the sub-key that an operation on a map carries. Every
operation on a map registered under `K` then writes the field `K`, or no field at all if `K` is
empty.

The server here runs on a `MemoryBackend`, which delivers a published operation back to the manager
before the handler returns. For a map that second application changes nothing.
-/

namespace Datasole

/-- A CRDT_OP frame after decoding. -/
structure CrdtOpFrame (V : Type*) where
  connectionId : String
  key : String
  op : CrdtOperation V
  now : Timestamp

variable {V : Type*} [Zero V] [One V] [Add V] [Sub V]

/-- The operation that the handler passes on: the payload's key replaces the operation's. -/
def CrdtOpFrame.passedOn (frame : CrdtOpFrame V) : CrdtOperation V :=
  { frame.op with key := some frame.key }

/-- `apply` of a manager on a `MemoryBackend`: its subscriptions see the operation at once. -/
def CrdtManager.applyOnMemory (m : CrdtManager V) (connectionId : String) (op : CrdtOperation V)
    (now : Timestamp) : CrdtManager V × Option (Applied V) :=
  match m.apply connectionId op now with
  | (m, none) => (m, none)
  | (m, some applied) => (m.deliver applied.key applied.published, some applied)

/-- The CRDT_OP handler: the manager after it, and the state it broadcasts. -/
def handleCrdtOp (m : CrdtManager V) (frame : CrdtOpFrame V) :
    CrdtManager V × Option (String × AnyState V) :=
  let (m, applied) := m.applyOnMemory frame.connectionId frame.passedOn frame.now
  (m, applied.map fun a => (a.key, a.state))

def handleCrdtOps (m : CrdtManager V) (frames : List (CrdtOpFrame V)) : CrdtManager V :=
  frames.foldl (fun m frame => (handleCrdtOp m frame).1) m

/-- The value of the map registered under a key; empty while none is. -/
def CrdtManager.mapValue (m : CrdtManager V) (key : String) : JsMap String V :=
  match m.registry.get key with
  | some (.lwwMap map) => map.value
  | _ => JsMap.empty

/-- The frame carries an operation of `LWWMap.set` or `LWWMap.delete` for a key. -/
structure CrdtOpFrame.IsMapFrame (frame : CrdtOpFrame V) (key : String) : Prop where
  key : frame.key = key
  type : frame.op.type = .lwwMap
  op : IsMapOp frame.op

/-! ## Writes of a map, wherever they come from -/

/-- The same write of another key. -/
def MapWrite.rename (w : MapWrite V) (key : String) : MapWrite V := { w with key := key }

namespace LWWMap

open MapWrite

variable {V : Type*}

/-- What a write leaves depends on what was held only. -/
theorem held_write_congr {map map' : LWWMap V} (h : ∀ f, map.held f = map'.held f) (w : MapWrite V)
    (f : String) : (map.write w).held f = (map'.write w).held f := by
  by_cases hf : f = w.key
  · rw [hf, held_write_self, held_write_self, h]
  · rw [held_write_ne _ _ hf, held_write_ne _ _ hf, h]

/-- A write repeated at once changes nothing. -/
theorem held_write_write (map : LWWMap V) (w : MapWrite V) (f : String) :
    ((map.write w).write w).held f = (map.write w).held f := by
  by_cases hf : f = w.key
  · rw [hf, held_write_self, held_write_self]
    cases map.held w.key with
    | none => by_cases hw : w.isDelete <;> simp [hw, Newest.put_self]
    | some c => exact congrArg some (Newest.put_put c _)
  · rw [held_write_ne _ _ hf]

/-- An operation applied twice in a row leaves what one application leaves. -/
theorem held_apply_apply (map : LWWMap V) (op : CrdtOperation V) (f : String) :
    ((map.apply op).apply op).held f = (map.apply op).held f := by
  rw [apply_eq_write, apply_eq_write]
  cases ofOp op with
  | none => rfl
  | some w => exact held_write_write map w f

/-- Maps that hold the same hold the same after an operation. -/
theorem held_apply_congr {map map' : LWWMap V} (h : ∀ f, map.held f = map'.held f)
    (op : CrdtOperation V) (f : String) : (map.apply op).held f = (map'.apply op).held f := by
  rw [apply_eq_write, apply_eq_write]
  cases ofOp op with
  | none => exact h f
  | some w => exact held_write_congr h w f

/-- Which write is kept does not depend on the key. -/
theorem kept_rename (key : String) (ws : List (MapWrite V)) :
    kept (ws.map (rename · key)) = (kept ws).map (rename · key) := by
  have hput : ∀ c w : MapWrite V, Newest.put timestamp (c.rename key) (w.rename key) =
      (Newest.put timestamp c w).rename key := by
    intro c w
    exact (apply_ite (rename · key) (c.timestamp ≤ w.timestamp) w c).symm
  induction ws using List.reverseRecOn with
  | nil => rfl
  | append_singleton ws w ih =>
    have hdel : (w.rename key).isDelete = w.isDelete := rfl
    rw [List.map_append, List.map_singleton, kept_concat, ih, kept_concat, hdel]
    cases kept ws with
    | none => cases w.isDelete <;> rfl
    | some c => exact congrArg some (hput c w)

/-- Writes of one key read the same whatever the key is. -/
theorem reading_rename (key : String) (ws : List (MapWrite V)) :
    reading (ws.map (rename · key)) = reading ws := by
  rw [reading, kept_rename, reading]
  cases kept ws <;> rfl

end LWWMap

/-! ## What the handler leaves in the map -/

section Handler

open MapWrite

variable {m : CrdtManager V} {key : String}

/-- The server's map holds what a map with these operations applied directly would hold. -/
def Mirrors (m : CrdtManager V) (key : String) (ops : List (CrdtOperation V)) : Prop :=
  ∃ map, m.Holds key (.lwwMap map) ∧
    ∀ f, map.held f = ((LWWMap.new "server").applyAll ops).held f

/-- What the handler leaves when the manager accepts the operation. -/
theorem handleCrdtOp_eq {frame : CrdtOpFrame V} {applied : Applied V}
    (h : (m.apply frame.connectionId frame.passedOn frame.now).2 = some applied) :
    (handleCrdtOp m frame).1 = (m.apply frame.connectionId frame.passedOn frame.now).1.deliver
      applied.key applied.published := by
  rw [handleCrdtOp, CrdtManager.applyOnMemory]
  generalize m.apply frame.connectionId frame.passedOn frame.now = result at h ⊢
  obtain ⟨m', result⟩ := result
  obtain rfl : result = some applied := h
  rfl

/-- A further frame is applied to the registered map, twice. -/
theorem Mirrors.handleCrdtOp {ops : List (CrdtOperation V)} (h : Mirrors m key ops)
    {frame : CrdtOpFrame V} (hkey : frame.key = key) :
    Mirrors (handleCrdtOp m frame).1 key (ops ++ [frame.passedOn]) := by
  obtain ⟨map, hmap, hheld⟩ := h
  have hpassed : frame.passedOn.key.getD frame.connectionId = key := hkey
  rw [handleCrdtOp_eq (congrArg Prod.snd (hmap.apply_eq hpassed frame.now))]
  -- the call applies the operation, and its delivery applies it again
  refine ⟨_, (hmap.apply hpassed frame.now).deliver frame.passedOn, fun f => ?_⟩
  rw [LWWMap.held_apply_apply, LWWMap.applyAll, List.foldl_append, ← LWWMap.applyAll]
  exact LWWMap.held_apply_congr hheld frame.passedOn f

/-- The first frame of a key registers a map under it. -/
theorem mirrors_first {frame : CrdtOpFrame V} (hframe : frame.IsMapFrame key)
    (hnew : m.registry.get key = none) (hroom : m.registry.size < m.maxKeys)
    (hsub : key ∉ m.subscribed) : Mirrors (handleCrdtOp m frame).1 key [frame.passedOn] := by
  have hpassed : frame.passedOn.key.getD frame.connectionId = key := hframe.key
  have htype : Crdt.ofType frame.passedOn.type = some (.lwwMap (LWWMap.new "server") : Crdt V) := by
    rw [show frame.passedOn.type = .lwwMap from hframe.type]
    rfl
  obtain ⟨happly, hresult⟩ := CrdtManager.apply_new hpassed hnew hroom htype hsub frame.now
  rw [handleCrdtOp_eq hresult]
  exact ⟨_, happly.deliver frame.passedOn, fun f => LWWMap.held_apply_apply _ _ f⟩

/-- After the frames the server holds what their operations do to a map of its own. -/
theorem mirrors_handleCrdtOps {frames : List (CrdtOpFrame V)} (hne : frames ≠ [])
    (hframes : ∀ frame ∈ frames, frame.IsMapFrame key)
    (hnew : m.registry.get key = none) (hroom : m.registry.size < m.maxKeys)
    (hsub : key ∉ m.subscribed) :
    Mirrors (handleCrdtOps m frames) key (frames.map CrdtOpFrame.passedOn) := by
  induction frames using List.reverseRecOn with
  | nil => exact absurd rfl hne
  | append_singleton frames frame ih =>
    have hframe := hframes frame (by simp)
    rw [handleCrdtOps, List.foldl_append, List.map_append]
    by_cases hnil : frames = []
    · subst hnil
      exact mirrors_first hframe hnew hroom hsub
    · exact (ih hnil fun fr hfr => hframes fr (List.mem_append_left _ hfr)).handleCrdtOp hframe.key

/-- A field of the registered map reads as it would in a map with the passed-on operations. -/
theorem get_mapValue {frames : List (CrdtOpFrame V)}
    (hframes : ∀ frame ∈ frames, frame.IsMapFrame key)
    (hnew : m.registry.get key = none) (hroom : m.registry.size < m.maxKeys)
    (hsub : key ∉ m.subscribed) (f : String) :
    ((handleCrdtOps m frames).mapValue key).get f =
      reading (onKey ((frames.map CrdtOpFrame.passedOn).filterMap ofOp) f) := by
  rw [← LWWMap.get_writeAll "server", ← LWWMap.applyAll_eq_writeAll, LWWMap.get_eq_held]
  by_cases hne : frames = []
  · subst hne
    rw [CrdtManager.mapValue, show handleCrdtOps m [] = m from rfl, hnew]
    rfl
  · obtain ⟨map, hmap, hheld⟩ := mirrors_handleCrdtOps hne hframes hnew hroom hsub
    rw [CrdtManager.mapValue, hmap.registered]
    change map.value.get f = _
    rw [LWWMap.get_value, LWWMap.get_eq_held, hheld]

/-- The writes of the operations as they were made, with their own sub-keys. -/
def localWrites (frames : List (CrdtOpFrame V)) : List (MapWrite V) :=
  (frames.map CrdtOpFrame.op).filterMap ofOp

omit [Zero V] [One V] [Add V] [Sub V] in
/-- Under an empty key nothing is written; under another key every write goes to the field of that
name. -/
theorem writes_passedOn {frames : List (CrdtOpFrame V)}
    (hframes : ∀ frame ∈ frames, frame.IsMapFrame key) :
    (frames.map CrdtOpFrame.passedOn).filterMap ofOp =
      if key = "" then [] else (localWrites frames).map (rename · key) := by
  unfold localWrites
  induction frames with
  | nil => simp
  | cons frame frames ih =>
    obtain ⟨hkey, -, hkind, f, hfield, hf⟩ := hframes frame List.mem_cons_self
    have htail := ih fun fr hfr => hframes fr (List.mem_cons_of_mem _ hfr)
    rw [List.map_cons, List.filterMap_cons, htail, List.map_cons, List.filterMap_cons]
    rcases hkind with hkind | hkind <;> by_cases hempty : key = "" <;>
      simp [ofOp, CrdtOpFrame.passedOn, rename, hkind, hkey, hfield, hf, hempty]

omit [Zero V] [One V] [Add V] [Sub V] in
/-- All renamed writes are under the frame's key. -/
theorem onKey_rename (key f : String) (ws : List (MapWrite V)) :
    onKey (ws.map (rename · key)) f =
      if f = key then ws.map (rename · key) else [] := by
  unfold onKey
  by_cases h : f = key
  · subst h
    rw [if_pos rfl, List.filter_eq_self]
    simp [rename]
  · rw [if_neg h, List.filter_eq_nil_iff]
    simp [rename, Ne.symm h]

/-- The field that the server writes is the only one with a value, and the newest write of all
leaves it what its own newest write would. Newest means from the first `set` on. Under an empty key
the server writes no field. -/
def OnlyOwnField (key : String) (ws : List (MapWrite V)) : Prop :=
  if key = "" then ∀ f, reading (onKey ws f) = none
  else (∀ f, f ≠ key → reading (onKey ws f) = none) ∧ reading (onKey ws key) = reading ws

/-- The map that the handler fills has the value of a map to which the same operations were applied
directly exactly when they leave a value in no field but the one named like the CRDT itself. -/
theorem handler_value_eq_iff (m : CrdtManager V) (key nodeId : String)
    (frames : List (CrdtOpFrame V))
    (hframes : ∀ frame ∈ frames, frame.IsMapFrame key)
    (hnew : m.registry.get key = none) (hroom : m.registry.size < m.maxKeys)
    (hsub : key ∉ m.subscribed) :
    ((handleCrdtOps m frames).mapValue key).SameEntries
        ((LWWMap.new nodeId).applyAll (frames.map CrdtOpFrame.op)).value ↔
      OnlyOwnField key (localWrites frames) := by
  have hlocal : ∀ f, ((LWWMap.new nodeId).applyAll (frames.map CrdtOpFrame.op)).value.get f =
      reading (onKey (localWrites frames) f) :=
    LWWMap.get_value_applyAll nodeId (frames.map CrdtOpFrame.op)
  simp only [JsMap.SameEntries, get_mapValue hframes hnew hroom hsub, writes_passedOn hframes,
    hlocal]
  unfold OnlyOwnField
  by_cases hempty : key = ""
  · simp only [if_pos hempty]
    exact forall_congr' fun f => eq_comm
  · simp only [if_neg hempty, onKey_rename]
    have hself : reading ((localWrites frames).map (rename · key)) =
        reading (localWrites frames) := LWWMap.reading_rename key _
    constructor
    · intro h
      refine ⟨fun f hf => ?_, ?_⟩
      · have hfield := h f
        rw [if_neg hf] at hfield
        exact hfield.symm
      · have hfield := h key
        rw [if_pos rfl, hself] at hfield
        exact hfield.symm
    · rintro ⟨hother, hown⟩ f
      by_cases hf : f = key
      · rw [if_pos hf, hself, hf, hown]
      · rw [if_neg hf, hother f hf]
        rfl

/-- A frame that writes a field of the map `settings`. -/
def settingsFrame (field : String) (val : ℤ) (timestamp : Timestamp) : CrdtOpFrame ℤ where
  connectionId := "conn"
  key := "settings"
  op := ((LWWMap.new "c1").set field (some val) timestamp).2
  now := 0

/-- The field is named like the map, so nothing is lost. -/
theorem settings_in_settings :
    ((handleCrdtOps (CrdtManager.new 1000)
        [settingsFrame "settings" 1 1, settingsFrame "settings" 2 2]).mapValue
          "settings").SameEntries
      ((LWWMap.new "c1").applyAll
        ([settingsFrame "settings" 1 1, settingsFrame "settings" 2 2].map CrdtOpFrame.op)).value := by
  refine (handler_value_eq_iff (CrdtManager.new 1000) "settings" "c1"
    [settingsFrame "settings" 1 1, settingsFrame "settings" 2 2] ?_ (by decide) (by decide)
    (by decide)).mpr ?_
  · intro frame hframe
    rcases List.mem_pair.mp hframe with rfl | rfl <;>
      exact ⟨rfl, rfl, Or.inl rfl, "settings", rfl, by decide⟩
  · have hother : ∀ f, f ≠ "settings" → onKey (localWrites
        [settingsFrame "settings" 1 1, settingsFrame "settings" 2 2]) f = [] := by
      intro f hf
      simp [onKey, localWrites, settingsFrame, LWWMap.set, ofOp, Ne.symm hf]
    exact ⟨fun f hf => by rw [hother f hf]; rfl, by decide⟩

/-- The server stores the value of the field `theme` in a field `settings`. -/
theorem theme_stored_as_settings :
    (settingsFrame "theme" 1 1).IsMapFrame "settings" ∧
      ((handleCrdtOps (CrdtManager.new 1000) [settingsFrame "theme" 1 1]).mapValue "settings").get
        "theme" = none ∧
      ((handleCrdtOps (CrdtManager.new 1000) [settingsFrame "theme" 1 1]).mapValue "settings").get
        "settings" = some 1 ∧
      (((LWWMap.new "c1").applyAll ([settingsFrame "theme" 1 1].map CrdtOpFrame.op)).value).get
        "theme" = some 1 :=
  ⟨⟨rfl, rfl, Or.inl rfl, "theme", rfl, by decide⟩, by decide⟩

end Handler

end Datasole
