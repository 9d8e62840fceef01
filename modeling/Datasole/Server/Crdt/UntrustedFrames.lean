import Datasole.Common.Machine
import Datasole.Shared.Crdt.UntrustedOps

/-!
# CRDT_OP frames as they come

The handler of CRDT_OP frames in `server/protocol/protocol-adapter.ts` and `CrdtManager.apply`, for
payloads of any JSON values. Neither looks at more than the key and the type of an operation, so
what the CRDTs are protected by is what their own `apply` checks: nothing.

`sound_iff_harmless`: along a run the entries of counters stay finite and do not decrease, their
values and all timestamps stay finite numbers, exactly if every operation is harmless to the CRDT
that it reaches.
-/

open Binary64

namespace Datasole

open PNCounter (Side)

namespace Untrusted

structure CrdtManager where
  registry : JsMap JsKey Crdt
  maxKeys : ℕ

/-- A CRDT_OP frame after decoding. -/
structure CrdtOpFrame where
  connectionId : String
  key : JsValue
  op : JsValue
  now : Double

/-- `{ ...payload.op, key: payload.key }`. -/
def CrdtOpFrame.passedOn (frame : CrdtOpFrame) : CrdtOperation where
  type := frame.op.property "type"
  nodeId := frame.op.property "nodeId"
  timestamp := frame.op.property "timestamp"
  op := frame.op.property "op"
  key := frame.key
  value := frame.op.property "value"

namespace CrdtManager

variable (texts : NumberTexts)

def new (maxKeys : ℕ) : CrdtManager where
  registry := JsMap.empty
  maxKeys := maxKeys

def put (m : CrdtManager) (key : JsValue) (crdt : Crdt) : CrdtManager :=
  { m with registry := m.registry.set key.key crdt }

/-- The CRDT that an operation reaches, registered if there is none yet. There is no such CRDT if
none of the type exists or there are too many, or if the subscription to `crdt:${key}` throws. -/
def target (m : CrdtManager) (key type : JsValue) : CrdtManager × Option Crdt :=
  match m.registry.get key.key with
  | some crdt => (m, some crdt)
  | none =>
    if m.maxKeys ≤ m.registry.size then (m, none)
    else
      match Crdt.ofType type with
      | none => (m, none)
      | some crdt => (m.put key crdt, if (key.toText texts).isSome then some crdt else none)

/-- `op.key ?? connectionId`. -/
def crdtKey (connectionId : String) (op : CrdtOperation) : JsValue :=
  if op.key.isNullish then .string connectionId else op.key

/-- `apply`, as far as the CRDTs are concerned. -/
def apply (m : CrdtManager) (connectionId : String) (op : CrdtOperation)
    (now : Double) : CrdtManager :=
  let key := crdtKey connectionId op
  match m.target texts key op.type with
  | (m, none) => m
  | (m, some crdt) => m.put key (crdt.apply texts op now)

/-- The subscription of a key: an operation published on its channel reaches the CRDT as well. -/
def deliver (m : CrdtManager) (key : JsValue) (op : CrdtOperation) (now : Double) : CrdtManager :=
  match m.registry.get key.key with
  | none => m
  | some crdt => m.put key (crdt.apply texts op now)

inductive Act where
  | frame (frame : CrdtOpFrame)
  | deliver (key : JsValue) (op : CrdtOperation) (now : Double)

def step (m : CrdtManager) : Act → Option CrdtManager
  | .frame frame => some (m.apply texts frame.connectionId frame.passedOn frame.now)
  | .deliver key op now => some (m.deliver texts key op now)

/-- Every CRDT is sound. -/
def Sound (m : CrdtManager) : Prop := ∀ key crdt, m.registry.get key = some crdt → crdt.Sound texts

/-- What the counter under a key holds for a node. -/
def entry (m : CrdtManager) (key : JsKey) (side : Side) (node : JsKey) : JsPrimitive :=
  match m.registry.get key with
  | none => PNCounter.zero
  | some crdt => crdt.entry side node

/-- No entry of a counter decreases. -/
def Grows (m m' : CrdtManager) : Prop :=
  ∀ key side node, (m.entry key side node).units ≤ (m'.entry key side node).units

/-- The operation is harmless to the CRDT that it reaches, if it reaches one. -/
def Harmless (m : CrdtManager) : Act → Prop
  | .frame frame =>
    ∀ crdt, (m.target texts (crdtKey frame.connectionId frame.passedOn) frame.passedOn.type).2 = some crdt →
      crdt.Harmless texts frame.passedOn frame.now
  | .deliver key op now =>
    ∀ crdt, m.registry.get key.key = some crdt → crdt.Harmless texts op now

variable {texts} {m : CrdtManager} {key : JsValue} {crdt crdt' : Crdt}

theorem get_put (m : CrdtManager) (key : JsValue) (crdt : Crdt) (key' : JsKey) :
    (m.put key crdt).registry.get key' = if key' = key.key then some crdt else m.registry.get key' :=
  JsMap.get_set ..

/-- The counts under a key are those of the CRDT that was put there last. -/
theorem entry_put (m : CrdtManager) (key : JsValue) (crdt : Crdt) (key' : JsKey) :
    (m.put key crdt).entry key' = if key' = key.key then crdt.entry else m.entry key' := by
  funext side node
  by_cases hkey : key' = key.key
  · simp only [entry, get_put, if_pos hkey]
  · simp only [entry, get_put, if_neg hkey]

/-- Replacing a CRDT leaves the others as they are. -/
theorem put_iff (hm : m.Sound texts) (hget : m.registry.get key.key = some crdt) :
    (m.put key crdt').Sound texts ∧ m.Grows (m.put key crdt') ↔
      crdt'.Sound texts ∧ crdt.Grows crdt' := by
  have hentry : m.entry key.key = crdt.entry := by
    funext side node
    rw [entry, hget]
  constructor
  · intro ⟨hsound, hgrows⟩
    refine ⟨hsound key.key crdt' (by rw [get_put, if_pos rfl]), fun side node => ?_⟩
    have hle := hgrows key.key side node
    rwa [entry_put, if_pos rfl, hentry] at hle
  · intro ⟨hsound, hgrows⟩
    refine ⟨fun key' crdt'' hget' => ?_, fun key' side node => ?_⟩
    · rw [get_put] at hget'
      split at hget'
      · exact Option.some.inj hget' ▸ hsound
      · exact hm key' crdt'' hget'
    · rw [entry_put]
      split
      · next heq =>
        rw [heq, hentry]
        exact hgrows side node
      · exact le_rfl

/-- Finding the CRDT for an operation changes no entry. -/
theorem target_spec (hm : m.Sound texts) (key type : JsValue) :
    (m.target texts key type).1.Sound texts ∧
      (∀ key', (m.target texts key type).1.entry key' = m.entry key') ∧
      ∀ crdt, (m.target texts key type).2 = some crdt →
        (m.target texts key type).1.registry.get key.key = some crdt := by
  unfold target
  cases hget : m.registry.get key.key with
  | some crdt => exact ⟨hm, fun _ => rfl, fun _ heq => heq ▸ hget⟩
  | none =>
    simp only
    split
    · exact ⟨hm, fun _ => rfl, fun _ heq => by cases heq⟩
    · cases htype : Crdt.ofType type with
      | none => exact ⟨hm, fun _ => rfl, fun _ heq => by cases heq⟩
      | some crdt =>
        obtain ⟨hsound, hzero⟩ : crdt.Sound texts ∧ _ := Crdt.sound_ofType htype
        refine ⟨fun key' crdt' hget' => ?_, fun key' => ?_, fun crdt' heq => ?_⟩
        · rw [get_put] at hget'
          split at hget'
          · exact Option.some.inj hget' ▸ hsound
          · exact hm key' crdt' hget'
        · rw [entry_put]
          split
          · next hkey =>
            funext side node
            rw [hzero, hkey, entry, hget]
          · rfl
        · simp only [Option.ite_none_right_eq_some] at heq
          rw [get_put, if_pos rfl, heq.2]

/-- An operation keeps the CRDTs sound, and the entries of counters from decreasing, exactly if it
is harmless. -/
theorem harmless_iff (hm : m.Sound texts) (a : Act) :
    m.Harmless texts a ↔ ∀ t ∈ m.step texts a, t.Sound texts ∧ m.Grows t := by
  cases a with
  | deliver key op now =>
    simp only [Harmless, step, deliver, Option.mem_some_iff, forall_eq']
    cases hget : m.registry.get key.key with
    | none => exact ⟨fun _ => ⟨hm, fun _ _ _ => le_rfl⟩, fun _ _ heq => by cases heq⟩
    | some crdt =>
      have hcrdt := hm key.key crdt hget
      rw [put_iff hm hget, ← Crdt.harmless_iff hcrdt]
      exact ⟨fun h => h crdt rfl, fun h crdt' heq => Option.some.inj heq ▸ h⟩
  | frame frame =>
    simp only [Harmless, step, apply, Option.mem_some_iff, forall_eq']
    obtain ⟨hsound, hentry, hfound⟩ :=
      target_spec hm (crdtKey frame.connectionId frame.passedOn) frame.passedOn.type
    generalize m.target texts (crdtKey frame.connectionId frame.passedOn) frame.passedOn.type = found at *
    obtain ⟨m', reached⟩ := found
    have hgrows (t : CrdtManager) : m.Grows t ↔ m'.Grows t := by
      simp only [Grows, hentry]
    cases reached with
    | none =>
      exact ⟨fun _ => ⟨hsound, (hgrows m').mpr fun _ _ _ => le_rfl⟩, fun _ _ heq => by cases heq⟩
    | some crdt =>
      have hget := hfound crdt rfl
      rw [hgrows, put_iff hsound hget, ← Crdt.harmless_iff (hsound _ crdt hget)]
      exact ⟨fun h => h crdt rfl, fun h crdt' heq => Option.some.inj heq ▸ h⟩

/-- From a manager with sound CRDTs, for any frames and deliveries: every state is sound and no
entry of a counter ever decreases, exactly if every operation is harmless to the CRDT that it
reaches. -/
theorem sound_iff_harmless (texts : NumberTexts) (m : CrdtManager) (hm : m.Sound texts)
    (acts : List Act) :
    (∀ as a bs s t, acts = as ++ a :: bs → Machine.exec (step texts) m as = some s →
        s.step texts a = some t → t.Sound texts ∧ s.Grows t) ↔
      Machine.Guarded (step texts) (Harmless texts) m acts := by
  have hiff : Machine.Guarded (step texts) (fun s a => ∀ t ∈ s.step texts a, t.Sound texts ∧ s.Grows t)
      m acts ↔ Machine.Guarded (step texts) (Harmless texts) m acts := by
    have hany : Machine.Guarded (step texts) (fun _ _ => True) m acts :=
      Machine.guarded_of_forall (fun _ _ => trivial) m acts
    refine Machine.guarded_iff_guarded (I := Sound texts) (fun s a hs _ => (harmless_iff hs a).symm)
      (fun s a t hs _ hharmless hstep => ?_) hm hany
    exact ((harmless_iff hs a).mp hharmless t hstep).1
  rw [← hiff, Machine.guarded_iff_forall]
  exact ⟨fun h bs a cs t heq hrun u hu => h bs a cs t u heq hrun hu,
    fun h as a bs s t heq hrun hstep => h as a bs s heq hrun t hstep⟩

/-! ## Frames that are and frames that are not harmless -/

/-- No text is taken of a number below. -/
def noTexts : NumberTexts where
  toText _ := ""
  ofText _ := .nan

def incrementFrame (value : JsValue) : CrdtOpFrame where
  connectionId := "conn-1"
  key := .string "hits"
  op := .object 0 [("type", .string "pn-counter"), ("nodeId", .string "c1"), ("op", .string "increment"),
    ("value", value)]
  now := .zero

/-- A `set` with a timestamp. -/
def setFrame (type : String) (timestamp : JsValue) : CrdtOpFrame where
  connectionId := "conn-1"
  key := .string "title"
  op := .object 0 [("type", .string type), ("nodeId", .string "c1"), ("op", .string "set"),
    ("timestamp", timestamp), ("value", .string "x")]
  now := .zero

def handle (frame : CrdtOpFrame) : CrdtManager :=
  (new 1000).apply noTexts frame.connectionId frame.passedOn frame.now

theorem sound_new (maxKeys : ℕ) : (new maxKeys).Sound texts := nofun

/-- An increment by one leaves a new manager sound, and lowers no count. -/
theorem increment_by_one_is_sound :
    (handle (incrementFrame (.number (.finite .one)))).Sound noTexts ∧
      (new 1000).Grows (handle (incrementFrame (.number (.finite .one)))) := by
  have hharmless : Machine.Guarded (step noTexts) (Harmless noTexts) (new 1000)
      [.frame (incrementFrame (.number (.finite .one)))] := by
    refine ⟨fun crdt hcrdt => ?_, fun _ _ => trivial⟩
    cases hcrdt
    intro side hside added hadded
    cases hside
    cases hadded
    exact ⟨.zero, .one, .one, rfl, rfl, by decide +kernel, .inl (by decide +kernel),
      by decide +kernel⟩
  exact (sound_iff_harmless noTexts (new 1000) (sound_new 1000) _).mpr hharmless [] _ [] _ _ rfl rfl rfl

/-- `1e400` is parsed as an infinity. -/
def huge : JsValue := .number .infinity

def minusOne : JsValue := .number (Number.finite .one).neg

/-- An entry becomes infinite by an increment of `1e400`, and less than it was by one of `-1`; a
register takes `1e400` for its timestamp, and a new field of a map `null`. -/
theorem frames_break_crdts :
    (handle (incrementFrame huge)).entry (.string "hits") .increments (.string "c1") =
        .number .infinity ∧
      (handle (incrementFrame minusOne)).entry (.string "hits") .increments (.string "c1") =
        .number (Number.finite .one).neg ∧
      (∃ r, (handle (setFrame "lww-register" huge)).registry.get (.string "title") =
        some (.lwwRegister r) ∧ r.timestamp = .number .infinity) ∧
      ∃ map r, (handle (setFrame "lww-map" .null)).registry.get (.string "title") =
        some (.lwwMap map) ∧ map.fields.get (.string "title") = some r ∧ r.timestamp = .null := by
  refine ⟨by decide +kernel, by decide +kernel, ⟨_, rfl, rfl⟩, ⟨_, _, rfl, rfl, rfl⟩⟩

end CrdtManager

end Untrusted

end Datasole
