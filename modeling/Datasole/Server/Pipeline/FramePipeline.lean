import Mathlib.Data.List.Sort
import Datasole.Common.Machine
import Datasole.Server.Pipeline.RateLimitInterceptor

/-!
# The pipeline of inbound frames

`onMessage` of `server/transport/server-transport.ts`, the pipeline that `server/server.ts` builds
(the metrics, the rate limiter, the executor) and `dispatch` of `server/executor/async-executor.ts`.
A message runs up to the limiter's promise in one step and goes on in another when the promise
settles. The promises of different messages settle in any order, and nothing queues the messages of
a connection.

So `handed_eq_allowed`: a connection's messages are handed to the router in the order in which the
limiter allows them, which is the order received only if their promises settle in that order.
-/

namespace Datasole

/-- The parts that the pipeline is made of. -/
structure FramePipeline (V σ : Type*) where
  pako : Pako
  text : JsonText V
  config : RateLimitConfig
  /-- What `FrameRouter.dispatch` does with a message of a connection before it waits. -/
  dispatch : ℕ → Bytes → σ → σ

namespace FramePipeline

/-- A message, with its place among all messages received. -/
structure Inbound where
  number : ℕ
  connection : ℕ
  raw : Bytes
deriving DecidableEq

/-- The `n`-th connection has the id `conn-n`. -/
def connectionId (n : ℕ) : String := "conn-" ++ toString n

/-- The open connections, the messages whose promise has not settled, what went out, and what the
handlers act on. The other fields record the run: the messages received and those that were handed
to the router, each in order. -/
structure Server (σ : Type*) where
  connectionCounter : ℕ
  connections : List ℕ
  waiting : List Inbound
  sent : List (ℕ × Bytes)
  world : σ
  received : List Inbound
  handed : List Inbound

def init {σ : Type*} (world : σ) : Server σ where
  connectionCounter := 0
  connections := []
  waiting := []
  sent := []
  world := world
  received := []
  handed := []

inductive Act where
  | connect
  | receive (connection : ℕ) (raw : Bytes)
  /-- The promise of a message settles: with a result, or by a rejection. -/
  | settle (number : ℕ) (result : Option RateLimitResult)
  | close (connection : ℕ)

variable {V σ : Type*} (pipeline : FramePipeline V σ) {s t : Server σ}

/-- `onFrame` up to the limiter's promise; an exception of the key extractor is ignored. -/
def receive (s : Server σ) (connection : ℕ) (raw : Bytes) : Server σ :=
  let message : Inbound := ⟨s.received.length, connection, raw⟩
  match getRateLimitKey pipeline.pako pipeline.text (connectionId connection) raw pipeline.config with
  | .error _ => { s with received := s.received ++ [message] }
  | .ok _ => { s with received := s.received ++ [message], waiting := s.waiting ++ [message] }

/-- `dispatch` of the executor, which has dropped the connection if it is closed. -/
def hand (s : Server σ) (message : Inbound) : Server σ :=
  if message.connection ∈ s.connections then
    { s with
      handed := s.handed ++ [message]
      world := pipeline.dispatch message.connection message.raw s.world }
  else s

/-- The rest of the pipeline for a message, once the limiter's promise has settled. -/
def resume (s : Server σ) (message : Inbound) (result : Option RateLimitResult) : Server σ :=
  match result with
  | none => s
  | some result =>
    if result.allowed then pipeline.hand s message
    else
      let conn := if message.connection ∈ s.connections then some (Connection.mk true) else none
      let out := sendRateLimitError pipeline.pako pipeline.text conn message.raw result
      { s with sent := s.sent ++ out.map fun data => (message.connection, data) }

def step (s : Server σ) : Act → Option (Server σ)
  | .connect =>
    some { s with
      connectionCounter := s.connectionCounter + 1
      connections := s.connections ++ [s.connectionCounter + 1] }
  | .receive connection raw =>
    if connection ∈ s.connections then some (pipeline.receive s connection raw) else none
  | .settle number result =>
    match s.waiting.find? (·.number = number) with
    | none => none
    | some message =>
      some (pipeline.resume { s with waiting := s.waiting.erase message } message result)
  | .close connection => some { s with connections := s.connections.filter (· ≠ connection) }

/-! ## What arrives, and what the limiter allows -/

def Act.arrival : Act → Option (ℕ × Bytes)
  | .receive connection raw => some (connection, raw)
  | _ => none

/-- The messages that arrive, numbered as they come. -/
def arrivals (acts : List Act) : List Inbound :=
  (acts.filterMap Act.arrival).mapIdx fun number (connection, raw) => ⟨number, connection, raw⟩

/-- The message whose promise settles with a result that allows it. -/
def Act.allows : Act → Option ℕ
  | .settle number (some result) => if result.allowed then some number else none
  | _ => none

/-- The messages that the limiter allows, in the order in which their promises settle. -/
def admissions (acts : List Act) : List Inbound :=
  (acts.filterMap Act.allows).filterMap fun number => (arrivals acts)[number]?

theorem arrivals_append (as bs : List Act) : arrivals as <+: arrivals (as ++ bs) := by
  rw [arrivals, arrivals, List.filterMap_append, List.mapIdx_append]
  exact List.prefix_append _ _

/-- A message gets the next number. -/
theorem arrivals_receive (as : List Act) (connection : ℕ) (raw : Bytes) :
    arrivals (as ++ [.receive connection raw]) =
      arrivals as ++ [⟨(arrivals as).length, connection, raw⟩] := by
  have hnew : [Act.receive connection raw].filterMap Act.arrival = [(connection, raw)] := rfl
  rw [arrivals, List.filterMap_append, hnew, List.mapIdx_concat, ← arrivals, arrivals,
    List.length_mapIdx]

theorem arrivals_other (as : List Act) {a : Act} (ha : a.arrival = none) :
    arrivals (as ++ [a]) = arrivals as := by
  rw [arrivals, List.filterMap_append, List.filterMap_cons_none ha, List.filterMap_nil,
    List.append_nil, arrivals]

/-- A message is found by its number. -/
theorem getElem?_number {as : List Act} {message : Inbound} (h : message ∈ arrivals as) :
    (arrivals as)[message.number]? = some message := by
  obtain ⟨number, hlt, rfl⟩ := List.mem_mapIdx.mp h
  rw [arrivals, List.getElem?_mapIdx, List.getElem?_eq_getElem hlt]
  rfl

/-- What is allowed next comes last, if the promises that settled before belong to messages that had
arrived. -/
theorem admissions_concat {as : List Act} (a : Act)
    (h : ∀ number ∈ as.filterMap Act.allows, number < (arrivals as).length) :
    admissions (as ++ [a]) =
      admissions as ++ ((a.allows).bind fun number => (arrivals (as ++ [a]))[number]?).toList := by
  have hold : (as.filterMap Act.allows).filterMap (fun number => (arrivals (as ++ [a]))[number]?) =
      admissions as := by
    refine List.filterMap_congr fun number hmem => ?_
    rw [List.prefix_iff_getElem?.mp (arrivals_append as [a]) number (h number hmem),
      List.getElem?_eq_getElem (h number hmem)]
  rw [admissions, List.filterMap_append, List.filterMap_append, hold]
  cases ha : a.allows with
  | none => rw [List.filterMap_cons_none ha]; rfl
  | some number =>
    rw [List.filterMap_cons_some ha, List.filterMap_nil, Option.bind_some]
    cases hget : (arrivals (as ++ [a]))[number]? with
    | none => rw [List.filterMap_cons_none hget]; rfl
    | some message => rw [List.filterMap_cons_some hget]; rfl

/-- The messages of a connection, in the order of a list. -/
def onConnection (connection : ℕ) (messages : List Inbound) : List Inbound :=
  messages.filter (·.connection = connection)

/-- The messages of a connection in two lists, one after the other. -/
@[simp] theorem onConnection_append (connection : ℕ) (as bs : List Inbound) :
    onConnection connection (as ++ bs) = onConnection connection as ++ onConnection connection bs :=
  List.filter_append ..

@[simp] theorem onConnection_singleton (connection : ℕ) (message : Inbound) :
    onConnection connection [message] = if message.connection = connection then [message] else [] :=
  by simp [onConnection, List.filter_cons]

/-- What every run keeps that has `allowed` some messages: messages are numbered as they come, a
message waits or has been allowed and not both, and those handed over are those allowed, up to the
closing of their connection. -/
structure Inv (world : σ) (allowed : List Inbound) (s : Server σ) : Prop where
  number_lt : ∀ m ∈ s.received, m.number < s.received.length
  received_sorted : s.received.Pairwise (·.number < ·.number)
  connection_le : ∀ m ∈ s.received, m.connection ≤ s.connectionCounter
  open_le : ∀ id ∈ s.connections, id ≤ s.connectionCounter
  was_received : ∀ m ∈ s.waiting ++ allowed, m ∈ s.received
  nodup : (s.waiting ++ allowed).Nodup
  handed_of_open : ∀ id ∈ s.connections, onConnection id s.handed = onConnection id allowed
  handed_start : ∀ id, onConnection id s.handed <+: onConnection id allowed
  world_eq : s.world = s.handed.foldl (fun w m => pipeline.dispatch m.connection m.raw w) world

variable {pipeline} {world : σ} {allowed : List Inbound}

/-- Nothing has been received yet. -/
theorem inv_init : Inv pipeline world [] (init world) where
  number_lt _ h := by cases h
  received_sorted := .nil
  connection_le _ h := by cases h
  open_le _ h := by cases h
  was_received _ h := by cases h
  nodup := .nil
  handed_of_open _ h := by cases h
  handed_start _ := List.prefix_rfl
  world_eq := rfl

/-- A new connection has had no message. -/
theorem Inv.connect (h : Inv pipeline world allowed s) : Inv pipeline world allowed { s with
    connectionCounter := s.connectionCounter + 1
    connections := s.connections ++ [s.connectionCounter + 1] } := by
  -- nothing has come on a new connection
  have hnew : onConnection (s.connectionCounter + 1) allowed = [] := by
    refine List.filter_eq_nil_iff.mpr fun m hm hid => ?_
    have hle := h.connection_le m (h.was_received m (List.mem_append_right _ hm))
    have heq := of_decide_eq_true hid
    omega
  refine { h with connection_le := ?_, open_le := ?_, handed_of_open := ?_ }
  · intro m hm
    exact (h.connection_le m hm).trans (Nat.le_succ _)
  · intro id hid
    rcases List.mem_append.mp hid with hid | hid
    · exact (h.open_le id hid).trans (Nat.le_succ _)
    · exact (List.mem_singleton.mp hid).le
  · intro id hid
    rcases List.mem_append.mp hid with hid | hid
    · exact h.handed_of_open id hid
    · obtain rfl := List.mem_singleton.mp hid
      have hstart := h.handed_start (s.connectionCounter + 1)
      rw [hnew] at hstart
      exact (List.prefix_nil.mp hstart).trans hnew.symm

/-- A message arrives, and waits unless the key extractor throws. -/
theorem Inv.receive (h : Inv pipeline world allowed s) {connection : ℕ}
    (hopen : connection ∈ s.connections) (raw : Bytes) :
    Inv pipeline world allowed (pipeline.receive s connection raw) := by
  -- the message has the next number
  set message : Inbound := ⟨s.received.length, connection, raw⟩
  have hlt : ∀ m ∈ s.received ++ [message], m.number < (s.received ++ [message]).length := by
    intro m hm
    rw [List.length_append, List.length_singleton]
    rcases List.mem_append.mp hm with hm | hm
    · exact (h.number_lt m hm).trans (Nat.lt_succ_self _)
    · rw [List.mem_singleton.mp hm]
      exact Nat.lt_succ_self _
  have hsorted : (s.received ++ [message]).Pairwise (·.number < ·.number) := by
    refine List.pairwise_append.mpr ⟨h.received_sorted, List.pairwise_singleton _ _, ?_⟩
    intro m hm m' hm'
    rw [List.mem_singleton.mp hm']
    exact h.number_lt m hm
  have hle : ∀ m ∈ s.received ++ [message], m.connection ≤ s.connectionCounter := by
    intro m hm
    rcases List.mem_append.mp hm with hm | hm
    · exact h.connection_le m hm
    · rw [List.mem_singleton.mp hm]
      exact h.open_le connection hopen
  unfold FramePipeline.receive
  split
  · -- the key extractor throws, and the message goes no further
    refine { h with
      number_lt := hlt
      received_sorted := hsorted
      connection_le := hle
      was_received := ?_ }
    exact fun m hm => List.mem_append_left _ (h.was_received m hm)
  · refine { h with
      number_lt := hlt
      received_sorted := hsorted
      connection_le := hle
      was_received := ?_
      nodup := ?_ }
    · intro m hm
      rcases List.mem_append.mp hm with hm | hm
      · rcases List.mem_append.mp hm with hm | hm
        · exact List.mem_append_left _ (h.was_received m (List.mem_append_left _ hm))
        · exact List.mem_append_right _ hm
      · exact List.mem_append_left _ (h.was_received m (List.mem_append_right _ hm))
    · -- a new number is neither waiting nor allowed
      have hfresh : message ∉ s.waiting ++ allowed :=
        fun hm => lt_irrefl _ (h.number_lt _ (h.was_received _ hm))
      rw [List.append_assoc]
      exact (List.perm_middle.nodup_iff).mpr (List.nodup_cons.mpr ⟨hfresh, h.nodup⟩)

/-- A message leaves the waiting ones, and is refused or forgotten. -/
theorem Inv.drop (h : Inv pipeline world allowed s) (message : Inbound) (sent : List (ℕ × Bytes)) :
    Inv pipeline world allowed { s with waiting := s.waiting.erase message, sent } where
  __ := h
  was_received m hm := h.was_received m (by
    rcases List.mem_append.mp hm with hm | hm
    · exact List.mem_append_left _ (List.mem_of_mem_erase hm)
    · exact List.mem_append_right _ hm)
  nodup := h.nodup.sublist (List.erase_sublist.append_right _)

/-- A message is allowed, and handed over if its connection is open. -/
theorem Inv.hand (h : Inv pipeline world allowed s) {message : Inbound}
    (hmem : message ∈ s.waiting) :
    Inv pipeline world (allowed ++ [message])
      (pipeline.hand { s with waiting := s.waiting.erase message } message) := by
  -- the message passes from those that wait to those that are allowed
  have hperm : (s.waiting.erase message ++ (allowed ++ [message])).Perm (s.waiting ++ allowed) := by
    rw [← List.append_assoc]
    refine List.perm_append_comm.trans ?_
    exact (List.perm_cons_erase hmem).symm.append_right allowed
  have hreceived : ∀ m ∈ s.waiting.erase message ++ (allowed ++ [message]), m ∈ s.received :=
    fun m hm => h.was_received m (hperm.mem_iff.mp hm)
  have hnodup := hperm.nodup_iff.mpr h.nodup
  unfold FramePipeline.hand
  split
  · next hopen =>
    -- it is handed over after those allowed before it on its connection
    refine { h with
      was_received := hreceived
      nodup := hnodup
      handed_of_open := ?_
      handed_start := ?_
      world_eq := ?_ }
    · intro id hid
      rw [onConnection_append, onConnection_append, h.handed_of_open id hid]
    · intro id
      rw [onConnection_append, onConnection_append]
      by_cases heq : message.connection = id
      · rw [h.handed_of_open id (heq ▸ hopen)]
      · rw [onConnection_singleton, if_neg heq, List.append_nil, List.append_nil]
        exact h.handed_start id
    · rw [List.foldl_append, ← h.world_eq]
      rfl
  · next hclosed =>
    -- its connection is closed, and its frame goes nowhere
    refine { h with
      was_received := hreceived
      nodup := hnodup
      handed_of_open := ?_
      handed_start := ?_ }
    · intro id hid
      have hne : message.connection ≠ id := fun heq => hclosed (heq ▸ hid)
      rw [onConnection_append, onConnection_singleton, if_neg hne, List.append_nil]
      exact h.handed_of_open id hid
    · intro id
      rw [onConnection_append]
      exact (h.handed_start id).trans (List.prefix_append _ _)

/-- What a run of the actions `as` has come to. -/
structure History (pipeline : FramePipeline V σ) (world : σ) (as : List Act)
    (s : Server σ) : Prop where
  received_eq : s.received = arrivals as
  allows_lt : ∀ number ∈ as.filterMap Act.allows, number < (arrivals as).length
  inv : Inv pipeline world (admissions as) s

/-- Handing a message over sends nothing by itself. -/
@[simp] theorem sent_hand (s : Server σ) (message : Inbound) :
    (pipeline.hand s message).sent = s.sent := by
  unfold hand
  split <;> rfl

/-- Nor does it touch the messages that wait. -/
@[simp] theorem waiting_hand (s : Server σ) (message : Inbound) :
    (pipeline.hand s message).waiting = s.waiting := by
  unfold hand
  split <;> rfl

/-- A message that goes on has been received before. -/
@[simp] theorem received_resume (s : Server σ) (message : Inbound)
    (result : Option RateLimitResult) :
    (pipeline.resume s message result).received = s.received := by
  unfold resume hand
  repeat' split
  all_goals rfl

/-- What was received is what the actions brought. -/
theorem received_step {a : Act} (hs : step pipeline s a = some t) (as : List Act)
    (h : s.received = arrivals as) : t.received = arrivals (as ++ [a]) := by
  cases a with
  | connect | close connection =>
    cases hs
    rw [arrivals_other as rfl]
    exact h
  | receive connection raw =>
    simp only [FramePipeline.step, Option.ite_none_right_eq_some] at hs
    obtain ⟨-, hs⟩ := hs
    cases hs
    rw [arrivals_receive, ← h]
    unfold FramePipeline.receive
    split <;> rfl
  | settle number result =>
    simp only [FramePipeline.step] at hs
    split at hs
    · cases hs
    · cases hs
      rw [received_resume, arrivals_other as rfl]
      exact h

variable {as : List Act}

/-- A message that waits is the arrival with its number. -/
theorem History.getElem?_waiting (h : History pipeline world as s) {message : Inbound}
    (hmem : message ∈ s.waiting) : (arrivals as)[message.number]? = some message :=
  getElem?_number (h.received_eq ▸ h.inv.was_received message (List.mem_append_left _ hmem))

/-- A message that waits is found by its number. -/
theorem History.find_waiting (h : History pipeline world as s) {message : Inbound}
    (hmem : message ∈ s.waiting) : s.waiting.find? (·.number = message.number) = some message := by
  have hsome : (s.waiting.find? (·.number = message.number)).isSome :=
    List.find?_isSome.mpr ⟨message, hmem, decide_eq_true rfl⟩
  obtain ⟨found, hfind⟩ := Option.isSome_iff_exists.mp hsome
  have hnumber : found.number = message.number := by simpa using List.find?_some hfind
  have hget := h.getElem?_waiting (List.mem_of_find?_eq_some hfind)
  rw [hnumber, h.getElem?_waiting hmem] at hget
  rw [hfind, hget]

/-- The message whose promise settles is the one that waits under the number. -/
theorem History.of_find (h : History pipeline world as s) {number : ℕ} {message : Inbound}
    (hfind : s.waiting.find? (·.number = number) = some message) :
    message ∈ s.waiting ∧ message.number = number ∧ (arrivals as)[number]? = some message := by
  have hmem := List.mem_of_find?_eq_some hfind
  have hnumber : message.number = number := by simpa using List.find?_some hfind
  exact ⟨hmem, hnumber, hnumber ▸ h.getElem?_waiting hmem⟩

/-- A message that is allowed comes last. -/
theorem History.admissions_settle (h : History pipeline world as s) {number : ℕ} {message : Inbound}
    (hfind : s.waiting.find? (·.number = number) = some message) {result : RateLimitResult}
    (hallowed : result.allowed = true) :
    admissions (as ++ [.settle number (some result)]) = admissions as ++ [message] := by
  have hallows : (Act.settle number (some result)).allows = some number := if_pos hallowed
  rw [admissions_concat _ h.allows_lt, hallows, Option.bind_some, arrivals_other as rfl,
    (h.of_find hfind).2.2]
  rfl

/-- What is allowed stays what it is where nothing is allowed. -/
theorem History.admissions_other (h : History pipeline world as s) {a : Act}
    (ha : a.allows = none) :
    admissions (as ++ [a]) = admissions as := by
  rw [admissions_concat a h.allows_lt, ha]
  exact List.append_nil _

/-- Every step of the pipeline is told by the actions so far. -/
theorem History.step {a : Act} (h : History pipeline world as s)
    (hs : step pipeline s a = some t) : History pipeline world (as ++ [a]) t := by
  have hreceived := received_step hs as h.received_eq
  have hlt : ∀ number ∈ as.filterMap Act.allows, number < (arrivals (as ++ [a])).length :=
    fun number hmem => (h.allows_lt number hmem).trans_le (arrivals_append as [a]).length_le
  -- an action that allows nothing leaves the messages allowed so far
  have hquiet (ha : a.allows = none) (hinv : Inv pipeline world (admissions as) t) :
      History pipeline world (as ++ [a]) t := by
    refine ⟨hreceived, ?_, ?_⟩
    · rwa [List.filterMap_append, List.filterMap_cons_none ha, List.filterMap_nil, List.append_nil]
    · rwa [h.admissions_other ha]
  cases a with
  | connect => cases hs; exact hquiet rfl h.inv.connect
  | receive connection raw =>
    simp only [FramePipeline.step, Option.ite_none_right_eq_some] at hs
    obtain ⟨hopen, hs⟩ := hs
    cases hs
    exact hquiet rfl (h.inv.receive hopen raw)
  | settle number result =>
    simp only [FramePipeline.step] at hs
    cases hfind : s.waiting.find? (·.number = number) with
    | none => rw [hfind] at hs; cases hs
    | some message =>
      rw [hfind] at hs
      cases hs
      obtain ⟨hmem, -, hget⟩ := h.of_find hfind
      cases result with
      | none => exact hquiet rfl (h.inv.drop message s.sent)
      | some result =>
        by_cases hallowed : result.allowed = true
        · have hallows : (Act.settle number (some result)).allows = some number := if_pos hallowed
          refine ⟨hreceived, ?_, ?_⟩
          · intro n hn
            rw [List.filterMap_append, List.filterMap_cons_some hallows] at hn
            rcases List.mem_append.mp hn with hn | hn
            · exact hlt n hn
            · rw [List.mem_singleton.mp hn, arrivals_other as rfl]
              exact (List.getElem?_eq_some_iff.mp hget).1
          · rw [h.admissions_settle hfind hallowed,
              show resume pipeline _ message (some result) = _ from if_pos hallowed]
            exact h.inv.hand hmem
        · refine hquiet (if_neg hallowed) ?_
          rw [show resume pipeline _ message (some result) = _ from if_neg hallowed]
          exact h.inv.drop message _
  | close connection =>
    cases hs
    refine hquiet rfl { h.inv with open_le := ?_, handed_of_open := ?_ }
    · exact fun id hid => h.inv.open_le id (List.mem_of_mem_filter hid)
    · exact fun id hid => h.inv.handed_of_open id (List.mem_of_mem_filter hid)

/-- So is every run. -/
theorem history_exec {acts : List Act}
    (hrun : Machine.exec (step pipeline) (init world) acts = some s) :
    History pipeline world acts s :=
  Machine.exec_history (fun _ _ _ _ h hs => h.step hs)
    ⟨rfl, fun _ hmem => absurd hmem List.not_mem_nil, inv_init⟩ hrun

/-- Messages are in the order received exactly if their numbers increase. -/
theorem Inv.sublist_received_iff (h : Inv pipeline world allowed s) {messages : List Inbound}
    (hsub : messages ⊆ s.received) :
    messages.Sublist s.received ↔ messages.Pairwise (·.number < ·.number) := by
  refine ⟨fun hsublist => h.received_sorted.sublist hsublist, fun hsorted => ?_⟩
  have hnodup : messages.Nodup := hsorted.imp fun hlt heq => (heq ▸ hlt).false
  exact List.sublist_of_subperm_of_pairwise (List.subperm_of_subset hnodup hsub) hsorted
    h.received_sorted

/-- In every run, for every connection that is open: the messages handed to the router are those
that the limiter allowed, once each and in the order in which its promises for them settled, and
take effect in that order. They are handed over in the order received exactly if the promises of the
allowed messages settled in that order. -/
theorem handed_eq_allowed (pipeline : FramePipeline V σ) (world : σ) (acts : List Act)
    (s : Server σ)
    (hrun : Machine.exec (step pipeline) (init world) acts = some s) (id : ℕ)
    (hopen : id ∈ s.connections) :
    onConnection id s.handed = onConnection id (admissions acts) ∧ (onConnection id s.handed).Nodup ∧
      s.world = s.handed.foldl (fun w m => pipeline.dispatch m.connection m.raw w) world ∧
      ((onConnection id s.handed).Sublist (arrivals acts) ↔
        (onConnection id (admissions acts)).Pairwise (·.number < ·.number)) := by
  have h := history_exec hrun
  have heq := h.inv.handed_of_open id hopen
  refine ⟨heq, ?_, h.inv.world_eq, ?_⟩
  · rw [heq]
    exact (List.nodup_append.mp h.inv.nodup).2.1.filter _
  · rw [heq, ← h.received_eq]
    refine h.inv.sublist_received_iff fun m hm => ?_
    exact h.inv.was_received m (List.mem_append_right _ (List.mem_of_mem_filter hm))

/-- A pipeline without rules of its own, whose handlers append what they are given. -/
def recording : FramePipeline NumberHandler.JsNumber (List (ℕ × Bytes)) where
  pako := plainPako
  text := NumberHandler.text
  config := {}
  dispatch connection raw world := world ++ [(connection, raw)]

/-- What the limiter says to a message in a window that has room. -/
def hasRoom : RateLimitResult :=
  { allowed := true, remaining := 98, resetAt := 60000, retryAfter := none }

/-- Two events of one connection; the promise of the second settles first. -/
def overtaking : List Act :=
  [.connect, .receive 1 (Frame.bytes ⟨.eventC2s, 0, Bytes.ofAscii "1"⟩),
    .receive 1 (Frame.bytes ⟨.eventC2s, 0, Bytes.ofAscii "2"⟩),
    .settle 1 (some hasRoom), .settle 0 (some hasRoom)]

/-- In the example the second message is handed over first, as it was allowed first. -/
theorem overtaking_handed : ∃ s, Machine.exec (step recording) (init []) overtaking = some s ∧
    onConnection 1 s.handed = onConnection 1 (admissions overtaking) := by
  obtain ⟨s, hrun, hend⟩ := Machine.exists_exec_of_test
    (show (Machine.exec (step recording) (init []) overtaking).map
      (fun s => decide (1 ∈ s.connections)) = some true by decide +kernel)
  exact ⟨s, hrun, (handed_eq_allowed recording [] overtaking s hrun 1 (of_decide_eq_true hend)).1⟩

/-- Both events are allowed and take effect, the second before the first. The default limiter gives
its answers in this order if the second call starts while the first waits for its last `set`. -/
theorem overtaking_out_of_order :
    (∃ s, Machine.exec (step recording) (init []) overtaking = some s ∧ 1 ∈ s.connections ∧
      onConnection 1 (arrivals overtaking) = arrivals overtaking ∧ s.waiting = [] ∧
      (onConnection 1 s.handed).map (·.number) = [1, 0] ∧
      ¬ (onConnection 1 s.handed).Sublist (arrivals overtaking)) ∧
    ∃ limiter, Machine.exec DefaultRateLimiter.step
        (DefaultRateLimiter.init defaultRateLimitRule true)
        [.consume 0, .advance 0 0, .advance 0 0, .advance 0 0, .advance 0 0, .consume 0, .advance 1 0,
          .advance 1 0, .advance 1 0, .advance 1 0, .advance 1 0] = some limiter ∧
      (limiter.calls 1).phase.Allowed = true ∧ (limiter.calls 0).phase.Done = false := by
  constructor
  · obtain ⟨s, hrun, hend⟩ := Machine.exists_exec_of_test
      (show (Machine.exec (step recording) (init []) overtaking).map (fun s => decide
        (1 ∈ s.connections ∧ s.waiting = [] ∧ (onConnection 1 s.handed).map (·.number) = [1, 0])) =
          some true by decide +kernel)
    obtain ⟨hopen, hwaiting, hnumbers⟩ := of_decide_eq_true hend
    refine ⟨s, hrun, hopen, by decide, hwaiting, hnumbers, fun hsublist => ?_⟩
    have hmap := hsublist.map (·.number)
    rw [hnumbers] at hmap
    exact absurd hmap (by decide)
  · obtain ⟨limiter, hrun, hend⟩ := Machine.exists_exec_of_test
      (show (Machine.exec DefaultRateLimiter.step (DefaultRateLimiter.init defaultRateLimitRule true)
        [.consume 0, .advance 0 0, .advance 0 0, .advance 0 0, .advance 0 0, .consume 0, .advance 1 0,
          .advance 1 0, .advance 1 0, .advance 1 0, .advance 1 0]).map (fun limiter => decide
            ((limiter.calls 1).phase.Allowed = true ∧ (limiter.calls 0).phase.Done = false)) =
              some true by decide +kernel)
    exact ⟨limiter, hrun, of_decide_eq_true hend⟩

end FramePipeline

end Datasole
