import Datasole.Server.Protocol.RemoteCallsKept

/-!
# Calls come to an end

`calls_come_to_an_end`: on a connection that stays open, whatever order the messages, the limiter,
the handlers and the client take their turns in, they run out of things to do; as long as they have
not, one of them can go on; and then every call that was sent is settled, unless its response cannot
be written.
-/

namespace Datasole.RemoteCalls

open FramePipeline (Inbound)

variable {V τ : Type*}

/-- The turns on a connection: a message comes in, one is let through, a handler settles, the client
gets one. -/
def isWork (n : ℕ) (s : Sys V τ) : Act V → Bool
  | .arrives m => m = n
  | .limited message result => message.connection = n && result.any (·.allowed)
  | .settles i _ => s.running[i]?.any (·.connection = n)
  | .hears m => m = n
  | _ => false

/-- How many turns there can be: a message that comes in may lead to a handling and an answer. -/
def Sys.work (s : Sys V τ) (n : ℕ) : ℕ :=
  5 * s.outgoing.countP (·.1 = n) + 4 * s.server.waiting.countP (·.connection = n) +
    2 * s.running.countP (·.connection = n) +
    ((s.server.transport.sent n).length - s.heard.countP (·.1 = n))

section

variable {pako : Pako} {text : JsonText V} {stores : ClientStores τ} {mine : ℕ → Bool} {s t : Sys V τ}
variable {limit n : ℕ}

/-- Without work nothing is under way, and everything sent has been heard. -/
theorem work_eq_zero_iff : s.work n = 0 ↔
    s.outgoing.countP (·.1 = n) = 0 ∧ s.server.waiting.countP (·.connection = n) = 0 ∧
      s.running.countP (·.connection = n) = 0 ∧
      (s.server.transport.sent n).length ≤ s.heard.countP (·.1 = n) := by
  unfold Sys.work
  omega

/-! ## What the server sends in a turn -/

/-- At most one message is sent for a response. -/
theorem length_sendToConnection (pako : Pako) (conn : Connection) (opcode : Opcode) (id : ℤ)
    (payload : Except String Bytes) : (sendToConnection pako conn opcode id payload).length ≤ 1 := by
  unfold sendToConnection
  split
  · unfold Connection.send
    split <;> simp
  · exact Nat.zero_le _

/-- At most one pong is sent at once. -/
theorem length_answeredAtOnce (pako : Pako) (text : JsonText V) (raw : Bytes) :
    (answeredAtOnce pako text raw).length ≤ 1 := by
  unfold answeredAtOnce
  split
  · exact Nat.zero_le _
  · split
    · exact length_sendToConnection ..
    · exact Nat.zero_le _

/-- A protocol handler can send on a connection that is there. -/
theorem exists_sendAll {u : DatasoleServer} (hinv : u.Inv limit False)
    (hsome : (u.transport.conns n).isSome) (messages : List Bytes) :
    ∃ v, sendAll u n messages = some v := by
  unfold sendAll
  induction messages generalizing u with
  | nil => exact ⟨u, rfl⟩
  | cons message messages ih =>
    obtain ⟨w, hw⟩ : ∃ w, u.step (.send n message) = some w := ⟨_, if_pos hsome⟩
    obtain ⟨v, hv⟩ := ih (hinv.any_step hw) (hinv.moves_step hsome hw).isSome
    exact ⟨v, Machine.exec_cons_eq_some.mpr ⟨w, hw, hv⟩⟩

/-! ## A turn -/

/-- What a turn leaves alone, and that it is one turn less. -/
structure Turn (n : ℕ) (s t : Sys V τ) : Prop where
  isOpen : t.server.transport.Open n
  asks : t.asks = s.asks
  idsTaken : t.client.1.idsTaken = s.client.1.idsTaken
  work : t.work n < s.work n

theorem countP_of_mem {α : Type*} [BEq α] [LawfulBEq α] {p : α → Bool} {l : List α} {a : α}
    (hmem : a ∈ l) (hp : p a = true) : l.countP p = (l.erase a).countP p + 1 := by
  rw [(List.perm_cons_erase hmem).countP_eq p, List.countP_cons_of_pos hp]

/-- Taking out a position that counts takes one off the count. -/
theorem countP_of_get {α : Type*} {p : α → Bool} {l : List α} {i : ℕ} {a : α}
    (hget : l[i]? = some a)
    (hp : p a = true) : l.countP p = (l.eraseIdx i).countP p + 1 := by
  obtain ⟨hi, rfl⟩ := List.getElem?_eq_some_iff.mp hget
  rw [← (List.getElem_cons_eraseIdx_perm hi).countP_eq p, List.countP_cons_of_pos hp]

/-- A frame comes in: five turns become four. -/
theorem turn_arrives (hinv : s.server.Inv limit False) (hopen : s.server.transport.Open n)
    {e : ℕ × Bytes} (hfind : s.outgoing.find? (·.1 = n) = some e) {server : DatasoleServer}
    (hs : s.server.step (.receive n e.2) = some server) :
    Turn n s { s with server, outgoing := s.outgoing.erase e } := by
  obtain ⟨hopen', hsent⟩ := open_step hinv hopen rfl hs
  refine ⟨hopen', rfl, rfl, ?_⟩
  have hn : e.1 = n := by simpa using List.find?_some hfind
  have hout := countP_of_mem (p := fun x : ℕ × Bytes => decide (x.1 = n))
    (List.mem_of_find?_eq_some hfind) (decide_eq_true hn)
  have hwaiting : server.waiting.countP (·.connection = n) =
      s.server.waiting.countP (·.connection = n) + 1 := by
    rw [waiting_receive hs, List.countP_append]
    simp
  unfold Sys.work
  rw [hsent, hwaiting, hout]
  simp only [DatasoleServer.messageFor, List.append_nil]
  omega

/-- A message that waits is let through. Of its four turns a handling needs two, and a pong one. -/
theorem turn_limited (hinv : Inv pako text mine limit s) (hopen : s.server.transport.Open n)
    {message : Inbound} (hn : message.connection = n) {result : RateLimitResult}
    (hallowed : result.allowed = true) (ht : s.limited pako text message (some result) = some t) :
    Turn n s t := by
  obtain ⟨server, hs, ht⟩ := Option.bind_eq_some_iff.mp ht
  have hverdict : verdict pako text message.raw (some result) = .allowed := if_pos hallowed
  rw [hverdict] at hs ht
  obtain ⟨hopen', hsent⟩ := open_step hinv.server hopen rfl hs
  obtain ⟨hmem, hw⟩ := waiting_limited hs
  have hwaiting := countP_of_mem (p := fun m : Inbound => decide (m.connection = n)) hmem
    (decide_eq_true hn)
  rw [← hw] at hwaiting
  split at ht
  · next m _ hdispatch =>
    obtain ⟨server', hsend, rfl⟩ := Option.map_eq_some_iff.mp ht
    obtain rfl : m = n := (connection_of_dispatch hinv hdispatch).trans hn
    obtain ⟨hopen'', hsent'⟩ := open_sendAll (hinv.server.any_step hs) hopen' hsend
    refine ⟨hopen'', rfl, rfl, ?_⟩
    have hanswers := length_answeredAtOnce pako text message.raw
    have hrunning : (handlingOf pako text m message.raw).toList.countP (·.connection = m) ≤ 1 :=
      List.countP_le_length.trans (by cases handlingOf pako text m message.raw <;> simp)
    unfold Sys.work
    rw [hsent', hsent, waiting_sendAll hsend, hwaiting]
    simp only [DatasoleServer.messageFor, List.append_nil, List.length_append, List.countP_append]
    omega
  · cases ht
    refine ⟨hopen', rfl, rfl, ?_⟩
    unfold Sys.work
    rw [hsent, hwaiting]
    simp only [DatasoleServer.messageFor, List.append_nil]
    omega

/-- A handler settles: two turns become at most one, that of hearing the answer. -/
theorem turn_settles (hinv : s.server.Inv limit False) (hopen : s.server.transport.Open n) {i : ℕ}
    (hn : s.running[i]?.any (·.connection = n) = true) {outcome : Option (HandlerOutcome V)}
    (ht : s.settles pako text i outcome = some t) : Turn n s t := by
  unfold Sys.settles at ht
  cases hget : s.running[i]? with
  | none =>
    rw [hget] at ht
    cases ht
  | some x =>
    rw [hget] at hn
    simp only [hget] at ht
    obtain ⟨server, hsend, rfl⟩ := Option.map_eq_some_iff.mp ht
    have hx : decide (x.connection = n) = true := hn
    obtain rfl := of_decide_eq_true hx
    obtain ⟨hopen', hsent⟩ := open_sendAll hinv hopen hsend
    refine ⟨hopen', rfl, rfl, ?_⟩
    have hanswers := length_sendToConnection pako ⟨true⟩ .rpcRes x.correlationId
      ((x.request.dispatched outcome).serialize text)
    have hrunning := countP_of_get (p := fun h : Handling => decide (h.connection = x.connection))
      hget hx
    unfold Sys.work
    rw [hsent, waiting_sendAll hsend, List.length_append, hrunning]
    dsimp only
    omega

/-- A message is heard. -/
theorem turn_hears (hopen : s.server.transport.Open n) (ht : s.hears pako text stores n = some t) :
    Turn n s t := by
  have htaken := idsTaken_hears ht
  unfold Sys.hears at ht
  cases hmessage : (s.server.transport.sent n)[s.heard.countP (·.1 = n)]? with
  | none =>
    rw [hmessage] at ht
    cases ht
  | some message =>
    simp only [hmessage, Option.some.injEq] at ht
    subst ht
    refine ⟨hopen, rfl, htaken, ?_⟩
    obtain ⟨hlt, -⟩ := List.getElem?_eq_some_iff.mp hmessage
    unfold Sys.work
    have hheard : (s.heard ++ [(n, message)]).countP (·.1 = n) = s.heard.countP (·.1 = n) + 1 := by
      rw [List.countP_append]
      simp
    rw [hheard]
    dsimp only
    omega

/-- Every turn is one less, and drops no request. -/
theorem turn_step (hinv : Inv pako text mine limit s) (hopen : s.server.transport.Open n)
    {a : Act V}
    (hwork : isWork n s a = true) (hs : step pako text stores mine s a = some t) :
    Turn n s t ∧ letsThrough n a = true := by
  cases a with
  | arrives m =>
    obtain rfl : m = n := of_decide_eq_true hwork
    cases hfind : s.outgoing.find? (·.1 = m) with
    | none =>
      simp only [step, hfind] at hs
      cases hs
    | some e =>
      simp only [step, hfind, Option.map_eq_some_iff] at hs
      obtain ⟨server, hs, rfl⟩ := hs
      exact ⟨turn_arrives hinv.server hopen hfind hs, rfl⟩
  | limited message result =>
    simp only [isWork, Bool.and_eq_true, decide_eq_true_eq] at hwork
    obtain ⟨hn, hallowed⟩ := hwork
    cases result with
    | none => cases hallowed
    | some result =>
      have hlets : letsThrough (V := V) n (.limited message (some result)) = true := by
        simp only [letsThrough, Bool.or_eq_true]
        exact .inr hallowed
      exact ⟨turn_limited hinv hopen hn hallowed hs, hlets⟩
  | settles i outcome => exact ⟨turn_settles hinv.server hopen hwork hs, rfl⟩
  | hears m =>
    obtain rfl : m = n := of_decide_eq_true hwork
    simp only [step, Option.ite_none_right_eq_some] at hs
    exact ⟨turn_hears hopen hs.2, rfl⟩
  | server | broadcast | receive | call | emit | client => cases hwork

/-! ## There is a turn as long as there is work -/

/-- A frame on its way can come in. -/
theorem exists_arrives (hopen : s.server.transport.Open n) {e : ℕ × Bytes} (he : e ∈ s.outgoing)
    (hn : e.1 = n) : (step pako text stores mine s (.arrives n)).isSome = true := by
  have hlive := DatasoleServer.live_of_open hopen
  obtain ⟨e', hfind⟩ : ∃ e', s.outgoing.find? (·.1 = n) = some e' := by
    refine Option.isSome_iff_exists.mp (List.find?_isSome.mpr ⟨e, he, ?_⟩)
    exact decide_eq_true hn
  have hreceive : s.server.step (.receive n e'.2) = some _ := if_pos ⟨hlive.1, hlive.2⟩
  simp only [step, hfind, hreceive, Option.map_some, Option.isSome_some]

/-- A message that waits can be let through. -/
theorem exists_limited (hinv : Inv pako text mine limit s) {message : Inbound}
    (hmem : message ∈ s.server.waiting) :
    (step pako text stores mine s (.limited message (some RpcClient.roomLeft))).isSome = true := by
  have hverdict : verdict pako text message.raw (some RpcClient.roomLeft) = .allowed := rfl
  obtain ⟨server, hserver⟩ : ∃ server, s.server.step (.limited message .allowed) = some server :=
    ⟨_, if_pos hmem⟩
  simp only [step, Sys.limited, hverdict, hserver, Option.bind_some]
  split
  · next m _ hdispatch =>
    have hm := connection_of_dispatch hinv hdispatch
    have hmade := hinv.server.waiting message hmem
    have hmade' := (hinv.server.moves_step hmade hserver).isSome
    obtain ⟨v, hv⟩ := exists_sendAll (hinv.server.any_step hserver) (hm ▸ hmade')
      (answeredAtOnce pako text message.raw)
    rw [Sys.dispatch, hv]
    rfl
  · rfl

/-- A handler that runs can settle. -/
theorem exists_settles (hinv : s.server.Inv limit False) {i : ℕ} {h : Handling}
    (hget : s.running[i]? = some h) (hmade : (s.server.transport.conns h.connection).isSome) :
    (step pako text stores mine s (.settles i none)).isSome = true := by
  obtain ⟨v, hv⟩ := exists_sendAll hinv hmade (sendToConnection pako ⟨true⟩ .rpcRes h.correlationId
    ((h.request.dispatched (none : Option (HandlerOutcome V))).serialize text))
  simp only [step, Sys.settles, hget, hv, Option.map_some, Option.isSome_some]

/-- A message that was sent can be heard. -/
theorem exists_hears (hmine : mine n = true) (hmade : (s.server.transport.conns n).isSome)
    (hlt : s.heard.countP (·.1 = n) < (s.server.transport.sent n).length) :
    (step pako text stores mine s (.hears n)).isSome = true := by
  simp only [step, if_pos (And.intro hmine hmade), Sys.hears, List.getElem?_eq_getElem hlt,
    Option.isSome_some]

/-- With work to do there is a turn: at a frame on its way, else at a message that waits, else at a
handler, else at a message that was sent. -/
theorem exists_turn (hinv : Inv pako text mine limit s) (hkept : Kept pako text mine n s)
    (hmine : mine n = true) (hopen : s.server.transport.Open n) (hwork : s.work n ≠ 0) :
    ∃ a, isWork n s a = true ∧ (step pako text stores mine s a).isSome = true := by
  have hmade := (DatasoleServer.live_of_open hopen).1
  by_cases hout : s.outgoing.countP (·.1 = n) = 0
  · by_cases hwaiting : s.server.waiting.countP (·.connection = n) = 0
    · by_cases hrunning : s.running.countP (·.connection = n) = 0
      · refine ⟨.hears n, decide_eq_true rfl, exists_hears hmine hmade (not_le.mp fun hle => ?_)⟩
        exact hwork (work_eq_zero_iff.mpr ⟨hout, hwaiting, hrunning, hle⟩)
      · obtain ⟨h, hmem, hn⟩ := List.countP_pos_iff.mp (Nat.pos_of_ne_zero hrunning)
        obtain ⟨i, hi, rfl⟩ := List.getElem_of_mem hmem
        have hget := List.getElem?_eq_getElem hi
        refine ⟨.settles i none, ?_, exists_settles hinv.server hget ?_⟩
        · rw [isWork, hget]
          exact hn
        · exact hkept.made _ (List.mem_append_left _ hmem)
    · obtain ⟨message, hmem, hn⟩ := List.countP_pos_iff.mp (Nat.pos_of_ne_zero hwaiting)
      refine ⟨.limited message (some RpcClient.roomLeft), ?_, exists_limited hinv hmem⟩
      rw [isWork, hn]
      rfl
  · obtain ⟨e, he, hn⟩ := List.countP_pos_iff.mp (Nat.pos_of_ne_zero hout)
    exact ⟨.arrives n, decide_eq_true rfl, exists_arrives hopen he (of_decide_eq_true hn)⟩

/-! ## Turn after turn -/

/-- The state after so many turns. -/
structure Turns (pako : Pako) (text : JsonText V) (mine : ℕ → Bool) (limit n : ℕ) (s t : Sys V τ)
    (turns : ℕ) : Prop where
  inv : Inv pako text mine limit t
  kept : Kept pako text mine n t
  isOpen : t.server.transport.Open n
  asks : t.asks = s.asks
  idsTaken : t.client.1.idsTaken = s.client.1.idsTaken
  work : turns + t.work n ≤ s.work n

/-- Turn after turn there is less to do, and nothing is lost. -/
theorem turns_exec (hpako : pako.Lawful) (hreads : text.Reads) (hinv : Inv pako text mine limit s)
    (hkept : Kept pako text mine n s) (hopen : s.server.transport.Open n)
    (hfew : s.client.1.idsTaken < 2 ^ 32) {more : List (Act V)}
    (hwork : Machine.Guarded (step pako text stores mine) (fun s a => isWork n s a = true) s more)
    (hmore : Machine.exec (step pako text stores mine) s more = some t) :
    Turns pako text mine limit n s t more.length := by
  induction more generalizing s with
  | nil =>
    cases hmore
    exact ⟨hinv, hkept, hopen, rfl, rfl, (Nat.zero_add _).le⟩
  | cons a more ih =>
    obtain ⟨u, hu, hmore⟩ := Machine.exec_cons_eq_some.mp hmore
    obtain ⟨hturn, hlets⟩ := turn_step hinv hopen hwork.1 hu
    have hfew' : u.client.1.idsTaken < 2 ^ 32 := hturn.idsTaken ▸ hfew
    have hrest := ih (inv_step hpako hreads hinv hu hfew')
      (kept_step hpako hreads hinv hkept hlets hu hfew') hturn.isOpen hfew' (hwork.2 u hu) hmore
    refine ⟨hrest.inv, hrest.kept, hrest.isOpen, hrest.asks.trans hturn.asks,
      hrest.idsTaken.trans hturn.idsTaken, ?_⟩
    have hless := hturn.work
    have hle := hrest.work
    rw [List.length_cons]
    omega

/-- Without work nothing is under way, and the client has got everything. -/
theorem Kept.settled_of_no_work (h : Kept pako text mine n s) (hinv : Inv pako text mine limit s)
    (hfew : s.client.1.idsTaken < 2 ^ 32) (hmine : mine n = true) (hopen : s.server.transport.Open n)
    (hwork : s.work n = 0) {x : Handling} (hx : x ∈ s.asks) (hn : x.connection = n) :
    ∃ outcome, (x, outcome) ∈ s.finished ∧ (CanAnswer text (x, outcome) →
      ∃ q, (q, x.request) ∈ s.requests ∧ x.correlationId = q.number ∧
        q.call ∈ s.client.1.settledCalls) := by
  obtain ⟨hout, hwaiting, hrunning, hheard⟩ := work_eq_zero_iff.mp hwork
  rcases h.not_lost hinv hfew hmine hopen hx hn with
    (⟨e, he, hhandling⟩ | ⟨m, hm, hhandling⟩ | hmem) | ⟨outcome, hf, hanswering⟩
  · have hconnection := (handlingOf_eq_some hhandling).1
    exact absurd (decide_eq_true (hconnection.symm.trans hn)) (List.countP_eq_zero.mp hout e he)
  · have hconnection := (handlingOf_eq_some hhandling).1
    exact absurd (decide_eq_true (hconnection.symm.trans hn)) (List.countP_eq_zero.mp hwaiting m hm)
  · exact absurd (decide_eq_true hn) (List.countP_eq_zero.mp hrunning x hmem)
  · refine ⟨outcome, hf, fun hcan => ?_⟩
    rcases hanswering hcan with ⟨message, hmem, -⟩ | hsettled
    · have hlength : (s.heardOn n).length = s.heard.countP (·.1 = n) := by
        rw [Sys.heardOn, List.length_map, List.countP_eq_length_filter]
      rw [hn, List.drop_eq_nil_of_le (hlength ▸ hheard)] at hmem
      cases hmem
    · exact hsettled

end

/-- The turns on a connection are at most as many as `Sys.work` counts; as long as it counts any,
one of them can be taken; and when it counts none, every request sent on the connection has been
handled, and its call is settled if the response can be written. So it is from the end of every run
on, for every connection of the client that is open and on which the limiter has let everything
through. -/
theorem calls_come_to_an_end {pako : Pako} (hpako : pako.Lawful) {text : JsonText V}
    (hreads : text.Reads) (stores : ClientStores τ) (mine : ℕ → Bool) {model : Option String}
    {executor : ConnectionExecutor} (hmodel : ConnectionExecutor.create model = .ok executor)
    (maxConnections : ℕ) (now : ℤ) (others : τ) (acts : List (Act V)) (s : Sys V τ)
    (hrun : Machine.exec (step pako text stores mine) (init (.new maxConnections executor now) others)
      acts = some s)
    (hfew : s.client.1.idsTaken < 2 ^ 32) (n : ℕ) (hmine : mine n = true)
    (hopen : s.server.transport.Open n) (hlets : ∀ a ∈ acts, letsThrough n a = true)
    (more : List (Act V)) (t : Sys V τ)
    (hwork : Machine.Guarded (step pako text stores mine) (fun s a => isWork n s a = true) s more)
    (hmore : Machine.exec (step pako text stores mine) s more = some t) :
    more.length ≤ s.work n ∧
      (t.work n ≠ 0 →
        ∃ a, isWork n t a = true ∧ (step pako text stores mine t a).isSome = true) ∧
      (t.work n = 0 → ∀ h ∈ s.asks, h.connection = n →
        ∃ outcome, (h, outcome) ∈ t.finished ∧ (CanAnswer text (h, outcome) →
          ∃ q, (q, h.request) ∈ t.requests ∧ h.correlationId = q.number ∧
            q.call ∈ t.client.1.settledCalls)) := by
  obtain ⟨hinv, hkept⟩ := inv_kept_exec hpako hreads hmodel hrun hfew hlets
  have hturns := turns_exec hpako hreads hinv hkept hopen hfew hwork hmore
  have hfew' : t.client.1.idsTaken < 2 ^ 32 := hturns.idsTaken ▸ hfew
  refine ⟨(Nat.le_add_right _ _).trans hturns.work,
    exists_turn hturns.inv hturns.kept hmine hturns.isOpen, fun hdone h hasked hn => ?_⟩
  exact hturns.kept.settled_of_no_work hturns.inv hfew' hmine hturns.isOpen hdone
    (hturns.asks ▸ hasked) hn

/-- The turns after the first call. -/
def turnsOfFirst : List (Act ℕ) :=
  [.arrives 1, .limited ⟨0, 1, askingMessage "x"⟩ (some RpcClient.roomLeft),
    .settles 0 (some (.resolves 3)), .hears 1]

/-- The first call of the example comes to an end in four turns. -/
theorem first_call_comes_to_an_end : ∃ s t h,
    Machine.exec (step plainPako callText RpcClient.noStores (· = 1)) (init (.new 10 (.async .new) 0) ())
        (twoCallers.take 6) = some s ∧
      Machine.exec (step plainPako callText RpcClient.noStores (· = 1)) s turnsOfFirst = some t ∧
      turnsOfFirst.length ≤ s.work 1 ∧ t.work 1 = 0 ∧ h ∈ s.asks ∧
      ∃ outcome, (h, outcome) ∈ t.finished ∧ (CanAnswer callText (h, outcome) →
        ∃ q, (q, h.request) ∈ t.requests ∧ h.correlationId = q.number ∧
          q.call ∈ t.client.1.settledCalls) := by
  have htest : ((Machine.exec (step plainPako callText RpcClient.noStores (· = 1))
      (init (.new 10 (.async .new) 0) ()) (twoCallers.take 6)).bind fun s =>
        (Machine.exec (step plainPako callText RpcClient.noStores (· = 1)) s turnsOfFirst).map fun t =>
          decide (Machine.Guarded (step plainPako callText RpcClient.noStores (· = 1))
              (fun s a => isWork 1 s a = true) s turnsOfFirst ∧
            s.client.1.idsTaken = 1 ∧ s.asks.map (·.connection) = [1] ∧ t.work 1 = 0 ∧
            (s.server.transport.conns 1).any (·.ws) = true ∧
            (s.server.transport.wsServer.clients 1).readyState = .open)) = some true := by
    decide +kernel
  obtain ⟨s, hrun, htest⟩ := Option.bind_eq_some_iff.mp htest
  obtain ⟨t, hmore, htest⟩ := Option.map_eq_some_iff.mp htest
  obtain ⟨hwork, htaken, hasks, hdone, hopen⟩ := of_decide_eq_true htest
  have hmodel : ConnectionExecutor.create none = .ok (.async .new) := rfl
  obtain ⟨h, hasked, hn⟩ := List.mem_map.mp (hasks ▸ List.mem_singleton_self 1)
  obtain ⟨hlength, -, hsettled⟩ := calls_come_to_an_end plainPako_lawful callText_reads
    RpcClient.noStores (· = 1) hmodel 10 0 () (twoCallers.take 6) s hrun (by rw [htaken]; norm_num) 1 rfl
    hopen (by decide +kernel) turnsOfFirst t hwork hmore
  exact ⟨s, t, h, hrun, hmore, hlength, hdone, hasked, hsettled hdone h hasked hn⟩

end Datasole.RemoteCalls
