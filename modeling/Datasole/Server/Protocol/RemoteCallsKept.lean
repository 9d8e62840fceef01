import Datasole.Server.Protocol.RemoteCallsRun

/-!
# What becomes of a call

`calls_are_not_lost`: a request that goes out on a connection that stays open, where the limiter
lets everything through, is on its way, in the pipeline or with its handler; or the handler has
settled and, if its response can be written, the answer is on its way to the client or the call is
settled.
-/

namespace Datasole

open FramePipeline (Inbound)

namespace RemoteCalls

variable {V τ : Type*}

/-- The limiter turns nothing away that comes in on the connection. -/
def letsThrough (n : ℕ) : Act V → Bool
  | .limited message result => message.connection ≠ n || result.any (·.allowed)
  | _ => true

/-- What the client has got on a connection. -/
def Sys.heardOn (s : Sys V τ) (n : ℕ) : List Bytes := (s.heard.filter (·.1 = n)).map Prod.snd

/-- On its way, in the pipeline or with its handler. -/
def Sys.UnderWay (pako : Pako) (text : JsonText V) (s : Sys V τ) (h : Handling) : Prop :=
  (∃ e ∈ s.outgoing, handlingOf pako text e.1 e.2 = some h) ∨
    (∃ m ∈ s.server.waiting, handlingOf pako text m.connection m.raw = some h) ∨ h ∈ s.running

/-- The response that the handling ends with can be written. -/
def CanAnswer (text : JsonText V) (f : Handling × Option (HandlerOutcome V)) : Prop :=
  Writable ((f.1.request.dispatched f.2).serialize text)

/-- What is kept of the requests on a connection. -/
structure Kept (pako : Pako) (text : JsonText V) (mine : ℕ → Bool) (n : ℕ)
    (s : Sys V τ) : Prop where
  asks : s.server.NotClosed n → ∀ h ∈ s.asks, h.connection = n → h ∈ s.tokens pako text mine
  made : ∀ h ∈ s.running ++ s.finished.map Prod.fst, (s.server.transport.conns h.connection).isSome
  answered : s.server.transport.Open n → ∀ f ∈ s.finished, f.1.connection = n → CanAnswer text f →
    ∃ message ∈ s.server.transport.sent n, IsAnswer pako f.1.correlationId message
  heard : s.heardOn n <+: s.server.transport.sent n
  unheard : s.server.transport.conns n = none → s.heardOn n = []

section

variable {pako : Pako} {text : JsonText V} {stores : ClientStores τ} {mine : ℕ → Bool} {s t : Sys V τ}
variable {limit n : ℕ}

/-! ## One step -/

/-- A step that does not close the connection. -/
theorem open_step {u v : DatasoleServer} {a : DatasoleServer.Act} (hinv : u.Inv limit False)
    (hopen : u.transport.Open n) (hcloses : DatasoleServer.closes n a = false) (hs : u.step a = some v) :
    v.transport.Open n ∧
      v.transport.sent n = u.transport.sent n ++ DatasoleServer.messageFor n a := by
  have hmoves := hinv.moves_step (DatasoleServer.live_of_open hopen).1 hs
  exact ⟨hmoves.isOpen.mpr ⟨hopen, by rw [hcloses]; rfl⟩, hmoves.sent_of_open hopen⟩

/-- Messages that are sent on an open connection are sent, in order, and it stays open. -/
theorem open_sendAll {u v : DatasoleServer} {messages : List Bytes} (hinv : u.Inv limit False)
    (hopen : u.transport.Open n) (hs : sendAll u n messages = some v) :
    v.transport.Open n ∧ v.transport.sent n = u.transport.sent n ++ messages := by
  unfold sendAll at hs
  induction messages generalizing u with
  | nil =>
    cases hs
    exact ⟨hopen, (List.append_nil _).symm⟩
  | cons message messages ih =>
    obtain ⟨w, hw, hs⟩ := Machine.exec_cons_eq_some.mp hs
    obtain ⟨hopen', hsent⟩ := open_step hinv hopen rfl hw
    obtain ⟨hopen'', hsent'⟩ := ih (hinv.any_step hw) hopen' hs
    refine ⟨hopen'', ?_⟩
    rw [hsent', hsent]
    simp [DatasoleServer.messageFor]

/-- A token is a request under way, or one that its handler is done with. -/
theorem underWay_of_mem_tokens {h : Handling} (hmem : h ∈ s.tokens pako text mine) :
    s.UnderWay pako text h ∨ ∃ outcome, (h, outcome) ∈ s.finished := by
  unfold Sys.tokens at hmem
  rcases Multiset.mem_add.mp hmem with hmem | hmem
  · rcases Multiset.mem_add.mp hmem with hmem | hmem
    · obtain ⟨e, he, htoken⟩ := (Multiset.mem_filterMap _ _).mp hmem
      exact .inl (.inl ⟨e, he, handlingOf_of_token htoken⟩)
    · obtain ⟨m, hm, htoken⟩ := (Multiset.mem_filterMap _ _).mp hmem
      exact .inl (.inr (.inl ⟨m, hm, handlingOf_of_token htoken⟩))
  · rcases List.mem_append.mp (Multiset.mem_filter.mp hmem).1 with hmem | hmem
    · exact .inl (.inr (.inr hmem))
    · obtain ⟨⟨h, outcome⟩, hf, rfl⟩ := List.mem_map.mp hmem
      exact .inr ⟨outcome, hf⟩

theorem heardOn_congr (hheard : t.heard = s.heard) : t.heardOn n = s.heardOn n := by
  unfold Sys.heardOn
  rw [hheard]

/-- What the server does, as long as no request is dropped on the connection and all that are done
with are answered. -/
theorem Kept.of_server (h : Kept pako text mine n s) (hinv : s.server.Inv limit False)
    (acts : List DatasoleServer.Act)
    (hrun : Machine.exec DatasoleServer.step s.server acts = some t.server)
    (hheard : t.heard = s.heard) (hasks : t.asks = s.asks)
    (hmade : ∀ x ∈ t.running ++ t.finished.map Prod.fst, (t.server.transport.conns x.connection).isSome)
    (hanswered : t.server.transport.Open n → ∀ f ∈ t.finished, f ∉ s.finished → f.1.connection = n →
      CanAnswer text f → ∃ message ∈ t.server.transport.sent n, IsAnswer pako f.1.correlationId message)
    (htokens : t.server.NotClosed n → ∀ x ∈ s.tokens pako text mine, x.connection = n →
      x ∈ t.tokens pako text mine) : Kept pako text mine n t where
  asks hopen x hx hn := by
    rw [hasks] at hx
    exact htokens hopen x (h.asks (hinv.notClosed_of_exec hrun hopen) x hx hn) hn
  made := hmade
  answered hopen f hf hn hcan := by
    by_cases hold : f ∈ s.finished
    · have hsome := h.made f.1 (List.mem_append_right _ (List.mem_map_of_mem hold))
      rw [hn] at hsome
      obtain ⟨-, hopen', hsent⟩ := hinv.onward hsome hrun
      obtain ⟨message, hmem, hanswer⟩ := h.answered (hopen' hopen) f hold hn hcan
      exact ⟨message, hsent.subset hmem, hanswer⟩
    · exact hanswered hopen f hf hold hn hcan
  heard := by
    rw [heardOn_congr hheard]
    cases hconn : s.server.transport.conns n with
    | none =>
      rw [h.unheard hconn]
      exact List.nil_prefix
    | some conn =>
      obtain ⟨-, -, hsent⟩ := hinv.onward (Option.isSome_of_eq_some hconn) hrun
      exact h.heard.trans hsent
  unheard hnone := by
    rw [heardOn_congr hheard]
    cases hconn : s.server.transport.conns n with
    | none => exact h.unheard hconn
    | some conn =>
      obtain ⟨hsome, -, -⟩ := hinv.onward (Option.isSome_of_eq_some hconn) hrun
      rw [hnone] at hsome
      cases hsome

/-- The handlings stay, and the connections that they came in on stay made. -/
theorem Kept.made_exec (h : Kept pako text mine n s) (hinv : s.server.Inv limit False)
    {acts : List DatasoleServer.Act} {server : DatasoleServer}
    (hrun : Machine.exec DatasoleServer.step s.server acts = some server) :
    ∀ x ∈ s.running ++ s.finished.map Prod.fst, (server.transport.conns x.connection).isSome :=
  fun x hx => (hinv.onward (h.made x hx) hrun).1

/-- One step of the server that finishes nothing. -/
theorem Kept.of_step (h : Kept pako text mine n s) (hinv : s.server.Inv limit False)
    {server : DatasoleServer} {outgoing : List (ℕ × Bytes)} {a : DatasoleServer.Act}
    (hs : s.server.step a = some server)
    (htokens : server.NotClosed n → ∀ x ∈ s.tokens pako text mine, x.connection = n →
      x ∈ Sys.tokens pako text mine { s with server, outgoing }) :
    Kept pako text mine n { s with server, outgoing } := by
  have hrun : Machine.exec DatasoleServer.step s.server [a] = some server :=
    Machine.exec_cons_eq_some.mpr ⟨server, hs, rfl⟩
  exact h.of_server hinv [a] hrun rfl rfl (h.made_exec hinv hrun)
    (fun _ f hf hnot => absurd hf hnot) htokens

/-- The server acts without the calls. -/
theorem Kept.server_step (h : Kept pako text mine n s) (hinv : s.server.Inv limit False)
    {a : DatasoleServer.Act} (hreceive : ∀ n raw, a ≠ .receive n raw)
    (hlimited : ∀ message x, a ≠ .limited message x) {server : DatasoleServer}
    (hs : s.server.step a = some server) : Kept pako text mine n { s with server } :=
  h.of_step hinv hs fun _ x hx _ => by
    rw [← tokens_server (waiting_step hs hreceive hlimited)] at hx
    exact hx

/-- A frame comes from someone else. -/
theorem Kept.receive (h : Kept pako text mine n s) (hinv : s.server.Inv limit False) {m : ℕ}
    {raw : Bytes}
    (hmine : ¬ mine m = true) {server : DatasoleServer}
    (hs : s.server.step (.receive m raw) = some server) : Kept pako text mine n { s with server } :=
  h.of_step hinv hs fun _ x hx _ => by
    rw [← tokens_receive hmine hs] at hx
    exact hx

/-- A frame of the client comes in: its request is in the pipeline now. -/
theorem Kept.arrives (h : Kept pako text mine n s) (hinv : s.server.Inv limit False) {m : ℕ}
    {e : ℕ × Bytes} (hfind : s.outgoing.find? (·.1 = m) = some e) {server : DatasoleServer}
    (hs : s.server.step (.receive m e.2) = some server) :
    Kept pako text mine n { s with server, outgoing := s.outgoing.erase e } :=
  h.of_step hinv hs fun _ x hx _ => by
    rw [← tokens_arrives hfind hs] at hx
    exact hx

/-- A message of another connection that goes nowhere. -/
theorem Kept.dropped (h : Kept pako text mine n s) (hinv : s.server.Inv limit False)
    {message : Inbound}
    {x : Verdict} {server : DatasoleServer} (hs : s.server.step (.limited message x) = some server)
    (hne : server.NotClosed n → message.connection ≠ n) : Kept pako text mine n { s with server } := by
  obtain ⟨hmem, hw⟩ := waiting_limited hs
  refine h.of_step hinv hs fun hopen y hy hn => ?_
  rw [tokens_erase hmem hw] at hy
  rcases Multiset.mem_add.mp hy with hy | hy
  · exact hy
  · have hconnection := (handlingOf_eq_some (handlingOf_of_token (Option.mem_toList.mp hy))).1
    exact absurd (hconnection.symm.trans hn) (hne hopen)

/-- A request gets to its handler, or is none. -/
theorem Kept.dispatch (h : Kept pako text mine n s) (hinv : s.server.Inv limit False)
    {message : Inbound}
    {server : DatasoleServer} (hs : s.server.step (.limited message .allowed) = some server)
    (ht : Sys.dispatch pako text { s with server } message.connection message.raw = some t) :
    Kept pako text mine n t := by
  obtain ⟨hmem, hw⟩ := waiting_limited hs
  obtain ⟨server', hsend, rfl⟩ := Option.map_eq_some_iff.mp ht
  have hw' : server'.waiting = s.server.waiting.erase message := (waiting_sendAll hsend).trans hw
  have hrun := exec_sendAll hs hsend
  refine h.of_server hinv _ hrun rfl rfl (fun x hx => ?_) (fun _ f hf hnot => absurd hf hnot)
    fun _ x hx _ => ?_
  · rcases List.mem_append.mp hx with hx | hx
    · rcases List.mem_append.mp hx with hx | hx
      · exact h.made_exec hinv hrun x (List.mem_append_left _ hx)
      · rw [(handlingOf_eq_some (Option.mem_toList.mp hx)).1]
        exact (hinv.onward (hinv.waiting message hmem) hrun).1
    · exact h.made_exec hinv hrun x (List.mem_append_right _ hx)
  · rw [← tokens_handed hmem hw'] at hx
    exact hx

/-- The limiter lets a request of the connection through, or decides on another message. -/
theorem Kept.limited (h : Kept pako text mine n s) (hinv : Inv pako text mine limit s)
    {message : Inbound}
    {result : Option RateLimitResult}
    (hlets : letsThrough (V := V) n (.limited message result) = true)
    (ht : s.limited pako text message result = some t) : Kept pako text mine n t := by
  obtain ⟨server, hs, ht⟩ := Option.bind_eq_some_iff.mp ht
  split at ht
  · next m hverdict hdispatch =>
    obtain rfl := connection_of_dispatch hinv hdispatch
    exact h.dispatch hinv.server (hverdict ▸ hs) ht
  · next hnot =>
    cases ht
    refine h.dropped hinv.server hs fun hopen hn => ?_
    -- the limiter has let it through, and the executor knows the open connection
    have hverdict : verdict pako text message.raw result = .allowed := by
      cases result with
      | none => simp [letsThrough, hn] at hlets
      | some result =>
        have hallowed : result.allowed = true := by simpa [letsThrough, hn] using hlets
        exact if_pos hallowed
    obtain ⟨hmem, -⟩ := waiting_limited hs
    have hrun : Machine.exec DatasoleServer.step s.server [.limited message (verdict pako text
        message.raw result)] = some server := Machine.exec_cons_eq_some.mpr ⟨server, hs, rfl⟩
    have hmade := hinv.server.waiting message hmem
    have hlive : s.server.transport.Live message.connection := by
      rcases hinv.server.notClosed_of_exec hrun hopen with hnone | hopen
      · rw [← hn] at hnone
        rw [hnone] at hmade
        cases hmade
      · exact hn ▸ DatasoleServer.live_of_open hopen
    refine hnot message.connection hverdict ?_
    rw [hinv.server.dispatch]
    exact (hinv.server.get_connectionId _).mpr hlive

/-- A handler settles, and its response is sent if it can be written. -/
theorem Kept.settles (h : Kept pako text mine n s) (hpako : pako.Lawful)
    (hinv : Inv pako text mine limit s) {i : ℕ} {outcome : Option (HandlerOutcome V)}
    (ht : s.settles pako text i outcome = some t) : Kept pako text mine n t := by
  unfold Sys.settles at ht
  cases hget : s.running[i]? with
  | none =>
    rw [hget] at ht
    cases ht
  | some x =>
    simp only [hget] at ht
    obtain ⟨server, hsend, rfl⟩ := Option.map_eq_some_iff.mp ht
    have hx := List.mem_of_getElem? hget
    refine h.of_server hinv.server _ hsend rfl rfl (fun y hy => ?_) ?_ fun _ y hy _ => ?_
    · refine h.made_exec hinv.server hsend y ?_
      simp only [List.map_append, List.map_cons, List.map_nil, List.mem_append,
        List.mem_singleton] at hy ⊢
      rcases hy with hy | hy | rfl
      · exact .inl (List.mem_of_mem_eraseIdx hy)
      · exact .inr hy
      · exact .inl hx
    · rintro hopen f hf hnew rfl ⟨bytes, hbytes, hlen⟩
      obtain rfl : f = (x, outcome) := by
        rcases List.mem_append.mp hf with hf | hf
        · exact absurd hf hnew
        · exact List.mem_singleton.mp hf
      obtain ⟨hnonneg, hlt⟩ := hinv.valid x hx
      have hmade := h.made x (List.mem_append_left _ hx)
      refine ⟨pako.compressLarge (Frame.bytes ⟨.rpcRes, x.correlationId, bytes⟩), ?_, bytes,
        hpako.decodeMessage_pack ⟨hnonneg, hlt, hlen⟩⟩
      obtain ⟨-, hopen', -⟩ := hinv.server.onward hmade hsend
      obtain ⟨-, hsent⟩ := open_sendAll hinv.server (hopen' hopen) hsend
      dsimp only at hbytes
      change _ ∈ server.transport.sent x.connection
      rw [hsent, hbytes, sendToConnection_of_writable rfl _ _ hlen]
      exact List.mem_append_right _ List.mem_cons_self
    · rw [← tokens_settled hget (waiting_sendAll hsend)] at hy
      exact hy

/-- What the client does that asks for nothing new. -/
theorem Kept.of_client (h : Kept pako text mine n s) {client : RpcClient.Sys × τ}
    {outgoing : List (ℕ × Bytes)}
    (htokens : Sys.tokens pako text mine { s with client, outgoing } = s.tokens pako text mine) :
    Kept pako text mine n { s with client, outgoing } :=
  { h with asks := fun hopen x hx hn => htokens ▸ h.asks hopen x hx hn }

/-- An event of the client is no request. -/
theorem Kept.emit (h : Kept pako text mine n s) (hpako : pako.Lawful) (event : String)
    (data : Option Json) (via : ℕ) : Kept pako text mine n (s.emit pako text event data via) := by
  rcases emit_cases hpako mine s event data via with heq | ⟨message, heq, htokens⟩
  · rw [heq]
    exact h
  · rw [heq]
    exact h.of_client htokens

/-- A request that goes out. -/
theorem Kept.sends (h : Kept pako text mine n s) (client : RpcClient.Sys) {q : RpcClient.Request}
    {request : RpcRequest}
    (hhandling : ∀ n, handlingOf pako text n (pako.compressLarge q.frame) = some ⟨n, q.number, request⟩)
    {via : Option ℕ} (hvia : via.all mine = true) :
    Kept pako text mine n (s.withSent pako client request [q] via) :=
  { h with
    asks := fun hopen x hx hn => by
      rw [tokens_withSent s client hhandling hvia]
      rcases List.mem_append.mp hx with hx | hx
      · exact Multiset.mem_add.mpr (.inl (h.asks hopen x hx hn))
      · refine Multiset.mem_add.mpr (.inr ?_)
        simpa using hx }

/-- The client hears the next message, and an answer settles its call. -/
theorem Kept.hears (h : Kept pako text mine n s) {m : ℕ}
    (hmade : (s.server.transport.conns m).isSome)
    (ht : s.hears pako text stores m = some t) : Kept pako text mine n t := by
  unfold Sys.hears at ht
  cases hmessage : (s.server.transport.sent m)[s.heard.countP (·.1 = m)]? with
  | none =>
    rw [hmessage] at ht
    cases ht
  | some message =>
    simp only [hmessage, Option.some.injEq] at ht
    subst ht
    by_cases hn : m = n
    · subst hn
      have hheard : Sys.heardOn { s with heard := s.heard ++ [(m, message)] } m =
          s.heardOn m ++ [message] := by
        simp [Sys.heardOn]
      refine { h with heard := ?_, unheard := fun hnone => ?_ }
      · change Sys.heardOn { s with heard := s.heard ++ [(m, message)] } m <+: _
        rw [hheard]
        obtain ⟨rest, hrest⟩ := h.heard
        have hlength : s.heard.countP (·.1 = m) = (s.heardOn m).length := by
          rw [Sys.heardOn, List.length_map, List.countP_eq_length_filter]
        rw [hlength, ← hrest, List.getElem?_append_right le_rfl, Nat.sub_self] at hmessage
        cases rest with
        | nil => cases hmessage
        | cons first rest =>
          cases hmessage
          exact ⟨rest, (List.append_assoc _ _ _).trans hrest⟩
      · change s.server.transport.conns m = none at hnone
        rw [hnone] at hmade
        cases hmade
    · have hheard : Sys.heardOn { s with heard := s.heard ++ [(m, message)] } n = s.heardOn n := by
        simp [Sys.heardOn, hn]
      exact
        { h with
          heard := hheard ▸ h.heard
          unheard := fun hnone => hheard ▸ h.unheard hnone }

/-- Every step keeps it that drops no request of the connection. -/
theorem kept_step (hpako : pako.Lawful) (hreads : text.Reads) (hinv : Inv pako text mine limit s)
    (h : Kept pako text mine n s) {a : Act V} (hlets : letsThrough n a = true)
    (hs : step pako text stores mine s a = some t) (hfew : t.client.1.idsTaken < 2 ^ 32) :
    Kept pako text mine n t := by
  cases a with
  | server a =>
    simp only [step, Option.ite_none_right_eq_some, Option.map_eq_some_iff] at hs
    obtain ⟨houter, server, hs, rfl⟩ := hs
    refine h.server_step hinv.server ?_ ?_ hs
    · -- what may happen to the server by itself neither receives nor decides
      rintro m raw rfl
      cases houter
    · rintro message x rfl
      cases houter
  | broadcast b =>
    simp only [step, Option.map_eq_some_iff] at hs
    obtain ⟨server, hs, rfl⟩ := hs
    -- a broadcast that cannot be written is not sent
    rcases broadcast_cases hs with rfl | ⟨data, -, hs⟩
    · exact h
    · refine h.server_step hinv.server ?_ ?_ hs
      · exact fun _ _ => DatasoleServer.Act.noConfusion
      · exact fun _ _ => DatasoleServer.Act.noConfusion
  | receive m raw =>
    simp only [step, Option.ite_none_left_eq_some, Option.map_eq_some_iff] at hs
    obtain ⟨hmine, server, hs, rfl⟩ := hs
    exact h.receive hinv.server hmine hs
  | arrives m =>
    cases hfind : s.outgoing.find? (·.1 = m) with
    | none =>
      simp only [step, hfind] at hs
      cases hs
    | some e =>
      simp only [step, hfind, Option.map_eq_some_iff] at hs
      obtain ⟨server, hs, rfl⟩ := hs
      exact h.arrives hinv.server hfind hs
  | limited message result => exact h.limited hinv hlets hs
  | settles i outcome => exact h.settles hpako hinv hs
  | call method params timeout sending via =>
    simp only [step, Option.ite_none_right_eq_some, Option.some.injEq] at hs
    obtain ⟨hvia, rfl⟩ := hs
    -- a call that cannot be written takes an id and sends nothing
    obtain ⟨request, client, -, ⟨heq, -⟩ | ⟨q, heq, -, -, hhandling⟩⟩ :=
      hinv.call_cases hpako hreads method params timeout sending via hfew
    · rw [heq]
      exact h.of_client rfl
    · rw [heq]
      exact h.sends client hhandling hvia
  | emit event data via =>
    simp only [step, Option.ite_none_right_eq_some, Option.some.injEq] at hs
    obtain ⟨-, rfl⟩ := hs
    exact h.emit hpako event data via
  | hears m =>
    simp only [step, Option.ite_none_right_eq_some] at hs
    obtain ⟨⟨-, hmade⟩, hs⟩ := hs
    exact h.hears hmade hs
  | client a =>
    simp only [step, Option.ite_none_right_eq_some, Option.map_eq_some_iff] at hs
    obtain ⟨-, client, -, rfl⟩ := hs
    exact h.of_client rfl

/-- There are no requests yet. -/
theorem kept_init (server : DatasoleServer) (others : τ) :
    Kept pako text mine n (init (V := V) server others) where
  asks _ _ hx := by cases hx
  made _ hx := by cases hx
  answered _ _ hf := by cases hf
  heard := List.nil_prefix
  unheard _ := rfl

/-- Its answer is on its way, or the call is settled. -/
def Sys.Answering (pako : Pako) (s : Sys V τ) (h : Handling) : Prop :=
  (∃ message ∈ (s.server.transport.sent h.connection).drop (s.heardOn h.connection).length,
      IsAnswer pako h.correlationId message) ∨
    ∃ q, (q, h.request) ∈ s.requests ∧ h.correlationId = q.number ∧ q.call ∈ s.client.1.settledCalls

/-- What its handler is done with is answered, or the answer is on its way. -/
theorem Kept.answering (h : Kept pako text mine n s) (hinv : Inv pako text mine limit s)
    (hfew : s.client.1.idsTaken < 2 ^ 32) (hmine : mine n = true) (hopen : s.server.transport.Open n)
    {f : Handling × Option (HandlerOutcome V)} (hf : f ∈ s.finished) (hn : f.1.connection = n)
    (hcan : CanAnswer text f) : s.Answering pako f.1 := by
  subst hn
  obtain ⟨message, hmem, payload, hdecode⟩ := h.answered hopen f hf rfl hcan
  obtain ⟨rest, hrest⟩ := h.heard
  rw [← hrest] at hmem
  rcases List.mem_append.mp hmem with hmem | hmem
  · right
    obtain ⟨e, he, rfl⟩ := List.mem_map.mp hmem
    obtain ⟨x, hx, hid, hsettled⟩ :=
      (hinv.handled hfew).heard e (List.mem_of_mem_filter he) _ payload hdecode
    obtain ⟨q, hq, hid'⟩ := hinv.asked_of_finished hf hmine
    have hsame : x = (q, f.1.request) :=
      List.inj_on_of_nodup_map hinv.numbers hx hq (Nat.cast_inj.mp (hid.trans hid'))
    rw [hsame] at hsettled
    exact ⟨q, hq, hid', hsettled⟩
  · refine .inl ⟨message, ?_, payload, hdecode⟩
    rw [← hrest, List.drop_left]
    exact hmem

/-! ## Over a run -/

/-- Every run keeps both invariants that drops no request of the connection. -/
theorem inv_kept_exec (hpako : pako.Lawful) (hreads : text.Reads) {model : Option String}
    {executor : ConnectionExecutor} (hmodel : ConnectionExecutor.create model = .ok executor)
    {now : ℤ} {others : τ} {acts : List (Act V)}
    (hrun : Machine.exec (step pako text stores mine) (init (.new limit executor now) others) acts =
      some s)
    (hfew : s.client.1.idsTaken < 2 ^ 32) (hlets : ∀ a ∈ acts, letsThrough n a = true) :
    Inv pako text mine limit s ∧ Kept pako text mine n s := by
  have hkept := Machine.exec_history
    (I := fun as s => s.client.1.idsTaken < 2 ^ 32 → (∀ a ∈ as, letsThrough n a = true) →
      Inv pako text mine limit s ∧ Kept pako text mine n s)
    (fun as s a t ih hs hfew hlets => by
      obtain ⟨hinv, hkept⟩ := ih ((idsTaken_le_step hs).trans_lt hfew)
        fun b hb => hlets b (List.mem_append_left _ hb)
      have ha := hlets a (List.mem_append_right _ List.mem_cons_self)
      exact ⟨inv_step hpako hreads hinv hs hfew, kept_step hpako hreads hinv hkept ha hs hfew⟩)
    (fun _ _ => ⟨inv_init hmodel limit now others, kept_init _ others⟩) hrun
  exact hkept hfew hlets

/-- So a request is still under way, or its handler is done with it and it is answered. -/
theorem Kept.not_lost (h : Kept pako text mine n s) (hinv : Inv pako text mine limit s)
    (hfew : s.client.1.idsTaken < 2 ^ 32) (hmine : mine n = true) (hopen : s.server.transport.Open n)
    {x : Handling} (hx : x ∈ s.asks) (hn : x.connection = n) :
    s.UnderWay pako text x ∨
      ∃ outcome, (x, outcome) ∈ s.finished ∧ (CanAnswer text (x, outcome) → s.Answering pako x) := by
  rcases underWay_of_mem_tokens (h.asks (.inr hopen) x hx hn) with hway | ⟨outcome, hf⟩
  · exact .inl hway
  · exact .inr ⟨outcome, hf, h.answering hinv hfew hmine hopen hf hn⟩

end

/-- A request that was sent is on its way, in the pipeline or with its handler; or its handler has
settled, and then, if the response can be written, the answer is on its way to the client or the
call is settled. So it is in every run, for every connection of the client that is open at its end
and on which the limiter has let everything through. -/
theorem calls_are_not_lost {pako : Pako} (hpako : pako.Lawful) {text : JsonText V}
    (hreads : text.Reads)
    (stores : ClientStores τ) (mine : ℕ → Bool) {model : Option String} {executor : ConnectionExecutor}
    (hmodel : ConnectionExecutor.create model = .ok executor) (maxConnections : ℕ) (now : ℤ)
    (others : τ) (acts : List (Act V)) (s : Sys V τ)
    (hrun : Machine.exec (step pako text stores mine) (init (.new maxConnections executor now) others)
      acts = some s)
    (hfew : s.client.1.idsTaken < 2 ^ 32) (n : ℕ) (hmine : mine n = true)
    (hopen : s.server.transport.Open n) (hlets : ∀ a ∈ acts, letsThrough n a = true)
    (h : Handling) (hasked : h ∈ s.asks) (hn : h.connection = n) :
    s.UnderWay pako text h ∨
      ∃ outcome, (h, outcome) ∈ s.finished ∧ (CanAnswer text (h, outcome) → s.Answering pako h) := by
  obtain ⟨hinv, hkept⟩ := inv_kept_exec hpako hreads hmodel hrun hfew hlets
  exact hkept.not_lost hinv hfew hmine hopen hasked hn

/-- The two callers, before the client hears. -/
theorem answer_is_on_its_way : ∃ s h,
    Machine.exec (step plainPako callText RpcClient.noStores (· = 1)) (init (.new 10 (.async .new) 0) ())
        (twoCallers.take 12) = some s ∧
      s.client.1.settled = [] ∧ h ∈ s.asks ∧ h.connection = 1 ∧ s.Answering plainPako h := by
  obtain ⟨s, hrun, hend⟩ := Machine.exists_exec_of_test
    (show (Machine.exec (step plainPako callText RpcClient.noStores (· = 1))
      (init (.new 10 (.async .new) 0) ()) (twoCallers.take 12)).map (fun s =>
        decide (s.client.1.settled = [] ∧ s.client.1.idsTaken = 1 ∧ s.asks.map (·.connection) = [1] ∧
          (s.outgoing.length = 0 ∧ s.server.waiting.length = 0 ∧ s.running.length = 0) ∧
          (∀ f ∈ s.finished.map fun f => (f.1.request.dispatched f.2).serialize callText,
            ∃ bytes ∈ f.toOption, bytes.length ≤ maxFramePayload) ∧
          (s.server.transport.conns 1).any (·.ws) = true ∧
          (s.server.transport.wsServer.clients 1).readyState = .open)) = some true by decide +kernel)
  obtain ⟨hsettled, htaken, hasks, ⟨houtgoing, hwaiting, hrunning⟩, hcan, hopen⟩ :=
    of_decide_eq_true hend
  have hmodel : ConnectionExecutor.create none = .ok (.async .new) := rfl
  obtain ⟨h, hasked, hn⟩ := List.mem_map.mp (hasks ▸ List.mem_singleton_self 1)
  refine ⟨s, h, hrun, hsettled, hasked, hn, ?_⟩
  rcases calls_are_not_lost plainPako_lawful callText_reads RpcClient.noStores (· = 1) hmodel 10 0 ()
      (twoCallers.take 12) s hrun (by rw [htaken]; norm_num) 1 rfl hopen (by decide +kernel) h hasked hn
    with (⟨e, he, -⟩ | ⟨m, hm, -⟩ | hway) | ⟨outcome, hf, hanswer⟩
  · rw [List.length_eq_zero_iff.mp houtgoing] at he
    cases he
  · rw [List.length_eq_zero_iff.mp hwaiting] at hm
    cases hm
  · rw [List.length_eq_zero_iff.mp hrunning] at hway
    cases hway
  · refine hanswer ?_
    obtain ⟨bytes, hbytes, hlen⟩ := hcan _ (List.mem_map_of_mem hf)
    refine ⟨bytes, ?_, hlen⟩
    cases hserialize : (h.request.dispatched outcome).serialize callText with
    | error e =>
      rw [hserialize] at hbytes
      cases hbytes
    | ok bytes' =>
      rw [hserialize] at hbytes
      exact congrArg Except.ok (Option.some.inj hbytes)

end RemoteCalls

end Datasole
