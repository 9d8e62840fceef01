import Datasole.Server.Protocol.RemoteCalls

/-!
# Runs of remote calls

A request of the client is in one place at a time: on its way, in the pipeline, or with a handler.
So `calls_are_handled_once`: what the handlers get from the client are its calls, each at most once;
and what a call is settled with, if it is no failure of the client's own making, is the response of
its handling.
-/

namespace Datasole.RemoteCalls

open FramePipeline (connectionId Inbound)

variable {V τ : Type*}

section

variable {pako : Pako} {text : JsonText V} {stores : ClientStores τ} {mine : ℕ → Bool} {s t : Sys V τ}

/-! ## The invariant -/

/-- The call is settled with the response of a handling of its request, on a connection of the
client. -/
def Answered (text : JsonText V) (mine : ℕ → Bool) (s : Sys V τ) (x : ℕ × Settlement) : Prop :=
  ∃ f ∈ s.finished, mine f.1.connection = true ∧
    (∃ q, (q, f.1.request) ∈ s.requests ∧ f.1.correlationId = q.number ∧ q.call = x.1) ∧
    ∃ response, f.1.Gives text f.2 response ∧ x.2 = response.settlement

structure Inv (pako : Pako) (text : JsonText V) (mine : ℕ → Bool) (limit : ℕ)
    (s : Sys V τ) : Prop where
  server : s.server.Inv limit False
  client : RpcClient.Inv s.client.1
  ids : RpcClient.Ids s.client.1
  requests : s.requests.map Prod.fst = s.client.1.requests
  numbers : (s.requests.map (·.1.number)).Nodup
  valid : ∀ h ∈ s.running, 0 ≤ h.correlationId ∧ h.correlationId < 2 ^ 32
  asked : ∀ h ∈ s.tokens pako text mine, ∃ q, (q, h.request) ∈ s.requests ∧ h.correlationId = q.number
  once : ((s.tokens pako text mine).map Handling.correlationId).Nodup
  sent : ∀ n, (s.server.transport.conns n).isSome → ∀ message ∈ s.server.transport.sent n,
    Accounted pako text s n message
  settled : ∀ x ∈ s.client.1.settled, RpcClient.IsLocal x.2 ∨ Answered text mine s x
  heard : ∀ e ∈ s.heard, ∀ id payload, decodeMessage pako.inflate e.2 = .ok ⟨.rpcRes, id, payload⟩ →
    s.client.1.client.pending.get id = none ∧ ∃ x ∈ s.requests, (x.1.number : ℤ) = id

variable {limit : ℕ}

/-- A call that is answered stays answered. -/
theorem Answered.mono {x : ℕ × Settlement} (h : Answered text mine s x)
    (hfinished : s.finished ⊆ t.finished) (hrequests : s.requests ⊆ t.requests) :
    Answered text mine t x := by
  obtain ⟨f, hf, hmine, ⟨q, hq, hcall⟩, hresponse⟩ := h
  exact ⟨f, hfinished hf, hmine, ⟨q, hrequests hq, hcall⟩, hresponse⟩

/-- A message that is accounted for stays so. -/
theorem Accounted.mono {n : ℕ} {message : Bytes} (h : Accounted pako text s n message)
    (hfinished : s.finished ⊆ t.finished) : Accounted pako text t n message := by
  intro id payload hdecode
  obtain ⟨f, hf, hrest⟩ := h id payload hdecode
  exact ⟨f, hfinished hf, hrest⟩

/-- What the server does, as long as all answers that it sends are accounted for. -/
theorem Inv.of_server (h : Inv pako text mine limit s) (acts : List DatasoleServer.Act)
    (hrun : Machine.exec DatasoleServer.step s.server acts = some t.server)
    (hclient : t.client = s.client) (hrequests : t.requests = s.requests) (hheard : t.heard = s.heard)
    (hfinished : s.finished ⊆ t.finished)
    (hvalid : ∀ h ∈ t.running, 0 ≤ h.correlationId ∧ h.correlationId < 2 ^ 32)
    (htokens : t.tokens pako text mine ≤ s.tokens pako text mine)
    (hmessages : ∀ a ∈ acts, ∀ n, ∀ message ∈ DatasoleServer.messageFor n a,
      Accounted pako text t n message) : Inv pako text mine limit t where
  server := Machine.exec_invariant (I := fun u => u.Inv limit False) (fun _ _ _ h hs => h.any_step hs)
    h.server hrun
  client := hclient ▸ h.client
  ids := hclient ▸ h.ids
  requests := by
    rw [hclient, hrequests]
    exact h.requests
  numbers := hrequests ▸ h.numbers
  valid := hvalid
  asked := by
    rw [hrequests]
    exact fun x hx => h.asked x (Multiset.mem_of_le htokens hx)
  once := Multiset.nodup_of_le (Multiset.map_le_map htokens) h.once
  sent n hsome message hmem := by
    rcases h.server.mem_sent_exec hrun hsome hmem with ⟨hsome', hmem'⟩ | ⟨a, ha, hmem'⟩
    · exact (h.sent n hsome' message hmem').mono hfinished
    · exact hmessages a ha n message hmem'
  settled x hx := by
    rw [hclient] at hx
    exact (h.settled x hx).imp_right fun hx => hx.mono hfinished (hrequests ▸ List.Subset.refl _)
  heard := by
    rw [hclient, hrequests, hheard]
    exact h.heard

/-- One step of the server that sends no answers. -/
theorem Inv.of_quiet (h : Inv pako text mine limit s) {server : DatasoleServer}
    {a : DatasoleServer.Act}
    (hs : s.server.step a = some server)
    (htokens : Sys.tokens pako text mine { s with server } ≤ s.tokens pako text mine)
    (hquiet : ∀ n, ∀ message ∈ DatasoleServer.messageFor n a, IsQuiet pako message) :
    Inv pako text mine limit { s with server } := by
  refine h.of_server [a] (Machine.exec_cons_eq_some.mpr ⟨server, hs, rfl⟩) rfl rfl rfl
    (List.Subset.refl _) h.valid htokens fun b hb n message hmem => ?_
  rw [List.mem_singleton.mp hb] at hmem
  exact (hquiet n message hmem).accounted

/-- What the environment does to the server sends nothing on a connection. -/
theorem messageFor_of_isOuter {a : DatasoleServer.Act} (h : isOuter a = true) (n : ℕ) :
    DatasoleServer.messageFor n a = [] := by
  cases a with
  | receive | limited | send | sendRaw | broadcastRaw => cases h
  | _ => rfl

/-- The server acts without the calls. -/
theorem Inv.server_step (h : Inv pako text mine limit s) {a : DatasoleServer.Act}
    (houter : isOuter a = true) {server : DatasoleServer} (hs : s.server.step a = some server) :
    Inv pako text mine limit { s with server } := by
  refine h.of_quiet hs (tokens_server (waiting_step hs ?_ ?_)).le fun n message hmem => ?_
  · rintro n raw rfl
    cases houter
  · rintro message x rfl
    cases houter
  · rw [messageFor_of_isOuter houter] at hmem
    cases hmem

/-- A broadcast answers none of them. -/
theorem Inv.broadcast (h : Inv pako text mine limit s) (hpako : pako.Lawful) {b : Broadcast}
    {server : DatasoleServer} (hs : ServiceAct.step pako text s.server (.broadcast b) = some server) :
    Inv pako text mine limit { s with server } := by
  rcases broadcast_cases hs with rfl | ⟨data, hdata, hs⟩
  · exact h
  · refine h.of_quiet hs (tokens_server (waiting_step hs ?_ ?_)).le fun n message hmem => ?_
    · exact fun _ _ => DatasoleServer.Act.noConfusion
    · exact fun _ _ => DatasoleServer.Act.noConfusion
    · rw [List.mem_singleton.mp hmem]
      exact isQuiet_frameData hpako hdata

/-- A frame comes from someone else, and is not a token. -/
theorem Inv.receive (h : Inv pako text mine limit s) {n : ℕ} {raw : Bytes} (hmine : ¬ mine n = true)
    {server : DatasoleServer} (hs : s.server.step (.receive n raw) = some server) :
    Inv pako text mine limit { s with server } :=
  h.of_quiet hs (tokens_receive hmine hs).le fun _ _ hmem => absurd hmem List.not_mem_nil

/-- A frame of the client is no longer on its way, and waits in the pipeline. -/
theorem Inv.arrives (h : Inv pako text mine limit s) {n : ℕ} {e : ℕ × Bytes}
    (hfind : s.outgoing.find? (·.1 = n) = some e) {server : DatasoleServer}
    (hs : s.server.step (.receive n e.2) = some server) :
    Inv pako text mine limit { s with server, outgoing := s.outgoing.erase e } := by
  refine h.of_server [.receive n e.2] (Machine.exec_cons_eq_some.mpr ⟨server, hs, rfl⟩) rfl rfl
    rfl (List.Subset.refl _) h.valid (tokens_arrives hfind hs).le fun a ha _ _ hmem => ?_
  rw [List.mem_singleton.mp ha] at hmem
  cases hmem

/-- The verdict takes the message out of the pipeline. -/
theorem waiting_limited {u v : DatasoleServer} {message : Inbound} {x : Verdict}
    (hs : u.step (.limited message x) = some v) :
    message ∈ u.waiting ∧ v.waiting = u.waiting.erase message := by
  simp only [DatasoleServer.step, Option.ite_none_right_eq_some, Option.some.injEq] at hs
  obtain ⟨hmem, rfl⟩ := hs
  refine ⟨hmem, ?_⟩
  unfold DatasoleServer.limited
  cases x with
  | failed => rfl
  | allowed =>
    dsimp only
    split <;> rfl
  | refused error =>
    cases error with
    | none => rfl
    | some error =>
      dsimp only
      split <;> rfl

/-- The executor hands a message to the router with its own connection. -/
theorem connection_of_dispatch (h : Inv pako text mine limit s) {m n : ℕ}
    (hdispatch : s.server.executor.dispatch (connectionId m) = some n) : n = m := by
  rw [h.server.dispatch] at hdispatch
  exact (FramePipeline.connectionId_inj ((h.server.entries _ _).mp hdispatch).1).symm

/-- A token leaves the pipeline and is handled, if it is one. -/
theorem Inv.dispatch (h : Inv pako text mine limit s) (hpako : pako.Lawful) {message : Inbound}
    {server : DatasoleServer} (hs : s.server.step (.limited message .allowed) = some server)
    (ht : Sys.dispatch pako text { s with server } message.connection message.raw = some t) :
    Inv pako text mine limit t := by
  obtain ⟨hmem, hw⟩ := waiting_limited hs
  obtain ⟨server', hsend, rfl⟩ := Option.map_eq_some_iff.mp ht
  have hw' : server'.waiting = s.server.waiting.erase message := (waiting_sendAll hsend).trans hw
  refine h.of_server _ (exec_sendAll hs hsend) rfl rfl rfl (List.Subset.refl _) (fun x hx => ?_)
    (tokens_handed hmem hw').le fun a ha n data hdata => ?_
  · rcases List.mem_append.mp hx with hx | hx
    · exact h.valid x hx
    · exact (handlingOf_eq_some (Option.mem_toList.mp hx)).2
  · rcases List.mem_cons.mp ha with rfl | ha
    · cases hdata
    · obtain ⟨answer, hanswer, rfl⟩ := List.mem_map.mp ha
      simp only [DatasoleServer.messageFor, List.mem_ite_nil_right, List.mem_singleton] at hdata
      rw [hdata.2]
      exact (isQuiet_answeredAtOnce hpako hanswer).accounted

/-- The limiter decides on a message: it is dispatched, refused or dropped. -/
theorem Inv.limited (h : Inv pako text mine limit s) (hpako : pako.Lawful) {message : Inbound}
    {result : Option RateLimitResult} (ht : s.limited pako text message result = some t) :
    Inv pako text mine limit t := by
  obtain ⟨server, hs, ht⟩ := Option.bind_eq_some_iff.mp ht
  -- a message that is not handed over
  have hdropped : Inv pako text mine limit { s with server } := by
    obtain ⟨hmem, hw⟩ := waiting_limited hs
    have htokens : Sys.tokens pako text mine { s with server } ≤ s.tokens pako text mine :=
      tokens_erase hmem hw ▸ Multiset.le_add_right _ _
    refine h.of_quiet hs htokens fun n data hdata => ?_
    cases hverdict : verdict pako text message.raw result with
    | failed | allowed =>
      rw [hverdict] at hdata
      cases hdata
    | refused error =>
      rw [hverdict] at hdata
      cases error with
      | none => cases hdata
      | some error =>
        simp only [DatasoleServer.messageFor, List.mem_ite_nil_right, List.mem_singleton] at hdata
        rw [hdata.2]
        exact isQuiet_error hpako hverdict
  split at ht
  · next n hverdict hdispatch =>
    obtain rfl := connection_of_dispatch h hdispatch
    exact h.dispatch hpako (hverdict ▸ hs) ht
  · cases ht
    exact hdropped

/-- A handler settles, and what it sends is accounted for. -/
theorem Inv.settles (h : Inv pako text mine limit s) (hpako : pako.Lawful) (hreads : text.Reads)
    {i : ℕ}
    {outcome : Option (HandlerOutcome V)} (ht : s.settles pako text i outcome = some t) :
    Inv pako text mine limit t := by
  unfold Sys.settles at ht
  cases hget : s.running[i]? with
  | none =>
    rw [hget] at ht
    cases ht
  | some x =>
    simp only [hget] at ht
    obtain ⟨server, hsend, rfl⟩ := Option.map_eq_some_iff.mp ht
    obtain ⟨hnonneg, hlt⟩ := h.valid x (List.mem_of_getElem? hget)
    refine h.of_server _ hsend rfl rfl rfl (List.subset_append_left _ _) (fun y hy => ?_)
      (tokens_settled hget (waiting_sendAll hsend)).le fun a ha n data hdata => ?_
    · exact h.valid y (List.mem_of_mem_eraseIdx hy)
    · obtain ⟨answer, hanswer, rfl⟩ := List.mem_map.mp ha
      simp only [DatasoleServer.messageFor, List.mem_ite_nil_right, List.mem_singleton] at hdata
      obtain ⟨rfl, rfl⟩ := hdata
      exact accounted_response hpako hreads (List.mem_append_right _ List.mem_cons_self) hnonneg hlt
        hanswer

/-! ## What the client does -/

/-- What goes out for an event leads to no handling. -/
theorem emit_cases (hpako : pako.Lawful) (mine : ℕ → Bool) (s : Sys V τ) (event : String)
    (data : Option Json) (via : ℕ) :
    s.emit pako text event data via = s ∨
      ∃ message, s.emit pako text event data via = { s with outgoing := s.outgoing ++ [(via, message)] } ∧
        Sys.tokens pako text mine { s with outgoing := s.outgoing ++ [(via, message)] } =
          s.tokens pako text mine := by
  unfold Sys.emit
  cases hencode : text.encode (.obj (field "data" data ++ [("event", .str event)])) with
  | error e => exact .inl rfl
  | ok payload =>
    cases hpack : pako.pack ⟨.eventC2s, 0, payload⟩ with
    | error e => simp only [Except.bind, hpack, true_or]
    | ok message =>
      simp only [Except.bind, hpack]
      refine .inr ⟨message, rfl, ?_⟩
      have hnone : token pako text mine via message = none := by
        obtain ⟨hlen, rfl⟩ := Pako.eq_of_pack hpack
        have hvalid : Frame.Valid ⟨.eventC2s, 0, payload⟩ := ⟨le_rfl, by norm_num, hlen⟩
        unfold token handlingOf
        rw [hpako.decodeMessage_pack hvalid]
        exact ite_self none
      have htokens := tokens_outgoing pako text mine s via message s.client s.requests
      rw [hnone] at htokens
      exact htokens.trans (add_zero _)

/-- An event that the client emits is no token. -/
theorem Inv.emit (h : Inv pako text mine limit s) (hpako : pako.Lawful) (event : String)
    (data : Option Json) (via : ℕ) : Inv pako text mine limit (s.emit pako text event data via) := by
  rcases emit_cases hpako mine s event data via with heq | ⟨message, heq, htokens⟩
  · rw [heq]
    exact h
  · rw [heq]
    refine h.of_server [] rfl rfl rfl rfl (List.Subset.refl _) h.valid htokens.le fun a ha => ?_
    cases ha

/-- What the client does apart from sending a request. -/
theorem Inv.of_client (h : Inv pako text mine limit s) {client : RpcClient.Sys} (others : τ)
    {heard : List (ℕ × Bytes)} (hclient : RpcClient.Inv client) (hids : RpcClient.Ids client)
    (hrequests : client.requests = s.client.1.requests)
    (hsettled : ∀ x ∈ client.settled,
      x ∈ s.client.1.settled ∨ RpcClient.IsLocal x.2 ∨ Answered text mine s x)
    (hget : ∀ id, (∃ x ∈ s.requests, (x.1.number : ℤ) = id) → s.client.1.client.pending.get id = none →
      client.client.pending.get id = none)
    (hheard : ∀ e ∈ heard, e ∈ s.heard ∨
      ∀ id payload, decodeMessage pako.inflate e.2 = .ok ⟨.rpcRes, id, payload⟩ →
        client.client.pending.get id = none ∧ ∃ x ∈ s.requests, (x.1.number : ℤ) = id) :
    Inv pako text mine limit { s with client := (client, others), heard } :=
  { h with
    client := hclient
    ids := hids
    requests := h.requests.trans hrequests.symm
    settled := fun x hx => (hsettled x hx).elim (fun hold => h.settled x hold) id
    heard := fun e he id payload hdecode => by
      rcases hheard e he with hold | hnew
      · obtain ⟨hnone, hasked⟩ := h.heard e hold id payload hdecode
        exact ⟨hget id hasked hnone, hasked⟩
      · exact hnew id payload hdecode }

/-- What the client does by itself settles calls with its own failures only. -/
theorem Inv.client_step (h : Inv pako text mine limit s) {a : RpcClient.Act} (hown : isOwn a = true)
    {client : RpcClient.Sys} (hs : RpcClient.step s.client.1 a = some client) :
    Inv pako text mine limit { s with client := (client, s.client.2) } := by
  have hkeeps := RpcClient.keeps_step hown hs
  refine h.of_client s.client.2 (RpcClient.inv_step h.client ?_ hs) (RpcClient.ids_step h.ids hs)
    hkeeps.requests (fun x hx => ?_) (fun id _ hnone => hkeeps.get id hnone) fun e he => .inl he
  · cases a with
    | call | handleResponse => cases hown
    | setSendFn | elapse | clearPending => trivial
  · exact (hkeeps.settled x hx).imp_right .inl

/-- A number below the limit is its own id. -/
theorem idOf_eq {n : ℕ} (h : n < 2 ^ 32) : RpcClient.idOf n = n := by
  unfold RpcClient.idOf
  omega

/-- A request that is sent. -/
theorem Inv.sends (h : Inv pako text mine limit s) {client : RpcClient.Sys} {q : RpcClient.Request}
    {request : RpcRequest} (hclient : RpcClient.Inv client) (hids : RpcClient.Ids client)
    (hnew : client.requests = s.client.1.requests ++ [q]) (hnumber : q.number = s.client.1.idsTaken + 1)
    (hhandling : ∀ n, handlingOf pako text n (pako.compressLarge q.frame) = some ⟨n, q.number, request⟩)
    (hsettled : ∀ x ∈ client.settled, x ∈ s.client.1.settled ∨ RpcClient.IsLocal x.2)
    (hget : ∀ id, (∃ x ∈ s.requests, (x.1.number : ℤ) = id) → s.client.1.client.pending.get id = none →
      client.client.pending.get id = none)
    {via : Option ℕ} (hvia : via.all mine = true) :
    Inv pako text mine limit (s.withSent pako client request [q] via) := by
  -- the ids that were taken before are below the one of this request
  have hlt : ∀ x ∈ s.requests, x.1.number < q.number := fun x hx => by
    have hle := (h.ids.request x.1 (h.requests ▸ List.mem_map_of_mem hx)).1.2
    omega
  have hsub : s.requests ⊆ s.requests ++ [(q, request)] := List.subset_append_left _ _
  have hlast : (q, request) ∈ s.requests ++ [(q, request)] :=
    List.mem_append_right _ List.mem_cons_self
  have htokens := tokens_withSent s client hhandling hvia
  have hasks (x : Handling) (hx : x ∈ via.toList.map (⟨·, q.number, request⟩)) :
      x.request = request ∧ x.correlationId = q.number := by
    obtain ⟨n, -, rfl⟩ := List.mem_map.mp hx
    exact ⟨rfl, rfl⟩
  have hasked : ∀ x ∈ (s.withSent pako client request [q] via).tokens pako text mine,
      ∃ q', (q', x.request) ∈ s.requests ++ [(q, request)] ∧ x.correlationId = q'.number := by
    intro x hx
    rw [htokens] at hx
    -- a token of before, or the one that the request makes
    rcases Multiset.mem_add.mp hx with hx | hx
    · obtain ⟨q', hq', hid⟩ := h.asked x hx
      exact ⟨q', hsub hq', hid⟩
    · obtain ⟨hrequest, hid⟩ := hasks x hx
      exact ⟨q, hrequest ▸ hlast, hid⟩
  have honce : (((s.withSent pako client request [q] via).tokens pako text mine).map
      Handling.correlationId).Nodup := by
    rw [htokens, Multiset.map_add, Multiset.nodup_add]
    refine ⟨h.once, ?_, Multiset.disjoint_left.mpr fun {id} hold hid => ?_⟩
    · cases via with
      | none => exact List.nodup_nil
      | some n => exact List.nodup_singleton _
    · -- the number of the request is new
      obtain ⟨x, hx, rfl⟩ := Multiset.mem_map.mp hold
      obtain ⟨y, hy, hsame⟩ := Multiset.mem_map.mp hid
      obtain ⟨q', hq', hid'⟩ := h.asked x hx
      exact (hlt _ hq').ne (Nat.cast_inj.mp (hid'.symm.trans (hsame.symm.trans (hasks y hy).2)))
  exact
    { server := h.server
      client := hclient
      ids := hids
      requests := by
        change (s.requests ++ [(q, request)]).map Prod.fst = client.requests
        rw [hnew, List.map_append, h.requests]
        rfl
      numbers := by
        change ((s.requests ++ [(q, request)]).map (·.1.number)).Nodup
        rw [List.map_append, List.map_singleton, ← List.concat_eq_append, List.nodup_concat]
        refine ⟨fun hmem => ?_, h.numbers⟩
        obtain ⟨x, hx, hid⟩ := List.mem_map.mp hmem
        exact (hlt x hx).ne hid
      valid := h.valid
      asked := hasked
      once := honce
      sent := h.sent
      settled := fun x hx => by
        -- what was settled by this call was settled without an answer
        rcases hsettled x hx with hold | hlocal
        · exact (h.settled x hold).imp_right fun hx => hx.mono (List.Subset.refl _) hsub
        · exact .inl hlocal
      heard := fun e he id payload hdecode => by
        obtain ⟨hnone, hold⟩ := h.heard e he id payload hdecode
        obtain ⟨x, hx, hid⟩ := hold
        exact ⟨hget id ⟨x, hx, hid⟩ hnone, x, hsub hx, hid⟩ }

/-- A call sends nothing, or a request that leads to its handling. -/
theorem Inv.call_cases (h : Inv pako text mine limit s) (hpako : pako.Lawful) (hreads : text.Reads)
    (method : String) (params : Option Json) (timeout : Option ℚ) (sending : Except (Option String) Unit)
    (via : Option ℕ)
    (hfew : (s.call pako text method params timeout sending via).client.1.idsTaken < 2 ^ 32) :
    ∃ (request : RpcRequest) (client : RpcClient.Sys),
      client = RpcClient.call s.client.1 method timeout (text.encode request.toJson) sending ∧
      (s.call pako text method params timeout sending via = { s with client := (client, s.client.2) } ∧
          client.requests = s.client.1.requests ∨
        ∃ q, s.call pako text method params timeout sending via =
            s.withSent pako client request [q] via ∧
          client.requests = s.client.1.requests ++ [q] ∧ q.number = s.client.1.idsTaken + 1 ∧
          ∀ n, handlingOf pako text n (pako.compressLarge q.frame) = some ⟨n, q.number, request⟩) := by
  set request : RpcRequest :=
    { method, params := some (params.getD .null)
      correlationId := some (.num s.client.1.client.nextCorrelationId) }
  set client := RpcClient.call s.client.1 method timeout (text.encode request.toJson) sending
  -- what is sent is read off the requests that the call has added
  have hcall : s.call pako text method params timeout sending via = s.withSent pako client request
      (client.requests.drop s.client.1.requests.length) via := rfl
  refine ⟨request, client, rfl, ?_⟩
  rcases RpcClient.requests_call s.client.1 method timeout (text.encode request.toJson) sending with
    hsame | ⟨p, hp, hlen, hnew, htaken⟩
  · have hnone : client.requests.drop s.client.1.requests.length = [] := by
      rw [hsame, List.drop_length]
    refine .inl ⟨?_, hsame⟩
    rw [hcall, hnone]
    simp [Sys.withSent]
  · set q : RpcClient.Request := ⟨s.client.1.callCount, s.client.1.idsTaken + 1,
      Frame.bytes ⟨.rpcReq, s.client.1.client.nextCorrelationId, p⟩⟩
    have hone : client.requests.drop s.client.1.requests.length = [q] := by
      rw [hnew, List.drop_left]
    -- the counter has not passed its limit, so the id on the wire is the number of the request
    have hlt : q.number < 2 ^ 32 := htaken.symm.trans_lt hfew
    have hnext : s.client.1.client.nextCorrelationId = q.number := by
      rw [h.ids.nextCorrelationId]
      exact idOf_eq hlt
    have hvalid : Frame.Valid ⟨.rpcReq, s.client.1.client.nextCorrelationId, p⟩ := by
      refine ⟨?_, ?_, hlen⟩
      · change 0 ≤ s.client.1.client.nextCorrelationId
        omega
      · change s.client.1.client.nextCorrelationId < 2 ^ 32
        omega
    refine .inr ⟨q, by rw [hcall, hone], hnew, rfl, fun n => ?_⟩
    -- the frame decodes to the request that was made
    unfold handlingOf
    rw [hpako.decodeMessage_pack hvalid]
    simp only [if_true, hreads _ _ hp, Option.bind_some, RpcRequest.ofJson_toJson, Option.map_some,
      hnext]

/-- A call takes the next id, so its token is new. -/
theorem Inv.call (h : Inv pako text mine limit s) (hpako : pako.Lawful) (hreads : text.Reads)
    (method : String) (params : Option Json) (timeout : Option ℚ) (sending : Except (Option String) Unit)
    {via : Option ℕ} (hvia : via.all mine = true)
    (hfew : (s.call pako text method params timeout sending via).client.1.idsTaken < 2 ^ 32) :
    Inv pako text mine limit (s.call pako text method params timeout sending via) := by
  have hle : s.client.1.idsTaken ≤
      (s.call pako text method params timeout sending via).client.1.idsTaken :=
    RpcClient.idsTaken_le_call ..
  obtain ⟨request, client, hclient, hcases⟩ :=
    h.call_cases hpako hreads method params timeout sending via hfew
  have hkeeps : RpcClient.KeepsTrack s.client.1
      (.call method timeout (text.encode request.toJson) sending) := fun _ _ => h.ids.fresh (by omega)
  have hinv : RpcClient.Inv client := hclient ▸ RpcClient.inv_step h.client hkeeps rfl
  have hids : RpcClient.Ids client := hclient ▸ RpcClient.ids_call h.ids ..
  have hsettled : ∀ x ∈ client.settled, x ∈ s.client.1.settled ∨ RpcClient.IsLocal x.2 :=
    hclient ▸ fun x hx => RpcClient.settled_call _ _ _ _ _ x hx
  have hget : ∀ id, (∃ x ∈ s.requests, (x.1.number : ℤ) = id) →
      s.client.1.client.pending.get id = none → client.client.pending.get id = none := by
    rintro _ ⟨x, hx, rfl⟩ hnone
    -- the next id is greater
    have hle := (h.ids.request x.1 (h.requests ▸ List.mem_map_of_mem hx)).1.2
    have hne : (x.1.number : ℤ) ≠ s.client.1.client.nextCorrelationId := by
      rw [h.ids.nextCorrelationId, RpcClient.idOf]
      omega
    rw [hclient, RpcClient.get_call h.client _ _ _ _ hkeeps hne, hnone]
  rcases hcases with ⟨heq, hsame⟩ | ⟨q, heq, hnew, hnumber, hhandling⟩
  · rw [heq]
    exact h.of_client s.client.2 hinv hids hsame (fun x hx => (hsettled x hx).imp_right .inl) hget
      fun e he => .inl he
  · rw [heq]
    exact h.sends hinv hids hnew hnumber hhandling hsettled hget hvia

/-- Nothing but an answer changes what the client has of its calls. -/
theorem IsQuiet.fst_receive {message : Bytes} (h : IsQuiet pako message) (text : JsonText V)
    (stores : ClientStores τ) (c : RpcClient.Sys × τ) :
    (DatasoleClient.receive pako text.parse stores message c).1 = c.1 := by
  unfold DatasoleClient.receive
  cases hdecode : decodeMessage pako.inflate message with
  | error e => rfl
  | ok frame =>
    obtain ⟨opcode, id, payload⟩ := frame
    refine fst_dispatchFrame stores ?_ c
    rintro rfl
    exact h id payload hdecode

/-- What a handling of the client has led to was asked for. -/
theorem Inv.asked_of_finished (h : Inv pako text mine limit s)
    {f : Handling × Option (HandlerOutcome V)}
    (hf : f ∈ s.finished) (hmine : mine f.1.connection = true) :
    ∃ q, (q, f.1.request) ∈ s.requests ∧ f.1.correlationId = q.number :=
  h.asked f.1 (Multiset.mem_add.mpr (.inr (Multiset.mem_filter.mpr
    ⟨List.mem_append_right _ (List.mem_map_of_mem hf), hmine⟩)))

/-- The response of a handling settles the call that the handling is for, or nothing. -/
theorem Inv.answered (h : Inv pako text mine limit s) (hfew : s.client.1.idsTaken < 2 ^ 32)
    {f : Handling × Option (HandlerOutcome V)} (hf : f ∈ s.finished) (hmine : mine f.1.connection = true)
    {response : RpcResponse} (hgives : f.1.Gives text f.2 response) :
    ∀ x ∈ (RpcClient.handleResponse s.client.1 f.1.correlationId response.toJson).settled,
      x ∈ s.client.1.settled ∨ Answered text mine s x := by
  intro x hx
  rw [RpcClient.settled_handleResponse (settlementOf_toJson response)] at hx
  rcases List.mem_append.mp hx with hx | hx
  · exact .inl hx
  · right
    obtain ⟨entry, hget, rfl⟩ := Option.map_eq_some_iff.mp (Option.mem_toList.mp hx)
    obtain ⟨q, hq, hid⟩ := h.asked_of_finished hf hmine
    -- the entry is that of a request, which has the same number
    obtain ⟨-, -, hsent, -⟩ := h.client.entry _ _ hget
    obtain ⟨q', hq', hcall⟩ := List.mem_map.mp hsent
    have hnumber := h.ids.get_of_pending hq' hget hcall.symm
    rw [idOf_eq ((h.ids.request q' hq').1.2.trans_lt hfew), hid, Nat.cast_inj] at hnumber
    rw [← h.requests] at hq'
    obtain ⟨y, hy, rfl⟩ := List.mem_map.mp hq'
    have hsame : y = (q, f.1.request) := List.inj_on_of_nodup_map h.numbers hy hq hnumber.symm
    rw [hsame] at hcall
    exact ⟨f, hf, hmine, ⟨q, hq, hid, hcall⟩, response, hgives, rfl⟩

/-- The client hears a message. If that settles a call it is the response of a handling of its
own. -/
theorem Inv.hears (h : Inv pako text mine limit s) (hfew : s.client.1.idsTaken < 2 ^ 32) {n : ℕ}
    (hmine : mine n = true) (hmade : (s.server.transport.conns n).isSome)
    (ht : s.hears pako text stores n = some t) : Inv pako text mine limit t := by
  unfold Sys.hears at ht
  cases hmessage : (s.server.transport.sent n)[s.heard.countP (·.1 = n)]? with
  | none =>
    rw [hmessage] at ht
    cases ht
  | some message =>
    simp only [hmessage, Option.some.injEq] at ht
    subst ht
    by_cases hquiet : IsQuiet pako message
    · -- a message that answers no call changes nothing here
      have hsame := hquiet.fst_receive text stores s.client
      refine h.of_client _ (hsame ▸ h.client) (hsame ▸ h.ids) (congrArg RpcClient.Sys.requests hsame)
        (fun x hx => .inl (hsame ▸ hx)) (fun id _ hnone => hsame ▸ hnone) fun e he => ?_
      rcases List.mem_append.mp he with he | he
      · exact .inl he
      · rw [List.mem_singleton.mp he]
        exact .inr fun id payload hdecode => absurd hdecode (hquiet id payload)
    · obtain ⟨id, payload, hdecode⟩ := exists_of_not_isQuiet hquiet
      -- an answer is the response of a handling on the connection, which has settled
      obtain ⟨f, hf, rfl, rfl, response, hgives, hparse⟩ :=
        h.sent n hmade message (List.mem_of_getElem? hmessage) id payload hdecode
      have hsame : DatasoleClient.receive pako text.parse stores message s.client =
          (RpcClient.handleResponse s.client.1 f.1.correlationId response.toJson, s.client.2) := by
        simp only [DatasoleClient.receive, hdecode, dispatchFrame_rpcRes stores hparse]
      -- what the server sends can be read, so the client's promise is kept
      have hread : RpcClient.settlementOf response.toJson ≠ none := by
        rw [settlementOf_toJson]
        exact Option.some_ne_none _
      obtain ⟨hrequests, -, hget⟩ :=
        RpcClient.handleResponse_keeps s.client.1 f.1.correlationId response.toJson
      rw [hsame]
      refine h.of_client _ (RpcClient.inv_handleResponse h.client fun _ => hread)
        (RpcClient.ids_step (a := .handleResponse _ _) h.ids rfl) hrequests
        (fun x hx => (h.answered hfew hf hmine hgives x hx).imp_right .inr)
        (fun id _ hnone => hget id (.inr hnone)) fun e he => ?_
      rcases List.mem_append.mp he with he | he
      · exact .inl he
      · right
        intro id payload' hdecode'
        rw [List.mem_singleton.mp he, hdecode] at hdecode'
        cases hdecode'
        -- the handling was of a request of the client, whose id is taken
        obtain ⟨q, hq, hid⟩ := h.asked_of_finished hf hmine
        exact ⟨hget _ (.inl rfl), (q, f.1.request), hq, hid.symm⟩

/-! ## Over a run -/

theorem client_dispatch {n : ℕ} {raw : Bytes} (ht : s.dispatch pako text n raw = some t) :
    t.client = s.client := by
  obtain ⟨server, -, rfl⟩ := Option.map_eq_some_iff.mp ht
  rfl

/-- A verdict does not touch the client. -/
theorem client_limited {message : Inbound} {result : Option RateLimitResult}
    (ht : s.limited pako text message result = some t) : t.client = s.client := by
  obtain ⟨server, -, ht⟩ := Option.bind_eq_some_iff.mp ht
  split at ht
  · exact (client_dispatch ht).trans rfl
  · cases ht
    rfl

/-- Nor does a handler. -/
theorem client_settles {i : ℕ} {outcome : Option (HandlerOutcome V)}
    (ht : s.settles pako text i outcome = some t) : t.client = s.client := by
  unfold Sys.settles at ht
  split at ht
  · cases ht
  · obtain ⟨server, -, rfl⟩ := Option.map_eq_some_iff.mp ht
    rfl

/-- Hearing takes no id. -/
theorem idsTaken_receive (message : Bytes) (c : RpcClient.Sys × τ) :
    (DatasoleClient.receive pako text.parse stores message c).1.idsTaken = c.1.idsTaken := by
  by_cases hquiet : IsQuiet pako message
  · rw [hquiet.fst_receive]
  · obtain ⟨id, payload, hdecode⟩ := exists_of_not_isQuiet hquiet
    unfold DatasoleClient.receive
    rw [hdecode]
    cases hparse : text.parse payload with
    | none => simp only [dispatchFrame, hparse]
    | some response =>
      simp only [dispatchFrame_rpcRes stores hparse]
      exact (RpcClient.handleResponse_keeps ..).2.1

/-- The same on a connection. -/
theorem idsTaken_hears {n : ℕ} (ht : s.hears pako text stores n = some t) :
    t.client.1.idsTaken = s.client.1.idsTaken := by
  unfold Sys.hears at ht
  split at ht
  · cases ht
  · cases ht
    exact idsTaken_receive _ s.client

/-- No step gives an id back. -/
theorem idsTaken_le_step {a : Act V} (hs : step pako text stores mine s a = some t) :
    s.client.1.idsTaken ≤ t.client.1.idsTaken := by
  cases a with
  | server a | receive n raw =>
    simp only [step, Option.ite_none_right_eq_some, Option.ite_none_left_eq_some,
      Option.map_eq_some_iff] at hs
    obtain ⟨-, server, -, rfl⟩ := hs
    exact le_rfl
  | broadcast b =>
    simp only [step, Option.map_eq_some_iff] at hs
    obtain ⟨server, -, rfl⟩ := hs
    exact le_rfl
  | arrives n =>
    simp only [step] at hs
    split at hs
    · cases hs
    · obtain ⟨server, -, rfl⟩ := Option.map_eq_some_iff.mp hs
      exact le_rfl
  | limited message result => exact (client_limited hs ▸ le_rfl)
  | settles i outcome => exact (client_settles hs ▸ le_rfl)
  | call method params timeout sending via =>
    simp only [step, Option.ite_none_right_eq_some, Option.some.injEq] at hs
    obtain ⟨-, rfl⟩ := hs
    exact RpcClient.idsTaken_le_call ..
  | emit event data via =>
    simp only [step, Option.ite_none_right_eq_some, Option.some.injEq] at hs
    obtain ⟨-, rfl⟩ := hs
    unfold Sys.emit
    split <;> exact le_rfl
  | hears n =>
    simp only [step, Option.ite_none_right_eq_some] at hs
    exact (idsTaken_hears hs.2).ge
  | client a =>
    simp only [step, Option.ite_none_right_eq_some, Option.map_eq_some_iff] at hs
    obtain ⟨hown, client, hs, rfl⟩ := hs
    exact (RpcClient.keeps_step hown hs).idsTaken.ge

/-- Every step keeps the invariant, as long as the ids fit into a frame. -/
theorem inv_step (hpako : pako.Lawful) (hreads : text.Reads) (h : Inv pako text mine limit s)
    {a : Act V}
    (hs : step pako text stores mine s a = some t) (hfew : t.client.1.idsTaken < 2 ^ 32) :
    Inv pako text mine limit t := by
  cases a with
  | server a =>
    simp only [step, Option.ite_none_right_eq_some, Option.map_eq_some_iff] at hs
    obtain ⟨houter, server, hs, rfl⟩ := hs
    exact h.server_step houter hs
  | broadcast b =>
    simp only [step, Option.map_eq_some_iff] at hs
    obtain ⟨server, hs, rfl⟩ := hs
    exact h.broadcast hpako hs
  | receive n raw =>
    simp only [step, Option.ite_none_left_eq_some, Option.map_eq_some_iff] at hs
    obtain ⟨hmine, server, hs, rfl⟩ := hs
    exact h.receive hmine hs
  | arrives n =>
    cases hfind : s.outgoing.find? (·.1 = n) with
    | none =>
      simp only [step, hfind] at hs
      cases hs
    | some e =>
      simp only [step, hfind, Option.map_eq_some_iff] at hs
      obtain ⟨server, hs, rfl⟩ := hs
      exact h.arrives hfind hs
  | limited message result => exact h.limited hpako hs
  | settles i outcome => exact h.settles hpako hreads hs
  | call method params timeout sending via =>
    simp only [step, Option.ite_none_right_eq_some, Option.some.injEq] at hs
    obtain ⟨hvia, rfl⟩ := hs
    exact h.call hpako hreads method params timeout sending hvia hfew
  | emit event data via =>
    simp only [step, Option.ite_none_right_eq_some, Option.some.injEq] at hs
    obtain ⟨-, rfl⟩ := hs
    exact h.emit hpako event data via
  | hears n =>
    have hle := idsTaken_le_step hs
    simp only [step, Option.ite_none_right_eq_some] at hs
    obtain ⟨⟨hmine, hmade⟩, hs⟩ := hs
    exact h.hears (hle.trans_lt hfew) hmine hmade hs
  | client a =>
    simp only [step, Option.ite_none_right_eq_some, Option.map_eq_some_iff] at hs
    obtain ⟨hown, client, hs, rfl⟩ := hs
    exact h.client_step hown hs

/-- Nobody has called yet. -/
theorem inv_init {model : Option String} {executor : ConnectionExecutor}
    (hmodel : ConnectionExecutor.create model = .ok executor) (limit : ℕ) (now : ℤ) (others : τ) :
    Inv pako text mine limit (init (V := V) (.new limit executor now) others) where
  server := DatasoleServer.inv_new hmodel limit False now
  client := RpcClient.inv_init
  ids := RpcClient.ids_init
  requests := rfl
  numbers := List.nodup_nil
  valid _ hmem := by cases hmem
  asked _ hmem := by cases hmem
  once := Multiset.nodup_zero
  sent _ hsome := by cases hsome
  settled _ hmem := by cases hmem
  heard _ hmem := by cases hmem

/-- What is wanted of the calls: each that a handler gets from the client is one that the client
made, and no two of them are the same; the client's promises are kept; a call is settled with a
failure of the client's own making or with what its handling gives; an answer that has come in
belongs to a call, and the call is settled. -/
structure Handled (pako : Pako) (text : JsonText V) (mine : ℕ → Bool) (s : Sys V τ) : Prop where
  once : (((s.running ++ s.finished.map Prod.fst).filter fun h => mine h.connection).map
    Handling.correlationId).Nodup
  asked : ∀ h ∈ s.running ++ s.finished.map Prod.fst, mine h.connection = true →
    ∃ q, (q, h.request) ∈ s.requests ∧ h.correlationId = q.number
  numbers : (s.requests.map (·.1.number)).Nodup
  sound : RpcClient.Sound s.client.1
  settled : ∀ x ∈ s.client.1.settled, RpcClient.IsLocal x.2 ∨ Answered text mine s x
  heard : ∀ e ∈ s.heard, ∀ id payload, decodeMessage pako.inflate e.2 = .ok ⟨.rpcRes, id, payload⟩ →
    ∃ x ∈ s.requests, (x.1.number : ℤ) = id ∧ x.1.call ∈ s.client.1.settledCalls

/-- What the handlers get from the client is among what its requests have led to. -/
theorem filter_le_tokens (pako : Pako) (text : JsonText V) (s : Sys V τ) :
    (((s.running ++ s.finished.map Prod.fst).filter fun h => mine h.connection : List Handling) :
      Multiset Handling) ≤ s.tokens pako text mine := by
  have hfilter := Multiset.filter_coe (fun h : Handling => mine h.connection = true)
    (s.running ++ s.finished.map Prod.fst)
  simp only [Bool.decide_eq_true] at hfilter
  rw [← hfilter]
  exact Multiset.le_add_left _ _

/-- The invariant has all that is wanted of the calls. -/
theorem Inv.handled (h : Inv pako text mine limit s) (hfew : s.client.1.idsTaken < 2 ^ 32) :
    Handled pako text mine s where
  once := by
    have honce := Multiset.nodup_of_le (Multiset.map_le_map (filter_le_tokens pako text s)) h.once
    simpa using honce
  asked x hx hmine := h.asked x (Multiset.mem_of_le (filter_le_tokens pako text s)
    (Multiset.mem_coe.mpr (List.mem_filter.mpr ⟨hx, hmine⟩)))
  numbers := h.numbers
  sound := h.client.sound
  settled := h.settled
  heard e he id payload hdecode := by
    obtain ⟨hnone, x, hx, rfl⟩ := h.heard e he id payload hdecode
    have hrequest : x.1 ∈ s.client.1.requests := h.requests ▸ List.mem_map_of_mem hx
    refine ⟨x, hx, rfl, ?_⟩
    by_contra hnot
    -- a call that is not settled has an entry, under the id of its request
    obtain ⟨id, hentry⟩ := h.client.of_sent x.1.call (List.mem_map_of_mem hrequest) hnot
    have hid := h.ids.get_of_pending hrequest hentry rfl
    rw [idOf_eq ((h.ids.request x.1 hrequest).1.2.trans_lt hfew)] at hid
    rw [← hid, hentry] at hnone
    cases hnone

end

/-- What the handlers are given on the client's connections are its own requests, each at most once;
and a call that is settled otherwise than by the client itself is settled with the response of the
handling of its own request. So it is in every run, whichever executor is configured and whatever
the other connections, the limiter and the handlers do, as long as the client takes fewer than
`2 ^ 32` correlation ids. -/
theorem calls_are_handled_once {pako : Pako} (hpako : pako.Lawful) {text : JsonText V}
    (hreads : text.Reads) (stores : ClientStores τ) (mine : ℕ → Bool) {model : Option String}
    {executor : ConnectionExecutor} (hmodel : ConnectionExecutor.create model = .ok executor)
    (maxConnections : ℕ) (now : ℤ) (others : τ) (acts : List (Act V)) (s : Sys V τ)
    (hrun : Machine.exec (step pako text stores mine) (init (.new maxConnections executor now) others)
      acts = some s)
    (hfew : s.client.1.idsTaken < 2 ^ 32) : Handled pako text mine s := by
  have hinv := Machine.exec_invariant
    (I := fun s => s.client.1.idsTaken < 2 ^ 32 → Inv pako text mine maxConnections s)
    (fun _ _ _ h hs hfew => inv_step hpako hreads (h ((idsTaken_le_step hs).trans_lt hfew)) hs hfew)
    (fun _ => inv_init hmodel maxConnections now others) hrun
  exact (hinv hfew).handled hfew

/-! ### Two callers with one correlation id -/

def asking (method : String) : Json :=
  .obj [("correlationId", .num 1), ("method", .str method), ("params", .null)]

def answering (n : ℕ) : Json := .obj [("correlationId", .num 1), ("result", .num n)]

def answeringText (n : ℕ) : Bytes :=
  Bytes.ofAscii ("\x7b\"correlationId\":1,\"result\":" ++ toString n ++ "\x7d")

def callTable : JsonText Unit :=
  tableText [(asking "x", RpcClient.requestText "x" 1), (asking "y", RpcClient.requestText "y" 1),
    (answering 3, answeringText 3), (answering 7, answeringText 7)]

def callText : JsonText ℕ where
  stringify n := .ok (some (.num n))
  encode := callTable.encode
  parse := callTable.parse

theorem callText_reads : callText.Reads :=
  show callTable.Reads from tableText_reads (by decide +kernel)

/-- The message of a first call. -/
def askingMessage (method : String) : Bytes :=
  plainPako.compressLarge (Frame.bytes ⟨.rpcReq, 1, RpcClient.requestText method 1⟩)

/-- The client is on connection 1. Connection 2 calls first, and is answered last. -/
def twoCallers : List (Act ℕ) :=
  [.server (.upgrade none), .server (.authSettles 0 (some { authenticated := true }) .completes 1),
    .server (.upgrade none), .server (.authSettles 1 (some { authenticated := true }) .completes 2),
    .client .setSendFn, .call "x" none none (.ok ()) (some 1), .receive 2 (askingMessage "y"),
    .limited ⟨0, 2, askingMessage "y"⟩ (some RpcClient.roomLeft), .arrives 1,
    .limited ⟨1, 1, askingMessage "x"⟩ (some RpcClient.roomLeft),
    .settles 1 (some (.resolves 3)), .settles 0 (some (.resolves 7)), .hears 1]

/-- With two callers that use one id the client hears the answer to its own call. -/
theorem own_answer_is_heard : ∃ s,
    Machine.exec (step plainPako callText RpcClient.noStores (· = 1)) (init (.new 10 (.async .new) 0) ())
        twoCallers = some s ∧
      s.client.1.settled = [(0, .resolved (some (.num 3)))] ∧
      s.finished.map (·.1.correlationId) = [1, 1] ∧ Handled plainPako callText (· = 1) s := by
  obtain ⟨s, hrun, hend⟩ := Machine.exists_exec_of_test
    (show (Machine.exec (step plainPako callText RpcClient.noStores (· = 1))
      (init (.new 10 (.async .new) 0) ()) twoCallers).map (fun s =>
        decide (s.client.1.settled = [(0, .resolved (some (.num 3)))] ∧
          s.finished.map (·.1.correlationId) = [1, 1] ∧ s.client.1.idsTaken = 1)) = some true by
      decide +kernel)
  obtain ⟨hsettled, hfinished, htaken⟩ := of_decide_eq_true hend
  have hmodel : ConnectionExecutor.create none = .ok (.async .new) := rfl
  refine ⟨s, hrun, hsettled, hfinished, ?_⟩
  exact calls_are_handled_once plainPako_lawful callText_reads RpcClient.noStores (· = 1) hmodel 10 0 ()
    twoCallers s hrun (by rw [htaken]; norm_num)

end Datasole.RemoteCalls
