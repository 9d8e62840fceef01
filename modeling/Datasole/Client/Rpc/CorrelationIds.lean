import Datasole.Client.ClientRouter
import Datasole.Client.Rpc.RpcRun

/-!
# Correlation ids on the wire

The pending map is keyed by a counter that only grows; a frame carries 32 bits of it, and a response
carries back the 32 bits that the server decoded. `answer_settles_iff` says for which calls the
answer finds its way back: for the first `2 ^ 32 - 1`.

`Ids` holds in every run, whatever the responses are: an entry stands under the id that its call
took, and the bytes of a request are the frame with that id.
-/

namespace Datasole

namespace RpcClient

/-- The id of the `n`-th call to take one. -/
def idOf (n : ℕ) : ℤ := min (n : ℤ) (2 ^ 53)

/-- Entries and requests carry the ids that their calls took. -/
structure Ids (s : Sys) : Prop where
  counter : s.client.correlationCounter = idOf s.idsTaken
  timer_lt : ∀ k, s.timers k ≠ none → k < s.callCount
  entry : ∀ id e, s.client.pending.get id = some e →
    ∃ timer, s.timers e.call = some timer ∧ timer.correlationId = id
  request : ∀ q ∈ s.requests, (1 ≤ q.number ∧ q.number ≤ s.idsTaken) ∧
    (∃ timer, s.timers q.call = some timer ∧ timer.correlationId = idOf q.number) ∧
    ∃ p, p.length ≤ maxFramePayload ∧ q.frame = Frame.bytes ⟨.rpcReq, idOf q.number, p⟩
  pending_le : ∀ id e, s.client.pending.get id = some e → id ≤ s.client.correlationCounter

variable {s t : Sys}

/-- Nothing is pending before the first call. -/
theorem ids_init : Ids init where
  counter := rfl
  timer_lt _ h := absurd rfl h
  entry _ _ h := by cases h
  request _ h := by cases h
  pending_le _ _ h := by cases h

/-- The next id is the one that belongs to the number of ids taken. -/
theorem Ids.nextCorrelationId (h : Ids s) :
    s.client.nextCorrelationId = idOf (s.idsTaken + 1) := by
  have hcounter := h.counter
  simp only [RpcClient.nextCorrelationId, idOf] at hcounter ⊢
  split <;> omega

theorem le_nextCorrelationId (c : RpcClient) : c.correlationCounter ≤ c.nextCorrelationId := by
  unfold RpcClient.nextCorrelationId
  split <;> omega

/-- Steps that only remove entries. -/
theorem Ids.shrink (h : Ids s) (hpending : ∀ id e, t.client.pending.get id = some e →
      s.client.pending.get id = some e)
    (hcounter : t.client.correlationCounter = s.client.correlationCounter)
    (htimers : t.timers = s.timers) (hcalls : t.callCount = s.callCount)
    (hids : t.idsTaken = s.idsTaken) (hrequests : t.requests = s.requests) : Ids t where
  counter := by rw [hcounter, hids, h.counter]
  timer_lt := by rw [htimers, hcalls]; exact h.timer_lt
  entry id e he := by rw [htimers]; exact h.entry id e (hpending id e he)
  request := by rw [htimers, hids, hrequests]; exact h.request
  pending_le id e he := by rw [hcounter]; exact h.pending_le id e (hpending id e he)

/-- What is left after a deletion was there before. -/
theorem get_of_get_delete {κ ν : Type*} [DecidableEq κ] {m : JsMap κ ν} {k k' : κ} {v : ν}
    (h : (m.delete k).get k' = some v) : m.get k' = some v := by
  rw [JsMap.get_delete, Option.ite_none_left_eq_some] at h
  exact h.2

/-- A call that is rejected before it arms a timer, whether it has taken an id or not. -/
theorem Ids.rejected (h : Ids s) (k : ℕ) (failure : RpcFailure) :
    Ids ({ s with callCount := s.callCount + 1 }.settle k (.rejected failure)) ∧
      Ids (s.takeId.settle k (.rejected failure)) := by
  have hlt : ∀ k, s.timers k ≠ none → k < s.callCount + 1 := fun k hk =>
    Nat.lt_succ_of_lt (h.timer_lt k hk)
  refine ⟨{ h with timer_lt := hlt },
    { h with counter := h.nextCorrelationId, timer_lt := hlt, request := ?_, pending_le := ?_ }⟩
  · intro q hq
    obtain ⟨⟨hpos, hle⟩, hrest⟩ := h.request q hq
    exact ⟨⟨hpos, Nat.le_succ_of_le hle⟩, hrest⟩
  · intro id e he
    exact (h.pending_le id e he).trans (le_nextCorrelationId s.client)

/-- A call that takes the next id registers its entry and sends its request under it. -/
theorem ids_execute (h : Ids s) (method : String) (ms : ℚ) {p : Bytes}
    (hlen : p.length ≤ maxFramePayload) (sending : Except (Option String) Unit) :
    Ids (execute s.takeId ⟨s.callCount, s.client.nextCorrelationId, method, ms⟩
      (Frame.bytes ⟨.rpcReq, s.client.nextCorrelationId, p⟩) sending) := by
  set id := s.client.nextCorrelationId with hid
  set timers := Function.update s.timers s.callCount (some ⟨s.callCount, id, method, ms⟩) with ht
  have hnext : id = idOf (s.idsTaken + 1) := h.nextCorrelationId
  have hle : s.client.correlationCounter ≤ id := le_nextCorrelationId s.client
  have hself : timers s.callCount = some ⟨s.callCount, id, method, ms⟩ := Function.update_self ..
  -- the timers of earlier calls are as they were
  have hold : ∀ k timer, s.timers k = some timer → timers k = some timer := by
    intro k timer hk
    have hlt : k < s.callCount := h.timer_lt k (by rw [hk]; exact Option.some_ne_none _)
    rw [ht, Function.update_of_ne hlt.ne, hk]
  have hlt : ∀ k, timers k ≠ none → k < s.callCount + 1 := by
    intro k hk
    by_cases heq : k = s.callCount
    · exact heq ▸ Nat.lt_succ_self _
    · rw [ht, Function.update_of_ne heq] at hk
      exact Nat.lt_succ_of_lt (h.timer_lt k hk)
  have hentry : ∀ id' e, (s.client.pending.set id ⟨s.callCount, s.callCount⟩).get id' = some e →
      (∃ timer, timers e.call = some timer ∧ timer.correlationId = id') ∧ id' ≤ id := by
    intro id' e he
    rw [JsMap.get_set] at he
    split at he
    · next heq =>
      cases he
      exact ⟨⟨_, hself, heq.symm⟩, heq.le⟩
    · obtain ⟨timer, htimer, hid'⟩ := h.entry id' e he
      exact ⟨⟨timer, hold _ _ htimer, hid'⟩, (h.pending_le id' e he).trans hle⟩
  have hrequest : ∀ q ∈ s.requests, (1 ≤ q.number ∧ q.number ≤ s.idsTaken + 1) ∧
      (∃ timer, timers q.call = some timer ∧ timer.correlationId = idOf q.number) ∧
      ∃ p, p.length ≤ maxFramePayload ∧ q.frame = Frame.bytes ⟨.rpcReq, idOf q.number, p⟩ := by
    intro q hq
    obtain ⟨⟨hpos, hnum⟩, ⟨timer, htimer, hid'⟩, hframe⟩ := h.request q hq
    exact ⟨⟨hpos, Nat.le_succ_of_le hnum⟩, ⟨timer, hold _ _ htimer, hid'⟩, hframe⟩
  cases sending with
  | ok u =>
    refine ⟨hnext, hlt, fun id' e he => (hentry id' e he).1, fun q hq => ?_,
      fun id' e he => (hentry id' e he).2⟩
    rcases List.mem_append.mp hq with hq | hq
    · exact hrequest q hq
    · rw [List.mem_singleton.mp hq]
      exact ⟨⟨Nat.succ_pos _, le_rfl⟩, ⟨_, hself, hnext⟩, p, hlen,
        congrArg (fun id => Frame.bytes ⟨.rpcReq, id, p⟩) hnext⟩
  | error error =>
    exact ⟨hnext, hlt, fun id' e he => (hentry id' e (get_of_get_delete he)).1, hrequest,
      fun id' e he => (hentry id' e (get_of_get_delete he)).2⟩

/-- A call keeps the ids in step, whether or not it gets so far as to take one. -/
theorem ids_call (h : Ids s) (method : String) (timeout : Option ℚ) (payload : Except String Bytes)
    (sending : Except (Option String) Unit) : Ids (call s method timeout payload sending) := by
  by_cases hsend : s.client.sendFn = true ∧ ∃ p, payload = .ok p ∧ p.length ≤ maxFramePayload
  · obtain ⟨hfn, p, rfl, hlen⟩ := hsend
    rw [call_of_encodes hfn method timeout hlen sending]
    exact ids_execute h method _ hlen sending
  · obtain ⟨failure, heq | heq⟩ := call_of_not_encodes method timeout sending hsend
    · rw [heq]
      exact (h.rejected s.callCount failure).1
    · rw [heq]
      exact (h.rejected s.callCount failure).2

/-- Every step keeps entries and requests with the ids that their calls took. -/
theorem ids_step {a : Act} (h : Ids s) (hs : step s a = some t) : Ids t := by
  cases a with
  | setSendFn => cases hs; exact h.shrink (fun _ _ he => he) rfl rfl rfl rfl rfl
  | call method timeout payload sending => cases hs; exact ids_call h method timeout payload sending
  | handleResponse id response =>
    cases hs
    unfold handleResponse
    split
    · exact h
    · dsimp only
      split <;> exact h.shrink (fun _ _ he => get_of_get_delete he) rfl rfl rfl rfl rfl
  | elapse k =>
    obtain ⟨timer, -, rfl⟩ := step_elapse hs
    by_cases harmed : timer.call ∈ s.armed
    · rw [show elapse s timer = _ from if_pos harmed]
      exact h.shrink (fun _ _ he => get_of_get_delete he) rfl rfl rfl rfl rfl
    · rw [show elapse s timer = _ from if_neg harmed]
      exact h.shrink (fun _ _ he => he) rfl rfl rfl rfl rfl
  | clearPending => cases hs; exact h.shrink (fun _ _ he => by cases he) rfl rfl rfl rfl rfl

/-- In every run entries and requests carry the ids that their calls took. -/
theorem ids_exec {acts : List Act} (hrun : Machine.exec step init acts = some s) : Ids s :=
  Machine.exec_invariant (fun _ _ _ h hs => ids_step h hs) ids_init hrun

/-- Among the first `2 ^ 53` calls none takes the id of a pending one. -/
theorem Ids.fresh (h : Ids s) (hfew : s.idsTaken < 2 ^ 53) :
    s.client.pending.get s.client.nextCorrelationId = none := by
  by_contra hsome
  obtain ⟨e, he⟩ := Option.ne_none_iff_exists'.mp hsome
  have hle := h.pending_le _ e he
  rw [h.nextCorrelationId, h.counter] at hle
  simp only [idOf] at hle
  omega

/-! ## Answers -/

/-- The call has an entry in the pending map. -/
def IsPending (s : Sys) (k : ℕ) : Prop := ∃ id e, s.client.pending.get id = some e ∧ e.call = k

/-- Processing settles a call in this way, and no other call. -/
def SettlesOnly (s t : Sys) (k : ℕ) (settlement : Settlement) : Prop :=
  t.settled = s.settled ++ [(k, settlement)]

/-- A response that can be read settles the call with the entry under its id, if there is one. -/
theorem settled_handleResponse {id : ℤ} {response : Json} {settlement : Settlement}
    (hread : settlementOf response = some settlement) :
    (handleResponse s id response).settled =
      s.settled ++ ((s.client.pending.get id).map fun e => (e.call, settlement)).toList := by
  unfold handleResponse
  cases s.client.pending.get id with
  | none => exact (List.append_nil _).symm
  | some e => simp only [hread]; rfl

/-- A pending call stands under the id that its request took. -/
theorem Ids.get_of_pending (h : Ids s) {q : Request} (hq : q ∈ s.requests) {id : ℤ} {e : RpcEntry}
    (he : s.client.pending.get id = some e) (hcall : e.call = q.call) : id = idOf q.number := by
  obtain ⟨-, ⟨timer, htimer, hid⟩, -⟩ := h.request q hq
  obtain ⟨timer', htimer', hid'⟩ := h.entry id e he
  rw [hcall, htimer] at htimer'
  cases htimer'
  exact hid'.symm.trans hid

/-- The response under the 32 bits of a request's id settles the request's call and no other exactly
if the id fits into them. -/
theorem Ids.settlesOnly_iff (h : Ids s) {q : Request} (hq : q ∈ s.requests)
    (hpending : IsPending s q.call) {response : Json} {settlement : Settlement}
    (hread : settlementOf response = some settlement) :
    SettlesOnly s (handleResponse s (idOf q.number % 2 ^ 32) response) q.call settlement ↔
      q.number < 2 ^ 32 := by
  obtain ⟨id, e, he, hcall⟩ := hpending
  obtain rfl := h.get_of_pending hq he hcall
  rw [SettlesOnly, settled_handleResponse hread, List.append_cancel_left_eq]
  constructor
  · intro hsettled
    obtain ⟨e', he', hpair⟩ : ∃ e', s.client.pending.get (idOf q.number % 2 ^ 32) = some e' ∧
        (e'.call, settlement) = (q.call, settlement) := by
      cases hget : s.client.pending.get (idOf q.number % 2 ^ 32) with
      | none => rw [hget] at hsettled; cases hsettled
      | some e' => rw [hget] at hsettled; exact ⟨e', rfl, List.singleton_inj.mp hsettled⟩
    -- the entry found is the call's own, so the id is its own remainder
    have hid := h.get_of_pending hq he' (congrArg Prod.fst hpair)
    have hlt := Int.emod_lt_of_pos (idOf q.number) (b := 2 ^ 32) (by decide)
    rw [hid] at hlt
    simp only [idOf] at hlt
    omega
  · intro hsmall
    have hid : idOf q.number % 2 ^ 32 = idOf q.number := by
      simp only [idOf]
      omega
    rw [hid, he]
    exact congrArg (fun k => [(k, settlement)]) hcall

/-- What a server decodes from a request, and what the client decodes from the answer that carries
the id back. -/
theorem Ids.decode_request (h : Ids s) {q : Request} (hq : q ∈ s.requests) :
    ∃ request, decodeFrame q.frame = .ok request ∧ request.opcode = .rpcReq ∧
      request.correlationId = idOf q.number % 2 ^ 32 := by
  obtain ⟨-, -, p, hlen, hframe⟩ := h.request q hq
  rw [hframe]
  exact ⟨_, decodeFrame_bytes hlen, rfl, rfl⟩

/-- In every run, and for every request whose call is pending: the answer under the id that the
server decodes from the request settles this call with the response, and no other call, exactly if
the call is one of the first `2 ^ 32 - 1` to take an id. -/
theorem answer_settles_iff {τ : Type*} (stores : ClientStores τ) (parse : Bytes → Option Json)
    (acts : List Act) (hrun : Machine.exec step init acts = some s) (q : Request)
    (hq : q ∈ s.requests) (hpending : IsPending s q.call) (response : RpcResponse) (payload : Bytes)
    (hlen : payload.length ≤ maxFramePayload) (hparse : parse payload = some response.toJson)
    (others : τ) :
    ∃ request, decodeFrame q.frame = .ok request ∧
      ∃ answer, encodeFrame ⟨.rpcRes, request.correlationId, payload⟩ = .ok answer ∧
        ∃ frame, decodeFrame answer = .ok frame ∧
          (SettlesOnly s (dispatchFrame parse frame (DatasoleClient.buildRouter stores) (s, others)).1
            q.call response.settlement ↔ q.number < 2 ^ 32) := by
  have hids := ids_exec hrun
  obtain ⟨request, hrequest, -, hid⟩ := hids.decode_request hq
  refine ⟨request, hrequest, _, encodeFrame_eq hlen, _, decodeFrame_bytes hlen, ?_⟩
  rw [dispatchFrame_rpcRes stores hparse]
  simp only [hid, Int.emod_emod]
  exact hids.settlesOnly_iff hq hpending (settlementOf_toJson response)

/-- An object with `correlationId` 1 and `result` 42. -/
def firstAnswer : Bytes := Bytes.ofAscii "\x7b\"correlationId\":1,\"result\":42\x7d"

/-- Stores that keep nothing. -/
def noStores : ClientStores Unit where
  emit _ _ s := s
  applyPatches _ _ s := s
  mergeRemoteState _ _ s := s

/-- The id of the first call comes back with the answer, and settles that call alone. -/
theorem first_answer_settles :
    ∃ s, Machine.exec step init [.setSendFn, .call "x" none (.ok (requestText "x" 1)) (.ok ())] = some s ∧
      ∃ request, decodeFrame (Frame.bytes ⟨.rpcReq, 1, requestText "x" 1⟩) = .ok request ∧
      ∃ answer, encodeFrame ⟨.rpcRes, request.correlationId, firstAnswer⟩ = .ok answer ∧
      ∃ frame, decodeFrame answer = .ok frame ∧
        (SettlesOnly s (dispatchFrame
          (fun payload => if payload = firstAnswer then
            some (RpcResponse.toJson { correlationId := some (.num 1), result := some (.num 42) }) else none)
          frame (DatasoleClient.buildRouter noStores) (s, ())).1 0 (.resolved (some (.num 42))) ↔
          1 < 2 ^ 32) := by
  obtain ⟨s, hrun, hend⟩ := Machine.exists_exec_of_test
    (show (Machine.exec step init [.setSendFn, .call "x" none (.ok (requestText "x" 1)) (.ok ())]).map
      (fun s => decide (s.requests = [⟨0, 1, Frame.bytes ⟨.rpcReq, 1, requestText "x" 1⟩⟩] ∧
        s.client.pending.get 1 = some ⟨0, 0⟩)) = some true by decide +kernel)
  obtain ⟨hrequests, hget⟩ := of_decide_eq_true hend
  refine ⟨s, hrun, answer_settles_iff noStores _ _ hrun
    ⟨0, 1, Frame.bytes ⟨.rpcReq, 1, requestText "x" 1⟩⟩ ?_ ⟨1, _, hget, rfl⟩
    { correlationId := some (.num 1), result := some (.num 42) } firstAnswer (by decide +kernel)
    (if_pos rfl) ()⟩
  rw [hrequests]
  exact List.mem_singleton_self _

/-! ## The call that takes the id `2 ^ 32` -/

/-- The `n`-th call of a method without parameters. -/
def nthCall (n : ℕ) : Act := .call "x" none (.ok (requestText "x" n)) (.ok ())

/-- A call with a send function takes one id and leaves the function in place. -/
theorem idsTaken_call (hfn : s.client.sendFn = true) (method : String) (timeout : Option ℚ)
    (payload : Except String Bytes) (sending : Except (Option String) Unit) :
    (call s method timeout payload sending).idsTaken = s.idsTaken + 1 ∧
      (call s method timeout payload sending).client.sendFn = true := by
  simp only [call, hfn, if_true]
  split
  · exact ⟨rfl, hfn⟩
  · cases sending <;> exact ⟨rfl, hfn⟩

/-- `n` calls on a fresh client take the ids `1` to `n`. -/
theorem exec_calls (n : ℕ) :
    ∃ t, Machine.exec step init (.setSendFn :: (List.range n).map fun i => nthCall (i + 1)) = some t ∧
      t.idsTaken = n ∧ t.client.sendFn = true := by
  induction n with
  | zero => exact ⟨_, rfl, rfl, rfl⟩
  | succ n ih =>
    obtain ⟨t, hrun, hids, hfn⟩ := ih
    obtain ⟨hids', hfn'⟩ := idsTaken_call hfn "x" none (.ok (requestText "x" (n + 1))) (.ok ())
    refine ⟨_, ?_, hids'.trans (congrArg (· + 1) hids), hfn'⟩
    rw [List.range_succ, List.map_append, ← List.cons_append]
    exact Machine.exec_concat_eq_some.mpr ⟨t, hrun, rfl⟩

/-- A connection that is closed after `2 ^ 32 - 1` calls, and one more call on the next one. The
header of its request says `0`; the answer settles nothing. -/
theorem wrapped_answer_settles_nothing :
    ∃ s, Machine.exec step init
        ((.setSendFn :: (List.range (2 ^ 32 - 1)).map fun i => nthCall (i + 1)) ++
          [.clearPending, nthCall (2 ^ 32)]) = some s ∧
      ∃ q ∈ s.requests, q.number = 2 ^ 32 ∧ IsPending s q.call ∧
      ∃ request, decodeFrame q.frame = .ok request ∧ request.correlationId = 0 ∧
        ∀ response : RpcResponse,
          (handleResponse s request.correlationId response.toJson).settled = s.settled ∧
          ¬ SettlesOnly s (handleResponse s request.correlationId response.toJson) q.call
            response.settlement := by
  obtain ⟨t, hrun, hids, hfn⟩ := exec_calls (2 ^ 32 - 1)
  have hlen : (requestText "x" (2 ^ 32)).length ≤ maxFramePayload := by decide +kernel
  have hcall := call_of_encodes (s := clearPending t) hfn "x" none hlen (.ok ())
  have hexec : Machine.exec step init
      ((.setSendFn :: (List.range (2 ^ 32 - 1)).map fun i => nthCall (i + 1)) ++
        [.clearPending, nthCall (2 ^ 32)]) = some (call (clearPending t) "x" none
          (.ok (requestText "x" (2 ^ 32))) (.ok ())) :=
    Machine.exec_append_eq_some.mpr ⟨t, hrun, rfl⟩
  have hclear : Ids (clearPending t) := ids_step (a := .clearPending) (ids_exec hrun) rfl
  have hids' := ids_exec hexec
  set s := call (clearPending t) "x" none (.ok (requestText "x" (2 ^ 32))) (.ok ()) with hs
  have hnext : (clearPending t).client.nextCorrelationId = 2 ^ 32 := by
    rw [hclear.nextCorrelationId, show (clearPending t).idsTaken = 2 ^ 32 - 1 from hids]
    rfl
  have hget : ∀ id, s.client.pending.get id =
      if id = 2 ^ 32 then some ⟨t.callCount, t.callCount⟩ else none := by
    intro id
    rw [hcall, ← hnext]
    exact JsMap.get_set _ _ _ _
  let q : Request := ⟨t.callCount, 2 ^ 32, Frame.bytes ⟨.rpcReq, 2 ^ 32, requestText "x" (2 ^ 32)⟩⟩
  have hq : q ∈ s.requests := by
    rw [hcall, hnext]
    refine List.mem_append_right _ (List.mem_singleton.mpr ?_)
    exact congrArg (fun n => Request.mk t.callCount n _) (congrArg (· + 1) hids).symm
  obtain ⟨request, hrequest, -, hid⟩ := hids'.decode_request hq
  have hzero : request.correlationId = 0 :=
    hid.trans (show idOf (2 ^ 32) % 2 ^ 32 = 0 by decide +kernel)
  refine ⟨s, hexec, q, hq, rfl, ⟨2 ^ 32, _, (hget _).trans (if_pos rfl), rfl⟩, request, hrequest,
    hzero, fun response => ?_⟩
  have hsettled : (handleResponse s request.correlationId response.toJson).settled = s.settled := by
    rw [settled_handleResponse (settlementOf_toJson response), hget, hzero, if_neg (by decide)]
    exact List.append_nil _
  refine ⟨hsettled, fun h => ?_⟩
  have hlength := congrArg List.length (hsettled.symm.trans h)
  rw [List.length_append] at hlength
  exact absurd hlength (by simp)

end RpcClient

end Datasole
