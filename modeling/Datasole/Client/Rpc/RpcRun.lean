import Mathlib.Data.List.Nodup
import Datasole.Client.Rpc.RpcClient

/-!
# Runs of remote calls

The pending map, the armed timers and the promises agree as long as every response for a pending
call can be read and no correlation id is handed out while a call with that id is pending
(`sound_iff_keepsTrack`). The second is so for the first `2 ^ 53` calls. A response `null`, or an
error whose message cannot be made a string, takes the entry and its timer away before it throws.
-/

namespace Datasole

namespace RpcClient

/-- Entries, armed timers and sent calls that are not settled correspond to each other. -/
structure Inv (s : Sys) : Prop where
  settled_once : s.settledCalls.Nodup
  entry : ∀ id e, s.client.pending.get id = some e → e.timer = e.call ∧ e.call ∈ s.armed ∧
    e.call ∈ s.sent ∧ e.call ∉ s.settledCalls ∧
    ∃ timer, s.timers e.call = some timer ∧ timer.correlationId = id
  of_armed : ∀ k ∈ s.armed, ∃ id, s.client.pending.get id = some ⟨k, k⟩
  of_sent : ∀ k ∈ s.sent, k ∉ s.settledCalls → ∃ id, s.client.pending.get id = some ⟨k, k⟩
  timer_call : ∀ k timer, s.timers k = some timer → timer.call = k ∧ k < s.callCount
  call_lt : ∀ k, k ∈ s.sent ∨ k ∈ s.settledCalls → k < s.callCount
  settled_or_sent : ∀ k < s.callCount, k ∈ s.settledCalls ∨ k ∈ s.sent
  elapsed : ∀ k ∈ s.elapsed, k ∉ s.armed ∧ k < s.callCount

variable {s t : Sys}

/-- Time elapses for a timer that was set. -/
theorem step_elapse {k : ℕ} (hs : step s (.elapse k) = some t) :
    ∃ timer, s.timers k = some timer ∧ t = elapse s timer := by
  simp only [step] at hs
  split at hs
  · cases hs
  · next timer htimer =>
    rw [Option.ite_none_left_eq_some] at hs
    exact ⟨timer, htimer, (Option.some.inj hs.2).symm⟩

@[simp] theorem settledCalls_settle (k : ℕ) (settlement : Settlement) :
    (s.settle k settlement).settledCalls = s.settledCalls ++ [k] := by
  simp [Sys.settle, Sys.settledCalls]

/-- A call has one entry at most. -/
theorem Inv.id_unique (h : Inv s) {id id' : ℤ} {e e' : RpcEntry}
    (he : s.client.pending.get id = some e) (he' : s.client.pending.get id' = some e')
    (hcall : e'.call = e.call) : id' = id := by
  obtain ⟨-, -, -, -, timer, htimer, hid⟩ := h.entry id e he
  obtain ⟨-, -, -, -, timer', htimer', hid'⟩ := h.entry id' e' he'
  rw [hcall, htimer] at htimer'
  cases htimer'
  exact hid'.symm.trans hid

/-- The number of the next call is new. -/
theorem Inv.ne_callCount (h : Inv s) {k : ℕ} (hk : k ∈ s.sent ∨ k ∈ s.settledCalls) :
    k ≠ s.callCount :=
  (h.call_lt k hk).ne

/-- No two entries are of one call. -/
theorem Inv.nodup_calls (h : Inv s) : (s.client.pending.values.map (·.call)).Nodup := by
  have hentries : s.client.pending.entries.Nodup := s.client.pending.nodup_keys.of_map
  rw [JsMap.values, List.map_map]
  refine List.Nodup.map_on (fun x hx y hy hxy => ?_) hentries
  have hgx := JsMap.mem_entries.mp (show (x.1, x.2) ∈ _ from hx)
  have hgy := JsMap.mem_entries.mp (show (y.1, y.2) ∈ _ from hy)
  have hid : x.1 = y.1 := h.id_unique hgy hgx hxy
  rw [hid, hgy] at hgx
  exact Prod.ext hid (Option.some.inj hgx).symm

/-- The calls of the entries are those that have one. -/
theorem mem_calls {k : ℕ} : k ∈ s.client.pending.values.map (·.call) ↔
    ∃ id e, s.client.pending.get id = some e ∧ e.call = k := by
  simp only [JsMap.values, List.map_map, List.mem_map, Prod.exists, Function.comp]
  exact exists_congr fun id => exists_congr fun e => and_congr_left fun _ => JsMap.mem_entries

/-- In a state with the invariant every call is settled at most once, and waits with one entry and
one timer until then. -/
theorem Inv.sound (h : Inv s) : Sound s where
  settled_once := h.settled_once
  pending_iff k := by
    refine ⟨?_, fun ⟨hsent, hnot⟩ => ?_⟩
    · rintro ⟨id, e, he, rfl⟩
      obtain ⟨-, -, hsent, hnot, -⟩ := h.entry id e he
      exact ⟨hsent, hnot⟩
    · obtain ⟨id, hid⟩ := h.of_sent k hsent hnot
      exact ⟨id, _, hid, rfl⟩
  one_entry := h.nodup_calls
  armed id e he := by
    obtain ⟨htimer, harmed, -, -, timer, hset, hid⟩ := h.entry id e he
    rw [htimer]
    exact ⟨harmed, timer, hset, (h.timer_call _ _ hset).1, hid⟩
  settled_or_sent := h.settled_or_sent
  settled_of_elapsed k hk := by
    -- a call that is sent and not settled would have its timer armed
    obtain ⟨hnot, hlt⟩ := h.elapsed k hk
    by_contra hunsettled
    obtain ⟨id, hid⟩ := h.of_sent k ((h.settled_or_sent k hlt).resolve_left hunsettled) hunsettled
    obtain ⟨-, harmed, -⟩ := h.entry id _ hid
    exact hnot harmed

/-- Without calls there is nothing to keep in step. -/
theorem inv_init : Inv init where
  settled_once := List.nodup_nil
  entry _ _ he := by cases he
  of_armed _ hk := by cases hk
  of_sent _ hk := by cases hk
  timer_call _ _ h := by cases h
  call_lt k h := by rcases h with h | h <;> cases h
  settled_or_sent k hk := by cases hk
  elapsed _ hk := by cases hk

/-! ## Entries that are removed -/

/-- Removing an entry with its timer and settling its call keeps the correspondence. -/
theorem Inv.finish (h : Inv s) {id : ℤ} {e : RpcEntry} (he : s.client.pending.get id = some e)
    (settlement : Settlement) :
    Inv (((s.deletePending id).clearTimeout e.timer).settle e.call settlement) := by
  obtain ⟨htimer, harmed, hsent, hnot, -⟩ := h.entry id e he
  have hcalls : (((s.deletePending id).clearTimeout e.timer).settle e.call settlement).settledCalls =
      s.settledCalls ++ [e.call] := settledCalls_settle _ _
  have hget : ∀ id', (s.client.pending.delete id).get id' =
      if id' = id then none else s.client.pending.get id' := JsMap.get_delete _ _
  refine ⟨?_, fun id' e' he' => ?_, fun k hk => ?_, fun k hk hk' => ?_, h.timer_call,
    fun k hk => ?_, fun k hk => ?_, fun k hk => ?_⟩
  · -- the entry was there, so its call had not been settled
    rw [hcalls, ← List.concat_eq_append, List.nodup_concat]
    exact ⟨hnot, h.settled_once⟩
  · -- another entry is another call's
    change (s.client.pending.delete id).get id' = some e' at he'
    rw [hget] at he'
    split at he'
    · cases he'
    next hne =>
    obtain ⟨htimer', harmed', hsent', hnot', hset⟩ := h.entry id' e' he'
    have hcall : e'.call ≠ e.call := fun heq => hne (h.id_unique he he' heq)
    refine ⟨htimer', List.mem_filter.mpr ⟨harmed', ?_⟩, hsent', ?_, hset⟩
    · rw [htimer]
      exact decide_eq_true hcall
    · rw [hcalls, List.mem_append, List.mem_singleton]
      exact not_or.mpr ⟨hnot', hcall⟩
  · -- of the timers that are armed none is the one that was cleared
    obtain ⟨hk, hne⟩ := List.mem_filter.mp hk
    obtain ⟨id', hid'⟩ := h.of_armed k hk
    refine ⟨id', (hget id').trans ?_⟩
    rw [if_neg, hid']
    rintro rfl
    rw [he] at hid'
    cases hid'
    exact of_decide_eq_true hne rfl
  · -- of the requests that are not settled none is of this call
    rw [hcalls, List.mem_append, List.mem_singleton, not_or] at hk'
    obtain ⟨id', hid'⟩ := h.of_sent k hk hk'.1
    refine ⟨id', (hget id').trans ?_⟩
    rw [if_neg, hid']
    rintro rfl
    rw [he] at hid'
    cases hid'
    exact hk'.2 rfl
  · rw [hcalls, List.mem_append, List.mem_singleton] at hk
    rcases hk with hk | hk | rfl
    · exact h.call_lt k (Or.inl hk)
    · exact h.call_lt k (Or.inr hk)
    · exact h.call_lt _ (Or.inl hsent)
  · rw [hcalls, List.mem_append]
    exact (h.settled_or_sent k hk).imp_left Or.inl
  · obtain ⟨hk, hlt⟩ := h.elapsed k hk
    exact ⟨fun hmem => hk (List.mem_filter.mp hmem).1, hlt⟩

/-- A response settles the call of its entry; one that makes the handler throw after it deleted the
entry is left out. -/
theorem inv_handleResponse (h : Inv s) {id : ℤ} {response : Json}
    (hok : s.client.pending.get id ≠ none → settlementOf response ≠ none) :
    Inv (handleResponse s id response) := by
  unfold handleResponse
  cases he : s.client.pending.get id with
  | none => exact h
  | some e =>
    cases hset : settlementOf response with
    | none => exact absurd hset (hok (by rw [he]; exact Option.some_ne_none e))
    | some settlement => exact h.finish he settlement

/-- A timer of a call that has passed and is not armed may be noted. -/
theorem Inv.note_elapsed (h : Inv s) {k : ℕ} (hk : k ∉ s.armed) (hlt : k < s.callCount) :
    Inv { s with elapsed := s.elapsed ++ [k] } :=
  { h with
    elapsed := fun j hj => by
      rcases List.mem_append.mp hj with hj | hj
      · exact h.elapsed j hj
      · rw [List.mem_singleton.mp hj]
        exact ⟨hk, hlt⟩ }

/-- A timer that elapses rejects the call of its own entry and no other. -/
theorem inv_elapse (h : Inv s) {k : ℕ} {timer : RpcTimer} (htimer : s.timers k = some timer) :
    Inv (elapse s timer) := by
  obtain ⟨rfl, hlt⟩ := h.timer_call k timer htimer
  by_cases harmed : timer.call ∈ s.armed
  · -- the callback removes the entry of its own call
    obtain ⟨id, he⟩ := h.of_armed _ harmed
    obtain ⟨-, -, -, -, timer', htimer', hid⟩ := h.entry id _ he
    rw [htimer] at htimer'
    cases htimer'
    rw [show elapse s timer = _ from if_pos harmed, hid]
    refine (h.finish he (.rejected (.timeout timer.method timer.ms))).note_elapsed ?_ hlt
    exact fun hmem => of_decide_eq_true (List.mem_filter.mp hmem).2 rfl
  · rw [show elapse s timer = _ from if_neg harmed]
    exact h.note_elapsed harmed hlt

/-- `clearPending` rejects every call with an entry, and takes the timers with it. -/
theorem inv_clearPending (h : Inv s) : Inv (clearPending s) := by
  have hcalls : (clearPending s).settledCalls =
      s.settledCalls ++ s.client.pending.values.map (·.call) := by
    simp [clearPending, Sys.settledCalls, Function.comp_def]
  have harmed : ∀ k, k ∉ (clearPending s).armed := by
    intro k hk
    obtain ⟨hk, hnot⟩ := List.mem_filter.mp hk
    obtain ⟨id, he⟩ := h.of_armed k hk
    refine of_decide_eq_true hnot (List.mem_map.mpr ⟨⟨k, k⟩, ?_, rfl⟩)
    exact List.mem_map.mpr ⟨(id, _), JsMap.mem_entries.mpr he, rfl⟩
  refine ⟨?_, fun id e he => ?_, fun k hk => absurd hk (harmed k), fun k hk hk' => ?_, h.timer_call,
    fun k hk => ?_, fun k hk => ?_, fun k hk => ?_⟩
  · rw [hcalls, List.nodup_append']
    refine ⟨h.settled_once, h.nodup_calls, fun k hk hmem => ?_⟩
    obtain ⟨id, e, he, rfl⟩ := mem_calls.mp hmem
    obtain ⟨-, -, -, hnot, -⟩ := h.entry id e he
    exact hnot hk
  · cases he
  · -- a call sent and not settled was pending
    rw [hcalls, List.mem_append, not_or] at hk'
    obtain ⟨id, he⟩ := h.of_sent k hk hk'.1
    exact absurd (mem_calls.mpr ⟨id, _, he, rfl⟩) hk'.2
  · rw [hcalls, List.mem_append] at hk
    rcases hk with hk | hk | hk
    · exact h.call_lt k (Or.inl hk)
    · exact h.call_lt k (Or.inr hk)
    · obtain ⟨id, e, he, rfl⟩ := mem_calls.mp hk
      obtain ⟨-, -, hsent, -⟩ := h.entry id e he
      exact h.call_lt _ (Or.inl hsent)
  · rw [hcalls, List.mem_append]
    exact (h.settled_or_sent k hk).imp_left Or.inl
  · exact ⟨harmed k, (h.elapsed k hk).2⟩

/-! ## Calls -/

/-- The call fails at once: its promise is rejected and nothing of it stays behind. -/
structure Rejects (s t : Sys) : Prop where
  get : ∀ id, t.client.pending.get id = s.client.pending.get id
  timers : ∀ k, t.timers k = s.timers k ∨
    k = s.callCount ∧ ∃ timer, t.timers k = some timer ∧ timer.call = k
  armed : t.armed = s.armed
  callCount : t.callCount = s.callCount + 1
  requests : t.requests = s.requests
  settled : ∃ failure, t.settled = s.settled ++ [(s.callCount, .rejected failure)]
  elapsed : t.elapsed = s.elapsed

/-- The call takes the next id, arms its timer, enters the pending map and sends its request. -/
def send (s : Sys) (method : String) (timeout : Option ℚ) (frame : Bytes) : Sys :=
  let id := s.client.nextCorrelationId
  { client :=
      { s.client with
        correlationCounter := id
        pending := s.client.pending.set id ⟨s.callCount, s.callCount⟩ }
    timers := Function.update s.timers s.callCount
      (some ⟨s.callCount, id, method, timeout.getD 30000⟩)
    armed := s.armed ++ [s.callCount]
    callCount := s.callCount + 1
    idsTaken := s.idsTaken + 1
    requests := s.requests ++ [⟨s.callCount, s.idsTaken + 1, frame⟩]
    settled := s.settled
    elapsed := s.elapsed }

/-- A call whose payload can be encoded, by a client with a send function. -/
theorem call_of_encodes (hfn : s.client.sendFn = true) (method : String) (timeout : Option ℚ)
    {p : Bytes} (hlen : p.length ≤ maxFramePayload) (sending : Except (Option String) Unit) :
    call s method timeout (.ok p) sending =
      execute s.takeId ⟨s.callCount, s.client.nextCorrelationId, method, timeout.getD 30000⟩
        (Frame.bytes ⟨.rpcReq, s.client.nextCorrelationId, p⟩) sending := by
  have hencode : (Except.ok p : Except String Bytes).bind
      (fun p => encodeFrame ⟨.rpcReq, s.client.nextCorrelationId, p⟩) =
        .ok (Frame.bytes ⟨.rpcReq, s.client.nextCorrelationId, p⟩) := encodeFrame_eq hlen
  simp only [call, hfn, if_true, hencode]

/-- Every other call is rejected at once, before or after it takes an id. -/
theorem call_of_not_encodes (method : String) (timeout : Option ℚ) {payload : Except String Bytes}
    (sending : Except (Option String) Unit)
    (hnot : ¬ (s.client.sendFn = true ∧ ∃ p, payload = .ok p ∧ p.length ≤ maxFramePayload)) :
    ∃ failure,
      call s method timeout payload sending =
          { s with callCount := s.callCount + 1 }.settle s.callCount (.rejected failure) ∨
        call s method timeout payload sending =
          s.takeId.settle s.callCount (.rejected failure) := by
  cases hfn : s.client.sendFn with
  | false => exact ⟨.notConnected, Or.inl (by simp [call, hfn])⟩
  | true =>
    obtain ⟨e, hencode⟩ : ∃ e, payload.bind
        (fun p => encodeFrame ⟨.rpcReq, s.client.nextCorrelationId, p⟩) = .error e := by
      cases payload with
      | error e => exact ⟨e, rfl⟩
      | ok p =>
        have hlen : ¬ p.length ≤ maxFramePayload := fun hlen => hnot ⟨hfn, p, rfl, hlen⟩
        exact ⟨_, if_pos (not_le.mp hlen)⟩
    exact ⟨.notEncoded e, Or.inr (by simp only [call, hfn, if_true, hencode])⟩

/-- A call without a send function, or with a payload that fits no frame, is rejected at once. -/
theorem rejects_call (method : String) (timeout : Option ℚ) {payload : Except String Bytes}
    (sending : Except (Option String) Unit)
    (hnot : ¬ (s.client.sendFn = true ∧ ∃ p, payload = .ok p ∧ p.length ≤ maxFramePayload)) :
    Rejects s (call s method timeout payload sending) := by
  obtain ⟨failure, heq | heq⟩ := call_of_not_encodes method timeout sending hnot
  all_goals
    rw [heq]
    exact ⟨fun _ => rfl, fun _ => Or.inl rfl, rfl, rfl, rfl, ⟨failure, rfl⟩, rfl⟩

/-- The send function may still throw: then the entry and the timer are taken away again. -/
theorem rejects_execute (h : Inv s) (hnone : s.client.pending.get s.client.nextCorrelationId = none)
    (method : String) (timeout : Option ℚ) (frame : Bytes) (error : Option String) :
    Rejects s (execute s.takeId ⟨s.callCount, s.client.nextCorrelationId, method, timeout.getD 30000⟩
      frame (.error error)) where
  get id := by
    change ((s.client.pending.set s.client.nextCorrelationId _).delete _).get id = _
    rw [JsMap.get_delete, JsMap.get_set]
    by_cases hid : id = s.client.nextCorrelationId
    · rw [if_pos hid, hid, hnone]
    · rw [if_neg hid, if_neg hid]
  timers k := by
    by_cases hk : k = s.callCount
    · subst hk
      exact Or.inr ⟨rfl, _, Function.update_self _ _ _, rfl⟩
    · exact Or.inl (Function.update_of_ne hk _ _)
  armed := by
    have hnot : s.callCount ∉ s.armed := fun hmem => by
      obtain ⟨id, he⟩ := h.of_armed _ hmem
      obtain ⟨-, -, hsent, -⟩ := h.entry id _ he
      exact h.ne_callCount (Or.inl hsent) rfl
    change (s.armed ++ [s.callCount]).filter (· ≠ s.callCount) = s.armed
    rw [List.filter_append, List.filter_eq_self.mpr fun k hk => ?_]
    · simp
    · exact decide_eq_true fun heq => hnot (heq ▸ hk)
  callCount := rfl
  requests := rfl
  settled := ⟨_, rfl⟩
  elapsed := rfl

/-- What a call does: it fails at once, or its request, the encoded frame with the next id, is
sent. -/
theorem call_cases (h : Inv s) (method : String) (timeout : Option ℚ)
    (payload : Except String Bytes)
    (sending : Except (Option String) Unit)
    (hfresh : KeepsTrack s (.call method timeout payload sending)) :
    Rejects s (call s method timeout payload sending) ∨
      s.client.pending.get s.client.nextCorrelationId = none ∧
        ∃ frame, call s method timeout payload sending = send s method timeout frame := by
  by_cases hsend : s.client.sendFn = true ∧ ∃ p, payload = .ok p ∧ p.length ≤ maxFramePayload
  · obtain ⟨hfn, p, rfl, hlen⟩ := hsend
    have hnone := hfresh hfn ⟨p, rfl, hlen⟩
    rw [call_of_encodes hfn method timeout hlen sending]
    cases sending with
    | ok u => exact Or.inr ⟨hnone, _, rfl⟩
    | error error => exact Or.inl (rejects_execute h hnone method timeout _ error)
  · exact Or.inl (rejects_call method timeout sending hsend)

/-- A call that is rejected at once leaves the others as they are. -/
theorem Inv.rejects (h : Inv s) (ht : Rejects s t) : Inv t := by
  obtain ⟨failure, hsettled⟩ := ht.settled
  have hcalls : t.settledCalls = s.settledCalls ++ [s.callCount] := by
    rw [Sys.settledCalls, hsettled, List.map_append]
    rfl
  have hsent : t.sent = s.sent := congrArg (List.map Request.call) ht.requests
  have hmem : ∀ k, k ∈ t.settledCalls ↔ k ∈ s.settledCalls ∨ k = s.callCount := fun k => by
    rw [hcalls, List.mem_append, List.mem_singleton]
  refine ⟨?_, fun id e he => ?_, fun k hk => ?_, fun k hk hk' => ?_, fun k timer htimer => ?_,
    fun k hk => ?_, fun k hk => ?_, fun k hk => ?_⟩
  · -- the call is the next one, which was not settled before
    rw [hcalls, ← List.concat_eq_append, List.nodup_concat]
    exact ⟨fun hmem => h.ne_callCount (Or.inr hmem) rfl, h.settled_once⟩
  · rw [ht.get] at he
    obtain ⟨htimer, harmed, hsent', hnot, timer, hset, hid⟩ := h.entry id e he
    have hne := h.ne_callCount (Or.inl hsent')
    refine ⟨htimer, ht.armed ▸ harmed, hsent ▸ hsent', ?_, timer, ?_, hid⟩
    · rw [hmem]
      exact not_or.mpr ⟨hnot, hne⟩
    · -- only the call's own timer may have been set
      rw [(ht.timers e.call).resolve_right fun hr => hne hr.1, hset]
  · rw [ht.armed] at hk
    simpa only [ht.get] using h.of_armed k hk
  · rw [hsent] at hk
    -- a request that is not settled was sent by an earlier call
    rw [hmem, not_or] at hk'
    simpa only [ht.get] using h.of_sent k hk hk'.1
  · rw [ht.callCount]
    rcases ht.timers k with heq | ⟨rfl, timer', heq, hcall⟩
    · rw [heq] at htimer
      exact (h.timer_call k timer htimer).imp_right Nat.lt_succ_of_lt
    · rw [htimer] at heq
      cases heq
      exact ⟨hcall, Nat.lt_succ_self _⟩
  · rw [ht.callCount]
    rw [hsent, hmem] at hk
    rcases hk with hk | hk | rfl
    · exact Nat.lt_succ_of_lt (h.call_lt k (Or.inl hk))
    · exact Nat.lt_succ_of_lt (h.call_lt k (Or.inr hk))
    · exact Nat.lt_succ_self _
  · rw [ht.callCount] at hk
    rw [hmem, hsent]
    rcases Nat.lt_succ_iff_lt_or_eq.mp hk with hk | hk
    · exact (h.settled_or_sent k hk).imp_left Or.inl
    · exact Or.inl (Or.inr hk)
  · rw [ht.elapsed] at hk
    rw [ht.armed, ht.callCount]
    exact (h.elapsed k hk).imp_right Nat.lt_succ_of_lt

/-- A call that is sent adds an entry and a timer of its own, under an id that is free. -/
theorem inv_send (h : Inv s) (hnone : s.client.pending.get s.client.nextCorrelationId = none)
    (method : String) (timeout : Option ℚ) (frame : Bytes) : Inv (send s method timeout frame) := by
  set k := s.callCount with hk
  set id := s.client.nextCorrelationId with hid
  have hsent : (send s method timeout frame).sent = s.sent ++ [k] := by
    rw [Sys.sent, send, List.map_append]
    rfl
  have hget : ∀ id', (send s method timeout frame).client.pending.get id' =
      if id' = id then some ⟨k, k⟩ else s.client.pending.get id' := fun id' => JsMap.get_set _ _ id' _
  -- entries that are there stay, under other ids
  have hkeep : ∀ j, (∃ id', s.client.pending.get id' = some ⟨j, j⟩) →
      ∃ id', (send s method timeout frame).client.pending.get id' = some ⟨j, j⟩ := by
    rintro j ⟨id', he⟩
    refine ⟨id', ?_⟩
    rw [hget, if_neg, he]
    rintro rfl
    rw [hnone] at he
    cases he
  have hlast : ∃ id', (send s method timeout frame).client.pending.get id' = some ⟨k, k⟩ :=
    ⟨id, by rw [hget, if_pos rfl]⟩
  refine ⟨h.settled_once, fun id' e he => ?_, fun j hj => ?_, fun j hj hj' => ?_,
    fun j timer htimer => ?_, fun j hj => ?_, fun j hj => ?_, fun j hj => ?_⟩
  · rw [hget] at he
    rw [hsent]
    split at he
    · next heq =>
      cases he
      refine ⟨rfl, List.mem_append_right _ (List.mem_singleton_self _),
        List.mem_append_right _ (List.mem_singleton_self _), fun hmem => h.ne_callCount (Or.inr hmem) hk,
        _, Function.update_self _ _ _, heq.symm⟩
    · obtain ⟨htimer, harmed, hsent', hnot, timer, hset, hid'⟩ := h.entry id' e he
      refine ⟨htimer, List.mem_append_left _ harmed, List.mem_append_left _ hsent', hnot, timer, ?_,
        hid'⟩
      exact (Function.update_of_ne (h.ne_callCount (Or.inl hsent')) _ _).trans hset
  · rcases List.mem_append.mp hj with hj | hj
    · exact hkeep j (h.of_armed j hj)
    · rw [List.mem_singleton.mp hj]
      exact hlast
  · rw [hsent] at hj
    rcases List.mem_append.mp hj with hj | hj
    · exact hkeep j (h.of_sent j hj hj')
    · rw [List.mem_singleton.mp hj]
      exact hlast
  · change Function.update s.timers k _ j = some timer at htimer
    change _ ∧ j < k + 1
    by_cases hjk : j = k
    · subst hjk
      rw [Function.update_self] at htimer
      cases htimer
      exact ⟨rfl, Nat.lt_succ_self _⟩
    · rw [Function.update_of_ne hjk] at htimer
      exact (h.timer_call j timer htimer).imp_right Nat.lt_succ_of_lt
  · rw [hsent, List.mem_append, List.mem_singleton] at hj
    change j < k + 1
    rcases hj with (hj | rfl) | hj
    · exact Nat.lt_succ_of_lt (h.call_lt j (Or.inl hj))
    · exact Nat.lt_succ_self _
    · exact Nat.lt_succ_of_lt (h.call_lt j (Or.inr hj))
  · rw [hsent, List.mem_append, List.mem_singleton]
    rcases Nat.lt_succ_iff_lt_or_eq.mp hj with hj | hj
    · exact (h.settled_or_sent j hj).imp_right Or.inl
    · exact Or.inr (Or.inr hj)
  · obtain ⟨hnot, hlt⟩ := h.elapsed j hj
    refine ⟨fun hmem => ?_, Nat.lt_succ_of_lt hlt⟩
    rcases List.mem_append.mp hmem with hmem | hmem
    · exact hnot hmem
    · exact absurd (List.mem_singleton.mp hmem) hlt.ne

/-- Every step that keeps track keeps the invariant. -/
theorem inv_step {a : Act} (h : Inv s) (hkeeps : KeepsTrack s a)
    (hs : step s a = some t) : Inv t := by
  cases a with
  | setSendFn => cases hs; exact { h with }
  | call method timeout payload sending =>
    cases hs
    rcases call_cases h method timeout payload sending hkeeps with hrej | ⟨hnone, frame, heq⟩
    · exact h.rejects hrej
    · rw [heq]
      exact inv_send h hnone method timeout frame
  | handleResponse id response => cases hs; exact inv_handleResponse h hkeeps
  | elapse k =>
    obtain ⟨timer, htimer, rfl⟩ := step_elapse hs
    exact inv_elapse h htimer
  | clearPending => cases hs; exact inv_clearPending h

/-! ## Where the bookkeeping is lost -/

/-- A sent call that is neither settled nor pending is a call that was lost. -/
theorem Inv.not_lost (h : Inv s) (ht : Sound t) {id : ℤ} {e : RpcEntry}
    (he : s.client.pending.get id = some e) (hsent : s.sent ⊆ t.sent)
    (hnot : e.call ∉ t.settledCalls)
    (hget : ∀ id' e', t.client.pending.get id' = some e' → e'.call = e.call →
      id' ≠ id ∧ s.client.pending.get id' = some e') : False := by
  obtain ⟨-, -, hmem, -⟩ := h.entry id e he
  obtain ⟨id', e', he', hcall⟩ := (ht.pending_iff e.call).mpr ⟨hsent hmem, hnot⟩
  obtain ⟨hne, hold⟩ := hget id' e' he' hcall
  exact hne (h.id_unique he hold hcall)

/-- A step into a state that is sound has kept track: it has overwritten no entry, and has not
thrown after deleting one. -/
theorem keepsTrack_of_sound {a : Act} (h : Inv s) (hs : step s a = some t) (ht : Sound t) :
    KeepsTrack s a := by
  cases a with
  | setSendFn | elapse k | clearPending => trivial
  | handleResponse id response =>
    cases hs
    intro hsome hnone
    obtain ⟨e, he⟩ := Option.ne_none_iff_exists'.mp hsome
    have heq : handleResponse s id response = (s.deletePending id).clearTimeout e.timer := by
      simp only [handleResponse, he, hnone]
    rw [heq] at ht
    obtain ⟨-, -, -, hnot, -⟩ := h.entry id e he
    refine h.not_lost ht he (List.Subset.refl _) hnot fun id' e' he' _ => ?_
    change (s.client.pending.delete id).get id' = some e' at he'
    rw [JsMap.get_delete, Option.ite_none_left_eq_some] at he'
    exact he'
  | call method timeout payload sending =>
    cases hs
    rintro hfn ⟨p, rfl, hlen⟩
    by_contra hsome
    obtain ⟨e, he⟩ := Option.ne_none_iff_exists'.mp hsome
    rw [call_of_encodes hfn method timeout hlen sending] at ht
    obtain ⟨-, -, hsent, hnot, -⟩ := h.entry _ e he
    have hne : e.call ≠ s.callCount := (h.call_lt _ (Or.inl hsent)).ne
    cases sending with
    | ok u =>
      -- the entry that had the id is overwritten
      refine h.not_lost ht he ?_ hnot fun id' e' he' hcall => ?_
      · rw [Sys.sent, Sys.sent, execute, List.map_append]
        exact List.subset_append_left _ _
      change (s.client.pending.set s.client.nextCorrelationId _).get id' = some e' at he'
      rw [JsMap.get_set] at he'
      split at he'
      · cases he'
        exact absurd hcall.symm hne
      · next hid => exact ⟨hid, he'⟩
    | error error =>
      -- it is overwritten, and then taken away with the call's own
      refine h.not_lost ht he (List.Subset.refl _) ?_ fun id' e' he' hcall => ?_
      · rw [execute, settledCalls_settle, List.mem_append, List.mem_singleton]
        exact not_or.mpr ⟨hnot, hne⟩
      change ((s.client.pending.set s.client.nextCorrelationId _).delete _).get id' = some e' at he'
      rw [JsMap.get_delete, Option.ite_none_left_eq_some] at he'
      obtain ⟨hid, he'⟩ := he'
      rw [JsMap.get_set, if_neg hid] at he'
      exact ⟨hid, he'⟩

/-- In a run, promises, pending map and timers agree at every moment exactly when every response for
a pending call can be read, and no call takes the id of one that is pending. -/
theorem sound_iff_keepsTrack (acts : List Act) (hrun : Machine.exec step init acts = some t) :
    (∀ before after s, acts = before ++ after → Machine.exec step init before = some s → Sound s) ↔
      Machine.Guarded step KeepsTrack init acts :=
  Machine.forall_exec_iff_guarded_of_exec (I := Inv) (P := Sound) (fun _ h => h.sound)
    (fun _ _ _ h hkeeps hs => inv_step h hkeeps hs) (fun _ _ _ h hs ht => keepsTrack_of_sound h hs ht)
    inv_init hrun

/-- Three calls: one is answered, and the answer comes a second time; one runs into its timeout; one
is closed. The answered call's timer would have fired meanwhile. -/
def threeCalls : List Act :=
  [.setSendFn, .call "x" none (.ok (requestText "x" 1)) (.ok ()),
    .call "slow" (some 100) (.ok (requestText "slow" 2)) (.ok ()),
    .handleResponse 1 (.obj [("correlationId", .num 1), ("result", .num 42)]),
    .handleResponse 1 (.obj [("correlationId", .num 1), ("result", .num 43)]), .elapse 1,
    .call "late" none (.ok (requestText "late" 3)) (.ok ()), .elapse 0, .clearPending, .elapse 2]

/-- An answer, a timeout and a closed connection settle the three calls, once each. -/
theorem threeCalls_sound :
    ∃ s, Machine.exec step init threeCalls = some s ∧ Sound s ∧
      s.settled = [(0, .resolved (some (.num 42))), (1, .rejected (.timeout "slow" 100)),
        (2, .rejected .closed)] := by
  obtain ⟨s, hrun, hend⟩ := Machine.exists_exec_of_test
    (show (Machine.exec step init threeCalls).map (fun s => decide (s.settled =
      [(0, .resolved (some (.num 42))), (1, .rejected (.timeout "slow" 100)),
        (2, .rejected .closed)])) = some true by decide +kernel)
  refine ⟨s, hrun, ?_, of_decide_eq_true hend⟩
  exact (sound_iff_keepsTrack threeCalls hrun).mpr (by decide +kernel) threeCalls [] s
    (List.append_nil _).symm hrun

/-- An answer with the payload `null`: the entry and the timer are gone, the promise is never
settled. -/
theorem null_response_loses_call :
    ∃ s, Machine.exec step init [.setSendFn, .call "x" none (.ok (requestText "x" 1)) (.ok ()),
        .handleResponse 1 .null, .elapse 0] = some s ∧
      0 ∈ s.sent ∧ 0 ∈ s.elapsed ∧ s.settled = [] ∧ s.client.pending.get 1 = none ∧ s.armed = [] ∧
      ¬ Sound s := by
  obtain ⟨s, hrun, hend⟩ := Machine.exists_exec_of_test
    (show (Machine.exec step init [.setSendFn, .call "x" none (.ok (requestText "x" 1)) (.ok ()),
        .handleResponse 1 .null, .elapse 0]).map
      (fun s => decide (0 ∈ s.sent ∧ 0 ∈ s.elapsed ∧ s.settled = [] ∧
        s.client.pending.get 1 = none ∧ s.armed = [])) = some true by decide +kernel)
  obtain ⟨hsent, helapsed, hsettled, hpending, harmed⟩ := of_decide_eq_true hend
  refine ⟨s, hrun, hsent, helapsed, hsettled, hpending, harmed, fun h => ?_⟩
  have hmem := h.settled_of_elapsed 0 helapsed
  rw [Sys.settledCalls, hsettled] at hmem
  cases hmem

end RpcClient

end Datasole
