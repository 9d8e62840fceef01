import Datasole.Server.RateLimit.DefaultLimiter

/-!
# Bursts of calls on one key

The calls that the stored count includes form a list, in the order in which they were counted. A
backend that copies counts a call when the `set` of the higher count takes effect; a backend that
hands out its object counts it when the object is changed. In both cases the number of a call in the
list is at most the count that the call looks at in the end, so the calls that are allowed are among
the first `maxRequests` of the list.
-/

namespace Datasole

namespace DefaultRateLimiter

variable {s t : DefaultRateLimiter} {charged : List ℕ}

/-- The stored count includes the calls of the list, among them all that are done. -/
structure Counted (s : DefaultRateLimiter) (charged : List ℕ) : Prop where
  nodup : charged.Nodup
  lt : ∀ k ∈ charged, k < s.callCount
  count : s.stored = none ∧ charged = [] ∨ ∃ entry, s.stored = some entry ∧ entry.count = charged.length
  done : ∀ k < s.callCount, (s.calls k).phase.Done → k ∈ charged
  allowed : ∀ k < s.callCount, (s.calls k).phase.Allowed → k ∈ charged.take s.rule.maxRequests

/-- The calls that are allowed were counted among the first `maxRequests`. -/
theorem Counted.allowedCount_le (h : s.Counted charged) : s.allowedCount ≤ s.rule.maxRequests := by
  rw [allowedCount, List.countP_eq_length_filter]
  have hsub : (List.range s.callCount).filter (fun k => (s.calls k).phase.Allowed) ⊆
      charged.take s.rule.maxRequests := by
    intro k hk
    rw [List.mem_filter, List.mem_range] at hk
    exact h.allowed k hk.1 hk.2
  have hnodup : ((List.range s.callCount).filter fun k => (s.calls k).phase.Allowed).Nodup :=
    List.nodup_range.filter _
  exact Nat.le_trans (hnodup.subperm hsub).length_le (List.length_take_le _ _)

/-- What has to hold of a call is about the end of it. -/
theorem Counted.of_done (hnodup : charged.Nodup) (hlt : ∀ k ∈ charged, k < s.callCount)
    (hcount : s.stored = none ∧ charged = [] ∨
      ∃ entry, s.stored = some entry ∧ entry.count = charged.length)
    (hcalls : ∀ k < s.callCount, ∀ result, (s.calls k).phase = .done result →
      k ∈ charged ∧ (result.allowed → k ∈ charged.take s.rule.maxRequests)) :
    s.Counted charged := by
  refine ⟨hnodup, hlt, hcount, fun k hk hdone => ?_, fun k hk hallowed => ?_⟩
  · cases hphase : (s.calls k).phase with
    | done result => exact (hcalls k hk result hphase).1
    | _ => rw [hphase] at hdone; cases hdone
  · cases hphase : (s.calls k).phase with
    | done result =>
      rw [hphase] at hallowed
      exact (hcalls k hk result hphase).2 hallowed
    | _ => rw [hphase] at hallowed; cases hallowed

/-- With all calls done the list has all of them. -/
theorem Counted.stored_count (h : s.Counted charged)
    (hdone : ∀ k < s.callCount, (s.calls k).phase.Done) (hpos : 0 < s.callCount) :
    ∃ entry, s.stored = some entry ∧ entry.count = s.callCount := by
  have hsub : List.range s.callCount ⊆ charged := fun k hk => by
    rw [List.mem_range] at hk
    exact h.done k hk (hdone k hk)
  have hsub' : charged ⊆ List.range s.callCount := fun k hk => List.mem_range.mpr (h.lt k hk)
  have hle := (List.nodup_range.subperm hsub).length_le
  have hle' := (h.nodup.subperm hsub').length_le
  rw [List.length_range] at hle hle'
  rcases h.count with ⟨-, rfl⟩ | ⟨entry, hstored, hcount⟩
  · rw [List.length_nil] at hle
    omega
  · exact ⟨entry, hstored, by omega⟩

/-- The list grows by at most the call that moves. -/
def Grows (k : ℕ) (charged charged' : List ℕ) : Prop :=
  charged' = charged ∨ k ∉ charged ∧ charged' = charged ++ [k]

/-- The list grows by no other call. -/
theorem Grows.mem_iff {k j : ℕ} {charged' : List ℕ} (h : Grows k charged charged') (hjk : j ≠ k) :
    j ∈ charged' ↔ j ∈ charged := by
  rcases h with rfl | ⟨-, rfl⟩
  · rfl
  · simp [hjk]

/-- What is among the first of the list stays there. -/
theorem Grows.take {k j n : ℕ} {charged' : List ℕ} (h : Grows k charged charged')
    (hj : j ∈ charged.take n) : j ∈ charged'.take n := by
  rcases h with rfl | ⟨-, rfl⟩
  · exact hj
  · rw [List.take_append]
    exact List.mem_append_left _ hj

/-- A call that moves is not in the list yet, so no call is in it twice. -/
theorem Grows.nodup {k : ℕ} {charged' : List ℕ} (h : Grows k charged charged')
    (hnodup : charged.Nodup) : charged'.Nodup := by
  rcases h with rfl | ⟨hk, rfl⟩
  · exact hnodup
  · exact List.nodup_append.mpr ⟨hnodup, List.pairwise_singleton _ k, fun a ha b hb hab => by
      rw [List.mem_singleton] at hb
      exact hk (hb ▸ hab ▸ ha)⟩

/-- The list has calls that were begun. -/
theorem Grows.lt {k n : ℕ} {charged' : List ℕ} (h : Grows k charged charged') (hk : k < n)
    (hlt : ∀ j ∈ charged, j < n) : ∀ j ∈ charged', j < n := by
  rcases h with rfl | ⟨-, rfl⟩
  · exact hlt
  · intro j hj
    rcases List.mem_append.mp hj with hj | hj
    · exact hlt j hj
    · exact (List.mem_singleton.mp hj) ▸ hk

/-! ## A backend that copies -/

/-- What holds of call `k`, with its own object and what it saw. -/
def CopyOk (max : ℕ) (charged : List ℕ) (k : ℕ) (own : WindowEntry)
    (seen : Option Stored) : Phase → Prop
  | .getting _ => k ∉ charged
  | .got _ none => k ∉ charged ∧ seen = none
  | .got _ (some i) => k ∉ charged ∧ i = k ∧ seen = some (.copy own)
  | .settingFresh i => k ∉ charged ∧ i = k ∧ seen = none ∧ own.count = 0
  | .returned i => k ∉ charged ∧ i = k ∧ seen = some (.copy own)
  | .setting i =>
    k ∉ charged ∧ i = k ∧ ∃ entry, seen = some (.copy entry) ∧ own.count = entry.count + 1
  | .written i => k ∈ charged ∧ i = k ∧ (own.count ≤ max → k ∈ charged.take max)
  | .done result => k ∈ charged ∧ (result.allowed → k ∈ charged.take max)

def StoreCopyOk (charged : List ℕ) : Option Stored → Prop
  | none => charged = []
  | some (.copy entry) => entry.count = charged.length
  | some (.ref _) => False

structure InvCopy (s : DefaultRateLimiter) (charged : List ℕ) : Prop where
  copies : s.copies = true
  nodup : charged.Nodup
  lt : ∀ k ∈ charged, k < s.callCount
  store : StoreCopyOk charged s.store
  calls : ∀ k < s.callCount, CopyOk s.rule.maxRequests charged k (s.objects k) (s.calls k).seen
    (s.calls k).phase

/-- A call stays right when another one moves. -/
theorem CopyOk.grows {max k j : ℕ} {charged' : List ℕ} {own : WindowEntry} {seen : Option Stored}
    {phase : Phase} (h : CopyOk max charged j own seen phase) (hg : Grows k charged charged')
    (hjk : j ≠ k) : CopyOk max charged' j own seen phase := by
  have hmem := hg.mem_iff hjk
  have hnot := not_congr hmem
  cases phase with
  | getting => exact hnot.mpr h
  | got now entry => cases entry <;> exact ⟨hnot.mpr h.1, h.2⟩
  | settingFresh => exact ⟨hnot.mpr h.1, h.2⟩
  | returned => exact ⟨hnot.mpr h.1, h.2⟩
  | setting => exact ⟨hnot.mpr h.1, h.2⟩
  | written => exact ⟨hmem.mpr h.1, h.2.1, fun hle => hg.take (h.2.2 hle)⟩
  | done => exact ⟨hmem.mpr h.1, fun hallowed => hg.take (h.2 hallowed)⟩

/-- Call `k` moves, with its own object and the store. -/
theorem InvCopy.move (h : s.InvCopy charged) {k : ℕ} (hk : k < s.callCount) {store : Option Stored}
    {own : WindowEntry} {call : Call} {charged' : List ℕ} (hg : Grows k charged charged')
    (hstore : StoreCopyOk charged' store)
    (hcall : CopyOk s.rule.maxRequests charged' k own call.seen call.phase) :
    { s with
      store
      objects := Function.update s.objects k own
      calls := Function.update s.calls k call }.InvCopy charged' := by
  refine ⟨h.copies, hg.nodup h.nodup, hg.lt hk h.lt, hstore, fun j hj => ?_⟩
  dsimp only
  by_cases hjk : j = k
  · rw [hjk, Function.update_self, Function.update_self]
    exact hcall
  · rw [Function.update_of_ne hjk, Function.update_of_ne hjk]
    exact (h.calls j hj).grows hg hjk

/-- Call `k` moves, with its object as it is. -/
theorem InvCopy.moveCall (h : s.InvCopy charged) {k : ℕ} (hk : k < s.callCount)
    {store : Option Stored} {call : Call} {charged' : List ℕ} (hg : Grows k charged charged')
    (hstore : StoreCopyOk charged' store)
    (hcall : CopyOk s.rule.maxRequests charged' k (s.objects k) call.seen call.phase) :
    { s with store, calls := Function.update s.calls k call }.InvCopy charged' := by
  have hmove := h.move hk hg hstore hcall
  rwa [Function.update_eq_self] at hmove

/-- The object of call `k` becomes a fresh entry. -/
theorem InvCopy.create (h : s.InvCopy charged) {k : ℕ} (hk : k < s.callCount)
    (hnot : k ∉ charged) (hseen : (s.calls k).seen = none) (now : ℤ) :
    (s.create k now).InvCopy charged :=
  h.move hk (Or.inl rfl) h.store ⟨hnot, rfl, hseen, rfl⟩

/-- A call that moves undisturbed is counted when it has written. -/
theorem InvCopy.advance (h : s.InvCopy charged) {k : ℕ} {now : ℤ} (hk : k < s.callCount)
    (hg : s.UndisturbedAt (s.calls k).seen (s.calls k).phase) (hs : s.advance k now = some t) :
    ∃ charged', t.InvCopy charged' := by
  have hcall := h.calls k hk
  have hstore := h.store
  have hput : ∀ i, s.put i = .copy (s.objects i) := fun i => by rw [put, h.copies, if_pos rfl]
  unfold DefaultRateLimiter.advance at hs
  cases hphase : (s.calls k).phase with
  | getting asked =>
    simp only [hphase] at hs hcall
    cases hold : s.store with
    | none =>
      simp only [hold, Option.some.injEq] at hs
      subst hs
      exact ⟨charged, h.moveCall hk (Or.inl rfl) hstore ⟨hcall, rfl⟩⟩
    | some held =>
      cases held with
      | ref i =>
        rw [hold] at hstore
        exact hstore.elim
      | copy entry =>
        simp only [hold, Option.some.injEq] at hs
        subst hs
        exact ⟨charged, h.move hk (Or.inl rfl) hstore ⟨hcall, rfl, rfl⟩⟩
  | got asked entry =>
    rw [hphase] at hg
    cases entry with
    | none =>
      simp only [hphase, Option.some.injEq] at hs hcall
      exact ⟨charged, hs ▸ h.create hk hcall.1 hcall.2 asked⟩
    | some i =>
      simp only [hphase] at hs hcall
      have hopen : asked < (s.objects i).resetAt := hg i rfl
      rw [if_neg (by omega), Option.some.injEq] at hs
      subst hs
      exact ⟨charged, h.moveCall hk (Or.inl rfl) hstore hcall⟩
  | settingFresh i =>
    rw [hphase] at hg
    simp only [hphase, Option.some.injEq] at hs hcall
    subst hs
    obtain ⟨hnot, rfl, hseen, hzero⟩ := hcall
    -- nothing was stored when the fresh entry took its place
    have hempty : charged = [] := by
      rw [UndisturbedAt, hseen] at hg
      rwa [hg] at hstore
    rw [hput]
    refine ⟨charged, h.moveCall hk (Or.inl rfl) ?_ ⟨hnot, rfl, rfl⟩⟩
    rw [StoreCopyOk, hzero, hempty, List.length_nil]
  | returned i =>
    simp only [hphase, Option.some.injEq] at hs hcall
    subst hs
    obtain ⟨hnot, rfl, hseen⟩ := hcall
    exact ⟨charged, h.move hk (Or.inl rfl) hstore ⟨hnot, rfl, s.objects i, hseen, rfl⟩⟩
  | setting i =>
    rw [hphase] at hg
    simp only [hphase, Option.some.injEq] at hs hcall
    subst hs
    obtain ⟨hnot, rfl, entry, hseen, hcount⟩ := hcall
    -- the store holds the count that was read, so the call is the next of the list
    have hlength : (s.objects i).count = (charged ++ [i]).length := by
      rw [UndisturbedAt, hseen] at hg
      rw [hg] at hstore
      rw [hcount, List.length_append, List.length_singleton, show entry.count = _ from hstore]
    rw [hput]
    refine ⟨charged ++ [i], h.moveCall hk (Or.inr ⟨hnot, rfl⟩) hlength ⟨?_, rfl, fun hle => ?_⟩⟩
    · exact List.mem_append_right _ (List.mem_singleton_self i)
    · rw [List.take_of_length_le (by omega)]
      exact List.mem_append_right _ (List.mem_singleton_self i)
  | written i =>
    simp only [hphase, Option.some.injEq] at hs hcall
    subst hs
    obtain ⟨hmem, rfl, htake⟩ := hcall
    exact ⟨charged, h.moveCall hk (Or.inl rfl) hstore
      ⟨hmem, fun hallowed => htake (of_decide_eq_true hallowed)⟩⟩
  | done result => simp only [hphase, reduceCtorEq] at hs

/-- Every undisturbed step keeps the invariant. -/
theorem InvCopy.step (h : s.InvCopy charged) {a : Act} (hg : s.Undisturbed a)
    (hs : s.step a = some t) : ∃ charged', t.InvCopy charged' := by
  cases a with
  | advance k now =>
    simp only [DefaultRateLimiter.step, Option.ite_none_right_eq_some] at hs
    exact h.advance hs.1 hg hs.2
  | consume now =>
    simp only [DefaultRateLimiter.step, Option.some.injEq] at hs
    subst hs
    have hnew : s.callCount ∉ charged := fun hmem => Nat.lt_irrefl _ (h.lt _ hmem)
    refine ⟨charged, h.copies, h.nodup, fun k hk => Nat.lt_succ_of_lt (h.lt k hk), h.store,
      fun k hk => ?_⟩
    dsimp only [setCall] at hk ⊢
    by_cases hlast : k = s.callCount
    · rw [hlast, Function.update_self]
      exact hnew
    · rw [Function.update_of_ne hlast]
      exact h.calls k (by omega)

/-- Copies: those that have written are in the stored count. -/
theorem InvCopy.counted (h : s.InvCopy charged) : s.Counted charged := by
  refine .of_done h.nodup h.lt ?_ fun k hk result hphase => ?_
  · have hstore := h.store
    cases hheld : s.store with
    | none =>
      rw [hheld] at hstore
      exact Or.inl ⟨by rw [stored, hheld]; rfl, hstore⟩
    | some held =>
      rw [hheld] at hstore
      cases held with
      | ref i => exact hstore.elim
      | copy entry => exact Or.inr ⟨entry, by rw [stored, hheld]; rfl, hstore⟩
  · have hcall := h.calls k hk
    rw [hphase] at hcall
    exact hcall

/-! ## A backend that hands out its object -/

/-- What holds of call `k`, with the store, its own object and what it saw. -/
def ShareOk (max : ℕ) (charged : List ℕ) (k : ℕ) (store : Option Stored) (own : WindowEntry)
    (seen : Option Stored) : Phase → Prop
  | .getting _ => k ∉ charged ∧ store ≠ some (.ref k)
  | .got _ none => k ∉ charged ∧ store ≠ some (.ref k) ∧ seen = none
  | .got _ (some i) => k ∉ charged ∧ store = some (.ref i) ∧ seen = some (.ref i)
  | .settingFresh i =>
    k ∉ charged ∧ store ≠ some (.ref k) ∧ i = k ∧ seen = none ∧ own.count = 0
  | .returned i => k ∉ charged ∧ store = some (.ref i) ∧ seen = some (.ref i)
  | .setting i => k ∈ charged ∧ store = some (.ref i)
  | .written i => k ∈ charged ∧ store = some (.ref i)
  | .done result => k ∈ charged ∧ (result.allowed → k ∈ charged.take max)

def StoreShareOk (s : DefaultRateLimiter) (charged : List ℕ) : Option Stored → Prop
  | none => charged = []
  | some (.ref i) => i < s.callCount ∧ (s.objects i).count = charged.length
  | some (.copy _) => False

structure InvShare (s : DefaultRateLimiter) (charged : List ℕ) : Prop where
  copies : s.copies = false
  nodup : charged.Nodup
  lt : ∀ k ∈ charged, k < s.callCount
  store : s.StoreShareOk charged s.store
  calls : ∀ k < s.callCount, ShareOk s.rule.maxRequests charged k s.store (s.objects k)
    (s.calls k).seen (s.calls k).phase

/-- What another call does leaves this one's facts: it may put the first object into the store, and
it may change the object there. -/
theorem ShareOk.other {max k j : ℕ} {charged' : List ℕ} {store store' : Option Stored}
    {own own' : WindowEntry} {seen : Option Stored} {phase : Phase}
    (h : ShareOk max charged j store own seen phase) (hg : Grows k charged charged') (hjk : j ≠ k)
    (hstore : store' = store ∨ store = none ∧ store' = some (.ref k))
    (hown : own' = own ∨ store = some (.ref j)) :
    ShareOk max charged' j store' own' seen phase := by
  have hmem := hg.mem_iff hjk
  have hnot := not_congr hmem
  have hkept : ∀ i, store = some (.ref i) → store' = some (.ref i) := fun i hi => by
    rcases hstore with rfl | ⟨hnone, -⟩
    · exact hi
    · cases hnone.symm.trans hi
  have hfree : store ≠ some (.ref j) → store' ≠ some (.ref j) := fun hne => by
    rcases hstore with rfl | ⟨-, rfl⟩
    · exact hne
    · exact fun heq => hjk (Stored.ref.inj (Option.some.inj heq)).symm
  cases phase with
  | getting => exact ⟨hnot.mpr h.1, hfree h.2⟩
  | got now entry =>
    cases entry with
    | none => exact ⟨hnot.mpr h.1, hfree h.2.1, h.2.2⟩
    | some i => exact ⟨hnot.mpr h.1, hkept i h.2.1, h.2.2⟩
  | settingFresh i =>
    obtain ⟨hj, hne, hi, hseen, hzero⟩ := h
    exact ⟨hnot.mpr hj, hfree hne, hi, hseen, by rwa [hown.resolve_right hne]⟩
  | returned i => exact ⟨hnot.mpr h.1, hkept i h.2.1, h.2.2⟩
  | setting i => exact ⟨hmem.mpr h.1, hkept i h.2⟩
  | written i => exact ⟨hmem.mpr h.1, hkept i h.2⟩
  | done result => exact ⟨hmem.mpr h.1, fun hallowed => hg.take (h.2 hallowed)⟩

/-- Call `k` moves, with its own object or the one in the store, and with the store. -/
theorem InvShare.move (h : s.InvShare charged) {k i : ℕ} (hk : k < s.callCount)
    {store : Option Stored} {entry : WindowEntry} {call : Call} {charged' : List ℕ}
    (hg : Grows k charged charged')
    (hold : store = s.store ∨ s.store = none ∧ store = some (.ref k))
    (hi : i = k ∨ s.store = some (.ref i))
    (hstore : { s with objects := Function.update s.objects i entry }.StoreShareOk charged' store)
    (hcall : ShareOk s.rule.maxRequests charged' k store (Function.update s.objects i entry k)
      call.seen call.phase) :
    { s with
      store
      objects := Function.update s.objects i entry
      calls := Function.update s.calls k call }.InvShare charged' := by
  refine ⟨h.copies, hg.nodup h.nodup, hg.lt hk h.lt, hstore, fun j hj => ?_⟩
  dsimp only
  by_cases hjk : j = k
  · rw [hjk, Function.update_self]
    exact hcall
  · rw [Function.update_of_ne hjk]
    refine (h.calls j hj).other hg hjk hold ?_
    by_cases hji : j = i
    · exact Or.inr (hji ▸ hi.resolve_left (hji ▸ hjk))
    · exact Or.inl (Function.update_of_ne hji _ _)

/-- Call `k` moves, with the objects as they are. -/
theorem InvShare.moveCall (h : s.InvShare charged) {k : ℕ} (hk : k < s.callCount)
    {store : Option Stored} {call : Call} {charged' : List ℕ} (hg : Grows k charged charged')
    (hold : store = s.store ∨ s.store = none ∧ store = some (.ref k))
    (hstore : s.StoreShareOk charged' store)
    (hcall : ShareOk s.rule.maxRequests charged' k store (s.objects k) call.seen call.phase) :
    { s with store, calls := Function.update s.calls k call }.InvShare charged' := by
  have hsame : Function.update s.objects k (s.objects k) = s.objects := Function.update_eq_self _ _
  have hmove : { s with
      store
      objects := Function.update s.objects k (s.objects k)
      calls := Function.update s.calls k call }.InvShare charged' :=
    h.move hk hg hold (Or.inl rfl) (by rw [hsame]; exact hstore) (by rw [hsame]; exact hcall)
  rwa [hsame] at hmove

/-- The object of call `k` becomes a fresh entry. -/
theorem InvShare.create (h : s.InvShare charged) {k : ℕ} (hk : k < s.callCount)
    (hnot : k ∉ charged) (hfree : s.store ≠ some (.ref k)) (hseen : (s.calls k).seen = none)
    (now : ℤ) : (s.create k now).InvShare charged := by
  refine h.move hk (Or.inl rfl) (Or.inl rfl) (Or.inl rfl) ?_
    ⟨hnot, hfree, rfl, hseen, by rw [Function.update_self]⟩
  show StoreShareOk _ charged s.store
  have hstore := h.store
  cases hheld : s.store with
  | none => rwa [hheld] at hstore
  | some held =>
    rw [hheld] at hstore
    cases held with
    | copy entry => exact hstore
    | ref i =>
      have hik : i ≠ k := fun heq => hfree (heq ▸ hheld)
      refine ⟨hstore.1, ?_⟩
      dsimp only
      rw [Function.update_of_ne hik]
      exact hstore.2

/-- A call that moves undisturbed is counted when it has increased the shared entry. -/
theorem InvShare.advance (h : s.InvShare charged) {k : ℕ} {now : ℤ} (hk : k < s.callCount)
    (hg : s.UndisturbedAt (s.calls k).seen (s.calls k).phase) (hs : s.advance k now = some t) :
    ∃ charged', t.InvShare charged' := by
  have hcall := h.calls k hk
  have hstore := h.store
  have hput : ∀ i, s.put i = .ref i := fun i => by
    rw [put, h.copies, if_neg Bool.false_ne_true]
  unfold DefaultRateLimiter.advance at hs
  cases hphase : (s.calls k).phase with
  | getting asked =>
    simp only [hphase] at hs hcall
    cases hold : s.store with
    | none =>
      simp only [hold, Option.some.injEq] at hs
      subst hs
      exact ⟨charged, h.moveCall hk (Or.inl rfl) (Or.inl rfl) hstore ⟨hcall.1, hcall.2, rfl⟩⟩
    | some held =>
      cases held with
      | copy entry =>
        rw [hold] at hstore
        exact hstore.elim
      | ref i =>
        simp only [hold, Option.some.injEq] at hs
        subst hs
        exact ⟨charged, h.moveCall hk (Or.inl rfl) (Or.inl rfl) hstore ⟨hcall.1, hold, rfl⟩⟩
  | got asked entry =>
    rw [hphase] at hg
    cases entry with
    | none =>
      simp only [hphase, Option.some.injEq] at hs hcall
      exact ⟨charged, hs ▸ h.create hk hcall.1 hcall.2.1 hcall.2.2 asked⟩
    | some i =>
      simp only [hphase] at hs hcall
      have hopen : asked < (s.objects i).resetAt := hg i rfl
      rw [if_neg (by omega), Option.some.injEq] at hs
      subst hs
      exact ⟨charged, h.moveCall hk (Or.inl rfl) (Or.inl rfl) hstore hcall⟩
  | settingFresh i =>
    rw [hphase] at hg
    simp only [hphase, Option.some.injEq] at hs hcall
    subst hs
    obtain ⟨hnot, -, rfl, hseen, hzero⟩ := hcall
    -- nothing was stored when the fresh entry took its place
    rw [UndisturbedAt, hseen] at hg
    have hempty : charged = [] := by rwa [hg] at hstore
    rw [hput]
    refine ⟨charged, h.moveCall hk (Or.inl rfl) (Or.inr ⟨hg, rfl⟩) ⟨hk, ?_⟩ ⟨hnot, rfl, rfl⟩⟩
    rw [hzero, hempty, List.length_nil]
  | returned i =>
    simp only [hphase, Option.some.injEq] at hs hcall
    subst hs
    obtain ⟨hnot, hheld, -⟩ := hcall
    rw [hheld] at hstore
    -- the object is the stored one, so the call is counted now
    have hmem : k ∈ charged ++ [k] := List.mem_append_right _ (List.mem_singleton_self k)
    refine ⟨charged ++ [k], h.move hk (Or.inr ⟨hnot, rfl⟩) (Or.inl rfl) (Or.inr hheld) ?_
      ⟨hmem, hheld⟩⟩
    show StoreShareOk _ (charged ++ [k]) s.store
    rw [hheld]
    refine ⟨hstore.1, ?_⟩
    dsimp only
    rw [Function.update_self, List.length_append, List.length_singleton, hstore.2]
  | setting i =>
    simp only [hphase, Option.some.injEq] at hs hcall
    subst hs
    obtain ⟨hmem, hheld⟩ := hcall
    rw [hput, ← hheld]
    exact ⟨charged, h.moveCall hk (Or.inl rfl) (Or.inl rfl) hstore ⟨hmem, hheld⟩⟩
  | written i =>
    simp only [hphase, Option.some.injEq] at hs hcall
    subst hs
    obtain ⟨hmem, hheld⟩ := hcall
    refine ⟨charged, h.moveCall hk (Or.inl rfl) (Or.inl rfl) hstore
      ⟨hmem, fun hallowed => ?_⟩⟩
    -- a count within the limit means that the whole list is
    rw [hheld] at hstore
    have hle := of_decide_eq_true hallowed
    rw [hstore.2] at hle
    rwa [List.take_of_length_le hle]
  | done result => simp only [hphase, reduceCtorEq] at hs

/-- Every undisturbed step keeps the invariant. -/
theorem InvShare.step (h : s.InvShare charged) {a : Act} (hg : s.Undisturbed a)
    (hs : s.step a = some t) : ∃ charged', t.InvShare charged' := by
  cases a with
  | advance k now =>
    simp only [DefaultRateLimiter.step, Option.ite_none_right_eq_some] at hs
    exact h.advance hs.1 hg hs.2
  | consume now =>
    simp only [DefaultRateLimiter.step, Option.some.injEq] at hs
    subst hs
    have hnew : s.callCount ∉ charged := fun hmem => Nat.lt_irrefl _ (h.lt _ hmem)
    have hstore := h.store
    refine ⟨charged, h.copies, h.nodup, fun k hk => Nat.lt_succ_of_lt (h.lt k hk), ?_,
      fun k hk => ?_⟩
    · dsimp only [setCall]
      cases hheld : s.store with
      | none => rwa [hheld] at hstore
      | some held =>
        rw [hheld] at hstore
        cases held with
        | copy entry => exact hstore
        | ref i => exact ⟨Nat.lt_succ_of_lt hstore.1, hstore.2⟩
    · dsimp only [setCall] at hk ⊢
      by_cases hlast : k = s.callCount
      · rw [hlast, Function.update_self]
        refine ⟨hnew, fun hheld => ?_⟩
        rw [hheld] at hstore
        exact Nat.lt_irrefl _ hstore.1
      · rw [Function.update_of_ne hlast]
        exact h.calls k (by omega)

/-- One entry for all: those that have increased it are in its count. -/
theorem InvShare.counted (h : s.InvShare charged) : s.Counted charged := by
  refine .of_done h.nodup h.lt ?_ fun k hk result hphase => ?_
  · have hstore := h.store
    cases hheld : s.store with
    | none =>
      rw [hheld] at hstore
      exact Or.inl ⟨by rw [stored, hheld]; rfl, hstore⟩
    | some held =>
      rw [hheld] at hstore
      cases held with
      | copy entry => exact hstore.elim
      | ref i => exact Or.inr ⟨s.objects i, by rw [stored, hheld]; rfl, hstore.2⟩
  · have hcall := h.calls k hk
    rw [hphase] at hcall
    exact hcall

/-! ## Every undisturbed run -/

/-- After an undisturbed run the stored count includes the calls that were allowed. -/
theorem exists_counted {rule : RateLimitRule} {copies : Bool} {acts : List Act}
    (hrun : Machine.exec step (init rule copies) acts = some s)
    (hg : Machine.Guarded step Undisturbed (init rule copies) acts) :
    ∃ charged, s.Counted charged := by
  cases copies with
  | false =>
    have hinit : (init rule false).InvShare [] :=
      ⟨rfl, List.nodup_nil, nofun, rfl, fun k hk => absurd hk (Nat.not_lt_zero k)⟩
    obtain ⟨charged, h⟩ := Machine.exec_invariant_guarded
      (I := fun s : DefaultRateLimiter => ∃ charged, s.InvShare charged)
      (fun _ _ _ ⟨_, hI⟩ ha hs => hI.step ha hs) ⟨[], hinit⟩ hg hrun
    exact ⟨charged, h.counted⟩
  | true =>
    have hinit : (init rule true).InvCopy [] :=
      ⟨rfl, List.nodup_nil, nofun, rfl, fun k hk => absurd hk (Nat.not_lt_zero k)⟩
    obtain ⟨charged, h⟩ := Machine.exec_invariant_guarded
      (I := fun s : DefaultRateLimiter => ∃ charged, s.InvCopy charged)
      (fun _ _ _ ⟨_, hI⟩ ha hs => hI.step ha hs) ⟨[], hinit⟩ hg hrun
    exact ⟨charged, h.counted⟩

/-- The rule stays the same. -/
theorem rule_step {a : Act} (hs : s.step a = some t) : t.rule = s.rule := by
  cases a with
  | consume now =>
    simp only [DefaultRateLimiter.step, Option.some.injEq] at hs
    exact hs ▸ rfl
  | advance k now =>
    simp only [DefaultRateLimiter.step, Option.ite_none_right_eq_some] at hs
    obtain ⟨-, hs⟩ := hs
    unfold DefaultRateLimiter.advance at hs
    split at hs
    · split at hs <;> cases hs <;> rfl
    · cases hs; rfl
    · split at hs <;> cases hs <;> rfl
    · cases hs; rfl
    · cases hs; rfl
    · cases hs; rfl
    · cases hs; rfl
    · cases hs

/-- In every run in which calls do not disturb each other, at most `maxRequests` calls are allowed,
and when all calls are done the stored count is their number. -/
theorem limit_holds (rule : RateLimitRule) (copies : Bool) (acts : List Act)
    (hrun : Machine.exec step (init rule copies) acts = some s)
    (hg : Machine.Guarded step Undisturbed (init rule copies) acts) :
    s.allowedCount ≤ rule.maxRequests ∧
      ((∀ k < s.callCount, (s.calls k).phase.Done) → 0 < s.callCount →
        ∃ entry, s.stored = some entry ∧ entry.count = s.callCount) := by
  obtain ⟨charged, h⟩ := exists_counted hrun hg
  have hrule : s.rule = rule :=
    Machine.exec_invariant (I := fun s => s.rule = rule)
      (fun _ _ _ hI hs => (rule_step hs).trans hI) rfl hrun
  exact ⟨hrule ▸ h.allowedCount_le, h.stored_count⟩

/-- A call alone, then two calls that overlap. -/
def overlappingCalls : List Act :=
  [.consume 0] ++ List.replicate 6 (.advance 0 0) ++
    [.consume 10, .consume 20, .advance 1 0, .advance 2 0, .advance 1 0, .advance 1 0, .advance 2 0,
      .advance 1 0, .advance 2 0, .advance 1 30, .advance 2 0, .advance 2 40]

/-- With room for two, at most two of these calls are allowed, and all three are counted. -/
theorem limit_holds_overlapping :
    ∃ s, Machine.exec step (init { windowMs := 60000, maxRequests := 2 } false) overlappingCalls =
        some s ∧ s.callCount = 3 ∧ s.allowedCount ≤ 2 ∧
      ∃ entry, s.stored = some entry ∧ entry.count = s.callCount := by
  obtain ⟨s, hrun, htest⟩ := Machine.exists_exec_of_test
    (show (Machine.exec step (init { windowMs := 60000, maxRequests := 2 } false)
      overlappingCalls).map (fun s => decide ((∀ k < s.callCount, (s.calls k).phase.Done) ∧
        s.callCount = 3)) = some true by decide +kernel)
  obtain ⟨hdone, hcount⟩ := of_decide_eq_true htest
  obtain ⟨hle, hstored⟩ := limit_holds _ false overlappingCalls hrun (by decide +kernel)
  exact ⟨s, hrun, hcount, hle, hstored hdone (by omega)⟩

/-- Two calls made in one tick, each taken to its next `await` in turn. -/
def simultaneousCalls : List Act :=
  [.consume 0, .consume 0] ++ (List.replicate 6 [Act.advance 0 0, .advance 1 0]).flatten

/-- Both find no entry and start a window of their own: both are allowed where one should be, and
one is counted. -/
theorem burst_exceeds_limit :
    (∃ s, Machine.exec step (init { windowMs := 60000, maxRequests := 1 } false) simultaneousCalls =
        some s ∧ (∀ k < s.callCount, (s.calls k).phase.Done) ∧ s.callCount = 2 ∧
      s.allowedCount = 2 ∧ s.stored = some { count := 1, resetAt := 60000 }) ∧
    ∃ s, Machine.exec step (init { windowMs := 60000, maxRequests := 1 } true) simultaneousCalls =
        some s ∧ (∀ k < s.callCount, (s.calls k).phase.Done) ∧ s.callCount = 2 ∧
      s.allowedCount = 2 ∧ s.stored = some { count := 1, resetAt := 60000 } := by
  constructor
  all_goals
    refine (Machine.exists_exec_of_test (p := fun s =>
      decide ((∀ k < s.callCount, (s.calls k).phase.Done) ∧ s.callCount = 2 ∧
        s.allowedCount = 2 ∧ s.stored = some { count := 1, resetAt := 60000 })) ?_).imp
      fun s hs => ⟨hs.1, of_decide_eq_true hs.2⟩
    decide +kernel

end DefaultRateLimiter

end Datasole
