import Mathlib.Data.List.Perm.Basic
import Datasole.Common.JsonEdit
import Datasole.Common.Machine
import Datasole.Client.State.StateStore
import Datasole.Server.Sync.SyncChannel

/-!
# Concurrent changes of one live state

Any number of calls of `ServerLiveState.setState` on one key, each cut at the awaits of
`StateManager.setState`, and what is broadcast to the clients. A call reads the stored value,
compares it with the new one, stores the new one, publishes, and only then broadcasts the patches;
nothing keeps other calls from doing the same in between.

A client that applies the broadcasts follows the stored value if the patches written but not yet
broadcast lead from what the client has to what is stored. `Inv.chain` says so, and `InOrder` names
the two steps that break it: a write over a value that was not compared with, and a broadcast that
overtakes an older one.
-/

namespace Datasole

namespace LiveStateRun

/-- Where a call waits; what it has computed goes with it. -/
inductive Phase where
  | get
  | set (current : Option Json) (patches : List StatePatch)
  | publish (patches : List StatePatch) (write : ℕ)
  | broadcast (patches : List StatePatch) (write : ℕ)

/-- A call of `setState` in flight. -/
structure Call where
  value : Json
  phase : Phase

/-- The backend's entry for the key and how often it was written, the key's sync channel, the calls
in flight, and the patch lists broadcast so far. -/
structure Sys where
  stored : Option Json
  writes : ℕ
  channel : Option SyncChannel
  calls : List Call
  broadcasts : List (List StatePatch)

inductive Act where
  | setState (value : Json)
  /-- The `k`-th call in flight goes on to its next await. -/
  | advance (k : ℕ)

def init (channel : Option SyncChannel) (stored : Option Json) : Sys where
  stored := stored
  writes := 0
  channel := channel
  calls := []
  broadcasts := []

/-- The end of `ServerLiveState.setState`; a batch that the channel flushes is broadcast. -/
def Sys.broadcast (s : Sys) (patches : List StatePatch) : Sys :=
  if patches.isEmpty then s
  else
    match s.channel with
    | none => { s with broadcasts := s.broadcasts ++ [patches] }
    | some channel =>
      let (channel, batches) := channel.enqueue patches
      { s with channel := some channel, broadcasts := s.broadcasts ++ batches }

def step (lib : FastJsonPatch) (s : Sys) : Act → Option Sys
  | .setState value => some { s with calls := s.calls ++ [⟨value, .get⟩] }
  | .advance k =>
    match s.calls[k]? with
    | none => none
    | some call =>
      match call.phase with
      | .get =>
        let patches := diff lib s.stored (some call.value)
        some { s with calls := s.calls.set k { call with phase := .set s.stored patches } }
      | .set _ patches =>
        some { s with
          stored := some call.value
          writes := s.writes + 1
          calls := s.calls.set k { call with phase := .publish patches s.writes } }
      | .publish patches write =>
        some { s with calls := s.calls.set k { call with phase := .broadcast patches write } }
      | .broadcast patches _ =>
        some { s.broadcast patches with calls := s.calls.eraseIdx k }

/-- The patches of a call that has written but not broadcast, with the number of its write. -/
def Call.unsent (call : Call) : Option (List StatePatch × ℕ) :=
  match call.phase with
  | .publish patches write | .broadcast patches write => some (patches, write)
  | _ => none

/-- A call writes while the value it read is still stored, and with patches that clients accept;
and it broadcasts a change after all changes that were written before it. -/
def Phase.InOrder (lib : FastJsonPatch) (s : Sys) (value : Json) : Phase → Prop
  | .set current _ =>
    s.stored = current ∧ validatePatches (diff lib current (some value)) = .ok ()
  | .broadcast patches write =>
    patches = [] ∨ ∀ other ∈ s.calls, ∀ w ∈ other.unsent, w.2 < write → w.1 = []
  | .get | .publish _ _ => True

instance (lib : FastJsonPatch) (s : Sys) (value : Json) :
    ∀ phase : Phase, Decidable (phase.InOrder lib s value)
  | .set _ _ => inferInstanceAs (Decidable (_ ∧ _))
  | .broadcast _ _ => inferInstanceAs (Decidable (_ ∨ _))
  | .get | .publish _ _ => .isTrue trivial

def InOrder (lib : FastJsonPatch) (s : Sys) : Act → Prop
  | .setState _ => True
  | .advance k => ∀ call ∈ s.calls[k]?, call.phase.InOrder lib s call.value

instance (lib : FastJsonPatch) (s : Sys) : ∀ a, Decidable (InOrder lib s a)
  | .setState _ => .isTrue trivial
  | .advance _ => inferInstanceAs (Decidable (∀ _ ∈ _, _))

/-- The values that a run sets. -/
def setValues (as : List Act) : List Json :=
  as.filterMap fun
    | .setState value => some value
    | .advance _ => none

/-! ## What is written but not broadcast -/

variable {lib : FastJsonPatch} {start : Json} {s t : Sys}

/-- `chain` lists what is written but not broadcast in the order of the writes, and leads from what
the clients have to what is stored. -/
structure Chain (lib : FastJsonPatch) (start : Json) (s : Sys)
    (chain : List (List StatePatch × ℕ)) : Prop where
  perm : chain.Perm (s.calls.filterMap Call.unsent)
  sorted : chain.Pairwise (·.2 < ·.2)
  written : ∀ w ∈ chain, w.2 < s.writes
  leads : (StateStore.mk (some start)).applyAll lib (s.broadcasts ++ chain.map Prod.fst) =
    .ok ⟨s.stored⟩

/-- A call sets one of `values`, and the patches it is about to write are what it compared. -/
structure Call.Valid (lib : FastJsonPatch) (values : List Json) (call : Call) : Prop where
  value : call.value ∈ values
  patches : ∀ current patches, call.phase = .set current patches →
    patches = diff lib current (some call.value)

structure Inv (lib : FastJsonPatch) (values : List Json) (start : Json) (s : Sys) : Prop where
  stored : ∃ a ∈ values, s.stored = some a
  calls : ∀ call ∈ s.calls, call.Valid lib values
  channel : ∀ c ∈ s.channel, c.Immediate
  chain : ∃ chain, Chain lib start s chain

/-- Taking the `k`-th call out of the list and putting it first moves nothing else. -/
theorem unsent_perm {calls : List Call} {k : ℕ} {call : Call} (h : calls[k]? = some call) :
    (calls.filterMap Call.unsent).Perm ((call :: calls.eraseIdx k).filterMap Call.unsent) := by
  obtain ⟨hk, rfl⟩ := List.getElem?_eq_some_iff.mp h
  exact (List.getElem_cons_eraseIdx_perm hk).symm.filterMap _

/-- A call that goes on may be taken as the first of the calls. -/
theorem unsent_set_perm {calls : List Call} {k : ℕ} {call : Call} (h : calls[k]? = some call)
    (call' : Call) :
    ((calls.set k call').filterMap Call.unsent).Perm
      ((call' :: calls.eraseIdx k).filterMap Call.unsent) := by
  obtain ⟨hk, rfl⟩ := List.getElem?_eq_some_iff.mp h
  exact (List.set_perm_cons_eraseIdx hk call').filterMap _

/-- A call that goes on without writing or broadcasting leaves the chain as it is. -/
theorem Chain.set_of_unsent_eq {chain : List (List StatePatch × ℕ)} (h : Chain lib start s chain)
    {k : ℕ} {call call' : Call} (hk : s.calls[k]? = some call) (hu : call'.unsent = call.unsent) :
    Chain lib start { s with calls := s.calls.set k call' } chain where
  perm := by
    refine h.perm.trans ((unsent_perm hk).trans ?_)
    refine List.Perm.trans ?_ (unsent_set_perm hk call').symm
    rw [List.filterMap_cons, List.filterMap_cons, hu]
  sorted := h.sorted
  written := h.written
  leads := h.leads

/-- A write of patches that lead from the stored value to the new one extends the chain. -/
theorem Chain.write {chain : List (List StatePatch × ℕ)} (h : Chain lib start s chain)
    {k : ℕ} {call : Call} {current : Option Json} {patches : List StatePatch}
    (hk : s.calls[k]? = some call) (hphase : call.phase = .set current patches)
    (happly : applyPatch lib s.stored patches = .ok (some call.value)) :
    Chain lib start { s with
      stored := some call.value
      writes := s.writes + 1
      calls := s.calls.set k { call with phase := .publish patches s.writes } }
      (chain ++ [(patches, s.writes)]) where
  perm := by
    have hrest : chain.Perm ((s.calls.eraseIdx k).filterMap Call.unsent) := by
      refine h.perm.trans ((unsent_perm hk).trans ?_)
      simp [Call.unsent, hphase]
    refine (List.perm_append_singleton _ _).trans ?_
    exact (hrest.cons _).trans
      (unsent_set_perm hk { call with phase := .publish patches s.writes }).symm
  sorted := by
    refine List.pairwise_append.mpr ⟨h.sorted, List.pairwise_singleton _ _, ?_⟩
    intro w hw w' hw'
    rw [List.mem_singleton.mp hw']
    exact h.written w hw
  written := by
    intro w hw
    rcases List.mem_append.mp hw with hw | hw
    · exact Nat.lt_succ_of_lt (h.written w hw)
    · rw [List.mem_singleton.mp hw]
      exact Nat.lt_succ_self _
  leads := by
    rw [List.map_append, ← List.append_assoc, StateStore.applyAll_append, h.leads]
    show StateStore.applyAll lib ⟨s.stored⟩ [patches] = _
    rw [StateStore.applyAll_cons, StateStore.applyPatches, happly]
    rfl

/-- Without a channel, or with an immediate one, a list that is not empty is broadcast at once. -/
theorem broadcast_eq {patches : List StatePatch} (hchannel : ∀ c ∈ s.channel, c.Immediate)
    (hne : patches ≠ []) :
    s.broadcast patches = { s with broadcasts := s.broadcasts ++ [patches] } := by
  unfold Sys.broadcast
  rw [if_neg (by simpa using hne)]
  cases hc : s.channel with
  | none => rfl
  | some c =>
    dsimp only
    rw [(hchannel c hc).enqueue hne, ← hc]

/-- A broadcast that overtakes no older change takes its patches out of the chain. -/
theorem Chain.broadcast {chain : List (List StatePatch × ℕ)} (h : Chain lib start s chain)
    {k : ℕ} {call : Call} {patches : List StatePatch} {write : ℕ}
    (hk : s.calls[k]? = some call) (hphase : call.phase = .broadcast patches write)
    (horder : patches = [] ∨ ∀ other ∈ s.calls, ∀ w ∈ other.unsent, w.2 < write → w.1 = [])
    (hchannel : ∀ c ∈ s.channel, c.Immediate) :
    ∃ chain', Chain lib start { s.broadcast patches with calls := s.calls.eraseIdx k } chain' := by
  have hperm : chain.Perm ((patches, write) :: (s.calls.eraseIdx k).filterMap Call.unsent) := by
    refine h.perm.trans ((unsent_perm hk).trans ?_)
    simp [Call.unsent, hphase]
  obtain ⟨pre, post, rfl⟩ := List.append_of_mem (hperm.mem_iff.mpr List.mem_cons_self)
  have hrest : (pre ++ post).Perm ((s.calls.eraseIdx k).filterMap Call.unsent) :=
    (List.perm_middle.symm.trans hperm).cons_inv
  have hsub : (pre ++ post).Sublist (pre ++ (patches, write) :: post) :=
    (List.sublist_cons_self _ _).append_left pre
  have hsorted : (pre ++ post).Pairwise (·.2 < ·.2) := h.sorted.sublist hsub
  have hwritten : ∀ w ∈ pre ++ post, w.2 < s.writes := fun w hw => h.written w (hsub.subset hw)
  have hleads := h.leads
  rw [List.map_append, List.map_cons] at hleads
  refine ⟨pre ++ post, ?_⟩
  by_cases hpatches : patches = []
  · -- nothing is broadcast, and an empty list may leave the chain at any place
    subst hpatches
    refine ⟨hrest, hsorted, hwritten, ?_⟩
    have hskip := @StateStore.applyAll_skip lib ⟨some start⟩ (s.broadcasts ++ pre.map Prod.fst)
      [[]] (post.map Prod.fst) (fun ps hps => List.mem_singleton.mp hps)
    rw [List.append_assoc, List.append_assoc] at hskip
    rw [List.map_append]
    exact hskip.symm.trans hleads
  · rw [broadcast_eq hchannel hpatches]
    refine ⟨hrest, hsorted, hwritten, ?_⟩
    -- what was written before has no patches, so the two orders come to the same
    have hpre : ∀ ps ∈ pre.map Prod.fst, ps = [] := by
      intro ps hps
      obtain ⟨w, hw, rfl⟩ := List.mem_map.mp hps
      have hmem : w ∈ s.calls.filterMap Call.unsent :=
        h.perm.subset (List.mem_append_left _ hw)
      obtain ⟨other, hother, hunsent⟩ := List.mem_filterMap.mp hmem
      refine horder.resolve_left hpatches other hother w hunsent ?_
      exact (List.pairwise_append.mp h.sorted).2.2 w hw _ List.mem_cons_self
    rw [List.map_append]
    rw [StateStore.applyAll_skip _ hpre] at hleads ⊢
    rw [List.append_assoc]
    exact hleads

/-! ## A client follows what is stored -/

variable {values : List Json}

/-- The client begins with what is stored. -/
theorem inv_init {channel : Option SyncChannel} (hchannel : ∀ c ∈ channel, c.Immediate)
    (hstart : start ∈ values) : Inv lib values start (init channel (some start)) where
  stored := ⟨start, hstart, rfl⟩
  calls := by simp [init]
  channel := hchannel
  chain := ⟨[], List.Perm.nil, List.Pairwise.nil, by simp, rfl⟩

/-- A call that goes on is still valid. -/
theorem valid_set {calls : List Call} (h : ∀ call ∈ calls, call.Valid lib values) (k : ℕ)
    (call' : Call) (h' : call'.Valid lib values) :
    ∀ call ∈ calls.set k call', call.Valid lib values := by
  intro call hcall
  rcases List.mem_or_eq_of_mem_set hcall with hcall | rfl
  · exact h call hcall
  · exact h'

/-- A call that begins has compared nothing. -/
theorem inv_setState (h : Inv lib values start s) {value : Json} (hvalue : value ∈ values) :
    Inv lib values start { s with calls := s.calls ++ [⟨value, .get⟩] } where
  stored := h.stored
  calls := by
    intro call hcall
    rcases List.mem_append.mp hcall with hcall | hcall
    · exact h.calls call hcall
    · rw [List.mem_singleton.mp hcall]
      exact ⟨hvalue, nofun⟩
  channel := h.channel
  chain := by
    obtain ⟨chain, hchain⟩ := h.chain
    refine ⟨chain, ?_, hchain.sorted, hchain.written, hchain.leads⟩
    rw [List.filterMap_append]
    show chain.Perm (_ ++ [])
    rw [List.append_nil]
    exact hchain.perm

/-- A call goes on in order: it reads, writes what leads on from there, or broadcasts what was
written first. -/
theorem inv_advance (hlib : lib.Roundtrips values) (hobj : ∀ v ∈ values, v.IsObject)
    (h : Inv lib values start s) {k : ℕ} (hg : InOrder lib s (.advance k))
    (hstep : step lib s (.advance k) = some t) : Inv lib values start t := by
  obtain ⟨chain, hchain⟩ := h.chain
  simp only [step] at hstep
  cases hk : s.calls[k]? with
  | none => rw [hk] at hstep; cases hstep
  | some call =>
    have hmem : call ∈ s.calls := List.mem_of_getElem? hk
    have hvalid := h.calls call hmem
    have hg := hg call hk
    rw [hk] at hstep
    dsimp only at hstep
    cases hphase : call.phase with
    | get =>
      rw [hphase] at hstep
      cases hstep
      refine ⟨h.stored, valid_set h.calls k _ ⟨hvalid.value, fun current patches heq => ?_⟩,
        h.channel, chain, hchain.set_of_unsent_eq hk (by simp [Call.unsent, hphase])⟩
      cases heq
      rfl
    | set current patches =>
      rw [hphase] at hstep hg
      cases hstep
      obtain ⟨a, ha, hstored⟩ := h.stored
      obtain ⟨hcurrent, haccepted⟩ := hg
      -- the stored value is the one compared with, so the patches lead from it to the new one
      have happly : applyPatch lib s.stored patches = .ok (some call.value) := by
        rw [hvalid.patches current patches hphase, ← hcurrent, hstored]
        rw [← hcurrent, hstored] at haccepted
        exact applyPatch_diff hlib ha hvalid.value (hobj a ha).ne_null
          (hobj _ hvalid.value).ne_null haccepted
      exact ⟨⟨call.value, hvalid.value, rfl⟩, valid_set h.calls k _ ⟨hvalid.value, nofun⟩,
        h.channel, _, hchain.write hk hphase happly⟩
    | publish patches write =>
      rw [hphase] at hstep
      cases hstep
      exact ⟨h.stored, valid_set h.calls k _ ⟨hvalid.value, nofun⟩, h.channel, chain,
        hchain.set_of_unsent_eq hk (by simp [Call.unsent, hphase])⟩
    | broadcast patches write =>
      rw [hphase] at hstep hg
      cases hstep
      have hbroadcast : (s.broadcast patches).stored = s.stored ∧
          (s.broadcast patches).channel = s.channel := by
        by_cases hpatches : patches = []
        · subst hpatches
          exact ⟨rfl, rfl⟩
        · rw [broadcast_eq h.channel hpatches]
          exact ⟨rfl, rfl⟩
      exact ⟨hbroadcast.1 ▸ h.stored, fun c hc => h.calls c (List.mem_of_mem_eraseIdx hc),
        hbroadcast.2 ▸ h.channel, hchain.broadcast hk hphase hg h.channel⟩

/-- The values of a run are those that its calls set. -/
theorem mem_setValues {value : Json} {as : List Act} :
    value ∈ setValues as ↔ Act.setState value ∈ as := by
  rw [setValues, List.mem_filterMap]
  constructor
  · rintro ⟨a, ha, heq⟩
    cases a with
    | setState v => cases heq; exact ha
    | advance k => cases heq
  · exact fun h => ⟨_, h, rfl⟩

/-- Whatever calls overlap, a client that starts with the stored value and applies the broadcasts
in order has the stored value once all calls have completed, if every step of the run is in
order. -/
theorem mirror_follows_stored {channel : Option SyncChannel} {as : List Act}
    (hchannel : ∀ c ∈ channel, c.Immediate) (hobj : ∀ v ∈ start :: setValues as, v.IsObject)
    (hlib : lib.Roundtrips (start :: setValues as))
    (hg : Machine.Guarded (step lib) (InOrder lib) (init channel (some start)) as)
    (hrun : Machine.exec (step lib) (init channel (some start)) as = some s)
    (hdone : s.calls = []) :
    (StateStore.mk (some start)).applyAll lib s.broadcasts = .ok ⟨s.stored⟩ := by
  have hg' : Machine.Guarded (step lib) (fun s a => InOrder lib s a ∧ a ∈ as)
      (init channel (some start)) as := hg.imp fun _ a ha h => ⟨h, ha⟩
  have hinv : Inv lib (start :: setValues as) start s := by
    refine Machine.exec_invariant_guarded ?_ (inv_init hchannel List.mem_cons_self) hg' hrun
    rintro s (value | k) t hI ⟨hord, ha⟩ hstep
    · cases hstep
      exact inv_setState hI (List.mem_cons_of_mem _ (mem_setValues.mpr ha))
    · exact inv_advance hlib hobj hI hord hstep
  obtain ⟨chain, hchain⟩ := hinv.chain
  have hnil : chain = [] := by
    have hperm := hchain.perm
    rw [hdone] at hperm
    exact hperm.eq_nil
  simpa [hnil] using hchain.leads

/-! ## Runs with objects whose members are compared whole -/

/-- The library on objects whose members are no objects or arrays. -/
def flatLibrary : FastJsonPatch where
  compare
    | .obj old, .obj new =>
      old.reverse.filterMap (fun (key, value) =>
        match new.lookup key with
        | none => some { op := "remove", path := "/" ++ key }
        | some v => if v = value then none
          else some { op := "replace", path := "/" ++ key, value := some v }) ++
      new.filterMap (fun (key, value) =>
        match old.lookup key with
        | none => some { op := "add", path := "/" ++ key, value := some value }
        | some _ => none)
    | _, _ => []
  applyOperation
    | .obj members, patch =>
      match JsonPointer.splitPath patch.path, patch.op, patch.value with
      | ["", key], "remove", _ => .ok (.obj (Json.removeMember key members))
      | ["", key], "add", some value | ["", key], "replace", some value =>
        .ok (.obj (Json.setMember key value members))
      | _, _, _ => .error "not an operation on a member"
    | _, _ => .error "not an object"

/-- Two calls that overlap, the second getting what the first wrote. -/
def overlappingRun : List Act :=
  [.setState (.obj [("a", .num 1)]), .advance 0, .advance 0,
    .setState (.obj [("a", .num 2), ("b", .str "x")]), .advance 1, .advance 0, .advance 1,
    .advance 0, .advance 0, .advance 0]

/-- Two calls that overlap in order are both followed. -/
theorem overlappingRun_followed : ∃ s, Machine.exec (step flatLibrary)
    (init (some (.new "key" { flushStrategy := .immediate })) (some (.obj []))) overlappingRun =
      some s ∧
    s.stored = some (.obj [("a", .num 2), ("b", .str "x")]) ∧
    (StateStore.mk (some (.obj []))).applyAll flatLibrary s.broadcasts = .ok ⟨s.stored⟩ := by
  obtain ⟨s, hrun, htest⟩ := Machine.exists_exec_of_test
    (show (Machine.exec (step flatLibrary) (init (some (.new "key" { flushStrategy := .immediate }))
      (some (.obj []))) overlappingRun).map (fun s => decide (s.calls.isEmpty = true ∧
        s.stored = some (.obj [("a", .num 2), ("b", .str "x")]))) = some true by decide +kernel)
  obtain ⟨hcalls, hstored⟩ := of_decide_eq_true htest
  refine ⟨s, hrun, hstored, mirror_follows_stored ?_ (by decide +kernel) (by decide +kernel)
    (by decide +kernel) hrun (List.isEmpty_iff.mp hcalls)⟩
  intro c hc
  rw [← Option.some.inj hc]
  exact SyncChannel.immediate_new _ rfl

/-- Two calls made in one tick: both get the old value, then both write, publish and broadcast. -/
def simultaneousRun : List Act :=
  [.setState (.obj [("a", .num 1)]), .setState (.obj [("b", .num 1)]), .advance 0, .advance 1,
    .advance 0, .advance 1, .advance 0, .advance 1, .advance 0, .advance 0]

/-- The client ends with the changes of both calls, the backend with those of the second. -/
theorem simultaneous_calls_diverge : ∃ s,
    Machine.exec (step flatLibrary) (init none (some (.obj []))) simultaneousRun = some s ∧
    (∀ v ∈ .obj [] :: setValues simultaneousRun, v.IsObject) ∧
    flatLibrary.Roundtrips (.obj [] :: setValues simultaneousRun) ∧
    s.calls.isEmpty = true ∧ s.stored = some (.obj [("b", .num 1)]) ∧
    (StateStore.mk (some (.obj []))).applyAll flatLibrary s.broadcasts =
      .ok ⟨some (.obj [("a", .num 1), ("b", .num 1)])⟩ := by
  obtain ⟨s, hrun, htest⟩ := Machine.exists_exec_of_test
    (show (Machine.exec (step flatLibrary) (init none (some (.obj []))) simultaneousRun).map
      (fun s => decide (s.calls.isEmpty = true ∧ s.stored = some (.obj [("b", .num 1)]) ∧
        (StateStore.mk (some (.obj []))).applyAll flatLibrary s.broadcasts =
          .ok ⟨some (.obj [("a", .num 1), ("b", .num 1)])⟩)) = some true by decide +kernel)
  exact ⟨s, hrun, by decide +kernel, by decide +kernel, of_decide_eq_true htest⟩

end LiveStateRun

end Datasole
