import Datasole.Server.State.LiveStateRun

/-!
# Clients that join a live state

One client of one key, on a server whose calls of `ServerLiveState.setState` are awaited one after
the other. The client connects, loses its connection and connects again at any moment, also between
the awaits of a call. Frames reach it in the order they were sent, and those on their way when the
connection is lost never do. Its state store outlives the connection.

Nothing in the server sends `STATE_SNAPSHOT`, so the first frame after connecting is a patch, and it
leads to the stored value only from the value before it. `CaughtUp` is the one condition: the client
already has that value when it is sent the patch.
-/

namespace Datasole

namespace LiveStateJoin

/-- A frame on its way to the client, and what was stored when it was sent. -/
structure Sent where
  frame : StateFrame
  stored : Option Json
deriving DecidableEq

/-- The server, what was stored when its last call completed, whether the client is connected, the
frames on their way to it, its state store, and what was stored when the last frame was sent that
it processed since it connected. -/
structure Sys where
  server : LiveStateRun.Sys
  told : Option Json
  connected : Bool
  inFlight : List Sent
  mirror : StateStore
  last : Option (Option Json)

inductive Act where
  | setState (value : Json)
  /-- The call in flight goes on to its next await. -/
  | advance
  | connect
  | disconnect
  /-- The client processes the next frame. -/
  | deliver

/-- The client was never connected. -/
def init (channel : Option SyncChannel) (stored : Option Json) : Sys where
  server := LiveStateRun.init channel stored
  told := stored
  connected := false
  inFlight := []
  mirror := ⟨none⟩
  last := none

/-- The server goes on to `server`; what it broadcasts on the way is sent if the client is
connected. -/
def Sys.serve (s : Sys) (server : LiveStateRun.Sys) : Sys where
  server := server
  told := if server.calls.isEmpty then server.stored else s.told
  connected := s.connected
  inFlight :=
    if s.connected then
      s.inFlight ++ (server.broadcasts.drop s.server.broadcasts.length).map fun patches =>
        ⟨.statePatch patches, server.stored⟩
    else s.inFlight
  mirror := s.mirror
  last := s.last

def step (lib : FastJsonPatch) (s : Sys) : Act → Option Sys
  | .setState value =>
    if s.server.calls.isEmpty then
      (LiveStateRun.step lib s.server (.setState value)).map s.serve
    else none
  | .advance => (LiveStateRun.step lib s.server (.advance 0)).map s.serve
  | .connect => if s.connected then none else some { s with connected := true }
  | .disconnect =>
    if s.connected then some { s with connected := false, inFlight := [], last := none } else none
  | .deliver =>
    match s.inFlight with
    | [] => none
    | sent :: rest =>
      some { s with
        inFlight := rest
        mirror := s.mirror.onStateFrame lib sent.frame
        last := some sent.stored }

/-- Nothing was sent to the client since it connected. -/
def Sys.Fresh (s : Sys) : Prop := s.inFlight = [] ∧ s.last = none

instance (s : Sys) : Decidable s.Fresh := inferInstanceAs (Decidable (_ ∧ _))

/-- Patches that go out to the client are accepted there; and if they are the first since it
connected, the client has the value that they were computed against. -/
def Sys.Reached (s : Sys) (patches : List StatePatch) : Prop :=
  validatePatches patches = .ok () ∧
    (s.Fresh → document s.mirror.state = document s.told ∧
      (nonNull s.mirror.state = none → inferEmptyBaseDocument patches = .obj []))

instance (s : Sys) (patches : List StatePatch) : Decidable (s.Reached patches) :=
  inferInstanceAs (Decidable (_ ∧ (_ → _ ∧ (_ → _))))

/-- The patches that the call in flight is about to broadcast. -/
def Sys.broadcasting (s : Sys) : Option (List StatePatch) :=
  match s.server.calls with
  | ⟨_, .broadcast patches _⟩ :: _ => some patches
  | _ => none

def CaughtUp (s : Sys) : Act → Prop
  | .advance =>
    ∀ patches ∈ s.broadcasting, s.connected = true → patches ≠ [] → s.Reached patches
  | .setState _ | .connect | .disconnect | .deliver => True

instance (s : Sys) : ∀ a, Decidable (CaughtUp s a)
  | .advance => inferInstanceAs (Decidable (∀ _ ∈ _, _ → _ → _))
  | .setState _ | .connect | .disconnect | .deliver => .isTrue trivial

/-- The values that a run sets. -/
def setValues (as : List Act) : List Json :=
  as.filterMap fun
    | .setState value => some value
    | _ => none

/-! ## What is on the way leads to what the client is to have -/

variable {lib : FastJsonPatch} {values : List Json} {s t : Sys}

/-- Each frame brings the client to what was stored when it was sent, the last one to `told`. -/
def Leads (lib : FastJsonPatch) (mirror : StateStore) : List Sent → Option Json → Prop
  | [], told => mirror.state = told
  | sent :: rest, told =>
    mirror.onStateFrame lib sent.frame = ⟨sent.stored⟩ ∧ Leads lib ⟨sent.stored⟩ rest told

/-- One more frame that leads on. -/
theorem Leads.concat {mirror : StateStore} {inFlight : List Sent} {told : Option Json}
    (h : Leads lib mirror inFlight told) {sent : Sent}
    (hsent : (⟨told⟩ : StateStore).onStateFrame lib sent.frame = ⟨sent.stored⟩) :
    Leads lib mirror (inFlight ++ [sent]) sent.stored := by
  induction inFlight generalizing mirror with
  | nil =>
    obtain rfl : mirror = ⟨told⟩ := by
      cases mirror
      exact congrArg _ h
    exact ⟨hsent, rfl⟩
  | cons first rest ih => exact ⟨h.1, ih h.2⟩

/-- What the call in flight knows: `told` is stored until it writes, and its patches lead from there
to its value. -/
def Progress (lib : FastJsonPatch) (stored told : Option Json) (value : Json) :
    LiveStateRun.Phase → Prop
  | .get => stored = told
  | .set _ patches => stored = told ∧ patches = diff lib told (some value)
  | .publish patches _ | .broadcast patches _ =>
    stored = some value ∧ patches = diff lib told (some value)

/-- At most one call is in flight. -/
inductive Serving (lib : FastJsonPatch) (values : List Json) (server : LiveStateRun.Sys)
    (told : Option Json) : Prop
  | idle (hcalls : server.calls = []) (hstored : server.stored = told)
  | busy (call : LiveStateRun.Call) (hcalls : server.calls = [call]) (hvalue : call.value ∈ values)
      (hphase : Progress lib server.stored told call.value call.phase)

structure Inv (lib : FastJsonPatch) (values : List Json) (s : Sys) : Prop where
  channel : ∀ c ∈ s.server.channel, c.Immediate
  serving : Serving lib values s.server s.told
  told : ∀ a ∈ s.told, a ∈ values
  offline : s.connected = false → s.Fresh
  last : ∀ a ∈ s.last, s.mirror.state = a
  follows : ¬ s.Fresh → ∃ a, s.told = some a ∧ Leads lib s.mirror s.inFlight (some a)

/-- Before the first call the client is not connected. -/
theorem inv_init {channel : Option SyncChannel} (hchannel : ∀ c ∈ channel, c.Immediate)
    {start : Option Json} (hstart : ∀ a ∈ start, a ∈ values) :
    Inv lib values (init channel start) where
  channel := hchannel
  serving := .idle rfl rfl
  told := hstart
  offline := fun _ => ⟨rfl, rfl⟩
  last := nofun
  follows := fun h => absurd ⟨rfl, rfl⟩ h

/-- A server that broadcasts nothing and is not done sends nothing and tells nothing. -/
theorem serve_quiet {server : LiveStateRun.Sys} (hbusy : server.calls ≠ [])
    (hquiet : server.broadcasts = s.server.broadcasts) :
    s.serve server = { s with server := server } := by
  unfold Sys.serve
  rw [hquiet, List.drop_length, List.map_nil, List.append_nil, ite_self,
    if_neg (by simpa using hbusy)]

/-- A call goes on and sends nothing. -/
theorem inv_quiet (h : Inv lib values s) {server : LiveStateRun.Sys} {call : LiveStateRun.Call}
    (hchannel : server.channel = s.server.channel) (hcalls : server.calls = [call])
    (hquiet : server.broadcasts = s.server.broadcasts) (hvalue : call.value ∈ values)
    (hphase : Progress lib server.stored s.told call.value call.phase) :
    Inv lib values (s.serve server) := by
  rw [serve_quiet (by simp [hcalls]) hquiet]
  exact ⟨hchannel ▸ h.channel, .busy call hcalls hvalue hphase, h.told, h.offline, h.last,
    h.follows⟩

/-- A call begins when the one before has completed. -/
theorem inv_setState (h : Inv lib values s) {value : Json} (hvalue : value ∈ values)
    (hstep : step lib s (.setState value) = some t) : Inv lib values t := by
  simp only [step, LiveStateRun.step, Option.map_some] at hstep
  split at hstep
  · next hidle =>
    cases hstep
    rw [List.isEmpty_iff] at hidle
    have hcalls : s.server.calls ++ [⟨value, .get⟩] = [⟨value, .get⟩] := by rw [hidle]; rfl
    have hstored : s.server.stored = s.told := by
      cases h.serving with
      | idle _ hstored => exact hstored
      | busy call hbusy => rw [hidle] at hbusy; cases hbusy
    exact inv_quiet h rfl hcalls rfl hvalue hstored
  · cases hstep

/-- The patches of a call lead from the document they were computed against to its value. -/
theorem applyPatch_told (hlib : lib.Roundtrips (.obj [] :: values))
    (hobj : ∀ a ∈ values, a.IsObject) {told : Option Json} (htold : ∀ a ∈ told, a ∈ values)
    {value : Json} (hvalue : value ∈ values) :
    lib.applyPatch (document told) (diff lib told (some value)) = .ok value := by
  have hdoc : document told ∈ .obj [] :: values := by
    cases told with
    | none => exact List.mem_cons_self
    | some a =>
      rw [document_some (hobj a (htold a rfl)).ne_null]
      exact List.mem_cons_of_mem _ (htold a rfl)
  rw [diff_eq, document_some (hobj value hvalue).ne_null]
  exact hlib _ hdoc value (List.mem_cons_of_mem _ hvalue)

/-- A call that found no difference ends without a broadcast, and the document stored is the one
that was. -/
theorem inv_unchanged (h : Inv lib values s) (hobj : ∀ a ∈ values, a.IsObject) {value : Json}
    (hvalue : value ∈ values) (hstored : s.server.stored = some value)
    (hsame : document s.told = value) :
    Inv lib values (s.serve { s.server with calls := [] }) := by
  have hserve : s.serve { s.server with calls := [] } =
      { s with server := { s.server with calls := [] }, told := some value } := by
    simp [Sys.serve, hstored]
  rw [hserve]
  refine ⟨h.channel, .idle rfl hstored, ?_, h.offline, h.last, fun hfresh => ?_⟩
  · rintro a ⟨⟩
    exact hvalue
  · obtain ⟨a, ha, hleads⟩ := h.follows hfresh
    have hmem := h.told a ha
    rw [ha, document_some (hobj a hmem).ne_null] at hsame
    exact ⟨value, rfl, hsame ▸ hleads⟩

/-- The end of a call that found a difference. -/
theorem serve_broadcast (hchannel : ∀ c ∈ s.server.channel, c.Immediate)
    {patches : List StatePatch} (hne : patches ≠ []) :
    s.serve { s.server.broadcast patches with calls := [] } = { s with
      server := { s.server with calls := [], broadcasts := s.server.broadcasts ++ [patches] }
      told := s.server.stored
      inFlight :=
        if s.connected then s.inFlight ++ [⟨.statePatch patches, s.server.stored⟩]
        else s.inFlight } := by
  rw [LiveStateRun.broadcast_eq hchannel hne]
  simp [Sys.serve]

/-- A call that found a difference ends with a broadcast, which brings a client that is reached to
the stored value. -/
theorem inv_broadcast (h : Inv lib values s) (hobj : ∀ a ∈ values, a.IsObject) {value : Json}
    (hvalue : value ∈ values) (hstored : s.server.stored = some value) {patches : List StatePatch}
    (hne : patches ≠ []) (happly : lib.applyPatch (document s.told) patches = .ok value)
    (hreached : s.connected = true → s.Reached patches) :
    Inv lib values (s.serve { s.server.broadcast patches with calls := [] }) := by
  rw [serve_broadcast h.channel hne, hstored]
  have htold : ∀ a ∈ some value, a ∈ values := by
    rintro a ⟨⟩
    exact hvalue
  cases hon : s.connected with
  | false =>
    rw [if_neg Bool.false_ne_true]
    have hfresh := h.offline hon
    exact ⟨h.channel, .idle rfl hstored, htold, fun _ => hfresh, h.last,
      fun hnot => absurd hfresh hnot⟩
  | true =>
    rw [if_pos rfl]
    refine ⟨h.channel, .idle rfl hstored, htold, nofun, h.last, fun _ => ⟨value, rfl, ?_⟩⟩
    obtain ⟨hvalid, hfirst⟩ := hreached hon
    -- either the client has nothing yet and is caught up, or it is led to what was told before
    by_cases hfresh : s.Fresh
    · obtain ⟨hdoc, hbase⟩ := hfirst hfresh
      show Leads lib s.mirror (s.inFlight ++ _) _
      rw [hfresh.1]
      refine ⟨StateStore.onStateFrame_patch ?_, rfl⟩
      rw [applyPatch_document hne hvalid hbase, hdoc, happly]
      rfl
    · obtain ⟨a, ha, hleads⟩ := h.follows hfresh
      have hanull := (hobj a (h.told a ha)).ne_null
      refine hleads.concat (StateStore.onStateFrame_patch ?_)
      rw [applyPatch_of_valid hanull hvalid, ← document_some hanull, ← ha, happly]
      rfl

/-- A call goes on: it compares, stores, or sends its patches to the client if that is connected. -/
theorem inv_advance (h : Inv lib values s) (hlib : lib.Roundtrips (.obj [] :: values))
    (hobj : ∀ a ∈ values, a.IsObject) (hg : CaughtUp s .advance)
    (hstep : step lib s .advance = some t) : Inv lib values t := by
  cases h.serving with
  | idle hcalls => simp [step, LiveStateRun.step, hcalls] at hstep
  | busy call hcalls hvalue hphase =>
    obtain ⟨value, phase⟩ := call
    simp only [step, LiveStateRun.step, hcalls, List.getElem?_cons_zero] at hstep
    cases phase with
    | get =>
      cases hstep
      refine inv_quiet h rfl rfl rfl hvalue ⟨hphase, ?_⟩
      show diff lib s.server.stored _ = _
      rw [show s.server.stored = s.told from hphase]
    | set current patches =>
      cases hstep
      exact inv_quiet h rfl rfl rfl hvalue ⟨rfl, hphase.2⟩
    | publish patches write =>
      cases hstep
      exact inv_quiet h rfl rfl rfl hvalue hphase
    | broadcast patches write =>
      cases hstep
      obtain ⟨hstored, hpatches⟩ := hphase
      have happly := applyPatch_told hlib hobj h.told hvalue
      rw [← show patches = diff lib s.told (some value) from hpatches] at happly
      by_cases hne : patches = []
      · subst hne
        exact inv_unchanged h hobj hvalue hstored (Except.ok.inj happly)
      · refine inv_broadcast h hobj hvalue hstored hne happly fun hon => ?_
        exact hg patches (by simp [Sys.broadcasting, hcalls]) hon hne

/-- The client processes the first frame on its way. -/
theorem inv_deliver (h : Inv lib values s) (hstep : step lib s .deliver = some t) :
    Inv lib values t := by
  cases hflight : s.inFlight with
  | nil => simp [step, hflight] at hstep
  | cons sent rest =>
    simp only [step, hflight, Option.some.injEq] at hstep
    subst hstep
    have hfresh : ¬ s.Fresh := fun hfresh => by simp [hfresh.1] at hflight
    obtain ⟨a, ha, hleads⟩ := h.follows hfresh
    rw [hflight] at hleads
    refine ⟨h.channel, h.serving, h.told, fun hoff => absurd (h.offline hoff) hfresh, ?_, ?_⟩
    · rintro b ⟨⟩
      simp only [hleads.1]
    · refine fun _ => ⟨a, ha, ?_⟩
      simp only [hleads.1]
      exact hleads.2

/-- Every step keeps the invariant in which the client's first patches reach it as they should. -/
theorem inv_step (hlib : lib.Roundtrips (.obj [] :: values)) (hobj : ∀ a ∈ values, a.IsObject)
    (h : Inv lib values s) {a : Act} (ha : ∀ value, a = .setState value → value ∈ values)
    (hg : CaughtUp s a) (hstep : step lib s a = some t) : Inv lib values t := by
  cases a with
  | setState value => exact inv_setState h (ha value rfl) hstep
  | advance => exact inv_advance h hlib hobj hg hstep
  | connect =>
    simp only [step] at hstep
    split at hstep
    · cases hstep
    · cases hstep
      exact ⟨h.channel, h.serving, h.told, nofun, h.last, h.follows⟩
  | disconnect =>
    simp only [step] at hstep
    split at hstep
    · cases hstep
      exact ⟨h.channel, h.serving, h.told, fun _ => ⟨rfl, rfl⟩, nofun,
        fun hfresh => absurd ⟨rfl, rfl⟩ hfresh⟩
    · cases hstep
  | deliver => exact inv_deliver h hstep

theorem mem_setValues {value : Json} {as : List Act} (h : Act.setState value ∈ as) :
    value ∈ setValues as :=
  List.mem_filterMap.mpr ⟨_, h, rfl⟩

/-- Once the client has processed a frame since it connected, it has what was stored when the last
one was sent; and that is what is stored as soon as no call is in flight and no frame on its way. -/
theorem first_patch_catches_up {channel : Option SyncChannel} {start : Option Json} {as : List Act}
    (hchannel : ∀ c ∈ channel, c.Immediate)
    (hobj : ∀ a ∈ start.toList ++ setValues as, a.IsObject)
    (hlib : lib.Roundtrips (.obj [] :: (start.toList ++ setValues as)))
    (hg : Machine.Guarded (step lib) CaughtUp (init channel start) as)
    (hrun : Machine.exec (step lib) (init channel start) as = some s) :
    ∀ a ∈ s.last, s.mirror.state = a ∧
      (s.inFlight = [] → s.server.calls = [] → a = s.server.stored) := by
  have hg' :
      Machine.Guarded (step lib) (fun s a => CaughtUp s a ∧ a ∈ as) (init channel start) as :=
    hg.imp fun _ a ha h => ⟨h, ha⟩
  have hinv : Inv lib (start.toList ++ setValues as) s := by
    refine Machine.exec_invariant_guarded ?_ (inv_init hchannel ?_) hg' hrun
    · rintro s a t hI ⟨hcaught, ha⟩ hstep
      refine inv_step hlib hobj hI ?_ hcaught hstep
      rintro value rfl
      exact List.mem_append_right _ (mem_setValues ha)
    · exact fun a ha => List.mem_append_left _ (Option.mem_toList.mpr ha)
  intro a ha
  refine ⟨hinv.last a ha, fun hflight hcalls => ?_⟩
  have hfresh : ¬ s.Fresh := fun hfresh => by simp [hfresh.2] at ha
  obtain ⟨b, hb, hleads⟩ := hinv.follows hfresh
  rw [hflight] at hleads
  cases hinv.serving with
  | idle _ hstored => rw [← hinv.last a ha, hleads, hstored, hb]
  | busy call hbusy => rw [hcalls] at hbusy; cases hbusy

/-- A call from its start to its broadcast. -/
def awaited (value : Json) : List Act :=
  .setState value :: List.replicate 4 .advance

/-- The client gets a change, loses its connection and is back before the next change. -/
def reconnectingRun : List Act :=
  .connect :: awaited (.obj [("a", .num 1)]) ++ [.deliver, .disconnect, .connect] ++
    awaited (.obj [("a", .num 1), ("b", .num 2)]) ++ [.deliver]

/-- After it has connected again the client has all that is stored. -/
theorem first_patch_catches_up_reconnecting : ∃ s,
    Machine.exec (step LiveStateRun.flatLibrary) (init none none) reconnectingRun = some s ∧
    s.last = some s.server.stored ∧
    s.mirror.state = some (.obj [("a", .num 1), ("b", .num 2)]) := by
  obtain ⟨s, hrun, htest⟩ := Machine.exists_exec_of_test
    (show (Machine.exec (step LiveStateRun.flatLibrary) (init none none) reconnectingRun).map
      (fun s => decide (s.last = some s.server.stored ∧
        s.server.stored = some (.obj [("a", .num 1), ("b", .num 2)]))) = some true by
      decide +kernel)
  obtain ⟨hlast, hstored⟩ := of_decide_eq_true htest
  have hmirror := (first_patch_catches_up (by simp) (by decide +kernel) (by decide +kernel)
    (by decide +kernel) hrun _ hlast).1
  exact ⟨s, hrun, hlast, hmirror.trans hstored⟩

/-- The client connects after the first change, and is sent only the second one. -/
def lateRun : List Act :=
  awaited (.obj [("a", .num 1)]) ++ [.connect] ++
    awaited (.obj [("a", .num 1), ("b", .num 2)]) ++ [.deliver]

/-- The client ends with the second change alone. -/
theorem late_client_misses_first_change : ∃ s,
    Machine.exec (step LiveStateRun.flatLibrary) (init none none) lateRun = some s ∧
    (∀ a ∈ setValues lateRun, a.IsObject) ∧
    LiveStateRun.flatLibrary.Roundtrips (.obj [] :: setValues lateRun) ∧
    s.connected = true ∧ s.inFlight = [] ∧ s.server.calls.isEmpty = true ∧
    s.last = some s.server.stored ∧
    s.server.stored = some (.obj [("a", .num 1), ("b", .num 2)]) ∧
    s.mirror.state = some (.obj [("b", .num 2)]) := by
  obtain ⟨s, hrun, htest⟩ := Machine.exists_exec_of_test
    (show (Machine.exec (step LiveStateRun.flatLibrary) (init none none) lateRun).map
      (fun s => decide (s.connected = true ∧ s.inFlight = [] ∧ s.server.calls.isEmpty = true ∧
        s.last = some s.server.stored ∧
        s.server.stored = some (.obj [("a", .num 1), ("b", .num 2)]) ∧
        s.mirror.state = some (.obj [("b", .num 2)]))) = some true by decide +kernel)
  exact ⟨s, hrun, by decide +kernel, by decide +kernel, of_decide_eq_true htest⟩

end LiveStateJoin

end Datasole
