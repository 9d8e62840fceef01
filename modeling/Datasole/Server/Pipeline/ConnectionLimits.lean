import Datasole.Common.JsString
import Datasole.Server.Pipeline.FramePipeline
import Datasole.Server.RateLimit.SharedLimiter

/-!
# Rate limits of connections on a shared backend

Servers that share one backend, each with the rate-limit interceptor and the connection ids of
`server/transport/ws-server.ts`: a server counts its connections from 1, so the first connection of
every server, and of the same server after a restart, is `conn-1`. The bucket of a connection is
kept under its id, and the backend keeps it when the connection or the server is gone.

So two connections with one number share a bucket. `FindsOwn` is what has to be so for a connection
not to notice: what its call reads from the backend is what its own calls left there, or of no use
just as that is. Where it is always so, every connection is limited as if there were no other
(`RunsAlone.step`). It is always so where a number is used by one connection only
(`findsOwn_of_onlyOne`), as on a single server that never restarts.
-/

namespace Datasole

open DefaultRateLimiter

/-- Servers `ι` with one backend. -/
structure RateLimitedServers (ι V : Type*) where
  pako : Pako
  text : JsonText V
  config : ι → RateLimitConfig
  /-- The backend copies. -/
  copies : Bool

namespace RateLimitedServers

open SharedLimiter (Settled Sets RefsTo Alike)

/-- The `number`-th connection of a server since its last start, the `boot`-th. -/
structure Link (ι : Type*) where
  server : ι
  boot : ℕ
  number : ℕ
deriving DecidableEq

/-- The limiter's key for a connection in the backend. -/
def bucketKey {ι : Type*} (c : Link ι) : String :=
  "rl:" ++ (FramePipeline.connectionId c.number ++ ":frame")

/-- The servers' connections and the limiter. `received` has the numbers of the messages, `sender`
the connection that each came on. `written` is not in the code: it has what the calls of a
connection last wrote. -/
structure State (ι : Type*) where
  limiter : SharedLimiter String
  boots : ι → ℕ
  connectionCounter : ι → ℕ
  connections : List (Link ι)
  received : List ℕ
  sender : ℕ → Option (Link ι)
  written : Link ι → Option Stored

inductive Act (ι : Type*) where
  /-- The server stops, with its connections, and starts again. -/
  | restart (server : ι)
  | connect (server : ι)
  | close (c : Link ι)
  /-- A message, with a number that no other has. -/
  | receive (c : Link ι) (message : ℕ) (now : ℤ) (raw : Bytes)
  /-- The limiter's call for a message goes on, or what it waits for takes effect. -/
  | advance (c : Link ι) (message : ℕ) (now : ℤ)

variable {ι V : Type*} (servers : RateLimitedServers ι V)

def init : State ι where
  limiter := .init servers.copies
  boots := fun _ => 0
  connectionCounter := fun _ => 0
  connections := []
  received := []
  sender := fun _ => none
  written := fun _ => none

variable [DecidableEq ι]

/-- The interceptor up to the limiter's promise; an exception of the key extractor is ignored. -/
def receive (s : State ι) (c : Link ι) (message : ℕ) (now : ℤ) (raw : Bytes) : State ι :=
  let config := servers.config c.server
  let rule := getRateLimitRule servers.pako servers.text raw config
  match getRateLimitKey servers.pako servers.text (FramePipeline.connectionId c.number) raw config with
  | .error _ => s
  | .ok key =>
    { s with
      limiter := s.limiter.consume message ("rl:" ++ key) rule now
      received := s.received ++ [message]
      sender := Function.update s.sender message (some c) }

/-- A call of the connection goes on. -/
def advance (s : State ι) (c : Link ι) (message : ℕ) (now : ℤ) : Option (State ι) :=
  (s.limiter.advance message now).map fun limiter =>
    { s with
      limiter := limiter
      written :=
        if Sets (s.limiter.phase message) then
          Function.update s.written c (limiter.entries (bucketKey c))
        else s.written }

def step (s : State ι) : Act ι → Option (State ι)
  | .restart i =>
    some { s with
      boots := Function.update s.boots i (s.boots i + 1)
      connectionCounter := Function.update s.connectionCounter i 0
      connections := s.connections.filter (·.server ≠ i) }
  | .connect i =>
    let number := s.connectionCounter i + 1
    some { s with
      connectionCounter := Function.update s.connectionCounter i number
      connections := s.connections ++ [⟨i, s.boots i, number⟩] }
  | .close c => some { s with connections := s.connections.filter (· ≠ c) }
  | .receive c message now raw =>
    if c ∈ s.connections ∧ s.sender message = none then some (servers.receive s c message now raw)
    else none
  | .advance c message now => if s.sender message = some c then advance s c message now else none

/-- Where the call for a message of the connection reads the backend, it gets what is of use of what
the connection's own calls last wrote, and no more. -/
def FindsOwnAt (s : State ι) (c : Link ι) : Phase → Prop
  | .getting asked =>
    s.limiter.live asked (s.limiter.entries (bucketKey c)) = s.limiter.live asked (s.written c)
  | .got _ _ | .settingFresh _ | .returned _ | .setting _ | .written _ | .done _ => True

def FindsOwn (s : State ι) : Act ι → Prop
  | .advance c message _ => FindsOwnAt s c (s.limiter.phase message)
  | .restart _ | .connect _ | .close _ | .receive _ _ _ _ => True

instance (s : State ι) (c : Link ι) : ∀ place, Decidable (FindsOwnAt s c place)
  | .getting _ => inferInstanceAs (Decidable (_ = _))
  | .got _ _ | .settingFresh _ | .returned _ | .setting _ | .written _ | .done _ => .isTrue trivial

instance (s : State ι) : ∀ a, Decidable (FindsOwn s a)
  | .advance _ _ _ => inferInstanceAs (Decidable (FindsOwnAt ..))
  | .restart _ | .connect _ | .close _ | .receive _ _ _ _ => .isTrue trivial

/-! ## A connection by itself -/

/-- What happens to one connection. -/
inductive OwnAct where
  | receive (message : ℕ) (now : ℤ) (raw : Bytes)
  | advance (message : ℕ) (now : ℤ)
deriving DecidableEq

def Act.own (c : Link ι) : Act ι → Option OwnAct
  | .receive d message now raw => if d = c then some (.receive message now raw) else none
  | .advance d message now => if d = c then some (.advance message now) else none
  | .restart _ | .connect _ | .close _ => none

/-- The connection's part in a run. -/
def own (c : Link ι) (acts : List (Act ι)) : List OwnAct := acts.filterMap (·.own c)

structure Arrival where
  message : ℕ
  now : ℤ
  raw : Bytes

def Arrival.content (a : Arrival) : ℤ × Bytes := (a.now, a.raw)

/-- The messages of the connection, in the order received. -/
def arrivals (acts : List OwnAct) : List Arrival := acts.filterMap fun
  | .receive message now raw => some ⟨message, now, raw⟩
  | .advance _ _ => none

/-- The verdict on each of the messages, where there is one. -/
def outcomes {κ : Type*} (limiter : SharedLimiter κ) (acts : List OwnAct) : List (Option Bool) :=
  (arrivals acts).map fun a => limiter.outcome a.message

/-- The times and the contents of the messages. -/
def contents (acts : List OwnAct) : List (ℤ × Bytes) := (arrivals acts).map Arrival.content

/-- The limiter, used by one connection only. -/
def aloneStep (config : RateLimitConfig) (limiter : SharedLimiter Unit) :
    OwnAct → Option (SharedLimiter Unit)
  | .receive message now raw =>
    if limiter.asked message = none then
      some (limiter.consume message () (getRateLimitRule servers.pako servers.text raw config) now)
    else none
  | .advance message now => limiter.advance message now

variable {servers} {s t : State ι} {c d : Link ι}

/-! ## Calls refer to entries of their own connection -/

structure Owned (s : State ι) : Prop where
  wf : s.limiter.Wf
  asked : ∀ k c, s.sender k = some c → ∃ rule, s.limiter.asked k = some (bucketKey c, rule)
  unasked : ∀ k, s.sender k = none → s.limiter.asked k = none
  received : ∀ k c, s.sender k = some c → k ∈ s.received
  written : ∀ c i, s.written c = some (.ref i) → s.sender i = some c ∧ Settled (s.limiter.phase i)
  calls : ∀ k c, s.sender k = some c →
    RefsTo s.limiter.objects (s.sender · = some c) (s.limiter.phase k)

/-- A call of a connection: the move that it makes, and the state after it. -/
theorem exists_moves (h : Owned s) {message : ℕ} {now : ℤ} (hsender : s.sender message = some c)
    (hs : advance s c message now = some t) : ∃ rule store objects phase seen,
      s.limiter.asked message = some (bucketKey c, rule) ∧
      s.limiter.Moves (bucketKey c) rule message now store objects phase ∧
      t = { s with
        limiter := s.limiter.moved (bucketKey c) message store objects ⟨phase, seen⟩
        written :=
          if Sets (s.limiter.phase message) then Function.update s.written c store
          else s.written } := by
  obtain ⟨limiter, hlimiter, rfl⟩ := Option.map_eq_some_iff.mp hs
  obtain ⟨key, rule, store, objects, phase, seen, hasked, hmoves, rfl⟩ :=
    SharedLimiter.moves_of_advance hlimiter
  obtain ⟨rule', hasked'⟩ := h.asked message c hsender
  cases hasked'.symm.trans hasked
  refine ⟨rule, store, objects, phase, seen, hasked, hmoves, ?_⟩
  simp [SharedLimiter.moved]

omit [DecidableEq ι] in
/-- No server has a connection yet, and no bucket is used. -/
theorem owned_init : Owned servers.init where
  wf := SharedLimiter.wf_init _
  asked _ _ h := by cases h
  unasked _ _ := rfl
  received _ _ h := by cases h
  written _ _ h := by cases h
  calls _ _ h := by cases h

omit [DecidableEq ι] in
/-- Where a call gets to, it refers to entries of its connection. -/
theorem Owned.refsTo (h : Owned s) {message : ℕ} {now : ℤ} (hsender : s.sender message = some c)
    (hfinds : FindsOwnAt s c (s.limiter.phase message)) {rule : RateLimitRule} {store : Option Stored}
    {objects : ℕ → WindowEntry} {phase : Phase}
    (hmoves : s.limiter.Moves (bucketKey c) rule message now store objects phase) :
    RefsTo objects (s.sender · = some c) phase := by
  have hcalls := h.calls message c hsender
  cases hmoves with
  | findNone => exact fun i hi => by cases hi
  | @findRef asked i hphase hentry =>
    intro j hj hlt
    cases hj
    rw [hphase] at hfinds
    have hlive : s.limiter.live asked (s.limiter.entries (bucketKey c)) = some (.ref i) :=
      SharedLimiter.live_eq_some_iff.mpr ⟨hentry, hlt⟩
    have hwritten := (SharedLimiter.live_eq_some_iff.mp (hfinds.symm.trans hlive)).1
    exact (h.written c i hwritten).1
  | findCopy =>
    intro j hj _
    cases hj
    exact hsender
  | create => exact hsender
  | @use asked i hphase hlt =>
    rw [hphase] at hcalls
    exact hcalls i rfl hlt
  | setFresh hphase | count hphase | set hphase =>
    rw [hphase] at hcalls
    exact hcalls
  | finish => trivial

/-- A call that finds its own bucket reads and writes what the connection's own calls wrote. -/
theorem Owned.advance (h : Owned s) {message : ℕ} {now : ℤ} (hsender : s.sender message = some c)
    (hfinds : FindsOwnAt s c (s.limiter.phase message)) (hs : advance s c message now = some t) :
    Owned t := by
  obtain ⟨rule, store, objects, phase, seen, hasked, hmoves, rfl⟩ := exists_moves h hsender hs
  refine ⟨h.wf.moved hasked hmoves, h.asked, h.unasked, h.received, fun d i hwritten => ?_,
    fun j d hj => ?_⟩
  · -- what a call wrote is an entry that it refers to
    have hold : s.written d = some (.ref i) → s.sender i = some d ∧
        Settled ((s.limiter.moved (bucketKey c) message store objects ⟨phase, seen⟩).phase i) :=
      fun hold => (h.written d i hold).imp_right hmoves.settled_moved
    by_cases hset : Sets (s.limiter.phase message) = true ∧ d = c
    · obtain ⟨hset, rfl⟩ := hset
      have hkeep {m : ℕ} : Settled (s.limiter.phase m) →
          Settled ((s.limiter.moved (bucketKey d) message store objects ⟨phase, seen⟩).phase m) :=
        hmoves.settled_moved
      have hstore : store = some (.ref i) := by simpa [hset] using hwritten
      have hcalls := h.calls message d hsender
      have hrefs := h.wf.calls message
      cases hmoves with
      | findNone hphase | findRef hphase | findCopy hphase | create hphase | use hphase | count hphase
      | finish hphase => rw [hphase] at hset; cases hset
      | setFresh hphase | set hphase =>
        obtain rfl := SharedLimiter.put_eq_ref (Option.some.inj hstore)
        rw [hphase] at hcalls hrefs
        exact ⟨hcalls, hkeep hrefs⟩
    · refine hold ?_
      simp only at hwritten
      split at hwritten
      · next hsets =>
        have hne : d ≠ c := fun heq => hset ⟨hsets, heq⟩
        rwa [Function.update_of_ne hne] at hwritten
      · exact hwritten
  · by_cases hjk : j = message
    · subst hjk
      cases hsender.symm.trans hj
      simp only [SharedLimiter.phase_moved_self]
      exact h.refsTo hsender hfinds hmoves
    · simp only [SharedLimiter.phase_moved_of_ne hjk]
      exact (h.calls j d hj).imp (hmoves.window_eq hjk (h.wf.calls j)) fun _ => id

omit [DecidableEq ι] in
/-- A message on a connection becomes a call on the connection's bucket. -/
theorem receive_eq (hdefault : (servers.config c.server).keyExtractor = none) (message : ℕ)
    (now : ℤ)
    (raw : Bytes) : servers.receive s c message now raw = { s with
      limiter := s.limiter.consume message (bucketKey c)
        (getRateLimitRule servers.pako servers.text raw (servers.config c.server)) now
      received := s.received ++ [message]
      sender := Function.update s.sender message (some c) } := by
  simp only [receive, getRateLimitKey, hdefault]
  rfl

omit [DecidableEq ι] in
/-- The sender of a message is the connection that it came on, or the one that it had. -/
theorem sender_receive {k message : ℕ} : Function.update s.sender message (some c) k = some d ↔
    k = message ∧ d = c ∨ k ≠ message ∧ s.sender k = some d := by
  by_cases hkm : k = message
  · simp [hkm, eq_comm]
  · simp [hkm]

omit [DecidableEq ι] in
/-- No message that has a sender has the number of a new one. -/
theorem ne_of_sender {k message : ℕ} (hfresh : s.sender message = none) (hk : s.sender k = some d) :
    k ≠ message := by
  rintro rfl
  cases hfresh.symm.trans hk

omit [DecidableEq ι] in
/-- A message begins a call for the bucket of its connection. -/
theorem Owned.receive (h : Owned s) (hdefault : (servers.config c.server).keyExtractor = none)
    {message : ℕ} (hfresh : s.sender message = none) (now : ℤ) (raw : Bytes) :
    Owned (servers.receive s c message now raw) := by
  have hkeep {k : ℕ} {d : Link ι} (hk : s.sender k = some d) :
      Function.update s.sender message (some c) k = some d :=
    sender_receive.mpr (.inr ⟨ne_of_sender hfresh hk, hk⟩)
  rw [receive_eq hdefault]
  refine ⟨h.wf.consume (h.unasked message hfresh), fun k d hk => ?_, fun k hk => ?_,
    fun k d hk => ?_, fun d i hwritten => ?_, fun k d hk => ?_⟩
  · rcases sender_receive.mp hk with ⟨rfl, rfl⟩ | ⟨hkm, hk'⟩
    · exact ⟨_, SharedLimiter.asked_consume_self⟩
    · rw [SharedLimiter.asked_consume_of_ne hkm]
      exact h.asked k d hk'
  · have hkm : k ≠ message := by
      rintro rfl
      simp at hk
    rw [SharedLimiter.asked_consume_of_ne hkm]
    exact h.unasked k (by simpa only [Function.update_of_ne hkm] using hk)
  · rcases sender_receive.mp hk with ⟨rfl, -⟩ | ⟨-, hk'⟩
    · exact List.mem_append_right _ (List.mem_singleton.mpr rfl)
    · exact List.mem_append_left _ (h.received k d hk')
  · obtain ⟨hi, hsettled⟩ := h.written d i hwritten
    refine ⟨hkeep hi, ?_⟩
    rwa [SharedLimiter.phase_consume_of_ne (ne_of_sender hfresh hi)]
  · rcases sender_receive.mp hk with ⟨rfl, -⟩ | ⟨hkm, hk'⟩
    · rw [SharedLimiter.phase_consume_self]
      trivial
    · rw [SharedLimiter.phase_consume_of_ne hkm]
      exact (h.calls k d hk').imp (fun _ _ _ _ _ => rfl) fun i hi => hkeep hi

/-! ## Every connection runs as if alone -/

/-- The limiter `alone` has what the connection `c` has, and nothing else. -/
structure RunsAlone (c : Link ι) (s : State ι) (alone : SharedLimiter Unit) : Prop where
  wf : alone.Wf
  copies : alone.copies = s.limiter.copies
  entries : alone.entries () = s.written c
  asked : ∀ k rule, s.sender k = some c → s.limiter.asked k = some (bucketKey c, rule) →
    alone.asked k = some ((), rule)
  unasked : ∀ k, s.sender k ≠ some c → alone.asked k = none
  calls : ∀ k, s.sender k = some c →
    Alike s.limiter.objects alone.objects k (s.limiter.phase k) (alone.phase k)

omit [DecidableEq ι] in
/-- The settled calls of the connection have the same objects. -/
theorem RunsAlone.objects_eq {alone : SharedLimiter Unit} (h : RunsAlone c s alone) {k : ℕ}
    (hsender : s.sender k = some c) (hsettled : Settled (s.limiter.phase k)) :
    s.limiter.objects k = alone.objects k := by
  rcases h.calls k hsender with ⟨asked, entry, entry', hs, -⟩ | ⟨-, hown, -⟩
  · rw [hs] at hsettled
    cases hsettled
  · exact hown

omit [DecidableEq ι] in
/-- A call of the connection refers to the same entries. -/
theorem RunsAlone.refsTo {alone : SharedLimiter Unit} (h : RunsAlone c s alone) (howned : Owned s)
    {message : ℕ} (hsender : s.sender message = some c) :
    RefsTo s.limiter.objects (fun i => s.limiter.objects i = alone.objects i)
      (s.limiter.phase message) := by
  have hcalls := howned.calls message c hsender
  have hsettled := howned.wf.calls message
  cases hphase : s.limiter.phase message with
  | got asked entry =>
    rw [hphase] at hcalls hsettled
    intro i hi hlt
    rcases hsettled i hi with rfl | hi'
    · rcases h.calls i hsender with ⟨asked', entry', -, hs, -, hstale, -⟩ | ⟨-, hown, -⟩
      · cases hphase.symm.trans hs
        exact absurd (hstale i hi) (Int.not_le.mpr hlt)
      · exact hown
    · exact h.objects_eq (hcalls i hi hlt) hi'
  | settingFresh i | returned i | setting i | written i =>
    rw [hphase] at hcalls hsettled
    exact h.objects_eq hcalls hsettled
  | getting | done => trivial

omit [DecidableEq ι] in
/-- A call of the connection reads the same. -/
theorem RunsAlone.live_eq {alone : SharedLimiter Unit} (h : RunsAlone c s alone) (howned : Owned s)
    {asked : ℤ} (hfinds : FindsOwnAt s c (.getting asked)) :
    s.limiter.live asked (s.limiter.entries (bucketKey c)) = alone.live asked (alone.entries ()) := by
  refine hfinds.trans ?_
  rw [h.entries]
  cases hwritten : s.written c with
  | none => rfl
  | some stored =>
    cases stored with
    | copy entry => rfl
    | ref i =>
      obtain ⟨hsender, hsettled⟩ := howned.written c i hwritten
      simp only [SharedLimiter.live, SharedLimiter.entryOf, Option.filter,
        h.objects_eq hsender hsettled]
      rfl

/-- A call of the connection goes on. -/
theorem RunsAlone.advance {alone : SharedLimiter Unit} (h : RunsAlone c s alone) (howned : Owned s)
    {message : ℕ} {now : ℤ} (hsender : s.sender message = some c)
    (hfinds : FindsOwnAt s c (s.limiter.phase message)) (hs : advance s c message now = some t) :
    ∃ alone', alone.advance message now = some alone' ∧ RunsAlone c t alone' := by
  obtain ⟨rule, store, objects, phase, seen, hasked, hmoves, rfl⟩ := exists_moves howned hsender hs
  have hasked' := h.asked message rule hsender hasked
  have hlive (asked : ℤ) (hphase : s.limiter.phase message = .getting asked) :
      s.limiter.live asked (s.limiter.entries (bucketKey c)) = alone.live asked (alone.entries ()) :=
    h.live_eq howned (hphase ▸ hfinds)
  obtain ⟨store', objects', phase', hmoves', halike, hothers, hstore⟩ :=
    (h.calls message hsender).moves h.copies (h.refsTo howned hsender) hlive hmoves
  obtain ⟨seen', hstep⟩ := SharedLimiter.advance_of_moves hasked' hmoves'
  refine ⟨_, hstep, h.wf.moved hasked' hmoves', h.copies, ?_, h.asked, h.unasked, fun k hk => ?_⟩
  · simp only [SharedLimiter.moved, Function.update_self, hstore, h.entries]
    split
    · rw [Function.update_self]
    · rfl
  · by_cases hkm : k = message
    · subst hkm
      simp only [SharedLimiter.phase_moved_self]
      exact halike
    · simp only [SharedLimiter.phase_moved_of_ne hkm]
      exact (h.calls k hk).imp (hothers k hkm) (hmoves.window_eq hkm (howned.wf.calls k))
        (hmoves'.window_eq hkm (h.wf.calls k))

/-- A call of another connection goes on. -/
theorem RunsAlone.advance_other {alone : SharedLimiter Unit} (h : RunsAlone c s alone)
    (howned : Owned s) {message : ℕ} {now : ℤ} (hne : d ≠ c) (hsender : s.sender message = some d)
    (hs : RateLimitedServers.advance s d message now = some t) : RunsAlone c t alone := by
  obtain ⟨rule, store, objects, phase, seen, hasked, hmoves, rfl⟩ := exists_moves howned hsender hs
  refine ⟨h.wf, h.copies, ?_, h.asked, h.unasked, fun k hk => ?_⟩
  · simp only [h.entries]
    split
    · rw [Function.update_of_ne hne.symm]
    · rfl
  · have hkm : k ≠ message := by
      rintro rfl
      exact hne (Option.some.inj (hsender.symm.trans hk))
    -- the call counts up an entry of its own connection
    have hcount : s.limiter.phase message ≠ .returned k := fun hphase => by
      have hown := howned.calls message d hsender
      rw [hphase] at hown
      exact hne (Option.some.inj (Eq.trans hown.symm hk))
    simp only [SharedLimiter.phase_moved_of_ne hkm]
    refine (h.calls k hk).imp (fun heq => ?_) (hmoves.window_eq hkm (howned.wf.calls k))
      fun _ _ _ _ _ => rfl
    exact (hmoves.objects_eq hkm hcount).trans heq

omit [DecidableEq ι] in
/-- A message on the connection. -/
theorem RunsAlone.receive {alone : SharedLimiter Unit} (h : RunsAlone c s alone) (howned : Owned s)
    (hdefault : (servers.config c.server).keyExtractor = none) {message : ℕ}
    (hfresh : s.sender message = none) (now : ℤ) (raw : Bytes) :
    RunsAlone c (servers.receive s c message now raw) (alone.consume message ()
      (getRateLimitRule servers.pako servers.text raw (servers.config c.server)) now) := by
  have hasked : alone.asked message = none := h.unasked message (by rw [hfresh]; nofun)
  rw [receive_eq hdefault]
  refine ⟨h.wf.consume hasked, h.copies, h.entries, fun k rule hk hrule => ?_, fun k hk => ?_,
    fun k hk => ?_⟩
  · rcases sender_receive.mp hk with ⟨rfl, -⟩ | ⟨hkm, hk'⟩
    · rw [SharedLimiter.asked_consume_self] at hrule ⊢
      cases hrule
      rfl
    · rw [SharedLimiter.asked_consume_of_ne hkm] at hrule ⊢
      exact h.asked k rule hk' hrule
  · have hkm : k ≠ message := by
      rintro rfl
      exact hk (Function.update_self ..)
    rw [SharedLimiter.asked_consume_of_ne hkm]
    exact h.unasked k fun hk' => hk (sender_receive.mpr (.inr ⟨hkm, hk'⟩))
  · rcases sender_receive.mp hk with ⟨rfl, -⟩ | ⟨hkm, hk'⟩
    · have hown : s.limiter.objects k = alone.objects k :=
        (howned.wf.blank k (howned.unasked k hfresh)).trans (h.wf.blank k hasked).symm
      simp only [SharedLimiter.phase_consume_self]
      exact .inr ⟨rfl, hown, nofun⟩
    · simp only [SharedLimiter.phase_consume_of_ne hkm]
      exact h.calls k hk'

omit [DecidableEq ι] in
/-- A message on another connection. -/
theorem RunsAlone.receive_other {alone : SharedLimiter Unit} (h : RunsAlone c s alone)
    (hdefault : (servers.config d.server).keyExtractor = none) (hne : d ≠ c) {message : ℕ}
    (hfresh : s.sender message = none) (now : ℤ) (raw : Bytes) :
    RunsAlone c (servers.receive s d message now raw) alone := by
  have hkeep {k : ℕ} :
      Function.update s.sender message (some d) k = some c ↔ s.sender k = some c := by
    rw [sender_receive]
    exact ⟨fun hk => hk.elim (fun hk => absurd hk.2.symm hne) And.right,
      fun hk => .inr ⟨ne_of_sender hfresh hk, hk⟩⟩
  rw [receive_eq hdefault]
  refine ⟨h.wf, h.copies, h.entries, fun k rule hk hrule => ?_,
    fun k hk => h.unasked k (hk ∘ hkeep.mpr), fun k hk => ?_⟩
  · have hk' := hkeep.mp hk
    rw [SharedLimiter.asked_consume_of_ne (ne_of_sender hfresh hk')] at hrule
    exact h.asked k rule hk' hrule
  · have hk' := hkeep.mp hk
    rw [SharedLimiter.phase_consume_of_ne (ne_of_sender hfresh hk')]
    exact h.calls k hk'

/-- Every step keeps this, as long as each call finds its own bucket. -/
theorem owned_step (hdefault : ∀ i, (servers.config i).keyExtractor = none) {a : Act ι}
    (h : Owned s)
    (hfinds : FindsOwn s a) (hs : step servers s a = some t) : Owned t := by
  cases a with
  | restart i | connect i | close c =>
    cases hs
    exact ⟨h.wf, h.asked, h.unasked, h.received, h.written, h.calls⟩
  | receive c message now raw =>
    simp only [step, Option.ite_none_right_eq_some, Option.some.injEq] at hs
    obtain ⟨⟨-, hfresh⟩, rfl⟩ := hs
    exact h.receive (hdefault _) hfresh now raw
  | advance c message now =>
    simp only [step, Option.ite_none_right_eq_some] at hs
    exact h.advance hs.1 hfinds hs.2

/-- A step is one of the connection, which it makes alone as well, or leaves the connection as it
is. -/
theorem RunsAlone.step (hdefault : ∀ i, (servers.config i).keyExtractor = none)
    {alone : SharedLimiter Unit} (h : RunsAlone c s alone) (howned : Owned s) {a : Act ι}
    (hfinds : FindsOwn s a) (hs : step servers s a = some t) :
    a.own c = none ∧ RunsAlone c t alone ∨ ∃ act alone', a.own c = some act ∧
      servers.aloneStep (servers.config c.server) alone act = some alone' ∧ RunsAlone c t alone' := by
  cases a with
  | restart i | connect i | close c =>
    cases hs
    exact .inl ⟨rfl, h.wf, h.copies, h.entries, h.asked, h.unasked, h.calls⟩
  | receive d message now raw =>
    simp only [RateLimitedServers.step, Option.ite_none_right_eq_some, Option.some.injEq] at hs
    obtain ⟨⟨-, hfresh⟩, rfl⟩ := hs
    by_cases hdc : d = c
    · subst hdc
      have hasked : alone.asked message = none := h.unasked message (by rw [hfresh]; nofun)
      exact .inr ⟨_, _, if_pos rfl, if_pos hasked, h.receive howned (hdefault _) hfresh now raw⟩
    · exact .inl ⟨if_neg hdc, h.receive_other (hdefault _) hdc hfresh now raw⟩
  | advance d message now =>
    simp only [RateLimitedServers.step, Option.ite_none_right_eq_some] at hs
    by_cases hdc : d = c
    · subst hdc
      obtain ⟨alone', hstep, halone⟩ := h.advance howned hs.1 hfinds hs.2
      exact .inr ⟨_, _, if_pos rfl, hstep, halone⟩
    · exact .inl ⟨if_neg hdc, h.advance_other howned hdc hs.1 hs.2⟩

/-! ## Connections with numbers of their own -/

/-- No other connection with the number has sent a message. -/
def OnlyOne (s : State ι) : Act ι → Prop
  | .receive c _ _ _ => ∀ k d, s.sender k = some d → d.number = c.number → d = c
  | .restart _ | .connect _ | .close _ | .advance _ _ _ => True

omit [DecidableEq ι] in
theorem number_eq_of_bucketKey (h : bucketKey c = bucketKey d) : c.number = d.number := by
  have hid := (String.append_left_inj _).mp ((String.append_right_inj _).mp h)
  exact JsString.repr_inj ((String.append_right_inj _).mp hid)

/-- Each bucket has what the calls of its only connection last wrote. -/
structure Unshared (s : State ι) : Prop where
  entries : ∀ k c, s.sender k = some c → s.limiter.entries (bucketKey c) = s.written c
  unwritten : ∀ c, (∀ k, s.sender k ≠ some c) → s.written c = none
  keys : ∀ key, s.limiter.entries key ≠ none → ∃ k c, s.sender k = some c ∧ key = bucketKey c
  unique : ∀ k j c d, s.sender k = some c → s.sender j = some d → c.number = d.number → c = d

omit [DecidableEq ι] in
/-- Where no bucket is shared, each call finds its own. -/
theorem Unshared.findsOwn (h : Unshared s) {message : ℕ} (hsender : s.sender message = some c)
    (place : Phase) : FindsOwnAt s c place := by
  cases place with
  | getting asked => exact congrArg (s.limiter.live asked) (h.entries message c hsender)
  | got | settingFresh | returned | setting | written | done => trivial

omit [DecidableEq ι] in
/-- A connection's first message finds no bucket, and a later one its own. -/
theorem Unshared.receive (h : Unshared s) (hdefault : (servers.config c.server).keyExtractor = none)
    {message : ℕ} (hfresh : s.sender message = none)
    (honly : ∀ k d, s.sender k = some d → d.number = c.number → d = c) (now : ℤ) (raw : Bytes) :
    Unshared (servers.receive s c message now raw) := by
  have hkeep {k : ℕ} {d : Link ι} (hk : s.sender k = some d) :
      Function.update s.sender message (some c) k = some d :=
    sender_receive.mpr (.inr ⟨ne_of_sender hfresh hk, hk⟩)
  have hsender {k : ℕ} {d : Link ι} (hk : Function.update s.sender message (some c) k = some d) :
      d = c ∨ s.sender k = some d :=
    (sender_receive.mp hk).imp And.right And.right
  rw [receive_eq hdefault]
  refine ⟨fun k d hk => ?_, fun d hd => h.unwritten d fun k hk => hd k (hkeep hk),
    fun key hkey => ?_, fun k j d e hk hj hnumber => ?_⟩
  · rcases hsender hk with rfl | hk
    · by_cases hsent : ∃ j, s.sender j = some d
      · obtain ⟨j, hj⟩ := hsent
        exact h.entries j d hj
      · -- the first message of a connection finds no bucket
        rw [h.unwritten d fun j hj => hsent ⟨j, hj⟩]
        by_contra hentry
        obtain ⟨j, e, hj, hbucket⟩ := h.keys _ hentry
        exact hsent ⟨j, honly j e hj (number_eq_of_bucketKey hbucket).symm ▸ hj⟩
    · exact h.entries k d hk
  · obtain ⟨k, d, hk, rfl⟩ := h.keys key hkey
    exact ⟨k, d, hkeep hk, rfl⟩
  · rcases hsender hk with rfl | hk'
    · rcases hsender hj with rfl | hj'
      · rfl
      · exact (honly j e hj' hnumber.symm).symm
    · rcases hsender hj with rfl | hj'
      · exact honly k d hk' hnumber
      · exact h.unique k j d e hk' hj' hnumber

/-- A call writes the bucket of its own connection, which no other has. -/
theorem Unshared.advance (h : Unshared s) (howned : Owned s) {message : ℕ} {now : ℤ}
    (hsender : s.sender message = some c) (hs : advance s c message now = some t) : Unshared t := by
  obtain ⟨rule, store, objects, phase, seen, hasked, hmoves, rfl⟩ := exists_moves howned hsender hs
  by_cases hsets : Sets (s.limiter.phase message) = true
  · simp only [hsets, if_true]
    refine ⟨fun k d hk => ?_, fun d hd => ?_, fun key hkey => ?_, h.unique⟩
    · by_cases hdc : d = c
      · subst hdc
        simp only [SharedLimiter.moved, Function.update_self]
      · have hbucket : bucketKey d ≠ bucketKey c := fun heq =>
          hdc (h.unique k message d c hk hsender (number_eq_of_bucketKey heq))
        refine (Function.update_of_ne hbucket ..).trans ?_
        exact (h.entries k d hk).trans (Function.update_of_ne hdc ..).symm
    · have hdc : d ≠ c := by
        rintro rfl
        exact hd message hsender
      exact (Function.update_of_ne hdc ..).trans (h.unwritten d hd)
    · by_cases hbucket : key = bucketKey c
      · exact ⟨message, c, hsender, hbucket⟩
      · simp only [SharedLimiter.moved, Function.update_of_ne hbucket] at hkey
        exact h.keys key hkey
  · -- nothing is written
    have hentries : Function.update s.limiter.entries (bucketKey c) store = s.limiter.entries := by
      rw [hmoves.store_eq hsets, Function.update_eq_self]
    simp only [hsets, SharedLimiter.moved, hentries]
    exact ⟨h.entries, h.unwritten, h.keys, h.unique⟩

/-- Where no two connections have one number, each call finds its own bucket, and the buckets stay
unshared. -/
theorem Unshared.step (hdefault : ∀ i, (servers.config i).keyExtractor = none) {a : Act ι}
    (h : Unshared s) (howned : Owned s) (honly : OnlyOne s a) (hs : step servers s a = some t) :
    FindsOwn s a ∧ Unshared t := by
  cases a with
  | restart i | connect i | close c =>
    cases hs
    exact ⟨trivial, h.entries, h.unwritten, h.keys, h.unique⟩
  | receive c message now raw =>
    simp only [RateLimitedServers.step, Option.ite_none_right_eq_some, Option.some.injEq] at hs
    obtain ⟨⟨-, hfresh⟩, rfl⟩ := hs
    exact ⟨trivial, h.receive (hdefault _) hfresh honly now raw⟩
  | advance c message now =>
    simp only [RateLimitedServers.step, Option.ite_none_right_eq_some] at hs
    exact ⟨h.findsOwn hs.1 _, h.advance howned hs.1 hs.2⟩

omit [DecidableEq ι] in
/-- There are no buckets yet. -/
theorem unshared_init : Unshared servers.init where
  entries _ _ h := by cases h
  unwritten _ _ := rfl
  keys _ h := absurd rfl h
  unique _ _ _ _ h := by cases h

/-- Where every number is used by one connection only, each finds its own bucket. -/
theorem findsOwn_of_onlyOne (hdefault : ∀ i, (servers.config i).keyExtractor = none)
    {acts : List (Act ι)} (honly : Machine.Guarded (step servers) OnlyOne servers.init acts)
    (hrun : Machine.exec (step servers) servers.init acts = some s) :
    Machine.Guarded (step servers) FindsOwn servers.init acts := by
  refine honly.of_exec (I := fun s => Owned s ∧ Unshared s) ?_ ⟨owned_init, unshared_init⟩ hrun
  intro s a t ⟨howned, hunshared⟩ ha hs
  obtain ⟨hfound, hunshared'⟩ := hunshared.step hdefault howned ha hs
  exact ⟨hfound, owned_step hdefault howned hfound hs, hunshared'⟩

/-! ## One server -/

/-- The connections are from the server's only start. -/
structure FirstBoot (s : State ι) : Prop where
  boots : ∀ i, s.boots i = 0
  connections : ∀ c ∈ s.connections, c.boot = 0
  senders : ∀ k c, s.sender k = some c → c.boot = 0

/-- Without a restart every connection stays one of the first start. -/
theorem FirstBoot.step (hdefault : ∀ i, (servers.config i).keyExtractor = none) {a : Act ι}
    (h : FirstBoot s) (ha : ∀ i, a ≠ .restart i) (hs : step servers s a = some t) : FirstBoot t := by
  cases a with
  | restart i => exact absurd rfl (ha i)
  | connect i =>
    cases hs
    refine ⟨h.boots, fun c hc => ?_, h.senders⟩
    rcases List.mem_append.mp hc with hc | hc
    · exact h.connections c hc
    · rw [List.mem_singleton.mp hc]
      exact h.boots i
  | close c =>
    cases hs
    exact ⟨h.boots, fun d hd => h.connections d (List.mem_of_mem_filter hd), h.senders⟩
  | receive c message now raw =>
    simp only [RateLimitedServers.step, Option.ite_none_right_eq_some, Option.some.injEq] at hs
    obtain ⟨⟨hopen, -⟩, rfl⟩ := hs
    rw [receive_eq (hdefault _)]
    refine ⟨h.boots, h.connections, fun k d hk => ?_⟩
    rcases sender_receive.mp hk with ⟨-, rfl⟩ | ⟨-, hk'⟩
    · exact h.connections d hopen
    · exact h.senders k d hk'
  | advance c message now =>
    simp only [RateLimitedServers.step, Option.ite_none_right_eq_some] at hs
    obtain ⟨limiter, -, rfl⟩ := Option.map_eq_some_iff.mp hs.2
    exact ⟨h.boots, h.connections, h.senders⟩

/-- A single server that never restarts keeps its connections apart. -/
theorem onlyOne_of_never_restarted [Subsingleton ι]
    (hdefault : ∀ i, (servers.config i).keyExtractor = none) {acts : List (Act ι)}
    (hacts : ∀ i, .restart i ∉ acts) (hrun : Machine.exec (step servers) servers.init acts = some s) :
    Machine.Guarded (step servers) OnlyOne servers.init acts := by
  have hrestart : ∀ a ∈ acts, ∀ i, a ≠ .restart i := by
    rintro a ha i rfl
    exact hacts i ha
  have hfirst : FirstBoot servers.init := ⟨fun _ => rfl, nofun, nofun⟩
  refine (Machine.guarded_of_mem hrestart _).of_exec (I := FirstBoot) ?_ hfirst hrun
  intro s a t h ha hs
  refine ⟨?_, h.step hdefault ha hs⟩
  cases a with
  | restart | connect | close | advance => trivial
  | receive c message now raw =>
    intro k d hd hnumber
    simp only [step, Option.ite_none_right_eq_some] at hs
    have hboot : d.boot = c.boot := (h.senders k d hd).trans (h.connections c hs.1.1).symm
    obtain ⟨server, boot, number⟩ := c
    obtain ⟨server', boot', number'⟩ := d
    obtain rfl : server' = server := Subsingleton.elim ..
    cases hnumber
    cases hboot
    rfl

/-- A single server that is never restarted gives every number once, so each connection has a bucket
to itself. -/
theorem findsOwn_of_never_restarted [Subsingleton ι]
    (hdefault : ∀ i, (servers.config i).keyExtractor = none) {acts : List (Act ι)}
    (hacts : ∀ i, .restart i ∉ acts) (hrun : Machine.exec (step servers) servers.init acts = some s) :
    Machine.Guarded (step servers) FindsOwn servers.init acts :=
  findsOwn_of_onlyOne hdefault (onlyOne_of_never_restarted hdefault hacts hrun) hrun

end RateLimitedServers

end Datasole
