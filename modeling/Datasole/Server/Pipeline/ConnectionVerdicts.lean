import Datasole.Server.Pipeline.ConnectionLimits

/-!
# What the limiter's verdicts depend on

`exists_alone`: in a run in which every connection finds its own bucket, each runs as if alone, so
its verdicts are those of its own messages. If besides a message comes only when the calls for the
earlier ones are done, the verdicts are those of `serialVerdicts`, which has the times and the
contents of the messages and nothing else.
-/

namespace Datasole

namespace RateLimitedServers

open DefaultRateLimiter
open SharedLimiter (Settled Sets RefsTo Alike)

variable {ι V : Type*} [DecidableEq ι] {servers : RateLimitedServers ι V} {s t : State ι}
  {c d : Link ι} {acts : List (Act ι)}

omit [DecidableEq ι] in
/-- A limiter that was asked nothing is alone with the connection's messages, of which there are
none. -/
theorem runsAlone_init : RunsAlone c servers.init (SharedLimiter.init servers.copies) where
  wf := SharedLimiter.wf_init _
  copies := rfl
  entries := rfl
  asked _ _ h := by cases h
  unasked _ _ := rfl
  calls _ h := by cases h

omit [DecidableEq ι] in
/-- The verdict on a message of the connection is the same. -/
theorem RunsAlone.outcome_eq {alone : SharedLimiter Unit} (h : RunsAlone c s alone) {k : ℕ}
    (hsender : s.sender k = some c) : s.limiter.outcome k = alone.outcome k := by
  rcases h.calls k hsender with ⟨asked, entry, entry', hs, ha, -⟩ | ⟨hplace, -⟩
  · simp only [SharedLimiter.outcome, hs, ha]
  · simp only [SharedLimiter.outcome, hplace]

/-- The sender of a message stays the same. -/
theorem sender_step (hdefault : ∀ i, (servers.config i).keyExtractor = none) {a : Act ι} {k : ℕ}
    (hsender : s.sender k = some c) (hs : step servers s a = some t) : t.sender k = some c := by
  cases a with
  | restart i | connect i | close c => cases hs; exact hsender
  | receive d message now raw =>
    simp only [step, Option.ite_none_right_eq_some, Option.some.injEq] at hs
    obtain ⟨⟨-, hfresh⟩, rfl⟩ := hs
    rw [receive_eq (hdefault _)]
    exact sender_receive.mpr (.inr ⟨ne_of_sender hfresh hsender, hsender⟩)
  | advance d message now =>
    simp only [step, Option.ite_none_right_eq_some] at hs
    obtain ⟨limiter, -, rfl⟩ := Option.map_eq_some_iff.mp hs.2
    exact hsender

theorem owned_exec (hdefault : ∀ i, (servers.config i).keyExtractor = none)
    (hfinds : Machine.Guarded (step servers) FindsOwn servers.init acts)
    (hrun : Machine.exec (step servers) servers.init acts = some s) : Owned s :=
  Machine.exec_invariant_guarded (fun _ _ _ h hg hs => owned_step hdefault h hg hs) owned_init hfinds hrun

/-- What the connection does itself in a run that is one action longer. -/
theorem own_concat (a : Act ι) : own c (acts ++ [a]) = own c acts ++ (a.own c).toList := by
  simp only [own, List.filterMap_append, List.filterMap_cons, List.filterMap_nil]
  cases a.own c <;> rfl

theorem arrivals_append (as bs : List OwnAct) : arrivals (as ++ bs) = arrivals as ++ arrivals bs :=
  List.filterMap_append ..

/-- What a message of the connection leaves behind. -/
theorem sender_own (hdefault : ∀ i, (servers.config i).keyExtractor = none) {a : Act ι}
    {act : OwnAct}
    (hown : a.own c = some act) (hs : step servers s a = some t) :
    ∀ m ∈ arrivals [act], t.sender m.message = some c := by
  intro m hm
  cases a with
  | restart | connect | close => cases hown
  | advance d message now =>
    simp only [Act.own, Option.ite_none_right_eq_some, Option.some.injEq] at hown
    obtain ⟨-, rfl⟩ := hown
    cases hm
  | receive d message now raw =>
    simp only [Act.own, Option.ite_none_right_eq_some, Option.some.injEq] at hown
    obtain ⟨rfl, rfl⟩ := hown
    simp only [step, Option.ite_none_right_eq_some, Option.some.injEq] at hs
    obtain ⟨-, rfl⟩ := hs
    obtain rfl := List.mem_singleton.mp hm
    rw [receive_eq (hdefault _)]
    exact Function.update_self ..

/-- The messages of a connection have it for their sender. -/
theorem sender_arrivals (hdefault : ∀ i, (servers.config i).keyExtractor = none)
    (hrun : Machine.exec (step servers) servers.init acts = some s) (c : Link ι) :
    ∀ m ∈ arrivals (own c acts), s.sender m.message = some c := by
  refine Machine.exec_history (I := fun acts s => ∀ m ∈ arrivals (own c acts),
    s.sender m.message = some c)
    (fun acts s a t hsender hs m hm => ?_) nofun hrun
  rw [own_concat, arrivals_append] at hm
  rcases List.mem_append.mp hm with hm | hm
  · exact sender_step hdefault (hsender m hm) hs
  · cases hown : a.own c with
    | none =>
      rw [hown] at hm
      cases hm
    | some act =>
      rw [hown] at hm
      exact sender_own hdefault hown hs m hm

/-- In a run in which every connection finds its own bucket, the part of each is a run of its
own. -/
theorem exists_alone (hdefault : ∀ i, (servers.config i).keyExtractor = none)
    (hfinds : Machine.Guarded (step servers) FindsOwn servers.init acts)
    (hrun : Machine.exec (step servers) servers.init acts = some s) (c : Link ι) :
    ∃ alone, Machine.exec (servers.aloneStep (servers.config c.server)) (.init servers.copies)
        (own c acts) = some alone ∧ RunsAlone c s alone := by
  suffices hown : ∃ alone, Machine.exec (servers.aloneStep (servers.config c.server))
      (.init servers.copies) (own c acts) = some alone ∧ Owned s ∧ RunsAlone c s alone by
    obtain ⟨alone, halone, -, hruns⟩ := hown
    exact ⟨alone, halone, hruns⟩
  refine Machine.exists_exec_filterMap (R := fun s alone => Owned s ∧ RunsAlone c s alone) ?_
    ⟨owned_init, runsAlone_init⟩ hfinds hrun
  intro s a t alone ⟨howned, hruns⟩ hfound hs
  have howned' := owned_step hdefault howned hfound hs
  refine (hruns.step hdefault howned hfound hs).imp (And.imp_right fun h => ⟨howned', h⟩) ?_
  exact fun ⟨act, alone', hown, hstep, h⟩ => ⟨act, alone', hown, hstep, howned', h⟩

/-! ## One message after the other -/

/-- The bucket once a message is counted in it. -/
def countIn (entry : Option WindowEntry) (now : ℤ) (rule : RateLimitRule) : WindowEntry :=
  match entry with
  | none => { count := 1, resetAt := now + rule.windowMs }
  | some entry =>
    if entry.resetAt ≤ now then { count := 1, resetAt := now + rule.windowMs }
    else { entry with count := entry.count + 1 }

/-- The verdicts on messages that come one after the other, by their times and contents. -/
def serialVerdicts (rule : Bytes → RateLimitRule) :
    Option WindowEntry → List (ℤ × Bytes) → List Bool
  | _, [] => []
  | entry, (now, raw) :: rest =>
    let counted := countIn entry now (rule raw)
    decide (counted.count ≤ (rule raw).maxRequests) :: serialVerdicts rule (some counted) rest

/-- The bucket after such messages. -/
def serialEntry (rule : Bytes → RateLimitRule) (entry : Option WindowEntry)
    (messages : List (ℤ × Bytes)) : Option WindowEntry :=
  messages.foldl (fun entry m => some (countIn entry m.1 (rule m.2))) entry

section Serial

variable {rule : Bytes → RateLimitRule}

/-- The verdict on a further message depends on the bucket that the earlier ones left. -/
theorem serialVerdicts_concat (entry : Option WindowEntry) (messages : List (ℤ × Bytes)) (now : ℤ)
    (raw : Bytes) : serialVerdicts rule entry (messages ++ [(now, raw)]) =
      serialVerdicts rule entry messages ++
        [decide ((countIn (serialEntry rule entry messages) now (rule raw)).count ≤
          (rule raw).maxRequests)] := by
  induction messages generalizing entry with
  | nil => rfl
  | cons m messages ih =>
    obtain ⟨now', raw'⟩ := m
    simp only [List.cons_append, serialVerdicts, ih, serialEntry, List.foldl_cons]
    rfl

/-- The bucket after a further message. -/
theorem serialEntry_concat (entry : Option WindowEntry) (messages : List (ℤ × Bytes)) (now : ℤ)
    (raw : Bytes) : serialEntry rule entry (messages ++ [(now, raw)]) =
      some (countIn (serialEntry rule entry messages) now (rule raw)) := by
  rw [serialEntry, List.foldl_append]
  rfl

/-- What the limiter has for its only key. -/
def bucketOf (alone : SharedLimiter Unit) : Option WindowEntry :=
  (alone.entries ()).map alone.entryOf

/-- The call for the last message is on its way from the bucket `before` to the bucket with the
message counted. -/
def OnItsWay (bucket : Option WindowEntry) (objects : ℕ → WindowEntry) (before : Option WindowEntry)
    (now : ℤ) (rule : RateLimitRule) : Phase → Prop
  | .getting asked => asked = now ∧ bucket = before
  | .got asked entry => asked = now ∧ before = entry.map objects
  | .settingFresh i | .returned i =>
    { objects i with count := (objects i).count + 1 } = countIn before now rule
  | .setting i => objects i = countIn before now rule
  | .written i => objects i = countIn before now rule ∧ bucket = some (countIn before now rule)
  | .done result =>
    result.allowed = decide ((countIn before now rule).count ≤ rule.maxRequests) ∧
      bucket = some (countIn before now rule)

/-- The calls for the messages `earlier` are done, and the call for `last` may be on its way. -/
structure Serial (rule : Bytes → RateLimitRule) (alone : SharedLimiter Unit)
    (earlier : List Arrival)
    (last : Arrival) : Prop where
  asked : alone.asked last.message = some ((), rule last.raw)
  others : ∀ k ≠ last.message, alone.asked k ≠ none → alone.outcome k ≠ none
  known : ∀ m ∈ earlier, m.message ≠ last.message ∧ alone.asked m.message ≠ none
  outcomes : earlier.map (alone.outcome ·.message) =
    (serialVerdicts rule none (earlier.map Arrival.content)).map some
  last : OnItsWay (bucketOf alone) alone.objects (serialEntry rule none (earlier.map Arrival.content))
    last.now (rule last.raw) (alone.phase last.message)

variable {alone alone' : SharedLimiter Unit} {earlier : List Arrival} {last : Arrival} {now : ℤ}

theorem entryOf_put (alone : SharedLimiter Unit) (i : ℕ) :
    alone.entryOf (alone.put i) = alone.objects i := by
  unfold SharedLimiter.put
  split <;> rfl

/-- The bucket after a call has moved is what the call stored. -/
theorem bucketOf_moved {k : ℕ} {store : Option Stored} {objects : ℕ → WindowEntry} {call : Call} :
    bucketOf (alone.moved () k store objects call) =
      store.map (alone.moved () k store objects call).entryOf := by
  simp only [bucketOf, SharedLimiter.moved, Function.update_self]

/-- A call on its way goes on. -/
theorem OnItsWay.moves {bucket : Option WindowEntry} {rule : RateLimitRule} {k : ℕ} {asked : ℤ}
    {store : Option Stored} {objects : ℕ → WindowEntry} {phase : Phase}
    (h : OnItsWay (bucketOf alone) alone.objects bucket asked rule (alone.phase k))
    (hmoves : alone.Moves () rule k now store objects phase) {seen : Option Stored} :
    OnItsWay (bucketOf (alone.moved () k store objects ⟨phase, seen⟩)) objects bucket asked rule phase := by
  rw [bucketOf_moved]
  cases hmoves with
  -- what was found is the bucket that the earlier messages left
  | findNone hphase hentry | findRef hphase hentry =>
    rw [hphase] at h
    obtain ⟨rfl, hbucket⟩ := h
    refine ⟨rfl, ?_⟩
    rw [← hbucket, bucketOf, hentry]
    rfl
  | findCopy hphase hentry =>
    rw [hphase] at h
    obtain ⟨rfl, hbucket⟩ := h
    refine ⟨rfl, ?_⟩
    rw [← hbucket, bucketOf, hentry, Option.map_some, Option.map_some, Function.update_self]
    rfl
  | @create asked entry hphase hstale =>
    rw [hphase] at h
    obtain ⟨rfl, hbucket⟩ := h
    -- the bucket is over, and the message is the first of a new one
    simp only [OnItsWay, Function.update_self, hbucket]
    cases entry with
    | none => rfl
    | some i => simp [countIn, hstale i rfl]
  | use hphase hlt =>
    rw [hphase] at h
    obtain ⟨rfl, hbucket⟩ := h
    -- the bucket is not over, and the message is counted in it
    simp [OnItsWay, hbucket, countIn, Int.not_le.mpr hlt]
  | setFresh hphase =>
    rw [hphase] at h
    exact h
  | count hphase =>
    rw [hphase] at h
    simp only [OnItsWay, Function.update_self]
    exact h
  | @set i hphase =>
    -- what is stored is the bucket with the message counted
    rw [hphase] at h
    refine ⟨h, ?_⟩
    rw [Option.map_some, ← show alone.objects i = _ from h]
    exact congrArg some (entryOf_put alone i)
  | @finish i hphase =>
    rw [hphase] at h
    obtain ⟨hobject, hbucket⟩ := h
    refine ⟨?_, hbucket⟩
    simp only [DefaultRateLimiter.result, SharedLimiter.bucket, hobject]

/-- A call that has its verdict does not move. -/
theorem outcome_eq_none_of_moves {k : ℕ} {rule : RateLimitRule} {store : Option Stored}
    {objects : ℕ → WindowEntry} {phase : Phase}
    (hmoves : alone.Moves () rule k now store objects phase) : alone.outcome k = none := by
  cases hmoves with
  | findNone hphase | findRef hphase | findCopy hphase | create hphase | use hphase | setFresh hphase
  | count hphase | set hphase | finish hphase => simp only [SharedLimiter.outcome, hphase]

/-- While the last call is on its way, only it can move. -/
theorem Serial.advance (h : Serial rule alone earlier last) {k : ℕ}
    (hs : alone.advance k now = some alone') : Serial rule alone' earlier last := by
  obtain ⟨⟨⟩, rule', store, objects, phase, seen, hasked, hmoves, rfl⟩ :=
    SharedLimiter.moves_of_advance hs
  -- only the last call has a move left
  obtain rfl : k = last.message := by
    by_contra hne
    exact h.others k hne (by rw [hasked]; nofun) (outcome_eq_none_of_moves hmoves)
  cases hasked.symm.trans h.asked
  have houtcome {k : ℕ} (hk : k ≠ last.message) :
      (alone.moved () last.message store objects ⟨phase, seen⟩).outcome k = alone.outcome k := by
    simp only [SharedLimiter.outcome, SharedLimiter.phase_moved_of_ne hk]
  refine ⟨h.asked, fun k hk hasked => ?_, h.known, ?_, ?_⟩
  · rw [houtcome hk]
    exact h.others k hk hasked
  · rw [← h.outcomes]
    exact List.map_congr_left fun m hm => houtcome (h.known m hm).1
  · rw [SharedLimiter.phase_moved_self]
    exact h.last.moves hmoves

/-- Once the last call has its verdict, all verdicts are the serial ones, and so is the bucket. -/
theorem Serial.done (h : Serial rule alone earlier last) {verdict : Bool}
    (hverdict : alone.outcome last.message = some verdict) :
    bucketOf alone = serialEntry rule none ((earlier ++ [last]).map Arrival.content) ∧
      (earlier ++ [last]).map (alone.outcome ·.message) =
        (serialVerdicts rule none ((earlier ++ [last]).map Arrival.content)).map some := by
  have hlast := h.last
  have hcontent : (earlier ++ [last]).map Arrival.content =
      earlier.map Arrival.content ++ [(last.now, last.raw)] := List.map_append
  have houtcome := hverdict
  unfold SharedLimiter.outcome at houtcome
  split at houtcome
  · next result hphase =>
    cases houtcome
    rw [hphase] at hlast
    obtain ⟨hallowed, hbucket⟩ := hlast
    refine ⟨by rw [hcontent, serialEntry_concat, hbucket], ?_⟩
    rw [hcontent, serialVerdicts_concat, List.map_append, List.map_append, h.outcomes,
      List.map_singleton, List.map_singleton, hverdict, hallowed]
  · cases houtcome

/-- Any messages so far came one after the other. -/
def SerialSoFar (rule : Bytes → RateLimitRule) (alone : SharedLimiter Unit)
    (messages : List Arrival) :
    Prop :=
  (messages = [] ∧ bucketOf alone = none ∧ ∀ k, alone.asked k = none) ∨
    ∃ earlier last, messages = earlier ++ [last] ∧ Serial rule alone earlier last

/-- With all calls done, bucket and verdicts are the serial ones. -/
theorem SerialSoFar.done {messages : List Arrival} (h : SerialSoFar rule alone messages)
    (hdone : ∀ k, alone.asked k ≠ none → alone.outcome k ≠ none) :
    bucketOf alone = serialEntry rule none (messages.map Arrival.content) ∧
      messages.map (alone.outcome ·.message) =
        (serialVerdicts rule none (messages.map Arrival.content)).map some ∧
      ∀ m ∈ messages, alone.asked m.message ≠ none := by
  rcases h with ⟨rfl, hnone, -⟩ | ⟨earlier, last, rfl, hserial⟩
  · exact ⟨hnone, rfl, nofun⟩
  · have hasked : alone.asked last.message ≠ none := by
      rw [hserial.asked]
      nofun
    obtain ⟨verdict, hverdict⟩ := Option.ne_none_iff_exists'.mp (hdone last.message hasked)
    obtain ⟨hbucket, houtcomes⟩ := hserial.done hverdict
    refine ⟨hbucket, houtcomes, fun m hm => ?_⟩
    rcases List.mem_append.mp hm with hm | hm
    · exact (hserial.known m hm).2
    · exact List.mem_singleton.mp hm ▸ hasked

/-- A message comes when the calls for the earlier ones are done. -/
theorem SerialSoFar.receive {messages : List Arrival} (h : SerialSoFar rule alone messages)
    {m : Arrival} (hfresh : alone.asked m.message = none)
    (hdone : ∀ k, alone.asked k ≠ none → alone.outcome k ≠ none) :
    SerialSoFar rule (alone.consume m.message () (rule m.raw) m.now) (messages ++ [m]) := by
  obtain ⟨hbucket, houtcomes, hasked⟩ := h.done hdone
  have hne {x : Arrival} (hx : x ∈ messages) : x.message ≠ m.message := fun heq =>
    hasked x hx (heq ▸ hfresh)
  have houtcome {k : ℕ} (hk : k ≠ m.message) :
      (alone.consume m.message () (rule m.raw) m.now).outcome k = alone.outcome k := by
    simp only [SharedLimiter.outcome, SharedLimiter.phase_consume_of_ne hk]
  refine .inr ⟨messages, m, rfl, SharedLimiter.asked_consume_self, fun k hk hk' => ?_,
    fun x hx => ?_, ?_, ?_⟩
  · rw [SharedLimiter.asked_consume_of_ne hk] at hk'
    rw [houtcome hk]
    exact hdone k hk'
  · rw [SharedLimiter.asked_consume_of_ne (hne hx)]
    exact ⟨hne hx, hasked x hx⟩
  · rw [← houtcomes]
    exact List.map_congr_left fun x hx => houtcome (hne hx)
  · rw [SharedLimiter.phase_consume_self]
    exact ⟨rfl, hbucket⟩

/-- The calls keep to one after the other when one of them moves. -/
theorem SerialSoFar.advance {messages : List Arrival} (h : SerialSoFar rule alone messages) {k : ℕ}
    (hs : alone.advance k now = some alone') : SerialSoFar rule alone' messages := by
  rcases h with ⟨-, -, hasked⟩ | ⟨earlier, last, rfl, hserial⟩
  · simp [SharedLimiter.advance, hasked k] at hs
  · exact .inr ⟨earlier, last, rfl, hserial.advance hs⟩

/-- The verdicts there are so far are those of the list. -/
def Verdicts (outcomes : List (Option Bool)) (verdicts : List Bool) : Prop :=
  List.Forall₂ (fun outcome verdict => ∀ x ∈ outcome, x = verdict) outcomes verdicts

/-- A verdict there is is the one of the list. -/
theorem Verdicts.getElem? {outcomes : List (Option Bool)} {verdicts : List Bool}
    (h : Verdicts outcomes verdicts) {n : ℕ} {verdict : Bool}
    (hn : outcomes[n]? = some (some verdict)) : verdicts[n]? = some verdict := by
  induction h generalizing n with
  | nil => cases hn
  | cons hhead _ ih =>
    cases n with
    | zero =>
      simp only [List.getElem?_cons_zero, Option.some.injEq] at hn ⊢
      exact (hhead verdict hn).symm
    | succ n => exact ih hn

theorem verdicts_map_some (verdicts : List Bool) : Verdicts (verdicts.map some) verdicts := by
  refine List.forall₂_map_left_iff.mpr (List.forall₂_same.mpr fun verdict _ x hx => ?_)
  exact (Option.some.inj hx).symm

/-- What the calls have answered so far is what counting one message after the other answers. -/
theorem SerialSoFar.verdicts {messages : List Arrival} (h : SerialSoFar rule alone messages) :
    Verdicts (messages.map (alone.outcome ·.message))
      (serialVerdicts rule none (messages.map Arrival.content)) := by
  rcases h with ⟨rfl, -⟩ | ⟨earlier, last, rfl, hserial⟩
  · exact .nil
  · cases hlast : alone.outcome last.message with
    | some verdict =>
      rw [(hserial.done hlast).2]
      exact verdicts_map_some _
    | none =>
      have hcontent : (earlier ++ [last]).map Arrival.content =
          earlier.map Arrival.content ++ [(last.now, last.raw)] := List.map_append
      rw [hcontent, serialVerdicts_concat, List.map_append, hserial.outcomes, List.map_singleton,
        hlast]
      exact List.rel_append (verdicts_map_some _) (.cons nofun .nil)

end Serial

/-- The connection's calls for earlier messages are done when a message comes. -/
def Waits (c : Link ι) (s : State ι) : Act ι → Prop
  | .receive d _ _ _ => d = c → ∀ k ∈ s.received, s.sender k = some c → s.limiter.outcome k ≠ none
  | .restart _ | .connect _ | .close _ | .advance _ _ _ => True

instance (c : Link ι) (s : State ι) : ∀ a, Decidable (Waits c s a)
  | .receive d _ _ _ =>
    inferInstanceAs (Decidable (d = c → ∀ k ∈ s.received, s.sender k = some c →
      s.limiter.outcome k ≠ none))
  | .restart _ | .connect _ | .close _ | .advance _ _ _ => .isTrue trivial

/-- A connection that waits for the verdict before it sends again gets the serial verdicts. -/
theorem serial_of_waits (hdefault : ∀ i, (servers.config i).keyExtractor = none)
    (hfinds : Machine.Guarded (step servers) FindsOwn servers.init acts)
    (hwaits : Machine.Guarded (step servers) (Waits c) servers.init acts)
    (hrun : Machine.exec (step servers) servers.init acts = some s)
    {alone : SharedLimiter Unit} (halone : Machine.exec (servers.aloneStep (servers.config c.server))
      (.init servers.copies) (own c acts) = some alone) :
    SerialSoFar (getRateLimitRule servers.pako servers.text · (servers.config c.server)) alone
      (arrivals (own c acts)) := by
  induction acts using List.reverseRecOn generalizing s alone with
  | nil =>
    cases halone
    exact .inl ⟨rfl, rfl, fun _ => rfl⟩
  | append_singleton acts a ih =>
    obtain ⟨u, hu, ha⟩ := Machine.exec_concat_eq_some.mp hrun
    obtain ⟨hfinds', hfound⟩ := (Machine.guarded_concat hu).mp hfinds
    obtain ⟨hwaits', hwaited⟩ := (Machine.guarded_concat hu).mp hwaits
    obtain ⟨before, hbefore, hruns⟩ := exists_alone hdefault hfinds' hu c
    have hserial := ih hfinds' hwaits' hu hbefore
    rw [own_concat] at halone ⊢
    cases hown : a.own c with
    -- another connection's action is none of the limiter alone
    | none =>
      rw [hown, Option.toList_none, List.append_nil] at halone
      rw [Option.toList_none, List.append_nil]
      cases hbefore.symm.trans halone
      exact hserial
    | some act =>
      rw [hown, Option.toList_some] at halone
      obtain ⟨before', hbefore', hstep⟩ := Machine.exec_concat_eq_some.mp halone
      cases hbefore.symm.trans hbefore'
      rw [Option.toList_some, arrivals_append]
      cases a with
      | restart | connect | close => cases hown
      | advance d message now =>
        simp only [Act.own, Option.ite_none_right_eq_some, Option.some.injEq] at hown
        obtain ⟨rfl, rfl⟩ := hown
        rw [show arrivals [OwnAct.advance message now] = [] from rfl, List.append_nil]
        exact hserial.advance hstep
      | receive d message now raw =>
        simp only [Act.own, Option.ite_none_right_eq_some, Option.some.injEq] at hown
        obtain ⟨rfl, rfl⟩ := hown
        simp only [aloneStep, Option.ite_none_right_eq_some, Option.some.injEq] at hstep
        obtain ⟨hfresh, rfl⟩ := hstep
        refine hserial.receive (m := ⟨message, now, raw⟩) hfresh fun k hk => ?_
        -- what the limiter alone was asked was sent by the connection, whose calls are done
        have hsender : u.sender k = some d := by
          by_contra hne
          exact hk (hruns.unasked k hne)
        have hreceived := (owned_exec hdefault hfinds' hu).received k d hsender
        rw [← hruns.outcome_eq hsender]
        exact hwaited rfl k hreceived hsender

variable {as bs : List (Act ι)}

/-- The connection's verdicts are those of the limiter that is asked for its messages alone. -/
theorem outcomes_eq_alone (hdefault : ∀ i, (servers.config i).keyExtractor = none)
    (hrun : Machine.exec (step servers) servers.init acts = some s) {alone : SharedLimiter Unit}
    (hruns : RunsAlone c s alone) :
    outcomes s.limiter (own c acts) = outcomes alone (own c acts) :=
  List.map_congr_left fun m hm => hruns.outcome_eq (sender_arrivals hdefault hrun c m hm)

/-- The verdicts on the messages of a connection, in two runs in which every connection finds its
own bucket. If the same happens to the connection, the verdicts are the same. If it waits for each
verdict before it sends again, they are the same as soon as the times and the contents of its
messages are. -/
theorem verdicts_depend_on_own_messages (servers : RateLimitedServers ι V)
    (hdefault : ∀ i, (servers.config i).keyExtractor = none) (as bs : List (Act ι)) (s t : State ι)
    (hs : Machine.exec (step servers) servers.init as = some s)
    (ht : Machine.exec (step servers) servers.init bs = some t)
    (hfinds : Machine.Guarded (step servers) FindsOwn servers.init as)
    (hfinds' : Machine.Guarded (step servers) FindsOwn servers.init bs)
    (c d : Link ι) (hconfig : servers.config c.server = servers.config d.server) :
    (own c as = own d bs → outcomes s.limiter (own c as) = outcomes t.limiter (own d bs)) ∧
    (Machine.Guarded (step servers) (Waits c) servers.init as →
      Machine.Guarded (step servers) (Waits d) servers.init bs →
      contents (own c as) = contents (own d bs) → ∀ (n : ℕ) (verdict verdict' : Bool),
        (outcomes s.limiter (own c as))[n]? = some (some verdict) →
        (outcomes t.limiter (own d bs))[n]? = some (some verdict') → verdict = verdict') := by
  obtain ⟨alone, halone, hruns⟩ := exists_alone hdefault hfinds hs c
  obtain ⟨alone', halone', hruns'⟩ := exists_alone hdefault hfinds' ht d
  rw [outcomes_eq_alone hdefault hs hruns, outcomes_eq_alone hdefault ht hruns']
  refine ⟨fun hown => ?_, fun hwaits hwaits' hcontents n verdict verdict' hn hn' => ?_⟩
  · rw [hown, hconfig] at halone
    cases halone.symm.trans halone'
    rw [hown]
  · have hverdicts := (serial_of_waits hdefault hfinds hwaits hs halone).verdicts
    have hverdicts' := (serial_of_waits hdefault hfinds' hwaits' ht halone').verdicts
    have hserial : serialVerdicts (getRateLimitRule servers.pako servers.text · (servers.config c.server))
        none ((arrivals (own c as)).map Arrival.content) =
          serialVerdicts (getRateLimitRule servers.pako servers.text · (servers.config d.server)) none
            ((arrivals (own d bs)).map Arrival.content) := by
      rw [hconfig]
      exact congrArg _ hcontents
    rw [hserial] at hverdicts
    exact Option.some.inj ((hverdicts.getElem? hn).symm.trans (hverdicts'.getElem? hn'))

/-! ## Servers that allow one message a second -/

namespace OneASecond

local instance : NeZero 2 := ⟨two_ne_zero⟩

def limited : RateLimitedServers (Fin 2) NumberHandler.JsNumber where
  pako := plainPako
  text := NumberHandler.text
  config _ := { defaultRule := some { windowMs := 1000, maxRequests := 1 } }
  copies := true

/-- A message, and its call with as many steps as it has. -/
def send (c : Link (Fin 2)) (message : ℕ) (now : ℤ) (steps : ℕ) : List (Act (Fin 2)) :=
  .receive c message now [] :: List.replicate steps (.advance c message now)

/-- The first connection of the second server. -/
def link : Link (Fin 2) := ⟨1, 0, 1⟩

def linkAlone : List (Act (Fin 2)) := .connect 1 :: send link 0 5 6

/-- The first connection of the first server has sent a message. -/
def afterOther : List (Act (Fin 2)) :=
  .connect 0 :: (send ⟨0, 0, 1⟩ 1 0 6 ++ .connect 1 :: send link 0 5 5)

/-- A connection has sent a message before the server's restart. -/
def afterRestart : List (Act (Fin 2)) :=
  .connect 1 :: (send link 1 0 6 ++ .restart 1 :: .connect 1 :: send ⟨1, 1, 1⟩ 0 5 5)

/-- Two connections of one server. -/
def besideOther : List (Act (Fin 2)) :=
  .connect 1 :: .connect 1 :: (send ⟨1, 0, 2⟩ 1 0 6 ++ send link 0 5 6)

end OneASecond

open OneASecond in
/-- The example's connection gets the same verdicts beside another one as without it. -/
theorem verdicts_beside_other : ∃ s t,
    Machine.exec (step limited) limited.init besideOther = some s ∧
    Machine.exec (step limited) limited.init linkAlone = some t ∧
    outcomes s.limiter (own link besideOther) = outcomes t.limiter (own link linkAlone) ∧
    ∀ (n : ℕ) (verdict verdict' : Bool),
      (outcomes s.limiter (own link besideOther))[n]? = some (some verdict) →
      (outcomes t.limiter (own link linkAlone))[n]? = some (some verdict') → verdict = verdict' := by
  obtain ⟨s, hs⟩ : ∃ s, Machine.exec (step limited) limited.init besideOther = some s :=
    Option.isSome_iff_exists.mp (by decide +kernel)
  obtain ⟨t, ht⟩ : ∃ t, Machine.exec (step limited) limited.init linkAlone = some t :=
    Option.isSome_iff_exists.mp (by decide +kernel)
  have hdepend := verdicts_depend_on_own_messages limited (fun _ => rfl) besideOther linkAlone s t hs ht
    (by decide +kernel) (by decide +kernel) link link rfl
  exact ⟨s, t, hs, ht, hdepend.1 (by decide +kernel),
    hdepend.2 (by decide +kernel) (by decide +kernel) (by decide +kernel)⟩

open OneASecond in
/-- The message of a first connection is allowed. After a message of the first connection of another
server, and after one from before a restart, it is not, with nothing else in the connection's
part. -/
theorem shared_bucket_refuses : contents (own link afterOther) = contents (own link linkAlone) ∧
    contents (own ⟨1, 1, 1⟩ afterRestart) = contents (own link linkAlone) ∧
    ((Machine.exec (step limited) limited.init linkAlone).map fun s =>
      outcomes s.limiter (own link linkAlone)) = some [some true] ∧
    ((Machine.exec (step limited) limited.init afterOther).map fun s =>
      outcomes s.limiter (own link afterOther)) = some [some false] ∧
    ((Machine.exec (step limited) limited.init afterRestart).map fun s =>
      outcomes s.limiter (own ⟨1, 1, 1⟩ afterRestart)) = some [some false] := by
  decide +kernel

end RateLimitedServers

end Datasole
