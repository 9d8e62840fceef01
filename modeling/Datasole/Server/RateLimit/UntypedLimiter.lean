import Datasole.Server.RateLimit.SharedLimiter

/-!
# The limiter under rules that are no rules

`consume` and `getOrCreate` of `server/primitives/rate-limit/default-limiter.ts` on any object as a
rule. A property that the object does not have is `undefined`, and the arithmetic goes on with
`NaN`: `now >= NaN` never holds, so a window that ends at `NaN` never ends. A backend that copies
writes `NaN` as `null`, which is as good as 0.

With rules that have both numbers this is `SharedLimiter` (`advance_ofShared`), whose windows always
end at a time.
-/

namespace Datasole

/-- What `consume` reads of an object that it is given as the rule. -/
structure RuleObject where
  windowMs : Option ℤ
  maxRequests : Option ℕ
deriving DecidableEq

def RuleObject.ofRule (rule : RateLimitRule) : RuleObject :=
  ⟨some rule.windowMs, some rule.maxRequests⟩

namespace UntypedLimiter

inductive ResetAt where
  | at (ms : ℤ)
  | nan
  | null
deriving DecidableEq

namespace ResetAt

/-- `now + windowMs`. -/
def after (now : ℤ) : Option ℤ → ResetAt
  | some windowMs => .at (now + windowMs)
  | none => .nan

/-- `now >= resetAt`. -/
def reached (now : ℤ) : ResetAt → Bool
  | .at ms => ms ≤ now
  | .nan => false
  | .null => 0 ≤ now

/-- `resetAt - now`; `none` is `NaN`. -/
def sub (now : ℤ) : ResetAt → Option ℤ
  | .at ms => some (ms - now)
  | .nan => none
  | .null => some (0 - now)

/-- What comes back of it from JSON. -/
def copied : ResetAt → ResetAt
  | .at ms => .at ms
  | .nan | .null => .null

end ResetAt

/-- The count is a number in any case: it starts at 0, and the cost is added. -/
structure Entry where
  count : ℕ
  resetAt : ResetAt
deriving DecidableEq

/-- `none` is `NaN`, and for `retryAfter` inside. -/
structure Result where
  allowed : Bool
  remaining : Option ℕ
  resetAt : ResetAt
  retryAfter : Option (Option ℤ)

inductive Stored where
  | ref (object : ℕ)
  | copy (entry : Entry)

/-- Where a call of `consume` waits, as in `DefaultRateLimiter.Phase`. -/
inductive Phase where
  | getting (now : ℤ)
  | got (now : ℤ) (entry : Option ℕ)
  | settingFresh (entry : ℕ)
  | returned (entry : ℕ)
  | setting (entry : ℕ)
  | written (entry : ℕ)
  | done (result : Result)

end UntypedLimiter

open UntypedLimiter in
@[ext]
structure UntypedLimiter where
  copies : Bool
  entries : String → Option Stored
  objects : ℕ → Entry
  phases : ℕ → Phase
  asked : ℕ → Option (String × RuleObject)

namespace UntypedLimiter

def init (copies : Bool) : UntypedLimiter where
  copies := copies
  entries := fun _ => none
  objects := fun _ => ⟨0, .at 0⟩
  phases := fun _ => .getting 0
  asked := fun _ => none

variable (s : UntypedLimiter)

/-- `consume(key, rule)` up to its first `await`. -/
def consume (k : ℕ) (key : String) (rule : RuleObject) (now : ℤ) : UntypedLimiter :=
  { s with
    phases := Function.update s.phases k (.getting now)
    asked := Function.update s.asked k (some (key, rule)) }

def setPhase (k : ℕ) (phase : Phase) : UntypedLimiter :=
  { s with phases := Function.update s.phases k phase }

def setObject (i : ℕ) (entry : Entry) : UntypedLimiter :=
  { s with objects := Function.update s.objects i entry }

/-- What `set` leaves in the backend. -/
def put (i : ℕ) : Stored :=
  if s.copies then .copy { s.objects i with resetAt := (s.objects i).resetAt.copied } else .ref i

def setEntry (key : String) (i : ℕ) : UntypedLimiter :=
  { s with entries := Function.update s.entries key (some (s.put i)) }

def result (rule : RuleObject) (i : ℕ) (now : ℤ) : Result :=
  let entry := s.objects i
  let allowed := rule.maxRequests.any (entry.count ≤ ·)
  { allowed
    remaining := rule.maxRequests.map (· - entry.count)
    resetAt := entry.resetAt
    retryAfter := if allowed then none else some (entry.resetAt.sub now) }

/-- The call goes on, or what it waits for takes effect. -/
def advance (k : ℕ) (now : ℤ) : Option UntypedLimiter :=
  match s.asked k with
  | none => none
  | some (key, rule) =>
    match s.phases k with
    | .getting asked =>
      match s.entries key with
      | none => some (s.setPhase k (.got asked none))
      | some (.ref i) => some (s.setPhase k (.got asked (some i)))
      | some (.copy entry) => some ((s.setObject k entry).setPhase k (.got asked (some k)))
    | .got asked entry =>
      match entry.filter fun i => !(s.objects i).resetAt.reached asked with
      | some i => some (s.setPhase k (.returned i))
      | none => some ((s.setObject k ⟨0, .after asked rule.windowMs⟩).setPhase k (.settingFresh k))
    | .settingFresh i => some ((s.setEntry key i).setPhase k (.returned i))
    | .returned i =>
      let entry := s.objects i
      some ((s.setObject i { entry with count := entry.count + 1 }).setPhase k (.setting i))
    | .setting i => some ((s.setEntry key i).setPhase k (.written i))
    | .written i => some (s.setPhase k (.done (s.result rule i now)))
    | .done _ => none

def entryOf : Stored → Entry
  | .ref i => s.objects i
  | .copy entry => entry

/-- Every window in the backend ends at a time. -/
def EndsAtTimes : Prop := ∀ key, ∀ stored ∈ s.entries key, ∃ ms, (s.entryOf stored).resetAt = .at ms

/-! ## Rules with both numbers -/

def Entry.ofEntry (entry : WindowEntry) : Entry := ⟨entry.count, .at entry.resetAt⟩

def Stored.ofStored : DefaultRateLimiter.Stored → Stored
  | .ref i => .ref i
  | .copy entry => .copy (.ofEntry entry)

def Result.ofResult (result : RateLimitResult) : Result where
  allowed := result.allowed
  remaining := some result.remaining
  resetAt := .at result.resetAt
  retryAfter := result.retryAfter.map some

def Phase.ofPhase : DefaultRateLimiter.Phase → Phase
  | .getting now => .getting now
  | .got now entry => .got now entry
  | .settingFresh i => .settingFresh i
  | .returned i => .returned i
  | .setting i => .setting i
  | .written i => .written i
  | .done result => .done (.ofResult result)

/-- The limiter as `SharedLimiter` has it. -/
def ofShared (s : SharedLimiter String) : UntypedLimiter where
  copies := s.copies
  entries := fun key => (s.entries key).map .ofStored
  objects := fun i => .ofEntry (s.objects i)
  phases := fun k => .ofPhase (s.phase k)
  asked := fun k => (s.asked k).map fun x => (x.1, .ofRule x.2)

theorem ofShared_init (copies : Bool) : ofShared (.init copies) = init copies := rfl

/-- A call with a proper rule. -/
theorem ofShared_consume (s : SharedLimiter String) (k : ℕ) (key : String) (rule : RateLimitRule)
    (now : ℤ) : ofShared (s.consume k key rule now) = (ofShared s).consume k key (.ofRule rule) now := by
  ext1
  · rfl
  · rfl
  · rfl
  · exact Function.comp_update (fun call : DefaultRateLimiter.Call => Phase.ofPhase call.phase) ..
  · exact Function.comp_update (Option.map fun x : String × RateLimitRule =>
      (x.1, RuleObject.ofRule x.2)) ..

section

variable {s : SharedLimiter String} {key : String} {rule : RateLimitRule} {k : ℕ} {now : ℤ}
  {store : Option DefaultRateLimiter.Stored} {objects : ℕ → WindowEntry}
  {phase : DefaultRateLimiter.Phase}

/-- A step that writes proper entries. -/
theorem ofShared_moved (s : SharedLimiter String) (key : String) (k : ℕ)
    (store : Option DefaultRateLimiter.Stored) (objects : ℕ → WindowEntry)
    (call : DefaultRateLimiter.Call) :
    ofShared (s.moved key k store objects call) =
      { ofShared s with
        entries := Function.update (ofShared s).entries key (store.map .ofStored)
        objects := fun i => .ofEntry (objects i)
        phases := Function.update (ofShared s).phases k (.ofPhase call.phase) } := by
  ext1
  · rfl
  · exact Function.comp_update (Option.map Stored.ofStored) ..
  · rfl
  · exact Function.comp_update (fun call : DefaultRateLimiter.Call => Phase.ofPhase call.phase) ..
  · rfl

/-- What is put is put the same way. -/
theorem put_ofShared (s : SharedLimiter String) (i : ℕ) :
    (ofShared s).put i = .ofStored (s.put i) := by
  by_cases hcopies : s.copies
  · simp [put, SharedLimiter.put, ofShared, hcopies, Stored.ofStored, Entry.ofEntry, ResetAt.copied]
  · simp [put, SharedLimiter.put, ofShared, hcopies, Stored.ofStored]

/-- A result with a proper rule. -/
theorem result_ofShared (s : SharedLimiter String) (key : String) (rule : RateLimitRule) (i : ℕ)
    (now : ℤ) :
    (ofShared s).result (.ofRule rule) i now = .ofResult ((s.bucket key rule).result i now) := by
  by_cases hallowed : (s.objects i).count ≤ rule.maxRequests
  · simp [result, DefaultRateLimiter.result, SharedLimiter.bucket, ofShared, RuleObject.ofRule,
      Result.ofResult, Entry.ofEntry, hallowed]
  · simp [result, DefaultRateLimiter.result, SharedLimiter.bucket, ofShared, RuleObject.ofRule,
      Result.ofResult, Entry.ofEntry, ResetAt.sub, hallowed]

/-- A move of the one is a step of the other. -/
theorem advance_ofShared_of_moves (hasked : s.asked k = some (key, rule))
    (h : s.Moves key rule k now store objects phase) (seen : Option DefaultRateLimiter.Stored) :
    (ofShared s).advance k now = some (ofShared (s.moved key k store objects ⟨phase, seen⟩)) := by
  -- the same call, the same place and the same entries in both
  have hasked' : (ofShared s).asked k = some (key, .ofRule rule) := congrArg (Option.map _) hasked
  rw [ofShared_moved]
  have hphase' {place : DefaultRateLimiter.Phase} (hphase : s.phase k = place) :
      (ofShared s).phases k = .ofPhase place := congrArg Phase.ofPhase hphase
  have hupdate (i : ℕ) (entry : WindowEntry) :
      (fun j => Entry.ofEntry (Function.update s.objects i entry j)) =
        Function.update (ofShared s).objects i (.ofEntry entry) := Function.comp_update Entry.ofEntry ..
  have hself : Function.update (ofShared s).entries key ((s.entries key).map Stored.ofStored) =
      (ofShared s).entries := Function.update_eq_self ..
  cases h with
  | findNone hphase hentry =>
    have hentry' : (ofShared s).entries key = none := congrArg (Option.map _) hentry
    have hkeep : Function.update (ofShared s).entries key none = (ofShared s).entries := by
      rw [← hentry', Function.update_eq_self]
    simp only [advance, hasked', hphase' hphase, Phase.ofPhase, hentry', Option.map_none, hkeep]
    rfl
  | findRef hphase hentry =>
    have hentry' : (ofShared s).entries key = some (.ref _) := congrArg (Option.map _) hentry
    simp only [advance, hasked', hphase' hphase, Phase.ofPhase, hentry', Option.map_some,
      Stored.ofStored]
    rw [← hentry', Function.update_eq_self]
    rfl
  | findCopy hphase hentry =>
    have hentry' : (ofShared s).entries key = some (.copy (.ofEntry _)) :=
      congrArg (Option.map _) hentry
    simp only [advance, hasked', hphase' hphase, Phase.ofPhase, hentry', Option.map_some,
      Stored.ofStored, hupdate]
    rw [← hentry', Function.update_eq_self]
    rfl
  | @create asked entry hphase hstale =>
    -- the entry that was read is of no use in either
    have hnone :
        entry.filter (fun i => !((ofShared s).objects i).resetAt.reached asked) = none := by
      rw [Option.filter_eq_none_iff]
      intro i hi
      simp [ofShared, Entry.ofEntry, ResetAt.reached, hstale i hi]
    simp only [advance, hasked', hphase' hphase, Phase.ofPhase, hnone, hupdate, hself]
    rfl
  | @use asked i hphase hlt =>
    -- the entry is of use in both
    have hsome :
        (some i).filter (fun i => !((ofShared s).objects i).resetAt.reached asked) = some i := by
      simp [ofShared, Entry.ofEntry, ResetAt.reached, hlt]
    simp only [advance, hasked', hphase' hphase, Phase.ofPhase, hsome, hself]
    rfl
  | setFresh hphase =>
    simp only [advance, hasked', hphase' hphase, Phase.ofPhase, setEntry, put_ofShared]
    rfl
  | count hphase =>
    simp only [advance, hasked', hphase' hphase, Phase.ofPhase, hupdate, hself]
    rfl
  | set hphase =>
    simp only [advance, hasked', hphase' hphase, Phase.ofPhase, setEntry, put_ofShared]
    rfl
  | finish hphase =>
    simp only [advance, hasked', hphase' hphase, Phase.ofPhase, result_ofShared s key, hself]
    rfl

/-- Under rules with both numbers the limiter is `SharedLimiter`. -/
theorem advance_ofShared (s : SharedLimiter String) (k : ℕ) (now : ℤ) :
    (ofShared s).advance k now = (s.advance k now).map ofShared := by
  cases hasked : s.asked k with
  | none =>
    have hasked' : (ofShared s).asked k = none := congrArg (Option.map _) hasked
    simp only [advance, hasked', SharedLimiter.advance, hasked, Option.map_none]
  | some asked =>
    obtain ⟨key, rule⟩ := asked
    rcases s.done_or_moves key rule k now with ⟨result, hphase⟩ | ⟨store, objects, phase, hmoves⟩
    · have hasked' : (ofShared s).asked k = some (key, .ofRule rule) :=
        congrArg (Option.map _) hasked
      have hphase' : (ofShared s).phases k = .done (.ofResult result) :=
        congrArg Phase.ofPhase hphase
      simp only [advance, hasked', hphase', SharedLimiter.advance_of_done hphase, Option.map_none]
    · obtain ⟨seen, hstep⟩ := SharedLimiter.advance_of_moves hasked hmoves
      rw [hstep, advance_ofShared_of_moves hasked hmoves seen, Option.map_some]

/-- With proper rules every window ends at a time. -/
theorem endsAtTimes_ofShared (s : SharedLimiter String) : (ofShared s).EndsAtTimes := by
  intro key stored hstored
  obtain ⟨stored, -, rfl⟩ := Option.map_eq_some_iff.mp hstored
  cases stored with
  | ref i => exact ⟨_, rfl⟩
  | copy entry => exact ⟨_, rfl⟩

end

end UntypedLimiter

end Datasole
