import Datasole.Server.RateLimit.DefaultLimiter

/-!
# The default rate limiter on many keys

`consume` for any number of keys over one backend, each call with a rule of its own. A call is a
call of `DefaultRateLimiter` on its own key, as `advance` says; `Moves` is what it can do.

An entry that a call refers to was made by a call that has found or made its entry, so the object is
counted up from then on but keeps its window (`Wf`, `Moves.resetAt_eq`).
-/

namespace Datasole

open DefaultRateLimiter

/-- The backend's values and the calls of `consume`, by number. -/
structure SharedLimiter (κ : Type*) where
  /-- The backend copies. -/
  copies : Bool
  entries : κ → Option Stored
  objects : ℕ → WindowEntry
  calls : ℕ → Call
  /-- The key and the rule of each call that was made. -/
  asked : ℕ → Option (κ × RateLimitRule)

namespace SharedLimiter

variable {κ : Type*}

def init (copies : Bool) : SharedLimiter κ where
  copies := copies
  entries := fun _ => none
  objects := fun _ => { count := 0, resetAt := 0 }
  calls := fun _ => { phase := .getting 0, seen := none }
  asked := fun _ => none

variable (s : SharedLimiter κ)

/-- `consume(key, rule)` up to its first `await`. -/
def consume (k : ℕ) (key : κ) (rule : RateLimitRule) (now : ℤ) : SharedLimiter κ :=
  { s with
    calls := Function.update s.calls k { phase := .getting now, seen := none }
    asked := Function.update s.asked k (some (key, rule)) }

/-- The limiter as a call on the key sees it. -/
def bucket (key : κ) (rule : RateLimitRule) : DefaultRateLimiter where
  rule := rule
  copies := s.copies
  store := s.entries key
  objects := s.objects
  calls := s.calls
  callCount := 0

def advance [DecidableEq κ] (k : ℕ) (now : ℤ) : Option (SharedLimiter κ) :=
  match s.asked k with
  | none => none
  | some (key, rule) => ((s.bucket key rule).advance k now).map fun bucket =>
      { s with
        entries := Function.update s.entries key bucket.store
        objects := bucket.objects
        calls := bucket.calls }

def phase (k : ℕ) : Phase := (s.calls k).phase

/-- The verdict on a call, once there is one. -/
def outcome (k : ℕ) : Option Bool :=
  match s.phase k with
  | .done result => some result.allowed
  | _ => none

def entryOf : Stored → WindowEntry
  | .ref i => s.objects i
  | .copy entry => entry

/-- What is stored, unless its window is over. -/
def live (now : ℤ) (stored : Option Stored) : Option Stored :=
  stored.filter fun x => decide (now < (s.entryOf x).resetAt)

/-- The entry that was read is of no use: there is none, or its window is over. -/
def Stale (objects : ℕ → WindowEntry) (now : ℤ) (entry : Option ℕ) : Prop :=
  ∀ i ∈ entry, (objects i).resetAt ≤ now

def put (i : ℕ) : Stored := if s.copies then .copy (s.objects i) else .ref i

/-- A call of `consume` that moves: what the store then holds for its key, the objects, and where
the call then is. -/
inductive Moves (key : κ) (rule : RateLimitRule) (k : ℕ) (now : ℤ) :
    Option Stored → (ℕ → WindowEntry) → Phase → Prop
  | findNone {asked} : s.phase k = .getting asked → s.entries key = none →
      Moves key rule k now none s.objects (.got asked none)
  | findRef {asked i} : s.phase k = .getting asked → s.entries key = some (.ref i) →
      Moves key rule k now (some (.ref i)) s.objects (.got asked (some i))
  | findCopy {asked entry} : s.phase k = .getting asked → s.entries key = some (.copy entry) →
      Moves key rule k now (some (.copy entry)) (Function.update s.objects k entry)
        (.got asked (some k))
  | create {asked entry} : s.phase k = .got asked entry → Stale s.objects asked entry →
      Moves key rule k now (s.entries key)
        (Function.update s.objects k { count := 0, resetAt := asked + rule.windowMs }) (.settingFresh k)
  | use {asked i} : s.phase k = .got asked (some i) → asked < (s.objects i).resetAt →
      Moves key rule k now (s.entries key) s.objects (.returned i)
  | setFresh {i} : s.phase k = .settingFresh i →
      Moves key rule k now (some (s.put i)) s.objects (.returned i)
  | count {i} : s.phase k = .returned i →
      Moves key rule k now (s.entries key)
        (Function.update s.objects i { s.objects i with count := (s.objects i).count + 1 }) (.setting i)
  | set {i} : s.phase k = .setting i →
      Moves key rule k now (some (s.put i)) s.objects (.written i)
  | finish {i} : s.phase k = .written i →
      Moves key rule k now (s.entries key) s.objects (.done ((s.bucket key rule).result i now))

/-- The state after a move. -/
def moved [DecidableEq κ] (key : κ) (k : ℕ) (store : Option Stored) (objects : ℕ → WindowEntry)
    (call : Call) : SharedLimiter κ :=
  { s with
    entries := Function.update s.entries key store
    objects := objects
    calls := Function.update s.calls k call }

variable {s} {t : SharedLimiter κ} {key : κ} {rule : RateLimitRule} {k m : ℕ} {now : ℤ}
  {store : Option Stored} {objects : ℕ → WindowEntry} {phase : Phase} {call : Call}

/-- Each way in which a call may move is what `advance` does. -/
theorem advance_of_moves [DecidableEq κ] (hasked : s.asked k = some (key, rule))
    (h : s.Moves key rule k now store objects phase) :
    ∃ seen, s.advance k now = some (s.moved key k store objects ⟨phase, seen⟩) := by
  have hcall : (s.calls k).phase = s.phase k := rfl
  cases h with
  | findNone hphase hentry | findRef hphase hentry | findCopy hphase hentry =>
    refine ⟨s.entries key, ?_⟩
    simp [advance, hasked, DefaultRateLimiter.advance, bucket, hcall, hphase, hentry, moved,
      setCall, setObject]
  | @create asked entry hphase hstale =>
    refine ⟨(s.calls k).seen, ?_⟩
    cases entry with
    | none =>
      simp [advance, hasked, DefaultRateLimiter.advance, bucket, hcall, hphase, moved, setCall,
        setObject, DefaultRateLimiter.create]
    | some i =>
      have hle := hstale i rfl
      simp [advance, hasked, DefaultRateLimiter.advance, bucket, hcall, hphase, moved, setCall,
        setObject, DefaultRateLimiter.create, hle]
  | use hphase hlt =>
    refine ⟨(s.calls k).seen, ?_⟩
    simp [advance, hasked, DefaultRateLimiter.advance, bucket, hcall, hphase, moved, setCall,
      Int.not_le.mpr hlt]
  | @setFresh i hphase | @set i hphase =>
    refine ⟨some (s.put i), ?_⟩
    simp only [advance, hasked, DefaultRateLimiter.advance, bucket, hcall, hphase]
    rfl
  | count hphase | finish hphase =>
    refine ⟨(s.calls k).seen, ?_⟩
    simp [advance, hasked, DefaultRateLimiter.advance, bucket, hcall, hphase, moved, setCall,
      setObject]

/-- A call that waits for the backend can go on. -/
theorem exists_find {asked : ℤ} (hphase : s.phase k = .getting asked) :
    ∃ store objects phase, s.Moves key rule k now store objects phase := by
  cases hentry : s.entries key with
  | none => exact ⟨_, _, _, .findNone hphase hentry⟩
  | some stored =>
    cases stored with
    | ref i => exact ⟨_, _, _, .findRef hphase hentry⟩
    | copy entry => exact ⟨_, _, _, .findCopy hphase hentry⟩

/-- A call that is not done can move. -/
theorem done_or_moves (s : SharedLimiter κ) (key : κ) (rule : RateLimitRule) (k : ℕ) (now : ℤ) :
    (∃ result, s.phase k = .done result) ∨
      ∃ store objects phase, s.Moves key rule k now store objects phase := by
  cases hphase : s.phase k with
  | getting asked => exact .inr (exists_find hphase)
  | got asked entry =>
    right
    cases entry with
    | none => exact ⟨_, _, _, .create hphase nofun⟩
    | some i =>
      rcases Int.lt_or_le asked (s.objects i).resetAt with hlt | hle
      · exact ⟨_, _, _, .use hphase hlt⟩
      · refine ⟨_, _, _, .create hphase fun j hj => ?_⟩
        cases hj
        exact hle
  | settingFresh i => exact .inr ⟨_, _, _, .setFresh hphase⟩
  | returned i => exact .inr ⟨_, _, _, .count hphase⟩
  | setting i => exact .inr ⟨_, _, _, .set hphase⟩
  | written i => exact .inr ⟨_, _, _, .finish hphase⟩
  | done result => exact .inl ⟨result, rfl⟩

/-- A call that is done does not move. -/
theorem advance_of_done [DecidableEq κ] {result : RateLimitResult}
    (hphase : s.phase k = .done result) :
    s.advance k now = none := by
  have hcall : (s.calls k).phase = .done result := hphase
  simp only [advance]
  split
  · rfl
  · simp [DefaultRateLimiter.advance, bucket, hcall]

/-- A call moves in these ways and in no other. -/
theorem moves_of_advance [DecidableEq κ] (h : s.advance k now = some t) :
    ∃ key rule store objects phase seen, s.asked k = some (key, rule) ∧
      s.Moves key rule k now store objects phase ∧ t = s.moved key k store objects ⟨phase, seen⟩ := by
  cases hasked : s.asked k with
  | none =>
    rw [advance, hasked] at h
    cases h
  | some asked =>
    obtain ⟨key, rule⟩ := asked
    rcases s.done_or_moves key rule k now with ⟨result, hphase⟩ | ⟨store, objects, phase, hmove⟩
    · rw [advance_of_done hphase] at h
      cases h
    · -- the step is the step of the move
      obtain ⟨seen, hstep⟩ := advance_of_moves hasked hmove
      exact ⟨key, rule, store, objects, phase, seen, rfl, hmove,
        Option.some.inj (h.symm.trans hstep)⟩

/-! ## What entries refer to -/

/-- The call has found or made its entry. -/
def Settled : Phase → Prop
  | .getting _ | .got _ _ => False
  | .settingFresh _ | .returned _ | .setting _ | .written _ | .done _ => True

/-- Where a call with number `k` is, it refers to entries of settled calls; a copy that it has read
and not looked at yet is its own. -/
def RefsSettled (s : SharedLimiter κ) (k : ℕ) : Phase → Prop
  | .got _ entry => ∀ i ∈ entry, i = k ∨ Settled (s.phase i)
  | .settingFresh i | .returned i | .setting i | .written i => Settled (s.phase i)
  | .getting _ | .done _ => True

structure Wf (s : SharedLimiter κ) : Prop where
  entries : ∀ key i, s.entries key = some (.ref i) → Settled (s.phase i)
  calls : ∀ k, s.RefsSettled k (s.phase k)
  unused : ∀ k, s.asked k = none → ¬ Settled (s.phase k)
  blank : ∀ k, s.asked k = none → s.objects k = { count := 0, resetAt := 0 }

/-- There are no calls yet. -/
theorem wf_init (copies : Bool) : (init copies : SharedLimiter κ).Wf where
  entries _ _ h := by cases h
  calls _ := trivial
  unused _ _ := id
  blank _ _ := rfl

/-- A settled call stays settled. -/
theorem Moves.settled (h : s.Moves key rule k now store objects phase)
    (hsettled : Settled (s.phase k)) : Settled phase := by
  cases h with
  | findNone hphase _ | findRef hphase _ | findCopy hphase _ | create hphase _ | use hphase _ =>
    rw [hphase] at hsettled
    cases hsettled
  | setFresh | count | set | finish => trivial

/-- A call changes its own object and the one that it counts up. -/
theorem Moves.objects_eq (h : s.Moves key rule k now store objects phase) (hm : m ≠ k)
    (hcount : s.phase k ≠ .returned m) : objects m = s.objects m := by
  cases h with
  | findCopy | create => exact Function.update_of_ne hm ..
  | count hphase =>
    refine Function.update_of_ne ?_ ..
    rintro rfl
    exact hcount hphase
  | findNone | findRef | use | setFresh | set | finish => rfl

/-- The window of an entry stays as it is, but for a call that has not settled. -/
theorem Moves.resetAt_eq (h : s.Moves key rule k now store objects phase)
    (hm : m ≠ k ∨ Settled (s.phase m)) : (objects m).resetAt = (s.objects m).resetAt := by
  cases h with
  | findCopy hphase _ | create hphase _ =>
    have hne : m ≠ k := by
      rintro rfl
      rw [hphase] at hm
      exact hm.elim (fun h => h rfl) id
    rw [Function.update_of_ne hne]
  | @count i hphase =>
    by_cases hi : m = i
    · subst hi
      rw [Function.update_self]
    · rw [Function.update_of_ne hi]
  | findNone | findRef | use | setFresh | set | finish => rfl

/-- An entry that is stored by reference is the object itself. -/
theorem put_eq_ref {i j : ℕ} (h : s.put i = .ref j) : i = j := by
  unfold put at h
  split at h
  · cases h
  · cases h
    rfl

/-- A reference in the store was there, or the call wrote it. -/
theorem Moves.store_eq_ref (h : s.Moves key rule k now store objects phase) {i : ℕ}
    (hstore : store = some (.ref i)) :
    s.entries key = some (.ref i) ∨ s.phase k = .settingFresh i ∨ s.phase k = .setting i := by
  cases h with
  | findNone | findCopy => cases hstore
  | findRef _ hentry => exact .inl (hentry.trans hstore)
  | create | use | count | finish => exact .inl hstore
  | setFresh hphase => exact .inr (.inl (put_eq_ref (Option.some.inj hstore) ▸ hphase))
  | set hphase => exact .inr (.inr (put_eq_ref (Option.some.inj hstore) ▸ hphase))

/-- Where a call gets to, it refers to what it referred to, to what the store has or to its own
object. -/
theorem Moves.refsSettled (h : s.Moves key rule k now store objects phase) (hwf : s.Wf)
    (hsettled : Settled phase → Settled (t.phase k))
    (hkeep : ∀ i, Settled (s.phase i) → Settled (t.phase i)) : t.RefsSettled k phase := by
  have hcalls := hwf.calls k
  cases h with
  | findNone => exact fun i hi => by cases hi
  | findRef _ hentry =>
    intro i hi
    cases hi
    exact .inr (hkeep _ (hwf.entries key _ hentry))
  | findCopy =>
    intro i hi
    cases hi
    exact .inl rfl
  | create => exact hsettled trivial
  | @use asked i hphase =>
    rw [hphase] at hcalls
    rcases hcalls i rfl with rfl | hi
    · exact hsettled trivial
    · exact hkeep i hi
  | setFresh hphase | count hphase | set hphase =>
    rw [hphase] at hcalls
    exact hkeep _ hcalls
  | finish => trivial

/-- What another call has read keeps its window. -/
theorem Moves.window_eq (h : s.Moves key rule k now store objects phase) (hm : m ≠ k)
    {place : Phase}
    (hrefs : s.RefsSettled m place) (asked : ℤ) (entry : Option ℕ) (hplace : place = .got asked entry) :
    ∀ i ∈ entry, (objects i).resetAt = (s.objects i).resetAt := by
  subst hplace
  intro i hi
  refine h.resetAt_eq ((hrefs i hi).imp_left ?_)
  rintro rfl
  exact hm

/-- A settled call stays settled, so what is referred to stays so. -/
theorem RefsSettled.imp {place : Phase} (h : s.RefsSettled k place)
    (hkeep : ∀ i, Settled (s.phase i) → Settled (t.phase i)) : t.RefsSettled k place := by
  cases place with
  | got asked entry => exact fun i hi => (h i hi).imp_right (hkeep i)
  | settingFresh | returned | setting | written => exact hkeep _ h
  | getting | done => trivial

/-! ## Two limiters that run alike -/

/-- A call refers only to entries with `P`, but for one that it has read and whose window is
over. -/
def RefsTo (objects : ℕ → WindowEntry) (P : ℕ → Prop) : Phase → Prop
  | .got asked entry => ∀ i ∈ entry, asked < (objects i).resetAt → P i
  | .settingFresh i | .returned i | .setting i | .written i => P i
  | .getting _ | .done _ => True

/-- A call is at one point in two limiters, with one object of its own, or has found nothing of use
in either. -/
def Alike (objects objects' : ℕ → WindowEntry) (k : ℕ) (place place' : Phase) : Prop :=
  (∃ asked entry entry', place = .got asked entry ∧ place' = .got asked entry' ∧
    Stale objects asked entry ∧ Stale objects' asked entry') ∨
  (place = place' ∧ objects k = objects' k ∧
    ∀ asked entry, place = .got asked entry → ¬ Stale objects asked entry)

/-- A call refers to the same entries after another one has moved. -/
theorem RefsTo.imp {objects objects' : ℕ → WindowEntry} {P Q : ℕ → Prop} {place : Phase}
    (h : RefsTo objects P place) (hobjects : ∀ asked entry, place = .got asked entry →
      ∀ i ∈ entry, (objects' i).resetAt = (objects i).resetAt)
    (himp : ∀ i, P i → Q i) : RefsTo objects' Q place := by
  cases place with
  | got asked entry =>
    intro i hi hlt
    rw [hobjects asked entry rfl i hi] at hlt
    exact himp i (h i hi hlt)
  | settingFresh | returned | setting | written => exact himp _ h
  | getting | done => trivial

/-- Whether an entry is of use depends on the end of its window only. -/
theorem Stale.congr {objects objects' : ℕ → WindowEntry} {asked : ℤ} {entry : Option ℕ}
    (h : ∀ i ∈ entry, (objects' i).resetAt = (objects i).resetAt) :
    Stale objects' asked entry ↔ Stale objects asked entry :=
  forall₂_congr fun i hi => by rw [h i hi]

/-- Two calls that are alike stay so if neither's own object changes, nor the window that it has
read. -/
theorem Alike.imp {objects objects' before before' : ℕ → WindowEntry} {place place' : Phase}
    (h : Alike before before' k place place') (hown : before k = before' k → objects k = objects' k)
    (hwindow : ∀ asked entry, place = .got asked entry →
      ∀ i ∈ entry, (objects i).resetAt = (before i).resetAt)
    (hwindow' : ∀ asked entry, place' = .got asked entry →
      ∀ i ∈ entry, (objects' i).resetAt = (before' i).resetAt) :
    Alike objects objects' k place place' := by
  rcases h with ⟨asked, entry, entry', hs, ha, hno, hno'⟩ | ⟨hplace, heq, huse⟩
  · exact .inl ⟨asked, entry, entry', hs, ha, (Stale.congr (hwindow _ _ hs)).mpr hno,
      (Stale.congr (hwindow' _ _ ha)).mpr hno'⟩
  · exact .inr ⟨hplace, hown heq, fun asked entry hgot hno =>
      huse asked entry hgot ((Stale.congr (hwindow _ _ hgot)).mp hno)⟩

/-- The call waits for a `set`. -/
def Sets : Phase → Bool
  | .settingFresh _ | .setting _ => true
  | .getting _ | .got _ _ | .returned _ | .written _ | .done _ => false

/-- Only a `set` changes the store. -/
theorem Moves.store_eq (h : s.Moves key rule k now store objects phase)
    (hsets : ¬ Sets (s.phase k) = true) : store = s.entries key := by
  cases h with
  | findNone _ hentry | findRef _ hentry | findCopy _ hentry => exact hentry.symm
  | create | use | count | finish => rfl
  | setFresh hphase | set hphase =>
    rw [hphase] at hsets
    exact absurd rfl hsets

theorem live_eq_some_iff {stored : Option Stored} {x : Stored} :
    s.live now stored = some x ↔ stored = some x ∧ now < (s.entryOf x).resetAt := by
  simp [live, Option.filter_eq_some_iff]

/-- An entry that is stored and of no use has a window that is over. -/
theorem resetAt_le_of_live {x : Stored} (h : s.live now (some x) = none) :
    (s.entryOf x).resetAt ≤ now := by
  refine Int.not_lt.mp fun hlt => ?_
  rw [live_eq_some_iff.mpr ⟨rfl, hlt⟩] at h
  cases h

/-- A call that reads the store changes no other object, and what it has found is of no use if what
is stored is not. -/
theorem Moves.find {asked : ℤ} (h : s.Moves key rule k now store objects phase)
    (hphase : s.phase k = .getting asked) : store = s.entries key ∧ (∀ j ≠ k, objects j = s.objects j) ∧
      (s.live asked (s.entries key) = none → ∃ entry, phase = .got asked entry ∧
        Stale objects asked entry) := by
  cases h with
  | findNone hphase' hentry =>
    cases hphase.symm.trans hphase'
    exact ⟨hentry.symm, fun _ _ => rfl, fun _ => ⟨none, rfl, fun i hi => by cases hi⟩⟩
  | @findRef asked' i hphase' hentry =>
    cases hphase.symm.trans hphase'
    refine ⟨hentry.symm, fun _ _ => rfl, fun hlive => ⟨some i, rfl, fun j hj => ?_⟩⟩
    cases hj
    rw [hentry] at hlive
    exact resetAt_le_of_live hlive
  | @findCopy asked' entry hphase' hentry =>
    cases hphase.symm.trans hphase'
    refine ⟨hentry.symm, fun j hj => Function.update_of_ne hj ..,
      fun hlive => ⟨some k, rfl, fun j hj => ?_⟩⟩
    cases hj
    rw [Function.update_self]
    rw [hentry] at hlive
    exact resetAt_le_of_live hlive
  | create hphase' | use hphase' | setFresh hphase' | count hphase' | set hphase' | finish hphase' =>
    cases hphase.symm.trans hphase'

/-- It finds what is stored if that is of use. -/
theorem Moves.find_live {asked : ℤ} {x : Stored} (h : s.Moves key rule k now store objects phase)
    (hphase : s.phase k = .getting asked) (hlive : s.live asked (s.entries key) = some x) :
    (∃ i, x = .ref i ∧ phase = .got asked (some i) ∧ objects = s.objects) ∨
    ∃ entry, x = .copy entry ∧ phase = .got asked (some k) ∧
      objects = Function.update s.objects k entry := by
  have hentry := (live_eq_some_iff.mp hlive).1
  cases h with
  | findNone _ hentry' => cases hentry.symm.trans hentry'
  | @findRef asked' i hphase' hentry' =>
    cases hphase.symm.trans hphase'
    cases hentry.symm.trans hentry'
    exact .inl ⟨i, rfl, rfl, rfl⟩
  | @findCopy asked' entry hphase' hentry' =>
    cases hphase.symm.trans hphase'
    cases hentry.symm.trans hentry'
    exact .inr ⟨entry, rfl, rfl, rfl⟩
  | create hphase' | use hphase' | setFresh hphase' | count hphase' | set hphase' | finish hphase' =>
    cases hphase.symm.trans hphase'

section

variable {κ' : Type*} {a : SharedLimiter κ'} {key' : κ'}

/-- Calls that read what is of equal use have found the like. -/
theorem Alike.find {asked : ℤ} {store' : Option Stored} {objects' : ℕ → WindowEntry}
    {phase' : Phase}
    (hown : s.objects k = a.objects k) (hphase : s.phase k = .getting asked)
    (hphase' : a.phase k = .getting asked)
    (hlive : s.live asked (s.entries key) = a.live asked (a.entries key'))
    (h : s.Moves key rule k now store objects phase)
    (h' : a.Moves key' rule k now store' objects' phase') : Alike objects objects' k phase phase' := by
  cases hfound : s.live asked (s.entries key) with
  | none =>
    obtain ⟨entry, hplace, hstale⟩ := (h.find hphase).2.2 hfound
    obtain ⟨entry', hplace', hstale'⟩ := (h'.find hphase').2.2 (hlive.symm.trans hfound)
    exact .inl ⟨asked, entry, entry', hplace, hplace', hstale, hstale'⟩
  | some x =>
    have halive := (live_eq_some_iff.mp hfound).2
    rcases h.find_live hphase hfound with ⟨i, rfl, rfl, rfl⟩ | ⟨entry, rfl, rfl, rfl⟩
    · rcases h'.find_live hphase' (hlive.symm.trans hfound) with
        ⟨j, hx, rfl, rfl⟩ | ⟨entry, hx, -, -⟩
      · cases hx
        refine .inr ⟨rfl, hown, fun asked' entry hgot hstale => ?_⟩
        cases hgot
        exact Int.not_le.mpr halive (hstale i rfl)
      · cases hx
    · rcases h'.find_live hphase' (hlive.symm.trans hfound) with
        ⟨j, hx, -, -⟩ | ⟨entry', hx, rfl, rfl⟩
      · cases hx
      · cases hx
        refine .inr ⟨rfl, by simp only [Function.update_self], fun asked' entry' hgot hstale => ?_⟩
        cases hgot
        have hle := hstale k rfl
        rw [Function.update_self] at hle
        exact Int.not_le.mpr halive hle

/-- A call that moves in one of two limiters in which it is alike moves in the other, and is alike
then. -/
theorem Alike.moves (halike : Alike s.objects a.objects k (s.phase k) (a.phase k))
    (hcopies : a.copies = s.copies)
    (hrefs : RefsTo s.objects (fun i => s.objects i = a.objects i) (s.phase k))
    (hlive : ∀ asked, s.phase k = .getting asked →
      s.live asked (s.entries key) = a.live asked (a.entries key'))
    (h : s.Moves key rule k now store objects phase) :
    ∃ store' objects' phase', a.Moves key' rule k now store' objects' phase' ∧
      Alike objects objects' k phase phase' ∧
      (∀ j ≠ k, s.objects j = a.objects j → objects j = objects' j) ∧
      store' = if Sets (s.phase k) then store else a.entries key' := by
  have hput {i : ℕ} (hi : s.objects i = a.objects i) : a.put i = s.put i := by
    simp only [put, hcopies, hi]
  have hnot {place : Phase} {P : ℤ → Option ℕ → Prop}
      (hplace : ∀ asked entry, place ≠ .got asked entry) :
      ∀ asked entry, place = .got asked entry → P asked entry := fun asked entry hgot =>
    (hplace asked entry hgot).elim
  rcases halike with ⟨asked, entry, entry', hs, ha, hstale, hstale'⟩ | ⟨hplace, hown, huse⟩
  · -- both make a fresh entry
    have hcreate : a.Moves key' rule k now _ _ _ := .create ha hstale'
    cases h with
    | create hphase =>
      cases hs.symm.trans hphase
      refine ⟨_, _, _, hcreate, .inr ⟨rfl, ?_, hnot fun _ _ => nofun⟩, fun j hj heq => ?_, ?_⟩
      · simp only [Function.update_self]
      · simp only [Function.update_of_ne hj, heq]
      · rw [hphase]
        rfl
    | @use asked' i hphase hlt =>
      cases hs.symm.trans hphase
      exact absurd (hstale i rfl) (Int.not_le.mpr hlt)
    | findNone hphase | findRef hphase | findCopy hphase | setFresh hphase | count hphase | set hphase
    | finish hphase => cases hs.symm.trans hphase
  · -- the other waits at the same point, so it takes the same kind of step
    by_cases hget : ∃ asked, s.phase k = .getting asked
    · obtain ⟨asked, hphase⟩ := hget
      -- what it finds in its own entry may differ, but not whether that is of use
      have hphase' : a.phase k = .getting asked := hplace.symm.trans hphase
      obtain ⟨store', objects', phase', h'⟩ :
          ∃ store objects phase, a.Moves key' rule k now store objects phase := exists_find hphase'
      refine ⟨store', objects', phase', h', Alike.find hown hphase hphase' (hlive asked hphase) h h',
        fun j hj heq => ?_, ?_⟩
      · rw [(h.find hphase).2.1 j hj, (h'.find hphase').2.1 j hj, heq]
      · rw [hphase]
        exact (h'.find hphase').1
    · cases h with
      | findNone hphase | findRef hphase | findCopy hphase => exact absurd ⟨_, hphase⟩ hget
      | create hphase hstale => exact absurd hstale (huse _ _ hphase)
      | @use asked i hphase hlt =>
        -- from here on the step depends on the object that both have alike
        rw [hphase] at hrefs
        have hi : s.objects i = a.objects i := hrefs i rfl hlt
        exact ⟨_, _, _, .use (hplace ▸ hphase) (hi ▸ hlt), .inr ⟨rfl, hown, hnot fun _ _ => nofun⟩,
          fun _ _ heq => heq, by rw [hphase]; rfl⟩
      | setFresh hphase =>
        rw [hphase] at hrefs
        exact ⟨_, _, _, .setFresh (hplace ▸ hphase), .inr ⟨rfl, hown, hnot fun _ _ => nofun⟩,
          fun _ _ heq => heq, by rw [hphase, hput hrefs]; rfl⟩
      | @count i hphase =>
        rw [hphase] at hrefs
        have hi : s.objects i = a.objects i := hrefs
        have hkeep {j : ℕ} (heq : s.objects j = a.objects j) :
            Function.update s.objects i { s.objects i with count := (s.objects i).count + 1 } j =
              Function.update a.objects i { a.objects i with count := (a.objects i).count + 1 } j := by
          simp only [Function.update_apply, hi, heq]
        exact ⟨_, _, _, .count (hplace ▸ hphase), .inr ⟨rfl, hkeep hown, hnot fun _ _ => nofun⟩,
          fun _ _ => hkeep, by rw [hphase]; rfl⟩
      | set hphase =>
        rw [hphase] at hrefs
        exact ⟨_, _, _, .set (hplace ▸ hphase), .inr ⟨rfl, hown, hnot fun _ _ => nofun⟩,
          fun _ _ heq => heq, by rw [hphase, hput hrefs]; rfl⟩
      | @finish i hphase =>
        rw [hphase] at hrefs
        have hresult : (a.bucket key' rule).result i now = (s.bucket key rule).result i now := by
          simp only [DefaultRateLimiter.result, bucket, show s.objects i = a.objects i from hrefs]
          rfl
        refine ⟨_, _, _, .finish (hplace ▸ hphase), .inr ⟨?_, hown, hnot fun _ _ => nofun⟩,
          fun _ _ heq => heq, by rw [hphase]; rfl⟩
        rw [hresult]

end

variable [DecidableEq κ]

theorem phase_moved_self : (s.moved key k store objects call).phase k = call.phase := by
  simp [SharedLimiter.phase, moved]

theorem phase_moved_of_ne (hne : m ≠ k) :
    (s.moved key k store objects call).phase m = s.phase m := by
  simp [SharedLimiter.phase, moved, hne]

/-- A settled call stays settled. -/
theorem Moves.settled_moved {seen : Option Stored} (h : s.Moves key rule k now store objects phase)
    (hsettled : Settled (s.phase m)) :
    Settled ((s.moved key k store objects ⟨phase, seen⟩).phase m) := by
  by_cases hm : m = k
  · subst hm
    rw [phase_moved_self]
    exact h.settled hsettled
  · rwa [phase_moved_of_ne hm]

/-- A move keeps the limiter well formed: it stores an entry of its own, or one that was stored. -/
theorem Wf.moved (hwf : s.Wf) (hasked : s.asked k = some (key, rule)) {seen : Option Stored}
    (h : s.Moves key rule k now store objects phase) :
    (s.moved key k store objects ⟨phase, seen⟩).Wf := by
  set t := s.moved key k store objects ⟨phase, seen⟩
  have hkeep (i : ℕ) : Settled (s.phase i) → Settled (t.phase i) := h.settled_moved
  have hself : t.phase k = phase := phase_moved_self
  have hcalls := hwf.calls k
  refine ⟨fun key' i hentry => ?_, fun j => ?_, fun j hj => ?_, fun j hj => ?_⟩
  · by_cases hkey : key' = key
    · subst hkey
      have hstore : store = some (.ref i) := by simpa [t, SharedLimiter.moved] using hentry
      rcases h.store_eq_ref hstore with hold | hphase | hphase
      · exact hkeep i (hwf.entries _ i hold)
      · rw [hphase] at hcalls
        exact hkeep i hcalls
      · rw [hphase] at hcalls
        exact hkeep i hcalls
    · have hold : s.entries key' = some (.ref i) := by
        simpa [t, SharedLimiter.moved, hkey] using hentry
      exact hkeep i (hwf.entries key' i hold)
  · by_cases hj : j = k
    · subst hj
      rw [hself]
      exact h.refsSettled hwf (fun hp => hself ▸ hp) hkeep
    · rw [show t.phase j = s.phase j from phase_moved_of_ne hj]
      exact (hwf.calls j).imp hkeep
  · have hne : j ≠ k := by
      rintro rfl
      cases hj.symm.trans hasked
    rw [show t.phase j = s.phase j from phase_moved_of_ne hne]
    exact hwf.unused j hj
  · have hne : j ≠ k := by
      rintro rfl
      cases hj.symm.trans hasked
    have hcount : s.phase k ≠ .returned j := fun hphase => by
      rw [hphase] at hcalls
      exact hwf.unused j hj hcalls
    exact (h.objects_eq hne hcount).trans (hwf.blank j hj)

omit [DecidableEq κ] in
@[simp] theorem phase_consume_self : (s.consume k key rule now).phase k = .getting now := by
  simp [SharedLimiter.phase, consume]

omit [DecidableEq κ] in
theorem phase_consume_of_ne (hm : m ≠ k) : (s.consume k key rule now).phase m = s.phase m := by
  simp [SharedLimiter.phase, consume, hm]

omit [DecidableEq κ] in
@[simp] theorem asked_consume_self : (s.consume k key rule now).asked k = some (key, rule) :=
  Function.update_self ..

omit [DecidableEq κ] in
theorem asked_consume_of_ne (hm : m ≠ k) : (s.consume k key rule now).asked m = s.asked m :=
  Function.update_of_ne hm ..

omit [DecidableEq κ] in
/-- A new call has no entry yet. -/
theorem Wf.consume (hwf : s.Wf) (hasked : s.asked k = none) : (s.consume k key rule now).Wf := by
  have hkeep (i : ℕ) (hi : Settled (s.phase i)) : Settled ((s.consume k key rule now).phase i) := by
    have hne : i ≠ k := by
      rintro rfl
      exact hwf.unused i hasked hi
    rwa [phase_consume_of_ne hne]
  have hunasked {j : ℕ} (hj : (s.consume k key rule now).asked j = none) :
      j ≠ k ∧ s.asked j = none := by
    have hne : j ≠ k := by
      rintro rfl
      simp at hj
    exact ⟨hne, by rwa [asked_consume_of_ne hne] at hj⟩
  refine ⟨fun key' i hentry => hkeep i (hwf.entries key' i hentry), fun j => ?_, fun j hj => ?_,
    fun j hj => hwf.blank j (hunasked hj).2⟩
  · by_cases hj : j = k
    · subst hj
      rw [phase_consume_self]
      trivial
    · rw [phase_consume_of_ne hj]
      exact (hwf.calls j).imp hkeep
  · rw [phase_consume_of_ne (hunasked hj).1]
    exact hwf.unused j (hunasked hj).2

end SharedLimiter

end Datasole
