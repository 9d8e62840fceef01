import Datasole.Common.EventEmitter
import Datasole.Common.JsMap
import Datasole.Common.Machine
import Mathlib.Data.List.Infix
import Mathlib.Logic.Function.Basic

/-!
# The backend on Postgres

`PostgresBackend` of `server/backends/postgres.ts`: any number of backends, each with its prefix,
that are connected to one database and use one table. The rows of a backend have its prefix in front
of their keys. A published value goes as a notification to every session that listens on the one
channel `datasole_state_change`, with the bare key, and each backend emits it under this key.

`isolated_iff` asks whether a backend notices the others, where no prefix starts with another:
whether what `get` and `delete` have returned and what its handlers were called with is as in the
run in which only its own calls are made. The rows are kept apart by the prefixes, the notifications
are not.
-/

namespace Datasole

/-- A backend, and what has come out of it: the key of each subscription by its number, the calls of
handlers, and what `get` and `delete` have returned. -/
structure PostgresBackend (V : Type*) where
  emitter : EventEmitter ℕ
  keys : List String
  calls : List (ℕ × V)
  results : List (Option V ⊕ Bool)

namespace PostgresBackend

variable {ι V : Type*}

def new : PostgresBackend V := ⟨EventEmitter.empty, [], [], []⟩

/-- `prefixed(key)` -/
def prefixed (keyPrefix key : String) : String := if keyPrefix ≠ "" then keyPrefix ++ key else key

/-- What a backend is asked for. -/
inductive Op (V : Type*) where
  | get (key : String)
  | set (key : String) (value : V)
  | delete (key : String)
  | subscribe (key : String)
  /-- What the `n`-th call of `subscribe` has returned is called. -/
  | unsubscribe (n : ℕ)
  | publish (key : String) (value : V)

/-- How the backends are set up, and what is not part of them: what their handlers throw, what
Postgres makes of a value (`JSONB` for the rows, text for the notifications) if it takes it at all,
and how a listener of `newListener` is told a key. -/
structure Setup (ι V : Type*) where
  keyPrefix : ι → String
  throws : ι → List (ℕ × V) → Bool
  store : V → Option V
  notify : String → V → Option V
  name : String → V

/-- The database with its table, the notifications that are still to arrive at each backend (through
which backend they were published, key and value), and the backends. -/
structure Sys (ι V : Type*) where
  table : JsMap String V
  inbox : ι → List (ι × String × V)
  backends : ι → PostgresBackend V

inductive Act (ι V : Type*) where
  | call (i : ι) (op : Op V)
  /-- The first notification arrives at `target`; it was published through `source`. -/
  | deliver (target source : ι)

def init : Sys ι V := ⟨JsMap.empty, fun _ => [], fun _ => new⟩

variable [DecidableEq ι] (setup : Setup ι V)

def Sys.update (s : Sys ι V) (i : ι) (b : PostgresBackend V) : Sys ι V :=
  { s with backends := Function.update s.backends i b }

/-- A call of a method, with its query. A query that Postgres refuses makes the promise reject. -/
def Sys.call (s : Sys ι V) (i : ι) : Op V → Sys ι V
  | .get key =>
    let b := s.backends i
    s.update i { b with
      results := b.results ++ [.inl (s.table.get (prefixed (setup.keyPrefix i) key))] }
  | .set key value =>
    match setup.store value with
    | none => s
    | some row => { s with table := s.table.set (prefixed (setup.keyPrefix i) key) row }
  | .delete key =>
    let b := s.backends i
    let rowKey := prefixed (setup.keyPrefix i) key
    { s.update i { b with results := b.results ++ [.inr (s.table.has rowKey)] } with
      table := s.table.delete rowKey }
  | .subscribe key =>
    let b := s.backends i
    let (emitter, calls) := b.emitter.on (setup.throws i) setup.name b.calls key b.keys.length
    s.update i { b with emitter := emitter.getD b.emitter, calls, keys := b.keys ++ [key] }
  | .unsubscribe n =>
    let b := s.backends i
    match b.keys[n]? with
    | none => s
    | some key =>
      let (emitter, calls) := b.emitter.off (setup.throws i) setup.name b.calls key n
      s.update i { b with emitter, calls }
  | .publish key value =>
    match setup.notify key value with
    | none => s
    | some arrives => { s with inbox := fun j => s.inbox j ++ [(i, key, arrives)] }

/-- The listener of `notification` events: what is thrown is caught. -/
def onNotification (throws : List (ℕ × V) → Bool) (b : PostgresBackend V) (key : String)
    (value : V) :
    PostgresBackend V :=
  { b with calls := (b.emitter.emit throws b.calls key value).1 }

def step (s : Sys ι V) : Act ι V → Option (Sys ι V)
  | .call i op => some (s.call setup i op)
  | .deliver target source =>
    match s.inbox target with
    | [] => none
    | (i, key, value) :: rest =>
      if i = source then
        some ({ s with inbox := Function.update s.inbox target rest }.update target
          ((s.backends target).onNotification (setup.throws target) key value))
      else none

/-- The calls of a backend, and the arrival of what was published through it. -/
def Act.Own (i : ι) : Act ι V → Prop
  | .call j _ => j = i
  | .deliver target source => target = i ∧ source = i

instance (i : ι) : DecidablePred (Act.Own (V := V) i)
  | .call j _ => inferInstanceAs (Decidable (j = i))
  | .deliver target source => inferInstanceAs (Decidable (target = i ∧ source = i))

/-- Each backend has returned and delivered what it would have on its own. -/
def Isolated (acts : List (Act ι V)) (s : Sys ι V) : Prop :=
  ∀ i, ∃ alone, Machine.exec (step setup) init (acts.filter fun a => a.Own i) = some alone ∧
    (s.backends i).results = (alone.backends i).results ∧
    (s.backends i).calls = (alone.backends i).calls

/-- When something that another backend has published arrives, nobody has subscribed to its key. -/
def Unheard (s : Sys ι V) : Act ι V → Prop
  | .call _ _ => True
  | .deliver target source =>
    source ≠ target → ∀ message ∈ (s.inbox target).head?,
      (s.backends target).emitter.listeners message.2.1 = []

instance (s : Sys ι V) : DecidablePred (Unheard s)
  | .call _ _ => .isTrue trivial
  | .deliver _ _ => inferInstanceAs (Decidable (_ → ∀ message ∈ _, _))

/-! ## The part of the state that a backend sees -/

variable {setup}

/-- What backend `i` sees of `s` is all that there is in `alone`. -/
structure Sees (setup : Setup ι V) (i : ι) (s alone : Sys ι V) : Prop where
  backend : s.backends i = alone.backends i
  inbox : (s.inbox i).filter (·.1 = i) = alone.inbox i
  rows : ∀ key, s.table.get (prefixed (setup.keyPrefix i) key) =
    alone.table.get (prefixed (setup.keyPrefix i) key)

omit [DecidableEq ι] in
/-- The key in the table is the prefix and the key. -/
theorem prefixed_eq (keyPrefix key : String) : prefixed keyPrefix key = keyPrefix ++ key := by
  unfold prefixed
  split
  · rfl
  · next h => rw [not_not.mp h, String.empty_append]

/-- Two prefixes make no common key if neither starts with the other. -/
theorem prefixed_ne {keyPrefix keyPrefix' : String} (h : ¬ keyPrefix.toList <+: keyPrefix'.toList)
    (h' : ¬ keyPrefix'.toList <+: keyPrefix.toList) (key key' : String) :
    prefixed keyPrefix key ≠ prefixed keyPrefix' key' := by
  intro heq
  rw [prefixed_eq, prefixed_eq] at heq
  have hlist := congrArg String.toList heq
  rw [String.toList_append, String.toList_append] at hlist
  rcases List.prefix_or_prefix_of_prefix (List.prefix_append keyPrefix.toList key.toList)
    (hlist ▸ List.prefix_append keyPrefix'.toList key'.toList) with hle | hle
  · exact h hle
  · exact h' hle

variable {s alone : Sys ι V} {i j : ι}

@[simp] theorem update_backends_self (s : Sys ι V) (i : ι) (b : PostgresBackend V) :
    (s.update i b).backends i = b := Function.update_self ..

theorem update_backends_ne (s : Sys ι V) (h : j ≠ i) (b : PostgresBackend V) :
    (s.update i b).backends j = s.backends j :=
  Function.update_of_ne h ..

/-- A call does the same to what the backend sees with and without the others. -/
theorem Sees.call (h : Sees setup i s alone) (op : Op V) :
    Sees setup i (s.call setup i op) (alone.call setup i op) := by
  obtain ⟨hbackend, hinbox, hrows⟩ := h
  cases op with
  | get key =>
    refine ⟨?_, hinbox, hrows⟩
    simp only [Sys.call, update_backends_self, hbackend, hrows key]
  | set key value =>
    simp only [Sys.call]
    cases setup.store value with
    | none => exact ⟨hbackend, hinbox, hrows⟩
    | some row =>
      refine ⟨hbackend, hinbox, fun key' => ?_⟩
      rw [JsMap.get_set, JsMap.get_set, hrows]
  | delete key =>
    refine ⟨?_, hinbox, fun key' => ?_⟩
    · simp only [Sys.call, update_backends_self, hbackend, JsMap.has, hrows key]
    · simp only [Sys.call, JsMap.get_delete, hrows]
  | subscribe key =>
    refine ⟨?_, hinbox, hrows⟩
    simp only [Sys.call, update_backends_self, hbackend]
  | unsubscribe n =>
    simp only [Sys.call, hbackend]
    cases (alone.backends i).keys[n]? with
    | none => exact ⟨hbackend, hinbox, hrows⟩
    | some key => exact ⟨by simp only [update_backends_self], hinbox, hrows⟩
  | publish key value =>
    simp only [Sys.call]
    cases setup.notify key value with
    | none => exact ⟨hbackend, hinbox, hrows⟩
    | some arrives =>
      refine ⟨hbackend, ?_, hrows⟩
      simp [hinbox]

/-- A call of another backend does nothing to what it sees. -/
theorem Sees.call_other (hapart : ∀ key key',
      prefixed (setup.keyPrefix i) key ≠ prefixed (setup.keyPrefix j) key')
    (h : Sees setup i s alone) (hij : j ≠ i) (op : Op V) : Sees setup i (s.call setup j op) alone := by
  obtain ⟨hbackend, hinbox, hrows⟩ := h
  have hupdate (b : PostgresBackend V) : (s.update j b).backends i = alone.backends i :=
    (update_backends_ne s hij.symm b).trans hbackend
  cases op with
  | get key => exact ⟨hupdate _, hinbox, hrows⟩
  | set key value =>
    simp only [Sys.call]
    cases setup.store value with
    | none => exact ⟨hbackend, hinbox, hrows⟩
    | some row =>
      refine ⟨hbackend, hinbox, fun key' => ?_⟩
      rw [JsMap.get_set_ne _ (hapart key' key), hrows]
  | delete key =>
    refine ⟨hupdate _, hinbox, fun key' => ?_⟩
    simp only [Sys.call, JsMap.get_delete]
    rw [if_neg (hapart key' key), hrows]
  | subscribe key => exact ⟨hupdate _, hinbox, hrows⟩
  | unsubscribe n =>
    simp only [Sys.call]
    cases (s.backends j).keys[n]? with
    | none => exact ⟨hbackend, hinbox, hrows⟩
    | some key => exact ⟨hupdate _, hinbox, hrows⟩
  | publish key value =>
    simp only [Sys.call]
    cases setup.notify key value with
    | none => exact ⟨hbackend, hinbox, hrows⟩
    | some arrives =>
      refine ⟨hbackend, ?_, hrows⟩
      simp [hinbox, hij]

/-- What a delivery does: the first notification is taken away and emitted. -/
theorem step_deliver {t : Sys ι V} {target source : ι}
    (ha : step setup s (.deliver target source) = some t) :
    ∃ key value rest, s.inbox target = (source, key, value) :: rest ∧
      t = { s with inbox := Function.update s.inbox target rest }.update target
        ((s.backends target).onNotification (setup.throws target) key value) := by
  simp only [step] at ha
  split at ha
  · cases ha
  · next j key value rest hinbox =>
    split at ha
    · next hj => exact ⟨key, value, rest, hj ▸ hinbox, (Option.some.inj ha).symm⟩
    · cases ha

/-- Its own notification arrives at a backend with and without the others. -/
theorem Sees.deliver {t : Sys ι V} (h : Sees setup i s alone)
    (ha : step setup s (.deliver i i) = some t) :
    ∃ alone', step setup alone (.deliver i i) = some alone' ∧ Sees setup i t alone' := by
  obtain ⟨key, value, rest, hinbox, rfl⟩ := step_deliver ha
  have halone : alone.inbox i = (i, key, value) :: rest.filter (·.1 = i) := by
    rw [← h.inbox, hinbox, List.filter_cons_of_pos (by simp)]
  have hstep : step setup alone (.deliver i i) =
      some ({ alone with inbox := Function.update alone.inbox i (rest.filter (·.1 = i)) }.update i
        ((alone.backends i).onNotification (setup.throws i) key value)) := by
    simp only [step, halone, if_true]
  refine ⟨_, hstep, ?_, ?_, h.rows⟩
  · simp only [update_backends_self, h.backend]
  · simp [Sys.update]

/-- A notification that is not for it, or that nobody hears, changes nothing for a backend. -/
theorem Sees.deliver_other {t : Sys ι V} {target source : ι} (h : Sees setup i s alone)
    (hown : ¬ (Act.deliver target source : Act ι V).Own i) (hunheard : Unheard s (.deliver target source))
    (ha : step setup s (.deliver target source) = some t) : Sees setup i t alone := by
  obtain ⟨key, value, rest, hinbox, rfl⟩ := step_deliver ha
  by_cases htarget : target = i
  · subst htarget
    have hsource : source ≠ target := fun hsource => hown ⟨rfl, hsource⟩
    have hnobody : (s.backends target).emitter.listeners key = [] :=
      hunheard hsource (source, key, value) (by rw [hinbox]; rfl)
    refine ⟨?_, ?_, h.rows⟩
    · rw [update_backends_self, ← h.backend, onNotification,
        EventEmitter.emit_eq_self_iff.mpr hnobody]
    · rw [← h.inbox, hinbox, List.filter_cons_of_neg (by simpa using hsource)]
      simp [Sys.update]
  · have hne : i ≠ target := fun heq => htarget heq.symm
    refine ⟨(update_backends_ne _ hne _).trans h.backend, ?_, h.rows⟩
    rw [← h.inbox]
    simp [Sys.update, Function.update_of_ne hne]

/-! ## Runs -/

/-- No prefix starts with that of another backend. -/
def Apart (keyPrefix : ι → String) : Prop :=
  ∀ i j, i ≠ j → ¬ (keyPrefix i).toList <+: (keyPrefix j).toList

/-- Each backend sees what there is in the run of its own calls. -/
def Seen (setup : Setup ι V) (acts : List (Act ι V)) (s : Sys ι V) : Prop :=
  ∀ i, ∃ alone, Machine.exec (step setup) init (acts.filter fun a => a.Own i) = some alone ∧
    Sees setup i s alone

/-- Backends that see what they would on their own have returned and delivered what they would. -/
theorem Seen.isolated {acts : List (Act ι V)} (h : Seen setup acts s) : Isolated setup acts s := by
  intro i
  obtain ⟨alone, hrun, hsees⟩ := h i
  exact ⟨alone, hrun, by rw [hsees.backend], by rw [hsees.backend]⟩

/-- A step keeps what each backend sees, unless it hears what another one has published. -/
theorem Seen.step (hapart : Apart setup.keyPrefix) {acts : List (Act ι V)} (h : Seen setup acts s)
    {a : Act ι V} (hunheard : Unheard s a) {t : Sys ι V} (ha : step setup s a = some t) :
    Seen setup (acts ++ [a]) t := by
  intro i
  obtain ⟨alone, hrun, hsees⟩ := h i
  rw [List.filter_append]
  by_cases hown : a.Own i
  · have hnext :
        ∃ alone', PostgresBackend.step setup alone a = some alone' ∧ Sees setup i t alone' := by
      cases a with
      | call j op =>
        obtain rfl : j = i := hown
        cases ha
        exact ⟨_, rfl, hsees.call op⟩
      | deliver target source =>
        obtain ⟨rfl, rfl⟩ : target = i ∧ source = i := hown
        exact hsees.deliver ha
    obtain ⟨alone', halone', hsees'⟩ := hnext
    rw [List.filter_cons_of_pos (by simpa using hown), List.filter_nil]
    exact ⟨alone', Machine.exec_concat_eq_some.mpr ⟨alone, hrun, halone'⟩, hsees'⟩
  · rw [List.filter_cons_of_neg (by simpa using hown), List.filter_nil, List.append_nil]
    refine ⟨alone, hrun, ?_⟩
    cases a with
    | call j op =>
      cases ha
      have hji : j ≠ i := hown
      exact hsees.call_other (prefixed_ne (hapart i j hji.symm) (hapart j i hji)) hji op
    | deliver target source => exact hsees.deliver_other hown hunheard ha

/-- What is published through another backend and heard makes a call that would not have been. -/
theorem unheard_of_isolated {acts : List (Act ι V)} (h : Seen setup acts s) {a : Act ι V}
    {t : Sys ι V}
    (ha : step setup s a = some t) (hisolated : Isolated setup (acts ++ [a]) t) : Unheard s a := by
  cases a with
  | call j op => trivial
  | deliver target source =>
    intro hsource message hmessage
    obtain ⟨key, value, rest, hinbox, rfl⟩ := step_deliver ha
    rw [hinbox] at hmessage
    obtain rfl := Option.some.inj hmessage
    obtain ⟨alone, hrun, hsees⟩ := h target
    obtain ⟨alone', hrun', -, hcalls⟩ := hisolated target
    have hown : ¬ (Act.deliver target source : Act ι V).Own target := fun hown => hsource hown.2
    rw [List.filter_append, List.filter_cons_of_neg (by simpa using hown), List.filter_nil,
      List.append_nil, hrun] at hrun'
    obtain rfl := Option.some.inj hrun'
    rw [update_backends_self, ← hsees.backend] at hcalls
    exact EventEmitter.emit_eq_self_iff.mp hcalls

/-- In every run of backends whose prefixes are apart: every backend returns and delivers what it
would on its own, all along, exactly if what the others publish always arrives under keys that
nobody has subscribed to there. -/
theorem isolated_iff (setup : Setup ι V) (hapart : Apart setup.keyPrefix) {acts : List (Act ι V)}
    {t : Sys ι V} (hrun : Machine.exec (step setup) init acts = some t) :
    (∀ before after s, acts = before ++ after → Machine.exec (step setup) init before = some s →
        Isolated setup before s) ↔
      Machine.Guarded (step setup) Unheard init acts := by
  have hinit : Seen setup [] (init : Sys ι V) := fun i => ⟨init, rfl, rfl, rfl, fun _ => rfl⟩
  exact Machine.forall_exec_iff_guarded_of_history (I := Seen setup) (fun _ _ h => h.isolated)
    (fun _ _ _ _ h hunheard ha => h.step hapart hunheard ha)
    (fun _ _ _ _ h ha hisolated => unheard_of_isolated h ha hisolated) hinit hrun

/-! ## Two backends of one database -/

/-- Two backends with the prefixes `a:` and `b:`, where Postgres takes every value as it is. -/
def twoPrefixes : Setup Bool ℕ where
  keyPrefix i := if i then "a:" else "b:"
  throws _ _ := false
  store := some
  notify _ := some
  name _ := 0

/-- Neither of the two prefixes of the example starts with the other. -/
theorem twoPrefixes_apart : Apart twoPrefixes.keyPrefix := by
  unfold Apart
  decide

/-- Both set the same key and publish another one; what arrives from the other has no listeners. -/
def sameKeys : List (Act Bool ℕ) :=
  [.call true (.set "k" 1), .call false (.set "k" 2), .call true (.subscribe "e"), .call true (.get "k"),
    .call false (.publish "f" 3), .call true (.publish "e" 4), .deliver true false, .deliver true true]

/-- With prefixes that are apart, two backends that use the same key do not notice each other. -/
theorem sameKeys_isolated : ∃ s, Machine.exec (step twoPrefixes) init sameKeys = some s ∧
    ∀ before after s', sameKeys = before ++ after →
      Machine.exec (step twoPrefixes) init before = some s' → Isolated twoPrefixes before s' :=
  ⟨_, rfl, (isolated_iff twoPrefixes twoPrefixes_apart rfl).mpr (by decide +kernel)⟩

/-- What is published through `b:` is delivered to the subscriber of `a:`. -/
theorem published_through_other : ∃ s, Machine.exec (step twoPrefixes) init
      [.call true (.subscribe "k"), .call false (.publish "k" 7), .deliver true false] = some s ∧
    (s.backends true).calls = [(0, 7)] ∧
    ¬ Isolated twoPrefixes
      [.call true (.subscribe "k"), .call false (.publish "k" 7), .deliver true false] s := by
  refine ⟨_, rfl, rfl, fun hisolated => ?_⟩
  obtain ⟨alone, hrun, -, hcalls⟩ := hisolated true
  cases hrun
  cases hcalls

end PostgresBackend

end Datasole
