import Datasole.Common.SharedStore

/-!
# Keys on the shared backend

The calls that the server's primitives make on one backend: `StateManager`, `SessionManager`,
`EventBus`, `CrdtManager`, `SyncChannel` and `DefaultRateLimiter` under `server/primitives`. Each
puts a tag of its own in front of its keys, except for `StateManager`, which uses state keys as they
are.

`separated_iff`: the primitives do not notice each other exactly if no state key starts with one of
the five tags.
-/

namespace Datasole

namespace SharedBackend

open SharedStore

inductive Primitive where
  | stateManager | sessionManager | eventBus | crdtManager | syncChannel | rateLimiter
deriving DecidableEq

/-- What stands in front of a primitive's keys. -/
def Primitive.tag : Primitive → String
  | stateManager => ""
  | sessionManager => "session:"
  | eventBus => "evt:"
  | crdtManager => "crdt:"
  | syncChannel => "sync:"
  | rateLimiter => "rl:"

/-- A key starts with a primitive's tag. -/
def HasTag (P : Primitive) (key : String) : Prop := P.tag.toList <+: key.toList

/-- The backend keys of a primitive; those of `StateManager` are the state keys of the contract. -/
def keys (stateKeys : Set String) : Primitive → Set String
  | .stateManager => stateKeys
  | P => {key | HasTag P key}

/-- The operations that use the backend. What they do with values that they read is an argument: the
patches of a state, and for a rate-limit window whether it is still open and how it counts. -/
inductive Operation (V : Type*) where
  | setState (key : String) (value : V) (diff : Option V → V → V)
  | getState (key : String)
  | subscribe (key : String)
  | unsubscribe (key : String)
  | snapshot (userId : String)
  | flushUser (userId : String) (data : V)
  /-- `first`: there is no handler for the event yet. -/
  | on (event : String) (first : Bool)
  | emit (event : String) (payload : V)
  | destroyEventBus (events : List String)
  | register (key : String)
  /-- `first`: the key is registered by the type of the operation. -/
  | apply (key : String) (first : Bool) (state op : V)
  | destroyCrdtManager (keys : List String)
  | newSyncChannel (key : String)
  | destroySyncChannel (key : String)
  | check (key : String) (isOpen : V → Bool) (fresh : V)
  | consume (key : String) (isOpen : V → Bool) (fresh : V) (count : V → V)
  | reset (key : String)

variable {V : Type*}

namespace Operation

def owner : Operation V → Primitive
  | setState .. | getState _ | subscribe _ | unsubscribe _ => .stateManager
  | snapshot _ | flushUser .. => .sessionManager
  | on .. | emit .. | destroyEventBus _ => .eventBus
  | register _ | apply .. | destroyCrdtManager _ => .crdtManager
  | newSyncChannel _ | destroySyncChannel _ => .syncChannel
  | check .. | consume .. | reset _ => .rateLimiter

/-- `for (const unsub of this.unsubscribers) unsub()`. -/
def unsubscribeAll (tag : String) : List String → Program String V
  | [] => .done
  | key :: rest => .unsubscribe (tag ++ key) (unsubscribeAll tag rest)

/-- `getOrCreate` of the limiter, and what comes after it. -/
def getOrCreate (key : String) (isOpen : V → Bool) (fresh : V) (next : V → Program String V) :
    Program String V :=
  .get ("rl:" ++ key) fun entry =>
    match entry.filter isOpen with
    | none => .set ("rl:" ++ key) fresh (next fresh)
    | some entry => next entry

/-- The calls of an operation on the backend. -/
def program : Operation V → Program String V
  | setState key value diff =>
    .get key fun current => .set key value (.publish key (diff current value) .done)
  | getState key => .get key fun _ => .done
  | subscribe key => .subscribe key .done
  | unsubscribe key => .unsubscribe key .done
  | snapshot userId => if userId = "" then .done else .get ("session:" ++ userId) fun _ => .done
  | flushUser userId data =>
    .set ("session:" ++ userId) data (.publish ("session:" ++ userId) data .done)
  | on event first => if first then .subscribe ("evt:" ++ event) .done else .done
  | emit event payload => .publish ("evt:" ++ event) payload .done
  | destroyEventBus events => unsubscribeAll "evt:" events
  | register key => .subscribe ("crdt:" ++ key) .done
  | apply key first state op =>
    let write := .set ("crdt:" ++ key) state (.publish ("crdt:" ++ key) op .done)
    if first then .subscribe ("crdt:" ++ key) write else write
  | destroyCrdtManager keys => unsubscribeAll "crdt:" keys
  | newSyncChannel key => .subscribe ("sync:" ++ key) .done
  | destroySyncChannel key => .unsubscribe ("sync:" ++ key) .done
  | check key isOpen fresh => getOrCreate key isOpen fresh fun _ => .done
  | consume key isOpen fresh count =>
    getOrCreate key isOpen fresh fun entry => .set ("rl:" ++ key) (count entry) .done
  | reset key => .delete ("rl:" ++ key) .done

/-- The state key of an operation of `StateManager` is one of the contract's. -/
def Legal (stateKeys : Set String) : Operation V → Prop
  | setState key _ _ | getState key | subscribe key | unsubscribe key => key ∈ stateKeys
  | _ => True

end Operation

/-- What is started is an operation. -/
def IsOperation (stateKeys : Set String) : Act Primitive String V → Prop
  | .start P p => ∃ op : Operation V, op.Legal stateKeys ∧ P = op.owner ∧ p = op.program
  | .advance _ _ => True

variable {stateKeys : Set String}

/-! ## Tags -/

/-- No tag is the start of another. -/
theorem tag_apart {P Q : Primitive} (hP : P ≠ .stateManager) (hQ : Q ≠ .stateManager)
    (hne : P ≠ Q) :
    ¬ P.tag.toList <+: Q.tag.toList := by
  cases P <;> cases Q <;> first | contradiction | decide

theorem hasTag_append (P : Primitive) (key : String) : HasTag P (P.tag ++ key) := by
  rw [HasTag, String.toList_append]
  exact List.prefix_append _ _

/-- The primitives have keys of their own exactly if no state key starts with a tag. -/
theorem pairwise_disjoint_keys
    (huntagged : ∀ key ∈ stateKeys, ∀ P : Primitive, P ≠ .stateManager → ¬ HasTag P key) :
    Pairwise fun P Q => Disjoint (keys stateKeys P) (keys stateKeys Q) := by
  have htags : ∀ P Q key, P ≠ .stateManager → Q ≠ .stateManager → P ≠ Q → HasTag P key →
      ¬ HasTag Q key := by
    intro P Q key hP hQ hne hkeyP hkeyQ
    rcases List.prefix_or_prefix_of_prefix hkeyP hkeyQ with h | h
    · exact tag_apart hP hQ hne h
    · exact tag_apart hQ hP hne.symm h
  have hkeys : ∀ P key, P ≠ .stateManager → (key ∈ keys stateKeys P ↔ HasTag P key) := by
    intro P key hP
    cases P <;> first | contradiction | rfl
  intro P Q hne
  refine Set.disjoint_left.mpr fun key hkeyP hkeyQ => ?_
  by_cases hP : P = .stateManager
  · subst hP
    exact huntagged key hkeyP Q hne.symm ((hkeys Q key hne.symm).mp hkeyQ)
  by_cases hQ : Q = .stateManager
  · subst hQ
    exact huntagged key hkeyQ P hne ((hkeys P key hne).mp hkeyP)
  exact htags P Q key hP hQ hne ((hkeys P key hP).mp hkeyP) ((hkeys Q key hQ).mp hkeyQ)

/-! ## Operations -/

namespace Operation

/-- Taking subscriptions away touches the keys of the events alone. -/
theorem within_unsubscribeAll {P : Primitive} (hP : P ≠ .stateManager) (events : List String) :
    (unsubscribeAll P.tag events : Program String V).Within (keys stateKeys P) := by
  induction events with
  | nil => trivial
  | cons event rest ih =>
    refine ⟨?_, ih⟩
    cases P <;> first | contradiction | exact hasTag_append _ event

/-- `getOrCreate` of the limiter works on the keys of the limiter, whatever its caller does next. -/
theorem within_getOrCreate (key : String) (isOpen : V → Bool) (fresh : V)
    {next : V → Program String V}
    (hnext : ∀ entry, (next entry).Within (keys stateKeys .rateLimiter)) :
    (getOrCreate key isOpen fresh next).Within (keys stateKeys .rateLimiter) := by
  have hkey : "rl:" ++ key ∈ keys stateKeys .rateLimiter := hasTag_append .rateLimiter key
  refine ⟨hkey, fun entry => ?_⟩
  dsimp only
  split
  · exact ⟨hkey, hnext fresh⟩
  · exact hnext _

/-- Every operation stays within the keys of its primitive. -/
theorem within_program {op : Operation V} (hlegal : op.Legal stateKeys) :
    op.program.Within (keys stateKeys op.owner) := by
  have hsession : ∀ userId, "session:" ++ userId ∈ keys stateKeys .sessionManager :=
    hasTag_append .sessionManager
  have hevent : ∀ event, "evt:" ++ event ∈ keys stateKeys .eventBus := hasTag_append .eventBus
  have hcrdt : ∀ key, "crdt:" ++ key ∈ keys stateKeys .crdtManager := hasTag_append .crdtManager
  have hlimit : ∀ key, "rl:" ++ key ∈ keys stateKeys .rateLimiter := hasTag_append .rateLimiter
  cases op with
  | setState key value diff => exact ⟨hlegal, fun _ => ⟨hlegal, hlegal, trivial⟩⟩
  | getState key => exact ⟨hlegal, fun _ => trivial⟩
  | subscribe key | unsubscribe key => exact ⟨hlegal, trivial⟩
  | snapshot userId =>
    simp only [program]
    split
    · trivial
    · exact ⟨hsession userId, fun _ => trivial⟩
  | flushUser userId data => exact ⟨hsession userId, hsession userId, trivial⟩
  | on event first =>
    cases first with
    | false => trivial
    | true => exact ⟨hevent event, trivial⟩
  | emit event payload => exact ⟨hevent event, trivial⟩
  | destroyEventBus events => exact within_unsubscribeAll (P := .eventBus) (by decide) events
  | register key => exact ⟨hcrdt key, trivial⟩
  | apply key first state op =>
    cases first with
    | false => exact ⟨hcrdt key, hcrdt key, trivial⟩
    | true => exact ⟨hcrdt key, hcrdt key, hcrdt key, trivial⟩
  | destroyCrdtManager keys => exact within_unsubscribeAll (P := .crdtManager) (by decide) keys
  | newSyncChannel key | destroySyncChannel key => exact ⟨hasTag_append .syncChannel key, trivial⟩
  | check key isOpen fresh =>
    apply within_getOrCreate
    exact fun _ => trivial
  | consume key isOpen fresh count =>
    apply within_getOrCreate
    exact fun _ => ⟨hlimit key, trivial⟩
  | reset key => exact ⟨hlimit key, trivial⟩

end Operation

/-- What an operation starts is within the keys of its primitive. -/
theorem within_of_isOperation {a : Act Primitive String V} (ha : IsOperation stateKeys a) :
    a.Within (keys stateKeys) := by
  cases a with
  | start P p =>
    obtain ⟨op, hlegal, rfl, rfl⟩ := ha
    exact Operation.within_program hlegal
  | advance P n => trivial

/-! ## Separation -/

/-- In every run of operations, over any backend they have left: a step of one primitive leaves the
entries of every other primitive as they are, calls none of its handlers and reads none of its keys;
and each primitive finds its entries, and has seen what it has seen, as in the run of its own
operations alone. -/
structure Separated (V : Type*) (stateKeys : Set String) : Prop where
  step : ∀ acts (s t : State Primitive String V) a, (∀ a ∈ acts, IsOperation stateKeys a) →
    Machine.exec SharedStore.step init acts = some s → IsOperation stateKeys a →
    SharedStore.step s a = some t → ∀ Q ≠ a.owner,
      (∀ key ∈ keys stateKeys Q, t.entries key = s.entries key) ∧ t.seen Q = s.seen Q ∧
        ∀ key ∈ keys stateKeys Q, ¬ Reads s a key
  alone : ∀ acts (s : State Primitive String V), (∀ a ∈ acts, IsOperation stateKeys a) →
    Machine.exec SharedStore.step init acts = some s → ∀ Q,
      ∃ t, Machine.exec SharedStore.step init (acts.filter (·.owner = Q)) = some t ∧
        (∀ key ∈ keys stateKeys Q, s.entries key = t.entries key) ∧ s.seen Q = t.seen Q

/-- The primitives are separated, in every run of any operations on any keys, exactly if no state
key starts with the tag of another primitive. -/
theorem separated_iff (V : Type*) (stateKeys : Set String) :
    Separated V stateKeys ↔
      ∀ key ∈ stateKeys, ∀ P : Primitive, P ≠ .stateManager → ¬ HasTag P key := by
  constructor
  · intro hseparated key hkey P hP htag
    -- reading the state reads a key of the other primitive
    have hmem : key ∈ keys stateKeys P := by
      cases P <;> first | contradiction | exact htag
    let get : Operation V := .getState key
    have hacts : ∀ a ∈ [Act.start .stateManager get.program], IsOperation (V := V) stateKeys a := by
      intro a ha
      rw [List.mem_singleton.mp ha]
      exact ⟨get, hkey, rfl, rfl⟩
    obtain ⟨-, -, hreads⟩ :=
      hseparated.step _ _ _ (.advance .stateManager 0) hacts rfl trivial rfl P hP
    exact hreads key hmem ⟨_, rfl⟩
  · intro huntagged
    have hdisjoint := pairwise_disjoint_keys huntagged
    constructor
    · intro acts s t a hacts hrun ha hs Q hQ
      have hplaced := placed_exec (fun a ha => within_of_isOperation (hacts a ha)) hrun
      obtain ⟨hagree, hreads⟩ := step_frame hdisjoint hplaced hs hQ
      exact ⟨hagree.entries, hagree.seen, hreads⟩
    · intro acts s hacts hrun Q
      obtain ⟨t, ht, hagree⟩ :=
        exec_alone hdisjoint (fun a ha => within_of_isOperation (hacts a ha)) hrun Q
      exact ⟨t, ht, fun key hkey => (hagree.entries key hkey).symm, hagree.seen.symm⟩

/-- An operation begins. -/
def Operation.start (op : Operation V) : Act Primitive String V := .start op.owner op.program

theorem isOperation_start {op : Operation V} (hlegal : op.Legal stateKeys) :
    IsOperation stateKeys op.start :=
  ⟨op, hlegal, rfl, rfl⟩

/-- The session record of a user and a handler of an event, and then two states with their keys. -/
def overwriting : List (Act Primitive String ℕ) :=
  [(Operation.flushUser "u1" 1).start, .advance .sessionManager 0, .advance .sessionManager 0,
    (Operation.on "login" true).start, .advance .eventBus 0,
    (Operation.setState "session:u1" 2 fun _ value => value).start, .advance .stateManager 0,
    .advance .stateManager 0, .advance .stateManager 0,
    (Operation.setState "evt:login" 3 fun _ value => value).start, .advance .stateManager 1,
    .advance .stateManager 1, .advance .stateManager 1,
    (Operation.snapshot "u1").start, .advance .sessionManager 1]

/-- The three calls of the example are operations. -/
theorem isOperation_overwriting : ∀ a ∈ overwriting, IsOperation Set.univ a := by
  intro a ha
  simp only [overwriting, List.mem_cons, List.not_mem_nil, or_false] at ha
  rcases ha with rfl | rfl | rfl | rfl | rfl | rfl | rfl | rfl | rfl | rfl | rfl | rfl | rfl | rfl | rfl
  any_goals exact isOperation_start trivial
  all_goals exact trivial

/-- The session of the example is overwritten by a state, and the listener of events hears of it. -/
theorem exec_overwriting : ∃ s : State Primitive String ℕ,
    Machine.exec SharedStore.step init overwriting = some s ∧
      s.entries "session:u1" = some 2 ∧ s.seen .sessionManager = [.read "session:u1" (some 2)] ∧
      s.seen .eventBus = [.notified "evt:login" 3] := by
  obtain ⟨s, hrun, hend⟩ := Machine.exists_exec_of_test
    (show (Machine.exec SharedStore.step init overwriting).map (fun s => decide
      (s.entries "session:u1" = some 2 ∧ s.seen .sessionManager = [.read "session:u1" (some 2)] ∧
        s.seen .eventBus = [.notified "evt:login" 3])) = some true by decide +kernel)
  exact ⟨s, hrun, of_decide_eq_true hend⟩

/-- A state under a session's key overwrites the session, so without a contract on state keys the
primitives are not separated. -/
theorem state_overwrites_session :
    (∃ s, Machine.exec SharedStore.step init overwriting = some s ∧
      (∀ a ∈ overwriting, IsOperation Set.univ a) ∧
      s.entries "session:u1" = some 2 ∧ s.seen .sessionManager = [.read "session:u1" (some 2)] ∧
      s.seen .eventBus = [.notified "evt:login" 3]) ∧
    ¬ Separated ℕ Set.univ := by
  obtain ⟨s, hrun, hentry, hread, hnotified⟩ := exec_overwriting
  refine ⟨⟨s, hrun, isOperation_overwriting, hentry, hread, hnotified⟩, fun hseparated => ?_⟩
  -- alone, the handler of the event bus has not been called
  obtain ⟨t, halone, -, hseen⟩ :=
    hseparated.alone overwriting s isOperation_overwriting hrun .eventBus
  obtain ⟨t', hrun', hend⟩ := Machine.exists_exec_of_test
    (show (Machine.exec SharedStore.step init (overwriting.filter (·.owner = .eventBus))).map
      (fun t => decide (t.seen .eventBus = [])) = some true by decide +kernel)
  obtain rfl := Option.some.inj (halone.symm.trans hrun')
  rw [hnotified, of_decide_eq_true hend] at hseen
  cases hseen

end SharedBackend

end Datasole
