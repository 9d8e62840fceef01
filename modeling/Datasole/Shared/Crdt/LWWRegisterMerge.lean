import Datasole.Shared.Crdt.LWWRegister

/-!
# Merging a set of states

A replica with timestamp 0 merges states that are all newer. On a tie `merge` compares the sender's
id with the replica's own, not with that of the writer whose value is held, so between two states of
one timestamp it depends on the replica and on the order which of them stays. `converges_iff`: that
is all that can keep two replicas apart.
-/

namespace Datasole

namespace LWWRegister

variable {V : Type*}

/-- The states of these registers, merged one after the other. -/
def mergeAll (replica : LWWRegister V) (senders : List (LWWRegister V)) : LWWRegister V :=
  senders.foldl (fun r sender => r.merge sender.state) replica

/-- The replica merges exactly the states of the set, in any order and with any repetitions. -/
def Covers (states : List (LWWRegister V)) (senders : List (LWWRegister V)) : Prop :=
  ∀ r, r ∈ senders ↔ r ∈ states

/-- Any two replicas that start with timestamp 0 and merge the states end with one value. With
nothing to merge they keep what they start with, which has to be the same then. -/
def Converges (states : List (LWWRegister V)) : Prop :=
  ∀ a b : LWWRegister V, a.timestamp = 0 → b.timestamp = 0 → (states = [] → a.value = b.value) →
    ∀ as bs, Covers states as → Covers states bs → (a.mergeAll as).value = (b.mergeAll bs).value

/-- No state is newer. -/
def IsNewest (states : List (LWWRegister V)) (r : LWWRegister V) : Prop :=
  r ∈ states ∧ ∀ r' ∈ states, r'.timestamp ≤ r.timestamp

/-- A merge takes the newer of the two, and of two with one timestamp that of the greater node
id. -/
theorem held_merge_state (r sender : LWWRegister V) :
    (r.merge sender.state).held =
      if r.timestamp < sender.timestamp ∨
          (sender.timestamp = r.timestamp ∧ JsString.Lt r.nodeId sender.nodeId) then sender.held
      else r.held :=
  held_merge r sender.state

/-- What is held after a merge is one of the two, and not older than either. -/
theorem held_merge_cases (r sender : LWWRegister V) :
    ((r.merge sender.state).held = r.held ∨ (r.merge sender.state).held = sender.held) ∧
      r.timestamp ≤ (r.merge sender.state).timestamp ∧
      sender.timestamp ≤ (r.merge sender.state).timestamp := by
  have hheld := held_merge_state r sender
  have htimestamp : (r.merge sender.state).timestamp = (r.merge sender.state).held.1 := rfl
  split at hheld
  · next haccept =>
    rw [htimestamp, hheld]
    refine ⟨.inr rfl, ?_, le_rfl⟩
    rcases haccept with hlt | ⟨heq, -⟩
    · exact hlt.le
    · exact heq.ge
  · next hreject =>
    rw [htimestamp, hheld]
    exact ⟨.inl rfl, le_rfl, not_lt.mp fun hlt => hreject (.inl hlt)⟩

/-- After all merges: the write held is the replica's own or one of those merged, and none is
newer. -/
theorem held_mergeAll (replica : LWWRegister V) (senders : List (LWWRegister V)) :
    ((replica.mergeAll senders).held = replica.held ∨
      ∃ r ∈ senders, (replica.mergeAll senders).held = r.held) ∧
    replica.timestamp ≤ (replica.mergeAll senders).timestamp ∧
    ∀ r ∈ senders, r.timestamp ≤ (replica.mergeAll senders).timestamp := by
  induction senders generalizing replica with
  | nil => exact ⟨.inl rfl, le_rfl, fun _ h => absurd h List.not_mem_nil⟩
  | cons sender rest ih =>
    obtain ⟨hcases, hle, hsender⟩ := held_merge_cases replica sender
    obtain ⟨hheld, hrest, hall⟩ := ih (replica.merge sender.state)
    refine ⟨?_, hle.trans hrest, fun r hr => ?_⟩
    · rcases hheld with hheld | ⟨r, hr, hheld⟩
      · rcases hcases with hcases | hcases
        · exact .inl (hheld.trans hcases)
        · exact .inr ⟨sender, List.mem_cons_self, hheld.trans hcases⟩
      · exact .inr ⟨r, List.mem_cons_of_mem _ hr, hheld⟩
    · rcases List.mem_cons.mp hr with rfl | hr
      · exact hsender.trans hrest
      · exact hall r hr

/-- A replica ends with the write of one of the newest states. -/
theorem exists_newest_held {states senders : List (LWWRegister V)}
    (hpos : ∀ r ∈ states, 0 < r.timestamp) (hne : states ≠ []) (hcovers : Covers states senders)
    {replica : LWWRegister V} (hzero : replica.timestamp = 0) :
    ∃ r, IsNewest states r ∧ (replica.mergeAll senders).held = r.held := by
  obtain ⟨hheld, -, hall⟩ := held_mergeAll replica senders
  rcases hheld with hheld | ⟨r, hr, hheld⟩
  · -- there is a newer one than the initial write
    obtain ⟨r, hr⟩ := List.exists_mem_of_ne_nil states hne
    have hle := hall r ((hcovers r).mpr hr)
    have heq : (replica.mergeAll senders).timestamp = 0 := (congrArg Prod.fst hheld).trans hzero
    rw [heq] at hle
    exact absurd (hpos r hr) (not_lt.mpr hle)
  · refine ⟨r, ⟨(hcovers r).mp hr, fun r' hr' => ?_⟩, hheld⟩
    have htimestamp : (replica.mergeAll senders).timestamp = r.timestamp := congrArg Prod.fst hheld
    exact htimestamp ▸ hall r' ((hcovers r').mpr hr')

/-- There is an id that no sender's id exceeds. -/
theorem exists_greatest_id (states : List (LWWRegister V)) :
    ∃ id, ∀ r ∈ states, ¬ JsString.Lt id r.nodeId := by
  induction states with
  | nil => exact ⟨"", fun _ h => absurd h List.not_mem_nil⟩
  | cons r rest ih =>
    obtain ⟨id, hid⟩ := ih
    by_cases hlt : JsString.Lt id r.nodeId
    · refine ⟨r.nodeId, fun r' hr' h => ?_⟩
      rcases List.mem_cons.mp hr' with rfl | hr'
      · exact lt_irrefl (JsString.codeUnits _) h
      · exact hid r' hr' (lt_trans (a := JsString.codeUnits id) hlt h)
    · refine ⟨id, fun r' hr' => ?_⟩
      rcases List.mem_cons.mp hr' with rfl | hr'
      · exact hlt
      · exact hid r' hr'

/-- A replica whose id no sender's exceeds keeps a write that is as new as any merged. -/
theorem held_mergeAll_of_newest (replica : LWWRegister V) (senders : List (LWWRegister V))
    (hid : ∀ r ∈ senders, ¬ JsString.Lt replica.nodeId r.nodeId)
    (hnewest : ∀ r ∈ senders, r.timestamp ≤ replica.timestamp) :
    (replica.mergeAll senders).held = replica.held := by
  induction senders generalizing replica with
  | nil => rfl
  | cons sender rest ih =>
    have hreject : ¬ (replica.timestamp < sender.timestamp ∨
        (sender.timestamp = replica.timestamp ∧ JsString.Lt replica.nodeId sender.nodeId)) := by
      rintro (hlt | ⟨-, hlt⟩)
      · exact absurd hlt (not_lt.mpr (hnewest sender List.mem_cons_self))
      · exact hid sender List.mem_cons_self hlt
    have hheld : (replica.merge sender.state).held = replica.held :=
      (held_merge_state replica sender).trans (if_neg hreject)
    have htimestamp : (replica.merge sender.state).timestamp = replica.timestamp :=
      congrArg Prod.fst hheld
    refine (ih (replica.merge sender.state) (fun r hr => ?_) fun r hr => ?_).trans hheld
    · rw [nodeId_merge]
      exact hid r (List.mem_cons_of_mem _ hr)
    · rw [htimestamp]
      exact hnewest r (List.mem_cons_of_mem _ hr)

/-- A state of the set may be merged once more before the others. -/
theorem Covers.cons {states : List (LWWRegister V)} {r : LWWRegister V} (hr : r ∈ states) :
    Covers states (r :: states) := by
  refine fun q => ⟨fun hq => ?_, List.mem_cons_of_mem _⟩
  rcases List.mem_cons.mp hq with rfl | hq
  · exact hr
  · exact hq

/-- The replica with this id ends with the value of whichever newest state it merges first. -/
theorem value_mergeAll_newest_first {states : List (LWWRegister V)} {id : String}
    (hid : ∀ r ∈ states, ¬ JsString.Lt id r.nodeId) {r : LWWRegister V} (hr : IsNewest states r)
    (hpos : 0 < r.timestamp) :
    ((LWWRegister.new id none 0 : LWWRegister V).mergeAll (r :: states)).value = r.value := by
  have hheld : ((LWWRegister.new id none 0).merge r.state).held = r.held :=
    (held_merge_state _ r).trans (if_pos (.inl hpos))
  have htimestamp : ((LWWRegister.new id none 0).merge r.state).timestamp = r.timestamp :=
    congrArg Prod.fst hheld
  have hkeep := held_mergeAll_of_newest ((LWWRegister.new id none 0).merge r.state) states
    (fun r hr => by rw [nodeId_merge]; exact hid r hr)
    (fun r hr' => by rw [htimestamp]; exact hr.2 r hr')
  exact congrArg Prod.snd (hkeep.trans hheld)

theorem Covers.eq_nil {senders : List (LWWRegister V)} (h : Covers [] senders) : senders = [] :=
  List.eq_nil_iff_forall_not_mem.mpr fun r hr => List.not_mem_nil ((h r).mp hr)

/-- For every finite set of states, all newer than the replicas: any two replicas that merge exactly
these states hold the same value in the end, whatever their ids, the orders and the repetitions,
exactly if the states with the greatest timestamp hold one value. -/
theorem converges_iff (states : List (LWWRegister V)) (hpos : ∀ r ∈ states, 0 < r.timestamp) :
    Converges states ↔ ∀ r r', IsNewest states r → IsNewest states r' → r.value = r'.value := by
  constructor
  · intro hconverges r r' hr hr'
    obtain ⟨id, hid⟩ := exists_greatest_id states
    have hne : states ≠ [] := List.ne_nil_of_mem hr.1
    have hvalue := value_mergeAll_newest_first hid hr (hpos r hr.1)
    have hvalue' := value_mergeAll_newest_first hid hr' (hpos r' hr'.1)
    rw [← hvalue, ← hvalue']
    exact hconverges _ _ rfl rfl (fun h => absurd h hne) _ _ (.cons hr.1) (.cons hr'.1)
  · intro hsame a b ha hb hempty as bs has hbs
    by_cases hne : states = []
    · subst hne
      rw [has.eq_nil, hbs.eq_nil]
      exact hempty rfl
    · obtain ⟨r, hr, hheld⟩ := exists_newest_held hpos hne has ha
      obtain ⟨r', hr', hheld'⟩ := exists_newest_held hpos hne hbs hb
      have hvalue : (a.mergeAll as).value = r.value := congrArg Prod.snd hheld
      have hvalue' : (b.mergeAll bs).value = r'.value := congrArg Prod.snd hheld'
      rw [hvalue, hvalue', hsame r r' hr hr']

/-- Two states, one of them newer. -/
theorem newer_state_converges : Converges
    [LWWRegister.new "b" (some 1) 5, LWWRegister.new "c" (some 2) 7] := by
  refine (converges_iff _ (by decide +kernel)).mpr fun r r' hr hr' => ?_
  have hlast : ∀ q : LWWRegister ℕ, IsNewest
      [LWWRegister.new "b" (some 1) 5, LWWRegister.new "c" (some 2) 7] q → q.value = some 2 := by
    rintro q ⟨hmem, hnewest⟩
    rcases List.mem_cons.mp hmem with rfl | hmem
    · have hle :=
        hnewest (LWWRegister.new "c" (some 2) 7) (List.mem_cons_of_mem _ List.mem_cons_self)
      exact absurd hle (by decide +kernel)
    · rw [List.mem_singleton.mp hmem]
      rfl
  rw [hlast r hr, hlast r' hr']

/-- Two states of one timestamp: the replica `a` takes whichever comes last. -/
theorem tie_diverges :
    ((LWWRegister.new "a" none 0).mergeAll
      [LWWRegister.new "b" (some 1) 5, LWWRegister.new "c" (some 2) 5]).value = some 2 ∧
    ((LWWRegister.new "a" none 0).mergeAll
      [LWWRegister.new "c" (some 2) 5, LWWRegister.new "b" (some 1) 5]).value = some 1 ∧
    ¬ Converges [LWWRegister.new "b" (some 1) 5, LWWRegister.new "c" (some 2) 5] := by
  have hfirst : ((LWWRegister.new "a" none 0).mergeAll
      [LWWRegister.new "b" (some 1) 5, LWWRegister.new "c" (some 2) 5]).value = some 2 := by
    decide +kernel
  have hsecond : ((LWWRegister.new "a" none 0).mergeAll
      [LWWRegister.new "c" (some 2) 5, LWWRegister.new "b" (some 1) 5]).value = some 1 := by
    decide +kernel
  refine ⟨hfirst, hsecond, fun hconverges => ?_⟩
  have hsame := hconverges (LWWRegister.new "a" none 0) (LWWRegister.new "a" none 0) rfl rfl
    (fun _ => rfl) [LWWRegister.new "b" (some 1) 5, LWWRegister.new "c" (some 2) 5]
    [LWWRegister.new "c" (some 2) 5, LWWRegister.new "b" (some 1) 5] (fun _ => Iff.rfl)
    (fun r => (List.Perm.swap _ _ _).mem_iff)
  rw [hfirst, hsecond] at hsame
  exact absurd hsame (by decide)

end LWWRegister

end Datasole
