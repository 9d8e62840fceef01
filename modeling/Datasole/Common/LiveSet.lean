import Mathlib.Data.List.Basic

/-!
# Sets that change while they are iterated

A JavaScript `Set` and its iterator. The elements stand in slots, in the order of their insertion.
Deleting an element empties its slot, adding one makes a new slot at the end, and an iterator is an
index that is looked up among the slots whenever the next element is asked for. So an element that
is added during an iteration is met by it, and one that is deleted before it is met is not.

`Reached` tells the elements that an iterator has behind it. The lemmas say what the operations and
the iterator's own steps do to it; a loop over a set that its body changes is an invariant in terms
of it.
-/

@[ext]
structure LiveSet (α : Type*) where
  slots : List (Option α)
  /-- No element has two slots. -/
  inj : ∀ (i j : ℕ) (a : α), slots[i]? = some (some a) → slots[j]? = some (some a) → i = j

namespace LiveSet

variable {α : Type*}

instance : Membership α (LiveSet α) := ⟨fun s a => some a ∈ s.slots⟩

/-- An iterator at `i` has met the element, which is still there. -/
def Reached (s : LiveSet α) (i : ℕ) (a : α) : Prop := ∃ k, k < i ∧ s.slots[k]? = some (some a)

def empty : LiveSet α where
  slots := []
  inj _ _ _ h := by rw [List.getElem?_nil] at h; cases h

/-- The first element at or behind slot `i` of what is left of the slots, and the index behind
it. -/
def nextIn : ℕ → List (Option α) → Option (α × ℕ)
  | _, [] => none
  | i, some a :: _ => some (a, i + 1)
  | i, none :: slots => nextIn (i + 1) slots

/-- `next()` of an iterator at `i`: the element and where the iterator is then. -/
def next (s : LiveSet α) (i : ℕ) : Option (α × ℕ) := nextIn i (s.slots.drop i)

/-- `size`. -/
def size (s : LiveSet α) : ℕ := s.slots.countP Option.isSome

theorem mem_iff {s : LiveSet α} {a : α} : a ∈ s ↔ ∃ k : ℕ, s.slots[k]? = some (some a) :=
  List.mem_iff_getElem?

theorem not_mem_empty (a : α) : a ∉ (empty : LiveSet α) := List.not_mem_nil

/-- A set of size zero has no elements. -/
theorem size_eq_zero {s : LiveSet α} : s.size = 0 ↔ ∀ a, a ∉ s := by
  unfold size
  rw [List.countP_eq_zero]
  constructor
  · intro h a hmem
    exact h (some a) hmem rfl
  · intro h x hx hsome
    obtain ⟨a, rfl⟩ := Option.isSome_iff_exists.mp hsome
    exact h a hx

theorem Reached.mem {s : LiveSet α} {i : ℕ} {a : α} (h : s.Reached i a) : a ∈ s := by
  obtain ⟨k, -, hk⟩ := h
  exact mem_iff.mpr ⟨k, hk⟩

theorem not_reached_zero (s : LiveSet α) (a : α) : ¬ s.Reached 0 a := by
  rintro ⟨k, hk, -⟩
  exact Nat.not_lt_zero k hk

/-! ## The iterator -/

/-- The next element is the first one behind the iterator, after empty slots alone. -/
theorem nextIn_eq_some {i j : ℕ} {slots : List (Option α)} {b : α}
    (h : nextIn i slots = some (b, j)) :
    ∃ m, j = i + m + 1 ∧ slots[m]? = some (some b) ∧ ∀ k, k < m → slots[k]? = some none := by
  induction slots generalizing i with
  | nil => cases h
  | cons x slots ih =>
    cases x with
    | some a =>
      cases h
      exact ⟨0, rfl, rfl, fun k hk => absurd hk (Nat.not_lt_zero k)⟩
    | none =>
      obtain ⟨m, hj, hm, hbefore⟩ := ih h
      refine ⟨m + 1, by omega, hm, ?_⟩
      intro k hk
      cases k with
      | zero => rfl
      | succ k => exact hbefore k (Nat.lt_of_succ_lt_succ hk)

/-- With no next element, all slots behind the iterator are empty. -/
theorem nextIn_eq_none {i : ℕ} {slots : List (Option α)} (h : nextIn i slots = none) (k : ℕ)
    (a : α) :
    slots[k]? ≠ some (some a) := by
  induction slots generalizing i k with
  | nil =>
    intro hk
    rw [List.getElem?_nil] at hk
    cases hk
  | cons x slots ih =>
    cases x with
    | some b => cases h
    | none =>
      cases k with
      | zero =>
        intro hk
        cases hk
      | succ k => exact ih h k

variable {s : LiveSet α} {i j : ℕ} {a b : α}

/-- The slot that the iterator has gone to, with nothing between. -/
theorem slot_of_next (h : s.next i = some (b, j)) :
    ∃ m, j = m + 1 ∧ i ≤ m ∧ s.slots[m]? = some (some b) ∧
      ∀ k, i ≤ k → k < m → s.slots[k]? = some none := by
  obtain ⟨m, hj, hm, hbefore⟩ := nextIn_eq_some h
  rw [List.getElem?_drop] at hm
  refine ⟨i + m, hj, Nat.le_add_right i m, hm, ?_⟩
  intro k hik hkm
  have hk := hbefore (k - i) (by omega)
  rwa [List.getElem?_drop, Nat.add_sub_cancel' hik] at hk

theorem mem_of_next (h : s.next i = some (b, j)) : b ∈ s := by
  obtain ⟨m, -, -, hm, -⟩ := slot_of_next h
  exact mem_iff.mpr ⟨m, hm⟩

theorem le_length_of_next (h : s.next i = some (b, j)) : j ≤ s.slots.length := by
  obtain ⟨m, rfl, -, hm, -⟩ := slot_of_next h
  exact (List.getElem?_eq_some_iff.mp hm).1

/-- What the iterator goes to has not been met. -/
theorem not_reached_of_next (h : s.next i = some (b, j)) : ¬ s.Reached i b := by
  obtain ⟨m, -, him, hm, -⟩ := slot_of_next h
  rintro ⟨k, hk, hslot⟩
  have := s.inj k m b hslot hm
  omega

/-- One more element is met. -/
theorem reached_next (h : s.next i = some (b, j)) : s.Reached j a ↔ s.Reached i a ∨ a = b := by
  obtain ⟨m, rfl, him, hm, hbetween⟩ := slot_of_next h
  constructor
  · rintro ⟨k, hk, hslot⟩
    rcases Nat.lt_or_ge k i with hlt | hge
    · exact .inl ⟨k, hlt, hslot⟩
    · rcases Nat.lt_or_eq_of_le (Nat.le_of_lt_succ hk) with hlt | rfl
      · rw [hbetween k hge hlt] at hslot
        cases hslot
      · rw [hm] at hslot
        cases hslot
        exact .inr rfl
  · rintro (⟨k, hk, hslot⟩ | rfl)
    · exact ⟨k, by omega, hslot⟩
    · exact ⟨m, Nat.lt_succ_self m, hm⟩

/-- At the end all elements have been met. -/
theorem reached_of_next_eq_none (h : s.next i = none) : s.Reached i a ↔ a ∈ s := by
  refine ⟨Reached.mem, fun hmem => ?_⟩
  obtain ⟨k, hk⟩ := mem_iff.mp hmem
  rcases Nat.lt_or_ge k i with hlt | hge
  · exact ⟨k, hlt, hk⟩
  · refine absurd ?_ (nextIn_eq_none h (k - i) a)
    rwa [List.getElem?_drop, Nat.add_sub_cancel' hge]

/-! ## Adding and deleting -/

variable [DecidableEq α]

instance : Decidable (a ∈ s) := inferInstanceAs (Decidable (some a ∈ s.slots))

instance : Decidable (s.Reached i a) := inferInstanceAs (Decidable (∃ k, k < i ∧ _))

/-- `add(value)`. -/
def add (s : LiveSet α) (a : α) : LiveSet α :=
  if h : a ∈ s then s
  else {
    slots := s.slots ++ [some a]
    inj := by
      have hnew : ∀ k, s.slots[k]? ≠ some (some a) := fun k hk => h (mem_iff.mpr ⟨k, hk⟩)
      intro i j b hi hj
      simp only [List.getElem?_append, List.getElem?_singleton] at hi hj
      split_ifs at hi hj with hil hjl hjl'
      · exact s.inj i j b hi hj
      · cases hj
        exact absurd hi (hnew i)
      · cases hi
        exact absurd hj (hnew j)
      · omega }

/-- `delete(value)`. -/
def delete (s : LiveSet α) (a : α) : LiveSet α where
  slots := s.slots.map fun x => if x = some a then none else x
  inj := by
    intro i j b hi hj
    rw [List.getElem?_map, Option.map_eq_some_iff] at hi hj
    obtain ⟨x, hx, hxb⟩ := hi
    obtain ⟨y, hy, hyb⟩ := hj
    split_ifs at hxb hyb
    subst hxb hyb
    exact s.inj i j b hx hy

@[simp] theorem delete_empty (b : α) : (empty : LiveSet α).delete b = empty := LiveSet.ext rfl

theorem add_of_mem (h : b ∈ s) : s.add b = s := dif_pos h

theorem slots_add (h : b ∉ s) : (s.add b).slots = s.slots ++ [some b] :=
  congrArg slots (dif_neg h)

/-- The set has what it had and what was added. -/
theorem mem_add : a ∈ s.add b ↔ a ∈ s ∨ a = b := by
  by_cases hb : b ∈ s
  · rw [add_of_mem hb]
    refine ⟨.inl, ?_⟩
    rintro (ha | rfl)
    · exact ha
    · exact hb
  · change some a ∈ (s.add b).slots ↔ some a ∈ s.slots ∨ a = b
    rw [slots_add hb, List.mem_append, List.mem_singleton, Option.some.injEq]

/-- Adding takes no slot away. -/
theorem length_le_add (s : LiveSet α) (b : α) : s.slots.length ≤ (s.add b).slots.length := by
  by_cases hb : b ∈ s
  · exact Nat.le_of_eq (congrArg (fun s => s.slots.length) (add_of_mem hb).symm)
  · rw [slots_add hb, List.length_append]
    exact Nat.le_add_right _ _

@[simp] theorem length_delete (s : LiveSet α) (b : α) :
    (s.delete b).slots.length = s.slots.length :=
  List.length_map ..

/-- Only the slot of the deleted element is emptied. -/
theorem slot_delete {k : ℕ} : (s.delete b).slots[k]? = some (some a) ↔
    s.slots[k]? = some (some a) ∧ a ≠ b := by
  simp only [delete, List.getElem?_map, Option.map_eq_some_iff]
  constructor
  · rintro ⟨x, hx, hxa⟩
    split_ifs at hxa with hxb
    subst hxa
    exact ⟨hx, fun hab => hxb (congrArg some hab)⟩
  · rintro ⟨hk, hab⟩
    exact ⟨some a, hk, if_neg fun h => hab (Option.some.inj h)⟩

theorem mem_delete : a ∈ s.delete b ↔ a ∈ s ∧ a ≠ b := by
  simp only [mem_iff, slot_delete, exists_and_right]

/-- An element that is added has not been met. -/
theorem reached_add (hi : i ≤ s.slots.length) : (s.add b).Reached i a ↔ s.Reached i a := by
  by_cases hb : b ∈ s
  · rw [add_of_mem hb]
  · refine exists_congr fun k => and_congr_right fun hk => ?_
    rw [slots_add hb, List.getElem?_append_left (Nat.lt_of_lt_of_le hk hi)]

theorem reached_delete : (s.delete b).Reached i a ↔ s.Reached i a ∧ a ≠ b := by
  simp only [Reached, slot_delete, ← and_assoc, exists_and_right]

end LiveSet
