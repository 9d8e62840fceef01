import Mathlib.Order.MinMax
import Mathlib.Data.List.Induction

/-!
# The newest of a list of stamped items

`put` is the last-writer-wins rule: the incoming item replaces the current one unless it is older,
so on equal stamps the later arrival wins. `newest` runs the rule over a list. An item that no other
equals or exceeds is what the rule leaves, in whatever order the items come (`newest_eq_some`).
-/

namespace Newest

variable {α τ : Type*} [LinearOrder τ] (stamp : α → τ)

/-- Last writer wins: keep `cur` only if it is newer than `w`. -/
def put (cur w : α) : α := if stamp cur ≤ stamp w then w else cur

/-- The item that the rule leaves after a list of items, in order. -/
def newest : List α → Option α
  | [] => none
  | w :: ws => some (ws.foldl (put stamp) w)

variable {stamp}

/-- What is kept is one of the two. -/
theorem put_eq_or (cur w : α) : put stamp cur w = cur ∨ put stamp cur w = w := by
  unfold put
  split
  · exact Or.inr rfl
  · exact Or.inl rfl

/-- The stamp that is kept is the larger one. -/
theorem stamp_put (cur w : α) : stamp (put stamp cur w) = max (stamp cur) (stamp w) := by
  unfold put
  split
  · next h => rw [max_eq_right h]
  · next h => rw [max_eq_left (le_of_not_ge h)]

theorem put_self (w : α) : put stamp w w = w := if_pos le_rfl

/-- An item that arrives twice in a row counts once. -/
theorem put_put (cur w : α) : put stamp (put stamp cur w) w = put stamp cur w := by
  by_cases h : stamp cur ≤ stamp w
  · rw [show put stamp cur w = w from if_pos h, put_self]
  · rw [show put stamp cur w = cur from if_neg h]
    exact if_neg h

theorem newest_eq_none {ws : List α} : newest stamp ws = none ↔ ws = [] := by
  cases ws <;> simp [newest]

/-- One more item is one more use of the rule. -/
theorem newest_concat (ws : List α) (w : α) :
    newest stamp (ws ++ [w]) = some ((newest stamp ws).elim w (put stamp · w)) := by
  cases ws with
  | nil => rfl
  | cons x ws => simp [newest, List.foldl_append]

/-- The newest item is one of the list, and none is newer. -/
theorem newest_spec {ws : List α} {x : α} (h : newest stamp ws = some x) :
    x ∈ ws ∧ ∀ y ∈ ws, stamp y ≤ stamp x := by
  -- from the right: the last item meets what the rule left of the others
  induction ws using List.reverseRecOn generalizing x with
  | nil => cases h
  | append_singleton ws w ih =>
    rw [newest_concat, Option.some.injEq] at h
    subst h
    cases hn : newest stamp ws with
    | none =>
      rw [newest_eq_none] at hn
      subst hn
      simp
    | some c =>
      obtain ⟨hmem, hle⟩ := ih hn
      constructor
      · rcases (put_eq_or c w : put stamp c w = c ∨ put stamp c w = w) with h | h
        · simp [h, hmem]
        · simp [h]
      · intro y hy
        have hput : stamp (put stamp c w) = max (stamp c) (stamp w) := stamp_put c w
        rw [Option.elim_some, hput]
        rcases List.mem_append.mp hy with hy | hy
        · exact le_max_of_le_left (hle y hy)
        · rw [List.mem_singleton.mp hy]
          exact le_max_right _ _

/-- An item that no other equals or exceeds in stamp is the newest. -/
theorem newest_eq_some {ws : List α} {x : α} (hx : x ∈ ws) (hmax : ∀ y ∈ ws, stamp y ≤ stamp x)
    (huniq : ∀ y ∈ ws, stamp y = stamp x → y = x) : newest stamp ws = some x := by
  cases hn : newest stamp ws with
  | none => rw [newest_eq_none.mp hn] at hx; cases hx
  | some y =>
    obtain ⟨hy, hle⟩ := newest_spec hn
    rw [huniq y hy (le_antisymm (hmax y hy) (hle x hx))]

end Newest
