import Mathlib.Algebra.Order.Group.Defs
import Mathlib.Data.List.Basic
import Mathlib.Data.List.Induction
import Mathlib.Data.List.TakeWhile
import Mathlib.Order.Basic

/-!
# Fixed windows and sliding windows

Times in order, split into fixed windows of one length: a window starts at the first time that is in
none. If the first `max` times of each window are picked, no window of that length, wherever it
starts, has more than `max` of them exactly if around each start of a window the picked times on
both sides are far enough apart (`countFrom_le_iff`): an interval of the length of a window meets
two windows at most.
-/

namespace Windows

section

variable {T : Type*} [LinearOrder T] {t : T} {ts : List T}

theorem lt_of_mem_takeWhile {x : T} (hx : x ∈ ts.takeWhile (· < t)) : x < t := by
  have h := List.mem_takeWhile_imp hx
  exact of_decide_eq_true h

/-- What is left of a sorted list is not below the bound. -/
theorem le_of_mem_dropWhile (hsorted : ts.Pairwise (· ≤ ·)) {y : T}
    (hy : y ∈ ts.dropWhile (· < t)) :
    t ≤ y := by
  induction ts with
  | nil => cases hy
  | cons u us ih =>
    rw [List.pairwise_cons] at hsorted
    rw [List.dropWhile_cons] at hy
    split at hy
    · exact ih hsorted.2 hy
    · next hu =>
      have htu : t ≤ u := not_lt.mp fun h => hu (decide_eq_true h)
      rcases List.mem_cons.mp hy with rfl | hy
      · exact htu
      · exact htu.trans (hsorted.1 y hy)

end

variable {T : Type*} [AddCommGroup T] [LinearOrder T]

/-- The windows, each with its times. -/
def split (len : T) : List T → List (List T)
  | [] => []
  | t :: ts => (t :: ts.takeWhile (· < t + len)) :: split len (ts.dropWhile (· < t + len))
termination_by ts => ts.length
decreasing_by exact Nat.lt_succ_of_le (List.dropWhile_sublist _).length_le

/-- Of the first `max` times of a window and the first `max` of the next, two that have at least
`max - 1` others between them are at least `len` apart. -/
def Spaced (len : T) (max : ℕ) (g g' : List T) : Prop :=
  ∀ i j x y, (g.take max)[i]? = some x → (g'.take max)[j]? = some y →
    max ≤ (g.take max).length - i + j → x + len ≤ y

/-- Windows one after the other. -/
structure Separated (len : T) (gs : List (List T)) : Prop where
  sorted : ∀ g ∈ gs, g.Pairwise (· ≤ ·)
  within : 0 < len → ∀ g ∈ gs, ∀ x ∈ g, ∀ y ∈ g, y < x + len
  before : gs.Pairwise fun g g' =>
    (∀ x ∈ g, ∀ y ∈ g', x ≤ y) ∧ ∃ x ∈ g, ∀ y ∈ g', x + len ≤ y

variable {len : T} {max : ℕ} {g g' : List T} {gs : List (List T)}

/-- The windows have the times of the list and no others. -/
theorem mem_of_mem_split {ts : List T} (hg : g ∈ split len ts) {x : T} (hx : x ∈ g) : x ∈ ts := by
  induction ts using split.induct len with
  | case1 =>
    rw [split] at hg
    cases hg
  | case2 t ts ih =>
    rw [split, List.mem_cons] at hg
    rcases hg with rfl | hg
    · rcases List.mem_cons.mp hx with rfl | hx
      · exact List.mem_cons_self
      · exact List.mem_cons_of_mem _ ((List.takeWhile_sublist _).subset hx)
    · exact List.mem_cons_of_mem _ ((List.dropWhile_sublist _).subset (ih hg))

/-! ## Counting in an interval -/

/-- The times of the interval of length `len` from `t` on. -/
def countFrom (len t : T) (ts : List T) : ℕ := ts.countP fun x => t ≤ x ∧ x < t + len

theorem countFrom_append (t : T) (xs ys : List T) :
    countFrom len t (xs ++ ys) = countFrom len t xs + countFrom len t ys :=
  List.countP_append

theorem countFrom_eq_length {t : T} {xs : List T} (h : ∀ x ∈ xs, t ≤ x ∧ x < t + len) :
    countFrom len t xs = xs.length :=
  List.countP_eq_length.mpr fun x hx => decide_eq_true (h x hx)

theorem countFrom_eq_zero {t : T} {xs : List T} (h : ∀ x ∈ xs, ¬ (t ≤ x ∧ x < t + len)) :
    countFrom len t xs = 0 :=
  List.countP_eq_zero.mpr fun x hx hp => h x hx (of_decide_eq_true hp)

theorem countFrom_le_length (len t : T) (xs : List T) : countFrom len t xs ≤ xs.length :=
  List.countP_le_length

theorem countFrom_le_of_sublist {t : T} {xs ys : List T} (h : xs.Sublist ys) :
    countFrom len t xs ≤ countFrom len t ys :=
  h.countP_le

theorem countFrom_take_add_drop (len t : T) (n : ℕ) (xs : List T) :
    countFrom len t (xs.take n) + countFrom len t (xs.drop n) = countFrom len t xs := by
  rw [← countFrom_append, List.take_append_drop]

/-- Up to the first time in the interval none counts. -/
theorem exists_countFrom_le_drop {t : T} {xs : List T} (h : countFrom len t xs ≠ 0) :
    ∃ i x, xs[i]? = some x ∧ t ≤ x ∧ countFrom len t xs ≤ xs.length - i := by
  induction xs with
  | nil => exact absurd rfl h
  | cons x xs ih =>
    by_cases hx : t ≤ x
    · exact ⟨0, x, rfl, hx, countFrom_le_length len t _⟩
    · have hcons : countFrom len t (x :: xs) = countFrom len t xs :=
        List.countP_cons_of_neg fun hp => hx (of_decide_eq_true hp).1
      rw [hcons] at h ⊢
      obtain ⟨i, y, hy, hty, hle⟩ := ih h
      refine ⟨i + 1, y, hy, hty, ?_⟩
      rw [List.length_cons]
      omega

/-- Behind the last time in the interval none counts. -/
theorem exists_countFrom_le_take {t : T} {ys : List T} (h : countFrom len t ys ≠ 0) :
    ∃ j y, ys[j]? = some y ∧ y < t + len ∧ countFrom len t ys ≤ j + 1 := by
  induction ys using List.reverseRecOn with
  | nil => exact absurd rfl h
  | append_singleton ys y ih =>
    by_cases hy : y < t + len
    · refine ⟨ys.length, y, List.getElem?_concat_length, hy, ?_⟩
      exact (countFrom_le_length len t _).trans_eq (by rw [List.length_append, List.length_singleton])
    · have hlast : countFrom len t [y] = 0 := countFrom_eq_zero fun x hx hp => by
        rw [List.mem_singleton] at hx
        exact hy (hx ▸ hp.2)
      rw [countFrom_append, hlast, Nat.add_zero] at h ⊢
      obtain ⟨j, z, hz, hlt, hle⟩ := ih h
      exact ⟨j, z, by rw [List.getElem?_append_left (List.getElem?_eq_some_iff.mp hz).1, hz], hlt,
        hle⟩

/-! ## Both together -/

variable [IsOrderedAddMonoid T]

/-- The windows that a sorted list is split into come one after the other, each within its
length. -/
theorem separated_split {ts : List T} (hsorted : ts.Pairwise (· ≤ ·)) :
    Separated len (split len ts) := by
  induction ts using split.induct len with
  | case1 => exact ⟨by simp [split], by simp [split], by simp [split]⟩
  | case2 t ts ih =>
    rw [List.pairwise_cons] at hsorted
    obtain ⟨hle, hts⟩ := hsorted
    obtain ⟨ihsorted, ihwithin, ihbefore⟩ := ih (hts.sublist (List.dropWhile_sublist _))
    have hfirst : ∀ x ∈ t :: ts.takeWhile (· < t + len), t ≤ x := by
      intro x hx
      rcases List.mem_cons.mp hx with rfl | hx
      · exact le_rfl
      · exact hle x ((List.takeWhile_sublist _).subset hx)
    have hlast : 0 < len → ∀ x ∈ t :: ts.takeWhile (· < t + len), x < t + len := by
      intro hlen x hx
      rcases List.mem_cons.mp hx with rfl | hx
      · exact lt_add_of_pos_right x hlen
      · exact lt_of_mem_takeWhile hx
    rw [split]
    refine ⟨fun g hg => ?_, fun hlen g hg => ?_,
      List.pairwise_cons.mpr ⟨fun g' hg' => ?_, ihbefore⟩⟩
    · rcases List.mem_cons.mp hg with rfl | hg
      · exact List.pairwise_cons.mpr ⟨fun x hx => hfirst x (List.mem_cons_of_mem _ hx),
          hts.sublist (List.takeWhile_sublist _)⟩
      · exact ihsorted g hg
    · rcases List.mem_cons.mp hg with rfl | hg
      · intro x hx y hy
        exact (hlast hlen y hy).trans_le (add_le_add_left (hfirst x hx) len)
      · exact ihwithin hlen g hg
    · have hbehind : ∀ y ∈ g', t + len ≤ y := fun y hy =>
        le_of_mem_dropWhile hts (mem_of_mem_split hg' hy)
      refine ⟨fun x hx y hy => ?_, t, List.mem_cons_self, hbehind⟩
      have hty : y ∈ ts := (List.dropWhile_sublist _).subset (mem_of_mem_split hg' hy)
      rcases List.mem_cons.mp hx with rfl | hx
      · exact hle y hty
      · exact ((lt_of_mem_takeWhile hx).trans_le (hbehind y hy)).le

/-- Two windows that are spaced have at most `max` picked times in an interval. -/
theorem Spaced.countFrom_le (h : Spaced len max g g') (t : T) :
    countFrom len t (g.take max) + countFrom len t (g'.take max) ≤ max := by
  have hlen := List.length_take_le max g
  have hlen' := List.length_take_le max g'
  have hle := countFrom_le_length len t (g.take max)
  have hle' := countFrom_le_length len t (g'.take max)
  by_cases hzero : countFrom len t (g.take max) = 0
  · omega
  by_cases hzero' : countFrom len t (g'.take max) = 0
  · omega
  obtain ⟨i, x, hx, htx, hi⟩ := exists_countFrom_le_drop hzero
  obtain ⟨j, y, hy, hyt, hj⟩ := exists_countFrom_le_take hzero'
  by_contra hmany
  have hapart : x + len ≤ y := h i j x y hx hy (by omega)
  exact absurd (hyt.trans_le (add_le_add_left htx len)) (not_lt.mpr hapart)

/-- If no interval has more than `max` of the picked times, the windows are spaced. -/
theorem Separated.spaced (h : Separated len [g, g'])
    (hcount : ∀ t, countFrom len t (g.take max) + countFrom len t (g'.take max) ≤ max) :
    Spaced len max g g' := by
  intro i j x y hx hy hmany
  by_contra hnear
  have hlt : y < x + len := not_le.mp hnear
  obtain ⟨hi, hxi⟩ := List.getElem?_eq_some_iff.mp hx
  obtain ⟨hj, hyj⟩ := List.getElem?_eq_some_iff.mp hy
  have hg : ∀ z ∈ g.take max, z ∈ g := fun z hz => (List.take_sublist max g).subset hz
  have hg' : ∀ z ∈ g'.take max, z ∈ g' := fun z hz => (List.take_sublist max g').subset hz
  have hxg : x ∈ g := hg x (List.mem_of_getElem? hx)
  have hbefore := ((List.pairwise_cons.mp h.before).1 g' List.mem_cons_self).1
  have hlen : 0 < len :=
    pos_of_lt_add_right ((hbefore x hxg y (hg' y (List.mem_of_getElem? hy))).trans_lt hlt)
  have hsorted := (h.sorted g List.mem_cons_self).sublist (List.take_sublist max g)
  have hsorted' := (h.sorted g' (List.mem_cons_of_mem _ List.mem_cons_self)).sublist
    (List.take_sublist max g')
  -- the interval that starts at `x` has the times from `x` to `y`
  have hfrom : ∀ z ∈ (g.take max).drop i, x ≤ z ∧ z < x + len := by
    intro z hz
    refine ⟨?_, h.within hlen g List.mem_cons_self x hxg z (hg z ((List.drop_sublist i _).subset hz))⟩
    rw [List.drop_eq_getElem_cons hi, hxi] at hz
    rcases List.mem_cons.mp hz with rfl | hz
    · exact le_rfl
    · have hdrop := hsorted.sublist (List.drop_sublist i _)
      rw [List.drop_eq_getElem_cons hi, hxi] at hdrop
      exact (List.pairwise_cons.mp hdrop).1 z hz
  have hto : ∀ z ∈ (g'.take max).take (j + 1), x ≤ z ∧ z < x + len := by
    intro z hz
    refine ⟨hbefore x hxg z (hg' z ((List.take_sublist _ _).subset hz)), ?_⟩
    have htake := hsorted'.sublist (List.take_sublist (j + 1) _)
    rw [List.take_succ_eq_append_getElem hj, hyj] at hz htake
    rcases List.mem_append.mp hz with hz | hz
    · exact ((List.pairwise_append.mp htake).2.2 z hz y List.mem_cons_self).trans_lt hlt
    · exact (List.mem_singleton.mp hz) ▸ hlt
  have hleft := countFrom_take_add_drop len x i (g.take max)
  have hright := countFrom_take_add_drop len x (j + 1) (g'.take max)
  rw [countFrom_eq_length hfrom, List.length_drop] at hleft
  rw [countFrom_eq_length hto, List.length_take] at hright
  have hboth := hcount x
  omega

/-- Sliding windows have at most `max` of the picked times exactly if the fixed ones are spaced. -/
theorem Separated.countFrom_le_iff (h : Separated len gs) :
    (∀ t, countFrom len t (gs.flatMap (·.take max)) ≤ max) ↔ gs.IsChain (Spaced len max) := by
  induction gs with
  | nil => exact ⟨fun _ => .nil, fun _ _ => Nat.zero_le _⟩
  | cons g gs ih =>
    have htail : Separated len gs :=
      ⟨fun g' hg' => h.sorted g' (List.mem_cons_of_mem _ hg'),
        fun hlen g' hg' => h.within hlen g' (List.mem_cons_of_mem _ hg'),
        (List.pairwise_cons.mp h.before).2⟩
    cases gs with
    | nil =>
      refine ⟨fun _ => .singleton g, fun _ t => ?_⟩
      rw [List.flatMap_cons, List.flatMap_nil, List.append_nil]
      exact (countFrom_le_length len t _).trans (List.length_take_le max g)
    | cons g' gs =>
      rw [List.isChain_cons_cons, ← ih htail]
      refine ⟨fun hcount => ⟨?_, fun t => ?_⟩, fun ⟨hspaced, hrest⟩ t => ?_⟩
      · have hpair : Separated len [g, g'] :=
          ⟨fun k hk => h.sorted k (by grind), fun hlen k hk => h.within hlen k (by grind),
            h.before.sublist (by simp)⟩
        refine hpair.spaced fun t => le_trans ?_ (hcount t)
        rw [← countFrom_append, List.flatMap_cons, List.flatMap_cons, ← List.append_assoc]
        exact countFrom_le_of_sublist (List.sublist_append_left _ _)
      · refine le_trans ?_ (hcount t)
        rw [List.flatMap_cons]
        exact countFrom_le_of_sublist (List.sublist_append_right _ _)
      · rw [List.flatMap_cons, countFrom_append]
        by_cases hzero : countFrom len t (g.take max) = 0
        · rw [hzero, Nat.zero_add]
          exact hrest t
        -- the interval meets the first window, so it ends before the third
        obtain ⟨i, x, hx, htx, -⟩ := exists_countFrom_le_drop hzero
        have hxg : x ∈ g := (List.take_sublist max g).subset (List.mem_of_getElem? hx)
        have hfar : countFrom len t (gs.flatMap (·.take max)) = 0 := by
          refine countFrom_eq_zero fun z hz hp => ?_
          obtain ⟨k, hk, hz⟩ := List.mem_flatMap.mp hz
          have hzk : z ∈ k := (List.take_sublist max k).subset hz
          obtain ⟨-, y, hy, hyz⟩ := (List.pairwise_cons.mp htail.before).1 k hk
          have hxy := ((List.pairwise_cons.mp h.before).1 g' List.mem_cons_self).1 x hxg y hy
          have hle : t + len ≤ z := (add_le_add_left (htx.trans hxy) len).trans (hyz z hzk)
          exact absurd hp.2 (not_lt.mpr hle)
        rw [List.flatMap_cons, countFrom_append, hfar, Nat.add_zero]
        exact hspaced.countFrom_le t

end Windows
