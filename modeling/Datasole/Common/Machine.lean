import Mathlib.Data.List.Basic
import Mathlib.Data.List.Induction
import Mathlib.Data.Option.Basic

/-!
# Machines that take one enabled action at a time

A machine is a partial step function `step : σ → α → Option σ`: an action that is not enabled in a
state has no successor there. A run is a list of actions, and interleaving is the freedom in that
list, so a fact about every run is a fact about every schedule.

`exec_invariant` is the induction rule for facts about states, `exec_history` the one for facts that
relate a state to the actions that led to it, and `exists_exec_filterMap` the one for a machine that
sees a part of the actions of another. The `Guarded` versions add a condition that every step of the
run meets in the state it is taken in. `since_concat` reads the past of a run one action at a time.
-/

namespace Machine

variable {σ α : Type*}

/-- The state reached from `s` by the actions `as`, in order; `none` if one is not enabled. -/
def exec (step : σ → α → Option σ) : σ → List α → Option σ
  | s, [] => some s
  | s, a :: as => (step s a).bind (exec step · as)

/-- Every action of `as` that is taken from `s` meets `guard` in the state it is taken in. -/
def Guarded (step : σ → α → Option σ) (guard : σ → α → Prop) : σ → List α → Prop
  | _, [] => True
  | s, a :: as => guard s a ∧ ∀ t ∈ step s a, Guarded step guard t as

variable {step : σ → α → Option σ} {guard : σ → α → Prop}

instance Guarded.decidable [∀ s a, Decidable (guard s a)] :
    ∀ (as : List α) (s : σ), Decidable (Guarded step guard s as)
  | [], _ => .isTrue trivial
  | a :: as, s =>
    have : Decidable (∀ t ∈ step s a, Guarded step guard t as) :=
      match h : step s a with
      | none => .isTrue (by simp)
      | some t => @decidable_of_iff _ (Guarded step guard t as) (by simp)
          (Guarded.decidable as t)
    inferInstanceAs (Decidable (guard s a ∧ ∀ t ∈ step s a, Guarded step guard t as))

@[simp] theorem exec_nil (s : σ) : exec step s [] = some s := rfl

theorem exec_cons (s : σ) (a : α) (as : List α) :
    exec step s (a :: as) = (step s a).bind (exec step · as) := rfl

/-- A run of `a :: as` is a step followed by a run of `as`. -/
theorem exec_cons_eq_some {s t : σ} {a : α} {as : List α} :
    exec step s (a :: as) = some t ↔ ∃ u, step s a = some u ∧ exec step u as = some t := by
  rw [exec_cons, Option.bind_eq_some_iff]

/-- A run of `as ++ bs` is one of `as` followed by one of `bs`. -/
theorem exec_append (s : σ) (as bs : List α) :
    exec step s (as ++ bs) = (exec step s as).bind (exec step · bs) := by
  induction as generalizing s with
  | nil => rfl
  | cons a as ih =>
    rw [List.cons_append, exec_cons, exec_cons, Option.bind_assoc]
    exact congrArg _ (funext fun u => ih u)

/-- A run of `as ++ bs` passes through a state in which `as` has been taken. -/
theorem exec_append_eq_some {s t : σ} {as bs : List α} :
    exec step s (as ++ bs) = some t ↔ ∃ u, exec step s as = some u ∧ exec step u bs = some t := by
  rw [exec_append, Option.bind_eq_some_iff]

/-- A run of `as ++ [a]` is a run of `as` followed by a step. -/
theorem exec_concat_eq_some {s t : σ} {as : List α} {a : α} :
    exec step s (as ++ [a]) = some t ↔ ∃ u, exec step s as = some u ∧ step u a = some t := by
  simp [exec_append_eq_some, exec_cons_eq_some]

/-- The unconditional guard is met by every run. -/
theorem guarded_of_forall (h : ∀ s a, guard s a) (s : σ) (as : List α) :
    Guarded step guard s as := by
  induction as generalizing s with
  | nil => trivial
  | cons a as ih => exact ⟨h s a, fun t _ => ih t⟩

/-- A guard may be replaced by one that it implies for the actions of the run. -/
theorem Guarded.imp {guard' : σ → α → Prop} {s : σ} {as : List α}
    (h : Guarded step guard s as) (himp : ∀ t, ∀ a ∈ as, guard t a → guard' t a) :
    Guarded step guard' s as := by
  induction as generalizing s with
  | nil => trivial
  | cons a as ih =>
    refine ⟨himp s a List.mem_cons_self h.1, fun t ht => ih (h.2 t ht) ?_⟩
    exact fun u b hb => himp u b (List.mem_cons_of_mem _ hb)

/-- A condition on the actions of the run is met all along. -/
theorem guarded_of_mem {P : α → Prop} {as : List α} (h : ∀ a ∈ as, P a) (s : σ) :
    Guarded step (fun _ a => P a) s as :=
  (guarded_of_forall (fun _ _ => trivial) s as).imp fun _ a ha (_ : True) => h a ha

/-- Two guards met along a run are met together. -/
theorem Guarded.and {guard' : σ → α → Prop} {s : σ} {as : List α} (h : Guarded step guard s as)
    (h' : Guarded step guard' s as) : Guarded step (fun s a => guard s a ∧ guard' s a) s as := by
  induction as generalizing s with
  | nil => trivial
  | cons a as ih => exact ⟨⟨h.1, h'.1⟩, fun t ht => ih (h.2 t ht) (h'.2 t ht)⟩

/-- A guard met along `as ++ bs` is met along `as` and, from the state reached, along `bs`. -/
theorem Guarded.append {s t : σ} {as bs : List α} (h : Guarded step guard s (as ++ bs))
    (hrun : exec step s as = some t) :
    Guarded step guard s as ∧ Guarded step guard t bs := by
  induction as generalizing s with
  | nil => cases hrun; exact ⟨trivial, h⟩
  | cons a as ih =>
    obtain ⟨u, hu, hrun⟩ := exec_cons_eq_some.mp hrun
    obtain ⟨ha, has⟩ := h
    refine ⟨⟨ha, fun v hv => ?_⟩, (ih (has u hu) hrun).2⟩
    obtain rfl : u = v := Option.some.inj (hu.symm.trans hv)
    exact (ih (has u hu) hrun).1

/-- A run of `as ++ [a]` meets the guard if the run of `as` does and `a` meets it at the end. -/
theorem guarded_concat {s t : σ} {as : List α} {a : α} (hrun : exec step s as = some t) :
    Guarded step guard s (as ++ [a]) ↔ Guarded step guard s as ∧ guard t a := by
  refine ⟨fun h => ⟨(h.append hrun).1, (h.append hrun).2.1⟩, fun ⟨h, ha⟩ => ?_⟩
  induction as generalizing s with
  | nil =>
    cases hrun
    exact ⟨ha, fun _ _ => trivial⟩
  | cons b as ih =>
    obtain ⟨u, hu, hrun⟩ := exec_cons_eq_some.mp hrun
    refine ⟨h.1, fun v hv => ?_⟩
    obtain rfl : u = v := Option.some.inj (hu.symm.trans hv)
    exact ih hrun ⟨h.2 u hu, ha⟩ (h.2 u hu)

/-- Invariant rule: what every step that meets the guard preserves holds at the end of every
guarded run. -/
theorem exec_invariant_guarded {I : σ → Prop}
    (hstep : ∀ s a t, I s → guard s a → step s a = some t → I t)
    {s t : σ} {as : List α} (hs : I s) (hg : Guarded step guard s as)
    (hrun : exec step s as = some t) : I t := by
  induction as generalizing s with
  | nil => cases hrun; exact hs
  | cons a as ih =>
    obtain ⟨u, hu, hrun⟩ := exec_cons_eq_some.mp hrun
    exact ih (hstep s a u hs hg.1 hu) (hg.2 u hu) hrun

/-- Invariant rule: what every step preserves holds at the end of every run. -/
theorem exec_invariant {I : σ → Prop} (hstep : ∀ s a t, I s → step s a = some t → I t)
    {s t : σ} {as : List α} (hs : I s) (hrun : exec step s as = some t) : I t := by
  have hg : Guarded step (fun _ _ => True) s as := guarded_of_forall (fun _ _ => trivial) s as
  exact exec_invariant_guarded (fun s a t hI _ => hstep s a t hI) hs hg hrun

/-- History rule: a relation between the actions taken so far and the state, kept by every step,
holds of every run. -/
theorem exec_history {I : List α → σ → Prop} {s₀ : σ}
    (hstep : ∀ as s a t, I as s → step s a = some t → I (as ++ [a]) t)
    (hs : I [] s₀) {as : List α} {t : σ} (hrun : exec step s₀ as = some t) : I as t := by
  induction as using List.reverseRecOn generalizing t with
  | nil => cases hrun; exact hs
  | append_singleton as a ih =>
    obtain ⟨u, hu, ha⟩ := exec_concat_eq_some.mp hrun
    exact hstep as u a t (ih hu) ha

/-- A guard met along a run is met wherever the run takes an action. -/
theorem guarded_iff_forall {s : σ} {as : List α} :
    Guarded step guard s as ↔
      ∀ bs a cs t, as = bs ++ a :: cs → exec step s bs = some t → guard t a := by
  refine ⟨fun h bs a cs t has ht => ?_, fun h => ?_⟩
  · subst has
    exact (h.append ht).2.1
  · induction as generalizing s with
    | nil => trivial
    | cons a as ih =>
      refine ⟨h [] a as s rfl rfl, fun t ht => ih fun bs b cs u has hu => ?_⟩
      exact h (a :: bs) b cs u (by rw [has]; rfl) (exec_cons_eq_some.mpr ⟨t, ht, hu⟩)

/-- Exact invariant rule: where a guard is met exactly by the steps that preserve `I`, it is met
along a run exactly if `I` holds all along. -/
theorem forall_exec_iff_guarded {I : σ → Prop}
    (hstep : ∀ s a, I s → (guard s a ↔ ∀ t ∈ step s a, I t)) {s : σ} {as : List α} (hs : I s) :
    (∀ bs cs t, as = bs ++ cs → exec step s bs = some t → I t) ↔ Guarded step guard s as := by
  refine ⟨fun h => ?_, fun h bs cs t has ht => ?_⟩
  · refine guarded_iff_forall.mpr fun bs a cs t has ht => ?_
    refine (hstep t a (h bs (a :: cs) t has ht)).mpr fun u hu => ?_
    refine h (bs ++ [a]) cs u (by rw [has, List.append_assoc]; rfl) ?_
    exact exec_concat_eq_some.mpr ⟨t, ht, hu⟩
  · subst has
    exact exec_invariant_guarded (fun s a t hI ha ht => (hstep s a hI).mp ha t ht) hs
      (h.append ht).1 ht

/-- Exact rule for a run of actions that meet an assumption: where a guard keeps an invariant that
has `P` as a consequence, and every step into a state with `P` meets the guard, the guard is met
along the run exactly if `P` holds all along. -/
theorem forall_exec_iff_guarded_of_assume {I P : σ → Prop} {assume : α → Prop}
    (hP : ∀ s, I s → P s)
    (hkeep : ∀ s a t, assume a → I s → guard s a → step s a = some t → I t)
    (hneed : ∀ s a t, assume a → I s → step s a = some t → P t → guard s a)
    {s t : σ} {as : List α} (has : ∀ a ∈ as, assume a) (hs : I s) (hrun : exec step s as = some t) :
    (∀ bs cs u, as = bs ++ cs → exec step s bs = some u → P u) ↔ Guarded step guard s as := by
  refine ⟨fun h => ?_, fun h bs cs u heq hu => ?_⟩
  · induction as generalizing s with
    | nil => trivial
    | cons a as ih =>
      obtain ⟨u, hu, hrun⟩ := exec_cons_eq_some.mp hrun
      have hassume := has a List.mem_cons_self
      have ha : guard s a :=
        hneed s a u hassume hs hu (h [a] as u rfl (exec_cons_eq_some.mpr ⟨u, hu, rfl⟩))
      refine ⟨ha, fun v hv => ?_⟩
      obtain rfl : u = v := Option.some.inj (hu.symm.trans hv)
      refine ih (fun b hb => has b (List.mem_cons_of_mem _ hb)) (hkeep s a u hassume hs ha hu) hrun
        fun bs cs w heq hw => ?_
      exact h (a :: bs) cs w (by rw [heq]; rfl) (exec_cons_eq_some.mpr ⟨u, hu, hw⟩)
  · subst heq
    have hassume : Guarded step (fun _ a => assume a) s bs :=
      guarded_of_mem (fun a ha => has a (List.mem_append_left cs ha)) s
    exact hP u (exec_invariant_guarded (fun s a t hI ha ht => hkeep s a t ha.1 hI ha.2 ht) hs
      (hassume.and (h.append hu).1) hu)

/-- The same without an assumption. -/
theorem forall_exec_iff_guarded_of_exec {I P : σ → Prop} (hP : ∀ s, I s → P s)
    (hkeep : ∀ s a t, I s → guard s a → step s a = some t → I t)
    (hneed : ∀ s a t, I s → step s a = some t → P t → guard s a)
    {s t : σ} {as : List α} (hs : I s) (hrun : exec step s as = some t) :
    (∀ bs cs u, as = bs ++ cs → exec step s bs = some u → P u) ↔ Guarded step guard s as :=
  have hkeep' (s : σ) (a : α) (t : σ) (_ : True) := hkeep s a t
  have hneed' (s : σ) (a : α) (t : σ) (_ : True) := hneed s a t
  forall_exec_iff_guarded_of_assume hP hkeep' hneed' (fun _ _ => trivial) hs hrun

/-- Exact rule for steps: two guards are met by the same runs if they agree wherever `I` and
`assume` hold, `assume` holds all along, and what meets the second guard keeps `I`. -/
theorem guarded_iff_guarded {I : σ → Prop} {assume guard' : σ → α → Prop}
    (hiff : ∀ s a, I s → assume s a → (guard s a ↔ guard' s a))
    (hstep : ∀ s a t, I s → assume s a → guard' s a → step s a = some t → I t)
    {s : σ} {as : List α} (hs : I s) (ha : Guarded step assume s as) :
    Guarded step guard s as ↔ Guarded step guard' s as := by
  induction as generalizing s with
  | nil => exact Iff.rfl
  | cons a as ih =>
    refine ⟨fun h => ?_, fun h => ?_⟩
    · have hg := (hiff s a hs ha.1).mp h.1
      exact ⟨hg, fun t ht => (ih (hstep s a t hs ha.1 hg ht) (ha.2 t ht)).mp (h.2 t ht)⟩
    · refine ⟨(hiff s a hs ha.1).mpr h.1, fun t ht => ?_⟩
      exact (ih (hstep s a t hs ha.1 h.1 ht) (ha.2 t ht)).mpr (h.2 t ht)

/-- Invariant rule for two guards: where every step that meets the first keeps `I` and meets the
second, a guarded run meets the second all along. -/
theorem Guarded.of_exec {I : σ → Prop} {guard' : σ → α → Prop}
    (hstep : ∀ s a t, I s → guard s a → step s a = some t → guard' s a ∧ I t) {s t : σ} {as : List α}
    (hs : I s) (hg : Guarded step guard s as) (hrun : exec step s as = some t) :
    Guarded step guard' s as := by
  induction as generalizing s with
  | nil => trivial
  | cons a as ih =>
    obtain ⟨u, hu, hrun⟩ := exec_cons_eq_some.mp hrun
    obtain ⟨ha, hI⟩ := hstep s a u hs hg.1 hu
    refine ⟨ha, fun v hv => ?_⟩
    obtain rfl : u = v := Option.some.inj (hu.symm.trans hv)
    exact ih hI (hg.2 u hu) hrun

/-- Simulation rule: if another machine takes what it sees of every step, and `R` relates the two
all along, the run is one of the other machine on what it sees. -/
theorem exists_exec_filterMap {τ β : Type*} {step' : τ → β → Option τ} {view : α → Option β}
    {R : σ → τ → Prop}
    (hstep : ∀ s a t u, R s u → guard s a → step s a = some t →
      view a = none ∧ R t u ∨ ∃ b w, view a = some b ∧ step' u b = some w ∧ R t w)
    {s t : σ} {u : τ} {as : List α} (hR : R s u) (hg : Guarded step guard s as)
    (hrun : exec step s as = some t) :
    ∃ w, exec step' u (as.filterMap view) = some w ∧ R t w := by
  induction as generalizing s u with
  | nil =>
    cases hrun
    exact ⟨u, rfl, hR⟩
  | cons a as ih =>
    obtain ⟨v, hv, hrun⟩ := exec_cons_eq_some.mp hrun
    rcases hstep s a v u hR hg.1 hv with ⟨hview, hR'⟩ | ⟨b, w, hview, hb, hR'⟩
    · rw [List.filterMap_cons_none hview]
      exact ih hR' (hg.2 v hv) hrun
    · rw [List.filterMap_cons_some hview]
      obtain ⟨x, hx, hRx⟩ := ih hR' (hg.2 v hv) hrun
      exact ⟨x, exec_cons_eq_some.mpr ⟨w, hb, hx⟩, hRx⟩

/-- Exact rule for a property of the run: where a guard keeps an invariant that has `P` as a
consequence, and every step into `P` meets the guard, the guard is met along a run exactly if `P`
holds all along. -/
theorem forall_exec_iff_guarded_of_history {I P : List α → σ → Prop} {s₀ : σ}
    (hP : ∀ as s, I as s → P as s)
    (hkeep : ∀ as s a t, I as s → guard s a → step s a = some t → I (as ++ [a]) t)
    (hneed : ∀ as s a t, I as s → step s a = some t → P (as ++ [a]) t → guard s a)
    (hs : I [] s₀) {as : List α} {t : σ} (hrun : exec step s₀ as = some t) :
    (∀ bs cs u, as = bs ++ cs → exec step s₀ bs = some u → P bs u) ↔ Guarded step guard s₀ as := by
  -- a guarded run has the invariant at its end
  have hinv :
      ∀ {bs : List α} {u : σ}, Guarded step guard s₀ bs → exec step s₀ bs = some u → I bs u := by
    intro bs
    induction bs using List.reverseRecOn with
    | nil => exact fun _ hu => Option.some.inj hu ▸ hs
    | append_singleton bs a ih =>
      intro u hg hu
      obtain ⟨v, hv, ha⟩ := exec_concat_eq_some.mp hu
      obtain ⟨hg, hga⟩ := (guarded_concat hv).mp hg
      exact hkeep bs v a u (ih hg hv) hga ha
  refine ⟨fun h => ?_, fun hg bs cs u has hu => hP bs u (hinv ((has ▸ hg).append hu).1 hu)⟩
  induction as using List.reverseRecOn generalizing t with
  | nil => trivial
  | append_singleton as a ih =>
    obtain ⟨v, hv, ha⟩ := exec_concat_eq_some.mp hrun
    have hg : Guarded step guard s₀ as := ih hv fun bs cs u has hu =>
      h bs (cs ++ [a]) u (by rw [has, List.append_assoc]) hu
    refine (guarded_concat hv).mpr ⟨hg, ?_⟩
    exact hneed as v a t (hinv hg hv) ha (h (as ++ [a]) [] t (List.append_nil _).symm hrun)

/-- Progress rule: an action that can be repeated while a measure is positive, and lowers it, is
repeated until the measure is zero. -/
theorem exists_exec_replicate {I : σ → Prop} {a : α} (μ : σ → ℕ)
    (hstep : ∀ s, I s → μ s ≠ 0 → ∃ t, step s a = some t ∧ I t ∧ μ t < μ s) {s : σ} (hs : I s) :
    ∃ n t, exec step s (List.replicate n a) = some t ∧ I t ∧ μ t = 0 := by
  induction hμ : μ s using Nat.strongRecOn generalizing s with
  | ind k ih =>
    by_cases hzero : μ s = 0
    · exact ⟨0, s, rfl, hs, hzero⟩
    · obtain ⟨u, hu, hI, hlt⟩ := hstep s hs hzero
      obtain ⟨n, t, hrun, ht⟩ := ih (μ u) (hμ ▸ hlt) hI rfl
      exact ⟨n + 1, t, exec_cons_eq_some.mpr ⟨u, hu, hrun⟩, ht⟩

/-- A computed test of the last state of a run gives the run and the fact tested. -/
theorem exists_exec_of_test {p : σ → Bool} {s : σ} {as : List α}
    (h : (exec step s as).map p = some true) : ∃ t, exec step s as = some t ∧ p t = true :=
  Option.map_eq_some_iff.mp h

/-! ## What has happened -/

/-- An action with `p` is in the history, and none with `q` after it. -/
def Since (p q : α → Prop) (as : List α) : Prop :=
  ∃ bs a cs, as = bs ++ a :: cs ∧ p a ∧ ∀ c ∈ cs, ¬ q c

theorem not_since_nil {p q : α → Prop} : ¬ Since p q [] := by
  rintro ⟨bs, a, cs, has, -⟩
  exact List.append_ne_nil_of_right_ne_nil bs (List.cons_ne_nil a cs) has.symm

/-- The last action counts, or it leaves what was. -/
theorem since_concat {p q : α → Prop} {as : List α} {a : α} :
    Since p q (as ++ [a]) ↔ p a ∨ Since p q as ∧ ¬ q a := by
  constructor
  · rintro ⟨bs, b, cs, has, hp, hq⟩
    rcases List.eq_nil_or_concat cs with rfl | ⟨cs, c, rfl⟩
    · obtain ⟨-, hab⟩ := List.append_inj' has rfl
      cases hab
      exact .inl hp
    · rw [List.concat_eq_append] at has hq
      rw [← List.cons_append, ← List.append_assoc] at has
      obtain ⟨rfl, hac⟩ := List.append_inj' has rfl
      cases hac
      exact .inr ⟨⟨bs, b, cs, rfl, hp, fun c hc => hq c (List.mem_append_left _ hc)⟩,
        hq a (by simp)⟩
  · rintro (hp | ⟨⟨bs, b, cs, rfl, hp, hq⟩, ha⟩)
    · exact ⟨as, a, [], rfl, hp, by simp⟩
    · refine ⟨bs, b, cs ++ [a], by simp, hp, fun c hc => ?_⟩
      rcases List.mem_append.mp hc with hc | hc
      · exact hq c hc
      · rwa [List.mem_singleton.mp hc]

/-- The first action with `p` in a history, and what came before it. -/
def first (p : α → Bool) : List α → Option (List α × α)
  | [] => none
  | a :: as => if p a then some ([], a) else (first p as).map fun x => (a :: x.1, x.2)

/-- The next action counts only if none has before. -/
theorem first_concat (p : α → Bool) (as : List α) (a : α) :
    first p (as ++ [a]) = (first p as).or (if p a then some (as, a) else none) := by
  induction as with
  | nil => rfl
  | cons b as ih =>
    rw [List.cons_append, first, first]
    by_cases hb : p b = true
    · rw [if_pos hb, if_pos hb]
      rfl
    · rw [if_neg hb, if_neg hb, ih]
      cases first p as with
      | some x => rfl
      | none =>
        by_cases ha : p a = true
        · rw [if_pos ha, if_pos ha]
          rfl
        · rw [if_neg ha, if_neg ha]
          rfl

end Machine
