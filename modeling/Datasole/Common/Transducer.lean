import Mathlib.Data.List.Basic
import Mathlib.Logic.Function.Basic

/-!
# Transducers

A transducer answers every input and goes on in a new state: `step : σ → α → β × σ`.
`outputs_filter` is the rule for two runs, one of which leaves out some inputs of the other: what
relates their states may depend on the inputs that are still to come. `outputs_eq` is the case that
nothing is left out, and `outputs_pi_filter` the case of independent components, each with inputs of
its own.
-/

namespace Transducer

variable {σ τ α β κ : Type*}

/-- The answers to the inputs, in order. -/
def outputs (step : σ → α → β × σ) : σ → List α → List β
  | _, [] => []
  | s, a :: as => (step s a).1 :: outputs step (step s a).2 as

/-- The state after the inputs. -/
def final (step : σ → α → β × σ) : σ → List α → σ
  | s, [] => s
  | s, a :: as => final step (step s a).2 as

/-- The answers to those inputs that are kept, in the run of all. -/
def outputsAt (step : σ → α → β × σ) (keep : α → Bool) (s : σ) (as : List α) : List β :=
  ((as.zip (outputs step s as)).filter fun x => keep x.1).map Prod.snd

/-- Every input meets `P` in the state that it finds. -/
def Along (step : σ → α → β × σ) (P : σ → α → Prop) : σ → List α → Prop
  | _, [] => True
  | s, a :: as => P s a ∧ Along step P (step s a).2 as

/-- Components with states of their own; an input is for the component with its key. -/
def pi [DecidableEq κ] (key : α → κ) (step : σ → α → β × σ) (s : κ → σ) (a : α) : β × (κ → σ) :=
  ((step (s (key a)) a).1, Function.update s (key a) (step (s (key a)) a).2)

variable {step : σ → α → β × σ} {step' : τ → α → β × τ} {keep : α → Bool}

instance Along.decidable {P : σ → α → Prop} [∀ s a, Decidable (P s a)] :
    ∀ (as : List α) (s : σ), Decidable (Along step P s as)
  | [], _ => .isTrue trivial
  | a :: as, s =>
    have : Decidable (Along step P (step s a).2 as) := Along.decidable as (step s a).2
    inferInstanceAs (Decidable (P s a ∧ Along step P (step s a).2 as))

/-- An input that is kept has its answer first; one that is not has none. -/
theorem outputsAt_cons (s : σ) (a : α) (as : List α) :
    outputsAt step keep s (a :: as) =
      if keep a then (step s a).1 :: outputsAt step keep (step s a).2 as
      else outputsAt step keep (step s a).2 as := by
  cases h : keep a <;> simp [outputsAt, outputs, h]

/-- Where all inputs are kept, the answers are those of the run. -/
theorem outputsAt_of_forall {s : σ} {as : List α} (h : ∀ a ∈ as, keep a = true) :
    outputsAt step keep s as = outputs step s as := by
  induction as generalizing s with
  | nil => rfl
  | cons a as ih =>
    rw [outputsAt_cons, if_pos (h a List.mem_cons_self),
      ih fun b hb => h b (List.mem_cons_of_mem _ hb)]
    rfl

/-- The answers to `as ++ bs` that are kept are those to `as`, and then those to `bs`. -/
theorem outputsAt_append (s : σ) (as bs : List α) :
    outputsAt step keep s (as ++ bs) =
      outputsAt step keep s as ++ outputsAt step keep (final step s as) bs := by
  induction as generalizing s with
  | nil => rfl
  | cons a as ih =>
    rw [List.cons_append, outputsAt_cons, outputsAt_cons, ih, final]
    split <;> rfl

/-- The answers to `as ++ bs` are those to `as`, and then those to `bs` in the state reached. -/
theorem outputs_append (s : σ) (as bs : List α) :
    outputs step s (as ++ bs) = outputs step s as ++ outputs step (final step s as) bs := by
  induction as generalizing s with
  | nil => rfl
  | cons a as ih => exact congrArg (_ :: ·) (ih _)

/-- The state after `as ++ bs` is reached through the one after `as`. -/
theorem final_append (s : σ) (as bs : List α) :
    final step s (as ++ bs) = final step (final step s as) bs := by
  induction as generalizing s with
  | nil => rfl
  | cons a as ih => exact ih _

/-- A condition on every input that fails fails at a first one. -/
theorem along_or_exists (step : σ → α → β × σ) (P : σ → α → Prop) (s : σ) (as : List α) :
    Along step P s as ∨ ∃ before a after, as = before ++ a :: after ∧ Along step P s before ∧
      ¬ P (final step s before) a := by
  induction as generalizing s with
  | nil => exact .inl trivial
  | cons a as ih =>
    by_cases ha : P s a
    · rcases ih (step s a).2 with has | ⟨before, b, after, rfl, hbefore, hb⟩
      · exact .inl ⟨ha, has⟩
      · exact .inr ⟨a :: before, b, after, rfl, ⟨ha, hbefore⟩, hb⟩
    · exact .inr ⟨[], a, as, rfl, trivial, ha⟩

/-- What holds along a run holds along its beginnings. -/
theorem Along.of_append {P : σ → α → Prop} {s : σ} {as bs : List α}
    (h : Along step P s (as ++ bs)) :
    Along step P s as := by
  induction as generalizing s with
  | nil => trivial
  | cons a as ih => exact ⟨h.1, ih h.2⟩

/-- A run that leaves out inputs gives the same answers to the others, if the relation between the
states survives what is left out. -/
theorem outputs_filter {R : List α → σ → τ → Prop}
    (hleft : ∀ a as s t, R (a :: as) s t → keep a = false → R as (step s a).2 t)
    (hkept : ∀ a as s t, R (a :: as) s t → keep a = true →
      (step s a).1 = (step' t a).1 ∧ R as (step s a).2 (step' t a).2)
    {s : σ} {t : τ} {as : List α} (h : R as s t) :
    outputsAt step keep s as = outputs step' t (as.filter keep) := by
  induction as generalizing s t with
  | nil => rfl
  | cons a as ih =>
    rw [outputsAt_cons]
    cases hkeep : keep a with
    | false =>
      rw [if_neg (by decide), List.filter_cons_of_neg (by rw [hkeep]; decide)]
      exact ih (hleft a as s t h hkeep)
    | true =>
      obtain ⟨hanswer, hR⟩ := hkept a as s t h hkeep
      rw [if_pos rfl, List.filter_cons_of_pos hkeep, outputs, hanswer, ih hR]

/-- Two transducers whose answers agree and whose states stay related give the same answers. -/
theorem outputs_eq {R : σ → τ → Prop}
    (hstep : ∀ a s t, R s t → (step s a).1 = (step' t a).1 ∧ R (step s a).2 (step' t a).2)
    {s : σ} {t : τ} (h : R s t) (as : List α) : outputs step s as = outputs step' t as := by
  induction as generalizing s t with
  | nil => rfl
  | cons a as ih =>
    obtain ⟨hanswer, hR⟩ := hstep a s t h
    rw [outputs, outputs, hanswer, ih hR]

/-- A component answers as it would without the others. -/
theorem outputs_pi_filter [DecidableEq κ] (key : α → κ) (s : κ → σ) (k : κ) (as : List α) :
    outputsAt (pi key step) (fun a => key a = k) s as =
      outputs step (s k) (as.filter fun a => key a = k) := by
  refine outputs_filter (R := fun _ s t => s k = t) ?_ ?_ rfl
  · intro a as s t ht hkeep
    rw [← ht]
    exact Function.update_of_ne (Ne.symm (of_decide_eq_false hkeep)) _ _
  · intro a as s t ht hkeep
    obtain rfl := of_decide_eq_true hkeep
    subst ht
    exact ⟨rfl, Function.update_self ..⟩

/-- What every step on these inputs keeps holds in the end. -/
theorem final_invariant {I : σ → Prop} {as : List α} (hstep : ∀ s, ∀ a ∈ as, I s → I (step s a).2)
    {s : σ} (hs : I s) : I (final step s as) := by
  induction as generalizing s with
  | nil => exact hs
  | cons a as ih =>
    exact ih (fun t b hb => hstep t b (List.mem_cons_of_mem _ hb)) (hstep s a List.mem_cons_self hs)

end Transducer
