import Mathlib.Algebra.Order.Ring.Int
import Mathlib.Data.Nat.Log
import Mathlib.Tactic.Ring

/-!
# Adding binary64 numbers

Every finite binary64 number is a whole multiple of the smallest one, `2 ^ -1074`, and so is the
exact sum of two. Numbers are therefore counted in that unit, and a sum is an integer that is
rounded once: to the nearest number with a significand of 53 bits, to the one with the even
significand in a tie, and to an infinity from `2 ^ 1024` on.

`le_roundNat` and `roundNat_le` say that rounding does not pass a number of the format. From them: a
sum with an amount that is not negative does not come out below its first part (`le_add`).
-/

namespace Binary64

/-! ## Rounding to a precision -/

/-- `n` has a significand of at most `p` bits. -/
def HasPrecision (p n : ℕ) : Prop := ∃ m q, m ≤ 2 ^ p ∧ n = m * 2 ^ q

/-- The exponent of the last place of `n` when it has `p` places. -/
def lastPlace (p n : ℕ) : ℕ := n.log2 + 1 - p

/-- `n` rounded to `p` places, to the nearest and then to the even significand. -/
def roundNat (p n : ℕ) : ℕ :=
  let unit := 2 ^ lastPlace p n
  let kept := n / unit
  let rest := n % unit
  (if 2 * rest < unit ∨ 2 * rest = unit ∧ kept % 2 = 0 then kept else kept + 1) * unit

variable {p n x : ℕ}

theorem hasPrecision_two_pow (p k : ℕ) : HasPrecision p (2 ^ k) :=
  ⟨1, k, Nat.one_le_two_pow, (one_mul _).symm⟩

/-- Above its last place a number has at most `p` bits. -/
theorem lt_two_pow (p n : ℕ) : n < 2 ^ (p + lastPlace p n) := by
  refine Nat.lt_log2_self.trans_le (Nat.pow_le_pow_right (by omega) ?_)
  unfold lastPlace
  omega

/-- Where there is something to round, `n` has all its places. -/
theorem two_pow_le (hp : 1 ≤ p) (h : 0 < lastPlace p n) : 2 ^ (p - 1 + lastPlace p n) ≤ n := by
  unfold lastPlace at h ⊢
  have hn : n ≠ 0 := by
    rintro rfl
    simp at h
    omega
  have hlog : p - 1 + (n.log2 + 1 - p) = n.log2 := by omega
  rw [hlog]
  exact Nat.log2_self_le hn

/-- Rounding goes to a neighbouring multiple of the last place, and leaves a multiple of it. -/
theorem roundNat_eq (p n : ℕ) : ∃ m, roundNat p n = m * 2 ^ lastPlace p n ∧
    n / 2 ^ lastPlace p n ≤ m ∧ m ≤ n / 2 ^ lastPlace p n + 1 ∧
    (n % 2 ^ lastPlace p n = 0 → m = n / 2 ^ lastPlace p n) := by
  refine ⟨_, rfl, ?_⟩
  have hpos : 0 < 2 ^ lastPlace p n := Nat.two_pow_pos _
  split <;> rename_i h
  · exact ⟨le_rfl, Nat.le_succ _, fun _ => rfl⟩
  · refine ⟨Nat.le_succ _, le_rfl, fun hzero => ?_⟩
    rw [hzero] at h
    exact absurd (Or.inl (by omega)) h

/-- What was rounded has the precision. -/
theorem hasPrecision_roundNat (p n : ℕ) : HasPrecision p (roundNat p n) := by
  obtain ⟨m, hround, -, hm, -⟩ := roundNat_eq p n
  have hlt : n / 2 ^ lastPlace p n < 2 ^ p := by
    rw [Nat.div_lt_iff_lt_mul (Nat.two_pow_pos _), ← pow_add]
    exact lt_two_pow p n
  exact ⟨m, lastPlace p n, by omega, hround⟩

/-- A number of the precision is a multiple of the last place of `n`, or below all that `n` can
be. -/
theorem multiple_or_le (hp : 1 ≤ p) (hx : HasPrecision p x) (n : ℕ) :
    (∃ k, x = k * 2 ^ lastPlace p n) ∨
      0 < lastPlace p n ∧ x ≤ 2 ^ (p - 1) * 2 ^ lastPlace p n := by
  obtain ⟨m, q, hm, rfl⟩ := hx
  rcases Nat.lt_or_ge q (lastPlace p n) with hq | hq
  · refine .inr ⟨by omega, ?_⟩
    have hexp : p + q ≤ p - 1 + lastPlace p n := by omega
    calc m * 2 ^ q ≤ 2 ^ p * 2 ^ q := Nat.mul_le_mul_right _ hm
      _ = 2 ^ (p + q) := (pow_add ..).symm
      _ ≤ 2 ^ (p - 1 + lastPlace p n) := Nat.pow_le_pow_right (by omega) hexp
      _ = 2 ^ (p - 1) * 2 ^ lastPlace p n := pow_add ..
  · refine .inl ⟨m * 2 ^ (q - lastPlace p n), ?_⟩
    rw [mul_assoc, ← pow_add, Nat.sub_add_cancel hq]

/-- Rounding up to a number of the precision or beyond it stays beyond it. -/
theorem le_roundNat (hp : 1 ≤ p) (hx : HasPrecision p x) (h : x ≤ n) : x ≤ roundNat p n := by
  obtain ⟨m, hround, hm, -⟩ := roundNat_eq p n
  have hpos : 0 < 2 ^ lastPlace p n := Nat.two_pow_pos _
  rw [hround]
  rcases multiple_or_le hp hx n with ⟨k, rfl⟩ | ⟨hplace, hle⟩
  · exact Nat.mul_le_mul_right _ (((Nat.le_div_iff_mul_le hpos).mpr h).trans hm)
  · have hfull := two_pow_le hp hplace
    rw [pow_add] at hfull
    exact hle.trans (Nat.mul_le_mul_right _ (((Nat.le_div_iff_mul_le hpos).mpr hfull).trans hm))

/-- A multiple of the last place is not rounded. -/
theorem roundNat_eq_self {k : ℕ} (h : n = k * 2 ^ lastPlace p n) : roundNat p n = n := by
  obtain ⟨m, hround, -, -, hm⟩ := roundNat_eq p n
  have hdvd : 2 ^ lastPlace p n ∣ n := ⟨k, h.trans (mul_comm ..)⟩
  rw [hround, hm (Nat.mod_eq_zero_of_dvd hdvd)]
  exact Nat.div_mul_cancel hdvd

/-- Rounding down likewise. -/
theorem roundNat_le (hp : 1 ≤ p) (hx : HasPrecision p x) (h : n ≤ x) : roundNat p n ≤ x := by
  obtain ⟨m, hround, -, hm, -⟩ := roundNat_eq p n
  have hpos : 0 < 2 ^ lastPlace p n := Nat.two_pow_pos _
  rcases multiple_or_le hp hx n with ⟨k, rfl⟩ | ⟨hplace, hle⟩
  · rcases Nat.lt_or_ge (n / 2 ^ lastPlace p n) k with hk | hk
    · rw [hround]
      exact Nat.mul_le_mul_right _ (hm.trans hk)
    · -- `n` is the number itself
      have hn : n = k * 2 ^ lastPlace p n := le_antisymm h ((Nat.le_div_iff_mul_le hpos).mp hk)
      exact (roundNat_eq_self hn).trans_le h
  · have hfull := two_pow_le hp hplace
    rw [pow_add] at hfull
    have hn : n = 2 ^ (p - 1) * 2 ^ lastPlace p n := le_antisymm (h.trans hle) hfull
    exact (roundNat_eq_self hn).trans_le h

/-! ## Rounding integers -/

/-- An integer rounded to 53 places. -/
def round (n : ℤ) : ℤ := n.sign * roundNat 53 n.natAbs

/-- A number that is not negative is rounded as a natural number. -/
theorem round_of_nonneg {n : ℤ} (h : 0 ≤ n) : round n = roundNat 53 n.natAbs := by
  rcases h.eq_or_lt with rfl | h
  · decide
  · rw [round, Int.sign_eq_one_of_pos h, one_mul]

theorem round_neg (n : ℤ) : round (-n) = -round n := by
  rw [round, round, Int.sign_neg, Int.natAbs_neg, neg_mul]

/-- The size of a rounded number is the rounded size. -/
theorem natAbs_round (n : ℤ) : (round n).natAbs = roundNat 53 n.natAbs := by
  rcases le_total 0 n with h | h
  · rw [round_of_nonneg h, Int.natAbs_natCast]
  · have hneg : round n = -round (-n) := by rw [round_neg, neg_neg]
    rw [hneg, round_of_nonneg (by omega), Int.natAbs_neg, Int.natAbs_natCast, Int.natAbs_neg]

/-- Rounding does not come out below a number of the format that `n` is not below. -/
theorem le_round {x n : ℤ} (hx : HasPrecision 53 x.natAbs) (h : x ≤ n) : x ≤ round n := by
  rcases le_total 0 n with hn | hn
  · rw [round_of_nonneg hn]
    rcases le_total 0 x with hx0 | hx0
    · have hle : x.natAbs ≤ roundNat 53 n.natAbs := le_roundNat (by decide) hx (by omega)
      omega
    · omega
  · have hle : roundNat 53 (-n).natAbs ≤ x.natAbs := roundNat_le (by decide) hx (by omega)
    have hneg : round n = -round (-n) := by rw [round_neg, neg_neg]
    rw [hneg, round_of_nonneg (by omega)]
    omega

theorem round_le {x n : ℤ} (hx : HasPrecision 53 x.natAbs) (h : n ≤ x) : round n ≤ x := by
  have hle := le_round (x := -x) (n := -n) (by rwa [Int.natAbs_neg]) (neg_le_neg h)
  rw [round_neg] at hle
  omega

/-! ## Numbers -/

/-- The units of `1`. -/
@[irreducible]
def perOne : ℕ := 2 ^ 1074

/-- `2 ^ 1024`. -/
@[irreducible]
def limit : ℕ := 2 ^ 2098

/-- A finite number, as a multiple of `2 ^ -1074`. There is one zero: what is done with numbers here
does not tell `0` from `-0`. -/
structure Double where
  units : ℤ
  precise : HasPrecision 53 units.natAbs
  bounded : units.natAbs < limit
deriving DecidableEq

inductive Number where
  | nan
  | infinity
  | negInfinity
  | finite (x : Double)
deriving DecidableEq

namespace Number

def IsFinite : Number → Prop
  | finite _ => True
  | nan | infinity | negInfinity => False

instance : DecidablePred IsFinite
  | finite _ => .isTrue trivial
  | nan | infinity | negInfinity => .isFalse id

theorem isFinite_iff {a : Number} : a.IsFinite ↔ ∃ x, a = finite x := by
  cases a with
  | finite x => exact ⟨fun _ => ⟨x, rfl⟩, fun _ => trivial⟩
  | nan | infinity | negInfinity => exact ⟨False.elim, fun ⟨_, h⟩ => Number.noConfusion h⟩

/-- The number with so many units; too many are an infinity. -/
def ofUnits (n : ℤ) (h : HasPrecision 53 n.natAbs) : Number :=
  if hlt : n.natAbs < limit then finite ⟨n, h, hlt⟩
  else if 0 < n then infinity
  else negInfinity

def add : Number → Number → Number
  | finite x, finite y =>
    ofUnits (round (x.units + y.units)) (by rw [natAbs_round]; exact hasPrecision_roundNat ..)
  | nan, _ | _, nan => nan
  | infinity, negInfinity | negInfinity, infinity => nan
  | infinity, _ | _, infinity => infinity
  | negInfinity, _ | _, negInfinity => negInfinity

def neg : Number → Number
  | nan => nan
  | infinity => negInfinity
  | negInfinity => infinity
  | finite x => finite ⟨-x.units, by rw [Int.natAbs_neg]; exact x.precise, by
      rw [Int.natAbs_neg]; exact x.bounded⟩

def sub (a b : Number) : Number := a.add b.neg

/-- `a >= b`. -/
def ge : Number → Number → Bool
  | nan, _ | _, nan => false
  | finite x, finite y => y.units ≤ x.units
  | infinity, _ | _, negInfinity => true
  | negInfinity, _ | _, infinity => false

end Number

def Double.zero : Double := ⟨0, ⟨0, 0, by decide, rfl⟩, by decide +kernel⟩

def Double.one : Double where
  units := perOne
  precise := by
    rw [Int.natAbs_natCast]
    unfold perOne
    exact hasPrecision_two_pow 53 1074
  bounded := by decide +kernel

namespace Number

/-- A double made of a number of units has these units. -/
theorem units_of_ofUnits {n : ℤ} {h : HasPrecision 53 n.natAbs} {x : Double}
    (hx : ofUnits n h = finite x) : x.units = n := by
  unfold ofUnits at hx
  split at hx
  · cases hx
    rfl
  · split at hx <;> cases hx

theorem units_add {x y z : Double} (h : (finite x).add (finite y) = finite z) :
    z.units = round (x.units + y.units) :=
  units_of_ofUnits h

/-- A sum with an amount that is not negative does not come out below its first part. -/
theorem le_add {x y z : Double} (h : (finite x).add (finite y) = finite z) (hy : 0 ≤ y.units) :
    x.units ≤ z.units := by
  rw [units_add h]
  exact le_round x.precise (by omega)

/-- Adding what is not positive does not make a number larger. -/
theorem add_le {x y z : Double} (h : (finite x).add (finite y) = finite z) (hy : y.units ≤ 0) :
    z.units ≤ x.units := by
  rw [units_add h]
  exact round_le x.precise (by omega)

/-- What is not finite stays so under addition. -/
theorem not_isFinite_add {a b : Number} (h : ¬ a.IsFinite ∨ ¬ b.IsFinite) :
    ¬ (a.add b).IsFinite := by
  cases a <;> cases b <;> simp_all [IsFinite, add]

theorem zero_add_zero : (finite .zero).add (finite .zero) = finite .zero := by decide +kernel

/-- Numbers, added to a first one after the other, give no sum that overflows. -/
def AddUp : Number → List Number → Prop
  | _, [] => True
  | total, n :: ns => (total.add n).IsFinite ∧ AddUp (total.add n) ns

instance AddUp.decidable : ∀ (total : Number) (ns : List Number), Decidable (AddUp total ns)
  | _, [] => .isTrue trivial
  | total, n :: ns =>
    have := AddUp.decidable (total.add n) ns
    inferInstanceAs (Decidable ((total.add n).IsFinite ∧ AddUp (total.add n) ns))

/-- A sum that is finite began with a finite number. -/
theorem isFinite_of_isFinite_foldl {total : Number} {ns : List Number}
    (h : (ns.foldl add total).IsFinite) : total.IsFinite := by
  induction ns generalizing total with
  | nil => exact h
  | cons n ns ih =>
    by_contra hnot
    exact not_isFinite_add (.inl hnot) (ih h)

/-- A sum is finite exactly if none on the way to it overflows. -/
theorem isFinite_foldl_iff {total : Number} {ns : List Number} (h : total.IsFinite) :
    (ns.foldl add total).IsFinite ↔ AddUp total ns := by
  induction ns generalizing total with
  | nil => exact ⟨fun _ => trivial, fun _ => h⟩
  | cons n ns ih =>
    refine ⟨fun hsum => ?_, fun ⟨hn, hns⟩ => (ih hn).mpr hns⟩
    have hn : (total.add n).IsFinite := isFinite_of_isFinite_foldl hsum
    exact ⟨hn, (ih hn).mp hsum⟩

end Number

end Binary64
