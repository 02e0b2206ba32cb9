import Mathlib.Data.Nat.Factorial.Basic
import Mathlib.Algebra.BigOperators.Intervals
import Mathlib.Algebra.Order.BigOperators.Group.Finset
import Mathlib.Tactic

/-!
# A rounded exponential series

The terms of the exponential series in fixed point, each computed from the one before and
rounded to nearest. Every term is monotone in the exponent, the first two are exact, and a term
that is rounded to nothing ends the series. The error of a term is carried into the next one
with its factor, plus half a unit.
-/
namespace StellarFlow.Foundation

open Finset

/-- The `n`-th term of the series at `x / s`, as a multiple of `1 / s`. -/
def roundedTerm (s x : ℕ) : ℕ → ℕ
  | 0 => s
  | n + 1 => (roundedTerm s x n * x + s * (n + 1) / 2) / (s * (n + 1))

/-- The sum of the first `n` terms. -/
def roundedExp (s x n : ℕ) : ℕ := ∑ i ∈ range n, roundedTerm s x i

/-- The exact term. -/
def exactTerm (s x n : ℕ) : ℚ := s * ((x / s : ℚ) ^ n / n.factorial)

/-- What the roundings up to a term add up to for exponents of at most `k`. -/
def termError (k : ℚ) : ℕ → ℚ
  | 0 => 0
  | 1 => 0
  | n + 2 => termError k (n + 1) * k / (n + 2) + 1 / 2

section Terms

variable {s x y m n : ℕ}

theorem roundedTerm_mono (hxy : x ≤ y) (n : ℕ) : roundedTerm s x n ≤ roundedTerm s y n := by
  induction n with
  | zero => exact le_rfl
  | succ n ih => exact Nat.div_le_div_right (Nat.add_le_add_right (Nat.mul_le_mul ih hxy) _)

theorem roundedExp_mono (hxy : x ≤ y) (n : ℕ) : roundedExp s x n ≤ roundedExp s y n :=
  sum_le_sum fun i _ => roundedTerm_mono hxy i

theorem roundedTerm_one (hs : 0 < s) (x : ℕ) : roundedTerm s x 1 = x := by
  have hhalf : s / 2 / s = 0 := Nat.div_eq_of_lt (Nat.div_lt_self hs (by norm_num))
  simp only [roundedTerm, zero_add, mul_one]
  rw [add_comm, Nat.add_mul_div_left _ _ hs, hhalf, zero_add]

/-- No term follows one that was rounded to nothing. -/
theorem roundedTerm_eq_zero (hs : 0 < s) (h : roundedTerm s x m = 0) (hmn : m ≤ n) :
    roundedTerm s x n = 0 := by
  induction n, hmn using Nat.le_induction with
  | base => exact h
  | succ n _ ih =>
    rw [roundedTerm, ih, zero_mul, zero_add]
    exact Nat.div_eq_of_lt (Nat.div_lt_self (Nat.mul_pos hs n.succ_pos) (by norm_num))

theorem roundedExp_succ (s x n : ℕ) :
    roundedExp s x (n + 1) = roundedExp s x n + roundedTerm s x n :=
  sum_range_succ _ n

theorem roundedExp_one (s x : ℕ) : roundedExp s x 1 = s := by simp [roundedExp, roundedTerm]

theorem roundedExp_eq_of_eq_zero (hs : 0 < s) (h : roundedTerm s x m = 0) (hmn : m ≤ n) :
    roundedExp s x n = roundedExp s x m := by
  induction n, hmn using Nat.le_induction with
  | base => rfl
  | succ n hle ih => rw [roundedExp_succ, ih, roundedTerm_eq_zero hs h hle, add_zero]

/-- The first two terms are a lower bound. -/
theorem add_le_roundedExp (hs : 0 < s) (x : ℕ) (hn : 2 ≤ n) : s + x ≤ roundedExp s x n := by
  have hle : roundedExp s x 2 ≤ roundedExp s x n :=
    sum_le_sum_of_subset (range_subset_range.mpr hn)
  rw [roundedExp_succ, roundedExp_succ, roundedTerm_one hs, roundedTerm] at hle
  simpa [roundedExp] using hle

end Terms

/-! ## The error -/

section Error

variable {s x m n : ℕ} {k : ℚ}

theorem abs_round_sub_le {a b : ℕ} (hb : 0 < b) :
    |(((a + b / 2) / b : ℕ) : ℚ) - a / b| ≤ 1 / 2 := by
  have hbq : (0 : ℚ) < b := by exact_mod_cast hb
  have hle := Nat.div_mul_le_self (a + b / 2) b
  have hlt := Nat.lt_div_mul_add hb (a := a + b / 2)
  generalize (a + b / 2) / b = q at *
  have hup : 2 * (q * b) ≤ 2 * a + b := by omega
  have hdown : 2 * a ≤ 2 * (q * b) + b := by omega
  have hup' : (2 * (q * b) : ℚ) ≤ 2 * a + b := by exact_mod_cast hup
  have hdown' : (2 * a : ℚ) ≤ 2 * (q * b) + b := by exact_mod_cast hdown
  rw [abs_le]
  constructor
  · rw [neg_le_sub_iff_le_add, div_le_iff₀ hbq]
    linarith
  · rw [sub_le_iff_le_add, ← sub_le_iff_le_add', le_div_iff₀ hbq]
    linarith

theorem exactTerm_succ (hs : 0 < s) (x n : ℕ) :
    exactTerm s x (n + 1) = exactTerm s x n * x / (s * (n + 1 : ℕ)) := by
  have hsq : (s : ℚ) ≠ 0 := by exact_mod_cast hs.ne'
  have hn : ((n + 1 : ℕ) : ℚ) ≠ 0 := by exact_mod_cast n.succ_ne_zero
  have hf : (n.factorial : ℚ) ≠ 0 := by exact_mod_cast n.factorial_ne_zero
  rw [exactTerm, exactTerm, Nat.factorial_succ, Nat.cast_mul, pow_succ]
  field_simp

/-- The error of one term. -/
theorem abs_roundedTerm_sub_le (hs : 0 < s) (hx : (x : ℚ) ≤ k * s) :
    ∀ n, |(roundedTerm s x n : ℚ) - exactTerm s x n| ≤ termError k n
  | 0 => by simp [roundedTerm, exactTerm, termError]
  | 1 => by
    have hsq : (s : ℚ) ≠ 0 := by exact_mod_cast hs.ne'
    rw [roundedTerm_one hs, exactTerm, pow_one, Nat.factorial_one, Nat.cast_one, div_one,
      mul_div_cancel₀ _ hsq, sub_self, abs_zero]
    exact le_rfl
  | n + 2 => by
    have ih := abs_roundedTerm_sub_le hs hx (n + 1)
    have hsq : (0 : ℚ) < s := by exact_mod_cast hs
    have hden : (0 : ℚ) < (s * (n + 1 + 1) : ℕ) := by exact_mod_cast Nat.mul_pos hs (by omega)
    have hround := abs_round_sub_le (a := roundedTerm s x (n + 1) * x)
      (Nat.mul_pos hs (n + 1).succ_pos)
    have hfactor : (x : ℚ) / (s * (n + 1 + 1) : ℕ) ≤ k / (n + 2) := by
      rw [div_le_div_iff₀ hden (by positivity)]
      push_cast
      nlinarith
    have hcarry : |((roundedTerm s x (n + 1) * x : ℕ) : ℚ) / (s * (n + 1 + 1) : ℕ) -
        exactTerm s x (n + 2)| ≤ termError k (n + 1) * k / (n + 2) := by
      rw [exactTerm_succ hs, ← Nat.cast_mul, Nat.cast_mul, ← sub_div, ← sub_mul, mul_div_assoc,
        abs_mul, mul_div_assoc, abs_of_nonneg (div_nonneg (Nat.cast_nonneg x) hden.le)]
      exact mul_le_mul ih hfactor (div_nonneg (Nat.cast_nonneg x) hden.le)
        ((abs_nonneg _).trans ih)
    calc |(roundedTerm s x (n + 2) : ℚ) - exactTerm s x (n + 2)|
        ≤ _ := abs_sub_le _ (((roundedTerm s x (n + 1) * x : ℕ) : ℚ) / (s * (n + 1 + 1) : ℕ)) _
      _ ≤ 1 / 2 + termError k (n + 1) * k / (n + 2) := add_le_add hround hcarry
      _ = termError k (n + 2) := by rw [termError, add_comm]

/-- The error of a sum whose terms end at the `m`-th one: what the roundings before add up to,
and the exact terms from there on. -/
theorem abs_roundedExp_sub_le (hs : 0 < s) (hx : (x : ℚ) ≤ k * s) (h0 : roundedTerm s x m = 0)
    (hmn : m ≤ n) : |(roundedExp s x n : ℚ) - ∑ i ∈ range n, exactTerm s x i| ≤
      ∑ i ∈ range m, termError k i + ∑ i ∈ Ico m n, s * (k ^ i / i.factorial) := by
  have htail : ∀ i, |exactTerm s x i| ≤ s * (k ^ i / i.factorial) := by
    intro i
    have hsq : (0 : ℚ) < s := by exact_mod_cast hs
    have hbase : (x / s : ℚ) ≤ k := (div_le_iff₀ hsq).mpr hx
    have hpow : (x / s : ℚ) ^ i ≤ k ^ i := pow_le_pow_left₀ (by positivity) hbase i
    rw [exactTerm, abs_of_nonneg (by positivity)]
    gcongr
  rw [roundedExp_eq_of_eq_zero hs h0 hmn, roundedExp, Nat.cast_sum,
    ← sum_range_add_sum_Ico _ hmn, ← sub_sub, ← sum_sub_distrib]
  refine (abs_sub _ _).trans (add_le_add ?_ ?_)
  · exact (abs_sum_le_sum_abs _ _).trans (sum_le_sum fun i _ => abs_roundedTerm_sub_le hs hx i)
  · exact (abs_sum_le_sum_abs _ _).trans (sum_le_sum fun i _ => htail i)

end Error

end StellarFlow.Foundation
