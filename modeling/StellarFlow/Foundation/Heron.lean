import Mathlib.Data.Nat.Sqrt
import Mathlib.Tactic

/-!
# Heron's square root

The iteration replaces a guess by the mean of the guess and the quotient by it, as long as
that makes it smaller. A guess that is not too small stays so, and where the iteration stops
it is not too large either.
-/
namespace StellarFlow.Foundation.Heron

/-- The iteration with a guess `x` and the next one `y`. -/
def loop (val x y : ℕ) : ℕ := if y < x then loop val y ((y + val / y) / 2) else x
termination_by x

/-- The next guess. -/
def next (val x : ℕ) : ℕ := (x + val / x) / 2

variable {val x : ℕ}

/-- By the inequality of the means, the next guess is not too small. -/
theorem lt_succ_next_sq (hx : 0 < x) : val < (next val x + 1) * (next val x + 1) := by
  have hquot : val < x * (val / x + 1) := Nat.lt_mul_div_succ val hx
  have hmean : x + (val / x + 1) ≤ 2 * (next val x + 1) := by
    unfold next
    omega
  generalize val / x + 1 = q at hquot hmean
  have hsq : (x + q) * (x + q) ≤ 2 * (next val x + 1) * (2 * (next val x + 1)) :=
    Nat.mul_le_mul hmean hmean
  have hmeans : 4 * (x * q) ≤ (x + q) * (x + q) := by
    rcases Nat.le_total x q with hle | hle
    · obtain ⟨k, rfl⟩ := Nat.exists_eq_add_of_le hle
      nlinarith
    · obtain ⟨k, rfl⟩ := Nat.exists_eq_add_of_le hle
      nlinarith
  nlinarith

/-- A guess that would not get smaller is not too large. -/
theorem sq_le_of_le_next (h : x ≤ next val x) : x * x ≤ val := by
  have hle : x ≤ val / x := by
    unfold next at h
    omega
  exact (Nat.mul_le_mul_left x hle).trans (Nat.mul_div_le val x)

/-- The next guess stays positive. -/
theorem next_pos (hval : 0 < val) (hx : 0 < x) : 0 < next val x := by
  have hnext : val < (next val x + 1) * (next val x + 1) := lt_succ_next_sq hx
  by_contra hzero
  rw [Nat.eq_zero_of_not_pos hzero] at hnext
  omega

theorem loop_eq_sqrt (hval : 0 < val) (hx : 0 < x) (h : val < (x + 1) * (x + 1)) :
    loop val x (next val x) = Nat.sqrt val := by
  induction x using Nat.strong_induction_on with
  | _ x ih =>
    rw [loop]
    split_ifs with hlt
    · exact ih _ hlt (next_pos hval hx) (lt_succ_next_sq hx)
    · exact Nat.eq_sqrt.mpr ⟨sq_le_of_le_next (not_lt.mp hlt), h⟩

/-- With the value itself as the first guess the next one is half of its successor. -/
theorem half_succ_eq_next (hval : 0 < val) : (((val : ℤ) + 1) / 2).toNat = next val val := by
  rw [next, Nat.div_self hval]
  omega

theorem loop_self_eq_sqrt (hval : 0 < val) : loop val val (next val val) = Nat.sqrt val :=
  loop_eq_sqrt hval hval (by nlinarith)

/-! ## Values with a limit -/

/-- The iteration on values up to a limit. There is no result where an operation fails: a
division by zero, or a sum above the limit. -/
def checkedLoop (limit val x y : ℕ) : Option ℕ :=
  if y < x then
    if y = 0 ∨ limit < y + val / y then none
    else checkedLoop limit val y ((y + val / y) / 2)
  else some x
termination_by x

/-- A guess and the quotient by it are together largest at the ends of the range. -/
theorem add_div_le (hx : 0 < x) (hle : x ≤ val) : x + val / x ≤ val + 1 := by
  have hquot : 0 < val / x := Nat.div_pos hle hx
  have hmul : x * (val / x) ≤ val := Nat.mul_div_le val x
  obtain ⟨m, hm⟩ := Nat.exists_eq_add_of_lt hx
  obtain ⟨n, hn⟩ := Nat.exists_eq_add_of_lt hquot
  rw [hn] at hmul ⊢
  rw [hm] at hmul ⊢
  nlinarith

/-- The loop ends with the root, without an operation that fails, when the limit is above the
value. -/
theorem checkedLoop_eq_sqrt {limit : ℕ} (hlimit : val < limit) (hval : 0 < val) (hx : 0 < x)
    (hle : x ≤ val) (h : val < (x + 1) * (x + 1)) :
    checkedLoop limit val x (next val x) = some (Nat.sqrt val) := by
  induction x using Nat.strong_induction_on with
  | _ x ih =>
    rw [checkedLoop]
    split_ifs with hlt hfail
    · have hpos : 0 < next val x := next_pos hval hx
      have hsum : next val x + val / next val x ≤ val + 1 := add_div_le hpos (hlt.le.trans hle)
      omega
    · exact ih _ hlt (next_pos hval hx) (hlt.le.trans hle) (lt_succ_next_sq hx)
    · rw [Option.some.injEq]
      exact Nat.eq_sqrt.mpr ⟨sq_le_of_le_next (not_lt.mp hlt), h⟩

end StellarFlow.Foundation.Heron
