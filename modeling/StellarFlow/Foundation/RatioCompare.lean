import Mathlib.Tactic

/-!
# Comparing fractions without multiplying

Two fractions are compared by their integer parts. When these agree, the comparison goes on
with the reciprocals of the remainders, which turns it around. The numbers only get smaller,
and the answer is the one that cross multiplication would give.
-/
namespace StellarFlow.Foundation

/-- The loop of the comparison: `a / b ≥ c / d` in the direction `ge`, `a / b ≤ c / d` in the
other one. A zero denominator is excluded by its callers. -/
def ratioLoop (ge : Bool) (a b c d : ℕ) : Bool :=
  if b = 0 ∨ d = 0 then false
  else if a / b ≠ c / d then
    if ge then decide (c / d < a / b) else decide (a / b < c / d)
  else if a % b = 0 ∧ c % d = 0 then true
  else if a % b = 0 then !ge
  else if c % d = 0 then ge
  else ratioLoop (!ge) b (a % b) d (c % d)
termination_by b
decreasing_by exact Nat.mod_lt _ (by omega)

def ratioGe (a b c d : ℕ) : Bool := ratioLoop true a b c d

variable {a b c d : ℕ}

/-- A larger integer part decides. -/
theorem cross_lt_of_div_lt (hb : 0 < b) (hd : 0 < d) (h : c / d < a / b) : c * b < a * d := by
  have ha : (c / d + 1) * b ≤ a := (Nat.le_div_iff_mul_le hb).mp h
  have hc : c < (c / d + 1) * d := Nat.lt_mul_of_div_lt (Nat.lt_succ_self _) hd
  calc c * b < (c / d + 1) * d * b := Nat.mul_lt_mul_of_pos_right hc hb
    _ = (c / d + 1) * b * d := by ring
    _ ≤ a * d := Nat.mul_le_mul_right d ha

/-- With the same integer part the remainders decide. -/
theorem cross_le_iff_of_div_eq (h : a / b = c / d) :
    c * b ≤ a * d ↔ c % d * b ≤ a % b * d := by
  have ha := Nat.div_add_mod a b
  have hc := Nat.div_add_mod c d
  have hleft : c * b = d * (a / b) * b + c % d * b := by
    rw [← add_mul, h, hc]
  have hright : a * d = d * (a / b) * b + a % b * d := by
    calc a * d = (b * (a / b) + a % b) * d := by rw [ha]
      _ = d * (a / b) * b + a % b * d := by ring
  rw [hleft, hright]
  exact Nat.add_le_add_iff_left

/-- The loop answers the comparison in its direction. -/
theorem ratioLoop_iff (ge : Bool) (a b c d : ℕ) (hb : 0 < b) (hd : 0 < d) :
    ratioLoop ge a b c d = true ↔ if ge then c * b ≤ a * d else a * d ≤ c * b := by
  fun_induction ratioLoop ge a b c d with
  | case1 ge a b c d h => omega
  | case2 a b c d h hne =>
    simp only [decide_eq_true_eq, if_true]
    rcases lt_or_gt_of_ne hne with hlt | hlt
    · exact iff_of_false hlt.not_gt (cross_lt_of_div_lt hd hb hlt).not_ge
    · exact iff_of_true hlt (cross_lt_of_div_lt hb hd hlt).le
  | case3 ge a b c d h hne hge =>
    rw [if_neg hge, decide_eq_true_eq]
    rcases lt_or_gt_of_ne hne with hlt | hlt
    · exact iff_of_true hlt (cross_lt_of_div_lt hd hb hlt).le
    · exact iff_of_false hlt.not_gt (cross_lt_of_div_lt hb hd hlt).not_ge
  | case4 ge a b c d h heq hz =>
    have hle := cross_le_iff_of_div_eq (not_not.mp heq)
    have hge := cross_le_iff_of_div_eq (not_not.mp heq).symm
    rw [hle, hge, hz.1, hz.2]
    simp
  | case5 ge a b c d h heq hz ha =>
    have hc : 0 < c % d * b := Nat.mul_pos (by omega) hb
    rw [cross_le_iff_of_div_eq (not_not.mp heq), cross_le_iff_of_div_eq (not_not.mp heq).symm, ha]
    cases ge <;> simp [hc.ne']
  | case6 ge a b c d h heq hz ha hc =>
    rw [cross_le_iff_of_div_eq (not_not.mp heq), cross_le_iff_of_div_eq (not_not.mp heq).symm, hc]
    cases ge <;> simp [ha, hd.ne']
  | case7 ge a b c d h heq hz ha hc ih =>
    rw [ih (Nat.pos_of_ne_zero ha) (Nat.pos_of_ne_zero hc),
      cross_le_iff_of_div_eq (not_not.mp heq), cross_le_iff_of_div_eq (not_not.mp heq).symm]
    cases ge <;> simp [Nat.mul_comm]

theorem ratioGe_iff (hb : 0 < b) (hd : 0 < d) : ratioGe a b c d = true ↔ c * b ≤ a * d :=
  ratioLoop_iff true a b c d hb hd

end StellarFlow.Foundation
